import Mathlib.Data.List.Basic
import Mathlib.Tactic.Common

/-!
# Programs that call their environment

A program with exceptions is a tree: it returns, raises, leaves a note, or makes a
call and goes on with the answer or with the exception that the call raised.  The
environment is free, so an execution is any path through the tree, and its trace
lists the calls with what came back.

* `Exec p trace outcome`: the executions, cut off anywhere.
* `exec_bind_returned` and `exec_tryCatch_returned` take the executions of a
  composed program apart.
* `Safe`: a program logic over the history of calls.  `Safe.allowed` says that in
  every execution every call is allowed when it is made.
* `Calls`: a program that makes only calls of a given kind.  `Calls.safe` embeds it
  into the logic.
* `Prog.run`: the execution in a given environment; `Prog.replay`: in one that knows the
  history.
-/

namespace NetworkProxy

/-- A program whose calls `op : O` are answered in `A op`, with notes in `ν`,
exceptions in `ε` and results in `α`. -/
inductive Prog (O : Type) (A : O → Type) (ν ε α : Type)
  | ret (a : α)
  | raise (e : ε)
  /-- The bound on the number of rounds of a loop is reached. -/
  | stuck
  | note (n : ν) (next : Prog O A ν ε α)
  | call (op : O) (next : A op → Prog O A ν ε α) (fail : ε → Prog O A ν ε α)

/-- What a trace records. -/
inductive TraceEvent (O : Type) (A : O → Type) (ν ε : Type)
  | called (op : O) (answer : A op)
  | raised (op : O) (e : ε)
  | noted (n : ν)

/-- The call an event of a trace belongs to. -/
def TraceEvent.op? {O : Type} {A : O → Type} {ν ε : Type} : TraceEvent O A ν ε → Option O
  | .called op _ => some op
  | .raised op _ => some op
  | .noted _ => none

/-- How an execution stands at the end of its trace. -/
inductive Outcome (ε α : Type)
  | returned (a : α)
  | raised (e : ε)
  | running

variable {O : Type} {A : O → Type} {ν ε α β : Type}

namespace Prog

/-- A single call. -/
def perform (op : O) : Prog O A ν ε (A op) := .call op .ret .raise

/-- A single note. -/
def remark (n : ν) : Prog O A ν ε Unit := .note n (.ret ())

/-- Sequential composition. -/
def bind : Prog O A ν ε α → (α → Prog O A ν ε β) → Prog O A ν ε β
  | .ret a, k => k a
  | .raise e, _ => .raise e
  | .stuck, _ => .stuck
  | .note n p, k => .note n (bind p k)
  | .call op next fail, k => .call op (fun a => bind (next a) k) (fun e => bind (fail e) k)

instance : Monad (Prog O A ν ε) where
  pure := .ret
  bind := bind

/-- `try: p except e: h(e)`. -/
def tryCatch : Prog O A ν ε α → (ε → Prog O A ν ε α) → Prog O A ν ε α
  | .ret a, _ => .ret a
  | .raise e, h => h e
  | .stuck, _ => .stuck
  | .note n p, h => .note n (tryCatch p h)
  | .call op next fail, h =>
      .call op (fun a => tryCatch (next a) h) (fun e => tryCatch (fail e) h)

/-- `try: p finally: f`. -/
def finallyDo : Prog O A ν ε α → Prog O A ν ε Unit → Prog O A ν ε α
  | .ret a, f => bind f (fun _ => .ret a)
  | .raise e, f => bind f (fun _ => .raise e)
  | .stuck, _ => .stuck
  | .note n p, f => .note n (finallyDo p f)
  | .call op next fail, f =>
      .call op (fun a => finallyDo (next a) f) (fun e => finallyDo (fail e) f)

@[simp] theorem bind_eq (p : Prog O A ν ε α) (k : α → Prog O A ν ε β) :
    p >>= k = p.bind k := rfl

@[simp] theorem pure_eq (a : α) : (pure a : Prog O A ν ε α) = .ret a := rfl

end Prog

/-! ## Executions -/

/-- `Exec p trace outcome`: the program can make the calls of the trace, get these
answers, and then stand at the outcome. -/
inductive Exec : Prog O A ν ε α → List (TraceEvent O A ν ε) → Outcome ε α → Prop
  | running (p : Prog O A ν ε α) : Exec p [] .running
  | ret (a : α) : Exec (.ret a) [] (.returned a)
  | raise (e : ε) : Exec (.raise e) [] (.raised e)
  | note {n : ν} {p : Prog O A ν ε α} {t : List (TraceEvent O A ν ε)} {o : Outcome ε α}
      (h : Exec p t o) : Exec (.note n p) (.noted n :: t) o
  | called {op : O} {next : A op → Prog O A ν ε α} {fail : ε → Prog O A ν ε α} {a : A op}
      {t : List (TraceEvent O A ν ε)} {o : Outcome ε α}
      (h : Exec (next a) t o) : Exec (.call op next fail) (.called op a :: t) o
  | failed {op : O} {next : A op → Prog O A ν ε α} {fail : ε → Prog O A ν ε α} {e : ε}
      {t : List (TraceEvent O A ν ε)} {o : Outcome ε α}
      (h : Exec (fail e) t o) : Exec (.call op next fail) (.raised op e :: t) o

theorem exec_ret_returned {a b : α} {t : List (TraceEvent O A ν ε)} :
    Exec (Prog.ret a) t (.returned b) ↔ t = [] ∧ a = b := by
  constructor
  · rintro ⟨⟩
    exact ⟨rfl, rfl⟩
  · rintro ⟨rfl, rfl⟩
    exact .ret a

/-- Executions of a composed program that return. -/
theorem exec_bind_returned {p : Prog O A ν ε α} {k : α → Prog O A ν ε β}
    {t : List (TraceEvent O A ν ε)} {b : β} :
    Exec (p.bind k) t (.returned b) ↔
      ∃ t₁ a t₂, t = t₁ ++ t₂ ∧ Exec p t₁ (.returned a) ∧ Exec (k a) t₂ (.returned b) := by
  constructor
  · induction p generalizing t with
    | ret a =>
        intro h
        exact ⟨[], a, t, rfl, .ret a, h⟩
    | raise e => rintro ⟨⟩
    | stuck => rintro ⟨⟩
    | note n p ih =>
        rintro (_ | _ | _ | h)
        obtain ⟨t₁, a, t₂, rfl, hp, hk⟩ := ih h
        exact ⟨.noted n :: t₁, a, t₂, rfl, .note hp, hk⟩
    | call op next fail ihn ihf =>
        rintro (_ | _ | _ | _ | h | h)
        · obtain ⟨t₁, a, t₂, rfl, hp, hk⟩ := ihn _ h
          exact ⟨_ :: t₁, a, t₂, rfl, .called hp, hk⟩
        · obtain ⟨t₁, a, t₂, rfl, hp, hk⟩ := ihf _ h
          exact ⟨_ :: t₁, a, t₂, rfl, .failed hp, hk⟩
  · rintro ⟨t₁, a, t₂, rfl, hp, hk⟩
    induction p generalizing t₁ with
    | ret a' =>
        cases hp
        exact hk
    | raise e => cases hp
    | stuck => cases hp
    | note n p ih =>
        rcases hp with _ | _ | _ | hp
        exact .note (ih _ hp)
    | call op next fail ihn ihf =>
        rcases hp with _ | _ | _ | _ | hp | hp
        · exact .called (ihn _ _ hp)
        · exact .failed (ihf _ _ hp)

theorem exec_perform_returned {op : O} {t : List (TraceEvent O A ν ε)} {a : A op} :
    Exec (Prog.perform op) t (.returned a) ↔ t = [.called op a] := by
  constructor
  · rintro (_ | _ | _ | _ | h | h)
    · obtain ⟨rfl, rfl⟩ := exec_ret_returned.mp h
      rfl
    · cases h
  · rintro rfl
    exact .called (.ret a)

theorem not_exec_ret_raised {a : α} {e : ε} {t : List (TraceEvent O A ν ε)} :
    ¬ Exec (Prog.ret a) t (.raised e) := by
  rintro ⟨⟩

/-- Executions that return from a call and what follows it. -/
theorem exec_perform_bind_returned {op : O} {k : A op → Prog O A ν ε β}
    {t : List (TraceEvent O A ν ε)} {b : β} :
    Exec ((Prog.perform op).bind k) t (.returned b) ↔
      ∃ a t', t = .called op a :: t' ∧ Exec (k a) t' (.returned b) := by
  constructor
  · rintro (_ | _ | _ | _ | h | h)
    · exact ⟨_, _, rfl, h⟩
    · cases h
  · rintro ⟨a, t', rfl, h⟩
    exact .called h

/-- Executions in which a call, or what follows it, raises an exception. -/
theorem exec_perform_bind_raised {op : O} {k : A op → Prog O A ν ε β}
    {t : List (TraceEvent O A ν ε)} {e : ε} :
    Exec ((Prog.perform op).bind k) t (.raised e) ↔
      t = [.raised op e] ∨ ∃ a t', t = .called op a :: t' ∧ Exec (k a) t' (.raised e) := by
  constructor
  · rintro (_ | _ | _ | _ | h | h)
    · exact Or.inr ⟨_, _, rfl, h⟩
    · cases h
      exact Or.inl rfl
  · rintro (rfl | ⟨a, t', rfl, h⟩)
    · exact .failed (.raise e)
    · exact .called h

/-- Executions of a guarded program that return: without an exception, or through the
handler. -/
theorem exec_tryCatch_returned {p : Prog O A ν ε α} {h : ε → Prog O A ν ε α}
    {t : List (TraceEvent O A ν ε)} {b : α} :
    Exec (p.tryCatch h) t (.returned b) ↔
      Exec p t (.returned b) ∨
      ∃ t₁ e t₂, t = t₁ ++ t₂ ∧ Exec p t₁ (.raised e) ∧ Exec (h e) t₂ (.returned b) := by
  constructor
  · induction p generalizing t with
    | ret a => exact Or.inl
    | raise e =>
        intro hx
        exact Or.inr ⟨[], e, t, rfl, .raise e, hx⟩
    | stuck => rintro ⟨⟩
    | note n p ih =>
        rintro (_ | _ | _ | hx)
        rcases ih hx with hp | ⟨t₁, e, t₂, rfl, hp, hh⟩
        · exact Or.inl (.note hp)
        · exact Or.inr ⟨.noted n :: t₁, e, t₂, rfl, .note hp, hh⟩
    | call op next fail ihn ihf =>
        rintro (_ | _ | _ | _ | hx | hx)
        · rcases ihn _ hx with hp | ⟨t₁, e, t₂, rfl, hp, hh⟩
          · exact Or.inl (.called hp)
          · exact Or.inr ⟨_ :: t₁, e, t₂, rfl, .called hp, hh⟩
        · rcases ihf _ hx with hp | ⟨t₁, e, t₂, rfl, hp, hh⟩
          · exact Or.inl (.failed hp)
          · exact Or.inr ⟨_ :: t₁, e, t₂, rfl, .failed hp, hh⟩
  · rintro (hp | ⟨t₁, e, t₂, rfl, hp, hh⟩)
    · induction p generalizing t with
      | ret a => exact hp
      | raise e => cases hp
      | stuck => cases hp
      | note n p ih =>
          rcases hp with _ | _ | _ | hp
          exact .note (ih hp)
      | call op next fail ihn ihf =>
          rcases hp with _ | _ | _ | _ | hp | hp
          · exact .called (ihn _ hp)
          · exact .failed (ihf _ hp)
    · induction p generalizing t₁ with
      | ret a => cases hp
      | raise e' =>
          cases hp
          exact hh
      | stuck => cases hp
      | note n p ih =>
          rcases hp with _ | _ | _ | hp
          exact .note (ih _ hp)
      | call op next fail ihn ihf =>
          rcases hp with _ | _ | _ | _ | hp | hp
          · exact .called (ihn _ _ hp)
          · exact .failed (ihf _ _ hp)

/-! ## Running a program in an environment -/

/-- The execution in which every call is answered by `env`. -/
def Prog.run (env : ∀ op, Except ε (A op)) :
    Prog O A ν ε α → List (TraceEvent O A ν ε) × Outcome ε α
  | .ret a => ([], .returned a)
  | .raise e => ([], .raised e)
  | .stuck => ([], .running)
  | .note n p => (.noted n :: (p.run env).1, (p.run env).2)
  | .call op next fail =>
      match env op with
      | .ok a => (.called op a :: ((next a).run env).1, ((next a).run env).2)
      | .error e => (.raised op e :: ((fail e).run env).1, ((fail e).run env).2)

/-- A run is an execution. -/
theorem exec_run (env : ∀ op, Except ε (A op)) (p : Prog O A ν ε α) :
    Exec p (p.run env).1 (p.run env).2 := by
  induction p with
  | ret a => exact .ret a
  | raise e => exact .raise e
  | stuck => exact .running _
  | note n p ih => exact .note ih
  | call op next fail ihn ihf =>
      rw [Prog.run]
      cases env op with
      | ok a => exact .called (ihn a)
      | error e => exact .failed (ihf e)

/-- In a run every answer is the one of the environment. -/
theorem answer_of_called_run {env : ∀ op, Except ε (A op)} {p : Prog O A ν ε α} {op : O}
    {a : A op} (h : .called op a ∈ (p.run env).1) : env op = .ok a := by
  induction p with
  | ret a => cases h
  | raise e => cases h
  | stuck => cases h
  | note n p ih =>
      rcases List.mem_cons.mp h with h | h
      · cases h
      · exact ih h
  | call op' next fail ihn ihf =>
      rw [Prog.run] at h
      cases henv : env op' with
      | ok a' =>
          rw [henv] at h
          rcases List.mem_cons.mp h with h | h
          · cases h
            exact henv
          · exact ihn a' h
      | error e =>
          rw [henv] at h
          rcases List.mem_cons.mp h with h | h
          · cases h
          · exact ihf e h

/-- The calls made so far, newest first. -/
abbrev History (O : Type) (A : O → Type) (ν ε : Type) := List (TraceEvent O A ν ε)

/-- The execution after `past` in which `env`, which knows the history, answers. -/
def Prog.replay (env : History O A ν ε → ∀ op, Except ε (A op)) :
    Prog O A ν ε α → History O A ν ε → List (TraceEvent O A ν ε) × Outcome ε α
  | .ret a, _ => ([], .returned a)
  | .raise e, _ => ([], .raised e)
  | .stuck, _ => ([], .running)
  | .note n p, past =>
      (.noted n :: (p.replay env (.noted n :: past)).1, (p.replay env (.noted n :: past)).2)
  | .call op next fail, past =>
      match env past op with
      | .ok a =>
          (.called op a :: ((next a).replay env (.called op a :: past)).1,
            ((next a).replay env (.called op a :: past)).2)
      | .error e =>
          (.raised op e :: ((fail e).replay env (.raised op e :: past)).1,
            ((fail e).replay env (.raised op e :: past)).2)

theorem exec_replay (env : History O A ν ε → ∀ op, Except ε (A op)) (p : Prog O A ν ε α)
    (past : History O A ν ε) : Exec p (p.replay env past).1 (p.replay env past).2 := by
  induction p generalizing past with
  | ret a => exact .ret a
  | raise e => exact .raise e
  | stuck => exact .running _
  | note n p ih => exact .note (ih _)
  | call op next fail ihn ihf =>
      rw [Prog.replay]
      cases env past op with
      | ok a => exact .called (ihn a _)
      | error e => exact .failed (ihf e _)

/-- In a replay every answer is the one of the environment, for some history. -/
theorem answer_of_called_replay {env : History O A ν ε → ∀ op, Except ε (A op)}
    {p : Prog O A ν ε α} {past : History O A ν ε} {op : O} {a : A op}
    (h : .called op a ∈ (p.replay env past).1) : ∃ past', env past' op = .ok a := by
  induction p generalizing past with
  | ret a => cases h
  | raise e => cases h
  | stuck => cases h
  | note n p ih =>
      rcases List.mem_cons.mp h with h | h
      · cases h
      · exact ih h
  | call op' next fail ihn ihf =>
      rw [Prog.replay] at h
      cases henv : env past op' with
      | ok a' =>
          rw [henv] at h
          rcases List.mem_cons.mp h with h | h
          · cases h
            exact ⟨past, henv⟩
          · exact ihn a' h
      | error e =>
          rw [henv] at h
          rcases List.mem_cons.mp h with h | h
          · cases h
          · exact ihf e h

section Safe

variable (allowed : History O A ν ε → O → Prop)

/-- Every call is allowed after the calls before it, whatever the environment answers,
and the program ends in a history and an outcome that satisfy `Q`. -/
def Safe (past : History O A ν ε) :
    Prog O A ν ε α → (History O A ν ε → Outcome ε α → Prop) → Prop
  | .ret a, Q => Q past (.returned a)
  | .raise e, Q => Q past (.raised e)
  | .stuck, _ => True
  | .note n p, Q => Safe (.noted n :: past) p Q
  | .call op next fail, Q =>
      allowed past op ∧
      (∀ a, Safe (.called op a :: past) (next a) Q) ∧
      (∀ e, Safe (.raised op e :: past) (fail e) Q)

variable {allowed}

theorem Safe.mono {p : Prog O A ν ε α} {past : History O A ν ε}
    {Q Q' : History O A ν ε → Outcome ε α → Prop} (h : Safe allowed past p Q)
    (hQ : ∀ past' o, Q past' o → Q' past' o) : Safe allowed past p Q' := by
  induction p generalizing past with
  | ret a => exact hQ _ _ h
  | raise e => exact hQ _ _ h
  | stuck => exact trivial
  | note n p ih => exact ih h
  | call op next fail ihn ihf =>
      obtain ⟨hop, hn, hf⟩ := h
      exact ⟨hop, fun a => ihn a (hn a), fun e => ihf e (hf e)⟩

/-- The postcondition of the first part of a sequence. -/
def thenPost (allowed : History O A ν ε → O → Prop) (k : α → Prog O A ν ε β)
    (Q : History O A ν ε → Outcome ε β → Prop) (past : History O A ν ε) :
    Outcome ε α → Prop
  | .returned a => Safe allowed past (k a) Q
  | .raised e => Q past (.raised e)
  | .running => True

/-- The postcondition of a guarded program. -/
def catchPost (allowed : History O A ν ε → O → Prop) (h : ε → Prog O A ν ε α)
    (Q : History O A ν ε → Outcome ε α → Prop) (past : History O A ν ε) :
    Outcome ε α → Prop
  | .returned a => Q past (.returned a)
  | .raised e => Safe allowed past (h e) Q
  | .running => True

/-- The rule for a sequence. -/
theorem Safe.bind {p : Prog O A ν ε α} {k : α → Prog O A ν ε β} {past : History O A ν ε}
    {Q : History O A ν ε → Outcome ε β → Prop}
    (h : Safe allowed past p (thenPost allowed k Q)) : Safe allowed past (p.bind k) Q := by
  induction p generalizing past with
  | ret a => exact h
  | raise e => exact h
  | stuck => exact trivial
  | note n p ih => exact ih h
  | call op next fail ihn ihf =>
      obtain ⟨hop, hn, hf⟩ := h
      exact ⟨hop, fun a => ihn a (hn a), fun e => ihf e (hf e)⟩

/-- The rule for a sequence whose first part has its specification. -/
theorem Safe.bind_spec {p : Prog O A ν ε α} {k : α → Prog O A ν ε β} {past : History O A ν ε}
    {P : History O A ν ε → Outcome ε α → Prop} {Q : History O A ν ε → Outcome ε β → Prop}
    (hp : Safe allowed past p P)
    (hreturned : ∀ past' a, P past' (.returned a) → Safe allowed past' (k a) Q)
    (hraised : ∀ past' e, P past' (.raised e) → Q past' (.raised e)) :
    Safe allowed past (p.bind k) Q := by
  refine Safe.bind (hp.mono fun past' o hP => ?_)
  cases o with
  | returned a => exact hreturned past' a hP
  | raised e => exact hraised past' e hP
  | running => exact trivial

/-- The rule for a call and what follows it. -/
theorem Safe.perform_bind {op : O} {k : A op → Prog O A ν ε β} {past : History O A ν ε}
    {Q : History O A ν ε → Outcome ε β → Prop} (hop : allowed past op)
    (hk : ∀ a, Safe allowed (.called op a :: past) (k a) Q)
    (hfail : ∀ e, Q (.raised op e :: past) (.raised e)) :
    Safe allowed past ((Prog.perform op).bind k) Q :=
  ⟨hop, hk, hfail⟩

/-- The rule for an exception handler. -/
theorem Safe.tryCatch {p : Prog O A ν ε α} {h : ε → Prog O A ν ε α}
    {past : History O A ν ε} {Q : History O A ν ε → Outcome ε α → Prop}
    (hp : Safe allowed past p (catchPost allowed h Q)) :
    Safe allowed past (p.tryCatch h) Q := by
  induction p generalizing past with
  | ret a => exact hp
  | raise e => exact hp
  | stuck => exact trivial
  | note n p ih => exact ih hp
  | call op next fail ihn ihf =>
      obtain ⟨hop, hn, hf⟩ := hp
      exact ⟨hop, fun a => ihn a (hn a), fun e => ihf e (hf e)⟩

/-- The rule for a clean-up, when the outcome does not matter. -/
theorem Safe.finallyDo {p : Prog O A ν ε α} {f : Prog O A ν ε Unit}
    {past : History O A ν ε}
    (hp : Safe allowed past p (fun past' _ => Safe allowed past' f (fun _ _ => True))) :
    Safe allowed past (p.finallyDo f) (fun _ _ => True) := by
  induction p generalizing past with
  | ret a =>
      have hf : Safe allowed past f (fun _ _ => True) := hp
      refine Safe.bind (hf.mono fun past' o _ => ?_)
      cases o <;> exact trivial
  | raise e =>
      have hf : Safe allowed past f (fun _ _ => True) := hp
      refine Safe.bind (hf.mono fun past' o _ => ?_)
      cases o <;> exact trivial
  | stuck => exact trivial
  | note n p ih => exact ih hp
  | call op next fail ihn ihf =>
      obtain ⟨hop, hn, hf⟩ := hp
      exact ⟨hop, fun a => ihn a (hn a), fun e => ihf e (hf e)⟩

/-- The outcome after a clean-up that ended in the second outcome. -/
def finallyOutcome : Outcome ε α → Outcome ε Unit → Outcome ε α
  | o, .returned _ => o
  | _, .raised e => .raised e
  | _, .running => .running

/-- The rule for a clean-up. -/
theorem Safe.finallyDo_outcome {p : Prog O A ν ε α} {f : Prog O A ν ε Unit}
    {past : History O A ν ε} {Q : History O A ν ε → Outcome ε α → Prop}
    (hp : Safe allowed past p (fun past' o =>
      Safe allowed past' f (fun past'' o' => Q past'' (finallyOutcome o o')))) :
    Safe allowed past (p.finallyDo f) Q := by
  induction p generalizing past with
  | ret a =>
      have hf : Safe allowed past f
          (fun past'' o' => Q past'' (finallyOutcome (.returned a) o')) := hp
      refine Safe.bind (hf.mono fun past' o hQ => ?_)
      cases o with
      | returned _ => exact hQ
      | raised e => exact hQ
      | running => exact trivial
  | raise e =>
      have hf : Safe allowed past f
          (fun past'' o' => Q past'' (finallyOutcome (.raised e) o')) := hp
      refine Safe.bind (hf.mono fun past' o hQ => ?_)
      cases o with
      | returned _ => exact hQ
      | raised e => exact hQ
      | running => exact trivial
  | stuck => exact trivial
  | note n p ih => exact ih hp
  | call op next fail ihn ihf =>
      obtain ⟨hop, hn, hf⟩ := hp
      exact ⟨hop, fun a => ihn a (hn a), fun e => ihf e (hf e)⟩

/-- Every call of the trace is allowed after the calls before it. -/
def AllowedTrace (allowed : History O A ν ε → O → Prop) :
    History O A ν ε → List (TraceEvent O A ν ε) → Prop
  | _, [] => True
  | past, event :: t =>
      (∀ op, event.op? = some op → allowed past op) ∧ AllowedTrace allowed (event :: past) t

/-- Soundness.  In every execution, every call is allowed when it is made. -/
theorem Safe.allowedTrace {p : Prog O A ν ε α} {Q : History O A ν ε → Outcome ε α → Prop}
    {t : List (TraceEvent O A ν ε)} {o : Outcome ε α} (hx : Exec p t o) :
    ∀ {past : History O A ν ε}, Safe allowed past p Q → AllowedTrace allowed past t := by
  induction hx with
  | running p => exact fun _ => trivial
  | ret a => exact fun _ => trivial
  | raise e => exact fun _ => trivial
  | note _ ih => exact fun hs => ⟨nofun, ih hs⟩
  | called _ ih =>
      intro past hs
      refine ⟨?_, ih (hs.2.1 _)⟩
      rintro op ⟨⟩
      exact hs.1
  | failed _ ih =>
      intro past hs
      refine ⟨?_, ih (hs.2.2 _)⟩
      rintro op ⟨⟩
      exact hs.1

/-- Soundness of the postcondition.  An execution that is over ends in a history and
an outcome that satisfy it. -/
theorem Safe.post {p : Prog O A ν ε α} {Q : History O A ν ε → Outcome ε α → Prop}
    {t : List (TraceEvent O A ν ε)} {o : Outcome ε α} (hx : Exec p t o) :
    ∀ {past : History O A ν ε}, Safe allowed past p Q → o ≠ .running →
      Q (t.reverse ++ past) o := by
  induction hx with
  | running p => exact fun _ h => absurd rfl h
  | ret a => exact fun hs _ => hs
  | raise e => exact fun hs _ => hs
  | note _ ih =>
      intro past hs h
      rw [List.reverse_cons, List.append_assoc]
      exact ih hs h
  | called _ ih =>
      intro past hs h
      rw [List.reverse_cons, List.append_assoc]
      exact ih (hs.2.1 _) h
  | failed _ ih =>
      intro past hs h
      rw [List.reverse_cons, List.append_assoc]
      exact ih (hs.2.2 _) h

theorem AllowedTrace.at {past : History O A ν ε} {pre post : List (TraceEvent O A ν ε)}
    {event : TraceEvent O A ν ε} (h : AllowedTrace allowed past (pre ++ event :: post)) {op : O}
    (hop : event.op? = some op) : allowed (pre.reverse ++ past) op := by
  induction pre generalizing past with
  | nil => exact h.1 op hop
  | cons x pre ih =>
      have hlater := ih h.2
      rwa [List.reverse_cons, List.append_assoc]

/-- The calls of a trace in two parts. -/
theorem allowedTrace_append {t t' : List (TraceEvent O A ν ε)} :
    ∀ {past : History O A ν ε}, AllowedTrace allowed past (t ++ t') ↔
      AllowedTrace allowed past t ∧ AllowedTrace allowed (t.reverse ++ past) t' := by
  induction t with
  | nil => exact fun {past} => ⟨fun h => ⟨trivial, h⟩, fun h => h.2⟩
  | cons event t ih =>
      intro past
      rw [List.cons_append, AllowedTrace, ih, AllowedTrace, List.reverse_cons, List.append_assoc,
        and_assoc]
      exact Iff.rfl

end Safe

/-! ## Programs that make calls of one kind -/

/-- Every call of the program satisfies `S`. -/
def Calls (S : O → Prop) : Prog O A ν ε α → Prop
  | .ret _ => True
  | .raise _ => True
  | .stuck => True
  | .note _ p => Calls S p
  | .call op next fail => S op ∧ (∀ a, Calls S (next a)) ∧ ∀ e, Calls S (fail e)

section Calls

variable {S : O → Prop}

theorem Calls.perform {op : O} (h : S op) :
    Calls S (Prog.perform op : Prog O A ν ε (A op)) :=
  ⟨h, fun _ => trivial, fun _ => trivial⟩

theorem Calls.bind {p : Prog O A ν ε α} {k : α → Prog O A ν ε β} (hp : Calls S p)
    (hk : ∀ a, Calls S (k a)) : Calls S (p.bind k) := by
  induction p with
  | ret a => exact hk a
  | raise e => exact trivial
  | stuck => exact trivial
  | note n p ih => exact ih hp
  | call op next fail ihn ihf =>
      exact ⟨hp.1, fun a => ihn a (hp.2.1 a), fun e => ihf e (hp.2.2 e)⟩

theorem Calls.tryCatch {p : Prog O A ν ε α} {h : ε → Prog O A ν ε α} (hp : Calls S p)
    (hh : ∀ e, Calls S (h e)) : Calls S (p.tryCatch h) := by
  induction p with
  | ret a => exact trivial
  | raise e => exact hh e
  | stuck => exact trivial
  | note n p ih => exact ih hp
  | call op next fail ihn ihf =>
      exact ⟨hp.1, fun a => ihn a (hp.2.1 a), fun e => ihf e (hp.2.2 e)⟩

theorem Calls.finallyDo {p : Prog O A ν ε α} {f : Prog O A ν ε Unit} (hp : Calls S p)
    (hf : Calls S f) : Calls S (p.finallyDo f) := by
  induction p with
  | ret a => exact hf.bind fun _ => trivial
  | raise e => exact hf.bind fun _ => trivial
  | stuck => exact trivial
  | note n p ih => exact ih hp
  | call op next fail ihn ihf =>
      exact ⟨hp.1, fun a => ihn a (hp.2.1 a), fun e => ihf e (hp.2.2 e)⟩

theorem Calls.mono {S' : O → Prop} {p : Prog O A ν ε α} (hp : Calls S p)
    (h : ∀ op, S op → S' op) : Calls S' p := by
  induction p with
  | ret a => exact trivial
  | raise e => exact trivial
  | stuck => exact trivial
  | note n p ih => exact ih hp
  | call op next fail ihn ihf =>
      exact ⟨h op hp.1, fun a => ihn a (hp.2.1 a), fun e => ihf e (hp.2.2 e)⟩

theorem Calls.of_exec {p : Prog O A ν ε α} {t : List (TraceEvent O A ν ε)}
    {o : Outcome ε α} (hp : Calls S p) (hx : Exec p t o) {event : TraceEvent O A ν ε}
    (hevent : event ∈ t) {op : O} (hop : event.op? = some op) : S op := by
  induction hx with
  | running p => cases hevent
  | ret a => cases hevent
  | raise e => cases hevent
  | note _ ih =>
      rcases List.mem_cons.mp hevent with rfl | hevent
      · cases hop
      · exact ih hp hevent
  | called _ ih =>
      rcases List.mem_cons.mp hevent with rfl | hevent
      · cases hop
        exact hp.1
      · exact ih (hp.2.1 _) hevent
  | failed _ ih =>
      rcases List.mem_cons.mp hevent with rfl | hevent
      · cases hop
        exact hp.1
      · exact ih (hp.2.2 _) hevent

/-- A program that makes only calls allowed from now on is safe, and its history
extends the present one. -/
theorem Calls.safe {allowed : History O A ν ε → O → Prop} {p : Prog O A ν ε α}
    (hp : Calls S p) {past : History O A ν ε}
    (hS : ∀ past' op, past <:+ past' → S op → allowed past' op) :
    Safe allowed past p (fun past' _ => past <:+ past') := by
  have main : ∀ past', past <:+ past' →
      Safe allowed past' p (fun past'' _ => past <:+ past'') := by
    induction p with
    | ret a => exact fun _ h => h
    | raise e => exact fun _ h => h
    | stuck => exact fun _ _ => trivial
    | note n p ih => exact fun past' h => ih hp _ (h.trans (List.suffix_cons _ _))
    | call op next fail ihn ihf =>
        intro past' h
        refine ⟨hS past' op h hp.1, fun a => ?_, fun e => ?_⟩
        · exact ihn a (hp.2.1 a) _ (h.trans (List.suffix_cons _ _))
        · exact ihf e (hp.2.2 e) _ (h.trans (List.suffix_cons _ _))
  exact main past (List.suffix_refl past)

/-- An invariant of the history that the calls of a program keep, and under which they
are allowed, holds where the program ends. -/
theorem Calls.safe_invariant {allowed : History O A ν ε → O → Prop}
    {I : History O A ν ε → Prop} {p : Prog O A ν ε α} (hp : Calls S p)
    (hS : ∀ past op, S op → I past → allowed past op)
    (hstep : ∀ past (event : TraceEvent O A ν ε),
      (∀ op, event.op? = some op → S op) → I past → I (event :: past))
    {past : History O A ν ε} (hI : I past) : Safe allowed past p (fun past' _ => I past') := by
  induction p generalizing past with
  | ret a => exact hI
  | raise e => exact hI
  | stuck => exact trivial
  | note n p ih => exact ih hp (hstep past (.noted n) nofun hI)
  | call op next fail ihn ihf =>
      refine ⟨hS past op hp.1 hI, fun a => ?_, fun e => ?_⟩
      · refine ihn a (hp.2.1 a) (hstep past (.called op a) ?_ hI)
        rintro _ ⟨⟩
        exact hp.1
      · refine ihf e (hp.2.2 e) (hstep past (.raised op e) ?_ hI)
        rintro _ ⟨⟩
        exact hp.1

end Calls

end NetworkProxy
