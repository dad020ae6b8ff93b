import NetworkProxy.Interaction

/-!
# Programs that end

A loop is modelled up to a bound on its rounds, `stuck` beyond it.  Two things make this a
model of the loop without a bound:

* `Below p q`: `q` is `p` with more in the place of `stuck`.  `Below.replay_eq`: where `p`
  comes to an end, `q` does the same.
* `Halts`: a logic like `Safe`, for the environments that answer only what is possible, in
  which `stuck` must not be reached.  `Halts.replay`: the program comes to an end.

`Within` counts the calls of a program without loops; `Within.halts` embeds it.
-/

namespace NetworkProxy

variable {O : Type} {A : O → Type} {ν ε α β : Type}

/-! ## More rounds -/

/-- `q` is `p`, with any program in the place of each `stuck`. -/
def Below : Prog O A ν ε α → Prog O A ν ε α → Prop
  | .ret a, q => q = .ret a
  | .raise e, q => q = .raise e
  | .stuck, _ => True
  | .note n p, q => ∃ q', q = .note n q' ∧ Below p q'
  | .call op next fail, q =>
      ∃ next' fail', q = .call op next' fail' ∧
        (∀ a, Below (next a) (next' a)) ∧ ∀ e, Below (fail e) (fail' e)

namespace Below

theorem refl (p : Prog O A ν ε α) : Below p p := by
  induction p with
  | ret a => rfl
  | raise e => rfl
  | stuck => exact trivial
  | note n p ih => exact ⟨p, rfl, ih⟩
  | call op next fail ihn ihf => exact ⟨next, fail, rfl, ihn, ihf⟩

theorem bind {p q : Prog O A ν ε α} {k k' : α → Prog O A ν ε β} (h : Below p q)
    (hk : ∀ a, Below (k a) (k' a)) : Below (p.bind k) (q.bind k') := by
  induction p generalizing q with
  | ret a =>
      cases h
      exact hk a
  | raise e =>
      cases h
      exact refl _
  | stuck => exact trivial
  | note n p ih =>
      obtain ⟨q, rfl, hp⟩ := h
      exact ⟨_, rfl, ih hp⟩
  | call op next fail ihn ihf =>
      obtain ⟨next', fail', rfl, hn, hf⟩ := h
      exact ⟨_, _, rfl, fun a => ihn a (hn a), fun e => ihf e (hf e)⟩

theorem tryCatch {p q : Prog O A ν ε α} {handler : ε → Prog O A ν ε α} (h : Below p q) :
    Below (p.tryCatch handler) (q.tryCatch handler) := by
  induction p generalizing q with
  | ret a =>
      cases h
      exact refl _
  | raise e =>
      cases h
      exact refl _
  | stuck => exact trivial
  | note n p ih =>
      obtain ⟨q, rfl, hp⟩ := h
      exact ⟨_, rfl, ih hp⟩
  | call op next fail ihn ihf =>
      obtain ⟨next', fail', rfl, hn, hf⟩ := h
      exact ⟨_, _, rfl, fun a => ihn a (hn a), fun e => ihf e (hf e)⟩

theorem finallyDo {p q : Prog O A ν ε α} {f : Prog O A ν ε Unit} (h : Below p q) :
    Below (p.finallyDo f) (q.finallyDo f) := by
  induction p generalizing q with
  | ret a =>
      cases h
      exact refl _
  | raise e =>
      cases h
      exact refl _
  | stuck => exact trivial
  | note n p ih =>
      obtain ⟨q, rfl, hp⟩ := h
      exact ⟨_, rfl, ih hp⟩
  | call op next fail ihn ihf =>
      obtain ⟨next', fail', rfl, hn, hf⟩ := h
      exact ⟨_, _, rfl, fun a => ihn a (hn a), fun e => ihf e (hf e)⟩

/-- More rounds change nothing. -/
theorem replay_eq {env : History O A ν ε → ∀ op, Except ε (A op)} {p q : Prog O A ν ε α}
    (h : Below p q) {past : History O A ν ε} (hends : (p.replay env past).2 ≠ .running) :
    q.replay env past = p.replay env past := by
  induction p generalizing q past with
  | ret a =>
      cases h
      rfl
  | raise e =>
      cases h
      rfl
  | stuck => exact absurd rfl hends
  | note n p ih =>
      obtain ⟨q, rfl, hp⟩ := h
      rw [Prog.replay, Prog.replay, ih hp hends]
  | call op next fail ihn ihf =>
      obtain ⟨next', fail', rfl, hn, hf⟩ := h
      rw [Prog.replay] at hends ⊢
      rw [Prog.replay]
      cases henv : env past op with
      | ok a =>
          rw [henv] at hends
          dsimp only at hends ⊢
          rw [ihn a (hn a) hends]
      | error e =>
          rw [henv] at hends
          dsimp only at hends ⊢
          rw [ihf e (hf e) hends]

end Below

/-! ## A logic of total correctness -/

section Halts

variable (possible : History O A ν ε → TraceEvent O A ν ε → Prop)

/-- Whatever is answered among what is possible, the program ends in a history and an outcome
that satisfy `Q`. -/
def Halts (past : History O A ν ε) :
    Prog O A ν ε α → (History O A ν ε → Outcome ε α → Prop) → Prop
  | .ret a, Q => Q past (.returned a)
  | .raise e, Q => Q past (.raised e)
  | .stuck, _ => False
  | .note n p, Q => Halts (.noted n :: past) p Q
  | .call op next fail, Q =>
      (∀ a, possible past (.called op a) → Halts (.called op a :: past) (next a) Q) ∧
      ∀ e, possible past (.raised op e) → Halts (.raised op e :: past) (fail e) Q

variable {possible}

theorem Halts.mono {p : Prog O A ν ε α} {past : History O A ν ε}
    {Q Q' : History O A ν ε → Outcome ε α → Prop} (h : Halts possible past p Q)
    (hQ : ∀ past' o, Q past' o → Q' past' o) : Halts possible past p Q' := by
  induction p generalizing past with
  | ret a => exact hQ _ _ h
  | raise e => exact hQ _ _ h
  | stuck => exact h
  | note n p ih => exact ih h
  | call op next fail ihn ihf =>
      exact ⟨fun a ha => ihn a (h.1 a ha), fun e he => ihf e (h.2 e he)⟩

/-- What must hold between the parts of a sequence. -/
def thenHalts (possible : History O A ν ε → TraceEvent O A ν ε → Prop)
    (k : α → Prog O A ν ε β) (Q : History O A ν ε → Outcome ε β → Prop)
    (past : History O A ν ε) : Outcome ε α → Prop
  | .returned a => Halts possible past (k a) Q
  | .raised e => Q past (.raised e)
  | .running => True

/-- What must hold where an exception handler takes over. -/
def catchHalts (possible : History O A ν ε → TraceEvent O A ν ε → Prop)
    (handler : ε → Prog O A ν ε α) (Q : History O A ν ε → Outcome ε α → Prop)
    (past : History O A ν ε) : Outcome ε α → Prop
  | .returned a => Q past (.returned a)
  | .raised e => Halts possible past (handler e) Q
  | .running => True

/-- What must hold where a clean-up begins. -/
def finallyHalts (possible : History O A ν ε → TraceEvent O A ν ε → Prop)
    (f : Prog O A ν ε Unit) (Q : History O A ν ε → Outcome ε α → Prop)
    (past : History O A ν ε) (o : Outcome ε α) : Prop :=
  Halts possible past f fun past' o' => Q past' (finallyOutcome o o')

theorem Halts.bind {p : Prog O A ν ε α} {k : α → Prog O A ν ε β} {past : History O A ν ε}
    {Q : History O A ν ε → Outcome ε β → Prop}
    (h : Halts possible past p (thenHalts possible k Q)) : Halts possible past (p.bind k) Q := by
  induction p generalizing past with
  | ret a => exact h
  | raise e => exact h
  | stuck => exact h
  | note n p ih => exact ih h
  | call op next fail ihn ihf =>
      exact ⟨fun a ha => ihn a (h.1 a ha), fun e he => ihf e (h.2 e he)⟩

theorem Halts.tryCatch {p : Prog O A ν ε α} {handler : ε → Prog O A ν ε α}
    {past : History O A ν ε} {Q : History O A ν ε → Outcome ε α → Prop}
    (h : Halts possible past p (catchHalts possible handler Q)) :
    Halts possible past (p.tryCatch handler) Q := by
  induction p generalizing past with
  | ret a => exact h
  | raise e => exact h
  | stuck => exact h
  | note n p ih => exact ih h
  | call op next fail ihn ihf =>
      exact ⟨fun a ha => ihn a (h.1 a ha), fun e he => ihf e (h.2 e he)⟩

/-- What is to hold at the end of a clean-up, seen from a sequence. -/
theorem Halts.bind_outcome {f : Prog O A ν ε Unit} {past : History O A ν ε}
    {Q : History O A ν ε → Outcome ε α → Prop} {last : Prog O A ν ε α} {o : Outcome ε α}
    (hlast : ∀ past', Q past' o → Halts possible past' last Q)
    (hraised : ∀ e, finallyOutcome o (.raised e : Outcome ε Unit) = .raised e)
    (hreturned : finallyOutcome o (.returned () : Outcome ε Unit) = o)
    (h : finallyHalts possible f Q past o) : Halts possible past (f.bind fun _ => last) Q := by
  refine Halts.bind (h.mono fun past' o' hQ => ?_)
  cases o' with
  | returned _ =>
      rw [hreturned] at hQ
      exact hlast past' hQ
  | raised e =>
      rw [hraised] at hQ
      exact hQ
  | running => exact trivial

theorem Halts.finallyDo {p : Prog O A ν ε α} {f : Prog O A ν ε Unit} {past : History O A ν ε}
    {Q : History O A ν ε → Outcome ε α → Prop}
    (h : Halts possible past p (finallyHalts possible f Q)) :
    Halts possible past (p.finallyDo f) Q := by
  induction p generalizing past with
  | ret a => exact Halts.bind_outcome (fun _ hQ => hQ) (fun _ => rfl) rfl h
  | raise e => exact Halts.bind_outcome (fun _ hQ => hQ) (fun _ => rfl) rfl h
  | stuck => exact h
  | note n p ih => exact ih h
  | call op next fail ihn ihf =>
      exact ⟨fun a ha => ihn a (h.1 a ha), fun e he => ihf e (h.2 e he)⟩

/-- What every possible answer keeps holds at the end. -/
theorem Halts.invariant {I : History O A ν ε → Prop}
    (hstep : ∀ past event, possible past event → I past → I (event :: past))
    (hnote : ∀ past n, I past → I (.noted n :: past)) {p : Prog O A ν ε α}
    {past : History O A ν ε} {Q : History O A ν ε → Outcome ε α → Prop}
    (h : Halts possible past p Q) (hI : I past) :
    Halts possible past p fun past' o => I past' ∧ Q past' o := by
  induction p generalizing past with
  | ret a => exact ⟨hI, h⟩
  | raise e => exact ⟨hI, h⟩
  | stuck => exact h
  | note n p ih => exact ih h (hnote past n hI)
  | call op next fail ihn ihf =>
      exact ⟨fun a ha => ihn a (h.1 a ha) (hstep _ _ ha hI),
        fun e he => ihf e (h.2 e he) (hstep _ _ he hI)⟩

/-- The environment answers what is possible. -/
def Obeys (possible : History O A ν ε → TraceEvent O A ν ε → Prop)
    (env : History O A ν ε → ∀ op, Except ε (A op)) : Prop :=
  ∀ past op,
    (∀ a, env past op = .ok a → possible past (.called op a)) ∧
    ∀ e, env past op = .error e → possible past (.raised op e)

/-- Soundness.  In such an environment the program comes to an end. -/
theorem Halts.replay {env : History O A ν ε → ∀ op, Except ε (A op)}
    (henv : Obeys possible env) {p : Prog O A ν ε α} {past : History O A ν ε}
    {Q : History O A ν ε → Outcome ε α → Prop} (h : Halts possible past p Q) :
    (p.replay env past).2 ≠ .running ∧
      Q ((p.replay env past).1.reverse ++ past) (p.replay env past).2 := by
  induction p generalizing past with
  | ret a => exact ⟨nofun, h⟩
  | raise e => exact ⟨nofun, h⟩
  | stuck => exact h.elim
  | note n p ih =>
      rw [Prog.replay, List.reverse_cons, List.append_assoc]
      exact ih h
  | call op next fail ihn ihf =>
      rw [Prog.replay]
      cases hanswer : env past op with
      | ok a =>
          dsimp only
          rw [List.reverse_cons, List.append_assoc]
          exact ihn a (h.1 a ((henv past op).1 a hanswer))
      | error e =>
          dsimp only
          rw [List.reverse_cons, List.append_assoc]
          exact ihf e (h.2 e ((henv past op).2 e hanswer))

end Halts

/-! ## Programs without loops -/

/-- The program comes to an end after at most so many events. -/
def Within : ℕ → Prog O A ν ε α → Prop
  | _, .ret _ => True
  | _, .raise _ => True
  | _, .stuck => False
  | 0, .note _ _ => False
  | c + 1, .note _ p => Within c p
  | 0, .call _ _ _ => False
  | c + 1, .call _ next fail => (∀ a, Within c (next a)) ∧ ∀ e, Within c (fail e)

namespace Within

theorem ret (c : ℕ) (a : α) : Within c (.ret a : Prog O A ν ε α) := by
  cases c <;> exact trivial

theorem raise (c : ℕ) (e : ε) : Within c (.raise e : Prog O A ν ε α) := by
  cases c <;> exact trivial

theorem perform (op : O) : Within 1 (Prog.perform op : Prog O A ν ε (A op)) :=
  ⟨fun _ => trivial, fun _ => trivial⟩

theorem mono {c d : ℕ} {p : Prog O A ν ε α} (h : Within c p) (hcd : c ≤ d) : Within d p := by
  induction p generalizing c d with
  | ret a => exact ret d a
  | raise e => exact raise d e
  | stuck => cases c <;> exact h.elim
  | note n p ih =>
      cases c with
      | zero => exact h.elim
      | succ c =>
          obtain ⟨d, rfl⟩ := Nat.exists_eq_add_of_lt (Nat.lt_of_succ_le hcd)
          exact ih h (by omega)
  | call op next fail ihn ihf =>
      cases c with
      | zero => exact h.elim
      | succ c =>
          obtain ⟨d, rfl⟩ := Nat.exists_eq_add_of_lt (Nat.lt_of_succ_le hcd)
          exact ⟨fun a => ihn a (h.1 a) (by omega), fun e => ihf e (h.2 e) (by omega)⟩

theorem bind {c d : ℕ} {p : Prog O A ν ε α} {k : α → Prog O A ν ε β} (h : Within c p)
    (hk : ∀ a, Within d (k a)) : Within (c + d) (p.bind k) := by
  induction p generalizing c with
  | ret a => exact (hk a).mono (Nat.le_add_left d c)
  | raise e => exact raise _ e
  | stuck => cases c <;> exact h.elim
  | note n p ih =>
      cases c with
      | zero => exact h.elim
      | succ c =>
          rw [Nat.succ_add]
          exact ih h
  | call op next fail ihn ihf =>
      cases c with
      | zero => exact h.elim
      | succ c =>
          rw [Nat.succ_add]
          exact ⟨fun a => ihn a (h.1 a), fun e => ihf e (h.2 e)⟩

theorem tryCatch {c d : ℕ} {p : Prog O A ν ε α} {handler : ε → Prog O A ν ε α}
    (h : Within c p) (hhandler : ∀ e, Within d (handler e)) :
    Within (c + d) (p.tryCatch handler) := by
  induction p generalizing c with
  | ret a => exact ret _ a
  | raise e => exact (hhandler e).mono (Nat.le_add_left d c)
  | stuck => cases c <;> exact h.elim
  | note n p ih =>
      cases c with
      | zero => exact h.elim
      | succ c =>
          rw [Nat.succ_add]
          exact ih h
  | call op next fail ihn ihf =>
      cases c with
      | zero => exact h.elim
      | succ c =>
          rw [Nat.succ_add]
          exact ⟨fun a => ihn a (h.1 a), fun e => ihf e (h.2 e)⟩

theorem finallyDo {c d : ℕ} {p : Prog O A ν ε α} {f : Prog O A ν ε Unit} (h : Within c p)
    (hf : Within d f) : Within (c + d) (p.finallyDo f) := by
  induction p generalizing c with
  | ret a =>
      exact (hf.bind fun _ => ret 0 a).mono (Nat.le_add_left d c)
  | raise e =>
      exact (hf.bind fun _ => raise 0 e).mono (Nat.le_add_left d c)
  | stuck => cases c <;> exact h.elim
  | note n p ih =>
      cases c with
      | zero => exact h.elim
      | succ c =>
          rw [Nat.succ_add]
          exact ih h
  | call op next fail ihn ihf =>
      cases c with
      | zero => exact h.elim
      | succ c =>
          rw [Nat.succ_add]
          exact ⟨fun a => ihn a (h.1 a), fun e => ihf e (h.2 e)⟩

/-- Such a program comes to an end in every environment. -/
theorem halts {possible : History O A ν ε → TraceEvent O A ν ε → Prop} {c : ℕ}
    {p : Prog O A ν ε α} (h : Within c p) (past : History O A ν ε) :
    Halts possible past p fun past' _ =>
      past <:+ past' ∧ past'.length ≤ past.length + c := by
  have main : ∀ {c : ℕ} {past' : History O A ν ε}, Within c p → past <:+ past' →
      ∀ total, past'.length + c ≤ total →
      Halts possible past' p fun past'' _ => past <:+ past'' ∧ past''.length ≤ total := by
    clear h
    induction p with
    | ret a => exact fun _ hpast total hle => ⟨hpast, by omega⟩
    | raise e => exact fun _ hpast total hle => ⟨hpast, by omega⟩
    | stuck =>
        intro c past' h
        cases c <;> exact h.elim
    | note n p ih =>
        intro c past' h hpast total hle
        cases c with
        | zero => exact h.elim
        | succ c =>
            exact ih h (hpast.trans (List.suffix_cons _ _)) total (by
              rw [List.length_cons]
              omega)
    | call op next fail ihn ihf =>
        intro c past' h hpast total hle
        cases c with
        | zero => exact h.elim
        | succ c =>
            refine ⟨fun a _ => ihn a (h.1 a) (hpast.trans (List.suffix_cons _ _)) total ?_,
              fun e _ => ihf e (h.2 e) (hpast.trans (List.suffix_cons _ _)) total ?_⟩
            · rw [List.length_cons]
              omega
            · rw [List.length_cons]
              omega
  exact main h (List.suffix_refl past) _ (Nat.le_refl _)

end Within

end NetworkProxy
