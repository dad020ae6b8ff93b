import NetworkProxy.CacheSharing
import NetworkProxy.Handler
import Mathlib.Algebra.BigOperators.Group.Finset.Piecewise
import Mathlib.Algebra.Order.BigOperators.Group.Finset

/-!
# Accounting of requests

Connections are handled by interleaved executions of `handle_client`; each counts
under the lock of the metrics.  The books of a run are the metrics, with the number of
log entries about failed authentication.

* `Ledger.Allows`: in which state of its own books a connection makes an entry.
* `booked_handleClient`: `handle_client` keeps to it, whatever its calls answer or raise.
* `request_accounting`: the books of a run balance.
-/

namespace NetworkProxy
namespace Proxy

open Py Http Cache Handler

/-! ## The books -/

/-- What is counted: the metrics, and the log entries about failed authentication. -/
inductive Account
  | metric (metric : Metric)
  | authFailed
deriving DecidableEq

/-- The account in which an answered call is entered. -/
def entry? : Op → Option Account
  | .countMetric metric => some (.metric metric)
  | .logEvent _ fields =>
      if fields.action = some (txt "AUTH_FAILED") then some .authFailed else none
  | _ => none

/-- The account in which an event is entered. -/
def account? : Event → Option Account
  | .called op _ => entry? op
  | _ => none

structure Ledger where
  total : ℕ
  allowed : ℕ
  blocked : ℕ
  cached : ℕ
  rateLimited : ℕ
  errors : ℕ
  authFailed : ℕ
deriving DecidableEq

namespace Ledger

def zero : Ledger := ⟨0, 0, 0, 0, 0, 0, 0⟩

/-- One entry more. -/
def enter (l : Ledger) : Account → Ledger
  | .metric .total => { l with total := l.total + 1 }
  | .metric .allowed => { l with allowed := l.allowed + 1 }
  | .metric .blocked => { l with blocked := l.blocked + 1 }
  | .metric .cached => { l with cached := l.cached + 1 }
  | .metric .rateLimited => { l with rateLimited := l.rateLimited + 1 }
  | .metric .errors => { l with errors := l.errors + 1 }
  | .authFailed => { l with authFailed := l.authFailed + 1 }

def get (l : Ledger) : Account → ℕ
  | .metric .total => l.total
  | .metric .allowed => l.allowed
  | .metric .blocked => l.blocked
  | .metric .cached => l.cached
  | .metric .rateLimited => l.rateLimited
  | .metric .errors => l.errors
  | .authFailed => l.authFailed

theorem get_enter (l : Ledger) (a b : Account) :
    (l.enter a).get b = l.get b + if a = b then 1 else 0 := by
  rcases a with (_ | _ | _ | _ | _ | _) | _ <;> rcases b with (_ | _ | _ | _ | _ | _) | _ <;> rfl

/-- The requests that were decided: let through, or rejected in one of three ways. -/
def decisions (l : Ledger) : ℕ := l.allowed + l.blocked + l.rateLimited + l.authFailed

/-- In which state of its books a connection makes an entry. -/
def Admits (l : Ledger) : Account → Prop
  | .metric .total => l.total = 0 ∧ l.decisions = 0
  | .metric .cached => l.allowed = 1 ∧ l.cached = 0
  | .metric .errors => l.errors = 0
  | _ => l.total = 1 ∧ l.decisions = 0

/-- In which state of its books a connection makes a call. -/
def Allows (l : Ledger) (op : Op) : Prop := ∀ a, entry? op = some a → l.Admits a

/-- The books of one connection. -/
structure Sound (l : Ledger) : Prop where
  total_le : l.total ≤ 1
  decisions_le : l.decisions ≤ l.total
  errors_le : l.errors ≤ 1
  cached_le : l.cached ≤ l.allowed

/-- A connection that was counted and not decided. -/
def Undecided (l : Ledger) : Prop := l.total = 1 ∧ l.decisions = 0

instance (l : Ledger) : Decidable l.Undecided := by
  unfold Undecided
  infer_instance

theorem Sound.partition {l : Ledger} (h : l.Sound) :
    l.total = l.decisions + if l.Undecided then 1 else 0 := by
  have htotal := h.total_le
  have hdecisions := h.decisions_le
  by_cases hopen : l.Undecided
  · rw [if_pos hopen, hopen.1, hopen.2]
  · rw [if_neg hopen]
    unfold Undecided at hopen
    omega

/-- An admitted entry keeps the books of a connection sound. -/
theorem Sound.enter {l : Ledger} (h : l.Sound) {a : Account} (ha : l.Admits a) :
    (l.enter a).Sound := by
  obtain ⟨htotal, hdecisions, herrors, hcached⟩ := h
  unfold decisions at hdecisions
  rcases a with (_ | _ | _ | _ | _ | _) | _ <;> unfold Admits decisions at ha <;>
    constructor <;> dsimp only [Ledger.enter, decisions] <;> omega

end Ledger

/-- The books of a history, newest event first. -/
def ledger : Trace → Ledger
  | [] => Ledger.zero
  | event :: past =>
      match account? event with
      | some a => (ledger past).enter a
      | none => ledger past

theorem ledger_cons_of_none {event : Event} {past : Trace} (h : account? event = none) :
    ledger (event :: past) = ledger past := by
  rw [ledger, h]

theorem ledger_cons_of_some {event : Event} {past : Trace} {a : Account}
    (h : account? event = some a) : ledger (event :: past) = (ledger past).enter a := by
  rw [ledger, h]

theorem get_ledger (a : Account) :
    ∀ t : Trace, (ledger t).get a = t.countP (fun event => account? event = some a)
  | [] => by rcases a with (_ | _ | _ | _ | _ | _) | _ <;> rfl
  | event :: past => by
      rw [List.countP_cons, ← get_ledger a past]
      cases haccount : account? event with
      | none => simp [ledger_cons_of_none haccount]
      | some b => simp [ledger_cons_of_some haccount, Ledger.get_enter]

/-- A call that is entered nowhere. -/
def Op.Neutral (op : Op) : Prop := entry? op = none

theorem account?_of_neutral {event : Event} (h : ∀ op, event.op? = some op → op.Neutral) :
    account? event = none := by
  cases event with
  | called op answer => exact h op rfl
  | raised op e => rfl
  | noted n => rfl

theorem Op.Neutral.allows {op : Op} (h : op.Neutral) (l : Ledger) : l.Allows op := by
  intro a ha
  rw [h] at ha
  cases ha

/-- An allowed call keeps the books of a connection sound. -/
theorem sound_ledger_cons {event : Event} {past : Trace} (h : (ledger past).Sound)
    (hop : ∀ op, event.op? = some op → (ledger past).Allows op) :
    (ledger (event :: past)).Sound := by
  cases haccount : account? event with
  | none =>
      rw [ledger_cons_of_none haccount]
      exact h
  | some a =>
      rw [ledger_cons_of_some haccount]
      cases event with
      | called op answer => exact h.enter (hop op rfl a haccount)
      | raised op e => cases haccount
      | noted n => cases haccount

theorem calls_neutral {op : Op} (h : op.Neutral) : Calls Op.Neutral (perform op) :=
  Calls.perform h

theorem calls_neutral_bind {β : Type} {op : Op} {k : Ans op → Program β} (h : op.Neutral)
    (hk : ∀ a, Calls Op.Neutral (k a)) : Calls Op.Neutral ((perform op).bind k) :=
  (Calls.perform h).bind hk

/-- Every call is made in a state of the books that allows it. -/
def Booked (past : Trace) (op : Op) : Prop := (ledger past).Allows op

theorem sound_of_allowedTrace :
    ∀ {t past : Trace}, AllowedTrace Booked past t → (ledger past).Sound →
      (ledger (t.reverse ++ past)).Sound
  | [], _, _, h => h
  | event :: t, past, hallowed, h => by
      rw [List.reverse_cons, List.append_assoc]
      exact sound_of_allowedTrace hallowed.2 (sound_ledger_cons h hallowed.1)

/-! ## The entries of one connection -/

section Rules

variable {α β : Type} {l : Ledger} {past : Trace}

/-- A program that enters nothing leaves the books. -/
theorem booked_neutral {q : Program α} (hq : Calls Op.Neutral q) (hl : ledger past = l) :
    Safe Booked past q (fun past' _ => ledger past' = l) := by
  refine hq.safe_invariant (fun past' op hop _ => hop.allows _) (fun past' event hop h => ?_) hl
  rw [ledger_cons_of_none (account?_of_neutral hop), h]

/-- A call that enters nothing, and what follows it. -/
theorem booked_neutral_bind {op : Op} {k : Ans op → Program β}
    {Q : Trace → Outcome PyExc β → Prop} (hop : op.Neutral) (hl : ledger past = l)
    (hk : ∀ past' a, ledger past' = l → Safe Booked past' (k a) Q)
    (hfail : ∀ past' e, ledger past' = l → Q past' (.raised e)) :
    Safe Booked past ((perform op).bind k) Q := by
  refine Safe.perform_bind (hop.allows _) (fun a => hk _ a ?_) (fun e => hfail _ e hl)
  have haccount : account? (.called op a) = none := hop
  rw [ledger_cons_of_none haccount, hl]

/-- A call that makes an entry, and what follows it. -/
theorem booked_entry_bind {op : Op} {a : Account} {k : Ans op → Program β}
    {Q : Trace → Outcome PyExc β → Prop} (hop : entry? op = some a) (hadmits : l.Admits a)
    (hl : ledger past = l)
    (hk : ∀ past' answer, ledger past' = l.enter a → Safe Booked past' (k answer) Q)
    (hfail : ∀ past' e, ledger past' = l → Q past' (.raised e)) :
    Safe Booked past ((perform op).bind k) Q := by
  have hallows : Booked past op := by
    intro b hb
    rw [hop, Option.some.injEq] at hb
    rw [hl, ← hb]
    exact hadmits
  refine Safe.perform_bind hallows (fun answer => hk _ answer ?_) (fun e => hfail _ e hl)
  have haccount : account? (.called op answer) = some a := hop
  rw [ledger_cons_of_some haccount, hl]

/-- A call at the end. -/
theorem booked_last {op : Op} {Q : Trace → Outcome PyExc (Ans op) → Prop}
    (h : Safe Booked past ((perform op).bind .ret) Q) : Safe Booked past (perform op) Q := h

end Rules

/-- The books of a connection that was counted, and of one that was let through. -/
def Ledger.counted : Ledger := Ledger.zero.enter (.metric .total)

def Ledger.letThrough : Ledger := Ledger.counted.enter (.metric .allowed)

/-- The books in which a part of the handler ends.  When it raises, no error is counted
yet. -/
def Ends {α : Type} (l : α → Ledger) (past : Trace) : Outcome PyExc α → Prop
  | .returned a => ledger past = l a
  | .raised _ => (ledger past).errors = 0
  | .running => True

/-- How the handler ends: the request is decided if it was counted, and an exception
meets books without an error. -/
def Concludes {α : Type} (past : Trace) : Outcome PyExc α → Prop
  | .returned _ => (ledger past).decisions = (ledger past).total
  | .raised e => e.isException = true → (ledger past).errors = 0
  | .running => True

section Stages

variable {cfg : HandlerConfig} {addr : ClientAddr} {l : Ledger} {past : Trace}

theorem errors_eq_zero {past' : Trace} (herr : l.errors = 0) (h : ledger past' = l) :
    (ledger past').errors = 0 := by
  rw [h, herr]

theorem booked_onOSError {α : Type} {h : Program α} {Q : Trace → Outcome PyExc α → Prop}
    {e : PyExc} (hh : Safe Booked past h Q) (hQ : Q past (.raised e)) :
    Safe Booked past (onOSError h e) Q := by
  rw [onOSError]
  split
  · exact hh
  · exact hQ

theorem booked_sendBadGateway (hl : ledger past = l) (herr : l.errors = 0) :
    Safe Booked past sendBadGateway (Ends (fun _ => l.enter (.metric .errors))) := by
  refine booked_neutral_bind rfl hl (fun past' _ h => ?_)
    (fun past' _ h => errors_eq_zero herr h)
  exact booked_last (booked_entry_bind rfl herr h (fun past'' _ h => h)
    (fun past'' _ h => errors_eq_zero herr h))

/-- The 502 response as a result of a step. -/
theorem booked_gatewayFailed {Q : Trace → Outcome PyExc Bool → Prop} {e : PyExc}
    (hl : ledger past = l) (herr : l.errors = 0)
    (hQ : ∀ past', ledger past' = l.enter (.metric .errors) → Q past' (.returned false))
    (hfail : ∀ past' e, (ledger past').errors = 0 → Q past' (.raised e)) :
    Safe Booked past (onOSError (do sendBadGateway; return false) e) Q := by
  refine booked_onOSError (Safe.bind ((booked_sendBadGateway hl herr).mono fun past' o h => ?_))
    (hfail past e (errors_eq_zero herr hl))
  cases o with
  | returned _ => exact hQ past' h
  | raised e => exact hfail past' e h
  | running => exact trivial

/-- `try: ... except Exception: pass` around calls that enter nothing. -/
theorem booked_quietly {q : Program Unit} (hq : Calls Op.Neutral q) (hl : ledger past = l) :
    Safe Booked past (q.tryCatch swallow)
      (fun past' o => ledger past' = l ∧ ∀ e, o = .raised e → e.isException = false) := by
  refine Safe.tryCatch ((booked_neutral hq hl).mono fun past' o h => ?_)
  cases o with
  | returned _ => exact ⟨h, by simp⟩
  | running => exact trivial
  | raised e =>
      show Safe Booked past' (swallow e) _
      rw [swallow]
      split
      · exact ⟨h, by simp⟩
      · rename_i he
        refine ⟨h, ?_⟩
        rintro _ ⟨⟩
        simpa using he

/-! ### The steps of the forwarder -/

/-- The outcome of a step that may end in a 502 response. -/
abbrev gatewayEnds (l : Ledger) (past : Trace) : Outcome PyExc Bool → Prop :=
  Ends (fun ok => if ok then l else l.enter (.metric .errors)) past

theorem booked_connectOrigin (p : ParsedRequest) (hl : ledger past = l) (herr : l.errors = 0) :
    Safe Booked past (Forward.connectOrigin p) (gatewayEnds l) := by
  have hfail (past' : Trace) (e : PyExc) (h : ledger past' = l) :
      Safe Booked past' (onOSError (do sendBadGateway; return false) e) (gatewayEnds l) :=
    booked_gatewayFailed h herr (fun _ h => h) (fun _ _ h => h)
  refine Safe.tryCatch (booked_neutral_bind rfl hl (fun past' _ h => ?_) hfail)
  refine booked_neutral_bind rfl h (fun past' _ h => ?_) hfail
  exact booked_neutral_bind rfl h (fun past' _ h => h) hfail

theorem booked_sendRequest (p : ParsedRequest) (hl : ledger past = l) (herr : l.errors = 0) :
    Safe Booked past (Forward.sendRequest p) (gatewayEnds l) := by
  refine Safe.tryCatch (booked_neutral_bind rfl hl (fun past' _ h => h) (fun past' e h => ?_))
  refine booked_onOSError ?_ (errors_eq_zero herr h)
  refine booked_neutral_bind rfl h (fun past' _ h => ?_) (fun _ _ h => errors_eq_zero herr h)
  refine Safe.bind ((booked_sendBadGateway h herr).mono fun past' o h => ?_)
  cases o with
  | returned _ => exact h
  | raised e => exact h
  | running => exact trivial

theorem neutral_relay (maxObjectSize : ℤ) (rounds : ℕ) (s : Transfer) :
    Calls Op.Neutral (relay maxObjectSize rounds s) := by
  induction rounds generalizing s with
  | zero => exact trivial
  | succ rounds ih =>
      refine Calls.bind (Calls.tryCatch ?_ (calls_onOSError trivial)) fun result => ?_
      · refine calls_neutral_bind rfl fun data => ?_
        split
        · exact trivial
        · exact calls_neutral_bind rfl fun _ => trivial
      · cases result with
        | none => exact trivial
        | some data => exact ih _

theorem neutral_finish (p : ParsedRequest) (start : ℚ) (s : Transfer) :
    Calls Op.Neutral (Forward.finish p start s) := by
  refine calls_neutral_bind rfl fun _ => calls_neutral_bind rfl fun stop => ?_
  split
  · refine calls_neutral_bind rfl fun now => ?_
    exact calls_neutral_bind rfl fun _ => calls_neutral rfl
  · exact calls_neutral rfl

/-- From books that show a decision, the forwarder concludes. -/
theorem booked_fetch (maxObjectSize : ℤ) (rounds : ℕ) (p : ParsedRequest)
    (hl : ledger past = Ledger.letThrough) :
    Safe Booked past (Forward.fetch maxObjectSize rounds p) Concludes := by
  refine booked_neutral_bind rfl hl (fun past' start h => ?_)
    (fun _ _ h _ => errors_eq_zero rfl h)
  refine Safe.bind ((booked_connectOrigin p h rfl).mono fun past' o h => ?_)
  cases o with
  | raised e => exact fun _ => h
  | running => exact trivial
  | returned connected =>
      cases connected with
      | false =>
          have hend : ledger past' = Ledger.letThrough.enter (.metric .errors) := h
          show (ledger past').decisions = (ledger past').total
          rw [hend]
          rfl
      | true =>
          refine Safe.bind ((booked_sendRequest p h rfl).mono fun past' o h => ?_)
          cases o with
          | raised e => exact fun _ => h
          | running => exact trivial
          | returned sent =>
              cases sent with
              | false =>
                  have hend : ledger past' = Ledger.letThrough.enter (.metric .errors) := h
                  show (ledger past').decisions = (ledger past').total
                  rw [hend]
                  rfl
              | true =>
                  have hrest := (neutral_relay maxObjectSize rounds
                    (Transfer.create p.method)).bind (neutral_finish p start)
                  refine (booked_neutral hrest h).mono fun past' o h => ?_
                  cases o with
                  | returned _ =>
                      show (ledger past').decisions = (ledger past').total
                      rw [h]
                      rfl
                  | raised e => exact fun _ => errors_eq_zero rfl h
                  | running => exact trivial

theorem booked_lookup (p : ParsedRequest) (hl : ledger past = Ledger.letThrough) :
    Safe Booked past (Forward.lookup p)
      (Ends (fun hit =>
        if hit then Ledger.letThrough.enter (.metric .cached) else Ledger.letThrough)) := by
  rw [Forward.lookup]
  split
  · refine booked_neutral_bind rfl hl (fun past' cached h => ?_)
      (fun _ _ h => errors_eq_zero rfl h)
    cases cached with
    | none =>
        exact booked_neutral_bind rfl h (fun _ _ h => h) (fun _ _ h => errors_eq_zero rfl h)
    | some cached =>
        refine booked_neutral_bind rfl h (fun past' _ h => ?_)
          (fun _ _ h => errors_eq_zero rfl h)
        refine booked_entry_bind rfl ⟨rfl, rfl⟩ h (fun past' _ h => ?_)
          (fun _ _ h => errors_eq_zero rfl h)
        have hsend : Calls Op.Neutral
            ((perform (.sendClient cached.response)).tryCatch (onOSError (.ret ()))) :=
          Calls.tryCatch (calls_neutral rfl) (calls_onOSError trivial)
        refine Safe.bind ((booked_neutral hsend h).mono fun past' o h => ?_)
        cases o with
        | returned _ => exact h
        | raised e => exact errors_eq_zero rfl h
        | running => exact trivial
  · exact hl

theorem booked_forwardHttp (maxObjectSize : ℤ) (rounds : ℕ) (p : ParsedRequest)
    (hl : ledger past = Ledger.letThrough) :
    Safe Booked past (forwardHttp maxObjectSize rounds p) Concludes := by
  refine Safe.bind ((booked_lookup p hl).mono fun past' o h => ?_)
  cases o with
  | raised e => exact fun _ => h
  | running => exact trivial
  | returned hit =>
      cases hit with
      | false => exact booked_fetch maxObjectSize rounds p h
      | true =>
          have hend : ledger past' = Ledger.letThrough.enter (.metric .cached) := h
          show (ledger past').decisions = (ledger past').total
          rw [hend]
          rfl

/-! ### The steps of the handler -/

/-- Closing a socket keeps the conclusion. -/
theorem booked_closing {α : Type} {q : Program Unit} (hq : Calls Op.Neutral q)
    {o : Outcome PyExc α} (h : Concludes past o) :
    Safe Booked past (q.tryCatch swallow)
      (fun past' o' => Concludes past' (finallyOutcome o o')) := by
  refine (booked_quietly hq rfl).mono fun past' o' hend => ?_
  cases o' with
  | running => cases o <;> exact trivial
  | raised e =>
      intro he
      rw [hend.2 e rfl] at he
      cases he
  | returned _ =>
      cases o with
      | running => exact trivial
      | raised e => exact fun he => (congrArg Ledger.errors hend.1).trans (h he)
      | returned _ =>
          show (ledger past').decisions = (ledger past').total
          rw [hend.1]
          exact h

theorem booked_tunnelThrough (p : ParsedRequest) (hl : ledger past = Ledger.letThrough) :
    Safe Booked past (tunnelThrough p) Concludes := by
  have hbody : Calls Op.Neutral (do
      perform (.setTimeout 10)
      perform (.connect p.host p.port)
      perform (.sendClient established)
      perform .tunnel : Program Unit) :=
    calls_neutral_bind rfl fun _ => calls_neutral_bind rfl fun _ =>
      calls_neutral_bind rfl fun _ => calls_neutral rfl
  have hclose : Calls Op.Neutral (perform .closeServer) := calls_neutral rfl
  refine Safe.finallyDo_outcome (Safe.tryCatch ((booked_neutral hbody hl).mono fun past' o h => ?_))
  cases o with
  | running => exact trivial
  | returned _ =>
      refine booked_closing hclose ?_
      show (ledger past').decisions = (ledger past').total
      rw [h]
      rfl
  | raised e =>
      refine booked_onOSError ?_ (booked_closing hclose fun _ => errors_eq_zero rfl h)
      refine (booked_sendBadGateway h rfl).mono fun past' o h => booked_closing hclose ?_
      cases o with
      | running => exact trivial
      | raised e => exact fun _ => h
      | returned _ =>
          have hend : ledger past' = Ledger.letThrough.enter (.metric .errors) := h
          show (ledger past').decisions = (ledger past').total
          rw [hend]
          rfl

theorem booked_connectTunnel (p : ParsedRequest) (hl : ledger past = Ledger.letThrough) :
    Safe Booked past (connectTunnel cfg addr p) Concludes := by
  refine booked_neutral_bind rfl hl (fun past' _ h => ?_) (fun _ _ h _ => errors_eq_zero rfl h)
  refine Safe.bind (Safe.tryCatch ?_)
  refine booked_neutral_bind rfl h (fun past' _ h => ?_) (fun past' e h => ?_)
  · exact booked_tunnelThrough p h
  · refine booked_gatewayFailed h rfl (fun past' hend => ?_) (fun _ _ h _ => h)
    show (ledger past').decisions = (ledger past').total
    rw [hend]
    rfl

theorem booked_dispatch (rounds : ℕ) (p : ParsedRequest) (hl : ledger past = Ledger.counted) :
    Safe Booked past (dispatch cfg addr rounds p) Concludes := by
  refine booked_entry_bind rfl ⟨rfl, rfl⟩ hl (fun past' _ h => ?_)
    (fun _ _ h _ => errors_eq_zero rfl h)
  split
  · exact booked_connectTunnel p h
  · exact booked_neutral_bind rfl h (fun past' _ h => booked_forwardHttp _ rounds p h)
      (fun _ _ h _ => errors_eq_zero rfl h)

/-- A rejection: what is left to do enters nothing. -/
theorem booked_rejected {α : Type} {q : Program α} (hq : Calls Op.Neutral q)
    (hl : ledger past = l) (hdecided : l.decisions = l.total) (herr : l.errors = 0) :
    Safe Booked past q Concludes := by
  refine (booked_neutral hq hl).mono fun past' o h => ?_
  cases o with
  | running => exact trivial
  | raised e => exact fun _ => errors_eq_zero herr h
  | returned _ =>
      show (ledger past').decisions = (ledger past').total
      rw [h, hdecided]

theorem booked_filterHost (rounds : ℕ) (p : ParsedRequest) (hl : ledger past = Ledger.counted) :
    Safe Booked past (filterHost cfg addr rounds p) Concludes := by
  refine booked_neutral_bind rfl hl (fun past' blocked h => ?_)
    (fun _ _ h _ => errors_eq_zero rfl h)
  cases blocked with
  | false => exact booked_dispatch rounds p h
  | true =>
      refine booked_entry_bind rfl ⟨rfl, rfl⟩ h (fun past' _ h => ?_)
        (fun _ _ h _ => errors_eq_zero rfl h)
      exact booked_rejected (calls_neutral_bind rfl fun _ => calls_neutral rfl) h rfl rfl

theorem booked_authenticate (rounds : ℕ) (p : ParsedRequest)
    (hl : ledger past = Ledger.counted) :
    Safe Booked past (authenticate cfg addr rounds p) Concludes := by
  have hcheck : Calls Op.Neutral (checkAuth cfg p.headers) := by
    refine (calls_checkAuth p.headers).mono fun op hop => ?_
    obtain ⟨plain, stored, rfl⟩ := hop
    rfl
  refine Safe.bind ((booked_neutral hcheck hl).mono fun past' o h => ?_)
  cases o with
  | running => exact trivial
  | raised e => exact fun _ => errors_eq_zero rfl h
  | returned ok =>
      cases ok with
      | true => exact booked_filterHost rounds p h
      | false =>
          have hnoted : ledger (.noted (.authChecked false) :: past') = Ledger.counted := h
          refine booked_entry_bind rfl ⟨rfl, rfl⟩ hnoted (fun past' _ h => ?_)
            (fun _ _ h _ => errors_eq_zero rfl h)
          exact booked_rejected (calls_neutral rfl) h rfl rfl

theorem booked_limit (rounds : ℕ) (p : ParsedRequest) (hl : ledger past = Ledger.counted) :
    Safe Booked past (limit cfg addr rounds p) Concludes := by
  rw [limit]
  split
  · refine booked_neutral_bind rfl hl (fun past' allowed h => ?_)
      (fun _ _ h _ => errors_eq_zero rfl h)
    cases allowed with
    | true => exact booked_authenticate rounds p h
    | false =>
        refine booked_neutral_bind rfl h (fun past' _ h => ?_)
          (fun _ _ h _ => errors_eq_zero rfl h)
        refine booked_entry_bind rfl ⟨rfl, rfl⟩ h (fun past' _ h => ?_)
          (fun _ _ h _ => errors_eq_zero rfl h)
        exact booked_rejected (calls_neutral_bind rfl fun _ => calls_neutral rfl) h rfl rfl
  · exact booked_authenticate rounds p hl

theorem booked_serve (rounds : ℕ) (hl : ledger past = Ledger.zero) :
    Safe Booked past (serve cfg addr rounds) Concludes := by
  have hparse (raw : Bytes) : Calls Op.Neutral (parseRaw cfg raw) := by
    rw [parseRaw]
    split
    · exact trivial
    · exact trivial
    · exact calls_neutral_bind rfl fun _ => trivial
  refine booked_neutral_bind rfl hl (fun past' raw h => ?_) (fun _ _ h _ => errors_eq_zero rfl h)
  split
  · show (ledger past').decisions = (ledger past').total
    rw [h]
    rfl
  · refine Safe.bind ((booked_neutral (hparse raw) h).mono fun past' o h => ?_)
    cases o with
    | running => exact trivial
    | raised e => exact fun _ => errors_eq_zero rfl h
    | returned parsed =>
        cases parsed with
        | none =>
            refine booked_neutral_bind rfl h (fun past' _ h => ?_)
              (fun _ _ h _ => errors_eq_zero rfl h)
            have hnone : Ledger.zero.Admits (.metric .errors) := rfl
            refine booked_last (booked_entry_bind rfl hnone h (fun past' _ h => ?_)
              (fun _ _ h _ => errors_eq_zero rfl h))
            show (ledger past').decisions = (ledger past').total
            rw [h]
            rfl
        | some p =>
            refine booked_entry_bind rfl ⟨rfl, rfl⟩ h (fun past' _ h => ?_)
              (fun _ _ h _ => errors_eq_zero rfl h)
            exact booked_neutral_bind rfl h (fun past' _ h => booked_limit rounds _ h)
              (fun _ _ h _ => errors_eq_zero rfl h)

/-- An exception was met, and counted as an error or let out. -/
def Died (past : Trace) (o : Outcome PyExc Unit) : Prop :=
  (∃ event, event ∈ past ∧ event.op? = some (.countMetric .errors)) ∨ ∃ e, o = .raised e

/-- How a connection ends: decided if it was counted, or by an exception. -/
def Finishes (past : Trace) (o : Outcome PyExc Unit) : Prop :=
  o ≠ .running → (ledger past).decisions = (ledger past).total ∨ Died past o

/-- Closing the client socket changes nothing about that. -/
theorem booked_closeClient {o : Outcome PyExc Unit} (h : Finishes past o) :
    Safe Booked past ((perform .closeClient).tryCatch swallow)
      (fun past' o' => Finishes past' (finallyOutcome o o')) := by
  have hcalls : Calls Op.Neutral ((perform .closeClient).tryCatch swallow) :=
    Calls.tryCatch (calls_neutral rfl) calls_swallow
  have hkeeps : Safe Booked past ((perform .closeClient).tryCatch swallow)
      (fun past' _ => ledger past' = ledger past ∧ past <:+ past') := by
    refine hcalls.safe_invariant (fun _ op hop _ => hop.allows _) (fun past' event hop h => ?_)
      ⟨rfl, List.suffix_refl past⟩
    rw [ledger_cons_of_none (account?_of_neutral hop)]
    exact ⟨h.1, h.2.trans (List.suffix_cons _ _)⟩
  refine hkeeps.mono fun past' o' hend hdone => ?_
  cases o' with
  | running => contradiction
  | raised e => exact Or.inr (Or.inr ⟨e, rfl⟩)
  | returned _ =>
      rcases h hdone with hdecided | ⟨event, hmem, hop⟩ | ⟨e, rfl⟩
      · exact Or.inl (hend.1 ▸ hdecided)
      · exact Or.inr (Or.inl ⟨event, hend.2.subset hmem, hop⟩)
      · exact Or.inr (Or.inr ⟨e, rfl⟩)

/-- `except Exception`: the error is counted, or the exception is let out. -/
theorem booked_reportError {e : PyExc}
    (h : e.isException = true → (ledger past).errors = 0) :
    Safe Booked past (reportError cfg addr e) (fun past' o => Died past' o) := by
  rw [reportError]
  split
  · rename_i he
    have hlog : Calls Op.Neutral ((perform (.logEvent
        (addrText cfg addr ++ txt " → INTERNAL ERROR: " ++ e.message)
        { action := some (txt "ERROR") })).tryCatch swallow) :=
      Calls.tryCatch (calls_neutral rfl) calls_swallow
    have hallows : Booked past (.countMetric .errors) := by
      rintro a ⟨⟩
      exact h he
    refine Safe.perform_bind hallows (fun a => ?_) (fun e' => Or.inr ⟨e', rfl⟩)
    refine (hlog.safe fun _ op _ hop => hop.allows _).mono fun past' o hsuffix => ?_
    exact Or.inl ⟨.called (.countMetric .errors) a, hsuffix.subset List.mem_cons_self, rfl⟩
  · exact Or.inr ⟨e, rfl⟩

/-- The books of `handle_client`.  Every entry is made in a state of the books that
allows it, whatever the calls answer or raise. -/
theorem booked_handleClient (rounds : ℕ) :
    Safe Booked [] (handleClient cfg addr rounds) Finishes := by
  refine Safe.finallyDo_outcome (Safe.tryCatch ((booked_serve rounds rfl).mono
    fun past' o h => ?_))
  cases o with
  | running => exact trivial
  | returned _ => exact booked_closeClient fun _ => Or.inl h
  | raised e =>
      refine (booked_reportError h).mono fun past' o hdied => ?_
      exact booked_closeClient fun _ => Or.inr hdied

end Stages

/-! ## Interleaved connections -/

/-- The books of an interleaved run. -/
def books (run : List (ℕ × Event)) : Ledger := ledger (run.map Prod.snd).reverse

/-- The books of one connection. -/
def booksOf (i : ℕ) (run : List (ℕ × Event)) : Ledger := ledger (eventsOf i run).reverse

/-- The connections of a run. -/
def connections (run : List (ℕ × Event)) : Finset ℕ := (run.map Prod.fst).toFinset

/-- Every connection of the run executes `handle_client`. -/
def HandlerRun (cfg : HandlerConfig) (addr : ℕ → ClientAddr) (run : List (ℕ × Event)) : Prop :=
  ∀ i, ∃ rounds o, Exec (handleClient cfg (addr i) rounds) (eventsOf i run) o

/-- What is counted in a run is counted by its connections. -/
theorem countP_eq_sum_eventsOf (p : Event → Bool) {s : Finset ℕ} :
    ∀ {run : List (ℕ × Event)}, (∀ e, e ∈ run → e.1 ∈ s) →
      (run.map Prod.snd).countP p = ∑ i ∈ s, (eventsOf i run).countP p
  | [], _ => by simp [eventsOf]
  | (j, event) :: run, h => by
      have ih := countP_eq_sum_eventsOf p (fun e he => h e (List.mem_cons_of_mem _ he))
      have hj : j ∈ s := h (j, event) List.mem_cons_self
      have hcons (i : ℕ) : (eventsOf i ((j, event) :: run)).countP p =
          (eventsOf i run).countP p + if i = j then (if p event then 1 else 0) else 0 := by
        by_cases hi : i = j
        · rw [hi, eventsOf_cons_self, List.countP_cons, if_pos rfl]
        · rw [if_neg hi, Nat.add_zero, eventsOf, List.filterMap_cons_none, eventsOf]
          exact if_neg fun he => hi he.symm
      rw [List.map_cons, List.countP_cons, ih]
      simp only [hcons, Finset.sum_add_distrib, Finset.sum_ite_eq', hj, if_true]

theorem get_books (a : Account) (run : List (ℕ × Event)) :
    (books run).get a = ∑ i ∈ connections run, (booksOf i run).get a := by
  have hmem : ∀ e, e ∈ run → e.1 ∈ connections run :=
    fun e he => List.mem_toFinset.mpr (List.mem_map_of_mem he)
  rw [books, get_ledger, List.countP_reverse, countP_eq_sum_eventsOf _ hmem]
  refine Finset.sum_congr rfl fun i _ => ?_
  rw [booksOf, get_ledger, List.countP_reverse]

section Run

variable {cfg : HandlerConfig} {addr : ℕ → ClientAddr} {run : List (ℕ × Event)}

theorem HandlerRun.sound (h : HandlerRun cfg addr run) (i : ℕ) : (booksOf i run).Sound := by
  obtain ⟨rounds, o, hexec⟩ := h i
  have hsafe : Safe Booked [] (handleClient cfg (addr i) rounds) Finishes :=
    booked_handleClient rounds
  have hempty : (ledger []).Sound :=
    ⟨Nat.zero_le _, Nat.le_refl _, Nat.zero_le _, Nat.le_refl _⟩
  have hsound := sound_of_allowedTrace (hsafe.allowedTrace hexec) hempty
  rwa [List.append_nil] at hsound

end Run

/-- **Request accounting.**  In every state of every interleaving of connections, with any
exceptions, the counted requests are those let through, blocked, limited, rejected for
their credentials, and the undecided ones; each connection makes at most one entry of a
kind, and cached responses go to requests that were let through.  An undecided connection
that is over met an exception. -/
theorem request_accounting {cfg : HandlerConfig} {addr : ℕ → ClientAddr}
    {run : List (ℕ × Event)} (h : HandlerRun cfg addr run) :
    (books run).total = (books run).allowed + (books run).blocked + (books run).rateLimited +
        (books run).authFailed +
        ((connections run).filter (fun i => (booksOf i run).Undecided)).card ∧
      (∀ i, (booksOf i run).total ≤ 1 ∧
        (booksOf i run).allowed + (booksOf i run).blocked + (booksOf i run).rateLimited ≤ 1 ∧
        (booksOf i run).errors ≤ 1) ∧
      (books run).cached ≤ (books run).allowed ∧
      ∀ i, (booksOf i run).Undecided → ∀ rounds o,
        Exec (handleClient cfg (addr i) rounds) (eventsOf i run) o → o ≠ .running →
          Died (eventsOf i run).reverse o := by
  have hget (a : Account) := get_books a run
  refine ⟨?_, fun i => ?_, ?_, fun i hopen rounds o hexec hdone => ?_⟩
  · have htotal : (books run).total = ∑ i ∈ connections run, (booksOf i run).total :=
      hget (.metric .total)
    have hparts : ∑ i ∈ connections run, (booksOf i run).total =
        ∑ i ∈ connections run, ((booksOf i run).decisions +
          if (booksOf i run).Undecided then 1 else 0) :=
      Finset.sum_congr rfl fun i _ => (h.sound i).partition
    have hdecisions : ∑ i ∈ connections run, (booksOf i run).decisions =
        (books run).allowed + (books run).blocked + (books run).rateLimited +
          (books run).authFailed := by
      have hallowed : (books run).allowed = ∑ i ∈ connections run, (booksOf i run).allowed :=
        hget (.metric .allowed)
      have hblocked : (books run).blocked = ∑ i ∈ connections run, (booksOf i run).blocked :=
        hget (.metric .blocked)
      have hlimited : (books run).rateLimited =
          ∑ i ∈ connections run, (booksOf i run).rateLimited := hget (.metric .rateLimited)
      have hfailed : (books run).authFailed =
          ∑ i ∈ connections run, (booksOf i run).authFailed := hget .authFailed
      unfold Ledger.decisions
      rw [Finset.sum_add_distrib, Finset.sum_add_distrib, Finset.sum_add_distrib, hallowed,
        hblocked, hlimited, hfailed]
    rw [htotal, hparts, Finset.sum_add_distrib, hdecisions, Finset.card_filter]
  · have hsound := h.sound i
    have hdecisions := hsound.decisions_le
    unfold Ledger.decisions at hdecisions
    have htotal := hsound.total_le
    exact ⟨htotal, by omega, hsound.errors_le⟩
  · have hcached : (books run).cached = ∑ i ∈ connections run, (booksOf i run).cached :=
      hget (.metric .cached)
    have hallowed : (books run).allowed = ∑ i ∈ connections run, (booksOf i run).allowed :=
      hget (.metric .allowed)
    rw [hcached, hallowed]
    exact Finset.sum_le_sum fun i _ => (h.sound i).cached_le
  · have hsafe : Safe Booked [] (handleClient cfg (addr i) rounds) Finishes :=
      booked_handleClient rounds
    have hend := hsafe.post hexec hdone
    rw [List.append_nil] at hend
    rcases hend hdone with hdecided | hdied
    · have hnone : (ledger (eventsOf i run).reverse).decisions = 0 := hopen.2
      have hone : (ledger (eventsOf i run).reverse).total = 1 := hopen.1
      omega
    · exact hdied

/-- An environment in which the rate limiter fails. -/
def limiterDown (raw : Bytes) : ∀ op, Except PyExc (Ans op)
  | .isAllowed _ => .error (.exception (txt "limiter down"))
  | op => obliging raw op

/-- The trace of `connectRequest` in it. -/
def limiterDownTrace : Trace :=
  ((handleClient oneUser ⟨txt "10.0.0.1", 5000⟩ 1).run (limiterDown connectRequest)).1

/-- Two connections, the first one interrupted by the second. -/
def twoConnections : List (ℕ × Event) :=
  (connectTrace.take 5).map (fun event => (0, event)) ++
    (limiterDownTrace.map (fun event => (1, event)) ++
      (connectTrace.drop 5).map (fun event => (0, event)))

theorem handlerRun_twoConnections :
    HandlerRun oneUser (fun _ => ⟨txt "10.0.0.1", 5000⟩) twoConnections := by
  intro i
  rw [twoConnections, eventsOf_append, eventsOf_append, eventsOf_map, eventsOf_map,
    eventsOf_map]
  rcases i with _ | _ | i
  · rw [if_pos rfl, if_neg (by omega), if_pos rfl, List.nil_append, List.take_append_drop]
    exact ⟨1, _, exec_run (obliging connectRequest) _⟩
  · rw [if_neg (by omega), if_pos rfl, if_neg (by omega), List.nil_append, List.append_nil]
    exact ⟨1, _, exec_run (limiterDown connectRequest) _⟩
  · rw [if_neg (by omega), if_neg (by omega), if_neg (by omega)]
    exact ⟨0, .running, .running _⟩

theorem request_accounting_twoConnections :
    (books twoConnections).total = 2 ∧ (books twoConnections).allowed = 1 ∧
      (books twoConnections).total = (books twoConnections).allowed +
        (books twoConnections).blocked + (books twoConnections).rateLimited +
        (books twoConnections).authFailed + ((connections twoConnections).filter
          (fun i => (booksOf i twoConnections).Undecided)).card := by
  have hrun : HandlerRun oneUser (fun _ => ⟨txt "10.0.0.1", 5000⟩) twoConnections := by
    intro i
    rw [twoConnections, eventsOf_append, eventsOf_append, eventsOf_map, eventsOf_map,
      eventsOf_map]
    rcases i with _ | _ | i
    · rw [if_pos rfl, if_neg (by omega), if_pos rfl, List.nil_append, List.take_append_drop]
      exact ⟨1, _, exec_run (obliging connectRequest) _⟩
    · rw [if_neg (by omega), if_pos rfl, if_neg (by omega), List.nil_append, List.append_nil]
      exact ⟨1, _, exec_run (limiterDown connectRequest) _⟩
    · rw [if_neg (by omega), if_neg (by omega), if_neg (by omega)]
      exact ⟨0, .running, .running _⟩
  exact ⟨by decide +kernel, by decide +kernel, (request_accounting hrun).1⟩

end Proxy
end NetworkProxy
