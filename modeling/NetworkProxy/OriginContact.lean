import NetworkProxy.LogForging
import NetworkProxy.RequestAccounting

/-!
# Contact with the origin

How far a connection got with its origin is a state of its history: nothing yet, answered by the
cache, connected or failed to, the request sent, or tunnelled.

* `contacts_handleClient`: `handle_client` goes from state to state in this order, whatever its
  calls answer or raise.
* `origins_contacted_once`: in every interleaving of connections, each allowed request goes to
  the cache or to one origin, and is sent there at most once.
-/

namespace NetworkProxy
namespace Proxy

open Py Http Cache Handler

/-! ## The state of a connection -/

/-- How far a connection got. -/
inductive Contact
  | fresh
  /-- The cache has a response. -/
  | cached
  | connected
  | unreachable
  | requested
  | tunnelled
deriving DecidableEq

/-- The contact that an event makes. -/
def made? : Event → Option Contact
  | .called (.cacheGet _) (some _) => some .cached
  | .called (.connect _ _) _ => some .connected
  | .raised (.connect _ _) _ => some .unreachable
  | .called (.sendServer _) _ => some .requested
  | .raised (.sendServer _) _ => some .requested
  | .called .tunnel _ => some .tunnelled
  | .raised .tunnel _ => some .tunnelled
  | _ => none

/-- How far a connection got in a history. -/
def contact : Trace → Contact
  | [] => .fresh
  | event :: past => (made? event).getD (contact past)

/-- A call that makes no contact. -/
def Op.Local : Op → Prop
  | .cacheGet _ => False
  | .connect _ _ => False
  | .sendServer _ => False
  | .recvServer _ => False
  | .tunnel => False
  | _ => True

/-- A call that leaves the state: one that makes no contact, or reads from the origin. -/
def Op.Unmoving : Op → Prop
  | .cacheGet _ => False
  | .connect _ _ => False
  | .sendServer _ => False
  | .tunnel => False
  | _ => True

theorem Op.Local.unmoving {op : Op} (h : op.Local) : op.Unmoving := by
  cases op <;> first | exact trivial | exact h.elim

theorem contact_cons_of_unmoving {event : Event} (past : Trace)
    (h : ∀ op, event.op? = some op → op.Unmoving) : contact (event :: past) = contact past := by
  cases event with
  | noted n => rfl
  | called op answer =>
      have hop := h op rfl
      cases op <;> first | rfl | exact hop.elim
  | raised op e =>
      have hop := h op rfl
      cases op <;> first | rfl | exact hop.elim

/-- The request was let through. -/
def LetThrough (past : Trace) : Prop := .called (.countMetric .allowed) () ∈ past

/-- In which state a call is made, and for which request. -/
def ContactOp (cfg : HandlerConfig) (addr : ClientAddr) (past : Trace) : Op → Prop
  | .cacheGet _ => contact past = .fresh ∧ LetThrough past
  | .connect host port => contact past = .fresh ∧ LetThrough past ∧
      ∃ raw parsed p, Accepted cfg addr past raw parsed p ∧ host = p.host ∧ port = p.port
  | .sendServer data => contact past = .connected ∧
      ∃ raw parsed p, Accepted cfg addr past raw parsed p ∧
        .called (.connect p.host p.port) () ∈ past ∧ data = buildOutboundRequest p
  | .recvServer _ => contact past = .requested
  | .tunnel => contact past = .connected
  | _ => True

/-! ## One connection -/

section Calls

variable {α : Type} {cfg : HandlerConfig} {addr : ClientAddr} {past : Trace} {s : Contact}

theorem Op.Local.contactOp {op : Op} (h : op.Local) : ContactOp cfg addr past op := by
  cases op <;> first | exact trivial | exact h.elim

theorem Op.Unmoving.contactOp {op : Op} (h : op.Unmoving) (hpast : contact past = .requested) :
    ContactOp cfg addr past op := by
  cases op <;> first | exact trivial | exact hpast | exact h.elim

theorem Op.TurnsDown.toLocal {op : Op} (h : op.TurnsDown) : op.Local := by
  cases op <;> first | exact trivial | exact h.elim

/-- A program without contact leaves the state. -/
theorem contact_local {q : Program α} (hq : Calls Op.Local q) (h : contact past = s) :
    Safe (ContactOp cfg addr) past q fun past' _ => contact past' = s ∧ past <:+ past' := by
  refine hq.safe_invariant (I := fun past' => contact past' = s ∧ past <:+ past')
    (fun _ _ hop _ => hop.contactOp) (fun past' event hevent hI => ⟨?_, ?_⟩)
    ⟨h, List.suffix_refl past⟩
  · rw [contact_cons_of_unmoving past' fun op hop => (hevent op hop).unmoving, hI.1]
  · exact hI.2.trans (List.suffix_cons _ _)

theorem contacts_local {q : Program α} (hq : Calls Op.Local q) :
    Safe (ContactOp cfg addr) past q fun _ _ => True :=
  (contact_local hq rfl).mono fun _ _ _ => trivial

theorem contacts_turnsDown {q : Program α} (hq : Calls Op.TurnsDown q) :
    Safe (ContactOp cfg addr) past q fun _ _ => True :=
  contacts_local (hq.mono fun _ => Op.TurnsDown.toLocal)

/-- The request of the connection, which was let through. -/
structure Allowed (cfg : HandlerConfig) (addr : ClientAddr) (past : Trace) (p : ParsedRequest) :
    Prop where
  letThrough : LetThrough past
  accepted : ∃ raw parsed, Accepted cfg addr past raw parsed p

theorem Allowed.later {p : ParsedRequest} {past' : Trace} (h : Allowed cfg addr past p)
    (hsuffix : past <:+ past') : Allowed cfg addr past' p := by
  obtain ⟨raw, parsed, haccepted⟩ := h.accepted
  exact ⟨hsuffix.subset h.letThrough, raw, parsed, haccepted.mono hsuffix⟩

/-- The handlers that answer 502 return `False`. -/
theorem contact_gateway (Q : Trace → Prop) (e : PyExc) :
    Safe (ContactOp cfg addr) past (onOSError (do sendBadGateway; return false) e)
      fun past' o => o = .returned true → Q past' := by
  rw [onOSError]
  split
  · refine Safe.bind_spec (contacts_turnsDown turnsDown_sendBadGateway) (fun past' _ _ => ?_)
      fun past' e _ => ?_
    · rintro ⟨⟩
    · rintro ⟨⟩
  · rintro ⟨⟩

/-! ### Forwarding -/

theorem contact_lookup {p : ParsedRequest} (h : contact past = .fresh)
    (hp : Allowed cfg addr past p) :
    Safe (ContactOp cfg addr) past (Forward.lookup p) fun past' o =>
      o = .returned false → contact past' = .fresh ∧ past <:+ past' := by
  rw [Forward.lookup]
  split
  · refine Safe.perform_bind ⟨h, hp.letThrough⟩ (fun cached => ?_) fun e => by rintro ⟨⟩
    cases cached with
    | none =>
        have hmiss : contact (.called (.cacheGet (Forward.cacheKey p)) none :: past) = .fresh := h
        refine Safe.perform_bind trivial (fun _ => ?_) fun e => by rintro ⟨⟩
        exact fun _ => ⟨hmiss, (List.suffix_cons _ _).trans (List.suffix_cons _ _)⟩
    | some entry =>
        have hsend : Calls Op.Local
            ((perform (.sendClient entry.response)).tryCatch (onOSError (.ret ()))) :=
          (Calls.perform trivial).tryCatch (calls_onOSError trivial)
        refine Safe.perform_bind trivial (fun _ => ?_) fun e => by rintro ⟨⟩
        refine Safe.perform_bind trivial (fun _ => ?_) fun e => by rintro ⟨⟩
        refine Safe.bind_spec (contacts_local hsend) (fun past' _ _ => ?_) fun past' e _ => ?_
        · rintro ⟨⟩
        · rintro ⟨⟩
  · exact fun _ => ⟨h, List.suffix_refl past⟩

/-- The connection stands; the request is next. -/
structure Connected (cfg : HandlerConfig) (addr : ClientAddr) (past : Trace) (p : ParsedRequest) :
    Prop where
  contact_eq : contact past = .connected
  called : .called (.connect p.host p.port) () ∈ past
  allowed : Allowed cfg addr past p

theorem contact_connectOrigin {p : ParsedRequest} (h : contact past = .fresh)
    (hp : Allowed cfg addr past p) :
    Safe (ContactOp cfg addr) past (Forward.connectOrigin p) fun past' o =>
      o = .returned true → Connected cfg addr past' p := by
  have hfail (past' : Trace) (e : PyExc) :
      Safe (ContactOp cfg addr) past' (onOSError (do sendBadGateway; return false) e)
        fun past'' o => o = .returned true → Connected cfg addr past'' p := contact_gateway _ e
  refine Safe.tryCatch (Safe.perform_bind trivial (fun _ => ?_) fun e => hfail _ e)
  refine Safe.perform_bind trivial (fun _ => ?_) fun e => hfail _ e
  have hnow : Allowed cfg addr (.called (.setTimeout 10) () :: .called .newSocket () :: past) p :=
    hp.later ((List.suffix_cons _ _).trans (List.suffix_cons _ _))
  obtain ⟨raw, parsed, haccepted⟩ := hnow.accepted
  refine Safe.perform_bind ⟨h, hnow.letThrough, raw, parsed, p, haccepted, rfl, rfl⟩
    (fun _ => ?_) fun e => hfail _ e
  exact fun _ => ⟨rfl, List.mem_cons_self, hnow.later (List.suffix_cons _ _)⟩

theorem contact_sendRequest {p : ParsedRequest} (h : Connected cfg addr past p) :
    Safe (ContactOp cfg addr) past (Forward.sendRequest p) fun past' o =>
      o = .returned true → contact past' = .requested := by
  obtain ⟨raw, parsed, haccepted⟩ := h.allowed.accepted
  have hop : ContactOp cfg addr past (.sendServer (buildOutboundRequest p)) :=
    ⟨h.contact_eq, raw, parsed, p, haccepted, h.called, rfl⟩
  refine Safe.tryCatch (Safe.perform_bind hop (fun _ _ => rfl) fun e => ?_)
  show Safe (ContactOp cfg addr) _ (onOSError _ e) _
  rw [onOSError]
  split
  · refine Safe.perform_bind trivial (fun _ => ?_) fun e => by rintro ⟨⟩
    refine Safe.bind_spec (contacts_turnsDown turnsDown_sendBadGateway) (fun past' _ _ => ?_)
      fun past' e _ => ?_
    · rintro ⟨⟩
    · rintro ⟨⟩
  · rintro ⟨⟩

/-- The relay reads from an origin that has the request. -/
theorem contact_relay (maxObjectSize : ℤ) (rounds : ℕ) (transfer : Transfer)
    (h : contact past = .requested) :
    Safe (ContactOp cfg addr) past (relay maxObjectSize rounds transfer) fun _ _ => True := by
  have hcalls : Calls Op.Unmoving (relay maxObjectSize rounds transfer) := by
    induction rounds generalizing transfer with
    | zero => exact trivial
    | succ rounds ih =>
        refine Calls.bind (Calls.tryCatch ?_ (calls_onOSError trivial)) fun result => ?_
        · refine (Calls.perform trivial).bind fun data => ?_
          split
          · exact trivial
          · exact (Calls.perform trivial).bind fun _ => trivial
        · cases result with
          | none => exact trivial
          | some data => exact ih _
  refine (hcalls.safe_invariant (I := fun past' => contact past' = .requested)
    (fun past' op hop hI => hop.contactOp hI) (fun past' event hevent hI => ?_) h).mono
    fun _ _ _ => trivial
  rw [contact_cons_of_unmoving past' hevent, hI]

theorem local_finish (p : ParsedRequest) (start : ℚ) (transfer : Transfer) :
    Calls Op.Local (Forward.finish p start transfer) := by
  refine (Calls.perform trivial).bind fun _ => (Calls.perform trivial).bind fun stop => ?_
  split
  · refine (Calls.perform trivial).bind fun _ => ?_
    exact (Calls.perform trivial).bind fun _ => Calls.perform trivial
  · exact Calls.perform trivial

theorem contact_forwardHttp (maxObjectSize : ℤ) (rounds : ℕ) {p : ParsedRequest}
    (h : contact past = .fresh) (hp : Allowed cfg addr past p) :
    Safe (ContactOp cfg addr) past (forwardHttp maxObjectSize rounds p) fun _ _ => True := by
  refine Safe.bind_spec (contact_lookup h hp) (fun past' answered hlookup => ?_)
    fun _ _ _ => trivial
  cases answered with
  | true => exact trivial
  | false =>
      obtain ⟨hfresh, hsuffix⟩ := hlookup rfl
      refine Safe.perform_bind trivial (fun start => ?_) fun _ => trivial
      have hnow : Allowed cfg addr (.called .monotonic start :: past') p :=
        hp.later (hsuffix.trans (List.suffix_cons _ _))
      refine Safe.bind_spec (contact_connectOrigin hfresh hnow)
        (fun past'' stands hstands => ?_) fun _ _ _ => trivial
      cases stands with
      | false => exact trivial
      | true =>
          refine Safe.bind_spec (contact_sendRequest (hstands rfl)) (fun past''' sent hsent => ?_)
            fun _ _ _ => trivial
          cases sent with
          | false => exact trivial
          | true =>
              exact Safe.bind_spec (contact_relay maxObjectSize rounds _ (hsent rfl))
                (fun _ transfer _ => contacts_local (local_finish p start transfer))
                fun _ _ _ => trivial

/-! ### The steps of the handler -/

theorem contact_tunnelThrough {p : ParsedRequest} (h : contact past = .fresh)
    (hp : Allowed cfg addr past p) :
    Safe (ContactOp cfg addr) past (tunnelThrough p) fun _ _ => True := by
  have hgateway (past' : Trace) (e : PyExc) :
      Safe (ContactOp cfg addr) past' (onOSError sendBadGateway e) fun _ _ => True :=
    contacts_turnsDown (calls_onOSError turnsDown_sendBadGateway e)
  have hclose (past' : Trace) :
      Safe (ContactOp cfg addr) past' ((perform .closeServer).tryCatch swallow) fun _ _ => True :=
    contacts_local ((Calls.perform trivial).tryCatch calls_swallow)
  refine Safe.finallyDo (Safe.mono (Q := fun _ _ => True) (Safe.tryCatch ?_)
    fun past' _ _ => hclose past')
  refine Safe.perform_bind trivial (fun _ => ?_) fun e => hgateway _ e
  have hnow : Allowed cfg addr (.called (.setTimeout 10) () :: past) p :=
    hp.later (List.suffix_cons _ _)
  obtain ⟨raw, parsed, haccepted⟩ := hnow.accepted
  have hconnect : ContactOp cfg addr (.called (.setTimeout 10) () :: past)
      (.connect p.host p.port) :=
    ⟨h, hnow.letThrough, raw, parsed, p, haccepted, rfl, rfl⟩
  refine Safe.perform_bind hconnect (fun _ => ?_) fun e => hgateway _ e
  refine Safe.perform_bind trivial (fun _ => ?_) fun e => hgateway _ e
  exact ⟨rfl, fun _ => trivial, fun e => hgateway _ e⟩

theorem contact_connectTunnel {p : ParsedRequest} (h : contact past = .fresh)
    (hp : Allowed cfg addr past p) :
    Safe (ContactOp cfg addr) past (connectTunnel cfg addr p) fun _ _ => True := by
  refine Safe.perform_bind trivial (fun _ => ?_) fun _ => trivial
  have hsocket (past' : Trace) (hfresh : contact past' = .fresh)
      (hallowed : Allowed cfg addr past' p) :
      Safe (ContactOp cfg addr) past' (Prog.tryCatch (do perform .newSocket; return true)
        (onOSError (do sendBadGateway; return false))) fun past'' o =>
          o = .returned true → contact past'' = .fresh ∧ Allowed cfg addr past'' p := by
    refine Safe.tryCatch (Safe.perform_bind trivial (fun _ => ?_) fun e => contact_gateway _ e)
    exact fun _ => ⟨hfresh, hallowed.later (List.suffix_cons _ _)⟩
  refine Safe.bind_spec (hsocket _ h (hp.later (List.suffix_cons _ _)))
    (fun past' opened hopened => ?_) fun _ _ _ => trivial
  cases opened with
  | false => exact trivial
  | true => exact contact_tunnelThrough (hopened rfl).1 (hopened rfl).2

theorem contact_dispatch (rounds : ℕ) {raw : Bytes} {parsed p : ParsedRequest}
    (h : contact past = .fresh) (hp : Accepted cfg addr past raw parsed p) :
    Safe (ContactOp cfg addr) past (dispatch cfg addr rounds p) fun _ _ => True := by
  refine Safe.perform_bind trivial (fun _ => ?_) fun _ => trivial
  have hallowed : Allowed cfg addr (.called (.countMetric .allowed) () :: past) p :=
    ⟨List.mem_cons_self, raw, parsed, hp.mono (List.suffix_cons _ _)⟩
  split
  · exact contact_connectTunnel h hallowed
  · refine Safe.perform_bind trivial (fun _ => ?_) fun _ => trivial
    exact contact_forwardHttp _ rounds h (hallowed.later (List.suffix_cons _ _))

theorem contact_filterHost (rounds : ℕ) {raw : Bytes} {parsed p : ParsedRequest}
    (h : contact past = .fresh) (hp : Accepted cfg addr past raw parsed p) :
    Safe (ContactOp cfg addr) past (filterHost cfg addr rounds p) fun _ _ => True := by
  refine Safe.perform_bind trivial (fun blocked => ?_) fun _ => trivial
  cases blocked with
  | true => exact contacts_turnsDown (turnsDown_rejectBlocked p)
  | false => exact contact_dispatch rounds h (hp.mono (List.suffix_cons _ _))

theorem contact_authenticate (rounds : ℕ) {raw : Bytes} {parsed p : ParsedRequest}
    (h : contact past = .fresh) (hp : Accepted cfg addr past raw parsed p) :
    Safe (ContactOp cfg addr) past (authenticate cfg addr rounds p) fun _ _ => True := by
  have hcheck : Calls Op.Local (checkAuth cfg p.headers) :=
    (calls_checkAuth p.headers).mono fun op hop => by
      obtain ⟨plain, stored, rfl⟩ := hop
      exact trivial
  refine Safe.bind_spec (contact_local hcheck h) (fun past' ok hpast => ?_) fun _ _ _ => trivial
  obtain ⟨hfresh, hsuffix⟩ := hpast
  show Safe (ContactOp cfg addr) (.noted (.authChecked ok) :: past') _ _
  cases ok with
  | false => exact contacts_turnsDown (turnsDown_rejectAuth p)
  | true =>
      exact contact_filterHost rounds hfresh (hp.mono (hsuffix.trans (List.suffix_cons _ _)))

theorem contact_limit (rounds : ℕ) {raw : Bytes} {parsed p : ParsedRequest}
    (h : contact past = .fresh) (hp : Accepted cfg addr past raw parsed p) :
    Safe (ContactOp cfg addr) past (limit cfg addr rounds p) fun _ _ => True := by
  rw [limit]
  split
  · refine Safe.perform_bind trivial (fun passed => ?_) fun _ => trivial
    cases passed with
    | false => exact contacts_turnsDown (turnsDown_rejectRateLimited p)
    | true => exact contact_authenticate rounds h (hp.mono (List.suffix_cons _ _))
  · exact contact_authenticate rounds h hp

theorem contact_serve (rounds : ℕ) :
    Safe (ContactOp cfg addr) [] (serve cfg addr rounds) fun _ _ => True := by
  refine Safe.perform_bind trivial (fun raw => ?_) fun _ => trivial
  split
  · exact trivial
  · rw [parseRaw]
    split
    · exact trivial
    · exact contacts_turnsDown turnsDown_rejectBadRequest
    · rename_i parsed hparse
      refine Safe.perform_bind trivial (fun requestId => ?_) fun _ => trivial
      refine Safe.perform_bind trivial (fun _ => ?_) fun _ => trivial
      refine Safe.perform_bind trivial (fun _ => ?_) fun _ => trivial
      refine contact_limit rounds rfl ⟨?_, hparse, ?_, rfl⟩
      · exact ⟨[_, _, _], rfl⟩
      · exact List.mem_cons_of_mem _ (List.mem_cons_of_mem _ List.mem_cons_self)

/-- Every call has its state. -/
theorem contacts_handleClient (rounds : ℕ) :
    Safe (ContactOp cfg addr) [] (handleClient cfg addr rounds) fun _ _ => True := by
  have hclose (past' : Trace) :
      Safe (ContactOp cfg addr) past' ((perform .closeClient).tryCatch swallow) fun _ _ => True :=
    contacts_local ((Calls.perform trivial).tryCatch calls_swallow)
  refine Safe.finallyDo (Safe.mono (Q := fun _ _ => True) (Safe.tryCatch ?_)
    fun past' _ _ => hclose past')
  refine (contact_serve rounds).mono fun past' o _ => ?_
  cases o with
  | returned _ => exact trivial
  | running => exact trivial
  | raised e => exact contacts_turnsDown (turnsDown_reportError e)

end Calls

/-! ## The contacts of a history -/

/-- How often a contact was made. -/
def reached (s : Contact) (t : Trace) : ℕ := t.countP fun event => made? event = some s

/-- A connection in the state `s` has been in the state `s'`. -/
def Contact.Through (s s' : Contact) : Prop :=
  s = s' ∨ s' = .connected ∧ (s = .requested ∨ s = .tunnelled)

instance (s s' : Contact) : Decidable (s.Through s') := by
  unfold Contact.Through
  infer_instance

/-- The state says which contacts were made, each of them once. -/
structure OneContact (t : Trace) : Prop where
  reached_eq : ∀ s, s ≠ .fresh → reached s t = if (contact t).Through s then 1 else 0
  letThrough : contact t ≠ .fresh → LetThrough t

theorem reached_cons (s : Contact) (event : Event) (t : Trace) :
    reached s (event :: t) = reached s t + if made? event = some s then 1 else 0 := by
  rw [reached, List.countP_cons, ← reached]
  simp only [decide_eq_true_eq]

/-- The state in which a contact can be made. -/
def Contact.before : Contact → Contact
  | .requested => .connected
  | .tunnelled => .connected
  | _ => .fresh

theorem through_step {s s' : Contact} (hs : s ≠ .fresh) (hs' : s' ≠ .fresh) :
    (if s.Through s' then 1 else 0) =
      (if s.before.Through s' then 1 else 0) + if s = s' then 1 else 0 := by
  cases s <;> cases s' <;> first | exact absurd rfl hs | exact absurd rfl hs' | rfl

section Step

variable {cfg : HandlerConfig} {addr : ClientAddr} {past : Trace}

/-- A contact is made in its state, by a request that was let through. -/
theorem before_of_made {event : Event} {s : Contact} (hmade : made? event = some s)
    (hevent : ∀ op, event.op? = some op → ContactOp cfg addr past op) :
    s ≠ .fresh ∧ contact past = s.before ∧ (s.before = .fresh → LetThrough past) := by
  revert hmade
  rw [made?.eq_def]
  split
  · rintro ⟨⟩
    have hop := hevent _ rfl
    exact ⟨by decide, hop.1, fun _ => hop.2⟩
  · rintro ⟨⟩
    have hop := hevent _ rfl
    exact ⟨by decide, hop.1, fun _ => hop.2.1⟩
  · rintro ⟨⟩
    have hop := hevent _ rfl
    exact ⟨by decide, hop.1, fun _ => hop.2.1⟩
  · rintro ⟨⟩
    exact ⟨by decide, (hevent _ rfl).1, by rintro ⟨⟩⟩
  · rintro ⟨⟩
    exact ⟨by decide, (hevent _ rfl).1, by rintro ⟨⟩⟩
  · rintro ⟨⟩
    exact ⟨by decide, hevent _ rfl, by rintro ⟨⟩⟩
  · rintro ⟨⟩
    exact ⟨by decide, hevent _ rfl, by rintro ⟨⟩⟩
  · rintro ⟨⟩

/-- One event more. -/
theorem OneContact.cons {event : Event} (h : OneContact past)
    (hevent : ∀ op, event.op? = some op → ContactOp cfg addr past op) :
    OneContact (event :: past) := by
  cases hmade : made? event with
  | none =>
      have hsame : contact (event :: past) = contact past := by
        rw [contact, hmade, Option.getD_none]
      constructor
      · intro s hs
        rw [reached_cons, hmade, if_neg (by simp), Nat.add_zero, hsame, h.reached_eq s hs]
      · rw [hsame]
        exact fun hne => List.mem_cons_of_mem _ (h.letThrough hne)
  | some s =>
      obtain ⟨hs, hpast, hfirst⟩ := before_of_made hmade hevent
      have hnow : contact (event :: past) = s := by rw [contact, hmade, Option.getD_some]
      constructor
      · intro s' hs'
        rw [reached_cons, hmade, h.reached_eq s' hs', hnow, hpast, through_step hs hs']
        simp only [Option.some.injEq]
      · refine fun _ => List.mem_cons_of_mem _ ?_
        by_cases hfresh : s.before = .fresh
        · exact hfirst hfresh
        · exact h.letThrough (hpast ▸ hfresh)

theorem oneContact_of_allowedTrace : ∀ {t past : Trace},
    AllowedTrace (ContactOp cfg addr) past t → OneContact past → OneContact (t.reverse ++ past)
  | [], _, _, h => h
  | event :: t, past, hallowed, h => by
      rw [List.reverse_cons, List.append_assoc]
      exact oneContact_of_allowedTrace hallowed.2 (h.cons hallowed.1)

end Step

/-! ## Every interleaving -/

/-- How far a connection of a run got. -/
def contactOf (i : ℕ) (run : List (ℕ × Event)) : Contact := contact (eventsOf i run).reverse

section Run

variable {cfg : HandlerConfig} {addr : ℕ → ClientAddr} {run : List (ℕ × Event)}

theorem HandlerRun.allowedContacts (h : HandlerRun cfg addr run) (i : ℕ) :
    AllowedTrace (ContactOp cfg (addr i)) [] (eventsOf i run) := by
  obtain ⟨rounds, o, hexec⟩ := h i
  have hsafe : Safe (ContactOp cfg (addr i)) [] (handleClient cfg (addr i) rounds)
      fun _ _ => True := contacts_handleClient rounds
  exact hsafe.allowedTrace hexec

theorem HandlerRun.oneContact (h : HandlerRun cfg addr run) (i : ℕ) :
    OneContact (eventsOf i run).reverse := by
  have hempty : OneContact [] :=
    ⟨fun s hs => by cases s <;> first | exact absurd rfl hs | rfl, fun hne => absurd rfl hne⟩
  have hone := oneContact_of_allowedTrace (h.allowedContacts i) hempty
  rwa [List.append_nil] at hone

theorem HandlerRun.reached_eq (h : HandlerRun cfg addr run) {s : Contact} (hs : s ≠ .fresh)
    (i : ℕ) : reached s (eventsOf i run) = if (contactOf i run).Through s then 1 else 0 := by
  have hone := (h.oneContact i).reached_eq s hs
  rwa [reached, List.countP_reverse] at hone

theorem reached_run (s : Contact) (run : List (ℕ × Event)) :
    reached s (run.map Prod.snd) = ∑ i ∈ connections run, reached s (eventsOf i run) :=
  countP_eq_sum_eventsOf _ fun _ he => List.mem_toFinset.mpr (List.mem_map_of_mem he)

/-- The contacts of one connection, in numbers. -/
theorem HandlerRun.sum_reached (h : HandlerRun cfg addr run) (i : ℕ) :
    (booksOf i run).allowed =
        reached .cached (eventsOf i run) + reached .connected (eventsOf i run) +
          reached .unreachable (eventsOf i run) +
          (if (booksOf i run).allowed = 1 ∧ contactOf i run = .fresh then 1 else 0) ∧
      reached .connected (eventsOf i run) =
        reached .requested (eventsOf i run) + reached .tunnelled (eventsOf i run) +
          if contactOf i run = .connected then 1 else 0 := by
  have hsound := h.sound i
  have hle : (booksOf i run).allowed ≤ 1 := by
    have htotal := hsound.total_le
    have hdecisions := hsound.decisions_le
    unfold Ledger.decisions at hdecisions
    omega
  have hpos : contactOf i run ≠ .fresh → 0 < (booksOf i run).allowed := by
    intro hne
    have hget : (booksOf i run).allowed = _ :=
      get_ledger (.metric .allowed) (eventsOf i run).reverse
    rw [hget]
    exact List.countP_pos_iff.mpr ⟨_, (h.oneContact i).letThrough hne, rfl⟩
  rw [h.reached_eq (s := .cached) (by simp), h.reached_eq (s := .connected) (by simp),
    h.reached_eq (s := .unreachable) (by simp), h.reached_eq (s := .requested) (by simp),
    h.reached_eq (s := .tunnelled) (by simp)]
  cases hcontact : contactOf i run with
  | fresh =>
      rcases Nat.le_one_iff_eq_zero_or_eq_one.mp hle with hnone | hone
      · simp [Contact.Through, hnone]
      · simp [Contact.Through, hone]
  | _ =>
      have hone : (booksOf i run).allowed = 1 := by
        have hpos := hpos (by rw [hcontact]; simp)
        omega
      simp [Contact.Through, hone]

end Run

/-- **One contact.**  In every state of every interleaving of connections: the requests that were
let through are those answered by the cache, those whose origin was connected or could not be
reached, and those that have made no contact; a connected origin got the request, in one piece
and once, or a tunnel, or nothing yet; no connection makes a contact twice; and what it sends is
the request that was accepted on it, as it is rebuilt, to the host that this names. -/
theorem origins_contacted_once {cfg : HandlerConfig} {addr : ℕ → ClientAddr}
    {run : List (ℕ × Event)} (h : HandlerRun cfg addr run) :
    (books run).allowed = reached .cached (run.map Prod.snd) +
        reached .connected (run.map Prod.snd) + reached .unreachable (run.map Prod.snd) +
        ((connections run).filter fun i =>
          (booksOf i run).allowed = 1 ∧ contactOf i run = .fresh).card ∧
      reached .connected (run.map Prod.snd) = reached .requested (run.map Prod.snd) +
        reached .tunnelled (run.map Prod.snd) +
        ((connections run).filter fun i => contactOf i run = .connected).card ∧
      (∀ i s, s ≠ .fresh → reached s (eventsOf i run) ≤ 1) ∧
      ∀ i event data, event ∈ eventsOf i run → event.op? = some (.sendServer data) →
        ∃ raw parsed p, Accepted cfg (addr i) (eventsOf i run).reverse raw parsed p ∧
          .called (.connect p.host p.port) () ∈ eventsOf i run ∧ data = buildOutboundRequest p := by
  have hallowed : (books run).allowed = ∑ i ∈ connections run, (booksOf i run).allowed :=
    get_books (.metric .allowed) run
  refine ⟨?_, ?_, fun i s hs => ?_, fun i event data hevent hop => ?_⟩
  · rw [hallowed, reached_run, reached_run, reached_run, Finset.card_filter,
      ← Finset.sum_add_distrib, ← Finset.sum_add_distrib, ← Finset.sum_add_distrib]
    exact Finset.sum_congr rfl fun i _ => (h.sum_reached i).1
  · rw [reached_run, reached_run, reached_run, Finset.card_filter, ← Finset.sum_add_distrib,
      ← Finset.sum_add_distrib]
    exact Finset.sum_congr rfl fun i _ => (h.sum_reached i).2
  · rw [h.reached_eq hs i]
    split
    · exact Nat.le_refl 1
    · exact Nat.zero_le 1
  · have htrace := h.allowedContacts i
    obtain ⟨pre, post, htrace_eq⟩ := List.append_of_mem hevent
    rw [htrace_eq] at htrace
    obtain ⟨-, raw, parsed, p, haccepted, hcalled, hdata⟩ := htrace.at hop
    rw [List.append_nil] at haccepted hcalled
    have hsuffix : pre.reverse <:+ (eventsOf i run).reverse := by
      rw [htrace_eq, List.reverse_append]
      exact List.suffix_append _ _
    refine ⟨raw, parsed, p, haccepted.mono hsuffix, ?_, hdata⟩
    exact List.mem_reverse.mp (hsuffix.subset hcalled)

theorem origins_contacted_once_twoConnections :
    (books twoConnections).allowed = 1 ∧ reached .tunnelled (twoConnections.map Prod.snd) = 1 ∧
      (books twoConnections).allowed = reached .cached (twoConnections.map Prod.snd) +
        reached .connected (twoConnections.map Prod.snd) +
        reached .unreachable (twoConnections.map Prod.snd) +
        ((connections twoConnections).filter fun i =>
          (booksOf i twoConnections).allowed = 1 ∧ contactOf i twoConnections = .fresh).card := by
  exact ⟨by decide +kernel, by decide +kernel, (origins_contacted_once handlerRun_twoConnections).1⟩

end Proxy
end NetworkProxy
