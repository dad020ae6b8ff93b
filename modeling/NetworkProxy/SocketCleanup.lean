import NetworkProxy.Answers

/-!
# The sockets of a connection

Which sockets are open when `handle_client` is over, whatever its calls answer or raise.

* `Sockets`: the client's socket and the origin sockets, each open or closed.
* `Leaks`: the exceptions after which nobody closes the origin socket.
* `no_socket_leak_iff`: everything is closed exactly if no such exception was raised.
-/

namespace NetworkProxy
namespace Proxy

open Py Http Cache Handler

inductive SocketState
  | opened
  | closed
deriving DecidableEq

/-- The client's socket, and the origin sockets, the newest first. -/
structure Sockets where
  client : SocketState
  origins : List SocketState
deriving DecidableEq

namespace Sockets

def start : Sockets := ⟨.opened, []⟩

/-- `server_sock.close()`, for the socket that was made last. -/
def closeNewest : List SocketState → List SocketState
  | [] => []
  | _ :: older => .closed :: older

/-- What a call makes of the sockets.  A `close()` that raises has given up its descriptor. -/
def after (s : Sockets) : Event → Sockets
  | .called .newSocket _ => { s with origins := .opened :: s.origins }
  | .called .closeServer _ => { s with origins := closeNewest s.origins }
  | .raised .closeServer _ => { s with origins := closeNewest s.origins }
  | .called .closeClient _ => { s with client := .closed }
  | .raised .closeClient _ => { s with client := .closed }
  | _ => s

/-- Every socket is closed. -/
def AllClosed (s : Sockets) : Prop :=
  s.client = .closed ∧ ∀ origin, origin ∈ s.origins → origin = .closed

instance (s : Sockets) : Decidable s.AllClosed := inferInstanceAs (Decidable (_ ∧ _))

end Sockets

/-- The sockets after a trace. -/
def socketsAfter (t : Trace) : Sockets := t.foldl Sockets.after .start

/-- The sockets after a history, newest event first. -/
def socketsOf (past : Trace) : Sockets := past.foldr (fun event s => s.after event) .start

theorem socketsOf_reverse (t : Trace) : socketsOf t.reverse = socketsAfter t :=
  List.foldr_reverse

/-- The request is not a `CONNECT`, so that `forward_http` handles it. -/
def NotConnect (rt : PyRuntime) (past : Trace) : Prop :=
  ∃ raw p, .called .recvHttpRequest raw ∈ past ∧ parseHttpRequest rt [] raw = .ok (some p) ∧
    p.method ≠ txt "CONNECT"

/-- The relay loop has received from the origin. -/
def RelayStarted (past : Trace) : Prop := ∃ size data, .called (.recvServer size) data ∈ past

/-- An exception after which nobody closes the origin socket: in `forward_http` any exception
before the connection stands, and any but `OSError` between then and the end of the relay.  One
while the request is built ends the call like one of `sendall`. -/
def Leaks (rt : PyRuntime) (past : Trace) : Event → Prop
  | .raised (.setTimeout _) _ => NotConnect rt past
  | .raised (.connect _ _) _ => NotConnect rt past
  | .raised (.sendServer _) e => e.isOSError = false
  | .raised (.recvServer _) e => e.isOSError = false
  | .raised (.sendClient _) e => e.isOSError = false ∧ RelayStarted past
  | _ => False

/-- A history, newest event first, in which a socket leaks. -/
def Leaked (rt : PyRuntime) : Trace → Prop
  | [] => False
  | event :: past => Leaks rt past event ∨ Leaked rt past

/-! ## Where the origin socket stands -/

section Standing

variable (rt : PyRuntime)

/-- The origin sockets are closed exactly if none leaked. -/
def Balanced (past : Trace) : Prop :=
  (∀ origin, origin ∈ (socketsOf past).origins → origin = .closed) ↔ ¬ Leaked rt past

/-- No origin socket was made yet; `forwards` says whether `forward_http` handles the
request. -/
structure Unopened (forwards : Prop) (past : Trace) : Prop where
  origins : (socketsOf past).origins = []
  sound : ¬ Leaked rt past
  silent : ¬ RelayStarted past
  kind : NotConnect rt past ↔ forwards

/-- The origin socket is open, and so far nothing went wrong. -/
structure Holding (past : Trace) : Prop where
  origins : (socketsOf past).origins = [.opened]
  sound : ¬ Leaked rt past

/-- The origin socket is open, and the relay has not started. -/
structure Dialling (forwards : Prop) (past : Trace) : Prop extends Holding rt past where
  silent : ¬ RelayStarted past
  kind : NotConnect rt past ↔ forwards

/-- The origin socket does not matter any more, and the relay never started. -/
structure AtRest (past : Trace) : Prop where
  balanced : Balanced rt past
  silent : ¬ RelayStarted past

variable {rt}

/-- A call that makes or closes no origin socket and receives nothing. -/
def Op.Steady : Op → Prop
  | .recvHttpRequest => False
  | .newSocket => False
  | .recvServer _ => False
  | .closeServer => False
  | _ => True

/-- A steady call that is not made on an origin socket. -/
def Op.Aside : Op → Prop
  | .setTimeout _ => False
  | .connect _ _ => False
  | .sendServer _ => False
  | op => op.Steady

/-- A call that is not made on any socket but to close the client's. -/
def Op.Offline : Op → Prop
  | .sendClient _ => False
  | op => op.Aside

theorem Op.Aside.steady {op : Op} (h : op.Aside) : op.Steady := by
  cases op <;> first | exact h | exact h.elim

theorem Op.Offline.aside {op : Op} (h : op.Offline) : op.Aside := by
  cases op <;> first | exact h | exact h.elim

section Steady

variable {event : Event} {past : Trace}

theorem origins_steady (h : ∀ op, event.op? = some op → op.Steady) :
    (socketsOf (event :: past)).origins = (socketsOf past).origins := by
  cases event with
  | called op answer =>
      have hop := h op rfl
      cases op <;> first | rfl | exact hop.elim
  | raised op e =>
      have hop := h op rfl
      cases op <;> first | rfl | exact hop.elim
  | noted n => rfl

/-- Only a received chunk starts the relay. -/
theorem relayStarted_cons (h : ∀ size data, .called (.recvServer size) data ≠ event) :
    RelayStarted (event :: past) ↔ RelayStarted past := by
  refine exists_congr fun size => exists_congr fun data => ?_
  rw [List.mem_cons]
  exact or_iff_right (h size data)

theorem relayStarted_steady (h : ∀ op, event.op? = some op → op.Steady) :
    RelayStarted (event :: past) ↔ RelayStarted past := by
  refine relayStarted_cons ?_
  rintro size data rfl
  exact h _ rfl

theorem notConnect_steady (h : ∀ op, event.op? = some op → op.Steady) :
    NotConnect rt (event :: past) ↔ NotConnect rt past := by
  refine exists_congr fun raw => exists_congr fun p => and_congr_left fun _ => ?_
  rw [List.mem_cons]
  refine or_iff_right ?_
  rintro rfl
  exact h _ rfl

end Steady

/-- Writes to the client leak nothing before the relay starts. -/
theorem not_leaks_aside {event : Event} {past : Trace}
    (h : ∀ op, event.op? = some op → op.Aside) (hsilent : ¬ RelayStarted past) :
    ¬ Leaks rt past event := by
  cases event with
  | called op answer => exact id
  | raised op e =>
      have hop := h op rfl
      cases op <;> first
        | exact id
        | exact hop.elim
        | exact fun hleak => hsilent hleak.2
  | noted n => exact id

theorem not_leaks_offline {event : Event} {past : Trace}
    (h : ∀ op, event.op? = some op → op.Offline) : ¬ Leaks rt past event := by
  cases event with
  | called op answer => exact id
  | raised op e =>
      have hop := h op rfl
      cases op <;> first | exact id | exact hop.elim
  | noted n => exact id

theorem Unopened.step {forwards : Prop} {event : Event} {past : Trace}
    (h : Unopened rt forwards past) (hop : ∀ op, event.op? = some op → op.Aside) :
    Unopened rt forwards (event :: past) where
  origins := (origins_steady fun op h' => (hop op h').steady).trans h.origins
  sound := fun hleaked => hleaked.elim (not_leaks_aside hop h.silent) h.sound
  silent := fun hstarted =>
    h.silent ((relayStarted_steady fun op h' => (hop op h').steady).mp hstarted)
  kind := (notConnect_steady fun op h' => (hop op h').steady).trans h.kind

theorem Unopened.atRest {forwards : Prop} {past : Trace} (h : Unopened rt forwards past) :
    AtRest rt past := by
  refine ⟨⟨fun _ => h.sound, fun _ => ?_⟩, h.silent⟩
  rw [h.origins]
  exact nofun

theorem AtRest.step {event : Event} {past : Trace} (h : AtRest rt past)
    (hop : ∀ op, event.op? = some op → op.Aside) : AtRest rt (event :: past) := by
  have hleaked : Leaked rt (event :: past) ↔ Leaked rt past :=
    or_iff_right (not_leaks_aside hop h.silent)
  have hsteady := fun op h' => (hop op h').steady
  refine ⟨?_, fun hstarted => h.silent ((relayStarted_steady hsteady).mp hstarted)⟩
  rw [Balanced, origins_steady hsteady, hleaked]
  exact h.balanced

theorem Balanced.step {event : Event} {past : Trace} (h : Balanced rt past)
    (hop : ∀ op, event.op? = some op → op.Offline) : Balanced rt (event :: past) := by
  have hleaked : Leaked rt (event :: past) ↔ Leaked rt past :=
    or_iff_right (not_leaks_offline hop)
  rw [Balanced, origins_steady fun op h' => (hop op h').aside.steady, hleaked]
  exact h

/-- The socket is made. -/
theorem Unopened.dialling {forwards : Prop} {past : Trace} (h : Unopened rt forwards past) :
    Dialling rt forwards (.called .newSocket () :: past) where
  origins := congrArg (List.cons SocketState.opened) h.origins
  sound := fun hleaked => hleaked.elim id h.sound
  silent := by
    refine fun hstarted => h.silent ((relayStarted_cons ?_).mp hstarted)
    rintro size data ⟨⟩
  kind := by
    rw [← h.kind]
    refine exists_congr fun raw => exists_congr fun p => and_congr_left fun _ => ?_
    rw [List.mem_cons]
    exact or_iff_right nofun

/-- No socket could be made. -/
theorem Unopened.refused {forwards : Prop} {past : Trace} (h : Unopened rt forwards past)
    (e : PyExc) : AtRest rt (.raised .newSocket e :: past) := by
  have hnone : ¬ Leaked rt (.raised .newSocket e :: past) := fun hleaked =>
    hleaked.elim id h.sound
  refine ⟨⟨fun _ => hnone, fun _ => ?_⟩, ?_⟩
  · rw [show (socketsOf (.raised .newSocket e :: past)).origins = [] from h.origins]
    exact nofun
  · refine fun hstarted => h.silent ((relayStarted_cons ?_).mp hstarted)
    rintro size data ⟨⟩

/-- A call that leaks nothing. -/
theorem Dialling.step {forwards : Prop} {event : Event} {past : Trace}
    (h : Dialling rt forwards past) (hop : ∀ op, event.op? = some op → op.Steady)
    (hleaks : ¬ Leaks rt past event) : Dialling rt forwards (event :: past) where
  origins := (origins_steady hop).trans h.origins
  sound := fun hleaked => hleaked.elim hleaks h.sound
  silent := fun hstarted => h.silent ((relayStarted_steady hop).mp hstarted)
  kind := (notConnect_steady hop).trans h.kind

theorem Dialling.called {forwards : Prop} {past : Trace} (h : Dialling rt forwards past) (op : Op)
    (hop : op.Steady) (answer : Ans op) : Dialling rt forwards (.called op answer :: past) := by
  refine h.step ?_ id
  rintro _ ⟨⟩
  exact hop

/-- An exception that leaks the socket. -/
theorem Holding.leaked {op : Op} {e : PyExc} {past : Trace} (h : Holding rt past)
    (horigins : (socketsOf (.raised op e :: past)).origins = (socketsOf past).origins)
    (hleaks : Leaks rt past (.raised op e)) : Balanced rt (.raised op e :: past) := by
  rw [Balanced, horigins, h.origins]
  refine ⟨fun hclosed => ?_, fun hsound => absurd (Or.inl hleaks) hsound⟩
  exact absurd (hclosed .opened List.mem_cons_self) (by decide)

/-- The same before the relay. -/
theorem Dialling.leaked {forwards : Prop} {e : PyExc} {past : Trace}
    (h : Dialling rt forwards past) (op : Op) (hop : op.Steady)
    (hleaks : Leaks rt past (.raised op e)) : AtRest rt (.raised op e :: past) := by
  have hsteady : ∀ op', (TraceEvent.raised op e : Event).op? = some op' → op'.Steady := by
    rintro _ ⟨⟩
    exact hop
  refine ⟨h.toHolding.leaked (origins_steady hsteady) hleaks, fun hstarted => ?_⟩
  exact h.silent ((relayStarted_steady hsteady).mp hstarted)

/-- The socket is closed. -/
theorem Holding.closed {event : Event} {past : Trace} (h : Holding rt past)
    (hevent : event.op? = some .closeServer) : Balanced rt (event :: past) := by
  have hclosed : (socketsOf (event :: past)).origins = [.closed] ∧ ¬ Leaks rt past event := by
    have hnewest : Sockets.closeNewest (socketsOf past).origins = [.closed] := by
      rw [h.origins]
      rfl
    cases event with
    | called op answer =>
        cases hevent
        exact ⟨hnewest, id⟩
    | raised op e =>
        cases hevent
        exact ⟨hnewest, id⟩
    | noted n => cases hevent
  rw [Balanced, hclosed.1]
  refine ⟨fun _ hleaked => hleaked.elim hclosed.2 h.sound, fun _ origin hmem => ?_⟩
  exact List.mem_singleton.mp hmem

end Standing

/-! ## The steps -/

/-- A program after which the sockets are balanced. -/
abbrev Balances {α : Type} (rt : PyRuntime) (past : Trace) (q : Program α) : Prop :=
  Safe Anything past q (fun past' _ => Balanced rt past')

section Steps

variable {α : Type} {rt : PyRuntime} {past : Trace}

theorem balances_offline {q : Program α} (hq : Calls Op.Offline q) (h : Balanced rt past) :
    Balances rt past q :=
  hq.safe_invariant (fun _ _ _ _ => trivial) (fun _ _ hop h => h.step hop) h

theorem atRest_aside {q : Program α} (hq : Calls Op.Aside q) (h : AtRest rt past) :
    Safe Anything past q (fun past' _ => AtRest rt past') :=
  hq.safe_invariant (fun _ _ _ _ => trivial) (fun _ _ hop h => h.step hop) h

theorem unopened_aside {forwards : Prop} {q : Program α} (hq : Calls Op.Aside q)
    (h : Unopened rt forwards past) :
    Safe Anything past q (fun past' _ => Unopened rt forwards past') :=
  hq.safe_invariant (fun _ _ _ _ => trivial) (fun _ _ hop h => h.step hop) h

theorem balances_aside {forwards : Prop} {q : Program α} (hq : Calls Op.Aside q)
    (h : Unopened rt forwards past) : Balances rt past q :=
  (atRest_aside hq h.atRest).mono fun _ _ h => h.balanced

/-- A call aside, and what follows it. -/
theorem unopened_bind {β : Type} {forwards : Prop} {op : Op} {k : Ans op → Program β}
    (hop : op.Aside) (h : Unopened rt forwards past)
    (hk : ∀ a, Unopened rt forwards (.called op a :: past) →
      Balances rt (.called op a :: past) (k a)) :
    Balances rt past ((perform op).bind k) := by
  have haside (event : Event) (hevent : event.op? = some op) :
      ∀ op', event.op? = some op' → op'.Aside := by
    intro op' hop'
    obtain rfl : op = op' := Option.some.inj (hevent.symm.trans hop')
    exact hop
  refine Safe.perform_bind trivial (fun a => hk a (h.step (haside _ rfl))) (fun e => ?_)
  exact (h.step (haside _ rfl)).atRest.balanced

/-! ### The steps of the forwarder -/

/-- How a step ends that says whether the connection stands. -/
def Dials (rt : PyRuntime) (forwards : Prop) (past : Trace) : Outcome PyExc Bool → Prop
  | .returned true => Dialling rt forwards past
  | .returned false => AtRest rt past
  | .raised _ => Balanced rt past
  | .running => True

/-- The 502 response. -/
theorem dials_gatewayFailed {forwards : Prop} (h : AtRest rt past) :
    Safe Anything past (do sendBadGateway; return false) (Dials rt forwards) := by
  have hsend := atRest_aside (calls_sendBadGateway (S := Op.Aside) trivial trivial) h
  refine Safe.bind (hsend.mono fun past' o h => ?_)
  cases o with
  | returned _ => exact h
  | raised e => exact h.balanced
  | running => exact trivial

theorem dials_onOSError {forwards : Prop} (h : AtRest rt past) (e : PyExc) :
    Safe Anything past (onOSError (do sendBadGateway; return false) e) (Dials rt forwards) := by
  rw [onOSError]
  split
  · exact dials_gatewayFailed h
  · exact h.balanced

theorem dials_connectOrigin (p : ParsedRequest) (h : Unopened rt True past) :
    Safe Anything past (Forward.connectOrigin p) (Dials rt True) := by
  refine Safe.tryCatch (Safe.perform_bind trivial (fun _ => ?_) (fun e => ?_))
  · have h := h.dialling
    have hkind := h.kind.mpr trivial
    refine Safe.perform_bind trivial (fun _ => ?_) (fun e => ?_)
    · have h := h.called (.setTimeout 10) trivial ()
      have hkind := h.kind.mpr trivial
      refine Safe.perform_bind trivial (fun _ => ?_) (fun e => ?_)
      · exact h.called (.connect p.host p.port) trivial ()
      · exact dials_onOSError (h.leaked (.connect p.host p.port) trivial hkind) e
    · exact dials_onOSError (h.leaked (.setTimeout 10) trivial hkind) e
  · exact dials_onOSError (h.refused e) e

/-- A failed `sendall` is answered with the socket closed; another exception leaks it. -/
theorem dials_sendRequest (p : ParsedRequest) (h : Dialling rt True past) :
    Safe Anything past (Forward.sendRequest p) (Dials rt True) := by
  refine Safe.tryCatch (Safe.perform_bind trivial (fun _ => ?_) (fun e => ?_))
  · exact h.called (.sendServer (buildOutboundRequest p)) trivial ()
  · show Safe Anything (.raised (.sendServer _) e :: past) (onOSError _ e) (Dials rt True)
    rw [onOSError]
    split
    · rename_i he
      have hnow : Dialling rt True (.raised (.sendServer (buildOutboundRequest p)) e :: past) := by
        refine h.step ?_ fun hleaks => absurd (hleaks.symm.trans he) Bool.false_ne_true
        rintro _ ⟨⟩
        exact trivial
      refine Safe.perform_bind trivial (fun _ => dials_gatewayFailed ⟨?_, ?_⟩)
        (fun e' => hnow.toHolding.closed rfl)
      · exact hnow.toHolding.closed rfl
      · refine fun hstarted => hnow.silent ((relayStarted_cons ?_).mp hstarted)
        rintro size data ⟨⟩
    · rename_i he
      have hleaks : Leaks rt past (.raised (.sendServer (buildOutboundRequest p)) e) :=
        Bool.eq_false_iff.mpr he
      exact (h.leaked (.sendServer (buildOutboundRequest p)) trivial hleaks).balanced

/-- How a part of the relay ends. -/
def Relays (rt : PyRuntime) (past : Trace) : Outcome PyExc α → Prop
  | .returned _ => Holding rt past
  | .raised _ => Balanced rt past
  | .running => True

/-- An exception of a call in the loop. -/
theorem relays_onOSError {op : Op} {e : PyExc} (h : Holding rt past) (hop : op ≠ .closeServer)
    (hleaks : Leaks rt past (.raised op e) ↔ e.isOSError = false) :
    Safe Anything (.raised op e :: past) (onOSError (.ret (none : Option Bytes)) e)
      (Relays rt) := by
  have horigins : (socketsOf (.raised op e :: past)).origins = (socketsOf past).origins := by
    cases op <;> first | rfl | exact absurd rfl hop
  rw [onOSError]
  split
  · rename_i he
    refine ⟨horigins.trans h.origins, fun hleaked => hleaked.elim (fun hnew => ?_) h.sound⟩
    exact absurd ((hleaks.mp hnew).symm.trans he) Bool.false_ne_true
  · rename_i he
    exact h.leaked horigins (hleaks.mpr (Bool.eq_false_iff.mpr he))

/-- One round of the relay loop. -/
theorem relays_relayChunk (h : Holding rt past) :
    Safe Anything past (relayChunk.tryCatch (onOSError (.ret none))) (Relays rt) := by
  refine Safe.tryCatch (Safe.perform_bind trivial (fun data => ?_) (fun e => ?_))
  · have h : Holding rt (.called (.recvServer Http.bufferSize) data :: past) :=
      ⟨h.origins, fun hleaked => hleaked.elim id h.sound⟩
    have hstarted : RelayStarted (.called (.recvServer Http.bufferSize) data :: past) :=
      ⟨_, data, List.mem_cons_self⟩
    split
    · exact h
    · refine Safe.perform_bind trivial (fun _ => ?_) (fun e => ?_)
      · exact ⟨h.origins, fun hleaked => hleaked.elim id h.sound⟩
      · exact relays_onOSError h nofun (and_iff_left hstarted)
  · exact relays_onOSError h nofun Iff.rfl

theorem relays_relay (maxObjectSize : ℤ) (rounds : ℕ) (s : Transfer) (h : Holding rt past) :
    Safe Anything past (relay maxObjectSize rounds s) (Relays rt) := by
  induction rounds generalizing s past with
  | zero => exact trivial
  | succ rounds ih =>
      refine Safe.bind ((relays_relayChunk h).mono fun past' o h => ?_)
      cases o with
      | raised e => exact h
      | running => exact trivial
      | returned result =>
          cases result with
          | none => exact h
          | some data => exact ih _ h

/-- The socket is closed before anything else is done. -/
theorem balances_finish (p : ParsedRequest) (start : ℚ) (s : Transfer) (h : Holding rt past) :
    Balances rt past (Forward.finish p start s) := by
  refine Safe.perform_bind trivial (fun _ => ?_) (fun e => h.closed rfl)
  refine balances_offline (Calls.bind (Calls.perform trivial) fun stop => ?_) (h.closed rfl)
  split
  · refine (Calls.perform trivial).bind fun now => ?_
    exact (Calls.perform trivial).bind fun _ => Calls.perform trivial
  · exact Calls.perform trivial

theorem balances_fetch (maxObjectSize : ℤ) (rounds : ℕ) (p : ParsedRequest)
    (h : Unopened rt True past) : Balances rt past (Forward.fetch maxObjectSize rounds p) := by
  refine unopened_bind trivial h fun start h => ?_
  refine Safe.bind ((dials_connectOrigin p h).mono fun past' o h => ?_)
  cases o with
  | raised e => exact h
  | running => exact trivial
  | returned connected =>
      cases connected with
      | false => exact h.balanced
      | true =>
          refine Safe.bind ((dials_sendRequest p h).mono fun past' o h => ?_)
          cases o with
          | raised e => exact h
          | running => exact trivial
          | returned sent =>
              cases sent with
              | false => exact h.balanced
              | true =>
                  refine Safe.bind ((relays_relay maxObjectSize rounds _ h.toHolding).mono
                    fun past' o h => ?_)
                  cases o with
                  | raised e => exact h
                  | running => exact trivial
                  | returned s => exact balances_finish p start s h

theorem aside_lookup (p : ParsedRequest) : Calls Op.Aside (Forward.lookup p) :=
  Forward.calls_lookup (S := Op.Aside) p trivial (fun _ _ => trivial) trivial (fun _ => trivial)

theorem balances_forwardHttp (maxObjectSize : ℤ) (rounds : ℕ) (p : ParsedRequest)
    (h : Unopened rt True past) : Balances rt past (forwardHttp maxObjectSize rounds p) := by
  refine Safe.bind ((unopened_aside (aside_lookup p) h).mono fun past' o h => ?_)
  cases o with
  | raised e => exact h.atRest.balanced
  | running => exact trivial
  | returned answered =>
      cases answered with
      | true => exact h.atRest.balanced
      | false => exact balances_fetch maxObjectSize rounds p h

/-! ### The steps of the handler -/

/-- Whatever happens in the tunnel, the socket is closed. -/
theorem balances_tunnelThrough (p : ParsedRequest) (h : Dialling rt False past) :
    Balances rt past (tunnelThrough p) := by
  have hclose (past' : Trace) (h : Dialling rt False past') :
      Balances rt past' ((perform .closeServer).tryCatch swallow) := by
    refine Safe.tryCatch ⟨trivial, fun _ => h.toHolding.closed rfl, fun e => ?_⟩
    exact balances_offline (calls_swallow e) (h.toHolding.closed rfl)
  have hbody : Calls (fun op : Op => op.Steady ∧ ∀ data, op ≠ .sendServer data)
      (Prog.tryCatch (do
        perform (.setTimeout 10)
        perform (.connect p.host p.port)
        perform (.sendClient established)
        perform .tunnel) (onOSError sendBadGateway)) := by
    refine Calls.tryCatch ?_ (calls_onOSError (calls_sendBadGateway ⟨trivial, nofun⟩
      ⟨trivial, nofun⟩))
    refine (Calls.perform ⟨trivial, nofun⟩).bind fun _ => ?_
    refine (Calls.perform ⟨trivial, nofun⟩).bind fun _ => ?_
    exact (Calls.perform ⟨trivial, nofun⟩).bind fun _ => Calls.perform ⟨trivial, nofun⟩
  refine Safe.finallyDo_outcome (Safe.mono (Q := fun past' _ => Dialling rt False past') ?_
    fun past' _ h => hclose past' h)
  refine hbody.safe_invariant (fun _ _ _ _ => trivial) (fun past' event hop h => ?_) h
  refine h.step (fun op h' => (hop op h').1) ?_
  cases event with
  | called op answer => exact id
  | noted n => exact id
  | raised op e =>
      have hop := hop op rfl
      cases op <;> first
        | exact id
        | exact hop.1.elim
        | exact fun hleaks => h.kind.mp hleaks
        | exact fun hleaks => h.silent hleaks.2
        | exact absurd rfl (hop.2 _)

variable {cfg : HandlerConfig} {addr : ClientAddr}

theorem balances_connectTunnel (p : ParsedRequest) (h : Unopened rt False past) :
    Balances rt past (connectTunnel cfg addr p) := by
  refine unopened_bind trivial h fun _ h => ?_
  have hmade : Safe Anything _ (Prog.tryCatch (do perform .newSocket; return true)
      (onOSError (do sendBadGateway; return false))) (Dials rt False) :=
    Safe.tryCatch (Safe.perform_bind trivial (fun _ => h.dialling)
      (fun e => dials_onOSError (h.refused e) e))
  refine Safe.bind (hmade.mono fun past' o h => ?_)
  cases o with
  | raised e => exact h
  | running => exact trivial
  | returned opened =>
      cases opened with
      | false => exact h.balanced
      | true => exact balances_tunnelThrough p h

theorem aside_rejectRateLimited (p : ParsedRequest) :
    Calls Op.Aside (rejectRateLimited cfg addr p) := by
  refine (Calls.perform trivial).bind fun retryAfter => ?_
  refine (Calls.perform trivial).bind fun _ => ?_
  exact (Calls.perform trivial).bind fun _ => Calls.perform trivial

theorem aside_rejectBlocked (p : ParsedRequest) :
    Calls Op.Aside (rejectBlocked cfg addr p) := by
  refine (Calls.perform trivial).bind fun _ => ?_
  exact (Calls.perform trivial).bind fun _ => Calls.perform trivial

theorem aside_rejectAuth (p : ParsedRequest) : Calls Op.Aside (rejectAuth cfg addr p) :=
  (Calls.perform trivial).bind fun _ => Calls.perform trivial

theorem aside_checkAuth (headers : OrderedDict Text Text) :
    Calls Op.Aside (checkAuth cfg headers) := by
  refine (calls_checkAuth headers).mono ?_
  rintro _ ⟨plain, stored, rfl⟩
  exact trivial

theorem balances_dispatch (rounds : ℕ) (p : ParsedRequest)
    (h : Unopened rt (p.method ≠ txt "CONNECT") past) :
    Balances rt past (dispatch cfg addr rounds p) := by
  refine unopened_bind trivial h fun _ h => ?_
  split
  · rename_i hconnect
    exact balances_connectTunnel p { h with kind := h.kind.trans (by simp [hconnect]) }
  · rename_i hother
    refine unopened_bind trivial h fun _ h => ?_
    exact balances_forwardHttp _ rounds p { h with kind := h.kind.trans (by simp [hother]) }

theorem balances_filterHost (rounds : ℕ) (p : ParsedRequest)
    (h : Unopened rt (p.method ≠ txt "CONNECT") past) :
    Balances rt past (filterHost cfg addr rounds p) := by
  refine unopened_bind trivial h fun blocked h => ?_
  cases blocked with
  | true => exact balances_aside (aside_rejectBlocked p) h
  | false => exact balances_dispatch rounds p h

theorem balances_authenticate (rounds : ℕ) (p : ParsedRequest)
    (h : Unopened rt (p.method ≠ txt "CONNECT") past) :
    Balances rt past (authenticate cfg addr rounds p) := by
  refine Safe.bind ((unopened_aside (aside_checkAuth p.headers) h).mono fun past' o h => ?_)
  cases o with
  | raised e => exact h.atRest.balanced
  | running => exact trivial
  | returned ok =>
      have hnoted : Unopened rt (p.method ≠ txt "CONNECT") (.noted (.authChecked ok) :: past') :=
        h.step fun _ hop => absurd hop.symm (Option.some_ne_none _)
      show Balances rt (.noted (.authChecked ok) :: past') _
      cases ok with
      | false => exact balances_aside (aside_rejectAuth p) hnoted
      | true => exact balances_filterHost rounds p hnoted

theorem balances_limit (rounds : ℕ) (p : ParsedRequest)
    (h : Unopened rt (p.method ≠ txt "CONNECT") past) :
    Balances rt past (limit cfg addr rounds p) := by
  rw [limit]
  split
  · refine unopened_bind trivial h fun allowed h => ?_
    cases allowed with
    | false => exact balances_aside (aside_rejectRateLimited p) h
    | true => exact balances_authenticate rounds p h
  · exact balances_authenticate rounds p h

/-- What is received decides which function handles it. -/
theorem unopened_received {raw : Bytes} {p : ParsedRequest}
    (hparse : parseHttpRequest rt [] raw = .ok (some p)) :
    Unopened rt (p.method ≠ txt "CONNECT") [.called .recvHttpRequest raw] where
  origins := rfl
  sound := fun hleaked => hleaked.elim id id
  silent := by
    rintro ⟨size, data, hmem⟩
    cases List.mem_singleton.mp hmem
  kind := by
    constructor
    · rintro ⟨raw', p', hmem, hparse', hmethod⟩
      cases List.mem_singleton.mp hmem
      rw [hparse] at hparse'
      cases hparse'
      exact hmethod
    · exact fun hmethod => ⟨raw, p, List.mem_cons_self, hparse, hmethod⟩

theorem atRest_received (raw : Bytes) : AtRest rt [.called .recvHttpRequest raw] := by
  refine ⟨⟨fun _ hleaked => hleaked.elim id id, fun _ => nofun⟩, ?_⟩
  rintro ⟨size, data, hmem⟩
  cases List.mem_singleton.mp hmem

theorem balances_serve (rounds : ℕ) : Balances cfg.rt [] (serve cfg addr rounds) := by
  refine Safe.perform_bind trivial (fun raw => ?_) (fun e => ?_)
  · split
    · exact (atRest_received raw).balanced
    · rw [parseRaw]
      split
      · exact (atRest_received raw).balanced
      · have hreject : Calls Op.Aside rejectBadRequest :=
          (Calls.perform trivial).bind fun _ => Calls.perform trivial
        exact (atRest_aside hreject (atRest_received raw)).mono fun _ _ h => h.balanced
      · rename_i p hparse
        refine unopened_bind trivial (unopened_received hparse) fun requestId h => ?_
        refine unopened_bind trivial h fun _ h => ?_
        exact unopened_bind trivial h fun _ h => balances_limit rounds _ h
  · exact ⟨fun _ hleaked => hleaked.elim id id, fun _ _ hmem => absurd hmem List.not_mem_nil⟩

theorem offline_reportError (e : PyExc) : Calls Op.Offline (reportError cfg addr e) := by
  rw [reportError]
  split
  · exact (Calls.perform trivial).bind fun _ => (Calls.perform trivial).tryCatch calls_swallow
  · exact trivial

/-- The client's socket is closed at the end, whatever happened. -/
theorem closes_client (h : Balanced rt past) :
    Safe Anything past ((perform .closeClient).tryCatch swallow)
      (fun past' _ => (socketsOf past').client = .closed ∧ Balanced rt past') := by
  have hbalanced (event : Event) (hevent : event.op? = some .closeClient) :
      Balanced rt (event :: past) := by
    refine h.step fun op hop => ?_
    obtain rfl : .closeClient = op := Option.some.inj (hevent.symm.trans hop)
    exact trivial
  refine Safe.tryCatch ⟨trivial, fun _ => ⟨rfl, hbalanced _ rfl⟩, fun e => ?_⟩
  show Safe Anything (.raised .closeClient e :: past) (swallow e) _
  rw [swallow]
  split <;> exact ⟨rfl, hbalanced _ rfl⟩

theorem closes_handleClient (rounds : ℕ) :
    Safe Anything [] (handleClient cfg addr rounds)
      (fun past _ => (socketsOf past).client = .closed ∧ Balanced cfg.rt past) := by
  refine Safe.finallyDo_outcome (Safe.mono (Q := fun past' _ => Balanced cfg.rt past') ?_
    fun past' _ h => closes_client h)
  refine Safe.tryCatch ((balances_serve rounds).mono fun past' o h => ?_)
  cases o with
  | returned _ => exact h
  | running => exact trivial
  | raised e => exact balances_offline (offline_reportError e) h

end Steps

/-- **Sockets.**  In every execution of `handle_client` that is over, whatever the calls answer or
raise: the client's socket and every origin socket that was made are closed if and only if no
exception leaks one. -/
theorem no_socket_leak_iff {cfg : HandlerConfig} {addr : ClientAddr} {rounds : ℕ} {t : Trace}
    {o : Outcome PyExc Unit} (hexec : Exec (handleClient cfg addr rounds) t o)
    (hdone : o ≠ .running) :
    (socketsAfter t).AllClosed ↔ ¬ Leaked cfg.rt t.reverse := by
  have hend : (socketsOf (t.reverse ++ [])).client = .closed ∧
      Balanced cfg.rt (t.reverse ++ []) := (closes_handleClient rounds).post hexec hdone
  rw [List.append_nil] at hend
  have hclient : (socketsOf t.reverse).client = .closed := hend.1
  have horigins : (∀ origin, origin ∈ (socketsOf t.reverse).origins → origin = .closed) ↔
      ¬ Leaked cfg.rt t.reverse := hend.2
  rw [socketsOf_reverse] at hclient horigins
  rw [← horigins]
  exact and_iff_right hclient

theorem no_socket_leak_iff_connect :
    (socketsAfter connectTrace).AllClosed ↔ ¬ Leaked oneUser.rt connectTrace.reverse :=
  no_socket_leak_iff (exec_run (obliging connectRequest)
    (handleClient oneUser ⟨txt "10.0.0.1", 5000⟩ 1)) nofun

/-- A request for `forward_http`, from an authenticated user. -/
def getRequest : Bytes :=
  ascii "GET http://a/ HTTP/1.1\r\nProxy-Authorization: Basic dXNlcjpwYXNz\r\n\r\n"

/-- An environment in which the origin refuses the connection. -/
def refusing (raw : Bytes) : ∀ op, Except PyExc (Ans op)
  | .connect _ _ => .error (.osError (txt "[Errno 111] Connection refused"))
  | op => obliging raw op

/-- The trace of `getRequest`. -/
def refusedTrace : Trace :=
  ((handleClient oneUser ⟨txt "10.0.0.1", 5000⟩ 1).run (refusing getRequest)).1

/-- When the origin refuses the connection, its socket stays open, although the client is
answered and `handle_client` returns. -/
theorem refused_socket_stays_open :
    ¬ ∀ (cfg : HandlerConfig) (addr : ClientAddr) (rounds : ℕ) (t : Trace)
      (o : Outcome PyExc Unit), Exec (handleClient cfg addr rounds) t o → o ≠ .running →
        (socketsAfter t).AllClosed := by
  intro hclaim
  have hclosed : (socketsAfter refusedTrace).AllClosed :=
    hclaim oneUser ⟨txt "10.0.0.1", 5000⟩ 1 refusedTrace _ (exec_run (refusing getRequest) _) nofun
  revert hclosed
  decide +kernel

end Proxy
end NetworkProxy
