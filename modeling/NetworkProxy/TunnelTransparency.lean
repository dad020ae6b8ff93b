import NetworkProxy.RequestFraming
import NetworkProxy.Handler
import NetworkProxy.Tunnel

/-!
# Transparency of the tunnel

What the client sends behind the head of its `CONNECT` passes two readers, first
`recv_http_request` and then the relay.

* `recv_append_pending`: what `recv_http_request` received and what is still to come are the
  bytes the client sends.
* `untouched_of_exec`: before the tunnel nothing is written but the 200 line.
* `transparent_iff`: the tunnel is transparent exactly if `recv_http_request` takes no byte
  of the payload.
-/

namespace NetworkProxy

open Py

namespace Http

/-! ## What is left on the socket -/

/-- All bytes a socket delivers before its end, those behind an `OSError` included. -/
def sentBytes : List RecvEvent → Bytes
  | [] => []
  | .data chunk :: events => chunk.bytes ++ sentBytes events
  | .osError :: events => sentBytes events
  | .eof :: _ => []

/-- The bytes still to come after `recvBody`. -/
def pendingBody : List RecvEvent → ℕ → Bytes
  | [], _ => []
  | event :: events, remaining =>
      if 0 < remaining then
        match event with
        | .data chunk =>
            let got := chunk.bytes.take (min bufferSize remaining)
            chunk.bytes.drop got.length ++ pendingBody events (remaining - got.length)
        | .eof => []
        | .osError => sentBytes events
      else sentBytes (event :: events)

/-- The bytes still to come after `recvHttpRequest`, with the same steps. -/
def pendingBytes (rt : PyRuntime) (events : List RecvEvent) : Bytes :=
  match recvHeaders events [] with
  | none => []
  | some (data, events) =>
      match breakOn headerTerminator data with
      | none => sentBytes events
      | some (head, early) =>
          match extractContentLength rt (decodeIgnore (head ++ headerTerminator)) with
          | some contentLength =>
              if 0 < contentLength then pendingBody events (contentLength - early.length).toNat
              else sentBytes events
          | none => sentBytes events

/-- Phase 1 leaves what it does not take. -/
theorem recvHeaders_append {events events' : List RecvEvent} {data data' : Bytes}
    {parts : Bytes × Bytes} (h : recvHeaders events data = some (data', events'))
    (hbreak : breakOn headerTerminator data' = some parts) :
    data' ++ sentBytes events' = data ++ sentBytes events := by
  induction events generalizing data with
  | nil =>
      rw [recvHeaders] at h
      split at h
      · cases h
        rfl
      · split at h
        · cases h
        · cases h
          rfl
  | cons event events ih =>
      rw [recvHeaders.eq_def] at h
      dsimp only at h
      split at h
      · cases h
        rfl
      · rename_i hnone
        split at h
        · cases h
        · cases event with
          | data chunk => rw [ih h, sentBytes, List.append_assoc]
          | eof =>
              cases h
              exact absurd (by rw [hbreak]; rfl) hnone
          | osError =>
              cases h
              exact absurd (by rw [hbreak]; rfl) hnone

theorem pendingBody_zero (events : List RecvEvent) : pendingBody events 0 = sentBytes events := by
  cases events with
  | nil => rfl
  | cons event events => cases event <;> rfl

/-- Phase 2 leaves what it does not take. -/
theorem recvBody_append (events : List RecvEvent) (data : Bytes) (remaining : ℕ) :
    recvBody events data remaining ++ pendingBody events remaining = data ++ sentBytes events := by
  induction events generalizing data remaining with
  | nil => rfl
  | cons event events ih =>
      rcases Nat.eq_zero_or_pos remaining with rfl | hpos
      · rw [recvBody_zero, pendingBody_zero]
      · cases event with
        | data chunk =>
            have hlen := chunk.length_le
            rw [recvBody, pendingBody, if_pos hpos, if_pos hpos]
            dsimp only
            rcases Nat.lt_or_ge remaining chunk.bytes.length with hcut | hall
            · have hmin : min bufferSize remaining = remaining := by omega
              have hgot : (chunk.bytes.take remaining).length = remaining := by
                rw [List.length_take]
                omega
              rw [hmin, hgot, Nat.sub_self, recvBody_zero, pendingBody_zero, sentBytes,
                List.append_assoc, ← List.append_assoc (chunk.bytes.take remaining),
                List.take_append_drop]
            · have hgot : chunk.bytes.take (min bufferSize remaining) = chunk.bytes :=
                List.take_of_length_le (Nat.le_min.mpr ⟨hlen, hall⟩)
              rw [hgot, List.drop_length, List.nil_append, ih, sentBytes, List.append_assoc]
        | eof =>
            rw [recvBody, pendingBody, if_pos hpos, if_pos hpos]
            rfl
        | osError =>
            rw [recvBody, pendingBody, if_pos hpos, if_pos hpos]
            rfl

/-- No byte gets lost on the socket.  Behind what was received come the bytes that are
left. -/
theorem recv_append_pending {rt : PyRuntime} {events : List RecvEvent} {parts : Bytes × Bytes}
    (h : breakOn headerTerminator (recvHttpRequest rt events) = some parts) :
    recvHttpRequest rt events ++ pendingBytes rt events = sentBytes events := by
  rw [recvHttpRequest] at h
  rw [recvHttpRequest, pendingBytes]
  cases hrecv : recvHeaders events [] with
  | none =>
      rw [hrecv] at h
      cases h
  | some received =>
      obtain ⟨data, events'⟩ := received
      rw [hrecv] at h
      dsimp only at h ⊢
      cases hbreak : breakOn headerTerminator data with
      | none =>
          rw [hbreak] at h
          dsimp only at h
          rw [hbreak] at h
          cases h
      | some parts' =>
          obtain ⟨head, early⟩ := parts'
          have hheaders : data ++ sentBytes events' = sentBytes events :=
            recvHeaders_append hrecv hbreak
          dsimp only
          cases extractContentLength rt (decodeIgnore (head ++ headerTerminator)) with
          | none => exact hheaders
          | some contentLength =>
              dsimp only
              split
              · rw [recvBody_append, hheaders]
              · exact hheaders

/-- The payload is what was received behind the head and what is still to come. -/
theorem payload_eq {rt : PyRuntime} {events : List RecvEvent} {head head' body payload : Bytes}
    (hrecv : breakOn headerTerminator (recvHttpRequest rt events) = some (head, body))
    (hstream : breakOn headerTerminator (sentBytes events) = some (head', payload)) :
    payload = body ++ pendingBytes rt events := by
  have hwhole := breakOn_append (pendingBytes rt events) hrecv
  rw [recv_append_pending hrecv, hstream] at hwhole
  cases hwhole
  rfl

end Http

namespace Proxy

open Http Handler

/-! ## Before the tunnel -/

/-- A call that moves no byte between the proxy and a peer. -/
def Op.Still : Op → Prop
  | .recvHttpRequest => False
  | .sendClient _ => False
  | .sendServer _ => False
  | .recvServer _ => False
  | .tunnel => False
  | _ => True

/-- The request is read and parsed, and nothing else was read or written. -/
structure Untouched (rt : PyRuntime) (past : Trace) : Prop where
  still : ∀ event, event ∈ past → ∀ op, event.op? = some op → op.Still ∨ op = .recvHttpRequest
  parsed : ∀ raw, .called .recvHttpRequest raw ∈ past →
    ∃ p, parseHttpRequest rt [] raw = .ok (some p)

/-- What must have happened before a call: the tunnel starts when the origin is connected and
the client has got the 200 line, and nothing but that line was written. -/
def TunnelOp (rt : PyRuntime) (past : Trace) : Op → Prop
  | .tunnel => ∃ host port past', Untouched rt past' ∧
      past = .called (.sendClient established) () :: .called (.connect host port) () :: past'
  | _ => True

/-- Not the tunnel. -/
def Op.NoTunnel (op : Op) : Prop := op ≠ .tunnel

abbrev Opens (rt : PyRuntime) (past : Trace) {α : Type} (q : Program α) : Prop :=
  Safe (TunnelOp rt) past q (fun _ _ => True)

section Opens

variable {α β : Type} {cfg : HandlerConfig} {addr : ClientAddr} {rt : PyRuntime} {past : Trace}

theorem Op.NoTunnel.allowed {op : Op} (h : op.NoTunnel) : TunnelOp rt past op := by
  cases op <;> first | exact trivial | exact (h rfl).elim

theorem Op.Still.noTunnel {op : Op} (h : op.Still) : op.NoTunnel := by
  rintro rfl
  exact h

theorem opens_of_noTunnel {q : Program α} (hq : Calls Op.NoTunnel q) : Opens rt past q :=
  (hq.safe fun _ _ _ hop => hop.allowed).mono fun _ _ _ => trivial

/-- A still call leaves everything untouched. -/
theorem Untouched.cons {event : Event} (h : Untouched rt past)
    (hevent : ∀ op, event.op? = some op → op.Still) : Untouched rt (event :: past) := by
  constructor
  · intro event' hmem op hop
    rcases List.mem_cons.mp hmem with rfl | hmem
    · exact Or.inl (hevent op hop)
    · exact h.still event' hmem op hop
  · intro raw hmem
    rcases List.mem_cons.mp hmem with rfl | hmem
    · exact (hevent .recvHttpRequest rfl).elim
    · exact h.parsed raw hmem

/-- A still call of an untouched connection, and what follows it. -/
theorem untouched_bind {op : Op} {k : Ans op → Program β} {Q : Trace → Outcome PyExc β → Prop}
    (hop : op.Still) (h : Untouched rt past)
    (hk : ∀ a, Untouched rt (.called op a :: past) →
      Safe (TunnelOp rt) (.called op a :: past) (k a) Q)
    (hQ : ∀ e, Untouched rt (.raised op e :: past) → Q (.raised op e :: past) (.raised e)) :
    Safe (TunnelOp rt) past ((perform op).bind k) Q := by
  have hcons (event : Event) (hevent : event.op? = some op) : Untouched rt (event :: past) := by
    refine h.cons fun op' hop' => ?_
    rw [hevent] at hop'
    cases hop'
    exact hop
  exact Safe.perform_bind hop.noTunnel.allowed (fun a => hk a (hcons _ rfl))
    (fun e => hQ e (hcons _ rfl))

theorem opens_bind {op : Op} {k : Ans op → Program β} (hop : op.Still) (h : Untouched rt past)
    (hk : ∀ a, Untouched rt (.called op a :: past) → Opens rt (.called op a :: past) (k a)) :
    Opens rt past ((perform op).bind k) :=
  untouched_bind hop h hk fun _ _ => trivial

theorem noTunnel_sendBadGateway : Calls Op.NoTunnel sendBadGateway :=
  calls_sendBadGateway nofun nofun

theorem noTunnel_rejectRateLimited (p : ParsedRequest) :
    Calls Op.NoTunnel (rejectRateLimited cfg addr p) := by
  refine (Calls.perform nofun).bind fun retryAfter => ?_
  refine (Calls.perform nofun).bind fun _ => ?_
  exact (Calls.perform nofun).bind fun _ => Calls.perform nofun

theorem noTunnel_rejectBlocked (p : ParsedRequest) :
    Calls Op.NoTunnel (rejectBlocked cfg addr p) := by
  refine (Calls.perform nofun).bind fun _ => ?_
  exact (Calls.perform nofun).bind fun _ => Calls.perform nofun

theorem noTunnel_of_ofForward {p : ParsedRequest} {op : Op} (h : Forward.OfForward p op) :
    op.NoTunnel := by
  rintro rfl
  exact h

theorem noTunnel_reportError (e : PyExc) : Calls Op.NoTunnel (reportError cfg addr e) := by
  rw [reportError]
  split
  · exact (Calls.perform (by simp [Op.NoTunnel])).bind fun _ =>
      (Calls.perform (by simp [Op.NoTunnel])).tryCatch calls_swallow
  · exact trivial

/-- The tunnel is opened right behind the 200 line. -/
theorem opens_tunnelThrough (p : ParsedRequest) (h : Untouched rt past) :
    Opens rt past (tunnelThrough p) := by
  have hgateway (past' : Trace) (e : PyExc) : Opens rt past' (onOSError sendBadGateway e) :=
    opens_of_noTunnel (calls_onOSError noTunnel_sendBadGateway e)
  have hclose (past' : Trace) : Opens rt past' ((perform .closeServer).tryCatch swallow) :=
    opens_of_noTunnel ((Calls.perform nofun).tryCatch calls_swallow)
  refine Safe.finallyDo (Safe.mono (Q := fun _ _ => True) (Safe.tryCatch ?_)
    fun past' _ _ => hclose past')
  refine untouched_bind trivial h (fun _ h => ?_) (fun e _ => hgateway _ e)
  refine untouched_bind trivial h (fun _ h' => ?_) (fun e _ => hgateway _ e)
  refine Safe.perform_bind trivial (fun _ => ?_) (fun e => hgateway _ e)
  exact ⟨⟨_, _, _, h, rfl⟩, fun _ => trivial, fun e => hgateway _ e⟩

/-- The socket to the origin is made without a byte to the client. -/
theorem untouched_newSocket (h : Untouched rt past) :
    Safe (TunnelOp rt) past (Prog.tryCatch (do perform .newSocket; return true)
      (onOSError (do sendBadGateway; return false)))
      (fun past' o => o = .returned true → Untouched rt past') := by
  refine Safe.tryCatch (untouched_bind trivial h (fun _ h _ => h) fun e _ => ?_)
  show Safe (TunnelOp rt) _ (onOSError (do sendBadGateway; return false) e) _
  rw [onOSError]
  split
  · refine Safe.bind ((opens_of_noTunnel noTunnel_sendBadGateway).mono fun past' o _ => ?_)
    cases o with
    | returned _ => rintro ⟨⟩
    | raised e => rintro ⟨⟩
    | running => exact trivial
  · rintro ⟨⟩

theorem opens_connectTunnel (p : ParsedRequest) (h : Untouched rt past) :
    Opens rt past (connectTunnel cfg addr p) := by
  refine opens_bind trivial h fun _ h => ?_
  refine Safe.bind ((untouched_newSocket h).mono fun past' o hsocket => ?_)
  cases o with
  | raised e => exact trivial
  | running => exact trivial
  | returned opened =>
      cases opened with
      | false => exact trivial
      | true => exact opens_tunnelThrough p (hsocket rfl)

theorem opens_dispatch (rounds : ℕ) (p : ParsedRequest) (h : Untouched rt past) :
    Opens rt past (dispatch cfg addr rounds p) := by
  refine opens_bind trivial h fun _ h => ?_
  split
  · exact opens_connectTunnel p h
  · refine opens_of_noTunnel ((Calls.perform nofun).bind fun _ => ?_)
    exact (calls_forwardHttp _ rounds p).mono fun _ => noTunnel_of_ofForward

theorem opens_filterHost (rounds : ℕ) (p : ParsedRequest) (h : Untouched rt past) :
    Opens rt past (filterHost cfg addr rounds p) := by
  refine opens_bind trivial h fun blocked h => ?_
  cases blocked with
  | true => exact opens_of_noTunnel (noTunnel_rejectBlocked p)
  | false => exact opens_dispatch rounds p h

theorem untouched_checkAuth (headers : OrderedDict Text Text) (h : Untouched rt past) :
    Safe (TunnelOp rt) past (checkAuth cfg headers) (fun past' _ => Untouched rt past') := by
  rw [checkAuth]
  split
  · exact h
  · split
    · exact h
    · exact untouched_bind (k := .ret) trivial h (fun _ h => h) (fun _ h => h)

theorem opens_authenticate (rounds : ℕ) (p : ParsedRequest) (h : Untouched rt past) :
    Opens rt past (authenticate cfg addr rounds p) := by
  refine Safe.bind ((untouched_checkAuth p.headers h).mono fun past' o h => ?_)
  cases o with
  | raised e => exact trivial
  | running => exact trivial
  | returned ok =>
      have hnoted : Untouched rt (.noted (.authChecked ok) :: past') := by
        refine h.cons fun op hop => ?_
        cases hop
      cases ok with
      | false =>
          exact opens_of_noTunnel ((Calls.perform nofun).bind fun _ => Calls.perform nofun)
      | true => exact opens_filterHost rounds p hnoted

theorem opens_limit (rounds : ℕ) (p : ParsedRequest) (h : Untouched rt past) :
    Opens rt past (limit cfg addr rounds p) := by
  rw [limit]
  split
  · refine opens_bind trivial h fun allowed h => ?_
    cases allowed with
    | false => exact opens_of_noTunnel (noTunnel_rejectRateLimited p)
    | true => exact opens_authenticate rounds p h
  · exact opens_authenticate rounds p h

theorem opens_serve (rounds : ℕ) : Opens cfg.rt [] (serve cfg addr rounds) := by
  refine Safe.perform_bind trivial (fun raw => ?_) (fun e => trivial)
  split
  · exact trivial
  · rw [parseRaw]
    split
    · exact trivial
    · exact opens_of_noTunnel ((Calls.perform (by simp [Op.NoTunnel])).bind fun _ =>
        Calls.perform (by simp [Op.NoTunnel]))
    · rename_i p hparse
      have hread : Untouched cfg.rt [.called .recvHttpRequest raw] := by
        constructor
        · intro event hmem op hop
          rw [List.mem_singleton.mp hmem] at hop
          cases hop
          exact Or.inr rfl
        · intro raw' hmem
          cases List.mem_singleton.mp hmem
          exact ⟨p, hparse⟩
      refine opens_bind trivial hread fun requestId h => ?_
      refine opens_bind trivial h fun _ h => opens_bind trivial h fun _ h => ?_
      exact opens_limit rounds _ h

/-- Every call of `handle_client` has its past. -/
theorem opens_handleClient (rounds : ℕ) : Opens cfg.rt [] (handleClient cfg addr rounds) := by
  have hclose (past' : Trace) : Opens cfg.rt past' ((perform .closeClient).tryCatch swallow) :=
    opens_of_noTunnel ((Calls.perform nofun).tryCatch calls_swallow)
  refine Safe.finallyDo (Safe.mono (Q := fun _ _ => True) (Safe.tryCatch ?_)
    fun past' _ _ => hclose past')
  refine (opens_serve rounds).mono fun past' o _ => ?_
  cases o with
  | returned _ => exact trivial
  | running => exact trivial
  | raised e => exact opens_of_noTunnel (noTunnel_reportError e)

end Opens

/-! ## Transparency -/

/-- The tunnel behind the trace `pre`, when `pending` is still to come from a client that sends
`payload`. -/
structure Transparent (pre : Trace) (payload pending : Bytes) : Prop where
  /-- The origin is connected and the client has the 200 line; nothing else was written, and
  nothing was read from the origin. -/
  established : ∃ before host port,
    pre = before ++ [.called (.connect host port) (), .called (.sendClient established) ()] ∧
      ∀ event, event ∈ before → ∀ op, event.op? = some op → op.Still ∨ op = .recvHttpRequest
  inOrder : ∀ fromOrigin t, Tunnel.Run (Tunnel.start pending fromOrigin) t →
    t.toOrigin.delivered <+: payload ∧ t.toClient.delivered <+: fromOrigin
  complete : ∀ fromOrigin t, Tunnel.Run (Tunnel.start pending fromOrigin) t →
    t.toOrigin.phase.ending? = some .eof → t.toClient.phase.ending? = some .eof →
      t.toOrigin.delivered = payload ∧ t.toClient.delivered = fromOrigin

/-- A tunnel delivers what is still to come, so this has to be the payload. -/
theorem Transparent.pending_eq {pre : Trace} {payload pending : Bytes}
    (h : Transparent pre payload pending) : pending = payload :=
  (h.complete [] _ (Tunnel.run_to_end pending []) rfl rfl).1

section Opened

variable {cfg : HandlerConfig} {addr : ClientAddr} {rounds : ℕ} {pre post : Trace}
variable {event : Event} {o : Outcome PyExc Unit}

/-- What an execution did when it comes to the tunnel. -/
theorem untouched_of_exec
    (hexec : Exec (handleClient cfg addr rounds) (pre ++ event :: post) o)
    (hevent : event.op? = some .tunnel) :
    ∃ before host port, Untouched cfg.rt before.reverse ∧
      pre = before ++ [.called (.connect host port) (), .called (.sendClient established) ()] := by
  have hallowed : TunnelOp cfg.rt (pre.reverse ++ []) .tunnel :=
    ((opens_handleClient rounds).allowedTrace hexec).at hevent
  rw [List.append_nil] at hallowed
  obtain ⟨host, port, past, huntouched, hpast⟩ := hallowed
  refine ⟨past.reverse, host, port, by rwa [List.reverse_reverse], ?_⟩
  rw [← List.reverse_reverse pre, hpast]
  simp

theorem transparent_of_exec {payload : Bytes}
    (hexec : Exec (handleClient cfg addr rounds) (pre ++ event :: post) o)
    (hevent : event.op? = some .tunnel) : Transparent pre payload payload := by
  obtain ⟨before, host, port, huntouched, hpre⟩ := untouched_of_exec hexec hevent
  refine ⟨⟨before, host, port, hpre, ?_⟩, ?_, ?_⟩
  · intro event' hmem
    exact huntouched.still event' (List.mem_reverse.mpr hmem)
  · intro fromOrigin t hrun
    have hcarries := Tunnel.carries_run hrun
    exact ⟨hcarries.toOrigin.delivered_prefix, hcarries.toClient.delivered_prefix⟩
  · intro fromOrigin t hrun horigin hclient
    have hcarries := Tunnel.carries_run hrun
    exact ⟨hcarries.toOrigin.delivered_eq horigin, hcarries.toClient.delivered_eq hclient⟩

/-- The request that opened a tunnel has a head. -/
theorem break_of_exec {raw : Bytes}
    (hexec : Exec (handleClient cfg addr rounds) (pre ++ event :: post) o)
    (hevent : event.op? = some .tunnel) (hraw : .called .recvHttpRequest raw ∈ pre) :
    ∃ head body, breakOn headerTerminator raw = some (head, body) := by
  obtain ⟨before, host, port, huntouched, rfl⟩ := untouched_of_exec hexec hevent
  have hbefore : .called .recvHttpRequest raw ∈ before := by
    rcases List.mem_append.mp hraw with hmem | hmem
    · exact hmem
    · simp at hmem
  obtain ⟨p, hparse⟩ := huntouched.parsed raw (List.mem_reverse.mpr hbefore)
  obtain ⟨head, _, _, _, _, hbreak, -⟩ := parseHttpRequest_eq_some hparse
  exact ⟨head, _, hbreak⟩

/-- **Transparency of the tunnel.**  In every execution of `handle_client` that comes to the
tunnel, whichever way the socket split the stream of the client: the tunnel is transparent, in
every run of its threads, if and only if no byte of the payload was received with the head,
or under a positive `Content-Length`. -/
theorem transparent_iff {events : List RecvEvent} {head payload : Bytes}
    (hexec : Exec (handleClient cfg addr rounds) (pre ++ event :: post) o)
    (hevent : event.op? = some .tunnel)
    (hraw : .called .recvHttpRequest (recvHttpRequest cfg.rt events) ∈ pre)
    (hstream : breakOn headerTerminator (sentBytes events) = some (head, payload)) :
    ∃ a, arrival [] events = some a ∧
      (Transparent pre payload (pendingBytes cfg.rt events) ↔
        a.rest = [] ∨ (a.early = [] ∧ a.awaited cfg.rt = 0)) := by
  obtain ⟨head', body, hbreak⟩ := break_of_exec hexec hevent hraw
  obtain ⟨a, harrival, -, hbody⟩ := received_of_recv hbreak
  have hpayload : payload = body ++ pendingBytes cfg.rt events := payload_eq hbreak hstream
  have hreceived : body = [] ↔ a.rest = [] ∨ (a.early = [] ∧ a.awaited cfg.rt = 0) := by
    rw [hbody, List.take_eq_nil_iff, Nat.max_eq_zero_iff, List.length_eq_zero_iff, or_comm]
  refine ⟨a, harrival, Iff.trans ?_ hreceived⟩
  constructor
  · intro h
    have hpending := h.pending_eq
    rw [hpayload] at hpending
    exact List.self_eq_append_left.mp hpending
  · intro hnone
    rw [hnone, List.nil_append] at hpayload
    rw [← hpayload]
    exact transparent_of_exec hexec hevent

theorem length_connectRequest : connectRequest.length = 67 := rfl

theorem connectRequest_ne_nil : connectRequest ≠ [] :=
  List.ne_nil_of_length_pos (by rw [length_connectRequest]; decide)

/-- `connectRequest`, and two bytes for the origin behind it in a second segment. -/
def patientConnect : List RecvEvent :=
  [.data ⟨connectRequest, connectRequest_ne_nil, by rw [length_connectRequest]; decide⟩,
    textChunk "hi" (by decide) (by decide), .eof]

theorem transparent_iff_patientConnect :
    Transparent (connectTrace.take 14) (ascii "hi")
      (pendingBytes oneUser.rt patientConnect) := by
  have hexec : Exec (handleClient oneUser ⟨txt "10.0.0.1", 5000⟩ 1)
      (connectTrace.take 14 ++ .called .tunnel () :: connectTrace.drop 15) _ :=
    exec_run (obliging connectRequest) (handleClient oneUser ⟨txt "10.0.0.1", 5000⟩ 1)
  have hrecv : recvHttpRequest oneUser.rt patientConnect = connectRequest := rfl
  have hraw : .called .recvHttpRequest (recvHttpRequest oneUser.rt patientConnect) ∈
      connectTrace.take 14 := by
    rw [hrecv]
    exact List.mem_cons_self
  obtain ⟨a, harrival, hiff⟩ := transparent_iff hexec rfl hraw rfl
  refine hiff.mpr (Or.inr ?_)
  cases harrival
  exact ⟨rfl, rfl⟩

/-- The same bytes in one segment. -/
def eagerConnect : List RecvEvent :=
  [.data ⟨connectRequest ++ ascii "hi",
    List.append_ne_nil_of_left_ne_nil connectRequest_ne_nil _,
    by rw [List.length_append, length_connectRequest]; decide⟩, .eof]

/-- The trace of these bytes. -/
def eagerTrace : Trace :=
  ((handleClient oneUser ⟨txt "10.0.0.1", 5000⟩ 1).run
    (obliging (connectRequest ++ ascii "hi"))).1

/-- What the client sends right behind its `CONNECT` never reaches the origin. -/
theorem early_payload_is_lost :
    (∃ (post : Trace) (o : Outcome PyExc Unit),
      Exec (handleClient oneUser ⟨txt "10.0.0.1", 5000⟩ 1)
        (eagerTrace.take 14 ++ .called .tunnel () :: post) o) ∧
    .called .recvHttpRequest (recvHttpRequest oneUser.rt eagerConnect) ∈ eagerTrace.take 14 ∧
    (∃ head, breakOn headerTerminator (sentBytes eagerConnect) = some (head, ascii "hi")) ∧
    pendingBytes oneUser.rt eagerConnect = [] ∧
    ¬ Transparent (eagerTrace.take 14) (ascii "hi") (pendingBytes oneUser.rt eagerConnect) := by
  have hexec : Exec (handleClient oneUser ⟨txt "10.0.0.1", 5000⟩ 1)
      (eagerTrace.take 14 ++ .called .tunnel () :: eagerTrace.drop 15) _ :=
    exec_run (obliging (connectRequest ++ ascii "hi")) _
  have hrecv : recvHttpRequest oneUser.rt eagerConnect = connectRequest ++ ascii "hi" := rfl
  have hraw : .called .recvHttpRequest (recvHttpRequest oneUser.rt eagerConnect) ∈
      eagerTrace.take 14 := by
    rw [hrecv]
    exact List.mem_cons_self
  have hpending : pendingBytes oneUser.rt eagerConnect = [] := rfl
  refine ⟨⟨_, _, hexec⟩, hraw, ⟨_, rfl⟩, hpending, fun h => ?_⟩
  have hnone := h.pending_eq
  rw [hpending] at hnone
  cases hnone

end Opened

end Proxy
end NetworkProxy
