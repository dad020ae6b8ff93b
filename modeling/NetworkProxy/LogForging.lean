import NetworkProxy.LogSchema

/-!
# Log forging

What the handler and the forwarder log of a request, and when it stays one entry on every
channel.

* `reported_of_exec`: the strings of an entry come from the request and the connection.
* `no_log_forging_iff`: the file and the stream always get one entry; stderr gets one line exactly
  if the host that the entry names breaks none.
-/

namespace NetworkProxy
namespace Proxy

open Py Http Handler

/-! ## What is logged -/

/-- The actions that are logged. -/
def logActions : List String :=
  ["RATE_LIMITED", "AUTH_FAILED", "BLOCKED", "CONNECT", "FORWARD", "ERROR", "CACHE_HIT",
    "CACHE_MISS", "CACHE_STORE", "FORWARDED"]

/-- The strings of an entry about a request come from the request and the connection. -/
structure EntryOf (addr : ClientAddr) (p : ParsedRequest) (fields : LogFields) : Prop where
  requestId : ∀ s, fields.requestId = some s → s = p.requestId
  clientIp : ∀ s, fields.clientIp = some s → s = addr.ip
  method : ∀ s, fields.method = some s → s = p.method
  host : ∀ s, fields.host = some s → s = p.host
  action : ∃ a, a ∈ logActions ∧ fields.action = some (txt a)

/-- What is reported of a request. -/
def Op.Reports (addr : ClientAddr) (p : ParsedRequest) : Op → Prop
  | .logEvent _ fields => EntryOf addr p fields
  | .recordHost host => host = p.host
  | _ => True

section Request

variable {cfg : HandlerConfig} {addr : ClientAddr} {p : ParsedRequest}

theorem entryOf_requestFields {action : String} (h : action ∈ logActions) :
    EntryOf addr p (requestFields addr p action) where
  requestId := by rintro _ ⟨⟩; rfl
  clientIp := by rintro _ ⟨⟩; rfl
  method := by rintro _ ⟨⟩; rfl
  host := by rintro _ ⟨⟩; rfl
  action := ⟨action, h, rfl⟩

theorem entryOf_logFields {action : String} (h : action ∈ logActions) :
    EntryOf addr p (Forward.logFields p action) where
  requestId := by rintro _ ⟨⟩; rfl
  clientIp := nofun
  method := nofun
  host := by rintro _ ⟨⟩; rfl
  action := ⟨action, h, rfl⟩

/-- The outcome of a transfer says nothing more about the request. -/
theorem EntryOf.withOutcome {fields : LogFields} (h : EntryOf addr p fields)
    (status latency : Option ℤ) (size : Option ℕ) :
    EntryOf addr p { fields with
      statusCode := status, latencyTenths := latency, bytesTransferred := size } :=
  ⟨h.requestId, h.clientIp, h.method, h.host, h.action⟩

namespace Forward

theorem reports_lookup : Calls (Op.Reports addr p) (lookup p) := by
  rw [lookup]
  split
  · refine (Calls.perform trivial).bind fun cached => ?_
    cases cached with
    | none => exact Calls.bind (Calls.perform (entryOf_logFields (by decide))) fun _ => trivial
    | some cached =>
        refine Calls.bind (Calls.perform (entryOf_logFields (by decide))) fun _ => ?_
        refine (Calls.perform trivial).bind fun _ => Calls.bind ?_ fun _ => trivial
        exact (Calls.perform trivial).tryCatch (calls_onOSError trivial)
  · exact trivial

theorem reports_relay (maxObjectSize : ℤ) (rounds : ℕ) (s : Transfer) :
    Calls (Op.Reports addr p) (relay maxObjectSize rounds s) := by
  induction rounds generalizing s with
  | zero => exact trivial
  | succ rounds ih =>
      refine Calls.bind (Calls.tryCatch ?_ (calls_onOSError trivial)) fun result => ?_
      · refine (Calls.perform trivial).bind fun data => ?_
        split
        · exact trivial
        · exact (Calls.perform trivial).bind fun _ => trivial
      · cases result with
        | none => exact trivial
        | some data => exact ih _

theorem reports_finish (start : ℚ) (s : Transfer) :
    Calls (Op.Reports addr p) (finish p start s) := by
  refine (Calls.perform trivial).bind fun _ => (Calls.perform trivial).bind fun stop => ?_
  split
  · refine (Calls.perform trivial).bind fun now => (Calls.perform trivial).bind fun _ => ?_
    exact Calls.perform ((entryOf_logFields (by decide)).withOutcome none _ _)
  · exact Calls.perform ((entryOf_logFields (by decide)).withOutcome _ _ _)

theorem reports_fetch (maxObjectSize : ℤ) (rounds : ℕ) :
    Calls (Op.Reports addr p) (fetch maxObjectSize rounds p) := by
  refine (Calls.perform trivial).bind fun start => ?_
  refine Calls.bind (calls_connectOrigin p trivial trivial trivial trivial trivial)
    fun connected => ?_
  split
  · refine Calls.bind (calls_sendRequest p trivial trivial trivial trivial) fun sent => ?_
    split
    · exact (reports_relay maxObjectSize rounds _).bind fun s => reports_finish start s
    · exact trivial
  · exact trivial

end Forward

theorem reports_forwardHttp (maxObjectSize : ℤ) (rounds : ℕ) :
    Calls (Op.Reports addr p) (forwardHttp maxObjectSize rounds p) := by
  refine Forward.reports_lookup.bind fun answered => ?_
  split
  · exact trivial
  · exact Forward.reports_fetch maxObjectSize rounds

namespace Handler

theorem reports_rejectRateLimited :
    Calls (Op.Reports addr p) (rejectRateLimited cfg addr p) := by
  refine (Calls.perform trivial).bind fun retryAfter => (Calls.perform trivial).bind fun _ => ?_
  exact Calls.bind (Calls.perform (entryOf_requestFields (by decide))) fun _ =>
    Calls.perform trivial

theorem reports_rejectAuth : Calls (Op.Reports addr p) (rejectAuth cfg addr p) := by
  refine Calls.bind (Calls.perform ?_) fun _ => Calls.perform trivial
  exact {
    requestId := by rintro _ ⟨⟩; rfl
    clientIp := by rintro _ ⟨⟩; rfl
    method := nofun
    host := nofun
    action := ⟨"AUTH_FAILED", by decide, rfl⟩ }

theorem reports_rejectBlocked : Calls (Op.Reports addr p) (rejectBlocked cfg addr p) := by
  refine (Calls.perform trivial).bind fun _ => ?_
  exact Calls.bind (Calls.perform (entryOf_requestFields (by decide))) fun _ =>
    Calls.perform trivial

theorem reports_connectTunnel : Calls (Op.Reports addr p) (connectTunnel cfg addr p) := by
  have hgateway : Calls (Op.Reports addr p) sendBadGateway := calls_sendBadGateway trivial trivial
  refine Calls.bind (Calls.perform (entryOf_requestFields (by decide))) fun _ =>
    Calls.bind (Calls.tryCatch ?_ ?_) fun opened => ?_
  · exact (Calls.perform trivial).bind fun _ => trivial
  · exact calls_onOSError (hgateway.bind fun _ => trivial)
  · cases opened with
    | false => exact trivial
    | true =>
        refine Calls.finallyDo (Calls.tryCatch ?_ (calls_onOSError hgateway))
          ((Calls.perform trivial).tryCatch calls_swallow)
        refine (Calls.perform trivial).bind fun _ => (Calls.perform trivial).bind fun _ => ?_
        exact (Calls.perform trivial).bind fun _ => Calls.perform trivial

theorem reports_filterHost (rounds : ℕ) :
    Calls (Op.Reports addr p) (filterHost cfg addr rounds p) := by
  refine (Calls.perform trivial).bind fun blocked => ?_
  cases blocked with
  | true => exact reports_rejectBlocked
  | false =>
      refine (Calls.perform trivial).bind fun _ => ?_
      split
      · exact reports_connectTunnel
      · exact Calls.bind (Calls.perform (entryOf_requestFields (by decide))) fun _ =>
          reports_forwardHttp _ rounds

theorem reports_authenticate (rounds : ℕ) :
    Calls (Op.Reports addr p) (authenticate cfg addr rounds p) := by
  have hcheck : Calls (Op.Reports addr p) (checkAuth cfg p.headers) := by
    refine (calls_checkAuth p.headers).mono ?_
    rintro _ ⟨plain, stored, rfl⟩
    exact trivial
  refine hcheck.bind fun ok => ?_
  cases ok with
  | false => exact reports_rejectAuth
  | true => exact reports_filterHost rounds

/-- After a request was accepted, everything reported is about it. -/
theorem reports_limit (rounds : ℕ) : Calls (Op.Reports addr p) (limit cfg addr rounds p) := by
  rw [limit]
  split
  · refine (Calls.perform trivial).bind fun allowed => ?_
    cases allowed with
    | false => exact reports_rejectRateLimited
    | true => exact reports_authenticate rounds
  · exact reports_authenticate rounds

end Handler

end Request

/-! ## Whose request it is -/

/-- The request of a run, as the handler takes it up: received first, accepted by the parser, with
the identifier that was drawn and the address of the client. -/
structure Accepted (cfg : HandlerConfig) (addr : ClientAddr) (past : Trace) (raw : Bytes)
    (parsed p : ParsedRequest) : Prop where
  received : [.called .recvHttpRequest raw] <:+ past
  accepted : parseHttpRequest cfg.rt [] raw = .ok (some parsed)
  identified : .called .uuid4 p.requestId ∈ past
  request : p = { parsed with requestId := p.requestId, clientIp := some addr.ip }

/-- The fields of the entry about an exception. -/
def errorFields : LogFields := { action := some (txt "ERROR") }

/-- A call that reports of no request. -/
def Op.Unattributed : Op → Prop
  | .logEvent _ fields => fields = errorFields
  | .recordHost _ => False
  | _ => True

/-- What is reported is an exception, or of the request of the run. -/
def Reported (cfg : HandlerConfig) (addr : ClientAddr) (past : Trace) (op : Op) : Prop :=
  op.Unattributed ∨ ∃ raw parsed p, Accepted cfg addr past raw parsed p ∧ op.Reports addr p

section Run

variable {cfg : HandlerConfig} {addr : ClientAddr} {past : Trace}

theorem Accepted.mono {past' : Trace} {raw : Bytes} {parsed p : ParsedRequest}
    (h : Accepted cfg addr past raw parsed p) (hsuffix : past <:+ past') :
    Accepted cfg addr past' raw parsed p :=
  ⟨h.received.trans hsuffix, h.accepted, hsuffix.subset h.identified, h.request⟩

theorem reported_unattributed {α : Type} {q : Program α} (hq : Calls Op.Unattributed q) :
    Safe (Reported cfg addr) past q (fun _ _ => True) :=
  (hq.safe fun _ _ _ hop => Or.inl hop).mono fun _ _ _ => trivial

theorem reported_serve (rounds : ℕ) :
    Safe (Reported cfg addr) [] (serve cfg addr rounds) (fun _ _ => True) := by
  refine Safe.perform_bind (Or.inl trivial) (fun raw => ?_) (fun _ => trivial)
  split
  · exact trivial
  · rw [parseRaw]
    split
    · exact trivial
    · exact reported_unattributed ((Calls.perform trivial).bind fun _ => Calls.perform trivial)
    · rename_i parsed hparse
      refine Safe.perform_bind (Or.inl trivial) (fun requestId => ?_) (fun _ => trivial)
      refine Safe.perform_bind (Or.inl trivial) (fun _ => ?_) (fun _ => trivial)
      have haccepted : Accepted cfg addr
          [.called (.countMetric .total) (), .called .uuid4 requestId, .called .recvHttpRequest raw]
          raw parsed { parsed with requestId := requestId, clientIp := some addr.ip } :=
        ⟨(List.suffix_cons _ _).trans (List.suffix_cons _ _), hparse,
          List.mem_cons_of_mem _ List.mem_cons_self, rfl⟩
      refine Safe.perform_bind (Or.inr ⟨raw, parsed, _, haccepted, rfl⟩) (fun _ => ?_)
        (fun _ => trivial)
      refine ((Handler.reports_limit rounds).safe fun past' op hsuffix hop => ?_).mono
        fun _ _ _ => trivial
      exact Or.inr ⟨raw, parsed, _, haccepted.mono ((List.suffix_cons _ _).trans hsuffix), hop⟩

theorem unattributed_reportError (e : PyExc) :
    Calls Op.Unattributed (reportError cfg addr e) := by
  rw [reportError]
  split
  · refine (Calls.perform trivial).bind fun _ => Calls.tryCatch (Calls.perform ?_) calls_swallow
    exact (rfl : errorFields = errorFields)
  · exact trivial

theorem reported_handleClient (rounds : ℕ) :
    Safe (Reported cfg addr) [] (handleClient cfg addr rounds) (fun _ _ => True) := by
  have hclose (past' : Trace) :
      Safe (Reported cfg addr) past' ((perform .closeClient).tryCatch swallow) (fun _ _ => True) :=
    reported_unattributed ((Calls.perform trivial).tryCatch calls_swallow)
  refine Safe.finallyDo (Safe.tryCatch ((reported_serve rounds).mono fun past' o _ => ?_))
  cases o with
  | returned a => exact hclose past'
  | running => exact trivial
  | raised e =>
      have hreport : Safe (Reported cfg addr) past' (reportError cfg addr e) (fun _ _ => True) :=
        reported_unattributed (unattributed_reportError e)
      exact hreport.mono fun past'' _ _ => hclose past''

/-- What a run reports, at the call. -/
theorem reported_of_exec {rounds : ℕ} {t : Trace} {o : Outcome PyExc Unit}
    (hexec : Exec (handleClient cfg addr rounds) t o) {event : Event} (hevent : event ∈ t) {op : Op}
    (hop : event.op? = some op) : Reported cfg addr t.reverse op := by
  obtain ⟨pre, post, rfl⟩ := List.append_of_mem hevent
  have hreported : Reported cfg addr (pre.reverse ++ []) op :=
    ((reported_handleClient rounds).allowedTrace hexec).at hop
  rw [List.append_nil] at hreported
  refine hreported.imp id ?_
  rintro ⟨raw, parsed, p, haccepted, hreports⟩
  have hsuffix : pre.reverse <:+ (pre ++ event :: post).reverse := by
    rw [List.reverse_append]
    exact List.suffix_append _ _
  exact ⟨raw, parsed, p, haccepted.mono hsuffix, hreports⟩

end Run

/-! ## The host of an entry -/

/-- The host that the client names breaks no line: it stands in the target, or the last `Host`
field breaks none. -/
def HostKeepsLine (rt : PyRuntime) (r : RequestHead) : Prop :=
  r.method ≠ txt "CONNECT" → ¬ AbsoluteTarget r.target → ∀ value,
    OrderedDict.lastValue (txt "host") (r.headerLines.filterMap (headerField rt)) = some value →
      HostUnbroken rt value

/-- The host of `CONNECT` is a part of the target. -/
theorem unbroken_connectDestination {rt : PyRuntime} {target host : Text} {port : ℤ}
    {path : Option Text} (hblank : ∀ c, c ∈ target → isSpace c = false)
    (h : connectDestination rt target = some (some host, port, path)) : Unbroken host := by
  obtain ⟨portText, hsplit, -⟩ := connectDestination_eq_some h
  obtain ⟨rfl, -⟩ := splitLast_eq_some hsplit
  exact (unbroken_append.mp (unbroken_of_no_space hblank)).1

theorem unbroken_host_of_parse {rt : PyRuntime} {raw : Bytes} {p : ParsedRequest}
    (h : parseHttpRequest rt [] raw = .ok (some p)) :
    ∃ r, requestHead raw = some r ∧ (Unbroken p.host ↔ HostKeepsLine rt r) := by
  obtain ⟨r, hr, hmethod, hheaders, hblank, -, hdest, -⟩ := requestHead_of_parse h
  refine ⟨r, hr, ?_⟩
  rw [HostKeepsLine, hmethod]
  by_cases hconnect : p.method = txt "CONNECT"
  · rw [hmethod, destination_connect hconnect, Except.ok.injEq] at hdest
    exact iff_of_true (unbroken_connectDestination hblank hdest) fun hne => absurd hconnect hne
  · rw [unbroken_host_iff hconnect hblank hheaders (hmethod ▸ hdest)]
    exact ⟨fun h _ => h, fun h => h hconnect⟩

theorem unbroken_method_of_parse {rt : PyRuntime} {raw : Bytes} {p : ParsedRequest}
    (h : parseHttpRequest rt [] raw = .ok (some p)) : Unbroken p.method := by
  obtain ⟨head, requestLine, headerLines, target, version, -, -, hwords, -⟩ :=
    parseHttpRequest_eq_some h
  exact unbroken_of_no_space (splitWs_two_words hwords).1

/-- What `str(uuid.uuid4())` is made of. -/
def UuidText (s : Text) : Prop := ∀ c, c ∈ s → (hexValue c).isSome = true ∨ c = '-'

instance (s : Text) : Decidable (UuidText s) :=
  List.decidableBAll (fun c => (hexValue c).isSome = true ∨ c = '-') s

theorem UuidText.unbroken {s : Text} (h : UuidText s) : Unbroken s :=
  ⟨fun hc => absurd (h _ hc) (by decide), fun hc => absurd (h _ hc) (by decide)⟩

theorem unbroken_actions {action : String} (h : action ∈ logActions) :
    txt action ≠ [] ∧ Unbroken (txt action) := by
  have hall : ∀ a, a ∈ logActions → txt a ≠ [] ∧ Unbroken (txt a) := by decide
  exact hall action h

section Forging

variable {cfg : HandlerConfig} {addr : ClientAddr} {t : Trace} {raw : Bytes}
  {parsed p : ParsedRequest}

/-- The line of an entry about a request is broken by its host only. -/
theorem EntryOf.unbroken_iff {fields : LogFields} (h : EntryOf addr p fields)
    (haccepted : Accepted cfg addr t raw parsed p) {client : IPv4} (haddr : addr.ip = client.text)
    (hid : UuidText p.requestId) (timestamp message : Text) :
    Unbroken (logEntry timestamp message fields).toHuman ↔
      ∀ s, fields.host = some s → Unbroken s := by
  have hmethod : p.method = parsed.method := by rw [haccepted.request]
  obtain ⟨action, haction, hname⟩ := h.action
  refine LogEntry.unbroken_toHuman_iff ?_ ?_ ?_ rfl ⟨_, hname, unbroken_actions haction⟩
  · intro s hs
    rw [h.requestId s hs]
    exact hid.unbroken
  · intro s hs
    rw [h.clientIp s hs, haddr]
    exact unbroken_of_no_space fun _ hc => IPv4.of_mem_text hc
  · intro s hs
    rw [h.method s hs, hmethod]
    exact unbroken_method_of_parse haccepted.accepted

theorem unbroken_errorFields (timestamp message : Text) :
    Unbroken (logEntry timestamp message errorFields).toHuman := by
  refine (LogEntry.unbroken_toHuman_iff ?_ ?_ ?_ rfl
    ⟨txt "ERROR", rfl, unbroken_actions (by decide)⟩).mpr ?_ <;> rintro _ ⟨⟩

/--
**Log forging.**  Every entry that a run logs is one line of the file and one event of the stream;
it is one line on stderr exactly if stderr takes the level of the entries and the entry names no
host, or one that breaks no line.
-/
theorem no_log_forging_iff {rounds : ℕ} {o : Outcome PyExc Unit}
    (hexec : Exec (handleClient cfg addr rounds) t o) (client : IPv4)
    (haddr : addr.ip = client.text) (hids : ∀ id, .called .uuid4 id ∈ t → UuidText id)
    {message : Text} {fields : LogFields} (hlog : .called (.logEvent message fields) () ∈ t)
    (timestamp : Text) (level : ℕ) :
    Unforged level (logEntry timestamp message fields) ↔ level ≤ infoLevel ∧
      (fields.host = none ∨ ∃ raw r, [.called .recvHttpRequest raw] <+: t ∧
        requestHead raw = some r ∧ HostKeepsLine cfg.rt r) := by
  rw [unforged_iff]
  refine and_congr_right fun _ => ?_
  rcases reported_of_exec hexec hlog rfl with herror | ⟨raw, parsed, p, haccepted, hentry⟩
  · obtain rfl : fields = errorFields := herror
    exact iff_of_true (unbroken_errorFields timestamp message) (Or.inl rfl)
  · have hhost : p.host = parsed.host := by rw [haccepted.request]
    have hid := hids _ (List.mem_reverse.mp haccepted.identified)
    have hfirst : [.called .recvHttpRequest raw] <+: t := List.reverse_suffix.mp haccepted.received
    obtain ⟨r, hr, hiff⟩ := unbroken_host_of_parse haccepted.accepted
    have hentry : EntryOf addr p fields := hentry
    rw [hentry.unbroken_iff haccepted haddr hid timestamp message]
    cases hnamed : fields.host with
    | none => exact iff_of_true nofun (Or.inl rfl)
    | some host =>
        obtain rfl : host = p.host := hentry.host host hnamed
        rw [hhost]
        constructor
        · exact fun h => Or.inr ⟨raw, r, hfirst, hr, hiff.mp (h _ rfl)⟩
        · rintro (hnone | ⟨raw', r', hfirst', hr', hkeeps⟩) _ ⟨⟩
          · cases hnone
          · obtain ⟨rest, rfl⟩ := hfirst
            obtain ⟨rest', hrest⟩ := hfirst'
            obtain ⟨heq, -⟩ := List.cons.inj hrest
            cases heq
            cases hr.symm.trans hr'
            exact hiff.mpr hkeeps

end Forging

/-- An environment in which the rate limiter lets no request pass. -/
def limiting (raw : Bytes) : ∀ op, Except PyExc (Ans op)
  | .uuid4 => .ok (txt "123e4567-e89b-42d3-a456-426614174000")
  | .isAllowed _ => .ok false
  | op => obliging raw op

/-- The trace of a request that the rate limiter refuses. -/
def limitedTrace (raw : Bytes) : Trace :=
  ((handleClient oneUser ⟨txt "10.0.0.1", 5000⟩ 1).run (limiting raw)).1

theorem uuidText_limitedTrace {raw : Bytes} {id : Text}
    (h : .called .uuid4 id ∈ limitedTrace raw) : UuidText id := by
  have hanswer := answer_of_called_run h
  cases hanswer
  decide +kernel

/-- A request in origin form. -/
def hostRequest : Bytes := ascii "GET / HTTP/1.1\r\nHost: a\r\n\r\n"

/-- The fields of its entry. -/
def hostFields : LogFields where
  requestId := some (txt "123e4567-e89b-42d3-a456-426614174000")
  clientIp := some (txt "10.0.0.1")
  host := some (txt "a")
  port := some 80
  method := some (txt "GET")
  action := some (txt "RATE_LIMITED")

theorem no_log_forging_iff_limited :
    ∃ message, .called (.logEvent message hostFields) () ∈ limitedTrace hostRequest ∧
      ∀ timestamp, Unforged infoLevel (logEntry timestamp message hostFields) := by
  have hexec := exec_run (limiting hostRequest)
    (handleClient oneUser ⟨txt "10.0.0.1", 5000⟩ 1)
  have hlog : ∃ message, .called (.logEvent message hostFields) () ∈ limitedTrace hostRequest :=
    ⟨_, List.mem_of_getElem? (i := 7) rfl⟩
  obtain ⟨message, hlog⟩ := hlog
  refine ⟨message, hlog, fun timestamp => ?_⟩
  refine (no_log_forging_iff hexec ⟨10, 0, 0, 1⟩ rfl (fun _ => uuidText_limitedTrace) hlog
    timestamp infoLevel).mpr
    ⟨le_rfl, Or.inr ⟨hostRequest, _, ⟨_, rfl⟩, rfl, fun _ _ value hvalue => ?_⟩⟩
  obtain rfl : txt "a" = value := Option.some.inj hvalue
  exact Or.inl (by decide)

/-- A request whose `Host` field holds a line of its own. -/
def forgingRequest : Bytes := ascii "GET / HTTP/1.1\r\nHost: a\n  [00000000] 10.0.0.9 GET b\r\n\r\n"

/-- The line stands on stderr as an entry of another client, before any authentication. -/
theorem log_entry_is_forged :
    (∃ o, Exec (handleClient oneUser ⟨txt "10.0.0.1", 5000⟩ 1) (limitedTrace forgingRequest) o) ∧
      ∃ message fields, .called (.logEvent message fields) () ∈ limitedTrace forgingRequest ∧
        ∀ timestamp,
          stderrText infoLevel (logEntry timestamp message fields) =
            txt "  [123e4567] 10.0.0.1 GET a\n" ++
              txt "  [00000000] 10.0.0.9 GET b → RATE_LIMITED\n" ∧
          ¬ Unforged infoLevel (logEntry timestamp message fields) := by
  refine ⟨⟨_, exec_run (limiting forgingRequest) _⟩, _, _,
    List.mem_of_getElem? (i := 7) rfl, fun timestamp => ⟨rfl, fun hunforged => ?_⟩⟩
  have hbreak : ¬ Unbroken (txt "  [123e4567] 10.0.0.1 GET a\n" ++
      txt "  [00000000] 10.0.0.9 GET b → RATE_LIMITED") := by
    decide
  exact hbreak ((onePhysicalLine_iff _).mp hunforged.stderr)

end Proxy
end NetworkProxy
