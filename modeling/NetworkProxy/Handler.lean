import NetworkProxy.BasicAuth
import NetworkProxy.Forwarder

/-!
# The handler of a connection

`handle_client` as a program over the calls of the proxy, with its early returns and
its nested exception handlers.

`pipeline_order`: in every execution, whatever the calls answer or raise, no password
is verified before the rate limiter let the request pass, and neither the origin nor
the cache is touched before the request was also authenticated and its host passed
the filter.
-/

namespace NetworkProxy
namespace Proxy

open Py Http Cache

/-- `client_addr`. -/
structure ClientAddr where
  ip : Text
  port : ℤ

/-- What the handler is configured with. -/
structure HandlerConfig where
  rt : PyRuntime
  rateLimitEnabled : Bool
  /-- `USERS`. -/
  users : OrderedDict Text Text
  maxObjectSize : ℤ

def badRequest : Bytes :=
  ascii "HTTP/1.1 400 Bad Request\r\nConnection: close\r\nContent-Length: 0\r\n\r\n"

def tooManyRequests (retryAfter : ℤ) : Bytes :=
  ascii "HTTP/1.1 429 Too Many Requests\r\nConnection: close\r\nContent-Length: 0\r\n" ++
    encode (txt "Retry-After: " ++ showInt retryAfter ++ txt "\r\n") ++ ascii "\r\n"

def authRequired : Bytes :=
  ascii "HTTP/1.1 407 Proxy Authentication Required\r\n" ++
    ascii "Proxy-Authenticate: Basic realm=\"Proxy\"\r\n" ++
    ascii "Connection: close\r\nContent-Length: 0\r\n\r\n"

def forbidden : Bytes :=
  ascii "HTTP/1.1 403 Forbidden\r\nConnection: close\r\nContent-Length: 0\r\n\r\n"

def established : Bytes := ascii "HTTP/1.1 200 Connection Established\r\n\r\n"

namespace Handler

variable (cfg : HandlerConfig) (addr : ClientAddr)

/-- `f"{client_addr}"`. -/
def addrText : Text :=
  '(' :: cfg.rt.reprText addr.ip ++ txt ", " ++ showInt addr.port ++ txt ")"

/-- `[{request_id[:8]}] {client_addr} → `. -/
def logStart (p : ParsedRequest) : Text :=
  '[' :: p.requestId.take 8 ++ txt "] " ++ addrText cfg addr ++ txt " → "

/-- `{host}:{port} | `, with the action after it. -/
def logDestination (p : ParsedRequest) (action : Text) : Text :=
  p.host ++ ':' :: showInt p.port ++ txt " | " ++ action

/-- The fields of the log entries that name the request. -/
def requestFields (p : ParsedRequest) (action : String) : LogFields :=
  { requestId := some p.requestId
    clientIp := some addr.ip
    host := some p.host
    port := some p.port
    method := some p.method
    action := some (txt action) }

/-- `parse_http_request`, with the identifier drawn for an accepted request. -/
def parseRaw (raw : Bytes) : Program (Option ParsedRequest) :=
  match parseHttpRequest cfg.rt [] raw with
  | .error message => .raise (.exception message)
  | .ok none => return none
  | .ok (some p) => do
      let requestId ← perform .uuid4
      return some { p with requestId := requestId }

/-- `_check_auth`. -/
def checkAuth (headers : OrderedDict Text Text) : Program Bool :=
  match basicCredentials cfg.rt headers with
  | none => return false
  | some (username, password) =>
      match cfg.users.get? username with
      | none => return false
      | some stored => perform (.verifyPassword password stored)

def rejectBadRequest : Program Unit := do
  perform (.sendClient badRequest)
  perform (.countMetric .errors)

def rejectRateLimited (p : ParsedRequest) : Program Unit := do
  let retryAfter ← perform (.getRetryAfter addr.ip)
  perform (.countMetric .rateLimited)
  perform (.logEvent
    (logStart cfg addr p ++ txt "RATE LIMITED (retry after " ++ showInt retryAfter ++ txt "s)")
    (requestFields addr p "RATE_LIMITED"))
  perform (.sendClient (tooManyRequests retryAfter))

def rejectAuth (p : ParsedRequest) : Program Unit := do
  perform (.logEvent (logStart cfg addr p ++ txt "AUTH FAILED")
    { requestId := some p.requestId
      clientIp := some addr.ip
      action := some (txt "AUTH_FAILED") })
  perform (.sendClient authRequired)

def rejectBlocked (p : ParsedRequest) : Program Unit := do
  perform (.countMetric .blocked)
  perform (.logEvent (logStart cfg addr p ++ logDestination p (txt "BLOCKED"))
    (requestFields addr p "BLOCKED"))
  perform (.sendClient forbidden)

/-- The tunnel once its socket exists. -/
def tunnelThrough (p : ParsedRequest) : Program Unit :=
  Prog.finallyDo
    (Prog.tryCatch (do
      perform (.setTimeout 10)
      perform (.connect p.host p.port)
      perform (.sendClient established)
      perform .tunnel) (onOSError sendBadGateway))
    ((perform .closeServer).tryCatch swallow)

/-- A `CONNECT` request.  When no socket can be made there is none to close. -/
def connectTunnel (p : ParsedRequest) : Program Unit := do
  perform (.logEvent (logStart cfg addr p ++ logDestination p (txt "CONNECT"))
    (requestFields addr p "CONNECT"))
  match ← Prog.tryCatch (do perform .newSocket; return true)
      (onOSError (do sendBadGateway; return false)) with
  | true => tunnelThrough p
  | false => return ()

/-- Steps 5 and 6. -/
def dispatch (rounds : ℕ) (p : ParsedRequest) : Program Unit := do
  perform (.countMetric .allowed)
  if p.method = txt "CONNECT" then connectTunnel cfg addr p
  else
    perform (.logEvent (logStart cfg addr p ++ logDestination p p.method)
      (requestFields addr p "FORWARD"))
    forwardHttp cfg.maxObjectSize rounds p

/-- Step 4. -/
def filterHost (rounds : ℕ) (p : ParsedRequest) : Program Unit := do
  match ← perform (.isBlocked p.host) with
  | true => rejectBlocked cfg addr p
  | false => dispatch cfg addr rounds p

/-- Step 3. -/
def authenticate (rounds : ℕ) (p : ParsedRequest) : Program Unit := do
  let ok ← checkAuth cfg p.headers
  Prog.remark (.authChecked ok)
  match ok with
  | false => rejectAuth cfg addr p
  | true => filterHost cfg addr rounds p

/-- Step 2. -/
def limit (rounds : ℕ) (p : ParsedRequest) : Program Unit :=
  if cfg.rateLimitEnabled then do
    match ← perform (.isAllowed addr.ip) with
    | false => rejectRateLimited cfg addr p
    | true => authenticate cfg addr rounds p
  else authenticate cfg addr rounds p

/-- The `try` body of `handle_client`. -/
def serve (rounds : ℕ) : Program Unit := do
  let raw ← perform .recvHttpRequest
  if raw = [] then return ()
  else
    match ← parseRaw cfg raw with
    | none => rejectBadRequest
    | some parsed => do
        let p := { parsed with clientIp := some addr.ip }
        perform (.countMetric .total)
        perform (.recordHost p.host)
        limit cfg addr rounds p

/-- `except Exception as exc`. -/
def reportError (e : PyExc) : Program Unit :=
  if e.isException then do
    perform (.countMetric .errors)
    (perform (.logEvent (addrText cfg addr ++ txt " → INTERNAL ERROR: " ++ e.message)
      { action := some (txt "ERROR") })).tryCatch swallow
  else .raise e

end Handler

open Handler

/-- `handle_client`; the relay loop makes at most `rounds` rounds. -/
def handleClient (cfg : HandlerConfig) (addr : ClientAddr) (rounds : ℕ) : Program Unit :=
  ((serve cfg addr rounds).tryCatch (reportError cfg addr)).finallyDo
    ((perform .closeClient).tryCatch swallow)

/-! ## The order of the pipeline -/

/-- The rate limiter let the request pass. -/
def Passed (addr : ClientAddr) (past : Trace) : Prop :=
  .called (.isAllowed addr.ip) true ∈ past

/-- The request passed the rate limiter, was authenticated, and its host passed the
filter. -/
structure Granted (addr : ClientAddr) (host : Text) (past : Trace) : Prop where
  passed : Passed addr past
  authenticated : .noted (.authChecked true) ∈ past
  notBlocked : .called (.isBlocked host) false ∈ past

theorem Granted.mono {addr : ClientAddr} {host : Text} {past past' : Trace}
    (h : Granted addr host past) (hsub : past ⊆ past') : Granted addr host past' :=
  ⟨hsub h.passed, hsub h.authenticated, hsub h.notBlocked⟩

/-- What must have happened before a call. -/
def AllowedOp (addr : ClientAddr) (past : Trace) : Op → Prop
  | .verifyPassword _ _ => Passed addr past
  | .connect host _ => Granted addr host past
  | .cacheGet key => Granted addr key.host past
  | .cachePut key _ => Granted addr key.host past
  | _ => True

/-- A call that needs nothing before it. -/
def Op.Free : Op → Prop
  | .verifyPassword _ _ => False
  | .connect _ _ => False
  | .cacheGet _ => False
  | .cachePut _ _ => False
  | _ => True

/-- A call about the host only. -/
def Op.ForHost (host : Text) : Op → Prop
  | .verifyPassword _ _ => False
  | .connect host' _ => host' = host
  | .cacheGet key => key.host = host
  | .cachePut key _ => key.host = host
  | _ => True

theorem Op.Free.allowed {addr : ClientAddr} {past : Trace} {op : Op} (h : op.Free) :
    AllowedOp addr past op := by
  cases op <;> first | exact trivial | exact h.elim

theorem Op.ForHost.allowed {addr : ClientAddr} {host : Text} {past : Trace} {op : Op}
    (hgranted : Granted addr host past) (h : op.ForHost host) : AllowedOp addr past op := by
  cases op with
  | verifyPassword plain stored => exact h.elim
  | connect host' port =>
      obtain rfl : host' = host := h
      exact hgranted
  | cacheGet key =>
      obtain rfl : key.host = host := h
      exact hgranted
  | cachePut key value =>
      obtain rfl : key.host = host := h
      exact hgranted
  | _ => exact trivial

section Order

variable {cfg : HandlerConfig} {addr : ClientAddr}

/-- Every call of the program is allowed when it is made. -/
abbrev Ordered {α : Type} (addr : ClientAddr) (past : Trace) (q : Program α) : Prop :=
  Safe (AllowedOp addr) past q (fun _ _ => True)

theorem ordered_of_free {α : Type} {past : Trace} {q : Program α} (hq : Calls Op.Free q) :
    Ordered addr past q :=
  (hq.safe fun _ _ _ hop => hop.allowed).mono fun _ _ _ => trivial

theorem ordered_of_forHost {α : Type} {host : Text} {past : Trace} {q : Program α}
    (hgranted : Granted addr host past) (hq : Calls (Op.ForHost host) q) :
    Ordered addr past q := by
  refine (hq.safe fun past' op hsuffix hop => ?_).mono fun _ _ _ => trivial
  exact Op.ForHost.allowed (hgranted.mono hsuffix.subset) hop

/-- A call that needs nothing, and what follows it. -/
theorem ordered_perform_bind {β : Type} {past : Trace} {op : Op} {k : Ans op → Program β}
    (hop : AllowedOp addr past op) (hk : ∀ a, Ordered addr (.called op a :: past) (k a)) :
    Ordered addr past ((perform op).bind k) :=
  Safe.perform_bind hop hk fun _ => trivial

/-! ### The calls of each step -/

theorem calls_swallow {S : Op → Prop} (e : PyExc) : Calls S (swallow e) := by
  rw [swallow]
  split <;> exact trivial

theorem forHost_of_ofForward {p : ParsedRequest} {op : Op} (h : Forward.OfForward p op) :
    op.ForHost p.host := by
  cases op with
  | verifyPassword plain stored => exact h
  | connect host port => exact h.1
  | cacheGet key =>
      obtain rfl : key = Forward.cacheKey p := h
      rfl
  | cachePut key value =>
      obtain rfl : key = Forward.cacheKey p := h
      rfl
  | _ => exact trivial

theorem free_rejectRateLimited (p : ParsedRequest) :
    Calls Op.Free (rejectRateLimited cfg addr p) := by
  refine (Calls.perform trivial).bind fun retryAfter => ?_
  refine (Calls.perform trivial).bind fun _ => ?_
  exact (Calls.perform trivial).bind fun _ => Calls.perform trivial

theorem free_rejectAuth (p : ParsedRequest) : Calls Op.Free (rejectAuth cfg addr p) :=
  (Calls.perform trivial).bind fun _ => Calls.perform trivial

theorem free_rejectBlocked (p : ParsedRequest) : Calls Op.Free (rejectBlocked cfg addr p) := by
  refine (Calls.perform trivial).bind fun _ => ?_
  exact (Calls.perform trivial).bind fun _ => Calls.perform trivial

theorem free_reportError (e : PyExc) : Calls Op.Free (reportError cfg addr e) := by
  rw [reportError]
  split
  · exact (Calls.perform trivial).bind fun _ => (Calls.perform trivial).tryCatch calls_swallow
  · exact trivial

theorem forHost_tunnelThrough (p : ParsedRequest) :
    Calls (Op.ForHost p.host) (tunnelThrough p) := by
  have hgateway := calls_onOSError
    (calls_sendBadGateway (S := Op.ForHost p.host) trivial trivial)
  refine Calls.finallyDo (Calls.tryCatch ?_ hgateway)
    ((Calls.perform trivial).tryCatch calls_swallow)
  refine (Calls.perform trivial).bind fun _ => ?_
  refine Calls.bind (Calls.perform ?_) fun _ => ?_
  · exact (rfl : p.host = p.host)
  · exact (Calls.perform trivial).bind fun _ => Calls.perform trivial

theorem forHost_connectTunnel (p : ParsedRequest) :
    Calls (Op.ForHost p.host) (connectTunnel cfg addr p) := by
  refine (Calls.perform trivial).bind fun _ => Calls.bind (Calls.tryCatch ?_ ?_) fun opened => ?_
  · exact (Calls.perform trivial).bind fun _ => trivial
  · exact calls_onOSError ((calls_sendBadGateway trivial trivial).bind fun _ => trivial)
  · cases opened with
    | false => exact trivial
    | true => exact forHost_tunnelThrough p

theorem forHost_dispatch (rounds : ℕ) (p : ParsedRequest) :
    Calls (Op.ForHost p.host) (dispatch cfg addr rounds p) := by
  refine (Calls.perform trivial).bind fun _ => ?_
  split
  · exact forHost_connectTunnel p
  · refine (Calls.perform trivial).bind fun _ => ?_
    exact (calls_forwardHttp cfg.maxObjectSize rounds p).mono fun _ => forHost_of_ofForward

/-! ### The steps in order -/

theorem ordered_filterHost (rounds : ℕ) (p : ParsedRequest) {past : Trace}
    (hpassed : Passed addr past) (hauth : .noted (.authChecked true) ∈ past) :
    Ordered addr past (filterHost cfg addr rounds p) := by
  refine ordered_perform_bind trivial fun blocked => ?_
  cases blocked with
  | true => exact ordered_of_free (free_rejectBlocked p)
  | false =>
      refine ordered_of_forHost ⟨?_, ?_, List.mem_cons_self⟩ (forHost_dispatch rounds p)
      · exact List.mem_cons_of_mem _ hpassed
      · exact List.mem_cons_of_mem _ hauth

/-- The only call of `_check_auth` is the verification of the password. -/
theorem calls_checkAuth (headers : OrderedDict Text Text) :
    Calls (fun op => ∃ plain stored, op = .verifyPassword plain stored)
      (checkAuth cfg headers) := by
  rw [checkAuth]
  split
  · exact trivial
  · rename_i username password _
    split
    · exact trivial
    · rename_i stored _
      exact Calls.perform ⟨password, stored, rfl⟩

theorem ordered_authenticate (rounds : ℕ) (p : ParsedRequest) {past : Trace}
    (hpassed : Passed addr past) : Ordered addr past (authenticate cfg addr rounds p) := by
  have hcheck : Safe (AllowedOp addr) past (checkAuth cfg p.headers)
      (fun past' _ => past <:+ past') := by
    refine (calls_checkAuth p.headers).safe fun past' op hsuffix hop => ?_
    obtain ⟨plain, stored, rfl⟩ := hop
    exact hsuffix.subset hpassed
  refine Safe.bind (hcheck.mono fun past' o hsuffix => ?_)
  cases o with
  | raised e => exact trivial
  | running => exact trivial
  | returned ok =>
      show Ordered addr (.noted (.authChecked ok) :: past') _
      cases ok with
      | false => exact ordered_of_free (free_rejectAuth p)
      | true =>
          refine ordered_filterHost rounds p ?_ List.mem_cons_self
          exact List.mem_cons_of_mem _ (hsuffix.subset hpassed)

theorem ordered_limit (hon : cfg.rateLimitEnabled = true) (rounds : ℕ) (p : ParsedRequest)
    (past : Trace) : Ordered addr past (limit cfg addr rounds p) := by
  rw [limit, if_pos hon]
  refine ordered_perform_bind trivial fun allowed => ?_
  cases allowed with
  | false => exact ordered_of_free (free_rejectRateLimited p)
  | true => exact ordered_authenticate rounds p List.mem_cons_self

theorem free_parseRaw (raw : Bytes) : Calls Op.Free (parseRaw cfg raw) := by
  rw [parseRaw]
  split
  · exact trivial
  · exact trivial
  · exact (Calls.perform trivial).bind fun _ => trivial

theorem ordered_serve (hon : cfg.rateLimitEnabled = true) (rounds : ℕ) (past : Trace) :
    Ordered addr past (serve cfg addr rounds) := by
  refine ordered_perform_bind trivial fun raw => ?_
  split
  · exact trivial
  · refine Safe.bind ((ordered_of_free (free_parseRaw raw)).mono fun past' o _ => ?_)
    cases o with
    | raised e => exact trivial
    | running => exact trivial
    | returned parsed =>
        cases parsed with
        | none =>
            exact ordered_of_free ((Calls.perform trivial).bind fun _ => Calls.perform trivial)
        | some p =>
            refine ordered_perform_bind trivial fun _ => ordered_perform_bind trivial fun _ => ?_
            exact ordered_limit hon rounds _ _

/-- Every call of `handle_client` is allowed when it is made. -/
theorem ordered_handleClient (hon : cfg.rateLimitEnabled = true) (rounds : ℕ) (past : Trace) :
    Ordered addr past (handleClient cfg addr rounds) := by
  have hclose (past' : Trace) :
      Ordered addr past' ((perform .closeClient).tryCatch swallow) :=
    ordered_of_free ((Calls.perform trivial).tryCatch calls_swallow)
  refine Safe.finallyDo (Safe.tryCatch ((ordered_serve hon rounds past).mono fun past' o _ => ?_))
  cases o with
  | returned a => exact hclose past'
  | running => exact trivial
  | raised e =>
      have hreport : Ordered addr past' (reportError cfg addr e) :=
        ordered_of_free (free_reportError e)
      exact hreport.mono fun past'' _ _ => hclose past''

end Order

/-- **The order of the pipeline.**  In every execution of `handle_client`, before a
password is verified the rate limiter let the request pass; before the origin is
connected, the cache asked or a cached response sent, the request was granted, for the
very host that is connected or stands in the key. -/
theorem pipeline_order {cfg : HandlerConfig} (hon : cfg.rateLimitEnabled = true)
    (addr : ClientAddr) (rounds : ℕ) {t : Trace} {o : Outcome PyExc Unit}
    (hexec : Exec (handleClient cfg addr rounds) t o) {pre post : Trace} {event : Event}
    (ht : t = pre ++ event :: post) :
    (∀ plain stored, event.op? = some (.verifyPassword plain stored) → Passed addr pre) ∧
    (∀ host port, event.op? = some (.connect host port) → Granted addr host pre) ∧
    (∀ key, event.op? = some (.cacheGet key) → Granted addr key.host pre) ∧
    (∀ key value, event.op? = some (.cachePut key value) → Granted addr key.host pre) ∧
    (∀ data, event.op? = some (.sendClient data) → ∀ key (cached : Entry),
      .called (.cacheGet key) (some cached) ∈ pre → Granted addr key.host pre) := by
  have hsafe : AllowedTrace (AllowedOp addr) [] t :=
    (ordered_handleClient hon rounds []).allowedTrace hexec
  have hallowed : ∀ {pre post : Trace} {event : Event} {op : Op}, t = pre ++ event :: post →
      event.op? = some op → AllowedOp addr pre.reverse op := by
    intro pre post event op ht hop
    rw [ht] at hsafe
    rw [← List.append_nil pre.reverse]
    exact hsafe.at hop
  have hgranted : ∀ {host : Text} {pre : Trace}, Granted addr host pre.reverse →
      Granted addr host pre :=
    fun h => h.mono fun _ hmem => List.mem_reverse.mp hmem
  refine ⟨?_, ?_, ?_, ?_, ?_⟩
  · intro plain stored hop
    exact List.mem_reverse.mp (hallowed ht hop)
  · intro host port hop
    exact hgranted (hallowed ht hop)
  · intro key hop
    exact hgranted (hallowed ht hop)
  · intro key value hop
    exact hgranted (hallowed ht hop)
  · intro data _ key cached hmem
    obtain ⟨before, after, rfl⟩ := List.append_of_mem hmem
    have hlookup : Granted addr key.host before.reverse :=
      hallowed (ht.trans (List.append_assoc _ _ _)) rfl
    exact (hgranted hlookup).mono (List.subset_append_left _ _)

/-- A `CONNECT` request with the credentials of `user`. -/
def connectRequest : Bytes :=
  ascii "CONNECT a:443 HTTP/1.1\r\nProxy-Authorization: Basic dXNlcjpwYXNz\r\n\r\n"

/-- A configuration with the one user `user`. -/
def oneUser : HandlerConfig where
  rt := asciiRuntime
  rateLimitEnabled := true
  users := OrderedDict.empty.set (txt "user") (txt "pass")
  maxObjectSize := 1000

/-- An environment in which a request arrives and everything succeeds. -/
def obliging (raw : Bytes) : ∀ op, Except PyExc (Ans op)
  | .recvHttpRequest => .ok raw
  | .uuid4 => .ok []
  | .isAllowed _ => .ok true
  | .getRetryAfter _ => .ok (1 : ℤ)
  | .verifyPassword _ _ => .ok true
  | .isBlocked _ => .ok false
  | .cacheGet _ => .ok none
  | .recvServer _ => .ok ([] : Bytes)
  | .monotonic => .ok (0 : ℚ)
  | .time => .ok (0 : ℚ)
  | .sendClient _ => .ok ()
  | .closeClient => .ok ()
  | .countMetric _ => .ok ()
  | .recordHost _ => .ok ()
  | .logEvent _ _ => .ok ()
  | .cachePut _ _ => .ok ()
  | .newSocket => .ok ()
  | .setTimeout _ => .ok ()
  | .connect _ _ => .ok ()
  | .sendServer _ => .ok ()
  | .closeServer => .ok ()
  | .tunnel => .ok ()

/-- The trace of `connectRequest`. -/
def connectTrace : Trace :=
  ((handleClient oneUser ⟨txt "10.0.0.1", 5000⟩ 1).run (obliging connectRequest)).1

theorem pipeline_order_connect :
    (∃ post, connectTrace =
        connectTrace.take 12 ++ .called (.connect (txt "a") 443) () :: post) ∧
      Granted ⟨txt "10.0.0.1", 5000⟩ (txt "a") (connectTrace.take 12) := by
  have hevent : connectTrace =
      connectTrace.take 12 ++ .called (.connect (txt "a") 443) () :: connectTrace.drop 13 := by
    rfl
  refine ⟨⟨_, hevent⟩, ?_⟩
  have hon : oneUser.rateLimitEnabled = true := rfl
  have hexec := exec_run (obliging connectRequest)
    (handleClient oneUser ⟨txt "10.0.0.1", 5000⟩ 1)
  exact (pipeline_order hon _ 1 hexec hevent).2.1 _ 443 rfl

/-! ## How a request is turned down -/

/-- A call with which a request is turned down, or an exception is reported. -/
def Op.TurnsDown : Op → Prop
  | .getRetryAfter _ => True
  | .countMetric metric => metric = .rateLimited ∨ metric = .blocked ∨ metric = .errors
  | .logEvent _ _ => True
  | .sendClient _ => True
  | _ => False

section TurnsDown

variable {cfg : HandlerConfig} {addr : ClientAddr}

theorem turnsDown_sendBadGateway : Calls Op.TurnsDown sendBadGateway :=
  calls_sendBadGateway trivial (Or.inr (Or.inr rfl))

theorem turnsDown_rejectBadRequest : Calls Op.TurnsDown rejectBadRequest := by
  have hcount : Op.TurnsDown (.countMetric .errors) := Or.inr (Or.inr rfl)
  exact (Calls.perform trivial).bind fun _ => Calls.perform hcount

theorem turnsDown_rejectRateLimited (p : ParsedRequest) :
    Calls Op.TurnsDown (rejectRateLimited cfg addr p) := by
  have hcount : Op.TurnsDown (.countMetric .rateLimited) := Or.inl rfl
  refine (Calls.perform trivial).bind fun _ => (Calls.perform hcount).bind fun _ => ?_
  exact (Calls.perform trivial).bind fun _ => Calls.perform trivial

theorem turnsDown_rejectAuth (p : ParsedRequest) :
    Calls Op.TurnsDown (rejectAuth cfg addr p) :=
  (Calls.perform trivial).bind fun _ => Calls.perform trivial

theorem turnsDown_rejectBlocked (p : ParsedRequest) :
    Calls Op.TurnsDown (rejectBlocked cfg addr p) := by
  have hcount : Op.TurnsDown (.countMetric .blocked) := Or.inr (Or.inl rfl)
  refine (Calls.perform hcount).bind fun _ => ?_
  exact (Calls.perform trivial).bind fun _ => Calls.perform trivial

theorem turnsDown_reportError (e : PyExc) : Calls Op.TurnsDown (reportError cfg addr e) := by
  have hcount : Op.TurnsDown (.countMetric .errors) := Or.inr (Or.inr rfl)
  rw [reportError]
  split
  · exact (Calls.perform hcount).bind fun _ => (Calls.perform trivial).tryCatch calls_swallow
  · exact trivial

/-- A call with which a tunnel is made. -/
def Op.OfTunnel (p : ParsedRequest) : Op → Prop
  | .newSocket => True
  | .setTimeout _ => True
  | .connect host port => host = p.host ∧ port = p.port
  | .tunnel => True
  | .closeServer => True
  | op => op.TurnsDown

theorem Op.TurnsDown.ofTunnel {op : Op} {p : ParsedRequest} (h : op.TurnsDown) :
    op.OfTunnel p := by
  cases op <;> first | exact h | exact h.elim

theorem ofTunnel_connectTunnel (p : ParsedRequest) :
    Calls (Op.OfTunnel p) (connectTunnel cfg addr p) := by
  have hgateway : Calls (Op.OfTunnel p) sendBadGateway :=
    turnsDown_sendBadGateway.mono fun _ => Op.TurnsDown.ofTunnel
  have hconnect : Op.OfTunnel p (.connect p.host p.port) := ⟨rfl, rfl⟩
  refine (Calls.perform trivial).bind fun _ => Calls.bind (Calls.tryCatch ?_ ?_) fun opened => ?_
  · exact (Calls.perform trivial).bind fun _ => trivial
  · exact calls_onOSError (hgateway.bind fun _ => trivial)
  · cases opened with
    | false => exact trivial
    | true =>
        refine Calls.finallyDo (Calls.tryCatch ?_ (calls_onOSError hgateway))
          ((Calls.perform trivial).tryCatch calls_swallow)
        refine (Calls.perform trivial).bind fun _ => (Calls.perform hconnect).bind fun _ => ?_
        exact (Calls.perform trivial).bind fun _ => Calls.perform trivial

end TurnsDown

end Proxy
end NetworkProxy
