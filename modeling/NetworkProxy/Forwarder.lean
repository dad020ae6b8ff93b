import NetworkProxy.Doubles
import NetworkProxy.ProxyCalls

/-!
# HTTP forwarding

`forward_http` as a program over the calls of the proxy: cache lookup, connection to
the origin, the relay loop with its four variables, and the store decision.

* `exec_relay`: the executions of the relay loop that return.
* `exec_forwardHttp`: what an execution of `forward_http` that returns looks like.
-/

namespace NetworkProxy
namespace Proxy

open Py Http Cache

/-- `_parse_response_status`. -/
def parseResponseStatus (firstChunk : Bytes) : Option ℤ :=
  let statusLine := match breakOn [13, 10] firstChunk with
    | some (line, _) => line
    | none => firstChunk
  match splitWs (fun b => isAsciiSpace b.toNat) 2 statusLine with
  | _ :: code :: _ => parseIntBytes code
  | _ => none

/-- The variables of the relay loop. -/
structure Transfer where
  responseChunks : List Bytes
  totalSize : ℕ
  cacheable : Bool
  statusCode : Option ℤ
deriving DecidableEq

namespace Transfer

/-- The variables before the loop. -/
def create (method : Text) : Transfer := ⟨[], 0, decide (method = txt "GET"), none⟩

/-- The status is taken from the first chunk that yields one. -/
def withStatus (s : Transfer) (data : Bytes) : Transfer :=
  match s.statusCode with
  | some _ => s
  | none =>
      match parseResponseStatus data with
      | none => s
      | some status =>
          { s with
            statusCode := some status
            cacheable := if status ≠ 0 ∧ status ≠ 200 then false else s.cacheable }

/-- Collecting a chunk while the response may still be cached. -/
def collect (maxObjectSize : ℤ) (s : Transfer) (data : Bytes) : Transfer :=
  if s.cacheable then
    if ((s.totalSize + data.length : ℕ) : ℤ) ≤ maxObjectSize then
      { s with
        totalSize := s.totalSize + data.length
        responseChunks := s.responseChunks ++ [data] }
    else
      { s with
        totalSize := s.totalSize + data.length
        cacheable := false
        responseChunks := [] }
  else s

/-- What the loop does with a chunk that was sent on. -/
def absorb (maxObjectSize : ℤ) (s : Transfer) (data : Bytes) : Transfer :=
  (s.withStatus data).collect maxObjectSize data

end Transfer

/-- The body of the `try` in the relay loop: `none` at the end of the response. -/
def relayChunk : Program (Option Bytes) := do
  let data ← perform (.recvServer Http.bufferSize)
  if data = [] then return none
  else
    perform (.sendClient data)
    return some data

/-- The relay loop; an `OSError` ends it like the end of the response. -/
def relay (maxObjectSize : ℤ) : ℕ → Transfer → Program Transfer
  | 0, _ => .stuck
  | rounds + 1, s => do
      match ← relayChunk.tryCatch (onOSError (.ret none)) with
      | none => return s
      | some data => relay maxObjectSize rounds (s.absorb maxObjectSize data)

/-- `round((t - t_start) * 1000, 1)`, in tenths. -/
def latencyTenths (start stop : ℚ) : ℤ :=
  Doubles.roundTenths (Doubles.rounded (Doubles.rounded (stop - start) * 1000))

/-- The clock does not go back, so a latency is not negative. -/
theorem latencyTenths_nonneg {start stop : ℚ} (h : start ≤ stop) : 0 ≤ latencyTenths start stop := by
  have hseconds : 0 ≤ Doubles.rounded (stop - start) :=
    Doubles.rounded_nonneg (sub_nonneg.mpr h)
  exact Doubles.roundTenths_nonneg (Doubles.rounded_nonneg (mul_nonneg hseconds (by norm_num)))

/-- The text of a number of tenths. -/
def showTenths (n : ℤ) : Text :=
  let digits := showInt (n.natAbs / 10) ++ '.' :: showInt (n.natAbs % 10)
  if n < 0 then '-' :: digits else digits

/-- `f"{status_code}"`. -/
def showStatus : Option ℤ → Text
  | some status => showInt status
  | none => txt "None"

namespace Forward

def cacheKey (p : ParsedRequest) : CacheKey := ⟨p.method, p.host, p.port, p.path⟩

/-- `{host}:{port}{path}`. -/
def destinationText (p : ParsedRequest) : Text :=
  p.host ++ ':' :: showInt p.port ++ showPath p.path

/-- The fields every entry of the forwarder has. -/
def logFields (p : ParsedRequest) (action : String) : LogFields :=
  { requestId := some p.requestId, host := some p.host, action := some (txt action) }

/-- The cache lookup; the result says whether the request is answered already. -/
def lookup (p : ParsedRequest) : Program Bool :=
  if p.method = txt "GET" then do
    match ← perform (.cacheGet (cacheKey p)) with
    | some cached =>
        perform (.logEvent (txt "CACHE HIT → " ++ destinationText p) (logFields p "CACHE_HIT"))
        perform (.countMetric .cached)
        (perform (.sendClient cached.response)).tryCatch (onOSError (.ret ()))
        return true
    | none =>
        perform (.logEvent (txt "CACHE MISS → " ++ destinationText p)
          (logFields p "CACHE_MISS"))
        return false
  else return false

/-- The connection to the origin; the result says whether it stands. -/
def connectOrigin (p : ParsedRequest) : Program Bool :=
  Prog.tryCatch (do
    perform .newSocket
    perform (.setTimeout 10)
    perform (.connect p.host p.port)
    return true) (onOSError (do sendBadGateway; return false))

/-- Sending the request; the result says whether that worked. -/
def sendRequest (p : ParsedRequest) : Program Bool :=
  Prog.tryCatch (do
    perform (.sendServer (buildOutboundRequest p))
    return true) (onOSError (do perform .closeServer; sendBadGateway; return false))

/-- The stored value. -/
def storedEntry (s : Transfer) (now : ℚ) : Entry :=
  ⟨s.responseChunks.flatten, some s.totalSize, some now⟩

/-- The message of the log entry after a store. -/
def storedMessage (p : ParsedRequest) (s : Transfer) (latency : ℤ) : Text :=
  txt "CACHE STORE → " ++ destinationText p ++ txt " (" ++ showInt s.totalSize ++
    txt "B, " ++ showTenths latency ++ txt "ms)"

/-- The fields of the log entry after a store. -/
def storedFields (p : ParsedRequest) (s : Transfer) (latency : ℤ) : LogFields :=
  { logFields p "CACHE_STORE" with
    latencyTenths := some latency
    bytesTransferred := some s.totalSize }

/-- The message of the log entry of a response that is not stored. -/
def forwardedMessage (p : ParsedRequest) (s : Transfer) (latency : ℤ) : Text :=
  txt "FORWARDED → " ++ destinationText p ++ txt " [" ++ showStatus s.statusCode ++
    txt "] (" ++ showInt s.totalSize ++ txt "B, " ++ showTenths latency ++ txt "ms)"

/-- The fields of the log entry of a response that is not stored. -/
def forwardedFields (p : ParsedRequest) (s : Transfer) (latency : ℤ) : LogFields :=
  { logFields p "FORWARDED" with
    statusCode := s.statusCode
    latencyTenths := some latency
    bytesTransferred := some s.totalSize }

/-- The store decision and the closing log entry. -/
def finish (p : ParsedRequest) (start : ℚ) (s : Transfer) : Program Unit := do
  perform .closeServer
  let latency := latencyTenths start (← perform .monotonic)
  if s.cacheable ∧ s.responseChunks ≠ [] then
    let now ← perform .time
    perform (.cachePut (cacheKey p) (storedEntry s now))
    perform (.logEvent (storedMessage p s latency) (storedFields p s latency))
  else perform (.logEvent (forwardedMessage p s latency) (forwardedFields p s latency))

/-- Everything after a miss. -/
def fetch (maxObjectSize : ℤ) (rounds : ℕ) (p : ParsedRequest) : Program Unit := do
  let start ← perform .monotonic
  if ← connectOrigin p then
    if ← sendRequest p then
      let s ← relay maxObjectSize rounds (Transfer.create p.method)
      finish p start s
    else return ()
  else return ()

end Forward

/-- `forward_http`; the relay loop makes at most `rounds` rounds. -/
def forwardHttp (maxObjectSize : ℤ) (rounds : ℕ) (p : ParsedRequest) : Program Unit := do
  if ← Forward.lookup p then return ()
  else Forward.fetch maxObjectSize rounds p

/-! ## The relay loop -/

/-- How the relay loop ends. -/
inductive Ending
  | eof
  | recvFailed (message : Text)
  | sendFailed (data : Bytes) (hne : data ≠ []) (message : Text)

/-- A response, as the relay loop meets it: the chunks that were received and sent on,
and the end. -/
structure Response where
  chunks : List Bytes
  chunks_ne_nil : ∀ c, c ∈ chunks → c ≠ []
  ending : Ending

/-- A chunk is received and sent on. -/
def chunkEvents (data : Bytes) : Trace :=
  [.called (.recvServer Http.bufferSize) data, .called (.sendClient data) ()]

def Ending.events : Ending → Trace
  | eof => [.called (.recvServer Http.bufferSize) []]
  | recvFailed message => [.raised (.recvServer Http.bufferSize) (.osError message)]
  | sendFailed data _ message =>
      [.called (.recvServer Http.bufferSize) data,
        .raised (.sendClient data) (.osError message)]

/-- The calls of the relay loop on a response. -/
def Response.events (r : Response) : Trace := r.chunks.flatMap chunkEvents ++ r.ending.events

theorem exec_relayChunk_returned {t : Trace} {result : Option Bytes} :
    Exec relayChunk t (.returned result) ↔
      (t = Ending.events .eof ∧ result = none) ∨
      ∃ data, data ≠ [] ∧ t = chunkEvents data ∧ result = some data := by
  constructor
  · intro h
    obtain ⟨data, t', rfl, hrest⟩ := exec_perform_bind_returned.mp h
    split at hrest
    · rename_i hdata
      obtain ⟨rfl, rfl⟩ := exec_ret_returned.mp hrest
      subst hdata
      exact Or.inl ⟨rfl, rfl⟩
    · rename_i hdata
      obtain ⟨_, t'', rfl, hend⟩ := exec_perform_bind_returned.mp hrest
      obtain ⟨rfl, rfl⟩ := exec_ret_returned.mp hend
      exact Or.inr ⟨data, hdata, rfl, rfl⟩
  · rintro (⟨rfl, rfl⟩ | ⟨data, hdata, rfl, rfl⟩)
    · exact exec_perform_bind_returned.mpr ⟨[], [], rfl, .ret none⟩
    · refine exec_perform_bind_returned.mpr ⟨data, _, rfl, ?_⟩
      rw [if_neg hdata]
      exact exec_perform_bind_returned.mpr ⟨(), [], rfl, .ret _⟩

theorem exec_relayChunk_raised {t : Trace} {e : PyExc} :
    Exec relayChunk t (.raised e) ↔
      t = [.raised (.recvServer Http.bufferSize) e] ∨
      ∃ data, data ≠ [] ∧
        t = [.called (.recvServer Http.bufferSize) data, .raised (.sendClient data) e] := by
  constructor
  · intro h
    rcases exec_perform_bind_raised.mp h with rfl | ⟨data, t', rfl, hrest⟩
    · exact Or.inl rfl
    · split at hrest
      · exact absurd hrest not_exec_ret_raised
      · rename_i hdata
        rcases exec_perform_bind_raised.mp hrest with rfl | ⟨_, t'', rfl, hend⟩
        · exact Or.inr ⟨data, hdata, rfl⟩
        · exact absurd hend not_exec_ret_raised
  · rintro (rfl | ⟨data, hdata, rfl⟩)
    · exact exec_perform_bind_raised.mpr (Or.inl rfl)
    · refine exec_perform_bind_raised.mpr (Or.inr ⟨data, _, rfl, ?_⟩)
      rw [if_neg hdata]
      exact exec_perform_bind_raised.mpr (Or.inl rfl)

/-- An exception handler for `OSError` that returns at once. -/
theorem exec_onOSError_ret {α : Type} {a b : α} {e : PyExc} {t : Trace} :
    Exec (onOSError (.ret a) e) t (.returned b) ↔
      t = [] ∧ b = a ∧ ∃ message, e = .osError message := by
  rw [onOSError]
  cases e with
  | osError message =>
      rw [if_pos (by rfl), exec_ret_returned]
      constructor
      · rintro ⟨rfl, rfl⟩
        exact ⟨rfl, rfl, message, rfl⟩
      · rintro ⟨rfl, rfl, -⟩
        exact ⟨rfl, rfl⟩
  | exception message =>
      rw [if_neg (by simp [PyExc.isOSError])]
      constructor
      · rintro ⟨⟩
      · rintro ⟨-, -, message', h⟩
        cases h
  | baseException message =>
      rw [if_neg (by simp [PyExc.isOSError])]
      constructor
      · rintro ⟨⟩
      · rintro ⟨-, -, message', h⟩
        cases h

/-- One round of the loop: a chunk is sent on, or the loop ends. -/
theorem exec_relayRound {t : Trace} {result : Option Bytes} :
    Exec (relayChunk.tryCatch (onOSError (.ret none))) t (.returned result) ↔
      (∃ ending : Ending, t = ending.events ∧ result = none) ∨
      ∃ data, data ≠ [] ∧ t = chunkEvents data ∧ result = some data := by
  rw [exec_tryCatch_returned]
  constructor
  · rintro (h | ⟨t₁, e, t₂, rfl, h, hcatch⟩)
    · rcases exec_relayChunk_returned.mp h with ⟨rfl, rfl⟩ | h
      · exact Or.inl ⟨.eof, rfl, rfl⟩
      · exact Or.inr h
    · obtain ⟨rfl, rfl, message, rfl⟩ := exec_onOSError_ret.mp hcatch
      rcases exec_relayChunk_raised.mp h with rfl | ⟨data, hdata, rfl⟩
      · exact Or.inl ⟨.recvFailed message, rfl, rfl⟩
      · exact Or.inl ⟨.sendFailed data hdata message, rfl, rfl⟩
  · rintro (⟨ending, rfl, rfl⟩ | ⟨data, hdata, rfl, rfl⟩)
    · cases ending with
      | eof => exact Or.inl (exec_relayChunk_returned.mpr (Or.inl ⟨rfl, rfl⟩))
      | recvFailed message =>
          exact Or.inr ⟨_, _, [], rfl, exec_relayChunk_raised.mpr (Or.inl rfl),
            exec_onOSError_ret.mpr ⟨rfl, rfl, message, rfl⟩⟩
      | sendFailed data hdata message =>
          exact Or.inr ⟨_, _, [], rfl,
            exec_relayChunk_raised.mpr (Or.inr ⟨data, hdata, rfl⟩),
            exec_onOSError_ret.mpr ⟨rfl, rfl, message, rfl⟩⟩
    · exact Or.inl (exec_relayChunk_returned.mpr (Or.inr ⟨data, hdata, rfl, rfl⟩))

/-- The relay loop.  An execution that returns meets some response and folds its
chunks into the variables. -/
theorem exec_relay {maxObjectSize : ℤ} {rounds : ℕ} {s s' : Transfer} {t : Trace}
    (h : Exec (relay maxObjectSize rounds s) t (.returned s')) :
    ∃ r : Response, t = r.events ∧ s' = r.chunks.foldl (Transfer.absorb maxObjectSize) s := by
  induction rounds generalizing s t with
  | zero => cases h
  | succ rounds ih =>
      obtain ⟨t₁, result, t₂, rfl, hround, hrest⟩ := exec_bind_returned.mp h
      rcases exec_relayRound.mp hround with ⟨ending, rfl, rfl⟩ | ⟨data, hdata, rfl, rfl⟩
      · obtain ⟨rfl, rfl⟩ := exec_ret_returned.mp hrest
        exact ⟨⟨[], by simp, ending⟩, List.append_nil _, rfl⟩
      · obtain ⟨r, rfl, rfl⟩ := ih hrest
        refine ⟨⟨data :: r.chunks, ?_, r.ending⟩, ?_, rfl⟩
        · intro c hc
          rcases List.mem_cons.mp hc with rfl | hc
          · exact hdata
          · exact r.chunks_ne_nil c hc
        · simp [Response.events]

/-- Every response can be met, and one round more than it has chunks is enough. -/
theorem exec_relay_response (maxObjectSize : ℤ) (s : Transfer) (r : Response) :
    Exec (relay maxObjectSize (r.chunks.length + 1) s) r.events
      (.returned (r.chunks.foldl (Transfer.absorb maxObjectSize) s)) := by
  obtain ⟨chunks, hne, ending⟩ := r
  induction chunks generalizing s with
  | nil =>
      exact exec_bind_returned.mpr ⟨ending.events, none, [], (List.append_nil _).symm,
        exec_relayRound.mpr (Or.inl ⟨ending, rfl, rfl⟩), .ret s⟩
  | cons data chunks ih =>
      have hdata := hne data List.mem_cons_self
      have hrest := ih (s.absorb maxObjectSize data)
        (fun c hc => hne c (List.mem_cons_of_mem _ hc))
      refine exec_bind_returned.mpr ⟨chunkEvents data, some data, _, ?_,
        exec_relayRound.mpr (Or.inr ⟨data, hdata, rfl, rfl⟩), hrest⟩
      simp [Response.events]

/-! ## The whole function -/

/-- A call that neither receives from the origin nor stores in the cache. -/
def Op.Quiet : Op → Prop
  | .recvServer _ => False
  | .cachePut _ _ => False
  | _ => True

/-- A trace of quiet calls. -/
def QuietTrace (t : Trace) : Prop := ∀ event, event ∈ t → ∀ op, event.op? = some op → op.Quiet

theorem QuietTrace.append {t t' : Trace} (h : QuietTrace t) (h' : QuietTrace t') :
    QuietTrace (t ++ t') :=
  fun event hmem => (List.mem_append.mp hmem).elim (h event) (h' event)

theorem QuietTrace.of_calls {α : Type} {q : Program α} {t : Trace} {o : Outcome PyExc α}
    (hq : Calls Op.Quiet q) (hx : Exec q t o) : QuietTrace t :=
  fun _ hmem _ hop => hq.of_exec hx hmem hop

theorem calls_sendBadGateway {S : Op → Prop} (hsend : S (.sendClient badGateway))
    (hcount : S (.countMetric .errors)) : Calls S sendBadGateway :=
  (Calls.perform hsend).bind fun _ => Calls.perform hcount

theorem calls_onOSError {α : Type} {S : Op → Prop} {h : Program α} (hh : Calls S h)
    (e : PyExc) : Calls S (onOSError h e) := by
  rw [onOSError]
  split
  · exact hh
  · exact trivial

namespace Forward

/-- The calls of the lookup. -/
theorem calls_lookup {S : Op → Prop} (p : ParsedRequest)
    (hget : S (.cacheGet (cacheKey p))) (hlog : ∀ m f, S (.logEvent m f))
    (hcount : S (.countMetric .cached)) (hsend : ∀ data, S (.sendClient data)) :
    Calls S (lookup p) := by
  rw [lookup]
  split
  · refine (Calls.perform hget).bind fun cached => ?_
    cases cached with
    | none => exact (Calls.perform (hlog _ _)).bind fun _ => trivial
    | some cached =>
        refine (Calls.perform (hlog _ _)).bind fun _ => ?_
        refine (Calls.perform hcount).bind fun _ => ?_
        refine Calls.bind ?_ fun _ => trivial
        exact (Calls.perform (hsend _)).tryCatch (calls_onOSError trivial)
  · exact trivial

/-- The calls of the connection. -/
theorem calls_connectOrigin {S : Op → Prop} (p : ParsedRequest) (hnew : S .newSocket)
    (htime : S (.setTimeout 10)) (hconnect : S (.connect p.host p.port))
    (hsend : S (.sendClient badGateway)) (hcount : S (.countMetric .errors)) :
    Calls S (connectOrigin p) := by
  refine Calls.tryCatch ?_ (calls_onOSError ?_)
  · refine (Calls.perform hnew).bind fun _ => ?_
    refine (Calls.perform htime).bind fun _ => ?_
    exact (Calls.perform hconnect).bind fun _ => trivial
  · exact (calls_sendBadGateway hsend hcount).bind fun _ => trivial

/-- The calls of sending the request. -/
theorem calls_sendRequest {S : Op → Prop} (p : ParsedRequest)
    (hserver : S (.sendServer (buildOutboundRequest p))) (hclose : S .closeServer)
    (hsend : S (.sendClient badGateway)) (hcount : S (.countMetric .errors)) :
    Calls S (sendRequest p) := by
  refine Calls.tryCatch ?_ (calls_onOSError ?_)
  · exact (Calls.perform hserver).bind fun _ => trivial
  · refine (Calls.perform hclose).bind fun _ => ?_
    exact (calls_sendBadGateway hsend hcount).bind fun _ => trivial

/-- A call `forward_http` makes for the request. -/
def OfForward (p : ParsedRequest) : Op → Prop
  | .sendClient _ => True
  | .countMetric _ => True
  | .logEvent _ _ => True
  | .cacheGet key => key = cacheKey p
  | .cachePut key _ => key = cacheKey p
  | .newSocket => True
  | .setTimeout _ => True
  | .connect host port => host = p.host ∧ port = p.port
  | .sendServer data => data = buildOutboundRequest p
  | .recvServer _ => True
  | .closeServer => True
  | .monotonic => True
  | .time => True
  | _ => False

theorem calls_relay (maxObjectSize : ℤ) (p : ParsedRequest) (rounds : ℕ) (s : Transfer) :
    Calls (OfForward p) (relay maxObjectSize rounds s) := by
  induction rounds generalizing s with
  | zero => exact trivial
  | succ rounds ih =>
      refine Calls.bind (Calls.tryCatch ?_ (calls_onOSError trivial)) fun result => ?_
      · refine (Calls.perform trivial).bind fun data => ?_
        split
        · exact trivial
        · exact (Calls.perform trivial).bind fun _ => trivial
      · cases result with
        | none => exact trivial
        | some data => exact ih _

theorem calls_finish (p : ParsedRequest) (start : ℚ) (s : Transfer) :
    Calls (OfForward p) (finish p start s) := by
  refine (Calls.perform trivial).bind fun _ => (Calls.perform trivial).bind fun stop => ?_
  split
  · refine (Calls.perform trivial).bind fun now => ?_
    refine Calls.bind (Calls.perform ?_) fun _ => Calls.perform trivial
    exact (rfl : cacheKey p = cacheKey p)
  · exact Calls.perform trivial

theorem calls_fetch (maxObjectSize : ℤ) (rounds : ℕ) (p : ParsedRequest) :
    Calls (OfForward p) (fetch maxObjectSize rounds p) := by
  refine (Calls.perform trivial).bind fun start => ?_
  refine Calls.bind (calls_connectOrigin (S := OfForward p) p trivial trivial ⟨rfl, rfl⟩ trivial
    trivial) fun connected => ?_
  split
  · refine Calls.bind (calls_sendRequest (S := OfForward p) p rfl trivial trivial trivial)
      fun sent => ?_
    split
    · exact (calls_relay maxObjectSize p rounds _).bind fun s => calls_finish p start s
    · exact trivial
  · exact trivial

theorem quiet_lookup (p : ParsedRequest) : Calls Op.Quiet (lookup p) :=
  calls_lookup (S := Op.Quiet) p trivial (fun _ _ => trivial) trivial (fun _ => trivial)

theorem quiet_connectOrigin (p : ParsedRequest) : Calls Op.Quiet (connectOrigin p) :=
  calls_connectOrigin (S := Op.Quiet) p trivial trivial trivial trivial trivial

theorem quiet_sendRequest (p : ParsedRequest) : Calls Op.Quiet (sendRequest p) :=
  calls_sendRequest (S := Op.Quiet) p trivial trivial trivial trivial

/-- The calls after the transfer. -/
def afterEvents (p : ParsedRequest) (start stop now : ℚ) (s : Transfer) : Trace :=
  let latency := latencyTenths start stop
  .called .closeServer () :: .called .monotonic stop ::
    if s.cacheable ∧ s.responseChunks ≠ [] then
      [.called .time now, .called (.cachePut (cacheKey p) (storedEntry s now)) (),
        .called (.logEvent (storedMessage p s latency) (storedFields p s latency)) ()]
    else
      [.called (.logEvent (forwardedMessage p s latency) (forwardedFields p s latency)) ()]

theorem exec_finish {p : ParsedRequest} {start : ℚ} {s : Transfer} {t : Trace} :
    Exec (finish p start s) t (.returned ()) ↔
      ∃ stop now : ℚ, t = afterEvents p start stop now s := by
  constructor
  · intro h
    obtain ⟨_, t₁, rfl, h₁⟩ := exec_perform_bind_returned.mp h
    obtain ⟨stop, t₂, rfl, h₂⟩ := exec_perform_bind_returned.mp h₁
    split at h₂
    · rename_i hstore
      obtain ⟨now, t₃, rfl, h₃⟩ := exec_perform_bind_returned.mp h₂
      obtain ⟨_, t₄, rfl, h₄⟩ := exec_perform_bind_returned.mp h₃
      obtain rfl := exec_perform_returned.mp h₄
      exact ⟨stop, now, by rw [afterEvents, if_pos hstore]⟩
    · rename_i hkeep
      obtain rfl := exec_perform_returned.mp h₂
      exact ⟨stop, 0, by rw [afterEvents, if_neg hkeep]⟩
  · rintro ⟨stop, now, rfl⟩
    rw [afterEvents]
    refine exec_perform_bind_returned.mpr ⟨(), _, rfl, ?_⟩
    refine exec_perform_bind_returned.mpr ⟨stop, _, rfl, ?_⟩
    split
    · refine exec_perform_bind_returned.mpr ⟨now, _, rfl, ?_⟩
      refine exec_perform_bind_returned.mpr ⟨(), _, rfl, ?_⟩
      exact exec_perform_returned.mpr rfl
    · exact exec_perform_returned.mpr rfl

end Forward

open Forward

/-- The calls of `forward_http`. -/
theorem calls_forwardHttp (maxObjectSize : ℤ) (rounds : ℕ) (p : ParsedRequest) :
    Calls (OfForward p) (forwardHttp maxObjectSize rounds p) := by
  refine Calls.bind (calls_lookup (S := OfForward p) p rfl (fun _ _ => trivial) trivial
    (fun _ => trivial)) fun answered => ?_
  split
  · exact trivial
  · exact calls_fetch maxObjectSize rounds p

/-- `forward_http`.  An execution that returns either never reaches the transfer, or
relays some response and then decides about storing it. -/
theorem exec_forwardHttp {maxObjectSize : ℤ} {rounds : ℕ} {p : ParsedRequest} {t : Trace}
    (h : Exec (forwardHttp maxObjectSize rounds p) t (.returned ())) :
    QuietTrace t ∨
      ∃ (pre : Trace) (r : Response) (start stop now : ℚ), QuietTrace pre ∧
        t = pre ++ (r.events ++ afterEvents p start stop now
          (r.chunks.foldl (Transfer.absorb maxObjectSize) (Transfer.create p.method))) := by
  obtain ⟨t₀, answered, t₁, rfl, hlookup, h₁⟩ := exec_bind_returned.mp h
  have q₀ : QuietTrace t₀ := QuietTrace.of_calls (quiet_lookup p) hlookup
  cases answered with
  | true =>
      rw [if_pos rfl] at h₁
      obtain ⟨rfl, -⟩ := exec_ret_returned.mp h₁
      rw [List.append_nil]
      exact Or.inl q₀
  | false =>
      rw [if_neg Bool.false_ne_true] at h₁
      obtain ⟨start, t₂, rfl, h₂⟩ := exec_perform_bind_returned.mp h₁
      obtain ⟨t₃, connected, t₄, rfl, hconnect, h₄⟩ := exec_bind_returned.mp h₂
      have q₁ : QuietTrace (.called .monotonic start :: t₃) := by
        intro event hmem op hop
        rcases List.mem_cons.mp hmem with rfl | hmem
        · cases hop
          exact trivial
        · exact QuietTrace.of_calls (quiet_connectOrigin p) hconnect event hmem op hop
      cases connected with
      | false =>
          rw [if_neg Bool.false_ne_true] at h₄
          obtain ⟨rfl, -⟩ := exec_ret_returned.mp h₄
          rw [List.append_nil]
          exact Or.inl (q₀.append q₁)
      | true =>
          rw [if_pos rfl] at h₄
          obtain ⟨t₅, sent, t₆, rfl, hsend, h₆⟩ := exec_bind_returned.mp h₄
          have q₂ : QuietTrace t₅ := QuietTrace.of_calls (quiet_sendRequest p) hsend
          cases sent with
          | false =>
              rw [if_neg Bool.false_ne_true] at h₆
              obtain ⟨rfl, -⟩ := exec_ret_returned.mp h₆
              rw [List.append_nil, ← List.cons_append]
              exact Or.inl (q₀.append (q₁.append q₂))
          | true =>
              rw [if_pos rfl] at h₆
              obtain ⟨t₇, s, t₈, rfl, hrelay, hfinish⟩ := exec_bind_returned.mp h₆
              obtain ⟨r, rfl, rfl⟩ := exec_relay hrelay
              obtain ⟨stop, now, rfl⟩ := exec_finish.mp hfinish
              refine Or.inr ⟨t₀ ++ (.called .monotonic start :: t₃ ++ t₅), r, start, stop, now,
                q₀.append (q₁.append q₂), ?_⟩
              simp

namespace Forward

/-- The calls of a lookup that misses. -/
def missEvents (p : ParsedRequest) : Trace :=
  [.called (.cacheGet (cacheKey p)) none,
    .called (.logEvent (txt "CACHE MISS → " ++ destinationText p)
      (logFields p "CACHE_MISS")) ()]

/-- The calls of a connection that succeeds. -/
def connectEvents (p : ParsedRequest) : Trace :=
  [.called .newSocket (), .called (.setTimeout 10) (), .called (.connect p.host p.port) ()]

/-- The call that sends the request. -/
def sendEvents (p : ParsedRequest) : Trace :=
  [.called (.sendServer (buildOutboundRequest p)) ()]

/-- The trace of a `GET` that misses and relays a response. -/
def fetchTrace (maxObjectSize : ℤ) (p : ParsedRequest) (r : Response) (start stop now : ℚ) :
    Trace :=
  missEvents p ++ (.called .monotonic start :: (connectEvents p ++ (sendEvents p ++
    (r.events ++ afterEvents p start stop now
      (r.chunks.foldl (Transfer.absorb maxObjectSize) (Transfer.create p.method))))))

end Forward

/-- Every response can be relayed. -/
theorem exec_fetchTrace (maxObjectSize : ℤ) {p : ParsedRequest} (hget : p.method = txt "GET")
    (r : Response) (start stop now : ℚ) :
    Exec (forwardHttp maxObjectSize (r.chunks.length + 1) p)
      (fetchTrace maxObjectSize p r start stop now) (.returned ()) := by
  have hlookup : Exec (lookup p) (missEvents p) (.returned false) := by
    rw [lookup, if_pos hget]
    refine exec_perform_bind_returned.mpr ⟨none, _, rfl, ?_⟩
    exact exec_perform_bind_returned.mpr ⟨(), [], rfl, .ret false⟩
  have hconnect : Exec (connectOrigin p) (connectEvents p) (.returned true) := by
    refine exec_tryCatch_returned.mpr (Or.inl ?_)
    refine exec_perform_bind_returned.mpr ⟨(), _, rfl, ?_⟩
    refine exec_perform_bind_returned.mpr ⟨(), _, rfl, ?_⟩
    exact exec_perform_bind_returned.mpr ⟨(), [], rfl, .ret true⟩
  have hsend : Exec (sendRequest p) (sendEvents p) (.returned true) := by
    refine exec_tryCatch_returned.mpr (Or.inl ?_)
    exact exec_perform_bind_returned.mpr ⟨(), [], rfl, .ret true⟩
  refine exec_bind_returned.mpr ⟨_, false, _, rfl, hlookup, ?_⟩
  refine exec_perform_bind_returned.mpr ⟨start, _, rfl, ?_⟩
  refine exec_bind_returned.mpr ⟨_, true, _, rfl, hconnect, ?_⟩
  refine exec_bind_returned.mpr ⟨_, true, _, rfl, hsend, ?_⟩
  exact exec_bind_returned.mpr ⟨_, _, _, rfl, exec_relay_response maxObjectSize _ r,
    exec_finish.mpr ⟨stop, now, rfl⟩⟩

namespace Forward

/-- The calls of a `GET` that hits. -/
def hitEvents (p : ParsedRequest) (cached : Entry) : Trace :=
  [.called (.cacheGet (cacheKey p)) (some cached),
    .called (.logEvent (txt "CACHE HIT → " ++ destinationText p) (logFields p "CACHE_HIT")) (),
    .called (.countMetric .cached) (),
    .called (.sendClient cached.response) ()]

end Forward

/-- Every cached response can be sent. -/
theorem exec_hitEvents (maxObjectSize : ℤ) (rounds : ℕ) {p : ParsedRequest}
    (hget : p.method = txt "GET") (cached : Entry) :
    Exec (forwardHttp maxObjectSize rounds p) (hitEvents p cached) (.returned ()) := by
  have hlookup : Exec (lookup p) (hitEvents p cached) (.returned true) := by
    rw [lookup, if_pos hget]
    refine exec_perform_bind_returned.mpr ⟨some cached, _, rfl, ?_⟩
    refine exec_perform_bind_returned.mpr ⟨(), _, rfl, ?_⟩
    refine exec_perform_bind_returned.mpr ⟨(), _, rfl, ?_⟩
    refine exec_bind_returned.mpr ⟨[.called (.sendClient cached.response) ()], (), [], rfl, ?_,
      .ret true⟩
    exact exec_tryCatch_returned.mpr (Or.inl (exec_perform_returned.mpr rfl))
  exact exec_bind_returned.mpr ⟨_, true, [], (List.append_nil _).symm, hlookup, .ret ()⟩

end Proxy
end NetworkProxy
