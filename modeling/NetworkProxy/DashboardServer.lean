import NetworkProxy.CacheSnapshots
import NetworkProxy.DashboardMarkup
import NetworkProxy.ResponseFormat

/-!
# The dashboard server

`do_GET` with its handlers, and what a client makes of the answers by their status, their
content type and their length.

`dashboard_answers`: every path is answered with what it stands for: the page, the snapshot,
the newest entries of the log, or the events that are pushed while the stream is open.
-/

namespace NetworkProxy
namespace Proxy

open Py JsonText EventStream LogStream ResponseFormat

/-! ## The state that is shown -/

/-- What `_build_snapshot` reads.  The refill rate is a finite one. -/
structure Readings where
  metrics : Metric → ℕ
  cache : Cache.Snapshot
  activeBuckets : ℕ
  capacity : ℤ
  refillRate : Number
  hostCounters : OrderedDict Text ℕ

def intJson (n : ℤ) : Json Number := .number (.int n)

/-- `dict(metrics)`. -/
def metricsJson (m : Metric → ℕ) : Json Number :=
  .object [(txt "total", intJson (m .total)), (txt "allowed", intJson (m .allowed)),
    (txt "blocked", intJson (m .blocked)), (txt "cached", intJson (m .cached)),
    (txt "rate_limited", intJson (m .rateLimited)), (txt "errors", intJson (m .errors))]

/-- `cache.stats.snapshot()`. -/
def cacheJson (s : Cache.Snapshot) : Json Number :=
  .object [(txt "hits", intJson s.hits), (txt "misses", intJson s.misses),
    (txt "evictions", intJson s.evictions), (txt "stores", intJson s.stores),
    (txt "current_entries", intJson s.currentEntries),
    (txt "current_bytes", intJson s.currentBytes),
    (txt "hit_rate", .number (.tenths s.hitRateTenths))]

/-- `rate_limiter.snapshot()`. -/
def rateLimiterJson (r : Readings) : Json Number :=
  .object [(txt "active_buckets", intJson r.activeBuckets), (txt "capacity", intJson r.capacity),
    (txt "refill_rate", .number r.refillRate)]

def Readings.snapshot (r : Readings) : Json Number :=
  buildSnapshot (metricsJson r.metrics) (cacheJson r.cache) (rateLimiterJson r) r.hostCounters

/-- `get_recent_logs`; `[-0:]` is the whole list. -/
def getRecentLogs (n : ℕ) (buffer : RingBuffer LogEntry) : List LogEntry :=
  (if n = 0 then buffer.items else buffer.items.rtake n).reverse

/-! ## The handlers -/

/-- What the server puts into every head. -/
structure Stamp where
  server : Value
  date : Value

/-- A value that the source spells out. -/
def literal (s : String) (plain : (txt s).all isPlain = true := by decide)
    (trimmed : stripBy isOws (txt s) = txt s := by decide) : Value := ⟨txt s, plain, trimmed⟩

def field (name : String) (value : Value) (plain : (txt name).all isPlain = true := by decide)
    (no_colon : ':' ∉ txt name := by decide) : Field := ⟨txt name, value, plain, no_colon⟩

theorem all_isPlain_toDigits (n : ℕ) : (Nat.toDigits 10 n).all isPlain = true := by
  refine List.all_eq_true.mpr fun c hc => ?_
  have hdigit := Nat.isDigit_of_mem_toDigits (by omega) (by omega) hc
  obtain ⟨hlow, hhigh⟩ := isDigit_bounds hdigit
  simp only [isPlain, Bool.and_eq_true, decide_eq_true_eq]
  omega

theorem stripBy_toDigits (n : ℕ) :
    stripBy isOws (Nat.toDigits 10 n) = Nat.toDigits 10 n := by
  have hdigit : ∀ c ∈ Nat.toDigits 10 n, isOws c = false := by
    intro c hc
    have hdigit := Nat.isDigit_of_mem_toDigits (by omega) (by omega) hc
    by_contra hows
    simp only [isOws, Bool.not_eq_false, Bool.or_eq_true, beq_iff_eq] at hows
    rcases hows with rfl | rfl <;> cases hdigit
  exact stripBy_eq_self (fun c hc => hdigit c (List.mem_of_mem_head? hc))
    fun c hc => hdigit c (List.mem_of_getLast? hc)

/-- `str(len(body))`. -/
def lengthValue (body : Bytes) : Value :=
  ⟨Nat.toDigits 10 body.length, all_isPlain_toDigits _, stripBy_toDigits _⟩

/-- `send_response`, the fields of the handler, and the body. -/
def sendResponse (stamp : Stamp) (status : ℕ) (reason : Value) (fields : List Field)
    (body : Bytes) : Reply :=
  ⟨status, reason, field "Server" stamp.server :: field "Date" stamp.date :: fields, body⟩

/-- The three handlers that know their body. -/
def serveWhole (stamp : Stamp) (contentType : Value) (body : Bytes) : Reply :=
  sendResponse stamp 200 (literal "OK")
    [field "Content-Type" contentType, field "Content-Length" (lengthValue body),
      field "Cache-Control" (literal "no-cache")] body

/-- `_serve_html`. -/
def serveHtml (stamp : Stamp) (dashboardHtml : Text) : Reply :=
  serveWhole stamp (literal "text/html; charset=utf-8") (encode dashboardHtml)

/-- `_serve_metrics`. -/
def serveMetrics (stamp : Stamp) (r : Readings) : Reply :=
  serveWhole stamp (literal "application/json") (encode (dumps numberFormat r.snapshot))

/-- `_serve_logs`. -/
def serveLogs (stamp : Stamp) (buffer : RingBuffer LogEntry) : Reply :=
  serveWhole stamp (literal "application/json")
    (encode (dumps numberFormat (.array ((getRecentLogs 100 buffer).map LogEntry.toDict))))

/-- `_serve_sse`: the head, and what the loop has pushed when the connection ends. -/
def serveSse (stamp : Stamp) (pushed : List (SseEvent LogEntry (Json Number))) : Reply :=
  sendResponse stamp 200 (literal "OK")
    [field "Content-Type" (literal "text/event-stream"),
      field "Cache-Control" (literal "no-cache"), field "Connection" (literal "keep-alive"),
      field "Access-Control-Allow-Origin" (literal "*")] (streamBytes pushed)

/-- The page of `send_error(404)`. -/
def notFoundPage : Text :=
  txt ("<!DOCTYPE HTML>\n<html lang=\"en\">\n    <head>\n        <meta charset=\"utf-8\">\n" ++
    "        <title>Error response</title>\n    </head>\n    <body>\n" ++
    "        <h1>Error response</h1>\n        <p>Error code: 404</p>\n" ++
    "        <p>Message: Not Found.</p>\n" ++
    "        <p>Error code explanation: 404 - Nothing matches the given URI.</p>\n" ++
    "    </body>\n</html>\n")

/-- `send_error`. -/
def sendError (stamp : Stamp) (status : ℕ) (reason : Value) (body : Bytes) : Reply :=
  sendResponse stamp status reason
    [field "Connection" (literal "close"),
      field "Content-Type" (literal "text/html;charset=utf-8"),
      field "Content-Length" (lengthValue body)] body

/-- What a request finds: the page, the state, and what will happen while its connection is
open. -/
structure Served where
  page : Text
  readings : Readings
  buffer : RingBuffer LogEntry
  run : List (LogStream.Event LogEntry (Json Number))

/-- What the loop of `_serve_sse` pushes. -/
def Served.pushed (s : Served) : List (SseEvent LogEntry (Json Number)) :=
  (pushes (.opened s.buffer) s.run).flatten

/-- `do_GET`. -/
def doGet (stamp : Stamp) (s : Served) (path : Text) : Reply :=
  if path = txt "/" then serveHtml stamp s.page
  else if path = txt "/api/metrics" then serveMetrics stamp s.readings
  else if path = txt "/api/logs" then serveLogs stamp s.buffer
  else if path = txt "/events" then serveSse stamp s.pushed
  else sendError stamp 404 (literal "Not Found") (encode notFoundPage)

/-! ## The client -/

/-- What an answer is about. -/
inductive Content
  | page (html : Text)
  | json (value : Json Number)
  | events (messages : List Message)
  | notFound

/-- The client, which goes by the status and by the content type. -/
def readContent (r : Receipt) : Option Content :=
  if r.status = 404 then some .notFound
  else
    match r.fields.find? fun f => f.1.map Char.toLower = txt "content-type" with
    | some (_, contentType) =>
        if contentType = txt "text/html; charset=utf-8" then (decode r.body).map .page
        else if contentType = txt "application/json" then
          ((decode r.body).bind (loads numberFormat)).map .json
        else if contentType = txt "text/event-stream" then (readStream r.body).map .events
        else none
    | none => none

/-- What a path stands for, after some entries were logged. -/
def meant (page : Text) (r : Readings) (logged : List LogEntry)
    (pushed : List (SseEvent LogEntry (Json Number))) (path : Text) : Content :=
  if path = txt "/" then .page page
  else if path = txt "/api/metrics" then .json r.snapshot
  else if path = txt "/api/logs" then
    .json (.array ((logged.rtake 100).reverse.map LogEntry.toDict))
  else if path = txt "/events" then .events (pushed.map sseMessage)
  else .notFound

/-! ## The answers -/

theorem delimited_serveWhole (stamp : Stamp) (contentType : Value) (body : Bytes) :
    (serveWhole stamp contentType body).Delimited := by
  have hfind : (((serveWhole stamp contentType body).fields.map Field.seen).find?
      fun f => f.1.map Char.toLower = txt "content-length") =
      some (txt "Content-Length", Nat.toDigits 10 body.length) := rfl
  intro n hn
  rw [contentLength, hfind, Option.bind_some, readNat_toDigits, Option.some.injEq] at hn
  exact hn.symm

theorem delimited_serveSse (stamp : Stamp) (pushed : List (SseEvent LogEntry (Json Number))) :
    (serveSse stamp pushed).Delimited := by
  have hnone : contentLength ((serveSse stamp pushed).fields.map Field.seen) = none := rfl
  intro n hn
  rw [hnone] at hn
  cases hn

theorem delimited_sendError (stamp : Stamp) (status : ℕ) (reason : Value) (body : Bytes) :
    (sendError stamp status reason body).Delimited := by
  have hfind : (((sendError stamp status reason body).fields.map Field.seen).find?
      fun f => f.1.map Char.toLower = txt "content-length") =
      some (txt "Content-Length", Nat.toDigits 10 body.length) := rfl
  intro n hn
  rw [contentLength, hfind, Option.bind_some, readNat_toDigits, Option.some.injEq] at hn
  exact hn.symm

/-- Every answer reaches the client as it was sent. -/
theorem readReply_doGet (stamp : Stamp) (s : Served) (path : Text) :
    readReply (doGet stamp s path).write = some (doGet stamp s path).seen := by
  refine readReply_write ?_
  rw [doGet]
  split
  · exact delimited_serveWhole stamp _ _
  · split
    · exact delimited_serveWhole stamp _ _
    · split
      · exact delimited_serveWhole stamp _ _
      · split
        · exact delimited_serveSse stamp _
        · exact delimited_sendError stamp _ _ _

theorem readContent_serveHtml (stamp : Stamp) (page : Text) :
    readContent (serveHtml stamp page).seen = some (.page page) := by
  have hcontent : readContent (serveHtml stamp page).seen =
      (decode (encode page)).map .page := rfl
  rw [hcontent, decode_encode, Option.map_some]

/-- A JSON document is read back, whatever its strings hold. -/
theorem readContent_json (stamp : Stamp) (v : Json Number) :
    readContent (serveWhole stamp (literal "application/json")
      (encode (dumps numberFormat v))).seen = some (.json v) := by
  have hcontent : readContent (serveWhole stamp (literal "application/json")
      (encode (dumps numberFormat v))).seen =
      ((decode (encode (dumps numberFormat v))).bind (loads numberFormat)).map .json := rfl
  rw [hcontent, decode_encode, Option.bind_some, loads_dumps, Option.map_some]

theorem readContent_serveSse (stamp : Stamp) (pushed : List (SseEvent LogEntry (Json Number))) :
    readContent (serveSse stamp pushed).seen = some (.events (pushed.map sseMessage)) := by
  have hcontent : readContent (serveSse stamp pushed).seen =
      (readStream (streamBytes pushed)).map .events := rfl
  rw [hcontent, readStream_streamBytes, Option.map_some]

/-- The newest 100 entries, newest first; the buffer holds 200. -/
theorem getRecentLogs_buffered (logged : List LogEntry) :
    getRecentLogs 100 (buffered logged) = (logged.rtake 100).reverse := by
  have hsize : 100 ≤ ringBufferSize := by
    simp [ringBufferSize]
  have htake : (logged.rtake ringBufferSize).rtake 100 = logged.rtake 100 := by
    simp only [List.rtake_eq_reverse_take_reverse, List.reverse_reverse, List.take_take,
      Nat.min_eq_left hsize]
  rw [getRecentLogs, if_neg (by omega), buffered, BoundedDeque.empty_appendAll_items, htake]

/-- **The dashboard answers.**  Whatever was logged and counted, and whatever happens while the
connection is open: the client gets what the path stands for. -/
theorem dashboard_answers (stamp : Stamp) (page : Text) (r : Readings) (logged : List LogEntry)
    (run : List (LogStream.Event LogEntry (Json Number))) (path : Text) :
    (readReply (doGet stamp ⟨page, r, buffered logged, run⟩ path).write).bind readContent =
      some (meant page r logged (pushes (.opened (buffered logged)) run).flatten path) := by
  rw [readReply_doGet, Option.bind_some, doGet, meant]
  split
  · exact readContent_serveHtml stamp page
  · split
    · exact readContent_json stamp r.snapshot
    · split
      · rw [serveLogs, readContent_json, getRecentLogs_buffered]
      · split
        · exact readContent_serveSse stamp _
        · rfl

end Proxy
end NetworkProxy
