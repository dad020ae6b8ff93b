import NetworkProxy.Interaction
import NetworkProxy.LruCache
import NetworkProxy.Outbound

/-!
# The calls of the proxy

What the handler and the forwarder call: sockets, cache, rate limiter, filter,
password verification, clocks, metrics and log.  Each call is answered, or raises an
exception, as the environment decides.
-/

namespace NetworkProxy
namespace Proxy

open Py Http Cache

/-- An exception, by the classes the code distinguishes, with the text of `str(exc)`. -/
inductive PyExc
  | osError (message : Text)
  /-- An `Exception` that is not an `OSError`. -/
  | exception (message : Text)
  /-- A `BaseException` that is not an `Exception`. -/
  | baseException (message : Text)

namespace PyExc

def isOSError : PyExc → Bool
  | osError _ => true
  | _ => false

def isException : PyExc → Bool
  | baseException _ => false
  | _ => true

def message : PyExc → Text
  | osError message => message
  | exception message => message
  | baseException message => message

end PyExc

/-- The counters of `metrics`. -/
inductive Metric
  | total
  | allowed
  | blocked
  | cached
  | rateLimited
  | errors
deriving DecidableEq

/-- The structured fields of a log entry that the handler and the forwarder fill in. -/
structure LogFields where
  requestId : Option Text := none
  clientIp : Option Text := none
  method : Option Text := none
  host : Option Text := none
  port : Option ℤ := none
  action : Option Text := none
  statusCode : Option ℤ := none
  /-- `latency_ms`, in tenths of a millisecond. -/
  latencyTenths : Option ℤ := none
  bytesTransferred : Option ℕ := none
deriving DecidableEq

/-- `cache_key = (method, host, port, path)`. -/
structure CacheKey where
  method : Text
  host : Text
  port : ℤ
  path : Option Text
deriving DecidableEq

/-- The calls. -/
inductive Op
  | recvHttpRequest
  | uuid4
  | sendClient (data : Bytes)
  | closeClient
  | countMetric (metric : Metric)
  | recordHost (host : Text)
  | logEvent (message : Text) (fields : LogFields)
  | isAllowed (ip : Text)
  | getRetryAfter (ip : Text)
  | verifyPassword (plain stored : Text)
  | isBlocked (host : Text)
  | cacheGet (key : CacheKey)
  | cachePut (key : CacheKey) (value : Entry)
  | newSocket
  | setTimeout (seconds : ℕ)
  | connect (host : Text) (port : ℤ)
  | sendServer (data : Bytes)
  | recvServer (size : ℕ)
  | closeServer
  | tunnel
  | monotonic
  | time

/-- The answers. -/
abbrev Ans : Op → Type
  | .recvHttpRequest => Bytes
  | .uuid4 => Text
  | .isAllowed _ => Bool
  | .getRetryAfter _ => ℤ
  | .verifyPassword _ _ => Bool
  | .isBlocked _ => Bool
  | .cacheGet _ => Option Entry
  | .recvServer _ => Bytes
  | .monotonic => ℚ
  | .time => ℚ
  | _ => Unit

/-- Notes of an execution: the result of `_check_auth`. -/
inductive Note
  | authChecked (ok : Bool)

abbrev Program (α : Type) := Prog Op Ans Note PyExc α

abbrev Event := TraceEvent Op Ans Note PyExc

abbrev Trace := List Event

/-- A call. -/
abbrev perform (op : Op) : Program (Ans op) := Prog.perform op

/-- `except OSError: h()`. -/
def onOSError {α : Type} (h : Program α) (e : PyExc) : Program α :=
  if e.isOSError then h else .raise e

/-- `except Exception: pass`. -/
def swallow (e : PyExc) : Program Unit :=
  if e.isException then .ret () else .raise e

/-- The response of the proxy when the origin cannot be reached. -/
def badGateway : Bytes :=
  ascii "HTTP/1.1 502 Bad Gateway\r\nConnection: close\r\nContent-Length: 0\r\n\r\n"

/-- The 502 response, with its count. -/
def sendBadGateway : Program Unit := do
  perform (.sendClient badGateway)
  perform (.countMetric .errors)

end Proxy
end NetworkProxy
