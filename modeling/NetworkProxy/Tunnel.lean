import NetworkProxy.Parser
import NetworkProxy.Pump

/-!
# The tunnel

`tunnel` of `forwarder.py`: two relay threads, each a pump between the sockets of the client
and of the origin, and the thread of the handler, which joins them with a timeout and then
closes the sockets.

* `carries_run`: whatever the order of the steps and whichever calls fail, both directions
  carry their streams.
* `run_to_end`: both directions can carry their streams to the end.
-/

namespace NetworkProxy
namespace Proxy

open Py

/-- Where the thread of the handler stands: in the first or the second `join` of `tunnel`,
behind it, or after a socket was closed. -/
inductive HandlerThread
  | joinFirst
  | joinSecond
  | returned
  | serverClosed
  | clientClosed
deriving DecidableEq

/-- The next step of the thread.  A `join` returns when its timeout is over, also while the
relay thread is at work. -/
def HandlerThread.next : HandlerThread → Option HandlerThread
  | joinFirst => some joinSecond
  | joinSecond => some returned
  | returned => some serverClosed
  | serverClosed => some clientClosed
  | clientClosed => none

/-- The two relay threads, the first from the client to the origin, and the thread of the
handler. -/
structure Tunnel where
  toOrigin : Pump UInt8
  toClient : Pump UInt8
  handler : HandlerThread

namespace Tunnel

/-- `server_sock` is open. -/
def ServerOpen (t : Tunnel) : Prop :=
  t.handler ≠ .serverClosed ∧ t.handler ≠ .clientClosed

/-- `client_sock` is open. -/
def ClientOpen (t : Tunnel) : Prop := t.handler ≠ .clientClosed

/-- A tunnel that starts, with what the client and the origin have still to send. -/
def start (fromClient fromOrigin : Bytes) : Tunnel where
  toOrigin := Pump.start fromClient
  toClient := Pump.start fromOrigin
  handler := .joinFirst

/-- One step of one of the three threads. -/
inductive Step (t : Tunnel) : Tunnel → Prop
  | toOrigin {s : Pump UInt8}
      (h : Pump.Step Http.bufferSize t.ClientOpen t.ServerOpen t.toOrigin s) :
      Step t { t with toOrigin := s }
  | toClient {s : Pump UInt8}
      (h : Pump.Step Http.bufferSize t.ServerOpen t.ClientOpen t.toClient s) :
      Step t { t with toClient := s }
  | handler {thread : HandlerThread} (h : t.handler.next = some thread) :
      Step t { t with handler := thread }

/-- A run, in any order of the threads. -/
abbrev Run : Tunnel → Tunnel → Prop := Relation.ReflTransGen Step

/-- Both directions carry their streams. -/
structure Carries (fromClient fromOrigin : Bytes) (t : Tunnel) : Prop where
  toOrigin : t.toOrigin.Carries fromClient
  toClient : t.toClient.Carries fromOrigin

variable {fromClient fromOrigin : Bytes} {t t' : Tunnel}

theorem carries_step (h : t.Carries fromClient fromOrigin) (hstep : Step t t') :
    t'.Carries fromClient fromOrigin := by
  cases hstep with
  | toOrigin hpump => exact ⟨Pump.carries_step h.toOrigin hpump, h.toClient⟩
  | toClient hpump => exact ⟨h.toOrigin, Pump.carries_step h.toClient hpump⟩
  | handler hnext => exact ⟨h.toOrigin, h.toClient⟩

/-- Every run carries both streams. -/
theorem carries_run (hrun : Run (start fromClient fromOrigin) t) :
    t.Carries fromClient fromOrigin := by
  induction hrun with
  | refl => exact ⟨Pump.carries_start fromClient, Pump.carries_start fromOrigin⟩
  | tail _ hstep ih => exact carries_step ih hstep

/-- A run of the first relay thread alone. -/
theorem run_toOrigin {s s' : Pump UInt8} (other : Pump UInt8) (thread : HandlerThread)
    (h : Relation.ReflTransGen (Pump.Step Http.bufferSize (ClientOpen ⟨s, other, thread⟩)
      (ServerOpen ⟨s, other, thread⟩)) s s') : Run ⟨s, other, thread⟩ ⟨s', other, thread⟩ := by
  induction h with
  | refl => exact .refl
  | tail _ hstep ih => exact ih.tail (.toOrigin hstep)

/-- A run of the second relay thread alone. -/
theorem run_toClient {s s' : Pump UInt8} (other : Pump UInt8) (thread : HandlerThread)
    (h : Relation.ReflTransGen (Pump.Step Http.bufferSize (ServerOpen ⟨other, s, thread⟩)
      (ClientOpen ⟨other, s, thread⟩)) s s') : Run ⟨other, s, thread⟩ ⟨other, s', thread⟩ := by
  induction h with
  | refl => exact .refl
  | tail _ hstep ih => exact ih.tail (.toClient hstep)

/-- Both directions can end on EOF, before a `join` gives up. -/
theorem run_to_end (fromClient fromOrigin : Bytes) :
    Run (start fromClient fromOrigin)
      ⟨⟨[], .closing .eof [], fromClient⟩, ⟨[], .closing .eof [], fromOrigin⟩, .joinFirst⟩ := by
  have hpos : 0 < Http.bufferSize := by decide
  have hserver (s s' : Pump UInt8) : ServerOpen ⟨s, s', .joinFirst⟩ := ⟨nofun, nofun⟩
  have hclient (s s' : Pump UInt8) : ClientOpen ⟨s, s', .joinFirst⟩ := nofun
  have hfirst := run_toOrigin (Pump.start fromOrigin) .joinFirst
    (Pump.run_to_end hpos (hclient _ _) (hserver _ _) fromClient [])
  have hsecond := run_toClient ⟨[], .closing .eof [], fromClient⟩ .joinFirst
    (Pump.run_to_end hpos (hserver _ _) (hclient _ _) fromOrigin [])
  exact hfirst.trans hsecond

end Tunnel
end Proxy
end NetworkProxy
