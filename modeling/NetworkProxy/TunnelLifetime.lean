import NetworkProxy.Tunnel
import Mathlib.Algebra.Order.Field.Rat
import Mathlib.Data.Rat.Defs

/-!
# How long a tunnel lives

The tunnel with the time its two joins take.  A `join(timeout=120)` returns when its relay
thread is finished, or when 120 seconds are over.

* `TimedTunnel.run_untimed`: a run of the timed tunnel is a run of the tunnel.
* `waits_for_relays`: the handler goes past a join only when its direction has ended or the time
  is over.
-/

namespace NetworkProxy
namespace Proxy

open Py

/-- The timeout of the joins, in seconds. -/
def joinTimeout : ℚ := 120

/-- A tunnel, with the seconds spent in `t1.join` and in `t2.join`. -/
structure TimedTunnel where
  tunnel : Tunnel
  firstJoin : ℚ
  secondJoin : ℚ

namespace TimedTunnel

def start (fromClient fromOrigin : Bytes) : TimedTunnel :=
  ⟨Tunnel.start fromClient fromOrigin, 0, 0⟩

/-- The thread of the pump is finished, so that a join on it returns. -/
def ThreadFinished (s : Pump UInt8) : Prop := ∃ ending rest, s.phase = .finished ending rest

/-- The loop of the pump is over, on EOF or on an error. -/
def Ended (s : Pump UInt8) : Prop := s.phase.ending?.isSome

/-- The handler is behind the first join. -/
def PastFirst (t : Tunnel) : Prop := t.handler ≠ .joinFirst

/-- The handler is behind both joins: `tunnel` has returned. -/
def PastBoth (t : Tunnel) : Prop := t.handler ≠ .joinFirst ∧ t.handler ≠ .joinSecond

/-- One step: of a relay thread, of the clock during a join, or of the handler. -/
inductive Step (s : TimedTunnel) : TimedTunnel → Prop
  | toOrigin {pump : Pump UInt8}
      (h : Pump.Step Http.bufferSize s.tunnel.ClientOpen s.tunnel.ServerOpen s.tunnel.toOrigin
        pump) :
      Step s { s with tunnel := { s.tunnel with toOrigin := pump } }
  | toClient {pump : Pump UInt8}
      (h : Pump.Step Http.bufferSize s.tunnel.ServerOpen s.tunnel.ClientOpen s.tunnel.toClient
        pump) :
      Step s { s with tunnel := { s.tunnel with toClient := pump } }
  | waitFirst {seconds : ℚ} (hpos : 0 < seconds) (hthread : s.tunnel.handler = .joinFirst) :
      Step s { s with firstJoin := s.firstJoin + seconds }
  | waitSecond {seconds : ℚ} (hpos : 0 < seconds) (hthread : s.tunnel.handler = .joinSecond) :
      Step s { s with secondJoin := s.secondJoin + seconds }
  | joinFirst (hthread : s.tunnel.handler = .joinFirst)
      (hjoin : ThreadFinished s.tunnel.toOrigin ∨ joinTimeout ≤ s.firstJoin) :
      Step s { s with tunnel := { s.tunnel with handler := .joinSecond } }
  | joinSecond (hthread : s.tunnel.handler = .joinSecond)
      (hjoin : ThreadFinished s.tunnel.toClient ∨ joinTimeout ≤ s.secondJoin) :
      Step s { s with tunnel := { s.tunnel with handler := .returned } }
  | closeServer (hthread : s.tunnel.handler = .returned) :
      Step s { s with tunnel := { s.tunnel with handler := .serverClosed } }
  | closeClient (hthread : s.tunnel.handler = .serverClosed) :
      Step s { s with tunnel := { s.tunnel with handler := .clientClosed } }

/-- A run, in any order of the threads and of the clock. -/
abbrev Run : TimedTunnel → TimedTunnel → Prop := Relation.ReflTransGen Step

variable {fromClient fromOrigin : Bytes} {s s' : TimedTunnel}

/-- A timed step is a step of the tunnel, or time passes. -/
theorem step_untimed (h : Step s s') :
    Tunnel.Step s.tunnel s'.tunnel ∨ s'.tunnel = s.tunnel := by
  have hnext {thread : HandlerThread} (hthread : s.tunnel.handler.next = some thread) :
      Tunnel.Step s.tunnel { s.tunnel with handler := thread } := .handler hthread
  cases h with
  | toOrigin hpump => exact Or.inl (.toOrigin hpump)
  | toClient hpump => exact Or.inl (.toClient hpump)
  | waitFirst hpos hthread => exact Or.inr rfl
  | waitSecond hpos hthread => exact Or.inr rfl
  | joinFirst hthread hjoin => exact Or.inl (hnext (by rw [hthread]; rfl))
  | joinSecond hthread hjoin => exact Or.inl (hnext (by rw [hthread]; rfl))
  | closeServer hthread => exact Or.inl (hnext (by rw [hthread]; rfl))
  | closeClient hthread => exact Or.inl (hnext (by rw [hthread]; rfl))

/-- A timed run is a run of the tunnel, so that both directions carry their streams. -/
theorem run_untimed (h : Run s s') : Tunnel.Run s.tunnel s'.tunnel := by
  induction h with
  | refl => exact .refl
  | tail _ hstep ih =>
      rcases step_untimed hstep with hstep | hsame
      · exact ih.tail hstep
      · rwa [hsame]

theorem carries_of_run (h : Run (start fromClient fromOrigin) s) :
    s.tunnel.Carries fromClient fromOrigin :=
  Tunnel.carries_run (run_untimed h)

/-! ## What the joins wait for -/

theorem ThreadFinished.ended {pump : Pump UInt8} (h : ThreadFinished pump) : Ended pump := by
  obtain ⟨ending, rest, hphase⟩ := h
  rw [Ended, hphase]
  rfl

/-- A loop that is over stays over. -/
theorem Ended.step {sourceOpen sinkOpen : Prop} {pump pump' : Pump UInt8} (h : Ended pump)
    (hstep : Pump.Step Http.bufferSize sourceOpen sinkOpen pump pump') : Ended pump' := by
  cases hstep with
  | read hopen hne hsize => cases h
  | readEnd hopen => rfl
  | readError => rfl
  | write hopen hne => cases h
  | writeDone => cases h
  | writeError hne => rfl
  | finish => rfl

/-- What is behind each join: its direction has ended, or its time is over. -/
structure Waited (s : TimedTunnel) : Prop where
  first : PastFirst s.tunnel → Ended s.tunnel.toOrigin ∨ joinTimeout ≤ s.firstJoin
  second : PastBoth s.tunnel → Ended s.tunnel.toClient ∨ joinTimeout ≤ s.secondJoin

theorem waited_start (fromClient fromOrigin : Bytes) : Waited (start fromClient fromOrigin) :=
  ⟨fun h => absurd rfl h, fun h => absurd rfl h.1⟩

theorem Waited.step (h : Waited s) (hstep : Step s s') : Waited s' := by
  cases hstep with
  | toOrigin hpump => exact ⟨fun hpast => (h.first hpast).imp_left (·.step hpump), h.second⟩
  | toClient hpump => exact ⟨h.first, fun hpast => (h.second hpast).imp_left (·.step hpump)⟩
  | waitFirst hpos hthread =>
      exact ⟨fun hpast => absurd hthread hpast, h.second⟩
  | waitSecond hpos hthread =>
      exact ⟨h.first, fun hpast => absurd hthread hpast.2⟩
  | joinFirst hthread hjoin =>
      exact ⟨fun _ => hjoin.imp_left ThreadFinished.ended, fun hpast => absurd rfl hpast.2⟩
  | joinSecond hthread hjoin =>
      refine ⟨fun _ => h.first ?_, fun _ => hjoin.imp_left ThreadFinished.ended⟩
      rw [PastFirst, hthread]
      decide
  | closeServer hthread =>
      have hpast : PastBoth s.tunnel := by
        rw [PastBoth, hthread]
        decide
      exact ⟨fun _ => h.first hpast.1, fun _ => h.second hpast⟩
  | closeClient hthread =>
      have hpast : PastBoth s.tunnel := by
        rw [PastBoth, hthread]
        decide
      exact ⟨fun _ => h.first hpast.1, fun _ => h.second hpast⟩

theorem waited_run (h : Run (start fromClient fromOrigin) s) : Waited s := by
  induction h with
  | refl => exact waited_start fromClient fromOrigin
  | tail _ hstep ih => exact ih.step hstep

end TimedTunnel

open TimedTunnel

/-- **The joins.**  In every state that a tunnel can reach, whatever the calls on the sockets
return, whatever the order of the steps and however long they take: `tunnel` has returned, and a
socket was closed, only when each direction has ended on EOF or on an error, or the join that
waits for it has taken its 120 seconds. -/
theorem waits_for_relays {fromClient fromOrigin : Bytes} {s : TimedTunnel}
    (hrun : TimedTunnel.Run (start fromClient fromOrigin) s) (hpast : PastBoth s.tunnel) :
    (Ended s.tunnel.toOrigin ∨ joinTimeout ≤ s.firstJoin) ∧
      (Ended s.tunnel.toClient ∨ joinTimeout ≤ s.secondJoin) :=
  ⟨(waited_run hrun).first hpast.1, (waited_run hrun).second hpast⟩

/-- A tunnel whose relay threads have not come to read anything while both joins took their time. -/
def outlivedJoins (fromClient fromOrigin : Bytes) (thread : HandlerThread) : TimedTunnel :=
  ⟨⟨Pump.start fromClient, Pump.start fromOrigin, thread⟩, joinTimeout, joinTimeout⟩

/-- Both joins give up on a tunnel that is still at work. -/
theorem run_outlivedJoins (fromClient fromOrigin : Bytes) :
    TimedTunnel.Run (start fromClient fromOrigin)
      (outlivedJoins fromClient fromOrigin .returned) := by
  have hfirst : TimedTunnel.Step (start fromClient fromOrigin)
      ⟨Tunnel.start fromClient fromOrigin, 0 + joinTimeout, 0⟩ :=
    .waitFirst (by decide) rfl
  have hsecond (tunnel : Tunnel) (hthread : tunnel.handler = .joinSecond) :
      TimedTunnel.Step ⟨tunnel, joinTimeout, 0⟩ ⟨tunnel, joinTimeout, 0 + joinTimeout⟩ :=
    .waitSecond (by decide) hthread
  rw [zero_add] at hfirst
  simp only [zero_add] at hsecond
  refine .head hfirst (.head (.joinFirst rfl (Or.inr le_rfl)) ?_)
  exact .head (hsecond _ rfl) (.single (.joinSecond rfl (Or.inr le_rfl)))

theorem waits_for_relays_outlivedJoins :
    (Ended (outlivedJoins [1] [2] .returned).tunnel.toOrigin ∨
        joinTimeout ≤ (outlivedJoins [1] [2] .returned).firstJoin) ∧
      (Ended (outlivedJoins [1] [2] .returned).tunnel.toClient ∨
        joinTimeout ≤ (outlivedJoins [1] [2] .returned).secondJoin) :=
  waits_for_relays (run_outlivedJoins [1] [2]) ⟨nofun, nofun⟩

/-- The handler closes both sockets of a tunnel in which both directions could still read. -/
theorem live_tunnel_is_cut :
    ∃ s, TimedTunnel.Run (start [1] [2]) s ∧ s.tunnel.handler = .clientClosed ∧
      s.tunnel.toOrigin.pending = [1] ∧ s.tunnel.toClient.pending = [2] ∧
      ¬ (Ended s.tunnel.toOrigin ∧ Ended s.tunnel.toClient) := by
  refine ⟨outlivedJoins [1] [2] .clientClosed, ?_, rfl, rfl, rfl, nofun⟩
  exact ((run_outlivedJoins [1] [2]).tail (.closeServer rfl)).tail (.closeClient rfl)

end Proxy
end NetworkProxy
