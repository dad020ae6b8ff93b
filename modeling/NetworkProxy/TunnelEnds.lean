import NetworkProxy.Progress
import NetworkProxy.TunnelLifetime

/-!
# The end of a tunnel

Every step of a thread of the tunnel, the waiting of the joins apart, leaves less to do.

* `Pump.work_step`, `Pump.exists_step`: a pump cannot go on forever, and not stand still before
  its end.
* `every_tunnel_ends`: neither can a tunnel, and at its end both relay threads are finished and
  both sockets closed.
-/

namespace NetworkProxy

universe u

namespace Pump

variable {α : Type u} {size : ℕ} {sourceOpen sinkOpen : Prop} {s s' : Pump α}

/-- The steps that a pump can still make, at most. -/
def work (s : Pump α) : ℕ :=
  3 * s.pending.length +
    match s.phase with
    | .reading => 2
    | .writing rest => rest.length + 3
    | .closing _ _ => 1
    | .finished _ _ => 0

/-- A step leaves less to do. -/
theorem work_step (h : Step size sourceOpen sinkOpen s s') : s'.work < s.work := by
  cases h with
  | read hopen hne hsize =>
      have hpos := List.length_pos_of_ne_nil hne
      simp only [work, List.length_append]
      omega
  | write hopen hne =>
      have hpos := List.length_pos_of_ne_nil hne
      simp only [work, List.length_append]
      omega
  | _ => simp [work]

/-- Before the end there is a step, whatever is open: a call can fail. -/
theorem exists_step (h : ∀ ending rest, s.phase ≠ .finished ending rest) :
    ∃ s', Step size sourceOpen sinkOpen s s' := by
  obtain ⟨pending, phase, delivered⟩ := s
  cases phase with
  | reading => exact ⟨_, .readError⟩
  | writing rest =>
      by_cases hrest : rest = []
      · subst hrest
        exact ⟨_, .writeDone⟩
      · exact ⟨_, .writeError hrest⟩
  | closing ending rest => exact ⟨_, .finish⟩
  | finished ending rest => exact absurd rfl (h ending rest)

/-- At the end there is none. -/
theorem not_step_of_finished {ending : Ending} {rest : List α}
    (h : s.phase = .finished ending rest) : ¬ Step size sourceOpen sinkOpen s s' := by
  intro hstep
  cases hstep <;> cases h

/-- With both ends closed nothing more is delivered. -/
theorem delivered_of_closed (hsink : ¬ sinkOpen) (h : Step size sourceOpen sinkOpen s s') :
    s'.delivered = s.delivered := by
  cases h with
  | write hopen hne => exact absurd hopen hsink
  | _ => rfl

end Pump

namespace Proxy

open Py

/-- The steps that the thread of the handler can still make. -/
def HandlerThread.work : HandlerThread → ℕ
  | joinFirst => 4
  | joinSecond => 3
  | returned => 2
  | serverClosed => 1
  | clientClosed => 0

namespace TimedTunnel

/-- The steps that the three threads can still make, at most. -/
def work (s : TimedTunnel) : ℕ :=
  s.tunnel.toOrigin.work + s.tunnel.toClient.work + s.tunnel.handler.work

/-- A step of one of the threads, not only of the clock. -/
def Works (s s' : TimedTunnel) : Prop := Step s s' ∧ s'.tunnel ≠ s.tunnel

/-- The tunnel is over. -/
structure Over (s : TimedTunnel) : Prop where
  toOrigin : ThreadFinished s.tunnel.toOrigin
  toClient : ThreadFinished s.tunnel.toClient
  closed : s.tunnel.handler = .clientClosed

variable {fromClient fromOrigin : Bytes} {s s' : TimedTunnel}

/-- A step of a thread leaves less to do; one of the clock leaves the threads. -/
theorem work_step (h : Step s s') : s'.work < s.work ∨ s'.tunnel = s.tunnel := by
  cases h with
  | toOrigin hpump =>
      have hless := Pump.work_step hpump
      left
      simp only [work]
      omega
  | toClient hpump =>
      have hless := Pump.work_step hpump
      left
      simp only [work]
      omega
  | waitFirst hpos hthread => exact Or.inr rfl
  | waitSecond hpos hthread => exact Or.inr rfl
  | joinFirst hthread hjoin => simp [work, hthread, HandlerThread.work]
  | joinSecond hthread hjoin => simp [work, hthread, HandlerThread.work]
  | closeServer hthread => simp [work, hthread, HandlerThread.work]
  | closeClient hthread => simp [work, hthread, HandlerThread.work]

theorem Works.work_lt (h : Works s s') : s'.work < s.work :=
  (work_step h.1).resolve_right h.2

theorem ThreadFinished.not_step {pump pump' : Pump UInt8} {sourceOpen sinkOpen : Prop}
    (h : ThreadFinished pump) : ¬ Pump.Step Http.bufferSize sourceOpen sinkOpen pump pump' := by
  obtain ⟨ending, rest, hphase⟩ := h
  exact Pump.not_step_of_finished hphase

/-- A tunnel goes on exactly until it is over. -/
theorem exists_works_iff : (∃ s', Works s s') ↔ ¬ Over s := by
  constructor
  · rintro ⟨s', hstep, hne⟩ ⟨horigin, hclient, hclosed⟩
    cases hstep with
    | toOrigin hpump => exact horigin.not_step hpump
    | toClient hpump => exact hclient.not_step hpump
    | waitFirst hpos hthread => exact hne rfl
    | waitSecond hpos hthread => exact hne rfl
    | joinFirst hthread hjoin => simp [hclosed] at hthread
    | joinSecond hthread hjoin => simp [hclosed] at hthread
    | closeServer hthread => simp [hclosed] at hthread
    | closeClient hthread => simp [hclosed] at hthread
  · intro hover
    have hworks {s' : TimedTunnel} (hstep : Step s s') (hless : s'.work < s.work) :
        ∃ s', Works s s' := by
      refine ⟨s', hstep, fun hsame => ?_⟩
      rw [work, work, hsame] at hless
      exact Nat.lt_irrefl _ hless
    by_cases horigin : ThreadFinished s.tunnel.toOrigin
    · by_cases hclient : ThreadFinished s.tunnel.toClient
      · cases hthread : s.tunnel.handler with
        | joinFirst =>
            exact hworks (.joinFirst hthread (Or.inl horigin)) (by
              simp [work, hthread, HandlerThread.work])
        | joinSecond =>
            exact hworks (.joinSecond hthread (Or.inl hclient)) (by
              simp [work, hthread, HandlerThread.work])
        | returned =>
            exact hworks (.closeServer hthread) (by simp [work, hthread, HandlerThread.work])
        | serverClosed =>
            exact hworks (.closeClient hthread) (by simp [work, hthread, HandlerThread.work])
        | clientClosed => exact absurd ⟨horigin, hclient, hthread⟩ hover
      · obtain ⟨pump, hpump⟩ := Pump.exists_step (s := s.tunnel.toClient)
          fun ending rest hphase => hclient ⟨ending, rest, hphase⟩
        have hless := Pump.work_step hpump
        exact hworks (.toClient hpump) (by simp only [work]; omega)
    · obtain ⟨pump, hpump⟩ := Pump.exists_step (s := s.tunnel.toOrigin)
        fun ending rest hphase => horigin ⟨ending, rest, hphase⟩
      have hless := Pump.work_step hpump
      exact hworks (.toOrigin hpump) (by simp only [work]; omega)

/-! ## Runs -/

/-- A step of the clock only. -/
def Waits (s s' : TimedTunnel) : Prop := Step s s' ∧ s'.tunnel = s.tunnel

theorem works_or_waits (h : Step s s') : Works s s' ∨ Waits s s' := by
  by_cases hsame : s'.tunnel = s.tunnel
  · exact Or.inr ⟨h, hsame⟩
  · exact Or.inl ⟨h, hsame⟩

/-- The threads use up their work. -/
theorem usesUp_work : UsesUp (fun _ => True) Works Waits work := by
  refine ⟨fun _ _ _ hstep => ⟨trivial, hstep.work_lt⟩, fun s s' _ hstep => ⟨trivial, ?_⟩⟩
  rw [work, work, hstep.2]

theorem run_of_took {k : ℕ} (h : Took Works Waits k s s') : Run s s' :=
  h.run (fun _ _ hstep => hstep.1) fun _ _ hstep => hstep.1

/-- From every state the threads come to their end. -/
theorem exists_over (s : TimedTunnel) : ∃ k s', Took Works Waits k s s' ∧ Over s' := by
  obtain ⟨k, s', htook, hrest⟩ := usesUp_work.exists_rest (s := s) trivial
  exact ⟨k, s', htook, by_contra fun hover => hrest (exists_works_iff.mpr hover)⟩

/-- Both sockets are closed, and this was delivered. -/
structure Closed (toOrigin toClient : Bytes) (s : TimedTunnel) : Prop where
  handler : s.tunnel.handler = .clientClosed
  toOrigin : s.tunnel.toOrigin.delivered = toOrigin
  toClient : s.tunnel.toClient.delivered = toClient

/-- What was delivered then stays what it is. -/
theorem Closed.step {toOrigin toClient : Bytes} (h : Closed toOrigin toClient s)
    (hstep : Step s s') : Closed toOrigin toClient s' := by
  obtain ⟨hclosed, horigin, hclient⟩ := h
  have hserverSock : ¬ s.tunnel.ServerOpen := fun hopen => hopen.2 hclosed
  have hclientSock : ¬ s.tunnel.ClientOpen := fun hopen => hopen hclosed
  cases hstep with
  | toOrigin hpump =>
      exact ⟨hclosed, (Pump.delivered_of_closed hserverSock hpump).trans horigin, hclient⟩
  | toClient hpump =>
      exact ⟨hclosed, horigin, (Pump.delivered_of_closed hclientSock hpump).trans hclient⟩
  | waitFirst hpos hthread => exact ⟨hclosed, horigin, hclient⟩
  | waitSecond hpos hthread => exact ⟨hclosed, horigin, hclient⟩
  | joinFirst hthread hjoin => simp [hclosed] at hthread
  | joinSecond hthread hjoin => simp [hclosed] at hthread
  | closeServer hthread => simp [hclosed] at hthread
  | closeClient hthread => simp [hclosed] at hthread

end TimedTunnel

open TimedTunnel

/-- **Every tunnel ends.**  Whatever the calls on the sockets return, and whatever the order of the
steps: the threads make at most three steps for each byte, and eight; they stand still only when
both relay threads are finished and both sockets closed, and get there from every state; each
direction has then delivered a prefix of its stream, the whole stream if it met the end of it; and
nothing is delivered once the sockets are closed. -/
theorem every_tunnel_ends {fromClient fromOrigin : Bytes} {k : ℕ} {s : TimedTunnel}
    (h : Took Works Waits k (TimedTunnel.start fromClient fromOrigin) s) :
    k ≤ 3 * (fromClient.length + fromOrigin.length) + 8 ∧
      ((∃ s', Works s s') ↔ ¬ Over s) ∧
      (∃ k' s', Took Works Waits k' s s' ∧ Over s') ∧
      (s.tunnel.toOrigin.delivered <+: fromClient ∧
        s.tunnel.toClient.delivered <+: fromOrigin ∧
        (s.tunnel.toOrigin.phase.ending? = some .eof →
          s.tunnel.toOrigin.delivered = fromClient) ∧
        (s.tunnel.toClient.phase.ending? = some .eof →
          s.tunnel.toClient.delivered = fromOrigin)) ∧
      (s.tunnel.handler = .clientClosed → ∀ k' s', Took Works Waits k' s s' →
        Closed s.tunnel.toOrigin.delivered s.tunnel.toClient.delivered s') := by
  have hcarries := carries_of_run (run_of_took h)
  refine ⟨?_, exists_works_iff, exists_over s, ⟨hcarries.toOrigin.delivered_prefix,
    hcarries.toClient.delivered_prefix, hcarries.toOrigin.delivered_eq,
    hcarries.toClient.delivered_eq⟩, fun hclosed k' s' htook => ?_⟩
  · have hwork : (TimedTunnel.start fromClient fromOrigin).work =
        3 * fromClient.length + 2 + (3 * fromOrigin.length + 2) + 4 := rfl
    have hle := usesUp_work.count_le h trivial
    omega
  · exact htook.invariant (fun _ _ hnow hstep => hnow.step hstep.1)
      (fun _ _ hnow hstep => hnow.step hstep.1) ⟨hclosed, rfl, rfl⟩

theorem every_tunnel_ends_outlivedJoins :
    ∃ k, Took Works Waits k (TimedTunnel.start [1] [2]) (outlivedJoins [1] [2] .returned) ∧
      k ≤ 14 := by
  obtain ⟨k, htook⟩ := Took.exists_of_run (fun _ _ => works_or_waits) (run_outlivedJoins [1] [2])
  exact ⟨k, htook, (every_tunnel_ends htook).1⟩

end Proxy
end NetworkProxy
