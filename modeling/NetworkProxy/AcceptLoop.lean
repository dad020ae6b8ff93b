import NetworkProxy.ThreadPool
import Mathlib.Logic.Relation

/-!
# The accept loop and its shutdown

`start_proxy` and `_graceful_shutdown` of `server.py`.  The main thread accepts connections and
submits them to the pool, under the lock of the pool; the signal handler runs in the main thread
too, between two of its steps, inside `accept` or inside `submit`.  The workers of the pool go on
meanwhile.

* `Server.Step`: what the main thread and the workers can do.
* `Server.Tracked`: where each accepted connection is, as long as no step goes wrong.
* `subperm_run`: in any run, no connection is handled twice.
* `drains_of_undisturbed`: when the loop ends with the shutdown, and every connection is handled.
* `shutdown_abandons`: an accept that fails, and a connection that waits.
-/

namespace NetworkProxy
namespace Proxy

universe u

/-- Where the main thread stands. -/
inductive MainThread (κ : Type u)
  /-- In `accept`. -/
  | accepting
  /-- Between `accept` and `submit`. -/
  | accepted (conn : κ)
  /-- In `submit`, before the connection is queued. -/
  | submitting (conn : κ)
  /-- In `submit`, behind it. -/
  | submitted
  /-- Behind the `break`. -/
  | left
  /-- In `_graceful_shutdown`, before the listening socket is closed. -/
  | closing
  /-- Before `shutdown` of the pool. -/
  | shuttingDown
  /-- In `shutdown`, which cancels what waits. -/
  | cancelling
  /-- In `shutdown`, which waits for the workers. -/
  | waiting
  /-- Behind `shutdown`: `sys.exit` has left the loop. -/
  | exited

/-- The process, with all connections that were accepted. -/
structure Server (κ : Type u) where
  main : MainThread κ
  listening : Bool
  signalled : Bool
  /-- `submit` holds `_shutdown_lock`, which is not reentrant. -/
  locked : Bool
  accepted : List κ
  pool : ThreadPool κ

/-- The steps. -/
inductive Action (κ : Type u)
  | accept (conn : κ)
  | lock
  | submit
  | unlock
  | acceptFails
  | signal
  | closeSocket
  | shutdown
  | cancel
  | cancelled
  | work
  | exit

namespace Server

variable {κ : Type u}

/-- At the start of the loop. -/
def start : Server κ := ⟨.accepting, true, false, false, [], .empty⟩

/-- The main thread runs code of `start_proxy`, or what comes behind it. -/
def Interruptible : MainThread κ → Prop
  | .accepting => True
  | .accepted _ => True
  | .submitting _ => True
  | .submitted => True
  | .left => True
  | _ => False

/-- One step.  Any `OSError` of `accept` ends the loop, whether the listening socket was closed or
not; and `shutdown` waits for the lock, also when its own thread holds it. -/
inductive Step (workers : ℕ) (s : Server κ) : Action κ → Server κ → Prop
  | accept {conn : κ} (hmain : s.main = .accepting) (hopen : s.listening = true) :
      Step workers s (.accept conn)
        { s with main := .accepted conn, accepted := conn :: s.accepted }
  | lock {conn : κ} (hmain : s.main = .accepted conn) :
      Step workers s .lock { s with main := .submitting conn, locked := true }
  | submit {conn : κ} (hmain : s.main = .submitting conn) :
      Step workers s .submit { s with main := .submitted, pool := s.pool.submit conn }
  | unlock (hmain : s.main = .submitted) :
      Step workers s .unlock { s with main := .accepting, locked := false }
  | acceptFails (hmain : s.main = .accepting) :
      Step workers s .acceptFails { s with main := .left }
  | signal (hmain : Interruptible s.main) (honce : s.signalled = false) :
      Step workers s .signal { s with main := .closing, signalled := true }
  | closeSocket (hmain : s.main = .closing) :
      Step workers s .closeSocket { s with main := .shuttingDown, listening := false }
  | shutdown (hmain : s.main = .shuttingDown) (hfree : s.locked = false) :
      Step workers s .shutdown { s with main := .cancelling }
  | cancel {pool : ThreadPool κ} (hmain : s.main = .cancelling)
      (hpool : ThreadPool.Cancel s.pool pool) : Step workers s .cancel { s with pool := pool }
  | cancelled (hmain : s.main = .cancelling) (hqueue : s.pool.queue = []) :
      Step workers s .cancelled { s with main := .waiting }
  | work {pool : ThreadPool κ} (hpool : ThreadPool.Step workers s.pool pool) :
      Step workers s .work { s with pool := pool }
  | exit (hmain : s.main = .waiting) (hidle : s.pool.running = []) :
      Step workers s .exit { s with main := .exited }

/-- A run, in any order of the steps. -/
abbrev Run (workers : ℕ) : Server κ → Server κ → Prop :=
  Relation.ReflTransGen fun s s' => ∃ action, Step workers s action s'

/-- The connection that is accepted and not yet queued. -/
def inHand : MainThread κ → List κ
  | .accepted conn => [conn]
  | .submitting conn => [conn]
  | _ => []

/-- A step that nothing disturbs: `accept` fails only on a closed socket, the signal does not
come between the accept of a connection and its place in the queue, and nothing waits when the pool
is shut down. -/
def Undisturbed (s : Server κ) : Action κ → Prop
  | .acceptFails => s.listening = false
  | .signal => inHand s.main = []
  | .shutdown => s.pool.queue = []
  | _ => True

/-- A run of undisturbed steps. -/
abbrev UndisturbedRun (workers : ℕ) : Server κ → Server κ → Prop :=
  Relation.ReflTransGen fun s s' => ∃ action, Step workers s action s' ∧ s.Undisturbed action

/-- The loop was left, by `break` or by `sys.exit`. -/
def LoopLeft (s : Server κ) : Prop := s.main = .left ∨ s.main = .exited

/-- The loop ends only with the shutdown, and when the shutdown is over, every connection that was
accepted has had its handler run to the end, once. -/
structure Drains (s : Server κ) : Prop where
  leaves : s.LoopLeft → s.listening = false
  drained : s.main = .exited → s.accepted.Perm s.pool.finished

/-! ## Where each connection is -/

/-- The listening socket is closed here. -/
def BehindClose : MainThread κ → Prop
  | .left => True
  | .shuttingDown => True
  | .cancelling => True
  | .waiting => True
  | .exited => True
  | _ => False

/-- Nothing waits any more here. -/
def BehindShutdown : MainThread κ → Prop
  | .cancelling => True
  | .waiting => True
  | .exited => True
  | _ => False

/-- What undisturbed steps keep: every connection is in the hand of the main thread or in the
pool, and none was cancelled. -/
structure Tracked (s : Server κ) : Prop where
  accepted : s.accepted.Perm (inHand s.main ++ s.pool.tasks)
  cancelled : s.pool.cancelled = []
  closed : BehindClose s.main → s.listening = false
  queue : BehindShutdown s.main → s.pool.queue = []
  idle : s.main = .exited → s.pool.running = []

theorem tracked_start : Tracked (start : Server κ) :=
  ⟨List.Perm.refl _, rfl, False.elim, False.elim, nofun⟩

variable {workers : ℕ} {s s' : Server κ} {action : Action κ}

theorem Tracked.step (h : Tracked s) (hstep : Step workers s action s')
    (hcalm : s.Undisturbed action) : Tracked s' := by
  obtain ⟨haccepted, hcancelled, hclosed, hqueue, hidle⟩ := h
  cases hstep with
  | accept hmain hopen =>
      rw [hmain] at haccepted
      exact ⟨haccepted.cons _, hcancelled, False.elim, False.elim, nofun⟩
  | lock hmain =>
      rw [hmain] at haccepted
      exact ⟨haccepted, hcancelled, False.elim, False.elim, nofun⟩
  | submit hmain =>
      rw [hmain] at haccepted
      refine ⟨haccepted.trans (ThreadPool.tasks_submit _ _).symm, hcancelled, False.elim,
        False.elim, nofun⟩
  | unlock hmain =>
      rw [hmain] at haccepted
      exact ⟨haccepted, hcancelled, False.elim, False.elim, nofun⟩
  | acceptFails hmain =>
      rw [hmain] at haccepted
      exact ⟨haccepted, hcancelled, fun _ => hcalm, False.elim, nofun⟩
  | signal hmain honce =>
      have hnone : inHand s.main = [] := hcalm
      rw [hnone] at haccepted
      exact ⟨haccepted, hcancelled, False.elim, False.elim, nofun⟩
  | closeSocket hmain =>
      rw [hmain] at haccepted
      exact ⟨haccepted, hcancelled, fun _ => rfl, False.elim, nofun⟩
  | shutdown hmain hfree =>
      rw [hmain] at haccepted hclosed
      exact ⟨haccepted, hcancelled, fun _ => hclosed trivial, fun _ => hcalm, nofun⟩
  | cancel hmain hpool =>
      rw [hmain] at hqueue
      exact absurd (hqueue trivial) (ThreadPool.cancel_cases hpool).1
  | cancelled hmain hempty =>
      rw [hmain] at haccepted hclosed
      exact ⟨haccepted, hcancelled, fun _ => hclosed trivial, fun _ => hempty, nofun⟩
  | work hpool =>
      obtain ⟨hsame, hkept⟩ := ThreadPool.cancelled_step hpool
      refine ⟨haccepted.trans ((ThreadPool.tasks_step hpool).symm.append_left _),
        hsame.trans hcancelled, hclosed, fun hbehind => hkept (hqueue hbehind), ?_⟩
      intro hexited
      have hbehind : BehindShutdown s.main := by
        rw [show s.main = .exited from hexited]
        exact trivial
      exact absurd hpool (ThreadPool.not_step_of_idle (hqueue hbehind) (hidle hexited))
  | exit hmain hnone =>
      rw [hmain] at haccepted hclosed hqueue
      exact ⟨haccepted, hcancelled, fun _ => hclosed trivial, fun _ => hqueue trivial,
        fun _ => hnone⟩

theorem tracked_run (hrun : UndisturbedRun workers start s) : Tracked s := by
  induction hrun with
  | refl => exact tracked_start
  | tail _ hstep ih =>
      obtain ⟨action, hstep, hcalm⟩ := hstep
      exact ih.step hstep hcalm

theorem subperm_step (hstep : Step workers s action s')
    (h : (inHand s.main ++ s.pool.tasks).Subperm s.accepted) :
    (inHand s'.main ++ s'.pool.tasks).Subperm s'.accepted := by
  cases hstep with
  | accept hmain hopen =>
      rw [hmain] at h
      exact (List.subperm_cons _).mpr h
  | lock hmain =>
      rw [hmain] at h
      exact h
  | submit hmain =>
      rw [hmain] at h
      exact (ThreadPool.tasks_submit _ _).subperm.trans h
  | unlock hmain =>
      rw [hmain] at h
      exact h
  | acceptFails hmain =>
      rw [hmain] at h
      exact h
  | signal hmain honce => exact (List.sublist_append_right _ _).subperm.trans h
  | closeSocket hmain =>
      rw [hmain] at h
      exact h
  | shutdown hmain hfree =>
      rw [hmain] at h
      exact h
  | cancel hmain hpool => exact ((ThreadPool.tasks_cancel hpool).append_left _).subperm.trans h
  | cancelled hmain hqueue =>
      rw [hmain] at h
      exact h
  | work hpool => exact ((ThreadPool.tasks_step hpool).append_left _).subperm.trans h
  | exit hmain hidle =>
      rw [hmain] at h
      exact h

theorem UndisturbedRun.run (hrun : UndisturbedRun workers s s') : Run workers s s' := by
  induction hrun with
  | refl => exact .refl
  | tail _ hstep ih =>
      obtain ⟨action, hstep, -⟩ := hstep
      exact ih.tail ⟨action, hstep⟩

/-- Whatever disturbs the run, no connection is in two places, and each one was accepted. -/
theorem subperm_run (hrun : Run workers start s) :
    (inHand s.main ++ s.pool.tasks).Subperm s.accepted := by
  induction hrun with
  | refl => exact List.Subperm.refl _
  | tail _ hstep ih =>
      obtain ⟨action, hstep⟩ := hstep
      exact subperm_step hstep ih

/-- Whatever disturbs the run, no more handlers are at work than there are workers. -/
theorem running_le_workers (hrun : Run workers start s) : s.pool.running.length ≤ workers := by
  induction hrun with
  | refl => exact Nat.zero_le _
  | tail _ hstep ih =>
      obtain ⟨action, hstep⟩ := hstep
      cases hstep with
      | work hpool => exact ThreadPool.running_step hpool ih
      | cancel hmain hpool =>
          rw [(ThreadPool.cancel_cases hpool).2]
          exact ih
      | _ => exact ih

end Server

open Server

/-- **Shutdown.**  In every run whose accepts fail only on the closed socket, whose signal does not
come while an accepted connection is not yet queued, and whose pool is shut down while nothing
waits: in every state reached, the loop was left only after the shutdown had closed the listening
socket, and once the shutdown is over, every accepted connection has had its handler run to the
end. -/
theorem drains_of_undisturbed {κ : Type u} {workers : ℕ} {s : Server κ}
    (hrun : UndisturbedRun workers start s) : s.Drains := by
  obtain ⟨haccepted, hcancelled, hclosed, hqueue, hidle⟩ := tracked_run hrun
  refine ⟨?_, fun hexited => ?_⟩
  · rintro (hleft | hexited)
    · exact hclosed (by rw [hleft]; exact trivial)
    · exact hclosed (by rw [hexited]; exact trivial)
  · rw [hexited] at haccepted hqueue
    rw [ThreadPool.finished_of_idle (hqueue trivial) (hidle hexited) hcancelled] at haccepted
    exact haccepted

/-- One connection is accepted, and the process told to shut down while its handler runs. -/
def oneHandled : Server ℕ := ⟨.exited, false, true, false, [1], ⟨[], [], [1], []⟩⟩

/-- A connection is accepted and queued. -/
theorem run_accepted {κ : Type u} {workers : ℕ} {s : Server κ}
    (hrun : UndisturbedRun workers start s) (hmain : s.main = .accepting)
    (hopen : s.listening = true) (conn : κ) :
    UndisturbedRun workers start { s with
      locked := false, accepted := conn :: s.accepted, pool := s.pool.submit conn } := by
  have hlocked := (hrun.tail ⟨.accept conn, .accept hmain hopen, trivial⟩).tail
    ⟨_, .lock rfl, trivial⟩
  have hqueued := (hlocked.tail ⟨_, .submit rfl, trivial⟩).tail ⟨_, .unlock rfl, trivial⟩
  rwa [← hmain] at hqueued

theorem run_oneHandled : UndisturbedRun 1 start oneHandled := by
  have hbusy : UndisturbedRun 1 start ⟨.accepting, true, false, false, [1], ⟨[], [1], [], []⟩⟩ :=
    (run_accepted .refl rfl rfl 1).tail ⟨_, .work (.take Nat.one_pos), trivial⟩
  have hclosed : UndisturbedRun 1 start
      ⟨.shuttingDown, false, true, false, [1], ⟨[], [1], [], []⟩⟩ :=
    (hbusy.tail ⟨_, .signal trivial rfl, rfl⟩).tail ⟨_, .closeSocket rfl, trivial⟩
  have hwaiting : UndisturbedRun 1 start
      ⟨.waiting, false, true, false, [1], ⟨[], [1], [], []⟩⟩ :=
    (hclosed.tail ⟨_, .shutdown rfl rfl, rfl⟩).tail ⟨_, .cancelled rfl rfl, trivial⟩
  have hhandled : UndisturbedRun 1 start
      ⟨.waiting, false, true, false, [1], ⟨[], [], [1], []⟩⟩ :=
    hwaiting.tail ⟨_, .work (@ThreadPool.Step.finish ℕ 1 1 [] [] [] [] []), trivial⟩
  exact hhandled.tail ⟨_, .exit rfl rfl, trivial⟩

theorem drains_oneHandled : oneHandled.Drains := drains_of_undisturbed run_oneHandled

/-- A single worker is busy with one connection while another one waits. -/
def oneWaits (main : MainThread ℕ) (listening signalled : Bool) : Server ℕ :=
  ⟨main, listening, signalled, false, [2, 1], ⟨[2], [1], [], []⟩⟩

theorem run_oneWaits : Run 1 start (oneWaits .accepting true false) := by
  have hbusy : UndisturbedRun 1 start ⟨.accepting, true, false, false, [1], ⟨[], [1], [], []⟩⟩ :=
    (run_accepted .refl rfl rfl 1).tail ⟨_, .work (.take Nat.one_pos), trivial⟩
  have hqueued : UndisturbedRun 1 start (oneWaits .accepting true false) :=
    run_accepted hbusy rfl rfl 2
  exact hqueued.run

/-- An `OSError` of `accept` ends the loop with the listening socket open and no signal; and a
connection that waits when the signal comes is never handled, although the shutdown returns. -/
theorem shutdown_abandons :
    (∃ s : Server ℕ, Run 1 start s ∧ s.LoopLeft ∧ s.listening = true ∧ s.signalled = false) ∧
      (∃ s : Server ℕ, Run 1 start s ∧ s.main = .exited ∧ 2 ∈ s.accepted ∧
        2 ∉ s.pool.finished) ∧
      ¬ ∀ s : Server ℕ, Run 1 start s → s.Drains := by
  have hfails : Run 1 start (⟨.left, true, false, false, [], .empty⟩ : Server ℕ) :=
    .single ⟨_, .acceptFails rfl⟩
  have hcancelling : Run 1 start (oneWaits .cancelling false true) :=
    ((run_oneWaits.tail ⟨_, .signal trivial rfl⟩).tail ⟨_, .closeSocket rfl⟩).tail
      ⟨_, .shutdown rfl rfl⟩
  have hwaiting : Run 1 start ⟨.waiting, false, true, false, [2, 1], ⟨[], [1], [], [2]⟩⟩ :=
    (hcancelling.tail ⟨_, .cancel rfl .head⟩).tail ⟨_, .cancelled rfl rfl⟩
  have hexited : Run 1 start ⟨.exited, false, true, false, [2, 1], ⟨[], [], [1], [2]⟩⟩ :=
    (hwaiting.tail ⟨_, .work (@ThreadPool.Step.finish ℕ 1 1 [] [] [] [] [2])⟩).tail
      ⟨_, .exit rfl rfl⟩
  refine ⟨⟨_, hfails, Or.inl rfl, rfl, rfl⟩, ⟨_, hexited, rfl, by decide, by decide⟩, ?_⟩
  intro hclaim
  have hclosed := (hclaim _ hfails).leaves (Or.inl rfl)
  exact absurd hclosed (by decide)

end Proxy
end NetworkProxy
