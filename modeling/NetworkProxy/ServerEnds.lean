import NetworkProxy.AcceptLoop
import NetworkProxy.Progress

/-!
# The end of the server

What becomes of every connection that was accepted, in runs of `start_proxy` that anything may
disturb.

* `ThreadPool.taken_step`, `ThreadPool.taken_cancel`: what leaves the queue leaves it in front.
* `InOrder`: connections are taken up in the order in which they were accepted.
* `not_exited_of_locked`: a signal inside `submit` leaves the process waiting for its own lock.
* `server_shuts_down`: after any other signal the server comes to its end in a bounded number of
  steps, with every connection handled to the end, cancelled while it waited, or the one in hand.
-/

namespace NetworkProxy

universe u

namespace ThreadPool

variable {τ : Type u} {workers : ℕ} {p q : ThreadPool τ}

/-- The tasks that wait no more. -/
def taken (p : ThreadPool τ) : List τ := p.running ++ (p.finished ++ p.cancelled)

/-- The tasks that a worker has taken. -/
def begun (p : ThreadPool τ) : List τ := p.running ++ p.finished

theorem taken_step (h : Step workers p q) :
    ∃ front, p.queue = front ++ q.queue ∧ q.taken.Perm (p.taken ++ front) := by
  cases h with
  | @take task queue running finished cancelled hidle =>
      refine ⟨[task], rfl, ?_⟩
      simp only [taken, List.append_assoc]
      refine List.Perm.append_left running ?_
      rw [← List.append_assoc finished]
      exact List.perm_append_comm
  | @finish task queue before after finished cancelled =>
      refine ⟨[], rfl, ?_⟩
      simp only [taken, List.append_assoc, List.append_nil]
      refine List.Perm.append_left before ?_
      have hafter : after ++ (finished ++ ([task] ++ cancelled)) =
          (after ++ finished) ++ task :: cancelled := by simp
      have hbefore : task :: after ++ (finished ++ cancelled) =
          task :: ((after ++ finished) ++ cancelled) := by simp
      rw [hafter, hbefore]
      exact List.perm_middle

theorem taken_cancel (h : Cancel p q) :
    ∃ front, p.queue = front ++ q.queue ∧ q.taken.Perm (p.taken ++ front) := by
  cases h with
  | @head task queue running finished cancelled =>
      refine ⟨[task], rfl, ?_⟩
      simp only [taken, List.append_assoc]
      exact List.Perm.refl _

/-- What a worker has taken stays with the workers. -/
theorem begun_step (h : Step workers p q) : p.begun.Subperm q.begun := by
  cases h with
  | @take task queue running finished cancelled hidle =>
      simp only [begun, List.append_assoc]
      refine List.Sublist.subperm (List.Sublist.append_left ?_ running)
      exact List.sublist_append_right _ _
  | @finish task queue before after finished cancelled =>
      refine List.Perm.subperm ?_
      simp only [begun, List.append_assoc, List.cons_append]
      refine List.Perm.append_left before ?_
      rw [← List.append_assoc after]
      exact (List.perm_append_singleton task (after ++ finished)).symm

theorem begun_cancel (h : Cancel p q) : q.begun = p.begun := by
  cases h with
  | head => rfl

/-- The steps that the tasks still need, at most. -/
def work (p : ThreadPool τ) : ℕ := 2 * p.queue.length + p.running.length

theorem work_step (h : Step workers p q) : q.work < p.work := by
  cases h with
  | take hidle =>
      simp only [work, List.length_cons, List.length_append, List.length_nil]
      omega
  | finish =>
      simp only [work, List.length_cons, List.length_append]
      omega

theorem work_cancel (h : Cancel p q) : q.work < p.work := by
  cases h with
  | head =>
      simp only [work, List.length_cons]
      omega

/-- A task that runs can be finished. -/
theorem exists_finish (hrunning : p.running ≠ []) : ∃ q, Step workers p q := by
  obtain ⟨queue, running, finished, cancelled⟩ := p
  obtain ⟨task, rest, rfl⟩ := List.exists_cons_of_ne_nil hrunning
  exact ⟨_, @Step.finish τ workers task queue [] rest finished cancelled⟩

/-- A task that waits can be cancelled. -/
theorem exists_cancel (hqueue : p.queue ≠ []) : ∃ q, Cancel p q := by
  obtain ⟨queue, running, finished, cancelled⟩ := p
  obtain ⟨task, rest, rfl⟩ := List.exists_cons_of_ne_nil hqueue
  exact ⟨_, @Cancel.head τ task rest running finished cancelled⟩

end ThreadPool

namespace Proxy
namespace Server

variable {κ : Type u} {workers : ℕ} {s s' : Server κ} {action : Action κ}

/-! ## The order of the connections -/

/-- The connections in the order in which they were accepted: those that wait no more, those that
wait, and the one in hand when there is one, also when the signal came then. -/
structure InOrder (front last : List κ) (s : Server κ) : Prop where
  accepted : s.accepted.reverse = front ++ (s.pool.queue ++ last)
  taken : s.pool.taken.Perm front
  last : last = inHand s.main ∨ s.signalled = true ∧ inHand s.main = [] ∧ last.length ≤ 1
  interruptible : s.signalled = false ↔ Interruptible s.main
  cancelled : s.signalled = false → s.pool.cancelled = []

theorem inOrder_start : InOrder [] [] (start : Server κ) :=
  ⟨rfl, List.Perm.refl _, Or.inl rfl, iff_of_true rfl trivial, fun _ => rfl⟩

/-- Between two steps of the loop nothing else is in hand. -/
theorem InOrder.last_eq {front last : List κ} (h : InOrder front last s)
    (hmain : Interruptible s.main) : last = inHand s.main := by
  rcases h.last with hlast | ⟨hsignalled, -, -⟩
  · exact hlast
  · rw [h.interruptible.mpr hmain] at hsignalled
    cases hsignalled

/-- What the pool takes from its queue, whether a worker takes it or the shutdown. -/
theorem InOrder.pool {front last : List κ} {pool : ThreadPool κ} (h : InOrder front last s)
    (hpool : ∃ taken, s.pool.queue = taken ++ pool.queue ∧ pool.taken.Perm (s.pool.taken ++ taken))
    (hcancelled : s.signalled = false → pool.cancelled = []) :
    ∃ front' last', InOrder front' last' { s with pool := pool } := by
  obtain ⟨taken, hqueue, hperm⟩ := hpool
  refine ⟨front ++ taken, last, ?_, ?_, h.last, h.interruptible, hcancelled⟩
  · rw [h.accepted, hqueue, List.append_assoc, List.append_assoc]
  · exact hperm.trans (h.taken.append_right taken)

/-- The main thread goes on in the shutdown. -/
theorem InOrder.shuttingDown {front last : List κ} {main : MainThread κ} {listening : Bool}
    (h : InOrder front last s) (hbefore : ¬ Interruptible s.main) (hafter : ¬ Interruptible main)
    (hhand : inHand main = []) :
    ∃ front' last', InOrder front' last' { s with main := main, listening := listening } := by
  have hsignalled : s.signalled = true := by
    rw [← Bool.not_eq_false]
    exact fun hnot => hbefore (h.interruptible.mp hnot)
  refine ⟨front, last, h.accepted, h.taken, Or.inr ⟨hsignalled, hhand, ?_⟩, ?_, h.cancelled⟩
  · rcases h.last with hlast | ⟨-, -, hlast⟩
    · rw [hlast]
      cases hmain : s.main <;> simp [inHand]
    · exact hlast
  · exact iff_of_false (by simp [hsignalled]) hafter

/-- The main thread goes on in the loop, with the same connection in hand. -/
theorem InOrder.inLoop {front last : List κ} {main : MainThread κ} {locked : Bool}
    (h : InOrder front last s) (hbefore : Interruptible s.main) (hafter : Interruptible main)
    (hhand : inHand main = inHand s.main) :
    InOrder front last { s with main := main, locked := locked } :=
  ⟨h.accepted, h.taken, Or.inl ((h.last_eq hbefore).trans hhand.symm),
    iff_of_true (h.interruptible.mpr hbefore) hafter, h.cancelled⟩

theorem InOrder.step {front last : List κ} (h : InOrder front last s)
    (hstep : Step workers s action s') : ∃ front' last', InOrder front' last' s' := by
  cases hstep with
  | @accept conn hmain hopen =>
      have hlast := h.last_eq (by rw [hmain]; exact trivial)
      have hsignalled := h.interruptible.mpr (by rw [hmain]; exact trivial)
      have hnone : inHand s.main = [] := by rw [hmain]; rfl
      refine ⟨front, [conn], ?_, h.taken, Or.inl rfl, iff_of_true hsignalled trivial, h.cancelled⟩
      rw [List.reverse_cons, h.accepted, hlast, hnone, List.append_nil, List.append_assoc]
  | @lock conn hmain =>
      exact ⟨front, last, h.inLoop (by rw [hmain]; exact trivial) trivial (by rw [hmain]; rfl)⟩
  | @submit conn hmain =>
      have hlast := h.last_eq (by rw [hmain]; exact trivial)
      have hsignalled := h.interruptible.mpr (by rw [hmain]; exact trivial)
      rw [hmain] at hlast
      refine ⟨front, [], ?_, h.taken, Or.inl rfl, iff_of_true hsignalled trivial, h.cancelled⟩
      rw [h.accepted, hlast, inHand, ThreadPool.submit, List.append_nil]
  | unlock hmain =>
      exact ⟨front, last, h.inLoop (by rw [hmain]; exact trivial) trivial (by rw [hmain]; rfl)⟩
  | acceptFails hmain =>
      exact ⟨front, last, h.inLoop (by rw [hmain]; exact trivial) trivial (by rw [hmain]; rfl)⟩
  | signal hmain honce =>
      have hlast := h.last_eq hmain
      refine ⟨front, last, h.accepted, h.taken, Or.inr ⟨rfl, rfl, ?_⟩, ?_, fun hnot => ?_⟩
      · rw [hlast]
        cases hthread : s.main <;> simp [inHand]
      · exact iff_of_false (by simp) (by simp [Interruptible])
      · cases hnot
  | closeSocket hmain =>
      exact h.shuttingDown (by rw [hmain]; exact id) id rfl
  | shutdown hmain hfree => exact h.shuttingDown (by rw [hmain]; exact id) id rfl
  | cancel hmain hpool =>
      refine h.pool (ThreadPool.taken_cancel hpool) fun hnot => ?_
      have hinterruptible := h.interruptible.mp hnot
      rw [hmain] at hinterruptible
      exact hinterruptible.elim
  | cancelled hmain hqueue => exact h.shuttingDown (by rw [hmain]; exact id) id rfl
  | work hpool =>
      refine h.pool (ThreadPool.taken_step hpool) fun hnot => ?_
      rw [(ThreadPool.cancelled_step hpool).1, h.cancelled hnot]
  | exit hmain hidle => exact h.shuttingDown (by rw [hmain]; exact id) id rfl

theorem inOrder_run (hrun : Run workers start s) : ∃ front last, InOrder front last s := by
  induction hrun with
  | refl => exact ⟨[], [], inOrder_start⟩
  | tail _ hstep ih =>
      obtain ⟨front, last, h⟩ := ih
      obtain ⟨action, hstep⟩ := hstep
      exact h.step hstep

/-! ## The shutdown -/

/-- The listening socket was closed by the shutdown. -/
def BehindSocket : MainThread κ → Prop
  | .shuttingDown => True
  | .cancelling => True
  | .waiting => True
  | .exited => True
  | _ => False

/-- What the shutdown has done where it stands. -/
structure Progressed (s : Server κ) : Prop where
  closed : BehindSocket s.main → s.listening = false
  queue : s.main = .waiting ∨ s.main = .exited → s.pool.queue = []
  running : s.main = .exited → s.pool.running = []

theorem Progressed.step (h : Progressed s) (hstep : Step workers s action s') : Progressed s' := by
  obtain ⟨hclosed, hqueue, hrunning⟩ := h
  cases hstep with
  | accept hmain hopen => exact ⟨False.elim, by simp, by simp⟩
  | lock hmain => exact ⟨False.elim, by simp, by simp⟩
  | submit hmain => exact ⟨False.elim, by simp, by simp⟩
  | unlock hmain => exact ⟨False.elim, by simp, by simp⟩
  | acceptFails hmain => exact ⟨False.elim, by simp, by simp⟩
  | signal hmain honce => exact ⟨False.elim, by simp, by simp⟩
  | closeSocket hmain => exact ⟨fun _ => rfl, by simp, by simp⟩
  | shutdown hmain hfree =>
      rw [hmain] at hclosed
      exact ⟨fun _ => hclosed trivial, by simp, by simp⟩
  | cancel hmain hpool => exact ⟨hclosed, by simp [hmain], by simp [hmain]⟩
  | cancelled hmain hempty =>
      rw [hmain] at hclosed
      exact ⟨fun _ => hclosed trivial, fun _ => hempty, by simp⟩
  | work hpool =>
      refine ⟨hclosed, fun hmain => (ThreadPool.cancelled_step hpool).2 (hqueue hmain), ?_⟩
      intro hexited
      exact absurd hpool
        (ThreadPool.not_step_of_idle (hqueue (Or.inr hexited)) (hrunning hexited))
  | exit hmain hidle =>
      rw [hmain] at hclosed
      exact ⟨fun _ => hclosed trivial, fun _ => hqueue (Or.inl hmain), fun _ => hidle⟩

theorem progressed_run (hrun : Run workers start s) : Progressed s := by
  induction hrun with
  | refl => exact ⟨False.elim, by simp [start], by simp [start]⟩
  | tail _ hstep ih =>
      obtain ⟨action, hstep⟩ := hstep
      exact ih.step hstep

/-! ## The lock -/

/-- The main thread is inside `submit`. -/
def InSubmit : MainThread κ → Prop
  | .submitting _ => True
  | .submitted => True
  | _ => False

/-- The lock is held inside `submit`; once a signal has come while it is held, it stays so, and the
shutdown is not over. -/
structure Locking (s : Server κ) : Prop where
  inside : s.signalled = false → (s.locked = true ↔ InSubmit s.main)
  stuck : s.signalled = true → s.locked = true → s.main = .closing ∨ s.main = .shuttingDown

theorem locking_start : Locking (start : Server κ) :=
  ⟨fun _ => iff_of_false Bool.false_ne_true id, fun hsignalled => by cases hsignalled⟩

/-- Before a signal the lock is held inside `submit`, and that is all. -/
theorem Locking.before {main : MainThread κ} {locked : Bool} {accepted : List κ}
    {pool : ThreadPool κ} (hsignalled : s.signalled = false) (h : locked = true ↔ InSubmit main) :
    Locking { s with main := main, locked := locked, accepted := accepted, pool := pool } := by
  refine ⟨fun _ => h, fun hnot => ?_⟩
  rw [show s.signalled = true from hnot] at hsignalled
  cases hsignalled

/-- The main thread goes on in the loop, and stays inside `submit` or outside it. -/
theorem Locking.inLoop {main : MainThread κ} {accepted : List κ} {pool : ThreadPool κ}
    (h : Locking s) (hsignalled : s.signalled = false) (hsame : InSubmit s.main ↔ InSubmit main) :
    Locking { s with main := main, accepted := accepted, pool := pool } :=
  .before hsignalled ((h.inside hsignalled).trans hsame)

theorem Locking.step {front last : List κ} (h : Locking s) (horder : InOrder front last s)
    (hstep : Step workers s action s') : Locking s' := by
  have hbefore (hmain : Interruptible s.main) : s.signalled = false :=
    horder.interruptible.mpr hmain
  have hafter (hmain : ¬ Interruptible s.main) : s.signalled = true := by
    rw [← Bool.not_eq_false]
    exact fun hnot => hmain (horder.interruptible.mp hnot)
  cases hstep with
  | accept hmain hopen =>
      exact h.inLoop (hbefore (by rw [hmain]; exact trivial)) (by rw [hmain]; exact Iff.rfl)
  | lock hmain =>
      exact .before (hbefore (by rw [hmain]; exact trivial)) (iff_of_true rfl trivial)
  | submit hmain =>
      exact h.inLoop (hbefore (by rw [hmain]; exact trivial)) (by rw [hmain]; exact Iff.rfl)
  | unlock hmain =>
      exact .before (hbefore (by rw [hmain]; exact trivial)) (iff_of_false Bool.false_ne_true id)
  | acceptFails hmain =>
      exact h.inLoop (hbefore (by rw [hmain]; exact trivial)) (by rw [hmain]; exact Iff.rfl)
  | signal hmain honce =>
      refine ⟨fun hnot => ?_, fun _ _ => Or.inl rfl⟩
      cases hnot
  | closeSocket hmain =>
      have hsignalled := hafter (by rw [hmain]; exact id)
      exact ⟨fun hnot => by simp [hsignalled] at hnot, fun _ _ => Or.inr rfl⟩
  | shutdown hmain hfree =>
      have hsignalled := hafter (by rw [hmain]; exact id)
      exact ⟨fun hnot => by simp [hsignalled] at hnot, fun _ hlocked => by simp [hfree] at hlocked⟩
  | cancel hmain hpool => exact ⟨h.inside, h.stuck⟩
  | cancelled hmain hqueue =>
      have hsignalled := hafter (by rw [hmain]; exact id)
      refine ⟨fun hnot => by simp [hsignalled] at hnot, fun _ hlocked => ?_⟩
      have hstuck := h.stuck hsignalled hlocked
      simp [hmain] at hstuck
  | work hpool => exact ⟨h.inside, h.stuck⟩
  | exit hmain hidle =>
      have hsignalled := hafter (by rw [hmain]; exact id)
      refine ⟨fun hnot => by simp [hsignalled] at hnot, fun _ hlocked => ?_⟩
      have hstuck := h.stuck hsignalled hlocked
      simp [hmain] at hstuck

theorem locking_run (hrun : Run workers start s) : Locking s := by
  induction hrun with
  | refl => exact locking_start
  | tail hrun hstep ih =>
      obtain ⟨action, hstep⟩ := hstep
      obtain ⟨front, last, horder⟩ := inOrder_run hrun
      exact ih.step horder hstep

/-- A signal finds the lock held exactly inside `submit`. -/
theorem locked_of_signal (h : Locking s) (hstep : Step workers s .signal s') :
    s'.locked = true ↔ InSubmit s.main := by
  cases hstep with
  | signal hmain honce => exact h.inside honce

/-- After a signal nothing changes who holds the lock. -/
theorem locked_step (hsignalled : s.signalled = true) (horder : s.signalled = false ↔
    Interruptible s.main) (hstep : Step workers s action s') :
    s'.signalled = true ∧ s'.locked = s.locked := by
  have hdown : ¬ Interruptible s.main := by
    rw [← horder, hsignalled]
    simp
  cases hstep with
  | lock hmain => exact absurd (by rw [hmain]; exact trivial) hdown
  | unlock hmain => exact absurd (by rw [hmain]; exact trivial) hdown
  | signal hmain honce => exact absurd hmain hdown
  | _ => exact ⟨hsignalled, rfl⟩

theorem locked_run (hrun : Run workers start s) (hsignalled : s.signalled = true)
    (hlater : Run workers s s') : s'.signalled = true ∧ s'.locked = s.locked := by
  induction hlater with
  | refl => exact ⟨hsignalled, rfl⟩
  | tail hlater hstep ih =>
      obtain ⟨action, hstep⟩ := hstep
      obtain ⟨front, last, horder⟩ := inOrder_run (hrun.trans hlater)
      obtain ⟨hsignalled', hsame⟩ := locked_step ih.1 horder.interruptible hstep
      exact ⟨hsignalled', hsame.trans ih.2⟩

/-- Once a signal has come inside `submit`, the shutdown waits for a lock that its own thread
holds. -/
theorem not_exited_of_locked (hrun : Run workers start s) (hsignalled : s.signalled = true)
    (hlocked : s.locked = true) (hlater : Run workers s s') : s'.main ≠ .exited := by
  obtain ⟨hsignalled', hsame⟩ := locked_run hrun hsignalled hlater
  intro hexited
  have hstuck := (locking_run (hrun.trans hlater)).stuck hsignalled' (hsame.trans hlocked)
  simp [hexited] at hstuck

/-! ## The steps that are left -/

/-- The steps of the main thread that the shutdown still needs. -/
def shutdownWork : MainThread κ → ℕ
  | .closing => 4
  | .shuttingDown => 3
  | .cancelling => 2
  | .waiting => 1
  | _ => 0

/-- The steps that the shutdown still needs, at most, those of the workers included. -/
def work (s : Server κ) : ℕ := shutdownWork s.main + s.pool.work

/-- A step of the main thread or of a worker. -/
def Works (workers : ℕ) (s s' : Server κ) : Prop := ∃ action, Step workers s action s'

/-- The shutdown goes on. -/
def ShutsDown (s : Server κ) : Prop := ¬ Interruptible s.main

/-- The shutdown uses up its work. -/
theorem usesUp_work (workers : ℕ) :
    UsesUp ShutsDown (Works workers) (fun _ _ : Server κ => False) work := by
  refine ⟨fun s s' hdown hstep => ?_, fun _ _ _ hidle => hidle.elim⟩
  obtain ⟨action, hstep⟩ := hstep
  unfold ShutsDown at hdown ⊢
  cases hstep with
  | accept hmain hopen => exact absurd (by rw [hmain]; exact trivial) hdown
  | lock hmain => exact absurd (by rw [hmain]; exact trivial) hdown
  | submit hmain => exact absurd (by rw [hmain]; exact trivial) hdown
  | unlock hmain => exact absurd (by rw [hmain]; exact trivial) hdown
  | acceptFails hmain => exact absurd (by rw [hmain]; exact trivial) hdown
  | signal hmain honce => exact absurd hmain hdown
  | closeSocket hmain => exact ⟨id, by simp [work, hmain, shutdownWork]⟩
  | shutdown hmain hfree => exact ⟨id, by simp [work, hmain, shutdownWork]⟩
  | cancel hmain hpool =>
      exact ⟨hdown, Nat.add_lt_add_left (ThreadPool.work_cancel hpool) _⟩
  | cancelled hmain hqueue => exact ⟨id, by simp [work, hmain, shutdownWork]⟩
  | work hpool => exact ⟨hdown, Nat.add_lt_add_left (ThreadPool.work_step hpool) _⟩
  | exit hmain hidle => exact ⟨id, by simp [work, hmain, shutdownWork]⟩

/-- With the lock free, the shutdown goes on exactly until the process has left it. -/
theorem exists_works_iff (h : Progressed s) (hdown : ShutsDown s) (hfree : s.locked = false) :
    (∃ s', Works workers s s') ↔ s.main ≠ .exited := by
  constructor
  · rintro ⟨s', action, hstep⟩ hexited
    cases hstep with
    | work hpool =>
        exact ThreadPool.not_step_of_idle (h.queue (Or.inr hexited)) (h.running hexited) hpool
    | signal hmain honce => exact hdown hmain
    | accept hmain hopen => simp [hexited] at hmain
    | lock hmain => simp [hexited] at hmain
    | submit hmain => simp [hexited] at hmain
    | unlock hmain => simp [hexited] at hmain
    | acceptFails hmain => simp [hexited] at hmain
    | closeSocket hmain => simp [hexited] at hmain
    | shutdown hmain hfree => simp [hexited] at hmain
    | cancel hmain hpool => simp [hexited] at hmain
    | cancelled hmain hqueue => simp [hexited] at hmain
    | exit hmain hidle => simp [hexited] at hmain
  · intro hexited
    cases hmain : s.main with
    | accepting => exact absurd (by rw [hmain]; exact trivial) hdown
    | accepted conn => exact absurd (by rw [hmain]; exact trivial) hdown
    | submitting conn => exact absurd (by rw [hmain]; exact trivial) hdown
    | submitted => exact absurd (by rw [hmain]; exact trivial) hdown
    | left => exact absurd (by rw [hmain]; exact trivial) hdown
    | closing => exact ⟨_, _, .closeSocket hmain⟩
    | shuttingDown => exact ⟨_, _, .shutdown hmain hfree⟩
    | cancelling =>
        by_cases hqueue : s.pool.queue = []
        · exact ⟨_, _, .cancelled hmain hqueue⟩
        · obtain ⟨pool, hpool⟩ := ThreadPool.exists_cancel hqueue
          exact ⟨_, _, .cancel hmain hpool⟩
    | waiting =>
        by_cases hrunning : s.pool.running = []
        · exact ⟨_, _, .exit hmain hrunning⟩
        · have hfinish : ∃ pool, ThreadPool.Step workers s.pool pool :=
            ThreadPool.exists_finish hrunning
          obtain ⟨pool, hpool⟩ := hfinish
          exact ⟨_, _, .work hpool⟩
    | exited => exact absurd hmain hexited

/-- What a worker has taken stays with the workers. -/
theorem begun_step (hstep : Step workers s action s') : s.pool.begun.Subperm s'.pool.begun := by
  cases hstep with
  | work hpool => exact ThreadPool.begun_step hpool
  | cancel hmain hpool =>
      rw [ThreadPool.begun_cancel hpool]
  | _ => exact List.Subperm.refl _

/-- A run of so many steps. -/
abbrev RunOf (workers : ℕ) (k : ℕ) (s s' : Server κ) : Prop :=
  Took (Works workers) (fun _ _ => False) k s s'

theorem RunOf.run {k : ℕ} (h : RunOf workers k s s') : Run workers s s' :=
  Took.run (fun _ _ hstep => hstep) (fun _ _ hidle => hidle.elim) h

theorem begun_run {k : ℕ} (h : RunOf workers k s s') : s.pool.begun.Subperm s'.pool.begun := by
  refine Took.invariant (I := fun s'' => s.pool.begun.Subperm s''.pool.begun) ?_
    (fun _ _ _ hidle => hidle.elim) h (List.Subperm.refl _)
  rintro s₁ s₂ hsub ⟨action, hstep⟩
  exact hsub.trans (begun_step hstep)

/-- When the process has left the shutdown, every connection is accounted for. -/
theorem accounted_of_exited (hrun : Run workers start s) (hexited : s.main = .exited) :
    ∃ last, last.length ≤ 1 ∧
      s.accepted.Perm (s.pool.finished ++ (s.pool.cancelled ++ last)) := by
  obtain ⟨front, last, hinOrder⟩ := inOrder_run hrun
  have hprogressed := progressed_run hrun
  refine ⟨last, ?_, ?_⟩
  · rcases hinOrder.last with hlast | ⟨-, -, hlast⟩
    · rw [hlast, hexited]
      exact Nat.zero_le 1
    · exact hlast
  · have htaken := hinOrder.taken
    rw [ThreadPool.taken, hprogressed.running hexited, List.nil_append] at htaken
    have haccepted := hinOrder.accepted
    rw [hprogressed.queue (Or.inr hexited), List.nil_append] at haccepted
    refine (List.reverse_perm s.accepted).symm.trans ?_
    rw [haccepted, ← List.append_assoc]
    exact htaken.symm.append_right last

end Server

open Server

/-- **The server shuts down.**  Whatever disturbs a run of `start_proxy`: the connections wait, and
are taken up, in the order in which they were accepted, and none is lost or in two places; from the
signal on no more steps are made than the shutdown, the waiting and the running connections need,
and what a worker has taken by then is handled to the end before the process exits.  A signal
inside `submit`, and no other, finds the lock of the pool held: then the process never exits.  After
any other one it does not stand still before its end, and can reach it; and at the end the socket is
closed, and every accepted connection was handled to the end or cancelled while it waited, but for
one at most, in hand when the signal came. -/
theorem server_shuts_down {κ : Type u} {workers : ℕ} {s : Server κ}
    (hrun : Server.Run workers start s) :
    (∃ front last, InOrder front last s) ∧
      (∀ s', Step workers s .signal s' → (s'.locked = true ↔ InSubmit s.main)) ∧
      (s.signalled = true →
        (∀ k s', RunOf workers k s s' →
          k ≤ 2 * s.pool.queue.length + s.pool.running.length + 4 ∧
          (s'.main = .exited → s.pool.begun.Subperm s'.pool.finished)) ∧
        (s.locked = true → ∀ s', Server.Run workers s s' → s'.main ≠ .exited) ∧
        (s.locked = false → ((∃ s', Works workers s s') ↔ s.main ≠ .exited) ∧
          ∃ k s', RunOf workers k s s' ∧ s'.main = .exited)) ∧
      (s.main = .exited → s.listening = false ∧ ∃ last, last.length ≤ 1 ∧
        s.accepted.Perm (s.pool.finished ++ (s.pool.cancelled ++ last))) := by
  obtain ⟨front, last, hinOrder⟩ := inOrder_run hrun
  have hprogressed := progressed_run hrun
  have hlater {k : ℕ} {s' : Server κ} (h : RunOf workers k s s') : Progressed s' :=
    progressed_run (hrun.trans (RunOf.run h))
  refine ⟨⟨front, last, hinOrder⟩, fun s' => locked_of_signal (locking_run hrun),
    fun hsignalled => ?_, fun hexited => ⟨?_, accounted_of_exited hrun hexited⟩⟩
  · have hdown : ShutsDown s := by
      intro hinterruptible
      rw [hinOrder.interruptible.mpr hinterruptible] at hsignalled
      cases hsignalled
    refine ⟨fun k s' hsteps => ⟨?_, fun hexited => ?_⟩, fun hlocked s' =>
      not_exited_of_locked hrun hsignalled hlocked, fun hfree =>
      ⟨exists_works_iff hprogressed hdown hfree, ?_⟩⟩
    · have hle := (usesUp_work workers).count_le hsteps hdown
      have hmain : shutdownWork s.main ≤ 4 := by
        cases s.main <;> simp [shutdownWork]
      have hwork : s.work =
          shutdownWork s.main + (2 * s.pool.queue.length + s.pool.running.length) := rfl
      omega
    · have hbegun := begun_run hsteps
      rwa [ThreadPool.begun, ThreadPool.begun, (hlater hsteps).running hexited,
        List.nil_append] at hbegun
    · obtain ⟨k, s', hsteps, hrest⟩ := (usesUp_work workers).exists_rest hdown
      have hfree' : s'.locked = false := by
        rw [(locked_run hrun hsignalled (RunOf.run hsteps)).2, hfree]
      refine ⟨k, s', hsteps, by_contra fun hexited => hrest ?_⟩
      have hdown' : ShutsDown s' := (usesUp_work workers).keeps hsteps hdown
      exact (exists_works_iff (hlater hsteps) hdown' hfree').mpr hexited
  · exact hprogressed.closed (by rw [hexited]; exact trivial)

/-- The signal comes while a worker is busy, or inside the first `submit`. -/
theorem server_shuts_down_oneWaits :
    (∃ k s', RunOf 1 k (oneWaits .closing true true) s' ∧ s'.main = .exited ∧ k ≤ 7 ∧
      [1].Subperm s'.pool.finished) ∧
      ∀ s', Server.Run 1 (⟨.closing, true, true, true, [1], .empty⟩ : Server ℕ) s' →
        s'.main ≠ .exited := by
  have hwaits : Server.Run 1 start (oneWaits .closing true true) :=
    run_oneWaits.tail ⟨_, .signal trivial rfl⟩
  have hsubmitting :
      Server.Run 1 start (⟨.submitting 1, true, false, true, [1], .empty⟩ : Server ℕ) :=
    (Relation.ReflTransGen.single ⟨_, .accept rfl rfl⟩).tail ⟨_, .lock rfl⟩
  have hlocked : Server.Run 1 start (⟨.closing, true, true, true, [1], .empty⟩ : Server ℕ) :=
    hsubmitting.tail ⟨_, .signal trivial rfl⟩
  obtain ⟨-, -, hsignalled, -⟩ := server_shuts_down hwaits
  obtain ⟨hall, -, hfree⟩ := hsignalled rfl
  obtain ⟨-, k, s', hsteps, hexited⟩ := hfree rfl
  obtain ⟨-, -, hstuck, -⟩ := server_shuts_down hlocked
  exact ⟨⟨k, s', hsteps, hexited, (hall k s' hsteps).1, (hall k s' hsteps).2 hexited⟩,
    (hstuck rfl).2.1 rfl⟩

end Proxy
end NetworkProxy
