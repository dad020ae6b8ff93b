import Mathlib.Data.List.Perm.Basic
import Mathlib.Tactic.Common

/-!
# Thread pools

A pool runs at most `workers` tasks at once, the others wait in the order in which they were
submitted.  A waiting task can be cancelled, a running one cannot.

* `ThreadPool.Step`: a worker takes a task, or is finished with one.
* `tasks_step`, `tasks_submit`, `tasks_cancel`: no task is lost or doubled.
* `finished_of_idle`: when nothing waits, nothing runs and nothing was cancelled, every task has
  run to its end.
-/

namespace NetworkProxy

universe u

structure ThreadPool (τ : Type u) where
  queue : List τ
  running : List τ
  finished : List τ
  cancelled : List τ

namespace ThreadPool

variable {τ : Type u}

def empty : ThreadPool τ := ⟨[], [], [], []⟩

/-- A new task waits behind the others. -/
def submit (p : ThreadPool τ) (task : τ) : ThreadPool τ := { p with queue := p.queue ++ [task] }

/-- What the workers do. -/
inductive Step (workers : ℕ) : ThreadPool τ → ThreadPool τ → Prop
  | take {task : τ} {queue running finished cancelled : List τ}
      (hidle : running.length < workers) :
      Step workers ⟨task :: queue, running, finished, cancelled⟩
        ⟨queue, running ++ [task], finished, cancelled⟩
  | finish {task : τ} {queue before after finished cancelled : List τ} :
      Step workers ⟨queue, before ++ task :: after, finished, cancelled⟩
        ⟨queue, before ++ after, finished ++ [task], cancelled⟩

/-- The oldest waiting task is cancelled. -/
inductive Cancel : ThreadPool τ → ThreadPool τ → Prop
  | head {task : τ} {queue running finished cancelled : List τ} :
      Cancel ⟨task :: queue, running, finished, cancelled⟩
        ⟨queue, running, finished, cancelled ++ [task]⟩

/-- Every task that was submitted. -/
def tasks (p : ThreadPool τ) : List τ := p.queue ++ (p.running ++ (p.finished ++ p.cancelled))

variable {workers : ℕ} {p q : ThreadPool τ}

theorem tasks_submit (p : ThreadPool τ) (task : τ) :
    (p.submit task).tasks.Perm (task :: p.tasks) := by
  rw [tasks, submit, tasks, List.append_assoc]
  exact List.perm_middle

/-- A step moves one task. -/
theorem tasks_step (h : Step workers p q) : q.tasks.Perm p.tasks := by
  cases h with
  | @take task queue running finished cancelled hidle =>
      have hafter : queue ++ ((running ++ [task]) ++ (finished ++ cancelled)) =
          (queue ++ running) ++ task :: (finished ++ cancelled) := by
        simp
      have hbefore : task :: queue ++ (running ++ (finished ++ cancelled)) =
          task :: ((queue ++ running) ++ (finished ++ cancelled)) := by
        simp
      rw [tasks, tasks, hafter, hbefore]
      exact List.perm_middle
  | @finish task queue before after finished cancelled =>
      have hafter : queue ++ ((before ++ after) ++ ((finished ++ [task]) ++ cancelled)) =
          (queue ++ (before ++ after) ++ finished) ++ task :: cancelled := by
        simp
      have hbefore : queue ++ ((before ++ task :: after) ++ (finished ++ cancelled)) =
          (queue ++ before) ++ task :: (after ++ (finished ++ cancelled)) := by
        simp
      have hsame : (queue ++ (before ++ after) ++ finished) ++ cancelled =
          (queue ++ before) ++ (after ++ (finished ++ cancelled)) := by
        simp
      rw [tasks, tasks, hafter, hbefore]
      exact List.perm_middle.trans (hsame ▸ List.perm_middle.symm)

theorem tasks_cancel (h : Cancel p q) : q.tasks.Perm p.tasks := by
  cases h with
  | @head task queue running finished cancelled =>
      show (queue ++ (running ++ (finished ++ (cancelled ++ [task])))).Perm
        (task :: (queue ++ (running ++ (finished ++ cancelled))))
      simp only [← List.append_assoc]
      exact List.perm_append_singleton _ _

/-- Only what waits is cancelled. -/
theorem cancel_cases (h : Cancel p q) : p.queue ≠ [] ∧ q.running = p.running := by
  cases h with
  | head => exact ⟨List.cons_ne_nil _ _, rfl⟩

/-- The workers cancel nothing, and fill no queue. -/
theorem cancelled_step (h : Step workers p q) :
    q.cancelled = p.cancelled ∧ (p.queue = [] → q.queue = []) := by
  cases h with
  | take hidle => exact ⟨rfl, nofun⟩
  | finish => exact ⟨rfl, id⟩

/-- No more tasks run than there are workers. -/
theorem running_step (h : Step workers p q) (hle : p.running.length ≤ workers) :
    q.running.length ≤ workers := by
  cases h with
  | take hidle =>
      rw [List.length_append, List.length_singleton]
      exact hidle
  | finish =>
      rw [List.length_append, List.length_cons] at hle
      rw [List.length_append]
      omega

/-- A pool with nothing to do does nothing. -/
theorem not_step_of_idle (hqueue : p.queue = []) (hrunning : p.running = []) :
    ¬ Step workers p q := by
  intro h
  cases h with
  | take hidle => exact absurd hqueue (List.cons_ne_nil _ _)
  | finish => simp at hrunning

/-- An idle pool has run every task to its end, unless one was cancelled. -/
theorem finished_of_idle (hqueue : p.queue = []) (hrunning : p.running = [])
    (hcancelled : p.cancelled = []) : p.tasks = p.finished := by
  rw [tasks, hqueue, hrunning, hcancelled, List.append_nil, List.nil_append, List.nil_append]

end ThreadPool
end NetworkProxy
