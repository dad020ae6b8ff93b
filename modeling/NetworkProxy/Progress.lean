import Mathlib.Logic.Relation
import Mathlib.Tactic.Common

/-!
# Systems that come to rest

A system makes steps of two kinds: it works, or it idles.  Work uses up a measure as long as an
invariant holds, idling does not add to it.

* `UsesUp.count_le`: a run has no more steps of work than the measure it began with.
* `UsesUp.exists_rest`: from every state the system can work until there is nothing to do.
-/

namespace NetworkProxy

universe u

variable {σ : Type u}

/-- A run with `k` steps of work, and any idling in between. -/
inductive Took (work idle : σ → σ → Prop) : ℕ → σ → σ → Prop
  | refl (s : σ) : Took work idle 0 s s
  | work {k : ℕ} {s s' s'' : σ} (h : Took work idle k s s') (hstep : work s' s'') :
      Took work idle (k + 1) s s''
  | idle {k : ℕ} {s s' s'' : σ} (h : Took work idle k s s') (hstep : idle s' s'') :
      Took work idle k s s''

namespace Took

variable {work idle : σ → σ → Prop} {k k' : ℕ} {s s' s'' : σ}

theorem trans (h : Took work idle k s s') (h' : Took work idle k' s' s'') :
    Took work idle (k + k') s s'' := by
  induction h' with
  | refl s' => exact h
  | work _ hstep ih => exact (ih h).work hstep
  | idle _ hstep ih => exact (ih h).idle hstep

/-- What both kinds of steps keep. -/
theorem invariant {I : σ → Prop} (hwork : ∀ s s', I s → work s s' → I s')
    (hidle : ∀ s s', I s → idle s s' → I s') (h : Took work idle k s s') (hI : I s) : I s' := by
  induction h with
  | refl s => exact hI
  | work _ hstep ih => exact hwork _ _ (ih hI) hstep
  | idle _ hstep ih => exact hidle _ _ (ih hI) hstep

/-- A run of a relation whose steps are of either kind takes some number of steps. -/
theorem exists_of_run {step : σ → σ → Prop} (hkind : ∀ s s', step s s' → work s s' ∨ idle s s')
    (h : Relation.ReflTransGen step s s') : ∃ k, Took work idle k s s' := by
  induction h with
  | refl => exact ⟨0, .refl s⟩
  | tail _ hstep ih =>
      obtain ⟨k, hk⟩ := ih
      rcases hkind _ _ hstep with hwork | hidle
      · exact ⟨k + 1, hk.work hwork⟩
      · exact ⟨k, hk.idle hidle⟩

/-- And back. -/
theorem run {step : σ → σ → Prop} (hwork : ∀ s s', work s s' → step s s')
    (hidle : ∀ s s', idle s s' → step s s') (h : Took work idle k s s') :
    Relation.ReflTransGen step s s' := by
  induction h with
  | refl s => exact .refl
  | work _ hstep ih => exact ih.tail (hwork _ _ hstep)
  | idle _ hstep ih => exact ih.tail (hidle _ _ hstep)

end Took

/-- Work uses up the measure while the invariant holds. -/
structure UsesUp (I : σ → Prop) (work idle : σ → σ → Prop) (measure : σ → ℕ) : Prop where
  work : ∀ s s', I s → work s s' → I s' ∧ measure s' < measure s
  idle : ∀ s s', I s → idle s s' → I s' ∧ measure s' ≤ measure s

namespace UsesUp

variable {I : σ → Prop} {work idle : σ → σ → Prop} {measure : σ → ℕ} {k : ℕ} {s s' : σ}

theorem keeps (h : UsesUp I work idle measure) (hrun : Took work idle k s s') (hI : I s) : I s' :=
  hrun.invariant (fun s s' hI hstep => (h.work s s' hI hstep).1)
    (fun s s' hI hstep => (h.idle s s' hI hstep).1) hI

/-- No run works longer than the measure allows. -/
theorem count_le (h : UsesUp I work idle measure) (hrun : Took work idle k s s') (hI : I s) :
    k + measure s' ≤ measure s := by
  induction hrun with
  | refl s => exact Nat.le_of_eq (Nat.zero_add _)
  | work hrun hstep ih =>
      have hless := (h.work _ _ (h.keeps hrun hI) hstep).2
      have hle := ih hI
      omega
  | idle hrun hstep ih =>
      have hless := (h.idle _ _ (h.keeps hrun hI) hstep).2
      have hle := ih hI
      omega

/-- The system can come to rest. -/
theorem exists_rest (h : UsesUp I work idle measure) (hI : I s) :
    ∃ k s', Took work idle k s s' ∧ ¬ ∃ s'', work s' s'' := by
  generalize hmeasure : measure s = n
  induction n using Nat.strongRecOn generalizing s with
  | ind n ih =>
      by_cases hrest : ∃ s', work s s'
      · obtain ⟨s', hstep⟩ := hrest
        obtain ⟨hI', hless⟩ := h.work s s' hI hstep
        obtain ⟨k, s'', hrun, hend⟩ := ih (measure s') (hmeasure ▸ hless) hI' rfl
        exact ⟨0 + 1 + k, s'', ((Took.refl s).work hstep).trans hrun, hend⟩
      · exact ⟨0, s, .refl s, hrest⟩

end UsesUp
end NetworkProxy
