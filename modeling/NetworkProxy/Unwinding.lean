import Mathlib.Data.List.Basic
import Mathlib.Order.Basic

/-!
# What one observer sees of a run

A machine answers inputs that carry a time.  An observer owns some of the inputs
and sees the answers to these only.

`Unwinds.seen_eq`: when the inputs of others cannot be told from nothing having
happened, the observer sees what it would see with the machine to itself.
-/

namespace NetworkProxy
namespace Unwinding

universe u v w x

variable {σ : Type u} {ι : Type v} {ο : Type w} {τ : Type x}

section Runs

variable (step : σ → ι → ο × σ) (own : ι → Bool)

/-- The answers of a run. -/
def outputs : σ → List ι → List ο
  | _, [] => []
  | s, i :: is => (step s i).1 :: outputs (step s i).2 is

/-- The answers the observer sees. -/
def seen (s : σ) (is : List ι) : List ο :=
  ((is.zip (outputs step s is)).filter (fun p => own p.1)).map Prod.snd

theorem seen_cons_of_own {i : ι} (h : own i = true) (s : σ) (is : List ι) :
    seen step own s (i :: is) = (step s i).1 :: seen step own (step s i).2 is := by
  simp [seen, outputs, h]

theorem seen_cons_of_other {i : ι} (h : own i = false) (s : σ) (is : List ι) :
    seen step own s (i :: is) = seen step own (step s i).2 is := by
  simp [seen, outputs, h]

end Runs

/--
`R t s s'` says that the observer cannot tell `s` from `s'` at time `t`: its own
inputs are answered alike, and the inputs of others on the left go unnoticed.
-/
structure Unwinds [Preorder τ] (step : σ → ι → ο × σ) (own : ι → Bool) (time : ι → τ)
    (R : τ → σ → σ → Prop) : Prop where
  later : ∀ {t t' s s'}, R t s s' → t ≤ t' → R t' s s'
  answer : ∀ {i s s'}, own i = true → R (time i) s s' → (step s i).1 = (step s' i).1
  both : ∀ {i s s'}, own i = true → R (time i) s s' → R (time i) (step s i).2 (step s' i).2
  unnoticed : ∀ {i s s'}, own i = false → R (time i) s s' → R (time i) (step s i).2 s'

section Observer

variable [Preorder τ] {step : σ → ι → ο × σ} {own : ι → Bool} {time : ι → τ}
variable {R : τ → σ → σ → Prop}

/-- The observer sees the run of a machine that got its own inputs only. -/
theorem Unwinds.seen_eq (h : Unwinds step own time R) {is : List ι} :
    ∀ {t : τ} {s s' : σ}, R t s s' → (t :: is.map time).IsChain (· ≤ ·) →
      seen step own s is = outputs step s' (is.filter own) := by
  induction is with
  | nil =>
      intros
      rfl
  | cons i is ih =>
      intro t s s' hR hord
      rw [List.map_cons, List.isChain_cons_cons] at hord
      have hnow : R (time i) s s' := h.later hR hord.1
      cases hown : own i with
      | true =>
          rw [seen_cons_of_own step own hown, List.filter_cons_of_pos hown, outputs,
            h.answer hown hnow, ih (h.both hown hnow) hord.2]
      | false =>
          rw [seen_cons_of_other step own hown, List.filter_cons_of_neg (by simp [hown]),
            ih (h.unnoticed hown hnow) hord.2]

/-- Two runs with the same inputs of the observer look the same to it. -/
theorem Unwinds.seen_eq_seen (h : Unwinds step own time R) {t t' : τ} {s s' r : σ}
    {is is' : List ι} (hs : R t s r) (hs' : R t' s' r)
    (hord : (t :: is.map time).IsChain (· ≤ ·))
    (hord' : (t' :: is'.map time).IsChain (· ≤ ·))
    (hsame : is.filter own = is'.filter own) :
    seen step own s is = seen step own s' is' := by
  rw [h.seen_eq hs hord, h.seen_eq hs' hord', hsame]

end Observer

end Unwinding
end NetworkProxy
