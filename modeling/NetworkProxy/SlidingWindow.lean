import Mathlib.Algebra.BigOperators.Group.List.Basic
import Mathlib.Data.List.DropRight
import Mathlib.Tactic.Abel

/-!
# Windows that slide

The last elements of a growing list, and the differences of neighbours in such a window.
-/

namespace NetworkProxy
namespace Window

universe u

section Gaps

variable {G : Type u} [AddCommGroup G]

/-- The differences of neighbours. -/
def gaps (l : List G) : List G := List.zipWith (fun a b => b - a) l l.tail

theorem gaps_cons_cons (a b : G) (l : List G) : gaps (a :: b :: l) = (b - a) :: gaps (b :: l) :=
  rfl

theorem gaps_tail (l : List G) : gaps l.tail = (gaps l).tail := by
  cases l with
  | nil => rfl
  | cons a l =>
      cases l with
      | nil => rfl
      | cons b l => rfl

theorem gaps_concat (l : List G) (a x : G) :
    gaps (l ++ [a] ++ [x]) = gaps (l ++ [a]) ++ [x - a] := by
  induction l with
  | nil => rfl
  | cons b l ih =>
      cases l with
      | nil => rfl
      | cons c l =>
          simp only [List.cons_append, gaps_cons_cons] at ih ⊢
          rw [ih]

/-- The differences sum up to that of the ends. -/
theorem sum_gaps (a : G) (l : List G) : (gaps (a :: l)).sum = (a :: l).getLast?.getD 0 - a := by
  induction l generalizing a with
  | nil => simp [gaps]
  | cons b l ih =>
      rw [gaps_cons_cons, List.sum_cons, ih, List.getLast?_cons_cons]
      abel

end Gaps

/-- The last `n` elements, when one comes and one goes. -/
theorem rtake_concat {α : Type u} {l : List α} {n : ℕ} (h : n ≤ l.length) (x : α) :
    (l ++ [x]).rtake n = (l.rtake n ++ [x]).tail := by
  rw [List.rtake, List.rtake, ← List.drop_append_of_le_length (by omega), List.tail_drop]
  congr 1
  simp only [List.length_append, List.length_singleton]
  omega

end Window
end NetworkProxy
