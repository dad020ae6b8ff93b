import Mathlib.Data.List.Dedup
import Mathlib.Data.List.DropRight

/-!
# Recency order

The order of last use of a sequence of touches, and what a bounded recency list
keeps of it:

* `List.dedup` lists the distinct touched keys by last touch;
* `moveLast` is one touch of a recency list;
* a list that is cut to its last `n` elements after every touch is the list of
  the last `n` elements of the uncut one.
-/

namespace NetworkProxy
namespace Recency

universe u

variable {κ : Type u} [DecidableEq κ]

/-- One touch: `k` becomes the last element. -/
def moveLast (k : κ) (l : List κ) : List κ := l.filter (fun x => x ≠ k) ++ [k]

theorem moveLast_of_not_mem {k : κ} {l : List κ} (h : k ∉ l) : moveLast k l = l ++ [k] := by
  have hkeep : l.filter (fun x => x ≠ k) = l := by
    rw [List.filter_eq_self]
    intro x hx
    rw [decide_eq_true_eq]
    rintro rfl
    exact h hx
  rw [moveLast, hkeep]

theorem length_moveLast_of_mem {k : κ} {l : List κ} (hnd : l.Nodup) (h : k ∈ l) :
    (moveLast k l).length = l.length := by
  have hfilter : l.filter (fun x => x ≠ k) = l.erase k := by
    rw [hnd.erase_eq_filter]
    exact List.filter_congr (fun x _ => by simp [bne, beq_eq_decide])
  have hpos : 0 < l.length := List.length_pos_of_mem h
  rw [moveLast, hfilter, List.length_append, List.length_erase_of_mem h, List.length_singleton]
  omega

/-- The order of last touch, one touch later. -/
theorem dedup_concat (k : κ) (l : List κ) : (l ++ [k]).dedup = moveLast k l.dedup := by
  induction l with
  | nil => simp [moveLast]
  | cons a l ih =>
      rw [List.cons_append, List.dedup_cons, ih, List.dedup_cons]
      rcases eq_or_ne a k with rfl | hne
      · rcases em (a ∈ l) with hmem | hmem
        · simp [hmem]
        · simp [hmem, moveLast]
      · rcases em (a ∈ l) with hmem | hmem
        · simp [hmem]
        · simp [hmem, hne, moveLast]

theorem take_filter_take (k : κ) {l : List κ} (hnd : l.Nodup) (m : ℕ) :
    ((l.take (m + 1)).filter (fun x => x ≠ k)).take m =
      (l.filter (fun x => x ≠ k)).take m := by
  induction l generalizing m with
  | nil => simp
  | cons a l ih =>
      obtain ⟨hfresh, hnd⟩ := List.nodup_cons.mp hnd
      rcases eq_or_ne a k with rfl | hne
      · have hkeep : ∀ l' : List κ, l' ⊆ l → l'.filter (fun x => x ≠ a) = l' := by
          intro l' hsub
          rw [List.filter_eq_self]
          intro x hx
          rw [decide_eq_true_eq]
          rintro rfl
          exact hfresh (hsub hx)
        simp only [List.take_succ_cons, ne_eq, not_true, decide_false, Bool.false_eq_true,
          not_false_eq_true, List.filter_cons_of_neg]
        rw [hkeep _ (List.take_subset m l), hkeep l (List.Subset.refl l), List.take_take,
          min_self]
      · cases m with
        | zero => simp
        | succ m =>
            simp only [List.take_succ_cons, ne_eq, hne, not_false_eq_true, decide_true,
              List.filter_cons_of_pos]
            rw [ih hnd m]

/-- Cutting is compatible with touching.  Only the last `n` elements matter for
the last `n` elements after a touch. -/
theorem rtake_moveLast_rtake (k : κ) {l : List κ} (hnd : l.Nodup) (n : ℕ) :
    (moveLast k (l.rtake n)).rtake n = (moveLast k l).rtake n := by
  cases n with
  | zero => simp
  | succ m =>
      unfold moveLast
      rw [List.rtake_concat_succ, List.rtake_concat_succ]
      congr 1
      simp only [List.rtake_eq_reverse_take_reverse, ← List.filter_reverse, List.reverse_reverse]
      rw [take_filter_take k (List.nodup_reverse.mpr hnd) m]

omit [DecidableEq κ] in
theorem rtake_of_length_le {l : List κ} {n : ℕ} (h : l.length ≤ n) : l.rtake n = l := by
  rw [List.rtake, Nat.sub_eq_zero_of_le h, List.drop_zero]

omit [DecidableEq κ] in
theorem rtake_min (l : List κ) (n : ℕ) :
    l.rtake n = l.drop (l.length - min n l.length) := by
  rw [List.rtake]
  congr 1
  omega

end Recency
end NetworkProxy
