import Mathlib.Algebra.Ring.Nat
import Mathlib.Data.List.Basic
import NetworkProxy.OrderedDict

/-!
# Counting in a dictionary

Elements are counted in a dictionary, one after the other; the most frequent ones are listed
by a stable sort of its items.

`ranks_top`: the list has the exact counts, the highest first and the first comers first
among equals, and nothing that is left out comes before what is listed.
-/

namespace NetworkProxy
namespace Tally

universe u

variable {κ : Type u} [DecidableEq κ]

/-- One element more. -/
def count (d : OrderedDict κ ℕ) (k : κ) : OrderedDict κ ℕ := d.set k ((d.get? k).getD 0 + 1)

/-- The counts of some elements. -/
def tally (l : List κ) : OrderedDict κ ℕ := l.foldl count OrderedDict.empty

/-- The `n` items with the highest counts, the earlier ones first among equals. -/
def top (n : ℕ) (d : OrderedDict κ ℕ) : List (κ × ℕ) :=
  (d.items.mergeSort fun a b => decide (b.2 ≤ a.2)).take n

theorem tally_concat (l : List κ) (k : κ) : tally (l ++ [k]) = count (tally l) k := by
  rw [tally, List.foldl_append, List.foldl_cons, List.foldl_nil, tally]

/-! ## The counts -/

theorem getD_get?_tally (l : List κ) (k : κ) : ((tally l).get? k).getD 0 = l.count k := by
  induction l using List.reverseRecOn with
  | nil => rfl
  | append_singleton l x ih =>
      rw [tally_concat, count, OrderedDict.get?_set, List.count_append, List.count_singleton]
      by_cases hx : x = k
      · rw [if_pos hx, Option.getD_some, hx, ih, if_pos (by simp)]
      · rw [if_neg hx, ih, if_neg (by simpa using hx), Nat.add_zero]

theorem mem_keys_tally {l : List κ} {k : κ} : k ∈ (tally l).keys ↔ k ∈ l := by
  induction l using List.reverseRecOn with
  | nil => exact Iff.rfl
  | append_singleton l x ih =>
      rw [tally_concat, count, OrderedDict.keys_set, List.mem_append, List.mem_singleton]
      split
      · rename_i hx
        constructor
        · exact fun h => Or.inl (ih.mp h)
        · rintro (h | rfl)
          · exact ih.mpr h
          · exact hx
      · rw [List.mem_append, List.mem_singleton, ih]

theorem mem_items_tally {l : List κ} {item : κ × ℕ} :
    item ∈ (tally l).items ↔ item.1 ∈ l ∧ item.2 = l.count item.1 := by
  have hcount := getD_get?_tally l item.1
  constructor
  · intro h
    rw [OrderedDict.get?_of_mem_items h, Option.getD_some] at hcount
    exact ⟨mem_keys_tally.mp (List.mem_map_of_mem h), hcount⟩
  · rintro ⟨hmem, hvalue⟩
    obtain ⟨item', hitem', hkey⟩ := List.mem_map.mp (mem_keys_tally.mpr hmem)
    rw [← hkey, OrderedDict.get?_of_mem_items hitem', Option.getD_some] at hcount
    have heq : item' = item := Prod.ext hkey (by rw [hcount, hvalue, hkey])
    exact heq ▸ hitem'

/-- The counts add up. -/
theorem sum_tally (l : List κ) : ((tally l).items.map Prod.snd).sum = l.length := by
  induction l using List.reverseRecOn with
  | nil => rfl
  | append_singleton l x ih =>
      have hset := ((tally l).perm_set x (((tally l).get? x).getD 0 + 1)).map Prod.snd
      rw [tally_concat, count, hset.sum_nat, List.map_cons, List.sum_cons, List.length_append,
        List.length_singleton]
      cases hget : (tally l).get? x with
      | none =>
          rw [OrderedDict.erase_of_get?_eq_none hget, ih, Option.getD_none]
          omega
      | some v =>
          have herase := ((OrderedDict.perm_erase hget).map Prod.snd).sum_nat
          rw [ih, List.map_cons, List.sum_cons] at herase
          rw [Option.getD_some]
          omega

/-- The keys stand in the order in which they came first. -/
theorem pairwise_keys_tally (l : List κ) :
    (tally l).keys.Pairwise fun a b => l.idxOf a < l.idxOf b := by
  induction l using List.reverseRecOn with
  | nil => exact List.Pairwise.nil
  | append_singleton l x ih =>
      have hold : (tally l).keys.Pairwise fun a b => (l ++ [x]).idxOf a < (l ++ [x]).idxOf b := by
        refine ih.imp_of_mem fun ha hb hlt => ?_
        rw [List.idxOf_append_of_mem (mem_keys_tally.mp ha),
          List.idxOf_append_of_mem (mem_keys_tally.mp hb)]
        exact hlt
      rw [tally_concat, count, OrderedDict.keys_set]
      split
      · exact hold
      · rename_i hx
        refine List.pairwise_append.mpr ⟨hold, List.pairwise_singleton _ _, fun a ha b hb => ?_⟩
        obtain rfl := List.mem_singleton.mp hb
        have hmem := mem_keys_tally.mp ha
        have hnew : b ∉ l := fun h => hx (mem_keys_tally.mpr h)
        rw [List.idxOf_append_of_mem hmem, List.idxOf_append_of_notMem hnew]
        exact Nat.lt_of_lt_of_le (List.idxOf_lt_length_iff.mpr hmem) (Nat.le_add_right _ _)

/-! ## The ranking -/

/-- `a` is listed before `b`: its count is higher, or it came first. -/
def Before (l : List κ) (a b : κ × ℕ) : Prop :=
  b.2 < a.2 ∨ b.2 = a.2 ∧ l.idxOf a.1 < l.idxOf b.1

/-- The list ranks the `n` most frequent elements. -/
structure Ranks (n : ℕ) (l : List κ) (ranking : List (κ × ℕ)) : Prop where
  counted : ∀ item ∈ ranking, item.1 ∈ l ∧ item.2 = l.count item.1
  sorted : ranking.Pairwise (Before l)
  /-- What is not listed comes after the whole list, which is full. -/
  complete : ∀ k ∈ l, (k, l.count k) ∈ ranking ∨
    ranking.length = n ∧ ∀ item ∈ ranking, Before l item (k, l.count k)

/-- Two elements of a list without duplicates stand in one order only. -/
theorem not_both_orders {α : Type u} {l : List α} (hnodup : l.Nodup) {a b : α}
    (hab : [a, b].Sublist l) (hba : [b, a].Sublist l) : False := by
  induction l with
  | nil => cases hab
  | cons x l ih =>
      obtain ⟨hx, hl⟩ := List.nodup_cons.mp hnodup
      cases hab with
      | cons _ hab =>
          cases hba with
          | cons _ hba => exact ih hl hab hba
          | cons_cons _ hba => exact hx (hab.subset (by simp))
      | cons_cons _ hab =>
          cases hba with
          | cons _ hba => exact hx (hba.subset (by simp))
          | cons_cons _ hba => exact hx (hba.subset (by simp))

/-- Two elements of a list stand in some order. -/
theorem pair_sublist {α : Type u} {l : List α} {a b : α} (hne : a ≠ b) (ha : a ∈ l)
    (hb : b ∈ l) : [a, b].Sublist l ∨ [b, a].Sublist l := by
  induction l with
  | nil => cases ha
  | cons x l ih =>
      rcases List.mem_cons.mp ha with rfl | hal
      · rcases List.mem_cons.mp hb with rfl | hbl
        · exact absurd rfl hne
        · exact Or.inl ((List.singleton_sublist.mpr hbl).cons_cons a)
      · rcases List.mem_cons.mp hb with rfl | hbl
        · exact Or.inr ((List.singleton_sublist.mpr hal).cons_cons b)
        · exact (ih hal hbl).imp (List.Sublist.cons x) (List.Sublist.cons x)

/-- The sorted items stand in the order of the ranking. -/
theorem pairwise_sorted (l : List κ) :
    ((tally l).items.mergeSort fun a b => decide (b.2 ≤ a.2)).Pairwise (Before l) := by
  have htrans : ∀ a b c : κ × ℕ, decide (b.2 ≤ a.2) = true → decide (c.2 ≤ b.2) = true →
      decide (c.2 ≤ a.2) = true := by
    intro a b c hab hbc
    rw [decide_eq_true_eq] at hab hbc ⊢
    exact Nat.le_trans hbc hab
  have htotal : ∀ a b : κ × ℕ, (decide (b.2 ≤ a.2) || decide (a.2 ≤ b.2)) = true := by
    intro a b
    rw [Bool.or_eq_true, decide_eq_true_eq, decide_eq_true_eq]
    exact Nat.le_total _ _
  have hsorted := List.pairwise_mergeSort htrans htotal (tally l).items
  have hperm := List.mergeSort_perm (tally l).items fun a b => decide (b.2 ≤ a.2)
  have hkeys : (tally l).items.Pairwise fun a b => l.idxOf a.1 < l.idxOf b.1 :=
    (List.pairwise_map (f := Prod.fst)).mp (pairwise_keys_tally l)
  refine List.pairwise_iff_forall_sublist.mpr fun {a b} hab => ?_
  have hle : b.2 ≤ a.2 :=
    of_decide_eq_true (List.pairwise_iff_forall_sublist.mp hsorted hab)
  rcases Nat.lt_or_eq_of_le hle with hlt | heq
  · exact Or.inl hlt
  · refine Or.inr ⟨heq, ?_⟩
    by_contra hnot
    have ha : a ∈ (tally l).items := hperm.mem_iff.mp (hab.subset (by simp))
    have hb : b ∈ (tally l).items := hperm.mem_iff.mp (hab.subset (by simp))
    have hnodup := hperm.nodup_iff.mpr (List.Nodup.of_map _ (tally l).keys_nodup)
    have hne : a ≠ b := by
      rintro rfl
      exact (List.pairwise_iff_forall_sublist.mp hnodup hab) rfl
    have hba : [b, a].Sublist (tally l).items := by
      rcases pair_sublist hne ha hb with hfirst | hsecond
      · exact absurd (List.pairwise_iff_forall_sublist.mp hkeys hfirst) hnot
      · exact hsecond
    exact not_both_orders hnodup hab
      (List.pair_sublist_mergeSort htrans htotal (by simp [heq]) hba)

/-- The ranking. -/
theorem ranks_top (n : ℕ) (l : List κ) : Ranks n l (top n (tally l)) := by
  have hsorted := pairwise_sorted l
  have hmem : ∀ item, item ∈ (tally l).items.mergeSort (fun a b => decide (b.2 ≤ a.2)) ↔
      item.1 ∈ l ∧ item.2 = l.count item.1 := fun item =>
    List.mem_mergeSort.trans mem_items_tally
  rw [top]
  generalize (tally l).items.mergeSort (fun a b => decide (b.2 ≤ a.2)) = items at hsorted hmem
  refine ⟨fun item h => (hmem item).mp (List.mem_of_mem_take h),
    hsorted.sublist (List.take_sublist _ _), fun k hk => ?_⟩
  have hk : (k, l.count k) ∈ items := (hmem _).mpr ⟨hk, rfl⟩
  rw [← List.take_append_drop n items] at hk hsorted
  rcases List.mem_append.mp hk with hlisted | hdropped
  · exact Or.inl hlisted
  · refine Or.inr ⟨?_, fun item hitem => ?_⟩
    · have hlength := List.length_pos_of_mem hdropped
      rw [List.length_drop] at hlength
      rw [List.length_take]
      omega
    · exact (List.pairwise_append.mp hsorted).2.2 item hitem _ hdropped

end Tally
end NetworkProxy
