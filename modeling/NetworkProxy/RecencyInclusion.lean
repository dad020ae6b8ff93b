import NetworkProxy.OrderedDict
import NetworkProxy.Recency

/-!
# Inclusion of bounded recency lists

Two lists of keyed items, most recent last, are cut to `n` and to `m` items.
`Nested` says that the shorter one is part of the longer one in the same order
and that the longer one has at most `m - n` further items.  The second part is
what keeps the first one true: whenever the longer list drops an item, the
shorter one is full as well and drops an item that is no more recent.

Every use of the two lists keeps them nested: deleting a key, making an item the
most recent one in both lists or in the longer one alone, and cutting.
-/

namespace NetworkProxy
namespace Recency

universe u v

variable {κ : Type u} {β : Type v} [DecidableEq κ]

/-- The item becomes the last one and replaces the items with its key. -/
def putLast (k : κ) (v : β) (l : List (κ × β)) : List (κ × β) := delItem k l ++ [(k, v)]

theorem length_delItem_of_findItem {k : κ} {v : β} {l : List (κ × β)}
    (hnd : (l.map Prod.fst).Nodup) (h : findItem k l = some v) :
    (delItem k l).length + 1 = l.length :=
  (perm_delItem hnd h).length_eq.symm

theorem length_delItem_of_findItem_eq_none {k : κ} {l : List (κ × β)}
    (h : findItem k l = none) : (delItem k l).length = l.length := by
  rw [delItem_of_not_mem ((findItem_eq_none_iff k l).mp h)]

theorem length_putLast_of_findItem {k : κ} {v w : β} {l : List (κ × β)}
    (hnd : (l.map Prod.fst).Nodup) (h : findItem k l = some w) :
    (putLast k v l).length = l.length := by
  rw [putLast, List.length_append, List.length_singleton]
  exact length_delItem_of_findItem hnd h

/-- `s`, to be cut to `n` items, is part of `l`, to be cut to `m` items, in the same order, and
`l` has at most `m - n` further items. -/
structure Nested (n m : ℕ) (s l : List (κ × β)) : Prop where
  nodup : (l.map Prod.fst).Nodup
  sublist : s.Sublist l
  room : l.length + n ≤ s.length + m

namespace Nested

variable {n m : ℕ} {s l : List (κ × β)}

omit [DecidableEq κ] in
theorem nil (hle : n ≤ m) : Nested n m ([] : List (κ × β)) [] where
  nodup := List.nodup_nil
  sublist := List.Sublist.refl _
  room := by simpa using hle

omit [DecidableEq κ] in
theorem nodup_left (h : Nested n m s l) : (s.map Prod.fst).Nodup :=
  h.nodup.sublist (h.sublist.map Prod.fst)

/-- A key has the same value in the longer list. -/
theorem findItem (h : Nested n m s l) {k : κ} {v : β} (hv : findItem k s = some v) :
    NetworkProxy.findItem k l = some v :=
  findItem_of_mem h.nodup (h.sublist.subset (mem_of_findItem hv))

/-- A key that the longer list lacks is in neither. -/
theorem findItem_eq_none (h : Nested n m s l) {k : κ}
    (hl : NetworkProxy.findItem k l = none) : NetworkProxy.findItem k s = none := by
  cases hs : NetworkProxy.findItem k s with
  | none => rfl
  | some v =>
      rw [h.findItem hs] at hl
      cases hl

theorem nodup_delItem (h : Nested n m s l) (k : κ) :
    ((delItem k l).map Prod.fst).Nodup := by
  rw [map_fst_delItem]
  exact h.nodup.filter _

theorem nodup_putLast (h : Nested n m s l) (k : κ) (v : β) :
    ((putLast k v l).map Prod.fst).Nodup := by
  rw [putLast, List.map_append, List.map_singleton, List.nodup_append]
  refine ⟨h.nodup_delItem k, by simp, ?_⟩
  intro a ha b hb
  rw [List.mem_singleton.mp hb]
  rintro rfl
  exact not_mem_delItem a l ha

/-- Deleting a key from both lists. -/
theorem delItem (h : Nested n m s l) (k : κ) :
    Nested n m (delItem k s) (delItem k l) where
  nodup := h.nodup_delItem k
  sublist := h.sublist.filter _
  room := by
    have hroom := h.room
    cases hs : NetworkProxy.findItem k s with
    | some v =>
        have hlen := length_delItem_of_findItem h.nodup_left hs
        have hlen' := length_delItem_of_findItem h.nodup (h.findItem hs)
        omega
    | none =>
        have hle : (NetworkProxy.delItem k l).length ≤ l.length := List.length_filter_le _ _
        have hlen := length_delItem_of_findItem_eq_none hs
        omega

/-- An item that becomes the most recent one in both lists. -/
theorem putLast (h : Nested n m s l) (k : κ) (v : β) :
    Nested n m (putLast k v s) (putLast k v l) where
  nodup := h.nodup_putLast k v
  sublist := (h.delItem k).sublist.append (List.Sublist.refl _)
  room := by
    have hroom := (h.delItem k).room
    simp only [Recency.putLast, List.length_append, List.length_singleton]
    omega

/-- A key of the longer list alone becomes its most recent one. -/
theorem putLast_right (h : Nested n m s l) {k : κ} {v : β}
    (hs : NetworkProxy.findItem k s = none) (hl : NetworkProxy.findItem k l = some v) :
    Nested n m s (Recency.putLast k v l) where
  nodup := h.nodup_putLast k v
  sublist := by
    have hsub := (h.delItem k).sublist
    rw [delItem_of_not_mem ((findItem_eq_none_iff k s).mp hs)] at hsub
    exact hsub.trans (List.sublist_append_left _ _)
  room := by
    rw [length_putLast_of_findItem h.nodup hl]
    exact h.room

/-- A key of the longer list alone is deleted. -/
theorem delItem_right (h : Nested n m s l) {k : κ}
    (hs : NetworkProxy.findItem k s = none) :
    Nested n m s (NetworkProxy.delItem k l) := by
  have hdel := h.delItem k
  rwa [delItem_of_not_mem ((findItem_eq_none_iff k s).mp hs)] at hdel

omit [DecidableEq κ] in
/-- Cutting.  The longer list has room for what the shorter one keeps. -/
theorem rtake (h : Nested n m s l) : Nested n m (s.rtake n) (l.rtake m) where
  nodup := h.nodup.sublist ((List.drop_sublist _ l).map Prod.fst)
  sublist := by
    have hroom := h.room
    have hlen := h.sublist.length_le
    have hfewer : l.length - m ≤ s.length - n := by omega
    rw [List.rtake, List.rtake]
    exact (h.sublist.drop (s.length - n)).trans (List.drop_sublist_drop_left l hfewer)
  room := by
    have hroom := h.room
    rw [List.rtake, List.rtake, List.length_drop, List.length_drop]
    omega

end Nested

end Recency
end NetworkProxy
