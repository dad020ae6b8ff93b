import Mathlib.Data.List.Induction
import Mathlib.Data.List.Nodup
import Mathlib.Data.List.Lookmap

/-!
# Insertion-ordered dictionaries

A dictionary that remembers the order of its keys, in the manner of Python's
`dict` and `collections.OrderedDict`:

* assigning to a present key keeps its position, assigning to an absent key
  appends it;
* `moveToEnd` makes a present key the last one;
* `popFirst` removes the first item.

Keys are pairwise distinct by construction, so every operation carries the
proof of its own well-formedness.
-/

namespace NetworkProxy

universe u v

section Items

variable {κ : Type u} {β : Type v} [DecidableEq κ]

/-- Value of the first item with key `k`. -/
def findItem (k : κ) : List (κ × β) → Option β
  | [] => none
  | (k', v) :: rest => if k' = k then some v else findItem k rest

/-- Assignment `d[k] = v` on the item list. -/
def setItem (k : κ) (v : β) : List (κ × β) → List (κ × β)
  | [] => [(k, v)]
  | (k', v') :: rest =>
      if k' = k then (k, v) :: rest else (k', v') :: setItem k v rest

/-- Deletion `del d[k]` on the item list. -/
def delItem (k : κ) (l : List (κ × β)) : List (κ × β) :=
  l.filter (fun p => p.1 ≠ k)

theorem map_fst_setItem (k : κ) (v : β) :
    ∀ l : List (κ × β),
      (setItem k v l).map Prod.fst =
        if k ∈ l.map Prod.fst then l.map Prod.fst else l.map Prod.fst ++ [k]
  | [] => by simp [setItem]
  | (k', v') :: rest => by
      have ih := map_fst_setItem k v rest
      by_cases h : k' = k
      · subst h
        simp [setItem]
      · have hne : ¬ k = k' := fun he => h he.symm
        by_cases hm : k ∈ rest.map Prod.fst
        · simp only [setItem, h, if_false, List.map_cons, ih,
            List.mem_cons, hm, or_true, if_true]
        · simp only [setItem, h, if_false, List.map_cons, ih,
            List.mem_cons, hne, hm, or_self, List.cons_append]

/-- Restricted to some of the keys, an assignment is one or changes nothing. -/
theorem filter_setItem (q : κ → Bool) (k : κ) (v : β) :
    ∀ l : List (κ × β),
      (setItem k v l).filter (fun p => q p.1) =
        if q k then setItem k v (l.filter (fun p => q p.1)) else l.filter (fun p => q p.1)
  | [] => by
      cases hk : q k <;> simp [setItem, hk]
  | (k', v') :: rest => by
      have ih := filter_setItem q k v rest
      by_cases h : k' = k
      · subst h
        cases hk : q k' <;> simp [setItem, hk]
      · cases hk' : q k' <;> cases hk : q k <;> simp_all [setItem]

theorem findItem_setItem (k k' : κ) (v : β) :
    ∀ l : List (κ × β),
      findItem k' (setItem k v l) = if k = k' then some v else findItem k' l
  | [] => by simp [setItem, findItem]
  | (k₀, v₀) :: rest => by
      have ih := findItem_setItem k k' v rest
      by_cases h : k₀ = k
      · subst h
        by_cases h' : k₀ = k' <;> simp [setItem, findItem, h']
      · rw [setItem, if_neg h]
        by_cases h' : k₀ = k'
        · have : ¬ k = k' := fun he => h (h'.trans he.symm)
          simp [findItem, h', this]
        · simp [findItem, h', ih]

theorem findItem_eq_none_iff (k : κ) :
    ∀ l : List (κ × β), findItem k l = none ↔ k ∉ l.map Prod.fst
  | [] => by simp [findItem]
  | (k', v) :: rest => by
      have ih := findItem_eq_none_iff k rest
      by_cases h : k' = k
      · simp [findItem, h]
      · have hne : ¬ k = k' := fun he => h he.symm
        simp only [findItem, h, if_false, ih, List.map_cons, List.mem_cons, hne, false_or]

theorem findItem_delItem (k k' : κ) :
    ∀ l : List (κ × β),
      findItem k' (delItem k l) = if k = k' then none else findItem k' l
  | [] => by simp [delItem, findItem]
  | (k₀, v₀) :: rest => by
      have ih := findItem_delItem k k' rest
      unfold delItem at ih ⊢
      by_cases h : k₀ = k
      · subst h
        rw [List.filter_cons_of_neg (by simp), ih]
        by_cases h' : k₀ = k' <;> simp [findItem, h']
      · rw [List.filter_cons_of_pos (by simpa using h)]
        by_cases h' : k₀ = k'
        · have : ¬ k = k' := fun he => h (h'.trans he.symm)
          simp [findItem, h', this]
        · simp only [findItem, h', if_false, ih]

theorem map_fst_delItem (k : κ) (l : List (κ × β)) :
    (delItem k l).map Prod.fst = (l.map Prod.fst).filter (fun x => x ≠ k) := by
  simp [delItem, List.filter_map, Function.comp_def]

theorem not_mem_delItem (k : κ) (l : List (κ × β)) : k ∉ (delItem k l).map Prod.fst := by
  rw [map_fst_delItem]
  simp

theorem mem_of_findItem {k : κ} {v : β} :
    ∀ {l : List (κ × β)}, findItem k l = some v → (k, v) ∈ l
  | [], h => by simp [findItem] at h
  | (k', v') :: rest, h => by
      by_cases he : k' = k
      · simp [findItem, he] at h
        simp [he, h]
      · simp only [findItem, he, if_false] at h
        exact List.mem_cons_of_mem _ (mem_of_findItem h)

theorem findItem_of_mem {k : κ} {v : β} {l : List (κ × β)}
    (hnd : (l.map Prod.fst).Nodup) (h : (k, v) ∈ l) : findItem k l = some v := by
  induction l with
  | nil => simp at h
  | cons p rest ih =>
      obtain ⟨k', v'⟩ := p
      rw [List.map_cons, List.nodup_cons] at hnd
      rcases List.mem_cons.mp h with he | hr
      · simp only [Prod.mk.injEq] at he
        simp [findItem, he.1, he.2]
      · have hne : ¬ k' = k := by
          rintro rfl
          exact hnd.1 (List.mem_map.mpr ⟨(k', v), hr, rfl⟩)
        rw [findItem, if_neg hne, ih hnd.2 hr]

/-- Distinct keys: the items with a given key are at most one. -/
theorem filter_key_eq {k : κ} {l : List (κ × β)} (hnd : (l.map Prod.fst).Nodup) :
    l.filter (fun p => p.1 = k) = ((findItem k l).map (fun v => (k, v))).toList := by
  induction l with
  | nil => rfl
  | cons p rest ih =>
      obtain ⟨k', v'⟩ := p
      rw [List.map_cons, List.nodup_cons] at hnd
      by_cases h : k' = k
      · subst h
        have hnone : rest.filter (fun p => p.1 = k') = [] := by
          rw [ih hnd.2, (findItem_eq_none_iff k' rest).mpr hnd.1]
          rfl
        rw [List.filter_cons_of_pos (by simp), hnone, findItem, if_pos rfl]
        rfl
      · rw [List.filter_cons_of_neg (by simpa using h), ih hnd.2, findItem, if_neg h]

/-- Without the key there is nothing to delete. -/
theorem delItem_of_not_mem {k : κ} {l : List (κ × β)} (h : k ∉ l.map Prod.fst) :
    delItem k l = l := by
  refine List.filter_eq_self.mpr fun p hp => ?_
  simp only [ne_eq, decide_eq_true_eq]
  rintro rfl
  exact h (List.mem_map_of_mem hp)

/-- Assigning to a key that the first items lack happens behind them. -/
theorem setItem_append_of_not_mem {k : κ} (v : β) (l₂ : List (κ × β)) :
    ∀ {l₁ : List (κ × β)}, k ∉ l₁.map Prod.fst →
      setItem k v (l₁ ++ l₂) = l₁ ++ setItem k v l₂
  | [], _ => rfl
  | (k', v') :: rest, h => by
      rw [List.map_cons, List.mem_cons, not_or] at h
      rw [List.cons_append, setItem, if_neg (fun he => h.1 he.symm),
        setItem_append_of_not_mem v l₂ h.2, List.cons_append]

theorem setItem_of_not_mem {k : κ} (v : β) {l : List (κ × β)} (h : k ∉ l.map Prod.fst) :
    setItem k v l = l ++ [(k, v)] := by
  have happend := setItem_append_of_not_mem v [] h
  rwa [List.append_nil] at happend

theorem delItem_setItem_self (k : κ) (v : β) :
    ∀ l : List (κ × β), delItem k (setItem k v l) = delItem k l
  | [] => by simp [setItem, delItem]
  | (k', v') :: rest => by
      have ih := delItem_setItem_self k v rest
      unfold delItem at ih ⊢
      by_cases h : k' = k
      · simp [setItem, h]
      · simp only [setItem, h, if_false, List.filter_cons, ih]

theorem delItem_setItem_of_ne {j k : κ} (h : j ≠ k) (v : β) :
    ∀ l : List (κ × β), delItem k (setItem j v l) = setItem j v (delItem k l)
  | [] => by simp [setItem, delItem, h]
  | (k', v') :: rest => by
      have ih := delItem_setItem_of_ne h v rest
      unfold delItem at ih ⊢
      by_cases hj : k' = j
      · subst hj
        simp [setItem, h]
      · rw [setItem, if_neg hj]
        by_cases hk : k' = k
        · rw [List.filter_cons_of_neg (by simpa using hk), ih,
            List.filter_cons_of_neg (by simpa using hk)]
        · rw [List.filter_cons_of_pos (by simpa using hk), ih,
            List.filter_cons_of_pos (by simpa using hk), setItem, if_neg hj]

/-- Assigning puts one item in the place of the items with the key. -/
theorem perm_setItem {k : κ} {v : β} :
    ∀ {l : List (κ × β)}, (l.map Prod.fst).Nodup →
      (setItem k v l).Perm ((k, v) :: delItem k l)
  | [], _ => List.Perm.refl _
  | (k', v') :: rest, hnd => by
      rw [List.map_cons, List.nodup_cons] at hnd
      by_cases h : k' = k
      · subst h
        rw [setItem, if_pos rfl, delItem, List.filter_cons_of_neg (by simp), ← delItem,
          delItem_of_not_mem hnd.1]
      · rw [setItem, if_neg h, delItem, List.filter_cons_of_pos (by simpa using h), ← delItem]
        exact ((perm_setItem hnd.2).cons _).trans (List.Perm.swap _ _ _)

/-- A present item and what deleting its key leaves make up the whole. -/
theorem perm_delItem {k : κ} {v : β} :
    ∀ {l : List (κ × β)}, (l.map Prod.fst).Nodup → findItem k l = some v →
      l.Perm ((k, v) :: delItem k l)
  | [], _, h => by cases h
  | (k', v') :: rest, hnd, h => by
      rw [List.map_cons, List.nodup_cons] at hnd
      by_cases hk : k' = k
      · subst hk
        rw [findItem, if_pos rfl, Option.some.injEq] at h
        rw [delItem, List.filter_cons_of_neg (by simp), ← delItem, delItem_of_not_mem hnd.1, h]
      · rw [findItem, if_neg hk] at h
        rw [delItem, List.filter_cons_of_pos (by simpa using hk), ← delItem]
        exact ((perm_delItem hnd.2 h).cons _).trans (List.Perm.swap _ _ _)

end Items

/-- An insertion-ordered dictionary; the keys are pairwise distinct. -/
structure OrderedDict (κ : Type u) (β : Type v) where
  items : List (κ × β)
  nodup : (items.map Prod.fst).Nodup
deriving DecidableEq

namespace OrderedDict

variable {κ : Type u} {β : Type v}

@[ext] theorem ext {d e : OrderedDict κ β} (h : d.items = e.items) : d = e := by
  cases d
  cases e
  simpa using h

def empty : OrderedDict κ β := ⟨[], by simp⟩

/-- Keys in their internal order. -/
def keys (d : OrderedDict κ β) : List κ := d.items.map Prod.fst

def size (d : OrderedDict κ β) : Nat := d.items.length

theorem keys_nodup (d : OrderedDict κ β) : d.keys.Nodup := d.nodup

@[simp] theorem keys_empty : (empty : OrderedDict κ β).keys = [] := rfl

@[simp] theorem length_keys (d : OrderedDict κ β) : d.keys.length = d.size := by
  simp [keys, size]

/-- `popitem(last=False)`: the first item and the remaining dictionary. -/
def popFirst (d : OrderedDict κ β) : Option ((κ × β) × OrderedDict κ β) :=
  match d with
  | ⟨[], _⟩ => none
  | ⟨p :: rest, h⟩ => some (p, ⟨rest, (List.nodup_cons.mp h).2⟩)

theorem popFirst_eq_some {d e : OrderedDict κ β} {p : κ × β}
    (h : d.popFirst = some (p, e)) :
    d.items = p :: e.items := by
  obtain ⟨items, hnd⟩ := d
  cases items with
  | nil => simp [popFirst] at h
  | cons q rest =>
      simp only [popFirst, Option.some.injEq, Prod.mk.injEq] at h
      obtain ⟨rfl, rfl⟩ := h
      rfl

theorem popFirst_eq_none_iff {d : OrderedDict κ β} :
    d.popFirst = none ↔ d.size = 0 := by
  obtain ⟨items, hnd⟩ := d
  cases items <;> simp [popFirst, size]

variable [DecidableEq κ]

/-- `d.get(k)`. -/
def get? (d : OrderedDict κ β) (k : κ) : Option β := findItem k d.items

/-- `d[k] = v`. -/
def set (d : OrderedDict κ β) (k : κ) (v : β) : OrderedDict κ β where
  items := setItem k v d.items
  nodup := by
    rw [map_fst_setItem]
    split
    · exact d.nodup
    · rename_i h
      exact List.nodup_append.mpr
        ⟨d.nodup, by simp, by
          intro a ha b hb
          rw [List.mem_singleton.mp hb]
          rintro rfl
          exact h ha⟩

/-- `del d[k]`. -/
def erase (d : OrderedDict κ β) (k : κ) : OrderedDict κ β where
  items := delItem k d.items
  nodup := by
    rw [map_fst_delItem]
    exact d.nodup.filter _

/-- `d.move_to_end(k)`; an absent key is left absent. -/
def moveToEnd (d : OrderedDict κ β) (k : κ) : OrderedDict κ β :=
  match d.get? k with
  | none => d
  | some v => (d.erase k).set k v

@[simp] theorem get?_empty (k : κ) : (empty : OrderedDict κ β).get? k = none := rfl

theorem get?_eq_none_iff (d : OrderedDict κ β) (k : κ) :
    d.get? k = none ↔ k ∉ d.keys :=
  findItem_eq_none_iff k d.items

theorem get?_isSome_iff (d : OrderedDict κ β) (k : κ) :
    (d.get? k).isSome ↔ k ∈ d.keys := by
  have h := d.get?_eq_none_iff k
  cases hg : d.get? k with
  | none =>
      simpa using h.mp hg
  | some v =>
      simp only [Option.isSome_some, true_iff]
      by_contra hk
      simp [h.mpr hk] at hg

theorem mem_keys_of_get? {d : OrderedDict κ β} {k : κ} {v : β}
    (h : d.get? k = some v) : k ∈ d.keys :=
  (d.get?_isSome_iff k).mp (by simp [h])

theorem mem_items_of_get? {d : OrderedDict κ β} {k : κ} {v : β}
    (h : d.get? k = some v) : (k, v) ∈ d.items :=
  mem_of_findItem h

theorem get?_of_mem_items {d : OrderedDict κ β} {k : κ} {v : β}
    (h : (k, v) ∈ d.items) : d.get? k = some v :=
  findItem_of_mem d.nodup h

theorem get?_set (d : OrderedDict κ β) (k k' : κ) (v : β) :
    (d.set k v).get? k' = if k = k' then some v else d.get? k' :=
  findItem_setItem k k' v d.items

@[simp] theorem get?_set_self (d : OrderedDict κ β) (k : κ) (v : β) :
    (d.set k v).get? k = some v := by
  simp [get?_set]

theorem keys_set (d : OrderedDict κ β) (k : κ) (v : β) :
    (d.set k v).keys = if k ∈ d.keys then d.keys else d.keys ++ [k] :=
  map_fst_setItem k v d.items

theorem get?_erase (d : OrderedDict κ β) (k k' : κ) :
    (d.erase k).get? k' = if k = k' then none else d.get? k' :=
  findItem_delItem k k' d.items

/-- Dictionaries that agree without a key agree on the other keys. -/
theorem get?_of_erase_eq {d e : OrderedDict κ β} {j k : κ} (h : d.erase k = e.erase k)
    (hj : k ≠ j) : d.get? j = e.get? j := by
  have hget : (d.erase k).get? j = (e.erase k).get? j := congrArg (fun d => d.get? j) h
  rwa [get?_erase, get?_erase, if_neg hj, if_neg hj] at hget

theorem keys_erase (d : OrderedDict κ β) (k : κ) :
    (d.erase k).keys = d.keys.filter (fun x => x ≠ k) :=
  map_fst_delItem k d.items

theorem perm_set (d : OrderedDict κ β) (k : κ) (v : β) :
    (d.set k v).items.Perm ((k, v) :: (d.erase k).items) :=
  perm_setItem d.nodup

theorem perm_erase {d : OrderedDict κ β} {k : κ} {v : β} (h : d.get? k = some v) :
    d.items.Perm ((k, v) :: (d.erase k).items) :=
  perm_delItem d.nodup h

theorem erase_of_get?_eq_none {d : OrderedDict κ β} {k : κ} (h : d.get? k = none) :
    d.erase k = d :=
  ext (delItem_of_not_mem ((d.get?_eq_none_iff k).mp h))

/-- Assigning to a deleted key leaves nothing. -/
theorem erase_set_self (d : OrderedDict κ β) (k : κ) (v : β) :
    (d.set k v).erase k = d.erase k :=
  ext (delItem_setItem_self k v d.items)

/-- Assigning to another key keeps its place among the others. -/
theorem erase_set_of_ne (d : OrderedDict κ β) {j k : κ} (h : j ≠ k) (v : β) :
    (d.set j v).erase k = (d.erase k).set j v :=
  ext (delItem_setItem_of_ne h v d.items)

/-- A list of assignments without a key: those to the other keys. -/
theorem erase_foldl_set (k : κ) (l : List (κ × β)) (d : OrderedDict κ β) :
    (l.foldl (fun d p => d.set p.1 p.2) d).erase k =
      (l.filter (fun p => p.1 ≠ k)).foldl (fun d p => d.set p.1 p.2) (d.erase k) := by
  induction l generalizing d with
  | nil => rfl
  | cons p l ih =>
      rw [List.foldl_cons, ih]
      by_cases hp : p.1 = k
      · rw [List.filter_cons_of_neg (by simpa using hp), hp, erase_set_self]
      · rw [List.filter_cons_of_pos (by simpa using hp), List.foldl_cons, erase_set_of_ne d hp]

/-- Value of the last item with key `k` of a list of assignments. -/
def lastValue (k : κ) (l : List (κ × β)) : Option β :=
  ((l.filter (fun p => p.1 = k)).getLast?).map Prod.snd

theorem mem_of_lastValue {k : κ} {v : β} {l : List (κ × β)} (h : lastValue k l = some v) :
    (k, v) ∈ l := by
  rw [lastValue, Option.map_eq_some_iff] at h
  obtain ⟨⟨k', v'⟩, hlast, rfl⟩ := h
  obtain ⟨hmem, hk⟩ := List.mem_filter.mp (List.mem_of_getLast? hlast)
  rw [decide_eq_true_eq] at hk
  subst hk
  exact hmem

/-- An item whose key does not come again has the last value of the key. -/
theorem lastValue_append_cons {k : κ} {l₂ : List (κ × β)} (h : ∀ p, p ∈ l₂ → p.1 ≠ k)
    (l₁ : List (κ × β)) (v : β) : lastValue k (l₁ ++ (k, v) :: l₂) = some v := by
  have hnone : l₂.filter (fun p => p.1 = k) = [] :=
    List.filter_eq_nil_iff.mpr fun p hp => by simpa using h p hp
  rw [lastValue, List.filter_append, List.filter_cons_of_pos (by simp), hnone,
    List.getLast?_append]
  rfl

/-- Assigning a list of items one after the other: the last one of a key counts. -/
theorem get?_foldl_set (l : List (κ × β)) (k : κ) :
    (l.foldl (fun d p => d.set p.1 p.2) (empty : OrderedDict κ β)).get? k = lastValue k l := by
  induction l using List.reverseRecOn with
  | nil => rfl
  | append_singleton l p ih =>
      rw [List.foldl_append, List.foldl_cons, List.foldl_nil, get?_set, lastValue,
        List.filter_append]
      rcases eq_or_ne p.1 k with hk | hk
      · simp [hk]
      · rw [if_neg hk, ih, lastValue]
        simp [hk]

/-- Assignments to keys that differ: each key has the value of its own. -/
theorem get?_foldl_set_find {ι : Type*} (key : ι → κ) (value : ι → β) {l : List ι} :
    ∀ {d : OrderedDict κ β}, (l.map key).Nodup → ∀ k : κ,
      (l.foldl (fun d a => d.set (key a) (value a)) d).get? k =
        ((l.find? fun a => key a = k).map value).or (d.get? k) := by
  induction l with
  | nil => exact fun _ _ => rfl
  | cons a l ih =>
      intro d hnodup k
      rw [List.map_cons, List.nodup_cons] at hnodup
      rw [List.foldl_cons, ih hnodup.2, get?_set]
      by_cases ha : key a = k
      · have hnone : l.find? (fun a => key a = k) = none := by
          rw [List.find?_eq_none]
          intro b hb hkey
          exact hnodup.1 (List.mem_map.mpr ⟨b, hb, (of_decide_eq_true hkey).trans ha.symm⟩)
        rw [hnone, if_pos ha, List.find?_cons_of_pos (by simpa using ha)]
        rfl
      · rw [if_neg ha, List.find?_cons_of_neg (by simpa using ha)]

theorem items_eq_filterMap (d : OrderedDict κ β) :
    d.items = d.keys.filterMap (fun k => (d.get? k).map (fun v => (k, v))) := by
  rw [keys, List.filterMap_map]
  refine (List.filterMap_some.symm.trans (List.filterMap_congr fun p hp => ?_))
  rw [Function.comp_apply, get?_of_mem_items (k := p.1) (v := p.2) hp]
  rfl

/-- Restricted to some of the keys, a list of assignments is the list of those to them. -/
theorem filter_foldl_set (q : κ → Bool) (l : List (κ × β)) {d e : OrderedDict κ β}
    (h : d.items.filter (fun p => q p.1) = e.items) :
    (l.foldl (fun d p => d.set p.1 p.2) d).items.filter (fun p => q p.1) =
      ((l.filter (fun p => q p.1)).foldl (fun d p => d.set p.1 p.2) e).items := by
  induction l generalizing d e with
  | nil => exact h
  | cons p l ih =>
      have hset := filter_setItem q p.1 p.2 d.items
      rw [h] at hset
      cases hp : q p.1 with
      | true =>
          rw [hp, if_pos rfl] at hset
          have hfilter : (p :: l).filter (fun p => q p.1) = p :: l.filter (fun p => q p.1) :=
            List.filter_cons_of_pos hp
          rw [hfilter, List.foldl_cons, List.foldl_cons]
          exact ih hset
      | false =>
          rw [hp, if_neg Bool.false_ne_true] at hset
          rw [List.filter_cons_of_neg (by simp [hp]), List.foldl_cons]
          exact ih hset

/-- Assignments keep the keys where they are. -/
theorem keys_prefix_foldl_set (l : List (κ × β)) (d : OrderedDict κ β) :
    d.keys <+: (l.foldl (fun d p => d.set p.1 p.2) d).keys := by
  induction l generalizing d with
  | nil => exact List.prefix_rfl
  | cons p l ih =>
      have hset : d.keys <+: (d.set p.1 p.2).keys := by
        rw [keys_set]
        split
        · exact List.prefix_rfl
        · exact List.prefix_append _ _
      exact hset.trans (ih _)

theorem mem_keys_foldl_set (l : List (κ × β)) (d : OrderedDict κ β) {k : κ} :
    k ∈ (l.foldl (fun d p => d.set p.1 p.2) d).keys ↔ k ∈ d.keys ∨ k ∈ l.map Prod.fst := by
  induction l generalizing d with
  | nil => simp
  | cons p l ih =>
      rw [List.foldl_cons, ih, keys_set, List.map_cons, List.mem_cons]
      split
      · rename_i hp
        constructor
        · exact fun h => h.imp_right Or.inr
        · rintro (h | rfl | h)
          · exact Or.inl h
          · exact Or.inl hp
          · exact Or.inr h
      · rw [List.mem_append, List.mem_singleton, or_assoc]

/-- Assignments to different keys append those that are new. -/
theorem keys_foldl_set {l : List (κ × β)} (hnd : (l.map Prod.fst).Nodup) (d : OrderedDict κ β) :
    (l.foldl (fun d p => d.set p.1 p.2) d).keys =
      d.keys ++ (l.map Prod.fst).filter (fun k => k ∉ d.keys) := by
  induction l generalizing d with
  | nil => exact (List.append_nil _).symm
  | cons p l ih =>
      rw [List.map_cons, List.nodup_cons] at hnd
      rw [List.foldl_cons, ih hnd.2, keys_set, List.map_cons]
      by_cases hp : p.1 ∈ d.keys
      · rw [if_pos hp, List.filter_cons_of_neg (by simpa using hp)]
      · have hrest : (l.map Prod.fst).filter (fun k => k ∉ d.keys ++ [p.1]) =
            (l.map Prod.fst).filter (fun k => k ∉ d.keys) := by
          refine List.filter_congr fun k hk => ?_
          have hne : k ≠ p.1 := by
            rintro rfl
            exact hnd.1 hk
          simp [hne]
        rw [if_neg hp, hrest, List.filter_cons_of_pos (by simpa using hp), List.append_assoc]
        rfl

theorem keys_foldl_set_of_prefix {l : List (κ × β)} (hnd : (l.map Prod.fst).Nodup)
    {d : OrderedDict κ β} (h : d.keys <+: l.map Prod.fst) :
    (l.foldl (fun d p => d.set p.1 p.2) d).keys = l.map Prod.fst := by
  obtain ⟨rest, hrest⟩ := h
  have hdisjoint := List.disjoint_of_nodup_append (hrest ▸ hnd)
  have hnew : ∀ k, k ∈ rest → decide (k ∉ d.keys) = true :=
    fun k hk => decide_eq_true fun hmem => hdisjoint hmem hk
  have hold : d.keys.filter (fun k => k ∉ d.keys) = [] := by simp
  rw [keys_foldl_set hnd, ← hrest, List.filter_append, hold, List.nil_append,
    List.filter_eq_self.mpr hnew]

/-- In a list of assignments to different keys, the value of a key is the one assigned. -/
theorem lastValue_append {l : List (κ × β)} (hnd : (l.map Prod.fst).Nodup) {k : κ} {v : β}
    (h : (k, v) ∈ l) (others : List (κ × β)) : lastValue k (others ++ l) = some v := by
  have hone : l.filter (fun p => p.1 = k) = [(k, v)] := by
    rw [filter_key_eq hnd, findItem_of_mem hnd h]
    rfl
  rw [lastValue, List.filter_append, hone, List.getLast?_append]
  rfl

/-- When a list of assignments becomes the items of the dictionary, after some others: no key
comes twice, the values are the wanted ones, and the others have brought only the first keys. -/
theorem items_foldl_set_append_eq_iff {ι : Type*} (others : List (κ × β)) (l : List ι)
    (key : ι → κ) (value value' : ι → β) :
    ((others ++ l.map (fun i => (key i, value i))).foldl (fun d p => d.set p.1 p.2)
        (empty : OrderedDict κ β)).items = l.map (fun i => (key i, value' i)) ↔
      (l.map key).Nodup ∧ (∀ i, i ∈ l → value i = value' i) ∧
        (others.foldl (fun d p => d.set p.1 p.2) (empty : OrderedDict κ β)).keys <+:
          l.map key := by
  have hkeys : ∀ value : ι → β,
      (l.map (fun i => (key i, value i))).map Prod.fst = l.map key := fun _ => List.map_map
  have hget : (l.map key).Nodup → ∀ i, i ∈ l →
      ((others ++ l.map (fun i => (key i, value i))).foldl (fun d p => d.set p.1 p.2)
        (empty : OrderedDict κ β)).get? (key i) = some (value i) := by
    intro hnd i hi
    have hmem : (key i, value i) ∈ l.map (fun i => (key i, value i)) := List.mem_map_of_mem hi
    rw [get?_foldl_set]
    exact lastValue_append ((hkeys value).symm ▸ hnd) hmem others
  constructor
  · intro heq
    have hnd : (l.map key).Nodup := by
      rw [← hkeys value', ← heq]
      exact nodup _
    refine ⟨hnd, fun i hi => ?_, ?_⟩
    · have hmem : (key i, value' i) ∈ l.map (fun i => (key i, value' i)) :=
        List.mem_map_of_mem hi
      rw [← heq] at hmem
      exact Option.some.inj ((hget hnd i hi).symm.trans (get?_of_mem_items hmem))
    · rw [← hkeys value', ← heq, List.foldl_append]
      exact keys_prefix_foldl_set _ _
  · rintro ⟨hnd, hvalues, hprefix⟩
    have hall : ((others ++ l.map (fun i => (key i, value i))).foldl (fun d p => d.set p.1 p.2)
        (empty : OrderedDict κ β)).keys = l.map key := by
      rw [← hkeys value] at hnd hprefix
      rw [List.foldl_append, keys_foldl_set_of_prefix hnd hprefix, hkeys value]
    generalize (others ++ l.map (fun i => (key i, value i))).foldl (fun d p => d.set p.1 p.2)
      (empty : OrderedDict κ β) = d at hget hall ⊢
    rw [items_eq_filterMap, hall, List.filterMap_map, ← List.filterMap_eq_map]
    refine List.filterMap_congr fun i hi => ?_
    rw [Function.comp_apply, hget hnd i hi, Option.map_some, hvalues i hi]
    rfl

/-- In a list of the items of a dictionary, in whatever order, the last value of a key is
its value. -/
theorem lastValue_of_perm (d : OrderedDict κ β) {l : List (κ × β)} (h : l.Perm d.items) (k : κ) :
    lastValue k l = d.get? k := by
  have hnd : (l.map Prod.fst).Nodup := (h.map Prod.fst).nodup_iff.mpr d.nodup
  have hfind : findItem k l = d.get? k := by
    refine Option.ext fun v => ⟨fun hv => ?_, fun hv => ?_⟩
    · exact get?_of_mem_items (h.mem_iff.mp (mem_of_findItem hv))
    · exact findItem_of_mem hnd (h.mem_iff.mpr (mem_items_of_get? hv))
  rw [lastValue, filter_key_eq hnd, hfind]
  cases d.get? k <;> rfl

/-- Deleting a list of keys one after the other. -/
theorem get?_foldl_erase (ks : List κ) (d : OrderedDict κ β) (k : κ) :
    (ks.foldl erase d).get? k = if k ∈ ks then none else d.get? k := by
  induction ks generalizing d with
  | nil => simp
  | cons x ks ih =>
      rw [List.foldl_cons, ih, get?_erase]
      rcases eq_or_ne x k with rfl | hx
      · simp
      · simp [hx, hx.symm]

/-- Deleting the keys of the items that satisfy `q` keeps exactly the others. -/
theorem get?_foldl_erase_filter (d : OrderedDict κ β) (q : κ × β → Bool) (k : κ) :
    (((d.items.filter q).map Prod.fst).foldl erase d).get? k =
      (d.get? k).filter (fun v => !q (k, v)) := by
  rw [get?_foldl_erase]
  cases hv : d.get? k with
  | none => simp
  | some v =>
      have hmem := mem_items_of_get? hv
      cases hq : q (k, v) with
      | true =>
          have hin : k ∈ (d.items.filter q).map Prod.fst :=
            List.mem_map.mpr ⟨(k, v), List.mem_filter.mpr ⟨hmem, hq⟩, rfl⟩
          simp [hin, Option.filter, hq]
      | false =>
          have hout : k ∉ (d.items.filter q).map Prod.fst := by
            intro hin
            obtain ⟨⟨k', v'⟩, hfil, rfl⟩ := List.mem_map.mp hin
            obtain ⟨hmem', hq'⟩ := List.mem_filter.mp hfil
            rw [get?_of_mem_items hmem', Option.some.injEq] at hv
            subst hv
            rw [hq] at hq'
            cases hq'
          simp only [hout, if_false, Option.filter, hq, Bool.not_false, if_true]

theorem get?_moveToEnd (d : OrderedDict κ β) (k k' : κ) :
    (d.moveToEnd k).get? k' = d.get? k' := by
  unfold moveToEnd
  cases h : d.get? k with
  | none => rfl
  | some v =>
      by_cases hk : k = k'
      · subst hk
        simp [h]
      · simp [get?_set, get?_erase, hk]

theorem keys_moveToEnd {d : OrderedDict κ β} {k : κ} (hk : k ∈ d.keys) :
    (d.moveToEnd k).keys = d.keys.filter (fun x => x ≠ k) ++ [k] := by
  unfold moveToEnd
  cases h : d.get? k with
  | none => exact absurd hk ((d.get?_eq_none_iff k).mp h)
  | some v =>
      simp [keys_set, keys_erase]

/-- The dictionary under other names of its keys. -/
def mapKeys {ι : Type*} {f : κ → ι} (hf : Function.Injective f) (d : OrderedDict κ β) :
    OrderedDict ι β where
  items := d.items.map (fun p => (f p.1, p.2))
  nodup := by
    have hkeys : (d.items.map (fun p => (f p.1, p.2))).map Prod.fst =
        (d.items.map Prod.fst).map f := by
      rw [List.map_map, List.map_map]
      rfl
    rw [hkeys]
    exact d.nodup.map hf

theorem get?_mapKeys {ι : Type*} [DecidableEq ι] {f : κ → ι} (hf : Function.Injective f)
    (d : OrderedDict κ β) (k : κ) : (d.mapKeys hf).get? (f k) = d.get? k := by
  refine Option.ext fun v => ⟨fun h => ?_, fun h => ?_⟩
  · obtain ⟨⟨k', v'⟩, hmem, he⟩ := List.mem_map.mp (mem_items_of_get? h)
    obtain ⟨hk, rfl⟩ := Prod.mk.inj he
    obtain rfl := hf hk
    exact get?_of_mem_items hmem
  · exact get?_of_mem_items (List.mem_map.mpr ⟨(k, v), mem_items_of_get? h, rfl⟩)

theorem mapKeys_set {ι : Type*} [DecidableEq ι] {f : κ → ι} (hf : Function.Injective f)
    (d : OrderedDict κ β) (k : κ) (v : β) :
    (d.mapKeys hf).set (f k) v = (d.set k v).mapKeys hf := by
  refine ext ?_
  show setItem (f k) v (d.items.map (fun p => (f p.1, p.2))) =
    (setItem k v d.items).map (fun p => (f p.1, p.2))
  generalize d.items = l
  induction l with
  | nil => rfl
  | cons p l ih =>
      by_cases hp : p.1 = k
      · rw [List.map_cons, setItem, if_pos (congrArg f hp), setItem, if_pos hp, List.map_cons]
      · rw [List.map_cons, setItem, if_neg fun he => hp (hf he), setItem, if_neg hp,
          List.map_cons, ih]

/-- Assigning the value that is there changes nothing. -/
theorem set_of_get?_eq {d : OrderedDict κ β} {k : κ} {v : β} (h : d.get? k = some v) :
    d.set k v = d := by
  refine ext ?_
  show setItem k v d.items = d.items
  have hfind : findItem k d.items = some v := h
  generalize d.items = l at hfind
  induction l with
  | nil => cases hfind
  | cons p l ih =>
      by_cases hp : p.1 = k
      · rw [findItem, if_pos hp] at hfind
        rw [setItem, if_pos hp, ← hp, ← Option.some.inj hfind]
      · rw [findItem, if_neg hp] at hfind
        rw [setItem, if_neg hp, ih hfind]

/-- The last assignment to a key stands. -/
theorem set_set (d : OrderedDict κ β) (k : κ) (v w : β) : (d.set k v).set k w = d.set k w := by
  refine ext ?_
  show setItem k w (setItem k v d.items) = setItem k w d.items
  generalize d.items = l
  induction l with
  | nil => simp [setItem]
  | cons p l ih =>
      by_cases hp : p.1 = k
      · simp [setItem, hp]
      · simp [setItem, hp, ih]

/-- The dictionary with a function applied to its values. -/
def mapValues {γ : Type*} (f : β → γ) (d : OrderedDict κ β) : OrderedDict κ γ where
  items := d.items.map (fun p => (p.1, f p.2))
  nodup := by
    rw [List.map_map]
    exact d.nodup

theorem get?_mapValues {γ : Type*} (f : β → γ) (d : OrderedDict κ β) (k : κ) :
    (d.mapValues f).get? k = (d.get? k).map f := by
  show findItem k (d.items.map (fun p => (p.1, f p.2))) = (findItem k d.items).map f
  generalize d.items = l
  induction l with
  | nil => rfl
  | cons p l ih =>
      by_cases hp : p.1 = k
      · simp [findItem, hp]
      · simp [findItem, hp, ih]

theorem mapValues_set {γ : Type*} (f : β → γ) (d : OrderedDict κ β) (k : κ) (v : β) :
    (d.set k v).mapValues f = (d.mapValues f).set k (f v) := by
  refine ext ?_
  show (setItem k v d.items).map (fun p => (p.1, f p.2)) =
    setItem k (f v) (d.items.map (fun p => (p.1, f p.2)))
  generalize d.items = l
  induction l with
  | nil => rfl
  | cons p l ih =>
      by_cases hp : p.1 = k
      · simp [setItem, hp]
      · simp [setItem, hp, ih]

/-- Moving to the end keeps the items. -/
theorem perm_moveToEnd (d : OrderedDict κ β) (k : κ) :
    (d.moveToEnd k).items.Perm d.items := by
  unfold moveToEnd
  cases h : d.get? k with
  | none => exact List.Perm.refl _
  | some v =>
      have hgone : (d.erase k).erase k = d.erase k := by
        refine erase_of_get?_eq_none ?_
        rw [get?_erase, if_pos rfl]
      have hset := (d.erase k).perm_set k v
      rw [hgone] at hset
      exact hset.trans (perm_erase h).symm

end OrderedDict

end NetworkProxy
