import NetworkProxy.LruCache
import NetworkProxy.RecencyInclusion

/-!
# A larger cache never hits less

Two caches of different capacities run through the same operations with the
same clock readings.  Their item lists stay `Nested`: the smaller cache is part
of the larger one, in the same order of recency, and every lookup that the
smaller one answers is answered alike by the larger one.

The two runs differ in three ways, each of which is one lemma of `Nested`: a
`get` may hit in the larger cache alone and reorder it (`putLast_right`), it may
find the key expired there alone and delete it (`delItem_right`), and a `put`
may evict from one cache only (`rtake`).
-/

namespace NetworkProxy
namespace Cache

open Py Recency CacheOp

universe u

namespace LRUCache

variable {κ : Type u} [DecidableEq κ]

/-- A hit makes its entry the last item. -/
theorem moveToEnd_items {c : LRUCache κ} {key : κ} {entry : Entry}
    (h : c.cache.get? key = some entry) :
    (c.cache.moveToEnd key).items = putLast key entry c.cache.items := by
  rw [OrderedDict.moveToEnd, h]
  exact setItem_of_not_mem entry (not_mem_delItem key c.cache.items)

/-- A stored entry becomes the last item. -/
theorem store_items (c : LRUCache κ) (key : κ) (value : Entry) :
    (c.store key value).cache.items = putLast key value c.cache.items := by
  rw [store, dropOld]
  cases hget : c.cache.get? key with
  | none =>
      have hfresh := (findItem_eq_none_iff key c.cache.items).mp hget
      rw [putLast, delItem_of_not_mem hfresh]
      exact setItem_of_not_mem value hfresh
  | some old =>
      have hitems := moveToEnd_items hget
      have hfresh := not_mem_delItem key c.cache.items
      have hset : setItem key value (c.cache.moveToEnd key).items =
          putLast key value c.cache.items := by
        rw [hitems, putLast, putLast, setItem_append_of_not_mem _ _ hfresh, setItem, if_pos rfl]
      exact hset

theorem put_items {cfg : CacheConfig} (henabled : cfg.enabled = true) {c : LRUCache κ}
    {key : κ} {value : Entry} {now : ℚ} (hfits : Accepted cfg value) :
    (c.put cfg key value now).cache.items =
      (putLast key (value.stamped now) c.cache.items).rtake c.capacity := by
  rcases c.put_cases henabled key value now with ⟨hlarge, -⟩ | ⟨-, hput⟩
  · exact absurd hfits hlarge
  · obtain ⟨hcap, -⟩ := c.dropOld_params key
    rw [hput, evict_items, store_items]
    exact congrArg (List.rtake _) hcap

/-- Two caches of the same lifetime of entries whose item lists are nested. -/
structure Included (n m : ℕ) (small large : LRUCache κ) : Prop where
  capacity_left : small.capacity = n
  capacity_right : large.capacity = m
  ttl : small.ttl = large.ttl
  nested : Nested n m small.cache.items large.cache.items

namespace Included

variable {cfg : CacheConfig} {n m : ℕ} {small large : LRUCache κ}

omit [DecidableEq κ] in
theorem create (hle : n ≤ m) (ttl : ℚ) :
    Included n m (create n ttl : LRUCache κ) (LRUCache.create m ttl) where
  capacity_left := rfl
  capacity_right := rfl
  ttl := rfl
  nested := Nested.nil hle

/-- A key has the same entry in both caches. -/
theorem entry_eq (h : Included n m small large) {key : κ} {found entry : Entry}
    (hs : small.cache.get? key = some found) (hl : large.cache.get? key = some entry) :
    found = entry :=
  Option.some.inj ((h.nested.findItem hs).symm.trans hl)

/-- A lookup that the smaller cache answers has the same answer in the larger one. -/
theorem get_eq (henabled : cfg.enabled = true) (h : Included n m small large) {key : κ}
    {now : ℚ} {entry : Entry} (hget : (small.get cfg key now).1 = some entry) :
    (large.get cfg key now).1 = some entry := by
  rcases small.get_cases henabled key now with ⟨-, hs⟩ | ⟨_, -, -, hs⟩ |
    ⟨found, hfound, hage, hs⟩
  · rw [hs] at hget
    cases hget
  · rw [hs] at hget
    cases hget
  · have hlarge : large.cache.get? key = some found := h.nested.findItem hfound
    rw [hs, Option.some.injEq] at hget
    subst hget
    rcases large.get_cases henabled key now with ⟨hl, -⟩ | ⟨other, hl, hold, -⟩ |
      ⟨other, hl, -, hc⟩
    · rw [hlarge] at hl
      cases hl
    · obtain rfl := h.entry_eq hfound hl
      rw [← h.ttl] at hold
      exact absurd hage (not_le.mpr hold)
    · obtain rfl := h.entry_eq hfound hl
      rw [hc]

/-- The item lists after the same `get` on both caches. -/
theorem nested_get (henabled : cfg.enabled = true) (h : Included n m small large) (key : κ)
    (now : ℚ) :
    Nested n m (small.get cfg key now).2.cache.items (large.get cfg key now).2.cache.items := by
  rcases large.get_cases henabled key now with ⟨hl, hc⟩ | ⟨entry, hl, hold, hc⟩ |
    ⟨entry, hl, hage, hc⟩
  · have hs : small.cache.get? key = none := h.nested.findItem_eq_none hl
    rcases small.get_cases henabled key now with ⟨-, hc'⟩ | ⟨_, hs', -⟩ | ⟨_, hs', -⟩
    · rw [hc, hc']
      exact h.nested
    · rw [hs] at hs'
      cases hs'
    · rw [hs] at hs'
      cases hs'
  · rcases small.get_cases henabled key now with ⟨hs, hc'⟩ | ⟨_, -, -, hc'⟩ |
      ⟨found, hs, hage, -⟩
    · rw [hc, hc']
      exact h.nested.delItem_right hs
    · rw [hc, hc']
      exact h.nested.delItem key
    · obtain rfl := h.entry_eq hs hl
      rw [← h.ttl] at hold
      exact absurd hage (not_le.mpr hold)
  · rcases small.get_cases henabled key now with ⟨hs, hc'⟩ | ⟨found, hs, hold, -⟩ |
      ⟨found, hs, -, hc'⟩
    · rw [hc, hc']
      dsimp only
      rw [moveToEnd_items hl]
      exact h.nested.putLast_right hs hl
    · obtain rfl := h.entry_eq hs hl
      rw [h.ttl] at hold
      exact absurd hage (not_le.mpr hold)
    · obtain rfl := h.entry_eq hs hl
      rw [hc, hc']
      dsimp only
      rw [moveToEnd_items hl, moveToEnd_items hs]
      exact h.nested.putLast key found

/-- The item lists after the same `put` on both caches. -/
theorem nested_put (henabled : cfg.enabled = true) (h : Included n m small large) (key : κ)
    (value : Entry) (now : ℚ) :
    Nested n m (small.put cfg key value now).cache.items
      (large.put cfg key value now).cache.items := by
  rcases em (Accepted cfg value) with hfits | hlarge
  · rw [put_items henabled hfits, put_items henabled hfits, h.capacity_left, h.capacity_right]
    exact (h.nested.putLast key _).rtake
  · rcases small.put_cases henabled key value now with ⟨-, hs⟩ | ⟨hfits, -⟩
    · rcases large.put_cases henabled key value now with ⟨-, hl⟩ | ⟨hfits, -⟩
      · rw [hs, hl]
        exact h.nested
      · exact absurd hfits hlarge
    · exact absurd hfits hlarge

/-- One step. -/
theorem step (henabled : cfg.enabled = true) (hle : n ≤ m) (h : Included n m small large)
    (op : CacheOp κ) : Included n m (small.step cfg op) (large.step cfg op) := by
  obtain ⟨hcs, hts⟩ := small.step_params henabled op
  obtain ⟨hcl, htl⟩ := large.step_params henabled op
  refine ⟨hcs.trans h.capacity_left, hcl.trans h.capacity_right, ?_, ?_⟩
  · rw [hts, htl, h.ttl]
  · cases op with
    | get key now => exact h.nested_get henabled key now
    | put key value now => exact h.nested_put henabled key value now
    | clear => exact Nested.nil hle

/-- A run of steps. -/
theorem run (henabled : cfg.enabled = true) (hle : n ≤ m) (ops : List (CacheOp κ)) :
    ∀ {small large : LRUCache κ}, Included n m small large →
      Included n m (small.run cfg ops) (large.run cfg ops) := by
  induction ops with
  | nil =>
      intro small large h
      exact h
  | cons op ops ih =>
      intro small large h
      exact ih (h.step henabled hle op)

end Included

/--
**A larger cache never hits less.**  After any operations, run with the same
clock readings on caches of capacities `n ≤ m`, the items of the smaller cache
are items of the larger one in the same order of recency, and what a `get` of
any key returns there, the same `get` returns here.
-/
theorem larger_cache_never_hits_less {cfg : CacheConfig} (henabled : cfg.enabled = true)
    {n m : ℕ} (hle : n ≤ m) (ttl : ℚ) (ops : List (CacheOp κ)) :
    ((create n ttl : LRUCache κ).run cfg ops).cache.items.Sublist
        ((create m ttl : LRUCache κ).run cfg ops).cache.items ∧
      ∀ key now entry,
        (((create n ttl : LRUCache κ).run cfg ops).get cfg key now).1 = some entry →
          (((create m ttl : LRUCache κ).run cfg ops).get cfg key now).1 = some entry := by
  have h := Included.run henabled hle ops (Included.create hle ttl)
  exact ⟨h.nested.sublist, fun _ _ _ hget => h.get_eq henabled hget⟩

/-- Capacities one and two: the key put last is found in the larger cache because the smaller
one still has it. -/
theorem larger_cache_never_hits_less_two :
    (((create 2 60 : LRUCache ℕ).run ⟨true, 10⟩
        [.put 1 ⟨[], some 1, some 0⟩ 0, .put 2 ⟨[], some 1, some 0⟩ 0]).get
          ⟨true, 10⟩ 2 1).1 = some ⟨[], some 1, some 0⟩ := by
  have henabled : (⟨true, 10⟩ : CacheConfig).enabled = true := rfl
  have hle : 1 ≤ 2 := by decide
  exact (larger_cache_never_hits_less henabled hle 60
    [.put 1 ⟨[], some 1, some 0⟩ 0, .put 2 ⟨[], some 1, some 0⟩ 0]).2 2 1
      ⟨[], some 1, some 0⟩ (by decide +kernel)

end LRUCache

end Cache
end NetworkProxy
