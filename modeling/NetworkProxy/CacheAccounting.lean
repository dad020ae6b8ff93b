import NetworkProxy.LruCache
import Mathlib.Algebra.BigOperators.Group.List.Basic
import Mathlib.Algebra.Order.BigOperators.Group.List

/-!
# Accounting of the cache

Every operation of the cache is a list of actions on its dictionary and its counters.
`perform_actions` says that the operation is what its actions do one after the other.

* `Balanced`: the counters of entries and bytes agree with the dictionary.  It holds
  between operations, and it makes the clamps of `CacheStats` idle.
* `cache_accounting`: all counters, in every state between calls.
-/

namespace NetworkProxy
namespace Cache

open Py

universe u

/-! ## The actions of an operation -/

/-- A call of a method of `CacheStats`. -/
inductive StatsCall
  | hit
  | miss
  | eviction (size : ℤ)
  | store (size : ℤ)
  | remove (size : ℤ)
deriving DecidableEq

namespace CacheStats

def record (s : CacheStats) : StatsCall → CacheStats
  | .hit => s.recordHit
  | .miss => s.recordMiss
  | .eviction size => s.recordEviction size
  | .store size => s.recordStore size
  | .remove size => s.recordRemove size

/-- The same without the clamps `max(0, ...)`. -/
def recordUnclamped (s : CacheStats) : StatsCall → CacheStats
  | .eviction size =>
      { s with
        evictions := s.evictions + 1
        currentEntries := s.currentEntries - 1
        currentBytes := s.currentBytes - size }
  | .remove size =>
      { s with
        currentEntries := s.currentEntries - 1
        currentBytes := s.currentBytes - size }
  | call => s.record call

/-- The counters cover one entry of the size. -/
def Covers (s : CacheStats) (size : ℤ) : Prop := 1 ≤ s.currentEntries ∧ size ≤ s.currentBytes

theorem recordEviction_of_covers {s : CacheStats} {size : ℤ} (h : s.Covers size) :
    s.recordEviction size =
      { s with
        evictions := s.evictions + 1
        currentEntries := s.currentEntries - 1
        currentBytes := s.currentBytes - size } := by
  rw [recordEviction, max_eq_right (sub_nonneg.mpr h.1), max_eq_right (sub_nonneg.mpr h.2)]

theorem recordRemove_of_covers {s : CacheStats} {size : ℤ} (h : s.Covers size) :
    s.recordRemove size =
      { s with
        currentEntries := s.currentEntries - 1
        currentBytes := s.currentBytes - size } := by
  rw [recordRemove, max_eq_right (sub_nonneg.mpr h.1), max_eq_right (sub_nonneg.mpr h.2)]

end CacheStats

/-- One action of an operation, on the dictionary or on the counters. -/
inductive Action (κ : Type u)
  | record (call : StatsCall)
  /-- `del self.cache[key]`. -/
  | delete (key : κ)
  /-- `self.cache.move_to_end(key)`. -/
  | moveToEnd (key : κ)
  /-- `self.cache[key] = value`. -/
  | assign (key : κ) (value : Entry)
  /-- `self.cache.popitem(last=False)`. -/
  | popFirst
  /-- `self.cache.clear()`. -/
  | flush
  /-- `self.stats = CacheStats()`. -/
  | freshStats

namespace CacheOp

variable {κ : Type u}

/-- No negative size is put. -/
def SizeNonneg : CacheOp κ → Prop
  | put _ value _ => 0 ≤ value.entrySize
  | _ => True

/-- The calls of `get`, one or none. -/
def gets : CacheOp κ → ℕ
  | get _ _ => 1
  | _ => 0

end CacheOp

namespace LRUCache

open CacheOp

variable {κ : Type u}

/-- The actions of the eviction loop. -/
def evictActions : ℕ → LRUCache κ → List (Action κ)
  | 0, _ => []
  | rounds + 1, c =>
      if c.capacity < c.cache.size then
        match c.cache.popFirst with
        | some (item, rest) =>
            .popFirst :: .record (.eviction item.2.entrySize) ::
              evictActions rounds
                { c with
                  cache := rest
                  stats := c.stats.recordEviction item.2.entrySize }
        | none => []
      else []

variable [DecidableEq κ]

def act (c : LRUCache κ) : Action κ → LRUCache κ
  | .record call => { c with stats := c.stats.record call }
  | .delete key => { c with cache := c.cache.erase key }
  | .moveToEnd key => { c with cache := c.cache.moveToEnd key }
  | .assign key value => { c with cache := c.cache.set key value }
  | .popFirst => { c with cache := (c.cache.popFirst.map Prod.snd).getD c.cache }
  | .flush => { c with cache := OrderedDict.empty }
  | .freshStats => { c with stats := CacheStats.create }

def perform (c : LRUCache κ) (as : List (Action κ)) : LRUCache κ := as.foldl act c

theorem perform_append (c : LRUCache κ) (as bs : List (Action κ)) :
    c.perform (as ++ bs) = (c.perform as).perform bs :=
  List.foldl_append

/-- The actions of `get`. -/
def getActions (c : LRUCache κ) (key : κ) (now : ℚ) : List (Action κ) :=
  match c.cache.get? key with
  | none => [.record .miss]
  | some entry =>
      if c.ttl < entry.age now then
        [.delete key, .record (.eviction entry.entrySize), .record .miss]
      else [.moveToEnd key, .record .hit]

/-- The actions of overwriting an existing entry. -/
def dropOldActions (c : LRUCache κ) (key : κ) : List (Action κ) :=
  match c.cache.get? key with
  | none => []
  | some old => [.record (.remove old.entrySize), .moveToEnd key]

/-- The actions of storing a value. -/
def storeActions (c : LRUCache κ) (key : κ) (value : Entry) : List (Action κ) :=
  c.dropOldActions key ++ [.assign key value, .record (.store value.entrySize)]

/-- The actions of an operation under the lock of the cache. -/
def actions (cfg : CacheConfig) (c : LRUCache κ) : CacheOp κ → List (Action κ)
  | .get key now => if cfg.enabled then c.getActions key now else []
  | .put key value now =>
      if cfg.enabled then
        if cfg.maxObjectSize < value.entrySize then []
        else
          let stored := c.store key (value.stamped now)
          c.storeActions key (value.stamped now) ++ stored.evictActions stored.cache.size
      else []
  | .clear => [.flush, .freshStats]

theorem perform_storeActions (c : LRUCache κ) (key : κ) (value : Entry) :
    c.perform (c.storeActions key value) = c.store key value := by
  rw [storeActions, dropOldActions, perform_append, store, dropOld]
  cases c.cache.get? key with
  | none => rfl
  | some old => rfl

theorem perform_evictActions (rounds : ℕ) (c : LRUCache κ) :
    c.perform (c.evictActions rounds) = c.evictLoop rounds := by
  induction rounds generalizing c with
  | zero => rfl
  | succ rounds ih =>
      rw [evictActions, evictLoop]
      split
      · cases hpop : c.cache.popFirst with
        | none => rfl
        | some popped =>
            obtain ⟨item, rest⟩ := popped
            have hact : c.act .popFirst = { c with cache := rest } := by
              rw [act, hpop]
              rfl
            dsimp only
            rw [← ih, perform, List.foldl_cons, hact]
            rfl
      · rfl

/-- An operation is what its actions do. -/
theorem perform_actions (cfg : CacheConfig) (c : LRUCache κ) (op : CacheOp κ) :
    c.perform (c.actions cfg op) = c.step cfg op := by
  cases op with
  | get key now =>
      rw [actions, step, get, getActions]
      split
      · cases c.cache.get? key with
        | none => rfl
        | some entry =>
            dsimp only
            split
            · rfl
            · rfl
      · rfl
  | put key value now =>
      rw [actions, step, put]
      split
      · split
        · rfl
        · dsimp only
          rw [perform_append, perform_storeActions, perform_evictActions, evict]
      · rfl
  | clear => rfl

/-! ## The balance between operations -/

/-- The sizes of the cached entries, together. -/
def totalBytes (c : LRUCache κ) : ℤ := (c.cache.items.map (fun item => item.2.entrySize)).sum

/-- The counters of entries and bytes agree with the dictionary, and no size is
negative. -/
structure Balanced (c : LRUCache κ) : Prop where
  entries : c.stats.currentEntries = c.cache.size
  bytes : c.stats.currentBytes = c.totalBytes
  nonneg : ∀ item, item ∈ c.cache.items → 0 ≤ item.2.entrySize

omit [DecidableEq κ] in
/-- Taking one item out of a balanced cache. -/
theorem Balanced.split {c : LRUCache κ} (h : c.Balanced) {item : κ × Entry}
    {rest : List (κ × Entry)} (hperm : c.cache.items.Perm (item :: rest)) :
    c.stats.Covers item.2.entrySize ∧
      c.stats.currentEntries - 1 = rest.length ∧
      c.stats.currentBytes - item.2.entrySize =
        (rest.map (fun item => item.2.entrySize)).sum ∧
      ∀ item', item' ∈ rest → 0 ≤ item'.2.entrySize := by
  have hsize : c.stats.currentEntries = rest.length + 1 := by
    rw [h.entries, OrderedDict.size, hperm.length_eq, List.length_cons]
    push_cast
    rfl
  have hbytes : c.stats.currentBytes =
      item.2.entrySize + (rest.map (fun item => item.2.entrySize)).sum := by
    rw [h.bytes, totalBytes, (hperm.map _).sum_eq, List.map_cons, List.sum_cons]
  have hrest : ∀ item', item' ∈ rest → 0 ≤ item'.2.entrySize :=
    fun item' hmem => h.nonneg item' (hperm.mem_iff.mpr (List.mem_cons_of_mem _ hmem))
  have hsum : 0 ≤ (rest.map (fun item => item.2.entrySize)).sum := by
    refine List.sum_nonneg fun x hx => ?_
    obtain ⟨item', hmem, rfl⟩ := List.mem_map.mp hx
    exact hrest item' hmem
  exact ⟨⟨by omega, by omega⟩, by omega, by omega, hrest⟩

omit [DecidableEq κ] in
/-- Putting one item more into a balanced cache. -/
theorem Balanced.of_perm {c : LRUCache κ} {item : κ × Entry} {rest : List (κ × Entry)}
    (hperm : c.cache.items.Perm (item :: rest))
    (hentries : c.stats.currentEntries = rest.length + 1)
    (hbytes : c.stats.currentBytes =
      (rest.map (fun item => item.2.entrySize)).sum + item.2.entrySize)
    (hitem : 0 ≤ item.2.entrySize)
    (hrest : ∀ item', item' ∈ rest → 0 ≤ item'.2.entrySize) : c.Balanced where
  entries := by
    rw [hentries, OrderedDict.size, hperm.length_eq, List.length_cons]
    push_cast
    rfl
  bytes := by
    rw [hbytes, totalBytes, (hperm.map _).sum_eq, List.map_cons, List.sum_cons, add_comm]
  nonneg := by
    intro item' hmem
    rcases List.mem_cons.mp (hperm.mem_iff.mp hmem) with rfl | hmem
    · exact hitem
    · exact hrest item' hmem

/-- All counters of a cache that saw `overwrites` overwriting puts and `gets` calls of
`get`. -/
structure Accounted (c : LRUCache κ) (overwrites gets : ℕ) : Prop extends Balanced c where
  stores : (c.stats.stores : ℤ) = c.cache.size + c.stats.evictions + overwrites
  lookups : c.stats.hits + c.stats.misses = gets

omit [DecidableEq κ] in
/-- One eviction. -/
theorem Accounted.evictItem {c : LRUCache κ} {m n : ℕ} (h : c.Accounted m n)
    {item : κ × Entry} {rest : OrderedDict κ Entry}
    (hperm : c.cache.items.Perm (item :: rest.items)) :
    Accounted
      { c with cache := rest, stats := c.stats.recordEviction item.2.entrySize } m n := by
  obtain ⟨hcovers, hentries, hbytes, hrest⟩ := h.toBalanced.split hperm
  have hsize : (c.cache.size : ℤ) = rest.size + 1 := by
    rw [OrderedDict.size, hperm.length_eq, List.length_cons, OrderedDict.size]
    push_cast
    rfl
  rw [CacheStats.recordEviction_of_covers hcovers]
  refine ⟨⟨hentries, hbytes, hrest⟩, ?_, h.lookups⟩
  have hstores := h.stores
  dsimp only
  push_cast
  omega

omit [DecidableEq κ] in
theorem Accounted.evictLoop {m n : ℕ} :
    ∀ {rounds : ℕ} {c : LRUCache κ}, c.Accounted m n → (c.evictLoop rounds).Accounted m n
  | 0, _, h => h
  | rounds + 1, c, h => by
      rw [LRUCache.evictLoop]
      split
      · cases hpop : c.cache.popFirst with
        | none => exact h
        | some popped =>
            obtain ⟨item, rest⟩ := popped
            refine Accounted.evictLoop (h.evictItem ?_)
            rw [OrderedDict.popFirst_eq_some hpop]
      · exact h

/-- One entry when storing under the key overwrites it. -/
def overwritten (c : LRUCache κ) (key : κ) : ℕ := if (c.cache.get? key).isSome then 1 else 0

theorem Accounted.store {c : LRUCache κ} {m n : ℕ} (h : c.Accounted m n) (key : κ)
    {value : Entry} (hvalue : 0 ≤ value.entrySize) :
    (c.store key value).Accounted (m + c.overwritten key) n := by
  have hstores := h.stores
  rw [LRUCache.store, dropOld, overwritten]
  cases hget : c.cache.get? key with
  | none =>
      have hperm := c.cache.perm_set key value
      rw [OrderedDict.erase_of_get?_eq_none hget] at hperm
      have hsize : (c.cache.set key value).size = c.cache.size + 1 := hperm.length_eq
      refine ⟨Balanced.of_perm hperm ?_ ?_ hvalue h.nonneg, ?_, h.lookups⟩
      · exact congrArg (fun x => x + 1) h.entries
      · exact congrArg (fun x => x + value.entrySize) h.bytes
      · dsimp only [CacheStats.recordStore, Option.isSome_none]
        rw [hsize, if_neg Bool.false_ne_true]
        push_cast
        omega
  | some old =>
      have hmoved : (c.cache.moveToEnd key).get? key = some old := by
        rw [OrderedDict.get?_moveToEnd, hget]
      have hold := (c.cache.perm_moveToEnd key).symm.trans (OrderedDict.perm_erase hmoved)
      have hperm := (c.cache.moveToEnd key).perm_set key value
      have hsize : ((c.cache.moveToEnd key).set key value).size = c.cache.size := by
        rw [OrderedDict.size, OrderedDict.size, hperm.length_eq, hold.length_eq]
        rfl
      obtain ⟨hcovers, hentries, hbytes, hrest⟩ := h.toBalanced.split hold
      dsimp only
      rw [CacheStats.recordRemove_of_covers hcovers]
      refine ⟨Balanced.of_perm hperm ?_ ?_ hvalue hrest, ?_, h.lookups⟩
      · exact congrArg (fun x => x + 1) hentries
      · exact congrArg (fun x => x + value.entrySize) hbytes
      · dsimp only [CacheStats.recordStore, Option.isSome_some]
        rw [hsize, if_pos rfl]
        push_cast
        omega

theorem Accounted.get {cfg : CacheConfig} (henabled : cfg.enabled = true) {c : LRUCache κ}
    {m n : ℕ} (h : c.Accounted m n) (key : κ) (now : ℚ) :
    (c.get cfg key now).2.Accounted m (n + 1) := by
  have hlookups := h.lookups
  rcases c.get_cases henabled key now with ⟨-, hc⟩ | ⟨entry, hget, -, hc⟩ | ⟨entry, -, -, hc⟩
  · rw [hc]
    refine ⟨⟨h.entries, h.bytes, h.nonneg⟩, h.stores, ?_⟩
    dsimp only [CacheStats.recordMiss]
    omega
  · rw [hc]
    have hevicted := h.evictItem (OrderedDict.perm_erase hget)
    refine ⟨⟨hevicted.entries, hevicted.bytes, hevicted.nonneg⟩, hevicted.stores, ?_⟩
    have := hevicted.lookups
    dsimp only [CacheStats.recordMiss] at this ⊢
    omega
  · rw [hc]
    have hperm := c.cache.perm_moveToEnd key
    have hsize : (c.cache.moveToEnd key).size = c.cache.size := hperm.length_eq
    refine ⟨⟨?_, ?_, fun item hmem => h.nonneg item (hperm.mem_iff.mp hmem)⟩, ?_, ?_⟩
    · rw [hsize]
      exact h.entries
    · rw [totalBytes, (hperm.map _).sum_eq]
      exact h.bytes
    · dsimp only [CacheStats.recordHit]
      rw [hsize]
      exact h.stores
    · dsimp only [CacheStats.recordHit]
      omega

/-- The overwriting puts of one operation. -/
def overwrites (cfg : CacheConfig) (c : LRUCache κ) : CacheOp κ → ℕ
  | .put key value _ => if Accepted cfg value then c.overwritten key else 0
  | _ => 0

/-- The overwriting puts of a run. -/
def overwriteCount (cfg : CacheConfig) : LRUCache κ → List (CacheOp κ) → ℕ
  | _, [] => 0
  | c, op :: ops => c.overwrites cfg op + overwriteCount cfg (c.step cfg op) ops

/-- An operation other than `clear` keeps the accounts. -/
theorem Accounted.step {cfg : CacheConfig} (henabled : cfg.enabled = true) {c : LRUCache κ}
    {m n : ℕ} (h : c.Accounted m n) {op : CacheOp κ} (hclear : op.isClear = false)
    (hsize : op.SizeNonneg) :
    (c.step cfg op).Accounted (m + c.overwrites cfg op) (n + op.gets) := by
  cases op with
  | get key now => exact h.get henabled key now
  | put key value now =>
      rw [LRUCache.step, overwrites]
      rcases c.put_cases henabled key value now with ⟨hlarge, hc⟩ | ⟨hfits, hc⟩
      · rw [hc, if_neg hlarge]
        exact h
      · rw [hc, if_pos hfits]
        have hvalue : 0 ≤ (value.stamped now).entrySize := hsize
        exact (h.store key hvalue).evictLoop
  | clear => cases hclear

/-- So does a run without `clear`. -/
theorem Accounted.run {cfg : CacheConfig} (henabled : cfg.enabled = true) :
    ∀ {ops : List (CacheOp κ)} {c : LRUCache κ} {m n : ℕ}, c.Accounted m n →
      (∀ op, op ∈ ops → op.isClear = false) → (∀ op, op ∈ ops → op.SizeNonneg) →
      (c.run cfg ops).Accounted (m + c.overwriteCount cfg ops) (n + (ops.map CacheOp.gets).sum)
  | [], _, _, _, h, _, _ => h
  | op :: ops, c, m, n, h, hclear, hsize => by
      have hstep := h.step henabled (hclear op List.mem_cons_self) (hsize op List.mem_cons_self)
      have hrun := hstep.run henabled (fun op' h' => hclear op' (List.mem_cons_of_mem _ h'))
        (fun op' h' => hsize op' (List.mem_cons_of_mem _ h'))
      rw [add_assoc, add_assoc] at hrun
      rw [overwriteCount, List.map_cons, List.sum_cons]
      exact hrun

omit [DecidableEq κ] in
theorem Accounted.create (capacity : ℕ) (ttl : ℚ) :
    (LRUCache.create capacity ttl : LRUCache κ).Accounted 0 0 :=
  ⟨⟨rfl, rfl, fun _ hmem => absurd hmem List.not_mem_nil⟩, rfl, rfl⟩

/-- The cache never holds more than its capacity between calls. -/
theorem size_step_le {cfg : CacheConfig} (henabled : cfg.enabled = true) {c : LRUCache κ}
    (h : c.cache.size ≤ c.capacity) (op : CacheOp κ) :
    (c.step cfg op).cache.size ≤ (c.step cfg op).capacity := by
  rw [(c.step_params henabled op).1]
  cases op with
  | get key now =>
      rw [step]
      rcases c.get_cases henabled key now with ⟨-, hc⟩ | ⟨entry, -, -, hc⟩ | ⟨entry, -, -, hc⟩
      · rw [hc]
        exact h
      · rw [hc]
        exact le_trans (List.length_filter_le _ _) h
      · rw [hc]
        exact le_trans (c.cache.perm_moveToEnd key).length_eq.le h
  | put key value now =>
      rw [step]
      rcases c.put_cases henabled key value now with ⟨-, hc⟩ | ⟨-, hc⟩
      · rw [hc]
        exact h
      · have hcap : (c.store key (value.stamped now)).capacity = c.capacity :=
          (c.dropOld_params key).1
        rw [hc, OrderedDict.size, evict_items, hcap, List.rtake, List.length_drop]
        omega
  | clear => exact Nat.zero_le _

theorem size_run_le {cfg : CacheConfig} (henabled : cfg.enabled = true) :
    ∀ {ops : List (CacheOp κ)} {c : LRUCache κ}, c.cache.size ≤ c.capacity →
      (c.run cfg ops).cache.size ≤ (c.run cfg ops).capacity
  | [], _, h => h
  | op :: ops, c, h => by
      have hrest : ((c.step cfg op).run cfg ops).cache.size ≤
          ((c.step cfg op).run cfg ops).capacity :=
        size_run_le henabled (size_step_le henabled h op)
      exact hrest

/-! ## The clamps -/

/-- Every call of a statistics method in the actions gives what it would give without
its clamp. -/
def Unclamped : LRUCache κ → List (Action κ) → Prop
  | _, [] => True
  | c, a :: as =>
      (∀ call, a = .record call → c.stats.record call = c.stats.recordUnclamped call) ∧
        Unclamped (c.act a) as

theorem Unclamped.append {as bs : List (Action κ)} :
    ∀ {c : LRUCache κ}, c.Unclamped as → (c.perform as).Unclamped bs → c.Unclamped (as ++ bs) := by
  induction as with
  | nil => exact fun _ hb => hb
  | cons a as ih => exact fun ha hb => ⟨ha.1, ih ha.2 hb⟩

/-- An action that records nothing, or records without a clamp. -/
theorem Unclamped.cons {c : LRUCache κ} {a : Action κ} {as : List (Action κ)}
    (ha : ∀ size, a ≠ .record (.eviction size) ∧ a ≠ .record (.remove size))
    (has : (c.act a).Unclamped as) : c.Unclamped (a :: as) := by
  refine ⟨?_, has⟩
  rintro call rfl
  cases call with
  | eviction size => exact absurd rfl (ha size).1
  | remove size => exact absurd rfl (ha size).2
  | _ => rfl

theorem Unclamped.eviction {c : LRUCache κ} {size : ℤ} {as : List (Action κ)}
    (hcovers : c.stats.Covers size)
    (has : (c.act (.record (.eviction size))).Unclamped as) :
    c.Unclamped (.record (.eviction size) :: as) := by
  refine ⟨?_, has⟩
  rintro call ⟨⟩
  exact CacheStats.recordEviction_of_covers hcovers

theorem Unclamped.evictActions {m n : ℕ} :
    ∀ {rounds : ℕ} {c : LRUCache κ}, c.Accounted m n → c.Unclamped (c.evictActions rounds)
  | 0, _, _ => trivial
  | rounds + 1, c, h => by
      rw [LRUCache.evictActions]
      split
      · cases hpop : c.cache.popFirst with
        | none => exact trivial
        | some popped =>
            obtain ⟨item, rest⟩ := popped
            have hperm : c.cache.items.Perm (item :: rest.items) := by
              rw [OrderedDict.popFirst_eq_some hpop]
            have hact : c.act .popFirst = { c with cache := rest } := by
              rw [act, hpop]
              rfl
            refine Unclamped.cons (fun size => ⟨nofun, nofun⟩) ?_
            rw [hact]
            exact Unclamped.eviction (h.toBalanced.split hperm).1
              (Unclamped.evictActions (h.evictItem hperm))
      · exact trivial

theorem Unclamped.storeActions {c : LRUCache κ} (h : c.Balanced) (key : κ) (value : Entry) :
    c.Unclamped (c.storeActions key value) := by
  refine Unclamped.append ?_ ?_
  · rw [dropOldActions]
    cases hget : c.cache.get? key with
    | none => exact trivial
    | some old =>
        have hcovers := (h.split (OrderedDict.perm_erase hget)).1
        refine ⟨?_, Unclamped.cons (fun size => ⟨nofun, nofun⟩) trivial⟩
        rintro call ⟨⟩
        exact CacheStats.recordRemove_of_covers hcovers
  · refine Unclamped.cons (fun size => ⟨nofun, nofun⟩) ?_
    exact Unclamped.cons (fun size => ⟨nofun, nofun⟩) trivial

/-- In an accounted cache no operation meets a clamp. -/
theorem Accounted.unclamped {cfg : CacheConfig} {c : LRUCache κ} {m n : ℕ}
    (h : c.Accounted m n) {op : CacheOp κ} (hsize : op.SizeNonneg) :
    c.Unclamped (c.actions cfg op) := by
  cases op with
  | get key now =>
      rw [actions, getActions]
      split
      · cases hget : c.cache.get? key with
        | none => exact Unclamped.cons (fun size => by simp) trivial
        | some entry =>
            have hcovers := (h.toBalanced.split (OrderedDict.perm_erase hget)).1
            dsimp only
            split
            · refine Unclamped.cons (fun size => by simp) ?_
              refine Unclamped.eviction hcovers ?_
              exact Unclamped.cons (fun size => by simp) trivial
            · refine Unclamped.cons (fun size => by simp) ?_
              exact Unclamped.cons (fun size => by simp) trivial
      · exact trivial
  | put key value now =>
      rw [actions]
      split
      · split
        · exact trivial
        · refine Unclamped.append (Unclamped.storeActions h.toBalanced key _) ?_
          rw [perform_storeActions]
          exact Unclamped.evictActions (h.store key hsize)
      · exact trivial
  | clear =>
      refine Unclamped.cons (fun size => by simp) ?_
      exact Unclamped.cons (fun size => by simp) trivial

/-- **Cache accounting.**  After every run on an enabled cache the counters of entries
and bytes are those of the dictionary, which fits the capacity; every store since the
last `clear` is a present entry, an eviction or an overwriting put; every `get` since
then is a hit or a miss; and the next operation meets no clamp. -/
theorem cache_accounting {cfg : CacheConfig} (henabled : cfg.enabled = true) (capacity : ℕ)
    (ttl : ℚ) (ops : List (CacheOp κ)) (hsizes : ∀ op, op ∈ ops → op.SizeNonneg) :
    let c := (create capacity ttl : LRUCache κ).run cfg ops
    c.stats.currentEntries = c.cache.size ∧ c.stats.currentEntries ≤ capacity ∧
      c.stats.currentBytes = c.totalBytes ∧
      (c.stats.stores : ℤ) = c.stats.currentEntries + c.stats.evictions +
        (create capacity ttl : LRUCache κ).overwriteCount cfg (sinceClear ops) ∧
      c.stats.hits + c.stats.misses = ((sinceClear ops).map CacheOp.gets).sum ∧
      ∀ op, op.SizeNonneg → c.Unclamped (c.actions cfg op) := by
  intro c
  have hsuffix : sinceClear ops <:+ ops := List.rtakeWhile_suffix _ _
  have hacc : c.Accounted ((create capacity ttl : LRUCache κ).overwriteCount cfg (sinceClear ops))
      ((sinceClear ops).map CacheOp.gets).sum := by
    have hrun := (Accounted.create capacity ttl : (create capacity ttl : LRUCache κ).Accounted 0 0)
      |>.run henabled (fun op hop => isClear_of_mem_sinceClear hop)
        (fun op hop => hsizes op (hsuffix.subset hop))
    rw [← run_sinceClear henabled, zero_add, zero_add] at hrun
    exact hrun
  have hle : c.cache.size ≤ capacity := by
    have hempty : (create capacity ttl : LRUCache κ).cache.size ≤
        (create capacity ttl : LRUCache κ).capacity := Nat.zero_le _
    have hfits : c.cache.size ≤ c.capacity := size_run_le henabled hempty
    rw [((create capacity ttl : LRUCache κ).run_params henabled ops).1] at hfits
    exact hfits
  refine ⟨hacc.entries, ?_, hacc.bytes, ?_, hacc.lookups, fun op hop => hacc.unclamped hop⟩
  · rw [hacc.entries]
    exact_mod_cast hle
  · rw [hacc.entries]
    exact hacc.stores

/-- A run with an eviction and an overwriting put. -/
def oneEntryOps : List (CacheOp Char) :=
  [.put 'a' ⟨[], some 3, none⟩ 0, .put 'b' ⟨[], some 5, none⟩ 1,
    .put 'b' ⟨[], some 4, none⟩ 2, .get 'a' 3]

theorem cache_accounting_one_entry :
    let c := (create 1 300 : LRUCache Char).run ⟨true, 10⟩ oneEntryOps
    c.stats.stores = 3 ∧ c.stats.currentEntries = 1 ∧
      (c.stats.stores : ℤ) = c.stats.currentEntries + c.stats.evictions +
        (create 1 300 : LRUCache Char).overwriteCount ⟨true, 10⟩ (sinceClear oneEntryOps) := by
  have hsizes : ∀ op, op ∈ oneEntryOps → op.SizeNonneg := by
    intro op hop
    simp only [oneEntryOps, List.mem_cons, List.not_mem_nil, or_false] at hop
    rcases hop with rfl | rfl | rfl | rfl
    · exact (by decide : (0 : ℤ) ≤ 3)
    · exact (by decide : (0 : ℤ) ≤ 5)
    · exact (by decide : (0 : ℤ) ≤ 4)
    · exact trivial
  exact ⟨rfl, rfl, (cache_accounting rfl 1 300 oneEntryOps hsizes).2.2.2.1⟩

end LRUCache
end Cache
end NetworkProxy
