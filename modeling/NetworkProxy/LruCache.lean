import Mathlib.Algebra.Order.Ring.Rat
import NetworkProxy.OrderedDict
import NetworkProxy.PyText
import NetworkProxy.Recency
import Mathlib.Tactic.NormNum

/-!
# The response cache

`LRUCache` with its statistics, over any type of keys.  The clock readings of
`time.time()` are arguments, so a run may see any readings.

* `get_returns_last_put`: an entry that is returned is the value of the last
  accepted `put` of its key, and it has not expired;
* `keys_eq_last_touched`: without expiry the keys are the last touched ones, in
  the order of their last touch.

`lru_correct` states both for a run of any operations.
-/

namespace NetworkProxy
namespace Cache

open Py Recency

universe u

/-- `CACHE_ENABLED` and `MAX_OBJECT_SIZE`. -/
structure CacheConfig where
  enabled : Bool
  maxObjectSize : ℤ

/-- A stored value: the raw response, with the optional keys `size` and
`timestamp`. -/
structure Entry where
  response : Bytes
  size : Option ℤ
  timestamp : Option ℚ
deriving DecidableEq

/-- `value.get("size", 0)`. -/
def Entry.entrySize (v : Entry) : ℤ := v.size.getD 0

/-- `now - entry.get("timestamp", 0)`. -/
def Entry.age (v : Entry) (now : ℚ) : ℚ := now - v.timestamp.getD 0

/-- The value with its timestamp set. -/
def Entry.stamped (v : Entry) (now : ℚ) : Entry :=
  { v with timestamp := some (v.timestamp.getD now) }

structure CacheStats where
  hits : ℕ
  misses : ℕ
  evictions : ℕ
  stores : ℕ
  currentEntries : ℤ
  currentBytes : ℤ
deriving DecidableEq

namespace CacheStats

def create : CacheStats := ⟨0, 0, 0, 0, 0, 0⟩

def recordHit (s : CacheStats) : CacheStats := { s with hits := s.hits + 1 }

def recordMiss (s : CacheStats) : CacheStats := { s with misses := s.misses + 1 }

def recordEviction (s : CacheStats) (size : ℤ) : CacheStats :=
  { s with
    evictions := s.evictions + 1
    currentEntries := max 0 (s.currentEntries - 1)
    currentBytes := max 0 (s.currentBytes - size) }

def recordStore (s : CacheStats) (size : ℤ) : CacheStats :=
  { s with
    stores := s.stores + 1
    currentEntries := s.currentEntries + 1
    currentBytes := s.currentBytes + size }

/-- Called when an existing key is overwritten. -/
def recordRemove (s : CacheStats) (size : ℤ) : CacheStats :=
  { s with
    currentEntries := max 0 (s.currentEntries - 1)
    currentBytes := max 0 (s.currentBytes - size) }

end CacheStats

structure LRUCache (κ : Type u) where
  capacity : ℕ
  ttl : ℚ
  cache : OrderedDict κ Entry
  stats : CacheStats

namespace LRUCache

variable {κ : Type u}

def create (capacity : ℕ) (ttl : ℚ) : LRUCache κ :=
  ⟨capacity, ttl, OrderedDict.empty, CacheStats.create⟩

/-- The eviction loop of `put`.  Every round removes an item, so as many rounds as
there are items are enough. -/
def evictLoop : ℕ → LRUCache κ → LRUCache κ
  | 0, c => c
  | rounds + 1, c =>
      if c.capacity < c.cache.size then
        match c.cache.popFirst with
        | some (item, rest) =>
            evictLoop rounds
              { c with
                cache := rest
                stats := c.stats.recordEviction item.2.entrySize }
        | none => c
      else c

def evict (c : LRUCache κ) : LRUCache κ := c.evictLoop c.cache.size

/-- Flush all cached entries. -/
def clear (c : LRUCache κ) : LRUCache κ :=
  { c with cache := OrderedDict.empty, stats := CacheStats.create }

variable [DecidableEq κ]

/-- `get`: the entry, or `none` on a miss or an expired entry, and the cache after
the call. -/
def get (cfg : CacheConfig) (c : LRUCache κ) (key : κ) (now : ℚ) :
    Option Entry × LRUCache κ :=
  if cfg.enabled then
    match c.cache.get? key with
    | none => (none, { c with stats := c.stats.recordMiss })
    | some entry =>
        if c.ttl < entry.age now then
          (none,
            { c with
              cache := c.cache.erase key
              stats := (c.stats.recordEviction entry.entrySize).recordMiss })
        else
          (some entry,
            { c with
              cache := c.cache.moveToEnd key
              stats := c.stats.recordHit })
  else (none, c)

/-- Overwriting an existing entry, when there is one. -/
def dropOld (c : LRUCache κ) (key : κ) : LRUCache κ :=
  match c.cache.get? key with
  | none => c
  | some old =>
      { c with
        cache := c.cache.moveToEnd key
        stats := c.stats.recordRemove old.entrySize }

/-- `self.cache[key] = value`, with its bookkeeping. -/
def store (c : LRUCache κ) (key : κ) (value : Entry) : LRUCache κ :=
  { c.dropOld key with
    cache := (c.dropOld key).cache.set key value
    stats := (c.dropOld key).stats.recordStore value.entrySize }

/-- `put`: store a response, then evict from the least recently used end. -/
def put (cfg : CacheConfig) (c : LRUCache κ) (key : κ) (value : Entry) (now : ℚ) :
    LRUCache κ :=
  if cfg.enabled then
    if cfg.maxObjectSize < value.entrySize then c
    else (c.store key (value.stamped now)).evict
  else c

end LRUCache

/-- One call on a cache, with the reading of the clock it makes. -/
inductive CacheOp (κ : Type u)
  | get (key : κ) (now : ℚ)
  | put (key : κ) (value : Entry) (now : ℚ)
  | clear

namespace CacheOp

variable {κ : Type u}

def isClear : CacheOp κ → Bool
  | clear => true
  | _ => false

/-- An accepted `put`: its value is not larger than `MAX_OBJECT_SIZE`. -/
def Accepted (cfg : CacheConfig) (value : Entry) : Prop := value.entrySize ≤ cfg.maxObjectSize

instance (cfg : CacheConfig) (value : Entry) : Decidable (Accepted cfg value) := by
  unfold Accepted
  infer_instance

/-- Operations that end the validity of what was put under `key` before. -/
def Supersedes (cfg : CacheConfig) (key : κ) : CacheOp κ → Prop
  | get _ _ => False
  | put key' value _ => key' = key ∧ Accepted cfg value
  | clear => True

end CacheOp

open CacheOp

/-- `e` is the value of the last accepted `put` of `key` since the last `clear`. -/
def LastPut {κ : Type u} (cfg : CacheConfig) (ops : List (CacheOp κ)) (key : κ) (e : Entry) :
    Prop :=
  ∃ before value t later,
    ops = before ++ CacheOp.put key value t :: later ∧
    Accepted cfg value ∧
    e = value.stamped t ∧
    ∀ op ∈ later, ¬ op.Supersedes cfg key

/-- The operations since the last `clear`. -/
def sinceClear {κ : Type u} (ops : List (CacheOp κ)) : List (CacheOp κ) :=
  ops.rtakeWhile (fun op => !op.isClear)

namespace LRUCache

variable {κ : Type u} [DecidableEq κ]

/-- The cache after one operation. -/
def step (cfg : CacheConfig) (c : LRUCache κ) : CacheOp κ → LRUCache κ
  | .get key now => (c.get cfg key now).2
  | .put key value now => c.put cfg key value now
  | .clear => c.clear

/-- The cache after a run. -/
def run (cfg : CacheConfig) (c : LRUCache κ) (ops : List (CacheOp κ)) : LRUCache κ :=
  ops.foldl (step cfg) c

/-- The key an operation touches: an accepted `put`, or a `get` that hits. -/
def touched? (cfg : CacheConfig) (c : LRUCache κ) : CacheOp κ → Option κ
  | .get key now => if (c.get cfg key now).1.isSome then some key else none
  | .put key value _ => if Accepted cfg value then some key else none
  | .clear => none

/-- The touches of a run, in order. -/
def touches (cfg : CacheConfig) : LRUCache κ → List (CacheOp κ) → List κ
  | _, [] => []
  | c, op :: ops => (c.touched? cfg op).toList ++ touches cfg (c.step cfg op) ops

/-- The operation is not a `get` that meets an expired entry. -/
def Unexpired (c : LRUCache κ) : CacheOp κ → Prop
  | .get key now => ∀ entry, c.cache.get? key = some entry → entry.age now ≤ c.ttl
  | _ => True

/-- No `get` of the run meets an expired entry. -/
def NoExpiredGet (cfg : CacheConfig) : LRUCache κ → List (CacheOp κ) → Prop
  | _, [] => True
  | c, op :: ops => c.Unexpired op ∧ NoExpiredGet cfg (c.step cfg op) ops

/-! ## One operation -/

omit [DecidableEq κ] in
theorem evictLoop_params (rounds : ℕ) (c : LRUCache κ) :
    (c.evictLoop rounds).capacity = c.capacity ∧ (c.evictLoop rounds).ttl = c.ttl := by
  induction rounds generalizing c with
  | zero => exact ⟨rfl, rfl⟩
  | succ rounds ih =>
      rw [evictLoop]
      split
      · split
        · exact ih _
        · exact ⟨rfl, rfl⟩
      · exact ⟨rfl, rfl⟩

omit [DecidableEq κ] in
/-- The loop leaves the last `capacity` items. -/
theorem evictLoop_items (rounds : ℕ) (c : LRUCache κ) (h : c.cache.size ≤ rounds) :
    (c.evictLoop rounds).cache.items = c.cache.items.rtake c.capacity := by
  induction rounds generalizing c with
  | zero =>
      have hnil : c.cache.items = [] := List.length_eq_zero_iff.mp (Nat.le_zero.mp h)
      rw [evictLoop, hnil, List.rtake_nil]
  | succ rounds ih =>
      rw [evictLoop]
      split
      · rename_i hfull
        cases hpop : c.cache.popFirst with
        | none =>
            have := OrderedDict.popFirst_eq_none_iff.mp hpop
            omega
        | some popped =>
            obtain ⟨item, rest⟩ := popped
            have hitems := OrderedDict.popFirst_eq_some hpop
            have hsize : c.cache.size = rest.size + 1 := by
              rw [OrderedDict.size, hitems, List.length_cons, OrderedDict.size]
            rw [ih _ (by dsimp only; omega)]
            dsimp only
            rw [hitems, List.rtake, List.rtake, List.length_cons]
            rw [OrderedDict.size] at hsize hfull
            have hlen : rest.items.length + 1 - c.capacity =
                (rest.items.length - c.capacity) + 1 := by
              rw [hitems, List.length_cons] at hfull
              omega
            rw [hlen, List.drop_succ_cons]
      · rename_i hfits
        exact (rtake_of_length_le (not_lt.mp hfits)).symm

omit [DecidableEq κ] in
@[simp] theorem evict_capacity (c : LRUCache κ) : c.evict.capacity = c.capacity :=
  (evictLoop_params c.cache.size c).1

omit [DecidableEq κ] in
@[simp] theorem evict_ttl (c : LRUCache κ) : c.evict.ttl = c.ttl :=
  (evictLoop_params c.cache.size c).2

omit [DecidableEq κ] in
theorem evict_items (c : LRUCache κ) :
    c.evict.cache.items = c.cache.items.rtake c.capacity :=
  evictLoop_items c.cache.size c le_rfl

omit [DecidableEq κ] in
theorem evict_keys (c : LRUCache κ) :
    c.evict.cache.keys = c.cache.keys.rtake c.capacity := by
  rw [OrderedDict.keys, evict_items, OrderedDict.keys, List.rtake, List.rtake, List.map_drop,
    List.length_map]

/-- Eviction only removes entries. -/
theorem get?_of_evict {c : LRUCache κ} {key : κ} {e : Entry}
    (h : c.evict.cache.get? key = some e) : c.cache.get? key = some e := by
  have hmem := OrderedDict.mem_items_of_get? h
  rw [evict_items] at hmem
  exact OrderedDict.get?_of_mem_items (List.mem_of_mem_drop hmem)

theorem dropOld_params (c : LRUCache κ) (key : κ) :
    (c.dropOld key).capacity = c.capacity ∧ (c.dropOld key).ttl = c.ttl := by
  rw [dropOld]
  cases c.cache.get? key with
  | none => exact ⟨rfl, rfl⟩
  | some old => exact ⟨rfl, rfl⟩

theorem get?_dropOld (c : LRUCache κ) (key key' : κ) :
    (c.dropOld key).cache.get? key' = c.cache.get? key' := by
  rw [dropOld]
  cases c.cache.get? key with
  | none => rfl
  | some old => exact c.cache.get?_moveToEnd key key'

theorem get?_store (c : LRUCache κ) (key key' : κ) (value : Entry) :
    (c.store key value).cache.get? key' =
      if key = key' then some value else c.cache.get? key' := by
  rw [store, OrderedDict.get?_set, get?_dropOld]

/-- A stored key becomes the most recently used one. -/
theorem store_keys (c : LRUCache κ) (key : κ) (value : Entry) :
    (c.store key value).cache.keys = moveLast key c.cache.keys := by
  rw [store, OrderedDict.keys_set, dropOld]
  cases hget : c.cache.get? key with
  | none =>
      have hfresh := (c.cache.get?_eq_none_iff key).mp hget
      rw [if_neg hfresh, moveLast_of_not_mem hfresh]
  | some old =>
      have hkeys := OrderedDict.keys_moveToEnd (OrderedDict.mem_keys_of_get? hget)
      have hmem : key ∈ (c.cache.moveToEnd key).keys := by
        rw [hkeys]
        simp
      rw [if_pos hmem, hkeys, moveLast]

/-- `get`, by cases: a miss, an expired entry, or a hit. -/
theorem get_cases {cfg : CacheConfig} (henabled : cfg.enabled = true) (c : LRUCache κ)
    (key : κ) (now : ℚ) :
    (c.cache.get? key = none ∧
      c.get cfg key now = (none, { c with stats := c.stats.recordMiss })) ∨
    (∃ entry, c.cache.get? key = some entry ∧ c.ttl < entry.age now ∧
      c.get cfg key now =
        (none,
          { c with
            cache := c.cache.erase key
            stats := (c.stats.recordEviction entry.entrySize).recordMiss })) ∨
    (∃ entry, c.cache.get? key = some entry ∧ entry.age now ≤ c.ttl ∧
      c.get cfg key now =
        (some entry,
          { c with cache := c.cache.moveToEnd key, stats := c.stats.recordHit })) := by
  rw [get, if_pos henabled]
  cases hget : c.cache.get? key with
  | none => exact Or.inl ⟨rfl, rfl⟩
  | some entry =>
      rcases lt_or_ge c.ttl (entry.age now) with hold | hyoung
      · exact Or.inr (Or.inl ⟨entry, rfl, hold, if_pos hold⟩)
      · exact Or.inr (Or.inr ⟨entry, rfl, hyoung, if_neg (not_lt.mpr hyoung)⟩)

/-- `put`, by cases: too large, or stored and evicted. -/
theorem put_cases {cfg : CacheConfig} (henabled : cfg.enabled = true) (c : LRUCache κ)
    (key : κ) (value : Entry) (now : ℚ) :
    (¬ Accepted cfg value ∧ c.put cfg key value now = c) ∨
    (Accepted cfg value ∧
      c.put cfg key value now = (c.store key (value.stamped now)).evict) := by
  rw [put, if_pos henabled]
  rcases lt_or_ge cfg.maxObjectSize value.entrySize with hlarge | hfits
  · exact Or.inl ⟨not_le.mpr hlarge, if_pos hlarge⟩
  · exact Or.inr ⟨hfits, if_neg (not_lt.mpr hfits)⟩

omit [DecidableEq κ] in
theorem evictLoop_stores (rounds : ℕ) (c : LRUCache κ) :
    (c.evictLoop rounds).stats.stores = c.stats.stores := by
  induction rounds generalizing c with
  | zero => rfl
  | succ rounds ih =>
      rw [evictLoop]
      split
      · split
        · exact ih _
        · rfl
      · rfl

theorem store_stores (c : LRUCache κ) (key : κ) (value : Entry) :
    (c.store key value).stats.stores = c.stats.stores + 1 := by
  rw [store, dropOld]
  cases c.cache.get? key with
  | none => rfl
  | some old => rfl

/-- An accepted `put` is counted, so it never leaves the cache as it was. -/
theorem put_ne_self {cfg : CacheConfig} (henabled : cfg.enabled = true) (c : LRUCache κ)
    (key : κ) {value : Entry} (now : ℚ) (hfits : Accepted cfg value) :
    c.put cfg key value now ≠ c := by
  intro h
  rcases put_cases henabled c key value now with ⟨hlarge, -⟩ | ⟨-, hput⟩
  · exact hlarge hfits
  · have hstores : (c.put cfg key value now).stats.stores = c.stats.stores + 1 := by
      rw [hput, evict, evictLoop_stores, store_stores]
    rw [h] at hstores
    omega

theorem step_params {cfg : CacheConfig} (henabled : cfg.enabled = true) (c : LRUCache κ)
    (op : CacheOp κ) :
    (c.step cfg op).capacity = c.capacity ∧ (c.step cfg op).ttl = c.ttl := by
  cases op with
  | get key now =>
      rw [step]
      rcases c.get_cases henabled key now with ⟨-, h⟩ | ⟨_, -, -, h⟩ | ⟨_, -, -, h⟩
      · rw [h]
        exact ⟨rfl, rfl⟩
      · rw [h]
        exact ⟨rfl, rfl⟩
      · rw [h]
        exact ⟨rfl, rfl⟩
  | put key value now =>
      rw [step]
      rcases c.put_cases henabled key value now with ⟨-, h⟩ | ⟨-, h⟩
      · rw [h]
        exact ⟨rfl, rfl⟩
      · rw [h, evict_capacity, evict_ttl]
        exact c.dropOld_params key
  | clear => exact ⟨rfl, rfl⟩

theorem run_params {cfg : CacheConfig} (henabled : cfg.enabled = true) (c : LRUCache κ)
    (ops : List (CacheOp κ)) :
    (c.run cfg ops).capacity = c.capacity ∧ (c.run cfg ops).ttl = c.ttl := by
  induction ops generalizing c with
  | nil => exact ⟨rfl, rfl⟩
  | cons op ops ih =>
      obtain ⟨hcap, httl⟩ := c.step_params henabled op
      obtain ⟨hcap', httl'⟩ := ih (c.step cfg op)
      exact ⟨hcap'.trans hcap, httl'.trans httl⟩

theorem run_append (cfg : CacheConfig) (c : LRUCache κ) (ops ops' : List (CacheOp κ)) :
    c.run cfg (ops ++ ops') = (c.run cfg ops).run cfg ops' :=
  List.foldl_append

/-! ## The value of a hit -/

/-- A cached entry was put by this operation, or was there before
and is not superseded. -/
theorem get?_step {cfg : CacheConfig} (henabled : cfg.enabled = true) {c : LRUCache κ}
    {op : CacheOp κ} {key : κ} {e : Entry}
    (h : (c.step cfg op).cache.get? key = some e) :
    (∃ value t, op = .put key value t ∧ Accepted cfg value ∧ e = value.stamped t) ∨
    (c.cache.get? key = some e ∧ ¬ op.Supersedes cfg key) := by
  cases op with
  | get key' now =>
      right
      refine ⟨?_, id⟩
      rw [step] at h
      rcases c.get_cases henabled key' now with ⟨-, hc⟩ | ⟨_, -, -, hc⟩ | ⟨_, -, -, hc⟩
      · rw [hc] at h
        exact h
      · rw [hc, OrderedDict.get?_erase] at h
        split at h
        · cases h
        · exact h
      · rw [hc, OrderedDict.get?_moveToEnd] at h
        exact h
  | put key' value now =>
      rw [step] at h
      rcases c.put_cases henabled key' value now with ⟨hlarge, hc⟩ | ⟨hfits, hc⟩
      · rw [hc] at h
        exact Or.inr ⟨h, fun hs => hlarge hs.2⟩
      · rw [hc] at h
        have hstore := get?_of_evict h
        rw [get?_store] at hstore
        rcases eq_or_ne key' key with rfl | hne
        · rw [if_pos rfl, Option.some.injEq] at hstore
          exact Or.inl ⟨value, now, rfl, hfits, hstore.symm⟩
        · rw [if_neg hne] at hstore
          exact Or.inr ⟨hstore, fun hs => hne hs.1⟩
  | clear => cases h

/-- Every cached entry is the value of the last accepted `put` of its
key. -/
theorem lastPut_of_get?_run {cfg : CacheConfig} (henabled : cfg.enabled = true)
    (capacity : ℕ) (ttl : ℚ) {ops : List (CacheOp κ)} {key : κ} {e : Entry}
    (h : ((create capacity ttl : LRUCache κ).run cfg ops).cache.get? key = some e) :
    LastPut cfg ops key e := by
  induction ops using List.reverseRecOn generalizing e with
  | nil => cases h
  | append_singleton ops op ih =>
      rw [run_append] at h
      rcases get?_step henabled h with ⟨value, t, rfl, hok, rfl⟩ | ⟨hold, hkeep⟩
      · exact ⟨ops, value, t, [], rfl, hok, rfl, by simp⟩
      · obtain ⟨before, value, t, later, rfl, hok, he, hlater⟩ := ih hold
        refine ⟨before, value, t, later ++ [op], by simp, hok, he, ?_⟩
        intro op' hop'
        rcases List.mem_append.mp hop' with hin | hin
        · exact hlater op' hin
        · rw [List.mem_singleton.mp hin]
          exact hkeep

theorem get_returns_last_put {cfg : CacheConfig} (henabled : cfg.enabled = true)
    (capacity : ℕ) (ttl : ℚ) {ops : List (CacheOp κ)} {key : κ} {now : ℚ} {e : Entry}
    (h : (((create capacity ttl : LRUCache κ).run cfg ops).get cfg key now).1 = some e) :
    LastPut cfg ops key e ∧ e.age now ≤ ttl := by
  obtain ⟨-, httl⟩ := (create capacity ttl : LRUCache κ).run_params henabled ops
  rcases get_cases henabled ((create capacity ttl : LRUCache κ).run cfg ops) key now with
    ⟨-, hc⟩ | ⟨_, -, -, hc⟩ | ⟨entry, hget, hage, hc⟩
  · rw [hc] at h
    cases h
  · rw [hc] at h
    cases h
  · rw [hc, Option.some.injEq] at h
    subst h
    rw [httl] at hage
    exact ⟨lastPut_of_get?_run henabled capacity ttl hget, hage⟩

/-! ## The recency order -/

/-- An operation without expiry moves the key it touches to the end
and cuts the order to the capacity. -/
theorem step_keys {cfg : CacheConfig} (henabled : cfg.enabled = true) {c : LRUCache κ}
    {op : CacheOp κ} (hfits : c.cache.keys.length ≤ c.capacity)
    (hclear : op.isClear = false) (hage : c.Unexpired op) :
    (c.step cfg op).cache.keys =
      match c.touched? cfg op with
      | some key => (moveLast key c.cache.keys).rtake c.capacity
      | none => c.cache.keys := by
  cases op with
  | get key now =>
      rw [step, touched?]
      rcases c.get_cases henabled key now with ⟨-, hc⟩ | ⟨entry, hget, hold, -⟩ |
        ⟨entry, hget, -, hc⟩
      · simp [hc]
      · exact absurd (hage entry hget) (not_le.mpr hold)
      · have hmem := OrderedDict.mem_keys_of_get? hget
        have hlen := length_moveLast_of_mem c.cache.keys_nodup hmem
        rw [hc, OrderedDict.keys_moveToEnd hmem]
        simp only [Option.isSome_some, if_true]
        rw [rtake_of_length_le (by omega), moveLast]
  | put key value now =>
      rw [step, touched?]
      rcases c.put_cases henabled key value now with ⟨hlarge, hc⟩ | ⟨hok, hc⟩
      · rw [hc, if_neg hlarge]
      · obtain ⟨hcap, -⟩ := c.dropOld_params key
        rw [hc, if_pos hok, evict_keys, store_keys]
        exact congrArg _ hcap
  | clear => cases hclear

/-- From a cache whose keys are the last touched ones, a run without
expiry keeps them so. -/
theorem run_keys {cfg : CacheConfig} (henabled : cfg.enabled = true)
    {ops : List (CacheOp κ)} :
    ∀ {c : LRUCache κ} {past : List κ},
      c.cache.keys = past.dedup.rtake c.capacity →
      (∀ op ∈ ops, op.isClear = false) →
      c.NoExpiredGet cfg ops →
      (c.run cfg ops).cache.keys =
        (past ++ c.touches cfg ops).dedup.rtake c.capacity := by
  induction ops with
  | nil =>
      intro c past hkeys _ _
      rw [touches, List.append_nil]
      exact hkeys
  | cons op ops ih =>
      intro c past hkeys hclear hage
      have hfits : c.cache.keys.length ≤ c.capacity := by
        rw [hkeys, List.rtake, List.length_drop]
        omega
      obtain ⟨hcap, -⟩ := c.step_params henabled op
      have hstep := step_keys henabled hfits (hclear op List.mem_cons_self) hage.1
      have hnext : (c.step cfg op).cache.keys =
          (past ++ (c.touched? cfg op).toList).dedup.rtake (c.step cfg op).capacity := by
        rw [hstep, hcap]
        cases c.touched? cfg op with
        | none =>
            rw [Option.toList_none, List.append_nil]
            exact hkeys
        | some key =>
            rw [Option.toList_some, dedup_concat, hkeys]
            exact rtake_moveLast_rtake key (List.nodup_dedup past) c.capacity
      have hrun := ih hnext (fun op' h => hclear op' (List.mem_cons_of_mem _ h)) hage.2
      rw [hcap, List.append_assoc] at hrun
      exact hrun

theorem keys_eq_last_touched {cfg : CacheConfig} (henabled : cfg.enabled = true)
    (capacity : ℕ) (ttl : ℚ) {ops : List (CacheOp κ)}
    (hclear : ∀ op ∈ ops, op.isClear = false)
    (hage : (create capacity ttl : LRUCache κ).NoExpiredGet cfg ops) :
    ((create capacity ttl : LRUCache κ).run cfg ops).cache.keys =
      ((create capacity ttl : LRUCache κ).touches cfg ops).dedup.rtake capacity := by
  have hkeys : (create capacity ttl : LRUCache κ).cache.keys =
      ([] : List κ).dedup.rtake capacity := by
    simp [create]
  exact run_keys henabled hkeys hclear hage

/-- Flushing restarts the run. -/
theorem run_clear_append {cfg : CacheConfig} (henabled : cfg.enabled = true)
    (capacity : ℕ) (ttl : ℚ) (before ops : List (CacheOp κ)) :
    (create capacity ttl : LRUCache κ).run cfg (before ++ .clear :: ops) =
      (create capacity ttl : LRUCache κ).run cfg ops := by
  obtain ⟨hcap, httl⟩ := (create capacity ttl : LRUCache κ).run_params henabled before
  rw [run_append, run, List.foldl_cons]
  have hclear : step cfg ((create capacity ttl : LRUCache κ).run cfg before) .clear =
      create capacity ttl := by
    rw [step, clear, hcap, httl]
    rfl
  rw [hclear]
  rfl

omit [DecidableEq κ] in
theorem isClear_of_mem_sinceClear {ops : List (CacheOp κ)} {op : CacheOp κ}
    (h : op ∈ sinceClear ops) : op.isClear = false := by
  have := List.mem_rtakeWhile_imp h
  simpa using this

theorem run_sinceClear {cfg : CacheConfig} (henabled : cfg.enabled = true)
    (capacity : ℕ) (ttl : ℚ) (ops : List (CacheOp κ)) :
    (create capacity ttl : LRUCache κ).run cfg ops =
      (create capacity ttl : LRUCache κ).run cfg (sinceClear ops) := by
  induction ops using List.reverseRecOn with
  | nil => rfl
  | append_singleton ops op ih =>
      cases hop : op.isClear with
      | true =>
          have hsince : sinceClear (ops ++ [op]) = [] := by
            rw [sinceClear, List.rtakeWhile_concat_neg]
            simp [hop]
          rw [hsince]
          cases op with
          | get key now => cases hop
          | put key value now => cases hop
          | clear => exact run_clear_append henabled capacity ttl ops []
      | false =>
          have hsince : sinceClear (ops ++ [op]) = sinceClear ops ++ [op] := by
            rw [sinceClear, List.rtakeWhile_concat_pos, sinceClear]
            simp [hop]
          rw [hsince, run_append, run_append, ih]

/--
**LRU correctness.**  On an enabled cache, a `get` that returns an entry returns the
value of the last accepted `put` of its key since the last `clear`, at an age of at
most `ttl`; and when no `get` since then met an expired entry, the cached keys are
the last `capacity` distinct touched keys, ordered by last touch.
-/
theorem lru_correct (cfg : CacheConfig) (henabled : cfg.enabled = true)
    (capacity : ℕ) (ttl : ℚ) (ops : List (CacheOp κ)) :
    (∀ (key : κ) (now : ℚ) (e : Entry),
      (((create capacity ttl : LRUCache κ).run cfg ops).get cfg key now).1 = some e →
        LastPut cfg ops key e ∧ e.age now ≤ ttl) ∧
    ((create capacity ttl : LRUCache κ).NoExpiredGet cfg (sinceClear ops) →
      ((create capacity ttl : LRUCache κ).run cfg ops).cache.keys =
        let D := ((create capacity ttl : LRUCache κ).touches cfg (sinceClear ops)).dedup
        D.drop (D.length - min capacity D.length)) := by
  constructor
  · intro key now e h
    exact get_returns_last_put henabled capacity ttl h
  · intro hage
    rw [run_sinceClear henabled]
    dsimp only
    rw [← rtake_min]
    exact keys_eq_last_touched henabled capacity ttl
      (fun op hop => isClear_of_mem_sinceClear hop) hage

/-- Two entries fit; the one that was read survives the third `put`. -/
theorem lru_correct_third_put :
    ((create 2 300 : LRUCache Char).run ⟨true, 10⟩
      [.put 'z' ⟨[], some 1, none⟩ 0, .clear,
        .put 'a' ⟨[65], some 1, none⟩ 0, .put 'b' ⟨[66], some 1, none⟩ 1,
        .get 'a' 2, .put 'c' ⟨[67], some 1, none⟩ 3]).cache.keys = ['a', 'c'] := by
  have h := (lru_correct ⟨true, 10⟩ rfl 2 300
    [.put 'z' ⟨[], some 1, none⟩ 0, .clear,
      .put 'a' ⟨[65], some 1, none⟩ 0, .put 'b' ⟨[66], some 1, none⟩ 1,
      .get 'a' 2, .put 'c' ⟨[67], some 1, none⟩ 3]).2
    ⟨trivial, trivial, fun entry hget => by
      have hentry : some ⟨[65], some 1, some 0⟩ = some entry := hget
      have hage : (2 : ℚ) - 0 ≤ 300 := by norm_num
      cases hentry
      exact hage, trivial, trivial⟩
  rw [h]
  decide +kernel

end LRUCache
end Cache
end NetworkProxy
