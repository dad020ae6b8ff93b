import NetworkProxy.CacheAccounting
import NetworkProxy.Doubles
import Mathlib.Tactic.Linarith
import Mathlib.Tactic.Positivity

/-!
# Snapshots of the cache statistics

The operations of the cache run one at a time, under its lock.  The dashboard reads
`cache.stats` and calls `snapshot` without that lock, so it comes in between any two
actions of an operation.

* `Shared.step`: the interleaved steps of the operations and of the readers.
* `snapshots_consistent`: when no snapshot falls between two of the calls by which one
  operation changes the entries and bytes, every snapshot shows the cache as it was
  between two operations.
* `snapshot_shows_two_entries`: a snapshot of a cache for one entry that shows two.
-/

namespace NetworkProxy
namespace Cache

open Py LRUCache Doubles

universe u

/-- What `CacheStats.snapshot` returns. -/
structure Snapshot where
  hits : ℕ
  misses : ℕ
  evictions : ℕ
  stores : ℕ
  currentEntries : ℤ
  currentBytes : ℤ
  /-- `hit_rate`, in tenths of a percent. -/
  hitRateTenths : ℤ

/-- `snapshot()`. -/
def CacheStats.snapshot (s : CacheStats) : Snapshot :=
  let total := s.hits + s.misses
  { hits := s.hits
    misses := s.misses
    evictions := s.evictions
    stores := s.stores
    currentEntries := s.currentEntries
    currentBytes := s.currentBytes
    hitRateTenths :=
      if 0 < total then roundTenths (rounded (rounded (s.hits / total) * 100)) else 0 }

/-- The hit rate is a percentage. -/
theorem CacheStats.snapshot_hitRate (s : CacheStats) :
    0 ≤ s.snapshot.hitRateTenths ∧ s.snapshot.hitRateTenths ≤ 1000 := by
  rw [CacheStats.snapshot]
  dsimp only
  split
  · have hrate : (0 : ℚ) ≤ s.hits / (s.hits + s.misses : ℕ) := by positivity
    have hone : (s.hits / (s.hits + s.misses : ℕ) : ℚ) ≤ (1 : ℕ) := by
      refine div_le_of_le_mul₀ (by positivity) (by positivity) ?_
      push_cast
      linarith [(Nat.cast_nonneg s.misses : (0 : ℚ) ≤ s.misses)]
    have hrounded := rounded_le hrate hone (by norm_num)
    have hproduct : (0 : ℚ) ≤ rounded (s.hits / (s.hits + s.misses : ℕ)) * 100 :=
      mul_nonneg (rounded_nonneg hrate) (by norm_num)
    have hpercent : rounded (s.hits / (s.hits + s.misses : ℕ)) * 100 ≤ (100 : ℕ) := by
      push_cast at hrounded ⊢
      linarith
    refine ⟨roundTenths_nonneg (rounded_nonneg hproduct), ?_⟩
    exact roundTenths_le (rounded_nonneg hproduct) (rounded_le hproduct hpercent (by norm_num))
  · exact ⟨le_rfl, by norm_num⟩

namespace Action

variable {κ : Type u}

/-- The action changes the counters of entries and bytes. -/
def Resizes : Action κ → Bool
  | .record .hit => false
  | .record .miss => false
  | .record _ => true
  | .freshStats => true
  | _ => false

/-- The action replaces the statistics object. -/
def Replaces : Action κ → Bool
  | .freshStats => true
  | _ => false

end Action

/-- The cache and its readers.  A reference to a statistics object is the number of
objects that were replaced before it. -/
structure Shared (κ : Type u) where
  lru : LRUCache κ
  /-- The statistics objects that `clear` replaced, oldest first. -/
  retired : List CacheStats
  /-- The operations so far, with the one in progress. -/
  started : List (CacheOp κ)
  /-- The actions of the operation in progress, made and to be made. -/
  made : List (Action κ)
  todo : List (Action κ)
  /-- The reference to `cache.stats` that a reader has loaded. -/
  held : ℕ → Option ℕ
  taken : List Snapshot

/-- What can happen next. -/
inductive Tick (κ : Type u)
  /-- An operation takes the lock of the cache. -/
  | start (op : CacheOp κ)
  | act
  | load (reader : ℕ)
  | snapshot (reader : ℕ)

namespace Shared

variable {κ : Type u}

/-- A new cache without readers. -/
def create (capacity : ℕ) (ttl : ℚ) : Shared κ where
  lru := LRUCache.create capacity ttl
  retired := []
  started := []
  made := []
  todo := []
  held := fun _ => none
  taken := []

/-- The statistics object behind a reference. -/
def object (s : Shared κ) (ref : ℕ) : Option CacheStats := (s.retired ++ [s.lru.stats])[ref]?

variable [DecidableEq κ]

/-- One step; `none` when it is not possible. -/
def step (cfg : CacheConfig) (s : Shared κ) : Tick κ → Option (Shared κ)
  | .start op =>
      match s.todo with
      | [] =>
          some { s with
            started := s.started ++ [op]
            made := []
            todo := s.lru.actions cfg op }
      | _ :: _ => none
  | .act =>
      match s.todo with
      | [] => none
      | a :: rest =>
          some { s with
            lru := s.lru.act a
            retired := if a.Replaces then s.retired ++ [s.lru.stats] else s.retired
            made := s.made ++ [a]
            todo := rest }
  | .load reader =>
      some { s with held := Function.update s.held reader (some s.retired.length) }
  | .snapshot reader =>
      match s.held reader with
      | none => none
      | some ref =>
          (s.object ref).map (fun stats => { s with taken := s.taken ++ [stats.snapshot] })

/-- The state after a schedule. -/
def run (cfg : CacheConfig) : Shared κ → List (Tick κ) → Option (Shared κ)
  | s, [] => some s
  | s, tick :: ticks =>
      match s.step cfg tick with
      | none => none
      | some s' => run cfg s' ticks

/-- Entries and bytes as the cache has them between two operations of the run. -/
def Between (cfg : CacheConfig) (capacity : ℕ) (ttl : ℚ) (s : Shared κ) (entries bytes : ℤ) :
    Prop :=
  ∃ before, before <+: s.started ∧
    entries = ((LRUCache.create capacity ttl : LRUCache κ).run cfg before).cache.size ∧
    bytes = ((LRUCache.create capacity ttl : LRUCache κ).run cfg before).totalBytes

/-- Every snapshot shows the cache as it was between two operations, so within its
capacity. -/
def Consistent (cfg : CacheConfig) (capacity : ℕ) (ttl : ℚ) (s : Shared κ) : Prop :=
  ∀ snapshot, snapshot ∈ s.taken →
    s.Between cfg capacity ttl snapshot.currentEntries snapshot.currentBytes ∧
      snapshot.currentEntries ≤ capacity

/-- The operation in progress has changed the entries and bytes not yet, or for the last
time. -/
def Settled (s : Shared κ) : Prop :=
  (∀ a, a ∈ s.made → a.Resizes = false) ∨ ∀ a, a ∈ s.todo → a.Resizes = false

/-- A snapshot of the statistics in use finds the operation in progress settled. -/
def Calm (s : Shared κ) : Tick κ → Prop
  | .snapshot reader => s.held reader = some s.retired.length → s.Settled
  | _ => True

/-- Every snapshot of the schedule is calm when it is taken. -/
def CalmRun (cfg : CacheConfig) : Shared κ → List (Tick κ) → Prop
  | _, [] => True
  | s, tick :: ticks =>
      s.Calm tick ∧ ∀ s', s.step cfg tick = some s' → CalmRun cfg s' ticks

/-! ## The states between operations -/

omit [DecidableEq κ] in
theorem accounted_clear (c : LRUCache κ) : c.clear.Accounted 0 0 :=
  ⟨⟨rfl, rfl, fun _ hmem => absurd hmem List.not_mem_nil⟩, rfl, rfl⟩

/-- Between operations the cache is accounted and fits its capacity. -/
theorem exists_accounted_run (cfg : CacheConfig) (capacity : ℕ) (ttl : ℚ)
    (ops : List (CacheOp κ)) (hsizes : ∀ op, op ∈ ops → op.SizeNonneg) :
    let c := (LRUCache.create capacity ttl : LRUCache κ).run cfg ops
    (∃ m n, c.Accounted m n) ∧ c.cache.size ≤ c.capacity ∧ c.capacity = capacity := by
  induction ops using List.reverseRecOn with
  | nil => exact ⟨⟨0, 0, Accounted.create capacity ttl⟩, Nat.zero_le _, rfl⟩
  | append_singleton ops op ih =>
      obtain ⟨⟨m, n, hacc⟩, hle, hcap⟩ :=
        ih (fun op' h' => hsizes op' (List.mem_append_left _ h'))
      have hsize := hsizes op (List.mem_append_right _ (List.mem_singleton_self op))
      rw [run_append]
      cases hclear : op.isClear with
      | true =>
          cases op with
          | get key now => cases hclear
          | put key value now => cases hclear
          | clear => exact ⟨⟨0, 0, accounted_clear _⟩, Nat.zero_le _, hcap⟩
      | false =>
          by_cases henabled : cfg.enabled = true
          · refine ⟨⟨_, _, hacc.step henabled hclear hsize⟩, size_step_le henabled hle op, ?_⟩
            exact (step_params henabled _ op).1.trans hcap
          · have hsame (c : LRUCache κ) : c.run cfg [op] = c := by
              cases op with
              | get key now =>
                  show (c.get cfg key now).2 = c
                  rw [LRUCache.get, if_neg henabled]
              | put key value now => exact if_neg henabled
              | clear => cases hclear
            rw [hsame]
            exact ⟨⟨m, n, hacc⟩, hle, hcap⟩

/-- Actions that resize nothing leave the counters of entries and bytes. -/
theorem perform_of_not_resizes :
    ∀ {as : List (Action κ)} {c : LRUCache κ}, (∀ a, a ∈ as → a.Resizes = false) →
      (c.perform as).stats.currentEntries = c.stats.currentEntries ∧
        (c.perform as).stats.currentBytes = c.stats.currentBytes
  | [], _, _ => ⟨rfl, rfl⟩
  | a :: as, c, h => by
      have hrest := perform_of_not_resizes (c := c.act a)
        (fun a' h' => h a' (List.mem_cons_of_mem _ h'))
      have hone : (c.act a).stats.currentEntries = c.stats.currentEntries ∧
          (c.act a).stats.currentBytes = c.stats.currentBytes := by
        have ha := h a List.mem_cons_self
        cases a with
        | record call => cases call <;> first | exact ⟨rfl, rfl⟩ | cases ha
        | freshStats => cases ha
        | _ => exact ⟨rfl, rfl⟩
      exact ⟨hrest.1.trans hone.1, hrest.2.trans hone.2⟩

theorem replaces_storeActions (c : LRUCache κ) (key : κ) (value : Entry) :
    ∀ a, a ∈ c.storeActions key value → a.Replaces = false := by
  intro a ha
  rw [storeActions, dropOldActions] at ha
  rcases List.mem_append.mp ha with ha | ha
  · cases hget : c.cache.get? key with
    | none =>
        rw [hget] at ha
        cases ha
    | some old =>
        rw [hget] at ha
        simp only [List.mem_cons, List.not_mem_nil, or_false] at ha
        rcases ha with rfl | rfl <;> rfl
  · simp only [List.mem_cons, List.not_mem_nil, or_false] at ha
    rcases ha with rfl | rfl <;> rfl

omit [DecidableEq κ] in
theorem replaces_evictActions :
    ∀ (rounds : ℕ) (c : LRUCache κ) (a : Action κ), a ∈ c.evictActions rounds →
      a.Replaces = false
  | 0, _, _, ha => by cases ha
  | rounds + 1, c, a, ha => by
      rw [evictActions] at ha
      split at ha
      · cases hpop : c.cache.popFirst with
        | none =>
            rw [hpop] at ha
            cases ha
        | some popped =>
            rw [hpop] at ha
            rcases List.mem_cons.mp ha with rfl | ha
            · rfl
            · rcases List.mem_cons.mp ha with rfl | ha
              · rfl
              · exact replaces_evictActions rounds _ a ha
      · cases ha

/-- Only `clear` replaces the statistics object, and it changes no counter before. -/
theorem not_resizes_before_replacing {cfg : CacheConfig} {c : LRUCache κ} {op : CacheOp κ}
    {before after : List (Action κ)} {a : Action κ}
    (h : before ++ a :: after = c.actions cfg op) (ha : a.Replaces = true) :
    ∀ a', a' ∈ before → a'.Resizes = false := by
  have hmem : a ∈ c.actions cfg op := h ▸ List.mem_append_right _ List.mem_cons_self
  cases op with
  | get key now =>
      exfalso
      rw [actions, getActions] at hmem
      split at hmem
      · split at hmem
        · rw [List.mem_singleton] at hmem
          subst hmem
          cases ha
        · split at hmem
          · simp only [List.mem_cons, List.not_mem_nil, or_false] at hmem
            rcases hmem with rfl | rfl | rfl <;> cases ha
          · simp only [List.mem_cons, List.not_mem_nil, or_false] at hmem
            rcases hmem with rfl | rfl <;> cases ha
      · cases hmem
  | put key value now =>
      exfalso
      rw [actions] at hmem
      split at hmem
      · split at hmem
        · cases hmem
        · rcases List.mem_append.mp hmem with hmem | hmem
          · rw [replaces_storeActions _ _ _ a hmem] at ha
            cases ha
          · rw [replaces_evictActions _ _ a hmem] at ha
            cases ha
      · cases hmem
  | clear =>
      cases before with
      | nil => exact fun a' h' => absurd h' List.not_mem_nil
      | cons first before =>
          rw [actions, List.cons_append, List.cons.injEq] at h
          cases before with
          | nil =>
              intro a' h'
              rw [List.mem_singleton.mp h', h.1]
              rfl
          | cons second before =>
              rw [List.cons_append, List.cons.injEq] at h
              exact absurd h.2.2 (by simp)

/-! ## The invariant -/

/-- Where a state stands in its run, and that the replaced objects and the snapshots
show the cache between two operations. -/
structure Inv (cfg : CacheConfig) (capacity : ℕ) (ttl : ℚ) (s : Shared κ) : Prop where
  sizes : ∀ op, op ∈ s.started → op.SizeNonneg
  /-- The operations before the one in progress, and that one. -/
  position : ∃ before current, s.started = before ++ current ∧ current.length ≤ 1 ∧
    let c := (LRUCache.create capacity ttl : LRUCache κ).run cfg before
    s.lru = c.perform s.made ∧
      s.made ++ s.todo = current.flatMap (fun op => c.actions cfg op)
  retired : ∀ stats, stats ∈ s.retired →
    s.Between cfg capacity ttl stats.currentEntries stats.currentBytes
  taken : s.Consistent cfg capacity ttl

variable {cfg : CacheConfig} {capacity : ℕ} {ttl : ℚ} {s s' : Shared κ}

theorem Inv.create : (Shared.create capacity ttl : Shared κ).Inv cfg capacity ttl where
  sizes := fun _ hmem => absurd hmem List.not_mem_nil
  position := ⟨[], [], rfl, Nat.zero_le _, rfl, rfl⟩
  retired := fun _ hmem => absurd hmem List.not_mem_nil
  taken := fun _ hmem => absurd hmem List.not_mem_nil

theorem Between.later {entries bytes : ℤ} (h : s.Between cfg capacity ttl entries bytes)
    (hstarted : s.started <+: s'.started) : s'.Between cfg capacity ttl entries bytes := by
  obtain ⟨before, hbefore, hvalues⟩ := h
  exact ⟨before, hbefore.trans hstarted, hvalues⟩

/-- What the counters say between two operations. -/
theorem between_of_run (hsizes : ∀ op, op ∈ s.started → op.SizeNonneg)
    {before : List (CacheOp κ)} (hbefore : before <+: s.started) {entries bytes : ℤ}
    (hentries : entries =
      ((LRUCache.create capacity ttl : LRUCache κ).run cfg before).stats.currentEntries)
    (hbytes : bytes =
      ((LRUCache.create capacity ttl : LRUCache κ).run cfg before).stats.currentBytes) :
    s.Between cfg capacity ttl entries bytes := by
  obtain ⟨⟨m, n, hacc⟩, -⟩ :=
    exists_accounted_run cfg capacity ttl before (fun op hop => hsizes op (hbefore.subset hop))
  exact ⟨before, hbefore, hentries.trans hacc.entries, hbytes.trans hacc.bytes⟩

/-- Entries between two operations are within the capacity. -/
theorem Between.le_capacity (hsizes : ∀ op, op ∈ s.started → op.SizeNonneg)
    {entries bytes : ℤ} (h : s.Between cfg capacity ttl entries bytes) :
    entries ≤ capacity := by
  obtain ⟨before, hbefore, hentries, -⟩ := h
  obtain ⟨-, hle, hcap⟩ :=
    exists_accounted_run cfg capacity ttl before (fun op hop => hsizes op (hbefore.subset hop))
  rw [hentries]
  exact_mod_cast hle.trans hcap.le

/-- When everything is made, the operation in progress is over. -/
theorem Inv.run_started (h : s.Inv cfg capacity ttl) (htodo : s.todo = []) :
    (LRUCache.create capacity ttl : LRUCache κ).run cfg s.started = s.lru := by
  obtain ⟨before, current, hstarted, hlength, hlru, hactions⟩ := h.position
  rw [htodo, List.append_nil] at hactions
  rw [hlru, hactions, hstarted, run_append]
  cases current with
  | nil => rfl
  | cons op rest =>
      obtain rfl : rest = [] := List.length_eq_zero_iff.mp (by simpa using hlength)
      rw [List.flatMap_cons, List.flatMap_nil, List.append_nil, perform_actions]
      rfl

/-- The counters in use, when the operation in progress is settled. -/
theorem Inv.between_of_settled (h : s.Inv cfg capacity ttl) (hsettled : s.Settled) :
    s.Between cfg capacity ttl s.lru.stats.currentEntries s.lru.stats.currentBytes := by
  obtain ⟨before, current, hstarted, hlength, hlru, hactions⟩ := h.position
  rcases hsettled with hmade | htodo
  · have hsame := perform_of_not_resizes hmade
      (c := (LRUCache.create capacity ttl : LRUCache κ).run cfg before)
    rw [← hlru] at hsame
    exact between_of_run h.sizes (hstarted ▸ List.prefix_append _ _) hsame.1 hsame.2
  · have hsame := perform_of_not_resizes htodo (c := s.lru)
    have hend : s.lru.perform s.todo =
        (LRUCache.create capacity ttl : LRUCache κ).run cfg s.started := by
      rw [hlru, ← perform_append, hactions, hstarted, run_append]
      cases current with
      | nil => rfl
      | cons op rest =>
          obtain rfl : rest = [] := List.length_eq_zero_iff.mp (by simpa using hlength)
          rw [List.flatMap_cons, List.flatMap_nil, List.append_nil, perform_actions]
          rfl
    rw [hend] at hsame
    exact between_of_run h.sizes (List.prefix_refl _) hsame.1.symm hsame.2.symm

theorem Inv.start (h : s.Inv cfg capacity ttl) {op : CacheOp κ} (hsize : op.SizeNonneg)
    (htodo : s.todo = []) :
    Inv cfg capacity ttl
      { s with
        started := s.started ++ [op]
        made := []
        todo := s.lru.actions cfg op } where
  sizes := by
    intro op' hop'
    rcases List.mem_append.mp hop' with hop' | hop'
    · exact h.sizes op' hop'
    · rw [List.mem_singleton.mp hop']
      exact hsize
  position := by
    refine ⟨s.started, [op], rfl, le_rfl, ?_⟩
    rw [h.run_started htodo]
    exact ⟨rfl, by simp⟩
  retired := fun stats hmem => (h.retired stats hmem).later (List.prefix_append _ _)
  taken := fun snapshot hmem =>
    ⟨(h.taken snapshot hmem).1.later (List.prefix_append _ _), (h.taken snapshot hmem).2⟩

theorem Inv.act (h : s.Inv cfg capacity ttl) {a : Action κ} {rest : List (Action κ)}
    (htodo : s.todo = a :: rest) :
    Inv cfg capacity ttl
      { s with
        lru := s.lru.act a
        retired := if a.Replaces then s.retired ++ [s.lru.stats] else s.retired
        made := s.made ++ [a]
        todo := rest } where
  sizes := h.sizes
  position := by
    obtain ⟨before, current, hstarted, hlength, hlru, hactions⟩ := h.position
    refine ⟨before, current, hstarted, hlength, ?_, ?_⟩
    · rw [perform_append, ← hlru]
      rfl
    · rw [← hactions, htodo, List.append_assoc]
      rfl
  retired := by
    intro stats hmem
    split at hmem
    · rename_i ha
      rcases List.mem_append.mp hmem with hmem | hmem
      · exact h.retired stats hmem
      · rw [List.mem_singleton.mp hmem]
        refine h.between_of_settled (Or.inl ?_)
        obtain ⟨before, current, -, hlength, -, hactions⟩ := h.position
        rw [htodo] at hactions
        cases current with
        | nil => exact absurd hactions (by simp)
        | cons op others =>
            obtain rfl : others = [] := List.length_eq_zero_iff.mp (by simpa using hlength)
            rw [List.flatMap_cons, List.flatMap_nil, List.append_nil] at hactions
            exact not_resizes_before_replacing hactions ha
    · exact h.retired stats hmem
  taken := h.taken

theorem Inv.snapshot (h : s.Inv cfg capacity ttl) {ref : ℕ} {stats : CacheStats}
    (hobject : s.object ref = some stats) (hcalm : ref = s.retired.length → s.Settled) :
    Inv cfg capacity ttl { s with taken := s.taken ++ [stats.snapshot] } where
  sizes := h.sizes
  position := h.position
  retired := h.retired
  taken := by
    intro snapshot hmem
    rcases List.mem_append.mp hmem with hmem | hmem
    · exact h.taken snapshot hmem
    · rw [List.mem_singleton.mp hmem]
      have hbetween :
          s.Between cfg capacity ttl stats.currentEntries stats.currentBytes := by
        rw [object] at hobject
        rcases Nat.lt_trichotomy ref s.retired.length with hlt | heq | hgt
        · rw [List.getElem?_append_left hlt] at hobject
          exact h.retired stats (List.mem_of_getElem? hobject)
        · rw [heq, List.getElem?_concat_length, Option.some.injEq] at hobject
          rw [← hobject]
          exact h.between_of_settled (hcalm heq)
        · rw [List.getElem?_eq_none (by simp; omega)] at hobject
          cases hobject
      exact ⟨hbetween, hbetween.le_capacity h.sizes⟩

/-- A calm step keeps the invariant. -/
theorem Inv.step (h : s.Inv cfg capacity ttl) {tick : Tick κ} (hcalm : s.Calm tick)
    (hsize : ∀ op, tick = .start op → op.SizeNonneg) (hstep : s.step cfg tick = some s') :
    s'.Inv cfg capacity ttl := by
  cases tick with
  | start op =>
      rw [Shared.step] at hstep
      split at hstep
      · rename_i htodo
        cases hstep
        exact h.start (hsize op rfl) htodo
      · cases hstep
  | act =>
      rw [Shared.step] at hstep
      split at hstep
      · cases hstep
      · rename_i a rest htodo
        cases hstep
        exact h.act htodo
  | load reader =>
      cases hstep
      exact ⟨h.sizes, h.position, h.retired, h.taken⟩
  | snapshot reader =>
      rw [Shared.step] at hstep
      split at hstep
      · cases hstep
      · rename_i ref hheld
        obtain ⟨stats, hobject, rfl⟩ := Option.map_eq_some_iff.mp hstep
        exact h.snapshot hobject (fun href => hcalm (href ▸ hheld))

/-- So does a calm run. -/
theorem Inv.run : ∀ {ticks : List (Tick κ)} {s s' : Shared κ}, s.Inv cfg capacity ttl →
    CalmRun cfg s ticks → (∀ op, .start op ∈ ticks → op.SizeNonneg) →
    s.run cfg ticks = some s' → s'.Inv cfg capacity ttl
  | [], s, s', h, _, _, hrun => by
      cases hrun
      exact h
  | tick :: ticks, s, s', h, hcalm, hsizes, hrun => by
      rw [Shared.run] at hrun
      split at hrun
      · cases hrun
      · rename_i next hstep
        have hnext := h.step hcalm.1 (fun op hop => hsizes op (hop ▸ List.mem_cons_self)) hstep
        exact hnext.run (hcalm.2 next hstep)
          (fun op hop => hsizes op (List.mem_cons_of_mem _ hop)) hrun

/-- **Snapshots are consistent** in every state of a run in which no snapshot of the
statistics in use falls between two of the calls by which an operation changes the
entries and bytes. -/
theorem snapshots_consistent (cfg : CacheConfig) (capacity : ℕ) (ttl : ℚ)
    {ticks : List (Tick κ)} (hsizes : ∀ op, .start op ∈ ticks → op.SizeNonneg)
    (hcalm : CalmRun cfg (Shared.create capacity ttl) ticks) {s : Shared κ}
    (hrun : (Shared.create capacity ttl).run cfg ticks = some s) :
    s.Consistent cfg capacity ttl :=
  (Inv.create.run hcalm hsizes hrun).taken

theorem CalmRun.cons {tick : Tick κ} {ticks : List (Tick κ)} (hcalm : s.Calm tick)
    (hstep : s.step cfg tick = some s') (hrest : CalmRun cfg s' ticks) :
    CalmRun cfg s (tick :: ticks) := by
  refine ⟨hcalm, fun next hnext => ?_⟩
  rw [hstep, Option.some.injEq] at hnext
  exact hnext ▸ hrest

/-- Two puts into a cache for one entry, as far as the second entry is stored. -/
def twoPuts : List (Tick Char) :=
  [.start (.put 'a' ⟨[], some 3, none⟩ 0), .act, .act,
    .start (.put 'b' ⟨[], some 5, none⟩ 1), .act, .act]

/-- A snapshot after the second put has evicted the first entry. -/
theorem snapshots_consistent_after_eviction :
    ∃ s, (Shared.create 1 300).run ⟨true, 10⟩
        (twoPuts ++ [.act, .act, .load 0, .snapshot 0]) = some s ∧
      s.taken.map Snapshot.currentEntries = [1] ∧ s.Consistent ⟨true, 10⟩ 1 300 := by
  have hsizes : ∀ op, .start op ∈ twoPuts ++ [.act, .act, .load 0, .snapshot 0] →
      op.SizeNonneg := by
    intro op hop
    simp only [twoPuts, List.cons_append, List.nil_append, List.mem_cons, List.not_mem_nil,
      Tick.start.injEq, reduceCtorEq, or_false, false_or] at hop
    rcases hop with rfl | rfl
    · exact (by decide : (0 : ℤ) ≤ 3)
    · exact (by decide : (0 : ℤ) ≤ 5)
  have hcalm : CalmRun ⟨true, 10⟩ (Shared.create 1 300)
      (twoPuts ++ [.act, .act, .load 0, .snapshot 0]) := by
    refine CalmRun.cons trivial rfl (CalmRun.cons trivial rfl (CalmRun.cons trivial rfl ?_))
    refine CalmRun.cons trivial rfl (CalmRun.cons trivial rfl (CalmRun.cons trivial rfl ?_))
    refine CalmRun.cons trivial rfl (CalmRun.cons trivial rfl (CalmRun.cons trivial rfl ?_))
    exact CalmRun.cons (fun _ => Or.inr fun a ha => absurd ha List.not_mem_nil) rfl trivial
  exact ⟨_, rfl, rfl, snapshots_consistent ⟨true, 10⟩ 1 300 hsizes hcalm rfl⟩

/-- A snapshot shows two entries in a cache for one: it is taken after the second
entry is stored and before the first one is evicted. -/
theorem snapshot_shows_two_entries :
    ∃ s, (Shared.create 1 300).run ⟨true, 10⟩ (twoPuts ++ [.load 0, .snapshot 0]) = some s ∧
      s.taken.map Snapshot.currentEntries = [2] ∧ ¬ s.Consistent ⟨true, 10⟩ 1 300 := by
  refine ⟨_, rfl, rfl, fun h => ?_⟩
  have hle := (h _ List.mem_cons_self).2
  exact absurd hle (by decide)

end Shared
end Cache
end NetworkProxy
