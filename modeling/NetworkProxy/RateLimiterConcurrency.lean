import NetworkProxy.RateLimiterPruning

/-!
# The rate limiter under concurrency

`is_allowed` as the steps its locks make atomic: the registry lookup under the
registry lock, `consume` under the bucket lock, the unlocked test of
`_maybe_prune`, and the prune body under the registry lock.  Buckets live on a
heap, so that a thread can hold a reference to a bucket which is no longer
registered.  A schedule is a list of ticks, each naming the thread that moves
and the clock reading of its step.

* `overshoot`: three threads admit two calls at one instant for a bucket of one
  token, because a bucket is pruned while a thread still holds it.
* `rate_bound_of_safeRun`: the bound holds on every schedule that never prunes a
  bucket held by a thread.
* `Shared.Shows.calls`: calls that nobody interrupts are those of the sequential
  limiter.
-/

namespace NetworkProxy
namespace RateLimit

open Py TokenLaw

/-- Where a thread stands in its call of `is_allowed`. -/
inductive Phase
  /-- Between two calls. -/
  | idle
  /-- The bucket is looked up, `consume` is next. -/
  | holding (ip : Text) (ref : ℕ)
  /-- `consume` has returned, the prune test is next. -/
  | consumed
  /-- The prune test at time `now` was positive, the prune body is next. -/
  | pruning (now : ℚ)
deriving DecidableEq

/-- One limiter shared by any number of threads. -/
structure Shared where
  capacity : ℚ
  refillRate : ℚ
  /-- `_buckets`: references into the heap. -/
  buckets : OrderedDict Text ℕ
  heap : ℕ → TokenBucket
  /-- The next unused reference. -/
  fresh : ℕ
  lastPrune : ℚ
  threads : ℕ → Phase
  /-- The `consume` steps that returned `True`, newest first. -/
  grants : List (Text × ℚ)

/-- One atomic step: the thread that moves and the clock reading.  An idle thread
starts a call for `ip`. -/
structure Tick where
  thread : ℕ
  now : ℚ
  ip : Text

namespace Shared

/-- A limiter created at `now`, all threads idle. -/
def create (capacity refillRate now : ℚ) : Shared where
  capacity := capacity
  refillRate := refillRate
  buckets := OrderedDict.empty
  heap := fun _ => TokenBucket.create capacity refillRate now
  fresh := 0
  lastPrune := now
  threads := fun _ => .idle
  grants := []

def setPhase (s : Shared) (thread : ℕ) (p : Phase) : Shared :=
  { s with threads := Function.update s.threads thread p }

/-- `_get_or_create_bucket`, under the registry lock. -/
def lookup (s : Shared) (thread : ℕ) (ip : Text) (now : ℚ) : Shared :=
  match s.buckets.get? ip with
  | some ref => s.setPhase thread (.holding ip ref)
  | none =>
      { s with
        buckets := s.buckets.set ip s.fresh
        heap := Function.update s.heap s.fresh
          (TokenBucket.create s.capacity s.refillRate now)
        fresh := s.fresh + 1
        threads := Function.update s.threads thread (.holding ip s.fresh) }

/-- `bucket.consume()`, under the lock of the bucket. -/
def consume (s : Shared) (thread : ℕ) (ip : Text) (ref : ℕ) (now : ℚ) : Shared :=
  { s with
    heap := Function.update s.heap ref ((s.heap ref).consume now).2
    threads := Function.update s.threads thread .consumed
    grants := if ((s.heap ref).consume now).1 then (ip, now) :: s.grants else s.grants }

/-- The unlocked test of `_maybe_prune`. -/
def pruneTest (s : Shared) (thread : ℕ) (now : ℚ) : Shared :=
  if now - s.lastPrune < 60 then s.setPhase thread .idle
  else s.setPhase thread (.pruning now)

/-- A registered bucket that the prune body with reading `now` finds stale. -/
def Stale (s : Shared) (now : ℚ) (ref : ℕ) : Prop :=
  staleThreshold < now - (s.heap ref).lastRefill

instance (s : Shared) (now : ℚ) (ref : ℕ) : Decidable (s.Stale now ref) := by
  unfold Stale
  infer_instance

/-- The prune body, under the registry lock; it uses the reading of the test. -/
def pruneBody (s : Shared) (thread : ℕ) (now : ℚ) : Shared :=
  { s with
    lastPrune := now
    buckets := ((s.buckets.items.filter (fun p => s.Stale now p.2)).map Prod.fst).foldl
      OrderedDict.erase s.buckets
    threads := Function.update s.threads thread .idle }

/-- The next atomic step of a thread. -/
def step (s : Shared) (a : Tick) : Shared :=
  match s.threads a.thread with
  | .idle => s.lookup a.thread a.ip a.now
  | .holding ip ref => s.consume a.thread ip ref a.now
  | .consumed => s.pruneTest a.thread a.now
  | .pruning now => s.pruneBody a.thread now

/-- The state after a schedule. -/
def run (s : Shared) (schedule : List Tick) : Shared := schedule.foldl step s

/-- Times at which calls for `ip` were admitted. -/
def grantsOf (s : Shared) (ip : Text) : List ℚ :=
  (s.grants.filter (fun g => g.1 = ip)).map Prod.snd

/-- Tokens a call for `ip` at time `u` finds in the registered bucket. -/
def credit (s : Shared) (ip : Text) (u : ℚ) : ℚ :=
  match s.buckets.get? ip with
  | some ref => (s.heap ref).credit u
  | none => s.capacity

/-- The prune body about to run, if any, spares every bucket held by a thread. -/
def SparesHeld (s : Shared) (a : Tick) : Prop :=
  ∀ now, s.threads a.thread = .pruning now →
    ∀ thread ip ref, s.threads thread = .holding ip ref → ¬ s.Stale now ref

/-- Every step of the schedule spares the held buckets. -/
def SafeRun : Shared → List Tick → Prop
  | _, [] => True
  | s, a :: schedule => s.SparesHeld a ∧ SafeRun (s.step a) schedule

end Shared

/-- The clock readings of a schedule do not decrease. -/
def Clocked (now : ℚ) (schedule : List Tick) : Prop :=
  (now :: schedule.map Tick.now).IsChain (· ≤ ·)

theorem clocked_cons {now : ℚ} {a : Tick} {schedule : List Tick} :
    Clocked now (a :: schedule) ↔ now ≤ a.now ∧ Clocked a.now schedule := by
  simp [Clocked]

/-- What every state of a safe schedule satisfies at clock reading `now`: the
registry and the held references agree, and every client's credit accounts for
its grants. -/
structure Shared.Inv (s : Shared) (now : ℚ) : Prop where
  capacity_nonneg : 0 ≤ s.capacity
  threshold : s.capacity ≤ 600 * s.refillRate
  registered : ∀ ip ref, s.buckets.get? ip = some ref →
    ref < s.fresh ∧ (s.heap ref).capacity = s.capacity ∧
      (s.heap ref).refillRate = s.refillRate ∧ (s.heap ref).WithinCapacity ∧
      (s.heap ref).lastRefill ≤ now
  injective : ∀ ip ip' ref, s.buckets.get? ip = some ref →
    s.buckets.get? ip' = some ref → ip = ip'
  held : ∀ thread ip ref, s.threads thread = .holding ip ref →
    s.buckets.get? ip = some ref
  pruning_le : ∀ thread t, s.threads thread = .pruning t → t ≤ now
  grants_le : ∀ ip g, g ∈ s.grantsOf ip → g ≤ now
  within : ∀ ip, WithinRate s.capacity s.refillRate (s.grantsOf ip)
  backed : ∀ ip, Backed s.capacity s.refillRate now (s.credit ip) (s.grantsOf ip)

namespace Shared

theorem Inv.rate_nonneg {s : Shared} {now : ℚ} (h : s.Inv now) : 0 ≤ s.refillRate := by
  have := h.capacity_nonneg
  have := h.threshold
  linarith

theorem Inv.create {capacity refillRate : ℚ} (now : ℚ) (hcap : 0 ≤ capacity)
    (hthr : capacity ≤ 600 * refillRate) :
    (Shared.create capacity refillRate now).Inv now := by
  have hrate : 0 ≤ refillRate := by linarith
  exact
    { capacity_nonneg := hcap
      threshold := hthr
      registered := by simp [Shared.create]
      injective := by simp [Shared.create]
      held := by simp [Shared.create]
      pruning_le := by simp [Shared.create]
      grants_le := by simp [Shared.create, grantsOf]
      within := fun ip => withinRate_nil hcap hrate
      backed := fun ip => backed_nil hrate (fun u _ => le_rfl) }

/-- Time passes. -/
theorem Inv.later {s : Shared} {now now' : ℚ} (h : s.Inv now) (hle : now ≤ now') :
    s.Inv now' :=
  { h with
    registered := fun ip ref hr =>
      let ⟨h1, h2, h3, h4, h5⟩ := h.registered ip ref hr
      ⟨h1, h2, h3, h4, h5.trans hle⟩
    pruning_le := fun thread t ht => (h.pruning_le thread t ht).trans hle
    grants_le := fun ip g hg => (h.grants_le ip g hg).trans hle
    backed := fun ip => (h.backed ip).later hle }

/-- A thread that lets go of its bucket, or reads the clock, changes nothing else. -/
theorem Inv.setPhase {s : Shared} {now : ℚ} (h : s.Inv now) (thread : ℕ) {p : Phase}
    (hhold : ∀ ip ref, p = .holding ip ref → s.buckets.get? ip = some ref)
    (hprune : ∀ t, p = .pruning t → t ≤ now) :
    (s.setPhase thread p).Inv now :=
  { h with
    held := by
      intro thread' ip ref ht
      simp only [Shared.setPhase, Function.update_apply] at ht
      split at ht
      · exact hhold ip ref ht
      · exact h.held thread' ip ref ht
    pruning_le := by
      intro thread' t ht
      simp only [Shared.setPhase, Function.update_apply] at ht
      split at ht
      · exact hprune t ht
      · exact h.pruning_le thread' t ht }

theorem credit_of_some {s : Shared} {ip : Text} {ref : ℕ}
    (h : s.buckets.get? ip = some ref) (u : ℚ) : s.credit ip u = (s.heap ref).credit u := by
  rw [credit, h]

theorem credit_of_none {s : Shared} {ip : Text}
    (h : s.buckets.get? ip = none) (u : ℚ) : s.credit ip u = s.capacity := by
  rw [credit, h]

theorem lookup_of_none {s : Shared} {ip : Text} (hget : s.buckets.get? ip = none)
    (thread : ℕ) (now : ℚ) :
    s.lookup thread ip now =
      { s with
        buckets := s.buckets.set ip s.fresh
        heap := Function.update s.heap s.fresh
          (TokenBucket.create s.capacity s.refillRate now)
        fresh := s.fresh + 1
        threads := Function.update s.threads thread (.holding ip s.fresh) } := by
  rw [Shared.lookup, hget]

theorem Inv.ref_ne_fresh {s : Shared} {now : ℚ} (h : s.Inv now) {ip : Text} {ref : ℕ}
    (hr : s.buckets.get? ip = some ref) : ref ≠ s.fresh :=
  (h.registered ip ref hr).1.ne

/-- A new bucket is full, as if it had been there before. -/
theorem Inv.credit_lookup_fresh {s : Shared} {now : ℚ} (h : s.Inv now) (thread : ℕ) {ip : Text}
    (hget : s.buckets.get? ip = none) (ip' : Text) {u : ℚ} (hu : now ≤ u) :
    (s.lookup thread ip now).credit ip' u = s.credit ip' u := by
  have hs' := lookup_of_none hget thread now
  rcases eq_or_ne ip ip' with rfl | hne
  · have hnew : (s.lookup thread ip now).buckets.get? ip = some s.fresh := by
      rw [hs']
      simp
    rw [credit_of_some hnew, credit_of_none hget, hs']
    simp only [Function.update_self]
    exact TokenBucket.credit_create h.rate_nonneg hu
  · have hsame : (s.lookup thread ip now).buckets.get? ip' = s.buckets.get? ip' := by
      rw [hs']
      simp [OrderedDict.get?_set, hne]
    cases hget' : s.buckets.get? ip' with
    | none => rw [credit_of_none (hsame.trans hget'), credit_of_none hget', hs']
    | some ref =>
        rw [credit_of_some (hsame.trans hget'), credit_of_some hget', hs']
        simp only [Function.update_of_ne (h.ref_ne_fresh hget')]

/-- A lookup that creates a bucket puts it at a reference nobody uses. -/
theorem Inv.lookup_fresh {s : Shared} {now : ℚ} (h : s.Inv now) (thread : ℕ) {ip : Text}
    (hget : s.buckets.get? ip = none) :
    (s.lookup thread ip now).Inv now := by
  have hs' := lookup_of_none hget thread now
  have hcredit : ∀ ip' u, now ≤ u → (s.lookup thread ip now).credit ip' u = s.credit ip' u :=
    fun ip' _ hu => h.credit_lookup_fresh thread hget ip' hu
  rw [hs'] at hcredit ⊢
  exact
    { capacity_nonneg := h.capacity_nonneg
      threshold := h.threshold
      registered := by
        intro ip' ref hr
        simp only [OrderedDict.get?_set] at hr
        split at hr
        · simp only [Option.some.injEq] at hr
          subst hr
          simp only [Function.update_self]
          exact ⟨Nat.lt_succ_self _, rfl, rfl,
            TokenBucket.WithinCapacity.create h.capacity_nonneg _ _, le_rfl⟩
        · simp only [Function.update_of_ne (h.ref_ne_fresh hr)]
          obtain ⟨h1, h2⟩ := h.registered ip' ref hr
          exact ⟨h1.trans (Nat.lt_succ_self _), h2⟩
      injective := by
        intro ip₁ ip₂ ref h₁ h₂
        simp only [OrderedDict.get?_set] at h₁ h₂
        split at h₁ <;> split at h₂
        · rename_i he₁ he₂
          exact he₁.symm.trans he₂
        · simp only [Option.some.injEq] at h₁
          exact absurd h₁.symm (h.ref_ne_fresh h₂)
        · simp only [Option.some.injEq] at h₂
          exact absurd h₂.symm (h.ref_ne_fresh h₁)
        · exact h.injective ip₁ ip₂ ref h₁ h₂
      held := by
        intro thread' ip' ref ht
        simp only [Function.update_apply] at ht
        split at ht
        · simp only [Phase.holding.injEq] at ht
          obtain ⟨rfl, rfl⟩ := ht
          simp
        · have hr := h.held thread' ip' ref ht
          have hne : ip ≠ ip' := by
            rintro rfl
            rw [hget] at hr
            cases hr
          simp only [OrderedDict.get?_set, hne, if_false, hr]
      pruning_le := by
        intro thread' t ht
        simp only [Function.update_apply] at ht
        split at ht
        · cases ht
        · exact h.pruning_le thread' t ht
      grants_le := h.grants_le
      within := h.within
      backed := fun ip' => (h.backed ip').congr (hcredit ip') }

theorem Inv.lookup {s : Shared} {now : ℚ} (h : s.Inv now) (thread : ℕ) (ip : Text) :
    (s.lookup thread ip now).Inv now := by
  cases hget : s.buckets.get? ip with
  | none => exact h.lookup_fresh thread hget
  | some ref =>
      rw [Shared.lookup, hget]
      refine h.setPhase thread ?_ ?_
      · intro ip' ref' he
        simp only [Phase.holding.injEq] at he
        obtain ⟨rfl, rfl⟩ := he
        exact hget
      · intro t he
        cases he

theorem grantsOf_consume (s : Shared) (thread : ℕ) (ip ip' : Text) (ref : ℕ) (now : ℚ) :
    (s.consume thread ip ref now).grantsOf ip' =
      if ip = ip' ∧ ((s.heap ref).consume now).1 = true then now :: s.grantsOf ip'
      else s.grantsOf ip' := by
  unfold grantsOf consume
  dsimp only
  split
  · rename_i hone
    rcases eq_or_ne ip ip' with rfl | hne
    · simp [hone]
    · simp [hne]
  · rename_i hone
    simp [hone]

/-- Consuming spends a token of the client whose bucket is held. -/
theorem Inv.credit_consume {s : Shared} {now : ℚ} (h : s.Inv now) (thread : ℕ)
    {ip : Text} {ref : ℕ} (href : s.buckets.get? ip = some ref) (ip' : Text) (u : ℚ) :
    (s.consume thread ip ref now).credit ip' u =
      if ip = ip' then
        refill s.capacity s.refillRate (spend (s.credit ip now)) (u - now)
      else s.credit ip' u := by
  obtain ⟨-, hc, hr, -, -⟩ := h.registered ip ref href
  rcases eq_or_ne ip ip' with rfl | hne
  · have href' : (s.consume thread ip ref now).buckets.get? ip = some ref := href
    rw [if_pos rfl, credit_of_some href', credit_of_some href]
    simp only [Shared.consume, Function.update_self]
    rw [TokenBucket.credit_consume, hc, hr]
  · rw [if_neg hne]
    cases hget : s.buckets.get? ip' with
    | none => rw [credit_of_none (s := s.consume thread ip ref now) hget,
        credit_of_none hget]; rfl
    | some ref' =>
        have hne' : ref' ≠ ref := by
          rintro rfl
          exact hne (h.injective ip ip' ref' href hget)
        rw [credit_of_some (s := s.consume thread ip ref now) hget, credit_of_some hget]
        simp only [Shared.consume, Function.update_of_ne hne']

theorem Inv.consume {s : Shared} {now : ℚ} (h : s.Inv now) (thread : ℕ)
    {ip : Text} {ref : ℕ} (ht : s.threads thread = .holding ip ref) :
    (s.consume thread ip ref now).Inv now := by
  have href := h.held thread ip ref ht
  obtain ⟨hlt, hc, hr, hw, hl⟩ := h.registered ip ref href
  have hone : ((s.heap ref).consume now).1 = true ↔ 1 ≤ s.credit ip now := by
    rw [TokenBucket.consume_fst, credit_of_some href, decide_eq_true_eq]
  have hgrants := s.grantsOf_consume thread ip
  have hcredit := h.credit_consume thread href
  exact
    { capacity_nonneg := h.capacity_nonneg
      threshold := h.threshold
      registered := by
        intro ip' ref' hr'
        obtain ⟨h1, h2, h3, h4, h5⟩ := h.registered ip' ref' hr'
        simp only [Shared.consume, Function.update_apply]
        split
        · simp only [TokenBucket.consume_capacity, TokenBucket.consume_refillRate,
            TokenBucket.consume_lastRefill]
          refine ⟨h1, hc, hr, hw.consume ?_ hl, le_rfl⟩
          rw [hr]
          exact h.rate_nonneg
        · exact ⟨h1, h2, h3, h4, h5⟩
      injective := h.injective
      held := by
        intro thread' ip' ref' ht'
        simp only [Shared.consume, Function.update_apply] at ht'
        split at ht'
        · cases ht'
        · exact h.held thread' ip' ref' ht'
      pruning_le := by
        intro thread' t ht'
        simp only [Shared.consume, Function.update_apply] at ht'
        split at ht'
        · cases ht'
        · exact h.pruning_le thread' t ht'
      grants_le := by
        intro ip' g hg
        rw [hgrants] at hg
        split at hg
        · rcases List.mem_cons.mp hg with rfl | hg
          · exact le_rfl
          · exact h.grants_le ip' g hg
        · exact h.grants_le ip' g hg
      within := by
        intro ip'
        rw [hgrants]
        split
        · rename_i hcond
          obtain ⟨rfl, hok⟩ := hcond
          exact (h.within ip).spend (h.backed ip) h.rate_nonneg (hone.mp hok)
        · exact h.within ip'
      backed := by
        intro ip'
        rw [hgrants]
        rcases eq_or_ne ip ip' with rfl | hne
        · have hpast := h.grants_le ip
          rcases lt_or_ge (s.credit ip now) 1 with hlow | hhigh
          · rw [if_neg (by simp [hone, hlow])]
            refine ((h.backed ip).refuse h.rate_nonneg hpast).congr fun u _ => ?_
            rw [hcredit, if_pos rfl, spend, if_neg (not_le.mpr hlow)]
          · rw [if_pos ⟨rfl, hone.mpr hhigh⟩]
            refine ((h.backed ip).spend h.rate_nonneg hpast).congr fun u _ => ?_
            rw [hcredit, if_pos rfl, spend, if_pos hhigh]
        · rw [if_neg (fun hcond => hne hcond.1)]
          refine (h.backed ip').congr fun u _ => ?_
          rw [hcredit, if_neg hne] }

theorem get?_pruneBody (s : Shared) (thread : ℕ) (t : ℚ) (ip : Text) :
    (s.pruneBody thread t).buckets.get? ip =
      (s.buckets.get? ip).filter (fun ref => !decide (s.Stale t ref)) :=
  s.buckets.get?_foldl_erase_filter (fun p => decide (s.Stale t p.2)) ip

theorem get?_of_get?_pruneBody {s : Shared} {thread : ℕ} {t : ℚ} {ip : Text} {ref : ℕ}
    (h : (s.pruneBody thread t).buckets.get? ip = some ref) :
    s.buckets.get? ip = some ref := by
  rw [get?_pruneBody, Option.filter_eq_some_iff] at h
  exact h.1

/-- A stale bucket is full again, so pruning it leaves the credit as it is. -/
theorem Inv.credit_pruneBody {s : Shared} {now : ℚ} (h : s.Inv now) (thread : ℕ)
    {t : ℚ} (ht : t ≤ now) (ip : Text) {u : ℚ} (hu : now ≤ u) :
    (s.pruneBody thread t).credit ip u = s.credit ip u := by
  have hget := s.get?_pruneBody thread t ip
  cases hb : s.buckets.get? ip with
  | none =>
      rw [hb] at hget
      rw [credit_of_none hget, credit_of_none hb]
      rfl
  | some ref =>
      rw [hb] at hget
      rcases em (s.Stale t ref) with hstale | hfresh
      · simp only [Option.filter, hstale, decide_true, Bool.not_true, Bool.false_eq_true,
          if_false] at hget
        obtain ⟨-, hc, hr, hw, -⟩ := h.registered ip ref hb
        have hcap : (s.pruneBody thread t).capacity = s.capacity := rfl
        rw [credit_of_none hget, credit_of_some hb, TokenBucket.credit, refill, hc, hr, hcap]
        have hlong : 600 * s.refillRate ≤ (u - (s.heap ref).lastRefill) * s.refillRate := by
          refine mul_le_mul_of_nonneg_right ?_ h.rate_nonneg
          unfold Stale staleThreshold at hstale
          linarith
        exact (min_eq_left (by linarith [hw.1, h.threshold])).symm
      · simp only [Option.filter, hfresh, decide_false, Bool.not_false, if_true] at hget
        rw [credit_of_some hget, credit_of_some hb]
        rfl

theorem Inv.pruneBody {s : Shared} {now : ℚ} (h : s.Inv now) (thread : ℕ) {t : ℚ}
    (ht : t ≤ now)
    (hspare : ∀ thread' ip ref, s.threads thread' = .holding ip ref → ¬ s.Stale t ref) :
    (s.pruneBody thread t).Inv now :=
  { capacity_nonneg := h.capacity_nonneg
    threshold := h.threshold
    registered := fun ip ref hr => h.registered ip ref (get?_of_get?_pruneBody hr)
    injective := fun ip ip' ref hr hr' =>
      h.injective ip ip' ref (get?_of_get?_pruneBody hr) (get?_of_get?_pruneBody hr')
    held := by
      intro thread' ip ref ht'
      simp only [Shared.pruneBody, Function.update_apply] at ht'
      split at ht'
      · cases ht'
      · have hfresh := hspare thread' ip ref ht'
        rw [get?_pruneBody, h.held thread' ip ref ht']
        simp only [Option.filter, hfresh, decide_false, Bool.not_false, if_true]
    pruning_le := by
      intro thread' t' ht'
      simp only [Shared.pruneBody, Function.update_apply] at ht'
      split at ht'
      · cases ht'
      · exact h.pruning_le thread' t' ht'
    grants_le := h.grants_le
    within := h.within
    backed := fun ip =>
      (h.backed ip).congr (fun _ hu => h.credit_pruneBody thread ht ip hu) }

theorem Inv.pruneTest {s : Shared} {now : ℚ} (h : s.Inv now) (thread : ℕ) :
    (s.pruneTest thread now).Inv now := by
  unfold Shared.pruneTest
  split
  · exact h.setPhase thread (by simp) (by simp)
  · refine h.setPhase thread (by simp) ?_
    intro t he
    simp only [Phase.pruning.injEq] at he
    exact he.symm.le

/-- Every atomic step that spares the held buckets keeps the invariant. -/
theorem Inv.step {s : Shared} {now : ℚ} (h : s.Inv now) {a : Tick} (hnow : now ≤ a.now)
    (hspare : s.SparesHeld a) : (s.step a).Inv a.now := by
  have h' := h.later hnow
  unfold Shared.step
  cases hp : s.threads a.thread with
  | idle => exact h'.lookup a.thread a.ip
  | holding ip ref => exact h'.consume a.thread hp
  | consumed => exact h'.pruneTest a.thread
  | pruning t => exact h'.pruneBody a.thread (h'.pruning_le a.thread t hp) (hspare t hp)

/-- A safe schedule keeps the invariant to its end. -/
theorem Inv.run {schedule : List Tick} :
    ∀ {s : Shared} {now : ℚ}, s.Inv now → Clocked now schedule → s.SafeRun schedule →
      ∃ now', (s.run schedule).Inv now' := by
  induction schedule with
  | nil =>
      intro s now h _ _
      exact ⟨now, h⟩
  | cons a schedule ih =>
      intro s now h hclock hsafe
      rw [clocked_cons] at hclock
      exact ih (h.step hclock.1 hsafe.1) hclock.2 hsafe.2

theorem lookup_params (s : Shared) (thread : ℕ) (ip : Text) (now : ℚ) :
    (s.lookup thread ip now).capacity = s.capacity ∧
      (s.lookup thread ip now).refillRate = s.refillRate := by
  unfold Shared.lookup
  cases s.buckets.get? ip with
  | none => exact ⟨rfl, rfl⟩
  | some ref => exact ⟨rfl, rfl⟩

theorem pruneTest_params (s : Shared) (thread : ℕ) (now : ℚ) :
    (s.pruneTest thread now).capacity = s.capacity ∧
      (s.pruneTest thread now).refillRate = s.refillRate := by
  unfold Shared.pruneTest
  split
  · exact ⟨rfl, rfl⟩
  · exact ⟨rfl, rfl⟩

theorem step_params (s : Shared) (a : Tick) :
    (s.step a).capacity = s.capacity ∧ (s.step a).refillRate = s.refillRate := by
  unfold Shared.step
  cases s.threads a.thread with
  | idle => exact s.lookup_params a.thread a.ip a.now
  | holding ip ref => exact ⟨rfl, rfl⟩
  | consumed => exact s.pruneTest_params a.thread a.now
  | pruning t => exact ⟨rfl, rfl⟩

theorem run_params (s : Shared) (schedule : List Tick) :
    (s.run schedule).capacity = s.capacity ∧
      (s.run schedule).refillRate = s.refillRate := by
  induction schedule generalizing s with
  | nil => exact ⟨rfl, rfl⟩
  | cons a schedule ih =>
      obtain ⟨hcap, hrate⟩ := ih (s.step a)
      obtain ⟨hcap', hrate'⟩ := s.step_params a
      exact ⟨hcap.trans hcap', hrate.trans hrate'⟩

/-! ## Calls that nobody interrupts -/

/-- The registry, seen through the heap, is that of a sequential limiter. -/
structure Shows (s : Shared) (L : RateLimiter) : Prop where
  capacity : L.capacity = s.capacity
  refillRate : L.refillRate = s.refillRate
  lastPrune : L.lastPrune = s.lastPrune
  buckets : ∀ ip, L.buckets.get? ip = (s.buckets.get? ip).map s.heap

/-- A whole call of `is_allowed` by one thread, without a step of another. -/
def call (s : Shared) (thread : ℕ) (ip : Text) (now : ℚ) : Shared :=
  let tested := s.run [⟨thread, now, ip⟩, ⟨thread, now, ip⟩, ⟨thread, now, ip⟩]
  if tested.threads thread = .idle then tested else tested.step ⟨thread, now, ip⟩

theorem Shows.create (capacity refillRate now : ℚ) :
    (Shared.create capacity refillRate now).Shows
      (RateLimiter.create capacity refillRate now) :=
  ⟨rfl, rfl, rfl, fun _ => rfl⟩

/-- The lookup finds or creates the bucket that the sequential one does. -/
theorem Shows.lookup {s : Shared} {L : RateLimiter} (hs : s.Shows L) {now : ℚ}
    (h : s.Inv now) (thread : ℕ) (ip : Text) :
    (s.lookup thread ip now).Shows (L.getOrCreateBucket ip now).2 ∧
      (s.lookup thread ip now).grants = s.grants ∧
      ∃ ref, (s.lookup thread ip now).threads thread = .holding ip ref ∧
        (s.lookup thread ip now).heap ref = (L.getOrCreateBucket ip now).1 := by
  have hfound := hs.buckets ip
  cases hget : s.buckets.get? ip with
  | some ref =>
      rw [hget, Option.map_some] at hfound
      rw [Shared.lookup, hget, RateLimiter.getOrCreateBucket, hfound]
      exact ⟨⟨hs.capacity, hs.refillRate, hs.lastPrune, hs.buckets⟩, rfl, ref,
        Function.update_self _ _ _, rfl⟩
  | none =>
      rw [hget, Option.map_none] at hfound
      rw [lookup_of_none hget, RateLimiter.getOrCreateBucket, hfound, hs.capacity,
        hs.refillRate]
      refine ⟨⟨rfl, rfl, hs.lastPrune, fun ip' => ?_⟩, rfl, s.fresh,
        Function.update_self _ _ _, Function.update_self _ _ _⟩
      dsimp only
      rw [OrderedDict.get?_set, OrderedDict.get?_set, hs.buckets ip']
      split
      · rw [Option.map_some, Function.update_self]
      · cases hget' : s.buckets.get? ip' with
        | none => rfl
        | some ref =>
            have hold : ref ≠ s.fresh := (h.registered ip' ref hget').1.ne
            rw [Option.map_some, Option.map_some, Function.update_of_ne hold]

theorem exists_holding (s : Shared) (thread : ℕ) (ip : Text) (now : ℚ) :
    ∃ ref, (s.lookup thread ip now).threads thread = .holding ip ref := by
  unfold Shared.lookup
  cases s.buckets.get? ip with
  | none => exact ⟨s.fresh, Function.update_self _ _ _⟩
  | some ref => exact ⟨ref, Function.update_self _ _ _⟩

theorem threads_lookup_of_ne (s : Shared) {thread thread' : ℕ} (hne : thread' ≠ thread)
    (ip : Text) (now : ℚ) :
    (s.lookup thread ip now).threads thread' = s.threads thread' := by
  unfold Shared.lookup
  cases s.buckets.get? ip with
  | none => exact Function.update_of_ne hne _ _
  | some ref => exact Function.update_of_ne hne _ _

theorem Shows.consume {s : Shared} {L : RateLimiter} (hs : s.Shows L) {now : ℚ}
    (h : s.Inv now) (thread : ℕ) {ip : Text} {ref : ℕ} (href : s.buckets.get? ip = some ref) :
    (s.consume thread ip ref now).Shows
      { L with buckets := L.buckets.set ip ((s.heap ref).consume now).2 } := by
  refine ⟨hs.capacity, hs.refillRate, hs.lastPrune, fun ip' => ?_⟩
  rw [Shared.consume, OrderedDict.get?_set, hs.buckets ip']
  dsimp only
  split
  · rename_i heq
    rw [← heq, href, Option.map_some, Function.update_self]
  · rename_i hne
    cases hget : s.buckets.get? ip' with
    | none => rfl
    | some ref' =>
        have hother : ref' ≠ ref := by
          rintro rfl
          exact hne (h.injective ip ip' ref' href hget)
        rw [Option.map_some, Option.map_some, Function.update_of_ne hother]

theorem Shows.pruneBody {s : Shared} {L : RateLimiter} (hs : s.Shows L) (thread : ℕ)
    (now : ℚ) : (s.pruneBody thread now).Shows (L.pruneStale now) := by
  refine ⟨hs.capacity, hs.refillRate, rfl, fun ip => ?_⟩
  rw [RateLimiter.get?_pruneStale, get?_pruneBody, hs.buckets ip, Option.filter_map]
  rfl

/-- The steps of a call alone, one after the other. -/
theorem call_of_idle {s : Shared} {thread : ℕ} {ip : Text} {ref : ℕ} {now : ℚ}
    (hidle : s.threads thread = .idle)
    (hholding : (s.lookup thread ip now).threads thread = .holding ip ref) :
    s.call thread ip now =
      let used := (s.lookup thread ip now).consume thread ip ref now
      if now - used.lastPrune < 60 then used.setPhase thread .idle
      else (used.setPhase thread (.pruning now)).pruneBody thread now := by
  have hlookup : s.step ⟨thread, now, ip⟩ = s.lookup thread ip now := by
    rw [Shared.step, hidle]
  have hconsume : (s.lookup thread ip now).step ⟨thread, now, ip⟩ =
      (s.lookup thread ip now).consume thread ip ref now := by
    rw [Shared.step, hholding]
  have hconsumed : ((s.lookup thread ip now).consume thread ip ref now).threads thread =
      .consumed := Function.update_self _ _ _
  have htest : ((s.lookup thread ip now).consume thread ip ref now).step ⟨thread, now, ip⟩ =
      ((s.lookup thread ip now).consume thread ip ref now).pruneTest thread now := by
    rw [Shared.step, hconsumed]
  rw [Shared.call, Shared.run, List.foldl_cons, List.foldl_cons, List.foldl_cons,
    List.foldl_nil, hlookup, hconsume, htest, Shared.pruneTest]
  by_cases hrecent : now - ((s.lookup thread ip now).consume thread ip ref now).lastPrune < 60
  · have hphase : (((s.lookup thread ip now).consume thread ip ref now).setPhase thread
        .idle).threads thread = .idle := Function.update_self _ _ _
    rw [if_pos hrecent, if_pos hrecent, if_pos hphase]
  · have hphase : (((s.lookup thread ip now).consume thread ip ref now).setPhase thread
        (.pruning now)).threads thread = .pruning now := Function.update_self _ _ _
    rw [if_neg hrecent, if_neg hrecent, if_neg (by rw [hphase]; exact nofun), Shared.step,
      hphase]

/-- A call alone is a sequential call.  It leaves the registry of the sequential
limiter and is admitted exactly when that limiter says so. -/
theorem Shows.call {s : Shared} {L : RateLimiter} (hs : s.Shows L) {now : ℚ}
    (h : s.Inv now) {thread : ℕ} (hidle : s.threads thread = .idle) (ip : Text) :
    (s.call thread ip now).Shows (allowed L ip now).2 ∧
      (s.call thread ip now).grants =
        if (allowed L ip now).1 then (ip, now) :: s.grants else s.grants := by
  obtain ⟨hfound, hgrants, ref, hholding, hbucket⟩ := hs.lookup h thread ip
  have hinv := h.lookup thread ip
  have hserved : ((s.lookup thread ip now).consume thread ip ref now).Shows
      (L.serve ip now).2 := by
    have hused := hfound.consume hinv thread (hinv.held thread ip ref hholding)
    rw [hbucket] at hused
    exact hused
  have hadmitted : ((s.lookup thread ip now).consume thread ip ref now).grants =
      if (allowed L ip now).1 then (ip, now) :: s.grants else s.grants := by
    rw [Shared.consume, hbucket, hgrants]
    rfl
  have hsame : ∀ p, (((s.lookup thread ip now).consume thread ip ref now).setPhase thread
      p).Shows (L.serve ip now).2 := fun p =>
    ⟨hserved.capacity, hserved.refillRate, hserved.lastPrune, hserved.buckets⟩
  rw [call_of_idle hidle hholding, allowed_snd, RateLimiter.maybePrune, hserved.lastPrune]
  dsimp only
  split
  · exact ⟨hsame .idle, hadmitted⟩
  · exact ⟨(hsame (.pruning now)).pruneBody thread now, hadmitted⟩

/-- Nobody is inside a call. -/
def Idle (s : Shared) : Prop := ∀ thread, s.threads thread = .idle

/-- A call alone has nobody whose bucket it could prune. -/
theorem Inv.call {s : Shared} {now : ℚ} (h : s.Inv now) (hidle : s.Idle) (thread : ℕ)
    (ip : Text) : (s.call thread ip now).Inv now ∧ (s.call thread ip now).Idle := by
  obtain ⟨ref, hholding⟩ := s.exists_holding thread ip now
  have hinv := (h.lookup thread ip).consume thread hholding
  have hothers : ∀ p thread', (((s.lookup thread ip now).consume thread ip ref now).setPhase
      thread p).threads thread' = if thread' = thread then p else .idle := by
    intro p thread'
    rw [Shared.setPhase, Shared.consume]
    simp only [Function.update_apply]
    split
    · rfl
    · rename_i hne
      rw [s.threads_lookup_of_ne hne ip now, hidle thread']
  rw [call_of_idle (hidle thread) hholding]
  dsimp only
  split
  · refine ⟨hinv.setPhase thread (by simp) (by simp), fun thread' => ?_⟩
    rw [hothers]
    split
    · rfl
    · rfl
  · refine ⟨(hinv.setPhase thread (by simp) ?_).pruneBody thread le_rfl ?_, fun thread' => ?_⟩
    · intro t he
      simp only [Phase.pruning.injEq] at he
      exact he.symm.le
    · intro thread' ip' ref' hhold
      rw [hothers] at hhold
      split at hhold
      · cases hhold
      · cases hhold
    · rw [Shared.pruneBody]
      simp only [Function.update_apply, hothers]
      split
      · rfl
      · rfl

/-- Calls one after the other, by one thread. -/
def calls (s : Shared) (thread : ℕ) (cs : List Call) : Shared :=
  cs.foldl (fun s c => s.call thread c.1 c.2) s

/-- Calls one after the other are sequential.  What they admit is what the
sequential limiter decides. -/
theorem Shows.calls {thread : ℕ} {cs : List Call} :
    ∀ {s : Shared} {L : RateLimiter} {now : ℚ}, s.Shows L → s.Inv now → s.Idle →
      Ordered now cs →
      (s.calls thread cs).Shows (limiterAfter allowed L cs) ∧
        (s.calls thread cs).grants =
          (((cs.zip (decisions allowed L cs)).filter (fun p => p.2)).map
            Prod.fst).reverse ++ s.grants := by
  induction cs with
  | nil =>
      intro s L now hs _ _ _
      exact ⟨hs, rfl⟩
  | cons c cs ih =>
      intro s L now hs h hidle hord
      rw [ordered_cons] at hord
      have hnow := h.later hord.1
      obtain ⟨hshows, hgrants⟩ := hs.call hnow (hidle thread) c.1
      obtain ⟨hinv, hidle'⟩ := hnow.call hidle thread c.1
      obtain ⟨hafter, hall⟩ := ih hshows hinv hidle' hord.2
      refine ⟨hafter, hall.trans ?_⟩
      rw [hgrants, decisions, List.zip_cons_cons]
      cases (allowed L c.1 c.2).1 with
      | true => simp
      | false => simp

/-! ## Schedules of known threads -/

/-- The prune body about to run spares what these threads hold. -/
def sparesHeldOf (threads : List ℕ) (s : Shared) (a : Tick) : Bool :=
  match s.threads a.thread with
  | .pruning now =>
      threads.all fun thread =>
        match s.threads thread with
        | .holding _ ref => decide (¬ s.Stale now ref)
        | _ => true
  | _ => true

def safeRunOf (threads : List ℕ) : Shared → List Tick → Bool
  | _, [] => true
  | s, a :: schedule => s.sparesHeldOf threads a && safeRunOf threads (s.step a) schedule

theorem threads_step_of_ne (s : Shared) {a : Tick} {thread : ℕ} (hne : thread ≠ a.thread) :
    (s.step a).threads thread = s.threads thread := by
  rw [Shared.step]
  cases s.threads a.thread with
  | idle => exact s.threads_lookup_of_ne hne a.ip a.now
  | holding ip ref => exact Function.update_of_ne hne _ _
  | consumed =>
      dsimp only
      rw [Shared.pruneTest]
      split
      · exact Function.update_of_ne hne _ _
      · exact Function.update_of_ne hne _ _
  | pruning now => exact Function.update_of_ne hne _ _

/-- An idle thread holds nothing. -/
theorem sparesHeld_iff_sparesHeldOf {threads : List ℕ} {s : Shared}
    (hidle : ∀ thread, thread ∉ threads → s.threads thread = .idle) (a : Tick) :
    s.SparesHeld a ↔ s.sparesHeldOf threads a = true := by
  rw [SparesHeld, sparesHeldOf]
  cases s.threads a.thread with
  | pruning now =>
      simp only [Phase.pruning.injEq, forall_eq', List.all_eq_true]
      refine forall_congr' fun thread => ?_
      constructor
      · intro hspared _
        cases hphase : s.threads thread with
        | holding ip ref => exact decide_eq_true (hspared ip ref hphase)
        | _ => rfl
      · intro hspared ip ref hphase
        by_cases hmem : thread ∈ threads
        · have hheld := hspared hmem
          rw [hphase] at hheld
          exact of_decide_eq_true hheld
        · rw [hidle thread hmem] at hphase
          cases hphase
  | _ => simp

/-- Whether a schedule is safe shows at its own threads. -/
theorem safeRun_iff_safeRunOf {threads : List ℕ} {s : Shared} {schedule : List Tick}
    (hidle : ∀ thread, thread ∉ threads → s.threads thread = .idle)
    (hin : ∀ a ∈ schedule, a.thread ∈ threads) :
    s.SafeRun schedule ↔ safeRunOf threads s schedule = true := by
  induction schedule generalizing s with
  | nil => exact iff_of_true trivial rfl
  | cons a schedule ih =>
      have hrest : ∀ thread, thread ∉ threads → (s.step a).threads thread = .idle := by
        intro thread hnot
        have hne : thread ≠ a.thread := by
          rintro rfl
          exact hnot (hin a List.mem_cons_self)
        rw [s.threads_step_of_ne hne, hidle thread hnot]
      rw [SafeRun, safeRunOf, Bool.and_eq_true, sparesHeld_iff_sparesHeldOf hidle a,
        ih hrest fun b hmem => hin b (List.mem_cons_of_mem a hmem)]

end Shared

/--
**The rate bound under concurrency.**  On every schedule that never prunes a
bucket while a thread holds it, at most `capacity + refillRate * (e - s)` calls
of one client are admitted in any interval `[s, e]`.
-/
theorem rate_bound_of_safeRun (capacity refillRate t₀ : ℚ)
    (hcap : 0 ≤ capacity) (hthr : capacity ≤ 600 * refillRate)
    (schedule : List Tick) (hclock : Clocked t₀ schedule)
    (hsafe : (Shared.create capacity refillRate t₀).SafeRun schedule) :
    ∀ (ip : Text) (s e : ℚ), s ≤ e →
      (grantsBetween s e
        (((Shared.create capacity refillRate t₀).run schedule).grantsOf ip) : ℚ) ≤
          capacity + refillRate * (e - s) := by
  intro ip s e hse
  obtain ⟨now, hinv⟩ := (Shared.Inv.create t₀ hcap hthr).run hclock hsafe
  have hparams := (Shared.create capacity refillRate t₀).run_params schedule
  have hbound := hinv.within ip s e hse
  rw [hparams.1, hparams.2] at hbound
  exact hbound

/-- Thread 1 looks client `b` up, and before it consumes, thread 0 serves `c` and prunes the stale
bucket of `a`. -/
def sparingSchedule : List Tick :=
  [⟨0, 0, txt "a"⟩, ⟨0, 0, txt "a"⟩, ⟨0, 0, txt "a"⟩,
    ⟨1, 601, txt "b"⟩,
    ⟨0, 601, txt "c"⟩, ⟨0, 601, txt "c"⟩, ⟨0, 601, txt "c"⟩, ⟨0, 601, txt "c"⟩,
    ⟨1, 601, txt "b"⟩, ⟨1, 601, txt "b"⟩]

/-- At the shipped 20 tokens and 2 per second, with a bucket that is pruned while another one is
held. -/
theorem rate_bound_of_safeRun_shipped :
    ((Shared.create 20 2 0).run sparingSchedule).buckets.items.map Prod.fst =
      [txt "b", txt "c"] ∧
      (grantsBetween 601 602
        (((Shared.create 20 2 0).run sparingSchedule).grantsOf (txt "b")) : ℚ) ≤
          20 + 2 * (602 - 601) := by
  have hsafe : (Shared.create 20 2 0).SafeRun sparingSchedule := by
    rw [Shared.safeRun_iff_safeRunOf (fun _ (_ : _ ∉ [0, 1]) => rfl) (by decide)]
    decide +kernel
  exact ⟨by decide +kernel, rate_bound_of_safeRun 20 2 0 (by norm_num) (by norm_num)
    sparingSchedule (by norm_num [Clocked, sparingSchedule]) hsafe (txt "b") 601 602
    (by norm_num)⟩

/-- Three threads and a bucket that went stale.  Thread 1 looks client `X` up,
thread 2 serves client `Y` and prunes, thread 3 serves `X` from a new bucket, and
thread 1 then consumes from the bucket it still holds. -/
def overshootSchedule : List Tick :=
  [⟨1, 0, txt "X"⟩, ⟨1, 0, txt "X"⟩, ⟨1, 0, txt "X"⟩,
    ⟨1, 601, txt "X"⟩,
    ⟨2, 601, txt "Y"⟩, ⟨2, 601, txt "Y"⟩, ⟨2, 601, txt "Y"⟩, ⟨2, 601, txt "Y"⟩,
    ⟨3, 601, txt "X"⟩, ⟨3, 601, txt "X"⟩,
    ⟨1, 601, txt "X"⟩]

/-- A bucket of one token admits two calls in the same instant. -/
theorem overshoot :
    ¬ ∀ (capacity refillRate t₀ : ℚ), 0 ≤ capacity → capacity ≤ 600 * refillRate →
      ∀ schedule : List Tick, Clocked t₀ schedule →
        ∀ (ip : Text) (s e : ℚ), s ≤ e →
          (grantsBetween s e
            (((Shared.create capacity refillRate t₀).run schedule).grantsOf ip) : ℚ) ≤
              capacity + refillRate * (e - s) := by
  intro hclaim
  have hbound := hclaim 1 (1 / 600) 0 (by norm_num) (by norm_num) overshootSchedule
    (by norm_num [Clocked, overshootSchedule]) (txt "X") 601 601 le_rfl
  have hgrants : grantsBetween 601 601
      (((Shared.create 1 (1 / 600) 0).run overshootSchedule).grantsOf (txt "X")) = 2 := by
    decide +kernel
  rw [hgrants] at hbound
  norm_num at hbound

end RateLimit
end NetworkProxy
