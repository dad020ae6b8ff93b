import NetworkProxy.RateLimiterPruning

/-!
# The memory of the rate limiter

Which buckets the registry holds after a sequential run.  `_maybe_prune` runs at
most once a minute and deletes what has been unused for more than 600 seconds,
so a bucket may outlive the threshold by less than one minute and by no more.

* `Remembered` relates the registry to the history: every bucket is the one that
  the last call of its IP has left, and that call came at most 600 seconds before
  the last prune;
* `Remembered.allowed` is the step, `remembered_run` the run;
* `get?_of_lastCall` is the other direction, that a recently used bucket stays.
-/

namespace NetworkProxy
namespace RateLimit

open Py TokenLaw RateLimiter

/-- The bucket of `ip` as a call at `now` leaves it. -/
def usedBucket (L : RateLimiter) (ip : Text) (now : ℚ) : TokenBucket :=
  ((L.getOrCreateBucket ip now).1.consume now).2

@[simp] theorem usedBucket_lastRefill (L : RateLimiter) (ip : Text) (now : ℚ) :
    (usedBucket L ip now).lastRefill = now :=
  TokenBucket.consume_lastRefill _ _

/-! ## One call -/

/-- `_maybe_prune`, by cases: it is too early, or the buckets that are left are recent. -/
theorem maybePrune_cases (L : RateLimiter) (now : ℚ) :
    (now - L.lastPrune < 60 ∧ L.maybePrune now = L) ∨
    ((L.maybePrune now).lastPrune = now ∧
      ∀ ip b, (L.maybePrune now).buckets.get? ip = some b →
        L.buckets.get? ip = some b ∧ now - b.lastRefill ≤ staleThreshold) := by
  unfold maybePrune
  split
  · rename_i hearly
    exact Or.inl ⟨hearly, rfl⟩
  · refine Or.inr ⟨rfl, fun ip b hb => ?_⟩
    rw [get?_pruneStale, Option.filter_eq_some_iff] at hb
    exact ⟨hb.1, by simpa using hb.2⟩

/-- The last prune is less than a minute old after every call. -/
theorem sub_lastPrune_lt (L : RateLimiter) (ip : Text) (now : ℚ) :
    now - (allowed L ip now).2.lastPrune < 60 := by
  rw [allowed_snd]
  rcases maybePrune_cases (L.serve ip now).2 now with ⟨hearly, he⟩ | ⟨hnow, -⟩
  · rwa [he]
  · rw [hnow, sub_self]
    norm_num

/-- What a call leaves in the registry: the bucket it used, and others that were there and that
the prune, if there was one, did not find stale. -/
theorem get?_allowed {L : RateLimiter} {ip ip' : Text} {now : ℚ} {b : TokenBucket}
    (h : (allowed L ip now).2.buckets.get? ip' = some b) :
    (ip = ip' ∧ b = usedBucket L ip now) ∨
      (ip ≠ ip' ∧ L.buckets.get? ip' = some b ∧
        ((allowed L ip now).2.lastPrune = L.lastPrune ∨
          (allowed L ip now).2.lastPrune - staleThreshold ≤ b.lastRefill)) := by
  rcases eq_or_ne ip ip' with rfl | hne
  · rw [get?_allowed_self, Option.some.injEq] at h
    exact Or.inl ⟨rfl, h.symm⟩
  · refine Or.inr ⟨hne, ?_⟩
    have hserve : (L.serve ip now).2.buckets.get? ip' = L.buckets.get? ip' := by
      rw [get?_serve, if_neg hne]
    rw [allowed_snd] at h ⊢
    rcases maybePrune_cases (L.serve ip now).2 now with ⟨-, he⟩ | ⟨hnow, hrecent⟩
    · rw [he, hserve] at h
      exact ⟨h, Or.inl (by rw [he, serve_lastPrune])⟩
    · obtain ⟨hb, hage⟩ := hrecent ip' b h
      rw [hserve] at hb
      refine ⟨hb, Or.inr ?_⟩
      rw [hnow]
      linarith

/-- A bucket that is not stale stays through a call of another IP. -/
theorem get?_allowed_of_recent {L : RateLimiter} {ip ip' : Text} {now : ℚ} {b : TokenBucket}
    (hne : ip ≠ ip') (hb : L.buckets.get? ip' = some b)
    (hrecent : now - b.lastRefill ≤ staleThreshold) :
    (allowed L ip now).2.buckets.get? ip' = some b := by
  have hserve : (L.serve ip now).2.buckets.get? ip' = some b := by
    rw [get?_serve, if_neg hne, hb]
  rw [allowed_snd]
  rcases get?_maybePrune (L.serve ip now).2 now ip' with he | ⟨-, b', hb', hstale⟩
  · rw [he, hserve]
  · rw [hserve, Option.some.injEq] at hb'
    subst hb'
    exact absurd hrecent (not_le.mpr hstale)

/-! ## The history of an IP -/

/-- `(ip, s)` is the last call of `ip`, and `before` are the calls made before it. -/
def LastCall (calls before : List Call) (ip : Text) (s : ℚ) : Prop :=
  ∃ after, calls = before ++ (ip, s) :: after ∧ ∀ c ∈ after, c.1 ≠ ip

theorem lastCall_concat_self (calls : List Call) (ip : Text) (s : ℚ) :
    LastCall (calls ++ [(ip, s)]) calls ip s :=
  ⟨[], rfl, nofun⟩

/-- A call of another IP changes no last call. -/
theorem lastCall_concat_of_ne {calls before : List Call} {c : Call} {ip : Text} {s : ℚ}
    (hne : c.1 ≠ ip) : LastCall (calls ++ [c]) before ip s ↔ LastCall calls before ip s := by
  constructor
  · rintro ⟨after, heq, hafter⟩
    rcases List.eq_nil_or_concat after with rfl | ⟨rest, d, rfl⟩
    · obtain ⟨-, hc⟩ := List.append_inj' heq rfl
      simp only [List.cons.injEq, and_true] at hc
      exact absurd (congrArg Prod.fst hc) hne
    · rw [List.concat_eq_append, ← List.cons_append, ← List.append_assoc] at heq
      obtain ⟨hcalls, -⟩ := List.append_inj' heq rfl
      exact ⟨rest, hcalls, fun d' hd' => hafter d' (by simp [hd'])⟩
  · rintro ⟨after, rfl, hafter⟩
    refine ⟨after ++ [c], by simp, fun d hd => ?_⟩
    rcases List.mem_append.mp hd with hd | hd
    · exact hafter d hd
    · rwa [List.mem_singleton.mp hd]

/-- The appended call is the last one of its IP. -/
theorem lastCall_concat_eq {calls before : List Call} {c : Call} {s : ℚ}
    (h : LastCall (calls ++ [c]) before c.1 s) : before = calls ∧ s = c.2 := by
  obtain ⟨after, heq, hafter⟩ := h
  rcases List.eq_nil_or_concat after with rfl | ⟨rest, d, rfl⟩
  · obtain ⟨hcalls, hc⟩ := List.append_inj' heq rfl
    simp only [List.cons.injEq, and_true] at hc
    exact ⟨hcalls.symm, (congrArg Prod.snd hc).symm⟩
  · rw [List.concat_eq_append, ← List.cons_append, ← List.append_assoc] at heq
    obtain ⟨-, hc⟩ := List.append_inj' heq rfl
    simp only [List.cons.injEq, and_true] at hc
    exact absurd (congrArg Prod.fst hc).symm (hafter d (by simp))

section Runs

variable (capacity refillRate t₀ : ℚ)

/-- The limiter after the calls of a run. -/
def limiterOf (calls : List Call) : RateLimiter :=
  limiterAfter allowed (RateLimiter.create capacity refillRate t₀) calls

theorem limiterOf_concat (calls : List Call) (c : Call) :
    limiterOf capacity refillRate t₀ (calls ++ [c]) =
      (allowed (limiterOf capacity refillRate t₀ calls) c.1 c.2).2 :=
  limiterAfter_concat _ _ _ _

/-- Every bucket is the one that the last call of its IP has left, and that call came at most
600 seconds before the last prune. -/
structure Remembered (calls : List Call) : Prop where
  lastPrune_le : (limiterOf capacity refillRate t₀ calls).lastPrune ≤ endTime t₀ calls
  bucket : ∀ ip b, (limiterOf capacity refillRate t₀ calls).buckets.get? ip = some b →
    ∃ before s, LastCall calls before ip s ∧
      b = usedBucket (limiterOf capacity refillRate t₀ before) ip s ∧
      (limiterOf capacity refillRate t₀ calls).lastPrune - staleThreshold ≤ s

variable {capacity refillRate t₀}

/-- One step. -/
theorem Remembered.allowed {calls : List Call} (h : Remembered capacity refillRate t₀ calls)
    {c : Call} (hc : endTime t₀ calls ≤ c.2) :
    Remembered capacity refillRate t₀ (calls ++ [c]) := by
  have hlast := allowed_lastPrune_le (h.lastPrune_le.trans hc) c.1
  refine ⟨?_, fun ip b hb => ?_⟩
  · rw [limiterOf_concat, endTime_concat]
    exact hlast
  · rw [limiterOf_concat] at hb ⊢
    rcases get?_allowed hb with ⟨rfl, rfl⟩ | ⟨hne, hold, hprune⟩
    · refine ⟨calls, c.2, lastCall_concat_self calls c.1 c.2, rfl, ?_⟩
      unfold staleThreshold
      linarith
    · obtain ⟨before, s, hcall, rfl, hs⟩ := h.bucket ip b hold
      refine ⟨before, s, (lastCall_concat_of_ne hne).mpr hcall, rfl, ?_⟩
      rcases hprune with hsame | hrecent
      · rwa [hsame]
      · rwa [usedBucket_lastRefill] at hrecent

/-- A run of steps. -/
theorem remembered_run {calls : List Call} (hord : Ordered t₀ calls) :
    Remembered capacity refillRate t₀ calls := by
  induction calls using List.reverseRecOn with
  | nil =>
      refine ⟨le_rfl, fun ip b hb => ?_⟩
      simp [limiterOf, limiterAfter, RateLimiter.create] at hb
  | append_singleton calls c ih =>
      rw [ordered_concat] at hord
      exact (ih hord.1).allowed hord.2

/-- A bucket stays as its last call has left it for 600 seconds. -/
theorem get?_of_lastCall {calls before : List Call} {ip : Text} {s : ℚ}
    (hord : Ordered t₀ calls) (hcall : LastCall calls before ip s)
    (hrecent : endTime t₀ calls - s ≤ staleThreshold) :
    (limiterOf capacity refillRate t₀ calls).buckets.get? ip =
      some (usedBucket (limiterOf capacity refillRate t₀ before) ip s) := by
  induction calls using List.reverseRecOn with
  | nil =>
      obtain ⟨after, heq, -⟩ := hcall
      simp at heq
  | append_singleton calls c ih =>
      rw [ordered_concat] at hord
      rw [endTime_concat] at hrecent
      rw [limiterOf_concat]
      rcases eq_or_ne c.1 ip with rfl | hne
      · obtain ⟨rfl, rfl⟩ := lastCall_concat_eq hcall
        exact get?_allowed_self _ _ _
      · have hbefore := ih hord.1 ((lastCall_concat_of_ne hne).mp hcall)
          (by linarith [hord.2])
        refine get?_allowed_of_recent hne hbefore ?_
        rwa [usedBucket_lastRefill]

end Runs

/--
**Stale buckets are bounded and only stale ones go.**  After a call at `t`, at the
end of any run at non-decreasing times,

* every bucket of the registry is the one that the last call of its IP has left,
  and that call came later than `t - 660`;
* every IP whose last call came at most 600 seconds before `t` has the bucket that
  this call has left.
-/
theorem stale_buckets_bounded (capacity refillRate t₀ : ℚ) (calls : List Call)
    (caller : Text) (t : ℚ) (hord : Ordered t₀ (calls ++ [(caller, t)])) :
    (∀ ip b,
      (limiterOf capacity refillRate t₀ (calls ++ [(caller, t)])).buckets.get? ip = some b →
        ∃ before s, LastCall (calls ++ [(caller, t)]) before ip s ∧
          b = usedBucket (limiterOf capacity refillRate t₀ before) ip s ∧ t - 660 < s) ∧
    (∀ ip before s, LastCall (calls ++ [(caller, t)]) before ip s → t - s ≤ 600 →
      (limiterOf capacity refillRate t₀ (calls ++ [(caller, t)])).buckets.get? ip =
        some (usedBucket (limiterOf capacity refillRate t₀ before) ip s)) := by
  constructor
  · intro ip b hb
    obtain ⟨before, s, hcall, hbucket, hs⟩ := (remembered_run hord).bucket ip b hb
    refine ⟨before, s, hcall, hbucket, ?_⟩
    have hminute := sub_lastPrune_lt (limiterOf capacity refillRate t₀ calls) caller t
    rw [limiterOf_concat] at hs
    unfold staleThreshold at hs
    dsimp only at hs
    linarith
  · intro ip before s hcall hrecent
    refine get?_of_lastCall hord hcall ?_
    rw [endTime_concat]
    exact hrecent

/-- The bucket of a client that called at time 0 is there after a call of another one at time
600, and it is the one the first call has left. -/
theorem stale_buckets_bounded_kept :
    (limiterOf 20 2 0 ([(txt "a", 0)] ++ [(txt "b", 600)])).buckets.get? (txt "a") =
      some (usedBucket (limiterOf 20 2 0 []) (txt "a") 0) := by
  have hord : Ordered 0 ([(txt "a", 0)] ++ [(txt "b", 600)]) := by simp [Ordered]
  have hcall : LastCall ([(txt "a", 0)] ++ [(txt "b", 600)]) [] (txt "a") 0 :=
    ⟨[(txt "b", 600)], rfl, by simp [show txt "b" ≠ txt "a" by decide]⟩
  exact (stale_buckets_bounded 20 2 0 [(txt "a", 0)] (txt "b") 600 hord).2 (txt "a") [] 0 hcall
    (by norm_num)

end RateLimit
end NetworkProxy
