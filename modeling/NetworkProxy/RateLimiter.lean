import NetworkProxy.OrderedDict
import NetworkProxy.PyText
import NetworkProxy.TokenBucketLaw
import Mathlib.Algebra.Order.Ring.Rat
import Mathlib.Tactic.NormNum
import Mathlib.Tactic.Ring

/-!
# The per-IP rate limiter

`TokenBucket` and `RateLimiter` of `rate_limiter.py`, in exact rational
arithmetic.  Every reading of the monotonic clock is an argument; the methods
that run under one lock are one function each, so that the sequential run and
the interleaved run use the same steps.

Main result: `consume_exact`, the exact specification of `TokenBucket.consume`.
The limiter is described through `RateLimiter.credit`, the tokens a client would
find at a given time: `Sound.serve_fst` and `Sound.credit_serve` say all that a
call does to it.
-/

namespace NetworkProxy
namespace RateLimit

open Py TokenLaw

/-- Buckets inactive for longer than this (seconds) are pruned. -/
def staleThreshold : ℚ := 600

/-- A single token bucket for one client IP. -/
structure TokenBucket where
  capacity : ℚ
  refillRate : ℚ
  tokens : ℚ
  lastRefill : ℚ
deriving DecidableEq

namespace TokenBucket

/-- `TokenBucket(capacity, refill_rate)`, created at `now`: it starts full. -/
def create (capacity refillRate now : ℚ) : TokenBucket where
  capacity := capacity
  refillRate := refillRate
  tokens := capacity
  lastRefill := now

/-- Try to consume one token at time `now`. -/
def consume (b : TokenBucket) (now : ℚ) : Bool × TokenBucket :=
  let elapsed := now - b.lastRefill
  let tokens := min b.capacity (b.tokens + elapsed * b.refillRate)
  if 1 ≤ tokens then
    (true, { b with tokens := tokens - 1, lastRefill := now })
  else
    (false, { b with tokens := tokens, lastRefill := now })

/-- Tokens a call at time `u` finds. -/
def credit (b : TokenBucket) (u : ℚ) : ℚ :=
  refill b.capacity b.refillRate b.tokens (u - b.lastRefill)

@[simp] theorem create_capacity (c r now : ℚ) : (create c r now).capacity = c := rfl

@[simp] theorem create_refillRate (c r now : ℚ) : (create c r now).refillRate = r := rfl

@[simp] theorem consume_capacity (b : TokenBucket) (now : ℚ) :
    (b.consume now).2.capacity = b.capacity := by
  unfold consume
  dsimp only
  split <;> rfl

@[simp] theorem consume_refillRate (b : TokenBucket) (now : ℚ) :
    (b.consume now).2.refillRate = b.refillRate := by
  unfold consume
  dsimp only
  split <;> rfl

@[simp] theorem consume_lastRefill (b : TokenBucket) (now : ℚ) :
    (b.consume now).2.lastRefill = now := by
  unfold consume
  dsimp only
  split <;> rfl

theorem consume_fst (b : TokenBucket) (now : ℚ) :
    (b.consume now).1 = decide (1 ≤ b.credit now) := by
  unfold consume credit refill
  dsimp only
  split <;> rename_i h <;> simp [h]

theorem consume_tokens (b : TokenBucket) (now : ℚ) :
    (b.consume now).2.tokens = spend (b.credit now) := by
  unfold consume spend credit refill
  dsimp only
  split <;> rfl

/-- What a later call finds depends on the earlier calls only through the credit. -/
theorem credit_consume (b : TokenBucket) (now u : ℚ) :
    (b.consume now).2.credit u =
      refill b.capacity b.refillRate (spend (b.credit now)) (u - now) := by
  rw [credit, consume_capacity, consume_refillRate, consume_tokens, consume_lastRefill]

theorem credit_create {c r now u : ℚ} (hr : 0 ≤ r) (hu : now ≤ u) :
    (create c r now).credit u = c := by
  have : 0 ≤ (u - now) * r := mul_nonneg (by linarith) hr
  exact min_eq_left (by simp only [create]; linarith)

theorem credit_le_capacity (b : TokenBucket) (u : ℚ) : b.credit u ≤ b.capacity :=
  min_le_left _ _

/-- Tokens lie between zero and the capacity. -/
def WithinCapacity (b : TokenBucket) : Prop :=
  0 ≤ b.tokens ∧ b.tokens ≤ b.capacity

theorem WithinCapacity.create {c : ℚ} (hc : 0 ≤ c) (r now : ℚ) :
    (TokenBucket.create c r now).WithinCapacity :=
  ⟨hc, le_rfl⟩

theorem WithinCapacity.consume {b : TokenBucket} (h : b.WithinCapacity)
    (hr : 0 ≤ b.refillRate) {now : ℚ} (hnow : b.lastRefill ≤ now) :
    (b.consume now).2.WithinCapacity := by
  obtain ⟨h0, hc⟩ := h
  have hcap : 0 ≤ b.capacity := h0.trans hc
  have hrefill : 0 ≤ (now - b.lastRefill) * b.refillRate :=
    mul_nonneg (by linarith) hr
  have hcredit : 0 ≤ b.credit now := le_min hcap (by linarith)
  have hle := b.credit_le_capacity now
  unfold WithinCapacity
  rw [consume_tokens, consume_capacity, spend]
  split <;> constructor <;> linarith

end TokenBucket

section Consume

variable (capacity refillRate : ℚ) (t : ℕ → ℚ)

/-- The bucket created at `t 0`, after the calls of `consume` at `t 1, ..., t n`. -/
def bucketAfter : ℕ → TokenBucket
  | 0 => TokenBucket.create capacity refillRate (t 0)
  | n + 1 => ((bucketAfter n).consume (t (n + 1))).2

/-- What call `n` of `consume` returns; the calls are numbered from `1`. -/
def consumeResult : ℕ → Bool
  | 0 => false
  | n + 1 => ((bucketAfter capacity refillRate t n).consume (t (n + 1))).1

theorem bucketAfter_params (n : ℕ) :
    (bucketAfter capacity refillRate t n).capacity = capacity ∧
      (bucketAfter capacity refillRate t n).refillRate = refillRate ∧
      (bucketAfter capacity refillRate t n).lastRefill = t n := by
  induction n with
  | zero => exact ⟨rfl, rfl, rfl⟩
  | succ n ih =>
      simp only [bucketAfter, TokenBucket.consume_capacity,
        TokenBucket.consume_refillRate, TokenBucket.consume_lastRefill]
      exact ⟨ih.1, ih.2.1, trivial⟩

/-- The code's bucket is the bucket of the law. -/
theorem bucketAfter_tokens (n : ℕ) :
    (bucketAfter capacity refillRate t n).tokens = left capacity refillRate t n := by
  induction n with
  | zero => simp [bucketAfter, TokenBucket.create, left, Admits, level]
  | succ n ih =>
      obtain ⟨hc, hr, hl⟩ := bucketAfter_params capacity refillRate t n
      have hcredit :
          (bucketAfter capacity refillRate t n).credit (t (n + 1)) =
            level capacity refillRate t (n + 1) := by
        rw [TokenBucket.credit, hc, hr, hl, ih, level_succ]
      rw [bucketAfter, TokenBucket.consume_tokens, hcredit]
      simp [spend, left, Admits]

theorem consumeResult_eq_true_iff (n : ℕ) :
    consumeResult capacity refillRate t n = true ↔
      Admits capacity refillRate t n := by
  cases n with
  | zero => simp [consumeResult, Admits]
  | succ n =>
      obtain ⟨hc, hr, hl⟩ := bucketAfter_params capacity refillRate t n
      have hcredit :
          (bucketAfter capacity refillRate t n).credit (t (n + 1)) =
            level capacity refillRate t (n + 1) := by
        rw [TokenBucket.credit, hc, hr, hl, bucketAfter_tokens, level_succ]
      rw [consumeResult, TokenBucket.consume_fst, hcredit]
      simp [Admits]

theorem filter_consumeResult (s : Finset ℕ) :
    s.filter (fun i => consumeResult capacity refillRate t i = true) =
      s.filter (Admits capacity refillRate t) :=
  Finset.filter_congr fun i _ => consumeResult_eq_true_iff capacity refillRate t i

/--
**Exact specification of the token bucket.**  For calls at non-decreasing times
`t 1 ≤ ... ≤ t N` after the creation at `t 0`:

* call `n` succeeds exactly when one more token fits into every window from the
  creation or an earlier call up to call `n`;
* the tokens always lie between zero and the capacity;
* no interval of time admits more than `capacity + refillRate * length` calls;
* a refused call would exceed that bound in some interval ending at it.
-/
theorem consume_exact
    (hcap : 0 ≤ capacity) (hrate : 0 ≤ refillRate) (N : ℕ)
    (ht : ∀ i, i < N → t i ≤ t (i + 1)) :
    (∀ n, 1 ≤ n → n ≤ N →
      (consumeResult capacity refillRate t n = true ↔
        ∀ j, j ≤ n →
          1 + (((Finset.Ico (max j 1) n).filter
            (fun i => consumeResult capacity refillRate t i = true)).card : ℚ) ≤
              capacity + refillRate * (t n - t j))) ∧
    (∀ n, n ≤ N →
      0 ≤ (bucketAfter capacity refillRate t n).tokens ∧
        (bucketAfter capacity refillRate t n).tokens ≤ capacity) ∧
    (∀ s e, s ≤ e →
      (((Finset.Icc 1 N).filter (fun i =>
        consumeResult capacity refillRate t i = true ∧ s ≤ t i ∧ t i ≤ e)).card : ℚ) ≤
          capacity + refillRate * (e - s)) ∧
    (∀ n, 1 ≤ n → n ≤ N → consumeResult capacity refillRate t n = false →
      ∃ s, s ≤ t n ∧
        capacity + refillRate * (t n - s) <
          1 + (((Finset.Ico 1 n).filter (fun i =>
            consumeResult capacity refillRate t i = true ∧ s ≤ t i)).card : ℚ)) := by
  refine ⟨?_, ?_, ?_, ?_⟩
  · intro n hn _
    rw [consumeResult_eq_true_iff, admits_iff _ _ _ hn]
    refine forall₂_congr fun j _ => ?_
    rw [filter_consumeResult, ← granted_max_one]
    rfl
  · intro n hn
    rw [bucketAfter_tokens]
    exact ⟨left_nonneg hcap hrate ht n hn, left_le_cap n⟩
  · intro s e hse
    have h := card_admits_interval_le (t := t) hcap hrate N hse
    rw [← filter_consumeResult, Finset.filter_filter] at h
    exact h
  · intro n hn hnN hrefused
    have hno : ¬ Admits capacity refillRate t n := by
      rw [← consumeResult_eq_true_iff, hrefused]
      simp
    obtain ⟨s, hs, hlt⟩ := refused_exceeds hn hnN ht hno
    rw [← filter_consumeResult, Finset.filter_filter] at hlt
    exact ⟨s, hs, hlt⟩

/-- Four calls at once on a bucket of three: the fourth one is refused, and it is
the one that the bound does not permit. -/
theorem consume_exact_burst :
    ∃ s : ℚ, s ≤ 0 ∧
      3 + 1 / 10 * (0 - s) <
        1 + (((Finset.Ico 1 4).filter (fun i =>
          consumeResult 3 (1 / 10) (fun _ => 0) i = true ∧ s ≤ 0)).card : ℚ) :=
  (consume_exact 3 (1 / 10) (fun _ => 0) (by norm_num) (by norm_num) 4
    (fun _ _ => le_rfl)).2.2.2 4 (by decide) le_rfl (by decide +kernel)

end Consume

/-- `RateLimiter`: the registry of the buckets, one for each client IP. -/
structure RateLimiter where
  capacity : ℚ
  refillRate : ℚ
  buckets : OrderedDict Text TokenBucket
  lastPrune : ℚ

namespace RateLimiter

/-- `RateLimiter(capacity, refill_rate)`, created at `now`. -/
def create (capacity refillRate now : ℚ) : RateLimiter where
  capacity := capacity
  refillRate := refillRate
  buckets := OrderedDict.empty
  lastPrune := now

/-- `_get_or_create_bucket`, under the registry lock. -/
def getOrCreateBucket (L : RateLimiter) (ip : Text) (now : ℚ) :
    TokenBucket × RateLimiter :=
  match L.buckets.get? ip with
  | some b => (b, L)
  | none =>
      let b := TokenBucket.create L.capacity L.refillRate now
      (b, { L with buckets := L.buckets.set ip b })

/-- The IPs whose buckets `_maybe_prune` finds stale. -/
def staleIps (buckets : OrderedDict Text TokenBucket) (now : ℚ) : List Text :=
  (buckets.items.filter (fun p => staleThreshold < now - p.2.lastRefill)).map Prod.fst

/-- The part of `_maybe_prune` that runs under the registry lock. -/
def pruneStale (L : RateLimiter) (now : ℚ) : RateLimiter :=
  { L with
    lastPrune := now
    buckets := (staleIps L.buckets now).foldl OrderedDict.erase L.buckets }

/-- `_maybe_prune`: at most once per minute. -/
def maybePrune (L : RateLimiter) (now : ℚ) : RateLimiter :=
  if now - L.lastPrune < 60 then L else L.pruneStale now

/-- `is_allowed` up to the periodic cleanup. -/
def serve (L : RateLimiter) (ip : Text) (now : ℚ) : Bool × RateLimiter :=
  let found := L.getOrCreateBucket ip now
  let used := found.1.consume now
  (used.1, { found.2 with buckets := found.2.buckets.set ip used.2 })

/-- `is_allowed(ip)`, all clock readings of the call being `now`. -/
def isAllowed (rateLimitEnabled : Bool) (L : RateLimiter) (ip : Text) (now : ℚ) :
    Bool × RateLimiter :=
  if rateLimitEnabled then
    ((L.serve ip now).1, (L.serve ip now).2.maybePrune now)
  else (true, L)

/-- Tokens a call for `ip` at time `u` finds. -/
def credit (L : RateLimiter) (ip : Text) (u : ℚ) : ℚ :=
  match L.buckets.get? ip with
  | some b => b.credit u
  | none => L.capacity

theorem credit_of_some {L : RateLimiter} {ip : Text} {b : TokenBucket}
    (h : L.buckets.get? ip = some b) (u : ℚ) : L.credit ip u = b.credit u := by
  rw [credit, h]

theorem credit_of_none {L : RateLimiter} {ip : Text}
    (h : L.buckets.get? ip = none) (u : ℚ) : L.credit ip u = L.capacity := by
  rw [credit, h]

/-- Every registered bucket has the limiter's parameters, holds between zero and
`capacity` tokens and was last refilled no later than `now`. -/
structure Sound (L : RateLimiter) (now : ℚ) : Prop where
  capacity_nonneg : 0 ≤ L.capacity
  rate_nonneg : 0 ≤ L.refillRate
  bucket : ∀ ip b, L.buckets.get? ip = some b →
    b.capacity = L.capacity ∧ b.refillRate = L.refillRate ∧
      b.WithinCapacity ∧ b.lastRefill ≤ now

theorem Sound.create {c r now : ℚ} (hc : 0 ≤ c) (hr : 0 ≤ r) :
    (RateLimiter.create c r now).Sound now where
  capacity_nonneg := hc
  rate_nonneg := hr
  bucket ip b h := by simp [RateLimiter.create] at h

theorem Sound.later {L : RateLimiter} {now now' : ℚ} (h : L.Sound now)
    (hle : now ≤ now') : L.Sound now' where
  capacity_nonneg := h.capacity_nonneg
  rate_nonneg := h.rate_nonneg
  bucket ip b hb := by
    obtain ⟨h1, h2, h3, h4⟩ := h.bucket ip b hb
    exact ⟨h1, h2, h3, h4.trans hle⟩

/-- What a client finds is refilled from what it would have found earlier. -/
theorem Sound.credit_later {L : RateLimiter} {now u : ℚ} (h : L.Sound now)
    (ip : Text) (hu : now ≤ u) :
    L.credit ip u = refill L.capacity L.refillRate (L.credit ip now) (u - now) := by
  have hgain : 0 ≤ (u - now) * L.refillRate :=
    mul_nonneg (by linarith) h.rate_nonneg
  unfold credit
  cases hb : L.buckets.get? ip with
  | none =>
      exact (min_eq_left (by linarith)).symm
  | some b =>
      obtain ⟨hc, hr, -, -⟩ := h.bucket ip b hb
      simp only [TokenBucket.credit, refill, hc, hr]
      rw [← min_add_add_right, ← min_assoc, min_eq_left (by linarith :
        L.capacity ≤ L.capacity + (u - now) * L.refillRate)]
      congr 1
      ring

/-- The bucket that `serve` works on has the credit of its client. -/
theorem Sound.getOrCreateBucket_credit {L : RateLimiter} {now : ℚ}
    (h : L.Sound now) (ip : Text) {u : ℚ} (hu : now ≤ u) :
    (L.getOrCreateBucket ip now).1.credit u = L.credit ip u := by
  unfold getOrCreateBucket credit
  cases hb : L.buckets.get? ip with
  | none => exact TokenBucket.credit_create h.rate_nonneg hu
  | some b => rfl

theorem Sound.getOrCreateBucket_sound {L : RateLimiter} {now : ℚ}
    (h : L.Sound now) (ip : Text) :
    (L.getOrCreateBucket ip now).1.capacity = L.capacity ∧
      (L.getOrCreateBucket ip now).1.refillRate = L.refillRate ∧
      (L.getOrCreateBucket ip now).1.WithinCapacity ∧
      (L.getOrCreateBucket ip now).1.lastRefill ≤ now := by
  unfold getOrCreateBucket
  cases hb : L.buckets.get? ip with
  | none =>
      exact ⟨rfl, rfl, TokenBucket.WithinCapacity.create h.capacity_nonneg _ _, le_rfl⟩
  | some b => exact h.bucket ip b hb

@[simp] theorem serve_capacity (L : RateLimiter) (ip : Text) (now : ℚ) :
    (L.serve ip now).2.capacity = L.capacity := by
  unfold serve getOrCreateBucket
  cases L.buckets.get? ip <;> rfl

@[simp] theorem serve_refillRate (L : RateLimiter) (ip : Text) (now : ℚ) :
    (L.serve ip now).2.refillRate = L.refillRate := by
  unfold serve getOrCreateBucket
  cases L.buckets.get? ip <;> rfl

@[simp] theorem serve_lastPrune (L : RateLimiter) (ip : Text) (now : ℚ) :
    (L.serve ip now).2.lastPrune = L.lastPrune := by
  unfold serve getOrCreateBucket
  cases L.buckets.get? ip <;> rfl

/-- The registry after a call: the served bucket is updated, the others stay. -/
theorem get?_serve (L : RateLimiter) (ip ip' : Text) (now : ℚ) :
    (L.serve ip now).2.buckets.get? ip' =
      if ip = ip' then some ((L.getOrCreateBucket ip now).1.consume now).2
      else L.buckets.get? ip' := by
  unfold serve
  simp only [OrderedDict.get?_set]
  split
  · rfl
  · rename_i hne
    unfold getOrCreateBucket
    cases L.buckets.get? ip with
    | none => simp [OrderedDict.get?_set, hne]
    | some b => rfl

theorem Sound.serve_fst {L : RateLimiter} {now : ℚ} (h : L.Sound now) (ip : Text) :
    (L.serve ip now).1 = decide (1 ≤ L.credit ip now) := by
  unfold serve
  rw [TokenBucket.consume_fst, h.getOrCreateBucket_credit ip le_rfl]

/-- One call spends at most one token of its own client. -/
theorem Sound.credit_serve {L : RateLimiter} {now : ℚ} (h : L.Sound now)
    (ip ip' : Text) {u : ℚ} :
    (L.serve ip now).2.credit ip' u =
      if ip = ip' then
        refill L.capacity L.refillRate (spend (L.credit ip now)) (u - now)
      else L.credit ip' u := by
  obtain ⟨hc, hr, -, -⟩ := h.getOrCreateBucket_sound ip
  have hget := get?_serve L ip ip' now
  split
  · rename_i hk
    rw [if_pos hk] at hget
    rw [credit_of_some hget, TokenBucket.credit_consume, hc, hr,
      h.getOrCreateBucket_credit ip le_rfl]
  · rename_i hk
    rw [if_neg hk] at hget
    unfold credit
    rw [hget, serve_capacity]

theorem Sound.serve {L : RateLimiter} {now : ℚ} (h : L.Sound now) (ip : Text) :
    (L.serve ip now).2.Sound now where
  capacity_nonneg := by simpa using h.capacity_nonneg
  rate_nonneg := by simpa using h.rate_nonneg
  bucket ip' b hb := by
    rw [get?_serve] at hb
    rw [serve_capacity, serve_refillRate]
    split at hb
    · obtain ⟨hc, hr, hw, hl⟩ := h.getOrCreateBucket_sound ip
      simp only [Option.some.injEq] at hb
      subst hb
      simp only [TokenBucket.consume_capacity, TokenBucket.consume_refillRate,
        TokenBucket.consume_lastRefill]
      exact ⟨hc, hr, hw.consume (hr ▸ h.rate_nonneg) hl, le_rfl⟩
    · exact h.bucket ip' b hb

/-- Pruning removes exactly the stale buckets. -/
theorem get?_pruneStale (L : RateLimiter) (now : ℚ) (ip : Text) :
    (L.pruneStale now).buckets.get? ip =
      (L.buckets.get? ip).filter (fun b => !decide (staleThreshold < now - b.lastRefill)) :=
  L.buckets.get?_foldl_erase_filter
    (fun p => decide (staleThreshold < now - p.2.lastRefill)) ip

end RateLimiter

end RateLimit
end NetworkProxy
