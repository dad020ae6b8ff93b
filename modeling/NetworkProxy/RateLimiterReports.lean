import NetworkProxy.RateLimiterPruning
import Mathlib.Data.Rat.Floor

/-!
# What the rate limiter reports

`TokenBucket.remaining` and `TokenBucket.retry_after`, and their counterparts of
`RateLimiter`, against the decisions that follow.

* `retryAfter_exact`: the waiting time of a bucket without a token is the least
  whole number of seconds after which `consume` succeeds;
* `getRemaining_exact`: the reported number of tokens is the number of calls that
  are allowed at once, whether the bucket is there, is to be created or is about
  to be pruned;
* `Running.getRetryAfter_refused`: a client that was refused is told how long it has
  to wait.

Both numbers are read off the bucket without changing it, so each is compared
with the refill that a later `consume` performs: `one_le_credit_iff` for the
wait, `Running.decisions_replicate` for the tokens.
-/

namespace NetworkProxy
namespace RateLimit

open Py TokenLaw RateLimiter

/-- `int(x)`: the fraction is cut off towards zero. -/
def intOf (x : ℚ) : ℤ := x.num.tdiv x.den

theorem intOf_of_nonneg {x : ℚ} (hx : 0 ≤ x) : intOf x = ⌊x⌋ := by
  rw [intOf, Rat.floor_def', Int.tdiv_eq_ediv_of_nonneg (Rat.num_nonneg.mpr hx)]

namespace TokenBucket

/-- The number of tokens available at `now`. -/
def remaining (b : TokenBucket) (now : ℚ) : ℤ :=
  let elapsed := now - b.lastRefill
  let current := min b.capacity (b.tokens + elapsed * b.refillRate)
  intOf current

/-- Seconds until the next token is available; `none` for the division by a zero rate. -/
def retryAfter (b : TokenBucket) : Option ℤ :=
  if 1 ≤ b.tokens then some 0
  else
    let deficit := 1 - b.tokens
    if b.refillRate = 0 then none else some ⌈deficit / b.refillRate⌉

/-- `remaining` performs the refill of `consume`. -/
theorem remaining_eq (b : TokenBucket) (now : ℚ) : b.remaining now = intOf (b.credit now) := rfl

theorem retryAfter_of_lt_one {b : TokenBucket} (hrate : 0 < b.refillRate) (h : b.tokens < 1) :
    b.retryAfter = some ⌈(1 - b.tokens) / b.refillRate⌉ := by
  rw [retryAfter, if_neg (not_le.mpr h)]
  exact if_neg hrate.ne'

/-- When a call `d` seconds after the last one is allowed. -/
theorem consume_later_iff (b : TokenBucket) (d : ℚ) :
    (b.consume (b.lastRefill + d)).1 = true ↔
      1 ≤ refill b.capacity b.refillRate b.tokens d := by
  rw [consume_fst, decide_eq_true_iff, credit, add_sub_cancel_left]

theorem WithinCapacity.credit_nonneg {b : TokenBucket} (h : b.WithinCapacity)
    (hr : 0 ≤ b.refillRate) {now : ℚ} (hnow : b.lastRefill ≤ now) : 0 ≤ b.credit now := by
  have hrefill : 0 ≤ (now - b.lastRefill) * b.refillRate := mul_nonneg (by linarith) hr
  exact le_min (h.1.trans h.2) (by linarith [h.1])

end TokenBucket

namespace RateLimiter

/-- The Retry-After value for this IP: one second when its bucket is gone. -/
def getRetryAfter (L : RateLimiter) (ip : Text) : Option ℤ :=
  match L.buckets.get? ip with
  | some bucket => bucket.retryAfter
  | none => some 1

/-- The remaining tokens for this IP: a full bucket when there is none. -/
def getRemaining (L : RateLimiter) (ip : Text) (now : ℚ) : ℚ :=
  match L.buckets.get? ip with
  | some bucket => bucket.remaining now
  | none => L.capacity

end RateLimiter

/-! ## The waiting time -/

/--
**Retry-After is the exact waiting time.**  In every state of a bucket without a
token, `retry_after` returns a number of seconds after which a call is allowed,
and no smaller whole number of seconds is enough.
-/
theorem retryAfter_exact {capacity refillRate : ℚ} (hcap : 1 ≤ capacity)
    (hrate : 0 < refillRate) (t : ℕ → ℚ) (k : ℕ)
    (hempty : (bucketAfter capacity refillRate t k).tokens < 1) :
    let b := bucketAfter capacity refillRate t k
    ∃ n : ℤ, b.retryAfter = some n ∧
      (∀ d : ℚ, n ≤ d → (b.consume (b.lastRefill + d)).1 = true) ∧
      ∀ d : ℤ, 0 ≤ d → d < n → (b.consume (b.lastRefill + d)).1 = false := by
  obtain ⟨hc, hr, -⟩ := bucketAfter_params capacity refillRate t k
  generalize bucketAfter capacity refillRate t k = b at hc hr hempty
  subst hc hr
  refine ⟨_, TokenBucket.retryAfter_of_lt_one hrate hempty, fun d hd => ?_, fun d _ hd => ?_⟩
  · rw [b.consume_later_iff, one_le_refill_iff hcap hrate]
    exact (Int.le_ceil _).trans hd
  · rw [Bool.eq_false_iff, Ne, b.consume_later_iff, one_le_refill_int_iff hcap hrate]
    exact not_le.mpr hd

/-- One token at one token per second: after the only call at time 0 the wait is one second. -/
theorem retryAfter_exact_one :
    let b := bucketAfter 1 1 (fun _ => 0) 1
    ∃ n : ℤ, b.retryAfter = some n ∧
      (∀ d : ℚ, n ≤ d → (b.consume (b.lastRefill + d)).1 = true) ∧
      ∀ d : ℤ, 0 ≤ d → d < n → (b.consume (b.lastRefill + d)).1 = false :=
  retryAfter_exact le_rfl one_pos (fun _ => 0) 1 (by decide +kernel)

/-! ## The remaining tokens -/

section Remaining

variable {c r : ℚ}

theorem Running.limiterAfter {calls : List Call} :
    ∀ {now : ℚ} {L : RateLimiter}, Running c r now L → Ordered now calls →
      Running c r (endTime now calls) (limiterAfter RateLimit.allowed L calls) := by
  induction calls with
  | nil =>
      intro now L h _
      exact h
  | cons call calls ih =>
      intro now L h hord
      rw [ordered_cons] at hord
      exact ih ((h.later hord.1).allowed call.1) hord.2

/-- What the served client finds in another call at the same time. -/
theorem Running.credit_allowed_now {now : ℚ} {L : RateLimiter} (h : Running c r now L)
    (ip : Text) : (RateLimit.allowed L ip now).2.credit ip now = spend (L.credit ip now) := by
  have hle := h.credit_le ip le_rfl
  have hspend : spend (L.credit ip now) ≤ c := by
    unfold spend
    split <;> linarith
  rw [h.credit_allowed_self]
  exact refill_now hspend now

theorem Running.allowed_fst {now : ℚ} {L : RateLimiter} (h : Running c r now L) (ip : Text) :
    (RateLimit.allowed L ip now).1 = decide (1 ≤ L.credit ip now) := by
  rw [RateLimit.allowed_fst, h.sound.serve_fst]

/-- Calls at once.  As many calls are allowed as there are whole tokens, and the next one is
refused. -/
theorem Running.decisions_replicate {now : ℚ} {ip : Text} (n : ℕ) :
    ∀ {L : RateLimiter}, Running c r now L → (n : ℚ) ≤ L.credit ip now →
      L.credit ip now < n + 1 →
      decisions RateLimit.allowed L (List.replicate (n + 1) (ip, now)) =
        List.replicate n true ++ [false] := by
  induction n with
  | zero =>
      intro L h _ hlt
      have hrefused : ¬ 1 ≤ L.credit ip now := not_le.mpr (by simpa using hlt)
      simp [decisions, h.allowed_fst, hrefused]
  | succ n ih =>
      intro L h hle hlt
      push_cast at hle hlt
      have hone : 1 ≤ L.credit ip now := by
        have : (0 : ℚ) ≤ n := n.cast_nonneg
        linarith
      have hspent : (RateLimit.allowed L ip now).2.credit ip now = L.credit ip now - 1 := by
        rw [h.credit_allowed_now, spend, if_pos hone]
      have hrest := ih (h.allowed ip) (by linarith) (by linarith)
      rw [List.replicate_succ, decisions, hrest, h.allowed_fst, decide_eq_true hone,
        List.replicate_succ, List.cons_append]

/-- The reported number is the credit of the client, cut off to whole tokens where a bucket is
there. -/
theorem Running.getRemaining_bounds {now : ℚ} {L : RateLimiter} (h : Running c r now L)
    (ip : Text) {n : ℕ} (hn : L.getRemaining ip now = n) :
    (n : ℚ) ≤ L.credit ip now ∧ L.credit ip now < n + 1 := by
  unfold getRemaining at hn
  cases hb : L.buckets.get? ip with
  | none =>
      rw [hb] at hn
      dsimp only at hn
      rw [credit_of_none hb, hn]
      exact ⟨le_rfl, lt_add_one _⟩
  | some b =>
      obtain ⟨-, hr, hw, hlast⟩ := h.sound.bucket ip b hb
      have hnonneg : 0 ≤ b.credit now :=
        hw.credit_nonneg (hr ▸ h.sound.rate_nonneg) hlast
      rw [hb] at hn
      dsimp only at hn
      rw [b.remaining_eq, intOf_of_nonneg hnonneg] at hn
      have hfloor : ⌊b.credit now⌋ = (n : ℤ) := by exact_mod_cast hn
      rw [Int.floor_eq_iff] at hfloor
      rw [credit_of_some hb]
      exact_mod_cast hfloor

/-- A limiter of a whole number of tokens always reports a whole number of them. -/
theorem Running.exists_getRemaining {now : ℚ} {capacity : ℕ} {L : RateLimiter}
    (h : Running capacity r now L) (ip : Text) : ∃ n : ℕ, L.getRemaining ip now = n := by
  unfold getRemaining
  cases hb : L.buckets.get? ip with
  | none => exact ⟨capacity, h.capacity_eq⟩
  | some b =>
      obtain ⟨-, hr, hw, hlast⟩ := h.sound.bucket ip b hb
      have hnonneg : 0 ≤ b.credit now :=
        hw.credit_nonneg (hr ▸ h.sound.rate_nonneg) hlast
      refine ⟨⌊b.credit now⌋.toNat, ?_⟩
      have hfloor : ((⌊b.credit now⌋.toNat : ℤ) : ℚ) = (⌊b.credit now⌋ : ℚ) := by
        rw [Int.toNat_of_nonneg (Int.floor_nonneg.mpr hnonneg)]
      dsimp only
      rw [b.remaining_eq, intOf_of_nonneg hnonneg, ← hfloor, Int.cast_natCast]

theorem Running.create (hc : 0 ≤ c) (hr : 0 ≤ r) (t₀ : ℚ) :
    Running c r t₀ (RateLimiter.create c r t₀) where
  sound := Sound.create hc hr
  capacity_eq := rfl
  refillRate_eq := rfl

end Remaining

/--
**The reported tokens are the ones that will be granted.**  After any run, when
`get_remaining` reports `n` at a time no earlier than the last call, the next `n`
calls at that time are allowed and the one after them is not.  The report is a
whole number whenever the capacity is one.
-/
theorem getRemaining_exact {capacity refillRate t₀ : ℚ} (hcap : 0 ≤ capacity)
    (hrate : 0 ≤ refillRate) {calls : List Call} (hord : Ordered t₀ calls) {t : ℚ}
    (ht : endTime t₀ calls ≤ t) (ip : Text) :
    let L := limiterAfter allowed (RateLimiter.create capacity refillRate t₀) calls
    (∀ n : ℕ, L.getRemaining ip t = n →
      decisions allowed L (List.replicate (n + 1) (ip, t)) = List.replicate n true ++ [false]) ∧
    ((∃ k : ℕ, capacity = k) → ∃ n : ℕ, L.getRemaining ip t = n) := by
  have hstart := Running.create hcap hrate t₀
  have hrunning := (hstart.limiterAfter hord).later ht
  constructor
  · intro n hn
    obtain ⟨hle, hlt⟩ := hrunning.getRemaining_bounds ip hn
    exact hrunning.decisions_replicate n hle hlt
  · rintro ⟨k, rfl⟩
    exact hrunning.exists_getRemaining ip

/-- Three tokens at one per second: after two calls at time 0, half a second later one and a half
tokens are there and one is reported. -/
theorem getRemaining_exact_one :
    decisions allowed
        (limiterAfter allowed (RateLimiter.create 3 1 0) [(txt "a", 0), (txt "a", 0)])
        (List.replicate 2 (txt "a", 1 / 2)) =
      List.replicate 1 true ++ [false] := by
  have hord : Ordered 0 [(txt "a", 0), (txt "a", 0)] := by simp [Ordered]
  have hlater : endTime 0 [(txt "a", 0), (txt "a", 0)] ≤ 1 / 2 := by norm_num [endTime]
  exact (getRemaining_exact (by norm_num) (by norm_num) hord hlater (txt "a")).1 1
    (by decide +kernel)

/-! ## After a refusal -/

/-- After a refusal the limiter tells the client how many seconds it has to wait: if it calls again
then or later it is allowed, and after fewer whole seconds it is not. -/
theorem Running.getRetryAfter_refused {c r now : ℚ} {L : RateLimiter}
    (h : Running c r now L) (hcap : 1 ≤ c) (hrate : 0 < r) {ip : Text}
    (hrefused : (RateLimit.allowed L ip now).1 = false) :
    let after := (RateLimit.allowed L ip now).2
    ∃ n : ℤ, after.getRetryAfter ip = some n ∧
      (∀ d : ℚ, 0 ≤ d → n ≤ d → (RateLimit.allowed after ip (now + d)).1 = true) ∧
      ∀ d : ℤ, 0 ≤ d → d < n → (RateLimit.allowed after ip (now + d)).1 = false := by
  have hempty : L.credit ip now < 1 := by
    rw [h.allowed_fst, decide_eq_false_iff_not] at hrefused
    exact not_le.mp hrefused
  have hlater (d : ℚ) (hd : 0 ≤ d) : (RateLimit.allowed (RateLimit.allowed L ip now).2 ip
      (now + d)).1 = true ↔ 1 ≤ refill c r (L.credit ip now) d := by
    have hrunning := (h.allowed ip).later (le_add_of_nonneg_right hd)
    rw [hrunning.allowed_fst, decide_eq_true_iff, h.credit_allowed_self, spend,
      if_neg (not_le.mpr hempty), add_sub_cancel_left]
  have hretry : (RateLimit.allowed L ip now).2.getRetryAfter ip =
      some ⌈(1 - L.credit ip now) / r⌉ := by
    obtain ⟨-, hr, -, -⟩ := h.sound.getOrCreateBucket_sound ip
    have htokens : ((L.getOrCreateBucket ip now).1.consume now).2.tokens = L.credit ip now := by
      rw [TokenBucket.consume_tokens, h.sound.getOrCreateBucket_credit ip le_rfl, spend,
        if_neg (not_le.mpr hempty)]
    have hbucket : ((L.getOrCreateBucket ip now).1.consume now).2.refillRate = r := by
      rw [TokenBucket.consume_refillRate, hr, h.refillRate_eq]
    rw [getRetryAfter, get?_allowed_self]
    dsimp only
    rw [TokenBucket.retryAfter_of_lt_one (by rwa [hbucket]) (by rwa [htokens]), htokens, hbucket]
  refine ⟨_, hretry, fun d hd hle => ?_, fun d hd hlt => ?_⟩
  · rw [hlater d hd, one_le_refill_iff hcap hrate]
    exact (Int.le_ceil _).trans hle
  · rw [Bool.eq_false_iff, Ne, hlater d (by exact_mod_cast hd), one_le_refill_int_iff hcap hrate]
    exact not_le.mpr hlt

end RateLimit
end NetworkProxy
