import NetworkProxy.RateLimiterPruning
import NetworkProxy.Unwinding

/-!
# Isolation of the clients of the rate limiter

What other clients do decides when the registry is pruned, and so when the bucket
of a client is removed and created again.  Its decisions do not depend on it.

* `SameFor` is what a client finds; the other clients' calls keep it, because a
  bucket that may be pruned is full.
* A limiter whose capacity is below one token refuses everybody (`Starved`).
-/

namespace NetworkProxy
namespace RateLimit

open Py TokenLaw RateLimiter

/-- The decisions returned for `ip` in a sequential run. -/
def decisionsFor (f : RateLimiter → Text → ℚ → Bool × RateLimiter) (ip : Text)
    (L : RateLimiter) (calls : List Call) : List Bool :=
  ((calls.zip (decisions f L calls)).filter (fun p => p.1.1 = ip)).map Prod.snd

/-- The limiter as a machine that answers calls. -/
def answerCall (f : RateLimiter → Text → ℚ → Bool × RateLimiter) (L : RateLimiter)
    (c : Call) : Bool × RateLimiter := f L c.1 c.2

theorem decisions_eq_outputs (f : RateLimiter → Text → ℚ → Bool × RateLimiter)
    (calls : List Call) (L : RateLimiter) :
    decisions f L calls = Unwinding.outputs (answerCall f) L calls := by
  induction calls generalizing L with
  | nil => rfl
  | cons c calls ih =>
      rw [decisions, ih, Unwinding.outputs]
      rfl

theorem decisionsFor_eq_seen (f : RateLimiter → Text → ℚ → Bool × RateLimiter) (ip : Text)
    (L : RateLimiter) (calls : List Call) :
    decisionsFor f ip L calls =
      Unwinding.seen (answerCall f) (fun c => decide (c.1 = ip)) L calls := by
  rw [decisionsFor, decisions_eq_outputs]
  rfl

/-- Two limiters in which `ip` finds the same credit from `now` on. -/
structure SameFor (ip : Text) (now : ℚ) (P Q : RateLimiter) : Prop where
  left : P.Sound now
  right : Q.Sound now
  capacity : P.capacity = Q.capacity
  refillRate : P.refillRate = Q.refillRate
  refills : P.capacity ≤ 600 * P.refillRate
  credit : ∀ u, now ≤ u → P.credit ip u = Q.credit ip u

/-- What a call leaves a client: its own call spends, any other does nothing. -/
theorem Sound.credit_allowed {L : RateLimiter} {now u : ℚ} (h : L.Sound now)
    (hthr : L.capacity ≤ 600 * L.refillRate) (caller ip : Text) (hu : now ≤ u) :
    (RateLimit.allowed L caller now).2.credit ip u =
      if caller = ip then
        refill L.capacity L.refillRate (spend (L.credit caller now)) (u - now)
      else L.credit ip u := by
  rw [allowed_snd, Sound.credit_maybePrune (h.serve caller) (by simpa using hthr) ip hu,
    h.credit_serve]

/-- The relation `SameFor` unwinds the limiter for a client. -/
theorem unwinds_sameFor (ip : Text) :
    Unwinding.Unwinds (answerCall allowed) (fun c => decide (c.1 = ip)) Prod.snd
      (SameFor ip) where
  later h hle :=
    { left := h.left.later hle
      right := h.right.later hle
      capacity := h.capacity
      refillRate := h.refillRate
      refills := h.refills
      credit := fun u hu => h.credit u (hle.trans hu) }
  answer {c P Q} hown h := by
    have hip : c.1 = ip := of_decide_eq_true hown
    rw [answerCall, answerCall, allowed_fst, allowed_fst, h.left.serve_fst, h.right.serve_fst,
      hip, h.credit c.2 le_rfl]
  both {c P Q} hown h :=
    { left := Sound.allowed h.left c.1
      right := Sound.allowed h.right c.1
      capacity := by simpa [answerCall, allowed_snd] using h.capacity
      refillRate := by simpa [answerCall, allowed_snd] using h.refillRate
      refills := by simpa [answerCall, allowed_snd] using h.refills
      credit := by
        intro u hu
        have hip : c.1 = ip := of_decide_eq_true hown
        have hthr : Q.capacity ≤ 600 * Q.refillRate := by
          rw [← h.capacity, ← h.refillRate]
          exact h.refills
        rw [answerCall, answerCall, Sound.credit_allowed h.left h.refills c.1 ip hu,
          Sound.credit_allowed h.right hthr c.1 ip hu, if_pos hip, if_pos hip, hip,
          h.credit c.2 le_rfl, h.capacity, h.refillRate] }
  unnoticed {c P Q} hother h :=
    { left := Sound.allowed h.left c.1
      right := h.right
      capacity := by simpa [answerCall, allowed_snd] using h.capacity
      refillRate := by simpa [answerCall, allowed_snd] using h.refillRate
      refills := by simpa [answerCall, allowed_snd] using h.refills
      credit := by
        intro u hu
        have hip : ¬ c.1 = ip := of_decide_eq_false hother
        rw [answerCall, Sound.credit_allowed h.left h.refills c.1 ip hu, if_neg hip,
          h.credit u hu] }

/-! ## Less than one token -/

/-- No bucket of the limiter can ever hold a whole token. -/
structure Starved (L : RateLimiter) : Prop where
  capacity : L.capacity < 1
  bucket : ∀ ip b, L.buckets.get? ip = some b → b.capacity = L.capacity

theorem starved_create {c r t₀ : ℚ} (hc : c < 1) : Starved (RateLimiter.create c r t₀) where
  capacity := hc
  bucket ip b h := by simp [RateLimiter.create] at h

theorem Starved.getOrCreateBucket_capacity {L : RateLimiter} (h : Starved L) (ip : Text)
    (now : ℚ) : (L.getOrCreateBucket ip now).1.capacity = L.capacity := by
  unfold getOrCreateBucket
  cases hb : L.buckets.get? ip with
  | none => rfl
  | some b => exact h.bucket ip b hb

/-- A starved limiter refuses every call. -/
theorem Starved.allowed_fst {L : RateLimiter} (h : Starved L) (ip : Text) (now : ℚ) :
    (allowed L ip now).1 = false := by
  have hlow : (L.getOrCreateBucket ip now).1.credit now < 1 := by
    refine lt_of_le_of_lt (TokenBucket.credit_le_capacity _ _) ?_
    rw [h.getOrCreateBucket_capacity]
    exact h.capacity
  rw [RateLimit.allowed_fst, serve, TokenBucket.consume_fst]
  exact decide_eq_false (not_le.mpr hlow)

theorem Starved.serve {L : RateLimiter} (h : Starved L) (ip : Text) (now : ℚ) :
    Starved (L.serve ip now).2 where
  capacity := by simpa using h.capacity
  bucket ip' b hb := by
    rw [get?_serve] at hb
    rw [serve_capacity]
    split at hb
    · cases hb
      rw [TokenBucket.consume_capacity, h.getOrCreateBucket_capacity]
    · exact h.bucket ip' b hb

theorem Starved.allowed {L : RateLimiter} (h : Starved L) (ip : Text) (now : ℚ) :
    Starved (allowed L ip now).2 where
  capacity := by simpa [allowed_snd] using h.capacity
  bucket ip' b hb := by
    rw [allowed_snd] at hb ⊢
    rw [maybePrune_capacity]
    rcases get?_maybePrune (L.serve ip now).2 now ip' with he | ⟨hn, -⟩
    · exact (h.serve ip now).bucket ip' b (he ▸ hb)
    · rw [hn] at hb
      cases hb

theorem unwinds_starved (ip : Text) :
    Unwinding.Unwinds (answerCall allowed) (fun c => decide (c.1 = ip)) Prod.snd
      (fun _ P Q => Starved P ∧ Starved Q) where
  later h _ := h
  answer {c _ _} _ h := (h.1.allowed_fst c.1 c.2).trans (h.2.allowed_fst c.1 c.2).symm
  both {c _ _} _ h := ⟨h.1.allowed c.1 c.2, h.2.allowed c.1 c.2⟩
  unnoticed {c _ _} _ h := ⟨h.1.allowed c.1 c.2, h.2⟩

/-! ## Isolation -/

theorem sound_create {c r t₀ : ℚ} (hc : 0 ≤ c) (hr : 0 ≤ r) (now : ℚ) :
    (RateLimiter.create c r t₀).Sound now where
  capacity_nonneg := hc
  rate_nonneg := hr
  bucket ip b h := by simp [RateLimiter.create] at h

/-- New limiters with the same parameters look the same to everybody. -/
theorem sameFor_create {c r t₀ t₁ now : ℚ} (hc : 0 ≤ c) (hr : 0 ≤ r) (hthr : c ≤ 600 * r)
    (ip : Text) :
    SameFor ip now (RateLimiter.create c r t₀) (RateLimiter.create c r t₁) where
  left := sound_create hc hr now
  right := sound_create hc hr now
  capacity := rfl
  refillRate := rfl
  refills := hthr
  credit _ _ := rfl

/-- A limiter that is switched off admits everything. -/
theorem decisions_disabled (L : RateLimiter) (calls : List Call) :
    decisions (isAllowed false) L calls = calls.map (fun _ => true) := by
  induction calls with
  | nil => rfl
  | cons c calls ih =>
      rw [decisions, List.map_cons, ← ih]
      rfl

theorem decisionsFor_disabled (ip : Text) (L : RateLimiter) (calls : List Call) :
    decisionsFor (isAllowed false) ip L calls =
      (calls.filter (fun c => c.1 = ip)).map (fun _ => true) := by
  rw [decisionsFor, decisions_disabled]
  induction calls with
  | nil => rfl
  | cons c calls ih =>
      rw [List.map_cons, List.zip_cons_cons]
      by_cases hip : c.1 = ip
      · rw [List.filter_cons_of_pos (by simpa using hip),
          List.filter_cons_of_pos (by simpa using hip), List.map_cons, List.map_cons, ih]
      · rw [List.filter_cons_of_neg (by simpa using hip),
          List.filter_cons_of_neg (by simpa using hip), ih]

/--
**Isolation of the clients.**  In two sequential runs at non-decreasing times that hold the same
calls of `ip`, whatever the other clients do, the decisions returned for `ip` are the same.
-/
theorem decisionsFor_eq_of_same_calls (rateLimitEnabled : Bool) (capacity refillRate : ℚ)
    (hrate : 0 < refillRate) (hthr : capacity ≤ 600 * refillRate) (ip : Text) (t₀ t₁ : ℚ)
    (calls calls' : List Call) (hord : Ordered t₀ calls) (hord' : Ordered t₁ calls')
    (hsame : calls.filter (fun c => c.1 = ip) = calls'.filter (fun c => c.1 = ip)) :
    decisionsFor (isAllowed rateLimitEnabled) ip
        (RateLimiter.create capacity refillRate t₀) calls =
      decisionsFor (isAllowed rateLimitEnabled) ip
        (RateLimiter.create capacity refillRate t₁) calls' := by
  cases rateLimitEnabled with
  | false => rw [decisionsFor_disabled, decisionsFor_disabled, hsame]
  | true =>
      show decisionsFor allowed ip _ calls = decisionsFor allowed ip _ calls'
      rw [decisionsFor_eq_seen, decisionsFor_eq_seen]
      rcases lt_or_ge capacity 0 with hneg | hcap
      · have hlow : capacity < 1 := hneg.trans zero_lt_one
        exact (unwinds_starved ip).seen_eq_seen
          (r := RateLimiter.create capacity refillRate t₀)
          ⟨starved_create hlow, starved_create hlow⟩
          ⟨starved_create hlow, starved_create hlow⟩ hord hord' hsame
      · exact (unwinds_sameFor ip).seen_eq_seen
          (r := RateLimiter.create capacity refillRate t₀)
          (sameFor_create hcap hrate.le hthr ip) (sameFor_create hcap hrate.le hthr ip)
          hord hord' hsame

/-- At the shipped 20 tokens and 2 per second: a client that comes back after its bucket has been
pruned is answered as if nobody else had called. -/
theorem decisionsFor_eq_of_same_calls_shipped :
    decisionsFor (isAllowed true) (txt "a") (RateLimiter.create 20 2 0)
        [(txt "a", 0), (txt "b", 601), (txt "a", 601)] =
      decisionsFor (isAllowed true) (txt "a") (RateLimiter.create 20 2 0)
        [(txt "a", 0), (txt "a", 601)] := by
  have hord : Ordered 0 [(txt "a", 0), (txt "b", 601), (txt "a", 601)] := by
    simp [Ordered]
  have hord' : Ordered 0 [(txt "a", 0), (txt "a", 601)] := by
    simp [Ordered]
  exact decisionsFor_eq_of_same_calls true 20 2 (by norm_num) (by norm_num) (txt "a") 0 0 _ _
    hord hord' rfl

end RateLimit
end NetworkProxy
