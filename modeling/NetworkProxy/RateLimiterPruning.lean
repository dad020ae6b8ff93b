import NetworkProxy.RateLimiter
import Mathlib.Algebra.Order.Archimedean.Basic
import Mathlib.Tactic.FieldSimp

/-!
# Pruning and the decisions of the rate limiter

A pruned bucket is recreated full.  This is unobservable exactly when the stale
threshold is long enough to refill a bucket completely, that is, when
`capacity ≤ 600 * refillRate`.

* Sufficiency is a simulation: the pruning limiter and the limiter that never
  prunes give every client the same credit at all later times, although their
  registries hold different keys (`Alike`).
* Necessity builds a run: one client drains its bucket to zero, another one's
  call prunes it 600 seconds later, and the difference between the full bucket
  and the refilled one is brought down to one decision.
-/

namespace NetworkProxy
namespace RateLimit

open Py TokenLaw RateLimiter

/-- A call: the client's IP and the time. -/
abbrev Call := Text × ℚ

section Runs

variable (f : RateLimiter → Text → ℚ → Bool × RateLimiter)

/-- The decisions of a sequential run. -/
def decisions : RateLimiter → List Call → List Bool
  | _, [] => []
  | L, c :: calls => (f L c.1 c.2).1 :: decisions (f L c.1 c.2).2 calls

/-- The limiter after a sequential run. -/
def limiterAfter : RateLimiter → List Call → RateLimiter
  | L, [] => L
  | L, c :: calls => limiterAfter (f L c.1 c.2).2 calls

theorem decisions_append (L : RateLimiter) (calls calls' : List Call) :
    decisions f L (calls ++ calls') =
      decisions f L calls ++ decisions f (limiterAfter f L calls) calls' := by
  induction calls generalizing L with
  | nil => rfl
  | cons c calls ih => simp [decisions, limiterAfter, ih]

theorem limiterAfter_concat (L : RateLimiter) (calls : List Call) (c : Call) :
    limiterAfter f L (calls ++ [c]) = (f (limiterAfter f L calls) c.1 c.2).2 := by
  induction calls generalizing L with
  | nil => rfl
  | cons d calls ih => exact ih _

theorem length_decisions (L : RateLimiter) (calls : List Call) :
    (decisions f L calls).length = calls.length := by
  induction calls generalizing L with
  | nil => rfl
  | cons c calls ih => simp [decisions, ih]

end Runs

/-- The calls come at non-decreasing times, the first one no earlier than `now`. -/
def Ordered (now : ℚ) (calls : List Call) : Prop :=
  (now :: calls.map Prod.snd).IsChain (· ≤ ·)

theorem ordered_cons {now : ℚ} {c : Call} {calls : List Call} :
    Ordered now (c :: calls) ↔ now ≤ c.2 ∧ Ordered c.2 calls := by
  simp [Ordered]

/-- Time of the last call, or `now` when there is none. -/
def endTime (now : ℚ) (calls : List Call) : ℚ :=
  calls.foldl (fun _ c => c.2) now

theorem endTime_concat (now : ℚ) (calls : List Call) (c : Call) :
    endTime now (calls ++ [c]) = c.2 := by
  rw [endTime, List.foldl_append]
  rfl

theorem ordered_concat {c : Call} {calls : List Call} :
    ∀ {now : ℚ}, Ordered now (calls ++ [c]) ↔ Ordered now calls ∧ endTime now calls ≤ c.2 := by
  induction calls with
  | nil =>
      intro now
      simp [Ordered, endTime]
  | cons d calls ih =>
      intro now
      rw [List.cons_append, ordered_cons, ordered_cons, ih, and_assoc]
      rfl

theorem Ordered.append {calls' : List Call} :
    ∀ {now : ℚ} {calls : List Call}, Ordered now calls →
      Ordered (endTime now calls) calls' → Ordered now (calls ++ calls')
  | _, [], _, h => h
  | _, c :: calls, h, h' => by
      rw [ordered_cons] at h
      rw [List.cons_append, ordered_cons]
      exact ⟨h.1, Ordered.append h.2 h'⟩

/-- `is_allowed` as the code computes it. -/
def allowed : RateLimiter → Text → ℚ → Bool × RateLimiter := isAllowed true

/-- The same limiter without `_maybe_prune`. -/
def allowedUnpruned : RateLimiter → Text → ℚ → Bool × RateLimiter := serve

theorem allowed_fst (L : RateLimiter) (ip : Text) (now : ℚ) :
    (allowed L ip now).1 = (L.serve ip now).1 := by
  rw [allowed, isAllowed, if_pos rfl]

theorem allowed_snd (L : RateLimiter) (ip : Text) (now : ℚ) :
    (allowed L ip now).2 = (L.serve ip now).2.maybePrune now := rfl

@[simp] theorem maybePrune_capacity (L : RateLimiter) (now : ℚ) :
    (L.maybePrune now).capacity = L.capacity := by
  unfold maybePrune
  split <;> rfl

@[simp] theorem maybePrune_refillRate (L : RateLimiter) (now : ℚ) :
    (L.maybePrune now).refillRate = L.refillRate := by
  unfold maybePrune
  split <;> rfl

/-- Pruning keeps a bucket or removes one that is stale. -/
theorem get?_maybePrune (L : RateLimiter) (now : ℚ) (ip : Text) :
    (L.maybePrune now).buckets.get? ip = L.buckets.get? ip ∨
      ((L.maybePrune now).buckets.get? ip = none ∧
        ∃ b, L.buckets.get? ip = some b ∧ staleThreshold < now - b.lastRefill) := by
  unfold maybePrune
  split
  · exact Or.inl rfl
  · rw [get?_pruneStale]
    cases hb : L.buckets.get? ip with
    | none => exact Or.inl rfl
    | some b =>
        by_cases hstale : staleThreshold < now - b.lastRefill
        · refine Or.inr ⟨?_, b, rfl, hstale⟩
          simp only [Option.filter, hstale, decide_true, Bool.not_true, Bool.false_eq_true,
            if_false]
        · refine Or.inl ?_
          simp only [Option.filter, hstale, decide_false, Bool.not_false, if_true]

theorem Sound.maybePrune {L : RateLimiter} {now : ℚ} (h : L.Sound now) :
    (L.maybePrune now).Sound now where
  capacity_nonneg := by simpa using h.capacity_nonneg
  rate_nonneg := by simpa using h.rate_nonneg
  bucket ip b hb := by
    rw [maybePrune_capacity, maybePrune_refillRate]
    rcases get?_maybePrune L now ip with he | ⟨hn, -⟩
    · exact h.bucket ip b (he ▸ hb)
    · rw [hn] at hb
      cases hb

theorem Sound.allowed {L : RateLimiter} {now : ℚ} (h : L.Sound now) (ip : Text) :
    (allowed L ip now).2.Sound now :=
  Sound.maybePrune (h.serve ip)

/-! ## Sufficiency: a simulation between the two registries -/

/-- A stale bucket is full again, so its client loses and gains nothing. -/
theorem Sound.credit_maybePrune {L : RateLimiter} {now u : ℚ} (h : L.Sound now)
    (hthr : L.capacity ≤ 600 * L.refillRate) (ip : Text) (hu : now ≤ u) :
    (L.maybePrune now).credit ip u = L.credit ip u := by
  rcases get?_maybePrune L now ip with he | ⟨hn, b, hb, hstale⟩
  · unfold credit
    rw [he, maybePrune_capacity]
  · obtain ⟨hc, hr, hw, -⟩ := h.bucket ip b hb
    rw [credit_of_none hn, credit_of_some hb, maybePrune_capacity, TokenBucket.credit,
      refill, hc, hr]
    have hlong : 600 * L.refillRate ≤ (u - b.lastRefill) * L.refillRate := by
      refine mul_le_mul_of_nonneg_right ?_ h.rate_nonneg
      unfold staleThreshold at hstale
      linarith
    exact (min_eq_left (by linarith [hw.1])).symm

/-- Two limiters that give every client the same credit from `now` on. -/
structure Alike (now : ℚ) (P U : RateLimiter) : Prop where
  left : P.Sound now
  right : U.Sound now
  capacity : P.capacity = U.capacity
  refillRate : P.refillRate = U.refillRate
  credit : ∀ ip u, now ≤ u → P.credit ip u = U.credit ip u

theorem Alike.later {now now' : ℚ} {P U : RateLimiter} (h : Alike now P U)
    (hle : now ≤ now') : Alike now' P U where
  left := h.left.later hle
  right := h.right.later hle
  capacity := h.capacity
  refillRate := h.refillRate
  credit ip u hu := h.credit ip u (hle.trans hu)

/-- One call returns the same decision on both sides and keeps them alike. -/
theorem Alike.step {now : ℚ} {P U : RateLimiter} (h : Alike now P U)
    (hthr : P.capacity ≤ 600 * P.refillRate) (ip : Text) :
    (allowed P ip now).1 = (allowedUnpruned U ip now).1 ∧
      Alike now (allowed P ip now).2 (allowedUnpruned U ip now).2 := by
  have hnow := h.credit ip now le_rfl
  have hserve := h.left.serve ip
  constructor
  · rw [allowed_fst, allowedUnpruned, h.left.serve_fst, h.right.serve_fst, hnow]
  · refine ⟨Sound.allowed h.left ip, h.right.serve ip, ?_, ?_, ?_⟩
    · simpa [allowed_snd, allowedUnpruned] using h.capacity
    · simpa [allowed_snd, allowedUnpruned] using h.refillRate
    · intro ip' u hu
      rw [allowed_snd, Sound.credit_maybePrune hserve (by simpa using hthr) ip' hu,
        allowedUnpruned, h.left.credit_serve, h.right.credit_serve]
      split
      · rw [h.capacity, h.refillRate, hnow]
      · exact h.credit ip' u hu

theorem Alike.decisions_eq {calls : List Call} :
    ∀ {now : ℚ} {P U : RateLimiter}, Alike now P U →
      P.capacity ≤ 600 * P.refillRate → Ordered now calls →
      decisions allowed P calls = decisions allowedUnpruned U calls := by
  induction calls with
  | nil =>
      intros
      rfl
  | cons c calls ih =>
      intro now P U h hthr hord
      rw [ordered_cons] at hord
      obtain ⟨hdec, hnext⟩ := (h.later hord.1).step hthr c.1
      simp only [decisions]
      rw [hdec, ih hnext (by simpa [allowed_snd] using hthr) hord.2]

theorem Alike.create {capacity refillRate t₀ : ℚ} (hc : 0 ≤ capacity)
    (hr : 0 ≤ refillRate) :
    Alike t₀ (RateLimiter.create capacity refillRate t₀)
      (RateLimiter.create capacity refillRate t₀) where
  left := Sound.create hc hr
  right := Sound.create hc hr
  capacity := rfl
  refillRate := rfl
  credit _ _ _ := rfl

/-! ## Necessity: a run that observes the pruning -/

/-- A limiter with the given parameters in the middle of a run. -/
structure Running (capacity refillRate now : ℚ) (L : RateLimiter) : Prop where
  sound : L.Sound now
  capacity_eq : L.capacity = capacity
  refillRate_eq : L.refillRate = refillRate

section Necessity

variable {c r : ℚ}

theorem Running.allowed {now : ℚ} {L : RateLimiter} (h : Running c r now L)
    (ip : Text) : Running c r now (allowed L ip now).2 where
  sound := Sound.allowed h.sound ip
  capacity_eq := by simpa [allowed_snd] using h.capacity_eq
  refillRate_eq := by simpa [allowed_snd] using h.refillRate_eq

theorem Running.allowedUnpruned {now : ℚ} {L : RateLimiter} (h : Running c r now L)
    (ip : Text) : Running c r now (allowedUnpruned L ip now).2 where
  sound := h.sound.serve ip
  capacity_eq := (serve_capacity L ip now).trans h.capacity_eq
  refillRate_eq := (serve_refillRate L ip now).trans h.refillRate_eq

theorem Running.later {now now' : ℚ} {L : RateLimiter} (h : Running c r now L)
    (hle : now ≤ now') : Running c r now' L where
  sound := h.sound.later hle
  capacity_eq := h.capacity_eq
  refillRate_eq := h.refillRate_eq

theorem Running.credit_later {now u : ℚ} {L : RateLimiter} (h : Running c r now L)
    (ip : Text) (hu : now ≤ u) :
    L.credit ip u = refill c r (L.credit ip now) (u - now) := by
  rw [h.sound.credit_later ip hu, h.capacity_eq, h.refillRate_eq]

theorem Running.credit_le {now u : ℚ} {L : RateLimiter} (h : Running c r now L)
    (ip : Text) (hu : now ≤ u) : L.credit ip u ≤ c := by
  rw [h.credit_later ip hu]
  exact min_le_left _ _

/-- The bucket of the client served last has just been refilled, so it stays. -/
theorem get?_allowed_self (L : RateLimiter) (ip : Text) (now : ℚ) :
    (RateLimit.allowed L ip now).2.buckets.get? ip =
      some ((L.getOrCreateBucket ip now).1.consume now).2 := by
  have hserve : (L.serve ip now).2.buckets.get? ip =
      some ((L.getOrCreateBucket ip now).1.consume now).2 := by
    rw [get?_serve, if_pos rfl]
  rw [allowed_snd]
  rcases get?_maybePrune (L.serve ip now).2 now ip with he | ⟨-, b, hb, hstale⟩
  · rw [he, hserve]
  · rw [hserve, Option.some.injEq] at hb
    subst hb
    rw [TokenBucket.consume_lastRefill, sub_self] at hstale
    unfold staleThreshold at hstale
    linarith

theorem Running.credit_allowed_self {now : ℚ} {L : RateLimiter}
    (h : Running c r now L) (ip : Text) (u : ℚ) :
    (RateLimit.allowed L ip now).2.credit ip u =
      refill c r (spend (L.credit ip now)) (u - now) := by
  have hserve : (L.serve ip now).2.buckets.get? ip =
      some ((L.getOrCreateBucket ip now).1.consume now).2 := by
    rw [get?_serve, if_pos rfl]
  rw [credit_of_some (get?_allowed_self L ip now), ← credit_of_some hserve,
    h.sound.credit_serve, if_pos rfl, h.capacity_eq, h.refillRate_eq]

theorem Running.credit_unpruned_self {now : ℚ} {L : RateLimiter}
    (h : Running c r now L) (ip : Text) (u : ℚ) :
    (RateLimit.allowedUnpruned L ip now).2.credit ip u =
      refill c r (spend (L.credit ip now)) (u - now) := by
  rw [RateLimit.allowedUnpruned, h.sound.credit_serve, if_pos rfl, h.capacity_eq,
    h.refillRate_eq]

theorem refill_now {x : ℚ} (hx : x ≤ c) (now : ℚ) : refill c r x (now - now) = x := by
  simp [refill, hx]

/-- Waiting for the first whole token. -/
theorem refill_whole_token (hc : 1 ≤ c) (hr : 0 < r) (x now : ℚ) :
    refill c r x (now + (1 - x) / r - now) = 1 := by
  have : x + (now + (1 - x) / r - now) * r = 1 := by
    field_simp
    ring
  rw [refill, this, min_eq_right hc]

/-- A difference in credit shows at once when the smaller side is out of tokens. -/
theorem exists_difference_of_lt_one (hc : 1 ≤ c) (hr : 0 < r) (ip : Text)
    {now : ℚ} {P U : RateLimiter}
    (hP : Running c r now P) (hU : Running c r now U)
    (hlt : U.credit ip now < P.credit ip now) (hone : U.credit ip now < 1) :
    ∃ calls, Ordered now calls ∧
      decisions allowed P calls ≠ decisions allowedUnpruned U calls := by
  have tell : ∀ T, now ≤ T → 1 ≤ P.credit ip T → U.credit ip T < 1 →
      ∃ calls, Ordered now calls ∧
        decisions allowed P calls ≠ decisions allowedUnpruned U calls := by
    intro T hT hPT hUT
    refine ⟨[(ip, T)], ordered_cons.mpr ⟨hT, List.isChain_singleton _⟩, ?_⟩
    simp only [decisions, allowed_fst, allowedUnpruned,
      (hP.sound.later hT).serve_fst, (hU.sound.later hT).serve_fst]
    simp [hPT, hUT]
  rcases lt_or_ge (P.credit ip now) 1 with hlow | hhigh
  · have hwait : 0 ≤ (1 - P.credit ip now) / r := div_nonneg (by linarith) hr.le
    have hT : now ≤ now + (1 - P.credit ip now) / r := by linarith
    refine tell _ hT ?_ ?_
    · rw [hP.credit_later ip hT, refill_whole_token hc hr]
    · rw [hU.credit_later ip hT]
      have hgain : (now + (1 - P.credit ip now) / r - now) * r =
          1 - P.credit ip now := by
        field_simp
        ring
      have := min_le_right c
        (U.credit ip now + (now + (1 - P.credit ip now) / r - now) * r)
      rw [hgain] at this
      rw [refill, hgain]
      linarith
  · exact tell now le_rfl hhigh hone

/-- A client with more credit on one side can be told apart by further calls. -/
theorem exists_difference (hc : 1 ≤ c) (hr : 0 < r) (ip : Text) (n : ℕ)
    {now : ℚ} {P U : RateLimiter}
    (hP : Running c r now P) (hU : Running c r now U)
    (hlt : U.credit ip now < P.credit ip now) (hn : U.credit ip now < n) :
    ∃ calls, Ordered now calls ∧
      decisions allowed P calls ≠ decisions allowedUnpruned U calls := by
  induction n generalizing P U with
  | zero =>
      exact exists_difference_of_lt_one hc hr ip hP hU hlt (by push_cast at hn; linarith)
  | succ n ih =>
      rcases lt_or_ge (U.credit ip now) 1 with hone | hone
      · exact exists_difference_of_lt_one hc hr ip hP hU hlt hone
      · have hPc := hP.credit_le ip le_rfl
        have hP' : (allowed P ip now).2.credit ip now = P.credit ip now - 1 := by
          rw [hP.credit_allowed_self, spend, if_pos (hone.trans hlt.le)]
          exact refill_now (by linarith) now
        have hU' : (allowedUnpruned U ip now).2.credit ip now = U.credit ip now - 1 := by
          rw [hU.credit_unpruned_self, spend, if_pos hone]
          exact refill_now (by linarith) now
        push_cast at hn
        obtain ⟨calls, hord, hne⟩ :=
          ih (hP.allowed ip) (hU.allowedUnpruned ip) (by linarith) (by linarith)
        refine ⟨(ip, now) :: calls, ordered_cons.mpr ⟨le_rfl, hord⟩, ?_⟩
        intro he
        simp only [decisions, List.cons.injEq] at he
        exact hne he.2

/-- Both limiters right after the bucket of `ip` has been emptied at `T`. -/
structure Emptied (c r : ℚ) (ip : Text) (T : ℚ) (P U : RateLimiter) : Prop where
  left : Running c r T P
  right : Running c r T U
  lastPrune_le : P.lastPrune ≤ T
  bucket : ∃ b, P.buckets.get? ip = some b ∧ b.lastRefill = T
  credit : U.credit ip T = 0

theorem allowed_lastPrune_le {L : RateLimiter} {now : ℚ} (h : L.lastPrune ≤ now)
    (ip : Text) : (allowed L ip now).2.lastPrune ≤ now := by
  rw [allowed_snd, maybePrune]
  split
  · simpa using h
  · exact le_rfl

/-- Waiting for the last token to be complete and spending it empties the bucket. -/
theorem exists_emptied_of_lt_one (hc : 1 ≤ c) (hr : 0 < r) (ip : Text)
    {now : ℚ} {P U : RateLimiter}
    (hP : Running c r now P) (hU : Running c r now U)
    (hlast : P.lastPrune ≤ now) (hone : U.credit ip now < 1) :
    ∃ calls, Ordered now calls ∧
      Emptied c r ip (endTime now calls)
        (limiterAfter allowed P calls) (limiterAfter allowedUnpruned U calls) := by
  have hT : now ≤ now + (1 - U.credit ip now) / r := by
    have : 0 ≤ (1 - U.credit ip now) / r := div_nonneg (by linarith) hr.le
    linarith
  set T := now + (1 - U.credit ip now) / r with hTdef
  have hwhole : U.credit ip T = 1 := by
    rw [hU.credit_later ip hT, hTdef, refill_whole_token hc hr]
  refine ⟨[(ip, T)], ordered_cons.mpr ⟨hT, List.isChain_singleton _⟩, ?_⟩
  exact
    { left := (hP.later hT).allowed ip
      right := (hU.later hT).allowedUnpruned ip
      lastPrune_le := allowed_lastPrune_le (hlast.trans hT) ip
      bucket := ⟨_, get?_allowed_self P ip T, TokenBucket.consume_lastRefill _ _⟩
      credit := by
        show (allowedUnpruned U ip T).2.credit ip T = 0
        rw [(hU.later hT).credit_unpruned_self, hwhole, spend, if_pos le_rfl, sub_self]
        exact refill_now (by linarith) T }

/-- A client can empty its bucket exactly, after spending the whole tokens. -/
theorem exists_emptied (hc : 1 ≤ c) (hr : 0 < r) (ip : Text) (n : ℕ)
    {now : ℚ} {P U : RateLimiter}
    (hP : Running c r now P) (hU : Running c r now U)
    (hlast : P.lastPrune ≤ now) (hn : U.credit ip now < n) :
    ∃ calls, Ordered now calls ∧
      Emptied c r ip (endTime now calls)
        (limiterAfter allowed P calls) (limiterAfter allowedUnpruned U calls) := by
  induction n generalizing P U with
  | zero =>
      exact exists_emptied_of_lt_one hc hr ip hP hU hlast (by push_cast at hn; linarith)
  | succ n ih =>
      rcases lt_or_ge (U.credit ip now) 1 with hone | hone
      · exact exists_emptied_of_lt_one hc hr ip hP hU hlast hone
      · have hUc := hU.credit_le ip le_rfl
        have hU' : (allowedUnpruned U ip now).2.credit ip now = U.credit ip now - 1 := by
          rw [hU.credit_unpruned_self, spend, if_pos hone]
          exact refill_now (by linarith) now
        push_cast at hn
        obtain ⟨calls, hord, hemp⟩ :=
          ih (hP.allowed ip) (hU.allowedUnpruned ip) (allowed_lastPrune_le hlast ip)
            (by linarith)
        exact ⟨(ip, now) :: calls, ordered_cons.mpr ⟨le_rfl, hord⟩, hemp⟩

/-- A call of another client, more than the stale threshold later, prunes the
emptied bucket before it is full again. -/
theorem Emptied.pruned (hr : 0 < r) (hlong : 600 * r < c) {ip other : Text}
    (hne : other ≠ ip) {T : ℚ} {P U : RateLimiter} (h : Emptied c r ip T P U) :
    ∃ T', T ≤ T' ∧
      Running c r T' (allowed P other T').2 ∧
      Running c r T' (allowedUnpruned U other T').2 ∧
      (allowedUnpruned U other T').2.credit ip T' <
        (allowed P other T').2.credit ip T' := by
  set ε := (c / r - 600) / 2 with hε
  have hcr : 600 < c / r := by
    rw [lt_div_iff₀ hr]
    exact hlong
  have hpos : 0 < ε := by
    rw [hε]
    linarith
  have hT : T ≤ T + (600 + ε) := by linarith
  have hgain : (600 + ε) * r < c := by
    have hlt : 600 + ε < c / r := by
      rw [hε]
      linarith
    calc (600 + ε) * r < c / r * r := mul_lt_mul_of_pos_right hlt hr
      _ = c := by field_simp
  refine ⟨T + (600 + ε), hT, (h.left.later hT).allowed other,
    (h.right.later hT).allowedUnpruned other, ?_⟩
  have hU : (allowedUnpruned U other (T + (600 + ε))).2.credit ip (T + (600 + ε)) =
      U.credit ip (T + (600 + ε)) := by
    rw [allowedUnpruned, (h.right.later hT).sound.credit_serve, if_neg hne]
  have hUlow : U.credit ip (T + (600 + ε)) < c := by
    rw [h.right.credit_later ip hT, h.credit]
    refine lt_of_le_of_lt (min_le_right _ _) ?_
    calc 0 + (T + (600 + ε) - T) * r = (600 + ε) * r := by ring
      _ < c := hgain
  have hP : (allowed P other (T + (600 + ε))).2.buckets.get? ip = none := by
    obtain ⟨b, hb, hlast⟩ := h.bucket
    have hserve : (P.serve other (T + (600 + ε))).2.buckets.get? ip = some b := by
      rw [get?_serve, if_neg hne, hb]
    have hdue : ¬ T + (600 + ε) - (P.serve other (T + (600 + ε))).2.lastPrune < 60 := by
      have := h.lastPrune_le
      rw [serve_lastPrune]
      linarith
    have hstale : staleThreshold < T + (600 + ε) - b.lastRefill := by
      unfold staleThreshold
      linarith
    rw [allowed_snd, maybePrune, if_neg hdue, get?_pruneStale, hserve]
    simp only [Option.filter, hstale, decide_true, Bool.not_true, Bool.false_eq_true, if_false]
  rw [hU, credit_of_none hP, ((h.left.later hT).allowed other).capacity_eq]
  exact hUlow

/-- Below the threshold some sequential run observes the pruning. -/
theorem exists_observing_run (hc : 1 ≤ c) (hr : 0 < r) (hlong : 600 * r < c) (t₀ : ℚ) :
    ∃ calls, Ordered t₀ calls ∧
      decisions allowed (RateLimiter.create c r t₀) calls ≠
        decisions allowedUnpruned (RateLimiter.create c r t₀) calls := by
  have hstart : Running c r t₀ (RateLimiter.create c r t₀) :=
    ⟨Sound.create (by linarith) hr.le, rfl, rfl⟩
  obtain ⟨n, hn⟩ := exists_nat_gt ((RateLimiter.create c r t₀).credit (txt "a") t₀)
  obtain ⟨drain, hdrain, hemp⟩ :=
    exists_emptied hc hr (txt "a") n hstart hstart le_rfl hn
  obtain ⟨T', hT', hP', hU', hlt⟩ :=
    hemp.pruned hr hlong (show txt "b" ≠ txt "a" by decide)
  obtain ⟨m, hm⟩ := exists_nat_gt
    ((allowedUnpruned (limiterAfter allowedUnpruned (RateLimiter.create c r t₀) drain)
      (txt "b") T').2.credit (txt "a") T')
  obtain ⟨calls, hcalls, hne⟩ := exists_difference hc hr (txt "a") m hP' hU' hlt hm
  refine ⟨drain ++ (txt "b", T') :: calls,
    hdrain.append (ordered_cons.mpr ⟨hT', hcalls⟩), ?_⟩
  rw [decisions_append, decisions_append]
  intro he
  have htail := List.append_inj_right he (by simp [length_decisions])
  simp only [decisions, List.cons.injEq] at htail
  exact hne htail.2

end Necessity

/--
**When pruning is unobservable.**  The limiter returns the same decisions as one
that never prunes, on every sequential run at non-decreasing times, exactly when
the stale threshold of 600 seconds refills a bucket completely.
-/
theorem pruning_unobservable_iff (capacity refillRate : ℚ)
    (hcap : 1 ≤ capacity) (hrate : 0 < refillRate) :
    (∀ (t₀ : ℚ) (calls : List Call), Ordered t₀ calls →
      decisions allowed (RateLimiter.create capacity refillRate t₀) calls =
        decisions allowedUnpruned (RateLimiter.create capacity refillRate t₀) calls) ↔
      capacity ≤ 600 * refillRate := by
  constructor
  · intro h
    by_contra hlong
    obtain ⟨calls, hord, hne⟩ :=
      exists_observing_run hcap hrate (not_le.mp hlong) 0
    exact hne (h 0 calls hord)
  · intro hthr t₀ calls hord
    exact (Alike.create (by linarith) hrate.le).decisions_eq hthr hord

/-- The shipped configuration, 20 tokens at 2 per second, is on the safe side. -/
theorem pruning_unobservable_shipped :
    (∀ (t₀ : ℚ) (calls : List Call), Ordered t₀ calls →
      decisions allowed (RateLimiter.create 20 2 t₀) calls =
        decisions allowedUnpruned (RateLimiter.create 20 2 t₀) calls) ∧
      (20 : ℚ) ≤ 600 * 2 := by
  have hshipped : (20 : ℚ) ≤ 600 * 2 := by norm_num
  exact ⟨(pruning_unobservable_iff 20 2 (by norm_num) (by norm_num)).mpr hshipped, hshipped⟩

/-- One token at 0.001 per second: the client that spent it at time 0 is served
again at time 601, because another client's call has just pruned its bucket. -/
theorem pruning_observed :
    ¬ ∀ (capacity refillRate : ℚ), 1 ≤ capacity → 0 < refillRate →
      ∀ (t₀ : ℚ) (calls : List Call), Ordered t₀ calls →
        decisions allowed (RateLimiter.create capacity refillRate t₀) calls =
          decisions allowedUnpruned (RateLimiter.create capacity refillRate t₀) calls := by
  intro h
  have hrun : Ordered 0 [(txt "a", 0), (txt "b", 601), (txt "a", 601)] := by
    simp [Ordered]
  have he := h 1 (1 / 1000) le_rfl (by norm_num) 0 _ hrun
  have hpruned :
      decisions allowed (RateLimiter.create 1 (1 / 1000) 0)
        [(txt "a", 0), (txt "b", 601), (txt "a", 601)] = [true, true, true] := by
    decide +kernel
  have hkept :
      decisions allowedUnpruned (RateLimiter.create 1 (1 / 1000) 0)
        [(txt "a", 0), (txt "b", 601), (txt "a", 601)] = [true, true, false] := by
    decide +kernel
  rw [hpruned, hkept] at he
  simp at he

end RateLimit
end NetworkProxy
