import Mathlib.Algebra.Order.Field.Basic
import Mathlib.Algebra.Order.Floor.Ring
import Mathlib.Data.Finset.Max
import Mathlib.Order.Interval.Finset.Nat
import Mathlib.Tactic.Linarith
import Mathlib.Tactic.Positivity

/-!
# The token bucket law

A bucket holds at most `cap` tokens, gains `rate` tokens per unit of time and
gives one token to each admitted call.  Nothing here refers to a particular
program; times and amounts live in an arbitrary linearly ordered field.

Two descriptions of the same bucket are developed.

* **By calls.**  `level cap rate t n` is what call `n` finds when the calls come
  at times `t 1, t 2, ...` and the bucket is created full at `t 0`.  The lazily
  refilled, capped level is a minimum over all past windows (`le_level_iff`), so
  a call is admitted exactly when no window ending at it would be exceeded.
* **By grants.**  `Backed` says that a credit function accounts for all grants
  made so far.  Spending a token keeps the account and never breaks the window
  bound (`Backed.spend`, `WithinRate.spend`).
-/

namespace NetworkProxy
namespace TokenLaw

universe u

variable {K : Type u} [Field K] [LinearOrder K]

/-- Tokens after `dt` units of time without a call. -/
def refill (cap rate tokens dt : K) : K :=
  min cap (tokens + dt * rate)

/-- One admitted call takes one token from a level of at least one. -/
def spend (l : K) : K := if 1 ≤ l then l - 1 else l

section Calls

variable (cap rate : K) (t : ℕ → K)

/-- Tokens found by call `n`; index `0` is the creation of the full bucket. -/
def level : ℕ → K
  | 0 => cap
  | 1 => refill cap rate cap (t 1 - t 0)
  | n + 2 => refill cap rate (spend (level (n + 1))) (t (n + 2) - t (n + 1))

/-- Call `n` is admitted. -/
def Admits (n : ℕ) : Prop := 1 ≤ n ∧ 1 ≤ level cap rate t n

instance (n : ℕ) : Decidable (Admits cap rate t n) := by
  unfold Admits
  infer_instance

/-- Number of admitted calls with index in `[j, n)`. -/
def granted (j n : ℕ) : ℕ :=
  ((Finset.Ico j n).filter (Admits cap rate t)).card

/-- What is left in the bucket after call `n`. -/
def left (n : ℕ) : K :=
  if Admits cap rate t n then level cap rate t n - 1 else level cap rate t n

theorem level_succ (n : ℕ) :
    level cap rate t (n + 1) =
      refill cap rate (left cap rate t n) (t (n + 1) - t n) := by
  cases n with
  | zero =>
      simp [level, left, Admits]
  | succ n =>
      simp [level, left, Admits, spend]

theorem granted_self (n : ℕ) : granted cap rate t n n = 0 := by
  simp [granted]

theorem granted_succ {j n : ℕ} (h : j ≤ n) :
    granted cap rate t j (n + 1) =
      granted cap rate t j n + if Admits cap rate t n then 1 else 0 := by
  unfold granted
  rw [Nat.Ico_succ_right_eq_insert_Ico h, Finset.filter_insert]
  split
  · rw [Finset.card_insert_of_notMem (by simp)]
  · simp

/-- Creation is not a call, so it may be left out of a window. -/
theorem granted_zero_eq_one (n : ℕ) :
    granted cap rate t 0 n = granted cap rate t 1 n := by
  unfold granted
  congr 1
  ext i
  simp only [Finset.mem_filter, Finset.mem_Ico]
  constructor
  · rintro ⟨⟨_, hi⟩, ha⟩
    exact ⟨⟨ha.1, hi⟩, ha⟩
  · rintro ⟨⟨_, hi⟩, ha⟩
    exact ⟨⟨Nat.zero_le i, hi⟩, ha⟩

theorem granted_max_one (j n : ℕ) :
    granted cap rate t (max j 1) n = granted cap rate t j n := by
  cases j with
  | zero => exact (granted_zero_eq_one cap rate t n).symm
  | succ j => rw [max_eq_left (by omega)]

omit [Field K] in
theorem monotone_upto {t : ℕ → K} {N : ℕ} (ht : ∀ i, i < N → t i ≤ t (i + 1)) :
    ∀ {i j : ℕ}, i ≤ j → j ≤ N → t i ≤ t j := by
  intro i j hij hj
  induction j, hij using Nat.le_induction with
  | base => exact le_rfl
  | succ j hij ih => exact (ih (by omega)).trans (ht j (by omega))

variable {cap rate t} in
theorem level_le_cap (n : ℕ) : level cap rate t n ≤ cap := by
  cases n with
  | zero => exact le_rfl
  | succ n =>
      rw [level_succ]
      exact min_le_left _ _

variable [IsStrictOrderedRing K]

/--
The lazily refilled level is a minimum over all past windows.  The bucket
has `x` tokens for call `n` exactly when `x` more tokens fit into every window
from an earlier call (or the creation) up to call `n`.
-/
theorem le_level_iff (x : K) (n : ℕ) :
    x ≤ level cap rate t n ↔
      ∀ j, j ≤ n → x + granted cap rate t j n ≤ cap + rate * (t n - t j) := by
  induction n generalizing x with
  | zero =>
      simp [level, granted_self]
  | succ n ih =>
      have hleft : ∀ y : K,
          y ≤ left cap rate t n ↔
            ∀ j, j ≤ n →
              y + granted cap rate t j (n + 1) ≤ cap + rate * (t n - t j) := by
        intro y
        unfold left
        split
        · rename_i ha
          rw [le_sub_iff_add_le, ih]
          refine forall₂_congr fun j hj => ?_
          rw [granted_succ cap rate t hj, if_pos ha]
          push_cast
          rw [add_right_comm, add_assoc y]
        · rename_i ha
          rw [ih]
          refine forall₂_congr fun j hj => ?_
          rw [granted_succ cap rate t hj, if_neg ha, Nat.add_zero]
      rw [level_succ, refill, le_min_iff, ← sub_le_iff_le_add, hleft]
      constructor
      · rintro ⟨hcap, hold⟩ j hj
        rcases Nat.lt_or_ge j (n + 1) with hlt | hge
        · have := hold j (by omega)
          linarith
        · obtain rfl : j = n + 1 := by omega
          simpa [granted_self] using hcap
      · intro h
        constructor
        · simpa [granted_self] using h (n + 1) le_rfl
        · intro j hj
          have := h j (by omega)
          linarith

theorem admits_iff {n : ℕ} (hn : 1 ≤ n) :
    Admits cap rate t n ↔
      ∀ j, j ≤ n → 1 + (granted cap rate t j n : K) ≤ cap + rate * (t n - t j) := by
  rw [← le_level_iff]
  exact ⟨fun h => h.2, fun h => ⟨hn, h⟩⟩

variable {cap rate t}

theorem left_le_cap (n : ℕ) : left cap rate t n ≤ cap := by
  have : level cap rate t n ≤ cap := level_le_cap n
  unfold left
  split <;> linarith

theorem left_nonneg
    (hcap : 0 ≤ cap) (hrate : 0 ≤ rate) {N : ℕ}
    (ht : ∀ i, i < N → t i ≤ t (i + 1)) :
    ∀ n, n ≤ N → 0 ≤ left cap rate t n
  | 0, _ => by simpa [left, Admits, level] using hcap
  | n + 1, hn => by
      have ih := left_nonneg hcap hrate ht n (by omega)
      have hlevel : 0 ≤ level cap rate t (n + 1) := by
        rw [level_succ]
        have hstep := ht n (by omega)
        have : 0 ≤ (t (n + 1) - t n) * rate := mul_nonneg (by linarith) hrate
        exact le_min hcap (by linarith)
      unfold left
      split
      · rename_i ha
        linarith [ha.2]
      · exact hlevel

/-- No interval of time admits more than `cap + rate * length` calls. -/
theorem card_admits_interval_le
    (hcap : 0 ≤ cap) (hrate : 0 ≤ rate) (N : ℕ) {s e : K} (hse : s ≤ e) :
    ((((Finset.Icc 1 N).filter (Admits cap rate t)).filter
        (fun i => s ≤ t i ∧ t i ≤ e)).card : K) ≤ cap + rate * (e - s) := by
  set W := ((Finset.Icc 1 N).filter (Admits cap rate t)).filter
    (fun i => s ≤ t i ∧ t i ≤ e) with hW
  rcases W.eq_empty_or_nonempty with hempty | hne
  · have : 0 ≤ rate * (e - s) := mul_nonneg hrate (by linarith)
    rw [hempty]
    simp only [Finset.card_empty, Nat.cast_zero]
    linarith
  · have ha := W.min'_mem hne
    have hb := W.max'_mem hne
    set a := W.min' hne
    set b := W.max' hne
    simp only [hW, Finset.mem_filter, Finset.mem_Icc] at ha hb
    have hab : a ≤ b := W.min'_le b (W.max'_mem hne)
    have hsub : W ⊆ insert b ((Finset.Ico a b).filter (Admits cap rate t)) := by
      intro i hi
      have h1 := W.min'_le i hi
      have h2 := W.le_max' i hi
      have hi' := hi
      simp only [hW, Finset.mem_filter] at hi'
      rcases Nat.lt_or_ge i b with hlt | hge
      · exact Finset.mem_insert_of_mem
          (Finset.mem_filter.mpr ⟨Finset.mem_Ico.mpr ⟨h1, hlt⟩, hi'.1.2⟩)
      · rw [Nat.le_antisymm h2 hge]
        exact Finset.mem_insert_self _ _
    have hcard : W.card ≤ granted cap rate t a b + 1 :=
      (Finset.card_le_card hsub).trans (Finset.card_insert_le _ _)
    have hwin := (admits_iff cap rate t hb.1.1.1).mp hb.1.2 a hab
    have hlen : rate * (t b - t a) ≤ rate * (e - s) :=
      mul_le_mul_of_nonneg_left (by linarith [ha.2.1, hb.2.2]) hrate
    have hcast : (W.card : K) ≤ granted cap rate t a b + 1 := by
      exact_mod_cast hcard
    linarith

/-- A refused call would have exceeded the bound in some interval ending at it. -/
theorem refused_exceeds {N n : ℕ} (hn : 1 ≤ n) (hnN : n ≤ N)
    (ht : ∀ i, i < N → t i ≤ t (i + 1))
    (hrefused : ¬ Admits cap rate t n) :
    ∃ s, s ≤ t n ∧
      cap + rate * (t n - s) <
        1 + ((((Finset.Ico 1 n).filter (Admits cap rate t)).filter
          (fun i => s ≤ t i)).card : K) := by
  rw [admits_iff cap rate t hn] at hrefused
  push Not at hrefused
  obtain ⟨j, hj, hlt⟩ := hrefused
  refine ⟨t j, monotone_upto ht hj hnN, lt_of_lt_of_le hlt ?_⟩
  have hle : granted cap rate t j n ≤
      (((Finset.Ico 1 n).filter (Admits cap rate t)).filter
        (fun i => t j ≤ t i)).card := by
    rw [← granted_max_one]
    apply Finset.card_le_card
    intro i hi
    simp only [Finset.mem_filter, Finset.mem_Ico] at hi ⊢
    exact ⟨⟨⟨by omega, hi.1.2⟩, hi.2⟩, monotone_upto ht (by omega) (by omega)⟩
  have : (granted cap rate t j n : K) ≤ _ := Nat.cast_le.mpr hle
  linarith

end Calls

section Waiting

variable {cap rate tokens : K} [IsStrictOrderedRing K]

/-- Waiting for a token.  A bucket that can hold a token has one as soon as the time has
refilled what is missing. -/
theorem one_le_refill_iff (hcap : 1 ≤ cap) (hrate : 0 < rate) (d : K) :
    1 ≤ refill cap rate tokens d ↔ (1 - tokens) / rate ≤ d := by
  rw [refill, le_min_iff, div_le_iff₀ hrate, sub_le_iff_le_add']
  exact ⟨And.right, fun h => ⟨hcap, h⟩⟩

/-- In whole units of time, the wait is the deficit over the rate, rounded up. -/
theorem one_le_refill_int_iff [FloorRing K] (hcap : 1 ≤ cap) (hrate : 0 < rate) (d : ℤ) :
    1 ≤ refill cap rate tokens (d : K) ↔ ⌈(1 - tokens) / rate⌉ ≤ d := by
  rw [one_le_refill_iff hcap hrate, Int.ceil_le]

end Waiting

section Grants

/-- Number of grants at or after time `s`. -/
def grantsSince (s : K) (grants : List K) : ℕ :=
  grants.countP (fun g => s ≤ g)

/-- Number of grants in the interval `[s, e]`. -/
def grantsBetween (s e : K) (grants : List K) : ℕ :=
  grants.countP (fun g => s ≤ g ∧ g ≤ e)

/-- Every interval `[s, e]` holds at most `cap + rate * (e - s)` grants. -/
def WithinRate (cap rate : K) (grants : List K) : Prop :=
  ∀ s e, s ≤ e → (grantsBetween s e grants : K) ≤ cap + rate * (e - s)

/--
The credit `f` accounts for the grants: whatever is still available at `u`, put
on top of the grants since `s`, stays within the bound of `[s, u]`.
-/
def Backed (cap rate now : K) (f : K → K) (grants : List K) : Prop :=
  ∀ s u, s ≤ u → now ≤ u →
    f u + grantsSince s grants ≤ cap + rate * (u - s)

variable {cap rate now : K} {f : K → K} {grants : List K}

theorem Backed.congr {g : K → K} (h : Backed cap rate now f grants)
    (hfg : ∀ u, now ≤ u → g u = f u) :
    Backed cap rate now g grants := by
  intro s u hsu hu
  rw [hfg u hu]
  exact h s u hsu hu

theorem Backed.later {now' : K} (h : Backed cap rate now f grants)
    (hle : now ≤ now') : Backed cap rate now' f grants :=
  fun s u hsu hu => h s u hsu (hle.trans hu)

omit [Field K] in
theorem grantsBetween_le_since (s e : K) :
    grantsBetween s e grants ≤ grantsSince s grants := by
  apply List.countP_mono_left
  intro g _ hg
  simp only [decide_eq_true_eq] at hg ⊢
  exact hg.1

variable [IsStrictOrderedRing K]

theorem withinRate_nil (hcap : 0 ≤ cap) (hrate : 0 ≤ rate) :
    WithinRate cap rate ([] : List K) := by
  intro s e hse
  have : 0 ≤ rate * (e - s) := mul_nonneg hrate (by linarith)
  simp only [grantsBetween, List.countP_nil, Nat.cast_zero]
  linarith

theorem backed_nil (hrate : 0 ≤ rate) (hf : ∀ u, now ≤ u → f u ≤ cap) :
    Backed cap rate now f ([] : List K) := by
  intro s u hsu hu
  have : 0 ≤ rate * (u - s) := mul_nonneg hrate (by linarith)
  have := hf u hu
  simp only [grantsSince, List.countP_nil, Nat.cast_zero]
  linarith

/-- Granting a token that the credit still has keeps every interval in bound. -/
theorem WithinRate.spend (hw : WithinRate cap rate grants)
    (hb : Backed cap rate now f grants) (hrate : 0 ≤ rate)
    (hone : 1 ≤ f now) :
    WithinRate cap rate (now :: grants) := by
  intro s e hse
  by_cases hin : s ≤ now ∧ now ≤ e
  · have hcount : grantsBetween s e (now :: grants) = grantsBetween s e grants + 1 := by
      simp [grantsBetween, hin]
    have h1 := hb s now hin.1 le_rfl
    have h2 : (grantsBetween s e grants : K) ≤ grantsSince s grants :=
      Nat.cast_le.mpr (grantsBetween_le_since s e)
    have h3 : rate * (now - s) ≤ rate * (e - s) :=
      mul_le_mul_of_nonneg_left (by linarith [hin.2]) hrate
    rw [hcount]
    push_cast
    linarith
  · have hcount : grantsBetween s e (now :: grants) = grantsBetween s e grants := by
      simp [grantsBetween, hin]
    rw [hcount]
    exact hw s e hse

/-- After the grant, the refilled remainder accounts for one grant more. -/
theorem Backed.spend (hb : Backed cap rate now f grants) (hrate : 0 ≤ rate)
    (hpast : ∀ g, g ∈ grants → g ≤ now) :
    Backed cap rate now
      (fun u => refill cap rate (f now - 1) (u - now)) (now :: grants) := by
  intro s u hsu hu
  have hlen : 0 ≤ rate * (u - s) := mul_nonneg hrate (by linarith)
  by_cases hs : s ≤ now
  · have hcount : grantsSince s (now :: grants) = grantsSince s grants + 1 := by
      simp [grantsSince, hs]
    have h1 := hb s now hs le_rfl
    have h2 : refill cap rate (f now - 1) (u - now) ≤ f now - 1 + (u - now) * rate :=
      min_le_right _ _
    rw [hcount]
    push_cast
    linarith
  · have hcount : grantsSince s (now :: grants) = 0 := by
      simp only [grantsSince, List.countP_eq_zero, List.mem_cons, decide_eq_true_eq]
      rintro g (rfl | hg)
      · exact hs
      · intro hsg
        exact hs (hsg.trans (hpast g hg))
    have h2 : refill cap rate (f now - 1) (u - now) ≤ cap := min_le_left _ _
    rw [hcount]
    simp only [Nat.cast_zero]
    linarith

/-- A refusal leaves the account as it is; only the credit is refilled lazily. -/
theorem Backed.refuse (hb : Backed cap rate now f grants) (hrate : 0 ≤ rate)
    (hpast : ∀ g, g ∈ grants → g ≤ now) :
    Backed cap rate now
      (fun u => refill cap rate (f now) (u - now)) grants := by
  intro s u hsu hu
  have hlen : 0 ≤ rate * (u - s) := mul_nonneg hrate (by linarith)
  by_cases hs : s ≤ now
  · have h1 := hb s now hs le_rfl
    have h2 : refill cap rate (f now) (u - now) ≤ f now + (u - now) * rate :=
      min_le_right _ _
    linarith
  · have hcount : grantsSince s grants = 0 := by
      simp only [grantsSince, List.countP_eq_zero, decide_eq_true_eq]
      intro g hg hsg
      exact hs (hsg.trans (hpast g hg))
    have h2 : refill cap rate (f now) (u - now) ≤ cap := min_le_left _ _
    rw [hcount]
    simp only [Nat.cast_zero]
    linarith

end Grants

end TokenLaw
end NetworkProxy
