import Mathlib.Data.List.Basic
import Mathlib.Data.List.Chain
import Mathlib.Data.List.TakeWhile
import Mathlib.Order.Basic

/-!
# Splitting words at separators

The splitting functions of Python's `str` and `bytes`, on lists over an
arbitrary alphabet:

* `splitFirst` is `split(c, 1)` and `splitLast` is `rsplit(c, 1)`;
* `splitPair` is `split` at a two-letter separator;
* `breakOn` is `partition`: the parts around the first occurrence of a word;
* `splitWs` is `split(None, maxsplit)` and `stripBy` is `strip`.

`NoPair a b l` says that `l` does not contain the two-letter separator.
-/

namespace NetworkProxy
namespace Py

universe u

variable {α : Type u}

/-- Both ends freed of the letters satisfying `p`. -/
def stripBy (p : α → Bool) (l : List α) : List α :=
  ((l.dropWhile p).reverse.dropWhile p).reverse

/-- `l.split(None, maxsplit)` with the blanks given by `p`. -/
def splitWs (p : α → Bool) : Nat → List α → List (List α)
  | 0, l =>
      match l.dropWhile p with
      | [] => []
      | rest => [rest]
  | n + 1, l =>
      match l.dropWhile p with
      | [] => []
      | rest =>
          rest.takeWhile (fun c => !p c) ::
            splitWs p n (rest.dropWhile (fun c => !p c))

/-- No two adjacent letters of `l` are `a` and `b`. -/
def NoPair (a b : α) (l : List α) : Prop :=
  l.IsChain (fun x y => ¬ (x = a ∧ y = b))

theorem stripBy_isInfix (p : α → Bool) (l : List α) : stripBy p l <:+: l := by
  have h1 : l.dropWhile p <:+ l := List.dropWhile_suffix p
  have h2 : (l.dropWhile p).reverse.dropWhile p <:+ (l.dropWhile p).reverse :=
    List.dropWhile_suffix p
  have h3 : stripBy p l <+: l.dropWhile p := by
    rw [← List.reverse_suffix, stripBy, List.reverse_reverse]
    exact h2
  exact h3.isInfix.trans h1.isInfix

theorem stripBy_cons_of_pos {p : α → Bool} {x : α} (h : p x = true) (l : List α) :
    stripBy p (x :: l) = stripBy p l := by
  rw [stripBy, stripBy, List.dropWhile_cons_of_pos h]

/-- Nothing to strip from a list whose ends do not satisfy `p`. -/
theorem stripBy_eq_self {p : α → Bool} {l : List α}
    (hhead : ∀ x, l.head? = some x → p x = false)
    (hlast : ∀ x, l.getLast? = some x → p x = false) : stripBy p l = l := by
  have keep : ∀ m : List α, (∀ x, m.head? = some x → p x = false) → m.dropWhile p = m := by
    intro m hm
    cases m with
    | nil => rfl
    | cons x m =>
        rw [List.dropWhile_cons_of_neg]
        simp [hm x rfl]
  rw [stripBy, keep l hhead, keep l.reverse, List.reverse_reverse]
  intro x hx
  rw [List.head?_reverse] at hx
  exact hlast x hx

theorem getLast?_stripBy {p : α → Bool} {l : List α} {x : α}
    (h : (stripBy p l).getLast? = some x) : p x = false := by
  rw [stripBy, List.getLast?_reverse] at h
  have hnot := List.head?_dropWhile_not p (l.dropWhile p).reverse
  rw [h] at hnot
  simpa using hnot

theorem head?_stripBy {p : α → Bool} {l : List α} {x : α}
    (h : (stripBy p l).head? = some x) : p x = false := by
  have hpre : stripBy p l <+: l.dropWhile p := by
    rw [← List.reverse_suffix, stripBy, List.reverse_reverse]
    exact List.dropWhile_suffix p
  obtain ⟨t, ht⟩ := hpre
  have hnot := List.head?_dropWhile_not p l
  rw [← ht, List.head?_append, h] at hnot
  simpa using hnot

/-- A letter that does not satisfy `p` is left. -/
theorem stripBy_ne_nil {p : α → Bool} {l : List α} {x : α} (hx : x ∈ l) (hp : p x = false) :
    stripBy p l ≠ [] := by
  intro h
  rw [stripBy, List.reverse_eq_nil_iff, List.dropWhile_eq_nil_iff] at h
  have hall : ∀ y, y ∈ l.dropWhile p → p y = true := fun y hy => h y (List.mem_reverse.mpr hy)
  have hnot := List.head?_dropWhile_not p l
  cases hdrop : l.dropWhile p with
  | nil =>
      rw [List.dropWhile_eq_nil_iff.mp hdrop x hx] at hp
      cases hp
  | cons y ys =>
      rw [hdrop] at hnot
      have hfirst : p y = false := hnot
      rw [hall y (by simp [hdrop])] at hfirst
      cases hfirst

/-- What is stripped are letters that satisfy `p`. -/
theorem exists_of_stripBy (p : α → Bool) (l : List α) :
    ∃ pre post, l = pre ++ stripBy p l ++ post ∧
      (∀ x, x ∈ pre → p x = true) ∧ ∀ x, x ∈ post → p x = true := by
  refine ⟨l.takeWhile p, ((l.dropWhile p).reverse.takeWhile p).reverse, ?_, ?_, ?_⟩
  · have hdrop : l.dropWhile p =
        stripBy p l ++ ((l.dropWhile p).reverse.takeWhile p).reverse := by
      rw [stripBy, ← List.reverse_append, List.takeWhile_append_dropWhile, List.reverse_reverse]
    rw [List.append_assoc, ← hdrop, List.takeWhile_append_dropWhile]
  · exact fun x hx => List.mem_takeWhile_imp hx
  · exact fun x hx => List.mem_takeWhile_imp (List.mem_reverse.mp hx)

/-- Letters that satisfy `p` around a list are stripped with it. -/
theorem stripBy_append {p : α → Bool} {pre l post : List α} (hpre : ∀ x, x ∈ pre → p x = true)
    (hpost : ∀ x, x ∈ post → p x = true) : stripBy p (pre ++ l ++ post) = stripBy p l := by
  have hback : ∀ x, x ∈ post.reverse → p x = true := fun x hx => hpost x (List.mem_reverse.mp hx)
  rw [List.append_assoc, stripBy, stripBy, List.dropWhile_append_of_pos hpre, List.dropWhile_append]
  cases hdrop : l.dropWhile p with
  | nil =>
      have hnil : post.dropWhile p = [] := List.dropWhile_eq_nil_iff.mpr hpost
      rw [List.isEmpty_nil, if_pos rfl, hnil]
  | cons x xs =>
      rw [List.isEmpty_cons, if_neg Bool.false_ne_true, List.reverse_append,
        List.dropWhile_append_of_pos hback]

/-- A single word, with blanks around it, is split into one piece at most. -/
theorem length_splitWs_le_one {p : α → Bool} {pre word post : List α}
    (hpre : ∀ x, x ∈ pre → p x = true) (hword : ∀ x, x ∈ word → p x = false)
    (hpost : ∀ x, x ∈ post → p x = true) (n : ℕ) :
    (splitWs p n (pre ++ word ++ post)).length ≤ 1 := by
  have hblank : ∀ n, splitWs p n post = [] := by
    intro n
    have hdrop : post.dropWhile p = [] := List.dropWhile_eq_nil_iff.mpr hpost
    cases n <;> rw [splitWs, hdrop]
  have hdrop : (pre ++ word ++ post).dropWhile p = (word ++ post).dropWhile p := by
    rw [List.append_assoc, List.dropWhile_append_of_pos hpre]
  cases n with
  | zero =>
      rw [splitWs]
      split <;> simp
  | succ n =>
      cases word with
      | nil =>
          have hnil : (pre ++ [] ++ post).dropWhile p = [] := by
            rw [hdrop]
            exact List.dropWhile_eq_nil_iff.mpr hpost
          rw [splitWs, hnil]
          simp
      | cons x word =>
          have hkeep : (pre ++ (x :: word) ++ post).dropWhile p = x :: word ++ post := by
            rw [hdrop, List.cons_append,
              List.dropWhile_cons_of_neg (by simp [hword x List.mem_cons_self])]
          have hrest : (x :: word ++ post).dropWhile (fun c => !p c) =
              post.dropWhile (fun c => !p c) :=
            List.dropWhile_append_of_pos fun c hc => by simp [hword c hc]
          have hpostkeep : post.dropWhile (fun c => !p c) = post := by
            cases post with
            | nil => rfl
            | cons y post =>
                exact List.dropWhile_cons_of_neg (by simp [hpost y List.mem_cons_self])
          rw [splitWs, hkeep]
          dsimp only [List.cons_append]
          rw [← List.cons_append, hrest, hpostkeep, hblank, List.length_singleton]

/-- A bounded split cuts its first words out of the line, free of blanks. -/
theorem splitWs_two_words {p : α → Bool} {l v w r : List α}
    (h : splitWs p 2 l = [v, w, r]) :
    (∀ c, c ∈ v → p c = false) ∧ (∀ c, c ∈ w → p c = false) := by
  have take : ∀ m : List α, ∀ c, c ∈ m.takeWhile (fun c => !p c) → p c = false := by
    intro m c hc
    simpa using List.mem_takeWhile_imp hc
  cases h0 : l.dropWhile p with
  | nil => simp [splitWs, h0] at h
  | cons x xs =>
      simp only [splitWs, h0, List.cons.injEq] at h
      obtain ⟨rfl, h⟩ := h
      refine ⟨take _, ?_⟩
      split at h
      · simp at h
      · simp only [List.cons.injEq] at h
        obtain ⟨rfl, _⟩ := h
        exact take _

/-- Words of a bounded split are not empty. -/
theorem splitWs_two_ne_nil {p : α → Bool} {l v w r : List α} (h : splitWs p 2 l = [v, w, r]) :
    v ≠ [] ∧ w ≠ [] := by
  have take : ∀ {m : List α}, m.dropWhile p ≠ [] →
      (m.dropWhile p).takeWhile (fun c => !p c) ≠ [] := by
    intro m hm
    obtain ⟨x, xs, hx⟩ := List.exists_cons_of_ne_nil hm
    have hnot := List.head?_dropWhile_not p m
    rw [hx] at hnot ⊢
    rw [List.takeWhile_cons_of_pos (by simpa using hnot)]
    exact List.cons_ne_nil _ _
  cases h0 : l.dropWhile p with
  | nil => simp [splitWs, h0] at h
  | cons x xs =>
      have hv := take (m := l) (by simp [h0])
      simp only [splitWs, h0, List.cons.injEq] at h
      obtain ⟨rfl, h⟩ := h
      refine ⟨by rwa [h0] at hv, ?_⟩
      split at h
      · simp at h
      · rename_i hrest
        simp only [List.cons.injEq] at h
        obtain ⟨rfl, _⟩ := h
        exact take hrest

/-- The first word of a line is what stands before its first blank. -/
theorem splitWs_succ_append {p : α → Bool} {w : List α} {b : α} (n : ℕ) (rest : List α)
    (hne : w ≠ []) (hw : ∀ c, c ∈ w → p c = false) (hb : p b = true) :
    splitWs p (n + 1) (w ++ b :: rest) = w :: splitWs p n (b :: rest) := by
  have hdrop : (w ++ b :: rest).dropWhile p = w ++ b :: rest := by
    obtain ⟨x, xs, rfl⟩ := List.exists_cons_of_ne_nil hne
    rw [List.cons_append, List.dropWhile_cons_of_neg (by simp [hw x List.mem_cons_self])]
  have hword : ∀ c, c ∈ w → (fun c => !p c) c = true := fun c hc => by simp [hw c hc]
  have htake : (w ++ b :: rest).takeWhile (fun c => !p c) = w := by
    rw [List.takeWhile_append_of_pos hword, List.takeWhile_cons_of_neg (by simp [hb]),
      List.append_nil]
  have hrest : (w ++ b :: rest).dropWhile (fun c => !p c) = b :: rest := by
    rw [List.dropWhile_append_of_pos hword, List.dropWhile_cons_of_neg (by simp [hb])]
  have hnil : (w ++ b :: rest).dropWhile p ≠ [] := by simp [hdrop]
  rw [splitWs]
  split
  · contradiction
  · rw [hdrop, htake, hrest]

/-- A blank in front of a line does not matter. -/
theorem splitWs_cons_of_pos {p : α → Bool} {b : α} (hb : p b = true) (n : ℕ) (l : List α) :
    splitWs p n (b :: l) = splitWs p n l := by
  cases n <;> simp only [splitWs, List.dropWhile_cons_of_pos hb]

theorem NoPair.of_isInfix {a b : α} {l m : List α} (h : NoPair a b l) (hm : m <:+: l) :
    NoPair a b m :=
  List.IsChain.infix h hm

theorem noPair_of_not_mem {a b : α} : ∀ {l : List α}, a ∉ l → NoPair a b l
  | [], _ => List.isChain_nil
  | [x], _ => List.isChain_singleton x
  | x :: y :: l, h => by
      simp only [List.mem_cons, not_or] at h
      refine List.isChain_cons_cons.mpr ⟨fun hx => h.1 hx.1.symm, ?_⟩
      exact noPair_of_not_mem (by simpa [List.mem_cons, not_or] using h.2)

section Blocks

variable {β : Type u}

/-- `B` is what a letter-wise translation makes of the letter `x`: it produces
`a'` and `b'` only from `a` and `b`, and then nothing else. -/
def Block (a b : α) (a' b' : β) (x : α) (B : List β) : Prop :=
  B ≠ [] ∧ (a' ∈ B → x = a ∧ B = [a']) ∧ (b' ∈ B → x = b ∧ B = [b'])

theorem Block.noPair {a b x : α} {a' b' : β} {B : List β}
    (hx : Block a b a' b' x B) : NoPair a' b' B := by
  by_cases ha : a' ∈ B
  · rw [(hx.2.1 ha).2]
    exact List.isChain_singleton _
  · exact noPair_of_not_mem ha

/-- A letter-wise translation does not make a separator where there was none. -/
theorem NoPair.blocks {a b : α} {a' b' : β} :
    ∀ {l : List α} {bs : List (List β)},
      List.Forall₂ (Block a b a' b') l bs → NoPair a b l → NoPair a' b' bs.flatten
  | _, _, .nil, _ => List.isChain_nil
  | [x], [B], .cons hx .nil, _ => by
      rw [List.flatten_singleton]
      exact hx.noPair
  | x :: y :: l, B :: C :: bs, .cons hx (.cons hy hrest), h => by
      obtain ⟨hxy, ht⟩ := List.isChain_cons_cons.mp h
      have ih := NoPair.blocks (.cons hy hrest) ht
      rw [List.flatten_cons]
      refine List.isChain_append.mpr ⟨hx.noPair, ih, ?_⟩
      rintro u hu v hv ⟨rfl, rfl⟩
      have hub := List.mem_of_mem_getLast? hu
      have hvc : v ∈ C := by
        obtain ⟨c, C', rfl⟩ := List.exists_cons_of_ne_nil hy.1
        simp only [List.flatten_cons, List.cons_append, List.head?_cons,
          Option.mem_def, Option.some.injEq] at hv
        simp [hv]
      exact hxy ⟨(hx.2.1 hub).1, (hy.2.2 hvc).1⟩

end Blocks

section Join

variable {a b : α}

/-- Lines joined by the separator. -/
def joinPair (a b : α) : List (List α) → List α
  | [] => []
  | [l] => l
  | l :: m :: ls => l ++ a :: b :: joinPair a b (m :: ls)

/-- A nonempty line without the separator does not begin with it. -/
theorem not_prefix_line (hab : a ≠ b) {l X : List α} (hne : l ≠ [])
    (h : NoPair a b l) : ¬ [a, b] <+: l ++ a :: X := by
  cases l with
  | nil => exact absurd rfl hne
  | cons x l =>
      cases l with
      | nil =>
          intro hp
          simp only [List.cons_append, List.nil_append, List.cons_prefix_cons] at hp
          exact hab hp.2.1.symm
      | cons y l =>
          intro hp
          simp only [List.cons_append, List.cons_prefix_cons] at hp
          exact (List.isChain_cons_cons.mp h).1 ⟨hp.1.symm, hp.2.1.symm⟩

end Join

variable [DecidableEq α]

/-- The parts before and after the first `c`. -/
def splitFirst (c : α) : List α → Option (List α × List α)
  | [] => none
  | x :: xs =>
      if x = c then some ([], xs)
      else (splitFirst c xs).map (fun r => (x :: r.1, r.2))

/-- The parts before and after the last `c`. -/
def splitLast (c : α) : List α → Option (List α × List α)
  | [] => none
  | x :: xs =>
      match splitLast c xs with
      | some r => some (x :: r.1, r.2)
      | none => if x = c then some ([], xs) else none

/-- The parts before and after the first occurrence of `sep`. -/
def breakOn (sep : List α) : List α → Option (List α × List α)
  | [] => if sep = [] then some ([], []) else none
  | x :: xs =>
      if sep.isPrefixOf (x :: xs) then some ([], (x :: xs).drop sep.length)
      else (breakOn sep xs).map (fun r => (x :: r.1, r.2))

/-- Put a letter in front of the first piece. -/
def consHead (x : α) : List (List α) → List (List α)
  | [] => [[x]]
  | l :: ls => (x :: l) :: ls

/-- `l.split(ab)` for the two-letter separator `ab`. -/
def splitPair (a b : α) : List α → List (List α)
  | [] => [[]]
  | [x] => [[x]]
  | x :: y :: rest =>
      if x = a ∧ y = b then [] :: splitPair a b rest
      else consHead x (splitPair a b (y :: rest))

theorem splitFirst_eq_some {c : α} :
    ∀ {l p s : List α}, splitFirst c l = some (p, s) → l = p ++ c :: s ∧ c ∉ p
  | [], _, _, h => by simp [splitFirst] at h
  | x :: xs, p, s, h => by
      by_cases hx : x = c
      · simp only [splitFirst, hx, if_true, Option.some.injEq, Prod.mk.injEq] at h
        obtain ⟨rfl, rfl⟩ := h
        simp [hx]
      · simp only [splitFirst, hx, if_false, Option.map_eq_some_iff, Prod.mk.injEq] at h
        obtain ⟨⟨p', s'⟩, hr, rfl, rfl⟩ := h
        obtain ⟨rfl, hp⟩ := splitFirst_eq_some hr
        have hc : ¬ c = x := fun he => hx he.symm
        simp [hp, hc]

theorem splitFirst_eq_none {c : α} :
    ∀ {l : List α}, splitFirst c l = none ↔ c ∉ l
  | [] => by simp [splitFirst]
  | x :: xs => by
      by_cases hx : x = c
      · simp [splitFirst, hx]
      · have hc : ¬ c = x := fun he => hx he.symm
        simp [splitFirst, hx, hc, splitFirst_eq_none (c := c) (l := xs)]

theorem splitFirst_append {c : α} {p : List α} (hp : c ∉ p) (s : List α) :
    splitFirst c (p ++ c :: s) = some (p, s) := by
  induction p with
  | nil => simp [splitFirst]
  | cons x p ih =>
      simp only [List.mem_cons, not_or] at hp
      have hx : ¬ x = c := fun he => hp.1 he.symm
      simp [splitFirst, hx, ih hp.2]

theorem not_mem_of_splitLast_eq_none {c : α} :
    ∀ {l : List α}, splitLast c l = none → c ∉ l
  | [], _ => by simp
  | x :: xs, h => by
      cases hr : splitLast c xs with
      | some r => simp [splitLast, hr] at h
      | none =>
          simp only [splitLast, hr] at h
          have hx : ¬ x = c := by
            intro hx
            simp [hx] at h
          have ih := not_mem_of_splitLast_eq_none hr
          simp only [List.mem_cons, not_or]
          exact ⟨fun he => hx he.symm, ih⟩

theorem splitLast_eq_some {c : α} :
    ∀ {l p s : List α}, splitLast c l = some (p, s) → l = p ++ c :: s ∧ c ∉ s
  | [], _, _, h => by simp [splitLast] at h
  | x :: xs, p, s, h => by
      cases hr : splitLast c xs with
      | some r =>
          obtain ⟨p', s'⟩ := r
          simp only [splitLast, hr, Option.some.injEq, Prod.mk.injEq] at h
          obtain ⟨rfl, rfl⟩ := h
          obtain ⟨rfl, hs⟩ := splitLast_eq_some hr
          simp [hs]
      | none =>
          simp only [splitLast, hr] at h
          split at h
          · rename_i hx
            simp only [Option.some.injEq, Prod.mk.injEq] at h
            obtain ⟨rfl, rfl⟩ := h
            refine ⟨by simp [hx], ?_⟩
            exact not_mem_of_splitLast_eq_none hr
          · simp at h

theorem splitLast_of_not_mem {c : α} : ∀ {l : List α}, c ∉ l → splitLast c l = none
  | [], _ => rfl
  | x :: xs, h => by
      rw [List.mem_cons, not_or] at h
      rw [splitLast, splitLast_of_not_mem h.2]
      exact if_neg fun hx => h.1 hx.symm

theorem splitLast_append {c : α} {s : List α} (hs : c ∉ s) (p : List α) :
    splitLast c (p ++ c :: s) = some (p, s) := by
  induction p with
  | nil => rw [List.nil_append, splitLast, splitLast_of_not_mem hs, if_pos rfl]
  | cons x p ih => rw [List.cons_append, splitLast, ih]

theorem breakOn_eq_some {sep : List α} :
    ∀ {l p s : List α}, breakOn sep l = some (p, s) → l = p ++ sep ++ s
  | [], p, s, h => by
      by_cases hs : sep = []
      · simp only [breakOn, hs, if_true, Option.some.injEq, Prod.mk.injEq] at h
        obtain ⟨rfl, rfl⟩ := h
        simp [hs]
      · simp [breakOn, hs] at h
  | x :: xs, p, s, h => by
      by_cases hpre : sep.isPrefixOf (x :: xs)
      · simp only [breakOn, hpre, if_true, Option.some.injEq, Prod.mk.injEq] at h
        obtain ⟨rfl, rfl⟩ := h
        obtain ⟨t, ht⟩ := List.isPrefixOf_iff_prefix.mp hpre
        rw [← ht]
        simp
      · simp only [breakOn, hpre, Bool.false_eq_true, if_false, Option.map_eq_some_iff,
          Prod.mk.injEq] at h
        obtain ⟨⟨p', s'⟩, hr, rfl, rfl⟩ := h
        have := breakOn_eq_some hr
        simp [this]

/-- More input does not move the first occurrence. -/
theorem breakOn_append {sep : List α} (t : List α) :
    ∀ {l p s : List α}, breakOn sep l = some (p, s) →
      breakOn sep (l ++ t) = some (p, s ++ t)
  | [], p, s, h => by
      by_cases hs : sep = []
      · simp only [breakOn, hs, if_true, Option.some.injEq, Prod.mk.injEq] at h
        obtain ⟨rfl, rfl⟩ := h
        subst hs
        cases t <;> simp [breakOn]
      · simp [breakOn, hs] at h
  | x :: xs, p, s, h => by
      by_cases hpre : sep.isPrefixOf (x :: xs)
      · have hpre' : sep.isPrefixOf (x :: (xs ++ t)) := by
          rw [List.isPrefixOf_iff_prefix] at hpre ⊢
          exact hpre.trans (List.prefix_append (x :: xs) t)
        have hlen : sep.length ≤ (x :: xs).length :=
          (List.isPrefixOf_iff_prefix.mp hpre).length_le
        simp only [breakOn, hpre, if_true, Option.some.injEq, Prod.mk.injEq] at h
        obtain ⟨rfl, rfl⟩ := h
        rw [List.cons_append, breakOn, if_pos hpre', ← List.cons_append,
          List.drop_append_of_le_length hlen]
      · simp only [breakOn, hpre, Bool.false_eq_true, if_false, Option.map_eq_some_iff,
          Prod.mk.injEq] at h
        obtain ⟨⟨p', s'⟩, hr, rfl, rfl⟩ := h
        have ih := breakOn_append t hr
        by_cases hpre' : sep.isPrefixOf (x :: (xs ++ t))
        · exfalso
          apply hpre
          rw [List.isPrefixOf_iff_prefix] at hpre' ⊢
          have hl := breakOn_eq_some hr
          have hlen : sep.length ≤ (x :: xs).length := by
            rw [hl]
            simp
            omega
          rw [← List.cons_append] at hpre'
          exact List.prefix_of_prefix_length_le hpre' (List.prefix_append _ _) hlen
        · simp [breakOn, hpre', ih]

omit [DecidableEq α] in
/-- A block without a letter ends before the first word that the letter ends. -/
theorem prefix_of_append_singleton_prefix {c : α} {block word rest : List α} (hc : c ∉ block)
    (h : word ++ [c] <+: block ++ rest) : block <+: word := by
  rcases List.prefix_or_prefix_of_prefix (List.prefix_append block rest)
    ((List.prefix_append word [c]).trans h) with hle | ⟨more, hmore⟩
  · exact hle
  · cases more with
    | nil => exact ⟨[], by rw [← hmore, List.append_nil, List.append_nil]⟩
    | cons d more =>
        rw [← hmore, List.append_assoc, List.prefix_append_right_inj, List.cons_append,
          List.cons_prefix_cons] at h
        refine absurd ?_ hc
        rw [← hmore, h.1]
        exact List.mem_append_right _ List.mem_cons_self

theorem splitPair_ne_nil (a b : α) : ∀ l : List α, splitPair a b l ≠ []
  | [] => by simp [splitPair]
  | [x] => by simp [splitPair]
  | x :: y :: rest => by
      rw [splitPair]
      split
      · simp
      · cases splitPair a b (y :: rest) <;> simp [consHead]

/-- A piece without the separator is split off at the separator behind it. -/
theorem splitPair_append {a b : α} (hab : a ≠ b) (rest : List α) :
    ∀ {l : List α}, NoPair a b l →
      splitPair a b (l ++ a :: b :: rest) = l :: splitPair a b rest
  | [], _ => by simp [splitPair]
  | [x], _ => by
      have hx : ¬ (x = a ∧ a = b) := fun h => hab h.2
      simp [splitPair, hx, consHead]
  | x :: y :: l, h => by
      obtain ⟨hxy, ht⟩ := List.isChain_cons_cons.mp h
      have ih := splitPair_append hab rest ht
      rw [List.cons_append] at ih
      simp only [List.cons_append, splitPair, if_neg hxy, ih, consHead]

/-- The pieces before and after a separator. -/
theorem splitPair_append_sep {a b : α} (hab : a ≠ b) (rest : List α) :
    ∀ l : List α, splitPair a b (l ++ a :: b :: rest) = splitPair a b l ++ splitPair a b rest
  | [] => by simp [splitPair]
  | [x] => by
      have hx : ¬ (x = a ∧ a = b) := fun h => hab h.2
      simp [splitPair, hx, consHead]
  | x :: y :: l => by
      have ih := splitPair_append_sep hab rest (y :: l)
      rw [List.cons_append] at ih
      by_cases hxy : x = a ∧ y = b
      · simp only [List.cons_append, splitPair, if_pos hxy, splitPair_append_sep hab rest l]
      · obtain ⟨m, ms, hpieces⟩ := List.exists_cons_of_ne_nil (splitPair_ne_nil a b (y :: l))
        simp only [List.cons_append, splitPair, if_neg hxy, ih, hpieces, consHead]

omit [DecidableEq α] in
theorem joinPair_consHead (a b x : α) {ls : List (List α)} (h : ls ≠ []) :
    joinPair a b (consHead x ls) = x :: joinPair a b ls := by
  rcases ls with _ | ⟨l, _ | ⟨m, ls⟩⟩
  · exact absurd rfl h
  · rfl
  · rfl

/-- Joining the pieces gives back what was split. -/
theorem joinPair_splitPair (a b : α) : ∀ l : List α, joinPair a b (splitPair a b l) = l
  | [] => rfl
  | [_] => rfl
  | x :: y :: rest => by
      rw [splitPair]
      split
      · rename_i hxy
        obtain ⟨m, ms, hpieces⟩ := List.exists_cons_of_ne_nil (splitPair_ne_nil a b rest)
        have ih := joinPair_splitPair a b rest
        rw [hpieces] at ih ⊢
        rw [joinPair, ih, hxy.1, hxy.2]
        rfl
      · rw [joinPair_consHead a b x (splitPair_ne_nil a b _), joinPair_splitPair a b (y :: rest)]

theorem splitPair_eq_singleton {a b : α} :
    ∀ {l : List α}, NoPair a b l → splitPair a b l = [l]
  | [], _ => rfl
  | [_], _ => rfl
  | x :: y :: l, h => by
      obtain ⟨hxy, ht⟩ := List.isChain_cons_cons.mp h
      rw [splitPair, if_neg hxy, splitPair_eq_singleton ht, consHead]

theorem head_splitPair {a b y z : α} {rest l : List α} {ls : List (List α)}
    (h : splitPair a b (y :: rest) = (z :: l) :: ls) : z = y := by
  cases rest with
  | nil =>
      simp only [splitPair, List.cons.injEq] at h
      exact h.1.1.symm
  | cons w rest =>
      rw [splitPair] at h
      split at h
      · simp at h
      · cases hs : splitPair a b (w :: rest) with
        | nil => exact absurd hs (splitPair_ne_nil a b _)
        | cons l' ls' =>
            rw [hs, consHead] at h
            simp only [List.cons.injEq] at h
            exact h.1.1.symm

/-- Every piece is free of the separator. -/
theorem noPair_of_mem_splitPair (a b : α) :
    ∀ {l m : List α}, m ∈ splitPair a b l → NoPair a b m
  | [], m, h => by
      simp only [splitPair, List.mem_singleton] at h
      subst h
      exact List.isChain_nil
  | [x], m, h => by
      simp only [splitPair, List.mem_singleton] at h
      subst h
      exact List.isChain_singleton x
  | x :: y :: rest, m, h => by
      rw [splitPair] at h
      split at h
      · rcases List.mem_cons.mp h with rfl | h
        · exact List.isChain_nil
        · exact noPair_of_mem_splitPair a b h
      · rename_i hxy
        have ih := fun m' (hm' : m' ∈ splitPair a b (y :: rest)) =>
          noPair_of_mem_splitPair a b hm'
        cases hs : splitPair a b (y :: rest) with
        | nil => exact absurd hs (splitPair_ne_nil a b _)
        | cons l ls =>
            rw [hs, consHead] at h
            rcases List.mem_cons.mp h with rfl | h
            · have hl := ih l (by simp [hs])
              cases l with
              | nil => exact List.isChain_singleton x
              | cons z l =>
                  obtain rfl : z = y := head_splitPair hs
                  exact List.isChain_cons_cons.mpr ⟨hxy, hl⟩
            · exact ih m (by simp [hs, h])

section DoubleSeparator

variable {a b : α}

/-- A line that is followed by something else than the separator does not end
the head. -/
theorem breakOn_line (hab : a ≠ b) {X : List α} (hX : ¬ [a, b] <+: X) :
    ∀ {l : List α}, NoPair a b l →
      breakOn [a, b, a, b] (l ++ a :: b :: X) =
        (breakOn [a, b, a, b] X).map (fun r => (l ++ a :: b :: r.1, r.2))
  | [], _ => by
      have h1 : ¬ [a, b, a, b].isPrefixOf (a :: b :: X) := by
        rw [List.isPrefixOf_iff_prefix]
        simpa using hX
      have h2 : ¬ [a, b, a, b].isPrefixOf (b :: X) := by
        rw [List.isPrefixOf_iff_prefix]
        simp [hab]
      simp only [List.nil_append, breakOn, h1, h2, if_false, Option.map_map,
        Bool.false_eq_true]
      rfl
  | x :: l, h => by
      have ih := breakOn_line hab hX (l := l) (List.IsChain.tail h)
      have h1 : ¬ [a, b, a, b].isPrefixOf (x :: (l ++ a :: b :: X)) := by
        rw [List.isPrefixOf_iff_prefix]
        cases l with
        | nil =>
            intro hp
            simp only [List.nil_append, List.cons_prefix_cons] at hp
            exact hab hp.2.1.symm
        | cons y l =>
            intro hp
            simp only [List.cons_append, List.cons_prefix_cons] at hp
            exact (List.isChain_cons_cons.mp h).1 ⟨hp.1.symm, hp.2.1.symm⟩
      simp only [List.cons_append, breakOn, h1, Bool.false_eq_true, if_false, ih,
        Option.map_map]
      rfl

/-- The last line of the head is followed by the double separator. -/
theorem breakOn_last (hab : a ≠ b) (rest : List α) :
    ∀ {l : List α}, NoPair a b l →
      breakOn [a, b, a, b] (l ++ a :: b :: a :: b :: rest) = some (l, rest)
  | [], _ => by simp [breakOn]
  | x :: l, h => by
      have ih := breakOn_last hab rest (l := l) (List.IsChain.tail h)
      have h1 : ¬ [a, b, a, b].isPrefixOf (x :: (l ++ a :: b :: a :: b :: rest)) := by
        rw [List.isPrefixOf_iff_prefix]
        cases l with
        | nil =>
            intro hp
            simp only [List.nil_append, List.cons_prefix_cons] at hp
            exact hab hp.2.1.symm
        | cons y l =>
            intro hp
            simp only [List.cons_append, List.cons_prefix_cons] at hp
            exact (List.isChain_cons_cons.mp h).1 ⟨hp.1.symm, hp.2.1.symm⟩
      simp only [List.cons_append, breakOn, h1, Bool.false_eq_true, if_false, ih,
        Option.map_some]

/-- The head of a message ends where its writer ended it: nonempty lines
without the separator, joined by it, end at the double separator behind them. -/
theorem breakOn_joinPair (hab : a ≠ b) (rest : List α) :
    ∀ {ls : List (List α)}, ls ≠ [] →
      (∀ l, l ∈ ls → l ≠ [] ∧ NoPair a b l) →
      breakOn [a, b, a, b] (joinPair a b ls ++ a :: b :: a :: b :: rest) =
        some (joinPair a b ls, rest)
  | [], h, _ => absurd rfl h
  | [l], _, h => breakOn_last hab rest (h l (by simp)).2
  | l :: m :: ls, _, h => by
      have htail : ∀ l', l' ∈ m :: ls → l' ≠ [] ∧ NoPair a b l' :=
        fun l' hl' => h l' (List.mem_cons_of_mem _ hl')
      have ih := breakOn_joinPair hab rest (by simp) htail
      have hm := h m (by simp)
      have hX : ¬ [a, b] <+:
          joinPair a b (m :: ls) ++ a :: b :: a :: b :: rest := by
        cases ls with
        | nil => exact not_prefix_line hab hm.1 hm.2
        | cons n ls =>
            rw [joinPair, List.append_assoc]
            exact not_prefix_line hab hm.1 hm.2
      rw [joinPair, List.append_assoc, List.cons_append, List.cons_append,
        breakOn_line hab hX (h l (by simp)).2, ih]
      rfl

/-- Splitting takes joined lines apart again. -/
theorem splitPair_joinPair (hab : a ≠ b) :
    ∀ {ls : List (List α)}, ls ≠ [] → (∀ l, l ∈ ls → NoPair a b l) →
      splitPair a b (joinPair a b ls) = ls
  | [], h, _ => absurd rfl h
  | [l], _, h => splitPair_eq_singleton (h l (by simp))
  | l :: m :: ls, _, h => by
      have htail : ∀ l', l' ∈ m :: ls → NoPair a b l' :=
        fun l' hl' => h l' (List.mem_cons_of_mem _ hl')
      have ih := splitPair_joinPair hab (by simp) htail
      rw [joinPair, splitPair_append hab _ (h l (by simp)), ih]

end DoubleSeparator

end Py
end NetworkProxy
