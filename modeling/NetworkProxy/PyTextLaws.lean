import NetworkProxy.PyText
import Mathlib.Algebra.Group.Nat.Defs

/-!
# Laws of Python text

* `parseInt_showInt`: `int` reads back what `str` writes, within the bound on digits.
* `lower_lower`, `strip_lower`: a stripped and lower-cased text is stable under both
  operations.
-/

namespace NetworkProxy
namespace Py

/-! ## Integers -/

theorem isDigit_bounds {c : Char} (h : c.isDigit = true) : 48 ≤ c.toNat ∧ c.toNat ≤ 57 := by
  simpa [Char.isDigit, UInt32.le_iff_toNat_le] using h

theorem not_isSpace_of_mem_showInt {c : Char} {n : ℤ} (h : c ∈ showInt n) :
    isSpace c = false := by
  rcases mem_showInt h with rfl | hdigit
  · decide
  · have hbounds := isDigit_bounds hdigit
    unfold isSpace
    simp
    omega

theorem digit?_lt {c : Char} {d : ℕ} (h : digit? c = some d) : d < 10 := by
  rw [digit?] at h
  split at h
  · rename_i hc
    have hbounds := isDigit_bounds hc
    cases h
    omega
  · cases h

theorem lt_of_mem_digitRun {d : ℕ} :
    ∀ {s : Text} {afterDigit : Bool} {ds : List ℕ}, digitRun afterDigit s = some ds →
      d ∈ ds → d < 10
  | [], true, ds, h, hd => by
      cases h
      cases hd
  | [], false, ds, h, _ => by cases h
  | c :: cs, afterDigit, ds, h, hd => by
      rw [digitRun] at h
      split at h
      · split at h
        · exact lt_of_mem_digitRun h hd
        · cases h
      · split at h
        · rename_i d' hdigit
          obtain ⟨ds', hrun, rfl⟩ := Option.map_eq_some_iff.mp h
          rcases List.mem_cons.mp hd with rfl | hd
          · exact digit?_lt hdigit
          · exact lt_of_mem_digitRun hrun hd
        · cases h

theorem foldl_digits_lt {ds : List ℕ} (h : ∀ d, d ∈ ds → d < 10) (n : ℕ) :
    ds.foldl (fun n d => 10 * n + d) n < (n + 1) * 10 ^ ds.length := by
  induction ds generalizing n with
  | nil => simp
  | cons d ds ih =>
      have hd := h d List.mem_cons_self
      have hrest := ih (fun x hx => h x (List.mem_cons_of_mem _ hx)) (10 * n + d)
      rw [List.foldl_cons, List.length_cons]
      calc ds.foldl (fun n d => 10 * n + d) (10 * n + d)
          < (10 * n + d + 1) * 10 ^ ds.length := hrest
        _ ≤ (10 * (n + 1)) * 10 ^ ds.length := Nat.mul_le_mul_right _ (by omega)
        _ = (n + 1) * 10 ^ (ds.length + 1) := by
            rw [Nat.pow_succ, Nat.mul_comm 10 (n + 1), Nat.mul_assoc, Nat.mul_comm 10]

/-- What `int` reads is below the bound on digits. -/
theorem parseDigits_lt {s : Text} {n : ℕ} (h : parseDigits s = some n) :
    n < 10 ^ maxStrDigits := by
  rw [parseDigits] at h
  split at h
  · rename_i ds hrun
    split at h
    · rename_i hlength
      cases h
      have hvalue := foldl_digits_lt (fun d => lt_of_mem_digitRun hrun (d := d)) 0
      rw [Nat.zero_add, Nat.one_mul] at hvalue
      exact hvalue.trans_le (Nat.pow_le_pow_right (by omega) hlength)
    · cases h
  · cases h

theorem parseInt_lt {rt : PyRuntime} {s : Text} {n : ℤ} (h : parseInt rt s = some n) :
    n.natAbs < 10 ^ maxStrDigits := by
  rw [parseInt, parseIntAscii] at h
  split at h
  all_goals
    simp only [Option.map_eq_some_iff, Option.bind_eq_bind, Option.bind_eq_some_iff,
      Option.pure_def, Option.some.injEq] at h
    obtain ⟨_, ⟨m, hm, rfl⟩, rfl⟩ := h
    have hbound := parseDigits_lt hm
    omega

theorem digitRun_of_digits {s : Text} (h : ∀ c, c ∈ s → c.isDigit = true) :
    digitRun true s = some (s.map fun c => c.toNat - 48) := by
  induction s with
  | nil => rfl
  | cons c s ih =>
      have hc := h c List.mem_cons_self
      have hne : c ≠ '_' := by
        rintro rfl
        cases hc
      rw [digitRun, if_neg hne, digit?, if_pos hc,
        ih fun d hd => h d (List.mem_cons_of_mem _ hd)]
      rfl

/-- `int` reads back what `str` writes. -/
theorem parseDigits_toDigits {n : ℕ} (h : n < 10 ^ maxStrDigits) :
    parseDigits (Nat.toDigits 10 n) = some n := by
  have hdigits : ∀ c, c ∈ Nat.toDigits 10 n → c.isDigit = true :=
    fun c hc => Nat.isDigit_of_mem_toDigits (by omega) (by omega) hc
  have hrun : digitRun false (Nat.toDigits 10 n) =
      some ((Nat.toDigits 10 n).map fun c => c.toNat - 48) := by
    rw [← digitRun_of_digits hdigits]
    obtain ⟨c, cs, hcs⟩ := List.exists_cons_of_ne_nil (Nat.toDigits_ne_nil (n := n) (b := 10))
    have hne : c ≠ '_' := by
      rintro rfl
      have hc := hdigits '_' (by simp [hcs])
      cases hc
    rw [hcs, digitRun, digitRun, if_neg hne, if_neg hne]
  have hlength : (Nat.toDigits 10 n).length ≤ maxStrDigits :=
    (Nat.length_toDigits_le_iff (by omega) (by decide)).mpr h
  have hvalue : digitsValue ((Nat.toDigits 10 n).map fun c => c.toNat - 48) = n := by
    rw [digitsValue, List.foldl_map]
    exact Nat.ofDigitChars_ten_toDigits
  rw [parseDigits, hrun]
  dsimp only
  rw [if_pos (by rwa [List.length_map]), hvalue]

theorem parseInt_showInt (rt : PyRuntime) {n : ℤ} (h : n.natAbs < 10 ^ maxStrDigits) :
    parseInt rt (showInt n) = some n := by
  have hplain : ∀ c, c ∈ showInt n →
      intChar rt c = c ∧ isAsciiSpace c.toNat = false := by
    intro c hc
    rcases mem_showInt hc with rfl | hdigit
    · exact ⟨rfl, rfl⟩
    · have hbounds := isDigit_bounds hdigit
      rw [intChar, if_pos (by omega)]
      refine ⟨rfl, ?_⟩
      unfold isAsciiSpace
      simp only [Bool.or_eq_false_iff, Bool.and_eq_false_iff, decide_eq_false_iff_not,
        beq_eq_false_iff_ne]
      omega
  have hmap : (showInt n).map (intChar rt) = showInt n :=
    (List.map_congr_left fun c hc => (hplain c hc).1).trans (List.map_id _)
  have hstrip : stripBy (fun c : Char => isAsciiSpace c.toNat) (showInt n) = showInt n :=
    stripBy_eq_self (fun c hc => (hplain c (List.mem_of_mem_head? hc)).2)
      (fun c hc => (hplain c (List.mem_of_getLast? hc)).2)
  rw [parseInt, hmap, parseIntAscii, hstrip]
  cases n with
  | negSucc n =>
      have hread : parseDigits (Nat.toDigits 10 (n + 1)) = some (n + 1) := parseDigits_toDigits h
      simp only [showInt, hread]
      rfl
  | ofNat n =>
      have hread : parseDigits (Nat.toDigits 10 n) = some n := parseDigits_toDigits h
      rw [showInt]
      have hdigits : ∀ c, c ∈ Nat.toDigits 10 n → c.isDigit = true :=
        fun c hc => Nat.isDigit_of_mem_toDigits (by omega) (by omega) hc
      split
      · rename_i hminus
        have hfalse := hdigits '-' (by simp [hminus])
        cases hfalse
      · rename_i hplus
        have hfalse := hdigits '+' (by simp [hplus])
        cases hfalse
      · rw [hread]
        rfl

/-- Digits and underscores are all that is read. -/
theorem isDigit_of_mem_digitRun {c : Char} :
    ∀ {s : Text} {afterDigit : Bool} {ds : List ℕ}, digitRun afterDigit s = some ds →
      c ∈ s → c.isDigit = true ∨ c = '_'
  | [], _, _, _, hc => by cases hc
  | x :: s, afterDigit, ds, h, hc => by
      rw [digitRun] at h
      split at h
      · rename_i hx
        rcases List.mem_cons.mp hc with rfl | hc
        · exact Or.inr hx
        · split at h
          · exact isDigit_of_mem_digitRun h hc
          · cases h
      · split at h
        · rename_i d hdigit
          obtain ⟨ds', hrun, -⟩ := Option.map_eq_some_iff.mp h
          rcases List.mem_cons.mp hc with rfl | hc
          · rw [digit?] at hdigit
            split at hdigit
            · rename_i hisDigit
              exact Or.inl hisDigit
            · cases hdigit
          · exact isDigit_of_mem_digitRun hrun hc
        · cases h

theorem isDigit_of_mem_parseDigits {c : Char} {s : Text} {n : ℕ} (h : parseDigits s = some n)
    (hc : c ∈ s) : c.isDigit = true ∨ c = '_' := by
  rw [parseDigits] at h
  split at h
  · rename_i ds hrun
    exact isDigit_of_mem_digitRun hrun hc
  · cases h

/-- What an integer literal is made of, blanks around it aside. -/
theorem mem_of_parseIntAscii {c : Char} {s : Text} {n : ℤ} (h : parseIntAscii s = some n)
    (hc : c ∈ stripBy (fun c => isAsciiSpace c.toNat) s) :
    c.isDigit = true ∨ c = '_' ∨ c = '-' ∨ c = '+' := by
  have hdigits : ∀ {r : Text} {m : ℕ}, parseDigits r = some m → c ∈ r →
      c.isDigit = true ∨ c = '_' ∨ c = '-' ∨ c = '+' := by
    intro r m hr hmem
    rcases isDigit_of_mem_parseDigits hr hmem with hdigit | hunder
    · exact Or.inl hdigit
    · exact Or.inr (Or.inl hunder)
  rw [parseIntAscii] at h
  split at h
  · rename_i r heq
    simp only [Option.map_eq_some_iff, Option.bind_eq_bind, Option.bind_eq_some_iff,
      Option.pure_def, Option.some.injEq] at h
    obtain ⟨_, ⟨m, hm, -⟩, -⟩ := h
    rw [heq] at hc
    rcases List.mem_cons.mp hc with rfl | hc
    · exact Or.inr (Or.inr (Or.inl rfl))
    · exact hdigits hm hc
  · rename_i r heq
    simp only [Option.map_eq_some_iff, Option.bind_eq_bind, Option.bind_eq_some_iff,
      Option.pure_def, Option.some.injEq] at h
    obtain ⟨_, ⟨m, hm, -⟩, -⟩ := h
    rw [heq] at hc
    rcases List.mem_cons.mp hc with rfl | hc
    · exact Or.inr (Or.inr (Or.inr rfl))
    · exact hdigits hm hc
  · simp only [Option.map_eq_some_iff, Option.bind_eq_bind, Option.bind_eq_some_iff,
      Option.pure_def, Option.some.injEq] at h
    obtain ⟨_, ⟨m, hm, -⟩, -⟩ := h
    exact hdigits hm hc

theorem not_isAsciiSpace_digitChar (d : ℕ) : isAsciiSpace (Nat.digitChar d).toNat = false := by
  have hsmall : ∀ n, n < 16 → isAsciiSpace (Nat.digitChar n).toNat = false := by decide
  rcases Nat.lt_or_ge d 16 with hd | hd
  · exact hsmall d hd
  · rw [Nat.digitChar_eq_star.mpr hd]
    rfl

/-- A character that is not a blank is not read as one. -/
theorem not_isAsciiSpace_intChar (rt : PyRuntime) {c : Char} (hc : isSpace c = false) :
    isAsciiSpace (intChar rt c).toNat = false := by
  have hnot : ∀ d : Char, isSpace d = false → isAsciiSpace d.toNat = false := by
    intro d hd
    simp only [isSpace, Bool.or_eq_false_iff, Bool.and_eq_false_iff, decide_eq_false_iff_not,
      beq_eq_false_iff_ne] at hd
    simp only [isAsciiSpace, Bool.or_eq_false_iff, Bool.and_eq_false_iff,
      decide_eq_false_iff_not, beq_eq_false_iff_ne]
    omega
  rw [intChar]
  split
  · exact hnot c hc
  · rw [hc, if_neg (by decide)]
    cases rt.decimal c with
    | none => decide
    | some d => exact not_isAsciiSpace_digitChar d

/-- A blank is not read as a part of a literal. -/
theorem intChar_of_isSpace (rt : PyRuntime) {c : Char} (hc : isSpace c = true) :
    ¬ ((intChar rt c).isDigit = true ∨ intChar rt c = '_' ∨ intChar rt c = '-' ∨
      intChar rt c = '+') := by
  rw [intChar]
  split
  · simp only [isSpace, Bool.or_eq_true, Bool.and_eq_true, decide_eq_true_eq, beq_iff_eq] at hc
    rintro (hdigit | rfl | rfl | rfl)
    · have := isDigit_bounds hdigit
      omega
    · exact absurd hc (by decide)
    · exact absurd hc (by decide)
    · exact absurd hc (by decide)
  · decide

/-- `int` reads no text with a blank inside. -/
theorem not_isSpace_of_parseInt {rt : PyRuntime} {s : Text} {n : ℤ}
    (h : parseInt rt (strip s) = some n) {c : Char} (hc : c ∈ strip s) : isSpace c = false := by
  have hends : stripBy (fun c : Char => isAsciiSpace c.toNat) ((strip s).map (intChar rt)) =
      (strip s).map (intChar rt) := by
    refine stripBy_eq_self (fun d hd => ?_) (fun d hd => ?_)
    · rw [List.head?_map, Option.map_eq_some_iff] at hd
      obtain ⟨x, hx, rfl⟩ := hd
      exact not_isAsciiSpace_intChar rt (head?_stripBy hx)
    · rw [List.getLast?_map, Option.map_eq_some_iff] at hd
      obtain ⟨x, hx, rfl⟩ := hd
      exact not_isAsciiSpace_intChar rt (getLast?_stripBy hx)
  cases hspace : isSpace c with
  | false => rfl
  | true =>
      have hmem : intChar rt c ∈ (strip s).map (intChar rt) := List.mem_map_of_mem hc
      rw [← hends] at hmem
      exact absurd (mem_of_parseIntAscii h hmem) (intChar_of_isSpace rt hspace)

/-! ## Lower-casing and stripping -/

/-- The small sigmas are lower case; every Unicode database has them so. -/
def PyRuntime.SmallSigmas (rt : PyRuntime) : Prop :=
  rt.lowerChar 'σ' = ['σ'] ∧ rt.lowerChar 'ς' = ['ς']

section Lower

variable {rt : PyRuntime}

/-- A character that stands for one of a lower-cased text. -/
theorem mem_lowerBlock {c d : Char} {before after : Text}
    (h : d ∈ (if c = 'Σ' then [if finalSigma rt before after then 'ς' else 'σ']
      else rt.lowerChar c)) :
    isSpace d = isSpace c ∧ d ≠ 'Σ' ∧ (rt.SmallSigmas → rt.lowerChar d = [d]) := by
  split at h
  · rename_i hc
    subst hc
    rw [List.mem_singleton] at h
    subst h
    split
    · exact ⟨by decide, by decide, fun hsigma => hsigma.2⟩
    · exact ⟨by decide, by decide, fun hsigma => hsigma.1⟩
  · obtain ⟨hne, hfixed⟩ := rt.lowerChar_fixed c d h
    exact ⟨rt.lowerChar_space c d h, hne, fun _ => hfixed⟩

/-- Characters of a lower-cased text are lower case, and blank if they come from blanks. -/
theorem of_mem_lowerBlocks {d : Char} :
    ∀ {s before : Text}, d ∈ (lowerBlocks rt before s).flatten →
      (∃ c, c ∈ s ∧ isSpace d = isSpace c) ∧ d ≠ 'Σ' ∧ (rt.SmallSigmas → rt.lowerChar d = [d])
  | [], _, h => by simp [lowerBlocks] at h
  | c :: cs, before, h => by
      rw [lowerBlocks, List.flatten_cons, List.mem_append] at h
      rcases h with h | h
      · obtain ⟨hspace, hfixed⟩ := mem_lowerBlock h
        exact ⟨⟨c, List.mem_cons_self, hspace⟩, hfixed⟩
      · obtain ⟨⟨c', hc', hspace⟩, hfixed⟩ := of_mem_lowerBlocks h
        exact ⟨⟨c', List.mem_cons_of_mem _ hc', hspace⟩, hfixed⟩

theorem lowerBlocks_of_fixed :
    ∀ {s : Text} (before : Text), (∀ d, d ∈ s → d ≠ 'Σ' ∧ rt.lowerChar d = [d]) →
      (lowerBlocks rt before s).flatten = s
  | [], _, _ => rfl
  | d :: s, before, h => by
      obtain ⟨hne, hfixed⟩ := h d List.mem_cons_self
      rw [lowerBlocks, List.flatten_cons, if_neg hne, hfixed,
        lowerBlocks_of_fixed (d :: before) (fun x hx => h x (List.mem_cons_of_mem _ hx)),
        List.singleton_append]

/-- Lower-casing twice is lower-casing once. -/
theorem lower_lower (hsigma : rt.SmallSigmas) (s : Text) :
    lower rt (lower rt s) = lower rt s := by
  refine lowerBlocks_of_fixed [] fun d hd => ?_
  obtain ⟨-, hne, hfixed⟩ := of_mem_lowerBlocks hd
  exact ⟨hne, hfixed hsigma⟩

theorem lowerBlock_ne_nil (c : Char) (before after : Text) :
    (if c = 'Σ' then [if finalSigma rt before after then 'ς' else 'σ']
      else rt.lowerChar c) ≠ [] := by
  split
  · exact List.cons_ne_nil _ _
  · exact rt.lowerChar_ne_nil c

theorem head?_lowerBlocks {s before : Text} {d : Char}
    (h : (lowerBlocks rt before s).flatten.head? = some d) :
    ∃ c, s.head? = some c ∧ isSpace d = isSpace c := by
  cases s with
  | nil => cases h
  | cons c s =>
      rw [lowerBlocks, List.flatten_cons,
        List.head?_append_of_ne_nil _ (lowerBlock_ne_nil c before s)] at h
      exact ⟨c, rfl, (mem_lowerBlock (List.mem_of_mem_head? h)).1⟩

theorem getLast?_lowerBlocks {d : Char} :
    ∀ {s before : Text}, (lowerBlocks rt before s).flatten.getLast? = some d →
      ∃ c, s.getLast? = some c ∧ isSpace d = isSpace c
  | [], _, h => by cases h
  | [c], before, h => by
      rw [lowerBlocks, lowerBlocks, List.flatten_cons, List.flatten_nil, List.append_nil] at h
      exact ⟨c, rfl, (mem_lowerBlock (List.mem_of_getLast? h)).1⟩
  | c :: c' :: s, before, h => by
      have hne : (lowerBlocks rt (c :: before) (c' :: s)).flatten ≠ [] := by
        rw [lowerBlocks, List.flatten_cons]
        exact fun hnil => lowerBlock_ne_nil c' _ s (List.append_eq_nil_iff.mp hnil).1
      rw [lowerBlocks, List.flatten_cons, List.getLast?_append_of_ne_nil _ hne] at h
      obtain ⟨x, hx, hspace⟩ := getLast?_lowerBlocks h
      exact ⟨x, by rw [List.getLast?_cons_cons, hx], hspace⟩

/-- A property of characters that lower-casing keeps. -/
theorem all_lower {q : Char → Bool} (hq : ∀ c d, d ∈ rt.lowerChar c → q d = q c)
    (hsigma : q 'σ' = q 'Σ' ∧ q 'ς' = q 'Σ') (s : Text) : (lower rt s).all q = s.all q := by
  have hblocks : ∀ s before : Text, (lowerBlocks rt before s).flatten.all q = s.all q := by
    intro s
    induction s with
    | nil => exact fun _ => rfl
    | cons c s ih =>
        intro before
        have hblock : (if c = 'Σ' then [if finalSigma rt before s then 'ς' else 'σ']
            else rt.lowerChar c).all q = q c := by
          split
          · rename_i hc
            rw [hc, List.all_cons, List.all_nil, Bool.and_true]
            split
            · exact hsigma.2
            · exact hsigma.1
          · obtain ⟨d, rest, hd⟩ := List.exists_cons_of_ne_nil (rt.lowerChar_ne_nil c)
            rw [Bool.eq_iff_iff, List.all_eq_true]
            refine ⟨fun h => ?_, fun h x hx => (hq c x hx).trans h⟩
            have hmem : d ∈ rt.lowerChar c := hd ▸ List.mem_cons_self
            exact (hq c d hmem).symm.trans (h d hmem)
        rw [lowerBlocks, List.flatten_cons, List.all_append, List.all_cons, ih, hblock]
  exact hblocks s []

/-- Without a capital sigma, each letter is lower-cased for itself. -/
theorem lowerBlocks_of_no_sigma :
    ∀ {s : Text} (before : Text), (∀ d, d ∈ s → d ≠ 'Σ') →
      (lowerBlocks rt before s).flatten = s.flatMap rt.lowerChar
  | [], _, _ => rfl
  | c :: s, before, h => by
      rw [lowerBlocks, List.flatten_cons, if_neg (h c List.mem_cons_self), List.flatMap_cons,
        lowerBlocks_of_no_sigma (c :: before) fun d hd => h d (List.mem_cons_of_mem _ hd)]

/-- Where a lower-cased text begins with an ASCII word and a separator, so does the text. -/
theorem exists_of_prefix_lowerBlocks {c : Char}
    (hc : c.toNat < 128 ∧ ¬ c.isLower = true ∧ ¬ c.isUpper = true) :
    ∀ {s before word : Text}, (∀ d, d ∈ word → d.toNat < 128) → c ∉ word →
      word ++ [c] <+: (lowerBlocks rt before s).flatten →
      ∃ name rest, s = name ++ c :: rest ∧ c ∉ name ∧ lower rt name = word ∧
        ∀ d, d ∈ name → d ≠ 'Σ'
  | [], _, word, _, _, h => by
      have := h.length_le
      simp [lowerBlocks] at this
  | x :: s, before, word, hword, hcw, h => by
      have hblocks : List.Forall₂ (Block c c c c) (x :: s) (lowerBlocks rt before (x :: s)) :=
        block_lowerBlocks hc hc (x :: s) before
      rw [lowerBlocks] at h hblocks
      rw [List.flatten_cons] at h
      generalize hblock : (if x = 'Σ' then [if finalSigma rt before s then 'ς' else 'σ']
        else rt.lowerChar x) = block at h hblocks
      obtain ⟨-, hsep, -⟩ := (List.forall₂_cons.mp hblocks).1
      rcases em (c ∈ block) with hmem | hmem
      · obtain ⟨rfl, rfl⟩ := hsep hmem
        cases word with
        | nil =>
            exact ⟨[], s, rfl, List.not_mem_nil, rfl, fun d hd => absurd hd List.not_mem_nil⟩
        | cons d word =>
            rw [List.cons_append, List.singleton_append, List.cons_prefix_cons] at h
            exact absurd (h.1 ▸ List.mem_cons_self) hcw
      · obtain ⟨word', rfl⟩ := prefix_of_append_singleton_prefix hmem h
        have hx : x ≠ 'Σ' := by
          intro hsigma
          rw [if_pos hsigma] at hblock
          have hlow := hword _ (List.mem_append_left _ (hblock ▸ List.mem_singleton_self _))
          split at hlow <;> exact absurd hlow (by decide)
        rw [if_neg hx] at hblock
        rw [List.append_assoc, List.prefix_append_right_inj] at h
        obtain ⟨name, rest, rfl, hname, hlower, hsigma⟩ := exists_of_prefix_lowerBlocks hc
          (fun d hd => hword d (List.mem_append_right _ hd))
          (fun hd => hcw (List.mem_append_right _ hd)) h
        have hall : ∀ d, d ∈ x :: name → d ≠ 'Σ' := by
          intro d hd
          rcases List.mem_cons.mp hd with rfl | hd
          · exact hx
          · exact hsigma d hd
        refine ⟨x :: name, rest, rfl, ?_, ?_, hall⟩
        · rw [List.mem_cons, not_or]
          refine ⟨?_, hname⟩
          rintro rfl
          exact hmem (by rw [← hblock, rt.lowerChar_ascii c hc.1, toLower_eq_self hc.2.2]; simp)
        · rw [lower, lowerBlocks_of_no_sigma [] hall, List.flatMap_cons, hblock, ← hlower, lower,
            lowerBlocks_of_no_sigma [] hsigma]

/-- A text without blanks at its ends has none after lower-casing. -/
theorem strip_lower {s : Text} (h : strip s = s) : strip (lower rt s) = lower rt s := by
  refine stripBy_eq_self (fun d hd => ?_) (fun d hd => ?_)
  · obtain ⟨c, hc, hspace⟩ := head?_lowerBlocks hd
    rw [← h] at hc
    rw [hspace, head?_stripBy hc]
  · obtain ⟨c, hc, hspace⟩ := getLast?_lowerBlocks hd
    rw [← h] at hc
    rw [hspace, getLast?_stripBy hc]

end Lower

theorem strip_strip (s : Text) : strip (strip s) = strip s :=
  stripBy_eq_self (fun _ h => head?_stripBy h) (fun _ h => getLast?_stripBy h)

end Py
end NetworkProxy
