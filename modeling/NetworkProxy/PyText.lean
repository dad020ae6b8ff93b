import NetworkProxy.PySplit
import Mathlib.Data.Char
import Mathlib.Tactic.Common

/-!
# Python text, bytes and integers

The part of Python's `str`, `bytes` and `int` that a line-oriented network
program uses, on lists of characters and lists of bytes.

What differs between interpreter versions (the Unicode character database and
the library's check of bracketed hosts) is the structure `PyRuntime`.  Its
fields carry the facts about lower-casing that hold in every version: outside
ASCII, only lower-case letters are ever mapped into ASCII.
-/

namespace NetworkProxy
namespace Py

/-- A Python `str` without lone surrogates. -/
abbrev Text := List Char

instance : LawfulBEq Text := inferInstanceAs (LawfulBEq (List Char))

/-- A Python `bytes`. -/
abbrev Bytes := List UInt8

/-- A text literal. -/
def txt (s : String) : Text := s.toList

/-- A bytes literal; every character of it is ASCII. -/
def ascii (s : String) : Bytes := s.toList.map (fun c => UInt8.ofNat c.toNat)

theorem isUpper_iff (c : Char) : c.isUpper = true ↔ 65 ≤ c.toNat ∧ c.toNat ≤ 90 := by
  have hunfold : c.isUpper = decide (c.val ≥ 'A'.val ∧ c.val ≤ 'Z'.val) := rfl
  simp [hunfold, UInt32.le_iff_toNat_le]

theorem isLower_iff (c : Char) : c.isLower = true ↔ 97 ≤ c.toNat ∧ c.toNat ≤ 122 := by
  have hunfold : c.isLower = (decide (c.val ≥ 'a'.val) && decide (c.val ≤ 'z'.val)) := rfl
  simp [hunfold, UInt32.le_iff_toNat_le]

theorem toNat_toLower (c : Char) :
    c.toLower.toNat = if c.isUpper then c.toNat + 32 else c.toNat := by
  unfold Char.toLower
  by_cases h : c.val ≥ 'A'.val ∧ c.val ≤ 'Z'.val
  · rw [dif_pos h]
    have h' : c.isUpper = true := decide_eq_true h
    rw [if_pos h']
    have := (isUpper_iff c).mp h'
    show (c.val + ('a'.val - 'A'.val)).toNat = _
    rw [UInt32.toNat_add]
    change (c.toNat + 32) % 4294967296 = _
    omega
  · rw [dif_neg h]
    have h' : ¬ c.isUpper = true := fun hup => h (of_decide_eq_true hup)
    rw [if_neg h']

theorem toLower_eq_self {c : Char} (h : ¬ c.isUpper = true) : c.toLower = c := by
  apply Char.ext
  apply UInt32.toNat_inj.mp
  have := toNat_toLower c
  rw [if_neg h] at this
  exact this

theorem toLower_not_isUpper (c : Char) : ¬ c.toLower.isUpper = true := by
  by_cases hup : c.isUpper = true
  · have h := (isUpper_iff c).mp hup
    rw [isUpper_iff, toNat_toLower, if_pos hup]
    omega
  · rw [toLower_eq_self hup]
    exact hup

/-- `str.isspace` of a single character. -/
def isSpace (c : Char) : Bool :=
  let n := c.toNat
  (9 ≤ n && n ≤ 13) || (28 ≤ n && n ≤ 32) || n == 0x85 || n == 0xa0 || n == 0x1680 ||
    (0x2000 ≤ n && n ≤ 0x200a) || n == 0x2028 || n == 0x2029 || n == 0x202f ||
    n == 0x205f || n == 0x3000

/-- The blanks of `bytes` methods and of `int`. -/
def isAsciiSpace (n : Nat) : Bool := (9 ≤ n && n ≤ 13) || n == 32

/-- `s.strip()`. -/
def strip (s : Text) : Text := stripBy isSpace s

/-- What an interpreter version fixes: its Unicode database and the check
`urllib.parse` makes of a bracketed host. -/
structure PyRuntime where
  /-- Full lower-case mapping of a character, outside the final-sigma rule. -/
  lowerChar : Char → Text
  cased : Char → Bool
  caseIgnorable : Char → Bool
  /-- Decimal digit value of a character. -/
  decimal : Char → Option Nat
  /-- `unicodedata.normalize('NFKC', s)`. -/
  nfkc : Text → Text
  /-- `repr(s)`. -/
  reprText : Text → Text
  /-- The message with which `_check_bracketed_host` rejects a host. -/
  bracketedHostError : Text → Option Text
  lowerChar_ascii : ∀ c, c.toNat < 128 → lowerChar c = [c.toLower]
  lowerChar_ne_nil : ∀ c, lowerChar c ≠ []
  lowerChar_nonascii : ∀ c, 128 ≤ c.toNat →
    ∀ d, d ∈ lowerChar c → d.toNat < 128 → d.isLower = true
  lowerChar_fixed : ∀ c d, d ∈ lowerChar c → d ≠ 'Σ' ∧ lowerChar d = [d]
  lowerChar_space : ∀ c d, d ∈ lowerChar c → isSpace d = isSpace c

/-- The runtime whose only letters and digits are the ASCII ones; it agrees with
every real one on ASCII text. -/
def asciiRuntime : PyRuntime where
  lowerChar c := if c = 'Σ' then ['σ'] else [c.toLower]
  cased c := c.isAlpha
  caseIgnorable c := c == '.' || c == ':' || c == '\''
  decimal _ := none
  nfkc s := s
  reprText s := '\'' :: s ++ ['\'']
  bracketedHostError _ := some (txt "IPvFuture address is invalid")
  lowerChar_ascii c hc := by
    have : c ≠ 'Σ' := by
      rintro rfl
      simp at hc
    simp [this]
  lowerChar_ne_nil c := by
    split <;> simp
  lowerChar_nonascii c hc d hd hlt := by
    split at hd
    · simp only [List.mem_singleton] at hd
      subst hd
      simp at hlt
    · simp only [List.mem_singleton] at hd
      subst hd
      have hup := isUpper_iff c
      rw [toNat_toLower] at hlt
      split at hlt <;> omega
  lowerChar_fixed c d hd := by
    split at hd
    · simp only [List.mem_singleton] at hd
      subst hd
      decide
    · rename_i hc
      simp only [List.mem_singleton] at hd
      subst hd
      have hne : c.toLower ≠ 'Σ' := by
        by_cases hup : c.isUpper = true
        · intro he
          have h1 := toNat_toLower c
          rw [if_pos hup, he] at h1
          have h2 := (isUpper_iff c).mp hup
          have h3 : 'Σ'.toNat = 931 := by decide
          omega
        · rw [toLower_eq_self hup]
          exact hc
      refine ⟨hne, ?_⟩
      rw [if_neg hne, toLower_eq_self (toLower_not_isUpper c)]
  lowerChar_space c d hd := by
    split at hd
    · rename_i hc
      simp only [List.mem_singleton] at hd
      subst hd hc
      decide
    · simp only [List.mem_singleton] at hd
      subst hd
      by_cases hup : c.isUpper = true
      · have h1 := toNat_toLower c
        rw [if_pos hup] at h1
        have h2 := (isUpper_iff c).mp hup
        have h3 : isSpace c = false := by
          simp [isSpace]
          omega
        have h4 : isSpace c.toLower = false := by
          simp [isSpace, h1]
          omega
        rw [h3, h4]
      · rw [toLower_eq_self hup]

section Lower

variable (rt : PyRuntime)

/-- A capital sigma is final when a cased letter precedes it and none follows,
case-ignorable characters aside; `before` is read backwards. -/
def finalSigma (before after : Text) : Bool :=
  (match before.dropWhile rt.caseIgnorable with
    | c :: _ => rt.cased c
    | [] => false) &&
  !(match after.dropWhile rt.caseIgnorable with
    | c :: _ => rt.cased c
    | [] => false)

/-- What each character of a text becomes in `s.lower()`. -/
def lowerBlocks (before : Text) : Text → List Text
  | [] => []
  | c :: cs =>
      (if c = 'Σ' then [if finalSigma rt before cs then 'ς' else 'σ']
        else rt.lowerChar c) ::
      lowerBlocks (c :: before) cs

/-- `s.lower()`. -/
def lower (s : Text) : Text := (lowerBlocks rt [] s).flatten

variable {rt}

/-- Characters of `s.lower()` come from characters of `s`; an ASCII character
other than a letter comes from itself. -/
theorem mem_lowerBlocks {d : Char} :
    ∀ {s before : Text}, d ∈ (lowerBlocks rt before s).flatten →
      d.toNat < 128 → ¬ d.isLower = true → d ∈ s
  | [], _, h, _, _ => by simp [lowerBlocks] at h
  | c :: cs, before, h, hlt, hlow => by
      rw [lowerBlocks, List.flatten_cons, List.mem_append] at h
      rcases h with h | h
      · split at h
        · simp only [List.mem_singleton] at h
          subst h
          split at hlt <;> simp at hlt
        · rcases Nat.lt_or_ge c.toNat 128 with hc | hc
          · rw [rt.lowerChar_ascii c hc, List.mem_singleton] at h
            subst h
            by_cases hup : c.isUpper = true
            · have h1 := toNat_toLower c
              rw [if_pos hup] at h1
              have h2 := (isUpper_iff c).mp hup
              exact absurd ((isLower_iff _).mpr (by omega)) hlow
            · rw [toLower_eq_self hup]
              exact List.mem_cons_self
          · exact absurd (rt.lowerChar_nonascii c hc d h hlt) hlow
      · exact List.mem_cons_of_mem _ (mem_lowerBlocks h hlt hlow)

theorem mem_of_mem_lower {d : Char} {s : Text} (h : d ∈ lower rt s)
    (hlt : d.toNat < 128) (hlow : ¬ d.isLower = true) : d ∈ s :=
  mem_lowerBlocks h hlt hlow

/-- A blank or another ASCII symbol comes from itself and stands alone. -/
theorem block_lowerBlocks {a b : Char}
    (ha : a.toNat < 128 ∧ ¬ a.isLower = true ∧ ¬ a.isUpper = true)
    (hb : b.toNat < 128 ∧ ¬ b.isLower = true ∧ ¬ b.isUpper = true) :
    ∀ (s before : Text),
      List.Forall₂ (Block a b a b) s (lowerBlocks rt before s)
  | [], _ => .nil
  | c :: cs, before => by
      refine .cons ?_ (block_lowerBlocks ha hb cs (c :: before))
      have key : ∀ x : Char, (x.toNat < 128 ∧ ¬ x.isLower = true ∧ ¬ x.isUpper = true) →
          x ∈ (if c = 'Σ' then [if finalSigma rt before cs then 'ς' else 'σ']
            else rt.lowerChar c) →
          c = x ∧ (if c = 'Σ' then [if finalSigma rt before cs then 'ς' else 'σ']
            else rt.lowerChar c) = [x] := by
        intro x hx hmem
        have hcx : x ∈ (lowerBlocks rt before [c]).flatten := by
          simp only [lowerBlocks, List.flatten_cons, List.flatten_nil, List.append_nil]
          split at hmem
          · rename_i hc
            simp only [List.mem_singleton] at hmem
            subst hmem
            split at hx <;> simp at hx
          · rename_i hc
            simpa [hc] using hmem
        obtain rfl : x = c := by
          simpa using mem_lowerBlocks hcx hx.1 hx.2.1
        have hne : x ≠ 'Σ' := by
          rintro rfl
          simp at hx
        refine ⟨rfl, ?_⟩
        rw [if_neg hne, rt.lowerChar_ascii x hx.1, toLower_eq_self hx.2.2]
      refine ⟨?_, key a ha, key b hb⟩
      split
      · simp
      · exact rt.lowerChar_ne_nil c

/-- Lower-casing leaves no capital ASCII letter. -/
theorem not_isUpper_of_mem_lower {d : Char} :
    ∀ {s before : Text}, d ∈ (lowerBlocks rt before s).flatten →
      ¬ d.isUpper = true
  | [], _, h => by simp [lowerBlocks] at h
  | c :: cs, before, h => by
      rw [lowerBlocks, List.flatten_cons, List.mem_append] at h
      rcases h with h | h
      · split at h
        · simp only [List.mem_singleton] at h
          subst h
          split <;> decide
        · rcases Nat.lt_or_ge c.toNat 128 with hc | hc
          · rw [rt.lowerChar_ascii c hc, List.mem_singleton] at h
            subst h
            exact toLower_not_isUpper c
          · intro hup
            have h1 := (isUpper_iff d).mp hup
            have h2 := (isLower_iff d).mp
              (rt.lowerChar_nonascii c hc d h (by omega))
            omega
      · exact not_isUpper_of_mem_lower h

theorem toNat_lt_of_all {t : Text} (h : t.all (fun c => decide (c.toNat < 128)) = true) :
    ∀ c, c ∈ t → c.toNat < 128 :=
  fun c hc => of_decide_eq_true (List.all_eq_true.mp h c hc)

/-- ASCII text is lower-cased letter by letter. -/
theorem lowerBlocks_of_ascii :
    ∀ {s : Text} (before : Text), (∀ c, c ∈ s → c.toNat < 128) →
      (lowerBlocks rt before s).flatten = s.map Char.toLower
  | [], _, _ => rfl
  | c :: cs, before, h => by
      have hc := h c List.mem_cons_self
      have hne : c ≠ 'Σ' := by
        rintro rfl
        simp at hc
      rw [lowerBlocks, List.flatten_cons, if_neg hne, rt.lowerChar_ascii c hc, List.map_cons,
        lowerBlocks_of_ascii (c :: before) (fun d hd => h d (List.mem_cons_of_mem _ hd)),
        List.singleton_append]

theorem lower_of_ascii {s : Text} (h : ∀ c, c ∈ s → c.toNat < 128) :
    lower rt s = s.map Char.toLower :=
  lowerBlocks_of_ascii [] h

theorem lower_eq_nil_iff {s : Text} : lower rt s = [] ↔ s = [] := by
  constructor
  · intro h
    cases s with
    | nil => rfl
    | cons c cs =>
        rw [lower, lowerBlocks, List.flatten_cons, List.append_eq_nil_iff] at h
        have hhead := h.1
        split at hhead
        · cases hhead
        · exact absurd hhead (rt.lowerChar_ne_nil c)
  · rintro rfl
    rfl

end Lower

section Integers

/-- Value of an ASCII digit. -/
def digit? (c : Char) : Option Nat :=
  if c.isDigit then some (c.toNat - 48) else none

/-- Digits of an integer literal; single underscores may stand between them.
The flag says that a digit was read last. -/
def digitRun : Bool → Text → Option (List Nat)
  | true, [] => some []
  | false, [] => none
  | afterDigit, c :: cs =>
      if c = '_' then (if afterDigit then digitRun false cs else none)
      else
        match digit? c with
        | some d => (digitRun true cs).map (fun ds => d :: ds)
        | none => none

/-- Value of a sequence of decimal digits. -/
def digitsValue (ds : List Nat) : Nat := ds.foldl (fun n d => 10 * n + d) 0

/-- The interpreter's default bound on the digits of an integer literal. -/
def maxStrDigits : Nat := 4300

/-- An unsigned integer literal. -/
def parseDigits (s : Text) : Option Nat :=
  match digitRun false s with
  | some ds => if ds.length ≤ maxStrDigits then some (digitsValue ds) else none
  | none => none

/-- `int(s)` for an ASCII literal; `none` is a `ValueError`. -/
def parseIntAscii (s : Text) : Option Int :=
  match stripBy (fun c => isAsciiSpace c.toNat) s with
  | '-' :: r => (parseDigits r).map (fun n => -(n : Int))
  | '+' :: r => (parseDigits r).map (fun n => (n : Int))
  | r => (parseDigits r).map (fun n => (n : Int))

/-- The ASCII character `int` reads a character as. -/
def intChar (rt : PyRuntime) (c : Char) : Char :=
  if c.toNat < 127 then c
  else if isSpace c then ' '
  else
    match rt.decimal c with
    | some d => Nat.digitChar d
    | none => '?'

/-- `int(s)` for a text. -/
def parseInt (rt : PyRuntime) (s : Text) : Option Int :=
  parseIntAscii (s.map (intChar rt))

/-- `int(s)` for a byte string. -/
def parseIntBytes (s : Bytes) : Option Int :=
  parseIntAscii (s.map (fun b => Char.ofNat b.toNat))

/-- `str(n)`. -/
def showInt : Int → Text
  | .ofNat n => Nat.toDigits 10 n
  | .negSucc n => '-' :: Nat.toDigits 10 (n + 1)

theorem mem_showInt {c : Char} {n : Int} (h : c ∈ showInt n) :
    c = '-' ∨ c.isDigit = true := by
  cases n with
  | ofNat n =>
      exact Or.inr (Nat.isDigit_of_mem_toDigits (by omega) (by omega) h)
  | negSucc n =>
      rcases List.mem_cons.mp h with h | h
      · exact Or.inl h
      · exact Or.inr (Nat.isDigit_of_mem_toDigits (by omega) (by omega) h)

theorem not_mem_showInt {c : Char} (hminus : c ≠ '-') (hdigit : c.isDigit = false) (n : ℤ) :
    c ∉ showInt n := by
  intro hmem
  rcases mem_showInt hmem with hc | hc
  · exact hminus hc
  · exact Bool.false_ne_true (hdigit.symm.trans hc)

end Integers

end Py
end NetworkProxy
