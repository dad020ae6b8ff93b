import NetworkProxy.Forwarder
import NetworkProxy.JsonText

/-!
# The numbers of the JSON

What `json.dumps` writes for integers and for finite floats.  A float is known by its shortest
spelling, which `repr` writes.

* `ShortNumber`: integers and floats with one decimal.
* `FloatText`: any other float.
* `numberFormat`: each number is read as it was written.
-/

namespace NetworkProxy
namespace Proxy

open Py JsonText

/-! ## Short numbers -/

/-- An integer, or a `float` with one decimal, in tenths. -/
inductive ShortNumber
  | int (n : ℤ)
  | tenths (n : ℤ)
deriving DecidableEq

namespace ShortNumber

def neg : ShortNumber → ShortNumber
  | int n => int (-n)
  | tenths n => tenths (-n)

def write : ShortNumber → Text
  | int n => showInt n
  | tenths n => showTenths n

/-- A number without its sign. -/
def readUnsigned (s : Text) : Option ShortNumber :=
  match s.takeWhile Char.isDigit, s.dropWhile Char.isDigit with
  | [], _ => none
  | whole, [] => some (int (Nat.ofDigitChars 10 whole 0))
  | whole, '.' :: [digit] =>
      if digit.isDigit then
        some (tenths (10 * (Nat.ofDigitChars 10 whole 0) + Nat.ofDigitChars 10 [digit] 0))
      else none
  | _, _ => none

/-- The number that a text spells. -/
def read : Text → Option ShortNumber
  | '-' :: s => (readUnsigned s).map neg
  | s => readUnsigned s

theorem isDigit_of_mem_toDigits {n : ℕ} : ∀ c, c ∈ Nat.toDigits 10 n → c.isDigit = true :=
  fun _ hc => Nat.isDigit_of_mem_toDigits (by omega) (by omega) hc

theorem readUnsigned_toDigits (n : ℕ) : readUnsigned (Nat.toDigits 10 n) = some (int n) := by
  have hdigits := isDigit_of_mem_toDigits (n := n)
  have htake : (Nat.toDigits 10 n).takeWhile Char.isDigit = Nat.toDigits 10 n :=
    List.takeWhile_eq_self_iff.mpr hdigits
  have hdrop : (Nat.toDigits 10 n).dropWhile Char.isDigit = [] :=
    List.dropWhile_eq_nil_iff.mpr hdigits
  obtain ⟨c, s, hcons⟩ := List.exists_cons_of_ne_nil (Nat.toDigits_ne_nil (n := n) (b := 10))
  have hvalue : Nat.ofDigitChars 10 (c :: s) 0 = n := hcons ▸ Nat.ofDigitChars_ten_toDigits
  rw [readUnsigned, htake, hdrop, hcons]
  dsimp only
  rw [hvalue]

theorem readUnsigned_tenths (n : ℕ) :
    readUnsigned (Nat.toDigits 10 (n / 10) ++ '.' :: Nat.toDigits 10 (n % 10)) =
      some (tenths n) := by
  have hdigits := isDigit_of_mem_toDigits (n := n / 10)
  have htake : (Nat.toDigits 10 (n / 10) ++ '.' :: Nat.toDigits 10 (n % 10)).takeWhile
      Char.isDigit = Nat.toDigits 10 (n / 10) := by
    rw [List.takeWhile_append_of_pos hdigits, List.takeWhile_cons_of_neg (by decide),
      List.append_nil]
  have hdrop : (Nat.toDigits 10 (n / 10) ++ '.' :: Nat.toDigits 10 (n % 10)).dropWhile
      Char.isDigit = '.' :: Nat.toDigits 10 (n % 10) := by
    rw [List.dropWhile_append_of_pos hdigits, List.dropWhile_cons_of_neg (by decide)]
  obtain ⟨c, s, hcons⟩ :=
    List.exists_cons_of_ne_nil (Nat.toDigits_ne_nil (n := n / 10) (b := 10))
  have hwhole : Nat.ofDigitChars 10 (c :: s) 0 = n / 10 := hcons ▸ Nat.ofDigitChars_ten_toDigits
  have hlast : Nat.toDigits 10 (n % 10) = [Nat.digitChar (n % 10)] :=
    Nat.toDigits_of_lt_base (by omega)
  have htenth : Nat.ofDigitChars 10 [Nat.digitChar (n % 10)] 0 = n % 10 :=
    hlast ▸ Nat.ofDigitChars_ten_toDigits
  have hdigit : (Nat.digitChar (n % 10)).isDigit = true :=
    isDigit_of_mem_toDigits _ (hlast ▸ List.mem_singleton_self _)
  rw [readUnsigned, htake, hdrop, hcons, hlast]
  change (if (Nat.digitChar (n % 10)).isDigit = true then _ else _) = _
  rw [if_pos hdigit, hwhole, htenth]
  congr 2
  omega

theorem head?_toDigits (n : ℕ) (rest : Text) : (Nat.toDigits 10 n ++ rest).head? ≠ some '-' := by
  obtain ⟨c, s, hcons⟩ := List.exists_cons_of_ne_nil (Nat.toDigits_ne_nil (n := n) (b := 10))
  rw [hcons]
  rintro ⟨⟩
  have hdigit := isDigit_of_mem_toDigits (n := n) '-' (hcons ▸ List.mem_cons_self)
  cases hdigit

theorem read_of_head?_ne {s : Text} (h : s.head? ≠ some '-') : read s = readUnsigned s := by
  rw [read]
  rintro rest rfl
  exact h rfl

theorem showTenths_eq (n : ℤ) :
    showTenths n =
      let digits := Nat.toDigits 10 (n.natAbs / 10) ++ '.' :: Nat.toDigits 10 (n.natAbs % 10)
      if n < 0 then '-' :: digits else digits := rfl

/-- A short number is read back. -/
theorem read_write (n : ShortNumber) : read n.write = some n := by
  cases n with
  | int n =>
      cases n with
      | ofNat n =>
          have hhead := head?_toDigits n []
          rw [List.append_nil] at hhead
          exact (read_of_head?_ne hhead).trans (readUnsigned_toDigits n)
      | negSucc n =>
          have hread : read (write (int (.negSucc n))) =
              (readUnsigned (Nat.toDigits 10 (n + 1))).map neg := rfl
          rw [hread, readUnsigned_toDigits]
          rfl
  | tenths n =>
      rw [write, showTenths_eq]
      dsimp only
      split
      · rename_i hneg
        have hread := readUnsigned_tenths n.natAbs
        rw [read, hread, Option.map_some, neg]
        congr 2
        omega
      · rename_i hnonneg
        rw [read_of_head?_ne (head?_toDigits _ _), readUnsigned_tenths]
        congr 2
        omega

theorem isNumberChar_of_isDigit {c : Char} (h : c.isDigit = true) : isNumberChar c = true := by
  rw [isNumberChar, h, Bool.true_or]

theorem isNumberChar_showTenths {n : ℤ} {c : Char} (h : c ∈ showTenths n) :
    isNumberChar c = true := by
  have hdigits : c ∈ Nat.toDigits 10 (n.natAbs / 10) ++ '.' :: Nat.toDigits 10 (n.natAbs % 10) →
      isNumberChar c = true := by
    intro hc
    rcases List.mem_append.mp hc with hwhole | hrest
    · exact isNumberChar_of_isDigit (isDigit_of_mem_toDigits c hwhole)
    · rcases List.mem_cons.mp hrest with rfl | htenth
      · rfl
      · exact isNumberChar_of_isDigit (isDigit_of_mem_toDigits c htenth)
  rw [showTenths_eq] at h
  dsimp only at h
  split at h
  · rcases List.mem_cons.mp h with rfl | hc
    · rfl
    · exact hdigits hc
  · exact hdigits h

theorem write_plain (n : ShortNumber) : ∀ c, c ∈ n.write → isNumberChar c = true := by
  intro c hc
  cases n with
  | int n =>
      rcases mem_showInt hc with rfl | hdigit
      · rfl
      · exact isNumberChar_of_isDigit hdigit
  | tenths n => exact isNumberChar_showTenths hc

end ShortNumber

/-! ## Floats -/

/-- An exponent as `repr` writes it, or nothing. -/
def isExponent : Text → Bool
  | [] => true
  | 'e' :: sign :: digits =>
      (sign == '+' || sign == '-') && !digits.isEmpty && digits.all Char.isDigit
  | _ => false

/-- The digits and the exponent of a finite `float`, as `repr` writes them. -/
def isUnsignedFloat (s : Text) : Bool :=
  !(s.takeWhile Char.isDigit).isEmpty &&
    match s.dropWhile Char.isDigit with
    | '.' :: rest =>
        !(rest.takeWhile Char.isDigit).isEmpty && isExponent (rest.dropWhile Char.isDigit)
    | rest => isExponent rest

def isFloat : Text → Bool
  | '-' :: s => isUnsignedFloat s
  | s => isUnsignedFloat s

/-- Any other finite `float`, by what `repr` writes for it. -/
structure FloatText where
  text : Text
  spelled : isFloat text = true
  long : ShortNumber.read text = none
deriving DecidableEq

/-- The numbers of JSON. -/
inductive Number
  | int (n : ℤ)
  /-- A `float` with one decimal, in tenths. -/
  | tenths (n : ℤ)
  | float (x : FloatText)
deriving DecidableEq

namespace Number

def ofShort : ShortNumber → Number
  | .int n => int n
  | .tenths n => tenths n

/-- `json.dumps` of a number. -/
def write : Number → Text
  | int n => showInt n
  | tenths n => showTenths n
  | float x => x.text

/-- The number that a text spells. -/
def read (s : Text) : Option Number :=
  match hshort : ShortNumber.read s with
  | some n => some (ofShort n)
  | none => if h : isFloat s = true then some (float ⟨s, h, hshort⟩) else none

theorem read_of_short {s : Text} {n : ShortNumber} (h : ShortNumber.read s = some n) :
    read s = some (ofShort n) := by
  rw [read]
  split
  · rename_i m hshort
    obtain rfl : m = n := Option.some.inj (hshort.symm.trans h)
    rfl
  · rename_i hshort
    cases hshort.symm.trans h

/-- A number is read back. -/
theorem read_write (n : Number) : read n.write = some n := by
  cases n with
  | int n => exact read_of_short (ShortNumber.read_write (.int n))
  | tenths n => exact read_of_short (ShortNumber.read_write (.tenths n))
  | float x =>
      rw [read]
      split
      · rename_i n hshort
        cases x.long.symm.trans hshort
      · exact dif_pos x.spelled

theorem isNumberChar_of_isExponent {s : Text} (h : isExponent s = true) :
    ∀ c, c ∈ s → isNumberChar c = true := by
  intro c hc
  unfold isExponent at h
  split at h
  · cases hc
  · rename_i sign digits
    simp only [Bool.and_eq_true, Bool.or_eq_true, beq_iff_eq, List.all_eq_true] at h
    obtain ⟨⟨hsign, -⟩, hdigits⟩ := h
    rcases List.mem_cons.mp hc with rfl | hc
    · rfl
    rcases List.mem_cons.mp hc with rfl | hc
    · rcases hsign with rfl | rfl <;> rfl
    · exact ShortNumber.isNumberChar_of_isDigit (hdigits c hc)
  · cases h

/-- Digits, and what comes behind them. -/
theorem isNumberChar_of_digits {s : Text}
    (h : ∀ c, c ∈ s.dropWhile Char.isDigit → isNumberChar c = true) :
    ∀ c, c ∈ s → isNumberChar c = true := by
  intro c hc
  rw [← List.takeWhile_append_dropWhile (p := Char.isDigit) (l := s)] at hc
  rcases List.mem_append.mp hc with hdigit | hrest
  · exact ShortNumber.isNumberChar_of_isDigit (List.mem_takeWhile_imp hdigit)
  · exact h c hrest

theorem isNumberChar_of_isUnsignedFloat {s : Text} (h : isUnsignedFloat s = true) :
    ∀ c, c ∈ s → isNumberChar c = true := by
  refine isNumberChar_of_digits fun c hc => ?_
  rw [isUnsignedFloat, Bool.and_eq_true] at h
  have hbehind := h.2
  split at hbehind
  · rename_i rest hdrop
    rw [hdrop] at hc
    rw [Bool.and_eq_true] at hbehind
    rcases List.mem_cons.mp hc with rfl | hc
    · rfl
    · exact isNumberChar_of_digits (isNumberChar_of_isExponent hbehind.2) c hc
  · exact isNumberChar_of_isExponent hbehind c hc

theorem write_plain (n : Number) : ∀ c, c ∈ n.write → isNumberChar c = true := by
  intro c hc
  cases n with
  | int n => exact ShortNumber.write_plain (.int n) c hc
  | tenths n => exact ShortNumber.write_plain (.tenths n) c hc
  | float x =>
      have hspelled := x.spelled
      rw [write] at hc
      unfold isFloat at hspelled
      split at hspelled
      · rename_i s htext
        rw [htext] at hc
        rcases List.mem_cons.mp hc with rfl | hc
        · rfl
        · exact isNumberChar_of_isUnsignedFloat hspelled c hc
      · exact isNumberChar_of_isUnsignedFloat hspelled c hc

theorem write_ne_nil (n : Number) : n.write ≠ [] := by
  intro hnil
  have hread := read_write n
  rw [hnil] at hread
  cases hread

end Number

/-- How the numbers are written. -/
def numberFormat : NumberFormat Number where
  write := Number.write
  read := Number.read
  write_ne_nil := Number.write_ne_nil
  write_plain := Number.write_plain
  read_write := Number.read_write

end Proxy
end NetworkProxy
