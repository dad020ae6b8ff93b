import NetworkProxy.BasicAuth

/-!
# Bytes as text

`bytes.hex`, `bytes.fromhex` and `base64.b64encode`.

* `fromhex_hex`, `b64decode_b64encode`: both codecs read back what they wrote.
* `mem_hex`, `mem_b64encode`: the letters that are written.
-/

namespace NetworkProxy
namespace Py

/-! ## Hexadecimal digits -/

/-- `bs.hex()`. -/
def hex (bs : Bytes) : Text :=
  bs.flatMap (fun b => [Nat.digitChar (b.toNat / 16), Nat.digitChar (b.toNat % 16)])

/-- The value of a hexadecimal digit. -/
def hexValue (c : Char) : Option ℕ :=
  if c.isDigit then some (c.toNat - 48)
  else if 97 ≤ c.toNat ∧ c.toNat ≤ 102 then some (c.toNat - 87)
  else if 65 ≤ c.toNat ∧ c.toNat ≤ 70 then some (c.toNat - 55)
  else none

/-- `bytes.fromhex(s)`, which passes over blanks between the bytes; `none` is a
`ValueError`. -/
def fromhex : Text → Option Bytes
  | [] => some []
  | [c] => if isAsciiSpace c.toNat then some [] else none
  | c :: d :: s =>
      if isAsciiSpace c.toNat then fromhex (d :: s)
      else
        match hexValue c, hexValue d with
        | some high, some low =>
            (fromhex s).map (fun bs => UInt8.ofNat (16 * high + low) :: bs)
        | _, _ => none

theorem hexValue_digitChar :
    ∀ n : ℕ, n < 16 → hexValue (Nat.digitChar n) = some n ∧
      isAsciiSpace (Nat.digitChar n).toNat = false := by
  decide

/-- Hexadecimal digits are read back. -/
@[simp] theorem fromhex_hex (bs : Bytes) : fromhex (hex bs) = some bs := by
  induction bs with
  | nil => rfl
  | cons b bs ih =>
      have hb := b.toNat_lt
      obtain ⟨hhigh, hspace⟩ := hexValue_digitChar (b.toNat / 16) (by omega)
      obtain ⟨hlow, -⟩ := hexValue_digitChar (b.toNat % 16) (by omega)
      have hcons : hex (b :: bs) =
          Nat.digitChar (b.toNat / 16) :: Nat.digitChar (b.toNat % 16) :: hex bs := rfl
      have hbyte : UInt8.ofNat (16 * (b.toNat / 16) + b.toNat % 16) = b := by
        rw [Nat.div_add_mod]
        exact UInt8.ofNat_toNat
      rw [hcons, fromhex, if_neg (by simp [hspace]), hhigh, hlow]
      dsimp only
      rw [ih, Option.map_some, hbyte]

/-- A hexadecimal digit is a digit or a small letter. -/
theorem mem_hex {c : Char} {bs : Bytes} (h : c ∈ hex bs) : c.isDigit = true ∨ c.isLower = true := by
  have hdigit : ∀ n : ℕ, n < 16 → (Nat.digitChar n).isDigit = true ∨
      (Nat.digitChar n).isLower = true := by decide
  rw [hex, List.mem_flatMap] at h
  obtain ⟨b, -, hc⟩ := h
  have hb := b.toNat_lt
  simp only [List.mem_cons, List.not_mem_nil, or_false] at hc
  rcases hc with rfl | rfl
  · exact hdigit _ (by omega)
  · exact hdigit _ (by omega)

/-! ## Base64 -/

/-- A letter of the base64 alphabet. -/
def base64Char (v : ℕ) : Char :=
  if v < 26 then Char.ofNat (65 + v)
  else if v < 52 then Char.ofNat (71 + v)
  else if v < 62 then Char.ofNat (v - 4)
  else if v = 62 then '+'
  else '/'

/-- `base64.b64encode(bs)`, as a text. -/
def b64encode : Bytes → Text
  | [] => []
  | [a] => [base64Char (a.toNat / 4), base64Char (a.toNat % 4 * 16), '=', '=']
  | [a, b] =>
      [base64Char (a.toNat / 4), base64Char (a.toNat % 4 * 16 + b.toNat / 16),
        base64Char (b.toNat % 16 * 4), '=']
  | a :: b :: c :: bs =>
      base64Char (a.toNat / 4) :: base64Char (a.toNat % 4 * 16 + b.toNat / 16) ::
        base64Char (b.toNat % 16 * 4 + c.toNat / 64) :: base64Char (c.toNat % 64) ::
          b64encode bs

example : b64encode (ascii "user:pass") = txt "dXNlcjpwYXNz" := by decide +kernel

theorem base64Value_base64Char :
    ∀ v : ℕ, v < 64 → base64Value (base64Char v) = some v ∧ base64Char v ≠ '=' ∧
      (base64Char v).toNat < 128 ∧ isSpace (base64Char v) = false := by
  decide +kernel

section Groups

variable {v : ℕ} (hv : v < 64) (cs : Text) (leftChar pads : ℕ) (out : Bytes)

/-! The four letters of a group. -/

include hv

theorem a2bBase64_first :
    a2bBase64 (base64Char v :: cs) 0 leftChar pads out = a2bBase64 cs 1 v 0 out := by
  obtain ⟨hvalue, hpad, -⟩ := base64Value_base64Char v hv
  rw [a2bBase64, if_neg hpad, hvalue]
  rfl

theorem a2bBase64_second :
    a2bBase64 (base64Char v :: cs) 1 leftChar pads out =
      a2bBase64 cs 2 (v % 16) 0 (out ++ [UInt8.ofNat (leftChar * 4 + v / 16)]) := by
  obtain ⟨hvalue, hpad, -⟩ := base64Value_base64Char v hv
  rw [a2bBase64, if_neg hpad, hvalue]
  rfl

theorem a2bBase64_third :
    a2bBase64 (base64Char v :: cs) 2 leftChar pads out =
      a2bBase64 cs 3 (v % 4) 0 (out ++ [UInt8.ofNat (leftChar * 16 + v / 4)]) := by
  obtain ⟨hvalue, hpad, -⟩ := base64Value_base64Char v hv
  rw [a2bBase64, if_neg hpad, hvalue]
  rfl

theorem a2bBase64_fourth :
    a2bBase64 (base64Char v :: cs) 3 leftChar pads out =
      a2bBase64 cs 0 0 0 (out ++ [UInt8.ofNat (leftChar * 64 + v)]) := by
  obtain ⟨hvalue, hpad, -⟩ := base64Value_base64Char v hv
  rw [a2bBase64, if_neg hpad, hvalue]
  rfl

end Groups

theorem ofNat_eq_of_eq {n : ℕ} {b : UInt8} (h : n = b.toNat) : UInt8.ofNat n = b := by
  rw [h]
  exact UInt8.ofNat_toNat

/-- Base64 is read back, behind what was read before. -/
theorem a2bBase64_b64encode (bs : Bytes) :
    ∀ out : Bytes, a2bBase64 (b64encode bs) 0 0 0 out = some (out ++ bs) := by
  induction bs using b64encode.induct with
  | case1 =>
      intro out
      rw [b64encode, a2bBase64, if_pos rfl, List.append_nil]
  | case2 a =>
      intro out
      have ha := a.toNat_lt
      rw [b64encode, a2bBase64_first (by omega), a2bBase64_second (by omega),
        ofNat_eq_of_eq (b := a) (by omega)]
      rfl
  | case3 a b =>
      intro out
      have ha := a.toNat_lt
      have hb := b.toNat_lt
      rw [b64encode, a2bBase64_first (by omega), a2bBase64_second (by omega),
        a2bBase64_third (by omega), ofNat_eq_of_eq (b := a) (by omega),
        ofNat_eq_of_eq (b := b) (by omega), List.append_assoc]
      rfl
  | case4 a b c bs ih =>
      intro out
      have ha := a.toNat_lt
      have hb := b.toNat_lt
      have hc := c.toNat_lt
      rw [b64encode, a2bBase64_first (by omega), a2bBase64_second (by omega),
        a2bBase64_third (by omega), a2bBase64_fourth (by omega),
        ofNat_eq_of_eq (b := a) (by omega), ofNat_eq_of_eq (b := b) (by omega),
        ofNat_eq_of_eq (b := c) (by omega), ih]
      simp

/-- The letters of base64 are ASCII and no blanks. -/
theorem mem_b64encode {ch : Char} :
    ∀ {bs : Bytes}, ch ∈ b64encode bs → ch.toNat < 128 ∧ isSpace ch = false := by
  have hletter : ∀ v : ℕ, v < 64 →
      (base64Char v).toNat < 128 ∧ isSpace (base64Char v) = false :=
    fun v hv => (base64Value_base64Char v hv).2.2
  have hpad : ('=' : Char).toNat < 128 ∧ isSpace '=' = false := by decide
  intro bs
  induction bs using b64encode.induct with
  | case1 => exact nofun
  | case2 a =>
      intro h
      have ha := a.toNat_lt
      simp only [b64encode, List.mem_cons, List.not_mem_nil, or_false] at h
      rcases h with rfl | rfl | rfl | rfl
      · exact hletter _ (by omega)
      · exact hletter _ (by omega)
      · exact hpad
      · exact hpad
  | case3 a b =>
      intro h
      have ha := a.toNat_lt
      have hb := b.toNat_lt
      simp only [b64encode, List.mem_cons, List.not_mem_nil, or_false] at h
      rcases h with rfl | rfl | rfl | rfl
      · exact hletter _ (by omega)
      · exact hletter _ (by omega)
      · exact hletter _ (by omega)
      · exact hpad
  | case4 a b c bs ih =>
      intro h
      have ha := a.toNat_lt
      have hb := b.toNat_lt
      have hc := c.toNat_lt
      simp only [b64encode, List.mem_cons] at h
      rcases h with rfl | rfl | rfl | rfl | h
      · exact hletter _ (by omega)
      · exact hletter _ (by omega)
      · exact hletter _ (by omega)
      · exact hletter _ (by omega)
      · exact ih h

/-- Base64 is read back. -/
@[simp] theorem b64decode_b64encode (bs : Bytes) : b64decode (b64encode bs) = some bs := by
  have hascii : (b64encode bs).all (fun c => decide (c.toNat < 128)) = true :=
    List.all_eq_true.mpr fun c hc => decide_eq_true (mem_b64encode hc).1
  rw [b64decode, if_pos hascii, a2bBase64_b64encode, List.nil_append]

theorem b64encode_ne_nil {bs : Bytes} (h : bs ≠ []) : b64encode bs ≠ [] := by
  rcases bs with _ | ⟨a, _ | ⟨b, _ | ⟨c, bs⟩⟩⟩
  · exact absurd rfl h
  all_goals exact List.cons_ne_nil _ _

end Py
end NetworkProxy
