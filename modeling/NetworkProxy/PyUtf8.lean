import Mathlib.Data.List.Induction
import NetworkProxy.PyText

/-!
# UTF-8

`str.encode("utf-8")`, `bytes.decode("utf-8")` and `bytes.decode(errors="ignore")`.
Encoding works letter by letter, and an ASCII byte of the result stands for the
ASCII character it comes from; so separators made of ASCII characters are found
in the encoded text exactly where they are in the text.
-/

namespace NetworkProxy
namespace Py

/-- `s.encode("utf-8")`. -/
def encode (s : Text) : Bytes := (s.map String.utf8EncodeChar).flatten

/-- A continuation byte. -/
def isTail (b : UInt8) : Bool := 0x80 ≤ b.toNat && b.toNat ≤ 0xBF

/-- The six payload bits of a continuation byte. -/
def tailBits (b : UInt8) : Nat := b.toNat - 0x80

/-- The character at the front of a byte string, and the number of bytes it takes
after its first one. -/
def firstChar : Bytes → Option (Char × Nat)
  | [] => none
  | b :: rest =>
      let n := b.toNat
      if n < 0x80 then some (Char.ofNat n, 0)
      else if 0xC2 ≤ n ∧ n ≤ 0xDF then
        match rest with
        | b₁ :: _ =>
            if isTail b₁ then some (Char.ofNat ((n - 0xC0) * 64 + tailBits b₁), 1) else none
        | _ => none
      else if 0xE0 ≤ n ∧ n ≤ 0xEF then
        match rest with
        | b₁ :: b₂ :: _ =>
            let v := (n - 0xE0) * 4096 + tailBits b₁ * 64 + tailBits b₂
            -- neither overlong nor a surrogate
            if isTail b₁ ∧ isTail b₂ ∧ 0x800 ≤ v ∧ ¬ (0xD800 ≤ v ∧ v ≤ 0xDFFF) then
              some (Char.ofNat v, 2)
            else none
        | _ => none
      else if 0xF0 ≤ n ∧ n ≤ 0xF4 then
        match rest with
        | b₁ :: b₂ :: b₃ :: _ =>
            let v := (n - 0xF0) * 262144 + tailBits b₁ * 4096 + tailBits b₂ * 64 + tailBits b₃
            if isTail b₁ ∧ isTail b₂ ∧ isTail b₃ ∧ 0x10000 ≤ v ∧ v ≤ 0x10FFFF then
              some (Char.ofNat v, 3)
            else none
        | _ => none
      else none

/-- Decoding that drops what cannot be decoded; the number counts bytes that belong
to the character read last. -/
def decodeIgnoreFrom : Nat → Bytes → Text
  | _, [] => []
  | k + 1, _ :: bs => decodeIgnoreFrom k bs
  | 0, b :: bs =>
      match firstChar (b :: bs) with
      | some (c, k) => c :: decodeIgnoreFrom k bs
      | none => decodeIgnoreFrom 0 bs

/-- `bs.decode(errors="ignore")`. -/
def decodeIgnore (bs : Bytes) : Text := decodeIgnoreFrom 0 bs

/-- Decoding that fails on what cannot be decoded. -/
def decodeFrom : Nat → Bytes → Option Text
  | _, [] => some []
  | k + 1, _ :: bs => decodeFrom k bs
  | 0, b :: bs =>
      match firstChar (b :: bs) with
      | some (c, k) => (decodeFrom k bs).map (fun s => c :: s)
      | none => none

/-- `bs.decode("utf-8")`; `none` is a `UnicodeDecodeError`. -/
def decode (bs : Bytes) : Option Text := decodeFrom 0 bs

/-! ## ASCII bytes of an encoded text -/

@[simp] theorem encode_nil : encode [] = [] := rfl

theorem encode_cons (c : Char) (s : Text) :
    encode (c :: s) = String.utf8EncodeChar c ++ encode s := by
  rw [encode, List.map_cons, List.flatten_cons, encode]

theorem encode_append (s t : Text) : encode (s ++ t) = encode s ++ encode t := by
  rw [encode, List.map_append, List.flatten_append, encode, encode]

theorem utf8EncodeChar_ascii {c : Char} (h : c.toNat < 128) :
    String.utf8EncodeChar c = [UInt8.ofNat c.toNat] := by
  have hle : c.val.toNat ≤ 0x7f := by
    have : c.val.toNat < 128 := h
    omega
  rw [String.utf8EncodeChar, if_pos hle]
  rfl

/-- A byte below 128 is the whole code of the ASCII character it stands for. -/
theorem utf8EncodeChar_of_mem {c : Char} {b : UInt8} (h : b ∈ String.utf8EncodeChar c)
    (hb : b.toNat < 128) : c.toNat = b.toNat ∧ String.utf8EncodeChar c = [b] := by
  rcases Nat.lt_or_ge c.toNat 128 with hc | hc
  · rw [utf8EncodeChar_ascii hc, List.mem_singleton] at h
    subst h
    rw [utf8EncodeChar_ascii hc]
    refine ⟨?_, rfl⟩
    rw [UInt8.toNat_ofNat']
    omega
  · have hge : ¬ c.val.toNat ≤ 0x7f := by
      have : 128 ≤ c.val.toNat := hc
      omega
    rw [String.utf8EncodeChar, if_neg hge] at h
    split at h
    · simp only [List.mem_cons, List.not_mem_nil, or_false] at h
      rcases h with rfl | rfl <;> rw [UInt8.toNat_ofNat'] at hb <;> omega
    · split at h
      · simp only [List.mem_cons, List.not_mem_nil, or_false] at h
        rcases h with rfl | rfl | rfl <;> rw [UInt8.toNat_ofNat'] at hb <;> omega
      · simp only [List.mem_cons, List.not_mem_nil, or_false] at h
        rcases h with rfl | rfl | rfl | rfl <;> rw [UInt8.toNat_ofNat'] at hb <;> omega

theorem utf8EncodeChar_ne_nil (c : Char) : String.utf8EncodeChar c ≠ [] :=
  String.utf8EncodeChar_ne_nil

/-- The byte of an ASCII character. -/
def asciiByte (c : Char) : UInt8 := UInt8.ofNat c.toNat

theorem toNat_asciiByte {c : Char} (h : c.toNat < 128) : (asciiByte c).toNat = c.toNat := by
  rw [asciiByte, UInt8.toNat_ofNat']
  omega

theorem char_ext_toNat {c d : Char} (h : c.toNat = d.toNat) : c = d :=
  Char.ext (UInt32.toNat_inj.mp h)

/-- The character of an ASCII byte. -/
theorem asciiByte_ofNat (b : UInt8) :
    (Char.ofNat b.toNat).toNat = b.toNat ∧ asciiByte (Char.ofNat b.toNat) = b := by
  have hvalid : b.toNat.isValidChar := Or.inl (by have := b.toNat_lt; omega)
  have hchar : (Char.ofNat b.toNat).toNat = b.toNat := by
    rw [Char.ofNat, dif_pos hvalid]
    rfl
  refine ⟨hchar, ?_⟩
  rw [asciiByte, hchar]
  exact UInt8.ofNat_toNat

theorem eq_of_asciiByte_mem {a c : Char} (ha : a.toNat < 128)
    (h : asciiByte a ∈ String.utf8EncodeChar c) :
    c = a ∧ String.utf8EncodeChar c = [asciiByte a] := by
  have hb := toNat_asciiByte ha
  obtain ⟨hc, henc⟩ := utf8EncodeChar_of_mem h (by omega)
  exact ⟨char_ext_toNat (hc.trans hb), henc⟩

theorem block_encode {a b : Char} (ha : a.toNat < 128) (hb : b.toNat < 128) (s : Text) :
    List.Forall₂ (Block a b (asciiByte a) (asciiByte b)) s (s.map String.utf8EncodeChar) := by
  induction s with
  | nil => exact .nil
  | cons c s ih =>
      exact .cons ⟨utf8EncodeChar_ne_nil c, eq_of_asciiByte_mem ha, eq_of_asciiByte_mem hb⟩ ih

/-- Encoding makes no separator where there was none. -/
theorem NoPair.encode {a b : Char} (ha : a.toNat < 128) (hb : b.toNat < 128) {s : Text}
    (h : NoPair a b s) : NoPair (asciiByte a) (asciiByte b) (encode s) :=
  NoPair.blocks (block_encode ha hb s) h

theorem mem_of_asciiByte_mem_encode {a : Char} (ha : a.toNat < 128) {s : Text}
    (h : asciiByte a ∈ encode s) : a ∈ s := by
  rw [encode, List.mem_flatten] at h
  obtain ⟨block, hblock, hmem⟩ := h
  obtain ⟨c, hc, rfl⟩ := List.mem_map.mp hblock
  obtain ⟨rfl, -⟩ := eq_of_asciiByte_mem ha hmem
  exact hc

theorem encode_ne_nil {s : Text} (h : s ≠ []) : encode s ≠ [] := by
  cases s with
  | nil => exact absurd rfl h
  | cons c s =>
      rw [encode_cons]
      exact fun he => utf8EncodeChar_ne_nil c (List.append_eq_nil_iff.mp he).1

/-- An ASCII text is determined by its encoding. -/
theorem encode_inj_of_ascii {t : Text} (ht : ∀ c, c ∈ t → c.toNat < 128) :
    ∀ {s : Text}, encode s = encode t → s = t := by
  induction t with
  | nil =>
      intro s h
      by_contra hs
      exact encode_ne_nil hs h
  | cons c t ih =>
      intro s h
      have hc := ht c List.mem_cons_self
      rw [encode_cons c t, utf8EncodeChar_ascii hc] at h
      cases s with
      | nil => cases h
      | cons d s =>
          rw [encode_cons] at h
          obtain ⟨b, bs, hblock⟩ := List.exists_cons_of_ne_nil (utf8EncodeChar_ne_nil d)
          rw [hblock, List.cons_append, List.singleton_append, List.cons.injEq] at h
          have hmem : asciiByte c ∈ String.utf8EncodeChar d := by
            rw [hblock, h.1]
            exact List.mem_cons_self
          obtain ⟨rfl, hsingle⟩ := eq_of_asciiByte_mem hc hmem
          rw [hblock, List.cons.injEq] at hsingle
          rw [hsingle.2, List.nil_append] at h
          rw [ih (fun x hx => ht x (List.mem_cons_of_mem _ hx)) h.2]

theorem head?_encode {s : Text} {b : UInt8} (h : (encode s).head? = some b) :
    ∃ c, s.head? = some c ∧ b ∈ String.utf8EncodeChar c := by
  cases s with
  | nil => cases h
  | cons c s =>
      refine ⟨c, rfl, ?_⟩
      obtain ⟨x, xs, hblock⟩ := List.exists_cons_of_ne_nil (utf8EncodeChar_ne_nil c)
      rw [encode_cons, hblock, List.cons_append, List.head?_cons, Option.some.injEq] at h
      rw [hblock, ← h]
      exact List.mem_cons_self

theorem getLast?_encode {s : Text} {b : UInt8} (h : (encode s).getLast? = some b) :
    ∃ c, s.getLast? = some c ∧ b ∈ String.utf8EncodeChar c := by
  induction s using List.reverseRecOn with
  | nil => cases h
  | append_singleton s c _ =>
      refine ⟨c, by simp, ?_⟩
      rw [encode_append, encode_cons, encode_nil, List.append_nil,
        List.getLast?_append_of_ne_nil _ (utf8EncodeChar_ne_nil c)] at h
      exact List.mem_of_getLast? h

theorem encode_joinPair {a b : Char} (ha : a.toNat < 128) (hb : b.toNat < 128) :
    ∀ ls : List Text,
      encode (joinPair a b ls) = joinPair (asciiByte a) (asciiByte b) (ls.map encode)
  | [] => rfl
  | [l] => rfl
  | l :: m :: ls => by
      have ih := encode_joinPair ha hb (m :: ls)
      rw [joinPair, encode_append, encode_cons, encode_cons, ih,
        utf8EncodeChar_ascii ha, utf8EncodeChar_ascii hb]
      rfl

end Py
end NetworkProxy
