import NetworkProxy.PyUtf8

/-!
# Decoding UTF-8

* `decode_encode`, `decodeIgnore_encode`: decoding undoes encoding.
* `decodeIgnore_append_cons`: an ASCII byte is always read as the character it stands
  for, whatever undecodable bytes stand before it.
-/

namespace NetworkProxy
namespace Py

/-! ## The character at the front -/

theorem isTail_iff {b : UInt8} : isTail b = true ↔ 0x80 ≤ b.toNat ∧ b.toNat ≤ 0xBF := by
  simp [isTail]

theorem firstChar_one {b : UInt8} (hb : b.toNat < 0x80) (bs : Bytes) :
    firstChar (b :: bs) = some (Char.ofNat b.toNat, 0) := by
  simp only [firstChar]
  rw [if_pos hb]

theorem firstChar_two {b b₁ : UInt8} {x y : ℕ} (hb : b.toNat = 0xC0 + x)
    (hb₁ : b₁.toNat = 0x80 + y) (hx : 2 ≤ x ∧ x < 32) (hy : y < 64) (bs : Bytes) :
    firstChar (b :: b₁ :: bs) = some (Char.ofNat (x * 64 + y), 1) := by
  have htail : isTail b₁ = true := isTail_iff.mpr (by omega)
  have hvalue : (b.toNat - 0xC0) * 64 + tailBits b₁ = x * 64 + y := by
    unfold tailBits
    omega
  simp only [firstChar]
  rw [if_neg (by omega), if_pos (by omega), if_pos htail, hvalue]

theorem firstChar_three {b b₁ b₂ : UInt8} {x y z : ℕ} (hb : b.toNat = 0xE0 + x)
    (hb₁ : b₁.toNat = 0x80 + y) (hb₂ : b₂.toNat = 0x80 + z) (hx : x < 16) (hy : y < 64)
    (hz : z < 64) (hlow : 0x800 ≤ x * 4096 + y * 64 + z)
    (hvalid : ¬ (0xD800 ≤ x * 4096 + y * 64 + z ∧ x * 4096 + y * 64 + z ≤ 0xDFFF))
    (bs : Bytes) :
    firstChar (b :: b₁ :: b₂ :: bs) = some (Char.ofNat (x * 4096 + y * 64 + z), 2) := by
  have htail₁ : isTail b₁ = true := isTail_iff.mpr (by omega)
  have htail₂ : isTail b₂ = true := isTail_iff.mpr (by omega)
  have hvalue : (b.toNat - 0xE0) * 4096 + tailBits b₁ * 64 + tailBits b₂ =
      x * 4096 + y * 64 + z := by
    unfold tailBits
    omega
  simp only [firstChar]
  rw [if_neg (by omega), if_neg (by omega), if_pos (by omega), hvalue,
    if_pos ⟨htail₁, htail₂, hlow, hvalid⟩]

theorem firstChar_four {b b₁ b₂ b₃ : UInt8} {w x y z : ℕ} (hb : b.toNat = 0xF0 + w)
    (hb₁ : b₁.toNat = 0x80 + x) (hb₂ : b₂.toNat = 0x80 + y) (hb₃ : b₃.toNat = 0x80 + z)
    (hw : w < 5) (hx : x < 64) (hy : y < 64) (hz : z < 64)
    (hlow : 0x10000 ≤ w * 262144 + x * 4096 + y * 64 + z)
    (hhigh : w * 262144 + x * 4096 + y * 64 + z ≤ 0x10FFFF) (bs : Bytes) :
    firstChar (b :: b₁ :: b₂ :: b₃ :: bs) =
      some (Char.ofNat (w * 262144 + x * 4096 + y * 64 + z), 3) := by
  have htail₁ : isTail b₁ = true := isTail_iff.mpr (by omega)
  have htail₂ : isTail b₂ = true := isTail_iff.mpr (by omega)
  have htail₃ : isTail b₃ = true := isTail_iff.mpr (by omega)
  have hvalue : (b.toNat - 0xF0) * 262144 + tailBits b₁ * 4096 + tailBits b₂ * 64 +
      tailBits b₃ = w * 262144 + x * 4096 + y * 64 + z := by
    unfold tailBits
    omega
  simp only [firstChar]
  rw [if_neg (by omega), if_neg (by omega), if_neg (by omega), if_pos (by omega), hvalue,
    if_pos ⟨htail₁, htail₂, htail₃, hlow, hhigh⟩]

/-- What is read at the front of an encoded character. -/
theorem firstChar_utf8EncodeChar (c : Char) (bs : Bytes) :
    firstChar (String.utf8EncodeChar c ++ bs) =
      some (c, (String.utf8EncodeChar c).length - 1) := by
  have hvalid : c.toNat < 0xD800 ∨ (0xDFFF < c.toNat ∧ c.toNat < 0x110000) := c.valid
  have hbyte {n : ℕ} (hn : n < 256) : (UInt8.ofNat n).toNat = n := by
    rw [UInt8.toNat_ofNat']
    omega
  have hval : c.val.toNat = c.toNat := rfl
  have hchar {n : ℕ} (hn : n = c.toNat) : Char.ofNat n = c := by
    rw [hn]
    exact Char.ofNat_toNat c
  rw [String.utf8EncodeChar, hval]
  split
  · rename_i hone
    have hb := hbyte (n := c.toNat) (by omega)
    refine (firstChar_one (by omega) bs).trans ?_
    rw [hchar hb]
    rfl
  · split
    · rename_i htwo
      have hb := hbyte (n := c.toNat / 64 % 0x20 + 0xc0) (by omega)
      have hb₁ := hbyte (n := c.toNat % 0x40 + 0x80) (by omega)
      refine (firstChar_two (x := c.toNat / 64) (y := c.toNat % 64) (by omega) (by omega)
        (by omega) (by omega) bs).trans ?_
      rw [hchar (by omega)]
      rfl
    · split
      · rename_i hthree
        have hb := hbyte (n := c.toNat / 4096 % 0x10 + 0xe0) (by omega)
        have hb₁ := hbyte (n := c.toNat / 64 % 0x40 + 0x80) (by omega)
        have hb₂ := hbyte (n := c.toNat % 0x40 + 0x80) (by omega)
        refine (firstChar_three (x := c.toNat / 4096) (y := c.toNat / 64 % 64)
          (z := c.toNat % 64) (by omega) (by omega) (by omega) (by omega) (by omega) (by omega)
          (by omega) (by omega) bs).trans ?_
        rw [hchar (by omega)]
        rfl
      · rename_i hfour
        have hb := hbyte (n := c.toNat / 262144 % 0x08 + 0xf0) (by omega)
        have hb₁ := hbyte (n := c.toNat / 4096 % 0x40 + 0x80) (by omega)
        have hb₂ := hbyte (n := c.toNat / 64 % 0x40 + 0x80) (by omega)
        have hb₃ := hbyte (n := c.toNat % 0x40 + 0x80) (by omega)
        refine (firstChar_four (w := c.toNat / 262144) (x := c.toNat / 4096 % 64)
          (y := c.toNat / 64 % 64) (z := c.toNat % 64) (by omega) (by omega) (by omega)
          (by omega) (by omega) (by omega) (by omega) (by omega) (by omega) (by omega) bs).trans ?_
        rw [hchar (by omega)]
        rfl

/-! ## Decoding undoes encoding -/

theorem decodeIgnoreFrom_length (xs bs : Bytes) :
    decodeIgnoreFrom xs.length (xs ++ bs) = decodeIgnore bs := by
  induction xs with
  | nil => rfl
  | cons x xs ih => exact ih

theorem decodeFrom_length (xs bs : Bytes) : decodeFrom xs.length (xs ++ bs) = decode bs := by
  induction xs with
  | nil => rfl
  | cons x xs ih => exact ih

theorem decodeIgnore_utf8EncodeChar (c : Char) (bs : Bytes) :
    decodeIgnore (String.utf8EncodeChar c ++ bs) = c :: decodeIgnore bs := by
  have hfirst := firstChar_utf8EncodeChar c bs
  obtain ⟨x, xs, hblock⟩ := List.exists_cons_of_ne_nil (utf8EncodeChar_ne_nil c)
  rw [hblock, List.cons_append, List.length_cons, Nat.add_sub_cancel] at hfirst
  rw [hblock, List.cons_append, decodeIgnore, decodeIgnoreFrom, hfirst]
  exact congrArg (List.cons c) (decodeIgnoreFrom_length xs bs)

theorem decode_utf8EncodeChar (c : Char) (bs : Bytes) :
    decode (String.utf8EncodeChar c ++ bs) = (decode bs).map (fun s => c :: s) := by
  have hfirst := firstChar_utf8EncodeChar c bs
  obtain ⟨x, xs, hblock⟩ := List.exists_cons_of_ne_nil (utf8EncodeChar_ne_nil c)
  rw [hblock, List.cons_append, List.length_cons, Nat.add_sub_cancel] at hfirst
  rw [hblock, List.cons_append, decode, decodeFrom, hfirst]
  exact congrArg (Option.map fun s => c :: s) (decodeFrom_length xs bs)

theorem decodeIgnore_encode_append (s : Text) (bs : Bytes) :
    decodeIgnore (encode s ++ bs) = s ++ decodeIgnore bs := by
  induction s with
  | nil => rfl
  | cons c s ih =>
      rw [encode_cons, List.append_assoc, decodeIgnore_utf8EncodeChar, ih]
      rfl

/-- Decoding undoes encoding. -/
@[simp] theorem decodeIgnore_encode (s : Text) : decodeIgnore (encode s) = s := by
  have happend := decodeIgnore_encode_append s []
  rw [List.append_nil] at happend
  exact happend.trans (List.append_nil s)

@[simp] theorem decode_encode (s : Text) : decode (encode s) = some s := by
  induction s with
  | nil => rfl
  | cons c s ih => rw [encode_cons, decode_utf8EncodeChar, ih, Option.map_some]

theorem encode_injective : Function.Injective encode := by
  intro s t h
  have hdecode := congrArg decodeIgnore h
  rwa [decodeIgnore_encode, decodeIgnore_encode] at hdecode

/-! ## ASCII bytes among undecodable ones -/

theorem isTail_ascii {x : UInt8} (hx : x.toNat < 128) : isTail x = false := by
  rw [Bool.eq_false_iff]
  intro htail
  have hbounds := isTail_iff.mp htail
  omega

/-- A character takes no more bytes than there are. -/
theorem lt_length_of_firstChar {b₀ : UInt8} {a : Bytes} {c : Char} {k : ℕ}
    (h : firstChar (b₀ :: a) = some (c, k)) : k ≤ a.length := by
  rcases a with _ | ⟨b₁, _ | ⟨b₂, _ | ⟨b₃, a⟩⟩⟩
  all_goals
    simp only [firstChar] at h
    split_ifs at h <;> simp_all <;> omega

/-- What is read at the front does not reach over an ASCII byte. -/
theorem firstChar_append_cons (b₀ : UInt8) (a : Bytes) {x : UInt8} (hx : x.toNat < 128)
    (b : Bytes) : firstChar (b₀ :: a ++ x :: b) = firstChar (b₀ :: a) := by
  have htail := isTail_ascii hx
  rcases a with _ | ⟨b₁, _ | ⟨b₂, _ | ⟨b₃, a⟩⟩⟩
  · rcases b with _ | ⟨b₁, _ | ⟨b₂, b⟩⟩ <;> simp [firstChar, htail]
  · rcases b with _ | ⟨b₂, b⟩ <;> simp [firstChar, htail]
  · simp [firstChar, htail]
  · rfl

/-- An ASCII character is read from its own byte. -/
theorem firstChar_ascii {b₀ : UInt8} {a : Bytes} {c : Char} {k : ℕ}
    (h : firstChar (b₀ :: a) = some (c, k)) (hc : c.toNat < 128) : asciiByte c = b₀ := by
  have hlarge {n j : ℕ} (hread : some (Char.ofNat n, j) = some (c, k)) (hn : 128 ≤ n)
      (hvalid : n.isValidChar) : False := by
    rw [Option.some.injEq, Prod.mk.injEq] at hread
    rw [← hread.1, Char.ofNat, dif_pos hvalid] at hc
    exact absurd hc (Nat.not_lt.mpr hn)
  unfold firstChar at h
  dsimp only at h
  split at h
  · cases h
    exact (asciiByte_ofNat b₀).2
  · exfalso
    split at h
    · split at h
      · split at h
        · rename_i htail
          have htail := isTail_iff.mp htail
          refine hlarge h ?_ (Or.inl ?_) <;> unfold tailBits <;> omega
        · cases h
      · cases h
    · split at h
      · split at h
        · split at h
          · rename_i hcond
            obtain ⟨htail₁, htail₂, hlow, hsurrogate⟩ := hcond
            have htail₁ := isTail_iff.mp htail₁
            have htail₂ := isTail_iff.mp htail₂
            refine hlarge h (by omega) ?_
            unfold Nat.isValidChar
            unfold tailBits at hsurrogate ⊢
            omega
          · cases h
        · cases h
      · split at h
        · split at h
          · split at h
            · rename_i hcond
              obtain ⟨-, -, -, hlow, hhigh⟩ := hcond
              exact hlarge h (by omega) (Or.inr ⟨by omega, by omega⟩)
            · cases h
          · cases h
        · cases h

/-- An ASCII byte is read as the character it stands for, whatever stands before it. -/
theorem decodeIgnore_append_cons (a : Bytes) {x : UInt8} (hx : x.toNat < 128) (b : Bytes) :
    decodeIgnore (a ++ x :: b) = decodeIgnore a ++ Char.ofNat x.toNat :: decodeIgnore b := by
  have main : ∀ k, k ≤ a.length →
      decodeIgnoreFrom k (a ++ x :: b) =
        decodeIgnoreFrom k a ++ Char.ofNat x.toNat :: decodeIgnore b := by
    induction a with
    | nil =>
        intro k hk
        obtain rfl := Nat.le_zero.mp hk
        have hread : decodeIgnoreFrom 0 (x :: b) = Char.ofNat x.toNat :: decodeIgnore b := by
          rw [decodeIgnoreFrom, firstChar_one hx]
          rfl
        exact hread
    | cons b₀ a ih =>
        intro k hk
        cases k with
        | succ k => exact ih k (Nat.le_of_succ_le_succ hk)
        | zero =>
            have hfirst := firstChar_append_cons b₀ a hx b
            rw [List.cons_append] at hfirst
            rw [List.cons_append, decodeIgnoreFrom, decodeIgnoreFrom, hfirst]
            cases hread : firstChar (b₀ :: a) with
            | none => exact ih 0 (Nat.zero_le _)
            | some read =>
                obtain ⟨c, k⟩ := read
                exact congrArg (List.cons c) (ih k (lt_length_of_firstChar hread))
  exact main 0 (Nat.zero_le _)

/-- An ASCII character of a decoded text comes from its own byte. -/
theorem mem_of_mem_decodeIgnore {c : Char} (hc : c.toNat < 128) {bs : Bytes}
    (h : c ∈ decodeIgnore bs) : asciiByte c ∈ bs := by
  have main : ∀ (bs : Bytes) (k : ℕ), c ∈ decodeIgnoreFrom k bs → asciiByte c ∈ bs := by
    intro bs
    induction bs with
    | nil => exact fun k hmem => by cases k <;> cases hmem
    | cons b₀ bs ih =>
        intro k hmem
        cases k with
        | succ k => exact List.mem_cons_of_mem _ (ih k hmem)
        | zero =>
            rw [decodeIgnoreFrom] at hmem
            cases hread : firstChar (b₀ :: bs) with
            | none =>
                rw [hread] at hmem
                exact List.mem_cons_of_mem _ (ih 0 hmem)
            | some read =>
                obtain ⟨d, k⟩ := read
                rw [hread] at hmem
                rcases List.mem_cons.mp hmem with rfl | hmem
                · exact List.mem_cons.mpr (Or.inl (firstChar_ascii hread hc))
                · exact List.mem_cons_of_mem _ (ih k hmem)
  exact main bs 0 h

end Py
end NetworkProxy
