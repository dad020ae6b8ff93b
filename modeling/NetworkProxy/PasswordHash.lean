import NetworkProxy.ByteText
import NetworkProxy.PyTextLaws

/-!
# Password hashing

`hash_password` and `verify_password`.  The key derivation is a parameter: a function
of the password, the salt, the number of iterations and the length of the key.

* `verifyPassword_hashPassword`: a password is verified against a hash exactly if it derives
  the same key.
* `failsClosed_iff`: when `verify_password` answers without an exception, and refuses what is
  not a record.
-/

namespace NetworkProxy
namespace Auth

open Py

/-- `hashlib.pbkdf2_hmac` with the algorithm of the module, on arguments it accepts. -/
structure Pbkdf2 where
  derive : Bytes → Bytes → ℕ → ℕ → Bytes
  length_derive : ∀ password salt iterations dklen,
    (derive password salt iterations dklen).length = dklen

def hashIterations : ℕ := 600000

def saltLength : ℕ := 32

def keyLength : ℕ := 32

def hashPrefix : Text := txt "pbkdf2"

/-- What `os.urandom(_SALT_LENGTH)` returns. -/
structure Salt where
  bytes : Bytes
  length_eq : bytes.length = saltLength

/-- The largest `int` of C. -/
def intMax : ℕ := 2147483647

/-- The largest `long` of C. -/
def longMax : ℕ := 9223372036854775807

/-- `hashlib.pbkdf2_hmac`, with the arguments it refuses; an error is the message of the
exception. -/
def pbkdf2Hmac (kdf : Pbkdf2) (password salt : Bytes) (iterations : ℤ) (dklen : ℕ) :
    Except Text Bytes :=
  if iterations < -longMax - 1 ∨ longMax < iterations then
    .error (txt "Python int too large to convert to C long")
  else if iterations < 1 then .error (txt "iteration value must be greater than 0.")
  else if intMax < iterations.toNat then .error (txt "iteration value is too great.")
  else if dklen < 1 then .error (txt "key length must be greater than 0.")
  else if intMax < dklen then .error (txt "key length is too great.")
  else .ok (kdf.derive password salt iterations.toNat dklen)

/-- `hmac.compare_digest` of two texts. -/
def compareDigest (a b : Text) : Except Text Bool :=
  if a.all (fun c => decide (c.toNat < 128)) ∧ b.all (fun c => decide (c.toNat < 128)) then
    .ok (decide (a = b))
  else .error (txt "comparing strings with non-ASCII characters is not supported")

/-- `pbkdf2$iterations$salt_hex$hash_hex`. -/
def hashRecord (iterations : ℕ) (salt dk : Bytes) : Text :=
  hashPrefix ++ '$' :: showInt iterations ++ '$' :: hex salt ++ '$' :: hex dk

/-- `hash_password`, with the salt it draws. -/
def hashPassword (kdf : Pbkdf2) (plain : Text) (salt : Salt) : Except Text Text := do
  let dk ← pbkdf2Hmac kdf (encode plain) salt.bytes hashIterations keyLength
  return hashRecord hashIterations salt.bytes dk

section Verify

variable (rt : PyRuntime) (kdf : Pbkdf2)

/-- The part of `_verify_pbkdf2` in its `try`: iterations, salt and expected key. -/
def readRecord (stored : Text) : Option (ℤ × Bytes × Bytes) :=
  match stored.splitOn '$' with
  | [_, iterations, saltHex, hashHex] =>
      match parseInt rt iterations, fromhex saltHex, fromhex hashHex with
      | some iterations, some salt, some expected => some (iterations, salt, expected)
      | _, _, _ => none
  | _ => none

/-- `_verify_pbkdf2`. -/
def verifyPbkdf2 (plain stored : Text) : Except Text Bool :=
  match readRecord rt stored with
  | none => .ok false
  | some (iterations, salt, expected) => do
      let dk ← pbkdf2Hmac kdf (encode plain) salt iterations expected.length
      return decide (dk = expected)

/-- `verify_password`. -/
def verifyPassword (plain stored : Text) : Except Text Bool :=
  if (hashPrefix ++ ['$']).isPrefixOf stored then verifyPbkdf2 rt kdf plain stored
  else compareDigest plain stored

end Verify

/-! ## What is hashed is verified -/

section Laws

variable {rt : PyRuntime} {kdf : Pbkdf2}

theorem hashPassword_eq (plain : Text) (salt : Salt) :
    hashPassword kdf plain salt = .ok (hashRecord hashIterations salt.bytes
      (kdf.derive (encode plain) salt.bytes hashIterations keyLength)) := rfl

theorem dollar_not_mem_hex (bs : Bytes) : '$' ∉ hex bs := by
  intro h
  rcases mem_hex h with h | h <;> cases h

/-- A record is printable: it holds no blank and no line end. -/
theorem isSpace_of_mem_hashRecord {iterations : ℕ} {salt dk : Bytes} {c : Char}
    (hc : c ∈ hashRecord iterations salt dk) : isSpace c = false := by
  have hbounds : 36 ≤ c.toNat ∧ c.toNat ≤ 122 := by
    have hhex : ∀ bs : Bytes, c ∈ hex bs → 36 ≤ c.toNat ∧ c.toNat ≤ 122 := by
      intro bs hmem
      rcases mem_hex hmem with hdigit | hlower
      · have := isDigit_bounds hdigit
        omega
      · have := (isLower_iff c).mp hlower
        omega
    have hdollar : ('$' : Char).toNat = 36 := rfl
    simp only [hashRecord, List.mem_append, List.mem_cons] at hc
    rcases hc with ((hc | rfl | hc) | rfl | hc) | rfl | hc
    · have hprefix : hashPrefix.all (fun c => decide (36 ≤ c.toNat ∧ c.toNat ≤ 122)) = true := by
        decide
      exact of_decide_eq_true (List.all_eq_true.mp hprefix c hc)
    · omega
    · have hdigit : c.isDigit = true :=
        Nat.isDigit_of_mem_toDigits (b := 10) (n := iterations) (by omega) (by omega) hc
      have := isDigit_bounds hdigit
      omega
    · omega
    · exact hhex salt hc
    · omega
    · exact hhex dk hc
  simp only [isSpace, Bool.or_eq_false_iff, Bool.and_eq_false_iff, decide_eq_false_iff_not,
    beq_eq_false_iff_ne]
  omega

/-- A record is read as it was written. -/
theorem readRecord_hashRecord {iterations : ℕ} (h : iterations < 10 ^ maxStrDigits)
    (salt dk : Bytes) :
    readRecord rt (hashRecord iterations salt dk) = some ((iterations : ℤ), salt, dk) := by
  have hprefix : '$' ∉ hashPrefix := by decide
  have hdigits : '$' ∉ showInt (iterations : ℤ) := not_mem_showInt (by decide) rfl iterations
  have hparts : (hashRecord iterations salt dk).splitOn '$' =
      [hashPrefix, showInt (iterations : ℤ), hex salt, hex dk] := by
    rw [hashRecord, List.append_assoc, List.append_assoc, List.cons_append, List.cons_append,
      List.splitOn_append_cons_self_of_not_mem hprefix,
      List.splitOn_append_cons_self_of_not_mem hdigits,
      List.splitOn_append_cons_self_of_not_mem (dollar_not_mem_hex salt),
      List.splitOn_eq_singleton (dollar_not_mem_hex dk)]
  rw [readRecord, hparts]
  dsimp only
  rw [parseInt_showInt rt (by simpa using h), fromhex_hex, fromhex_hex]

theorem iterations_lt : hashIterations < 10 ^ maxStrDigits := by
  have hsix : 10 ^ 6 ≤ 10 ^ maxStrDigits := Nat.pow_le_pow_right (by omega) (by decide)
  unfold hashIterations
  omega

/-- Hash, then verify.  A password is verified against the hash of another one exactly
if both derive the same key. -/
theorem verifyPassword_hashPassword (plain other : Text) (salt : Salt) :
    verifyPassword rt kdf other (hashRecord hashIterations salt.bytes
        (kdf.derive (encode plain) salt.bytes hashIterations keyLength)) =
      .ok (decide (kdf.derive (encode other) salt.bytes hashIterations keyLength =
        kdf.derive (encode plain) salt.bytes hashIterations keyLength)) := by
  have hstart : (hashPrefix ++ ['$']).isPrefixOf (hashRecord hashIterations salt.bytes
      (kdf.derive (encode plain) salt.bytes hashIterations keyLength)) = true := rfl
  rw [verifyPassword, if_pos hstart, verifyPbkdf2, readRecord_hashRecord iterations_lt]
  dsimp only
  rw [kdf.length_derive]
  rfl

/-- **Hash, then verify, end to end.**  Whatever salt is drawn, `hash_password` stores a record
that verifies exactly the passwords which derive the same key, its own password among them. -/
theorem verify_hashPassword_iff (rt : PyRuntime) (kdf : Pbkdf2) (p q : Text) (salt : Salt) :
    ∃ stored, hashPassword kdf p salt = .ok stored ∧
      verifyPassword rt kdf q stored = .ok (decide (kdf.derive (encode q) salt.bytes 600000 32 =
        kdf.derive (encode p) salt.bytes 600000 32)) ∧
      verifyPassword rt kdf p stored = .ok true := by
  refine ⟨_, hashPassword_eq p salt, verifyPassword_hashPassword p q salt, ?_⟩
  rw [verifyPassword_hashPassword, decide_eq_true rfl]

end Laws

/-! ## Which checks raise -/

section Totality

variable {rt : PyRuntime} {kdf : Pbkdf2} {plain stored : Text}

/-- A stored credential that is taken for a record. -/
def IsRecord (stored : Text) : Prop := (hashPrefix ++ ['$']).isPrefixOf stored = true

/-- Numbers of iterations and lengths of a key that `pbkdf2_hmac` accepts. -/
def Derivable (iterations : ℤ) (dklen : ℕ) : Prop :=
  1 ≤ iterations ∧ iterations ≤ intMax ∧ 1 ≤ dklen ∧ dklen ≤ intMax

def IsAscii (s : Text) : Prop := ∀ c, c ∈ s → c.toNat < 128

/-- Iterations, salt and hash that can be read, with parameters a key can be derived with. -/
def WellFormedRecord (rt : PyRuntime) (stored : Text) : Prop :=
  ∃ iterations salt expected, readRecord rt stored = some (iterations, salt, expected) ∧
    Derivable iterations expected.length

theorem pbkdf2Hmac_cases (kdf : Pbkdf2) (password salt : Bytes) (iterations : ℤ) (dklen : ℕ) :
    (Derivable iterations dklen ∧ pbkdf2Hmac kdf password salt iterations dklen =
      .ok (kdf.derive password salt iterations.toNat dklen)) ∨
    (¬ Derivable iterations dklen ∧
      ∃ message, pbkdf2Hmac kdf password salt iterations dklen = .error message) := by
  have hmax : intMax ≤ longMax := by decide
  unfold pbkdf2Hmac Derivable
  split
  · exact Or.inr ⟨by omega, _, rfl⟩
  · split
    · exact Or.inr ⟨by omega, _, rfl⟩
    · split
      · exact Or.inr ⟨by omega, _, rfl⟩
      · split
        · exact Or.inr ⟨by omega, _, rfl⟩
        · split
          · exact Or.inr ⟨by omega, _, rfl⟩
          · exact Or.inl ⟨by omega, rfl⟩

theorem compareDigest_cases (a b : Text) :
    (IsAscii a ∧ IsAscii b ∧ compareDigest a b = .ok (decide (a = b))) ∨
    (¬ (IsAscii a ∧ IsAscii b) ∧ ∃ message, compareDigest a b = .error message) := by
  unfold compareDigest IsAscii
  simp only [List.all_eq_true, decide_eq_true_eq]
  split
  · rename_i h
    exact Or.inl ⟨h.1, h.2, rfl⟩
  · rename_i h
    exact Or.inr ⟨h, _, rfl⟩

/-- Verification is total and fails closed: it answers, it compares plaintext, and it refuses
what is not a record. -/
structure FailsClosed (rt : PyRuntime) (kdf : Pbkdf2) (plain stored : Text) : Prop where
  total : ∃ answer, verifyPassword rt kdf plain stored = .ok answer
  plaintext : ¬ IsRecord stored → (verifyPassword rt kdf plain stored = .ok true ↔ plain = stored)
  malformed : IsRecord stored → ¬ WellFormedRecord rt stored →
    verifyPassword rt kdf plain stored = .ok false

/-- What is compared as text is ASCII, and what can be read of a record can be derived with. -/
structure Checkable (rt : PyRuntime) (plain stored : Text) : Prop where
  plaintext : ¬ IsRecord stored → IsAscii plain ∧ IsAscii stored
  record : IsRecord stored → ∀ iterations salt expected,
    readRecord rt stored = some (iterations, salt, expected) →
      Derivable iterations expected.length

theorem verifyPassword_of_not_isRecord (h : ¬ IsRecord stored) :
    verifyPassword rt kdf plain stored = compareDigest plain stored :=
  if_neg h

theorem verifyPassword_of_isRecord (h : IsRecord stored) :
    verifyPassword rt kdf plain stored = verifyPbkdf2 rt kdf plain stored :=
  if_pos h

/-- A record that cannot be read is refused. -/
theorem verifyPassword_of_readRecord_eq_none (kdf : Pbkdf2) (plain : Text) (h : IsRecord stored)
    (hread : readRecord rt stored = none) : verifyPassword rt kdf plain stored = .ok false := by
  rw [verifyPassword_of_isRecord h, verifyPbkdf2, hread]

theorem verifyPassword_of_readRecord (kdf : Pbkdf2) (plain : Text) {iterations : ℤ}
    {salt expected : Bytes} (h : IsRecord stored)
    (hread : readRecord rt stored = some (iterations, salt, expected)) :
    (Derivable iterations expected.length ∧
      ∃ answer, verifyPassword rt kdf plain stored = .ok answer) ∨
    (¬ Derivable iterations expected.length ∧
      ∃ message, verifyPassword rt kdf plain stored = .error message) := by
  rw [verifyPassword_of_isRecord h, verifyPbkdf2, hread]
  dsimp only
  rcases pbkdf2Hmac_cases kdf (encode plain) salt iterations expected.length with
    ⟨hok, he⟩ | ⟨hbad, message, he⟩
  · rw [he]
    exact Or.inl ⟨hok, _, rfl⟩
  · rw [he]
    exact Or.inr ⟨hbad, message, rfl⟩

/-- **When verification is total and fails closed**: exactly if both texts of a plaintext
comparison are ASCII, and a readable record has from 1 to `intMax` iterations and a hash of 1 to
`intMax` bytes. -/
theorem failsClosed_iff (rt : PyRuntime) (kdf : Pbkdf2) (plain stored : Text) :
    FailsClosed rt kdf plain stored ↔ Checkable rt plain stored := by
  constructor
  · intro h
    obtain ⟨answer, hanswer⟩ := h.total
    constructor
    · intro hplain
      rw [verifyPassword_of_not_isRecord hplain] at hanswer
      rcases compareDigest_cases plain stored with ⟨ha, hb, -⟩ | ⟨-, message, he⟩
      · exact ⟨ha, hb⟩
      · rw [he] at hanswer
        cases hanswer
    · intro hrecord iterations salt expected hread
      rcases verifyPassword_of_readRecord kdf plain hrecord hread with
        ⟨hok, -⟩ | ⟨-, message, he⟩
      · exact hok
      · rw [he] at hanswer
        cases hanswer
  · intro h
    by_cases hrecord : IsRecord stored
    · cases hread : readRecord rt stored with
      | none =>
          have hfalse := verifyPassword_of_readRecord_eq_none kdf plain hrecord hread
          exact ⟨⟨_, hfalse⟩, fun hplain => absurd hrecord hplain, fun _ _ => hfalse⟩
      | some record =>
          obtain ⟨iterations, salt, expected⟩ := record
          have hok := h.record hrecord iterations salt expected hread
          have hwell : WellFormedRecord rt stored := ⟨iterations, salt, expected, hread, hok⟩
          rcases verifyPassword_of_readRecord kdf plain hrecord hread with
            ⟨-, hanswer⟩ | ⟨hbad, -⟩
          · exact ⟨hanswer, fun hplain => absurd hrecord hplain, fun _ hbad => absurd hwell hbad⟩
          · exact absurd hok hbad
    · obtain ⟨hplain, hstored⟩ := h.plaintext hrecord
      have hcompare : verifyPassword rt kdf plain stored = .ok (decide (plain = stored)) := by
        rw [verifyPassword_of_not_isRecord hrecord]
        rcases compareDigest_cases plain stored with ⟨-, -, he⟩ | ⟨hbad, -⟩
        · exact he
        · exact absurd ⟨hplain, hstored⟩ hbad
      refine ⟨⟨_, hcompare⟩, fun _ => ?_, fun h' => absurd h' hrecord⟩
      rw [hcompare, Except.ok.injEq, decide_eq_true_iff]

/-- A key derivation that copies its arguments. -/
def copyingKdf : Pbkdf2 where
  derive password salt _ dklen := (password ++ salt ++ List.replicate dklen 0).take dklen
  length_derive _ _ _ _ := by
    rw [List.length_take, List.length_append, List.length_replicate]
    omega

/-- A record of no iterations raises instead of being refused. -/
theorem zero_iterations_raise :
    verifyPassword asciiRuntime copyingKdf (txt "x") (txt "pbkdf2$0$00$00") =
        .error (txt "iteration value must be greater than 0.") ∧
      ¬ FailsClosed asciiRuntime copyingKdf (txt "x") (txt "pbkdf2$0$00$00") := by
  have hraise : verifyPassword asciiRuntime copyingKdf (txt "x") (txt "pbkdf2$0$00$00") =
      .error (txt "iteration value must be greater than 0.") := rfl
  refine ⟨hraise, fun h => ?_⟩
  obtain ⟨answer, hanswer⟩ := h.total
  rw [hraise] at hanswer
  cases hanswer

end Totality

end Auth
end NetworkProxy
