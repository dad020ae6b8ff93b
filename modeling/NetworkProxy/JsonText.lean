import NetworkProxy.ByteText
import NetworkProxy.LineEnds
import NetworkProxy.PyTextLaws

/-!
# JSON texts

`json.dumps` with `ensure_ascii=False` on strings, arrays and objects, over any numbers, and a
reader of such texts.

* `visible_dumps`: no control character below U+0020 is written.
* `loads_dumps`: what is written is read back.
-/

namespace NetworkProxy
namespace JsonText

open Py

/-- JSON values, with the numbers `ν`. -/
inductive Json (ν : Type)
  | number (n : ν)
  | string (s : Text)
  | array (items : List (Json ν))
  | object (members : List (Text × Json ν))

/-- A character of a JSON number. -/
def isNumberChar (c : Char) : Bool := c.isDigit || ['-', '+', '.', 'e', 'E'].contains c

/-- How numbers are written and read. -/
structure NumberFormat (ν : Type) where
  write : ν → Text
  read : Text → Option ν
  write_ne_nil : ∀ n, write n ≠ []
  write_plain : ∀ n c, c ∈ write n → isNumberChar c = true
  read_write : ∀ n, read (write n) = some n

/-! ## Writing -/

/-- The letter behind the backslash, for a character with a short escape. -/
def escapeLetter (c : Char) : Option Char :=
  if c = '"' then some '"'
  else if c = '\\' then some '\\'
  else if c = '\n' then some 'n'
  else if c = '\r' then some 'r'
  else if c = '\t' then some 't'
  else if c = Char.ofNat 8 then some 'b'
  else if c = Char.ofNat 12 then some 'f'
  else none

/-- A character inside a string literal. -/
def escapeChar (c : Char) : Text :=
  match escapeLetter c with
  | some letter => ['\\', letter]
  | none =>
      if c.toNat < 32 then
        ['\\', 'u', '0', '0', Nat.digitChar (c.toNat / 16), Nat.digitChar (c.toNat % 16)]
      else [c]

/-- A string literal. -/
def quote (s : Text) : Text := '"' :: s.flatMap escapeChar ++ ['"']

section Writer

variable {ν : Type} (fmt : NumberFormat ν)

mutual

/-- `json.dumps(value, ensure_ascii=False)`. -/
def dumps : Json ν → Text
  | .number n => fmt.write n
  | .string s => quote s
  | .array items => '[' :: dumpsItems items ++ [']']
  | .object members => '{' :: dumpsMembers members ++ ['}']
termination_by structural v => v

def dumpsItems : List (Json ν) → Text
  | [] => []
  | [v] => dumps v
  | v :: w :: items => dumps v ++ ',' :: ' ' :: dumpsItems (w :: items)
termination_by structural items => items

def dumpsMembers : List (Text × Json ν) → Text
  | [] => []
  | [(key, v)] => quote key ++ ':' :: ' ' :: dumps v
  | (key, v) :: m :: members =>
      quote key ++ ':' :: ' ' :: dumps v ++ ',' :: ' ' :: dumpsMembers (m :: members)
termination_by structural members => members

end

end Writer

/-! ## Reading -/

/-- A blank between two tokens. -/
def isBlank (c : Char) : Bool := c == ' ' || c == '\t' || c == '\n' || c == '\r'

def skipBlanks (s : Text) : Text := s.dropWhile isBlank

/-- The character named by the letter behind a backslash. -/
def unescape : Char → Option Char
  | '"' => some '"'
  | '\\' => some '\\'
  | '/' => some '/'
  | 'b' => some (Char.ofNat 8)
  | 'f' => some (Char.ofNat 12)
  | 'n' => some '\n'
  | 'r' => some '\r'
  | 't' => some '\t'
  | _ => none

/-- The character of four hexadecimal digits. -/
def hexChar (a b c d : Char) : Option Char := do
  let a ← hexValue a
  let b ← hexValue b
  let c ← hexValue c
  let d ← hexValue d
  return Char.ofNat (4096 * a + 256 * b + 16 * c + d)

/-- The characters up to the closing quote, and the text behind it. -/
def readChars : Text → Option (Text × Text)
  | [] => none
  | '"' :: rest => some ([], rest)
  | '\\' :: 'u' :: a :: b :: c :: d :: rest => do
      let x ← hexChar a b c d
      let (s, rest) ← readChars rest
      return (x :: s, rest)
  | '\\' :: c :: rest => do
      let x ← unescape c
      let (s, rest) ← readChars rest
      return (x :: s, rest)
  | c :: rest =>
      if c.toNat < 32 then none
      else do
        let (s, rest) ← readChars rest
        return (c :: s, rest)

section Reader

variable {ν : Type} (fmt : NumberFormat ν)

mutual

/-- A value and the text behind it. -/
def readValue : ℕ → Text → Option (Json ν × Text)
  | 0, _ => none
  | fuel + 1, s =>
      match skipBlanks s with
      | '"' :: rest => do
          let (s, rest) ← readChars rest
          return (.string s, rest)
      | '[' :: rest =>
          match skipBlanks rest with
          | ']' :: rest => some (.array [], rest)
          | rest => do
              let (items, rest) ← readItems fuel rest
              return (.array items, rest)
      | '{' :: rest =>
          match skipBlanks rest with
          | '}' :: rest => some (.object [], rest)
          | rest => do
              let (members, rest) ← readMembers fuel rest
              return (.object members, rest)
      | s => do
          let n ← fmt.read (s.takeWhile isNumberChar)
          return (.number n, s.dropWhile isNumberChar)
termination_by structural fuel => fuel

/-- The items up to the closing bracket. -/
def readItems : ℕ → Text → Option (List (Json ν) × Text)
  | 0, _ => none
  | fuel + 1, s => do
      let (v, rest) ← readValue fuel s
      match skipBlanks rest with
      | ',' :: rest => do
          let (items, rest) ← readItems fuel rest
          return (v :: items, rest)
      | ']' :: rest => some ([v], rest)
      | _ => none
termination_by structural fuel => fuel

/-- The members up to the closing brace. -/
def readMembers : ℕ → Text → Option (List (Text × Json ν) × Text)
  | 0, _ => none
  | fuel + 1, s =>
      match skipBlanks s with
      | '"' :: rest => do
          let (key, rest) ← readChars rest
          match skipBlanks rest with
          | ':' :: rest => do
              let (v, rest) ← readValue fuel rest
              match skipBlanks rest with
              | ',' :: rest => do
                  let (members, rest) ← readMembers fuel rest
                  return ((key, v) :: members, rest)
              | '}' :: rest => some ([(key, v)], rest)
              | _ => none
          | _ => none
      | _ => none
termination_by structural fuel => fuel

end

/-- The value of a text.  A reading that goes through takes fewer steps than the text is long. -/
def loads (s : Text) : Option (Json ν) :=
  match readValue fmt (s.length + 1) s with
  | some (v, rest) => if skipBlanks rest = [] then some v else none
  | none => none

end Reader

/-! ## What is written -/

/-- No character of the text is a control character below U+0020. -/
def Visible (s : Text) : Prop := ∀ c, c ∈ s → 32 ≤ c.toNat

instance (s : Text) : Decidable (Visible s) := List.decidableBAll (fun c : Char => 32 ≤ c.toNat) s

theorem visible_append {s t : Text} : Visible (s ++ t) ↔ Visible s ∧ Visible t :=
  List.forall_mem_append

theorem visible_cons {c : Char} {s : Text} : Visible (c :: s) ↔ 32 ≤ c.toNat ∧ Visible s :=
  List.forall_mem_cons

theorem visible_digitChar : ∀ n : ℕ, n < 16 → 32 ≤ (Nat.digitChar n).toNat := by
  decide

theorem of_escapeLetter {c letter : Char} (h : escapeLetter c = some letter) :
    32 ≤ letter.toNat ∧ letter ≠ 'u' ∧ unescape letter = some c := by
  unfold escapeLetter at h
  split_ifs at h with hquote hbackslash hlf hcr htab hbackspace hformfeed
  all_goals
    obtain rfl := Option.some.inj h
    subst c
    decide

theorem visible_escapeChar (c : Char) : Visible (escapeChar c) := by
  rw [escapeChar]
  split
  · rename_i letter hletter
    exact visible_cons.mpr ⟨by decide, visible_cons.mpr
      ⟨(of_escapeLetter hletter).1, List.forall_mem_nil _⟩⟩
  · split
    · rename_i hcontrol
      have hhigh := visible_digitChar (c.toNat / 16) (by omega)
      have hlow := visible_digitChar (c.toNat % 16) (by omega)
      simp [Visible, hhigh, hlow]
    · rename_i hcontrol
      exact visible_cons.mpr ⟨by omega, List.forall_mem_nil _⟩

theorem visible_quote (s : Text) : Visible (quote s) := by
  have hbody : Visible (s.flatMap escapeChar) := by
    intro d hd
    obtain ⟨c, -, hdc⟩ := List.mem_flatMap.mp hd
    exact visible_escapeChar c d hdc
  exact visible_append.mpr ⟨visible_cons.mpr ⟨by decide, hbody⟩, by decide⟩

theorem visible_of_isNumberChar {c : Char} (h : isNumberChar c = true) : 32 ≤ c.toNat := by
  rw [isNumberChar, Bool.or_eq_true] at h
  rcases h with hdigit | hsign
  · have := isDigit_bounds hdigit
    omega
  · have hmem : c = '-' ∨ c = '+' ∨ c = '.' ∨ c = 'e' ∨ c = 'E' := by simpa using hsign
    rcases hmem with rfl | rfl | rfl | rfl | rfl <;> decide

section Written

variable {ν : Type} (fmt : NumberFormat ν)

mutual

/-- No control character is written. -/
theorem visible_dumps : ∀ v : Json ν, Visible (dumps fmt v)
  | .number n => fun c hc => visible_of_isNumberChar (fmt.write_plain n c hc)
  | .string s => visible_quote s
  | .array items =>
      visible_append.mpr ⟨visible_cons.mpr ⟨by decide, visible_dumpsItems items⟩, by decide⟩
  | .object members =>
      visible_append.mpr ⟨visible_cons.mpr ⟨by decide, visible_dumpsMembers members⟩, by decide⟩

theorem visible_dumpsItems : ∀ items : List (Json ν), Visible (dumpsItems fmt items)
  | [] => nofun
  | [v] => visible_dumps v
  | v :: w :: items => by
      refine visible_append.mpr ⟨visible_dumps v, ?_⟩
      exact visible_cons.mpr ⟨by decide, visible_cons.mpr
        ⟨by decide, visible_dumpsItems (w :: items)⟩⟩

theorem visible_dumpsMembers :
    ∀ members : List (Text × Json ν), Visible (dumpsMembers fmt members)
  | [] => nofun
  | [(key, v)] => by
      refine visible_append.mpr ⟨visible_quote key, ?_⟩
      exact visible_cons.mpr ⟨by decide, visible_cons.mpr ⟨by decide, visible_dumps v⟩⟩
  | (key, v) :: m :: members => by
      refine visible_append.mpr ⟨visible_append.mpr ⟨visible_quote key, ?_⟩, ?_⟩
      · exact visible_cons.mpr ⟨by decide, visible_cons.mpr ⟨by decide, visible_dumps v⟩⟩
      · exact visible_cons.mpr ⟨by decide, visible_cons.mpr
          ⟨by decide, visible_dumpsMembers (m :: members)⟩⟩

end

/-- The text of a value is one line. -/
theorem avoids_dumps (v : Json ν) : Avoids '\r' '\n' (dumps fmt v) :=
  ⟨fun hc => absurd (visible_dumps fmt v _ hc) (by decide),
    fun hc => absurd (visible_dumps fmt v _ hc) (by decide)⟩

end Written

/-! ## What is read back -/

theorem skipBlanks_cons {c : Char} {s : Text} (h : isBlank c = false) :
    skipBlanks (c :: s) = c :: s :=
  List.dropWhile_cons_of_neg (by rw [h]; exact Bool.false_ne_true)

/-- A character is read back from what it was escaped to. -/
theorem readChars_escapeChar (c : Char) (rest : Text) :
    readChars (escapeChar c ++ rest) = (readChars rest).map fun r => (c :: r.1, r.2) := by
  rw [escapeChar]
  split
  · rename_i letter hletter
    obtain ⟨-, hne, hread⟩ := of_escapeLetter hletter
    rw [List.cons_append, List.cons_append, List.nil_append, readChars]
    · rw [hread]
      cases readChars rest <;> rfl
    · intro a b c d rest'
      exact fun h => absurd h hne
  · rename_i hletter
    split
    · rename_i hcontrol
      have hhigh := (hexValue_digitChar (c.toNat / 16) (by omega)).1
      have hlow := (hexValue_digitChar (c.toNat % 16) (by omega)).1
      have hzero : hexValue '0' = some 0 := rfl
      have hchar : hexChar '0' '0' (Nat.digitChar (c.toNat / 16)) (Nat.digitChar (c.toNat % 16)) =
          some c := by
        rw [hexChar, hzero, hhigh, hlow]
        have hcode : 4096 * 0 + 256 * 0 + 16 * (c.toNat / 16) + c.toNat % 16 = c.toNat := by omega
        exact congrArg some (by rw [hcode, Char.ofNat_toNat])
      simp only [List.cons_append, List.nil_append, readChars]
      rw [hchar]
      cases readChars rest <;> rfl
    · rename_i hvisible
      have hquote : c ≠ '"' := by
        rintro rfl
        cases hletter
      have hbackslash : c ≠ '\\' := by
        rintro rfl
        cases hletter
      rw [List.singleton_append, readChars, if_neg hvisible]
      · cases readChars rest <;> rfl
      · exact hquote
      · exact fun _ _ _ _ _ h => absurd h hbackslash
      · exact fun _ _ h => absurd h hbackslash

theorem readChars_quote (s rest : Text) :
    readChars (s.flatMap escapeChar ++ '"' :: rest) = some (s, rest) := by
  induction s with
  | nil => rfl
  | cons c s ih =>
      rw [List.flatMap_cons, List.append_assoc, readChars_escapeChar, ih]
      rfl

/-- No number goes on in the text. -/
def Ends (rest : Text) : Prop := ∀ c, rest.head? = some c → isNumberChar c = false

theorem ends_cons {c : Char} {rest : Text} (h : isNumberChar c = false) : Ends (c :: rest) := by
  rintro _ ⟨⟩
  exact h

theorem takeWhile_of_ends {s rest : Text} (hs : ∀ c, c ∈ s → isNumberChar c = true)
    (hrest : Ends rest) :
    (s ++ rest).takeWhile isNumberChar = s ∧ (s ++ rest).dropWhile isNumberChar = rest := by
  rw [List.takeWhile_append_of_pos hs, List.dropWhile_append_of_pos hs]
  cases rest with
  | nil => exact ⟨List.append_nil s, rfl⟩
  | cons c rest =>
      have hc : ¬ isNumberChar c = true := by
        rw [hrest c rfl]
        exact Bool.false_ne_true
      rw [List.takeWhile_cons_of_neg hc, List.dropWhile_cons_of_neg hc, List.append_nil]
      exact ⟨rfl, rfl⟩

section Read

variable {ν : Type} (fmt : NumberFormat ν)

/-- The first character of a value. -/
theorem dumps_eq_cons (v : Json ν) :
    ∃ c rest, dumps fmt v = c :: rest ∧ isBlank c = false ∧ c ≠ ']' := by
  cases v with
  | number n =>
      obtain ⟨c, rest, hcons⟩ := List.exists_cons_of_ne_nil (fmt.write_ne_nil n)
      have hc : isNumberChar c = true := fmt.write_plain n c (by simp [hcons])
      refine ⟨c, rest, hcons, ?_, ?_⟩
      · cases hblank : isBlank c with
        | false => rfl
        | true =>
            have hmem : c = ' ' ∨ c = '\t' ∨ c = '\n' ∨ c = '\r' := by
              simpa [isBlank, or_assoc] using hblank
            rcases hmem with rfl | rfl | rfl | rfl <;> cases hc
      · rintro rfl
        cases hc
  | string s => exact ⟨'"', _, rfl, rfl, by decide⟩
  | array items => exact ⟨'[', _, rfl, rfl, by decide⟩
  | object members => exact ⟨'{', _, rfl, rfl, by decide⟩

theorem dumpsItems_eq_cons {items : List (Json ν)} (h : items ≠ []) :
    ∃ c rest, dumpsItems fmt items = c :: rest ∧ isBlank c = false ∧ c ≠ ']' := by
  cases items with
  | nil => exact absurd rfl h
  | cons v items =>
      obtain ⟨c, rest, hcons, hc⟩ := dumps_eq_cons fmt v
      cases items with
      | nil => exact ⟨c, rest, hcons, hc⟩
      | cons w items =>
          exact ⟨c, rest ++ ',' :: ' ' :: dumpsItems fmt (w :: items), by
            rw [dumpsItems, hcons]; rfl, hc⟩

theorem dumpsMembers_eq_cons {members : List (Text × Json ν)} (h : members ≠ []) :
    ∃ rest, dumpsMembers fmt members = '"' :: rest := by
  match members, h with
  | [(key, v)], _ => exact ⟨_, rfl⟩
  | (key, v) :: m :: members, _ => exact ⟨_, rfl⟩

/-- A blank before a token is passed over. -/
theorem readItems_blank (fuel : ℕ) (s : Text) :
    readItems fmt fuel (' ' :: s) = readItems fmt fuel s := by
  cases fuel with
  | zero => rfl
  | succ fuel =>
      cases fuel with
      | zero => rfl
      | succ fuel => rfl

theorem readMembers_blank (fuel : ℕ) (s : Text) :
    readMembers fmt fuel (' ' :: s) = readMembers fmt fuel s := by
  cases fuel with
  | zero => rfl
  | succ fuel => rfl

theorem readValue_blank (fuel : ℕ) (s : Text) :
    readValue fmt fuel (' ' :: s) = readValue fmt fuel s := by
  cases fuel with
  | zero => rfl
  | succ fuel => rfl

theorem readValue_number (fuel : ℕ) (n : ν) {rest : Text} (hrest : Ends rest) :
    readValue fmt (fuel + 1) (fmt.write n ++ rest) = some (.number n, rest) := by
  obtain ⟨c, s, hcons, hblank, -⟩ := dumps_eq_cons fmt (.number n)
  have hwritten : fmt.write n = c :: s := hcons
  have hc : isNumberChar c = true := fmt.write_plain n c (by simp [hwritten])
  have hskip : skipBlanks (fmt.write n ++ rest) = fmt.write n ++ rest := by
    rw [hwritten]
    exact skipBlanks_cons hblank
  obtain ⟨htake, hdrop⟩ := takeWhile_of_ends (fmt.write_plain n) hrest
  rw [readValue, hskip]
  split
  · rename_i hstring
    rw [hwritten] at hstring
    obtain ⟨rfl, -⟩ := List.cons.inj hstring
    cases hc
  · rename_i harray
    rw [hwritten] at harray
    obtain ⟨rfl, -⟩ := List.cons.inj harray
    cases hc
  · rename_i hobject
    rw [hwritten] at hobject
    obtain ⟨rfl, -⟩ := List.cons.inj hobject
    cases hc
  · rw [htake, hdrop, fmt.read_write]
    rfl

theorem readValue_string (fuel : ℕ) (s rest : Text) :
    readValue fmt (fuel + 1) (quote s ++ rest) = some (.string s, rest) := by
  have htext : quote s ++ rest = '"' :: (s.flatMap escapeChar ++ '"' :: rest) := by
    simp [quote]
  rw [htext]
  change (readChars (s.flatMap escapeChar ++ '"' :: rest)).bind _ = _
  rw [readChars_quote]
  rfl

theorem readValue_bracket (fuel : ℕ) {c : Char} {s : Text} (hs : skipBlanks (c :: s) = c :: s)
    (hc : c ≠ ']') :
    readValue fmt (fuel + 1) ('[' :: c :: s) =
      (readItems fmt fuel (c :: s)).bind fun r => some (.array r.1, r.2) := by
  rw [readValue, skipBlanks_cons rfl]
  split
  · rename_i hstring
    cases hstring
  · rename_i rest harray
    obtain ⟨-, rfl⟩ := List.cons.inj harray
    rw [hs]
    split
    · rename_i hempty
      exact absurd (List.cons.inj hempty).1 hc
    · rfl
  · rename_i hobject
    cases hobject
  · rename_i harray _
    exact absurd rfl (harray _)

theorem readValue_array {fuel : ℕ} {items : List (Json ν)} {rest : Text}
    (hitems : items ≠ [] →
      readItems fmt fuel (dumpsItems fmt items ++ ']' :: rest) = some (items, rest)) :
    readValue fmt (fuel + 1) (dumps fmt (.array items) ++ rest) = some (.array items, rest) := by
  have htext : dumps fmt (.array items) ++ rest = '[' :: (dumpsItems fmt items ++ ']' :: rest) := by
    simp [dumps]
  rw [htext]
  by_cases hnil : items = []
  · subst hnil
    rfl
  · obtain ⟨c, s, hcons, hblank, hclose⟩ := dumpsItems_eq_cons fmt hnil
    have hread := hitems hnil
    rw [hcons, List.cons_append] at hread ⊢
    rw [readValue_bracket fmt fuel (skipBlanks_cons hblank) hclose, hread]
    rfl

theorem readValue_object {fuel : ℕ} {members : List (Text × Json ν)} {rest : Text}
    (hmembers : members ≠ [] →
      readMembers fmt fuel (dumpsMembers fmt members ++ '}' :: rest) = some (members, rest)) :
    readValue fmt (fuel + 1) (dumps fmt (.object members) ++ rest) =
      some (.object members, rest) := by
  have htext : dumps fmt (.object members) ++ rest =
      '{' :: (dumpsMembers fmt members ++ '}' :: rest) := by
    simp [dumps]
  rw [htext]
  by_cases hnil : members = []
  · subst hnil
    rfl
  · obtain ⟨s, hcons⟩ := dumpsMembers_eq_cons fmt hnil
    have hread := hmembers hnil
    rw [hcons, List.cons_append] at hread ⊢
    change (readMembers fmt fuel ('"' :: (s ++ '}' :: rest))).bind _ = _
    rw [hread]
    rfl

theorem readItems_last {fuel : ℕ} {s rest : Text} {v : Json ν}
    (h : readValue fmt fuel s = some (v, ']' :: rest)) :
    readItems fmt (fuel + 1) s = some ([v], rest) := by
  rw [readItems, h]
  rfl

theorem readItems_more {fuel : ℕ} {s t rest : Text} {v : Json ν} {items : List (Json ν)}
    (h : readValue fmt fuel s = some (v, ',' :: ' ' :: t))
    (hitems : readItems fmt fuel t = some (items, rest)) :
    readItems fmt (fuel + 1) s = some (v :: items, rest) := by
  have hblank := (readItems_blank fmt fuel t).trans hitems
  rw [readItems, h]
  change (readItems fmt fuel (' ' :: t)).bind _ = _
  rw [hblank]
  rfl

theorem readMembers_last {fuel : ℕ} {key s rest : Text} {v : Json ν}
    (h : readValue fmt fuel s = some (v, '}' :: rest)) :
    readMembers fmt (fuel + 1) (quote key ++ ':' :: ' ' :: s) = some ([(key, v)], rest) := by
  have htext : quote key ++ ':' :: ' ' :: s =
      '"' :: (key.flatMap escapeChar ++ '"' :: ':' :: ' ' :: s) := by
    simp [quote]
  have hblank := (readValue_blank fmt fuel s).trans h
  rw [htext]
  change (readChars (key.flatMap escapeChar ++ '"' :: ':' :: ' ' :: s)).bind _ = _
  rw [readChars_quote]
  change (readValue fmt fuel (' ' :: s)).bind _ = _
  rw [hblank]
  rfl

theorem readMembers_more {fuel : ℕ} {key s t rest : Text} {v : Json ν}
    {members : List (Text × Json ν)}
    (h : readValue fmt fuel s = some (v, ',' :: ' ' :: t))
    (hmembers : readMembers fmt fuel t = some (members, rest)) :
    readMembers fmt (fuel + 1) (quote key ++ ':' :: ' ' :: s) =
      some ((key, v) :: members, rest) := by
  have htext : quote key ++ ':' :: ' ' :: s =
      '"' :: (key.flatMap escapeChar ++ '"' :: ':' :: ' ' :: s) := by
    simp [quote]
  have hblank := (readValue_blank fmt fuel s).trans h
  have hrest := (readMembers_blank fmt fuel t).trans hmembers
  rw [htext]
  change (readChars (key.flatMap escapeChar ++ '"' :: ':' :: ' ' :: s)).bind _ = _
  rw [readChars_quote]
  change (readValue fmt fuel (' ' :: s)).bind _ = _
  rw [hblank]
  change (readMembers fmt fuel (' ' :: t)).bind _ = _
  rw [hrest]
  rfl

mutual

/-- A value is read back in front of any text that does not go on with a number. -/
theorem readValue_dumps : ∀ (v : Json ν) {fuel : ℕ} {rest : Text},
    (dumps fmt v).length < fuel → Ends rest →
      readValue fmt fuel (dumps fmt v ++ rest) = some (v, rest)
  | .number n, fuel + 1, _, _, hrest => readValue_number fmt fuel n hrest
  | .string s, fuel + 1, rest, _, _ => readValue_string fmt fuel s rest
  | .array items, fuel + 1, _, hfuel, _ =>
      readValue_array fmt fun hne => readItems_dumps items hne (by
        simp only [dumps, List.length_append, List.length_cons, List.length_nil] at hfuel
        omega)
  | .object members, fuel + 1, _, hfuel, _ =>
      readValue_object fmt fun hne => readMembers_dumps members hne (by
        simp only [dumps, List.length_append, List.length_cons, List.length_nil] at hfuel
        omega)

theorem readItems_dumps : ∀ (items : List (Json ν)) {fuel : ℕ} {rest : Text}, items ≠ [] →
    (dumpsItems fmt items).length + 1 < fuel →
      readItems fmt fuel (dumpsItems fmt items ++ ']' :: rest) = some (items, rest)
  | [v], fuel + 1, _, _, hfuel =>
      readItems_last fmt (readValue_dumps v (Nat.lt_of_succ_lt_succ hfuel) (ends_cons rfl))
  | v :: w :: items, fuel + 1, rest, _, hfuel => by
      simp only [dumpsItems, List.length_append, List.length_cons] at hfuel
      rw [dumpsItems, List.append_assoc]
      exact readItems_more fmt (readValue_dumps v (by omega) (ends_cons rfl))
        (readItems_dumps (w :: items) (List.cons_ne_nil w items) (by omega))

theorem readMembers_dumps : ∀ (members : List (Text × Json ν)) {fuel : ℕ} {rest : Text},
    members ≠ [] → (dumpsMembers fmt members).length + 1 < fuel →
      readMembers fmt fuel (dumpsMembers fmt members ++ '}' :: rest) = some (members, rest)
  | [(key, v)], fuel + 1, rest, _, hfuel => by
      simp only [dumpsMembers, List.length_append, List.length_cons] at hfuel
      have htext : dumpsMembers fmt [(key, v)] ++ '}' :: rest =
          quote key ++ ':' :: ' ' :: (dumps fmt v ++ '}' :: rest) := by
        simp [dumpsMembers]
      rw [htext]
      exact readMembers_last fmt (readValue_dumps v (by omega) (ends_cons rfl))
  | (key, v) :: m :: members, fuel + 1, rest, _, hfuel => by
      simp only [dumpsMembers, List.length_append, List.length_cons] at hfuel
      have htext : dumpsMembers fmt ((key, v) :: m :: members) ++ '}' :: rest =
          quote key ++ ':' :: ' ' ::
            (dumps fmt v ++ ',' :: ' ' :: (dumpsMembers fmt (m :: members) ++ '}' :: rest)) := by
        simp [dumpsMembers]
      rw [htext]
      exact readMembers_more fmt (readValue_dumps v (by omega) (ends_cons rfl))
        (readMembers_dumps (m :: members) (List.cons_ne_nil m members) (by omega))

end

/-- What is written is read back. -/
theorem loads_dumps (v : Json ν) : loads fmt (dumps fmt v) = some v := by
  have hread : readValue fmt ((dumps fmt v).length + 1) (dumps fmt v ++ []) = some (v, []) :=
    readValue_dumps fmt v (Nat.lt_succ_self _) nofun
  rw [List.append_nil] at hread
  rw [loads, hread]
  rfl

end Read

end JsonText
end NetworkProxy
