import NetworkProxy.PyText

/-!
# Tokens of HTML

The tokenizer of HTML texts as a state machine, one character at a time.  A token is a character,
a tag with its attributes, a comment or a document type.  Character references are characters in
any case and stay as they are written, as do NUL characters and repeated attributes; what the
tree builder feeds back (raw text inside some elements) is left out.

`tokens_document_iff`: in a document that alternates texts with tags, the texts are read as their
characters exactly if no text opens markup.
-/

namespace NetworkProxy
namespace HtmlTokens

open Py

/-! ## Tokens and states -/

inductive Token
  | char (c : Char)
  | startTag (name : Text) (attributes : List (Text × Text)) (selfClosing : Bool)
  | endTag (name : Text)
  | comment (data : Text)
  | doctype (data : Text)
deriving DecidableEq

/-- A tag that is being read. -/
structure Draft where
  isEnd : Bool
  name : Text
  attributes : List (Text × Text)

def Draft.push (d : Draft) (c : Char) : Draft := { d with name := d.name ++ [c.toLower] }

def Draft.add (d : Draft) (name value : Text) : Draft :=
  { d with attributes := d.attributes ++ [(name, value)] }

/-- The token of a tag; an end tag has no attributes. -/
def Draft.token (d : Draft) (selfClosing : Bool) : Token :=
  if d.isEnd then .endTag d.name else .startTag d.name d.attributes selfClosing

/-- How an attribute value is written. -/
inductive Quoting
  | double
  | single
  | unquoted
deriving DecidableEq

inductive State
  | data
  | tagOpen
  | endTagOpen
  | tagName (d : Draft)
  | beforeAttributeName (d : Draft)
  | attributeName (d : Draft) (name : Text)
  | afterAttributeName (d : Draft) (name : Text)
  | beforeAttributeValue (d : Draft) (name : Text)
  | attributeValue (quoting : Quoting) (d : Draft) (name value : Text)
  | afterAttributeValue (d : Draft)
  | selfClosing (d : Draft)
  | markupDeclaration (seen : Text)
  | bogusComment (data : Text)
  | comment (data : Text)
  | doctype (data : Text)

/-- White space of markup. -/
def isMarkupSpace (c : Char) : Bool := ['\t', '\n', Char.ofNat 12, '\r', ' '].contains c

/-! ## The tokenizer -/

/-- The end of a tag. -/
def close (d : Draft) (selfClosing : Bool) : State × List Token := (.data, [d.token selfClosing])

/-- A character where an attribute may begin. -/
def stepAttribute (d : Draft) (c : Char) : State × List Token :=
  if isMarkupSpace c then (.beforeAttributeName d, [])
  else if c = '/' then (.selfClosing d, [])
  else if c = '>' then close d false
  else (.attributeName d [c.toLower], [])

/-- A character of an attribute value. -/
def stepValue (quoting : Quoting) (d : Draft) (name value : Text) (c : Char) :
    State × List Token :=
  match quoting with
  | .double =>
      if c = '"' then (.afterAttributeValue (d.add name value), [])
      else (.attributeValue .double d name (value ++ [c]), [])
  | .single =>
      if c = '\'' then (.afterAttributeValue (d.add name value), [])
      else (.attributeValue .single d name (value ++ [c]), [])
  | .unquoted =>
      if isMarkupSpace c then (.beforeAttributeName (d.add name value), [])
      else if c = '>' then close (d.add name value) false
      else (.attributeValue .unquoted d name (value ++ [c]), [])

/-- The data of a comment that a `>` closes, from what was read of it. -/
def closedComment (data : Text) : Option Text :=
  if data = [] ∨ data = ['-'] then some []
  else if ['-', '-'].isSuffixOf data then some (data.take (data.length - 2))
  else if ['-', '-', '!'].isSuffixOf data then some (data.take (data.length - 3))
  else none

/-- The data of a comment that the text ends in. -/
def openComment (data : Text) : Text :=
  if ['-', '-', '!'].isSuffixOf data then data.take (data.length - 3)
  else if ['-', '-'].isSuffixOf data then data.take (data.length - 2)
  else if ['-'].isSuffixOf data then data.take (data.length - 1)
  else data

/-- A character behind `<!`. -/
def stepDeclaration (seen : Text) (c : Char) : State × List Token :=
  let seen' := seen ++ [c]
  if seen' = txt "--" then (.comment [], [])
  else if seen'.map Char.toLower = txt "doctype" then (.doctype [], [])
  else if seen'.isPrefixOf (txt "--") ∨ (seen'.map Char.toLower).isPrefixOf (txt "doctype") then
    (.markupDeclaration seen', [])
  else if c = '>' then (.data, [.comment seen])
  else (.bogusComment seen', [])

/-- A character in a state, and the tokens it completes. -/
def step : State → Char → State × List Token
  | .data, c => if c = '<' then (.tagOpen, []) else (.data, [.char c])
  | .tagOpen, c =>
      if c.isAlpha then (.tagName ⟨false, [c.toLower], []⟩, [])
      else if c = '/' then (.endTagOpen, [])
      else if c = '!' then (.markupDeclaration [], [])
      else if c = '?' then (.bogusComment ['?'], [])
      else if c = '<' then (.tagOpen, [.char '<'])
      else (.data, [.char '<', .char c])
  | .endTagOpen, c =>
      if c.isAlpha then (.tagName ⟨true, [c.toLower], []⟩, [])
      -- `</>` is dropped.
      else if c = '>' then (.data, [])
      else (.bogusComment [c], [])
  | .tagName d, c =>
      if isMarkupSpace c then (.beforeAttributeName d, [])
      else if c = '/' then (.selfClosing d, [])
      else if c = '>' then close d false
      else (.tagName (d.push c), [])
  | .beforeAttributeName d, c => stepAttribute d c
  | .attributeName d name, c =>
      if isMarkupSpace c then (.afterAttributeName d name, [])
      else if c = '/' then (.selfClosing (d.add name []), [])
      else if c = '>' then close (d.add name []) false
      else if c = '=' then (.beforeAttributeValue d name, [])
      else (.attributeName d (name ++ [c.toLower]), [])
  | .afterAttributeName d name, c =>
      if isMarkupSpace c then (.afterAttributeName d name, [])
      else if c = '=' then (.beforeAttributeValue d name, [])
      else stepAttribute (d.add name []) c
  | .beforeAttributeValue d name, c =>
      if isMarkupSpace c then (.beforeAttributeValue d name, [])
      else if c = '"' then (.attributeValue .double d name [], [])
      else if c = '\'' then (.attributeValue .single d name [], [])
      else if c = '>' then close (d.add name []) false
      else (.attributeValue .unquoted d name [c], [])
  | .attributeValue quoting d name value, c => stepValue quoting d name value c
  | .afterAttributeValue d, c => stepAttribute d c
  | .selfClosing d, c => if c = '>' then close d true else stepAttribute d c
  | .markupDeclaration seen, c => stepDeclaration seen c
  | .bogusComment data, c =>
      if c = '>' then (.data, [.comment data]) else (.bogusComment (data ++ [c]), [])
  | .comment data, c =>
      match (if c = '>' then closedComment data else none) with
      | some closed => (.data, [.comment closed])
      | none => (.comment (data ++ [c]), [])
  | .doctype data, c =>
      if c = '>' then (.data, [.doctype data]) else (.doctype (data ++ [c]), [])

/-- The tokens at the end of the text; an unfinished tag is dropped. -/
def finish : State → List Token
  | .tagOpen => [.char '<']
  | .endTagOpen => [.char '<', .char '/']
  | .markupDeclaration seen => [.comment seen]
  | .bogusComment data => [.comment data]
  | .comment data => [.comment (openComment data)]
  | .doctype data => [.doctype data]
  | _ => []

/-- The tokens of a text read from a state on. -/
def tokensFrom : State → Text → List Token
  | st, [] => finish st
  | st, c :: s => (step st c).2 ++ tokensFrom (step st c).1 s

/-- The tokens of a text. -/
def tokens (s : Text) : List Token := tokensFrom .data s

/-! ## Tags as they are written -/

/-- A character of a name in lower case. -/
def isNameChar (c : Char) : Bool :=
  !(isMarkupSpace c || c == '/' || c == '>' || c == '=' || c.isUpper)

/-- A tag whose names and values the tokenizer takes as they are written. -/
structure Tag where
  isEnd : Bool
  name : Text
  attributes : List (Text × Text)
  head_alpha : name.head?.any Char.isAlpha = true
  name_plain : name.all isNameChar = true
  attributes_plain : ∀ a, a ∈ attributes → a.1 ≠ [] ∧ a.1.all isNameChar = true ∧ '"' ∉ a.2

namespace Tag

/-- An attribute, with the blank before it. -/
def attributeText (a : Text × Text) : Text := ' ' :: a.1 ++ '=' :: '"' :: a.2 ++ ['"']

def text (tag : Tag) : Text :=
  '<' :: (if tag.isEnd then ['/'] else []) ++ tag.name ++ tag.attributes.flatMap attributeText ++
    ['>']

def token (tag : Tag) : Token := Draft.token ⟨tag.isEnd, tag.name, tag.attributes⟩ false

end Tag

theorem of_isNameChar {c : Char} (h : isNameChar c = true) :
    isMarkupSpace c = false ∧ c ≠ '/' ∧ c ≠ '>' ∧ c ≠ '=' ∧ c.toLower = c := by
  simp only [isNameChar, Bool.not_eq_true', Bool.or_eq_false_iff, beq_eq_false_iff_ne] at h
  obtain ⟨⟨⟨⟨hspace, hslash⟩, hclose⟩, hequals⟩, hupper⟩ := h
  exact ⟨hspace, hslash, hclose, hequals, toLower_eq_self (by simp [hupper])⟩

theorem tokensFrom_tagName {name : Text} (h : name.all isNameChar = true) (d : Draft)
    (rest : Text) :
    tokensFrom (.tagName d) (name ++ rest) =
      tokensFrom (.tagName { d with name := d.name ++ name }) rest := by
  induction name generalizing d with
  | nil => simp
  | cons c name ih =>
      obtain ⟨hc, hname⟩ := Bool.and_eq_true_iff.mp h
      obtain ⟨hspace, hslash, hclose, -, hlower⟩ := of_isNameChar hc
      have hstep : step (.tagName d) c = (.tagName (d.push c), []) := by
        simp [step, hspace, hslash, hclose]
      rw [List.cons_append, tokensFrom, hstep, List.nil_append, ih hname, Draft.push, hlower]
      simp

theorem tokensFrom_attributeName {name : Text} (h : name.all isNameChar = true)
    (d : Draft) (seen rest : Text) :
    tokensFrom (.attributeName d seen) (name ++ rest) =
      tokensFrom (.attributeName d (seen ++ name)) rest := by
  induction name generalizing seen with
  | nil => simp
  | cons c name ih =>
      obtain ⟨hc, hname⟩ := Bool.and_eq_true_iff.mp h
      obtain ⟨hspace, hslash, hclose, hequals, hlower⟩ := of_isNameChar hc
      have hstep : step (.attributeName d seen) c = (.attributeName d (seen ++ [c]), []) := by
        simp [step, hspace, hslash, hclose, hequals, hlower]
      rw [List.cons_append, tokensFrom, hstep, List.nil_append, ih hname]
      simp

theorem tokensFrom_attributeValue {value : Text} (h : '"' ∉ value) (d : Draft)
    (name seen rest : Text) :
    tokensFrom (.attributeValue .double d name seen) (value ++ '"' :: rest) =
      tokensFrom (.afterAttributeValue (d.add name (seen ++ value))) rest := by
  induction value generalizing seen with
  | nil => simp [tokensFrom, step, stepValue]
  | cons c value ih =>
      rw [List.mem_cons, not_or] at h
      have hstep : step (.attributeValue .double d name seen) c =
          (.attributeValue .double d name (seen ++ [c]), []) := by
        simp [step, stepValue, Ne.symm h.1]
      rw [List.cons_append, tokensFrom, hstep, List.nil_append, ih h.2]
      simp

/-- A state behind the name or an attribute of a tag. -/
def Between (st : State) (d : Draft) : Prop := st = .tagName d ∨ st = .afterAttributeValue d

theorem tokensFrom_attribute {a : Text × Text} (hne : a.1 ≠ [])
    (hname : a.1.all isNameChar = true) (hvalue : '"' ∉ a.2) {st : State} {d : Draft}
    (hst : Between st d) (rest : Text) :
    tokensFrom st (Tag.attributeText a ++ rest) =
      tokensFrom (.afterAttributeValue (d.add a.1 a.2)) rest := by
  obtain ⟨name, value⟩ := a
  obtain ⟨c, name, rfl⟩ := List.exists_cons_of_ne_nil hne
  obtain ⟨hc, hname⟩ := Bool.and_eq_true_iff.mp hname
  obtain ⟨hspace, hslash, hclose, -, hlower⟩ := of_isNameChar hc
  have htext : Tag.attributeText (c :: name, value) ++ rest =
      ' ' :: c :: (name ++ '=' :: '"' :: (value ++ '"' :: rest)) := by
    simp [Tag.attributeText]
  have hblank : step st ' ' = (.beforeAttributeName d, []) := by
    rcases hst with rfl | rfl <;> rfl
  have hfirst : step (.beforeAttributeName d) c = (.attributeName d [c], []) := by
    simp [step, stepAttribute, hspace, hslash, hclose, hlower]
  have hequals : step (.attributeName d ([c] ++ name)) '=' =
      (.beforeAttributeValue d (c :: name), []) := rfl
  have hquote : step (.beforeAttributeValue d (c :: name)) '"' =
      (.attributeValue .double d (c :: name) [], []) := rfl
  rw [htext, tokensFrom, hblank, List.nil_append, tokensFrom, hfirst, List.nil_append,
    tokensFrom_attributeName hname, tokensFrom, hequals, List.nil_append, tokensFrom, hquote,
    List.nil_append, tokensFrom_attributeValue hvalue]
  rfl

theorem tokensFrom_attributes {attributes : List (Text × Text)}
    (h : ∀ a, a ∈ attributes → a.1 ≠ [] ∧ a.1.all isNameChar = true ∧ '"' ∉ a.2)
    {st : State} {d : Draft} (hst : Between st d) (rest : Text) :
    tokensFrom st (attributes.flatMap Tag.attributeText ++ '>' :: rest) =
      Draft.token { d with attributes := d.attributes ++ attributes } false ::
        tokensFrom .data rest := by
  induction attributes generalizing st d with
  | nil =>
      have hclose : step st '>' = close d false := by
        rcases hst with rfl | rfl <;> rfl
      rw [List.flatMap_nil, List.nil_append, tokensFrom, hclose]
      simp [close]
  | cons a attributes ih =>
      obtain ⟨⟨hne, hname, hvalue⟩, hrest⟩ := List.forall_mem_cons.mp h
      rw [List.flatMap_cons, List.append_assoc, tokensFrom_attribute hne hname hvalue hst,
        ih hrest (Or.inr rfl), Draft.add]
      simp

/-- A tag is read as it is written. -/
theorem tokensFrom_tag (tag : Tag) (rest : Text) :
    tokensFrom .data (tag.text ++ rest) = tag.token :: tokensFrom .data rest := by
  obtain ⟨isEnd, name, attributes, hhead, hname, hattributes⟩ := tag
  cases name with
  | nil => cases hhead
  | cons c name =>
      have halpha : c.isAlpha = true := hhead
      obtain ⟨hc, hname⟩ := Bool.and_eq_true_iff.mp hname
      have hlower := (of_isNameChar hc).2.2.2.2
      have hread : ∀ b, tokensFrom (.tagName ⟨b, [c], []⟩)
          (name ++ (attributes.flatMap Tag.attributeText ++ '>' :: rest)) =
            Draft.token ⟨b, c :: name, attributes⟩ false :: tokensFrom .data rest := by
        intro b
        rw [tokensFrom_tagName hname, tokensFrom_attributes hattributes (Or.inl rfl)]
        rfl
      have hdata : step .data '<' = (.tagOpen, []) := rfl
      cases isEnd with
      | false =>
          have hopen : step .tagOpen c = (.tagName ⟨false, [c], []⟩, []) := by
            simp [step, halpha, hlower]
          have htext : Tag.text ⟨false, c :: name, attributes, hhead, ‹_›, hattributes⟩ ++ rest =
              '<' :: c :: (name ++ (attributes.flatMap Tag.attributeText ++ '>' :: rest)) := by
            simp [Tag.text]
          rw [htext, tokensFrom, tokensFrom, hdata, hopen]
          exact hread false
      | true =>
          have hslash : step .tagOpen '/' = (.endTagOpen, []) := rfl
          have hopen : step .endTagOpen c = (.tagName ⟨true, [c], []⟩, []) := by
            simp [step, halpha, hlower]
          have htext : Tag.text ⟨true, c :: name, attributes, hhead, ‹_›, hattributes⟩ ++ rest =
              '<' :: '/' :: c ::
                (name ++ (attributes.flatMap Tag.attributeText ++ '>' :: rest)) := by
            simp [Tag.text]
          rw [htext, tokensFrom, tokensFrom, tokensFrom, hdata, hslash, hopen]
          exact hread true

/-! ## Texts that open no markup -/

/-- A character that opens markup behind a `<`. -/
def opensMarkup (c : Char) : Bool := c.isAlpha || c == '/' || c == '!' || c == '?'

/-- No `<` of the text opens markup. -/
def Inert (s : Text) : Prop := ∀ c, opensMarkup c = true → ¬ ['<', c] <:+: s

theorem inert_nil : Inert [] := by
  intro c _ h
  have hlength := h.length_le
  simp at hlength

theorem inert_cons {c : Char} {s : Text} :
    Inert (c :: s) ↔ (c = '<' → ∀ d, s.head? = some d → opensMarkup d = false) ∧ Inert s := by
  constructor
  · refine fun h => ⟨?_, fun d hd hoccurs => h d hd (List.infix_cons hoccurs)⟩
    rintro rfl d hhead
    obtain ⟨s, rfl⟩ := List.head?_eq_some_iff.mp hhead
    cases hd : opensMarkup d with
    | false => rfl
    | true => exact absurd (List.prefix_append ['<', d] s).isInfix (h d hd)
  · rintro ⟨hhead, hs⟩ d hd hoccurs
    rcases List.infix_cons_iff.mp hoccurs with hhere | hoccurs
    · obtain ⟨rest, hrest⟩ := hhere
      obtain ⟨rfl, rfl⟩ := List.cons.inj hrest
      have hclosed := hhead rfl d rfl
      rw [hd] at hclosed
      cases hclosed
    · exact hs d hd hoccurs

/-- A text without a `<` opens no markup. -/
theorem inert_of_not_mem {s : Text} (h : '<' ∉ s) : Inert s :=
  fun _ _ hoccurs => h (hoccurs.subset List.mem_cons_self)

theorem inert_append {s t : Text} (ht : ∀ d, t.head? = some d → opensMarkup d = false) :
    Inert (s ++ t) ↔ Inert s ∧ Inert t := by
  induction s with
  | nil => exact (and_iff_right inert_nil).symm
  | cons c s ih =>
      rw [List.cons_append, inert_cons, inert_cons, ih, and_assoc]
      refine and_congr_left fun _ => imp_congr_right fun _ => ?_
      cases s with
      | nil => exact iff_of_true ht nofun
      | cons d s => exact Iff.rfl

/-- A `<` in front of a character that opens no markup is a character. -/
theorem tokensFrom_tagOpen {d : Char} (h : opensMarkup d = false) (s : Text) :
    tokensFrom .tagOpen (d :: s) = .char '<' :: tokensFrom .data (d :: s) := by
  simp only [opensMarkup, Bool.or_eq_false_iff, beq_eq_false_iff_ne] at h
  obtain ⟨⟨⟨halpha, hslash⟩, hbang⟩, hquestion⟩ := h
  by_cases hopen : d = '<'
  · subst hopen
    rfl
  · have hstep : step .tagOpen d = (.data, [.char '<', .char d]) := by
      simp [step, halpha, hslash, hbang, hquestion, hopen]
    have hdata : step .data d = (.data, [.char d]) := by simp [step, hopen]
    rw [tokensFrom, hstep, tokensFrom, hdata]
    rfl

theorem tokensFrom_data {c : Char} (h : c ≠ '<') (s : Text) :
    tokensFrom .data (c :: s) = .char c :: tokensFrom .data s := by
  have hstep : step .data c = (.data, [.char c]) := by simp [step, h]
  rw [tokensFrom, hstep]
  rfl

/-- A text that opens no markup, in front of what does not turn its last `<` into markup. -/
theorem tokensFrom_inert {s : Text} (hs : Inert s) {rest : Text}
    (hrest : ∀ d, rest.head? = some d → opensMarkup d = false) :
    tokensFrom .data (s ++ rest) = s.map .char ++ tokensFrom .data rest := by
  induction s with
  | nil => rfl
  | cons c s ih =>
      obtain ⟨hhead, hs⟩ := inert_cons.mp hs
      rw [List.cons_append, List.map_cons, List.cons_append, ← ih hs]
      by_cases hc : c = '<'
      · subst hc
        have hstep : step .data '<' = (.tagOpen, []) := rfl
        have hnext : ∀ d, (s ++ rest).head? = some d → opensMarkup d = false := by
          intro d hd
          cases s with
          | nil => exact hrest d hd
          | cons e s => exact hhead rfl d hd
        rw [tokensFrom, hstep, List.nil_append]
        cases htext : s ++ rest with
        | nil => rfl
        | cons d u => exact tokensFrom_tagOpen (hnext d (by rw [htext]; rfl)) u
      · exact tokensFrom_data hc _

/-! ## The first tag -/

def Token.isChar : Token → Bool
  | .char _ => true
  | _ => false

/-- The characters before the first other token. -/
def leading (ts : List Token) : ℕ := (ts.takeWhile Token.isChar).length

theorem leading_cons_char (c : Char) (ts : List Token) :
    leading (.char c :: ts) = leading ts + 1 := rfl

theorem leading_cons {token : Token} (h : token.isChar = false) (ts : List Token) :
    leading (token :: ts) = 0 := by
  simp [leading, h]

theorem leading_map_char (s : Text) (ts : List Token) :
    leading (s.map .char ++ ts) = s.length + leading ts := by
  induction s with
  | nil => simp
  | cons c s ih =>
      rw [List.map_cons, List.cons_append, leading_cons_char, ih, List.length_cons]
      omega

theorem isChar_token (d : Draft) (selfClosing : Bool) : (d.token selfClosing).isChar = false := by
  rw [Draft.token]
  split <;> rfl

/-- A state inside markup. -/
def State.Inside : State → Prop
  | .data => False
  | .tagOpen => False
  | .endTagOpen => False
  | _ => True

/-- Markup stays markup, or it ends in a token that is no character. -/
def Contained (r : State × List Token) : Prop :=
  (r.2 = [] ∧ r.1.Inside) ∨ ∃ token, r.2 = [token] ∧ token.isChar = false

theorem contained_close (d : Draft) (selfClosing : Bool) : Contained (close d selfClosing) :=
  Or.inr ⟨_, rfl, isChar_token d selfClosing⟩

theorem contained_stepAttribute (d : Draft) (c : Char) : Contained (stepAttribute d c) := by
  unfold stepAttribute
  split_ifs
  · exact Or.inl ⟨rfl, trivial⟩
  · exact Or.inl ⟨rfl, trivial⟩
  · exact contained_close d false
  · exact Or.inl ⟨rfl, trivial⟩

theorem contained_stepValue (quoting : Quoting) (d : Draft) (name value : Text) (c : Char) :
    Contained (stepValue quoting d name value c) := by
  cases quoting with
  | double =>
      unfold stepValue
      dsimp only
      split_ifs <;> exact Or.inl ⟨rfl, trivial⟩
  | single =>
      unfold stepValue
      dsimp only
      split_ifs <;> exact Or.inl ⟨rfl, trivial⟩
  | unquoted =>
      unfold stepValue
      dsimp only
      split_ifs
      · exact Or.inl ⟨rfl, trivial⟩
      · exact contained_close _ false
      · exact Or.inl ⟨rfl, trivial⟩

theorem contained_stepDeclaration (seen : Text) (c : Char) :
    Contained (stepDeclaration seen c) := by
  unfold stepDeclaration
  dsimp only
  split_ifs
  · exact Or.inl ⟨rfl, trivial⟩
  · exact Or.inl ⟨rfl, trivial⟩
  · exact Or.inl ⟨rfl, trivial⟩
  · exact Or.inr ⟨_, rfl, rfl⟩
  · exact Or.inl ⟨rfl, trivial⟩

theorem contained_step {st : State} (h : st.Inside) (c : Char) : Contained (step st c) := by
  cases st with
  | data => exact h.elim
  | tagOpen => exact h.elim
  | endTagOpen => exact h.elim
  | beforeAttributeName d => exact contained_stepAttribute d c
  | afterAttributeValue d => exact contained_stepAttribute d c
  | attributeValue quoting d name value => exact contained_stepValue quoting d name value c
  | markupDeclaration seen => exact contained_stepDeclaration seen c
  | comment data =>
      rw [step]
      split
      · exact Or.inr ⟨_, rfl, rfl⟩
      · exact Or.inl ⟨rfl, trivial⟩
  | _ =>
      simp only [step]
      split_ifs <;> first
        | exact Or.inl ⟨rfl, trivial⟩
        | exact Or.inr ⟨_, rfl, rfl⟩
        | exact contained_close _ _
        | exact contained_stepAttribute _ c

/-- No character is read inside markup before the markup is. -/
theorem leading_inside {st : State} (h : st.Inside) (s : Text) : leading (tokensFrom st s) = 0 := by
  induction s generalizing st with
  | nil => cases st <;> first | rfl | exact h.elim
  | cons c s ih =>
      rw [tokensFrom]
      rcases contained_step h c with ⟨hnone, hinside⟩ | ⟨token, hone, htoken⟩
      · rw [hnone]
        exact ih hinside
      · rw [hone]
        exact leading_cons htoken _

/-- Behind the `<` that opens markup, fewer characters are read than are left of the text. -/
theorem leading_opened {d : Char} (hd : opensMarkup d = true) {u rest : Text}
    (hrest : rest.head? = some '<')
    (hu : ∀ v, v.length < u.length → leading (tokensFrom .data (v ++ rest)) ≤ v.length) :
    leading (tokensFrom .tagOpen (d :: (u ++ rest))) ≤ u.length := by
  simp only [opensMarkup, Bool.or_eq_true, beq_iff_eq] at hd
  rw [tokensFrom]
  by_cases hslash : d = '/'
  · subst hslash
    have hstep : step .tagOpen '/' = (.endTagOpen, []) := rfl
    rw [hstep, List.nil_append]
    cases u with
    | nil =>
        obtain ⟨rest, rfl⟩ := List.head?_eq_some_iff.mp hrest
        have hbogus : step .endTagOpen '<' = (.bogusComment ['<'], []) := rfl
        have hinside : State.Inside (.bogusComment ['<']) := trivial
        rw [List.nil_append, tokensFrom, hbogus]
        exact (leading_inside hinside rest).le
    | cons e v =>
        rw [List.cons_append, tokensFrom]
        by_cases hdropped : e = '>'
        · subst hdropped
          have hdata : step .endTagOpen '>' = (.data, []) := rfl
          rw [hdata, List.nil_append]
          exact (hu v (Nat.lt_succ_self _)).trans (Nat.le_succ _)
        · have hinside : (step .endTagOpen e).2 = [] ∧ (step .endTagOpen e).1.Inside := by
            simp only [step, hdropped, if_false]
            split_ifs <;> exact ⟨rfl, trivial⟩
          rw [hinside.1, List.nil_append, leading_inside hinside.2]
          exact Nat.zero_le _
  · have hinside : (step .tagOpen d).2 = [] ∧ (step .tagOpen d).1.Inside := by
      rcases hd with ((halpha | hd) | rfl) | rfl
      · have hname : step .tagOpen d = (.tagName ⟨false, [d.toLower], []⟩, []) := by
          simp [step, halpha]
        rw [hname]
        exact ⟨rfl, trivial⟩
      · exact absurd hd hslash
      · exact ⟨rfl, trivial⟩
      · exact ⟨rfl, trivial⟩
    rw [hinside.1, List.nil_append, leading_inside hinside.2]
    exact Nat.zero_le _

/-- Characters are counted.  No more are read of a text than it has, and fewer if it opens
markup. -/
theorem leading_text {rest : Text} (hrest : rest.head? = some '<')
    (hlead : leading (tokensFrom .data rest) = 0) (s : Text) :
    leading (tokensFrom .data (s ++ rest)) ≤ s.length ∧
      (¬ Inert s → leading (tokensFrom .data (s ++ rest)) < s.length) := by
  induction hn : s.length using Nat.strong_induction_on generalizing s with
  | _ n ih =>
      subst hn
      cases s with
      | nil => exact ⟨hlead.le, fun hs => absurd inert_nil hs⟩
      | cons c s =>
          have hnext := ih s.length (Nat.lt_succ_self _) s rfl
          rw [List.cons_append, inert_cons, List.length_cons]
          by_cases hc : c = '<'
          · subst hc
            have hstep : step .data '<' = (.tagOpen, []) := rfl
            rw [tokensFrom, hstep, List.nil_append]
            by_cases hopens : ∃ d, s.head? = some d ∧ opensMarkup d = true
            · obtain ⟨d, hd, hopen⟩ := hopens
              obtain ⟨u, rfl⟩ := List.head?_eq_some_iff.mp hd
              have hshorter : ∀ v : Text, v.length < u.length →
                  leading (tokensFrom .data (v ++ rest)) ≤ v.length := by
                intro v hv
                exact (ih v.length (by simp only [List.length_cons]; omega) v rfl).1
              have hfewer := leading_opened hopen hrest hshorter
              rw [List.length_cons]
              exact ⟨by simp only [List.cons_append]; omega,
                fun _ => by simp only [List.cons_append]; omega⟩
            · have hclosed : ∀ d, s.head? = some d → opensMarkup d = false := by
                intro d hd
                cases hopen : opensMarkup d with
                | false => rfl
                | true => exact absurd ⟨d, hd, hopen⟩ hopens
              have hchar : tokensFrom .tagOpen (s ++ rest) =
                  .char '<' :: tokensFrom .data (s ++ rest) := by
                cases s with
                | nil =>
                    obtain ⟨rest, rfl⟩ := List.head?_eq_some_iff.mp hrest
                    exact tokensFrom_tagOpen rfl rest
                | cons d u => exact tokensFrom_tagOpen (hclosed d rfl) (u ++ rest)
              rw [hchar, leading_cons_char]
              refine ⟨Nat.succ_le_succ hnext.1, fun hs => Nat.succ_lt_succ (hnext.2 fun h => hs ?_)⟩
              exact ⟨fun _ => hclosed, h⟩
          · rw [tokensFrom_data hc, leading_cons_char]
            refine ⟨Nat.succ_le_succ hnext.1, fun hs => Nat.succ_lt_succ (hnext.2 fun h => hs ?_)⟩
            exact ⟨fun heq => absurd heq hc, h⟩

/-! ## Documents -/

/-- Texts, each in front of a tag, and a text at the end. -/
def document (pieces : List (Text × Tag)) (tail : Text) : Text :=
  pieces.flatMap (fun piece => piece.1 ++ piece.2.text) ++ tail

/-- The tokens as they are meant: the texts as their characters. -/
def documentTokens (pieces : List (Text × Tag)) (tail : Text) : List Token :=
  pieces.flatMap (fun piece => piece.1.map .char ++ [piece.2.token]) ++ tail.map .char

theorem head?_tag (tag : Tag) (rest : Text) : (tag.text ++ rest).head? = some '<' := rfl

theorem leading_token (tag : Tag) (ts : List Token) : leading (tag.token :: ts) = 0 :=
  leading_cons (isChar_token _ _) ts

theorem leading_tag (tag : Tag) (rest : Text) :
    leading (tokensFrom .data (tag.text ++ rest)) = 0 := by
  rw [tokensFrom_tag]
  exact leading_token tag _

/-- A text in front of a tag is read as its characters exactly if it opens no markup. -/
theorem tokensFrom_piece_iff (s : Text) (tag : Tag) (rest : Text) (ts : List Token) :
    tokensFrom .data (s ++ (tag.text ++ rest)) = s.map .char ++ tag.token :: ts ↔
      Inert s ∧ tokensFrom .data rest = ts := by
  have hhead := head?_tag tag rest
  constructor
  · intro heq
    have hs : Inert s := by
      by_contra hs
      have hfewer := (leading_text hhead (leading_tag tag rest) s).2 hs
      rw [heq, leading_map_char, leading_token] at hfewer
      omega
    refine ⟨hs, ?_⟩
    rw [tokensFrom_inert hs (by rintro d hd; cases hhead.symm.trans hd; rfl), tokensFrom_tag] at heq
    exact (List.cons.inj (List.append_cancel_left heq)).2
  · rintro ⟨hs, rfl⟩
    rw [tokensFrom_inert hs (by rintro d hd; cases hhead.symm.trans hd; rfl), tokensFrom_tag]

/-- Texts are texts exactly if none of them opens markup. -/
theorem tokens_document_iff (pieces : List (Text × Tag)) {tail : Text} (htail : Inert tail) :
    tokens (document pieces tail) = documentTokens pieces tail ↔
      ∀ piece, piece ∈ pieces → Inert piece.1 := by
  induction pieces with
  | nil =>
      have hread : tokensFrom .data (tail ++ []) = tail.map .char ++ tokensFrom .data [] :=
        tokensFrom_inert htail nofun
      rw [List.append_nil] at hread
      exact iff_of_true (hread.trans (List.append_nil _)) nofun
  | cons piece pieces ih =>
      have hdocument : document (piece :: pieces) tail =
          piece.1 ++ (piece.2.text ++ document pieces tail) := by
        simp [document]
      have htokens : documentTokens (piece :: pieces) tail =
          piece.1.map .char ++ piece.2.token :: documentTokens pieces tail := by
        simp [documentTokens]
      rw [tokens, hdocument, htokens, tokensFrom_piece_iff, List.forall_mem_cons]
      exact and_congr_right fun _ => ih

end HtmlTokens
end NetworkProxy
