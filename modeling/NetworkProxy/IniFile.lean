import Mathlib.Data.List.DropRight
import NetworkProxy.OrderedDict
import NetworkProxy.PyTextLaws
import NetworkProxy.TextFile

/-!
# INI files

`configparser.ConfigParser` with its default settings: `read` on one file, and
`BasicInterpolation`.  A parameter stands for `optionxform`.

A document is a file with its layout: blank lines, comments, blanks around delimiters and
values, in any order of sections and options.

`readIni_document`: a document is read as what it declares, whatever its layout is.
-/

namespace NetworkProxy
namespace Ini

open Py

/-! ## Reading -/

/-- The name of the section whose options hold in all sections. -/
def defaultSect : Text := txt "DEFAULT"

/-- Why a file is refused. -/
inductive IniError
  | duplicateSection (name : Text)
  | duplicateOption (section' option : Text)
  | missingSectionHeader
  | parsing
deriving DecidableEq

/-- The variables of `_read`.  The options hold the lines of their values; the defaults stand
under the name of their section.  A missing option name is empty: both are false. -/
structure Reading where
  sections : OrderedDict Text (OrderedDict Text (List Text))
  sectname : Option Text
  optname : Text
  indentLevel : ℕ
  failed : Bool

/-- The values as they are found in the end: section and option names with texts. -/
abbrev Config := OrderedDict Text (OrderedDict Text Text)

def isDelimiter (c : Char) : Bool := c == '=' || c == ':'

/-- The line is a full-line comment. -/
def isComment (value : Text) : Bool := value.head? == some '#' || value.head? == some ';'

/-- `SECTCRE`: what stands between the first bracket and the last one. -/
def sectionHeader : Text → Option Text
  | '[' :: rest =>
      match splitLast ']' rest with
      | some (name, _) => if name = [] then none else some name
      | none => none
  | _ => none

/-- `OPTCRE`: what stands before the first delimiter and its blanks, and what follows. -/
def optionLine (value : Text) : Option (Text × Text) :=
  match value.dropWhile (fun c => !isDelimiter c) with
  | [] => none
  | _ :: rest => some ((value.takeWhile (fun c => !isDelimiter c)).rdropWhile isSpace, rest)

/-- `'\n'.join(val).rstrip()`. -/
def joinValue (val : List Text) : Text := (List.intercalate ['\n'] val).rdropWhile isSpace

/-- A further line for the value of the current option, if there is one. -/
def Reading.extend (r : Reading) (line : Text) : Reading :=
  match r.sectname with
  | none => r
  | some name =>
      match r.sections.get? name with
      | none => r
      | some cursect =>
          match cursect.get? r.optname with
          | none => r
          | some val =>
              if r.optname = [] then r
              else { r with
                sections := r.sections.set name (cursect.set r.optname (val ++ [line])) }

section Read

variable (optionxform : Text → Text)

/-- A line that is no continuation: a section header or an option. -/
def readHeading (r : Reading) (value : Text) : Except IniError Reading :=
  match sectionHeader value with
  | some name =>
      if name = defaultSect then .ok { r with sectname := some name, optname := [] }
      else if (r.sections.get? name).isSome then .error (.duplicateSection name)
      else .ok { r with
        sections := r.sections.set name .empty
        sectname := some name
        optname := [] }
  | none =>
      match r.sectname with
      | none => .error .missingSectionHeader
      | some name =>
          match optionLine value with
          | none => .ok { r with failed := true }
          | some (option, optval) =>
              let optname := optionxform option
              let cursect := (r.sections.get? name).getD .empty
              -- In one file, what was added to a section is what stands in it.
              if (cursect.get? optname).isSome then .error (.duplicateOption name optname)
              else .ok { r with
                sections := r.sections.set name (cursect.set optname [strip optval])
                optname := optname
                failed := r.failed || decide (option = []) }

/-- One round of the loop of `_read`. -/
def readLine (r : Reading) (line : Text) : Except IniError Reading :=
  let value := strip line
  if isComment value then .ok r
  else if value = [] then .ok (r.extend [])
  else
    let indent := (line.takeWhile isSpace).length
    if r.sectname.isSome ∧ r.optname ≠ [] ∧ r.indentLevel < indent then .ok (r.extend value)
    else readHeading optionxform { r with indentLevel := indent } value

/-- The parser before it reads. -/
def Reading.start : Reading where
  sections := OrderedDict.empty.set defaultSect .empty
  sectname := none
  optname := []
  indentLevel := 0
  failed := false

/-- `_join_multiline_values`. -/
def Reading.config (r : Reading) : Config := r.sections.mapValues fun options =>
  options.mapValues joinValue

/-- `read` of a parser with one file; `none` is a file that cannot be opened. -/
def readIni : Option Text → Except IniError Config
  | none => .ok Reading.start.config
  | some text => do
      let r ← (fileLines text).foldlM (readLine optionxform) Reading.start
      if r.failed then .error .parsing else .ok r.config

end Read

/-! ## Documents -/

/-- An option with the blanks of its line. -/
structure OptionLine where
  name : Text
  before : Text
  delimiter : Char
  after : Text
  value : Text
  trailing : Text

/-- A line of a section. -/
inductive DocLine
  | blank (blanks : Text)
  | comment (blanks : Text) (mark : Char) (rest : Text)
  | option (o : OptionLine)

namespace DocLine

def text : DocLine → Text
  | blank blanks => blanks
  | comment blanks mark rest => blanks ++ mark :: rest
  | option o => o.name ++ o.before ++ o.delimiter :: (o.after ++ o.value ++ o.trailing)

def option? : DocLine → Option OptionLine
  | option o => some o
  | _ => none

end DocLine

/-- The name and the value of an option can be told apart in its line. -/
structure OptionLine.Plain (o : OptionLine) : Prop where
  name_ne_nil : o.name ≠ []
  name_stripped : strip o.name = o.name
  name_undelimited : ∀ c ∈ o.name, isDelimiter c = false
  name_head : ∀ c, o.name.head? = some c → c ≠ '#' ∧ c ≠ ';' ∧ c ≠ '['
  before : ∀ c ∈ o.before, isSpace c = true
  delimiter : isDelimiter o.delimiter = true
  after : ∀ c ∈ o.after, isSpace c = true
  value : strip o.value = o.value
  trailing : ∀ c ∈ o.trailing, isSpace c = true

/-- `OptionLine.Plain`, computed. -/
def OptionLine.isPlain (o : OptionLine) : Bool :=
  decide (o.name ≠ []) && decide (strip o.name = o.name) &&
    o.name.all (fun c => !isDelimiter c) &&
    decide (o.name.headD 'a' ∉ ['#', ';', '[']) &&
    o.before.all isSpace && isDelimiter o.delimiter && o.after.all isSpace &&
    decide (strip o.value = o.value) && o.trailing.all isSpace

theorem OptionLine.plain_of_isPlain {o : OptionLine} (h : o.isPlain = true) : o.Plain := by
  simp only [isPlain, Bool.and_eq_true, decide_eq_true_eq, List.all_eq_true,
    Bool.not_eq_true'] at h
  obtain ⟨⟨⟨⟨⟨⟨⟨⟨hne, hstripped⟩, hname⟩, hhead⟩, hbefore⟩, hdelimiter⟩, hafter⟩, hvalue⟩,
    htrailing⟩ := h
  refine ⟨hne, hstripped, hname, fun c hc => ?_, hbefore, hdelimiter, hafter, hvalue, htrailing⟩
  rw [List.headD_eq_head?_getD, hc] at hhead
  simpa using hhead

/-- The line is what it is meant to be. -/
def DocLine.Plain : DocLine → Prop
  | .blank blanks => ∀ c ∈ blanks, isSpace c = true
  | .comment blanks mark _ => (∀ c ∈ blanks, isSpace c = true) ∧ (mark = '#' ∨ mark = ';')
  | .option o => o.Plain

/-- A section with its header line. -/
structure DocSection where
  name : Text
  lines : List DocLine

namespace DocSection

def header (s : DocSection) : Text := '[' :: s.name ++ [']']

/-- The options in the order of the file. -/
def options (s : DocSection) : List OptionLine := s.lines.filterMap DocLine.option?

end DocSection

/-- A file: comments and blank lines, then sections. -/
structure Document where
  preamble : List DocLine
  sections : List DocSection

namespace Document

def lines (d : Document) : List Text :=
  d.preamble.map DocLine.text ++
    d.sections.flatMap fun s => s.header :: s.lines.map DocLine.text

/-- The file. -/
def text (d : Document) : Text := writeLines d.lines

end Document

/-- What the options of a section declare. -/
def declareOptions (optionxform : Text → Text) (options : List OptionLine) :
    OrderedDict Text Text :=
  options.foldl (fun dict o => dict.set (optionxform o.name) o.value) .empty

/-- What a document declares. -/
def Document.config (optionxform : Text → Text) (d : Document) : Config :=
  d.sections.foldl (fun config s => config.set s.name (declareOptions optionxform s.options))
    (OrderedDict.empty.set defaultSect .empty)

/-- The document can be read: every line is what it is meant to be, and no name occurs twice. -/
structure Document.WellFormed (optionxform : Text → Text) (d : Document) : Prop where
  preamble : ∀ l ∈ d.preamble, l.Plain ∧ l.option? = none
  plain : ∀ s ∈ d.sections, ∀ l ∈ s.lines, l.Plain
  names : ∀ s ∈ d.sections, s.name ≠ []
  sections : (d.sections.map DocSection.name).Nodup
  options : ∀ s ∈ d.sections, (s.options.map fun o => optionxform o.name).Nodup
  oneLine : ∀ l ∈ d.lines, '\n' ∉ l ∧ '\r' ∉ l

/-! ## The lines of a document -/

section Lines

theorem strip_eq_rdropWhile {s : Text} (h : ∀ c, s.head? = some c → isSpace c = false) :
    strip s = s.rdropWhile isSpace := by
  have hdrop : s.dropWhile isSpace = s := by
    cases s with
    | nil => rfl
    | cons c s => simp [h c rfl]
  rw [strip, stripBy, hdrop]
  rfl

/-- Blanks at the end are dropped. -/
theorem rdropWhile_append_of_all (s : Text) {blanks : Text} (h : ∀ c ∈ blanks, isSpace c = true) :
    (s ++ blanks).rdropWhile isSpace = s.rdropWhile isSpace := by
  induction blanks using List.reverseRecOn with
  | nil => simp
  | append_singleton blanks c ih =>
      have hc : isSpace c = true := h c (by simp)
      rw [← List.append_assoc, List.rdropWhile_concat_pos _ _ _ hc]
      exact ih fun c' hc' => h c' (List.mem_append_left _ hc')

/-- Nothing is dropped in front of what is no blank. -/
theorem rdropWhile_append_cons (p : Text) {d : Char} (hd : isSpace d = false) (q : Text) :
    (p ++ d :: q).rdropWhile isSpace = p ++ d :: q.rdropWhile isSpace := by
  induction q using List.reverseRecOn with
  | nil =>
      rw [List.rdropWhile_concat_neg _ _ _ (by simp [hd])]
      rfl
  | append_singleton q c ih =>
      rw [← List.cons_append, ← List.append_assoc]
      cases hc : isSpace c with
      | true => rw [List.rdropWhile_concat_pos _ _ _ hc, List.rdropWhile_concat_pos _ _ _ hc, ih]
      | false =>
          rw [List.rdropWhile_concat_neg _ _ _ (by simp [hc]),
            List.rdropWhile_concat_neg _ _ _ (by simp [hc])]
          simp

theorem strip_of_all {s : Text} (h : ∀ c ∈ s, isSpace c = true) : strip s = [] := by
  have hnone : ∀ c ∈ ([] : Text), isSpace c = true := by simp
  have hstrip := stripBy_append (l := []) h hnone
  simpa [strip, stripBy] using hstrip

theorem strip_comment {blanks : Text} (hblanks : ∀ c ∈ blanks, isSpace c = true) {mark : Char}
    (hmark : isSpace mark = false) (rest : Text) :
    strip (blanks ++ mark :: rest) = mark :: rest.rdropWhile isSpace := by
  have hrest : strip (blanks ++ mark :: rest) = strip (mark :: rest) := by
    have hnone : ∀ c ∈ ([] : Text), isSpace c = true := by simp
    have h := stripBy_append (l := mark :: rest) hblanks hnone
    rwa [List.append_nil] at h
  have hhead : ∀ c, (mark :: rest).head? = some c → isSpace c = false := by
    rintro c ⟨⟩
    exact hmark
  rw [hrest, strip_eq_rdropWhile hhead]
  exact rdropWhile_append_cons [] hmark rest

/-- What is stripped from a line with a delimiter stands behind it. -/
theorem strip_delimited {p q : Text} {d : Char} (hd : isSpace d = false)
    (hp : ∀ c, p.head? = some c → isSpace c = false) :
    strip (p ++ d :: q) = p ++ d :: q.rdropWhile isSpace := by
  rw [strip_eq_rdropWhile, rdropWhile_append_cons p hd q]
  intro c hc
  cases p with
  | nil =>
      obtain rfl : d = c := Option.some.inj hc
      exact hd
  | cons c' p => exact hp c hc

theorem strip_rdropWhile (q : Text) : strip (q.rdropWhile isSpace) = strip q := by
  have hblanks : ∀ c ∈ q.rtakeWhile isSpace, isSpace c = true := fun c hc =>
    List.mem_rtakeWhile_imp hc
  have hnone : ∀ c ∈ ([] : Text), isSpace c = true := by simp
  have h := stripBy_append (l := q.rdropWhile isSpace) hnone hblanks
  rw [List.nil_append, List.rdropWhile_append_rtakeWhile] at h
  exact h.symm

/-- A further empty line does not change a value. -/
theorem joinValue_concat_nil {val : List Text} (h : val ≠ []) :
    joinValue (val ++ [[]]) = joinValue val := by
  have hjoin : List.intercalate ['\n'] (val ++ [[]]) = List.intercalate ['\n'] val ++ ['\n'] := by
    induction val with
    | nil => exact absurd rfl h
    | cons line val ih =>
        cases val with
        | nil => simp [List.intercalate]
        | cons line' val =>
            have hrest := ih (List.cons_ne_nil _ _)
            simp only [List.intercalate, List.cons_append, List.intersperse_cons_cons,
              List.flatten_cons] at hrest ⊢
            rw [hrest]
            simp
  have hbreak : ∀ c ∈ ['\n'], isSpace c = true := by simp; decide
  rw [joinValue, hjoin, rdropWhile_append_of_all _ hbreak, joinValue]

theorem joinValue_singleton (line : Text) : joinValue [line] = line.rdropWhile isSpace := by
  simp [joinValue, List.intercalate]

theorem isSpace_of_isDelimiter {c : Char} (h : isDelimiter c = true) : isSpace c = false := by
  rw [isDelimiter, Bool.or_eq_true, beq_iff_eq, beq_iff_eq] at h
  rcases h with rfl | rfl
  · decide
  · decide

/-- A header line is found to be one. -/
theorem sectionHeader_header {s : DocSection} (h : s.name ≠ []) :
    sectionHeader s.header = some s.name := by
  have hsplit : splitLast ']' (s.name ++ [']']) = some (s.name, []) :=
    splitLast_append List.not_mem_nil s.name
  rw [DocSection.header, List.cons_append, sectionHeader, hsplit]
  exact if_neg h

theorem sectionHeader_of_head {value : Text} (h : ∀ c, value.head? = some c → c ≠ '[') :
    sectionHeader value = none := by
  unfold sectionHeader
  split
  · exact absurd rfl (h '[' rfl)
  · rfl

theorem strip_header (s : DocSection) : strip s.header = s.header := by
  refine stripBy_eq_self (fun c hc => ?_) fun c hc => ?_
  · obtain rfl : '[' = c := Option.some.inj hc
    decide
  · rw [DocSection.header, List.getLast?_concat] at hc
    obtain rfl : ']' = c := Option.some.inj hc
    decide

variable {optionxform : Text → Text} {o : OptionLine}

/-- The line of an option, stripped. -/
theorem OptionLine.Plain.strip_text (h : o.Plain) : ∃ optval, strip optval = o.value ∧
    strip (DocLine.option o).text = o.name ++ o.before ++ o.delimiter :: optval := by
  refine ⟨(o.after ++ o.value ++ o.trailing).rdropWhile isSpace, ?_, ?_⟩
  · rw [strip_rdropWhile, strip, stripBy_append h.after h.trailing]
    exact h.value
  · refine strip_delimited (isSpace_of_isDelimiter h.delimiter) fun c hc => ?_
    rw [List.head?_append_of_ne_nil _ h.name_ne_nil] at hc
    refine head?_stripBy (l := o.name) ?_
    rw [show stripBy isSpace o.name = o.name from h.name_stripped]
    exact hc

theorem OptionLine.Plain.optionLine (h : o.Plain) (optval : Text) :
    optionLine (o.name ++ o.before ++ o.delimiter :: optval) = some (o.name, optval) := by
  have hbefore : ∀ c ∈ o.name ++ o.before, (!isDelimiter c) = true := by
    intro c hc
    rcases List.mem_append.mp hc with hc | hc
    · rw [h.name_undelimited c hc]
      rfl
    · cases hd : isDelimiter c with
      | false => rfl
      | true => exact absurd (h.before c hc) (by simp [isSpace_of_isDelimiter hd])
  have hdrop : (o.delimiter :: optval).dropWhile (fun c => !isDelimiter c) =
      o.delimiter :: optval := by simp [h.delimiter]
  have htake : (o.delimiter :: optval).takeWhile (fun c => !isDelimiter c) = [] := by
    simp [h.delimiter]
  have hname : (o.name ++ o.before).rdropWhile isSpace = o.name := by
    rw [rdropWhile_append_of_all _ h.before, ← strip_eq_rdropWhile, h.name_stripped]
    intro c hc
    refine head?_stripBy (l := o.name) ?_
    rw [show stripBy isSpace o.name = o.name from h.name_stripped]
    exact hc
  rw [Ini.optionLine, List.dropWhile_append_of_pos hbefore, hdrop,
    List.takeWhile_append_of_pos hbefore, htake, List.append_nil, hname]

/-! ### One round for each kind of line -/

theorem readLine_blank {blanks : Text} (h : ∀ c ∈ blanks, isSpace c = true) (r : Reading) :
    readLine optionxform r blanks = .ok (r.extend []) := by
  simp [readLine, strip_of_all h, isComment]

theorem readLine_comment {blanks : Text} (h : ∀ c ∈ blanks, isSpace c = true) {mark : Char}
    (hmark : mark = '#' ∨ mark = ';') (rest : Text) (r : Reading) :
    readLine optionxform r (blanks ++ mark :: rest) = .ok r := by
  have hspace : isSpace mark = false := by
    rcases hmark with rfl | rfl
    · decide
    · decide
  have hcomment : isComment (strip (blanks ++ mark :: rest)) = true := by
    rw [strip_comment h hspace]
    rcases hmark with rfl | rfl
    · rfl
    · rfl
  simp [readLine, hcomment]

theorem readLine_header {s : DocSection} (h : s.name ≠ []) (r : Reading) :
    readLine optionxform r s.header =
      if s.name = defaultSect then
        .ok { r with indentLevel := 0, sectname := some s.name, optname := [] }
      else if (r.sections.get? s.name).isSome then .error (.duplicateSection s.name)
      else .ok { r with
        sections := r.sections.set s.name .empty
        indentLevel := 0
        sectname := some s.name
        optname := [] } := by
  have hcomment : isComment s.header = false := rfl
  have hne : s.header ≠ [] := List.cons_ne_nil _ _
  have hindent : s.header.takeWhile isSpace = [] := rfl
  simp only [readLine, strip_header, hcomment, hne, hindent, readHeading, sectionHeader_header h]
  simp

theorem readLine_option (h : o.Plain) {r : Reading} {name : Text}
    (hname : r.sectname = some name) {cursect : OrderedDict Text (List Text)}
    (hcursect : r.sections.get? name = some cursect)
    (hnew : cursect.get? (optionxform o.name) = none) :
    readLine optionxform r (DocLine.option o).text = .ok { r with
      sections := r.sections.set name (cursect.set (optionxform o.name) [o.value])
      indentLevel := 0
      optname := optionxform o.name } := by
  obtain ⟨optval, hvalue, hstrip⟩ := h.strip_text
  obtain ⟨c, rest, hhead⟩ := List.exists_cons_of_ne_nil h.name_ne_nil
  obtain ⟨hhash, hsemicolon, hbracket⟩ := h.name_head c (by rw [hhead]; rfl)
  have hspace : isSpace c = false := by
    refine head?_stripBy (l := o.name) ?_
    rw [show stripBy isSpace o.name = o.name from h.name_stripped, hhead]
    rfl
  have hline : (DocLine.option o).text.takeWhile isSpace = [] := by
    rw [DocLine.text, hhead]
    simp [hspace]
  have hcomment : isComment (o.name ++ o.before ++ o.delimiter :: optval) = false := by
    rw [hhead]
    simp [isComment, hhash, hsemicolon]
  have hne : o.name ++ o.before ++ o.delimiter :: optval ≠ [] := by simp
  have hheader : sectionHeader (o.name ++ o.before ++ o.delimiter :: optval) = none := by
    refine sectionHeader_of_head fun d hd => ?_
    rw [hhead] at hd
    obtain rfl : c = d := Option.some.inj hd
    exact hbracket
  have hempty : decide (o.name = []) = false := decide_eq_false h.name_ne_nil
  simp only [readLine, hstrip, hcomment, hne, hline, readHeading, hheader, hname,
    h.optionLine, hcursect, Option.getD_some, hnew, hvalue, hempty]
  simp

end Lines

/-! ## Documents are read as they are declared -/

/-- The parser stands in a section and has found these values. -/
structure Reads (r : Reading) (sect : Option Text) (config : Config) : Prop where
  config : r.config = config
  sectname : r.sectname = sect
  failed : r.failed = false
  nonempty : ∀ name options optname val, r.sections.get? name = some options →
    options.get? optname = some val → val ≠ []

theorem reads_start : Reads Reading.start none (OrderedDict.empty.set defaultSect .empty) where
  config := rfl
  sectname := rfl
  failed := rfl
  nonempty name options optname val hname hval := by
    rw [Reading.start, OrderedDict.get?_set] at hname
    split at hname
    · obtain rfl := Option.some.inj hname
      cases hval
    · cases hname

section Document

variable {optionxform : Text → Text} {r : Reading} {sect : Option Text} {config : Config}

theorem Reads.get? (h : Reads r sect config) (name : Text) :
    config.get? name = (r.sections.get? name).map fun options => options.mapValues joinValue := by
  rw [← h.config, Reading.config, OrderedDict.get?_mapValues]

/-- The values after one more assignment. -/
theorem Reads.assign (h : Reads r sect config) {name : Text}
    {cursect : OrderedDict Text (List Text)} (hcursect : r.sections.get? name = some cursect)
    (optname : Text) (val : List Text) (hval : val ≠ []) {r' : Reading}
    (hsections : r'.sections = r.sections.set name (cursect.set optname val))
    (hsectname : r'.sectname = sect) (hfailed : r'.failed = false) :
    Reads r' sect
      (config.set name ((cursect.mapValues joinValue).set optname (joinValue val))) where
  config := by
    rw [Reading.config, hsections, OrderedDict.mapValues_set, OrderedDict.mapValues_set,
      ← h.config, Reading.config]
  sectname := hsectname
  failed := hfailed
  nonempty name' options' optname' val' hname' hval' := by
    rw [hsections, OrderedDict.get?_set] at hname'
    split at hname'
    · obtain rfl := Option.some.inj hname'
      rw [OrderedDict.get?_set] at hval'
      split at hval'
      · obtain rfl := Option.some.inj hval'
        exact hval
      · exact h.nonempty _ _ _ _ hcursect hval'
    · exact h.nonempty _ _ _ _ hname' hval'

theorem Reads.extend (h : Reads r sect config) : Reads (r.extend []) sect config := by
  unfold Reading.extend
  cases hsectname : r.sectname with
  | none => exact h
  | some name =>
      cases hcursect : r.sections.get? name with
      | none => simpa only [hcursect] using h
      | some cursect =>
          cases hval : cursect.get? r.optname with
          | none => simpa only [hcursect, hval] using h
          | some val =>
              simp only [hcursect, hval]
              split
              · exact h
              · have hne : val ≠ [] := h.nonempty _ _ _ _ hcursect hval
                have hjoined : (cursect.mapValues joinValue).get? r.optname =
                    some (joinValue (val ++ [[]])) := by
                  rw [OrderedDict.get?_mapValues, hval, joinValue_concat_nil hne]
                  rfl
                have hsame : config.get? name = some (cursect.mapValues joinValue) := by
                  rw [h.get?, hcursect]
                  rfl
                have hassign : Reads { r with
                    sections := r.sections.set name (cursect.set r.optname (val ++ [[]])) }
                    sect _ :=
                  h.assign hcursect r.optname (val ++ [[]]) (by simp) rfl h.sectname h.failed
                rwa [OrderedDict.set_of_get?_eq hjoined, OrderedDict.set_of_get?_eq hsame,
                  hsectname] at hassign

/-- A header line. -/
theorem Reads.header (h : Reads r sect config) {s : DocSection} (hname : s.name ≠ [])
    (hnew : config.get? s.name = if s.name = defaultSect then some .empty else none) :
    ∃ r', readLine optionxform r s.header = .ok r' ∧
      Reads r' (some s.name) (config.set s.name .empty) := by
  rw [readLine_header hname]
  by_cases hdefault : s.name = defaultSect
  · rw [if_pos hdefault] at hnew
    rw [if_pos hdefault, OrderedDict.set_of_get?_eq hnew]
    exact ⟨_, rfl, h.config, rfl, h.failed, h.nonempty⟩
  · rw [if_neg hdefault, h.get?, Option.map_eq_none_iff] at hnew
    rw [if_neg hdefault, hnew]
    refine ⟨_, rfl, ?_, rfl, h.failed, fun name options optname val hget hval => ?_⟩
    · rw [← h.config, Reading.config, Reading.config, OrderedDict.mapValues_set]
      rfl
    · rw [OrderedDict.get?_set] at hget
      split at hget
      · obtain rfl := Option.some.inj hget
        cases hval
      · exact h.nonempty _ _ _ _ hget hval

/-- The lines of a section. -/
theorem reads_lines {name : Text} {lines : List DocLine} :
    ∀ {r : Reading} {config : Config} {dict : OrderedDict Text Text},
      (∀ l ∈ lines, l.Plain) →
      ((lines.filterMap DocLine.option?).map fun o => optionxform o.name).Nodup →
      (∀ o ∈ lines.filterMap DocLine.option?, dict.get? (optionxform o.name) = none) →
      Reads r (some name) config → config.get? name = some dict →
      ∃ r', (lines.map DocLine.text).foldlM (readLine optionxform) r = .ok r' ∧
        Reads r' (some name) (config.set name ((lines.filterMap DocLine.option?).foldl
          (fun dict o => dict.set (optionxform o.name) o.value) dict)) := by
  induction lines with
  | nil =>
      intro r config dict _ _ _ h hdict
      refine ⟨r, rfl, ?_⟩
      rw [List.filterMap_nil, List.foldl_nil, OrderedDict.set_of_get?_eq hdict]
      exact h
  | cons l lines ih =>
      intro r config dict hplain hnodup hnew h hdict
      have hl : l.Plain := hplain l List.mem_cons_self
      have hrest : ∀ l ∈ lines, l.Plain := fun l' hl' => hplain l' (List.mem_cons_of_mem _ hl')
      rw [List.map_cons, List.foldlM_cons]
      cases l with
      | blank blanks =>
          rw [DocLine.text, readLine_blank hl]
          exact ih hrest hnodup hnew h.extend hdict
      | comment blanks mark rest =>
          rw [DocLine.text, readLine_comment hl.1 hl.2]
          exact ih hrest hnodup hnew h hdict
      | option o =>
          have hoptions : (DocLine.option o :: lines).filterMap DocLine.option? =
              o :: lines.filterMap DocLine.option? := rfl
          rw [hoptions, List.map_cons, List.nodup_cons] at hnodup
          rw [hoptions] at hnew ⊢
          rw [h.get?] at hdict
          obtain ⟨cursect, hcursect, rfl⟩ := Option.map_eq_some_iff.mp hdict
          have hfree : cursect.get? (optionxform o.name) = none := by
            have hnone := hnew o List.mem_cons_self
            rwa [OrderedDict.get?_mapValues, Option.map_eq_none_iff] at hnone
          rw [readLine_option hl h.sectname hcursect hfree]
          have hassign : Reads { r with
              sections := r.sections.set name (cursect.set (optionxform o.name) [o.value])
              indentLevel := 0
              optname := optionxform o.name } (some name) _ :=
            h.assign hcursect (optionxform o.name) [o.value] (by simp) rfl h.sectname h.failed
          have hvalue : joinValue [o.value] = o.value := by
            rw [joinValue_singleton, ← strip_eq_rdropWhile, hl.value]
            intro c hc
            refine head?_stripBy (l := o.value) ?_
            rw [show stripBy isSpace o.value = o.value from hl.value]
            exact hc
          rw [hvalue] at hassign
          have hothers : ∀ o' ∈ lines.filterMap DocLine.option?,
              ((cursect.mapValues joinValue).set (optionxform o.name) o.value).get?
                (optionxform o'.name) = none := by
            intro o' ho'
            have hne : optionxform o.name ≠ optionxform o'.name := fun he =>
              hnodup.1 (List.mem_map.mpr ⟨o', ho', he.symm⟩)
            rw [OrderedDict.get?_set, if_neg hne]
            exact hnew o' (List.mem_cons_of_mem _ ho')
          obtain ⟨r', hread, hreads⟩ := ih hrest hnodup.2 hothers hassign
            (OrderedDict.get?_set_self _ _ _)
          rw [OrderedDict.set_set] at hreads
          exact ⟨r', hread, hreads⟩

/-- The sections of a document. -/
theorem reads_sections {sections : List DocSection} :
    ∀ {r : Reading} {sect : Option Text} {config : Config},
      (∀ s ∈ sections, ∀ l ∈ s.lines, l.Plain) → (∀ s ∈ sections, s.name ≠ []) →
      (sections.map DocSection.name).Nodup →
      (∀ s ∈ sections, (s.options.map fun o => optionxform o.name).Nodup) →
      (∀ s ∈ sections, config.get? s.name = if s.name = defaultSect then some .empty else none) →
      Reads r sect config →
      ∃ r' sect', (sections.flatMap fun s => s.header :: s.lines.map DocLine.text).foldlM
          (readLine optionxform) r = .ok r' ∧
        Reads r' sect' (sections.foldl
          (fun config s => config.set s.name (declareOptions optionxform s.options)) config) := by
  induction sections with
  | nil =>
      intro r sect config _ _ _ _ _ h
      exact ⟨r, sect, rfl, h⟩
  | cons s sections ih =>
      intro r sect config hplain hnames hnodup hoptions hnew h
      have hmem : s ∈ s :: sections := List.mem_cons_self
      rw [List.map_cons, List.nodup_cons] at hnodup
      obtain ⟨r₁, hheader, h₁⟩ := h.header (hnames s hmem) (hnew s hmem)
      obtain ⟨r₂, hlines, h₂⟩ := reads_lines (hplain s hmem) (hoptions s hmem)
        (fun _ _ => rfl) h₁ (OrderedDict.get?_set_self _ _ _)
      rw [OrderedDict.set_set] at h₂
      have hothers : ∀ s' ∈ sections,
          (config.set s.name (declareOptions optionxform s.options)).get? s'.name =
            if s'.name = defaultSect then some .empty else none := by
        intro s' hs'
        have hne : s.name ≠ s'.name := fun he =>
          hnodup.1 (List.mem_map.mpr ⟨s', hs', he.symm⟩)
        rw [OrderedDict.get?_set, if_neg hne]
        exact hnew s' (List.mem_cons_of_mem _ hs')
      obtain ⟨r', sect', hread, hreads⟩ := ih (fun s' hs' => hplain s' (List.mem_cons_of_mem _ hs'))
        (fun s' hs' => hnames s' (List.mem_cons_of_mem _ hs')) hnodup.2
        (fun s' hs' => hoptions s' (List.mem_cons_of_mem _ hs')) hothers h₂
      refine ⟨r', sect', ?_, hreads⟩
      rw [List.flatMap_cons, List.foldlM_append, List.foldlM_cons, hheader]
      show (do
        let r ← (s.lines.map DocLine.text).foldlM (readLine optionxform) r₁
        _) = _
      rw [hlines]
      exact hread

/-- Comments and blank lines before the first section. -/
theorem reads_preamble {lines : List DocLine} :
    ∀ {r : Reading}, (∀ l ∈ lines, l.Plain ∧ l.option? = none) → Reads r sect config →
      ∃ r', (lines.map DocLine.text).foldlM (readLine optionxform) r = .ok r' ∧
        Reads r' sect config := by
  induction lines with
  | nil => exact fun _ h => ⟨_, rfl, h⟩
  | cons l lines ih =>
      intro r hplain h
      obtain ⟨hl, hnone⟩ := hplain l List.mem_cons_self
      have hrest : ∀ l ∈ lines, l.Plain ∧ l.option? = none := fun l' hl' =>
        hplain l' (List.mem_cons_of_mem _ hl')
      rw [List.map_cons, List.foldlM_cons]
      cases l with
      | blank blanks =>
          rw [DocLine.text, readLine_blank hl]
          exact ih hrest h.extend
      | comment blanks mark rest =>
          rw [DocLine.text, readLine_comment hl.1 hl.2]
          exact ih hrest h
      | option o => cases hnone

/-- A document is read as it is declared, whatever the layout and the order of its
lines. -/
theorem readIni_document {d : Document} (h : d.WellFormed optionxform) :
    readIni optionxform (some d.text) = .ok (d.config optionxform) := by
  obtain ⟨r₁, hpreamble, h₁⟩ : ∃ r', (d.preamble.map DocLine.text).foldlM
      (readLine optionxform) Reading.start = .ok r' ∧ Reads r' none _ :=
    reads_preamble h.preamble reads_start
  have hnew : ∀ s ∈ d.sections,
      (OrderedDict.empty.set defaultSect OrderedDict.empty : Config).get? s.name =
        if s.name = defaultSect then some .empty else none := by
    intro s _
    rw [OrderedDict.get?_set]
    simp only [eq_comm]
    rfl
  obtain ⟨r₂, sect, hsections, h₂⟩ :=
    reads_sections h.plain h.names h.sections h.options hnew h₁
  have hread : d.lines.foldlM (readLine optionxform) Reading.start = .ok r₂ := by
    rw [Document.lines, List.foldlM_append, hpreamble]
    exact hsections
  rw [readIni, Document.text, fileLines_writeLines h.oneLine, hread]
  show (if r₂.failed then _ else _) = _
  rw [h₂.failed, h₂.config]
  rfl

end Document

/-! ## Values -/

/-- Why a value is refused. -/
inductive InterpolationError
  | depth
  | missingOption (name : Text)
  | syntax'

/-- `MAX_INTERPOLATION_DEPTH`. -/
def maxInterpolationDepth : ℕ := 10

section Interpolate

variable (optionxform : Text → Text) (map : Text → Option Text)

/-- The loop of `_interpolate_some`; `deeper` is the recursive call.  A round takes at least one
character. -/
def interpolateLoop (deeper : Text → Except InterpolationError Text) :
    ℕ → Text → Except InterpolationError Text
  | 0, _ => .ok []
  | _ + 1, [] => .ok []
  | fuel + 1, '%' :: '%' :: rest => (interpolateLoop deeper fuel rest).map ('%' :: ·)
  | fuel + 1, '%' :: '(' :: rest =>
      match splitFirst ')' rest with
      | some (name, 's' :: rest) =>
          if name = [] then .error .syntax'
          else
            match map (optionxform name) with
            | none => .error (.missingOption (optionxform name))
            | some v => do
                let shown ← if '%' ∈ v then deeper v else .ok v
                (interpolateLoop deeper fuel rest).map (shown ++ ·)
      | _ => .error .syntax'
  | _ + 1, '%' :: _ => .error .syntax'
  | fuel + 1, c :: rest => (interpolateLoop deeper fuel rest).map (c :: ·)

/-- `_interpolate_some`, with the number of levels that are left. -/
def interpolateSome : ℕ → Text → Except InterpolationError Text
  | 0, _ => .error .depth
  | depth + 1, rest =>
      interpolateLoop optionxform map (interpolateSome depth) rest.length rest

end Interpolate

/-- The value under which a text is written. -/
def escape (s : Text) : Text := s.flatMap fun c => if c = '%' then ['%', '%'] else [c]

theorem interpolateLoop_escape {optionxform : Text → Text} {map : Text → Option Text}
    {deeper : Text → Except InterpolationError Text} :
    ∀ {fuel : ℕ} {s : Text}, s.length ≤ fuel →
      interpolateLoop optionxform map deeper fuel (escape s) = .ok s
  | 0, s, h => by
      rw [List.length_eq_zero_iff.mp (Nat.le_zero.mp h)]
      rfl
  | fuel + 1, [], _ => rfl
  | fuel + 1, c :: s, h => by
      have ih : interpolateLoop optionxform map deeper fuel (escape s) = .ok s :=
        interpolateLoop_escape (Nat.le_of_succ_le_succ h)
      by_cases hc : c = '%'
      · have hescape : escape (c :: s) = '%' :: '%' :: escape s := by simp [escape, hc]
        rw [hescape, interpolateLoop, ih, hc]
        rfl
      · have hescape : escape (c :: s) = c :: escape s := by simp [escape, hc]
        rw [hescape, interpolateLoop, ih]
        · rfl
        · exact fun _ he _ => hc he
        · exact fun _ he _ => hc he
        · exact hc

theorem length_le_escape (s : Text) : s.length ≤ (escape s).length := by
  induction s with
  | nil => exact le_rfl
  | cons c s ih =>
      by_cases hc : c = '%'
      · simp [escape, hc] at ih ⊢
        omega
      · simp [escape, hc] at ih ⊢
        omega

/-- What is written escaped is shown as it is. -/
theorem interpolateSome_escape {optionxform : Text → Text} {map : Text → Option Text} (depth : ℕ)
    (s : Text) : interpolateSome optionxform map (depth + 1) (escape s) = .ok s :=
  interpolateLoop_escape (length_le_escape s)

/-! ## Looking values up -/

/-- Why `get` raises an exception. -/
inductive GetError
  | noSection
  | noOption
  | interpolation (e : InterpolationError)

/-- The options of a section with the defaults behind them: `_unify_values`. -/
def Config.unified (config : Config) (section' : Text) : Option (Text → Option Text) :=
  (config.get? section').map fun options option =>
    (options.get? option).or ((config.get? defaultSect).bind fun defaults => defaults.get? option)

/-- `get` without a fallback. -/
def Config.get (optionxform : Text → Text) (config : Config) (section' option : Text) :
    Except GetError Text :=
  match config.unified section' with
  | none => .error .noSection
  | some map =>
      match map (optionxform option) with
      | none => .error .noOption
      | some value =>
          (interpolateSome optionxform map maxInterpolationDepth value).mapError .interpolation

/-- The value that `get` interpolates. -/
def Config.raw? (optionxform : Text → Text) (config : Config) (section' option : Text) :
    Option Text :=
  (config.unified section').bind fun map => map (optionxform option)

/-- What `get` answers for a value that is written escaped, or for none. -/
theorem get_of_raw? (optionxform : Text → Text) (config : Config) (section' option : Text) :
    (∀ s, config.raw? optionxform section' option = some (escape s) →
      config.get optionxform section' option = .ok s) ∧
    (config.raw? optionxform section' option = none →
      config.get optionxform section' option = .error .noSection ∨
        config.get optionxform section' option = .error .noOption) := by
  rw [Config.raw?, Config.get]
  cases config.unified section' with
  | none => exact ⟨nofun, fun _ => Or.inl rfl⟩
  | some map =>
      refine ⟨fun s hs => ?_, fun hnone => ?_⟩
      · have hmap : map (optionxform option) = some (escape s) := hs
        dsimp only
        rw [hmap]
        dsimp only
        rw [maxInterpolationDepth, interpolateSome_escape]
        rfl
      · have hmap : map (optionxform option) = none := hnone
        dsimp only
        rw [hmap]
        exact Or.inr rfl

namespace Document

variable {optionxform : Text → Text} {d : Document}

/-- The value that the lines of one section give to an option. -/
def valueIn (optionxform : Text → Text) (d : Document) (section' option : Text) : Option Text :=
  (d.sections.find? fun s => s.name = section').bind fun s =>
    (s.options.find? fun o => optionxform o.name = optionxform option).map OptionLine.value

/-- The value that a document gives to an option of a section: its own, else the default. -/
def value? (optionxform : Text → Text) (d : Document) (section' option : Text) : Option Text :=
  if section' ∈ d.sections.map DocSection.name ∨ section' = defaultSect then
    (d.valueIn optionxform section' option).or (d.valueIn optionxform defaultSect option)
  else none

theorem get?_declareOptions {options : List OptionLine}
    (h : (options.map fun o => optionxform o.name).Nodup) (option : Text) :
    (declareOptions optionxform options).get? (optionxform option) =
      (options.find? fun o => optionxform o.name = optionxform option).map OptionLine.value := by
  rw [declareOptions,
    OrderedDict.get?_foldl_set_find (fun o : OptionLine => optionxform o.name) _ h]
  exact Option.or_none

theorem get?_config (h : d.WellFormed optionxform) (section' : Text) :
    (d.config optionxform).get? section' =
      ((d.sections.find? fun s => s.name = section').map fun s =>
        declareOptions optionxform s.options).or
          (if defaultSect = section' then some .empty else none) := by
  rw [Document.config, OrderedDict.get?_foldl_set_find DocSection.name _ h.sections,
    OrderedDict.get?_set]
  rfl

theorem bind_get?_config (h : d.WellFormed optionxform) (section' option : Text) :
    ((d.config optionxform).get? section').bind
        (fun options => options.get? (optionxform option)) =
      d.valueIn optionxform section' option := by
  rw [get?_config h, valueIn]
  cases hfind : d.sections.find? fun s => s.name = section' with
  | none =>
      by_cases hdefault : defaultSect = section'
      · simp only [if_pos hdefault]
        rfl
      · simp only [if_neg hdefault]
        rfl
  | some s =>
      have hs : s ∈ d.sections := List.mem_of_find?_eq_some hfind
      exact get?_declareOptions (h.options s hs) option

theorem mem_of_valueIn {section' option value : Text}
    (h : d.valueIn optionxform section' option = some value) :
    ∃ s ∈ d.sections, ∃ o ∈ s.options, o.value = value := by
  obtain ⟨s, hs, hvalue⟩ := Option.bind_eq_some_iff.mp h
  obtain ⟨o, ho, rfl⟩ := Option.map_eq_some_iff.mp hvalue
  exact ⟨s, List.mem_of_find?_eq_some hs, o, List.mem_of_find?_eq_some ho, rfl⟩

/-- A value of a document stands in one of its lines. -/
theorem mem_of_value? {section' option value : Text}
    (h : d.value? optionxform section' option = some value) :
    ∃ s ∈ d.sections, ∃ o ∈ s.options, o.value = value := by
  rw [value?] at h
  split at h
  · rcases Option.or_eq_some_iff.mp h with h | ⟨-, h⟩
    · exact mem_of_valueIn h
    · exact mem_of_valueIn h
  · cases h

/-- What the reader finds is what the lines say. -/
theorem raw?_config (h : d.WellFormed optionxform) (section' option : Text) :
    (d.config optionxform).raw? optionxform section' option =
      d.value? optionxform section' option := by
  have hown := bind_get?_config h section' option
  have hdefault := bind_get?_config h defaultSect option
  rw [Config.raw?, Config.unified, value?]
  cases hget : (d.config optionxform).get? section' with
  | none =>
      have hnot : ¬ (section' ∈ d.sections.map DocSection.name ∨ section' = defaultSect) := by
        rw [get?_config h, Option.or_eq_none_iff, Option.map_eq_none_iff] at hget
        rintro (hmem | hsame)
        · obtain ⟨s, hs, hname⟩ := List.mem_map.mp hmem
          exact List.find?_eq_none.mp hget.1 s hs (decide_eq_true hname)
        · rw [if_pos hsame.symm] at hget
          cases hget.2
      rw [if_neg hnot]
      rfl
  | some options =>
      have hthere : section' ∈ d.sections.map DocSection.name ∨ section' = defaultSect := by
        rw [get?_config h] at hget
        cases hfind : d.sections.find? fun s => s.name = section' with
        | some s =>
            have hname := List.find?_some hfind
            exact Or.inl (List.mem_map.mpr
              ⟨s, List.mem_of_find?_eq_some hfind, of_decide_eq_true hname⟩)
        | none =>
            rw [hfind] at hget
            by_cases hsame : defaultSect = section'
            · exact Or.inr hsame.symm
            · rw [if_neg hsame] at hget
              cases hget
      rw [if_pos hthere, ← hown, ← hdefault, hget]
      rfl

end Document

end Ini
end NetworkProxy
