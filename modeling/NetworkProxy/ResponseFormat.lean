import NetworkProxy.LineEnds
import NetworkProxy.Utf8RoundTrip

/-!
# Responses on the wire

A status line, field lines and a body, as a server writes them, and what a client makes of
the bytes it gets until the connection closes.

`readReply_write`: the client gets the status, the fields and the whole body.
-/

namespace NetworkProxy
namespace ResponseFormat

open Py

/-! ## What is written -/

/-- Printable ASCII, or a blank. -/
def isPlain (c : Char) : Bool := decide (32 ≤ c.toNat) && decide (c.toNat < 127)

/-- White space around a value. -/
def isOws (c : Char) : Bool := c == ' ' || c == '\t'

/-- A text that can stand for the value of a field. -/
structure Value where
  text : Text
  plain : text.all isPlain = true
  trimmed : stripBy isOws text = text

/-- A field; its name has no colon. -/
structure Field where
  name : Text
  value : Value
  plain : name.all isPlain = true
  no_colon : ':' ∉ name

structure Reply where
  status : ℕ
  reason : Value
  fields : List Field
  body : Bytes

/-- The protocol version of the server. -/
def protocolVersion : Text := txt "HTTP/1.0"

def Field.line (f : Field) : Text := f.name ++ ':' :: ' ' :: f.value.text

def Reply.statusLine (r : Reply) : Text :=
  protocolVersion ++ ' ' :: (Nat.toDigits 10 r.status ++ ' ' :: r.reason.text)

def Reply.lines (r : Reply) : List Text := r.statusLine :: r.fields.map Field.line

/-- The head, with the blank line behind it, and the body. -/
def Reply.write (r : Reply) : Bytes :=
  encode (joinPair '\r' '\n' r.lines) ++ 13 :: 10 :: 13 :: 10 :: r.body

/-! ## What is read -/

/-- A response as the client sees it. -/
structure Receipt where
  status : ℕ
  reason : Text
  fields : List (Text × Text)
  body : Bytes
deriving DecidableEq

/-- A decimal numeral. -/
def readNat (s : Text) : Option ℕ :=
  if s ≠ [] ∧ s.all Char.isDigit = true then some (Nat.ofDigitChars 10 s 0) else none

def readStatusLine (line : Text) : Option (ℕ × Text) := do
  let (_, rest) ← splitFirst ' ' line
  let (code, reason) ← splitFirst ' ' rest
  let status ← readNat code
  return (status, reason)

def readField (line : Text) : Option (Text × Text) :=
  (splitFirst ':' line).map fun (name, value) => (name, stripBy isOws value)

/-- `Content-Length`, in any case. -/
def contentLength (fields : List (Text × Text)) : Option ℕ :=
  (fields.find? fun f => f.1.map Char.toLower = txt "content-length").bind fun f => readNat f.2

/-- The body, of what came until the connection was closed. -/
def readBody (fields : List (Text × Text)) (rest : Bytes) : Option Bytes :=
  match contentLength fields with
  | none => some rest
  | some n => if n ≤ rest.length then some (rest.take n) else none

def readReply (bytes : Bytes) : Option Receipt := do
  let (head, rest) ← breakOn [13, 10, 13, 10] bytes
  let text ← decode head
  match splitPair '\r' '\n' text with
  | [] => none
  | statusLine :: fieldLines =>
      let (status, reason) ← readStatusLine statusLine
      let fields ← fieldLines.mapM readField
      let body ← readBody fields rest
      return ⟨status, reason, fields, body⟩

/-! ## Reading what was written -/

def Field.seen (f : Field) : Text × Text := (f.name, f.value.text)

def Reply.seen (r : Reply) : Receipt :=
  ⟨r.status, r.reason.text, r.fields.map Field.seen, r.body⟩

theorem not_mem_of_all_isPlain {s : Text} (h : s.all isPlain = true) {c : Char}
    (hc : isPlain c = false) : c ∉ s := by
  intro hmem
  rw [List.all_eq_true.mp h c hmem] at hc
  cases hc

theorem readNat_toDigits (n : ℕ) : readNat (Nat.toDigits 10 n) = some n := by
  have hdigits : (Nat.toDigits 10 n).all Char.isDigit = true :=
    List.all_eq_true.mpr fun c hc => Nat.isDigit_of_mem_toDigits (by omega) (by omega) hc
  rw [readNat, if_pos ⟨Nat.toDigits_ne_nil, hdigits⟩, Nat.ofDigitChars_ten_toDigits]

theorem blank_not_mem_toDigits (n : ℕ) : ' ' ∉ Nat.toDigits 10 n := by
  intro hmem
  have hdigit := Nat.isDigit_of_mem_toDigits (by omega) (by omega) hmem
  cases hdigit

theorem readStatusLine_statusLine (r : Reply) :
    readStatusLine r.statusLine = some (r.status, r.reason.text) := by
  have hversion : ' ' ∉ protocolVersion := by decide
  simp only [readStatusLine, Reply.statusLine, splitFirst_append hversion,
    splitFirst_append (blank_not_mem_toDigits r.status), readNat_toDigits, Option.bind_eq_bind,
    Option.bind_some, Option.pure_def]

theorem stripBy_cons_blank (v : Value) : stripBy isOws (' ' :: v.text) = v.text := by
  have hblank : isOws ' ' = true := rfl
  rw [stripBy_cons_of_pos hblank, v.trimmed]

theorem readField_line (f : Field) : readField f.line = some f.seen := by
  rw [readField, Field.line, splitFirst_append f.no_colon, Option.map_some]
  dsimp only
  rw [stripBy_cons_blank]
  rfl

theorem mapM_readField (fields : List Field) :
    (fields.map Field.line).mapM readField = some (fields.map Field.seen) := by
  induction fields with
  | nil => rfl
  | cons f fields ih =>
      rw [List.map_cons, List.mapM_cons, readField_line, ih]
      rfl

theorem carriage_return_not_mem_line (f : Field) : '\r' ∉ f.line := by
  have hname := not_mem_of_all_isPlain f.plain (c := '\r') rfl
  have hvalue := not_mem_of_all_isPlain f.value.plain (c := '\r') rfl
  simp [Field.line, hname, hvalue]

theorem carriage_return_not_mem_statusLine (r : Reply) : '\r' ∉ r.statusLine := by
  have hversion : '\r' ∉ protocolVersion := by decide
  have hdigits : '\r' ∉ Nat.toDigits 10 r.status := by
    intro hmem
    have hdigit := Nat.isDigit_of_mem_toDigits (by omega) (by omega) hmem
    cases hdigit
  have hreason := not_mem_of_all_isPlain r.reason.plain (c := '\r') rfl
  simp [Reply.statusLine, hversion, hdigits, hreason]

theorem lines_ok (r : Reply) : ∀ l ∈ r.lines, l ≠ [] ∧ NoPair '\r' '\n' l := by
  intro l hl
  rcases List.mem_cons.mp hl with rfl | hl
  · exact ⟨by simp [Reply.statusLine, protocolVersion, txt],
      noPair_of_not_mem (carriage_return_not_mem_statusLine r)⟩
  · obtain ⟨f, -, rfl⟩ := List.mem_map.mp hl
    exact ⟨by simp [Field.line], noPair_of_not_mem (carriage_return_not_mem_line f)⟩

/-- The head ends where the server ended it. -/
theorem breakOn_write (r : Reply) :
    breakOn [13, 10, 13, 10] r.write = some (encode (joinPair '\r' '\n' r.lines), r.body) := by
  have hlines : encode (joinPair '\r' '\n' r.lines) = joinPair 13 10 (r.lines.map encode) :=
    encode_joinPair (by decide) (by decide) r.lines
  rw [Reply.write, hlines]
  refine breakOn_joinPair (by decide) r.body (by simp [Reply.lines]) fun l hl => ?_
  obtain ⟨line, hline, rfl⟩ := List.mem_map.mp hl
  obtain ⟨hne, hpair⟩ := lines_ok r line hline
  exact ⟨encode_ne_nil hne, NoPair.encode (by decide) (by decide) hpair⟩

/-- The response says how long its body is, or nothing about it. -/
def Reply.Delimited (r : Reply) : Prop :=
  ∀ n, contentLength (r.fields.map Field.seen) = some n → n = r.body.length

theorem Reply.Delimited.readBody {r : Reply} (h : r.Delimited) :
    readBody (r.fields.map Field.seen) r.body = some r.body := by
  rw [ResponseFormat.readBody]
  cases hlength : contentLength (r.fields.map Field.seen) with
  | none => rfl
  | some n =>
      obtain rfl := h n hlength
      dsimp only
      rw [if_pos le_rfl, List.take_length]

/-- The client gets the response. -/
theorem readReply_write {r : Reply} (h : r.Delimited) :
    readReply r.write = some r.seen := by
  have hsplit : splitPair '\r' '\n' (joinPair '\r' '\n' r.lines) = r.lines :=
    splitPair_joinPair (by decide) (by simp [Reply.lines]) fun l hl => (lines_ok r l hl).2
  have hlines : r.lines = r.statusLine :: r.fields.map Field.line := rfl
  simp only [readReply, breakOn_write, decode_encode, hsplit, Option.bind_eq_bind,
    Option.bind_some]
  rw [hlines]
  simp only [readStatusLine_statusLine, mapM_readField, h.readBody, Option.bind_some,
    Option.pure_def]
  rfl

end ResponseFormat
end NetworkProxy
