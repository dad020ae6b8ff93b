import NetworkProxy.OutboundFields

/-!
# The response heads in a stream

What a client reads from the bytes that come back on its connection: a head, the body that its
fields announce, then the next head.

* `readResponseHead`: a status line, field lines and the empty line.
* `behindBody`: where the body ends.
* `responseHeads`: how many heads the stream holds.
-/

namespace NetworkProxy
namespace Http

open Py

structure ResponseHead where
  status : ℕ
  /-- The names, in lower case, and the values. -/
  fields : List (Bytes × Bytes)

/-- A decimal digit. -/
def isDigitByte (b : UInt8) : Bool := decide (48 ≤ b.toNat) && decide (b.toNat ≤ 57)

/-- The number that decimal digits spell. -/
def decimalOf (digits : Bytes) : Option ℕ :=
  if digits ≠ [] ∧ digits.all isDigitByte = true then
    some (digits.foldl (fun n b => 10 * n + (b.toNat - 48)) 0)
  else none

/-- The status of the line `HTTP/d.d ddd reason`. -/
def statusOfLine : Bytes → Option ℕ
  | 72 :: 84 :: 84 :: 80 :: 47 :: major :: 46 :: minor :: 32 :: a :: b :: c :: reason =>
      if isDigitByte major ∧ isDigitByte minor ∧ (reason = [] ∨ reason.head? = some 32) then
        decimalOf [a, b, c]
      else none
  | _ => none

/-- The head at the front of a stream, and what comes behind it. -/
def readResponseHead (stream : Bytes) : Option (ResponseHead × Bytes) := do
  let (head, rest) ← breakOn headerTerminator stream
  match splitPair 13 10 head with
  | [] => none
  | line :: fieldLines =>
      let status ← statusOfLine line
      let fields ← fieldLines.mapM fieldOfLine
      return (⟨status, fields⟩, rest)

namespace ResponseHead

/-- The values of a field. -/
def values (h : ResponseHead) (name : Bytes) : List Bytes :=
  (h.fields.filter fun f => f.1 = name).map Prod.snd

/-- The last transfer coding. -/
def lastCoding (h : ResponseHead) : Option Bytes :=
  (h.values (ascii "transfer-encoding")).getLast?.map fun value =>
    let coding := ((splitLast 44 value).map Prod.snd).getD value
    (stripBy (fun b => b == 32 || b == 9) coding).map lowerByte

/-- `Content-Length`, if all fields of this name agree. -/
def contentLength (h : ResponseHead) : Option ℕ :=
  match h.values (ascii "content-length") with
  | [] => none
  | value :: more => if more.all (· = value) then decimalOf value else none

end ResponseHead

/-! ## Bodies -/

/-- A hexadecimal digit. -/
def hexDigitOf (b : UInt8) : Option ℕ :=
  if isDigitByte b then some (b.toNat - 48)
  else if 97 ≤ (lowerByte b).toNat ∧ (lowerByte b).toNat ≤ 102 then
    some ((lowerByte b).toNat - 87)
  else none

/-- The size of a chunk; what stands behind a semicolon is an extension. -/
def chunkSize (line : Bytes) : Option ℕ :=
  let digits := stripBy (fun b => b == 32 || b == 9) (((splitFirst 59 line).map Prod.fst).getD line)
  if digits = [] then none
  else (digits.mapM hexDigitOf).map fun ds => ds.foldl (fun n d => 16 * n + d) 0

/-- What follows the trailer of a chunked body. -/
def behindTrailer (rest : Bytes) : Bytes :=
  if [13, 10].isPrefixOf rest then rest.drop 2
  else ((breakOn headerTerminator rest).map Prod.snd).getD []

/-- What follows a chunked body; nothing if it is cut off. -/
def behindChunks : ℕ → Bytes → Bytes
  | 0, _ => []
  | rounds + 1, stream =>
      match breakOn [13, 10] stream with
      | none => []
      | some (line, rest) =>
          match chunkSize line with
          | none => []
          | some 0 => behindTrailer rest
          | some n =>
              match rest.drop n with
              | 13 :: 10 :: rest => behindChunks rounds rest
              | _ => []

/-- What follows the body of a response to a request of a method, by the rules of HTTP/1.1. -/
def behindBody (method : Text) (h : ResponseHead) (rest : Bytes) : Bytes :=
  if h.status = 101 then []
  else if method = txt "HEAD" ∨ h.status / 100 = 1 ∨ h.status = 204 ∨ h.status = 304 then rest
  else if method = txt "CONNECT" ∧ h.status / 100 = 2 then rest
  else if h.lastCoding = some (ascii "chunked") then behindChunks rest.length rest
  else if h.lastCoding.isSome then []
  else
    match h.contentLength with
    | some n => rest.drop n
    | none => []

/-! ## Heads -/

/-- The heads of a stream, no more than `rounds`. -/
def headsWithin (method : Text) : ℕ → Bytes → ℕ
  | 0, _ => 0
  | rounds + 1, stream =>
      match readResponseHead stream with
      | none => 0
      | some (h, rest) => headsWithin method rounds (behindBody method h rest) + 1

/-- How many response heads a stream holds: interim ones count too, what stands in a body does
not. -/
def responseHeads (method : Text) (stream : Bytes) : ℕ :=
  headsWithin method stream.length stream

example : responseHeads (txt "GET") (ascii "HTTP/1.1 200 OK\r\nContent-Length: 2\r\n\r\nhi") = 1 ∧
    responseHeads (txt "GET") (ascii "H") = 0 ∧
    responseHeads (txt "GET")
      (ascii "HTTP/1.1 100 Continue\r\n\r\nHTTP/1.1 200 OK\r\n\r\nhi") = 2 := by
  decide +kernel

/-! ## Laws -/

theorem responseHeads_nil (method : Text) : responseHeads method [] = 0 := rfl

end Http
end NetworkProxy
