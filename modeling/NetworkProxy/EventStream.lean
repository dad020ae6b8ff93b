import NetworkProxy.LineEnds
import NetworkProxy.Utf8RoundTrip

/-!
# Event streams

What a reader of `text/event-stream` makes of a stream: lines end at CRLF, LF or CR, a field
line adds to the type or to the data of the event, and a blank line dispatches it.

`readStream_frames`: the reader gets exactly the messages that were framed, if no type and no
data holds a CR or an LF.
-/

namespace NetworkProxy
namespace EventStream

open Py

/-- An event, as a listener gets it. -/
structure Message where
  type : Text
  data : Text
deriving DecidableEq

/-! ## The reader -/

/-- The lines that have ended. -/
def lines : Text → List Text
  | [] => []
  | '\r' :: '\n' :: rest => [] :: lines rest
  | '\r' :: rest => [] :: lines rest
  | '\n' :: rest => [] :: lines rest
  | c :: rest =>
      match lines rest with
      | [] => []
      | line :: more => (c :: line) :: more

/-- The name and the value of a field line; one blank before the value is dropped. -/
def fieldOf (line : Text) : Text × Text :=
  match line.dropWhile (fun c => c != ':') with
  | [] => (line, [])
  | _ :: ' ' :: value => (line.takeWhile (fun c => c != ':'), value)
  | _ :: value => (line.takeWhile (fun c => c != ':'), value)

/-- The buffers of the reader. -/
structure Buffers where
  type : Text
  data : Text

/-- The buffers before an event. -/
def Buffers.empty : Buffers := ⟨[], []⟩

/-- A field line.  A comment has an empty name, and other fields do not bear on the event. -/
def Buffers.field (b : Buffers) (line : Text) : Buffers :=
  match fieldOf line with
  | (name, value) =>
      if name = txt "event" then { b with type := value }
      else if name = txt "data" then { b with data := b.data ++ value ++ ['\n'] }
      else b

/-- What a blank line dispatches. -/
def Buffers.dispatch (b : Buffers) : List Message :=
  if b.data = [] then []
  else [⟨if b.type = [] then txt "message" else b.type, b.data.dropLast⟩]

/-- The events of the lines. -/
def dispatched : Buffers → List Text → List Message
  | _, [] => []
  | b, [] :: rest => b.dispatch ++ dispatched .empty rest
  | b, line :: rest => dispatched (b.field line) rest

/-- A byte order mark at the start is dropped. -/
def withoutMark : Text → Text
  | [] => []
  | c :: s => if c = Char.ofNat 0xFEFF then s else c :: s

/-- The events of a stream. -/
def readStream (stream : Bytes) : Option (List Message) :=
  (decode stream).map fun s => dispatched .empty (lines (withoutMark s))

/-! ## The writer -/

/-- A message with one data line. -/
def frame (m : Message) : Text :=
  txt "event: " ++ m.type ++ txt "\ndata: " ++ m.data ++ txt "\n\n"

/-- A message that keeps to its lines. -/
structure Framed (m : Message) : Prop where
  type_ne_nil : m.type ≠ []
  type_unbroken : Avoids '\r' '\n' m.type
  data_unbroken : Avoids '\r' '\n' m.data

/-! ## Reading what was framed -/

theorem lines_append {line : Text} (h : Avoids '\r' '\n' line) (rest : Text) :
    lines (line ++ '\n' :: rest) = line :: lines rest := by
  induction line with
  | nil => rfl
  | cons c line ih =>
      obtain ⟨hc, hline⟩ := avoids_cons.mp h
      have hcr : c ≠ '\r' := fun heq => hc.1 (List.mem_singleton.mpr heq.symm)
      have hlf : c ≠ '\n' := fun heq => hc.2 (List.mem_singleton.mpr heq.symm)
      rw [List.cons_append, lines, ih hline]
      · exact fun _ heq => absurd heq hcr
      · exact hcr
      · exact hlf

theorem dispatched_cons {line : Text} (hne : line ≠ []) (b : Buffers) (rest : List Text) :
    dispatched b (line :: rest) = dispatched (b.field line) rest := by
  cases line with
  | nil => exact absurd rfl hne
  | cons c line => rfl

theorem field_event (b : Buffers) (value : Text) :
    b.field (txt "event: " ++ value) = { b with type := value } := rfl

theorem field_data (b : Buffers) (value : Text) :
    b.field (txt "data: " ++ value) = { b with data := b.data ++ value ++ ['\n'] } := rfl

/-- A framed message is dispatched, and the reader starts afresh behind it. -/
theorem dispatched_frame {m : Message} (hm : Framed m) (rest : Text) :
    dispatched .empty (lines (frame m ++ rest)) = m :: dispatched .empty (lines rest) := by
  have htype : Avoids '\r' '\n' (txt "event: " ++ m.type) :=
    avoids_append.mpr ⟨by decide, hm.type_unbroken⟩
  have hdata : Avoids '\r' '\n' (txt "data: " ++ m.data) :=
    avoids_append.mpr ⟨by decide, hm.data_unbroken⟩
  have htext : frame m ++ rest = (txt "event: " ++ m.type) ++ '\n' ::
      ((txt "data: " ++ m.data) ++ '\n' :: ([] ++ '\n' :: rest)) := by
    simp [frame, txt]
  have htypeLine : txt "event: " ++ m.type ≠ [] := nofun
  have hdataLine : txt "data: " ++ m.data ≠ [] := nofun
  rw [htext, lines_append htype, lines_append hdata, lines_append avoids_nil,
    dispatched_cons htypeLine, field_event, dispatched_cons hdataLine, field_data, dispatched]
  have hdispatch : Buffers.dispatch ⟨m.type, [] ++ m.data ++ ['\n']⟩ = [m] := by
    rw [Buffers.dispatch, if_neg (by simp), if_neg hm.type_ne_nil, List.nil_append,
      List.dropLast_concat]
  exact congrArg (· ++ _) hdispatch

theorem dispatched_frames {messages : List Message} (h : ∀ m, m ∈ messages → Framed m) :
    dispatched .empty (lines (messages.flatMap frame)) = messages := by
  induction messages with
  | nil => rfl
  | cons m messages ih =>
      rw [List.flatMap_cons, dispatched_frame (h m List.mem_cons_self),
        ih fun m' hm' => h m' (List.mem_cons_of_mem _ hm')]

/-- The reader gets the messages that were framed. -/
theorem readStream_frames {messages : List Message} (h : ∀ m, m ∈ messages → Framed m) :
    readStream (encode (messages.flatMap frame)) = some messages := by
  have hmark : withoutMark (messages.flatMap frame) = messages.flatMap frame := by
    cases messages with
    | nil => rfl
    | cons m messages => rfl
  rw [readStream, decode_encode, Option.map_some, hmark, dispatched_frames h]

end EventStream
end NetworkProxy
