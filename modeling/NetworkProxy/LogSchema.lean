import Mathlib.Data.List.ReduceOption
import NetworkProxy.EventStream
import NetworkProxy.Handler
import NetworkProxy.JsonNumbers
import NetworkProxy.LineInjection
import NetworkProxy.LogStream

/-!
# Log entries and their channels

`LogEntry` with `to_dict` and `to_human`, what one call of `log_event` appends to the JSON file
and to stderr, and what `_send_sse_event` writes.

* `fileText_line`: the file gets one line, which holds the entry.
* `stderrText_line_iff`: when stderr gets one line.
* `readStream_streamBytes`: the reader of the event stream gets the events that were written.
-/

namespace NetworkProxy
namespace Proxy

open Py Http JsonText EventStream LogStream

/-! ## Entries -/

/-- `LogEntry`. -/
structure LogEntry extends LogFields where
  event : Text
  message : Text
  timestamp : Text
  level : Text
  path : Option Text

/-- The entry that `log_event` builds.  No caller gives it a level or a path. -/
def logEntry (timestamp message : Text) (fields : LogFields) : LogEntry :=
  { fields with
    event := fields.action.getD (txt "PROXY")
    message := message
    timestamp := timestamp
    level := txt "INFO"
    path := none }

namespace LogEntry

/-- The fields in their order, as `asdict` gives them. -/
def fieldItems (e : LogEntry) : List (Text × Option (Json Number)) :=
  [(txt "event", some (.string e.event)),
    (txt "message", some (.string e.message)),
    (txt "timestamp", some (.string e.timestamp)),
    (txt "level", some (.string e.level)),
    (txt "request_id", e.requestId.map .string),
    (txt "client_ip", e.clientIp.map .string),
    (txt "method", e.method.map .string),
    (txt "host", e.host.map .string),
    (txt "port", e.port.map fun n => .number (.int n)),
    (txt "path", e.path.map .string),
    (txt "action", e.action.map .string),
    (txt "status_code", e.statusCode.map fun n => .number (.int n)),
    (txt "latency_ms", e.latencyTenths.map fun n => .number (.tenths n)),
    (txt "bytes_transferred", e.bytesTransferred.map fun n : ℕ => .number (.int n))]

/-- The members of `to_dict`: what is `None` is left out. -/
def members (e : LogEntry) : List (Text × Json Number) :=
  e.fieldItems.filterMap fun item => item.2.map fun v => (item.1, v)

/-- `to_dict`. -/
def toDict (e : LogEntry) : Json Number := .object e.members

/-- A string that `if` takes for true. -/
def truthy (s : Option Text) : Option Text := s.filter fun text => text ≠ []

/-- `self.host`, with the port unless it is a default one, and the path. -/
def target (e : LogEntry) (host : Text) : Text :=
  host ++ (match e.port with
    | some port =>
        if port ≠ 0 ∧ port ≠ 80 ∧ port ≠ 443 then ':' :: showInt port else []
    | none => []) ++ (truthy e.path).getD []

/-- The parts of the line for the terminal, in their order. -/
def parts (e : LogEntry) : List Text :=
  [(truthy e.requestId).map fun id => '[' :: id.take 8 ++ [']'],
    truthy e.clientIp,
    truthy e.method,
    (truthy e.host).map e.target,
    (truthy e.action).map fun action => txt "→ " ++ action,
    (e.statusCode.filter fun status => status ≠ 0).map fun status =>
      '[' :: showInt status ++ [']'],
    e.bytesTransferred.map fun size : ℕ => showInt size ++ ['B'],
    e.latencyTenths.map fun latency => showTenths latency ++ txt "ms"].reduceOption

/-- `to_human`. -/
def toHuman (e : LogEntry) : Text :=
  if e.parts = [] then e.message else [' '].intercalate e.parts

end LogEntry

/-! ## Channels -/

/-- `logging.INFO`, the level of every record of `log_event`. -/
def infoLevel : ℕ := 20

/-- What a call appends to the log file. -/
def fileText (e : LogEntry) : Text := dumps numberFormat e.toDict ++ ['\n']

/-- What a call appends to stderr, by the level of its handler. -/
def stderrText (level : ℕ) (e : LogEntry) : Text :=
  if level ≤ infoLevel then txt "  " ++ e.toHuman ++ ['\n'] else []

/-- `_send_sse_event`. -/
def sendSseEvent (eventType : Text) (data : Json Number) : Text :=
  txt "event: " ++ eventType ++ txt "\ndata: " ++ dumps numberFormat data ++ txt "\n\n"

/-- What the stream writes for an event. -/
def sseText : SseEvent LogEntry (Json Number) → Text
  | .metrics snapshot => sendSseEvent (txt "metrics") snapshot
  | .log e => sendSseEvent (txt "log") e.toDict

/-- The event as the listeners are to get it. -/
def sseMessage : SseEvent LogEntry (Json Number) → Message
  | .metrics snapshot => ⟨txt "metrics", dumps numberFormat snapshot⟩
  | .log e => ⟨txt "log", dumps numberFormat e.toDict⟩

/-- The bytes of a stream. -/
def streamBytes (events : List (SseEvent LogEntry (Json Number))) : Bytes :=
  encode (events.flatMap sseText)

/-- One line, with its end. -/
def OnePhysicalLine (s : Text) : Prop := ∃ line, s = line ++ ['\n'] ∧ Unbroken line

/-- The entry stays one entry on every channel: a line of the file that holds it, a line on
stderr, and an event of the stream, whatever was or is pushed around it. -/
structure Unforged (level : ℕ) (e : LogEntry) : Prop where
  file : ∃ line, fileText e = line ++ ['\n'] ∧ Unbroken line ∧
    loads numberFormat line = some e.toDict
  stderr : OnePhysicalLine (stderrText level e)
  stream : ∀ before after, readStream (streamBytes (before ++ .log e :: after)) =
    some (before.map sseMessage ++ ⟨txt "log", dumps numberFormat e.toDict⟩ ::
      after.map sseMessage)

/-! ## The file and the stream -/

/-- The file gets one line that holds the entry. -/
theorem fileText_line (e : LogEntry) :
    ∃ line, fileText e = line ++ ['\n'] ∧ Unbroken line ∧
      loads numberFormat line = some e.toDict :=
  ⟨_, rfl, avoids_dumps numberFormat e.toDict, loads_dumps numberFormat e.toDict⟩

theorem sseText_eq_frame (event : SseEvent LogEntry (Json Number)) :
    sseText event = frame (sseMessage event) := by
  cases event with
  | metrics snapshot => rfl
  | log e => rfl

theorem framed_sseMessage (event : SseEvent LogEntry (Json Number)) :
    Framed (sseMessage event) := by
  have hmetrics : txt "metrics" ≠ [] ∧ Unbroken (txt "metrics") := by decide
  have hlog : txt "log" ≠ [] ∧ Unbroken (txt "log") := by decide
  cases event with
  | metrics snapshot => exact ⟨hmetrics.1, hmetrics.2, avoids_dumps numberFormat snapshot⟩
  | log e => exact ⟨hlog.1, hlog.2, avoids_dumps numberFormat e.toDict⟩

/-- The stream.  Its reader gets the events that were written, each as one. -/
theorem readStream_streamBytes (events : List (SseEvent LogEntry (Json Number))) :
    readStream (streamBytes events) = some (events.map sseMessage) := by
  have htext : events.flatMap sseText = (events.map sseMessage).flatMap frame := by
    rw [List.flatMap_map]
    exact List.flatMap_congr fun event _ => sseText_eq_frame event
  rw [streamBytes, htext]
  refine readStream_frames fun m hm => ?_
  obtain ⟨event, -, rfl⟩ := List.mem_map.mp hm
  exact framed_sseMessage event

/-! ## The line for the terminal -/

theorem unbroken_intercalate {ls : List Text} :
    Unbroken ([' '].intercalate ls) ↔ ∀ l, l ∈ ls → Unbroken l := by
  have hblank : Unbroken [' '] := by decide
  induction ls with
  | nil => exact iff_of_true avoids_nil nofun
  | cons l ls ih =>
      cases ls with
      | nil => rw [List.intercalate_singleton, List.forall_mem_singleton]
      | cons m ls =>
          rw [List.intercalate_cons_of_ne_nil (List.cons_ne_nil m ls), unbroken_append,
            unbroken_append, List.forall_mem_cons]
          exact and_congr (and_iff_left hblank) ih

theorem unbroken_showTenths (n : ℤ) : Unbroken (showTenths n) := by
  have hchar : ∀ c, c ∈ showTenths n → c ≠ '\r' ∧ c ≠ '\n' := by
    intro c hc
    have hplain := ShortNumber.isNumberChar_showTenths hc
    constructor
    · rintro rfl
      cases hplain
    · rintro rfl
      cases hplain
  exact ⟨fun hc => (hchar _ hc).1 rfl, fun hc => (hchar _ hc).2 rfl⟩

namespace LogEntry

theorem truthy_eq_some {s : Option Text} {text : Text} :
    truthy s = some text ↔ s = some text ∧ text ≠ [] := by
  rw [truthy, Option.filter_eq_some_iff, decide_eq_true_iff]

variable {e : LogEntry}

/-- The host is shown. -/
theorem target_mem_parts {host : Text} (h : e.host = some host) (hne : host ≠ []) :
    e.target host ∈ e.parts := by
  have hshown : some (e.target host) = (truthy e.host).map e.target := by
    rw [truthy_eq_some.mpr ⟨h, hne⟩]
    rfl
  rw [parts, List.reduceOption_mem_iff, hshown]
  simp only [List.mem_cons, true_or, or_true]

/-- So is the action. -/
theorem action_mem_parts {action : Text} (h : e.action = some action) (hne : action ≠ []) :
    txt "→ " ++ action ∈ e.parts := by
  have hshown : some (txt "→ " ++ action) =
      (truthy e.action).map fun action => txt "→ " ++ action := by
    rw [truthy_eq_some.mpr ⟨h, hne⟩]
    rfl
  rw [parts, List.reduceOption_mem_iff, hshown]
  simp only [List.mem_cons, true_or, or_true]

theorem unbroken_target (hpath : e.path = none) (host : Text) :
    Unbroken (e.target host) ↔ Unbroken host := by
  have hport : Unbroken (match e.port with
      | some port =>
          if port ≠ 0 ∧ port ≠ 80 ∧ port ≠ 443 then ':' :: showInt port else []
      | none => []) := by
    have hcolon : Unbroken [':'] := by decide
    split
    · split
      · exact unbroken_cons.mpr ⟨hcolon, unbroken_showInt _⟩
      · exact avoids_nil
    · exact avoids_nil
  have hnone : (truthy e.path).getD [] = [] := by
    rw [hpath]
    rfl
  rw [target, hnone, List.append_nil, unbroken_append]
  exact and_iff_left hport

/-- What breaks the line for the terminal: only the host. -/
theorem unbroken_toHuman_iff (hid : ∀ s, e.requestId = some s → Unbroken s)
    (hip : ∀ s, e.clientIp = some s → Unbroken s)
    (hmethod : ∀ s, e.method = some s → Unbroken s) (hpath : e.path = none)
    (haction : ∃ s, e.action = some s ∧ s ≠ [] ∧ Unbroken s) :
    Unbroken e.toHuman ↔ ∀ s, e.host = some s → Unbroken s := by
  obtain ⟨action, hname, hne, hplain⟩ := haction
  have hparts : e.parts ≠ [] := List.ne_nil_of_mem (action_mem_parts hname hne)
  have hopen : Unbroken ['['] := by decide
  have hclose : Unbroken [']'] := by decide
  rw [toHuman, if_neg hparts, unbroken_intercalate]
  constructor
  · intro hall host hhost
    by_cases hnil : host = []
    · rw [hnil]
      exact avoids_nil
    · exact (unbroken_target hpath host).mp (hall _ (target_mem_parts hhost hnil))
  · intro hhost part hpart
    rw [parts, List.reduceOption_mem_iff] at hpart
    simp only [List.mem_cons, List.not_mem_nil, or_false] at hpart
    rcases hpart with h | h | h | h | h | h | h | h
    · obtain ⟨id, hshown, rfl⟩ := Option.map_eq_some_iff.mp h.symm
      have hplain := hid id (truthy_eq_some.mp hshown).1
      have htake : Unbroken (id.take 8) :=
        ⟨fun hc => hplain.1 (List.mem_of_mem_take hc), fun hc => hplain.2 (List.mem_of_mem_take hc)⟩
      exact unbroken_append.mpr ⟨unbroken_cons.mpr ⟨hopen, htake⟩, hclose⟩
    · exact hip part (truthy_eq_some.mp h.symm).1
    · exact hmethod part (truthy_eq_some.mp h.symm).1
    · obtain ⟨host, hshown, rfl⟩ := Option.map_eq_some_iff.mp h.symm
      exact (unbroken_target hpath host).mpr (hhost host (truthy_eq_some.mp hshown).1)
    · obtain ⟨action', hshown, rfl⟩ := Option.map_eq_some_iff.mp h.symm
      obtain rfl := Option.some.inj (hname.symm.trans (truthy_eq_some.mp hshown).1)
      exact unbroken_append.mpr ⟨by decide, hplain⟩
    · obtain ⟨status, -, rfl⟩ := Option.map_eq_some_iff.mp h.symm
      exact unbroken_append.mpr ⟨unbroken_cons.mpr ⟨hopen, unbroken_showInt _⟩, hclose⟩
    · obtain ⟨size, -, rfl⟩ := Option.map_eq_some_iff.mp h.symm
      exact unbroken_append.mpr ⟨unbroken_showInt _, by decide⟩
    · obtain ⟨latency, -, rfl⟩ := Option.map_eq_some_iff.mp h.symm
      exact unbroken_append.mpr ⟨unbroken_showTenths _, by decide⟩

end LogEntry

theorem onePhysicalLine_iff (s : Text) : OnePhysicalLine (s ++ ['\n']) ↔ Unbroken s := by
  constructor
  · rintro ⟨line, hline, hunbroken⟩
    obtain rfl := List.append_cancel_right hline
    exact hunbroken
  · exact fun h => ⟨s, rfl, h⟩

/-- When stderr gets one line. -/
theorem stderrText_line_iff (level : ℕ) (e : LogEntry) :
    OnePhysicalLine (stderrText level e) ↔ level ≤ infoLevel ∧ Unbroken e.toHuman := by
  have hindent : Unbroken (txt "  ") := by decide
  rw [stderrText]
  split
  · rename_i hlevel
    rw [onePhysicalLine_iff, unbroken_append]
    simp only [hindent, hlevel, true_and]
  · rename_i hlevel
    refine iff_of_false ?_ fun h => hlevel h.1
    rintro ⟨line, hline, -⟩
    exact List.append_ne_nil_of_right_ne_nil line (List.cons_ne_nil _ _) hline.symm

/-- Only stderr depends on what the entry says. -/
theorem unforged_iff (level : ℕ) (e : LogEntry) :
    Unforged level e ↔ level ≤ infoLevel ∧ Unbroken e.toHuman := by
  rw [← stderrText_line_iff]
  constructor
  · exact Unforged.stderr
  · refine fun h => ⟨fileText_line e, h, fun before after => ?_⟩
    rw [readStream_streamBytes, List.map_append, List.map_cons]
    rfl

end Proxy
end NetworkProxy
