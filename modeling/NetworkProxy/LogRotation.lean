import NetworkProxy.LogSchema
import NetworkProxy.RotatingFile
import NetworkProxy.TextFile
import NetworkProxy.Utf8RoundTrip

/-!
# The log on disk

`log_event` writes each entry through the rotating file handler.  A log aggregator reads the
files from the oldest to the newest, each line as a JSON document.

`log_is_kept`: it gets the entries that were logged last, in their order and each as one;
how many these are is bounded from both sides.
-/

namespace NetworkProxy
namespace Proxy

open Py JsonText Rotating

/-- How an entry is written. -/
def written (e : LogEntry) : Written UInt8 := ⟨(fileText e).length, encode (fileText e)⟩

/-- The files after some calls of `log_event`, in the order in which they held the lock of the
handler. -/
def logFiles (cfg : Rotation) (entries : List LogEntry) : LogFiles UInt8 :=
  entries.foldl (fun files e => emit cfg files (written e)) .start

/-- A file, read line by line. -/
def readFile (file : Bytes) : Option (List (Json Number)) := do
  let text ← decode file
  (fileLines text).mapM (loads numberFormat)

/-- All files, oldest first. -/
def readLog (files : List Bytes) : Option (List (Json Number)) :=
  (files.mapM readFile).map List.flatten

theorem length_le_length_encode (s : Text) : s.length ≤ (encode s).length := by
  induction s with
  | nil => exact le_rfl
  | cons c s ih =>
      have hchar := List.length_pos_of_ne_nil (utf8EncodeChar_ne_nil c)
      rw [encode_cons, List.length_append, List.length_cons]
      omega

theorem mapM_some {α β γ : Type} {f : β → Option γ} {g : α → β} {k : α → γ} :
    ∀ {l : List α}, (∀ a ∈ l, f (g a) = some (k a)) → (l.map g).mapM f = some (l.map k)
  | [], _ => rfl
  | a :: l, h => by
      have ih := mapM_some fun b hb => h b (List.mem_cons_of_mem a hb)
      rw [List.map_cons, List.mapM_cons, h a List.mem_cons_self, ih]
      rfl

/-- A file that holds some entries is read as these. -/
theorem readFile_entries (entries : List LogEntry) :
    readFile (Segments.bytesOf written entries) = some (entries.map LogEntry.toDict) := by
  have hbytes : Segments.bytesOf written entries =
      encode (writeLines (entries.map fun e => dumps numberFormat e.toDict)) := by
    induction entries with
    | nil => rfl
    | cons e entries ih =>
        have hwrite : writeLines ((e :: entries).map fun e => dumps numberFormat e.toDict) =
            fileText e ++ writeLines (entries.map fun e => dumps numberFormat e.toDict) := by
          rw [List.map_cons, writeLines, List.flatMap_cons]
          rfl
        rw [Segments.bytesOf, List.flatMap_cons, ← Segments.bytesOf, ih, hwrite, encode_append]
        rfl
  have hlines : fileLines (writeLines (entries.map fun e => dumps numberFormat e.toDict)) =
      entries.map fun e => dumps numberFormat e.toDict := by
    refine fileLines_writeLines fun line hline => ?_
    obtain ⟨e, -, rfl⟩ := List.mem_map.mp hline
    exact (avoids_dumps numberFormat e.toDict).symm
  rw [readFile, hbytes, decode_encode]
  show (fileLines _).mapM _ = _
  rw [hlines]
  exact mapM_some fun e _ => loads_dumps numberFormat e.toDict

theorem readLog_segments (s : Segments LogEntry) :
    readLog ((s.older.reverse ++ [s.current]).map (Segments.bytesOf written)) =
      some (s.records.map LogEntry.toDict) := by
  rw [readLog, mapM_some fun segment _ => readFile_entries segment]
  simp [Segments.records, List.map_flatten]

theorem sum_oldestFirst (s : Segments LogEntry) :
    (((s.older.reverse ++ [s.current]).map (Segments.bytesOf written)).map List.length).sum =
      s.size written := by
  rw [List.map_append, List.map_append, List.sum_append, List.map_reverse, List.map_reverse,
    List.sum_reverse, List.map_map]
  simp [Segments.size, Function.comp_def]

/-- **The log is kept.**  Whatever entries are logged, none longer than `longest` bytes: the
files, read from the oldest to the newest and line by line, are the entries that were
logged last, in their order, and no entry is split.  None is lost before all backups are there,
each of at least `maxBytes - longest` bytes; and all files together are bounded. -/
theorem log_is_kept {cfg : Rotation} (hmax : 0 < cfg.maxBytes) (hcount : 0 < cfg.backupCount)
    {entries : List LogEntry} {longest : ℕ}
    (h : ∀ e ∈ entries, (encode (fileText e)).length ≤ longest) :
    ∃ lost kept, entries = lost ++ kept ∧
      readLog ((logFiles cfg entries).oldestFirst cfg.backupCount) =
        some (kept.map LogEntry.toDict) ∧
      (lost = [] ∨ ∀ i, i < cfg.backupCount → ∃ file,
        (logFiles cfg entries).backup (i + 1) = some file ∧
          cfg.maxBytes ≤ file.length + longest) ∧
      (((logFiles cfg entries).oldestFirst cfg.backupCount).map List.length).sum ≤
        (cfg.backupCount + 1) * (cfg.maxBytes + longest) := by
  have hholds : Holds written cfg (logFiles cfg entries) _ := holds_run holds_start entries
  have hkept : Segments.Kept written cfg longest ([] ++ entries) _ :=
    (Segments.kept_start longest).run hmax hcount entries fun e he =>
      ⟨(length_le_length_encode _).trans (h e he), h e he⟩
  obtain ⟨lost, hwritten, hlost⟩ := hkept.last
  rw [hholds.oldestFirst, sum_oldestFirst]
  refine ⟨lost, _, hwritten, readLog_segments _, hlost.imp_right fun hall i hi => ?_, hkept.size_le⟩
  have hbackup := hholds.backup i
  rw [← hall] at hi
  rw [List.getElem?_eq_getElem hi, Option.map_some] at hbackup
  exact ⟨_, hbackup, hkept.full _ (List.getElem_mem hi)⟩

/-- Three entries, two of which fit into the file and its backup. -/
def threeEntries : List LogEntry :=
  ["first", "second", "third"].map fun message =>
    logEntry (txt "2024-05-01T12:00:00.000+00:00") (txt message) {}

theorem log_is_kept_threeEntries :
    ∃ lost kept, threeEntries = lost ++ kept ∧
      readLog ((logFiles ⟨150, 1, false⟩ threeEntries).oldestFirst 1) =
        some (kept.map LogEntry.toDict) ∧
      (lost = [] ∨ ∀ i, i < 1 → ∃ file,
        (logFiles ⟨150, 1, false⟩ threeEntries).backup (i + 1) = some file ∧
          150 ≤ file.length + 120) ∧
      (((logFiles ⟨150, 1, false⟩ threeEntries).oldestFirst 1).map List.length).sum ≤
        (1 + 1) * (150 + 120) := by
  have hlengths : (threeEntries.all fun e => decide ((encode (fileText e)).length ≤ 120)) = true :=
    by decide +kernel
  refine log_is_kept (Nat.succ_pos _) (Nat.succ_pos _) fun e he => ?_
  exact of_decide_eq_true (List.all_eq_true.mp hlengths e he)

end Proxy
end NetworkProxy
