import Mathlib.Algebra.Order.BigOperators.Group.List
import Mathlib.Data.List.TakeDrop
import Mathlib.Logic.Function.Basic
import Mathlib.Tactic.Ring

/-!
# Rotating files

`logging.handlers.RotatingFileHandler`: before a record is written that would make the file
too long, the file becomes the first backup and each backup the next one.

Two levels.  `LogFiles` are the files by their numbers, renamed one after the other.
`Segments` are what they hold: the records of the current file, and those of each older
one.

* `holds_emit`: the files hold the segments after every record.
* `Segments.Kept.run`: what is kept is what was written last; nothing is lost before the
  backups are full.
-/

namespace NetworkProxy
namespace Rotating

universe u v

/-- The parameters of the handler.  Some versions never roll over an empty file. -/
structure Rotation where
  maxBytes : ℕ
  backupCount : ℕ
  sparesEmpty : Bool

/-- The file that is written, and the backups `.1`, `.2`, … by their number. -/
structure LogFiles (β : Type u) where
  base : List β
  backup : ℕ → Option (List β)

/-- How a record is written: the number of its characters, and its bytes. -/
structure Written (β : Type u) where
  chars : ℕ
  bytes : List β

section Handler

variable {β : Type u}

/-- No file yet; the handler creates its own. -/
def LogFiles.start : LogFiles β := ⟨[], fun _ => none⟩

/-- Backup `i` becomes backup `i + 1`, if it exists. -/
def renameUp (i : ℕ) (backup : ℕ → Option (List β)) : ℕ → Option (List β) :=
  if (backup i).isSome then Function.update (Function.update backup (i + 1) (backup i)) i none
  else backup

/-- The loop of `doRollover`, from backup `n` down to the first one. -/
def shiftUp : ℕ → (ℕ → Option (List β)) → ℕ → Option (List β)
  | 0, backup => backup
  | n + 1, backup => shiftUp n (renameUp (n + 1) backup)

/-- `shouldRollover`. -/
def shouldRollover (cfg : Rotation) (files : LogFiles β) (r : Written β) : Bool :=
  decide (0 < cfg.maxBytes) && decide (cfg.maxBytes ≤ files.base.length + r.chars) &&
    !(cfg.sparesEmpty && files.base.isEmpty)

/-- `doRollover`.  Without backups the file is opened again as it is. -/
def doRollover (cfg : Rotation) (files : LogFiles β) : LogFiles β :=
  if 0 < cfg.backupCount then
    { base := []
      backup := Function.update (shiftUp (cfg.backupCount - 1) files.backup) 1
        (some files.base) }
  else files

/-- `emit`. -/
def emit (cfg : Rotation) (files : LogFiles β) (r : Written β) : LogFiles β :=
  let files := if shouldRollover cfg files r then doRollover cfg files else files
  { files with base := files.base ++ r.bytes }

end Handler

/-! ## Segments -/

/-- The records of the current file, oldest first, and of each older file, newest file
first. -/
structure Segments (ρ : Type v) where
  current : List ρ
  older : List (List ρ)

namespace Segments

variable {β : Type u} {ρ : Type v} (write : ρ → Written β)

def start : Segments ρ := ⟨[], []⟩

/-- The bytes of some records. -/
def bytesOf (records : List ρ) : List β := records.flatMap fun r => (write r).bytes

/-- All records that are kept, oldest first. -/
def records (s : Segments ρ) : List ρ := s.older.reverse.flatten ++ s.current

/-- The record starts a new file. -/
def Rolls (cfg : Rotation) (s : Segments ρ) (r : ρ) : Bool :=
  decide (0 < cfg.maxBytes) &&
    decide (cfg.maxBytes ≤ (bytesOf write s.current).length + (write r).chars) &&
    !(cfg.sparesEmpty && (bytesOf write s.current).isEmpty)

/-- One record more. -/
def emit (cfg : Rotation) (s : Segments ρ) (r : ρ) : Segments ρ :=
  if s.Rolls write cfg r && decide (0 < cfg.backupCount) then
    ⟨[r], (s.current :: s.older).take cfg.backupCount⟩
  else { s with current := s.current ++ [r] }

end Segments

open Segments

/-- The files hold the segments. -/
structure Holds {β : Type u} {ρ : Type v} (write : ρ → Written β) (cfg : Rotation)
    (files : LogFiles β) (s : Segments ρ) : Prop where
  base : files.base = bytesOf write s.current
  backup : ∀ i, files.backup (i + 1) = (s.older[i]?).map (bytesOf write)
  count : s.older.length ≤ cfg.backupCount

/-! ## The renaming loop -/

section Shift

variable {β : Type u}

/-- Among the backups up to `n + 1`, none is missing in front of another one. -/
def Contiguous (n : ℕ) (backup : ℕ → Option (List β)) : Prop :=
  ∀ i < n, backup (i + 1) = none → backup (i + 2) = none

/-- Backup `n + 1` moves up. -/
theorem renameUp_apply {n : ℕ} {backup : ℕ → Option (List β)} (h : Contiguous (n + 1) backup)
    (j : ℕ) : renameUp (n + 1) backup j =
      if j = n + 1 then none else if j = n + 2 then backup (n + 1) else backup j := by
  rw [renameUp]
  cases hn : backup (n + 1) with
  | some content => simp [Function.update_apply]
  | none =>
      have hnext := h n (Nat.lt_succ_self n) hn
      by_cases hj : j = n + 1
      · simp [hj, hn]
      · by_cases hj' : j = n + 2
        · simp [hj', hnext]
        · simp [hj, hj']

/-- What the loop leaves: backups `1` to `n` have moved up by one. -/
theorem shiftUp_apply {n : ℕ} : ∀ {backup : ℕ → Option (List β)}, Contiguous n backup → ∀ j,
    shiftUp n backup (j + 1) =
      if j = 0 then (if n = 0 then backup 1 else none)
      else if j ≤ n then backup j else backup (j + 1) := by
  induction n with
  | zero =>
      intro backup _ j
      rw [shiftUp]
      by_cases hj : j = 0
      · simp [hj]
      · simp [hj]
  | succ n ih =>
      intro backup h j
      have hrename := renameUp_apply h
      have hcontiguous : Contiguous n (renameUp (n + 1) backup) := by
        intro i hi hnone
        rw [hrename, if_neg (by omega), if_neg (by omega)] at hnone
        rw [hrename]
        by_cases hlast : i + 2 = n + 1
        · rw [if_pos hlast]
        · rw [if_neg hlast, if_neg (by omega)]
          exact h i (by omega) hnone
      rw [shiftUp, ih hcontiguous]
      simp only [hrename]
      by_cases hj : j = 0
      · by_cases hn : n = 0 <;> simp [hj, hn]
      · by_cases hle : j ≤ n
        · simp only [if_neg hj, if_pos hle, if_pos (Nat.le_succ_of_le hle)]
          rw [if_neg (by omega), if_neg (by omega)]
        · simp only [if_neg hj, if_neg hle]
          by_cases hlast : j = n + 1
          · simp [hlast]
          · rw [if_neg (by omega), if_neg (by omega), if_neg (by omega)]

end Shift

/-! ## The files hold the segments -/

section Refine

variable {β : Type u} {ρ : Type v} {write : ρ → Written β} {cfg : Rotation}

theorem holds_start : Holds write cfg LogFiles.start Segments.start where
  base := rfl
  backup _ := rfl
  count := Nat.zero_le _

theorem Holds.contiguous {files : LogFiles β} {s : Segments ρ} (h : Holds write cfg files s)
    (n : ℕ) : Contiguous n files.backup := by
  intro i _ hnone
  rw [h.backup, Option.map_eq_none_iff, List.getElem?_eq_none_iff] at hnone
  rw [h.backup, Option.map_eq_none_iff, List.getElem?_eq_none_iff]
  omega

/-- The files after a rollover. -/
theorem Holds.rollover {files : LogFiles β} {s : Segments ρ} (h : Holds write cfg files s)
    (hcount : 0 < cfg.backupCount) :
    Holds write cfg (doRollover cfg files)
      ⟨[], (s.current :: s.older).take cfg.backupCount⟩ where
  base := by
    rw [doRollover, if_pos hcount]
    rfl
  backup i := by
    rw [doRollover, if_pos hcount]
    dsimp only
    rw [Function.update_apply, List.getElem?_take, shiftUp_apply (h.contiguous _)]
    cases i with
    | zero => simp [hcount, h.base]
    | succ i =>
        have hcons : (s.current :: s.older)[i + 1]? = s.older[i]? := rfl
        rw [if_neg (by omega), if_neg (by omega), hcons]
        by_cases hlt : i + 1 < cfg.backupCount
        · rw [if_pos (by omega), if_pos hlt, h.backup]
        · have hnone : s.older[i + 1]? = none := by
            rw [List.getElem?_eq_none_iff]
            have := h.count
            omega
          rw [if_neg (by omega), if_neg hlt, h.backup, hnone]
  count := by
    rw [List.length_take]
    exact Nat.min_le_left _ _

theorem Holds.append {files : LogFiles β} {s : Segments ρ} (h : Holds write cfg files s) (r : ρ) :
    Holds write cfg { files with base := files.base ++ (write r).bytes }
      { s with current := s.current ++ [r] } where
  base := by
    simp [h.base, bytesOf]
  backup := h.backup
  count := h.count

theorem Holds.rolls {files : LogFiles β} {s : Segments ρ} (h : Holds write cfg files s) (r : ρ) :
    shouldRollover cfg files (write r) = s.Rolls write cfg r := by
  rw [shouldRollover, Rolls, h.base]

/-- Simulation.  A record that is written to the files is written to the segments. -/
theorem holds_emit {files : LogFiles β} {s : Segments ρ} (h : Holds write cfg files s) (r : ρ) :
    Holds write cfg (emit cfg files (write r)) (s.emit write cfg r) := by
  rw [emit, Segments.emit, h.rolls r]
  cases s.Rolls write cfg r with
  | false => exact h.append r
  | true =>
      by_cases hcount : 0 < cfg.backupCount
      · simp only [if_true, hcount, decide_true, Bool.and_self]
        exact (h.rollover hcount).append r
      · simp only [if_true, hcount, decide_false, Bool.and_false, doRollover, if_false]
        exact h.append r

/-- The files that are there, oldest first. -/
def LogFiles.oldestFirst (n : ℕ) (files : LogFiles β) : List (List β) :=
  (List.range n).reverse.filterMap (fun i => files.backup (i + 1)) ++ [files.base]

theorem filterMap_range_getElem? {α : Type*} (l : List α) :
    ∀ {n : ℕ}, l.length ≤ n → (List.range n).filterMap (fun i => l[i]?) = l := by
  induction l with
  | nil =>
      intro n _
      simp
  | cons a l ih =>
      intro n hn
      cases n with
      | zero => cases hn
      | succ n =>
          have hfirst : (a :: l)[0]? = some a := rfl
          rw [List.range_succ_eq_map, List.filterMap_cons_some hfirst, List.filterMap_map]
          exact congrArg (a :: ·) (ih (Nat.le_of_succ_le_succ hn))

theorem Holds.oldestFirst {files : LogFiles β} {s : Segments ρ} (h : Holds write cfg files s) :
    files.oldestFirst cfg.backupCount = (s.older.reverse ++ [s.current]).map (bytesOf write) := by
  have hbackups : (List.range cfg.backupCount).filterMap (fun i => files.backup (i + 1)) =
      s.older.map (bytesOf write) := by
    have hmap : (fun i => files.backup (i + 1)) =
        fun i => (s.older.map (bytesOf write))[i]? := by
      funext i
      rw [h.backup, List.getElem?_map]
    rw [hmap]
    exact filterMap_range_getElem? _ (by simpa using h.count)
  rw [LogFiles.oldestFirst, List.filterMap_reverse, hbackups, h.base]
  simp

/-- A run of steps. -/
theorem holds_run {files : LogFiles β} {s : Segments ρ} (h : Holds write cfg files s)
    (records : List ρ) :
    Holds write cfg (records.foldl (fun files r => emit cfg files (write r)) files)
      (records.foldl (Segments.emit write cfg) s) := by
  induction records generalizing files s with
  | nil => exact h
  | cons r records ih => exact ih (holds_emit h r)

end Refine

/-! ## What is kept -/

namespace Segments

section Keep

variable {β : Type u} {ρ : Type v} {write : ρ → Written β} {cfg : Rotation}

/-- What is kept of the records that were written, when none is longer than `longest`. -/
structure Kept (write : ρ → Written β) (cfg : Rotation) (longest : ℕ) (written : List ρ)
    (s : Segments ρ) : Prop where
  /-- The last ones, and all of them until the backups are full. -/
  last : ∃ lost, written = lost ++ s.records ∧
    (lost = [] ∨ s.older.length = cfg.backupCount)
  count : s.older.length ≤ cfg.backupCount
  /-- An older file was full. -/
  full : ∀ segment ∈ s.older, cfg.maxBytes ≤ (bytesOf write segment).length + longest
  small : ∀ segment ∈ s.current :: s.older,
    (bytesOf write segment).length ≤ cfg.maxBytes + longest

theorem kept_start (longest : ℕ) : Kept write cfg longest [] start where
  last := ⟨[], rfl, Or.inl rfl⟩
  count := Nat.zero_le _
  full segment h := by cases h
  small segment h := by
    rw [List.mem_singleton.mp h]
    exact Nat.zero_le _

/-- A record that starts a new file. -/
theorem Kept.roll {longest : ℕ} {written : List ρ} {s : Segments ρ}
    (h : Kept write cfg longest written s) {r : ρ}
    (hr : (write r).chars ≤ longest ∧ (write r).bytes.length ≤ longest)
    (hrolls : s.Rolls write cfg r = true) :
    Kept write cfg longest (written ++ [r])
      ⟨[r], (s.current :: s.older).take cfg.backupCount⟩ where
  last := by
    obtain ⟨lost, hwritten, hlost⟩ := h.last
    let all := s.current :: s.older
    refine ⟨lost ++ (all.drop cfg.backupCount).reverse.flatten, ?_, ?_⟩
    · have hall : all.reverse.flatten = (all.drop cfg.backupCount).reverse.flatten ++
          (all.take cfg.backupCount).reverse.flatten := by
        rw [← List.flatten_append, ← List.reverse_append, List.take_append_drop]
      have hrecords : s.records = all.reverse.flatten := by
        simp [records, all]
      rw [hwritten, hrecords, hall]
      simp [records, all]
    · rw [List.length_take, List.length_cons]
      by_cases hfull : cfg.backupCount ≤ s.older.length + 1
      · exact Or.inr (Nat.min_eq_left hfull)
      · have hdrop : all.drop cfg.backupCount = [] :=
          List.drop_eq_nil_of_le (by simp [all]; omega)
        rcases hlost with hlost | hlost
        · exact Or.inl (by simp [hlost, hdrop])
        · omega
  count := by
    rw [List.length_take]
    exact Nat.min_le_left _ _
  full segment hmem := by
    rcases List.mem_cons.mp (List.mem_of_mem_take hmem) with rfl | hmem
    · simp only [Rolls, Bool.and_eq_true, decide_eq_true_eq] at hrolls
      omega
    · exact h.full segment hmem
  small segment hmem := by
    rcases List.mem_cons.mp hmem with rfl | hmem
    · simp only [bytesOf, List.flatMap_cons, List.flatMap_nil, List.append_nil]
      omega
    · exact h.small segment (List.mem_of_mem_take hmem)

/-- A record that is appended to the current file. -/
theorem Kept.append {longest : ℕ} {written : List ρ} {s : Segments ρ}
    (h : Kept write cfg longest written s) (hmax : 0 < cfg.maxBytes) {r : ρ}
    (hr : (write r).bytes.length ≤ longest) (hrolls : s.Rolls write cfg r = false) :
    Kept write cfg longest (written ++ [r]) { s with current := s.current ++ [r] } where
  last := by
    obtain ⟨lost, hwritten, hlost⟩ := h.last
    refine ⟨lost, ?_, hlost⟩
    rw [hwritten, records, records, List.append_assoc, List.append_assoc]
  count := h.count
  full := h.full
  small segment hmem := by
    rcases List.mem_cons.mp hmem with rfl | hmem
    · have hbytes : (bytesOf write (s.current ++ [r])).length =
          (bytesOf write s.current).length + (write r).bytes.length := by
        simp [bytesOf]
      rw [hbytes]
      by_cases hempty : bytesOf write s.current = []
      · rw [hempty, List.length_nil]
        omega
      · simp only [Rolls, hmax, decide_true, Bool.true_and, Bool.and_eq_false_iff,
          decide_eq_false_iff_not, List.isEmpty_eq_false_iff.mpr hempty, Bool.and_false,
          Bool.not_false, reduceCtorEq, or_false] at hrolls
        omega
    · exact h.small segment (List.mem_cons_of_mem _ hmem)

/-- One step. -/
theorem Kept.emit {longest : ℕ} {written : List ρ} {s : Segments ρ}
    (h : Kept write cfg longest written s) (hmax : 0 < cfg.maxBytes)
    (hcount : 0 < cfg.backupCount) {r : ρ}
    (hr : (write r).chars ≤ longest ∧ (write r).bytes.length ≤ longest) :
    Kept write cfg longest (written ++ [r]) (s.emit write cfg r) := by
  rw [Segments.emit]
  cases hrolls : s.Rolls write cfg r with
  | false => exact h.append hmax hr.2 hrolls
  | true =>
      simp only [hcount, decide_true, Bool.and_self, if_true]
      exact h.roll hr hrolls

/-- A run of steps. -/
theorem Kept.run {longest : ℕ} {written : List ρ} {s : Segments ρ}
    (h : Kept write cfg longest written s) (hmax : 0 < cfg.maxBytes)
    (hcount : 0 < cfg.backupCount) (rs : List ρ)
    (hrs : ∀ r ∈ rs, (write r).chars ≤ longest ∧ (write r).bytes.length ≤ longest) :
    Kept write cfg longest (written ++ rs) (rs.foldl (Segments.emit write cfg) s) := by
  induction rs generalizing written s with
  | nil => simpa using h
  | cons r rs ih =>
      have hrest := ih (h.emit hmax hcount (hrs r List.mem_cons_self)) fun r' hr' =>
        hrs r' (List.mem_cons_of_mem _ hr')
      rwa [List.append_assoc, List.singleton_append] at hrest

/-- The bytes of all files together. -/
def size (write : ρ → Written β) (s : Segments ρ) : ℕ :=
  (s.older.map fun segment => (bytesOf write segment).length).sum +
    (bytesOf write s.current).length

/-- All files together are bounded. -/
theorem Kept.size_le {longest : ℕ} {written : List ρ} {s : Segments ρ}
    (h : Kept write cfg longest written s) :
    s.size write ≤ (cfg.backupCount + 1) * (cfg.maxBytes + longest) := by
  have holder : (s.older.map fun segment => (bytesOf write segment).length).sum ≤
      s.older.length * (cfg.maxBytes + longest) := by
    have hsum := List.sum_le_card_nsmul
      (s.older.map fun segment => (bytesOf write segment).length) (cfg.maxBytes + longest)
      (by
        intro n hn
        obtain ⟨segment, hmem, rfl⟩ := List.mem_map.mp hn
        exact h.small segment (List.mem_cons_of_mem _ hmem))
    simpa using hsum
  have hcurrent := h.small s.current List.mem_cons_self
  calc s.size write ≤ s.older.length * (cfg.maxBytes + longest) + (cfg.maxBytes + longest) :=
        Nat.add_le_add holder hcurrent
    _ ≤ cfg.backupCount * (cfg.maxBytes + longest) + (cfg.maxBytes + longest) :=
        Nat.add_le_add_right (Nat.mul_le_mul_right _ h.count) _
    _ = (cfg.backupCount + 1) * (cfg.maxBytes + longest) := by ring

end Keep

end Segments

end Rotating
end NetworkProxy
