import NetworkProxy.PyText

/-!
# Lines of a text file

Python opens a text file with universal newlines: `\n`, `\r\n` and `\r` all end a
line.  `fileLines` lists the lines without their ends.

`fileLines_writeLines`: lines that hold no line end are read back as they were
written.
-/

namespace NetworkProxy
namespace Py

universe u

section Split

variable {α : Type u} [DecidableEq α]

/-- No piece of a split holds the separator. -/
theorem not_mem_of_mem_splitOn {a : α} :
    ∀ {s piece : List α}, piece ∈ s.splitOn a → a ∉ piece
  | [], piece, h => by
      rw [List.splitOn_nil, List.mem_singleton] at h
      rw [h]
      exact List.not_mem_nil
  | x :: s, piece, h => by
      rw [List.splitOn_cons_eq_if_modifyHead] at h
      split at h
      · rcases List.mem_cons.mp h with rfl | h
        · exact List.not_mem_nil
        · exact not_mem_of_mem_splitOn h
      · rename_i hx
        obtain ⟨first, others, hs⟩ := List.exists_cons_of_ne_nil (List.splitOn_ne_nil a s)
        rw [hs, List.modifyHead_cons] at h
        rcases List.mem_cons.mp h with rfl | h
        · have hfirst : a ∉ first :=
            not_mem_of_mem_splitOn (hs ▸ List.mem_cons_self)
          have hne : ¬ a = x := fun he => hx (beq_iff_eq.mpr he.symm)
          simp [hne, hfirst]
        · exact not_mem_of_mem_splitOn (hs ▸ List.mem_cons_of_mem _ h)

/-- Letters of a piece are letters of the whole. -/
theorem mem_of_mem_splitOn {a c : α} :
    ∀ {s piece : List α}, piece ∈ s.splitOn a → c ∈ piece → c ∈ s
  | [], piece, h, hc => by
      rw [List.splitOn_nil, List.mem_singleton] at h
      rw [h] at hc
      exact hc
  | x :: s, piece, h, hc => by
      rw [List.splitOn_cons_eq_if_modifyHead] at h
      split at h
      · rcases List.mem_cons.mp h with rfl | h
        · cases hc
        · exact List.mem_cons_of_mem _ (mem_of_mem_splitOn h hc)
      · obtain ⟨first, others, hs⟩ := List.exists_cons_of_ne_nil (List.splitOn_ne_nil a s)
        rw [hs, List.modifyHead_cons] at h
        rcases List.mem_cons.mp h with rfl | h
        · rcases List.mem_cons.mp hc with rfl | hc
          · exact List.mem_cons_self
          · exact List.mem_cons_of_mem _ (mem_of_mem_splitOn (hs ▸ List.mem_cons_self) hc)
        · exact List.mem_cons_of_mem _
            (mem_of_mem_splitOn (hs ▸ List.mem_cons_of_mem _ h) hc)

end Split

/-- Newline translation of a text file that is read. -/
def universalNewlines : Text → Text
  | [] => []
  | '\r' :: '\n' :: s => '\n' :: universalNewlines s
  | c :: s => (if c = '\r' then '\n' else c) :: universalNewlines s

/-- The lines of a file, without their ends.  What follows the last line end is a line
unless it is empty. -/
def fileLines (s : Text) : List Text :=
  let pieces := (universalNewlines s).splitOn '\n'
  if pieces.getLast? = some [] then pieces.dropLast else pieces

/-- The lines, each with its end. -/
def writeLines (ls : List Text) : Text := ls.flatMap (fun l => l ++ ['\n'])

theorem not_mem_universalNewlines (s : Text) : '\r' ∉ universalNewlines s := by
  induction s using universalNewlines.induct with
  | case1 => exact List.not_mem_nil
  | case2 s ih =>
      rw [universalNewlines]
      simp [ih]
  | case3 c s hpair ih =>
      rw [universalNewlines.eq_3 c s hpair, List.mem_cons, not_or]
      refine ⟨?_, ih⟩
      split
      · decide
      · rename_i hc
        exact fun he => hc he.symm

theorem universalNewlines_eq_self {s : Text} (h : '\r' ∉ s) : universalNewlines s = s := by
  induction s with
  | nil => rfl
  | cons c s ih =>
      rw [List.mem_cons, not_or] at h
      have hc : ¬ c = '\r' := fun he => h.1 he.symm
      rw [universalNewlines.eq_3 c s (fun _ he _ => hc he), if_neg hc, ih h.2]

theorem mem_splitOn_of_mem_fileLines {s line : Text} (h : line ∈ fileLines s) :
    line ∈ (universalNewlines s).splitOn '\n' := by
  rw [fileLines] at h
  split at h
  · exact (List.dropLast_prefix _).subset h
  · exact h

/-- No line holds a line end. -/
theorem no_line_end_of_mem_fileLines {s line : Text} (h : line ∈ fileLines s) :
    '\n' ∉ line ∧ '\r' ∉ line := by
  have hpiece := mem_splitOn_of_mem_fileLines h
  exact ⟨not_mem_of_mem_splitOn hpiece,
    fun hc => not_mem_universalNewlines s (mem_of_mem_splitOn hpiece hc)⟩

theorem splitOn_writeLines {ls : List Text} (h : ∀ l, l ∈ ls → '\n' ∉ l) :
    (writeLines ls).splitOn '\n' = ls ++ [[]] := by
  induction ls with
  | nil => rfl
  | cons l ls ih =>
      have hl := h l List.mem_cons_self
      have hrest := ih (fun l' hl' => h l' (List.mem_cons_of_mem _ hl'))
      have hcons : writeLines (l :: ls) = l ++ '\n' :: writeLines ls := by
        rw [writeLines, List.flatMap_cons, List.append_assoc]
        rfl
      rw [hcons, List.splitOn_append_cons_self_of_not_mem hl, hrest, List.cons_append]

/-- Written lines are read back. -/
theorem fileLines_writeLines {ls : List Text} (h : ∀ l, l ∈ ls → '\n' ∉ l ∧ '\r' ∉ l) :
    fileLines (writeLines ls) = ls := by
  have hcr : '\r' ∉ writeLines ls := by
    intro hc
    rw [writeLines, List.mem_flatMap] at hc
    obtain ⟨l, hl, hc⟩ := hc
    rcases List.mem_append.mp hc with hc | hc
    · exact (h l hl).2 hc
    · exact absurd (List.mem_singleton.mp hc) (by decide)
  rw [fileLines, universalNewlines_eq_self hcr, splitOn_writeLines (fun l hl => (h l hl).1)]
  rw [if_pos (by simp), List.dropLast_concat]

end Py
end NetworkProxy
