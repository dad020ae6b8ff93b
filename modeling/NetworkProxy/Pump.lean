import Mathlib.Data.List.Basic
import Mathlib.Logic.Relation
import Mathlib.Tactic.Common

/-!
# Pumps

A pump copies a stream: it reads a piece of at most `size` letters from a source, writes it
to a sink, and starts again, until the source ends or a call fails.  A source may cut its
stream anywhere, and a sink may take a piece bit by bit.

* `Pump.Step`: what a pump can do, while its source and its sink are open or closed.
* `Pump.Carries`: no letter is lost, doubled or moved; `Pump.carries_step` keeps it.
* `Pump.run_to_end`: a pump can copy the whole stream.
-/

namespace NetworkProxy

universe u

/-- Why the loop of a pump is over. -/
inductive Ending
  | eof
  | error
deriving DecidableEq

/-- Where the loop of a pump stands. -/
inductive PumpPhase (α : Type u)
  | reading
  /-- In a write; `rest` is not written yet. -/
  | writing (rest : List α)
  /-- Out of the loop; `rest` was read and not written. -/
  | closing (ending : Ending) (rest : List α)
  | finished (ending : Ending) (rest : List α)

namespace PumpPhase

variable {α : Type u}

/-- What was read and is not written. -/
def inHand : PumpPhase α → List α
  | reading => []
  | writing rest => rest
  | closing _ rest => rest
  | finished _ rest => rest

/-- Why the loop is over, when it is. -/
def ending? : PumpPhase α → Option Ending
  | reading => none
  | writing _ => none
  | closing ending _ => some ending
  | finished ending _ => some ending

end PumpPhase

/-- A pump, with what its source has still to give and what its sink has taken. -/
structure Pump (α : Type u) where
  pending : List α
  phase : PumpPhase α
  delivered : List α

namespace Pump

variable {α : Type u}

/-- A pump in front of a stream. -/
def start (stream : List α) : Pump α := ⟨stream, .reading, []⟩

section Steps

variable (size : ℕ) (sourceOpen sinkOpen : Prop)

/-- One step of a pump.  A call on a closed end fails. -/
inductive Step : Pump α → Pump α → Prop
  | read {piece pending delivered : List α} (hopen : sourceOpen) (hne : piece ≠ [])
      (hsize : piece.length ≤ size) :
      Step ⟨piece ++ pending, .reading, delivered⟩ ⟨pending, .writing piece, delivered⟩
  | readEnd {delivered : List α} (hopen : sourceOpen) :
      Step ⟨[], .reading, delivered⟩ ⟨[], .closing .eof [], delivered⟩
  | readError {pending delivered : List α} :
      Step ⟨pending, .reading, delivered⟩ ⟨pending, .closing .error [], delivered⟩
  | write {piece rest pending delivered : List α} (hopen : sinkOpen) (hne : piece ≠ []) :
      Step ⟨pending, .writing (piece ++ rest), delivered⟩
        ⟨pending, .writing rest, delivered ++ piece⟩
  | writeDone {pending delivered : List α} :
      Step ⟨pending, .writing [], delivered⟩ ⟨pending, .reading, delivered⟩
  | writeError {rest pending delivered : List α} (hne : rest ≠ []) :
      Step ⟨pending, .writing rest, delivered⟩ ⟨pending, .closing .error rest, delivered⟩
  | finish {ending : Ending} {rest pending delivered : List α} :
      Step ⟨pending, .closing ending rest, delivered⟩ ⟨pending, .finished ending rest, delivered⟩

end Steps

/-- What is delivered, in hand and pending is the stream, in this order; at the end of the
stream nothing is left. -/
structure Carries (stream : List α) (s : Pump α) : Prop where
  conserved : s.delivered ++ s.phase.inHand ++ s.pending = stream
  exhausted : s.phase.ending? = some .eof → s.phase.inHand = [] ∧ s.pending = []

theorem carries_start (stream : List α) : (start stream).Carries stream :=
  ⟨rfl, nofun⟩

namespace Carries

variable {stream : List α} {s : Pump α}

theorem delivered_prefix (h : s.Carries stream) : s.delivered <+: stream := by
  rw [← h.conserved, List.append_assoc]
  exact List.prefix_append _ _

theorem delivered_eq (h : s.Carries stream) (hend : s.phase.ending? = some .eof) :
    s.delivered = stream := by
  obtain ⟨hhand, hpending⟩ := h.exhausted hend
  rw [← h.conserved, hhand, hpending, List.append_nil, List.append_nil]

end Carries

variable {size : ℕ} {sourceOpen sinkOpen : Prop}

/-- A step keeps every letter in its place. -/
theorem carries_step {stream : List α} {s s' : Pump α} (h : s.Carries stream)
    (hstep : Step size sourceOpen sinkOpen s s') : s'.Carries stream := by
  obtain ⟨hconserved, hexhausted⟩ := h
  cases hstep with
  | read hopen hne hsize =>
      refine ⟨?_, nofun⟩
      rw [← hconserved]
      simp [PumpPhase.inHand]
  | readEnd hopen => exact ⟨hconserved, fun _ => ⟨rfl, rfl⟩⟩
  | readError => exact ⟨hconserved, nofun⟩
  | write hopen hne =>
      refine ⟨?_, nofun⟩
      rw [← hconserved]
      simp [PumpPhase.inHand]
  | writeDone => exact ⟨hconserved, nofun⟩
  | writeError hne => exact ⟨hconserved, nofun⟩
  | finish => exact ⟨hconserved, hexhausted⟩

/-- A piece that is read and written in one go. -/
theorem run_copy {piece : List α} (hsource : sourceOpen) (hsink : sinkOpen) (hne : piece ≠ [])
    (hsize : piece.length ≤ size) (pending delivered : List α) :
    Relation.ReflTransGen (Step size sourceOpen sinkOpen)
      ⟨piece ++ pending, .reading, delivered⟩ ⟨pending, .reading, delivered ++ piece⟩ := by
  have hwrite : Step size sourceOpen sinkOpen ⟨pending, .writing piece, delivered⟩
      ⟨pending, .writing [], delivered ++ piece⟩ := by
    have h : Step size sourceOpen sinkOpen ⟨pending, .writing (piece ++ []), delivered⟩
        ⟨pending, .writing [], delivered ++ piece⟩ := .write hsink hne
    rwa [List.append_nil] at h
  exact .head (.read hsource hne hsize) (.head hwrite (.single .writeDone))

/-- A pump can copy its stream.  With both ends open there is a run to the end of the
stream. -/
theorem run_to_end (hpos : 0 < size) (hsource : sourceOpen) (hsink : sinkOpen)
    (stream : List α) :
    ∀ delivered : List α, Relation.ReflTransGen (Step size sourceOpen sinkOpen)
      ⟨stream, .reading, delivered⟩ ⟨[], .closing .eof [], delivered ++ stream⟩ := by
  induction stream with
  | nil =>
      intro delivered
      rw [List.append_nil]
      exact .single (.readEnd hsource)
  | cons x stream ih =>
      intro delivered
      have hcopy : Relation.ReflTransGen (Step size sourceOpen sinkOpen)
          ⟨x :: stream, .reading, delivered⟩ ⟨stream, .reading, delivered ++ [x]⟩ :=
        run_copy hsource hsink (List.cons_ne_nil x []) hpos stream delivered
      have hrest := ih (delivered ++ [x])
      rw [List.append_assoc] at hrest
      exact hcopy.trans hrest

end Pump
end NetworkProxy
