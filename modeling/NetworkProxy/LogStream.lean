import NetworkProxy.BoundedDeque

/-!
# The live log stream of the dashboard

`log_event` appends to the ring buffer; one `_serve_sse` loop polls it once a
second and infers from its length what is new.  A run interleaves the appends with
the polls of the loop.

* `newEntries_eq_iff`: one poll pushes what is new exactly when nothing is new or
  the buffer has not dropped an entry yet.
* `stream_delivers_iff`: the same for a whole run.
* `stream_goes_silent`: once the buffer is full, a new entry is not pushed.
-/

namespace NetworkProxy
namespace LogStream

open Recency

universe u v

/-- `_RING_BUFFER_SIZE`. -/
@[irreducible] def ringBufferSize : ℕ := 200

variable {ε : Type u} {μ : Type v}

/-- `log_ring_buffer`. -/
abbrev RingBuffer (ε : Type u) := BoundedDeque ringBufferSize ε

/-- What the stream writes: a snapshot of the metrics, or a log entry. -/
inductive SseEvent (ε : Type u) (μ : Type v)
  | metrics (snapshot : μ)
  | log (entry : ε)
deriving DecidableEq

/-- The entries among the events. -/
def logEntries : List (SseEvent ε μ) → List ε
  | [] => []
  | .metrics _ :: events => logEntries events
  | .log entry :: events => entry :: logEntries events

/-- The buffer, and the variable `last_log_count` of the loop. -/
structure Stream (ε : Type u) where
  buffer : RingBuffer ε
  lastLogCount : ℕ

/-- A loop that starts on a buffer. -/
def Stream.opened (buffer : RingBuffer ε) : Stream ε := ⟨buffer, buffer.length⟩

/-- The entries one poll takes for new, given `last_log_count`. -/
def newEntries (buffer : RingBuffer ε) (lastLogCount : ℕ) : List ε :=
  if lastLogCount < buffer.length then
    buffer.items.rtake (buffer.length - lastLogCount)
  else if buffer.length < lastLogCount then
    -- the branch commented "Buffer wrapped": the last five
    buffer.items.rtake 5
  else []

/-- One round of the loop: the events it writes and the stream after it. -/
def Stream.poll (s : Stream ε) (snapshot : μ) : List (SseEvent ε μ) × Stream ε :=
  (.metrics snapshot :: (newEntries s.buffer s.lastLogCount).map .log,
    { s with lastLogCount := s.buffer.length })

/-- `log_event`, as far as the buffer is concerned. -/
def Stream.logEvent (s : Stream ε) (entry : ε) : Stream ε :=
  { s with buffer := s.buffer.append entry }

/-- What can happen while the stream is open. -/
inductive Event (ε : Type u) (μ : Type v)
  | append (entry : ε)
  | poll (snapshot : μ)

/-- The events every poll of a run writes. -/
def pushes : Stream ε → List (Event ε μ) → List (List (SseEvent ε μ))
  | _, [] => []
  | s, .append entry :: run => pushes (s.logEvent entry) run
  | s, .poll snapshot :: run => (s.poll snapshot).1 :: pushes (s.poll snapshot).2 run

/-- For every poll of a run the entries appended since the poll before it, when
`fresh` are appended already. -/
def arrivals : List ε → List (Event ε μ) → List (List ε)
  | _, [] => []
  | fresh, .append entry :: run => arrivals (fresh ++ [entry]) run
  | fresh, .poll _ :: run => fresh :: arrivals [] run

/-- Every poll pushes exactly the entries appended since the poll before it. -/
def Delivers (s : Stream ε) (run : List (Event ε μ)) : Prop :=
  (pushes s run).map logEntries = arrivals [] run

/-- When a poll finds new entries, no more than `ringBufferSize` entries were ever
logged.  `total` entries are logged already, `fresh` of them since the last poll. -/
def FreshWhileFilling : ℕ → ℕ → List (Event ε μ) → Prop
  | _, _, [] => True
  | total, fresh, .append _ :: run => FreshWhileFilling (total + 1) (fresh + 1) run
  | total, fresh, .poll _ :: run =>
      (fresh = 0 ∨ total ≤ ringBufferSize) ∧ FreshWhileFilling total 0 run

/-! ## One poll -/

theorem logEntries_map_log (l : List ε) :
    logEntries (l.map (SseEvent.log (μ := μ))) = l := by
  induction l with
  | nil => rfl
  | cons x l ih => rw [List.map_cons, logEntries, ih]

theorem logEntries_poll (s : Stream ε) (snapshot : μ) :
    logEntries (s.poll snapshot).1 = newEntries s.buffer s.lastLogCount := by
  rw [Stream.poll, logEntries, logEntries_map_log]

/-- The buffer after `log_event` was called on each entry of a list. -/
def buffered (logged : List ε) : RingBuffer ε := BoundedDeque.empty.appendAll logged

theorem length_buffered (logged : List ε) :
    (buffered logged).length = min ringBufferSize logged.length :=
  BoundedDeque.empty_appendAll_length logged

/-- How many entries a poll pushes: the growth of the buffer. -/
theorem length_newEntries (seen fresh : List ε) :
    (newEntries (buffered (seen ++ fresh)) (buffered seen).length).length =
      min ringBufferSize (seen.length + fresh.length) -
        min ringBufferSize seen.length := by
  have hsize : (buffered (seen ++ fresh)).items.length =
      min ringBufferSize (seen ++ fresh).length := length_buffered (seen ++ fresh)
  rw [newEntries, length_buffered, length_buffered, List.length_append]
  rw [List.length_append] at hsize
  split
  · rw [List.rtake, List.length_drop, hsize]
    omega
  · split
    · omega
    · rw [List.length_nil]
      omega

/-- One poll.  What it pushes is what is new exactly when nothing is new or no
entry has been dropped. -/
theorem newEntries_eq_iff (seen fresh : List ε) :
    newEntries (buffered (seen ++ fresh)) (buffered seen).length = fresh ↔
      fresh.length = 0 ∨ (seen ++ fresh).length ≤ ringBufferSize := by
  constructor
  · intro h
    have hlen := length_newEntries seen fresh
    rw [h] at hlen
    rw [List.length_append]
    omega
  · rintro (hnone | hfits)
    · obtain rfl := List.length_eq_zero_iff.mp hnone
      apply List.eq_nil_of_length_eq_zero
      rw [length_newEntries, List.length_nil, Nat.add_zero, Nat.sub_self]
    · have hitems : (buffered (seen ++ fresh)).items = seen ++ fresh := by
        rw [buffered, BoundedDeque.empty_appendAll_items, rtake_of_length_le hfits]
      rw [newEntries, length_buffered, length_buffered, hitems]
      rw [List.length_append] at hfits ⊢
      rw [Nat.min_eq_right hfits, Nat.min_eq_right (by omega), Nat.add_sub_cancel_left]
      split
      · rw [List.rtake, List.length_append, Nat.add_sub_cancel, List.drop_left]
      · have hnone : fresh.length = 0 := by omega
        rw [if_neg (by omega), List.length_eq_zero_iff.mp hnone]

/-! ## A run -/

theorem pushes_append (s : Stream ε) (entry : ε) (run : List (Event ε μ)) :
    pushes s (.append entry :: run) = pushes (s.logEvent entry) run :=
  rfl

theorem pushes_poll (s : Stream ε) (snapshot : μ) (run : List (Event ε μ)) :
    pushes s (.poll snapshot :: run) =
      (s.poll snapshot).1 :: pushes (s.poll snapshot).2 run :=
  rfl

/-- The stream has pushed what was `seen`; `fresh` entries are waiting. -/
theorem pushes_eq_arrivals_iff (run : List (Event ε μ)) (seen fresh : List ε) :
    (pushes ⟨buffered (seen ++ fresh), (buffered seen).length⟩ run).map logEntries =
        arrivals fresh run ↔
      FreshWhileFilling (seen ++ fresh).length fresh.length run := by
  induction run generalizing seen fresh with
  | nil => exact ⟨fun _ => trivial, fun _ => rfl⟩
  | cons event run ih =>
      cases event with
      | append entry =>
          have hbuffer : (buffered (seen ++ fresh)).append entry =
              buffered (seen ++ (fresh ++ [entry])) := by
            rw [buffered, buffered, ← List.append_assoc, BoundedDeque.appendAll_concat]
          have hnext := ih seen (fresh ++ [entry])
          rw [← List.append_assoc, List.length_append, List.length_append,
            List.length_append, List.length_singleton, List.append_assoc] at hnext
          rw [pushes_append, arrivals, FreshWhileFilling, Stream.logEvent, hbuffer,
            List.length_append]
          exact hnext
      | poll snapshot =>
          have hnext := ih (seen ++ fresh) []
          rw [List.append_nil, List.length_nil] at hnext
          rw [pushes_poll, arrivals, FreshWhileFilling, List.map_cons, List.cons.injEq,
            logEntries_poll, newEntries_eq_iff, Stream.poll, hnext]

/--
**The live log stream.**  For every stream opened after `prior` entries were logged,
every poll delivers exactly the entries appended since the poll before it if and only
if each poll that finds new entries comes while at most `ringBufferSize` entries
were ever logged.
-/
theorem stream_delivers_iff (prior : List ε) (run : List (Event ε μ)) :
    Delivers (.opened (buffered prior)) run ↔ FreshWhileFilling prior.length 0 run := by
  have h := pushes_eq_arrivals_iff run prior []
  rw [List.append_nil, List.length_nil] at h
  exact h

/-- On a full buffer one more entry is dropped from the stream. -/
theorem stream_goes_silent :
    ¬ ∀ (prior : List ℕ) (run : List (Event ℕ Unit)),
      (∀ fresh ∈ arrivals [] run, fresh.length ≤ 200) →
        Delivers (.opened (buffered prior)) run := by
  intro hclaim
  have h := hclaim (List.replicate 200 0) [.append 1, .poll ()] (by decide)
  have hsilent : ¬ Delivers (μ := Unit) (.opened (buffered (List.replicate 200 0)))
      [.append 1, .poll ()] := by
    unfold Delivers
    decide +kernel
  exact hsilent h

end LogStream
end NetworkProxy
