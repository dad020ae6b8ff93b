import NetworkProxy.Recency

/-!
# Bounded deques

A queue that drops its oldest elements once it is longer than `n`, in the manner
of Python's `collections.deque(maxlen=n)`.  The bound is a field, so every deque
carries it.
-/

namespace NetworkProxy

open Recency

universe u

/-- A deque of at most `n` elements, oldest first. -/
structure BoundedDeque (n : ℕ) (α : Type u) where
  items : List α
  bounded : items.length ≤ n

namespace BoundedDeque

variable {n : ℕ} {α : Type u}

@[ext] theorem ext {d e : BoundedDeque n α} (h : d.items = e.items) : d = e := by
  cases d
  cases e
  simpa using h

def empty : BoundedDeque n α := ⟨[], Nat.zero_le n⟩

/-- `len(d)`. -/
def length (d : BoundedDeque n α) : ℕ := d.items.length

/-- `d.append(x)`: the oldest element is dropped when the deque is full. -/
def append (d : BoundedDeque n α) (x : α) : BoundedDeque n α where
  items := (d.items ++ [x]).rtake n
  bounded := by
    rw [List.rtake, List.length_drop]
    omega

/-- The deque after appending a list. -/
def appendAll (d : BoundedDeque n α) (l : List α) : BoundedDeque n α := l.foldl append d

theorem rtake_append_rtake (l l' : List α) (n : ℕ) :
    (l.rtake n ++ l').rtake n = (l ++ l').rtake n := by
  simp only [List.rtake_eq_reverse_take_reverse, List.reverse_append, List.reverse_reverse,
    List.take_append, List.take_take]
  rw [Nat.min_eq_left (Nat.sub_le n _)]

/-- Appending a list leaves its last `n` elements, and old ones while they fit. -/
theorem appendAll_items (d : BoundedDeque n α) (l : List α) :
    (d.appendAll l).items = (d.items ++ l).rtake n := by
  induction l generalizing d with
  | nil =>
      rw [List.append_nil, rtake_of_length_le d.bounded]
      rfl
  | cons x l ih =>
      rw [appendAll, List.foldl_cons, ← appendAll, ih, append, rtake_append_rtake,
        List.append_assoc, List.singleton_append]

theorem appendAll_concat (d : BoundedDeque n α) (l : List α) (x : α) :
    d.appendAll (l ++ [x]) = (d.appendAll l).append x := by
  rw [appendAll, List.foldl_append, appendAll, List.foldl_cons, List.foldl_nil]

theorem empty_appendAll_items (l : List α) :
    ((empty : BoundedDeque n α).appendAll l).items = l.rtake n := by
  rw [appendAll_items, empty, List.nil_append]

theorem empty_appendAll_length (l : List α) :
    ((empty : BoundedDeque n α).appendAll l).length = min n l.length := by
  rw [length, empty_appendAll_items, List.rtake, List.length_drop]
  omega

end BoundedDeque
end NetworkProxy
