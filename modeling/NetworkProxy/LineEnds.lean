import NetworkProxy.PySplit

/-!
# Readers of lines

Lines joined by the pair `a b` are taken apart by `splitPair`.  A loose reader ends a line at
every `b`, and drops one `a` in front of it.

`splitLoose_joinPair`: both read the lines as they were written if no line holds an `a` or a `b`.
-/

namespace NetworkProxy
namespace Py

universe u

variable {α : Type u} {a b : α}

/-- Neither `a` nor `b` is a letter of `l`. -/
def Avoids (a b : α) (l : List α) : Prop := a ∉ l ∧ b ∉ l

theorem avoids_nil : Avoids a b [] := ⟨List.not_mem_nil, List.not_mem_nil⟩

theorem avoids_append {l m : List α} : Avoids a b (l ++ m) ↔ Avoids a b l ∧ Avoids a b m := by
  rw [Avoids, List.mem_append, List.mem_append, not_or, not_or]
  exact and_and_and_comm

theorem avoids_cons {x : α} {l : List α} :
    Avoids a b (x :: l) ↔ Avoids a b [x] ∧ Avoids a b l :=
  avoids_append (l := [x])

theorem joinPair_append_cons (a b : α) (l m : List α) (ls : List (List α)) :
    joinPair a b ((l ++ a :: b :: m) :: ls) = joinPair a b (l :: m :: ls) := by
  cases ls with
  | nil => rfl
  | cons k ls => simp [joinPair]

variable [DecidableEq α]

instance (l : List α) : Decidable (Avoids a b l) := inferInstanceAs (Decidable (_ ∧ _))

/-- A line without the `a` at its end. -/
def chomp (a : α) (l : List α) : List α := if l.getLast? = some a then l.dropLast else l

/-- The lines of a loose reader. -/
def splitLoose (a b : α) (l : List α) : List (List α) := (l.splitOn b).map (chomp a)

theorem chomp_concat (a : α) (l : List α) : chomp a (l ++ [a]) = l := by
  rw [chomp, if_pos List.getLast?_concat, List.dropLast_concat]

theorem chomp_of_not_mem {l : List α} (h : a ∉ l) : chomp a l = l :=
  if_neg fun hlast => h (List.mem_of_getLast? hlast)

theorem splitLoose_of_avoids {l : List α} (h : Avoids a b l) : splitLoose a b l = [l] := by
  rw [splitLoose, List.splitOn_eq_singleton h.2, List.map_singleton, chomp_of_not_mem h.1]

/-- The first line, and what is read behind it. -/
theorem splitLoose_append (hab : a ≠ b) {l : List α} (h : Avoids a b l) (rest : List α) :
    splitLoose a b (l ++ a :: b :: rest) = l :: splitLoose a b rest := by
  have hline : b ∉ l ++ [a] := by
    rw [List.mem_append, List.mem_singleton, not_or]
    exact ⟨h.2, hab.symm⟩
  have hsplit : l ++ a :: b :: rest = (l ++ [a]) ++ b :: rest := by simp
  rw [splitLoose, hsplit, List.splitOn_append_cons_self_of_not_mem hline, List.map_cons,
    chomp_concat, splitLoose]

/-- A loose reader reads the lines as they were written. -/
theorem splitLoose_joinPair (hab : a ≠ b) :
    ∀ {ls : List (List α)}, ls ≠ [] → (∀ l, l ∈ ls → Avoids a b l) →
      splitLoose a b (joinPair a b ls) = ls
  | [], h, _ => absurd rfl h
  | [l], _, h => splitLoose_of_avoids (h l List.mem_cons_self)
  | l :: m :: ls, _, h => by
      have ih := splitLoose_joinPair hab (List.cons_ne_nil m ls)
        fun l' hl' => h l' (List.mem_cons_of_mem _ hl')
      rw [joinPair, splitLoose_append hab (h l List.mem_cons_self), ih]

end Py
end NetworkProxy
