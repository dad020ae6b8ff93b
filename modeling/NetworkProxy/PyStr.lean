import NetworkProxy.PyUtf8
import Mathlib.Data.Char
import Mathlib.Data.List.Lex
import Mathlib.Data.Prod.Lex
import Mathlib.Order.Fin.Basic

/-!
# Strings with lone surrogates

A `str` of Python is a list of code points, and `sys.argv` can hold some that no
encoding accepts: a byte that is not UTF-8 becomes a lone surrogate.  `Text` is
the part of them that can be encoded; `pyStr` embeds it, keeping the order.

`mergeSort_concat`: where one more item goes in a sorted list.
-/

namespace NetworkProxy
namespace Py

/-- A code point. -/
abbrev CodePoint := Fin 0x110000

/-- A Python `str`. -/
abbrev PyStr := List CodePoint

/-- A surrogate has no encoding of its own. -/
def isSurrogate (c : CodePoint) : Bool := decide (0xD800 ≤ c.val ∧ c.val < 0xE000)

/-- The code point of a character. -/
def codePoint (c : Char) : CodePoint :=
  ⟨c.toNat, by
    have hvalid : c.toNat < 0xD800 ∨ (0xDFFF < c.toNat ∧ c.toNat < 0x110000) := c.valid
    omega⟩

/-- A text as a `str`. -/
def pyStr (s : Text) : PyStr := s.map codePoint

/-- `s.encode("utf-8")`; `none` is a `UnicodeEncodeError`. -/
def encodeStr (s : PyStr) : Option Bytes :=
  if s.any isSurrogate then none else some (encode (s.map (fun c => Char.ofNat c.val)))

@[simp] theorem codePoint_val (c : Char) : (codePoint c).val = c.toNat := rfl

theorem isSurrogate_codePoint (c : Char) : isSurrogate (codePoint c) = false := by
  have hvalid : c.toNat < 0xD800 ∨ (0xDFFF < c.toNat ∧ c.toNat < 0x110000) := c.valid
  rw [isSurrogate, decide_eq_false_iff_not, codePoint_val]
  omega

theorem any_isSurrogate_pyStr (s : Text) : (pyStr s).any isSurrogate = false := by
  rw [List.any_eq_false]
  intro c hc
  obtain ⟨d, -, rfl⟩ := List.mem_map.mp hc
  simp [isSurrogate_codePoint]

theorem encodeStr_eq_none_iff {s : PyStr} : encodeStr s = none ↔ s.any isSurrogate = true := by
  unfold encodeStr
  split <;> simp_all

@[simp] theorem encodeStr_pyStr (s : Text) : encodeStr (pyStr s) = some (encode s) := by
  have hback : (pyStr s).map (fun c => Char.ofNat c.val) = s := by
    rw [pyStr, List.map_map]
    exact (List.map_congr_left fun c _ => Char.ofNat_toNat c).trans (List.map_id' s)
  rw [encodeStr, any_isSurrogate_pyStr, hback]
  rfl

@[simp] theorem pyStr_append (s t : Text) : pyStr (s ++ t) = pyStr s ++ pyStr t := List.map_append

theorem codePoint_strictMono : StrictMono codePoint := fun _ _ h => h

theorem pyStr_strictMono : StrictMono pyStr :=
  fun _ _ h => List.map_lt (fun _ _ h => codePoint_strictMono h) h

theorem pyStr_injective : Function.Injective pyStr := pyStr_strictMono.injective

section Sorting

universe u

variable {α : Type u} {le : α → α → Bool}

/-- One more item in a sorted list goes between the items that are not above it and the
others. -/
theorem mergeSort_concat (htrans : ∀ a b c, le a b = true → le b c = true → le a c = true)
    (htotal : ∀ a b, (le a b || le b a) = true)
    (hantisymm : ∀ a b, le a b = true → le b a = true → a = b) (l : List α) (x : α) :
    (l ++ [x]).mergeSort le =
      (l.mergeSort le).filter (fun y => le y x) ++
        x :: (l.mergeSort le).filter (fun y => !le y x) := by
  have hsorted : (l.mergeSort le).Pairwise (fun a b => le a b = true) :=
    List.pairwise_mergeSort htrans htotal l
  have habove : ∀ z, le z x = false → le x z = true := by
    intro z hz
    have := htotal z x
    rw [hz, Bool.false_or] at this
    exact this
  refine List.Perm.eq_of_pairwise (fun a b _ _ => hantisymm a b)
    (List.pairwise_mergeSort htrans htotal _) ?_ ?_
  · rw [List.pairwise_append, List.pairwise_cons]
    refine ⟨hsorted.filter _, ⟨fun z hz => ?_, hsorted.filter _⟩, fun y hy z hz => ?_⟩
    · exact habove z (by simpa using (List.mem_filter.mp hz).2)
    · have hyx : le y x = true := (List.mem_filter.mp hy).2
      rcases List.mem_cons.mp hz with rfl | hz
      · exact hyx
      · exact htrans y x z hyx (habove z (by simpa using (List.mem_filter.mp hz).2))
  · have hparts : ((l.mergeSort le).filter (fun y => le y x) ++
        (l.mergeSort le).filter (fun y => !le y x)).Perm l :=
      (List.filter_append_perm _ _).trans (List.mergeSort_perm l le)
    exact (List.mergeSort_perm _ le).trans
      ((List.perm_append_singleton x l).trans
        ((hparts.symm.cons x).trans List.perm_middle.symm))

end Sorting

end Py
end NetworkProxy
