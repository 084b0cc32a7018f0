import Mathlib.Data.List.Basic

/-! # Vectors filled from the front

A function that fills a vector of its caller's and returns how many elements it has
written: what counts are the elements in front of the index.
-/
namespace Slots
variable {α : Type} {n : Nat}

/-- The elements in front of the index. -/
def filled (v : Vector α n) (i : Nat) : List α := v.toList.take i

@[simp] theorem filled_zero (v : Vector α n) : filled v 0 = [] := List.take_zero

/-- A store behind the index leaves what counts alone. -/
theorem filled_set_of_le {v : Vector α n} {i j : Nat} (hi : i < n) (hj : j ≤ i) (x : α) :
    filled (v.set i x) j = filled v j := by
  rw [filled, filled, Vector.toList_set, List.take_set_of_le hj]

/-- A store at the index, which moves on. -/
theorem filled_set {v : Vector α n} {i : Nat} (hi : i < n) (x : α) :
    filled (v.set i x) (i + 1) = filled v i ++ [x] := by
  have hlen : i < (v.toList.set i x).length := by simpa using hi
  rw [filled, filled, Vector.toList_set, List.take_succ_eq_append_getElem hlen,
    List.take_set_of_le (Nat.le_refl i), List.getElem_set_self]

end Slots
