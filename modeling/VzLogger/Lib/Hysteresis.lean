import Mathlib.Order.Lattice

/-! # Hysteresis

A switch with two thresholds: it goes on above the high one, off below the low one, and
stays as it is between them.  The rising edges of a sequence of values are where it
goes on.
-/
namespace Hysteresis
variable {α : Type} [LinearOrder α]

/-- The state after a value. -/
def switch (low high : α) (on : Bool) (x : α) : Bool :=
  if on then !decide (x < low) else decide (high < x)

/-- The number of rising edges, from a state. -/
def edges (low high : α) : Bool → List α → Nat
  | _, [] => 0
  | on, x :: xs =>
    (if !on && switch low high on x then 1 else 0) + edges low high (switch low high on x) xs

/-- Two sequences, each value of which switches as its counterpart. -/
def Alike (low high : α) : Bool → List α → List α → Prop
  | _, [], [] => True
  | on, x :: xs, y :: ys =>
    switch low high on x = switch low high on y ∧ Alike low high (switch low high on x) xs ys
  | _, _, _ => False

theorem Alike.edges_eq {low high : α} {on : Bool} {xs ys : List α} (h : Alike low high on xs ys) :
    edges low high on xs = edges low high on ys := by
  induction xs generalizing on ys with
  | nil =>
    cases ys with
    | nil => rfl
    | cons y ys => exact h.elim
  | cons x xs ih =>
    cases ys with
    | nil => exact h.elim
    | cons y ys =>
      obtain ⟨hswitch, halike⟩ := h
      rw [edges, edges, ih halike, hswitch]

end Hysteresis
