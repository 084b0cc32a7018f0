import Mathlib.Logic.Function.Basic

/-! # Rotation of numbered files

A file 0 that is written, and its former instances 1, 2, … up to some number, the older the
higher.  A rotation removes the last one and renames the others, from the old to the new
end, so that each takes the place of the next older one.  Files may be missing anywhere.
-/
namespace Rotation
variable {α : Type}

/-- The files that are there. -/
abbrev Files (α : Type) := Nat → Option (List α)

namespace Files

def unlink (fs : Files α) (i : Nat) : Files α := Function.update fs i none

/-- A file that is not there cannot be renamed. -/
def rename (fs : Files α) (i j : Nat) : Files α :=
  match fs i with
  | none => fs
  | some s => Function.update (Function.update fs j (some s)) i none

/-- A file is opened for appending, and created if it is not there. -/
def append (fs : Files α) (i : Nat) (s : List α) : Files α :=
  Function.update fs i (some ((fs i).getD [] ++ s))

/-- The instances `n`, `n - 1`, …, 1 are renamed, in this order. -/
def shift (fs : Files α) : Nat → Files α
  | 0 => fs
  | n + 1 => shift (fs.rename (n + 1) (n + 2)) n

/-- A rotation, with the instances up to `n`. -/
def rotate (fs : Files α) (n : Nat) : Files α := (shift (fs.unlink n) (n - 1)).rename 0 1

/-- The text of a file. -/
def text (fs : Files α) (i : Nat) : List α := (fs i).getD []

/-- The texts of `n` files from a number on, the oldest first. -/
def texts (fs : Files α) (i : Nat) : Nat → List α
  | 0 => []
  | n + 1 => fs.text (i + n) ++ texts fs i n

variable {fs gs : Files α} {i j n : Nat}

theorem rename_apply (hij : i ≠ j) (hj : fs j = none) (k : Nat) :
    fs.rename i j k = if k = j then fs i else if k = i then none else fs k := by
  unfold rename
  cases hi : fs i with
  | none =>
    dsimp only
    by_cases hkj : k = j
    · rw [if_pos hkj, hkj, hj]
    · by_cases hki : k = i
      · rw [if_neg hkj, if_pos hki, hki, hi]
      · rw [if_neg hkj, if_neg hki]
  | some s =>
    dsimp only
    by_cases hkj : k = j
    · subst hkj
      rw [if_pos rfl, Function.update_of_ne (Ne.symm hij), Function.update_self]
    · by_cases hki : k = i
      · rw [if_neg hkj, if_pos hki, hki, Function.update_self]
      · rw [if_neg hkj, if_neg hki, Function.update_of_ne hki, Function.update_of_ne hkj]

/-- Where the place behind the instances is free, each moves by one. -/
theorem shift_apply (hn : fs (n + 1) = none) (k : Nat) :
    shift fs n k = if k = 0 ∨ n + 1 < k then fs k else if k = 1 then none else fs (k - 1) := by
  induction n generalizing fs with
  | zero =>
    rw [shift]
    split
    · rfl
    · obtain rfl : k = 1 := by omega
      rw [if_pos rfl, hn]
  | succ n ih =>
    have hne : n + 1 ≠ n + 2 := by omega
    have hren := rename_apply hne hn
    have hfree : fs.rename (n + 1) (n + 2) (n + 1) = none := by
      rw [hren, if_neg (by omega), if_pos rfl]
    rw [shift, ih hfree, hren, hren]
    grind

/-- **What a rotation does**: the last instance goes, each other file takes the place of the
next older one, and there is no file 0 any more. -/
theorem rotate_apply (hn : 0 < n) (k : Nat) :
    fs.rotate n k = if k = 0 then none else if k ≤ n then fs (k - 1) else fs k := by
  have hlast : fs.unlink n (n - 1 + 1) = none := by
    rw [Nat.sub_add_cancel hn]
    exact Function.update_self ..
  have hshift := shift_apply hlast
  have hone : shift (fs.unlink n) (n - 1) 1 = none := by
    rw [hshift, if_neg (by omega), if_pos rfl]
  have hunlink : ∀ k, k ≠ n → fs.unlink n k = fs k := fun k hk => Function.update_of_ne hk ..
  have hzero : shift (fs.unlink n) (n - 1) 0 = fs 0 := by
    rw [hshift, if_pos (.inl rfl), hunlink 0 (by omega)]
  rw [rotate, rename_apply Nat.zero_ne_one hone, hzero, hshift]
  grind

/-! ## Texts -/

theorem texts_succ (fs : Files α) (i n : Nat) :
    texts fs i (n + 1) = fs.text (i + n) ++ texts fs i n := rfl

/-- The newest file stands at the end. -/
theorem texts_succ_newest (fs : Files α) (i n : Nat) :
    texts fs i (n + 1) = texts fs (i + 1) n ++ fs.text i := by
  induction n with
  | zero => simp [texts]
  | succ n ih =>
    rw [texts_succ, ih, texts_succ fs (i + 1), List.append_assoc, Nat.add_right_comm i 1 n,
      Nat.add_assoc]

theorem texts_congr (h : ∀ k < n, fs.text (i + k) = gs.text (j + k)) :
    texts fs i n = texts gs j n := by
  induction n with
  | zero => rfl
  | succ n ih =>
    rw [texts_succ, texts_succ, h n (Nat.lt_succ_self n),
      ih fun k hk => h k (Nat.lt_succ_of_lt hk)]

theorem text_rotate (hn : 0 < n) (hi : i < n) : (fs.rotate n).text (i + 1) = fs.text i := by
  rw [text, rotate_apply hn, if_neg (by omega), if_pos (by omega)]
  rfl

/-- Of all texts, a rotation takes away the oldest. -/
theorem texts_rotate (hn : 0 < n) :
    fs.text n ++ texts (fs.rotate n) 0 (n + 1) = texts fs 0 (n + 1) := by
  have h0 : (fs.rotate n).text 0 = [] := by rw [text, rotate_apply hn, if_pos rfl]; rfl
  rw [texts_succ_newest, h0, List.append_nil, texts_succ, Nat.zero_add, Nat.zero_add]
  congr 1
  refine texts_congr fun k hk => ?_
  rw [Nat.add_comm 1 k, text_rotate hn hk, Nat.zero_add]

theorem text_append_self (fs : Files α) (i : Nat) (s : List α) :
    (fs.append i s).text i = fs.text i ++ s := by
  rw [text, append, Function.update_self]
  rfl

theorem text_append_of_ne (h : j ≠ i) (s : List α) : (fs.append i s).text j = fs.text j := by
  rw [text, append, Function.update_of_ne h]
  rfl

/-- What is appended to the newest file stands behind all. -/
theorem texts_append (fs : Files α) (n : Nat) (s : List α) :
    texts (fs.append 0 s) 0 (n + 1) = texts fs 0 (n + 1) ++ s := by
  rw [texts_succ_newest, texts_succ_newest, text_append_self, List.append_assoc]
  congr 1
  exact texts_congr fun k _ => text_append_of_ne (by omega) s

end Files
end Rotation
