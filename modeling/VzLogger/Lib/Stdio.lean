import Mathlib.Data.List.Basic

/-! # Input streams

`fgets` on a stream whose text is given: a line with its newline, or as much of it
as the array has room for.  `lines` are the lines that successive calls return.
-/
namespace Stdio

/-- What is left to read, and the end-of-file indicator. -/
structure Stream where
  rest : List Char
  eof : Bool

/-- A stream before the first read. -/
def Stream.opened (text : List Char) : Stream := ⟨text, false⟩

/-- Up to a newline, the end of the text, or `k` characters. -/
def takeLine : Nat → List Char → List Char × Stream
  | 0, rest => ([], ⟨rest, false⟩)
  | _ + 1, [] => ([], ⟨[], true⟩)
  | k + 1, c :: rest =>
    if c = '\n' then ([c], ⟨rest, false⟩)
    else
      let (line, s) := takeLine k rest
      (c :: line, s)

/-- `fgets` with an array of `size` characters; `none` is `NULL`. -/
def fgets (size : Nat) (s : Stream) : Option (List Char) × Stream :=
  match takeLine (size - 1) s.rest with
  | ([], s) => (none, s)
  | (line, s) => (some line, s)

/-- The lines of at most so many calls. -/
def linesFrom (size : Nat) : Nat → Stream → List (List Char)
  | 0, _ => []
  | calls + 1, s =>
    match fgets size s with
    | (none, _) => []
    | (some line, s) => line :: linesFrom size calls s

/-- All lines of a text. -/
def lines (size : Nat) (text : List Char) : List (List Char) :=
  linesFrom size text.length (.opened text)

/-- What is read is taken off the text, and the end is noticed only there. -/
theorem takeLine_append (k : Nat) (text : List Char) :
    (takeLine k text).1 ++ (takeLine k text).2.rest = text := by
  induction k generalizing text with
  | zero => rfl
  | succ k ih =>
    cases text with
    | nil => rfl
    | cons c text =>
      unfold takeLine
      split
      · rfl
      · exact congrArg (c :: ·) (ih text)

theorem takeLine_eq_nil {k : Nat} (hk : 0 < k) {text : List Char} (h : (takeLine k text).1 = []) :
    (takeLine k text).2 = ⟨[], true⟩ := by
  obtain ⟨k, rfl⟩ : ∃ j, k = j + 1 := ⟨k - 1, by omega⟩
  cases text with
  | nil => rfl
  | cons c text =>
    unfold takeLine at h
    split at h
    · cases h
    · cases h

/-- `fgets` returns `NULL` at the end of the text, and then the indicator is set. -/
theorem fgets_none {size : Nat} (hsize : 1 < size) {s t : Stream} (h : fgets size s = (none, t)) :
    t = ⟨[], true⟩ := by
  unfold fgets at h
  split at h
  · rename_i u hline
    have hnil := takeLine_eq_nil (show 0 < size - 1 by omega) (congrArg Prod.fst hline)
    rw [hline] at hnil
    exact (Prod.mk.inj h).2.symm.trans hnil
  · cases h

theorem length_of_fgets_some {size : Nat} {s t : Stream} {line : List Char}
    (h : fgets size s = (some line, t)) : t.rest.length < s.rest.length := by
  unfold fgets at h
  split at h
  · cases h
  · rename_i line' t' hnil hline
    have happend := takeLine_append (size - 1) s.rest
    rw [hline] at happend
    obtain ⟨-, rfl⟩ := Prod.mk.inj h
    have hne : line' ≠ [] := by
      rintro rfl
      exact hnil rfl
    have hlen := congrArg List.length happend
    have hpos := List.length_pos_iff.mpr hne
    simp only [List.length_append] at hlen
    omega

end Stdio
