import Mathlib.Data.List.Basic

/-! # The heap of a C program

Blocks of bytes behind pointers, with `realloc` and `free`.  The number of a
block is never used again, so that a pointer to a freed block stays one.  Where C
leaves the behaviour undefined (a freed pointer, an access outside its block)
there is no result.
-/

/-- The blocks in the order of their allocation; `none` is a freed one. -/
structure CHeap where
  blocks : List (Option (List Char))
  deriving DecidableEq

namespace CHeap

def empty : CHeap := ⟨[]⟩

/-- A pointer: `NULL`, or the number of a block. -/
abbrev Ptr := Option Nat

/-- The bytes of a block that is allocated. -/
def block (h : CHeap) (p : Nat) : Option (List Char) := (h.blocks[p]?).join

/-- `free`. -/
def free (h : CHeap) : Ptr → Option CHeap
  | none => some h
  | some p => (h.block p).map fun _ => ⟨h.blocks.set p none⟩

/-- `realloc`: the block moves, and keeps the bytes that both sizes have.  `junk`
is what the new bytes hold. -/
def realloc (junk : Char) (h : CHeap) (p : Ptr) (size : Nat) : Option (CHeap × Nat) :=
  match p with
  | none => some (⟨h.blocks ++ [some (List.replicate size junk)]⟩, h.blocks.length)
  | some p => (h.block p).map fun b =>
      (⟨h.blocks.set p none ++ [some (b.take size ++ List.replicate (size - b.length) junk)]⟩,
        h.blocks.length)

/-- `memcpy` to an offset in a block. -/
def write (h : CHeap) (p offset : Nat) (bytes : List Char) : Option CHeap :=
  (h.block p).bind fun b =>
    if offset + bytes.length ≤ b.length then
      some ⟨h.blocks.set p (some (b.take offset ++ bytes ++ b.drop (offset + bytes.length)))⟩
    else none

/-- The first `size` bytes behind a pointer. -/
def read (h : CHeap) (p : Ptr) (size : Nat) : Option (List Char) :=
  match p with
  | none => if size = 0 then some [] else none
  | some p => (h.block p).bind fun b => if size ≤ b.length then some (b.take size) else none

variable {h : CHeap} {p : Nat}

theorem lt_of_block {b : List Char} (hb : h.block p = some b) : p < h.blocks.length := by
  by_contra hp
  rw [block, List.getElem?_eq_none (by omega)] at hb
  cases hb

theorem free_of_block {b : List Char} (hb : h.block p = some b) :
    h.free (some p) = some ⟨h.blocks.set p none⟩ := by
  rw [free, hb, Option.map_some]

theorem free_of_freed (hp : h.block p = none) : h.free (some p) = none := by
  rw [free, hp, Option.map_none]

theorem realloc_of_freed (junk : Char) (hp : h.block p = none) (size : Nat) :
    h.realloc junk (some p) size = none := by
  simp only [realloc, hp, Option.map_none]

/-- A freed block stays freed. -/
theorem block_set_none (h : CHeap) (p : Nat) : (⟨h.blocks.set p none⟩ : CHeap).block p = none := by
  rw [block, List.getElem?_set_self']
  cases h.blocks[p]? <;> rfl

theorem block_set_some (hp : p < h.blocks.length) (b : List Char) :
    (⟨h.blocks.set p (some b)⟩ : CHeap).block p = some b := by
  rw [block, List.getElem?_set_self hp, Option.join_some]

theorem block_append_last (blocks : List (Option (List Char))) (b : List Char) :
    (⟨blocks ++ [some b]⟩ : CHeap).block blocks.length = some b := by
  simp [block]

/-- A new block. -/
theorem realloc_null (junk : Char) (h : CHeap) (size : Nat) :
    ∃ h' p, h.realloc junk none size = some (h', p) ∧
      h'.block p = some (List.replicate size junk) :=
  ⟨_, _, rfl, block_append_last _ _⟩

/-- A block that grows keeps its bytes. -/
theorem realloc_grow (junk : Char) {b : List Char} (hb : h.block p = some b) {size : Nat}
    (hsize : b.length ≤ size) :
    ∃ h' q, h.realloc junk (some p) size = some (h', q) ∧
      h'.block q = some (b ++ List.replicate (size - b.length) junk) := by
  have hlast := block_append_last (h.blocks.set p none)
    (b.take size ++ List.replicate (size - b.length) junk)
  rw [List.length_set, List.take_of_length_le hsize] at hlast
  refine ⟨_, h.blocks.length, ?_, hlast⟩
  simp only [realloc, hb, Option.map_some, List.take_of_length_le hsize]

theorem write_of_block {b : List Char} (hb : h.block p = some b) (offset : Nat) (bytes : List Char)
    (hfit : offset + bytes.length ≤ b.length) :
    ∃ h', h.write p offset bytes = some h' ∧
      h'.block p = some (b.take offset ++ bytes ++ b.drop (offset + bytes.length)) := by
  refine ⟨_, ?_, block_set_some (lt_of_block hb) _⟩
  rw [write, hb, Option.bind_some, if_pos hfit]

theorem read_of_block {b : List Char} (hb : h.block p = some b) {size : Nat}
    (hsize : size ≤ b.length) : h.read (some p) size = some (b.take size) := by
  simp only [read, hb, Option.bind_some, if_pos hsize]

end CHeap
