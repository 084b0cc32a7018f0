import Mathlib.Data.List.TakeWhile

/-! # Windows on a log

A list that keeps part of what was appended to it, and drops from the front only: either
down to a number of elements (`lastOf`), or until an element is found that is not `old`.
The second is a filter only where the old elements stand in front.
-/
namespace Window
variable {α : Type}

/-- The last `k` elements. -/
def lastOf (k : Nat) (l : List α) : List α := l.drop (l.length - k)

/-- What the window no longer holds is not missed. -/
theorem lastOf_lastOf_append (k : Nat) (l m : List α) :
    lastOf k (lastOf k l ++ m) = lastOf k (l ++ m) := by
  have hle : l.length - k ≤ l.length := Nat.sub_le _ _
  unfold lastOf
  rw [← List.drop_append_of_le_length hle, List.drop_drop]
  congr 1
  simp only [List.length_drop, List.length_append]
  omega

/-- Dropping from the front leaves what is `young` exactly if the young ones stand behind
the others, and the first of them stops the drop. -/
theorem dropWhile_eq_filter_iff {old young : α → Bool} (h : ∀ a, young a = false → old a = true)
    (l : List α) :
    l.dropWhile old = l.filter young ↔
      l.Pairwise (fun a b => young a = true → young b = true) ∧
        ∀ a ∈ l.find? young, old a = false := by
  induction l with
  | nil => simp
  | cons a l ih =>
    cases hyoung : young a with
    | false =>
      have hnot : ¬young a = true := by rw [hyoung]; exact Bool.false_ne_true
      rw [List.dropWhile_cons_of_pos (h a hyoung), List.filter_cons_of_neg hnot,
        List.find?_cons_of_neg hnot, List.pairwise_cons, ih]
      constructor
      · rintro ⟨hpairwise, hfind⟩
        exact ⟨⟨fun b _ ha => absurd ha hnot, hpairwise⟩, hfind⟩
      · rintro ⟨⟨-, hpairwise⟩, hfind⟩
        exact ⟨hpairwise, hfind⟩
    | true =>
      rw [List.filter_cons_of_pos hyoung, List.find?_cons_of_pos hyoung, List.pairwise_cons]
      cases hold : old a with
      | false =>
        have hnot : ¬old a = true := by rw [hold]; exact Bool.false_ne_true
        rw [List.dropWhile_cons_of_neg hnot]
        constructor
        · intro heq
          have hall := List.filter_eq_self.mp (List.cons.inj heq).2.symm
          refine ⟨⟨fun b hb _ => hall b hb, ?_⟩, fun b hb => Option.some.inj hb ▸ hold⟩
          exact List.pairwise_of_forall_mem_list fun b _ c hc _ => hall c hc
        · rintro ⟨⟨hall, -⟩, -⟩
          rw [List.filter_eq_self.mpr fun b hb => hall b hb hyoung]
      | true =>
        -- the drop goes on over a young element
        rw [List.dropWhile_cons_of_pos hold]
        constructor
        · intro heq
          have hhead := List.head?_dropWhile_not old l
          rw [heq] at hhead
          cases hold.symm.trans hhead
        · rintro ⟨-, hfind⟩
          cases hold.symm.trans (hfind a rfl)

/-- The same of a window: what it has dropped has to be missing from the filter. -/
theorem dropWhile_eq_filter_append_iff {old young : α → Bool}
    (h : ∀ a, young a = false → old a = true) (dropped l : List α) :
    l.dropWhile old = (dropped ++ l).filter young ↔
      (∀ a ∈ dropped, young a = false) ∧
        l.Pairwise (fun a b => young a = true → young b = true) ∧
        ∀ a ∈ l.find? young, old a = false := by
  rw [← dropWhile_eq_filter_iff h, List.filter_append]
  constructor
  · intro heq
    -- all of the left side is young, and no more than the young part of `l`
    have hself : (l.dropWhile old).filter young = l.dropWhile old := by
      rw [List.filter_eq_self, heq]
      intro a ha
      rcases List.mem_append.mp ha with ha | ha <;> exact (List.mem_filter.mp ha).2
    have hsublist := ((List.dropWhile_sublist old (l := l)).filter young).length_le
    rw [hself, heq, List.length_append] at hsublist
    have hnil : dropped.filter young = [] := List.eq_nil_of_length_eq_zero (by omega)
    rw [hnil, List.nil_append] at heq
    refine ⟨fun a ha => ?_, heq⟩
    simpa using List.filter_eq_nil_iff.mp hnil a ha
  · rintro ⟨hdropped, heq⟩
    have hnil : dropped.filter young = [] :=
      List.filter_eq_nil_iff.mpr fun a ha => by simp [hdropped a ha]
    rw [hnil, List.nil_append, heq]

end Window
