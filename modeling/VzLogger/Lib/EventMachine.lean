import Mathlib.Data.List.Basic

/-! # Machines driven by events

A system is a deterministic machine: whatever its environment chooses (the
schedule of its threads, the outcome of a request, an input) is part of the
event, and an event that cannot happen in a state has no successor.  A run is a
list of events.

Two predicates speak about a whole run: `Throughout` about every state it
visits, `EachStep` about every step it takes.  `throughout_iff_eachStep` is the
rule for "the property holds in every state reached, exactly when every step
meets the condition": an invariant that the good steps keep, and that a bad step
visibly breaks.
-/
namespace EventMachine

/-- An initial state, and the state after an event, `none` where the event
cannot happen. -/
structure Machine (σ ε : Type) where
  init : σ
  step : σ → ε → Option σ

namespace Machine
variable {σ ε : Type} (M : Machine σ ε)

/-- The state after a list of events, `none` when one of them cannot happen. -/
def run : σ → List ε → Option σ
  | s, [] => some s
  | s, e :: es =>
    match M.step s e with
    | none => none
    | some t => run t es

/-- `P` holds in every state the run visits, from the first to the last. -/
def Throughout (P : σ → Prop) : σ → List ε → Prop
  | s, [] => P s
  | s, e :: es => P s ∧ ∀ t, M.step s e = some t → Throughout P t es

/-- Every step of the run is taken in a state where `C` admits it. -/
def EachStep (C : σ → ε → Prop) : σ → List ε → Prop
  | _, [] => True
  | s, e :: es => ∀ t, M.step s e = some t → C s e ∧ EachStep C t es

variable {M}

@[simp] theorem run_nil (s : σ) : M.run s [] = some s := rfl

theorem run_cons {s u : σ} {e : ε} {es : List ε} :
    M.run s (e :: es) = some u ↔ ∃ t, M.step s e = some t ∧ M.run t es = some u := by
  have hrun : M.run s (e :: es) = (M.step s e).bind fun t => M.run t es := by
    rw [run]
    cases M.step s e <;> rfl
  rw [hrun]
  exact Option.bind_eq_some_iff

theorem run_append {s u : σ} {es fs : List ε} :
    M.run s (es ++ fs) = some u ↔ ∃ t, M.run s es = some t ∧ M.run t fs = some u := by
  induction es generalizing s with
  | nil =>
    constructor
    · exact fun hrun => ⟨s, rfl, hrun⟩
    · rintro ⟨t, hst, hrun⟩
      obtain rfl : s = t := Option.some.inj hst
      exact hrun
  | cons e es ih =>
    rw [List.cons_append, run_cons]
    constructor
    · rintro ⟨t, hst, hrun⟩
      obtain ⟨v, hv, hvu⟩ := ih.mp hrun
      exact ⟨v, run_cons.mpr ⟨t, hst, hv⟩, hvu⟩
    · rintro ⟨v, hv, hvu⟩
      obtain ⟨t, hst, htv⟩ := run_cons.mp hv
      exact ⟨t, hst, ih.mpr ⟨v, htv, hvu⟩⟩

/-- A run that computes ends in a state that passes a test, if it does. -/
theorem exists_run_of_any {p : σ → Prop} [DecidablePred p] {s : σ} {es : List ε}
    (h : (M.run s es).any (fun u => p u) = true) : ∃ u, M.run s es = some u ∧ p u := by
  cases hrun : M.run s es with
  | none => simp [hrun] at h
  | some u =>
    rw [hrun] at h
    exact ⟨u, rfl, by simpa using h⟩

instance decidableEachStep {C : σ → ε → Prop} [∀ s e, Decidable (C s e)] :
    ∀ s es, Decidable (M.EachStep C s es)
  | _, [] => isTrue trivial
  | s, e :: es =>
    match h : M.step s e with
    | none => isTrue fun t ht => by rw [h] at ht; cases ht
    | some t =>
      have := decidableEachStep (C := C) t es
      decidable_of_iff (C s e ∧ M.EachStep C t es)
        ⟨fun hC u hu => by rw [h] at hu; cases hu; exact hC, fun hC => hC t h⟩

/-- **The invariant rule.**  What the steps of a run keep holds at its end. -/
theorem run_invariant {Inv : σ → Prop} {C : σ → ε → Prop}
    (hstep : ∀ s e t, Inv s → C s e → M.step s e = some t → Inv t)
    {s u : σ} {es : List ε} (hs : Inv s) (hC : M.EachStep C s es)
    (hrun : M.run s es = some u) : Inv u := by
  induction es generalizing s with
  | nil =>
    obtain rfl : s = u := Option.some.inj hrun
    exact hs
  | cons e es ih =>
    obtain ⟨t, hst, hrun⟩ := run_cons.mp hrun
    obtain ⟨hCe, hCes⟩ := hC t hst
    exact ih (hstep s e t hs hCe hst) hCes hrun

/-- The invariant rule with a condition on the events alone. -/
theorem run_induction_of_forall {Inv : σ → Prop} {D : ε → Prop} {s u : σ} {es : List ε}
    (hrun : M.run s es = some u) (hes : ∀ e ∈ es, D e) (hs : Inv s)
    (hstep : ∀ s e t, Inv s → D e → M.step s e = some t → Inv t) : Inv u := by
  induction es generalizing s with
  | nil =>
    obtain rfl : s = u := Option.some.inj hrun
    exact hs
  | cons e es ih =>
    obtain ⟨t, hst, hrun⟩ := run_cons.mp hrun
    refine ih hrun (fun f hf => hes f (List.mem_cons_of_mem _ hf)) ?_
    exact hstep s e t hs (hes e List.mem_cons_self) hst

/-- The invariant rule without a condition on the steps. -/
theorem run_induction {Inv : σ → Prop} {s u : σ} {es : List ε} (hrun : M.run s es = some u)
    (hs : Inv s) (hstep : ∀ s e t, Inv s → M.step s e = some t → Inv t) : Inv u :=
  have hes : ∀ e ∈ es, (fun _ => True : ε → Prop) e := fun _ _ => trivial
  run_induction_of_forall hrun hes hs fun s e t hs _ => hstep s e t hs

/-- The invariant rule with the history of the run: `out` is what an event adds to it. -/
theorem run_history {α : Type} {Inv : σ → List α → Prop} {D : ε → Prop} (out : ε → List α)
    {s u : σ} {es : List ε} (hrun : M.run s es = some u) (hes : ∀ e ∈ es, D e) {l : List α}
    (hs : Inv s l)
    (hstep : ∀ s e t l, Inv s l → D e → M.step s e = some t → Inv t (l ++ out e)) :
    Inv u (l ++ es.flatMap out) := by
  induction es generalizing s l with
  | nil =>
    obtain rfl : s = u := Option.some.inj hrun
    simpa using hs
  | cons e es ih =>
    obtain ⟨t, hst, hrun⟩ := run_cons.mp hrun
    rw [List.flatMap_cons, ← List.append_assoc]
    refine ih hrun (fun f hf => hes f (List.mem_cons_of_mem _ hf)) ?_
    exact hstep s e t l hs (hes e List.mem_cons_self) hst

/-- The invariant rule for all states of the run. -/
theorem throughout_of_eachStep {P Inv : σ → Prop} {C : σ → ε → Prop} (hP : ∀ s, Inv s → P s)
    (hstep : ∀ s e t, Inv s → C s e → M.step s e = some t → Inv t)
    {s : σ} {es : List ε} (hs : Inv s) (hC : M.EachStep C s es) : M.Throughout P s es := by
  induction es generalizing s with
  | nil => exact hP s hs
  | cons e es ih =>
    refine ⟨hP s hs, ?_⟩
    intro t hst
    obtain ⟨hCe, hCes⟩ := hC t hst
    exact ih (hstep s e t hs hCe hst) hCes

/-- The invariant rule the other way: where a step that does not meet `C` reaches a state
without `P`, all steps of a run meet it whose states have `P`.  `D` is what the run is known to
meet besides. -/
theorem eachStep_of_throughout {P I : σ → Prop} {C D : σ → ε → Prop}
    (hkeep : ∀ s e t, I s → D s e → C s e → M.step s e = some t → I t)
    (hbreak : ∀ s e t, I s → D s e → ¬ C s e → M.step s e = some t → ¬ P t)
    {s : σ} {es : List ε} (hs : I s) (hD : M.EachStep D s es) (hP : M.Throughout P s es) :
    M.EachStep C s es := by
  induction es generalizing s with
  | nil => exact trivial
  | cons e es ih =>
    intro t hst
    obtain ⟨hDe, hDes⟩ := hD t hst
    have hrest := hP.2 t hst
    have hPt : P t := by
      cases es with
      | nil => exact hrest
      | cons => exact hrest.1
    have hCe : C s e := Classical.byContradiction fun hn => hbreak s e t hs hDe hn hst hPt
    exact ⟨hCe, ih (hkeep s e t hs hDe hCe hst) hDes hrest⟩

/-- **The exact-condition rule.**  `Inv` may speak about the events still to
come.  Steps that meet `C` keep it, it gives `P`, and a step that does not meet
`C` reaches a state without `P`. -/
theorem throughout_iff_eachStep {P : σ → Prop} {C : σ → ε → Prop} {Inv : σ → List ε → Prop}
    (hP : ∀ s es, Inv s es → P s)
    (hkeep : ∀ s e es t, Inv s (e :: es) → C s e → M.step s e = some t → Inv t es)
    (hbreak : ∀ s e es t, Inv s (e :: es) → ¬ C s e → M.step s e = some t → ¬ P t)
    {s : σ} {es : List ε} (hs : Inv s es) :
    M.Throughout P s es ↔ M.EachStep C s es := by
  induction es generalizing s with
  | nil => exact ⟨fun _ => trivial, fun _ => hP s [] hs⟩
  | cons e es ih =>
    constructor
    · rintro ⟨-, hrest⟩ t hst
      have hPt : P t := by
        have := hrest t hst
        cases es with
        | nil => exact this
        | cons => exact this.1
      have hCe : C s e := Classical.byContradiction fun hn => hbreak s e es t hs hn hst hPt
      exact ⟨hCe, (ih (hkeep s e es t hs hCe hst)).mp (hrest t hst)⟩
    · intro hC
      refine ⟨hP s _ hs, fun t hst => ?_⟩
      obtain ⟨hCe, hCes⟩ := hC t hst
      exact (ih (hkeep s e es t hs hCe hst)).mpr hCes

/-- **The exact-condition rule for the end of a run**, where a bad step is not made good
again: `P` is kept by the steps that meet `C`, and the others lead to `Q`, which lasts. -/
theorem final_iff_eachStep {P Q : σ → Prop} {C : σ → ε → Prop} (hPQ : ∀ s, P s → ¬ Q s)
    (hkeep : ∀ s e t, P s → C s e → M.step s e = some t → P t)
    (hbreak : ∀ s e t, P s → ¬ C s e → M.step s e = some t → Q t)
    (hlast : ∀ s e t, Q s → M.step s e = some t → Q t)
    {s u : σ} {es : List ε} (hrun : M.run s es = some u) (hs : P s) :
    P u ↔ M.EachStep C s es := by
  induction es generalizing s with
  | nil =>
    obtain rfl : s = u := Option.some.inj hrun
    exact iff_of_true hs trivial
  | cons e es ih =>
    obtain ⟨t, hst, hrun⟩ := run_cons.mp hrun
    by_cases hC : C s e
    · rw [ih hrun (hkeep s e t hs hC hst)]
      constructor
      · intro hrest v hv
        obtain rfl : t = v := Option.some.inj (hst.symm.trans hv)
        exact ⟨hC, hrest⟩
      · intro hall
        exact (hall t hst).2
    · have hQ : Q u := run_induction hrun (hbreak s e t hs hC hst) hlast
      exact iff_of_false (fun hP => hPQ u hP hQ) fun hall => hC (hall t hst).1

end Machine
end EventMachine
