import VzLogger.Lib.EventMachine

/-! # What a machine can reach

`CanReach D P s`: some run from `s`, by events that meet `D`, ends in a state with `P`.
Where the environment chooses the events, this says that the machine is not stuck.
-/
namespace EventMachine.Machine
variable {σ ε τ δ : Type} {M : Machine σ ε} {D E : ε → Prop} {P Q : σ → Prop} {s t : σ}

/-- Some run of events that meet `D` leads to a state with `P`. -/
def CanReach (M : Machine σ ε) (D : ε → Prop) (P : σ → Prop) (s : σ) : Prop :=
  ∃ es u, M.run s es = some u ∧ (∀ e ∈ es, D e) ∧ P u

theorem CanReach.here (h : P s) : M.CanReach D P s := ⟨[], s, rfl, by simp, h⟩

theorem CanReach.step {e : ε} (he : D e) (hst : M.step s e = some t) (h : M.CanReach D P t) :
    M.CanReach D P s := by
  obtain ⟨es, u, hrun, hes, hu⟩ := h
  exact ⟨e :: es, u, run_cons.mpr ⟨t, hst, hrun⟩, List.forall_mem_cons.mpr ⟨he, hes⟩, hu⟩

/-- One step is enough. -/
theorem CanReach.once {e : ε} (he : D e) (hst : M.step s e = some t) (h : P t) :
    M.CanReach D P s := .step he hst (.here h)

theorem CanReach.trans (h : M.CanReach D P s) (hP : ∀ t, P t → M.CanReach D Q t) :
    M.CanReach D Q s := by
  obtain ⟨es, t, hrun, hes, ht⟩ := h
  obtain ⟨fs, u, hrun', hfs, hu⟩ := hP t ht
  refine ⟨es ++ fs, u, run_append.mpr ⟨t, hrun, hrun'⟩, ?_, hu⟩
  intro e he
  rcases List.mem_append.mp he with he | he
  · exact hes e he
  · exact hfs e he

theorem CanReach.mono (h : M.CanReach D P s) (hD : ∀ e, D e → E e) (hP : ∀ t, P t → Q t) :
    M.CanReach E Q s := by
  obtain ⟨es, u, hrun, hes, hu⟩ := h
  exact ⟨es, u, hrun, fun e he => hD e (hes e he), hP u hu⟩

/-- What the steps keep holds in the state that is reached, too. -/
theorem CanReach.keeps {I : σ → Prop} (h : M.CanReach D P s) (hs : I s)
    (hstep : ∀ s e t, I s → D e → M.step s e = some t → I t) :
    M.CanReach D (fun t => P t ∧ I t) s := by
  obtain ⟨es, u, hrun, hes, hu⟩ := h
  exact ⟨es, u, hrun, hes, hu, run_induction_of_forall hrun hes hs hstep⟩

/-- **The progress rule.**  What can always come nearer to `P` can reach it. -/
theorem canReach_of_rank {I : σ → Prop} (rank : σ → Nat)
    (hnear : ∀ s, I s → ¬ P s → M.CanReach D (fun t => I t ∧ rank t < rank s) s)
    (hs : I s) : M.CanReach D P s := by
  induction hn : rank s using Nat.strongRecOn generalizing s with
  | ind n ih =>
    by_cases hP : P s
    · exact .here hP
    · refine (hnear s hs hP).trans ?_
      rintro t ⟨ht, hlt⟩
      exact ih (rank t) (hn ▸ hlt) ht rfl

/-- A machine that makes the steps of another one, seen through `emb`, reaches what the
other one reaches. -/
theorem CanReach.embed {N : Machine τ δ} {F : δ → Prop} {Q : τ → Prop} (emb : σ → τ)
    (hstep : ∀ s e t, D e → M.step s e = some t → ∃ f, F f ∧ N.step (emb s) f = some (emb t))
    (h : M.CanReach D P s) (hP : ∀ t, P t → Q (emb t)) : N.CanReach F Q (emb s) := by
  obtain ⟨es, u, hrun, hes, hu⟩ := h
  induction es generalizing s with
  | nil =>
    obtain rfl : s = u := Option.some.inj hrun
    exact .here (hP s hu)
  | cons e es ih =>
    obtain ⟨t, hst, hrun⟩ := run_cons.mp hrun
    obtain ⟨he, hes⟩ := List.forall_mem_cons.mp hes
    obtain ⟨f, hf, hst'⟩ := hstep s e t he hst
    exact .step hf hst' (ih hrun hes)

end EventMachine.Machine
