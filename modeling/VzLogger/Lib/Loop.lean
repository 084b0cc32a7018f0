import Mathlib.Data.Nat.Basic

/-! # While loops

`while (cond) body` over a state.  The body may fail, as an access out of bounds
does, and the loop may go on for ever: `run` has a number of rounds to go, and no
result if the body fails or the rounds are used up.

There is a rule for each of the three things to show of a loop: what holds at its
exit, that it comes to one, and that it never does.
-/
namespace Loop
variable {σ : Type}

/-- The state at the exit, after at most so many rounds. -/
def run (cond : σ → Bool) (body : σ → Option σ) : Nat → σ → Option σ
  | 0, s => if cond s then none else some s
  | rounds + 1, s => if cond s then (body s).bind (run cond body rounds) else some s

/-- `do body while (cond)`. -/
def doWhile (cond : σ → Bool) (body : σ → Option σ) (rounds : Nat) (s : σ) : Option σ :=
  (body s).bind (run cond body rounds)

variable {cond : σ → Bool} {body : σ → Option σ} {s t : σ}

theorem run_of_not (h : cond s = false) (rounds : Nat) : run cond body rounds s = some s := by
  cases rounds <;> simp [run, h]

theorem run_succ (h : cond s = true) (rounds : Nat) :
    run cond body (rounds + 1) s = (body s).bind (run cond body rounds) := by
  simp [run, h]

/-- **The invariant rule.**  What the rounds keep holds at the exit, and the
condition does not. -/
theorem run_invariant {Inv : σ → Prop}
    (hstep : ∀ s t, Inv s → cond s = true → body s = some t → Inv t) (hs : Inv s) {rounds : Nat}
    (h : run cond body rounds s = some t) : Inv t ∧ cond t = false := by
  induction rounds generalizing s with
  | zero =>
    cases hc : cond s with
    | false =>
      rw [run_of_not hc] at h
      obtain rfl := Option.some.inj h
      exact ⟨hs, hc⟩
    | true => simp [run, hc] at h
  | succ rounds ih =>
    cases hc : cond s with
    | false =>
      rw [run_of_not hc] at h
      obtain rfl := Option.some.inj h
      exact ⟨hs, hc⟩
    | true =>
      rw [run_succ hc] at h
      obtain ⟨u, hu, h⟩ := Option.bind_eq_some_iff.mp h
      exact ih (hstep s u hs hc hu) h

/-- **The rule of the measure.**  If no round fails, and each makes the measure
smaller, the loop ends within as many rounds as the measure says. -/
theorem exists_run {Inv : σ → Prop} (measure : σ → Nat)
    (hstep : ∀ s, Inv s → cond s = true → ∃ t, body s = some t ∧ Inv t ∧ measure t < measure s)
    (hs : Inv s) {rounds : Nat} (hrounds : measure s ≤ rounds) :
    ∃ t, run cond body rounds s = some t ∧ Inv t ∧ cond t = false := by
  induction rounds generalizing s with
  | zero =>
    cases hc : cond s with
    | false => exact ⟨s, run_of_not hc 0, hs, hc⟩
    | true =>
      obtain ⟨t, -, -, hlt⟩ := hstep s hs hc
      omega
  | succ rounds ih =>
    cases hc : cond s with
    | false => exact ⟨s, run_of_not hc _, hs, hc⟩
    | true =>
      obtain ⟨u, hu, hinv, hlt⟩ := hstep s hs hc
      obtain ⟨t, ht, hend⟩ := ih hinv (by omega)
      refine ⟨t, ?_, hend⟩
      rw [run_succ hc, hu]
      exact ht

/-- **The rule for no exit.**  A loop whose rounds fail, or lead to states from
which it goes on, has none. -/
theorem run_eq_none (Stuck : σ → Prop) (hcond : ∀ s, Stuck s → cond s = true)
    (hstep : ∀ s t, Stuck s → body s = some t → Stuck t) (hs : Stuck s) (rounds : Nat) :
    run cond body rounds s = none := by
  induction rounds generalizing s with
  | zero => simp [run, hcond s hs]
  | succ rounds ih =>
    rw [run_succ (hcond s hs)]
    cases hb : body s with
    | none => rfl
    | some t => exact ih (hstep s t hs hb)

end Loop
