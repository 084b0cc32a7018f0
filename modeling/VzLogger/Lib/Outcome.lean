import Mathlib.Data.List.Forall2

/-! # Outcomes of a computation that may throw

`Meets E P x`: the computation `x` throws an error that `E` admits, or has a result with
`P`.  The rules follow the structure of a program: sequence, loops, a `catch`.

`Alike R x y`: both throw, or both have a result, and the results are related.
-/
namespace Outcome
variable {ε α β γ : Type}

theorem bind_eq_ok_iff {x : Except ε α} {f : α → Except ε β} {b : β} :
    x.bind f = .ok b ↔ ∃ a, x = .ok a ∧ f a = .ok b := by
  cases x with
  | ok a =>
    constructor
    · intro h
      exact ⟨a, rfl, h⟩
    · rintro ⟨a', ha, h⟩
      rw [Except.ok.inj ha]
      exact h
  | error e =>
    constructor
    · intro h
      cases h
    · rintro ⟨a, ha, -⟩
      cases ha

theorem mapError_eq_ok_iff {ε' : Type} {x : Except ε α} {f : ε → ε'} {a : α} :
    x.mapError f = .ok a ↔ x = .ok a := by
  cases x with
  | ok b => exact ⟨fun h => congrArg Except.ok (Except.ok.inj h),
      fun h => congrArg Except.ok (Except.ok.inj h)⟩
  | error e =>
    constructor
    · intro h
      cases h
    · intro h
      cases h

/-- An error that `E` admits, or a result with `P`. -/
def Meets (E : ε → Prop) (P : α → Prop) : Except ε α → Prop
  | .ok a => P a
  | .error e => E e

namespace Meets
variable {E : ε → Prop} {P : α → Prop} {Q : β → Prop} {x : Except ε α}

theorem bind {f : α → Except ε β} (h : Meets E P x) (hf : ∀ a, P a → Meets E Q (f a)) :
    Meets E Q (x.bind f) := by
  cases x with
  | ok a => exact hf a h
  | error e => exact h

theorem map {f : α → β} (h : Meets E P x) (hf : ∀ a, P a → Q (f a)) : Meets E Q (x.map f) := by
  cases x with
  | ok a => exact hf a h
  | error e => exact h

theorem imp {P' : α → Prop} (h : Meets E P x) (hP : ∀ a, P a → P' a) : Meets E P' x := by
  cases x with
  | ok a => exact hP a h
  | error e => exact h

/-- **The rule of a loop.**  What every round keeps holds behind the loop. -/
theorem foldlM {step : α → β → Except ε α} {bs : List β} {a : α} (h : P a)
    (hstep : ∀ a, P a → ∀ b ∈ bs, Meets E P (step a b)) : Meets E P (bs.foldlM step a) := by
  induction bs generalizing a with
  | nil => exact h
  | cons b bs ih =>
    rw [List.foldlM_cons]
    apply bind (hstep a h b List.mem_cons_self)
    intro a' h'
    apply ih h'
    intro c hc d hd
    exact hstep c hc d (List.mem_cons_of_mem b hd)

/-- A loop that collects results collects as many as there are rounds. -/
theorem mapM {f : α → Except ε β} {as : List α} (h : ∀ a ∈ as, Meets E Q (f a)) :
    Meets E (fun bs => bs.length = as.length ∧ ∀ b ∈ bs, Q b) (as.mapM f) := by
  induction as with
  | nil => exact ⟨rfl, fun b hb => by cases hb⟩
  | cons a as ih =>
    rw [List.mapM_cons]
    apply bind (h a List.mem_cons_self)
    intro b hb
    apply bind (ih fun a' ha' => h a' (List.mem_cons_of_mem a ha'))
    rintro bs ⟨hlen, hbs⟩
    exact ⟨congrArg Nat.succ hlen, List.forall_mem_cons.mpr ⟨hb, hbs⟩⟩

theorem ok_of (h : Meets E P x) {a : α} (hx : x = .ok a) : P a := by
  rw [hx] at h
  exact h

theorem error_of (h : Meets E P x) {e : ε} (hx : x = .error e) : E e := by
  rw [hx] at h
  exact h

end Meets

/-- Both throw, or both have related results. -/
inductive Alike (R : α → β → Prop) : Except ε α → Except ε β → Prop where
  | error (e e' : ε) : Alike R (.error e) (.error e')
  | ok {a : α} {b : β} (h : R a b) : Alike R (.ok a) (.ok b)

namespace Alike
variable {R : α → β → Prop} {x : Except ε α} {y : Except ε β}

theorem refl {R : α → α → Prop} (hR : ∀ a, R a a) (x : Except ε α) : Alike R x x := by
  cases x with
  | ok a => exact .ok (hR a)
  | error e => exact .error e e

theorem trans {S : β → γ → Prop} {T : α → γ → Prop} (hT : ∀ a b c, R a b → S b c → T a c)
    {z : Except ε γ} (h : Alike R x y) (h' : Alike S y z) : Alike T x z := by
  cases h with
  | error e e' =>
    cases h' with
    | error _ e'' => exact .error e e''
  | ok hab =>
    cases h' with
    | ok hbc => exact .ok (hT _ _ _ hab hbc)

theorem bind {δ : Type} {S : γ → δ → Prop} {f : α → Except ε γ} {g : β → Except ε δ}
    (h : Alike R x y) (hfg : ∀ a b, R a b → Alike S (f a) (g b)) :
    Alike S (x.bind f) (y.bind g) := by
  cases h with
  | error e e' => exact .error e e'
  | ok hab => exact hfg _ _ hab

theorem map {δ : Type} {S : γ → δ → Prop} {f : α → γ} {g : β → δ} (h : Alike R x y)
    (hfg : ∀ a b, R a b → S (f a) (g b)) : Alike S (x.map f) (y.map g) := by
  cases h with
  | error e e' => exact .error e e'
  | ok hab => exact .ok (hfg _ _ hab)

/-- Loops over related lists, whose rounds keep a relation between the states. -/
theorem foldlM {δ : Type} {S : γ → δ → Prop} {f : α → γ → Except ε α} {g : β → δ → Except ε β}
    {cs : List γ} {ds : List δ} (hs : List.Forall₂ S cs ds)
    (hstep : ∀ a b c d, R a b → S c d → Alike R (f a c) (g b d)) {a : α} {b : β} (h : R a b) :
    Alike R (cs.foldlM f a) (ds.foldlM g b) := by
  induction hs generalizing a b with
  | nil => exact .ok h
  | cons hcd _ ih =>
    rw [List.foldlM_cons, List.foldlM_cons]
    apply bind (hstep a b _ _ h hcd)
    intro a' b' h'
    exact ih h'

/-- Two computations, each of which has a result if the other has one. -/
theorem of_results (hx : ∀ a, x = .ok a → ∃ b, y = .ok b ∧ R a b)
    (hy : ∀ b, y = .ok b → ∃ a, x = .ok a) : Alike R x y := by
  cases x with
  | ok a =>
    obtain ⟨b, rfl, hab⟩ := hx a rfl
    exact .ok hab
  | error e =>
    cases y with
    | ok b =>
      obtain ⟨a, ha⟩ := hy b rfl
      cases ha
    | error e' => exact .error e e'

end Alike
end Outcome
