import Mathlib.Logic.Function.Basic
import Mathlib.Data.List.Forall2
import Mathlib.Data.List.Perm.Basic

/-! # Loops over keyed entries

A loop over the entries of a table, which may fail, with a state that has a part for each
key: an entry reads and writes the part of its own key.  Such a loop is a family of loops,
one for each key over the entries of that key (`foldlM_ok_iff`).  The order of the entries
matters within a key only.
-/
namespace KeyedFold
variable {κ α ε σ : Type} {F : κ → Type} [DecidableEq κ]

/-- An entry's step on the part of its key. -/
def update (key : α → κ) (f : ∀ k, F k → α → Except ε (F k)) (s : ∀ k, F k) (a : α) :
    Except ε (∀ k, F k) :=
  (f (key a) (s (key a)) a).map (Function.update s (key a))

/-- The entries of a key, in their order. -/
def entries (key : α → κ) (k : κ) (as : List α) : List α := as.filter fun a => key a = k

variable {key : α → κ} {f : ∀ k, F k → α → Except ε (F k)}

theorem entries_cons_same (a : α) (as : List α) :
    entries key (key a) (a :: as) = a :: entries key (key a) as := by
  simp [entries]

theorem entries_cons_other {k : κ} {a : α} (h : key a ≠ k) (as : List α) :
    entries key k (a :: as) = entries key k as := by
  simp [entries, h]

theorem mem_entries {k : κ} {a : α} {as : List α} (h : a ∈ entries key k as) : key a = k :=
  of_decide_eq_true (List.mem_filter.mp h).2

/-- Loops whose rounds are the same for every element there is. -/
theorem foldlM_congr {g g' : σ → α → Except ε σ} {as : List α}
    (h : ∀ a ∈ as, ∀ s, g s a = g' s a) (s : σ) : as.foldlM g s = as.foldlM g' s := by
  induction as generalizing s with
  | nil => rfl
  | cons a as ih =>
    rw [List.foldlM_cons, List.foldlM_cons, h a List.mem_cons_self s]
    congr 1
    funext t
    exact ih (fun b hb => h b (List.mem_cons_of_mem a hb)) t

/-- **A keyed loop, key by key.**  It succeeds with `t` exactly if for every key the loop over
the entries of that key does with its part of `t`. -/
theorem foldlM_update_ok_iff {s t : ∀ k, F k} {as : List α} :
    as.foldlM (update key f) s = .ok t ↔
      ∀ k, (entries key k as).foldlM (f k) (s k) = .ok (t k) := by
  induction as generalizing s with
  | nil =>
    constructor
    · rintro h k
      rw [Except.ok.inj h]
      rfl
    · intro h
      exact congrArg Except.ok (funext fun k => Except.ok.inj (h k))
  | cons a as ih =>
    rw [List.foldlM_cons]
    cases hx : f (key a) (s (key a)) a with
    | error e =>
      have hupdate : update key f s a = .error e := by rw [update, hx]; rfl
      rw [hupdate]
      constructor
      · intro h
        cases h
      · intro h
        have hk := h (key a)
        rw [entries_cons_same, List.foldlM_cons, hx] at hk
        cases hk
    | ok x =>
      have hupdate : update key f s a = .ok (Function.update s (key a) x) := by
        rw [update, hx]
        rfl
      rw [hupdate]
      refine ih.trans (forall_congr' fun k => ?_)
      by_cases hk : key a = k
      · subst hk
        rw [entries_cons_same, List.foldlM_cons, hx, Function.update_self]
        rfl
      · rw [entries_cons_other hk, Function.update_of_ne (Ne.symm hk)]

/-- The loop of a program whose state the parts make up. -/
theorem foldlM_ok_iff {step : σ → α → Except ε σ} {get : σ → ∀ k, F k}
    (hget : Function.Injective get)
    (hstep : ∀ s a, (step s a).map get = update key f (get s) a) {s t : σ} {as : List α} :
    as.foldlM step s = .ok t ↔
      ∀ k, (entries key k as).foldlM (f k) (get s k) = .ok (get t k) := by
  rw [← foldlM_update_ok_iff]
  induction as generalizing s with
  | nil =>
    constructor
    · intro h
      rw [Except.ok.inj h]
      rfl
    · intro h
      exact congrArg Except.ok (hget (Except.ok.inj h))
  | cons a as ih =>
    rw [List.foldlM_cons, List.foldlM_cons, ← hstep s a]
    cases step s a with
    | error e =>
      constructor
      · intro h
        cases h
      · intro h
        cases h
    | ok u => exact ih

/-! ## The order of the entries -/

theorem entries_perm {as bs : List α} (h : as.Perm bs) (k : κ) :
    (entries key k as).Perm (entries key k bs) :=
  h.filter _

/-- Entries of a key are few where the key goes with a name, and no name comes twice. -/
theorem length_entries_le_one {ι : Type} {name : α → ι} {as : List α}
    (hdistinct : (as.map name).Nodup) {k : κ}
    (hname : ∀ a b, key a = k → key b = k → name a = name b) : (entries key k as).length ≤ 1 := by
  have hsub : ((entries key k as).map name).Nodup := hdistinct.sublist (List.filter_sublist.map _)
  match hes : entries key k as with
  | [] => exact Nat.zero_le 1
  | [_] => exact Nat.le_refl 1
  | a :: b :: es =>
    have hkey : ∀ c ∈ entries key k as, key c = k := fun c hc => mem_entries hc
    rw [hes] at hkey hsub
    have hab : name a = name b :=
      hname a b (hkey a List.mem_cons_self) (hkey b (List.mem_cons_of_mem a List.mem_cons_self))
    rw [List.map_cons, List.map_cons, hab] at hsub
    exact absurd List.mem_cons_self (List.nodup_cons.mp hsub).1

/-- A key with one entry does not tell the order. -/
theorem entries_eq_of_perm {as bs : List α} (h : as.Perm bs) {k : κ}
    (hone : (entries key k as).length ≤ 1) : entries key k as = entries key k bs := by
  have hperm : (entries key k as).Perm (entries key k bs) := entries_perm h k
  match has : entries key k as with
  | [] => rw [has] at hperm; exact hperm.nil_eq
  | [a] => rw [has] at hperm; exact (List.perm_singleton.mp hperm.symm).symm
  | a :: b :: es =>
    rw [has] at hone
    exact absurd hone (by simp)

end KeyedFold
