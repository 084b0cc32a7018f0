import VzLogger.Lib.Strtod

/-! # The `uuid` of a channel

`config_parse_channel` refuses a channel whose `uuid` the check does not accept.  The
check looks at every character, with its position, and not at their number: it accepts
the texts that a UUID begins with, and those that go on with hexadecimal digits.
-/
namespace VzLogger

/-- `isxdigit` in the C locale. -/
def isxdigit (c : Char) : Bool := (CString.hexDigit c).isSome

/-- The loop of `config_validate_uuid` from the `i`-th character on. -/
def validateUuidFrom (i : Nat) : List Char → Bool
  | [] => true
  | c :: p =>
    (if i = 8 ∨ i = 13 ∨ i = 18 ∨ i = 23 then c == '-' else isxdigit c) &&
      validateUuidFrom (i + 1) p

def configValidateUuid (uuid : List Char) : Bool := validateUuidFrom 0 uuid

/-- A `uuid` that is accepted. -/
structure Uuid where
  text : List Char
  valid : configValidateUuid text = true
  deriving DecidableEq

theorem validateUuidFrom_mem {i : Nat} {p : List Char} (h : validateUuidFrom i p = true) {c : Char}
    (hc : c ∈ p) : c = '-' ∨ isxdigit c = true := by
  induction p generalizing i with
  | nil => cases hc
  | cons d p ih =>
    rw [validateUuidFrom, Bool.and_eq_true] at h
    rcases List.mem_cons.mp hc with rfl | hc
    · have hd := h.1
      split at hd
      · exact Or.inl (beq_iff_eq.mp hd)
      · exact Or.inr hd
    · exact ih h.2 hc

/-- An accepted `uuid` is made of hexadecimal digits and dashes. -/
theorem Uuid.mem (uuid : Uuid) {c : Char} (hc : c ∈ uuid.text) : c = '-' ∨ isxdigit c = true :=
  validateUuidFrom_mem uuid.valid hc

/-! ## What is accepted -/

/-- What the check wants of the `i`-th character. -/
def uuidAdmits (i : Nat) (c : Char) : Bool :=
  if i = 8 ∨ i = 13 ∨ i = 18 ∨ i = 23 then c == '-' else isxdigit c

/-- Five groups of hexadecimal digits, with dashes in between. -/
def IsUuid (s : List Char) : Prop :=
  ∃ groups : List (List Char), groups.map List.length = [8, 4, 4, 4, 12] ∧
    (∀ g ∈ groups, ∀ c ∈ g, isxdigit c = true) ∧ s = ['-'].intercalate groups

/-- `uuid + 30`, which `config_parse_channel` prints; `none` where it lies behind the end
of the string. -/
def uuidTail (uuid : List Char) : Option (List Char) :=
  if 30 ≤ uuid.length then some (uuid.drop 30) else none

/-- The check tells whether a text is a UUID, and one that it accepts can be indexed. -/
def Told (s : List Char) : Prop :=
  (configValidateUuid s = true ↔ IsUuid s) ∧
    (configValidateUuid s = true → (uuidTail s).isSome = true)

theorem validateUuidFrom_cons (i : Nat) (c : Char) (p : List Char) :
    validateUuidFrom i (c :: p) = (uuidAdmits i c && validateUuidFrom (i + 1) p) := rfl

/-- The check accepts a text if every character is admitted where it stands. -/
theorem validateUuidFrom_iff {i : Nat} {p : List Char} :
    validateUuidFrom i p = true ↔ ∀ j c, p[j]? = some c → uuidAdmits (i + j) c = true := by
  induction p generalizing i with
  | nil => simp [validateUuidFrom]
  | cons d p ih =>
    rw [validateUuidFrom_cons, Bool.and_eq_true, ih]
    constructor
    · rintro ⟨hd, hp⟩ j c hc
      cases j with
      | zero =>
        obtain rfl := Option.some.inj hc
        exact hd
      | succ j =>
        rw [Nat.add_comm j 1, ← Nat.add_assoc]
        exact hp j c hc
    · intro h
      refine ⟨h 0 d rfl, ?_⟩
      intro j c hc
      rw [Nat.add_assoc, Nat.add_comm 1 j]
      exact h (j + 1) c hc

/-- A group of digits, where there is no place for a dash. -/
theorem validateUuidFrom_group {i : Nat} {g : List Char} (p : List Char)
    (hplace : ∀ j < g.length, ¬(i + j = 8 ∨ i + j = 13 ∨ i + j = 18 ∨ i + j = 23)) :
    validateUuidFrom i (g ++ p) = true ↔
      (∀ c ∈ g, isxdigit c = true) ∧ validateUuidFrom (i + g.length) p = true := by
  induction g generalizing i with
  | nil => simp
  | cons d g ih =>
    have hd : uuidAdmits i d = isxdigit d := if_neg (hplace 0 (Nat.succ_pos _))
    have hrest : ∀ j < g.length,
        ¬(i + 1 + j = 8 ∨ i + 1 + j = 13 ∨ i + 1 + j = 18 ∨ i + 1 + j = 23) := by
      intro j hj
      rw [Nat.add_assoc, Nat.add_comm 1 j]
      exact hplace (j + 1) (Nat.succ_lt_succ hj)
    rw [List.cons_append, validateUuidFrom_cons, Bool.and_eq_true, ih hrest, hd,
      List.forall_mem_cons, and_assoc, List.length_cons, Nat.add_assoc, Nat.add_comm 1]

/-- A group, and the dash behind it. -/
theorem validateUuidFrom_dash {i : Nat} {g : List Char} (p : List Char)
    (hplace : ∀ j < g.length, ¬(i + j = 8 ∨ i + j = 13 ∨ i + j = 18 ∨ i + j = 23))
    (hdash : i + g.length = 8 ∨ i + g.length = 13 ∨ i + g.length = 18 ∨ i + g.length = 23)
    (d : Char) :
    validateUuidFrom i (g ++ d :: p) = true ↔
      (∀ c ∈ g, isxdigit c = true) ∧ d = '-' ∧
        validateUuidFrom (i + g.length + 1) p = true := by
  have hd : uuidAdmits (i + g.length) d = (d == '-') := if_pos hdash
  rw [validateUuidFrom_group _ hplace, validateUuidFrom_cons, hd, Bool.and_eq_true, beq_iff_eq]

/-- A text of the length of a UUID, cut at the dashes. -/
theorem exists_groups {s : List Char} (hlen : s.length = 36) :
    ∃ a b c d e : List Char, ∃ w x y z : Char, a.length = 8 ∧ b.length = 4 ∧ c.length = 4 ∧
      d.length = 4 ∧ e.length = 12 ∧ s = a ++ w :: (b ++ x :: (c ++ y :: (d ++ z :: e))) := by
  have hcut : ∀ (n : Nat) (t : List Char), n < t.length →
      ∃ g x u, g.length = n ∧ t = g ++ x :: u ∧ u.length = t.length - (n + 1) := by
    intro n t hn
    refine ⟨t.take n, t[n], t.drop (n + 1), ?_, ?_, List.length_drop⟩
    · rw [List.length_take]
      omega
    · rw [← List.drop_eq_getElem_cons hn, List.take_append_drop]
  obtain ⟨a, w, s₁, ha, rfl, hs₁⟩ := hcut 8 s (by omega)
  obtain ⟨b, x, s₂, hb, rfl, hs₂⟩ := hcut 4 s₁ (by omega)
  obtain ⟨c, y, s₃, hc, rfl, hs₃⟩ := hcut 4 s₂ (by omega)
  obtain ⟨d, z, e, hd, rfl, he⟩ := hcut 4 s₃ (by omega)
  exact ⟨a, b, c, d, e, w, x, y, z, ha, hb, hc, hd, by omega, rfl⟩

theorem configValidateUuid_groups {a b c d e : List Char} {w x y z : Char} (ha : a.length = 8)
    (hb : b.length = 4) (hc : c.length = 4) (hd : d.length = 4) (he : e.length = 12) :
    configValidateUuid (a ++ w :: (b ++ x :: (c ++ y :: (d ++ z :: e)))) = true ↔
      (w = '-' ∧ x = '-' ∧ y = '-' ∧ z = '-') ∧
        ∀ g ∈ [a, b, c, d, e], ∀ c ∈ g, isxdigit c = true := by
  have hlast := validateUuidFrom_group (i := 24) (g := e) [] (by omega)
  rw [List.append_nil] at hlast
  rw [configValidateUuid, validateUuidFrom_dash _ (by omega) (by omega), ha,
    validateUuidFrom_dash _ (by omega) (by omega), hb,
    validateUuidFrom_dash _ (by omega) (by omega), hc,
    validateUuidFrom_dash _ (by omega) (by omega), hd, hlast]
  simp only [validateUuidFrom, List.forall_mem_cons, List.not_mem_nil, false_implies,
    implies_true, and_true]
  tauto

/-- The length is what the check leaves out. -/
theorem isUuid_iff (s : List Char) :
    IsUuid s ↔ s.length = 36 ∧ configValidateUuid s = true := by
  constructor
  · rintro ⟨groups, hlens, hdigits, rfl⟩
    obtain ⟨a, _, rfl, ha, hlens⟩ := List.map_eq_cons_iff.mp hlens
    obtain ⟨b, _, rfl, hb, hlens⟩ := List.map_eq_cons_iff.mp hlens
    obtain ⟨c, _, rfl, hc, hlens⟩ := List.map_eq_cons_iff.mp hlens
    obtain ⟨d, _, rfl, hd, hlens⟩ := List.map_eq_cons_iff.mp hlens
    obtain ⟨e, _, rfl, he, hlens⟩ := List.map_eq_cons_iff.mp hlens
    obtain rfl := List.map_eq_nil_iff.mp hlens
    have htext : ['-'].intercalate [a, b, c, d, e] =
        a ++ '-' :: (b ++ '-' :: (c ++ '-' :: (d ++ '-' :: e))) := by
      simp [List.intercalate]
    rw [htext]
    refine ⟨?_, (configValidateUuid_groups ha hb hc hd he).mpr ⟨⟨rfl, rfl, rfl, rfl⟩, hdigits⟩⟩
    simp only [List.length_append, List.length_cons]
    omega
  · rintro ⟨hlen, hvalid⟩
    obtain ⟨a, b, c, d, e, w, x, y, z, ha, hb, hc, hd, he, rfl⟩ := exists_groups hlen
    obtain ⟨⟨rfl, rfl, rfl, rfl⟩, hdigits⟩ :=
      (configValidateUuid_groups ha hb hc hd he).mp hvalid
    refine ⟨[a, b, c, d, e], by simp [ha, hb, hc, hd, he], hdigits, ?_⟩
    simp [List.intercalate]

/-- **When the check tells UUIDs from other texts**: exactly for those of 36 characters,
and those with a character that is wrong where it stands. -/
theorem told_iff (s : List Char) :
    Told s ↔ s.length = 36 ∨ ∃ i c, s[i]? = some c ∧ uuidAdmits i c = false := by
  have hwrong : configValidateUuid s = false ↔ ∃ i c, s[i]? = some c ∧ uuidAdmits i c = false := by
    rw [← Bool.not_eq_true, configValidateUuid, validateUuidFrom_iff]
    simp only [Nat.zero_add]
    push Not
    simp only [Bool.not_eq_true]
  rw [Told, isUuid_iff, ← hwrong]
  cases hvalid : configValidateUuid s with
  | false => simp
  | true =>
    have htail : s.length = 36 → (uuidTail s).isSome = true := by
      intro hlen
      rw [uuidTail, if_pos (by omega)]
      rfl
    simp only [and_true, true_iff, true_implies, Bool.true_eq_false, or_false]
    exact ⟨fun h => h.1, fun hlen => ⟨hlen, htail hlen⟩⟩

/-- A text of one digit is accepted, and indexed behind its end. -/
theorem not_told_short :
    configValidateUuid ['0'] = true ∧ uuidTail ['0'] = none ∧ ¬IsUuid ['0'] ∧ ¬Told ['0'] := by
  have hvalid : configValidateUuid ['0'] = true := by decide
  have huuid : ¬IsUuid ['0'] := by
    rw [isUuid_iff]
    rintro ⟨hlen, -⟩
    cases hlen
  exact ⟨hvalid, rfl, huuid, fun htold => huuid (htold.1.mp hvalid)⟩

end VzLogger
