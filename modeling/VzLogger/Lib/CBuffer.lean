import VzLogger.Lib.CString

/-! # Character arrays

A C array of characters has a fixed size; a store outside it has no result.  An
array that was never written may hold anything, so what is known of one is the
text it starts with.
-/
namespace CBuffer
variable {n : Nat}

/-- `buf[i] = c`. -/
def store (buf : Vector Char n) (i : Nat) (c : Char) : Option (Vector Char n) :=
  if h : i < n then some (buf.set i c h) else none

/-- The array as a C string. -/
def text (buf : Vector Char n) : List Char := CString.cStr buf.toList

/-- The array starts with the characters of `t`. -/
def Starts (buf : Vector Char n) (t : List Char) : Prop := t <+: buf.toList

theorem starts_nil (buf : Vector Char n) : Starts buf [] := List.nil_prefix

/-- The next character goes behind the text the array starts with. -/
theorem Starts.store {buf : Vector Char n} {t : List Char} (h : Starts buf t) (ht : t.length < n)
    (c : Char) : ∃ buf', store buf t.length c = some buf' ∧ Starts buf' (t ++ [c]) := by
  refine ⟨buf.set t.length c ht, dif_pos ht, ?_⟩
  obtain ⟨rest, hrest⟩ := h
  have hlen : (t ++ rest).length = n := by rw [hrest, Vector.length_toList]
  rw [List.length_append] at hlen
  have hset : (buf.set t.length c ht).toList = (t ++ rest).set t.length c := by
    rw [hrest, Vector.toList_set]
  cases rest with
  | nil => simp at hlen; omega
  | cons d rest =>
    refine ⟨rest, ?_⟩
    rw [hset, List.set_append_right _ _ (Nat.le_refl _), Nat.sub_self, List.set_cons_zero,
      List.append_assoc, List.singleton_append]

/-- Characters one behind the other, as `sprintf` and `strcpy` write them. -/
def storeAll (buf : Vector Char n) (i : Nat) : List Char → Option (Vector Char n)
  | [] => some buf
  | c :: cs => (CBuffer.store buf i c).bind fun buf => storeAll buf (i + 1) cs

theorem Starts.length_le {buf : Vector Char n} {t : List Char} (h : Starts buf t) :
    t.length ≤ n := by
  have hle := List.IsPrefix.length_le h
  rwa [Vector.length_toList] at hle

theorem Starts.of_append {buf : Vector Char n} {t u : List Char} (h : Starts buf (t ++ u)) :
    Starts buf t := (List.prefix_append t u).trans h

theorem Starts.storeAll {buf : Vector Char n} {t : List Char} (h : Starts buf t) {cs : List Char}
    (hcs : t.length + cs.length ≤ n) :
    ∃ buf', storeAll buf t.length cs = some buf' ∧ Starts buf' (t ++ cs) := by
  induction cs generalizing buf t with
  | nil => exact ⟨buf, rfl, by rwa [List.append_nil]⟩
  | cons c cs ih =>
    rw [List.length_cons] at hcs
    obtain ⟨buf₁, hstore, hstarts⟩ := h.store (by omega) c
    obtain ⟨buf', hall, hend⟩ := ih hstarts (by rw [List.length_append, List.length_singleton]; omega)
    refine ⟨buf', ?_, ?_⟩
    · rw [CBuffer.storeAll, hstore, Option.bind_some]
      rwa [List.length_append, List.length_singleton] at hall
    · rwa [List.append_assoc, List.singleton_append] at hend

/-- What does not fit cannot be stored. -/
theorem storeAll_eq_none {cs : List Char} {i : Nat} (hcs : cs ≠ []) (h : n < i + cs.length)
    (buf : Vector Char n) : storeAll buf i cs = none := by
  induction cs generalizing buf i with
  | nil => exact absurd rfl hcs
  | cons c cs ih =>
    rw [storeAll]
    by_cases hi : i < n
    · rw [List.length_cons] at h
      have hcs : cs ≠ [] := by
        rintro rfl
        simp only [List.length_nil] at h
        omega
      rw [CBuffer.store, dif_pos hi, Option.bind_some]
      exact ih hcs (by omega) _
    · rw [CBuffer.store, dif_neg hi]
      rfl

theorem cStr_of_not_mem {s : List Char} (h : '\x00' ∉ s) : CString.cStr s = s := by
  refine List.takeWhile_eq_self_iff.mpr fun c hc => decide_eq_true ?_
  rintro rfl
  exact h hc

/-- A terminated string is shorter than its array. -/
theorem length_cStr_lt {s : List Char} (h : '\x00' ∈ s) : (CString.cStr s).length < s.length := by
  by_contra hle
  have hprefix : CString.cStr s <+: s := List.takeWhile_prefix _
  have heq : CString.cStr s = s := hprefix.eq_of_length_le (not_lt.mp hle)
  rw [← heq] at h
  have hne := List.mem_takeWhile_imp (p := fun c => decide (c ≠ '\x00')) h
  exact absurd rfl (of_decide_eq_true hne)

theorem cStr_append_nul (t rest : List Char) :
    CString.cStr (t ++ '\x00' :: rest) = CString.cStr t := by
  unfold CString.cStr
  induction t with
  | nil => simp
  | cons c t ih => rw [List.cons_append, List.takeWhile_cons, List.takeWhile_cons, ih]

/-- A terminated text is what the C string is. -/
theorem Starts.text_eq {buf : Vector Char n} {t : List Char} (h : Starts buf (t ++ ['\x00'])) :
    text buf = CString.cStr t := by
  obtain ⟨rest, hrest⟩ := h
  rw [text, ← hrest, List.append_assoc, List.singleton_append, cStr_append_nul]

end CBuffer
