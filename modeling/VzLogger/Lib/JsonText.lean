import VzLogger.Lib.Json

/-! # JSON objects and spaced text

Printed strings, objects and arrays, with white space between their parts.
`ParsesMembers` and `ParsesElements` are what `Parses` is for a value: the decoder
takes the text, closing bracket included, for the members of an object or for the
elements of an array, whatever follows.
-/
namespace Json

/-- A text that needs no escapes in a string literal. -/
def Plain (s : List Char) : Prop := ∀ c ∈ s, c ≠ '"' ∧ c ≠ '\\' ∧ 32 ≤ c.toNat

theorem stringBody_plain {s : List Char} (h : Plain s) (rest : List Char) :
    stringBody (s ++ '"' :: rest) = some (s, rest) := by
  induction s with
  | nil => rfl
  | cons c s ih =>
    obtain ⟨hquote, hescape, hprint⟩ := h c List.mem_cons_self
    have ih := ih fun d hd => h d (List.mem_cons_of_mem c hd)
    rw [List.cons_append, stringBody]
    · rw [if_neg (by simp [hescape]; omega), ih]
      rfl
    all_goals simp_all

/-- White space. -/
def Spaces (sp : List Char) : Prop := ∀ c ∈ sp, isSpace c = true

theorem spaces_nil : Spaces [] := by simp [Spaces]

theorem spaces_one : Spaces [' '] := by simp [Spaces, isSpace]

theorem skipSpace_append {sp : List Char} (h : Spaces sp) (s : List Char) :
    skipSpace (sp ++ s) = skipSpace s := by
  rw [skipSpace, List.dropWhile_append_of_pos h]
  rfl

theorem stops_spaces {sp : List Char} (h : Spaces sp) {c : Char}
    (hc : c.isDigit = false ∧ c ≠ '.' ∧ c ≠ 'e' ∧ c ≠ 'E') (s : List Char) :
    Stops (sp ++ c :: s) := by
  cases sp with
  | nil => exact stops_cons hc s
  | cons d sp =>
    have hd := h d List.mem_cons_self
    apply stops_cons
    simp only [isSpace, Bool.or_eq_true, decide_eq_true_eq] at hd
    rcases hd with ((rfl | rfl) | rfl) | rfl <;> decide

theorem value_spaces {sp : List Char} (h : Spaces sp) (n : Nat) (s : List Char) :
    value n (sp ++ s) = value n s := by
  cases n with
  | zero => rfl
  | succ n =>
    unfold value
    rw [skipSpace_append h]

theorem members_spaces {sp : List Char} (h : Spaces sp) (n : Nat) (s : List Char) :
    members n (sp ++ s) = members n s := by
  cases n with
  | zero => rfl
  | succ n =>
    unfold members
    rw [skipSpace_append h]

theorem Parses.mono {t : List Char} {v : Value} {k l : Nat} (h : Parses t v k) (hkl : k ≤ l) :
    Parses t v l := fun n rest hn => h n rest (Nat.le_trans hkl hn)

theorem parses_str {s : List Char} (h : Plain s) : Parses ('"' :: (s ++ ['"'])) (.str s) 1 := by
  intro n rest hn _
  obtain ⟨n, rfl⟩ := Nat.exists_eq_add_of_le' hn
  have hbody := stringBody_plain h rest
  rw [List.cons_append, List.append_assoc, List.singleton_append]
  unfold value
  show (stringBody (s ++ '"' :: rest)).map _ = _
  rw [hbody]
  rfl

theorem value_obj (n : Nat) (s : List Char) :
    value (n + 1) ('\x7b' :: s) =
      match skipSpace s with
      | '\x7d' :: t => some (.obj [], t)
      | _ => (members n s).map fun p => (.obj p.1, p.2) := rfl

theorem value_arr (n : Nat) (s : List Char) :
    value (n + 1) ('[' :: s) =
      match skipSpace s with
      | ']' :: t => some (.arr [], t)
      | _ => (elements n s).map fun p => (.arr p.1, p.2) := rfl

/-! ## Objects -/

/-- A key, and the text of its value. -/
def member (key sp t : List Char) : List Char := '"' :: (key ++ '"' :: ':' :: (sp ++ t))

/-- The decoder reads `t` as the members of an object, with the closing brace. -/
def ParsesMembers (t : List Char) (ms : List (List Char × Value)) (k : Nat) : Prop :=
  ∀ n rest, k ≤ n → members n (t ++ rest) = some (ms, rest)

section
variable {key sp t u : List Char} {v : Value} {ms : List (List Char × Value)} {k : Nat}

/-- A member is read up to its value. -/
theorem members_member (hkey : Plain key) (hsp : Spaces sp) (n : Nat) (s : List Char) :
    members (n + 1) (member key sp s) =
      match value n s with
      | none => none
      | some (v, s) =>
        match skipSpace s with
        | ',' :: s => (members n s).map fun p => ((key, v) :: p.1, p.2)
        | '}' :: s => some ([(key, v)], s)
        | _ => none := by
  have hopen : skipSpace (member key sp s) = member key sp s := rfl
  rw [members, hopen, member]
  simp only [stringBody_plain hkey]
  rw [← value_spaces hsp n s]
  rfl

/-- The last member, and the closing brace. -/
theorem parsesMembers_last (hkey : Plain key) (hsp : Spaces sp) {sp' : List Char}
    (hsp' : Spaces sp') (hv : Parses t v k) :
    ParsesMembers (member key sp (t ++ (sp' ++ ['\x7d']))) [(key, v)] (k + 1) := by
  intro n rest hn
  obtain ⟨n, rfl⟩ := Nat.exists_eq_add_of_le' (show 1 ≤ n by omega)
  have hvalue := hv n (sp' ++ '\x7d' :: rest) (by omega) (stops_spaces hsp' (by decide) rest)
  have htext : member key sp (t ++ (sp' ++ ['\x7d'])) ++ rest =
      member key sp (t ++ (sp' ++ '\x7d' :: rest)) := by simp [member]
  rw [htext, members_member hkey hsp, hvalue]
  simp only [skipSpace_append hsp']
  rfl

theorem parsesMembers_cons (hkey : Plain key) (hsp : Spaces sp) {sp' : List Char}
    (hsp' : Spaces sp') (hv : Parses t v k) (hms : ParsesMembers u ms k) :
    ParsesMembers (member key sp (t ++ ',' :: (sp' ++ u))) ((key, v) :: ms) (k + 1) := by
  intro n rest hn
  obtain ⟨n, rfl⟩ := Nat.exists_eq_add_of_le' (show 1 ≤ n by omega)
  have hvalue := hv n (',' :: (sp' ++ (u ++ rest))) (by omega) (stops_cons (by decide) _)
  have htext : member key sp (t ++ ',' :: (sp' ++ u)) ++ rest =
      member key sp (t ++ ',' :: (sp' ++ (u ++ rest))) := by simp [member]
  have hcomma : skipSpace (',' :: (sp' ++ (u ++ rest))) = ',' :: (sp' ++ (u ++ rest)) := rfl
  rw [htext, members_member hkey hsp, hvalue]
  simp only [hcomma, members_spaces hsp', hms n rest (by omega), Option.map_some]

end

/-- **An object.** -/
theorem parses_obj {t sp : List Char} {ms : List (List Char × Value)} {k : Nat} (hsp : Spaces sp)
    (h : ParsesMembers ('"' :: t) ms k) : Parses ('\x7b' :: (sp ++ '"' :: t)) (.obj ms) (k + 1) := by
  intro n rest hn _
  obtain ⟨n, rfl⟩ := Nat.exists_eq_add_of_le' (show 1 ≤ n by omega)
  have hms := members_spaces hsp n ('"' :: t ++ rest)
  have hopen : skipSpace (sp ++ ('"' :: t ++ rest)) = '"' :: (t ++ rest) := by
    rw [skipSpace_append hsp]
    rfl
  rw [h n rest (by omega)] at hms
  rw [List.cons_append, List.append_assoc, value_obj, hopen, hms]
  rfl

/-! ## Arrays -/

/-- The decoder reads `t` as the elements of an array, with the closing bracket. -/
def ParsesElements (t : List Char) (vs : List Value) (k : Nat) : Prop :=
  ∀ n rest, k ≤ n → elements n (t ++ rest) = some (vs, rest)

theorem elements_closing {n : Nat} {s t : List Char} (h : skipSpace s = ']' :: t) :
    elements n s = none := by
  cases n with
  | zero => rfl
  | succ n => rw [elements, value_closing h]

section
variable {sp t u : List Char} {v : Value} {vs : List Value} {k : Nat}

theorem elements_spaces (h : Spaces sp) (n : Nat) (s : List Char) :
    elements n (sp ++ s) = elements n s := by
  cases n with
  | zero => rfl
  | succ n => rw [elements, elements, value_spaces h]

theorem parsesElements_last (hsp : Spaces sp) (hv : Parses t v k) :
    ParsesElements (t ++ (sp ++ [']'])) [v] (k + 1) := by
  intro n rest hn
  obtain ⟨n, rfl⟩ := Nat.exists_eq_add_of_le' (show 1 ≤ n by omega)
  have hvalue := hv n (sp ++ ']' :: rest) (by omega) (stops_spaces hsp (by decide) rest)
  rw [List.append_assoc, List.append_assoc, List.singleton_append, elements, hvalue]
  simp only [skipSpace_append hsp]
  rfl

theorem parsesElements_cons (hsp : Spaces sp) (hv : Parses t v k) (hvs : ParsesElements u vs k) :
    ParsesElements (t ++ ',' :: (sp ++ u)) (v :: vs) (k + 1) := by
  intro n rest hn
  obtain ⟨n, rfl⟩ := Nat.exists_eq_add_of_le' (show 1 ≤ n by omega)
  have hvalue := hv n (',' :: (sp ++ (u ++ rest))) (by omega) (stops_cons (by decide) _)
  have hcomma : skipSpace (',' :: (sp ++ (u ++ rest))) = ',' :: (sp ++ (u ++ rest)) := rfl
  rw [List.append_assoc, List.cons_append, List.append_assoc, elements, hvalue]
  simp only [hcomma, elements_spaces hsp, hvs n rest (by omega), Option.map_some]

/-- Elements joined by commas, and the closing bracket. -/
theorem parsesElements_intercalate {ts : List (List Char)}
    (h : List.Forall₂ (Parses · · k) ts vs) (hne : ts ≠ []) :
    ParsesElements ([','].intercalate ts ++ [']']) vs (k + ts.length) := by
  intro n rest hn
  rw [List.append_assoc, List.singleton_append]
  exact elements_intercalate (h.imp fun _ _ => Parses.reads) hne n rest hn

/-- **An array.** -/
theorem parses_arr (hsp : Spaces sp) (h : ParsesElements t vs k) :
    Parses ('[' :: (sp ++ t)) (.arr vs) (k + 1) := by
  intro n rest hn _
  obtain ⟨n, rfl⟩ := Nat.exists_eq_add_of_le' (show 1 ≤ n by omega)
  have helements := h n rest (by omega)
  have hopen : ∀ u, skipSpace (sp ++ (t ++ rest)) ≠ ']' :: u := by
    intro u hclose
    rw [skipSpace_append hsp] at hclose
    rw [elements_closing hclose] at helements
    cases helements
  rw [← elements_spaces hsp] at helements
  rw [List.cons_append, List.append_assoc, value_arr]
  split
  · rename_i heq
    exact absurd heq (hopen _)
  · rw [helements]
    rfl

end

end Json
