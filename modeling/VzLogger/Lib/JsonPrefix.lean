import VzLogger.Lib.JsonText

/-! # JSON texts that break off

What the decoder has read of a text it reads of every longer one
(`value_append`), so that no proper beginning of an object's text is itself well
formed (`decode_of_isPrefix`).  Only a number at the end of a text may still go on.

A text is `Blocked` when the decoder reads no value at its beginning; what stands in
front of it does not help (`blocked_obj`, `blocked_arr`).
-/
namespace Json

/-! ## One level of the decoder -/

section
variable {n : Nat} {s rest : List Char} {v : Value} {vs : List Value}
  {ms : List (List Char × Value)}

theorem elements_succ :
    elements (n + 1) s = some (vs, rest) ↔
      ∃ v t, value n s = some (v, t) ∧
        ((∃ u us, skipSpace t = ',' :: u ∧ elements n u = some (us, rest) ∧ vs = v :: us) ∨
          (skipSpace t = ']' :: rest ∧ vs = [v])) := by
  rw [elements]
  cases hv : value n s with
  | none => simp
  | some p =>
    obtain ⟨v, t⟩ := p
    simp only [Option.some.injEq, Prod.mk.injEq, exists_and_left, ↓existsAndEq, and_true]
    split
    · rename_i u heq
      rw [heq]
      cases he : elements n u with
      | none => simp [he]
      | some p =>
        obtain ⟨us, r⟩ := p
        simp only [Option.map_some, Option.some.injEq, Prod.mk.injEq, List.cons.injEq, true_and,
          ↓existsAndEq, he]
        grind
    · rename_i u heq
      rw [heq]
      grind
    · grind

theorem members_succ :
    members (n + 1) s = some (ms, rest) ↔
      ∃ s₁ key s₂ s₃ v t, skipSpace s = '"' :: s₁ ∧ stringBody s₁ = some (key, s₂) ∧
        skipSpace s₂ = ':' :: s₃ ∧ value n s₃ = some (v, t) ∧
        ((∃ u us, skipSpace t = ',' :: u ∧ members n u = some (us, rest) ∧ ms = (key, v) :: us) ∨
          (skipSpace t = '\x7d' :: rest ∧ ms = [(key, v)])) := by
  constructor
  · intro h
    rw [members] at h
    split at h
    · rename_i s₁ hs₁
      split at h
      · simp at h
      · rename_i key s₂ hkey
        split at h
        · rename_i s₃ hs₃
          split at h
          · simp at h
          · rename_i v t hv
            refine ⟨s₁, key, s₂, s₃, v, t, hs₁, hkey, hs₃, hv, ?_⟩
            split at h
            · rename_i u hu
              obtain ⟨⟨us, r⟩, hus, hp⟩ := Option.map_eq_some_iff.mp h
              obtain ⟨rfl, rfl⟩ := Prod.mk.inj hp
              exact Or.inl ⟨u, us, hu, hus, rfl⟩
            · rename_i u hu
              obtain ⟨rfl, rfl⟩ := Prod.mk.inj (Option.some.inj h)
              exact Or.inr ⟨hu, rfl⟩
            · simp at h
        · simp at h
    · simp at h
  · rintro ⟨s₁, key, s₂, s₃, v, t, hs₁, hkey, hs₃, hv, ⟨u, us, hu, hus, rfl⟩ | ⟨ht, rfl⟩⟩
    · simp [members, hs₁, hkey, hs₃, hv, hu, hus]
    · simp [members, hs₁, hkey, hs₃, hv, ht]

theorem elements_ne_closing (h : elements n s = some (vs, rest)) (t : List Char) :
    skipSpace s ≠ ']' :: t := by
  intro hclose
  rw [elements_closing hclose] at h
  cases h

theorem members_ne_closing (h : members n s = some (ms, rest)) (t : List Char) :
    skipSpace s ≠ '\x7d' :: t := by
  intro hclose
  cases n with
  | zero => simp [members] at h
  | succ n =>
    obtain ⟨s₁, _, _, _, _, _, hs₁, _⟩ := members_succ.mp h
    simp [hs₁] at hclose

theorem value_succ :
    value (n + 1) s = some (v, rest) ↔ ∃ c t, skipSpace s = c :: t ∧
      ((c = '[' ∧ skipSpace t = ']' :: rest ∧ v = .arr []) ∨
        (∃ vs, c = '[' ∧ elements n t = some (vs, rest) ∧ v = .arr vs) ∨
        (c = '\x7b' ∧ skipSpace t = '\x7d' :: rest ∧ v = .obj []) ∨
        (∃ ms, c = '\x7b' ∧ members n t = some (ms, rest) ∧ v = .obj ms) ∨
        (∃ b, c = '"' ∧ stringBody t = some (b, rest) ∧ v = .str b) ∨
        (c ≠ '[' ∧ c ≠ '\x7b' ∧ c ≠ '"' ∧ scalar (c :: t) = some (v, rest))) := by
  constructor
  · intro h
    unfold value at h
    split at h
    · rename_i t ht
      refine ⟨'[', t, ht, ?_⟩
      split at h
      · rename_i u hu
        obtain ⟨rfl, rfl⟩ := Prod.mk.inj (Option.some.inj h)
        exact Or.inl ⟨rfl, hu, rfl⟩
      · obtain ⟨⟨vs, r⟩, hvs, hp⟩ := Option.map_eq_some_iff.mp h
        obtain ⟨rfl, rfl⟩ := Prod.mk.inj hp
        exact Or.inr (Or.inl ⟨vs, rfl, hvs, rfl⟩)
    · rename_i t ht
      refine ⟨'\x7b', t, ht, Or.inr (Or.inr ?_)⟩
      split at h
      · rename_i u hu
        obtain ⟨rfl, rfl⟩ := Prod.mk.inj (Option.some.inj h)
        exact Or.inl ⟨rfl, hu, rfl⟩
      · obtain ⟨⟨ms, r⟩, hms, hp⟩ := Option.map_eq_some_iff.mp h
        obtain ⟨rfl, rfl⟩ := Prod.mk.inj hp
        exact Or.inr (Or.inl ⟨ms, rfl, hms, rfl⟩)
    · rename_i t ht
      obtain ⟨⟨b, r⟩, hb, hp⟩ := Option.map_eq_some_iff.mp h
      obtain ⟨rfl, rfl⟩ := Prod.mk.inj hp
      exact ⟨'"', t, ht, by simp [hb]⟩
    · rename_i t harr hobj hstr
      cases ht : skipSpace s with
      | nil =>
        rw [ht] at h
        simp [scalar, literals, number, magnitude, intPart, digits,
          List.span_eq_takeWhile_dropWhile] at h
      | cons c t =>
        rw [ht] at h harr hobj hstr
        refine ⟨c, t, rfl, ?_⟩
        have hc : c ≠ '[' ∧ c ≠ '\x7b' ∧ c ≠ '"' := by
          refine ⟨?_, ?_, ?_⟩ <;> rintro rfl
          · exact harr t rfl
          · exact hobj t rfl
          · exact hstr t rfl
        exact Or.inr (Or.inr (Or.inr (Or.inr (Or.inr ⟨hc.1, hc.2.1, hc.2.2, h⟩))))
  · rintro ⟨c, t, ht, h⟩
    unfold value
    rw [ht]
    rcases h with ⟨rfl, hu, rfl⟩ | ⟨vs, rfl, hvs, rfl⟩ | ⟨rfl, hu, rfl⟩ | ⟨ms, rfl, hms, rfl⟩ |
      ⟨b, rfl, hb, rfl⟩ | ⟨harr, hobj, hstr, h⟩
    · simp [hu]
    · simp only
      split
      · rename_i u hu
        exact absurd hu (elements_ne_closing hvs u)
      · rw [hvs]
        rfl
    · simp [hu]
    · simp only
      split
      · rename_i u hu
        exact absurd hu (members_ne_closing hms u)
      · rw [hms]
        rfl
    · simp [hb]
    · split <;> simp_all

end

/-! ## Longer texts -/

theorem skipSpace_longer {s t : List Char} {c : Char} (h : skipSpace s = c :: t) (q : List Char) :
    skipSpace (s ++ q) = c :: (t ++ q) := by
  unfold skipSpace at h ⊢
  rw [List.dropWhile_append, h]
  rfl

theorem digits_longer {s ds r : List Char} (h : digits s = (ds, r)) (hr : r ≠ []) (q : List Char) :
    digits (s ++ q) = (ds, r ++ q) := by
  rw [digits, List.span_eq_takeWhile_dropWhile] at h ⊢
  obtain ⟨rfl, rfl⟩ := Prod.mk.inj h
  rw [List.dropWhile_append, if_neg (by simpa using hr), List.takeWhile_append, if_neg]
  intro hlen
  have hparts := List.takeWhile_append_dropWhile (p := Char.isDigit) (l := s)
  rw [(List.takeWhile_prefix _).eq_of_length hlen] at hparts
  exact hr (List.append_right_eq_self.mp hparts)

theorem intPart_longer {s r : List Char} {i : Nat} (h : intPart s = some (i, r)) (hr : r ≠ [])
    (q : List Char) : intPart (s ++ q) = some (i, r ++ q) := by
  unfold intPart at h ⊢
  split at h
  · cases h
  · cases h
  · rename_i ds t hne hzero heq
    obtain ⟨rfl, rfl⟩ := Prod.mk.inj (Option.some.inj h)
    rw [digits_longer heq hr]
    split
    · rename_i hp
      exact absurd (Prod.mk.inj hp).1 hne
    · rename_i c tl _ hp
      exact absurd (Prod.mk.inj hp).1 (hzero c tl)
    · rename_i hp
      obtain ⟨rfl, rfl⟩ := Prod.mk.inj hp
      rfl

theorem fracPart_longer {s r : List Char} {f : Rat} (h : fracPart s = some (f, r)) (hr : r ≠ [])
    (q : List Char) : fracPart (s ++ q) = some (f, r ++ q) := by
  cases s with
  | nil =>
    obtain ⟨-, rfl⟩ := Prod.mk.inj (Option.some.inj h)
    exact absurd rfl hr
  | cons c s =>
    by_cases hc : c = '.'
    · subst hc
      rw [List.cons_append]
      simp only [fracPart] at h ⊢
      split at h
      · cases h
      · rename_i ds t hne heq
        obtain ⟨rfl, rfl⟩ := Prod.mk.inj (Option.some.inj h)
        rw [digits_longer heq hr]
        split
        · rename_i hp
          exact absurd (Prod.mk.inj hp).1 hne
        · rename_i hp
          obtain ⟨rfl, rfl⟩ := Prod.mk.inj hp
          rfl
    · rw [fracPart_skip (by simpa using hc)] at h
      obtain ⟨rfl, rfl⟩ := Prod.mk.inj (Option.some.inj h)
      exact fracPart_skip (by simpa using hc)

theorem sign_cons (c : Char) (s q : List Char) :
    sign (c :: s ++ q) = ((sign (c :: s)).1, (sign (c :: s)).2 ++ q) := by
  by_cases hplus : c = '+'
  · subst hplus
    rfl
  · by_cases hminus : c = '-'
    · subst hminus
      rfl
    · rw [List.cons_append]
      simp [sign, hplus, hminus]

/-- The digits of an exponent, behind its sign. -/
theorem exponent_longer {s r : List Char} {e : Int} {neg : Bool}
    (h : (match digits s with
      | ([], _) => none
      | (ds, s) => some (if neg then -(Decimal.toNat ds : Int) else Decimal.toNat ds, s)) =
        some (e, r)) (hr : r ≠ []) (q : List Char) :
    (match digits (s ++ q) with
      | ([], _) => none
      | (ds, s) => some (if neg then -(Decimal.toNat ds : Int) else Decimal.toNat ds, s)) =
        some (e, r ++ q) := by
  split at h
  · cases h
  · rename_i ds t hne heq
    obtain ⟨rfl, rfl⟩ := Prod.mk.inj (Option.some.inj h)
    rw [digits_longer heq hr]
    split
    · rename_i hp
      exact absurd (Prod.mk.inj hp).1 hne
    · rename_i hp
      obtain ⟨rfl, rfl⟩ := Prod.mk.inj hp
      rfl

theorem expPart_longer {s r : List Char} {e : Int} (h : expPart s = some (e, r)) (hr : r ≠ [])
    (q : List Char) : expPart (s ++ q) = some (e, r ++ q) := by
  cases s with
  | nil =>
    obtain ⟨-, rfl⟩ := Prod.mk.inj (Option.some.inj h)
    exact absurd rfl hr
  | cons c s =>
    unfold expPart at h ⊢
    rw [List.cons_append]
    by_cases hc : (c :: s).head? = some 'e' ∨ (c :: s).head? = some 'E'
    · have hq : (c :: (s ++ q)).head? = some 'e' ∨ (c :: (s ++ q)).head? = some 'E' := hc
      rw [if_pos hc] at h
      rw [if_pos hq]
      cases s with
      | nil => simp [sign, digits, List.span_eq_takeWhile_dropWhile] at h
      | cons d s =>
        rw [List.tail_cons, sign_cons]
        exact exponent_longer h hr q
    · have hq : ¬ ((c :: (s ++ q)).head? = some 'e' ∨ (c :: (s ++ q)).head? = some 'E') := hc
      rw [if_neg hc] at h
      rw [if_neg hq]
      obtain ⟨rfl, rfl⟩ := Prod.mk.inj (Option.some.inj h)
      rfl

theorem magnitude_longer {s r : List Char} {x : Rat} (h : magnitude s = some (x, r)) (hr : r ≠ [])
    (q : List Char) : magnitude (s ++ q) = some (x, r ++ q) := by
  unfold magnitude at h ⊢
  split at h
  · cases h
  · rename_i i s₁ hi
    split at h
    · cases h
    · rename_i f s₂ hf
      split at h
      · cases h
      · rename_i e s₃ he
        obtain ⟨rfl, rfl⟩ := Prod.mk.inj (Option.some.inj h)
        -- something is left after each part, as nothing is left of nothing
        have hs₂ : s₂ ≠ [] := by
          rintro rfl
          obtain ⟨-, rfl⟩ := Prod.mk.inj (Option.some.inj he)
          exact hr rfl
        have hs₁ : s₁ ≠ [] := by
          rintro rfl
          obtain ⟨-, rfl⟩ := Prod.mk.inj (Option.some.inj hf)
          exact hs₂ rfl
        rw [intPart_longer hi hs₁ q]
        simp only [fracPart_longer hf hs₂ q, expPart_longer he hr q]

theorem magnitude_nil : magnitude [] = none := by
  simp [magnitude, intPart, digits, List.span_eq_takeWhile_dropWhile]

theorem number_longer {s r : List Char} {v : Value} (h : number s = some (v, r)) (hr : r ≠ [])
    (q : List Char) : number (s ++ q) = some (v, r ++ q) := by
  cases s with
  | nil => simp [number, magnitude_nil] at h
  | cons c s =>
    by_cases hc : c = '-'
    · subst hc
      obtain ⟨⟨x, t⟩, hx, hp⟩ := Option.map_eq_some_iff.mp h
      obtain ⟨rfl, rfl⟩ := Prod.mk.inj hp
      rw [List.cons_append, number, magnitude_longer hx hr]
      rfl
    · have hnumber : ∀ u, number (c :: u) =
          (magnitude (c :: u)).map fun p => (Value.num p.1, p.2) := by
        intro u
        simp [number, hc]
      rw [hnumber] at h
      obtain ⟨⟨x, t⟩, hx, hp⟩ := Option.map_eq_some_iff.mp h
      obtain ⟨rfl, rfl⟩ := Prod.mk.inj hp
      rw [List.cons_append, hnumber, ← List.cons_append, magnitude_longer hx hr]
      rfl

/-- A number starts with a minus sign or with a digit. -/
theorem number_head {s : List Char} {p : Value × List Char} (h : number s = some p) :
    ∃ c t, s = c :: t ∧ (c = '-' ∨ c.isDigit = true) := by
  cases s with
  | nil => simp [number, magnitude_nil] at h
  | cons c t =>
    refine ⟨c, t, rfl, ?_⟩
    by_contra hnot
    push Not at hnot
    simp [number, hnot.1, magnitude, intPart, digits, List.span_eq_takeWhile_dropWhile,
      hnot.2] at h

theorem number_num {s r : List Char} {v : Value} (h : number s = some (v, r)) :
    ∃ x, v = .num x := by
  unfold number at h
  split at h <;>
  · obtain ⟨⟨x, t⟩, -, hp⟩ := Option.map_eq_some_iff.mp h
    exact ⟨_, (Prod.mk.inj hp).1.symm⟩

theorem literals_number {c : Char} (hc : c = '-' ∨ c.isDigit = true) (t : List Char) :
    literals.find? (fun l => l.1.isPrefixOf (c :: t)) = none := by
  have hne : c ≠ 'n' ∧ c ≠ 't' ∧ c ≠ 'f' := by
    refine ⟨?_, ?_, ?_⟩ <;> rintro rfl <;> revert hc <;> decide
  simp [literals, Ne.symm hne.1, Ne.symm hne.2.1, Ne.symm hne.2.2]

theorem scalar_longer {s r : List Char} {v : Value} (h : scalar s = some (v, r))
    (hr : r = [] → ∀ x, v ≠ .num x) (q : List Char) : scalar (s ++ q) = some (v, r ++ q) := by
  unfold scalar at h
  split at h
  · rename_i l hl
    obtain ⟨rfl, rfl⟩ := Prod.mk.inj (Option.some.inj h)
    obtain ⟨t, rfl⟩ := List.isPrefixOf_iff_prefix.mp
      (List.find?_some (p := fun l : List Char × Value => l.1.isPrefixOf s) hl)
    have hmem := List.mem_of_find?_eq_some hl
    simp only [literals, List.mem_cons, List.not_mem_nil, or_false] at hmem
    rcases hmem with rfl | rfl | rfl <;> simp [scalar, literals]
  · have hne : r ≠ [] := by
      intro hnil
      obtain ⟨x, hx⟩ := number_num h
      exact hr hnil x hx
    obtain ⟨c, t, rfl, hc⟩ := number_head h
    rw [scalar, List.cons_append, literals_number hc]
    exact number_longer h hne q

theorem stringBody_longer {s b r : List Char} (h : stringBody s = some (b, r)) (q : List Char) :
    stringBody (s ++ q) = some (b, r ++ q) := by
  -- one more character in front of what the tail of the text gives
  have hcons {s : List Char} (ih : ∀ {b}, stringBody s = some (b, r) →
      stringBody (s ++ q) = some (b, r ++ q)) (e : Char) {b : List Char}
      (h : (stringBody s).map (fun p => (e :: p.1, p.2)) = some (b, r)) :
      (stringBody (s ++ q)).map (fun p => (e :: p.1, p.2)) = some (b, r ++ q) := by
    obtain ⟨⟨b', r'⟩, hb, hp⟩ := Option.map_eq_some_iff.mp h
    obtain ⟨rfl, rfl⟩ := Prod.mk.inj hp
    rw [ih hb]
    rfl
  fun_induction stringBody s generalizing b with
  | case1 => cases h
  | case2 s =>
    obtain ⟨rfl, rfl⟩ := Prod.mk.inj (Option.some.inj h)
    rfl
  | case3 a b c d s x y z w hd hc hb ha ih =>
    simp only [List.cons_append, stringBody, ha, hb, hc, hd]
    exact hcons ih _ h
  | case4 => cases h
  | case5 c s hu e he ih =>
    have hc : c ≠ 'u' := by
      rintro rfl
      simp [escape] at he
    simp only [List.cons_append]
    rw [stringBody]
    · simp only [he]
      exact hcons ih e h
    · exact fun a b c d t hcu _ => hc hcu
  | case6 => cases h
  | case7 => cases h
  | case8 c s hquote hunicode hescape hprint ih =>
    rw [List.cons_append, stringBody]
    · rw [if_neg hprint]
      exact hcons ih c h
    · exact hquote
    · exact fun a b d e t hc _ => hprint (Or.inr hc)
    · exact fun d t hc _ => hprint (Or.inr hc)

/-! ## The whole decoder -/

/-- What is read of a text, with any budget, is read of every longer one with any
budget that is not smaller; a number has to be ended by what follows it. -/
theorem value_longer (n : Nat) :
    (∀ s v r, value n s = some (v, r) → (r = [] → ∀ x, v ≠ .num x) →
      ∀ m, n ≤ m → ∀ q, value m (s ++ q) = some (v, r ++ q)) ∧
    (∀ s vs r, elements n s = some (vs, r) →
      ∀ m, n ≤ m → ∀ q, elements m (s ++ q) = some (vs, r ++ q)) ∧
    (∀ s ms r, members n s = some (ms, r) →
      ∀ m, n ≤ m → ∀ q, members m (s ++ q) = some (ms, r ++ q)) := by
  induction n with
  | zero =>
    refine ⟨?_, ?_, ?_⟩ <;> intro s v r h
    · simp [value] at h
    · simp [elements] at h
    · simp [members] at h
  | succ n ih =>
    obtain ⟨ihvalue, ihelements, ihmembers⟩ := ih
    -- a value in front of a separator or a bracket is ended by it
    have hended {s v t} {d : Char} {u : List Char} (hv : value n s = some (v, t))
        (ht : skipSpace t = d :: u) (m : Nat) (hm : n ≤ m) (q : List Char) :
        value m (s ++ q) = some (v, t ++ q) := by
      apply ihvalue s v t hv _ m hm q
      rintro rfl
      cases ht
    refine ⟨?_, ?_, ?_⟩ <;> intro s v r h
    · intro hnum m hm q
      obtain ⟨m, rfl⟩ := Nat.exists_eq_add_of_le' (show 1 ≤ m by omega)
      obtain ⟨c, t, ht, h⟩ := value_succ.mp h
      refine value_succ.mpr ⟨c, t ++ q, skipSpace_longer ht q, ?_⟩
      rcases h with ⟨hc, hu, hv⟩ | ⟨vs, hc, hvs, hv⟩ | ⟨hc, hu, hv⟩ | ⟨ms, hc, hms, hv⟩ |
        ⟨b, hc, hb, hv⟩ | ⟨harr, hobj, hstr, h⟩
      · exact Or.inl ⟨hc, skipSpace_longer hu q, hv⟩
      · exact Or.inr (Or.inl ⟨vs, hc, ihelements t vs r hvs m (by omega) q, hv⟩)
      · exact Or.inr (Or.inr (Or.inl ⟨hc, skipSpace_longer hu q, hv⟩))
      · exact Or.inr (Or.inr (Or.inr (Or.inl ⟨ms, hc, ihmembers t ms r hms m (by omega) q, hv⟩)))
      · exact Or.inr (Or.inr (Or.inr (Or.inr (Or.inl ⟨b, hc, stringBody_longer hb q, hv⟩))))
      · have hs := scalar_longer h hnum q
        exact Or.inr (Or.inr (Or.inr (Or.inr (Or.inr ⟨harr, hobj, hstr, hs⟩))))
    · intro m hm q
      obtain ⟨m, rfl⟩ := Nat.exists_eq_add_of_le' (show 1 ≤ m by omega)
      obtain ⟨w, t, hw, h⟩ := elements_succ.mp h
      rcases h with ⟨u, us, hu, hus, hv⟩ | ⟨ht, hv⟩
      · exact elements_succ.mpr ⟨w, t ++ q, hended hw hu m (by omega) q,
          Or.inl ⟨u ++ q, us, skipSpace_longer hu q, ihelements u us r hus m (by omega) q, hv⟩⟩
      · exact elements_succ.mpr ⟨w, t ++ q, hended hw ht m (by omega) q,
          Or.inr ⟨skipSpace_longer ht q, hv⟩⟩
    · intro m hm q
      obtain ⟨m, rfl⟩ := Nat.exists_eq_add_of_le' (show 1 ≤ m by omega)
      obtain ⟨s₁, key, s₂, s₃, w, t, hs₁, hkey, hs₃, hw, h⟩ := members_succ.mp h
      obtain ⟨d, u, hd⟩ : ∃ d u, skipSpace t = d :: u := by
        rcases h with ⟨u, us, hu, -, -⟩ | ⟨ht, -⟩
        · exact ⟨_, _, hu⟩
        · exact ⟨_, _, ht⟩
      refine members_succ.mpr ⟨s₁ ++ q, key, s₂ ++ q, s₃ ++ q, w, t ++ q, skipSpace_longer hs₁ q,
        stringBody_longer hkey q, skipSpace_longer hs₃ q, hended hw hd m (by omega) q, ?_⟩
      rcases h with ⟨u, us, hu, hus, hv⟩ | ⟨ht, hv⟩
      · exact Or.inl ⟨u ++ q, us, skipSpace_longer hu q, ihmembers u us r hus m (by omega) q, hv⟩
      · exact Or.inr ⟨skipSpace_longer ht q, hv⟩

section
variable {p q t u rest r : List Char} {v w : Value} {k n : Nat}

theorem decode_longer (h : decode p = some v) (hnum : ∀ x, v ≠ .num x) (q : List Char) :
    ∃ n r, ∀ m, n ≤ m → value m (p ++ q) = some (v, r ++ q) := by
  rw [decode] at h
  split at h
  · rename_i v' r hvalue
    obtain ⟨-, rfl⟩ : skipSpace r = [] ∧ v' = v := by
      split at h
      · rename_i hr
        exact ⟨hr, Option.some.inj h⟩
      · cases h
    refine ⟨2 * p.length + 2, r, ?_⟩
    intro m hm
    exact (value_longer _).1 p v' r hvalue (fun _ => hnum) m hm q
  · cases h

/-- **No proper beginning of a text is well formed**, unless it is a number's. -/
theorem decode_of_isPrefix (h : decode p = some v) (hnum : ∀ x, v ≠ .num x)
    (ht : Parses (p ++ q) w k) : q = [] ∧ v = w := by
  obtain ⟨n, r, hlong⟩ := decode_longer h hnum q
  have hv := hlong (n + k) (by omega)
  have hw := ht (n + k) [] (by omega) stops_nil
  rw [List.append_nil, hv] at hw
  obtain ⟨rfl, hrest⟩ := Prod.mk.inj (Option.some.inj hw)
  exact ⟨(List.append_eq_nil_iff.mp hrest).2, rfl⟩

/-- A value in front of a text that ends it is the only one read there. -/
theorem Parses.eq_of_value (h : Parses t v k) (hrest : Stops rest)
    (hvalue : value n (t ++ rest) = some (w, r)) (hr : r ≠ []) : w = v ∧ r = rest := by
  have hw := (value_longer n).1 (t ++ rest) w r hvalue (fun hnil => absurd hnil hr)
    (n + k) (by omega) []
  rw [List.append_nil, List.append_nil, h (n + k) rest (by omega) hrest] at hw
  obtain ⟨rfl, rfl⟩ := Prod.mk.inj (Option.some.inj hw)
  exact ⟨rfl, rfl⟩

end

/-! ## Texts no value is read of -/

def Blocked (t : List Char) : Prop := ∀ n, value n t = none

def BlockedElements (t : List Char) : Prop := ∀ n, elements n t = none

def BlockedMembers (t : List Char) : Prop := ∀ n, members n t = none

section
variable {p key sp t u : List Char} {v : Value} {k : Nat}

/-- A text that breaks off in front of nothing readable, or goes on with it. -/
theorem decode_of_blocked {q : List Char} (h : Blocked (p ++ q)) (hnum : ∀ x, v ≠ .num x) :
    decode p ≠ some v := by
  intro hv
  obtain ⟨n, r, hlong⟩ := decode_longer hv hnum q
  have hn := hlong n (Nat.le_refl n)
  rw [h n] at hn
  cases hn

theorem blocked_closing (t : List Char) : Blocked (']' :: t) := fun _ => value_closing rfl

/-- `inf`, `nan` and the like: no literal, and no number. -/
theorem blocked_scalar {c : Char} (hspace : isSpace c = false)
    (hc : c ≠ '[' ∧ c ≠ '\x7b' ∧ c ≠ '"') (h : scalar (c :: t) = none) : Blocked (c :: t) := by
  intro n
  cases n with
  | zero => rfl
  | succ n =>
    cases hvalue : value (n + 1) (c :: t) with
    | none => rfl
    | some p =>
      obtain ⟨v, r⟩ := p
      have hskip : skipSpace (c :: t) = c :: t := by simp [skipSpace, hspace]
      obtain ⟨d, u, hd, hcases⟩ := value_succ.mp hvalue
      obtain ⟨rfl, rfl⟩ := List.cons.inj (hskip.symm.trans hd)
      simp [hc, h] at hcases

theorem Blocked.elements (h : Blocked t) : BlockedElements t := by
  intro n
  cases n with
  | zero => rfl
  | succ n => rw [Json.elements, h n]

theorem blockedElements_cons (hsp : Spaces sp) (hv : Parses t v k) (hu : BlockedElements u) :
    BlockedElements (t ++ ',' :: (sp ++ u)) := by
  intro n
  cases n with
  | zero => rfl
  | succ n =>
    cases helements : Json.elements (n + 1) (t ++ ',' :: (sp ++ u)) with
    | none => rfl
    | some p =>
      obtain ⟨vs, rest⟩ := p
      obtain ⟨w, r, hw, h⟩ := elements_succ.mp helements
      have hr : r ≠ [] := by
        rintro rfl
        rcases h with ⟨_, _, h, -⟩ | ⟨h, -⟩ <;> cases h
      obtain ⟨-, rfl⟩ := hv.eq_of_value (stops_cons (by decide) _) hw hr
      have hcomma : skipSpace (',' :: (sp ++ u)) = ',' :: (sp ++ u) := rfl
      rw [hcomma] at h
      rcases h with ⟨s, us, hs, hus, -⟩ | ⟨hclose, -⟩
      · obtain ⟨-, rfl⟩ := List.cons.inj hs
        rw [elements_spaces hsp, hu n] at hus
        cases hus
      · cases hclose

/-- Of elements that are read or are blocked, one is blocked. -/
theorem blockedElements_intercalate {ts : List (List Char)}
    (h : ∀ t ∈ ts, (∃ v, Parses t v k) ∨ ∀ rest, Blocked (t ++ rest))
    (hblocked : ∃ t ∈ ts, ∀ rest, Blocked (t ++ rest)) (rest : List Char) :
    BlockedElements ([','].intercalate ts ++ rest) := by
  induction ts with
  | nil =>
    obtain ⟨t, ht, -⟩ := hblocked
    cases ht
  | cons t ts ih =>
    cases ts with
    | nil =>
      obtain ⟨u, hu, hblocked⟩ := hblocked
      obtain rfl := List.mem_singleton.mp hu
      rw [intercalate_singleton]
      exact (hblocked rest).elements
    | cons u ts =>
      rw [intercalate_cons_cons, List.append_assoc, List.cons_append]
      rcases h t List.mem_cons_self with ⟨v, hv⟩ | hv
      · obtain ⟨w, hw, hblocked⟩ := hblocked
        rcases List.mem_cons.mp hw with rfl | hw
        · exact (hblocked _).elements
        · have ih := ih (fun x hx => h x (List.mem_cons_of_mem t hx)) ⟨w, hw, hblocked⟩
          have hcons := blockedElements_cons spaces_nil hv ih
          rwa [List.nil_append] at hcons
      · exact (hv _).elements

theorem blocked_arr (hsp : Spaces sp) (hopen : ∀ u, skipSpace t ≠ ']' :: u)
    (h : BlockedElements t) : Blocked ('[' :: (sp ++ t)) := by
  intro n
  cases n with
  | zero => rfl
  | succ n =>
    cases hvalue : value (n + 1) ('[' :: (sp ++ t)) with
    | none => rfl
    | some p =>
      obtain ⟨v, r⟩ := p
      obtain ⟨c, u, hc, hcases⟩ := value_succ.mp hvalue
      obtain ⟨rfl, rfl⟩ : '[' = c ∧ sp ++ t = u := List.cons.inj hc
      simp [skipSpace_append hsp, hopen, elements_spaces hsp, h n] at hcases

theorem blocked_obj (hsp : Spaces sp) (h : BlockedMembers ('"' :: t)) :
    Blocked ('\x7b' :: (sp ++ '"' :: t)) := by
  intro n
  cases n with
  | zero => rfl
  | succ n =>
    cases hvalue : value (n + 1) ('\x7b' :: (sp ++ '"' :: t)) with
    | none => rfl
    | some p =>
      obtain ⟨v, r⟩ := p
      obtain ⟨c, u, hc, hcases⟩ := value_succ.mp hvalue
      obtain ⟨rfl, rfl⟩ : '\x7b' = c ∧ sp ++ '"' :: t = u := List.cons.inj hc
      have hquote : skipSpace ('"' :: t) = '"' :: t := rfl
      simp [skipSpace_append hsp, hquote, members_spaces hsp, h n] at hcases

theorem blockedMembers_value (hkey : Plain key) (hsp : Spaces sp) (ht : Blocked t) :
    BlockedMembers (member key sp t) := by
  intro n
  cases n with
  | zero => rfl
  | succ n => rw [members_member hkey hsp, ht n]

theorem blockedMembers_cons (hkey : Plain key) (hsp : Spaces sp) {sp' : List Char}
    (hsp' : Spaces sp') (hv : Parses t v k) (hu : BlockedMembers u) :
    BlockedMembers (member key sp (t ++ ',' :: (sp' ++ u))) := by
  intro n
  cases n with
  | zero => rfl
  | succ n =>
    rw [members_member hkey hsp]
    cases hw : value n (t ++ ',' :: (sp' ++ u)) with
    | none => rfl
    | some p =>
      obtain ⟨w, r⟩ := p
      by_cases hr : r = []
      · subst hr
        rfl
      · obtain ⟨-, rfl⟩ := hv.eq_of_value (stops_cons (by decide) _) hw hr
        have hcomma : skipSpace (',' :: (sp' ++ u)) = ',' :: (sp' ++ u) := rfl
        simp only [hcomma, members_spaces hsp', hu n, Option.map_none]

end

end Json
