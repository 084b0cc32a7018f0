import VzLogger.Lib.CString

/-! # Tokens by their place

`CString.tokens` gives the texts that successive calls of `strsep` return.  Here is
one call on the characters of memory, where there may be no end of the string: it has
a token by its place, and the next cursor, and no result if it runs out of the memory.
That a call puts an end on the delimiter it stops at is left out, as no later one
looks at it.
-/
namespace Strsep
open CString

/-- A token: its first character, and the one behind its last. -/
structure Token where
  start : Nat
  stop : Nat
  deriving DecidableEq, Repr

def Token.text (line : List Char) (tok : Token) : List Char :=
  (line.drop tok.start).take (tok.stop - tok.start)

/-- The length of the token at the start, and whether the string ends with it. -/
def scan (delim : List Char) : List Char → Option (Nat × Bool)
  | [] => none
  | c :: s =>
    if c = '\x00' then some (0, true)
    else if c ∈ delim then some (0, false)
    else (scan delim s).map fun (len, last) => (len + 1, last)

/-- `strsep(&cursor, delim)`. -/
def strsep (delim line : List Char) : Option Nat → Option (Option Token × Option Nat)
  | none => some (none, none)
  | some p =>
    (scan delim (line.drop p)).map fun (len, last) =>
      (some ⟨p, p + len⟩, if last then none else some (p + len + 1))

/-- Calls from a cursor on return these tokens, and then `NULL`. -/
inductive Pops (delim line : List Char) : Option Nat → List Token → Prop
  | nil : Pops delim line none []
  | cons {p : Nat} {tok : Token} {next : Option Nat} {toks : List Token}
      (h : strsep delim line (some p) = some (some tok, next)) (hnext : Pops delim line next toks) :
      Pops delim line (some p) (tok :: toks)

variable {delim line : List Char}

theorem cStr_cons {c : Char} (h : c ≠ '\x00') (s : List Char) : cStr (c :: s) = c :: cStr s := by
  simp [cStr, h]

theorem cStr_nul (s : List Char) : cStr ('\x00' :: s) = [] := by
  simp [cStr]

theorem tokens_cons (c : Char) (s : List Char) :
    tokens delim (c :: s) =
      if c ∈ delim then [] :: tokens delim s else (tokens delim s).modifyHead (List.cons c) := by
  simp [tokens, List.splitOnP_cons_eq_if_modifyHead]

theorem length_tokens (s : List Char) : (tokens delim s).length = s.countP (· ∈ delim) + 1 := by
  induction s with
  | nil => rfl
  | cons c s ih =>
    rw [tokens_cons]
    by_cases h : c ∈ delim
    · rw [if_pos h, List.length_cons, ih, List.countP_cons_of_pos (by simpa using h)]
    · rw [if_neg h, List.length_modifyHead, ih, List.countP_cons_of_neg (by simpa using h)]

/-- There is a result wherever there is an end. -/
theorem scan_isSome (delim : List Char) {s : List Char} (h : '\x00' ∈ s) : (scan delim s).isSome := by
  induction s with
  | nil => simp at h
  | cons c s ih =>
    rw [scan]
    split
    · rfl
    · rename_i hc
      split
      · rfl
      · rw [Option.isSome_map]
        exact ih ((List.mem_cons.mp h).resolve_left (Ne.symm hc))

/-- The last token is the rest of the string. -/
theorem scan_last {s : List Char} {len : Nat} (h : scan delim s = some (len, true)) :
    '\x00' ∈ s ∧ (cStr s).length = len ∧ tokens delim (cStr s) = [s.take len] := by
  induction s generalizing len with
  | nil => cases h
  | cons c s ih =>
    rw [scan] at h
    split at h
    · rename_i hc
      obtain ⟨rfl, -⟩ := Prod.mk.inj (Option.some.inj h)
      subst hc
      rw [cStr_nul]
      exact ⟨List.mem_cons_self, rfl, rfl⟩
    · rename_i hc
      split at h
      · cases h
      · rename_i hdelim
        obtain ⟨⟨len', last⟩, hscan, hpair⟩ := Option.map_eq_some_iff.mp h
        obtain ⟨rfl, rfl⟩ := Prod.mk.inj hpair
        obtain ⟨hmem, hlen, htokens⟩ := ih hscan
        refine ⟨List.mem_cons_of_mem _ hmem, ?_, ?_⟩
        · rw [cStr_cons hc, List.length_cons, hlen]
        · rw [cStr_cons hc, tokens_cons, if_neg hdelim, htokens]
          rfl

/-- Any other token ends at a delimiter, and the string goes on behind it. -/
theorem scan_delim {s : List Char} {len : Nat} (h : scan delim s = some (len, false)) :
    ('\x00' ∈ s ↔ '\x00' ∈ s.drop (len + 1)) ∧
      (cStr s).length = len + 1 + (cStr (s.drop (len + 1))).length ∧
      tokens delim (cStr s) = s.take len :: tokens delim (cStr (s.drop (len + 1))) := by
  induction s generalizing len with
  | nil => cases h
  | cons c s ih =>
    rw [scan] at h
    split at h
    · cases h
    · rename_i hc
      split at h
      · rename_i hdelim
        obtain ⟨rfl, -⟩ := Prod.mk.inj (Option.some.inj h)
        refine ⟨by simp [Ne.symm hc], ?_, ?_⟩
        · rw [cStr_cons hc, List.length_cons]
          simp only [List.drop_succ_cons, List.drop_zero]
          omega
        · rw [cStr_cons hc, tokens_cons, if_pos hdelim]
          rfl
      · rename_i hdelim
        obtain ⟨⟨len', last⟩, hscan, hpair⟩ := Option.map_eq_some_iff.mp h
        obtain ⟨rfl, rfl⟩ := Prod.mk.inj hpair
        obtain ⟨hmem, hlen, htokens⟩ := ih hscan
        refine ⟨by simpa [Ne.symm hc] using hmem, ?_, ?_⟩
        · rw [cStr_cons hc, List.length_cons, hlen, List.drop_succ_cons]
          omega
        · rw [cStr_cons hc, tokens_cons, if_neg hdelim, htokens]
          rfl

/-- **What the calls return**: the tokens of the string that starts at the cursor,
which has an end, and the last of them ends there. -/
theorem Pops.spec {p : Nat} {toks : List Token} (h : Pops delim line (some p) toks) :
    '\x00' ∈ line.drop p ∧ toks.map (Token.text line) = tokens delim (cStr (line.drop p)) ∧
      ∀ k, (∀ tok ∈ toks, tok.stop ≤ k) ↔ p + (cStr (line.drop p)).length ≤ k := by
  generalize hcursor : some p = cursor at h
  induction h generalizing p with
  | nil => cases hcursor
  | @cons q tok next toks hsep hnext ih =>
    obtain rfl := Option.some.inj hcursor
    obtain ⟨⟨len, last⟩, hscan, hpair⟩ := Option.map_eq_some_iff.mp hsep
    obtain ⟨htok, hcursor⟩ := Prod.mk.inj hpair
    obtain rfl := Option.some.inj htok
    have htext : Token.text line ⟨p, p + len⟩ = (line.drop p).take len := by
      rw [Token.text, Nat.add_sub_cancel_left]
    cases last with
    | true =>
      obtain rfl : none = next := hcursor
      obtain ⟨hmem, hlen, htokens⟩ := scan_last hscan
      cases hnext
      refine ⟨hmem, ?_, ?_⟩
      · rw [List.map_singleton, htext, htokens]
      · intro k
        simp [hlen]
    | false =>
      obtain ⟨hmem, hlen, htokens⟩ := scan_delim hscan
      have hdrop : (line.drop p).drop (len + 1) = line.drop (p + len + 1) := by
        rw [List.drop_drop, Nat.add_assoc]
      rw [hdrop] at hmem hlen htokens
      obtain ⟨hmem', htokens', hstop'⟩ := ih hcursor
      refine ⟨hmem.mpr hmem', ?_, ?_⟩
      · rw [List.map_cons, htext, htokens, htokens']
      · intro k
        rw [List.forall_mem_cons, hstop' k]
        simp only
        omega

theorem exists_pops {p : Nat} (h : '\x00' ∈ line.drop p) :
    ∃ toks, Pops delim line (some p) toks := by
  induction hlen : (line.drop p).length using Nat.strongRecOn generalizing p with
  | ind n ih =>
    obtain ⟨⟨len, last⟩, hscan⟩ := Option.isSome_iff_exists.mp (scan_isSome delim h)
    have hsep : strsep delim line (some p) =
        some (some ⟨p, p + len⟩, if last then none else some (p + len + 1)) := by
      rw [strsep, hscan]
      rfl
    cases last with
    | true => exact ⟨_, .cons hsep .nil⟩
    | false =>
      obtain ⟨hmem, -, -⟩ := scan_delim hscan
      rw [List.drop_drop, ← Nat.add_assoc] at hmem
      have hnext := hmem.mp h
      have hshort : (line.drop (p + len + 1)).length < n := by
        have hpos := List.length_pos_of_mem h
        simp only [List.length_drop] at hlen hpos ⊢
        omega
      obtain ⟨toks, htoks⟩ := ih _ hshort hnext rfl
      exact ⟨_, .cons hsep htoks⟩

end Strsep
