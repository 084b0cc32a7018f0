import VzLogger.Lib.CBuffer
import VzLogger.Lib.Loop

/-! # The formats of file and exec meters

A format is written with `$v`, `$i` and `$t` for the value, the identifier and the
time.  The constructors of both meters make a format for `scanf` of it, each with its
own copy of one loop, in a buffer that has room for fifteen characters more.
-/
namespace VzLogger.ScanfFormat
open CString

/-- The option `format`, a C string. -/
structure Format where
  chars : List Char
  noNul : '\x00' ∉ chars

/-- `config_format[i]`, up to the end of the string. -/
def Format.at (format : Format) (i : Nat) : Char := format.chars.getD i '\x00'

/-- The conversion that a token stands for, by its letter. -/
def conversion : Char → Option (List Char)
  | 'v' => some "%1$lf".toList
  | 'i' => some "%2$ms".toList
  | 't' => some "%3$lf".toList
  | _ => none

/-- `scanf_format`, with the index in it and that in the option. -/
structure State (n : Nat) where
  i : Nat
  j : Nat
  buf : Vector Char n

/-- `while (i <= config_len && j <= scanf_len)`. -/
def goesOn (configLen scanfLen : Int) {n : Nat} (s : State n) : Bool :=
  s.i ≤ configLen && s.j ≤ scanfLen

/-- One round: a token, a character to escape, or one to copy, the end of the string
among them. -/
def round (format : Format) (configLen : Int) {n : Nat} (s : State n) : Option (State n) :=
  let c := format.at s.i
  if c = '$' then
    if s.i + 1 < configLen then  -- introducing a token
      match conversion (format.at (s.i + 1)) with
      | some text =>
        (CBuffer.storeAll s.buf s.j (text ++ ['\x00'])).map fun buf =>
          ⟨s.i + 2, s.j + text.length, buf⟩
      | none => some { s with i := s.i + 2 }
    else some { s with i := s.i + 1 }
  else if c = '%' then  -- add double %% to escape a conversion identifier
    (CBuffer.storeAll s.buf s.j ['%', c]).map fun buf => ⟨s.i + 1, s.j + 2, buf⟩
  else
    (CBuffer.storeAll s.buf s.j [c]).map fun buf => ⟨s.i + 1, s.j + 1, buf⟩

/-- The loop, on a buffer with any contents.  There is none of a negative size. -/
def fill (fresh : (n : Nat) → Vector Char n) (format : Format) (configLen scanfLen : Int) :
    Option (List Char) :=
  if 0 ≤ scanfLen then
    (Loop.run (goesOn configLen scanfLen) (round format configLen) (configLen.toNat + 1)
      ⟨0, 0, fresh scanfLen.toNat⟩).map fun s => s.buf.toList
  else none

/-- The lengths are `int`s. -/
def compile (fresh : (n : Nat) → Vector Char n) (format : Format) : Option (List Char) :=
  let configLen := toInt format.chars.length
  let scanfLen := toInt (configLen + 15)  -- extra space for longer conversion specifications
  fill fresh format configLen scanfLen

/-- The format that `MeterFile::MeterFile` makes. -/
def meterFile (fresh : (n : Nat) → Vector Char n) (format : Format) : Option (List Char) :=
  compile fresh format

/-- The format that `MeterExec::MeterExec` makes. -/
def meterExec (fresh : (n : Nat) → Vector Char n) (format : Format) : Option (List Char) :=
  compile fresh format

/-! ## The translation -/

/-- Token by token, with every other character copied, twice if it is the mark of a
conversion. -/
def translate : List Char → List Char
  | [] => []
  | '$' :: c :: rest =>
    match conversion c with
    | some text => text ++ translate rest
    | none => '$' :: translate (c :: rest)
  | '%' :: rest => '%' :: '%' :: translate rest
  | c :: rest => c :: translate rest

/-- The buffer was made without a store outside it, and holds the translation as a C
string. -/
def Faithful (format : Format) (result : Option (List Char)) : Prop :=
  ∃ buf, result = some buf ∧ '\x00' ∈ buf ∧ cStr buf = translate format.chars

/-- Every `$` is followed by the letter of a token. -/
def OnlyTokens : List Char → Prop
  | [] => True
  | c :: rest => (c = '$' → (rest.head?.bind conversion).isSome) ∧ OnlyTokens rest

/-- A token takes three characters more than it has, and an escaped character one. -/
structure Fits (format : Format) : Prop where
  tokens : OnlyTokens format.chars
  room : 3 * format.chars.count '$' + format.chars.count '%' ≤ 14
  size : format.chars.length + 15 < 2 ^ 31

/-! ## What the loop writes -/

/-- What is written for the rest of a format: a `$` that starts no token goes, and the
character after it. -/
def written : List Char → List Char
  | [] => []
  | ['$'] => []
  | '$' :: c :: rest => (conversion c).getD [] ++ written rest
  | '%' :: rest => '%' :: '%' :: written rest
  | c :: rest => c :: written rest

/-- What there is to know of the letters of the tokens. -/
theorem conversion_some {c : Char} {text : List Char} (h : conversion c = some text) :
    text.length = 5 ∧ '\x00' ∉ text ∧ c ≠ '$' ∧ c ≠ '%' := by
  unfold conversion at h
  split at h
  · obtain rfl := Option.some.inj h
    decide
  · obtain rfl := Option.some.inj h
    decide
  · obtain rfl := Option.some.inj h
    decide
  · cases h

theorem written_copy {c : Char} (h : c ≠ '$') (h' : c ≠ '%') (rest : List Char) :
    written (c :: rest) = c :: written rest := by
  rw [written]
  · rintro rfl
    exact absurd rfl h
  · exact fun _ _ hc _ => h hc
  · exact h'

theorem translate_copy {c : Char} (h : c ≠ '$') (h' : c ≠ '%') (rest : List Char) :
    translate (c :: rest) = c :: translate rest := by
  rw [translate]
  · exact fun _ _ hc _ => h hc
  · exact h'

theorem written_dollar (c : Char) (rest : List Char) :
    written ('$' :: c :: rest) = (conversion c).getD [] ++ written rest := rfl

theorem translate_dollar (c : Char) (rest : List Char) :
    translate ('$' :: c :: rest) =
      match conversion c with
      | some text => text ++ translate rest
      | none => '$' :: translate (c :: rest) := rfl

theorem written_percent (rest : List Char) : written ('%' :: rest) = '%' :: '%' :: written rest :=
  rfl

theorem translate_percent (rest : List Char) :
    translate ('%' :: rest) = '%' :: '%' :: translate rest := rfl

theorem translate_token {c : Char} {text : List Char} (h : conversion c = some text)
    (rest : List Char) : translate ('$' :: c :: rest) = text ++ translate rest := by
  rw [translate_dollar, h]

theorem translate_unknown {c : Char} (h : conversion c = none) (rest : List Char) :
    translate ('$' :: c :: rest) = '$' :: translate (c :: rest) := by
  rw [translate_dollar, h]

/-- Induction by the rounds of the loop. -/
theorem format_induction {P : List Char → Prop} (nil : P []) (dollar : P ['$'])
    (token : ∀ c rest text, conversion c = some text → P rest → P ('$' :: c :: rest))
    (unknown : ∀ c rest, conversion c = none → P rest → P ('$' :: c :: rest))
    (percent : ∀ rest, P rest → P ('%' :: rest))
    (copy : ∀ c rest, c ≠ '$' → c ≠ '%' → P rest → P (c :: rest)) (chars : List Char) :
    P chars := by
  induction chars using written.induct with
  | case1 => exact nil
  | case2 => exact dollar
  | case3 c rest ih =>
    cases h : conversion c with
    | none => exact unknown c rest h ih
    | some text => exact token c rest text h ih
  | case4 rest ih => exact percent rest ih
  | case5 c rest hdollar hunknown hpercent ih =>
    refine copy c rest ?_ hpercent ih
    rintro rfl
    cases rest with
    | nil => exact hdollar rfl rfl
    | cons d rest => exact hunknown d rest rfl rfl

theorem written_token {c : Char} {text : List Char} (h : conversion c = some text)
    (rest : List Char) : written ('$' :: c :: rest) = text ++ written rest := by
  rw [written_dollar, h, Option.getD_some]

theorem written_unknown {c : Char} (h : conversion c = none) (rest : List Char) :
    written ('$' :: c :: rest) = written rest := by
  rw [written_dollar, h, Option.getD_none, List.nil_append]

/-- Every character counts in the translation. -/
theorem length_translate_cons (c : Char) (rest : List Char) :
    (translate rest).length + 1 ≤ (translate (c :: rest)).length := by
  by_cases hpercent : c = '%'
  · subst hpercent
    rw [translate_percent, List.length_cons, List.length_cons]
    omega
  by_cases hdollar : c = '$'
  · subst hdollar
    cases rest with
    | nil => decide
    | cons d rest =>
      cases h : conversion d with
      | none => rw [translate_unknown h, List.length_cons]
      | some text =>
        obtain ⟨hlen, -, hd, hd'⟩ := conversion_some h
        rw [translate_token h, translate_copy hd hd', List.length_append, List.length_cons, hlen]
        omega
  · rw [translate_copy hdollar hpercent, List.length_cons]

theorem length_le_translate (chars : List Char) : chars.length ≤ (translate chars).length := by
  induction chars with
  | nil => exact Nat.zero_le _
  | cons c rest ih =>
    have hcons := length_translate_cons c rest
    rw [List.length_cons]
    omega

theorem onlyTokens_token {c : Char} {text : List Char} (h : conversion c = some text)
    (rest : List Char) : OnlyTokens ('$' :: c :: rest) ↔ OnlyTokens rest := by
  obtain ⟨-, -, hc, -⟩ := conversion_some h
  simp [OnlyTokens, h, hc]

/-- What is written is the translation, or shorter. -/
theorem written_translate (chars : List Char) :
    (OnlyTokens chars → written chars = translate chars) ∧
      (¬OnlyTokens chars → (written chars).length < (translate chars).length) := by
  induction chars using format_induction with
  | nil => exact ⟨fun _ => rfl, fun h => absurd trivial h⟩
  | dollar => exact ⟨fun h => by simp [OnlyTokens] at h, fun _ => by decide⟩
  | token c rest text h ih =>
    rw [onlyTokens_token h, written_token h, translate_token h]
    constructor
    · intro htokens
      rw [ih.1 htokens]
    · intro htokens
      have hlt := ih.2 htokens
      simp only [List.length_append]
      omega
  | unknown c rest h ih =>
    have hnot : ¬OnlyTokens ('$' :: c :: rest) := by simp [OnlyTokens, h]
    refine ⟨fun htokens => absurd htokens hnot, fun _ => ?_⟩
    rw [written_unknown h, translate_unknown h, List.length_cons]
    have hcons := length_translate_cons c rest
    by_cases htokens : OnlyTokens rest
    · rw [ih.1 htokens]
      omega
    · have hlt := ih.2 htokens
      omega
  | percent rest ih =>
    rw [written_percent, translate_percent, OnlyTokens]
    simp only [List.length_cons]
    constructor
    · rintro ⟨-, htokens⟩
      rw [ih.1 htokens]
    · intro htokens
      have hlt := ih.2 fun h => htokens ⟨fun hc => absurd hc (by decide), h⟩
      omega
  | copy c rest hc hc' ih =>
    rw [written_copy hc hc', translate_copy hc hc', List.length_cons, List.length_cons]
    constructor
    · rintro ⟨-, htokens⟩
      rw [ih.1 htokens]
    · intro htokens
      have hlt := ih.2 fun h => htokens ⟨fun heq => absurd heq hc, h⟩
      omega

theorem written_eq_translate_iff (chars : List Char) :
    written chars = translate chars ↔ OnlyTokens chars := by
  obtain ⟨heq, hlt⟩ := written_translate chars
  refine ⟨fun h => ?_, heq⟩
  by_contra htokens
  have := hlt htokens
  rw [h] at this
  omega

theorem length_translate {chars : List Char} (h : OnlyTokens chars) :
    (translate chars).length = chars.length + 3 * chars.count '$' + chars.count '%' := by
  induction chars using format_induction with
  | nil => rfl
  | dollar => simp [OnlyTokens] at h
  | token c rest text hc ih =>
    obtain ⟨hlen, -, hd, hd'⟩ := conversion_some hc
    rw [onlyTokens_token hc] at h
    rw [translate_token hc, List.length_append, hlen, ih h]
    simp only [List.length_cons, List.count_cons, beq_iff_eq, hd, hd', if_false]
    simp
    omega
  | unknown c rest hc ih => simp [OnlyTokens, hc] at h
  | percent rest ih =>
    simp only [translate_percent, List.length_cons, ih h.2, List.count_cons]
    simp
    omega
  | copy c rest hc hc' ih =>
    rw [translate_copy hc hc', List.length_cons, ih h.2]
    simp only [List.length_cons, List.count_cons, beq_iff_eq, hc, hc', if_false]
    omega

theorem not_nul_mem_written {chars : List Char} (h : '\x00' ∉ chars) : '\x00' ∉ written chars := by
  induction chars using format_induction with
  | nil => exact h
  | dollar => exact List.not_mem_nil
  | token c rest text hc ih =>
    obtain ⟨-, hnul, -, -⟩ := conversion_some hc
    rw [written_token hc]
    simp_all
  | unknown c rest hc ih =>
    rw [written_unknown hc]
    simp_all
  | percent rest ih =>
    rw [written_percent]
    simp_all
  | copy c rest hc hc' ih =>
    rw [written_copy hc hc']
    simp_all

/-! ## The loop -/

section
variable {format : Format} {n : Nat}

/-- From a state, the loop appends what is still to write and the end of the string to
what the buffer starts with, if there is room for it, and otherwise leaves the buffer. -/
structure Appends (format : Format) (rounds : Nat) (s : State n) (out rest : List Char) :
    Prop where
  fits : out.length + rest.length + 1 ≤ n →
    ∃ t, Loop.run (goesOn format.chars.length n) (round format format.chars.length) rounds s =
      some t ∧ CBuffer.Starts t.buf (out ++ rest ++ ['\x00'])
  leaves : n < out.length + rest.length + 1 →
    Loop.run (goesOn format.chars.length n) (round format format.chars.length) rounds s = none

theorem goesOn_of_le {s : State n} {out : List Char} (hi : s.i ≤ format.chars.length)
    (hj : s.j = out.length) (hs : CBuffer.Starts s.buf out) :
    goesOn format.chars.length n s = true := by
  have hle := hs.length_le
  simp only [goesOn, Bool.and_eq_true, decide_eq_true_eq]
  omega

/-- A round that writes some characters, or none. -/
theorem Appends.of_round {rounds i : Nat} {s : State n} {out rest : List Char}
    (text extra : List Char)
    (hi : s.i ≤ format.chars.length) (hj : s.j = out.length) (hs : CBuffer.Starts s.buf out)
    (hround : round format format.chars.length s =
      (CBuffer.storeAll s.buf s.j (text ++ extra)).map fun buf => ⟨i, s.j + text.length, buf⟩)
    (hne : text ≠ []) (hextra : extra.length ≤ 1)
    (hnext : ∀ buf : Vector Char n, CBuffer.Starts buf (out ++ text) →
      Appends format rounds ⟨i, (out ++ text).length, buf⟩ (out ++ text) rest) :
    Appends format (rounds + 1) s out (text ++ rest) := by
  have hcond := goesOn_of_le hi hj hs
  rw [hj, ← List.length_append] at hround
  by_cases hroom : out.length + (text ++ extra).length ≤ n
  · obtain ⟨buf, hstore, hstarts⟩ := hs.storeAll hroom
    rw [hstore, Option.map_some] at hround
    rw [← List.append_assoc] at hstarts
    obtain ⟨hfits, hleaves⟩ := hnext buf hstarts.of_append
    constructor
    · intro hle
      obtain ⟨t, hrun, ht⟩ := hfits (by simp only [List.length_append] at hle ⊢; omega)
      refine ⟨t, ?_, ?_⟩
      · rw [Loop.run_succ hcond, hround]
        exact hrun
      · rwa [List.append_assoc out] at ht
    · intro hlt
      rw [Loop.run_succ hcond, hround]
      exact hleaves (by simp only [List.length_append] at hlt ⊢; omega)
  · have hnone : CBuffer.storeAll s.buf out.length (text ++ extra) = none :=
      CBuffer.storeAll_eq_none (by simp [hne]) (by omega) s.buf
    rw [hnone, Option.map_none] at hround
    constructor
    · intro hle
      simp only [List.length_append] at hle hroom
      omega
    · intro hlt
      rw [Loop.run_succ hcond, hround]
      rfl

theorem at_of_drop {i : Nat} {c : Char} {rest : List Char} (h : format.chars.drop i = c :: rest) :
    format.at i = c ∧ format.chars.drop (i + 1) = rest ∧ i + 1 + rest.length = format.chars.length := by
  have hlen := congrArg List.length h
  rw [List.length_drop, List.length_cons] at hlen
  refine ⟨?_, ?_, by omega⟩
  · rw [Format.at, List.getD_eq_getElem?_getD, ← List.head?_drop, h]
    rfl
  · rw [← List.drop_drop, h]
    rfl

/-- The end of the string is copied, and the loop is at its end. -/
theorem appends_nil {rounds : Nat} {s : State n} {out : List Char}
    (hi : s.i = format.chars.length) (hj : s.j = out.length) (hs : CBuffer.Starts s.buf out) :
    Appends format (rounds + 1) s out [] := by
  have hcond := goesOn_of_le hi.le hj hs
  have hat : format.at s.i = '\x00' := by simp [Format.at, hi]
  have hround : round format format.chars.length s =
      (CBuffer.storeAll s.buf out.length ['\x00']).map fun buf => ⟨s.i + 1, s.j + 1, buf⟩ := by
    simp [round, hat, hj]
  constructor
  · intro hle
    obtain ⟨buf, hstore, hstarts⟩ :=
      hs.storeAll (show out.length + ['\x00'].length ≤ n from hle)
    rw [hstore, Option.map_some] at hround
    refine ⟨⟨s.i + 1, s.j + 1, buf⟩, ?_, by rwa [List.append_nil]⟩
    rw [Loop.run_succ hcond, hround, Option.bind_some]
    apply Loop.run_of_not
    simp [goesOn, hi]
  · intro hlt
    rw [CBuffer.storeAll_eq_none (by simp) hlt] at hround
    rw [Loop.run_succ hcond, hround]
    rfl

/-- A round that only moves on in the option. -/
theorem Appends.of_skip {rounds i : Nat} {s : State n} {out rest : List Char}
    (hi : s.i ≤ format.chars.length) (hj : s.j = out.length) (hs : CBuffer.Starts s.buf out)
    (hround : round format format.chars.length s = some { s with i })
    (hnext : Appends format rounds { s with i } out rest) :
    Appends format (rounds + 1) s out rest := by
  have hcond := goesOn_of_le hi hj hs
  constructor
  · intro hle
    rw [Loop.run_succ hcond, hround]
    exact hnext.fits hle
  · intro hlt
    rw [Loop.run_succ hcond, hround]
    exact hnext.leaves hlt

/-- **The loop lemma.** -/
theorem appends_written (rest : List Char) {rounds : Nat} {s : State n} {out : List Char}
    (hrest : format.chars.drop s.i = rest) (hlen : s.i + rest.length = format.chars.length)
    (hrounds : rest.length ≤ rounds) (hj : s.j = out.length) (hs : CBuffer.Starts s.buf out) :
    Appends format (rounds + 1) s out (written rest) := by
  induction rest using format_induction generalizing rounds s out with
  | nil => exact appends_nil hlen hj hs
  | dollar =>
    obtain ⟨hat, hdrop, hend⟩ := at_of_drop hrest
    have hround : round format format.chars.length s = some { s with i := s.i + 1 } := by
      have hlast : ¬(s.i + 1 : Int) < format.chars.length := by
        rw [← hend]
        simp
      rw [round, hat, if_pos rfl, if_neg hlast]
    obtain ⟨rounds, rfl⟩ : ∃ k, rounds = k + 1 := ⟨rounds - 1, by simp at hrounds; omega⟩
    exact .of_skip (by omega) hj hs hround (appends_nil (s := { s with i := s.i + 1 }) hend hj hs)
  | token c rest text h ih =>
    obtain ⟨hat, hdrop, hend⟩ := at_of_drop hrest
    obtain ⟨hat', hdrop', hend'⟩ := at_of_drop hdrop
    have hround : round format format.chars.length s =
        (CBuffer.storeAll s.buf s.j (text ++ ['\x00'])).map
          fun buf => ⟨s.i + 2, s.j + text.length, buf⟩ := by
      have hmore : (s.i + 1 : Int) < format.chars.length := by omega
      rw [round, hat, if_pos rfl, if_pos hmore, hat', h]
    obtain ⟨hfive, -⟩ := conversion_some h
    simp only [List.length_cons] at hrounds
    obtain ⟨rounds, rfl⟩ : ∃ k, rounds = k + 1 := ⟨rounds - 1, by omega⟩
    rw [written_token h]
    refine .of_round text ['\x00'] (by omega) hj hs hround ?_ (by decide) fun buf hbuf => ?_
    · rintro rfl
      cases hfive
    · exact ih (s := ⟨s.i + 2, _, buf⟩) hdrop' hend' (by omega) rfl hbuf
  | unknown c rest h ih =>
    obtain ⟨hat, hdrop, hend⟩ := at_of_drop hrest
    obtain ⟨hat', hdrop', hend'⟩ := at_of_drop hdrop
    have hround : round format format.chars.length s = some { s with i := s.i + 2 } := by
      have hmore : (s.i + 1 : Int) < format.chars.length := by omega
      rw [round, hat, if_pos rfl, if_pos hmore, hat', h]
    simp only [List.length_cons] at hrounds
    obtain ⟨rounds, rfl⟩ : ∃ k, rounds = k + 1 := ⟨rounds - 1, by omega⟩
    rw [written_unknown h]
    refine .of_skip (by omega) hj hs hround ?_
    exact ih (s := { s with i := s.i + 2 }) hdrop' hend' (by omega) hj hs
  | percent rest ih =>
    obtain ⟨hat, hdrop, hend⟩ := at_of_drop hrest
    have hround : round format format.chars.length s =
        (CBuffer.storeAll s.buf s.j (['%', '%'] ++ [])).map
          fun buf => ⟨s.i + 1, s.j + ['%', '%'].length, buf⟩ := by
      rw [round, hat, if_neg (by decide), if_pos rfl]
      rfl
    simp only [List.length_cons] at hrounds
    obtain ⟨rounds, rfl⟩ : ∃ k, rounds = k + 1 := ⟨rounds - 1, by omega⟩
    refine .of_round ['%', '%'] [] (by omega) hj hs hround (by simp) (by decide) fun buf hbuf => ?_
    exact ih (s := ⟨s.i + 1, _, buf⟩) hdrop hend (by omega) rfl hbuf
  | copy c rest hc hc' ih =>
    obtain ⟨hat, hdrop, hend⟩ := at_of_drop hrest
    have hround : round format format.chars.length s =
        (CBuffer.storeAll s.buf s.j ([c] ++ [])).map
          fun buf => ⟨s.i + 1, s.j + [c].length, buf⟩ := by
      rw [round, hat, if_neg hc, if_neg hc']
      rfl
    simp only [List.length_cons] at hrounds
    obtain ⟨rounds, rfl⟩ : ∃ k, rounds = k + 1 := ⟨rounds - 1, by omega⟩
    rw [written_copy hc hc']
    refine .of_round [c] [] (by omega) hj hs hround (by simp) (by decide) fun buf hbuf => ?_
    exact ih (s := ⟨s.i + 1, _, buf⟩) hdrop hend (by omega) rfl hbuf

end

theorem fill_natCast (fresh : (n : Nat) → Vector Char n) (format : Format) (configLen n : Nat) :
    fill fresh format configLen n =
      (Loop.run (goesOn configLen n) (round format configLen) (configLen + 1)
        ⟨0, 0, fresh n⟩).map fun s => s.buf.toList := by
  rw [fill, if_pos (Int.natCast_nonneg n)]
  rfl

/-- The compiled format, for an option whose length is an `int` with the room added. -/
theorem compile_eq (fresh : (n : Nat) → Vector Char n) {format : Format}
    (hsize : format.chars.length + 15 < 2 ^ 31) :
    ((written format.chars).length ≤ format.chars.length + 14 →
      ∃ t : Vector Char (format.chars.length + 15), compile fresh format = some t.toList ∧
        CBuffer.Starts t (written format.chars ++ ['\x00'])) ∧
      (format.chars.length + 14 < (written format.chars).length → compile fresh format = none) := by
  have hlen : toInt format.chars.length = format.chars.length :=
    toInt_of_mem (by omega) (by omega)
  have hroom : toInt (format.chars.length + 15) = ((format.chars.length + 15 : Nat) : Int) :=
    toInt_of_mem (by omega) (by omega)
  have hrun := appends_written (n := format.chars.length + 15)
    (s := ⟨0, 0, fresh (format.chars.length + 15)⟩) format.chars rfl (Nat.zero_add _)
    (Nat.le_refl _) rfl (CBuffer.starts_nil _)
  simp only [compile, hlen]
  rw [hroom, fill_natCast]
  constructor
  · intro hle
    obtain ⟨t, ht, hstarts⟩ := hrun.fits (by rw [List.length_nil]; omega)
    refine ⟨t.buf, ?_, hstarts⟩
    rw [ht, Option.map_some]
  · intro hlt
    rw [hrun.leaves (by rw [List.length_nil]; omega), Option.map_none]

/-- A result has the size of the buffer. -/
theorem length_of_compile {fresh : (n : Nat) → Vector Char n} {format : Format} {buf : List Char}
    (h : compile fresh format = some buf) :
    (buf.length : Int) = toInt (toInt format.chars.length + 15) := by
  unfold compile fill at h
  dsimp only at h
  split at h
  · rename_i hpos
    obtain ⟨t, -, rfl⟩ := Option.map_eq_some_iff.mp h
    rw [Vector.length_toList]
    omega
  · cases h

theorem compile_faithful_iff (fresh : (n : Nat) → Vector Char n) (format : Format) :
    Faithful format (compile fresh format) ↔ Fits format := by
  constructor
  · rintro ⟨buf, hbuf, hnul, htext⟩
    have hsize : format.chars.length + 15 < 2 ^ 31 := by
      have hlt := CBuffer.length_cStr_lt hnul
      have hle := length_le_translate format.chars
      have hlen := length_of_compile hbuf
      rw [htext] at hlt
      have hbuf := toInt_lt (toInt format.chars.length + 15)
      have hint : toInt format.chars.length = format.chars.length :=
        toInt_of_mem (by omega) (by omega)
      rw [hint] at hlen hbuf
      by_contra hsize
      rw [toInt_of_le (by omega) (by omega)] at hlen
      omega
    obtain ⟨hfits, hleaves⟩ := compile_eq fresh hsize
    rcases Nat.lt_or_ge (format.chars.length + 14) (written format.chars).length with hlt | hle
    · rw [hleaves hlt] at hbuf
      cases hbuf
    · obtain ⟨t, ht, hstarts⟩ := hfits hle
      rw [ht] at hbuf
      obtain rfl := Option.some.inj hbuf
      have hwritten : cStr t.toList = written format.chars := by
        rw [← CBuffer.text, hstarts.text_eq]
        exact CBuffer.cStr_of_not_mem (not_nul_mem_written format.noNul)
      have htokens := (written_eq_translate_iff _).mp (hwritten.symm.trans htext)
      have hlength := length_translate htokens
      rw [← (written_eq_translate_iff _).mpr htokens] at hlength
      exact ⟨htokens, by omega, hsize⟩
  · rintro ⟨htokens, hroom, hsize⟩
    have heq := (written_eq_translate_iff _).mpr htokens
    have hlength := length_translate htokens
    obtain ⟨t, ht, hstarts⟩ := (compile_eq fresh hsize).1 (by rw [heq]; omega)
    refine ⟨t.toList, ht, ?_, ?_⟩
    · exact hstarts.subset (by simp)
    · rw [← CBuffer.text, hstarts.text_eq, ← heq]
      exact CBuffer.cStr_of_not_mem (not_nul_mem_written format.noNul)

/-- **When the formats are translated safely and faithfully.** -/
theorem faithful_iff (fresh : (n : Nat) → Vector Char n) (format : Format) :
    (Faithful format (meterFile fresh format) ↔ Fits format) ∧
      (Faithful format (meterExec fresh format) ↔ Fits format) :=
  ⟨compile_faithful_iff fresh format, compile_faithful_iff fresh format⟩

/-- Five tokens do not fit. -/
theorem five_tokens_leave : ∃ format : Format, format.chars = "$v$v$v$v$v".toList ∧
    ∀ fresh, meterFile fresh format = none ∧ meterExec fresh format = none ∧
      ¬Faithful format (meterFile fresh format) ∧ ¬Faithful format (meterExec fresh format) := by
  have hnone : ∀ fresh, compile fresh ⟨"$v$v$v$v$v".toList, by decide⟩ = none :=
    fun fresh => (compile_eq fresh (by decide)).2 (by decide)
  have hnot : ¬Faithful ⟨"$v$v$v$v$v".toList, by decide⟩ none := by
    rintro ⟨buf, hbuf, -⟩
    cases hbuf
  refine ⟨⟨"$v$v$v$v$v".toList, by decide⟩, rfl, fun fresh => ⟨hnone fresh, hnone fresh, ?_, ?_⟩⟩
  · rw [meterFile, hnone fresh]
    exact hnot
  · rw [meterExec, hnone fresh]
    exact hnot

end VzLogger.ScanfFormat
