import VzLogger.FluksoV2
import VzLogger.Lib.Loop
import VzLogger.Lib.Strsep

/-! # FluksoV2: lines from the pipe

`MeterFluksoV2::read` has a line put into an array on the stack, and splits it where it
lies.  Nothing marks the end of the line: behind the bytes received the array holds
what was there before.  The tokens are kept here by their place, with the readings
made of them; a `NULL` that is converted, a reading outside the vector and a token that
runs out of the array have no result.
-/
namespace VzLogger.FluksoV2
open CString Strsep

/-! ## The line -/

/-- A `read` of one byte: a byte, none, or an error. -/
inductive PipeRead where
  | byte (c : Char)
  | nothing
  | error
  deriving DecidableEq, Repr

/-- The size of `line`. -/
def lineLength : Nat := 64

/-- `_read_line`, with room for so many bytes more: what it puts into the buffer, and
the reads after it; `none` as long as it waits for one. -/
def readLine : Nat → List PipeRead → Option (Except Int (List Char) × List PipeRead)
  | 0, reads => some (.ok [], reads)
  | _ + 1, [] => none
  | room + 1, .byte c :: reads =>
    if c = '\n' then some (.ok [], reads)  -- line delimiter
    else (readLine room reads).map fun (line, rest) => (line.map (c :: ·), rest)
  | room + 1, .nothing :: reads => readLine (room + 1) reads
  | _ + 1, .error :: reads => some (.error (-1), reads)

/-- A line takes no more bytes than there is room for, and with any room a read. -/
theorem readLine_spec {room : Nat} {reads rest : List PipeRead} {line : Except Int (List Char)}
    (h : readLine room reads = some (line, rest)) :
    rest.length + min room 1 ≤ reads.length ∧ ∀ bytes, line = .ok bytes → bytes.length ≤ room := by
  induction reads generalizing room line with
  | nil =>
    cases room with
    | zero =>
      rw [readLine] at h
      cases h
      exact ⟨Nat.le_refl _, by rintro bytes ⟨⟩; exact Nat.le_refl _⟩
    | succ room => cases h
  | cons r reads ih =>
    cases room with
    | zero =>
      rw [readLine] at h
      cases h
      exact ⟨Nat.le_refl _, by rintro bytes ⟨⟩; exact Nat.le_refl _⟩
    | succ room =>
      cases r with
      | byte c =>
        rw [readLine] at h
        split at h
        · cases h
          exact ⟨by simp, by rintro bytes ⟨⟩; exact Nat.zero_le _⟩
        · obtain ⟨⟨line', rest'⟩, hline, hpair⟩ := Option.map_eq_some_iff.mp h
          cases hpair
          obtain ⟨hrest, hbytes⟩ := ih hline
          constructor
          · rw [List.length_cons]
            omega
          · intro bytes heq
            cases line' with
            | error r => cases heq
            | ok line' =>
              cases heq
              exact Nat.succ_le_succ (hbytes line' rfl)
      | nothing =>
        obtain ⟨hrest, hbytes⟩ := ih h
        exact ⟨Nat.le_succ_of_le hrest, hbytes⟩
      | error =>
        cases h
        exact ⟨by simp, by rintro bytes ⟨⟩⟩

/-- `do bytes = _read_line(_fd, line, 64) while (bytes == 0)`. -/
def receive (reads : List PipeRead) : Option (Except Int (List Char) × List PipeRead) :=
  match _h : readLine lineLength reads with
  | some (.ok [], rest) => receive rest
  | result => result
termination_by reads.length
decreasing_by exact (readLine_spec _h).1

/-- The array after a line, over what was on the stack. -/
def lineArray (stale : Vector Char lineLength) (received : List Char) : List Char :=
  received ++ stale.toList.drop received.length

/-! ## The tokens -/

def delim : List Char := " \t".toList

/-- The cursor, the tokens that were converted, and the readings written. -/
structure State where
  cursor : Option Nat
  tokens : List Token
  rds : List Sample

/-- `strsep`, for a token that is converted. -/
def pop (line : List Char) (s : State) : Option (Token × State) :=
  match strsep delim line s.cursor with
  | some (some tok, cursor) => some (tok, { s with cursor, tokens := s.tokens ++ [tok] })
  | _ => none

/-- One reading of a sensor: it is written at an index, and its value converted. -/
def readValue (longBits n : Nat) (line : List Char) (time : Timeval) (sensor : Int)
    (type : SensorType) (channel : Int) (s : State) : Option State :=
  if s.rds.length < n then
    (pop line s).map fun (tok, s) =>
      let rd : Reading := ⟨false, atoi longBits (tok.text line), time, .channel channel⟩
      { s with rds := s.rds ++ [⟨sensor, type, rd⟩] }
  else none

/-- One round of the loop: a sensor, with its consumption and its power. -/
def round (longBits n : Nat) (line : List Char) (time : Timeval) (s : State) : Option State :=
  (pop line s).bind fun (tok, s) =>
    let sensor := atoi longBits (tok.text line)
    let channel := sensor + 1  -- to distinguish between +0 and -0
    (readValue longBits n line time sensor .consumption (-channel) s).bind
      (readValue longBits n line time sensor .power channel)

/-- `MeterFluksoV2::read` on the array.  Every round moves the cursor on. -/
def parse (longBits n : Nat) (line : List Char) : Option State :=
  (pop line ⟨some 0, [], []⟩).bind fun (tok, s) =>
    let time : Timeval := ⟨strtol longBits (tok.text line), 0⟩
    Loop.run (fun s => s.cursor.isSome) (round longBits n line time) line.length s

/-- What comes of a call: it waits, it hands on the error of the pipe, or it parses a
line of so many bytes. -/
inductive Outcome where
  | waits
  | error (bytes : Int)
  | parsed (bytes : Nat) (result : Option State)

/-- `MeterFluksoV2::read` on the pipe. -/
def readPipe (longBits n : Nat) (stale : Vector Char lineLength) (reads : List PipeRead) :
    Outcome :=
  match receive reads with
  | none => .waits
  | some (.error bytes, _) => .error bytes
  | some (.ok received, _) =>
    .parsed received.length (parse longBits n (lineArray stale received))

/-- Every token converted is there and lies inside the bytes received, and the readings
are written inside the vector. -/
def Outcome.Safe : Outcome → Prop
  | .waits => True
  | .error _ => True
  | .parsed bytes result => ∃ s, result = some s ∧ ∀ tok ∈ s.tokens, tok.stop ≤ bytes

/-- The text in the array ends with the bytes received or before, a time comes with
groups of three, and there is room for two readings from each. -/
structure Fits (n : Nat) (line : List Char) (bytes : Nat) : Prop where
  terminated : '\x00' ∈ line
  inside : (cStr line).length ≤ bytes
  groups : (cStr line).countP (· ∈ delim) % 3 = 0
  room : 2 * ((cStr line).countP (· ∈ delim) / 3) ≤ n

/-- A line that is not empty is the one. -/
theorem receive_of_readLine {reads rest : List PipeRead} {c : Char} {line : List Char}
    (h : readLine lineLength reads = some (.ok (c :: line), rest)) :
    receive reads = some (.ok (c :: line), rest) := by
  rw [receive]
  split
  · rename_i hline
    rw [h] at hline
    cases hline
  · exact h

/-! ## The calls of `strsep` -/

section
variable {longBits n : Nat} {line : List Char} {time : Timeval}

theorem pop_eq_some {s t : State} {tok : Token} (h : pop line s = some (tok, t)) :
    ∃ p next, s.cursor = some p ∧ strsep delim line (some p) = some (some tok, next) ∧
      t = { s with cursor := next, tokens := s.tokens ++ [tok] } := by
  unfold pop at h
  split at h
  · rename_i hsep
    cases hcursor : s.cursor with
    | none =>
      rw [hcursor] at hsep
      cases hsep
    | some p =>
      rw [hcursor] at hsep
      obtain ⟨rfl, rfl⟩ := Prod.mk.inj (Option.some.inj h)
      exact ⟨p, _, rfl, hsep, rfl⟩
  · cases h

theorem pop_of_strsep {s : State} {p : Nat} {tok : Token} {next : Option Nat}
    (hcursor : s.cursor = some p) (hsep : strsep delim line (some p) = some (some tok, next)) :
    pop line s = some (tok, { s with cursor := next, tokens := s.tokens ++ [tok] }) := by
  rw [pop, hcursor, hsep]

theorem readValue_eq_some {s t : State} {sensor channel : Int} {type : SensorType}
    (h : readValue longBits n line time sensor type channel s = some t) :
    s.rds.length < n ∧ ∃ tok u, pop line s = some (tok, u) ∧ t = { u with rds := u.rds ++
      [⟨sensor, type, ⟨false, atoi longBits (tok.text line), time, .channel channel⟩⟩] } := by
  unfold readValue at h
  split at h
  · rename_i hn
    obtain ⟨⟨tok, u⟩, hpop, rfl⟩ := Option.map_eq_some_iff.mp h
    exact ⟨hn, tok, u, hpop, rfl⟩
  · cases h

/-- The readings of a sensor. -/
def samples (longBits : Nat) (time : Timeval) (sensor consumption power : List Char) :
    List Sample :=
  let channel := atoi longBits sensor + 1
  [⟨atoi longBits sensor, .consumption,
      ⟨false, atoi longBits consumption, time, .channel (-channel)⟩⟩,
    ⟨atoi longBits sensor, .power, ⟨false, atoi longBits power, time, .channel channel⟩⟩]

theorem readLoop_cons (sensor consumption power : List Char) (rest : List (List Char)) :
    readLoop longBits time (sensor :: consumption :: power :: rest) =
      (readLoop longBits time rest).map (samples longBits time sensor consumption power ++ ·) := rfl

/-- **What a round does**: three calls, and two readings. -/
theorem round_eq_some_iff {s t : State} : round longBits n line time s = some t ↔
    ∃ p q r next, ∃ a b c : Token, s.cursor = some p ∧
      strsep delim line (some p) = some (some a, some q) ∧
      strsep delim line (some q) = some (some b, some r) ∧
      strsep delim line (some r) = some (some c, next) ∧ s.rds.length + 2 ≤ n ∧
      t = ⟨next, s.tokens ++ [a, b, c],
        s.rds ++ samples longBits time (a.text line) (b.text line) (c.text line)⟩ := by
  constructor
  · intro h
    obtain ⟨⟨a, s₁⟩, hpop₁, h⟩ := Option.bind_eq_some_iff.mp h
    obtain ⟨s₂, hvalue₂, hvalue₃⟩ := Option.bind_eq_some_iff.mp h
    obtain ⟨p, q, hp, hsep₁, rfl⟩ := pop_eq_some hpop₁
    obtain ⟨hn₂, b, u₂, hpop₂, rfl⟩ := readValue_eq_some hvalue₂
    obtain ⟨q', r, hq, hsep₂, rfl⟩ := pop_eq_some hpop₂
    obtain ⟨hn₃, c, u₃, hpop₃, rfl⟩ := readValue_eq_some hvalue₃
    obtain ⟨r', next, hr, hsep₃, rfl⟩ := pop_eq_some hpop₃
    obtain rfl : q = some q' := hq
    obtain rfl : r = some r' := hr
    refine ⟨p, q', r', next, a, b, c, hp, hsep₁, hsep₂, hsep₃, ?_, ?_⟩
    · simp only [List.length_append, List.length_singleton] at hn₃
      omega
    · simp [samples]
  · rintro ⟨p, q, r, next, a, b, c, hp, hsep₁, hsep₂, hsep₃, hn, rfl⟩
    rw [round, pop_of_strsep hp hsep₁]
    simp only [Option.bind_some]
    rw [readValue, if_pos (by simp only; omega), pop_of_strsep rfl hsep₂]
    simp only [Option.map_some, Option.bind_some]
    rw [readValue, if_pos (by simp only [List.length_append, List.length_singleton]; omega),
      pop_of_strsep rfl hsep₃]
    simp [samples]

/-- The loop ends with the string. -/
theorem run_of_none {rounds : Nat} {s : State} (hcursor : s.cursor = none) :
    Loop.run (fun s => s.cursor.isSome) (round longBits n line time) rounds s =
      some ⟨none, s.tokens ++ [], s.rds ++ []⟩ := by
  rw [Loop.run_of_not (by simp [hcursor]), List.append_nil, List.append_nil, ← hcursor]

theorem sound_of_none {rounds : Nat} {s t : State} (hn : s.rds.length ≤ n)
    (hcursor : s.cursor = none)
    (h : Loop.run (fun s => s.cursor.isSome) (round longBits n line time) rounds s = some t) :
    ∃ toks rds, Pops delim line s.cursor toks ∧
      readLoop longBits time (toks.map (Token.text line)) = some rds ∧
      s.rds.length + rds.length ≤ n ∧ t = ⟨none, s.tokens ++ toks, s.rds ++ rds⟩ := by
  rw [run_of_none hcursor] at h
  rw [hcursor]
  exact ⟨[], [], .nil, rfl, hn, (Option.some.inj h).symm⟩

/-- The loop converts all tokens, and makes the readings of them. -/
theorem run_sound {rounds : Nat} {s t : State} (hn : s.rds.length ≤ n)
    (h : Loop.run (fun s => s.cursor.isSome) (round longBits n line time) rounds s = some t) :
    ∃ toks rds, Pops delim line s.cursor toks ∧
      readLoop longBits time (toks.map (Token.text line)) = some rds ∧
      s.rds.length + rds.length ≤ n ∧ t = ⟨none, s.tokens ++ toks, s.rds ++ rds⟩ := by
  induction rounds generalizing s with
  | zero =>
    cases hcursor : s.cursor with
    | none => exact hcursor ▸ sound_of_none hn hcursor h
    | some p => simp [Loop.run, hcursor] at h
  | succ rounds ih =>
    cases hcursor : s.cursor with
    | none => exact hcursor ▸ sound_of_none hn hcursor h
    | some p =>
      rw [Loop.run_succ (by simp [hcursor])] at h
      obtain ⟨u, hround, h⟩ := Option.bind_eq_some_iff.mp h
      obtain ⟨p', q, r, next, a, b, c, hp, hsep₁, hsep₂, hsep₃, hroom, rfl⟩ :=
        round_eq_some_iff.mp hround
      rw [hcursor] at hp
      obtain rfl := Option.some.inj hp
      obtain ⟨toks, rds, hpops, hloop, hle, rfl⟩ := ih (by simp [samples]; omega) h
      refine ⟨a :: b :: c :: toks,
        samples longBits time (a.text line) (b.text line) (c.text line) ++ rds,
        .cons hsep₁ (.cons hsep₂ (.cons hsep₃ hpops)), ?_, ?_, ?_⟩
      · rw [List.map_cons, List.map_cons, List.map_cons, readLoop_cons, hloop]
        rfl
      · simp only [List.length_append] at hle ⊢
        omega
      · simp

/-- It comes to its end if the tokens are groups of three, and there is room. -/
theorem run_complete {rounds : Nat} {s : State} {toks : List Token} {rds : List Sample}
    (hpops : Pops delim line s.cursor toks)
    (hloop : readLoop longBits time (toks.map (Token.text line)) = some rds)
    (hn : s.rds.length + rds.length ≤ n) (hrounds : toks.length ≤ rounds) :
    Loop.run (fun s => s.cursor.isSome) (round longBits n line time) rounds s =
      some ⟨none, s.tokens ++ toks, s.rds ++ rds⟩ := by
  induction rounds generalizing s toks rds with
  | zero =>
    obtain rfl := List.length_eq_zero_iff.mp (Nat.le_zero.mp hrounds)
    obtain rfl := Option.some.inj hloop
    generalize hcursor : s.cursor = cursor at hpops
    cases hpops
    exact run_of_none hcursor
  | succ rounds ih =>
    generalize hcursor : s.cursor = cursor at hpops
    match hpops, hloop with
    | .nil, hloop =>
      obtain rfl := Option.some.inj hloop
      exact run_of_none hcursor
    | .cons _ .nil, hloop => cases hloop
    | .cons _ (.cons _ .nil), hloop => cases hloop
    | .cons hsep₁ (.cons hsep₂ (.cons hsep₃ hpops)), hloop =>
      rw [List.map_cons, List.map_cons, List.map_cons, readLoop_cons] at hloop
      obtain ⟨rds, hrest, rfl⟩ := Option.map_eq_some_iff.mp hloop
      have hlen : ∀ a b c, (samples longBits time a b c).length = 2 := fun _ _ _ => rfl
      simp only [List.length_append, List.length_cons, hlen] at hn hrounds
      have hround : round longBits n line time s = some _ := round_eq_some_iff.mpr
        ⟨_, _, _, _, _, _, _, hcursor, hsep₁, hsep₂, hsep₃, by omega, rfl⟩
      rw [Loop.run_succ (by simp [hcursor]), hround, Option.bind_some,
        ih hpops hrest (by simp only [List.length_append, hlen]; omega) (by omega)]
      simp

/-- The number of tokens says whether they are groups, and how many readings they
make. -/
theorem readLoop_isSome_iff (longBits : Nat) (time : Timeval) (toks : List (List Char)) :
    (∃ rds, readLoop longBits time toks = some rds) ↔ toks.length % 3 = 0 := by
  induction toks using readLoop.induct longBits time with
  | case1 => exact iff_of_true ⟨[], rfl⟩ rfl
  | case2 a b c rest ih =>
    rw [readLoop_cons, ← Option.isSome_iff_exists, Option.isSome_map, Option.isSome_iff_exists, ih]
    simp only [List.length_cons]
    omega
  | case3 toks hnil hcons =>
    rcases toks with _ | ⟨a, _ | ⟨b, _ | ⟨c, rest⟩⟩⟩
    · exact absurd rfl hnil
    · exact iff_of_false (by rintro ⟨rds, h⟩; cases h) (by simp)
    · exact iff_of_false (by rintro ⟨rds, h⟩; cases h) (by simp)
    · exact absurd rfl (hcons a b c rest)

theorem length_readLoop {toks : List (List Char)} {rds : List Sample}
    (h : readLoop longBits time toks = some rds) : rds.length = 2 * (toks.length / 3) := by
  induction toks using readLoop.induct longBits time generalizing rds with
  | case1 =>
    obtain rfl := Option.some.inj h
    rfl
  | case2 a b c rest ih =>
    rw [readLoop_cons] at h
    obtain ⟨rds, hrest, rfl⟩ := Option.map_eq_some_iff.mp h
    have hlen := ih hrest
    simp only [List.length_append, samples, List.length_cons, List.length_nil]
    omega
  | case3 toks hnil hcons =>
    rw [readLoop] at h
    · cases h
    · exact hnil
    · exact hcons

/-- **What a call does**: the text in the array, split and read as a line. -/
theorem parse_eq_some {s : State} (h : parse longBits n line = some s) :
    Pops delim line (some 0) s.tokens ∧ read longBits n (cStr line) = some s.rds := by
  obtain ⟨⟨tok, u⟩, hpop, hrun⟩ := Option.bind_eq_some_iff.mp h
  obtain ⟨p, next, hp, hsep, rfl⟩ := pop_eq_some hpop
  obtain rfl : 0 = p := Option.some.inj hp
  obtain ⟨toks, rds, hpops, hloop, hle, rfl⟩ := run_sound (Nat.zero_le _) hrun
  have hall : Pops delim line (some 0) (tok :: toks) := .cons hsep hpops
  obtain ⟨-, htokens, -⟩ := hall.spec
  rw [List.drop_zero, List.map_cons] at htokens
  refine ⟨hall, ?_⟩
  simp only [List.length_nil, Nat.zero_add] at hle
  rw [read, show " \t".toList = delim from rfl, ← htokens]
  simp only [hloop, hle, if_true]
  rfl

theorem exists_parse (hnul : '\x00' ∈ line)
    (hgroups : (cStr line).countP (· ∈ delim) % 3 = 0)
    (hroom : 2 * ((cStr line).countP (· ∈ delim) / 3) ≤ n) :
    ∃ s, parse longBits n line = some s := by
  obtain ⟨toks, hpops⟩ : ∃ toks, Pops delim line (some 0) toks := exists_pops hnul
  obtain ⟨-, htokens, -⟩ := hpops.spec
  cases hpops with
  | @cons _ tok next toks hsep hnext =>
    have hlength := congrArg List.length htokens
    rw [List.drop_zero, length_tokens, List.length_map, List.length_cons] at hlength
    have hpop := pop_of_strsep (s := ⟨some 0, [], []⟩) rfl hsep
    obtain ⟨rds, hloop⟩ := (readLoop_isSome_iff longBits ⟨strtol longBits (tok.text line), 0⟩
      (toks.map (Token.text line))).mpr (by rw [List.length_map]; omega)
    have hrds := length_readLoop hloop
    rw [List.length_map] at hrds
    have hcount : (cStr line).countP (· ∈ delim) ≤ (cStr line).length := List.countP_le_length
    have hcStr : (cStr line).length ≤ line.length := (List.takeWhile_prefix _).length_le
    have hrun := run_complete (s := ⟨next, [tok], []⟩) hnext hloop
      (show 0 + rds.length ≤ n by omega) (show toks.length ≤ line.length by omega)
    refine ⟨⟨none, [tok] ++ toks, [] ++ rds⟩, ?_⟩
    rw [parse, hpop, Option.bind_some]
    exact hrun

/-- **When a line is parsed safely.** -/
theorem parse_safe_iff (bytes : Nat) :
    (∃ s, parse longBits n line = some s ∧ ∀ tok ∈ s.tokens, tok.stop ≤ bytes) ↔
      Fits n line bytes := by
  constructor
  · rintro ⟨s, hparse, hinside⟩
    obtain ⟨hpops, hread⟩ := parse_eq_some hparse
    obtain ⟨hnul, htokens, hstop⟩ := hpops.spec
    rw [List.drop_zero] at hnul htokens hstop
    have hinside := (hstop bytes).mp hinside
    rw [Nat.zero_add] at hinside
    have hlength : (tokens delim (cStr line)).length = _ := length_tokens (cStr line)
    unfold read at hread
    split at hread
    · cases hread
    · rename_i timeStr rest hrest
      split at hread
      · cases hread
      · rename_i rds hloop
        split at hread
        · rename_i hroom
          have hgroups := (readLoop_isSome_iff _ _ _).mp ⟨rds, hloop⟩
          have hrds := length_readLoop hloop
          rw [show tokens delim (cStr line) = timeStr :: rest from hrest, List.length_cons] at hlength
          exact ⟨hnul, hinside, by omega, by omega⟩
        · cases hread
  · rintro ⟨hnul, hinside, hgroups, hroom⟩
    obtain ⟨s, hs⟩ : ∃ s, parse longBits n line = some s := exists_parse hnul hgroups hroom
    obtain ⟨hpops, -⟩ := parse_eq_some hs
    obtain ⟨-, -, hstop⟩ := hpops.spec
    refine ⟨s, hs, (hstop bytes).mpr ?_⟩
    rw [List.drop_zero, Nat.zero_add]
    exact hinside

end

/-- **When lines from the pipe are parsed safely**: exactly if the one received, with
what lies behind it in the array, fits. -/
theorem readPipe_safe_iff (longBits n : Nat) (stale : Vector Char lineLength)
    (reads : List PipeRead) :
    (readPipe longBits n stale reads).Safe ↔
      ∀ received rest, receive reads = some (.ok received, rest) →
        Fits n (lineArray stale received) received.length := by
  unfold readPipe
  split
  · rename_i hreads
    refine iff_of_true trivial fun received rest h => ?_
    rw [hreads] at h
    cases h
  · rename_i hreads
    refine iff_of_true trivial fun received rest h => ?_
    rw [hreads] at h
    cases h
  · rename_i received rest hreads
    rw [Outcome.Safe, parse_safe_iff]
    constructor
    · intro hfits received' rest' h
      rw [hreads] at h
      cases h
      exact hfits
    · exact fun h => h received rest hreads

/-- A stack of zeros. -/
def zeros : Vector Char lineLength := Vector.replicate lineLength '\x00'

/-- The bytes of a text, and the end of the line. -/
def sent (text : String) : List PipeRead := (text.toList ++ ['\n']).map .byte

/-- A sensor without its power has `NULL` converted; behind a line without an end, what
was on the stack is taken for a part of it; a reading goes outside a vector that is too
short. -/
theorem readPipe_unsafe :
    (∀ n, ¬(readPipe 64 n zeros (sent "0 1 2")).Safe) ∧
      ¬(readPipe 64 16 (Vector.replicate lineLength '9') (sent "0 1 2 3")).Safe ∧
      ¬(readPipe 64 1 zeros (sent "0 1 2 3")).Safe := by
  have hshort : receive (sent "0 1 2") = some (.ok "0 1 2".toList, []) :=
    receive_of_readLine (by decide)
  have hgroup : receive (sent "0 1 2 3") = some (.ok "0 1 2 3".toList, []) :=
    receive_of_readLine (by decide)
  refine ⟨fun n hsafe => ?_, fun hsafe => ?_, fun hsafe => ?_⟩
  · rw [readPipe, hshort] at hsafe
    have hgroups := (parse_safe_iff _).mp hsafe |>.groups
    exact absurd hgroups (by decide)
  · rw [readPipe, hgroup] at hsafe
    have hterminated := (parse_safe_iff _).mp hsafe |>.terminated
    exact absurd hterminated (by decide)
  · rw [readPipe, hgroup] at hsafe
    have hroom := (parse_safe_iff _).mp hsafe |>.room
    exact absurd hroom (by decide)

end VzLogger.FluksoV2
