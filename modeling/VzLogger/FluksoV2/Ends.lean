import VzLogger.FluksoV2.Line

/-! # FluksoV2: the end of the pipe

What `_read_line`, and the loop that waits for a line with it, make of a stream of bytes
that ends: with an error, or with the end of the file, where every further `read` returns
0.  `_read_line` has no branch for a read of nothing, and takes it for a reason to wait;
and what fills the array is returned as if it were a line.

`outcome` says in closed form what the loop over the reads comes to, so that `ends_iff`
is a matter of the first line of the stream.
-/
namespace VzLogger.FluksoV2

/-- How the stream ends. -/
inductive Ending where
  | eof
  | error
  deriving DecidableEq, Repr

/-- What every `read` behind the last byte returns. -/
def Ending.read : Ending → PipeRead
  | .eof => .nothing
  | .error => .error

/-- The bytes of a stream, and the first reads behind them. -/
def reads (bytes : List Char) (e : Ending) (k : Nat) : List PipeRead :=
  bytes.map .byte ++ List.replicate (k + 1) e.read

/-- A function that reads has a result, after however many reads. -/
def Returns (f : List PipeRead → Option (Except Int (List Char) × List PipeRead))
    (bytes : List Char) (e : Ending) (r : Except Int (List Char)) : Prop :=
  ∃ k, (f (reads bytes e k)).map Prod.fst = some r

/-- `_read_line` returns the first line of the stream, or an error if there is none. -/
def LineEnds (bytes : List Char) (e : Ending) : Prop :=
  ∃ r, Returns (readLine lineLength) bytes e r ∧
    match r with
    | .ok line => '\n' ∉ line ∧ ∃ rest, bytes = line ++ '\n' :: rest
    | .error _ => '\n' ∉ bytes

/-- The loop returns the first line that is not empty, or an error if there is none. -/
def LoopEnds (bytes : List Char) (e : Ending) : Prop :=
  ∃ r, Returns receive bytes e r ∧
    match r with
    | .ok line => line ≠ [] ∧ '\n' ∉ line ∧
      ∃ j rest, bytes = List.replicate j '\n' ++ (line ++ '\n' :: rest)
    | .error _ => ∃ j part, '\n' ∉ part ∧ bytes = List.replicate j '\n' ++ part

/-- What stands in front of the first newline, or of the end of the stream. -/
def firstLine (bytes : List Char) : List Char := bytes.takeWhile (· ≠ '\n')

/-- The first line fits into the array; or there is none, and the stream ends with an
error before the array is full. -/
def Bounded (bytes : List Char) (e : Ending) : Prop :=
  if '\n' ∈ bytes then (firstLine bytes).length ≤ lineLength
  else bytes.length < lineLength ∧ e = .error

/-- The stream behind its empty lines. -/
def skipEmpty (bytes : List Char) : List Char := bytes.dropWhile (· = '\n')

/-! ## The outcome of the reads -/

/-- What `_read_line` comes to with room for so many bytes; `none` where it does not
return. -/
def outcome (room : Nat) (bytes : List Char) (e : Ending) : Option (Except Int (List Char)) :=
  let line := firstLine bytes
  if room ≤ line.length then some (.ok (line.take room))
  else if '\n' ∈ bytes then some (.ok line)
  else
    match e with
    | .eof => none
    | .error => some (.error (-1))

theorem readLine_eof (room k : Nat) :
    readLine (room + 1) (List.replicate k .nothing) = none := by
  induction k with
  | zero => rfl
  | succ k ih =>
    rw [List.replicate_succ, readLine]
    exact ih

theorem firstLine_cons {c : Char} (hc : c ≠ '\n') (bytes : List Char) :
    firstLine (c :: bytes) = c :: firstLine bytes := by
  exact List.takeWhile_cons_of_pos (decide_eq_true hc)

theorem outcome_cons {c : Char} (hc : c ≠ '\n') (room : Nat) (bytes : List Char) (e : Ending) :
    outcome (room + 1) (c :: bytes) e = (outcome room bytes e).map (·.map (c :: ·)) := by
  have hmem : '\n' ∈ c :: bytes ↔ '\n' ∈ bytes := by
    rw [List.mem_cons, or_iff_right hc.symm]
  unfold outcome
  simp only [firstLine_cons hc, List.length_cons, Nat.add_le_add_iff_right, hmem,
    List.take_succ_cons]
  split
  · rfl
  · split
    · rfl
    · cases e <;> rfl

/-- **`_read_line` on a stream.**  The induction is on the bytes; where they end, the
reads of nothing keep it waiting. -/
theorem readLine_reads (room : Nat) (bytes : List Char) (e : Ending) (k : Nat) :
    (readLine room (reads bytes e k)).map Prod.fst = outcome room bytes e := by
  induction bytes generalizing room with
  | nil =>
    cases room with
    | zero => rfl
    | succ room =>
      cases e with
      | eof =>
        have hwait := readLine_eof room (k + 1)
        rw [show reads [] .eof k = List.replicate (k + 1) .nothing from rfl, hwait]
        rfl
      | error => rfl
  | cons c bytes ih =>
    cases room with
    | zero => rfl
    | succ room =>
      have hreads : reads (c :: bytes) e k = .byte c :: reads bytes e k := rfl
      rw [hreads, readLine]
      by_cases hc : c = '\n'
      · subst hc
        rfl
      · rw [if_neg hc, outcome_cons hc, ← ih, Option.map_map, Option.map_map]
        rfl

/-- An empty line is passed over. -/
theorem receive_newline (reads : List PipeRead) : receive (.byte '\n' :: reads) = receive reads := by
  rw [receive]
  split
  · rename_i rest hline
    obtain rfl : reads = rest := (Prod.mk.inj (Option.some.inj hline)).2
    rfl
  · rename_i hresult
    exact absurd rfl (hresult reads)

theorem skipEmpty_cons {c : Char} (hc : c ≠ '\n') (bytes : List Char) :
    skipEmpty (c :: bytes) = c :: bytes :=
  List.dropWhile_cons_of_neg (by simpa using hc)

/-- What is no empty line ends the loop. -/
theorem receive_of_ne {reads : List PipeRead}
    (h : (readLine lineLength reads).map Prod.fst ≠ some (.ok [])) :
    receive reads = readLine lineLength reads := by
  rw [receive]
  split
  · rename_i rest hline
    rw [hline] at h
    exact absurd rfl h
  · rfl

/-- **The loop on a stream** comes to what `_read_line` comes to behind the empty lines. -/
theorem receive_reads (bytes : List Char) (e : Ending) (k : Nat) :
    (receive (reads bytes e k)).map Prod.fst = outcome lineLength (skipEmpty bytes) e := by
  induction bytes with
  | nil =>
    have hline := readLine_reads lineLength [] e k
    rw [receive_of_ne, hline]
    · rfl
    · rw [hline]
      cases e <;> simp [outcome, firstLine, lineLength]
  | cons c bytes ih =>
    by_cases hc : c = '\n'
    · subst hc
      have hskip : skipEmpty ('\n' :: bytes) = skipEmpty bytes :=
        List.dropWhile_cons_of_pos (by decide)
      have hreads : reads ('\n' :: bytes) e k = .byte '\n' :: reads bytes e k := rfl
      rw [hreads, receive_newline, ih, hskip]
    · have hline := readLine_reads lineLength (c :: bytes) e k
      rw [receive_of_ne, hline, skipEmpty_cons hc]
      rw [hline, show lineLength = 63 + 1 from rfl, outcome_cons hc]
      intro hnil
      obtain ⟨r, -, hr⟩ := Option.map_eq_some_iff.mp hnil
      cases r with
      | ok line => cases hr
      | error r => cases hr

theorem returns_readLine {room : Nat} {bytes : List Char} {e : Ending}
    {r : Except Int (List Char)} :
    Returns (readLine room) bytes e r ↔ outcome room bytes e = some r := by
  simp only [Returns, readLine_reads, exists_const]

theorem returns_receive {bytes : List Char} {e : Ending} {r : Except Int (List Char)} :
    Returns receive bytes e r ↔ outcome lineLength (skipEmpty bytes) e = some r := by
  simp only [Returns, receive_reads, exists_const]

/-! ## Lines -/

section
variable {bytes line rest : List Char} {e : Ending}

theorem newline_not_mem_firstLine (bytes : List Char) : '\n' ∉ firstLine bytes := by
  intro hmem
  simpa using List.mem_takeWhile_imp hmem

theorem firstLine_append (hline : '\n' ∉ line) : firstLine (line ++ '\n' :: rest) = line := by
  have hall : ∀ c ∈ line, decide (c ≠ '\n') = true := by
    intro c hc
    apply decide_eq_true
    rintro rfl
    exact hline hc
  rw [firstLine, List.takeWhile_append_of_pos hall, List.takeWhile_cons_of_neg (by decide),
    List.append_nil]

theorem firstLine_of_not_mem (hbytes : '\n' ∉ bytes) : firstLine bytes = bytes := by
  apply List.takeWhile_eq_self_iff.mpr
  intro c hc
  apply decide_eq_true
  rintro rfl
  exact hbytes hc

/-- A stream with a newline is its first line, and what comes behind. -/
theorem exists_rest (hbytes : '\n' ∈ bytes) :
    ∃ rest, bytes = firstLine bytes ++ '\n' :: rest := by
  obtain ⟨line, rest, rfl, hline⟩ := List.eq_append_cons_of_mem hbytes
  rw [firstLine_append hline]
  exact ⟨rest, rfl⟩

/-- `_read_line` returns no more than there is room for. -/
theorem length_le_of_outcome {room : Nat} (h : outcome room bytes e = some (.ok line)) :
    line.length ≤ room := by
  unfold outcome at h
  dsimp only at h
  split at h
  · cases h
    exact List.length_take_le _ _
  · split at h
    · cases h
      omega
    · cases e <;> cases h

/-- An error is returned in front of the end of the first line. -/
theorem of_outcome_error {room : Nat} {r : Int} (h : outcome room bytes e = some (.error r)) :
    (firstLine bytes).length < room ∧ e = .error := by
  unfold outcome at h
  dsimp only at h
  split at h
  · cases h
  · split at h
    · cases h
    · cases e with
      | eof => cases h
      | error => exact ⟨by omega, rfl⟩

/-- **When `_read_line` ends.** -/
theorem lineEnds_iff (bytes : List Char) (e : Ending) : LineEnds bytes e ↔ Bounded bytes e := by
  unfold LineEnds Bounded
  simp only [returns_readLine]
  constructor
  · rintro ⟨r, hr, hline⟩
    cases r with
    | ok line =>
      obtain ⟨hline, rest, rfl⟩ := hline
      have hmem : '\n' ∈ line ++ '\n' :: rest := List.mem_append_right _ List.mem_cons_self
      rw [if_pos hmem, firstLine_append hline]
      exact length_le_of_outcome hr
    | error r =>
      obtain ⟨hlen, he⟩ := of_outcome_error hr
      rw [firstLine_of_not_mem hline] at hlen
      rw [if_neg hline]
      exact ⟨hlen, he⟩
  · intro h
    split at h
    · rename_i hmem
      refine ⟨.ok (firstLine bytes), ?_, newline_not_mem_firstLine bytes, exists_rest hmem⟩
      unfold outcome
      dsimp only
      by_cases hfull : lineLength ≤ (firstLine bytes).length
      · rw [if_pos hfull, List.take_of_length_le h]
      · rw [if_neg hfull, if_pos hmem]
    · rename_i hmem
      obtain ⟨hlen, rfl⟩ := h
      refine ⟨.error (-1), ?_, hmem⟩
      rw [outcome, firstLine_of_not_mem hmem, if_neg (Nat.not_le.mpr hlen), if_neg hmem]

/-! ## Empty lines -/

theorem skipEmpty_replicate (j : Nat) (bytes : List Char) :
    skipEmpty (List.replicate j '\n' ++ bytes) = skipEmpty bytes := by
  apply List.dropWhile_append_of_pos
  intro c hc
  exact decide_eq_true (List.eq_of_mem_replicate hc)

theorem skipEmpty_of_not_mem (hline : '\n' ∉ line) : skipEmpty line = line := by
  cases line with
  | nil => rfl
  | cons c line =>
    apply skipEmpty_cons
    rintro rfl
    exact hline List.mem_cons_self

theorem skipEmpty_line (hline : '\n' ∉ line) (hne : line ≠ []) :
    skipEmpty (line ++ '\n' :: rest) = line ++ '\n' :: rest := by
  cases line with
  | nil => exact absurd rfl hne
  | cons c line =>
    apply skipEmpty_cons
    rintro rfl
    exact hline List.mem_cons_self

/-- A stream is so many empty lines, and the rest. -/
theorem exists_replicate (bytes : List Char) :
    ∃ j, bytes = List.replicate j '\n' ++ skipEmpty bytes := by
  have hempty : ∀ c ∈ bytes.takeWhile (· = '\n'), c = '\n' := by
    intro c hc
    simpa using List.mem_takeWhile_imp hc
  refine ⟨(bytes.takeWhile (· = '\n')).length, ?_⟩
  rw [← List.eq_replicate_of_mem hempty, skipEmpty, List.takeWhile_append_dropWhile]

/-- The loop ends where `_read_line` would end behind the empty lines. -/
theorem loopEnds_iff (bytes : List Char) (e : Ending) :
    LoopEnds bytes e ↔ LineEnds (skipEmpty bytes) e := by
  unfold LoopEnds LineEnds
  simp only [returns_readLine, returns_receive]
  apply exists_congr
  intro r
  apply and_congr_right
  intro _
  obtain ⟨j, hj⟩ := exists_replicate bytes
  cases r with
  | ok line =>
    constructor
    · rintro ⟨hne, hline, j, rest, rfl⟩
      rw [skipEmpty_replicate, skipEmpty_line hline hne]
      exact ⟨hline, rest, rfl⟩
    · rintro ⟨hline, rest, hrest⟩
      refine ⟨?_, hline, j, rest, hrest ▸ hj⟩
      rintro rfl
      have hhead := List.head?_dropWhile_not (· = '\n') bytes
      rw [show bytes.dropWhile (· = '\n') = '\n' :: rest from hrest] at hhead
      simp at hhead
  | error r =>
    constructor
    · rintro ⟨j, part, hpart, rfl⟩
      rwa [skipEmpty_replicate, skipEmpty_of_not_mem hpart]
    · intro hrest
      exact ⟨j, skipEmpty bytes, hrest, hj⟩

/-- An empty line at the start of a stream is a line. -/
theorem bounded_of_skipEmpty (h : Bounded (skipEmpty bytes) e) : Bounded bytes e := by
  cases bytes with
  | nil => exact h
  | cons c bytes =>
    by_cases hc : c = '\n'
    · subst hc
      rw [Bounded, if_pos List.mem_cons_self]
      exact Nat.zero_le _
    · rwa [skipEmpty_cons hc] at h

/-- **When reading a line ends**: exactly if the first line behind the empty ones fits
into the array, or there is none and the stream ends with an error before the array is
full. -/
theorem ends_iff (bytes : List Char) (e : Ending) :
    (LineEnds bytes e ∧ LoopEnds bytes e) ↔ Bounded (skipEmpty bytes) e := by
  rw [loopEnds_iff, lineEnds_iff, lineEnds_iff]
  exact ⟨fun h => h.2, fun h => ⟨bounded_of_skipEmpty h, h⟩⟩

/-- A line without its end, in front of the end of the file: both wait for ever. -/
theorem not_ends_eof :
    (∀ k, readLine lineLength (reads ['0'] .eof k) = none ∧ receive (reads ['0'] .eof k) = none) ∧
      ¬LineEnds ['0'] .eof ∧ ¬LoopEnds ['0'] .eof := by
  have hline : ∀ k, readLine lineLength (reads ['0'] .eof k) = none := by
    intro k
    exact Option.map_eq_none_iff.mp (readLine_reads lineLength ['0'] .eof k)
  have hloop : ∀ k, receive (reads ['0'] .eof k) = none := by
    intro k
    exact Option.map_eq_none_iff.mp (receive_reads ['0'] .eof k)
  have hbounded : ¬Bounded ['0'] .eof := by
    rintro ⟨-, he⟩
    cases he
  refine ⟨fun k => ⟨hline k, hloop k⟩, ?_, ?_⟩
  · rwa [lineEnds_iff]
  · rwa [loopEnds_iff, lineEnds_iff]

end

end VzLogger.FluksoV2
