import VzLogger.Volkszaehler.Model

/-! # The request body

The text `api_json_tuples` builds from the queue, in closed form
(`body_eq`): the tuples of the first chunk joined by commas, and a comma after
the last of them when the queue is longer than a chunk.  The separator test
compares with the length of the whole queue, while the loop stops at the chunk
size; so the text is a JSON array exactly for a queue of at most one chunk.
-/
namespace VzLogger.Volkszaehler

/-- The readings one request can carry. -/
def chunk (values : List Reading) : List Reading := values.take maxChunkSize

/-- The JSON value of one reading. -/
def pair (r : Reading) : Json.Value := .arr [.num r.timeMs, .num r.value]

/-- A value that six decimals print exactly. -/
def Micro (r : Reading) : Prop := ∃ m : Int, r.value = m / 10 ^ 6

/-- The body is a JSON array of the pairs of the first chunk, in order. -/
def BodyDecodes (vz : Volkszaehler) : Prop :=
  Json.decode vz.outputData =
    some (.arr ((vz.values.take (min maxChunkSize vz.values.length)).map pair))

/-- The text lists exactly the tuples of `values`, in order; a comma may be left
over before the closing bracket. -/
def Lists (text : List Char) (values : List Reading) : Prop :=
  ∃ rest, (rest = [] ∨ rest = [',']) ∧
    text = '[' :: [','].intercalate (values.map tuple) ++ (rest ++ [']'])

/-- The comma that is left over when the queue is longer than a chunk. -/
def leftover (values : List Reading) : List Char :=
  if maxChunkSize < values.length then ",".toList else []

/-! ## The text in closed form -/

/-- The loop invariant: with `nrTuples` tuples written and `rest` to go, the loop
adds the tuples up to the chunk limit, separated, and the leftover comma. -/
theorem formatLoop_eq {size nrTuples : Nat} {rest : List Reading} (hrest : rest ≠ [])
    (hsize : size = nrTuples + rest.length) (hlt : nrTuples < maxChunkSize)
    (outputData : List Char) :
    formatLoop size rest nrTuples outputData =
      outputData ++ [','].intercalate ((rest.take (maxChunkSize - nrTuples)).map tuple) ++
        (if maxChunkSize < size then ",".toList else []) := by
  induction rest generalizing nrTuples outputData with
  | nil => exact absurd rfl hrest
  | cons r rest ih =>
    obtain ⟨k, hk⟩ : ∃ k, maxChunkSize - nrTuples = k + 1 := ⟨maxChunkSize - nrTuples - 1, by omega⟩
    rw [formatLoop, hk, List.take_succ_cons, List.map_cons]
    simp only [List.length_cons] at hsize
    cases rest with
    | nil =>
      simp only [List.length_nil] at hsize
      rw [if_neg (show ¬nrTuples + 1 < size by omega), if_neg (show ¬maxChunkSize < size by omega)]
      simp [formatLoop]
    | cons r' rest =>
      simp only [List.length_cons] at hsize
      rw [if_pos (show nrTuples + 1 < size by omega)]
      by_cases hfull : maxChunkSize ≤ nrTuples + 1
      · -- the chunk is full, and there are more values
        obtain rfl : k = 0 := by omega
        rw [if_pos hfull, if_pos (show maxChunkSize < size by omega)]
        simp
      · obtain ⟨j, rfl⟩ : ∃ j, k = j + 1 := ⟨k - 1, by omega⟩
        rw [if_neg hfull, ih (by simp) (by simp only [List.length_cons]; omega) (by omega),
          show maxChunkSize - (nrTuples + 1) = j + 1 by omega, List.take_succ_cons, List.map_cons,
          Json.intercalate_cons_cons]
        simp

/-- The text of the body. -/
theorem body_eq {values : List Reading} (h : values ≠ []) :
    body values =
      '[' :: [','].intercalate ((chunk values).map tuple) ++ (leftover values ++ [']']) := by
  rw [body, formatLoop_eq h (by simp) (by decide)]
  simp [chunk, leftover]

theorem chunk_ne_nil {values : List Reading} (h : values ≠ []) : chunk values ≠ [] := by
  simp [chunk, h, maxChunkSize]

theorem leftover_of_le {values : List Reading} (h : values.length ≤ maxChunkSize) :
    leftover values = [] := if_neg (by omega)

theorem leftover_of_lt {values : List Reading} (h : maxChunkSize < values.length) :
    leftover values = [','] := if_pos h

/-- The body lists the first chunk of the queue. -/
theorem lists_body {values : List Reading} (h : values ≠ []) :
    Lists (body values) (chunk values) := by
  refine ⟨leftover values, ?_, body_eq h⟩
  rcases Nat.lt_or_ge maxChunkSize values.length with hl | hl
  · exact Or.inr (leftover_of_lt hl)
  · exact Or.inl (leftover_of_le hl)

/-- No body lists nothing. -/
theorem not_lists_body_nil {values : List Reading} (h : values ≠ []) : ¬Lists (body values) [] := by
  rintro ⟨rest, hrest, heq⟩
  obtain ⟨r, tl, hchunk⟩ := List.exists_cons_of_ne_nil (chunk_ne_nil h)
  rw [body_eq h, hchunk, List.map_cons] at heq
  cases tl with
  | nil => rcases hrest with rfl | rfl <;> simp [tuple] at heq
  | cons r' tl => rcases hrest with rfl | rfl <;> simp [tuple] at heq

theorem not_lists_empty (values : List Reading) : ¬Lists [] values := by
  rintro ⟨rest, -, heq⟩
  cases heq

/-! ## What the text decodes to -/

theorem reads_tuple {r : Reading} (hr : Micro r) : Json.Reads (tuple r) (pair r) 4 := by
  obtain ⟨m, hm⟩ := hr
  have h : List.Forall₂ (Json.Reads · · 1) [Decimal.ofInt r.timeMs, Decimal.ofRat 6 r.value]
      [.num r.timeMs, .num r.value] :=
    .cons (Json.reads_ofInt _) (.cons (Json.reads_ofRat (by decide) hm) .nil)
  have hread := Json.reads_arr h (by simp)
  rw [Json.intercalate_cons_cons, Json.intercalate_singleton] at hread
  simpa [tuple, pair] using hread

theorem reads_tuples {values : List Reading} (h : ∀ r ∈ values, Micro r) :
    List.Forall₂ (Json.Reads · · 4) (values.map tuple) (values.map pair) := by
  rw [List.forall₂_map_left_iff, List.forall₂_map_right_iff, List.forall₂_same]
  exact fun r hr => reads_tuple (h r hr)

/-- A joined text is as long as any of its parts. -/
theorem four_le_length_tuples {values : List Reading} (h : values ≠ []) :
    4 ≤ ([','].intercalate (values.map tuple)).length := by
  obtain ⟨r, rest, rfl⟩ := List.exists_cons_of_ne_nil h
  have hr : 4 ≤ (tuple r).length := by
    have h1 : (Decimal.ofInt r.timeMs).length ≠ 0 := by
      unfold Decimal.ofInt
      split
      · simp
      · simpa using Decimal.ofNat_ne_nil _
    have h2 : (Decimal.ofRat 6 r.value).length ≠ 0 := by simp [Decimal.ofRat]
    simp only [tuple, List.length_append]
    simp
    omega
  cases rest with
  | nil => simpa [Json.intercalate_singleton] using hr
  | cons r' rest =>
    rw [List.map_cons, List.map_cons, Json.intercalate_cons_cons, List.length_append]
    omega

section Decode
variable {values : List Reading} (hne : values ≠ []) (hmicro : ∀ r ∈ values, Micro r)
include hne hmicro

theorem decode_body_of_le (h : values.length ≤ maxChunkSize) :
    Json.decode (body values) = some (.arr ((chunk values).map pair)) := by
  have hread := reads_tuples fun r (hr : r ∈ chunk values) => hmicro r (List.mem_of_mem_take hr)
  rw [body_eq hne, leftover_of_le h, List.nil_append]
  exact Json.decode_arr hread (by simpa using chunk_ne_nil hne)
    (four_le_length_tuples (chunk_ne_nil hne))

theorem decode_body_of_lt (h : maxChunkSize < values.length) :
    Json.decode (body values) = none := by
  have hread := reads_tuples fun r (hr : r ∈ chunk values) => hmicro r (List.mem_of_mem_take hr)
  rw [body_eq hne, leftover_of_lt h]
  exact Json.decode_trailing hread (by simpa using chunk_ne_nil hne)
    (four_le_length_tuples (chunk_ne_nil hne))

end Decode

theorem chunk_eq (values : List Reading) :
    chunk values = values.take (min maxChunkSize values.length) := by
  rw [chunk, List.take_eq_take_iff]
  omega

theorem apiJsonTuples_values (duplicates : Int) (vz : Volkszaehler) (buf : Buffer) :
    (apiJsonTuples duplicates vz buf).1.values = (drain duplicates vz buf).1.values :=
  format_values _

theorem apiJsonTuples_outputData {duplicates : Int} {vz : Volkszaehler} {buf : Buffer}
    (h : (drain duplicates vz buf).1.values ≠ []) :
    (apiJsonTuples duplicates vz buf).1.outputData = body (drain duplicates vz buf).1.values :=
  format_outputData h

/-- **The body is well formed exactly for a queue of at most one chunk.** -/
theorem apiJsonTuples_decodes_iff (duplicates : Int) (vz : Volkszaehler) (buf : Buffer)
    (hne : (apiJsonTuples duplicates vz buf).1.values ≠ [])
    (hmicro : ∀ r ∈ (apiJsonTuples duplicates vz buf).1.values, Micro r) :
    BodyDecodes (apiJsonTuples duplicates vz buf).1 ↔
      (apiJsonTuples duplicates vz buf).1.values.length ≤ maxChunkSize := by
  rw [apiJsonTuples_values] at hne hmicro ⊢
  rw [BodyDecodes, apiJsonTuples_outputData hne, apiJsonTuples_values, ← chunk_eq]
  constructor
  · intro h
    by_contra hlt
    rw [decode_body_of_lt hne hmicro (by omega)] at h
    cases h
  · exact decode_body_of_le hne hmicro

/-- A buffer of `n` readings of value 1, a second apart. -/
def ticks (n : Nat) : Buffer :=
  (List.range n).foldl (fun b i => b.push (.tick (i + 1))) (Buffer.initial .none)

theorem apiJsonTuples_decodes_iff_ticks :
    BodyDecodes (apiJsonTuples 0 initial (ticks 3)).1 ↔
      (apiJsonTuples 0 initial (ticks 3)).1.values.length ≤ maxChunkSize :=
  apiJsonTuples_decodes_iff 0 initial (ticks 3) (by decide +kernel) (fun r hr =>
    ⟨1000000, by
      have h : ∀ r ∈ (apiJsonTuples 0 initial (ticks 3)).1.values, r.value = 1 := by decide +kernel
      rw [h r hr]
      norm_num⟩)

/-- Sixty-five readings drained at once: the body ends in `,]`. -/
theorem body_of_ticks_malformed : ¬BodyDecodes (apiJsonTuples 0 initial (ticks 65)).1 := by
  have hvalue : ∀ r ∈ (drain 0 initial (ticks 65)).1.values, r.value = 1 := by decide +kernel
  have hne : (drain 0 initial (ticks 65)).1.values ≠ [] := by decide +kernel
  have hlen : (drain 0 initial (ticks 65)).1.values.length = 65 := by decide +kernel
  have hlt : maxChunkSize < (drain 0 initial (ticks 65)).1.values.length := by rw [hlen]; decide
  have hmicro : ∀ r ∈ (drain 0 initial (ticks 65)).1.values, Micro r :=
    fun r hr => ⟨1000000, by rw [hvalue r hr]; norm_num⟩
  have hnone := decode_body_of_lt hne hmicro hlt
  intro h
  rw [BodyDecodes, apiJsonTuples_outputData hne, hnone] at h
  cases h

end VzLogger.Volkszaehler
