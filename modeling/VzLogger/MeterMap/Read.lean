import VzLogger.Buffer
import VzLogger.ReadingId
import VzLogger.Lib.EventMachine
import Mathlib.Data.List.Forall2

/-! # The reading step of a meter

`MeterMap::read` calls the protocol and gives its readings to the channels.  The
protocol writes into a vector of `max_readings` readings and returns how many it
wrote, or a negative error value.  `Meter::read` hands that on as a `size_t`, and
three loops run up to it: the dump of the readings, the plausibility check, and
the distribution.  A loop that leaves the vector has no result here.

Time, statistics, logging and the publishing to other servers are left out.
-/
namespace VzLogger.MeterMap

/-- The members of a `Channel` that the reading step uses. -/
structure Channel where
  identifier : ReadingIdentifier
  last : Reading
  buffer : Buffer

/-- What the configuration and the meter fix: the length of the vector, the log
level, `i_have_a_time_machine`, and the bits of a `size_t`. -/
structure Config where
  maxReadings : Nat
  verbosity : Int
  haveTimeMachine : Bool
  sizeBits : Nat
  size_pos : 0 < sizeBits
  fits : maxReadings < 2 ^ (sizeBits - 1)

/-- `log_debug`. -/
def logDebug : Int := 10

/-- 1990-01-01 00:00:00. -/
def limit1990 : Int := 631152000

/-- `Meter::read`: the result of the protocol as a `size_t`. -/
def meterRead (sizeBits : Nat) (result : Int) : Nat := (result % 2 ^ sizeBits).toNat

/-- `for (size_t i = 0; i < n; i++)` over the readings from an index on; `none` if
an index is not below their number. -/
def forEach {σ : Type} (f : σ → Reading → σ) : Nat → List Reading → σ → Option σ
  | 0, _, s => some s
  | _ + 1, [], _ => none
  | n + 1, rd :: rds, s => forEach f n rds (f s rd)

/-- The plausibility check, with some readings to go of `total`: one that is too
old sets `n` to 0, which also ends the loop. -/
def plausibleReadings (total : Nat) : Nat → List Reading → Option Nat
  | 0, _ => some total
  | _ + 1, [] => none
  | n + 1, rd :: rds =>
    if rd.time.tvSec < limit1990 then some 0 else plausibleReadings total n rds

/-- One reading for one channel. -/
def deliver (ch : Channel) (rd : Reading) : Channel :=
  if rd.identifier.compare ch.identifier then
    { ch with
      last := if ch.last.timeMs < rd.timeMs then rd else ch.last
      buffer := ch.buffer.push rd }
  else ch

/-- Dumping meter output. -/
def dump (cfg : Config) (n : Nat) (rds : List Reading) : Option Unit :=
  if logDebug < cfg.verbosity then forEach (fun _ _ => ()) n rds () else some ()

/-- The readings that are left of `n` after the plausibility check. -/
def checked (cfg : Config) (n : Nat) (rds : List Reading) : Option Nat :=
  if 0 < n ∧ cfg.haveTimeMachine = false then plausibleReadings n n rds else some n

/-- Insert readings into channel queues. -/
def distribute (n : Nat) (rds : List Reading) (chs : List Channel) : Option (List Channel) :=
  if 0 < n then chs.mapM (forEach deliver n rds) else some chs

/-- From the call of the protocol to the end of the channel loop; `rds` is the
vector as the protocol left it. -/
def readStep (cfg : Config) (result : Int) (rds : List Reading) (chs : List Channel) :
    Option (List Channel) := do
  let n := meterRead cfg.sizeBits result
  dump cfg n rds
  let n ← checked cfg n rds
  distribute n rds chs

/-! ## Lists -/

theorem mapM_some {α β : Type} (f : α → β) (l : List α) :
    l.mapM (fun a => some (f a)) = some (l.map f) := by
  induction l with
  | nil => rfl
  | cons a l ih => simp [ih]

theorem forall₂_trans {α β γ : Type} {R : α → β → Prop} {S : β → γ → Prop} {T : α → γ → Prop}
    (hRS : ∀ {a b c}, R a b → S b c → T a c) {l : List α} {m : List β} {n : List γ}
    (h : List.Forall₂ R l m) (h' : List.Forall₂ S m n) : List.Forall₂ T l n := by
  induction h generalizing n with
  | nil =>
    cases h'
    exact .nil
  | cons hab _ ih =>
    cases h' with
    | cons hbc htail => exact .cons (hRS hab hbc) (ih htail)

theorem forall₂_mapIdx {α β : Type} {R : α → β → Prop} {f : Nat → α → β} (h : ∀ k a, R a (f k a))
    (l : List α) : List.Forall₂ R l (l.mapIdx f) := by
  induction l generalizing f with
  | nil => exact .nil
  | cons a l ih =>
    rw [List.mapIdx_cons]
    exact .cons (h 0 a) (ih fun k => h (k + 1))

/-! ## The loops -/

theorem forEach_eq {σ : Type} (f : σ → Reading → σ) (n : Nat) (rds : List Reading) (s : σ) :
    forEach f n rds s = if n ≤ rds.length then some ((rds.take n).foldl f s) else none := by
  induction rds generalizing n s with
  | nil =>
    cases n with
    | zero => rfl
    | succ n => rfl
  | cons rd rds ih =>
    cases n with
    | zero => rfl
    | succ n => simp [forEach, ih]

theorem plausibleReadings_eq (total n : Nat) (rds : List Reading) :
    plausibleReadings total n rds =
      if ∃ rd ∈ rds.take n, rd.time.tvSec < limit1990 then some 0
      else if n ≤ rds.length then some total else none := by
  induction rds generalizing n with
  | nil =>
    cases n with
    | zero => rfl
    | succ n => rfl
  | cons rd rds ih =>
    cases n with
    | zero => simp [plausibleReadings]
    | succ n =>
      by_cases hold : rd.time.tvSec < limit1990
      · simp [plausibleReadings, hold]
      · simp [plausibleReadings, hold, ih]

theorem dump_eq (cfg : Config) (n : Nat) (rds : List Reading) :
    dump cfg n rds = if cfg.verbosity ≤ logDebug ∨ n ≤ rds.length then some () else none := by
  by_cases hdump : logDebug < cfg.verbosity
  · simp [dump, hdump, forEach_eq, not_le.mpr hdump]
  · simp [dump, hdump, not_lt.mp hdump]

/-- The batch is refused: one of its readings is too old. -/
def Vetoed (cfg : Config) (rds : List Reading) : Prop :=
  cfg.haveTimeMachine = false ∧ ∃ rd ∈ rds, rd.time.tvSec < limit1990

instance (cfg : Config) (rds : List Reading) : Decidable (Vetoed cfg rds) :=
  inferInstanceAs (Decidable (_ ∧ _))

theorem checked_eq (cfg : Config) (n : Nat) (rds : List Reading) :
    checked cfg n rds = if Vetoed cfg (rds.take n) then some 0
      else if cfg.haveTimeMachine = true ∨ n ≤ rds.length then some n else none := by
  rcases Nat.eq_zero_or_pos n with rfl | hpos
  · simp [checked, Vetoed]
  · cases htm : cfg.haveTimeMachine with
    | true => simp [checked, Vetoed, htm]
    | false => simp [checked, Vetoed, htm, hpos, plausibleReadings_eq]

theorem distribute_of_le {n : Nat} {rds : List Reading} (h : n ≤ rds.length)
    (chs : List Channel) :
    distribute n rds chs = some (chs.map fun ch => (rds.take n).foldl deliver ch) := by
  have hgive : forEach deliver n rds = fun ch => some ((rds.take n).foldl deliver ch) := by
    funext ch
    rw [forEach_eq, if_pos h]
  rcases Nat.eq_zero_or_pos n with rfl | hpos
  · simp [distribute]
  · rw [distribute, if_pos hpos, hgive, mapM_some]

theorem distribute_of_lt {n : Nat} {rds : List Reading} (h : rds.length < n)
    (chs : List Channel) : distribute n rds chs = if chs = [] then some [] else none := by
  rw [distribute, if_pos (by omega)]
  cases chs with
  | nil => rfl
  | cons ch chs =>
    rw [List.mapM_cons, forEach_eq, if_neg (by omega), if_neg (List.cons_ne_nil ch chs)]
    rfl

/-- A step whose count stays within the vector. -/
theorem readStep_of_le {cfg : Config} {result : Int} {rds : List Reading} {n : Nat}
    (hn : meterRead cfg.sizeBits result = n) (hle : n ≤ rds.length) (chs : List Channel) :
    readStep cfg result rds chs =
      some (if Vetoed cfg (rds.take n) then chs
        else chs.map fun ch => (rds.take n).foldl deliver ch) := by
  rw [readStep, hn, dump_eq, if_pos (Or.inr hle), checked_eq]
  by_cases hveto : Vetoed cfg (rds.take n)
  · rw [if_pos hveto, if_pos hveto]
    rfl
  · rw [if_neg hveto, if_neg hveto, if_pos (Or.inr hle)]
    exact distribute_of_le hle chs

/-- A step whose count leaves the vector. -/
theorem readStep_of_lt {cfg : Config} {result : Int} {rds : List Reading}
    (hlt : rds.length < meterRead cfg.sizeBits result) (chs : List Channel) :
    readStep cfg result rds chs =
      if cfg.verbosity ≤ logDebug ∧
        (Vetoed cfg rds ∨ cfg.haveTimeMachine = true ∧ chs = []) then some chs else none := by
  have hnot : ¬meterRead cfg.sizeBits result ≤ rds.length := by omega
  have htake : rds.take (meterRead cfg.sizeBits result) = rds :=
    List.take_of_length_le (by omega)
  rw [readStep, dump_eq, checked_eq, htake]
  by_cases hdump : cfg.verbosity ≤ logDebug
  · rw [if_pos (Or.inl hdump)]
    by_cases hveto : Vetoed cfg rds
    · -- an old reading ends the loop before the end of the vector
      rw [if_pos hveto, if_pos ⟨hdump, Or.inl hveto⟩]
      rfl
    · rw [if_neg hveto]
      by_cases htm : cfg.haveTimeMachine = true
      · -- nothing is checked: the loops of the channels are the first to run
        rw [if_pos (Or.inl htm)]
        refine (distribute_of_lt hlt chs).trans ?_
        by_cases hnil : chs = []
        · rw [if_pos hnil, if_pos ⟨hdump, Or.inr ⟨htm, hnil⟩⟩, hnil]
        · rw [if_neg hnil, if_neg (by tauto)]
      · rw [if_neg (by tauto), if_neg (by tauto)]
        rfl
  · rw [if_neg (not_or.mpr ⟨hdump, hnot⟩)]
    exact (if_neg fun h => hdump h.1).symm

/-! ## What a channel is given -/

/-- The readings of a channel among those of a batch. -/
def mine (ch : Channel) (rds : List Reading) : List Reading :=
  rds.filter fun rd => rd.identifier.compare ch.identifier

/-- A channel after some readings: its buffer has grown by its own of them, in
order, and by nothing else. -/
structure Grown (rds : List Reading) (ch ch' : Channel) : Prop where
  identifier : ch'.identifier = ch.identifier
  buffer : ∃ new, ch'.buffer.sent.nodes = ch.buffer.sent.nodes ++ new ∧
    new.map Node.val = mine ch rds
  aggmode : ch'.buffer.aggmode = ch.buffer.aggmode
  lastAvg : ch'.buffer.lastAvg = ch.buffer.lastAvg

theorem Grown.refl (ch : Channel) : Grown [] ch ch := ⟨rfl, ⟨[], by simp, rfl⟩, rfl, rfl⟩

theorem Grown.trans {rds rds' : List Reading} {ch ch' ch'' : Channel} (h : Grown rds ch ch')
    (h' : Grown rds' ch' ch'') : Grown (rds ++ rds') ch ch'' := by
  obtain ⟨new, hnodes, hnew⟩ := h.buffer
  obtain ⟨new', hnodes', hnew'⟩ := h'.buffer
  refine ⟨h'.identifier.trans h.identifier, ⟨new ++ new', ?_, ?_⟩, h'.aggmode.trans h.aggmode,
    h'.lastAvg.trans h.lastAvg⟩
  · rw [hnodes', hnodes, List.append_assoc]
  · rw [List.map_append, hnew, hnew', mine, mine, mine, List.filter_append, h.identifier]

theorem grown_deliver (ch : Channel) (rd : Reading) : Grown [rd] ch (deliver ch rd) := by
  unfold deliver
  split
  · rename_i hid
    exact ⟨rfl, ⟨[⟨ch.buffer.sent.next, rd⟩], rfl, by simp [mine, hid]⟩, rfl, rfl⟩
  · rename_i hid
    exact ⟨rfl, ⟨[], by simp, by simp [mine, hid]⟩, rfl, rfl⟩

theorem grown_foldl (rds : List Reading) (ch : Channel) :
    Grown rds ch (rds.foldl deliver ch) := by
  induction rds generalizing ch with
  | nil => exact Grown.refl ch
  | cons rd rds ih => exact (grown_deliver ch rd).trans (ih _)

/-! ## The last reading -/

/-- The newer of two readings, the first one if they are of one time. -/
def newer (l rd : Reading) : Reading := if l.timeMs < rd.timeMs then rd else l

theorem last_foldl (rds : List Reading) (ch : Channel) :
    (rds.foldl deliver ch).last = (mine ch rds).foldl newer ch.last := by
  induction rds generalizing ch with
  | nil => rfl
  | cons rd rds ih =>
    have hmine : mine (deliver ch rd) rds = mine ch rds := by
      rw [mine, mine, (grown_deliver ch rd).identifier]
    rw [List.foldl_cons, ih, hmine]
    by_cases hid : rd.identifier.compare ch.identifier = true
    · simp [mine, deliver, hid, newer]
    · simp [mine, deliver, hid]

/-- The first reading of the greatest time. -/
def IsNewest (rds : List Reading) (l : Reading) : Prop :=
  ∃ pre post, rds = pre ++ l :: post ∧
    (∀ rd ∈ pre, rd.timeMs < l.timeMs) ∧ ∀ rd ∈ post, rd.timeMs ≤ l.timeMs

theorem newest_of_foldl (rds : List Reading) (l : Reading) :
    (rds.foldl newer l = l ∧ ∀ rd ∈ rds, rd.timeMs ≤ l.timeMs) ∨
      (l.timeMs < (rds.foldl newer l).timeMs ∧ IsNewest rds (rds.foldl newer l)) := by
  induction rds generalizing l with
  | nil => exact Or.inl ⟨rfl, by simp⟩
  | cons rd rds ih =>
    rw [List.foldl_cons]
    by_cases h : l.timeMs < rd.timeMs
    · -- `rd` takes over, and stays or is followed by a newer one
      rw [show newer l rd = rd from if_pos h]
      rcases ih rd with ⟨heq, hle⟩ | ⟨hlt, pre, post, hsplit, hpre, hpost⟩
      · rw [heq]
        exact Or.inr ⟨h, [], rds, rfl, by simp, hle⟩
      · refine Or.inr ⟨lt_trans h hlt, rd :: pre, post, by rw [List.cons_append, ← hsplit], ?_,
          hpost⟩
        intro x hx
        rcases List.mem_cons.mp hx with rfl | hx
        · exact hlt
        · exact hpre x hx
    · rw [show newer l rd = l from if_neg h]
      rcases ih l with ⟨heq, hle⟩ | ⟨hlt, pre, post, hsplit, hpre, hpost⟩
      · refine Or.inl ⟨heq, ?_⟩
        intro x hx
        rcases List.mem_cons.mp hx with rfl | hx
        · exact not_lt.mp h
        · exact hle x hx
      · refine Or.inr ⟨hlt, rd :: pre, post, by rw [List.cons_append, ← hsplit], ?_, hpost⟩
        intro x hx
        rcases List.mem_cons.mp hx with rfl | hx
        · exact lt_of_le_of_lt (not_lt.mp h) hlt
        · exact hpre x hx

/-- Readings of positive times, and nothing before them. -/
theorem isNewest_foldl {rds : List Reading} (hne : rds ≠ []) {l : Reading} (hl : l.timeMs = 0)
    (hpos : ∀ rd ∈ rds, 0 < rd.timeMs) : IsNewest rds (rds.foldl newer l) := by
  rcases newest_of_foldl rds l with ⟨-, hle⟩ | ⟨-, h⟩
  · obtain ⟨rd, rest, rfl⟩ := List.exists_cons_of_ne_nil hne
    have h0 := hle rd List.mem_cons_self
    have h1 := hpos rd List.mem_cons_self
    omega
  · exact h

/-! ## Runs -/

/-- The steps of a meter, and anything that happens to the buffers in between. -/
inductive Event where
  | read (result : Int) (rds : List Reading)
  | buffers (f : Nat → Buffer → Buffer)

/-- The channels after an event. -/
def step (cfg : Config) (chs : List Channel) : Event → Option (List Channel)
  | .read result rds => readStep cfg result rds chs
  | .buffers f => some (chs.mapIdx fun k ch => { ch with buffer := f k ch.buffer })

/-- The channels of a meter as a machine. -/
def machine (cfg : Config) (chs : List Channel) : EventMachine.Machine (List Channel) Event :=
  ⟨chs, step cfg⟩

/-- A protocol that keeps its promise: it returns how many readings it wrote, and
no more than there is room for. -/
structure Kept (cfg : Config) (result : Int) (rds : List Reading) : Prop where
  length : rds.length = cfg.maxReadings
  nonneg : 0 ≤ result
  le : result ≤ cfg.maxReadings

/-- The readings a step hands out. -/
def accepted (cfg : Config) (result : Int) (rds : List Reading) : List Reading :=
  if Vetoed cfg (rds.take result.toNat) then [] else rds.take result.toNat

/-- The readings a run hands out to a channel. -/
def delivered (cfg : Config) (ch : Channel) (es : List Event) : List Reading :=
  es.flatMap fun
    | .read result rds => mine ch (accepted cfg result rds)
    | .buffers _ => []

theorem meterRead_of_kept {cfg : Config} {result : Int} {rds : List Reading}
    (h : Kept cfg result rds) : meterRead cfg.sizeBits result = result.toNat := by
  have hpow : (2 : Nat) ^ (cfg.sizeBits - 1) ≤ 2 ^ cfg.sizeBits :=
    Nat.pow_le_pow_right (by decide) (Nat.sub_le _ _)
  have hlt : result < 2 ^ cfg.sizeBits := by
    have hmax : (cfg.maxReadings : Int) < 2 ^ cfg.sizeBits := by
      exact_mod_cast lt_of_lt_of_le cfg.fits hpow
    exact lt_of_le_of_lt h.le hmax
  rw [meterRead, Int.emod_eq_of_lt h.nonneg hlt]

/-- **A step hands out what was read.**  Each channel gets its readings of the
batch, in order, and nothing else; a refused batch changes no channel. -/
theorem readStep_of_kept {cfg : Config} {result : Int} {rds : List Reading}
    (h : Kept cfg result rds) (chs : List Channel) :
    readStep cfg result rds chs =
        some (chs.map fun ch => (accepted cfg result rds).foldl deliver ch) ∧
      (Vetoed cfg (rds.take result.toNat) → readStep cfg result rds chs = some chs) := by
  have hle : result.toNat ≤ rds.length := by
    have hmax := h.le
    rw [h.length]
    omega
  rw [readStep_of_le (meterRead_of_kept h) hle chs, accepted]
  by_cases hveto : Vetoed cfg (rds.take result.toNat)
  · rw [if_pos hveto, if_pos hveto]
    simp
  · rw [if_neg hveto, if_neg hveto]
    exact ⟨rfl, fun hv => absurd hv hveto⟩

/-- What a run leaves of a channel: its identifier, and the newest reading. -/
structure Followed (cfg : Config) (es : List Event) (ch ch' : Channel) : Prop where
  identifier : ch'.identifier = ch.identifier
  last : ch'.last = (delivered cfg ch es).foldl newer ch.last

theorem followed_step {cfg : Config} {e : Event}
    (he : ∀ result rds, e = .read result rds → Kept cfg result rds) (chs : List Channel) :
    ∃ chs', step cfg chs e = some chs' ∧ List.Forall₂ (Followed cfg [e]) chs chs' := by
  cases e with
  | read result rds =>
    refine ⟨_, (readStep_of_kept (he result rds rfl) chs).1, ?_⟩
    rw [List.forall₂_map_right_iff, List.forall₂_same]
    intro ch _
    refine ⟨(grown_foldl _ ch).identifier, ?_⟩
    rw [last_foldl]
    simp [delivered]
  | buffers f =>
    exact ⟨_, rfl, forall₂_mapIdx (fun _ _ => ⟨rfl, rfl⟩) chs⟩

theorem Followed.trans {cfg : Config} {es fs : List Event} {ch ch' ch'' : Channel}
    (h : Followed cfg es ch ch') (h' : Followed cfg fs ch' ch'') :
    Followed cfg (es ++ fs) ch ch'' := by
  refine ⟨h'.identifier.trans h.identifier, ?_⟩
  have hmine : delivered cfg ch' fs = delivered cfg ch fs := by
    unfold delivered mine
    rw [h.identifier]
  rw [h'.last, h.last, hmine, ← List.foldl_append]
  simp [delivered]

theorem followed_run {cfg : Config} {es : List Event}
    (hes : ∀ result rds, .read result rds ∈ es → Kept cfg result rds) (chs : List Channel) :
    ∃ chs', (machine cfg chs).run chs es = some chs' ∧
      List.Forall₂ (Followed cfg es) chs chs' := by
  have hgen : ∀ chs₁, ∃ chs', (machine cfg chs).run chs₁ es = some chs' ∧
      List.Forall₂ (Followed cfg es) chs₁ chs' := by
    induction es with
    | nil =>
      intro chs₁
      exact ⟨chs₁, rfl, List.forall₂_same.mpr fun ch _ => ⟨rfl, rfl⟩⟩
    | cons e es ih =>
      intro chs₁
      obtain ⟨chs₂, hstep, hfirst⟩ := followed_step
        (fun result rds he => hes result rds (he ▸ List.mem_cons_self)) chs₁
      obtain ⟨chs₃, hrun, hrest⟩ :=
        ih (fun result rds he => hes result rds (List.mem_cons_of_mem _ he)) chs₂
      refine ⟨chs₃, EventMachine.Machine.run_cons.mpr ⟨chs₂, hstep, hrun⟩, ?_⟩
      exact forall₂_trans (fun h h' => h.trans h') hfirst hrest
  exact hgen chs

theorem mem_delivered {cfg : Config} {ch : Channel} {es : List Event} {rd : Reading}
    (h : rd ∈ delivered cfg ch es) :
    ∃ result rds, .read result rds ∈ es ∧ rd ∈ rds.take result.toNat := by
  obtain ⟨e, he, hrd⟩ := List.mem_flatMap.mp h
  cases e with
  | read result rds =>
    refine ⟨result, rds, he, ?_⟩
    have hrd := List.mem_of_mem_filter hrd
    unfold accepted at hrd
    split at hrd
    · cases hrd
    · exact hrd
  | buffers f => cases hrd

/-- **Readings are distributed exactly.**  With a protocol that keeps its promise,
a step gives each channel its own readings of the batch, in order, and nothing
else, and no channel changes when the batch is refused.  Over a whole run, the
`last` of a channel is the first reading of the greatest time that it was given. -/
theorem read_distributes (cfg : Config) {chs : List Channel}
    (hnew : ∀ ch ∈ chs, ch.last.timeMs = 0) {es : List Event}
    (hes : ∀ result rds, .read result rds ∈ es → Kept cfg result rds)
    (hpos : ∀ result rds, .read result rds ∈ es → ∀ rd ∈ rds.take result.toNat, 0 < rd.timeMs) :
    (∀ result rds, Kept cfg result rds → ∀ now, ∃ next, readStep cfg result rds now = some next ∧
      (Vetoed cfg (rds.take result.toNat) → next = now) ∧
      (¬Vetoed cfg (rds.take result.toNat) →
        List.Forall₂ (Grown (rds.take result.toNat)) now next)) ∧
    ∃ chs', (machine cfg chs).run chs es = some chs' ∧
      List.Forall₂
        (fun ch ch' => delivered cfg ch es ≠ [] → IsNewest (delivered cfg ch es) ch'.last)
        chs chs' := by
  constructor
  · intro result rds hkept now
    obtain ⟨hstep, hrefused⟩ := readStep_of_kept hkept now
    refine ⟨_, hstep, fun hveto => ?_, fun hveto => ?_⟩
    · exact Option.some.inj (hstep.symm.trans (hrefused hveto))
    · rw [accepted, if_neg hveto, List.forall₂_map_right_iff, List.forall₂_same]
      exact fun ch _ => grown_foldl _ ch
  · obtain ⟨chs', hrun, hfollowed⟩ := followed_run hes chs
    refine ⟨chs', hrun, ?_⟩
    refine ((List.forall₂_and_left chs chs').mpr ⟨hnew, hfollowed⟩).imp ?_
    rintro ch ch' ⟨hch, hf⟩ hne
    rw [hf.last]
    refine isNewest_foldl hne hch fun rd hrd => ?_
    obtain ⟨result, rds, he, hrd⟩ := mem_delivered hrd
    exact hpos result rds he rd hrd

/-- A meter with two registers, and room for four readings. -/
def registers : Config := ⟨4, 0, false, 64, by decide, by decide⟩

/-- The channel of a register, before its first reading. -/
def register (name : String) : Channel :=
  ⟨.string name.toList, ⟨false, 0, ⟨0, 0⟩, .nil⟩, Buffer.initial .none⟩

/-- A value of a register, some seconds after a time. -/
def registered (name : String) (value : Rat) (s : Int) : Reading :=
  ⟨false, value, ⟨1700000000 + s, 0⟩, .string name.toList⟩

/-- Three readings, and a fourth one that an earlier call has left in the vector. -/
def firstBatch : List Reading :=
  [registered "in" 1 10, registered "out" 5 10, registered "in" 2 10, registered "in" 9 0]

def secondBatch : List Reading :=
  [registered "out" 6 20, registered "in" 3 5, registered "out" 7 15, registered "in" 9 0]

/-- The second of its readings is from 1970. -/
def oldBatch : List Reading :=
  [registered "in" 4 30, registered "out" 8 (-1700000000), registered "in" 4 31,
    registered "in" 9 0]

/-- The channels of both registers over two calls, and a third one that is refused. -/
theorem read_distributes_registers :
    let chs := [register "in", register "out"]
    let es : List Event := [.read 3 firstBatch, .read 3 secondBatch]
    (∃ next, readStep registers 3 firstBatch chs = some next ∧
      next.map (fun ch => ch.buffer.sent.nodes.map fun it => it.val.value) = [[1, 2], [5]] ∧
      List.Forall₂ (Grown (firstBatch.take 3)) chs next) ∧
    readStep registers 3 oldBatch chs = some chs ∧
    ∃ chs', (machine registers chs).run chs es = some chs' ∧
      chs'.map Channel.last = [registered "in" 1 10, registered "out" 6 20] ∧
      List.Forall₂ (fun ch ch' => IsNewest (delivered registers ch es) ch'.last) chs chs' := by
  intro chs es
  have hkept : ∀ result rds, .read result rds ∈ es → Kept registers result rds := by
    intro result rds h
    simp only [es, List.mem_cons, Event.read.injEq, List.not_mem_nil, or_false] at h
    rcases h with ⟨rfl, rfl⟩ | ⟨rfl, rfl⟩ <;> exact ⟨rfl, by decide, by decide⟩
  have hpositive : ∀ result rds, .read result rds ∈ es →
      ∀ rd ∈ rds.take result.toNat, 0 < rd.timeMs := by
    intro result rds h
    simp only [es, List.mem_cons, Event.read.injEq, List.not_mem_nil, or_false] at h
    rcases h with ⟨rfl, rfl⟩ | ⟨rfl, rfl⟩ <;> decide +kernel
  have hnew : ∀ ch ∈ chs, ch.last.timeMs = 0 := by decide +kernel
  obtain ⟨hstep, hrun⟩ := read_distributes registers hnew hkept hpositive
  obtain ⟨next, hnext, -, hgrown⟩ := hstep 3 firstBatch ⟨rfl, by decide, by decide⟩ chs
  obtain ⟨old, hold, hveto, -⟩ := hstep 3 oldBatch ⟨rfl, by decide, by decide⟩ chs
  obtain ⟨chs', hchs', hnewest⟩ := hrun
  refine ⟨⟨next, hnext, ?_, hgrown (by decide +kernel)⟩, ?_, chs', hchs', ?_, ?_⟩
  · have hvalues : (readStep registers 3 firstBatch chs).map
        (fun next => next.map fun ch => ch.buffer.sent.nodes.map fun it => it.val.value) =
        some [[1, 2], [5]] := by decide +kernel
    rw [hnext] at hvalues
    exact Option.some.inj hvalues
  · rw [hold, hveto (by decide +kernel)]
  · have hlast : ((machine registers chs).run chs es).map (List.map Channel.last) =
        some [registered "in" 1 10, registered "out" 6 20] := by decide +kernel
    rw [hchs'] at hlast
    exact Option.some.inj hlast
  · -- both channels have been given readings
    refine ((List.forall₂_and_left chs chs').mpr ⟨?_, hnewest⟩).imp fun _ _ h => h.2 h.1
    decide +kernel

/-! ## Errors -/

/-- A step stays within the vector, and delivers nothing if the protocol reported
an error. -/
def Safe (cfg : Config) (result : Int) (rds : List Reading) (chs : List Channel) : Prop :=
  ∃ chs', readStep cfg result rds chs = some chs' ∧
    (result < 0 → chs'.map Channel.buffer = chs.map Channel.buffer)

/-- An error value becomes a count beyond every vector. -/
theorem meterRead_of_neg {cfg : Config} {result : Int} (hneg : result < 0)
    (hlow : -2 ^ (cfg.sizeBits - 1) ≤ result) :
    cfg.maxReadings < meterRead cfg.sizeBits result := by
  obtain ⟨k, hk⟩ : ∃ k, cfg.sizeBits = k + 1 := ⟨cfg.sizeBits - 1, by have := cfg.size_pos; omega⟩
  have hfits : (cfg.maxReadings : Int) < 2 ^ k := by
    have h := cfg.fits
    rw [hk, Nat.add_sub_cancel] at h
    exact_mod_cast h
  rw [hk, Nat.add_sub_cancel] at hlow
  have hpow : (2 : Int) ^ (k + 1) = 2 * 2 ^ k := by ring
  have hmod : result % 2 ^ (k + 1) = result + 2 ^ (k + 1) := by
    rw [← Int.add_emod_right]
    exact Int.emod_eq_of_lt (by omega) (by omega)
  rw [meterRead, hk, hmod]
  omega

/-- **When an error does no harm.**  Without one, always; with one, only if
nothing is dumped and the plausibility check happens to refuse what an earlier
call left in the vector, or is off and there is no channel. -/
theorem safe_iff (cfg : Config) {result : Int} {rds : List Reading}
    (hlength : rds.length = cfg.maxReadings) (hlow : -2 ^ (cfg.sizeBits - 1) ≤ result)
    (hhigh : result ≤ cfg.maxReadings) (chs : List Channel) :
    Safe cfg result rds chs ↔ 0 ≤ result ∨ cfg.verbosity ≤ logDebug ∧
      (Vetoed cfg rds ∨ cfg.haveTimeMachine = true ∧ chs = []) := by
  by_cases hneg : result < 0
  · have hlt := hlength ▸ meterRead_of_neg hneg hlow
    rw [Safe, readStep_of_lt hlt, or_iff_right (not_le.mpr hneg)]
    by_cases hsafe : cfg.verbosity ≤ logDebug ∧
        (Vetoed cfg rds ∨ cfg.haveTimeMachine = true ∧ chs = [])
    · rw [if_pos hsafe]
      exact iff_of_true ⟨chs, rfl, fun _ => rfl⟩ hsafe
    · rw [if_neg hsafe]
      refine iff_of_false ?_ hsafe
      rintro ⟨chs', h, -⟩
      cases h
  · have hkept : Kept cfg result rds := ⟨hlength, not_lt.mp hneg, hhigh⟩
    refine iff_of_true ⟨_, (readStep_of_kept hkept chs).1, fun h => absurd h hneg⟩ ?_
    exact Or.inl (not_lt.mp hneg)

/-- A FluksoV2 meter with `i_have_a_time_machine`, its vector as constructed. -/
def flukso : Config := ⟨16, 0, true, 64, by decide, by decide⟩

def fluksoRds : List Reading := List.replicate 16 ⟨false, 0, ⟨0, 0⟩, .channel 0⟩

def fluksoChannel : Channel := ⟨.channel 1, ⟨false, 0, ⟨0, 0⟩, .nil⟩, Buffer.initial .none⟩

theorem safe_iff_flukso : Safe flukso (-1) fluksoRds [fluksoChannel] ↔ (0 : Int) ≤ -1 ∨
    flukso.verbosity ≤ logDebug ∧
      (Vetoed flukso fluksoRds ∨ flukso.haveTimeMachine = true ∧ [fluksoChannel] = []) :=
  safe_iff flukso (by decide) (by decide) (by decide) [fluksoChannel]

/-- The read error -1 sends the distribution out of the vector. -/
theorem error_leaves_vector : ¬Safe flukso (-1) fluksoRds [fluksoChannel] := by
  have hnone : (readStep flukso (-1) fluksoRds [fluksoChannel]).isNone = true := by decide +kernel
  rintro ⟨chs', h, -⟩
  rw [h] at hnone
  cases hnone

end VzLogger.MeterMap
