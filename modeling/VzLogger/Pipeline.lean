import VzLogger.MeterMap.Read
import VzLogger.Volkszaehler.Conservation
import VzLogger.Volkszaehler.Duplicates

/-! # From the meter to the middleware

The threads of one meter: the reading thread, which hands the meter's readings to the channels
one by one and cleans their buffers, and the logging thread of each channel, which uploads what
its buffer holds.  Any of them may run between two steps of another.

A reading that was handed out is on its way in one of four places: the reading thread has still
to push it, it waits in the buffer, it is queued in the interface, or the middleware has it.
-/
namespace VzLogger.Pipeline

open Volkszaehler (Upload UploadEvent)

/-- A channel with the `volkszaehler` interface, in aggregation mode `none`: the `aggregate` of
`sendData` returns at once. -/
structure Channel where
  identifier : ReadingIdentifier
  duplicates : Int

structure Config where
  meter : MeterMap.Config
  aggtime : Int
  channels : List Channel

/-- Where the reading thread stands. -/
inductive ReaderPc where
  | read
  /-- the loop over the readings, for channel `n`: those still to come, and all of them -/
  | give (n : Nat) (todo rds : List Reading)
  /-- `time(NULL) < aggIntEnd` -/
  | loopEnd
  | sendData (n : Nat)

structure World where
  pc : ReaderPc
  channel : Nat → Upload

inductive Event where
  /-- the protocol returns -/
  | read (result : Int) (rds : List Reading)
  /-- a step of the reading thread that nothing outside decides -/
  | reader
  | clock (again : Bool)
  /-- a step of the logging thread of channel `n` -/
  | logging (n : Nat) (e : UploadEvent)

namespace World

def initial : World := ⟨.read, fun _ => Upload.initial⟩

def setChannel (w : World) (n : Nat) (u : Upload) : World :=
  { w with channel := Function.update w.channel n u }

/-- The readings that the meter returned, after the plausibility check. -/
def read (cfg : Config) (w : World) (result : Int) (rds : List Reading) : Option World := do
  let n := MeterMap.meterRead cfg.meter.sizeBits result
  MeterMap.dump cfg.meter n rds
  let n ← MeterMap.checked cfg.meter n rds
  if n ≤ rds.length then some { w with pc := .give 0 (rds.take n) (rds.take n) } else none

def reader (cfg : Config) (w : World) : Option World :=
  match w.pc with
  | .give n todo rds =>
    match cfg.channels[n]? with
    | none => some { w with pc := .loopEnd }
    | some ch =>
      match todo with
      | [] => some { w with pc := .give (n + 1) rds rds }
      | rd :: todo =>
        if rd.identifier.compare ch.identifier then
          (Upload.step ch.duplicates (w.channel n) (.push rd)).map fun u =>
            { w.setChannel n u with pc := .give n todo rds }
        else some { w with pc := .give n todo rds }
  | .sendData n =>
    match cfg.channels[n]? with
    | none => some { w with pc := .read }
    | some ch =>
      (Upload.step ch.duplicates (w.channel n) .clean).map fun u =>
        { w.setChannel n u with pc := .sendData (n + 1) }
  | _ => none

def clock (cfg : Config) (w : World) (again : Bool) : Option World :=
  match w.pc with
  | .loopEnd =>
    if again then if 0 < cfg.aggtime then some { w with pc := .read } else none
    else some { w with pc := .sendData 0 }
  | _ => none

/-- The steps of `send()`. -/
def isSend : UploadEvent → Bool
  | .push _ | .clean => false
  | _ => true

def step (cfg : Config) (w : World) : Event → Option World
  | .read result rds =>
    match w.pc with
    | .read => w.read cfg result rds
    | _ => none
  | .reader => w.reader cfg
  | .clock again => w.clock cfg again
  | .logging n e =>
    match cfg.channels[n]? with
    | none => none
    | some ch =>
      if isSend e then (Upload.step ch.duplicates (w.channel n) e).map (w.setChannel n) else none

def machine (cfg : Config) : EventMachine.Machine World Event := ⟨initial, step cfg⟩

end World

/-! ## The places of a reading -/

/-- The readings of a channel. -/
def mine (ch : Channel) (rds : List Reading) : List Reading :=
  rds.filter fun rd => rd.identifier.compare ch.identifier

/-- The readings that the meter has handed out. -/
def handed (cfg : Config) : Event → List Reading
  | .read result rds => MeterMap.accepted cfg.meter result rds
  | _ => []

/-- What the reading thread has still to push into channel `n`. -/
def ReaderPc.todo (pc : ReaderPc) (ch : Channel) (n : Nat) : List Reading :=
  match pc with
  | .give k todo rds => if n < k then [] else if n = k then mine ch todo else mine ch rds
  | _ => []

/-- The protocol keeps its promise, and constructs readings without a mark. -/
structure Proper (cfg : Config) (result : Int) (rds : List Reading) : Prop where
  kept : MeterMap.Kept cfg.meter result rds
  unmarked : ∀ rd ∈ rds, rd.deleted = false

/-- What is asked of the events, for channel `n`. -/
def Admitted (cfg : Config) (n : Nat) : Event → Prop
  | .read result rds => Proper cfg result rds
  | .logging m e => m = n → Upload.NoDuplicateEntry e
  | _ => True

theorem mine_append (ch : Channel) (rds rds' : List Reading) :
    mine ch (rds ++ rds') = mine ch rds ++ mine ch rds' := List.filter_append ..

theorem mine_cons (ch : Channel) (rd : Reading) (rds : List Reading) :
    mine ch (rd :: rds) =
      if rd.identifier.compare ch.identifier then rd :: mine ch rds else mine ch rds := by
  simp [mine, List.filter_cons]

/-- The readings of channel `n`: pushed, or still to push. -/
structure Piped (ch : Channel) (n : Nat) (w : World) (l : List Reading) : Prop where
  split : ∃ given, mine ch l = given ++ w.pc.todo ch n ∧
    Upload.Filtered ch.duplicates (w.channel n) given
  accounts : Upload.Accounts (w.channel n)
  unmarked : ∀ k todo rds, w.pc = .give k todo rds →
    (∀ rd ∈ todo, rd.deleted = false) ∧ ∀ rd ∈ rds, rd.deleted = false

variable {cfg : Config} {ch : Channel} {n : Nat} {w t : World} {l : List Reading}

theorem piped_initial : Piped ch n World.initial [] where
  split := ⟨[], rfl, Upload.filtered_initial ch.duplicates⟩
  accounts := Upload.accounts_initial
  unmarked _ _ _ h := by cases h

/-- The reading thread moves on, and the channel does not. -/
theorem Piped.goto (hw : Piped ch n w l) {pc : ReaderPc} (htodo : pc.todo ch n = w.pc.todo ch n)
    (hunmarked : ∀ k todo rds, pc = .give k todo rds →
      (∀ rd ∈ todo, rd.deleted = false) ∧ ∀ rd ∈ rds, rd.deleted = false) :
    Piped ch n { w with pc := pc } l := by
  obtain ⟨given, hsplit, hfiltered⟩ := hw.split
  exact ⟨⟨given, hsplit.trans (congrArg _ htodo.symm), hfiltered⟩, hw.accounts, hunmarked⟩

/-- A step on a channel's upload. -/
theorem Piped.upload (hw : Piped ch n w l) {k : Nat} {ch' : Channel} {e : UploadEvent} {u : Upload}
    (hch : k = n → ch' = ch) (hu : Upload.step ch'.duplicates (w.channel k) e = some u)
    (hunmarked : Upload.PushesUnmarked e) (hnodup : k = n → Upload.NoDuplicateEntry e)
    {pc : ReaderPc} (htodo : w.pc.todo ch n = (if k = n then Upload.pushed e else []) ++ pc.todo ch n)
    (hpc : ∀ k todo rds, pc = .give k todo rds →
      (∀ rd ∈ todo, rd.deleted = false) ∧ ∀ rd ∈ rds, rd.deleted = false) :
    Piped ch n { w.setChannel k u with pc := pc } l := by
  obtain ⟨given, hsplit, hfiltered⟩ := hw.split
  by_cases hk : k = n
  · subst hk
    rw [hch rfl] at hu
    have hsame : (w.setChannel k u).channel k = u := Function.update_self ..
    refine ⟨⟨given ++ Upload.pushed e, ?_, ?_⟩, ?_, hpc⟩
    · rw [hsplit, htodo, if_pos rfl, List.append_assoc]
    · rw [hsame]
      exact Upload.filtered_step hfiltered hunmarked hu
    · rw [hsame]
      exact Upload.accounts_step hw.accounts (hnodup rfl) hu
  · have hother : (w.setChannel k u).channel n = w.channel n :=
      Function.update_of_ne (Ne.symm hk) ..
    rw [if_neg hk, List.nil_append] at htodo
    refine ⟨⟨given, ?_, ?_⟩, ?_, hpc⟩
    · rw [hsplit, htodo]
    · rwa [hother]
    · rw [hother]
      exact hw.accounts

/-- The batch that is handed out. -/
theorem World.read_of_kept {result : Int} {rds : List Reading}
    (hkept : MeterMap.Kept cfg.meter result rds) :
    w.read cfg result rds = some { w with
      pc := .give 0 (MeterMap.accepted cfg.meter result rds)
        (MeterMap.accepted cfg.meter result rds) } := by
  have hle : result.toNat ≤ rds.length := by
    have hmax := hkept.le
    rw [hkept.length]
    omega
  rw [World.read, MeterMap.meterRead_of_kept hkept, MeterMap.dump_eq, if_pos (.inr hle),
    MeterMap.checked_eq, MeterMap.accepted]
  by_cases hveto : MeterMap.Vetoed cfg.meter (rds.take result.toNat)
  · rw [if_pos hveto, if_pos hveto]
    rfl
  · rw [if_neg hveto, if_neg hveto, if_pos (.inr hle)]
    exact if_pos hle

theorem mem_accepted {result : Int} {rds : List Reading} {rd : Reading}
    (h : rd ∈ MeterMap.accepted cfg.meter result rds) : rd ∈ rds := by
  unfold MeterMap.accepted at h
  split at h
  · cases h
  · exact List.mem_of_mem_take h

/-- The meter has returned: every channel has all readings of the batch still to come. -/
theorem Piped.read (hw : Piped ch n w l) (hpc : w.pc = .read) {result : Int} {rds : List Reading}
    (hproper : Proper cfg result rds) (ht : w.read cfg result rds = some t) :
    Piped ch n t (l ++ MeterMap.accepted cfg.meter result rds) := by
  rw [World.read_of_kept hproper.kept] at ht
  obtain rfl := Option.some.inj ht
  obtain ⟨given, hsplit, hfiltered⟩ := hw.split
  have hall : ∀ rd ∈ MeterMap.accepted cfg.meter result rds, rd.deleted = false :=
    fun rd hrd => hproper.unmarked rd (mem_accepted hrd)
  refine ⟨⟨given, ?_, hfiltered⟩, hw.accounts, ?_⟩
  · have hnone : w.pc.todo ch n = [] := by rw [hpc]; rfl
    rw [hnone, List.append_nil] at hsplit
    rw [mine_append, hsplit]
    congr 1
    simp only [ReaderPc.todo, Nat.not_lt_zero, if_false, ite_self]
  · intro k todo rds h
    obtain ⟨-, rfl, rfl⟩ := ReaderPc.give.inj h
    exact ⟨hall, hall⟩

/-- The reading thread looks at the next reading, or goes on to the next channel. -/
theorem Piped.reader (hw : Piped ch n w l) (hch : cfg.channels[n]? = some ch)
    (ht : w.reader cfg = some t) : Piped ch n t l := by
  have hsame : ∀ k ch', cfg.channels[k]? = some ch' → k = n → ch' = ch := by
    rintro k ch' hk rfl
    exact Option.some.inj (hk.symm.trans hch)
  unfold World.reader at ht
  split at ht
  · rename_i k todo rds hpc
    obtain ⟨htodo, hrds⟩ := hw.unmarked k todo rds hpc
    split at ht
    · rename_i hk
      obtain rfl := Option.some.inj ht
      -- the loop has passed all channels, this one among them
      have hlt : n < k := by
        obtain ⟨hn, -⟩ := List.getElem?_eq_some_iff.mp hch
        exact lt_of_lt_of_le hn (List.getElem?_eq_none_iff.mp hk)
      refine hw.goto ?_ fun _ _ _ h => by cases h
      simp [hpc, ReaderPc.todo, hlt]
    · rename_i ch' hk
      split at ht
      · obtain rfl := Option.some.inj ht
        refine hw.goto ?_ ?_
        · simp only [hpc, ReaderPc.todo, mine, List.filter_nil]
          split_ifs <;> first | rfl | omega
        · intro j todo' rds' h
          obtain ⟨-, rfl, rfl⟩ := ReaderPc.give.inj h
          exact ⟨hrds, hrds⟩
      · rename_i rd todo
        obtain ⟨hrd, htodo⟩ := List.forall_mem_cons.mp htodo
        have hpc' : ∀ j todo' rds', ReaderPc.give k todo rds = .give j todo' rds' →
            (∀ rd ∈ todo', rd.deleted = false) ∧ ∀ rd ∈ rds', rd.deleted = false := by
          intro j todo' rds' h
          obtain ⟨-, rfl, rfl⟩ := ReaderPc.give.inj h
          exact ⟨htodo, hrds⟩
        split at ht
        · rename_i hid
          obtain ⟨u, hu, rfl⟩ := Option.map_eq_some_iff.mp ht
          refine hw.upload (hsame k ch' hk) hu hrd (fun _ => trivial) ?_ hpc'
          rw [hpc]
          simp only [ReaderPc.todo]
          by_cases hkn : k = n
          · subst hkn
            rw [hsame k ch' hk rfl] at hid
            simp [mine_cons, hid, Upload.pushed]
          · simp [hkn, Ne.symm hkn]
        · rename_i hid
          obtain rfl := Option.some.inj ht
          refine hw.goto ?_ hpc'
          rw [hpc]
          simp only [ReaderPc.todo]
          by_cases hkn : k = n
          · subst hkn
            rw [hsame k ch' hk rfl] at hid
            simp [mine_cons, hid]
          · simp [Ne.symm hkn]
  · rename_i k hpc
    split at ht
    · obtain rfl := Option.some.inj ht
      refine hw.goto ?_ fun _ _ _ h => by cases h
      rw [hpc]
      rfl
    · rename_i ch' hk
      obtain ⟨u, hu, rfl⟩ := Option.map_eq_some_iff.mp ht
      refine hw.upload (hsame k ch' hk) hu trivial (fun _ => trivial) ?_ fun _ _ _ h => by cases h
      rw [hpc]
      simp [ReaderPc.todo, Upload.pushed]
  · cases ht

theorem Piped.clock (hw : Piped ch n w l) {again : Bool} (ht : w.clock cfg again = some t) :
    Piped ch n t l := by
  unfold World.clock at ht
  split at ht
  · rename_i hpc
    have htodo : w.pc.todo ch n = [] := by rw [hpc]; rfl
    split at ht
    · obtain ⟨-, ht⟩ := Option.ite_none_right_eq_some.mp ht
      obtain rfl := Option.some.inj ht
      exact hw.goto htodo.symm fun _ _ _ h => by cases h
    · obtain rfl := Option.some.inj ht
      exact hw.goto htodo.symm fun _ _ _ h => by cases h
  · cases ht

theorem pushed_of_isSend {e : UploadEvent} (h : World.isSend e = true) :
    Upload.pushed e = [] ∧ Upload.PushesUnmarked e := by
  cases e with
  | push rd => cases h
  | clean => cases h
  | send | drain | post | respond => exact ⟨rfl, trivial⟩

theorem Piped.step (hw : Piped ch n w l) (hch : cfg.channels[n]? = some ch) {e : Event}
    (he : Admitted cfg n e) (ht : World.step cfg w e = some t) :
    Piped ch n t (l ++ handed cfg e) := by
  cases e with
  | read result rds =>
    simp only [World.step] at ht
    split at ht
    · rename_i hpc
      exact hw.read hpc he ht
    · cases ht
  | reader =>
    have hnone : l ++ handed cfg .reader = l := List.append_nil l
    rw [hnone]
    exact hw.reader hch ht
  | clock again =>
    have hnone : l ++ handed cfg (.clock again) = l := List.append_nil l
    rw [hnone]
    exact hw.clock ht
  | logging k e =>
    have hnone : l ++ handed cfg (.logging k e) = l := List.append_nil l
    rw [hnone]
    simp only [World.step] at ht
    split at ht
    · cases ht
    · rename_i ch' hk
      obtain ⟨hsend, ht⟩ := Option.ite_none_right_eq_some.mp ht
      obtain ⟨u, hu, rfl⟩ := Option.map_eq_some_iff.mp ht
      obtain ⟨hpushed, hunmarked⟩ := pushed_of_isSend hsend
      have hsame : k = n → ch' = ch := by
        rintro rfl
        exact Option.some.inj (hk.symm.trans hch)
      have htodo : w.pc.todo ch n = (if k = n then Upload.pushed e else []) ++ w.pc.todo ch n := by
        simp [hpushed]
      exact hw.upload hsame hu hunmarked he htodo hw.unmarked

/-! ## Runs -/

/-- Readings of increasing times all pass the filter, without the duplicates option. -/
theorem forward_zero {f : FilterState} {rs : List Reading}
    (hnewer : ∀ r ∈ rs, f.lastTimestamp < r.timeMs)
    (hrs : (rs.map Reading.timeMs).Pairwise (· < ·)) : (Volkszaehler.forward 0 f rs).2 = rs := by
  induction rs generalizing f with
  | nil => rfl
  | cons r rs ih =>
    obtain ⟨hr, hnewer⟩ := List.forall_mem_cons.mp hnewer
    obtain ⟨hlt, hrs⟩ := List.pairwise_cons.mp hrs
    have haccept : Volkszaehler.accept 0 f r = some { f with lastTimestamp := r.timeMs } := by
      rw [Volkszaehler.accept, FilterState.accept_zero]
      simp [hr]
    rw [Volkszaehler.forward, haccept]
    exact congrArg (r :: ·) (ih (fun q hq => hlt _ (List.mem_map_of_mem hq)) hrs)

/-- **Every reading is in one place.**  In every run of the threads of a meter, what a channel
was handed out is, in this order, what its filter has seen, what waits in its buffer, and what the
reading thread has still to push; and what the filter let pass is what the middleware has
acknowledged, each value in the body of a request answered with 200, followed by the queue.
Without the duplicates option, and with increasing times, nothing else becomes of a reading. -/
theorem readings_in_place (hch : cfg.channels[n]? = some ch) {es : List Event}
    (hrun : (World.machine cfg).run World.initial es = some w)
    (hes : ∀ e ∈ es, Admitted cfg n e) :
    let u := w.channel n
    let readings := mine ch (es.flatMap (handed cfg))
    (∃ seen, readings = seen ++ u.waiting ++ w.pc.todo ch n ∧
        u.removed ++ u.vz.values = Volkszaehler.forwarded ch.duplicates seen) ∧
      (u.removed = (u.calls.map Volkszaehler.Call.removed).flatten ∧ ∀ c ∈ u.calls, c.Settled) ∧
      (ch.duplicates = 0 → (∀ r ∈ readings, 0 < r.timeMs) →
        (readings.map Reading.timeMs).Pairwise (· < ·) →
        readings = u.removed ++ u.vz.values ++ u.waiting ++ w.pc.todo ch n) := by
  intro u readings
  have hw : Piped ch n w ([] ++ es.flatMap (handed cfg)) :=
    EventMachine.Machine.run_history (handed cfg) hrun hes piped_initial
      fun _ _ _ _ hw he hstep => hw.step hch he hstep
  obtain ⟨given, hgiven, hfiltered⟩ := hw.split
  obtain ⟨seen, rfl, hforward⟩ := hfiltered.split
  have haccepted : u.removed ++ u.vz.values = Volkszaehler.forwarded ch.duplicates seen := by
    rw [Volkszaehler.forwarded, hforward, ← hw.accounts.accepted]
  rw [List.nil_append] at hgiven
  refine ⟨⟨seen, hgiven, haccepted⟩, ⟨hw.accounts.removed, hw.accounts.calls⟩, ?_⟩
  intro hzero hpos hincreasing
  have hsplit : readings = seen ++ (u.waiting ++ w.pc.todo ch n) := by
    rw [← List.append_assoc]
    exact hgiven
  rw [hsplit] at hpos hincreasing
  rw [List.map_append] at hincreasing
  have hseen : Volkszaehler.forwarded 0 seen = seen :=
    forward_zero (fun r hr => hpos r (by simp [hr])) (List.pairwise_append.mp hincreasing).1
  rw [haccepted, hzero, hseen]
  exact hgiven

/-- Two channels of one meter; the reading of the second one is acknowledged while the first one
has not been sent at all. -/
theorem readings_in_place_two :
    let cfg : Config :=
      ⟨⟨2, 0, false, 64, by decide, by decide⟩, -1, [⟨.channel 1, 0⟩, ⟨.channel 2, 0⟩]⟩
    let rd (k : Int) : Reading := ⟨false, 5, ⟨1700000000, 0⟩, .channel k⟩
    ∃ w, (World.machine cfg).run World.initial
        (.read 2 [rd 2, rd 1] :: List.replicate 7 .reader ++ .clock false ::
          Volkszaehler.Upload.sendOk.map (.logging 1)) = some w ∧
      [rd 2] = (w.channel 1).removed ∧ (w.channel 0).removed = [] := by
  intro cfg rd
  have hex : ∃ w, (World.machine cfg).run World.initial
      (.read 2 [rd 2, rd 1] :: List.replicate 7 .reader ++ .clock false ::
        Volkszaehler.Upload.sendOk.map (.logging 1)) = some w ∧
      ((w.channel 1).vz.values = [] ∧ (w.channel 1).waiting = [] ∧
        w.pc.todo ⟨.channel 2, 0⟩ 1 = [] ∧ (w.channel 0).removed = []) :=
    EventMachine.Machine.exists_run_of_any (by decide +kernel)
  obtain ⟨w, hrun, ⟨hvalues, hwaiting, htodo, hfirst⟩⟩ := hex
  have hproper : Proper cfg 2 [rd 2, rd 1] :=
    ⟨⟨rfl, by decide, by decide⟩, by simp [rd]⟩
  have hes : ∀ e ∈ .read 2 [rd 2, rd 1] :: List.replicate 7 .reader ++ .clock false ::
      Volkszaehler.Upload.sendOk.map (.logging 1), Admitted cfg 1 e := by
    simp only [List.cons_append, List.forall_mem_cons, List.forall_mem_append]
    refine ⟨hproper, fun e he => ?_, trivial, ?_⟩
    · rw [List.eq_of_mem_replicate he]
      trivial
    · simp only [Volkszaehler.Upload.sendOk, List.map_cons, List.map_nil, List.forall_mem_cons]
      exact ⟨fun _ => trivial, fun _ => trivial, fun _ => trivial, fun _ => rfl, by simp⟩
  have hplaces := (readings_in_place rfl hrun hes).2.2 rfl (by decide) (by decide)
  rw [hvalues, hwaiting, htodo, List.append_nil, List.append_nil, List.append_nil] at hplaces
  exact ⟨w, hrun, hplaces, hfirst⟩

end VzLogger.Pipeline
