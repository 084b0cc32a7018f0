import VzLogger.Mqtt.Model
import Mathlib.Data.List.Basic

/-! # What a subscriber sees

Under each topic of a channel there are the messages of that channel and no others: its
readings in the order of the calls, and its announcements up to the first call in which one
of them goes out.  A subscriber sees those of them that the library has taken.
-/
namespace VzLogger.Mqtt
open scoped List

/-! ## Topics -/

/-- A topic of a channel. -/
def topic (o : Options) (n : Nat) (s : List Char) : List Char := o.topic ++ channelName n ++ '/' :: s

theorem ofNat_injective {m n : Nat} (h : Decimal.ofNat m = Decimal.ofNat n) : m = n := by
  rw [← Decimal.toNat_ofNat m, h, Decimal.toNat_ofNat]

theorem slash_notMem_channelName (n : Nat) : '/' ∉ channelName n := by
  intro hmem
  rcases List.mem_append.mp hmem with h | h
  · revert h
    decide
  · have hdigit := Decimal.isDigit_of_mem_ofNat h
    revert hdigit
    decide

theorem channelName_injective {m n : Nat} (h : channelName m = channelName n) : m = n :=
  ofNat_injective (List.append_cancel_left h)

/-- What stands before the first separator, and what behind it. -/
theorem append_sep_inj {x : Char} {a b s t : List Char} (ha : x ∉ a) (hb : x ∉ b)
    (h : a ++ x :: s = b ++ x :: t) : a = b ∧ s = t := by
  induction a generalizing b with
  | nil =>
    cases b with
    | nil => exact ⟨rfl, (List.cons.inj h).2⟩
    | cons y b => exact absurd (List.cons.inj h).1 (List.ne_of_not_mem_cons hb)
  | cons y a ih =>
    cases b with
    | nil => exact absurd (List.cons.inj h).1.symm (List.ne_of_not_mem_cons ha)
    | cons z b =>
      obtain ⟨rfl, htail⟩ := List.cons.inj h
      obtain ⟨rfl, hst⟩ :=
        ih (List.not_mem_of_not_mem_cons ha) (List.not_mem_of_not_mem_cons hb) htail
      exact ⟨rfl, hst⟩

/-- A topic tells the channel, and what it is about. -/
theorem topic_inj {o : Options} {m n : Nat} {s t : List Char} :
    topic o m s = topic o n t ↔ m = n ∧ s = t := by
  constructor
  · intro h
    rw [topic, topic, List.append_assoc, List.append_assoc, List.append_cancel_left_eq] at h
    obtain ⟨hname, hst⟩ :=
      append_sep_inj (slash_notMem_channelName m) (slash_notMem_channelName n) h
    exact ⟨channelName_injective hname, hst⟩
  · rintro ⟨rfl, rfl⟩
    rfl

/-- The kind of a reading's topic. -/
def kind (aggregate : Bool) : List Char := if aggregate then "agg".toList else "raw".toList

theorem topic_kind_inj {o : Options} {m n : Nat} {a b : Bool} :
    topic o m (kind a) = topic o n (kind b) ↔ m = n ∧ a = b := by
  rw [topic_inj]
  refine and_congr_right fun _ => ?_
  revert a b
  decide

section Entry
variable {M : Type} (c : Setup M)

/-- The values that a channel announces. -/
def announceValues (n : Nat) : List (List Char × List Char) :=
  (newEntry c.options (channelName n) (c.channel n)).announceValues

/-- Whether readings of a kind are published. -/
def sends (n : Nat) (aggregate : Bool) : Bool :=
  if aggregate then (c.channel n).aggregates
  else !(c.channel n).aggregates || c.options.rawAndAgg

/-- What the table holds of a channel it knows. -/
structure Known (n : Nat) (entry : ChannelEntry) : Prop where
  sendRaw : entry.sendRaw = sends c n false
  sendAgg : entry.sendAgg = sends c n true
  raw : entry.fullTopicRaw = topic c.options n (kind false)
  agg : entry.fullTopicAgg = topic c.options n (kind true)
  announceName : entry.announceName = topic c.options n []
  announceValues : entry.announceValues = Mqtt.announceValues c n

variable {c} {n : Nat}

theorem newEntry_eq : newEntry c.options (channelName n) (c.channel n) =
    { generateNames c.options.topic (channelName n) (c.channel n) with
      sendRaw := sends c n false } := by
  unfold newEntry sends
  dsimp only
  cases hagg : (c.channel n).aggregates <;> cases hboth : c.options.rawAndAgg <;>
    simp [generateNames, hagg]

theorem known_newEntry : Known c n (newEntry c.options (channelName n) (c.channel n)) := by
  have hvalues : (newEntry c.options (channelName n) (c.channel n)).announceValues =
      Mqtt.announceValues c n := rfl
  rw [newEntry_eq] at hvalues ⊢
  refine ⟨rfl, by simp [sends, generateNames], ?_, ?_, ?_, hvalues⟩ <;>
    simp [generateNames, topic, kind]

/-- No two values of a channel have the same name, and none is named like a kind of
readings. -/
theorem announceValues_names (n : Nat) :
    ((announceValues c n).map Prod.fst).Nodup ∧
      ∀ v ∈ announceValues c n, ∀ aggregate, v.1 ≠ kind aggregate := by
  have heq : announceValues c n =
      ((unparse (c.channel n).identifier).toList.map fun id => ("id".toList, id)) ++
        if (c.channel n).uuid = [] then [] else [("uuid".toList, (c.channel n).uuid)] := by
    rw [announceValues, newEntry_eq]
    rfl
  rw [heq]
  cases unparse (c.channel n).identifier <;> by_cases hu : (c.channel n).uuid = [] <;>
    simp [hu, kind]

end Entry

/-! ## The books -/

/-- The payloads of the messages under a topic. -/
def under (log : List Message) (t : List Char) : List (List Char) :=
  (log.filter fun m => m.topic = t).map Message.payload

/-- Those of the messages that `mosquitto_publish` has taken. -/
def taken (log : List Message) (t : List Char) : List (List Char) :=
  under (log.filter Message.success) t

/-- The readings of a kind that a channel was to publish. -/
def readings (h : List Call) (n : Nat) (aggregate : Bool) : List Reading :=
  (h.filter fun call => call.channel = n ∧ call.aggregate = aggregate).map Call.reading

/-- An announcement of the call goes out. -/
def Call.heard (call : Call) : Bool := call.results.any id

/-- How many of some attempts are made, if the first success is the last one. -/
def tries : List Bool → Nat
  | [] => 0
  | success :: rest => if success then 1 else tries rest + 1

/-- The calls in which a channel announces itself. -/
def announcements (h : List Call) (n : Nat) : Nat :=
  tries ((h.filter fun call => call.channel = n).map Call.heard)

theorem under_append (l l' : List Message) (t : List Char) :
    under (l ++ l') t = under l t ++ under l' t := by
  rw [under, List.filter_append, List.map_append]
  rfl

theorem under_eq_nil {l : List Message} {t : List Char} (h : ∀ m ∈ l, m.topic ≠ t) :
    under l t = [] := by
  rw [under, List.filter_eq_nil_iff.mpr fun m hm => by simpa using h m hm, List.map_nil]

theorem taken_append (l l' : List Message) (t : List Char) :
    taken (l ++ l') t = taken l t ++ taken l' t := by
  rw [taken, List.filter_append, under_append]
  rfl

theorem taken_sublist (l : List Message) (t : List Char) : taken l t <+ under l t :=
  (List.filter_sublist.filter _).map _

theorem under_singleton {m : Message} {t : List Char} (h : m.topic ≠ t) : under [m] t = [] := by
  refine under_eq_nil fun m' hm => ?_
  rwa [List.mem_singleton.mp hm]

theorem taken_of_under {l : List Message} {t : List Char} (h : under l t = []) : taken l t = [] :=
  List.sublist_nil.mp (h ▸ taken_sublist l t)

theorem taken_eq_nil {l : List Message} {t : List Char}
    (h : ∀ m ∈ l, m.topic = t → m.success = false) : taken l t = [] := by
  refine under_eq_nil fun m hm htopic => ?_
  obtain ⟨hm, hsuccess⟩ := List.mem_filter.mp hm
  rw [h m hm htopic] at hsuccess
  cases hsuccess

theorem tries_concat (l : List Bool) (success : Bool) :
    tries (l ++ [success]) = if l.any id then tries l else tries l + 1 := by
  induction l with
  | nil => cases success <;> rfl
  | cons b l ih =>
    cases b with
    | true => rfl
    | false =>
      simp only [List.cons_append, tries, Bool.false_eq_true, if_false, ih, List.any_cons, id,
        Bool.false_or]
      split <;> rfl

theorem readings_concat (h : List Call) (call : Call) (n : Nat) (aggregate : Bool) :
    readings (h ++ [call]) n aggregate = readings h n aggregate ++
      if call.channel = n ∧ call.aggregate = aggregate then [call.reading] else [] := by
  rw [readings, List.filter_append, List.map_append]
  congr 1
  by_cases hc : call.channel = n ∧ call.aggregate = aggregate <;> simp [hc]

/-- Whether a channel's announcement has gone out. -/
def heard (h : List Call) (n : Nat) : Bool := h.any fun call => call.channel = n && call.heard

theorem heard_concat (h : List Call) (call : Call) (n : Nat) :
    heard (h ++ [call]) n = (heard h n || (call.channel = n && call.heard)) := by
  simp [heard]

theorem announcements_concat (h : List Call) (call : Call) (n : Nat) :
    announcements (h ++ [call]) n =
      if call.channel = n ∧ heard h n = false then announcements h n + 1 else announcements h n := by
  have hany : ((h.filter fun call => call.channel = n).map Call.heard).any id = heard h n := by
    simp [heard, List.any_filter, List.any_map]
  rw [announcements, List.filter_append, List.map_append]
  by_cases hc : call.channel = n
  · have hone : ([call].filter fun call => call.channel = n).map Call.heard = [call.heard] := by
      simp [hc]
    rw [hone, tries_concat, hany]
    cases heard h n <;> simp [hc, announcements]
  · simp [hc, announcements]

section Run
variable {M : Type} {c : Setup M} {w v : Mqtt M} {h : List Call} {n : Nat} {call : Call}

/-- What `publish` finds or makes in the table. -/
def entryOf (c : Setup M) (w : Mqtt M) (n : Nat) : ChannelEntry :=
  (w.chMap (channelName n)).getD (newEntry c.options (channelName n) (c.channel n))

/-- The reading that is still to go out, if it is one of these. -/
def waits (c : Setup M) (w : Mqtt M) (n : Nat) (aggregate : Bool) : List (List Char) :=
  match w.pending (c.meter n) with
  | some (t, p) => if t = topic c.options n (kind aggregate) then [p] else []
  | none => []

/-- A message of a channel, with a topic of the channel's. -/
structure OfChannel (c : Setup M) (n : Nat) (m : Message) : Prop where
  topic : (∃ aggregate, sends c n aggregate = true ∧ m.topic = topic c.options n (kind aggregate)) ∨
    ∃ v ∈ announceValues c n, m.topic = Mqtt.topic c.options n v.1
  qos : m.qos = c.options.qos
  retain : m.retain = c.options.retain

/-- The invariant, with the calls so far. -/
structure Books (c : Setup M) (w : Mqtt M) (h : List Call) : Prop where
  known : ∀ n, Known c n (entryOf c w n)
  announced : ∀ n, (entryOf c w n).announced = heard h n
  pending : ∀ m t p, w.pending m = some (t, p) →
    ∃ n aggregate, sends c n aggregate = true ∧ c.meter n = m ∧
      t = topic c.options n (kind aggregate)
  messages : ∀ m ∈ w.log, ∃ n, OfChannel c n m
  readings : ∀ n aggregate, under w.log (topic c.options n (kind aggregate)) ++ waits c w n aggregate =
    if sends c n aggregate then (readings h n aggregate).map (payload c) else []
  announcements : ∀ n, ∀ v ∈ announceValues c n,
    under w.log (topic c.options n v.1) = List.replicate (announcements h n) v.2
  seen : ∀ n, ∀ v ∈ announceValues c n,
    taken w.log (topic c.options n v.1) <+ if heard h n then [v.2] else []

theorem books_initial : Books c (initial : Mqtt M) [] where
  known _ := known_newEntry
  announced n := by
    rw [entryOf, initial, Option.getD_none, newEntry_eq]
    rfl
  pending _ _ _ h := by cases h
  messages _ h := by cases h
  readings n aggregate := by
    split <;> rfl
  announcements _ _ _ := rfl
  seen _ _ _ := List.nil_sublist _

/-- Each value with its result goes under a topic of its own. -/
theorem under_zipWith {vs : List (List Char × List Char)} {results : List Bool}
    (hlen : results.length = vs.length) (hnodup : (vs.map Prod.fst).Nodup) {v : List Char × List Char}
    (hv : v ∈ vs) :
    under (vs.zipWith (fun v success =>
      mosquittoPublish c (topic c.options n v.1) v.2 success) results) (topic c.options n v.1) =
      [v.2] := by
  induction vs generalizing results with
  | nil => cases hv
  | cons u vs ih =>
    cases results with
    | nil => cases hlen
    | cons success results =>
      rw [List.map_cons, List.nodup_cons] at hnodup
      have hrest : ∀ v' ∈ vs, topic c.options n v'.1 ≠ topic c.options n u.1 := by
        intro v' hv' htopic
        rw [← (topic_inj.mp htopic).2] at hnodup
        exact hnodup.1 (List.mem_map_of_mem hv')
      rw [List.zipWith_cons_cons, ← List.singleton_append, under_append]
      rcases List.mem_cons.mp hv with rfl | hv
      · have hnone : under (vs.zipWith (fun v success =>
            mosquittoPublish c (topic c.options n v.1) v.2 success) results)
            (topic c.options n v.1) = [] := by
          refine under_eq_nil fun m hm => ?_
          obtain ⟨i, hi, rfl⟩ := List.mem_iff_getElem.mp hm
          rw [List.getElem_zipWith]
          exact hrest _ (List.getElem_mem _)
        rw [hnone]
        simp [under, mosquittoPublish]
      · have hne : topic c.options n u.1 ≠ topic c.options n v.1 := (hrest v hv).symm
        rw [ih (Nat.succ.inj hlen) hnodup.2 hv]
        simp [under, mosquittoPublish, hne]

/-- What the announcements of a call leave. -/
structure Announces (c : Setup M) (n : Nat) (entry entry' : ChannelEntry) (results : List Bool)
    (msgs : List Message) : Prop where
  known : Known c n entry'
  announced : entry'.announced = (entry.announced || results.any id)
  topics : ∀ m ∈ msgs, ∃ v ∈ announceValues c n, ∃ success ∈ results,
    m = mosquittoPublish c (topic c.options n v.1) v.2 success
  values : ∀ v ∈ announceValues c n,
    under msgs (topic c.options n v.1) = if entry.announced then [] else [v.2]

theorem announces {entry entry' : ChannelEntry} {results : List Bool} {msgs : List Message}
    (hknown : Known c n entry) (h : announce c entry results = some (entry', msgs)) :
    Announces c n entry entry' results msgs := by
  unfold announce at h
  split at h
  · rename_i hcond
    obtain ⟨hnot, hvalues⟩ := Bool.and_eq_true_iff.mp hcond
    have hnot : entry.announced = false := by simpa using hnot
    obtain ⟨hlen, h⟩ := Option.ite_none_right_eq_some.mp h
    obtain ⟨rfl, rfl⟩ := Prod.mk.inj (Option.some.inj h)
    have htopic : ∀ s, entry.announceName ++ s = topic c.options n s := fun s => by
      rw [hknown.announceName]
      simp [topic]
    simp only [htopic, hknown.announceValues] at hlen ⊢
    refine ⟨?_, ?_, ?_, ?_⟩
    · exact ⟨hknown.sendRaw, hknown.sendAgg, hknown.raw, hknown.agg, hknown.announceName, rfl⟩
    · rw [hnot]
      rfl
    · intro m hm
      obtain ⟨i, hi, rfl⟩ := List.mem_iff_getElem.mp hm
      rw [List.getElem_zipWith]
      exact ⟨_, List.getElem_mem _, _, List.getElem_mem _, rfl⟩
    · intro v hv
      rw [hnot]
      exact under_zipWith hlen (announceValues_names n).1 hv
  · rename_i hcond
    obtain ⟨rfl, h⟩ := Option.ite_none_right_eq_some.mp h
    obtain ⟨rfl, rfl⟩ := Prod.mk.inj (Option.some.inj h)
    refine ⟨hknown, by simp, by simp, ?_⟩
    intro v hv
    have hne : entry.announceValues.isEmpty = false := by
      rw [hknown.announceValues]
      exact List.isEmpty_eq_false_iff.mpr (List.ne_nil_of_mem hv)
    have hannounced : entry.announced = true := by simpa [hne] using hcond
    rw [hannounced]
    rfl

/-- The announcements of a call are under no topic of another channel. -/
theorem Announces.under_other {entry entry' : ChannelEntry} {results : List Bool}
    {msgs : List Message} (h : Announces c n entry entry' results msgs) {k : Nat} (hk : k ≠ n)
    (s : List Char) : under msgs (topic c.options k s) = [] := by
  refine under_eq_nil fun m hm htopic => ?_
  obtain ⟨v, -, success, -, rfl⟩ := h.topics m hm
  exact hk (topic_inj.mp htopic).1.symm

/-- Nor are they under a topic of readings. -/
theorem Announces.under_kind {entry entry' : ChannelEntry} {results : List Bool}
    {msgs : List Message} (h : Announces c n entry entry' results msgs) (k : Nat)
    (aggregate : Bool) : under msgs (topic c.options k (kind aggregate)) = [] := by
  refine under_eq_nil fun m hm htopic => ?_
  obtain ⟨v, hv, success, -, rfl⟩ := h.topics m hm
  obtain ⟨rfl, hkind⟩ := topic_inj.mp htopic
  exact (announceValues_names _).2 v hv aggregate hkind

/-- What is taken of the announcements of a call: nothing if none succeeds. -/
theorem Announces.seen {entry entry' : ChannelEntry} {results : List Bool} {msgs : List Message}
    (h : Announces c n entry entry' results msgs) {v : List Char × List Char}
    (hv : v ∈ announceValues c n) :
    taken msgs (topic c.options n v.1) <+
      if entry.announced = false ∧ results.any id = true then [v.2] else [] := by
  by_cases hheard : results.any id = true
  · have hunder := taken_sublist msgs (topic c.options n v.1)
    rw [h.values v hv] at hunder
    cases hannounced : entry.announced <;> simpa [hannounced, hheard] using hunder
  · rw [if_neg fun hand => hheard hand.2, List.sublist_nil]
    refine taken_eq_nil fun m hm _ => ?_
    obtain ⟨u, -, success, hsuccess, rfl⟩ := h.topics m hm
    by_contra htrue
    exact hheard (List.any_eq_true.mpr ⟨success, hsuccess, by simpa [mosquittoPublish] using htrue⟩)

/-- What is taken of a channel's announcements, over its calls: the first that is heard is the
last one. -/
theorem Announces.seen_concat {entry entry' : ChannelEntry} {msgs : List Message}
    (hspec : Announces c call.channel entry entry' call.results msgs)
    (hannounced : entry.announced = heard h call.channel) {u : List Char × List Char}
    (hu : u ∈ announceValues c call.channel)
    (hbefore : taken w.log (topic c.options call.channel u.1) <+
      if heard h call.channel then [u.2] else []) :
    taken w.log (topic c.options call.channel u.1) ++ taken msgs (topic c.options call.channel u.1) <+
      if heard (h ++ [call]) call.channel then [u.2] else [] := by
  have hcall := hspec.seen hu
  rw [hannounced] at hcall
  rw [heard_concat]
  cases hheard : heard h call.channel with
  | true =>
    -- announced before: the call announces nothing
    rw [hheard] at hbefore hcall
    have hnone : taken msgs (topic c.options call.channel u.1) = [] := by simpa using hcall
    rw [hnone, List.append_nil]
    simpa using hbefore
  | false =>
    rw [hheard] at hbefore hcall
    have hnone : taken w.log (topic c.options call.channel u.1) = [] := by
      simpa using hbefore
    rw [hnone, List.nil_append]
    simpa [Call.heard] using hcall

/-- What a known channel's call leaves to go out. -/
theorem Known.pending {entry : ChannelEntry} (hknown : Known c n entry) (aggregate : Bool)
    (text : List Char) :
    (if (entry.sendAgg && aggregate) || (entry.sendRaw && !aggregate) then
      some (if aggregate then entry.fullTopicAgg else entry.fullTopicRaw, text)
    else none) =
      if sends c n aggregate then some (topic c.options n (kind aggregate), text) else none := by
  rw [hknown.sendAgg, hknown.sendRaw, hknown.raw, hknown.agg]
  cases aggregate <;> simp

variable [DecidableEq M]

/-- A reading goes out. -/
theorem Books.send (hw : Books c w h) {m : M} {t p : List Char} (hp : w.pending m = some (t, p))
    (success : Bool) :
    Books c { w with
      pending := Function.update w.pending m none
      log := w.log ++ [mosquittoPublish c t p success] } h := by
  obtain ⟨n₀, a₀, hsends, hm, ht⟩ := hw.pending m t p hp
  have hannouncement : ∀ n, ∀ v ∈ announceValues c n,
      under [mosquittoPublish c t p success] (topic c.options n v.1) = [] := by
    intro n v hv
    refine under_singleton ?_
    rw [mosquittoPublish, ht, ne_eq, topic_inj]
    rintro ⟨rfl, hkind⟩
    exact (announceValues_names n₀).2 v hv a₀ hkind.symm
  refine ⟨hw.known, hw.announced, ?_, ?_, ?_, ?_, ?_⟩
  · intro u t p hu
    change Function.update w.pending m none u = _ at hu
    by_cases hum : u = m
    · rw [hum, Function.update_self] at hu
      cases hu
    · rw [Function.update_of_ne hum] at hu
      exact hw.pending u t p hu
  · intro msg hmsg
    rcases List.mem_append.mp hmsg with hmsg | hmsg
    · exact hw.messages msg hmsg
    · obtain rfl := List.mem_singleton.mp hmsg
      exact ⟨n₀, .inl ⟨a₀, hsends, ht⟩, rfl, rfl⟩
  · intro n aggregate
    rw [← hw.readings n aggregate, under_append, List.append_assoc]
    congr 1
    by_cases hn : c.meter n = m
    · have hafter : waits c { w with
          pending := Function.update w.pending m none
          log := w.log ++ [mosquittoPublish c t p success] } n aggregate = [] := by
        simp [waits, hn]
      have hbefore : waits c w n aggregate =
          if t = topic c.options n (kind aggregate) then [p] else [] := by
        simp [waits, hn, hp]
      rw [hafter, hbefore, List.append_nil]
      by_cases htopic : t = topic c.options n (kind aggregate) <;>
        simp [under, mosquittoPublish, htopic]
    · have hne : t ≠ topic c.options n (kind aggregate) := by
        rw [ht, ne_eq, topic_inj]
        rintro ⟨rfl, -⟩
        exact hn hm
      rw [under_singleton (by exact hne), List.nil_append]
      simp [waits, Function.update_of_ne hn]
  · intro n v hv
    rw [under_append, hannouncement n v hv, List.append_nil]
    exact hw.announcements n v hv
  · intro n v hv
    rw [taken_append, taken_of_under (hannouncement n v hv), List.append_nil]
    exact hw.seen n v hv

theorem entryOf_publish (hv : w.publish c call = some v) :
    ∃ entry msgs, announce c (entryOf c w call.channel) call.results = some (entry, msgs) ∧
      v.log = w.log ++ msgs ∧
      (∀ n, entryOf c v n = if n = call.channel then entry else entryOf c w n) ∧
      v.pending = Function.update w.pending (c.meter call.channel)
        (if (entry.sendAgg && call.aggregate) || (entry.sendRaw && !call.aggregate) then
          some (if call.aggregate then entry.fullTopicAgg else entry.fullTopicRaw,
            payload c call.reading)
        else none) := by
  obtain ⟨⟨entry, msgs⟩, hann, rfl⟩ := Option.map_eq_some_iff.mp hv
  refine ⟨entry, msgs, hann, rfl, ?_, rfl⟩
  intro n
  by_cases hn : n = call.channel
  · rw [if_pos hn, hn, entryOf]
    dsimp only
    rw [Function.update_self, Option.getD_some]
  · have hname : channelName n ≠ channelName call.channel := fun h => hn (channelName_injective h)
    rw [if_neg hn, entryOf]
    dsimp only
    rw [Function.update_of_ne hname]
    rfl

/-- The reading of a call waits, if its kind is published. -/
theorem waits_publish (hidle : w.pending (c.meter call.channel) = none)
    (hpending : v.pending = Function.update w.pending (c.meter call.channel)
      (if sends c call.channel call.aggregate then
        some (topic c.options call.channel (kind call.aggregate), payload c call.reading)
      else none)) (n : Nat) (aggregate : Bool) :
    waits c v n aggregate = waits c w n aggregate ++
      if sends c n aggregate then
        if call.channel = n ∧ call.aggregate = aggregate then [payload c call.reading] else []
      else [] := by
  unfold waits
  rw [hpending]
  by_cases hm : c.meter n = c.meter call.channel
  · rw [hm, Function.update_self, hidle, List.nil_append]
    by_cases hsame : call.channel = n ∧ call.aggregate = aggregate
    · obtain ⟨rfl, rfl⟩ := hsame
      cases sends c call.channel call.aggregate <;> simp
    · have hne : topic c.options call.channel (kind call.aggregate) ≠
          topic c.options n (kind aggregate) := mt topic_kind_inj.mp hsame
      rw [if_neg hsame, ite_self]
      cases sends c call.channel call.aggregate
      · rfl
      · exact if_neg hne
  · have hn : ¬ call.channel = n := fun h => hm (by rw [h])
    rw [Function.update_of_ne hm]
    simp [hn]

/-- A call of `publish`. -/
theorem Books.publish (hw : Books c w h) {call : Call}
    (hidle : w.pending (c.meter call.channel) = none) (hv : w.publish c call = some v) :
    Books c v (h ++ [call]) := by
  obtain ⟨entry, msgs, hann, hlog, hentry, hpending⟩ := entryOf_publish hv
  have hspec := announces (hw.known call.channel) hann
  rw [hspec.known.pending] at hpending
  refine ⟨?_, ?_, ?_, ?_, ?_, ?_, ?_⟩
  · intro n
    rw [hentry]
    by_cases hn : n = call.channel
    · subst hn
      simpa using hspec.known
    · rw [if_neg hn]
      exact hw.known n
  · intro n
    rw [hentry, heard_concat]
    by_cases hn : n = call.channel
    · subst hn
      simp [hspec.announced, hw.announced, Call.heard]
    · rw [if_neg hn, hw.announced]
      simp [Ne.symm hn]
  · intro m t p hp
    rw [hpending] at hp
    by_cases hm : m = c.meter call.channel
    · rw [hm, Function.update_self] at hp
      obtain ⟨hsends, hp⟩ := Option.ite_none_right_eq_some.mp hp
      obtain ⟨rfl, -⟩ := Prod.mk.inj (Option.some.inj hp)
      exact ⟨call.channel, call.aggregate, hsends, hm.symm, rfl⟩
    · rw [Function.update_of_ne hm] at hp
      exact hw.pending m t p hp
  · intro m hm
    rw [hlog] at hm
    rcases List.mem_append.mp hm with hm | hm
    · exact hw.messages m hm
    · obtain ⟨u, hu, success, -, rfl⟩ := hspec.topics m hm
      exact ⟨call.channel, .inr ⟨u, hu, rfl⟩, rfl, rfl⟩
  · intro n aggregate
    rw [hlog, under_append, hspec.under_kind, List.append_nil, waits_publish hidle hpending,
      ← List.append_assoc, hw.readings n aggregate, readings_concat]
    cases sends c n aggregate
    · rfl
    · by_cases hc : call.channel = n ∧ call.aggregate = aggregate <;> simp [hc]
  · intro n u hu
    rw [hlog, under_append, hw.announcements n u hu, announcements_concat]
    by_cases hn : call.channel = n
    · subst hn
      rw [hspec.values u hu, hw.announced]
      cases heard h call.channel <;> simp [List.replicate_succ']
    · rw [hspec.under_other (Ne.symm hn)]
      simp [hn]
  · intro n u hu
    rw [hlog, taken_append]
    by_cases hn : call.channel = n
    · subst hn
      exact hspec.seen_concat (hw.announced _) hu (hw.seen _ u hu)
    · rw [taken_of_under (hspec.under_other (Ne.symm hn) _), List.append_nil, heard_concat]
      simpa [hn] using hw.seen n u hu

/-! ## Runs -/

/-- The calls among the events. -/
def Event.calls : Event M → List Call
  | .publish call => [call]
  | .send _ _ => []

theorem Books.step {e : Event M} (hw : Books c w h) (hv : Mqtt.step c w e = some v) :
    Books c v (h ++ e.calls) := by
  cases e with
  | publish call =>
    simp only [Mqtt.step] at hv
    split at hv
    · rename_i hidle
      exact hw.publish hidle hv
    · cases hv
  | send m success =>
    obtain ⟨⟨t, p⟩, hp, rfl⟩ := Option.map_eq_some_iff.mp hv
    rw [Event.calls, List.append_nil]
    exact hw.send hp success

/-- **What a subscriber sees.**  Whatever the reading threads do: every message is a channel's,
and under a topic that is the channel's.  Of the channel's readings of a kind that is published,
each is passed to the library once and in the order of the calls, but for one that is still to
go out, and those that it takes are seen; and each of its announcements as often as there are
calls up to the first one in which any of them went out, to be seen at most once. -/
theorem subscriber {es : List (Event M)} (hrun : (machine c).run initial es = some w) :
    (∀ m ∈ w.log, ∃ n, OfChannel c n m) ∧
      ∀ n, (∀ aggregate, sends c n aggregate = true →
          under w.log (topic c.options n (kind aggregate)) ++ waits c w n aggregate =
            (readings (es.flatMap Event.calls) n aggregate).map (payload c) ∧
          taken w.log (topic c.options n (kind aggregate)) <+
            (readings (es.flatMap Event.calls) n aggregate).map (payload c)) ∧
        ∀ v ∈ announceValues c n,
          under w.log (topic c.options n v.1) =
            List.replicate (announcements (es.flatMap Event.calls) n) v.2 ∧
          taken w.log (topic c.options n v.1) <+ [v.2] := by
  have hall : ∀ e ∈ es, (fun _ => True : Event M → Prop) e := fun _ _ => trivial
  have hbooks : Books c w ([] ++ es.flatMap Event.calls) :=
    EventMachine.Machine.run_history Event.calls hrun hall books_initial
      fun _ _ _ _ hw _ hstep => hw.step hstep
  rw [List.nil_append] at hbooks
  refine ⟨hbooks.messages, fun n => ⟨fun aggregate hsends => ?_, fun v hv => ?_⟩⟩
  · have hreadings := hbooks.readings n aggregate
    rw [if_pos hsends] at hreadings
    refine ⟨hreadings, ?_⟩
    rw [← hreadings]
    exact (taken_sublist _ _).trans (List.sublist_append_left _ _)
  · refine ⟨hbooks.announcements n v hv, (hbooks.seen n v hv).trans ?_⟩
    split
    · exact List.Sublist.refl _
    · exact List.nil_sublist _

/-- Two meters' channels, whose calls cross; the first announcement and the last reading of the
first channel fail. -/
theorem subscriber_two :
    let c : Setup Bool :=
      { options := Options.ofEntries [("enabled", .boolean true), ("qos", .int 1)]
        channel := fun n => ⟨.nil, ['u'], n = 1⟩
        meter := fun n => n = 1
        jsonDouble := fun _ => [] }
    let call (n : Nat) (value : Rat) (results : List Bool) : Event Bool :=
      .publish ⟨n, ⟨false, value, ⟨0, 0⟩, .nil⟩, n = 1, results⟩
    ∃ w, (machine c).run initial
        [call 0 5 [false, false], call 1 7 [true, false], .send true true, .send false true,
          call 0 6 [false, true], .send false false] = some w ∧
      under w.log "vzlogger/chn0/raw".toList = [Decimal.ofRat 6 5, Decimal.ofRat 6 6] ∧
      taken w.log "vzlogger/chn0/raw".toList = [Decimal.ofRat 6 5] ∧
      under w.log "vzlogger/chn0/uuid".toList = [['u'], ['u']] ∧
      taken w.log "vzlogger/chn0/uuid".toList = [['u']] ∧
      taken w.log "vzlogger/chn0/uuid".toList <+ [['u']] := by
  intro c call
  have hex : ∃ w, (machine c).run initial
      [call 0 5 [false, false], call 1 7 [true, false], .send true true, .send false true,
        call 0 6 [false, true], .send false false] = some w ∧
        waits c w 0 false = [] ∧ taken w.log "vzlogger/chn0/raw".toList = [Decimal.ofRat 6 5] ∧
        taken w.log "vzlogger/chn0/uuid".toList = [['u']] :=
    EventMachine.Machine.exists_run_of_any (by decide +kernel)
  obtain ⟨w, hrun, hwaits, hraw, huuid⟩ := hex
  obtain ⟨hreadings, hannounce⟩ := (subscriber hrun).2 0
  obtain ⟨hunder, hseen⟩ := hannounce ("uuid".toList, ['u']) (by decide)
  refine ⟨w, hrun, ?_, hraw, hunder.trans (by decide), huuid, hseen⟩
  have hpassed := (hreadings false (by decide)).1
  rw [hwaits, List.append_nil] at hpassed
  exact hpassed

end Run
end VzLogger.Mqtt
