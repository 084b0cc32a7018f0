import VzLogger.Config.Accepted
import VzLogger.Lib.KeyedFold

/-! # The order of the members

The members of an object are a set, and the loops of `config_parse` take them in some order.
The configuration does not depend on it, neither at the document nor at a meter or a channel:
every part of what a loop keeps is made by the members of one name.  Where two names make one
part, `sensors` and `meters`, or `channels` and `channel`, at most one of them is there.

What is refused in one order is refused in another, for a reason that may be another one.  A
document of the right shape has that shape in any order: then it is an exception in each.
-/
namespace VzLogger.Config
open Outcome KeyedFold OptionList

/-! ## Options -/

/-- What members become, one after the other. -/
def MakesOptions (ms : List (String × Value)) (options : List Opt) : Prop :=
  List.Forall₂ (fun m o => Opt.new m.1 m.2 = .ok o) ms options

theorem MakesOptions.keys {ms : List (String × Value)} {options : List Opt}
    (h : MakesOptions ms options) : options.map Opt.key = ms.map Prod.fst := by
  induction h with
  | nil => rfl
  | cons ho _ ih => rw [List.map_cons, List.map_cons, Opt.new_key ho, ih]

/-- Members in another order make the options in another order. -/
theorem MakesOptions.perm {ms ns : List (String × Value)} {options : List Opt}
    (h : MakesOptions ms options) (hperm : ns.Perm ms) :
    ∃ others, MakesOptions ns others ∧ others.Perm options :=
  List.perm_comp_forall₂ hperm h

/-- A loop that turns every member into an option. -/
theorem foldlM_options_ok_iff {ms : List (String × Value)}
    {step : List Opt → String × Value → Except Error (List Opt)}
    (hstep : ∀ m ∈ ms, ∀ options, step options m =
      (Opt.new m.1 m.2).map fun o => options ++ [o]) {options others : List Opt} :
    ms.foldlM step options = .ok others ↔
      ∃ made, MakesOptions ms made ∧ others = options ++ made := by
  rw [foldlM_congr hstep]
  clear hstep
  induction ms generalizing options with
  | nil =>
    constructor
    · intro h
      obtain rfl := Except.ok.inj h
      exact ⟨[], .nil, (List.append_nil _).symm⟩
    · rintro ⟨made, hmade, rfl⟩
      cases hmade
      exact congrArg Except.ok (List.append_nil _).symm
  | cons m ms ih =>
    rw [List.foldlM_cons]
    cases hm : Opt.new m.1 m.2 with
    | error e =>
      constructor
      · intro h
        cases h
      · rintro ⟨made, hmade, -⟩
        cases hmade with
        | cons ho _ =>
          rw [hm] at ho
          cases ho
    | ok o =>
      refine Iff.trans ih ?_
      constructor
      · rintro ⟨made, hmade, rfl⟩
        exact ⟨o :: made, .cons hm hmade, by simp⟩
      · rintro ⟨made, hmade, rfl⟩
        cases hmade with
        | @cons _ o' _ made' ho hmade =>
          rw [hm] at ho
          obtain rfl := Except.ok.inj ho
          exact ⟨made', hmade, by simp⟩

/-- Options in another order, that answer alike. -/
structure OptionsAlike (options others : List Opt) : Prop where
  perm : options.Perm others
  find : find options = find others

theorem OptionsAlike.refl (options : List Opt) : OptionsAlike options options := ⟨.refl _, rfl⟩

theorem OptionsAlike.of_perm {options others : List Opt} (h : options.Perm others)
    (hdistinct : (options.map Opt.key).Nodup) : OptionsAlike options others :=
  ⟨h, find_perm h hdistinct⟩

theorem OptionsAlike.lookup {options others : List Opt} (h : OptionsAlike options others) :
    lookup options = lookup others := by
  funext key
  rw [OptionList.lookup, OptionList.lookup, h.find]

/-! ## Channels -/

/-- What a channel's members make. -/
inductive ChannelPart where
  | uuid
  | identifier
  | api
  | options
  deriving DecidableEq

namespace ChannelPart

/-- The part that a member makes. -/
def of : String × Value → ChannelPart
  | ("uuid", .string _) => .uuid
  | ("identifier", .string _) => .identifier
  | ("api", .string _) => .api
  | _ => .options

def Carrier : ChannelPart → Type
  | .uuid | .identifier => Option (List Char)
  | .api => List Char
  | .options => List Opt

def get (c : ChannelMembers) : ∀ k : ChannelPart, k.Carrier
  | .uuid => c.uuid
  | .identifier => c.idStr
  | .api => c.apiProtocol
  | .options => c.options

/-- The part alone. -/
def put : ∀ k : ChannelPart, k.Carrier → ChannelMembers
  | .uuid, x => { ChannelMembers.empty with uuid := x }
  | .identifier, x => { ChannelMembers.empty with idStr := x }
  | .api, x => { ChannelMembers.empty with apiProtocol := x }
  | .options, x => { ChannelMembers.empty with options := x }

def read (k : ChannelPart) (x : k.Carrier) (m : String × Value) : Except Error k.Carrier :=
  ((put k x).add m).map fun c => get c k

theorem get_injective : Function.Injective get := by
  intro c d h
  have huuid : c.uuid = d.uuid := congrFun h .uuid
  have hid : c.idStr = d.idStr := congrFun h .identifier
  have hapi : c.apiProtocol = d.apiProtocol := congrFun h .api
  have hoptions : c.options = d.options := congrFun h .options
  cases c
  cases d
  simp_all

/-- A member that makes an option. -/
theorem add_of_options {c : ChannelMembers} {m : String × Value} (h : of m = .options) :
    c.add m = (Opt.new m.1 m.2).map fun o => { c with options := c.options ++ [o] } := by
  unfold ChannelMembers.add
  split
  case h_4 => rfl
  all_goals cases h

/-- A member reads and makes its own part. -/
theorem add_get (c : ChannelMembers) (m : String × Value) :
    (c.add m).map get = update of read (get c) m := by
  cases hpart : of m with
  | options =>
    rw [update, read, hpart, add_of_options hpart, add_of_options hpart]
    cases Opt.new m.1 m.2 with
    | error e => rfl
    | ok o => exact congrArg Except.ok (funext fun k => by cases k <;> rfl)
  | _ =>
    unfold of at hpart
    split at hpart
    all_goals cases hpart
    all_goals exact congrArg Except.ok (funext fun k => by cases k <;> rfl)

theorem name_of {m n : String × Value} {k : ChannelPart} (hk : k ≠ .options) (hm : of m = k)
    (hn : of n = k) : m.1 = n.1 := by
  subst hm
  unfold of at hk hn
  split at hk <;> split at hn <;> first | rfl | exact absurd rfl hk | cases hn

/-- The loop over the members that make options. -/
theorem foldlM_read_options {ms : List (String × Value)} {options others : List Opt} :
    (entries of .options ms).foldlM (read .options) options = .ok others ↔
      ∃ made, MakesOptions (entries of .options ms) made ∧ others = options ++ made := by
  apply foldlM_options_ok_iff
  intro m hm options
  unfold read
  rw [add_of_options (mem_entries hm)]
  cases Opt.new m.1 m.2 <;> rfl

end ChannelPart

/-- Members that make one channel. -/
structure ChannelMembers.Alike (c d : ChannelMembers) : Prop where
  uuid : c.uuid = d.uuid
  idStr : c.idStr = d.idStr
  apiProtocol : c.apiProtocol = d.apiProtocol
  options : OptionsAlike c.options d.options

theorem ChannelMembers.exists_alike {ms ns : List (String × Value)} (h : ms.Perm ns)
    (hdistinct : (ms.map Prod.fst).Nodup) {c : ChannelMembers}
    (hc : ms.foldlM ChannelMembers.add .empty = .ok c) :
    ∃ d, ns.foldlM ChannelMembers.add .empty = .ok d ∧ c.Alike d := by
  rw [foldlM_ok_iff ChannelPart.get_injective ChannelPart.add_get] at hc
  -- a part that one member makes sees the same member in both orders
  have hsame : ∀ k, k ≠ ChannelPart.options →
      (entries ChannelPart.of k ns).foldlM (ChannelPart.read k) (ChannelPart.get .empty k) =
        .ok (ChannelPart.get c k) := by
    intro k hk
    have hone : (entries ChannelPart.of k ms).length ≤ 1 :=
      length_entries_le_one hdistinct fun _ _ hm hn => ChannelPart.name_of hk hm hn
    rw [← entries_eq_of_perm h hone]
    exact hc k
  obtain ⟨made, hmade, hcoptions⟩ := ChannelPart.foldlM_read_options.mp (hc .options)
  have hentries : (entries ChannelPart.of .options ns).Perm (entries ChannelPart.of .options ms) :=
    entries_perm h.symm ChannelPart.options
  obtain ⟨others, hothers, hperm⟩ := hmade.perm hentries
  refine ⟨{ c with options := others }, ?_, rfl, rfl, rfl, .of_perm ?_ ?_⟩
  · rw [foldlM_ok_iff ChannelPart.get_injective ChannelPart.add_get]
    intro k
    cases k with
    | options => exact ChannelPart.foldlM_read_options.mpr ⟨others, hothers, rfl⟩
    | uuid => exact hsame .uuid (by decide)
    | identifier => exact hsame .identifier (by decide)
    | api => exact hsame .api (by decide)
  · rw [show c.options = made from hcoptions]
    exact hperm.symm
  · rw [show c.options = made from hcoptions, hmade.keys]
    exact hdistinct.sublist (List.filter_sublist.map _)

/-- The members of a channel, in any order. -/
theorem ChannelMembers.foldlM_perm {ms ns : List (String × Value)} (h : ms.Perm ns)
    (hdistinct : (ms.map Prod.fst).Nodup) :
    Outcome.Alike ChannelMembers.Alike (ms.foldlM ChannelMembers.add .empty)
      (ns.foldlM ChannelMembers.add .empty) := by
  apply Outcome.Alike.of_results
  · intro c hc
    exact exists_alike h hdistinct hc
  · intro d hd
    obtain ⟨c, hc, -⟩ := exists_alike h.symm ((h.map Prod.fst).nodup hdistinct) hd
    exact ⟨c, hc⟩

/-- Channels that are the same, but for the order of their options. -/
structure Channel.Alike (c d : Channel) : Prop where
  options : OptionsAlike c.options d.options
  rest : c = { d with options := c.options }

theorem Channel.Alike.refl (c : Channel) : c.Alike c := ⟨.refl _, rfl⟩

section channels
variable {env : Environment} {protocol : MeterProtocol} {id : Nat}

theorem Channel.new_alike {options others : List Opt} (h : OptionsAlike options others)
    (api : List Char) (uuid : Uuid) (identifier : ReadingIdentifier) :
    Outcome.Alike Channel.Alike (Channel.new id options api uuid identifier)
      (Channel.new id others api uuid identifier) := by
  have hlookup := h.lookup
  rw [Channel.new, Channel.new, lookupString, lookupInt, lookupString, lookupInt, hlookup]
  apply (Outcome.Alike.refl (R := Eq) (fun _ => rfl) _).bind
  rintro aggmode _ rfl
  apply (Outcome.Alike.refl (R := Eq) (fun _ => rfl) _).bind
  rintro duplicates _ rfl
  exact .ok ⟨h, rfl⟩

theorem ChannelMembers.channel_alike {c d : ChannelMembers} (h : c.Alike d) :
    Outcome.Alike Channel.Alike (c.channel env protocol id) (d.channel env protocol id) := by
  rw [ChannelMembers.channel, ChannelMembers.channel, h.uuid, h.idStr, h.apiProtocol]
  apply (Outcome.Alike.refl (R := Eq) (fun _ => rfl) _).bind
  rintro uuid _ rfl
  apply (Outcome.Alike.refl (R := Eq) (fun _ => rfl) _).bind
  rintro identifier _ rfl
  exact Channel.new_alike h.options _ _ _

/-- What is in the second of two related lists comes from the first. -/
theorem exists_related {α β : Type} {R : α → β → Prop} {as : List α} {bs : List β}
    (h : List.Forall₂ R as bs) {b : β} (hb : b ∈ bs) : ∃ a ∈ as, R a b := by
  induction h with
  | nil => cases hb
  | @cons a b' as bs hab _ ih =>
    rcases List.mem_cons.mp hb with rfl | hb
    · exact ⟨a, List.mem_cons_self, hab⟩
    · obtain ⟨a', ha', hR⟩ := ih hb
      exact ⟨a', List.mem_cons_of_mem a ha', hR⟩

/-- Channels of the document that are the same, but for the order of their members. -/
inductive SameChannel : Value → Value → Prop where
  | refl (v : Value) : SameChannel v v
  | perm {ms ns : List (String × Value)} (hdistinct : (ms.map Prod.fst).Nodup) (h : ms.Perm ns) :
    SameChannel (.object ms) (.object ns)

theorem nullsNamed_perm {ms ns : List (String × Value)} (h : ms.Perm ns) (hnulls : NullsNamed ms) :
    NullsNamed ns := fun m hm => hnulls m (h.mem_iff.mpr hm)

theorem SameChannel.shaped {v w : Value} (h : SameChannel v w) (hv : ChannelShaped v) :
    ChannelShaped w := by
  cases h with
  | refl => exact hv
  | perm hdistinct h =>
    exact ⟨nullsNamed_perm h hv.1, fun s hs => hv.2 s (h.mem_iff.mpr hs)⟩

theorem configParseChannel_alike {v w : Value} (h : SameChannel v w) :
    Outcome.Alike Channel.Alike (configParseChannel env protocol id v)
      (configParseChannel env protocol id w) := by
  cases h with
  | refl => exact Outcome.Alike.refl Channel.Alike.refl _
  | perm hdistinct h =>
    apply (ChannelMembers.foldlM_perm h hdistinct).bind
    intro c d hcd
    exact ChannelMembers.channel_alike hcd

theorem configParseChannels_alike {vs ws : List Value} (h : List.Forall₂ SameChannel vs ws) :
    Outcome.Alike (List.Forall₂ Channel.Alike) (configParseChannels env protocol id vs)
      (configParseChannels env protocol id ws) := by
  induction h generalizing id with
  | nil => exact .ok .nil
  | cons hvw _ ih =>
    apply (configParseChannel_alike hvw).bind
    intro ch ch' hch
    apply ih.bind
    intro chs chs' hchs
    exact .ok (.cons hch hchs)

end channels

/-! ## Meters -/

/-- What a meter's members make. -/
inductive MeterPart where
  | channels
  | options
  deriving DecidableEq

namespace MeterPart

/-- The part that a member makes. -/
def of : String × Value → MeterPart
  | ("channels", .array _) | ("channel", .object _) => .channels
  | _ => .options

/-- The names of the members that make the channels are taken for one. -/
def name (key : String) : String := if key = "channel" then "channels" else key

def Carrier : MeterPart → Type
  | .channels => List Value
  | .options => List Opt

def get (m : MeterMembers) : ∀ k : MeterPart, k.Carrier
  | .channels => m.channels
  | .options => m.options

/-- The part alone. -/
def put : ∀ k : MeterPart, k.Carrier → MeterMembers
  | .channels, x => { MeterMembers.empty with channels := x }
  | .options, x => { MeterMembers.empty with options := x }

def read (k : MeterPart) (x : k.Carrier) (e : String × Value) : Except Error k.Carrier :=
  ((put k x).add e).map fun m => get m k

theorem get_injective : Function.Injective get := by
  intro m n h
  have hchannels : m.channels = n.channels := congrFun h .channels
  have hoptions : m.options = n.options := congrFun h .options
  cases m
  cases n
  simp_all

/-- A member that makes an option. -/
theorem add_of_options {m : MeterMembers} {e : String × Value} (h : of e = .options) :
    m.add e = (Opt.new e.1 e.2).map fun o => { m with options := m.options ++ [o] } := by
  unfold MeterMembers.add
  split
  case h_3 => rfl
  all_goals cases h

theorem add_get (m : MeterMembers) (e : String × Value) :
    (m.add e).map get = update of read (get m) e := by
  cases hpart : of e with
  | options =>
    rw [update, read, hpart, add_of_options hpart, add_of_options hpart]
    cases Opt.new e.1 e.2 with
    | error e => rfl
    | ok o => exact congrArg Except.ok (funext fun k => by cases k <;> rfl)
  | channels =>
    unfold of at hpart
    split at hpart
    all_goals cases hpart
    all_goals exact congrArg Except.ok (funext fun k => by cases k <;> rfl)

theorem name_of {e : String × Value} (h : of e = .channels) : name e.1 = "channels" := by
  unfold of at h
  split at h <;> first | rfl | cases h

/-- The loop over the members that make options. -/
theorem foldlM_read_options {ms : List (String × Value)} {options others : List Opt} :
    (entries of .options ms).foldlM (read .options) options = .ok others ↔
      ∃ made, MakesOptions (entries of .options ms) made ∧ others = options ++ made := by
  apply foldlM_options_ok_iff
  intro m hm options
  unfold read
  rw [add_of_options (mem_entries hm)]
  cases Opt.new m.1 m.2 <;> rfl

/-- Names that are told apart are keys that are. -/
theorem nodup_keys {ms : List (String × Value)} (h : (ms.map fun e => name e.1).Nodup) :
    (ms.map Prod.fst).Nodup := by
  apply List.Nodup.of_map name
  rw [List.map_map]
  exact h

end MeterPart

/-- Members of a meter that are the same, but for the order in a channel. -/
inductive SameMeterMember : String × Value → String × Value → Prop where
  | refl (e : String × Value) : SameMeterMember e e
  | channels {vs ws : List Value} (h : List.Forall₂ SameChannel vs ws) :
    SameMeterMember ("channels", .array vs) ("channels", .array ws)
  | channel {ms ns : List (String × Value)} (h : SameChannel (.object ms) (.object ns)) :
    SameMeterMember ("channel", .object ms) ("channel", .object ns)


/-- Meters of the document that are the same, but for the order of their members and of those
of their channels. -/
inductive SameMeter : Value → Value → Prop where
  | refl (v : Value) : SameMeter v v
  | members {ms ls ns : List (String × Value)} (h : List.Forall₂ SameMeterMember ms ls)
    (hdistinct : (ls.map fun e => MeterPart.name e.1).Nodup) (hperm : ls.Perm ns) :
    SameMeter (.object ms) (.object ns)

/-- Members that make one meter, with channels that are the same. -/
structure MeterMembers.Alike (m n : MeterMembers) : Prop where
  channels : List.Forall₂ SameChannel m.channels n.channels
  options : OptionsAlike m.options n.options

theorem sameChannels_refl (vs : List Value) : List.Forall₂ SameChannel vs vs :=
  List.forall₂_same.mpr fun v _ => .refl v

/-- Members that are the same are one, or an array or an object in which they differ. -/
theorem SameMeterMember.inv {e : String × Value} {key : String} {w : Value}
    (h : SameMeterMember e (key, w)) : e = (key, w) ∨
      (∃ vs ws, e = (key, .array vs) ∧ w = .array ws ∧ List.Forall₂ SameChannel vs ws) ∨
      ∃ bs cs, e = (key, .object bs) ∧ w = .object cs ∧ SameChannel (.object bs) (.object cs) := by
  cases h with
  | refl => exact .inl rfl
  | channels h => exact .inr (.inl ⟨_, _, rfl, rfl, h⟩)
  | channel h => exact .inr (.inr ⟨_, _, rfl, rfl, h⟩)

theorem shaped_sameMembers {ms ls : List (String × Value)} (h : List.Forall₂ SameMeterMember ms ls)
    (hms : MeterShaped (.object ms)) : MeterShaped (.object ls) := by
  obtain ⟨hnulls, hchannels, hchannel⟩ := hms
  refine ⟨?_, ?_, ?_⟩
  · rintro ⟨key, w⟩ hf hnull
    obtain ⟨e, he, hef⟩ := exists_related h hf
    rcases hef.inv with rfl | ⟨vs, ws, rfl, rfl, -⟩ | ⟨bs, cs, rfl, rfl, -⟩
    · exact hnulls _ he hnull
    · cases hnull
    · cases hnull
  · intro ws hws w hw
    obtain ⟨e, he, hef⟩ := exists_related h hws
    rcases hef.inv with rfl | ⟨vs, ws', rfl, hws', hvs⟩ | ⟨bs, cs, rfl, hcs, -⟩
    · exact hchannels ws he w hw
    · obtain rfl := Value.array.inj hws'
      obtain ⟨v, hv, hvw⟩ := exists_related hvs hw
      exact hvw.shaped (hchannels vs he v hv)
    · cases hcs
  · intro cs hcs
    obtain ⟨e, he, hef⟩ := exists_related h hcs
    rcases hef.inv with rfl | ⟨vs, ws, rfl, hws, -⟩ | ⟨bs, cs', rfl, hcs', hbs⟩
    · exact hchannel cs he
    · cases hws
    · obtain rfl := Value.object.inj hcs'
      exact hbs.shaped (hchannel bs he)

theorem SameMeter.shaped {v w : Value} (h : SameMeter v w) (hv : MeterShaped v) :
    MeterShaped w := by
  cases h with
  | refl => exact hv
  | members h hdistinct hperm =>
    obtain ⟨hnulls, hchannels, hchannel⟩ := shaped_sameMembers h hv
    exact ⟨nullsNamed_perm hperm hnulls, fun vs hvs => hchannels vs (hperm.mem_iff.mpr hvs),
      fun cs hcs => hchannel cs (hperm.mem_iff.mpr hcs)⟩

theorem MeterMembers.exists_perm {ms ns : List (String × Value)} (h : ms.Perm ns)
    (hdistinct : (ms.map fun e => MeterPart.name e.1).Nodup) {m : MeterMembers}
    (hm : ms.foldlM MeterMembers.add .empty = .ok m) :
    ∃ n, ns.foldlM MeterMembers.add .empty = .ok n ∧ m.channels = n.channels ∧
      OptionsAlike m.options n.options := by
  rw [foldlM_ok_iff MeterPart.get_injective MeterPart.add_get] at hm
  have hone : (entries MeterPart.of .channels ms).length ≤ 1 := by
    apply length_entries_le_one hdistinct
    intro e f he hf
    rw [MeterPart.name_of he, MeterPart.name_of hf]
  obtain ⟨made, hmade, hmoptions⟩ := MeterPart.foldlM_read_options.mp (hm .options)
  have hentries : (entries MeterPart.of .options ns).Perm (entries MeterPart.of .options ms) :=
    entries_perm h.symm MeterPart.options
  obtain ⟨others, hothers, hperm⟩ := hmade.perm hentries
  refine ⟨{ m with options := others }, ?_, rfl, .of_perm ?_ ?_⟩
  · rw [foldlM_ok_iff MeterPart.get_injective MeterPart.add_get]
    intro k
    cases k with
    | options => exact MeterPart.foldlM_read_options.mpr ⟨others, hothers, rfl⟩
    | channels =>
      rw [← entries_eq_of_perm h hone]
      exact hm .channels
  · rw [show m.options = made from hmoptions]
    exact hperm.symm
  · rw [show m.options = made from hmoptions, hmade.keys]
    exact (MeterPart.nodup_keys hdistinct).sublist (List.filter_sublist.map _)

theorem MeterMembers.foldlM_perm {ms ns : List (String × Value)} (h : ms.Perm ns)
    (hdistinct : (ms.map fun e => MeterPart.name e.1).Nodup) :
    Outcome.Alike (fun m n => m.channels = n.channels ∧ OptionsAlike m.options n.options)
      (ms.foldlM MeterMembers.add .empty) (ns.foldlM MeterMembers.add .empty) := by
  apply Outcome.Alike.of_results
  · intro m hm
    exact exists_perm h hdistinct hm
  · intro n hn
    obtain ⟨m, hm, -⟩ := exists_perm h.symm ((h.map _).nodup hdistinct) hn
    exact ⟨m, hm⟩

/-- A step with members that are the same. -/
theorem MeterMembers.add_same {m n : MeterMembers}
    (h : List.Forall₂ SameChannel m.channels n.channels ∧ m.options = n.options)
    {e f : String × Value} (hef : SameMeterMember e f) :
    Outcome.Alike
      (fun m n => List.Forall₂ SameChannel m.channels n.channels ∧ m.options = n.options)
      (m.add e) (n.add f) := by
  cases hef with
  | channels hvs => exact .ok ⟨List.rel_append h.1 hvs, h.2⟩
  | channel hv => exact .ok ⟨List.rel_append h.1 (.cons hv .nil), h.2⟩
  | refl =>
    cases hpart : MeterPart.of e with
    | options =>
      rw [MeterPart.add_of_options hpart, MeterPart.add_of_options hpart, h.2]
      cases Opt.new e.1 e.2 with
      | error err => exact .error err err
      | ok o => exact .ok ⟨h.1, rfl⟩
    | channels =>
      unfold MeterPart.of at hpart
      split at hpart
      case h_1 vs => exact .ok ⟨List.rel_append h.1 (sameChannels_refl vs), h.2⟩
      case h_2 ms => exact .ok ⟨List.rel_append h.1 (sameChannels_refl _), h.2⟩
      case h_3 => cases hpart

theorem MeterMembers.foldlM_same {ms ls ns : List (String × Value)}
    (h : List.Forall₂ SameMeterMember ms ls)
    (hdistinct : (ls.map fun e => MeterPart.name e.1).Nodup) (hperm : ls.Perm ns) :
    Outcome.Alike MeterMembers.Alike (ms.foldlM MeterMembers.add .empty)
      (ns.foldlM MeterMembers.add .empty) := by
  have hsame := Outcome.Alike.foldlM h (fun _ _ _ _ hmn hef => MeterMembers.add_same hmn hef)
    (a := MeterMembers.empty) (b := MeterMembers.empty) ⟨.nil, rfl⟩
  refine hsame.trans ?_ (MeterMembers.foldlM_perm hperm hdistinct)
  rintro m l n ⟨hchannels, hoptions⟩ ⟨hchannels', hoptions'⟩
  exact ⟨hchannels' ▸ hchannels, hoptions ▸ hoptions'⟩

structure MeterMap.Alike (m n : MeterMap) : Prop where
  meter : m.meter = n.meter
  channels : List.Forall₂ Channel.Alike m.channels n.channels

structure Mappings.Alike (s t : Mappings) : Prop where
  meterInstances : s.meterInstances = t.meterInstances
  channelInstances : s.channelInstances = t.channelInstances
  maps : List.Forall₂ MeterMap.Alike s.maps t.maps

section meters
variable {env : Environment}

theorem Meter.new_alike {options others : List Opt} (h : OptionsAlike options others) (id : Nat) :
    Meter.new env id options = Meter.new env id others := by
  rw [Meter.new, Meter.new, lookupString, lookupInt, lookupInt, lookupBool, lookupBool, lookupBool,
    h.lookup, h.find]
  rfl

theorem MeterMembers.addTo_alike {s t : Mappings} (hs : s.Alike t) {m n : MeterMembers}
    (h : m.Alike n) : Outcome.Alike Mappings.Alike (m.addTo env s) (n.addTo env t) := by
  rw [MeterMembers.addTo, MeterMembers.addTo, hs.meterInstances, hs.channelInstances,
    Meter.new_alike h.options]
  apply (Outcome.Alike.refl (R := Eq) (fun _ => rfl) _).bind
  rintro meter _ rfl
  apply (configParseChannels_alike h.channels).bind
  intro chs chs' hchs
  refine .ok ⟨rfl, ?_, List.rel_append hs.maps (.cons ⟨rfl, hchs⟩ .nil)⟩
  rw [hchs.length_eq]

theorem configParseMeter_alike {s t : Mappings} (hs : s.Alike t) {v w : Value}
    (h : SameMeter v w) :
    Outcome.Alike Mappings.Alike (configParseMeter env s v) (configParseMeter env t w) := by
  cases h with
  | members h hdistinct hperm =>
    apply (MeterMembers.foldlM_same h hdistinct hperm).bind
    intro m n hmn
    exact MeterMembers.addTo_alike hs hmn
  | refl =>
    cases v with
    | object ms =>
      apply (Outcome.Alike.refl (R := Eq) (fun _ => rfl) _).bind
      rintro m _ rfl
      exact MeterMembers.addTo_alike hs ⟨sameChannels_refl _, .refl _⟩
    | _ => exact .error _ _

end meters

/-! ## The document -/

/-- Members with different keys set different fields. -/
theorem Local.add_comm {l : Local} {m n : String × Value} (h : m.1 ≠ n.1) :
    (l.add m).add n = (l.add n).add m := by
  unfold Local.add
  split <;> split <;> first | rfl | exact absurd rfl h

theorem mqttSet_comm {o : Mqtt.Options} {k l : String} (v w : Mqtt.JsonValue) (h : k ≠ l) :
    (o.set k v).set l w = (o.set l w).set k v := by
  unfold Mqtt.Options.set
  split <;> split <;> first | rfl | exact absurd rfl h |
    (split <;> first | rfl | exact absurd rfl h)

/-- A loop over members with different keys whose steps commute. -/
theorem foldl_perm {σ ν : Type} {f : σ → String × ν → σ} {ms ns : List (String × ν)}
    (hcomm : ∀ s m n, m.1 ≠ n.1 → f (f s m) n = f (f s n) m) (h : ms.Perm ns)
    (hdistinct : (ms.map Prod.fst).Nodup) (s : σ) : ms.foldl f s = ns.foldl f s := by
  apply h.foldl_eq'
  intro m hm n hn s
  by_cases hmn : m.1 = n.1
  · rw [List.inj_on_of_nodup_map hdistinct hm hn hmn]
  · exact hcomm s m n hmn

theorem mqttEntry_key (m : String × Value) : (mqttEntry m).1 = m.1 := by
  obtain ⟨key, value⟩ := m
  cases value <;> rfl

theorem mqttClientOf_perm {env : Environment} {ms ns : List (String × Value)} (h : ms.Perm ns)
    (hdistinct : (ms.map Prod.fst).Nodup) : mqttClientOf env ms = mqttClientOf env ns := by
  have hkeys : ((ms.map mqttEntry).map Prod.fst).Nodup := by
    rw [List.map_map]
    simpa only [Function.comp_def, mqttEntry_key] using hdistinct
  have hcomm : ∀ (o : Mqtt.Options) (m n : String × Mqtt.JsonValue), m.1 ≠ n.1 →
      (o.set m.1 m.2).set n.1 n.2 = (o.set n.1 n.2).set m.1 m.2 :=
    fun o m n hmn => mqttSet_comm m.2 n.2 hmn
  have hfold := foldl_perm (f := fun (o : Mqtt.Options) m => o.set m.1 m.2) hcomm (h.map mqttEntry)
    hkeys Mqtt.Options.default
  rw [mqttClientOf, mqttClientOf, Mqtt.Options.ofEntries, Mqtt.Options.ofEntries, hfold]

/-- What the members of the document make. -/
inductive DocumentPart where
  | daemon
  | log
  | retry
  | verbosity
  | localIF
  | mappings
  | pds
  | mqttClient
  | timeMachine
  | rest
  deriving DecidableEq

namespace DocumentPart

/-- The part that a member makes. -/
def of : String × Value → DocumentPart
  | ("daemon", .boolean _) => .daemon
  | ("log", .string _) => .log
  | ("retry", .int _) => .retry
  | ("verbosity", .int _) => .verbosity
  | ("local", _) => .localIF
  | ("sensors", .array _) | ("meters", .array _) => .mappings
  | ("push", .array _) => .pds
  | ("mqtt", .object _) => .mqttClient
  | ("i_have_a_time_machine", .boolean _) => .timeMachine
  | _ => .rest

/-- The names of the members that make the meters are taken for one. -/
def name (key : String) : String := if key = "sensors" then "meters" else key

def Carrier : DocumentPart → Type
  | .daemon => Unit
  | .log => List Char
  | .retry | .verbosity => Int
  | .localIF => Local
  | .mappings => Mappings
  | .pds => Option (List (List Char))
  | .mqttClient => Option Mqtt.Options
  | .timeMachine => Bool
  | .rest => List Char × Bool × Bool

def get (s : ConfigOptions) : ∀ k : DocumentPart, k.Carrier
  | .daemon => ()
  | .log => s.log
  | .retry => s.retryPause
  | .verbosity => s.verbosity
  | .localIF => s.localIF
  | .mappings => s.mappings
  | .pds => s.pds
  | .mqttClient => s.mqttClient
  | .timeMachine => s.timeMachine
  | .rest => (s.config, s.foreground, s.doRegistration)

/-- The part alone. -/
def put : ∀ k : DocumentPart, k.Carrier → ConfigOptions
  | .daemon, _ => .initial
  | .log, x => { ConfigOptions.initial with log := x }
  | .retry, x => { ConfigOptions.initial with retryPause := x }
  | .verbosity, x => { ConfigOptions.initial with verbosity := x }
  | .localIF, x => { ConfigOptions.initial with localIF := x }
  | .mappings, x => { ConfigOptions.initial with mappings := x }
  | .pds, x => { ConfigOptions.initial with pds := x }
  | .mqttClient, x => { ConfigOptions.initial with mqttClient := x }
  | .timeMachine, x => { ConfigOptions.initial with timeMachine := x }
  | .rest, x => { ConfigOptions.initial with
      config := x.1, foreground := x.2.1, doRegistration := x.2.2 }

def read (env : Environment) (k : DocumentPart) (x : k.Carrier) (m : String × Value) :
    Except Error k.Carrier :=
  ((put k x).add env m).map fun s => get s k

theorem get_injective : Function.Injective get := by
  intro s t h
  have hlog : s.log = t.log := congrFun h .log
  have hretry : s.retryPause = t.retryPause := congrFun h .retry
  have hverbosity : s.verbosity = t.verbosity := congrFun h .verbosity
  have hlocal : s.localIF = t.localIF := congrFun h .localIF
  have hmaps : s.mappings = t.mappings := congrFun h .mappings
  have hpds : s.pds = t.pds := congrFun h .pds
  have hclient : s.mqttClient = t.mqttClient := congrFun h .mqttClient
  have htime : s.timeMachine = t.timeMachine := congrFun h .timeMachine
  have hrest : (s.config, s.foreground, s.doRegistration) =
      (t.config, t.foreground, t.doRegistration) := congrFun h .rest
  cases s
  cases t
  simp_all

/-- A member that makes nothing. -/
theorem add_of_rest {env : Environment} {s : ConfigOptions} {m : String × Value}
    (h : of m = .rest) : s.add env m = .ok s := by
  unfold ConfigOptions.add
  split
  case h_12 => rfl
  all_goals cases h

theorem add_mappings {env : Environment} {key : String} {vs : List Value}
    (hkey : key = "sensors" ∨ key = "meters") (s : ConfigOptions) :
    s.add env (key, .array vs) =
      (vs.foldlM (configParseMeter env) s.mappings).map fun m => { s with mappings := m } := by
  rcases hkey with rfl | rfl <;> rfl

theorem get_mappings (s : ConfigOptions) (x : Mappings) :
    get { s with mappings := x } = Function.update (get s) .mappings x := by
  funext k
  cases k <;> rfl

theorem get_pds (s : ConfigOptions) (x : Option (List (List Char))) :
    get { s with pds := x } = Function.update (get s) .pds x := by
  funext k
  cases k <;> rfl

theorem get_mqttClient (s : ConfigOptions) (x : Option Mqtt.Options) :
    get { s with mqttClient := x } = Function.update (get s) .mqttClient x := by
  funext k
  cases k <;> rfl

theorem add_get_mappings {env : Environment} {key : String} {vs : List Value}
    (hkey : key = "sensors" ∨ key = "meters") (s : ConfigOptions) :
    (s.add env (key, .array vs)).map get =
      (read env .mappings s.mappings (key, .array vs)).map (Function.update (get s) .mappings) := by
  unfold read
  rw [add_mappings hkey, add_mappings hkey]
  change _ = Except.map _
    (Except.map _ (Except.map _ (vs.foldlM (configParseMeter env) s.mappings)))
  cases vs.foldlM (configParseMeter env) s.mappings with
  | error e => rfl
  | ok x => exact congrArg Except.ok (get_mappings s x)

theorem add_get_pds {env : Environment} {vs : List Value} (s : ConfigOptions) :
    (s.add env ("push", .array vs)).map get =
      (read env .pds s.pds ("push", .array vs)).map (Function.update (get s) .pds) := by
  have hadd : ∀ t : ConfigOptions, t.add env ("push", .array vs) =
      if t.pds.isNone && vs.length > 0 then
        (vs.mapM pushUrl).map fun urls => { t with pds := some urls }
      else .ok t := fun _ => rfl
  unfold read
  rw [hadd, hadd]
  change _ = Except.map _ (Except.map _ (if s.pds.isNone && vs.length > 0 then _ else _))
  split_ifs
  · cases vs.mapM pushUrl with
    | error e => rfl
    | ok urls => exact congrArg Except.ok (get_pds s (some urls))
  · exact congrArg Except.ok (get_pds s s.pds)

theorem add_get_mqttClient {env : Environment} {ms : List (String × Value)} (s : ConfigOptions) :
    (s.add env ("mqtt", .object ms)).map get =
      (read env .mqttClient s.mqttClient ("mqtt", .object ms)).map
        (Function.update (get s) .mqttClient) := by
  have hadd : ∀ t : ConfigOptions, t.add env ("mqtt", .object ms) =
      if t.mqttClient.isNone then .ok { t with mqttClient := mqttClientOf env ms } else .ok t :=
    fun _ => rfl
  unfold read
  rw [hadd, hadd]
  change _ = Except.map _ (Except.map _ (if s.mqttClient.isNone then _ else _))
  split_ifs
  · exact congrArg Except.ok (get_mqttClient s _)
  · exact congrArg Except.ok (get_mqttClient s s.mqttClient)

/-- A member reads and makes its own part. -/
theorem add_get (env : Environment) (s : ConfigOptions) (m : String × Value) :
    (s.add env m).map get = update of (read env) (get s) m := by
  cases hpart : of m with
  | rest =>
    rw [update, read, hpart, add_of_rest hpart, add_of_rest hpart]
    exact congrArg Except.ok (Function.update_eq_self _ _).symm
  | daemon =>
    unfold of at hpart
    split at hpart
    all_goals cases hpart
    rename_i b
    cases b with
    | false => rfl
    | true => exact congrArg Except.ok (funext fun k => by cases k <;> rfl)
  | localIF =>
    unfold of at hpart
    split at hpart
    all_goals cases hpart
    rename_i v
    cases v with
    | object ms => exact congrArg Except.ok (funext fun k => by cases k <;> rfl)
    | _ => rfl
  | mappings =>
    unfold of at hpart
    split at hpart
    all_goals cases hpart
    · exact add_get_mappings (.inl rfl) s
    · exact add_get_mappings (.inr rfl) s
  | pds =>
    unfold of at hpart
    split at hpart
    all_goals cases hpart
    exact add_get_pds s
  | mqttClient =>
    unfold of at hpart
    split at hpart
    all_goals cases hpart
    exact add_get_mqttClient s
  | _ =>
    unfold of at hpart
    split at hpart
    all_goals cases hpart
    all_goals exact congrArg Except.ok (funext fun k => by cases k <;> rfl)

theorem name_of {m n : String × Value} {k : DocumentPart} (hk : k ≠ .rest) (hm : of m = k)
    (hn : of n = k) : name m.1 = name n.1 := by
  subst hm
  unfold of at hk hn
  split at hk <;> split at hn <;> first | rfl | exact absurd rfl hk | cases hn

/-- The members that make nothing keep what is there. -/
theorem foldlM_read_rest {env : Environment} (ms : List (String × Value))
    (x : DocumentPart.rest.Carrier) :
    (entries of .rest ms).foldlM (read env .rest) x = .ok x := by
  have hread : ∀ m ∈ entries of .rest ms, ∀ y, read env .rest y m = .ok y := by
    intro m hm y
    unfold read
    rw [add_of_rest (mem_entries hm)]
    rfl
  generalize entries of .rest ms = es at hread
  induction es with
  | nil => rfl
  | cons e es ih =>
    rw [List.foldlM_cons, hread e List.mem_cons_self x]
    exact ih fun m hm => hread m (List.mem_cons_of_mem e hm)

/-- A member that makes no meters leaves them alone, whatever they are. -/
theorem add_frame {env : Environment} {m : String × Value} (h : of m ≠ .mappings)
    (s : ConfigOptions) (x : Mappings) :
    ({ s with mappings := x } : ConfigOptions).add env m =
      (s.add env m).map fun t => { t with mappings := x } := by
  unfold ConfigOptions.add
  split
  case h_1 b => split_ifs <;> rfl
  case h_7 => exact absurd rfl h
  case h_8 => exact absurd rfl h
  case h_9 vs =>
    dsimp only
    split_ifs
    · cases vs.mapM pushUrl <;> rfl
    · rfl
  case h_10 =>
    dsimp only
    split_ifs <;> rfl
  all_goals rfl

end DocumentPart

theorem ConfigOptions.exists_perm {env : Environment} {ms ns : List (String × Value)}
    (h : ms.Perm ns) (hdistinct : (ms.map fun m => DocumentPart.name m.1).Nodup)
    {s t : ConfigOptions} (ht : ms.foldlM (ConfigOptions.add env) s = .ok t) :
    ns.foldlM (ConfigOptions.add env) s = .ok t := by
  rw [foldlM_ok_iff DocumentPart.get_injective (DocumentPart.add_get env)] at ht ⊢
  intro k
  by_cases hk : k = .rest
  · subst hk
    rw [← ht .rest, DocumentPart.foldlM_read_rest, DocumentPart.foldlM_read_rest]
  · have hone : (entries DocumentPart.of k ms).length ≤ 1 :=
      length_entries_le_one hdistinct fun _ _ hm hn => DocumentPart.name_of hk hm hn
    rw [← entries_eq_of_perm h hone]
    exact ht k

theorem ConfigOptions.foldlM_perm {env : Environment} {ms ns : List (String × Value)}
    (h : ms.Perm ns) (hdistinct : (ms.map fun m => DocumentPart.name m.1).Nodup)
    (s : ConfigOptions) :
    Outcome.Alike Eq (ms.foldlM (ConfigOptions.add env) s)
      (ns.foldlM (ConfigOptions.add env) s) := by
  apply Outcome.Alike.of_results
  · intro t ht
    exact ⟨t, exists_perm h hdistinct ht, rfl⟩
  · intro t ht
    exact ⟨t, exists_perm h.symm ((h.map _).nodup hdistinct) ht⟩

/-- Members of a document that are the same, but for the order inside them. -/
inductive SameMember : String × Value → String × Value → Prop where
  | refl (m : String × Value) : SameMember m m
  | localIF {ms ns : List (String × Value)} (hdistinct : (ms.map Prod.fst).Nodup)
    (h : ms.Perm ns) : SameMember ("local", .object ms) ("local", .object ns)
  | mqtt {ms ns : List (String × Value)} (hdistinct : (ms.map Prod.fst).Nodup) (h : ms.Perm ns) :
    SameMember ("mqtt", .object ms) ("mqtt", .object ns)
  | meters {key : String} {vs ws : List Value} (hkey : key = "sensors" ∨ key = "meters")
    (h : List.Forall₂ SameMeter vs ws) : SameMember (key, .array vs) (key, .array ws)

/-- Configurations that are the same, but for the order of the options of a channel. -/
structure ConfigOptions.Alike (s t : ConfigOptions) : Prop where
  mappings : s.mappings.Alike t.mappings
  rest : s = { t with mappings := s.mappings }

section document
variable {env : Environment}

theorem Mappings.Alike.refl (s : Mappings) : s.Alike s := by
  have hmaps : ∀ map ∈ s.maps, MeterMap.Alike map map := fun map _ =>
    ⟨rfl, List.forall₂_same.mpr fun ch _ => .refl ch⟩
  exact ⟨rfl, rfl, List.forall₂_same.mpr hmaps⟩

theorem ConfigOptions.Alike.refl (s : ConfigOptions) : s.Alike s := ⟨.refl _, rfl⟩

theorem ConfigOptions.add_meters {s t : ConfigOptions} (hs : s.Alike t) {key : String}
    (hkey : key = "sensors" ∨ key = "meters") {vs ws : List Value}
    (h : List.Forall₂ SameMeter vs ws) :
    Outcome.Alike ConfigOptions.Alike (s.add env (key, .array vs))
      (t.add env (key, .array ws)) := by
  rw [DocumentPart.add_mappings hkey, DocumentPart.add_mappings hkey]
  have hmaps : Outcome.Alike Mappings.Alike (vs.foldlM (configParseMeter env) s.mappings)
      (ws.foldlM (configParseMeter env) t.mappings) :=
    Outcome.Alike.foldlM h (fun _ _ _ _ hst hvw => configParseMeter_alike hst hvw) hs.mappings
  apply hmaps.map
  intro x y hxy
  refine ⟨hxy, ?_⟩
  rw [hs.rest]

/-- A member that makes no meters makes the same of configurations that are the same. -/
theorem ConfigOptions.add_other {s t : ConfigOptions} (hs : s.Alike t) {m : String × Value}
    (h : DocumentPart.of m ≠ .mappings) :
    Outcome.Alike ConfigOptions.Alike (s.add env m) (t.add env m) := by
  rw [hs.rest, DocumentPart.add_frame h]
  -- with the meters that are there the frame says that they stay
  have hkept : t.add env m = (t.add env m).map fun u => { u with mappings := t.mappings } :=
    DocumentPart.add_frame h t t.mappings
  cases hadd : t.add env m with
  | error e => exact .error e e
  | ok u =>
    have hu : u.mappings = t.mappings := by
      have hu := hadd.symm.trans (hkept.trans (congrArg _ hadd))
      rw [Except.ok.inj hu]
    refine .ok ⟨?_, rfl⟩
    rw [hu]
    exact hs.mappings

theorem ConfigOptions.add_refl {s t : ConfigOptions} (hs : s.Alike t) (m : String × Value) :
    Outcome.Alike ConfigOptions.Alike (s.add env m) (t.add env m) := by
  by_cases h : DocumentPart.of m = .mappings
  · have hrefl : ∀ vs, List.Forall₂ SameMeter vs vs := fun vs =>
      List.forall₂_same.mpr fun v _ => .refl v
    unfold DocumentPart.of at h
    split at h
    case h_6 vs => exact add_meters hs (.inl rfl) (hrefl vs)
    case h_7 vs => exact add_meters hs (.inr rfl) (hrefl vs)
    all_goals cases h
  · exact add_other hs h

theorem ConfigOptions.add_same {s t : ConfigOptions} (hs : s.Alike t) {m n : String × Value}
    (h : SameMember m n) :
    Outcome.Alike ConfigOptions.Alike (s.add env m) (t.add env n) := by
  cases h with
  | refl => exact add_refl hs m
  | meters hkey h => exact add_meters hs hkey h
  -- the order inside does not matter: back to one member
  | @localIF ms ns hdistinct h =>
    have hfold := foldl_perm (fun _ _ _ hmn => Local.add_comm hmn) h hdistinct t.localIF
    have hadd : ∀ ls, t.add env ("local", .object ls) =
        .ok { t with localIF := ls.foldl Local.add t.localIF } := fun _ => rfl
    rw [hadd, ← hfold, ← hadd]
    exact add_refl hs _
  | @mqtt ms ns hdistinct h =>
    have hadd : ∀ ls, t.add env ("mqtt", .object ls) =
        if t.mqttClient.isNone then .ok { t with mqttClient := mqttClientOf env ls } else .ok t :=
      fun _ => rfl
    rw [hadd, ← mqttClientOf_perm h hdistinct, ← hadd]
    exact add_refl hs _

/-- Documents that are the same, but for the order of their members at every level. -/
structure SameDocument (ms ns : List (String × Value)) : Prop where
  same : ∃ ls, List.Forall₂ SameMember ms ls ∧ ls.Perm ns
  distinct : (ns.map fun m => DocumentPart.name m.1).Nodup

/-- Members that are the same are one, or an object or an array in which they differ. -/
theorem SameMember.inv {m : String × Value} {key : String} {w : Value}
    (h : SameMember m (key, w)) : m = (key, w) ∨
      (∃ bs cs, m = (key, .object bs) ∧ w = .object cs ∧ bs.Perm cs) ∨
      ∃ vs ws, m = (key, .array vs) ∧ w = .array ws ∧ List.Forall₂ SameMeter vs ws := by
  cases h with
  | refl => exact .inl rfl
  | localIF _ h | mqtt _ h => exact .inr (.inl ⟨_, _, rfl, rfl, h⟩)
  | meters _ h => exact .inr (.inr ⟨_, _, rfl, rfl, h⟩)

theorem valued_perm {ms ns : List (String × Value)} (h : ms.Perm ns) (hvalued : Valued ms) :
    Valued ns := fun m hm => hvalued m (h.mem_iff.mpr hm)

theorem shaped_same {ms ls : List (String × Value)} (h : List.Forall₂ SameMember ms ls)
    (hms : Shaped (.object ms)) : Shaped (.object ls) := by
  obtain ⟨hvalued, hlocal, hmqtt, hmeters⟩ := hms
  refine ⟨?_, ?_, ?_, ?_⟩
  · rintro ⟨key, w⟩ hn hnull
    obtain ⟨m, hm, hmn⟩ := exists_related h hn
    rcases hmn.inv with rfl | ⟨bs, cs, rfl, rfl, -⟩ | ⟨vs, ws, rfl, rfl, -⟩
    · exact hvalued _ hm hnull
    · cases hnull
    · cases hnull
  · intro w hw
    obtain ⟨m, hm, hmn⟩ := exists_related h hw
    rcases hmn.inv with rfl | ⟨bs, cs, rfl, rfl, hperm⟩ | ⟨vs, ws, rfl, rfl, -⟩
    · exact hlocal w hm
    · obtain ⟨ls, hls, hin⟩ := hlocal _ hm
      obtain rfl := Value.object.inj hls
      exact ⟨cs, rfl, valued_perm hperm hin⟩
    · obtain ⟨ls, hls, -⟩ := hlocal _ hm
      cases hls
  · intro cs hcs
    obtain ⟨m, hm, hmn⟩ := exists_related h hcs
    rcases hmn.inv with rfl | ⟨bs, cs', rfl, hcs', hperm⟩ | ⟨vs, ws, rfl, hws, -⟩
    · exact hmqtt cs hm
    · obtain rfl := Value.object.inj hcs'
      exact valued_perm hperm (hmqtt bs hm)
    · cases hws
  · intro key ws hkey hws w hw
    obtain ⟨m, hm, hmn⟩ := exists_related h hws
    rcases hmn.inv with rfl | ⟨bs, cs, rfl, hcs, -⟩ | ⟨vs, ws', rfl, hws', hvs⟩
    · exact hmeters key ws hkey hm w hw
    · cases hcs
    · obtain rfl := Value.array.inj hws'
      obtain ⟨v, hv, hvw⟩ := exists_related hvs hw
      exact hvw.shaped (hmeters key vs hkey hm v hv)

/-- The shape does not depend on the order. -/
theorem SameDocument.shaped {ms ns : List (String × Value)} (h : SameDocument ms ns)
    (hms : Shaped (.object ms)) : Shaped (.object ns) := by
  obtain ⟨ls, hsame, hperm⟩ := h.same
  obtain ⟨hvalued, hlocal, hmqtt, hmeters⟩ := shaped_same hsame hms
  exact ⟨valued_perm hperm hvalued, fun v hv => hlocal v (hperm.mem_iff.mpr hv),
    fun cs hcs => hmqtt cs (hperm.mem_iff.mpr hcs),
    fun key vs hkey hvs => hmeters key vs hkey (hperm.mem_iff.mpr hvs)⟩

/-- Both are accepted, with the same result but for the order, or neither is. -/
theorem configParse_alike (env : Environment) (s : ConfigOptions) {ms ns : List (String × Value)}
    (h : SameDocument ms ns) :
    Outcome.Alike ConfigOptions.Alike (configParse env s (some (.object ms)))
      (configParse env s (some (.object ns))) := by
  obtain ⟨ls, hsame, hperm⟩ := h.same
  have hinside : Outcome.Alike ConfigOptions.Alike (ms.foldlM (ConfigOptions.add env) s)
      (ls.foldlM (ConfigOptions.add env) s) :=
    Outcome.Alike.foldlM hsame (fun _ _ _ _ hst hmn => ConfigOptions.add_same hst hmn) (.refl s)
  have hdistinct : (ls.map fun m => DocumentPart.name m.1).Nodup :=
    (hperm.symm.map _).nodup h.distinct
  refine hinside.trans ?_ (ConfigOptions.foldlM_perm hperm hdistinct s)
  rintro a b c hab rfl
  exact hab

/-- **The order of the members.**  Documents of the right shape that differ in it, at whatever
level, are both refused with an exception, or make the same configuration, but for the order of
a channel's options, which answer alike. -/
theorem configParse_order {env : Environment} (hconstruct : env.Constructs) (s : ConfigOptions)
    {ms ns : List (String × Value)} (h : SameDocument ms ns) (hshaped : Shaped (.object ms)) :
    Outcome.Alike ConfigOptions.Alike (configParse env s (some (.object ms)))
      (configParse env s (some (.object ns))) ∧
    configParse env s (some (.object ms)) ≠ .error .undefined ∧
    configParse env s (some (.object ns)) ≠ .error .undefined := by
  refine ⟨configParse_alike env s h, configParse_ne_undefined hconstruct s ?_,
    configParse_ne_undefined hconstruct s ?_⟩
  · intro v hv
    obtain rfl := Option.some.inj hv
    exact hshaped
  · intro v hv
    obtain rfl := Option.some.inj hv
    exact h.shaped hshaped

/-- The sample document, from its end to its beginning at every level. -/
def reversedDocument : List (String × Value) :=
  [("meters", .array [.object [("channels", .array [.object
      [("identifier", .string "Power".toList),
        ("uuid", .string "fde8f1d0-c5d0-11e0-856e-f9e4360ced10".toList)]]),
      ("enabled", .boolean true), ("protocol", .string "s0".toList)]]),
    ("retry", .int 30)]

theorem configParse_order_sample :
    Outcome.Alike ConfigOptions.Alike (configParse sampleEnvironment .initial (some sampleDocument))
      (configParse sampleEnvironment .initial (some (.object reversedDocument))) ∧
    configParse sampleEnvironment .initial (some sampleDocument) ≠ .error .undefined ∧
    configParse sampleEnvironment .initial (some (.object reversedDocument)) ≠
      .error .undefined := by
  have hchannel : SameChannel sampleChannel (.object
      [("identifier", .string "Power".toList),
        ("uuid", .string "fde8f1d0-c5d0-11e0-856e-f9e4360ced10".toList)]) :=
    .perm (by decide) (.swap _ _ _)
  have hmeter : SameMeter sampleMeter (.object [("channels", .array [.object
      [("identifier", .string "Power".toList),
        ("uuid", .string "fde8f1d0-c5d0-11e0-856e-f9e4360ced10".toList)]]),
      ("enabled", .boolean true), ("protocol", .string "s0".toList)]) :=
    .members (.cons (.refl _) (.cons (.refl _) (.cons (.channels (.cons hchannel .nil)) .nil)))
      (by decide) (List.reverse_perm _).symm
  have hsame : SameDocument [("retry", .int 30), ("meters", .array [sampleMeter])]
      reversedDocument :=
    ⟨⟨_, .cons (.refl _) (.cons (.meters (.inr rfl) (.cons hmeter .nil)) .nil), .swap _ _ _⟩,
      by decide⟩
  exact configParse_order (fun _ _ h => by cases h) .initial hsame shaped_sampleDocument

end document
end VzLogger.Config
