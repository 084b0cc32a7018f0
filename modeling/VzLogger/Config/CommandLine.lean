import VzLogger.Config.Accepted

/-! # The command line and the configuration

`main` parses the command line, reads the configuration from the file that it may name, and
parses the command line again, so that it has the last word.  What `getopt_long` makes of the
arguments, and what json-c makes of a file, are given.
-/
namespace VzLogger.Config
open Outcome

/-- An option as `getopt_long` returns it, a number as `atoi` reads it. -/
inductive CliOption where
  | verbose (v : Int)
  | httpd
  | httpdPort (port : Int)
  | foreground
  | config (file : List Char)
  | log (file : List Char)
  | version
  | register
  | help
  | unknown

/-- How the program ends before it logs anything. -/
inductive Ended where
  | exit (success : Bool)
  /-- `EX_CONFIG` -/
  | config
  | undefined
  deriving DecidableEq

/-- What `main` makes of an exception. -/
def Ended.of : Error → Ended
  | .undefined => .undefined
  | _ => .config

namespace CliOption

/-- The body of the loop of `config_parse_cli`. -/
def apply (s : ConfigOptions) : CliOption → Except Ended ConfigOptions
  | .verbose v => .ok (if 0 ≤ v then { s with verbosity := v } else s)
  | .httpd => .ok { s with localIF := { s.localIF with enabled := true } }
  | .httpdPort port => .ok { s with localIF := { s.localIF with port := port } }
  | .foreground => .ok { s with foreground := true }
  | .config file => .ok { s with config := file }
  | .log file => .ok { s with log := file }
  | .version => .error (.exit true)
  | .register => .ok { s with doRegistration := true }
  | .help => .error (.exit true)
  | .unknown => .error (.exit false)

/-- The options with which the program ends. -/
def ends : CliOption → Bool
  | .version | .help | .unknown => true
  | _ => false

/-! What an option sets. -/

def setsVerbosity : CliOption → Option Int
  | .verbose v => if 0 ≤ v then some v else none
  | _ => none

def setsEnabled : CliOption → Option Bool
  | .httpd => some true
  | _ => none

def setsPort : CliOption → Option Int
  | .httpdPort port => some port
  | _ => none

def setsForeground : CliOption → Option Bool
  | .foreground => some true
  | _ => none

def setsConfig : CliOption → Option (List Char)
  | .config file => some file
  | _ => none

def setsLog : CliOption → Option (List Char)
  | .log file => some file
  | _ => none

def setsRegister : CliOption → Option Bool
  | .register => some true
  | _ => none

end CliOption

def configParseCli (s : ConfigOptions) (args : List CliOption) : Except Ended ConfigOptions :=
  args.foldlM CliOption.apply s

/-- `main`, up to the second look at the command line.  `files` is `parseConfigFile`. -/
def startUp (env : Environment) (files : List Char → Except Error (Option Value))
    (args : List CliOption) : Except Ended ConfigOptions := do
  let s ← configParseCli .initial args
  let s ← ((files s.config).bind (configParse env s)).mapError Ended.of
  configParseCli s args

/-! ## What the command line sets -/

/-- What the last option sets that sets it. -/
def lastOf {α : Type} (f : CliOption → Option α) (args : List CliOption) (default : α) : α :=
  (args.filterMap f).getLast?.getD default

section lastOf
variable {α : Type} {f : CliOption → Option α} {args : List CliOption}

theorem lastOf_cons (o : CliOption) (args : List CliOption) (d : α) :
    lastOf f (o :: args) d = lastOf f args ((f o).getD d) := by
  cases h : f o with
  | none => rw [lastOf, List.filterMap_cons_none h, lastOf, Option.getD_none]
  | some a =>
    rw [lastOf, List.filterMap_cons_some h, List.getLast?_cons, Option.getD_some, lastOf,
      Option.getD_some]

@[simp] theorem lastOf_lastOf (d : α) : lastOf f args (lastOf f args d) = lastOf f args d := by
  rw [lastOf, lastOf]
  cases (args.filterMap f).getLast? <;> rfl

end lastOf

/-- The settings of the local interface under a command line. -/
def localUnder (args : List CliOption) (l : Local) : Local :=
  { l with
    enabled := lastOf CliOption.setsEnabled args l.enabled
    port := lastOf CliOption.setsPort args l.port }

/-- The settings under a command line: for each of them, the last option has its way. -/
def under (args : List CliOption) (s : ConfigOptions) : ConfigOptions :=
  { s with
    config := lastOf CliOption.setsConfig args s.config
    log := lastOf CliOption.setsLog args s.log
    verbosity := lastOf CliOption.setsVerbosity args s.verbosity
    localIF := localUnder args s.localIF
    foreground := lastOf CliOption.setsForeground args s.foreground
    doRegistration := lastOf CliOption.setsRegister args s.doRegistration }

/-- A step of the loop, under what is left of the command line. -/
theorem under_apply {s t : ConfigOptions} {o : CliOption} (h : o.apply s = .ok t)
    (args : List CliOption) : o.ends = false ∧ under args t = under (o :: args) s := by
  cases o with
  | version | help | unknown => cases h
  | verbose v =>
    obtain rfl := Except.ok.inj h
    refine ⟨rfl, ?_⟩
    by_cases hv : 0 ≤ v <;>
      simp [under, localUnder, lastOf_cons, hv, CliOption.setsVerbosity, CliOption.setsConfig,
        CliOption.setsLog, CliOption.setsEnabled, CliOption.setsPort, CliOption.setsForeground,
        CliOption.setsRegister]
  | _ =>
    obtain rfl := Except.ok.inj h
    refine ⟨rfl, ?_⟩
    simp [under, localUnder, lastOf_cons, CliOption.setsVerbosity, CliOption.setsConfig,
      CliOption.setsLog, CliOption.setsEnabled, CliOption.setsPort, CliOption.setsForeground,
      CliOption.setsRegister]

theorem apply_of_ends {s : ConfigOptions} {o : CliOption} (h : o.ends = false) :
    ∃ t, o.apply s = .ok t := by
  cases o with
  | version | help | unknown => cases h
  | _ => exact ⟨_, rfl⟩

/-- **The command line.**  It is accepted if it asks for no end, and then every setting is as
its last option says. -/
theorem configParseCli_ok_iff {s t : ConfigOptions} {args : List CliOption} :
    configParseCli s args = .ok t ↔ (∀ o ∈ args, o.ends = false) ∧ t = under args s := by
  induction args generalizing s with
  | nil =>
    constructor
    · intro h
      exact ⟨fun o ho => absurd ho List.not_mem_nil, (Except.ok.inj h).symm⟩
    · rintro ⟨-, rfl⟩
      rfl
  | cons o args ih =>
    rw [configParseCli, List.foldlM_cons]
    cases ho : o.apply s with
    | error e =>
      constructor
      · intro h
        cases h
      · rintro ⟨hends, -⟩
        obtain ⟨u, hu⟩ := apply_of_ends (s := s) (hends o List.mem_cons_self)
        rw [hu] at ho
        cases ho
    | ok u =>
      obtain ⟨hends, hunder⟩ := under_apply ho args
      rw [← hunder, List.forall_mem_cons]
      refine Iff.trans ih ?_
      constructor
      · rintro ⟨hargs, rfl⟩
        exact ⟨⟨hends, hargs⟩, rfl⟩
      · rintro ⟨⟨-, hargs⟩, rfl⟩
        exact ⟨hargs, rfl⟩

/-! ## The configuration under a command line -/

theorem localUnder_add (args : List CliOption) (l : Local) (m : String × Value) :
    localUnder args ((localUnder args l).add m) = localUnder args (l.add m) := by
  unfold Local.add
  split <;> simp [localUnder]

theorem localUnder_foldl (args : List CliOption) {l k : Local}
    (h : localUnder args l = localUnder args k) (ms : List (String × Value)) :
    localUnder args (ms.foldl Local.add l) = localUnder args (ms.foldl Local.add k) := by
  induction ms generalizing l k with
  | nil => exact h
  | cons m ms ih =>
    apply ih
    -- a member does not see which value the command line will replace
    rw [← localUnder_add, h, localUnder_add]

theorem localUnder_idem (args : List CliOption) (l : Local) :
    localUnder args (localUnder args l) = localUnder args l := by
  simp [localUnder]

theorem under_idem (args : List CliOption) (s : ConfigOptions) :
    under args (under args s) = under args s := by
  simp [under, localUnder_idem]

/-- A member sets what it sets, whatever the command line has set before. -/
theorem under_add (env : Environment) (args : List CliOption) (s : ConfigOptions)
    (m : String × Value) :
    ((under args s).add env m).map (under args) = (s.add env m).map (under args) := by
  have hidem := under_idem args s
  unfold ConfigOptions.add
  split
  case h_1 b =>
    split_ifs
    · exact congrArg Except.ok hidem
    · rfl
  case h_5 ms =>
    have hlocal := localUnder_foldl args (localUnder_idem args s.localIF) ms
    change Except.ok (under args { under args s with
      localIF := ms.foldl Local.add (localUnder args s.localIF) }) =
      Except.ok (under args { s with localIF := ms.foldl Local.add s.localIF })
    simp [under, hlocal]
  case h_7 vs =>
    change Except.map _ (Except.map _ (vs.foldlM (configParseMeter env) s.mappings)) = _
    cases vs.foldlM (configParseMeter env) s.mappings with
    | error e => rfl
    | ok x => simp [Except.map, under, localUnder_idem]
  case h_8 vs =>
    change Except.map _ (Except.map _ (vs.foldlM (configParseMeter env) s.mappings)) = _
    cases vs.foldlM (configParseMeter env) s.mappings with
    | error e => rfl
    | ok x => simp [Except.map, under, localUnder_idem]
  case h_9 vs =>
    change Except.map _ (if s.pds.isNone && vs.length > 0 then _ else _) = _
    split_ifs
    · cases vs.mapM pushUrl with
      | error e => rfl
      | ok urls => simp [Except.map, under, localUnder_idem]
    · exact congrArg Except.ok hidem
  case h_10 ms =>
    change Except.map _ (if s.mqttClient.isNone then _ else _) = _
    split_ifs
    · simp [Except.map, under, localUnder_idem]
    · exact congrArg Except.ok hidem
  all_goals simp [Except.map, under, localUnder_idem]

theorem under_add_congr {env : Environment} {args : List CliOption} {s t : ConfigOptions}
    (h : under args s = under args t) (m : String × Value) :
    (s.add env m).map (under args) = (t.add env m).map (under args) := by
  rw [← under_add, h, under_add]

/-- What the document makes, under the command line, does not depend on what the command line
has set before. -/
theorem configParse_under (env : Environment) (args : List CliOption) {s t : ConfigOptions}
    (h : under args s = under args t) (doc : Option Value) :
    (configParse env s doc).map (under args) = (configParse env t doc).map (under args) := by
  match doc with
  | none | some .null => rfl
  | some (.boolean _) | some (.double _) | some (.int _) | some (.array _) | some (.string _) => rfl
  | some (.object ms) =>
    change (ms.foldlM (ConfigOptions.add env) s).map _ = (ms.foldlM (ConfigOptions.add env) t).map _
    induction ms generalizing s t with
    | nil => exact congrArg Except.ok h
    | cons m ms ih =>
      rw [List.foldlM_cons, List.foldlM_cons]
      have hstep : (s.add env m).map (under args) = (t.add env m).map (under args) :=
        under_add_congr h m
      cases hs : s.add env m with
      | error e =>
        cases ht : t.add env m with
        | error e' =>
          rw [hs, ht] at hstep
          rw [Except.error.inj hstep]
        | ok u =>
          rw [hs, ht] at hstep
          cases hstep
      | ok u =>
        cases ht : t.add env m with
        | error e =>
          rw [hs, ht] at hstep
          cases hstep
        | ok u' =>
          rw [hs, ht] at hstep
          exact ih (Except.ok.inj hstep)

/-- The same, for a configuration that is accepted. -/
theorem exists_under {env : Environment} {args : List CliOption} {s t : ConfigOptions}
    (h : under args s = under args t) {doc : Option Value} {u : ConfigOptions}
    (hu : configParse env s doc = .ok u) :
    ∃ v, configParse env t doc = .ok v ∧ under args u = under args v := by
  have hsame := configParse_under env args h doc
  rw [hu] at hsame
  cases ht : configParse env t doc with
  | error e =>
    rw [ht] at hsame
    cases hsame
  | ok v =>
    rw [ht] at hsame
    exact ⟨v, rfl, Except.ok.inj hsame⟩

/-- A start that comes through, step by step. -/
theorem startUp_steps {env : Environment} {files : List Char → Except Error (Option Value)}
    {args : List CliOption} {t : ConfigOptions} :
    startUp env files args = .ok t ↔ ∃ s, configParseCli .initial args = .ok s ∧
      ∃ u, (∃ doc, files s.config = .ok doc ∧ configParse env s doc = .ok u) ∧
        configParseCli u args = .ok t := by
  change (configParseCli .initial args).bind (fun s =>
    (((files s.config).bind (configParse env s)).mapError Ended.of).bind fun s =>
      configParseCli s args) = .ok t ↔ _
  simp only [bind_eq_ok_iff, mapError_eq_ok_iff]

/-- **The command line has the last word.**  The program gets to its work exactly if the
command line asks for no end and the configuration, read for itself, is accepted; its settings
are those of the configuration, but for the ones that the command line sets: for each of these
the last option counts. -/
theorem startUp_ok_iff {env : Environment} {files : List Char → Except Error (Option Value)}
    {args : List CliOption} {s : ConfigOptions} :
    startUp env files args = .ok s ↔ (∀ o ∈ args, o.ends = false) ∧
      ∃ doc t, files (lastOf CliOption.setsConfig args ConfigOptions.initial.config) = .ok doc ∧
        configParse env .initial doc = .ok t ∧ s = under args t := by
  have hidem := under_idem args .initial
  rw [startUp_steps]
  constructor
  · rintro ⟨s₀, hcli, u, ⟨doc, hdoc, hu⟩, hagain⟩
    obtain ⟨hends, rfl⟩ := configParseCli_ok_iff.mp hcli
    obtain ⟨-, rfl⟩ := configParseCli_ok_iff.mp hagain
    obtain ⟨t, ht, hunder⟩ := exists_under hidem hu
    exact ⟨hends, doc, t, hdoc, ht, hunder⟩
  · rintro ⟨hends, doc, t, hdoc, ht, rfl⟩
    obtain ⟨u, hu, hunder⟩ := exists_under hidem.symm ht
    exact ⟨_, configParseCli_ok_iff.mpr ⟨hends, rfl⟩, u, ⟨doc, hdoc, hu⟩,
      configParseCli_ok_iff.mpr ⟨hends, hunder⟩⟩

/-- A port on the command line, and the one of the configuration. -/
example (l : Local) : (localUnder [.httpdPort 80, .verbose 5, .httpdPort 81] l).port = 81 := rfl

end VzLogger.Config
