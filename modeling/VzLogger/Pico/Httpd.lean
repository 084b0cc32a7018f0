import VzLogger.Uuid
import VzLogger.Lib.JsonPrefix

/-! # The HTTP server of the Pico

`VzPicoHttpd::processRequest` answers a request for one channel, or for the index of
all channels, with a JSON text.  The text is written into an array of 1024 characters,
channel by channel, each with a comma behind it; the last comma is overwritten by the
closing brackets.

So the answer is cut off when it gets longer than 1022 characters, and without any
channel it is the opening bracket of the list that is overwritten.  `answers_iff` says
when the answer is the document it is meant to be.
-/
namespace VzLogger.Pico.Httpd
open CString (Double Directive literal sscanf)
open Json

/-! ## What there is to answer with -/

/-- The protocols of the Pico. -/
inductive MeterProtocol where
  | onboardTemp
  | emonlib
  | hcsr04
  | w1tGpio
  | selfmon
  | genericAdc
  deriving DecidableEq

/-- `meter_get_details(protocol)->name`. -/
def MeterProtocol.name : MeterProtocol → List Char
  | .onboardTemp => "onboardTemp".toList
  | .emonlib => "emonlib".toList
  | .hcsr04 => "hcsr04".toList
  | .w1tGpio => "w1tGpio".toList
  | .selfmon => "selfmon".toList
  | .genericAdc => "genericAdc".toList

/-- A channel, with the time and the value of its last reading.  A finite value is an
exact rational; the sign of a zero is not modelled. -/
structure Channel where
  uuid : Uuid
  timeMs : Int
  lastVal : Double

structure Meter where
  protocol : MeterProtocol
  /-- an `int`; -1 where none is configured -/
  interval : Int
  channels : List Channel

/-- `VERSION`, which the build sets: a short text without quotes. -/
structure Version where
  text : List Char
  plain : Plain text
  short : text.length ≤ 64

/-! ## The program -/

/-- The characters of `[0-9a-f-]`. -/
def isUuidChar (c : Char) : Bool := c.isDigit || ('a' ≤ c && c ≤ 'f') || c == '-'

structure Request where
  uuid : List Char
  showAll : Bool
  deriving DecidableEq

/-- `GET /%36[0-9a-f-]`. -/
def channelFormat : List Directive :=
  literal "GET".toList ++ [.space, .char '/', .scanset isUuidChar]

/-- `GET %1[/] `. -/
def indexFormat : List Directive := literal "GET".toList ++ [.space, .scanset (· = '/')]

/-- What the request is for; `none` where it is not valid.  The widths cut off the
last field of each format. -/
def parseRequest (channelIndex : Bool) (req : List Char) : Option Request :=
  match sscanf 32 channelFormat req with
  | [.text uuid] => some ⟨uuid.take 36, false⟩
  | _ =>
    if channelIndex then
      match sscanf 32 indexFormat req with
      | [.text slash] => some ⟨slash.take 1, true⟩
      | _ => none
    else none

/-- `snprintf(buf + at, size, …)`: the text that `buf` holds then. -/
def snprintf (buf : List Char) (at_ size : Nat) (text : List Char) : List Char :=
  buf.take at_ ++ text.take (size - 1)

/-- `%.2f`. -/
def fixed2 : Double → List Char
  | .finite q => Decimal.ofRat 2 q
  | .infinity negative => if negative then "-inf".toList else "inf".toList
  | .nan => "nan".toList

/-- `%u` of an `int`. -/
def unsigned (i : Int) : List Char := Decimal.ofInt (i % 2 ^ 32)

def header (version : Version) : List Char :=
  "\x7b \"version\": \"".toList ++ version.text ++
    "\", \"generator\": \"vzlogger\", \"data\": [".toList

/-- The text of a channel, without the comma. -/
def channelText (m : Meter) (ch : Channel) : List Char :=
  "\x7b \"uuid\": \"".toList ++ ch.uuid.text ++ "\", \"last\": ".toList ++ Decimal.ofInt ch.timeMs ++
    ", \"interval\": ".toList ++ unsigned m.interval ++ ", \"protocol\": \"".toList ++
    m.protocol.name ++ "\", \"tuples\": [ [ ".toList ++ Decimal.ofInt ch.timeMs ++ ", ".toList ++
    fixed2 ch.lastVal ++ " ] ] \x7d".toList

/-- `respCode` and `respData`. -/
structure Response where
  respCode : List Char
  respData : List Char

/-- The body of the loop. -/
def Response.addChannel (req : Request) (m : Meter) (s : Response) (ch : Channel) : Response :=
  if ch.uuid.text = req.uuid ∨ req.showAll then
    ⟨"200 OK".toList, snprintf s.respData s.respData.length (1024 - s.respData.length)
      (channelText m ch ++ [','])⟩
  else s

def Response.addMeter (req : Request) (s : Response) (m : Meter) : Response :=
  m.channels.foldl (Response.addChannel req m) s

def respond (version : Version) (mappings : List Meter) (req : Request) : Response :=
  let s := mappings.foldl (Response.addMeter req) ⟨"404 Not Found".toList, header version⟩
  ⟨s.respCode, snprintf s.respData (s.respData.length - 1) (1024 - s.respData.length)
    "]\x7d".toList⟩

/-- What is sent. -/
def Response.data (s : Response) : List Char :=
  "HTTP/1.1 ".toList ++ s.respCode ++ "\r\n".toList ++
    "Content-type: application/json\r\n".toList ++
    "Content-Length: ".toList ++ Decimal.ofNat s.respData.length ++ "\r\n".toList ++
    "\r\n".toList ++ s.respData

def processRequest (version : Version) (channelIndex : Bool) (mappings : List Meter)
    (req : List Char) : Option Response :=
  (parseRequest channelIndex req).map (respond version mappings)

/-! ## The document an answer is meant to be -/

/-- The channels of a request, in the order of the configuration. -/
def matching (req : Request) (mappings : List Meter) : List (Meter × Channel) :=
  mappings.flatMap fun m =>
    (m.channels.filter fun ch => ch.uuid.text = req.uuid ∨ req.showAll).map fun ch => (m, ch)

/-- The object of a channel, with `x` for the last value. -/
def channelValue (m : Meter) (ch : Channel) (x : Value) : Value :=
  .obj [("uuid".toList, .str ch.uuid.text), ("last".toList, .num ch.timeMs),
    ("interval".toList, .num (m.interval % 2 ^ 32 : Int)),
    ("protocol".toList, .str m.protocol.name),
    ("tuples".toList, .arr [.arr [.num ch.timeMs, x]])]

def document (version : Version) (vs : List Value) : Value :=
  .obj [("version".toList, .str version.text), ("generator".toList, .str "vzlogger".toList),
    ("data".toList, .arr vs)]

/-- An object for a channel.  What stands for a value that is not finite is left open. -/
def Represents (p : Meter × Channel) (v : Value) : Prop :=
  ∃ x, v = channelValue p.1 p.2 x ∧
    ∀ q, p.2.lastVal = .finite q → x = .num (Decimal.rounded 2 q)

/-- The body is a document with one object for each of the channels. -/
def Answers (version : Version) (body : List Char) (ps : List (Meter × Channel)) : Prop :=
  ∃ vs, decode body = some (document version vs) ∧ List.Forall₂ Represents ps vs

def texts (ps : List (Meter × Channel)) : List (List Char) := ps.map fun p => channelText p.1 p.2

/-- The text of the whole document. -/
def documentText (version : Version) (ps : List (Meter × Channel)) : List Char :=
  header version ++ [','].intercalate (texts ps) ++ "]\x7d".toList

def Finite (p : Meter × Channel) : Prop := ∃ q, p.2.lastVal = .finite q

/-- There is a channel, all last values are finite, and the document fits into the array
with a character to spare. -/
def Complete (version : Version) (ps : List (Meter × Channel)) : Prop :=
  ps ≠ [] ∧ (documentText version ps).length ≤ 1022 ∧ ∀ p ∈ ps, Finite p

/-! ## What is written into the array -/

theorem snprintf_end (buf text : List Char) (size : Nat) :
    snprintf buf buf.length size text = buf ++ text.take (size - 1) := by
  rw [snprintf, List.take_length]

/-- What does not fit into the array any more is cut off. -/
theorem snprintf_take (T text : List Char) :
    snprintf (T.take 1023) (T.take 1023).length (1024 - (T.take 1023).length) text =
      (T ++ text).take 1023 := by
  rw [snprintf_end, List.take_append]
  congr 2
  rw [List.length_take]
  omega

/-- The last character is given up, and the closing text gets what room is left. -/
theorem closing_take (U text : List Char) :
    snprintf ((U ++ [',']).take 1023) (((U ++ [',']).take 1023).length - 1)
      (1024 - ((U ++ [',']).take 1023).length) text = (U ++ text).take 1022 := by
  have hlen : ((U ++ [',']).take 1023).length = min 1023 (U.length + 1) := by
    rw [List.length_take, List.length_append, List.length_singleton]
  rw [snprintf, hlen, List.take_take, List.take_append (i := 1022)]
  congr 1
  · rw [List.take_append_of_le_length (by omega)]
    by_cases hU : U.length ≤ 1022
    · rw [List.take_of_length_le hU, List.take_of_length_le (by omega)]
    · rw [show min (min 1023 (U.length + 1) - 1) 1023 = 1022 by omega]
  · rw [show 1024 - min 1023 (U.length + 1) - 1 = 1022 - U.length by omega]

section
variable (req : Request) (version : Version)

/-- The loop writes the channels of the request. -/
theorem foldl_addMeter (mappings : List Meter) (s : Response) :
    mappings.foldl (Response.addMeter req) s =
      (matching req mappings).foldl (fun s p => ⟨"200 OK".toList, snprintf s.respData
        s.respData.length (1024 - s.respData.length) (channelText p.1 p.2 ++ [','])⟩) s := by
  rw [matching, List.foldl_flatMap]
  congr 1
  funext s m
  rw [List.foldl_map, List.foldl_filter, Response.addMeter]
  congr 1
  funext s ch
  simp only [Response.addChannel, decide_eq_true_eq]

theorem foldl_channels (ps : List (Meter × Channel)) (code T : List Char) :
    ps.foldl (fun s p => ⟨"200 OK".toList, snprintf s.respData
        s.respData.length (1024 - s.respData.length) (channelText p.1 p.2 ++ [','])⟩)
        (⟨code, T.take 1023⟩ : Response) =
      ⟨if ps = [] then code else "200 OK".toList,
        (T ++ (texts ps).flatMap (· ++ [','])).take 1023⟩ := by
  induction ps generalizing code T with
  | nil => simp [texts]
  | cons p ps ih =>
    have htexts : (texts (p :: ps)).flatMap (· ++ [',']) =
        channelText p.1 p.2 ++ [','] ++ (texts ps).flatMap (· ++ [',']) := rfl
    rw [List.foldl_cons, snprintf_take, ih, ite_self, if_neg (List.cons_ne_nil p ps), htexts]
    simp only [List.append_assoc]

theorem flatMap_comma {ts : List (List Char)} (hne : ts ≠ []) :
    ts.flatMap (· ++ [',']) = [','].intercalate ts ++ [','] := by
  induction ts with
  | nil => exact absurd rfl hne
  | cons t ts ih =>
    cases ts with
    | nil => simp
    | cons u ts =>
      rw [List.flatMap_cons, ih (List.cons_ne_nil u ts), intercalate_cons_cons]
      simp

theorem length_header : (header version).length ≤ 128 := by
  have hfront : ("\x7b \"version\": \"".toList).length = 14 := rfl
  have hback : ("\", \"generator\": \"vzlogger\", \"data\": [".toList).length = 37 := rfl
  unfold header
  simp only [List.length_append, hfront, hback]
  clear hfront hback
  have hshort := version.short
  omega

/-- **The body of the answer.** -/
theorem respond_body (mappings : List Meter) (hne : matching req mappings ≠ []) :
    (respond version mappings req).respData =
      (documentText version (matching req mappings)).take 1022 := by
  generalize hps : matching req mappings = ps at hne
  have hlen := length_header version
  have htake : header version = (header version).take 1023 := by
    rw [List.take_of_length_le (by omega)]
  have htexts : texts ps ≠ [] := by simpa [texts] using hne
  unfold respond
  rw [foldl_addMeter, hps, htake, foldl_channels, flatMap_comma htexts]
  simp only [documentText]
  rw [← List.append_assoc]
  generalize header version ++ [','].intercalate (texts ps) = U
  exact closing_take U "]\x7d".toList

/-- Without a channel the opening bracket of the list is lost. -/
theorem respond_none (mappings : List Meter) (hnone : matching req mappings = []) :
    (respond version mappings req).respData = (header version).dropLast ++ "]\x7d".toList := by
  have hlen := length_header version
  unfold respond
  rw [foldl_addMeter, hnone]
  simp only [List.foldl_nil]
  rw [snprintf, List.dropLast_eq_take, List.take_of_length_le (l := "]\x7d".toList)]
  have htwo : ("]\x7d".toList).length = 2 := rfl
  rw [htwo]
  omega

end

/-! ## What the texts read as -/

/-- A fixed text that needs no escapes. -/
theorem plain_text (s : List Char)
    (h : s.all (fun c => c != '"' && c != '\\' && 32 ≤ c.toNat) = true := by decide) : Plain s := by
  intro c hc
  have hall := List.all_eq_true.mp h c hc
  simpa [and_assoc] using hall

theorem plain_name (protocol : MeterProtocol) : Plain protocol.name := by
  cases protocol <;> exact plain_text _

theorem plain_uuid (uuid : Uuid) : Plain uuid.text := by
  intro c hc
  have hdigit := uuid.mem hc
  refine ⟨?_, ?_, ?_⟩
  · rintro rfl
    revert hdigit
    decide
  · rintro rfl
    revert hdigit
    decide
  · by_contra hlow
    have hfew : ∀ n < 32, ¬ (Char.ofNat n = '-' ∨ isxdigit (Char.ofNat n) = true) := by decide
    apply hfew c.toNat (not_le.mp hlow)
    rwa [Char.ofNat_toNat]

section
variable (m : Meter) (ch : Channel) (rest : List Char)

theorem channelText_members :
    channelText m ch ++ rest = '\x7b' :: ([' '] ++ member "uuid".toList [' ']
      ('"' :: (ch.uuid.text ++ ['"']) ++ ',' :: ([' '] ++ member "last".toList [' ']
        (Decimal.ofInt ch.timeMs ++ ',' :: ([' '] ++ member "interval".toList [' ']
          (unsigned m.interval ++ ',' :: ([' '] ++ member "protocol".toList [' ']
            ('"' :: (m.protocol.name ++ ['"']) ++ ',' :: ([' '] ++ member "tuples".toList [' ']
              ('[' :: ([' '] ++ ('[' :: ([' '] ++ (Decimal.ofInt ch.timeMs ++ ',' :: ([' '] ++
                (fixed2 ch.lastVal ++ " ] ] \x7d".toList ++ rest)))))))))))))))) := by
  unfold channelText member
  simp only [List.append_assoc, List.cons_append, List.nil_append]
  rfl

theorem header_members (version : Version) :
    (header version).dropLast ++ rest = '\x7b' :: ([' '] ++ member "version".toList [' ']
      ('"' :: (version.text ++ ['"']) ++ ',' :: ([' '] ++ member "generator".toList [' ']
        ('"' :: ("vzlogger".toList ++ ['"']) ++ ',' :: ([' '] ++ member "data".toList [' ']
          rest))))) := by
  unfold header member
  rw [List.dropLast_append_of_ne_nil (by decide)]
  simp only [List.append_assoc, List.cons_append, List.nil_append]
  rfl

/-- The header ends with the opening bracket of the list. -/
theorem header_open (version : Version) :
    header version ++ rest = (header version).dropLast ++ '[' :: ([] ++ rest) := by
  unfold header
  rw [List.dropLast_append_of_ne_nil (by decide)]
  simp only [List.append_assoc, List.nil_append]
  rfl

end

section
variable {m : Meter} {ch : Channel}

theorem parses_fixed2 {x : Double} {q : Rat} (h : x = .finite q) :
    Parses (fixed2 x) (.num (Decimal.rounded 2 q)) 1 := by
  subst h
  exact parses_ofRat (by decide) q

theorem blocked_fixed2 {x : Double} (h : ∀ q, x ≠ .finite q) (rest : List Char) :
    Blocked (fixed2 x ++ rest) := by
  have hscalar : ∀ c t, (c = '-' ∧ ∃ u, t = 'i' :: u) ∨ c = 'i' ∨ (c = 'n' ∧ ∃ u, t = 'a' :: u) →
      scalar (c :: t) = none := by
    rintro c t (⟨rfl, u, rfl⟩ | rfl | ⟨rfl, u, rfl⟩) <;>
      simp [scalar, literals, number, magnitude, intPart, digits, List.span_eq_takeWhile_dropWhile]
  cases x with
  | finite q => exact absurd rfl (h q)
  | infinity negative =>
    cases negative with
    | true => exact blocked_scalar (by decide) (by decide) (hscalar _ _ (Or.inl ⟨rfl, _, rfl⟩))
    | false => exact blocked_scalar (by decide) (by decide) (hscalar _ _ (Or.inr (Or.inl rfl)))
  | nan => exact blocked_scalar (by decide) (by decide) (hscalar _ _ (Or.inr (Or.inr ⟨rfl, _, rfl⟩)))

theorem parses_tuples {q : Rat} (h : ch.lastVal = .finite q) :
    Parses ('[' :: ([' '] ++ (('[' :: ([' '] ++ (Decimal.ofInt ch.timeMs ++ ',' :: ([' '] ++
        (fixed2 ch.lastVal ++ ([' '] ++ [']'])))))) ++ ([' '] ++ [']']))))
      (.arr [.arr [.num ch.timeMs, .num (Decimal.rounded 2 q)]]) 6 := by
  have hvalue := parsesElements_last spaces_one (parses_fixed2 h)
  have htime := (parses_ofInt ch.timeMs).mono (show 1 ≤ 2 by decide)
  have htuple := parses_arr spaces_one (parsesElements_cons spaces_one htime hvalue)
  exact parses_arr spaces_one (parsesElements_last spaces_one htuple)

/-- The object of a channel with a finite value. -/
theorem parses_channel {q : Rat} (h : ch.lastVal = .finite q) :
    Parses (channelText m ch) (channelValue m ch (.num (Decimal.rounded 2 q))) 12 := by
  have htuples := parsesMembers_last (plain_text "tuples".toList) spaces_one
    spaces_one (parses_tuples h)
  have hprotocol := parsesMembers_cons (plain_text "protocol".toList) spaces_one
    spaces_one ((parses_str (plain_name m.protocol)).mono (show 1 ≤ 7 by decide)) htuples
  have hinterval := parsesMembers_cons (plain_text "interval".toList) spaces_one
    spaces_one ((parses_ofInt (m.interval % 2 ^ 32)).mono (show 1 ≤ 8 by decide)) hprotocol
  have hlast := parsesMembers_cons (plain_text "last".toList) spaces_one
    spaces_one ((parses_ofInt ch.timeMs).mono (show 1 ≤ 9 by decide)) hinterval
  have huuid := parsesMembers_cons (plain_text "uuid".toList) spaces_one
    spaces_one ((parses_str (plain_uuid ch.uuid)).mono (show 1 ≤ 10 by decide)) hlast
  have hobj := parses_obj spaces_one huuid
  have htext := channelText_members m ch []
  rw [List.append_nil] at htext
  rw [htext]
  refine (congrArg (Parses · _ 12) ?_).mp hobj
  simp only [List.append_assoc, List.cons_append, List.nil_append]
  rfl

/-- A value that is not finite cannot be read, whatever follows the object. -/
theorem blocked_channel (h : ¬Finite (m, ch)) (rest : List Char) :
    Blocked (channelText m ch ++ rest) := by
  have hvalue := blocked_fixed2 (fun q hq => h ⟨q, hq⟩) (" ] ] \x7d".toList ++ rest)
  have hpair := blockedElements_cons spaces_one (parses_ofInt ch.timeMs) hvalue.elements
  have htuple := blocked_arr spaces_one
    (fun u => (parses_ofInt ch.timeMs).reads.not_closing (ends_cons (Or.inl rfl) _)) hpair
  have htuples := blocked_arr spaces_one (fun u hclose => by cases hclose) htuple.elements
  have htuples := blockedMembers_value (plain_text "tuples".toList) spaces_one htuples
  have hprotocol := blockedMembers_cons (plain_text "protocol".toList) spaces_one spaces_one
    (parses_str (plain_name m.protocol)) htuples
  have hinterval := blockedMembers_cons (plain_text "interval".toList) spaces_one spaces_one
    (parses_ofInt (m.interval % 2 ^ 32)) hprotocol
  have hlast := blockedMembers_cons (plain_text "last".toList) spaces_one spaces_one
    (parses_ofInt ch.timeMs) hinterval
  have huuid := blockedMembers_cons (plain_text "uuid".toList) spaces_one spaces_one
    (parses_str (plain_uuid ch.uuid)) hlast
  rw [channelText_members]
  simp only [List.append_assoc]
  exact blocked_obj spaces_one huuid

/-! ## The answer -/

variable {version : Version} {ps : List (Meter × Channel)}

/-- The objects of channels with finite values. -/
theorem parses_texts (h : ∀ p ∈ ps, Finite p) :
    ∃ vs, List.Forall₂ Represents ps vs ∧ List.Forall₂ (Parses · · 12) (texts ps) vs := by
  induction ps with
  | nil => exact ⟨[], List.Forall₂.nil, List.Forall₂.nil⟩
  | cons p ps ih =>
    obtain ⟨q, hq⟩ := h p List.mem_cons_self
    obtain ⟨vs, hrep, hparse⟩ := ih fun p hp => h p (List.mem_cons_of_mem _ hp)
    refine ⟨channelValue p.1 p.2 (.num (Decimal.rounded 2 q)) :: vs, ?_, ?_⟩
    · refine List.Forall₂.cons ⟨_, rfl, ?_⟩ hrep
      intro r hr
      rw [Double.finite.inj (hq.symm.trans hr)]
    · exact List.Forall₂.cons (parses_channel hq) hparse

/-- The document, when all values are finite. -/
theorem parses_document {vs : List Value} (hne : ps ≠ [])
    (h : List.Forall₂ (Parses · · 12) (texts ps) vs) :
    Parses (documentText version ps) (document version vs) (17 + (texts ps).length) := by
  have htexts : texts ps ≠ [] := by simpa [texts] using hne
  have harr := parses_arr spaces_nil (parsesElements_intercalate h htexts)
  have hdata := parsesMembers_last (plain_text "data".toList) spaces_one spaces_nil harr
  have hgenerator := parsesMembers_cons (plain_text "generator".toList) spaces_one spaces_one
    ((parses_str (plain_text "vzlogger".toList)).mono (by omega)) hdata
  have hversion := parsesMembers_cons (plain_text "version".toList) spaces_one spaces_one
    ((parses_str version.plain).mono (by omega)) hgenerator
  have hobj := (parses_obj spaces_one hversion).mono (l := 17 + (texts ps).length) (by omega)
  have htext := header_members ('[' :: ([] ++ ([','].intercalate (texts ps) ++ "]\x7d".toList)))
    version
  rw [documentText, List.append_assoc, header_open, htext]
  refine cast ?_ hobj
  congr 1
  simp only [List.append_assoc, List.cons_append, List.nil_append]
  rfl

/-- The document cannot be read when its list cannot. -/
theorem blocked_data {t : List Char} (h : Blocked t) :
    Blocked ((header version).dropLast ++ t) := by
  have hdata := blockedMembers_value (plain_text "data".toList) spaces_one h
  have hgenerator := blockedMembers_cons (plain_text "generator".toList) spaces_one spaces_one
    (parses_str (plain_text "vzlogger".toList)) hdata
  have hversion := blockedMembers_cons (plain_text "version".toList) spaces_one spaces_one
    (parses_str version.plain) hgenerator
  rw [header_members]
  exact blocked_obj spaces_one hversion

/-- The texts of channels start with a brace. -/
theorem texts_open (hne : ps ≠ []) (rest u : List Char) :
    skipSpace ([','].intercalate (texts ps) ++ rest) ≠ ']' :: u := by
  obtain ⟨p, ps, rfl⟩ := List.exists_cons_of_ne_nil hne
  obtain ⟨t, ht⟩ : ∃ t, [','].intercalate (texts (p :: ps)) ++ rest = channelText p.1 p.2 ++ t := by
    cases ps with
    | nil => exact ⟨rest, by simp [texts]⟩
    | cons p' ps =>
      simp only [texts, List.map_cons]
      rw [intercalate_cons_cons, List.append_assoc]
      exact ⟨_, rfl⟩
  rw [ht, channelText_members]
  intro hclose
  cases hclose

/-- A value that is not finite spoils the document. -/
theorem blocked_document (h : ∃ p ∈ ps, ¬Finite p) : Blocked (documentText version ps) := by
  have hcases : ∀ t ∈ texts ps, (∃ v, Parses t v 12) ∨ ∀ rest, Blocked (t ++ rest) := by
    intro t ht
    obtain ⟨p, -, rfl⟩ := List.mem_map.mp ht
    by_cases hp : Finite p
    · obtain ⟨q, hq⟩ := hp
      exact Or.inl ⟨_, parses_channel hq⟩
    · exact Or.inr fun rest => blocked_channel hp rest
  obtain ⟨p, hp, hnot⟩ := h
  have helements := blockedElements_intercalate hcases
    ⟨_, List.mem_map_of_mem hp, fun rest => blocked_channel hnot rest⟩ "]\x7d".toList
  rw [documentText, List.append_assoc, header_open]
  exact blocked_data (blocked_arr spaces_nil (texts_open (List.ne_nil_of_mem hp) _) helements)

/-- **The answer to the channels of a request is their document exactly when there are
any, their values are finite and the document is not longer than 1022 characters.** -/
theorem body_answers_iff (hne : ps ≠ []) :
    Answers version ((documentText version ps).take 1022) ps ↔ Complete version ps := by
  have hsplit := List.take_append_drop 1022 (documentText version ps)
  constructor
  · rintro ⟨vs, hdecode, -⟩
    have hnum : ∀ x, document version vs ≠ .num x := fun x hx => by cases hx
    have hfinite : ∀ p ∈ ps, Finite p := by
      by_contra hnot
      push Not at hnot
      have hblocked : Blocked (documentText version ps) := blocked_document hnot
      rw [← hsplit] at hblocked
      exact decode_of_blocked hblocked hnum hdecode
    refine ⟨hne, ?_, hfinite⟩
    -- a beginning of the document is no document
    obtain ⟨ws, -, hparse⟩ := parses_texts hfinite
    have hdocument : Parses (documentText version ps) (document version ws) _ :=
      parses_document hne hparse
    rw [← hsplit] at hdocument
    have hrest := (decode_of_isPrefix hdecode hnum hdocument).1
    exact List.drop_eq_nil_iff.mp hrest
  · rintro ⟨-, hlen, hfinite⟩
    obtain ⟨vs, hrep, hparse⟩ := parses_texts hfinite
    refine ⟨vs, ?_, hrep⟩
    rw [List.take_of_length_le hlen]
    have hdocument : Parses (documentText version ps) (document version vs) _ :=
      parses_document hne hparse
    apply decode_of_reads hdocument.reads
    have hcount := length_le_intercalate (texts ps)
    have hfront : 14 ≤ (header version).length := by
      unfold header
      rw [List.length_append, List.length_append]
      exact Nat.le_add_right_of_le (Nat.le_add_right 14 _)
    rw [documentText, List.length_append, List.length_append]
    omega

/-- Without a channel there is no document. -/
theorem none_not_answered : ¬Answers version ((header version).dropLast ++ "]\x7d".toList) ps := by
  rintro ⟨vs, hdecode, -⟩
  have hblocked : Blocked ((header version).dropLast ++ "]\x7d".toList) :=
    blocked_data (blocked_closing "\x7d".toList)
  rw [← List.append_nil ((header version).dropLast ++ _)] at hblocked
  exact decode_of_blocked hblocked (fun x hx => by cases hx) hdecode

/-- What `respond` makes of a request. -/
theorem respond_answers_iff (version : Version) (mappings : List Meter) (req : Request) :
    Answers version (respond version mappings req).respData (matching req mappings) ↔
      Complete version (matching req mappings) := by
  by_cases hne : matching req mappings = []
  · rw [respond_none req version mappings hne]
    apply iff_of_false none_not_answered
    rintro ⟨hsome, -⟩
    exact hsome hne
  · rw [respond_body req version mappings hne]
    exact body_answers_iff hne

/-- **An accepted request is answered with the document of its channels exactly when it
is complete**: there is a channel, the values are finite, and the text fits. -/
theorem answers_iff {channelIndex : Bool} {mappings : List Meter} {req : List Char} {r : Request}
    {s : Response} (hreq : parseRequest channelIndex req = some r)
    (hs : processRequest version channelIndex mappings req = some s) :
    Answers version s.respData (matching r mappings) ↔ Complete version (matching r mappings) := by
  rw [processRequest, hreq, Option.map_some] at hs
  obtain rfl := Option.some.inj hs
  exact respond_answers_iff version mappings r

end

/-! A meter with two channels, asked for one of them. -/

def version089 : Version := ⟨"0.8.9".toList, plain_text _, by decide⟩

def temperature : Channel :=
  ⟨⟨"815e8820-bd87-11ef-992f-017e1a2d8ec8".toList, by decide⟩, 1700000000123, .finite (85 / 4)⟩

def humidity : Channel :=
  ⟨⟨"815e8820-bd87-11ef-992f-017e1a2d8ec9".toList, by decide⟩, 1700000000123, .nan⟩

def meters : List Meter := [⟨.genericAdc, -1, [humidity, temperature]⟩]

def channelRequest : Request := ⟨temperature.uuid.text, false⟩

def unknownRequest : Request := ⟨"815e8820-bd87-11ef-992f-017e1a2d8eca".toList, false⟩

theorem answers_iff_temperature :
    parseRequest true "GET /815e8820-bd87-11ef-992f-017e1a2d8ec8 HTTP/1.1".toList =
        some channelRequest ∧
      (Answers version089 (respond version089 meters channelRequest).respData
          (matching channelRequest meters) ↔
        Complete version089 (matching channelRequest meters)) := by
  have hreq : parseRequest true "GET /815e8820-bd87-11ef-992f-017e1a2d8ec8 HTTP/1.1".toList =
      some channelRequest := by decide +kernel
  have hs : processRequest version089 true meters
      "GET /815e8820-bd87-11ef-992f-017e1a2d8ec8 HTTP/1.1".toList =
        some (respond version089 meters channelRequest) := by
    rw [processRequest, hreq, Option.map_some]
  exact ⟨hreq, answers_iff hreq hs⟩

/-- A channel that is not there: the answer is no JSON text. -/
theorem unknown_channel_not_answered :
    parseRequest true "GET /815e8820-bd87-11ef-992f-017e1a2d8eca HTTP/1.1".toList =
        some unknownRequest ∧
      (respond version089 meters unknownRequest).respData =
        "\x7b \"version\": \"0.8.9\", \"generator\": \"vzlogger\", \"data\": ]\x7d".toList ∧
      ¬Answers version089 (respond version089 meters unknownRequest).respData
        (matching unknownRequest meters) := by
  refine ⟨by decide +kernel, by decide +kernel, ?_⟩
  rw [respond_answers_iff]
  rintro ⟨hsome, -⟩
  exact hsome (by decide +kernel)

end VzLogger.Pico.Httpd
