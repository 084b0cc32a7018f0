import VzLogger.Lib.CString

/-! # The header scan of `checkResponse`

`Volkszaehler::checkResponse` walks over the data received, line by line: the
status line, headers and the empty line are skipped, the first other line starts
the payload.  A line that has no end is followed through a null pointer; the scan
has no result there.  `scan_text` says what the scan makes of a complete HTTP
reply.
-/
namespace VzLogger.LwipIF
open CString

/-- A `long` on the Pico. -/
def longBits : Nat := 32

/-- What the data of a response amounts to. -/
structure Scanned where
  httpCode : Int
  payload : Option (List Char)
  deriving DecidableEq

/-- How a status line starts. -/
def statusWord : List Char := "HTTP/".toList

/-- `HTTP/%*d.%*d %d %[^\n]\n`. -/
def statusFormat : List Directive :=
  literal statusWord ++ [.number true false, .char '.', .number true false, .space,
    .number true true, .space, .scanset (· ≠ '\n'), .space]

/-- The characters of `[a-zA-Z-]`. -/
def isHeaderChar (c : Char) : Bool := c.isAlpha || c == '-'

/-- `%[a-zA-Z-]: %[^\n]\n`. -/
def headerFormat : List Directive :=
  [.scanset isHeaderChar, .char ':', .space, .scanset (· ≠ '\n'), .space]

/-- One round of the loop: the status so far, and whether the text is the payload. -/
def scanLine (httpCode : Int) (resp : List Char) : Int × Bool :=
  if resp.take 2 = ['\r', '\n'] then (httpCode, false)
  else
    let status := sscanf longBits statusFormat resp
    -- the number is stored also where the rest of the format does not match
    let httpCode := match status with
      | .int code :: _ => code
      | _ => httpCode
    if status.length = 2 then (httpCode, false)
    else if (sscanf longBits headerFormat resp).length = 2 ∧ resp.head? ≠ some '\x7b' then
      (httpCode, false)
    else (httpCode, true)

/-- The loop.  Away from the start of a line it looks for the next newline. -/
def scanLoop : Bool → Int → List Char → Option Scanned
  | true, httpCode, [] => some ⟨httpCode, none⟩
  | false, _, [] => none
  | true, httpCode, c :: resp =>
    match scanLine httpCode (c :: resp) with
    | (httpCode, true) => some ⟨httpCode, some (c :: resp)⟩
    | (httpCode, false) => scanLoop (c = '\n') httpCode resp
  | false, httpCode, c :: resp => scanLoop (c = '\n') httpCode resp

def scan (resp : List Char) : Option Scanned := scanLoop true 0 resp

/-! ## Complete replies -/

/-- An HTTP reply. -/
structure HttpReply where
  status : Nat
  reason : List Char
  headers : List (List Char × List Char)
  payload : List Char

/-- A text within a line that starts with a visible character. -/
def Inline (s : List Char) : Prop := '\n' ∉ s ∧ ∃ c ∈ s.head?, isSpace c = false

namespace HttpReply

def headerText (h : List Char × List Char) : List Char := h.1 ++ ':' :: ' ' :: (h.2 ++ ['\r', '\n'])

/-- The reply on the wire. -/
def text (r : HttpReply) : List Char :=
  statusWord ++ (Decimal.ofNat 1 ++ '.' :: (Decimal.ofNat 1 ++ ' ' :: (Decimal.ofNat r.status ++
    ' ' :: (r.reason ++ '\r' :: '\n' :: (r.headers.flatMap headerText ++
      '\r' :: '\n' :: r.payload)))))

/-- The replies of a middleware: the payload, if there is one, is a JSON object. -/
structure WellFormed (r : HttpReply) : Prop where
  status : r.status < 2 ^ 31
  reason : Inline r.reason
  names : ∀ h ∈ r.headers, h.1 ≠ [] ∧ ∀ c ∈ h.1, isHeaderChar c = true
  values : ∀ h ∈ r.headers, Inline h.2
  payload : ∀ c ∈ r.payload.head?, c = '\x7b'

end HttpReply

/-! ## The scan of a line -/

theorem scanLoop_skip {l : List Char} (hl : '\n' ∉ l) (httpCode : Int) (rest : List Char) :
    scanLoop false httpCode (l ++ '\n' :: rest) = scanLoop true httpCode rest := by
  induction l with
  | nil => rfl
  | cons c l ih =>
    have hc : decide (c = '\n') = false :=
      decide_eq_false fun h => hl (h ▸ List.mem_cons_self)
    rw [List.cons_append, scanLoop, hc]
    exact ih fun h => hl (List.mem_cons_of_mem c h)

/-- A line that is not the payload is skipped. -/
theorem scanLoop_line {l : List Char} (hne : l ≠ []) (hl : '\n' ∉ l) {httpCode httpCode' : Int}
    (rest : List Char) (h : scanLine httpCode (l ++ '\n' :: rest) = (httpCode', false)) :
    scanLoop true httpCode (l ++ '\n' :: rest) = scanLoop true httpCode' rest := by
  obtain ⟨c, l, rfl⟩ := List.exists_cons_of_ne_nil hne
  have hc : decide (c = '\n') = false := decide_eq_false fun h => hl (h ▸ List.mem_cons_self)
  rw [List.cons_append] at h ⊢
  rw [scanLoop, h]
  show scanLoop (decide (c = '\n')) httpCode' (l ++ '\n' :: rest) = _
  rw [hc]
  exact scanLoop_skip (fun h => hl (List.mem_cons_of_mem c h)) httpCode' rest

theorem isDigit_false_of_head {c : Char} (hc : c.isDigit = false) (s : List Char) :
    ∀ d ∈ (c :: s).head?, d.isDigit = false := by
  intro d hd
  obtain rfl : c = d := by simpa using hd
  exact hc

/-- The field that `%[^\n]` takes out of a line that ends in `\r\n`. -/
theorem sscanf_line {s : List Char} (hs : Inline s) (rest : List Char) :
    sscanf longBits [.space, .scanset (· ≠ '\n'), .space] (' ' :: (s ++ '\r' :: '\n' :: rest)) =
      [.text (s ++ ['\r'])] := by
  obtain ⟨hnl, c, hc, hspace⟩ := hs
  obtain ⟨s, rfl⟩ : ∃ t, s = c :: t := by
    cases s with
    | nil => cases hc
    | cons d s => exact ⟨s, by simpa using hc⟩
  have hskip : skipSpace (' ' :: (c :: s ++ '\r' :: '\n' :: rest)) =
      (c :: s ++ ['\r']) ++ '\n' :: rest := by
    rw [List.cons_append]
    show skipSpace (c :: (s ++ _)) = _
    rw [skipSpace_cons_of_not hspace]
    simp
  rw [sscanf_space, hskip, sscanf_scanset (by simp)]
  · rfl
  · intro d hd
    rcases List.mem_append.mp hd with hd | hd
    · exact decide_eq_true fun h => hnl (h ▸ hd)
    · rw [List.mem_singleton.mp hd]
      decide
  · simp

/-- The status line stores the status. -/
theorem scanLine_status {status : Nat} (hstatus : status < 2 ^ 31) {reason : List Char}
    (hreason : Inline reason) (httpCode : Int) (rest : List Char) :
    scanLine httpCode (statusWord ++ (Decimal.ofNat 1 ++ '.' :: (Decimal.ofNat 1 ++ ' ' ::
      (Decimal.ofNat status ++ ' ' :: (reason ++ '\r' :: '\n' :: rest))))) =
        ((status : Int), false) := by
  have hbits : 32 ≤ longBits := Nat.le_refl 32
  have hdot := isDigit_false_of_head (show '.'.isDigit = false from rfl)
  have hsp := isDigit_false_of_head (show ' '.isDigit = false from rfl)
  have hskip : skipSpace
      (' ' :: (Decimal.ofNat status ++ ' ' :: (reason ++ '\r' :: '\n' :: rest))) =
      Decimal.ofNat status ++ ' ' :: (reason ++ '\r' :: '\n' :: rest) := by
    obtain ⟨c, ds, hds⟩ := List.exists_cons_of_ne_nil (Decimal.ofNat_ne_nil status)
    have hc : c.isDigit = true :=
      Decimal.isDigit_of_mem_ofNat (n := status) (by rw [hds]; exact List.mem_cons_self)
    rw [hds]
    show skipSpace (c :: (ds ++ _)) = _
    rw [skipSpace_cons_of_not (isSpace_of_isDigit hc)]
    rfl
  have hscan : sscanf longBits statusFormat (statusWord ++ (Decimal.ofNat 1 ++ '.' ::
      (Decimal.ofNat 1 ++ ' ' :: (Decimal.ofNat status ++ ' ' ::
        (reason ++ '\r' :: '\n' :: rest))))) =
      [.int status, .text (reason ++ ['\r'])] := by
    rw [statusFormat, sscanf_literal, sscanf_signed hbits (by decide) false _ (hdot _)]
    simp only [Bool.false_eq_true, ↓reduceIte, List.nil_append]
    rw [sscanf_char, sscanf_signed hbits (by decide) false _ (hsp _)]
    simp only [Bool.false_eq_true, ↓reduceIte, List.nil_append]
    rw [sscanf_space, hskip, sscanf_signed hbits hstatus true _ (hsp _), sscanf_line hreason]
    rfl
  have hfirst : (statusWord ++ (Decimal.ofNat 1 ++ '.' :: (Decimal.ofNat 1 ++ ' ' ::
      (Decimal.ofNat status ++ ' ' :: (reason ++ '\r' :: '\n' :: rest))))).take 2 ≠
      ['\r', '\n'] := by
    show ['H', 'T'] ≠ ['\r', '\n']
    decide
  rw [scanLine, if_neg hfirst, hscan]
  rfl

/-- A header leaves the status alone. -/
theorem scanLine_header {name value : List Char} (hne : name ≠ [])
    (hname : ∀ c ∈ name, isHeaderChar c = true) (hvalue : Inline value) (httpCode : Int)
    (rest : List Char) :
    scanLine httpCode (name ++ ':' :: ' ' :: (value ++ '\r' :: '\n' :: rest)) =
      (httpCode, false) := by
  have hprefix : ¬statusWord <+: name ++ ':' :: ' ' :: (value ++ '\r' :: '\n' :: rest) := by
    rintro ⟨t, ht⟩
    have hdrop := congrArg (List.dropWhile isHeaderChar) ht
    rw [List.dropWhile_append_of_pos hname] at hdrop
    exact absurd (List.cons.inj hdrop).1 (by decide)
  have hstatus := sscanf_literal_eq_nil longBits hprefix
    ([.number true false, .char '.', .number true false, .space, .number true true, .space,
      .scanset (· ≠ '\n'), .space])
  have hheader : sscanf longBits headerFormat
      (name ++ ':' :: ' ' :: (value ++ '\r' :: '\n' :: rest)) =
      [.text name, .text (value ++ ['\r'])] := by
    rw [headerFormat, sscanf_scanset hne hname, sscanf_char, sscanf_line hvalue]
    intro c hc
    obtain rfl : ':' = c := by simpa using hc
    rfl
  obtain ⟨c, name, rfl⟩ := List.exists_cons_of_ne_nil hne
  have hc : isHeaderChar c = true := hname c List.mem_cons_self
  have hcr : c ≠ '\r' := by
    rintro rfl
    cases hc
  have hbrace : c ≠ '\x7b' := by
    rintro rfl
    cases hc
  rw [scanLine, if_neg, statusFormat, hstatus, hheader]
  · simp [hbrace]
  · intro h
    exact hcr (List.cons.inj h).1

theorem scanLine_blank (httpCode : Int) (rest : List Char) :
    scanLine httpCode ('\r' :: '\n' :: rest) = (httpCode, false) := if_pos rfl

/-- A JSON object is the payload. -/
theorem scanLine_payload (httpCode : Int) (rest : List Char) :
    scanLine httpCode ('\x7b' :: rest) = (httpCode, true) := by
  have hstatus : sscanf longBits statusFormat ('\x7b' :: rest) = [] := rfl
  have hheader : sscanf longBits headerFormat ('\x7b' :: rest) = [] := rfl
  rw [scanLine, if_neg, hstatus, hheader]
  · rfl
  · intro h
    exact absurd (List.cons.inj h).1 (by decide)

theorem scanLoop_headers {headers : List (List Char × List Char)}
    (hnames : ∀ h ∈ headers, h.1 ≠ [] ∧ ∀ c ∈ h.1, isHeaderChar c = true)
    (hvalues : ∀ h ∈ headers, Inline h.2) (httpCode : Int) (rest : List Char) :
    scanLoop true httpCode (headers.flatMap HttpReply.headerText ++ rest) =
      scanLoop true httpCode rest := by
  induction headers with
  | nil => rfl
  | cons h headers ih =>
    obtain ⟨name, value⟩ := h
    obtain ⟨hne, hname⟩ := hnames _ List.mem_cons_self
    have hvalue := hvalues _ List.mem_cons_self
    have hline : '\n' ∉ name ++ ':' :: ' ' :: (value ++ ['\r']) := by
      intro hmem
      rcases List.mem_append.mp hmem with hmem | hmem
      · exact absurd (hname _ hmem) (by decide)
      · have := hvalue.1
        simp_all
    have hscan := scanLine_header hne hname hvalue httpCode
      (headers.flatMap HttpReply.headerText ++ rest)
    have hstep := scanLoop_line (by simp) hline (headers.flatMap HttpReply.headerText ++ rest)
      (by simpa using hscan)
    rw [← ih (fun h hh => hnames h (List.mem_cons_of_mem _ hh))
      (fun h hh => hvalues h (List.mem_cons_of_mem _ hh)), ← hstep]
    simp [HttpReply.headerText]

/-- **The scan of a complete reply** yields its status and its payload. -/
theorem scan_text {r : HttpReply} (hr : r.WellFormed) :
    scan r.text = some ⟨r.status, if r.payload = [] then none else some r.payload⟩ := by
  have hline : '\n' ∉ statusWord ++ (Decimal.ofNat 1 ++ '.' :: (Decimal.ofNat 1 ++ ' ' ::
      (Decimal.ofNat r.status ++ ' ' :: (r.reason ++ ['\r'])))) := by
    have hdigits : ∀ n, '\n' ∉ Decimal.ofNat n := fun n h =>
      absurd (Decimal.isDigit_of_mem_ofNat h) (by decide)
    have hword : '\n' ∉ statusWord := by decide
    simp [hword, hdigits, hr.reason.1]
  have hstatus := scanLine_status hr.status hr.reason 0
    (r.headers.flatMap HttpReply.headerText ++ '\r' :: '\n' :: r.payload)
  have hfirst := scanLoop_line (by simp [statusWord]) hline
    (r.headers.flatMap HttpReply.headerText ++ '\r' :: '\n' :: r.payload) (by simpa using hstatus)
  have hblank := scanLoop_line (l := ['\r']) (by simp) (by decide) r.payload
    (scanLine_blank r.status r.payload)
  have htext : scan r.text = scanLoop true r.status r.payload := by
    rw [← hblank]
    refine Eq.trans ?_ (scanLoop_headers hr.names hr.values r.status ('\r' :: '\n' :: r.payload))
    rw [← hfirst]
    simp [scan, HttpReply.text]
  rw [htext]
  cases hp : r.payload with
  | nil => rfl
  | cons c rest =>
    obtain rfl : c = '\x7b' := hr.payload c (by rw [hp]; rfl)
    rw [scanLoop, scanLine_payload]
    rfl

end VzLogger.LwipIF
