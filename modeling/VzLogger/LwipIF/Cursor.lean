import VzLogger.LwipIF.Response

/-! # The cursor of the header scan

`scan` says what `checkResponse` makes of a reply; here the same loop is followed with
its cursor, a position in the reply, and with the arrays its fields are stored in.  The
loop goes astray where the search for the next newline finds none, and where a field
does not fit into its 128 characters.

`headerLoop_safe_iff` says for which replies neither happens: the line starts lead up to the payload
or to the end of the reply, over lines whose fields fit.
-/
namespace VzLogger.LwipIF.Cursor
open CString

/-- `strchr(s, c)`, as a distance from `s`. -/
def strchr (s : List Char) (c : Char) : Option Nat := s.findIdx? (· = c)

/-- Whether a field fits into `buf` or `buf2`. -/
def fits : Value → Bool
  | .int _ => true
  | .text s => s.length < 128

/-- Whether all fits that the round of the loop stores at the line start `resp`. -/
def lineFits (resp : List Char) : Bool :=
  resp.take 2 = ['\r', '\n'] ||
    ((sscanf longBits statusFormat resp).all fits &&
      ((sscanf longBits statusFormat resp).length = 2 ||
        (sscanf longBits headerFormat resp).all fits))

/-- Where the loop ends: with its status and the position of its cursor, behind the
array of a field, at a cursor that comes from `NULL`, or not within the rounds given. -/
inductive Result where
  | ended (httpCode : Int) (cursor : Nat)
  | overflow
  | astray
  | running
  deriving DecidableEq, Repr

/-- At most `n` rounds of the loop from a cursor. -/
def loop (reply : List Char) : Nat → Nat → Int → Result
  | 0, _, _ => .running
  | n + 1, cursor, httpCode =>
    let resp := reply.drop cursor
    if resp = [] then .ended httpCode cursor
    else if lineFits resp = false then .overflow
    else
      match scanLine httpCode resp with
      | (httpCode, true) => .ended httpCode cursor
      | (httpCode, false) =>
        match strchr resp '\n' with
        | none => .astray
        | some k => loop reply n (cursor + k + 1) httpCode

def headerLoop (reply : List Char) : Result := loop reply (reply.length + 1) 0 0

/-! ## Line starts -/

/-- The beginning of the reply, and every position behind a newline. -/
def LineStart (reply : List Char) (q : Nat) : Prop :=
  q ≤ reply.length ∧ (q = 0 ∨ reply[q - 1]? = some '\n')

/-- The loop stops there: at the end of the reply, or at a line that is the payload. -/
def Stop (reply : List Char) (q : Nat) : Prop :=
  reply.drop q = [] ∨ (scanLine 0 (reply.drop q)).2 = true

/-- The line starts from `p` on lead to one where the loop stops, and the fields of the
lines up to there fit. -/
def Leads (reply : List Char) (p : Nat) : Prop :=
  ∃ q, p ≤ q ∧ LineStart reply q ∧ Stop reply q ∧
    (∀ r, p ≤ r → r < q → LineStart reply r → ¬Stop reply r) ∧
    ∀ r, p ≤ r → r ≤ q → LineStart reply r → lineFits (reply.drop r) = true

/-- A status that is 0 or was read at a line start of the reply. -/
def StatusOf (reply : List Char) (httpCode : Int) : Prop :=
  httpCode = 0 ∨ ∃ q vs, LineStart reply q ∧
    sscanf longBits statusFormat (reply.drop q) = .int httpCode :: vs

/-- The loop ends, at a cursor inside the reply or at its terminator, with a status out
of the reply. -/
def Safe (reply : List Char) : Prop :=
  ∃ httpCode cursor, headerLoop reply = .ended httpCode cursor ∧ cursor ≤ reply.length ∧
    StatusOf reply httpCode

section
variable {reply : List Char} {p q k : Nat}

/-- Whether a line is the payload does not depend on the status so far. -/
theorem scanLine_payload_eq (httpCode : Int) (resp : List Char) :
    (scanLine httpCode resp).2 = (scanLine 0 resp).2 := by
  unfold scanLine
  split
  · rfl
  · dsimp only
    split
    · rfl
    · split <;> rfl

theorem strchr_some (h : strchr (reply.drop p) '\n' = some k) :
    p + k < reply.length ∧ reply[p + k]? = some '\n' ∧ ∀ j < k, reply[p + j]? ≠ some '\n' := by
  obtain ⟨hk, hc, hbefore⟩ := List.findIdx?_eq_some_iff_getElem.mp h
  rw [List.length_drop] at hk
  refine ⟨by omega, ?_, ?_⟩
  · rw [List.getElem_drop, decide_eq_true_eq] at hc
    rw [List.getElem?_eq_getElem (by omega), hc]
  · intro j hj hnl
    have hnot := hbefore j hj
    rw [List.getElem_drop, decide_eq_true_eq] at hnot
    rw [List.getElem?_eq_getElem (by omega)] at hnl
    exact hnot (Option.some.inj hnl)

/-- The line up to the newline, and what comes behind it. -/
theorem drop_of_strchr (h : strchr (reply.drop p) '\n' = some k) :
    ∃ l, '\n' ∉ l ∧ reply.drop p = l ++ '\n' :: reply.drop (p + k + 1) := by
  obtain ⟨hlt, hnl, hbefore⟩ := strchr_some h
  refine ⟨(reply.drop p).take k, ?_, ?_⟩
  · intro hmem
    obtain ⟨j, hj⟩ := List.mem_iff_getElem?.mp hmem
    rw [List.getElem?_take] at hj
    split at hj
    · rename_i hjk
      rw [List.getElem?_drop] at hj
      exact hbefore j hjk hj
    · cases hj
  · have hrest : reply.drop (p + k) = '\n' :: reply.drop (p + k + 1) := by
      rw [List.drop_eq_getElem_cons hlt]
      rw [List.getElem?_eq_getElem hlt] at hnl
      rw [Option.some.inj hnl]
    rw [← hrest, ← List.drop_drop, List.take_append_drop]

/-- The next line starts behind the newline that is found. -/
theorem lineStart_next (h : strchr (reply.drop p) '\n' = some k) :
    LineStart reply (p + k + 1) := by
  obtain ⟨hlt, hnl, -⟩ := strchr_some h
  exact ⟨hlt, Or.inr hnl⟩

/-- There is no line start in between. -/
theorem lineStart_ge (h : strchr (reply.drop p) '\n' = some k) (hq : LineStart reply q)
    (hpq : p < q) : p + k + 1 ≤ q := by
  obtain ⟨-, -, hbefore⟩ := strchr_some h
  by_contra hlt
  rcases hq.2 with rfl | hnl
  · omega
  · apply hbefore (q - 1 - p) (by omega)
    rwa [show p + (q - 1 - p) = q - 1 by omega]

/-- Without a newline there is no line start behind. -/
theorem lineStart_le (h : strchr (reply.drop p) '\n' = none) (hq : LineStart reply q) :
    q ≤ p := by
  by_contra hlt
  rcases hq.2 with rfl | hnl
  · omega
  · have hnone := List.findIdx?_eq_none_iff.mp h '\n' ?_
    · exact absurd hnone (by decide)
    · apply List.mem_of_getElem? (i := q - 1 - p)
      rwa [List.getElem?_drop, show p + (q - 1 - p) = q - 1 by omega]

theorem leads_of_stop (hp : LineStart reply p) (hstop : Stop reply p)
    (hfits : lineFits (reply.drop p) = true) : Leads reply p := by
  refine ⟨p, Nat.le_refl p, hp, hstop, ?_, ?_⟩
  · intro r hpr hrp
    omega
  · intro r hpr hrp _
    obtain rfl : r = p := by omega
    exact hfits

theorem Leads.fits (h : Leads reply p) (hp : LineStart reply p) :
    lineFits (reply.drop p) = true := by
  obtain ⟨q, hpq, -, -, -, hfits⟩ := h
  exact hfits p (Nat.le_refl p) hpq hp

/-- From a line that does not stop the loop it goes on to the next. -/
theorem leads_next (hp : LineStart reply p) (hstop : ¬Stop reply p) :
    Leads reply p ↔ lineFits (reply.drop p) = true ∧
      ∃ k, strchr (reply.drop p) '\n' = some k ∧ Leads reply (p + k + 1) := by
  constructor
  · intro h
    refine ⟨h.fits hp, ?_⟩
    obtain ⟨q, hpq, hq, hqstop, hbefore, hfits⟩ := h
    have hlt : p < q := by
      rcases Nat.lt_or_eq_of_le hpq with hlt | rfl
      · exact hlt
      · exact absurd hqstop hstop
    cases hk : strchr (reply.drop p) '\n' with
    | none =>
      have := lineStart_le hk hq
      omega
    | some k =>
      refine ⟨k, rfl, q, lineStart_ge hk hq hlt, hq, hqstop, ?_, ?_⟩
      · intro r hr hrq
        exact hbefore r (by omega) hrq
      · intro r hr hrq
        exact hfits r (by omega) hrq
  · rintro ⟨hfit, k, hk, q, hq', hq, hqstop, hbefore, hfits⟩
    refine ⟨q, by omega, hq, hqstop, ?_, ?_⟩
    · intro r hpr hrq hr
      rcases Nat.lt_or_eq_of_le hpr with hlt | rfl
      · exact hbefore r (lineStart_ge hk hr hlt) hrq hr
      · exact hstop
    · intro r hpr hrq hr
      rcases Nat.lt_or_eq_of_le hpr with hlt | rfl
      · exact hfits r (lineStart_ge hk hr hlt) hrq hr
      · exact hfit

/-- **The loop ends exactly where the line starts lead.**  It has more rounds than there
are positions left. -/
theorem loop_ended_iff (n : Nat) (hn : reply.length < n + p) (hp : LineStart reply p)
    (httpCode : Int) :
    (∃ c q, loop reply n p httpCode = .ended c q) ↔ Leads reply p := by
  induction n generalizing p httpCode with
  | zero => exact absurd hp.1 (by omega)
  | succ n ih =>
    rw [loop]
    by_cases hend : reply.drop p = []
    · have hleads := leads_of_stop hp (Or.inl hend) (by rw [hend]; decide)
      rw [if_pos hend]
      exact iff_of_true ⟨_, _, rfl⟩ hleads
    · rw [if_neg hend]
      by_cases hfits : lineFits (reply.drop p) = true
      · rw [if_neg (by simp [hfits])]
        have hline := scanLine_payload_eq httpCode (reply.drop p)
        rcases hscan : scanLine httpCode (reply.drop p) with ⟨code, payload⟩
        rw [hscan] at hline
        cases payload with
        | true =>
          have hleads := leads_of_stop hp (Or.inr hline.symm) hfits
          exact iff_of_true ⟨_, _, rfl⟩ hleads
        | false =>
          have hstop : ¬Stop reply p := by
            rintro (hnil | htrue)
            · exact hend hnil
            · rw [htrue] at hline
              cases hline
          rw [leads_next hp hstop]
          cases hk : strchr (reply.drop p) '\n' with
          | none =>
            apply iff_of_false
            · rintro ⟨c, q, h⟩
              cases h
            · rintro ⟨-, k, h, -⟩
              cases h
          | some k =>
            have hnext := ih (p := p + k + 1) (by omega) (lineStart_next hk) code
            simp only
            rw [hnext]
            constructor
            · intro h
              exact ⟨hfits, k, rfl, h⟩
            · rintro ⟨-, k', h, hleads⟩
              obtain rfl := Option.some.inj h
              exact hleads
      · rw [if_pos (by simpa using hfits)]
        apply iff_of_false
        · rintro ⟨c, q, h⟩
          cases h
        · intro h
          exact hfits (h.fits hp)

/-- The status of a line is that so far, or read from it. -/
theorem statusOf_line {httpCode : Int} (h : StatusOf reply httpCode) (hp : LineStart reply p) :
    StatusOf reply (scanLine httpCode (reply.drop p)).1 := by
  unfold scanLine
  split
  · exact h
  · dsimp only
    cases hv : sscanf longBits statusFormat (reply.drop p) with
    | nil =>
      dsimp only
      split
      · exact h
      · split <;> exact h
    | cons v vs =>
      cases v with
      | int code =>
        have hcode : StatusOf reply code := Or.inr ⟨p, vs, hp, hv⟩
        dsimp only
        split
        · exact hcode
        · split <;> exact hcode
      | text t =>
        dsimp only
        split
        · exact h
        · split <;> exact h

/-- **Where the loop ends, its cursor is in the reply** and its status out of it. -/
theorem loop_ended {n : Nat} {httpCode c : Int} (hp : LineStart reply p)
    (hcode : StatusOf reply httpCode) (h : loop reply n p httpCode = .ended c q) :
    q ≤ reply.length ∧ StatusOf reply c := by
  induction n generalizing p httpCode with
  | zero => cases h
  | succ n ih =>
    rw [loop] at h
    split at h
    · obtain ⟨rfl, rfl⟩ := Result.ended.inj h
      exact ⟨hp.1, hcode⟩
    · split at h
      · cases h
      · have hline := statusOf_line hcode hp
        split at h
        · rename_i code hscan
          obtain ⟨rfl, rfl⟩ := Result.ended.inj h
          rw [hscan] at hline
          exact ⟨hp.1, hline⟩
        · rename_i code hscan
          rw [hscan] at hline
          split at h
          · cases h
          · rename_i k hk
            exact ih (lineStart_next hk) hline h

/-- The loop always comes to an end, this way or another: each round starts a line
further on. -/
theorem loop_ne_running (n : Nat) (hn : reply.length < n + p) (hp : LineStart reply p)
    (httpCode : Int) : loop reply n p httpCode ≠ .running := by
  induction n generalizing p httpCode with
  | zero => exact absurd hp.1 (by omega)
  | succ n ih =>
    rw [loop]
    split
    · exact Result.noConfusion
    · split
      · exact Result.noConfusion
      · split
        · exact Result.noConfusion
        · split
          · exact Result.noConfusion
          · rename_i k hk
            exact ih (by omega) (lineStart_next hk) _

/-- Where the loop ends, `scan` has that status and that payload. -/
theorem scanLoop_of_loop {n : Nat} {httpCode c : Int} (h : loop reply n p httpCode = .ended c q) :
    scanLoop true httpCode (reply.drop p) =
      some ⟨c, if reply.drop q = [] then none else some (reply.drop q)⟩ := by
  induction n generalizing p httpCode with
  | zero => cases h
  | succ n ih =>
    rw [loop] at h
    split at h
    · rename_i hend
      obtain ⟨rfl, rfl⟩ := Result.ended.inj h
      rw [hend]
      rfl
    · rename_i hend
      split at h
      · cases h
      · split at h
        · rename_i code hscan
          obtain ⟨rfl, rfl⟩ := Result.ended.inj h
          rw [if_neg hend]
          obtain ⟨d, resp, hresp⟩ := List.exists_cons_of_ne_nil hend
          rw [hresp] at hscan ⊢
          rw [scanLoop, hscan]
        · rename_i code hscan
          split at h
          · cases h
          · rename_i k hk
            obtain ⟨l, hl, hsplit⟩ := drop_of_strchr hk
            rw [← ih h]
            rw [hsplit] at hscan ⊢
            cases l with
            | nil =>
              rw [List.nil_append] at hscan ⊢
              rw [scanLoop, hscan]
              rfl
            | cons d l => exact scanLoop_line (List.cons_ne_nil d l) hl _ hscan

end

/-- **The header scan is safe exactly for the replies whose line starts lead up to the
payload or to the end, over lines whose fields fit.** -/
theorem headerLoop_safe_iff (reply : List Char) : Safe reply ↔ Leads reply 0 := by
  have hstart : LineStart reply 0 := ⟨Nat.zero_le _, Or.inl rfl⟩
  rw [← loop_ended_iff (reply.length + 1) (by omega) hstart 0]
  constructor
  · rintro ⟨c, q, h, -, -⟩
    exact ⟨c, q, h⟩
  · rintro ⟨c, q, h⟩
    obtain ⟨hcursor, hstatus⟩ := loop_ended hstart (Or.inl rfl) h
    exact ⟨c, q, h, hcursor, hstatus⟩

/-- A segment that ends within the status line. -/
theorem not_safe_status : headerLoop "HTTP/1.1 200 OK".toList = .astray ∧
    ¬Safe "HTTP/1.1 200 OK".toList := by
  have hloop : headerLoop "HTTP/1.1 200 OK".toList = .astray := by decide +kernel
  refine ⟨hloop, ?_⟩
  rintro ⟨c, q, h, -, -⟩
  rw [hloop] at h
  cases h

end VzLogger.LwipIF.Cursor
