import SharWorkflow.Arith.Calendar
import SharWorkflow.Arith.Wrapping
import SharWorkflow.Parser.Parsed
import Mathlib.Data.List.TakeWhile

/-!
# Durations

The durations of `client/parser/duration.go`, and what the parser makes of the timers of a workflow.
A duration is written in the notation of ISO 8601, such as `P1DT12H`. Three functions turn it into a
time, in two different ways.

* `Duration.shift` moves a time by the years, months, weeks and days of the calendar, and then by
  the hours, minutes and seconds. The engine uses it for boundary timers.
* `parseDuration` and `parseStartEvent` store a number of nanoseconds, for intermediate timers and
  for the cycle of a timed start event. It is the one of the hours, minutes and seconds only: years,
  months, weeks and days are left out without an error.

So the stored numbers say the same as `shift` exactly when the duration has no weeks and no days
(`stored_duration_iff`). A time is given in nanoseconds since the epoch, in UTC.
-/

namespace SharWorkflow

open Wrapping List

variable (parseDate : String → Except Err Int64) (text : String)

/-! ### The notation -/

/-- `Duration`. -/
structure Duration where
  Y : Int64 := 0
  M : Int64 := 0
  W : Int64 := 0
  D : Int64 := 0
  TH : Int64 := 0
  TM : Int64 := 0
  TS : Int64 := 0
  deriving DecidableEq, Repr

/-- The digits before `unit` at the beginning of a text, if there are any, and what follows. This is
the part `(\d+unit)?` of the pattern: whether a number belongs to it is decided by what comes after
its last digit. -/
def takeUnit (unit : Char) (text : List Char) : List Char × List Char :=
  match text.dropWhile Char.isDigit with
  | [] => ([], text)
  | c :: rest =>
    if c = unit ∧ text.takeWhile Char.isDigit ≠ [] then (text.takeWhile Char.isDigit, rest)
    else ([], text)

/-- The named submatches of the pattern. -/
structure Submatches where
  year : List Char
  month : List Char
  week : List Char
  day : List Char
  hour : List Char := []
  minute : List Char := []
  second : List Char := []

/-- The match of the pattern
`^P(\d+Y)?(\d+M)?(\d+W)?(\d+D)?(T(\d+H)?(\d+M)?(\d+S)?)?$`. -/
def submatches : List Char → Option Submatches
  | 'P' :: text =>
    let (year, text) := takeUnit 'Y' text
    let (month, text) := takeUnit 'M' text
    let (week, text) := takeUnit 'W' text
    let (day, text) := takeUnit 'D' text
    match text with
    | [] => some { year, month, week, day }
    | 'T' :: text =>
      let (hour, text) := takeUnit 'H' text
      let (minute, text) := takeUnit 'M' text
      let (second, text) := takeUnit 'S' text
      if text = [] then some { year, month, week, day, hour, minute, second } else none
    | _ => none
  | _ => none

/-- The sign of a number, and what follows it. -/
def signed : List Char → Bool × List Char
  | '+' :: digits => (false, digits)
  | '-' :: digits => (true, digits)
  | digits => (false, digits)

/-- The number that a sign and digits stand for. -/
def signedValue (negative : Bool) (digits : List Char) : Int :=
  if negative then -Nat.ofDigitChars 10 digits 0 else Nat.ofDigitChars 10 digits 0

/-- `strconv.Atoi`: an optional sign, and the digits of a number of 64 bits. -/
def atoi (text : List Char) : Option Int64 :=
  let (negative, digits) := signed text
  if digits ≠ [] ∧ digits.all Char.isDigit = true ∧ Fits (signedValue negative digits) then
    some (Int64.ofInt (signedValue negative digits))
  else none

variable {n : Int64}

theorem atoi_eq_some {text : List Char} (h : atoi text = some n) :
    (∀ c ∈ (signed text).2, c.isDigit = true) ∧
      n.toInt = signedValue (signed text).1 (signed text).2 := by
  rw [atoi, Option.ite_none_right_eq_some] at h
  obtain ⟨⟨-, hdigits, hfits⟩, hn⟩ := h
  refine ⟨all_eq_true.1 hdigits, ?_⟩
  rw [← Option.some.inj hn, toInt_ofInt hfits]

theorem signed_of_digits {digits : List Char} (h : ∀ c ∈ digits, c.isDigit = true) :
    signed digits = (false, digits) := by
  unfold signed
  split
  · exact absurd (h '+' (mem_cons_self ..)) (by decide)
  · exact absurd (h '-' (mem_cons_self ..)) (by decide)
  · rfl

variable {c : Char}

theorem isDigit_of_mem_toDigits {n : Nat} (h : c ∈ Nat.toDigits 10 n) :
    c.isDigit = true := Nat.isDigit_of_mem_toDigits (by decide) (by decide) h

/-- The sign and the digits of a number that is written down. -/
theorem signed_toString (n : Int) :
    signed (toString n).toList = (decide (n < 0), Nat.toDigits 10 n.natAbs) := by
  cases n with
  | ofNat n =>
    change signed n.repr.toList = _
    rw [Nat.toList_repr, signed_of_digits fun c hc => isDigit_of_mem_toDigits hc]
    rfl
  | negSucc n =>
    change signed ("-" ++ (n + 1).repr).toList = _
    rw [String.toList_append, Nat.toList_repr, decide_eq_true (Int.negSucc_lt_zero n)]
    rfl

/-- A number that is written down is read back. -/
theorem atoi_toString (n : Int64) : atoi (toString n.toInt).toList = some n := by
  have hdigits : (Nat.toDigits 10 n.toInt.natAbs).all Char.isDigit = true :=
    all_eq_true.2 fun c hc => isDigit_of_mem_toDigits hc
  have hvalue : signedValue (decide (n.toInt < 0)) (Nat.toDigits 10 n.toInt.natAbs) = n.toInt := by
    rw [signedValue, Nat.ofDigitChars_ten_toDigits]
    split
    · rename_i hneg
      have hlt := of_decide_eq_true hneg
      omega
    · rename_i hnonneg
      have hle : ¬ n.toInt < 0 := fun hlt => hnonneg (decide_eq_true hlt)
      omega
  rw [atoi, signed_toString]
  dsimp only
  rw [hvalue, if_pos ⟨Nat.toDigits_ne_nil, hdigits, fits_toInt n⟩, Int64.ofInt_toInt]

/-- A submatch as a number. A part that is not there counts as zero. -/
def component (part : List Char) : Except Err Int64 :=
  if part = [] then .ok 0
  else
    match atoi part with
    | some val => .ok val
    | none => .error (.wrap ("parse '" ++ String.ofList part ++ "' to integer")
        (.text ("strconv.Atoi: parsing \"" ++ String.ofList part ++ "\": value out of range")))

/-- `ParseISO8601`. -/
def parseISO8601 (from_ : String) : Except Err Duration :=
  match submatches from_.toList with
  | none => .error (.wrap "parse duration failed" (.text "parse Duration string"))
  | some m => do
    let Y ← component m.year
    let M ← component m.month
    let W ← component m.week
    let D ← component m.day
    let TH ← component m.hour
    let TM ← component m.minute
    let TS ← component m.second
    return { Y, M, W, D, TH, TM, TS }

/-! ### The length of a duration -/

/-- `timeDuration`, in nanoseconds. -/
def Duration.timeDuration (d : Duration) : Int64 :=
  let dur : Int64 := 0
  let dur := dur + d.TH * 3600000000000
  let dur := dur + d.TM * 60000000000
  dur + d.TS * 1000000000

/-- `Shift`. -/
def Duration.shift (d : Duration) (t : Int) : Int :=
  let t :=
    if d.Y ≠ 0 ∨ d.M ≠ 0 ∨ d.W ≠ 0 ∨ d.D ≠ 0 then
      Calendar.addDate t d.Y.toInt d.M.toInt (d.W * 7 + d.D).toInt
    else t
  t + d.timeDuration.toInt

/-! ### Timers -/

/-- `unicode.IsSpace`. -/
def isSpace (c : Char) : Bool :=
  c ∈ ['\t', '\n', '\x0b', '\x0c', '\r', ' ', '\x85', '\xa0', '\u1680', '\u2028', '\u2029',
    '\u202f', '\u205f', '\u3000'] || (decide ('\u2000' ≤ c) && decide (c ≤ '\u200a'))

/-- `strings.TrimSpace`. -/
def trimSpace (text : List Char) : List Char :=
  ((text.dropWhile isSpace).reverse.dropWhile isSpace).reverse

/-- `parseDuration`. A text that is no duration may be an expression; the character that would show
it is looked for in the second byte, and a text of one byte has none. -/
def parseDuration (ref : String) : Parsed String :=
  let ref := String.ofList (trimSpace ref.toList)
  if ref = "" then .failed (.text "empty Duration found")
  else
    match parseISO8601 ref with
    | .error e =>
      match ref.toUTF8.data[1]? with
      | none => .panics
      | some b => if b = '='.toUInt8 then .done ref else .failed e
    | .ok d => .done (toString d.timeDuration.toInt)

/-- What the parser reads of the timer of an event. -/
structure TimerEventDefinition where
  timeCycle : Option String := none
  timeDate : Option String := none

/-- What the parser reads of a start event: its timer, and the message it waits for. -/
structure StartEventNode where
  id : String
  timerEventDefinition : Option TimerEventDefinition := none
  messageRef : Option String := none

/-- The timer of a cycle, such as `R5/PT10M`. -/
def parseTimeCycle (data : String) : Parsed WorkflowTimerDefinition :=
  let parts := data.toList.splitOn '/'
  if data.toList = [] ∨ parts.length > 2 ∨ data.toList.head? ≠ some 'R' ∨ '/' ∉ data.toList then
    .failed (.wrap "time cycle was malformed" (.text "time cycle was not in the correct format"))
  else
    match atoi (parts.headD []).tail with
    | none =>
      .failed (.wrap "parse time cycle repeat" (.text "time cycle was not in the correct format"))
    | some repeat_ =>
      match parseISO8601 (String.ofList (parts.getD 1 [])) with
      | .error e => .failed (.wrap "parse ISO 8601 failed" e)
      | .ok dur => .done { type := .duration, value := dur.timeDuration, repeat_ }

/-- The timer of a start event. `parseDate` is the library function that reads a date, in
nanoseconds since the epoch. -/
def parseTimerDefinition (node : TimerEventDefinition) : Parsed WorkflowTimerDefinition :=
  match node.timeDate, node.timeCycle with
  | none, none => .failed (.wrap "parse start event"
      (.text "found timerEventDefinition, but it had no time or Duration specified"))
  | some timeDate, _ =>
    match parseDate timeDate with
    | .error e => .failed (.wrap "parse ISO8601 duration" e)
    | .ok tval => .done { type := .fixed, value := tval }
  | none, some timeCycle => parseTimeCycle timeCycle

/-- `addReceiverForMessage`. -/
def addReceiverForMessage (messageReceivers : GoMap MessageReceivers)
    (workflowName messageName : String) (messageReceiver : MessageReceiver) :
    GoMap MessageReceivers :=
  match messageReceivers.lookup messageName with
  | none => messageReceivers.insert messageName
      { associatedWorkflowName := workflowName, messageReceiver := [messageReceiver] }
  | some receivers => messageReceivers.insert messageName
      { receivers with messageReceiver := receivers.messageReceiver ++ [messageReceiver] }

/-- The first half of `parseStartEvent`: an event with a timer is a timed start event. -/
def parseStartTimer (n : StartEventNode) (el : Element) : Parsed Element :=
  match n.timerEventDefinition with
  | none => return el
  | some node => do
    let t ← parseTimerDefinition parseDate node
    return { el with timer := some t, type := .timedStartEvent }

/-- `parseStartEvent`: the element and the receivers of the workflow after it. -/
def parseStartEvent (n : StartEventNode) (el : Element)
    (msgs : GoMap String) (processId : String) (wf : Workflow) :
    Parsed (Element × GoMap MessageReceivers) := do
  let el ← parseStartTimer parseDate n el
  match n.messageRef with
  | none => return (el, wf.messageReceivers)
  | some ref =>
    let messageName := (msgs.lookup ref).getD ""
    return ({ el with msg := messageName, type := .startEvent },
      addReceiverForMessage wf.messageReceivers wf.name messageName
        { id := n.id, processIdToStart := processId })

/-! ### The characters of a duration -/

/-- The characters that a duration is written with. -/
def durationChar (c : Char) : Bool := c.isDigit || c ∈ ['P', 'Y', 'M', 'W', 'D', 'T', 'H', 'S']

theorem mem_of_mem_takeUnit (unit : Char) {text : List Char} (h : c ∈ text) :
    c.isDigit = true ∨ c = unit ∨ c ∈ (takeUnit unit text).2 := by
  rw [takeUnit]
  split
  · exact .inr (.inr h)
  · rename_i c' rest hrest
    split
    · rename_i hunit
      rw [← takeWhile_append_dropWhile (p := Char.isDigit) (l := text), hrest,
        mem_append, mem_cons] at h
      rcases h with h | h | h
      · exact .inl (mem_takeWhile_imp h)
      · exact .inr (.inl (h.trans hunit.1))
      · exact .inr (.inr h)
    · exact .inr (.inr h)

theorem isDigit_of_mem_takeUnit {unit c : Char} {text : List Char}
    (h : c ∈ (takeUnit unit text).1) : c.isDigit = true := by
  rw [takeUnit] at h
  split at h
  · simp at h
  · split at h
    · exact mem_takeWhile_imp h
    · simp at h

/-- The digits of a submatch. -/
structure Submatches.AllDigits (m : Submatches) : Prop where
  week : ∀ c ∈ m.week, c.isDigit = true
  day : ∀ c ∈ m.day, c.isDigit = true
  hour : ∀ c ∈ m.hour, c.isDigit = true
  minute : ∀ c ∈ m.minute, c.isDigit = true
  second : ∀ c ∈ m.second, c.isDigit = true

theorem allDigits_of_submatches {text : List Char} {m : Submatches} (h : submatches text = some m) :
    m.AllDigits := by
  unfold submatches at h
  split at h
  · dsimp only at h
    split at h
    · cases h
      exact ⟨fun c hc => isDigit_of_mem_takeUnit hc, fun c hc => isDigit_of_mem_takeUnit hc,
        nofun, nofun, nofun⟩
    · split at h
      · cases h
        exact ⟨fun c hc => isDigit_of_mem_takeUnit hc, fun c hc => isDigit_of_mem_takeUnit hc,
          fun c hc => isDigit_of_mem_takeUnit hc, fun c hc => isDigit_of_mem_takeUnit hc,
          fun c hc => isDigit_of_mem_takeUnit hc⟩
      · cases h
    · cases h
  · cases h

/-- A character that no duration is written with is still there after a unit. -/
theorem mem_takeUnit_of_not_durationChar {unit c : Char} {text : List Char}
    (hnot : durationChar c = false) (hunit : durationChar unit = true) (h : c ∈ text) :
    c ∈ (takeUnit unit text).2 := by
  rcases mem_of_mem_takeUnit unit h with hdigit | rfl | hrest
  · rw [durationChar, hdigit, Bool.true_or] at hnot
    cases hnot
  · rw [hunit] at hnot
    cases hnot
  · exact hrest

theorem mem_tail_of_not_durationChar {letter c : Char} {text : List Char}
    (hnot : durationChar c = false) (hletter : durationChar letter = true)
    (h : c ∈ letter :: text) : c ∈ text := by
  rcases mem_cons.1 h with rfl | h
  · rw [hletter] at hnot
    cases hnot
  · exact h

/-- A duration is written with its characters only. -/
theorem durationChar_of_submatches {text : List Char} {m : Submatches}
    (h : submatches text = some m) (hc : c ∈ text) : durationChar c = true := by
  -- any other character is there until the end of the match
  by_contra hnot
  rw [Bool.not_eq_true] at hnot
  have hstays {unit : Char} {text : List Char} (hunit : durationChar unit = true) (hc : c ∈ text) :=
    mem_takeUnit_of_not_durationChar hnot hunit hc
  unfold submatches at h
  split at h
  · have hdate := mem_tail_of_not_durationChar hnot (by decide) hc
    have hrest : c ∈ (takeUnit 'D' (takeUnit 'W' (takeUnit 'M' (takeUnit 'Y' _).2).2).2).2 :=
      hstays (by decide) (hstays (by decide) (hstays (by decide) (hstays (by decide) hdate)))
    dsimp only at h
    split at h
    · rename_i hnil
      rw [hnil] at hrest
      simp at hrest
    · rename_i htime
      rw [htime] at hrest
      have htime := mem_tail_of_not_durationChar hnot (by decide) hrest
      have hend : c ∈ (takeUnit 'S' (takeUnit 'M' (takeUnit 'H' _).2).2).2 :=
        hstays (by decide) (hstays (by decide) (hstays (by decide) htime))
      split at h
      · rename_i hnil
        rw [hnil] at hend
        simp at hend
      · cases h
    · cases h
  · cases h

theorem toNat_of_durationChar (h : durationChar c = true) : 48 ≤ c.toNat ∧ c.toNat ≤ 90 := by
  rw [durationChar, Bool.or_eq_true, decide_eq_true_eq] at h
  rcases h with hdigit | hletter
  · have hbounds : 48 ≤ c.toNat ∧ c.toNat ≤ 57 := Char.isDigit_iff_toNat.1 hdigit
    omega
  · have hall : ['P', 'Y', 'M', 'W', 'D', 'T', 'H', 'S'].all
        (fun l => decide (48 ≤ l.toNat ∧ l.toNat ≤ 90)) = true := rfl
    exact of_decide_eq_true (all_eq_true.1 hall c hletter)

theorem isSpace_of_durationChar (h : durationChar c = true) : isSpace c = false := by
  have hbounds := toNat_of_durationChar h
  by_contra hspace
  rw [Bool.not_eq_false, isSpace, Bool.or_eq_true, Bool.and_eq_true, decide_eq_true_eq,
    decide_eq_true_eq] at hspace
  rcases hspace with hmem | ⟨hlow, -⟩
  · have hall : ['\t', '\n', '\x0b', '\x0c', '\r', ' ', '\x85', '\xa0', '\u1680', '\u2028',
        '\u2029', '\u202f', '\u205f', '\u3000'].all
          (fun l => decide (l.toNat ≤ 32 ∨ 133 ≤ l.toNat)) = true := rfl
    have hfar : c.toNat ≤ 32 ∨ 133 ≤ c.toNat :=
      of_decide_eq_true (all_eq_true.1 hall c hmem)
    omega
  · rw [Char.le_def, UInt32.le_iff_toNat_le] at hlow
    have hfar : 8192 ≤ c.toNat := hlow
    omega

/-- A text without white space is not trimmed. -/
theorem trimSpace_of_no_space {text : List Char} (h : ∀ c ∈ text, isSpace c = false) :
    trimSpace text = text := by
  have hdrop : ∀ l : List Char, (∀ c ∈ l, isSpace c = false) → l.dropWhile isSpace = l := by
    intro l hl
    cases l with
    | nil => rfl
    | cons c l => rw [dropWhile_cons_of_neg (by simp [hl c (mem_cons_self ..)])]
  have hreverse : ∀ c ∈ text.reverse, isSpace c = false := fun c hc => h c (mem_reverse.1 hc)
  rw [trimSpace, hdrop text h, hdrop text.reverse hreverse, reverse_reverse]

/-! ### What is stored for a duration -/

section Accepted

variable {text : String} {d : Duration}

variable (h : parseISO8601 text = .ok d)
include h

theorem exists_submatches_of_parse :
    ∃ m, submatches text.toList = some m := by
  rw [parseISO8601] at h
  split at h
  · cases h
  · exact ⟨_, ‹_›⟩

/-- A duration is written with its characters only. -/
theorem durationChar_of_parse (hc : c ∈ text.toList) :
    durationChar c = true := by
  obtain ⟨m, hm⟩ := exists_submatches_of_parse h
  exact durationChar_of_submatches hm hc

/-- An intermediate timer stores the time part. -/
theorem parseDuration_of_parse :
    parseDuration text = .done (toString d.timeDuration.toInt) := by
  have htrim : trimSpace text.toList = text.toList :=
    trimSpace_of_no_space fun c hc => isSpace_of_durationChar (durationChar_of_parse h hc)
  have hne : text ≠ "" := by
    rintro rfl
    cases h
  rw [parseDuration, htrim, String.ofList_toList, if_neg hne, h]

/-- The text of a cycle. -/
def cycleText (repeat_ text : String) : String := "R" ++ repeat_ ++ "/" ++ text

omit h in
/-- A number is written without a slash. -/
theorem slash_not_mem_of_atoi {number : List Char} (h : atoi number = some n) : '/' ∉ number := by
  intro hmem
  have hrest : '/' ∈ (signed number).2 := by
    unfold signed
    split
    · simpa using hmem
    · simpa using hmem
    · exact hmem
  have hslash := (atoi_eq_some h).1 '/' hrest
  revert hslash
  decide

/-- A time cycle stores the time part. -/
theorem parseTimeCycle_of_parse {repeat_ : String}
    (hrepeat : atoi repeat_.toList = some n) : parseTimeCycle (cycleText repeat_ text) =
      .done { type := .duration, value := d.timeDuration, repeat_ := n } := by
  have hslash : '/' ∉ text.toList := by
    intro hmem
    have hchar := durationChar_of_parse h hmem
    revert hchar
    decide
  have hchars : (cycleText repeat_ text).toList =
      ['/'].intercalate ['R' :: repeat_.toList, text.toList] := by
    simp [cycleText, List.intercalate]
  have hparts : (cycleText repeat_ text).toList.splitOn '/' =
      ['R' :: repeat_.toList, text.toList] := by
    rw [hchars]
    refine splitOn_intercalate '/' ?_ (cons_ne_nil _ _)
    intro l hl
    have hnone := slash_not_mem_of_atoi hrepeat
    simp only [mem_cons, not_mem_nil, or_false] at hl
    rcases hl with rfl | rfl
    · simpa using hnone
    · exact hslash
  have hformed : ¬ ((cycleText repeat_ text).toList = [] ∨
      ((cycleText repeat_ text).toList.splitOn '/').length > 2 ∨
      (cycleText repeat_ text).toList.head? ≠ some 'R' ∨
        '/' ∉ (cycleText repeat_ text).toList) := by
    rw [hparts, hchars]
    simp [List.intercalate]
  rw [parseTimeCycle, if_neg hformed, hparts]
  simp [hrepeat, h, String.ofList_toList]

omit h in
/-- A part of a duration is no negative number. -/
theorem component_nonneg {part : List Char} (hdigits : ∀ c ∈ part, c.isDigit = true)
    (h : component part = .ok n) : 0 ≤ n.toInt := by
  rw [component] at h
  split at h
  · cases h
    decide
  · split at h
    · rename_i hvalue
      cases h
      rw [(atoi_eq_some hvalue).2, signed_of_digits hdigits]
      exact Int.natCast_nonneg _
    · cases h

omit h in
theorem bind_eq_ok {α β : Type} {x : Except Err α} {f : α → Except Err β} {b : β} :
    x >>= f = .ok b ↔ ∃ a, x = .ok a ∧ f a = .ok b := by
  cases x with
  | error e => exact iff_of_false nofun fun ⟨_, h, _⟩ => nomatch h
  | ok a => exact ⟨fun h => ⟨a, rfl, h⟩, fun ⟨_, ha, h⟩ => Except.ok.inj ha ▸ h⟩

theorem nonneg_of_parse :
    0 ≤ d.W.toInt ∧ 0 ≤ d.D.toInt ∧ 0 ≤ d.TH.toInt ∧ 0 ≤ d.TM.toInt ∧ 0 ≤ d.TS.toInt := by
  obtain ⟨m, hm⟩ := exists_submatches_of_parse h
  have hdigits := allDigits_of_submatches hm
  rw [parseISO8601, hm] at h
  simp only [bind_eq_ok] at h
  obtain ⟨Y, -, M, -, W, hW, D, hD, TH, hTH, TM, hTM, TS, hTS, heq⟩ := h
  cases heq
  exact ⟨component_nonneg hdigits.week hW, component_nonneg hdigits.day hD,
    component_nonneg hdigits.hour hTH, component_nonneg hdigits.minute hTM,
    component_nonneg hdigits.second hTS⟩

end Accepted

/-- The exact length of a duration without years and months, a week being 7 days and a day 24
hours. -/
def Duration.exactNanos (d : Duration) : Int :=
  (d.W.toInt * 7 + d.D.toInt) * Calendar.dayNanos + d.TH.toInt * 3600000000000 +
    d.TM.toInt * 60000000000 + d.TS.toInt * 1000000000

theorem Duration.shift_eq {d : Duration} (hY : d.Y = 0) (hM : d.M = 0) (t : Int) :
    d.shift t = t + (d.W * 7 + d.D).toInt * Calendar.dayNanos + d.timeDuration.toInt := by
  have hzero : (0 : Int64).toInt = 0 := by decide
  rw [shift, hY, hM, hzero]
  split
  · rw [Calendar.addDate_days]
  · rename_i hnone
    have hdays : d.W = 0 ∧ d.D = 0 := by simpa using hnone
    rw [hdays.1, hdays.2]
    simp

/-! ### Stored numbers and shifted times -/

/-- The number that an intermediate timer stores moves the time as `shift` does. -/
def TimerShifts (d : Duration) (t : Int) : Prop :=
  ∃ (stored : String) (n : Int64), parseDuration text = .done stored ∧
    atoi stored.toList = some n ∧ t + n.toInt = d.shift t

/-- The text of an intermediate timer is turned down. -/
def TimerFails : Prop := ∃ e, parseDuration text = .failed e

/-- A start event with a time cycle, and what it is parsed with. -/
structure CycleStart (text : String) where
  parseDate : String → Except Err Int64
  node : StartEventNode
  el : Element
  msgs : GoMap String
  processId : String
  wf : Workflow
  /-- how often the timer is repeated -/
  repeat_ : String
  isNumber : atoi repeat_.toList ≠ none
  cycle : node.timerEventDefinition = some { timeCycle := some (cycleText repeat_ text) }

/-- The start event is parsed. -/
def CycleStart.parsed {text : String} (start : CycleStart text) :
    Parsed (Element × GoMap MessageReceivers) :=
  parseStartEvent start.parseDate start.node start.el start.msgs start.processId start.wf

/-- The number that a time cycle stores moves the time as `shift` does. -/
def CycleShifts (d : Duration) (t : Int) : Prop :=
  ∀ start : CycleStart text, ∃ el receivers timer, start.parsed = .done (el, receivers) ∧
    el.timer = some timer ∧ t + timer.value.toInt = d.shift t

/-- The text of a time cycle is turned down. -/
def CycleFails : Prop := ∀ start : CycleStart text, ∃ e, start.parsed = .failed e

/-- Both numbers move every time as `shift` does, or a duration that does not fit is turned down. -/
def ShiftsOrFails (d : Duration) : Prop :=
  ∀ t, TimerShifts text d t ∧ CycleShifts text d t ∨
    ¬ Fits d.exactNanos ∧ TimerFails text ∧ CycleFails text

/-- Both numbers move every time as `shift` does if the duration fits, and it is turned down if it
does not. -/
def ShiftsIfFits (d : Duration) : Prop :=
  (Fits d.exactNanos → ∀ t, TimerShifts text d t ∧ CycleShifts text d t) ∧
    (¬ Fits d.exactNanos → TimerFails text ∧ CycleFails text)

section Stored

variable {text : String} {d : Duration}

section

variable (h : parseISO8601 text = .ok d)
include h

theorem CycleStart.parsed_eq (start : CycleStart text) :
    ∃ el receivers timer, start.parsed = .done (el, receivers) ∧ el.timer = some timer ∧
      timer.value = d.timeDuration := by
  obtain ⟨n, hn⟩ := Option.ne_none_iff_exists'.1 start.isNumber
  have htimer : parseStartTimer start.parseDate start.node start.el = .done { start.el with
      timer := some { type := .duration, value := d.timeDuration, repeat_ := n }
      type := .timedStartEvent } := by
    rw [parseStartTimer, start.cycle]
    dsimp only [parseTimerDefinition]
    rw [parseTimeCycle_of_parse h hn]
    rfl
  rw [parsed, parseStartEvent, htimer, Parsed.done_bind]
  split
  · exact ⟨_, _, _, rfl, rfl, rfl⟩
  · exact ⟨_, _, _, rfl, rfl, rfl⟩

/-- An accepted duration is never turned down later. -/
theorem not_timerFails : ¬ TimerFails text := by
  rintro ⟨e, he⟩
  rw [parseDuration_of_parse h] at he
  cases he

theorem timerShifts_iff (hY : d.Y = 0) (hM : d.M = 0) (t : Int) :
    TimerShifts text d t ↔ (d.W * 7 + d.D).toInt = 0 := by
  rw [TimerShifts, parseDuration_of_parse h, d.shift_eq hY hM, Calendar.dayNanos]
  constructor
  · rintro ⟨stored, n, hstored, hn, hshift⟩
    cases hstored
    rw [atoi_toString, Option.some_inj] at hn
    rw [hn] at hshift
    omega
  · intro hzero
    exact ⟨_, _, rfl, atoi_toString _, by omega⟩

theorem cycleShifts_of (hY : d.Y = 0) (hM : d.M = 0) (t : Int)
    (hzero : (d.W * 7 + d.D).toInt = 0) : CycleShifts text d t := by
  intro start
  obtain ⟨el, receivers, timer, hparsed, htimer, hvalue⟩ := start.parsed_eq h
  refine ⟨el, receivers, timer, hparsed, htimer, ?_⟩
  rw [hvalue, d.shift_eq hY hM, hzero]
  omega

end

/-- **When the stored numbers agree with `shift`**, for a duration without years and months. Both of
them move every time as `shift` does exactly when the weeks and days come to nothing in 64 bits; and
if a duration that does not fit is to be turned down, exactly when there are no weeks and no days,
and the duration fits. -/
theorem stored_duration_iff (h : parseISO8601 text = .ok d) (hY : d.Y = 0) (hM : d.M = 0) :
    (ShiftsOrFails text d ↔ (d.W.toInt * 7 + d.D.toInt).bmod (2 ^ 64) = 0) ∧
      (ShiftsIfFits text d ↔ d.W = 0 ∧ d.D = 0 ∧ Fits d.exactNanos) := by
  have hdays : (d.W * 7 + d.D).toInt = (d.W.toInt * 7 + d.D.toInt).bmod (2 ^ 64) := by
    have hseven : (7 : Int64).toInt = 7 := by decide
    rw [Int64.toInt_add, Int64.toInt_mul, hseven, Int.bmod_add_bmod]
  have hboth (t : Int) : TimerShifts text d t ∧ CycleShifts text d t ↔
      (d.W.toInt * 7 + d.D.toInt).bmod (2 ^ 64) = 0 := by
    rw [timerShifts_iff h hY hM, hdays]
    exact and_iff_left_of_imp fun hzero => cycleShifts_of h hY hM t (hdays.trans hzero)
  refine ⟨⟨fun hor => ?_, fun hzero t => .inl ((hboth t).2 hzero)⟩, fun hif => ?_, ?_⟩
  · rcases hor 0 with hshifts | ⟨-, hfails, -⟩
    · exact (hboth 0).1 hshifts
    · exact absurd hfails (not_timerFails h)
  · have hfits : Fits d.exactNanos := by
      by_contra hnot
      exact not_timerFails h (hif.2 hnot).1
    have hzero := (hboth 0).1 (hif.1 hfits 0)
    -- a duration that fits has too few days to come to nothing
    obtain ⟨hW, hD, hTH, hTM, hTS⟩ := nonneg_of_parse h
    have hlt := hfits.2
    rw [Duration.exactNanos, Calendar.dayNanos] at hlt
    have hexact : Fits (d.W.toInt * 7 + d.D.toInt) := ⟨by omega, by omega⟩
    rw [hexact.bmod_eq] at hzero
    have hzeros : d.W.toInt = (0 : Int64).toInt ∧ d.D.toInt = (0 : Int64).toInt := by
      rw [Int64.toInt_zero]
      omega
    exact ⟨Int64.toInt_inj.1 hzeros.1, Int64.toInt_inj.1 hzeros.2, hfits⟩
  · rintro ⟨hW, hD, hfits⟩
    have hzero : (d.W.toInt * 7 + d.D.toInt).bmod (2 ^ 64) = 0 := by
      rw [hW, hD]
      decide
    exact ⟨fun _ t => (hboth t).2 hzero, fun hnot => absurd hfits hnot⟩

end Stored

/-- Ten minutes are stored as they are. -/
theorem stored_duration_minutes :
    parseISO8601 "PT10M" = .ok { TM := 10 } ∧ ShiftsOrFails "PT10M" { TM := 10 } ∧
      ShiftsIfFits "PT10M" { TM := 10 } := by
  have hparse : parseISO8601 "PT10M" = .ok { TM := 10 } := rfl
  have hiff := stored_duration_iff hparse rfl rfl
  exact ⟨hparse, hiff.1.2 (by decide), hiff.2.2 (by decide)⟩

/-- **A day that is stored as nothing.** The duration `P1D` fits, and moves the epoch to the next
day; an intermediate timer and a time cycle store zero nanoseconds for it. -/
theorem day_stored_as_zero :
    parseISO8601 "P1D" = .ok { D := 1 } ∧ Fits (Duration.exactNanos { D := 1 }) ∧
      Duration.shift { D := 1 } 0 = 86400000000000 ∧ parseDuration "P1D" = .done "0" ∧
      parseTimeCycle "R5/P1D" = .done { type := .duration, value := 0, repeat_ := 5 } := by
  have hparse : parseISO8601 "P1D" = .ok { D := 1 } := rfl
  have hnumber : atoi "5".toList = some 5 := rfl
  exact ⟨hparse, by decide, by decide, parseDuration_of_parse hparse,
    parseTimeCycle_of_parse hparse hnumber⟩

end SharWorkflow
