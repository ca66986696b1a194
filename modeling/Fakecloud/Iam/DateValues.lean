import Fakecloud.Iam.Condition
import Fakecloud.Lib.Digits
import Mathlib.Tactic.NormNum

/-!
# Dates in conditions

`policy_validation.rs` accepts a value of a date operator, `condition.rs` reads it.  The evaluator reads
RFC 3339 timestamps and counts of seconds, the validator also accepts dates without a time, times without
a zone, and numbers that are no moment.
-/

namespace Fakecloud.Iam.DateValues

open Text Fakecloud.Core Condition List Option

/-! ## Validation -/

/-- `str::parse::<i32>`. -/
def parseI32 (s : Str) : Option ℤ :=
  match s with
  | '-' :: ds => ((parseDigits ds).filter (· ≤ 2 ^ 31)).map fun n => -(n : ℤ)
  | _ => (parseUnsigned (2 ^ 31) s).map fun n => (n : ℤ)

def parseU32 : Str → Option ℕ := parseUnsigned (2 ^ 32)

def isValidDatePart (s : Str) : Bool :=
  match s.splitOn '-' with
  | [year, month, day] =>
    (parseI32 year).isSome && (parseU32 month).any (fun m => 1 ≤ m && m ≤ 12) &&
      (parseU32 day).any fun d => 1 ≤ d && d ≤ 31
  | _ => false

def splitZone (s : Str) : Str × Option Str :=
  if s.getLast? = some 'Z' ∨ s.getLast? = some 'z' then (s.dropLast, some ['Z'])
  else match rsplitOnce '+' s with
    | some (time, zone) => if time ≠ [] then (time, some ('+' :: zone)) else (s, none)
    | none => match rsplitOnce '-' s with
      | some (time, zone) => if time ≠ [] ∧ ':' ∈ time then (time, some ('-' :: zone)) else (s, none)
      | none => (s, none)

/-- Seconds, with at most nine digits of a fraction; what stands behind a second point is not read. -/
def isValidSeconds (s : Str) : Bool :=
  match s.splitOn '.' with
  | [] => false
  | [whole] => (parseU32 whole).isSome
  | whole :: fraction :: _ => (parseU32 whole).isSome && !fraction.isEmpty && fraction.length ≤ 9 &&
      (parseUnsigned (2 ^ 64) fraction).isSome

def isValidTime (s : Str) : Bool :=
  match s.splitOn ':' with
  | [hour] => (parseU32 hour).isSome
  | [hour, minute] => (parseU32 hour).isSome && (parseU32 minute).isSome
  | [hour, minute, second] => (parseU32 hour).isSome && (parseU32 minute).isSome && isValidSeconds second
  | _ => false

def isValidOffset (s : Str) : Bool :=
  if ':' ∈ s then
    match s.splitOn ':' with
    | [hours, minutes] => (parseI32 hours).any (· ≤ 23) && (parseI32 minutes).any (· ≤ 59)
    | _ => false
  else s.length = 2 && (parseI32 s).any (· ≤ 23)

def isValidTimePart (s : Str) : Bool :=
  s.isEmpty || (isValidTime (splitZone s).1 &&
    (splitZone s).2.all fun zone => zone = ['Z'] || isValidOffset zone.tail)

def isValidDateValue (s : Str) : Bool :=
  if s.isEmpty then false
  else if (parseI64 s).isSome then true
  else
    let date := s.takeWhile fun c => c ≠ 'T' && c ≠ 't'
    match s.dropWhile fun c => c ≠ 'T' && c ≠ 't' with
    | _ :: time =>
      -- short numbers before the `T` pass too
      if !date.isEmpty && date.all Char.isDigit then isValidTimePart time
      else isValidDatePart date && isValidTimePart time
    | [] => 4 ≤ s.length && isValidDatePart s

/-! ## Timestamps of RFC 3339 -/

structure Field (width : ℕ) (s : Str) (n : ℕ) : Prop where
  width : s.length = width
  value : parseDigits s = some n

def daysInMonth (year month : ℕ) : ℕ :=
  if month = 2 then if year % 4 = 0 ∧ (year % 100 ≠ 0 ∨ year % 400 = 0) then 29 else 28
  else if month = 4 ∨ month = 6 ∨ month = 9 ∨ month = 11 then 30 else 31

inductive FullDate : Str → Prop
  | mk {y m d : Str} {year month day : ℕ} (hyear : Field 4 y year) (hmonth : Field 2 m month)
      (hday : Field 2 d day) (hmonths : 1 ≤ month ∧ month ≤ 12)
      (hdays : 1 ≤ day ∧ day ≤ daysInMonth year month) : FullDate (List.intercalate ['-'] [y, m, d])

inductive Seconds : ℕ → Str → Prop
  | whole {s : Str} {second : ℕ} (hs : Field 2 s second) (hsecond : second ≤ 60) : Seconds 0 s
  | fraction {s f : Str} {second n : ℕ} {digits : ℕ} (hs : Field 2 s second) (hsecond : second ≤ 60)
      (hf : Field digits f n) : Seconds digits (List.intercalate ['.'] [s, f])

inductive PartialTime : ℕ → Str → Prop
  | mk {h m s : Str} {hour minute digits : ℕ} (hh : Field 2 h hour) (hm : Field 2 m minute)
      (hs : Seconds digits s) (hhour : hour ≤ 23) (hminute : minute ≤ 59) :
      PartialTime digits (List.intercalate [':'] [h, m, s])

inductive Offset : Str → Prop
  | utc {c : Char} (hc : c = 'Z' ∨ c = 'z') : Offset [c]
  | numeric {sign : Char} {h m : Str} {hour minute : ℕ} (hsign : sign = '+' ∨ sign = '-')
      (hh : Field 2 h hour) (hm : Field 2 m minute) (hhour : hour ≤ 23) (hminute : minute ≤ 59) :
      Offset (sign :: List.intercalate [':'] [h, m])

/-- A timestamp with a number of digits in the fraction of its second. -/
inductive Rfc3339 : ℕ → Str → Prop
  | mk {date time zone : Str} {t : Char} {digits : ℕ} (hdate : FullDate date) (ht : t = 'T' ∨ t = 't')
      (htime : PartialTime digits time) (hzone : Offset zone) : Rfc3339 digits (date ++ t :: (time ++ zone))

/-- The counts of seconds that are a moment. -/
def InRange (seconds : ℤ) : Prop := -8334601228800 ≤ seconds ∧ seconds ≤ 8210266876799

/-- Valid timestamps are read exactly when they are ones of RFC 3339, seconds when they are in range. -/
structure ReadsDates (F : Formats) : Prop where
  rfc3339 : ∀ s, isValidDateValue s = true → ((F.parseRfc3339 s).isSome ↔ ∃ digits, Rfc3339 digits s)
  timestamp : ∀ n, (F.fromTimestamp n).isSome ↔ InRange n

/-! ## What the evaluator reads is valid -/

section Digits

variable {s : Str} {n width : ℕ}

theorem parseI32_of_parseDigits (h : parseDigits s = some n) (hlt : n < 2 ^ 31) :
    parseI32 s = some (n : ℤ) := by
  unfold parseI32
  split
  · exact absurd (isDigit_of_parseDigits h mem_cons_self) (by decide)
  · rw [parseUnsigned_of_parseDigits h hlt]
    rfl

theorem Field.lt (h : Field width s n) : n < 10 ^ width := h.width ▸ parseDigits_lt h.value

theorem Field.not_mem (h : Field width s n) {c : Char} (hc : c.isDigit = false) : c ∉ s := by
  intro hm
  rw [isDigit_of_parseDigits h.value hm] at hc
  cases hc

theorem Field.parseU32 (h : Field 2 s n) : parseU32 s = some n :=
  parseUnsigned_of_parseDigits h.value (h.lt.trans (by norm_num))

theorem Field.parseI32 (h : Field width s n) (hw : width ≤ 4) : parseI32 s = some (n : ℤ) :=
  parseI32_of_parseDigits h.value
    (h.lt.trans_le ((Nat.pow_le_pow_right (by norm_num) hw).trans (by norm_num)))

end Digits

section Join

variable {a b d s : Str} {c : Char}

theorem splitOn_two (ha : c ∉ a) (hb : c ∉ b) : (intercalate [c] [a, b]).splitOn c = [a, b] :=
  splitOn_intercalate c (by simp [ha, hb]) (by simp)

theorem splitOn_three (ha : c ∉ a) (hb : c ∉ b) (hd : c ∉ d) :
    (intercalate [c] [a, b, d]).splitOn c = [a, b, d] :=
  splitOn_intercalate c (by simp [ha, hb, hd]) (by simp)

theorem rsplitOnce_append (h : c ∉ b) : rsplitOnce c (a ++ c :: b) = some (a, b) := by
  have hr : (a ++ c :: b).reverse = b.reverse ++ c :: a.reverse := by simp
  rw [rsplitOnce, hr, splitOnce_append (by simpa using h)]
  simp

theorem rsplitOnce_eq_none (h : c ∉ s) : rsplitOnce c s = none := by
  rw [rsplitOnce, splitOnce_eq_none.mpr (by simpa using h), map_none]

end Join

theorem daysInMonth_le (year month : ℕ) : daysInMonth year month ≤ 31 := by
  unfold daysInMonth
  split_ifs <;> norm_num

variable {s : Str} {c : Char}

theorem FullDate.isValid (h : FullDate s) : isValidDatePart s = true := by
  obtain @⟨y, m, d, year, month, day, hy, hm, hdy, hmn, hd⟩ := h
  have hl := daysInMonth_le year month
  rw [isValidDatePart, splitOn_three (hy.not_mem rfl) (hm.not_mem rfl) (hdy.not_mem rfl)]
  simp only [hy.parseI32 le_rfl, hm.parseU32, hdy.parseU32, isSome_some, Option.any_some,
    Bool.and_eq_true, decide_eq_true_eq, true_and]
  omega

variable {digits : ℕ} {time zone : Str} {F : Formats}

/-- The validator reads up to nine digits of a fraction, a timestamp may have more. -/
theorem Seconds.isValid (h : Seconds digits s) : isValidSeconds s = decide (digits ≤ 9) := by
  cases h with
  | whole hs hsc =>
    have hsp : s.splitOn '.' = [s] := by
      have hp : '.' ∉ s := hs.not_mem rfl
      simpa using splitOn_intercalate '.' (by simpa using hp) (cons_ne_nil s [])
    rw [isValidSeconds, hsp]
    simp only [hs.parseU32, isSome_some, Nat.zero_le, decide_true]
  | @fraction s f second n _ hs hsc hf =>
    have hne := (parseDigits_eq_some.mp hf.value).1
    rw [isValidSeconds, splitOn_two (hs.not_mem rfl) (hf.not_mem rfl)]
    simp only [hs.parseU32, isSome_some, Bool.true_and, isEmpty_eq_false_iff.mpr hne, hf.width,
      Bool.not_false]
    by_cases hd : digits ≤ 9
    · have hlt : n < 2 ^ 64 := hf.lt.trans_le ((Nat.pow_le_pow_right (by norm_num) hd).trans (by norm_num))
      rw [parseUnsigned_of_parseDigits hf.value hlt, decide_eq_true hd]
      rfl
    · rw [decide_eq_false hd, Bool.false_and]

theorem Seconds.not_mem (h : Seconds digits s) (hc : c.isDigit = false)
    (hp : c ≠ '.') : c ∉ s := by
  cases h with
  | whole hs _ => exact hs.not_mem hc
  | fraction hs _ hf => exact not_mem_join hp (by simp [hs.not_mem hc, hf.not_mem hc])

theorem PartialTime.isValid (h : PartialTime digits s) : isValidTime s = decide (digits ≤ 9) := by
  obtain @⟨h, m, s, hour, minute, _, hh, hm, hs, -, -⟩ := h
  rw [isValidTime, splitOn_three (hh.not_mem rfl) (hm.not_mem rfl) (hs.not_mem rfl (by decide))]
  simp only [hh.parseU32, hm.parseU32, isSome_some, Bool.true_and, hs.isValid]

theorem PartialTime.not_mem (h : PartialTime digits s)
    (hc : c.isDigit = false) (hp : c ≠ '.') (hcl : c ≠ ':') : c ∉ s := by
  obtain ⟨hh, hm, hs, -, -⟩ := h
  exact not_mem_join hcl (by simp [hh.not_mem hc, hm.not_mem hc, hs.not_mem hc hp])

theorem PartialTime.colon_mem (h : PartialTime digits s) : ':' ∈ s := by
  obtain ⟨hh, hm, hs, -, -⟩ := h
  simp [intercalate]

/-- The zone of a timestamp is cut off where it begins, and it is valid. -/
theorem Offset.splitZone_append (ht : PartialTime digits time)
    (hz : Offset zone) : ∃ z, splitZone (time ++ zone) = (time, some z) ∧
      (z = ['Z'] || isValidOffset z.tail) = true := by
  have hne : time ≠ [] := ne_nil_of_mem ht.colon_mem
  cases hz with
  | utc hc =>
    refine ⟨['Z'], ?_, by simp⟩
    rw [splitZone, if_pos (by simpa using hc), dropLast_concat]
  | @numeric sign h m hour minute hs hh hm hhr hmn =>
    have hl : ∀ c, c.isDigit = false → (time ++ sign :: intercalate [':'] [h, m]).getLast? ≠ some c := by
      intro c hc heq
      have htx : time ++ sign :: intercalate [':'] [h, m] = (time ++ sign :: (h ++ [':'])) ++ m := by
        simp [intercalate]
      rw [htx, getLast?_append_of_ne_nil _ (parseDigits_eq_some.mp hm.value).1] at heq
      exact hm.not_mem hc (mem_of_getLast? heq)
    have hv : isValidOffset (intercalate [':'] [h, m]) = true := by
      rw [isValidOffset, splitOn_two (hh.not_mem rfl) (hm.not_mem rfl)]
      simp [hh.parseI32 (by norm_num), hm.parseI32 (by norm_num)]
      omega
    refine ⟨sign :: intercalate [':'] [h, m], ?_, by simpa using hv⟩
    rw [splitZone, if_neg (not_or.mpr ⟨hl 'Z' rfl, hl 'z' rfl⟩)]
    rcases hs with rfl | rfl
    · rw [rsplitOnce_append (not_mem_join (by decide) (by simp [hh.not_mem, hm.not_mem]))]
      simp [hne]
    · rw [rsplitOnce_eq_none, rsplitOnce_append (not_mem_join (by decide) (by simp [hh.not_mem, hm.not_mem]))]
      · simp [hne, ht.colon_mem]
      · simp only [mem_append, mem_cons, not_or]
        exact ⟨ht.not_mem rfl (by decide) (by decide), by decide,
          not_mem_join (by decide) (by simp [hh.not_mem, hm.not_mem])⟩

theorem isValidTimePart_append (ht : PartialTime digits time)
    (hz : Offset zone) : isValidTimePart (time ++ zone) = decide (digits ≤ 9) := by
  obtain ⟨z, hs, hv⟩ := hz.splitZone_append ht
  have hne : (time ++ zone).isEmpty = false := by
    simpa using fun h : time = [] => absurd ht.colon_mem (by simp [h])
  rw [isValidTimePart, hne, Bool.false_or, hs, ht.isValid, Option.all_some, hv, Bool.and_true]

theorem FullDate.ne_of_mem (h : FullDate s) (hc : c ∈ s) : c ≠ 'T' ∧ c ≠ 't' := by
  obtain ⟨hy, hm, hd, -, -⟩ := h
  constructor
  all_goals
    rintro rfl
    exact not_mem_join (by decide) (by simp [hy.not_mem, hm.not_mem, hd.not_mem]) hc

theorem FullDate.dash_mem (h : FullDate s) : '-' ∈ s := by
  obtain ⟨hy, hm, hd, -, -⟩ := h
  simp [intercalate]

theorem parseUnsigned_eq_none {bound : ℕ} (hc : c ∈ s) (hd : c.isDigit = false)
    (hsg : c ≠ '+') : parseUnsigned bound s = none := by
  have hb : c ∈ (s.dropPrefix? ['+']).getD s := by
    rcases s with _ | ⟨x, s⟩
    · cases hc
    · by_cases hx : x = '+'
      · simpa [dropPrefix?, hx, hsg] using hc
      · simpa [dropPrefix?, hx] using hc
  have hnn : parseDigits ((s.dropPrefix? ['+']).getD s) = none := by
    by_contra hs
    obtain ⟨n, hn⟩ := ne_none_iff_exists'.mp hs
    rw [isDigit_of_parseDigits hn hb] at hd
    cases hd
  rw [parseUnsigned, hnn, Option.filter_none]

theorem parseI64_eq_none (hc : c ∈ s) (hd : c.isDigit = false)
    (hs : c ≠ '+' ∧ c ≠ '-') : parseI64 s = none := by
  unfold parseI64
  split
  · next ds =>
    have hnn : parseDigits ds = none := by
      by_contra hsm
      obtain ⟨n, hn⟩ := ne_none_iff_exists'.mp hsm
      rw [isDigit_of_parseDigits hn ((mem_cons.mp hc).resolve_left hs.2)] at hd
      cases hd
    rw [hnn]
    rfl
  · rw [parseUnsigned_eq_none hc hd hs.1]
    rfl

theorem isValidDateValue_of_number {n : ℤ} (h : parseI64 s = some n) : isValidDateValue s = true := by
  have hne : s.isEmpty = false := by
    cases s with
    | nil => cases h
    | cons => rfl
  simp [isValidDateValue, hne, h]

/-- A timestamp is valid unless its fraction has more than nine digits. -/
theorem Rfc3339.isValid (h : Rfc3339 digits s) : isValidDateValue s = decide (digits ≤ 9) := by
  obtain @⟨date, time, zone, t, _, hd, ht, htm, hz⟩ := h
  have hk : ∀ c ∈ date, (decide (c ≠ 'T') && decide (c ≠ 't')) = true := by
    intro c hc
    simpa using hd.ne_of_mem hc
  have hs : (decide (t ≠ 'T') && decide (t ≠ 't')) = false := by
    rcases ht with rfl | rfl <;> rfl
  have hn : parseI64 (date ++ t :: (time ++ zone)) = none := by
    refine parseI64_eq_none (c := t) (by simp) ?_ ?_
    · rcases ht with rfl | rfl <;> rfl
    · rcases ht with rfl | rfl <;> decide
  have hsh : date.all Char.isDigit = false := by
    rw [List.all_eq_false]
    exact ⟨'-', hd.dash_mem, by decide⟩
  have htk : (date ++ t :: (time ++ zone)).takeWhile (fun c => c ≠ 'T' && c ≠ 't') = date := by
    rw [takeWhile_append_of_pos hk, takeWhile_cons_of_neg (by simpa using hs), append_nil]
  have hdr : (date ++ t :: (time ++ zone)).dropWhile (fun c => c ≠ 'T' && c ≠ 't')
      = t :: (time ++ zone) := by
    rw [dropWhile_append_of_pos hk, dropWhile_cons_of_neg (by simpa using hs)]
  rw [isValidDateValue, if_neg (by simp), hn, if_neg (by simp), htk, hdr]
  simp only [hsh, Bool.and_false, Bool.false_eq_true, if_false, hd.isValid, Bool.true_and,
    isValidTimePart_append htm hz]

/-! ## What is valid and read -/

theorem parseDate_isSome (hF : ReadsDates F) (hv : isValidDateValue s = true) :
    (parseDate F s).isSome ↔ (∃ digits, Rfc3339 digits s) ∨ ∃ n, parseI64 s = some n ∧ InRange n := by
  rw [parseDate, Option.orElse_eq_orElse, Option.orElse_eq_or, Option.isSome_or, Bool.or_eq_true,
    hF.rfc3339 s hv]
  cases h : parseI64 s with
  | none => simp
  | some n => simp [hF.timestamp]

theorem FullDate.length (h : FullDate s) : s.length = 10 := by
  obtain ⟨hy, hm, hd, -, -⟩ := h
  simp [hy.width, hm.width, hd.width]

theorem Seconds.length (h : Seconds digits s) : 2 ≤ s.length := by
  cases h with
  | whole hs _ => exact hs.width.ge
  | fraction hs _ _ => simp [hs.width]

theorem PartialTime.length (h : PartialTime digits s) : 8 ≤ s.length := by
  obtain ⟨hh, hm, hs, -, -⟩ := h
  have hsc := hs.length
  simp [hh.width, hm.width]
  omega

theorem Offset.ne_nil (h : Offset s) : s ≠ [] := by
  cases h <;> simp

theorem Rfc3339.length (h : Rfc3339 digits s) : 20 ≤ s.length := by
  obtain ⟨hd, -, ht, hz⟩ := h
  have hd := hd.length
  have ht := ht.length
  have hz : 1 ≤ _ := length_pos_of_ne_nil hz.ne_nil
  simp only [length_append, length_cons]
  omega

theorem parseDate_eq_none (hF : ReadsDates F) (hv : isValidDateValue s = true) (hl : s.length < 20)
    (hnm : ∀ n, parseI64 s = some n → ¬ InRange n) : parseDate F s = none := by
  rw [← not_isSome_iff_eq_none, parseDate_isSome hF hv]
  rintro (⟨digits, h⟩ | ⟨n, hn, hr⟩)
  · exact absurd h.length (by omega)
  · exact hnm n hn hr

/-- The values that are moments: timestamps with at most nine digits of a fraction, and the seconds
from the first to the last moment. -/
def IsMoment (s : Str) : Prop :=
  (∃ digits ≤ 9, Rfc3339 digits s) ∨ ∃ n, parseI64 s = some n ∧ InRange n

/-- Every moment is valid, and a valid value is read exactly when it is a moment. -/
theorem valid_dates_read_iff (F : Formats) (hF : ReadsDates F) (s : Str) :
    (IsMoment s → isValidDateValue s = true) ∧
      (isValidDateValue s = true → ((parseDate F s).isSome ↔ IsMoment s)) := by
  constructor
  · rintro (⟨digits, hd, h⟩ | ⟨n, hn, -⟩)
    · rw [h.isValid, decide_eq_true hd]
    · exact isValidDateValue_of_number hn
  · intro hv
    rw [parseDate_isSome hF hv]
    refine or_congr_left ⟨?_, ?_⟩
    · rintro ⟨digits, h⟩
      rw [h.isValid, decide_eq_true_iff] at hv
      exact ⟨digits, hv, h⟩
    · rintro ⟨digits, -, h⟩
      exact ⟨digits, h⟩

open Classical in
/-- A reader of every timestamp and every moment. -/
noncomputable def calendar : Formats :=
  { Formats.silent with
    parseRfc3339 := fun s => if ∃ digits, Rfc3339 digits s then some 0 else none
    fromTimestamp := fun n => if InRange n then some n else none }

theorem readsDates_calendar : ReadsDates calendar where
  rfc3339 s _ := by simp [calendar]
  timestamp n := by simp [calendar]

theorem valid_dates_read_epoch :
    ReadsDates calendar ∧ isValidDateValue "0" = true ∧ ((parseDate calendar "0").isSome ↔ IsMoment "0") :=
  ⟨readsDates_calendar, by decide +kernel,
    (valid_dates_read_iff calendar readsDates_calendar "0").2 (by decide +kernel)⟩

/-- A date without a time, and a count of seconds beyond the last moment, are valid and not read. -/
theorem valid_dates_unread :
    isValidDateValue "2017-07-01" = true ∧ parseDate calendar "2017-07-01" = none ∧
      isValidDateValue "9223372036854775807" = true ∧
        parseDate calendar "9223372036854775807" = none := by
  have hdate : isValidDateValue "2017-07-01" = true := by decide +kernel
  have hcount : isValidDateValue "9223372036854775807" = true := by decide +kernel
  refine ⟨hdate, parseDate_eq_none readsDates_calendar hdate (by decide) ?_, hcount,
    parseDate_eq_none readsDates_calendar hcount (by decide) ?_⟩
  · rintro n ⟨⟩
  · have hn : parseI64 "9223372036854775807" = some 9223372036854775807 := by decide +kernel
    rw [hn]
    rintro n ⟨⟩ ⟨-, hl⟩
    omega

end Fakecloud.Iam.DateValues
