import Fakecloud.Lib.Text

/-!
# EventBridge: schedule expressions

* `parseSchedule` — `rate(...)` and `cron(...)`, with their rejections;
* `cronMatchesAt` — whether a cron expression matches a moment.

A moment is a number of nanoseconds since the Unix epoch, in UTC.  What an expression says of a moment
depends on its minute only (`cronMatchesAt_congr`).
-/

namespace Fakecloud.Eventbridge

open Text

/-! ## The calendar -/

/-- A moment: nanoseconds since the Unix epoch. -/
abbrev DateTime := ℕ

namespace DateTime

def minutes (t : DateTime) : ℕ := t / (60 * 10 ^ 9)

def minute (t : DateTime) : ℕ := minutes t % 60

def hour (t : DateTime) : ℕ := minutes t / 60 % 24

def days (t : DateTime) : ℕ := minutes t / 1440

/-- `weekday().num_days_from_sunday()`; the epoch was a Thursday. -/
def weekday (t : DateTime) : ℕ := (days t + 4) % 7

/-- Year, month and day of a day since the epoch.  Years are counted from March, in eras of 400. -/
def civil (days : ℕ) : ℕ × ℕ × ℕ :=
  let z := days + 719468
  let era := z / 146097
  let doe := z % 146097
  let yoe := (doe - doe / 1460 + doe / 36524 - doe / 146096) / 365
  let doy := doe - (365 * yoe + yoe / 4 - yoe / 100)
  let mp := (5 * doy + 2) / 153
  let day := doy - (153 * mp + 2) / 5 + 1
  let month := if mp < 10 then mp + 3 else mp - 9
  (yoe + era * 400 + if month ≤ 2 then 1 else 0, month, day)

def year (t : DateTime) : ℕ := (civil (days t)).1

def month (t : DateTime) : ℕ := (civil (days t)).2.1

def day (t : DateTime) : ℕ := (civil (days t)).2.2

def timeOfDay (t : DateTime) : ℕ × ℕ := (hour t, minute t)

end DateTime

example : DateTime.civil 0 = (1970, 1, 1) ∧ DateTime.civil 11016 = (2000, 2, 29) ∧
    DateTime.civil 20773 = (2026, 11, 16) ∧ DateTime.weekday (20773 * 86400 * 10 ^ 9) = 1 := by
  decide

/-! ## Expressions -/

inductive CronTerm where
  | single (v : ℕ)
  | range (a b : ℕ)
  | step (start stop step : ℕ)
deriving DecidableEq

inductive CronField where
  /-- `*` or `?`. -/
  | any
  | terms (ts : List CronTerm)
deriving DecidableEq

structure CronExpr where
  minute : CronField
  hour : CronField
  dayOfMonth : CronField
  month : CronField
  dayOfWeek : CronField
  year : CronField
deriving DecidableEq

inductive Schedule where
  /-- Every so many seconds. -/
  | rate (secs : ℕ)
  | cron (expr : CronExpr)
deriving DecidableEq

/-- The bounds of a field and the names of its values. -/
structure FieldSpec where
  min : ℕ
  max : ℕ
  names : List (Str × ℕ)

def monthNames : List (Str × ℕ) :=
  [("JAN", 1), ("FEB", 2), ("MAR", 3), ("APR", 4), ("MAY", 5), ("JUN", 6), ("JUL", 7), ("AUG", 8),
    ("SEP", 9), ("OCT", 10), ("NOV", 11), ("DEC", 12)]

def dowNames : List (Str × ℕ) :=
  [("SUN", 0), ("MON", 1), ("TUE", 2), ("WED", 3), ("THU", 4), ("FRI", 5), ("SAT", 6)]

/-! ## Parsing -/

def parseU32 : Str → Option ℕ := parseUnsigned (2 ^ 32)

def resolveToken (tok : Str) (spec : FieldSpec) (isDow : Bool) : Option ℕ :=
  let tok := trim tok
  match parseU32 tok with
  | some n =>
    if isDow then
      -- days are numbered from 1 on the wire, and 0 is taken too
      if n = 0 then some 0 else if n ≤ 7 then some (n - 1) else none
    else some n
  | none =>
    (spec.names.find? fun name => name.1.isPrefixOf (tok.map Char.toUpper)).map Prod.snd

def FieldSpec.inBounds (spec : FieldSpec) (v : ℕ) : Bool := spec.min ≤ v && v ≤ spec.max

/-- The two ends of a range that is in bounds. -/
def checkedRange (spec : FieldSpec) (ends : ℕ × ℕ) : Option (ℕ × ℕ) :=
  if !spec.inBounds ends.1 || !spec.inBounds ends.2 || ends.2 < ends.1 then none else some ends

def resolveRange (spec : FieldSpec) (isDow : Bool) (ab : Str × Str) : Option (ℕ × ℕ) := do
  let a ← resolveToken ab.1 spec isDow
  let b ← resolveToken ab.2 spec isDow
  return (a, b)

/-- The ends that a step runs between. -/
def stepRange (base : Str) (spec : FieldSpec) (isDow : Bool) : Option (ℕ × ℕ) :=
  if base = "*" then some (spec.min, spec.max)
  else
    match splitOnce '-' base with
    | some ab => resolveRange spec isDow ab
    | none => (resolveToken base spec isDow).map fun a => (a, spec.max)

def parseCronTerm (part : Str) (spec : FieldSpec) (isDow : Bool) : Option CronTerm :=
  match splitOnce '/' part with
  | some (base, stepS) => do
    let step ← parseU32 (trim stepS)
    if step = 0 then none
    let ends ← stepRange base spec isDow
    let (a, b) ← checkedRange spec ends
    return .step a b step
  | none =>
    match splitOnce '-' part with
    | some ab => do
      let ends ← resolveRange spec isDow ab
      let (a, b) ← checkedRange spec ends
      return .range a b
    | none => do
      let v ← resolveToken part spec isDow
      if !spec.inBounds v then none
      return .single v

def parseCronField (s : Str) (spec : FieldSpec) (isDow : Bool) : Option CronField :=
  let s := trim s
  if s = "*" ∨ s = "?" then some .any
  else do
    let terms ← (s.splitOn ',').mapM fun part => parseCronTerm (trim part) spec isDow
    if terms.isEmpty then none
    return .terms terms

def parseCron (inner : Str) : Option Schedule :=
  match splitWhitespace inner with
  | [minute, hour, dom, month, dow, year] => do
    let minute ← parseCronField minute ⟨0, 59, []⟩ false
    let hour ← parseCronField hour ⟨0, 23, []⟩ false
    let dayOfMonth ← parseCronField dom ⟨1, 31, []⟩ false
    let month ← parseCronField month ⟨1, 12, monthNames⟩ false
    let dayOfWeek ← parseCronField dow ⟨0, 6, dowNames⟩ true
    let year ← parseCronField year ⟨1970, 2199, []⟩ false
    return .cron ⟨minute, hour, dayOfMonth, month, dayOfWeek, year⟩
  | _ => none

/-- The seconds of a unit, and whether it is the singular. -/
def rateUnits : List (Str × ℕ × Bool) :=
  [("second", 1, true), ("seconds", 1, false), ("minute", 60, true), ("minutes", 60, false),
    ("hour", 3600, true), ("hours", 3600, false), ("day", 86400, true), ("days", 86400, false)]

def parseRate (inner : Str) : Option Schedule :=
  match splitWhitespace inner with
  | [value, unit] => do
    let value ← parseUnsigned (2 ^ 64) value
    if value = 0 then none
    let (secsPer, singular) ← rateUnits.lookup unit
    if singular != (value == 1) then none
    return .rate (min (value * secsPer) (2 ^ 64 - 1))
  | _ => none

/-- What stands between a text and the closing bracket at the end. -/
def bracketed (opening : Str) (expr : Str) : Option Str :=
  (expr.dropPrefix? opening).bind fun s => s.dropSuffix? [')']

def parseSchedule (expr : Str) : Option Schedule :=
  let expr := trim expr
  match bracketed "rate(" expr with
  | some inner => parseRate (trim inner)
  | none => (bracketed "cron(" expr).bind fun inner => parseCron (trim inner)

/-! ## Matching -/

def termMatches : CronTerm → ℕ → Bool
  | .single v, value => v == value
  | .range a b, value => a ≤ value && value ≤ b
  | .step start stop step, value =>
    start ≤ value && value ≤ stop && (value - start) % step == 0

def matchesField : CronField → ℕ → Bool
  | .any, _ => true
  | .terms ts, value => ts.any fun t => termMatches t value

def cronMatchesAt (cron : CronExpr) (now : DateTime) : Bool :=
  matchesField cron.minute now.minute && matchesField cron.hour now.hour &&
    matchesField cron.dayOfMonth now.day && matchesField cron.month now.month &&
    matchesField cron.dayOfWeek now.weekday && matchesField cron.year (now.year % 2 ^ 32)

open DateTime

/-- **An expression is about minutes.** -/
theorem cronMatchesAt_congr (cron : CronExpr) {t t' : DateTime} (h : t.minutes = t'.minutes) :
    cronMatchesAt cron t = cronMatchesAt cron t' := by
  have hd : t.days = t'.days := by rw [days, days, h]
  simp only [cronMatchesAt, minute, hour, day, month, weekday, year, h, hd]

example : (parseSchedule "cron(0/15 9-17 ? JAN,jun MON-FRI *)").map (fun s => match s with
    | .cron c => [c.month, c.dayOfWeek, c.minute]
    | .rate _ => []) =
    some [.terms [.single 1, .single 6], .terms [.range 1 5], .terms [.step 0 59 15]] := by
  decide +kernel

end Fakecloud.Eventbridge
