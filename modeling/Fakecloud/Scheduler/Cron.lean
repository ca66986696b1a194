import Mathlib.Order.Interval.Set.Basic
import Fakecloud.Eventbridge.Schedule

/-!
# The two cron engines

EventBridge Scheduler has a parser and a matcher of its own.  It reads the fields word for word as the
rules of EventBridge do (`parseCronField`), but it keeps five of the six: the year is checked and then
dropped.
-/

namespace Fakecloud.Eventbridge

open Text

/-- What a matcher reads of a UTC instant, before or after 1970. -/
structure Reading where
  minute : ℕ
  hour : ℕ
  day : ℕ
  month : ℕ
  weekday : ℕ
  /-- `year() as u32` -/
  year : ℕ

def DateTime.reading (t : DateTime) : Reading :=
  ⟨t.minute, t.hour, t.day, t.month, t.weekday, t.year % 2 ^ 32⟩

def CronExpr.matchesReading (cron : CronExpr) (now : Reading) : Bool :=
  matchesField cron.minute now.minute && matchesField cron.hour now.hour &&
    matchesField cron.dayOfMonth now.day && matchesField cron.month now.month &&
    matchesField cron.dayOfWeek now.weekday && matchesField cron.year now.year

/-- From 1970 on, an instant is matched by what is read of it. -/
theorem cronMatchesAt_eq (cron : CronExpr) (now : DateTime) :
    cronMatchesAt cron now = cron.matchesReading now.reading := rfl

/-! ## What a field denotes -/

def CronTerm.values : CronTerm → Set ℕ
  | .single v => {v}
  | .range a b => Set.Icc a b
  | .step a b k => {x | x ∈ Set.Icc a b ∧ k ∣ x - a}

def CronField.values : CronField → Set ℕ
  | .any => Set.univ
  | .terms ts => {x | ∃ t ∈ ts, x ∈ t.values}

theorem CronTerm.mem_values {t : CronTerm} {n : ℕ} : n ∈ t.values ↔ termMatches t n := by
  cases t with
  | single v => simpa [values, termMatches] using eq_comm
  | range a b => simp [values, termMatches]
  | step a b k => simp [values, termMatches, Nat.dvd_iff_mod_eq_zero]

theorem CronField.mem_values {f : CronField} {n : ℕ} : n ∈ f.values ↔ matchesField f n := by
  cases f with
  | any => simp [values, matchesField]
  | terms ts => simp [values, matchesField, CronTerm.mem_values]

/-- Every reading but the year belongs to its field. -/
def CronExpr.DenotesTime (cron : CronExpr) (now : Reading) : Prop :=
  now.minute ∈ cron.minute.values ∧ now.hour ∈ cron.hour.values ∧ now.day ∈ cron.dayOfMonth.values ∧
    now.month ∈ cron.month.values ∧ now.weekday ∈ cron.dayOfWeek.values

end Fakecloud.Eventbridge

namespace Fakecloud.Scheduler

open Text Eventbridge

structure CronExpr where
  minute : CronField
  hour : CronField
  dayOfMonth : CronField
  month : CronField
  dayOfWeek : CronField
deriving DecidableEq

def parseCron (inner : Str) : Option CronExpr :=
  match splitWhitespace inner with
  | [minute, hour, dom, month, dow, year] => do
    let minute ← parseCronField minute ⟨0, 59, []⟩ false
    let hour ← parseCronField hour ⟨0, 23, []⟩ false
    let dayOfMonth ← parseCronField dom ⟨1, 31, []⟩ false
    let month ← parseCronField month ⟨1, 12, monthNames⟩ false
    let dayOfWeek ← parseCronField dow ⟨0, 6, dowNames⟩ true
    -- a year that is no year rejects the expression, but it is not kept
    let _ ← parseCronField year ⟨1970, 2199, []⟩ false
    return ⟨minute, hour, dayOfMonth, month, dayOfWeek⟩
  | _ => none

def matchesCron (c : CronExpr) (now : Reading) : Bool :=
  matchesField c.minute now.minute && matchesField c.hour now.hour && matchesField c.dayOfMonth now.day &&
    matchesField c.month now.month && matchesField c.dayOfWeek now.weekday

/-- The parsers accept the same texts, with the same fields up to the year. -/
theorem parseCron_cases (inner : Str) : Eventbridge.parseCron inner = none ∧ parseCron inner = none ∨
    ∃ rule, Eventbridge.parseCron inner = some (.cron rule) ∧
      parseCron inner = some ⟨rule.minute, rule.hour, rule.dayOfMonth, rule.month, rule.dayOfWeek⟩ := by
  unfold parseCron Eventbridge.parseCron
  generalize splitWhitespace inner = parts
  split
  · next minute hour dom month dow year =>
    simp only [Option.bind_eq_bind]
    rcases parseCronField minute ⟨0, 59, []⟩ false with _ | minute <;> try simp
    rcases parseCronField hour ⟨0, 23, []⟩ false with _ | hour <;> try simp
    rcases parseCronField dom ⟨1, 31, []⟩ false with _ | dom <;> try simp
    rcases parseCronField month ⟨1, 12, monthNames⟩ false with _ | month <;> try simp
    rcases parseCronField dow ⟨0, 6, dowNames⟩ true with _ | dow <;> try simp
    rcases parseCronField year ⟨1970, 2199, []⟩ false with _ | year <;> simp
  · simp

/-- **The two cron engines.**  The same texts are accepted, and a rule matches an instant when each
reading belongs to the set of its field.  The Scheduler gives the same answer exactly where the year is
in its set or another reading is outside its own. -/
theorem cron_engines (inner : Str) :
    (Eventbridge.parseCron inner = none ↔ parseCron inner = none) ∧
    ∀ rule c, Eventbridge.parseCron inner = some (.cron rule) → parseCron inner = some c →
      ∀ now : Reading,
        (rule.matchesReading now ↔ rule.DenotesTime now ∧ now.year ∈ rule.year.values) ∧
        (matchesCron c now = rule.matchesReading now ↔
          (rule.DenotesTime now → now.year ∈ rule.year.values)) := by
  obtain ⟨h, h'⟩ | ⟨rule, h, h'⟩ := parseCron_cases inner
  · simp [h, h']
  · refine ⟨by simp [h, h'], fun rule₁ c h₁ h₂ now => ?_⟩
    cases h.symm.trans h₁
    cases h'.symm.trans h₂
    have ht : rule.DenotesTime now ↔
        matchesCron ⟨rule.minute, rule.hour, rule.dayOfMonth, rule.month, rule.dayOfWeek⟩ now := by
      simp only [Eventbridge.CronExpr.DenotesTime, CronField.mem_values, matchesCron,
        Bool.and_eq_true, and_assoc]
    have hm : rule.matchesReading now ↔ rule.DenotesTime now ∧ now.year ∈ rule.year.values := by
      rw [ht, CronField.mem_values]
      exact Bool.and_eq_true_iff
    refine ⟨hm, ?_⟩
    rw [Bool.eq_iff_iff]
    tauto

namespace Example

/-- At midnight of a new year's day, which is on this day of the week. -/
def newYear (dayOfWeek year : ℕ) : Reading := ⟨0, 0, 1, 1, dayOfWeek, year⟩

def rule : Eventbridge.CronExpr :=
  ⟨.terms [.single 0], .terms [.single 0], .terms [.single 1], .terms [.single 1], .any,
    .terms [.single 2030]⟩

def schedule : CronExpr := ⟨rule.minute, rule.hour, rule.dayOfMonth, rule.month, rule.dayOfWeek⟩

/-- The first of January 2030 comes in 2026 too. -/
theorem year_is_ignored :
    Eventbridge.parseCron "0 0 1 1 ? 2030" = some (.cron rule) ∧ parseCron "0 0 1 1 ? 2030" = some schedule ∧
      matchesCron schedule (newYear 4 2026) = true ∧ rule.matchesReading (newYear 4 2026) = false := by
  decide +kernel

theorem cron_engines_in_2030 :
    matchesCron schedule (newYear 2 2030) = rule.matchesReading (newYear 2 2030) :=
  ((cron_engines "0 0 1 1 ? 2030").2 _ _ (by decide +kernel) (by decide +kernel) _).2.mpr
    fun _ => ⟨_, List.mem_singleton_self _, rfl⟩

end Example

end Fakecloud.Scheduler
