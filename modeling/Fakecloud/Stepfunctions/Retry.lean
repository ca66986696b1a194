import Fakecloud.Lib.Json
import Mathlib.Tactic

/-!
# Step Functions: the retries of a Task state

`shouldRetry` decides by the first retrier that matches, and is given the number of attempts of the whole
visit.  The law has a count for each retrier.
-/

namespace Fakecloud.Stepfunctions

open Text

/-- Errors that no wildcard matches. -/
def nonWildcardErrors : List Str := ["States.Runtime", "States.DataLimitExceeded"]

def patternMatches (pattern error : Str) (isTaskError : Bool) : Bool :=
  if pattern = "States.ALL" then !nonWildcardErrors.contains error
  else if pattern = "States.TaskFailed" then
    isTaskError && error != "States.Timeout" && !nonWildcardErrors.contains error
  else pattern == error

def retrierMatches (error : Str) (isTaskError : Bool) (retrier : Json) : Bool :=
  match (retrier.field "ErrorEquals").bind Json.asArray with
  | some patterns => patterns.any fun e => patternMatches (e.asStr.getD []) error isTaskError
  | none => false

/-- `MaxAttempts`, with its default. -/
def maxAttempts (retrier : Json) : ℕ :=
  match retrier.field "MaxAttempts" with
  | some (.num n) => (parseUnsigned (2 ^ 64) n).getD 3
  | _ => 3

/-- The delay is computed with floating-point numbers; `MaxAttempts` is cut to a `u32`. -/
def shouldRetry (delayMs : Json → ℕ → ℕ) (retriers : List Json) (error : Str) (attempt : ℕ)
    (isTaskError : Bool) : Option ℕ :=
  match retriers.find? (retrierMatches error isTaskError) with
  | some retrier => if maxAttempts retrier % 2 ^ 32 ≤ attempt then none else some (delayMs retrier attempt)
  | none => none

abbrev TaskError := Str × Str

inductive Outcome
  | success (output : Json)
  /-- of the task, or of `Parameters`, `ResultSelector` or `OutputPath` -/
  | error (ofTask : Bool) (e : TaskError)

/-- The loop of `execute_task_state`: the result, and the retries before it. -/
def taskLoop (delayMs : Json → ℕ → ℕ) (retriers : List Json) (outcome : ℕ → Outcome) :
    ℕ → ℕ → Option (Except TaskError Json × ℕ)
  | 0, _ => none
  | fuel + 1, attempt =>
    match outcome attempt with
    | .success output => some (.ok output, attempt)
    | .error false e => some (.error e, attempt)
    | .error true e =>
      match shouldRetry delayMs retriers e.1 attempt true with
      | some _ => taskLoop delayMs retriers outcome fuel (attempt + 1)
      | none => some (.error e, attempt)

/-! ## A budget for each retrier -/

def Outcome.result : Outcome → Except TaskError Json
  | .success output => .ok output
  | .error _ e => .error e

/-- The retrier that an attempt is charged to. -/
def charged (retriers : List Json) : Outcome → Option ℕ
  | .success _ => none
  | .error _ e => retriers.findIdx? (retrierMatches e.1 true)

/-- How often a retrier was used before an attempt. -/
def used (retriers : List Json) (outcome : ℕ → Outcome) (i k : ℕ) : ℕ :=
  (List.range k).countP fun j => charged retriers (outcome j) = some i

/-- The first retrier that matches what an attempt comes to has a property. -/
def ByRetrier (retriers : List Json) (o : Outcome) (p : ℕ → Json → Prop) : Prop :=
  ∃ i r, charged retriers o = some i ∧ retriers[i]? = some r ∧ p i r

/-- The law: a retrier is used as often as it says. -/
def HasBudget (retriers : List Json) (outcome : ℕ → Outcome) (k : ℕ) : Prop :=
  ByRetrier retriers (outcome k) fun i r => used retriers outcome i k < maxAttempts r

/-- The code: the retriers share the number of the attempt. -/
def Retried (retriers : List Json) (k : ℕ) (o : Outcome) : Prop :=
  (∃ e, o = .error true e) ∧ ByRetrier retriers o fun _ r => k < maxAttempts r % 2 ^ 32

section

variable {retriers : List Json} {outcome : ℕ → Outcome} {e : TaskError} {i k n fuel : ℕ} {r : Json}
  {delayMs : Json → ℕ → ℕ}

theorem shouldRetry_isSome_iff (delayMs : Json → ℕ → ℕ) : (shouldRetry delayMs retriers e.1 k true).isSome ↔
      ByRetrier retriers (.error true e) fun _ r => k < maxAttempts r % 2 ^ 32 := by
  simp only [shouldRetry, ByRetrier, charged, List.find?_eq_bind_findIdx?_getElem?]
  rcases retriers.findIdx? (retrierMatches e.1 true) with _ | i
  · simp
  · rcases hr : retriers[i]? with _ | r
    · simp [hr]
    · simp [hr]

theorem taskLoop_of_retried (h : Retried retriers k (outcome k)) :
    taskLoop delayMs retriers outcome (fuel + 1) k = taskLoop delayMs retriers outcome fuel (k + 1) := by
  obtain ⟨⟨e, ho⟩, h⟩ := h
  rw [ho, ← shouldRetry_isSome_iff delayMs] at h
  obtain ⟨delay, h⟩ := Option.isSome_iff_exists.mp h
  simp only [taskLoop, ho, h]

theorem taskLoop_of_not_retried (h : ¬ Retried retriers k (outcome k)) :
    taskLoop delayMs retriers outcome (fuel + 1) k = some ((outcome k).result, k) := by
  rcases ho : outcome k with output | ⟨_ | _, e⟩
  · simp only [taskLoop, ho, Outcome.result]
  · simp only [taskLoop, ho, Outcome.result]
  · have hs : shouldRetry delayMs retriers e.1 k true = none := by
      rw [← Option.not_isSome_iff_eq_none, shouldRetry_isSome_iff]
      exact fun hb => h ⟨⟨e, ho⟩, ho ▸ hb⟩
    simp only [taskLoop, ho, hs, Outcome.result]

/-- The loop gets to the first attempt that is not retried. -/
theorem taskLoop_eq (hn : ¬ Retried retriers n (outcome n)) (hlt : ∀ k < n, Retried retriers k (outcome k))
    (hk : k ≤ n) (hf : n < k + fuel) :
    taskLoop delayMs retriers outcome fuel k = some ((outcome n).result, n) := by
  induction fuel generalizing k with
  | zero => omega
  | succ fuel ih =>
    obtain rfl | hk := hk.eq_or_lt
    · exact taskLoop_of_not_retried hn
    · rw [taskLoop_of_retried (hlt k hk)]
      exact ih hk (by omega)

theorem used_le (i k : ℕ) : used retriers outcome i k ≤ k := by
  simpa [used] using List.countP_le_length (l := List.range k)

theorem used_succ : used retriers outcome i (k + 1) =
    used retriers outcome i k + if charged retriers (outcome k) = some i then 1 else 0 := by
  simp [used, List.range_succ]

/-- The share of a retrier in the retries. -/
theorem used_le_maxAttempts (hlt : ∀ k < n, Retried retriers k (outcome k)) (hr : retriers[i]? = some r) :
    used retriers outcome i n ≤ maxAttempts r := by
  induction n with
  | zero => simp [used]
  | succ n ih =>
    rw [used_succ]
    split
    · next hc =>
      obtain ⟨-, j, r', hj, hr', hk⟩ := hlt n n.lt_succ_self
      cases hc.symm.trans hj
      cases hr.symm.trans hr'
      exact (Nat.succ_le_succ (used_le i n)).trans (by omega)
    · exact ih fun k hk => hlt k (hk.trans n.lt_succ_self)

end

/-- **The budgets of the retriers.**  A visit ends, after at most as many retries as all budgets allow and
with no retrier beyond its own.  An error is retried as the law says, except where its retrier has budget
and the error is not the task's or the attempts of all retriers together have used the budget up. -/
theorem retry_budgets (delayMs : Json → ℕ → ℕ) (retriers : List Json) (outcome : ℕ → Outcome) :
    ∃ n, (∀ fuel > n, taskLoop delayMs retriers outcome fuel 0 = some ((outcome n).result, n)) ∧
      n ≤ (retriers.map maxAttempts).sum ∧
      (∀ i r, retriers[i]? = some r → used retriers outcome i n ≤ maxAttempts r) ∧
      ∀ k ≤ n, ((k < n ↔ HasBudget retriers outcome k) ↔
        (HasBudget retriers outcome k → Retried retriers k (outcome k))) := by
  classical
  have hmax : ∀ k, Retried retriers k (outcome k) → k < (retriers.map maxAttempts).sum := by
    rintro k ⟨-, i, r, -, hr, hk⟩
    have := List.single_le_sum (by simp) _ (List.mem_map_of_mem (f := maxAttempts) (List.mem_of_getElem? hr))
    omega
  have hex : ∃ n, ¬ Retried retriers n (outcome n) := ⟨_, fun h => (hmax _ h).false⟩
  have hlt : ∀ k < Nat.find hex, Retried retriers k (outcome k) :=
    fun k hk => not_not.mp (Nat.find_min hex hk)
  refine ⟨Nat.find hex, ?_, ?_, fun i r => used_le_maxAttempts hlt, ?_⟩
  · intro fuel hf
    exact taskLoop_eq (Nat.find_spec hex) hlt (Nat.zero_le _) (by omega)
  · by_contra hc
    exact (hmax _ (hlt _ (not_le.mp hc))).false
  · intro k hk
    have hiff : k < Nat.find hex ↔ Retried retriers k (outcome k) := by
      refine ⟨hlt k, fun h => hk.lt_of_ne ?_⟩
      rintro rfl
      exact Nat.find_spec hex h
    have himp : Retried retriers k (outcome k) → HasBudget retriers outcome k := by
      rintro ⟨-, i, r, hc, hr, hk⟩
      exact ⟨i, r, hc, hr, (used_le i k).trans_lt (by omega)⟩
    rw [hiff]
    tauto

namespace Example

def retrier (error : String) : Json :=
  .obj [("ErrorEquals", .arr [.str error.toList]), ("MaxAttempts", .num ['1'])]

/-- The errors `A` and `B`, and a success. -/
def mixed : ℕ → Outcome
  | 0 => .error true ("A", [])
  | 1 => .error true ("B", [])
  | _ => .success .null

/-- The retrier of `B` is not used once. -/
theorem budget_shared : HasBudget [retrier "A", retrier "B"] mixed 1 ∧
    taskLoop (fun _ _ => 0) [retrier "A", retrier "B"] mixed 3 0 = some (.error ("B", []), 1) :=
  ⟨⟨1, retrier "B", by decide +kernel, rfl, by decide +kernel⟩, rfl⟩

end Example

end Fakecloud.Stepfunctions
