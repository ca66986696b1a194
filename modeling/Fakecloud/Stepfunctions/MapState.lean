import Fakecloud.Stepfunctions.Retry

/-!
# Step Functions: the failures that a Map state tolerates

The iterations are spawned in item order and complete in any order; their handles are awaited in item
order.  What decides is a percentage.  `ToleratedFailureCount` is only written into the record of the run.
-/

namespace Fakecloud.Stepfunctions

open Text List

abbrev Iteration := Except TaskError Json

/-- The cells of the handles, after iterations have completed in an order. -/
def complete (outcomes : List Iteration) (order : List ℕ) : ℕ → Option Iteration :=
  order.foldl (fun cells i => Function.update cells i outcomes[i]?) fun _ => none

/-- What `finish_map_run` is called with. -/
structure Finished where
  succeeded : ℕ
  failed : ℕ
  status : Str

structure MapRun where
  toleratedFailureCount : ℤ
  finished : Option Finished

/-- The loop over the handles: the successes so far and the number of failures.  A panic leaves
the run open. -/
def collect (tolerated : ℚ) (total : ℕ) (cells : ℕ → Option Iteration) :
    List ℕ → List (ℕ × Json) → ℕ → Except TaskError (List (ℕ × Json)) × Option Finished
  | [], results, failures => (.ok results, some ⟨results.length, failures, "SUCCEEDED"⟩)
  | i :: handles, results, failures =>
    match cells i with
    | none => (.error ("States.Runtime", "Map iteration panicked"), none)
    | some (.ok output) => collect tolerated total cells handles (results ++ [(i, output)]) failures
    | some (.error e) =>
      if tolerated < (failures + 1 : ℕ) / total * 100 then
        (.error e, some ⟨results.length, failures + 1, "FAILED"⟩)
      else collect tolerated total cells handles results (failures + 1)

/-- `execute_map_state`, from the spawned iterations to the output and the record of the run. -/
def executeMapState (percentage : Option ℚ) (count : Option ℤ) (total : ℕ)
    (cells : ℕ → Option Iteration) : Except TaskError Json × MapRun :=
  let (results, finished) := collect (percentage.getD 0) total cells (List.range total) [] 0
  (results.map fun results => .arr ((results.mergeSort fun a b => a.1 ≤ b.1).map Prod.snd),
    ⟨count.getD 0, finished⟩)

/-- The record says that the run succeeded exactly when there is an output. -/
theorem finished_succeeded_iff (percentage : Option ℚ) (count : Option ℤ) (total : ℕ)
    (cells : ℕ → Option Iteration) :
    (executeMapState percentage count total cells).2.finished.any (·.status = "SUCCEEDED".toList) =
      (executeMapState percentage count total cells).1.isOk := by
  have hc (handles : List ℕ) (results : List (ℕ × Json)) (failed : ℕ) :
      let c := collect (percentage.getD 0) total cells handles results failed
      c.2.any (·.status = "SUCCEEDED".toList) = c.1.isOk := by
    induction handles generalizing results failed with
    | nil => rfl
    | cons i handles ih =>
      unfold collect
      split
      · rfl
      · exact ih ..
      · split_ifs
        · exact (decide_eq_false (by decide) : decide ("FAILED".toList = "SUCCEEDED".toList) = false)
        · exact ih ..
  have h := hc (List.range total) [] 0
  unfold executeMapState
  generalize collect _ _ _ _ _ _ = c at h ⊢
  obtain ⟨_ | results, finished⟩ := c <;> exact h

/-! ## The tolerated number of failures -/

def failures (outcomes : List Iteration) : ℕ := outcomes.countP (·.toOption.isNone)

/-- The law: more failures than the count fail the state, and otherwise the successes are its output. -/
def Tolerates (c : ℤ) (outcomes : List Iteration) (result : Except TaskError Json) : Prop :=
  if c < failures outcomes then ∃ e, result = .error e
  else result = .ok (.arr (outcomes.filterMap Except.toOption))

theorem complete_of_mem {outcomes : List Iteration} {order : List ℕ} {i : ℕ} (h : i ∈ order) :
    complete outcomes order i = outcomes[i]? := by
  induction order using reverseRecOn with
  | nil => cases h
  | append_singleton order a ih =>
    simp only [complete, foldl_append, foldl_cons, foldl_nil] at ih ⊢
    by_cases ha : i = a
    · simp [ha]
    · simp only [Function.update_of_ne ha]
      exact ih (by simpa [ha] using h)

variable {cells : ℕ → Option Iteration}

/-- Without a percentage the loop stops at the first failure. -/
theorem collect_spec {total : ℕ} (ht : 0 < total) (os : List Iteration)
    (k : ℕ) (hc : ∀ j < os.length, cells (k + j) = os[j]?) (results : List (ℕ × Json)) :
    let c := (collect 0 total cells (range' k os.length) results 0).1
    if 0 < failures os then ∃ e, c = .error e
    else c = .ok (results ++ ((os.filterMap Except.toOption).zipIdx k).map Prod.swap) := by
  induction os generalizing k results with
  | nil => simp [failures, collect]
  | cons o os ih =>
    have h0 : cells k = some o := by simpa using hc 0 (by simp)
    have hs :=
      ih (k + 1) (fun j hj => by simpa [Nat.add_right_comm, Nat.add_assoc] using hc (j + 1) (by simpa))
    cases o with
    | error e =>
      have hp : (0 : ℚ) < (0 + 1 : ℕ) / total * 100 := by positivity
      simp only [failures, length_cons, range'_succ, collect, h0, hp]
      simp [Except.toOption]
    | ok v =>
      have := hs (results ++ [(k, v)])
      simpa [failures, range'_succ, collect, h0, Except.toOption] using this

theorem executeMapState_spec (count : Option ℤ) (outcomes : List Iteration)
    (hc : ∀ i < outcomes.length, cells i = outcomes[i]?) :
    let result := (executeMapState none count outcomes.length cells).1
    if 0 < failures outcomes then ∃ e, result = .error e
    else result = .ok (.arr (outcomes.filterMap Except.toOption)) := by
  by_cases ho : outcomes = []
  · simp [ho, executeMapState, collect, failures, Except.map]
  have hs := collect_spec (length_pos_iff.mpr ho) outcomes 0 (by simpa using hc) []
  simp only [executeMapState, range_eq_range'] at hs ⊢
  split at hs
  · obtain ⟨e, hs⟩ := hs
    simp [*, Except.map]
  · have hp : ((outcomes.filterMap Except.toOption).zipIdx.map Prod.swap).Pairwise (·.1 ≤ ·.1) := by
      have := pairwise_le_range' (s := 0) (n := (outcomes.filterMap Except.toOption).length) 1
      rw [← zipIdx_map_snd] at this
      exact pairwise_map.mpr (pairwise_map.mp this)
    have hm : ((outcomes.filterMap Except.toOption).zipIdx.map Prod.swap).map Prod.snd = _ :=
      map_map.trans (zipIdx_map_fst 0 _)
    simp [*, Except.map, mergeSort_of_pairwise]

/-- **The failures that a Map state tolerates.**  Without a percentage, under every order of completion:
the state does as its count says exactly when the count is exceeded by failures or there are none. -/
theorem map_tolerates_iff (c : ℤ) (outcomes : List Iteration) (order : List ℕ)
    (h : ∀ i < outcomes.length, i ∈ order) :
    Tolerates c outcomes
        (executeMapState none (some c) outcomes.length (complete outcomes order)).1 ↔
      (c < failures outcomes ↔ 0 < failures outcomes) := by
  have hs := executeMapState_spec (some c) outcomes (fun i hi => complete_of_mem (h i hi))
  unfold Tolerates
  split at hs
  · obtain ⟨e, hs⟩ := hs
    rw [hs]
    split <;> simp_all
  · rw [hs]
    split <;> simp_all

namespace Example

def one : List Iteration := [.ok .null, .error ("E", "cause")]

/-- One failure of two, where one is tolerated. -/
theorem tolerated_failure_fails : failures one = 1 ∧
    (executeMapState none (some 1) 2 (complete one [1, 0])).1.toOption.isNone := by
  decide +kernel

theorem map_tolerates_iff_two : Tolerates 0 one (executeMapState none (some 0) 2 (complete one [1, 0])).1 :=
  (map_tolerates_iff 0 one [1, 0] (by decide)).mpr (by decide)

end Example

end Fakecloud.Stepfunctions
