import Fakecloud.Iam.Condition

/-!
# Negated condition operators

The string, ARN and address operators come in pairs.  Where a key has at most one value, an operator and
its negation are complements: without a value the negated one is true, on the plain path it excludes the
values that the positive one offers, and on the path with policy variables a value that has none counts for
neither.
-/

namespace Fakecloud.Iam.Condition

open Text Fakecloud.Core PolicyVariables List

def ConditionOperator.negation : ConditionOperator → Option ConditionOperator
  | .stringEquals => some .stringNotEquals
  | .stringEqualsIgnoreCase => some .stringNotEqualsIgnoreCase
  | .stringLike => some .stringNotLike
  | .arnEquals => some .arnNotEquals
  | .arnLike => some .arnNotLike
  | .ipAddress => some .notIpAddress
  | _ => none

/-- An entry without a qualifier and without `IfExists`. -/
def plainEntry (op : ConditionOperator) (key : Str) (values : List Str) (policyVariables : Bool) :
    ParsedCondition :=
  ⟨⟨op, false, .single⟩, key, values, policyVariables⟩

variable {F : Formats} {ctx : ConditionContext} {op neg : ConditionOperator}

section

variable (h : op.negation = some neg)
include h

theorem of_negation : op.isNegated = false ∧ neg.isNegated = true ∧
    op ≠ .null ∧ neg ≠ .null ∧ neg.supportsPolicyVariables = op.supportsPolicyVariables := by
  cases op <;> cases h <;> exact ⟨rfl, rfl, nofun, nofun, rfl⟩

theorem matchValues_negation (values : List Str) (cv : Str) :
    matchValues F neg values cv = !matchValues F op values cv := by
  cases op <;> cases h <;> simp only [matchValues, not_any_eq_all_not, bne]

/-- A value whose variable has no value counts for neither operator. -/
theorem matchExpanded_negation (hvr : op.supportsPolicyVariables = true)
    (values : List (Option (List Piece))) (cv : Str) :
    matchExpanded neg values cv = !matchExpanded op values cv := by
  have hv (pred : List Piece → Bool) (v : Option (List Piece)) : (v.all fun p => !pred p) = !v.any pred := by
    cases v <;> rfl
  cases op <;> cases h <;> cases hvr <;> simp only [matchExpanded, not_any_eq_all_not, hv]

/-- The entries of a pair differ on every context value, so they differ on the request. -/
theorem evaluateEntry_negation {key : Str}
    (hon : ((ctx.lookup F key).getD []).length ≤ 1) (values : List Str) (policyVariables : Bool) :
    evaluateEntry F ctx (plainEntry neg key values policyVariables) =
      !evaluateEntry F ctx (plainEntry op key values policyVariables) := by
  obtain ⟨hop, hng, ho, hn, hsv⟩ := of_negation h
  simp only [evaluateEntry, plainEntry, hop, hng, ho, hn, if_false, hsv]
  rcases hl : ctx.lookup F key with _ | _ | ⟨cv, _ | ⟨_, _⟩⟩
  · rfl
  · rfl
  · by_cases hp : (policyVariables && op.supportsPolicyVariables && values.any hasVariables) = true
    · have hv : op.supportsPolicyVariables = true := by
        simp only [Bool.and_eq_true] at hp
        exact hp.1.2
      simp only [hp, if_true, qualified, any_cons, any_nil, Bool.or_false, matchExpanded_negation h hv]
    · simp only [hp, Bool.false_eq_true, if_false, qualified, any_cons, any_nil, Bool.or_false,
        matchValues_negation h]
  · rw [hl] at hon
    simp at hon

end

/-- **Negated operators are exact complements.**  Where the key has at most one value, the negated operator
is true exactly when the positive one is false; an `Allow` under the one and a `Deny` under the other never
both miss the request. -/
theorem negated_operator_complements (F : Formats) (ctx : ConditionContext) (op neg : ConditionOperator)
    (h : op.negation = some neg) (key : Str) (hone : ((ctx.lookup F key).getD []).length ≤ 1)
    (values : List Str) (policyVariables : Bool) :
    let positive := plainEntry op key values policyVariables
    let negated := plainEntry neg key values policyVariables
    (evaluateEntry F ctx negated = true ↔ evaluateEntry F ctx positive = false) ∧
      ((⟨[positive]⟩ : CompiledCondition).matchesForEffect F ctx false = true ∨
        (⟨[negated]⟩ : CompiledCondition).matchesForEffect F ctx true = true) ∧
      ((⟨[negated]⟩ : CompiledCondition).matchesForEffect F ctx false = true ∨
        (⟨[positive]⟩ : CompiledCondition).matchesForEffect F ctx true = true) := by
  intro positive negated
  have hc : evaluateEntry F ctx negated = !evaluateEntry F ctx positive :=
    evaluateEntry_negation h hone values policyVariables
  refine ⟨by simp [hc], ?_, ?_⟩
  all_goals
    simp only [CompiledCondition.matchesForEffect, all_cons, show positive.key = key from rfl,
      show negated.key = key from rfl]
    -- a `Deny` under a reserved key applies
    split_ifs
    · exact .inr rfl
    · rw [hc]
      cases evaluateEntry F ctx positive <;> simp

/-- A variable without a value, next to a plain value, and a key that the request carries once. -/
theorem negated_operator_complements_variable :
    let ctx : ConditionContext := { awsUsername := some "alice".toList }
    let values := ["home/$\x7baws:PrincipalTag/team\x7d".toList, "bob".toList]
    evaluateEntry .silent ctx (plainEntry .stringNotLike "aws:username" values true) = true ∧
      evaluateEntry .silent ctx (plainEntry .stringLike "aws:username" values true) = false := by
  have hf : evaluateEntry .silent { awsUsername := some "alice".toList }
      (plainEntry .stringLike "aws:username" ["home/$\x7baws:PrincipalTag/team\x7d".toList,
        "bob".toList] true) =
        false := by
    decide +kernel
  exact ⟨(negated_operator_complements .silent { awsUsername := some "alice".toList } .stringLike
    .stringNotLike rfl "aws:username" (by decide +kernel) _ true).1.mpr hf, hf⟩

end Fakecloud.Iam.Condition
