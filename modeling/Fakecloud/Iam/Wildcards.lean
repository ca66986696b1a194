import Fakecloud.Iam.Evaluator

/-!
# The language of policy wildcards

The three glob matchers of the evaluator against the language of a pattern, in which `*` stands for
any run of characters, `?` for any one character and every other character for itself.

The matcher of `policy_variables.rs` decides that language.  The two older ones compare the current
characters before they look for a `*`, so a `*` of the pattern that meets a `*` of the value is used
up as a literal.  They accept only values of the language, but not all of them
(`globMatch_iff_language`): a value is lost when none of its parses lets every such `*` stand for
exactly the one it meets (`StarsTakeStars`).
-/

namespace Fakecloud.Iam

open Text Fakecloud.Core Condition PolicyVariables Glob

def Language (pattern : Str) : Set Str := {value | Glob.Matches charTokens pattern value}

/-- If the value has a parse at all, it has one in which every `*` of the pattern that comes to
stand before a `*` of the value stands for exactly that character. -/
def StarsTakeStars (pattern value : Str) : Prop :=
  Glob.Matches charTokens pattern value → Glob.Prefers charTokens pattern value

theorem globMatch_iff_prefers (pattern value : Str) :
    globMatch pattern value = true ↔ Prefers charTokens pattern value := twoPointer_iff_prefers pattern value

theorem globMatch_correct_iff (pattern value : Str) :
    (globMatch pattern value = true ↔ value ∈ Language pattern) ↔ StarsTakeStars pattern value := by
  rw [globMatch_iff_prefers]
  exact ⟨fun h => h.mpr, fun h => ⟨fun hp => hp.matches, h⟩⟩

theorem policyText_language (pattern value : Str) : Matches (pieceTokens false) (policyText pattern) value ↔
      value ∈ Language pattern := by
  refine matches_map_iff (fun c => ?_) (fun c x hr => ?_)
  · unfold ofChar
    split_ifs <;> simp_all [pieceTokens, charTokens]
  · unfold ofChar
    split_ifs <;> simp_all [pieceTokens, charTokens]

/-- A pattern with a `*` at its end, on a value that spells out what stands before it. -/
theorem prefers_trailing_star (stem key : Str) :
    Prefers charTokens (stem ++ ['*']) (stem ++ key) ↔ key.head? = some '*' → key = ['*'] := by
  have ht : List.Forall₂ (fun t x => charTokens.takes t x = true) stem stem := by
    simp [charTokens]
  rw [prefers_append_of_forall₂ ht]
  cases key with
  | nil => simp [prefers_empty, charTokens]
  | cons x key =>
    by_cases hx : x = '*'
    · rw [prefers_cons_of_takes (by simp [charTokens, hx])]
      simp [hx]
    · rw [prefers_cons_of_not_takes (by simpa [charTokens] using Ne.symm hx)]
      simp only [charTokens]
      simp [hx]

/-- **When the policy matcher decides the language.**  For every pattern and value the two plain
matchers agree with the language, and with the matcher for expanded policy texts, exactly under
`StarsTakeStars`.  A pattern that ends in `*`, such as the one for all objects of a bucket, misses
the keys that begin with `*` and go on. -/
theorem globMatch_iff_language (F : Formats) (ctx : ConditionContext) (pattern value : Str) :
    ((globMatch pattern value = true ↔ value ∈ Language pattern) ↔
        StarsTakeStars pattern value) ∧
      ((Condition.glob pattern value = true ↔ value ∈ Language pattern) ↔
        StarsTakeStars pattern value) ∧
      (PolicyVariables.hasVariables pattern = false →
        ((∃ pieces, PolicyVariables.expand F ctx pattern = some pieces ∧
            globMatch pattern value = PolicyVariables.glob pieces value false) ↔
          StarsTakeStars pattern value)) ∧
      ∀ stem key, globMatch (stem ++ ['*']) (stem ++ key) = true ↔
        (key.head? = some '*' → key = ['*']) := by
  refine ⟨globMatch_correct_iff pattern value, globMatch_correct_iff pattern value, ?_, ?_⟩
  · intro hv
    rw [expand_of_not_hasVariables F ctx hv, ← globMatch_correct_iff, ← policyText_language, ← glob_iff]
    simp only [Option.some.injEq, exists_eq_left']
    exact Bool.eq_iff_iff
  · intro stem key
    rw [globMatch_iff_prefers, prefers_trailing_star]

/-- The pattern for every object of a bucket does not match an object whose key begins with `*`. -/
theorem globMatch_misses_starred_key :
    let pattern : Str := "arn:aws:s3:::bucket/*"
    let value : Str := "arn:aws:s3:::bucket/*a"
    globMatch pattern value = false ∧ Condition.glob pattern value = false ∧
      value ∈ Language pattern ∧ hasVariables pattern = false ∧
      glob (policyText pattern) value false = true := by
  have hp : glob (policyText "arn:aws:s3:::bucket/*")
      "arn:aws:s3:::bucket/*a" false = true := by decide +kernel
  refine ⟨by decide +kernel, by decide +kernel, ?_, by decide +kernel, hp⟩
  rw [← policyText_language, ← glob_iff]
  exact hp

end Fakecloud.Iam
