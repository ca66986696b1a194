import Fakecloud.Lib.Glob
import Fakecloud.Core.Auth

/-!
# Policy variables

`policy_variables.rs`: the placeholders of the form dollar-brace-key-brace in resource patterns and
condition values.  A policy text is expanded to pieces, in which only a `*` or `?` that the policy
itself writes is a wildcard; what a placeholder stands for contributes its own characters.
-/

namespace Fakecloud.Iam.PolicyVariables

open Text Fakecloud.Core

/-- One element of a policy string after expansion. -/
inductive Piece
  | literal (c : Char)
  /-- `*` written in the policy -/
  | anyRun
  /-- `?` written in the policy -/
  | anyOne
  deriving DecidableEq

/-- The two characters that open a placeholder. -/
def opening : Str := "$\x7b"

def hasVariables (text : Str) : Bool := containsStr text opening

/-- The piece that a character of the policy text stands for. -/
def ofChar (c : Char) : Piece := if c = '*' then .anyRun else if c = '?' then .anyOne else .literal c

def policyText (text : Str) : List Piece := text.map ofChar

/-- A reference with a quoted default behind a comma. -/
def splitDefault (reference : Str) : Str × Option Str :=
  let quote := Char.ofNat 39
  match splitOnce ',' reference with
  | some (key, default) =>
    match ((trim default).dropPrefix? [quote]).bind (List.dropSuffix? · [quote]) with
    | some quoted => (trim key, some quoted)
    | none => (reference, none)
  | none => (reference, none)

/-- What the text inside a placeholder is replaced by: one of the three escapes, or the single
value of a condition key, or the default. -/
def substitute (F : Formats) (ctx : ConditionContext) (inner : Str) : Option (List Piece) :=
  let reference := trim inner
  if reference == "*" then some [.literal '*']
  else if reference == "?" then some [.literal '?']
  else if reference == "$" then some [.literal '$']
  else
    let (key, default) := splitDefault reference
    let value := match ctx.lookup F key with
      | some [value] => some value
      | _ => default
    value.map (List.map .literal)

theorem length_lt_of_placeholder {text before after inner rest : Str}
    (ho : text.dropInfix? opening = some (before, after))
    (hc : splitOnce '\x7d' after = some (inner, rest)) : rest.length < text.length := by
  obtain ⟨⟨i, rfl, -⟩, -⟩ := List.dropInfix?_eq_some_iff.mp ho
  obtain ⟨rfl, -⟩ := splitOnce_eq_some hc
  simp only [List.length_append, List.length_cons]
  omega

/-- Expand a text; `none` when a placeholder has no value and no default. -/
def expand (F : Formats) (ctx : ConditionContext) (text : Str) : Option (List Piece) :=
  match _hopen : text.dropInfix? opening with
  | none => some (policyText text)
  | some (before, after) =>
    match _hclose : splitOnce '\x7d' after with
    -- unterminated: the rest is plain text
    | none => some (policyText text)
    | some (inner, rest) => do
      let value ← substitute F ctx inner
      let pieces ← expand F ctx rest
      return policyText before ++ value ++ pieces
termination_by text.length
decreasing_by exact length_lt_of_placeholder _hopen _hclose

/-- `to_text`: a wildcard written in the policy is just its character. -/
def toText (pieces : List Piece) : Str :=
  pieces.map fun
    | .literal c => c
    | .anyRun => '*'
    | .anyOne => '?'

/-- How pieces match characters.  A run takes no single character, so the order in which the
matcher asks its two questions does not matter here. -/
def pieceTokens (ignoreCase : Bool) : Glob.Tokens Piece Char where
  takes
    | .anyOne, _ => true
    | .literal c, x => if ignoreCase then c.toLower == x.toLower else c == x
    | .anyRun, _ => false
  isRun
    | .anyRun => true
    | _ => false

/-- Match a value against expanded pieces. -/
def glob (pieces : List Piece) (value : Str) (ignoreCase : Bool) : Bool :=
  Glob.twoPointer (pieceTokens ignoreCase) pieces value

/-- A resource pattern with placeholders: they are expanded only after the fifth colon. -/
def resourcePattern (F : Formats) (ctx : ConditionContext) (pattern : Str) : Option (List Piece) :=
  let (head, tail) := (splitAfter ':' 4 pattern).getD ([], pattern)
  (expand F ctx tail).map (policyText head ++ ·)

/-! ## Pieces decide their language -/

/-- **Expanded patterns are matched exactly.** -/
theorem glob_iff (pieces : List Piece) (value : Str) (ignoreCase : Bool) :
    glob pieces value ignoreCase = true ↔ Glob.Matches (pieceTokens ignoreCase) pieces value := by
  refine Glob.twoPointer_iff_matches fun t _ hr x _ => ?_
  cases t with
  | anyRun => rfl
  | literal c => simp [pieceTokens] at hr
  | anyOne => simp [pieceTokens] at hr

theorem expand_of_not_hasVariables (F : Formats) (ctx : ConditionContext) {text : Str}
    (h : hasVariables text = false) : expand F ctx text = some (policyText text) := by
  have hn : text.dropInfix? opening = none := by
    simpa [hasVariables, containsStr] using h
  unfold expand
  split
  · rfl
  · next ho => simp [hn] at ho

end Fakecloud.Iam.PolicyVariables
