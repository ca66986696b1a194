import Fakecloud.Iam.PolicyVariables

/-!
# Condition blocks

`condition.rs`: the operators of a `Condition` block, and their evaluation against the request
context.  Entries are combined with *and*; an entry whose operator is not recognised is recorded
under a reserved key and fails an `Allow`, but not a `Deny`.
-/

namespace Fakecloud.Iam.Condition

open Text Fakecloud.Core PolicyVariables

inductive ConditionOperator
  | stringEquals | stringNotEquals | stringEqualsIgnoreCase | stringNotEqualsIgnoreCase
  | stringLike | stringNotLike
  | numericEquals | numericNotEquals | numericLessThan | numericLessThanEquals
  | numericGreaterThan | numericGreaterThanEquals
  | dateEquals | dateNotEquals | dateLessThan | dateLessThanEquals
  | dateGreaterThan | dateGreaterThanEquals
  | bool | binaryEquals | ipAddress | notIpAddress
  | arnEquals | arnNotEquals | arnLike | arnNotLike | null
  deriving DecidableEq

/-- Negated operators are true when the key is absent. -/
def ConditionOperator.isNegated : ConditionOperator → Bool
  | .stringNotEquals | .stringNotEqualsIgnoreCase | .stringNotLike | .numericNotEquals
  | .dateNotEquals | .notIpAddress | .arnNotEquals | .arnNotLike => true
  | _ => false

/-- Policy variables are expanded only in string and ARN comparisons. -/
def ConditionOperator.supportsPolicyVariables : ConditionOperator → Bool
  | .stringEquals | .stringNotEquals | .stringEqualsIgnoreCase | .stringNotEqualsIgnoreCase
  | .stringLike | .stringNotLike | .arnEquals | .arnLike | .arnNotEquals | .arnNotLike => true
  | _ => false

inductive Qualifier
  | single | forAnyValue | forAllValues
  deriving DecidableEq

structure ParsedOperatorName where
  op : ConditionOperator
  ifExists : Bool
  qualifier : Qualifier
  deriving DecidableEq

/-- One entry of a condition block: the operator, a key and the values of the policy. -/
structure ParsedCondition where
  operator : ParsedOperatorName
  key : Str
  values : List Str
  policyVariables : Bool
  deriving DecidableEq

structure CompiledCondition where
  entries : List ParsedCondition
  deriving DecidableEq

/-! ## Comparisons -/

/-- Characters of a plain pattern.  A `*` takes the character `*` as well as being a run. -/
def charTokens : Glob.Tokens Char Char where
  takes c x := c == '?' || c == x
  isRun c := c == '*'

def glob (pattern value : Str) : Bool := Glob.twoPointer charTokens pattern value

section

variable (F : Formats)

/-- `parse_date`: an RFC 3339 timestamp or epoch seconds. -/
def parseDate (s : Str) : Option ℤ := F.parseRfc3339 s <|> (parseI64 s).bind F.fromTimestamp

/-- `numeric_cmp` and `date_cmp`: some policy value can be read and compares with the context
value. -/
def cmpAny {β : Type} (parse : Str → Option β) (pred : β → β → Bool) (policyValues : List Str)
    (contextValue : Str) : Bool :=
  (parse contextValue).any fun c => policyValues.any fun pv => (parse pv).any (pred · c)

/-- `numeric_cmp_all` and `date_cmp_all`: every policy value can be read and compares. -/
def cmpAll {β : Type} (parse : Str → Option β) (pred : β → β → Bool) (policyValues : List Str)
    (contextValue : Str) : Bool :=
  (parse contextValue).any fun c => policyValues.all fun pv => (parse pv).any (pred · c)

def boolMatch (policyValues : List Str) (contextValue : Str) : Bool :=
  let cv := eqIgnoreCase contextValue "true"
  policyValues.any fun pv =>
    (eqIgnoreCase pv "true" || eqIgnoreCase pv "false") && eqIgnoreCase pv "true" == cv

/-- Membership in a block of addresses of width `w`: the bits under the mask agree. -/
def maskMatch {w : ℕ} (net addr : BitVec w) (prefixLen : Option ℕ) : Bool :=
  let pl := prefixLen.getD w
  if pl > w then false
  else
    let mask : BitVec w := if pl = 0 then 0 else BitVec.allOnes w <<< (w - pl)
    (net &&& mask) == (addr &&& mask)

def cidrMatch (pattern value : Str) : Bool :=
  match F.parseIp value with
  | none => false
  | some addr =>
    let netAndLen : Option (Str × Option ℕ) := match splitOnce '/' pattern with
      | some (n, p) => (parseUnsigned 256 p).map fun pl => (n, some pl)
      | none => some (pattern, none)
    match netAndLen.bind fun np => (F.parseIp np.1).map fun net => (net, np.2) with
    | some (.v4 n, pl) => match addr with
      | .v4 a => maskMatch n a pl
      | .v6 _ => false
    | some (.v6 n, pl) => match addr with
      | .v6 a => maskMatch n a pl
      | .v4 _ => false
    | none => false

/-- `match_values`: the values of the policy are alternatives for a positive operator, and all
excluded for a negated one. -/
def matchValues (op : ConditionOperator) (values : List Str) (cv : Str) : Bool :=
  let number := F.parseNumber
  let date := parseDate F
  match op with
  | .stringEquals => values.any (· == cv)
  | .stringNotEquals => values.all (· != cv)
  | .stringEqualsIgnoreCase => values.any (eqIgnoreCase · cv)
  | .stringNotEqualsIgnoreCase => values.all fun pv => !eqIgnoreCase pv cv
  | .stringLike => values.any (glob · cv)
  | .stringNotLike => values.all fun pv => !glob pv cv
  | .numericEquals => cmpAny number F.numberEq values cv
  | .numericNotEquals => cmpAll number (fun p c => !F.numberEq p c) values cv
  | .numericLessThan => cmpAny number (fun p c => F.numberLt c p) values cv
  | .numericLessThanEquals => cmpAny number (fun p c => F.numberLe c p) values cv
  | .numericGreaterThan => cmpAny number (fun p c => F.numberLt p c) values cv
  | .numericGreaterThanEquals => cmpAny number (fun p c => F.numberLe p c) values cv
  | .dateEquals => cmpAny date (fun p c => p == c) values cv
  | .dateNotEquals => cmpAll date (fun p c => p != c) values cv
  | .dateLessThan => cmpAny date (fun p c => c < p) values cv
  | .dateLessThanEquals => cmpAny date (fun p c => c ≤ p) values cv
  | .dateGreaterThan => cmpAny date (fun p c => p < c) values cv
  | .dateGreaterThanEquals => cmpAny date (fun p c => p ≤ c) values cv
  | .bool => boolMatch values cv
  | .binaryEquals => values.any (· == cv)
  | .ipAddress => values.any (cidrMatch F · cv)
  | .notIpAddress => values.all fun pv => !cidrMatch F pv cv
  | .arnEquals | .arnLike => values.any (glob · cv)
  | .arnNotEquals | .arnNotLike => values.all fun pv => !glob pv cv
  | .null => false

/-- `match_expanded`: a value whose variable has no value matches no positive operator and every
inverted one. -/
def matchExpanded (op : ConditionOperator) (values : List (Option (List Piece))) (cv : Str) : Bool :=
  let positive := fun pred : List Piece → Bool => values.any fun v => v.any pred
  let inverted := fun pred : List Piece → Bool => values.all fun v => v.all fun p => !pred p
  match op with
  | .stringEquals => positive fun p => toText p == cv
  | .stringNotEquals => inverted fun p => toText p == cv
  | .stringEqualsIgnoreCase => positive fun p => eqIgnoreCase (toText p) cv
  | .stringNotEqualsIgnoreCase => inverted fun p => eqIgnoreCase (toText p) cv
  | .stringLike | .arnEquals | .arnLike => positive fun p => PolicyVariables.glob p cv false
  | .stringNotLike | .arnNotEquals | .arnNotLike =>
    inverted fun p => PolicyVariables.glob p cv false
  | _ => false

/-! ## Entries and blocks -/

/-- The `Null` operator asks whether the key is there. -/
def evaluateNull (ctx : ConditionContext) (entry : ParsedCondition) : Bool :=
  let keyPresent := ((ctx.lookup F entry.key).map fun vs => !vs.isEmpty).getD false
  entry.values.any fun v =>
    if v == "true" then !keyPresent else if v == "false" then keyPresent else false

/-- The values of the context are alternatives, except under `ForAllValues`. -/
def qualified (q : Qualifier) (contextValues : List Str) (one : Str → Bool) : Bool :=
  match q with
  | .single | .forAnyValue => contextValues.any one
  | .forAllValues => contextValues.all one

def evaluateEntry (ctx : ConditionContext) (entry : ParsedCondition) : Bool :=
  let op := entry.operator.op
  let absent := entry.operator.ifExists || (entry.operator.qualifier == .single && op.isNegated)
  if op = .null then evaluateNull F ctx entry
  else
    match ctx.lookup F entry.key with
    | none => absent
    -- populated without values
    | some [] => entry.operator.qualifier == .forAllValues || absent
    | some contextValues =>
      if entry.policyVariables && op.supportsPolicyVariables && entry.values.any hasVariables then
        qualified entry.operator.qualifier contextValues
          (matchExpanded op (entry.values.map (expand F ctx)))
      else
        qualified entry.operator.qualifier contextValues (matchValues F op entry.values)

/-- The key under which an unrecognised operator is recorded starts with this. -/
def unknownOperator : Str := "__unknown_operator__:"

/-- Evaluate a block for a statement of the given effect. -/
def CompiledCondition.matchesForEffect (c : CompiledCondition) (ctx : ConditionContext)
    (isDeny : Bool) : Bool :=
  c.entries.all fun entry =>
    if List.isPrefixOf unknownOperator entry.key then isDeny else evaluateEntry F ctx entry

end

end Fakecloud.Iam.Condition
