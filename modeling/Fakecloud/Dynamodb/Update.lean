import Fakecloud.Dynamodb.Arithmetic
import Fakecloud.Dynamodb.Document

/-!
# Updates

An update expression is carried out from its text: the text is cut at the keywords that white space
surrounds, each clause at its commas, and each action is taken apart once more as it runs.  The actions
run one after the other on the row, and read their operands from the row as it was before.
-/

namespace Fakecloud.Dynamodb

open Text AList

/-! ## Clauses -/

/-- The quotation mark that is open after a character. -/
def nextQuote (quote : Option Char) (c : Char) : Option Char :=
  match quote with
  | none => if c = '\'' ∨ c = '"' then some c else none
  | some q => if c = q then none else some q

/-- A character in front of the first of some pieces. -/
def consHead (c : Char) : List Str → List Str
  | [] => [[c]]
  | piece :: pieces => (c :: piece) :: pieces

/-- `split_on_top_level_keyword` at commas: those in quotes or in parentheses do not separate. -/
def splitCommasFrom (quote : Option Char) (depth : ℕ) : Str → List Str
  | [] => [[]]
  | c :: rest =>
    if quote.isSome ∨ c = '\'' ∨ c = '"' then consHead c (splitCommasFrom (nextQuote quote c) depth rest)
    else if c = '(' then consHead c (splitCommasFrom none (depth + 1) rest)
    else if c = ')' then consHead c (splitCommasFrom none (depth - 1) rest)
    else if depth = 0 ∧ c = ',' then [] :: splitCommasFrom none 0 rest
    else consHead c (splitCommasFrom none depth rest)

def splitCommas (s : Str) : List Str := splitCommasFrom none 0 s

/-- What has to stand on both sides of a keyword. -/
def isBoundary (c : Char) : Bool := c == ' ' || c == '\t' || c == '\n' || c == '\r'

def keywordAt (s : Str) : Option UpdateAction :=
  UpdateAction.all.find? fun a =>
    a.keyword.isPrefixOf (upper s) && (s.drop a.keyword.length).head?.all isBoundary

/-- The text up to the first keyword, and each keyword with the text up to the next.  The counter is
what is left of a keyword; a keyword in quotes is none. -/
def clauseTexts : ℕ → Bool → Option Char → Str → Str × List (UpdateAction × Str)
  | _, _, _, [] => ([], [])
  | skip + 1, _, quote, c :: rest => clauseTexts skip (isBoundary c) (nextQuote quote c) rest
  | 0, before, quote, c :: rest =>
    match (if before ∧ quote.isNone then keywordAt (c :: rest) else none) with
    | some a =>
      let (text, clauses) := clauseTexts (a.keyword.length - 1) (isBoundary c) (nextQuote quote c) rest
      ([], (a, text) :: clauses)
    | none =>
      let (text, clauses) := clauseTexts 0 (isBoundary c) (nextQuote quote c) rest
      (c :: text, clauses)

def parseUpdateClauses (expr : Str) : List (UpdateAction × List Str) :=
  (clauseTexts 0 true none expr).2.map fun (a, text) => (a, (splitCommas (trim text)).map trim)

/-! ## Operands -/

/-- `trim_matches`, for one character. -/
def trimMatches (c : Char) (s : Str) : Str := (s.dropWhile (· == c)).rdropWhile (· == c)

def resolveAttrName (name : Str) (names : Names) : Str :=
  let name := trimMatches '"' name
  if name.head? = some '#' then (names.lookup name).getD name else name

def resolvePath (path : Str) (item : Item) (names : Names) : Option AttributeValue :=
  match parseDocumentPath (trim path) names with
  | some p => resolveDocPath item p
  | none => item.lookup (resolveAttrName path names)

/-- `strip_suffix`, for one character. -/
def stripLast (c : Char) (s : Str) : Option Str := if s.getLast? = some c then some s.dropLast else none

/-- Digits, and maybe a point and digits. -/
def isFloatMantissa (s : Str) : Bool :=
  match splitOnce '.' s with
  | none => !s.isEmpty && s.all Char.isDigit
  | some (int, frac) => int.all Char.isDigit && frac.all Char.isDigit && !(int.isEmpty && frac.isEmpty)

/-- A text that `parse::<f64>` takes. -/
def isFloat (s : Str) : Bool :=
  let rest := (splitSign s).2
  let (mantissa, exponent) := rest.span (!isExponentMark ·)
  ["inf".toList, "infinity".toList, "nan".toList].contains (lower rest) ||
    isFloatMantissa mantissa && (match exponent with
      | [] => true
      | _ :: e => (parseDigits (splitSign e).2).isSome)

/-- What stands for itself in a statement: a quoted text or a number. -/
def literalOf (reference : Str) : Option AttributeValue :=
  match (reference.dropPrefix? ['\'']).bind (stripLast '\'') with
  | some s => some (.obj [(['S'], .str s)])
  | none => if isFloat reference then some (.obj [(['N'], .str reference)]) else none

def resolveRefOrPath (reference : Str) (item : Item) (names : Names) (values : Values) :
    Option AttributeValue :=
  let reference := trimMatches '"' (trim reference)
  if reference.head? = some ':' then values.lookup reference
  else (resolvePath reference item names).or (literalOf reference)

/-- The parentheses that close each other, and what they leave open. -/
def closes : ℕ → Str → Option ℕ
  | depth, [] => some depth
  | depth, '(' :: s => closes (depth + 1) s
  | 0, ')' :: _ => none
  | depth + 1, ')' :: s => closes depth s
  | depth, _ :: s => closes depth s

def stripOuterParens (expr : Str) : Str :=
  let trimmed := trim expr
  if trimmed.head? = some '(' ∧ trimmed.getLast? = some ')' then
    let inner := (trimmed.drop 1).dropLast
    if closes 0 inner = some 0 then inner else trimmed
  else trimmed

/-- The first sign outside of parentheses that does not start the text. -/
def arithmeticFrom : Str → ℤ → Str → Option (Str × Str × Bool)
  | _, _, [] => none
  | before, depth, c :: rest =>
    if c = '(' then arithmeticFrom (before ++ [c]) (depth + 1) rest
    else if c = ')' then arithmeticFrom (before ++ [c]) (depth - 1) rest
    else if (c = '+' ∨ c = '-') ∧ depth = 0 ∧ before ≠ [] then some (before, rest, c = '+')
    else arithmeticFrom (before ++ [c]) depth rest

def parseArithmetic (expr : Str) : Option (Str × Str × Bool) := arithmeticFrom [] 0 expr

def callOf (function : Str) (s : Str) : Option Str :=
  (s.dropPrefix? (function ++ ['('])).or (s.dropPrefix? (function ++ [' ', '(']))

def ifNotExists : Str := "if_not_exists"

def listAppend : Str := "list_append"

section Operands

variable (item : Item) (names : Names) (values : Values)

def evaluateArithmeticOperand (operand : Str) : Option AttributeValue :=
  let operand := stripOuterParens (trim operand)
  match callOf ifNotExists operand with
  | some rest => do
    let inner ← stripLast ')' rest
    let (check, default_) ← splitOnce ',' inner
    (resolveRefOrPath (trim check) item names values).or
      (resolveRefOrPath (trim default_) item names values)
  | none => resolveRefOrPath operand item names values

/-- Nothing when the path is there. -/
def evaluateIfNotExistsRhs (rest : Str) : Option AttributeValue := do
  let inner ← stripLast ')' rest
  let (check, default_) ← splitOnce ',' inner
  if (resolveRefOrPath (trim check) item names values).isSome then none
  else resolveRefOrPath (trim default_) item names values

/-- The elements of an operand; one that is no list has none. -/
def elementsOf (v : Option AttributeValue) : List Json := (v.bind listOf).getD []

def evaluateListAppendRhs (rest : Str) : Option AttributeValue := do
  let inner ← stripLast ')' rest
  match splitCommas inner with
  | [a, b] =>
    some (.obj [(['L'], .arr (elementsOf (evaluateArithmeticOperand item names values (trim a)) ++
      elementsOf (evaluateArithmeticOperand item names values (trim b))))])
  | _ => none

def badOperand : ServiceError :=
  validationError "An operand in the update expression has an incorrect data type"

def numberText (v : AttributeValue) : Option Str := (v.field ['N']).bind Json.asStr

def number (text : Str) : AttributeValue := .obj [(['N'], .str text)]

def maxScientificExponent : ℤ := 125

def minScientificExponent : ℤ := -130

def ParsedNumber.scientificExponent (p : ParsedNumber) : Option ℤ :=
  if p.isZero then none else some (p.point - 1)

/-- The magnitude of a number; its digits are not counted. -/
def checkNumberRange (literal : Str) : Except ServiceError Unit :=
  match (parseNumber literal).bind ParsedNumber.scientificExponent with
  | none => .ok ()
  | some e =>
    if maxScientificExponent < e then
      .error (validationError "Number overflow. Attempting to store a number with magnitude larger than supported range")
    else if e < minScientificExponent then
      .error (validationError "Number underflow. Attempting to store a number with magnitude smaller than supported range")
    else .ok ()

def evaluateArithmeticRhs (left right : Str) (isAdd : Bool) : Except ServiceError AttributeValue :=
  let a := evaluateArithmeticOperand item names values left
  let b := evaluateArithmeticOperand item names values right
  match a.bind numberText, b.bind numberText with
  | some x, some y =>
    match decimalAddSub x y isAdd with
    | some sum => do
      checkNumberRange sum
      .ok (number sum)
    | none => .error badOperand
  | _, _ => .error badOperand

/-- The value of a right-hand side; nothing when there is nothing to write. -/
def evaluateSetRhs (right : Str) : Except ServiceError (Option AttributeValue) :=
  let right := stripOuterParens right
  match parseArithmetic right with
  | some (a, b, isAdd) => (evaluateArithmeticRhs item names values a b isAdd).map some
  | none =>
    match callOf ifNotExists right, callOf listAppend right with
    | some rest, _ => .ok (evaluateIfNotExistsRhs item names values rest)
    | none, some rest => .ok (evaluateListAppendRhs item names values rest)
    | none, none => .ok (resolveRefOrPath right item names values)

end Operands

/-! ## Actions -/

section Actions

variable (names : Names) (values : Values)

/-- The right-hand side is read from `source`. -/
def applySetAssignmentFrom (item source : Item) (assignment : Str) : Except ServiceError (Item × Option ℕ) :=
  match splitOnce '=' assignment with
  | none => .ok (item, none)
  | some (left, right) => do
    match ← evaluateSetRhs source names values (trim right) with
    | none => .ok (item, none)
    | some v => assignNestedPath item (trim left) names v

def setTypes : List Str := ["SS", "NS", "BS"]

def membersOf (setType : Str) (v : AttributeValue) : Option (List Json) :=
  (v.field setType).bind Json.asArray

def nsMembersEqual (a b : Json) : Bool :=
  match a.asStr, b.asStr with
  | some x, some y =>
    if isValidNumber x && isValidNumber y then compareNumberStrings x y == .eq else a.same b
  | _, _ => a.same b

def sameMember (setType : Str) (a b : Json) : Bool :=
  if setType = ['N', 'S'] then nsMembersEqual a b else a.same b

/-- Members that are not there yet go to the end. -/
def unionMembers (setType : Str) (existing added : List Json) : List Json :=
  added.foldl (fun merged v => if merged.any (sameMember setType · v) then merged else merged ++ [v]) existing

def isWellformedAddOperand (v : AttributeValue) : Bool :=
  let strings := fun (member : Str → Bool) (members : Json) =>
    members.asArray.any fun a => !a.isEmpty && a.all fun e => e.asStr.any member
  match v.field ['N'], v.field ['S', 'S'], v.field ['N', 'S'], v.field ['B', 'S'] with
  | some n, _, _, _ => n.asStr.any isValidNumber
  | none, some ss, _, _ => strings (fun _ => true) ss
  | none, none, some ns, _ => strings isValidNumber ns
  | none, none, none, some bs => strings (fun s => (base64Decode s).isSome) bs
  | none, none, none, none => false

def typeMismatch (attr : Str) : ServiceError :=
  validationError ("Type mismatch for attribute to update: " ++ attr)

def addTo (attr : Str) (existing : Option AttributeValue) (added : AttributeValue) :
    Except ServiceError AttributeValue :=
  match existing with
  | none => if isWellformedAddOperand added then .ok added else .error badOperand
  | some old =>
    match numberText old, numberText added with
    | some x, some y =>
      match decimalAddSub x y true with
      | some sum => do
        checkNumberRange sum
        .ok (number sum)
      | none => .ok old
    | _, _ =>
      match setTypes.find? fun t => (membersOf t old).isSome with
      | none => .error (typeMismatch attr)
      | some t =>
        match membersOf t added with
        | none => .error (typeMismatch attr)
        | some new => .ok (.obj [(t, .arr (unionMembers t ((membersOf t old).getD []) new))])

/-- The attribute and the operand of an `ADD` or `DELETE` action: what stands before the first blank,
taken whole, and the value that what stands behind it refers to. -/
def operandOf (assignment : Str) : Option (Str × AttributeValue) := do
  let (target, value) ← splitOnce ' ' assignment
  let v ← values.lookup (trim value)
  some (resolveAttrName (trim target) names, v)

def applyAddAssignment (item : Item) (assignment : Str) : Except ServiceError Item :=
  match operandOf names values assignment with
  | none => .ok item
  | some (attr, added) => (addTo attr (item.lookup attr) added).map (item.insert attr)

/-- What `DELETE` makes of an attribute; a set that is empty goes. -/
def deleteFrom (attr : Str) (old deleted : AttributeValue) : Except ServiceError (Option AttributeValue) :=
  match setTypes.find? fun t => (membersOf t old).isSome && (membersOf t deleted).isSome with
  | none => .error (typeMismatch attr)
  | some t =>
    let gone := (membersOf t deleted).getD []
    let left := ((membersOf t old).getD []).filter fun v => !gone.any fun d => sameMember t d v
    .ok (if left.isEmpty then none else some (.obj [(t, .arr left)]))

def applyDeleteAssignment (item : Item) (assignment : Str) : Except ServiceError Item :=
  match operandOf names values assignment with
  | none => .ok item
  | some (attr, deleted) =>
    match item.lookup attr with
    | none => .ok item
    | some old => (deleteFrom attr old deleted).map fun left => left.elim (item.erase attr) (item.insert attr)

/-! ## The whole update -/

/-- Where the value of each `SET` action went, by the number of the action in its clause. -/
abbrev Written := List (ℕ × DocPath)

def shiftAfterListRemoval (written : Written) (removed : DocPath) : Written :=
  written.map fun (n, path) => (n, shiftPath removed path)

/-- The path that a `SET` action names. -/
def setTarget (assignment : Str) : Str := ((splitOnce '=' assignment).map fun (left, _) => trim left).getD []

def stepSet (snapshot : Item) (ordinal : ℕ) (assignment : Str) (item : Item) (written : Written) :
    Except ServiceError (Item × Written) := do
  let (item, index) ← applySetAssignmentFrom names values item snapshot assignment
  match parseDocumentPath (setTarget assignment) names with
  | some path => .ok (item, written ++ [(ordinal, landed path index)])
  | none => .ok (item, written)

def stepRemove (attrRef : Str) (item : Item) (written : Written) : Item × Written :=
  let removed := (parseDocumentPath (trim attrRef) names).filter fun p => (resolveDocPath item p).isSome
  (removePath item (trim attrRef) names, removed.elim written (shiftAfterListRemoval written))

/-- One action, with its number in its clause. -/
def stepAction (snapshot : Item) (action : UpdateAction) (ordinal : ℕ) (assignment : Str)
    (s : Item × Written) : Except ServiceError (Item × Written) :=
  match action with
  | .set => stepSet names values snapshot ordinal assignment s.1 s.2
  | .remove => .ok (stepRemove names assignment s.1 s.2)
  | .add => (applyAddAssignment names values s.1 assignment).map (·, s.2)
  | .delete => (applyDeleteAssignment names values s.1 assignment).map (·, s.2)

/-- The actions of an expression in the order in which they run. -/
def actionsOf (expr : Str) : List (UpdateAction × ℕ × Str) :=
  (parseUpdateClauses expr).flatMap fun (action, assignments) =>
    assignments.zipIdx.map fun (assignment, ordinal) => (action, ordinal, assignment)

def applyUpdateExpressionTracked (item : Item) (expr : Str) : Except ServiceError (Item × Written) :=
  if parseUpdateClauses expr = [] ∧ trim expr ≠ [] then
    .error (validationError "Invalid UpdateExpression: Syntax error; token: \"<expression>\"")
  else
    (actionsOf expr).foldlM (fun s (action, ordinal, assignment) =>
      stepAction names values item action ordinal assignment s) (item, [])

def applyUpdateExpression (item : Item) (expr : Str) : Except ServiceError Item :=
  (applyUpdateExpressionTracked names values item expr).map Prod.fst

end Actions

/-! ## What an action leaves alone -/

theorem lookup_assignPath {item item' : Item} {p : DocPath} {v : AttributeValue} {i : Option ℕ} {k : Str}
    (h : assignPath item p v = .ok (item', i)) (hk : p.head? ≠ some (.attr k)) :
    item'.lookup k = item.lookup k := by
  have hne : ∀ {top : Str}, p.head? = some (.attr top) → k ≠ top := by
    rintro top ht rfl
    exact hk ht
  unfold assignPath at h
  split at h
  next top =>
    cases h
    exact lookup_insert_ne (hne rfl)
  next top p _ =>
    split at h
    next =>
      cases h
      exact lookup_insert_ne (hne rfl)
    next => cases h
  next => cases h

theorem lookup_removeDocPath {item : Item} {p : DocPath} {k : Str} (hk : p.head? ≠ some (.attr k)) :
    (removeDocPath item p).lookup k = item.lookup k := by
  have hne : ∀ {top : Str}, p.head? = some (.attr top) → k ≠ top := by
    rintro top ht rfl
    exact hk ht
  unfold removeDocPath
  split
  next top => exact lookup_erase_ne (hne rfl)
  next top p _ =>
    rcases item.lookup top with _ | v
    · rfl
    · exact lookup_insert_ne (hne rfl)
  next => rfl

section Steps

variable {names : Names} {values : Values} {snapshot : Item} {action : UpdateAction} {ordinal : ℕ}
variable {assignment : Str} {s s' : Item × Written} {k : Str}

def writtenPath (names : Names) (values : Values) (action : UpdateAction) (assignment : Str) :
    Option DocPath :=
  match action with
  | .set => (splitOnce '=' assignment).bind fun (left, _) => parseDocumentPath (trim left) names
  | .remove => parseDocumentPath (trim assignment) names
  | .add | .delete => (operandOf names values assignment).map fun (attr, _) => [.attr attr]

theorem stepAction_lookup (h : stepAction names values snapshot action ordinal assignment s = .ok s')
    (hk : ∀ p ∈ writtenPath names values action assignment, p.head? ≠ some (.attr k)) :
    s'.1.lookup k = s.1.lookup k := by
  cases action with
  | set =>
    obtain ⟨⟨item, index⟩, hst, h⟩ := bind_eq_ok.mp h
    have hs' : s'.1 = item := by
      dsimp only at h
      split at h <;> (cases h; rfl)
    rw [hs']
    unfold applySetAssignmentFrom at hst
    split at hst
    next => cases hst; rfl
    next left right hsp =>
      obtain ⟨v, -, hst⟩ := bind_eq_ok.mp hst
      split at hst
      next => cases hst; rfl
      next v =>
        unfold assignNestedPath at hst
        split at hst
        next p hp => exact lookup_assignPath hst (hk p (by simp [writtenPath, hsp, hp]))
        next => cases hst
  | remove =>
    cases h
    show (removePath s.1 (trim assignment) names).lookup k = s.1.lookup k
    unfold removePath
    rcases hp : parseDocumentPath (trim assignment) names with _ | p
    · rfl
    · exact lookup_removeDocPath (hk p hp)
  | add =>
    obtain ⟨item, ha, rfl⟩ := map_eq_ok.mp h
    unfold applyAddAssignment at ha
    split at ha
    next => cases ha; rfl
    next attr v ho =>
      obtain ⟨new, -, rfl⟩ := map_eq_ok.mp ha
      have hne : k ≠ attr := by
        rintro rfl
        exact hk [.attr k] (by simp [writtenPath, ho]) rfl
      exact lookup_insert_ne hne
  | delete =>
    obtain ⟨item, hd, rfl⟩ := map_eq_ok.mp h
    unfold applyDeleteAssignment at hd
    split at hd
    next => cases hd; rfl
    next attr v ho =>
      split at hd
      next => cases hd; rfl
      next old _ =>
        obtain ⟨left, -, rfl⟩ := map_eq_ok.mp hd
        have hne : k ≠ attr := by
          rintro rfl
          exact hk [.attr k] (by simp [writtenPath, ho]) rfl
        rcases left with _ | left
        · exact lookup_erase_ne hne
        · exact lookup_insert_ne hne

end Steps

/-! ## Keys -/

def topLevelAttribute (path : Str) : Str :=
  match trim path with
  | '"' :: rest =>
    match splitOnce '"' rest with
    | some (inner, _) => '"' :: (inner ++ ['"'])
    | none => '"' :: rest
  | path => trim (path.takeWhile fun c => !(c == '.' || c == '['))

/-- What an action is taken to write. -/
def guardTarget (action : UpdateAction) (assignment : Str) : Option Str :=
  match action with
  | .set => (splitOnce '=' assignment).map Prod.fst
  | .remove => some assignment
  | .add | .delete => some ((splitWhitespace assignment).head?.getD [])

/-- The first key attribute that an expression is taken to write. -/
def DynamoTable.keyAttributeInUpdateExpression (t : DynamoTable) (expr : Str) (names : Names) : Option Str :=
  (actionsOf expr).findSome? fun (action, _, assignment) => do
    let target ← guardTarget action assignment
    let attr := resolveAttrName (topLevelAttribute target) names
    if attr ∈ t.keyNames.attributes then some attr else none

end Fakecloud.Dynamodb
