import Fakecloud.Dynamodb.Page
import Fakecloud.Dynamodb.ReservedWords

/-!
# Expressions

The tokens of an expression, its document paths, and the grammar of update expressions that a request
has to pass before anything is written.  What is parsed here is only checked: the update itself is
carried out from the text, which `Dynamodb.Update` cuts up again in its own way.

The grammars of conditions and of projections are left out, and so is the record of the placeholders
that an expression has used.
-/

namespace Fakecloud.Dynamodb

open Text

/-- The attribute names that placeholders stand for. -/
abbrev Names := AList fun _ : Str => Str

abbrev Values := AList fun _ : Str => AttributeValue

def invalidUpdate (message : Str) : ServiceError :=
  validationError ("Invalid UpdateExpression: " ++ message)

/-! ## Tokens -/

inductive Tok
  | ident | name | value | quoted | num
  | lparen | rparen | lbracket | rbracket | comma | dot
  | eq | ne | lt | le | gt | ge | plus | minus
  | unknown | eof
  deriving DecidableEq

structure Token where
  tok : Tok
  start : ℕ
  text : Str

def Token.stop (t : Token) : ℕ := t.start + t.text.length

def isWordByte (c : Char) : Bool := c.isAlphanum || c == '_'

def isAsciiWhitespace (c : Char) : Bool :=
  c == ' ' || c == '\t' || c == '\n' || c == '\r' || c == '\x0c'

/-- The tokens that are one sign, and those that a second sign may lengthen. -/
def signAt (c : Char) (next : Option Char) : Tok × ℕ :=
  match c with
  | '(' => (.lparen, 0)
  | ')' => (.rparen, 0)
  | '[' => (.lbracket, 0)
  | ']' => (.rbracket, 0)
  | ',' => (.comma, 0)
  | '.' => (.dot, 0)
  | '=' => (.eq, 0)
  | '+' => (.plus, 0)
  | '-' => (.minus, 0)
  | '<' => if next = some '=' then (.le, 1) else if next = some '>' then (.ne, 1) else (.lt, 0)
  | '>' => if next = some '=' then (.ge, 1) else (.gt, 0)
  | _ => (.unknown, 0)

/-- The token that starts with a character, and how many more characters it has. -/
def tokenAt (allowQuoted : Bool) (c : Char) (rest : Str) : Tok × ℕ :=
  let word := rest.takeWhile isWordByte
  if c = '#' ∨ c = ':' then
    if word = [] then (.unknown, 0) else (if c = '#' then .name else .value, word.length)
  else if isWordByte c then (if (c :: word).all Char.isDigit then .num else .ident, word.length)
  else if c = '"' ∧ allowQuoted then
    match splitOnce '"' rest with
    | some (inner, _) => (.quoted, inner.length + 1)
    | none => (.unknown, 0)
  else signAt c rest.head?

/-- The tokens of a text, of which the first characters belong to the token before. -/
def lexFrom (allowQuoted : Bool) : ℕ → ℕ → Str → List Token
  | _, _, [] => []
  | skip + 1, pos, _ :: rest => lexFrom allowQuoted skip (pos + 1) rest
  | 0, pos, c :: rest =>
    if isAsciiWhitespace c then lexFrom allowQuoted 0 (pos + 1) rest
    else
      let (tok, more) := tokenAt allowQuoted c rest
      ⟨tok, pos, c :: rest.take more⟩ :: lexFrom allowQuoted more (pos + 1) rest

/-- Without the token for the end, which is where the list ends. -/
def lex (src : Str) (allowQuoted : Bool) : List Token := lexFrom allowQuoted 0 0 src

/-! ## Paths -/

inductive PathElem
  | attr (name : Str)
  | index (i : ℕ)
  deriving DecidableEq

abbrev DocPath := List PathElem

def PathElem.render : PathElem → Str
  | .attr a => a
  | .index i => '[' :: (Nat.toDigits 10 i ++ [']'])

def renderPath (path : DocPath) : Str :=
  '[' :: (List.intercalate ", " (path.map PathElem.render) ++ [']'])

structure ExprContext where
  names : Names
  values : Values
  /-- Whether every rule for requests holds, or the text is one that has passed them before. -/
  strict : Bool

/-- The tokens that are left, and the one before them. -/
structure Cursor where
  src : Str
  prev : Option Token
  rest : List Token

namespace Cursor

variable (c : Cursor)

def peek : Tok := c.rest.head?.elim .eof Token.tok

def curText : Str := c.rest.head?.elim [] Token.text

def advance : Cursor :=
  match c.rest with
  | [] => c
  | t :: rest => { c with prev := some t, rest }

def isKeyword (kw : Str) : Bool := c.peek = .ident && eqIgnoreCase c.curText kw

/-- The current token is not what has to stand there. -/
def syntaxError : ServiceError :=
  let here := c.rest.head?.elim c.src.length Token.start
  let token := c.rest.head?.elim "<EOF>".toList Token.text
  let nearStart := c.prev.elim here Token.start
  let nearEnd := (c.rest[1]?.or c.rest[0]?).elim c.src.length Token.stop
  let near := (c.src.drop nearStart).take (nearEnd - nearStart)
  invalidUpdate ("Syntax error; token: \"" ++ token ++ "\", near: \"" ++ near ++ ['"'])

def expect (tok : Tok) : Except ServiceError Cursor :=
  if c.peek = tok then .ok c.advance else .error c.syntaxError

def atFunction : Bool := c.peek = .ident && c.advance.peek = .lparen

end Cursor

def grammarKeywords : List Str :=
  ["AND", "OR", "NOT", "BETWEEN", "IN", "SET", "REMOVE", "ADD", "DELETE"]

section Parser

variable (ctx : ExprContext)

def pathName (c : Cursor) : Except ServiceError Str :=
  match c.peek with
  | .ident =>
    if grammarKeywords.any (eqIgnoreCase · c.curText) then .error c.syntaxError
    else if ctx.strict && isReservedWord c.curText then
      .error (invalidUpdate ("Attribute name is a reserved keyword; reserved keyword: " ++ c.curText))
    else .ok c.curText
  | .quoted => if ctx.strict then .error c.syntaxError else .ok (c.curText.drop 1).dropLast
  | .name =>
    match ctx.names.lookup c.curText with
    | some n => .ok n
    | none =>
      if ctx.strict then
        .error (invalidUpdate ("An expression attribute name used in the document path is not defined; attribute name: "
          ++ c.curText))
      else .ok c.curText
  | _ => .error c.syntaxError

/-- The elements after the first name of a path, and where the path ends. -/
def pathTail (src : Str) : Option Token → List Token → Except ServiceError (DocPath × Cursor)
  | prev, [] => .ok ([], ⟨src, prev, []⟩)
  | prev, t :: rest =>
    match t.tok with
    | .dot =>
      match pathName ctx ⟨src, some t, rest⟩, rest with
      | .ok name, n :: rest' => do
        let (elems, c) ← pathTail src (some n) rest'
        .ok (.attr name :: elems, c)
      | .ok _, [] => .error (Cursor.mk src (some t) []).syntaxError
      | .error e, _ => .error e
    | .lbracket =>
      match rest with
      | n :: b :: rest' =>
        match (if n.tok = .num then parseUnsigned (2 ^ 64) n.text else none) with
        | none => .error (Cursor.mk src (some t) (n :: b :: rest')).syntaxError
        | some i =>
          if b.tok = .rbracket then do
            let (elems, c) ← pathTail src (some b) rest'
            .ok (.index i :: elems, c)
          else .error (Cursor.mk src (some n) (b :: rest')).syntaxError
      | [n] =>
        if n.tok = .num ∧ (parseUnsigned (2 ^ 64) n.text).isSome then .error
          (Cursor.mk src (some n) []).syntaxError
        else .error (Cursor.mk src (some t) [n]).syntaxError
      | [] => .error (Cursor.mk src (some t) []).syntaxError
    | _ => .ok ([], ⟨src, prev, t :: rest⟩)

def path (c : Cursor) : Except ServiceError (DocPath × Cursor) := do
  let name ← pathName ctx c
  let (elems, c) ← pathTail ctx c.src c.advance.prev c.advance.rest
  .ok (.attr name :: elems, c)

def valueRef (c : Cursor) : Except ServiceError Str :=
  if ctx.strict && (ctx.values.lookup c.curText).isNone then
    .error (invalidUpdate ("An expression attribute value used in expression is not defined; attribute value: "
      ++ c.curText))
  else .ok c.curText

/-! ## Updates -/

/-- The right-hand side of a `SET` action, as far as it is kept. -/
inductive SetValue
  | path (p : DocPath)
  | value (ref : Str)
  | ifNotExists (default_ : SetValue)
  | listAppend (a b : SetValue)
  | arith (a b : SetValue)
  | paren (inner : SetValue)

def notAllowedInUpdate : List Str :=
  ["attribute_exists", "attribute_not_exists", "attribute_type", "begins_with", "contains", "size"]

def callValue (name : Str) : List SetValue → Except ServiceError SetValue
  | [a, b] =>
    if name = "if_not_exists" then
      match a with
      | .path _ => .ok (.ifNotExists b)
      | _ => .error (invalidUpdate "Operator or function requires a document path; operator or function: if_not_exists")
    else .ok (.listAppend a b)
  | args => .error (invalidUpdate
      ("Incorrect number of operands for operator or function; operator or function: " ++ name ++
        ", number of operands: " ++ Nat.toDigits 10 args.length))

mutual

/-- The fuel is more than the tokens ask for (`setFuel`). -/
def setValue : ℕ → Cursor → Except ServiceError (SetValue × Cursor)
  | 0, c => .error c.syntaxError
  | fuel + 1, c => do
    let (left, c) ← setOperand fuel c
    if c.peek = .plus ∨ c.peek = .minus then
      let (right, c) ← setOperand fuel c.advance
      .ok (.arith left right, c)
    else .ok (left, c)

def setOperand : ℕ → Cursor → Except ServiceError (SetValue × Cursor)
  | 0, c => .error c.syntaxError
  | fuel + 1, c =>
    match c.peek with
    | .lparen => do
      let (inner, c) ← setValue fuel c.advance
      let c ← c.expect .rparen
      .ok (.paren inner, c)
    | .value => do
      let ref ← valueRef ctx c
      .ok (.value ref, c.advance)
    | .ident =>
      if c.atFunction then
        if c.curText = "if_not_exists" ∨ c.curText = "list_append" then do
          let (args, c') ← setArgs fuel c.advance.advance
          let c' ← c'.expect .rparen
          let v ← callValue c.curText args
          .ok (v, c')
        else if c.curText ∈ notAllowedInUpdate then
          .error
            (invalidUpdate ("The function is not allowed in an update expression; function: " ++ c.curText))
        else .error (invalidUpdate ("Invalid function name; function: " ++ c.curText))
      else (path ctx c).map fun (p, c) => (.path p, c)
    | .name => (path ctx c).map fun (p, c) => (.path p, c)
    | _ => .error c.syntaxError

def setArgs : ℕ → Cursor → Except ServiceError (List SetValue × Cursor)
  | 0, c => .error c.syntaxError
  | fuel + 1, c => do
    let (v, c) ← setValue fuel c
    if c.peek = .comma then
      let (vs, c) ← setArgs fuel c.advance
      .ok (v :: vs, c)
    else .ok ([v], c)

end

/-- Each operand or call takes one token at least, and three steps at most. -/
def setFuel (c : Cursor) : ℕ := 3 * c.rest.length + 3

inductive UpdateAction
  | set | remove | add | delete
  deriving DecidableEq

namespace UpdateAction

def keyword : UpdateAction → Str
  | set => "SET"
  | remove => "REMOVE"
  | add => "ADD"
  | delete => "DELETE"

def all : List UpdateAction := [set, remove, add, delete]

end UpdateAction

structure UpdateAst where
  sets : List (DocPath × SetValue) := []
  removes : List DocPath := []
  adds : List (DocPath × Str) := []
  deletes : List (DocPath × Str) := []

def UpdateAst.targetPaths (ast : UpdateAst) : List DocPath :=
  ast.sets.map Prod.fst ++ ast.removes ++ ast.adds.map Prod.fst ++ ast.deletes.map Prod.fst

def updateAction (action : UpdateAction) (ast : UpdateAst) (c : Cursor) :
    Except ServiceError (UpdateAst × Cursor) := do
  let (p, c) ← path ctx c
  match action with
  | .set =>
    let c ← c.expect .eq
    let (v, c) ← setValue ctx (setFuel c) c
    .ok ({ ast with sets := ast.sets ++ [(p, v)] }, c)
  | .remove => .ok ({ ast with removes := ast.removes ++ [p] }, c)
  | .add =>
    if c.peek = .value then
      let v ← valueRef ctx c
      .ok ({ ast with adds := ast.adds ++ [(p, v)] }, c.advance)
    else .error c.syntaxError
  | .delete =>
    if c.peek = .value then
      let v ← valueRef ctx c
      .ok ({ ast with deletes := ast.deletes ++ [(p, v)] }, c.advance)
    else .error c.syntaxError

/-- The actions of a section; each takes one token at least. -/
def updateActions (action : UpdateAction) : ℕ → UpdateAst → Cursor → Except ServiceError (UpdateAst × Cursor)
  | 0, _, c => .error c.syntaxError
  | fuel + 1, ast, c => do
    let (ast, c) ← updateAction ctx action ast c
    if c.peek = .comma then updateActions action fuel ast c.advance else .ok (ast, c)

def updateSections : ℕ → List UpdateAction → UpdateAst → Cursor → Except ServiceError UpdateAst
  | 0, _, _, c => .error c.syntaxError
  | fuel + 1, seen, ast, c =>
    match UpdateAction.all.find? (c.isKeyword ·.keyword) with
    | none => .error c.syntaxError
    | some action =>
      if action ∈ seen then
        .error (invalidUpdate ("The \"" ++ action.keyword ++
          "\" section can only be used once in an update expression;"))
      else do
        let (ast, c) ← updateActions ctx action (c.rest.length + 1) ast c.advance
        if c.peek = .eof then .ok ast else updateSections fuel (action :: seen) ast c

def Cursor.start (src : Str) : Cursor := ⟨src, none, lex src (!ctx.strict)⟩

def maxExpressionBytes : ℕ := 4096

def checkSizeAndEmpty (src : Str) : Except ServiceError Unit :=
  if trim src = [] then .error (invalidUpdate "The expression can not be empty;")
  else if maxExpressionBytes < (utf8 src).length then
    .error (invalidUpdate ("Expression size has exceeded the maximum allowed size; expression size: " ++
      Nat.toDigits 10 (utf8 src).length))
  else .ok ()

def redundantParens (parentParen : Bool) : SetValue → Bool
  | .paren inner => parentParen || redundantParens true inner
  | .arith a b | .listAppend a b => redundantParens false a || redundantParens false b
  | .ifNotExists b => redundantParens false b
  | .path _ | .value _ => false

def overlaps (a b : DocPath) : Bool := a.isPrefixOf b || b.isPrefixOf a

def findOverlap : List DocPath → Option (DocPath × DocPath)
  | [] => none
  | a :: rest => ((rest.find? (overlaps a)).map (a, ·)).or (findOverlap rest)

def checkOverlap (paths : List DocPath) : Except ServiceError Unit :=
  match findOverlap paths with
  | none => .ok ()
  | some (a, b) => .error (invalidUpdate
      ("Two document paths overlap with each other; must remove or rewrite one of these paths; path one: " ++
        renderPath a ++ ", path two: " ++ renderPath b))

def parseUpdateExpression (src : Str) : Except ServiceError UpdateAst := do
  if ctx.strict then checkSizeAndEmpty src
  let c := Cursor.start ctx src
  let ast ← updateSections ctx (c.rest.length + 1) [] {} c
  if ast.sets.any (redundantParens false ·.2) then
    .error (invalidUpdate "The expression has redundant parentheses;")
  else
    checkOverlap ast.targetPaths
    .ok ast

end Parser

def parseDocumentPath (src : Str) (names : Names) : Option DocPath :=
  let ctx : ExprContext := ⟨names, ∅, false⟩
  match path ctx (Cursor.start ctx src) with
  | .ok (p, c) => if c.peek = .eof then some p else none
  | .error _ => none

/-- An update expression that a request gets past. -/
def Accepted (expr : Str) (names : Names) (values : Values) : Prop :=
  (parseUpdateExpression ⟨names, values, true⟩ expr).toOption.isSome

instance (expr : Str) (names : Names) (values : Values) : Decidable (Accepted expr names values) :=
  inferInstanceAs (Decidable (_ = true))

end Fakecloud.Dynamodb
