import Fakecloud.Core.Auth
import Fakecloud.Lib.JsonText
import Mathlib.Tactic

/-!
# Event patterns

The pattern language that EventBridge rules, pipes and event source mappings share.

* `isValidStructure` — the check a pattern has to pass;
* `matchObject`, `matches_` — the matcher.

The recursions go through the members of an object one by one.  The lemmas at the end say what they do
with all of them, as the source has it.
-/

namespace Fakecloud.Aws.EventPattern

open Text Fakecloud.Core List

/-! ## Constraints on one value -/

/-- What the matcher takes from elsewhere. -/
structure Readers where
  /-- The value of a JSON number as a double. -/
  asF64 : Str → Option ℚ
  /-- `str::to_lowercase` -/
  toLowercase : Str → Str
  /-- `str::parse::<IpAddr>` -/
  parseIp : Str → Option IpAddr

def getMember (o : List (Str × Json)) (key : Str) : Option Json := o.lookup key

section Leaves

variable (R : Readers)

/-- `Value::as_f64`. -/
def valueF64 : Json → Option ℚ
  | .num text => R.asF64 text
  | _ => none

/-- Equality of scalars; numbers compare numerically. -/
def scalarsEqual (a b : Json) : Bool :=
  match a, b with
  | .num x, .num y =>
    match R.asF64 x, R.asF64 y with
    | some x, some y => x == y
    | _, _ => a.same b
  | _, _ => a.same b

def equalsIc (a b : Str) : Bool := R.toLowercase a == R.toLowercase b

def startsWithIc (value start : Str) : Bool :=
  (R.toLowercase start).isPrefixOf (R.toLowercase value)

def endsWithIc (value stop : Str) : Bool := (R.toLowercase stop).isSuffixOf (R.toLowercase value)

/-- The pieces of a wildcard pattern between its asterisks; a backslash takes the next character. -/
def wildcardSegments : Str → Str → List Str
  | current, [] => [current]
  | current, ['\\'] => [current]
  | current, '\\' :: c :: s => wildcardSegments (current ++ [c]) s
  | current, c :: s =>
    if c = '*' then current :: wildcardSegments [] s else wildcardSegments (current ++ [c]) s

/-- The pieces after the first, in what is left of the text; the last one stands at the end. -/
def wildcardRest : List Str → Str → Bool
  | [], _ => true
  | [last], rest => last.isSuffixOf rest
  | seg :: segs, rest =>
    match rest.dropInfix? seg with
    | some (_, rest') => wildcardRest segs rest'
    | none => false

def wildcardMatches (pattern actual : Str) : Bool :=
  match wildcardSegments [] pattern with
  | [] => true
  | [only] => only == actual
  | first :: segs =>
    match actual.dropPrefix? first with
    | some rest => wildcardRest segs rest
    | none => false

/-- `masked_v4` and `masked_v6`. -/
def masked {w : ℕ} (addr : BitVec w) (len : ℕ) : BitVec w :=
  if len = 0 then 0 else addr &&& (BitVec.allOnes w <<< (w - len))

def sameNet {w : ℕ} (net value : BitVec w) (len : Option ℕ) : Bool :=
  let len := len.getD w
  len ≤ w && masked net len == masked value len

def cidrMatches (cidr actual : Str) : Bool :=
  let netAndLen : Option (Str × Option ℕ) := match splitOnce '/' cidr with
    | some (n, p) => (parseUnsigned (2 ^ 32) p).map fun p => (n, some p)
    | none => some (cidr, none)
  match netAndLen with
  | none => false
  | some (net, len) =>
    match R.parseIp net, R.parseIp actual with
    | some (.v4 n), some (.v4 v) => sameNet n v len
    | some (.v6 n), some (.v6 v) => sameNet n v len
    | _, _ => false

def numericHolds (actual : ℚ) (op threshold : Json) : Bool :=
  match valueF64 R threshold, op.asStr with
  | some t, some o =>
    if o = "=" then actual == t
    else if o = "<" then decide (actual < t)
    else if o = "<=" then decide (actual ≤ t)
    else if o = ">" then decide (actual > t)
    else if o = ">=" then decide (actual ≥ t)
    else false
  | _, _ => false

/-- Pairs of operator and value, all of which hold. -/
def numericPairs (actual : ℚ) : List Json → Bool
  | [] => true
  | [_] => false
  | op :: threshold :: rest => numericHolds R actual op threshold && numericPairs actual rest

def numericMatches (arg leaf : Json) : Bool :=
  match valueF64 R leaf, arg.asArray with
  | some actual, some pairs => !pairs.isEmpty && pairs.length % 2 == 0 && numericPairs R actual pairs
  | _, _ => false

/-- `prefix` and `suffix` take a string or `{"equals-ignore-case": "..."}`. -/
def stringOp (arg : Json) (leaf : Option Str) (exact_ ignoreCase : Str → Str → Bool) : Bool :=
  match leaf, arg with
  | some v, .str p => exact_ p v
  | some v, .obj o =>
    match (getMember o "equals-ignore-case").bind Json.asStr with
    | some p => ignoreCase p v
    | none => false
  | _, _ => false

/-- One string, or a list of strings; nothing for a leaf that is not a string. -/
def anyString (leaf : Option Str) (arg : Json) (pred : Str → Str → Bool) : Option Bool :=
  match leaf, arg with
  | some v, .str p => some (pred p v)
  | some v, .arr a => some ((a.filterMap Json.asStr).any fun p => pred p v)
  | _, _ => none

/-- The matchers that `anything-but` can exclude, in the order in which they are looked for. -/
def excluders : List (Str × (Str → Str → Bool)) :=
  [("prefix", fun p v => p.isPrefixOf v), ("suffix", fun p v => p.isSuffixOf v),
    ("equals-ignore-case", equalsIc R), ("wildcard", wildcardMatches), ("cidr", cidrMatches R)]

def anythingButMatches (arg leaf : Json) : Bool :=
  match arg with
  | .str _ | .num _ => !scalarsEqual R arg leaf
  | .arr list => !list.any fun v => scalarsEqual R v leaf
  | .obj nested =>
    match (excluders R).findSome? fun e => (getMember nested e.1).map fun p => (p, e.2) with
    | none => false
    | some (p, pred) =>
      match anyString leaf.asStr p pred with
      | some hit => !hit
      | none => leaf.asStr.isNone
  | _ => false

def bothStrings (arg : Json) (leaf : Option Str) (pred : Str → Str → Bool) : Bool :=
  match arg.asStr, leaf with
  | some p, some v => pred p v
  | _, _ => false

/-- The operators, in the order in which they are looked for. -/
def operators (leaf : Json) : List (Str × (Json → Bool)) :=
  let s := leaf.asStr
  [("prefix", fun arg => stringOp arg s (fun p v => p.isPrefixOf v) fun p v => startsWithIc R v p),
    ("suffix", fun arg => stringOp arg s (fun p v => p.isSuffixOf v) fun p v => endsWithIc R v p),
    ("equals-ignore-case", fun arg => bothStrings arg s (equalsIc R)),
    ("wildcard", fun arg => bothStrings arg s wildcardMatches),
    ("cidr", fun arg => bothStrings arg s (cidrMatches R)),
    ("numeric", fun arg => numericMatches R arg leaf),
    ("anything-but", fun arg => anythingButMatches R arg leaf)]

def matchOperator (op : List (Str × Json)) (leaf : Json) : Bool :=
  ((operators R leaf).findSome? fun e => (getMember op e.1).map e.2).getD false

/-- One entry of a constraint list against one scalar. -/
def matchLeaf (entry leaf : Json) : Bool :=
  match entry with
  | .obj op => matchOperator R op leaf
  | literal => scalarsEqual R literal leaf

mutual

/-- The scalars of a value: arrays are flattened, objects contribute nothing. -/
def collectLeaves : Json → List Json
  | .arr items => collectItems items
  | .obj _ => []
  | scalar => [scalar]

def collectItems : List Json → List Json
  | [] => []
  | item :: items => collectLeaves item ++ collectItems items

end

/-- One entry of a constraint list against the scalars of a field. -/
def matchEntry (leaves : List Json) (entry : Json) : Bool :=
  match entry.asObject.bind fun o => getMember o "exists" with
  | some (.bool true) => !leaves.isEmpty
  | some (.bool false) => leaves.isEmpty
  | some _ => false
  | none => leaves.any fun leaf => matchLeaf R entry leaf

def matchList (list : List Json) (field : Option Json) : Bool :=
  let leaves := (field.map collectLeaves).getD []
  list.any (matchEntry R leaves)

end Leaves

/-! ## The check and the matcher -/

def orKey : Str := "$or"

mutual

def isValidStructure : Json → Bool
  | .obj members => validMembers members
  | _ => false

def validMembers : List (Str × Json) → Bool
  | [] => true
  | (k, v) :: members =>
    (match v with
      | .obj o => isValidStructure (.obj o)
      | .arr alts => if k = orKey then validAlternatives alts else true
      | _ => false) && validMembers members

def validAlternatives : List Json → Bool
  | [] => true
  | alt :: alts => isValidStructure alt && validAlternatives alts

end

mutual

/-- The nodes that a node stands for: an array stands for its elements, an empty one for nothing. -/
def crush : Json → List (Option Json)
  | .arr [] => [none]
  | .arr (item :: items) => crush item ++ crushItems items
  | node => [some node]

def crushItems : List Json → List (Option Json)
  | [] => []
  | item :: items => crush item ++ crushItems items

end

def crushed : Option Json → List (Option Json)
  | none => [none]
  | some node => crush node

def child (node : Option Json) (key : Str) : Option Json :=
  match node with
  | some (.obj o) => getMember o key
  | _ => none

section Matcher

variable (R : Readers)

mutual

/-- `match_object`, for a pattern that is an object; other patterns never match. -/
def matchObject : Json → Option Json → Bool
  | .obj members, node => (crushed node).any fun n => matchMembers members n && matchOr members n
  | _, _ => false

/-- The members other than `$or`. -/
def matchMembers : List (Str × Json) → Option Json → Bool
  | [], _ => true
  | (k, sub) :: members, node =>
    (if k = orKey then true
      else
        match sub with
        | .obj o => matchObject (.obj o) (child node k)
        | .arr list => matchList R list (child node k)
        | _ => false) && matchMembers members node

/-- The `$or` member; one that is not a list is skipped. -/
def matchOr : List (Str × Json) → Option Json → Bool
  | [], _ => true
  | (k, sub) :: members, node =>
    if k = orKey then
      match sub with
      | .arr alternatives => matchAlternatives alternatives node
      | _ => true
    else matchOr members node

def matchAlternatives : List Json → Option Json → Bool
  | [], _ => false
  | alt :: alts, node => matchObject alt node || matchAlternatives alts node

end

def matches_ (pattern event : Json) : Bool := matchObject R pattern (some event)

end Matcher

/-! ## The recursions, in one piece -/

section Unfolding

variable {R : Readers} {members : List (Str × Json)} {node : Option Json}

def validMember (k : Str) : Json → Bool
  | .obj o => isValidStructure (.obj o)
  | .arr alts => if k = orKey then alts.all isValidStructure else true
  | _ => false

theorem validAlternatives_eq (alts : List Json) : validAlternatives alts = alts.all isValidStructure := by
  induction alts with
  | nil => rfl
  | cons alt alts ih => rw [validAlternatives, ih, all_cons]

theorem validMembers_eq (members : List (Str × Json)) :
    validMembers members = members.all fun m => validMember m.1 m.2 := by
  induction members with
  | nil => rfl
  | cons m members ih =>
    obtain ⟨k, v⟩ := m
    rw [all_cons, ← ih]
    cases v <;> simp [validMembers, validMember, validAlternatives_eq]

theorem any_crushItems (p : Option Json → Bool) (items : List Json) :
    (crushItems items).any p = items.any fun item => (crush item).any p := by
  induction items with
  | nil => rfl
  | cons item items ih => rw [crushItems, any_append, any_cons, ih]

/-- An array matches when one of its elements does, an empty one as nothing does. -/
theorem matchObject_arr (items : List Json) : matchObject R (.obj members) (some (.arr items)) =
      if items.isEmpty then matchObject R (.obj members) none
      else items.any fun item => matchObject R (.obj members) (some item) := by
  rcases items with _ | ⟨item, items⟩
  · rfl
  · simp only [matchObject, crushed, crush, any_append, any_crushItems]
    rfl

def matchMember (R : Readers) (node : Option Json) (k : Str) : Json → Bool
  | .obj o => matchObject R (.obj o) (child node k)
  | .arr list => matchList R list (child node k)
  | _ => false

theorem matchMembers_eq : matchMembers R members node =
      members.all fun m => m.1 == orKey || matchMember R node m.1 m.2 := by
  induction members with
  | nil => rfl
  | cons m members ih =>
    obtain ⟨k, sub⟩ := m
    rw [all_cons, ← ih]
    by_cases hk : k = orKey
    · cases sub <;> simp [matchMembers, hk]
    · have hb : (k == orKey) = false := beq_eq_false_iff_ne.mpr hk
      cases sub <;> simp [matchMembers, matchMember, hk, hb]

theorem matchAlternatives_eq (alts : List Json) :
    matchAlternatives R alts node = alts.any fun alt => matchObject R alt node := by
  induction alts with
  | nil => rfl
  | cons alt alts ih => rw [matchAlternatives, ih, any_cons]

theorem matchOr_eq : matchOr R members node =
      match getMember members orKey with
      | some (.arr alts) => alts.any fun alt => matchObject R alt node
      | _ => true := by
  induction members with
  | nil => rfl
  | cons m members ih =>
    obtain ⟨k, sub⟩ := m
    rw [getMember] at ih
    rw [getMember, lookup_cons]
    by_cases hk : k = orKey
    · cases sub <;> simp [matchOr, hk, matchAlternatives_eq]
    · rw [beq_eq_false_iff_ne.mpr (Ne.symm hk)]
      cases sub <;> simpa [matchOr, hk] using ih

end Unfolding

end Fakecloud.Aws.EventPattern
