import Fakecloud.Lib.Text

/-!
# JSON values

A parsed document; a number keeps its text, an object its fields in order.
-/

namespace Text

inductive Json
  | null
  | bool (b : Bool)
  | num (text : Str)
  | str (s : Str)
  | arr (items : List Json)
  | obj (fields : List (Str × Json))

namespace Json

def field (key : Str) : Json → Option Json
  | obj fields => fields.lookup key
  | _ => none

def asStr : Json → Option Str
  | str s => some s
  | _ => none

def asArray : Json → Option (List Json)
  | arr items => some items
  | _ => none

def asObject : Json → Option (List (Str × Json))
  | obj fields => some fields
  | _ => none

mutual

/-- A value and all that is inside of it. -/
def parts : Json → List Json
  | arr items => arr items :: itemParts items
  | obj fields => obj fields :: fieldParts fields
  | value => [value]

def itemParts : List Json → List Json
  | [] => []
  | value :: items => parts value ++ itemParts items

def fieldParts : List (Str × Json) → List Json
  | [] => []
  | (_, value) :: fields => parts value ++ fieldParts fields

end

end Json

end Text
