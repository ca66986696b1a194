import Fakecloud.Dynamodb.Expression

/-!
# Documents

An attribute value as a tree of maps and lists, read, written and removed at document paths.  A final
list index past the end appends, and a list closes up behind an element that is removed.
-/

namespace Fakecloud.Dynamodb

open Text OrdMap

/-! ## Maps and lists -/

/-- The first field of a name gets another value. -/
def replaceField (key : Str) (new : Json) : List (Str × Json) → List (Str × Json)
  | [] => []
  | e :: fields => if e.1 = key then (e.1, new) :: fields else e :: replaceField key new fields

def setField (key : Str) (new : Json) : Json → Json
  | .obj fields => .obj (replaceField key new fields)
  | v => v

def mapOf (v : AttributeValue) : Option (List (Str × Json)) := (v.field ['M']).bind Json.asObject

def listOf (v : AttributeValue) : Option (List Json) := (v.field ['L']).bind Json.asArray

def withMap (m : List (Str × Json)) (v : AttributeValue) : AttributeValue := setField ['M'] (.obj m) v

def withList (l : List Json) (v : AttributeValue) : AttributeValue := setField ['L'] (.arr l) v

/-! ## One step down -/

namespace PathElem

def child : PathElem → AttributeValue → Option AttributeValue
  | .attr k, v => (mapOf v).bind (List.lookup k)
  | .index i, v => (listOf v).bind (·[i]?)

def withChild (new : AttributeValue) : PathElem → AttributeValue → AttributeValue
  | .attr k, v => (mapOf v).elim v fun m => withMap (replaceField k new m) v
  | .index i, v => (listOf v).elim v fun l => withList (l.set i new) v

end PathElem

/-! ## Paths -/

def readAt : DocPath → AttributeValue → Option AttributeValue
  | [], v => some v
  | e :: p, v => (e.child v).bind (readAt p)

def resolveDocPath (item : Item) : DocPath → Option AttributeValue
  | .attr name :: p => (item.lookup name).bind (readAt p)
  | _ => none

/-- A value at the last step of a path, and the list index that it got. -/
def assignLeaf (value : AttributeValue) : PathElem → AttributeValue → Option (AttributeValue × Option ℕ)
  | .attr k, v => (mapOf v).map fun m => (withMap (insertEntry compare k value m) v, none)
  | .index i, v => (listOf v).map fun l =>
    if i < l.length then (withList (l.set i value) v, some i)
    else (withList (l ++ [value]) v, some l.length)

def assignAt (value : AttributeValue) : DocPath → AttributeValue → Option (AttributeValue × Option ℕ)
  | [], _ => none
  | [leaf], v => assignLeaf value leaf v
  | e :: e' :: p, v => (e.child v).bind fun c =>
    (assignAt value (e' :: p) c).map fun (c', i) => (e.withChild c' v, i)

def removeLeaf : PathElem → AttributeValue → AttributeValue
  | .attr k, v => (mapOf v).elim v fun m => withMap (m.filter fun e => e.1 ≠ k) v
  | .index i, v => (listOf v).elim v fun l => if i < l.length then withList (l.eraseIdx i) v else v

def removeAt : DocPath → AttributeValue → AttributeValue
  | [], v => v
  | [leaf], v => removeLeaf leaf v
  | e :: e' :: p, v => (e.child v).elim v fun c => e.withChild (removeAt (e' :: p) c) v

def invalidDocumentPath : ServiceError :=
  validationError "The document path provided in the update expression is invalid for update"

/-- Also the list index that was written, when the path ends in one. -/
def assignPath (item : Item) (p : DocPath) (value : AttributeValue) : Except ServiceError (Item × Option ℕ) :=
  match p with
  | [.attr top] => .ok (item.insert top value, none)
  | .attr top :: p =>
    match (item.lookup top).bind (assignAt value p) with
    | some (v, i) => .ok (item.insert top v, i)
    | none => .error invalidDocumentPath
  | _ => .error invalidDocumentPath

def assignNestedPath (item : Item) (path : Str) (names : Names) (value : AttributeValue) :
    Except ServiceError (Item × Option ℕ) :=
  match parseDocumentPath path names with
  | some p => assignPath item p value
  | none => .error invalidDocumentPath

def removeDocPath (item : Item) : DocPath → Item
  | [.attr k] => item.erase k
  | .attr top :: p => (item.lookup top).elim item fun v => item.insert top (removeAt p v)
  | _ => item

/-- A path that is not there is left alone. -/
def removePath (item : Item) (path : Str) (names : Names) : Item :=
  (parseDocumentPath path names).elim item (removeDocPath item)

/-! ## Where a value is found afterwards -/

/-- A path that ends in a list index, ending in the index that was written. -/
def landed (path : DocPath) (index : Option ℕ) : DocPath :=
  match index, path.getLast? with
  | some i, some (.index _) => path.dropLast ++ [.index i]
  | _, _ => path

/-- Paths through a list behind an element that is gone lead one place further down. -/
def shiftPath (removed path : DocPath) : DocPath :=
  match removed.getLast? with
  | some (.index j) =>
    let parent := removed.dropLast
    match path.drop parent.length with
    | .index k :: rest => if parent.isPrefixOf path ∧ j < k then parent ++ .index (k - 1) :: rest else path
    | _ => path
  | _ => path

end Fakecloud.Dynamodb
