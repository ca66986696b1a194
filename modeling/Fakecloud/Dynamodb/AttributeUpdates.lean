import Fakecloud.Dynamodb.Update
import Fakecloud.Dynamodb.Writes
import Mathlib

/-!
# Attribute updates

The way to update an item that came before expressions: for each attribute an action, `PUT`, `DELETE` or
`ADD`, and the value it takes.
-/

namespace Fakecloud.Dynamodb

open Text List Option

/-- For each attribute an action and, if it has one, the value it takes. -/
abbrev AttributeUpdates := AList fun _ : Str => Json

namespace AttributeUpdate

def action (spec : Json) : Str := ((spec.field "Action").bind Json.asStr).getD "PUT"

def value (spec : Json) : Option AttributeValue := spec.field "Value"

def normalize (spec : Json) : Json :=
  match value spec with
  | some v => setField "Value" (normalizeValueNumbers v) spec
  | none => spec

end AttributeUpdate

def addToAttribute (attr : Str) (existing : Option AttributeValue) (val : AttributeValue) :
    Except ServiceError AttributeValue :=
  match existing with
  | none => .ok val
  | some cur =>
    match numberText cur, numberText val with
    | some a, some b =>
      match decimalAddSub a b true with
      | some sum => .ok (number sum)
      | none => .error (validationError "ADD operand is not a number")
    | _, _ =>
      match setTypes.find? fun t => (membersOf t cur).isSome && (membersOf t val).isSome with
      | some t =>
          .ok (.obj [(t, .arr (unionMembers t ((membersOf t cur).getD []) ((membersOf t val).getD [])))])
      | none => .error (validationError
          ("ADD is only supported for number and set types for attribute " ++ attr))

/-- Takes members out of a set; one that is empty stays. -/
def removeSetElements (cur val : AttributeValue) : AttributeValue :=
  match setTypes.find? fun t => (membersOf t val).isSome with
  | none => cur
  | some t =>
    match membersOf t cur with
    | none => cur
    | some members =>
      let gone := (membersOf t val).getD []
      setField t (.arr (members.filter fun e => !gone.any fun r => sameMember t r e)) cur

def applyAttributeUpdate (item : Item) (attr : Str) (spec : Json) : Except ServiceError Item :=
  let action := AttributeUpdate.action spec
  if action = "PUT" then
    .ok ((AttributeUpdate.value spec).elim item (item.insert attr))
  else if action = "DELETE" then
    match AttributeUpdate.value spec, item.lookup attr with
    | none, _ => .ok (item.erase attr)
    | some _, none => .ok item
    | some val, some cur => .ok (item.insert attr (removeSetElements cur val))
  else if action = "ADD" then
    match AttributeUpdate.value spec with
    | none => .ok item
    | some val => (addToAttribute attr (item.lookup attr) val).map (item.insert attr)
  else .error (validationError ("Unknown AttributeUpdates action: " ++ action))

def applyAttributeUpdates (item : Item) (updates : AttributeUpdates) : Except ServiceError Item :=
  updates.entries.foldlM (fun item e => applyAttributeUpdate item e.1 (AttributeUpdate.normalize e.2)) item

/-! ## Against update expressions -/

/-- An attribute value: one tag, and what it tags. -/
def IsTagged (v : AttributeValue) : Prop := ∃ tag inner, v = .obj [(tag, inner)]

/-- Two updates of an item agree: both fail, or both leave the same attributes. -/
def SameOutcome (x y : Except ServiceError Item) : Prop :=
  x.toOption.map (fun item k => item.lookup k) = y.toOption.map fun item k => item.lookup k

def legacyUpdate (action : String) (attr : Str) (v : AttributeValue) : AttributeUpdates :=
  AList.insert attr (.obj [("Action", .str action.toList), ("Value", v)]) ∅

def expressionUpdate (item : Item) (action : String) (attr : Str) (v : AttributeValue) :
    Except ServiceError Item :=
  applyUpdateExpression (AList.insert "#a" attr ∅)
    (normalizeItemNumbers (AList.insert ":v" v ∅)) item (action.toList ++ " #a :v")

/-- `ADD` agrees: what is put on no attribute is a number or a set, and a sum is in the range. -/
structure AddAgrees (existing : Option AttributeValue) (v : AttributeValue) : Prop where
  absent : existing = none → isWellformedAddOperand v = true
  sum : ∀ old x y, existing = some old → numberText old = some x → numberText v = some y →
    ∃ sum, decimalAddSub x y true = some sum ∧ checkNumberRange sum = .ok ()

/-- `DELETE` agrees: both values are sets of one type, and a member is left. -/
def DeleteAgrees (existing : Option AttributeValue) (v : AttributeValue) : Prop :=
  ∀ old, existing = some old → ∃ t ∈ setTypes, ∃ a b, membersOf t old = some a ∧ membersOf t v = some b ∧
    ∃ m ∈ a, b.any (sameMember t · m) = false

section Agreement

variable {item : Item} {attr t : Str} {v old : AttributeValue} {a : List Json}

theorem expressionUpdate_eq {action : String} {a : UpdateAction}
    (ha : actionsOf (action.toList ++ " #a :v".toList) = [(a, 0, "#a :v".toList)]) :
    expressionUpdate item action attr v = (stepAction (AList.insert "#a" attr ∅)
      (normalizeItemNumbers (AList.insert ":v" v ∅)) item a 0 "#a :v" (item, [])).map Prod.fst := by
  have hc : parseUpdateClauses (action.toList ++ " #a :v") ≠ [] := by
    intro hn
    rw [actionsOf, hn] at ha
    cases ha
  rw [expressionUpdate, applyUpdateExpression, applyUpdateExpressionTracked, if_neg fun h => hc h.1, ha]
  simp only [foldlM_cons, foldlM_nil, bind_pure]

theorem operandOf_placeholders : operandOf (AList.insert "#a" attr ∅)
    (normalizeItemNumbers (AList.insert ":v" v ∅)) "#a :v" = some (attr, normalizeValueNumbers v) := rfl

theorem expression_add : expressionUpdate item "ADD" attr v =
    (addTo attr (item.lookup attr) (normalizeValueNumbers v)).map (item.insert attr) := by
  rw [expressionUpdate_eq (a := .add) (by decide +kernel), stepAction, applyAddAssignment,
    operandOf_placeholders]
  dsimp only
  rcases addTo attr (item.lookup attr) (normalizeValueNumbers v) with e | new <;> rfl

theorem expression_delete : expressionUpdate item "DELETE" attr v = match item.lookup attr with
    | none => .ok item
    | some old => (deleteFrom attr old (normalizeValueNumbers v)).map fun left =>
      left.elim (item.erase attr) (item.insert attr) := by
  rw [expressionUpdate_eq (a := .delete) (by decide +kernel), stepAction, applyDeleteAssignment,
    operandOf_placeholders]
  dsimp only
  rcases item.lookup attr with _ | old
  · rfl
  · rcases hl : deleteFrom attr old (normalizeValueNumbers v) with e | left <;> simp [hl, Except.map]

theorem legacy_add : applyAttributeUpdates item (legacyUpdate "ADD" attr v) =
    (addToAttribute attr (item.lookup attr) (normalizeValueNumbers v)).map (item.insert attr) := by
  change (applyAttributeUpdate item attr _ >>= fun s => pure s) = _
  rw [bind_pure]
  rfl

theorem legacy_delete :
    applyAttributeUpdates item (legacyUpdate "DELETE" attr v) = match item.lookup attr with
    | none => .ok item
    | some old => .ok (item.insert attr (removeSetElements old (normalizeValueNumbers v))) := by
  change (applyAttributeUpdate item attr _ >>= fun s => pure s) = _
  rw [bind_pure]
  change (match some (normalizeValueNumbers v), item.lookup attr with
    | none, _ => Except.ok (item.erase attr)
    | some _, none => .ok item
    | some val, some cur => .ok (item.insert attr (removeSetElements cur val))) = _
  rcases item.lookup attr with _ | old <;> rfl

theorem IsTagged.normalize (h : IsTagged v) : IsTagged (normalizeValueNumbers v) := by
  obtain ⟨tag, inner, rfl⟩ := h
  exact ⟨tag, normalizeInner tag inner, rfl⟩

/-- Only under its tag a value has anything. -/
theorem IsTagged.membersOf_inj (h : IsTagged v) {t t' : Str} {a b : List Json} (ha : membersOf t v = some a)
    (hb : membersOf t' v = some b) : t = t' ∧ v = .obj [(t, .arr a)] := by
  obtain ⟨tag, inner, rfl⟩ := h
  have htg : ∀ {t : Str} {a : List Json}, membersOf t (.obj [(tag, inner)]) = some a →
      t = tag ∧ inner = .arr a := by
    intro t a ha
    obtain ⟨x, hx, ha⟩ := bind_eq_some_iff.mp ha
    by_cases ht : t = tag
    · subst ht
      simp only [Json.field, lookup_cons_self, some.injEq] at hx
      subst hx
      cases inner <;> simp_all [Json.asArray]
    · have hbq : (t == tag) = false := by simpa using ht
      simp [Json.field, List.lookup, hbq] at hx
  obtain ⟨rfl, rfl⟩ := htg ha
  exact ⟨(htg hb).1.symm, rfl⟩

theorem find_both_eq (ho : IsTagged old) (h : membersOf t old = some a) (ht : t ∈ setTypes) :
    (setTypes.find? fun t => (membersOf t old).isSome && (membersOf t v).isSome) =
      (membersOf t v).map fun _ => t := by
  have hu : ∀ t', (membersOf t' old).isSome = true → t' = t := fun t' h' =>
    (ho.membersOf_inj (Option.get_mem h') h).1
  rcases hf : setTypes.find? fun t => (membersOf t old).isSome && (membersOf t v).isSome with _ | t'
  · have hn := find?_eq_none.mp hf t ht
    rcases hb : membersOf t v with _ | b
    · rfl
    · simp [h, hb] at hn
  · have hbt := find?_some hf
    rw [Bool.and_eq_true] at hbt
    obtain rfl := hu t' hbt.1
    obtain ⟨b, hb⟩ := isSome_iff_exists.mp hbt.2
    rw [hb, map_some]

theorem find_old_eq (ho : IsTagged old) (h : membersOf t old = some a) (ht : t ∈ setTypes) :
    (setTypes.find? fun t => (membersOf t old).isSome) = some t := by
  have := find_both_eq (v := old) ho h ht
  simpa [h] using this

/-- Two values that are not both numbers are added alike. -/
theorem sets_agree (ho : IsTagged old) (hn : ∀ x y, ¬ (numberText old = some x ∧ numberText v = some y)) :
    (addToAttribute attr (some old) v).toOption = (addTo attr (some old) v).toOption := by
  have hl : addToAttribute attr (some old) v =
      match setTypes.find? fun t => (membersOf t old).isSome && (membersOf t v).isSome with
      | some t =>
          .ok (.obj [(t, .arr (unionMembers t ((membersOf t old).getD []) ((membersOf t v).getD [])))])
      | none => .error (validationError
          ("ADD is only supported for number and set types for attribute " ++ attr)) := by
    rw [addToAttribute]
    split
    next hx hy => exact absurd ⟨hx, hy⟩ (hn _ _)
    next => rfl
  have he : addTo attr (some old) v = match setTypes.find? fun t => (membersOf t old).isSome with
      | none => .error (typeMismatch attr)
      | some t =>
        match membersOf t v with
        | none => .error (typeMismatch attr)
        | some new => .ok (.obj [(t, .arr (unionMembers t ((membersOf t old).getD []) new))]) := by
    rw [addTo]
    split
    next hx hy => exact absurd ⟨hx, hy⟩ (hn _ _)
    next => rfl
  rw [hl, he]
  by_cases hst : ∃ t ∈ setTypes, (membersOf t old).isSome
  · obtain ⟨t, ht, hs⟩ := hst
    obtain ⟨a, ha⟩ := isSome_iff_exists.mp hs
    rw [find_both_eq ho ha ht, find_old_eq ho ha ht]
    rcases hb : membersOf t v with _ | b
    · simp [hb, Except.toOption]
    · simp [hb]
  · have hnn : ∀ t ∈ setTypes, membersOf t old = none := by simpa using hst
    have hf : (setTypes.find? fun t => (membersOf t old).isSome) = none :=
      find?_eq_none.mpr fun t ht => by simp [hnn t ht]
    have hbt : (setTypes.find? fun t => (membersOf t old).isSome && (membersOf t v).isSome) = none :=
      find?_eq_none.mpr fun t ht => by simp [hnn t ht]
    rw [hbt, hf]
    simp only [Except.toOption]

theorem sameOutcome_insert {x y : Except ServiceError AttributeValue} :
    SameOutcome (x.map (item.insert attr)) (y.map (item.insert attr)) ↔ x.toOption = y.toOption := by
  have hi : ∀ a b : AttributeValue,
      ((fun k => (item.insert attr a).lookup k) = fun k => (item.insert attr b).lookup k) ↔ a = b := by
    refine fun a b => ⟨fun h => ?_, fun h => by rw [h]⟩
    simpa using congrFun h attr
  rcases x with e | a <;> rcases y with e' | b <;> simp [SameOutcome, Except.map, Except.toOption, hi]

theorem sameOutcome_add_iff (ho : ∀ old, item.lookup attr = some old → IsTagged old) :
    SameOutcome ((addToAttribute attr (item.lookup attr) v).map (item.insert attr))
      ((addTo attr (item.lookup attr) v).map (item.insert attr)) ↔ AddAgrees (item.lookup attr) v := by
  rw [sameOutcome_insert]
  rcases he : item.lookup attr with _ | old
  · rw [addToAttribute, addTo]
    constructor
    · intro h
      refine ⟨fun _ => ?_, by simp⟩
      by_contra hb
      rw [if_neg hb] at h
      cases h
    · intro h
      rw [if_pos (h.absent rfl)]
  · have ho := ho old he
    constructor
    · refine fun h => ⟨by simp, fun old' x y heq hx hy => ?_⟩
      obtain rfl := some.inj heq
      simp only [addToAttribute, addTo, hx, hy] at h
      rcases hs : decimalAddSub x y true with _ | sum
      · simp [hs, Except.toOption] at h
      · refine ⟨sum, rfl, ?_⟩
        rcases hr : checkNumberRange sum with e | ⟨⟨⟩⟩
        · simp [hs, hr, bind, Except.bind, Except.toOption] at h
        · rfl
    · intro h
      rcases hx : numberText old with _ | x
      · exact sets_agree ho (by simp [hx])
      · rcases hy : numberText v with _ | y
        · exact sets_agree ho (by simp [hy])
        · obtain ⟨sum, hs, hr⟩ := h.sum old x y rfl hx hy
          simp [addToAttribute, addTo, hx, hy, hs, hr, bind, Except.bind]

theorem sameOutcome_delete_iff (ho : IsTagged old) (hv : IsTagged v) :
    SameOutcome (.ok (item.insert attr (removeSetElements old v)))
      ((deleteFrom attr old v).map fun left => left.elim (item.erase attr) (item.insert attr)) ↔
        DeleteAgrees (some old) v := by
  have hf : deleteFrom attr old v =
      match setTypes.find? fun t => (membersOf t old).isSome && (membersOf t v).isSome with
      | none => .error (typeMismatch attr)
      | some t =>
        let left := ((membersOf t old).getD []).filter fun m =>
          !((membersOf t v).getD []).any (sameMember t · m)
        .ok (if left.isEmpty then none else some (.obj [(t, .arr left)])) := rfl
  rw [hf]
  by_cases hs : ∃ t ∈ setTypes, ∃ a b, membersOf t old = some a ∧ membersOf t v = some b
  · obtain ⟨t, ht, a, b, ha, hb⟩ := hs
    rw [find_both_eq ho ha ht, hb]
    dsimp only [map_some]
    rw [ha, hb]
    have hr : removeSetElements old v = .obj [(t, .arr (a.filter fun m => !b.any (sameMember t · m)))] := by
      unfold removeSetElements
      rw [find_old_eq hv hb ht]
      dsimp only
      rw [ha, hb, (ho.membersOf_inj ha ha).2]
      simp [setField, replaceField]
    have hag : DeleteAgrees (some old) v ↔ (a.filter fun m => !b.any (sameMember t · m)) ≠ [] := by
      constructor
      · intro h
        obtain ⟨t', -, a', b', ha', hb', m, hm, hl⟩ := h old rfl
        obtain rfl := (ho.membersOf_inj ha' ha).1
        obtain rfl := some.inj (ha'.symm.trans ha)
        obtain rfl := some.inj (hb'.symm.trans hb)
        exact ne_nil_of_mem (mem_filter.mpr ⟨hm, by rw [hl]; rfl⟩)
      · intro hne old' heq
        obtain ⟨m, hm⟩ := exists_mem_of_ne_nil _ hne
        obtain rfl := some.inj heq
        obtain ⟨hm, hl⟩ := mem_filter.mp hm
        exact ⟨t, ht, a, b, ha, hb, m, hm, by simpa using hl⟩
    rw [hr, hag]
    dsimp only [getD_some]
    by_cases he : (a.filter fun m => !b.any (sameMember t · m)) = []
    · rw [if_pos (List.isEmpty_iff.mpr he)]
      refine iff_of_false (fun h => ?_) (not_not_intro he)
      have hat := congrFun (some.inj h) attr
      simp at hat
    · rw [if_neg fun h => he (List.isEmpty_iff.mp h)]
      exact iff_of_true rfl he
  · have hn : (setTypes.find? fun t => (membersOf t old).isSome && (membersOf t v).isSome) = none := by
      refine find?_eq_none.mpr fun t ht hbt => hs ⟨t, ht, ?_⟩
      simpa [isSome_iff_exists] using hbt
    rw [hn]
    refine iff_of_false (fun h => nomatch h) fun h => hs ?_
    obtain ⟨t, ht, a, b, ha, hb, -⟩ := h old rfl
    exact ⟨t, ht, a, b, ha, hb⟩

/-- **Attribute updates against expressions.**  On values with one tag, `ADD` and `DELETE` as an attribute
update and as an expression accept the same and leave the same, exactly under these conditions. -/
theorem attribute_updates_agree_iff (hv : IsTagged v)
    (hold : ∀ old, item.lookup attr = some old → IsTagged old) :
    (SameOutcome (applyAttributeUpdates item (legacyUpdate "ADD" attr v))
      (expressionUpdate item "ADD" attr v) ↔
      AddAgrees (item.lookup attr) (normalizeValueNumbers v)) ∧
    (SameOutcome (applyAttributeUpdates item (legacyUpdate "DELETE" attr v))
        (expressionUpdate item "DELETE" attr v) ↔
      DeleteAgrees (item.lookup attr) (normalizeValueNumbers v)) := by
  constructor
  · rw [legacy_add, expression_add]
    exact sameOutcome_add_iff hold
  · rw [legacy_delete, expression_delete]
    rcases hl : item.lookup attr with _ | old
    · exact iff_of_true rfl nofun
    · exact sameOutcome_delete_iff (hold old hl) hv.normalize

end Agreement

namespace Example

def tagged (v : AttributeValue) : Item := AList.insert "tags" v ∅

def strings (members : List String) : AttributeValue :=
  .obj [("SS", .arr (members.map fun m => .str m.toList))]

/-- **The last member of a set.**  The expression removes the attribute; the attribute update leaves an empty
set. -/
theorem last_member_deleted :
    (applyAttributeUpdates (tagged (strings ["a"]))
      (legacyUpdate "DELETE" "tags" (strings ["a"]))).toOption.map
      (·.lookup "tags".toList) = some (some (strings [])) ∧
    (expressionUpdate (tagged (strings ["a"])) "DELETE" "tags" (strings ["a"])).toOption.map
      (·.lookup "tags".toList) = some none := by
  decide +kernel

theorem attribute_updates_agree_two :
    SameOutcome
      (applyAttributeUpdates (tagged (strings ["a", "b"])) (legacyUpdate "DELETE" "tags" (strings ["a"])))
      (expressionUpdate (tagged (strings ["a", "b"])) "DELETE" "tags" (strings ["a"])) := by
  refine (attribute_updates_agree_iff ⟨_, _, rfl⟩ fun old hl => ?_).2.mpr fun old hl => ?_
  · obtain rfl := some.inj hl
    exact ⟨_, _, rfl⟩
  · obtain rfl := some.inj hl
    exact ⟨"SS", by decide, _, _, rfl, rfl, .str ['b'], by simp, by decide +kernel⟩

end Example

end Fakecloud.Dynamodb
