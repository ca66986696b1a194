import Fakecloud.Cloudformation.Template
import Fakecloud.Lib.Kahn

/-!
# CloudFormation: dependencies among resources

A resource is created after those that it depends on: by `DependsOn`, or by `Ref`, `Fn::GetAtt` or `Fn::Sub`
in its properties.  `dependency_order` collects these names and sorts the definitions.  The template is the
one after the `ForEach` and the serverless transforms.
-/

namespace Fakecloud.Cloudformation

open Text List

/-! ## Collecting references -/

/-- The texts between `$\x7b` and the next brace; `some` when inside of one. -/
def scanTokens : Option Str → Str → List Str
  | none, '$' :: '\x7b' :: rest => scanTokens (some []) rest
  | none, _ :: rest => scanTokens none rest
  | some token, '\x7d' :: rest => token :: scanTokens none rest
  | some token, c :: rest => scanTokens (some (token ++ [c])) rest
  | _, [] => []

def subTokens (text : Str) : List Str := scanTokens none text

def beforeDot (s : Str) : Str := s.takeWhile fun c => c ≠ '.'

def tokenName (token : Str) : Str := trim (beforeDot token)

def collectSubRefs (known : List Str) (sub : Json) : List Str :=
  match subParts sub with
  | (none, _) => []
  | (some text, locals) =>
    (subTokens text).filterMap fun token =>
      -- an escape is no reference
      if token.head? = some '!' then none
      else if tokenName token ∉ locals ∧ tokenName token ∈ known then some (tokenName token) else none

def getAttName : Json → Option Str
  | .arr items => items.head?.bind Json.asStr
  | .str s => some (beforeDot s)
  | _ => none

/-- The references at the top of an object. -/
def ownRefs (known : List Str) (fields : List (Str × Json)) : List Str :=
  (((fields.lookup "Ref".toList).bind Json.asStr).toList ++
      ((fields.lookup "Fn::GetAtt".toList).bind getAttName).toList).filter (· ∈ known) ++
    ((fields.lookup "Fn::Sub".toList).map (collectSubRefs known)).getD []

mutual

def collectResourceRefs (known : List Str) : Json → List Str
  | .obj fields => ownRefs known fields ++ collectFieldRefs known fields
  | .arr items => collectItemRefs known items
  | _ => []

def collectFieldRefs (known : List Str) : List (Str × Json) → List Str
  | [] => []
  | (_, value) :: fields => collectResourceRefs known value ++ collectFieldRefs known fields

def collectItemRefs (known : List Str) : List Json → List Str
  | [] => []
  | value :: items => collectResourceRefs known value ++ collectItemRefs known items

end

/-! ## The order -/

def dependsOn (raw : Json) : List Str :=
  match raw.field "DependsOn" with
  | some (.str s) => [s]
  | some (.arr items) => items.filterMap Json.asStr
  | _ => []

def rawProperties (resources : List (Str × Json)) (id : Str) : Json :=
  propertiesOf ((resources.lookup id).getD .null)

section Order

variable (resources : List (Str × Json)) (ids : List Str)

/-- What a resource refers to, by name. -/
def resourceRefs (id : Str) : List Str :=
  match resources.lookup id with
  | none => []
  | some raw => dependsOn raw ++ ((raw.field "Properties").map (collectResourceRefs ids)).getD []

/-- What a resource is created after, by index. -/
def dependencies (i : ℕ) : List ℕ :=
  match ids[i]? with
  | none => []
  | some id => (List.range ids.length).filter fun j => j ≠ i ∧ ∃ name ∈ resourceRefs resources ids id,
      ids[j]? = some name

def dependencyOrder : List ℕ :=
  if ids.length < 2 then List.range ids.length else Kahn.sort ids.length (dependencies resources ids)

end Order

/-- `dependency_order`; without resources that is the order of the definitions. -/
def Templates.dependencyOrder (T : Templates) (templateBody : Str) (parameters : Params)
    (definitions : List ResourceDefinition) : List ℕ :=
  match T.resources templateBody parameters with
  | .error _ => List.range definitions.length
  | .ok resources => Cloudformation.dependencyOrder resources (definitions.map ResourceDefinition.logicalId)

theorem mem_ordered {order : List ℕ} {definitions : List ResourceDefinition} {d : ResourceDefinition}
    (hd : d ∈ order.filterMap fun i => definitions[i]?) : d ∈ definitions := by
  obtain ⟨i, -, hi⟩ := mem_filterMap.mp hd
  exact mem_of_getElem? hi

/-! ## References -/

/-- The tokens of a text, wherever they start. -/
def writtenTokens : Str → List Str
  | '$' :: '\x7b' :: rest => ((splitOnce '\x7d' rest).map Prod.fst).toList ++ writtenTokens rest
  | _ :: rest => writtenTokens rest
  | [] => []

/-- The fields of an object refer to a logical id. -/
inductive RefersTo (name : Str) (fields : List (Str × Json)) : Prop
  | ref (hvalue : fields.lookup "Ref".toList = some (.str name))
  | getAtt {value : Json} (hvalue : fields.lookup "Fn::GetAtt".toList = some value)
      (hname : getAttName value = some name)
  /-- a variable hides the token that is its name -/
  | sub {value : Json} {text token : Str} {locals : List Str}
      (hvalue : fields.lookup "Fn::Sub".toList = some value)
      (hparts : subParts value = (some text, locals)) (htoken : token ∈ writtenTokens text)
      (hescape : token.head? ≠ some '!') (hlocal : token ∉ locals) (hname : tokenName token = name)

/-- The properties refer to a logical id. -/
def Mentions (name : Str) (value : Json) : Prop := ∃ fields, .obj fields ∈ value.parts ∧ RefersTo name fields

/-- A token of a resource is hidden from `dependency_order` just when the resolution takes it for a variable,
and no token before it is left open. -/
def TokensAgree (known : List Str) (value : Json) : Prop :=
  ∀ fields sub text locals, .obj fields ∈ value.parts → fields.lookup "Fn::Sub".toList = some sub →
    subParts sub = (some text, locals) → ∀ token ∈ writtenTokens text, token.head? ≠ some '!' →
      tokenName token ∈ known →
        (token ∈ locals ↔ tokenName token ∈ locals) ∧ (token ∉ locals → token ∈ subTokens text)

section Collected

variable {known : List Str} {name text token : Str} {value : Json} {fields : List (Str × Json)}
  {items : List Json}

theorem written_cons (c : Char) (h : token ∈ writtenTokens text) : token ∈ writtenTokens (c :: text) := by
  rw [writtenTokens.eq_def]
  split
  · next heq =>
    obtain ⟨-, rfl⟩ := List.cons.inj heq
    exact mem_append_right _ h
  · next heq =>
    obtain ⟨-, rfl⟩ := List.cons.inj heq
    exact h
  · next heq => cases heq

theorem written_of_mem_scanTokens {state : Option Str} (h : token ∈ scanTokens state text) :
    token ∈ writtenTokens text ∨ ∃ start more rest, state = some start ∧ token = start ++ more ∧
      splitOnce '\x7d' text = some (more, rest) := by
  fun_induction scanTokens state text with
  | case1 rest ih =>
    rw [writtenTokens, mem_append]
    rcases ih h with hw | ⟨_, more, rest, ⟨⟩, rfl, hs⟩
    · exact .inl (.inr hw)
    · exact .inl (.inl (by simp [hs]))
  | case2 c rest hne ih =>
    rcases ih h with hw | ⟨_, _, _, ⟨⟩, _⟩
    exact .inl (written_cons c hw)
  | case3 start rest ih =>
    rcases mem_cons.mp h with rfl | h
    · exact .inr ⟨token, [], rest, rfl, by simp, by simp [splitOnce]⟩
    · rcases ih h with hw | ⟨_, _, _, ⟨⟩, _⟩
      exact .inl (written_cons _ hw)
  | case4 start c rest hne ih =>
    rcases ih h with hw | ⟨_, more, rest', ⟨⟩, rfl, hs⟩
    · exact .inl (written_cons c hw)
    · exact .inr ⟨start, c :: more, rest', rfl, by simp, by simp [splitOnce, if_neg hne, hs]⟩
  | case5 => cases h

theorem written_of_mem_subTokens (h : token ∈ subTokens text) : token ∈ writtenTokens text := by
  rcases written_of_mem_scanTokens h with hw | ⟨_, _, _, ⟨⟩, _⟩
  exact hw

mutual

/-- What is collected is what some object inside refers to. -/
theorem mem_collectResourceRefs : ∀ {value : Json}, name ∈ collectResourceRefs known value ↔
    ∃ fields, .obj fields ∈ value.parts ∧ name ∈ ownRefs known fields
  | .obj fields => by
    rw [collectResourceRefs, mem_append, mem_collectFieldRefs, Json.parts]
    simp [or_and_right, exists_or]
  | .arr items => by
    rw [collectResourceRefs, mem_collectItemRefs, Json.parts]
    simp
  | .null | .bool _ | .num _ | .str _ => by simp [collectResourceRefs, Json.parts]

theorem mem_collectFieldRefs : ∀ {fields : List (Str × Json)}, name ∈ collectFieldRefs known fields ↔
    ∃ own, .obj own ∈ Json.fieldParts fields ∧ name ∈ ownRefs known own
  | [] => by simp [collectFieldRefs, Json.fieldParts]
  | (_, value) :: fields => by
    rw [collectFieldRefs, mem_append, mem_collectResourceRefs, mem_collectFieldRefs, Json.fieldParts]
    simp [or_and_right, exists_or]

theorem mem_collectItemRefs : ∀ {items : List Json}, name ∈ collectItemRefs known items ↔
    ∃ own, .obj own ∈ Json.itemParts items ∧ name ∈ ownRefs known own
  | [] => by simp [collectItemRefs, Json.itemParts]
  | value :: items => by
    rw [collectItemRefs, mem_append, mem_collectResourceRefs, mem_collectItemRefs, Json.itemParts]
    simp [or_and_right, exists_or]

end

theorem mem_collectSubRefs : name ∈ collectSubRefs known value ↔
    ∃ text locals, subParts value = (some text, locals) ∧ ∃ token ∈ subTokens text,
      token.head? ≠ some '!' ∧ tokenName token = name ∧ name ∉ locals ∧ name ∈ known := by
  unfold collectSubRefs
  split
  · next locals hp => simp [hp]
  · next text locals hp =>
    rw [mem_filterMap]
    constructor
    · rintro ⟨token, ht, hs⟩
      split_ifs at hs with he hk
      obtain rfl := Option.some.inj hs
      exact ⟨text, locals, hp, token, ht, he, rfl, hk⟩
    · rintro ⟨text', locals', hp', token, ht, he, rfl, hk⟩
      obtain ⟨rfl, rfl⟩ : text = text' ∧ locals = locals' := by simpa using hp.symm.trans hp'
      exact ⟨token, ht, by rw [if_neg he, if_pos hk]⟩

theorem mem_ownRefs : name ∈ ownRefs known fields ↔
    (fields.lookup "Ref".toList).bind Json.asStr = some name ∧ name ∈ known ∨
      (fields.lookup "Fn::GetAtt".toList).bind getAttName = some name ∧ name ∈ known ∨
      ∃ value, fields.lookup "Fn::Sub".toList = some value ∧ name ∈ collectSubRefs known value := by
  rw [ownRefs, mem_append, filter_append, mem_append, or_assoc]
  refine or_congr ?_ (or_congr ?_ ?_)
  · rw [mem_filter, Option.mem_toList, decide_eq_true_iff]
  · rw [mem_filter, Option.mem_toList, decide_eq_true_iff]
  · cases fields.lookup "Fn::Sub".toList <;> simp

theorem asStr_eq_some {value : Json} : value.asStr = some name ↔ value = .str name := by
  cases value <;> simp [Json.asStr]

/-- Where the tokens agree, what is collected are the references. -/
theorem mem_ownRefs_iff (hk : name ∈ known) (ha : TokensAgree known value) (hf : .obj fields ∈ value.parts) :
    name ∈ ownRefs known fields ↔ RefersTo name fields := by
  rw [mem_ownRefs]
  constructor
  · rintro (⟨hr, -⟩ | ⟨hg, -⟩ | ⟨sub, hv, hs⟩)
    · obtain ⟨v, hv, hn⟩ := Option.bind_eq_some_iff.mp hr
      exact .ref (asStr_eq_some.mp hn ▸ hv)
    · obtain ⟨v, hv, hn⟩ := Option.bind_eq_some_iff.mp hg
      exact .getAtt hv hn
    · obtain ⟨text, locals, hp, token, ht, he, rfl, hl, -⟩ := mem_collectSubRefs.mp hs
      have hw := written_of_mem_subTokens ht
      exact .sub hv hp hw he (fun hm => hl ((ha fields sub text locals hf hv hp token hw he hk).1.mp hm)) rfl
  · rintro (hv | ⟨hv, hn⟩ | @⟨sub, text, token, locals, hv, hp, hw, he, hl, rfl⟩)
    · exact .inl ⟨by rw [hv]; rfl, hk⟩
    · exact .inr (.inl ⟨by rw [hv]; exact hn, hk⟩)
    · have hag := ha fields sub text locals hf hv hp token hw he hk
      exact .inr (.inr ⟨sub, hv, mem_collectSubRefs.mpr
        ⟨text, locals, hp, token, hag.2 hl, he, rfl, fun hm => hl (hag.1.mpr hm), hk⟩⟩)

theorem mem_collectResourceRefs_iff (hk : name ∈ known) (ha : TokensAgree known value) :
    name ∈ collectResourceRefs known value ↔ Mentions name value := by
  rw [mem_collectResourceRefs]
  exact exists_congr fun fields => and_congr_right fun hf => mem_ownRefs_iff hk ha hf

end Collected

/-! ## The graph -/

section Graph

variable (resources : List (Str × Json)) (ids : List Str)

/-- A resource of the stack depends on another, or its properties refer to it. -/
structure Refers (a b : Str) : Prop where
  left : a ∈ ids
  right : b ∈ ids
  refers : (∃ raw, resources.lookup a = some raw ∧ b ∈ dependsOn raw) ∨ Mentions b (rawProperties resources a)

def Acyclic : Prop := ∀ a, ¬ Relation.TransGen (Refers resources ids) a a

def TemplateAgrees : Prop := ∀ id ∈ ids, TokensAgree ids (rawProperties resources id)

variable {resources ids} {i j : ℕ} {a b : Str}

theorem mem_resourceRefs (hc : TemplateAgrees resources ids) (ha : a ∈ ids) (hb : b ∈ ids) :
    b ∈ resourceRefs resources ids a ↔ Refers resources ids a b := by
  have hiff := mem_collectResourceRefs_iff hb (hc a ha)
  have hr : Refers resources ids a b ↔ _ := ⟨Refers.refers, fun h => ⟨ha, hb, h⟩⟩
  rw [hr, ← hiff, resourceRefs, rawProperties]
  cases resources.lookup a with
  | none => simp [propertiesOf, Json.field, collectResourceRefs, collectFieldRefs, ownRefs]
  | some raw =>
    rw [mem_append, Option.getD_some, propertiesOf]
    cases raw.field "Properties" with
    | none => simp [collectResourceRefs, collectFieldRefs, ownRefs]
    | some properties => simp

theorem mem_dependencies (hc : TemplateAgrees resources ids) : j ∈ dependencies resources ids i ↔
      j ≠ i ∧ ∃ a b, ids[i]? = some a ∧ ids[j]? = some b ∧ Refers resources ids a b := by
  rw [dependencies]
  cases ha : ids[i]? with
  | none => simp
  | some a =>
    have hm : a ∈ ids := mem_of_getElem? ha
    rw [mem_filter, decide_eq_true_iff]
    constructor
    · rintro ⟨-, hne, b, hb, hj⟩
      exact ⟨hne, a, b, rfl, hj, (mem_resourceRefs hc hm (mem_of_getElem? hj)).mp hb⟩
    · rintro ⟨hne, a', b, hs, hj, hr⟩
      obtain rfl := Option.some.inj hs
      refine ⟨?_, hne, b, (mem_resourceRefs hc hm hr.right).mpr hr, hj⟩
      exact mem_range.mpr (List.getElem?_eq_some_iff.mp hj).1

theorem graph_dependencies : Kahn.Graph ids.length (dependencies resources ids) where
  nodup i := by
    rw [dependencies]
    split
    · exact nodup_nil
    · exact nodup_range.filter _
  lt i d hd := by
    rw [dependencies] at hd
    split at hd
    · cases hd
    · exact mem_range.mp (mem_of_mem_filter hd)

variable (resources ids) in
/-- The case of less than two resources is no other. -/
theorem dependencyOrder_eq :
    dependencyOrder resources ids = Kahn.sort ids.length (dependencies resources ids) := by
  have hp : (Kahn.sort ids.length (dependencies resources ids)).Perm _ := Kahn.sort_perm graph_dependencies
  rw [dependencyOrder]
  split_ifs with hl
  · obtain hn | hn : ids.length = 0 ∨ ids.length = 1 := by omega
    · rw [hn] at hp ⊢
      exact hp.eq_nil.symm
    · rw [hn] at hp ⊢
      exact (perm_singleton.mp hp).symm
  · rfl

variable (resources ids) in
theorem dependencyOrder_perm : (dependencyOrder resources ids).Perm (List.range ids.length) := by
  rw [dependencyOrder_eq]
  exact Kahn.sort_perm graph_dependencies

end Graph

def orderedIds (resources : List (Str × Json)) (ids : List Str) : List Str :=
  (dependencyOrder resources ids).filterMap fun i => ids[i]?

section Ordered

variable {resources : List (Str × Json)} {ids l l' : List Str} {a b : Str}

theorem orderedIds_perm : (orderedIds resources ids).Perm ids := by
  have hp := (dependencyOrder_perm resources ids).filterMap fun i => ids[i]?
  have ha : (List.range ids.length).map (fun i => ids[i]?) = ids.map some := by
    refine ext_getElem (by simp) fun i hi hi' => ?_
    simp
  have hr : (List.range ids.length).filterMap (fun i => ids[i]?) = ids := by
    calc (List.range ids.length).filterMap (fun i => ids[i]?)
        = ((List.range ids.length).map fun i => ids[i]?).filterMap id := by
          rw [filterMap_map, Function.id_comp]
      _ = (ids.map some).filterMap id := by rw [ha]
      _ = ids := by simp
  rwa [hr] at hp

theorem Refers.ne (ha : Acyclic resources ids) (h : Refers resources ids a b) : a ≠ b := by
  rintro rfl
  exact ha a (.single h)

end Ordered

end Fakecloud.Cloudformation
