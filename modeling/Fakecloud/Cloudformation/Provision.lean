import Fakecloud.Cloudformation.Dependencies

/-!
# CloudFormation: creating the resources of a stack

`provision_stack_resources` goes through the definitions in dependency order, again and again, until all
resources are created or a pass creates none.  References in the properties are resolved with the physical
ids and attributes that are known when a definition is tried; a name that is not known is left in the
properties as it is.  A definition is tried in every pass, whether or not the resources it refers to have been
created.
-/

namespace Fakecloud.Cloudformation

open Text List ResourceDefinition

/-! ## The loop -/

/-- A template and the answers of the provisioner. -/
structure Provisioning where
  T : Templates
  templateBody : Str
  parameters : Params
  imports : StrMap Str
  resources : List (Str × Json)
  expands : T.resources templateBody parameters = .ok resources
  definitions : List ResourceDefinition
  nodup : (definitions.map ResourceDefinition.logicalId).Nodup
  /-- What `create_resource` answers in a pass, with the attributes that the live state adds.  A resource is
  tried at most once in a pass, so any sequence of answers is one of these. -/
  createResource : ℕ → Str → Except Str StackResource
  logicalId_eq : ∀ n id r, createResource n id = .ok r → r.logicalId = id

structure Creation where
  logicalId : Str
  resolved : ResourceDefinition
  physicalIds : StrMap Str
  attributes : StrMap (StrMap Str)

structure ProvisionState where
  resources : List StackResource := []
  physicalIds : StrMap Str := .empty
  attributes : StrMap (StrMap Str) := .empty
  /-- what was created so far, with what was known then -/
  creations : List Creation := []

def ProvisionState.record (g : ProvisionState) (definition resolved : ResourceDefinition)
    (resource : StackResource) : ProvisionState where
  resources := g.resources ++ [resource]
  physicalIds := g.physicalIds.insert resource.logicalId resource.physicalId
  attributes := g.attributes.insert resource.logicalId resource.attributes
  creations := g.creations ++ [⟨definition.logicalId, resolved, g.physicalIds, g.attributes⟩]

namespace Provisioning

variable (V : Provisioning)

/-- With the physical ids and attributes that are known. -/
def resolve (definition : ResourceDefinition) (physicalIds : StrMap Str) (attributes : StrMap (StrMap Str)) :
    Except Str ResourceDefinition :=
  V.T.resolve V.templateBody V.parameters definition physicalIds attributes V.imports

def ids : List Str := V.definitions.map ResourceDefinition.logicalId

def ordered : List ResourceDefinition :=
  (V.T.dependencyOrder V.templateBody V.parameters V.definitions).filterMap fun i => V.definitions[i]?

/-- The properties of a resource of the stack refer to another one. -/
def Needs (a b : Str) : Prop := b ∈ V.ids ∧ Mentions b (rawProperties V.resources a)

def accepts (n : ℕ) (id : Str) : Bool := (V.createResource n id).isOk

end Provisioning

def ProvisionState.names (g : ProvisionState) : List Str := g.creations.map Creation.logicalId

@[simp] theorem ProvisionState.names_record (g : ProvisionState) (definition resolved : ResourceDefinition)
    (resource : StackResource) :
    (g.record definition resolved resource).names = g.names ++ [definition.logicalId] := by
  simp [names, record]

section Loop

variable {V : Provisioning} {n : ℕ} {pending : List ResourceDefinition} {g : ProvisionState}
  {P : ProvisionState → Prop}

def Provisioning.taken (V : Provisioning) (n : ℕ) (pending : List ResourceDefinition) :
    List ResourceDefinition :=
  pending.filter fun d => V.accepts n d.logicalId

def Provisioning.left (V : Provisioning) (n : ℕ) (pending : List ResourceDefinition) :
    List ResourceDefinition :=
  pending.filter fun d => !V.accepts n d.logicalId

open Provisioning

open ProvisionState

/-- What is known is what was created: for every call, and in the end. -/
structure Lookups (g : ProvisionState) : Prop where
  physicalIds : ∀ name, (g.physicalIds.get name).isSome = true ↔ name ∈ g.names
  attributes : ∀ name, (g.attributes.get name).isSome = true ↔ name ∈ g.names
  creations : ∀ earlier c later, g.creations = earlier ++ c :: later → ∀ name,
    ((c.physicalIds.get name).isSome = true ↔ name ∈ earlier.map Creation.logicalId) ∧
      ((c.attributes.get name).isSome = true ↔ name ∈ earlier.map Creation.logicalId)

theorem isSome_get_insert {β : Type} (m : StrMap β) (k name : Str) (v : β) :
    ((m.insert k v).get name).isSome = true ↔ (m.get name).isSome = true ∨ name = k := by
  rw [OrdMap.get_insert]
  split_ifs with h <;> simp [h]

theorem Lookups.record (h : Lookups g) {d resolved : ResourceDefinition} {r : StackResource}
    (hid : r.logicalId = d.logicalId) : Lookups (g.record d resolved r) where
  physicalIds name := by
    rw [names_record, mem_append, mem_singleton, ← h.physicalIds, ← hid]
    exact isSome_get_insert ..
  attributes name := by
    rw [names_record, mem_append, mem_singleton, ← h.attributes, ← hid]
    exact isSome_get_insert ..
  creations earlier c later heq name := by
    rcases eq_nil_or_concat later with rfl | ⟨later, last, rfl⟩
    · obtain ⟨he, hc⟩ := append_inj' (show g.creations ++ _ = earlier ++ [c] from heq) rfl
      obtain rfl := (List.cons.inj hc).1
      rw [← he]
      exact ⟨h.physicalIds name, h.attributes name⟩
    · have heq' : g.creations ++ [⟨d.logicalId, resolved, g.physicalIds, g.attributes⟩] =
          (earlier ++ c :: later) ++ [last] := by simpa [ProvisionState.record] using heq
      exact h.creations earlier c later (append_inj' heq' rfl).1 name

end Loop

/-! ## Passes -/

namespace Provisioning

variable (V : Provisioning)

/-- The definitions that no pass before has created. -/
def waiting (n : ℕ) : List ResourceDefinition :=
  V.ordered.filter fun d => (List.range n).all fun q => !V.accepts q d.logicalId

def FirstAccepted (p : ℕ) (id : Str) : Prop := V.accepts p id = true ∧ ∀ q < p, V.accepts q id = false

/-- Each pass before has created something, so that there is this one. -/
def Progress (p : ℕ) : Prop := ∀ q < p, ∃ id ∈ V.ids, V.FirstAccepted q id

variable {V} {n : ℕ} {d : ResourceDefinition} {id : Str} {g : ProvisionState}

theorem map_ordered : V.ordered.map logicalId = orderedIds V.resources V.ids := by
  rw [ordered, Templates.dependencyOrder, V.expands, map_filterMap]
  refine filterMap_congr fun i _ => ?_
  rw [ids, getElem?_map]

theorem mem_ids_iff : id ∈ V.ids ↔ ∃ d ∈ V.ordered, d.logicalId = id := by
  rw [← mem_map, map_ordered]
  exact (orderedIds_perm.mem_iff).symm

theorem mem_waiting : d ∈ V.waiting n ↔ d ∈ V.ordered ∧ ∀ q < n, V.accepts q d.logicalId = false := by
  simp [waiting]

/-- A state that the loop is in before a pass. -/
structure Reached (V : Provisioning) (n : ℕ) (g : ProvisionState) : Prop where
  length : g.resources.length = g.names.length
  names : ∀ b, b ∈ g.names ↔ b ∈ V.ids ∧ ∃ q < n, V.accepts q b = true
  closed : Kahn.Closed V.Needs g.names

theorem Reached.step {g' : ProvisionState} (h : Reached V n g) (hl : g'.resources.length = g'.names.length)
    (hn : g'.names = g.names ++ (V.taken n (V.waiting n)).map logicalId)
    (hc : Kahn.Closed V.Needs g'.names) : Reached V (n + 1) g' where
  length := hl
  closed := hc
  names b := by
    rw [hn, mem_append, h.names, mem_map]
    constructor
    · rintro (⟨hb, q, hq, hqb⟩ | ⟨d, hd, rfl⟩)
      · exact ⟨hb, q, by omega, hqb⟩
      · obtain ⟨hw, ha⟩ := mem_filter.mp hd
        exact ⟨mem_ids_iff.mpr ⟨d, (mem_waiting.mp hw).1, rfl⟩, n, by omega, ha⟩
    · rintro ⟨hb, q, hq, hqb⟩
      by_cases hbf : ∃ q < n, V.accepts q b = true
      · exact .inl ⟨hb, hbf⟩
      · obtain ⟨d, hd, rfl⟩ := mem_ids_iff.mp hb
        have hwt : ∀ q < n, V.accepts q d.logicalId = false := by simpa using hbf
        obtain rfl : q = n := by
          refine (Nat.lt_succ_iff.mp hq).antisymm (not_lt.mp fun hlt => ?_)
          rw [hwt q hlt] at hqb
          cases hqb
        exact .inr ⟨d, mem_filter.mpr ⟨mem_waiting.mpr ⟨hd, hwt⟩, hqb⟩, rfl⟩

section

variable (hc : TemplateAgrees V.resources V.ids) (ha : Acyclic V.resources V.ids)
include hc ha

end

section

variable (hr : ∀ d ∈ V.ordered, V.T.Resolves V.templateBody V.parameters d.logicalId)
include hr

end

end Provisioning

namespace Provision

def ids : List Str := ["A", "B"]

def resources (properties : Str → Json) : List (Str × Json) :=
  ids.map fun id => (id, .obj [("Properties", properties id)])

/-- `A` is created in the second pass. -/
def late (n : ℕ) (id : Str) : Bool := id = "B" ∨ 0 < n

variable {properties : Str → Json} {accepted : ℕ → Str → Bool} {a b name : Str}

end Provision

end Fakecloud.Cloudformation
