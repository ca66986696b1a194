import Fakecloud.Cloudformation.Dependencies
import Fakecloud.Cloudformation.Stacks

/-!
# CloudFormation: updates that report a rollback

The resources of a stack are brought to the new definitions one by one, and the first call that fails
ends the update with `UPDATE_ROLLBACK_COMPLETE`.  So does an export name that collides after the resources
are there.
-/

namespace Fakecloud.Cloudformation

open Text List Option

/-! ## Applying the definitions -/

/-- What the calls of the provisioner answer; the number says how many definitions were processed before,
so any sequence of answers is one of these. -/
structure Provisioner where
  createResource : ℕ → ResourceDefinition → Except Str StackResource
  /-- `none` for a type that cannot be updated. -/
  updateResource : ℕ → StackResource → ResourceDefinition → Except Str (Option StackResource)
  getAtt : ℕ → StackResource → Str → Option Str
  wellKnownAttributesFor : Str → List Str

def mergedResourceAttributes (p : Provisioner) (n : ℕ) (resource : StackResource) (base : StrMap Str) :
    StrMap Str :=
  let attributes := resource.attributes.entries.foldl (fun m e => m.insert e.1 e.2) base
  (p.wellKnownAttributesFor resource.resourceType).foldl (fun m attr =>
    match m.get attr, p.getAtt n resource attr with
    | none, some value => m.insert attr value
    | _, _ => m) attributes

/-- What the loop over the definitions has done so far. -/
structure Progress where
  resources : List StackResource
  physicalIds : StrMap Str
  attributes : StrMap (StrMap Str)
  changes : List ResourceChange

structure UpdateContext where
  templateBody : Str
  parameters : Params
  imports : StrMap Str
  oldLogicalIds : List Str
  oldResolved : StrMap Json

def StackResource.change (resource : StackResource) (action : ResourceChangeAction) : ResourceChange :=
  ⟨action, resource.logicalId, resource.physicalId, resource.resourceType⟩

/-- The first resource with the logical id, replaced. -/
def setResource (updated : StackResource) : List StackResource → List StackResource
  | [] => []
  | r :: resources =>
    if r.logicalId = updated.logicalId then updated :: resources else r :: setResource updated resources

def Progress.recordResource (g : Progress) (resource : StackResource) (attributes : StrMap Str)
    (action : ResourceChangeAction) : Progress :=
  { g with
    physicalIds := g.physicalIds.insert resource.logicalId resource.physicalId
    attributes := g.attributes.insert resource.logicalId attributes
    changes := g.changes ++ [resource.change action] }

/-- One definition: the new progress, or why the update stops. -/
def applyDefinition (T : Templates) (p : Provisioner) (c : UpdateContext) (n : ℕ)
    (definition : ResourceDefinition) (g : Progress) : Except Str Progress :=
  match T.resolve c.templateBody c.parameters definition g.physicalIds g.attributes c.imports with
  | .error e => .error ("Failed to resolve resource " ++ definition.logicalId ++ ": " ++ e)
  | .ok resolved =>
    if definition.logicalId ∉ c.oldLogicalIds then
      match p.createResource n resolved with
      | .ok resource =>
        let g := g.recordResource resource resource.attributes .create
        .ok { g with resources := g.resources ++ [resource] }
      | .error e =>
        .error ("Failed to create resource " ++ definition.logicalId ++ ": " ++ e)
    else if c.oldResolved.get definition.logicalId = some resolved.properties then .ok g
    else
      match g.resources.find? fun r => r.logicalId = definition.logicalId with
      | none => .ok g
      | some existing =>
        match p.updateResource n existing resolved with
        | .ok none => .ok g
        | .ok (some updated) =>
          let merged := mergedResourceAttributes p n updated existing.attributes
          let g := g.recordResource updated merged .update
          .ok { g with resources := setResource { updated with attributes := merged } g.resources }
        | .error e =>
          .error ("Failed to update resource " ++ definition.logicalId ++ ": " ++ e)

def applyDefinitions (T : Templates) (p : Provisioner) (c : UpdateContext) :
    ℕ → List ResourceDefinition → Progress → Applied
  | _, [], g => ⟨g.resources, g.changes, none⟩
  | n, definition :: definitions, g =>
    match applyDefinition T p c n definition g with
    | .error e => ⟨g.resources, g.changes, some e⟩
    | .ok g => applyDefinitions T p c (n + 1) definitions g

def resolveOld (T : Templates) (stack : Stack) (physicalIds : StrMap Str)
    (attributes : StrMap (StrMap Str)) (imports : StrMap Str) : StrMap Json :=
  match T.parseTemplate stack.template stack.parameters with
  | .error _ => .empty
  | .ok parsed =>
    parsed.resources.foldl (fun m definition =>
      match T.resolve stack.template stack.parameters definition physicalIds attributes imports with
      | .ok resolved => m.insert definition.logicalId resolved.properties
      | .error _ => m) .empty

section

variable (T : Templates) (p : Provisioner) (stack : Stack) (definitions : List ResourceDefinition)

def declared (r : StackResource) : Bool := r.logicalId ∈ definitions.map ResourceDefinition.logicalId

def keptResources : List StackResource := stack.resources.filter (declared definitions)

/-- Resources that are no longer declared are deleted, whatever the deletions answer. -/
def startProgress : Progress where
  resources := keptResources stack definitions
  physicalIds := physicalIdsOf (keptResources stack definitions)
  attributes := attributesOf (keptResources stack definitions)
  changes := (stack.resources.filter fun r => !declared definitions r).map fun r => r.change .delete

variable (templateBody : Str) (parameters : Params) (imports : StrMap Str)

def updateContext : UpdateContext where
  templateBody := templateBody
  parameters := parameters
  imports := imports
  oldLogicalIds := stack.resources.map StackResource.logicalId
  oldResolved := resolveOld T stack (physicalIdsOf (keptResources stack definitions))
    (attributesOf (keptResources stack definitions)) imports

def orderedDefinitions : List ResourceDefinition :=
  (T.dependencyOrder templateBody parameters definitions).filterMap fun i => definitions[i]?

def applyResourceUpdates : Applied :=
  applyDefinitions T p (updateContext T stack definitions templateBody parameters imports) 0
    (orderedDefinitions T definitions templateBody parameters) (startProgress stack definitions)

end

/-! ## Identities of resources -/

def StackResource.ids (r : StackResource) : Str × Str := (r.logicalId, r.physicalId)

section

variable (T : Templates) (p : Provisioner) (c : UpdateContext)

/-- The loop comes to a definition, with what those before have done. -/
inductive Comes : ℕ → List ResourceDefinition → Progress → ℕ → ResourceDefinition → Progress → Prop
  | here {n : ℕ} {d : ResourceDefinition} {definitions : List ResourceDefinition} {g : Progress} :
      Comes n (d :: definitions) g n d g
  | later {n m : ℕ} {d e : ResourceDefinition} {definitions : List ResourceDefinition} {g g' g'' : Progress}
      (happlied : applyDefinition T p c n d g = .ok g') (hlater : Comes (n + 1) definitions g' m e g'') :
      Comes n (d :: definitions) g m e g''

variable (n : ℕ) (d : ResourceDefinition) (g : Progress)

/-- A resource that is there is brought to a definition that has changed. -/
structure Updates (resolved : ResourceDefinition) (existing : StackResource) : Prop where
  resolves : T.resolve c.templateBody c.parameters d g.physicalIds g.attributes c.imports = .ok resolved
  old : d.logicalId ∈ c.oldLogicalIds
  changed : c.oldResolved.get d.logicalId ≠ some resolved.properties
  existing : g.resources.find? (fun r => r.logicalId = d.logicalId) = some existing

/-- A resource is created for a definition. -/
structure Creates (resolved : ResourceDefinition) : Prop where
  resolves : T.resolve c.templateBody c.parameters d g.physicalIds g.attributes c.imports = .ok resolved
  new : d.logicalId ∉ c.oldLogicalIds

/-- No call for a definition gives a new resource, or a resource new ids. -/
structure LeavesIds : Prop where
  creates : ∀ resolved, Creates T c d g resolved → ∀ r, p.createResource n resolved ≠ .ok r
  updates : ∀ resolved existing, Updates T c d g resolved existing → ∀ updated,
    p.updateResource n existing resolved = .ok (some updated) → updated.ids = existing.ids

end

section

variable {T : Templates} {p : Provisioner} {c : UpdateContext} {n : ℕ} {g g' : Progress}

variable {definition : ResourceDefinition} {kept : List StackResource} {definitions : List ResourceDefinition}

/-- What one definition does: nothing, a new resource, or an update of the one that is there. -/
theorem applyDefinition_ok (h : applyDefinition T p c n definition g = .ok g') : g' = g ∨
      (∃ resolved resource, Creates T c definition g resolved ∧ p.createResource n resolved = .ok resource) ∨
      ∃ resolved existing updated merged, Updates T c definition g resolved existing ∧
        p.updateResource n existing resolved = .ok (some updated) ∧
        g'.resources = setResource { updated with attributes := merged } g.resources ∧
        g'.changes = g.changes ++ [updated.change .update] := by
  unfold applyDefinition at h
  split at h
  · cases h
  · next hres =>
    split_ifs at h with ho hs
    · cases h
      exact .inl rfl
    · split at h
      · cases h
        exact .inl rfl
      · next existing hf =>
        split at h
        · cases h
          exact .inl rfl
        · next updated hu =>
          cases h
          exact .inr (.inr ⟨_, existing, updated, _, ⟨hres, ho, hs, hf⟩, hu, rfl, rfl⟩)
        · cases h
    · split at h
      · next hc => exact .inr (.inl ⟨_, _, ⟨hres, ho⟩, hc⟩)
      · cases h

theorem ids_setResource {id : Str} {existing updated : StackResource} {resources : List StackResource}
    (hf : resources.find? (fun r => r.logicalId = id) = some existing) (hi : updated.ids = existing.ids) :
    (setResource updated resources).map StackResource.ids = resources.map StackResource.ids := by
  have hid : existing.logicalId = id := by simpa using find?_some hf
  have hl : updated.logicalId = id := (congrArg Prod.fst hi).trans hid
  induction resources with
  | nil => cases hf
  | cons r resources ih =>
    unfold setResource
    by_cases hr : r.logicalId = id
    · rw [find?_cons_of_pos (by simpa using hr)] at hf
      obtain rfl := some.inj hf
      rw [if_pos (hr.trans hl.symm), map_cons, map_cons, hi]
    · rw [find?_cons_of_neg (by simpa using hr)] at hf
      rw [if_neg (hl ▸ hr), map_cons, map_cons, ih hf]

/-- The resources have the ids they had, and every change but a deletion is one of theirs. -/
structure SameIds (kept resources : List StackResource) (changes : List ResourceChange) : Prop where
  ids : resources.map StackResource.ids = kept.map StackResource.ids
  listed : ∀ ch ∈ changes, ch.action ≠ .delete →
    (ch.logicalId, ch.physicalId) ∈ kept.map StackResource.ids

theorem SameIds.applyDefinition (h : SameIds kept g.resources g.changes) (hp : LeavesIds T p c n definition g)
    (hok : applyDefinition T p c n definition g = .ok g') : SameIds kept g'.resources g'.changes := by
  rcases applyDefinition_ok hok with
    rfl | ⟨resolved, resource, hc, hr⟩ | ⟨resolved, existing, updated, merged, hup, hu, hr, hc⟩
  · exact h
  · exact absurd hr (hp.creates resolved hc resource)
  · have hi : updated.ids = existing.ids := hp.updates resolved existing hup updated hu
    rw [hr, hc]
    constructor
    · rw [← h.ids]
      exact ids_setResource hup.existing hi
    · intro ch hch hd
      rcases mem_append.mp hch with hch | hch
      · exact h.listed ch hch hd
      · obtain rfl := mem_singleton.mp hch
        rw [← h.ids]
        change updated.ids ∈ _
        rw [hi]
        exact mem_map_of_mem (mem_of_find?_eq_some hup.existing)

/-- The loop keeps the ids when the calls that it makes do. -/
theorem SameIds.applyDefinitions (h : SameIds kept g.resources g.changes)
    (hp : ∀ m d g', Comes T p c n definitions g m d g' → LeavesIds T p c m d g') :
    SameIds kept (applyDefinitions T p c n definitions g).resources
      (applyDefinitions T p c n definitions g).changes := by
  induction definitions generalizing n g with
  | nil => exact h
  | cons d definitions ih =>
    unfold Cloudformation.applyDefinitions
    split
    · exact h
    · next hok =>
      exact ih (h.applyDefinition (hp n d g .here) hok) fun m d' g' hc => hp m d' g' (.later hok hc)

end

/-! ## The conditions -/

def NothingToCreate (stack : Stack) (definitions : List ResourceDefinition) : Prop :=
  ∀ d ∈ definitions, d.logicalId ∈ stack.resources.map StackResource.logicalId

def NothingToDelete (stack : Stack) (definitions : List ResourceDefinition) : Prop :=
  ∀ r ∈ stack.resources, r.logicalId ∈ definitions.map ResourceDefinition.logicalId

theorem NothingToDelete.kept {stack : Stack} {definitions : List ResourceDefinition}
    (h : NothingToDelete stack definitions) : keptResources stack definitions = stack.resources :=
  filter_eq_self.mpr fun r hr => decide_eq_true (h r hr)

section

variable (T : Templates) (p : Provisioner) (stack : Stack) (parsed : ParsedTemplate)
  (templateBody : Str) (parameters : Params) (imports : StrMap Str)

variable {T p stack parsed templateBody parameters imports}

end

/-- The stack is as before, and what the update has created or updated is among its resources. -/
structure RolledBack (before after : Stack) (changes : List ResourceChange) : Prop where
  template : after.template = before.template
  parameters : after.parameters = before.parameters
  description : after.description = before.description
  outputs : after.outputs = before.outputs
  resources : after.resources.map StackResource.ids = before.resources.map StackResource.ids
  accounted : ∀ ch ∈ changes, ch.action ≠ .delete →
    (ch.logicalId, ch.physicalId) ∈ after.resources.map StackResource.ids

section

variable {s : CloudFormationState} {t : StrMap Stack} {stackRef : Str} {stack : Stack}

end

section

variable {T : Templates} {p : Provisioner} {s : CloudFormationState} {stack after : Stack}
  {input : UpdateStackInput} {owner templateBody : Str} {parameters : Params} {parsed : ParsedTemplate}
  {importedNames : List Str}

end

theorem RolledBack.refl (stack : Stack) : RolledBack stack stack [] := ⟨rfl, rfl, rfl, rfl, rfl, by simp⟩

namespace Failing

def resource (resourceType : Str) : Json := .obj [("Type", .str resourceType)]

/-- Template `old` declares `A`, template `new` also `B`. -/
def templates : Templates :=
  .plain fun body => .ok (.obj [("Description", .str body), ("Resources", .obj (if body = "new"
    then [("A", resource "AWS::S3::Bucket"), ("B", resource "AWS::S3::Bucket")]
    else [("A", resource "AWS::S3::Bucket")]))])

def provisioner : Provisioner where
  createResource _ _ := .error "limit exceeded"
  updateResource _ _ _ := .ok none
  getAtt _ _ _ := none
  wellKnownAttributesFor _ := []

def env : Env := ⟨"us-east-1", "123456789012"⟩

def stackId : Str := stackIdOf env "app" "1"

def stack (template : Str) : Stack where
  name := "app"
  stackId := stackId
  template := template
  status := .createComplete
  statusReason := none
  resources := [⟨"A", "bucket-a", "AWS::S3::Bucket", .empty⟩]
  parameters := seedParameters env stackId "app" [] .empty
  description := some template
  notificationArns := []
  outputs := []
  enableTerminationProtection := false

def state (template : Str) : CloudFormationState :=
    ⟨OrdMap.empty.insert "app" (stack template), .empty, .empty⟩

def input : UpdateStackInput := ⟨"app", "new", none, .empty, [], []⟩

def result (template : Str) : UpdateResult :=
  updateStack templates env (applyResourceUpdates templates provisioner) (state template) input []

end Failing

open Failing

end Fakecloud.Cloudformation
