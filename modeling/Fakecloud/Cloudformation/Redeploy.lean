import Fakecloud.Cloudformation.Rollback

/-!
# CloudFormation: an update that changes nothing

The old definitions are resolved against the ids and attributes that the stack has, the new ones against
maps that the loop changes.
-/

namespace Fakecloud.Cloudformation

open Text List Failing

/-- The resources of a stack are those of its template and parameters. -/
structure Provisioned (T : Templates) (stack : Stack) (parsed : ParsedTemplate) : Prop where
  parses : T.parseTemplate stack.template stack.parameters = .ok parsed
  create : NothingToCreate stack parsed.resources
  delete : NothingToDelete stack parsed.resources
  /-- the keys of an object -/
  distinct : ∀ resources, T.resources stack.template stack.parameters = .ok resources →
    (resources.map Prod.fst).Nodup

section

variable {T : Templates} {p : Provisioner} {stack : Stack} {parsed : ParsedTemplate}
  {ids imports : StrMap Str}
  {attributes : StrMap (StrMap Str)}

theorem parseResource_ok {templateBody : Str} {parameters : Params} {r : Str × Json} {d : ResourceDefinition}
    (h : T.parseResource templateBody parameters r = .ok d) :
    d.logicalId = r.1 ∧ ∃ q, T.mapped templateBody parameters (propertiesOf r.2) = .ok q := by
  obtain ⟨_, -, h⟩ := bind_eq_ok.mp h
  obtain ⟨q, hq, h⟩ := bind_eq_ok.mp h
  obtain rfl := Except.ok.inj h
  exact ⟨rfl, q, hq⟩

/-- The definitions of a template that parses are resources of its document. -/
theorem parseTemplate_ok {templateBody : Str} {parameters : Params}
    (h : T.parseTemplate templateBody parameters = .ok parsed) :
    ∃ resources chosen, T.resources templateBody parameters = .ok resources ∧ chosen <+ resources ∧
      Forall₂ (fun r d => T.parseResource templateBody parameters r = .ok d) chosen parsed.resources := by
  obtain ⟨_, -, h⟩ := bind_eq_ok.mp h
  obtain ⟨_, -, h⟩ := bind_eq_ok.mp h
  obtain ⟨resources, hr, h⟩ := bind_eq_ok.mp h
  obtain ⟨definitions, hd, h⟩ := bind_eq_ok.mp h
  obtain ⟨_, -, h⟩ := bind_eq_ok.mp h
  obtain rfl := Except.ok.inj h
  exact ⟨resources, _, hr, filter_sublist, forall₂_of_mapM_ok hd⟩

namespace Provisioned

variable (h : Provisioned T stack parsed)
include h

theorem nodup : (parsed.resources.map ResourceDefinition.logicalId).Nodup := by
  obtain ⟨resources, chosen, hr, hs, hp⟩ := parseTemplate_ok h.parses
  have heq : parsed.resources.map ResourceDefinition.logicalId = chosen.map Prod.fst :=
    forall₂_eq_eq_eq ▸ forall₂_map_left_iff.mpr (forall₂_map_right_iff.mpr
      (hp.flip.imp fun _ _ hd => (parseResource_ok hd).1))
  rw [heq]
  exact (h.distinct resources hr).sublist (hs.map _)

/-- What was parsed can be resolved: the same steps can fail, and they see no ids. -/
theorem resolves {d : ResourceDefinition} (hd : d ∈ parsed.resources) :
    T.Resolves stack.template stack.parameters d.logicalId := by
  obtain ⟨resources, chosen, hr, hs, hp⟩ := parseTemplate_ok h.parses
  obtain ⟨i, hi, rfl⟩ := getElem_of_mem hd
  have hc : i < chosen.length := hp.length_eq ▸ hi
  obtain ⟨hid, q, hq⟩ := parseResource_ok (hp.get hc hi)
  have hl : resources.lookup parsed.resources[i].logicalId = some chosen[i].2 :=
    (lookup_eq_some_iff (h.distinct resources hr)).mpr (hid ▸ hs.subset (getElem_mem hc))
  refine ⟨q, bind_eq_ok.mpr ⟨resources, hr, ?_⟩⟩
  rw [hl]
  exact hq

end Provisioned

theorem get_resolveOld (h : Provisioned T stack parsed) {d resolved : ResourceDefinition}
    (hd : d ∈ parsed.resources)
    (hr : T.resolve stack.template stack.parameters d ids attributes imports = .ok resolved) :
    (resolveOld T stack ids attributes imports).get d.logicalId = some resolved.properties := by
  rw [resolveOld, h.parses]
  obtain ⟨before, after, hs⟩ := append_of_mem hd
  have hn := h.nodup
  rw [hs, map_append, nodup_append] at hn
  simp only [hs, foldl_append, foldl_cons, hr]
  -- the definitions after this one have other ids
  refine foldlRecOn (motive := (OrdMap.get · d.logicalId = some resolved.properties)) after _
    (OrdMap.get_insert_self ..) fun m hm a ha => ?_
  have hne : d.logicalId ≠ a.logicalId := fun he => (nodup_cons.mp hn.2.1).1 (he ▸ mem_map_of_mem ha)
  split
  · rw [OrdMap.get_insert, if_neg hne, hm]
  · exact hm

/-- Definitions that resolve as before leave the progress, and so the maps, as they are. -/
theorem applyDefinitions_eq {c : UpdateContext} {g : Progress} {definitions : List ResourceDefinition}
    (h : ∀ d ∈ definitions, d.logicalId ∈ c.oldLogicalIds ∧
      ∃ resolved, T.resolve c.templateBody c.parameters d g.physicalIds g.attributes c.imports =
        .ok resolved ∧
        c.oldResolved.get d.logicalId = some resolved.properties) (n : ℕ) :
    applyDefinitions T p c n definitions g = ⟨g.resources, g.changes, none⟩ := by
  induction definitions generalizing n with
  | nil => rfl
  | cons d definitions ih =>
    obtain ⟨hi, resolved, hr, ho⟩ := h d mem_cons_self
    have hd : applyDefinition T p c n d g = .ok g := by
      rw [applyDefinition, hr]
      simp [hi, ho]
    rw [applyDefinitions, hd]
    exact ih (fun d' hd' => h d' (mem_cons_of_mem _ hd')) _

end

/-- **An unchanged stack is left alone**, whatever the provisioner would answer: it could refuse
every call. -/
theorem redeploy_unchanged (T : Templates) (p : Provisioner) (stack : Stack) (parsed : ParsedTemplate)
    (h : Provisioned T stack parsed) (imports : StrMap Str) :
    applyResourceUpdates T p stack parsed.resources stack.template stack.parameters imports =
      ⟨stack.resources, [], none⟩ := by
  have hdel : stack.resources.filter (fun r => !declared parsed.resources r) = [] :=
    filter_eq_nil_iff.mpr fun r hr => by simpa [declared] using h.delete r hr
  rw [applyResourceUpdates, orderedDefinitions, applyDefinitions_eq _ 0]
  · rw [startProgress, h.delete.kept, hdel, map_nil]
  · intro d hd
    refine ⟨h.create d (mem_ordered hd), ?_⟩
    obtain ⟨resolved, hr⟩ := (h.resolves (mem_ordered hd)).resolve_eq_ok _ _ imports
    exact ⟨resolved, hr, get_resolveOld h (mem_ordered hd) hr⟩

namespace Redeploy

def document : Json := .obj [("Resources", .obj [("Bucket", .obj [("Type", .str "AWS::S3::Bucket")]),
  ("Policy", .obj [("Type", .str "AWS::S3::BucketPolicy"), ("Properties", .obj [
    ("Bucket", .obj [("Ref", .str "Bucket")]),
    ("Resource", .obj [("Fn::GetAtt", .arr [.str "Bucket", .str "Arn"])])])])])]

/-- A policy that refers to a bucket. -/
def stack : Stack := { Failing.stack "old" with
  resources := [⟨"Bucket", "app-1", "AWS::S3::Bucket", OrdMap.empty.insert "Arn" "arn:aws:s3:::app-1"⟩,
    ⟨"Policy", "app-2", "AWS::S3::BucketPolicy", .empty⟩] }

/-- Without ids, references are resolved to placeholders. -/
def parsed : ParsedTemplate where
  description := none
  resources := [⟨"Bucket", "AWS::S3::Bucket", .obj []⟩, ⟨"Policy", "AWS::S3::BucketPolicy",
    .obj [("Bucket", .str "Bucket"), ("Resource", .str "Bucket.Arn")]⟩]

end Redeploy

/-- A bucket and its policy, and a provisioner that fails. -/
theorem redeploy_unchanged_policy :
    applyResourceUpdates (.plain fun _ => .ok Redeploy.document) Failing.provisioner
    Redeploy.stack Redeploy.parsed.resources "old" Redeploy.stack.parameters .empty =
      ⟨Redeploy.stack.resources, [], none⟩ :=
  redeploy_unchanged _ _ Redeploy.stack Redeploy.parsed
    { parses := rfl
      create := by simp [NothingToCreate, Redeploy.stack, Redeploy.parsed]
      delete := by simp [NothingToDelete, Redeploy.stack, Redeploy.parsed]
      distinct := by
        intro resources hr
        obtain rfl := Except.ok.inj hr
        decide } .empty

end Fakecloud.Cloudformation
