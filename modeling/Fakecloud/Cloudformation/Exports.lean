import Fakecloud.Cloudformation.Stacks
import Fakecloud.Lib.Registry

/-!
# CloudFormation: exports stay while they are imported

The exports and imports of an account and region are a registry of names: each name has one owner, the
exporting stack, and users, the importing ones.  Creating, updating and deleting stacks are publications
in it.
-/

namespace Fakecloud.Cloudformation

open Text Aws List Option OrdMap StackExport

/-! ## The registry -/

def registry (s : CloudFormationState) : Registry Str Str where
  owner n := (s.exports.get n).map StackExport.exportingStackName
  users n := {u | u ∈ (s.imports.get n).getD []}

variable {s : CloudFormationState}

theorem registry_owner {n o : Str} :
    (registry s).owner n = some o ↔ ∃ e, s.exports.get n = some e ∧ e.exportingStackName = o :=
      map_eq_some_iff

/-- Name and id of the stack that an export belongs to. -/
def StackExport.owner (e : StackExport) : Str × Str := (e.exportingStackName, e.exportingStackId)

theorem exportNames_cons (o : StackOutput) (outputs : List StackOutput) (n : Str) :
    n ∈ exportNames (o :: outputs) ↔ o.exportName = some n ∨ n ∈ exportNames outputs := by
  simp [exportNames]

theorem owner_registerExports (stackId stackName : Str) (outputs : List StackOutput) (n : Str)
    (exports : StrMap StackExport) :
    ((outputs.foldl (registerExport stackId stackName) exports).get n).map owner =
      if n ∈ exportNames outputs then some (stackName, stackId)
      else (exports.get n).map owner := by
  induction outputs generalizing exports with
  | nil => simp [exportNames]
  | cons o outputs ih =>
    rw [foldl_cons, ih]
    simp only [exportNames_cons, registerExport]
    by_cases hn : n ∈ exportNames outputs
    · rw [if_pos hn, if_pos (.inr hn)]
    · rw [if_neg hn]
      rcases hnm : o.exportName with _ | name
      · rw [if_neg (by simpa using hn)]
      · by_cases heq : name = n
        · rw [if_pos (.inl (congrArg some heq)), heq]
          rw [get_insert_self]
          rfl
        · rw [if_neg (by simpa [heq] using hn)]
          rw [get_insert, if_neg (Ne.symm heq)]

theorem mem_registerImports {stackName u n : Str} {names : List Str} (imports : StrMap (List Str)) :
    u ∈ ((names.foldl (registerImport stackName) imports).get n).getD [] ↔
      u ∈ (imports.get n).getD [] ∨ u = stackName ∧ n ∈ names := by
  induction names generalizing imports with
  | nil => simp
  | cons name names ih =>
    rw [foldl_cons, ih, registerImport]
    by_cases hn : n = name
    · subst hn
      rw [get_insert_self, getD_some]
      by_cases hm : stackName ∈ (imports.get n).getD []
      · rw [if_pos hm]
        constructor
        · rintro (h | h)
          · exact .inl h
          · exact .inl (h.1 ▸ hm)
        · rintro (h | h)
          · exact .inl h
          · exact .inl (h.1 ▸ hm)
      · rw [if_neg hm]
        simp only [mem_append, mem_cons]
        tauto
    · rw [get_insert]
      simp [hn]

theorem get_droppedExports (s : CloudFormationState) (stackName n : Str) :
    (dropExportsImports s stackName).exports.get n =
      (s.exports.get n).filter fun e => e.exportingStackName ≠ stackName := get_retain _ _ _

theorem mem_droppedImports {stackName u n : Str} :
    u ∈ ((dropExportsImports s stackName).imports.get n).getD [] ↔
      u ≠ stackName ∧ u ∈ (s.imports.get n).getD [] := by
  have hget : (dropExportsImports s stackName).imports.get n =
      ((s.imports.get n).map fun names => names.filter (· ≠ stackName)).filter fun names =>
        !names.isEmpty := (get_retain _ _ _).trans (by rw [get_mapValues])
  rw [hget]
  rcases s.imports.get n with _ | names
  · simp
  · by_cases he : (names.filter (· ≠ stackName)).isEmpty
    · have ha : ∀ v ∈ names, v = stackName := by simpa using he
      rw [map_some, Option.filter_some_neg (by simpa using he)]
      simpa using fun hne hm => hne (ha u hm)
    · rw [map_some, filter_some_pos (by simpa using he)]
      simp [and_comm]

theorem registry_sync (s : CloudFormationState) (stackId stackName : Str) (outputs : List StackOutput)
    (importedNames : List Str) : registry (syncExportsImports s stackId stackName outputs importedNames) =
      (registry s).publish stackName {n | n ∈ exportNames outputs} {n | n ∈ importedNames} := by
  refine Registry.ext (funext fun n => ?_) (funext fun n => Set.ext fun u => ?_)
  · have ho := owner_registerExports stackId stackName outputs n
      (dropExportsImports s stackName).exports
    have hnm (e : Option StackExport) : e.map exportingStackName =
        (e.map owner).map Prod.fst := by rw [Option.map_map]; rfl
    change Option.map _ (get (outputs.foldl (registerExport stackId stackName) _) n) = _
    rw [hnm, ho, Registry.publish]
    by_cases hn : n ∈ exportNames outputs
    · exact (congrArg (Option.map Prod.fst) (if_pos hn)).trans (if_pos hn).symm
    · have hot : n ∉ {n | n ∈ exportNames outputs} := hn
      dsimp only
      rw [if_neg hn, if_neg hot, get_droppedExports, ← hnm, registry]
      -- the test of `publish` depends on the export, so it is not abstracted
      rcases Option.eq_none_or_eq_some (s.exports.get n) with he | ⟨e, he⟩
      · simp [he]
      · by_cases how : e.exportingStackName = stackName
        · simp [he, how]
        · simp [he, how]
  · change u ∈ (get (importedNames.foldl (registerImport stackName) _) n).getD [] ↔ _
    rw [mem_registerImports, mem_droppedImports]
    rfl

theorem registry_drop (s : CloudFormationState) (stackName : Str) :
    registry (dropExportsImports s stackName) = (registry s).publish stackName ∅ ∅ := by
  have h := registry_sync s [] stackName [] []
  simpa [exportNames, syncExportsImports] using h

/-! ## The stacks -/

/-- Stacks stand under their names, which are no ids, and have ids of their own. -/
structure TableOk (env : Env) (t : StrMap Stack) : Prop where
  named : ∀ {k st}, t.get k = some st → st.name = k
  isName : ∀ {k st}, t.get k = some st → resolveStackRef env k = .ok .name
  isId : ∀ {k st}, t.get k = some st → (arnResource st.stackId "cloudformation").isSome
  distinct : ∀ {k k' st st'}, t.get k = some st → t.get k' = some st' → st.stackId = st'.stackId →
    k = k'

theorem stackId_ne_name {env : Env} {stackId name : Str}
    (hid : (arnResource stackId "cloudformation").isSome) (hn : resolveStackRef env name = .ok .name) :
    stackId ≠ name := by
  rintro rfl
  obtain ⟨resource, hr⟩ := isSome_iff_exists.mp hid
  rw [resolveStackRef, hr] at hn
  dsimp only at hn
  split at hn <;> cases hn

namespace TableOk

variable {env : Env} {t : StrMap Stack} {stack : Stack}

section

variable (h : TableOk env t)
include h

theorem modify {name : Str} {f : Stack → Stack}
    (hf : ∀ st, t.get name = some st → (f st).name = st.name ∧ (f st).stackId = st.stackId) :
    TableOk env (t.modify name f) := by
  have hget : ∀ {k st}, (t.modify name f).get k = some st →
      ∃ st', t.get k = some st' ∧ st.name = st'.name ∧ st.stackId = st'.stackId := by
    intro k st hst
    rw [get_modify] at hst
    split_ifs at hst with hk
    · obtain ⟨st', hst', rfl⟩ := map_eq_some_iff.mp hst
      exact ⟨st', hst', hf st' (hk ▸ hst')⟩
    · exact ⟨st, hst, rfl, rfl⟩
  constructor
  · intro k st hst
    obtain ⟨st', hst', heq, -⟩ := hget hst
    rw [heq, h.named hst']
  · intro k st hst
    obtain ⟨st', hst', -⟩ := hget hst
    exact h.isName hst'
  · intro k st hst
    obtain ⟨st', hst', -, heq⟩ := hget hst
    rw [heq]
    exact h.isId hst'
  · intro k k' st st' hst hst' heq
    obtain ⟨u, hu, -, hid⟩ := hget hst
    obtain ⟨u', hu', -, hid'⟩ := hget hst'
    exact h.distinct hu hu' (hid.symm.trans (heq.trans hid'))

theorem insert (hn : resolveStackRef env stack.name = .ok .name)
    (hid : (arnResource stack.stackId "cloudformation").isSome)
    (hf : ∀ k st, t.get k = some st → st.stackId ≠ stack.stackId) :
    TableOk env (t.insert stack.name stack) := by
  have hget : ∀ {k st}, (t.insert stack.name stack).get k = some st →
      (k = stack.name ∧ st = stack) ∨ t.get k = some st := by
    intro k st hst
    rw [get_insert] at hst
    split_ifs at hst with hk
    · exact .inl ⟨hk, (some.inj hst).symm⟩
    · exact .inr hst
  constructor
  · intro k st hst
    rcases hget hst with ⟨rfl, rfl⟩ | hst
    · rfl
    · exact h.named hst
  · intro k st hst
    rcases hget hst with ⟨rfl, rfl⟩ | hst
    · exact hn
    · exact h.isName hst
  · intro k st hst
    rcases hget hst with ⟨rfl, rfl⟩ | hst
    · exact hid
    · exact h.isId hst
  · intro k k' st st' hst hst' heq
    rcases hget hst with ⟨hk, hnw⟩ | ho <;> rcases hget hst' with ⟨hk', hnw'⟩ | ho'
    · rw [hk, hk']
    · rw [hnw] at heq
      exact absurd heq.symm (hf _ _ ho')
    · rw [hnw'] at heq
      exact absurd heq (hf _ _ ho)
    · exact h.distinct ho ho' heq

variable (hget : t.get stack.name = some stack)
include hget

/-- A test that a stack of the table passes, and no stack with another id, finds that stack alone. -/
theorem adjust_sole
    {c : Str × Stack → Bool} (hc : ∀ k, c (k, stack)) (hi : ∀ e, c e → byId stack.stackId e)
    (f : Stack → Stack) :
    t.adjust c f = t.modify stack.name f := by
  refine t.adjust_eq_modify f fun e he => ?_
  have he' : t.get e.1 = some e.2 := mem_entries.mp he
  rw [Bool.eq_iff_iff, beq_iff_eq, Std.LawfulEqCmp.compare_eq_iff_eq]
  refine ⟨fun hp => (h.distinct he' hget (of_decide_eq_true (hi e hp))).symm, fun hk => ?_⟩
  rw [← hk, hget] at he'
  rw [show e = (e.1, stack) from Prod.ext rfl (some.inj he').symm]
  exact hc e.1

theorem adjust_byId (f : Stack → Stack) : t.adjust (byId stack.stackId) f = t.modify stack.name f :=
  h.adjust_sole hget (fun _ => decide_eq_true rfl) (fun _ => id) f

theorem adjust_liveById
    (hl : stack.live) (f : Stack → Stack) : t.adjust (liveById stack.stackId) f = t.modify stack.name f :=
  h.adjust_sole hget (fun _ => Bool.and_eq_true_iff.mpr ⟨decide_eq_true rfl, hl⟩)
    (fun _ he => (Bool.and_eq_true_iff.mp he).1) f

end

theorem of_liveStack {s : CloudFormationState} (h : TableOk env s.stackTable) {stackRef : Str}
    (hfn : s.liveStack stackRef = some stack) :
    s.stackTable.get stack.name = some stack ∧ stack.live ∧
      (stackRef = stack.name ∨ stackRef = stack.stackId) ∧
      ∀ f, s.stackTable.adjust (refersTo stackRef) f = s.stackTable.modify stack.name f := by
  obtain ⟨hm, hl⟩ := filter_eq_some_iff.mp hfn
  obtain ⟨⟨k, st⟩, hf, rfl⟩ := map_eq_some_iff.mp hm
  have hget := mem_entries.mp (mem_of_find?_eq_some hf)
  have hn := h.named hget
  subst hn
  have hr := find?_some hf
  refine ⟨hget, hl, ?_⟩
  unfold refersTo at hr ⊢
  split_ifs at hr ⊢ with ha
  · have hid : st.stackId = stackRef := of_decide_eq_true hr
    subst hid
    exact ⟨.inr rfl, h.adjust_byId hget⟩
  · have hk : st.name = stackRef := of_decide_eq_true hr
    subst hk
    refine ⟨.inl rfl, fun f => s.stackTable.adjust_eq_modify f fun e he => ?_⟩
    rw [Bool.eq_iff_iff, decide_eq_true_eq, beq_iff_eq, Std.LawfulEqCmp.compare_eq_iff_eq, eq_comm]

end TableOk

/-! ## The invariant -/

def LiveName (s : CloudFormationState) (name : Str) : Prop :=
  ∃ st, s.stackTable.get name = some st ∧ st.live

def declaredNames (s : CloudFormationState) (name : Str) : Set Str :=
  {n | ∃ st, s.stackTable.get name = some st ∧ n ∈ exportNames st.outputs}

structure Intact (env : Env) (s : CloudFormationState) : Prop where
  table : TableOk env s.stackTable
  sound : (registry s).Sound (LiveName s) (declaredNames s)
  ids : ∀ {n e}, s.exports.get n = some e →
    ∃ st, s.stackTable.get e.exportingStackName = some st ∧ st.stackId = e.exportingStackId

namespace Intact

variable {env : Env} {s : CloudFormationState} {t : StrMap Stack} {e : StackExport}

theorem owner (h : Intact env s) {n : Str} (he : s.exports.get n = some e) :
    ∃ st, s.stackTable.get e.exportingStackName = some st ∧ st.live ∧ st.stackId = e.exportingStackId := by
  obtain ⟨st, hst, hid⟩ := h.ids he
  obtain ⟨st', hst', hl⟩ := h.sound.owner_live (registry_owner.mpr ⟨e, he, rfl⟩)
  obtain rfl := some.inj (hst.symm.trans hst')
  exact ⟨st, hst, hl, hid⟩

theorem owner_of_unique (h : Intact env s) {name : Str} {outputs : List StackOutput}
    (hnm : resolveStackRef env name = .ok .name)
    (hu : ensureExportUniqueness s name outputs = .ok ()) {n : Str}
    (hn : n ∈ exportNames outputs) (he : s.exports.get n = some e) : e.exportingStackName = name := by
  rcases ensureExportUniqueness_ok.mp hu _ hn _ he with ho | hid
  · exact ho
  · obtain ⟨st, hst, -, hst'⟩ := h.owner he
    exact absurd (hst'.trans hid) (stackId_ne_name (h.table.isId hst) hnm)

section

variable {name stackId : Str} {outputs : List StackOutput} {stack : Stack} (h : Intact env s)
  (ht : TableOk env t) (hget : t.get name = some stack)
  (hsame : ∀ k, k ≠ name → t.get k = s.stackTable.get k)

include hsame in
theorem liveName_congr {k : Str} (hk : k ≠ name) : LiveName { s with stackTable := t } k ↔ LiveName s k := by
  rw [LiveName, LiveName, hsame k hk]

include hsame in
theorem declaredNames_congr {k : Str} (hk : k ≠ name) :
    declaredNames { s with stackTable := t } k = declaredNames s k := by
  rw [declaredNames, declaredNames, hsame k hk]

include h ht hget hsame in
/-- A stack in the place of a live one, or of none, that declares no export anew. -/
theorem retable
    (hk : ∀ st, s.stackTable.get name = some st → st.live → stack.live ∧ stack.stackId = st.stackId)
    (hd : ∀ n ∈ exportNames stack.outputs, LiveName s name ∧ n ∈ declaredNames s name) :
    Intact env { s with stackTable := t } where
  table := ht
  sound := by
    refine h.sound.congr (fun {a} ha => ?_) fun {a n} ha hn => ?_
    · by_cases hnm : a = name
      · subst hnm
        obtain ⟨st, hst, hl⟩ := ha
        exact ⟨stack, hget, (hk st hst hl).1⟩
      · exact (liveName_congr hsame hnm).mpr ha
    · by_cases hnm : a = name
      · subst hnm
        obtain ⟨st, hst, hn⟩ := hn
        obtain rfl := some.inj (hget.symm.trans hst)
        exact hd n hn
      · exact ⟨(liveName_congr hsame hnm).mp ha, declaredNames_congr hsame hnm ▸ hn⟩
  ids {n e} he := by
    obtain ⟨st, hst, hl, hid⟩ := h.owner he
    by_cases hnm : e.exportingStackName = name
    · rw [hnm] at hst
      exact ⟨stack, hnm ▸ hget, (hk st hst hl).2.trans hid⟩
    · exact ⟨st, (hsame _ hnm).trans hst, hid⟩

include h ht hget hsame in
theorem publish {importedNames : List Str} (hl : stack.live) (hid : stack.stackId = stackId)
    (hot : stack.outputs = outputs)
    (hun : ∀ {n e}, n ∈ exportNames outputs → s.exports.get n = some e → e.exportingStackName = name)
    (hi : ∀ n ∈ importedNames, ∃ e, s.exports.get n = some e ∧ e.exportingStackName ≠ name)
    (hk : ∀ {n e}, s.exports.get n = some e → e.exportingStackName = name →
      consumersOf s name n ≠ [] → n ∈ exportNames outputs) : Intact env
      (syncExportsImports { s with stackTable := t } stackId name outputs importedNames) where
  table := ht
  sound := by
    rw [registry_sync]
    refine h.sound.publish (liveName_congr hsame) (fun _ => ⟨stack, hget, hl⟩)
      (declaredNames_congr hsame) ?_ ?_ ?_ ?_
    · rintro - n ⟨st, hst, hn⟩
      obtain rfl := some.inj (hget.symm.trans hst)
      exact hot ▸ hn
    · intro n hn a ha
      obtain ⟨e, he, rfl⟩ := registry_owner.mp ha
      exact hun hn he
    · intro n hn
      obtain ⟨e, he, hne⟩ := hi n hn
      exact ⟨_, registry_owner.mpr ⟨e, he, rfl⟩, hne⟩
    · intro n u hn hu hne
      obtain ⟨e, he, how⟩ := registry_owner.mp hn
      refine hk he how (ne_nil_of_mem (a := u) ?_)
      exact mem_filter.mpr ⟨hu, by simpa using hne⟩
  ids := by
    intro n e he
    have ho := owner_registerExports stackId name outputs n
      (dropExportsImports s name).exports
    have he' : (outputs.foldl (registerExport stackId name)
        (dropExportsImports s name).exports).get n = some e := he
    rw [he', map_some] at ho
    split_ifs at ho
    · obtain ⟨hnm, hid'⟩ := Prod.mk.inj (some.inj ho)
      exact ⟨stack, hnm ▸ hget, hid.trans hid'.symm⟩
    · obtain ⟨e', hol, heq⟩ := map_eq_some_iff.mp ho.symm
      obtain ⟨hnm, hid'⟩ := Prod.mk.inj heq
      rw [get_droppedExports, filter_eq_some_iff] at hol
      obtain ⟨st, hst, hst'⟩ := h.ids hol.1
      refine ⟨st, ?_, hst'.trans hid'⟩
      change t.get e.exportingStackName = some st
      rw [← hnm, hsame _ (by simpa using hol.2), hst]

include h ht hget hsame in
theorem withdraw (hd : ¬stack.live)
    (hf : ∀ {n e}, s.exports.get n = some e → e.exportingStackName = name → consumersOf s name n = []) :
    Intact env (dropExportsImports { s with stackTable := t } name) where
  table := ht
  sound := by
    have hg : ¬LiveName { s with stackTable := t } name := by
      rintro ⟨st, hst, hl⟩
      obtain rfl := some.inj (hget.symm.trans hst)
      exact hd hl
    rw [registry_drop]
    refine h.sound.publish (liveName_congr hsame) ?_ (declaredNames_congr hsame)
      (fun hl => absurd hl hg) ?_ ?_ ?_
    · rintro ⟨n, hn⟩
      exact hn.elim
    · intro n hn
      exact hn.elim
    · intro n hn
      exact hn.elim
    · intro n u hn hu hne
      obtain ⟨e, he, ho⟩ := registry_owner.mp hn
      have hm : u ∈ consumersOf s name n := mem_filter.mpr ⟨hu, by simpa using hne⟩
      rw [hf he ho] at hm
      cases hm
  ids := by
    intro n e he
    rw [get_droppedExports, filter_eq_some_iff] at he
    obtain ⟨st, hst, hid⟩ := h.ids he.1
    refine ⟨st, ?_, hid⟩
    change t.get e.exportingStackName = some st
    rw [hsame _ (by simpa using he.2), hst]

end

end Intact

/-! ## Requests -/

inductive Request
  | create (input : CreateStackInput) (uuid : Str) (resources : List StackResource)
  | update (input : UpdateStackInput) (uuid : Str) (resources : List StackResource)
  | delete (stackRef : Str)

/-- The provisioner's part of an update that succeeds. -/
def provision (resources : List StackResource) : Apply := fun _ _ _ _ _ => ⟨resources, [], none⟩

def StackResource.isNested (r : StackResource) : Bool := r.resourceType = "AWS::CloudFormation::Stack"

/-- A child stack is put into the table, or taken away. -/
def touchesNested (s : CloudFormationState) (r : Request) : Bool :=
  let nestedIn (stackRef : Str) := (s.liveStack stackRef).any fun stack =>
    stack.resources.any StackResource.isNested
  match r with
  | .create _ _ resources => resources.any StackResource.isNested
  | .update input _ resources => resources.any StackResource.isNested || nestedIn input.stackName
  | .delete stackRef => nestedIn stackRef

section

variable (T : Templates) (env : Env) (nested : CloudFormationState → Request → CloudFormationState)

/-- What a request does that touches children is not modelled: any state may be left. -/
def step (s : CloudFormationState) (r : Request) : CloudFormationState :=
  if touchesNested s r then nested s r
  else
    match r with
    | .create input uuid resources => (createStack T env s input uuid (.ok resources)).1
    | .update input uuid resources => (updateStack T env (provision resources) s input uuid).state
    | .delete stackRef => (deleteStack s stackRef).1

def CloudFormationState.empty : CloudFormationState := ⟨.empty, .empty, .empty⟩

def run (requests : List Request) : CloudFormationState := requests.foldl (step T env nested) .empty

def fresh (s : CloudFormationState) : Request → Bool
  | .create input uuid _ =>
    s.stackTable.entries.all fun e => e.2.stackId ≠ stackIdOf env input.stackName uuid
  | _ => true

/-- An update addresses no stack without a name by its id, and the outputs of its template still export
what other stacks import. -/
def keepsUsedExports (s : CloudFormationState) : Request → Bool
  | .update input _ resources =>
    match s.liveStack input.stackName with
    | none => true
    | some stack =>
      (!stack.name.isEmpty || input.stackName.isEmpty) &&
        match effectiveInput T (some stack) input with
        | .error _ => true
        | .ok (templateBody, parameters) =>
          let outputs := resolveTemplateOutputs T s templateBody
            (updateParameters env s (some stack) input parameters) resources
          s.exports.entries.all fun e =>
            e.2.exportingStackName ≠ stack.name || (consumersOf s stack.name e.1).isEmpty ||
              e.1 ∈ exportNames outputs
  | _ => true

/-- A condition on every request of a run. -/
def along (p : CloudFormationState → Request → Bool) : CloudFormationState → List Request → Bool
  | _, [] => true
  | s, r :: requests => p s r && along p (step T env nested s r) requests

variable {T env nested} {s : CloudFormationState}

variable {uuid : Str} {resources : List StackResource} {input : UpdateStackInput}

theorem Intact.empty : Intact env .empty where
  table := by constructor <;> simp [CloudFormationState.empty, OrdMap.empty, OrdMap.get]
  sound := by
    constructor <;>
      simp [registry, CloudFormationState.empty, OrdMap.empty, OrdMap.get, LiveName]
  ids he := by simp [CloudFormationState.empty, OrdMap.empty, OrdMap.get] at he

variable (h : Intact env s)
include h

theorem Intact.create {input : CreateStackInput} (hfr : fresh env s (.create input uuid resources)) :
    Intact env (createStack T env s input uuid (.ok resources)).1 := by
  rcases @createStack_cases T env s uuid input (.ok resources) with
    hsame | ⟨stack, templateBody, importedNames, hnm, hid, hsta, hot, hr, hf, hi, heq⟩
  · rwa [hsame]
  rw [heq]
  -- the name is free, so no export belongs to it
  have hnn : ∀ {n e}, s.exports.get n = some e → e.exportingStackName ≠ stack.name := by
    intro n e he ho
    obtain ⟨st, hst, hs, -⟩ := h.owner he
    rw [← ho, hst, filter_some_pos hs] at hf
    cases hf
  have his : (arnResource stack.stackId "cloudformation").isSome := by
    rw [hid, stackIdOf, arnResource_of (partitionFor_mem _)]
    rfl
  have ht : TableOk env (s.stackTable.insert stack.name stack) := h.table.insert hr his fun k st hst => by
      have := all_eq_true.mp hfr _ (mem_entries.mpr hst)
      rw [hid]
      simpa using this
  have hm : ∀ {f : Stack → Stack} (k : Str),
    ((s.stackTable.insert stack.name stack).modify stack.name f).get k =
        if k = stack.name then some (f stack) else s.stackTable.get k := by
    intro f k
    rw [get_modify, get_insert]
    split_ifs <;> rfl
  have hfl : ∀ reason, Intact env { s with
      stackTable := (s.stackTable.insert stack.name stack).modify stack.name fun st =>
        { st with status := .createFailed, statusReason := some reason } } := by
    intro reason
    refine h.retable (ht.modify fun st _ => ⟨rfl, rfl⟩) ((hm stack.name).trans (if_pos rfl))
      (fun k hk => (hm k).trans (if_neg hk)) (fun st hst hl => ?_) fun n hn => ?_
    · rw [hst, filter_some_pos hl] at hf
      cases hf
    · rw [hot] at hn
      cases hn
  unfold finishCreateStack
  dsimp only
  split
  · exact hfl _
  · next hu =>
    refine h.publish (ht.modify ?_) ((hm stack.name).trans (if_pos rfl))
      (fun k hk => (hm k).trans (if_neg hk)) rfl rfl rfl (h.owner_of_unique hr hu) ?_
      fun he ho => absurd ho (hnn he)
    · exact fun st _ => ⟨rfl, rfl⟩
    · intro n hn
      obtain ⟨e, he, -⟩ := validateImportValues_ok hi hn
      exact ⟨e, he, hnn he⟩

theorem Intact.applied {stack : Stack} {templateBody : Str} {parameters : Params} {parsed : ParsedTemplate}
    {importedNames : List Str} (hget : s.stackTable.get stack.name = some stack)
    (ha : ∀ f, s.stackTable.adjust (refersTo input.stackName) f = s.stackTable.modify stack.name f)
    (hr : input.stackName = stack.name ∨ input.stackName = stack.stackId)
    (hi : validateImportValues T s input.stackName templateBody parameters = .ok importedNames)
    (hkp : ∀ n e, s.exports.get n = some e → e.exportingStackName = stack.name →
      consumersOf s stack.name n ≠ [] →
        n ∈ exportNames (resolveTemplateOutputs T s templateBody parameters resources)) :
    Intact env (applyUpdate T (provision resources) s stack stack.name input templateBody parameters
      parsed importedNames).state := by
  have hc := applyUpdate_cases (T := T) (s := s) (provision resources) stack stack.name input
    templateBody parameters parsed importedNames
  dsimp only [provision] at hc ⊢
  rw [ha] at hc
  generalize hu : updatedStack stack input templateBody parameters parsed
    ⟨resources, [], none⟩ = updated at hc
  have hnm : updated.name = stack.name := by rw [← hu]; rfl
  have hid : updated.stackId = stack.stackId := by rw [← hu]; rfl
  have hl : updated.live := by rw [← hu]; rfl
  have hot : updated.outputs = [] := by rw [← hu]; rfl
  have ht : TableOk env (s.stackTable.modify stack.name fun _ => updated) := by
    refine h.table.modify fun st hst => ?_
    obtain rfl := some.inj (hget.symm.trans hst)
    exact ⟨hnm, hid⟩
  have hget' : (s.stackTable.modify stack.name fun _ => updated).get updated.name = some updated := by
    rw [hnm, get_modify, if_pos rfl, hget]
    rfl
  have hm : ∀ {f : Stack → Stack} (k : Str),
      ((s.stackTable.modify stack.name fun _ => updated).modify updated.name f).get k =
        if k = stack.name then some (f updated) else s.stackTable.get k := by
    intro f k
    rw [get_modify, get_modify, hnm]
    split_ifs with hk
    · rw [hk, hget]
      rfl
    · rfl
  obtain ⟨-, ⟨e, he, -⟩ | ⟨-, e, -, hsta⟩ | ⟨-, hun, hsta⟩⟩ := hc
  · cases he
  · -- the names collide: the stack is put back, without outputs
    rw [hsta, ← hid, ht.adjust_liveById hget' hl]
    refine h.retable (ht.modify fun st _ => ⟨rfl, rfl⟩) ((hm stack.name).trans (if_pos rfl))
      (fun k hk => (hm k).trans (if_neg hk)) (fun st hst _ => ?_) fun n hn => ?_
    · obtain rfl := some.inj (hget.symm.trans hst)
      exact ⟨rfl, hid⟩
    · change n ∈ exportNames updated.outputs at hn
      rw [hot] at hn
      cases hn
  · rw [hsta, ← hid, ht.adjust_liveById hget' hl]
    refine h.publish (ht.modify ?_) ((hm stack.name).trans (if_pos rfl))
      (fun k hk => (hm k).trans (if_neg hk)) hl rfl rfl
      (h.owner_of_unique (h.table.isName hget) hun) ?_ (hkp _ _)
    · exact fun st _ => ⟨rfl, rfl⟩
    intro n hn
    obtain ⟨e, he, hne, hne'⟩ := validateImportValues_ok hi hn
    refine ⟨e, he, fun ho => ?_⟩
    obtain ⟨st, hst, -, hst'⟩ := h.owner he
    rw [ho, hget] at hst
    obtain rfl := some.inj hst
    rcases hr with hr | hr
    · exact hne (hr.trans ho.symm)
    · exact hne' (hr.trans hst')

theorem Intact.update (hkp : keepsUsedExports T env s (.update input uuid resources)) :
    Intact env (updateStack T env (provision resources) s input uuid).state := by
  rcases @updateStack_cases T env s uuid (provision resources) input with
    ⟨hsame, -⟩ | ⟨stack, templateBody, parameters, hf, hef, ⟨hm, -⟩ | ⟨parsed, importedNames, hc, heq⟩⟩
  · rwa [hsame]
  · obtain ⟨hget, hl, -, -⟩ := h.table.of_liveStack hf
    rw [hm, h.table.adjust_byId hget]
    refine h.retable (h.table.modify fun st _ => ⟨rfl, rfl⟩)
      (((get_modify _ _ _ _).trans (if_pos rfl)).trans (congrArg _ hget))
      (fun k hk => (get_modify _ _ _ _).trans (if_neg hk)) (fun st hst _ => ?_)
      fun n hn => ⟨⟨stack, hget, hl⟩, stack, hget, hn⟩
    obtain rfl := some.inj (hget.symm.trans hst)
    exact ⟨rfl, rfl⟩
  · obtain ⟨hget, hl, hr, ha⟩ := h.table.of_liveStack hf
    rw [keepsUsedExports, hf] at hkp
    dsimp only at hkp
    rw [hef, Bool.and_eq_true, Bool.or_eq_true] at hkp
    obtain ⟨hem, hke⟩ := hkp
    have ho : ownerName (some stack) input = stack.name := by
      rw [ownerName]
      dsimp only [map_some, getD_some]
      split_ifs with hnl
      · rw [hnl] at hem
        rw [List.isEmpty_iff.mp (hem.resolve_left Bool.false_ne_true), List.isEmpty_iff.mp hnl]
      · rfl
    have hi : validateImportValues T s input.stackName templateBody
        (updateParameters env s (some stack) input parameters) = .ok importedNames := by
      obtain ⟨_, -, hc⟩ := bind_eq_ok.mp hc
      obtain ⟨_, hv, hc⟩ := bind_eq_ok.mp hc
      obtain ⟨_, -, hc⟩ := bind_eq_ok.mp hc
      cases hc
      exact hv
    rw [heq, ho]
    refine h.applied hget ha hr hi fun n e he how hu => ?_
    have hen := all_eq_true.mp hke _ (mem_entries.mpr he)
    simpa [how, hu] using hen

theorem Intact.delete (stackRef : Str) : Intact env (deleteStack s stackRef).1 := by
  rcases @deleteStack_cases s stackRef with hsame | ⟨stack, hf, hfr, heq⟩
  · rwa [hsame]
  obtain ⟨hget, -, -, -⟩ := h.table.of_liveStack hf
  rw [heq, h.table.adjust_byId hget]
  refine h.withdraw (h.table.modify fun st _ => ⟨rfl, rfl⟩)
    (((get_modify _ _ _ _).trans (if_pos rfl)).trans (congrArg _ hget))
    (fun k hk => (get_modify _ _ _ _).trans (if_neg hk)) ?_ fun he ho => hfr _ _ he ho
  simp [Stack.live]

theorem Intact.step {r : Request} (hf : fresh env s r) (hk : keepsUsedExports T env s r)
    (hn : !touchesNested s r) :
    Intact env (step T env nested s r) := by
  unfold Cloudformation.step
  rw [if_neg (by simpa using hn)]
  cases r with
  | create input uuid resources => exact h.create hf
  | update input uuid resources => exact h.update hk
  | delete stackRef => exact h.delete stackRef

theorem Intact.foldl_step {requests : List Request} (hf : along T env nested (fresh env) s requests)
    (hk : along T env nested (keepsUsedExports T env) s requests)
    (hn : along T env nested (fun s r => !touchesNested s r) s requests) :
    Intact env (requests.foldl (Cloudformation.step T env nested) s) := by
  induction requests generalizing s with
  | nil => exact h
  | cons r requests ih =>
    rw [along, Bool.and_eq_true] at hf hk hn
    exact ih (h.step hf.1 hk.1 hn.1) hf.2 hk.2 hn.2

end

/-! ## Exports stay while they are imported -/

/-- A name has one live owner, and a name that is recorded as imported is exported by a live stack. -/
structure ExportsIntact (s : CloudFormationState) : Prop where
  one_owner : ∀ {a b : Stack} {k k' n : Str}, s.stackTable.get k = some a →
    s.stackTable.get k' = some b → a.live → b.live → n ∈ exportNames a.outputs →
      n ∈ exportNames b.outputs → k = k'
  owner_live : ∀ {n : Str} {e : StackExport}, s.exports.get n = some e →
    ∃ st, s.stackTable.get e.exportingStackName = some st ∧ st.live
  imported : ∀ {n u : Str}, u ∈ (s.imports.get n).getD [] →
    ∃ e st, s.exports.get n = some e ∧ s.stackTable.get e.exportingStackName = some st ∧ st.live

/-- In every run of creates, updates and deletes without child stacks whose updates keep what other stacks
import. -/
theorem exports_intact (T : Templates) (env : Env)
    (nested : CloudFormationState → Request → CloudFormationState) (requests : List Request)
    (hfresh : along T env nested (fresh env) .empty requests)
    (hkeeps : along T env nested (keepsUsedExports T env) .empty requests)
    (hplain : along T env nested (fun s r => !touchesNested s r) .empty requests) :
    ExportsIntact (run T env nested requests) := by
  have h : Intact env (run T env nested requests) := Intact.empty.foldl_step hfresh hkeeps hplain
  constructor
  · intro a b k k' n ha hb hla hlb hna hnb
    exact h.sound.unique ⟨a, ha, hla⟩ ⟨b, hb, hlb⟩ ⟨a, ha, hna⟩ ⟨b, hb, hnb⟩
  · intro n e he
    obtain ⟨st, hst, hl, -⟩ := h.owner he
    exact ⟨st, hst, hl⟩
  · intro n u hu
    obtain ⟨o, ho⟩ := h.sound.used_owned hu
    obtain ⟨e, he, -⟩ := registry_owner.mp ho
    obtain ⟨st, hst, hl, -⟩ := h.owner he
    exact ⟨e, st, he, hst, hl⟩

namespace Example

/-- Template `E` exports `net`, `I` imports it, `N` does neither. -/
def templates : Templates := .plain fun body => .ok (.obj (
  if body = "E" then [("Resources", .obj []), ("Outputs", .obj [("Net", .obj [
    ("Value", .str "10.0.0.0/16"), ("Export", .obj [("Name", .str "net")])])])]
  else if body = "I" then
    [("Resources",
      .obj [("r", .obj [("Type", .str "X"), ("Properties", .obj [("Fn::ImportValue", .str "net")])])])]
  else [("Resources", .obj [])]))

def env : Env := ⟨"us-east-1", "123456789012"⟩

def create (name body : Str) : Request := .create ⟨name, body, none, .empty, [], false⟩ name []

def update (name body : Str) : Request := .update ⟨name, body, none, .empty, [], []⟩ [] []

/-- A stack exports a name, another imports it, and the first is updated without the export. -/
def dropsImported : List Request := [create "a" "E", create "b" "I", update "a" "N"]

def childless (s : CloudFormationState) (_ : Request) : CloudFormationState := s

theorem imported_export_dropped :
    along templates env childless (fresh env) .empty dropsImported ∧
      ¬ExportsIntact (run templates env childless dropsImported) := by
  refine ⟨by decide +kernel, fun h => ?_⟩
  have hu : "b".toList ∈ ((run templates env childless dropsImported).imports.get "net").getD [] := by
    decide +kernel
  have hg : (run templates env childless dropsImported).exports.get "net" = none := by decide +kernel
  obtain ⟨e, st, he, -⟩ := h.imported hu
  rw [hg] at he
  cases he

/-- The same stacks, with an update that exports the name again. -/
def keepsImported : List Request := [create "a" "E", create "b" "I", update "a" "E"]

end Example

open Example in
theorem exports_intact_kept : along templates env childless (fresh env) .empty keepsImported ∧
      along templates env childless (keepsUsedExports templates env) .empty keepsImported ∧
      ((run templates env childless keepsImported).imports.get "net").getD [] = ["b".toList] ∧
      ExportsIntact (run templates env childless keepsImported) :=
  ⟨by decide +kernel, by decide +kernel, by decide +kernel,
    exports_intact _ _ _ _ (by decide +kernel) (by decide +kernel) (by decide +kernel)⟩

end Fakecloud.Cloudformation
