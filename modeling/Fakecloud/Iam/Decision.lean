import Fakecloud.Iam.Evaluator
import Mathlib.Data.Option.Basic

/-!
# What a decision says

The evaluator is a chain of loops with early returns.  Here its decisions are read off the policies:
which statements apply to the request, and in which layer they stand.

* `Speaks` says that a list of documents has an applicable statement of a given effect.
* `Denied` and `Granted` are the two facts about the identity side, over all layers that are
  present.
* `decision_characterisation` is the whole evaluation with a resource policy.

A layer counts as the set of its documents, and a document as the set of its statements
(`SameLayer`): order and repetition do not matter.
-/

namespace Fakecloud.Iam

open Text Fakecloud.Core Option

variable {F : Formats} {request : EvalRequest}

/-! ## Layers of documents -/

def Speaks (F : Formats) (request : EvalRequest) (isResourcePolicy ignoreAccountWide : Bool)
    (e : Effect) (docs : List PolicyDocument) : Prop :=
  ∃ doc ∈ docs, ∃ s ∈ doc.statements, s.effect = e ∧
    statementApplies F request isResourcePolicy ignoreAccountWide s = true

/-- An applicable `Deny` in an identity-side layer. -/
abbrev Denies (F : Formats) (request : EvalRequest) (docs : List PolicyDocument) : Prop :=
  Speaks F request false false .deny docs

/-- An applicable `Allow` in an identity-side layer. -/
abbrev Grants (F : Formats) (request : EvalRequest) (docs : List PolicyDocument) : Prop :=
  Speaks F request false false .allow docs

abbrev ResourceSpeaks (F : Formats) (request : EvalRequest) (e : Effect) (policy : PolicyDocument) : Prop :=
  Speaks F request true false e [policy]

/-- The same documents, up to order and repetition of documents and of statements. -/
def SameLayer (docs docs' : List PolicyDocument) : Prop :=
  (∀ d ∈ docs, ∃ d' ∈ docs', ∀ s, s ∈ d.statements ↔ s ∈ d'.statements) ∧
    ∀ d' ∈ docs', ∃ d ∈ docs, ∀ s, s ∈ d.statements ↔ s ∈ d'.statements

section Layer

variable {isRes wide : Bool} {e : Effect} {docs docs' : List PolicyDocument}

section

variable (h : SameLayer docs docs')
include h

theorem SameLayer.symm : SameLayer docs' docs :=
  ⟨fun d hd => (h.2 d hd).imp fun _ hd' => ⟨hd'.1, fun s => (hd'.2 s).symm⟩,
    fun d hd => (h.1 d hd).imp fun _ hd' => ⟨hd'.1, fun s => (hd'.2 s).symm⟩⟩

theorem SameLayer.speaks_of
    (hs : Speaks F request isRes wide e docs) : Speaks F request isRes wide e docs' := by
  obtain ⟨d, hd, s, hm, hs⟩ := hs
  obtain ⟨d', hd', heq⟩ := h.1 d hd
  exact ⟨d', hd', s, (heq s).mp hm, hs⟩

theorem SameLayer.speaks_iff :
    Speaks F request isRes wide e docs ↔ Speaks F request isRes wide e docs' :=
      ⟨h.speaks_of, h.symm.speaks_of⟩

theorem SameLayer.forall_speaks_of
    (ha : ∀ d ∈ docs, Speaks F request isRes wide e [d]) :
    ∀ d ∈ docs', Speaks F request isRes wide e [d] := by
  intro d' hd'
  obtain ⟨d, hd, heq⟩ := h.2 d' hd'
  obtain ⟨d₁, hd₁, s, hm, hs⟩ := ha d hd
  obtain rfl : d₁ = d := by simpa using hd₁
  exact ⟨d', by simp, s, (heq s).mp hm, hs⟩

theorem SameLayer.nil_iff : docs = [] ↔ docs' = [] := by
  simp only [List.eq_nil_iff_forall_not_mem]
  constructor
  · intro hn d' hd'
    obtain ⟨d, hd, -⟩ := h.2 d' hd'
    exact hn d hd
  · intro hn d hd
    obtain ⟨d', hd', -⟩ := h.1 d hd
    exact hn d' hd'

end

end Layer

theorem Decision.eq_of_iff {d d' : Decision} (hd : d = .explicitDeny ↔ d' = .explicitDeny)
    (ha : d = .allow ↔ d' = .allow) : d = d' := by
  cases d <;> cases d' <;> simp_all

/-! ## One layer -/

section Scan

variable {isRes wide : Bool}

theorem scanStatements_iff (sts : List ParsedStatement) (allowed : Bool) :
    (scanStatements F request isRes wide sts allowed = .explicitDeny ↔
      ∃ s ∈ sts, s.effect = .deny ∧ statementApplies F request isRes wide s = true) ∧
    (scanStatements F request isRes wide sts allowed = .allow ↔
      (¬ ∃ s ∈ sts, s.effect = .deny ∧ statementApplies F request isRes wide s = true) ∧ (allowed = true ∨
          ∃ s ∈ sts, s.effect = .allow ∧ statementApplies F request isRes wide s = true)) := by
  induction sts generalizing allowed with
  | nil => cases allowed <;> simp [scanStatements]
  | cons s sts ih =>
    unfold scanStatements
    by_cases ha : statementApplies F request isRes wide s = true
    · cases he : s.effect <;> simp [ha, he, ih]
    · simp [ha, ih]

variable (docs : List PolicyDocument)

theorem speaks_iff_mem_flatMap {e : Effect} :
    Speaks F request isRes wide e docs ↔ ∃ s ∈ docs.flatMap PolicyDocument.statements,
      s.effect = e ∧ statementApplies F request isRes wide s = true := by
  simp only [List.mem_flatMap]
  constructor
  · rintro ⟨d, hd, s, hs, h⟩
    exact ⟨s, ⟨d, hd, hs⟩, h⟩
  · rintro ⟨s, ⟨d, hd, hs⟩, h⟩
    exact ⟨d, hd, s, hs, h⟩

theorem evaluateInnerScoped_explicitDeny_iff : evaluateInnerScoped F docs request isRes wide = .explicitDeny ↔
      Speaks F request isRes wide .deny docs := by
  rw [evaluateInnerScoped, (scanStatements_iff _ _).1, speaks_iff_mem_flatMap]

theorem evaluateInnerScoped_allow_iff : evaluateInnerScoped F docs request isRes wide = .allow ↔
      ¬ Speaks F request isRes wide .deny docs ∧ Speaks F request isRes wide .allow docs := by
  rw [evaluateInnerScoped, (scanStatements_iff _ _).2, speaks_iff_mem_flatMap, speaks_iff_mem_flatMap]
  simp

variable (F request isRes wide) in
theorem SameLayer.evaluateInnerScoped_eq {docs docs' : List PolicyDocument}
    (h : SameLayer docs docs') : evaluateInnerScoped F docs request isRes wide =
      evaluateInnerScoped F docs' request isRes wide := by
  refine Decision.eq_of_iff ?_ ?_
  · rw [evaluateInnerScoped_explicitDeny_iff, evaluateInnerScoped_explicitDeny_iff, h.speaks_iff]
  · rw [evaluateInnerScoped_allow_iff, evaluateInnerScoped_allow_iff, h.speaks_iff, h.speaks_iff]

theorem evaluateInner_explicitDeny_iff :
    evaluateInner F docs request false = .explicitDeny ↔ Denies F request docs :=
  evaluateInnerScoped_explicitDeny_iff docs

theorem evaluateInner_allow_iff : evaluateInner F docs request false = .allow ↔
      ¬ Denies F request docs ∧ Grants F request docs := evaluateInnerScoped_allow_iff docs

end Scan

/-! ## A chain of service control policies -/

section Chain

variable (docs : List PolicyDocument)

theorem denies_cons (d : PolicyDocument) :
    Denies F request (d :: docs) ↔ Denies F request [d] ∨ Denies F request docs := by
  simp [Speaks]

theorem scanScps_explicitDeny_iff (allAllow : Bool) :
    scanScps F request docs allAllow = .explicitDeny ↔ Denies F request docs := by
  induction docs generalizing allAllow with
  | nil => cases allAllow <;> simp [scanScps, Speaks]
  | cons d docs ih =>
    have hd : evaluateInner F [d] request false = .explicitDeny ↔ _ := evaluateInner_explicitDeny_iff [d]
    rw [denies_cons, ← hd]
    unfold scanScps
    cases evaluateInner F [d] request false <;> simp [ih]

theorem scanScps_allow_iff (allAllow : Bool) : scanScps F request docs allAllow = .allow ↔
      allAllow = true ∧ ¬ Denies F request docs ∧ ∀ d ∈ docs, Grants F request [d] := by
  induction docs generalizing allAllow with
  | nil => cases allAllow <;> simp [scanScps, Speaks]
  | cons d docs ih =>
    have hdn : evaluateInner F [d] request false = .explicitDeny ↔ _ := evaluateInner_explicitDeny_iff [d]
    have ha : evaluateInner F [d] request false = .allow ↔ _ := evaluateInner_allow_iff [d]
    rw [denies_cons]
    unfold scanScps
    cases hev : evaluateInner F [d] request false <;> rw [hev] at hdn ha
    · have hgr := ha.mp rfl
      simp [hgr.1, hgr.2, ih]
    · have hn : ¬ Grants F request [d] := fun hg =>
        absurd (ha.mpr ⟨fun hd => absurd (hdn.mpr hd) (by simp), hg⟩) (by simp)
      simp [hn, ih]
    · simp [hdn.mp rfl]

theorem evaluateScpChain_explicitDeny_iff :
    evaluateScpChain F docs request = .explicitDeny ↔ Denies F request docs := by
  unfold evaluateScpChain
  cases docs with
  | nil => simp [Speaks]
  | cons d docs => simpa using scanScps_explicitDeny_iff (d :: docs) true

theorem evaluateScpChain_allow_iff : evaluateScpChain F docs request = .allow ↔
      ¬ Denies F request docs ∧ docs ≠ [] ∧ ∀ d ∈ docs, Grants F request [d] := by
  unfold evaluateScpChain
  cases docs with
  | nil => simp
  | cons d docs => simpa using scanScps_allow_iff (d :: docs) true

theorem SameLayer.evaluateScpChain_eq {docs docs' : List PolicyDocument}
    (h : SameLayer docs docs') : evaluateScpChain F docs request = evaluateScpChain F docs' request := by
  have ha : (∀ d ∈ docs, Grants F request [d]) ↔ ∀ d ∈ docs', Grants F request [d] :=
    ⟨h.forall_speaks_of, h.symm.forall_speaks_of⟩
  refine Decision.eq_of_iff ?_ ?_
  · rw [evaluateScpChain_explicitDeny_iff, evaluateScpChain_explicitDeny_iff]
    exact h.speaks_iff
  · rw [evaluateScpChain_allow_iff, evaluateScpChain_allow_iff, ha, ne_eq, h.nil_iff]
    exact and_congr_left' (not_congr h.speaks_iff)

end Chain

/-! ## The identity side -/

section Gates

variable (F request) (identity : List PolicyDocument)
  (boundary session scps : Option (List PolicyDocument))

/-- Some layer of the identity side that is present has an applicable `Deny`. -/
def Denied : Prop :=
  Denies F request identity ∨ (∃ docs ∈ boundary, Denies F request docs) ∨
    (∃ docs ∈ session, Denies F request docs) ∨ ∃ docs ∈ scps, Denies F request docs

/-- Every layer of the identity side that is present has an applicable `Allow`, and so has every
single service control policy, of which there has to be one. -/
def Granted : Prop :=
  Grants F request identity ∧ (∀ docs ∈ boundary, Grants F request docs) ∧
    (∀ docs ∈ session, Grants F request docs) ∧
    ∀ docs ∈ scps, docs ≠ [] ∧ ∀ doc ∈ docs, Grants F request [doc]

variable {F request identity boundary session scps}

theorem intersectLayers_explicitDeny_iff (d : Decision) :
    intersectLayers F d boundary session scps request = .explicitDeny ↔
      d = .explicitDeny ∨ (∃ docs ∈ boundary, evaluateInner F docs request false = .explicitDeny) ∨
        (∃ docs ∈ session, evaluateInner F docs request false = .explicitDeny) ∨
        ∃ docs ∈ scps, evaluateScpChain F docs request = .explicitDeny := by
  simp only [mem_def, ← map_eq_some_iff]
  simp only [intersectLayers]
  split_ifs <;> tauto

theorem intersectLayers_allow_iff (d : Decision) :
    intersectLayers F d boundary session scps request = .allow ↔
      d = .allow ∧ (∀ docs ∈ boundary, evaluateInner F docs request false = .allow) ∧
        (∀ docs ∈ session, evaluateInner F docs request false = .allow) ∧
        ∀ docs ∈ scps, evaluateScpChain F docs request = .allow := by
  unfold intersectLayers
  cases boundary <;> cases session <;> cases scps <;>
    simp only [map_none] <;>
    split_ifs <;> simp_all [Decision.isAllow]

theorem evaluateWithGatesAndScps_explicitDeny_iff :
    evaluateWithGatesAndScps F identity boundary session scps request = .explicitDeny ↔
      Denied F request identity boundary session scps := by
  rw [evaluateWithGatesAndScps, intersectLayers_explicitDeny_iff]
  simp only [evaluateInner_explicitDeny_iff, evaluateScpChain_explicitDeny_iff, Denied]

theorem evaluateWithGatesAndScps_allow_iff :
    evaluateWithGatesAndScps F identity boundary session scps request = .allow ↔
      ¬ Denied F request identity boundary session scps ∧
        Granted F request identity boundary session scps := by
  rw [evaluateWithGatesAndScps, intersectLayers_allow_iff]
  simp only [evaluateInner_allow_iff, evaluateScpChain_allow_iff, Denied, Granted]
  grind

/-- The layer of the weaker request is absent, or the same. -/
def AddsLayer (without : Option (List PolicyDocument)) (layer : Option (List PolicyDocument)) : Prop :=
  without = none ∨ without = layer

theorem AddsLayer.mem {without layer : Option (List PolicyDocument)}
    (h : AddsLayer without layer) {docs : List PolicyDocument} (hd : docs ∈ without) : docs ∈ layer := by
  rcases h with rfl | rfl
  · simp at hd
  · exact hd

end Gates

/-! ## With a resource policy -/

section Resource

variable {identity : List PolicyDocument} {boundary session scps : Option (List PolicyDocument)}
  {resourcePolicy : Option PolicyDocument} {resourceAccountId : Str}

/-- The raw identity decision is checked first, but the gated one already tells. -/
theorem evaluateWithResourcePolicy_eq :
    evaluateWithResourcePolicyAndGatesAndScps F identity boundary session scps resourcePolicy request
        resourceAccountId =
      let gated := evaluateWithGatesAndScps F identity boundary session scps request
      let same := request.principal.accountId == resourceAccountId
      if gated = .explicitDeny then .explicitDeny
      else match resourcePolicy with
        | some policy =>
          if same && isKms request.action then evaluateKmsSameAccount F policy gated request
          else combineWithResource F gated (some policy) request same
        | none => if same then gated else combineWithResource F gated none request same := by
  by_cases hr : evaluateInner F identity request false = .explicitDeny
  · have hg : evaluateWithGatesAndScps F identity boundary session scps request = .explicitDeny :=
      (intersectLayers_explicitDeny_iff _).mpr (.inl hr)
    simp [evaluateWithResourcePolicyAndGatesAndScps, hr, hg]
  · simp only [evaluateWithResourcePolicyAndGatesAndScps, if_neg hr]
    rfl

theorem resourceDecision_explicitDeny_iff : resourceDecision F request resourcePolicy = .explicitDeny ↔
      ∃ policy ∈ resourcePolicy, ResourceSpeaks F request .deny policy := by
  cases resourcePolicy with
  | none => simp [resourceDecision]
  | some policy => simp [resourceDecision, evaluateInner, evaluateInnerScoped_explicitDeny_iff]

theorem resourceDecision_allow_iff : resourceDecision F request resourcePolicy = .allow ↔
      (¬ ∃ policy ∈ resourcePolicy, ResourceSpeaks F request .deny policy) ∧
        ∃ policy ∈ resourcePolicy, ResourceSpeaks F request .allow policy := by
  cases resourcePolicy with
  | none => simp [resourceDecision]
  | some policy => simp [resourceDecision, evaluateInner, evaluateInnerScoped_allow_iff]

theorem combineWithResource_explicitDeny_iff (gated : Decision) (same : Bool) :
    combineWithResource F gated resourcePolicy request same = .explicitDeny ↔
      ∃ policy ∈ resourcePolicy, ResourceSpeaks F request .deny policy := by
  rw [← resourceDecision_explicitDeny_iff]
  simp only [combineWithResource]
  split_ifs <;> simp_all

theorem combineWithResource_allow_iff (gated : Decision) (same : Bool) :
    combineWithResource F gated resourcePolicy request same = .allow ↔
      (¬ ∃ policy ∈ resourcePolicy, ResourceSpeaks F request .deny policy) ∧
        if same then
          gated = .allow ∨ ∃ policy ∈ resourcePolicy, ResourceSpeaks F request .allow policy
        else
          gated = .allow ∧ ∃ policy ∈ resourcePolicy, ResourceSpeaks F request .allow policy := by
  have hd : resourceDecision F request resourcePolicy = .explicitDeny ↔ _ := resourceDecision_explicitDeny_iff
  have ha : resourceDecision F request resourcePolicy = .allow ↔ _ := resourceDecision_allow_iff
  simp only [combineWithResource, Decision.isAllow]
  cases same <;> grind

theorem evaluateKmsSameAccount_explicitDeny_iff (policy : PolicyDocument) (gated : Decision) :
    evaluateKmsSameAccount F policy gated request = .explicitDeny ↔
      ResourceSpeaks F request .deny policy := by
  have hd : _ ↔ ResourceSpeaks F request .deny policy := evaluateInnerScoped_explicitDeny_iff [policy]
  simp only [evaluateKmsSameAccount]
  split_ifs <;> simp_all

theorem evaluateWithResourcePolicy_explicitDeny_iff :
    evaluateWithResourcePolicyAndGatesAndScps F identity boundary session scps resourcePolicy request
        resourceAccountId = .explicitDeny ↔ Denied F request identity boundary session scps ∨
        ∃ policy ∈ resourcePolicy, ResourceSpeaks F request .deny policy := by
  rw [evaluateWithResourcePolicy_eq, ← evaluateWithGatesAndScps_explicitDeny_iff]
  by_cases hg : evaluateWithGatesAndScps F identity boundary session scps request = .explicitDeny
  · simp [hg]
  simp only [hg, if_false]
  cases resourcePolicy with
  | some policy =>
    simp only
    split_ifs
    · simp [evaluateKmsSameAccount_explicitDeny_iff]
    · simp [combineWithResource_explicitDeny_iff]
  | none =>
    simp only
    split_ifs
    · simp [hg]
    · simp [combineWithResource_explicitDeny_iff]

/-- Outside `kms`, an absent resource policy and one that says nothing come to the same. -/
theorem evaluateWithResourcePolicy_of_not_isKms (hk : isKms request.action = false)
    (hg : evaluateWithGatesAndScps F identity boundary session scps request ≠ .explicitDeny) :
    evaluateWithResourcePolicyAndGatesAndScps F identity boundary session scps resourcePolicy request
        resourceAccountId =
      combineWithResource F (evaluateWithGatesAndScps F identity boundary session scps request)
        resourcePolicy request (request.principal.accountId == resourceAccountId) := by
  rw [evaluateWithResourcePolicy_eq]
  simp only [if_neg hg, hk, Bool.and_false, Bool.false_eq_true, if_false]
  cases resourcePolicy with
  | some policy => rfl
  | none =>
    split_ifs with hs
    · cases h : evaluateWithGatesAndScps F identity boundary session scps request <;>
        simp_all [combineWithResource, resourceDecision, Decision.isAllow]
    · rfl

theorem evaluateWithResourcePolicy_allow_iff (hk : isKms request.action = false)
    (hg : ¬ Denied F request identity boundary session scps)
    (hr : ¬ ∃ policy ∈ resourcePolicy, ResourceSpeaks F request .deny policy) :
    evaluateWithResourcePolicyAndGatesAndScps F identity boundary session scps resourcePolicy request
        resourceAccountId = .allow ↔
      if request.principal.accountId = resourceAccountId then
        Granted F request identity boundary session scps ∨
          ∃ policy ∈ resourcePolicy, ResourceSpeaks F request .allow policy
      else
        Granted F request identity boundary session scps ∧
          ∃ policy ∈ resourcePolicy, ResourceSpeaks F request .allow policy := by
  have hne : evaluateWithGatesAndScps F identity boundary session scps request ≠ .explicitDeny := by
    rwa [ne_eq, evaluateWithGatesAndScps_explicitDeny_iff]
  rw [evaluateWithResourcePolicy_of_not_isKms hk hne, combineWithResource_allow_iff,
    evaluateWithGatesAndScps_allow_iff]
  simp only [hr, hg, not_false_eq_true, true_and, beq_iff_eq]

/-- Order and repetition inside the layers do not change the decision, under any action. -/
theorem evaluateWithResourcePolicy_congr {identity' : List PolicyDocument}
    {boundary' session' scps' : Option (List PolicyDocument)}
    {resourcePolicy' : Option PolicyDocument} (hi : SameLayer identity identity')
    (hb : Rel SameLayer boundary boundary') (hs : Rel SameLayer session session')
    (hc : Rel SameLayer scps scps')
    (hr : Rel (fun p p' => SameLayer [p] [p']) resourcePolicy resourcePolicy') :
    evaluateWithResourcePolicyAndGatesAndScps F identity boundary session scps resourcePolicy request
        resourceAccountId =
      evaluateWithResourcePolicyAndGatesAndScps F identity' boundary' session' scps' resourcePolicy'
        request resourceAccountId := by
  have hl : ∀ {l l' : Option (List PolicyDocument)}, Rel SameLayer l l' →
      l.map (fun docs => evaluateInner F docs request false) =
        l'.map fun docs => evaluateInner F docs request false := by
    rintro _ _ (h | _)
    · simp [evaluateInner, h.evaluateInnerScoped_eq F request]
    · rfl
  have hch : scps.map (fun docs => evaluateScpChain F docs request) =
      scps'.map fun docs => evaluateScpChain F docs request := by
    rcases hc with h | _
    · simp [h.evaluateScpChain_eq]
    · rfl
  have hg : evaluateWithGatesAndScps F identity boundary session scps request =
      evaluateWithGatesAndScps F identity' boundary' session' scps' request := by
    have hid : evaluateInner F identity request false = evaluateInner F identity' request false :=
      hi.evaluateInnerScoped_eq F request false false
    simp only [evaluateWithGatesAndScps, intersectLayers, hid, hch, hl hb, hl hs]
  rw [evaluateWithResourcePolicy_eq, evaluateWithResourcePolicy_eq, hg]
  rcases hr with @⟨p, p', h⟩ | _
  · have hrs : resourceDecision F request (some p) = resourceDecision F request (some p') :=
      h.evaluateInnerScoped_eq F request true false
    have hk : ∀ g, evaluateKmsSameAccount F p g request = evaluateKmsSameAccount F p' g request := by
      intro g
      unfold evaluateKmsSameAccount
      rw [h.evaluateInnerScoped_eq F request true false, h.evaluateInnerScoped_eq F request true true]
    have hcm : ∀ g same, combineWithResource F g (some p) request same =
        combineWithResource F g (some p') request same := by
      intro g same
      unfold combineWithResource
      rw [hrs]
    simp only [hk, hcm]
  · rfl

end Resource

/-- **What the evaluator decides.**  An explicit deny is an applicable `Deny` in a layer that is
present.  Otherwise, for an action outside `kms`, the identity side (every layer that is present)
and the resource policy combine by *or* within one account and by *and* across accounts.  Order and
repetition inside the layers change nothing, and on the identity side a layer that is added never
makes a request allowed that was not. -/
theorem decision_characterisation (F : Formats) (identity : List PolicyDocument)
    (boundary session scps : Option (List PolicyDocument)) (resourcePolicy : Option PolicyDocument)
    (request : EvalRequest) (resourceAccountId : Str) :
    let decision := evaluateWithResourcePolicyAndGatesAndScps F identity boundary session scps
      resourcePolicy request resourceAccountId
    let denied := Denied F request identity boundary session scps ∨
      ∃ policy ∈ resourcePolicy, ResourceSpeaks F request .deny policy
    let resourceGrants := ∃ policy ∈ resourcePolicy, ResourceSpeaks F request .allow policy
    let identityGrants := Granted F request identity boundary session scps
    (decision = .explicitDeny ↔ denied) ∧
      (¬ denied → isKms request.action = false →
        (decision = .allow ↔
          if request.principal.accountId = resourceAccountId then identityGrants ∨ resourceGrants
          else identityGrants ∧ resourceGrants) ∧
        (decision ≠ .allow → decision = .implicitDeny)) ∧
      (∀ identity' boundary' session' scps' resourcePolicy', SameLayer identity identity' →
        Rel SameLayer boundary boundary' → Rel SameLayer session session' →
        Rel SameLayer scps scps' →
        Rel (fun p p' => SameLayer [p] [p']) resourcePolicy resourcePolicy' →
        decision = evaluateWithResourcePolicyAndGatesAndScps F identity' boundary' session' scps'
          resourcePolicy' request resourceAccountId) ∧
      ∀ boundary₀ session₀ scps₀, AddsLayer boundary₀ boundary → AddsLayer session₀ session →
        AddsLayer scps₀ scps →
        evaluateWithGatesAndScps F identity boundary₀ session₀ scps₀ request ≠ .allow →
        evaluateWithGatesAndScps F identity boundary session scps request ≠ .allow := by
  intro decision denied resourceGrants identityGrants
  have hdn : decision = .explicitDeny ↔ denied := evaluateWithResourcePolicy_explicitDeny_iff
  refine ⟨hdn, ?_, ?_, ?_⟩
  · intro hn hk
    refine ⟨evaluateWithResourcePolicy_allow_iff hk (fun h => hn (.inl h))
      (fun h => hn (.inr h)), fun hne => ?_⟩
    cases hd : decision <;> simp_all
  · intro identity' boundary' session' scps' resourcePolicy' hi hb hs hc hr
    exact evaluateWithResourcePolicy_congr hi hb hs hc hr
  · intro boundary₀ session₀ scps₀ hb hs hc hne h
    refine hne ?_
    rw [evaluateWithGatesAndScps, intersectLayers_allow_iff] at h ⊢
    exact ⟨h.1, fun d hd => h.2.1 d (hb.mem hd), fun d hd => h.2.2.1 d (hs.mem hd),
      fun d hd => h.2.2.2 d (hc.mem hd)⟩

end Fakecloud.Iam
