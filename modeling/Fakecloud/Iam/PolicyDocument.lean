import Fakecloud.Iam.ConditionBlock
import Fakecloud.Iam.Decision
import Fakecloud.Lib.JsonText

/-!
# Reading policy documents

`PolicyDocument::from_value`: the JSON value of a policy as a list of statements.  A statement that cannot
be read is left out.

Two results about the evaluator rest on it: what policy simulation reports beside a decision, and what a
resource policy grants to an anonymous caller.
-/

namespace Fakecloud.Iam

open Text Fakecloud.Core Condition List Option PolicyDocument

/-! ## Parsing -/

def coerceStringList : Json → List Str
  | .str s => [s]
  | .arr items => items.filterMap Json.asStr
  | _ => []

/-- The account of `arn:<partition>:iam::<account>:root`. -/
def rootAccount (s : Str) : Option Str :=
  (s.dropPrefix? "arn:").bind fun r =>
    (splitOnce ':' r).bind fun (_, r) =>
      (r.dropPrefix? "iam::").bind fun rest =>
        (splitOnce ':' rest).bind fun (account, tail) =>
          if tail = "root" ∧ account ≠ [] then some account else none

def classifyAwsPrincipal (s : Str) : PrincipalRef :=
  if s = "*" then .anyAws
  else match rootAccount s with
    | some account => .awsAccountRoot account
    | none => if s.length = 12 ∧ s.all Char.isDigit then .awsAccountRoot s else .awsArn s

def parsePrincipalField (key : Str) (v : Json) : List PrincipalRef :=
  if key = "AWS" then (coerceStringList v).map classifyAwsPrincipal
  else if key = "Service" then (coerceStringList v).map .service
  else if key = "Federated" then (coerceStringList v).map .federated
  else if key = "CanonicalUser" then (coerceStringList v).map .canonicalUser
  else []

def parsePrincipal : Json → List PrincipalRef
  | .str s => if s = "*" then [.anyAws] else []
  | .obj fields => fields.flatMap fun field => parsePrincipalField field.1 field.2
  | _ => []

def Effect.parse (value : Json) : Option Effect :=
  value.asStr.bind fun s =>
    if s = "Allow" then some .allow else if s = "Deny" then some .deny else none

def ActionMatch.parse (statement : Json) : Option ActionMatch :=
  match statement.field "Action" with
  | some a => some (.action (coerceStringList a))
  | none => (statement.field "NotAction").map fun na => .notAction (coerceStringList na)

def ResourceMatch.parse (statement : Json) : ResourceMatch :=
  match statement.field "Resource" with
  | some r => .resource (coerceStringList r)
  | none => ((statement.field "NotResource").map fun nr => .notResource (coerceStringList nr)).getD .implicit

def PrincipalPattern.parse (statement : Json) : PrincipalPattern :=
  match statement.field "NotPrincipal" with
  | some np => .notPrincipal (parsePrincipal np)
  | Option.none => ((statement.field "Principal").map fun p => .principal (parsePrincipal p)).getD .none

def parseStatement (expandsVariables : Bool) (value : Json) : Option ParsedStatement :=
  ((value.field "Effect").bind Effect.parse).bind fun effect =>
    (ActionMatch.parse value).map fun action =>
      { effect, action
        resource := ResourceMatch.parse value
        condition := (value.field "Condition").map fun c =>
          (CompiledCondition.parse c).withPolicyVariables expandsVariables
        principal := PrincipalPattern.parse value
        expandsVariables }

/-- The values that are read as statements. -/
def rawStatements (value : Json) : List Json :=
  match value.field "Statement" with
  | some (.arr items) => items
  | some (.obj fields) => [.obj fields]
  | _ => []

/-- The version that expands policy variables. -/
def isVersion2012 (value : Json) : Bool := (value.field "Version").bind Json.asStr == some "2012-10-17".toList

def PolicyDocument.fromValue (value : Json) : PolicyDocument :=
  ⟨(rawStatements value).filterMap (parseStatement (isVersion2012 value))⟩

/-! ## Policy simulation -/

section Simulation

variable (F : Formats) (request : EvalRequest)

/-- `matching_identity_statements`: how many statements of an effect match, of those without a principal
element. -/
def PolicyDocument.matchingIdentityStatements (doc : PolicyDocument) (allow : Bool) : ℕ :=
  let want := if allow then Effect.allow else Effect.deny
  (((((doc.statements.filter fun s => s.principal = .none).filter fun s => s.effect = want).filter fun s =>
      actionMatches s.action request.action).filter fun s =>
    resourceMatches F s request.resource request.context).filter fun s =>
      s.condition.all fun c => c.matchesForEffect F request.context !allow).length

def matchedTotal (docs : List PolicyDocument) (allow : Bool) : ℕ :=
  (docs.map fun doc => doc.matchingIdentityStatements F request allow).sum

/-- The statements that simulation reports account for the decision. -/
def ProvenanceAgrees (docs : List PolicyDocument) : Prop :=
  (evaluate F docs request = .explicitDeny ↔ 0 < matchedTotal F request docs false) ∧
    (evaluate F docs request = .allow ↔
      matchedTotal F request docs false = 0 ∧ 0 < matchedTotal F request docs true)

def AppliesPlain (e : Effect) (docs : List PolicyDocument) : Prop :=
  ∃ doc ∈ docs, ∃ s ∈ doc.statements, s.effect = e ∧ s.principal = .none ∧
    statementApplies F request false false s = true

def AppliesNamed (e : Effect) (docs : List PolicyDocument) : Prop :=
  ∃ doc ∈ docs, ∃ s ∈ doc.statements, s.effect = e ∧ s.principal ≠ .none ∧
    statementApplies F request false false s = true

variable {F request} {allow : Bool} {docs : List PolicyDocument}

theorem matchingIdentityStatements_pos {doc : PolicyDocument} :
    0 < doc.matchingIdentityStatements F request allow ↔
      AppliesPlain F request (if allow then .allow else .deny) [doc] := by
  have hd : ((if allow then Effect.allow else Effect.deny) == .deny) = !allow := by cases allow <;> rfl
  simp only [matchingIdentityStatements, length_pos_iff_exists_mem, mem_filter,
    AppliesPlain, mem_singleton, exists_eq_left, statementApplies, Bool.and_eq_true, decide_eq_true_eq]
  constructor
  · rintro ⟨s, ⟨⟨⟨⟨hs, hn⟩, he⟩, ha⟩, hr⟩, hc⟩
    refine ⟨s, hs, he, hn, ⟨⟨by rw [hn]; rfl, ha⟩, hr⟩, ?_⟩
    rw [he, hd]
    exact hc
  · rintro ⟨s, hs, he, hn, ⟨⟨-, ha⟩, hr⟩, hc⟩
    rw [he, hd] at hc
    exact ⟨s, ⟨⟨⟨⟨hs, hn⟩, he⟩, ha⟩, hr⟩, hc⟩

theorem matchedTotal_pos : 0 < matchedTotal F request docs allow ↔
      AppliesPlain F request (if allow then .allow else .deny) docs := by
  rw [matchedTotal, List.sum_pos_iff_exists_pos_nat]
  simp only [List.mem_map, exists_exists_and_eq_and, matchingIdentityStatements_pos]
  simp only [AppliesPlain, mem_singleton, exists_eq_left]

theorem speaks_iff_applies {e : Effect} : Speaks F request false false e docs ↔
      AppliesPlain F request e docs ∨ AppliesNamed F request e docs := by
  constructor
  · rintro ⟨doc, hd, s, hs, he, ha⟩
    by_cases hn : s.principal = .none
    · exact .inl ⟨doc, hd, s, hs, he, hn, ha⟩
    · exact .inr ⟨doc, hd, s, hs, he, hn, ha⟩
  · rintro (⟨doc, hd, s, hs, he, -, ha⟩ | ⟨doc, hd, s, hs, he, -, ha⟩)
    · exact ⟨doc, hd, s, hs, he, ha⟩
    · exact ⟨doc, hd, s, hs, he, ha⟩

/-- **When simulation accounts for the decision**: a `Deny` with a principal element applies only beside one
without, and an `Allow` with a principal element only beside a statement without. -/
theorem provenanceAgrees_iff (F : Formats) (docs : List PolicyDocument) (request : EvalRequest) :
    ProvenanceAgrees F request docs ↔
      (AppliesNamed F request .deny docs → AppliesPlain F request .deny docs) ∧
        (AppliesNamed F request .allow docs →
          AppliesPlain F request .allow docs ∨ AppliesPlain F request .deny docs) := by
  have hd : evaluate F docs request = .explicitDeny ↔
      AppliesPlain F request .deny docs ∨ AppliesNamed F request .deny docs := by
    rw [evaluate, evaluateWithGatesAndScps_explicitDeny_iff, ← speaks_iff_applies]
    simp [Denied]
  have ha : evaluate F docs request = .allow ↔
      ¬ (AppliesPlain F request .deny docs ∨ AppliesNamed F request .deny docs) ∧
        (AppliesPlain F request .allow docs ∨ AppliesNamed F request .allow docs) := by
    rw [evaluate, evaluateWithGatesAndScps_allow_iff, ← speaks_iff_applies, ← speaks_iff_applies]
    simp [Denied, Granted]
  have hz : matchedTotal F request docs false = 0 ↔ ¬ AppliesPlain F request .deny docs := by
    rw [← Nat.le_zero, ← Nat.not_lt, matchedTotal_pos]
    rfl
  rw [ProvenanceAgrees, matchedTotal_pos, matchedTotal_pos]
  grind

end Simulation

def publicIdentityPolicy : Json :=
  .obj [("Version", .str "2012-10-17"),
    ("Statement", .arr [.obj [("Effect", .str "Allow"), ("Principal", .str "*"),
      ("Action", .str "s3:GetObject"), ("Resource", .str "*")]])]

def simulatedRequest : EvalRequest :=
  ⟨⟨"arn:aws:iam::123456789012:user/alice", "AIDAALICE", "123456789012", .user, none, none⟩,
    "s3:GetObject", "arn:aws:s3:::bucket/key", {}⟩

/-- The statement of an identity policy with `Principal: "*"` allows the request and is not reported. -/
theorem allowed_without_provenance :
    evaluate .silent [.fromValue publicIdentityPolicy] simulatedRequest = .allow ∧
      matchedTotal .silent simulatedRequest [.fromValue publicIdentityPolicy] true = 0 ∧
      ¬ ProvenanceAgrees .silent simulatedRequest [.fromValue publicIdentityPolicy] := by
  have ha : evaluate .silent [.fromValue publicIdentityPolicy] simulatedRequest = .allow := by
    decide +kernel
  have hz : matchedTotal .silent simulatedRequest [.fromValue publicIdentityPolicy] true = 0 := by
    decide +kernel
  refine ⟨ha, hz, fun hag => ?_⟩
  have hp := (hag.2.mp ha).2
  omega

/-! ## Anonymous callers -/

section Anonymous

def anonymousPrincipal : Principal := ⟨[], [], [], .unknown, none, none⟩

variable (F : Formats) (readJson : Str → Option Json)

/-- `PolicyDocument::parse`: a text that is no JSON is a document without statements. -/
def PolicyDocument.parse (json : Str) : PolicyDocument := ((readJson json).map .fromValue).getD ⟨[]⟩

def anonymousRequest (action : IamAction) (context : ConditionContext) : EvalRequest :=
  ⟨anonymousPrincipal, action.actionString, action.resource, context⟩

def evaluateAnonymous (action : IamAction) (context : ConditionContext) (resourcePolicyJson : Option Str) :
    Decision :=
  match resourcePolicyJson with
  | none => .implicitDeny
  | some json => evaluateResourcePolicyOnly F (.parse readJson json) (anonymousRequest action context)

def principalTexts : Json → List Str
  | .str s => [s]
  | .obj fields => fields.flatMap fun field => coerceStringList field.2
  | _ => []

def WildcardFree (statement : Json) : Prop :=
  statement.field "NotPrincipal" = none ∧
    ∀ p, statement.field "Principal" = some p → "*".toList ∉ principalTexts p

/-- The empty text is one of the `AWS` principals. -/
def NamesEmpty (statement : Json) : Prop :=
  ∃ fields v, statement.field "Principal" = some (.obj fields) ∧ ("AWS".toList, v) ∈ fields ∧
    [] ∈ coerceStringList v

/-- The tests of a statement other than its principal gate. -/
def coversRequest (request : EvalRequest) (s : ParsedStatement) : Bool :=
  actionMatches s.action request.action && resourceMatches F s request.resource request.context &&
    s.condition.all fun c => c.matchesForEffect F request.context (s.effect == .deny)

/-- A statement of an effect that names the empty text covers the request. -/
def EmptyCovers (e : Effect) (resourcePolicyJson : Option Str) (request : EvalRequest) : Prop :=
  ∃ value, resourcePolicyJson.bind readJson = some value ∧ ∃ raw ∈ rawStatements value, NamesEmpty raw ∧
    ∃ s, parseStatement (isVersion2012 value) raw = some s ∧ s.effect = e ∧ coversRequest F request s = true

variable {F readJson}

theorem rootAccount_ne_nil {s account : Str} (h : rootAccount s = some account) : account ≠ [] := by
  simp only [rootAccount, bind_eq_some_iff] at h
  obtain ⟨r, -, ⟨_, tail⟩, -, rest, -, ⟨name, _⟩, -, h⟩ := h
  split_ifs at h with hr
  cases h
  exact hr.2

/-- The only `AWS` principal besides `*` that matches the anonymous caller is the empty text. -/
theorem refMatches_classifyAwsPrincipal {s : Str} (hs : s ≠ "*") :
    refMatches anonymousPrincipal false (classifyAwsPrincipal s) = true ↔ s = [] := by
  have he (t : Str) : (([] == t) = true) ↔ t = [] := by
    rw [beq_iff_eq]
    exact eq_comm
  rw [classifyAwsPrincipal, if_neg hs]
  rcases hr : rootAccount s with _ | account
  · split_ifs with hd
    · exact he s
    · exact he s
  · refine iff_of_false (fun h => rootAccount_ne_nil hr ((he account).mp h)) ?_
    rintro rfl
    cases hr

theorem refMatches_anonymous_canonicalUser (s : Str) :
    refMatches anonymousPrincipal false (.canonicalUser s) = false := by
  cases s with
  | nil => rfl
  | cons c s => simp [refMatches, principalIsCanonicalUser, anonymousPrincipal, eqIgnoreCase, lower]

/-- A field of a principal object matches the anonymous caller only through an empty `AWS` principal. -/
theorem any_parsePrincipalField {key : Str} {v : Json} (hfr : "*".toList ∉ coerceStringList v) :
    (∃ r ∈ parsePrincipalField key v, refMatches anonymousPrincipal false r = true) ↔
      key = "AWS" ∧ [] ∈ coerceStringList v := by
  have hn (make : Str → PrincipalRef) (hmk : ∀ s, refMatches anonymousPrincipal false (make s) = false) :
      ¬ ∃ r ∈ (coerceStringList v).map make, refMatches anonymousPrincipal false r = true := by
    rintro ⟨r, hr, hm⟩
    obtain ⟨s, -, rfl⟩ := mem_map.mp hr
    rw [hmk s] at hm
    cases hm
  rw [parsePrincipalField]
  split_ifs with ha hsr hf hu
  · simp only [ha, true_and, List.mem_map]
    constructor
    · rintro ⟨r, ⟨s, hs, rfl⟩, hm⟩
      have hst : s ≠ "*" := fun h => hfr (h ▸ hs)
      rwa [← (refMatches_classifyAwsPrincipal hst).mp hm]
    · intro hs
      exact ⟨_, ⟨[], hs, rfl⟩, rfl⟩
  · exact iff_of_false (hn _ fun _ => rfl) fun h => ha h.1
  · exact iff_of_false (hn _ fun _ => rfl) fun h => ha h.1
  · exact iff_of_false (hn _ refMatches_anonymous_canonicalUser) fun h => ha h.1
  · exact iff_of_false (by simp) fun h => ha h.1

/-- What the principal gate of a statement without wildcards lets through. -/
theorem principalGate_anonymous {statement : Json} (hf : WildcardFree statement) :
    principalGate (PrincipalPattern.parse statement) anonymousPrincipal true false = true ↔
      NamesEmpty statement := by
  obtain ⟨hn, hf⟩ := hf
  rw [PrincipalPattern.parse, hn]
  rcases hp : statement.field "Principal" with _ | p
  · refine iff_of_false (by simp [principalGate]) ?_
    rintro ⟨fields, v, hsm, -⟩
    rw [hp] at hsm
    cases hsm
  · specialize hf p hp
    simp only [map_some, getD_some, principalGate, principalMatchesScoped, List.any_eq_true]
    simp only [NamesEmpty, hp, some.injEq]
    cases p with
    | obj fields =>
      simp only [Json.obj.injEq, exists_and_left, exists_eq_left', parsePrincipal, mem_flatMap]
      have hfl : ∀ field ∈ fields, "*".toList ∉ coerceStringList field.2 := fun field hmm hs =>
        hf (mem_flatMap.mpr ⟨field, hmm, hs⟩)
      constructor
      · rintro ⟨r, ⟨⟨key, v⟩, hmm, hr⟩, hm⟩
        obtain ⟨rfl, hv⟩ := (any_parsePrincipalField (hfl _ hmm)).mp ⟨r, hr, hm⟩
        exact ⟨v, hmm, hv⟩
      · rintro ⟨v, hmm, hv⟩
        obtain ⟨r, hr, hm⟩ := (any_parsePrincipalField (hfl _ hmm)).mpr ⟨rfl, hv⟩
        exact ⟨r, ⟨_, hmm, hr⟩, hm⟩
    | str s =>
      have hs : s ≠ "*".toList := fun h => hf (by simp [principalTexts, h])
      rw [parsePrincipal, if_neg hs]
      simp
    | null | bool _ | num _ | arr _ => simp [parsePrincipal]

theorem parseStatement_principal {expandsVariables : Bool} {raw : Json} {s : ParsedStatement}
    (h : parseStatement expandsVariables raw = some s) : s.principal = PrincipalPattern.parse raw := by
  simp only [parseStatement, bind_eq_some_iff, map_eq_some_iff] at h
  obtain ⟨effect, -, action, -, rfl⟩ := h
  rfl

/-- What a resource policy without wildcards says to an anonymous caller. -/
theorem resourceSpeaks_anonymous {value : Json} (hf : ∀ raw ∈ rawStatements value, WildcardFree raw)
    {request : EvalRequest} (han : request.principal = anonymousPrincipal) {e : Effect} :
    ResourceSpeaks F request e (.fromValue value) ↔ ∃ raw ∈ rawStatements value, NamesEmpty raw ∧
        ∃ s, parseStatement (isVersion2012 value) raw = some s ∧ s.effect = e ∧
          coversRequest F request s = true := by
  have ha {raw : Json} {s : ParsedStatement} (hr : raw ∈ rawStatements value)
      (hs : parseStatement (isVersion2012 value) raw = some s) :
      statementApplies F request true false s = true ↔ NamesEmpty raw ∧ coversRequest F request s = true := by
    rw [← principalGate_anonymous (hf raw hr), ← parseStatement_principal hs, ← han]
    simp only [statementApplies, coversRequest, Bool.and_eq_true, and_assoc]
  simp only [Speaks, mem_singleton, exists_eq_left, fromValue, mem_filterMap]
  constructor
  · rintro ⟨s, ⟨raw, hr, hs⟩, he, h⟩
    obtain ⟨hn, hc⟩ := (ha hr hs).mp h
    exact ⟨raw, hr, hn, s, hs, he, hc⟩
  · rintro ⟨raw, hr, hn, s, hs, he, hc⟩
    exact ⟨s, ⟨raw, hr, hs⟩, he, (ha hr hs).mpr ⟨hn, hc⟩⟩

/-- **When a policy without wildcards does not let anonymous callers in**: no `Allow` statement that names
the empty text as an `AWS` principal covers the request, or a `Deny` statement that names it does. -/
theorem anonymous_not_allowed_iff (F : Formats) (readJson : Str → Option Json) (action : IamAction)
    (context : ConditionContext) (resourcePolicyJson : Option Str)
    (hfree : ∀ value, resourcePolicyJson.bind readJson = some value →
      ∀ raw ∈ rawStatements value, WildcardFree raw) :
    evaluateAnonymous F readJson action context resourcePolicyJson ≠ .allow ↔
      ¬ EmptyCovers F readJson .allow resourcePolicyJson (anonymousRequest action context) ∨
        EmptyCovers F readJson .deny resourcePolicyJson (anonymousRequest action context) := by
  rcases resourcePolicyJson with _ | json
  · simp [evaluateAnonymous, EmptyCovers]
  · rcases hr : readJson json with _ | value
    · simp [evaluateAnonymous, EmptyCovers, parse, hr, evaluateResourcePolicyOnly,
        evaluateInner, evaluateInnerScoped, scanStatements]
    · have hs (e : Effect) : ResourceSpeaks F (anonymousRequest action context) e (.fromValue value) ↔ _ :=
        resourceSpeaks_anonymous (hfree value hr) rfl
      simp only [evaluateAnonymous, parse, hr, map_some, getD_some,
        evaluateResourcePolicyOnly, evaluateInner, ne_eq, evaluateInnerScoped_allow_iff, EmptyCovers,
        bind_some, some.injEq, exists_eq_left', ← hs]
      rw [not_and_or, not_not, or_comm]

end Anonymous

def readPolicy (principal : String) : Json :=
  .obj [("Statement", .arr [.obj [("Effect", .str "Allow"),
    ("Principal", .obj [("AWS", .str principal.toList)]),
    ("Action", .str "s3:GetObject"), ("Resource", .str "*")]])]

/-- A reader that knows the text of the policy. -/
def reading (principal : String) (text : Str) : Option Json :=
  if text = (readPolicy principal).write then some (readPolicy principal) else none

def getObject : IamAction := ⟨"s3", "GetObject", "arn:aws:s3:::bucket/key"⟩

/-- The empty text is not a wildcard, and lets anonymous callers in. -/
theorem anonymous_allowed_by_empty :
    (∀ raw ∈ rawStatements (readPolicy ""), WildcardFree raw) ∧
      evaluateAnonymous .silent (reading "") getObject {} (some (readPolicy "").write) = .allow := by
  refine ⟨?_, by decide +kernel⟩
  intro raw hr
  obtain rfl := mem_singleton.mp hr
  refine ⟨by decide +kernel, ?_⟩
  rintro p hp
  cases hp
  decide +kernel

/-- A policy for an account does not let anonymous callers in. -/
theorem anonymous_not_allowed_account :
    evaluateAnonymous .silent (reading "123456789012") getObject {} (some (readPolicy "123456789012").write) ≠
      .allow := by
  have hr : reading "123456789012" (readPolicy "123456789012").write =
    some (readPolicy "123456789012") := if_pos rfl
  refine (anonymous_not_allowed_iff .silent _ getObject {} _ ?_).mpr (.inl ?_)
  · intro value hv raw hraw
    cases hr.symm.trans hv
    obtain rfl := mem_singleton.mp hraw
    refine ⟨by decide +kernel, ?_⟩
    rintro p hp
    cases hp
    decide +kernel
  · rintro ⟨value, hv, raw, hraw, ⟨fields, v, hp, hm, he⟩, -⟩
    cases hr.symm.trans hv
    obtain rfl := mem_singleton.mp hraw
    cases hp
    obtain rfl : v = .str "123456789012" := by simpa using hm
    revert he
    decide +kernel

end Fakecloud.Iam
