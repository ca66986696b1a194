import Fakecloud.Iam.Decision

/-!
# Key policies

Inside one account the key policy decides about an action of `kms`: what it does not allow is not allowed,
and an `Allow` that does not name the caller only opens the way for the identity side.  A `NotPrincipal`
element names nobody, but the pass that looks for a direct grant takes it for one.
-/

namespace Fakecloud.Iam

open Text Fakecloud.Core List

/-- A reference to one caller, and not to an account or to everyone. -/
def PrincipalRef.isSpecific : PrincipalRef → Bool
  | .anyAws | .awsAccountRoot _ => false
  | .awsArn _ | .service _ | .federated _ | .canonicalUser _ => true

def NamesCaller (principal : Principal) (s : ParsedStatement) : Prop :=
  ∃ refs, s.principal = .principal refs ∧
    ∃ r ∈ refs, r.isSpecific = true ∧ refMatches principal false r = true

def ExceptsSome (s : ParsedStatement) : Prop := ∃ refs, s.principal = .notPrincipal refs

/-- An applicable `Allow` of the key policy with a property. -/
def AllowsBy (F : Formats) (request : EvalRequest) (policy : PolicyDocument)
    (p : ParsedStatement → Prop) : Prop :=
  ∃ s ∈ policy.statements, s.effect = .allow ∧ statementApplies F request true false s = true ∧ p s

section Direct

variable {F : Formats} {request : EvalRequest} {policy : PolicyDocument} {s : ParsedStatement}

theorem refMatches_direct (principal : Principal) (r : PrincipalRef) :
    refMatches principal true r = true ↔ r.isSpecific = true ∧ refMatches principal false r = true := by
  cases r <;> simp [refMatches, PrincipalRef.isSpecific]

/-- What passes the gate when references to accounts and to everyone are left out. -/
theorem principalGate_direct (principal : Principal) : principalGate s.principal principal true true = true ↔
      principalGate s.principal principal true false = true ∧ (NamesCaller principal s ∨ ExceptsSome s) := by
  rcases hs : s.principal with _ | refs | refs
  · simp [principalGate]
  · simp only [principalGate, principalMatchesScoped, any_eq_true, refMatches_direct, NamesCaller,
      ExceptsSome, hs]
    constructor
    · rintro ⟨r, hr, hsp, hm⟩
      exact ⟨⟨r, hr, hm⟩, .inl ⟨refs, rfl, r, hr, hsp, hm⟩⟩
    · rintro ⟨-, ⟨_, ⟨⟩, r, hr, hsp, hm⟩ | ⟨_, ⟨⟩⟩⟩
      exact ⟨r, hr, hsp, hm⟩
  · simp [principalGate, ExceptsSome, hs]

theorem statementApplies_direct :
    statementApplies F request true true s = true ↔ statementApplies F request true false s = true ∧
      (NamesCaller request.principal s ∨ ExceptsSome s) := by
  simp only [statementApplies, Bool.and_eq_true, principalGate_direct]
  tauto

theorem speaks_direct {e : Effect} :
    Speaks F request true true e [policy] ↔ ∃ s ∈ policy.statements, s.effect = e ∧
      statementApplies F request true false s = true ∧ (NamesCaller request.principal s ∨ ExceptsSome s) := by
  simp only [Speaks, mem_singleton, exists_eq_left, statementApplies_direct]

theorem evaluateKmsSameAccount_allow_iff (policy : PolicyDocument) (gated : Decision) :
    evaluateKmsSameAccount F policy gated request = .allow ↔ ¬ ResourceSpeaks F request .deny policy ∧
        (AllowsBy F request policy (NamesCaller request.principal) ∨ AllowsBy F request policy ExceptsSome ∨
          ResourceSpeaks F request .allow policy ∧ gated = .allow) := by
  have hdn : evaluateInnerScoped F [policy] request true false = .explicitDeny ↔
      ResourceSpeaks F request .deny policy := evaluateInnerScoped_explicitDeny_iff [policy]
  have hf : evaluateInnerScoped F [policy] request true false = .allow ↔
      ¬ ResourceSpeaks F request .deny policy ∧ ResourceSpeaks F request .allow policy :=
    evaluateInnerScoped_allow_iff [policy]
  have hdr : evaluateInnerScoped F [policy] request true true = .allow ↔
      ¬ Speaks F request true true .deny [policy] ∧ Speaks F request true true .allow [policy] :=
    evaluateInnerScoped_allow_iff [policy]
  -- a direct deny is a deny
  have hsb : Speaks F request true true .deny [policy] → ResourceSpeaks F request .deny policy := by
    rw [speaks_direct]
    rintro ⟨s, hs, he, hap, -⟩
    exact ⟨policy, mem_singleton_self _, s, hs, he, hap⟩
  have hal : Speaks F request true true .allow [policy] ↔
      AllowsBy F request policy (NamesCaller request.principal) ∨ AllowsBy F request policy ExceptsSome := by
    rw [speaks_direct]
    simp only [AllowsBy, ← exists_or, ← and_or_left]
  rw [hal] at hdr
  unfold evaluateKmsSameAccount
  by_cases hd : ResourceSpeaks F request .deny policy
  · simp [hdn.mpr hd, hd]
  · rw [if_neg (mt hdn.mp hd)]
    have hn : ¬ Speaks F request true true .deny [policy] := fun h => hd (hsb h)
    split_ifs with ha hg
    · have hby := (hdr.mp ha).2
      exact iff_of_true rfl ⟨hd, or_assoc.mp (.inl hby)⟩
    · exact iff_of_true rfl ⟨hd, .inr (.inr ⟨(hf.mp hg.1).2, hg.2⟩)⟩
    · refine iff_of_false (by decide) ?_
      rintro ⟨-, hby | hby | ⟨hsp, hgt⟩⟩
      · exact ha (hdr.mpr ⟨hn, .inl hby⟩)
      · exact ha (hdr.mpr ⟨hn, .inr hby⟩)
      · exact hg ⟨hf.mpr ⟨hd, hsp⟩, hgt⟩

end Direct

/-! ## The root of trust -/

section Trust

variable (F : Formats) (identity : List PolicyDocument) (boundary session scps : Option (List PolicyDocument))
  (policy : PolicyDocument) (request : EvalRequest) (resourceAccountId : Str)

/-- A request is allowed only by the key policy, and without the identity side only by a statement that
names the caller. -/
def KeyPolicyDecides : Prop :=
  evaluateWithResourcePolicyAndGatesAndScps F identity boundary session scps (some policy) request
      resourceAccountId = .allow →
    ResourceSpeaks F request .allow policy ∧ ¬ ResourceSpeaks F request .deny policy ∧
      (evaluateWithGatesAndScps F identity boundary session scps request ≠ .allow →
        AllowsBy F request policy (NamesCaller request.principal))

variable {F policy request} in
theorem AllowsBy.speaks {p : ParsedStatement → Prop} (h : AllowsBy F request policy p) :
    ResourceSpeaks F request .allow policy := by
  obtain ⟨s, hs, he, ha, -⟩ := h
  exact ⟨policy, mem_singleton_self _, s, hs, he, ha⟩

/-- **Key policies are the root of trust** within an account, exactly unless an `Allow` with `NotPrincipal`
is all that there is for the caller: nothing denies, the identity side does not grant and no `Allow` of the
key policy names the caller. -/
theorem keyPolicyDecides_iff (hsame : request.principal.accountId = resourceAccountId)
    (hkms : isKms request.action = true) :
    KeyPolicyDecides F identity boundary session scps policy request resourceAccountId ↔
      Denied F request identity boundary session scps ∨ Granted F request identity boundary session scps ∨
        ResourceSpeaks F request .deny policy ∨
        AllowsBy F request policy (NamesCaller request.principal) ∨
        ¬ AllowsBy F request policy ExceptsSome := by
  have hgt : evaluateWithGatesAndScps F identity boundary session scps request = .allow ↔ _ :=
    evaluateWithGatesAndScps_allow_iff
  have hga : evaluateWithGatesAndScps F identity boundary session scps request = .explicitDeny ↔ _ :=
    evaluateWithGatesAndScps_explicitDeny_iff
  rw [KeyPolicyDecides, evaluateWithResourcePolicy_eq]
  simp only [hsame, hkms, beq_self_eq_true, Bool.and_true, if_true]
  by_cases hd : Denied F request identity boundary session scps
  · simp [hga.mpr hd, hd]
  · rw [if_neg (mt hga.mp hd), evaluateKmsSameAccount_allow_iff, ne_eq, hgt]
    constructor
    · intro hdc
      by_contra hnt
      simp only [not_or, not_not] at hnt
      obtain ⟨-, hg, hdn, hn, he⟩ := hnt
      exact hn ((hdc ⟨hdn, .inr (.inl he)⟩).2.2 fun h => hg h.2)
    · rintro hc ⟨hdn, hby⟩
      rcases hby with hn | he | hg
      · exact ⟨hn.speaks, hdn, fun _ => hn⟩
      · refine ⟨he.speaks, hdn, fun hgt => ?_⟩
        rcases hc with h | h | h | h | h
        · exact absurd h hd
        · exact absurd ⟨hd, h⟩ hgt
        · exact absurd h hdn
        · exact h
        · exact absurd he h
      · exact ⟨hg.1, hdn, fun hgt => absurd hg.2 hgt⟩

end Trust

namespace Example

def alice : Principal :=
  ⟨"arn:aws:iam::123456789012:user/alice", "AIDAALICE", "123456789012", .user, none, none⟩

def decrypt : EvalRequest :=
  ⟨alice, "KMS:Decrypt", "arn:aws:kms:us-east-1:123456789012:key/k", {}⟩

/-- A statement that allows everything to those whom its principal element is for. -/
def allowing (principal : PrincipalPattern) : ParsedStatement :=
  ⟨.allow, .action ["kms:*"], .resource ["*"], none, principal, true⟩

def everyoneButBob : PolicyDocument :=
  ⟨[allowing (.notPrincipal [.awsArn "arn:aws:iam::123456789012:user/bob"])]⟩

def delegating : PolicyDocument := ⟨[allowing (.principal [.awsAccountRoot "123456789012"])]⟩

/-- A policy of the caller. -/
def decrypting : PolicyDocument := ⟨[⟨.allow, .action ["kms:Decrypt"], .resource ["*"], none, .none, false⟩]⟩

/-- A caller without any policy decrypts with a key whose policy does not name them. -/
theorem decrypts_unnamed :
    evaluateWithResourcePolicyAndGatesAndScps .silent [] none none none (some everyoneButBob) decrypt
        "123456789012" = .allow ∧
      evaluateWithGatesAndScps .silent [] none none none decrypt ≠ .allow ∧
      ¬ AllowsBy .silent decrypt everyoneButBob (NamesCaller alice) := by
  refine ⟨by decide +kernel, by decide +kernel, ?_⟩
  rintro ⟨s, hs, -, -, refs, hr, -⟩
  rw [mem_singleton.mp hs] at hr
  cases hr

end Example

open Example in
/-- With the default key policy the identity side decides, here that the caller may decrypt. -/
theorem keyPolicyDecides_delegating :
    evaluateWithResourcePolicyAndGatesAndScps .silent [decrypting] none none none (some delegating) decrypt
        "123456789012" = .allow ∧
      KeyPolicyDecides .silent [decrypting] none none none delegating decrypt "123456789012" := by
  refine ⟨by decide +kernel, (keyPolicyDecides_iff .silent [decrypting] none none none delegating decrypt
    "123456789012" (by decide +kernel) (by decide +kernel)).mpr (.inr (.inr (.inr (.inr ?_))))⟩
  rintro ⟨s, hs, -, -, refs, hr⟩
  rw [mem_singleton.mp hs] at hr
  cases hr

end Fakecloud.Iam
