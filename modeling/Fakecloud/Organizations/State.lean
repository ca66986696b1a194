import Fakecloud.Iam.Accounts
import Fakecloud.Lib.Ancestry
import Mathlib.Data.Finset.Basic

/-!
# Organizations

`state.rs` and the resolver of service control policies.  An organization is a tree of organizational
units with member accounts as its leaves, and a table of the policies attached to each node.  Ids that the
source draws at random are inputs.
-/

namespace Fakecloud.Organizations

open Text Fakecloud.Core Fakecloud.Iam

/-! ## State -/

inductive PolicyType
  | serviceControl | tag | backup | aiservicesOptOut | resourceControl
  deriving DecidableEq

/-- `is_supported_policy_type`, by the name of a type. -/
def PolicyType.ofName (name : Str) : Option PolicyType :=
  if name = "SERVICE_CONTROL_POLICY" then some .serviceControl
  else if name = "TAG_POLICY" then some .tag
  else if name = "BACKUP_POLICY" then some .backup
  else if name = "AISERVICES_OPT_OUT_POLICY" then some .aiservicesOptOut
  else if name = "RESOURCE_CONTROL_POLICY" then some .resourceControl
  else none

structure OrganizationalUnit where
  name : Str
  parentId : Str

structure MemberAccount where
  parentId : Str

structure Policy where
  name : Str
  policyType : PolicyType
  awsManaged : Bool
  content : Str

structure OrganizationState where
  orgId : Str
  managementAccountId : Str
  rootId : Str
  ous : StrMap OrganizationalUnit := .empty
  accounts : StrMap MemberAccount
  policies : StrMap Policy
  /-- the policies attached to the root, a unit or an account -/
  attachments : StrMap (Finset Str)

inductive OrgError
  | parentNotFound (id : Str)
  | duplicateOrganizationalUnit (name : Str)
  | organizationalUnitNotFound (id : Str)
  | organizationalUnitNotEmpty (id : Str)
  | accountNotFound (id : Str)
  | sourceParentNotFound (id : Str)
  | destinationParentNotFound (id : Str)
  | policyNotFound (id : Str)
  | duplicatePolicy (name : Str)
  | malformedPolicyDocument
  | policyTypeNotSupported (name : Str)
  | policyChangesNotAllowed (id : Str)
  | policyInUse (id : Str)
  | policyNotAttached (id : Str)
  | targetNotFound (id : Str)
  | accountChangesNotAllowed (id : Str)

def failIf (condition : Prop) [Decidable condition] (error : OrgError) : Except OrgError Unit :=
  if condition then .error error else .ok ()

@[simp] theorem failIf_eq_ok {condition : Prop} [Decidable condition] {error : OrgError} {u : Unit} :
    failIf condition error = .ok u ↔ ¬ condition := by
  unfold failIf
  split_ifs with h <;> simp [h]

def orFail {α : Type} (error : OrgError) (o : Option α) : Except OrgError α := o.elim (.error error) .ok

@[simp] theorem orFail_eq_ok {α : Type} {error : OrgError} {o : Option α} {v : α} :
    orFail error o = .ok v ↔ o = some v := by
  cases o <;> simp [orFail]

def fullAwsAccessPolicyId : Str := "p-FullAWSAccess"

def fullAwsAccessContent : Str :=
  "\x7b\"Version\":\"2012-10-17\",\"Statement\":[\x7b\"Effect\":\"Allow\",\"Action\":\"*\",\"Resource\":\"*\"\x7d]\x7d"

namespace OrganizationState

/-- `bootstrap_in`: the management account below the root, which carries `FullAWSAccess`. -/
def bootstrap (managementAccountId orgRandom rootRandom : Str) : OrganizationState :=
  let rootId := "r-" ++ rootRandom
  { orgId := "o-" ++ orgRandom
    managementAccountId
    rootId
    accounts := (OrdMap.empty : StrMap MemberAccount).insert managementAccountId ⟨rootId⟩
    policies := (OrdMap.empty : StrMap Policy).insert fullAwsAccessPolicyId
      ⟨"FullAWSAccess", .serviceControl, true, fullAwsAccessContent⟩
    attachments := (OrdMap.empty : StrMap (Finset Str)).insert rootId {fullAwsAccessPolicyId} }

variable (o : OrganizationState)

def isManagement (accountId : Str) : Bool := accountId == o.managementAccountId

def isParent (id : Str) : Bool := id == o.rootId || (o.ous.get id).isSome

/-! ## The tree -/

/-- `enroll_account_if_missing`, and the enrolment by an accepted invitation. -/
def enrollAccountIfMissing (accountId : Str) : OrganizationState :=
  if (o.accounts.get accountId).isSome then o
  else { o with accounts := o.accounts.insert accountId ⟨o.rootId⟩ }

/-- The account of `complete_create_account`, below the root. -/
def enrollCreated (accountId : Str) : OrganizationState :=
  { o with accounts := o.accounts.insert accountId ⟨o.rootId⟩ }

def ouId (random : Str) : Str :=
  "ou-" ++ (o.rootId.dropPrefix? "r-").getD o.rootId ++ "-" ++ random

def createOu (parentId name random : Str) : Except OrgError OrganizationState := do
  failIf (o.isParent parentId = false) (.parentNotFound parentId)
  failIf (o.ous.entries.any (fun ou => ou.2.parentId == parentId && ou.2.name == name) = true)
    (.duplicateOrganizationalUnit name)
  return { o with ous := o.ous.insert (o.ouId random) ⟨name, parentId⟩ }

def renameOu (ouId newName : Str) : Except OrgError OrganizationState := do
  let ou ← orFail (.organizationalUnitNotFound ouId) (o.ous.get ouId)
  failIf (o.ous.entries.any (fun other =>
      other.1 != ouId && other.2.parentId == ou.parentId && other.2.name == newName) = true)
    (.duplicateOrganizationalUnit newName)
  return { o with ous := o.ous.insert ouId { ou with name := newName } }

def deleteOu (ouId : Str) : Except OrgError OrganizationState := do
  let _ ← orFail (.organizationalUnitNotFound ouId) (o.ous.get ouId)
  failIf ((o.ous.entries.any fun ou => ou.2.parentId == ouId) = true ∨
      (o.accounts.entries.any fun a => a.2.parentId == ouId) = true) (.organizationalUnitNotEmpty ouId)
  return { o with attachments := o.attachments.erase ouId, ous := o.ous.erase ouId }

def moveAccount (accountId sourceParent destParent : Str) : Except OrgError OrganizationState := do
  let account ← orFail (.accountNotFound accountId) (o.accounts.get accountId)
  failIf (account.parentId ≠ sourceParent) (.sourceParentNotFound sourceParent)
  failIf (o.isParent destParent = false) (.destinationParentNotFound destParent)
  return { o with accounts := o.accounts.insert accountId ⟨destParent⟩ }

def removeAccount (accountId : Str) : Except OrgError OrganizationState := do
  failIf (o.isManagement accountId = true) (.accountChangesNotAllowed accountId)
  let _ ← orFail (.accountNotFound accountId) (o.accounts.get accountId)
  return { o with accounts := o.accounts.erase accountId, attachments := o.attachments.erase accountId }

/-! ## Policies -/

/-- `serde_json`: parsing a text, and the text of a value. -/
structure Serde where
  parse : Str → Option Json
  render : Json → Str

def createPolicy (J : Serde) (name content typeName random : Str) : Except OrgError OrganizationState := do
  let policyType ← orFail (.policyTypeNotSupported typeName) (PolicyType.ofName typeName)
  failIf ((J.parse content).isNone = true) .malformedPolicyDocument
  failIf (o.policies.entries.any (fun p => p.2.policyType == policyType && p.2.name == name) = true)
    (.duplicatePolicy name)
  return { o with policies := o.policies.insert ("p-" ++ random) ⟨name, policyType, false, content⟩ }

def changeable (id : Str) : Except OrgError Policy := do
  let policy ← orFail (.policyNotFound id) (o.policies.get id)
  failIf (policy.awsManaged = true) (.policyChangesNotAllowed id)
  return policy

def updatePolicy (J : Serde) (id : Str) (name content : Option Str) : Except OrgError OrganizationState := do
  let policy ← o.changeable id
  failIf (name.any (fun newName => o.policies.entries.any fun p =>
      p.1 != id && p.2.policyType == policy.policyType && p.2.name == newName) = true)
    (.duplicatePolicy (name.getD []))
  failIf (content.any (fun c => (J.parse c).isNone) = true) .malformedPolicyDocument
  let changed := { policy with name := name.getD policy.name, content := content.getD policy.content }
  return { o with policies := o.policies.insert id changed }

def deletePolicy (id : Str) : Except OrgError OrganizationState := do
  let _ ← o.changeable id
  failIf (o.attachments.entries.any (fun a => decide (id ∈ a.2)) = true) (.policyInUse id)
  return { o with policies := o.policies.erase id }

def targetExists (targetId : Str) : Bool := o.isParent targetId || (o.accounts.get targetId).isSome

def attached (targetId : Str) : Finset Str := (o.attachments.get targetId).getD ∅

/-- The entry of a target, which is removed with its last policy. -/
def setAttached (targetId : Str) (s : Finset Str) : OrganizationState :=
  { o with attachments :=
      if s = ∅ then o.attachments.erase targetId else o.attachments.insert targetId s }

theorem attached_setAttached (targetId target : Str) (s : Finset Str) :
    (o.setAttached targetId s).attached target = if target = targetId then s else o.attached target := by
  unfold setAttached attached
  split_ifs with he ht ht
  · rw [OrdMap.get_erase, if_pos ht, he, Option.getD_none]
  · rw [OrdMap.get_erase, if_neg ht]
  · rw [OrdMap.get_insert, if_pos ht, Option.getD_some]
  · rw [OrdMap.get_insert, if_neg ht]

def attachPolicy (policyId targetId : Str) : Except OrgError OrganizationState := do
  let _ ← orFail (.policyNotFound policyId) (o.policies.get policyId)
  failIf (o.targetExists targetId = false) (.targetNotFound targetId)
  return o.setAttached targetId (insert policyId (o.attached targetId))

def detachPolicy (policyId targetId : Str) : Except OrgError OrganizationState := do
  let _ ← orFail (.policyNotFound policyId) (o.policies.get policyId)
  failIf (o.targetExists targetId = false) (.targetNotFound targetId)
  failIf (policyId ∉ o.attached targetId) (.policyNotAttached policyId)
  return o.setAttached targetId ((o.attached targetId).erase policyId)

def parentOf (id : Str) : Option Str := (o.ous.get id).map OrganizationalUnit.parentId

end OrganizationState

/-! ## The resolver -/

abbrev Registry := StrMap OrganizationState

def orgOfAccount (r : Registry) (accountId : Str) : Option OrganizationState :=
  (r.entries.find? fun entry => (entry.2.accounts.get accountId).isSome).map Prod.snd

def slrRoleName (arn : Str) : Option Str :=
  match (arn.splitOn ':').drop 5 with
  | [] => none
  | fields => ((List.intercalate [':'] fields).dropPrefix? "assumed-role/").map fun rest =>
    rest.takeWhile (· ≠ '/')

def serviceLinked (principal : Principal) : Bool :=
  principal.principalType == .assumedRole &&
    (slrRoleName principal.arn).any fun name => List.isPrefixOf "AWSServiceRoleFor" name

/-- The order in which the hash set of a target is iterated. -/
structure HashOrder where
  iterate : Str → Finset Str → List Str
  coe_iterate : ∀ target s, (iterate target s : Multiset Str) = s.val

section Resolver

open OrganizationState

variable (J : Serde) (order : HashOrder)

/-- The statements of a policy: an array, or a single object. -/
def statementsOf (policy : Policy) : List Json :=
  match (J.parse policy.content).bind fun v => v.field "Statement" with
  | some (.arr items) => items
  | some (.obj fields) => [.obj fields]
  | _ => []

def statementsAt (o : OrganizationState) (policyId : Str) : List Json :=
  ((o.policies.get policyId).map (statementsOf J)).getD []

def level (o : OrganizationState) (target : Str) : List Json :=
  (order.iterate target (o.attached target)).flatMap (statementsAt J o)

def documents (o : OrganizationState) (path : List Str) : List (List Json) :=
  (path.map (level J order o)).filter (· ≠ [])

def documentText (statements : List Json) : Str :=
  J.render (.obj [("Statement", .arr statements), ("Version", .str "2012-10-17")])

/-- `scps_for`: `none` when the climb to the root needs more steps. -/
def scpsFor (fuel : ℕ) (r : Registry) (principal : Principal) : Option (Option (List Str)) :=
  match orgOfAccount r principal.accountId with
  | none => some none
  | some o =>
    if o.isManagement principal.accountId || serviceLinked principal then some none
    else match o.accounts.get principal.accountId with
      | none => some none
      | some account =>
        (Ancestry.climb o.rootId o.parentOf fuel account.parentId).map fun climbed =>
          if climbed.2 then
            some ((documents J order o (climbed.1.reverse ++ [principal.accountId])).map (documentText J))
          else none

end Resolver

end Fakecloud.Organizations
