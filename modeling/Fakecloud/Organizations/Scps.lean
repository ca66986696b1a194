import Fakecloud.Lib.JsonText
import Fakecloud.Organizations.State

/-!
# The policies on an account's path

In an organization that operations have built, the links from every unit and account lead to the root, so
the resolver's climb ends there.  What it collects on the way are the statements of every attached policy,
whatever its type: the documents are those of the service control policies as long as no attached policy
of another type has statements.
-/

namespace Fakecloud.Organizations

open Text Fakecloud.Core Fakecloud.Iam OrganizationState Ancestry List Option Except OrdMap

/-! ## Runs -/

inductive Operation
  | createOu (parentId name random : Str)
  | renameOu (ouId newName : Str)
  | deleteOu (ouId : Str)
  | moveAccount (accountId sourceParent destParent : Str)
  | enrollAccountIfMissing (accountId : Str)
  | enrollCreated (accountId : Str)
  | removeAccount (accountId : Str)
  | createPolicy (name content typeName random : Str)
  | updatePolicy (id : Str) (name content : Option Str)
  | deletePolicy (id : Str)
  | attachPolicy (policyId targetId : Str)
  | detachPolicy (policyId targetId : Str)

def Operation.run (J : Serde) (o : OrganizationState) : Operation → Except OrgError OrganizationState
  | .createOu parentId name random => o.createOu parentId name random
  | .renameOu ouId newName => o.renameOu ouId newName
  | .deleteOu ouId => o.deleteOu ouId
  | .moveAccount accountId sourceParent destParent => o.moveAccount accountId sourceParent destParent
  | .enrollAccountIfMissing accountId => .ok (o.enrollAccountIfMissing accountId)
  | .enrollCreated accountId => .ok (o.enrollCreated accountId)
  | .removeAccount accountId => o.removeAccount accountId
  | .createPolicy name content typeName random => o.createPolicy J name content typeName random
  | .updatePolicy id name content => o.updatePolicy J id name content
  | .deletePolicy id => o.deletePolicy id
  | .attachPolicy policyId targetId => o.attachPolicy policyId targetId
  | .detachPolicy policyId targetId => o.detachPolicy policyId targetId

/-- The random part of a new unit's id has not been drawn before. -/
def Operation.Fresh (o : OrganizationState) : Operation → Prop
  | .createOu _ _ random => o.ous.get (o.ouId random) = none
  | _ => True

inductive Reachable (J : Serde) : OrganizationState → Prop
  | bootstrap (managementAccountId orgRandom rootRandom : Str) :
    Reachable J (.bootstrap managementAccountId orgRandom rootRandom)
  | step {o o' : OrganizationState} (op : Operation) : Reachable J o → op.Fresh o → op.run J o = .ok o' →
    Reachable J o'

/-! ## The tree -/

/-- All links lead to the root. -/
structure Tree (o : OrganizationState) : Prop where
  rooted : Rooted o.rootId o.parentOf
  account : ∀ id a, o.accounts.get id = some a → o.isParent a.parentId = true

section Tree

variable {o o' : OrganizationState} {J : Serde}

theorem isParent_iff {id : Str} : o.isParent id = true ↔ id = o.rootId ∨ (o.parentOf id).isSome = true := by
  simp [isParent, parentOf]

theorem Tree.chain (h : Tree o) {id : Str} (hid : o.isParent id = true) :
    ∃ l, Chain o.rootId o.parentOf id l := h.rooted.chain (isParent_iff.mp hid)

theorem Tree.of_ok {ε : Type} {u : OrganizationState} (h : Tree o) (heq : ok (ε := ε) u = ok o')
    (hr : u.rootId = o.rootId) (ho : u.ous = o.ous) (hac : u.accounts = o.accounts) : Tree o' := by
  obtain rfl := ok.inj heq
  have hp : u.parentOf = o.parentOf := by
    funext id
    rw [parentOf, ho, parentOf]
  refine ⟨hr ▸ hp ▸ h.rooted, fun id a ha => ?_⟩
  rw [hac] at ha
  rw [isParent_iff, hr, hp]
  exact isParent_iff.mp (h.account id a ha)

theorem Tree.setAccount (h : Tree o) {id parent : Str} (hp : o.isParent parent = true) :
    Tree { o with accounts := o.accounts.insert id ⟨parent⟩ } := by
  refine ⟨h.rooted, fun id' a ha => ?_⟩
  rw [get_insert] at ha
  split_ifs at ha with hid
  · obtain rfl := some.inj ha
    exact hp
  · exact h.account id' a ha

theorem isParent_root (o : OrganizationState) : o.isParent o.rootId = true := by simp [isParent]

theorem Tree.createOu (h : Tree o) {parentId name random : Str} (hf : o.ous.get (o.ouId random) = none)
    (hrn : o.createOu parentId name random = .ok o') : Tree o' := by
  simp only [OrganizationState.createOu, bind_eq_ok, failIf_eq_ok, Bool.not_eq_false] at hrn
  obtain ⟨-, hp, -, -, heq⟩ := hrn
  obtain rfl := ok.inj heq
  have hs : { o with ous := o.ous.insert (o.ouId random) ⟨name, parentId⟩ }.parentOf
      (o.ouId random) = some parentId := by
    rw [parentOf, get_insert, if_pos rfl, map_some]
  have ho : ∀ y, y ≠ o.ouId random →
    { o with ous := o.ous.insert (o.ouId random) ⟨name, parentId⟩ }.parentOf y =
        o.parentOf y := by
    intro y hy
    rw [parentOf, get_insert, if_neg hy, parentOf]
  have hn : o.parentOf (o.ouId random) = none := by rw [parentOf, hf, map_none]
  refine ⟨h.rooted.insert hn (isParent_iff.mp hp) hs ho, fun id a ha => ?_⟩
  rcases isParent_iff.mp (h.account id a ha) with hr | hou
  · exact isParent_iff.mpr (.inl hr)
  · refine isParent_iff.mpr (.inr ?_)
    rwa [ho a.parentId fun heq => by rw [heq, hn] at hou; cases hou]

theorem Tree.renameOu (h : Tree o) {ouId newName : Str}
    (hr : o.renameOu ouId newName = .ok o') : Tree o' := by
  simp only [OrganizationState.renameOu, bind_eq_ok, orFail_eq_ok] at hr
  obtain ⟨ou, hou, -, -, heq⟩ := hr
  obtain rfl := ok.inj heq
  have hp : ({ o with ous := o.ous.insert ouId { ou with name := newName } }).parentOf = o.parentOf := by
    funext id
    rw [parentOf, get_insert, parentOf]
    split_ifs with hid
    · rw [hid, hou]
      rfl
    · rfl
  refine ⟨hp ▸ h.rooted, fun id a ha => ?_⟩
  rw [isParent_iff, hp]
  exact isParent_iff.mp (h.account id a ha)

theorem Tree.deleteOu (h : Tree o) {ouId : Str} (hr : o.deleteOu ouId = .ok o') : Tree o' := by
  simp only [OrganizationState.deleteOu, bind_eq_ok, failIf_eq_ok, not_or, Bool.not_eq_true,
    List.any_eq_false, beq_iff_eq, Prod.forall] at hr
  obtain ⟨-, -, -, ⟨hos, hac⟩, heq⟩ := hr
  obtain rfl := ok.inj heq
  have hl : ∀ z, o.parentOf z ≠ some ouId := by
    intro z hz
    obtain ⟨ou, hou, hp⟩ := map_eq_some_iff.mp hz
    exact hos z ou (mem_entries.mpr hou) hp
  have hg : { o with attachments := o.attachments.erase ouId, ous := o.ous.erase ouId }.parentOf ouId =
      none := by
    rw [parentOf, get_erase, if_pos rfl, map_none]
  have ho : ∀ y, y ≠ ouId →
      { o with attachments := o.attachments.erase ouId, ous := o.ous.erase ouId }.parentOf y =
        o.parentOf y := by
    intro y hy
    rw [parentOf, get_erase, if_neg hy, parentOf]
  refine ⟨h.rooted.erase hl hg ho, fun id a ha => ?_⟩
  have hne : a.parentId ≠ ouId := hac id a (mem_entries.mpr ha)
  rw [isParent_iff, ho _ hne]
  exact isParent_iff.mp (h.account id a ha)

theorem Tree.moveAccount (h : Tree o) {accountId sourceParent destParent : Str}
    (hr : o.moveAccount accountId sourceParent destParent = .ok o') : Tree o' := by
  simp only [OrganizationState.moveAccount, bind_eq_ok, failIf_eq_ok, Bool.not_eq_false] at hr
  obtain ⟨account, -, -, -, -, hd, heq⟩ := hr
  obtain rfl := ok.inj heq
  exact h.setAccount hd

theorem Tree.removeAccount (h : Tree o) {accountId : Str}
    (hr : o.removeAccount accountId = .ok o') : Tree o' := by
  simp only [OrganizationState.removeAccount, bind_eq_ok] at hr
  obtain ⟨-, -, -, -, heq⟩ := hr
  obtain rfl := ok.inj heq
  exact ⟨h.rooted, fun id a ha => h.account id a (get_of_get_erase ha)⟩

theorem Tree.run (h : Tree o) {op : Operation} (hf : op.Fresh o) (hr : op.run J o = .ok o') : Tree o' := by
  cases op with
  | createOu parentId name random => exact h.createOu hf hr
  | renameOu ouId newName => exact h.renameOu hr
  | deleteOu ouId => exact h.deleteOu hr
  | moveAccount accountId sourceParent destParent => exact h.moveAccount hr
  | enrollAccountIfMissing accountId =>
    obtain rfl := ok.inj hr
    unfold enrollAccountIfMissing
    split_ifs
    · exact h
    · exact h.setAccount (isParent_root o)
  | enrollCreated accountId =>
    obtain rfl := ok.inj hr
    exact h.setAccount (isParent_root o)
  | removeAccount accountId => exact h.removeAccount hr
  | createPolicy name content typeName random =>
    simp only [Operation.run, createPolicy, bind_eq_ok] at hr
    obtain ⟨_, -, -, -, -, -, heq⟩ := hr
    exact h.of_ok heq rfl rfl rfl
  | updatePolicy id name content =>
    simp only [Operation.run, updatePolicy, bind_eq_ok] at hr
    obtain ⟨_, -, -, -, -, -, heq⟩ := hr
    exact h.of_ok heq rfl rfl rfl
  | deletePolicy id =>
    simp only [Operation.run, deletePolicy, bind_eq_ok] at hr
    obtain ⟨_, -, -, -, heq⟩ := hr
    exact h.of_ok heq rfl rfl rfl
  | attachPolicy policyId targetId =>
    simp only [Operation.run, attachPolicy, bind_eq_ok] at hr
    obtain ⟨_, -, -, -, heq⟩ := hr
    exact h.of_ok heq rfl rfl rfl
  | detachPolicy policyId targetId =>
    simp only [Operation.run, detachPolicy, bind_eq_ok] at hr
    obtain ⟨_, -, -, -, -, -, heq⟩ := hr
    exact h.of_ok heq rfl rfl rfl

theorem Reachable.tree (h : Reachable J o) : Tree o := by
  induction h with
  | bootstrap managementAccountId orgRandom rootRandom =>
    refine ⟨fun x p hp => ?_, fun id a ha => ?_⟩
    · cases hp
    · rw [OrganizationState.bootstrap, get_insert] at ha
      split_ifs at ha
      · obtain rfl := some.inj ha
        exact isParent_root _
      · cases ha
  | step op _ hf hr ih => exact ih.run hf hr

end Tree

/-! ## Documents -/

/-- The targets whose policies apply to an account, root first and the account last. -/
def PathTo (o : OrganizationState) (accountId : Str) (path : List Str) : Prop :=
  ∃ account chain, o.accounts.get accountId = some account ∧
    Chain o.rootId o.parentOf account.parentId chain ∧ path = chain.reverse ++ [accountId]

section Documents

variable (J : Serde) (order : HashOrder)

def scpStatementsAt (o : OrganizationState) (policyId : Str) : List Json :=
  (((o.policies.get policyId).filter fun p => p.policyType == .serviceControl).map (statementsOf J)).getD []

/-- One document for every target with statements of service control policies, and those in it. -/
def scpDocuments (o : OrganizationState) (path : List Str) : List (List Json) :=
  (path.map fun target => (order.iterate target (o.attached target)).flatMap (scpStatementsAt J o)).filter
    (· ≠ [])

/-- No attached policy of another type has statements. -/
def OnlyScps (o : OrganizationState) (path : List Str) : Prop :=
  ∀ target ∈ path, ∀ policyId ∈ o.attached target, ∀ policy, o.policies.get policyId = some policy →
    policy.policyType ≠ .serviceControl → statementsOf J policy = []

variable {J order} {o : OrganizationState} {path : List Str}

theorem mem_iterate {target policyId : Str} {s : Finset Str} :
    policyId ∈ order.iterate target s ↔ policyId ∈ s := by
  rw [← Finset.mem_val, ← order.coe_iterate target s, Multiset.mem_coe]

/-- Shorter pieces add up to the same list only when no piece is shorter. -/
theorem flatMap_eq_iff {α β : Type} {f g : α → List β} (hle : ∀ x, (g x).length ≤ (f x).length) (l : List α) :
    l.flatMap f = l.flatMap g ↔ ∀ x ∈ l, f x = g x := by
  have hs : ∀ l : List α, (l.flatMap g).length ≤ (l.flatMap f).length := by
    intro l
    induction l with
    | nil => exact le_rfl
    | cons x l ih =>
      have hx := hle x
      simp only [flatMap_cons, length_append]
      omega
  induction l with
  | nil => simp
  | cons x l ih =>
    rw [flatMap_cons, flatMap_cons, forall_mem_cons]
    constructor
    · intro h
      have hln : (f x).length = (g x).length := by
        have ht := congrArg List.length h
        have hx := hle x
        have hl := hs l
        simp only [length_append] at ht
        omega
      obtain ⟨hx, hl⟩ := append_inj h hln
      exact ⟨hx, ih.mp hl⟩
    · rintro ⟨hx, hl⟩
      rw [hx, ih.mpr hl]

theorem length_scpStatementsAt_le (policyId : Str) :
    (scpStatementsAt J o policyId).length ≤ (statementsAt J o policyId).length := by
  unfold scpStatementsAt statementsAt
  cases o.policies.get policyId with
  | none => exact le_rfl
  | some policy =>
    rw [filter_some]
    split_ifs
    · exact le_rfl
    · exact Nat.zero_le _

theorem statementsAt_eq_iff (policyId : Str) : statementsAt J o policyId = scpStatementsAt J o policyId ↔
    ∀ policy, o.policies.get policyId = some policy → policy.policyType ≠ .serviceControl →
      statementsOf J policy = [] := by
  unfold scpStatementsAt statementsAt
  cases o.policies.get policyId with
  | none => simp
  | some policy =>
    rw [filter_some]
    by_cases ht : policy.policyType = .serviceControl
    · simp [ht]
    · simp [ht]

/-- The documents are those of the service control policies exactly when no other policy has statements. -/
theorem documents_eq_iff : documents J order o path = scpDocuments J order o path ↔ OnlyScps J o path := by
  have hl : ∀ target, level J order o target =
      (order.iterate target (o.attached target)).flatMap (scpStatementsAt J o) ↔
        ∀ policyId ∈ o.attached target, ∀ policy, o.policies.get policyId = some policy →
          policy.policyType ≠ .serviceControl → statementsOf J policy = [] := by
    intro target
    rw [level, flatMap_eq_iff length_scpStatementsAt_le]
    simp only [mem_iterate, statementsAt_eq_iff]
  have hle : ∀ target, ((order.iterate target (o.attached target)).flatMap (scpStatementsAt J o)).length ≤
      (level J order o target).length := by
    intro target
    rw [level, length_flatMap, length_flatMap]
    exact sum_le_sum fun policyId _ => length_scpStatementsAt_le policyId
  constructor
  · intro h
    have hf := congrArg flatten h
    rw [documents, scpDocuments, flatten_filter_ne_nil, flatten_filter_ne_nil, ← flatMap_def,
      ← flatMap_def, flatMap_eq_iff hle] at hf
    exact fun target ht => (hl target).mp (hf target ht)
  · intro h
    rw [documents]
    congr 1
    exact map_congr_left fun target ht => (hl target).mpr (h target ht)

end Documents

/-! ## Attachments -/

section Attachments

variable {J : Serde} {order order' : HashOrder} {o o' : OrganizationState} {path : List Str}
  {policyId targetId : Str} {policy : Policy}

def Changes (o o' : OrganizationState) (policyId targetId : Str) : Prop :=
  o.attachPolicy policyId targetId = .ok o' ∨ o.detachPolicy policyId targetId = .ok o'

/-- What such a change leaves alone. -/
structure Changed (o o' : OrganizationState) (policyId targetId : Str) : Prop where
  rootId : o'.rootId = o.rootId
  ous : o'.ous = o.ous
  accounts : o'.accounts = o.accounts
  policies : o'.policies = o.policies
  attached_of_ne : ∀ target, target ≠ targetId → o'.attached target = o.attached target
  attached_self : (policyId ∈ o'.attached targetId ∧ o'.attached targetId =
    insert policyId (o.attached targetId)) ∨
    (policyId ∈ o.attached targetId ∧ o.attached targetId = insert policyId (o'.attached targetId))

theorem Changes.changed (h : Changes o o' policyId targetId) : Changed o o' policyId targetId := by
  rcases h with h | h
  · simp only [attachPolicy, bind_eq_ok] at h
    obtain ⟨_, -, -, -, heq⟩ := h
    obtain rfl := ok.inj heq
    refine ⟨rfl, rfl, rfl, rfl, fun target hne => ?_, .inl ?_⟩
    · rw [attached_setAttached, if_neg hne]
    · rw [attached_setAttached, if_pos rfl]
      exact ⟨Finset.mem_insert_self _ _, rfl⟩
  · simp only [detachPolicy, bind_eq_ok, failIf_eq_ok, not_not] at h
    obtain ⟨_, -, -, -, -, ha, heq⟩ := h
    obtain rfl := ok.inj heq
    refine ⟨rfl, rfl, rfl, rfl, fun target hne => ?_, .inr ⟨ha, ?_⟩⟩
    · rw [attached_setAttached, if_neg hne]
    · rw [attached_setAttached, if_pos rfl, Finset.insert_erase ha]

theorem Changed.pathTo (h : Changed o o' policyId targetId) {accountId : Str}
    (hpt : PathTo o accountId path) :
    PathTo o' accountId path := by
  obtain ⟨account, chain, ha, hc, rfl⟩ := hpt
  refine ⟨account, chain, h.accounts ▸ ha, ?_, rfl⟩
  have hp : o'.parentOf = o.parentOf := by
    funext id
    rw [parentOf, h.ous, parentOf]
  rw [h.rootId, hp]
  exact hc

/-- Off the path nothing changes. -/
theorem Changed.documents_of_not_mem (h : Changed o o' policyId targetId) (ht : targetId ∉ path) :
    documents J order o' path = documents J order o path := by
  rw [documents]
  congr 1
  refine map_congr_left fun target hm => ?_
  have hne : target ≠ targetId := fun heq => ht (heq ▸ hm)
  have hs : statementsAt J o' = statementsAt J o := by
    funext id
    rw [statementsAt, h.policies, statementsAt]
  rw [level, level, h.attached_of_ne target hne, hs]

theorem coe_level (target : Str) : (level J order o target : Multiset Json) =
    (o.attached target).val.bind fun id => (statementsAt J o id : Multiset Json) := by
  rw [level, ← order.coe_iterate target, Multiset.coe_bind]

/-- A policy without statements adds none. -/
theorem bind_insert {s : Finset Str} {f : Str → Multiset Json} (hz : f policyId = 0) :
    (insert policyId s).val.bind f = s.val.bind f := by
  by_cases hm : policyId ∈ s
  · rw [Finset.insert_eq_of_mem hm]
  · rw [Finset.insert_val_of_notMem hm, Multiset.cons_bind, hz, zero_add]

theorem Changed.level_perm (h : Changed o o' policyId targetId) (hp : o.policies.get policyId = some policy)
    (hty : policy.policyType ≠ .serviceControl) (ho : OnlyScps J o path) (ho' : OnlyScps J o' path)
    {target : Str} (hm : target ∈ path) : (level J order' o' target).Perm (level J order o target) := by
  have hs : statementsAt J o' = statementsAt J o := by
    funext id
    rw [statementsAt, h.policies, statementsAt]
  rw [← Multiset.coe_eq_coe, coe_level, coe_level, hs]
  by_cases ht : target = targetId
  · subst ht
    have he : statementsOf J policy = [] := by
      rcases h.attached_self with ⟨hin, -⟩ | ⟨hin, -⟩
      · exact ho' target hm policyId hin policy (h.policies ▸ hp) hty
      · exact ho target hm policyId hin policy hp hty
    have hz : (statementsAt J o policyId : Multiset Json) = 0 := by
      rw [statementsAt, hp, map_some, he]
      rfl
    rcases h.attached_self with ⟨-, heq⟩ | ⟨-, heq⟩
    · rw [heq, bind_insert hz]
    · rw [heq, bind_insert hz]
  · rw [h.attached_of_ne target ht]

theorem Changed.documents_perm (h : Changed o o' policyId targetId)
    (hpl : o.policies.get policyId = some policy) (ht : policy.policyType ≠ .serviceControl)
    (ho : OnlyScps J o path) (ho' : OnlyScps J o' path) :
    List.Forall₂ List.Perm (documents J order' o' path) (documents J order o path) := by
  have hl : ∀ target ∈ path, (level J order' o' target).Perm (level J order o target) :=
    fun target hm => h.level_perm hpl ht ho ho' hm
  unfold documents
  clear ho ho'
  induction path with
  | nil => exact .nil
  | cons target path ih =>
    have hp := hl target mem_cons_self
    have hr := ih fun target' hm => hl target' (mem_cons_of_mem _ hm)
    rw [map_cons, map_cons]
    by_cases hn : level J order o target = []
    · have hn' : level J order' o' target = [] := by
        rw [hn] at hp
        exact hp.eq_nil
      simpa [hn, hn'] using hr
    · have hne : level J order' o' target ≠ [] := fun hn' => hn (hn' ▸ hp).symm.eq_nil
      rw [filter_cons_of_pos (by simpa using hne), filter_cons_of_pos (by simpa using hn)]
      exact .cons hp hr

end Attachments

/-! ## The main result -/

/-- **The documents on an account's path.**  The climb of the resolver reaches the root, and it returns a
document for each target with statements.  They are those of the service control policies exactly when no
policy of another type on the path has statements.  A change off the path leaves the documents as they are,
and so does, but for the order, one of another type while that holds. -/
theorem scps_on_path_iff (J : Serde) (order : HashOrder) (r : Registry)
    (hreach : ∀ id o, r.get id = some o → Reachable J o) (principal : Principal) (o : OrganizationState)
    (horg : orgOfAccount r principal.accountId = some o)
    (hmanagement : o.isManagement principal.accountId = false) (hlinked : serviceLinked principal = false) :
    ∃ path, PathTo o principal.accountId path ∧
      (∃ steps, ∀ fuel ≥ steps, scpsFor J order fuel r principal =
        some (some ((documents J order o path).map (documentText J)))) ∧
      (documents J order o path = scpDocuments J order o path ↔ OnlyScps J o path) ∧
      (∀ o' policyId targetId, Changes o o' policyId targetId →
        PathTo o' principal.accountId path ∧
        (targetId ∉ path → documents J order o' path = documents J order o path) ∧
        ∀ policy, o.policies.get policyId = some policy → policy.policyType ≠ .serviceControl →
          OnlyScps J o path → OnlyScps J o' path →
          ∀ order', List.Forall₂ List.Perm (documents J order' o' path) (documents J order o path)) ∧
      ∀ accountId, (o.accounts.get accountId).isSome → ∃ path, PathTo o accountId path := by
  obtain ⟨entry, he, rfl⟩ := map_eq_some_iff.mp horg
  have hs := find?_some he
  obtain ⟨account, ha⟩ := isSome_iff_exists.mp hs
  have ht := (hreach entry.1 _ (mem_entries.mp (mem_of_find?_eq_some he))).tree
  obtain ⟨chain, hch⟩ := ht.chain (ht.account _ account ha)
  refine ⟨chain.reverse ++ [principal.accountId], ⟨account, chain, ha, hch, rfl⟩,
    ⟨chain.length, fun fuel hf => ?_⟩, documents_eq_iff, fun o' policyId targetId hcha => ?_,
    fun accountId hac => ?_⟩
  · simp only [scpsFor, horg, hmanagement, hlinked, Bool.or_self, Bool.false_eq_true, if_false, ha,
      hch.climb hf, map_some, if_true]
  · have hc := hcha.changed
    exact ⟨hc.pathTo ⟨account, chain, ha, hch, rfl⟩, hc.documents_of_not_mem,
      fun policy hp hty ho ho' order' => hc.documents_perm hp hty ho ho'⟩
  · obtain ⟨account', ha'⟩ := isSome_iff_exists.mp hac
    obtain ⟨chain', hch'⟩ := ht.chain (ht.account _ account' ha')
    exact ⟨_, account', chain', ha', hch', rfl⟩

/-! ### A resource control policy on an account -/

namespace Example

def allowAll : Json := .obj [("Effect", .str "Allow"), ("Action", .str "*"), ("Resource", .str "*")]

/-- A reader that knows the text of `FullAWSAccess`. -/
def serde : Serde where
  parse text :=
    if text = fullAwsAccessContent then some
      (.obj [("Version", .str "2012-10-17"), ("Statement", .arr [allowAll])])
    else none
  render := Json.write

def sorted : HashOrder where
  iterate _ s := s.sort
  coe_iterate _ s := s.sort_eq (· ≤ ·)

def member : Str := "222222222222"

/-- A member account, and a resource control policy that is not attached yet. -/
def before : OrganizationState :=
  let o := (OrganizationState.bootstrap "111111111111" "1" "1").enrollAccountIfMissing member
  { o with policies := o.policies.insert "p-1" ⟨"rcp", .resourceControl, false, fullAwsAccessContent⟩ }

def after : OrganizationState := before.setAttached member {"p-1".toList}

def alice : Principal := ⟨"arn:aws:iam::222222222222:user/alice", "AIDA", member, .user, none, none⟩

def registry (o : OrganizationState) : Registry := (OrdMap.empty : Registry).insert "o-1" o

theorem reachable_before : Reachable serde before := by
  refine .step (.createPolicy "rcp" fullAwsAccessContent "RESOURCE_CONTROL_POLICY" "1")
    (.step (.enrollAccountIfMissing member) (.bootstrap "111111111111" "1" "1") trivial rfl) trivial ?_
  rfl

/-- Attaching a policy that is no service control policy adds a document. -/
theorem other_type_collected : Reachable serde before ∧ before.attachPolicy "p-1" member = .ok after ∧
    (before.policies.get "p-1").map Policy.policyType = some .resourceControl ∧
    scpsFor serde sorted 2 (registry before) alice = some (some [documentText serde [allowAll]]) ∧
    scpsFor serde sorted 2 (registry after) alice =
      some (some [documentText serde [allowAll], documentText serde [allowAll]]) ∧
    documents serde sorted after ["r-1".toList, member] ≠ scpDocuments serde sorted after
      ["r-1".toList, member] := by
  refine ⟨reachable_before, rfl, rfl, ?_, ?_, fun h => ?_⟩
  · decide +kernel
  · decide +kernel
  · exact absurd (congrArg List.length h) (by decide +kernel)

theorem reachable_registry : ∀ id o, (registry before).get id = some o → Reachable serde o := by
  intro id o h
  rw [registry, get_insert] at h
  split_ifs at h
  · rw [← some.inj h]
    exact reachable_before
  · cases h

end Example

open Example in
theorem scps_on_path_member : ∃ path, PathTo before member path ∧
    (∃ steps, ∀ fuel ≥ steps, scpsFor serde sorted fuel (registry before) Organizations.Example.alice =
      some (some ((documents serde sorted before path).map (documentText serde)))) ∧
    (documents serde sorted before path = scpDocuments serde sorted before path ↔
      OnlyScps serde before path) := by
  obtain ⟨path, hp, hs, he, -⟩ := scps_on_path_iff serde sorted (registry before) reachable_registry
    Organizations.Example.alice before (by rfl) (by decide) (by decide)
  exact ⟨path, hp, hs, he⟩

end Fakecloud.Organizations
