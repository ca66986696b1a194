import Fakecloud.Cloudformation.Dependencies

/-!
# CloudFormation: the references that resolution follows

The resolution of properties follows a reference to a resource when what is known of the resource makes a
difference; of an `Fn::If` it follows one of the two branches.  `dependency_order` collects the references
that are written, in every value.

## Main results

* `dependencyOrder_topological` — where both take the same references the order is the topological one with
  the least index first.
-/

namespace Fakecloud.Cloudformation

open Text

section

variable (T : Templates) (templateBody : Str) (parameters : Params) (definitions : List ResourceDefinition)
  (physicalIds : StrMap Str) (attributes : StrMap (StrMap Str)) (imports : StrMap Str)

/-- The properties of a definition depend on the id or the attributes of a resource. -/
def Follows (d : ResourceDefinition) (name : Str) : Prop :=
  ∃ physicalIds' attributes', (∀ n ≠ name, physicalIds'.get n = physicalIds.get n ∧
      attributes'.get n = attributes.get n) ∧
    T.resolve templateBody parameters d physicalIds' attributes' imports ≠
      T.resolve templateBody parameters d physicalIds attributes imports

/-- A resource has to be created after another. -/
def Requires (i j : ℕ) : Prop :=
  ∃ d e, definitions[i]? = some d ∧ definitions[j]? = some e ∧
    ((∃ resources raw, T.resources templateBody parameters = .ok resources ∧
        resources.lookup d.logicalId = some raw ∧ e.logicalId ∈ dependsOn raw) ∨
      Follows T templateBody parameters physicalIds attributes imports d e.logicalId)

/-- A reference of one resource to another is written. -/
def Writes (resources : List (Str × Json)) (i j : ℕ) : Prop :=
  let ids := definitions.map ResourceDefinition.logicalId
  j ≠ i ∧ ∃ a b, ids[i]? = some a ∧ ids[j]? = some b ∧ Refers resources ids a b

/-- If the references that are followed have no cycle, they are written, and those written have none. -/
def OrderSafe (resources : List (Str × Json)) : Prop :=
  (∀ i,
    ¬Relation.TransGen (Requires T templateBody parameters definitions physicalIds attributes imports) i i) →
    TemplateAgrees resources (definitions.map ResourceDefinition.logicalId) ∧
    (∀ i j, j ≠ i → Requires T templateBody parameters definitions physicalIds attributes imports i j →
      Writes definitions resources i j) ∧
    ∀ i, ¬Relation.TransGen (Writes definitions resources) i i

/-- A dependency order is a permutation.  **Without a cycle of the references that are followed it is
topological**, where these are written and the ones that are written have no cycle; where only these are
written, what could stand at one place is in the original order. -/
theorem dependencyOrder_topological :
    (T.dependencyOrder templateBody parameters definitions).Perm (List.range definitions.length) ∧
    ∀ resources, T.resources templateBody parameters = .ok resources →
      OrderSafe T templateBody parameters definitions physicalIds attributes imports resources →
      (∀ i, ¬Relation.TransGen
        (Requires T templateBody parameters definitions physicalIds attributes imports) i i) →
      ∀ l i l', T.dependencyOrder templateBody parameters definitions = l ++ i :: l' →
        (∀ j, Requires T templateBody parameters definitions physicalIds attributes imports i j → j ∈ l) ∧
        ((∀ i j, Writes definitions resources i j →
            Requires T templateBody parameters definitions physicalIds attributes imports i j) →
          ∀ k < definitions.length, k ∉ l →
            (∀ j, Requires T templateBody parameters definitions physicalIds attributes imports k j → j ∈ l) →
              i ≤ k) := by
  generalize hids : definitions.map ResourceDefinition.logicalId = ids
  have hlen : ids.length = definitions.length := by rw [← hids, List.length_map]
  constructor
  · rw [Templates.dependencyOrder, hids]
    split
    · exact .refl _
    · exact hlen ▸ dependencyOrder_perm _ ids
  · intro resources hr hsafe hac l i l' heq
    obtain ⟨hag, hw, hacw⟩ := hsafe hac
    rw [hids] at hag
    have hd : Writes definitions resources = fun i j => j ∈ dependencies resources ids i := by
      funext i j
      rw [Writes, hids, mem_dependencies hag]
    rw [hd] at hw hacw ⊢
    rw [Templates.dependencyOrder, hr, hids] at heq
    dsimp only at heq
    rw [dependencyOrder_eq] at heq
    constructor
    · intro j hj
      have hne : j ≠ i := by
        rintro rfl
        exact hac j (.single hj)
      exact (Kahn.sort_closed graph_dependencies hacw).mem heq (hw i j hne hj)
    · intro hre k hk hkl hall
      exact Kahn.sort_least graph_dependencies hacw heq (hlen ▸ hk) hkl fun j hj => hall j (hre k j hj)

end

namespace Example

/-- The first branch is not taken. -/
def conditional : Json :=
  .obj [("Fn::If", .arr [.str "Big", .obj [("Ref", .str "B")], .str "x"])]

/-- The first resource depends on the second one. -/
def pair (a : Json) : List (Str × Json) :=
  [("B", .obj [("DependsOn", .str "A")]), ("A", .obj [("Properties", a)])]

def pairTemplate (a : Json) : Templates := .plain fun _ => .ok (.obj [("Resources", .obj (pair a))])

def pairDefinitions : List ResourceDefinition := [⟨"B", "X", .obj []⟩, ⟨"A", "X", .obj []⟩]

def listing : List Str := ["B", "A"]

def PairRequires (a : Json) : ℕ → ℕ → Prop :=
    Requires (pairTemplate a) [] .empty pairDefinitions .empty .empty .empty

theorem requires_pair {a : Json} (ha : ∀ name, ¬Follows (pairTemplate a) [] .empty .empty .empty .empty
    ⟨"A", "X", .obj []⟩ name) : ∀ i j, PairRequires a i j ↔ i = 0 ∧ j = 1
  | 0, 0 => by
    refine ⟨?_, nofun⟩
    rintro ⟨_, _, ⟨⟩, ⟨⟩, ⟨_, _, ⟨⟩, ⟨⟩, hm⟩ | ⟨_, _, -, hf⟩⟩
    · exact absurd hm (by decide)
    · exact absurd rfl hf
  | 0, 1 => ⟨fun _ => ⟨rfl, rfl⟩, fun _ => ⟨_, _, rfl, rfl, .inl ⟨_, _, rfl, rfl, List.mem_singleton_self _⟩⟩⟩
  | 0, j + 2 => ⟨fun ⟨_, _, _, h, _⟩ => (nomatch h), nofun⟩
  | 1, j => by
    refine ⟨?_, nofun⟩
    rintro ⟨_, _, ⟨⟩, -, ⟨_, _, ⟨⟩, ⟨⟩, ⟨⟩⟩ | hf⟩
    exact absurd hf (ha _)
  | i + 2, j => ⟨fun ⟨_, _, h, _⟩ => (nomatch h), nofun⟩

theorem not_cyclic {r : ℕ → ℕ → Prop} (hr : ∀ i j, r i j ↔ i = 0 ∧ j = 1) (i : ℕ) :
    ¬Relation.TransGen r i i := by
  intro h
  have hc := h.lift id fun i j h => show i < j by
    obtain ⟨rfl, rfl⟩ := (hr i j).mp h
    exact Nat.one_pos
  rw [Relation.transGen_eq_self] at hc
  exact lt_irrefl _ hc

/-- The branch that is not taken makes a cycle, and the first resource is created first. -/
theorem unused_branch_reorders : (∀ i, ¬Relation.TransGen (PairRequires conditional) i i) ∧
    PairRequires conditional 0 1 ∧
    (pairTemplate conditional).dependencyOrder [] .empty pairDefinitions = [0, 1] := by
  have hr := requires_pair (a := conditional) (by rintro name ⟨_, _, -, hf⟩; exact hf rfl)
  exact ⟨not_cyclic hr, (hr 0 1).mpr ⟨rfl, rfl⟩, by decide +kernel⟩

theorem orderSafe_pair :
    OrderSafe (pairTemplate (.obj [])) [] .empty pairDefinitions .empty .empty .empty (pair (.obj [])) := by
  have hr := requires_pair (a := .obj []) (by rintro name ⟨_, _, -, hf⟩; exact hf rfl)
  have hag : TemplateAgrees (pair (.obj [])) listing := by
    intro id hid fields sub text locals hf hs
    rcases List.mem_pair.mp hid with rfl | rfl <;> obtain rfl :=
      Json.obj.inj (List.mem_singleton.mp hf) <;> cases hs
  have hw : ∀ i j, Writes pairDefinitions (pair (.obj [])) i j ↔ i = 0 ∧ j = 1 := by
    intro i j
    refine (mem_dependencies hag).symm.trans ?_
    match i with
    | 0 => simp [show dependencies (pair (.obj [])) listing 0 = [1] by decide +kernel]
    | 1 => simp [show dependencies (pair (.obj [])) listing 1 = [] by decide +kernel]
    | i + 2 => exact ⟨nofun, nofun⟩
  exact fun _ => ⟨hag, fun i j _ h => (hw i j).mpr ((hr i j).mp h), not_cyclic hw⟩

theorem topological_pair : ∃ l l',
    (pairTemplate (.obj [])).dependencyOrder [] .empty pairDefinitions = l ++ 0 :: l' ∧ 1 ∈ l := by
  have hr := requires_pair (a := .obj []) (by rintro name ⟨_, _, -, hf⟩; exact hf rfl)
  exact ⟨[1], [],
    by decide +kernel, ((dependencyOrder_topological (pairTemplate (.obj [])) [] .empty pairDefinitions
    .empty .empty .empty).2 _ rfl orderSafe_pair (not_cyclic hr) [1] 0 [] (by decide +kernel)).1 1
      ((hr 0 1).mpr ⟨rfl, rfl⟩)⟩

end Example

end Fakecloud.Cloudformation
