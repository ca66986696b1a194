import Fakecloud.Aws.EventPattern

/-!
# What a matched event satisfies

`Satisfied` says what a pattern asks for: each constraint list holds of some value at its path, and of
each `$or` one alternative is satisfied.  The matcher skips an `$or` that is not a list, and the check
accepts one that is an object.  For the other patterns a match satisfies the pattern
(`no_constraint_ignored`).
-/

namespace Fakecloud.Aws.EventPattern

open Text List

/-! ## Arrays on the way -/

mutual

theorem crush_crushed : (j : Json) → ∀ n ∈ crush j, crushed n = [n]
  | .arr [] => by simp [crush, crushed]
  | .arr (item :: items) => by
    intro n hn
    rcases mem_append.mp (by simpa only [crush] using hn) with h | h
    · exact crush_crushed item n h
    · exact crushItems_crushed items n h
  | .null | .bool _ | .num _ | .str _ | .obj _ => by simp [crush, crushed]

theorem crushItems_crushed : (l : List Json) → ∀ n ∈ crushItems l, crushed n = [n]
  | [] => by simp [crushItems]
  | item :: items => by
    intro n hn
    rcases mem_append.mp (by simpa only [crushItems] using hn) with h | h
    · exact crush_crushed item n h
    · exact crushItems_crushed items n h

end

theorem crushed_of_mem {node n : Option Json} (h : n ∈ crushed node) : crushed n = [n] := by
  cases node with
  | none => rw [mem_singleton.mp h, crushed]
  | some j => exact crush_crushed j n h

/-! ## What the matcher has checked -/

theorem mem_of_getMember {members : List (Str × Json)} {k : Str} {v : Json}
    (h : getMember members k = some v) : (k, v) ∈ members := by
  obtain ⟨l₁, l₂, rfl, -⟩ := List.lookup_eq_some_iff.mp h
  simp

section Checked

variable {R : Readers} {members : List (Str × Json)} {node : Option Json}

theorem matchObject_obj : matchObject R (.obj members) node ↔
    ∃ n ∈ crushed node, matchMembers R members n ∧ matchOr R members n := by
  rw [matchObject, any_eq_true]
  simp only [Bool.and_eq_true]

theorem matchMember_of_get (h : matchMembers R members node) {k : Str} {sub : Json}
    (hs : getMember members k = some sub) (hk : k ≠ orKey) : matchMember R node k sub := by
  rw [matchMembers_eq, all_eq_true] at h
  simpa [hk] using h _ (mem_of_getMember hs)

theorem matchObject_of_mem {p : Json} {n : Option Json} (hn : n ∈ crushed node)
    (h : matchObject R p n) : matchObject R p node := by
  cases p with
  | obj members =>
    obtain ⟨m, hm, hmt⟩ := matchObject_obj.mp h
    rw [crushed_of_mem hn, mem_singleton] at hm
    exact matchObject_obj.mpr ⟨n, hn, hm ▸ hmt⟩
  | null | bool | num | str | arr => cases h

end Checked

/-! ## What a pattern asks for -/

/-- A value at a path below a node; on the way an array stands for each of its elements. -/
inductive Found : Option Json → List Str → Option Json → Prop
  | here (node : Option Json) : Found node [] node
  | down {node n : Option Json} {k : Str} {path : List Str} {value : Option Json}
      (hn : n ∈ crushed node) (h : Found (child n k) path value) : Found node (k :: path) value

/-- A constraint list of a pattern, outside `$or`. -/
inductive LeafAt : Json → List Str → List Json → Prop
  | here {members : List (Str × Json)} {k : Str} {list : List Json} (hk : k ≠ orKey)
      (h : getMember members k = some (.arr list)) : LeafAt (.obj members) [k] list
  | down {members : List (Str × Json)} {k : Str} {o : List (Str × Json)} {path : List Str}
      {list : List Json} (hk : k ≠ orKey) (h : getMember members k = some (.obj o))
      (hrest : LeafAt (.obj o) path list) : LeafAt (.obj members) (k :: path) list

/-- An `$or` of a pattern, outside other alternatives. -/
inductive OrAt : Json → List Str → Json → Prop
  | here {members : List (Str × Json)} {v : Json} (h : getMember members orKey = some v) :
      OrAt (.obj members) [] v
  | down {members : List (Str × Json)} {k : Str} {o : List (Str × Json)} {path : List Str} {v : Json}
      (hk : k ≠ orKey) (h : getMember members k = some (.obj o)) (hrest : OrAt (.obj o) path v) :
      OrAt (.obj members) (k :: path) v

/-- Every constraint list of the pattern holds of some value at its path.  For the `$or` at each path
one of its alternatives is satisfied there. -/
inductive Satisfied (R : Readers) : Json → Option Json → Prop
  | intro {pattern : Json} {node : Option Json}
      (leaves : ∀ path list, LeafAt pattern path list →
        ∃ value, Found node path value ∧ matchList R list value)
      (alternative : List Str → List (Str × Json)) (place : List Str → Option Json)
      (ors : ∀ path v, OrAt pattern path v →
        (∃ alts, v = .arr alts ∧ .obj (alternative path) ∈ alts) ∧ Found node path (place path))
      (chosen : ∀ path v, OrAt pattern path v → Satisfied R (.obj (alternative path)) (place path)) :
      Satisfied R pattern node

/-! ## Patterns whose alternations are lists -/

mutual

/-- No `$or` of the pattern is an object. -/
def orsAreLists : Json → Bool
  | .obj members => listMembers members
  | _ => true

def listMembers : List (Str × Json) → Bool
  | [] => true
  | (k, v) :: members =>
    (match v with
      | .obj o => k != orKey && orsAreLists (.obj o)
      | .arr alts => if k = orKey then listAlternatives alts else true
      | _ => true) && listMembers members

def listAlternatives : List Json → Bool
  | [] => true
  | alt :: alts => orsAreLists alt && listAlternatives alts

end

def listMember (k : Str) : Json → Bool
  | .obj o => k != orKey && orsAreLists (.obj o)
  | .arr alts => if k = orKey then alts.all orsAreLists else true
  | _ => true

section Accepted

variable {p : Json} {path : List Str} {v : Json}

theorem listAlternatives_eq (alts : List Json) : listAlternatives alts = alts.all orsAreLists := by
  induction alts with
  | nil => rfl
  | cons alt alts ih => rw [listAlternatives, ih, all_cons]

theorem listMembers_eq (members : List (Str × Json)) :
    listMembers members = members.all fun m => listMember m.1 m.2 := by
  induction members with
  | nil => rfl
  | cons m members ih =>
    obtain ⟨k, v⟩ := m
    rw [all_cons, ← ih]
    cases v <;> simp [listMembers, listMember, listAlternatives_eq]

/-- Every `$or` of an accepted pattern is an object or a list of accepted alternatives. -/
theorem valid_or (hor : OrAt p path v) (h : isValidStructure p) :
    (∃ o, v = .obj o) ∨ ∃ alts, v = .arr alts ∧ ∀ alt ∈ alts, isValidStructure alt := by
  induction hor with
  | @here members v hg =>
    rw [isValidStructure, validMembers_eq, all_eq_true] at h
    have hv := h _ (mem_of_getMember hg)
    cases v with
    | obj o => exact .inl ⟨o, rfl⟩
    | arr alts => exact .inr ⟨alts, rfl, by simpa [validMember] using hv⟩
    | null | bool | num | str => cases hv
  | down hk hg _ ih =>
    rw [isValidStructure, validMembers_eq, all_eq_true] at h
    exact ih (h _ (mem_of_getMember hg))

theorem lists_or (hor : OrAt p path v) (h : orsAreLists p) :
    (∀ o, v ≠ .obj o) ∧ ∀ alts, v = .arr alts → ∀ alt ∈ alts, orsAreLists alt := by
  induction hor with
  | @here members v hg =>
    rw [orsAreLists, listMembers_eq, all_eq_true] at h
    have hv := h _ (mem_of_getMember hg)
    constructor
    · rintro o rfl
      simp [listMember] at hv
    · rintro alts rfl
      simpa [listMember] using hv
  | @down members k o _ _ hk hg _ ih =>
    rw [orsAreLists, listMembers_eq, all_eq_true] at h
    have hv := h _ (mem_of_getMember hg)
    simp only [listMember, Bool.and_eq_true] at hv
    exact ih hv.2

end Accepted

/-! ## Matching is sound -/

section Soundness

variable {R : Readers} {p : Json} {node : Option Json} {path : List Str} {v : Json} {alts : List Json}

theorem obj_of_matchObject (h : matchObject R p node) : ∃ o, p = .obj o := by
  cases p with
  | obj o => exact ⟨o, rfl⟩
  | null | bool | num | str | arr => cases h

theorem OrAt.unique {v' : Json} (h : OrAt p path v) (h' : OrAt p path v') : v = v' := by
  induction h with
  | here hl =>
    cases h' with
    | here hl' => exact Option.some.inj (hl.symm.trans hl')
  | down hk hl _ ih =>
    cases h' with
    | down hk' hl' hr' =>
      cases hl.symm.trans hl'
      exact ih hr'

theorem leaf_of_match {list : List Json} (hl : LeafAt p path list)
    (h : matchObject R p node) : ∃ value, Found node path value ∧ matchList R list value := by
  induction hl generalizing node with
  | here hk hg =>
    obtain ⟨n, hn, hm, -⟩ := matchObject_obj.mp h
    exact ⟨_, .down hn (.here _), matchMember_of_get hm hg hk⟩
  | down hk hg _ ih =>
    obtain ⟨n, hn, hm, -⟩ := matchObject_obj.mp h
    obtain ⟨value, hf, hv⟩ := ih (matchMember_of_get hm hg hk)
    exact ⟨value, .down hn hf, hv⟩

theorem alternative_of_match (hor : OrAt p path (.arr alts))
    (h : matchObject R p node) : ∃ value, Found node path value ∧ ∃ alt ∈ alts, matchObject R alt value := by
  generalize hv : Json.arr alts = v at hor
  induction hor generalizing node with
  | here hg =>
    subst hv
    obtain ⟨n, hn, -, hor⟩ := matchObject_obj.mp h
    rw [matchOr_eq, hg] at hor
    obtain ⟨alt, halt, hmt⟩ := any_eq_true.mp hor
    exact ⟨node, .here _, alt, halt, matchObject_of_mem hn hmt⟩
  | down hk hg _ ih =>
    obtain ⟨n, hn, hm, -⟩ := matchObject_obj.mp h
    obtain ⟨value, hf, halt⟩ := ih (matchMember_of_get hm hg hk) hv
    exact ⟨value, .down hn hf, halt⟩

theorem sizeOf_member {members : List (Str × Json)} {k : Str}
    (h : getMember members k = some v) : sizeOf v < sizeOf (Json.obj members) := by
  have := sizeOf_lt_of_mem (mem_of_getMember h)
  simp at this ⊢
  omega

theorem sizeOf_item {alt : Json} (h : alt ∈ alts) : sizeOf alt < sizeOf (Json.arr alts) := by
  have := sizeOf_lt_of_mem h
  simp
  omega

theorem sizeOf_or (h : OrAt p path v) : sizeOf v < sizeOf p := by
  induction h with
  | here hg => exact sizeOf_member hg
  | down hk hg _ ih => exact ih.trans (sizeOf_member hg)

end Soundness

theorem satisfied_of_matchObject {R : Readers} {pattern : Json} (hvl : isValidStructure pattern)
    (ho : orsAreLists pattern) {node : Option Json} (h : matchObject R pattern node) :
    Satisfied R pattern node := by
  induction hsz : sizeOf pattern using Nat.strong_induction_on generalizing pattern node with
  | _ size ih =>
    subst hsz
    have hc : ∀ path, ∃ alternative place, ∀ v, OrAt pattern path v →
        ((∃ alts, v = .arr alts ∧ .obj alternative ∈ alts) ∧ Found node path place) ∧
          Satisfied R (.obj alternative) place := by
      intro path
      by_cases hor : ∃ v, OrAt pattern path v
      · obtain ⟨v, hv⟩ := hor
        rcases valid_or hv hvl with ⟨o, rfl⟩ | ⟨alts, rfl, halts⟩
        · exact absurd rfl ((lists_or hv ho).1 o)
        obtain ⟨place, hf, alt, halt, hm⟩ := alternative_of_match hv h
        obtain ⟨o, rfl⟩ := obj_of_matchObject hm
        have hs : sizeOf (Json.obj o) < sizeOf pattern := (sizeOf_item halt).trans (sizeOf_or hv)
        refine ⟨o, place, fun v hv' => ?_⟩
        obtain rfl := hv.unique hv'
        refine ⟨⟨⟨alts, rfl, halt⟩, hf⟩, ?_⟩
        exact ih _ hs (halts _ halt) ((lists_or hv ho).2 alts rfl _ halt) hm rfl
      · exact ⟨[], none, fun v hv => absurd ⟨v, hv⟩ hor⟩
    choose alternative place hp using hc
    exact .intro (fun path list hl => leaf_of_match hl h) alternative place
      (fun path v hv => (hp path v hv).1) fun path v hv => (hp path v hv).2

/-- **A match satisfies the pattern**, when the check has accepted it and none of its `$or`s is an
object. -/
theorem no_constraint_ignored (R : Readers) (pattern event : Json)
    (hvalid : isValidStructure pattern) (hors : orsAreLists pattern)
    (h : matches_ R pattern event) : Satisfied R pattern (some event) :=
  satisfied_of_matchObject hvalid hors h

namespace Example

def readers : Readers := ⟨fun _ => none, id, fun _ => none⟩

def constraint : Json := .obj [(['a'], .arr [.str ['x']])]

/-- `{"$or": {"a": ["x"]}}` -/
def objectOr : Json := .obj [(orKey, constraint)]

/-- An accepted pattern whose `$or` is an object matches the empty event, which its constraint does
not. -/
theorem object_or_skipped :
    isValidStructure objectOr ∧ matches_ readers objectOr (.obj []) ∧
      ¬ Satisfied readers objectOr (some (.obj [])) ∧
      ¬ matches_ readers constraint (.obj []) := by
  refine ⟨by decide +kernel, by decide +kernel, ?_, by decide +kernel⟩
  rintro ⟨_, alternative, place, ho, _⟩
  obtain ⟨⟨alts, halts, -⟩, -⟩ := ho [] constraint (.here rfl)
  cases halts

/-- `{"a": ["x"], "$or": [{"b": ["y"]}, {"c": {"d": [{"exists": false}]}}]}` -/
def listOr : Json :=
  .obj [(['a'], .arr [.str ['x']]),
    (orKey, .arr [.obj [(['b'], .arr [.str ['y']])],
      .obj [(['c'], .obj [(['d'], .arr [.obj [("exists", .bool false)]])])]])]

end Example

open Example in
theorem no_constraint_ignored_or :
    Satisfied readers listOr (some (.obj [(['a'], .arr [.str ['z'], .str ['x']])])) :=
  no_constraint_ignored readers listOr _ (by decide +kernel) (by decide +kernel)
    (by decide +kernel)

end Fakecloud.Aws.EventPattern
