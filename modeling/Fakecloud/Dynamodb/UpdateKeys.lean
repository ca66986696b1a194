import Fakecloud.Dynamodb.Tokens
import Fakecloud.Dynamodb.Update

/-!
# Updates and the key of a row

No update may write a key attribute, and an expression that targets one is refused.  The guard looks at
the attribute that a target starts at, the text up to the first `.` or `[`; `SET` and `REMOVE` write
there too, but `ADD` and `DELETE` take the whole text of a target for the name of an attribute.  So a key
attribute with a dot or a bracket in its name is written past the guard.
-/

namespace Fakecloud.Dynamodb

open Text List Option

/-! ## The texts of the actions -/

variable {c d : Char} {s : Str}

theorem mem_consHead {pieces : List Str} {piece : Str} (hp : piece ∈ consHead c pieces)
    (hd : d ∈ piece) : d = c ∨ ∃ piece' ∈ pieces, d ∈ piece' := by
  cases pieces with
  | nil =>
    obtain rfl := mem_singleton.mp hp
    exact .inl (mem_singleton.mp hd)
  | cons first pieces =>
    rcases mem_cons.mp hp with rfl | hp
    · rcases mem_cons.mp hd with rfl | hd
      · exact .inl rfl
      · exact .inr ⟨first, mem_cons_self, hd⟩
    · exact .inr ⟨piece, mem_cons_of_mem _ hp, hd⟩

theorem mem_of_mem_splitCommas : ∀ {quote : Option Char} {depth : ℕ} {piece : Str} {d : Char},
    piece ∈ splitCommasFrom quote depth s → d ∈ piece → d ∈ s := by
  induction s with
  | nil =>
    intro quote depth piece d hp hd
    obtain rfl := mem_singleton.mp hp
    exact hd
  | cons c s ih =>
    intro quote depth piece d hp hd
    have hc : ∀ {quote depth}, piece ∈ consHead c (splitCommasFrom quote depth s) → d ∈ c :: s := by
      intro quote depth hp
      rcases mem_consHead hp hd with rfl | ⟨piece', hp', hd⟩
      · exact mem_cons_self
      · exact mem_cons_of_mem _ (ih hp' hd)
    unfold splitCommasFrom at hp
    split at hp
    · exact hc hp
    · split at hp
      · exact hc hp
      · split at hp
        · exact hc hp
        · split at hp
          · rcases mem_cons.mp hp with rfl | hp
            · cases hd
            · exact mem_cons_of_mem _ (ih hp hd)
          · exact hc hp

theorem mem_of_mem_clauseTexts : ∀ {skip : ℕ} {before : Bool} {quote : Option Char},
    (∀ d ∈ (clauseTexts skip before quote s).1, d ∈ s) ∧
      ∀ clause ∈ (clauseTexts skip before quote s).2, ∀ d ∈ clause.2, d ∈ s := by
  induction s with
  | nil => simp [clauseTexts]
  | cons c s ih =>
    intro skip before quote
    rcases skip with _ | skip
    · unfold clauseTexts
      split
      next a _ =>
        obtain ⟨ht, hcl⟩ := @ih (a.keyword.length - 1) (isBoundary c) (nextQuote quote c)
        refine ⟨by simp, fun clause hc d hd => ?_⟩
        rcases mem_cons.mp hc with rfl | hc
        · exact mem_cons_of_mem _ (ht d hd)
        · exact mem_cons_of_mem _ (hcl clause hc d hd)
      next =>
        obtain ⟨ht, hcl⟩ := @ih 0 (isBoundary c) (nextQuote quote c)
        refine ⟨fun d hd => ?_, fun clause hc d hd => mem_cons_of_mem _ (hcl clause hc d hd)⟩
        rcases mem_cons.mp hd with rfl | hd
        · exact mem_cons_self
        · exact mem_cons_of_mem _ (ht d hd)
    · obtain ⟨ht, hcl⟩ := @ih skip (isBoundary c) (nextQuote quote c)
      exact ⟨fun d hd => mem_cons_of_mem _ (ht d hd), fun clause hc d hd =>
        mem_cons_of_mem _ (hcl clause hc d hd)⟩

theorem mem_of_mem_action {expr : Str} {action : UpdateAction} {ordinal : ℕ} {assignment : Str}
    (h : (action, ordinal, assignment) ∈ actionsOf expr) (hd : d ∈ assignment) : d ∈ expr := by
  obtain ⟨⟨a, assignments⟩, hc, hm⟩ := mem_flatMap.mp h
  obtain ⟨⟨assignment', n⟩, hz, heq⟩ := mem_map.mp hm
  cases heq
  have ha : assignment ∈ assignments := (mem_zipIdx hz).2.2 ▸ getElem_mem _
  obtain ⟨⟨a', text⟩, ht, heq⟩ := mem_map.mp hc
  cases heq
  obtain ⟨piece, hp, rfl⟩ := mem_map.mp ha
  exact mem_of_mem_clauseTexts.2 _ ht _
    (mem_of_mem_trim (mem_of_mem_splitCommas hp (mem_of_mem_trim hd)))

/-! ## The attribute that a path starts at -/

theorem trimMatches_eq_self (h : c ∉ s) : trimMatches c s = s := by
  have hdr : s.dropWhile (· == c) = s := by
    rcases s with _ | ⟨d, s⟩
    · rfl
    · have hd : d ≠ c := fun hd => h (by simp [hd])
      simp [hd]
  rw [trimMatches, hdr, rdropWhile_eq_self_iff]
  intro hne
  have hls : s.getLast hne ≠ c := fun hl => h (hl ▸ getLast_mem hne)
  simpa using hls

/-- The guard looks at the attribute that a path starts at. -/
theorem resolve_topLevelAttribute {names : Names} {p : DocPath}
    (h : parseDocumentPath (trim s) names = some p) (hq : '"' ∉ s) :
    ∃ elems, p = .attr (resolveAttrName (topLevelAttribute s) names) :: elems := by
  have hq' : '"' ∉ trim s := fun h => hq (mem_of_mem_trim h)
  obtain ⟨front, w, back, rest, elems, hs, hf, hbc, hw, hst, rfl⟩ := exists_of_parseDocumentPath h hq'
  have hwsp : ∀ c ∈ w, isNameChar c := all_eq_true.mp hw
  have htp : topLevelAttribute s = w := by
    have hp : topLevelAttribute s = trim ((trim s).takeWhile fun c => !(c == '.' || c == '[')) := by
      unfold topLevelAttribute
      split
      next r hr => exact absurd (by rw [hr]; simp) hq'
      next => rfl
    have hi : ∀ c ∈ front ++ w ++ back, (!(c == '.' || c == '[')) = true := by
      have hb : ∀ l : Str, l.all isAsciiWhitespace → ∀ c ∈ l, (!(c == '.' || c == '[')) = true := by
        intro l hl c hc
        have hws := all_eq_true.mp hl c hc
        by_contra hcn
        have hcs : c = '.' ∨ c = '[' := or_iff_not_imp_left.mpr (by simpa using hcn)
        rcases hcs with rfl | rfl <;> exact absurd hws (by decide)
      intro c hc
      rcases mem_append.mp hc with hc | hc
      · rcases mem_append.mp hc with hc | hc
        · exact hb front hf c hc
        · have hsp := isNameChar_spec (hwsp c hc)
          simp [hsp.2.1, hsp.2.2.1]
      · exact hb back hbc c hc
    have ht : (trim s).takeWhile (fun c => !(c == '.' || c == '[')) = front ++ w ++ back := by
      rw [hs, takeWhile_append_of_pos hi]
      rcases rest with _ | ⟨d, rest⟩
      · simp
      · rcases hst d rfl with rfl | rfl <;> simp
    rw [hp, ht]
    exact trim_padded (isWhitespace_of_ascii hf) (isWhitespace_of_ascii hbc)
      fun c hc => (isNameChar_spec (hwsp c hc)).1
  refine ⟨elems, ?_⟩
  have ho : '"' ∉ w := fun hm => (isNameChar_spec (hwsp _ hm)).2.2.2 rfl
  unfold resolveAttrName
  rw [htp, trimMatches_eq_self ho]

/-! ## The guard -/

section Guard

variable {t : DynamoTable} {expr : Str} {names : Names} {values : Values} {item item' : Item}

def WholeTargetsClear (t : DynamoTable) (expr : Str) (names : Names) (values : Values) : Prop :=
  ∀ x ∈ actionsOf expr, x.1 = .add ∨ x.1 = .delete →
    ∀ operand ∈ operandOf names values x.2.2, operand.1 ∉ t.keyNames.attributes

instance : Decidable (WholeTargetsClear t expr names values) :=
  inferInstanceAs (Decidable (∀ x ∈ actionsOf expr, _ → ∀ operand ∈ operandOf names values x.2.2, _))

theorem not_key_of_guard {action : UpdateAction} {ordinal : ℕ} {assignment : Str} {k : Str}
    (hqt : '"' ∉ expr) (hg : t.keyAttributeInUpdateExpression expr names = none)
    (hc : WholeTargetsClear t expr names values) (hx : (action, ordinal, assignment) ∈ actionsOf expr)
    (hk : k ∈ t.keyNames.attributes) :
    ∀ p ∈ writtenPath names values action assignment, p.head? ≠ some (.attr k) := by
  have hot : '"' ∉ assignment := fun h => hqt (mem_of_mem_action hx h)
  -- the guard has seen the attribute that the target starts at
  have hsn : ∀ {target : Str}, guardTarget action assignment = some target →
      resolveAttrName (topLevelAttribute target) names ≠ k := by
    rintro target ht rfl
    have hnn := findSome?_eq_none_iff.mp hg _ hx
    simp [ht, hk] at hnn
  have hn : ∀ {target : Str} {p : DocPath}, guardTarget action assignment = some target → '"' ∉ target →
      parseDocumentPath (trim target) names = some p → p.head? ≠ some (.attr k) := by
    intro target p ht hq hp hh
    obtain ⟨elems, rfl⟩ := resolve_topLevelAttribute hp hq
    exact hsn ht (by simpa using hh)
  intro p hp
  cases action with
  | set =>
    obtain ⟨⟨left, right⟩, hs, hp⟩ := bind_eq_some_iff.mp hp
    have hl : '"' ∉ left := fun h => hot (by rw [(splitOnce_eq_some hs).1]; simp [h])
    exact hn (by simp [guardTarget, hs]) hl hp
  | remove => exact hn rfl hot hp
  | add =>
    obtain ⟨operand, ho, rfl⟩ := map_eq_some_iff.mp hp
    have hne := hc _ hx (.inl rfl) operand ho
    rintro h
    simp only [head?_cons, some.injEq, PathElem.attr.injEq] at h
    exact hne (h ▸ hk)
  | delete =>
    obtain ⟨operand, ho, rfl⟩ := map_eq_some_iff.mp hp
    have hne := hc _ hx (.inr rfl) operand ho
    rintro h
    simp only [head?_cons, some.injEq, PathElem.attr.injEq] at h
    exact hne (h ▸ hk)

/-- **Key attributes under an update.**  An update expression that the parser accepts and that the guard
lets pass leaves the key attributes of the row as they are, when no `ADD` or `DELETE` has a key attribute
for its whole target. -/
theorem key_attributes_unchanged (haccepted : Accepted expr names values)
    (hguard : t.keyAttributeInUpdateExpression expr names = none)
    (hclear : WholeTargetsClear t expr names values)
    (happly : applyUpdateExpression names values item expr = .ok item') :
    ∀ k ∈ t.keyNames.attributes, item'.lookup k = item.lookup k := by
  intro k hk
  obtain ⟨s, ht, rfl⟩ := map_eq_ok.mp happly
  have hkp : ∀ x ∈ actionsOf expr, ∀ s s' : Item × Written, s.1.lookup k = item.lookup k →
      stepAction names values item x.1 x.2.1 x.2.2 s = .ok s' → s'.1.lookup k = item.lookup k := by
    intro x hx s s' hs hst
    rw [stepAction_lookup hst (not_key_of_guard haccepted.quote_not_mem hguard hclear hx hk), hs]
  unfold applyUpdateExpressionTracked at ht
  split at ht
  · cases ht
  · exact foldlM_invariant hkp rfl ht

end Guard

namespace Example

def dotted : DynamoTable :=
  { table with keySchema := [⟨"a.b", .hash⟩], attributeDefinitions := [⟨"a.b", ['N']⟩] }

def one : Values := AList.insert ":v" (number ['1']) ∅

def counting (name : String) : Item := AList.insert name.toList (number ['1']) ∅

/-- **A key is written.**  The guard looks at `a`, and `ADD` adds to `a.b`, the key attribute. -/
theorem key_written : Accepted "ADD a.b :v" ∅ one ∧
    dotted.keyAttributeInUpdateExpression "ADD a.b :v" ∅ = none ∧
    "a.b".toList ∈ dotted.keyNames.attributes ∧
    ∃ item', applyUpdateExpression ∅ one (counting "a.b") "ADD a.b :v" = .ok item' ∧
      item'.lookup "a.b".toList ≠ (counting "a.b").lookup "a.b".toList := by
  have hr : (applyUpdateExpression ∅ one (counting "a.b") "ADD a.b :v").toOption.map
      (·.lookup "a.b".toList) = some (some (number ['2'])) := by decide +kernel
  obtain ⟨item', hok, hl⟩ := exists_of_toOption_map hr
  refine ⟨by decide +kernel, by decide +kernel, by decide +kernel, item', hok, ?_⟩
  rw [hl]
  decide +kernel

/-- A name that is not a key attribute, under a placeholder. -/
def counter : Names := AList.insert "#c" "visits" ∅

def page : Item := (counting "visits").insert "a.b" (number ['7'])

theorem key_attributes_unchanged_counter :
    ∃ item', applyUpdateExpression counter one page "ADD #c :v" = .ok item' ∧
      ∀ k ∈ dotted.keyNames.attributes, item'.lookup k = page.lookup k := by
  have hr : (applyUpdateExpression counter one page "ADD #c :v").toOption.map
      (·.lookup "visits".toList) = some (some (number ['2'])) := by decide +kernel
  obtain ⟨item', hok, -⟩ := exists_of_toOption_map hr
  exact ⟨item', hok, key_attributes_unchanged (by decide +kernel) (by decide +kernel) (by decide +kernel) hok⟩

end Example

end Fakecloud.Dynamodb
