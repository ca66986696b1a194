import Fakecloud.Dynamodb.KeyIndex
import Fakecloud.Lib.Paging

/-!
# Pages of rows

What Query and Scan share: how many rows make a page, the key that a page hands out for the next one,
and the check that a key which comes back names the attributes it must.
-/

namespace Fakecloud.Dynamodb

open Text Paging List

structure ServiceError where
  code : Str
  message : Str
deriving DecidableEq

def validationError (message : Str) : ServiceError := ⟨"ValidationException", message⟩

/-! ## The length of a page -/

def maxPageBytes : ℕ := 1024 * 1024

/-- Whether a page that has read so much ends. -/
def pageFull (limit : Option ℕ) (count bytes : ℕ) : Bool :=
  limit.any (· ≤ count) || decide (maxPageBytes ≤ bytes)

def pageLoop (limit : Option ℕ) : List Item → ℕ → ℕ → ℕ
  | [], count, _ => count
  | row :: rows, count, bytes =>
    if pageFull limit (count + 1) (bytes + itemSize row) then count + 1
    else pageLoop limit rows (count + 1) (bytes + itemSize row)

def pageLength (rows : List Item) (limit : Option ℕ) : ℕ := pageLoop limit rows 0 0

theorem pageLoop_bounds (limit : Option ℕ) (rows : List Item) (count bytes : ℕ) :
    count ≤ pageLoop limit rows count bytes ∧ pageLoop limit rows count bytes ≤ count + rows.length := by
  induction rows generalizing count bytes with
  | nil => exact ⟨le_rfl, le_rfl⟩
  | cons row rows ih =>
    have := ih (count + 1) (bytes + itemSize row)
    rw [length_cons]
    unfold pageLoop
    split <;> omega

theorem pageLength_pos {rows : List Item} (h : rows ≠ []) (limit : Option ℕ) : 0 < pageLength rows limit := by
  rcases rows with _ | ⟨row, rows⟩
  · exact absurd rfl h
  · have := pageLoop_bounds limit rows (0 + 1) (0 + itemSize row)
    unfold pageLength pageLoop
    split <;> omega

/-! ## Keys of rows -/

def copyAttribute (item key : Item) (attr : Str) : Item :=
  match item.lookup attr with
  | some v => key.insert attr v
  | none => key

def copyAttributes (item key : Item) (attrs : List Str) : Item := attrs.foldl (copyAttribute item) key

def extractKeyForSchema (item : Item) (names : KeyNames) : Item :=
  copyAttributes item ∅ (names.hash :: names.range.toList)

theorem lookup_copyAttributes (item key : Item) (attrs : List Str) (a : Str) :
    (copyAttributes item key attrs).lookup a =
      if a ∈ attrs ∧ (item.lookup a).isSome then item.lookup a else key.lookup a := by
  induction attrs generalizing key with
  | nil => simp [copyAttributes]
  | cons b attrs ih =>
    rw [copyAttributes, foldl_cons, ← copyAttributes, ih]
    unfold copyAttribute
    by_cases hab : a = b
    · subst hab
      rcases ha : item.lookup a with _ | v
      · simp
      · simp [AList.lookup_insert]
    · rcases hb : item.lookup b with _ | v
      · simp [hab]
      · simp [hab]

theorem mem_copyAttributes {item : Item} {attrs : List Str} (h : ∀ a ∈ attrs, (item.lookup a).isSome)
    (a : Str) : a ∈ (copyAttributes item ∅ attrs).keys ↔ a ∈ attrs := by
  rw [← AList.mem_keys, ← AList.lookup_isSome, lookup_copyAttributes]
  by_cases ha : a ∈ attrs
  · simp [ha, h a ha]
  · simp [ha]

/-! ## The starting key of a page -/

def valueType : AttributeValue → Option Str
  | .obj ((tag, _) :: _) => some tag
  | _ => none

namespace DynamoTable

variable (t : DynamoTable)

def declaredType (attr : Str) : Option Str :=
  (t.attributeDefinitions.find? fun d => d.attributeName = attr).map AttributeDefinition.attributeType

/-- Whether a value has the type that is declared for its attribute. -/
def typedAs (attr : Str) (v : AttributeValue) : Bool :=
  match t.declaredType attr with
  | some ty => valueType v == some ty
  | none => true

def tableKeys : List Str := t.hashKeyName :: t.rangeKeyName.toList

/-- The attributes of the table's key, and those of the index it has not. -/
def requiredKeys (indexKeys : List Str) : List Str :=
  indexKeys.foldl (fun required k => if k ∈ required then required else required ++ [k]) t.tableKeys

/-- Whether an item has an attribute, with the type declared for it. -/
def hasTyped (item : Item) (attr : Str) : Bool :=
  match item.lookup attr with
  | none => false
  | some v => t.typedAs attr v

def startKeyMatchesSchema (esk : Item) (indexKeys : List Str) : Bool :=
  esk.keys.length == (t.requiredKeys indexKeys).length &&
    (t.requiredKeys indexKeys).all (t.hasTyped esk)

variable {t}

variable {indexKeys : List Str} {a : Str} {item : Item}

theorem mem_requiredKeys : a ∈ t.requiredKeys indexKeys ↔ a ∈ t.tableKeys ∨ a ∈ indexKeys := by
  unfold requiredKeys
  generalize t.tableKeys = base
  induction indexKeys generalizing base with
  | nil => simp
  | cons k indexKeys ih =>
    rw [foldl_cons, ih]
    split
    · next hk =>
      have hin : a = k → a ∈ base := fun h => h ▸ hk
      rw [mem_cons]
      tauto
    · simp [or_assoc]

theorem nodup_requiredKeys (h : t.tableKeys.Nodup) (indexKeys : List Str) :
    (t.requiredKeys indexKeys).Nodup := by
  unfold requiredKeys
  generalize t.tableKeys = base at h
  induction indexKeys generalizing base with
  | nil => exact h
  | cons k indexKeys ih =>
    rw [foldl_cons]
    split
    · exact ih base h
    · next hk => exact ih _ (nodup_append.mpr ⟨h, nodup_singleton k, by
        rintro a ha b hb rfl
        exact hk (mem_singleton.mp hb ▸ ha)⟩)

/-- A row with its key attributes, and those of an index, as they are declared. -/
def Keyed (t : DynamoTable) (indexKeys : List Str) (item : Item) : Prop :=
  ∀ a ∈ t.requiredKeys indexKeys, t.hasTyped item a

theorem isSome_of_hasTyped (h : t.hasTyped item a) : (item.lookup a).isSome := by
  unfold hasTyped at h
  split at h
  · cases h
  · next hv => rw [hv]; rfl

/-- **A key that a page hands out is accepted for the next one.** -/
theorem startKeyMatchesSchema_of_row {attrs : List Str} (hn : t.tableKeys.Nodup) (hk : t.Keyed indexKeys item)
    (hat : ∀ a, a ∈ attrs ↔ a ∈ t.requiredKeys indexKeys) :
    t.startKeyMatchesSchema (copyAttributes item ∅ attrs) indexKeys := by
  have hh : ∀ a ∈ attrs, (item.lookup a).isSome := fun a ha =>
    isSome_of_hasTyped (hk a ((hat a).mp ha))
  have hp : (copyAttributes item ∅ attrs).keys.Perm (t.requiredKeys indexKeys) := by
    refine (perm_ext_iff_of_nodup (AList.nodupKeys _) (nodup_requiredKeys hn _)).mpr ?_
    intro a
    exact (mem_copyAttributes hh a).trans (hat a)
  rw [startKeyMatchesSchema, Bool.and_eq_true, beq_iff_eq, all_eq_true]
  refine ⟨hp.length_eq, fun a ha => ?_⟩
  have hl : (copyAttributes item ∅ attrs).lookup a = item.lookup a := by
    rw [lookup_copyAttributes, if_pos ⟨(hat a).mpr ha, isSome_of_hasTyped (hk a ha)⟩]
  have := hk a ha
  unfold hasTyped at this ⊢
  rw [hl]
  exact this

end DynamoTable

/-! ## Following `LastEvaluatedKey` -/

structure ReadPage where
  /-- The rows that were read, before the filter; `ScannedCount` is their number. -/
  examined : List Item
  items : List Item
  lastEvaluatedKey : Option Item

def Finished (pages : List ReadPage) : Prop :=
  ∃ page, pages.getLast? = some page ∧ page.lastEvaluatedKey = none

theorem finished_of_last {pages : List ReadPage}
    (h : (pages.getLast?.map fun page => page.lastEvaluatedKey.isNone) = some true) : Finished pages := by
  obtain ⟨page, hp, hk⟩ := Option.map_eq_some_iff.mp h
  exact ⟨page, hp, by simpa using hk⟩

theorem finished_singleton (page : ReadPage) : Finished [page] ↔ page.lastEvaluatedKey = none := by
  simp [Finished]

/-- A client that asks for page after page, each served at its time. -/
def followPages {τ : Type} (serve : τ → Option Item → Except ServiceError ReadPage) :
    List τ → Option Item → Except ServiceError (List ReadPage)
  | [], _ => pure []
  | now :: later, start => do
    let page ← serve now start
    match page.lastEvaluatedKey with
    | none => pure [page]
    | some key =>
      let pages ← followPages serve later (some key)
      pure (page :: pages)

section Follow

variable {τ α : Type} {serve : τ → Option Item → Except ServiceError ReadPage}
  {lt : α → α → Prop} {place : Item → α} {there : τ → α → Prop} {facts : τ → ReadPage → Prop}
  {inv : List τ → Option Item → Option α → Prop}

/-- A request is answered with a page of the walk; if there is more, its key stands for the cursor. -/
structure Served (lt : α → α → Prop) (place : Item → α) (there : α → Prop)
    (inv : Option Item → Option α → Prop) (cursor : Option α) (page : ReadPage) (next : Option α) :
    Prop where
  isPage : IsPage lt there cursor (page.examined.map place) next
  more : (page.lastEvaluatedKey = none ∧ next = none) ∨
    ∃ key d, page.lastEvaluatedKey = some key ∧ next = some d ∧ inv (some key) (some d)

/-- **Run.**  When every request is answered with a page of the walk, so is the run. -/
theorem followPages_walk (hst : ∀ now later start cursor, inv (now :: later) start cursor →
      ∃ page next, serve now start = .ok page ∧ facts now page ∧
        Served lt place (there now) (inv later) cursor page next)
    {served : List τ} {start : Option Item} {cursor : Option α} (hin : inv served start cursor) :
    ∃ pages ended, followPages serve served start = .ok pages ∧
      Walk lt cursor ((served.take pages.length).map there)
        ((pages.flatMap ReadPage.examined).map place) ended ∧
      (ended = true ↔ Finished pages) ∧ (ended = false → pages.length = served.length) ∧
      ∀ page ∈ pages, ∃ now ∈ served.take pages.length, facts now page := by
  induction served generalizing start cursor with
  | nil =>
    refine ⟨[], false, rfl, .stop _, ?_, fun _ => rfl, nofun⟩
    simp [Finished]
  | cons now later ih =>
    obtain ⟨page, next, hpa, hfc, hsr⟩ := hst now later start cursor hin
    have hi := hsr.isPage
    unfold followPages
    rw [hpa]
    rcases hsr.more with ⟨hl, rfl⟩ | ⟨key, d, hl, rfl, hn⟩
    · -- the last page
      refine ⟨[page], true, ?_, ?_, ?_, nofun, ?_⟩
      · simp [bind, Except.bind, hl, pure, Except.pure]
      · simpa using Walk.last hi
      · simp [finished_singleton, hl]
      · intro p hp
        rw [mem_singleton.mp hp]
        exact ⟨now, by simp, hfc⟩
    · obtain ⟨pages, ended, hpg, hw, hf, ha, hfr⟩ := ih hn
      refine ⟨page :: pages, ended, ?_, ?_, ?_, ?_, ?_⟩
      · simp [bind, Except.bind, hl, hpg, pure, Except.pure]
      · simpa using Walk.more hi hw
      · rcases pages with _ | ⟨p, pages⟩
        · have he : ended = false := by
            rcases ended with _ | _
            · rfl
            · obtain ⟨p, hp, -⟩ := hf.mp rfl
              cases hp
          simp [he, finished_singleton, hl]
        · exact hf
      · intro he
        rw [length_cons, length_cons, ha he]
      · intro p hp
        rcases mem_cons.mp hp with rfl | hp
        · exact ⟨now, mem_cons_self, hfc⟩
        · obtain ⟨s, hs, hs'⟩ := hfr p hp
          exact ⟨s, mem_cons_of_mem _ hs, hs'⟩

end Follow

end Fakecloud.Dynamodb
