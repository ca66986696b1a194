import Fakecloud.Dynamodb.Writes

/-!
# Transactions

`TransactWriteItems`: every action is checked and judged on the tables as they are, then all are
applied in order, and if one fails while it is applied every table is put back from its snapshot.

The expressions of a request are functions here: an update is what it makes of a row, and
`TransactChecks` has the checks that read a table and change nothing.  The replay of a request token
is left out.
-/

namespace Fakecloud.Dynamodb

open Text KeyedList List Option DynamoTable Example Function Prod

/-- A table by the account that owns it and its name. -/
abbrev TableId := Str × Str

abbrev Tables := TableId → Option DynamoTable

inductive TransactAction
  | put (item : Item)
  | delete (key : Item)
  | update (key : Item) (apply : Item → Item × Except ServiceError Unit)
  | conditionCheck (key : Item)

namespace TransactAction

def key (t : DynamoTable) : TransactAction → Item
  | put item => t.extractKey item
  | delete key => key
  | update key _ => key
  | conditionCheck key => key

def writes : TransactAction → Bool
  | conditionCheck _ => false
  | _ => true

end TransactAction

structure TransactItem where
  table : TableId
  action : TransactAction
  /-- When it is applied. -/
  at_ : ℤ

structure CancellationReason where
  code : Str
  message : Option Str
  item : Option Item

namespace CancellationReason

def none : CancellationReason := ⟨"None", .none, .none⟩

def validationReason (message : Str) : CancellationReason :=
  ⟨"ValidationError", some message, .none⟩

def cancels (r : CancellationReason) : Bool := r.code != "None"

end CancellationReason

inductive TransactOutcome
  | error (e : ServiceError)
  | canceled (reasons : List CancellationReason)
  | committed

/-- The checks that are not modelled: how a list is echoed; what is wrong with an action before
anything runs, or the bytes it writes; and the reason of an action on the row that is there. -/
structure TransactChecks where
  listDump : List TransactItem → Str
  validate : DynamoTable → TransactAction → Except ServiceError ℤ
  judge : DynamoTable → TransactAction → Option Item → Except ServiceError CancellationReason

/-! ## Checks -/

def dataTableNotFound : ServiceError :=
  ⟨"ResourceNotFoundException", "Requested resource not found"⟩

def getDataTable (ts : Tables) (id : TableId) : Except ServiceError DynamoTable :=
  match ts id with
  | some t => .ok t
  | none => .error dataTableNotFound

def maxTransactionBytes : ℤ := 4 * 1024 * 1024

def rejectWhen (bad : Bool) (message : Str) : Except ServiceError Unit :=
  if bad then .error (validationError message) else .ok ()

def rejectSome : Option ServiceError → Except ServiceError Unit
  | some e => .error e
  | none => .ok ()

section Checks

variable (checks : TransactChecks) (ts : Tables)

/-- The bytes that an action writes, unless the input is not valid. -/
def validateAction (t : DynamoTable) (action : TransactAction) : Except ServiceError ℤ := do
  match action with
  | .put item =>
    rejectSome (t.missingItemKeyError item)
    rejectSome (t.emptyTableKeyError item)
  | _ => rejectSome (t.emptyTableKeyError (action.key t))
  checks.validate t action

/-- A transaction may name a row once. -/
def rejectDuplicates : List (TableId × Item) → List TransactItem → Except ServiceError Unit
  | _, [] => .ok ()
  | seen, i :: items =>
    match ts i.table with
    | none => .error dataTableNotFound
    | some t =>
      let key := i.action.key t
      if seen.any fun s => s.1 == i.table && t.keysEqual s.2 key then
        .error (validationError
          "Transaction request cannot include multiple operations on one item")
      else rejectDuplicates (seen ++ [(i.table, key)]) items

def judgeAction (t : DynamoTable) (action : TransactAction) : Except ServiceError CancellationReason :=
  match action with
  | .put item =>
    match t.itemKeyTypeMismatch item with
    | some message => .ok (.validationReason message)
    | none => checks.judge t action (t.lookup (action.key t))
  | _ =>
    if t.keyMatchesSchema (action.key t) then checks.judge t action (t.lookup (action.key t))
    else .ok (.validationReason DynamoTable.keySchemaMismatch)

/-- Everything before the first write: an error, or the reason of every action. -/
def judgeAll (items : List TransactItem) : Except ServiceError (List CancellationReason) := do
  rejectWhen items.isEmpty "1 validation error detected: Value '[]' at 'transactItems' failed to satisfy constraint: Member must have length greater than or equal to 1"
  rejectWhen (100 < items.length) ("1 validation error detected: Value '" ++
    checks.listDump items ++ "' at 'transactItems' failed to satisfy constraint: Member must have length less than or equal to 100")
  let _ ← items.mapM fun i => getDataTable ts i.table
  let bytes ← items.mapM fun i => do validateAction checks (← getDataTable ts i.table) i.action
  rejectWhen (maxTransactionBytes < bytes.sum)
    "Transaction request cannot include more than 4 MB of data"
  rejectDuplicates ts [] items
  items.mapM fun i => do judgeAction checks (← getDataTable ts i.table) i.action

end Checks

/-! ## Writes -/

namespace TransactAction

def apply (t : DynamoTable) (now : ℤ) :
    TransactAction → Option (DynamoTable × Except ServiceError (Option StreamRecord))
  | put raw =>
    let item := normalizeItemNumbers raw
    let key := t.extractKey item
    let old := t.lookup key
    let t := (t.putItemAtKey item now).1
    let event := if old.isSome then .modify else .insert
    some (t, .ok (t.generateStreamRecord event key old (some item) now))
  | delete key =>
    let old := t.lookup key
    (t.removeItemByKey key now).map fun (t, _) =>
      (t, .ok (if old.isSome then t.generateStreamRecord .remove key old none now else none))
  | update key f =>
    let t := t.ensureKeyIndex
    -- before the row that an insert starts from is there
    let old := t.lookup key
    let event := if old.isSome then .modify else .insert
    let (t, id) := t.rowFor (t.findItemIndex key) key now
    (t.updateItemAt id f now).bind fun (t, result) =>
      match result with
      | .error e => some (t, .error e)
      | .ok () => (t.items.get id).map fun new =>
        (t, .ok (t.generateStreamRecord event key old (some new) now))
  | conditionCheck _ => some (t, .ok none)

end TransactAction

def tableNotFound (id : TableId) : ServiceError :=
  ⟨"ResourceNotFoundException",
    "Requested resource not found: Table: " ++ id.2 ++ " not found"⟩

/-- The actions in order, up to the first that fails: its place and error, or the records of all. -/
def applyItems : ℕ → List TransactItem → Tables →
    Option (Tables × Except (ℕ × ServiceError) (List (TableId × StreamRecord)))
  | _, [], ts => some (ts, .ok [])
  | n, i :: items, ts =>
    match ts i.table with
    | none => some (ts, .error (n, tableNotFound i.table))
    | some t =>
      (i.action.apply t i.at_).bind fun (t, result) =>
        let ts := Function.update ts i.table (some t)
        match result with
        | .error e => some (ts, .error (n, e))
        | .ok record =>
          (applyItems (n + 1) items ts).map fun (ts, rest) =>
            (ts, rest.map fun pending => record.toList.map (Prod.mk i.table) ++ pending)

/-- What a table is put back from. -/
structure TableSnapshot where
  table : TableId
  rows : List Item
  marker : ℕ

def touched (items : List TransactItem) : List TableId :=
  ((items.filter fun i => i.action.writes).map TransactItem.table).dedup

def takeSnapshots (ts : Tables) (items : List TransactItem) : List TableSnapshot :=
  (touched items).map fun id =>
    match ts id with
    | some t => ⟨id, t.rows, t.changeMarker⟩
    | none => ⟨id, [], 0⟩

def revert (snapshots : List TableSnapshot) (ts : Tables) : Tables :=
  snapshots.foldl (fun ts s =>
    match ts s.table with
    | none => ts
    | some t =>
      Function.update ts s.table (some ((t.replaceItems s.rows).discardChangesSince s.marker))) ts

def appendRecords (now : ℤ) (pending : List (TableId × StreamRecord)) (ts : Tables) : Tables :=
  pending.foldl (fun ts p =>
    match ts p.1 with
    | none => ts
    | some t => Function.update ts p.1 (some (t.addStreamRecord p.2 now))) ts

/-- No result when an operation on a table panics. -/
def transactWriteItems (checks : TransactChecks) (ts : Tables) (items : List TransactItem) (now : ℤ) :
    Option (Tables × TransactOutcome) :=
  match judgeAll checks ts items with
  | .error e => some (ts, .error e)
  | .ok reasons =>
    if reasons.any CancellationReason.cancels then some (ts, .canceled reasons)
    else
      (applyItems 0 items ts).map fun (after, result) =>
        match result with
        | .error (failed, e) =>
          (revert (takeSnapshots ts items) after,
            .canceled ((List.range items.length).map fun i =>
              if i = failed then .validationReason e.message else .none))
        | .ok pending => (appendRecords now pending after, .committed)

/-! ## A transaction that fails -/

open DynamoTable in
/-- No action panics, and a condition check changes nothing. -/
theorem TransactAction.apply_evolved (t : DynamoTable) (now : ℤ) (action : TransactAction) :
    ∃ t' result, action.apply t now = some (t', result) ∧ Evolved t t' now ∧
      (action.writes = false → t' = t ∧ result = .ok none) := by
  cases action with
  | put raw =>
    obtain ⟨hs, hrc⟩ := put_settings t (normalizeItemNumbers raw) now
    exact ⟨_, _, rfl, hrc.evolved hs, nofun⟩
  | delete key =>
    obtain ⟨t', removed, hrm, he⟩ := removeByKey_evolved t key now
    rw [apply, hrm]
    exact ⟨_, _, rfl, he, nofun⟩
  | update key f =>
    have hrd : Evolved t t.ensureKeyIndex now :=
      (Recorded.of_eq (ensureKeyIndex_history t) now).evolved (ensureKeyIndex_settings t)
    obtain ⟨hrw, row, hg⟩ := rowFor_evolved t.ensureKeyIndex key now
    simp only [apply]
    generalize t.ensureKeyIndex.rowFor (t.ensureKeyIndex.findItemIndex key) key now = opened at hrw hg ⊢
    obtain ⟨u, id⟩ := opened
    obtain ⟨hf, hsc⟩ := updateAt_cases f hg now
    rcases hr : (f row).2 with e | ⟨⟨⟩⟩
    · refine ⟨u, .error e, ?_, hrd.trans hrw, nofun⟩
      simp only [hf e hr, bind_some]
    · obtain ⟨t', hu, hi, he⟩ := hsc hr
      have hgt : t'.items.get id = some (f row).1 := by
        rw [hi]
        exact TableItems.get_set hg _
      simp only [hu, bind_some, hgt, map_some]
      exact ⟨_, _, rfl, (hrd.trans hrw).trans he, nofun⟩
  | conditionCheck key => exact ⟨t, _, rfl, .refl t now, fun _ => ⟨rfl, rfl⟩⟩

variable {now : ℤ} {id : TableId}

theorem TransactAction.apply_settings {t t' : DynamoTable} {action : TransactAction}
    {result : Except ServiceError (Option StreamRecord)} (h : action.apply t now = some (t', result)) :
    SameSettings t t' := by
  obtain ⟨u, result', hu, he, -⟩ := action.apply_evolved t now
  rw [h] at hu
  exact (mk.inj (some.inj hu)).1 ▸ he.settings

/-- Every table through writes until `now`. -/
def Tables.Evolved (ts ts' : Tables) (now : ℤ) : Prop :=
  ∀ id, Option.Rel (fun t t' => DynamoTable.Evolved t t' now) (ts id) (ts' id)

open Tables

theorem Tables.Evolved.refl (ts : Tables) (now : ℤ) : Evolved ts ts now := by
  intro id
  rcases ts id with _ | t
  · exact .none
  · exact .some (.refl t now)

theorem Tables.Evolved.trans {ts₁ ts₂ ts₃ : Tables} (h : Evolved ts₁ ts₂ now)
    (h' : Evolved ts₂ ts₃ now) : Evolved ts₁ ts₃ now := by
  intro id
  have h₁ := h id
  have h₂ := h' id
  generalize ts₁ id = a, ts₂ id = b, ts₃ id = c at h₁ h₂ ⊢
  cases h₁ with
  | none => exact h₂
  | some h₁ =>
    cases h₂ with
    | some h₂ => exact .some (h₁.trans h₂)

theorem Tables.Evolved.update {ts : Tables} {t t' : DynamoTable}
    (ht : ts id = some t) (h : DynamoTable.Evolved t t' now) : Evolved ts (update ts id (some t')) now := by
  intro id'
  by_cases hid : id' = id
  · rw [hid, update_self, ht]
    exact .some h
  · rw [update_of_ne hid]
    exact Evolved.refl ts now id'

theorem mem_touched {items : List TransactItem} :
    id ∈ touched items ↔ ∃ i ∈ items, i.table = id ∧ i.action.writes := by
  rw [touched, mem_dedup, List.mem_map]
  constructor
  · rintro ⟨i, hi, rfl⟩
    exact ⟨i, (mem_filter.mp hi).1, rfl, (mem_filter.mp hi).2⟩
  · rintro ⟨i, hi, rfl, hw⟩
    exact ⟨i, mem_filter.mpr ⟨hi, hw⟩, rfl⟩

section Apply

variable {ts : Tables} {items : List TransactItem} {now : ℤ}

theorem touched_cons {i : TransactItem} (h : id ∈ touched items) : id ∈ touched (i :: items) := by
  obtain ⟨j, hj, hid, hw⟩ := mem_touched.mp h
  exact mem_touched.mpr ⟨j, mem_cons_of_mem _ hj, hid, hw⟩

theorem writes_of_untouched {i : TransactItem} (h : id ∉ touched items) (hi : i ∈ items)
    (hid : i.table = id) : i.action.writes = false := by
  by_contra hw
  exact h (mem_touched.mpr ⟨i, hi, hid, by simpa using hw⟩)

/-- Every table through the actions, to the end or up to the one that fails. -/
theorem applyItems_evolved (n : ℕ) (hts : ∀ i ∈ items, (ts i.table).isSome)
    (htm : ∀ i ∈ items, i.at_ ≤ now) : ∃ ts' result, applyItems n items ts = some (ts', result) ∧
      Evolved ts ts' now ∧ ∀ id ∉ touched items, ts' id = ts id ∧
        ∀ pending, result = .ok pending → ∀ p ∈ pending, p.1 ≠ id := by
  induction items generalizing ts n with
  | nil => exact ⟨ts, .ok [], rfl, .refl ts now, fun _ _ => ⟨rfl, fun _ h => Except.ok.inj h ▸ nofun⟩⟩
  | cons i items ih =>
    obtain ⟨t, ht⟩ := isSome_iff_exists.mp (hts i mem_cons_self)
    obtain ⟨t', result, ha, he, hc⟩ := i.action.apply_evolved t i.at_
    have hs := Evolved.update ht (he.mono (htm i mem_cons_self))
    have hsm : ∀ id ∉ touched (i :: items), update ts i.table (some t') id = ts id := by
      intro id hn
      by_cases hid : id = i.table
      · rw [hid, update_self, (hc (writes_of_untouched hn mem_cons_self hid.symm)).1, ht]
      · exact update_of_ne hid _ _
    simp only [applyItems, ht, ha, bind_some]
    rcases result with e | record
    · exact ⟨_, _, rfl, hs, fun id hn => ⟨hsm id hn, nofun⟩⟩
    · have hth : ∀ j ∈ items, (update ts i.table (some t') j.table).isSome := by
        intro j hj
        by_cases hid : j.table = i.table
        · rw [hid, update_self]
          rfl
        · rw [update_of_ne hid]
          exact hts j (mem_cons_of_mem _ hj)
      obtain ⟨ts', result, hr, hal, hal'⟩ := ih (n + 1) hth fun j hj => htm j (mem_cons_of_mem _ hj)
      refine ⟨ts', _, by rw [hr]; rfl, hs.trans hal, fun id hn => ?_⟩
      obtain ⟨hl, hpn⟩ := hal' id fun h => hn (touched_cons h)
      refine ⟨hl.trans (hsm id hn), fun pending hok p hp hid => ?_⟩
      obtain ⟨rest, hre, rfl⟩ := map_eq_ok.mp hok
      rcases mem_append.mp hp with hp | hp
      · obtain ⟨r, hr, rfl⟩ := mem_map.mp hp
        rw [Except.ok.inj (hc (writes_of_untouched hn mem_cons_self hid)).2] at hr
        cases hr
      · exact hpn rest hre p hp hid

end Apply

/-- A table after a list of changes to tables: those of its own, in order. -/
theorem foldl_modify_apply {α : Type} (name : α → TableId) (f : α → DynamoTable → DynamoTable) (l : List α)
    (ts : Tables) (id : TableId) : l.foldl (fun ts a => match ts (name a) with
      | none => ts
      | some t => update ts (name a) (some (f a t))) ts id =
    (ts id).map fun t => (l.filter fun a => name a = id).foldl (fun t a => f a t) t := by
  induction l generalizing ts with
  | nil => exact Option.map_id'.symm
  | cons a l ih =>
    have hs : (match ts (name a) with
        | none => ts
        | some t => update ts (name a) (some (f a t))) =
        update ts (name a) ((ts (name a)).map (f a)) := by
      rcases ht : ts (name a) with _ | t
      · exact (update_eq_self_iff.mpr ht.symm).symm
      · rfl
    rw [foldl_cons, hs, ih]
    by_cases hid : name a = id
    · rw [filter_cons_of_pos (by simpa using hid), ← hid, update_self, Option.map_map]
      rfl
    · rw [filter_cons_of_neg (by simpa using hid), update_of_ne (Ne.symm hid)]

/-- A table is put back from its snapshot, if an action writes it. -/
theorem revert_takeSnapshots (ts after : Tables) (items : List TransactItem) (id : TableId) :
    (id ∈ touched items → ∀ t, ts id = some t → revert (takeSnapshots ts items) after id =
      (after id).map fun u => (u.replaceItems t.rows).discardChangesSince t.changeMarker) ∧
    (id ∉ touched items → revert (takeSnapshots ts items) after id = after id) := by
  have hf : (takeSnapshots ts items).filter (fun s => s.table = id) =
      (replicate ((touched items).count id) id).map fun id =>
        match ts id with
        | some t => ⟨id, t.rows, t.changeMarker⟩
        | none => ⟨id, [], 0⟩ := by
    rw [takeSnapshots, List.filter_map, ← filter_eq]
    refine congrArg _ (filter_congr fun id' _ => ?_)
    rcases hts : ts id' with _ | t <;> simp [hts]
  rw [revert, foldl_modify_apply, hf]
  refine ⟨fun hid t ht => ?_, fun hid => ?_⟩
  · have ho : (touched items).count id = 1 := count_eq_one_of_mem (nodup_dedup _) hid
    rw [ho]
    simp [ht]
  · rw [count_eq_zero_of_not_mem hid]
    exact Option.map_id'

namespace DynamoTable

/-- What a failed call leaves of a table, until `now`. -/
structure Unchanged (now : ℤ) (t t' : DynamoTable) : Prop where
  rows : t'.rows = t.rows
  itemCount : t'.itemCount = t.itemCount
  sizeBytes : t'.sizeBytes = t.sizeBytes
  lookup : ∀ key, t.keyNames.Sound key → t'.lookup key = t.lookup key
  /-- The entries inside the recovery window. -/
  history : (t'.pitrHistory.changes.filter fun c => t.cutoff now ≤ c.at_) =
    t.pitrHistory.changes.filter fun c => t.cutoff now ≤ c.at_
  streamRecords : t'.streamRecords = t.streamRecords

theorem Unchanged.refl (now : ℤ) (t : DynamoTable) :
    Unchanged now t t := ⟨rfl, rfl, rfl, fun _ _ => rfl, rfl, rfl⟩

theorem Consistent.putBack_facts {t u : DynamoTable} {now : ℤ} (h : t.Consistent)
    (hu : Evolved t u now) : ((u.replaceItems t.rows).discardChangesSince t.changeMarker).Consistent ∧
    SameSettings t ((u.replaceItems t.rows).discardChangesSince t.changeMarker) ∧
    ((u.replaceItems t.rows).discardChangesSince t.changeMarker).rows = t.rows := by
  obtain ⟨hrp, -, hrw⟩ := replaceItems_settings u t.rows
  obtain ⟨hd, hs⟩ := discardChangesSince_settings (u.replaceItems t.rows) t.changeMarker
  have hn := keyNames_congr hu.settings.keySchema
  have hr : (u.replaceItems t.rows).Consistent := .replace fun item hi => hn ▸ h.sound_of_mem hi
  exact ⟨hr.congr ⟨rfl, rfl, rfl, rfl, rfl⟩, (hu.settings.trans hrp).trans hd, hs.trans hrw⟩

/-- **Putting a table back** undoes whatever was written to it. -/
theorem Consistent.putBack {t u : DynamoTable} {now : ℤ} (h : t.Consistent) (hn : t.NumberedHistory)
    (hu : Evolved t u now) :
    Unchanged now t ((u.replaceItems t.rows).discardChangesSince t.changeMarker) := by
  obtain ⟨hcn, hs, hr'⟩ := h.putBack_facts hu
  have hh := (replaceItems_settings u t.rows).2.1
  obtain ⟨hco, hsz, hl⟩ := h.same_rows hcn hr' (keyNames_congr hs.keySchema)
  refine ⟨hr', hco, hsz, hl, ?_, hs.streamRecords⟩
  -- the entries with numbers from before the call
  have hw := hu.window t.changeMarker (t.cutoff now) le_rfl le_rfl
  have hb : t.windowed t.changeMarker (t.cutoff now) =
      t.pitrHistory.changes.filter fun c => t.cutoff now ≤ c.at_ := by
    refine filter_congr fun c hc => ?_
    have hsq : c.seq < t.changeMarker := hn c hc
    rw [decide_eq_true hsq, Bool.true_and]
  rw [← hb, ← hw, windowed, ← hh, discardChangesSince, List.filter_filter]
  refine filter_congr fun c _ => ?_
  rw [Bool.and_comm]

end DynamoTable

/-! ## A transaction that succeeds -/

namespace TransactAction

/-- An action whose key is scalar, and that leaves it alone. -/
def Proper (names : KeyNames) : TransactAction → Prop
  | put item => names.Scalar item
  | delete key => names.Scalar key
  | update key f => names.Scalar key ∧ DynamoTable.KeepsKey names f
  | conditionCheck key => names.Scalar key

def change (t : DynamoTable) (rows : List Item) (now : ℤ) (action : TransactAction) : Option RowChange :=
  let old := first t.encodeKey (t.encodeKey (action.key t)) rows
  match action with
  | put raw => some ⟨t.extractKey (normalizeItemNumbers raw), old, some (normalizeItemNumbers raw), now⟩
  | delete key => old.map fun row => ⟨key, some row, none, now⟩
  | update key f => some ⟨key, old, some (f (old.getD (normalizeItemNumbers key))).1, now⟩
  | conditionCheck _ => none

def rowsAfter (before : List Item) : TransactAction → List Item
  | put raw => normalizeItemNumbers raw :: before.tail
  | delete _ => before.tail
  | update key f => (f (before.head?.getD (normalizeItemNumbers key))).1 :: before.tail
  | conditionCheck _ => before

section Action

variable {t t' : DynamoTable} {action : TransactAction} {now : ℤ}

theorem Proper.scalar_key (h : action.Proper t.keyNames) : t.keyNames.Scalar (action.key t) := by
  cases action with
  | put item => exact scalar_extractKey h
  | delete key => exact h
  | update key f => exact h.1
  | conditionCheck key => exact h

theorem encodeKey_change {rows : List Item} {c : RowChange} (h : action.Proper t.keyNames)
    (hc : c ∈ action.change t rows now) : t.encodeKey c.keys = t.encodeKey (action.key t) := by
  cases action with
  | put raw =>
    rw [← some.inj hc]
    have hr : t.encodeKey (normalizeItemNumbers raw) = t.encodeKey raw := (KeyNames.Scalar.normalize h).2
    rw [t.encodeKey_extractKey, hr]
    exact (t.encodeKey_extractKey raw).symm
  | delete key =>
    obtain ⟨row, -, rfl⟩ := map_eq_some_iff.mp hc
    rfl
  | update key f =>
    rw [← some.inj hc]
    rfl
  | conditionCheck key => cases hc

open DynamoTable

variable {record : Option StreamRecord} {raw key : Item} {f : Item → Item × Except ServiceError Unit}

theorem put_apply_wrote (h : t.Consistent) (hrw : t.keyNames.Scalar raw)
    (ha : (put raw).apply t now = some (t', .ok record)) : Wrote t t' ((put raw).change t t.rows now).toList ∧
    record = ((put raw).change t t.rows now).bind t.recordOf := by
  have he : t.encodeKey (t.extractKey (normalizeItemNumbers raw)) = t.encodeKey (t.extractKey raw) := by
    rw [t.encodeKey_extractKey, t.encodeKey_extractKey]
    exact hrw.normalize.2
  have hs := scalar_extractKey hrw.normalize.1
  have ho : t.lookup (t.extractKey (normalizeItemNumbers raw)) =
      first t.encodeKey (t.encodeKey (t.extractKey raw)) t.rows := by
    rw [h.lookup_eq hs.sound hs.isSome_encode, he]
  have hw := h.put_wrote hrw now
  have hst := apply_settings ha
  obtain ⟨rfl, hr⟩ := mk.inj (some.inj ha)
  rw [recordOf_written, hst.recordOf_eq, ho] at hr
  rw [ho] at hw
  exact ⟨hw, (Except.ok.inj hr).symm⟩

theorem delete_apply_wrote (h : t.Consistent) (hk : t.keyNames.Scalar key)
    (ha : (delete key).apply t now = some (t', .ok record)) :
    Wrote t t' ((delete key).change t t.rows now).toList ∧
    record = ((delete key).change t t.rows now).bind t.recordOf := by
  have ho := h.lookup_eq hk.sound hk.isSome_encode
  have hs := apply_settings ha
  obtain ⟨⟨u, removed⟩, hr, heq⟩ := map_eq_some_iff.mp ha
  obtain ⟨rfl, hrc⟩ := mk.inj heq
  have hw := h.remove_wrote hk hr
  have hc : (delete key).change t t.rows now = (t.lookup key).map fun row => ⟨key, some row, none, now⟩ := by
    rw [ho]
    rfl
  rw [hc, ← Except.ok.inj hrc]
  generalize t.lookup key = old at hw ⊢
  rcases old with _ | old
  · exact ⟨hw, rfl⟩
  · exact ⟨hw, hs.recordOf_eq ⟨key, some old, none, now⟩⟩

theorem update_apply_wrote (h : t.Consistent) (hky : t.keyNames.Scalar key)
    (hk : KeepsKey t.keyNames f) (ha : (update key f).apply t now = some (t', .ok record)) :
    Wrote t t' ((update key f).change t t.rows now).toList ∧
    record = ((update key f).change t t.rows now).bind t.recordOf := by
  have hs := apply_settings ha
  have hn := keyNames_congr (ensureKeyIndex_settings t).keySchema
  have hol : t.ensureKeyIndex.lookup key = first t.encodeKey (t.encodeKey key) t.rows := by
    rw [h.lookup_ensure hky.sound]
    exact h.lookup_eq hky.sound hky.isSome_encode
  simp only [apply] at ha
  rcases ho : t.ensureKeyIndex.rowFor (t.ensureKeyIndex.findItemIndex key) key now with ⟨u, id⟩
  rw [ho] at ha
  obtain ⟨⟨v, result⟩, hu, hr⟩ := bind_eq_some_iff.mp ha
  rcases result with e | ⟨⟨⟩⟩
  · cases hr
  obtain ⟨hg, hw⟩ := h.ensure.update_wrote (hn ▸ hky) (hn ▸ hk) ho hu
  obtain ⟨new, hnw, heq⟩ := map_eq_some_iff.mp hr
  obtain ⟨rfl, hrc⟩ := mk.inj heq
  rw [hg] at hnw
  rw [recordOf_written, hs.recordOf_eq, ← hnw, hol] at hrc
  rw [hol] at hw
  exact ⟨h.wrote_ensure.append hw, (Except.ok.inj hrc).symm⟩

/-- **An action** makes its change, and describes it. -/
theorem apply_wrote (h : t.Consistent) (hp : action.Proper t.keyNames)
    (ha : action.apply t now = some (t', .ok record)) : Wrote t t' (action.change t t.rows now).toList ∧
    record = (action.change t t.rows now).bind t.recordOf := by
  cases action with
  | put raw => exact put_apply_wrote h hp ha
  | delete key => exact delete_apply_wrote h hp ha
  | update key f => exact update_apply_wrote h hp.1 hp.2 ha
  | conditionCheck key =>
    obtain ⟨rfl, hr⟩ := mk.inj (some.inj ha)
    exact ⟨h.wrote_nil, (Except.ok.inj hr).symm⟩

end Action

end TransactAction

section Success

variable {ts ts' : Tables} {items : List TransactItem} {id : TableId} {t : DynamoTable} {t' : DynamoTable}

/-- The changes that the actions make to a table, each of the rows before the call. -/
def changesOn (id : TableId) (t : DynamoTable) (items : List TransactItem) : List RowChange :=
  (items.filter fun i => i.table = id).filterMap fun i => i.action.change t t.rows i.at_

def DistinctRows (id : TableId) (t : DynamoTable) (items : List TransactItem) : Prop :=
  items.Pairwise fun i j => i.table = id → j.table = id →
    t.encodeKey (i.action.key t) ≠ t.encodeKey (j.action.key t)

open TransactAction

theorem key_congr (h : t'.keySchema = t.keySchema) (action : TransactAction) :
    action.key t' = action.key t := by
  cases action with
  | put item => simp only [key, extractKey, keyNames_congr h]
  | _ => rfl

/-- A row that the actions do not name looks the same to them when another one has changed. -/
theorem changesOn_congr (h : t'.keySchema = t.keySchema)
    (hr : ∀ i ∈ items, i.table = id → rowsAt t.encodeKey (t.encodeKey (i.action.key t)) t'.rows =
        rowsAt t.encodeKey (t.encodeKey (i.action.key t)) t.rows) :
    changesOn id t' items = changesOn id t items := by
  refine filterMap_congr fun i hi => ?_
  obtain ⟨hi, hid⟩ := mem_filter.mp hi
  have hf : first t.encodeKey (t.encodeKey (i.action.key t)) t'.rows =
      first t.encodeKey (t.encodeKey (i.action.key t)) t.rows := by
    rw [first_eq_head?, first_eq_head?, hr i hi (of_decide_eq_true hid)]
  simp only [change, key_congr h, encodeKey_congr h, extractKey, keyNames_congr h, hf]

theorem changesOn_cons (id : TableId) (t : DynamoTable) (i : TransactItem) (items : List TransactItem) :
    changesOn id t (i :: items) = (if i.table = id then (i.action.change t t.rows i.at_).toList else []) ++
        changesOn id t items := by
  unfold changesOn
  by_cases hid : i.table = id
  · rw [filter_cons_of_pos (by simpa using hid), filterMap_cons, if_pos hid]
    rcases i.action.change t t.rows i.at_ with _ | c
    · rfl
    · rfl
  · rw [filter_cons_of_neg (by simpa using hid), if_neg hid]
    rfl

open DynamoTable in
/-- An action leaves the rows alone that it does not name. -/
theorem wrote_frame {action : TransactAction} {now : ℤ} {k : Option RowKey}
    (hp : action.Proper t.keyNames) (hw : Wrote t t' (action.change t t.rows now).toList)
    (hk : t.encodeKey (action.key t) ≠ k) : rowsAt t.encodeKey k t'.rows = rowsAt t.encodeKey k t.rows := by
  rw [hw.rows]
  refine (applyAll_rowsAt hw.fit ?_).2 k fun c hc => ?_
  · rcases action.change t t.rows now with _ | c
    · exact .nil
    · exact pairwise_singleton _ _
  · obtain ⟨row, hr, rfl⟩ := mem_map.mp hc
    have hky := encodeKey_change hp (Option.mem_toList.mp hr)
    exact fun heq => hk (hky.symm.trans heq)

/-! ### The check for duplicates -/

theorem rejectDuplicates_ok {seen : List (TableId × Item)} (h : rejectDuplicates ts seen items = .ok ()) :
    (∀ i ∈ items, (ts i.table).isSome ∧ ∀ s ∈ seen, s.1 = i.table → ∀ t, ts i.table = some t →
      t.keysEqual s.2 (i.action.key t) = false) ∧
    items.Pairwise fun i j => i.table = j.table → ∀ t, ts j.table = some t →
      t.keysEqual (i.action.key t) (j.action.key t) = false := by
  induction items generalizing seen with
  | nil => exact ⟨nofun, .nil⟩
  | cons i items ih =>
    rw [rejectDuplicates] at h
    rcases ht : ts i.table with _ | t
    · rw [ht] at h
      cases h
    rw [ht] at h
    dsimp only at h
    split at h
    · cases h
    · next hsn =>
      simp only [List.any_eq_true, Bool.and_eq_true, beq_iff_eq, not_exists, not_and, Bool.not_eq_true] at hsn
      obtain ⟨ha, hp⟩ := ih h
      refine ⟨fun j hj => ?_, pairwise_cons.mpr ⟨fun j hj hij u hu => ?_, hp⟩⟩
      · rcases mem_cons.mp hj with rfl | hj
        · refine ⟨by rw [ht]; rfl, fun s hs hsj u hu => ?_⟩
          rw [ht, some.injEq] at hu
          exact hu ▸ hsn s hs hsj
        · exact ⟨(ha j hj).1, fun s hs => (ha j hj).2 s (mem_append_left _ hs)⟩
      · have := (ha j hj).2 (i.table, i.action.key t)
          (mem_append_right _ mem_cons_self) hij u hu
        rw [← hij, ht, some.injEq] at hu
        exact hu ▸ this

theorem judgeAll_ok {checks : TransactChecks} {reasons : List CancellationReason}
    (h : judgeAll checks ts items = .ok reasons) : rejectDuplicates ts [] items = .ok () := by
  simp only [judgeAll, bind_eq_ok] at h
  obtain ⟨_, -, _, -, _, -, _, -, _, -, _, hd, -⟩ := h
  exact hd

theorem appendRecords_apply (now : ℤ) (pending : List (TableId × StreamRecord)) (ts : Tables)
    (id : TableId) : appendRecords now pending ts id =
      (ts id).map fun t => ((pending.filter fun p => p.1 = id).map snd).foldl
        (fun t record => t.addStreamRecord record now) t := by
  rw [appendRecords, foldl_modify_apply]
  simp only [foldl_map]

theorem addAll_same (t : DynamoTable) (records : List StreamRecord) (now : ℤ) : SameContents t
      (records.foldl (fun t record => t.addStreamRecord record now) t) := by
  induction records generalizing t with
  | nil => exact ⟨rfl, rfl, rfl, rfl, rfl⟩
  | cons record records ih =>
    have h := ih (t.addStreamRecord record now)
    have h' := t.addStreamRecord_same record now
    exact ⟨h.items.trans h'.items, h.keySchema.trans h'.keySchema, h.keyIndex.trans h'.keyIndex,
      h.itemCount.trans h'.itemCount, h.sizeBytes.trans h'.sizeBytes⟩

structure Committed (id : TableId) (items : List TransactItem) (t t' : DynamoTable) : Prop where
  /-- Every action has had its effect on the rows of its key, and lookups show it. -/
  effects : ∀ i ∈ items, i.table = id →
    rowsAt t.encodeKey (t.encodeKey (i.action.key t)) t'.rows =
      i.action.rowsAfter (rowsAt t.encodeKey (t.encodeKey (i.action.key t)) t.rows) ∧
    t'.lookup (i.action.key t) =
      (i.action.rowsAfter (rowsAt t.encodeKey (t.encodeKey (i.action.key t)) t.rows)).head?
  frame : ∀ k, (∀ i ∈ items, i.table = id → t.encodeKey (i.action.key t) ≠ k) →
    rowsAt t.encodeKey k t'.rows = rowsAt t.encodeKey k t.rows

variable (hp : ∀ i ∈ items, i.table = id → i.action.Proper t.keyNames)
include hp

/-- Keys that the check for duplicates tells apart have different encodings. -/
theorem distinctRows_of_check (ht : ts id = some t) (h : rejectDuplicates ts [] items = .ok ()) :
    DistinctRows id t items := by
  have hpr := (rejectDuplicates_ok h).2
  refine hpr.imp_of_mem fun {i j} hi hj hij hid hjd heq => ?_
  have hi' := (hp i hi hid).scalar_key
  have hj' := (hp j hj hjd).scalar_key
  have hne := hij (hid.trans hjd.symm) t (hjd ▸ ht)
  obtain ⟨k, hk⟩ := isSome_iff_exists.mp hi'.isSome_encode
  have he := (keysEqual_iff hi'.sound hj'.sound).mpr ⟨k, hk, heq ▸ hk⟩
  rw [hne] at he
  cases he

variable (hd : DistinctRows id t items)
include hd

theorem distinct_changes : ((changesOn id t items).map (RowChange.toChange t.encodeKey)).Pairwise
      fun a b => a.key ≠ b.key := by
  rw [pairwise_map, changesOn, pairwise_filterMap, pairwise_filter]
  refine hd.imp_of_mem fun {i j} hi hj hij hid hjd c hc d hcd => ?_
  have hid := of_decide_eq_true hid
  have hjd := of_decide_eq_true hjd
  change t.encodeKey c.keys ≠ t.encodeKey d.keys
  rw [encodeKey_change (hp i hi hid) hc, encodeKey_change (hp j hj hjd) hcd]
  exact hij hid hjd

/-- **Changes of different rows are the effects of the actions.** -/
theorem committed_of_wrote (hw : Wrote t t' (changesOn id t items)) : Committed id items t t' := by
  have he := encodeKey_congr hw.keySchema
  have hnm := keyNames_congr hw.keySchema
  obtain ⟨hal, hf⟩ := applyAll_rowsAt hw.fit (distinct_changes hp hd)
  rw [← hw.rows] at hal hf
  have hky : ∀ c ∈ (changesOn id t items).map (RowChange.toChange t.encodeKey),
      ∃ i ∈ items, i.table = id ∧ c.key = t.encodeKey (i.action.key t) ∧
        ∃ row ∈ i.action.change t t.rows i.at_, c = row.toChange t.encodeKey := by
    intro c hc
    obtain ⟨row, hr, rfl⟩ := mem_map.mp hc
    obtain ⟨i, hi, hci⟩ := mem_filterMap.mp hr
    obtain ⟨hi, hid⟩ := mem_filter.mp hi
    have hid := of_decide_eq_true hid
    exact ⟨i, hi, hid, encodeKey_change (hp i hi hid) hci, row, hci, rfl⟩
  have hef : ∀ i ∈ items, i.table = id → rowsAt t.encodeKey (t.encodeKey (i.action.key t)) t'.rows =
        i.action.rowsAfter (rowsAt t.encodeKey (t.encodeKey (i.action.key t)) t.rows) := by
    intro i hi hid
    -- the change that the action makes, if it makes one
    have hm : ∀ c ∈ i.action.change t t.rows i.at_,
      rowsAt t.encodeKey (t.encodeKey (i.action.key t)) t'.rows =
          c.new.toList ++ (rowsAt t.encodeKey (t.encodeKey (i.action.key t)) t.rows).tail := by
      intro c hc
      have hmm : c.toChange t.encodeKey ∈ (changesOn id t items).map (RowChange.toChange t.encodeKey) :=
        mem_map_of_mem (mem_filterMap.mpr
          ⟨i, mem_filter.mpr ⟨hi, decide_eq_true hid⟩, hc⟩)
      rw [← encodeKey_change (hp i hi hid) hc]
      exact (hal _ hmm).2
    have hn : i.action.change t t.rows i.at_ = none →
      rowsAt t.encodeKey (t.encodeKey (i.action.key t)) t'.rows =
          rowsAt t.encodeKey (t.encodeKey (i.action.key t)) t.rows := by
      intro hch
      refine hf _ fun c hc heq => ?_
      obtain ⟨j, hj, hjd, hke, row, hr, rfl⟩ := hky c hc
      have hij : i = j := by
        by_contra hne
        have hsy : Std.Symm fun i j : TransactItem => i.table = id → j.table = id →
            t.encodeKey (i.action.key t) ≠ t.encodeKey (j.action.key t) :=
              ⟨fun a b hab hb ha => (hab ha hb).symm⟩
        exact hd.forall hi hj hne hid hjd (heq.symm.trans hke)
      rw [← hij, hch] at hr
      cases hr
    rcases hi' : i.action with raw | key | ⟨key, f⟩ | key
    · rw [hi'] at hm
      exact hm _ rfl
    · rw [hi'] at hm hn
      rcases ho : first t.encodeKey (t.encodeKey ((delete key).key t)) t.rows with
        _ | old
      · rw [hn (by simp [change, ho])]
        rw [first_eq_head?, head?_eq_none_iff] at ho
        rw [ho]
        rfl
      · exact hm ⟨key, some old, none, i.at_⟩ (by simp [change, ho])
    · rw [hi'] at hm
      have := hm _ rfl
      rw [first_eq_head?] at this
      exact this
    · rw [hi'] at hn
      exact hn rfl
  refine ⟨fun i hi hid => ⟨hef i hi hid, ?_⟩, fun k hk => ?_⟩
  · have hs := (hp i hi hid).scalar_key
    rw [hw.consistent.lookup_eq (hnm ▸ hs.sound) (he.symm ▸ hs.isSome_encode), he,
      first_eq_head?, hef i hi hid]
  · refine hf k fun c hc heq => ?_
    obtain ⟨i, hi, hid, hke, -⟩ := hky c hc
    exact hk i hi hid (hke.symm.trans heq)

/-- **The actions in order** make their changes and describe them, table by table. -/
theorem applyItems_wrote {n : ℕ} {pending : List (TableId × StreamRecord)} (ht : ts id = some t)
    (h : t.Consistent) (ha : applyItems n items ts = some (ts', .ok pending)) :
    ∃ t', ts' id = some t' ∧ Wrote t t' (changesOn id t items) ∧ SameSettings t t' ∧
      (pending.filter fun p => p.1 = id).map snd = (changesOn id t items).filterMap t.recordOf := by
  induction items generalizing ts t n pending with
  | nil =>
    obtain ⟨rfl, hpn⟩ := mk.inj (some.inj ha)
    rw [← Except.ok.inj hpn]
    exact ⟨t, ht, h.wrote_nil, .refl t, rfl⟩
  | cons i items ih =>
    rw [applyItems] at ha
    rcases hu : ts i.table with _ | u
    · rw [hu] at ha
      cases ha
    rw [hu] at ha
    obtain ⟨⟨u', result⟩, hste, ha⟩ := bind_eq_some_iff.mp ha
    rcases result with e | record
    · cases ha
    obtain ⟨⟨ts'', rest⟩, hres, heq⟩ := map_eq_some_iff.mp ha
    rcases rest with e | rest
    · cases heq
    obtain ⟨rfl, rfl⟩ := heq
    obtain ⟨hn, hd⟩ := pairwise_cons.mp hd
    rw [changesOn_cons]
    by_cases hid : i.table = id
    · -- an action on this table
      have hsm : u = t := some.inj (hu.symm.trans (hid ▸ ht))
      subst hsm
      have hpi := hp i mem_cons_self hid
      obtain ⟨hw, hre⟩ := apply_wrote h hpi hste
      have hst := apply_settings hste
      have hs := hw.keySchema
      have hnm := keyNames_congr hs
      have hch : changesOn id u' items = changesOn id u items := by
        refine changesOn_congr hs fun j hj hjd => ?_
        exact wrote_frame hpi hw (hn j hj hid hjd)
      have hd' : DistinctRows id u' items := by
        refine hd.imp fun {j k} hjk => ?_
        rw [key_congr hs, key_congr hs, encodeKey_congr hs]
        exact hjk
      obtain ⟨t', ht', hrs, hr, hpn⟩ := ih (fun j hj hjd => hnm ▸ hp j (mem_cons_of_mem _ hj) hjd)
        hd' (by rw [hid]; exact update_self _ _ _) hw.consistent hres
      rw [hch] at hrs hpn
      refine ⟨t', ht', ?_, hst.trans hr, ?_⟩
      · rw [if_pos hid]
        exact hw.append hrs
      · have hrc : ∀ cs : List RowChange, cs.filterMap u'.recordOf = cs.filterMap u.recordOf :=
          fun cs => filterMap_congr fun c _ => hst.recordOf_eq c
        rw [filter_append, map_append, hpn, hrc, if_pos hid, hre]
        rcases i.action.change u u.rows i.at_ with _ | c
        · rfl
        · rcases hc : u.recordOf c with _ | r
          · simp [hc]
          · simp [hc, hid]
    · have ho : update ts i.table (some u') id = some t := by
        rw [update_of_ne (Ne.symm hid)]
        exact ht
      obtain ⟨t', ht', hrs, hr, hpn⟩ := ih
        (fun j hj hjd => hp j (mem_cons_of_mem _ hj) hjd) hd ho h hres
      refine ⟨t', ht', ?_, hr, ?_⟩
      · rw [if_neg hid]
        exact hrs
      · rw [filter_append, map_append, hpn, if_neg hid]
        have hnn : (record.toList.map (mk i.table)).filter (fun p => p.1 = id) = [] := by
          refine filter_eq_nil_iff.mpr fun p hp => ?_
          obtain ⟨r, -, rfl⟩ := mem_map.mp hp
          simpa using hid
        rw [hnn]
        rfl

end Success

/-- How a call can end: before any write, put back, or committed. -/
inductive TransactResult (ts : Tables) (items : List TransactItem) (now : ℤ) :
    Tables → TransactOutcome → Prop
  | refused {outcome : TransactOutcome} (h : outcome ≠ .committed) :
    TransactResult ts items now ts outcome
  | putBack {after : Tables} {failed : ℕ × ServiceError} {reasons : List CancellationReason}
    (hcheck : rejectDuplicates ts [] items = .ok ())
    (happly : applyItems 0 items ts = some (after, .error failed)) :
    TransactResult ts items now (revert (takeSnapshots ts items) after) (.canceled reasons)
  | committed {after : Tables} {pending : List (TableId × StreamRecord)}
    (hcheck : rejectDuplicates ts [] items = .ok ())
    (happly : applyItems 0 items ts = some (after, .ok pending)) :
    TransactResult ts items now (appendRecords now pending after) .committed

theorem transactWriteItems_result (checks : TransactChecks) (ts : Tables) (items : List TransactItem)
    (now : ℤ) : ∃ ts' outcome, transactWriteItems checks ts items now = some (ts', outcome) ∧
      TransactResult ts items now ts' outcome := by
  unfold transactWriteItems
  rcases hj : judgeAll checks ts items with e | reasons
  · exact ⟨ts, _, rfl, .refused nofun⟩
  dsimp only
  split
  · exact ⟨ts, _, rfl, .refused nofun⟩
  have hc := judgeAll_ok hj
  have ht : ∀ i ∈ items, (ts i.table).isSome := fun i hi => ((rejectDuplicates_ok hc).1 i hi).1
  -- any time after all actions
  obtain ⟨last, hl⟩ : ∃ last, ∀ i ∈ items, i.at_ ≤ last := by
    obtain ⟨last, hl⟩ := (items.map TransactItem.at_).toFinset.bddAbove
    exact ⟨last, fun i hi => hl (by simpa using ⟨i, hi, rfl⟩)⟩
  obtain ⟨after, result, ha, -⟩ := applyItems_evolved 0 ht hl
  rw [ha]
  rcases result with failed | pending
  · exact ⟨_, _, rfl, .putBack hc ha⟩
  · exact ⟨_, _, rfl, .committed hc ha⟩

section Result

variable {ts ts' : Tables} {items : List TransactItem} {now : ℤ} {outcome : TransactOutcome}
  {id : TableId} {t : DynamoTable}

theorem evolved_of_applyItems {after : Tables}
    {result : Except (ℕ × ServiceError) (List (TableId × StreamRecord))}
    (hc : rejectDuplicates ts [] items = .ok ()) (ht : ∀ i ∈ items, i.at_ ≤ now)
    (ha : applyItems 0 items ts = some (after, result)) : Evolved ts after now ∧
    ∀ id ∉ touched items, after id = ts id ∧
      ∀ pending, result = .ok pending → ∀ p ∈ pending, p.1 ≠ id := by
  have hth : ∀ i ∈ items, (ts i.table).isSome := fun i hi => ((rejectDuplicates_ok hc).1 i hi).1
  obtain ⟨after', result', ha', he, hu⟩ := applyItems_evolved 0 hth ht
  rw [ha, some.injEq, Prod.mk.injEq] at ha'
  rw [ha'.1, ha'.2]
  exact ⟨he, hu⟩

/-- A table that is not written, or was written and put back. -/
theorem TransactResult.of_failed (h : TransactResult ts items now ts' outcome)
    (hf : outcome ≠ .committed) (htm : ∀ i ∈ items, i.at_ ≤ now) (id : TableId) :
    ts' id = ts id ∨ id ∈ touched items ∧ ∃ t u, ts id = some t ∧ Evolved t u now ∧
      ts' id = some ((u.replaceItems t.rows).discardChangesSince t.changeMarker) := by
  cases h with
  | refused _ => exact .inl rfl
  | committed _ _ => exact absurd rfl hf
  | @putBack after failed reasons hc ha =>
    obtain ⟨he, hun⟩ := evolved_of_applyItems hc htm ha
    obtain ⟨hb, hl⟩ := revert_takeSnapshots ts after items id
    by_cases hid : id ∈ touched items
    · obtain ⟨i, hi, hi', -⟩ := mem_touched.mp hid
      obtain ⟨t, ht⟩ := isSome_iff_exists.mp ((rejectDuplicates_ok hc).1 i hi).1
      rw [hi'] at ht
      have hu := he id
      rw [ht] at hu
      rw [hb hid t ht]
      generalize after id = u at hu ⊢
      cases hu with
      | some hu => exact .inr ⟨hid, t, _, ht, hu, rfl⟩
    · exact .inl (by rw [hl hid, (hun id hid).1])

theorem TransactResult.of_committed (h : TransactResult ts items now ts' .committed)
    (ht : ts id = some t) (hc : t.Consistent) (hp : ∀ i ∈ items, i.table = id → i.action.Proper t.keyNames) :
    DistinctRows id t items ∧ ∃ u, Wrote t u (changesOn id t items) ∧
      SameSettings t u ∧ ts' id = some (((changesOn id t items).filterMap t.recordOf).foldl
        (fun t record => t.addStreamRecord record now) u) := by
  cases h with
  | refused h => exact absurd rfl h
  | @committed after pending hch ha =>
    have hd := distinctRows_of_check hp ht hch
    obtain ⟨u, hu, hw, hs, hpn⟩ := applyItems_wrote hp hd ht hc ha
    refine ⟨hd, u, hw, hs, ?_⟩
    rw [appendRecords_apply, hu, ← hpn]
    rfl

theorem TransactResult.untouched (h : TransactResult ts items now ts' outcome)
    (htm : ∀ i ∈ items, i.at_ ≤ now) (hid : id ∉ touched items) : ts' id = ts id := by
  by_cases ho : outcome = .committed
  · subst ho
    cases h with
    | refused h => exact absurd rfl h
    | @committed after pending hc ha =>
      obtain ⟨hl, hpn⟩ := (evolved_of_applyItems hc htm ha).2 id hid
      have hn : (pending.filter fun p => p.1 = id) = [] :=
        filter_eq_nil_iff.mpr fun p hp => by simpa using hpn pending rfl p hp
      rw [appendRecords_apply, hn, hl]
      exact Option.map_id' ..
  · exact (h.of_failed ho htm id).resolve_right fun h => hid h.1

theorem TransactResult.isSome_of_committed (h : TransactResult ts items now ts' .committed)
    (hid : id ∈ touched items) : (ts id).isSome := by
  obtain ⟨i, hi, rfl, -⟩ := mem_touched.mp hid
  cases h with
  | refused h => exact absurd rfl h
  | committed hc _ => exact ((rejectDuplicates_ok hc).1 i hi).1

end Result

/-- Every check before the first write lets the request through. -/
def Approved (checks : TransactChecks) (ts : Tables) (items : List TransactItem) : Prop :=
  ∃ reasons, judgeAll checks ts items = .ok reasons ∧ reasons.any CancellationReason.cancels = false

theorem transactWriteItems_refused {checks : TransactChecks} {ts : Tables} {items : List TransactItem}
    (h : ¬ Approved checks ts items) (now : ℤ) :
    ∃ outcome, transactWriteItems checks ts items now = some (ts, outcome) ∧ outcome ≠ .committed := by
  unfold transactWriteItems
  rcases hj : judgeAll checks ts items with e | reasons
  · exact ⟨_, rfl, nofun⟩
  · rcases hr : reasons.any CancellationReason.cancels with _ | _
    · exact absurd ⟨reasons, hj, hr⟩ h
    · exact ⟨_, if_pos hr, nofun⟩

/-- **All or nothing.**  A call that does not succeed leaves every table as it was, as far as it can be
asked: rows, statistics, lookups, the history inside the recovery window, stream records.  A call that
succeeds has made the change of every action, and no other.  Only the tables that an accepted request
writes have to be in order. -/
theorem transactWriteItems_all_or_nothing (checks : TransactChecks) {ts : Tables}
    {items : List TransactItem} {now : ℤ}
    (hts : Approved checks ts items → ∀ id ∈ touched items, ∀ t, ts id = some t →
      t.Consistent ∧ t.NumberedHistory)
    (htimes : ∀ i ∈ items, i.at_ ≤ now) :
    ∃ ts' outcome, transactWriteItems checks ts items now = some (ts', outcome) ∧
      (outcome ≠ .committed → ∀ id, Option.Rel (DynamoTable.Unchanged now) (ts id) (ts' id)) ∧
      (outcome = .committed → (∀ id ∉ touched items, ts' id = ts id) ∧
        ((∀ i ∈ items, i.table ∈ touched items → ∀ t, ts i.table = some t → i.action.Proper t.keyNames) →
          ∀ id ∈ touched items, Option.Rel (Committed id items) (ts id) (ts' id))) := by
  have hrefl : ∀ o : Option DynamoTable, Option.Rel (DynamoTable.Unchanged now) o o := by
    rintro (_ | t)
    · exact .none
    · exact .some (.refl now t)
  by_cases hac : Approved checks ts items
  · obtain ⟨ts', outcome, hrn, hr⟩ := transactWriteItems_result checks ts items now
    refine ⟨ts', outcome, hrn, fun hf id => ?_, fun hc =>
      ⟨fun id hid => hr.untouched htimes hid, fun hpr id hid => ?_⟩⟩
    · rcases hr.of_failed hf htimes id with hs | ⟨hid, t, u, ht, hu, hb⟩
      · rw [hs]
        exact hrefl _
      · rw [ht, hb]
        exact .some ((hts hac id hid t ht).1.putBack (hts hac id hid t ht).2 hu)
    · subst hc
      obtain ⟨t, ht⟩ := isSome_iff_exists.mp (hr.isSome_of_committed hid)
      have hp : ∀ i ∈ items, i.table = id → i.action.Proper t.keyNames := by
        rintro i hi rfl
        exact hpr i hi hid t ht
      obtain ⟨hd, u, hw, -, hts'⟩ := hr.of_committed ht (hts hac id hid t ht).1 hp
      rw [ht, hts']
      exact .some (committed_of_wrote hp hd (hw.congr (addAll_same u _ now)))
  · obtain ⟨outcome, hrn, ho⟩ := transactWriteItems_refused hac now
    exact ⟨ts, outcome, hrn, fun _ id => hrefl _, fun h => absurd h ho⟩

namespace Example

def noChecks : TransactChecks where
  listDump _ := []
  validate _ _ := .ok 0
  judge _ _ _ := .ok .none

def tableId : TableId := (['a'], ['t'])

def only (t : Option DynamoTable) : Tables := fun id => if id = tableId then t else none

def putThenFail : List TransactItem :=
  [⟨tableId, .put (row "5"), 3⟩,
    ⟨tableId, .update (row "6") fun item => (item, .error (validationError [])), 3⟩]

/-- **A lookup that differs after a canceled transaction.**  Before it the index has lost a row (see
`lost_row`); the table is put back with a new index, which has it again. -/
theorem canceled_lookup : ∃ t, TableOp.runAll deleteHigh table = some t ∧ t.lookup low = none ∧
    ∃ ts' reasons, transactWriteItems noChecks (only (some t)) putThenFail 3 =
      some (ts', .canceled reasons) ∧ ∃ t', ts' tableId = some t' ∧ (t'.lookup low).isSome := by
  have he : ((TableOp.runAll deleteHigh table).bind fun t =>
      (transactWriteItems noChecks (only (some t)) putThenFail 3).bind fun r =>
        match r.2 with
        | .canceled _ => (r.1 tableId).map fun t' => ((t.lookup low).isSome, (t'.lookup low).isSome)
        | _ => none) = some (false, true) := by
    decide +kernel
  obtain ⟨t, ht, he⟩ := bind_eq_some_iff.mp he
  obtain ⟨⟨ts', outcome⟩, hr, he⟩ := bind_eq_some_iff.mp he
  rcases outcome with e | reasons | _
  · cases he
  · obtain ⟨t', ht', hl⟩ := map_eq_some_iff.mp he
    obtain ⟨hb, ha⟩ := mk.inj hl
    exact ⟨t, ht, not_isSome_iff_eq_none.mp (by simp [hb]), ts', reasons, hr, t', ht', ha⟩
  · cases he

/-- A put, an update that adds an attribute, a delete and a condition check. -/
def fourActions : List TransactItem :=
  [⟨tableId, .put (row "5.0"), 3⟩,
    ⟨tableId, .update (row "6") fun item => (item.insert ['v'] (.obj [(['S'], .str ['w'])]), .ok ()), 3⟩,
    ⟨tableId, .delete (row "7"), 4⟩, ⟨tableId, .conditionCheck (row "8"), 4⟩]

theorem fourActions_proper : ∀ i ∈ fourActions, ∀ t, only (some table) i.table = some t →
    i.action.Proper t.keyNames := by
  have hs : ∀ number ∈ ["5.0", "6", "7", "8"], table.keyNames.Scalar (row number) := by
    decide +kernel
  intro i hi t ht
  have htb : t = table := by
    fin_cases hi <;> exact (some.inj ht).symm
  subst htb
  fin_cases hi
  · exact hs "5.0" (by simp)
  · refine ⟨hs "6" (by simp), fun item _ a ha => ?_⟩
    have hne : a ≠ ['v'] := by
      rintro rfl
      revert ha
      decide
    exact AList.lookup_insert_ne hne
  · exact hs "7" (by simp)
  · exact hs "8" (by simp)

end Example

theorem transactWriteItems_all_or_nothing_four :
    ∃ ts', transactWriteItems Example.noChecks (Example.only (some Example.table))
      Example.fourActions 5 = some (ts', .committed) ∧
      (∀ id ∉ touched Example.fourActions, ts' id = Example.only (some Example.table) id) ∧
      ∀ id ∈ touched Example.fourActions, Option.Rel (Committed id Example.fourActions)
        (Example.only (some Example.table) id) (ts' id) := by
  have htb : ∀ id ∈ touched fourActions, ∀ t, only (some table) id = some t →
      t.Consistent ∧ t.NumberedHistory := by
    intro id _ t ht
    unfold only at ht
    split at ht
    · rw [← some.inj ht]
      exact ⟨table_loaded.consistent nofun, nofun⟩
    · cases ht
  have hc : (transactWriteItems noChecks (only (some table))
      fourActions 5).map (fun r => match r.2 with | .committed => true | _ => false) = some true := by
    decide +kernel
  obtain ⟨ts', outcome, hr, -, he⟩ := @transactWriteItems_all_or_nothing noChecks
    (only (some table)) fourActions 5 (fun _ => htb) (by decide)
  rw [hr] at hc
  rcases outcome with e | reasons | _
  · cases hc
  · cases hc
  · exact ⟨ts', hr, (he rfl).1, (he rfl).2 fun i hi _ => fourActions_proper i hi⟩

end Fakecloud.Dynamodb
