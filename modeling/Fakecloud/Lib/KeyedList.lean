import Mathlib.Data.List.Basic
import Mathlib.Tactic

/-!
# Lists of rows by their keys

A list that is used as a table: every row has a key, a row is written over the first one of its key or
behind all others, and removed by its key.  Keys need not be unique.  Each operation changes the rows
of one key and leaves the others alone (`rowsAt_upsert`, `rowsAt_erase`).

A change says what the first row of a key was and what it becomes.  Changes of different keys do not
see each other (`applyAll_rowsAt`).
-/

namespace KeyedList

open List

variable {α κ : Type} [DecidableEq κ] (key : α → κ)

/-- A row in place of the first one of its key, or at the end. -/
def upsert (x : α) : List α → List α
  | [] => [x]
  | a :: rows => if key a = key x then x :: rows else a :: upsert x rows

def erase (k : κ) (rows : List α) : List α := rows.eraseP fun a => key a = k

def rowsAt (k : κ) (rows : List α) : List α := rows.filter fun a => key a = k

def first (k : κ) (rows : List α) : Option α := rows.find? fun a => key a = k

variable {key} {k : κ} {x : α} {rows : List α}

theorem first_eq_head? : first key k rows = (rowsAt key k rows).head? := by
  rw [first, rowsAt, head?_filter]

theorem upsert_split {front behind : List α} {a : α} (hf : ∀ b ∈ front, key b ≠ key x)
    (ha : key a = key x) : upsert key x (front ++ a :: behind) = front ++ x :: behind := by
  induction front with
  | nil => simp [upsert, ha]
  | cons b front ih =>
    rw [cons_append, upsert, if_neg (hf b mem_cons_self), ih fun c hc => hf c (mem_cons_of_mem _ hc)]
    rfl

theorem upsert_absent (h : ∀ a ∈ rows, key a ≠ key x) : upsert key x rows = rows ++ [x] := by
  induction rows with
  | nil => rfl
  | cons a rows ih =>
    rw [upsert, if_neg (h a mem_cons_self), ih fun b hb => h b (mem_cons_of_mem _ hb)]
    rfl

theorem erase_split {front behind : List α} {a : α} (hf : ∀ b ∈ front, key b ≠ k)
    (ha : key a = k) : erase key k (front ++ a :: behind) = front ++ behind := by
  rw [erase, eraseP_append_right _ (by simpa using hf), eraseP_cons_of_pos (by simpa using ha)]

theorem erase_absent (h : ∀ a ∈ rows, key a ≠ k) : erase key k rows = rows :=
  eraseP_of_forall_not (by simpa using h)

theorem upsert_upsert {y : α} (h : key x = key y) (rows : List α) :
    upsert key y (upsert key x rows) = upsert key y rows := by
  induction rows with
  | nil => simp [upsert, h]
  | cons a rows ih =>
    by_cases ha : key a = key y
    · simp [upsert, h, ha]
    · simp [upsert, h, ha, ih]

theorem rowsAt_cons (k : κ) (a : α) (rows : List α) : rowsAt key k (a :: rows) =
    if key a = k then a :: rowsAt key k rows else rowsAt key k rows := by
  simp [rowsAt, filter_cons]

/-- **Writing a row** changes the rows of its key. -/
theorem rowsAt_upsert (k : κ) (x : α) (rows : List α) : rowsAt key k (upsert key x rows) =
      if key x = k then x :: (rowsAt key k rows).tail else rowsAt key k rows := by
  induction rows with
  | nil => exact rowsAt_cons k x []
  | cons a rows ih =>
    rw [upsert]
    by_cases ha : key a = key x
    · rw [if_pos ha, rowsAt_cons, rowsAt_cons, ha]
      split_ifs <;> rfl
    · rw [if_neg ha, rowsAt_cons, rowsAt_cons, ih]
      split_ifs with hk hx
      · exact absurd (hk.trans hx.symm) ha
      all_goals rfl

/-- **Removing a row** changes the rows of its key. -/
theorem rowsAt_erase (k k' : κ) (rows : List α) : rowsAt key k (erase key k' rows) =
      if k' = k then (rowsAt key k rows).tail else rowsAt key k rows := by
  induction rows with
  | nil => simp [erase, rowsAt]
  | cons a rows ih =>
    by_cases ha : key a = k'
    · rw [erase, eraseP_cons_of_pos (by simpa using ha), rowsAt_cons, ha]
      split_ifs <;> rfl
    · rw [erase, eraseP_cons_of_neg (by simpa using ha), ← erase, rowsAt_cons, rowsAt_cons, ih]
      split_ifs with hk hk'
      · exact absurd (hk.trans hk'.symm) ha
      all_goals rfl

/-! ## Changes -/

/-- The first row of a key, before and after. -/
structure Change (α κ : Type) where
  key : κ
  old : Option α
  new : Option α

namespace Change

variable (key) in
def apply (c : Change α κ) (rows : List α) : List α :=
  match c.new with
  | some x => upsert key x rows
  | none => erase key c.key rows

variable (key) in
structure Fits (rows : List α) (c : Change α κ) : Prop where
  old : c.old = first key c.key rows
  new : ∀ x ∈ c.new, key x = c.key

/-- **A change** puts the new row in front of the other rows of its key. -/
theorem Fits.rowsAt_apply {c : Change α κ} (h : c.Fits key rows) (k : κ) : rowsAt key k (c.apply key rows) =
      if c.key = k then c.new.toList ++ (rowsAt key k rows).tail else rowsAt key k rows := by
  obtain ⟨ck, old, _ | x⟩ := c
  · exact rowsAt_erase k ck rows
  · have hx : key x = ck := h.new x rfl
    rw [apply, rowsAt_upsert, hx]
    rfl

end Change

variable (key) in
def applyAll (cs : List (Change α κ)) (rows : List α) : List α :=
  cs.foldl (fun rows c => c.apply key rows) rows

variable (key) in
/-- Every change is one of the rows that the ones before it leave. -/
def FitAll : List (Change α κ) → List α → Prop
  | [], _ => True
  | c :: cs, rows => c.Fits key rows ∧ FitAll cs (c.apply key rows)

theorem fitAll_append {cs ds : List (Change α κ)} : FitAll key (cs ++ ds) rows ↔
    FitAll key cs rows ∧ FitAll key ds (applyAll key cs rows) := by
  induction cs generalizing rows with
  | nil => simp [FitAll, applyAll]
  | cons c cs ih => simp [FitAll, ih, applyAll, and_assoc]

/-- **Changes of different keys** are all there in the end, and nothing else has changed. -/
theorem applyAll_rowsAt {cs : List (Change α κ)} (hf : FitAll key cs rows)
    (hds : cs.Pairwise fun a b => a.key ≠ b.key) : (∀ c ∈ cs, c.old = first key c.key rows ∧
      rowsAt key c.key (applyAll key cs rows) = c.new.toList ++ (rowsAt key c.key rows).tail) ∧
    ∀ k, (∀ c ∈ cs, c.key ≠ k) → rowsAt key k (applyAll key cs rows) = rowsAt key k rows := by
  induction cs generalizing rows with
  | nil => exact ⟨nofun, fun _ _ => rfl⟩
  | cons c cs ih =>
    obtain ⟨hc, hf⟩ := hf
    obtain ⟨hn, hds⟩ := pairwise_cons.mp hds
    obtain ⟨ha, hr⟩ := ih hf hds
    refine ⟨fun d hd => ?_, fun k hk => ?_⟩
    · rcases mem_cons.mp hd with rfl | hd
      · refine ⟨hc.old, ?_⟩
        have := hr d.key fun e he => (hn e he).symm
        rw [hc.rowsAt_apply, if_pos rfl] at this
        exact this
      · -- the rows of another key are as they were
        have ho := hc.rowsAt_apply d.key
        rw [if_neg (hn d hd)] at ho
        obtain ⟨hol, hnw⟩ := ha d hd
        rw [first_eq_head?, ho, ← first_eq_head?] at hol
        rw [ho] at hnw
        exact ⟨hol, hnw⟩
    · have := hr k fun e he => hk e (mem_cons_of_mem _ he)
      rw [hc.rowsAt_apply, if_neg (hk c mem_cons_self)] at this
      exact this

end KeyedList
