import Fakecloud.Aws.EventPattern
import Fakecloud.Lib.Glob

/-!
# Wildcards with escapes

`StringMatches` of a choice state compiles its pattern to tokens and fills a table.  The `wildcard` of an
event pattern looks for the pieces between the asterisks from the left.  Both decide the language of the
pattern; they read a backslash differently where it escapes nothing.
-/

namespace Fakecloud.Stepfunctions

open Text List Glob Aws.EventPattern

/-! ## `StringMatches` -/

inductive GlobToken
  | char (c : Char)
  | wildcard
deriving DecidableEq

def compileGlobPattern : Str → List GlobToken
  | [] => []
  | '\\' :: '*' :: s => .char '*' :: compileGlobPattern s
  | '\\' :: '\\' :: s => .char '\\' :: compileGlobPattern s
  | '*' :: s => .wildcard :: compileGlobPattern s
  | c :: s => .char c :: compileGlobPattern s

/-- The cells of a row behind the one with value `left`, from the cells of the row above it. -/
def fillRow (c : Char) : Bool → List Bool → List GlobToken → List Bool
  | left, diagonal :: above, t :: pattern =>
    let cell :=
      match t with
      | .wildcard => left || above.headD false
      | .char x => x = c && diagonal
    cell :: fillRow c cell above pattern
  | _, _, _ => []

/-- The table row by row, and its last cell. -/
def globDpMatch (value : Str) (pattern : List GlobToken) : Bool :=
  let first := pattern.scanl (fun left t => t = .wildcard && left) true
  (value.foldl (fun above c => false :: fillRow c false above pattern) first).getLastD false

def stringMatches (value pattern : Str) : Bool := globDpMatch value (compileGlobPattern pattern)

/-! ## The language of a pattern -/

/-- What a pattern stands for.  A backslash that escapes nothing is dropped, or stands for itself. -/
def Spells (drops : Bool) : Str → Str → Prop
  | [], v => v = []
  | '*' :: p, v => ∃ u w, v = u ++ w ∧ Spells drops p w
  | '\\' :: '*' :: p, v => ∃ w, v = '*' :: w ∧ Spells drops p w
  | '\\' :: '\\' :: p, v => ∃ w, v = '\\' :: w ∧ Spells drops p w
  | '\\' :: p, v => if drops then Spells drops p v else ∃ w, v = '\\' :: w ∧ Spells drops p w
  | c :: p, v => ∃ w, v = c :: w ∧ Spells drops p w

/-- Every backslash escapes an asterisk or a backslash. -/
def wellEscaped : Str → Bool
  | [] => true
  | ['\\'] => false
  | '\\' :: c :: s => (c = '*' || c = '\\') && wellEscaped s
  | _ :: s => wellEscaped s

section Tokens

variable {t : GlobToken} {p q : List GlobToken} {u v : Str} {c : Char}

def globTokens : Tokens GlobToken Char where
  takes t x := t = .char x
  isRun t := t = .wildcard

theorem matches_char : Matches globTokens (.char c :: q) v ↔ ∃ w, v = c :: w ∧ Matches globTokens q w := by
  constructor
  · rintro (_ | ⟨-, ht, h⟩ | ⟨_, hr, -⟩)
    · obtain rfl : c = _ := by simpa [globTokens] using ht
      exact ⟨_, rfl, h⟩
    · simp [globTokens] at hr
  · rintro ⟨w, rfl, h⟩
    exact .one rfl (by simp [globTokens]) h

theorem matches_wildcard :
    Matches globTokens (.wildcard :: q) v ↔ ∃ u w, v = u ++ w ∧ Matches globTokens q w := by
  constructor
  · rintro (_ | ⟨hr, -, -⟩ | ⟨u, -, h⟩)
    · simp [globTokens] at hr
    · exact ⟨u, _, rfl, h⟩
  · rintro ⟨u, w, rfl, h⟩
    exact .run u rfl h

theorem matches_nil : Matches globTokens [] v ↔ v = [] :=
  ⟨by rintro ⟨⟩; rfl, by rintro rfl; exact .nil⟩

/-! ### The table -/

theorem matches_snoc_char :
    Matches globTokens (q ++ [.char c]) v ↔ ∃ u, v = u ++ [c] ∧ Matches globTokens q u := by
  simp [matches_append, matches_char, matches_nil]

theorem matches_snoc_wildcard :
    Matches globTokens (q ++ [.wildcard]) v ↔ ∃ u, u <+: v ∧ Matches globTokens q u := by
  simp [matches_append, matches_wildcard, matches_nil, IsPrefix, eq_comm]

open Classical in
/-- The row of the table for `u`, from the column behind `q` on. -/
noncomputable def cells (u : Str) : List GlobToken → List GlobToken → List Bool
  | q, [] => [decide (Matches globTokens q u)]
  | q, t :: p => decide (Matches globTokens q u) :: cells u (q ++ [t]) p

open Classical in
theorem cells_eq_cons : ∃ row, cells u q p = decide (Matches globTokens q u) :: row := by
  cases p <;> exact ⟨_, rfl⟩

open Classical in
theorem getLastD_cells : (cells u q p).getLastD false = decide (Matches globTokens (q ++ p) u) := by
  induction p generalizing q with
  | nil => simp [cells]
  | cons t p ih =>
    obtain ⟨row, he⟩ := @cells_eq_cons p (q ++ [t]) u
    have e : q ++ t :: p = q ++ [t] ++ p := by simp
    rw [e, ← ih, cells, he]
    rfl

open Classical in
theorem fillRow_cells : decide (Matches globTokens q (u ++ [c])) ::
    fillRow c (decide (Matches globTokens q (u ++ [c]))) (cells u q p) p = cells (u ++ [c]) q p := by
  induction p generalizing q with
  | nil => rfl
  | cons t p ih =>
    obtain ⟨row, he⟩ := @cells_eq_cons p (q ++ [t]) u
    rw [cells, cells, ← @ih (q ++ [t])]
    cases t with
    | char x => simp [fillRow, matches_snoc_char, @eq_comm _ c]
    | wildcard => simp [fillRow, he, matches_snoc_wildcard, prefix_concat_iff, or_and_right, exists_or]

theorem globDpMatch_iff : globDpMatch v p = true ↔ Matches globTokens p v := by
  classical
  have hfirst : ∀ q, p.scanl (fun left t => t = .wildcard && left) (decide (Matches globTokens q [])) =
      cells [] q p := by
    induction p with
    | nil => exact fun q => rfl
    | cons t p ih =>
      intro q
      rw [scanl_cons, cells, ← ih]
      cases t <;> simp [matches_snoc_char, matches_snoc_wildcard]
  have hrows : ∀ u, v.foldl (fun above c => false :: fillRow c false above p) (cells u [] p) =
      cells (u ++ v) [] p := by
    induction v with
    | nil => simp
    | cons c v ih =>
      intro u
      have hrow : false :: fillRow c false (cells u [] p) p = cells (u ++ [c]) [] p := by
        simpa [matches_nil] using @fillRow_cells p [] u c
      rw [foldl_cons, hrow, ih, append_assoc]
      rfl
  have hstart : p.scanl (fun left t => t = .wildcard && left) true = cells [] [] p := by
    simpa [matches_nil] using hfirst []
  simp only [globDpMatch, hstart, hrows, getLastD_cells, nil_append, decide_eq_true_eq]

theorem stringMatches_iff {pattern : Str} : stringMatches v pattern = true ↔ Spells false pattern v := by
  rw [stringMatches, globDpMatch_iff]
  fun_induction compileGlobPattern pattern generalizing v with
  | case1 => exact matches_nil
  | case2 s ih => simp only [matches_char, Spells, ih]
  | case3 s ih => simp only [matches_char, Spells, ih]
  | case4 s ih => simp only [matches_wildcard, Spells, ih]
  | case5 c s hstar hslash hne ih =>
    by_cases hc : c = '\\'
    · subst hc
      simp_all [matches_char, Spells]
    · simp_all [matches_char, Spells]

end Tokens

/-! ## Pieces between asterisks -/

section Pieces

variable {seg cur p v rest : Str} {segs : List Str}

/-- The pieces in their order, the first at the start and the last at the end. -/
def Pieces : List Str → Str → Prop
  | [], _ => False
  | [last], v => v = last
  | seg :: segs, v => ∃ gap rest, v = seg ++ (gap ++ rest) ∧ Pieces segs rest

/-- The first place of a piece leaves the most room for those behind it. -/
theorem wildcardRest_iff :
    wildcardRest (seg :: segs) rest = true ↔ ∃ gap v, rest = gap ++ v ∧ Pieces (seg :: segs) v := by
  induction segs generalizing seg rest with
  | nil =>
    simp only [wildcardRest, Pieces, isSuffixOf_iff_suffix, exists_eq_right]
    exact exists_congr fun _ => eq_comm
  | cons next segs ih =>
    rw [wildcardRest]
    · rcases hd : rest.dropInfix? seg with _ | ⟨pre, suf⟩
      · have hn := dropInfix?_eq_none hd
        simp only [Pieces, Bool.false_eq_true, false_iff]
        rintro ⟨gap, _, hr, gap', v, rfl, -⟩
        exact hn _ _ hr
      · obtain ⟨rfl, hmin⟩ := dropInfix?_eq_some.mp hd
        dsimp only
        rw [ih]
        constructor
        · rintro ⟨gap, v, rfl, hp⟩
          exact ⟨pre, _, rfl, gap, v, rfl, hp⟩
        · rintro ⟨gap, _, hr, gap', v, rfl, hp⟩
          have hle := congrArg length hr
          have hmin := hmin gap _ hr
          simp only [length_append] at hle
          obtain ⟨x, rfl⟩ : gap' ++ v <:+ suf := by
            have hg : gap' ++ v <:+ pre ++ (seg ++ suf) := ⟨gap ++ seg, by rw [hr, append_assoc]⟩
            refine suffix_of_suffix_length_le hg ⟨pre ++ seg, append_assoc ..⟩ ?_
            rw [length_append]
            omega
          exact ⟨x ++ gap', v, (append_assoc ..).symm, hp⟩
    · simp

theorem wildcardSegments_ne_nil : wildcardSegments cur p ≠ [] := by
  fun_induction wildcardSegments cur p <;> simp_all

theorem pieces_wildcardSegments :
    Pieces (wildcardSegments cur p) v ↔ ∃ w, v = cur ++ w ∧ Spells true p w := by
  fun_induction wildcardSegments cur p generalizing v with
  | case1 cur => simp [Pieces, Spells]
  | case2 cur => simp [Pieces, Spells]
  | case3 cur c s ih =>
    have hs w : Spells true ('\\' :: c :: s) w ↔ ∃ w', w = c :: w' ∧ Spells true s w' := by
      by_cases h : c = '*' ∨ c = '\\'
      · rcases h with rfl | rfl <;> rw [Spells]
      · simp_all [Spells]
    simp [ih, hs]
  | case4 cur s _ _ ih =>
    obtain ⟨next, segs, hs⟩ := exists_cons_of_ne_nil (@wildcardSegments_ne_nil [] s)
    rw [hs] at ih ⊢
    simp only [Pieces, Spells, ih, nil_append, exists_eq_left']
    constructor
    · rintro ⟨gap, rest, rfl, h⟩
      exact ⟨_, rfl, gap, rest, rfl, h⟩
    · rintro ⟨_, rfl, gap, rest, rfl, h⟩
      exact ⟨gap, rest, rfl, h⟩
  | case5 cur c s hend hmore hc ih =>
    have hl : c ≠ '\\' := by cases s <;> simp_all
    simp [ih, Spells, hl]

end Pieces

theorem wildcardMatches_iff {pattern value : Str} :
    wildcardMatches pattern value = true ↔ Spells true pattern value := by
  have h := @pieces_wildcardSegments [] pattern value
  have hn := @wildcardSegments_ne_nil [] pattern
  simp only [nil_append, exists_eq_left'] at h
  rw [wildcardMatches, ← h]
  rcases hs : wildcardSegments [] pattern with _ | ⟨first, _ | ⟨next, segs⟩⟩
  · exact absurd hs hn
  · simp only [Pieces, beq_iff_eq]
    exact eq_comm
  · dsimp only
    rcases hd : value.dropPrefix? first with _ | rest
    · simp only [Pieces, Bool.false_eq_true, false_iff]
      rintro ⟨gap, r, rfl, -⟩
      rw [dropPrefix?_append_of_beq _ (beq_self_eq_true first)] at hd
      cases hd
    · obtain ⟨_, rfl, he⟩ := dropPrefix?_eq_some_iff.mp hd
      simp [eq_of_beq he, wildcardRest_iff, Pieces]

/-- **Both matchers decide the language of the pattern**, and agree where a backslash only escapes. -/
theorem wildcard_matchers (pattern value : Str) :
    (wildcardMatches pattern value = true ↔ Spells true pattern value) ∧
      (stringMatches value pattern = true ↔ Spells false pattern value) ∧
      (wellEscaped pattern → wildcardMatches pattern value = stringMatches value pattern) := by
  refine ⟨wildcardMatches_iff, stringMatches_iff, fun h => ?_⟩
  rw [Bool.eq_iff_iff, wildcardMatches_iff, stringMatches_iff]
  fun_induction wellEscaped pattern generalizing value with
  | case1 => rfl
  | case2 => cases h
  | case3 c s ih =>
    simp only [Bool.and_eq_true, Bool.or_eq_true, decide_eq_true_eq] at h
    rcases h with ⟨rfl | rfl, h⟩ <;> simp only [Spells, fun w => ih w h]
  | case4 c s hend hmore ih =>
    have hl : c ≠ '\\' := by cases s <;> simp_all
    by_cases hc : c = '*'
    · subst hc
      simp only [Spells, fun w => ih w h]
    · simp [Spells, hl, fun w => ih w h]

-- apart, where a backslash stands before another character
example : wildcardMatches "\\a" "a" = true ∧ stringMatches "a" "\\a" = false := by decide

end Fakecloud.Stepfunctions
