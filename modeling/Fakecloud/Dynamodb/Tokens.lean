import Fakecloud.Dynamodb.Expression
import Mathlib

/-!
# What is accepted

Facts about the lexer and the parser of expressions: how the tokens of a text lie in it, that an
expression which is accepted has tokens of the grammar only, so that no quotation mark is in it, and what
a text looks like that is a document path.
-/

namespace Fakecloud.Dynamodb

open Text List Option Cursor

/-! ## The tokens of an expression that is accepted -/

theorem lexFrom_skip (allowQuoted : Bool) : ∀ (skip pos : ℕ) (s : Str),
    lexFrom allowQuoted skip pos s = lexFrom allowQuoted 0 (pos + skip) (s.drop skip)
  | 0, _, _ => rfl
  | skip + 1, pos, [] => by simp [lexFrom]
  | skip + 1, pos, _ :: s => by
    rw [lexFrom, lexFrom_skip allowQuoted skip (pos + 1) s]
    congr 1
    omega

theorem signAt_spec (c : Char) (next : Option Char) :
    (signAt c next).1 ∉ [Tok.ident, .name, .value, .quoted, .num, .eof] ∧
    ((signAt c next).1 = .dot → c = '.') ∧ ((signAt c next).1 = .lbracket → c = '[') ∧
    ((signAt c next).1 ≠ .unknown → c ≠ '"' ∧ ((signAt c next).2 = 0 ∨
      (signAt c next).2 = 1 ∧ (next = some '=' ∨ next = some '>'))) := by
  unfold signAt
  split
  all_goals try simp
  case h_10 => split <;> (try split) <;> simp_all
  case h_11 => split <;> simp_all

/-- The token that starts with a character: a placeholder, a word, a quotation or a sign. -/
theorem tokenAt_cases (allowQuoted : Bool) (c : Char) (rest : Str) :
    (c = '#' ∧ tokenAt allowQuoted c rest = (.name, (rest.takeWhile isWordByte).length)) ∨
    (c = ':' ∧ tokenAt allowQuoted c rest = (.value, (rest.takeWhile isWordByte).length)) ∨
    ((c = '#' ∨ c = ':') ∧ tokenAt allowQuoted c rest = (.unknown, 0)) ∨
    (isWordByte c ∧ (tokenAt allowQuoted c rest = (.num, (rest.takeWhile isWordByte).length) ∨
      tokenAt allowQuoted c rest = (.ident, (rest.takeWhile isWordByte).length))) ∨
    (c = '"' ∧ allowQuoted ∧ ((tokenAt allowQuoted c rest).1 = .quoted ∨
      (tokenAt allowQuoted c rest).1 = .unknown)) ∨ tokenAt allowQuoted c rest = signAt c rest.head? := by
  unfold tokenAt
  by_cases hm : c = '#' ∨ c = ':'
  · rw [if_pos hm]
    by_cases hw : rest.takeWhile isWordByte = []
    · exact .inr (.inr (.inl ⟨hm, if_pos hw⟩))
    · rw [if_neg hw]
      rcases hm with rfl | rfl
      · exact .inl ⟨rfl, rfl⟩
      · exact .inr (.inl ⟨rfl, by simp⟩)
  · rw [if_neg hm]
    by_cases hw : isWordByte c
    · rw [if_pos hw]
      refine .inr (.inr (.inr (.inl ⟨hw, ?_⟩)))
      split
      · exact .inl rfl
      · exact .inr rfl
    · rw [if_neg hw]
      by_cases hq : c = '"' ∧ allowQuoted
      · rw [if_pos hq]
        refine .inr (.inr (.inr (.inr (.inl ⟨hq.1, hq.2, ?_⟩))))
        split
        · exact .inl rfl
        · exact .inr rfl
      · rw [if_neg hq]
        exact .inr (.inr (.inr (.inr (.inr rfl))))

theorem tokenAt_ne_eof (allowQuoted : Bool) (c : Char) (rest : Str) :
    (tokenAt allowQuoted c rest).1 ≠ .eof := by
  rcases tokenAt_cases allowQuoted c rest with ⟨-, h⟩ | ⟨-, h⟩ | ⟨-, h⟩ | ⟨-, h | h⟩ | ⟨-, -, h | h⟩ | h
  all_goals
    have hs := (signAt_spec c rest.head?).1
    simp_all

variable {allowQuoted : Bool} {pos : ℕ} {s src : Str} {t : Token} {elems p : DocPath} {names : Names}
  {c : Char} {rest : Str} {ctx : ExprContext}

/-- What a lexer makes of a text: blanks, then a token, then the rest. -/
theorem lexFrom_cons {ts : List Token}
    (h : lexFrom allowQuoted 0 pos s = t :: ts) : ∃ blank c rest pos', blank.all isAsciiWhitespace ∧
      s = blank ++ c :: rest ∧ isAsciiWhitespace c = false ∧ t.tok = (tokenAt allowQuoted c rest).1 ∧
      t.text = c :: rest.take (tokenAt allowQuoted c rest).2 ∧
      ts = lexFrom allowQuoted 0 pos' (rest.drop (tokenAt allowQuoted c rest).2) := by
  induction s generalizing pos with
  | nil => simp [lexFrom] at h
  | cons c s ih =>
    unfold lexFrom at h
    by_cases hc : isAsciiWhitespace c
    · rw [if_pos hc] at h
      obtain ⟨blank, d, rest, pos', hb, rfl, hr⟩ := ih h
      exact ⟨c :: blank, d, rest, pos', by simp [hc, hb], rfl, hr⟩
    · rw [if_neg hc] at h
      dsimp only at h
      rw [lexFrom_skip] at h
      obtain ⟨rfl, rfl⟩ := List.cons.inj h
      exact ⟨[], c, s, _, rfl, rfl, by simpa using hc, rfl, rfl, rfl⟩

theorem lexFrom_nil (h : lexFrom allowQuoted 0 pos s = []) : s.all isAsciiWhitespace := by
  induction s generalizing pos with
  | nil => rfl
  | cons c s ih =>
    unfold lexFrom at h
    by_cases hc : isAsciiWhitespace c
    · rw [if_pos hc] at h
      simpa [hc] using ih h
    · rw [if_neg hc] at h
      cases h

theorem tok_ne_eof_of_mem (h : t ∈ lex s allowQuoted) : t.tok ≠ .eof := by
  have key : ∀ (ts : List Token) (pos : ℕ) (s : Str), lexFrom allowQuoted 0 pos s = ts → t ∈ ts →
      t.tok ≠ .eof := by
    intro ts
    induction ts with
    | nil => simp
    | cons t' ts ih =>
      intro pos s hl hm
      obtain ⟨_, c, rest, pos', _, _, _, ht, _, hts⟩ := lexFrom_cons hl
      rcases mem_cons.mp hm with rfl | hm
      · exact ht ▸ tokenAt_ne_eof allowQuoted c rest
      · exact ih pos' _ hts.symm hm
  exact key _ 0 s rfl h

theorem take_word (rest : Str) :
    rest.take (rest.takeWhile isWordByte).length = rest.takeWhile isWordByte := by
  have hp : rest.takeWhile isWordByte <+: rest := takeWhile_prefix isWordByte
  exact (prefix_iff_eq_take.mp hp).symm

theorem quote_not_mem_word (rest : Str) (hc : c ≠ '"') :
    '"' ∉ c :: rest.take (rest.takeWhile isWordByte).length := by
  rw [take_word, mem_cons, not_or]
  exact ⟨hc.symm, fun h => absurd (mem_takeWhile_imp h) (by decide)⟩

theorem quote_not_mem_token (ht : (tokenAt false c rest).1 ≠ .unknown) :
    '"' ∉ c :: rest.take (tokenAt false c rest).2 := by
  rcases tokenAt_cases false c rest with ⟨rfl, h⟩ | ⟨rfl, h⟩ | ⟨-, h⟩ | ⟨hc, h | h⟩ | ⟨-, hq, -⟩ | h
  · rw [h]; exact quote_not_mem_word rest (by decide)
  · rw [h]; exact quote_not_mem_word rest (by decide)
  · exact absurd (by rw [h]) ht
  · rw [h]; exact quote_not_mem_word rest (by rintro rfl; exact absurd hc (by decide))
  · rw [h]; exact quote_not_mem_word rest (by rintro rfl; exact absurd hc (by decide))
  · cases hq
  · rw [h] at ht ⊢
    obtain ⟨hqt, hm | ⟨hm, hn⟩⟩ := (signAt_spec c rest.head?).2.2.2 ht
    · simpa [hm] using hqt.symm
    · rcases rest with _ | ⟨d, rest⟩
      · simp at hn
      · rw [hm]
        rcases hn with h | h <;> (obtain rfl := some.inj h; simpa using hqt.symm)

theorem unknown_of_quote (h : '"' ∈ s) : ∃ t ∈ lex s false, t.tok = .unknown := by
  have key : ∀ (ts : List Token) (pos : ℕ) (s : Str), lexFrom false 0 pos s = ts → '"' ∈ s →
      ∃ t ∈ ts, t.tok = .unknown := by
    have hbl : ∀ s : Str, s.all isAsciiWhitespace → '"' ∉ s := fun s hs hm =>
      absurd (all_eq_true.mp hs _ hm) (by decide)
    intro ts
    induction ts with
    | nil => exact fun pos s hl hm => absurd hm (hbl s (lexFrom_nil hl))
    | cons t ts ih =>
      intro pos s hl hm
      obtain ⟨blank, c, rest, pos', hb, rfl, -, htk, -, hts⟩ := lexFrom_cons hl
      by_cases hun : t.tok = .unknown
      · exact ⟨t, mem_cons_self, hun⟩
      · have ho := quote_not_mem_token (htk ▸ hun)
        have hr : '"' ∈ rest.drop (tokenAt false c rest).2 := by
          rw [← take_append_drop (tokenAt false c rest).2 rest] at hm
          rcases mem_append.mp hm with hm | hm
          · exact absurd hm (hbl blank hb)
          · exact (mem_append.mp hm).resolve_left ho
        obtain ⟨t', ht', hu⟩ := ih pos' _ hts.symm hr
        exact ⟨t', mem_cons_of_mem _ ht', hu⟩
  exact key _ 0 s rfl h

/-- The tokens of the elements of a path behind its first name. -/
inductive TailOf (ctx : ExprContext) (src : Str) : List Token → DocPath → List Token → Prop
  | done {rest : List Token} (h : ∀ t ∈ rest.head?, t.tok ≠ .dot ∧ t.tok ≠ .lbracket) :
  TailOf ctx src rest [] rest
  | attr {t n : Token} {rest rest' : List Token} {name : Str} {elems : DocPath} (hdot : t.tok = .dot)
      (hname : pathName ctx ⟨src, some t, n :: rest⟩ = .ok name) (htail : TailOf ctx src rest elems rest') :
      TailOf ctx src (t :: n :: rest) (.attr name :: elems) rest'
  | index {t n b : Token} {rest rest' : List Token} {i : ℕ} {elems : DocPath} (hopen : t.tok = .lbracket)
      (hnum : n.tok = .num) (hi : parseUnsigned (2 ^ 64) n.text = some i) (hclose : b.tok = .rbracket)
      (htail : TailOf ctx src rest elems rest') : TailOf ctx src (t :: n :: b :: rest)
        (.index i :: elems) rest'

theorem tailOf_of_pathTail {prev : Option Token} {rest : List Token} {c : Cursor}
    (h : pathTail ctx src prev rest = .ok (elems, c)) :
    TailOf ctx src rest elems c.rest := by
  fun_induction pathTail generalizing elems
  case case1 =>
    cases h
    exact .done (by simp)
  case case2 prev t hdot name n rest hname ih =>
    rw [hname] at h
    obtain ⟨⟨elems', c'⟩, htl, heq⟩ := bind_eq_ok.mp h
    cases heq
    exact .attr hdot hname (ih htl)
  case case4 hname => rw [hname] at h; cases h
  case case6 prev t hopen n b rest i hi hclose ih =>
    obtain ⟨⟨elems', c'⟩, htl, heq⟩ := bind_eq_ok.mp h
    cases heq
    split at hi
    next hn => exact .index hopen hn hi hclose (ih htl)
    next => cases hi
  case case11 prev t rest hdot hopen =>
    cases h
    refine .done fun t' ht' => ?_
    obtain rfl := some.inj ht'
    exact ⟨fun h => hdot h, fun h => hopen h⟩
  all_goals cases h

theorem path_eq_ok {c c' : Cursor} (h : path ctx c = .ok (p, c')) :
    ∃ name elems, pathName ctx c = .ok name ∧ TailOf ctx c.src c.advance.rest elems c'.rest ∧
      p = .attr name :: elems := by
  obtain ⟨name, hn, h⟩ := bind_eq_ok.mp h
  obtain ⟨⟨elems, c''⟩, ht, heq⟩ := bind_eq_ok.mp h
  cases heq
  exact ⟨name, elems, hn, tailOf_of_pathTail ht, rfl⟩

/-- A parser gets from one place to another, past tokens that the grammar knows. -/
def Consumes (c c' : Cursor) : Prop := ∃ used, c.rest = used ++ c'.rest ∧ ∀ t ∈ used, t.tok ≠ .unknown

namespace Consumes

variable {ctx : ExprContext} {c c' c'' : Cursor}

theorem refl (c : Cursor) : Consumes c c := ⟨[], rfl, by simp⟩

theorem trans (h : Consumes c c') (h' : Consumes c' c'') : Consumes c c'' := by
  obtain ⟨used, heq, hu⟩ := h
  obtain ⟨used', heq', hu'⟩ := h'
  refine ⟨used ++ used', by rw [heq, heq', append_assoc], fun t ht => ?_⟩
  rcases mem_append.mp ht with ht | ht
  · exact hu t ht
  · exact hu' t ht

theorem advance (h : c.peek ≠ .unknown) : Consumes c c.advance := by
  rcases c with ⟨src, prev, _ | ⟨t, rest⟩⟩
  · exact refl _
  · exact ⟨[t], rfl, fun t' ht' => by rw [mem_singleton.mp ht']; exact h⟩

theorem expect {tok : Tok} (ht : tok ≠ .unknown) (h : c.expect tok = .ok c') : Consumes c c' := by
  unfold Cursor.expect at h
  split at h
  next hp =>
    cases h
    exact advance (hp ▸ ht)
  next => cases h

theorem pathName {n : Str} (h : pathName ctx c = .ok n) : c.peek ≠ .unknown := by
  intro hp
  simp [Dynamodb.pathName, hp] at h

theorem tail {src : Str} {rest rest' : List Token} {elems : DocPath} (h : TailOf ctx src rest elems rest') :
    ∃ used, rest = used ++ rest' ∧ ∀ t ∈ used, t.tok ≠ .unknown := by
  induction h with
  | done => exact ⟨[], rfl, by simp⟩
  | @attr t n rest rest' name elems hd hnm _ ih =>
    obtain ⟨used, rfl, hu⟩ := ih
    have hn : n.tok ≠ .unknown := pathName hnm
    refine ⟨t :: n :: used, rfl, fun t' ht' => ?_⟩
    simp only [mem_cons] at ht'
    rcases ht' with rfl | rfl | ht'
    · simp [hd]
    · exact hn
    · exact hu t' ht'
  | @index t n b rest rest' i elems ho hnu _ hc _ ih =>
    obtain ⟨used, rfl, hu⟩ := ih
    refine ⟨t :: n :: b :: used, rfl, fun t' ht' => ?_⟩
    simp only [mem_cons] at ht'
    rcases ht' with rfl | rfl | rfl | ht'
    · simp [ho]
    · simp [hnu]
    · simp [hc]
    · exact hu t' ht'

theorem path {p : DocPath} (h : path ctx c = .ok (p, c')) : Consumes c c' := by
  obtain ⟨name, elems, hn, ht, -⟩ := path_eq_ok h
  exact (advance (pathName hn)).trans (tail ht)

theorem values (fuel : ℕ) : (∀ c v c', setValue ctx fuel c = .ok (v, c') → Consumes c c') ∧
    (∀ c v c', setOperand ctx fuel c = .ok (v, c') → Consumes c c') ∧
    (∀ c v c', setArgs ctx fuel c = .ok (v, c') → Consumes c c') := by
  induction fuel with
  | zero => simp [setValue, setOperand, setArgs]
  | succ fuel ih =>
    obtain ⟨ihValue, ihOperand, ihArgs⟩ := ih
    refine ⟨fun c v c' h => ?_, fun c v c' h => ?_, fun c v c' h => ?_⟩
    · obtain ⟨⟨left, c₁⟩, hl, h⟩ := bind_eq_ok.mp h
      dsimp only at h
      split at h
      next hsg =>
        obtain ⟨⟨right, c₂⟩, hr, h⟩ := bind_eq_ok.mp h
        cases h
        have hk : c₁.peek ≠ .unknown := by rcases hsg with hs | hs <;> simp [hs]
        exact ((ihOperand _ _ _ hl).trans (advance hk)).trans (ihOperand _ _ _ hr)
      next =>
        cases h
        exact ihOperand _ _ _ hl
    · unfold setOperand at h
      split at h
      next hpk =>
        obtain ⟨⟨inner, c₁⟩, hi, h⟩ := bind_eq_ok.mp h
        obtain ⟨c₂, hc, h⟩ := bind_eq_ok.mp h
        cases h
        exact ((advance (by simp [hpk])).trans (ihValue _ _ _ hi)).trans (expect (by simp) hc)
      next hpk =>
        obtain ⟨ref, -, h⟩ := bind_eq_ok.mp h
        cases h
        exact advance (by simp [hpk])
      next hpk =>
        split at h
        next hf =>
          have ho : c.advance.peek = .lparen := by
            simp only [atFunction, Bool.and_eq_true, decide_eq_true_eq] at hf
            exact hf.2
          split at h
          next =>
            obtain ⟨⟨args, c₁⟩, ha, h⟩ := bind_eq_ok.mp h
            obtain ⟨c₂, hc, h⟩ := bind_eq_ok.mp h
            obtain ⟨v', -, h⟩ := bind_eq_ok.mp h
            cases h
            exact (((advance (by simp [hpk])).trans (advance (by simp [ho]))).trans
              (ihArgs _ _ _ ha)).trans (expect (by simp) hc)
          next => split at h <;> cases h
        next =>
          rcases hp : Dynamodb.path ctx c with e | ⟨p, c₁⟩
          · rw [hp] at h; cases h
          · rw [hp] at h; cases h
            exact path hp
      next =>
        rcases hp : Dynamodb.path ctx c with e | ⟨p, c₁⟩
        · rw [hp] at h; cases h
        · rw [hp] at h; cases h
          exact path hp
      next => cases h
    · obtain ⟨⟨v₁, c₁⟩, hv, h⟩ := bind_eq_ok.mp h
      dsimp only at h
      split at h
      next hcm =>
        obtain ⟨⟨vs, c₂⟩, hvs, h⟩ := bind_eq_ok.mp h
        cases h
        exact ((ihValue _ _ _ hv).trans (advance (by simp [hcm]))).trans (ihArgs _ _ _ hvs)
      next =>
        cases h
        exact ihValue _ _ _ hv

variable {a : UpdateAction} {ast ast' : UpdateAst} {fuel : ℕ}

theorem action (h : updateAction ctx a ast c = .ok (ast', c')) : Consumes c c' := by
  obtain ⟨⟨p, c₁⟩, hp, h⟩ := bind_eq_ok.mp h
  refine (path hp).trans ?_
  have ho : ∀ {ast₁ : Str → UpdateAst}, (if c₁.peek = .value then
      valueRef ctx c₁ >>= fun v => Except.ok (ast₁ v, c₁.advance) else .error c₁.syntaxError) =
        .ok (ast', c') → Consumes c₁ c' := by
    intro ast₁ h
    split at h
    next hpk =>
      obtain ⟨ref, -, h⟩ := bind_eq_ok.mp h
      cases h
      exact advance (by simp [hpk])
    next => cases h
  cases a with
  | set =>
    obtain ⟨c₂, heq, h⟩ := bind_eq_ok.mp h
    obtain ⟨⟨v, c₃⟩, hv, h⟩ := bind_eq_ok.mp h
    cases h
    exact (expect (by simp) heq).trans ((values _).1 _ _ _ hv)
  | remove =>
    cases h
    exact refl _
  | add => exact ho h
  | delete => exact ho h

theorem actions
    (h : updateActions ctx a fuel ast c = .ok (ast', c')) : Consumes c c' := by
  induction fuel generalizing ast c with
  | zero => cases h
  | succ fuel ih =>
    obtain ⟨⟨ast₁, c₁⟩, ha, h⟩ := bind_eq_ok.mp h
    dsimp only at h
    split at h
    next hc => exact ((action ha).trans (advance (by simp [hc]))).trans (ih h)
    next =>
      cases h
      exact action ha

theorem sections {seen : List UpdateAction}
    (h : updateSections ctx fuel seen ast c = .ok ast') : ∃ c', Consumes c c' ∧ c'.peek = .eof := by
  induction fuel generalizing seen ast c with
  | zero => cases h
  | succ fuel ih =>
    unfold updateSections at h
    split at h
    next => cases h
    next a hf =>
      split at h
      next => cases h
      next =>
        obtain ⟨⟨ast₁, c₁⟩, ha, h⟩ := bind_eq_ok.mp h
        have hk := find?_some hf
        have hi : c.peek = .ident := by
          simp only [isKeyword, Bool.and_eq_true, decide_eq_true_eq] at hk
          exact hk.1
        have hs : Consumes c c₁ := (advance (by simp [hi])).trans (actions ha)
        dsimp only at h
        split at h
        next he => exact ⟨c₁, hs, he⟩
        next =>
          obtain ⟨c', hc', he⟩ := ih h
          exact ⟨c', hs.trans hc', he⟩

end Consumes

theorem parseUpdateExpression_eq_ok {ast : UpdateAst}
    (h : parseUpdateExpression ctx src = .ok ast) : (ctx.strict → checkSizeAndEmpty src = .ok ()) ∧
      updateSections ctx ((start ctx src).rest.length + 1) [] {} (start ctx src) = .ok ast ∧
      checkOverlap ast.targetPaths = .ok () := by
  have hc : ∀ x : Except ServiceError UpdateAst, (x >>= fun ast =>
      if ast.sets.any (redundantParens false ·.2) then
        .error (invalidUpdate "The expression has redundant parentheses;")
      else checkOverlap ast.targetPaths >>= fun _ => .ok ast) = .ok ast →
      x = .ok ast ∧ checkOverlap ast.targetPaths = .ok () := by
    intro x hx
    obtain ⟨ast', hsc, hx⟩ := bind_eq_ok.mp hx
    split at hx
    next => cases hx
    next =>
      obtain ⟨_, ho, hx⟩ := bind_eq_ok.mp hx
      cases hx
      exact ⟨hsc, ho⟩
  unfold parseUpdateExpression at h
  by_cases hst : ctx.strict
  · rw [if_pos hst] at h
    obtain ⟨_, hsz, h⟩ := bind_eq_ok.mp h
    exact ⟨fun _ => hsz, hc _ h⟩
  · rw [if_neg hst] at h
    exact ⟨fun hs => absurd hs hst, hc _ h⟩

/-- An expression that is accepted has no quotation marks. -/
theorem Accepted.quote_not_mem {expr : Str} {values : Values}
    (h : Accepted expr names values) : '"' ∉ expr := by
  intro hq
  obtain ⟨ast, ha⟩ := isSome_iff_exists.mp h
  obtain ⟨-, hs, -⟩ := parseUpdateExpression_eq_ok (eq_ok_of_toOption ha)
  obtain ⟨c, ⟨used, hl, hus⟩, he⟩ := Consumes.sections hs
  have hl : lex expr false = used ++ c.rest := hl
  obtain ⟨t, ht, hu⟩ := unknown_of_quote hq
  rw [hl] at ht
  rcases mem_append.mp ht with ht | ht
  · exact hus t ht hu
  · -- the end is where no token is left
    obtain ⟨t', rest, hr⟩ := exists_cons_of_ne_nil (ne_nil_of_mem ht)
    have ht' : t' ∈ lex expr false := by rw [hl, hr]; simp
    exact tok_ne_eof_of_mem ht' (by simpa [Cursor.peek, hr] using he)

/-! ## The attribute that a path starts at -/

/-- The token of a bare name or of a placeholder is all of its word. -/
theorem tokenAt_pathName (hc : c ≠ '"')
    (h : (tokenAt true c rest).1 = .ident ∨ (tokenAt true c rest).1 = .quoted ∨
      (tokenAt true c rest).1 = .name) :
    ((tokenAt true c rest).1 = .ident ∧ isWordByte c ∨ (tokenAt true c rest).1 = .name ∧ c = '#') ∧
      (tokenAt true c rest).2 = (rest.takeWhile isWordByte).length := by
  rcases tokenAt_cases true c rest with ⟨rfl, h'⟩ | ⟨rfl, h'⟩ | ⟨-, h'⟩ | ⟨hw, h' | h'⟩ | ⟨hq, -⟩ | h'
  · simp [h']
  · simp [h'] at h
  · simp [h'] at h
  · simp [h'] at h
  · simp [h', hw]
  · exact absurd hq hc
  · have hs := (signAt_spec c rest.head?).1
    rw [h'] at h
    simp only [mem_cons, not_or] at hs
    rcases h with h | h | h
    · exact absurd h hs.1
    · exact absurd h hs.2.2.2.1
    · exact absurd h hs.2.1

theorem tokenAt_stop
    (h : (tokenAt allowQuoted c rest).1 = .dot ∨ (tokenAt allowQuoted c rest).1 = .lbracket) :
    c = '.' ∨ c = '[' := by
  rcases tokenAt_cases allowQuoted c rest with ⟨-, h'⟩ | ⟨-, h'⟩ | ⟨-, h'⟩ | ⟨-, h' | h'⟩
    | ⟨-, -, h' | h'⟩ | h'
  · simp [h'] at h
  · simp [h'] at h
  · simp [h'] at h
  · simp [h'] at h
  · simp [h'] at h
  · simp [h'] at h
  · simp [h'] at h
  · rw [h'] at h
    exact h.imp (signAt_spec c rest.head?).2.1 (signAt_spec c rest.head?).2.2.1

theorem isWhitespace_of_ascii (h : s.all isAsciiWhitespace) : s.all isWhitespace := by
  rw [List.all_eq_true] at h ⊢
  intro c hc
  have ha := h c hc
  simp only [isAsciiWhitespace, Bool.or_eq_true, beq_iff_eq] at ha
  rcases ha with (((rfl | rfl) | rfl) | rfl) | rfl <;> decide

/-- A character of the name that a path starts with. -/
def isNameChar (c : Char) : Bool := isWordByte c || c == '#'

theorem isNameChar_spec (h : isNameChar c) : isWhitespace c = false ∧ c ≠ '.' ∧ c ≠ '[' ∧ c ≠ '"' := by
  refine ⟨?_,
    by rintro rfl; simp [isNameChar, isWordByte] at h, by rintro rfl; simp [isNameChar, isWordByte] at h,
    by rintro rfl; simp [isNameChar, isWordByte] at h⟩
  have hc : 48 ≤ c.toNat ∧ c.toNat ≤ 57 ∨ 65 ≤ c.toNat ∧ c.toNat ≤ 90 ∨ 97 ≤ c.toNat ∧ c.toNat ≤ 122 ∨
      c.toNat = 95 ∨ c.toNat = 35 := by
    simp only [isNameChar, isWordByte, Char.isAlphanum, Char.isAlpha, Char.isUpper, Char.isLower,
      Char.isDigit, Bool.or_eq_true, Bool.and_eq_true, decide_eq_true_eq, beq_iff_eq] at h
    rcases h with (((h | h) | h) | rfl) | rfl
    · exact .inr (.inl h)
    · exact .inr (.inr (.inl h))
    · exact .inl h
    · exact .inr (.inr (.inr (.inl rfl)))
    · exact .inr (.inr (.inr (.inr rfl)))
  simp only [isWhitespace, Bool.or_eq_false_iff, Bool.and_eq_false_iff, decide_eq_false_iff_not,
    beq_eq_false_iff_ne]
  omega

theorem lookup_pathName {c : Cursor} {name : Str}
    (h : pathName ⟨names, ∅, false⟩ c = .ok name) : c.peek = .ident ∧ name = c.curText ∨ c.peek = .quoted ∨
      c.peek = .name ∧ name = (names.lookup c.curText).getD c.curText := by
  unfold pathName at h
  split at h
  next ht =>
    split at h
    next => cases h
    next =>
      exact .inl ⟨ht, (Except.ok.inj h).symm⟩
  next ht => exact .inr (.inl ht)
  next ht =>
    refine .inr (.inr ⟨ht, ?_⟩)
    split at h
    next n hn =>
      rw [hn]
      exact (Except.ok.inj h).symm
    next hn =>
      rw [hn]
      exact (Except.ok.inj h).symm
  next => cases h

/-- Behind the first name of a path that is a whole text: blanks, and then the end, a `.` or a `[`. -/
theorem exists_of_tailOf (h : TailOf ctx src (lexFrom true 0 pos s) elems []) :
    ∃ back rest, s = back ++ rest ∧
      back.all isAsciiWhitespace ∧ ∀ c ∈ rest.head?, c = '.' ∨ c = '[' := by
  rcases hl : lexFrom true 0 pos s with _ | ⟨t, ts⟩
  · exact ⟨s, [], by simp, lexFrom_nil hl, by simp⟩
  · obtain ⟨back, c, rest, pos', hb, rfl, -, ht, -, -⟩ := lexFrom_cons hl
    rw [hl] at h
    have hs : t.tok = .dot ∨ t.tok = .lbracket := by
      cases h with
      | attr hdt => exact .inl hdt
      | index ho => exact .inr ho
    refine ⟨back, c :: rest, rfl, hb, fun d hd => ?_⟩
    obtain rfl := some.inj hd
    exact tokenAt_stop (by rwa [ht] at hs)

/-- Where a path starts: a name with blanks around it, and then the end, a `.` or a `[`. -/
theorem exists_of_parseDocumentPath (h : parseDocumentPath s names = some p) (hq : '"' ∉ s) :
    ∃ front w back rest elems, s = front ++ w ++ back ++ rest ∧ front.all isAsciiWhitespace ∧
      back.all isAsciiWhitespace ∧ w.all isNameChar ∧ (∀ c ∈ rest.head?, c = '.' ∨ c = '[') ∧
      p = .attr (if w.head? = some '#' then (names.lookup w).getD w else w) :: elems := by
  obtain ⟨c, hp, he⟩ : ∃ c, path ⟨names, ∅, false⟩ (start ⟨names, ∅, false⟩ s) = .ok (p, c) ∧
    c.peek = .eof := by
    unfold parseDocumentPath at h
    dsimp only at h
    split at h
    next p' c hp =>
      split at h
      next he => exact ⟨c, some.inj h ▸ hp, he⟩
      next => cases h
    next => cases h
  -- no token is left at the end
  have hen : c.rest = [] := by
    obtain ⟨used, hl, -⟩ := Consumes.path hp
    rcases hr : c.rest with _ | ⟨t, ts⟩
    · rfl
    · have ht : t ∈ lex s true := by
        have hl : lex s true = used ++ c.rest := hl
        rw [hl, hr]; simp
      exact absurd (by simpa [peek, hr] using he) (tok_ne_eof_of_mem ht)
  obtain ⟨name, elems, hnm, htl, rfl⟩ := path_eq_ok hp
  rcases hl : lexFrom true 0 0 s with _ | ⟨t, ts⟩
  · have hnl : (start ⟨names, ∅, false⟩ s).rest = [] := hl
    have hnm := lookup_pathName hnm
    simp [peek, hnl] at hnm
  · obtain ⟨front, d, rest, pos', hf, rfl, -, htk, htx, hts⟩ := lexFrom_cons hl
    have hst : start ⟨names, ∅, false⟩ (front ++ d :: rest) =
        ⟨front ++ d :: rest, none, t :: ts⟩ := by rw [start, lex]; simp [hl]
    rw [hst] at hnm htl
    have hd : d ≠ '"' := fun h => hq (by simp [h])
    have hk : (tokenAt true d rest).1 = .ident ∨ (tokenAt true d rest).1 = .quoted ∨
        (tokenAt true d rest).1 = .name := by
      rw [← htk]
      exact (lookup_pathName hnm).imp And.left (Or.imp id And.left)
    obtain ⟨hwr, hm⟩ := tokenAt_pathName hd hk
    rw [hm] at htx hts
    rw [take_word] at htx
    have htl : TailOf ⟨names, ∅, false⟩ (front ++ d :: rest) ts elems [] := hen ▸ htl
    rw [hts] at htl
    obtain ⟨back, rest', hbc, hb, hsto⟩ := exists_of_tailOf htl
    refine ⟨front, t.text, back, rest', elems, ?_, hf, hb, ?_, hsto, ?_⟩
    · have hs := take_append_drop (rest.takeWhile isWordByte).length rest
      rw [take_word, hbc] at hs
      rw [htx, append_assoc, append_assoc, cons_append, hs]
    · rw [htx, all_cons, Bool.and_eq_true, List.all_eq_true]
      refine ⟨?_, fun x hx => by simp [isNameChar, mem_takeWhile_imp hx]⟩
      rcases hwr with ⟨-, hw⟩ | ⟨-, rfl⟩
      · simp [isNameChar, hw]
      · decide
    · have hc : curText ⟨front ++ d :: rest, none, t :: ts⟩ = t.text := rfl
      have hpk : peek ⟨front ++ d :: rest, none, t :: ts⟩ = (tokenAt true d rest).1 := htk
      have hnm := lookup_pathName hnm
      rw [hc, hpk] at hnm
      rcases hwr with ⟨hi, hw⟩ | ⟨hn, rfl⟩
      · have hne : t.text.head? ≠ some '#' := by
          rw [htx]
          rintro h
          obtain rfl : d = '#' := some.inj h
          exact absurd hw (by decide)
        rw [if_neg hne]
        simpa [hi] using hnm
      · rw [if_pos (by rw [htx]; rfl)]
        simpa [hn] using hnm

end Fakecloud.Dynamodb
