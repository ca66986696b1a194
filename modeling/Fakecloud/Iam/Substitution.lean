import Fakecloud.Iam.Wildcards

/-!
# What a policy text with placeholders spells

A policy text is cut into plain text and placeholders.  Plain text stands for its language, with the
wildcards that the policy writes; a placeholder stands for one string, the value of its key, its default
or the character that it escapes, or for nothing.  The text spells the values that are put together
from these.  The scanner and the matcher of `policy_variables.rs` decide that language.

In a resource pattern the part up to the fifth colon is plain text, also where it has placeholders.
-/

namespace Fakecloud.Iam.PolicyVariables

open Text Fakecloud.Core Condition List Option Glob

/-! ## Segments -/

inductive Segment
  | text (s : Str)
  | placeholder (inner : Str)

/-- How a text is cut: at each placeholder, from the first on. -/
inductive Segments : Str → List Segment → Prop
  | plain {s : Str} (h : ∀ before inner rest, s ≠ before ++ (opening ++ (inner ++ '\x7d' :: rest))) :
      Segments s [.text s]
  | cons {before inner rest : Str} {segments : List Segment}
      (hfirst : ∀ b a, before ++ (opening ++ (inner ++ '\x7d' :: rest)) = b ++ (opening ++ a) →
        before.length ≤ b.length)
      (hclose : '\x7d' ∉ inner) (hrest : Segments rest segments) :
      Segments (before ++ (opening ++ (inner ++ '\x7d' :: rest)))
        (.text before :: .placeholder inner :: segments)

/-- The string that a placeholder stands for. -/
inductive Denotes (F : Formats) (ctx : ConditionContext) (inner : Str) : Str → Prop
  | escape {c : Char} (hc : c = '*' ∨ c = '?' ∨ c = '$') (h : trim inner = [c]) : Denotes F ctx inner [c]
  | value {v : Str} (hescape : ∀ c, c = '*' ∨ c = '?' ∨ c = '$' → trim inner ≠ [c])
      (h : ctx.lookup F (splitDefault (trim inner)).1 = some [v]) : Denotes F ctx inner v
  | default {v : Str} (hescape : ∀ c, c = '*' ∨ c = '?' ∨ c = '$' → trim inner ≠ [c])
      (hnone : ∀ u, ctx.lookup F (splitDefault (trim inner)).1 ≠ some [u])
      (h : (splitDefault (trim inner)).2 = some v) : Denotes F ctx inner v

def Segment.Spells (F : Formats) (ctx : ConditionContext) : Segment → Set Str
  | .text s => Language s
  | .placeholder inner => {v | Denotes F ctx inner v}

/-- The values of a text, put together from those of its segments. -/
def Spells (F : Formats) (ctx : ConditionContext) : List Segment → Set Str
  | [] => {[]}
  | segment :: segments =>
    {w | ∃ u v, w = u ++ v ∧ u ∈ segment.Spells F ctx ∧ v ∈ Spells F ctx segments}

section

variable {F : Formats} {ctx ctx' : ConditionContext} {segments : List Segment}

theorem mem_spells_text {s value : Str} : value ∈ Spells F ctx [.text s] ↔ value ∈ Language s := by
  constructor
  · rintro ⟨u, v, rfl, hu, rfl⟩
    rwa [append_nil]
  · intro h
    exact ⟨value, [], by simp, h, rfl⟩

/-- A placeholder that stands for nothing leaves no value. -/
theorem not_mem_spells {inner : Str} (hm : .placeholder inner ∈ segments)
    (hn : ∀ v, ¬ Denotes F ctx inner v) (value : Str) : value ∉ Spells F ctx segments := by
  induction segments generalizing value with
  | nil => cases hm
  | cons segment segments ih =>
    rintro ⟨u, v, -, hu, hv⟩
    rcases mem_cons.mp hm with rfl | hm
    · exact hn u hu
    · exact ih hm v hv

theorem spells_congr
    (h : ∀ inner, .placeholder inner ∈ segments → ∀ v, Denotes F ctx inner v ↔ Denotes F ctx' inner v) :
    Spells F ctx segments = Spells F ctx' segments := by
  induction segments with
  | nil => rfl
  | cons segment segments ih =>
    have hs : segment.Spells F ctx = segment.Spells F ctx' := by
      cases segment with
      | text s => rfl
      | placeholder inner => exact Set.ext (h inner mem_cons_self)
    rw [Spells, Spells, hs, ih fun inner hm => h inner (mem_cons_of_mem _ hm)]

end

/-! ## The scanner -/

section

variable {s before after : Str}

/-- When no brace closes the first placeholder, no brace closes any. -/
theorem unterminated (ho : s.dropInfix? opening = some (before, after)) (hc : '\x7d' ∉ after)
    (b inner rest : Str) : s ≠ b ++ (opening ++ (inner ++ '\x7d' :: rest)) := by
  intro heq
  obtain ⟨hs, hf⟩ := dropInfix?_eq_some.mp ho
  have hle := hf b _ heq
  have ha : after = s.drop (before.length + opening.length) := by
    rw [hs, ← append_assoc, drop_left' (by simp)]
  have hl : before.length + opening.length ≤ (b ++ (opening ++ inner)).length := by
    simp only [length_append]
    omega
  refine hc ?_
  rw [ha, heq, ← append_assoc opening, ← append_assoc, drop_append_of_le_length hl]
  simp

theorem Segments.unique {s : Str} {a b : List Segment} (ha : Segments s a) (hb : Segments s b) : a = b := by
  induction ha generalizing b with
  | plain h =>
    cases hb with
    | plain => rfl
    | cons => exact absurd rfl (h _ _ _)
  | @cons before inner rest segments hf hc _ ih =>
    generalize hs : before ++ (opening ++ (inner ++ '\x7d' :: rest)) = s at hb
    cases hb with
    | plain h => exact absurd hs.symm (h _ _ _)
    | @cons before' inner' rest' segments' hf' hc' hr' =>
      have ho := dropInfix?_eq_some.mpr ⟨rfl, hf⟩
      have ho' := dropInfix?_eq_some.mpr ⟨rfl, hf'⟩
      rw [hs, ho', some.injEq, Prod.mk.injEq] at ho
      obtain ⟨rfl, haf⟩ := ho
      have hsp := splitOnce_append (b := rest) hc
      rw [← haf, splitOnce_append hc'] at hsp
      obtain ⟨rfl, rfl⟩ := hsp
      rw [ih hr']

theorem exists_segments (s : Str) : ∃ segments, Segments s segments := by
  induction hn : s.length using Nat.strong_induction_on generalizing s with
  | _ n ih =>
    subst hn
    cases ho : s.dropInfix? opening with
    | none => exact ⟨_, .plain fun b i r => dropInfix?_eq_none ho b _⟩
    | some parts =>
      obtain ⟨before, after⟩ := parts
      cases hc : splitOnce '\x7d' after with
      | none => exact ⟨_, .plain (unterminated ho (splitOnce_eq_none.mp hc))⟩
      | some inside =>
        obtain ⟨inner, rest⟩ := inside
        obtain ⟨segments, hr⟩ := ih _ (length_lt_of_placeholder ho hc) rest rfl
        obtain ⟨hs, hf⟩ := dropInfix?_eq_some.mp ho
        obtain ⟨ha, hi⟩ := splitOnce_eq_some hc
        rw [ha] at hs
        rw [hs] at hf ⊢
        exact ⟨_, .cons hf hi hr⟩

end

section

variable {F : Formats} {ctx : ConditionContext}

theorem expand_plain {s : Str}
    (h : ∀ before inner rest, s ≠ before ++ (opening ++ (inner ++ '\x7d' :: rest))) :
    expand F ctx s = some (policyText s) := by
  unfold expand
  split
  · rfl
  · next before after ho =>
    split
    · rfl
    · next inner rest hc =>
      have hs := (dropInfix?_eq_some.mp ho).1
      rw [(splitOnce_eq_some hc).1] at hs
      exact absurd hs (h before inner rest)

variable {inner : Str} {c : Char}

theorem expand_cons {before rest : Str}
    (hf : ∀ b a, before ++ (opening ++ (inner ++ '\x7d' :: rest)) = b ++ (opening ++ a) →
      before.length ≤ b.length) (hc : '\x7d' ∉ inner) :
    expand F ctx (before ++ (opening ++ (inner ++ '\x7d' :: rest))) =
      (substitute F ctx inner).bind fun value =>
        (expand F ctx rest).map fun pieces => policyText before ++ value ++ pieces := by
  have ho : (before ++ (opening ++ (inner ++ '\x7d' :: rest))).dropInfix? opening =
      some (before, inner ++ '\x7d' :: rest) := dropInfix?_eq_some.mpr ⟨rfl, hf⟩
  rw [expand]
  split
  · next hn => exact absurd (ho.symm.trans hn) (by simp)
  · next b a hsm =>
    obtain ⟨rfl, rfl⟩ : before = b ∧ inner ++ '\x7d' :: rest = a := by
      simpa using ho.symm.trans hsm
    split
    · next hn => simp [splitOnce_append hc] at hn
    · next i r hs =>
      obtain ⟨rfl, rfl⟩ : inner = i ∧ rest = r := by simpa [splitOnce_append hc] using hs
      cases substitute F ctx inner <;> cases expand F ctx rest <;> rfl

theorem substitute_escape (hc : c = '*' ∨ c = '?' ∨ c = '$') (h : trim inner = [c]) :
    substitute F ctx inner = some [.literal c] := by
  rcases hc with rfl | rfl | rfl <;> simp [substitute, h]

theorem substitute_reference (h : ∀ c, c = '*' ∨ c = '?' ∨ c = '$' → trim inner ≠ [c]) :
    substitute F ctx inner = (match ctx.lookup F (splitDefault (trim inner)).1 with
      | some [value] => some value
      | _ => (splitDefault (trim inner)).2).map (map .literal) := by
  have hs := h '*' (by simp)
  have ho := h '?' (by simp)
  have hd := h '$' (by simp)
  refine (if_neg (by simpa using hs)).trans ((if_neg (by simpa using ho)).trans ?_)
  exact if_neg (by simpa using hd)

theorem Denotes.eq_of_escape {v : Str} (hv : Denotes F ctx inner v)
    (hc : c = '*' ∨ c = '?' ∨ c = '$') (h : trim inner = [c]) : v = [c] := by
  cases hv with
  | escape _ h' => exact h'.symm.trans h
  | value he _ => exact absurd h (he c hc)
  | default he _ _ => exact absurd h (he c hc)

theorem substitute_eq_some {pieces : List Piece} :
    substitute F ctx inner = some pieces ↔ ∃ v, Denotes F ctx inner v ∧ pieces = v.map .literal := by
  by_cases he : ∃ c, (c = '*' ∨ c = '?' ∨ c = '$') ∧ trim inner = [c]
  · obtain ⟨c, hc, ht⟩ := he
    rw [substitute_escape hc ht]
    constructor
    · rintro ⟨⟩
      exact ⟨[c], .escape hc ht, rfl⟩
    · rintro ⟨v, hv, rfl⟩
      rw [hv.eq_of_escape hc ht]
      rfl
  · have hp : ∀ c, c = '*' ∨ c = '?' ∨ c = '$' → trim inner ≠ [c] := fun c hc h => he ⟨c, hc, h⟩
    rw [substitute_reference hp]
    constructor
    · intro h
      obtain ⟨v, hv, rfl⟩ := map_eq_some_iff.mp h
      refine ⟨v, ?_, rfl⟩
      split at hv
      · next value hl =>
        cases hv
        exact .value hp hl
      · next hn => exact .default hp (fun u hu => hn u hu) hv
    · rintro ⟨v, hv, rfl⟩
      cases hv with
      | escape hc ht => exact absurd ht (hp _ hc)
      | value _ h => rw [h]; rfl
      | default _ hn h =>
        split
        · next value hl => exact absurd hl (hn value)
        · rw [h]; rfl

theorem matches_literal {s value : Str} : Matches (pieceTokens false) (s.map .literal) value ↔ value = s :=
  matches_map_of_takes (fun _ => rfl) fun x y => by simp [pieceTokens]

/-- **An expanded text matches what its segments spell.** -/
theorem Segments.expand_matches_iff {s : Str} {segments : List Segment} (h : Segments s segments)
    (value : Str) : (∃ pieces, expand F ctx s = some pieces ∧ Matches (pieceTokens false) pieces value) ↔
      value ∈ Spells F ctx segments := by
  induction h generalizing value with
  | plain hpl =>
    rw [expand_plain hpl, mem_spells_text, ← policyText_language]
    simp
  | @cons before inner rest segments hf hc _ ih =>
    rw [expand_cons hf hc]
    constructor
    · rintro ⟨pieces, hp, hm⟩
      obtain ⟨replaced, hr, hp⟩ := bind_eq_some_iff.mp hp
      obtain ⟨expanded, he, rfl⟩ := map_eq_some_iff.mp hp
      obtain ⟨v, hv, rfl⟩ := substitute_eq_some.mp hr
      obtain ⟨w, x, rfl, hm, hx⟩ := matches_append.mp hm
      obtain ⟨u, y, rfl, hu, hy⟩ := matches_append.mp hm
      obtain rfl := matches_literal.mp hy
      refine ⟨u, y ++ x, by simp, (policyText_language before u).mp hu, y, x, rfl, hv, ?_⟩
      exact (ih x).mp ⟨expanded, he, hx⟩
    · rintro ⟨u, w, rfl, hu, v, x, rfl, hv, hx⟩
      obtain ⟨expanded, he, hx⟩ := (ih x).mpr hx
      refine ⟨policyText before ++ v.map .literal ++ expanded, ?_, ?_⟩
      · rw [substitute_eq_some.mpr ⟨v, hv, rfl⟩, he]
        rfl
      · rw [← append_assoc]
        exact matches_append.mpr ⟨u ++ v, x, rfl, matches_append.mpr
          ⟨u, v, rfl, (policyText_language before u).mpr hu, matches_literal.mpr rfl⟩, hx⟩

end

/-! ## Resource patterns and condition values -/

/-- How a resource pattern is cut: up to the fifth colon it is plain text. -/
def PatternSegments (pattern : Str) (segments : List Segment) : Prop :=
  ∃ head tail rest, (splitAfter ':' 4 pattern).getD ([], pattern) = (head, tail) ∧
    Segments tail rest ∧ segments = .text head :: rest

/-- A matcher accepts what its texts spell.  A text that is not expanded goes through the plain matcher,
which may miss a value in which a `*` of the text meets a `*`. -/
structure Faithful (F : Formats) (cut : Str → List Segment → Prop) (expanded : Str → Bool) (texts : List Str)
    (accepts : ConditionContext → Str → Prop) : Prop where
  existsUnique_cut : ∀ text ∈ texts, ∃! segments, cut text segments
  sound : ∀ ctx value, accepts ctx value →
    ∃ text ∈ texts, ∃ segments, cut text segments ∧ value ∈ Spells F ctx segments
  complete : ∀ ctx value, ∀ text ∈ texts, ∀ segments, cut text segments →
    value ∈ Spells F ctx segments → expanded text = true ∨ StarsTakeStars text value → accepts ctx value
  null : ∀ ctx value, (∀ text ∈ texts, ∀ segments, cut text segments →
    ∃ inner, .placeholder inner ∈ segments ∧ ∀ v, ¬ Denotes F ctx inner v) → ¬ accepts ctx value
  same : ∀ ctx ctx' value,
    (∀ text ∈ texts, ∀ segments, cut text segments → ∀ inner, .placeholder inner ∈ segments →
      ∀ v, Denotes F ctx inner v ↔ Denotes F ctx' inner v) → (accepts ctx value ↔ accepts ctx' value)

section

variable {F : Formats} {cut : Str → List Segment → Prop} {expanded : Str → Bool} {texts : List Str}
  {accepts : ConditionContext → Str → Prop}

/-- Each text is matched exactly as expanded, or as plain text. -/
theorem Faithful.of_each (one : ConditionContext → Str → Str → Prop)
    (hc : ∀ text ∈ texts, ∃! segments, cut text segments)
    (hac : ∀ ctx value, accepts ctx value ↔ ∃ text ∈ texts, one ctx text value)
    (ho : ∀ text ∈ texts, ∀ segments, cut text segments →
      (∀ ctx value, one ctx text value ↔ value ∈ Spells F ctx segments) ∨
      expanded text = false ∧ (∀ ctx value, one ctx text value ↔ globMatch text value = true) ∧
        ∀ ctx, Spells F ctx segments = Language text) : Faithful F cut expanded texts accepts := by
  have hsn : ∀ ctx value, ∀ text ∈ texts, ∀ segments, cut text segments → one ctx text value →
      value ∈ Spells F ctx segments := by
    intro ctx value text ht segments hs h
    rcases ho text ht segments hs with he | ⟨-, hp, hsp⟩
    · exact (he ctx value).mp h
    · rw [hsp]
      exact ((globMatch_iff_prefers text value).mp ((hp ctx value).mp h)).matches
  refine ⟨hc, ?_, ?_, ?_, ?_⟩
  · intro ctx value h
    obtain ⟨text, ht, h⟩ := (hac ctx value).mp h
    obtain ⟨segments, hs, -⟩ := hc text ht
    exact ⟨text, ht, segments, hs, hsn ctx value text ht segments hs h⟩
  · intro ctx value text ht segments hs hv hl
    refine (hac ctx value).mpr ⟨text, ht, ?_⟩
    rcases ho text ht segments hs with he | ⟨hn, hp, hsp⟩
    · exact (he ctx value).mpr hv
    · rw [hsp] at hv
      rw [hn] at hl
      have hst : StarsTakeStars text value := hl.resolve_left (by simp)
      exact (hp ctx value).mpr (((globMatch_correct_iff text value).mpr hst).mpr hv)
  · intro ctx value hnl h
    obtain ⟨text, ht, h⟩ := (hac ctx value).mp h
    obtain ⟨segments, hs, -⟩ := hc text ht
    obtain ⟨inner, hi, hn⟩ := hnl text ht segments hs
    exact not_mem_spells hi hn value (hsn ctx value text ht segments hs h)
  · intro ctx ctx' value hsm
    rw [hac, hac]
    refine exists_congr fun text => and_congr_right fun ht => ?_
    obtain ⟨segments, hs, -⟩ := hc text ht
    rcases ho text ht segments hs with he | ⟨-, hp, -⟩
    · rw [he, he, spells_congr (hsm text ht segments hs)]
    · rw [hp, hp]

end

theorem existsUnique_segments (s : Str) : ∃! segments, Segments s segments := by
  obtain ⟨segments, h⟩ := exists_segments s
  exact ⟨segments, h, fun _ h' => h'.unique h⟩

theorem exists_patternParts (pattern : Str) : ∃ head tail,
    (splitAfter ':' 4 pattern).getD ([], pattern) = (head, tail) ∧ pattern = head ++ tail := by
  cases h : splitAfter ':' 4 pattern with
  | none => exact ⟨[], pattern, rfl, rfl⟩
  | some parts => exact ⟨parts.1, parts.2, rfl, splitAfter_eq_some h⟩

theorem existsUnique_patternSegments (pattern : Str) : ∃! segments, PatternSegments pattern segments := by
  obtain ⟨head, tail, hp, -⟩ := exists_patternParts pattern
  obtain ⟨rest, hr, hu⟩ := existsUnique_segments tail
  refine ⟨.text head :: rest, ⟨head, tail, rest, hp, hr, rfl⟩, ?_⟩
  rintro _ ⟨head', tail', rest', hp', hr', rfl⟩
  obtain ⟨rfl, rfl⟩ : head = head' ∧ tail = tail' := by simpa using hp.symm.trans hp'
  rw [hu rest' hr']

section

variable {F : Formats} {ctx : ConditionContext} {segments : List Segment}

/-- **An expanded pattern matches what its segments spell.** -/
theorem PatternSegments.matches_iff {pattern : Str} (h : PatternSegments pattern segments) (value : Str) :
    (resourcePattern F ctx pattern).any (glob · value false) = true ↔ value ∈ Spells F ctx segments := by
  obtain ⟨head, tail, rest, hpr, hr, rfl⟩ := h
  have ha : (resourcePattern F ctx pattern).any (glob · value false) = true ↔
      ∃ pieces, expand F ctx tail = some pieces ∧
        Matches (pieceTokens false) (policyText head ++ pieces) value := by
    rw [resourcePattern, hpr]
    cases he : expand F ctx tail with
    | none => simp [he]
    | some pieces => simp [he, glob_iff]
  rw [ha]
  constructor
  · rintro ⟨pieces, hp, hm⟩
    obtain ⟨u, v, rfl, hu, hv⟩ := matches_append.mp hm
    exact ⟨u, v, rfl, (policyText_language head u).mp hu, (hr.expand_matches_iff v).mp ⟨pieces, hp, hv⟩⟩
  · rintro ⟨u, v, rfl, hu, hv⟩
    obtain ⟨pieces, hp, hv⟩ := (hr.expand_matches_iff v).mpr hv
    exact ⟨pieces, hp, matches_append.mpr ⟨u, v, rfl, (policyText_language head u).mpr hu, hv⟩⟩

/-- **An expanded condition value matches what its segments spell.** -/
theorem Segments.matches_iff {s : Str} (h : Segments s segments) (value : Str) :
    (expand F ctx s).any (glob · value false) = true ↔ value ∈ Spells F ctx segments := by
  rw [← h.expand_matches_iff]
  cases expand F ctx s with
  | none => simp
  | some pieces => simp [glob_iff]

theorem segments_of_not_hasVariables {s : Str} (hn : hasVariables s = false)
    (h : Segments s segments) : segments = [.text s] := by
  cases h with
  | plain => rfl
  | cons hf =>
    rw [hasVariables, containsStr, dropInfix?_eq_some.mpr ⟨rfl, hf⟩] at hn
    cases hn

end

theorem hasVariables_of_suffix {a b : Str} (h : hasVariables (a ++ b) = false) : hasVariables b = false := by
  rw [hasVariables, containsStr, Option.isSome_eq_false_iff, isNone_iff_eq_none] at h ⊢
  by_contra hb
  obtain ⟨⟨before, after⟩, hs⟩ := ne_none_iff_exists'.mp hb
  have hb := (dropInfix?_eq_some.mp hs).1
  exact dropInfix?_eq_none h (a ++ before) after (by rw [hb, append_assoc])

variable {F : Formats}

theorem PatternSegments.spells_plain {pattern : Str} {segments : List Segment}
    (h : PatternSegments pattern segments) (hn : hasVariables pattern = false) (ctx : ConditionContext) :
    Spells F ctx segments = Language pattern := by
  obtain ⟨head, tail, rest, hp, hr, rfl⟩ := h
  obtain ⟨head', tail', hp', hpt⟩ := exists_patternParts pattern
  obtain ⟨rfl, rfl⟩ : head = head' ∧ tail = tail' := by simpa using hp.symm.trans hp'
  rw [hpt] at hn ⊢
  rw [segments_of_not_hasVariables (hasVariables_of_suffix hn) hr]
  ext value
  refine Iff.trans ?_ matches_append.symm
  refine exists_congr fun u => exists_congr fun v => and_congr_right fun _ => and_congr_right fun _ => ?_
  exact mem_spells_text

theorem faithful_resource {statement : ParsedStatement} {patterns : List Str}
    (hv : statement.expandsVariables = true) (hr : statement.resource = .resource patterns) :
    Faithful F PatternSegments hasVariables patterns fun ctx value =>
      resourceMatches F statement value ctx = true := by
  refine Faithful.of_each (fun ctx p value =>
      (if hasVariables p then (resourcePattern F ctx p).any (glob · value false)
        else globMatch p value) = true) (fun p _ => existsUnique_patternSegments p) ?_ ?_
  · simp [resourceMatches, hr, hv, iamGlobMatch]
  · intro p _ segments hs
    cases hn : hasVariables p with
    | true => exact .inl fun ctx value => by simpa [hn] using hs.matches_iff value
    | false => exact .inr ⟨rfl, fun ctx value => by simp, hs.spells_plain hn⟩

/-- One value with a placeholder sends all values of an entry through the expansion. -/
def expandsValues (entry : ParsedCondition) : Bool :=
  entry.policyVariables && entry.operator.op.supportsPolicyVariables && entry.values.any hasVariables

/-- What an entry says of one value that the context has under its key. -/
def acceptsValue (F : Formats) (ctx : ConditionContext) (entry : ParsedCondition) (value : Str) : Bool :=
  if expandsValues entry then matchExpanded entry.operator.op (entry.values.map (expand F ctx)) value
  else matchValues F entry.operator.op entry.values value

/-- The qualifier says of how many of the context's values an entry has to hold. -/
theorem evaluateEntry_eq_qualified {entry : ParsedCondition} {ctx : ConditionContext}
    {contextValues : List Str} (hop : entry.operator.op ≠ .null)
    (hl : ctx.lookup F entry.key = some contextValues) (hne : contextValues ≠ []) :
    evaluateEntry F ctx entry =
      qualified entry.operator.qualifier contextValues (acceptsValue F ctx entry) := by
  obtain ⟨value, values, rfl⟩ := exists_cons_of_ne_nil hne
  simp only [evaluateEntry, if_neg hop, hl]
  unfold acceptsValue expandsValues
  split_ifs <;> rfl

theorem faithful_entry {entry : ParsedCondition} (hv : entry.policyVariables = true)
    (hop : entry.operator.op = .stringLike ∨ entry.operator.op = .arnLike ∨ entry.operator.op = .arnEquals) :
    Faithful F Segments (fun _ => expandsValues entry) entry.values fun ctx value =>
      acceptsValue F ctx entry value = true := by
  have hx : expandsValues entry = entry.values.any hasVariables := by
    rcases hop with hop | hop | hop <;> simp [expandsValues, hv, hop,
      ConditionOperator.supportsPolicyVariables]
  refine Faithful.of_each (fun ctx text value =>
      (if expandsValues entry then (expand F ctx text).any (glob · value false)
        else Condition.glob text value) = true) (fun text _ => existsUnique_segments text) ?_ ?_
  · intro ctx value
    rw [acceptsValue]
    rcases hop with hop | hop | hop <;> split_ifs <;> simp [hop, matchExpanded, matchValues]
  · intro text ht segments hs
    cases ha : expandsValues entry with
    | true => exact .inl fun ctx value => by simpa [ha] using hs.matches_iff value
    | false =>
      have hn : hasVariables text = false := by
        rw [hx, List.any_eq_false] at ha
        exact Bool.eq_false_of_not_eq_true (ha text ht)
      refine .inr ⟨rfl, fun ctx value => Iff.rfl, fun ctx => ?_⟩
      rw [segments_of_not_hasVariables hn hs]
      ext value
      exact mem_spells_text

/-- **Substitution cannot widen a grant.**  Under version 2012-10-17, the patterns of a statement accept what
they spell.  The values of `StringLike`, `ArnLike` and `ArnEquals` accept what they spell of each value of
the context, under every qualifier. -/
theorem substitution_faithful (F : Formats) :
    (∀ (statement : ParsedStatement) (patterns : List Str), statement.expandsVariables = true →
      statement.resource = .resource patterns →
      Faithful F PatternSegments hasVariables patterns fun ctx value =>
        resourceMatches F statement value ctx = true) ∧
    ∀ entry : ParsedCondition, entry.policyVariables = true →
      (entry.operator.op = .stringLike ∨ entry.operator.op = .arnLike ∨ entry.operator.op = .arnEquals) →
      (Faithful F Segments (fun _ => expandsValues entry) entry.values fun ctx value =>
        acceptsValue F ctx entry value = true) ∧
      ∀ ctx contextValues, ctx.lookup F entry.key = some contextValues → contextValues ≠ [] →
        evaluateEntry F ctx entry =
          qualified entry.operator.qualifier contextValues (acceptsValue F ctx entry) := by
  refine ⟨fun statement patterns hv hr => faithful_resource hv hr, fun entry hv hop => ?_⟩
  refine ⟨faithful_entry hv hop, fun ctx contextValues hl hne => ?_⟩
  refine evaluateEntry_eq_qualified ?_ hl hne
  rcases hop with hop | hop | hop <;> simp [hop]

namespace Example

/-- A statement of version 2012-10-17 for one pattern. -/
def allowingOn (pattern : Str) : ParsedStatement :=
  ⟨.allow, .action ["s3:*"], .resource [pattern], none, .none, true⟩

/-- Everything below the directory named after the user. -/
def home : Str := "arn:aws:s3:::b/$\x7baws:username\x7d/*"

/-- The condition that one of the prefixes of a listing is below that directory. -/
def homeListing : ParsedCondition :=
  ⟨⟨.stringLike, false, .forAnyValue⟩, "s3:prefix", ["$\x7baws:username\x7d/*"], true⟩

def homeContext : ConditionContext :=
  { awsUsername := some "alice", serviceKeys := [("s3:prefix", ["alice/x", "bob/y"])] }

/-- Two users named `*` and `alice`. -/
example :
    resourceMatches .silent (allowingOn home) "arn:aws:s3:::b/alice/x"
        { awsUsername := some "*" } = false ∧
      resourceMatches .silent (allowingOn home) "arn:aws:s3:::b/alice/x"
        { awsUsername := some "alice" } = true := by decide +kernel

end Example

open PolicyVariables.Example in
theorem substitution_faithful_home :
    (Faithful .silent PatternSegments hasVariables [home] fun ctx value =>
        resourceMatches .silent (allowingOn home) value ctx = true) ∧
      (Faithful .silent Segments (fun _ => expandsValues homeListing) homeListing.values fun ctx value =>
        acceptsValue .silent ctx homeListing value = true) ∧
      evaluateEntry .silent homeContext homeListing =
        qualified .forAnyValue ["alice/x", "bob/y"] (acceptsValue .silent homeContext homeListing) := by
  have h := substitution_faithful .silent
  exact ⟨h.1 (allowingOn home) [home] rfl rfl, (h.2 homeListing rfl (.inl rfl)).1,
    (h.2 homeListing rfl (.inl rfl)).2 homeContext ["alice/x", "bob/y"] (by decide +kernel) (by simp)⟩

open PolicyVariables.Example in
/-- Before the fifth colon a placeholder is plain text: its `*` is a wildcard, and a key without a value
does not keep the pattern from matching. -/
theorem head_not_expanded :
    let star : Str := "arn:aws:s3:$\x7b*\x7d:1:x"
    let missing : Str := "arn:aws:s3:$\x7baws:username\x7d:1:x"
    let value : Str := "arn:aws:s3:$\x7bregion\x7d:1:x"
    resourceMatches .silent (allowingOn star) value {} = true ∧
      (∀ segments, Segments star segments → value ∉ Spells .silent {} segments) ∧
      resourceMatches .silent (allowingOn missing) missing {} = true ∧
      ∀ segments, Segments missing segments → ∀ v, v ∉ Spells .silent {} segments := by
  refine ⟨by decide +kernel, fun segments h hvl => ?_, by decide +kernel, fun segments h v hv => ?_⟩
  · rw [← h.matches_iff] at hvl
    exact absurd hvl (by decide +kernel)
  · have hn : expand .silent {} "arn:aws:s3:$\x7baws:username\x7d:1:x" = none := by decide +kernel
    obtain ⟨pieces, hp, -⟩ := (h.expand_matches_iff v).mpr hv
    exact absurd (hn.symm.trans hp) (by simp)

end Fakecloud.Iam.PolicyVariables
