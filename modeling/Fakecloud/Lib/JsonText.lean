import Fakecloud.Lib.Bytes
import Fakecloud.Lib.Json
import Mathlib.Data.List.Sort

/-!
# JSON values as text

Equality of JSON values, the text that is written for a value, and that the text determines the
value (`write_injective`).  A number is carried by the text that is written for it.
-/

namespace Text.Json

open List

/-! ## Deciding equality -/

mutual

def decEq : (a b : Json) → Decidable (a = b)
  | null, null => isTrue rfl
  | bool a, bool b => decidable_of_iff (a = b) (by simp)
  | num a, num b => decidable_of_iff (a = b) (by simp)
  | str a, str b => decidable_of_iff (a = b) (by simp)
  | arr a, arr b => have := decEqItems a b; decidable_of_iff (a = b) (by simp)
  | obj a, obj b => have := decEqFields a b; decidable_of_iff (a = b) (by simp)
  | null, bool _ | null, num _ | null, str _ | null, arr _ | null, obj _
  | bool _, null | bool _, num _ | bool _, str _ | bool _, arr _ | bool _, obj _
  | num _, null | num _, bool _ | num _, str _ | num _, arr _ | num _, obj _
  | str _, null | str _, bool _ | str _, num _ | str _, arr _ | str _, obj _
  | arr _, null | arr _, bool _ | arr _, num _ | arr _, str _ | arr _, obj _
  | obj _, null | obj _, bool _ | obj _, num _ | obj _, str _ | obj _, arr _ => isFalse nofun

def decEqItems : (a b : List Json) → Decidable (a = b)
  | [], [] => isTrue rfl
  | [], _ :: _ | _ :: _, [] => isFalse nofun
  | x :: xs, y :: ys =>
    have := decEq x y
    have := decEqItems xs ys
    decidable_of_iff (x = y ∧ xs = ys) (by simp)

def decEqFields : (a b : List (Str × Json)) → Decidable (a = b)
  | [], [] => isTrue rfl
  | [], _ :: _ | _ :: _, [] => isFalse nofun
  | (k, x) :: xs, (l, y) :: ys =>
    have := decEq x y
    have := decEqFields xs ys
    decidable_of_iff (k = l ∧ x = y ∧ xs = ys) (by simp [and_assoc])

end

instance : DecidableEq Json := decEq

/-! ## Comparing -/

/-- The order of fields by their names. -/
def ByName {α : Type} (a b : Str × α) : Prop := a.1 ≤ b.1

instance {α : Type} : DecidableRel (ByName (α := α)) := fun a b =>
  inferInstanceAs (Decidable (a.1 ≤ b.1))

/-- The text of the floating-point number minus zero. -/
def minusZero : Str := ['-', '0', '.', '0']

mutual

/-- The form in which values are compared: objects are maps, and minus zero is zero. -/
def normalize : Json → Json
  | null => null
  | bool b => bool b
  | num text => num (if text = minusZero then ['0', '.', '0'] else text)
  | str s => str s
  | arr items => arr (normalizeItems items)
  | obj fields => obj ((normalizeFields fields).insertionSort ByName)

def normalizeItems : List Json → List Json
  | [] => []
  | x :: xs => normalize x :: normalizeItems xs

def normalizeFields : List (Str × Json) → List (Str × Json)
  | [] => []
  | (k, v) :: fs => (k, normalize v) :: normalizeFields fs

end

/-- `==` of two values. -/
def same (a b : Json) : Bool := a.normalize = b.normalize

/-! ## Writing -/

def escape (c : Char) : Str :=
  if c = '"' then ['\\', '"']
  else if c = '\\' then ['\\', '\\']
  else if c.toNat = 8 then ['\\', 'b']
  else if c.toNat = 9 then ['\\', 't']
  else if c.toNat = 10 then ['\\', 'n']
  else if c.toNat = 12 then ['\\', 'f']
  else if c.toNat = 13 then ['\\', 'r']
  else if c.toNat < 32 then ['\\', 'u', '0', '0', hexDigit (c.toNat / 16), hexDigit (c.toNat % 16)]
  else [c]

def quote (s : Str) : Str := '"' :: (s.flatMap escape ++ ['"'])

/-- What stands before an element: a comma, except before the first. -/
def separator (first : Bool) : Str := if first then [] else [',']

mutual

def write : Json → Str
  | null => ['n', 'u', 'l', 'l']
  | bool true => ['t', 'r', 'u', 'e']
  | bool false => ['f', 'a', 'l', 's', 'e']
  | num text => text
  | str s => quote s
  | arr items => '[' :: writeItems true items
  | obj fields => '\x7b' :: writeFields true fields

def writeItems (first : Bool) : List Json → Str
  | [] => [']']
  | x :: xs => separator first ++ (write x ++ writeItems false xs)

def writeFields (first : Bool) : List (Str × Json) → Str
  | [] => ['\x7d']
  | (k, v) :: fs => separator first ++ (quote k ++ ':' :: (write v ++ writeFields false fs))

end

/-! ## Strings are found again -/

def unescapeLetter (c : Char) : Char :=
  if c = 'b' then Char.ofNat 8 else if c = 't' then Char.ofNat 9 else if c = 'n' then Char.ofNat 10
  else if c = 'f' then Char.ofNat 12 else if c = 'r' then Char.ofNat 13 else c

def hexDigitVal (c : Char) : ℕ := if c.toNat < 58 then c.toNat - 48 else c.toNat - 87

/-- The first character of a string's body, unless the string ends. -/
def unescape : Str → Option (Char × Str)
  | [] => none
  | c :: s =>
    if c = '"' then none
    else if c = '\\' then
      match s with
      | [] => none
      | x :: s =>
        if x = 'u' then
          match s with
          | _ :: _ :: a :: b :: s => some (Char.ofNat (16 * hexDigitVal a + hexDigitVal b), s)
          | _ => none
        else some (unescapeLetter x, s)
    else some (c, s)

theorem hexDigit_control :
    ∀ n < 32, 16 * hexDigitVal (hexDigit (n / 16)) + hexDigitVal (hexDigit (n % 16)) = n := by
  decide

theorem unescape_escape (c : Char) (s : Str) : unescape (escape c ++ s) = some (c, s) := by
  have ho : ∀ n, c.toNat = n → Char.ofNat n = c := by
    rintro n rfl
    exact Char.ofNat_toNat c
  unfold escape
  split_ifs with h1 h2 h3 h4 h5 h6 h7 h8
  · rw [h1]
    rfl
  · rw [h2]
    rfl
  · rw [← ho _ h3]
    rfl
  · rw [← ho _ h4]
    rfl
  · rw [← ho _ h5]
    rfl
  · rw [← ho _ h6]
    rfl
  · rw [← ho _ h7]
    rfl
  · simp [unescape, hexDigit_control _ h8]
  · simp [unescape, h1, h2]

variable {s t r r' : Str} {a b : Json} {first : Bool}

/-- A quoted string can be cut off the front of a text. -/
theorem quote_append_inj (h : quote s ++ r = quote t ++ r') : s = t ∧ r = r' := by
  have hb : s.flatMap escape ++ '"' :: r = t.flatMap escape ++ '"' :: r' := by
    simpa [quote] using h
  clear h
  have hc : ∀ (c : Char) (s r : Str),
      unescape ((c :: s).flatMap escape ++ '"' :: r) = some (c, s.flatMap escape ++ '"' :: r) := by
    intro c s r
    rw [flatMap_cons, append_assoc, unescape_escape]
  induction s generalizing t with
  | nil =>
    rcases t with _ | ⟨d, t⟩
    · simpa using hb
    · have := congrArg unescape hb
      rw [hc] at this
      cases this
  | cons c s ih =>
    rcases t with _ | ⟨d, t⟩
    · have := congrArg unescape hb
      rw [hc] at this
      cases this
    · have := congrArg unescape hb
      rw [hc, hc, Option.some.injEq, Prod.mk.injEq] at this
      obtain ⟨rfl, hs⟩ := ih this.2
      exact ⟨by rw [this.1], hs⟩

/-! ## Values are found again -/

def isNumberChar (c : Char) : Bool :=
  c.isDigit || c == '+' || c == '-' || c == '.' || c == 'e' || c == 'E'

mutual

/-- Every number is written as a numeral, and none is minus zero. -/
def plain : Json → Bool
  | num text => !text.isEmpty && text.all isNumberChar && text != minusZero
  | arr items => plainItems items
  | obj fields => plainFields fields
  | null | bool _ | str _ => true

def plainItems : List Json → Bool
  | [] => true
  | x :: xs => plain x && plainItems xs

def plainFields : List (Str × Json) → Bool
  | [] => true
  | (_, v) :: fs => plain v && plainFields fs

end

/-- What kind of value starts with a character. -/
def kindOfHead (c : Char) : ℕ :=
  if c = 'n' then 0 else if c = 't' then 1 else if c = 'f' then 2
  else if c = '"' then 3 else if c = '[' then 4 else if c = '\x7b' then 5
  else if isNumberChar c then 6 else 7

def kind : Json → ℕ
  | null => 0
  | bool true => 1
  | bool false => 2
  | str _ => 3
  | arr _ => 4
  | obj _ => 5
  | num _ => 6

theorem kindOfHead_of_isNumberChar {c : Char} (h : isNumberChar c) : kindOfHead c = 6 := by
  unfold kindOfHead
  have hne : ∀ d : Char, isNumberChar d = false → c ≠ d := by
    rintro d hd rfl
    rw [h] at hd
    cases hd
  rw [if_neg (hne _ (by decide)), if_neg (hne _ (by decide)), if_neg (hne _ (by decide)),
    if_neg (hne _ (by decide)), if_neg (hne _ (by decide)), if_neg (hne _ (by decide)), if_pos h]

/-- The first character of a value tells its kind. -/
theorem write_head (ha : a.plain) : ∃ c s, a.write = c :: s ∧ kindOfHead c = a.kind := by
  cases a with
  | null => exact ⟨_, _, rfl, rfl⟩
  | bool b =>
    cases b
    · exact ⟨_, _, rfl, rfl⟩
    · exact ⟨_, _, rfl, rfl⟩
  | num text =>
    rcases text with _ | ⟨c, s⟩
    · simp [plain] at ha
    · refine ⟨c, s, rfl, kindOfHead_of_isNumberChar ?_⟩
      simp only [plain, all_cons, Bool.and_eq_true] at ha
      exact ha.1.2.1
  | str s => exact ⟨_, _, rfl, rfl⟩
  | arr items => exact ⟨_, _, rfl, rfl⟩
  | obj fields => exact ⟨_, _, rfl, rfl⟩

/-- A text that does not go on with a number. -/
def Stops (r : Str) : Prop := ∀ c ∈ r.head?, isNumberChar c = false

theorem number_append_inj (hs : s.all isNumberChar) (ht : t.all isNumberChar)
    (hr : Stops r) (hr' : Stops r') (h : s ++ r = t ++ r') : s = t ∧ r = r' := by
  have htk : ∀ {u v : Str}, u.all isNumberChar → Stops v → (u ++ v).takeWhile isNumberChar = u := by
    intro u v hu hv
    rw [takeWhile_append_of_pos (all_eq_true.mp hu)]
    rcases v with _ | ⟨c, v⟩
    · simp
    · rw [takeWhile_cons_of_neg (by simp [hv c rfl]), append_nil]
  have hst : s = t := by rw [← htk hs hr, h, htk ht hr']
  exact ⟨hst, by simpa [hst] using h⟩

theorem kind_eq (ha : a.plain) (hb : b.plain)
    (h : a.write ++ r = b.write ++ s) : a.kind = b.kind := by
  obtain ⟨c, u, hcu, hc⟩ := write_head ha
  obtain ⟨d, v, hdv, hd⟩ := write_head hb
  rw [hcu, hdv] at h
  rw [← hc, ← hd, (List.cons.inj h).1]

theorem stops_items (xs : List Json) (r : Str) : Stops (writeItems false xs ++ r) := by
  rcases xs with _ | ⟨x, xs⟩ <;> rintro c ⟨⟩ <;> decide

theorem stops_fields (fs : List (Str × Json)) (r : Str) : Stops (writeFields false fs ++ r) := by
  rcases fs with _ | ⟨⟨k, v⟩, fs⟩ <;> rintro c ⟨⟩ <;> decide

/-- An element cannot be taken for the end of its array. -/
theorem writeItems_cons_ne {x : Json} {xs : List Json} (hx : x.plain)
    (h : writeItems first (x :: xs) ++ r = writeItems first [] ++ s) : False := by
  obtain ⟨c, u, hcu, hc⟩ := write_head hx
  cases first
  · simp [writeItems, separator] at h
  · simp only [writeItems, separator, if_true, nil_append, hcu, cons_append, List.cons.injEq] at h
    rw [h.1] at hc
    cases x with
    | bool b => cases b <;> simp [kind, kindOfHead, isNumberChar] at hc
    | _ => simp [kind, kindOfHead, isNumberChar] at hc

theorem writeFields_cons_ne {f : Str × Json} {fs : List (Str × Json)}
    (h : writeFields first (f :: fs) ++ r = writeFields first [] ++ s) : False := by
  cases first <;> simp [writeFields, separator, quote] at h

mutual

/-- **The text determines the value**, and where it ends. -/
theorem write_append_inj : ∀ (a b : Json) {r s : Str}, a.plain → b.plain → Stops r → Stops s →
    a.write ++ r = b.write ++ s → a = b ∧ r = s
  | a, b, r, s, ha, hb, hr, hs, h => by
    have hk := kind_eq ha hb h
    match a, b with
    | null, null => exact ⟨rfl, by simpa [write] using h⟩
    | bool true, bool true => exact ⟨rfl, by simpa [write] using h⟩
    | bool false, bool false => exact ⟨rfl, by simpa [write] using h⟩
    | num t, num u =>
      simp only [plain, Bool.and_eq_true] at ha hb
      obtain ⟨rfl, hrs⟩ := number_append_inj ha.1.2 hb.1.2 hr hs h
      exact ⟨rfl, hrs⟩
    | str t, str u =>
      obtain ⟨rfl, hrs⟩ := quote_append_inj h
      exact ⟨rfl, hrs⟩
    | arr xs, arr ys =>
      obtain ⟨rfl, hrs⟩ := writeItems_append_inj true xs ys ha hb (List.cons.inj h).2
      exact ⟨rfl, hrs⟩
    | obj fs, obj gs =>
      obtain ⟨rfl, hrs⟩ := writeFields_append_inj true fs gs ha hb (List.cons.inj h).2
      exact ⟨rfl, hrs⟩

theorem writeItems_append_inj : ∀ (first : Bool) (xs ys : List Json) {r s : Str}, plainItems xs →
    plainItems ys → writeItems first xs ++ r = writeItems first ys ++ s → xs = ys ∧ r = s
  | first, [], [], r, s, _, _, h => ⟨rfl, by simpa [writeItems] using h⟩
  | first, [], y :: ys, r, s, _, hys, h => by
    simp only [plainItems, Bool.and_eq_true] at hys
    exact (writeItems_cons_ne hys.1 h.symm).elim
  | first, x :: xs, [], r, s, hxs, _, h => by
    simp only [plainItems, Bool.and_eq_true] at hxs
    exact (writeItems_cons_ne hxs.1 h).elim
  | first, x :: xs, y :: ys, r, s, hxs, hys, h => by
    simp only [plainItems, Bool.and_eq_true] at hxs hys
    simp only [writeItems, append_assoc, append_cancel_left_eq] at h
    obtain ⟨rfl, ht⟩ := write_append_inj x y hxs.1 hys.1 (stops_items xs r) (stops_items ys s) h
    obtain ⟨rfl, hrs⟩ := writeItems_append_inj false xs ys hxs.2 hys.2 ht
    exact ⟨rfl, hrs⟩

theorem writeFields_append_inj : ∀ (first : Bool) (fs gs : List (Str × Json)) {r s : Str},
    plainFields fs → plainFields gs → writeFields first fs ++ r = writeFields first gs ++ s → fs = gs ∧ r = s
  | first, [], [], r, s, _, _, h => ⟨rfl, by simpa [writeFields] using h⟩
  | first, [], _ :: _, r, s, _, _, h => (writeFields_cons_ne h.symm).elim
  | first, _ :: _, [], r, s, _, _, h => (writeFields_cons_ne h).elim
  | first, (k, v) :: fs, (l, w) :: gs, r, s, hfs, hgs, h => by
    simp only [plainFields, Bool.and_eq_true] at hfs hgs
    simp only [writeFields, append_assoc, append_cancel_left_eq, cons_append] at h
    obtain ⟨rfl, hr⟩ := quote_append_inj h
    obtain ⟨rfl, ht⟩ := write_append_inj v w hfs.1 hgs.1 (stops_fields fs r) (stops_fields gs s)
      (List.cons.inj hr).2
    obtain ⟨rfl, hrs⟩ := writeFields_append_inj false fs gs hfs.2 hgs.2 ht
    exact ⟨rfl, hrs⟩

end

theorem write_injective (ha : a.plain) (hb : b.plain) (h : a.write = b.write) : a = b :=
  (write_append_inj a b ha hb (r := []) (s := []) nofun nofun (by rw [h])).1

end Text.Json
