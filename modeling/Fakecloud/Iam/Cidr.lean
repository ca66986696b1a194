import Fakecloud.Iam.Condition

/-!
# Blocks of addresses

The mask of a block has ones in its first bits only, so under it two addresses are equal when
those bits agree.
-/

namespace Fakecloud.Iam.Condition

open Text Fakecloud.Core

/-- The first `len` bits of two addresses of one family agree. -/
def Agree (len : ℕ) : IpAddr → IpAddr → Prop
  | .v4 a, .v4 b => len ≤ 32 ∧ ∀ i < len, a.getMsbD i = b.getMsbD i
  | .v6 a, .v6 b => len ≤ 128 ∧ ∀ i < len, a.getMsbD i = b.getMsbD i
  | _, _ => False

theorem Agree.of_succ {len : ℕ} {n a : IpAddr} (h : Agree (len + 1) n a) : Agree len n a := by
  cases n <;> cases a <;> first | exact h | exact ⟨by have := h.1; omega, fun i hi => h.2 i (by omega)⟩

section

variable {w len : ℕ}

theorem maskMatch_iff (net addr : BitVec w) :
    maskMatch net addr (some len) = true ↔ len ≤ w ∧ ∀ i < len, net.getMsbD i = addr.getMsbD i := by
  rcases lt_or_ge w len with h | h
  · simp [maskMatch, h]
  have hm (i : ℕ) : (if len = 0 then 0 else BitVec.allOnes w <<< (w - len)).getMsbD i = decide (i < len) := by
    split
    · simp [*]
    · rw [BitVec.getMsbD_shiftLeft, BitVec.getMsbD_allOnes, decide_eq_decide]
      omega
  simp only [maskMatch, Option.getD_some, not_lt.mpr h, if_false, beq_iff_eq, h, true_and]
  generalize (if len = 0 then 0 else BitVec.allOnes w <<< (w - len)) = mask at hm ⊢
  constructor
  · intro he i hi
    simpa [hm, hi] using congrArg (·.getMsbD i) he
  · intro ha
    refine BitVec.eq_of_getMsbD_eq fun i _ => ?_
    by_cases hi : i < len <;> simp [hm, hi, ha]

theorem maskMatch_none (net addr : BitVec w) : maskMatch net addr none = true ↔ net = addr := by
  refine (@maskMatch_iff w w net addr).trans ⟨fun h => BitVec.eq_of_getMsbD_eq h.2, ?_⟩
  rintro rfl
  exact ⟨le_rfl, fun _ _ => rfl⟩

end

/-- **A block matches the addresses that share its first bits.** -/
theorem cidr_match_iff_agree (F : Formats) (net value : Str) {n a : IpAddr} (hs : '/' ∉ net)
    (hn : F.parseIp net = some n) (ha : F.parseIp value = some a) :
    (cidrMatch F net value = true ↔ n = a) ∧
    (∀ p, cidrMatch F (net ++ '/' :: p) value = true ↔ ∃ len, parseUnsigned 256 p = some len ∧
      Agree len n a) ∧
    ∀ p q len, parseUnsigned 256 p = some len → parseUnsigned 256 q = some (len + 1) →
      cidrMatch F (net ++ '/' :: q) value = true → cidrMatch F (net ++ '/' :: p) value = true := by
  have hlen (p : Str) : cidrMatch F (net ++ '/' :: p) value = true ↔
      ∃ len, parseUnsigned 256 p = some len ∧ Agree len n a := by
    rw [cidrMatch, ha, splitOnce_append hs]
    cases hp : parseUnsigned 256 p <;> cases n <;> cases a <;> simp [hp, hn, Agree, maskMatch_iff]
  refine ⟨?_, hlen, fun p q len hp hq h => ?_⟩
  · rw [cidrMatch, ha, splitOnce_eq_none.mpr hs]
    cases n <;> cases a <;> simp [hn, maskMatch_none]
  · obtain ⟨len', hq', h⟩ := (hlen q).mp h
    obtain rfl : len + 1 = len' := Option.some.inj (hq.symm.trans hq')
    exact (hlen p).mpr ⟨len, hp, h.of_succ⟩

/-- A reader of two addresses. -/
def twoAddresses (s : Str) : Option IpAddr :=
  if s = "10.1.0.0".toList then some (.v4 0x0A010000)
  else if s = "10.1.2.3".toList then some (.v4 0x0A010203)
  else none

theorem cidr_match_iff_agree_v4 :
    cidrMatch { Formats.silent with parseIp := twoAddresses } "10.1.0.0/16" "10.1.2.3" = true :=
  ((cidr_match_iff_agree { Formats.silent with parseIp := twoAddresses } "10.1.0.0" "10.1.2.3" (by decide) rfl
    rfl).2.1 "16").mpr ⟨16, rfl, by decide, by decide⟩

end Fakecloud.Iam.Condition
