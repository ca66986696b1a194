import Fakecloud.Lib.Decimal

/-!
# Subnets of a block

`compute_cidr_subnets` counts up from the address of the block, wherever that stands in the block and however
little of the block is left.
-/

namespace Fakecloud.Cloudformation

open Text List

/-- Up to three digits without a leading zero. -/
def parseOctet (s : Str) : Option ℕ :=
  if s.length ≤ 3 ∧ (s.head? = some '0' → s.length = 1) then (parseDigits s).filter (· < 256) else none

/-- `Ipv4Addr::from_str`. -/
def parseIpv4 (s : Str) : Option ℕ :=
  match (s.splitOn '.').map parseOctet with
  | [some a, some b, some c, some d] => some (((a * 256 + b) * 256 + c) * 256 + d)
  | _ => none

structure Block where
  address : ℕ
  len : ℕ
  deriving DecidableEq

namespace Block

def read (s : Str) : Option Block := do
  let (ip, len) ← splitOnce '/' s
  let len ← parseUnsigned (2 ^ 32) len
  let address ← parseIpv4 ip
  return ⟨address, len⟩

def text (b : Block) : Str :=
  intercalate ['.'] ([2 ^ 24, 2 ^ 16, 2 ^ 8, 1].map fun place => decimalText (b.address / place % 256)) ++
    '/' :: decimalText b.len

/-- An address shares the first `len` bits of the block's. -/
def Contains (b : Block) (x : ℕ) : Prop := x / 2 ^ (32 - b.len) = b.address / 2 ^ (32 - b.len)

/-- Subnet number `i` with so many bits for its hosts. -/
def subnet (b : Block) (bits i : ℕ) : Block := ⟨b.address + 2 ^ bits * i, 32 - bits⟩

end Block

/-- `checked_add` and `checked_mul`. -/
def checked (n : ℕ) : Option ℕ := if n < 2 ^ 32 then some n else none

def computeCidrSubnets (ipBlock : Str) (count cidrBits : ℕ) : Option (List Str) :=
  if ¬ (1 ≤ count ∧ count ≤ 256) then none
  else (Block.read ipBlock).bind fun block =>
    if 32 < cidrBits ∨ 32 - cidrBits ≤ block.len then none
    else (range count).mapM fun i =>
      (checked (2 ^ cidrBits * i)).bind fun offset =>
        (checked (block.address + offset)).map fun address => Block.text ⟨address, 32 - cidrBits⟩

theorem mapM_eq_map {α β : Type} {f : α → Option β} {g : α → β} (hf : ∀ a, ∀ b ∈ f a, b = g a) {l : List α}
    {bs : List β} (h : l.mapM f = some bs) : bs = l.map g := by
  induction l generalizing bs with
  | nil => simpa using h.symm
  | cons a l ih =>
    rw [mapM_cons] at h
    obtain ⟨b, hb, h⟩ := Option.bind_eq_some_iff.mp h
    obtain ⟨bs', hbs, h⟩ := Option.bind_eq_some_iff.mp h
    cases h
    rw [map_cons, hf a b hb, ih hbs]

section

variable {block : Block} {bits i x : ℕ} (hl : block.len < 32 - bits)
include hl

theorem subnet_contains : (block.subnet bits i).Contains x ↔ x / 2 ^ bits = block.address / 2 ^ bits + i := by
  rw [Block.Contains, Block.subnet, Nat.sub_sub_self (by omega), Nat.add_mul_div_left _ _ (by positivity)]

theorem block_size : 2 ^ (32 - block.len) = 2 ^ bits * 2 ^ (32 - block.len - bits) := by
  rw [← pow_add]
  congr 1
  omega

/-- A subnet is in the block when its number does not carry over the subnets that the block has. -/
theorem subnet_subset : (∀ x, (block.subnet bits i).Contains x → block.Contains x) ↔
    block.address / 2 ^ bits % 2 ^ (32 - block.len - bits) + i < 2 ^ (32 - block.len - bits) := by
  have hm : 0 < 2 ^ (32 - block.len - bits) := by positivity
  simp only [subnet_contains hl]
  simp only [Block.Contains, block_size hl, ← Nat.div_div_eq_div_mul]
  generalize 2 ^ (32 - block.len - bits) = m at hm
  generalize block.address / 2 ^ bits = q
  have hq : (q + i) / m = q / m ↔ q % m + i < m := by
    have := Nat.div_add_mod' q m
    rw [Nat.div_eq_iff hm]
    omega
  rw [← hq]
  constructor
  · intro h
    simpa using h (2 ^ bits * (q + i))
  · intro h x hx
    rw [hx, h]

end

/-- **The subnets are disjoint**; they are aligned and inside the block when its address is a multiple of
their size and has room for them all behind it. -/
theorem cidr_subnets_iff (ipBlock : Str) (count bits : ℕ) (out : List Str) (block : Block)
    (h : computeCidrSubnets ipBlock count bits = some out) (hb : Block.read ipBlock = some block) :
    let subnets := (range count).map (block.subnet bits)
    out = subnets.map Block.text ∧ out.length = count ∧ (∀ b ∈ subnets, b.len = 32 - bits) ∧
    subnets.Pairwise (fun a b => ∀ x, a.Contains x → ¬ b.Contains x) ∧
    ((∀ b ∈ subnets, 2 ^ bits ∣ b.address ∧ ∀ x, b.Contains x → block.Contains x) ↔
      2 ^ bits ∣ block.address ∧
        block.address % 2 ^ (32 - block.len) + 2 ^ bits * count ≤ 2 ^ (32 - block.len)) := by
  intro subnets
  rw [computeCidrSubnets, hb, Option.bind_some] at h
  split_ifs at h with hc hl
  rw [not_or, not_lt, not_le] at hl
  have hout : out = (range count).map fun i => (block.subnet bits i).text := mapM_eq_map (fun i t ht => by
    simp only [checked, Option.mem_def, Option.bind_eq_some_iff, Option.map_eq_some_iff,
      Option.ite_none_right_eq_some] at ht
    obtain ⟨_, ⟨_, ⟨⟩⟩, _, ⟨_, ⟨⟩⟩, rfl⟩ := ht
    rfl) h
  refine ⟨by rw [hout, map_map]; rfl, by simp [hout], by simp [subnets, Block.subnet], ?_, ?_⟩
  · refine pairwise_map.mpr (pairwise_lt_range.imp fun hij x hi hj => ?_)
    rw [subnet_contains hl.2] at hi hj
    omega
  · have hd (i : ℕ) : 2 ^ bits ∣ (block.subnet bits i).address ↔ 2 ^ bits ∣ block.address :=
      (Nat.dvd_add_iff_left (Nat.dvd_mul_right _ i)).symm
    simp only [subnets, forall_mem_map, mem_range, subnet_subset hl.2, block_size hl.2, hd]
    have hroom (ha : 2 ^ bits ∣ block.address) (m : ℕ) :
        block.address % (2 ^ bits * m) + 2 ^ bits * count ≤ 2 ^ bits * m ↔
          block.address / 2 ^ bits % m + count ≤ m := by
      obtain ⟨q, hq⟩ := ha
      rw [hq, Nat.mul_mod_mul_left, ← Nat.mul_add, Nat.mul_le_mul_left_iff (by positivity),
        Nat.mul_div_cancel_left _ (by positivity)]
    constructor
    · intro h
      obtain ⟨ha, hm⟩ := h (count - 1) (by omega)
      exact ⟨ha, (hroom ha _).mpr (by omega)⟩
    · rintro ⟨ha, hm⟩ i hi
      have := (hroom ha _).mp hm
      exact ⟨ha, by omega⟩

theorem cidr_subnets_iff_two : let block : Block := ⟨0x0A000000, 30⟩
    ∀ b ∈ (range 2).map (block.subnet 1), 2 ∣ b.address ∧ ∀ x, b.Contains x → block.Contains x := by
  intro block
  have hout : computeCidrSubnets "10.0.0.0/30" 2 1 = some ["10.0.0.0/31".toList, "10.0.0.2/31".toList] := by
    decide +kernel
  exact (cidr_subnets_iff _ 2 1 _ block hout (by decide +kernel)).2.2.2.2.mpr (by decide)

/-- The third subnet of four addresses is outside them, and an address within a subnet starts none. -/
theorem cidr_subnets_outside : computeCidrSubnets "10.0.0.0/30" 3 1 =
      some ["10.0.0.0/31".toList, "10.0.0.2/31".toList, "10.0.0.4/31".toList] ∧
    ¬ Block.Contains ⟨0x0A000000, 30⟩ 0x0A000004 ∧
    computeCidrSubnets "10.0.0.1/24" 1 4 = some ["10.0.0.1/28".toList] :=
  ⟨by decide +kernel, by simp [Block.Contains], by decide +kernel⟩

end Fakecloud.Cloudformation
