import Mathlib.Data.Set.Basic

/-!
# Names with one owner and many users

A registry says who owns a name and who uses it.  An owner publishes its names and what it uses in one
step, which replaces what it had published.
-/

@[ext]
structure Registry (ν ο : Type) where
  owner : ν → Option ο
  users : ν → Set ο

namespace Registry

variable {ν ο : Type} {r : Registry ν ο} {live live' : ο → Prop} {declares declares' : ο → Set ν}
  {o : ο} {names used : Set ν} {n : ν}

open Classical in
/-- `o` owns `names` and uses `used`, and nothing else. -/
noncomputable def publish (r : Registry ν ο) (o : ο) (names used : Set ν) : Registry ν ο where
  owner n := if n ∈ names then some o else if r.owner n = some o then none else r.owner n
  users n := {u | u ≠ o ∧ u ∈ r.users n ∨ u = o ∧ n ∈ used}

/-- Owners are live, own what they declare, and whatever is used is owned. -/
structure Sound (live : ο → Prop) (declares : ο → Set ν) (r : Registry ν ο) : Prop where
  owner_live : ∀ {n o}, r.owner n = some o → live o
  declared : ∀ {o}, live o → ∀ {n}, n ∈ declares o → r.owner n = some o
  used_owned : ∀ {n u}, u ∈ r.users n → ∃ o, r.owner n = some o

theorem Sound.unique (h : Sound live declares r) {a b : ο} (ha : live a) (hb : live b)
    (hna : n ∈ declares a) (hnb : n ∈ declares b) : a = b :=
  Option.some.inj ((h.declared ha hna).symm.trans (h.declared hb hnb))

theorem owner_publish_of_mem (hn : n ∈ names) : (r.publish o names used).owner n = some o := if_pos hn

theorem owner_publish_of_ne {a : ο} (hn : n ∉ names) (hne : a ≠ o) :
    (r.publish o names used).owner n = some a ↔ r.owner n = some a := by
  rw [publish]
  dsimp only
  split_ifs with ho
  · rw [ho]
    simp [Ne.symm hne]
  · rfl

/-- Publishing keeps a registry sound when it takes no name from another owner, uses names of others, and
keeps those that others use. -/
theorem Sound.publish (h : Sound live declares r)
    (hl : ∀ {a}, a ≠ o → (live' a ↔ live a)) (ho : names.Nonempty → live' o)
    (hd : ∀ {a}, a ≠ o → declares' a = declares a) (hs : live' o → declares' o ⊆ names)
    (hnw : ∀ n ∈ names, ∀ a, r.owner n = some a → a = o) (hus : ∀ n ∈ used, ∃ a, r.owner n = some a ∧ a ≠ o)
    (hk : ∀ n u, r.owner n = some o → u ∈ r.users n → u ≠ o → n ∈ names) :
    Sound live' declares' (r.publish o names used) where
  owner_live := by
    intro n a ha
    by_cases hn : n ∈ names
    · rw [owner_publish_of_mem hn] at ha
      obtain rfl := Option.some.inj ha
      exact ho ⟨n, hn⟩
    · have hne : a ≠ o := by
        rintro rfl
        rw [Registry.publish] at ha
        dsimp only at ha
        split_ifs at ha with how
        exact how ha
      exact (hl hne).mpr (h.owner_live ((owner_publish_of_ne hn hne).mp ha))
  declared := by
    intro a ha n hn
    by_cases hao : a = o
    · subst hao
      exact owner_publish_of_mem (hs ha hn)
    · rw [hd hao] at hn
      have how := h.declared ((hl hao).mp ha) hn
      exact (owner_publish_of_ne (fun hm => hao (hnw n hm a how)) hao).mpr how
  used_owned := by
    intro n u hu
    by_cases hn : n ∈ names
    · exact ⟨o, owner_publish_of_mem hn⟩
    -- a name that is used and not published anew belongs to someone else
    obtain ⟨a, ha, hao⟩ : ∃ a, r.owner n = some a ∧ a ≠ o := by
      rcases hu with ⟨huo, hu⟩ | ⟨-, hu⟩
      · obtain ⟨a, ha⟩ := h.used_owned hu
        refine ⟨a, ha, ?_⟩
        rintro rfl
        exact hn (hk n u ha hu huo)
      · exact hus n hu
    exact ⟨a, (owner_publish_of_ne hn hao).mpr ha⟩

/-- New owners that declare nothing, and owners that declare less, keep a registry sound. -/
theorem Sound.congr (h : Sound live declares r) (hl : ∀ {a}, live a → live' a)
    (hd : ∀ {a n}, live' a → n ∈ declares' a → live a ∧ n ∈ declares a) : Sound live' declares' r where
  owner_live ha := hl (h.owner_live ha)
  declared ha _ hn := h.declared (hd ha hn).1 (hd ha hn).2
  used_owned := h.used_owned

end Registry
