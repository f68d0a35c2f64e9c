import Mathlib.Tactic.TypeStar

/-!
# Memory that is granted

Parties have memory of their own, and join regions that are shared. When the memory that they own
and the regions are apart, a cell that two parties reach is in a region that both have joined.

## Main definitions

* `Grants`: who owns what, who has joined which region, and what a region has
* `Grants.Reaches`: what a party reaches
* `Grants.Separated`: memory and regions are apart

## Main results

* `Grants.Separated.of_pool`: regions come from a pool, and the memory of parties does not
* `Grants.Separated.common`: two parties have only regions in common
* `Grants.Separated.joined_of_shared`: who reaches a region has joined it
-/

/-- What is granted to whom. -/
structure Grants (ι κ α : Type*) where
  owns : ι → α → Prop
  joined : ι → κ → Prop
  shared : κ → α → Prop

namespace Grants

variable {ι κ α : Type*} {g : Grants ι κ α} {i j : ι} {k : κ} {a : α}

/-- A party may reach what it owns, and what it shares. -/
def Reaches (g : Grants ι κ α) (i : ι) (a : α) : Prop :=
  g.owns i a ∨ ∃ k, g.joined i k ∧ g.shared k a

/-- No cell has two owners, or is in two regions, or is in a region and has an owner. -/
structure Separated (g : Grants ι κ α) : Prop where
  owns : ∀ i j a, g.owns i a → g.owns j a → i = j
  shared : ∀ k l a, g.shared k a → g.shared l a → k = l
  apart : ∀ i k a, g.owns i a → ¬ g.shared k a

theorem Separated.of_pool (pool : α → Prop) (hown : ∀ i j a, g.owns i a → g.owns j a → i = j)
    (hshared : ∀ k l a, g.shared k a → g.shared l a → k = l)
    (hout : ∀ i a, g.owns i a → ¬ pool a) (hin : ∀ k a, g.shared k a → pool a) : g.Separated :=
  ⟨hown, hshared, fun i k a hi hk => hout i a hi (hin k a hk)⟩

/-- Who reaches a cell of a region has joined the region. -/
theorem Separated.joined_of_shared (h : g.Separated) (hi : g.Reaches i a) (hk : g.shared k a) :
    g.joined i k := by
  rcases hi with hi | ⟨l, hl, ha⟩
  · exact absurd hk (h.apart i k a hi)
  · rwa [h.shared k l a hk ha]

/-- **Two parties have only regions in common**, which both have joined. -/
theorem Separated.common (h : g.Separated) (hi : g.Reaches i a) (hj : g.Reaches j a)
    (hne : i ≠ j) : ∃ k, g.joined i k ∧ g.joined j k ∧ g.shared k a := by
  rcases hi with hi | ⟨k, hk, ha⟩
  · rcases hj with hj | ⟨k, -, ha⟩
    · exact absurd (h.owns i j a hi hj) hne
    · exact absurd ha (h.apart i k a hi)
  · exact ⟨k, hk, h.joined_of_shared hj ha, ha⟩

end Grants
