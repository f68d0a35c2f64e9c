import Mathlib.Data.Finset.Basic
import Mathlib.Data.List.Perm.Basic

/-!
# Ledgers of owned sets

A pool of resources, of which some are free and the others are owned in portions. The ledger is
balanced when each resource of the pool is free or in one portion, once. Resources are taken from
the free ones as a new portion, and a portion is given back.

## Main definitions

* `Ledger.Balanced`: each resource of the pool is counted once

## Main results

* `Ledger.Balanced.take`, `Ledger.Balanced.give`: the two movements keep the balance
* `Ledger.Balanced.pairwise`, `Ledger.Balanced.owner`: portions do not meet, and what is not free
  has one owner
-/

namespace Ledger

variable {α : Type*} [DecidableEq α] {pool free S : Finset α} {owned owned' : List (Finset α)}

/-- Each resource of the pool is counted once, among the free ones or in a portion, and no other
resource is counted. -/
def Balanced (pool free : Finset α) (owned : List (Finset α)) : Prop :=
  ∀ a, (if a ∈ free then 1 else 0) + owned.countP (a ∈ ·) = if a ∈ pool then 1 else 0

theorem balanced_nil : Balanced pool pool [] := fun a => by simp

/-- Free resources become a portion. -/
theorem Balanced.take (h : Balanced pool free owned) (hS : S ⊆ free) :
    Balanced pool (free \ S) (S :: owned) := by
  intro a
  have ha := h a
  by_cases haS : a ∈ S
  · have hf : a ∈ free := hS haS
    simp only [hf, if_true] at ha
    simp [haS, Nat.add_comm] at ha ⊢
    omega
  · simpa [haS] using ha

/-- A portion becomes free. -/
theorem Balanced.give (h : Balanced pool free (S :: owned)) : Balanced pool (free ∪ S) owned := by
  intro a
  have ha := h a
  rw [List.countP_cons] at ha
  by_cases haS : a ∈ S
  · -- what is in the portion was not free and is in no other
    have hp : (if a ∈ pool then 1 else 0) ≤ 1 := by split <;> omega
    simp only [haS, decide_true, if_true] at ha
    simp only [Finset.mem_union, haS, or_true, if_true]
    omega
  · simpa [haS] using ha

theorem Balanced.perm (h : Balanced pool free owned) (hp : owned.Perm owned') :
    Balanced pool free owned' := fun a => by
  rw [← hp.countP_eq]
  exact h a

/-- An empty portion owns nothing. -/
theorem Balanced.cons_empty (h : Balanced pool free owned) : Balanced pool free (∅ :: owned) := by
  simpa using h.take (Finset.empty_subset free)

theorem Balanced.disjoint_free (h : Balanced pool free owned) (hS : S ∈ owned) :
    Disjoint S free := by
  rw [Finset.disjoint_left]
  intro a haS haf
  have ha := h a
  have hpos : 0 < owned.countP (a ∈ ·) := List.countP_pos_iff.mpr ⟨S, hS, by simpa using haS⟩
  simp only [haf, if_true] at ha
  split at ha <;> omega

theorem Balanced.subset (h : Balanced pool free owned) (hS : S ∈ owned) : S ⊆ pool := by
  intro a haS
  by_contra hap
  have ha := h a
  have hpos : 0 < owned.countP (a ∈ ·) := List.countP_pos_iff.mpr ⟨S, hS, by simpa using haS⟩
  simp only [hap, if_false] at ha
  omega

/-- No two portions meet. -/
theorem Balanced.pairwise (h : Balanced pool free owned) : owned.Pairwise Disjoint := by
  induction owned generalizing free with
  | nil => exact .nil
  | cons S owned ih =>
    -- given back, the first portion is free, and so in no other
    apply List.Pairwise.cons
    · intro T hT
      exact ((h.give.disjoint_free hT).mono_right Finset.subset_union_right).symm
    · exact ih h.give

/-- A resource of the pool is free or in a portion. -/
theorem Balanced.owner (h : Balanced pool free owned) {a : α} (ha : a ∈ pool) (haf : a ∉ free) :
    ∃ S ∈ owned, a ∈ S := by
  have hc := h a
  simp only [ha, haf, if_true, if_false] at hc
  have hpos : 0 < owned.countP (a ∈ ·) := by omega
  obtain ⟨S, hS, haS⟩ := List.countP_pos_iff.mp hpos
  exact ⟨S, hS, by simpa using haS⟩

end Ledger
