import Mathlib.Algebra.BigOperators.Group.Finset.Basic
import Mathlib.Data.Finset.Card
import Mathlib.Logic.Function.Basic

/-!
# Parties that wait for each other

Parties that go through numbered stages, each at its own pace. At some stages they wait until all of
them have come that far, and they find out by counting; at others they wait for one party, the
leader.

## Main definitions

* `Rendezvous.reached`: how many parties have come to a stage
* `Rendezvous.Together`: no party leaves a stage that another one has not come to
* `Rendezvous.Behind`: no party leaves a stage before the leader

## Main results

* `Rendezvous.reached_update`: the count after one party goes on
* `Rendezvous.reached_eq_card_iff`: the count tells that all parties have come
* `Rendezvous.Together.update`, `Rendezvous.Behind.update`: the rules for a party that goes on
-/

namespace Rendezvous

open Function

variable {ι : Type*} {S : Finset ι} {stage : ι → Nat} {i leader : ι} {k v : Nat}

/-- How many of the parties have come to a stage. -/
def reached (S : Finset ι) (stage : ι → Nat) (k : Nat) : Nat := (S.filter (k ≤ stage ·)).card

/-- No party leaves a stage that another one has not come to. -/
def Together (S : Finset ι) (stage : ι → Nat) (k : Nat) : Prop :=
  ∀ i ∈ S, k < stage i → ∀ j ∈ S, k ≤ stage j

/-- No party is at a stage that the leader has not come to. -/
def Behind (S : Finset ι) (stage : ι → Nat) (leader : ι) (k : Nat) : Prop :=
  ∀ i ∈ S, k ≤ stage i → k ≤ stage leader

theorem reached_le_card (S : Finset ι) (stage : ι → Nat) (k : Nat) : reached S stage k ≤ S.card :=
  Finset.card_filter_le ..

/-- **The count tells** that all parties have come. -/
theorem reached_eq_card_iff : reached S stage k = S.card ↔ ∀ i ∈ S, k ≤ stage i :=
  Finset.card_filter_eq_iff

theorem reached_eq_zero_iff : reached S stage k = 0 ↔ ∀ i ∈ S, stage i < k := by
  simp [reached, Finset.filter_eq_empty_iff]

/-- The count depends only on who has come to the stage. -/
theorem reached_congr {stage' : ι → Nat} (h : ∀ i, k ≤ stage' i ↔ k ≤ stage i) :
    reached S stage' k = reached S stage k := by
  rw [reached, reached]
  congr 1
  exact Finset.filter_congr fun i _ => h i

section Update

variable [DecidableEq ι]

/-- A party that does not come to the stage, or has come to it before, does not change the count. -/
theorem reached_update_of_iff (h : k ≤ v ↔ k ≤ stage i) :
    reached S (update stage i v) k = reached S stage k := by
  apply reached_congr
  intro j
  by_cases hj : j = i
  · rw [hj, update_self]
    exact h
  · rw [update_of_ne hj]

/-- A party that comes to the stage is counted. -/
theorem reached_update_of_lt (hi : i ∈ S) (hlt : stage i < k) (hv : k ≤ v) :
    reached S (update stage i v) k = reached S stage k + 1 := by
  have hfilter : S.filter (k ≤ update stage i v ·) = insert i (S.filter (k ≤ stage ·)) := by
    ext j
    by_cases hj : j = i
    · simp [hj, hi, hv]
    · simp [hj]
  rw [reached, hfilter, Finset.card_insert_of_notMem]
  · rfl
  · simp [Nat.not_le.mpr hlt]

/-- **The count after a party goes on.** -/
theorem reached_update (hi : i ∈ S) (hv : stage i ≤ v) :
    reached S (update stage i v) k =
      reached S stage k + if stage i < k ∧ k ≤ v then 1 else 0 := by
  split
  · next h => exact reached_update_of_lt hi h.1 h.2
  · next h => exact reached_update_of_iff ⟨fun hk => by omega, fun hk => hk.trans hv⟩

/-- **Parties stay together** when one goes on that has left the stage before, or leaves it after
all of them have come. -/
theorem Together.update (h : Together S stage k) (hv : stage i ≤ v)
    (hpass : k < v → k < stage i ∨ ∀ j ∈ S, k ≤ stage j) :
    Together S (Function.update stage i v) k := by
  have hall : k < v → i ∈ S → ∀ j ∈ S, k ≤ stage j := fun hk hi =>
    (hpass hk).elim (h i hi) id
  have hmono : ∀ j, stage j ≤ Function.update stage i v j := fun j => by
    by_cases hj : j = i
    · rw [hj, update_self]
      exact hv
    · rw [update_of_ne hj]
  intro a ha hka j hj
  refine le_trans ?_ (hmono j)
  by_cases hai : a = i
  · subst hai
    rw [update_self] at hka
    exact hall hka ha j hj
  · rw [update_of_ne hai] at hka
    exact h a ha hka j hj

/-- **The leader stays ahead** when a party goes on that has come to the stage before, or after the
leader. -/
theorem Behind.update (h : Behind S stage leader k) (hv : stage i ≤ v)
    (hpass : i ≠ leader → k ≤ v → k ≤ stage i ∨ k ≤ stage leader) :
    Behind S (Function.update stage i v) leader k := by
  intro a ha hka
  by_cases hl : leader = i
  · subst hl
    rw [update_self]
    by_cases hai : a = leader
    · subst hai
      rwa [update_self] at hka
    · rw [update_of_ne hai] at hka
      exact (h a ha hka).trans hv
  · rw [update_of_ne hl]
    by_cases hai : a = i
    · subst hai
      rw [update_self] at hka
      exact (hpass (Ne.symm hl) hka).elim (h a ha) id
    · rw [update_of_ne hai] at hka
      exact h a ha hka

end Update

end Rendezvous
