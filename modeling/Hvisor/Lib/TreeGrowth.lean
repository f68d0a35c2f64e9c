import Mathlib.Data.Finset.Card
import Hvisor.Lib.RadixTree

/-!
# Trees that only grow

A tree into which leaves are put with a budget of tables. Whether a leaf finds its place or not, no
leaf and no table goes, and each table that appears is taken from the budget. So the tables above a
leaf that is there at the end tell what the budget was at the start.

## Main definitions

* `Tree.Builds`: from one tree and budget to another

## Main results

* `Tree.Builds.trans`: one growth after another
* `Tree.Builds.card_holesAll_le`: the tables that leaves at the end have taken
-/

namespace RadixTree

namespace Tree

variable {ι α : Type*} {T T' T'' : Tree ι α} {n n' n'' : ℕ} {p q r : List ι} {a : α}

/-- **The tree `T'` with the budget `n'` has grown out of `T` with `n`**: leaves and tables stay,
and the new tables were taken from the budget. -/
structure Builds (T : Tree ι α) (n : ℕ) (T' : Tree ι α) (n' : ℕ) : Prop where
  leaf : ∀ q a, T q = .leaf a → T' q = .leaf a
  table : ∀ q, T q = .table → T' q = .table
  cost : ∀ paths : Finset (List ι), (∀ q ∈ paths, T q = .empty ∧ T' q = .table) →
    paths.card + n' ≤ n

namespace Builds

theorem refl (T : Tree ι α) (n : ℕ) : T.Builds n T n := by
  refine ⟨fun _ _ => id, fun _ => id, fun paths h => ?_⟩
  have hnone : paths = ∅ := by
    apply Finset.eq_empty_of_forall_notMem
    intro q hq
    obtain ⟨he, ht⟩ := h q hq
    rw [he] at ht
    cases ht
  rw [hnone, Finset.card_empty, Nat.zero_add]

theorem trans (h : T.Builds n T' n') (h' : T'.Builds n' T'' n'') : T.Builds n T'' n'' := by
  classical
  refine ⟨fun q a hl => h'.leaf q a (h.leaf q a hl), fun q ht => h'.table q (h.table q ht),
    fun paths hpaths => ?_⟩
  -- the tables that the first growth made, and those that the second one made
  have hfirst := h.cost (paths.filter fun q => T' q = .table) fun q hq =>
    ⟨(hpaths q (Finset.mem_filter.mp hq).1).1, (Finset.mem_filter.mp hq).2⟩
  have hsecond := h'.cost (paths.filter fun q => ¬ T' q = .table) fun q hq => by
    obtain ⟨hmem, hnot⟩ := Finset.mem_filter.mp hq
    refine ⟨?_, (hpaths q hmem).2⟩
    cases hq' : T' q with
    | empty => rfl
    | table => exact absurd hq' hnot
    | leaf a =>
      have hl := h'.leaf q a hq'
      rw [(hpaths q hmem).2] at hl
      cases hl
  have hcard := Finset.card_filter_add_card_filter_not (s := paths) fun q => T' q = .table
  omega

variable [DecidableEq ι]

/-- Tables for the slots of `F` that are empty, and nothing else. -/
theorem of_slots {F : Finset (List ι)} (hF : ∀ r ∈ F, T r = .empty)
    (h : ∀ r, T' r = if r ∈ F then .table else T r) (hn : F.card + n' ≤ n) :
    T.Builds n T' n' := by
  refine ⟨fun q a hl => ?_, fun q ht => ?_, fun paths hpaths => ?_⟩
  · rw [h, if_neg, hl]
    intro hq
    rw [hF q hq] at hl
    cases hl
  · rw [h]
    split
    · rfl
    · exact ht
  · have hsub : paths ⊆ F := by
      intro q hq
      obtain ⟨he, ht⟩ := hpaths q hq
      by_contra hnot
      rw [h, if_neg hnot, he] at ht
      cases ht
    have := Finset.card_le_card hsub
    omega

/-- Putting a leaf where its slot is clear. -/
theorem of_insertLeaf (h : T.Clear q) (hn : (T.holes q.tail).card + n' ≤ n) (a : α) :
    T.Builds n (T.insertLeaf q a) n' := by
  refine ⟨fun r b hl => h.insertLeaf_eq_leaf.mpr (.inr hl), fun r ht => ?_, fun paths hpaths => ?_⟩
  · have hne : r ≠ q := by
      rintro rfl
      rw [h.1] at ht
      cases ht
    by_cases hr : r <:+ q
    · exact h.insertLeaf_of_suffix hr hne
    · rw [insertLeaf_of_not_suffix hr, ht]
  · have hsub : paths ⊆ T.holes q.tail := by
      intro r hr
      obtain ⟨he, ht⟩ := hpaths r hr
      have hne : r ≠ q := by
        rintro rfl
        rw [insertLeaf_self] at ht
        cases ht
      have hsuffix : r <:+ q := by
        by_contra hnot
        rw [insertLeaf_of_not_suffix hnot, he] at ht
        cases ht
      refine mem_holes.mpr ⟨?_, he⟩
      -- a suffix that is not the whole path is one of what is below the first index
      cases q with
      | nil => exact absurd (List.suffix_nil.mp hsuffix) hne
      | cons i q => exact (List.suffix_cons_iff.mp hsuffix).resolve_left hne
    have := Finset.card_le_card hsub
    omega

/-- **The tables that leaves have taken**: those above leaves that are there at the end. -/
theorem card_holesAll_le (h : T.Builds n T' n') (hwf : T'.WF) {qs : List (List ι)}
    (hqs : ∀ q ∈ qs, ∃ a, T' q = .leaf a) : (T.holesAll qs).card ≤ n := by
  have hcost := h.cost (T.holesAll qs) fun r hr => by
    obtain ⟨q, hq, hsuffix, he⟩ := mem_holesAll.mp hr
    obtain ⟨a, hl⟩ := hqs q hq
    refine ⟨he, hwf.table_of_suffix (q := q) ?_ (hsuffix.trans (List.tail_suffix q)) ?_⟩
    · rw [hl]
      simp
    · rintro rfl
      -- only the empty path is a suffix of its own tail, and the root is a table
      have hlen := hsuffix.length_le
      rw [List.length_tail] at hlen
      obtain rfl : r = [] := List.length_eq_zero_iff.mp (by omega)
      rw [hwf.root] at hl
      cases hl
  omega

end Builds

end Tree

end RadixTree
