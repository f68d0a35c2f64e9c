import Hvisor.Memory.PageOps

/-!
# Clearing leaves

Unmapping writes zeros over the entries of leaves. What a computation has cleared is a set of
paths: the entries at these paths are zero, and every other word is kept.

## Main definitions

* `Cleared`: the entries at the paths of a set are cleared

## Main results

* `Cleared.tableAt`, `Cleared.tree_of_mem`, `Cleared.tree_of_not_mem`: the tables and the tree
* `Cleared.inv`: clearing leaves keeps the invariant
* `Cleared.trans`: one computation after another
* `unmapPage_cleared`: unmapping a page
-/

namespace Hvisor

open GenericPTE RadixTree

variable {PTE : Type} [GenericPTE PTE] {s s' s'' : PtState PTE} {A B : Set Path} {p q : Path}
  {i j : Fin entryCount} {f g : Nat}

/-- **The entries at the paths of a set are cleared**, and every other word is kept. -/
structure Cleared (A : Set Path) (s s' : PtState PTE) : Prop where
  pt : s'.pt = s.pt
  free : s'.free = s.free
  zero : ∀ p f i, tableAt s p = some f → i :: p ∈ A → s'.mem (entryPtr f i) = zero
  mem : ∀ a, (∀ p f i, tableAt s p = some f → i :: p ∈ A → a ≠ entryPtr f i) → s'.mem a = s.mem a

/-- The paths of a set lead to leaves. -/
def Leaves (s : PtState PTE) (A : Set Path) : Prop := ∀ q ∈ A, ∃ a, tree s q = .leaf a

theorem Cleared.refl (s : PtState PTE) : Cleared ∅ s s :=
  ⟨rfl, rfl, fun _ _ _ _ h => h.elim, fun _ _ => rfl⟩

variable (h : s.Inv) (hA : Leaves s A) (hc : Cleared A s s')

section

include h hc

/-- An entry that is not at one of the paths is kept. -/
theorem Cleared.mem_of_not_mem (hp : Hvisor.tableAt s p = some f) (hip : i :: p ∉ A) :
    s'.mem (entryPtr f i) = s.mem (entryPtr f i) := by
  apply hc.mem
  intro q g j hq hjq
  apply h.entryPtr_ne hq hp
  rintro he
  exact hip (he ▸ hjq)

variable [LawfulGenericPTE PTE]
include hA

/-- **Clearing leaves keeps the tables.** -/
theorem Cleared.tableAt (q : Path) : Hvisor.tableAt s' q = Hvisor.tableAt s q := by
  -- a step of the way reads an entry that is kept, or one that was a leaf and led nowhere
  induction q with
  | nil => exact congrArg (fun pt => some pt.root) hc.pt
  | cons j q ih =>
    rw [Hvisor.tableAt, Hvisor.tableAt, ih]
    cases hq : Hvisor.tableAt s q with
    | none => rfl
    | some g =>
      by_cases hjq : j :: q ∈ A
      · -- a leaf is no table, and neither is the cleared entry
        obtain ⟨a, ha⟩ := hA _ hjq
        rw [tree_cons hq] at ha
        simp only [hc.zero q g j hq hjq, decode_zero, ha]
      · simp only [hc.mem_of_not_mem h hq hjq, hc.pt]

theorem Cleared.tree_of_not_mem (hq : q ∉ A) : tree s' q = tree s q := by
  cases q with
  | nil => rfl
  | cons j q =>
    rw [tree, tree, hc.tableAt h hA]
    cases hp : Hvisor.tableAt s q with
    | none => rfl
    | some g => simp only [hc.mem_of_not_mem h hp hq, hc.pt]

theorem Cleared.tree_of_mem (hq : q ∈ A) : tree s' q = .empty := by
  obtain ⟨a, ha⟩ := hA q hq
  cases q with
  | nil => simp [tree] at ha
  | cons j q =>
    cases hp : Hvisor.tableAt s q with
    | none => simp [tree, hp] at ha
    | some g => rw [tree_cons ((hc.tableAt h hA q).trans hp), hc.zero q g j hp hq, decode_zero]

/-- The leaves that are left. -/
theorem Cleared.leaf_iff {a : PTE} : tree s' q = .leaf a ↔ q ∉ A ∧ tree s q = .leaf a := by
  by_cases hq : q ∈ A
  · simp [hc.tree_of_mem h hA hq, hq]
  · simp [hc.tree_of_not_mem h hA hq, hq]

/-- **Clearing leaves keeps the invariant.** -/
theorem Cleared.inv : s'.Inv := by
  have ht := hc.tableAt h hA
  have hframes : s'.frames = s.frames := by simp only [PtState.frames, hc.pt]
  -- what is not empty now was not cleared
  have hslot : ∀ q, tree s' q ≠ .empty → q ∉ A ∧ tree s' q = tree s q := by
    intro q hne
    have hq : q ∉ A := fun hq => hne (hc.tree_of_mem h hA hq)
    exact ⟨hq, hc.tree_of_not_mem h hA hq⟩
  refine ⟨hc.pt ▸ h.level, hframes ▸ h.frame, fun q g hq => hframes ▸ h.owned q g (ht q ▸ hq),
    fun q r g hq hr => h.inj q r g (ht q ▸ hq) (ht r ▸ hr), fun q j g hq hne => ?_,
    fun hl j a hj => ?_, ?_, hc.free ▸ h.free_nodup⟩
  · obtain ⟨hjq, htree⟩ := hslot _ hne
    have hq' : Hvisor.tableAt s q = some g := ht q ▸ hq
    rw [hc.mem_of_not_mem h hq' hjq]
    exact h.present q j g hq' (htree ▸ hne)
  · exact h.top (hc.pt ▸ hl) j a ((hc.leaf_iff h hA).mp hj).2
  · rw [hframes, hc.free]
    exact h.free_frame

/-- **One computation after another.** -/
theorem Cleared.trans (hc' : Cleared B s' s'') : Cleared (A ∪ B) s s'' := by
  have ht := hc.tableAt h hA
  refine ⟨hc'.pt.trans hc.pt, hc'.free.trans hc.free, fun p f i hp hip => ?_, fun a ha => ?_⟩
  · have hp' : Hvisor.tableAt s' p = some f := (ht p).trans hp
    -- an entry of the first set may be cleared again, or is kept by the second computation
    by_cases hB : i :: p ∈ B
    · exact hc'.zero p f i hp' hB
    · rw [hc'.mem_of_not_mem (hc.inv h hA) hp' hB]
      exact hc.zero p f i hp (hip.resolve_right hB)
  · rw [hc'.mem a fun p f i hp hip => ha p f i (ht p ▸ hp) (.inr hip)]
    exact hc.mem a fun p f i hp hip => ha p f i hp (.inl hip)

end

/-- **Unmapping a page** clears the leaf that serves the address. -/
theorem unmapPage_cleared [LawfulGenericPTE PTE] {ps : PageSize} {e : PTE} {va : Nat} (h : s.Inv)
    (hl : tree s (pagePath s.pt.level ps va) = .leaf e) :
    ∃ s', (unmapPage va).run s = .ok (addr e, ps) s' ∧
      Cleared {pagePath s.pt.level ps va} s s' := by
  obtain ⟨f, hget, hp, he, hu⟩ := getEntryMut_leaf h hl
  -- the one entry that is written is the slot of the leaf
  refine ⟨s.setEntry (entryPtr f (pageIndex ps va)) (clear e), ?_, rfl, rfl,
    fun q g j hq hjq => ?_, fun a ha => ?_⟩
  · simp only [unmapPage, EStateM.run, hget, he, hu, Bool.false_eq_true, if_false]
  · obtain ⟨rfl, rfl⟩ := List.cons.inj (Set.mem_singleton_iff.mp hjq)
    obtain rfl := Option.some.inj (hp.symm.trans hq)
    rw [clear_eq]
    exact Function.update_self ..
  · apply Function.update_of_ne
    exact ha _ f _ hp rfl

end Hvisor
