import Hvisor.Lib.TreeGrowth
import Hvisor.Memory.Growth

/-!
# What tables cost

Mapping makes tables and never gives one back, whether it succeeds or fails on the way. Each table
that is made takes a frame. So leaves that are there after some insertions tell what there was room
for before them, although the insertions that failed left tables behind.

## Main definitions

* `PtState.Builds`: the tree has grown, and the frames have paid for it

## Main results

* `mapPage_builds`, `mapLoop_builds`: mapping a page, and a region, to the end or not
* `MemorySet.builds_of_insert`: an insertion, whatever it returns
* `PtState.Builds.tablesNeeded_le`: the frames that pages have taken
-/

namespace Hvisor

open GenericPTE RadixTree

section Tables

variable {PTE : Type} [GenericPTE PTE] {s s' s'' : PtState PTE} {p : Path}

/-- The tree has grown, and the frames have paid for it. -/
structure PtState.Builds (s s' : PtState PTE) : Prop where
  level : s'.pt.level = s.pt.level
  tree : (tree s).Builds s.free.length (tree s') s'.free.length

theorem PtState.Builds.refl (s : PtState PTE) : s.Builds s := ⟨rfl, .refl _ _⟩

theorem PtState.Builds.trans (h : s.Builds s') (h' : s'.Builds s'') : s.Builds s'' :=
  ⟨h'.level.trans h.level, h.tree.trans h'.tree⟩

theorem Descended.builds (h : Descended s s' p) : s.Builds s' := by
  refine ⟨h.level, .of_slots (F := (Hvisor.tree s).holes p) ?_ h.slots ?_⟩
  · intro r hr
    exact (Tree.mem_holes.mp hr).2
  · have hle := h.enough
    rw [h.free, List.length_drop]
    omega

/-- **The frames that pages have taken**: pages whose leaves are there at the end. -/
theorem PtState.Builds.tablesNeeded_le (h : s.Builds s') {pages : List Page}
    (hpages : ∀ p ∈ pages, ∃ a, Hvisor.tree s' (p.slot s.pt.level) = .leaf a) :
    s.tablesNeeded pages ≤ s.free.length := by
  apply h.tree.card_holesAll_le (tree_wf s')
  intro q hq
  obtain ⟨p, hp, rfl⟩ := List.mem_map.mp hq
  exact hpages p hp

variable [LawfulGenericPTE PTE]

/-- A step of the descent that fails leaves the state alone. -/
theorem nextTableMutOrCreate_error {entry : Nat} {e : PagingError}
    (h : (nextTableMutOrCreate entry).run s = .error e s') : s' = s := by
  -- a free entry fails for want of a frame; a used one when it leads to no table
  cases hu : isUnused (s.mem entry) with
  | true =>
    cases hfree : s.free with
    | nil =>
      rw [nextTableMutOrCreate_noMemory hu hfree] at h
      exact (EStateM.Result.error.inj h).2.symm
    | cons g free =>
      rw [nextTableMutOrCreate_create hu hfree] at h
      cases h
  | false =>
    rw [nextTableMutOrCreate_used hu] at h
    split at h
    · cases h
    · exact (EStateM.Result.error.inj h).2.symm

/-- The descent makes tables on the way, also when it fails. -/
theorem descend_builds (h : s.Inv) : ∀ p : Path, p.length < s.pt.level →
    s.Builds (endState ((descend p).run s)) := by
  intro p
  -- down the path from the root; a step that fails leaves what the steps before have built
  induction p with
  | nil => exact fun _ => .refl s
  | cons i p ih =>
    intro hlen
    rw [List.length_cons] at hlen
    have ih := ih (by omega)
    have hspec := descend_spec h p (by omega)
    rw [descend, EStateM.run_bind]
    cases hrun : (descend p).run s with
    | error e s₁ =>
      rw [hrun] at ih
      exact ih
    | ok f s₁ =>
      rw [hrun] at hspec ih
      have hstep := hspec.1.step (i := i) hspec.2 hlen
      cases hnext : (nextTableMutOrCreate (entryPtr f i)).run s₁ with
      | ok g s₂ =>
        rw [hnext] at hstep
        simp only [hnext]
        exact hstep.1.builds
      | error e s₂ =>
        simp only [hnext]
        rw [nextTableMutOrCreate_error hnext]
        exact ih

/-- **Mapping a page** makes tables and puts the leaf, or fails on the way. -/
theorem mapPage_builds (h : s.Inv) (page : Page) (paddr : Nat) (fl : MemFlags) :
    s.Builds (endState ((mapPage page paddr fl).run s)) := by
  have hspec := mapPage_spec h page paddr fl
  cases hrun : (mapPage page paddr fl).run s with
  | ok entry s₁ =>
    rw [hrun] at hspec
    obtain ⟨hput, hfree⟩ := hspec
    refine ⟨hput.level, ?_⟩
    have hfits := hput.fits
    rw [endState_ok, hput.tree_eq]
    refine .of_insertLeaf hfits.1 ?_ _
    rw [hfree]
    have hle := hfits.2.1
    omega
  | error e s₁ =>
    -- the descent has failed, or the entry that it has found is in use
    have hdescend := descend_builds h _
      (tablePath_length page.size page.vaddr h.level).1
    rw [mapPage, EStateM.run_bind, getEntryMutOrCreate_run, EStateM.run_bind] at hrun
    cases hrun' : (descend (tablePath s.pt.level page.size page.vaddr)).run s with
    | error e' s₂ =>
      rw [hrun'] at hdescend
      simp only [hrun', EStateM.Result.error.injEq] at hrun
      rw [endState_error, ← hrun.2]
      exact hdescend
    | ok f s₂ =>
      rw [hrun'] at hdescend
      simp only [hrun', EStateM.run_pure, EStateM.run_bind, EStateM.run_get] at hrun
      split at hrun
      · simp only [EStateM.run_bind, EStateM.run_throw, EStateM.Result.error.injEq] at hrun
        rw [endState_error, ← hrun.2]
        exact hdescend
      · simp only [modifyEntry, EStateM.run_bind, EStateM.run_modify, EStateM.run_pure] at hrun
        cases hrun

/-- **Mapping a region**, to the end or not. -/
theorem mapLoop_builds (region : MemoryRegion) {vaddr size : Nat} (h : s.Inv)
    (hv : vaddr % 4096 = 0) (hs : size % 4096 = 0) :
    s.Builds (endState ((mapLoop region vaddr size).run s)) := by
  -- on the size that is left; the loop ends where a page fails, or where the addresses do
  induction size using Nat.strong_induction_on generalizing vaddr s with
  | _ size ih =>
    rw [mapLoop]
    by_cases h0 : size = 0
    · rw [if_pos h0]
      exact .refl s
    · set paddr := region.mapper.mapFn vaddr with hpaddr
      set ps := choosePageSize vaddr paddr size region.flags with hps
      have hle : ps.bytes ≤ size := choosePageSize_le _ _ _ hs h0
      have hpos := ps.bytes_pos
      have hmod := bytes_mod ps
      have hal : ps.isAligned vaddr = true := choosePageSize_isAligned region.flags paddr size hv
      have hpage := mapPage_builds h ⟨vaddr, ps⟩ paddr region.flags
      have hspec := mapPage_spec h ⟨vaddr, ps⟩ paddr region.flags
      rw [if_neg h0]
      simp only [← hps, hvAssert, hal, if_true, pure_bind, EStateM.run_bind, liftPaging_run]
      cases hrun : (mapPage ⟨vaddr, ps⟩ paddr region.flags).run s with
      | error e s₁ =>
        rw [hrun] at hpage
        exact hpage
      | ok entry s₁ =>
        rw [hrun] at hpage hspec
        cases hadd : checkedAdd vaddr ps.bytes with
        | none => exact hpage
        | some next =>
          obtain ⟨-, rfl⟩ := checkedAdd_eq_some.mp hadd
          simp only [if_pos hle]
          exact hpage.trans (ih _ (by omega) hspec.1.inv (by omega) (by omega))

namespace MemorySet

variable {m m' : MemorySet PTE} {region : MemoryRegion}

/-- **An insertion**, whatever it returns. -/
theorem builds_of_insert (h : m.st.Inv)
    (hrun : (insert region).run m = .ok () m' ∨ ∃ e, (insert region).run m = .error (.err e) m') :
    m.st.Builds m'.st := by
  have hloop : ∀ {st}, isAligned region.start = true → isAligned region.size = true →
      endState ((mapLoop region region.start region.size).run m.st) = st → m.st.Builds st := by
    rintro st hs hz rfl
    exact mapLoop_builds region h (isAligned_iff.mp hs) (isAligned_iff.mp hz)
  rcases hrun with hrun | ⟨e, hrun⟩
  · obtain ⟨hs, hz, ⟨-, rfl⟩ | ⟨-, -, st, hst, rfl⟩⟩ := insert_ok hrun
    · exact .refl _
    · apply hloop hs hz
      rw [hst, endState_ok]
  · obtain ⟨hs, hz, -, rfl | ⟨-, st, hst, rfl⟩⟩ := insert_err hrun
    · exact .refl _
    · apply hloop hs hz
      rw [hst, endState_error]

end MemorySet

end Tables

end Hvisor
