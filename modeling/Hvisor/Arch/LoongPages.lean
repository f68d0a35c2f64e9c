import Hvisor.Arch.LoongWalk
import Hvisor.Lib.BlockStore

/-!
# The pages that LoongArch maps

What the tables of LoongArch hold, as a partial map from the paths of pages to their entries. A call
of `map` fills the paths of its region, which were free, and one of `unmap` clears them.

## Main definitions

* `Loong.pageAt`: the entries of the pages in use
* `Loong.regionEntry`: the entry of an address of a region
* `Loong.Marked`: flags that no entry of zeros has

## Main results

* `Loong.pageAt_setPage`, `Loong.pageAt_addTable`: the pages after one write
* `Loong.map_fills`, `Loong.unmap_clears`: the pages after a call
-/

namespace Hvisor

namespace Loong

open BlockStore Function GenericPTE

variable {s s' s'' : State} {p q : Path} {i : Fin entryCount} {f g va vaddr size paddr entry : Nat}
  {fl : MemFlags} {region : MemoryRegion} {e : PageTableEntry}

/-! ## Pages -/

/-- An entry that is in use. -/
def inUse (e : PageTableEntry) : Option PageTableEntry := if isUnused e then none else some e

@[simp] theorem inUse_zero : inUse zero = none := rfl

theorem inUse_eq_some : inUse e = some e ↔ isUnused e = false := by
  rw [inUse]
  cases isUnused e <;> simp

/-- The entry of the page at a path, when it is in use. -/
def pageAt (s : State) : Path → Option PageTableEntry
  | [] => none
  | i :: p =>
    if p.length = 3 then (tableAt s p).bind fun f => inUse (s.mem (entryPtr f i)) else none

theorem pageAt_of_some (hp : tableAt s p = some f) (hlen : p.length = 3) :
    pageAt s (i :: p) = inUse (s.mem (entryPtr f i)) := by
  rw [pageAt, if_pos hlen, hp, Option.bind_some]

/-- A page in use is in a table. -/
theorem table_of_pageAt (h : pageAt s (pagePath va) = some e) :
    ∃ f, tableAt s (tablePath va) = some f := by
  have hlen : (tablePath va).length = 3 := rfl
  rw [pagePath, pageAt, if_pos hlen] at h
  obtain ⟨f, hf, -⟩ := Option.bind_eq_some_iff.mp h
  exact ⟨f, hf⟩

theorem pageAt_setPage (h : Inv s) (hp : tableAt s p = some f) (hlen : p.length = 3)
    (e : PageTableEntry) :
    pageAt (s.setEntry (entryPtr f i) e) = update (pageAt s) (i :: p) (inUse e) := by
  funext q
  by_cases hq : q = i :: p
  · have htable := (tableAt_setPage (i := i) h hp hlen e p).trans hp
    rw [hq, update_self, pageAt_of_some htable hlen, setEntry_mem, update_self]
  · rw [update_of_ne hq]
    cases q with
    | nil => rfl
    | cons j q =>
      rw [pageAt, pageAt, tableAt_setPage h hp hlen e q]
      congr 1
      apply Option.bind_congr
      intro g hg
      rw [setEntry_mem, update_of_ne (h.entryPtr_ne hp hg hq)]

/-- A new table holds no page. -/
theorem pageAt_addTable {free : List Nat} (h : Inv s) (hfree : s.free = g :: free)
    (hp : tableAt s p = some f) (hlen : p.length < 3)
    (hu : isUnused (s.mem (entryPtr f i)) = true) :
    pageAt (s.addTable (entryPtr f i) g free) = pageAt s := by
  funext q
  cases q with
  | nil => rfl
  | cons j q =>
    rw [pageAt, pageAt]
    by_cases hlen' : q.length = 3
    swap
    · rw [if_neg hlen', if_neg hlen']
    rw [if_pos hlen', if_pos hlen', tableAt_addTable h hfree hp hlen hu]
    split_ifs with hq
    · have hnone : tableAt s q = none := hq ▸ tableAt_of_unused hp hu
      rw [hnone, Option.bind_some, Option.bind_none, mem_addTable_zero h hfree hp, inUse_zero]
    · apply Option.bind_congr
      intro k hk
      have hne : j :: q ≠ i :: p := by
        intro heq
        obtain ⟨-, rfl⟩ := List.cons.inj heq
        omega
      rw [mem_addTable_old h hfree hp hk hne]

/-! ## One page -/

/-- The descent makes no page. -/
theorem nextTableMutOrCreate_pageAt (h : Inv s) (hp : tableAt s p = some f) (hlen : p.length < 3)
    (hrun : (nextTableMutOrCreate (entryPtr f i)).run s = .ok g s') : pageAt s' = pageAt s := by
  simp only [nextTableMutOrCreate, EStateM.run_bind, EStateM.run_get] at hrun
  cases hu : isUnused (s.mem (entryPtr f i)) with
  | false =>
    simp only [hu, Bool.false_eq_true, if_false, nextTableMut, EStateM.run_pure] at hrun
    cases hrun
    rfl
  | true =>
    cases hfree : s.free with
    | nil =>
      have halloc : allocIntrmTable.run s = .error .NoMemory s := by
        simp only [allocIntrmTable, EStateM.run, hfree]
      simp only [hu, if_true, EStateM.run_bind, halloc, reduceCtorEq] at hrun
    | cons g free =>
      have halloc : allocIntrmTable.run s = .ok g
          { pt := { s.pt with intrmTables := s.pt.intrmTables ++ [g] }
            mem := zeroFrame s.mem g, free } := by
        simp only [allocIntrmTable, EStateM.run, hfree]
      have hz : zeroFrame s.mem g (entryPtr f i) = s.mem (entryPtr f i) := by
        unfold zeroFrame
        split_ifs
        · rw [(isUnused_iff _).mp hu]
        · rfl
      simp only [hu, if_true, EStateM.run_bind, halloc, modifyEntry, EStateM.run_modify,
        EStateM.run_pure, hz, EStateM.Result.ok.injEq] at hrun
      obtain ⟨-, rfl⟩ := hrun
      exact pageAt_addTable h hfree hp hlen hu

theorem getEntryMutOrCreate_pageAt (h : Inv s)
    (hrun : (getEntryMutOrCreate ⟨va, .Size4K⟩).run s = .ok entry s') : pageAt s' = pageAt s := by
  simp only [getEntryMutOrCreate, EStateM.run_bind, EStateM.run_get] at hrun
  -- three steps down from the root
  have h₄ := nextTableMutOrCreate_kept (i := p4Index va) (p := []) h rfl (by decide)
  cases hrun₄ : (nextTableMutOrCreate (entryPtr s.pt.root (p4Index va))).run s with
  | error e s₄ => simp only [hrun₄, reduceCtorEq] at hrun
  | ok p3 s₄ =>
    rw [hrun₄] at h₄
    obtain ⟨hkept₄, ht₄⟩ := h₄
    have hpage₄ := nextTableMutOrCreate_pageAt (p := []) h rfl (by decide) hrun₄
    have h₃ := nextTableMutOrCreate_kept (i := p3Index va) hkept₄.inv ht₄ (by simp)
    simp only [hrun₄, reduceCtorEq, if_false, EStateM.run_bind] at hrun
    cases hrun₃ : (nextTableMutOrCreate (entryPtr p3 (p3Index va))).run s₄ with
    | error e s₃ => simp only [hrun₃, reduceCtorEq] at hrun
    | ok p2 s₃ =>
      rw [hrun₃] at h₃
      obtain ⟨hkept₃, ht₃⟩ := h₃
      have hpage₃ := nextTableMutOrCreate_pageAt hkept₄.inv ht₄ (by simp) hrun₃
      simp only [hrun₃] at hrun
      cases hrun₂ : (nextTableMutOrCreate (entryPtr p2 (p2Index va))).run s₃ with
      | error e s₂ => simp only [hrun₂, reduceCtorEq] at hrun
      | ok p1 s₂ =>
        have hpage₂ := nextTableMutOrCreate_pageAt hkept₃.inv ht₃ (by simp) hrun₂
        simp only [hrun₂, EStateM.run_pure, EStateM.Result.ok.injEq] at hrun
        obtain ⟨-, rfl⟩ := hrun
        rw [hpage₂, hpage₃, hpage₄]

/-- The entry of a page of 4 KiB. -/
def pageEntry (paddr : Nat) (flags : MemFlags) : PageTableEntry :=
  setFlags (setAddr zero (PageSize.Size4K.alignDown paddr)) flags PageSize.Size4K.isHuge

/-- **Mapping a page** finds its path free, and takes it. -/
theorem mapPage_pageAt (h : Inv s) (hrun : (mapPage ⟨va, .Size4K⟩ paddr fl).run s = .ok entry s') :
    pageAt s (pagePath va) = none ∧
      pageAt s' = update (pageAt s) (pagePath va) (inUse (pageEntry paddr fl)) := by
  have hget := getEntryMutOrCreate_kept va h
  cases hrun₁ : (getEntryMutOrCreate ⟨va, .Size4K⟩).run s with
  | error e s₁ => simp only [mapPage, EStateM.run_bind, hrun₁, reduceCtorEq] at hrun
  | ok entry₁ s₁ =>
    rw [hrun₁] at hget
    obtain ⟨hkept, f, hf, rfl⟩ := hget
    have hpage := getEntryMutOrCreate_pageAt h hrun₁
    cases hu : isUnused (s₁.mem (entryPtr f (p1Index va))) with
    | false =>
      simp [mapPage, EStateM.run_bind, hrun₁, EStateM.run_get, hu, EStateM.run_throw] at hrun
    | true =>
      have hzero := (isUnused_iff _).mp hu
      -- the entry is written twice
      have hwritten : (mapPage ⟨va, .Size4K⟩ paddr fl).run s = .ok (entryPtr f (p1Index va))
          (s₁.setEntry (entryPtr f (p1Index va)) (pageEntry paddr fl)) := by
        simp only [mapPage, EStateM.run_bind, hrun₁, EStateM.run_get, hu, Bool.not_true,
          Bool.false_eq_true, if_false, modifyEntry, EStateM.run_modify, EStateM.run_pure]
        simp only [PtState.setEntry, update_self, update_idem, hzero, pageEntry]
      rw [hwritten, EStateM.Result.ok.injEq] at hrun
      obtain ⟨-, rfl⟩ := hrun
      constructor
      · rw [← hpage, pagePath, pageAt_of_some hf rfl, hzero, inUse_zero]
      · rw [pageAt_setPage hkept.inv hf rfl, hpage, pagePath]

/-- **Unmapping a page** frees its path. -/
theorem unmapPage_pageAt {x : Nat × PageSize} (h : Inv s) (hf : tableAt s (tablePath va) = some f)
    (hrun : (unmapPage va).run s = .ok x s') :
    pageAt s' = update (pageAt s) (pagePath va) none := by
  simp only [EStateM.run, unmapPage, getEntryMut_eq, (walk_of_tableAt hf).1] at hrun
  split_ifs at hrun
  simp only [EStateM.Result.ok.injEq] at hrun
  obtain ⟨-, rfl⟩ := hrun
  exact pageAt_setPage h hf rfl zero

/-! ## A region -/

/-- The addresses from `vaddr` on, as many as `size`. -/
def range (vaddr size : Nat) : Set Nat := {va | vaddr ≤ va ∧ va < vaddr + size}

theorem range_zero : range vaddr 0 = ∅ := by
  ext va
  simp only [range, Set.mem_ofPred_eq, Set.mem_empty_iff_false, iff_false]
  omega

/-- The first page, and the rest. -/
theorem range_eq_union (hle : 4096 ≤ size) :
    range vaddr size = range vaddr 4096 ∪ range (vaddr + 4096) (size - 4096) := by
  ext va
  simp only [range, Set.mem_union, Set.mem_ofPred_eq]
  omega

theorem range_page_nonempty : (range vaddr 4096).Nonempty := ⟨vaddr, le_rfl, by omega⟩

/-- The entry of an address of a region: that of the page around it. -/
def regionEntry (region : MemoryRegion) (va : Nat) : PageTableEntry :=
  pageEntry (region.mapper.mapFn (va - va % 4096)) region.flags

/-- Flags that leave a mark in an entry, whatever its address is. -/
def Marked (flags : MemFlags) : Prop := DescriptorAttr.ofMemFlags flags ≠ 0

instance (flags : MemFlags) : Decidable (Marked flags) := inferInstanceAs (Decidable (_ ≠ _))

/-- The bits of an entry: the flags, and the part of the address that fits. -/
theorem pageEntry_bits (paddr : Nat) (flags : MemFlags) :
    (pageEntry paddr flags).bits = DescriptorAttr.ofMemFlags flags |||
      (BitVec.ofNat 64 (PageSize.Size4K.alignDown paddr) &&& PageTableEntry.PTE_PPN_MASK) := by
  simp [pageEntry, setFlags, setAddr, zero, PageTableEntry.setAddr]

theorem inUse_pageEntry (h : Marked fl) (paddr : Nat) :
    inUse (pageEntry paddr fl) = some (pageEntry paddr fl) := by
  apply inUse_eq_some.mpr
  apply Bool.eq_false_iff.mpr
  intro hu
  have hzero := congrArg PageTableEntry.bits ((isUnused_iff _).mp hu)
  rw [pageEntry_bits] at hzero
  exact h (BitVec.or_eq_zero_iff.mp hzero).1

/-- What a loop of `map` that goes on has done: one page, and the rest. -/
theorem mapLoop_ok (h0 : size ≠ 0)
    (hrun : (mapLoop region .Size4K vaddr size).run s = .ok () s'') :
    vaddr % 4096 = 0 ∧ 4096 ≤ size ∧ vaddr + 4096 < usizeSize ∧
      ∃ a s', (mapPage ⟨vaddr, .Size4K⟩ (region.mapper.mapFn vaddr) region.flags).run s =
          .ok a s' ∧
        (mapLoop region .Size4K (vaddr + 4096) (size - 4096)).run s' = .ok () s'' := by
  have hbytes : PageSize.Size4K.bytes = 4096 := rfl
  rw [mapLoop, if_neg h0] at hrun
  cases hal : PageSize.Size4K.isAligned vaddr with
  | false => simp [hvAssert, hal, EStateM.run_bind, EStateM.run_throw] at hrun
  | true =>
    simp only [hvAssert, hal, if_true, pure_bind, EStateM.run_bind, liftPaging_run] at hrun
    cases hpage : (mapPage ⟨vaddr, .Size4K⟩ (region.mapper.mapFn vaddr) region.flags).run s with
    | error e s₁ => simp only [hpage, reduceCtorEq] at hrun
    | ok a s₁ =>
      simp only [hpage] at hrun
      cases hadd : checkedAdd vaddr PageSize.Size4K.bytes with
      | none => simp [hadd, EStateM.run_throw] at hrun
      | some next =>
        obtain ⟨hend, rfl⟩ := checkedAdd_eq_some.mp hadd
        simp only [hadd] at hrun
        split_ifs at hrun with hle
        · exact ⟨PageSize.isAligned_iff.mp hal, hle, hend, a, s₁, rfl, hrun⟩
        · simp [EStateM.run_throw] at hrun

/-- What a loop of `unmap` that goes on has done. -/
theorem unmapLoop_ok (h0 : size ≠ 0) (hrun : (unmapLoop vaddr size).run s = .ok () s'') :
    ∃ x s', (unmapPage vaddr).run s = .ok x s' ∧ x.2.isAligned vaddr = true ∧ x.2.bytes ≤ size ∧
      (unmapLoop (vaddr + x.2.bytes) (size - x.2.bytes)).run s' = .ok () s'' := by
  rw [EStateM.run, unmapLoop, if_neg h0] at hrun
  have hlift := liftPaging_run (unmapPage vaddr) s
  rw [EStateM.run] at hlift
  rw [hlift] at hrun
  cases hpage : (unmapPage vaddr).run s with
  | error e s₁ => simp only [hpage, reduceCtorEq] at hrun
  | ok x s₁ =>
    simp only [hpage] at hrun
    split_ifs at hrun with hal hle
    simp only [Bool.not_eq_true', Bool.not_eq_false] at hal
    cases hadd : checkedAdd vaddr x.2.bytes with
    | none => simp [hadd] at hrun
    | some next =>
      obtain ⟨-, rfl⟩ := checkedAdd_eq_some.mp hadd
      simp only [hadd] at hrun
      exact ⟨x, s₁, rfl, hal, hle, hrun⟩

/-- **The loop of `map`** fills the paths of its addresses, which are within the address space. -/
theorem mapLoop_fills (hmark : Marked region.flags) (h : Inv s)
    (hrun : (mapLoop region .Size4K vaddr size).run s = .ok () s') :
    Fills pagePath (range vaddr size) (regionEntry region) (pageAt s) (pageAt s') ∧
      (size = 0 ∨ vaddr + size < usizeSize) := by
  -- on the size that is left, for every start
  induction size using Nat.strong_induction_on generalizing vaddr s with
  | _ size ih =>
    by_cases h0 : size = 0
    · rw [mapLoop, if_pos h0] at hrun
      cases hrun
      rw [h0, range_zero]
      exact ⟨.empty _ _ _, .inl rfl⟩
    obtain ⟨hal, hle, hend, a, s₁, hpage, hrest⟩ := mapLoop_ok h0 hrun
    have hkept := mapPage_kept vaddr h (region.mapper.mapFn vaddr) region.flags
    rw [hpage] at hkept
    obtain ⟨hfree, hpages⟩ := mapPage_pageAt h hpage
    rw [inUse_pageEntry hmark] at hpages
    obtain ⟨hfills, hbound⟩ := ih (size - 4096) (by omega) hkept.1.inv hrest
    -- the addresses of the first page share its path and its entry
    have hfirst :
        Fills pagePath (range vaddr 4096) (regionEntry region) (pageAt s) (pageAt s₁) := by
      rw [hpages]
      refine .of_key range_page_nonempty (fun va hva => ?_) (fun va hva => ?_) hfree
      · exact pagePath_of_page hal hva.1 hva.2
      · have hva' : va - va % 4096 = vaddr := by
          have hlo := hva.1
          have hhi := hva.2
          omega
        rw [regionEntry, hva']
    rw [range_eq_union hle]
    exact ⟨hfirst.union hfills, .inr (by omega)⟩

/-- **The loop of `unmap`**, over addresses whose blocks have tables, clears their paths. -/
theorem unmapLoop_clears (h : Inv s)
    (htable : ∀ va ∈ range vaddr size, ∃ f, tableAt s (tablePath va) = some f)
    (hrun : (unmapLoop vaddr size).run s = .ok () s') :
    Clears pagePath (range vaddr size) (pageAt s) (pageAt s') := by
  induction size using Nat.strong_induction_on generalizing vaddr s with
  | _ size ih =>
    by_cases h0 : size = 0
    · rw [EStateM.run, unmapLoop, if_pos h0] at hrun
      cases hrun
      rw [h0, range_zero]
      exact .empty _ _
    obtain ⟨x, s₁, hpage, hal, hle, hrest⟩ := unmapLoop_ok h0 hrun
    obtain ⟨f, hf⟩ := htable vaddr ⟨le_rfl, by omega⟩
    have hkept := unmapPage_kept h hf
    rw [hpage] at hkept
    obtain ⟨hkept, hsize, -⟩ := hkept
    have hbytes : x.2.bytes = 4096 := by rw [hsize]; rfl
    rw [PageSize.isAligned_iff] at hal
    rw [hbytes] at hal hle hrest
    have hpages := unmapPage_pageAt h hf hpage
    have hclears := ih (size - 4096) (by omega) hkept.inv (fun va hva => ?_) hrest
    · have hfirst : Clears pagePath (range vaddr 4096) (pageAt s) (pageAt s₁) := by
        rw [hpages]
        exact .of_key range_page_nonempty fun va hva => pagePath_of_page hal hva.1 hva.2
      rw [range_eq_union hle]
      exact hfirst.union hclears
    · obtain ⟨f', hf'⟩ := htable va ⟨by have := hva.1; omega, by have := hva.2; omega⟩
      exact ⟨f', hkept.table _ _ hf'⟩

/-- **A call of `map`** takes the paths of its region. -/
theorem map_fills (hmark : Marked region.flags) (h : Inv s)
    (hrun : (map region).run s = .ok () s') :
    Fills pagePath (addresses region) (regionEntry region) (pageAt s) (pageAt s') ∧
      (region.size = 0 ∨ region.start + region.size < usizeSize) := by
  rw [map] at hrun
  cases hs : isAligned region.start with
  | false => simp [hvAssert, hs, EStateM.run_bind, EStateM.run_throw] at hrun
  | true =>
    cases hz : isAligned region.size with
    | false => simp [hvAssert, hs, hz, EStateM.run_bind, EStateM.run_throw] at hrun
    | true =>
      simp only [hvAssert, hs, hz, if_true, pure_bind] at hrun
      exact mapLoop_fills hmark h hrun

/-- **A call of `unmap`** frees the paths of its region. -/
theorem unmap_clears (h : Inv s)
    (htable : ∀ va ∈ addresses region, ∃ f, tableAt s (tablePath va) = some f)
    (hrun : (unmap region).run s = .ok () s') :
    Clears pagePath (addresses region) (pageAt s) (pageAt s') :=
  unmapLoop_clears h htable hrun

end Loong

end Hvisor
