import Hvisor.Memory.MemorySet

/-!
# What the page table writes

The calls of a memory set write the entries of its own tables and zero the frames that become
tables. Every other word of the memory is kept, and a property that holds of all entries stays
one, when a zeroed word, an entry for a table and an entry for a page have it.

## Main definitions

* `Wrote`: what a computation of the page table may have written

## Main results

* `wrote_mapPage`, `wrote_unmapPage`: one page
* `wrote_mapLoop`, `wrote_unmapLoop`: a region
* `MemorySet.wrote_insert`, `MemorySet.wrote_delete`: one call, however it ends
-/

namespace Hvisor

open GenericPTE RadixTree

variable {PTE : Type} {Q : PTE → Prop} {s s' s'' : PtState PTE}

/-- The word at the address is an entry of the frame. -/
def InFrame (f a : Nat) : Prop := f ≤ a ∧ a < f + pageSize

/-- The property holds of all entries of the tables. -/
def PtState.AllEntries (Q : PTE → Prop) (s : PtState PTE) : Prop :=
  ∀ f ∈ s.frames, ∀ i, Q (s.mem (entryPtr f i))

/-- **What a computation of the page table may have written**: it keeps its tables and takes more
from the free frames, and it writes entries with the property into its tables only. -/
structure Wrote (Q : PTE → Prop) (s s' : PtState PTE) : Prop where
  root : s'.pt.root = s.pt.root
  frames : ∀ f ∈ s.frames, f ∈ s'.frames
  taken : ∀ f ∈ s'.frames, f ∈ s.frames ∨ f ∈ s.free
  free : ∀ f ∈ s'.free, f ∈ s.free
  mem : ∀ a, (∀ f ∈ s'.frames, ¬ InFrame f a) → s'.mem a = s.mem a
  entries : s.AllEntries Q → s'.AllEntries Q

theorem Wrote.refl (s : PtState PTE) : Wrote Q s s :=
  ⟨rfl, fun _ hf => hf, fun _ hf => .inl hf, fun _ hf => hf, fun _ _ => rfl, fun h => h⟩

theorem Wrote.trans (h : Wrote Q s s') (h' : Wrote Q s' s'') : Wrote Q s s'' := by
  refine ⟨h'.root.trans h.root, fun f hf => h'.frames f (h.frames f hf), fun f hf => ?_,
    fun f hf => h.free f (h'.free f hf), fun a ha => ?_, fun hq => h'.entries (h.entries hq)⟩
  · rcases h'.taken f hf with hf | hf
    · exact h.taken f hf
    · exact .inr (h.free f hf)
  · rw [h'.mem a ha]
    exact h.mem a fun f hf => ha f (h'.frames f hf)

theorem inFrame_entryPtr (f : Nat) (i : Fin entryCount) : InFrame f (entryPtr f i) := by
  have hi := i.isLt
  simp only [InFrame, entryPtr, pageSize, entryCount] at hi ⊢
  omega

/-- The entries of another frame. -/
theorem not_inFrame_entryPtr {f g : Nat} (hf : f % 4096 = 0) (hg : g % 4096 = 0) (hne : f ≠ g)
    (i : Fin entryCount) : ¬ InFrame g (entryPtr f i) := by
  have hi := i.isLt
  simp only [InFrame, entryPtr, pageSize, entryCount] at hi ⊢
  omega

/-! ## One entry -/

variable [GenericPTE PTE]

section Entry

omit [GenericPTE PTE] in
@[simp] theorem setEntry_mem (entry : Nat) (e : PTE) :
    (s.setEntry entry e).mem = Function.update s.mem entry e := rfl

@[simp] theorem addTable_mem (entry g : Nat) (free : List Nat) :
    (s.addTable entry g free).mem =
      Function.update (zeroFrame s.mem g) entry (setTable (s.mem entry) g) := rfl

variable {f g : Nat} {i : Fin entryCount} {e : PTE} {free : List Nat}

omit [GenericPTE PTE] in
/-- An entry with the property, written into a table. -/
theorem wrote_setEntry (hf : f ∈ s.frames) (he : Q e) :
    Wrote Q s (s.setEntry (entryPtr f i) e) := by
  refine ⟨rfl, fun _ hg => hg, fun _ hg => .inl hg, fun _ hg => hg, fun a ha => ?_,
    fun hq g hg j => ?_⟩
  · apply Function.update_of_ne
    rintro rfl
    exact ha f hf (inFrame_entryPtr f i)
  · by_cases hji : entryPtr g j = entryPtr f i
    · rw [setEntry_mem, hji, Function.update_self]
      exact he
    · rw [setEntry_mem, Function.update_of_ne hji]
      exact hq g hg j

/-- A zeroed frame under an entry. -/
theorem wrote_addTable (hfree : s.free = g :: free) (hf : f ∈ s.frames)
    (hunused : s.mem (entryPtr f i) = zero) (hzero : Q zero) (htable : Q (setTable zero g)) :
    Wrote Q s (s.addTable (entryPtr f i) g free) := by
  have hframes : ∀ a, a ∈ (s.addTable (entryPtr f i) g free).frames ↔ a ∈ s.frames ∨ a = g := by
    intro a
    simp [PtState.frames, PtState.addTable, PtState.setEntry, or_assoc]
  refine ⟨rfl, fun a ha => (hframes a).mpr (.inl ha), fun a ha => ?_, fun a ha => ?_,
    fun a ha => ?_, fun hq k hk j => ?_⟩
  · rcases (hframes a).mp ha with ha | rfl
    · exact .inl ha
    · exact .inr (hfree ▸ List.mem_cons_self)
  · exact hfree ▸ List.mem_cons_of_mem g ha
  · have hne : a ≠ entryPtr f i := by
      rintro rfl
      exact ha f ((hframes f).mpr (.inl hf)) (inFrame_entryPtr f i)
    rw [addTable_mem, Function.update_of_ne hne]
    exact if_neg (ha g ((hframes g).mpr (.inr rfl)))
  · by_cases hkj : entryPtr k j = entryPtr f i
    · rw [addTable_mem, hkj, Function.update_self, hunused]
      exact htable
    · rw [addTable_mem, Function.update_of_ne hkj]
      unfold zeroFrame
      split_ifs with hin
      · exact hzero
      · rcases (hframes k).mp hk with hk | rfl
        · exact hq k hk j
        · exact absurd (inFrame_entryPtr k j) hin

end Entry

/-! ## One page -/

/-- **The entries that the page table writes** have the property: a zeroed word, an entry for a
table, and an entry for a page. -/
structure Writable (Q : PTE → Prop) : Prop where
  zero : Q zero
  table : ∀ f, FrameAddr f → Q (setTable GenericPTE.zero f)
  leaf : ∀ paddr fl ps, Q (leafEntry paddr fl ps)

variable [LawfulGenericPTE PTE]

/-- The step of the descent. -/
theorem wrote_nextTable (hw : Writable Q) (h : s.Inv) {f : Nat} (hf : f ∈ s.frames)
    (i : Fin entryCount) : Wrote Q s (endState ((nextTableMutOrCreate (entryPtr f i)).run s)) := by
  cases hu : isUnused (s.mem (entryPtr f i)) with
  | false =>
    rw [nextTableMutOrCreate_used hu]
    cases nextTableMut (s.mem (entryPtr f i)) <;> exact .refl s
  | true =>
    cases hfree : s.free with
    | nil =>
      rw [nextTableMutOrCreate_noMemory hu hfree]
      exact .refl s
    | cons g free =>
      rw [nextTableMutOrCreate_create hu hfree]
      have hg : FrameAddr g := (h.free_frame g (hfree ▸ List.mem_cons_self)).1
      exact wrote_addTable hfree hf ((isUnused_iff _).mp hu) hw.zero (hw.table g hg)

theorem wrote_descend (hw : Writable Q) (h : s.Inv) : ∀ p : Path, p.length < s.pt.level →
    Wrote Q s (endState ((descend p).run s)) := by
  intro p
  induction p with
  | nil => exact fun _ => .refl s
  | cons i p ih =>
    intro hlen
    have hlen' : p.length < s.pt.level := by
      simp only [List.length_cons] at hlen
      omega
    have ih := ih hlen'
    have hspec := descend_spec h p hlen'
    rw [descend, EStateM.run_bind]
    cases hrun : (descend p).run s with
    | error e s₁ => simpa only [hrun] using ih
    | ok f s₁ =>
      rw [hrun] at ih hspec
      obtain ⟨hd, hp⟩ := hspec
      exact ih.trans (wrote_nextTable hw hd.inv (hd.inv.owned p f hp) i)

/-- **Mapping a page**, however it ends. -/
theorem wrote_mapPage (hw : Writable Q) (h : s.Inv) (page : Page) (paddr : Nat) (fl : MemFlags) :
    Wrote Q s (endState ((mapPage page paddr fl).run s)) := by
  obtain ⟨hlen, -⟩ := tablePath_length page.size page.vaddr h.level
  have hspec := descend_spec h _ hlen
  have hwrote := wrote_descend hw h _ hlen
  rw [mapPage, EStateM.run_bind, getEntryMutOrCreate_run, EStateM.run_bind]
  cases hrun : (descend (tablePath s.pt.level page.size page.vaddr)).run s with
  | error e s₁ => simpa only [hrun] using hwrote
  | ok f s₁ =>
    rw [hrun] at hspec hwrote
    obtain ⟨hd, hp⟩ := hspec
    simp only [EStateM.run_pure, EStateM.run_bind, EStateM.run_get]
    cases hu : isUnused (s₁.mem (entryPtr f (pageIndex page.size page.vaddr))) with
    | false => exact hwrote
    | true =>
      simp only [Bool.not_true, Bool.false_eq_true, if_false]
      rw [writeLeaf_run ((isUnused_iff _).mp hu)]
      exact hwrote.trans (wrote_setEntry (hd.inv.owned _ f hp) (hw.leaf _ _ _))

/-- **Unmapping a page**, however it ends. -/
theorem wrote_unmapPage (hw : Writable Q) (h : s.Inv) (va : Nat) :
    Wrote Q s (endState ((unmapPage va).run s)) := by
  simp only [unmapPage, EStateM.run]
  rcases getEntryMut_cases h va with ⟨ps, f, hget, hp, -⟩ | ⟨hget, -⟩
  · simp only [hget]
    split_ifs with hu
    · exact .refl s
    · rw [clear_eq]
      exact wrote_setEntry (h.owned _ f hp) hw.zero
  · simp only [hget]
    exact .refl s

/-! ## A region -/

variable {vaddr size : Nat}

/-- **Mapping a region**, however it ends. -/
theorem wrote_mapLoop (hw : Writable Q) (region : MemoryRegion) (h : s.Inv) :
    Wrote Q s (endState ((mapLoop region vaddr size).run s)) := by
  induction size using Nat.strong_induction_on generalizing vaddr s with
  | _ size ih =>
    by_cases h0 : size = 0
    · rw [mapLoop, if_pos h0]
      exact .refl s
    set paddr := region.mapper.mapFn vaddr with hpaddr
    set ps := choosePageSize vaddr paddr size region.flags with hps
    have hpos := ps.bytes_pos
    rw [mapLoop, if_neg h0]
    simp only [← hpaddr, ← hps, hvAssert]
    cases hal : ps.isAligned vaddr with
    | false => exact .refl s
    | true =>
      simp only [if_true, pure_bind, EStateM.run_bind, liftPaging_run]
      have hmap := mapPage_spec h ⟨vaddr, ps⟩ paddr region.flags
      have hwrote := wrote_mapPage hw h ⟨vaddr, ps⟩ paddr region.flags
      cases hrun : (mapPage ⟨vaddr, ps⟩ paddr region.flags).run s with
      | error e s₁ =>
        rw [hrun] at hwrote
        exact hwrote
      | ok a s₁ =>
        rw [hrun] at hmap hwrote
        simp only
        -- the loop goes on from the state with the page, unless the addresses end
        cases checkedAdd vaddr ps.bytes with
        | none => exact hwrote
        | some next =>
          simp only
          split_ifs with hle
          · exact hwrote.trans (ih (size - ps.bytes) (by omega) hmap.1.inv)
          · exact hwrote

/-- **Unmapping a region**, however it ends. -/
theorem wrote_unmapLoop (hw : Writable Q) (h : s.Inv) :
    Wrote Q s (endState ((unmapLoop vaddr size).run s)) := by
  induction size using Nat.strong_induction_on generalizing vaddr s with
  | _ size ih =>
    rw [EStateM.run, unmapLoop]
    split_ifs with h0
    · exact .refl s
    have hinv := unmapPage_inv h vaddr
    have hwrote := wrote_unmapPage hw h vaddr
    have hlift := liftPaging_run (unmapPage vaddr) s
    rw [EStateM.run] at hlift
    rw [hlift]
    cases hrun : (unmapPage vaddr).run s with
    | error e s₁ =>
      rw [hrun] at hwrote
      exact hwrote
    | ok a s₁ =>
      rw [hrun] at hinv hwrote
      have hpos := a.2.bytes_pos
      simp only
      split_ifs
      · exact hwrote
      · cases checkedAdd vaddr a.2.bytes with
        | none => exact hwrote
        | some next => exact hwrote.trans (ih (size - a.2.bytes) (by omega) hinv.1)
      · exact hwrote

/-! ## One call -/

namespace MemorySet

variable {m : MemorySet PTE}

/-- **A call of `insert`**, however it ends. -/
theorem wrote_insert (hw : Writable Q) (region : MemoryRegion) (h : m.st.Inv) :
    Wrote Q m.st (endState ((insert region).run m)).st := by
  rcases insert_table region m with he | ⟨-, -, he⟩
  · rw [he]
    exact .refl m.st
  · rw [he]
    exact wrote_mapLoop hw region h

/-- **A call of `delete`**, however it ends. -/
theorem wrote_delete (hw : Writable Q) (start : Nat) (h : m.st.Inv) :
    Wrote Q m.st (endState ((delete start).run m)).st := by
  rcases delete_table start m with he | ⟨region, he⟩
  · rw [he]
    exact .refl m.st
  · rw [he]
    exact wrote_unmapLoop hw h

end MemorySet

end Hvisor
