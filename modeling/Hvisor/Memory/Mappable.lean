import Hvisor.Memory.AddressSpace

/-!
# Regions that can be inserted in a row

An insertion fails or panics for many reasons: a region that is not aligned, that ends past the
address space or overlaps another one, pages that share a slot, or a lack of frames. For a list of
regions the reasons come down to one condition on the regions and on the set before the first
insertion, so that the insertions need not be followed one by one.

## Main definitions

* `MemorySet.Mappable`: the condition

## Main results

* `MemorySet.Mappable.exists_insert`: the first region can be inserted
* `MemorySet.mappable_cons_iff`: what is left of the condition after the first insertion
-/

namespace Hvisor

open GenericPTE RadixTree

namespace MemorySet

variable {PTE : Type} [GenericPTE PTE] {m m' : MemorySet PTE} {region : MemoryRegion}
  {regions : List MemoryRegion}

/-- **Regions that can be inserted in a row**: they are aligned; those that are not empty end within
the address space, and are apart from each other and from the recorded ones; and there is room for
the pages of all. -/
structure Mappable (m : MemorySet PTE) (regions : List MemoryRegion) : Prop where
  aligned : ∀ r ∈ regions, r.start % 4096 = 0 ∧ r.size % 4096 = 0
  bound : ∀ r ∈ regions, r.size ≠ 0 → r.start + r.size < usizeSize
  free : ∀ r ∈ regions, r.size ≠ 0 → ∀ r', m.Has r' → r'.Disjoint r
  disjoint : regions.Pairwise fun r r' => r.size ≠ 0 → r'.size ≠ 0 → r.Disjoint r'
  room : m.st.Room (regions.flatMap MemoryRegion.pages)

/-- The leaves of regions, one after the other. -/
def allLeaves (m : MemorySet PTE) (regions : List MemoryRegion) : List (Path × PTE) :=
  regions.flatMap m.leavesOf

theorem room_iff_fits : m.st.Room (regions.flatMap MemoryRegion.pages) ↔
    (tree m.st).Fits m.st.free.length (m.allLeaves regions) := by
  apply (fits_iff_room_of_slots _).symm
  rw [allLeaves, List.map_flatMap, List.map_flatMap]
  apply List.flatMap_congr
  intro r _
  exact List.map_map

variable [LawfulGenericPTE PTE]

/-- **The first region can be inserted.** -/
theorem Mappable.exists_insert (h : m.Mappable (region :: regions)) (hs : m.Synced) :
    ∃ m', (insert region).run m = .ok () m' := by
  have hmem : region ∈ region :: regions := List.mem_cons_self
  obtain ⟨hstart, hsize⟩ := h.aligned region hmem
  have hstart' := isAligned_iff.mpr hstart
  by_cases h0 : region.size = 0
  · exact ⟨m, insert_zero hstart' h0⟩
  have hend := h.bound region hmem h0
  have hfree := (hs.wf.testFreeArea_iff hend).mpr (h.free region hmem h0)
  have hfits : (tree m.st).Fits m.st.free.length (m.leavesOf region ++ m.allLeaves regions) :=
    room_iff_fits.mp h.room
  rw [insert_run hstart' (isAligned_iff.mpr hsize) h0, hfree]
  have hspec := mapLoop_spec region hs.inv hstart hsize
  cases hrun : (mapLoop region region.start region.size).run m.st with
  | ok u st => exact ⟨_, rfl⟩
  | error e st =>
    rw [hrun] at hspec
    cases e with
    | panic => exact absurd hend (Nat.not_lt.mpr hspec.2)
    | err e =>
      -- the page that does not fit is one of the region
      obtain ⟨l₁, x, l₂, s₁, hl, -, -, hnot⟩ := hspec
      have hleaves : m.leavesOf region = l₁ ++ x :: l₂ := hl
      rw [hleaves, List.append_assoc, List.cons_append, List.append_cons] at hfits
      exact absurd hfits.of_append hnot

/-- What is left of the condition when a region that is not empty has been inserted. -/
theorem mappable_cons_of_insert (hs : m.Synced) (h0 : region.size ≠ 0)
    (hrun : (insert region).run m = .ok () m') :
    m.Mappable (region :: regions) ↔ m'.Mappable regions := by
  obtain ⟨hstart, hsize, ⟨hzero, -⟩ | ⟨-, hfree, st, hloop, rfl⟩⟩ := insert_ok hrun
  · exact absurd hzero h0
  have hstart := isAligned_iff.mp hstart
  have hsize := isAligned_iff.mp hsize
  have hspec := mapLoop_spec_free region hs.inv hstart hsize
  rw [hloop] at hspec
  obtain ⟨⟨hput, hspent⟩, hend⟩ := hspec
  have hput : Put m.st st (m.leavesOf region) := hput
  have hend : region.start + region.size < usizeSize := hend.resolve_left h0
  have hd : ∀ r, m.Has r → r.Disjoint region := (hs.wf.testFreeArea_iff hend).mp hfree
  have hhas : ∀ r, Has ⟨m.regions.insert region.start region, st⟩ r ↔ r = region ∨ m.Has r :=
    fun r => hs.wf.has_insert hd h0
  -- the leaves of the others, on the tree and the frames after the first region
  have hleaves : allLeaves ⟨m.regions.insert region.start region, st⟩ regions =
      m.allLeaves regions := by
    apply List.flatMap_congr
    intro r _
    rw [leavesOf, leavesOf, hput.level]
  have hroom : m.st.Room ((region :: regions).flatMap MemoryRegion.pages) ↔
      st.Room (regions.flatMap MemoryRegion.pages) := by
    have hspent : st.free.length =
        m.st.free.length - (tree m.st).spent (m.leavesOf region) := hspent
    have hfits : (tree m.st).Fits m.st.free.length (m.leavesOf region ++ m.allLeaves regions) ↔ _ :=
      Tree.fits_append
    have hafter : st.Room (regions.flatMap MemoryRegion.pages) ↔
        (tree st).Fits st.free.length (m.allLeaves regions) := by
      rw [← hleaves]
      exact @room_iff_fits _ _ ⟨m.regions.insert region.start region, st⟩ regions
    rw [← hput.tree_eq, ← hspent, and_iff_right hput.fits] at hfits
    rw [hafter, ← hfits, room_iff_fits, allLeaves, List.flatMap_cons, allLeaves]
  constructor
  · intro h
    obtain ⟨hhead, htail⟩ := List.pairwise_cons.mp h.disjoint
    refine ⟨fun r hr => h.aligned r (List.mem_cons_of_mem _ hr),
      fun r hr => h.bound r (List.mem_cons_of_mem _ hr), fun r hr hne r' hr' => ?_, htail,
      hroom.mp h.room⟩
    rcases (hhas r').mp hr' with rfl | hr'
    · exact hhead r hr h0 hne
    · exact h.free r (List.mem_cons_of_mem _ hr) hne r' hr'
  · intro h
    refine ⟨List.forall_mem_cons.mpr ⟨⟨hstart, hsize⟩, h.aligned⟩,
      List.forall_mem_cons.mpr ⟨fun _ => hend, h.bound⟩,
      List.forall_mem_cons.mpr ⟨fun _ => hd, fun r hr hne r' hr' => ?_⟩,
      List.pairwise_cons.mpr ⟨fun r hr _ hne => ?_, h.disjoint⟩, hroom.mpr h.room⟩
    · exact h.free r hr hne r' ((hhas r').mpr (.inr hr'))
    · exact h.free r hr hne region ((hhas region).mpr (.inl rfl))

end MemorySet

end Hvisor
