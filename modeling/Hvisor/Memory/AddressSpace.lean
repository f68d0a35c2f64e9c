import Hvisor.Arch.S2pt
import Hvisor.Memory.MemorySet

/-!
# The address space of a memory set

What a memory set is for: its regions translate guest-physical addresses. After any history of
successful calls the page table maps exactly the pages of the recorded regions, so that it
translates as the regions do.

## Main definitions

* `MemorySet.WellFormed`: the recorded regions are aligned, bounded and disjoint
* `MemorySet.Synced`: the table maps exactly the recorded regions

## Main results

* `MemorySet.WellFormed.testFreeArea_iff`: comparing with the two neighbours is enough
* `MemorySet.Synced.insert`, `MemorySet.Synced.delete`, `MemorySet.Synced.clear_ok`: the calls
  keep the table in step
* `MemorySet.History.synced`: so does a history of successful calls
* `MemorySet.Synced.leaf_of_mem`, `MemorySet.Synced.no_leaf`: the leaves around an address
-/

namespace Hvisor

open GenericPTE RadixTree

namespace MemorySet

/-! ## Free areas -/

section FreeAreas

variable {PTE : Type} {m : MemorySet PTE} {r r' region : MemoryRegion}

/-- The region is recorded in the set. -/
def Has (m : MemorySet PTE) (r : MemoryRegion) : Prop := r ∈ m.regions.values

/-- **The recorded regions are well formed**: each is kept by its start, is not empty, is aligned
and ends within the address space, and no two overlap. -/
structure WellFormed (m : MemorySet PTE) : Prop where
  key : ∀ k r, (k, r) ∈ m.regions → k = r.start
  aligned : ∀ r, m.Has r → r.start % 4096 = 0 ∧ r.size % 4096 = 0
  nonempty : ∀ r, m.Has r → r.size ≠ 0
  bound : ∀ r, m.Has r → r.start + r.size < usizeSize
  disjoint : ∀ r r', m.Has r → m.Has r' → r ≠ r' → r.Disjoint r'

theorem WellFormed.has_iff (h : m.WellFormed) : m.Has r ↔ (r.start, r) ∈ m.regions := by
  rw [Has, SortedMap.mem_values]
  refine ⟨fun ⟨k, hk⟩ => ?_, fun hr => ⟨_, hr⟩⟩
  rwa [h.key k r hk] at hk

theorem WellFormed.eq_of_start_eq (h : m.WellFormed) (hr : m.Has r) (hr' : m.Has r')
    (he : r.start = r'.start) : r = r' := by
  rw [h.has_iff] at hr hr'
  exact SortedMap.value_unique (he ▸ hr) hr'

/-- The neighbours of a free area do not overlap it. -/
theorem WellFormed.testFreeArea_eq (h : m.WellFormed)
    (hend : region.start + region.size < usizeSize) :
    m.testFreeArea region = some (
      (match m.regions.lastBelow region.start with
        | some (_, before) => decide (before.Disjoint region)
        | none => true) &&
      (match m.regions.firstFrom region.start with
        | some (_, after) => decide (after.Disjoint region)
        | none => true)) := by
  have hbefore : ∀ e, m.regions.lastBelow region.start = some e →
      e.2.isOverlapWith region = some (!decide (e.2.Disjoint region)) := fun e he =>
    MemoryRegion.isOverlapWith_eq
      (h.bound _ (SortedMap.mem_values.mpr ⟨e.1, (SortedMap.lastBelow_eq_some he).1⟩)) hend
  have hafter : ∀ e, m.regions.firstFrom region.start = some e →
      e.2.isOverlapWith region = some (!decide (e.2.Disjoint region)) := fun e he =>
    MemoryRegion.isOverlapWith_eq
      (h.bound _ (SortedMap.mem_values.mpr ⟨e.1, (SortedMap.firstFrom_eq_some he).1⟩)) hend
  unfold testFreeArea
  -- with the ends within the address space, no comparison of two regions overflows
  cases hb : m.regions.lastBelow region.start with
  | none =>
    cases ha : m.regions.firstFrom region.start with
    | none => rfl
    | some e => simp [hafter e ha]
  | some e =>
    cases ha : m.regions.firstFrom region.start with
    | none => cases hd : decide (e.2.Disjoint region) <;> simp [hbefore e hb, hd]
    | some e' =>
      cases hd : decide (e.2.Disjoint region) <;> simp [hbefore e hb, hafter e' ha, hd]

/-- A region that starts no later than the one before the area is before the area too. -/
theorem WellFormed.disjoint_of_before (h : m.WellFormed) {e : Nat × MemoryRegion}
    (he : e ∈ m.regions) (hd : e.2.Disjoint region) (hlt : e.1 < region.start) (hr : m.Has r)
    (hle : r.start ≤ e.1) : r.Disjoint region := by
  obtain ⟨k, b⟩ := e
  obtain rfl : k = b.start := h.key k b he
  have hb : m.Has b := SortedMap.mem_values.mpr ⟨b.start, he⟩
  have hb₀ := h.nonempty b hb
  -- it is that neighbour, or ends before the neighbour starts
  by_cases hrb : r = b
  · exact hrb ▸ hd
  · have hdis := h.disjoint r b hr hb hrb
    unfold MemoryRegion.Disjoint at hd hdis ⊢
    simp only at hd hdis hlt hle ⊢
    omega

/-- A region that starts no earlier than the one after the area is after the area too. -/
theorem WellFormed.disjoint_of_after (h : m.WellFormed) {e : Nat × MemoryRegion}
    (he : e ∈ m.regions) (hd : e.2.Disjoint region) (hge : region.start ≤ e.1)
    (hle : e.1 ≤ r.start) : r.Disjoint region := by
  obtain ⟨k, b⟩ := e
  obtain rfl : k = b.start := h.key k b he
  have hb : m.Has b := SortedMap.mem_values.mpr ⟨b.start, he⟩
  have hb₀ := h.nonempty b hb
  unfold MemoryRegion.Disjoint at hd ⊢
  simp only at hd hge hle ⊢
  omega

/-- **Comparing with the two neighbours is enough.** -/
theorem WellFormed.testFreeArea_iff (h : m.WellFormed)
    (hend : region.start + region.size < usizeSize) :
    m.testFreeArea region = some true ↔ ∀ r, m.Has r → r.Disjoint region := by
  rw [h.testFreeArea_eq hend, Option.some.injEq, Bool.and_eq_true]
  constructor
  · rintro ⟨hb, ha⟩ r hr
    -- each region is on the side of one of the two neighbours, behind it
    rcases Nat.lt_or_ge r.start region.start with hlt | hge
    · cases hl : m.regions.lastBelow region.start with
      | none =>
        exact absurd (SortedMap.lastBelow_eq_none hl (h.has_iff.mp hr)) (by simpa using hlt)
      | some e =>
        rw [hl] at hb
        obtain ⟨he, hlt', hmax⟩ := SortedMap.lastBelow_eq_some hl
        have hle : r.start ≤ e.1 := hmax _ (h.has_iff.mp hr) hlt
        exact h.disjoint_of_before he (of_decide_eq_true hb) hlt' hr hle
    · cases hl : m.regions.firstFrom region.start with
      | none =>
        exact absurd (SortedMap.firstFrom_eq_none hl (h.has_iff.mp hr)) (by simpa using hge)
      | some e =>
        rw [hl] at ha
        obtain ⟨he, hge', hmin⟩ := SortedMap.firstFrom_eq_some hl
        have hle : e.1 ≤ r.start := hmin _ (h.has_iff.mp hr) hge
        exact h.disjoint_of_after he (of_decide_eq_true ha) hge' hle
  · intro hd
    constructor
    · cases hl : m.regions.lastBelow region.start with
      | none => rfl
      | some e =>
        exact decide_eq_true (hd e.2 (SortedMap.mem_values.mpr ⟨e.1,
          (SortedMap.lastBelow_eq_some hl).1⟩))
    · cases hl : m.regions.firstFrom region.start with
      | none => rfl
      | some e =>
        exact decide_eq_true (hd e.2 (SortedMap.mem_values.mpr ⟨e.1,
          (SortedMap.firstFrom_eq_some hl).1⟩))

/-- The recorded regions after a new one. -/
theorem WellFormed.has_insert {st : PtState PTE} (h : m.WellFormed)
    (hd : ∀ r, m.Has r → r.Disjoint region) (h0 : region.size ≠ 0) :
    Has ⟨m.regions.insert region.start region, st⟩ r ↔ r = region ∨ m.Has r := by
  rw [Has, SortedMap.mem_values]
  simp only [SortedMap.mem_insert]
  constructor
  · rintro ⟨k, ⟨-, rfl⟩ | ⟨-, hr⟩⟩
    · exact Or.inl rfl
    · exact Or.inr (SortedMap.mem_values.mpr ⟨k, hr⟩)
  · rintro (rfl | hr)
    · exact ⟨r.start, Or.inl ⟨rfl, rfl⟩⟩
    -- the new region takes the place of none: one with its start would overlap it
    · refine ⟨r.start, Or.inr ⟨fun he => ?_, h.has_iff.mp hr⟩⟩
      have hdis := hd r hr
      have hr₀ := h.nonempty r hr
      unfold MemoryRegion.Disjoint at hdis
      omega

/-- The recorded regions after one is removed. -/
theorem WellFormed.has_erase {st : PtState PTE} (h : m.WellFormed) (hregion : m.Has region) :
    Has ⟨m.regions.erase region.start, st⟩ r ↔ m.Has r ∧ r ≠ region := by
  rw [Has, SortedMap.mem_values]
  simp only [SortedMap.mem_erase]
  constructor
  · rintro ⟨k, hk, hr⟩
    refine ⟨SortedMap.mem_values.mpr ⟨k, hr⟩, fun he => hk ?_⟩
    rw [h.key k r hr, he]
  · rintro ⟨hr, hne⟩
    exact ⟨r.start, fun he => hne (h.eq_of_start_eq hr hregion he), h.has_iff.mp hr⟩

theorem WellFormed.insert {st : PtState PTE} (h : m.WellFormed)
    (hal : region.start % 4096 = 0 ∧ region.size % 4096 = 0) (h0 : region.size ≠ 0)
    (hend : region.start + region.size < usizeSize) (hd : ∀ r, m.Has r → r.Disjoint region) :
    WellFormed ⟨m.regions.insert region.start region, st⟩ := by
  have hhas : ∀ r, Has ⟨m.regions.insert region.start region, st⟩ r ↔ r = region ∨ m.Has r :=
    fun r => h.has_insert hd h0
  refine ⟨fun k r hr => ?_, fun r hr => ?_, fun r hr => ?_, fun r hr => ?_,
    fun r r' hr hr' hne => ?_⟩
  · rcases SortedMap.mem_insert.mp hr with ⟨rfl, rfl⟩ | ⟨-, hr⟩
    · rfl
    · exact h.key k r hr
  · rcases (hhas r).mp hr with rfl | hr
    · exact hal
    · exact h.aligned r hr
  · rcases (hhas r).mp hr with rfl | hr
    · exact h0
    · exact h.nonempty r hr
  · rcases (hhas r).mp hr with rfl | hr
    · exact hend
    · exact h.bound r hr
  · rcases (hhas r).mp hr with rfl | hm <;> rcases (hhas r').mp hr' with rfl | hm'
    · exact absurd rfl hne
    · exact (hd r' hm').symm
    · exact hd r hm
    · exact h.disjoint r r' hm hm' hne

theorem WellFormed.erase {st : PtState PTE} (h : m.WellFormed) (hregion : m.Has region) :
    WellFormed ⟨m.regions.erase region.start, st⟩ := by
  have hhas : ∀ r, Has ⟨m.regions.erase region.start, st⟩ r → m.Has r :=
    fun r hr => ((h.has_erase hregion).mp hr).1
  exact ⟨fun k r hr => h.key k r (SortedMap.mem_erase.mp hr).2, fun r hr => h.aligned r (hhas r hr),
    fun r hr => h.nonempty r (hhas r hr), fun r hr => h.bound r (hhas r hr),
    fun r r' hr hr' hne => h.disjoint r r' (hhas r hr) (hhas r' hr') hne⟩

theorem WellFormed.nodup_values (h : m.WellFormed) : m.regions.values.Nodup := by
  rw [List.Nodup, SortedMap.values, List.pairwise_map]
  refine m.regions.sorted.imp_of_mem fun {a b} ha hb hlt he => ?_
  have hka := h.key a.1 a.2 ha
  have hkb := h.key b.1 b.2 hb
  rw [he, ← hkb] at hka
  exact absurd hka (ne_of_lt hlt)

/-- The tiling of a recorded region by its pages. -/
theorem WellFormed.tiles (h : m.WellFormed) {r : MemoryRegion} (hr : m.Has r) :
    Tiles r r.start (r.start + r.size) r.pages :=
  tiles_pagesFrom (h.aligned r hr).1 (h.aligned r hr).2 (h.bound r hr)

end FreeAreas

/-! ## The table in step with the regions -/

variable {PTE : Type} [GenericPTE PTE] {m m' : MemorySet PTE} {region : MemoryRegion}

/-- The leaves of a region under the table of the set. -/
def leavesOf (m : MemorySet PTE) (r : MemoryRegion) : List (Path × PTE) := r.leaves m.st.pt.level

/-- **The table maps exactly the recorded regions.** -/
structure Synced (m : MemorySet PTE) : Prop where
  inv : m.st.Inv
  wf : m.WellFormed
  leaves : ∀ q a, tree m.st q = .leaf a ↔ ∃ r, m.Has r ∧ (q, a) ∈ m.leavesOf r
  nodup : ∀ r, m.Has r → ((m.leavesOf r).map Prod.fst).Nodup
  apart : ∀ r r' q a a', m.Has r → m.Has r' → (q, a) ∈ m.leavesOf r → (q, a') ∈ m.leavesOf r' →
    r = r'

/-- What a successful insertion of a region leaves: it is recorded, and its pages are mapped. -/
structure Inserted (m : MemorySet PTE) (region : MemoryRegion) (m' : MemorySet PTE) : Prop where
  put : Put m.st m'.st (m.leavesOf region)
  wf : m'.WellFormed
  has : ∀ r, m'.Has r ↔ r = region ∨ m.Has r

namespace Inserted

theorem leavesOf_eq (hi : Inserted m region m') (r : MemoryRegion) :
    m'.leavesOf r = m.leavesOf r := by
  simp only [leavesOf, hi.put.level]

theorem nodup (hi : Inserted m region m')
    (hnodup : ∀ r, m.Has r → ((m.leavesOf r).map Prod.fst).Nodup) {r : MemoryRegion}
    (hr : m'.Has r) : ((m'.leavesOf r).map Prod.fst).Nodup := by
  rw [hi.leavesOf_eq]
  rcases (hi.has r).mp hr with rfl | hm
  · exact hi.put.fits.nodup
  · exact hnodup r hm

/-- The pages of the region are no others, since their slots were clear. -/
theorem apart (hi : Inserted m region m')
    (hleaf : ∀ r, m.Has r → ∀ x ∈ m.leavesOf r, tree m.st x.1 = .leaf x.2)
    (hapart : ∀ r r' q a a', m.Has r → m.Has r' → (q, a) ∈ m.leavesOf r →
      (q, a') ∈ m.leavesOf r' → r = r') {r r' : MemoryRegion} {q : Path} {a a' : PTE}
    (hr : m'.Has r) (hr' : m'.Has r') (hq : (q, a) ∈ m'.leavesOf r)
    (hq' : (q, a') ∈ m'.leavesOf r') : r = r' := by
  -- the slot of a page of the new region was clear, so no other region had its leaf there
  have hclear : ∀ r a a', m.Has r → (q, a) ∈ m.leavesOf region → (q, a') ∉ m.leavesOf r := by
    intro r a a' hr hq hq'
    have hc := (Tree.fits_iff.mp hi.put.fits).1 _ hq
    have ht : tree m.st q = .leaf a' := hleaf r hr _ hq'
    simp [hc.1] at ht
  rw [hi.leavesOf_eq] at hq hq'
  -- either of the two may be the new region
  rcases (hi.has r).mp hr with rfl | hm <;> rcases (hi.has r').mp hr' with rfl | hm'
  · rfl
  · exact absurd hq' (hclear r' a a' hm' hq)
  · exact absurd hq (hclear r a' a hm hq')
  · exact hapart r r' q a a' hm hm' hq hq'

end Inserted

variable [LawfulGenericPTE PTE]

theorem synced_new {level : Nat} {mem : Nat → PTE} {free : List Nat}
    (hframe : ∀ f ∈ free, FrameAddr f) (hnodup : free.Nodup)
    (h : new level mem free = some m) : m.Synced := by
  obtain ⟨hinv, -, hregions, hleaf⟩ := new_spec hframe hnodup h
  have hnone : ∀ r, ¬ m.Has r := fun r hr => by
    rw [Has, hregions, SortedMap.mem_values] at hr
    obtain ⟨k, hk⟩ := hr
    exact SortedMap.not_mem_empty hk
  refine ⟨hinv, ⟨fun k r hr => ?_, fun r hr => absurd hr (hnone r), fun r hr => absurd hr (hnone r),
    fun r hr => absurd hr (hnone r), fun r _ hr => absurd hr (hnone r)⟩, fun q a => ?_,
    fun r hr => absurd hr (hnone r), fun r _ _ _ _ hr => absurd hr (hnone r)⟩
  · exact absurd (SortedMap.mem_values.mpr ⟨k, hr⟩) (hnone r)
  · exact iff_of_false (hleaf q a) fun ⟨r, hr, _⟩ => hnone r hr

omit [LawfulGenericPTE PTE] in
theorem Synced.others (h : m.Synced) (ho : Others m m') : m'.Synced := by
  have htree := ho.tree_eq h.inv
  have hhas : ∀ r, m'.Has r ↔ m.Has r := fun r => by rw [Has, Has, ho.regions]
  have hleaves : ∀ r, m'.leavesOf r = m.leavesOf r := fun r => by rw [leavesOf, leavesOf, ho.pt]
  have hwf := h.wf
  refine ⟨ho.inv h.inv, ⟨?_, ?_, ?_, ?_, ?_⟩, fun q a => ?_, fun r hr => ?_, fun r r' q a a' => ?_⟩
  · exact ho.regions ▸ hwf.key
  · exact fun r hr => hwf.aligned r ((hhas r).mp hr)
  · exact fun r hr => hwf.nonempty r ((hhas r).mp hr)
  · exact fun r hr => hwf.bound r ((hhas r).mp hr)
  · exact fun r r' hr hr' => hwf.disjoint r r' ((hhas r).mp hr) ((hhas r').mp hr')
  · simp only [htree, hhas, hleaves, h.leaves]
  · rw [hleaves]
    exact h.nodup r ((hhas r).mp hr)
  · simp only [hhas, hleaves]
    exact h.apart r r' q a a'

omit [LawfulGenericPTE PTE] in
/-- The same leaves keep the table in step. -/
theorem Synced.sameLeaves {st : PtState PTE} (h : m.Synced) (hs : SameLeaves m.st st) :
    Synced ⟨m.regions, st⟩ := by
  have hleaves : ∀ r, leavesOf ⟨m.regions, st⟩ r = m.leavesOf r := fun r => by
    simp only [leavesOf, hs.level]
  have hwf : WellFormed ⟨m.regions, st⟩ :=
    ⟨h.wf.key, h.wf.aligned, h.wf.nonempty, h.wf.bound, h.wf.disjoint⟩
  refine ⟨hs.inv, hwf, fun q a => ?_, fun r hr => ?_, fun r r' q a a' hr hr' hq hq' => ?_⟩
  · simp only [hleaves]
    exact (hs.leaves q a).trans (h.leaves q a)
  · rw [hleaves]
    exact h.nodup r hr
  · rw [hleaves] at hq hq'
    exact h.apart r r' q a a' hr hr' hq hq'

/-- **A successful insertion** records nothing, or its region. -/
theorem inserted_of_run (hinv : m.st.Inv) (hwf : m.WellFormed)
    (hrun : (insert region).run m = .ok () m') : m' = m ∨ Inserted m region m' := by
  obtain ⟨hs, hz, ⟨h0, rfl⟩ | ⟨h0, hfree, st, hloop, rfl⟩⟩ := insert_ok hrun
  · exact .inl rfl
  have hs := isAligned_iff.mp hs
  have hz := isAligned_iff.mp hz
  have hspec := mapLoop_spec region hinv hs hz
  rw [hloop] at hspec
  obtain ⟨hput, hend⟩ := hspec
  have hend : region.start + region.size < usizeSize := hend.resolve_left h0
  -- `test_free_area` has said that nothing overlaps
  have hd : ∀ r, m.Has r → r.Disjoint region := (hwf.testFreeArea_iff hend).mp hfree
  exact .inr ⟨hput, hwf.insert ⟨hs, hz⟩ h0 hend hd, fun r => hwf.has_insert hd h0⟩

/-- **A successful insertion** keeps the table in step. -/
theorem Synced.insert (h : m.Synced) (hrun : (insert region).run m = .ok () m') : m'.Synced := by
  rcases inserted_of_run h.inv h.wf hrun with rfl | hi
  · exact h
  refine ⟨hi.put.inv, hi.wf, fun q a => ?_, fun r hr => hi.nodup h.nodup hr,
    fun r r' q a a' hr hr' hq hq' => hi.apart (fun r hr x hx => ?_) h.apart hr hr' hq hq'⟩
  · simp only [hi.put.leaf_iff, h.leaves, hi.has, hi.leavesOf_eq]
    constructor
    · rintro (hq | ⟨r, hr, hq⟩)
      · exact ⟨region, Or.inl rfl, hq⟩
      · exact ⟨r, Or.inr hr, hq⟩
    · rintro ⟨r, rfl | hr, hq⟩
      · exact Or.inl hq
      · exact Or.inr ⟨r, hr, hq⟩
  · exact (h.leaves x.1 x.2).mpr ⟨r, hr, hx⟩

/-- Unmapping a recorded region succeeds, and removes its leaves only. -/
theorem Synced.unmap (h : m.Synced) (hr : m.Has region) :
    ∃ st, (unmapLoop region.start region.size).run m.st = .ok () st ∧ st.pt = m.st.pt ∧
      Synced ⟨m.regions.erase region.start, st⟩ := by
  obtain ⟨st, hrun, hinv, hpt, -, htree⟩ := unmapLoop_spec region h.inv
    (h.wf.aligned region hr).1 (h.wf.aligned region hr).2 (h.wf.bound region hr)
    (fun x hx => (h.leaves x.1 x.2).mpr ⟨region, hr, hx⟩) (h.nodup region hr)
  have hhas : ∀ r, Has ⟨m.regions.erase region.start, st⟩ r ↔ m.Has r ∧ r ≠ region :=
    fun r => h.wf.has_erase hr
  have hleaves : ∀ r, leavesOf ⟨m.regions.erase region.start, st⟩ r = m.leavesOf r :=
    fun r => by simp only [leavesOf, hpt]
  refine ⟨st, hrun, hpt, hinv, h.wf.erase hr, fun q a => ?_, fun r hr' => ?_,
    fun r r' q a a' hr₁ hr₂ hq hq' => ?_⟩
  · simp only [htree, h.leaves, hhas, hleaves]
    constructor
    · rintro ⟨hnot, r, hm, hq⟩
      refine ⟨r, ⟨hm, fun he => hnot ?_⟩, hq⟩
      exact List.mem_map.mpr ⟨(q, a), he ▸ hq, rfl⟩
    · rintro ⟨r, ⟨hm, hne⟩, hq⟩
      -- a path belongs to one region, so the leaves of the others are kept
      refine ⟨fun hmem => hne ?_, r, hm, hq⟩
      obtain ⟨⟨q', a'⟩, hx, rfl⟩ := List.mem_map.mp hmem
      exact h.apart r region q' a a' hm hr hq hx
  · rw [hleaves]
    exact h.nodup r ((hhas r).mp hr').1
  · rw [hleaves] at hq hq'
    exact h.apart r r' q a a' ((hhas r).mp hr₁).1 ((hhas r').mp hr₂).1 hq hq'

/-- **Deleting a recorded region** succeeds. -/
theorem Synced.delete_ok (h : m.Synced) (hr : m.Has region) :
    ∃ st, (delete region.start).run m = .ok () ⟨m.regions.erase region.start, st⟩ ∧
      Synced ⟨m.regions.erase region.start, st⟩ := by
  obtain ⟨st, hrun, -, hsync⟩ := h.unmap hr
  refine ⟨st, ?_, hsync⟩
  have hget : m.regions.get? region.start = some region :=
    SortedMap.get?_eq_some.mpr (h.wf.has_iff.mp hr)
  simp only [delete_run, hget, hrun]

/-- A call of `delete` never panics, and keeps the table in step. -/
theorem Synced.delete (h : m.Synced) (start : Nat) :
    match (delete start).run m with
    | .ok _ m' => m'.Synced
    | .error (.err _) m' => m' = m
    | .error .panic _ => False := by
  cases hget : m.regions.get? start with
  | none => simp only [delete_run, hget, hvErrMsg]
  | some r =>
    have hr : m.Has r := SortedMap.mem_values.mpr ⟨start, SortedMap.get?_eq_some.mp hget⟩
    obtain rfl : start = r.start := h.wf.key start r (SortedMap.get?_eq_some.mp hget)
    obtain ⟨st, hrun, hsync⟩ := h.delete_ok hr
    rw [hrun]
    exact hsync

section Clear

variable {P : MemorySet PTE → Prop} (hwf : ∀ m, P m → m.WellFormed)
  (hunmap : ∀ (m : MemorySet PTE) r, P m → m.Has r →
    ∃ st, (unmapLoop r.start r.size).run m.st = .ok () st ∧ P ⟨m.regions.erase r.start, st⟩)
include hwf hunmap

omit [LawfulGenericPTE PTE] in
/-- The loop of `clear` unmaps what is recorded, one region after the other, when unmapping a
recorded region keeps the property. -/
theorem clearLoop_of {l : List MemoryRegion} (hl : l.Nodup) {m₀ : MemorySet PTE}
    (h : P m₀) (hhas : ∀ r, m₀.Has r ↔ r ∈ l) (hst : m.st = m₀.st) :
    ∃ st m₁, (clearLoop l).run m = .ok () ⟨m.regions, st⟩ ∧ P m₁ ∧ m₁.st = st ∧
      ∀ r, ¬ m₁.Has r := by
  -- `m₀` is the set without the regions that were unmapped; the loop itself keeps the map as it is
  induction l generalizing m m₀ with
  | nil => exact ⟨m.st, m₀, rfl, h, hst.symm, fun r hr => by simpa using (hhas r).mp hr⟩
  | cons r l ih =>
    obtain ⟨hr, hl⟩ := List.nodup_cons.mp hl
    have hm : m₀.Has r := (hhas r).mpr List.mem_cons_self
    obtain ⟨st, hrun, hkept⟩ := hunmap m₀ r h hm
    have hhas' : ∀ r', Has ⟨m₀.regions.erase r.start, st⟩ r' ↔ r' ∈ l := by
      intro r'
      rw [(hwf m₀ h).has_erase hm, hhas, List.mem_cons]
      constructor
      · rintro ⟨rfl | hr', hne⟩
        · exact absurd rfl hne
        · exact hr'
      · exact fun hr' => ⟨Or.inr hr', fun he => hr (he ▸ hr')⟩
    obtain ⟨st₁, m₁, hrun₁, hkept₁, hst₁, hnone⟩ := ih (m := { m with st }) hl hkept hhas' rfl
    refine ⟨st₁, m₁, ?_, hkept₁, hst₁, hnone⟩
    have hlift : (unwrap (liftPt (HvPageTable.unmap r))).run m = .ok () { m with st } := by
      have hrun' : (liftPt (HvPageTable.unmap r)).run m = .ok () { m with st } := by
        rw [liftPt_run, HvPageTable.unmap, hst, hrun]
      simp only [EStateM.run] at hrun'
      simp only [EStateM.run, unwrap, hrun']
    rw [clearLoop, EStateM.run_bind, hlift]
    exact hrun₁

omit [LawfulGenericPTE PTE] in
/-- **Clearing succeeds** when unmapping a recorded region does, and keeps the property. -/
theorem clear_of (h : P m) : ∃ st, clear.run m = .ok () ⟨.empty, st⟩ ∧ P ⟨.empty, st⟩ := by
  obtain ⟨st, m₁, hrun, hkept, rfl, hnone⟩ :=
    clearLoop_of hwf hunmap (hwf m h).nodup_values h (fun _ => Iff.rfl) rfl
  refine ⟨m₁.st, ?_, ?_⟩
  · simp only [clear, EStateM.run_bind, EStateM.run_get, hrun, EStateM.run_modify]
  -- no region is left, so the map is the empty one that `clear` stores
  · have hregions : m₁.regions = .empty := by
      refine SortedMap.ext_entries (List.eq_nil_iff_forall_not_mem.mpr fun e he => ?_)
      exact hnone e.2 (SortedMap.mem_values.mpr ⟨e.1, he⟩)
    rw [← hregions]
    exact hkept

end Clear

/-- **Clearing** a set in step succeeds. -/
theorem Synced.clear_ok (h : m.Synced) :
    ∃ st, clear.run m = .ok () ⟨.empty, st⟩ ∧ Synced (⟨.empty, st⟩ : MemorySet PTE) := by
  refine clear_of (fun _ h => h.wf) (fun m r h hr => ?_) h
  obtain ⟨st, hrun, -, hsync⟩ := h.unmap hr
  exact ⟨st, hrun, hsync⟩

/-- **After any history of successful calls the table maps the recorded regions.** -/
theorem History.synced {valid : MemoryRegion → Prop} {level : Nat} (h : History valid level m) :
    m.Synced := by
  induction h with
  | new hframe hnodup h => exact synced_new hframe hnodup h
  | others _ ho ih => exact ih.others ho
  | insert _ _ hrun ih => exact ih.insert hrun
  | @delete m m' start _ hrun ih =>
    have := ih.delete start
    rwa [hrun] at this

/-- The regions after a history have its property, and its level is kept. -/
theorem History.valid {valid : MemoryRegion → Prop} {level : Nat} (h : History valid level m) :
    m.st.pt.level = level ∧ ∀ k r, (k, r) ∈ m.regions → valid r := by
  -- only `insert` adds a region, and no call changes the level
  have hinsert : ∀ {m m' : MemorySet PTE} {region}, (MemorySet.insert region).run m = .ok () m' →
      m.Synced → m'.st.pt.level = m.st.pt.level ∧
        ∀ k r, (k, r) ∈ m'.regions → r = region ∨ (k, r) ∈ m.regions := by
    intro m m' region hrun hsync
    obtain ⟨hs, hz, ⟨-, rfl⟩ | ⟨-, -, st, hloop, rfl⟩⟩ := insert_ok hrun
    · exact ⟨rfl, fun k r hr => Or.inr hr⟩
    · have hspec := mapLoop_spec region hsync.inv (isAligned_iff.mp hs)
        (isAligned_iff.mp hz)
      rw [hloop] at hspec
      refine ⟨hspec.1.level, fun k r hr => ?_⟩
      rcases SortedMap.mem_insert.mp hr with ⟨-, rfl⟩ | ⟨-, hr⟩
      · exact Or.inl rfl
      · exact Or.inr hr
  induction h with
  | new hframe hnodup h =>
    obtain ⟨-, hl, hregions, -⟩ := new_spec hframe hnodup h
    refine ⟨hl, fun k r hr => ?_⟩
    rw [hregions] at hr
    exact absurd hr SortedMap.not_mem_empty
  | others _ ho ih => exact ⟨ho.pt ▸ ih.1, ho.regions ▸ ih.2⟩
  | insert hm hvalid hrun ih =>
    obtain ⟨hl, hreg⟩ := hinsert hrun hm.synced
    refine ⟨hl.trans ih.1, fun k r hr => ?_⟩
    rcases hreg k r hr with rfl | hr
    · exact hvalid
    · exact ih.2 k r hr
  | @delete m m' start hm hrun ih =>
    obtain ⟨region, st, -, hloop, rfl⟩ := delete_ok hrun
    have hpt := (@unmapLoop_inv region.start region.size PTE _ m.st _ hm.synced.inv).2
    rw [hloop] at hpt
    refine ⟨?_, fun k r hr => ih.2 k r (SortedMap.mem_erase.mp hr).2⟩
    exact (congrArg HvPageTable.level hpt).trans ih.1

/-! ## The leaves around an address -/

omit [LawfulGenericPTE PTE] in
/-- An address of a recorded region is served by the leaf of a page around it. -/
theorem Synced.leaf_of_mem (h : m.Synced) {r : MemoryRegion} (hr : m.Has r) {va : Nat}
    (hva : r.Mem va) : ∃ p ∈ r.pages, p.Mem va ∧
      tree m.st (pagePath m.st.pt.level p.size va) =
        .leaf (leafEntry (r.mapper.mapFn p.vaddr) r.flags p.size) := by
  have ht := h.wf.tiles hr
  obtain ⟨p, hp, hm⟩ := ht.exists_page hva.1 hva.2
  refine ⟨p, hp, hm, ?_⟩
  rw [pagePath_congr ((Page.mem_iff (ht.mem hp).1).mp hm), h.leaves]
  exact ⟨r, hr, List.mem_map_of_mem hp⟩

omit [LawfulGenericPTE PTE] in
/-- An address outside the recorded regions has no leaf around it, when all are in range. -/
theorem Synced.no_leaf (h : m.Synced)
    (hrange : ∀ r, m.Has r → r.start + r.size ≤ 2 ^ (12 + 9 * m.st.pt.level)) {va : Nat}
    (hva : va < 2 ^ (12 + 9 * m.st.pt.level)) (hn : ∀ r, m.Has r → ¬ r.Mem va) (ps : PageSize)
    (a : PTE) : tree m.st (pagePath m.st.pt.level ps va) ≠ .leaf a := by
  intro hl
  obtain ⟨r, hr, hmem⟩ := (h.leaves _ _).mp hl
  obtain ⟨p, hp, hpe⟩ := List.mem_map.mp hmem
  have ht := h.wf.tiles hr
  obtain ⟨hal, hlo, hhi, -⟩ := ht.mem hp
  have hpos := p.size.bytes_pos
  have hpath : pagePath m.st.pt.level p.size p.vaddr = pagePath m.st.pt.level ps va :=
    (Prod.mk.inj hpe).1
  obtain rfl : p.size = ps := pagePath_inj h.inv.level hpath
  have hdiv := div_eq_of_pagePath_eq h.inv.level (by have := hrange r hr; omega) hva hpath
  have hm : p.Mem va := (Page.mem_iff hal).mpr hdiv.symm
  exact hn r hr ⟨hlo.trans hm.1, hm.2.trans_le hhi⟩

end MemorySet

end Hvisor
