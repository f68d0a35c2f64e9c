import Hvisor.Memory.Mappable
import Hvisor.Memory.TableCost

/-!
# Insertions whose errors are ignored

A list of regions is inserted one after the other, and an error of an insertion is dropped. A panic
is not, and so the insertions return exactly when none of them panics in the set that those before
it have left. Regions of the list may be equal, and then those after the first one fail; two regions
that are not equal are apart. All of the regions are mapped at the end exactly when there was room
for their pages at the start: the slots of the pages are clear, and the frames last for the tables.

## Main definitions

* `MemorySet.insertEach`: the insertions
* `MemorySet.Attemptable`, `MemorySet.AllAttemptable`: one insertion, and a row of them, that return
* `MemorySet.Insertable`: regions that are equal or apart, beside the recorded ones
* `MemorySet.HasRoom`: room for their pages

## Main results

* `MemorySet.insertEach_returns_iff`: when the insertions return
* `MemorySet.insertEach_ok`: the insertions return, and only put leaves of the regions
* `MemorySet.insertEach_has`: with room for the pages all regions are recorded
* `MemorySet.hasRoom_of_insertEach`: if all addresses have leaves at the end, there was room
-/

namespace Hvisor

open GenericPTE RadixTree

/-- `Result::ok`: an error is dropped; a panic is not. -/
def ignoreErr {σ : Type} (x : EStateM (Fault HvError) σ Unit) : EStateM (Fault HvError) σ Unit :=
  fun s =>
    match x s with
    | .error (.err _) s' => .ok () s'
    | res => res

theorem ignoreErr_run {σ : Type} (x : EStateM (Fault HvError) σ Unit) (s : σ) :
    (ignoreErr x).run s = match x.run s with
      | .error (.err _) s' => .ok () s'
      | res => res := rfl

namespace MemorySet

variable {PTE : Type} [GenericPTE PTE] {m m' : MemorySet PTE} {region : MemoryRegion}
  {l : List MemoryRegion}

/-- Insert regions one after the other. -/
def insertEach : List MemoryRegion → MemorySetM PTE Unit
  | [] => return ()
  | region :: regions => do
    ignoreErr (insert region)
    insertEach regions

/-- The regions of a list that are not seen before, each once. -/
def unseen (seen : List MemoryRegion) : List MemoryRegion → List MemoryRegion
  | [] => []
  | region :: regions =>
    if region ∈ seen then unseen seen regions else region :: unseen (region :: seen) regions

theorem mem_unseen {seen : List MemoryRegion} {r : MemoryRegion} :
    r ∈ unseen seen l ↔ r ∈ l ∧ r ∉ seen := by
  -- by induction on the list, for all that may be seen before
  induction l generalizing seen with
  | nil => simp [unseen]
  | cons region l ih =>
    rw [unseen]
    split
    · next hin =>
      rw [ih, List.mem_cons]
      constructor
      · exact fun h => ⟨.inr h.1, h.2⟩
      · rintro ⟨rfl | hr, hnot⟩
        · exact absurd hin hnot
        · exact ⟨hr, hnot⟩
    · next hnot =>
      rw [List.mem_cons, ih, List.mem_cons, List.mem_cons]
      constructor
      · rintro (rfl | ⟨hr, hns⟩)
        · exact ⟨.inl rfl, hnot⟩
        · exact ⟨.inr hr, fun h => hns (.inr h)⟩
      · rintro ⟨hr, hns⟩
        by_cases he : r = region
        · exact .inl he
        · exact .inr ⟨hr.resolve_left he, fun h => h.elim he hns⟩

theorem nodup_unseen (seen l : List MemoryRegion) : (unseen seen l).Nodup := by
  induction l generalizing seen with
  | nil => exact List.nodup_nil
  | cons region l ih =>
    rw [unseen]
    split
    · exact ih seen
    · refine List.nodup_cons.mpr ⟨fun h => ?_, ih _⟩
      exact (mem_unseen.mp h).2 List.mem_cons_self

/-- **Regions that can be inserted into a set**: aligned, not empty, within the addresses that the
table translates, beside the recorded regions, and equal to each other or apart. -/
structure Insertable (m : MemorySet PTE) (l : List MemoryRegion) : Prop where
  aligned : ∀ r ∈ l, r.start % 4096 = 0 ∧ r.size % 4096 = 0
  nonempty : ∀ r ∈ l, r.size ≠ 0
  bound : ∀ r ∈ l, r.start + r.size ≤ 2 ^ (12 + 9 * m.st.pt.level)
  free : ∀ r ∈ l, ∀ r', m.Has r' → r'.Disjoint r
  apart : ∀ r ∈ l, ∀ r' ∈ l, r ≠ r' → r.Disjoint r'

/-- **Room for the pages of regions**: the slot of every page is clear, and the frames last for the
tables. -/
structure HasRoom (m : MemorySet PTE) (l : List MemoryRegion) : Prop where
  clear : ∀ r ∈ l, ∀ p ∈ r.pages, (tree m.st).Clear (p.slot m.st.pt.level)
  frames : m.st.tablesNeeded (l.flatMap MemoryRegion.pages) ≤ m.st.free.length

/-! ## One insertion -/

theorem two_pow_level_lt {level : Nat} (hl : level = 3 ∨ level = 4) :
    2 ^ (12 + 9 * level) < usizeSize := by
  rcases hl with rfl | rfl <;> decide

theorem Insertable.bound_lt (hl : m.Insertable l) (hinv : m.st.Inv) {r : MemoryRegion}
    (hr : r ∈ l) : r.start + r.size < usizeSize :=
  (hl.bound r hr).trans_lt (two_pow_level_lt hinv.level)

theorem Insertable.tiles (hl : m.Insertable l) (hinv : m.st.Inv) {r : MemoryRegion} (hr : r ∈ l) :
    Tiles r r.start (r.start + r.size) r.pages :=
  tiles_pagesFrom (hl.aligned r hr).1 (hl.aligned r hr).2 (hl.bound_lt hinv hr)

/-- Each region once, when there is room. -/
theorem HasRoom.mappable (h : m.HasRoom l) (hinv : m.st.Inv) (hl : m.Insertable l) :
    m.Mappable (unseen [] l) := by
  have hmem : ∀ {r}, r ∈ unseen [] l → r ∈ l := fun h => (mem_unseen.mp h).1
  refine ⟨fun r hr => hl.aligned r (hmem hr), fun r hr _ => hl.bound_lt hinv (hmem hr),
    fun r hr _ => hl.free r (hmem hr), ?_, ?_, ?_, ?_⟩
  · apply (nodup_unseen [] l).imp_of_mem
    intro r r' hr hr' hne _ _
    exact hl.apart r (hmem hr) r' (hmem hr') hne
  · intro p hp
    obtain ⟨r, hr, hp⟩ := List.mem_flatMap.mp hp
    exact h.clear r (hmem hr) p hp
  · rw [List.pairwise_flatMap]
    constructor
    · intro r hr
      exact (hl.tiles hinv (hmem hr)).apart hinv.level (hl.bound r (hmem hr))
    · apply (nodup_unseen [] l).imp_of_mem
      intro r r' hr hr' hne p hp p' hp'
      obtain ⟨hal, hlo, hhi, -⟩ := (hl.tiles hinv (hmem hr)).mem hp
      obtain ⟨hal', hlo', hhi', -⟩ := (hl.tiles hinv (hmem hr')).mem hp'
      have hb := hl.bound r (hmem hr)
      have hb' := hl.bound r' (hmem hr')
      -- one of the regions is behind the other
      rcases hl.apart r (hmem hr) r' (hmem hr') hne with hd | hd
      · exact Page.slot_apart hinv.level hal hal' (by omega) (by omega)
      · exact (Page.slot_apart hinv.level hal' hal (by omega) (by omega)).symm
  · refine (Finset.card_le_card fun q hq => ?_).trans h.frames
    obtain ⟨q', hq', hsuffix, he⟩ := Tree.mem_holesAll.mp hq
    refine Tree.mem_holesAll.mpr ⟨q', ?_, hsuffix, he⟩
    obtain ⟨p, hp, rfl⟩ := List.mem_map.mp hq'
    obtain ⟨r, hr, hp⟩ := List.mem_flatMap.mp hp
    exact List.mem_map_of_mem (List.mem_flatMap.mpr ⟨r, hmem hr, hp⟩)

/-- A region that is recorded already is not inserted again. -/
theorem insert_of_has (hwf : m.WellFormed) (hr : m.Has region) :
    (ignoreErr (insert region)).run m = .ok () m := by
  obtain ⟨hstart, hsize⟩ := hwf.aligned region hr
  have h0 := hwf.nonempty region hr
  have hend := hwf.bound region hr
  have hfree : m.testFreeArea region = some false := by
    have heq := hwf.testFreeArea_eq hend
    cases hfree : m.testFreeArea region with
    | none =>
      rw [hfree] at heq
      cases heq
    | some free =>
      cases free with
      | false => rfl
      | true =>
        -- it is not apart from itself
        have hd := (hwf.testFreeArea_iff hend).mp hfree region hr
        unfold MemoryRegion.Disjoint at hd
        omega
  rw [ignoreErr_run, insert_run (isAligned_iff.mpr hstart) (isAligned_iff.mpr hsize) h0, hfree]
  rfl

/-- Before the insertions, no leaf is around an address of a region. -/
theorem Insertable.no_leaf (hl : m.Insertable l) (hs : m.Synced)
    (hrange : ∀ r, m.Has r → r.start + r.size ≤ 2 ^ (12 + 9 * m.st.pt.level)) {r : MemoryRegion}
    (hr : r ∈ l) {va : Nat} (hva : r.Mem va) :
    ∀ ps a, tree m.st (pagePath m.st.pt.level ps va) ≠ .leaf a := by
  intro ps a
  apply hs.no_leaf hrange
  · have hb := hl.bound r hr
    unfold MemoryRegion.Mem at hva
    omega
  · intro r' hr' hm
    exact (hl.free r hr r' hr').not_mem hm hva

/-- A page whose address has a leaf at the end has one in its slot: a leaf that was made is that of
a page of the region, and there is one page around the address. -/
theorem Insertable.leaf_slot (hl : m.Insertable l) (hs : m.Synced)
    (hrange : ∀ r, m.Has r → r.start + r.size ≤ 2 ^ (12 + 9 * m.st.pt.level))
    (hleaves : ∀ q a, tree m'.st q = .leaf a →
      tree m.st q = .leaf a ∨ ∃ r ∈ l, (q, a) ∈ m.leavesOf r)
    (hall : ∀ r ∈ l, ∀ va, r.Mem va → ∃ ps a, tree m'.st (pagePath m.st.pt.level ps va) = .leaf a)
    {r : MemoryRegion} (hr : r ∈ l) {p : Page} (hp : p ∈ r.pages) :
    ∃ a, tree m'.st (p.slot m.st.pt.level) = .leaf a := by
  have htiles := hl.tiles hs.inv hr
  obtain ⟨hal, hlo, hhi, -⟩ := htiles.mem hp
  have hpos := p.size.bytes_pos
  have hva : r.Mem p.vaddr := ⟨hlo, by omega⟩
  obtain ⟨ps, a, hleaf⟩ := hall r hr _ hva
  rcases hleaves _ a hleaf with hold | ⟨r', hr', hmem⟩
  · exact absurd hold (hl.no_leaf hs hrange hr hva ps a)
  -- the leaf is that of a page of the region, and there is one page around the address
  obtain ⟨p', hp', hpe⟩ := List.mem_map.mp hmem
  have htiles' := hl.tiles hs.inv hr'
  obtain ⟨hal', hlo', hhi', -⟩ := htiles'.mem hp'
  have hpos' := p'.size.bytes_pos
  have hb := hl.bound r hr
  have hb' := hl.bound r' hr'
  have hpath : pagePath m.st.pt.level p'.size p'.vaddr = pagePath m.st.pt.level ps p.vaddr :=
    (Prod.mk.inj hpe).1
  obtain rfl : p'.size = ps := pagePath_inj hs.inv.level hpath
  have hdiv := div_eq_of_pagePath_eq hs.inv.level (by omega) (by omega) hpath
  have hm : p'.Mem p.vaddr := (Page.mem_iff hal').mpr hdiv.symm
  -- two different regions are apart, and the address is in both
  obtain rfl : r = r' := by
    by_contra hne
    exact (hl.apart r hr r' hr' hne).not_mem hva ⟨hlo'.trans hm.1, hm.2.trans_le hhi'⟩
  obtain rfl : p = p' := htiles.eq_of_mem hp hp' ⟨le_rfl, by omega⟩ hm
  exact ⟨a, hleaf⟩

/-! ## When the insertions return -/

omit [GenericPTE PTE] in
theorem testFreeArea_of_not_has (h : ∀ r, ¬ m.Has r) : m.testFreeArea region = some true := by
  have hnot : ∀ e, e ∉ m.regions := fun e he => h e.2 (SortedMap.mem_values.mpr ⟨e.1, he⟩)
  rw [testFreeArea]
  cases hb : m.regions.lastBelow region.start with
  | some e => exact absurd (SortedMap.lastBelow_eq_some hb).1 (hnot e)
  | none =>
    cases ha : m.regions.firstFrom region.start with
    | some e => exact absurd (SortedMap.firstFrom_eq_some ha).1 (hnot e)
    | none => rfl

omit [GenericPTE PTE] in
/-- A region that ends past the address space cannot be compared with another one. -/
theorem testFreeArea_of_past (hend : usizeSize ≤ region.start + region.size) (h : ∃ r, m.Has r) :
    m.testFreeArea region = none := by
  have hoverlap : ∀ r : MemoryRegion, r.isOverlapWith region = none := fun r => by
    have hsum : checkedAdd region.start region.size = none := if_neg (Nat.not_lt.mpr hend)
    simp only [MemoryRegion.isOverlapWith, hsum]
    cases checkedAdd r.start r.size <;> rfl
  obtain ⟨r, hr⟩ := h
  obtain ⟨k, hk⟩ := SortedMap.mem_values.mp hr
  rw [testFreeArea]
  cases hb : m.regions.lastBelow region.start with
  | some e =>
    obtain ⟨k', before⟩ := e
    simp only [hoverlap]
  | none =>
    cases ha : m.regions.firstFrom region.start with
    | some e =>
      obtain ⟨k', after⟩ := e
      simp only [hoverlap]
      rfl
    | none =>
      -- the recorded region is on one of the two sides
      exact absurd (SortedMap.firstFrom_eq_none ha hk)
        (Nat.not_lt.mpr (SortedMap.lastBelow_eq_none hb hk))

variable [LawfulGenericPTE PTE]

/-- **An insertion that does not panic**: the region is aligned, and is empty, ends within the
address space, or is not compared with another one and runs out of room before its end. -/
def Attemptable (m : MemorySet PTE) (region : MemoryRegion) : Prop :=
  (region.start % 4096 = 0 ∧ region.size % 4096 = 0) ∧
    (region.size = 0 ∨ region.start + region.size < usizeSize ∨
      (∀ r, ¬ m.Has r) ∧ ¬ m.st.Room region.pages)

/-- **One insertion returns** exactly when it does not panic. -/
theorem ignoreErr_insert_iff (hinv : m.st.Inv) (hwf : m.WellFormed) :
    (∃ m', (ignoreErr (insert region)).run m = .ok () m') ↔ m.Attemptable region := by
  rw [ignoreErr_run]
  by_cases hal : isAligned region.start = true ∧ isAligned region.size = true
  swap
  · rw [insert_unaligned hal]
    refine iff_of_false ?_ fun h => hal ⟨isAligned_iff.mpr h.1.1, isAligned_iff.mpr h.1.2⟩
    rintro ⟨m', h⟩
    cases h
  obtain ⟨hs, hz⟩ := hal
  rw [Attemptable, and_iff_right ⟨isAligned_iff.mp hs, isAligned_iff.mp hz⟩]
  by_cases h0 : region.size = 0
  · rw [insert_zero hs h0]
    exact iff_of_true ⟨m, rfl⟩ (.inl h0)
  rw [or_iff_right h0, insert_run hs hz h0]
  have hspec := mapLoop_spec region hinv (isAligned_iff.mp hs) (isAligned_iff.mp hz)
  by_cases hend : region.start + region.size < usizeSize
  · refine iff_of_true ?_ (.inl hend)
    cases hfree : m.testFreeArea region with
    | none =>
      rw [hwf.testFreeArea_eq hend] at hfree
      cases hfree
    | some free =>
      cases free with
      | false => exact ⟨_, rfl⟩
      | true =>
        cases hrun : (mapLoop region region.start region.size).run m.st with
        | ok u st => exact ⟨_, rfl⟩
        | error e st =>
          rw [hrun] at hspec
          cases e with
          | panic => exact absurd hend (Nat.not_lt.mpr hspec.2)
          | err e => exact ⟨_, rfl⟩
  rw [or_iff_right hend]
  by_cases hhas : ∃ r, m.Has r
  · rw [testFreeArea_of_past (Nat.not_lt.mp hend) hhas]
    refine iff_of_false ?_ fun h => hhas.elim h.1
    rintro ⟨m', h⟩
    cases h
  have hnot : ∀ r, ¬ m.Has r := fun r hr => hhas ⟨r, hr⟩
  have hroom : m.st.Room region.pages ↔
      (tree m.st).Fits m.st.free.length (m.leavesOf region) := by
    have h : m.st.Room ([region].flatMap MemoryRegion.pages) ↔
        (tree m.st).Fits m.st.free.length (m.allLeaves [region]) := room_iff_fits
    rwa [allLeaves, List.flatMap_singleton, List.flatMap_singleton] at h
  rw [testFreeArea_of_not_has hnot, and_iff_right hnot, hroom]
  cases hrun : (mapLoop region region.start region.size).run m.st with
  | ok u st =>
    rw [hrun] at hspec
    exact absurd (hspec.2.resolve_left h0) hend
  | error e st =>
    rw [hrun] at hspec
    cases e with
    | panic =>
      refine iff_of_false ?_ fun h => h hspec.1.fits
      rintro ⟨m', h⟩
      cases h
    | err e =>
      obtain ⟨l₁, x, l₂, s₁, hl, -, -, hnfit⟩ := hspec
      have hleaves : m.leavesOf region = l₁ ++ x :: l₂ := hl
      refine iff_of_true ⟨_, rfl⟩ fun h => hnfit ?_
      rw [hleaves, List.append_cons] at h
      exact h.of_append

omit [LawfulGenericPTE PTE] in
/-- An insertion that returns has succeeded or failed with an error. -/
theorem insert_of_ignoreErr (hrun : (ignoreErr (insert region)).run m = .ok () m') :
    (insert region).run m = .ok () m' ∨ ∃ e, (insert region).run m = .error (.err e) m' := by
  rw [ignoreErr_run] at hrun
  split at hrun
  · next e m₁ hins =>
    cases hrun
    exact .inr ⟨e, hins⟩
  · exact .inl hrun

theorem wellFormed_of_insert (hwf : m.WellFormed) (hinv : m.st.Inv)
    (hrun : (insert region).run m = .ok () m' ∨ ∃ e, (insert region).run m = .error (.err e) m') :
    m'.WellFormed := by
  rcases hrun with hrun | ⟨e, hrun⟩
  · rcases inserted_of_run hinv hwf hrun with rfl | hi
    · exact hwf
    · exact hi.wf
  · obtain ⟨-, -, -, rfl | ⟨-, st, -, rfl⟩⟩ := insert_err hrun
    · exact hwf
    · exact ⟨hwf.key, hwf.aligned, hwf.nonempty, hwf.bound, hwf.disjoint⟩

/-- **The insertions return**, and the leaves that they put are those of the regions. -/
theorem insertEach_ok (hinv : m.st.Inv) (hwf : m.WellFormed)
    (hl : ∀ r ∈ l, (r.start % 4096 = 0 ∧ r.size % 4096 = 0) ∧ r.start + r.size < usizeSize) :
    ∃ m', (insertEach l).run m = .ok () m' ∧ m'.st.Inv ∧ m.st.Builds m'.st ∧
      ∀ q a, tree m'.st q = .leaf a →
        tree m.st q = .leaf a ∨ ∃ r ∈ l, (q, a) ∈ m.leavesOf r := by
  -- the invariant goes through each insertion, whether it succeeds or not
  induction l generalizing m with
  | nil => exact ⟨m, rfl, hinv, .refl _, fun _ _ => .inl⟩
  | cons region l ih =>
    obtain ⟨⟨⟨hstart, hsize⟩, hend⟩, hl⟩ := List.forall_mem_cons.mp hl
    obtain ⟨m₁, hrun⟩ :=
      (ignoreErr_insert_iff hinv hwf).mpr ⟨⟨hstart, hsize⟩, .inr (.inl hend)⟩
    have hres := insert_of_ignoreErr hrun
    have hwf₁ := wellFormed_of_insert hwf hinv hres
    obtain ⟨hgrows, hleaves⟩ := insert_leaves hinv hres
    obtain ⟨m', hrun', hinv', hbuilds, hleaves'⟩ := ih hgrows.inv hwf₁ hl
    refine ⟨m', ?_, hinv', (builds_of_insert hinv hres).trans hbuilds, fun q a hq => ?_⟩
    · rw [insertEach, EStateM.run_bind, hrun]
      exact hrun'
    · rcases hleaves' q a hq with hq | ⟨r, hr, hq⟩
      · rcases hleaves q a hq with hq | hq
        · exact .inl hq
        · exact .inr ⟨region, List.mem_cons_self, hq⟩
      · rw [leavesOf, hgrows.level] at hq
        exact .inr ⟨r, List.mem_cons_of_mem _ hr, hq⟩

/-! ## With room for the pages -/

/-- **With room for the pages** all regions are recorded at the end. -/
theorem insertEach_has {seen : List MemoryRegion} (hs : m.Synced) (hseen : ∀ r ∈ seen, m.Has r)
    (h0 : ∀ r ∈ l, r.size ≠ 0)
    (hm : m.Mappable (unseen seen l)) :
    ∃ m', (insertEach l).run m = .ok () m' ∧ m'.Synced ∧ m'.st.pt.level = m.st.pt.level ∧
      ∀ r, m.Has r ∨ r ∈ l → m'.Has r := by
  -- by induction on what is left of the list, with what was inserted as `seen`
  induction l generalizing m seen with
  | nil =>
    refine ⟨m, rfl, hs, rfl, fun r hr => ?_⟩
    exact hr.resolve_right List.not_mem_nil
  | cons region l ih =>
    obtain ⟨hne, h0⟩ := List.forall_mem_cons.mp h0
    by_cases hin : region ∈ seen
    · -- one that was inserted before
      rw [unseen, if_pos hin] at hm
      obtain ⟨m', hrun, hs', hlevel, hhas⟩ := ih hs hseen h0 hm
      refine ⟨m', ?_, hs', hlevel, fun r hr => ?_⟩
      · rw [insertEach, EStateM.run_bind, insert_of_has hs.wf (hseen region hin)]
        exact hrun
      · rcases hr with hr | hr
        · exact hhas r (.inl hr)
        · rcases List.mem_cons.mp hr with rfl | hr
          · exact hhas r (.inl (hseen r hin))
          · exact hhas r (.inr hr)
    · rw [unseen, if_neg hin] at hm
      -- one that is new finds room, and leaves room for the others
      obtain ⟨m₁, hrun₁⟩ := hm.exists_insert hs
      have hm₁ := (mappable_cons_of_insert hs hne hrun₁).mp hm
      obtain ⟨hal, hz, ⟨hzero, -⟩ | ⟨-, hfree, st, hloop, rfl⟩⟩ := insert_ok hrun₁
      · exact absurd hzero hne
      have hend := hm.bound region List.mem_cons_self hne
      have hd := (hs.wf.testFreeArea_iff hend).mp hfree
      have hhas₁ : ∀ r, Has ⟨m.regions.insert region.start region, st⟩ r ↔ r = region ∨ m.Has r :=
        fun r => hs.wf.has_insert hd hne
      have hseen₁ : ∀ r ∈ region :: seen, Has ⟨m.regions.insert region.start region, st⟩ r := by
        intro r hr
        apply (hhas₁ r).mpr
        exact (List.mem_cons.mp hr).imp id (hseen r)
      obtain ⟨m', hrun, hs', hlevel, hhas⟩ := ih (hs.insert hrun₁) hseen₁ h0 hm₁
      have hlevel₁ : st.pt.level = m.st.pt.level :=
        (Grows.of_insert hs.inv (.inl hrun₁)).level
      refine ⟨m', ?_, hs', hlevel.trans hlevel₁, fun r hr => ?_⟩
      · rw [insertEach, EStateM.run_bind, ignoreErr_run, hrun₁]
        exact hrun
      · rcases hr with hr | hr
        · exact hhas r (.inl ((hhas₁ r).mpr (.inr hr)))
        · rcases List.mem_cons.mp hr with rfl | hr
          · exact hhas r (.inl ((hhas₁ r).mpr (.inl rfl)))
          · exact hhas r (.inr hr)

/-! ## The other way round -/

/-- **If all addresses have leaves at the end, there was room** for the pages at the start. -/
theorem hasRoom_of_insertEach (hs : m.Synced) (hl : m.Insertable l)
    (hrange : ∀ r, m.Has r → r.start + r.size ≤ 2 ^ (12 + 9 * m.st.pt.level))
    (hrun : (insertEach l).run m = .ok () m')
    (hall : ∀ r ∈ l, ∀ va, r.Mem va → ∃ ps a, tree m'.st (pagePath m.st.pt.level ps va) = .leaf a) :
    m.HasRoom l := by
  obtain ⟨m'', hrun', -, hbuilds, hleaves⟩ := insertEach_ok (l := l) hs.inv hs.wf fun r hr =>
    ⟨hl.aligned r hr, hl.bound_lt hs.inv hr⟩
  obtain rfl : m'' = m' := by
    rw [hrun] at hrun'
    exact (EStateM.Result.ok.inj hrun').2.symm
  -- the slots were clear, and the frames have lasted for the tables that stand now
  constructor
  · intro r hr p hp
    obtain ⟨a, hleaf⟩ := hl.leaf_slot hs hrange hleaves hall hr hp
    obtain ⟨hal, hlo, hhi, -⟩ := (hl.tiles hs.inv hr).mem hp
    have hpos := p.size.bytes_pos
    have hva : r.Mem p.vaddr := ⟨hlo, by omega⟩
    refine ⟨?_, fun q b hq hb => ?_⟩
    · cases hp' : tree m.st (p.slot m.st.pt.level) with
      | empty => rfl
      | table =>
        -- a table would still be there
        have := hbuilds.tree.table _ hp'
        rw [hleaf] at this
        cases this
      | leaf b => exact absurd hp' (hl.no_leaf hs hrange hr hva p.size b)
    -- a leaf above the slot would have served the address before
    · have hne : q ≠ [] := by
        rintro rfl
        cases (tree_wf m.st).root.symm.trans hb
      obtain ⟨ps, rfl⟩ := eq_pagePath_of_suffix hs.inv.level
        (hq.trans (pagePath_suffix _ _ _)) hne fun h4 he => hs.inv.top h4 _ b (he ▸ hb)
      exact hl.no_leaf hs hrange hr hva ps b hb
  -- each leaf at the end needed its tables, which were built out of the free frames
  · apply hbuilds.tablesNeeded_le
    intro p hp
    obtain ⟨r, hr, hp⟩ := List.mem_flatMap.mp hp
    exact hl.leaf_slot hs hrange hleaves hall hr hp

end MemorySet

end Hvisor
