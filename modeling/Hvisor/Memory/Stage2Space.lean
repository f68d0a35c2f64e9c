import Hvisor.Memory.AddressSpace

/-!
# The guest-physical address space of a zone

The memory sets over stage-2 tables, with the levels and the input addresses that the CPU is
programmed for. The abstract address space is the translation that a list of regions describes;
the page table refines it after every history of successful calls. Two calls of `insert` that fail
are looked at in detail: what they leave behind, and what makes them fail.

## Main definitions

* `translate`: the translation that a list of regions describes
* `Stage2Region`: a region within the programmed input addresses
* `tablesNeeded`: the tables that the pages of a region need

## Main results

* `stage2_refines_regions`: the page table translates as the recorded regions do
* `stage2_insert_atomic_iff`: when a failing insertion changes nothing
* `stage2_insert_ok_iff`: an insertion beside the recorded regions succeeds when its slots are clear
-/

namespace Hvisor

open GenericPTE RadixTree MemorySet

/-- The translation that a list of regions describes: the target of an address and its access
flags. -/
def translate (regions : List MemoryRegion) (va : Nat) : Option (Nat × MemFlags) :=
  (regions.find? fun r => r.Mem va).map fun r =>
    (r.mapper.mapFn va, r.flags &&& (MemFlags.READ ||| MemFlags.WRITE ||| MemFlags.Io))

/-- **A region of a guest**: it has an offset mapper, is page aligned on both sides, lies within
the input addresses that stage 2 translates, and has its target below `2 ^ 48`. -/
structure Stage2Region (parange : Fin 6) (r : MemoryRegion) : Prop where
  offset : ∃ off < usizeSize, r.mapper = .offset off
  start_aligned : r.start % 4096 = 0
  size_aligned : r.size % 4096 = 0
  paddr_aligned : r.mapper.mapFn r.start % 4096 = 0
  bound : r.start + r.size ≤ 2 ^ stage2Bits parange
  paddr_bound : r.mapper.mapFn r.start + r.size ≤ 2 ^ 48

variable {parange : Fin 6} {m m' : MemorySet PageTableEntry} {r region : MemoryRegion} {va : Nat}

/-- An offset mapper keeps distances within a region. -/
theorem Stage2Region.mapFn_eq (h : Stage2Region parange r) (hva : r.Mem va) :
    r.mapper.mapFn va = r.mapper.mapFn r.start + (va - r.start) := by
  obtain ⟨off, hoff, hmap⟩ := h.offset
  have hb := h.paddr_bound
  have hbound := h.bound
  have h48 := stage2Bits_le_48 parange
  unfold MemoryRegion.Mem at hva
  rw [hmap] at hb ⊢
  simp only [Mapper.mapFn, wrappingSub, usizeSize] at hoff hb ⊢
  omega

theorem Stage2Region.bound_lt (h : Stage2Region parange r) : r.start + r.size < usizeSize := by
  have hb := h.bound
  have h48 := stage2Bits_le_48 parange
  simp only [usizeSize]
  omega

/-- The answer for an address of a recorded region. -/
theorem query_of_mem (h : m.Synced) (hr : m.Has r) (hs : Stage2Region parange r) (hva : r.Mem va) :
    ∃ ps, m.pageTableQuery va = .ok (r.mapper.mapFn va,
      r.flags &&& (MemFlags.READ ||| MemFlags.WRITE ||| MemFlags.Io), ps) := by
  obtain ⟨p, hp, hm, hleaf⟩ := h.leaf_of_mem hr hva
  obtain ⟨hal, hlo, hhi, size, hsize⟩ := (h.wf.tiles hr).mem hp
  have hpos := p.size.bytes_pos
  have hpva : r.Mem p.vaddr := ⟨hlo, by omega⟩
  have hmap := hs.mapFn_eq hpva
  have hmap' := hs.mapFn_eq hva
  have hpb := hs.paddr_bound
  have hpa := hs.paddr_aligned
  have hsa := hs.start_aligned
  have hval : p.vaddr % 4096 = 0 := by
    have hdvd : 4096 ∣ p.size.bytes := Nat.dvd_of_mod_eq_zero (bytes_mod p.size)
    exact Nat.mod_eq_zero_of_dvd (hdvd.trans (Nat.dvd_of_mod_eq_zero hal))
  have hpaddr : r.mapper.mapFn p.vaddr % 4096 = 0 := by rw [hmap]; omega
  have hpmod : r.mapper.mapFn p.vaddr % p.size.bytes = 0 := by
    rw [hsize]
    exact choosePageSize_paddr r.flags p.vaddr size hpaddr
  have hlt : r.mapper.mapFn p.vaddr < 2 ^ 48 := by rw [hmap]; omega
  have hdown : p.size.alignDown (r.mapper.mapFn p.vaddr) = r.mapper.mapFn p.vaddr := by
    rw [PageSize.alignDown_eq _ (by omega), hpmod, Nat.sub_zero]
  refine ⟨p.size, ?_⟩
  have haddr : addr (leafEntry (r.mapper.mapFn p.vaddr) r.flags p.size : PageTableEntry) =
      r.mapper.mapFn p.vaddr := by
    rw [leafEntry, hdown]
    exact LawfulGenericPTE.leaf_addr _ _ _ hpaddr hlt
  have hflags : flags (leafEntry (r.mapper.mapFn p.vaddr) r.flags p.size : PageTableEntry) =
      some (r.flags &&& (MemFlags.READ ||| MemFlags.WRITE ||| MemFlags.Io)) :=
    PageTableEntry.flags_leaf _ _ _
  have hoff : r.mapper.mapFn p.vaddr + va % p.size.bytes = r.mapper.mapFn va := by
    have hdiv := (Page.mem_iff hal).mp hm
    have hva' := Nat.div_add_mod va p.size.bytes
    have hpv := Nat.div_add_mod p.vaddr p.size.bytes
    rw [hdiv] at hva'
    rw [hmap, hmap']
    omega
  rw [pageTableQuery, query_leaf h.inv hleaf, haddr, hflags, hoff]

/-- The answer for an address outside the recorded regions. -/
theorem query_of_not_mem (h : m.Synced) (hl : m.st.pt.level = stage2Level parange)
    (hs : ∀ r, m.Has r → Stage2Region parange r) (hva : va < 2 ^ stage2Bits parange)
    (hn : ∀ r, m.Has r → ¬ r.Mem va) : m.pageTableQuery va = .error (.err .NotMapped) := by
  have hle := stage2Bits_le parange
  rw [← hl] at hle
  exact query_notMapped h.inv fun ps a =>
    h.no_leaf (fun r hr => (hs r hr).bound.trans hle) (hva.trans_le hle) hn ps a

/-- The page table translates as the recorded regions do. -/
theorem query_eq_translate (h : m.Synced) (hl : m.st.pt.level = stage2Level parange)
    (hs : ∀ r, m.Has r → Stage2Region parange r) (hva : va < 2 ^ stage2Bits parange) :
    (m.pageTableQuery va).map (fun x => (x.1, x.2.1)) =
      match translate m.regions.values va with
      | some x => .ok x
      | none => .error (.err .NotMapped) := by
  unfold translate
  cases hf : m.regions.values.find? fun r => r.Mem va with
  | none =>
    rw [query_of_not_mem h hl hs hva fun r hr hm => by
      simpa [hm] using List.find?_eq_none.mp hf r hr]
    rfl
  | some r =>
    have hr : m.Has r := List.mem_of_find?_eq_some hf
    obtain ⟨ps, hq⟩ := query_of_mem h hr (hs r hr) (by simpa using List.find?_some hf)
    rw [hq]
    rfl

/-- Inserting a region of a guest does not panic. -/
theorem insert_ne_panic (h : m.Synced) (hs : Stage2Region parange region)
    (m' : MemorySet PageTableEntry) :
    (MemorySet.insert region).run m ≠ .error .panic m' := by
  have hstart := isAligned_iff.mpr hs.start_aligned
  have hsize := isAligned_iff.mpr hs.size_aligned
  intro hp
  by_cases h0 : region.size = 0
  · simp [insert_zero hstart h0] at hp
  · rw [insert_run hstart hsize h0, h.wf.testFreeArea_eq hs.bound_lt] at hp
    split at hp
    · simp_all
    · simp [hvErr] at hp
    · have hspec := mapLoop_spec region h.inv hs.start_aligned hs.size_aligned
      cases hrun : (mapLoop region region.start region.size).run m.st with
      | ok u st => simp [hrun] at hp
      | error e st =>
        rw [hrun] at hspec
        cases e with
        | panic => exact absurd hspec.2 (by have := hs.bound_lt; omega)
        | err e => simp [hrun] at hp

/-! ## Runs on a fresh set -/

/-- The computation returns. -/
def isOk {ε σ α : Type} : EStateM.Result ε σ α → Bool
  | .ok _ _ => true
  | .error _ _ => false

theorem eq_ok_of_isOk {ε σ : Type} (res : EStateM.Result ε σ Unit)
    (h : isOk res = true) :
    res = .ok () (endState res) := by
  cases res with
  | ok u s => rfl
  | error e s => simp [isOk] at h

/-- A fresh set of three levels over zeroed memory, with the given frames. -/
def freshSet (root : Nat) (free : List Nat) : MemorySet PageTableEntry :=
  ⟨.empty, ⟨⟨root, 3, []⟩, zeroFrame (fun _ => zero) root, free⟩⟩

theorem new_freshSet (root : Nat) (free : List Nat) :
    MemorySet.new 3 (fun _ => zero) (root :: free) = some (freshSet root free) := rfl

/-- Ten frames. -/
def someFrames : List Nat :=
  [0x1000, 0x2000, 0x3000, 0x4000, 0x5000, 0x6000, 0x7000, 0x8000, 0x9000]

theorem frameAddr_of_lt {l : List Nat} (h : (l.all fun f => f % 4096 == 0 && f < 2 ^ 48) = true) :
    ∀ f ∈ l, FrameAddr f := by
  intro f hf
  have := List.all_eq_true.mp h f hf
  simpa [FrameAddr] using this

/-- A gigabyte of memory at `0x4000_0000`, mapped at the same addresses. -/
def ramRegion : MemoryRegion :=
  .newWithOffsetMapper 0x40000000 0x40000000 0x40000000 (MemFlags.READ ||| MemFlags.WRITE)

theorem stage2Region_ram : Stage2Region 2 ramRegion :=
  ⟨⟨0, by decide, rfl⟩, by decide, by decide, by decide, by decide, by decide⟩

/-- A fresh set after the memory was inserted. -/
def ramSet : MemorySet PageTableEntry :=
  endState ((MemorySet.insert ramRegion).run (freshSet 0x1000 someFrames.tail))

theorem history_ramSet : History (Stage2Region 2) (stage2Level 2) ramSet :=
  .insert (.new (frameAddr_of_lt (by decide)) (by decide) (new_freshSet 0x1000 someFrames.tail))
    stage2Region_ram
    (eq_ok_of_isOk ((MemorySet.insert ramRegion).run (freshSet 0x1000 someFrames.tail))
      (by decide +kernel))

theorem ramSet_has : ramSet.Has ramRegion := by
  unfold Has
  decide +kernel

/-! ## Refinement -/

/-- **The page table refines the recorded regions.** After any history of successful calls on
regions of a guest, the recorded regions are disjoint, every address is translated as they say,
every recorded region can be deleted, and no call panics. -/
theorem stage2_refines_regions (parange : Fin 6) {m : MemorySet PageTableEntry}
    (h : History (Stage2Region parange) (stage2Level parange) m) :
    (∀ r r', m.Has r → m.Has r' → r ≠ r' → r.Disjoint r') ∧
    (∀ va < 2 ^ stage2Bits parange, (m.pageTableQuery va).map (fun x => (x.1, x.2.1)) =
      match translate m.regions.values va with
      | some x => .ok x
      | none => .error (.err .NotMapped)) ∧
    (∀ r, m.Has r → ∃ m', (MemorySet.delete r.start).run m = .ok () m') ∧
    (∀ region, Stage2Region parange region → ∀ m',
      (MemorySet.insert region).run m ≠ .error .panic m') ∧
    (∀ start m', (MemorySet.delete start).run m ≠ .error .panic m') ∧
    (∃ m', MemorySet.clear.run m = .ok () m') := by
  have hsync := h.synced
  obtain ⟨hlevel, hvalid⟩ := h.valid
  have hs : ∀ r, m.Has r → Stage2Region parange r := fun r hr =>
    hvalid r.start r (hsync.wf.has_iff.mp hr)
  refine ⟨hsync.wf.disjoint, fun va hva => query_eq_translate hsync hlevel hs hva, fun r hr => ?_,
    fun region hregion m' => insert_ne_panic hsync hregion m', fun start m' hp => ?_, ?_⟩
  · obtain ⟨st, hrun, -⟩ := hsync.delete_ok hr
    exact ⟨_, hrun⟩
  · have := hsync.delete start
    rw [hp] at this
    exact this
  · obtain ⟨st, hrun, -⟩ := hsync.clear_ok
    exact ⟨_, hrun⟩

/-- A fresh set with the memory inserted translates the memory. -/
theorem stage2_refines_ram :
    ramSet.Has ramRegion ∧ (ramSet.pageTableQuery 0x40001234).map (fun x => (x.1, x.2.1)) =
      .ok (0x40001234, MemFlags.READ ||| MemFlags.WRITE) ∧
    ∃ m', MemorySet.clear.run ramSet = .ok () m' := by
  obtain ⟨-, hquery, -, -, -, hclear⟩ := stage2_refines_regions 2 history_ramSet
  refine ⟨ramSet_has, (hquery 0x40001234 (by decide)).trans ?_, hclear⟩
  decide +kernel

/-! ## Failing insertions -/

/-- **When a failing insertion changes nothing**: exactly where the call does not reach the table,
or its first page cannot be mapped, or all of its pages can. -/
theorem stage2_insert_atomic_iff {level : Nat} {m : MemorySet PageTableEntry}
    (h : Reachable level m) {region : MemoryRegion} (hs : isAligned region.start = true)
    (hz : isAligned region.size = true) :
    m.InsertAtomic region ↔ region.size = 0 ∨ m.testFreeArea region ≠ some true ∨
      ¬ m.st.Room (region.pages.take 1) ∨ m.st.Room region.pages :=
  insertAtomic_iff h.inv hs hz

/-- Two pages around the first gigabyte. -/
def straddlingRegion : MemoryRegion :=
  .newWithOffsetMapper 0x3ffff000 0x3ffff000 0x2000 (MemFlags.READ ||| MemFlags.WRITE)

/-- With one frame left not even the first page is mapped, and the call changes nothing. -/
theorem stage2_insert_atomic_one_frame :
    (freshSet 0x1000 [0x2000]).InsertAtomic straddlingRegion :=
  (stage2_insert_atomic_iff
    (.new (frameAddr_of_lt (by decide)) (by decide) (new_freshSet 0x1000 [0x2000]))
    (by decide) (by decide)).mpr
    (Or.inr (Or.inr (Or.inl fun hroom => absurd hroom.frames (by decide +kernel))))

/-- The computation returns an error. -/
def isErr {σ α : Type} : EStateM.Result (Fault HvError) σ α → Bool
  | .error (.err _) _ => true
  | _ => false

/-- With two frames left, the first page of two is mapped and stays when the second one fails. -/
theorem insert_not_atomic :
    ¬ ∀ (level : Nat) (m : MemorySet PageTableEntry) (region : MemoryRegion), Reachable level m →
      isAligned region.start = true → isAligned region.size = true → m.InsertAtomic region := by
  intro h
  have hatomic := h 3 (freshSet 0x1000 [0x2000, 0x3000]) straddlingRegion
    (.new (frameAddr_of_lt (by decide)) (by decide) (new_freshSet 0x1000 [0x2000, 0x3000]))
    (by decide) (by decide)
  have herr : isErr ((MemorySet.insert straddlingRegion).run
      (freshSet 0x1000 [0x2000, 0x3000])) = true := by decide +kernel
  have hafter : ((endState ((MemorySet.insert straddlingRegion).run
      (freshSet 0x1000 [0x2000, 0x3000]))).pageTableQuery 0x3ffff000).isOk = true := by
    decide +kernel
  have hbefore : ((freshSet 0x1000 [0x2000, 0x3000]).pageTableQuery 0x3ffff000).isOk = false := by
    decide +kernel
  cases hrun : (MemorySet.insert straddlingRegion).run (freshSet 0x1000 [0x2000, 0x3000]) with
  | ok u m' => simp [hrun, isErr] at herr
  | error e m' =>
    cases e with
    | panic => simp [hrun, isErr] at herr
    | err e =>
      rw [hrun, endState_error, (hatomic e m' hrun).2, hbefore] at hafter
      cases hafter

/-- **When an insertion beside the recorded regions succeeds**: the frames given, exactly where the
slot of every page that `map` picks is clear. -/
theorem stage2_insert_ok_iff (parange : Fin 6) {m : MemorySet PageTableEntry}
    (h : History (fun _ => True) (stage2Level parange) m) {region : MemoryRegion}
    (hs : isAligned region.start = true) (hz : isAligned region.size = true)
    (hbound : region.start + region.size ≤ 2 ^ stage2Bits parange)
    (hd : ∀ r, m.Has r → r.Disjoint region)
    (hframes : m.st.tablesNeeded region.pages ≤ m.st.free.length) :
    (∃ m', (MemorySet.insert region).run m = .ok () m') ↔
      ∀ p ∈ region.pages, (tree m.st).Clear (p.slot m.st.pt.level) := by
  have hsync := h.synced
  have hlevel := h.valid.1
  have hle := stage2Bits_le parange
  have h48 := stage2Bits_le_48 parange
  have hend : region.start + region.size < usizeSize := by simp only [usizeSize]; omega
  have hs' := isAligned_iff.mp hs
  have hz' := isAligned_iff.mp hz
  have htiles : Tiles region region.start (region.start + region.size) region.pages :=
    tiles_pagesFrom hs' hz' hend
  have hroom : m.st.Room region.pages ↔
      ∀ p ∈ region.pages, (tree m.st).Clear (p.slot m.st.pt.level) := by
    refine ⟨fun hr => hr.clear, fun hc => ⟨hc, ?_, hframes⟩⟩
    exact htiles.apart hsync.inv.level (hlevel.symm ▸ hbound.trans hle)
  by_cases h0 : region.size = 0
  · refine iff_of_true ⟨m, insert_zero hs h0⟩ ?_
    simp [MemoryRegion.pages, h0, pagesFrom_zero]
  · rw [← hroom, insert_run hs hz h0, (hsync.wf.testFreeArea_iff hend).mpr hd]
    have hspec := mapLoop_spec region hsync.inv hs' hz'
    cases hrun : (mapLoop region region.start region.size).run m.st with
    | ok u st =>
      rw [hrun] at hspec
      exact iff_of_true ⟨_, rfl⟩ ((fits_iff_room region).mp hspec.1.fits)
    | error e st =>
      rw [hrun] at hspec
      refine iff_of_false (by simp) fun hr => ?_
      cases e with
      | panic => omega
      | err e =>
        obtain ⟨l₁, x, l₂, s₁, hl, -, -, hfit⟩ := hspec
        have hfits := (fits_iff_room region).mpr hr
        rw [show region.pages.map (pageLeaf m.st.pt.level region) = l₁ ++ x :: l₂ from hl,
          List.append_cons] at hfits
        exact hfit hfits.of_append

/-- Two megabytes from address zero. -/
def lowRegion : MemoryRegion :=
  .newWithOffsetMapper 0 0 0x200000 (MemFlags.READ ||| MemFlags.WRITE)

/-- The first page of `lowRegion`. -/
def lowPage : MemoryRegion :=
  .newWithOffsetMapper 0 0 0x1000 (MemFlags.READ ||| MemFlags.WRITE)

/-- On a fresh set the two megabytes can be inserted. -/
theorem stage2_insert_low_fresh :
    ∃ m', (MemorySet.insert lowRegion).run (freshSet 0x1000 someFrames.tail) = .ok () m' :=
  (stage2_insert_ok_iff 2
    (.new (frameAddr_of_lt (by decide)) (by decide) (new_freshSet 0x1000 someFrames.tail))
    (by decide) (by decide) (by decide) (by simp [Has, freshSet, SortedMap.values, SortedMap.empty])
    (by decide +kernel)).mpr (by
      intro p hp
      have hzero : ∀ i, (freshSet 0x1000 someFrames.tail).st.mem (entryPtr 0x1000 i) = zero := by
        decide +kernel
      have htree := tree_of_zero_root (s := (freshSet 0x1000 someFrames.tail).st) hzero
      refine ⟨htree _ (by simp [Page.slot, pagePath]), fun r a _ hr => ?_⟩
      by_cases hnil : r = []
      · simp [hnil, tree] at hr
      · simp [htree r hnil] at hr)

/-- The set after the first page of `lowRegion` was inserted and deleted. -/
def usedSet : MemorySet PageTableEntry :=
  endState ((MemorySet.delete 0).run
    (endState ((MemorySet.insert lowPage).run (freshSet 0x1000 someFrames.tail))))

/-- A mapping that was deleted left its tables behind, and they are in the way of a huge page. -/
theorem insert_not_history_independent :
    ¬ ∀ (parange : Fin 6) (m : MemorySet PageTableEntry) (region : MemoryRegion),
      History (fun _ => True) (stage2Level parange) m → isAligned region.start = true →
      isAligned region.size = true → region.start + region.size ≤ 2 ^ stage2Bits parange →
      (∀ r, m.Has r → r.Disjoint region) → m.st.tablesNeeded region.pages ≤ m.st.free.length →
      ∃ m', (MemorySet.insert region).run m = .ok () m' := by
  intro h
  have hnew : History (fun _ => True) (stage2Level 2) (freshSet 0x1000 someFrames.tail) :=
    .new (frameAddr_of_lt (by decide)) (by decide) (new_freshSet 0x1000 someFrames.tail)
  have hpage := hnew.insert trivial
    (eq_ok_of_isOk ((MemorySet.insert lowPage).run (freshSet 0x1000 someFrames.tail))
      (by decide +kernel))
  have hused : History (fun _ => True) (stage2Level 2) usedSet :=
    hpage.delete (eq_ok_of_isOk ((MemorySet.delete 0).run _) (by decide +kernel))
  have hnone : usedSet.regions.values = [] := by decide +kernel
  obtain ⟨m', hrun⟩ := h 2 usedSet lowRegion hused (by decide) (by decide) (by decide)
    (fun r hr => by simp [Has, hnone] at hr) (by decide +kernel)
  have herr : isErr ((MemorySet.insert lowRegion).run usedSet) = true := by decide +kernel
  rw [hrun] at herr
  cases herr

/-- For regions within the address range only a table that was left behind is in the way. -/
theorem stage2_clear_iff (parange : Fin 6) {m : MemorySet PageTableEntry}
    (h : History (fun r => r.start + r.size ≤ 2 ^ stage2Bits parange) (stage2Level parange) m)
    {region : MemoryRegion} (hs : isAligned region.start = true)
    (hz : isAligned region.size = true)
    (hbound : region.start + region.size ≤ 2 ^ stage2Bits parange)
    (hd : ∀ r, m.Has r → r.Disjoint region) {p : Page} (hp : p ∈ region.pages) :
    (tree m.st).Clear (p.slot m.st.pt.level) ↔
      (p.size.isHuge = true → tree m.st (p.slot m.st.pt.level) ≠ .table) := by
  refine ⟨fun hc _ => by simp [hc.1], fun ht => ?_⟩
  have hsync := h.synced
  obtain ⟨hlevel, hvalid⟩ := h.valid
  have hle := stage2Bits_le parange
  have h48 := stage2Bits_le_48 parange
  rw [← hlevel] at hle
  have htiles : Tiles region region.start (region.start + region.size) region.pages :=
    tiles_pagesFrom (isAligned_iff.mp hs) (isAligned_iff.mp hz) (by simp only [usizeSize]; omega)
  obtain ⟨-, hlo, hhi, -⟩ := htiles.mem hp
  have hpos := p.size.bytes_pos
  have hnl : ∀ ps a, tree m.st (pagePath m.st.pt.level ps p.vaddr) ≠ .leaf a := by
    refine hsync.no_leaf (fun r hr => ?_) (by omega) fun r hr hm => ?_
    · exact (hvalid r.start r (hsync.wf.has_iff.mp hr)).trans hle
    · exact (hd r hr).not_mem hm ⟨hlo, by omega⟩
  have hslot : tree m.st (p.slot m.st.pt.level) = .empty := by
    cases hq : tree m.st (p.slot m.st.pt.level) with
    | empty => rfl
    | leaf a => exact absurd hq (hnl p.size a)
    | table =>
      -- a page of four kilobytes sits on the last level, where no tables are
      have h4k : p.size = .Size4K := by
        cases hps : p.size <;> simp_all [PageSize.isHuge]
      obtain ⟨g, hg⟩ := tree_eq_table.mp hq
      have hlen := (tablePath_length p.size p.vaddr hsync.inv.level).2.mpr h4k
      rcases tableAt_length hg with he | he
      · simp [Page.slot, pagePath] at he
      · exact absurd hlen (by simpa [Page.slot, pagePath] using he)
  refine ⟨hslot, fun r a hr ha => ?_⟩
  have hne : r ≠ [] := by
    rintro rfl
    simp [tree] at ha
  obtain ⟨ps, rfl⟩ := eq_pagePath_of_suffix hsync.inv.level (hr.trans (pagePath_suffix _ _ _)) hne
    fun h4 he => hsync.inv.top h4 _ a (he ▸ ha)
  exact hnl ps a ha

end Hvisor
