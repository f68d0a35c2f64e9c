import Hvisor.Irqchip.Gits
import Hvisor.Memory.BestEffort
import Hvisor.Memory.Stage2Space
import Hvisor.Pci.Isolation

/-!
# Mapping the regions of PCI functions

`pci_bars_register` of `pci/pci.rs` maps the regions that the functions of a zone report. A region
that is smaller than a page is made a page, is moved to the CPU's side of its window and to the page
that it starts in, and is inserted there; an error of the insertion is dropped, since two small
regions may share a page. With it goes the error of an insertion for which there is no room.

## Main definitions

* `HvPciConfig.bases`, `pciBarsRegister`: where a window is on both sides, and the loop
* `reportedRegions`: what the functions report
* `BarsPlaced`: regions that are aligned, apart from each other and beside those of the zone
* `BarsMapped`: the pages of all of them are mapped

## Main results

* `getBarsRegions_eq`: what is collected
* `pciBarsRegister_run`: the loop as insertions whose errors are ignored
* `insertable_of_placed`: two rounded regions are equal or apart
* `pci_bars_mapped_iff`: when the pages of all regions are mapped
-/

namespace Hvisor

open GenericPTE MemorySet RadixTree

/-! ## The loop -/

/-- The bases of the window of a type, on the side of the CPU and on the bus. -/
def HvPciConfig.bases (pciConfig : HvPciConfig) : BarType → Option (Nat × Nat)
  | .Io => some (pciConfig.ioBase, pciConfig.pciIoBase)
  | .Mem32 => some (pciConfig.mem32Base, pciConfig.pciMem32Base)
  | .Mem64 => some (pciConfig.mem64Base, pciConfig.pciMem64Base)
  -- `panic!("Unknown BAR type!")`
  | .Unknown => none

section Loop

variable (overflowChecks : Bool) (pciConfig : HvPciConfig)

/-- Where the CPU sees a region. -/
def BarRegion.cpuStart (region : BarRegion) : Option Nat := do
  let (cpuBase, pciBase) ← pciConfig.bases region.barType
  let sum ← wordResult overflowChecks 64 (cpuBase + region.start)
  wordSub overflowChecks sum pciBase

/-- The region that is inserted for one of a function. -/
def BarRegion.memoryRegion (region : BarRegion) : MemoryRegion :=
  .newWithOffsetMapper region.start region.start region.size (MemFlags.READ ||| MemFlags.WRITE)

/-- The loop over the regions, which are rewritten on the way. -/
def pciBarsRegister {PTE : Type} [GenericPTE PTE] :
    List BarRegion → MemorySetM PTE (List BarRegion)
  | [] => return []
  | region :: regions =>
    match region.cpuStart overflowChecks pciConfig with
    | none => throw .panic
    | some start => do
      let region := { region with start := alignDown start }
      -- `.ok()`, whatever the error is
      ignoreErr (MemorySet.insert region.memoryRegion)
      return region :: (← pciBarsRegister regions)

/-- The region of the zone for a region of a function. -/
def BarRegion.mapping (region : BarRegion) : Option MemoryRegion :=
  (region.cpuStart overflowChecks pciConfig).map fun start =>
    { region.roundUp with start := alignDown start }.memoryRegion

end Loop

/-- What functions report. -/
def reportedRegions {n : Nat} : List (BarConfig n) → Option (List BarRegion)
  | [] => some []
  | dev :: devs => do
    let regions ← dev.getRegions
    return regions ++ (← reportedRegions devs)

theorem collectRegions_eq {n : Nat} (devs : List (BarConfig n)) (barRegions : List BarRegion) :
    collectRegions devs barRegions =
      (reportedRegions devs).map fun bars => barRegions ++ bars.map BarRegion.roundUp := by
  -- what is collected so far stays in front
  induction devs generalizing barRegions with
  | nil => simp [collectRegions, reportedRegions]
  | cons dev devs ih =>
    rw [collectRegions, reportedRegions]
    cases dev.getRegions with
    | none => rfl
    | some regions =>
      rw [Option.bind_some, ih]
      cases reportedRegions devs with
      | none => rfl
      | some bars => simp [List.append_assoc]

/-- **What is collected**: the regions of the endpoints and then those of the bridges, each a page
at least. -/
theorem getBarsRegions_eq {pciroot : PciRoot} {eps brs : List BarRegion}
    (he : reportedRegions pciroot.endpoints = some eps)
    (hb : reportedRegions pciroot.bridges = some brs) (hnew : pciroot.barRegions = []) :
    pciroot.getBarsRegions =
      some { pciroot with barRegions := (eps ++ brs).map BarRegion.roundUp } := by
  rw [PciRoot.getBarsRegions, collectRegions_eq, he, hnew]
  simp only [Option.map_some, Option.bind_eq_bind, Option.bind_some, List.nil_append]
  rw [collectRegions_eq, hb, List.map_append]
  rfl

section Run

variable {overflowChecks : Bool} {pciConfig : HvPciConfig} {bars : List BarRegion}

theorem cpuStart_roundUp (bar : BarRegion) : bar.roundUp.cpuStart overflowChecks pciConfig =
    bar.cpuStart overflowChecks pciConfig := by
  unfold BarRegion.roundUp
  split <;> rfl

/-- **The loop as insertions** whose errors are ignored. -/
theorem pciBarsRegister_run {PTE : Type} [GenericPTE PTE] {m m' : MemorySet PTE}
    (hbars : ∀ bar ∈ bars, ∃ start, bar.cpuStart overflowChecks pciConfig = some start)
    (hrun : (insertEach (bars.filterMap (·.mapping overflowChecks pciConfig))).run m = .ok () m') :
    ∃ regions, (pciBarsRegister overflowChecks pciConfig (bars.map BarRegion.roundUp)).run m =
      .ok regions m' := by
  -- the loop makes the insertion that the next region of the zone stands for
  induction bars generalizing m with
  | nil =>
    obtain rfl : m = m' := (EStateM.Result.ok.inj hrun).2
    exact ⟨[], rfl⟩
  | cons bar bars ih =>
    obtain ⟨⟨start, hstart⟩, hbars⟩ := List.forall_mem_cons.mp hbars
    have hmapping : bar.mapping overflowChecks pciConfig =
        some { bar.roundUp with start := alignDown start }.memoryRegion := by
      rw [BarRegion.mapping, hstart, Option.map_some]
    rw [List.filterMap_cons_some hmapping, insertEach, EStateM.run_bind] at hrun
    rw [List.map_cons, pciBarsRegister, cpuStart_roundUp, hstart]
    simp only [EStateM.run_bind]
    -- the error of an insertion is dropped, so only a panic would stop the loop
    split at hrun
    · next u m₁ hfirst =>
      obtain ⟨regions, hregions⟩ := ih hbars hrun
      rw [hfirst]
      simp only [hregions, EStateM.run_pure]
      exact ⟨_, rfl⟩
    · cases hrun

end Run

/-! ## Pages of regions -/

namespace BarRegion

variable {overflowChecks : Bool} {pciConfig : HvPciConfig} {parange : Fin 6} {bar bar' : BarRegion}
  {start start' va : Nat} {r r' : MemoryRegion}

/-- The addresses of the pages that have a byte of a region that starts at `start`. -/
def OnPage (bar : BarRegion) (start va : Nat) : Prop :=
  ∃ addr, start ≤ addr ∧ addr < start + bar.size ∧ va / 4096 = addr / 4096

/-- **A region that can be placed**: its type is known, and where the CPU sees it, it is naturally
aligned, a power of two long and within the input addresses of stage 2. -/
structure Placed (overflowChecks : Bool) (pciConfig : HvPciConfig) (parange : Fin 6)
    (bar : BarRegion) (start : Nat) : Prop where
  start_eq : bar.cpuStart overflowChecks pciConfig = some start
  size : ∃ k, bar.size = 2 ^ k
  aligned : start % bar.size = 0
  bound : start + bar.size ≤ 2 ^ stage2Bits parange

/-- **The region of the zone** for a region of a function: the page around a small one, or the
region itself, each at the same physical address. -/
structure Rounds (bar : BarRegion) (start : Nat) (r : MemoryRegion) : Prop where
  identity : r = .newWithOffsetMapper r.start r.start r.size (MemFlags.READ ||| MemFlags.WRITE)
  aligned : r.start % 4096 = 0 ∧ r.size % 4096 = 0
  pos : 0 < bar.size
  shape : r.size = 4096 ∧ r.start ≤ start ∧ start + bar.size ≤ r.start + 4096 ∨
    r.start = start ∧ r.size = bar.size

theorem Placed.exists_mapping (h : Placed overflowChecks pciConfig parange bar start) :
    ∃ r, bar.mapping overflowChecks pciConfig = some r ∧ bar.Rounds start r := by
  obtain ⟨k, hk⟩ := h.size
  have h48 := stage2Bits_le_48 parange
  have hb := h.bound
  have hpos : 0 < bar.size := hk ▸ Nat.two_pow_pos k
  have hdown : alignDown start = start - start % 4096 := alignDown_eq (by omega)
  refine ⟨_, by rw [mapping, h.start_eq, Option.map_some], ?_⟩
  rw [hdown]
  by_cases hsmall : bar.size < 0x1000
  · -- a small region divides the page
    have hdvd : bar.size ∣ 4096 := by
      rw [hk, show 4096 = 2 ^ 12 from rfl]
      apply Nat.pow_dvd_pow
      by_contra hlt
      have := Nat.pow_le_pow_right (n := 2) (by norm_num) (Nat.le_of_not_le hlt)
      omega
    -- the next multiple of the size is still in the page
    have hrest : start % 4096 + bar.size ≤ 4096 := by
      have hmod : start % 4096 % bar.size = 0 := by
        rw [Nat.mod_mod_of_dvd start hdvd]
        exact h.aligned
      have hlt := Nat.mod_lt start (show 4096 > 0 by norm_num)
      obtain ⟨c, hc⟩ := Nat.dvd_of_mod_eq_zero hmod
      obtain ⟨d, hd⟩ := hdvd
      rw [hc, hd] at hlt ⊢
      have hcd : c < d := Nat.lt_of_mul_lt_mul_left hlt
      have := Nat.mul_le_mul_left bar.size (show c + 1 ≤ d from hcd)
      rwa [Nat.mul_succ] at this
    rw [roundUp, if_pos hsmall]
    refine ⟨rfl, ⟨?_, Nat.mod_self 4096⟩, hpos, .inl ⟨rfl, ?_, ?_⟩⟩
    · show (start - start % 4096) % 4096 = 0
      omega
    · show start - start % 4096 ≤ start
      omega
    · show start + bar.size ≤ start - start % 4096 + 4096
      omega
  · -- a larger one consists of pages
    have hdvd : 4096 ∣ bar.size := by
      rw [hk, show 4096 = 2 ^ 12 from rfl]
      apply Nat.pow_dvd_pow
      by_contra hlt
      have := Nat.pow_lt_pow_right (a := 2) (by norm_num) (Nat.lt_of_not_le hlt)
      omega
    have hmod : start % 4096 = 0 := by
      apply Nat.mod_eq_zero_of_dvd
      exact hdvd.trans (Nat.dvd_of_mod_eq_zero h.aligned)
    rw [roundUp, if_neg hsmall, hmod, Nat.sub_zero]
    exact ⟨rfl, ⟨hmod, Nat.mod_eq_zero_of_dvd hdvd⟩, hpos, .inr ⟨rfl, rfl⟩⟩

/-- The input addresses of stage 2 are pages. -/
theorem pages_stage2 (parange : Fin 6) : 2 ^ stage2Bits parange % 4096 = 0 := by
  revert parange
  decide

namespace Rounds

/-- The region of the zone has the pages of the region. -/
theorem mem_iff (h : bar.Rounds start r) : r.Mem va ↔ bar.OnPage start va := by
  obtain ⟨hstart, hsize⟩ := h.aligned
  have hpos := h.pos
  -- a small region has its one page; a larger one is the region itself
  constructor
  · rintro ⟨hlo, hhi⟩
    rcases h.shape with ⟨hs, hle, hend⟩ | ⟨he, hs⟩
    · exact ⟨start, le_rfl, by omega, by omega⟩
    · exact ⟨va, by omega, by omega, rfl⟩
  · rintro ⟨addr, hlo, hhi, hdiv⟩
    unfold MemoryRegion.Mem
    rcases h.shape with ⟨hs, hle, hend⟩ | ⟨he, hs⟩ <;> constructor <;> omega

/-- **Two regions are equal or apart**: those of two small regions in one page are equal. -/
theorem eq_or_disjoint (h : bar.Rounds start r) (h' : bar'.Rounds start' r')
    (hd : start + bar.size ≤ start' ∨ start' + bar'.size ≤ start) : r = r' ∨ r.Disjoint r' := by
  obtain ⟨hstart, hsize⟩ := h.aligned
  obtain ⟨hstart', hsize'⟩ := h'.aligned
  have hpos := h.pos
  have hpos' := h'.pos
  unfold MemoryRegion.Disjoint
  -- small and small, small and large, large and large
  rcases h.shape with ⟨hs, hle, hend⟩ | ⟨he, hs⟩ <;>
    rcases h'.shape with ⟨hs', hle', hend'⟩ | ⟨he', hs'⟩
  · by_cases heq : r.start = r'.start
    · left
      rw [h.identity, h'.identity, heq, hs, hs']
    -- two different pages
    · right
      omega
  all_goals
    right
    omega

theorem bound (h : bar.Rounds start r) (hb : start + bar.size ≤ 2 ^ stage2Bits parange) :
    r.start + r.size ≤ 2 ^ stage2Bits parange := by
  obtain ⟨hstart, hsize⟩ := h.aligned
  have hpos := h.pos
  have hdvd : 2 ^ stage2Bits parange % 4096 = 0 := pages_stage2 parange
  rcases h.shape with ⟨hs, hle, hend⟩ | ⟨he, hs⟩ <;> omega

theorem stage2Region (h : bar.Rounds start r) (hb : start + bar.size ≤ 2 ^ stage2Bits parange) :
    Stage2Region parange r := by
  have hbound := h.bound hb
  have h48 := stage2Bits_le_48 parange
  have hid := h.identity
  have hmapper : r.mapper = .offset 0 := by
    rw [hid]
    simp [MemoryRegion.newWithOffsetMapper, wrappingSub]
  have hmap : r.mapper.mapFn r.start = r.start := by
    rw [hmapper]
    simp only [Mapper.mapFn, wrappingSub, usizeSize]
    omega
  refine ⟨⟨0, by decide, hmapper⟩, h.aligned.1, h.aligned.2, ?_, hbound, ?_⟩
  · rw [hmap]
    exact h.aligned.1
  · rw [hmap]
    omega

end Rounds

end BarRegion

/-! ## All regions -/

section Bars

variable {overflowChecks : Bool} {pciConfig : HvPciConfig} {parange : Fin 6}
  {m m' : MemorySet PageTableEntry} {bars : List BarRegion}

/-- **Regions that can be placed**, apart from each other, on pages that no recorded region
covers. -/
structure BarsPlaced (overflowChecks : Bool) (pciConfig : HvPciConfig) (parange : Fin 6)
    (m : MemorySet PageTableEntry) (bars : List BarRegion) : Prop where
  placed : ∀ bar ∈ bars, ∃ start, bar.Placed overflowChecks pciConfig parange start
  disjoint : bars.Pairwise fun bar bar' => ∀ start start',
    bar.cpuStart overflowChecks pciConfig = some start →
      bar'.cpuStart overflowChecks pciConfig = some start' →
        start + bar.size ≤ start' ∨ start' + bar'.size ≤ start
  free : ∀ bar ∈ bars, ∀ start, bar.cpuStart overflowChecks pciConfig = some start →
    ∀ va, bar.OnPage start va → ∀ r, m.Has r → ¬ r.Mem va

/-- The regions of the zone for those of the functions. -/
def barMappings (overflowChecks : Bool) (pciConfig : HvPciConfig) (bars : List BarRegion) :
    List MemoryRegion :=
  bars.filterMap (·.mapping overflowChecks pciConfig)

/-- **Every page with a byte of a region is mapped** to itself, to read and to write. -/
def BarsMapped (overflowChecks : Bool) (pciConfig : HvPciConfig) (m : MemorySet PageTableEntry)
    (bars : List BarRegion) : Prop :=
  ∀ bar ∈ bars, ∀ start, bar.cpuStart overflowChecks pciConfig = some start →
    ∀ va, bar.OnPage start va →
      ∃ ps, m.pageTableQuery va = .ok (va, MemFlags.READ ||| MemFlags.WRITE, ps)

/-- A region of the zone comes from one of a function. -/
theorem BarsPlaced.of_mem (h : BarsPlaced overflowChecks pciConfig parange m bars)
    {r : MemoryRegion} (hr : r ∈ barMappings overflowChecks pciConfig bars) :
    ∃ bar ∈ bars, ∃ start, bar.Placed overflowChecks pciConfig parange start ∧
      bar.mapping overflowChecks pciConfig = some r ∧ bar.Rounds start r := by
  obtain ⟨bar, hbar, hmap⟩ := List.mem_filterMap.mp hr
  obtain ⟨start, hp⟩ := h.placed bar hbar
  obtain ⟨r', hmap', hround⟩ := hp.exists_mapping
  obtain rfl : r' = r := Option.some.inj (hmap'.symm.trans hmap)
  exact ⟨bar, hbar, start, hp, hmap, hround⟩

/-- The regions of the zone for two regions of functions are equal or apart. -/
def MappingsApart (overflowChecks : Bool) (pciConfig : HvPciConfig) (bar bar' : BarRegion) :
    Prop :=
  ∀ r r', bar.mapping overflowChecks pciConfig = some r →
    bar'.mapping overflowChecks pciConfig = some r' → r = r' ∨ r.Disjoint r'

instance : Std.Symm (MappingsApart overflowChecks pciConfig) where
  symm _ _ h r r' hr hr' := (h r' r hr' hr).imp Eq.symm MemoryRegion.Disjoint.symm

theorem BarsPlaced.mappingsApart (h : BarsPlaced overflowChecks pciConfig parange m bars) :
    ∀ bar ∈ bars, ∀ bar' ∈ bars, MappingsApart overflowChecks pciConfig bar bar' := by
  -- a region beside itself, or two of the list
  apply List.Pairwise.forall_of_forall
  · intro bar _ r r' hr hr'
    exact .inl (Option.some.inj (hr.symm.trans hr'))
  · apply h.disjoint.imp_of_mem
    intro bar bar' hbar hbar' hd r r' hr hr'
    obtain ⟨start, hp⟩ := h.placed bar hbar
    obtain ⟨start', hp'⟩ := h.placed bar' hbar'
    obtain ⟨r₁, hmap, hround⟩ := hp.exists_mapping
    obtain ⟨r₂, hmap', hround'⟩ := hp'.exists_mapping
    obtain rfl : r₁ = r := Option.some.inj (hmap.symm.trans hr)
    obtain rfl : r₂ = r' := Option.some.inj (hmap'.symm.trans hr')
    exact hround.eq_or_disjoint hround' (hd start start' hp.start_eq hp'.start_eq)

/-- The regions of the zone are equal or apart, beside the recorded ones. -/
theorem insertable_of_placed (h : BarsPlaced overflowChecks pciConfig parange m bars)
    (hs : m.Synced) (hlevel : m.st.pt.level = stage2Level parange) :
    m.Insertable (barMappings overflowChecks pciConfig bars) := by
  -- aligned, not empty, within the table, beside what is recorded, apart from each other
  refine ⟨fun r hr => ?_, fun r hr => ?_, fun r hr => ?_, fun r hr r' hr' => ?_,
    fun r hr r' hr' hne => ?_⟩
  · obtain ⟨bar, -, start, -, -, hround⟩ := h.of_mem hr
    exact hround.aligned
  · obtain ⟨bar, -, start, -, -, hround⟩ := h.of_mem hr
    have hpos := hround.pos
    rcases hround.shape with ⟨hs, -⟩ | ⟨-, hs⟩ <;> omega
  · obtain ⟨bar, -, start, hp, -, hround⟩ := h.of_mem hr
    rw [hlevel]
    exact (hround.bound hp.bound).trans (stage2Bits_le parange)
  · obtain ⟨bar, hbar, start, hp, -, hround⟩ := h.of_mem hr
    have hnot : ∀ va, r.Mem va → ¬ r'.Mem va := fun va hva =>
      h.free bar hbar start hp.start_eq va (hround.mem_iff.mp hva) r' hr'
    have hpos' := hs.wf.nonempty r' hr'
    have hpos := hround.pos
    have hsize : 0 < r.size := by
      rcases hround.shape with ⟨hs, -⟩ | ⟨-, hs⟩ <;> omega
    -- the later of the two starts would be in both
    have hfirst := hnot (max r.start r'.start)
    unfold MemoryRegion.Mem at hfirst
    unfold MemoryRegion.Disjoint
    omega
  · obtain ⟨bar, hbar, -, -, hmap, -⟩ := h.of_mem hr
    obtain ⟨bar', hbar', -, -, hmap', -⟩ := h.of_mem hr'
    exact (h.mappingsApart bar hbar bar' hbar' r r' hmap hmap').resolve_left hne

/-- The regions that are recorded are mapped. -/
theorem barsMapped_of_has (h : BarsPlaced overflowChecks pciConfig parange m bars)
    (hs : m'.Synced) (hhas : ∀ r ∈ barMappings overflowChecks pciConfig bars, m'.Has r) :
    BarsMapped overflowChecks pciConfig m' bars := by
  intro bar hbar start hstart va hva
  obtain ⟨start', hp⟩ := h.placed bar hbar
  obtain rfl : start' = start := Option.some.inj (hp.start_eq.symm.trans hstart)
  obtain ⟨r, hmap, hround⟩ := hp.exists_mapping
  have hr := hhas r (List.mem_filterMap.mpr ⟨bar, hbar, hmap⟩)
  have hregion := hround.stage2Region hp.bound
  have hmem := hround.mem_iff.mpr hva
  obtain ⟨ps, hquery⟩ := query_of_mem hs hr hregion hmem
  refine ⟨ps, hquery.trans ?_⟩
  -- the flags of the region are those of the mapping, and its mapper is the identity
  have hflags : r.flags &&& (MemFlags.READ ||| MemFlags.WRITE ||| MemFlags.Io) =
      MemFlags.READ ||| MemFlags.WRITE := by
    rw [hround.identity]
    exact (by decide : (MemFlags.READ ||| MemFlags.WRITE) &&&
      (MemFlags.READ ||| MemFlags.WRITE ||| MemFlags.Io) = MemFlags.READ ||| MemFlags.WRITE)
  have hmapFn : r.mapper.mapFn va = va := by
    have hbound := hregion.bound_lt
    unfold MemoryRegion.Mem at hmem
    rw [hround.identity]
    simp only [MemoryRegion.newWithOffsetMapper, Mapper.mapFn, wrappingSub, usizeSize] at hbound ⊢
    omega
  rw [hflags, hmapFn]

/-- **When the pages of all regions are mapped**: exactly when the page table has room for the pages
that `map` picks for the regions of the zone. -/
theorem pci_bars_mapped_iff {pciroot : PciRoot} {eps brs : List BarRegion}
    (h : History (fun r => r.start + r.size ≤ 2 ^ stage2Bits parange) (stage2Level parange) m)
    (he : reportedRegions pciroot.endpoints = some eps)
    (hb : reportedRegions pciroot.bridges = some brs) (hnew : pciroot.barRegions = [])
    (hp : BarsPlaced overflowChecks pciConfig parange m (eps ++ brs)) :
    ∃ pciroot', pciroot.getBarsRegions = some pciroot' ∧ ∃ regions m',
      (pciBarsRegister overflowChecks pciConfig pciroot'.barRegions).run m = .ok regions m' ∧
      (BarsMapped overflowChecks pciConfig m' (eps ++ brs) ↔
        m.HasRoom (barMappings overflowChecks pciConfig (eps ++ brs))) := by
  have hs := h.synced
  obtain ⟨hlevel, hvalid⟩ := h.valid
  have hl := insertable_of_placed hp hs hlevel
  -- the loop ends, whether the insertions succeed or not
  obtain ⟨m', hrun, hinv', hbuilds, -⟩ := insertEach_ok hs.inv hs.wf fun r hr =>
    ⟨hl.aligned r hr, hl.bound_lt hs.inv hr⟩
  have hstarts : ∀ bar ∈ eps ++ brs, ∃ start,
      bar.cpuStart overflowChecks pciConfig = some start := by
    intro bar hbar
    obtain ⟨start, hpl⟩ := hp.placed bar hbar
    exact ⟨start, hpl.start_eq⟩
  obtain ⟨regions, hloop⟩ := pciBarsRegister_run hstarts hrun
  refine ⟨_, getBarsRegions_eq he hb hnew, regions, m', hloop, fun hmapped => ?_, fun hroom => ?_⟩
  -- a page that is mapped has a leaf, and no leaf is made where there was no room
  · apply hasRoom_of_insertEach hs hl _ hrun
    · intro r hr va hva
      obtain ⟨bar, hbar, start, hpl, -, hround⟩ := hp.of_mem hr
      obtain ⟨ps, hquery⟩ := hmapped bar hbar start hpl.start_eq va (hround.mem_iff.mp hva)
      have hleaf := exists_leaf_of_query hinv' hquery
      rwa [hbuilds.level] at hleaf
    · intro r hr
      rw [hlevel]
      exact (hvalid r.start r (hs.wf.has_iff.mp hr)).trans (stage2Bits_le parange)
  -- with room every insertion succeeds or is of a region that is recorded already
  · have hnone : ∀ r ∈ ([] : List MemoryRegion), m.Has r := nofun
    obtain ⟨m'', hrun', hs', -, hhas⟩ :=
      insertEach_has hs hnone hl.nonempty (hroom.mappable hs.inv hl)
    obtain rfl : m' = m'' := by
      have heq := hrun.symm.trans hrun'
      exact (EStateM.Result.ok.inj heq).2
    exact barsMapped_of_has hp hs' fun r hr => hhas r (.inr hr)

end Bars

/-! ## Runs -/

/-- A window of memory that starts at 0 on the bus. -/
def memoryWindow (mem32Base : Nat) : HvPciConfig :=
  { ecamBase := 0x10000000, ecamSize := 0x1000000, ioBase := 0, ioSize := 0, mem32Base,
    mem32Size := 0x10000000, mem64Base := 0, mem64Size := 0, pciIoBase := 0, pciMem32Base := 0,
    pciMem64Base := 0 }

/-- A region of memory on the bus. -/
def memoryBar (start size : Nat) : BarRegion := ⟨start, size, .Mem32⟩

/-- A function with two regions of 256 bytes, one behind the other. -/
def twoSmallBars : PciRoot :=
  ⟨[⟨#v[⟨0, .Mem32, 0x100⟩, ⟨0x100, .Mem32, 0x100⟩, .default, .default, .default, .default],
    0x8⟩], [], [0x8], [], []⟩

theorem placed_twoSmall : BarsPlaced true (memoryWindow 0x40000000) 2
    (freshSet 0x1000 someFrames.tail) [memoryBar 0 0x100, memoryBar 0x100 0x100] := by
  refine ⟨?_, ?_, ?_⟩
  · intro bar hbar
    rcases List.mem_cons.mp hbar with rfl | hbar
    · exact ⟨0x40000000, by decide, ⟨8, rfl⟩, by decide, by decide⟩
    · obtain rfl := List.mem_singleton.mp hbar
      exact ⟨0x40000100, by decide, ⟨8, rfl⟩, by decide, by decide⟩
  · apply List.pairwise_pair.mpr
    intro start start' hs hs'
    obtain rfl : 0x40000000 = start := Option.some.inj hs
    obtain rfl : 0x40000100 = start' := Option.some.inj hs'
    exact .inl (by decide)
  · intro _ _ _ _ _ _ r hr
    simp [Has, freshSet, SortedMap.values, SortedMap.empty] at hr

/-- Both are mapped, although the second insertion fails. -/
theorem pci_bars_mapped_twoSmall : ∃ pciroot', twoSmallBars.getBarsRegions = some pciroot' ∧
    ∃ regions m', (pciBarsRegister true (memoryWindow 0x40000000) pciroot'.barRegions).run
      (freshSet 0x1000 someFrames.tail) = .ok regions m' ∧
      BarsMapped true (memoryWindow 0x40000000) m' [memoryBar 0 0x100, memoryBar 0x100 0x100] := by
  have hzero : ∀ i, (freshSet 0x1000 someFrames.tail).st.mem (entryPtr 0x1000 i) = zero := by
    decide +kernel
  have htree := tree_of_zero_root (s := (freshSet 0x1000 someFrames.tail).st) hzero
  have hroom : (freshSet 0x1000 someFrames.tail).HasRoom
      (barMappings true (memoryWindow 0x40000000) [memoryBar 0 0x100, memoryBar 0x100 0x100]) := by
    constructor
    · intro r _ p _
      refine ⟨htree _ (by simp [Page.slot, pagePath]), fun q a _ hq => ?_⟩
      by_cases hnil : q = []
      · simp [hnil, tree] at hq
      · simp [htree q hnil] at hq
    · decide +kernel
  have hnew : History (fun r => r.start + r.size ≤ 2 ^ stage2Bits 2) (stage2Level 2)
      (freshSet 0x1000 someFrames.tail) :=
    .new (frameAddr_of_lt (by decide)) (by decide) (new_freshSet 0x1000 someFrames.tail)
  have hreported : reportedRegions twoSmallBars.endpoints =
      some [memoryBar 0 0x100, memoryBar 0x100 0x100] := by decide
  obtain ⟨pciroot', hroot, regions, m', hrun, hiff⟩ :=
    pci_bars_mapped_iff hnew hreported rfl rfl placed_twoSmall
  exact ⟨pciroot', hroot, regions, m', hrun, hiff.mpr hroom⟩

/-- With one frame left the tables of a page do not fit, and nobody learns of it. -/
theorem pci_bars_not_mapped : ¬ ∀ (parange : Fin 6) (pciConfig : HvPciConfig)
    (m : MemorySet PageTableEntry) (bars : List BarRegion),
    History (fun r => r.start + r.size ≤ 2 ^ stage2Bits parange) (stage2Level parange) m →
      BarsPlaced true pciConfig parange m bars → ∀ regions m',
        (pciBarsRegister true pciConfig (bars.map BarRegion.roundUp)).run m = .ok regions m' →
          BarsMapped true pciConfig m' bars := by
  intro h
  have hnew : History (fun r => r.start + r.size ≤ 2 ^ stage2Bits 2) (stage2Level 2)
      (freshSet 0x1000 [0x2000]) :=
    .new (frameAddr_of_lt (by decide)) (by decide) (new_freshSet 0x1000 [0x2000])
  have hplaced : BarsPlaced true (memoryWindow 0x40000000) 2 (freshSet 0x1000 [0x2000])
      [memoryBar 0 0x1000] := by
    refine ⟨?_, List.pairwise_singleton _ _, fun _ _ _ _ _ _ r hr => ?_⟩
    · intro bar hbar
      obtain rfl := List.mem_singleton.mp hbar
      exact ⟨0x40000000, by decide, ⟨12, rfl⟩, by decide, by decide⟩
    · simp [Has, freshSet, SortedMap.values, SortedMap.empty] at hr
  have hrun := eq_ok_of_isOk
    ((insertEach (barMappings true (memoryWindow 0x40000000) [memoryBar 0 0x1000])).run
      (freshSet 0x1000 [0x2000]))
    (by decide +kernel)
  obtain ⟨regions, hloop⟩ := pciBarsRegister_run (fun bar hbar => by
    obtain ⟨start, hp⟩ := hplaced.placed bar hbar
    exact ⟨start, hp.start_eq⟩) hrun
  obtain ⟨ps, hquery⟩ := h 2 (memoryWindow 0x40000000) _ [memoryBar 0 0x1000] hnew hplaced _ _ hloop
    _ List.mem_cons_self 0x40000000 (by decide) 0x40000000 ⟨0x40000000, le_rfl, by decide, rfl⟩
  have hnot : ((endState ((insertEach (barMappings true (memoryWindow 0x40000000)
      [memoryBar 0 0x1000])).run (freshSet 0x1000 [0x2000]))).pageTableQuery 0x40000000).isOk =
        false := by decide +kernel
  rw [hquery] at hnot
  cases hnot

end Hvisor
