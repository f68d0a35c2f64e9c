import Hvisor.Ivc
import Hvisor.Memory.Growth

/-!
# The windows of a zone on a shared memory

What the page table of a zone answers for its windows on a shared memory, after the zone has become
a peer: the physical addresses and the flags, section by section.

## Main definitions

* `HvIvcConfig.windowSize`: the bytes of all sections
* `HvIvcConfig.flagsAt`: the flags at an offset
* `IsSection`: the region of an output section
* `Windows`: the windows of a configuration are mapped

## Main results

* `mem_ivcRegions`: the regions of the windows
* `grows_of_foldlM`, `query_of_foldlM`: what insertions in a row keep and add
* `target_of_mem`, `exists_mem_of_lt`: the regions reach the offsets of the windows, and no others
* `Windows.query`: the answer at an offset of the windows
-/

namespace Hvisor

open MemorySet

/-! ## Sections -/

namespace HvIvcConfig

variable (config : HvIvcConfig)

/-- The bytes of all sections. -/
def windowSize : Nat := config.rwSecSize + config.maxPeers * config.outSecSize

/-- Where an output section starts. -/
def secOffset (i : Nat) : Nat := config.rwSecSize + i * config.outSecSize

/-- The offset is in an output section. -/
def InSection (i o : Nat) : Prop := config.secOffset i ≤ o ∧ o < config.secOffset (i + 1)

/-- The flags of an output section. -/
def secFlags (i : Nat) : MemFlags :=
  if i = config.peerId then MemFlags.READ ||| MemFlags.WRITE else MemFlags.READ

/-- The flags at an offset. -/
def flagsAt (o : Nat) : MemFlags :=
  if o < config.rwSecSize then MemFlags.READ ||| MemFlags.WRITE
  else config.secFlags ((o - config.rwSecSize) / config.outSecSize)

variable {config} {i o : Nat}

theorem secOffset_succ : config.secOffset (i + 1) = config.secOffset i + config.outSecSize := by
  rw [secOffset, secOffset, Nat.succ_mul]
  omega

/-- An offset behind the first section is in an output section. -/
theorem exists_section (hrw : config.rwSecSize ≤ o) (ho : o < config.windowSize) :
    (o - config.rwSecSize) / config.outSecSize < config.maxPeers ∧
      config.InSection ((o - config.rwSecSize) / config.outSecSize) o := by
  rw [windowSize] at ho
  have hlt : o - config.rwSecSize < config.maxPeers * config.outSecSize := by omega
  have hpos : 0 < config.outSecSize := by
    apply Nat.pos_of_ne_zero
    intro h
    rw [h, Nat.mul_zero] at hlt
    omega
  refine ⟨(Nat.div_lt_iff_lt_mul hpos).mpr hlt, ?_⟩
  have hdiv := Nat.div_mul_le_self (o - config.rwSecSize) config.outSecSize
  have hmod :=
    Nat.lt_mul_of_div_lt (Nat.lt_succ_self ((o - config.rwSecSize) / config.outSecSize)) hpos
  rw [InSection, secOffset, secOffset]
  constructor
  · omega
  · rw [Nat.succ_eq_add_one] at hmod
    omega

theorem div_of_inSection (h : config.InSection i o) :
    config.rwSecSize ≤ o ∧ (o - config.rwSecSize) / config.outSecSize = i := by
  obtain ⟨hlo, hhi⟩ := h
  rw [secOffset] at hlo hhi
  refine ⟨by omega, ?_⟩
  apply Nat.div_eq_of_lt_le
  · omega
  · omega

theorem flagsAt_of_inSection (h : config.InSection i o) : config.flagsAt o = config.secFlags i := by
  obtain ⟨hrw, hdiv⟩ := div_of_inSection h
  rw [flagsAt, if_neg (by omega), hdiv]

end HvIvcConfig

/-! ## Regions -/

section Regions

variable {overflowChecks : Bool} {config : HvIvcConfig} {startPaddr : Nat}
  {regions : List MemoryRegion}
  {region : MemoryRegion}

theorem mem_mapM_option {α β : Type} {f : α → Option β} {l : List α} {ys : List β}
    (h : l.mapM f = some ys) (y : β) : y ∈ ys ↔ ∃ x ∈ l, f x = some y := by
  induction l generalizing ys with
  | nil =>
    cases h
    simp
  | cons x l ih =>
    rw [List.mapM_cons] at h
    obtain ⟨y₀, hy₀, h⟩ := Option.bind_eq_some_iff.mp h
    obtain ⟨ys₀, hys₀, h⟩ := Option.bind_eq_some_iff.mp h
    cases h
    rw [List.mem_cons, ih hys₀, List.exists_mem_cons_iff, hy₀, Option.some.injEq, eq_comm]

theorem exists_of_mapM_option {α β : Type} {f : α → Option β} {l : List α} {ys : List β}
    (h : l.mapM f = some ys) (x : α) (hx : x ∈ l) : ∃ y, f x = some y := by
  induction l generalizing ys with
  | nil => cases hx
  | cons x₀ l ih =>
    rw [List.mapM_cons] at h
    obtain ⟨y₀, hy₀, h⟩ := Option.bind_eq_some_iff.mp h
    obtain ⟨ys₀, hys₀, -⟩ := Option.bind_eq_some_iff.mp h
    rcases List.mem_cons.mp hx with rfl | hx
    · exact ⟨y₀, hy₀⟩
    · exact ih hys₀ hx

/-- The region of an output section. -/
def IsSection (overflowChecks : Bool) (config : HvIvcConfig) (startPaddr i : Nat)
    (region : MemoryRegion) : Prop :=
  ∃ ipa paddr, wordResult overflowChecks 64 (config.sharedMemIpa + config.secOffset i) = some ipa ∧
    wordResult overflowChecks 64 (startPaddr + config.secOffset i) = some paddr ∧
    region = .newWithOffsetMapper ipa paddr config.outSecSize (config.secFlags i)

/-- **The regions of the windows**: the first section, and one for each peer. -/
theorem mem_ivcRegions (h : ivcRegions overflowChecks config startPaddr = some regions) :
    region ∈ regions ↔
      region = .newWithOffsetMapper config.sharedMemIpa startPaddr config.rwSecSize
        (MemFlags.READ ||| MemFlags.WRITE) ∨
      ∃ i < config.maxPeers, IsSection overflowChecks config startPaddr i region := by
  obtain ⟨rest, hrest, h⟩ := Option.bind_eq_some_iff.mp h
  cases h
  rw [List.mem_cons, mem_mapM_option hrest]
  simp only [List.mem_range, Option.bind_eq_bind, Option.bind_eq_some_iff, Option.pure_def,
    Option.some.injEq, IsSection, HvIvcConfig.secOffset, HvIvcConfig.secFlags, ← Nat.add_assoc]
  apply or_congr Iff.rfl
  constructor
  · rintro ⟨i, hi, ipa, hipa, paddr, hpaddr, rfl⟩
    exact ⟨i, hi, ipa, paddr, hipa, hpaddr, rfl⟩
  · rintro ⟨i, hi, ipa, paddr, hipa, hpaddr, rfl⟩
    exact ⟨i, hi, ipa, hipa, paddr, hpaddr, rfl⟩

/-- Each peer has an output section. -/
theorem exists_section_of_lt (h : ivcRegions overflowChecks config startPaddr = some regions)
    {i : Nat}
    (hi : i < config.maxPeers) : ∃ r ∈ regions, IsSection overflowChecks config startPaddr i r := by
  obtain ⟨rest, hrest, h⟩ := Option.bind_eq_some_iff.mp h
  cases h
  obtain ⟨r, hr⟩ := exists_of_mapM_option hrest i (List.mem_range.mpr hi)
  have hmem := (mem_mapM_option hrest r).mpr ⟨i, List.mem_range.mpr hi, hr⟩
  refine ⟨r, List.mem_cons_of_mem _ hmem, ?_⟩
  simp only [Option.bind_eq_bind, Option.bind_eq_some_iff, Option.pure_def, Option.some.injEq,
    Nat.add_assoc] at hr
  obtain ⟨ipa, hipa, paddr, hpaddr, rfl⟩ := hr
  exact ⟨ipa, paddr, hipa, hpaddr, rfl⟩

/-- The physical address at a distance from the start of a region. -/
theorem mapFn_newWithOffsetMapper {ipa paddr d : Nat} (size : Nat) (flags : MemFlags)
    (hipa : ipa < 2 ^ 64)
    (hpaddr : paddr < 2 ^ 64) :
    (MemoryRegion.newWithOffsetMapper ipa paddr size flags).mapper.mapFn (ipa + d) =
      (paddr + d) % 2 ^ 64 := by
  simp only [MemoryRegion.newWithOffsetMapper, Mapper.mapFn, wrappingSub, usizeSize]
  omega

theorem hasOffset_newWithOffsetMapper {ipa paddr size : Nat} (flags : MemFlags)
    (hipa : ipa < 2 ^ 64)
    (hpaddr : paddr < 2 ^ 64) (hal : paddr % 4096 = 0) :
    HasOffset (.newWithOffsetMapper ipa paddr size flags) := by
  refine ⟨⟨_, Nat.mod_lt _ (by decide), rfl⟩, ?_⟩
  have hmap := mapFn_newWithOffsetMapper (d := 0) size flags hipa hpaddr
  show (MemoryRegion.newWithOffsetMapper ipa paddr size flags).mapper.mapFn ipa % 4096 = 0
  rw [Nat.add_zero, Nat.add_zero, Nat.mod_eq_of_lt hpaddr] at hmap
  rw [hmap, hal]

end Regions

/-! ## Windows in a page table -/

section Insertions

variable {gpm gpm' : MemorySet PageTableEntry} {region : MemoryRegion} {regions : List MemoryRegion}
  {va : Nat} {x : Nat × MemFlags × PageSize}

theorem insertRegion_eq_some :
    insertRegion gpm region = some gpm' ↔ (MemorySet.insert region).run gpm = .ok () gpm' := by
  rw [insertRegion]
  split
  · next hrun =>
    rw [hrun, Option.some.injEq, EStateM.Result.ok.injEq]
    exact (and_iff_right rfl).symm
  · next hrun =>
    rw [hrun]
    simp

/-- Insertions in a row keep what is mapped, and map each region. -/
theorem grows_of_foldlM (h : gpm.st.Inv) (hf : regions.foldlM insertRegion gpm = some gpm') :
    gpm.Grows gpm' ∧ ∀ r ∈ regions, gpm'.Maps r := by
  induction regions generalizing gpm with
  | nil =>
    cases hf
    exact ⟨.refl h, nofun⟩
  | cons r regions ih =>
    rw [List.foldlM_cons] at hf
    obtain ⟨gpm₁, h₁, hf⟩ := Option.bind_eq_some_iff.mp hf
    have hrun := insertRegion_eq_some.mp h₁
    have hg₁ : gpm.Grows gpm₁ := .of_insert h (.inl hrun)
    obtain ⟨hg, hmaps⟩ := ih hg₁.inv hf
    refine ⟨hg₁.trans hg, ?_⟩
    intro r' hr'
    rcases List.mem_cons.mp hr' with rfl | hr'
    · exact (Maps.of_insert h hrun).grows hg
    · exact hmaps r' hr'

/-- An answer after insertions was there before, or it is that of an address of a region. -/
theorem query_of_foldlM (h : gpm.st.Inv) (hf : regions.foldlM insertRegion gpm = some gpm')
    (hoff : ∀ r ∈ regions, r.size ≠ 0 → HasOffset r) (hq : gpm'.pageTableQuery va = .ok x) :
    gpm.pageTableQuery va = .ok x ∨
      ∃ r ∈ regions, ∃ va', r.Mem va' ∧ x.1 = (target r va').1 ∧ x.2.1 = (target r va').2 := by
  induction regions generalizing gpm with
  | nil =>
    cases hf
    exact .inl hq
  | cons r regions ih =>
    rw [List.foldlM_cons] at hf
    obtain ⟨gpm₁, h₁, hf⟩ := Option.bind_eq_some_iff.mp hf
    have hrun := insertRegion_eq_some.mp h₁
    have hg₁ : gpm.Grows gpm₁ := .of_insert h (.inl hrun)
    rcases ih hg₁.inv hf (fun r' hr' => hoff r' (List.mem_cons_of_mem _ hr')) with hold | hnew
    · -- the answer was there before the later regions
      rcases query_of_insert h (hoff r List.mem_cons_self) hrun hold with hold | ⟨va', hva', hx⟩
      · exact .inl hold
      · exact .inr ⟨r, List.mem_cons_self, va', hva', hx⟩
    · obtain ⟨r', hr', hva'⟩ := hnew
      exact .inr ⟨r', List.mem_cons_of_mem _ hr', hva'⟩

end Insertions

/-- The windows of the configuration on a shared memory are mapped. -/
def Windows (overflowChecks : Bool) (gpm : MemorySet PageTableEntry) (config : HvIvcConfig)
    (startPaddr : Nat) : Prop :=
  ∃ regions, ivcRegions overflowChecks config startPaddr = some regions ∧ ∀ r ∈ regions, gpm.Maps r

section Windows

variable {overflowChecks : Bool} {gpm gpm' : MemorySet PageTableEntry} {config : HvIvcConfig}
  {startPaddr va o : Nat} {regions : List MemoryRegion} {r : MemoryRegion}
  {x : Nat × MemFlags × PageSize}

theorem Windows.grows (h : Windows overflowChecks gpm config startPaddr) (hg : gpm.Grows gpm') :
    Windows overflowChecks gpm' config startPaddr := by
  obtain ⟨regions, hregions, hmaps⟩ := h
  exact ⟨regions, hregions, fun r hr => (hmaps r hr).grows hg⟩

/-- The regions of the windows that are not empty keep pages aligned. -/
theorem hasOffset_of_mem (hregions : ivcRegions overflowChecks config startPaddr = some regions)
    (hstart : startPaddr < 2 ^ 64) (hal : startPaddr % 4096 = 0)
    (hmaps : ∀ r ∈ regions, gpm.Maps r) (hr : r ∈ regions) (hne : r.size ≠ 0) : HasOffset r := by
  have hsize := (hmaps _ ((mem_ivcRegions hregions).mpr (.inl rfl))).size_aligned
  have hbound := (hmaps r hr).bound hne
  have halr := (hmaps r hr).size_aligned
  rcases (mem_ivcRegions hregions).mp hr with rfl | ⟨i, -, ipa, paddr, hipa, hpaddr, rfl⟩
  · exact hasOffset_newWithOffsetMapper _
      (Nat.lt_of_le_of_lt (Nat.le_add_right _ _) hbound) hstart hal
  · apply hasOffset_newWithOffsetMapper
    · rw [wordResult_mod hipa]
      exact Nat.mod_lt _ (by decide)
    · rw [wordResult_mod hpaddr]
      exact Nat.mod_lt _ (by decide)
    · -- all sections have whole pages
      have hrw : config.rwSecSize % 4096 = 0 := hsize
      have hout : i * config.outSecSize % 4096 = 0 :=
        Nat.mod_eq_zero_of_dvd (dvd_mul_of_dvd_right (Nat.dvd_of_mod_eq_zero halr) i)
      rw [wordResult_mod hpaddr, HvIvcConfig.secOffset, Nat.mod_mod_of_dvd _ (by decide)]
      omega

/-- The access flags that an entry keeps. -/
def kept (flags : MemFlags) : MemFlags :=
  flags &&& (MemFlags.READ ||| MemFlags.WRITE ||| MemFlags.Io)

/-- The target of an address in the first section. -/
theorem target_rwSection (hipa : config.sharedMemIpa < 2 ^ 64) (hstart : startPaddr < 2 ^ 64)
    (ho : o < config.rwSecSize) :
    target (.newWithOffsetMapper config.sharedMemIpa startPaddr config.rwSecSize
      (MemFlags.READ ||| MemFlags.WRITE)) (config.sharedMemIpa + o) =
      ((startPaddr + o) % 2 ^ 48, kept (config.flagsAt o)) := by
  rw [target, mapFn_newWithOffsetMapper _ _ hipa hstart, Nat.mod_mod_of_dvd _ (by decide),
    HvIvcConfig.flagsAt, if_pos ho]
  rfl

/-- The target of an address in an output section. -/
theorem IsSection.target {i d : Nat} (h : IsSection overflowChecks config startPaddr i r)
    (hd : d < config.outSecSize) :
    r.start = (config.sharedMemIpa + config.secOffset i) % 2 ^ 64 ∧ r.size = config.outSecSize ∧
      target r (r.start + d) = ((startPaddr + (config.secOffset i + d)) % 2 ^ 48,
        kept (config.flagsAt (config.secOffset i + d))) := by
  obtain ⟨ipa, paddr, hipa, hpaddr, rfl⟩ := h
  have hipa := wordResult_mod hipa
  have hpaddr := wordResult_mod hpaddr
  have hin : config.InSection i (config.secOffset i + d) := by
    rw [HvIvcConfig.InSection, HvIvcConfig.secOffset_succ]
    omega
  have hmap := mapFn_newWithOffsetMapper (d := d) config.outSecSize (config.secFlags i)
    (show ipa < 2 ^ 64 from hipa ▸ Nat.mod_lt _ (by decide))
    (show paddr < 2 ^ 64 from hpaddr ▸ Nat.mod_lt _ (by decide))
  refine ⟨hipa, rfl, ?_⟩
  show MemorySet.target _ (ipa + d) = _
  rw [MemorySet.target, hmap, hpaddr, HvIvcConfig.flagsAt_of_inSection hin,
    Nat.mod_mod_of_dvd _ (by decide), kept]
  refine Prod.ext ?_ rfl
  show (_ : Nat) = _
  omega

/-- The regions of the windows reach the sections only. -/
theorem target_of_mem (hregions : ivcRegions overflowChecks config startPaddr = some regions)
    (hstart : startPaddr < 2 ^ 64) (hbound : r.size ≠ 0 → r.start + r.size < usizeSize)
    (hr : r ∈ regions) (hva : r.Mem va) :
    ∃ o < config.windowSize, target r va =
      ((startPaddr + o) % 2 ^ 48, kept (config.flagsAt o)) := by
  obtain ⟨hlo, hhi⟩ := hva
  have hlt := hbound (by omega)
  obtain ⟨d, rfl⟩ := Nat.exists_eq_add_of_le hlo
  rcases (mem_ivcRegions hregions).mp hr with rfl | ⟨i, hi, hsec⟩
  · have hd : d < config.rwSecSize := Nat.lt_of_add_lt_add_left hhi
    refine ⟨d, ?_, target_rwSection (Nat.lt_of_le_of_lt (Nat.le_add_right _ _) hlt) hstart hd⟩
    rw [HvIvcConfig.windowSize]
    omega
  · have hsize : r.size = config.outSecSize := by
      obtain ⟨_, _, _, _, rfl⟩ := hsec
      rfl
    have hd : d < config.outSecSize := by omega
    refine ⟨config.secOffset i + d, ?_, (hsec.target hd).2.2⟩
    have hle : (i + 1) * config.outSecSize ≤ config.maxPeers * config.outSecSize :=
      Nat.mul_le_mul_right _ hi
    rw [Nat.succ_mul] at hle
    rw [HvIvcConfig.windowSize, HvIvcConfig.secOffset]
    omega

/-- Each offset of the windows is reached from an address of the zone. -/
theorem exists_mem_of_lt (hregions : ivcRegions overflowChecks config startPaddr = some regions)
    (hmaps : ∀ r ∈ regions, gpm.Maps r) (hstart : startPaddr < 2 ^ 64)
    (ho : o < config.windowSize) :
    ∃ r ∈ regions, ∃ va, r.Mem va ∧
      target r va = ((startPaddr + o) % 2 ^ 48, kept (config.flagsAt o)) ∧
      (config.sharedMemIpa + config.windowSize ≤ 2 ^ 64 → va = config.sharedMemIpa + o) := by
  by_cases hrw : o < config.rwSecSize
  · have hmem := (mem_ivcRegions hregions).mpr (.inl rfl)
    have hbound := (hmaps _ hmem).bound (Nat.ne_of_gt (Nat.zero_lt_of_lt hrw))
    refine ⟨_, hmem, config.sharedMemIpa + o, ?_, ?_, fun _ => rfl⟩
    · exact ⟨Nat.le_add_right _ _, Nat.add_lt_add_left hrw _⟩
    · exact target_rwSection (Nat.lt_of_le_of_lt (Nat.le_add_right _ _) hbound) hstart hrw
  · -- the output section of the offset
    obtain ⟨hi, hlo, hhi⟩ := HvIvcConfig.exists_section (not_lt.mp hrw) ho
    obtain ⟨r, hr, hsec⟩ := exists_section_of_lt hregions hi
    rw [HvIvcConfig.secOffset_succ] at hhi
    obtain ⟨d, hd⟩ := Nat.exists_eq_add_of_le hlo
    obtain ⟨hrstart, hrsize, htarget⟩ := hsec.target (d := d) (by omega)
    refine ⟨r, hr, r.start + d, ⟨Nat.le_add_right _ _, by omega⟩, ?_, fun hipa => ?_⟩
    · rw [htarget, ← hd]
    · rw [Nat.mod_eq_of_lt (by omega)] at hrstart
      omega

/-- The page table answers for an address of a region with its target. -/
theorem query_of_mem_regions (hregions : ivcRegions overflowChecks config startPaddr = some regions)
    (hmaps : ∀ r ∈ regions, gpm.Maps r) (hinv : gpm.st.Inv) (hstart : startPaddr < 2 ^ 64)
    (hal : startPaddr % 4096 = 0) (hr : r ∈ regions) (hva : r.Mem va) :
    ∃ ps, gpm.pageTableQuery va = .ok ((target r va).1, (target r va).2, ps) := by
  have hne : r.size ≠ 0 := fun h0 => by
    have hlt := hva.1.trans_lt hva.2
    omega
  exact (hmaps r hr).query hinv (hasOffset_of_mem hregions hstart hal hmaps hr hne) hva

/-- **The answer at an offset of the windows**, when they lie in the address space. -/
theorem Windows.query (h : Windows overflowChecks gpm config startPaddr) (hinv : gpm.st.Inv)
    (hstart : startPaddr < 2 ^ 64) (hal : startPaddr % 4096 = 0)
    (hipa : config.sharedMemIpa + config.windowSize ≤ 2 ^ 64) (ho : o < config.windowSize) :
    ∃ ps, gpm.pageTableQuery (config.sharedMemIpa + o) =
      .ok ((startPaddr + o) % 2 ^ 48, kept (config.flagsAt o), ps) := by
  obtain ⟨regions, hregions, hmaps⟩ := h
  obtain ⟨r, hr, va, hmem, htarget, hva⟩ := exists_mem_of_lt hregions hmaps hstart ho
  obtain ⟨ps, hquery⟩ := query_of_mem_regions hregions hmaps hinv hstart hal hr hmem
  rw [htarget, hva hipa] at hquery
  exact ⟨ps, hquery⟩

end Windows

end Hvisor
