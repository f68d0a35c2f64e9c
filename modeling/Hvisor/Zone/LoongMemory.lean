import Hvisor.Arch.LoongRefill
import Hvisor.Zone.Create

/-!
# The memory of a zone on LoongArch

`pt_init` on LoongArch maps the memory of a zone and the registers of its devices. It also maps the
first page of a virtio device, with flags that make the page one that is not valid: an access ends
in an exception, and is emulated. A CPU that runs the zone starts with an empty TLB, and refills it
from the tables.

## Main definitions

* `Loong.ptInit`: the zone gets its memory
* `Loong.tlbSystem`: the TLB of a CPU that runs the zone, over time
* `Loong.Served`: the misses that the tables serve
* `Loong.Grants`: what the configuration gives to the zone

## Main results

* `Loong.ptInit_spec`: what `pt_init` maps
* `Loong.run_agrees`: the TLB agrees with the tables at all times
* `Loong.zone_tlb_exact`: the zone reaches what its configuration says through the TLB
-/

namespace Hvisor

namespace Loong

open GenericPTE MemorySet TlbRefill TransitionSystem

/-! ## `pt_init` -/

/-- A zone under construction. -/
structure NewZone where
  gpm : Gpm
  mmio : List MMIOConfig

/-- Register a mmio region and its handler; a region with the same start keeps its size. -/
def NewZone.mmioRegionRegister (zone : NewZone) (start size : Nat) (handler : MMIOHandler)
    (arg : Nat) : NewZone :=
  { zone with
    mmio := match zone.mmio.findIdx? fun mmio => mmio.start == start with
      | some i => zone.mmio.modify i fun mmio => { mmio with handler, arg }
      | none => zone.mmio ++ [⟨start, size, handler, arg⟩] }

/-- Insert a region into the memory of the zone. -/
def gpmInsert (region : MemoryRegion) : EStateM (Fault HvError) NewZone Unit := fun zone =>
  match (insert region).run zone.gpm with
  | .ok _ gpm => .ok () { zone with gpm }
  | .error e gpm => .error e { zone with gpm }

/-- A region of the configuration: memory, the registers of a device, or a virtio device. -/
def ptInitRegion (region : HvConfigMemoryRegion) : EStateM (Fault HvError) NewZone Unit :=
  if region.memType = MEM_TYPE_RAM then
    gpmInsert (.newWithOffsetMapper region.virtualStart region.physicalStart region.size
      (MemFlags.READ ||| MemFlags.WRITE ||| MemFlags.EXECUTE))
  else if region.memType = MEM_TYPE_IO then
    gpmInsert (.newWithOffsetMapper region.virtualStart region.physicalStart region.size
      (MemFlags.READ ||| MemFlags.WRITE ||| MemFlags.Io))
  else if region.memType = MEM_TYPE_VIRTIO then do
    -- the flag is a hint to make the entry invalid
    gpmInsert (.newWithOffsetMapper region.virtualStart region.physicalStart pageSize
      MemFlags.USER)
    modify fun zone => zone.mmioRegionRegister region.physicalStart region.size
      .mmio_virtio_handler region.physicalStart
  else
    throw (hvErr .EINVAL)

/-- The loop of `pt_init`. -/
def ptInitLoop : List HvConfigMemoryRegion → EStateM (Fault HvError) NewZone Unit
  | [] => return ()
  | region :: regions => do
    ptInitRegion region
    ptInitLoop regions

/-- `pt_init`; at the end the page table is tested by querying the first page. -/
def ptInit (memRegions : List HvConfigMemoryRegion) : EStateM (Fault HvError) NewZone Unit := do
  ptInitLoop memRegions
  match memRegions.head? with
  | none => return ()
  | some first =>
    match query (← get).gpm.st first.virtualStart with
    | .error _ => throw .panic
    | .ok (resultPa, _, _) =>
      if resultPa ≠ first.physicalStart then
        throw (hvErrMsg .EINVAL "page table test failed")

/-! ## What `pt_init` maps -/

variable {zone zone' : NewZone} {region : HvConfigMemoryRegion}
  {regions : List HvConfigMemoryRegion} {m : Gpm} {r : MemoryRegion} {gpa pa : Nat}
  {executable : Bool}

/-- The flags of a type of regions; other types are not known. -/
def typeFlags (memType : Nat) : Option MemFlags :=
  if memType = MEM_TYPE_RAM then some (MemFlags.READ ||| MemFlags.WRITE ||| MemFlags.EXECUTE)
  else if memType = MEM_TYPE_IO then some (MemFlags.READ ||| MemFlags.WRITE ||| MemFlags.Io)
  else if memType = MEM_TYPE_VIRTIO then some MemFlags.USER
  else none

/-- The region of the tables for one of the configuration. -/
def stage2Region (region : HvConfigMemoryRegion) (flags : MemFlags) : MemoryRegion :=
  .newWithOffsetMapper region.virtualStart region.physicalStart
    (if region.memType = MEM_TYPE_VIRTIO then pageSize else region.size) flags

theorem marked_of_typeFlags {memType : Nat} {flags : MemFlags}
    (h : typeFlags memType = some flags) : Marked flags := by
  rw [typeFlags] at h
  split_ifs at h <;> obtain rfl := Option.some.inj h <;> decide

theorem gpmInsert_ok (hrun : (gpmInsert r).run zone = .ok () zone') :
    (insert r).run zone.gpm = .ok () zone'.gpm := by
  simp only [gpmInsert, EStateM.run] at hrun ⊢
  cases hins : insert r zone.gpm with
  | error e gpm => simp only [hins, reduceCtorEq] at hrun
  | ok u gpm =>
    simp only [hins, EStateM.Result.ok.injEq, true_and] at hrun
    rw [← hrun]

/-- **One region** is of a type that is known, and is inserted with the flags of its type. -/
theorem ptInitRegion_ok (hrun : (ptInitRegion region).run zone = .ok () zone') :
    ∃ flags, typeFlags region.memType = some flags ∧
      (insert (stage2Region region flags)).run zone.gpm = .ok () zone'.gpm := by
  rw [ptInitRegion] at hrun
  split_ifs at hrun with hram hio hvirtio
  · have hsize : ¬ region.memType = MEM_TYPE_VIRTIO := by
      rw [hram]
      decide
    refine ⟨_, by rw [typeFlags, if_pos hram], ?_⟩
    rw [stage2Region, if_neg hsize]
    exact gpmInsert_ok hrun
  · have hsize : ¬ region.memType = MEM_TYPE_VIRTIO := by
      rw [hio]
      decide
    refine ⟨_, by rw [typeFlags, if_neg hram, if_pos hio], ?_⟩
    rw [stage2Region, if_neg hsize]
    exact gpmInsert_ok hrun
  · refine ⟨_, by rw [typeFlags, if_neg hram, if_neg hio, if_pos hvirtio], ?_⟩
    rw [stage2Region, if_pos hvirtio]
    rw [EStateM.run_bind] at hrun
    cases hins : (gpmInsert (.newWithOffsetMapper region.virtualStart region.physicalStart pageSize
        MemFlags.USER)).run zone with
    | error e zone₁ => simp only [hins, reduceCtorEq] at hrun
    | ok u zone₁ =>
      have hgpm := gpmInsert_ok hins
      simp only [hins, EStateM.run_modify, EStateM.Result.ok.injEq, true_and] at hrun
      rw [← hrun]
      exact hgpm
  · simp [hvErr, EStateM.run_throw] at hrun

/-- The regions of the configuration that are recorded. -/
def Recorded (regions : List HvConfigMemoryRegion) (r : MemoryRegion) : Prop :=
  ∃ region ∈ regions, ∃ flags, typeFlags region.memType = some flags ∧
    (stage2Region region flags).size ≠ 0 ∧ r = stage2Region region flags

theorem ptInitLoop_spec (h : History zone.gpm)
    (hrun : (ptInitLoop regions).run zone = .ok () zone') :
    History zone'.gpm ∧ ∀ r, zone'.gpm.Has r ↔ zone.gpm.Has r ∨ Recorded regions r := by
  induction regions generalizing zone with
  | nil =>
    cases hrun
    exact ⟨h, fun r => by simp [Recorded]⟩
  | cons region regions ih =>
    rw [ptInitLoop, EStateM.run_bind] at hrun
    cases hone : (ptInitRegion region).run zone with
    | error e zone₁ => simp only [hone, reduceCtorEq] at hrun
    | ok u zone₁ =>
      simp only [hone] at hrun
      obtain ⟨flags, hflags, hins⟩ := ptInitRegion_ok hone
      have hmark := marked_of_typeFlags hflags
      have hhas := (h.synced.insert hmark hins).2
      obtain ⟨hhist, hrest⟩ := ih (.insert h hmark hins) hrun
      refine ⟨hhist, fun r => ?_⟩
      have hfirst : (stage2Region region flags).size ≠ 0 ∧ r = stage2Region region flags ↔
          ∃ flags, typeFlags region.memType = some flags ∧
            (stage2Region region flags).size ≠ 0 ∧ r = stage2Region region flags := by
        simp only [hflags, Option.some.injEq, exists_eq_left']
      rw [hrest, hhas, Recorded, Recorded, List.exists_mem_cons_iff, ← hfirst, or_assoc]

/-- **`pt_init` maps the regions of the configuration**, and nothing else. -/
theorem ptInit_spec (h : History zone.gpm) (hrun : (ptInit regions).run zone = .ok () zone') :
    History zone'.gpm ∧ ∀ r, zone'.gpm.Has r ↔ zone.gpm.Has r ∨ Recorded regions r := by
  rw [ptInit, EStateM.run_bind] at hrun
  cases hloop : (ptInitLoop regions).run zone with
  | error e zone₁ => simp only [hloop, reduceCtorEq] at hrun
  | ok u zone₁ =>
    have hspec := ptInitLoop_spec h hloop
    simp only [hloop] at hrun
    -- the test at the end changes nothing
    cases hhead : regions.head? with
    | none =>
      simp only [hhead, EStateM.run_pure, EStateM.Result.ok.injEq, true_and] at hrun
      rwa [← hrun]
    | some first =>
      simp only [hhead, EStateM.run_bind, EStateM.run_get] at hrun
      cases hquery : query zone₁.gpm.st first.virtualStart with
      | error e => simp [hquery, EStateM.run_throw] at hrun
      | ok res =>
        simp only [hquery] at hrun
        split_ifs at hrun
        · simp [hvErrMsg, EStateM.run_throw] at hrun
        · cases hrun
          exact hspec

/-! ## The TLB over time -/

/-- What happens while a CPU runs the zone: an address is missing in the TLB and is refilled, or
something else, in which entries of the TLB may go away. -/
inductive TlbEvent where
  | refill
  | other

/-- The CPU enters the zone: it activates the tables and flushes the TLB. -/
def enterZone (m : Gpm) (c : Core) : Core := { activate m.st.pt.root c with tlb := [] }

/-- **The TLB of a CPU that runs the zone**, with the memory that the tables are in. The guest and
the hypervisor write outside the tables. -/
def tlbSystem (m : Gpm) : TransitionSystem (State × Core) TlbEvent where
  init x := x.1 = m.st ∧ ∃ c, x.2 = enterZone m c
  step x e x' := match e with
    | .refill => x'.1 = x.1 ∧ x'.2 = run setPwclPwch (physWord x.1) x.2 tlbRefillHandler
    | .other => Loong.Others x.1 x'.1 ∧ x'.2.csr .pgd = x.2.csr .pgd ∧ x'.2.tlb ⊆ x.2.tlb

/-- A miss that the tables serve: there is a table for the two megabytes around the address, or the
walk ends in physical page 0 and finds it empty. -/
def Served (x : State × Core) (e : TlbEvent) : Prop :=
  match e with
  | .refill => HasTable x.1 x.2.badv ∨ PageZeroClear x.1
  | .other => True

/-- The tables are those of the zone, and what the TLB has agrees with them. -/
structure TlbInv (m : Gpm) (x : State × Core) : Prop where
  inv : Inv x.1
  pt : x.1.pt = m.st.pt
  pageAt : pageAt x.1 = Loong.pageAt m.st
  pgd : x.2.csr .pgd = BitVec.ofNat 64 m.st.pt.root
  agrees : ∀ t ∈ x.2.tlb, Agrees m.st t

theorem pageBits_congr {s s' : State} (h : Loong.pageAt s' = Loong.pageAt s) (gpa : Nat) :
    pageBits s' gpa = pageBits s gpa := by rw [pageBits, pageBits, h]

/-- **One step** keeps the TLB in agreement with the tables. -/
theorem TlbInv.step {x x' : State × Core} {e : TlbEvent} (h : TlbInv m x) (hserved : Served x e)
    (hstep : (tlbSystem m).step x e x') : TlbInv m x' := by
  cases e with
  | refill =>
    obtain ⟨hmem, hcore⟩ := hstep
    have hpgd : x.2.csr .pgd = BitVec.ofNat 64 x.1.pt.root := by rw [h.pgd, h.pt]
    obtain ⟨-, hkept, t, htlb, -, hagree⟩ := handler_refines h.inv hpgd hserved
    rw [← hcore] at hkept htlb
    refine ⟨hmem ▸ h.inv, by rw [hmem, h.pt], by rw [hmem, h.pageAt], hkept.trans h.pgd, ?_⟩
    -- the new entry has what the tables have now, which is what they had
    rw [htlb, List.forall_mem_cons]
    refine ⟨fun gpa hgpa => ?_, h.agrees⟩
    rw [hagree gpa hgpa]
    exact pageBits_congr h.pageAt gpa
  | other =>
    obtain ⟨hothers, hpgd, hsub⟩ := hstep
    exact ⟨hothers.inv h.inv, hothers.pt.trans h.pt, (hothers.pageAt_eq h.inv).trans h.pageAt,
      hpgd.trans h.pgd, fun t ht => h.agrees t (hsub ht)⟩

/-- **The TLB agrees with the tables at all times**, when the misses are served. -/
theorem run_agrees (h : Inv m.st) {events : List TlbEvent} {x : State × Core}
    (r : ((tlbSystem m).restrict Served).Run events x) : TlbInv m x := by
  induction r with
  | start hi =>
    obtain ⟨hst, c, hc⟩ := hi
    refine ⟨hst ▸ h, by rw [hst], by rw [hst], ?_, ?_⟩
    · rw [hc]
      exact Function.update_self Csr.pgd (BitVec.ofNat 64 m.st.pt.root) c.csr
    · rw [hc]
      exact fun t ht => absurd ht List.not_mem_nil
  | next _ hs ih => exact ih.step hs.1 hs.2

/-! ## What the configuration gives to a zone -/

/-- The physical address of an address of a region, in the bits that the CPU has; the hypervisor
drops the offset of the physical start in its page. -/
def hostAddr (region : HvConfigMemoryRegion) (va : Nat) : Nat :=
  (region.physicalStart / 4096 * 4096 + (va - region.virtualStart)) % 2 ^ 48

/-- What the type of a region gives: memory, or the registers of a device. -/
def TypeGives (memType : Nat) (executable : Bool) : Prop :=
  memType = MEM_TYPE_RAM ∧ executable = true ∨ memType = MEM_TYPE_IO ∧ executable = false

/-- **What the configuration gives to the zone**: memory, from which it may take instructions, and
devices. -/
def Grants (regions : List HvConfigMemoryRegion) (gpa pa : Nat) (executable : Bool) : Prop :=
  ∃ region ∈ regions, ∃ va, TypeGives region.memType executable ∧
    region.virtualStart ≤ va ∧ va < region.virtualStart + region.size ∧
    va % 2 ^ 48 = gpa % 2 ^ 48 ∧ hostAddr region va = pa

theorem target_newWithOffsetMapper {start paddr size va : Nat} {flags : MemFlags}
    (hstart : start % 4096 = 0) (hp : paddr < 2 ^ 64) (hle : start ≤ va) (hva : va < 2 ^ 64) :
    target (.newWithOffsetMapper start paddr size flags) va =
      (paddr / 4096 * 4096 + (va - start)) % 2 ^ 48 := by
  have hmap : wrappingSub (va - va % 4096) (wrappingSub start paddr) =
      (paddr + (va - start - va % 4096)) % 2 ^ 64 := by
    unfold wrappingSub usizeSize
    omega
  have hlt : (paddr + (va - start - va % 4096)) % 2 ^ 64 < 2 ^ 64 := Nat.mod_lt _ (by norm_num)
  rw [target, MemoryRegion.newWithOffsetMapper, Mapper.mapFn, hmap, PageSize.alignDown_eq _ hlt]
  show ((paddr + (va - start - va % 4096)) % 2 ^ 64 -
    (paddr + (va - start - va % 4096)) % 2 ^ 64 % 4096) % 2 ^ 48 + va % 4096 = _
  omega

theorem typeGives_iff {memType : Nat} {flags : MemFlags} (h : typeFlags memType = some flags) :
    flags.contains MemFlags.USER = false ∧ flags.contains MemFlags.EXECUTE = executable ↔
      TypeGives memType executable := by
  rw [typeFlags] at h
  split_ifs at h with hram hio hvirtio <;> obtain rfl := Option.some.inj h
  · rw [TypeGives, hram]
    cases executable <;> decide
  · rw [TypeGives, hio]
    cases executable <;> decide
  · rw [TypeGives, hvirtio]
    cases executable <;> decide

theorem TypeGives.exists_flags {memType : Nat} (h : TypeGives memType executable) :
    memType ≠ MEM_TYPE_VIRTIO ∧ ∃ flags, typeFlags memType = some flags := by
  rcases h with ⟨rfl, -⟩ | ⟨rfl, -⟩
  · exact ⟨by decide, _, rfl⟩
  · exact ⟨by decide, _, rfl⟩

/-- The recorded regions give what the configuration does. -/
theorem regionsTranslate_iff (h : m.WellFormed) (hhas : ∀ r, m.Has r ↔ Recorded regions r)
    (hword : ∀ region ∈ regions, region.physicalStart < 2 ^ 64) :
    RegionsTranslate m gpa pa executable ↔ Grants regions gpa pa executable := by
  have htarget : ∀ region ∈ regions, ∀ flags va, m.Has (stage2Region region flags) →
      (stage2Region region flags).Mem va → target (stage2Region region flags) va =
        hostAddr region va := by
    intro region hregion flags va hr hva
    have hlt : va < 2 ^ 64 := hva.2.trans (h.bound _ hr)
    exact target_newWithOffsetMapper (h.aligned _ hr).1 (hword region hregion) hva.1 hlt
  have hsize : ∀ region flags, TypeGives region.memType executable →
      (stage2Region region flags).size = region.size := by
    intro region flags hgives
    exact if_neg hgives.exists_flags.1
  constructor
  · rintro ⟨r, va, hr, hva, hmod, huser, rfl, hexec⟩
    obtain ⟨region, hregion, flags, hflags, -, rfl⟩ := (hhas r).mp hr
    have hgives := (typeGives_iff hflags).mp ⟨huser, hexec⟩
    have hhi := hva.2
    rw [hsize region flags hgives] at hhi
    have hpa := htarget region hregion flags va hr hva
    exact ⟨region, hregion, va, hgives, hva.1, hhi, hmod, hpa.symm⟩
  · rintro ⟨region, hregion, va, hgives, hlo, hhi, hmod, rfl⟩
    obtain ⟨-, flags, hflags⟩ := hgives.exists_flags
    obtain ⟨huser, hexec⟩ := (typeGives_iff hflags).mpr hgives
    have hva : (stage2Region region flags).Mem va := by
      refine ⟨hlo, ?_⟩
      rw [hsize region flags hgives]
      exact hhi
    have hne : (stage2Region region flags).size ≠ 0 := by
      have hlt := hva.1.trans_lt hva.2
      omega
    have hr := (hhas _).mpr ⟨region, hregion, flags, hflags, hne, rfl⟩
    exact ⟨_, va, hr, hva, hmod, huser, htarget region hregion flags va hr hva, hexec⟩

/-- **A zone reaches what its configuration says through the TLB**, in every run after `pt_init`
whose misses are served: an entry of the TLB that is for an address leads to the memory or the
device that the configuration has there, and to nothing where it has none, as for the registers of
a virtio device. -/
theorem zone_tlb_exact {mem : Nat → PageTableEntry} {free : List Nat} {st : State}
    (hframe : ∀ f ∈ free, IsFrame f) (hnodup : free.Nodup) (hnew : Loong.new mem free = some st)
    (hword : ∀ region ∈ regions, region.physicalStart < 2 ^ 64)
    (hinit : (ptInit regions).run ⟨⟨.empty, st⟩, []⟩ = .ok () zone) {events : List TlbEvent}
    {x : State × Core} (hrun : ((tlbSystem zone.gpm).restrict Served).Run events x) {t : TlbEntry}
    (ht : t ∈ x.2.tlb) (hhit : Hits t gpa) :
    translate (word t gpa) gpa = some (pa, executable) ↔ Grants regions gpa pa executable := by
  obtain ⟨hhist, hhas⟩ := ptInit_spec (.new hframe hnodup hnew) hinit
  have hsync := hhist.synced
  -- the set was empty before
  have hnone : ∀ r, ¬ Has (⟨.empty, st⟩ : Gpm) r := by
    intro r hr
    rw [Has, SortedMap.mem_values] at hr
    obtain ⟨k, hk⟩ := hr
    exact SortedMap.not_mem_empty hk
  have hrecorded : ∀ r, zone.gpm.Has r ↔ Recorded regions r := by
    intro r
    rw [hhas]
    exact or_iff_right (hnone r)
  rw [(run_agrees hsync.inv hrun).agrees t ht gpa hhit, hsync.translate_iff,
    regionsTranslate_iff hsync.wf hrecorded hword]

/-- A CPU that enters the zone may miss any address at first, and has the pair of pages around it
afterwards. -/
theorem exists_run_refill (h : Inv m.st) {va : Nat} (hva : va < 2 ^ 64)
    (htable : HasTable m.st va) :
    ∃ x t, ((tlbSystem m).restrict Served).Run [.refill] x ∧ t ∈ x.2.tlb ∧
      t.vppn = pairOf setPwclPwch va := by
  let c : Core := enterZone m
    ⟨fun _ => 0, Function.update (fun _ => 0) .tlbrbadv (BitVec.ofNat 64 va), []⟩
  have hbadv : c.badv = va := by
    simp only [Core.badv, c, enterZone, activate, Core.setCsr_csr, reduceCtorEq, if_false,
      Function.update_self, BitVec.toNat_ofNat]
    exact Nat.mod_eq_of_lt hva
  have hserved : Served (m.st, c) .refill := .inl (hbadv.symm ▸ htable)
  have hpgd : c.csr .pgd = BitVec.ofNat 64 m.st.pt.root := by
    simp only [c, enterZone, activate, Core.setCsr_csr, if_true]
  obtain ⟨-, -, t, htlb, hhit, -⟩ := handler_refines h hpgd hserved
  refine ⟨(m.st, run setPwclPwch (physWord m.st) c tlbRefillHandler), t,
    .next (.start ⟨rfl, _, rfl⟩) ⟨hserved, rfl, rfl⟩, ?_, ?_⟩
  · show t ∈ (run setPwclPwch (physWord m.st) c tlbRefillHandler).tlb
    rw [htlb]
    exact List.mem_cons_self
  · rw [← hbadv]
    exact hhit

/-- A page of memory, and a virtio device after it. -/
def ramAndVirtio : List HvConfigMemoryRegion :=
  [⟨MEM_TYPE_RAM, 0x10000000, 0, 0x1000⟩, ⟨ MEM_TYPE_VIRTIO, 0x1000, 0x1000, 0x200⟩]

/-- A CPU enters the zone and misses its first address: it finds memory there afterwards, and the
device, which is in the same pair of pages, is not valid. -/
theorem zone_tlb_exact_ramAndVirtio :
    ∃ (zone : NewZone) (x : State × Core) (t : TlbEntry),
      ((tlbSystem zone.gpm).restrict Served).Run [.refill] x ∧ t ∈ x.2.tlb ∧
        translate (word t 0x10) 0x10 = some (0x10000010, true) ∧
          translate (word t 0x1010) 0x1010 = none := by
  have hinit := eq_ok_of_isOk ((ptInit ramAndVirtio).run
    ⟨⟨.empty, freshTable fun _ => zero⟩, []⟩) (by decide +kernel)
  have hnew : Loong.new (fun _ => zero) poolFrames = some (freshTable fun _ => zero) := rfl
  generalize endState ((ptInit ramAndVirtio).run ⟨⟨.empty, freshTable fun _ => zero⟩, []⟩) = zone
    at hinit
  obtain ⟨hhist, hhas⟩ := ptInit_spec (.new isFrame_poolFrames (by decide) hnew) hinit
  -- the page is recorded, so there is a table around it
  let page : HvConfigMemoryRegion := ⟨MEM_TYPE_RAM, 0x10000000, 0, 0x1000⟩
  have hpage : Recorded ramAndVirtio (stage2Region page _) :=
    ⟨page, List.mem_cons_self, _, rfl, by decide, rfl⟩
  have hin : (stage2Region page (MemFlags.READ ||| MemFlags.WRITE ||| MemFlags.EXECUTE)).Mem 0 := by
    decide
  have htable : HasTable zone.gpm.st 0 :=
    hhist.synced.hasTable ((hhas _).mpr (.inr hpage)) hin rfl
  obtain ⟨x, t, hrun, ht, hpair⟩ := exists_run_refill hhist.synced.inv (by norm_num) htable
  have hexact : ∀ gpa, pairOf setPwclPwch 0 = pairOf setPwclPwch gpa → ∀ pa executable,
      translate (word t gpa) gpa = some (pa, executable) ↔
        Grants ramAndVirtio gpa pa executable := fun gpa hgpa pa executable =>
    zone_tlb_exact isFrame_poolFrames (by decide) hnew (by decide) hinit hrun ht (hpair.trans hgpa)
  refine ⟨zone, x, t, hrun, ht, (hexact 0x10 rfl _ _).mpr ?_, ?_⟩
  · exact ⟨page, List.mem_cons_self, 0x10, .inl ⟨rfl, rfl⟩, by decide, by decide, rfl, by decide⟩
  · apply Option.eq_none_iff_forall_ne_some.mpr
    rintro ⟨pa, executable⟩ h
    obtain ⟨region, hregion, va, hgives, -, hhi, hmod, -⟩ := (hexact 0x1010 rfl _ _).mp h
    rcases List.mem_cons.mp hregion with rfl | hregion
    · have hhi : va < 0x1000 := hhi
      omega
    · obtain rfl := List.mem_singleton.mp hregion
      exact hgives.exists_flags.1 rfl

end Loong

end Hvisor
