import Hvisor.Arch.Smmu
import Hvisor.Ivc
import Hvisor.Zone.RootPrivilege

/-!
# The start of a zone

`hv_zone_start` and `zone_create` as whole functions, from `hypercall/mod.rs` and `zone.rs`, with
the tables that they share with the rest of the hypervisor: the zones and the CPUs, the shared
memories, and the assignments of devices. A call runs to its end while no CPU makes any other step;
`none` is a panic, or a wait for a lock that is not given back. What `mmio_init` puts into the new
zone is a parameter, and what `pci_init` and `irq_bitmap_init` put there is left out.

## Main definitions

* `StartEnv`: the build, and the parts of the hypervisor that are parameters
* `StartState`: the state
* `ptInit`, `pciInit`: the new zone gets its memory, and devices are assigned to it
* `Machine.checkCpus`, `Machine.assignCpu`: the loops over the CPUs
* `StartState.zoneCreate`, `StartState.hvZoneStart`: the functions

## Main results

* `ste_eq_iff_of_pciInit`: when the assignment of devices changes nothing
* `checkCpus_error`, `checkCpus_ok`, `zone_withZone`: what the loops over the CPUs do
-/

namespace Hvisor

/-- The region is memory. -/
def MEM_TYPE_RAM : Nat := 0
/-- The region is one of a device. -/
def MEM_TYPE_IO : Nat := 1
/-- The region is one of a virtio device. -/
def MEM_TYPE_VIRTIO : Nat := 2

/-- Where the control region of the root zone is. -/
def HYPERAMP_CTRL_PA : Nat := 0x6e410000
/-- Its size. -/
def HYPERAMP_CTRL_SIZE : Nat := 0x1000

/-- The build, with checks of overflows or without and with its features, the allocator of frames,
and the emulation of the interrupt controller. -/
structure StartEnv (φ : Type) where
  overflowChecks : Bool
  pci : Bool
  iommu : Bool
  allocContiguous : φ → Nat → Option (Nat × φ)
  newS2MemorySet : φ → Option (MemorySet PageTableEntry × φ)
  mmioInit : NewZone → HvZoneConfig → Option NewZone
  /-- The frames after a zone is dropped. -/
  dropZone : NewZone → φ → φ

/-- The state of the hypervisor; `spaces` are the memory and the devices of each zone. -/
structure StartState (φ : Type) where
  machine : Machine
  spaces : Nat → Option NewZone
  ivc : IvcTables
  smmu : Smmu
  frames : φ

/-! ## Memory -/

/-- A region of the configuration: memory or the registers of a device, which the zone accesses, or
those of a virtio device. -/
def ptInitRegion (zone : NewZone) (region : HvConfigMemoryRegion) : Option NewZone :=
  let flags := MemFlags.READ ||| MemFlags.WRITE ||| MemFlags.EXECUTE |||
    if region.memType = MEM_TYPE_IO then MemFlags.Io else MemFlags.empty
  if region.memType = MEM_TYPE_RAM ∨ region.memType = MEM_TYPE_IO then
    (insertRegion zone.gpm
      (.newWithOffsetMapper region.virtualStart region.physicalStart region.size flags)).map
        fun gpm => { zone with gpm }
  else if region.memType = MEM_TYPE_VIRTIO then
    some (zone.mmioRegionRegister region.physicalStart region.size .mmio_virtio_handler
      region.physicalStart)
  else none

/-- `pt_init`, the result of which is unwrapped. -/
def ptInit (zone : NewZone) (regions : List HvConfigMemoryRegion) : Option NewZone :=
  regions.foldlM ptInitRegion zone

/-! ## Devices -/

section Devices

variable (overflowChecks iommu : Bool) (config : HvZoneConfig)

/-- The device at a place of the configuration is assigned to the zone; device 0 is the host
bridge. -/
def assignDevice (smmu : Smmu) (idx : Nat) : Option Smmu :=
  config.allocPciDevs[idx]?.bind fun dev =>
    if iommu && dev != 0 then iommuAddDevice overflowChecks smmu config.zoneId dev else some smmu

/-- The assignments of `pci_init`. -/
def pciInit (smmu : Smmu) : Option Smmu :=
  (List.range config.numPciDevs).foldlM (assignDevice overflowChecks iommu config) smmu

/-- The device at a place is assigned to the zone already. -/
def DeviceAssigned (smmu : Smmu) (idx : Nat) : Prop :=
  ∀ dev, config.allocPciDevs[idx]? = some dev → iommu = true → dev ≠ 0 →
    ∃ i, smmu.slot overflowChecks dev = some i ∧
      (smmu.ste i).Has config.zoneId (smmu.rootPaddr config.zoneId)

end Devices

section Devices

variable {overflowChecks iommu : Bool} {config : HvZoneConfig} {smmu smmu' : Smmu} {idx : Nat}
  {idxs : List Nat}

theorem ste_le_of_assignDevice
    (h : assignDevice overflowChecks iommu config smmu idx = some smmu') :
    smmu'.base = smmu.base ∧ smmu'.rootPaddr = smmu.rootPaddr ∧ smmu.ste ≤ smmu'.ste := by
  obtain ⟨dev, -, h⟩ := Option.bind_eq_some_iff.mp h
  split at h
  · exact ste_le_of_iommuAddDevice h
  · cases h
    exact ⟨rfl, rfl, le_rfl⟩

theorem ste_eq_iff_of_assignDevice
    (h : assignDevice overflowChecks iommu config smmu idx = some smmu') :
    smmu'.ste = smmu.ste ↔ DeviceAssigned overflowChecks iommu config smmu idx := by
  obtain ⟨dev, hdev, h⟩ := Option.bind_eq_some_iff.mp h
  simp only [DeviceAssigned, hdev, Option.some.injEq, forall_eq']
  split at h
  · next hc =>
    rw [Bool.and_eq_true, bne_iff_ne] at hc
    rw [ste_eq_iff_of_iommuAddDevice h]
    exact ⟨fun hi _ _ => hi, fun hi => hi hc.1 hc.2⟩
  · next hc =>
    cases h
    rw [Bool.and_eq_true, bne_iff_ne] at hc
    exact ⟨fun _ hi hne => absurd ⟨hi, hne⟩ hc, fun _ => rfl⟩

theorem ste_le_of_foldlM
    (h : idxs.foldlM (assignDevice overflowChecks iommu config) smmu = some smmu') :
    smmu'.base = smmu.base ∧ smmu'.rootPaddr = smmu.rootPaddr ∧ smmu.ste ≤ smmu'.ste := by
  induction idxs generalizing smmu with
  | nil =>
    cases h
    exact ⟨rfl, rfl, le_rfl⟩
  | cons idx idxs ih =>
    rw [List.foldlM_cons] at h
    obtain ⟨smmu₁, h₁, h⟩ := Option.bind_eq_some_iff.mp h
    obtain ⟨hb, hr, hle⟩ := ste_le_of_assignDevice h₁
    obtain ⟨hb', hr', hle'⟩ := ih h
    exact ⟨hb'.trans hb, hr'.trans hr, hle.trans hle'⟩

/-- The table is the same after the loop when it is the same after each assignment: none takes back
what another one wrote. -/
theorem ste_eq_iff_of_foldlM
    (h : idxs.foldlM (assignDevice overflowChecks iommu config) smmu = some smmu') :
    smmu'.ste = smmu.ste ↔ ∀ idx ∈ idxs, DeviceAssigned overflowChecks iommu config smmu idx := by
  induction idxs generalizing smmu with
  | nil =>
    cases h
    simp
  | cons idx idxs ih =>
    rw [List.foldlM_cons] at h
    obtain ⟨smmu₁, h₁, h⟩ := Option.bind_eq_some_iff.mp h
    obtain ⟨hb, hr, hle⟩ := ste_le_of_assignDevice h₁
    obtain ⟨-, -, hle'⟩ := ste_le_of_foldlM h
    rw [List.forall_mem_cons, ← ste_eq_iff_of_assignDevice h₁]
    have hfirst : smmu'.ste = smmu.ste → smmu₁.ste = smmu.ste := fun he =>
      le_antisymm (he ▸ hle') hle
    constructor
    · intro he
      have hsmmu : smmu₁ = smmu := by
        cases smmu
        cases smmu₁
        exact Smmu.mk.injEq .. ▸ ⟨hb, hfirst he, hr⟩
      exact ⟨hfirst he, hsmmu ▸ (ih h).mp (he.trans (hfirst he).symm)⟩
    · rintro ⟨he, hrest⟩
      have hsmmu : smmu₁ = smmu := by
        cases smmu
        cases smmu₁
        exact Smmu.mk.injEq .. ▸ ⟨hb, he, hr⟩
      exact ((ih h).mpr (hsmmu ▸ hrest)).trans he

/-- **The assignment of devices** changes nothing exactly when all are assigned already. -/
theorem ste_eq_iff_of_pciInit (h : pciInit overflowChecks iommu config smmu = some smmu') :
    smmu'.ste = smmu.ste ↔
      ∀ idx < config.numPciDevs, DeviceAssigned overflowChecks iommu config smmu idx := by
  simp only [ste_eq_iff_of_foldlM h, List.mem_range]

end Devices

/-! ## CPUs -/

namespace Machine

/-- The first loop of `zone_create`: the set of the CPUs, or an error when one of them has a
zone. -/
def checkCpus (s : Machine) : List Nat → CpuSet → Option (Except Unit CpuSet)
  | [], cpuSet => some (.ok cpuSet)
  | c :: todo, cpuSet =>
    match s.zone c with
    | some z => if s.writer z = none then some (.error ()) else none
    | none => if c ≤ cpuSet.maxCpuId then s.checkCpus todo (cpuSet.setBit c) else none

/-- The second loop of `zone_create`. -/
def assignCpu (config : HvZoneConfig) (cpuSet : CpuSet) (z : Nat) (s : Machine) (c : Nat) :
    Machine :=
  { s.setZone c (some z) with
    bootCpu := Function.update s.bootCpu c (cpuSet.firstCpu == some c || s.bootCpu c)
    cpuOnEntry := Function.update s.cpuOnEntry c config.entryPoint
    dtbIpa := Function.update s.dtbIpa c
      (config.dtbIpa (config.memoryRegions.toList.take config.numMemoryRegions)) }

/-- A new zone. -/
def newZone (s : Machine) (data : ZoneData) : Machine :=
  { s with zones := Function.update s.zones s.nextZone data, nextZone := s.nextZone + 1 }

/-- A new zone with its CPUs, which is not listed. -/
def withZone (s : Machine) (config : HvZoneConfig) (cpuSet : CpuSet) : Machine :=
  cpuSet.iter.foldl (assignCpu config cpuSet s.nextZone) (s.newZone ⟨config.zoneId, cpuSet⟩)

variable {s : Machine} {config : HvZoneConfig} {cpuSet cpuSet' : CpuSet} {l : List Nat} {c z : Nat}

theorem checkCpus_error (h : s.checkCpus l cpuSet = some (.error ())) :
    ∃ c ∈ l, s.zone c ≠ none := by
  induction l generalizing cpuSet with
  | nil => cases h
  | cons c l ih =>
    rw [checkCpus] at h
    split at h
    · next z hz => exact ⟨c, List.mem_cons_self, by rw [hz]; nofun⟩
    · split at h
      · obtain ⟨c', hc', hz⟩ := ih h
        exact ⟨c', List.mem_cons_of_mem _ hc', hz⟩
      · cases h

/-- The CPUs had no zones, and the set has no others. -/
theorem checkCpus_ok (h : s.checkCpus l cpuSet = some (.ok cpuSet')) :
    (∀ c ∈ l, s.zone c = none) ∧
      ∀ c, cpuSet'.containsCpu c = true → cpuSet.containsCpu c = true ∨ c ∈ l := by
  induction l generalizing cpuSet with
  | nil =>
    cases h
    exact ⟨nofun, fun _ => .inl⟩
  | cons c l ih =>
    rw [checkCpus] at h
    split at h
    · split at h <;> cases h
    · next hz =>
      split at h
      · obtain ⟨hfree, hset⟩ := ih h
        refine ⟨List.forall_mem_cons.mpr ⟨hz, hfree⟩, fun c' hc' => ?_⟩
        rcases hset c' hc' with hc' | hc'
        · rcases CpuSet.containsCpu_of_setBit hc' with hc' | rfl
          · exact .inl hc'
          · exact .inr List.mem_cons_self
        · exact .inr (List.mem_cons_of_mem _ hc')
      · cases h

theorem foldl_assignCpu (s : Machine) (l : List Nat) :
    (l.foldl (assignCpu config cpuSet z) s).zones = s.zones ∧
      ∀ c, (l.foldl (assignCpu config cpuSet z) s).zone c = if c ∈ l then some z else s.zone c := by
  induction l generalizing s with
  | nil => exact ⟨rfl, fun _ => rfl⟩
  | cons c l ih =>
    obtain ⟨hzones, hzone⟩ := ih (assignCpu config cpuSet z s c)
    rw [List.foldl_cons]
    refine ⟨hzones, fun c' => (hzone c').trans ?_⟩
    by_cases hc : c' = c
    · subst hc
      simp [assignCpu, setZone]
    · simp [assignCpu, setZone, hc]

/-- A new zone has the CPUs of its set. -/
theorem zone_withZone (s : Machine) (config : HvZoneConfig) (cpuSet : CpuSet) :
    (s.withZone config cpuSet).zones = Function.update s.zones s.nextZone ⟨config.zoneId, cpuSet⟩ ∧
      ∀ c, cpuSet.containsCpu c = true → (s.withZone config cpuSet).zone c = some s.nextZone := by
  have hloop := @foldl_assignCpu config cpuSet s.nextZone (s.newZone ⟨config.zoneId, cpuSet⟩)
    cpuSet.iter
  exact ⟨hloop.1, fun c hc => (hloop.2 c).trans (if_pos (CpuSet.mem_iter.mpr hc))⟩

end Machine

/-! ## The functions -/

section Start

variable {φ : Type} (env : StartEnv φ)

/-- `pci_init` in a build with the feature. -/
def StartEnv.assignDevices (config : HvZoneConfig) (smmu : Smmu) : Option Smmu :=
  if env.pci then pciInit env.overflowChecks env.iommu config smmu else some smmu

namespace StartState

/-- `zone_create`; the new zone by its number. -/
def zoneCreate (s : StartState φ) (config : HvZoneConfig) :
    Option (Except HvErrorNum Nat × StartState φ) := do
  match ← s.machine.findZone config.zoneId with
  | some _ => return (.error .EINVAL, s)
  | none =>
    let (gpm, frames) ← env.newS2MemorySet s.frames
    let zone ← ptInit ⟨gpm, []⟩ (← config.memoryRegionsUsed)
    let zone ← env.mmioInit zone config
    let ivcConfigs ← config.ivcConfig
    let (ivc, frames, zone) ← ivcInit env.overflowChecks env.allocContiguous config.zoneId s.ivc
      frames zone ivcConfigs
    let zone := if config.zoneId = 0 then
        zone.mmioRegionRegister HYPERAMP_CTRL_PA HYPERAMP_CTRL_SIZE .mmio_hyperamp_handler
          HYPERAMP_CTRL_PA
      else zone
    let smmu ← env.assignDevices config s.smmu
    match ← s.machine.checkCpus config.cpuList ⟨s.machine.ncpu, 0⟩ with
    | .error _ => return (.error .EBUSY, { s with ivc, smmu, frames := env.dropZone zone frames })
    | .ok cpuSet =>
      let z := s.machine.nextZone
      return (.ok z,
        ⟨s.machine.withZone config cpuSet, Function.update s.spaces z zone, ivc, smmu, frames⟩)

/-- `hv_zone_start` by the guest of CPU `p`; whether the size of the configuration is right. -/
def hvZoneStart (s : StartState φ) (p : Nat) (config : HvZoneConfig) (sizeOk : Bool) :
    Option (Except HvErrorNum Unit × StartState φ) := do
  let isRoot ← s.machine.isThisRootZone p
  if !isRoot then
    return (.error .EPERM, s)
  if !sizeOk then
    return (.error .EINVAL, s)
  match ← s.zoneCreate env config with
  | (.error e, s) => return (.error e, s)
  | (.ok z, s) =>
    let bootCpu ← (s.machine.zones z).cpuSet.firstCpu
    if s.machine.ctrlLock bootCpu = none then
      if !s.machine.powerOn bootCpu then
        let machine := s.machine.send bootCpu .WAKEUP
        if s.machine.zoneListLock = none then
          return (.ok (),
            { s with machine := { machine with zoneList := machine.zoneList ++ [z] } })
        else none
      else
        return (.error .EBUSY, s)
    else none

end StartState

end Start

end Hvisor
