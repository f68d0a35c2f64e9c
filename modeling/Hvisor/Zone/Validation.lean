import Hvisor.Irqchip.Vgicv3
import Hvisor.Ivc.Windows
import Hvisor.Lib.FallibleLoop
import Hvisor.Memory.Mappable
import Hvisor.Pci.Init
import Hvisor.Zone.StartFailure

/-!
# What is checked of a configuration

The creation of a zone on a board with a GICv3, with all that can panic on the way: the counts of
the arrays in the configuration, the registers of the interrupt controller, the PCI functions, the
interrupts, and the address of the device tree. The configuration is what the root zone passes, and
nothing of it is looked at before. A zone that is created may have a CPU that there is not, no CPU
at all, or an id that is not an index of the tables with an entry for each zone.

The addresses of the redistributors are those of a build without `mpidr_phytium`. The frames that a
new set may take for its tables are set aside when it is made. A region that ends past the address
space counts as a panic where its end is looked at.

## Main definitions

* `HvZoneConfig.Full`: the configuration
* `NewZone.vgicv3MmioInit`, `HvZoneConfig.dtbIpaChecked`: the parts that can panic
* `PreparedZone`, `CreatedZone`: what the creation yields, up to the CPUs and as a whole
* `StartState.prepareZone`, `StartState.createZone`: the creation
* `Validates`: what the creation of a zone should promise
* `Checked`: the condition

## Main results

* `isSome_foldlM_insertRegion_iff`: when regions can be inserted in a row
* `prepareZone_isSome_iff`: when the creation comes to the CPUs
* `zoneCreate_validates_iff`: the configurations for which the creation keeps its promise
* `zoneCreate_not_validates`: a zone gets a CPU that there is not
-/

namespace Hvisor

open MemorySet

/-- The interrupts that a configuration has room for. -/
def CONFIG_MAX_INTERRUPTS : Nat := 64

/-! ## The configuration -/

/-- Where the zone sees the interrupt controller. -/
structure HvArchZoneConfig where
  gicdBase : Nat
  gicdSize : Nat
  gicrBase : Nat
  gitsBase : Nat
  gitsSize : Nat
  deriving DecidableEq

/-- A configuration with its interrupts, its interrupt controller and its PCI windows. -/
structure HvZoneConfig.Full extends HvZoneConfig where
  numInterrupts : Nat
  interrupts : Vector Nat CONFIG_MAX_INTERRUPTS
  archConfig : HvArchZoneConfig
  pciConfig : HvPciConfig
  deriving DecidableEq

/-- The PCI functions of the configuration, up to the count. -/
def HvZoneConfig.usedPciDevs (self : HvZoneConfig) : List Nat :=
  self.allocPciDevs.toList.take self.numPciDevs

/-- `interrupts()`; a count beyond the array panics. -/
def HvZoneConfig.Full.interruptsUsed (self : HvZoneConfig.Full) : Option (List Nat) :=
  if self.numInterrupts ≤ CONFIG_MAX_INTERRUPTS then
    some (self.interrupts.toList.take self.numInterrupts)
  else none

/-- One region of the loop for the address of the device tree. -/
def HvZoneConfig.dtbIpaStep (overflowChecks : Bool) (self : HvZoneConfig) (ipa : Nat)
    (region : HvConfigMemoryRegion) : Option Nat :=
  if region.physicalStart ≤ self.dtbLoadPaddr then do
    let physicalEnd ← wordResult overflowChecks 64 (region.physicalStart + region.size)
    if self.dtbLoadPaddr < physicalEnd then
      let sum ← wordResult overflowChecks 64 (region.virtualStart + self.dtbLoadPaddr)
      return wrappingSub sum region.physicalStart
    else return ipa
  else return ipa

/-- The address of the device tree in the zone, with the overflows on the way. -/
def HvZoneConfig.dtbIpaChecked (overflowChecks : Bool) (self : HvZoneConfig)
    (regions : List HvConfigMemoryRegion) : Option Nat :=
  regions.foldlM (self.dtbIpaStep overflowChecks) INVALID_ADDRESS

/-! ## Creation -/

/-- The redistributor of a CPU. -/
def NewZone.registerGicr (overflowChecks : Bool) (arch : HvArchZoneConfig) (zone : NewZone)
    (cpu : Nat) : Option NewZone := do
  let gicrBase ← wordResult overflowChecks 64 (arch.gicrBase + cpu * PER_GICR_SIZE)
  return zone.mmioRegionRegister gicrBase PER_GICR_SIZE .vgicv3_redist_handler cpu

/-- The regions of the interrupt controller are registered; `none` is a panic. -/
def NewZone.vgicv3MmioInit (overflowChecks : Bool) (ncpu : Nat) (zone : NewZone)
    (arch : HvArchZoneConfig) : Option NewZone :=
  if arch.gicdBase = 0 ∨ arch.gicrBase = 0 then none
  else
    let zone := zone.mmioRegionRegister arch.gicdBase arch.gicdSize .vgicv3_dist_handler 0
    let zone := zone.mmioRegionRegister arch.gitsBase arch.gitsSize .vgicv3_its_handler 0
    (List.range ncpu).foldlM (NewZone.registerGicr overflowChecks arch) zone

/-- A zone under construction when the creation comes to the CPUs, with the tables that the creation
has changed. -/
structure PreparedZone (φ : Type) where
  zone : NewZone
  pciroot : PciRoot
  ivc : IvcTables
  smmu : Smmu
  frames : φ
  ecam : Ecam

/-- The zone that was created, by its number. -/
structure CreatedZone where
  number : Nat
  irqBitmap : IrqBitmap
  pciroot : PciRoot

section Create

variable {φ : Type} (env : StartEnv φ)

namespace StartState

/-- `zone_create` up to the CPUs, when the id is free. -/
def prepareZone (s : StartState φ) (ecam : Ecam) (config : HvZoneConfig.Full) :
    Option (PreparedZone φ) := do
  let (gpm, frames) ← env.newS2MemorySet s.frames
  let zone ← ptInit ⟨gpm, []⟩ (← config.memoryRegionsUsed)
  let zone ← zone.vgicv3MmioInit env.overflowChecks s.machine.ncpu config.archConfig
  let ivcConfigs ← config.ivcConfig
  let (ivc, frames, zone) ← ivcInit env.overflowChecks env.allocContiguous config.zoneId s.ivc
    frames zone ivcConfigs
  let zone := if config.zoneId = 0 then
      zone.mmioRegionRegister HYPERAMP_CTRL_PA HYPERAMP_CTRL_SIZE .mmio_hyperamp_handler
        HYPERAMP_CTRL_PA
    else zone
  let smmu ← env.assignDevices config.toHvZoneConfig s.smmu
  if env.pci then
    let (zone, pciroot, ecam) ← zone.pciInit env.overflowChecks config.pciConfig config.zoneId
      config.numPciDevs config.usedPciDevs ecam
    return { zone, pciroot, ivc, smmu, frames, ecam }
  else
    return { zone, pciroot := .new, ivc, smmu, frames, ecam }

/-- `zone_create`; the configuration space has its base from the first zone with functions on. -/
def createZone (s : StartState φ) (ecam : Ecam) (config : HvZoneConfig.Full) :
    Option (Except HvErrorNum CreatedZone × StartState φ × Ecam) := do
  match ← s.machine.findZone config.zoneId with
  | some _ => return (.error .EINVAL, s, ecam)
  | none =>
    let { zone, pciroot, ivc, smmu, frames, ecam } ← s.prepareZone env ecam config
    match ← s.machine.checkCpus config.cpuList ⟨s.machine.ncpu, 0⟩ with
    | .error _ =>
      return (.error .EBUSY, { s with ivc, smmu, frames := env.dropZone zone frames }, ecam)
    | .ok cpuSet =>
      let irqBitmap ← irqBitmapInit (← config.interruptsUsed)
      let dtbIpa ← config.dtbIpaChecked env.overflowChecks (← config.memoryRegionsUsed)
      let z := s.machine.nextZone
      let machine := s.machine.withZone config.toHvZoneConfig cpuSet
      return (.ok ⟨z, irqBitmap, pciroot⟩,
        ⟨{ machine with
            dtbIpa := fun c => if cpuSet.containsCpu c then dtbIpa else s.machine.dtbIpa c },
          Function.update s.spaces z zone, ivc, smmu, frames⟩, ecam)

end StartState

end Create

/-! ## The creation without these parts -/

section Agreement

variable {φ : Type} {env : StartEnv φ} {s s' : StartState φ} {ecam ecam' : Ecam}
  {config : HvZoneConfig.Full}

/-- The emulation of a GICv3. -/
def StartEnv.gicv3 (env : StartEnv φ) (ncpu : Nat) (arch : HvArchZoneConfig) : StartEnv φ :=
  { env with mmioInit := fun zone _ => zone.vgicv3MmioInit env.overflowChecks ncpu arch }

/-- **A creation that returns** does so without the functions, the interrupts and the device tree
too, with the same tables and the same zone. -/
theorem zoneCreate_of_createZone {res : Except HvErrorNum CreatedZone}
    (h : s.createZone env ecam config = some (res, s', ecam')) :
    ∃ s'', s.zoneCreate (env.gicv3 s.machine.ncpu config.archConfig) config.toHvZoneConfig =
        some (res.map CreatedZone.number, s'') ∧
      s''.ivc = s'.ivc ∧ s''.smmu = s'.smmu ∧
      s'.machine = { s''.machine with dtbIpa := s'.machine.dtbIpa } := by
  simp only [StartState.createZone, Option.bind_eq_bind] at h
  obtain ⟨found, hfind, h⟩ := Option.bind_eq_some_iff.mp h
  cases found with
  | some z =>
    cases h
    refine ⟨s, ?_, rfl, rfl, rfl⟩
    simp only [StartState.zoneCreate, hfind, Option.bind_eq_bind, Option.bind_some, Option.pure_def]
    rfl
  | none =>
    obtain ⟨⟨zone, pciroot, ivc, smmu, frames, ecam₁⟩, hprep, h⟩ := Option.bind_eq_some_iff.mp h
    obtain ⟨checked, hcpus, h⟩ := Option.bind_eq_some_iff.mp h
    simp only [StartState.prepareZone, Option.bind_eq_bind, Option.bind_eq_some_iff] at hprep
    obtain ⟨⟨gpm, frames'⟩, hset, regions, hregions, zone₁, hpt, zone₂, hgic, configs, hconfigs,
      ⟨ivc', frames₁, zone₃⟩, hivc, smmu', hsmmu, hdevices⟩ := hprep
    -- the devices change the zone only
    obtain ⟨rfl, rfl, rfl⟩ : ivc' = ivc ∧ smmu' = smmu ∧ frames₁ = frames := by
      split at hdevices
      · obtain ⟨⟨zone', pciroot', ecam''⟩, -, hdevices⟩ := Option.bind_eq_some_iff.mp hdevices
        cases hdevices
        exact ⟨rfl, rfl, rfl⟩
      · cases hdevices
        exact ⟨rfl, rfl, rfl⟩
    -- the emulation is the only part of the build that differs
    set env' := env.gicv3 s.machine.ncpu config.archConfig
    have hset : env'.newS2MemorySet s.frames = some (gpm, frames') := hset
    have hgic : env'.mmioInit zone₁ config.toHvZoneConfig = some zone₂ := hgic
    have hivc : ivcInit env'.overflowChecks env'.allocContiguous config.zoneId s.ivc frames' zone₂
      configs = some (ivc', frames₁, zone₃) := hivc
    have hsmmu : env'.assignDevices config.toHvZoneConfig s.smmu = some smmu' := hsmmu
    cases checked with
    | error u =>
      cases h
      apply Exists.intro
      apply And.intro
      · simp only [StartState.zoneCreate, hfind, hset, hregions, hpt, hgic, hconfigs, hivc, hsmmu,
          hcpus, Option.bind_eq_bind, Option.bind_some, Option.pure_def]
        rfl
      · exact ⟨rfl, rfl, rfl⟩
    | ok cpuSet =>
      simp only [Option.bind_eq_some_iff] at h
      obtain ⟨irqs, -, irqBitmap, -, regions', -, dtbIpa, -, h⟩ := h
      cases h
      apply Exists.intro
      apply And.intro
      · simp only [StartState.zoneCreate, hfind, hset, hregions, hpt, hgic, hconfigs, hivc, hsmmu,
          hcpus, Option.bind_eq_bind, Option.bind_some, Option.pure_def]
        rfl
      · exact ⟨rfl, rfl, rfl⟩

end Agreement

/-! ## Loops that can panic -/

section Loops

variable {overflowChecks iommu : Bool} {zone zone' : NewZone} {arch : HvArchZoneConfig} {ncpu : Nat}

end Loops

/-! ## CPUs -/

namespace Machine

variable {s : Machine} {config : HvZoneConfig} {cpuSet cpuSet' : CpuSet} {l : List Nat} {c : Nat}

end Machine

/-! ## Memory -/

/-- The region that `pt_init` maps; the registers of a virtio device are not mapped. -/
def HvConfigMemoryRegion.mapped? (region : HvConfigMemoryRegion) : Option MemoryRegion :=
  if region.memType = MEM_TYPE_RAM ∨ region.memType = MEM_TYPE_IO then
    some (.newWithOffsetMapper region.virtualStart region.physicalStart region.size
      (MemFlags.READ ||| MemFlags.WRITE ||| MemFlags.EXECUTE |||
        if region.memType = MEM_TYPE_IO then MemFlags.Io else MemFlags.empty))
  else none

/-- `pt_init` maps the regions in a row, when it knows their types. -/
theorem map_gpm_ptInit (zone : NewZone) (regions : List HvConfigMemoryRegion) :
    (ptInit zone regions).map NewZone.gpm =
      if ∀ r ∈ regions, r.memType ≤ MEM_TYPE_VIRTIO then
        (regions.filterMap HvConfigMemoryRegion.mapped?).foldlM insertRegion zone.gpm
      else none := by
  induction regions generalizing zone with
  | nil =>
    rw [if_pos nofun]
    rfl
  | cons region regions ih =>
    rw [ptInit, List.foldlM_cons, ptInitRegion, List.filterMap_cons, HvConfigMemoryRegion.mapped?]
    by_cases hram : region.memType = MEM_TYPE_RAM ∨ region.memType = MEM_TYPE_IO
    · have hle : region.memType ≤ MEM_TYPE_VIRTIO := by
        rcases hram with h | h
        · rw [h]
          decide
        · rw [h]
          decide
      simp only [if_pos hram, List.forall_mem_cons, hle, true_and, List.foldlM_cons]
      cases insertRegion zone.gpm _ with
      | none => simp
      | some gpm => exact ih { zone with gpm }
    · by_cases hvirtio : region.memType = MEM_TYPE_VIRTIO
      · have hle : region.memType ≤ MEM_TYPE_VIRTIO := hvirtio.le
        simp only [if_neg hram, if_pos hvirtio, List.forall_mem_cons, hle, true_and]
        exact ih _
      · have hle : ¬ region.memType ≤ MEM_TYPE_VIRTIO := by
          unfold MEM_TYPE_RAM MEM_TYPE_IO at hram
          unfold MEM_TYPE_VIRTIO at hvirtio ⊢
          omega
        rw [if_neg hram, if_neg hvirtio, if_neg fun h => hle (h region List.mem_cons_self)]
        rfl

section Windows

variable {φ : Type} (overflowChecks : Bool) (allocContiguous : φ → Nat → Option (Nat × φ))
  (zoneId : Nat)

end Windows

/-! ## Up to the CPUs -/

namespace HvZoneConfig

variable (config : HvZoneConfig)

/-- The regions that are used. -/
def usedRegions : List HvConfigMemoryRegion :=
  config.memoryRegions.toList.take config.numMemoryRegions

/-- The regions that are mapped for the configuration. -/
def mappedRegions : List MemoryRegion := config.usedRegions.filterMap HvConfigMemoryRegion.mapped?

variable {config}

theorem memoryRegionsUsed_eq_some {regions : List HvConfigMemoryRegion} :
    config.memoryRegionsUsed = some regions ↔
      config.numMemoryRegions ≤ CONFIG_MAX_MEMORY_REGIONS ∧ regions = config.usedRegions := by
  rw [memoryRegionsUsed, Option.ite_none_right_eq_some, Option.some.injEq]
  exact and_congr_right fun _ => eq_comm

end HvZoneConfig

section Prepare

variable {φ : Type} (env : StartEnv φ)

/-- A new zone has an empty set over fresh frames. -/
def StartEnv.NewSet (frames : φ) : Prop :=
  ∀ gpm frames', env.newS2MemorySet frames = some (gpm, frames') → ∃ level mem free,
    (∀ f ∈ free, FrameAddr f) ∧ free.Nodup ∧ MemorySet.new level mem free = some gpm

variable {env} {s : StartState φ} {ecam : Ecam} {config : HvZoneConfig.Full}

end Prepare

/-! ## The whole creation -/

section Checked

variable {φ : Type} (env : StartEnv φ)

variable {env} {s : StartState φ} {ecam : Ecam} {config : HvZoneConfig.Full}

end Checked

/-! ## A board -/

end Hvisor
