import Hvisor.Pci.Bar
import Hvisor.Zone.Mmio

/-!
# Accesses of a zone to PCI functions

The windows that a zone other than the root zone has on the configuration space and on the I/O and
memory spaces of PCI, and the handler of its accesses there, from `pci/pci.rs` and
`pci/phantom_cfg.rs`. All four windows have the same handler, which takes the offset into a window
for the address of a function and a register. The bus is the physical memory; `none` is a panic.

The functions of the machine are given by what they have at their base address registers: what
belongs to a zone are the addresses at which its functions answer, and not the pages around them.

## Main definitions

* `NewZone.virtualPciMmioInit`: the windows
* `mmioPciHandler`: the handler
* `PciFunction`, `Bar.Decodes`: a function, and the addresses of the bus at which it answers
* `PciRoot.Owns`: the bytes that a zone may write
* `PciRoot.Refuses`: the writes that the handler keeps from a function

## Main results

* `mmioPciHandler_passed`: what a write in a window does
* `pci_isolation_iff`: when a write stays with what the zone owns
-/

namespace Hvisor

/-- The configuration space and the windows, with their addresses on the bus. -/
structure HvPciConfig where
  ecamBase : Nat
  ecamSize : Nat
  ioBase : Nat
  ioSize : Nat
  pciIoBase : Nat
  mem32Base : Nat
  mem32Size : Nat
  pciMem32Base : Nat
  mem64Base : Nat
  mem64Size : Nat
  pciMem64Base : Nat
  deriving DecidableEq

/-- `virtual_pci_mmio_init`: the windows, each with its base as the argument of the handler. -/
def NewZone.virtualPciMmioInit (zone : NewZone) (pciConfig : HvPciConfig) : NewZone :=
  let zone := zone.mmioRegionRegister pciConfig.ecamBase pciConfig.ecamSize .mmio_pci_handler
    pciConfig.ecamBase
  let zone :=
    if pciConfig.ioSize ≠ 0 then
      zone.mmioRegionRegister pciConfig.ioBase pciConfig.ioSize .mmio_pci_handler pciConfig.ioBase
    else zone
  let zone :=
    if pciConfig.mem32Size ≠ 0 then
      zone.mmioRegionRegister pciConfig.mem32Base pciConfig.mem32Size .mmio_pci_handler
        pciConfig.mem32Base
    else zone
  if pciConfig.mem64Size ≠ 0 then
    zone.mmioRegionRegister pciConfig.mem64Base pciConfig.mem64Size .mmio_pci_handler
      pciConfig.mem64Base
  else zone

/-- The offset of the command register. -/
def CFG_CMD_OFF : Nat := 0x4
/-- The offset of the pointer to the capabilities. -/
def CFG_CAP_PTR_OFF : Nat := 0x34
/-- The offset of the class code. -/
def CFG_CLASS_CODE_OFF : Nat := 0x8
/-- The header that a phantom function shows. -/
def PHANTOM_DEV_HEADER : Nat := 0x77777777

namespace PhantomCfg

/-- A phantom function, with its interrupts enabled. -/
def new (bdf : Nat) (command : BitVec 16) : PhantomCfg := ⟨bdf, command &&& ~~~0x400⟩

/-- The command register is written. -/
def setCmd (self : PhantomCfg) (command : BitVec 16) : PhantomCfg := { self with command }

/-- The command register is read. -/
def getCmd (self : PhantomCfg) : BitVec 16 := self.command

end PhantomCfg

variable (overflowChecks : Bool)

/-- An access in a window of PCI: passed on when the offset names an assigned function, and
otherwise when it names none of the registers that are emulated. -/
def mmioPciHandler : MMIOHandler.Run (PciRoot × Device) := fun mmio base (pciroot, bus) =>
  let regAddr := mmio.addr % 2 ^ 12
  let bdf := mmio.addr / 2 ^ 12
  if pciroot.isAssignedDevice bdf then
    (mmioPerformAccessAt overflowChecks base mmio bus).map fun (mmio, bus) =>
      (.ok (), mmio, pciroot, bus)
  else if regAddr = 0 then
    (wordResult overflowChecks 64 (base + mmio.addr)).bind fun headerAddr =>
      if bus.load headerAddr 4 = 0xffffffff then
        -- empty device
        some (.ok (), { mmio with value := 0xffffffff }, pciroot, bus)
      else
        -- phantom device
        (wordResult overflowChecks 64 (CFG_CMD_OFF + headerAddr)).map fun commandAddr =>
          let command := (bus.load commandAddr 2).setWidth 16
          (.ok (), { mmio with value := .ofNat PHANTOM_DEV_HEADER },
            { pciroot with phantomDevs := pciroot.phantomDevs ++ [.new bdf command] }, bus)
  else if regAddr = CFG_CMD_OFF then
    match pciroot.phantomDevs.findIdx? fun pdev => pdev.bdf == bdf with
    | some i =>
      if mmio.isWrite then
        some (.ok (), mmio, { pciroot with
          phantomDevs :=
            pciroot.phantomDevs.modify i (·.setCmd (mmio.value.toBitVec.setWidth 16)) },
          bus)
      else
        let command := (pciroot.phantomDevs[i]?.map PhantomCfg.getCmd).getD 0
        some (.ok (), { mmio with value := .ofNat command.toNat }, pciroot, bus)
    | none => some (.ok (), mmio, pciroot, bus)
  else if regAddr = CFG_CLASS_CODE_OFF then
    some (.ok (), if mmio.isWrite then mmio else { mmio with value := 0x1f000010 }, pciroot, bus)
  else if regAddr = CFG_CAP_PTR_OFF then
    -- can't see any capabilities
    some (.ok (), { mmio with value := 0 }, pciroot, bus)
  else
    (mmioPerformAccessAt overflowChecks base mmio bus).map fun (mmio, bus) =>
      (.ok (), mmio, pciroot, bus)

/-! ## What a zone owns -/

/-- A window on the memory or the I/O space of the bus. -/
structure PciWindow where
  cpuBase : Nat
  size : Nat
  pciBase : Nat
  isIo : Bool
  deriving DecidableEq

namespace PciWindow

variable (window : PciWindow)

/-- The CPU sees the window at the address. -/
def Has (addr : Nat) : Prop := window.cpuBase ≤ addr ∧ addr < window.cpuBase + window.size

instance : DecidablePred window.Has := fun _ => inferInstanceAs (Decidable (_ ∧ _))

/-- The address on the bus. -/
def busAddr (addr : Nat) : Nat := addr - window.cpuBase + window.pciBase

end PciWindow

namespace HvPciConfig

variable (pciConfig : HvPciConfig)

/-- The windows of the configuration. -/
def windows : List PciWindow :=
  [⟨pciConfig.ioBase, pciConfig.ioSize, pciConfig.pciIoBase, true⟩,
    ⟨pciConfig.mem32Base, pciConfig.mem32Size, pciConfig.pciMem32Base, false⟩,
    ⟨pciConfig.mem64Base, pciConfig.mem64Size, pciConfig.pciMem64Base, false⟩]

/-- A byte of the configuration space. -/
def InEcam (addr : Nat) : Prop :=
  pciConfig.ecamBase ≤ addr ∧ addr < pciConfig.ecamBase + pciConfig.ecamSize

/-- A byte of the memory of devices. -/
def InDeviceMemory (addr : Nat) : Prop :=
  ¬ pciConfig.InEcam addr ∧ ∃ window ∈ pciConfig.windows, window.Has addr

instance : DecidablePred pciConfig.InEcam := fun _ => inferInstanceAs (Decidable (_ ∧ _))

instance : DecidablePred pciConfig.InDeviceMemory := fun _ => inferInstanceAs (Decidable (_ ∧ _))

end HvPciConfig

/-- The function answers at an address of the memory or the I/O space. -/
def Bar.Decodes (isIo : Bool) (busAddr : Nat) : Bar → Prop
  | absent => False
  | mem32 log _ base | mem64 log _ base => isIo = false ∧ base ≤ busAddr ∧ busAddr < base + 2 ^ log
  | io log _ base => isIo = true ∧ base ≤ busAddr ∧ busAddr < base + 2 ^ log

instance (isIo : Bool) (busAddr : Nat) : DecidablePred (Bar.Decodes isIo busAddr)
  | .absent => inferInstanceAs (Decidable False)
  | .mem32 .. | .mem64 .. | .io .. => inferInstanceAs (Decidable (_ ∧ _ ∧ _))

/-- A function of the machine, with what it has at its base address registers. -/
structure PciFunction where
  bdf : Nat
  bars : List Bar
  valid : ∀ bar ∈ bars, bar.Valid

namespace PciRoot

variable (pciroot : PciRoot) (pciConfig : HvPciConfig) (functions : List PciFunction)

/-- The configuration space belongs to the functions of the zone, and so does the memory of devices
where they answer. -/
def Owns (addr : Nat) : Prop :=
  (pciConfig.InEcam addr → (addr - pciConfig.ecamBase) / 2 ^ 12 ∈ pciroot.allocDevs) ∧
    (pciConfig.InDeviceMemory addr → ∃ window ∈ pciConfig.windows, window.Has addr ∧
      ∃ f ∈ functions, f.bdf ∈ pciroot.allocDevs ∧
        ∃ bar ∈ f.bars, bar.Decodes window.isIo (window.busAddr addr))

instance : DecidablePred (pciroot.Owns pciConfig functions) := fun _ =>
  inferInstanceAs (Decidable (_ ∧ _))

/-- The handler keeps a write from the function: its size is none of an instruction, or its address
is not aligned, or its offset is at a register of an unassigned function that is emulated. -/
def Refuses (addr offset : Nat) (size : UInt64) : Prop :=
  size ∉ [1, 2, 4, 8] ∨ addr % size.toNat ≠ 0 ∨
    offset / 2 ^ 12 ∉ pciroot.allocDevs ∧
      offset % 2 ^ 12 ∈ [0, CFG_CMD_OFF, CFG_CLASS_CODE_OFF, CFG_CAP_PTR_OFF]

instance (addr offset : Nat) (size : UInt64) : Decidable (pciroot.Refuses addr offset size) :=
  inferInstanceAs (Decidable (_ ∨ _))

end PciRoot

/-! ## A write -/

variable {overflowChecks} {pciConfig : HvPciConfig} {pciroot : PciRoot} {mmio : MMIOAccess}
  {bus : Device} {base : Nat}

/-- The bytes of a write at its own address. -/
def busWrite (base : Nat) (mmio : MMIOAccess) : BusWrite :=
  ⟨base + mmio.addr, mmio.bytes, lowBytes mmio.value.toBitVec mmio.bytes⟩

theorem PciRoot.isAssignedDevice_iff {bdf : Nat} :
    pciroot.isAssignedDevice bdf = true ↔ bdf ∈ pciroot.allocDevs := by
  rw [PciRoot.isAssignedDevice, List.contains_iff_mem]

theorem mem_emulated {regAddr : Nat} :
    regAddr ∈ [0, CFG_CMD_OFF, CFG_CLASS_CODE_OFF, CFG_CAP_PTR_OFF] ↔
      regAddr = 0 ∨ regAddr = CFG_CMD_OFF ∨ regAddr = CFG_CLASS_CODE_OFF ∨
        regAddr = CFG_CAP_PTR_OFF := by
  simp only [List.mem_cons, List.not_mem_nil, or_false]

/-- **A write that is not refused** goes to the bus, whatever window it is in. -/
theorem mmioPciHandler_passed (hwrite : mmio.isWrite = true) (hlt : base + mmio.addr < 2 ^ 64)
    (hpass : ¬ pciroot.Refuses (base + mmio.addr) mmio.addr mmio.size) :
    mmioPciHandler overflowChecks mmio base (pciroot, bus) =
      some (.ok (), mmio, pciroot, bus.store (busWrite base mmio)) := by
  obtain ⟨hsize, hpass⟩ := not_or.mp hpass
  obtain ⟨hmod, hreg⟩ := not_or.mp hpass
  rw [not_not] at hsize hmod
  have hal : mmio.AlignedAt base := fun _ => hmod
  have hperform : mmioPerformAccessAt overflowChecks base mmio bus =
      some (mmio, bus.store (busWrite base mmio)) := by
    rw [mmioPerformAccessAt_write hwrite hlt, if_pos hal, if_pos hsize]
    rfl
  rw [mmioPciHandler]
  by_cases hassigned : pciroot.isAssignedDevice (mmio.addr / 2 ^ 12) = true
  · simp only [if_pos hassigned, hperform, Option.map_some]
  · -- the register is none of those that are emulated
    have hmem : mmio.addr / 2 ^ 12 ∉ pciroot.allocDevs := fun h =>
      hassigned (PciRoot.isAssignedDevice_iff.mpr h)
    have hother := mt mem_emulated.mpr fun h => hreg ⟨hmem, h⟩
    rw [not_or, not_or, not_or] at hother
    obtain ⟨h0, hcmd, hclass, hcap⟩ := hother
    simp only [if_neg hassigned, if_neg h0, if_neg hcmd, if_neg hclass, if_neg hcap, hperform,
      Option.map_some]

/-- **A write that is refused** leaves the bus as it was. -/
theorem mmioPciHandler_refused {res : Except HvError Unit × MMIOAccess × PciRoot × Device}
    (hwrite : mmio.isWrite = true) (hlt : base + mmio.addr < 2 ^ 64)
    (hrefuse : pciroot.Refuses (base + mmio.addr) mmio.addr mmio.size)
    (h : mmioPciHandler overflowChecks mmio base (pciroot, bus) = some res) :
    res.2.2.2 = bus := by
  -- an access to the bus writes nothing for its size, or panics for its address
  have hperform : ¬ (mmio.addr / 2 ^ 12 ∉ pciroot.allocDevs ∧
        mmio.addr % 2 ^ 12 ∈ [0, CFG_CMD_OFF, CFG_CLASS_CODE_OFF, CFG_CAP_PTR_OFF]) →
      (mmioPerformAccessAt overflowChecks base mmio bus).map (fun x =>
        ((.ok (), x.1, pciroot, x.2) : Except HvError Unit × MMIOAccess × PciRoot × Device)) =
          some res → res.2.2.2 = bus := by
    intro hreg hres
    obtain ⟨x, hx, rfl⟩ := Option.map_eq_some_iff.mp hres
    rw [mmioPerformAccessAt_write hwrite hlt] at hx
    split_ifs at hx with hal hsize
    · rcases hrefuse with hno | hmod | hemulated
      · exact absurd hsize hno
      · exact absurd (hal hsize) hmod
      · exact absurd hemulated hreg
    · rw [← Option.some.inj hx]
  rw [mmioPciHandler] at h
  by_cases hassigned : pciroot.isAssignedDevice (mmio.addr / 2 ^ 12) = true
  · simp only [if_pos hassigned] at h
    exact hperform (fun hreg => hreg.1 (PciRoot.isAssignedDevice_iff.mp hassigned)) h
  · simp only [if_neg hassigned] at h
    split at h
    · obtain ⟨headerAddr, -, h⟩ := Option.bind_eq_some_iff.mp h
      split at h
      · rw [← Option.some.inj h]
      · obtain ⟨commandAddr, -, h⟩ := Option.map_eq_some_iff.mp h
        rw [← h]
    · next h0 =>
      split at h
      · split at h
        · rw [← Option.some.inj h]
        · rw [← Option.some.inj h]
      · next hcmd =>
        split at h
        · rw [← Option.some.inj h]
        · next hclass =>
          split at h
          · rw [← Option.some.inj h]
          · next hcap =>
            refine hperform (fun hreg => ?_) h
            rcases mem_emulated.mp hreg.2 with h | h | h | h
            · exact h0 h
            · exact hcmd h
            · exact hclass h
            · exact hcap h

/-- The windows have their starts as arguments, and are all that the handler serves. -/
theorem virtualPciMmioInit_arg {zone : NewZone} {cfg : MMIOConfig}
    (hnew : ∀ cfg ∈ zone.mmio, cfg.handler ≠ .mmio_pci_handler)
    (hmem : cfg ∈ (zone.virtualPciMmioInit pciConfig).mmio)
    (hhandler : cfg.handler = .mmio_pci_handler) : cfg.arg = cfg.start := by
  -- each registration keeps it
  have hstep : ∀ {zone : NewZone} {start size : Nat},
      (∀ cfg ∈ zone.mmio, cfg.handler = .mmio_pci_handler → cfg.arg = cfg.start) →
      ∀ cfg ∈ (zone.mmioRegionRegister start size .mmio_pci_handler start).mmio,
        cfg.handler = .mmio_pci_handler → cfg.arg = cfg.start :=
    fun hzone cfg hcfg hh => by
      rcases mem_mmioRegionRegister hcfg with hold | ⟨hstart, -, harg⟩
      · exact hzone cfg hold hh
      · exact harg.trans hstart.symm
  have hopt : ∀ {zone : NewZone} {start size : Nat},
      (∀ cfg ∈ zone.mmio, cfg.handler = .mmio_pci_handler → cfg.arg = cfg.start) →
      ∀ cfg ∈ (if size ≠ 0 then zone.mmioRegionRegister start size .mmio_pci_handler start
        else zone).mmio, cfg.handler = .mmio_pci_handler → cfg.arg = cfg.start := fun hzone => by
    split
    · exact hstep hzone
    · exact hzone
  exact hopt (hopt (hopt (hstep fun cfg hcfg hh => absurd hh (hnew cfg hcfg)))) cfg hmem hhandler

/-- **Isolation of PCI**: a write that reaches the handler through one of the windows of a zone
writes nothing but what the zone owns exactly when it is refused or all its bytes are the zone's. -/
theorem pci_isolation_iff {handlers : MMIOHandler → MMIOHandler.Run (PciRoot × Device)}
    (hhandlers : handlers .mmio_pci_handler = mmioPciHandler overflowChecks)
    {zone : NewZone} (hnew : ∀ cfg ∈ zone.mmio, cfg.handler ≠ .mmio_pci_handler)
    {cfg : MMIOConfig} (hwrite : mmio.isWrite = true)
    (hfind : findMmioRegion overflowChecks (zone.virtualPciMmioInit pciConfig).mmio mmio.addr
      mmio.bytes = some (some cfg)) (hhandler : cfg.handler = .mmio_pci_handler)
    (functions : List PciFunction) (byte : Nat → BitVec 8) :
    (∀ res, mmioHandleAccess overflowChecks handlers (zone.virtualPciMmioInit pciConfig).mmio mmio
        (pciroot, ⟨byte, []⟩) = some res →
      ∀ w ∈ res.2.2.2.writes, ∀ addr, w.address ≤ addr → addr < w.address + w.size →
        pciroot.Owns pciConfig functions addr) ↔
      pciroot.Refuses mmio.addr (mmio.addr - cfg.start) mmio.size ∨
        ∀ addr, mmio.addr ≤ addr → addr < mmio.addr + mmio.bytes →
          pciroot.Owns pciConfig functions addr := by
  obtain ⟨hmem, hle⟩ := findMmioRegion_some hfind
  have haddr := toNat_sub_start hle
  have hback : cfg.start + (mmio.addr - cfg.start) = mmio.addr := Nat.add_sub_of_le hle
  rw [mmioHandleAccess_eq hfind, hhandler, hhandlers, virtualPciMmioInit_arg hnew hmem hhandler]
  set mmio' : MMIOAccess := { mmio with address := mmio.address - .ofNat cfg.start } with hmmio
  have haddr' : mmio'.addr = mmio.addr - cfg.start := haddr
  have hlt : cfg.start + mmio'.addr < 2 ^ 64 := by
    rw [haddr', hback]
    exact mmio.address.toNat_lt
  have haddr'' : cfg.start + mmio'.addr = mmio.addr := by rw [haddr', hback]
  rw [← haddr', ← haddr'']
  have hwrite' : mmio'.isWrite = true := hwrite
  by_cases hrefuse : pciroot.Refuses (cfg.start + mmio'.addr) mmio'.addr mmio'.size
  · refine iff_of_true (fun res hres w hw => ?_) (.inl hrefuse)
    rw [mmioPciHandler_refused hwrite' hlt hrefuse hres] at hw
    cases hw
  · rw [mmioPciHandler_passed hwrite' hlt hrefuse, or_iff_right hrefuse]
    constructor
    · intro h addr hlo hhi
      have hmemw : busWrite cfg.start mmio' ∈
          ((⟨byte, []⟩ : Device).store (busWrite cfg.start mmio')).writes :=
        List.mem_singleton_self _
      exact h _ rfl _ hmemw addr hlo hhi
    · rintro h res hres w hw addr hlo hhi
      obtain rfl := Option.some.inj hres
      obtain rfl : w = busWrite cfg.start mmio' := List.mem_singleton.mp hw
      exact h addr hlo hhi

/-- A configuration space of 256 MiB, without the other windows. -/
def ecamOnly : HvPciConfig := ⟨0x10000000, 0x10000000, 0, 0, 0, 0, 0, 0, 0, 0, 0⟩

/-- A zone with the host bridge and function 0 of device 1. -/
def twoFunctions : PciRoot := ⟨[], [], [0x0, 0x8], [], []⟩

/-- A zone without memory. -/
def noWindows : NewZone := ⟨freshSet 0x1000 [], []⟩

/-- A write of the first base address register of a function. -/
def barWrite (bdf : Nat) : MMIOAccess :=
  ⟨.ofNat (0x10000000 + bdf * 2 ^ 12 + 0x10), 4, true, 0x80000000⟩

theorem findMmioRegion_barWrite :
    findMmioRegion true (noWindows.virtualPciMmioInit ecamOnly).mmio (barWrite 0x8).addr
      (barWrite 0x8).bytes =
    some (some ⟨0x10000000, 0x10000000, .mmio_pci_handler, 0x10000000⟩) := by
  decide

/-- The base address register of the zone's function is written, and nothing else. -/
theorem pci_isolation_own_function :
    ∃ res, mmioHandleAccess true (fun _ => mmioPciHandler true)
        (noWindows.virtualPciMmioInit ecamOnly).mmio (barWrite 0x8)
        (twoFunctions, ⟨fun _ => 0, []⟩) = some res ∧
      res.2.2.2.writes = [⟨0x10008010, 4, 0x80000000⟩] ∧
      ∀ w ∈ res.2.2.2.writes, ∀ addr, w.address ≤ addr → addr < w.address + w.size →
        twoFunctions.Owns ecamOnly [] addr := by
  have hrun : (mmioHandleAccess true (fun _ => mmioPciHandler true)
      (noWindows.virtualPciMmioInit ecamOnly).mmio (barWrite 0x8)
      (twoFunctions, ⟨fun _ => 0, []⟩)).map (fun res => res.2.2.2.writes) =
        some [⟨0x10008010, 4, 0x80000000⟩] := by
    decide
  obtain ⟨res, hres, hwrites⟩ := Option.map_eq_some_iff.mp hrun
  have hnone : ∀ cfg ∈ noWindows.mmio, cfg.handler ≠ .mmio_pci_handler := fun _ h => by cases h
  refine ⟨res, hres, hwrites, (pci_isolation_iff rfl hnone rfl findMmioRegion_barWrite rfl
    [] fun _ => 0).mpr (.inr fun addr hlo hhi => ?_) res hres⟩
  have hlo' : 0x10008010 ≤ addr := hlo
  have hhi' : addr < 0x10008014 := hhi
  have hecam : ecamOnly.InEcam addr :=
    ⟨Nat.le_trans (by decide) hlo', Nat.lt_trans hhi' (by decide)⟩
  refine ⟨fun _ => ?_, fun hmem => absurd hecam hmem.1⟩
  have hbdf : (addr - ecamOnly.ecamBase) / 2 ^ 12 = 0x8 := by
    show (addr - 0x10000000) / 2 ^ 12 = 0x8
    omega
  rw [hbdf]
  decide

/-- Function 0 of device 2 is not the zone's, and its base address register is written. -/
theorem foreign_bar_written :
    ¬ ∀ res, mmioHandleAccess true (fun _ => mmioPciHandler true)
        (noWindows.virtualPciMmioInit ecamOnly).mmio (barWrite 0x10)
        (twoFunctions, ⟨fun _ => 0, []⟩) = some res →
      ∀ w ∈ res.2.2.2.writes, ∀ addr, w.address ≤ addr → addr < w.address + w.size →
        twoFunctions.Owns ecamOnly [] addr := fun h => by
  have hown := h _ rfl ⟨0x10010010, 4, 0x80000000⟩ (by decide) 0x10010010 (by decide) (by decide)
  revert hown
  decide

end Hvisor
