import Hvisor.Irqchip.Vgicv3

/-!
# The dispatch of the distributor

Which offsets of the distributor of a GICv3 `vgicv3_dist_handler` of `gicv3/vgic.rs` has an arm for.
The ranges of registers leave the last register out, and an offset without an arm panics. So does an
access that comes to the distributor itself at an address that is not aligned.

## Main definitions

* `IrqRegs`, `perIrqRegs`: the registers of interrupts, with the arms that check the bitmap
* `Dispatched`: an access returns, and an arm that checks the bitmap has each register of an
  interrupt
* `HasArm`: the offsets with an arm
* `ReachesDevice`: the accesses that an arm passes on to the distributor

## Main results

* `dispatched_iff`: an access is dispatched exactly when its offset has an arm, and it is aligned if
  it is passed on
-/

namespace Hvisor

/-- `num` registers of `size` bytes, each with the fields of `irqsPerReg` interrupts, the arm that
checks the bitmap for them, and the addresses at which it accesses the distributor. -/
structure IrqRegs where
  base : Nat
  num : Nat
  size : Nat
  irqsPerReg : Nat
  arm : IrqBitmap → MMIOAccess → Device → Option (MMIOAccess × Device)
  accesses : IrqBitmap → Nat → Bool

namespace IrqRegs

/-- The register at an address has a field of an interrupt below 1020. -/
def Holds (regs : IrqRegs) (addr : Nat) : Prop :=
  regs.base ≤ addr ∧ addr < regs.base + regs.num * regs.size ∧
    (addr - regs.base) / regs.size * regs.irqsPerReg < 1020

/-- A register of one interrupt. -/
def ofIrq (base size : Nat) : IrqRegs where
  base := base
  num := 1024
  size := size
  irqsPerReg := 1
  arm irqBitmap mmio dev := vgicv3HandleIrqOps irqBitmap mmio ((mmio.addr - base) / size) dev
  accesses irqBitmap addr :=
    isSpi ((addr - base) / size) && Owns irqBitmap ((addr - base) / size)

/-- A register with a field for each of its interrupts. -/
def ofBitField (r : BitFieldReg) : IrqRegs where
  base := r.base
  num := r.num
  size := 4
  irqsPerReg := 32 / r.bitsPerIrq
  arm irqBitmap mmio dev :=
    restrictBitmaskAccess irqBitmap mmio ((mmio.addr - r.base) / 4) r.bitsPerIrq r.isPoke dev
  accesses _ _ := true

end IrqRegs

/-- The registers of interrupts. -/
def perIrqRegs : List IrqRegs :=
  .ofIrq GICD_IROUTER 8 :: .ofIrq GICD_ITARGETSR 1 :: bitFieldRegs.map .ofBitField

/-- **What the dispatch should do**: the access returns; and a register with a field of an interrupt
below 1020 is handled by the arm that checks the bitmap. -/
structure Dispatched (irqBitmap : IrqBitmap) (mmio : MMIOAccess) (dev : Device) : Prop where
  returns : (vgicv3DistHandler irqBitmap mmio dev).isSome
  checked : ∀ regs ∈ perIrqRegs, regs.Holds mmio.addr →
    vgicv3DistHandler irqBitmap mmio dev = regs.arm irqBitmap mmio dev

/-- The registers that read as zero. -/
def IsIgrpmodr (addr : Nat) : Prop := 0xD00 ≤ addr ∧ addr ≤ 0xD7C

instance (addr : Nat) : Decidable (IsIgrpmodr addr) := inferInstanceAs (Decidable (_ ∧ _))

/-- The registers that a guest may read. -/
def MiscHasArm (addr : Nat) : Prop :=
  addr ∈ [GICD_CTLR, GICD_TYPER, GICD_IIDR, GICD_TYPER2] ∨ IsIgrpmodr addr ∨
    ∃ base ∈ [GICDV3_PIDR0, GICDV3_PIDR4, GICDV3_CIDR0], base ≤ addr ∧ addr < base + 3 * 4

instance (addr : Nat) : Decidable (MiscHasArm addr) := inferInstanceAs (Decidable (_ ∨ _ ∨ _))

/-- **The offsets with an arm**: those of registers of interrupts but the last one of each kind, and
those of the registers that a guest may read. -/
def HasArm (addr : Nat) : Prop :=
  (∃ regs ∈ perIrqRegs, inRegRange regs.base regs.num regs.size addr = true) ∨ MiscHasArm addr

instance (addr : Nat) : Decidable (HasArm addr) := inferInstanceAs (Decidable (_ ∨ _))

/-- **The accesses that come to the distributor**: those of registers with fields, those of a
register of one interrupt that is a shared one of the zone, and reads of the other registers. -/
def ReachesDevice (irqBitmap : IrqBitmap) (mmio : MMIOAccess) : Prop :=
  (∃ regs ∈ perIrqRegs, inRegRange regs.base regs.num regs.size mmio.addr = true ∧
    regs.accesses irqBitmap mmio.addr = true) ∨
  MiscHasArm mmio.addr ∧ ¬ IsIgrpmodr mmio.addr ∧ mmio.isWrite = false

instance (irqBitmap : IrqBitmap) (mmio : MMIOAccess) : Decidable (ReachesDevice irqBitmap mmio) :=
  inferInstanceAs (Decidable (_ ∨ _))

variable {irqBitmap : IrqBitmap} {mmio : MMIOAccess} {dev : Device}

/-! ## The arms -/

/-- The arm of a register of one interrupt passes the access on for shared interrupts of the
zone. -/
theorem isSome_vgicv3HandleIrqOps_iff (irq : Nat) :
    (vgicv3HandleIrqOps irqBitmap mmio irq dev).isSome ↔
      ((isSpi irq && Owns irqBitmap irq) = true → mmio.Aligned) := by
  rw [vgicv3HandleIrqOps, Bool.and_eq_true]
  cases hspi : isSpi irq with
  | false => exact iff_of_true rfl fun h => absurd h.1 Bool.false_ne_true
  | true =>
    have hlt : irq < 1024 := by
      rw [isSpi, decide_eq_true_iff] at hspi
      omega
    simp only [irqInZone_of_lt irqBitmap hlt, Option.bind_eq_bind, Option.bind_some, Bool.not_true,
      Bool.false_eq_true, if_false, true_and]
    cases ho : Owns irqBitmap irq with
    | false => exact iff_of_true rfl fun h => absurd h Bool.false_ne_true
    | true =>
      rw [if_pos rfl, isSome_mmioPerformAccess_iff]
      exact ⟨fun hal _ => hal, fun h => h rfl⟩

/-- The arm of a register with fields passes every access on. -/
theorem isSome_restrictBitmaskAccess_iff {regIndex bitsPerIrq : Nat} {isPoke : Bool}
    {mask : BitVec 64}
    (h : accessMask irqBitmap (regIndex * (32 / bitsPerIrq)) bitsPerIrq (32 / bitsPerIrq) =
      some mask) :
    (restrictBitmaskAccess irqBitmap mmio regIndex bitsPerIrq isPoke dev).isSome ↔
      mmio.Aligned := by
  by_cases hal : mmio.Aligned
  · refine iff_of_true ?_ hal
    have hperform : ∀ isWrite value dev, (mmioPerformAccess
        { mmio with isWrite := isWrite, value := value } dev).isSome := fun _ _ _ =>
      isSome_mmioPerformAccess_iff.mpr hal
    rw [restrictBitmaskAccess]
    simp only [h, Option.bind_eq_bind, Option.bind_some]
    split_ifs with hread hpoke
    · rw [mmioPerformAccess_eq hal]
      rfl
    · -- the register is read before it is written
      obtain ⟨⟨mmio', dev'⟩, hres⟩ := Option.isSome_iff_exists.mp (hperform false mmio.value dev)
      rw [hres, Option.bind_some]
      obtain rfl := Prod.ext_iff.mp (mmioPerformAccess_eq_some_iff.mp hres).2 |>.1
      rw [isSome_mmioPerformAccess_iff]
      refine (MMIOAccess.aligned_congr ?_ ?_).mpr hal <;> rw [Device.access] <;> split_ifs <;> rfl
    · exact hperform _ _ _
  · rw [restrictBitmaskAccess_of_not_aligned _ _ _ hal]
    exact iff_of_false Bool.false_ne_true hal

theorem isSome_vgicv3DistMiscAccess_iff :
    (vgicv3DistMiscAccess mmio dev).isSome ↔ MiscHasArm mmio.addr ∧
      (¬ IsIgrpmodr mmio.addr ∧ mmio.isWrite = false → mmio.Aligned) := by
  have hcovered : (inRegRange GICDV3_PIDR0 4 4 mmio.addr || inRegRange GICDV3_PIDR4 4 4 mmio.addr ||
      inRegRange GICDV3_CIDR0 4 4 mmio.addr || mmio.addr == GICD_CTLR || mmio.addr == GICD_TYPER ||
      mmio.addr == GICD_IIDR || mmio.addr == GICD_TYPER2 ||
      decide (0xD00 ≤ mmio.addr ∧ mmio.addr ≤ 0xD7C)) = true ↔ MiscHasArm mmio.addr := by
    simp only [Bool.or_eq_true, inRegRange_iff, beq_iff_eq, decide_eq_true_eq, MiscHasArm,
      IsIgrpmodr, List.mem_cons, List.not_mem_nil, or_false, exists_eq_or_imp, exists_eq_left]
    omega
  rw [vgicv3DistMiscAccess]
  split_ifs with hmisc hread higrpmodr
  · -- a register that reads as zero
    exact iff_of_true rfl ⟨hcovered.mp hmisc, fun h => absurd (of_decide_eq_true higrpmodr) h.1⟩
  · rw [isSome_mmioPerformAccess_iff, and_iff_right (hcovered.mp hmisc)]
    have hno : ¬ IsIgrpmodr mmio.addr := fun h => higrpmodr (decide_eq_true h)
    rw [Bool.not_eq_true'] at hread
    exact ⟨fun hal _ => hal, fun h => h ⟨hno, hread⟩⟩
  · refine iff_of_true rfl ⟨hcovered.mp hmisc, fun h => absurd h.2 ?_⟩
    simpa using hread
  · exact iff_of_false Bool.false_ne_true fun h => hmisc (hcovered.mpr h.1)

/-- A register that a range names is handled by its arm. -/
theorem vgicv3DistHandler_of_inRegRange {regs : IrqRegs} (hregs : regs ∈ perIrqRegs)
    (ha : inRegRange regs.base regs.num regs.size mmio.addr = true) :
    vgicv3DistHandler irqBitmap mmio dev = regs.arm irqBitmap mmio dev := by
  rcases List.mem_cons.mp hregs with rfl | hregs
  · exact if_pos ha
  rcases List.mem_cons.mp hregs with rfl | hregs
  · have hno : inRegRange GICD_IROUTER 1024 8 mmio.addr = false :=
      not_inRegRange ha (.inl (by decide))
    rw [vgicv3DistHandler]
    simp only [hno, Bool.false_eq_true, if_false]
    show _ = vgicv3HandleIrqOps irqBitmap mmio ((mmio.addr - GICD_ITARGETSR) / 1) dev
    rw [Nat.div_one]
    exact if_pos ha
  · obtain ⟨r, hr, rfl⟩ := List.mem_map.mp hregs
    exact vgicv3DistHandler_bitField irqBitmap hr ha dev

/-- An arm panics when it passes an access on that is not aligned. -/
theorem isSome_arm_iff {regs : IrqRegs} (hregs : regs ∈ perIrqRegs)
    (ha : inRegRange regs.base regs.num regs.size mmio.addr = true) :
    (regs.arm irqBitmap mmio dev).isSome ↔
      (regs.accesses irqBitmap mmio.addr = true → mmio.Aligned) := by
  rcases List.mem_cons.mp hregs with rfl | hregs
  · exact isSome_vgicv3HandleIrqOps_iff _
  rcases List.mem_cons.mp hregs with rfl | hregs
  · exact isSome_vgicv3HandleIrqOps_iff _
  · obtain ⟨r, hr, rfl⟩ := List.mem_map.mp hregs
    obtain ⟨mask, hmask, -⟩ := accessMask_wordIrqAt irqBitmap (wellFormed_of_mem hr) ha
    exact (isSome_restrictBitmaskAccess_iff hmask).trans ⟨fun hal _ => hal, fun h => h rfl⟩

/-- An offset that no range names is left to the last arm. -/
theorem vgicv3DistHandler_of_not_inRegRange
    (h : ∀ regs ∈ perIrqRegs, ¬ inRegRange regs.base regs.num regs.size mmio.addr = true) :
    vgicv3DistHandler irqBitmap mmio dev = vgicv3DistMiscAccess mmio dev := by
  simp only [perIrqRegs, bitFieldRegs, List.map_cons, List.map_nil, List.forall_mem_cons,
    Bool.not_eq_true, IrqRegs.ofIrq, IrqRegs.ofBitField] at h
  obtain ⟨h₀, h₁, h₂, h₃, h₄, h₅, h₆, h₇, h₈, h₉, h₁₀, -⟩ := h
  simp only [vgicv3DistHandler, h₀, h₁, h₂, h₃, h₄, h₅, h₆, h₇, h₈, h₉, h₁₀, Bool.or_self,
    Bool.false_eq_true, if_false]

/-- A register that a guest may read is no register of interrupts. -/
theorem not_inRegRange_of_misc (h : MiscHasArm mmio.addr) :
    ∀ regs ∈ perIrqRegs, ¬ inRegRange regs.base regs.num regs.size mmio.addr = true := by
  simp only [MiscHasArm, IsIgrpmodr, List.mem_cons, List.not_mem_nil, or_false, exists_eq_or_imp,
    exists_eq_left, GICD_CTLR, GICD_TYPER, GICD_IIDR, GICD_TYPER2, GICDV3_PIDR0, GICDV3_PIDR4,
    GICDV3_CIDR0] at h
  simp only [perIrqRegs, bitFieldRegs, List.map_cons, List.map_nil, List.forall_mem_cons,
    IrqRegs.ofIrq, IrqRegs.ofBitField, inRegRange_iff, GICD_IROUTER, GICD_ITARGETSR,
    GICD_ICENABLER, GICD_ISENABLER, GICD_ICPENDR, GICD_ISPENDR, GICD_ICACTIVER, GICD_ISACTIVER,
    GICD_IGROUPR, GICD_ICFGR, GICD_IPRIORITYR]
  refine ⟨?_, ?_, ?_, ?_, ?_, ?_, ?_, ?_, ?_, ?_, ?_,
    fun _ hmem => absurd hmem List.not_mem_nil⟩ <;> omega

/-! ## The last registers -/

/-- A register that has a field of an interrupt below 1020 and is left out of its range has no
arm at all. -/
theorem not_hasArm_of_holds {regs : IrqRegs} (hregs : regs ∈ perIrqRegs) {addr : Nat}
    (hholds : regs.Holds addr) (hout : ¬ inRegRange regs.base regs.num regs.size addr = true) :
    ¬ HasArm addr := by
  obtain ⟨hle, hlt, hirq⟩ := hholds
  rw [inRegRange_iff, not_and, not_lt] at hout
  have hout := hout hle
  rcases List.mem_cons.mp hregs with rfl | hregs
  · -- the last one is that of interrupt 1023
    simp only [IrqRegs.ofIrq] at hlt hirq hout hle
    omega
  rcases List.mem_cons.mp hregs with rfl | hregs
  · simp only [IrqRegs.ofIrq] at hlt hirq hout hle
    omega
  · obtain ⟨r, hr, rfl⟩ := List.mem_map.mp hregs
    have hlast : ∀ r ∈ bitFieldRegs, ∀ k < 4, ¬ HasArm (r.base + (r.num - 1) * 4 + k) := by
      decide
    have hnum : ∀ r ∈ bitFieldRegs, r.num - 1 + 1 = r.num := by decide
    simp only [IrqRegs.ofBitField] at hlt hout
    have hnum := hnum r hr
    obtain ⟨k, rfl⟩ := Nat.exists_eq_add_of_le hout
    exact hlast r hr k (by omega)

/-- **An access is dispatched** exactly when its offset has an arm, and it is aligned if it comes to
the distributor: the last register of each kind has none, and what a guest finds there is a
panic. -/
theorem dispatched_iff (irqBitmap : IrqBitmap) (mmio : MMIOAccess) (dev : Device) :
    Dispatched irqBitmap mmio dev ↔
      HasArm mmio.addr ∧ (ReachesDevice irqBitmap mmio → mmio.Aligned) := by
  by_cases hrange : ∃ regs ∈ perIrqRegs, inRegRange regs.base regs.num regs.size mmio.addr = true
  · have hcovered : HasArm mmio.addr := .inl hrange
    rw [and_iff_right hcovered]
    constructor
    · rintro ⟨hreturns, -⟩ hreach
      rcases hreach with ⟨regs, hregs, ha, haccess⟩ | ⟨hmisc, -⟩
      · rw [vgicv3DistHandler_of_inRegRange hregs ha, isSome_arm_iff hregs ha] at hreturns
        exact hreturns haccess
      · obtain ⟨regs, hregs, ha⟩ := hrange
        exact absurd ha (not_inRegRange_of_misc hmisc regs hregs)
    · intro hal
      refine ⟨?_, fun regs hregs hholds => ?_⟩
      · obtain ⟨regs, hregs, ha⟩ := hrange
        rw [vgicv3DistHandler_of_inRegRange hregs ha, isSome_arm_iff hregs ha]
        exact fun haccess => hal (.inl ⟨regs, hregs, ha, haccess⟩)
      · -- an offset that a kind holds but does not serve is the one of its last register
        apply vgicv3DistHandler_of_inRegRange hregs
        by_contra hout
        exact not_hasArm_of_holds hregs hholds hout hcovered
  · have hno : ∀ regs ∈ perIrqRegs, ¬ inRegRange regs.base regs.num regs.size mmio.addr = true :=
      fun regs hregs ha => hrange ⟨regs, hregs, ha⟩
    have hmisc : vgicv3DistHandler irqBitmap mmio dev = vgicv3DistMiscAccess mmio dev :=
      vgicv3DistHandler_of_not_inRegRange hno
    have hreach : ReachesDevice irqBitmap mmio ↔ MiscHasArm mmio.addr ∧
        ¬ IsIgrpmodr mmio.addr ∧ mmio.isWrite = false :=
      or_iff_right fun ⟨regs, hregs, ha, _⟩ => hno regs hregs ha
    constructor
    · rintro ⟨hreturns, -⟩
      rw [hmisc, isSome_vgicv3DistMiscAccess_iff] at hreturns
      exact ⟨.inr hreturns.1, fun h => hreturns.2 (hreach.mp h).2⟩
    · rintro ⟨hcovered, hal⟩
      have hmiscArm : MiscHasArm mmio.addr := hcovered.resolve_left hrange
      refine ⟨?_, fun regs hregs hholds => ?_⟩
      · rw [hmisc, isSome_vgicv3DistMiscAccess_iff]
        exact ⟨hmiscArm, fun h => hal (hreach.mpr ⟨hmiscArm, h⟩)⟩
      · exact absurd hcovered (not_hasArm_of_holds hregs hholds (hno regs hregs))

/-- A read of the enable bits of interrupts 992 to 1019 panics. -/
theorem not_dispatched : ¬ ∀ (irqBitmap : IrqBitmap) (mmio : MMIOAccess) (dev : Device),
    Dispatched irqBitmap mmio dev := by
  intro h
  have hreturns := (h oneIrq ⟨0x17C, 4, false, 0⟩ zeroDevice).returns
  have hnone : vgicv3DistHandler oneIrq ⟨0x17C, 4, false, 0⟩ zeroDevice = none := by rfl
  rw [hnone] at hreturns
  cases hreturns

end Hvisor
