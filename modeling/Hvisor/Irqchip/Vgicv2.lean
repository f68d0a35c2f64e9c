import Hvisor.Irqchip.Vgicv3
import Hvisor.Lib.BitMask

/-!
# The virtual distributor of a GICv2

Accesses of a guest to the distributor of a GICv2, from `gicv2/vgic.rs`. A register with fields of
interrupts is accessed as a whole word, under a mask of the fields of the zone in the bytes of the
access. `none` is a panic.

## Main definitions

* `Gicv2.restrictBitmaskAccess`, `Gicv2.vgicv2DistHandler`: the accesses
* `Gicv2.bitFieldRegs`: the registers with a field for each interrupt
* `Gicv2.WordWise`: the access to a word of fields, each interrupt by itself

## Main results

* `Gicv2.vgicv2DistHandler_wordWise`: an aligned access handles each interrupt by itself
* `Gicv2.vgicv2DistHandler_sgir`: what a guest writes to raise an interrupt reaches the distributor
-/

namespace Hvisor.Gicv2

/-- The number of interrupts. -/
def GICV2_INTS_MAX : Nat := 1024
/-- The registers with one bit for each interrupt. -/
def GICV2_INT_REGS_NUM : Nat := GICV2_INTS_MAX / 32
/-- The registers of the priorities. -/
def GICV2_PRIO_REGS_NUM : Nat := GICV2_INTS_MAX * 8 / 32
/-- The registers of the targets. -/
def GICV2_TARGET_REGS_NUM : Nat := GICV2_INTS_MAX * 8 / 32
/-- The registers of the configurations. -/
def GICV2_CONFIG_REGS_NUM : Nat := GICV2_INTS_MAX / 16
/-- The bytes of a register. -/
def GICV2_REG_WIDTH : Nat := 4
/-- The offset of the control register. -/
def GICD_CTRL_REG_OFFSET : Nat := 0x0000
/-- The offset of the type register. -/
def GICD_TYPER_REG_OFFSET : Nat := 0x0004
/-- The offset of the implementer register. -/
def GICD_IIDR_REG_OFFSET : Nat := 0x0008
/-- The offset of the groups. -/
def GICD_IGROUPR_REG_OFFSET : Nat := 0x0080
/-- The offset of the registers that enable interrupts. -/
def GICD_ISENABLER_REG_OFFSET : Nat := 0x0100
/-- The offset of the registers that disable interrupts. -/
def GICD_ICENABLER_REG_OFFSET : Nat := 0x0180
/-- The offset of the registers that make interrupts pending. -/
def GICD_ISPENDR_REG_OFFSET : Nat := 0x0200
/-- The offset of the registers that make interrupts not pending. -/
def GICD_ICPENDR_REG_OFFSET : Nat := 0x0280
/-- The offset of the registers that make interrupts active. -/
def GICD_ISACTIVER_REG_OFFSET : Nat := 0x0300
/-- The offset of the registers that make interrupts inactive. -/
def GICD_ICACTIVER_REG_OFFSET : Nat := 0x0380
/-- The offset of the priorities. -/
def GICD_IPRIORITYR_REG_OFFSET : Nat := 0x0400
/-- The offset of the targets. -/
def GICD_ITARGETSR_REG_OFFSET : Nat := 0x0800
/-- The offset of the configurations. -/
def GICD_ICFGR_REG_OFFSET : Nat := 0x0C00
/-- The offset of the register that raises software interrupts. -/
def GICD_SGIR_REG_OFFSET : Nat := 0x0F00
/-- The number of identification registers. -/
def GICD_IDENTIFICATION_NUM : Nat := 12
/-- The offset of the identification registers. -/
def GICD_IDENTIFICATION_OFFSET : Nat := 0x0FE0

/-- The bytes of the word that an access of `size` bytes touches. -/
def otherMask (addr : Nat) : Nat → BitVec 64
  | 0 => 0
  | offset + 1 => otherMask addr offset ||| 0xff#64 <<< ((addr + offset) % 4 * 8)

/-- An access to a register with some bits for each interrupt: the fields of interrupts of other
zones are masked. -/
def restrictBitmaskAccess (irqBitmap : IrqBitmap) (mmio : MMIOAccess) (regIndex bitsPerIrq : Nat)
    (isPoke : Bool) (dev : Device) : Option (MMIOAccess × Device) := do
  let irqsPerReg := 32 / bitsPerIrq
  let firstIrq := regIndex * irqsPerReg
  let mask ← accessMask irqBitmap firstIrq bitsPerIrq irqsPerReg
  let offset := mmio.addr % 4
  let accessMask := mask &&& otherMask mmio.addr mmio.bytes
  let mmio := { mmio with
    address := mmio.address &&& 0xfffffffc, size := 4,
    value := ⟨mmio.value.toBitVec <<< (offset * 8)⟩ }
  if !mmio.isWrite then
    let (mmio, dev) ← mmioPerformAccess mmio dev
    return ({ mmio with value := ⟨(mmio.value.toBitVec &&& accessMask) >>> (offset * 8)⟩ }, dev)
  else if !isPoke then
    let accessVal := mmio.value.toBitVec
    let (mmio, dev) ← mmioPerformAccess { mmio with isWrite := false } dev
    let value := (mmio.value.toBitVec &&& ~~~accessMask) ||| (accessVal &&& accessMask)
    mmioPerformAccess { mmio with isWrite := true, value := ⟨value⟩ } dev
  else
    mmioPerformAccess { mmio with value := ⟨mmio.value.toBitVec &&& accessMask⟩ } dev

/-- The registers that a zone may only read, and those that it has no access to. -/
def vgicv2DistMiscAccess (mmio : MMIOAccess) (dev : Device) : Option (MMIOAccess × Device) :=
  let reg := mmio.addr
  if reg == GICD_CTRL_REG_OFFSET || reg == GICD_TYPER_REG_OFFSET || reg == GICD_IIDR_REG_OFFSET ||
      inRegRange GICD_IDENTIFICATION_OFFSET GICD_IDENTIFICATION_NUM GICV2_REG_WIDTH reg then
    if !mmio.isWrite then mmioPerformAccess mmio dev else some (mmio, dev)
  else none

/-- An access of a guest whose zone has the interrupts of the bitmap. -/
def vgicv2DistHandler (irqBitmap : IrqBitmap) (mmio : MMIOAccess) (dev : Device) :
    Option (MMIOAccess × Device) :=
  let reg := mmio.addr
  let inRange base n := inRegRange base n GICV2_REG_WIDTH reg
  if reg == GICD_SGIR_REG_OFFSET then
    if !mmio.isWrite then some (mmio, dev) else mmioPerformAccess mmio dev
  else if inRange GICD_ITARGETSR_REG_OFFSET GICV2_TARGET_REGS_NUM then
    restrictBitmaskAccess irqBitmap mmio ((reg &&& 0x3ff) / 4) 8 false dev
  else if inRange GICD_ICENABLER_REG_OFFSET GICV2_INT_REGS_NUM ||
      inRange GICD_ISENABLER_REG_OFFSET GICV2_INT_REGS_NUM ||
      inRange GICD_ICPENDR_REG_OFFSET GICV2_INT_REGS_NUM ||
      inRange GICD_ISPENDR_REG_OFFSET GICV2_INT_REGS_NUM ||
      inRange GICD_ICACTIVER_REG_OFFSET GICV2_INT_REGS_NUM ||
      inRange GICD_ISACTIVER_REG_OFFSET GICV2_INT_REGS_NUM then
    restrictBitmaskAccess irqBitmap mmio ((reg &&& 0x7f) / 4) 1 true dev
  else if inRange GICD_IGROUPR_REG_OFFSET GICV2_INT_REGS_NUM then
    restrictBitmaskAccess irqBitmap mmio ((reg &&& 0x7f) / 4) 1 false dev
  else if inRange GICD_ICFGR_REG_OFFSET GICV2_CONFIG_REGS_NUM then
    restrictBitmaskAccess irqBitmap mmio ((reg &&& 0xff) / 4) 2 false dev
  else if inRange GICD_IPRIORITYR_REG_OFFSET GICV2_PRIO_REGS_NUM then
    restrictBitmaskAccess irqBitmap mmio ((reg &&& 0x3ff) / 4) 8 false dev
  else vgicv2DistMiscAccess mmio dev

/-- **The register that raises software interrupts is not filtered**: a word that a guest writes to
it reaches the distributor as it is. -/
theorem vgicv2DistHandler_sgir (irqBitmap : IrqBitmap) (value : UInt64) (dev : Device) :
    vgicv2DistHandler irqBitmap ⟨0x0F00, 4, true, value⟩ dev =
      some (⟨0x0F00, 4, true, value⟩,
        dev.store ⟨GICD_SGIR_REG_OFFSET, 4, lowBytes value.toBitVec 4⟩) := by
  have hreg : MMIOAccess.addr ⟨0x0F00, 4, true, value⟩ = GICD_SGIR_REG_OFFSET := rfl
  have hal : MMIOAccess.Aligned ⟨0x0F00, 4, true, value⟩ := fun _ =>
    show 0x0F00 % 4 = 0 from rfl
  simp only [vgicv2DistHandler, hreg, beq_self_eq_true, if_true, Bool.not_true, Bool.false_eq_true,
    if_false, mmioPerformAccess_eq hal, Device.access]
  rfl

/-! ## Registers with a field for each interrupt -/

/-- The registers with a field for each interrupt. -/
def bitFieldRegs : List BitFieldReg :=
  [⟨GICD_ITARGETSR_REG_OFFSET, GICV2_TARGET_REGS_NUM, 8, false⟩,
    ⟨GICD_ICENABLER_REG_OFFSET, GICV2_INT_REGS_NUM, 1, true⟩,
    ⟨GICD_ISENABLER_REG_OFFSET, GICV2_INT_REGS_NUM, 1, true⟩,
    ⟨GICD_ICPENDR_REG_OFFSET, GICV2_INT_REGS_NUM, 1, true⟩,
    ⟨GICD_ISPENDR_REG_OFFSET, GICV2_INT_REGS_NUM, 1, true⟩,
    ⟨GICD_ICACTIVER_REG_OFFSET, GICV2_INT_REGS_NUM, 1, true⟩,
    ⟨GICD_ISACTIVER_REG_OFFSET, GICV2_INT_REGS_NUM, 1, true⟩,
    ⟨GICD_IGROUPR_REG_OFFSET, GICV2_INT_REGS_NUM, 1, false⟩,
    ⟨GICD_ICFGR_REG_OFFSET, GICV2_CONFIG_REGS_NUM, 2, false⟩,
    ⟨GICD_IPRIORITYR_REG_OFFSET, GICV2_PRIO_REGS_NUM, 8, false⟩]

theorem wellFormed_of_mem {r : BitFieldReg} (hr : r ∈ bitFieldRegs) : r.WellFormed := by
  revert r
  decide

/-- Bit `i` of the word is in the bytes of the access, and in the field of an interrupt of the
zone. -/
def accessed (irqBitmap : IrqBitmap) (r : BitFieldReg) (mmio : MMIOAccess) (i : Nat) : Bool :=
  decide (8 * (mmio.addr % 4) ≤ i ∧ i < 8 * (mmio.addr % 4 + mmio.bytes)) &&
    Owns irqBitmap (r.wordIrqAt mmio.addr i)

/-- **Each interrupt by itself**: a write puts the bits of the guest in the fields of the zone that
are in the bytes of the access, and elsewhere in the word nothing, or what is there; a read returns
the bits of these fields in its low bytes. -/
def WordWise (irqBitmap : IrqBitmap) (r : BitFieldReg) (mmio : MMIOAccess) (dev : Device)
    (res : MMIOAccess × Device) : Prop :=
  let word := mmio.addr - mmio.addr % 4
  let low := 8 * (mmio.addr % 4)
  let old := dev.load word 4
  if mmio.isWrite then
    ∃ value, res.2 = dev.store ⟨word, 4, value⟩ ∧ ∀ i, value.getLsbD i = (decide (i < 32) &&
      if accessed irqBitmap r mmio i then mmio.value.toBitVec.getLsbD (i - low)
      else !r.isPoke && old.getLsbD i)
  else
    res.2 = dev ∧ ∀ i, res.1.value.toBitVec.getLsbD i =
      (accessed irqBitmap r mmio (i + low) && old.getLsbD (i + low))

/-! ## The mask of the bytes -/

/-- The bytes of an access that does not leave its word. -/
theorem getLsbD_otherMask {addr n : Nat} (hn : addr % 4 + n ≤ 4) (i : Nat) :
    (otherMask addr n).getLsbD i =
      decide (8 * (addr % 4) ≤ i ∧ i < 8 * (addr % 4 + n)) := by
  induction n with
  | zero =>
    rw [otherMask, decide_eq_false (by omega)]
    exact BitVec.getLsbD_zero
  | succ n ih =>
    have hbyte : (addr + n) % 4 = addr % 4 + n := by omega
    have hff : ∀ k, (0xff#64).getLsbD k = decide (k < 8) := fun k => by
      rw [show (0xff#64) = BitVec.ofNat 64 (2 ^ 8 - 1) from rfl, BitVec.getLsbD_ofNat,
        Nat.testBit_two_pow_sub_one, ← Bool.decide_and]
      exact decide_eq_decide.mpr (by omega)
    rw [otherMask, BitVec.getLsbD_or, ih (by omega), BitVec.getLsbD_shiftLeft, hff, hbyte,
      ← decide_not, ← Bool.decide_and, ← Bool.decide_and, ← Bool.decide_or]
    exact decide_eq_decide.mpr (by omega)

/-- The address of a word is aligned. -/
theorem toNat_word_mod (address : UInt64) : (address &&& 0xfffffffc).toNat % 4 = 0 := by
  rw [UInt64.toNat_and, show 4 = 2 ^ 2 from rfl, Nat.and_mod_two_pow]
  exact Nat.and_zero _

theorem restrictBitmaskAccess_eq (irqBitmap : IrqBitmap) (mmio : MMIOAccess)
    {regIndex bitsPerIrq : Nat} (isPoke : Bool) (dev : Device) {mask : BitVec 64}
    (h : accessMask irqBitmap (regIndex * (32 / bitsPerIrq)) bitsPerIrq (32 / bitsPerIrq) =
      some mask) :
    restrictBitmaskAccess irqBitmap mmio regIndex bitsPerIrq isPoke dev =
      let address := mmio.address &&& 0xfffffffc
      let low := mmio.addr % 4 * 8
      let accessMask := mask &&& otherMask mmio.addr mmio.bytes
      let old := dev.load address.toNat 4
      if mmio.isWrite then
        let value := maskedValue isPoke accessMask old (mmio.value.toBitVec <<< low)
        some (⟨address, 4, true, ⟨value⟩⟩, dev.store ⟨address.toNat, 4, lowBytes value 4⟩)
      else some (⟨address, 4, false, ⟨(old &&& accessMask) >>> low⟩⟩, dev) := by
  have hsize : (4 : UInt64) ∈ [1, 2, 4, 8] := by decide
  -- the access is that of the word
  have hal : ∀ isWrite value,
      MMIOAccess.Aligned ⟨mmio.address &&& 0xfffffffc, 4, isWrite, value⟩ := fun _ _ _ => by
    show (mmio.address &&& 0xfffffffc).toNat % 4 = 0
    exact toNat_word_mod _
  rw [restrictBitmaskAccess]
  simp only [h, Option.bind_eq_bind, Option.bind_some]
  cases hw : mmio.isWrite with
  | false =>
    simp only [mmioPerformAccess_eq (hal _ _), Device.access, hsize, Bool.not_false,
      Bool.false_eq_true, if_true, if_false, Option.bind_some]
    rfl
  | true =>
    cases isPoke <;>
      simp only [mmioPerformAccess_eq (hal _ _), Device.access, hsize, Bool.not_false,
        Bool.not_true, Bool.false_eq_true, if_true, if_false, Option.bind_some] <;> rfl

/-! ## The reference -/

/-- A register of the kind is served under the mask of its word. -/
theorem vgicv2DistHandler_bitField (irqBitmap : IrqBitmap) {r : BitFieldReg}
    (hr : r ∈ bitFieldRegs) {mmio : MMIOAccess}
    (ha : inRegRange r.base r.num GICV2_REG_WIDTH mmio.addr = true) (dev : Device) :
    vgicv2DistHandler irqBitmap mmio dev =
      restrictBitmaskAccess irqBitmap mmio ((mmio.addr - r.base) / 4) r.bitsPerIrq r.isPoke
        dev := by
  have hrange := inRegRange_iff.mp ha
  have hword : ∀ k, r.base % 2 ^ k = 0 → (r.num - 1) * GICV2_REG_WIDTH ≤ 2 ^ k →
      (mmio.addr - r.base) / 4 = (mmio.addr &&& (2 ^ k - 1)) / 4 := fun k hbase hnum =>
    (wordIndex hbase hrange.1 (Nat.lt_of_lt_of_le hrange.2 (Nat.add_le_add_left hnum _))).symm
  have hno : ∀ base n, r.base + (r.num - 1) * GICV2_REG_WIDTH ≤ base ∨
      base + (n - 1) * GICV2_REG_WIDTH ≤ r.base →
      inRegRange base n GICV2_REG_WIDTH mmio.addr = false := fun _ _ => not_inRegRange ha
  have hsgir : ∀ h : r.base + (r.num - 1) * GICV2_REG_WIDTH ≤ GICD_SGIR_REG_OFFSET,
      (mmio.addr == GICD_SGIR_REG_OFFSET) = false := fun h =>
    beq_eq_false_iff_ne.mpr fun heq => absurd (heq ▸ hrange.2) (Nat.not_lt.mpr h)
  simp only [bitFieldRegs, List.mem_cons, List.not_mem_nil, or_false] at hr
  rcases hr with rfl | rfl | rfl | rfl | rfl | rfl | rfl | rfl | rfl | rfl
  all_goals
    rw [vgicv2DistHandler]
    dsimp only at ha ⊢
    rw [hsgir (by decide), if_neg Bool.false_ne_true]
  · rw [if_pos ha, hword 10 (by decide) (by decide)]
    rfl
  -- the registers with a bit for each interrupt that is set or cleared
  iterate 6
    · rw [hword 7 (by decide) (by decide)]
      simp only [hno GICD_ITARGETSR_REG_OFFSET GICV2_TARGET_REGS_NUM (by decide), ha, Bool.or_true,
        Bool.true_or, Bool.false_eq_true, if_true, if_false, Nat.reducePow, Nat.reduceSub]
  all_goals
    simp only [hno GICD_ITARGETSR_REG_OFFSET GICV2_TARGET_REGS_NUM (by decide),
      hno GICD_ICENABLER_REG_OFFSET GICV2_INT_REGS_NUM (by decide),
      hno GICD_ISENABLER_REG_OFFSET GICV2_INT_REGS_NUM (by decide),
      hno GICD_ICPENDR_REG_OFFSET GICV2_INT_REGS_NUM (by decide),
      hno GICD_ISPENDR_REG_OFFSET GICV2_INT_REGS_NUM (by decide),
      hno GICD_ICACTIVER_REG_OFFSET GICV2_INT_REGS_NUM (by decide),
      hno GICD_ISACTIVER_REG_OFFSET GICV2_INT_REGS_NUM (by decide), Bool.or_self,
      Bool.false_eq_true, if_false]
  · rw [if_pos ha, hword 7 (by decide) (by decide)]
    rfl
  · simp only [hno GICD_IGROUPR_REG_OFFSET GICV2_INT_REGS_NUM (by decide), Bool.false_eq_true,
      if_false]
    rw [if_pos ha, hword 8 (by decide) (by decide)]
    rfl
  · simp only [hno GICD_IGROUPR_REG_OFFSET GICV2_INT_REGS_NUM (by decide),
      hno GICD_ICFGR_REG_OFFSET GICV2_CONFIG_REGS_NUM (by decide), Bool.false_eq_true, if_false]
    rw [if_pos ha, hword 10 (by decide) (by decide)]
    rfl

/-- **The distributor of a GICv2 handles each interrupt by itself**, for every aligned access of
one, two or four bytes to a register with fields. -/
theorem vgicv2DistHandler_wordWise (irqBitmap : IrqBitmap) {r : BitFieldReg}
    (hr : r ∈ bitFieldRegs) {mmio : MMIOAccess}
    (ha : inRegRange r.base r.num GICV2_REG_WIDTH mmio.addr = true) (hs : mmio.size ∈ [1, 2, 4])
    (haligned : mmio.addr % mmio.bytes = 0) (dev : Device) :
    ∃ res, vgicv2DistHandler irqBitmap mmio dev = some res ∧
      WordWise irqBitmap r mmio dev res := by
  have hbytes : mmio.addr % 4 + mmio.bytes ≤ 4 := by
    simp only [List.mem_cons, List.not_mem_nil, or_false] at hs
    rcases hs with h | h | h <;> rw [MMIOAccess.bytes, h] at haligned ⊢ <;>
      simp only [UInt64.reduceToNat] at haligned ⊢ <;> omega
  obtain ⟨mask, hmask, hbit⟩ := accessMask_wordIrqAt irqBitmap (wellFormed_of_mem hr) ha
  rw [vgicv2DistHandler_bitField irqBitmap hr ha, restrictBitmaskAccess_eq _ _ _ _ hmask]
  have haddr : (mmio.address &&& 0xfffffffc).toNat = mmio.addr - mmio.addr % 4 := by
    have hlt : mmio.addr < 2 ^ 32 := by
      have hend : r.base + (r.num - 1) * GICV2_REG_WIDTH ≤ 2 ^ 32 := by
        clear ha hmask hbit
        revert r
        decide
      exact Nat.lt_of_lt_of_le (inRegRange_iff.mp ha).2 hend
    exact (UInt64.toNat_and _ _).trans (BitMask.and_not_low (n := 2) hlt (by decide))
  -- a bit under both masks is one of the access
  have haccessed : ∀ i, (mask &&& otherMask mmio.addr mmio.bytes).getLsbD i =
      accessed irqBitmap r mmio i := fun i => by
    rw [BitVec.getLsbD_and, hbit, getLsbD_otherMask hbytes, accessed]
    by_cases hin : 8 * (mmio.addr % 4) ≤ i ∧ i < 8 * (mmio.addr % 4 + mmio.bytes)
    · rw [decide_eq_true hin, decide_eq_true (by omega : i < 32), Bool.and_true]
    · rw [decide_eq_false hin, Bool.and_false, Bool.false_and]
  have hin : ∀ i, accessed irqBitmap r mmio i = true →
      8 * (mmio.addr % 4) ≤ i ∧ i < 32 := fun i hi => by
    rw [accessed, Bool.and_eq_true, decide_eq_true_iff] at hi
    omega
  dsimp only
  rw [haddr]
  cases hw : mmio.isWrite with
  | false =>
    refine ⟨_, rfl, ?_⟩
    rw [WordWise, hw]
    refine ⟨rfl, fun i => ?_⟩
    show (_ >>> _ : BitVec 64).getLsbD i = _
    rw [BitVec.getLsbD_ushiftRight, BitVec.getLsbD_and, haccessed, Nat.mul_comm _ 8,
      Nat.add_comm _ i, Bool.and_comm]
  | true =>
    refine ⟨_, rfl, ?_⟩
    rw [WordWise, hw]
    refine ⟨_, rfl, fun i => ?_⟩
    rw [getLsbD_lowBytes]
    by_cases hi : i < 32
    · rw [getLsbD_maskedValue _ _ _ _ (by omega), haccessed]
      cases hacc : accessed irqBitmap r mmio i with
      | false => rfl
      | true =>
        rw [if_pos rfl, if_pos rfl, BitVec.getLsbD_shiftLeft, Nat.mul_comm _ 8,
          decide_eq_true (by omega : i < 64), decide_eq_false (not_lt.mpr (hin i hacc).1)]
        rfl
    · rw [decide_eq_false hi, Bool.false_and, Bool.false_and]

/-- A zone with interrupt 33 may write the byte with its priority, which a GICv3 does not allow. -/
theorem vgicv2DistHandler_wordWise_byte :
    ∃ res, vgicv2DistHandler oneIrq ⟨0x421, 1, true, 0xff⟩ zeroDevice = some res ∧
      WordWise oneIrq ⟨GICD_IPRIORITYR_REG_OFFSET, GICV2_PRIO_REGS_NUM, 8, false⟩
        ⟨0x421, 1, true, 0xff⟩ zeroDevice res :=
  vgicv2DistHandler_wordWise oneIrq (by decide) (by decide) (by decide) (by decide) zeroDevice

end Hvisor.Gicv2
