import Hvisor.Memory.Mmio

/-!
# The virtual distributor

Accesses of a guest to the distributor of a GICv3, from `gicv3/vgic.rs`. A register with a field of
a few bits for each interrupt is accessed under a mask of the fields that belong to the zone; a
register of one interrupt is accessed if the interrupt belongs to the zone. `none` is a panic.

## Main definitions

* `IrqBitmap`, `irqInZone`: the interrupts of a zone
* `restrictBitmaskAccess`, `vgicv3HandleIrqOps`, `vgicv3DistHandler`: the accesses
* `BitFieldReg`, `bitFieldRegs`: the registers with a field for each interrupt
* `FieldWise`: an access that handles the field of each interrupt by itself

## Main results

* `getLsbD_accessMask`: the bits of the mask
* `vgicv3DistHandler_fieldWise_iff`: when an access handles each field by itself
-/

namespace Hvisor

/-- The offset of the control register. -/
def GICD_CTLR : Nat := 0x0000
/-- The offset of the type register. -/
def GICD_TYPER : Nat := 0x0004
/-- The offset of the implementer register. -/
def GICD_IIDR : Nat := 0x0008
/-- The offset of the second type register. -/
def GICD_TYPER2 : Nat := 0x000c
/-- The offset of the groups. -/
def GICD_IGROUPR : Nat := 0x0080
/-- The offset of the registers that enable interrupts. -/
def GICD_ISENABLER : Nat := 0x0100
/-- The offset of the registers that disable interrupts. -/
def GICD_ICENABLER : Nat := 0x0180
/-- The offset of the registers that make interrupts pending. -/
def GICD_ISPENDR : Nat := 0x0200
/-- The offset of the registers that make interrupts not pending. -/
def GICD_ICPENDR : Nat := 0x0280
/-- The offset of the registers that make interrupts active. -/
def GICD_ISACTIVER : Nat := 0x0300
/-- The offset of the registers that make interrupts inactive. -/
def GICD_ICACTIVER : Nat := 0x0380
/-- The offset of the priorities. -/
def GICD_IPRIORITYR : Nat := 0x0400
/-- The offset of the targets. -/
def GICD_ITARGETSR : Nat := 0x0800
/-- The offset of the configurations. -/
def GICD_ICFGR : Nat := 0x0c00
/-- The offset of the routes. -/
def GICD_IROUTER : Nat := 0x6000
/-- The offset of the second half of the peripheral identification. -/
def GICDV3_PIDR4 : Nat := 0xffd0
/-- The offset of the first half of the peripheral identification. -/
def GICDV3_PIDR0 : Nat := 0xffe0
/-- The offset of the component identification. -/
def GICDV3_CIDR0 : Nat := 0xfff0

/-- The bytes of a redistributor. -/
def PER_GICR_SIZE : Nat := 0x20000

/-! ## Interrupts of a zone -/

/-- A bit for each of the 1024 interrupts. -/
abbrev IrqBitmap := Vector (BitVec 32) (1024 / 32)

/-- If the interrupt belongs to the zone; one beyond the bitmap panics. -/
def irqInZone (irqBitmap : IrqBitmap) (irqId : Nat) : Option Bool :=
  irqBitmap[irqId / 32]?.map fun word => word.getLsbD (irqId % 32)

/-- The interrupt belongs to the zone. -/
def Owns (irqBitmap : IrqBitmap) (irqId : Nat) : Bool := irqInZone irqBitmap irqId == some true

theorem irqInZone_of_lt (irqBitmap : IrqBitmap) {irqId : Nat} (h : irqId < 1024) :
    irqInZone irqBitmap irqId = some (Owns irqBitmap irqId) := by
  have hi : irqId / 32 < 1024 / 32 := by omega
  rw [Owns, irqInZone, Vector.getElem?_eq_getElem hi, Option.map_some]
  cases irqBitmap[irqId / 32].getLsbD (irqId % 32) <;> rfl

/-- `insert_irq_to_bitmap`: the bit of an interrupt is set; `none` is an index past the end. -/
def insertIrqToBitmap (irqBitmap : IrqBitmap) (irq : Nat) : Option IrqBitmap :=
  if h : irq < 1024 then
    have hi : irq / 32 < 1024 / 32 := by omega
    some (irqBitmap.set (irq / 32) (irqBitmap[irq / 32] ||| 1#32 <<< (irq % 32)))
  else none

/-- The interrupts of a new zone, by its configuration. -/
def irqBitmapInit (irqs : List Nat) : Option IrqBitmap :=
  irqs.foldlM insertIrqToBitmap (Vector.replicate _ 0)

/-- The bitmap has the interrupt that is inserted, and those that it had. -/
theorem owns_insertIrqToBitmap {irqBitmap irqBitmap' : IrqBitmap} {irq : Nat}
    (h : insertIrqToBitmap irqBitmap irq = some irqBitmap') (irqId : Nat) :
    Owns irqBitmap' irqId = true ↔ irqId = irq ∨ Owns irqBitmap irqId = true := by
  rw [insertIrqToBitmap] at h
  split_ifs at h with hlt
  cases h
  have hi : irq / 32 < 1024 / 32 := by omega
  simp only [Owns, irqInZone, Vector.getElem?_set, beq_iff_eq]
  by_cases hword : irq / 32 = irqId / 32
  · have hbit : (1#32 <<< (irq % 32)).getLsbD (irqId % 32) = decide (irqId = irq) := by
      have hmod : irqId % 32 < 32 := Nat.mod_lt _ (by decide)
      simp only [BitVec.getLsbD_shiftLeft, BitVec.getLsbD_one, hmod, decide_true, Bool.true_and]
      rw [Bool.eq_iff_iff]
      simp only [Bool.and_eq_true, Bool.not_eq_true', decide_eq_false_iff_not, decide_eq_true_eq]
      omega
    rw [if_pos hword, ← hword, Vector.getElem?_eq_getElem hi]
    simp only [Option.map_some, Option.some.injEq, BitVec.getLsbD_or, hbit, Bool.or_eq_true,
      decide_eq_true_eq]
    exact or_comm
  · have hne : irqId ≠ irq := fun he => hword (he ▸ rfl)
    rw [if_neg hword, or_iff_right hne]

/-- **A zone has the interrupts** of its configuration. -/
theorem owns_irqBitmapInit {irqs : List Nat} {irqBitmap : IrqBitmap}
    (h : irqBitmapInit irqs = some irqBitmap) (irqId : Nat) :
    Owns irqBitmap irqId = true ↔ irqId ∈ irqs := by
  have key : ∀ b : IrqBitmap, irqs.foldlM insertIrqToBitmap b = some irqBitmap →
      (Owns irqBitmap irqId = true ↔ irqId ∈ irqs ∨ Owns b irqId = true) := by
    clear h
    induction irqs with
    | nil =>
      intro b hb
      cases hb
      simp
    | cons irq irqs ih =>
      intro b hb
      rw [List.foldlM_cons] at hb
      obtain ⟨b₁, hb₁, hb⟩ := Option.bind_eq_some_iff.mp hb
      rw [ih b₁ hb, owns_insertIrqToBitmap hb₁, List.mem_cons, or_left_comm, or_assoc]
  have hempty : Owns (Vector.replicate _ 0) irqId = false := by
    rw [Owns, irqInZone, Vector.getElem?_replicate]
    split <;> simp
  rw [key _ h, hempty]
  simp

/-- The interrupt is a shared one. -/
def isSpi (irqn : Nat) : Bool := decide (31 < irqn ∧ irqn < 1020)

/-! ## Accesses -/

/-- The registers from `base` on; the last one is left out. -/
def inRegRange (base n size reg : Nat) : Bool := decide (base ≤ reg ∧ reg < base + (n - 1) * size)

theorem inRegRange_iff {base n size reg : Nat} :
    inRegRange base n size reg = true ↔ base ≤ reg ∧ reg < base + (n - 1) * size := by
  rw [inRegRange, decide_eq_true_iff]

/-- The fields of the zone in the register of which `firstIrq` is the first interrupt. -/
def accessMask (irqBitmap : IrqBitmap) (firstIrq bitsPerIrq : Nat) : Nat → Option (BitVec 64)
  | 0 => some 0
  | irq + 1 => do
    let mask ← accessMask irqBitmap firstIrq bitsPerIrq irq
    if ← irqInZone irqBitmap (firstIrq + irq) then
      return mask ||| BitVec.ofNat 64 (2 ^ bitsPerIrq - 1) <<< (irq * bitsPerIrq)
    else
      return mask

/-- An access to a register with some bits for each interrupt: the fields of interrupts of other
zones are masked. -/
def restrictBitmaskAccess (irqBitmap : IrqBitmap) (mmio : MMIOAccess) (regIndex bitsPerIrq : Nat)
    (isPoke : Bool) (dev : Device) : Option (MMIOAccess × Device) := do
  let irqsPerReg := 32 / bitsPerIrq
  -- the first interrupt of the register, whatever byte of it is accessed
  let firstIrq := regIndex * irqsPerReg
  let mask ← accessMask irqBitmap firstIrq bitsPerIrq irqsPerReg
  if !mmio.isWrite then
    let (mmio, dev) ← mmioPerformAccess mmio dev
    return ({ mmio with value := ⟨mmio.value.toBitVec &&& mask⟩ }, dev)
  else if !isPoke then
    let accessVal := mmio.value.toBitVec
    let (mmio, dev) ← mmioPerformAccess { mmio with isWrite := false } dev
    let value := (mmio.value.toBitVec &&& ~~~mask) ||| (accessVal &&& mask)
    mmioPerformAccess { mmio with isWrite := true, value := ⟨value⟩ } dev
  else
    mmioPerformAccess { mmio with value := ⟨mmio.value.toBitVec &&& mask⟩ } dev

/-- An access to the route of a shared interrupt, for the zone that has it. -/
def vgicv3HandleIrqOps (irqBitmap : IrqBitmap) (mmio : MMIOAccess) (irq : Nat) (dev : Device) :
    Option (MMIOAccess × Device) :=
  if !isSpi irq then some (mmio, dev)
  else do
    if ← irqInZone irqBitmap irq then mmioPerformAccess mmio dev
    else return (mmio, dev)

/-- The registers that a zone may only read, and those that it has no access to. -/
def vgicv3DistMiscAccess (mmio : MMIOAccess) (dev : Device) : Option (MMIOAccess × Device) :=
  let reg := mmio.addr
  let isIgrpmodr := decide (0xD00 ≤ reg ∧ reg ≤ 0xD7C)
  if inRegRange GICDV3_PIDR0 4 4 reg || inRegRange GICDV3_PIDR4 4 4 reg ||
      inRegRange GICDV3_CIDR0 4 4 reg || reg == GICD_CTLR || reg == GICD_TYPER ||
      reg == GICD_IIDR || reg == GICD_TYPER2 || isIgrpmodr then
    if !mmio.isWrite then
      if isIgrpmodr then some ({ mmio with value := 0 }, dev)
      else mmioPerformAccess mmio dev
    else some (mmio, dev)
  else none

/-- An access of a guest whose zone has the interrupts of the bitmap. -/
def vgicv3DistHandler (irqBitmap : IrqBitmap) (mmio : MMIOAccess) (dev : Device) :
    Option (MMIOAccess × Device) :=
  let reg := mmio.addr
  if inRegRange GICD_IROUTER 1024 8 reg then
    vgicv3HandleIrqOps irqBitmap mmio ((reg - GICD_IROUTER) / 8) dev
  else if inRegRange GICD_ITARGETSR 1024 1 reg then
    vgicv3HandleIrqOps irqBitmap mmio (reg - GICD_ITARGETSR) dev
  else if inRegRange GICD_ICENABLER 32 4 reg || inRegRange GICD_ISENABLER 32 4 reg ||
      inRegRange GICD_ICPENDR 32 4 reg || inRegRange GICD_ISPENDR 32 4 reg ||
      inRegRange GICD_ICACTIVER 32 4 reg || inRegRange GICD_ISACTIVER 32 4 reg then
    restrictBitmaskAccess irqBitmap mmio ((reg &&& 0x7f) / 4) 1 true dev
  else if inRegRange GICD_IGROUPR 32 4 reg then
    restrictBitmaskAccess irqBitmap mmio ((reg &&& 0x7f) / 4) 1 false dev
  else if inRegRange GICD_ICFGR 64 4 reg then
    restrictBitmaskAccess irqBitmap mmio ((reg &&& 0xff) / 4) 2 false dev
  else if inRegRange GICD_IPRIORITYR 255 4 reg then
    restrictBitmaskAccess irqBitmap mmio ((reg &&& 0x3ff) / 4) 8 false dev
  else vgicv3DistMiscAccess mmio dev

/-! ## The mask -/

/-- **The bits of the mask**: those of the fields of the zone's interrupts. -/
theorem getLsbD_accessMask (irqBitmap : IrqBitmap) {firstIrq bitsPerIrq n : Nat}
    (hirq : firstIrq + n ≤ 1024) (hn : n * bitsPerIrq ≤ 64) (hb : 0 < bitsPerIrq) :
    ∃ mask, accessMask irqBitmap firstIrq bitsPerIrq n = some mask ∧ ∀ i,
      mask.getLsbD i =
        (decide (i < n * bitsPerIrq) && Owns irqBitmap (firstIrq + i / bitsPerIrq)) := by
  induction n with
  | zero => exact ⟨0, rfl, fun i => by simp⟩
  | succ n ih =>
    rw [Nat.succ_mul] at hn
    obtain ⟨mask, hmask, hbit⟩ := ih (by omega) (by omega)
    have hstep : accessMask irqBitmap firstIrq bitsPerIrq (n + 1) =
        some (if Owns irqBitmap (firstIrq + n) then
          mask ||| BitVec.ofNat 64 (2 ^ bitsPerIrq - 1) <<< (n * bitsPerIrq) else mask) := by
      rw [accessMask, hmask]
      simp only [Option.bind_eq_bind, Option.bind_some,
        irqInZone_of_lt irqBitmap (show firstIrq + n < 1024 by omega)]
      cases Owns irqBitmap (firstIrq + n) <;> rfl
    refine ⟨_, hstep, fun i => ?_⟩
    -- the field of the last interrupt is where `i / bitsPerIrq = n`
    rcases Nat.lt_trichotomy (i / bitsPerIrq) n with h | h | h
    · have hi : i < n * bitsPerIrq := (Nat.div_lt_iff_lt_mul hb).mp h
      have hold : (BitVec.ofNat 64 (2 ^ bitsPerIrq - 1) <<< (n * bitsPerIrq)).getLsbD i =
          false := by
        simp [hi]
      have hlt : i < (n + 1) * bitsPerIrq := by rw [Nat.succ_mul]; omega
      split
      · rw [BitVec.getLsbD_or, hbit, hold, Bool.or_false, decide_eq_true hi, decide_eq_true hlt]
      · rw [hbit, decide_eq_true hi, decide_eq_true hlt]
    · have hlo : n * bitsPerIrq ≤ i := h ▸ Nat.div_mul_le_self i bitsPerIrq
      have hhi : i < (n + 1) * bitsPerIrq := (Nat.div_lt_iff_lt_mul hb).mp (by omega)
      have hhi' : i - n * bitsPerIrq < bitsPerIrq := by rw [Nat.succ_mul] at hhi; omega
      rw [Nat.succ_mul] at hhi
      have hnew : (BitVec.ofNat 64 (2 ^ bitsPerIrq - 1) <<< (n * bitsPerIrq)).getLsbD i = true := by
        rw [BitVec.getLsbD_shiftLeft, BitVec.getLsbD_ofNat, Nat.testBit_two_pow_sub_one,
          decide_eq_true (by omega : i < 64), decide_eq_false (by omega : ¬ i < n * bitsPerIrq),
          decide_eq_true (by omega : i - n * bitsPerIrq < 64), decide_eq_true hhi']
        rfl
      rw [Nat.succ_mul, decide_eq_true hhi, h]
      split
      · next ho => rw [BitVec.getLsbD_or, hnew, ho, Bool.or_true, Bool.and_true]
      · next ho =>
        rw [hbit, decide_eq_false (by omega : ¬ i < n * bitsPerIrq), Bool.eq_false_iff.mpr ho]
        rfl
    · have hge : (n + 1) * bitsPerIrq ≤ i := (Nat.le_div_iff_mul_le hb).mp h
      have hge' := hge
      rw [Nat.succ_mul] at hge'
      have hnew : (BitVec.ofNat 64 (2 ^ bitsPerIrq - 1) <<< (n * bitsPerIrq)).getLsbD i =
          false := by
        rw [BitVec.getLsbD_shiftLeft, BitVec.getLsbD_ofNat, Nat.testBit_two_pow_sub_one,
          decide_eq_false (by omega : ¬ i - n * bitsPerIrq < bitsPerIrq), Bool.and_false,
          Bool.and_false]
      have hold : mask.getLsbD i = false := by
        rw [hbit, decide_eq_false (by omega : ¬ i < n * bitsPerIrq), Bool.false_and]
      rw [decide_eq_false (by omega : ¬ i < (n + 1) * bitsPerIrq), Bool.false_and]
      split
      · rw [BitVec.getLsbD_or, hold, hnew, Bool.or_false]
      · exact hold

/-- What is written under a mask over an old value. -/
def maskedValue (isPoke : Bool) (mask old value : BitVec 64) : BitVec 64 :=
  if isPoke then value &&& mask else (old &&& ~~~mask) ||| (value &&& mask)

theorem getLsbD_maskedValue (isPoke : Bool) (mask old value : BitVec 64) {i : Nat} (hi : i < 64) :
    (maskedValue isPoke mask old value).getLsbD i =
      if mask.getLsbD i then value.getLsbD i else !isPoke && old.getLsbD i := by
  rw [maskedValue]
  cases isPoke <;> cases hm : mask.getLsbD i <;>
    simp only [Bool.false_eq_true, if_true, if_false, BitVec.getLsbD_or, BitVec.getLsbD_and,
      BitVec.getLsbD_not, hm, decide_eq_true hi] <;> simp

theorem restrictBitmaskAccess_eq (irqBitmap : IrqBitmap) (mmio : MMIOAccess)
    {regIndex bitsPerIrq : Nat} (isPoke : Bool) (dev : Device) {mask : BitVec 64}
    (h : accessMask irqBitmap (regIndex * (32 / bitsPerIrq)) bitsPerIrq (32 / bitsPerIrq) =
      some mask) (hs : mmio.size ∈ [1, 2, 4, 8]) (hal : mmio.Aligned) :
    restrictBitmaskAccess irqBitmap mmio regIndex bitsPerIrq isPoke dev =
      let old := dev.load mmio.addr mmio.bytes
      if mmio.isWrite then
        let value := maskedValue isPoke mask old mmio.value.toBitVec
        some ({ mmio with value := ⟨value⟩ },
          dev.store ⟨mmio.addr, mmio.bytes, lowBytes value mmio.bytes⟩)
      else some ({ mmio with value := ⟨old &&& mask⟩ }, dev) := by
  have hal' : ∀ isWrite value,
      MMIOAccess.Aligned { mmio with isWrite := isWrite, value := value } := fun _ _ => hal
  rw [restrictBitmaskAccess]
  simp only [h, Option.bind_eq_bind, Option.bind_some]
  cases hw : mmio.isWrite <;> cases isPoke <;>
    simp [mmioPerformAccess_eq, hal, hal', Device.access, maskedValue, hs, hw]

/-- Every access under a mask is one to the device. -/
theorem restrictBitmaskAccess_of_not_aligned (irqBitmap : IrqBitmap) {mmio : MMIOAccess}
    {regIndex bitsPerIrq : Nat} (isPoke : Bool) (dev : Device) (hal : ¬ mmio.Aligned) :
    restrictBitmaskAccess irqBitmap mmio regIndex bitsPerIrq isPoke dev = none := by
  have hnone : ∀ isWrite value,
      mmioPerformAccess { mmio with isWrite := isWrite, value := value } dev = none :=
    fun _ _ => if_neg hal
  rw [restrictBitmaskAccess]
  cases accessMask irqBitmap (regIndex * (32 / bitsPerIrq)) bitsPerIrq (32 / bitsPerIrq) with
  | none => rfl
  | some mask =>
    simp only [Option.bind_eq_bind, Option.bind_some]
    split_ifs
    · rw [show mmioPerformAccess mmio dev = none from if_neg hal, Option.bind_none]
    · rw [hnone _ mmio.value, Option.bind_none]
    · exact hnone mmio.isWrite _

/-! ## Registers with a field for each interrupt -/

/-- Registers of 32 bits with a field of `bitsPerIrq` bits for each interrupt. A write to one that
is poked acts by the bits that are one. -/
structure BitFieldReg where
  base : Nat
  num : Nat
  bitsPerIrq : Nat
  isPoke : Bool
  deriving DecidableEq

/-- The registers with a field for each interrupt. -/
def bitFieldRegs : List BitFieldReg :=
  [⟨GICD_ICENABLER, 32, 1, true⟩, ⟨GICD_ISENABLER, 32, 1, true⟩, ⟨GICD_ICPENDR, 32, 1, true⟩,
    ⟨GICD_ISPENDR, 32, 1, true⟩, ⟨GICD_ICACTIVER, 32, 1, true⟩, ⟨GICD_ISACTIVER, 32, 1, true⟩,
    ⟨GICD_IGROUPR, 32, 1, false⟩, ⟨GICD_ICFGR, 64, 2, false⟩, ⟨GICD_IPRIORITYR, 255, 8, false⟩]

namespace BitFieldReg

/-- The interrupt whose field has bit `i` of the bytes from `addr` on. -/
def irqAt (r : BitFieldReg) (addr i : Nat) : Nat := (8 * (addr - r.base) + i) / r.bitsPerIrq

/-- The interrupt whose field has bit `i` of the word that `addr` is in. -/
def wordIrqAt (r : BitFieldReg) (addr i : Nat) : Nat :=
  (addr - r.base) / 4 * (32 / r.bitsPerIrq) + i / r.bitsPerIrq

theorem wordIrqAt_eq {r : BitFieldReg} (hr : r.bitsPerIrq ∣ 32) {addr : Nat} (h : r.base ≤ addr)
    (hb : r.base % 4 = 0) (ha : addr % 4 = 0) (i : Nat) : r.wordIrqAt addr i = r.irqAt addr i := by
  obtain ⟨k, hk⟩ := hr
  have hpos : 0 < r.bitsPerIrq := by
    rcases Nat.eq_zero_or_pos r.bitsPerIrq with h0 | h0
    · rw [h0, Nat.zero_mul] at hk
      cases hk
    · exact h0
  have hword : 8 * (addr - r.base) = r.bitsPerIrq * ((addr - r.base) / 4 * k) := by
    calc 8 * (addr - r.base) = 32 * ((addr - r.base) / 4) := by omega
      _ = r.bitsPerIrq * ((addr - r.base) / 4 * k) := by
        rw [hk, Nat.mul_assoc, Nat.mul_comm k]
  rw [wordIrqAt, irqAt, hword, Nat.mul_add_div hpos, hk, Nat.mul_div_cancel_left k hpos]

end BitFieldReg

/-- **Each interrupt by itself**: a read returns the bits of the fields that the zone owns; a write
puts the bits of the guest in the fields that the zone owns, and elsewhere nothing, or what is
there. -/
def FieldWise (irqBitmap : IrqBitmap) (r : BitFieldReg) (mmio : MMIOAccess) (dev : Device)
    (res : MMIOAccess × Device) : Prop :=
  let owns i := Owns irqBitmap (r.irqAt mmio.addr i)
  let old := dev.load mmio.addr mmio.bytes
  if mmio.isWrite then
    ∃ value, res.2 = dev.store ⟨mmio.addr, mmio.bytes, value⟩ ∧
      ∀ i, value.getLsbD i = (decide (i < 8 * mmio.bytes) &&
        if owns i then mmio.value.toBitVec.getLsbD i else !r.isPoke && old.getLsbD i)
  else
    res.2 = dev ∧ ∀ i, res.1.value.toBitVec.getLsbD i =
      (decide (i < 8 * mmio.bytes) && (owns i && old.getLsbD i))

/-- At each bit of the access, the interrupt of the field is the zone's exactly if the one at the
same bit of the word is, or the bit does not matter: it is zero, or the guest writes what is
there. -/
def MaskFits (irqBitmap : IrqBitmap) (r : BitFieldReg) (mmio : MMIOAccess) (dev : Device) : Prop :=
  ∀ i < 8 * mmio.bytes,
    Owns irqBitmap (r.wordIrqAt mmio.addr i) = Owns irqBitmap (r.irqAt mmio.addr i) ∨
      if mmio.isWrite then
        mmio.value.toBitVec.getLsbD i = (!r.isPoke && (dev.load mmio.addr mmio.bytes).getLsbD i)
      else (dev.load mmio.addr mmio.bytes).getLsbD i = false

instance (irqBitmap : IrqBitmap) (r : BitFieldReg) (mmio : MMIOAccess) (dev : Device) :
    Decidable (MaskFits irqBitmap r mmio dev) := by
  unfold MaskFits
  infer_instance

/-- An access in the registers of a kind is in no range that lies elsewhere. -/
theorem not_inRegRange {base n size base' n' size' reg : Nat}
    (h : inRegRange base n size reg = true)
    (hd : base + (n - 1) * size ≤ base' ∨ base' + (n' - 1) * size' ≤ base) :
    inRegRange base' n' size' reg = false := by
  rw [inRegRange_iff] at h
  rw [← Bool.not_eq_true, inRegRange_iff]
  omega

/-- The index of the word that an access is in, by the low bits of its address. -/
theorem wordIndex {base reg k : Nat} (hbase : base % 2 ^ k = 0) (hle : base ≤ reg)
    (hlt : reg < base + 2 ^ k) : (reg &&& (2 ^ k - 1)) / 4 = (reg - base) / 4 := by
  have hmod : reg % 2 ^ k = reg - base := by
    obtain ⟨i, rfl⟩ := Nat.exists_eq_add_of_le hle
    rw [Nat.add_mod, hbase, Nat.zero_add, Nat.mod_mod, Nat.mod_eq_of_lt (by omega),
      Nat.add_sub_cancel_left]
  rw [Nat.and_two_pow_sub_one_eq_mod, hmod]

/-- A register of the kind is served under the mask of its word. -/
theorem vgicv3DistHandler_bitField (irqBitmap : IrqBitmap) {r : BitFieldReg}
    (hr : r ∈ bitFieldRegs) {mmio : MMIOAccess} (ha : inRegRange r.base r.num 4 mmio.addr = true)
    (dev : Device) :
    vgicv3DistHandler irqBitmap mmio dev =
      restrictBitmaskAccess irqBitmap mmio ((mmio.addr - r.base) / 4) r.bitsPerIrq r.isPoke
        dev := by
  have hrange := inRegRange_iff.mp ha
  have hword : ∀ k, r.base % 2 ^ k = 0 → (r.num - 1) * 4 ≤ 2 ^ k →
      (mmio.addr - r.base) / 4 = (mmio.addr &&& (2 ^ k - 1)) / 4 := fun k hbase hnum =>
    (wordIndex hbase hrange.1 (Nat.lt_of_lt_of_le hrange.2 (Nat.add_le_add_left hnum _))).symm
  have hno : ∀ base n size, r.base + (r.num - 1) * 4 ≤ base ∨ base + (n - 1) * size ≤ r.base →
      inRegRange base n size mmio.addr = false := fun _ _ _ => not_inRegRange ha
  simp only [bitFieldRegs, List.mem_cons, List.not_mem_nil, or_false] at hr
  rcases hr with rfl | rfl | rfl | rfl | rfl | rfl | rfl | rfl | rfl
  -- the registers with a bit for each interrupt that is set or cleared
  iterate 6
    · rw [hword 7 (by decide) (by decide)]
      dsimp only at ha
      simp only [vgicv3DistHandler, hno GICD_IROUTER 1024 8 (by decide),
        hno GICD_ITARGETSR 1024 1 (by decide), ha, Bool.or_true, Bool.true_or, if_true,
        Bool.false_eq_true, if_false, Nat.reducePow, Nat.reduceSub]
  all_goals
    have hpoke : (inRegRange GICD_ICENABLER 32 4 mmio.addr ||
        inRegRange GICD_ISENABLER 32 4 mmio.addr || inRegRange GICD_ICPENDR 32 4 mmio.addr ||
        inRegRange GICD_ISPENDR 32 4 mmio.addr || inRegRange GICD_ICACTIVER 32 4 mmio.addr ||
        inRegRange GICD_ISACTIVER 32 4 mmio.addr) = false := by
      simp only [hno GICD_ICENABLER 32 4 (by decide), hno GICD_ISENABLER 32 4 (by decide),
        hno GICD_ICPENDR 32 4 (by decide), hno GICD_ISPENDR 32 4 (by decide),
        hno GICD_ICACTIVER 32 4 (by decide), hno GICD_ISACTIVER 32 4 (by decide), Bool.or_self]
    simp only [vgicv3DistHandler, hno GICD_IROUTER 1024 8 (by decide),
      hno GICD_ITARGETSR 1024 1 (by decide), hpoke, Bool.false_eq_true, if_false]
  · rw [hword 7 (by decide) (by decide), if_pos ha]
    rfl
  · rw [hword 8 (by decide) (by decide), hno GICD_IGROUPR 32 4 (by decide),
      if_neg Bool.false_ne_true, if_pos ha]
    rfl
  · rw [hword 10 (by decide) (by decide), hno GICD_IGROUPR 32 4 (by decide),
      if_neg Bool.false_ne_true, hno GICD_ICFGR 64 4 (by decide), if_neg Bool.false_ne_true,
      if_pos ha]
    rfl

/-- The fields fill the words of the registers, which end with those of the last interrupts. -/
structure BitFieldReg.WellFormed (r : BitFieldReg) : Prop where
  dvd : r.bitsPerIrq ∣ 32
  pos : 0 < r.bitsPerIrq
  aligned : r.base % 4 = 0
  num_le : (r.num - 1) * (32 / r.bitsPerIrq) ≤ 1024

instance (r : BitFieldReg) : Decidable r.WellFormed :=
  decidable_of_iff (r.bitsPerIrq ∣ 32 ∧ 0 < r.bitsPerIrq ∧ r.base % 4 = 0 ∧
    (r.num - 1) * (32 / r.bitsPerIrq) ≤ 1024)
    ⟨fun ⟨h₁, h₂, h₃, h₄⟩ => ⟨h₁, h₂, h₃, h₄⟩, fun ⟨h₁, h₂, h₃, h₄⟩ => ⟨h₁, h₂, h₃, h₄⟩⟩

theorem wellFormed_of_mem {r : BitFieldReg} (hr : r ∈ bitFieldRegs) : r.WellFormed := by
  revert r
  decide

/-- The mask of the word that an access is in has the fields of the zone. -/
theorem accessMask_wordIrqAt (irqBitmap : IrqBitmap) {r : BitFieldReg} (hr : r.WellFormed)
    {addr : Nat} (ha : inRegRange r.base r.num 4 addr = true) :
    ∃ mask, accessMask irqBitmap ((addr - r.base) / 4 * (32 / r.bitsPerIrq)) r.bitsPerIrq
        (32 / r.bitsPerIrq) = some mask ∧
      ∀ i, mask.getLsbD i = (decide (i < 32) && Owns irqBitmap (r.wordIrqAt addr i)) := by
  have hlast : (addr - r.base) / 4 + 1 ≤ r.num - 1 := by
    rw [inRegRange_iff] at ha
    omega
  have hirq : (addr - r.base) / 4 * (32 / r.bitsPerIrq) + 32 / r.bitsPerIrq ≤ 1024 := by
    rw [← Nat.succ_mul]
    exact (Nat.mul_le_mul_right _ hlast).trans hr.num_le
  have hbits : 32 / r.bitsPerIrq * r.bitsPerIrq = 32 := Nat.div_mul_cancel hr.dvd
  obtain ⟨mask, hmask, hbit⟩ := getLsbD_accessMask irqBitmap hirq (by omega) hr.pos
  refine ⟨mask, hmask, fun i => ?_⟩
  rw [hbit, hbits, BitFieldReg.wordIrqAt]

/-- **When the distributor handles each interrupt by itself**: for an access of one, two or four
bytes that is aligned, exactly where the mask of the word fits the bytes of the access. -/
theorem vgicv3DistHandler_fieldWise_iff (irqBitmap : IrqBitmap) {r : BitFieldReg}
    (hr : r ∈ bitFieldRegs) {mmio : MMIOAccess} (ha : inRegRange r.base r.num 4 mmio.addr = true)
    (hs : mmio.size ∈ [1, 2, 4]) (dev : Device) :
    (∃ res, vgicv3DistHandler irqBitmap mmio dev = some res ∧
        FieldWise irqBitmap r mmio dev res) ↔
      mmio.addr % mmio.bytes = 0 ∧ MaskFits irqBitmap r mmio dev := by
  have hs8 : mmio.size ∈ [1, 2, 4, 8] := by
    simp only [List.mem_cons, List.not_mem_nil, or_false] at hs ⊢
    tauto
  have hbytes : 8 * mmio.bytes ≤ 32 := by
    simp only [List.mem_cons, List.not_mem_nil, or_false] at hs
    rcases hs with h | h | h <;> rw [MMIOAccess.bytes, h] <;> decide
  obtain ⟨mask, hmask, hbit⟩ := accessMask_wordIrqAt irqBitmap (wellFormed_of_mem hr) ha
  rw [vgicv3DistHandler_bitField irqBitmap hr ha]
  by_cases hmod : mmio.addr % mmio.bytes = 0
  swap
  · -- the access panics
    have hnot : ¬ mmio.Aligned := fun hal => hmod (hal hs8)
    rw [restrictBitmaskAccess_of_not_aligned _ _ _ hnot]
    refine iff_of_false ?_ fun h => hmod h.1
    rintro ⟨res, hres, -⟩
    cases hres
  rw [restrictBitmaskAccess_eq _ _ _ _ hmask hs8 fun _ => hmod, and_iff_right hmod]
  -- beyond the access there is nothing to compare
  have hbeyond : ∀ i, 8 * mmio.bytes ≤ i → (dev.load mmio.addr mmio.bytes).getLsbD i = false := by
    intro i hi
    rw [Device.getLsbD_load _ _ (by omega), decide_eq_false (by omega), Bool.false_and]
  cases hw : mmio.isWrite with
  | false =>
    simp only [FieldWise, MaskFits, hw, Bool.false_eq_true, if_false, Option.some.injEq,
      exists_eq_left', true_and, BitVec.getLsbD_and, hbit]
    constructor
    · intro h i hi
      have hi' := h i
      rw [decide_eq_true hi, decide_eq_true (by omega : i < 32)] at hi'
      revert hi'
      cases Owns irqBitmap (r.wordIrqAt mmio.addr i) <;>
        cases Owns irqBitmap (r.irqAt mmio.addr i) <;> simp
    · intro h i
      by_cases hi : i < 8 * mmio.bytes
      · rw [decide_eq_true hi, decide_eq_true (by omega : i < 32)]
        rcases h i hi with ho | hz
        · rw [ho, Bool.true_and, Bool.true_and, Bool.and_comm]
        · rw [hz, Bool.false_and, Bool.and_false, Bool.and_false]
      · rw [hbeyond i (by omega), decide_eq_false hi, Bool.false_and, Bool.false_and]
  | true =>
    simp only [FieldWise, MaskFits, hw, if_true, Option.some.injEq, exists_eq_left']
    have hvalue : ∀ i < 8 * mmio.bytes, (maskedValue r.isPoke mask
        (dev.load mmio.addr mmio.bytes) mmio.value.toBitVec).getLsbD i =
          if Owns irqBitmap (r.wordIrqAt mmio.addr i) then mmio.value.toBitVec.getLsbD i
          else !r.isPoke && (dev.load mmio.addr mmio.bytes).getLsbD i := by
      intro i hi
      rw [getLsbD_maskedValue _ _ _ _ (by omega), hbit, decide_eq_true (by omega : i < 32),
        Bool.true_and]
    constructor
    · rintro ⟨value, hst, hv⟩ i hi
      obtain rfl : _ = value := congrArg BusWrite.value (List.append_cancel_left
        (congrArg Device.writes hst) |> List.head_eq_of_cons_eq)
      have hi' := hv i
      rw [getLsbD_lowBytes, decide_eq_true hi, Bool.true_and, Bool.true_and, hvalue i hi] at hi'
      cases ho : Owns irqBitmap (r.wordIrqAt mmio.addr i) <;>
        cases ho' : Owns irqBitmap (r.irqAt mmio.addr i) <;> simp_all
    · intro h
      refine ⟨_, rfl, fun i => ?_⟩
      rw [getLsbD_lowBytes]
      by_cases hi : i < 8 * mmio.bytes
      · rw [hvalue i hi]
        rcases h i hi with ho | hz
        · rw [ho]
        · rw [hz, ite_self, ite_self]
      · rw [decide_eq_false hi, Bool.false_and, Bool.false_and]

/-! ## What an access writes -/

theorem writes_of_mmioPerformAccess {mmio mmio' : MMIOAccess} {dev dev' : Device}
    (h : mmioPerformAccess mmio dev = some (mmio', dev')) :
    dev'.writes = dev.writes ∨ mmio.isWrite = true ∧ mmio.size ∈ [1, 2, 4, 8] ∧
      mmio.addr % mmio.bytes = 0 ∧ dev'.writes = dev.writes ++
        [⟨mmio.addr, mmio.bytes, lowBytes mmio.value.toBitVec mmio.bytes⟩] := by
  obtain ⟨hal, h⟩ := mmioPerformAccess_eq_some_iff.mp h
  rw [Device.access] at h
  split_ifs at h with hw hs hs <;> cases h
  · exact .inr ⟨hw, hs, hal hs, rfl⟩
  · exact .inl rfl
  · exact .inl rfl
  · exact .inl rfl

theorem writes_of_handleIrqOps {irqBitmap : IrqBitmap} {mmio mmio' : MMIOAccess} {irq : Nat}
    {dev dev' : Device} (h : vgicv3HandleIrqOps irqBitmap mmio irq dev = some (mmio', dev')) :
    dev'.writes = dev.writes ∨ isSpi irq = true ∧ Owns irqBitmap irq = true ∧
      mmio.isWrite = true ∧ mmio.size ∈ [1, 2, 4, 8] ∧ mmio.addr % mmio.bytes = 0 ∧
      dev'.writes = dev.writes ++
        [⟨mmio.addr, mmio.bytes, lowBytes mmio.value.toBitVec mmio.bytes⟩] := by
  rw [vgicv3HandleIrqOps] at h
  split_ifs at h with hspi
  · cases h
    exact .inl rfl
  · rw [Bool.not_eq_true, Bool.not_eq_false'] at hspi
    have hlt : irq < 1024 := by
      rw [isSpi, decide_eq_true_iff] at hspi
      omega
    simp only [irqInZone_of_lt irqBitmap hlt, Option.bind_eq_bind, Option.bind_some] at h
    cases ho : Owns irqBitmap irq with
    | false =>
      rw [ho] at h
      cases h
      exact .inl rfl
    | true =>
      rw [ho] at h
      exact (writes_of_mmioPerformAccess h).imp id fun hw => ⟨hspi, rfl, hw⟩

/-- A poke of a register with fields sets bits of the guest's value, for interrupts of the zone. -/
def PokesOwn (irqBitmap : IrqBitmap) (r : BitFieldReg) (mmio : MMIOAccess) (value : BitVec 64) :
    Prop :=
  ∀ i, value.getLsbD i = true → i < 32 ∧ i < 8 * mmio.bytes ∧
    Owns irqBitmap (r.wordIrqAt mmio.addr i) = true ∧ mmio.value.toBitVec.getLsbD i = true

theorem writes_of_restrictBitmaskAccess {irqBitmap : IrqBitmap} {r : BitFieldReg}
    (hr : r ∈ bitFieldRegs) {mmio mmio' : MMIOAccess}
    (ha : inRegRange r.base r.num 4 mmio.addr = true) {dev dev' : Device}
    (h : vgicv3DistHandler irqBitmap mmio dev = some (mmio', dev')) :
    dev'.writes = dev.writes ∨ mmio.isWrite = true ∧ mmio.size ∈ [1, 2, 4, 8] ∧
      mmio.addr % mmio.bytes = 0 ∧ ∃ value,
      dev'.writes = dev.writes ++ [⟨mmio.addr, mmio.bytes, value⟩] ∧
      (r.isPoke = true → PokesOwn irqBitmap r mmio value) := by
  obtain ⟨mask, hmask, hbit⟩ := accessMask_wordIrqAt irqBitmap (wellFormed_of_mem hr) ha
  rw [vgicv3DistHandler_bitField irqBitmap hr ha] at h
  have hal : mmio.Aligned := by
    by_contra hnot
    rw [restrictBitmaskAccess_of_not_aligned _ _ _ hnot] at h
    cases h
  by_cases hs : mmio.size ∈ [1, 2, 4, 8]
  · rw [restrictBitmaskAccess_eq _ _ _ _ hmask hs hal] at h
    cases hw : mmio.isWrite with
    | false =>
      simp only [hw, Bool.false_eq_true, if_false] at h
      cases h
      exact .inl rfl
    | true =>
      simp only [hw, if_true] at h
      cases h
      refine .inr ⟨rfl, hs, hal hs, _, rfl, fun hpoke i hi => ?_⟩
      rw [getLsbD_lowBytes, maskedValue, hpoke, if_pos rfl, BitVec.getLsbD_and, hbit] at hi
      simp only [Bool.and_eq_true, decide_eq_true_eq] at hi
      exact ⟨hi.2.2.1, hi.1, hi.2.2.2, hi.2.1⟩
  · left
    have hal' : ∀ isWrite value,
        MMIOAccess.Aligned { mmio with isWrite := isWrite, value := value } := fun _ _ => hal
    simp only [restrictBitmaskAccess, hmask, Option.bind_eq_bind, Option.bind_some,
      mmioPerformAccess, hal, hal', Device.access, hs, if_true, if_false] at h
    cases hw : mmio.isWrite <;> simp only [hw] at h <;> split_ifs at h <;> cases h <;> rfl

theorem writes_of_distMiscAccess {mmio mmio' : MMIOAccess} {dev dev' : Device}
    (h : vgicv3DistMiscAccess mmio dev = some (mmio', dev')) : dev'.writes = dev.writes := by
  rw [vgicv3DistMiscAccess, mmioPerformAccess] at h
  cases hw : mmio.isWrite <;>
    simp only [Device.access, hw, Bool.not_false, Bool.not_true, Bool.false_eq_true, if_true,
      if_false] at h <;>
    split_ifs at h <;> cases h <;> rfl

/-- **What an access writes**: nothing, or a register of an interrupt of the zone, or a register
with fields of interrupts, in which a poke hits interrupts of the zone. -/
theorem writes_of_distHandler {irqBitmap : IrqBitmap} {mmio mmio' : MMIOAccess} {dev dev' : Device}
    (h : vgicv3DistHandler irqBitmap mmio dev = some (mmio', dev')) :
    dev'.writes = dev.writes ∨ mmio.isWrite = true ∧ mmio.size ∈ [1, 2, 4, 8] ∧
      mmio.addr % mmio.bytes = 0 ∧ ∃ value,
      dev'.writes = dev.writes ++ [⟨mmio.addr, mmio.bytes, value⟩] ∧
      (inRegRange GICD_IROUTER 1024 8 mmio.addr = true ∧
          Owns irqBitmap ((mmio.addr - GICD_IROUTER) / 8) = true ∧
          value = lowBytes mmio.value.toBitVec mmio.bytes ∨
        inRegRange GICD_ITARGETSR 1024 1 mmio.addr = true ∨
        ∃ r ∈ bitFieldRegs, inRegRange r.base r.num 4 mmio.addr = true ∧
          (r.isPoke = true → PokesOwn irqBitmap r mmio value)) := by
  by_cases hreg : ∃ r ∈ bitFieldRegs, inRegRange r.base r.num 4 mmio.addr = true
  · obtain ⟨r, hr, ha⟩ := hreg
    rcases writes_of_restrictBitmaskAccess hr ha h with hw | ⟨hwr, hs, hal, value, hw, hpoke⟩
    · exact .inl hw
    · exact .inr ⟨hwr, hs, hal, value, hw, .inr (.inr ⟨r, hr, ha, hpoke⟩)⟩
  · simp only [bitFieldRegs, List.mem_cons, List.not_mem_nil, or_false, exists_eq_or_imp,
      exists_eq_left, not_or, Bool.not_eq_true] at hreg
    obtain ⟨h₁, h₂, h₃, h₄, h₅, h₆, h₇, h₈, h₉⟩ := hreg
    rw [vgicv3DistHandler] at h
    simp only [h₁, h₂, h₃, h₄, h₅, h₆, h₇, h₈, h₉, Bool.or_self, Bool.false_eq_true, if_false] at h
    split_ifs at h with hrouter htarget
    · rcases writes_of_handleIrqOps h with hw | ⟨-, ho, hwr, hs, hal, hw⟩
      · exact .inl hw
      · exact .inr ⟨hwr, hs, hal, _, hw, .inl ⟨hrouter, ho, rfl⟩⟩
    · rcases writes_of_handleIrqOps h with hw | ⟨-, -, hwr, hs, hal, hw⟩
      · exact .inl hw
      · exact .inr ⟨hwr, hs, hal, _, hw, .inr (.inl htarget)⟩
    · exact .inl (writes_of_distMiscAccess h)

/-! ## A zone with one interrupt -/

/-- The zone has interrupt 33. -/
def oneIrq : IrqBitmap := (irqBitmapInit [33]).getD (Vector.replicate _ 0)

/-- A device with zeros in all registers. -/
def zeroDevice : Device := ⟨fun _ => 0, []⟩

/-- The zone may write a word with the priority of its interrupt. -/
theorem vgicv3DistHandler_fieldWise_word :
    ∃ res, vgicv3DistHandler oneIrq ⟨0x420, 4, true, 0x80808080⟩ zeroDevice = some res ∧
      FieldWise oneIrq ⟨GICD_IPRIORITYR, 255, 8, false⟩ ⟨0x420, 4, true, 0x80808080⟩
        zeroDevice res :=
  (vgicv3DistHandler_fieldWise_iff oneIrq (by decide) (by decide) (by decide) zeroDevice).mpr
    (by decide)

/-- The zone cannot write the byte with the priority of its interrupt: the mask of the byte is that
of interrupt 32. -/
theorem vgicv3DistHandler_not_fieldWise :
    ¬ ∀ (irqBitmap : IrqBitmap) (r : BitFieldReg) (mmio : MMIOAccess) (dev : Device),
      r ∈ bitFieldRegs → inRegRange r.base r.num 4 mmio.addr = true → mmio.size ∈ [1, 2, 4] →
      mmio.addr % mmio.bytes = 0 →
      ∃ res, vgicv3DistHandler irqBitmap mmio dev = some res ∧
        FieldWise irqBitmap r mmio dev res := by
  intro h
  obtain ⟨res, hres, hf⟩ := h oneIrq ⟨GICD_IPRIORITYR, 255, 8, false⟩ ⟨0x421, 1, true, 0xff⟩
    zeroDevice (by decide) (by decide) (by decide) (by decide)
  have hrun : vgicv3DistHandler oneIrq ⟨0x421, 1, true, 0xff⟩ zeroDevice =
      some (⟨0x421, 1, true, 0⟩, zeroDevice.store ⟨0x421, 1, 0⟩) := by rfl
  rw [hrun] at hres
  cases hres
  obtain ⟨value, hst, hv⟩ := hf
  obtain rfl : 0 = value := congrArg BusWrite.value (List.head_eq_of_cons_eq
    (congrArg Device.writes hst))
  have hbit := hv 0
  revert hbit
  decide

end Hvisor
