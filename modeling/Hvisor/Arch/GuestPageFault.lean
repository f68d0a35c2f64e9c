import Hvisor.Arch.Dabt
import Hvisor.Irqchip.VplicAccess

/-!
# Guest page faults on riscv64

`guest_page_fault_handler` with the virtual PLIC, from `arch/riscv64/trap.rs`: it decodes the
transformed instruction in `htinst`, hands an access to the device, and writes the destination of a
load. A load that extends no sign leaves all bits that the device answers, and a store hands all
bits of its source to the device, which the virtual PLIC turns away when they are no word.

## Main definitions

* `insLdstDecode`, `guestPageFaultHandler`: the decoder and the handler
* `RvInstr`, `RvInstr.htinst`: the loads and the stores, and their transformed words
* `RvMoves`, `RvClean`: the data move as the architecture says, and the condition
* `vplicHandler`, `VplicClean`: the virtual PLIC as a device, and the condition there

## Main results

* `insLdstDecode_transformed`, `standardIns_htinst`: every load and store is decoded as it is
* `shift_eq_signExtend`: the shifts of a load that extends the sign
* `guestPageFaultHandler_eq`: the run of the handler
* `rvMoves_device`, `rvMoves_vplic`: when the data move as the architecture says
-/

namespace Hvisor

/-! ## The instruction -/

-- standard ins[14:12]
/-- The bits of the kind of a load or store. -/
def INS_FUNCT3_MASK : BitVec 64 := 0x00007000
-- standard ins[6:0]
/-- The bits of the opcode. -/
def INS_OPCODE_MASK : BitVec 64 := 0x0000007f
/-- The opcode of loads. -/
def OPCODE_LOAD : BitVec 64 := 0x03
/-- The opcode of stores. -/
def OPCODE_STORE : BitVec 64 := 0x23
/-- The bits of the source of a store. -/
def INS_RS2_MASK : BitVec 64 := 0x01f00000
/-- The bits of the target of a load. -/
def INS_RD_MASK : BitVec 64 := 0x00000f80

/-- The instruction is compressed. -/
def insIsCompressed (ins : BitVec 64) : Bool := ins &&& 0x3 != 3

/-- The instruction in `htinst` is a pseudo instruction. -/
def insIsPreudo (ins : BitVec 64) : Bool := ins &&& 0x3 == 0

/-- The size, the direction and whether the sign is extended. -/
def insLdstDecode (ins : BitVec 64) : Option (Nat × Bool × Bool) :=
  if insIsCompressed ins then none
  else if ins &&& INS_OPCODE_MASK != OPCODE_LOAD && ins &&& INS_OPCODE_MASK != OPCODE_STORE then
    none
  else do
    let funct3 := (ins &&& INS_FUNCT3_MASK) >>> 12
    let size ← match funct3.toNat with
      | 0b000 => some 1
      | 0b001 => some 2
      | 0b010 => some 4
      | 0b011 => some 8
      | 0b100 => some 1
      | 0b101 => some 2
      | 0b110 => some 4
      | 0b111 => some 8
      | _ => none
    let isWrite := ins &&& INS_OPCODE_MASK == OPCODE_STORE
    let signExt := funct3 &&& 0x4 == 0
    return (size, isWrite, signExt)

/-- The length of the instruction in bytes, from the low bits of `htinst`. -/
def insSize (trapIns : BitVec 64) : Option Nat :=
  match (trapIns &&& 0x3).toNat with
  | 0x1 => some 2
  | 0x3 => some 4
  | _ => none

/-- The transformed instruction as a standard one. -/
def standardIns (trapIns : BitVec 64) : Option (BitVec 64) :=
  if trapIns &&& 0x1 == 0x1 then some (trapIns ||| 0x2)
  -- a pseudo instruction, or one that is not in `htinst`: a panic either way
  else if insIsPreudo trapIns then none
  else none

/-! ## The handler -/

/-- The registers of the trap, those of the guest, and the devices of its zone. -/
structure RvMachine (σ : Type) where
  htval : BitVec 64
  htinst : BitVec 64
  stval : BitVec 64
  sepc : BitVec 64
  x : Vector (BitVec 64) 32
  dev : σ

variable (overflowChecks : Bool) {σ : Type}

/-- The guest-physical address of the access. -/
def RvMachine.address (m : RvMachine σ) : BitVec 64 := m.htval <<< 2 ||| m.stval &&& 0x3

/-- The access that is handed to the device. -/
def rvAccess (m : RvMachine σ) (trapIns : BitVec 64) (size : Nat) (isWrite : Bool) :
    Option MMIOAccess := do
  -- `x0` is read as zero, whatever the context holds in its place
  let insRs2 := ((INS_RS2_MASK &&& trapIns) >>> 20).toNat
  let value ← if isWrite then if insRs2 = 0 then some 0 else m.x[insRs2]? else some 0
  return { address := ⟨m.address⟩, size := .ofNat size, isWrite, value := ⟨value⟩ }

/-- The destination of a load that was handled. -/
def finishRvLoad (m : RvMachine σ) (trapIns : BitVec 64) (size : Nat) (isWrite signExt : Bool)
    (value : BitVec 64) : RvMachine σ :=
  let insRd := ((INS_RD_MASK &&& trapIns) >>> 7).toNat
  if !isWrite && insRd != 0 then
    -- shifted up and down again; a load that extends no sign keeps all bits of the answer
    let value :=
      if signExt then (value <<< (64 - 8 * size)).sshiftRight (64 - 8 * size) else value
    { m with x := m.x.setIfInBounds insRd value }
  else m

/-- `guest_page_fault_handler`. -/
def guestPageFaultHandler (handlers : MMIOHandler → MMIOHandler.Run σ) (regions : List MMIOConfig)
    (m : RvMachine σ) : Option (RvMachine σ) := do
  -- the guest goes on after the original instruction, whatever the device answers
  let insSize ← insSize m.htinst
  let sepc ← wordResult overflowChecks 64 (m.sepc.toNat + insSize)
  let m := { m with sepc := .ofNat 64 sepc }
  let trapIns ← standardIns m.htinst
  let (size, isWrite, signExt) ← insLdstDecode trapIns
  let mmioAccess ← rvAccess m trapIns size isWrite
  let (res, mmioAccess, dev) ←
    mmioHandleAccess overflowChecks handlers regions mmioAccess m.dev
  let m := { m with dev }
  match res with
  | .ok () => some (finishRvLoad m trapIns size isWrite signExt mmioAccess.value.toBitVec)
  -- `mmio_handle_access` has failed: a panic
  | .error _ => none

/-! ## Loads and stores -/

/-- The loads. -/
inductive LoadOp where
  | LB
  | LH
  | LW
  | LD
  | LBU
  | LHU
  | LWU
  deriving DecidableEq

/-- The stores. -/
inductive StoreOp where
  | SB
  | SH
  | SW
  | SD
  deriving DecidableEq

namespace LoadOp

/-- The bits of the kind of a load. -/
def funct3 : LoadOp → BitVec 3
  | LB => 0b000
  | LH => 0b001
  | LW => 0b010
  | LD => 0b011
  | LBU => 0b100
  | LHU => 0b101
  | LWU => 0b110

/-- The number of bytes. -/
def size : LoadOp → Nat
  | LB | LBU => 1
  | LH | LHU => 2
  | LW | LWU => 4
  | LD => 8

/-- The sign is extended; for eight bytes there is nothing to extend. -/
def signed : LoadOp → Bool
  | LB | LH | LW | LD => true
  | LBU | LHU | LWU => false

end LoadOp

namespace StoreOp

/-- The bits of the kind of a store. -/
def funct3 : StoreOp → BitVec 3
  | SB => 0b000
  | SH => 0b001
  | SW => 0b010
  | SD => 0b011

/-- The bytes of a store. -/
def size : StoreOp → Nat
  | SB => 1
  | SH => 2
  | SW => 4
  | SD => 8

end StoreOp

/-- A load or a store, with the register that it writes or reads. -/
inductive RvInstr where
  | load (op : LoadOp) (rd : BitVec 5)
  | store (op : StoreOp) (rs2 : BitVec 5)
  deriving DecidableEq

/-- The fields of an instruction of 32 bits. -/
def rvWord (high : BitVec 7) (rs2 rs1 : BitVec 5) (funct3 : BitVec 3) (rd : BitVec 5)
    (opcode : BitVec 7) : BitVec 32 :=
  high ++ rs2 ++ rs1 ++ funct3 ++ rd ++ opcode

namespace RvInstr

/-- The transformed instruction: the offset of the address is zero, and the field of the register of
the address holds another offset. -/
def transformed (offset : BitVec 5) : RvInstr → BitVec 32
  | load op rd => rvWord 0 0 offset op.funct3 rd 0b0000011
  | store op rs2 => rvWord 0 rs2 offset op.funct3 0 0b0100011

/-- The value of `htinst`: bit 1 is clear where the original is compressed. -/
def htinst (i : RvInstr) (offset : BitVec 5) (compressed : Bool) : BitVec 64 :=
  let word := (i.transformed offset).setWidth 64
  if compressed then word &&& ~~~0x2 else word

/-- The length of the original in bytes. -/
def length (compressed : Bool) : Nat := if compressed then 2 else 4

/-- The bytes of the access. -/
def size : RvInstr → Nat
  | load op _ => op.size
  | store op _ => op.size

/-- The instruction is a store. -/
def isStore : RvInstr → Bool
  | load _ _ => false
  | store _ _ => true

/-- The sign is extended; of a store this says nothing. -/
def signed : RvInstr → Bool
  | load op _ => op.signed
  | store _ _ => true

end RvInstr

/-! ## Decoding -/

variable {overflowChecks}

/-- A field of a word, from bit `c` on. -/
theorem and_ushiftRight_eq {x mask : BitVec 64} {b : Nat} (c : Nat) {field : BitVec b}
    (hmask : ∀ i < 64, mask.getLsbD i = decide (c ≤ i ∧ i < c + b))
    (hx : ∀ i < b, x.getLsbD (c + i) = field.getLsbD i) :
    (x &&& mask) >>> c = field.setWidth 64 := by
  apply BitVec.eq_of_getLsbD_eq
  intro i hi
  rw [BitVec.getLsbD_ushiftRight, BitVec.getLsbD_and, BitVec.getLsbD_setWidth, decide_eq_true hi,
    Bool.true_and]
  -- inside the word the mask decides; a bit past it is clear on both sides
  by_cases hc : c + i < 64
  · rw [hmask _ hc]
    by_cases hb : i < b
    · rw [hx i hb, decide_eq_true (by omega), Bool.and_true]
    · rw [decide_eq_false (by omega), Bool.and_false, BitVec.getLsbD_of_ge field i (by omega)]
  · rw [BitVec.getLsbD_of_ge x _ (by omega), Bool.false_and]
    by_cases hb : i < b
    · rw [← hx i hb, BitVec.getLsbD_of_ge x _ (by omega)]
    · rw [BitVec.getLsbD_of_ge field i (by omega)]

section

variable (high : BitVec 7) (rs2 rs1 : BitVec 5) (funct3 : BitVec 3) (rd : BitVec 5)
  (opcode : BitVec 7)

/-- The bits of a word, field by field. -/
theorem getLsbD_rvWord (i : Nat) :
    ((rvWord high rs2 rs1 funct3 rd opcode).setWidth 64).getLsbD i =
      if i < 7 then opcode.getLsbD i else if i < 12 then rd.getLsbD (i - 7)
      else if i < 15 then funct3.getLsbD (i - 12) else if i < 20 then rs1.getLsbD (i - 15)
      else if i < 25 then rs2.getLsbD (i - 20) else high.getLsbD (i - 25) := by
  -- each append moves the index by the width of the field below it
  have h₁ : i - 7 - 5 = i - 12 := by omega
  have h₂ : i - 12 - 3 = i - 15 := by omega
  have h₃ : i - 15 - 5 = i - 20 := by omega
  have h₄ : i - 20 - 5 = i - 25 := by omega
  rw [BitVec.getLsbD_setWidth, rvWord, BitVec.getLsbD_append, BitVec.getLsbD_append,
    BitVec.getLsbD_append, BitVec.getLsbD_append, BitVec.getLsbD_append, h₁, h₂, h₃, h₄]
  grind

theorem opcode_rvWord : (rvWord high rs2 rs1 funct3 rd opcode).setWidth 64 &&& INS_OPCODE_MASK =
    opcode.setWidth 64 := by
  apply and_ushiftRight_eq 0 (by decide)
  intro i hi
  rw [getLsbD_rvWord, if_pos (by omega), Nat.zero_add]

theorem funct3_rvWord :
    ((rvWord high rs2 rs1 funct3 rd opcode).setWidth 64 &&& INS_FUNCT3_MASK) >>> 12 =
      funct3.setWidth 64 := by
  apply and_ushiftRight_eq 12 (by decide)
  intro i hi
  rw [getLsbD_rvWord, if_neg (by omega), if_neg (by omega), if_pos (by omega),
    Nat.add_sub_cancel_left]

theorem rd_rvWord : (INS_RD_MASK &&& (rvWord high rs2 rs1 funct3 rd opcode).setWidth 64) >>> 7 =
    rd.setWidth 64 := by
  rw [BitVec.and_comm]
  apply and_ushiftRight_eq 7 (by decide)
  intro i hi
  rw [getLsbD_rvWord, if_neg (by omega), if_pos (by omega), Nat.add_sub_cancel_left]

theorem rs2_rvWord : (INS_RS2_MASK &&& (rvWord high rs2 rs1 funct3 rd opcode).setWidth 64) >>> 20 =
    rs2.setWidth 64 := by
  rw [BitVec.and_comm]
  apply and_ushiftRight_eq 20 (by decide)
  intro i hi
  rw [getLsbD_rvWord, if_neg (by omega), if_neg (by omega), if_neg (by omega), if_neg (by omega),
    if_pos (by omega), Nat.add_sub_cancel_left]

/-- The low bits of a word that is not compressed. -/
theorem low_rvWord (hlow : ∀ i < 2, opcode.getLsbD i = true) :
    (rvWord high rs2 rs1 funct3 rd opcode).setWidth 64 &&& 3 = (3 : BitVec 64) := by
  show _ = (3#2).setWidth 64
  apply and_ushiftRight_eq 0 (by decide)
  intro i hi
  rw [getLsbD_rvWord, if_pos (by omega), Nat.zero_add, hlow i hi]
  obtain rfl | rfl : i = 0 ∨ i = 1 := by omega
  · rfl
  · rfl

end

/-- Every word of this kind has the low bits of a word of four bytes. -/
theorem transformed_low (i : RvInstr) (offset : BitVec 5) :
    (i.transformed offset).setWidth 64 &&& 3 = (3 : BitVec 64) := by
  cases i with
  | load op rd => exact low_rvWord _ _ _ _ _ _ (by decide)
  | store op rs2 => exact low_rvWord _ _ _ _ _ _ (by decide)

/-- The size, the direction and the sign of each load and store are decoded as they are. -/
theorem insLdstDecode_transformed (i : RvInstr) (offset : BitVec 5) :
    insLdstDecode ((i.transformed offset).setWidth 64) = some (i.size, i.isStore, i.signed) := by
  have hcompressed : insIsCompressed ((i.transformed offset).setWidth 64) = false := by
    rw [insIsCompressed, bne_eq_false_iff_eq]
    exact transformed_low i offset
  rw [insLdstDecode, hcompressed]
  cases i with
  | load op rd =>
    simp only [RvInstr.transformed, opcode_rvWord, funct3_rvWord]
    -- opcode and funct3 are now constants of the operation
    cases op <;> rfl
  | store op rs2 =>
    simp only [RvInstr.transformed, opcode_rvWord, funct3_rvWord]
    cases op <;> rfl

/-- Bit 1 may be cleared and set again. -/
theorem or_two_eq {word : BitVec 64} (h : word &&& 3 = 3) :
    word ||| 2 = word ∧ word &&& ~~~2 ||| 2 = word := by
  have hbit : word.getLsbD 1 = true := by
    have h1 := congrArg (·.getLsbD 1) h
    simpa using h1
  have htwo : ∀ i < 64, (2 : BitVec 64).getLsbD i = decide (i = 1) := by decide
  -- bit by bit: only bit 1 is touched, and it is set in the word
  constructor
  · apply BitVec.eq_of_getLsbD_eq
    intro i hi
    rw [BitVec.getLsbD_or, htwo i hi]
    by_cases h1 : i = 1
    · rw [h1, hbit, Bool.true_or]
    · rw [decide_eq_false h1, Bool.or_false]
  · apply BitVec.eq_of_getLsbD_eq
    intro i hi
    rw [BitVec.getLsbD_or, BitVec.getLsbD_and, BitVec.getLsbD_not, htwo i hi]
    by_cases h1 : i = 1
    · rw [h1, hbit]
      rfl
    · rw [decide_eq_false h1, decide_eq_true hi, Bool.or_false, Bool.not_false, Bool.and_true,
        Bool.and_true]

/-- The low bits of `htinst`. -/
theorem htinst_low (i : RvInstr) (offset : BitVec 5) (compressed : Bool) :
    i.htinst offset compressed &&& 3 = if compressed then 1 else 3 := by
  have hlow := transformed_low i offset
  cases compressed with
  | false => exact hlow
  | true =>
    have hmask : ~~~2 &&& 3 = (3 : BitVec 64) &&& ~~~2 := BitVec.and_comm _ _
    rw [RvInstr.htinst, if_pos rfl, BitVec.and_assoc, hmask, ← BitVec.and_assoc, hlow]
    rfl

theorem insSize_htinst (i : RvInstr) (offset : BitVec 5) (compressed : Bool) :
    insSize (i.htinst offset compressed) = some (RvInstr.length compressed) := by
  rw [insSize, htinst_low]
  cases compressed <;> rfl

/-- The instruction of four bytes is found again. -/
theorem standardIns_htinst (i : RvInstr) (offset : BitVec 5) (compressed : Bool) :
    standardIns (i.htinst offset compressed) = some ((i.transformed offset).setWidth 64) := by
  have hlow := htinst_low i offset compressed
  have hone : i.htinst offset compressed &&& 0x1 = 0x1 := by
    have hmask : (0x1 : BitVec 64) = 3 &&& 1 := rfl
    rw [hmask, ← BitVec.and_assoc, hlow]
    cases compressed <;> rfl
  -- bit 0 is set for both lengths, so the branch of the panics is not taken
  rw [standardIns, if_pos (beq_iff_eq.mpr hone)]
  obtain ⟨hset, hclear⟩ := or_two_eq (transformed_low i offset)
  cases compressed with
  | false => exact congrArg some hset
  | true => exact congrArg some hclear

/-! ## The architecture -/

/-- A register of the guest; register 0 is zero. -/
def rvReg (x : Vector (BitVec 64) 32) (r : BitVec 5) : BitVec 64 :=
  if r = 0 then 0 else x[r.toNat]?.getD 0

/-- Write a register; register 0 stays zero. -/
def setRvReg (x : Vector (BitVec 64) 32) (r : BitVec 5) (value : BitVec 64) :
    Vector (BitVec 64) 32 :=
  if r = 0 then x else x.setIfInBounds r.toNat value

/-- The access that the device is handed, with its address. -/
def RvMachine.request (m : RvMachine σ) (i : RvInstr) : MMIOAccess where
  address := ⟨m.address⟩
  size := .ofNat i.size
  isWrite := i.isStore
  value := ⟨match i with | .load _ _ => 0 | .store _ rs2 => rvReg m.x rs2⟩

/-- The machine with other devices. -/
def RvMachine.withDev {τ : Type} (m : RvMachine σ) (dev : τ) : RvMachine τ where
  htval := m.htval
  htinst := m.htinst
  stval := m.stval
  sepc := m.sepc
  x := m.x
  dev := dev

/-- **The data move as the architecture says**: the next instruction is the one after the original;
a load whose device answers `value` leaves the low bytes of it, extended, in its destination, and
nothing else; the device of a store is handed the low bytes of the source, once. -/
structure RvMoves (i : RvInstr) (compressed : Bool) (m : RvMachine σ)
    (m' : RvMachine (σ × List MMIOAccess)) (value : BitVec 64) : Prop where
  sepc : m'.sepc = m.sepc + .ofNat 64 (RvInstr.length compressed)
  load : ∀ op rd, i = .load op rd → m'.x = setRvReg m.x rd (archLoad op.size op.signed true value)
  store : ∀ op rs2, i = .store op rs2 → m'.x = m.x ∧ ∃ mmio, m'.dev.2 = [mmio] ∧
    mmio.value.toBitVec = lowBytes (rvReg m.x rs2) op.size

/-- A load goes to `x0`, extends the sign, or is answered with no bits but those of the access. The
source of a store has no bits but those of the access. -/
def RvClean (i : RvInstr) (m : RvMachine σ) (value : BitVec 64) : Prop :=
  match i with
  | .load op rd => rd = 0 ∨ op.signed = true ∨ value.toNat < 2 ^ (8 * op.size)
  | .store op rs2 => (rvReg m.x rs2).toNat < 2 ^ (8 * op.size)

/-! ## What a load leaves -/

/-- **Shifted up and down again**, a value has its low bits with their sign. -/
theorem shift_eq_signExtend (v : BitVec 64) {w : Nat} (hw : 0 < w) (hle : w ≤ 64) :
    (v <<< (64 - w)).sshiftRight (64 - w) = (v.setWidth w).signExtend 64 := by
  apply BitVec.eq_of_getLsbD_eq
  intro i hi
  rw [getLsbD_signExtend_setWidth v hw hi, BitVec.getLsbD_sshiftRight, BitVec.msb_eq_getLsbD_last,
    BitVec.getLsbD_shiftLeft, BitVec.getLsbD_shiftLeft, decide_eq_false (by omega : ¬ 64 ≤ i)]
  -- below `w` the bit has come back to its place; above it is the sign, bit `w - 1`
  by_cases hlow : i < w
  · rw [if_pos (by omega), if_pos hlow, decide_eq_true (by omega : 64 - w + i < 64),
      decide_eq_false (by omega : ¬ 64 - w + i < 64 - w), Nat.add_sub_cancel_left]
    rfl
  · have hlast : 64 - 1 - (64 - w) = w - 1 := by omega
    rw [if_neg (by omega), if_neg hlow, decide_eq_false (by omega : ¬ 64 - 1 < 64 - w), hlast]
    rfl

/-- The value that the handler leaves in the destination of a load. -/
def LoadOp.loaded (op : LoadOp) (value : BitVec 64) : BitVec 64 :=
  if op.signed then (value <<< (64 - 8 * op.size)).sshiftRight (64 - 8 * op.size) else value

/-- A load that extends the sign leaves what the architecture says, and another one if there are no
other bits. -/
theorem LoadOp.loaded_eq_iff (op : LoadOp) (value : BitVec 64) :
    op.loaded value = archLoad op.size op.signed true value ↔
      op.signed = true ∨ value.toNat < 2 ^ (8 * op.size) := by
  have hsize : 0 < 8 * op.size ∧ 8 * op.size ≤ 64 := by cases op <;> decide
  rw [loaded, archLoad]
  cases hsigned : op.signed with
  -- the shifts are the extension of the sign
  | true => exact iff_of_true (shift_eq_signExtend value hsize.1 hsize.2) (.inl rfl)
  | false =>
    -- nothing is masked, so the value has to be its own low bytes
    rw [if_neg Bool.false_ne_true, if_neg Bool.false_ne_true, setWidth_eq_lowBytes,
      eq_lowBytes_iff]
    exact ⟨.inr, fun h => h.resolve_left Bool.false_ne_true⟩

/-- Two values are written alike to register 0 only. -/
theorem setRvReg_inj (x : Vector (BitVec 64) 32) (r : BitVec 5) (v w : BitVec 64) :
    setRvReg x r v = setRvReg x r w ↔ r = 0 ∨ v = w := by
  constructor
  · intro h
    by_cases hr : r = 0
    · exact .inl hr
    · rw [setRvReg, setRvReg, if_neg hr, if_neg hr] at h
      exact .inr (setIfInBounds_inj x r.isLt h)
  · rintro (rfl | rfl)
    · rfl
    · rfl

/-! ## The run of the handler -/

variable {handlers : MMIOHandler → MMIOHandler.Run σ} {regions : List MMIOConfig} {cfg : MMIOConfig}
  {m : RvMachine σ} {i : RvInstr} {offset : BitVec 5} {compressed : Bool}

/-- The registers after the instruction, when the device answers `value`. -/
def RvInstr.finish (i : RvInstr) (x : Vector (BitVec 64) 32) (value : BitVec 64) :
    Vector (BitVec 64) 32 :=
  match i with
  | load op rd => setRvReg x rd (op.loaded value)
  | store _ _ => x

/-- What the handler of the region answers, and what is left of it. -/
def RvMachine.serve (m : RvMachine σ) (handlers : MMIOHandler → MMIOHandler.Run σ)
    (cfg : MMIOConfig) (i : RvInstr) : Option (Except HvError Unit × MMIOAccess × σ) :=
  handlers cfg.handler
    { m.request i with address := (m.request i).address - .ofNat cfg.start } cfg.arg m.dev

theorem rvAccess_transformed (m : RvMachine σ) (i : RvInstr) (offset : BitVec 5) :
    rvAccess m ((i.transformed offset).setWidth 64) i.size i.isStore = some (m.request i) := by
  cases i with
  | load op rd => rfl
  | store op rs2 =>
    have hlt := rs2.isLt
    rw [rvAccess, RvInstr.transformed, rs2_rvWord, BitVec.toNat_setWidth,
      Nat.mod_eq_of_lt (hlt.trans (by decide)), RvMachine.request, rvReg]
    by_cases hr : rs2 = 0
    · rw [hr]
      rfl
    · have hne : rs2.toNat ≠ 0 := fun h => hr (BitVec.eq_of_toNat_eq h)
      rw [if_neg hne, if_neg hr, Vector.getElem?_eq_getElem hlt]
      rfl

theorem finishRvLoad_transformed (m : RvMachine σ) (i : RvInstr) (offset : BitVec 5)
    (value : BitVec 64) :
    finishRvLoad m ((i.transformed offset).setWidth 64) i.size i.isStore i.signed value =
      { m with x := i.finish m.x value } := by
  cases i with
  | store op rs2 => rfl
  | load op rd =>
    have hlt := rd.isLt
    rw [finishRvLoad, RvInstr.transformed, rd_rvWord, BitVec.toNat_setWidth,
      Nat.mod_eq_of_lt (hlt.trans (by decide)), RvInstr.finish, setRvReg]
    by_cases hr : rd = 0
    · rw [hr]
      rfl
    · have hne : rd.toNat ≠ 0 := fun h => hr (BitVec.eq_of_toNat_eq h)
      rw [if_pos (by simp [RvInstr.isStore, hne]), if_neg hr]
      rfl

/-- **The run of the handler** on a load or a store. -/
theorem guestPageFaultHandler_eq (hins : m.htinst = i.htinst offset compressed)
    (hfind : findMmioRegion overflowChecks regions (m.request i).addr (m.request i).bytes =
      some (some cfg)) :
    guestPageFaultHandler overflowChecks handlers regions m =
      (wordResult overflowChecks 64 (m.sepc.toNat + RvInstr.length compressed)).bind fun sepc =>
        (m.serve handlers cfg i).bind fun (res, mmio, dev) =>
          match res with
          | .ok () => some { m with
              sepc := .ofNat 64 sepc, x := i.finish m.x mmio.value.toBitVec, dev }
          | .error _ => none := by
  have hsize : insSize m.htinst = some (RvInstr.length compressed) := by
    rw [hins, insSize_htinst]
  have hstandard : standardIns m.htinst = some ((i.transformed offset).setWidth 64) := by
    rw [hins, standardIns_htinst]
  have haccess := fun sepc => rvAccess_transformed { m with sepc := BitVec.ofNat 64 sepc } i offset
  simp only [guestPageFaultHandler, hsize, hstandard, insLdstDecode_transformed, haccess,
    Option.bind_eq_bind, Option.bind_some, finishRvLoad_transformed]
  congr 1
  funext sepc
  exact congrArg (Option.bind · _) (mmioHandleAccess_eq hfind)

/-- **Between the registers and a device** the data move as the architecture says exactly when a
load that extends no sign is answered with no bits but those of the access, and the source of a
store has none. -/
theorem rvMoves_device {mmio' : MMIOAccess} {dev' : σ}
    (hins : m.htinst = i.htinst offset compressed)
    (hfind : findMmioRegion overflowChecks regions (m.request i).addr (m.request i).bytes =
      some (some cfg))
    (hdev : m.serve handlers cfg i = some (.ok (), mmio', dev')) :
    (guestPageFaultHandler overflowChecks (logged handlers) regions
        (m.withDev (m.dev, []))).isSome =
        (wordResult overflowChecks 64 (m.sepc.toNat + RvInstr.length compressed)).isSome ∧
      ∀ m' ∈ guestPageFaultHandler overflowChecks (logged handlers) regions
          (m.withDev (m.dev, [])),
        (RvMoves i compressed m m' mmio'.value.toBitVec ↔ RvClean i m mmio'.value.toBitVec) := by
  have hlogged : (m.withDev (m.dev, ([] : List MMIOAccess))).serve (logged handlers) cfg i = _ :=
    logged_eq_some hdev
  have hrun : guestPageFaultHandler overflowChecks (logged handlers) regions
      (m.withDev (m.dev, [])) = _ := guestPageFaultHandler_eq hins hfind
  rw [hrun, hlogged]
  -- the device answers, so the handler returns when the next address exists
  refine ⟨?_, ?_⟩
  · cases hsepc : wordResult overflowChecks 64 (m.sepc.toNat + RvInstr.length compressed) with
    | none => exact congrArg (fun o : Option Nat => (o.bind _).isSome) hsepc
    | some sepc => exact congrArg (fun o : Option Nat => (o.bind _).isSome) hsepc
  · intro m' hm'
    obtain ⟨sepc, hsepc, hm'⟩ := Option.bind_eq_some_iff.mp hm'
    obtain rfl := Option.some.inj hm'
    have hnext := ofNat_wordResult hsepc
    cases i with
    -- both sides write the same register, so the values decide, or the register is `x0`
    | load op rd =>
      rw [RvClean, ← op.loaded_eq_iff, ← setRvReg_inj m.x]
      constructor
      · intro h
        exact h.load op rd rfl
      · intro h
        refine ⟨hnext, ?_, nofun⟩
        rintro _ _ ⟨rfl, rfl⟩
        exact h
    -- the log holds the one access of the run, with all bits of the source
    | store op rs2 =>
      rw [RvClean, ← eq_lowBytes_iff]
      constructor
      · intro h
        obtain ⟨-, mmio, hlog, hvalue⟩ := h.store op rs2 rfl
        obtain rfl := List.singleton_inj.mp hlog
        exact hvalue
      · intro h
        refine ⟨hnext, nofun, ?_⟩
        rintro _ _ ⟨rfl, rfl⟩
        exact ⟨rfl, _, rfl, h⟩

/-! ## The virtual PLIC as a device -/

variable {maxInterrupts : Nat} {harts : ZoneHarts}

/-- The handler of the virtual PLIC on CPU `cpu`, with what it puts out. -/
def vplicHandler (cpu : Nat) :
    MMIOHandler.Run (VirtualPLIC maxInterrupts harts × List VplicOutput) :=
  fun mmio _ (vplic, out) =>
    (vplic.vplicEmulAccess cpu mmio.addr mmio.bytes mmio.value.toNat mmio.isWrite).map
      fun (value, vplic, out') =>
        (.ok (), if mmio.isWrite then mmio else { mmio with value := .ofNat value },
          vplic, out ++ out')

/-- The same trap, with no bits in the source of a store but those of the access. -/
def RvMachine.lowSource (m : RvMachine σ) (op : StoreOp) (rs2 : BitVec 5) : RvMachine σ :=
  { m with x := setRvReg m.x rs2 (lowBytes (rvReg m.x rs2) op.size) }

/-- A store is not turned away for the other bits of its source, or would do nothing anyway: it has
not the size or the place of a word, the source has no other bits, or the word is there already. -/
def VplicClean (op : StoreOp) (value : BitVec 64) (offset : Nat)
    (s : VirtualPLIC maxInterrupts harts) : Prop :=
  op.size ≠ 4 ∨ offset % 4 ≠ 0 ∨ value.toNat < 2 ^ 32 ∨ s.Idle offset (value.toNat % 2 ^ 32)

theorem rvReg_lowSource (m : RvMachine σ) (op : StoreOp) (rs2 : BitVec 5) :
    rvReg (m.lowSource op rs2).x rs2 = lowBytes (rvReg m.x rs2) op.size := by
  rw [RvMachine.lowSource, setRvReg, rvReg]
  by_cases hr : rs2 = 0
  · rw [if_pos hr, rvReg, if_pos hr]
    exact BitVec.zero_and.symm
  · have hlt := rs2.isLt
    rw [if_neg hr, if_neg hr]
    simp [hlt]

theorem toNat_lowBytes (v : BitVec 64) {size : Nat} (hsize : size ≤ 8) :
    (lowBytes v size).toNat = v.toNat % 2 ^ (8 * size) := by
  rw [← setWidth_eq_lowBytes, BitVec.toNat_setWidth, BitVec.toNat_setWidth]
  have hle : 2 ^ (8 * size) ≤ 2 ^ 64 := Nat.pow_le_pow_right (by omega) (by omega)
  exact Nat.mod_eq_of_lt ((Nat.mod_lt _ (Nat.two_pow_pos _)).trans_le hle)

/-- A store leaves the controller as the store of its low bytes does exactly when it is clean. -/
theorem vplicClean_iff {cpu offset : Nat} {op : StoreOp} {v : BitVec 64}
    {s : VirtualPLIC maxInterrupts harts}
    {left : VirtualPLIC maxInterrupts harts × List VplicOutput}
    (h : (s.vplicEmulAccess cpu offset op.size v.toNat true).map Prod.snd = some left) :
    (s.vplicEmulAccess cpu offset op.size (lowBytes v op.size).toNat true).map Prod.snd =
      some left ↔ VplicClean op v offset s := by
  rw [VplicClean]
  -- only a word at a word's place gets as far as the test of the value
  by_cases hword : op.size = 4 ∧ offset % 4 = 0
  · obtain ⟨hsize, hoff⟩ := hword
    have hlow : (lowBytes v 4).toNat = v.toNat % 2 ^ 32 := toNat_lowBytes v (by decide)
    rw [hsize] at h ⊢
    by_cases hv : v.toNat < 2 ^ 32
    · rw [hlow, Nat.mod_eq_of_lt hv]
      exact iff_of_true h (.inr (.inr (.inl hv)))
    · -- the store is turned away, and nothing is left of it
      rw [VirtualPLIC.vplicEmulAccess, if_neg (by omega), if_pos (by omega)] at h
      obtain rfl : (s, []) = left := Option.some.inj h
      rw [hlow, s.idle_iff cpu hoff (Nat.mod_lt _ (by decide))]
      constructor
      · exact fun hidle => .inr (.inr (.inr hidle))
      · rintro (hne | hne | hlt | hidle)
        · exact absurd rfl hne
        · exact absurd hoff hne
        · exact absurd hlt hv
        · exact hidle
  · have hno : op.size ≠ 4 ∨ offset % 4 ≠ 0 := by omega
    rw [VirtualPLIC.vplicEmulAccess, if_pos hno] at h ⊢
    exact iff_of_true h (hno.imp_right .inl)

/-- What a store does to the virtual PLIC. -/
theorem dev_vplicStore {cpu : Nat} {op : StoreOp} {rs2 : BitVec 5}
    {p : RvMachine (VirtualPLIC maxInterrupts harts × List VplicOutput)}
    {s : VirtualPLIC maxInterrupts harts} (hs : p.dev = (s, []))
    (hins : p.htinst = (RvInstr.store op rs2).htinst offset compressed)
    (hfind : findMmioRegion overflowChecks regions (p.request (.store op rs2)).addr
      (p.request (.store op rs2)).bytes = some (some cfg)) :
    (guestPageFaultHandler overflowChecks (fun _ => vplicHandler cpu) regions p).map (·.dev) =
      (wordResult overflowChecks 64 (p.sepc.toNat + RvInstr.length compressed)).bind fun _ =>
        (s.vplicEmulAccess cpu (p.address.toNat - cfg.start) op.size (rvReg p.x rs2).toNat
          true).map Prod.snd := by
  have haddr : (⟨p.address⟩ - .ofNat cfg.start : UInt64).toNat = p.address.toNat - cfg.start :=
    toNat_sub_start (findMmioRegion_some hfind).2
  have hbytes : (UInt64.ofNat op.size).toNat = op.size := by cases op <;> rfl
  have hserve : p.serve (fun _ => vplicHandler cpu) cfg (.store op rs2) =
      (s.vplicEmulAccess cpu (p.address.toNat - cfg.start) op.size (rvReg p.x rs2).toNat
        true).map fun res => (.ok (), { p.request (.store op rs2) with
          address := ⟨p.address⟩ - .ofNat cfg.start }, res.2) := by
    rw [RvMachine.serve, hs, vplicHandler]
    simp only [MMIOAccess.addr, MMIOAccess.bytes, RvMachine.request, haddr, RvInstr.size, hbytes]
    rfl
  -- a store writes no register, so the device is all that differs
  rw [guestPageFaultHandler_eq hins hfind, hserve, Option.map_bind]
  congr 1
  funext sepc
  cases s.vplicEmulAccess cpu (p.address.toNat - cfg.start) op.size (rvReg p.x rs2).toNat true with
  | none => rfl
  | some res => rfl

/-- **On the virtual PLIC** a store has the effect of its low bytes exactly when it is not turned
away for the others, or they would do nothing. -/
theorem rvMoves_vplic {op : StoreOp} {rs2 : BitVec 5}
    (hins : m.htinst = (RvInstr.store op rs2).htinst offset compressed)
    (hfind : findMmioRegion overflowChecks regions (m.request (.store op rs2)).addr
      (m.request (.store op rs2)).bytes = some (some cfg))
    (cpu : Nat) (s : VirtualPLIC maxInterrupts harts)
    {m' : RvMachine (VirtualPLIC maxInterrupts harts × List VplicOutput)}
    (hm' : m' ∈ guestPageFaultHandler overflowChecks (fun _ => vplicHandler cpu) regions
      (m.withDev (s, []))) :
    (guestPageFaultHandler overflowChecks (fun _ => vplicHandler cpu) regions
        ((m.withDev (s, [])).lowSource op rs2)).map (·.dev) = some m'.dev ↔
      VplicClean op (rvReg m.x rs2) (m.address.toNat - cfg.start) s := by
  have heffect : (guestPageFaultHandler overflowChecks (fun _ => vplicHandler cpu) regions
      (m.withDev (s, []))).map (·.dev) = _ := dev_vplicStore rfl hins hfind
  have hlow : (guestPageFaultHandler overflowChecks (fun _ => vplicHandler cpu) regions
      ((m.withDev (s, [])).lowSource op rs2)).map (·.dev) = _ := dev_vplicStore rfl hins hfind
  rw [rvReg_lowSource] at hlow
  -- the effect that is left, and the address of the next instruction
  rw [hm', Option.map_some] at heffect
  obtain ⟨sepc, hsepc, heffect⟩ := Option.bind_eq_some_iff.mp heffect.symm
  have hsepc' : wordResult overflowChecks 64
      (((m.withDev (s, ([] : List VplicOutput))).lowSource op rs2).sepc.toNat +
        RvInstr.length compressed) = some sepc := hsepc
  rw [hlow, hsepc', Option.bind_some, VplicClean]
  exact vplicClean_iff heffect

/-- **When the data of a guest page fault move as the architecture says**: for every transformed
load and store, all registers and every answer of a device, exactly when a load that extends no sign
is answered with no bits but those of the access, and the source of a store has none; and on the
virtual PLIC, exactly when a store is not turned away for those bits, or would do nothing. The
handler returns when the device does, unless the address of the next instruction overflows. -/
theorem rvMoves_iff (hins : m.htinst = i.htinst offset compressed)
    (hfind : findMmioRegion overflowChecks regions (m.request i).addr (m.request i).bytes =
      some (some cfg)) :
    (∀ mmio' dev', m.serve handlers cfg i = some (.ok (), mmio', dev') →
      (guestPageFaultHandler overflowChecks (logged handlers) regions
          (m.withDev (m.dev, []))).isSome =
        (wordResult overflowChecks 64 (m.sepc.toNat + RvInstr.length compressed)).isSome ∧
      ∀ m' ∈ guestPageFaultHandler overflowChecks (logged handlers) regions
          (m.withDev (m.dev, [])),
        (RvMoves i compressed m m' mmio'.value.toBitVec ↔ RvClean i m mmio'.value.toBitVec)) ∧
    ∀ op rs2, i = .store op rs2 →
      ∀ (maxInterrupts : Nat) (harts : ZoneHarts) (cpu : Nat) (s : VirtualPLIC maxInterrupts harts),
        ∀ m' ∈ guestPageFaultHandler overflowChecks (fun _ => vplicHandler cpu) regions
          (m.withDev (s, [])),
          ((guestPageFaultHandler overflowChecks (fun _ => vplicHandler cpu) regions
              ((m.withDev (s, [])).lowSource op rs2)).map (·.dev) = some m'.dev ↔
            VplicClean op (rvReg m.x rs2) (m.address.toNat - cfg.start) s) := by
  refine ⟨?_, ?_⟩
  · intro mmio' dev' hdev
    exact rvMoves_device hins hfind hdev
  · rintro op rs2 rfl maxInterrupts harts cpu s m' hm'
    exact rvMoves_vplic hins hfind cpu s hm'

/-- A load or a store of a guest at `0xa000004`, with a value in register 8. -/
def rvTrap (i : RvInstr) (compressed : Bool) (x8 : BitVec 64) : RvMachine Unit where
  htval := 0x2800001
  htinst := i.htinst 0 compressed
  stval := 0x3004
  sepc := 0x80200000
  x := (Vector.replicate 32 0).setIfInBounds 8 x8
  dev := ()

/-- The sign of a word is extended, for an instruction of two bytes. -/
theorem rvMoves_iff_lw : ∃ m',
    m' ∈ guestPageFaultHandler true (logged (answering 0x80000000)) [dabtRegion]
      ((rvTrap (.load .LW 8) true 0).withDev ((), [])) ∧
    m'.sepc = 0x80200002 ∧ m'.x[8]? = some 0xffffffff80000000 ∧
    RvMoves (.load .LW 8) true (rvTrap (.load .LW 8) true 0) m' 0x80000000 := by
  have hfind : findMmioRegion true [dabtRegion]
      ((rvTrap (.load .LW 8) true 0).request (.load .LW 8)).addr
      ((rvTrap (.load .LW 8) true 0).request (.load .LW 8)).bytes = some (some dabtRegion) := by
    decide
  have hdev : (rvTrap (.load .LW 8) true 0).serve (answering 0x80000000) dabtRegion
      (.load .LW 8) = some (.ok (), ⟨4, 4, false, ⟨0x80000000⟩⟩, ()) := by decide
  have hins : (rvTrap (.load .LW 8) true 0).htinst = (RvInstr.load .LW 8).htinst 0 true := rfl
  obtain ⟨hsome, hiff⟩ := (rvMoves_iff hins hfind).1 _ _ hdev
  obtain ⟨m', hm'⟩ := Option.isSome_iff_exists.mp (hsome.trans (by decide))
  have hmoves := (hiff m' hm').mpr (.inr (.inl rfl))
  refine ⟨m', hm', ?_, ?_, hmoves⟩
  · rw [hmoves.sepc]
    decide
  · rw [hmoves.load _ _ rfl]
    decide

/-- A new controller of one interrupt and one hart. -/
def newVplic : VirtualPLIC 1 ⟨[0], by decide⟩ := .new 1 _

/-- A load of a byte that extends no sign leaves all bits that the device answers; and the store of
a negative word to the priority of an interrupt is turned away, where its low bytes are written. -/
theorem not_rvMoves :
    (∃ m', m' ∈ guestPageFaultHandler true (logged (answering 0x1ff)) [dabtRegion]
        ((rvTrap (.load .LBU 8) false 0).withDev ((), [])) ∧
      m'.x[8]? = some 0x1ff ∧
      ¬ RvMoves (.load .LBU 8) false (rvTrap (.load .LBU 8) false 0) m' 0x1ff) ∧
    ∃ m', guestPageFaultHandler true (fun _ => vplicHandler 0) [dabtRegion]
        ((rvTrap (.store .SW 8) false 0xffffffff80000000).withDev (newVplic, [])) = some m' ∧
      m'.dev.1.priority[1] = 0 ∧
      (guestPageFaultHandler true (fun _ => vplicHandler 0) [dabtRegion]
        (((rvTrap (.store .SW 8) false 0xffffffff80000000).withDev
          (newVplic, [])).lowSource .SW 8)).map (·.dev.1.priority[1]) = some 0x80000000 ∧
      (guestPageFaultHandler true (fun _ => vplicHandler 0) [dabtRegion]
        (((rvTrap (.store .SW 8) false 0xffffffff80000000).withDev
          (newVplic, [])).lowSource .SW 8)).map (·.dev) ≠ some m'.dev := by
  refine ⟨⟨_, rfl, by decide, fun h => ?_⟩, ⟨_, rfl, by decide, by decide, fun h => ?_⟩⟩
  · have hload := h.load _ _ rfl
    revert hload
    decide
  · have hprio := congrArg (·.map (·.1.priority[1])) h
    revert hprio
    decide

end Hvisor
