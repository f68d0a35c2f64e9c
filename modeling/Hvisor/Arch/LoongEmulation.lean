import Hvisor.Arch.LoongMmio
import Hvisor.Arch.LoongSwitch
import Hvisor.Lib.OpcodeTable

/-!
# Sensitive instructions of a guest on LoongArch

`emulate_instruction`, from `arch/loongarch64/trap.rs`: an instruction of the guest that the CPU
traps as sensitive is told by its leading bits, and a handler for it works on the saved context. The
handlers of `cpucfg` and of the I/O registers run the instruction on the CPU of the hypervisor. A
control register that the guest does not have reads as zero and keeps nothing; the other handlers do
nothing.

## Main definitions

* `Loong.Host`: what the CPU of the hypervisor answers
* `emulateInstruction`: the code
* `Sensitive`, `Sensitive.encode`, `Sensitive.perform`: the instructions, their words, and what they
  do in the guest
* `Sensitive.Computes`: no sum of the emulation overflows
* `gsprSwitch`, `emulates`: the world switch around the emulation

## Main results

* `emulateInstruction_eq_some_iff`: what is emulated, and how
* `emulation_refines`: in every run the guest sees its own instructions
-/

namespace Hvisor

open Function RegisterMachine Instr ByteMemory

variable {ε : Type}

/-! ## The handlers -/

/-- The size of an access of an I/O register. -/
inductive IocsrSize where
  | b
  | h
  | w
  | d
  deriving DecidableEq

/-- The instructions that are run on the CPU of the hypervisor: its configuration words, and loads
and stores of its I/O registers. -/
structure Loong.Host (ε : Type) where
  cpucfg : BitVec 64 → BitVec 64
  iocsrrd : IocsrSize → BitVec 64 → ε → BitVec 64 × ε
  iocsrwr : IocsrSize → BitVec 64 → BitVec 64 → ε → ε

/-- A handler takes the word of the instruction. -/
abbrev OpcodeHandler (ε : Type) := Nat → ZoneContext × ε → Option (ZoneContext × ε)

/-- The number of a register. -/
def gprField (ins offset : Nat) : Fin 32 :=
  ⟨Loong.extractField ins offset 5, by
    rw [Loong.extractField_eq]
    exact Nat.mod_lt _ (by decide)⟩

/-- The context with a general register set. -/
def ZoneContext.setX (c : ZoneContext) (r : Fin 32) (value : BitVec 64) : ZoneContext :=
  { c with x := update c.x r value }

/-- The number of configuration words that `cpucfg` reads. -/
def MAX_CPUCFG_REGS : Nat := 21

/-- `cpucfg`: the guest gets the word of the host, or zero behind the last one. -/
def emulateCpucfg (host : Loong.Host ε) : OpcodeHandler ε := fun ins (ctx, e) =>
  let rd := gprField ins 0
  let rj := gprField ins 5
  let cpucfgTargetIdx := ctx.x rj
  if MAX_CPUCFG_REGS ≤ cpucfgTargetIdx.toNat then some (ctx.setX rd 0, e)
  else some (ctx.setX rd (host.cpucfg cpucfgTargetIdx), e)

/-- The instructions on control and status registers, which are passed over with a result of zero.
-/
def emulateCsrx : OpcodeHandler ε := fun ins (ctx, e) =>
  let ty := Loong.extractField ins 5 5
  let rd := gprField ins 0
  match ty with
  -- csrrd
  | 0 => some (ctx.setX rd 0, e)
  -- csrwr
  | 1 => some (ctx.setX rd 0, e)
  -- csrxchg
  | _ => some (ctx.setX rd 0, e)

/-- `cacop` is passed over. -/
def emulateCacop : OpcodeHandler ε := fun _ s => some s

/-- `idle` is passed over. -/
def emulateIdle : OpcodeHandler ε := fun _ s => some s

/-- A load of an I/O register into a register. -/
def iocsrrd (host : Loong.Host ε) (size : IocsrSize) (rd rj : Fin 32) (s : ZoneContext × ε) :
    ZoneContext × ε :=
  let (val, e) := host.iocsrrd size (s.1.x rj) s.2
  (s.1.setX rd val, e)

/-- A store of a register into an I/O register. -/
def iocsrwr (host : Loong.Host ε) (size : IocsrSize) (rd rj : Fin 32) (s : ZoneContext × ε) :
    ZoneContext × ε :=
  (s.1, host.iocsrwr size (s.1.x rd) (s.1.x rj) s.2)

/-- `iocsrrd` and `iocsrwr` of all sizes, on the registers of the host. -/
def emulateIocsr (host : Loong.Host ε) : OpcodeHandler ε := fun ins s =>
  let ty := Loong.extractField ins 10 3
  let rd := gprField ins 0
  let rj := gprField ins 5
  match ty with
  | 0 => some (iocsrrd host .b rd rj s)
  | 1 => some (iocsrrd host .h rd rj s)
  | 2 => some (iocsrrd host .w rd rj s)
  | 3 => some (iocsrrd host .d rd rj s)
  | 4 => some (iocsrwr host .b rd rj s)
  | 5 => some (iocsrwr host .h rd rj s)
  | 6 => some (iocsrwr host .w rd rj s)
  | 7 => some (iocsrwr host .d rd rj s)
  | _ => none

/-- Where the serial port is. -/
def UART0_BASE : Int := 0x1fe001e0

/-- The sign extension of an immediate of 12 bits. -/
def imm12toi64 (imm12 : Nat) : Int := ((BitVec.ofNat 64 imm12 <<< 52).sshiftRight 52).toInt

/-- The result of an operation on words with a sign. -/
def isizeResult (overflowChecks : Bool) (n : Int) : Option Int :=
  if -2 ^ 63 ≤ n ∧ n < 2 ^ 63 then some n
  else if overflowChecks then none else some (n.bmod (2 ^ 64))

/-- The offset of an access from the start of the UART. The handlers compute it, and do nothing with
it. -/
def uartOffset (overflowChecks : Bool) (ins : Nat) (ctx : ZoneContext) : Option Int := do
  let rj := gprField ins 5
  let si12 := Loong.extractField ins 10 12
  let vaddr ← isizeResult overflowChecks ((ctx.x rj).toInt + imm12toi64 si12)
  isizeResult overflowChecks (vaddr - UART0_BASE)

/-- `ld.b` of the serial port. -/
def emulateLdB (overflowChecks : Bool) : OpcodeHandler ε := fun ins s =>
  (uartOffset overflowChecks ins s.1).map fun _ => s

/-- `st.b` of the serial port. -/
def emulateStB (overflowChecks : Bool) : OpcodeHandler ε := fun ins s =>
  (uartOffset overflowChecks ins s.1).map fun _ => s

/-- `ld.bu` of the serial port. -/
def emulateLdBu (overflowChecks : Bool) : OpcodeHandler ε := fun ins s =>
  (uartOffset overflowChecks ins s.1).map fun _ => s

/-! ## The table -/

/-- The high bits of an instruction are the opcode. -/
def checkOpType (inst opcode opcodeLength : Nat) : Bool :=
  let mask := (1 <<< opcodeLength) - 1
  let shifted := inst >>> (32 - opcodeLength)
  shifted &&& mask == opcode

/-- The opcode of `cpucfg`. -/
def OPCODE_CPUCFG : Nat := 0b0000000000000000011011
/-- Its bits. -/
def OPCODE_CPUCFG_LENGTH : Nat := 22
/-- The opcode of `cacop`. -/
def OPCODE_CACOP : Nat := 0b0000011000
/-- Its bits. -/
def OPCODE_CACOP_LENGTH : Nat := 10
/-- The opcode of `idle`. -/
def OPCODE_IDLE : Nat := 0b00000110010010001
/-- Its bits. -/
def OPCODE_IDLE_LENGTH : Nat := 17
/-- The opcode of the instructions on control and status registers. -/
def OPCODE_CSRX : Nat := 0b00000100
/-- Its bits. -/
def OPCODE_CSRX_LENGTH : Nat := 8
/-- The opcode of the instructions on IO registers. -/
def OPCODE_IOCSR : Nat := 0b0000011001001000000
/-- Its bits. -/
def OPCODE_IOCSR_LENGTH : Nat := 19
/-- The opcode of `ld.b`. -/
def OPCODE_LD_B : Nat := 0b0010100000
/-- Its bits. -/
def OPCODE_LD_B_LENGTH : Nat := 10
/-- The opcode of `st.b`. -/
def OPCODE_ST_B : Nat := 0b0010100100
/-- Its bits. -/
def OPCODE_ST_B_LENGTH : Nat := 10
/-- The opcode of `ld.bu`. -/
def OPCODE_LD_BU : Nat := 0b0010101000
/-- Its bits. -/
def OPCODE_LD_BU_LENGTH : Nat := 10

/-- The opcodes in the order of the comparisons, with their handlers. -/
def opcodes (overflowChecks : Bool) (host : Loong.Host ε) : OpcodeTable 32 (OpcodeHandler ε) := [
  (⟨OPCODE_CPUCFG, OPCODE_CPUCFG_LENGTH, by decide⟩, emulateCpucfg host),
  (⟨OPCODE_CACOP, OPCODE_CACOP_LENGTH, by decide⟩, emulateCacop),
  (⟨OPCODE_IDLE, OPCODE_IDLE_LENGTH, by decide⟩, emulateIdle),
  (⟨OPCODE_CSRX, OPCODE_CSRX_LENGTH, by decide⟩, emulateCsrx),
  (⟨OPCODE_IOCSR, OPCODE_IOCSR_LENGTH, by decide⟩, emulateIocsr host),
  (⟨OPCODE_LD_B, OPCODE_LD_B_LENGTH, by decide⟩, emulateLdB overflowChecks),
  (⟨OPCODE_ST_B, OPCODE_ST_B_LENGTH, by decide⟩, emulateStB overflowChecks),
  (⟨OPCODE_LD_BU, OPCODE_LD_BU_LENGTH, by decide⟩, emulateLdBu overflowChecks)]

/-- The loop takes the first opcode that the word has; a word without one is a panic. -/
def emulateInstruction (overflowChecks : Bool) (host : Loong.Host ε) (era : BitVec 64) (ins : Nat)
    (s : ZoneContext × ε) : Option (ZoneContext × ε) := do
  -- the context goes on behind the instruction
  let sepc ← wordResult overflowChecks 64 (era.toNat + 4)
  let (_, handler) ←
    (opcodes overflowChecks host).find? fun o => checkOpType ins o.1.code o.1.length
  handler ins ({ s.1 with sepc := .ofNat 64 sepc }, s.2)

/-! ## The instructions -/

/-- The sensitive instructions, with their fields. The accesses of control registers are one, since
none of them has an effect but on `rd`. -/
inductive Sensitive where
  | cpucfg (rd rj : Fin 32)
  | cacop (code : BitVec 5) (rj : Fin 32) (si12 : BitVec 12)
  | idle (level : BitVec 15)
  | csrx (rd rj : Fin 32) (csr : BitVec 14)
  | iocsrrd (size : IocsrSize) (rd rj : Fin 32)
  | iocsrwr (size : IocsrSize) (rd rj : Fin 32)
  | ldB (rd rj : Fin 32) (si12 : BitVec 12)
  | stB (rd rj : Fin 32) (si12 : BitVec 12)
  | ldBu (rd rj : Fin 32) (si12 : BitVec 12)

/-- The two bits that encode a size. -/
def IocsrSize.bits : IocsrSize → BitVec 2
  | b => 0b00
  | h => 0b01
  | w => 0b10
  | d => 0b11

/-- The size that two bits encode. -/
def IocsrSize.ofBits : BitVec 2 → IocsrSize
  | 0b00 => b
  | 0b01 => h
  | 0b10 => w
  | 0b11 => d

theorem IocsrSize.ofBits_bits (size : IocsrSize) : ofBits size.bits = size := by cases size <;> rfl

theorem IocsrSize.bits_ofBits : ∀ x : BitVec 2, (ofBits x).bits = x := by decide

/-- The field of a register. -/
def gprBits (r : Fin 32) : BitVec 5 := .ofFin r

namespace Sensitive

/-- The word of an instruction: the opcode, and the fields below. -/
def encode : Sensitive → BitVec 32
  | cpucfg rd rj => BitVec.ofNat 22 OPCODE_CPUCFG ++ gprBits rj ++ gprBits rd
  | cacop code rj si12 => BitVec.ofNat 10 OPCODE_CACOP ++ si12 ++ gprBits rj ++ code
  | idle level => BitVec.ofNat 17 OPCODE_IDLE ++ level
  | csrx rd rj csr => BitVec.ofNat 8 OPCODE_CSRX ++ csr ++ gprBits rj ++ gprBits rd
  | iocsrrd size rd rj =>
    BitVec.ofNat 19 OPCODE_IOCSR ++ 0#1 ++ size.bits ++ gprBits rj ++ gprBits rd
  | iocsrwr size rd rj =>
    BitVec.ofNat 19 OPCODE_IOCSR ++ 1#1 ++ size.bits ++ gprBits rj ++ gprBits rd
  | ldB rd rj si12 => BitVec.ofNat 10 OPCODE_LD_B ++ si12 ++ gprBits rj ++ gprBits rd
  | stB rd rj si12 => BitVec.ofNat 10 OPCODE_ST_B ++ si12 ++ gprBits rj ++ gprBits rd
  | ldBu rd rj si12 => BitVec.ofNat 10 OPCODE_LD_BU ++ si12 ++ gprBits rj ++ gprBits rd

end Sensitive

/-- Write a register of the guest; register 0 stays zero. -/
def ZoneContext.write (c : ZoneContext) (r : Fin 32) (value : BitVec 64) : ZoneContext :=
  if r = 0 then c else c.setX r value

/-- A configuration word of the CPU. What is beyond the last one is zero. -/
def Loong.Host.cpucfgWord (host : Loong.Host ε) (idx : BitVec 64) : BitVec 64 :=
  if 21 ≤ idx.toNat then 0 else host.cpucfg idx

namespace Sensitive

/-- What an instruction does in the guest. -/
def perform (host : Loong.Host ε) : Sensitive → ZoneContext × ε → ZoneContext × ε
  | cpucfg rd rj, (c, e) => ((c.write rd (host.cpucfgWord (c.x rj))).skip, e)
  | csrx rd _ _, (c, e) => ((c.write rd 0).skip, e)
  | iocsrrd size rd rj, (c, e) =>
    ((c.write rd (host.iocsrrd size (c.x rj) e).1).skip, (host.iocsrrd size (c.x rj) e).2)
  | iocsrwr size rd rj, (c, e) => (c.skip, host.iocsrwr size (c.x rd) (c.x rj) e)
  | cacop .., (c, e) | idle .., (c, e) | ldB .., (c, e) | stB .., (c, e) | ldBu .., (c, e) =>
    (c.skip, e)

/-- The address of an access of a byte. -/
def address? : Sensitive → ZoneContext → Option Int
  | ldB _ rj si12, c | stB _ rj si12, c | ldBu _ rj si12, c => some ((c.x rj).toInt + si12.toInt)
  | _, _ => none

/-- No sum of the emulation overflows in a build that checks for it: neither the address of the next
instruction, nor that of an access, nor its offset. -/
def Computes (overflowChecks : Bool) (i : Sensitive) (c : ZoneContext) : Prop :=
  overflowChecks = true → c.sepc.toNat + 4 < 2 ^ 64 ∧
    ∀ a, i.address? c = some a → UART0_BASE - 2 ^ 63 ≤ a ∧ a < 2 ^ 63

end Sensitive

/-! ## Fields of words -/

theorem toNat_append_eq {m n : Nat} (x : BitVec m) (y : BitVec n) :
    (x ++ y).toNat = x.toNat * 2 ^ n + y.toNat := by
  rw [BitVec.toNat_append, ← Nat.shiftLeft_add_eq_or_of_lt y.isLt, Nat.shiftLeft_eq]

theorem extractField_append_low {m n : Nat} (x : BitVec m) (y : BitVec n) :
    Loong.extractField (x ++ y).toNat 0 n = y.toNat := by
  rw [Loong.extractField_eq, toNat_append_eq, pow_zero, Nat.div_one, Nat.mul_add_mod_self_right,
    Nat.mod_eq_of_lt y.isLt]

theorem extractField_append_high {m n : Nat} (x : BitVec m) (y : BitVec n) (k length : Nat) :
    Loong.extractField (x ++ y).toNat (n + k) length = Loong.extractField x.toNat k length := by
  rw [Loong.extractField_eq, Loong.extractField_eq, toNat_append_eq, Nat.pow_add,
    ← Nat.div_div_eq_div_mul, Nat.mul_comm, Nat.mul_add_div (Nat.two_pow_pos n),
    Nat.div_eq_of_lt y.isLt, Nat.add_zero]

theorem gprField_append_low {m : Nat} (x : BitVec m) (r : Fin 32) :
    gprField (x ++ gprBits r).toNat 0 = r := Fin.ext (extractField_append_low x (gprBits r))

theorem gprField_append_high {m n : Nat} (x : BitVec m) (y : BitVec n) (k : Nat) :
    gprField (x ++ y).toNat (n + k) = gprField x.toNat k :=
  Fin.ext (extractField_append_high x y k 5)

theorem ofNat_append_low {m n : Nat} (x : BitVec m) (y : BitVec n) :
    BitVec.ofNat n (x ++ y).toNat = y := by
  apply BitVec.eq_of_toNat_eq
  rw [BitVec.toNat_ofNat, toNat_append_eq, Nat.mul_add_mod_self_right, Nat.mod_eq_of_lt y.isLt]

section Operands

variable {m n : Nat} (x : BitVec m) (y : BitVec n) (rj : Fin 32) (z : BitVec 5)

/-- The register above the lowest five bits. -/
theorem gprField_rj : gprField (x ++ gprBits rj ++ z).toNat 5 = rj :=
  (gprField_append_high _ z 0).trans (gprField_append_low x rj)

/-- The field above. -/
theorem extractField_operand :
    Loong.extractField (x ++ y ++ gprBits rj ++ z).toNat 10 n = y.toNat := by
  rw [extractField_append_high _ z 5, extractField_append_high _ (gprBits rj) 0,
    extractField_append_low]

theorem ofNat_operand : BitVec.ofNat n ((x ++ y ++ gprBits rj ++ z).toNat / 2 ^ 10) = y := by
  have h := extractField_operand x y rj z
  rw [Loong.extractField_eq] at h
  exact BitVec.eq_of_toNat_eq ((BitVec.toNat_ofNat ..).trans h)

end Operands

/-- The offset of an access is extended with its sign. -/
theorem imm12toi64_toNat (imm12 : BitVec 12) : imm12toi64 imm12.toNat = imm12.toInt := by
  have hlt := imm12.isLt
  rw [imm12toi64, BitVec.toInt_sshiftRight, Int.shiftRight_eq_div_pow,
    BitVec.toInt_eq_toNat_cond, BitVec.toInt_eq_toNat_cond, BitVec.toNat_shiftLeft,
    BitVec.toNat_ofNat, Nat.shiftLeft_eq]
  -- the sign bit of the field is the one of the word
  split_ifs <;> omega

/-! ## The table is prefix-free -/

theorem checkOpType_iff {o : Opcode 32} {word : BitVec 32} :
    checkOpType word.toNat o.code o.length = true ↔ o.Matches word := by
  have hle := o.length_le
  have hlt : word.toNat / 2 ^ (32 - o.length) < 2 ^ o.length := by
    apply Nat.div_lt_of_lt_mul
    rw [← Nat.pow_add, Nat.sub_add_cancel hle]
    exact word.isLt
  -- the word has no bits above the opcode
  rw [checkOpType, beq_iff_eq, Nat.shiftRight_eq_div_pow, Nat.one_shiftLeft,
    Nat.and_two_pow_sub_one_eq_mod, Nat.mod_eq_of_lt hlt, Opcode.Matches]

section Table

variable {overflowChecks : Bool} {host : Loong.Host ε}

theorem prefixFree_opcodes : (opcodes overflowChecks host).PrefixFree := by
  rw [OpcodeTable.PrefixFree]
  simp only [opcodes, List.map_cons, List.map_nil]
  decide

namespace Sensitive

/-- The opcode of an instruction. -/
def opcode : Sensitive → Opcode 32
  | cpucfg .. => ⟨OPCODE_CPUCFG, OPCODE_CPUCFG_LENGTH, by decide⟩
  | cacop .. => ⟨OPCODE_CACOP, OPCODE_CACOP_LENGTH, by decide⟩
  | idle .. => ⟨OPCODE_IDLE, OPCODE_IDLE_LENGTH, by decide⟩
  | csrx .. => ⟨OPCODE_CSRX, OPCODE_CSRX_LENGTH, by decide⟩
  | iocsrrd .. | iocsrwr .. => ⟨OPCODE_IOCSR, OPCODE_IOCSR_LENGTH, by decide⟩
  | ldB .. => ⟨OPCODE_LD_B, OPCODE_LD_B_LENGTH, by decide⟩
  | stB .. => ⟨OPCODE_ST_B, OPCODE_ST_B_LENGTH, by decide⟩
  | ldBu .. => ⟨OPCODE_LD_BU, OPCODE_LD_BU_LENGTH, by decide⟩

/-- The handler that is meant for an instruction. -/
def handler (overflowChecks : Bool) (host : Loong.Host ε) : Sensitive → OpcodeHandler ε
  | cpucfg .. => emulateCpucfg host
  | cacop .. => emulateCacop
  | idle .. => emulateIdle
  | csrx .. => emulateCsrx
  | iocsrrd .. | iocsrwr .. => emulateIocsr host
  | ldB .. => emulateLdB overflowChecks
  | stB .. => emulateStB overflowChecks
  | ldBu .. => emulateLdBu overflowChecks

theorem mem_opcodes (i : Sensitive) :
    (i.opcode, i.handler overflowChecks host) ∈ opcodes overflowChecks host := by
  cases i <;> simp [opcodes, opcode, handler]

theorem matches_encode (i : Sensitive) : i.opcode.Matches i.encode := by
  rw [Opcode.Matches]
  cases i <;> simp only [encode, opcode, toNat_append_eq, BitVec.toNat_ofNat, OPCODE_CPUCFG,
    OPCODE_CPUCFG_LENGTH, OPCODE_CACOP, OPCODE_CACOP_LENGTH, OPCODE_IDLE, OPCODE_IDLE_LENGTH,
    OPCODE_CSRX, OPCODE_CSRX_LENGTH, OPCODE_IOCSR, OPCODE_IOCSR_LENGTH, OPCODE_LD_B,
    OPCODE_LD_B_LENGTH, OPCODE_ST_B, OPCODE_ST_B_LENGTH, OPCODE_LD_BU, OPCODE_LD_BU_LENGTH] <;>
    omega

theorem toNat_gprBits_gprField (ins offset : Nat) :
    (gprBits (gprField ins offset)).toNat = ins / 2 ^ offset % 2 ^ 5 :=
  Loong.extractField_eq ins offset 5

/-- The instructions by their opcodes. -/
def decoders : OpcodeTable 32 (Nat → Sensitive) := [
  (⟨OPCODE_CPUCFG, OPCODE_CPUCFG_LENGTH, by decide⟩, fun ins =>
    .cpucfg (gprField ins 0) (gprField ins 5)),
  (⟨OPCODE_CACOP, OPCODE_CACOP_LENGTH, by decide⟩, fun ins =>
    .cacop (.ofNat 5 ins) (gprField ins 5) (.ofNat 12 (ins / 2 ^ 10))),
  (⟨OPCODE_IDLE, OPCODE_IDLE_LENGTH, by decide⟩, fun ins => .idle (.ofNat 15 ins)),
  (⟨OPCODE_CSRX, OPCODE_CSRX_LENGTH, by decide⟩, fun ins =>
    .csrx (gprField ins 0) (gprField ins 5) (.ofNat 14 (ins / 2 ^ 10))),
  -- the bit above the size tells loads from stores
  (⟨OPCODE_IOCSR, OPCODE_IOCSR_LENGTH, by decide⟩, fun ins =>
    if ins / 2 ^ 12 % 2 = 0 then
      .iocsrrd (.ofBits (.ofNat 2 (ins / 2 ^ 10))) (gprField ins 0) (gprField ins 5)
    else .iocsrwr (.ofBits (.ofNat 2 (ins / 2 ^ 10))) (gprField ins 0) (gprField ins 5)),
  (⟨OPCODE_LD_B, OPCODE_LD_B_LENGTH, by decide⟩, fun ins =>
    .ldB (gprField ins 0) (gprField ins 5) (.ofNat 12 (ins / 2 ^ 10))),
  (⟨OPCODE_ST_B, OPCODE_ST_B_LENGTH, by decide⟩, fun ins =>
    .stB (gprField ins 0) (gprField ins 5) (.ofNat 12 (ins / 2 ^ 10))),
  (⟨OPCODE_LD_BU, OPCODE_LD_BU_LENGTH, by decide⟩, fun ins =>
    .ldBu (gprField ins 0) (gprField ins 5) (.ofNat 12 (ins / 2 ^ 10)))]

/-- The instruction that a word encodes. -/
def decode (word : BitVec 32) : Option Sensitive :=
  (decoders.lookup word).map fun decoder => decoder word.toNat

/-- The two tables have the same opcodes. -/
theorem map_fst_decoders : decoders.map Prod.fst = (opcodes overflowChecks host).map Prod.fst := rfl

theorem encode_decoder {o : Opcode 32 × (Nat → Sensitive)} {word : BitVec 32} (ho : o ∈ decoders)
    (h : o.1.Matches word) : (o.2 word.toNat).encode = word := by
  have hlt := word.isLt
  simp only [decoders, List.mem_cons, List.not_mem_nil, or_false] at ho
  apply BitVec.eq_of_toNat_eq
  -- the word is its opcode and its fields
  rcases ho with rfl | rfl | rfl | rfl | rfl | rfl | rfl | rfl <;>
    simp only [Opcode.Matches, OPCODE_CPUCFG, OPCODE_CPUCFG_LENGTH, OPCODE_CACOP,
      OPCODE_CACOP_LENGTH, OPCODE_IDLE, OPCODE_IDLE_LENGTH, OPCODE_CSRX, OPCODE_CSRX_LENGTH,
      OPCODE_IOCSR, OPCODE_IOCSR_LENGTH, OPCODE_LD_B, OPCODE_LD_B_LENGTH, OPCODE_ST_B,
      OPCODE_ST_B_LENGTH, OPCODE_LD_BU, OPCODE_LD_BU_LENGTH] at h
  case inr.inr.inr.inr.inl =>
    dsimp only
    split_ifs with hload <;>
      simp only [encode, toNat_append_eq, toNat_gprBits_gprField, BitVec.toNat_ofNat,
        IocsrSize.bits_ofBits, OPCODE_IOCSR] <;> omega
  all_goals
    simp only [encode, toNat_append_eq, toNat_gprBits_gprField, BitVec.toNat_ofNat, OPCODE_CPUCFG,
      OPCODE_CACOP, OPCODE_IDLE, OPCODE_CSRX, OPCODE_LD_B, OPCODE_ST_B, OPCODE_LD_BU]
    omega

theorem prefixFree_decoders : decoders.PrefixFree := by
  rw [OpcodeTable.PrefixFree]
  simp only [decoders, List.map_cons, List.map_nil]
  decide

theorem decode_of_mem {o : Opcode 32 × (Nat → Sensitive)} {word : BitVec 32} (ho : o ∈ decoders)
    (h : o.1.Matches word) : decode word = some (o.2 word.toNat) := by
  have hlookup := (OpcodeTable.lookup_eq_some_iff prefixFree_decoders).mpr ⟨o.1, ho, h⟩
  rw [decode, hlookup, Option.map_some]

/-- **The word of an instruction is decoded to it.** -/
theorem decode_encode (i : Sensitive) : decode i.encode = some i := by
  have hmem : ∀ k (hk : k < decoders.length), (decoders[k]).1.Matches i.encode →
      (decoders[k]).2 i.encode.toNat = i → decode i.encode = some i := fun k hk h hi =>
    (decode_of_mem (List.getElem_mem hk) h).trans (congrArg some hi)
  have hmatches := i.matches_encode
  cases i with
  | cpucfg rd rj =>
    apply hmem 0 (by decide) hmatches
    exact congrArg₂ cpucfg (gprField_append_low _ rd) (gprField_rj _ rj (gprBits rd))
  | cacop code rj si12 =>
    apply hmem 1 (by decide) hmatches
    exact (cacop.injEq ..).mpr
      ⟨ofNat_append_low _ code, gprField_rj _ rj code, ofNat_operand _ si12 rj code⟩
  | idle level =>
    apply hmem 2 (by decide) hmatches
    exact congrArg idle (ofNat_append_low _ level)
  | csrx rd rj csr =>
    apply hmem 3 (by decide) hmatches
    exact (csrx.injEq ..).mpr
      ⟨gprField_append_low _ rd, gprField_rj _ rj (gprBits rd), ofNat_operand _ csr rj (gprBits rd)⟩
  | iocsrrd size rd rj =>
    apply hmem 4 (by decide) hmatches
    have hload : (iocsrrd size rd rj).encode.toNat / 2 ^ 12 % 2 = 0 := by
      simp only [encode, toNat_append_eq, BitVec.toNat_ofNat]
      omega
    refine (if_pos hload).trans ((iocsrrd.injEq ..).mpr ⟨?_, ?_, ?_⟩)
    · exact (congrArg IocsrSize.ofBits (ofNat_operand _ size.bits rj (gprBits rd))).trans
        size.ofBits_bits
    · exact gprField_append_low _ rd
    · exact gprField_rj _ rj (gprBits rd)
  | iocsrwr size rd rj =>
    apply hmem 4 (by decide) hmatches
    have hstore : ¬ (iocsrwr size rd rj).encode.toNat / 2 ^ 12 % 2 = 0 := by
      simp only [encode, toNat_append_eq, BitVec.toNat_ofNat]
      omega
    refine (if_neg hstore).trans ((iocsrwr.injEq ..).mpr ⟨?_, ?_, ?_⟩)
    · exact (congrArg IocsrSize.ofBits (ofNat_operand _ size.bits rj (gprBits rd))).trans
        size.ofBits_bits
    · exact gprField_append_low _ rd
    · exact gprField_rj _ rj (gprBits rd)
  | ldB rd rj si12 =>
    apply hmem 5 (by decide) hmatches
    exact (ldB.injEq ..).mpr
      ⟨gprField_append_low _ rd, gprField_rj _ rj _, ofNat_operand _ si12 rj (gprBits rd)⟩
  | stB rd rj si12 =>
    apply hmem 6 (by decide) hmatches
    exact (stB.injEq ..).mpr
      ⟨gprField_append_low _ rd, gprField_rj _ rj _, ofNat_operand _ si12 rj (gprBits rd)⟩
  | ldBu rd rj si12 =>
    apply hmem 7 (by decide) hmatches
    exact (ldBu.injEq ..).mpr
      ⟨gprField_append_low _ rd, gprField_rj _ rj _, ofNat_operand _ si12 rj (gprBits rd)⟩

/-- **A word that is decoded** is the word of that instruction, and of no other. -/
theorem decode_eq_some_iff {word : BitVec 32} {i : Sensitive} :
    decode word = some i ↔ i.encode = word := by
  constructor
  · intro h
    obtain ⟨decoder, hlookup, rfl⟩ := Option.map_eq_some_iff.mp h
    obtain ⟨p, hmem, hp⟩ := (OpcodeTable.lookup_eq_some_iff prefixFree_decoders).mp hlookup
    exact encode_decoder hmem hp
  · rintro rfl
    exact decode_encode i

end Sensitive

/-! ## What is emulated -/

/-- What the guest finds in its registers: register 0 is zero. -/
def ZoneContext.restored (c : ZoneContext) : ZoneContext := c.setX 0 0

theorem ZoneContext.restored_of_zero {c : ZoneContext} (hx : c.x 0 = 0) : c.restored = c := by
  rw [restored, setX, ← hx, update_eq_self]

theorem ZoneContext.restored_setX {c : ZoneContext} (hx : c.x 0 = 0) (r : Fin 32)
    (value : BitVec 64) : (c.setX r value).restored = c.write r value := by
  rw [write]
  split_ifs with hr
  · rw [hr, restored, setX, setX, update_idem, ← hx, update_eq_self]
  · rw [restored, setX, setX, ← hx, ← update_of_ne (Ne.symm hr) value c.x, update_eq_self]

theorem isSome_isizeResult_iff {n : Int} :
    (isizeResult overflowChecks n).isSome ↔ (overflowChecks = true → -2 ^ 63 ≤ n ∧ n < 2 ^ 63) := by
  rw [isizeResult]
  split_ifs with h hchecks
  · exact iff_of_true rfl fun _ => h
  · exact iff_of_false Bool.false_ne_true fun h' => h (h' hchecks)
  · exact iff_of_true rfl fun h' => absurd h' hchecks

/-- When the offset of an access can be computed. -/
theorem isSome_uartOffset_iff {ins : Nat} {c : ZoneContext} {a : Int}
    (ha : (c.x (gprField ins 5)).toInt + imm12toi64 (Loong.extractField ins 10 12) = a) :
    (uartOffset overflowChecks ins c).isSome ↔
      (overflowChecks = true → UART0_BASE - 2 ^ 63 ≤ a ∧ a < 2 ^ 63) := by
  have hbase : UART0_BASE = 0x1fe001e0 := rfl
  rw [uartOffset, ha]
  by_cases hrange : -2 ^ 63 ≤ a ∧ a < 2 ^ 63
  · have hvaddr : isizeResult overflowChecks a = some a := if_pos hrange
    rw [hvaddr, Option.bind_eq_bind, Option.bind_some, isSome_isizeResult_iff]
    apply forall_congr'
    intro
    omega
  -- the address itself is out of range: without checks it wraps around
  · have hiff : (isizeResult overflowChecks a).isSome ↔
        (overflowChecks = true → -2 ^ 63 ≤ a ∧ a < 2 ^ 63) := isSome_isizeResult_iff
    cases hvaddr : isizeResult overflowChecks a with
    | none =>
      rw [hvaddr] at hiff
      refine iff_of_false Bool.false_ne_true fun h => ?_
      have hchecks : overflowChecks = true := by
        by_contra hchecks
        exact Bool.false_ne_true (hiff.mpr fun h' => absurd h' hchecks)
      have := h hchecks
      omega
    | some vaddr =>
      have hchecks : ¬ overflowChecks = true := fun h => hrange (hiff.mp (by rw [hvaddr]; rfl) h)
      rw [Option.bind_eq_bind, Option.bind_some, isSome_isizeResult_iff]
      exact iff_of_true (fun h => absurd h hchecks) fun h => absurd h hchecks

theorem emulateCpucfg_eq (ins : Nat) (c : ZoneContext) (e : ε) :
    emulateCpucfg host ins (c, e) =
      some (c.setX (gprField ins 0) (host.cpucfgWord (c.x (gprField ins 5))), e) := by
  rw [Loong.Host.cpucfgWord]
  by_cases h : 21 ≤ (c.x (gprField ins 5)).toNat
  · rw [if_pos h]
    exact if_pos h
  · rw [if_neg h]
    exact if_neg h

theorem emulateCsrx_eq (ins : Nat) (c : ZoneContext) (e : ε) :
    emulateCsrx ins (c, e) = some (c.setX (gprField ins 0) 0, e) := by
  simp only [emulateCsrx]
  split <;> rfl

namespace Sensitive

/-- The type of an access of an I/O register. -/
theorem iocsr_type (size : IocsrSize) (rd rj : Fin 32) :
    Loong.extractField (iocsrrd size rd rj).encode.toNat 10 3 = size.bits.toNat ∧
      Loong.extractField (iocsrwr size rd rj).encode.toNat 10 3 = 4 + size.bits.toNat := by
  have hfields : ∀ (store : BitVec 1),
      Loong.extractField (BitVec.ofNat 19 OPCODE_IOCSR ++ store ++ size.bits ++ gprBits rj ++
        gprBits rd).toNat 10 3 =
      Loong.extractField (BitVec.ofNat 19 OPCODE_IOCSR ++ store ++ size.bits).toNat 0 3 := by
    intro store
    rw [extractField_append_high _ (gprBits rd) 5, extractField_append_high _ (gprBits rj) 0]
  constructor
  · refine (hfields 0#1).trans ?_
    cases size <;> rfl
  · refine (hfields 1#1).trans ?_
    cases size <;> rfl

/-- What the handler of an instruction leaves of a context that goes on behind it. -/
theorem handler_encode (i : Sensitive) {c : ZoneContext} {e : ε} (hx : c.x 0 = 0)
    (t : ZoneContext × ε) :
    (i.handler overflowChecks host i.encode.toNat (c.skip, e)).map
        (Prod.map ZoneContext.restored id) = some t ↔
      (overflowChecks = true → ∀ a, i.address? c = some a →
        UART0_BASE - 2 ^ 63 ≤ a ∧ a < 2 ^ 63) ∧ i.perform host (c, e) = t := by
  have hskip : c.skip.x 0 = 0 := hx
  have hwrite : ∀ r v, (c.skip.setX r v).restored = (c.write r v).skip := fun r v => by
    rw [ZoneContext.restored_setX hskip, ZoneContext.write, ZoneContext.write]
    split_ifs <;> rfl
  -- an instruction that accesses no byte is always emulated
  have htotal : ∀ {r : Option (ZoneContext × ε)}, i.address? c = none →
      r.map (Prod.map ZoneContext.restored id) = some (i.perform host (c, e)) →
      (r.map (Prod.map ZoneContext.restored id) = some t ↔
        (overflowChecks = true → ∀ a, i.address? c = some a →
          UART0_BASE - 2 ^ 63 ≤ a ∧ a < 2 ^ 63) ∧ i.perform host (c, e) = t) := by
    intro r hnone hr
    rw [hr, Option.some.injEq]
    refine ⟨fun h => ⟨fun _ a ha => ?_, h⟩, And.right⟩
    rw [hnone] at ha
    cases ha
  -- the others are, when the offset can be computed
  have hbyte : ∀ {rj : Fin 32} {si12 : BitVec 12}, gprField i.encode.toNat 5 = rj →
      Loong.extractField i.encode.toNat 10 12 = si12.toNat →
      i.address? c = some ((c.x rj).toInt + si12.toInt) → i.perform host (c, e) = (c.skip, e) →
      (((uartOffset overflowChecks i.encode.toNat c.skip).map fun _ => (c.skip, e)).map
          (Prod.map ZoneContext.restored id) = some t ↔
        (overflowChecks = true → ∀ a, i.address? c = some a →
          UART0_BASE - 2 ^ 63 ≤ a ∧ a < 2 ^ 63) ∧ i.perform host (c, e) = t) := by
    intro rj si12 hrj hsi12 ha hperform
    have hoffset : (uartOffset overflowChecks i.encode.toNat c.skip).isSome ↔
        (overflowChecks = true → UART0_BASE - 2 ^ 63 ≤ (c.x rj).toInt + si12.toInt ∧
          (c.x rj).toInt + si12.toInt < 2 ^ 63) :=
      isSome_uartOffset_iff (by rw [hrj, hsi12, imm12toi64_toNat]; rfl)
    rw [ha, hperform]
    simp only [Option.some.injEq, forall_eq']
    rw [← hoffset]
    cases uartOffset overflowChecks i.encode.toNat c.skip with
    | none => exact iff_of_false (by simp) fun h => Bool.false_ne_true h.1
    | some offset =>
      have hres : Prod.map ZoneContext.restored id (c.skip, e) = (c.skip, e) := by
        rw [Prod.map_apply, ZoneContext.restored_of_zero hskip, id]
      rw [Option.map_some, Option.map_some, hres, Option.some.injEq]
      exact (and_iff_right rfl).symm
  cases i with
  | cpucfg rd rj =>
    apply htotal rfl
    have hrd : gprField (cpucfg rd rj).encode.toNat 0 = rd := gprField_append_low _ rd
    have hrj : gprField (cpucfg rd rj).encode.toNat 5 = rj := gprField_rj _ rj (gprBits rd)
    rw [handler, emulateCpucfg_eq, hrd, hrj, Option.map_some, Prod.map_apply, hwrite]
    rfl
  | cacop code rj si12 =>
    apply htotal rfl
    rw [handler, emulateCacop, Option.map_some, Prod.map_apply, ZoneContext.restored_of_zero hskip]
    rfl
  | idle level =>
    apply htotal rfl
    rw [handler, emulateIdle, Option.map_some, Prod.map_apply, ZoneContext.restored_of_zero hskip]
    rfl
  | csrx rd rj csr =>
    apply htotal rfl
    have hrd : gprField (csrx rd rj csr).encode.toNat 0 = rd := gprField_append_low _ rd
    rw [handler, emulateCsrx_eq, hrd, Option.map_some, Prod.map_apply, hwrite]
    rfl
  | iocsrrd size rd rj =>
    apply htotal rfl
    have hrd : gprField (iocsrrd size rd rj).encode.toNat 0 = rd := gprField_append_low _ rd
    have hrj : gprField (iocsrrd size rd rj).encode.toNat 5 = rj := gprField_rj _ rj (gprBits rd)
    have hload : emulateIocsr host (iocsrrd size rd rj).encode.toNat (c.skip, e) =
        some (Hvisor.iocsrrd host size rd rj (c.skip, e)) := by
      simp only [emulateIocsr, (iocsr_type size rd rj).1, hrd, hrj]
      cases size <;> rfl
    rw [handler, hload, Option.map_some, Hvisor.iocsrrd, Prod.map_apply, hwrite]
    rfl
  | iocsrwr size rd rj =>
    apply htotal rfl
    have hrd : gprField (iocsrwr size rd rj).encode.toNat 0 = rd := gprField_append_low _ rd
    have hrj : gprField (iocsrwr size rd rj).encode.toNat 5 = rj := gprField_rj _ rj (gprBits rd)
    have hstore : emulateIocsr host (iocsrwr size rd rj).encode.toNat (c.skip, e) =
        some (Hvisor.iocsrwr host size rd rj (c.skip, e)) := by
      simp only [emulateIocsr, (iocsr_type size rd rj).2, hrd, hrj]
      cases size <;> rfl
    rw [handler, hstore, Option.map_some, Hvisor.iocsrwr, Prod.map_apply,
      ZoneContext.restored_of_zero hskip]
    rfl
  | ldB rd rj si12 =>
    apply hbyte (gprField_rj _ rj (gprBits rd)) ?_ rfl rfl
    exact extractField_operand _ si12 rj (gprBits rd)
  | stB rd rj si12 =>
    apply hbyte (gprField_rj _ rj (gprBits rd)) ?_ rfl rfl
    exact extractField_operand _ si12 rj (gprBits rd)
  | ldBu rd rj si12 =>
    apply hbyte (gprField_rj _ rj (gprBits rd)) ?_ rfl rfl
    exact extractField_operand _ si12 rj (gprBits rd)

end Sensitive

/-- The loop takes the handler that the table has for the word. -/
theorem emulateInstruction_eq (era : BitVec 64) (word : BitVec 32) (s : ZoneContext × ε) :
    emulateInstruction overflowChecks host era word.toNat s =
      (wordResult overflowChecks 64 (era.toNat + 4)).bind fun sepc =>
        ((opcodes overflowChecks host).lookup word).bind fun handler =>
          handler word.toNat ({ s.1 with sepc := .ofNat 64 sepc }, s.2) := by
  have hfind : ((opcodes overflowChecks host).find? fun o =>
      checkOpType word.toNat o.1.code o.1.length) =
        (opcodes overflowChecks host).find? fun o => o.1.Matches word := by
    congr 1
    funext o
    rw [Bool.eq_iff_iff, checkOpType_iff, decide_eq_true_iff]
  rw [emulateInstruction, hfind, OpcodeTable.lookup]
  cases (opcodes overflowChecks host).find? fun o => o.1.Matches word <;> rfl

open Sensitive in
/-- **What is emulated, and how**: the words of the sensitive instructions, and no others. -/
theorem emulateInstruction_eq_some_iff {word : BitVec 32} {s t : ZoneContext × ε}
    (hx : s.1.x 0 = 0) :
    (emulateInstruction overflowChecks host s.1.sepc word.toNat s).map
        (Prod.map ZoneContext.restored id) = some t ↔
      ∃ i : Sensitive, i.encode = word ∧ i.Computes overflowChecks s.1 ∧ i.perform host s = t := by
  obtain ⟨c, e⟩ := s
  have hcode : ∀ i : Sensitive, i.encode = word →
      ((emulateInstruction overflowChecks host c.sepc word.toNat (c, e)).map
          (Prod.map ZoneContext.restored id) = some t ↔
        i.Computes overflowChecks c ∧ i.perform host (c, e) = t) := by
    rintro i rfl
    have hlookup : (opcodes overflowChecks host).lookup i.encode =
        some (i.handler overflowChecks host) :=
      (OpcodeTable.lookup_eq_some_iff prefixFree_opcodes).mpr ⟨_, i.mem_opcodes, i.matches_encode⟩
    have hsepc : (wordResult overflowChecks 64 (c.sepc.toNat + 4)).isSome ↔
        (overflowChecks = true → c.sepc.toNat + 4 < 2 ^ 64) := isSome_wordResult_iff
    rw [emulateInstruction_eq, hlookup, Computes]
    cases hnext : wordResult overflowChecks 64 (c.sepc.toNat + 4) with
    -- the address of the next instruction overflows
    | none =>
      rw [hnext] at hsepc
      refine iff_of_false (by simp) fun h => Bool.false_ne_true (hsepc.mpr fun hchecks => ?_)
      exact (h.1 hchecks).1
    | some sepc =>
      rw [hnext] at hsepc
      have hword : BitVec.ofNat 64 sepc = c.sepc + 4 := by
        apply BitVec.eq_of_toNat_eq
        rw [wordResult_mod hnext, BitVec.toNat_ofNat, Nat.mod_mod, BitVec.toNat_add]
        rfl
      have hskip : ({ c with sepc := .ofNat 64 sepc } : ZoneContext) = c.skip := by
        rw [hword, ZoneContext.skip]
      rw [Option.bind_some, Option.bind_some, hskip, i.handler_encode hx]
      apply and_congr_left'
      exact ⟨fun h hchecks => ⟨hsepc.mp rfl hchecks, h hchecks⟩, fun h hchecks => (h hchecks).2⟩
  constructor
  · intro h
    cases hlookup : (opcodes overflowChecks host).lookup word with
    | none =>
      rw [emulateInstruction_eq, hlookup] at h
      simp at h
    | some handler =>
      obtain ⟨p, hmem, hp⟩ := (OpcodeTable.lookup_eq_some_iff prefixFree_opcodes).mp hlookup
      have hfst : p ∈ (opcodes overflowChecks host).map Prod.fst :=
        List.mem_map_of_mem (f := Prod.fst) hmem
      rw [← map_fst_decoders] at hfst
      obtain ⟨o, hmem', rfl⟩ := List.mem_map.mp hfst
      have hi := encode_decoder hmem' hp
      exact ⟨_, hi, (hcode _ hi).mp h⟩
  · rintro ⟨i, hi, h⟩
    exact (hcode i hi).mpr h

end Table

/-! ## In the guest -/

/-- The context in memory. What is live in the CPU is not a part of it. -/
structure LoongCore.Holds (ctx : BitVec 64) (s : LoongCore) (c : ZoneContext) : Prop where
  x (r : Fin 32) : s.mem.load (slot ctx r) = c.x r
  sepc : s.mem.load (slot ctx 32) = c.sepc
  gcsr {g : Gcsr} (hg : g.isLive = false) : s.mem.load (slot ctx g.slot) = c.gcsr g

/-- The same but for what is live in the CPU. -/
def ZoneContext.SameButLive (c c' : ZoneContext) : Prop :=
  c'.x = c.x ∧ c'.sepc = c.sepc ∧ ∀ g : Gcsr, g.isLive = false → c'.gcsr g = c.gcsr g

/-- `trap_handler` at a sensitive instruction leaves the context as the emulation does, and returns
to where the context is. -/
def emulates (overflowChecks : Bool) (host : Loong.Host ε) (ctx top : BitVec 64) (badi : BitVec 32)
    (s t : LoongCore × ε × BitVec 32) : Prop :=
  ∃ c, emulateInstruction overflowChecks host (s.1.csr .era) badi.toNat (s.1.saved ctx, s.2.1) =
      some (c, t.2.1) ∧
    t.1.Holds ctx c ∧ t.1.Ready ctx top ∧ t.1.get 4 = ctx

/-- The guest runs the instruction of its word. -/
def performs (overflowChecks : Bool) (host : Loong.Host ε) (word : BitVec 32)
    (s t : ZoneContext × ε) : Prop :=
  ∃ i : Sensitive, i.encode = word ∧ i.Computes overflowChecks s.1 ∧
    (i.perform host s).1.SameButLive t.1 ∧ t.2 = (i.perform host s).2

section Switch

variable {overflowChecks : Bool} {host : Loong.Host ε} {ctx top : BitVec 64} {s : LoongCore}

/-- The handler finds in `ERA` what is saved of it. -/
theorem csr_era_hypTrapEntry (h : s.Ready ctx top) :
    (run s hypTrapEntry).csr .era = (run s hypTrapEntry).mem.load (slot ctx 32) := by
  obtain ⟨-, -, -, hcsr⟩ := run_hypTrapEntry h.1
  rw [hcsr .era (by decide)]
  exact (congrArg ZoneContext.sepc (saved_hypTrapEntry h)).symm

/-- The world switch next to the I/O registers of the CPU. `BADI` has the instruction that traps. -/
def gsprSwitch (ctx top : BitVec 64) (ε : Type) :
    WorldSwitch (LoongCore × ε × BitVec 32) (ZoneContext × ε) (BitVec 32) :=
  ((loongSwitch ctx top).calledWith (fun s => s.csr .era = s.mem.load (slot ctx 32))
    fun _ => csr_era_hypTrapEntry).beside ε (BitVec 32)

theorem LoongCore.Holds.saved {c : ZoneContext} (h : s.Holds ctx c) :
    c.restored.SameButLive (s.saved ctx) := by
  refine ⟨funext fun r => ?_, h.sepc, fun g hg => ?_⟩
  · simp only [ZoneContext.restored, ZoneContext.setX, update_apply, LoongCore.saved, h.x]
  · simp only [LoongCore.saved, hg, Bool.false_eq_true, if_false]
    exact h.gcsr hg

theorem emulates_handles :
    (gsprSwitch ctx top ε).Handles (emulates overflowChecks host ctx top)
      (performs overflowChecks host) := by
  rintro badi s t ⟨c, hem, hholds, hready, h4⟩ ⟨-, hera⟩
  refine ⟨⟨hready, h4⟩, ?_⟩
  have hsepc : s.1.csr .era = (s.1.saved ctx).sepc := hera
  have hx : (s.1.saved ctx).x 0 = 0 := by simp only [LoongCore.saved, if_true]
  rw [hsepc] at hem
  obtain ⟨i, hi, hcomp, hperform⟩ := (emulateInstruction_eq_some_iff
    (s := (s.1.saved ctx, s.2.1)) (t := (c.restored, t.2.1)) hx).mp (by rw [hem]; rfl)
  have hctx := congrArg Prod.fst hperform
  have hio := congrArg Prod.snd hperform
  refine ⟨i, hi, hcomp, ?_, hio.symm⟩
  change (i.perform host (s.1.saved ctx, s.2.1)).1.SameButLive (t.1.saved ctx)
  rw [hctx]
  exact hholds.saved

/-- Any context can be left in memory. -/
theorem exists_holds (h : s.Ready ctx top) (c : ZoneContext) :
    ∃ t : LoongCore, t.Holds ctx c ∧ t.Ready ctx top ∧ t.get 4 = ctx := by
  -- what a CPU with these registers stores, and register 0
  let u : LoongCore := {
    x := c.x
    csr
      | .era => c.sepc
      | .gcsr g => c.gcsr g
      | _ => 0
    mem := s.mem }
  have hother : ∀ {i : Nat} {v : BitVec 64}, (i, v) ∈ u.frame → i ≠ 0 →
      ((s.mem.spill ctx u.frame).store (slot ctx 0) (c.x 0)).load (slot ctx i) = v := by
    intro i v hmem hne
    have hlt := loongFrame_lt hmem
    rw [load_store_slot_of_ne (by decide) (hlt.trans (by decide)) (Ne.symm hne)]
    exact load_loongFrame hmem ..
  refine ⟨(s.setMem ((s.mem.spill ctx u.frame).store (slot ctx 0) (c.x 0))).set 4 ctx,
    ⟨fun r => ?_, ?_, fun {g} _ => ?_⟩, ⟨?_, ?_⟩, get_set_self _ (by decide) _⟩
  · rw [mem_set, mem_setMem]
    by_cases hr : r = 0
    · rw [hr]
      exact load_store_self ..
    · have hget : u.get r = c.x r := if_neg hr
      rw [← hget]
      exact hother (get_mem_loongFrame u r) fun h0 => hr (Fin.ext h0)
  · rw [mem_set, mem_setMem]
    exact hother (csr_mem_loongFrame List.mem_cons_self) (by decide)
  · rw [mem_set, mem_setMem]
    exact hother (csr_mem_loongFrame (gcsr_mem_savedCsrs g)) (by rw [Gcsr.slot]; omega)
  · rw [csr_set, csr_setMem, h.1]
  · rw [csr_set, csr_setMem, h.2]

/-- **Sensitive instructions of a guest are those that it sees**: in every run of the CPU with the
emulation, whatever the guest runs in between, each instruction that traps does in the guest what it
does, and the guest goes on behind it. The hypervisor stops exactly at the other words, and where a
sum overflows in a build that checks for it. -/
theorem emulation_refines {reset : ZoneContext × ε}
    {h : List (SwitchEvent (ZoneContext × ε) (BitVec 32))} {s : LoongCore × ε × BitVec 32}
    (r : ((gsprSwitch ctx top ε).system (emulates overflowChecks host ctx top) reset).Run h s) :
    (vcpuSystem (performs overflowChecks host) reset).Run h (s.1.guest, s.2.1) ∧
      ((∃ t, ((gsprSwitch ctx top ε).system (emulates overflowChecks host ctx top) reset).step s
          (.trap s.2.2) t) ↔
        ∃ i : Sensitive, i.encode = s.2.2 ∧ i.Computes overflowChecks s.1.guest) := by
  obtain ⟨hrun, hready⟩ := WorldSwitch.run_refines emulates_handles r
  have hguest : LoongCore.saved ctx (run s.1 hypTrapEntry) = s.1.guest := saved_hypTrapEntry hready
  refine ⟨hrun, ?_, ?_⟩
  · rintro ⟨-, -, t, hem, -⟩
    obtain ⟨-, i, hi, hcomp, -⟩ := emulates_handles _ _ t hem (WorldSwitch.called_exit _ hready)
    refine ⟨i, hi, ?_⟩
    rw [← hguest]
    exact hcomp
  · rintro ⟨i, hi, hcomp⟩
    have hx : s.1.guest.x 0 = 0 := get_zero s.1
    have hres : (emulateInstruction overflowChecks host s.1.guest.sepc s.2.2.toNat
        (s.1.guest, s.2.1)).map (Prod.map ZoneContext.restored id) =
          some (i.perform host (s.1.guest, s.2.1)) :=
      (emulateInstruction_eq_some_iff (s := (s.1.guest, s.2.1)) hx).mpr ⟨i, hi, hcomp, rfl⟩
    obtain ⟨⟨c, e⟩, hem, -⟩ := Option.map_eq_some_iff.mp hres
    obtain ⟨hcalled, -⟩ := called_hypTrapEntry hready
    obtain ⟨t, hholds, hdone⟩ := exists_holds hcalled c
    refine ⟨_, rfl, (t, e, s.2.2), ⟨c, ?_, hholds, hdone⟩, rfl⟩
    -- the handler finds in `ERA` what the guest has
    have hera : (run s.1 hypTrapEntry).csr .era = s.1.guest.sepc :=
      (csr_era_hypTrapEntry hready).trans (congrArg ZoneContext.sepc hguest)
    change emulateInstruction overflowChecks host ((run s.1 hypTrapEntry).csr .era) s.2.2.toNat
      (LoongCore.saved ctx (run s.1 hypTrapEntry), s.2.1) = some (c, e)
    rw [hera, hguest]
    exact hem

end Switch

/-- A CPU with one configuration word, and without I/O registers. -/
def oneWordHost : Loong.Host Unit where
  cpucfg idx := if idx = 0 then 0x14c010 else 0
  iocsrrd _ _ e := (0, e)
  iocsrwr _ _ _ e := e

theorem emulation_refines_cpucfg :
    ∃ s, ((gsprSwitch 0x9000_1000 0x9008_0000 Unit).system
        (emulates true oneWordHost 0x9000_1000 0x9008_0000)
        (bootLoong.saved 0x9000_1000, ())).Run [.trap (Sensitive.cpucfg 4 5).encode] s ∧
      s.1.guest.x 4 = 0x14c010 ∧ s.1.guest.sepc = 4 := by
  have r := TransitionSystem.Run.start
    (S := (gsprSwitch 0x9000_1000 0x9008_0000 Unit).system
      (emulates true oneWordHost 0x9000_1000 0x9008_0000) (bootLoong.saved 0x9000_1000, ()))
    ⟨(bootLoong, (), (Sensitive.cpucfg 4 5).encode), bootLoong_done, rfl, rfl⟩
  obtain ⟨hstart, hstep⟩ := emulation_refines r
  have hguest : (LoongCore.guest (run bootLoong hypTrapReturn), ()) =
      (bootLoong.saved 0x9000_1000, ()) := by
    cases hstart with
    | start hi => exact hi
  have hboot : LoongCore.guest (run bootLoong hypTrapReturn) = bootLoong.saved 0x9000_1000 :=
    congrArg Prod.fst hguest
  obtain ⟨t, ht⟩ := hstep.mpr ⟨.cpucfg 4 5, rfl, fun _ => ⟨by
    change (LoongCore.guest (run bootLoong hypTrapReturn)).sepc.toNat + 4 < 2 ^ 64
    rw [hboot]
    decide, fun a ha => by cases ha⟩⟩
  refine ⟨t, r.next ht, ?_⟩
  obtain ⟨hrun, -⟩ := emulation_refines (r.next ht)
  cases hrun with
  | next r' hs =>
    cases r' with
    | start hi =>
      obtain ⟨i, hi', -, ⟨hx, hsepc, -⟩, -⟩ := hs
      have heq : Sensitive.cpucfg 4 5 = i := by
        have hdec := Sensitive.decode_eq_some_iff.mpr hi'
        exact Option.some.inj ((Sensitive.decode_encode _).symm.trans hdec)
      rw [← heq, hi] at hx hsepc
      rw [hx, hsepc]
      constructor
      · decide
      · decide

end Hvisor
