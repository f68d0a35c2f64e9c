import Hvisor.Lib.TransitionSystem
import Hvisor.Memory.Region
import Mathlib.Data.List.FinRange
import Mathlib.Tactic.IntervalCases
import Mathlib.Logic.Function.Basic

/-!
# Commands of the interrupt translation service

The queue of commands that the hypervisor fills for all zones, from `device/irqchip/gicv3/gits.rs`
and the table of LPIs in `gicr.rs`. A zone has a queue of its own and writes `GITS_CWRITER`; the
commands that it has placed there are copied to the queue of the hardware, which consumes them
before the call returns. That a write of `GITS_CBASER` by zone 0 goes to the hardware as well, which
then reads another queue, is left out: the hardware is taken to read the queue of the hypervisor.
Memory is the words of 64 bits by their number; `none` is a panic, or a wait that does not end.

## Main definitions

* `Cmdq`, `Cmdq.insertCmd`, `Cmdq.setCwriter`: the queue, and a write of `GITS_CWRITER`
* `Its`, `Its.consume`: the hardware
* `GitsState`, `gitsSystem`: the writes of all zones, and what they have placed in their queues
* `GitsState.Forwardable`: the writes that are forwarded

## Main results

* `copyCmds_spec`: the commands that the loop copies
* `GitsState.forwards_step`: a write of `GITS_CWRITER` that can be forwarded is
* `its_forwarding`: in a run of such writes each command is forwarded once and in order
-/

namespace Hvisor

/-- The bytes of a command. -/
def PER_CMD_BYTES : Nat := 0x20
/-- The words of a command. -/
def PER_CMD_QWORD : Nat := 4

/-- The bytes of a queue. -/
def CMDQ_BYTES : Nat := 0x10000

/-- An offset in the queue, which starts again past the end. -/
def ringPtrUpdate (val : Nat) : Nat := if val ≥ 0x10000 then val - 0x10000 else val

/-- A difference of words, in a build with checks of overflows or without. -/
def wordSub (overflowChecks : Bool) (a b : Nat) : Option Nat :=
  if b ≤ a then some (a - b) else if overflowChecks then none else some (wrappingSub a b)

/-! ## Memory -/

/-- The words of the memory. -/
abbrev PhysMem := Nat → BitVec 64

/-- A command. -/
abbrev ItsCmd := Vector (BitVec 64) PER_CMD_QWORD

namespace PhysMem

/-- The command at an address. -/
def readCmd (mem : PhysMem) (addr : Nat) : ItsCmd := .ofFn fun i => mem (addr / 8 + i)

/-- The words of a command one after the other. -/
def writeCmd (mem : PhysMem) (addr : Nat) (v : ItsCmd) : PhysMem :=
  (List.finRange PER_CMD_QWORD).foldl
    (fun mem (i : Fin PER_CMD_QWORD) => Function.update mem (addr / 8 + i) v[i]) mem

/-- A byte is written, and the other bytes stay. -/
def writeByte (mem : PhysMem) (addr : Nat) (val : BitVec 8) : PhysMem :=
  let shift := 8 * (addr % 8)
  Function.update mem (addr / 8)
    ((mem (addr / 8) &&& ~~~(0xff#64 <<< shift)) ||| (val.setWidth 64 <<< shift))

end PhysMem

/-! ## The hypervisor -/

/-- The frames of the table of LPIs and of the queue of commands, which the allocator keeps
apart. -/
structure ItsFrames where
  table : Nat
  tableSize : Nat
  queue : Nat
  table_aligned : table % pageSize = 0
  tableSize_aligned : tableSize % pageSize = 0
  queue_aligned : queue % pageSize = 0
  table_le : table + tableSize ≤ 2 ^ 64
  disjoint : table + tableSize ≤ queue ∨ queue + CMDQ_BYTES ≤ table

section Hypervisor

variable (overflowChecks : Bool) (frames : ItsFrames)

/-- `enable_one_lpi`: set the byte of an LPI. -/
def enableOneLpi (lpi : Nat) (mem : PhysMem) : Option PhysMem :=
  (wordResult overflowChecks 64 (frames.table + lpi)).map fun addr => mem.writeByte addr 1

/-- `analyze_cmd`: the commands that map an LPI enable it. -/
def analyzeCmd (value : ItsCmd) (mem : PhysMem) : Option PhysMem :=
  let code := (value[0] &&& 0xff).toNat
  if code = 0x0b then
    -- MAPI
    let event := (value[1] &&& 0xffffffff).toNat
    (wordSub overflowChecks event 8192).bind fun lpi => enableOneLpi overflowChecks frames lpi mem
  else if code = 0x0a then
    -- MAPTI
    let intid := (value[1] >>> 32).toNat
    (wordSub overflowChecks intid 8192).bind fun lpi => enableOneLpi overflowChecks frames lpi mem
  else some mem

/-- The loop of `insert_cmd`: the memory afterwards, and the addresses that commands were read
from. -/
def copyCmds (zoneAddr : Nat) : Nat → Nat → Nat → PhysMem → Option (PhysMem × List Nat)
  | 0, _, _, mem => some (mem, [])
  | cmdNum + 1, vmCmdqAddr, realCmdqAddr, mem =>
    let v := mem.readCmd vmCmdqAddr
    (analyzeCmd overflowChecks frames v mem).bind fun mem =>
      (copyCmds zoneAddr cmdNum
        (ringPtrUpdate (vmCmdqAddr + PER_CMD_BYTES - zoneAddr) + zoneAddr)
        (ringPtrUpdate (realCmdqAddr + PER_CMD_BYTES - frames.queue) + frames.queue)
        (mem.writeCmd realCmdqAddr v)).map fun (mem, reads) => (mem, vmCmdqAddr :: reads)

end Hypervisor

/-- The hardware: where it reads its queue, and the commands that it has read. -/
structure Its where
  creadr : Nat
  consumed : List ItsCmd

/-- The positions of a queue from one up to another, around its end. -/
def queueSlots (readr writer : Nat) : List Nat :=
  (List.range ((writer + CMDQ_BYTES - readr) % CMDQ_BYTES / PER_CMD_BYTES)).map fun k =>
    (readr + PER_CMD_BYTES * k) % CMDQ_BYTES

/-- The hardware reads its queue up to `GITS_CWRITER`, and comes to no position behind its end. -/
def Its.consume (its : Its) (queue : Nat) (mem : PhysMem) (cwriter : Nat) : Option Its :=
  if cwriter < CMDQ_BYTES then
    some ⟨cwriter, its.consumed ++
      (queueSlots its.creadr cwriter).map fun off => mem.readCmd (queue + off)⟩
  else none

/-- What the hypervisor keeps of the queues of the zones and of its own. -/
structure Cmdq where
  readr : Nat
  writer : Nat
  phyBaseList : Vector Nat MAX_ZONE_NUM
  cbaserList : Vector Nat MAX_ZONE_NUM
  creadrList : Vector Nat MAX_ZONE_NUM
  cwriterList : Vector Nat MAX_ZONE_NUM

namespace Cmdq

/-- Nothing was written yet. -/
def new : Cmdq := ⟨0, 0, .replicate _ 0, .replicate _ 0, .replicate _ 0, .replicate _ 0⟩

/-- A zone says where its queue is. -/
def setCbaser (self : Cmdq) (zoneId value : Nat) : Option Cmdq :=
  if h : zoneId < MAX_ZONE_NUM then
    some { self with
      cbaserList := self.cbaserList.set zoneId value
      phyBaseList := self.phyBaseList.set zoneId (value &&& 0xffffffffff000) }
  else none

variable (overflowChecks : Bool) (frames : ItsFrames)

/-- What the calls work on, with the addresses that commands were read from. -/
structure Run where
  cmdq : Cmdq
  mem : PhysMem
  its : Its
  reads : List Nat

/-- Copy the commands of a zone, and wait until the hardware has read them. -/
def insertCmd (s : Run) (zoneId writer : Nat) : Option Run :=
  if h : zoneId < MAX_ZONE_NUM then
    let zoneAddr := s.cmdq.phyBaseList[zoneId]
    let originReadr := s.cmdq.creadrList[zoneId]
    (wordSub overflowChecks writer originReadr).bind fun cmdSize =>
      let cmdNum := cmdSize / PER_CMD_BYTES
      (copyCmds overflowChecks frames zoneAddr cmdNum (zoneAddr + originReadr)
          (frames.queue + s.cmdq.readr) s.mem).bind fun (mem, reads) =>
        (wordResult overflowChecks 64 (s.cmdq.writer + cmdSize)).bind fun selfWriter =>
          let selfWriter := ringPtrUpdate selfWriter
          (s.its.consume frames.queue mem selfWriter).map fun its =>
            { cmdq := { s.cmdq with
                writer := selfWriter
                readr := its.creadr
                creadrList := s.cmdq.creadrList.set zoneId writer }
              mem := mem
              its := its
              reads := s.reads ++ reads }
  else none

/-- A zone says up to where it has written commands. -/
def setCwriter (s : Run) (zoneId value : Nat) : Option Run :=
  if h : zoneId < MAX_ZONE_NUM then
    -- the first write is ignored
    (if value = 0 then some s else insertCmd overflowChecks frames s zoneId value).map fun s =>
      { s with cmdq := { s.cmdq with cwriterList := s.cmdq.cwriterList.set zoneId value } }
  else none

end Cmdq

/-! ## Zones and their queues -/

/-- A command that a zone has placed: where it is in the physical memory, and what it is, when the
address is mapped. -/
structure PlacedCmd where
  zoneId : Nat
  addr : Option Nat
  cmd : Option ItsCmd
  deriving DecidableEq

/-- The hypervisor and the hardware, with the address spaces of the zones and what the zones have
placed so far. -/
structure GitsState extends Cmdq.Run where
  stage2 : Nat → Nat → Option Nat
  placed : List PlacedCmd

/-- The steps: accesses of the zones, and what others do. -/
inductive GitsEvent where
  /-- The memory and the address spaces change. -/
  | outside (mem : PhysMem) (stage2 : Nat → Nat → Option Nat)
  | setCbaser (zoneId value : Nat)
  | setCwriter (zoneId value : Nat)

/-- The values that are written to `GITS_CWRITER`: positions of the queue. -/
def GitsEvent.InQueue : GitsEvent → Prop
  | .setCwriter _ value => value % PER_CMD_BYTES = 0 ∧ value < CMDQ_BYTES
  | _ => True

instance : DecidablePred GitsEvent.InQueue
  | .outside .. | .setCbaser .. => inferInstanceAs (Decidable True)
  | .setCwriter .. => inferInstanceAs (Decidable (_ ∧ _))

namespace GitsState

/-- The address of a position in the queue of a zone, as the zone sees it. -/
def queueIpa (s : GitsState) (zoneId off : Nat) : Nat :=
  (s.cmdq.phyBaseList[zoneId]?.getD 0) + off

/-- The commands between the `creadr` of a zone and a position, in the memory of the zone. -/
def placedTo (s : GitsState) (zoneId value : Nat) : List PlacedCmd :=
  (queueSlots (s.cmdq.creadrList[zoneId]?.getD 0) value).map fun off =>
    let addr := s.stage2 zoneId (s.queueIpa zoneId off)
    ⟨zoneId, addr, addr.map s.mem.readCmd⟩

variable (overflowChecks : Bool) (frames : ItsFrames)

/-- A step, `none` where the hypervisor panics. -/
def step (s : GitsState) : GitsEvent → Option GitsState
  | .outside mem stage2 => some { s with mem, stage2 }
  | .setCbaser zoneId value =>
    (s.cmdq.setCbaser zoneId value).map fun cmdq => { s with cmdq }
  | .setCwriter zoneId value =>
    (Cmdq.setCwriter overflowChecks frames s.toRun zoneId value).map fun run =>
      { run with stage2 := s.stage2, placed := s.placed ++ s.placedTo zoneId value }

/-- Nothing is placed, and the hardware is at the start of its queue. -/
def Init (s : GitsState) : Prop :=
  s.cmdq = .new ∧ s.its = ⟨0, []⟩ ∧ s.reads = [] ∧ s.placed = []

end GitsState

/-- The runs, for zones that keep within their queues. -/
def gitsSystem (overflowChecks : Bool) (frames : ItsFrames) :
    TransitionSystem GitsState GitsEvent where
  init := GitsState.Init
  step s e s' := e.InQueue ∧ s.step overflowChecks frames e = some s'

/-- **What was forwarded**: the commands that the hardware has read are those that the zones have
placed, each once and in order; nothing else was read as a command; and no zone has commands
left. -/
structure GitsState.Forwards (s : GitsState) : Prop where
  consumed : s.its.consumed.map some = s.placed.map PlacedCmd.cmd
  reads : s.reads.map some = s.placed.map PlacedCmd.addr
  creadr : s.cmdq.creadrList = s.cmdq.cwriterList

/-! ## Writes that are forwarded -/

/-- The LPI that a command maps. -/
def ItsCmd.lpi? (value : ItsCmd) : Option Nat :=
  if (value[0] &&& 0xff).toNat = 0x0b then some (value[1] &&& 0xffffffff).toNat
  else if (value[0] &&& 0xff).toNat = 0x0a then some (value[1] >>> 32).toNat
  else none

/-- The command is not in the frames of the hypervisor, and if it maps an LPI then one of the
table. -/
structure ItsFrames.Takes (frames : ItsFrames) (mem : PhysMem) (addr : Nat) : Prop where
  queue : addr + PER_CMD_BYTES ≤ frames.queue ∨ frames.queue + CMDQ_BYTES ≤ addr
  table : addr + PER_CMD_BYTES ≤ frames.table ∨ frames.table + frames.tableSize ≤ addr
  lpi : ∀ id, (mem.readCmd addr).lpi? = some id → 8192 ≤ id ∧ id - 8192 < frames.tableSize

namespace GitsState

variable (frames : ItsFrames) (s : GitsState)

/-- **The writes that are forwarded**: the zone is one of the first three, its queue has not wrapped
since its `creadr`, and each command that it has placed is at the same address in its memory and in
the physical memory. -/
structure CwriterOk (zoneId value : Nat) : Prop where
  zoneId_lt : zoneId < MAX_ZONE_NUM
  creadr_le : s.cmdq.creadrList[zoneId] ≤ value
  slots : ∀ off ∈ queueSlots s.cmdq.creadrList[zoneId] value,
    s.stage2 zoneId (s.queueIpa zoneId off) = some (s.queueIpa zoneId off) ∧
      frames.Takes s.mem (s.queueIpa zoneId off)

/-- The access returns. -/
def Forwardable : GitsEvent → Prop
  | .outside .. => True
  | .setCbaser zoneId _ => zoneId < MAX_ZONE_NUM
  | .setCwriter zoneId value => s.CwriterOk frames zoneId value

end GitsState

/-! ## Commands in memory -/

namespace PhysMem

variable (mem : PhysMem) {addr addr' : Nat} (v : ItsCmd)

theorem writeCmd_apply (addr w : Nat) :
    mem.writeCmd addr v w =
      if h : addr / 8 ≤ w ∧ w < addr / 8 + PER_CMD_QWORD then v[w - addr / 8] else mem w := by
  have hwords : mem.writeCmd addr v =
      Function.update (Function.update (Function.update (Function.update mem (addr / 8 + 0) v[0])
        (addr / 8 + 1) v[1]) (addr / 8 + 2) v[2]) (addr / 8 + 3) v[3] := rfl
  rw [hwords]
  simp only [Function.update_apply]
  by_cases h : addr / 8 ≤ w ∧ w < addr / 8 + PER_CMD_QWORD
  · rw [dif_pos h]
    obtain ⟨i, hi⟩ : ∃ i, w = addr / 8 + i := ⟨w - addr / 8, by omega⟩
    subst hi
    have hi : i < 4 := Nat.add_lt_add_iff_left.mp h.2
    simp only [Nat.add_left_cancel_iff, Nat.add_sub_cancel_left]
    -- the last update of the word is the only one
    interval_cases i <;> rfl
  · rw [dif_neg h]
    have hne : ∀ i < 4, w ≠ addr / 8 + i := fun i hi heq =>
      h ⟨by omega, heq ▸ Nat.add_lt_add_left hi _⟩
    rw [if_neg (hne 3 (by omega)), if_neg (hne 2 (by omega)), if_neg (hne 1 (by omega)),
      if_neg (hne 0 (by omega))]

/-- The command that was written is read. -/
theorem readCmd_writeCmd_self : (mem.writeCmd addr v).readCmd addr = v := by
  apply Vector.ext
  intro i hi
  rw [readCmd, Vector.getElem_ofFn, writeCmd_apply, dif_pos (by simp only; omega)]
  congr 1
  exact Nat.add_sub_cancel_left _ _

/-- A command at another address stays. -/
theorem readCmd_writeCmd_ne (haddr : addr % PER_CMD_BYTES = 0) (haddr' : addr' % PER_CMD_BYTES = 0)
    (hne : addr' ≠ addr) : (mem.writeCmd addr v).readCmd addr' = mem.readCmd addr' := by
  apply Vector.ext
  intro i hi
  rw [readCmd, readCmd, Vector.getElem_ofFn, Vector.getElem_ofFn, writeCmd_apply, dif_neg]
  have hi' : i < 4 := hi
  simp only [PER_CMD_BYTES, PER_CMD_QWORD] at haddr haddr' ⊢
  omega

/-- A byte outside of a command leaves it. -/
theorem readCmd_writeByte {val : BitVec 8} (haddr' : addr' % PER_CMD_BYTES = 0)
    (hout : addr' + PER_CMD_BYTES ≤ addr ∨ addr < addr') :
    (mem.writeByte addr val).readCmd addr' = mem.readCmd addr' := by
  apply Vector.ext
  intro i hi
  rw [readCmd, readCmd, Vector.getElem_ofFn, Vector.getElem_ofFn, writeByte]
  apply Function.update_of_ne
  show addr' / 8 + i ≠ addr / 8
  have hi' : i < 4 := hi
  simp only [PER_CMD_BYTES] at haddr' hout
  omega

end PhysMem

/-! ## Positions -/

section Slots

variable {base off x n : Nat}

theorem ringPtrUpdate_eq (hx : x < 2 * CMDQ_BYTES) : ringPtrUpdate x = x % CMDQ_BYTES := by
  have hx' : x < 2 * 0x10000 := hx
  show (if x ≥ 0x10000 then x - 0x10000 else x) = x % 0x10000
  split
  · omega
  · omega

/-- The position after one, with the address of the queue added again. -/
theorem ringPtrUpdate_next (hoff : off < CMDQ_BYTES) :
    ringPtrUpdate (base + off + PER_CMD_BYTES - base) + base =
      base + (off + PER_CMD_BYTES) % CMDQ_BYTES := by
  have hsub : base + off + PER_CMD_BYTES - base = off + PER_CMD_BYTES := by omega
  have hlt : off + PER_CMD_BYTES < 2 * CMDQ_BYTES := by
    simp only [CMDQ_BYTES, PER_CMD_BYTES] at hoff ⊢
    omega
  rw [hsub, ringPtrUpdate_eq hlt, Nat.add_comm]

/-- The positions from the next one on. -/
theorem slot_succ (off k : Nat) :
    ((off + PER_CMD_BYTES) % CMDQ_BYTES + PER_CMD_BYTES * k) % CMDQ_BYTES =
      (off + PER_CMD_BYTES * (k + 1)) % CMDQ_BYTES := by
  rw [Nat.mod_add_mod, Nat.mul_succ, Nat.add_assoc, Nat.add_comm PER_CMD_BYTES]

/-- Positions less than a queue apart are different. -/
theorem slot_ne {k : Nat} (hk : 0 < k) (hn : PER_CMD_BYTES * k < CMDQ_BYTES) :
    (off + PER_CMD_BYTES * k) % CMDQ_BYTES ≠ off := by
  simp only [CMDQ_BYTES, PER_CMD_BYTES] at *
  omega

theorem slot_aligned (hoff : off % PER_CMD_BYTES = 0) (k : Nat) :
    (off + PER_CMD_BYTES * k) % CMDQ_BYTES % PER_CMD_BYTES = 0 := by
  simp only [CMDQ_BYTES, PER_CMD_BYTES] at *
  omega

theorem aligned_add {y : Nat} (hx : x % PER_CMD_BYTES = 0) (hy : y % PER_CMD_BYTES = 0) :
    (x + y) % PER_CMD_BYTES = 0 := by
  rw [Nat.add_mod, hx, hy]
  rfl

/-- A command at a position ends inside the queue. -/
theorem slot_le (hoff : off < CMDQ_BYTES) (hoff0 : off % PER_CMD_BYTES = 0) :
    off + PER_CMD_BYTES ≤ CMDQ_BYTES := by
  simp only [CMDQ_BYTES, PER_CMD_BYTES] at hoff hoff0 ⊢
  omega

/-- The positions up to one that is not behind. -/
theorem queueSlots_of_le {readr writer : Nat} (hle : readr ≤ writer) (hlt : writer < CMDQ_BYTES) :
    queueSlots readr writer = (List.range ((writer - readr) / PER_CMD_BYTES)).map fun k =>
      (readr + PER_CMD_BYTES * k) % CMDQ_BYTES := by
  have hmod : (writer + CMDQ_BYTES - readr) % CMDQ_BYTES = writer - readr := by
    rw [Nat.sub_add_comm hle, Nat.add_mod_right, Nat.mod_eq_of_lt (by omega)]
  rw [queueSlots, hmod]

/-- The positions of a number of commands, around the end of the queue. -/
theorem queueSlots_add (hoff : off < CMDQ_BYTES) (hn : PER_CMD_BYTES * n < CMDQ_BYTES) :
    queueSlots off ((off + PER_CMD_BYTES * n) % CMDQ_BYTES) = (List.range n).map fun k =>
      (off + PER_CMD_BYTES * k) % CMDQ_BYTES := by
  have hnum :
    ((off + PER_CMD_BYTES * n) % CMDQ_BYTES + CMDQ_BYTES - off) % CMDQ_BYTES / PER_CMD_BYTES =
      n := by
    simp only [CMDQ_BYTES, PER_CMD_BYTES] at hoff hn ⊢
    omega
  rw [queueSlots, hnum]

end Slots

/-! ## The loop -/

section Copy

variable {overflowChecks : Bool} {frames : ItsFrames} {mem mem' : PhysMem} {value : ItsCmd}
  {addr zoneAddr a b n : Nat}

/-- Enabling an LPI of the table writes a byte of the table. -/
theorem enableOneLpi_eq {lpi : Nat} (hlpi : lpi < frames.tableSize) :
    enableOneLpi overflowChecks frames lpi mem = some (mem.writeByte (frames.table + lpi) 1) := by
  have hlt : frames.table + lpi < 2 ^ 64 := by
    have := frames.table_le
    omega
  rw [enableOneLpi, wordResult, if_pos hlt, Option.map_some]

/-- A command that maps an LPI of the table, or none, changes nothing outside of the table. -/
theorem analyzeCmd_spec (overflowChecks : Bool) (mem : PhysMem)
    (hlpi : ∀ id, value.lpi? = some id → 8192 ≤ id ∧ id - 8192 < frames.tableSize) :
    ∃ mem', analyzeCmd overflowChecks frames value mem = some mem' ∧
      ∀ addr, addr % PER_CMD_BYTES = 0 →
        (addr + PER_CMD_BYTES ≤ frames.table ∨ frames.table + frames.tableSize ≤ addr) →
        mem'.readCmd addr = mem.readCmd addr := by
  have hmap : ∀ id, value.lpi? = some id →
      ∃ mem', ((wordSub overflowChecks id 8192).bind fun lpi =>
          enableOneLpi overflowChecks frames lpi mem) = some mem' ∧
        ∀ addr, addr % PER_CMD_BYTES = 0 →
          (addr + PER_CMD_BYTES ≤ frames.table ∨ frames.table + frames.tableSize ≤ addr) →
          mem'.readCmd addr = mem.readCmd addr := fun id hid => by
    obtain ⟨hge, hlt⟩ := hlpi id hid
    rw [wordSub, if_pos hge, Option.bind_some, enableOneLpi_eq hlt]
    refine ⟨_, rfl, fun addr haddr hout => mem.readCmd_writeByte haddr ?_⟩
    omega
  rw [analyzeCmd]
  simp only [ItsCmd.lpi?] at hmap
  split
  · next hcode => exact hmap _ (if_pos hcode)
  · next hcode =>
    split
    · next hcode' => exact hmap _ ((if_neg hcode).trans (if_pos hcode'))
    · exact ⟨mem, rfl, fun _ _ _ => rfl⟩

/-- A command that is in no frame of the hypervisor stays when these are written. -/
theorem ItsFrames.Takes.congr (h : frames.Takes mem addr)
    (heq : mem'.readCmd addr = mem.readCmd addr) : frames.Takes mem' addr :=
  ⟨h.queue, h.table, fun id hid => h.lpi id (heq ▸ hid)⟩

/-- **The commands that the loop copies**: as many as it is told, each to the next position of the
queue, and nothing else changes but the table. -/
theorem copyCmds_spec (overflowChecks : Bool) (ha : a < CMDQ_BYTES) (hb : b < CMDQ_BYTES)
    (hzone : zoneAddr % PER_CMD_BYTES = 0)
    (ha0 : a % PER_CMD_BYTES = 0) (hb0 : b % PER_CMD_BYTES = 0)
    (hn : PER_CMD_BYTES * n < CMDQ_BYTES)
    (htakes : ∀ k < n, frames.Takes mem (zoneAddr + (a + PER_CMD_BYTES * k) % CMDQ_BYTES)) :
    ∃ mem', copyCmds overflowChecks frames zoneAddr n (zoneAddr + a) (frames.queue + b) mem =
        some (mem', (List.range n).map fun k => zoneAddr + (a + PER_CMD_BYTES * k) % CMDQ_BYTES) ∧
      (∀ k < n, mem'.readCmd (frames.queue + (b + PER_CMD_BYTES * k) % CMDQ_BYTES) =
        mem.readCmd (zoneAddr + (a + PER_CMD_BYTES * k) % CMDQ_BYTES)) ∧
      ∀ addr, addr % PER_CMD_BYTES = 0 →
        (addr + PER_CMD_BYTES ≤ frames.table ∨ frames.table + frames.tableSize ≤ addr) →
        (∀ k < n, addr ≠ frames.queue + (b + PER_CMD_BYTES * k) % CMDQ_BYTES) →
        mem'.readCmd addr = mem.readCmd addr := by
  induction n generalizing a b mem with
  | zero => exact ⟨mem, rfl, nofun, fun _ _ _ _ => rfl⟩
  | succ n ih =>
    have hqueue : frames.queue % PER_CMD_BYTES = 0 := by
      have := frames.queue_aligned
      simp only [pageSize, PER_CMD_BYTES] at this ⊢
      omega
    have hslot0 : ∀ {x : Nat}, x < CMDQ_BYTES → (x + PER_CMD_BYTES * 0) % CMDQ_BYTES = x :=
      fun hx => by
      rw [Nat.mul_zero, Nat.add_zero, Nat.mod_eq_of_lt hx]
    have htake := htakes 0 (Nat.succ_pos n)
    rw [hslot0 ha] at htake
    obtain ⟨mem₁, hanalyze, hmem₁⟩ := analyzeCmd_spec overflowChecks mem htake.lpi
    set v := mem.readCmd (zoneAddr + a)
    set mem₂ := mem₁.writeCmd (frames.queue + b) v
    -- what the first round leaves
    have hframe : ∀ addr, addr % PER_CMD_BYTES = 0 →
        (addr + PER_CMD_BYTES ≤ frames.table ∨ frames.table + frames.tableSize ≤ addr) →
        addr ≠ frames.queue + b → mem₂.readCmd addr = mem.readCmd addr := fun addr haddr hout hne =>
      (mem₁.readCmd_writeCmd_ne v (aligned_add hqueue hb0) haddr hne).trans (hmem₁ addr haddr hout)
    have hguest : ∀ k < n + 1, mem₂.readCmd (zoneAddr + (a + PER_CMD_BYTES * k) % CMDQ_BYTES) =
        mem.readCmd (zoneAddr + (a + PER_CMD_BYTES * k) % CMDQ_BYTES) := fun k hk => by
      have htake := htakes k hk
      refine hframe _ (aligned_add hzone (slot_aligned ha0 k)) htake.table fun heq => ?_
      have := htake.queue
      have hpos : 0 < PER_CMD_BYTES := by decide
      omega
    have hnext : ∀ k < n, frames.Takes mem₂
        (zoneAddr + ((a + PER_CMD_BYTES) % CMDQ_BYTES + PER_CMD_BYTES * k) % CMDQ_BYTES) :=
          fun k hk => by
      rw [slot_succ]
      exact (htakes (k + 1) (by omega)).congr (hguest (k + 1) (by omega))
    have haligned : ∀ {x : Nat}, x % PER_CMD_BYTES = 0 →
        (x + PER_CMD_BYTES) % CMDQ_BYTES % PER_CMD_BYTES = 0 := fun {x} hx => by
      have := slot_aligned hx 1
      rwa [Nat.mul_one] at this
    have hpos : 0 < CMDQ_BYTES := by decide
    rw [Nat.mul_succ] at hn
    obtain ⟨mem', hcopy, hcopied, hrest⟩ := ih (Nat.mod_lt (a + PER_CMD_BYTES) hpos)
      (Nat.mod_lt (b + PER_CMD_BYTES) hpos) (haligned ha0) (haligned hb0) (by omega) hnext
    simp only [slot_succ] at hcopy hcopied hrest
    refine ⟨mem', ?_, fun k hk => ?_, fun addr haddr hout hne => ?_⟩
    · rw [copyCmds, hanalyze, Option.bind_some, ringPtrUpdate_next ha, ringPtrUpdate_next hb, hcopy,
        Option.map_some, List.range_succ_eq_map, List.map_cons, List.map_map, hslot0 ha]
      rfl
    · cases k with
      | zero =>
        -- the later rounds leave the first command
        rw [hslot0 hb, hslot0 ha]
        refine (hrest _ (aligned_add hqueue hb0) ?_ fun k hk heq => ?_).trans
          (mem₁.readCmd_writeCmd_self v)
        · have hend := slot_le hb hb0
          rcases frames.disjoint with h | h
          · exact .inr (by omega)
          · exact .inl (by omega)
        · refine slot_ne (Nat.succ_pos k) (lt_of_le_of_lt ?_ hn) (Nat.add_left_cancel heq).symm
          rw [← Nat.mul_succ]
          exact Nat.mul_le_mul_left _ (by omega)
      | succ k => exact (hcopied k (by omega)).trans (hguest (k + 1) hk)
    · have hfirst := hne 0 (Nat.succ_pos n)
      rw [hslot0 hb] at hfirst
      exact (hrest addr haddr hout fun k hk => hne (k + 1) (by omega)).trans
        (hframe addr haddr hout hfirst)

end Copy

/-! ## The steps -/

namespace GitsState

variable {frames : ItsFrames} {s : GitsState} {zoneId value : Nat}

/-- **The invariant**: all that is queued is consumed, and the positions and the queues are
aligned. -/
structure Inv (s : GitsState) : Prop extends s.Forwards where
  readr : s.cmdq.readr = s.its.creadr
  writer : s.cmdq.writer = s.its.creadr
  its_lt : s.its.creadr < CMDQ_BYTES
  its_aligned : s.its.creadr % PER_CMD_BYTES = 0
  base_aligned : ∀ (zoneId : Nat) (h : zoneId < MAX_ZONE_NUM),
    s.cmdq.phyBaseList[zoneId] % PER_CMD_BYTES = 0
  creadr_lt : ∀ (zoneId : Nat) (h : zoneId < MAX_ZONE_NUM), s.cmdq.creadrList[zoneId] < CMDQ_BYTES
  creadr_aligned : ∀ (zoneId : Nat) (h : zoneId < MAX_ZONE_NUM),
    s.cmdq.creadrList[zoneId] % PER_CMD_BYTES = 0

theorem Inv.init (h : s.Init) : s.Inv := by
  obtain ⟨hcmdq, hits, hreads, hplaced⟩ := h
  have hzero : ∀ (zoneId : Nat) (h : zoneId < MAX_ZONE_NUM),
      (Vector.replicate MAX_ZONE_NUM 0)[zoneId] = 0 := fun zoneId h => Vector.getElem_replicate h
  refine ⟨⟨?_, ?_, ?_⟩, ?_, ?_, ?_, ?_, fun zoneId h => ?_, fun zoneId h => ?_, fun zoneId h => ?_⟩
  · rw [hits, hplaced]
    rfl
  · rw [hreads, hplaced]
    rfl
  all_goals simp only [hcmdq, hits, Cmdq.new, hzero]
  all_goals decide

/-- The address of a queue is that of a page. -/
theorem base_mod (value : Nat) : (value &&& 0xffffffffff000) % PER_CMD_BYTES = 0 := by
  show (value &&& 0xffffffffff000) % 2 ^ 5 = 0
  rw [Nat.and_mod_two_pow]
  exact Nat.and_zero _

/-- The commands between the `creadr` of a zone and a position that is not behind it. -/
def numCmds (s : GitsState) (zoneId value : Nat) (h : zoneId < MAX_ZONE_NUM) : Nat :=
  (value - s.cmdq.creadrList[zoneId]) / PER_CMD_BYTES

/-- Where the hypervisor reads the next commands of a zone. -/
def slotAddr (s : GitsState) (zoneId : Nat) (h : zoneId < MAX_ZONE_NUM) (k : Nat) : Nat :=
  s.cmdq.phyBaseList[zoneId] + (s.cmdq.creadrList[zoneId] + PER_CMD_BYTES * k) % CMDQ_BYTES

theorem mul_numCmds (hinv : s.Inv) (hvalue : value % PER_CMD_BYTES = 0)
    (h : zoneId < MAX_ZONE_NUM) :
    PER_CMD_BYTES * s.numCmds zoneId value h = value - s.cmdq.creadrList[zoneId] := by
  have hcreadr := hinv.creadr_aligned zoneId h
  rw [numCmds]
  simp only [PER_CMD_BYTES] at hcreadr hvalue ⊢
  omega

namespace CwriterOk

/-- What the zone has placed is where the hypervisor reads. -/
theorem slot (hok : s.CwriterOk frames zoneId value) (hlt : value < CMDQ_BYTES) {k : Nat}
    (hk : k < s.numCmds zoneId value hok.zoneId_lt) :
    s.stage2 zoneId (s.slotAddr zoneId hok.zoneId_lt k) = some (s.slotAddr zoneId hok.zoneId_lt k) ∧
      frames.Takes s.mem (s.slotAddr zoneId hok.zoneId_lt k) := by
  have hslots := hok.slots
  rw [queueSlots_of_le hok.creadr_le hlt] at hslots
  have hslot := hslots _ (List.mem_map_of_mem (List.mem_range.mpr hk))
  rwa [queueIpa, Vector.getElem?_eq_getElem hok.zoneId_lt, Option.getD_some] at hslot

theorem placedTo_eq (hok : s.CwriterOk frames zoneId value) (hlt : value < CMDQ_BYTES) :
    s.placedTo zoneId value = (List.range (s.numCmds zoneId value hok.zoneId_lt)).map fun k =>
      ⟨zoneId, some (s.slotAddr zoneId hok.zoneId_lt k),
        some (s.mem.readCmd (s.slotAddr zoneId hok.zoneId_lt k))⟩ := by
  have hzone := hok.zoneId_lt
  rw [placedTo, Vector.getElem?_eq_getElem hzone, Option.getD_some,
    queueSlots_of_le hok.creadr_le hlt, List.map_map]
  refine List.map_congr_left fun k hk => ?_
  have hmap := (hok.slot hlt (List.mem_range.mp hk)).1
  have hipa : s.queueIpa zoneId ((s.cmdq.creadrList[zoneId] + PER_CMD_BYTES * k) % CMDQ_BYTES) =
      s.slotAddr zoneId hzone k := by
    rw [queueIpa, Vector.getElem?_eq_getElem hzone, Option.getD_some, slotAddr]
  simp only [Function.comp_apply, hipa, hmap, Option.map_some]

end CwriterOk

/-- **A write of `GITS_CWRITER` that can be forwarded**: the commands that the zone has placed are
the next ones that the hardware reads. -/
theorem insertCmd_spec (overflowChecks : Bool) (hinv : s.Inv)
    (hvalue : value % PER_CMD_BYTES = 0 ∧ value < CMDQ_BYTES)
    (hok : s.CwriterOk frames zoneId value) :
    ∃ mem' w, w < CMDQ_BYTES ∧ w % PER_CMD_BYTES = 0 ∧
      Cmdq.insertCmd overflowChecks frames s.toRun zoneId value = some
        { cmdq := { s.cmdq with
            writer := w
            readr := w
            creadrList := s.cmdq.creadrList.set zoneId value hok.zoneId_lt }
          mem := mem'
          its := ⟨w, s.its.consumed ++ (List.range (s.numCmds zoneId value hok.zoneId_lt)).map
            fun k => s.mem.readCmd (s.slotAddr zoneId hok.zoneId_lt k)⟩
          reads := s.reads ++ (List.range (s.numCmds zoneId value hok.zoneId_lt)).map
            (s.slotAddr zoneId hok.zoneId_lt) } := by
  have hzone := hok.zoneId_lt
  have hle := hok.creadr_le
  have hnum := mul_numCmds hinv hvalue.1 hzone
  set n := s.numCmds zoneId value hzone with hn
  have hlt : PER_CMD_BYTES * n < CMDQ_BYTES := by
    rw [hnum]
    exact (Nat.sub_le _ _).trans_lt hvalue.2
  obtain ⟨mem', hcopy, hcopied, -⟩ := copyCmds_spec overflowChecks
    (hinv.creadr_lt zoneId hzone) hinv.its_lt (hinv.base_aligned zoneId hzone)
    (hinv.creadr_aligned zoneId hzone) hinv.its_aligned hlt fun k hk => (hok.slot hvalue.2 hk).2
  -- where the hardware comes to
  have hsum : s.its.creadr + PER_CMD_BYTES * n < 2 * CMDQ_BYTES := by
    have := hinv.its_lt
    omega
  have hword : wordResult overflowChecks 64 (s.cmdq.writer + PER_CMD_BYTES * n) =
      some (s.its.creadr + PER_CMD_BYTES * n) := by
    rw [hinv.writer, wordResult, if_pos (hsum.trans (by decide))]
  have hring := ringPtrUpdate_eq hsum
  have hslots := queueSlots_add hinv.its_lt hlt
  have haligned := slot_aligned hinv.its_aligned n
  have hpos : 0 < CMDQ_BYTES := by decide
  set w := (s.its.creadr + PER_CMD_BYTES * n) % CMDQ_BYTES
  have hwlt : w < CMDQ_BYTES := Nat.mod_lt _ hpos
  have hconsume : s.its.consume frames.queue mem' w = some ⟨w, s.its.consumed ++
      (List.range n).map fun k => s.mem.readCmd (s.slotAddr zoneId hzone k)⟩ := by
    rw [Its.consume, if_pos hwlt, hslots, List.map_map]
    congr 3
    exact List.map_congr_left fun k hk => hcopied k (List.mem_range.mp hk)
  refine ⟨mem', w, hwlt, haligned, ?_⟩
  rw [Cmdq.insertCmd, dif_pos hzone]
  simp only [wordSub, if_pos hle, Option.bind_some, hinv.readr, ← hnum]
  rw [Nat.mul_div_cancel_left n (by decide : 0 < PER_CMD_BYTES), hcopy, Option.bind_some, hword,
    Option.bind_some, hring, hconsume, Option.map_some]
  rfl

/-- **A step keeps the invariant**, and the writes that can be forwarded return. -/
theorem forwards_step (overflowChecks : Bool) (hinv : s.Inv) {e : GitsEvent} (hqueue : e.InQueue)
    (hok : s.Forwardable frames e) :
    ∃ s', s.step overflowChecks frames e = some s' ∧ s'.Inv := by
  cases e with
  | outside mem stage2 => exact ⟨_, rfl, { hinv with }⟩
  | setCbaser zoneId value =>
    have hzone : zoneId < MAX_ZONE_NUM := hok
    rw [step, Cmdq.setCbaser, dif_pos hzone, Option.map_some]
    refine ⟨_, rfl, { hinv with base_aligned := fun zoneId' h => ?_ }⟩
    show (s.cmdq.phyBaseList.set zoneId _)[zoneId'] % _ = _
    rw [Vector.getElem_set]
    split
    · exact base_mod value
    · exact hinv.base_aligned zoneId' h
  | setCwriter zoneId value =>
    have hok : s.CwriterOk frames zoneId value := hok
    have hzone := hok.zoneId_lt
    have hvalue : value % PER_CMD_BYTES = 0 ∧ value < CMDQ_BYTES := hqueue
    rw [step, Cmdq.setCwriter, dif_pos hzone, hok.placedTo_eq hvalue.2]
    by_cases hzero : value = 0
    · -- a queue that starts at 0 and is written with 0 has no commands
      have hnum : s.numCmds zoneId value hzone = 0 := by
        rw [numCmds, hzero, Nat.zero_sub, Nat.zero_div]
      have hcreadr : s.cmdq.creadrList[zoneId] = value := by
        have := hok.creadr_le
        omega
      rw [if_pos hzero, Option.map_some, Option.map_some, hnum, List.range_zero, List.map_nil,
        List.append_nil]
      refine ⟨_, rfl, { hinv with creadr := ?_ }⟩
      show s.cmdq.creadrList = s.cmdq.cwriterList.set zoneId value
      rw [← hinv.creadr, ← hcreadr, Vector.set_getElem_self]
    · -- the commands up to the write are copied, and `creadr` follows `cwriter`
      obtain ⟨mem', w, hlt, haligned, hinsert⟩ := insertCmd_spec overflowChecks hinv hvalue hok
      rw [if_neg hzero, hinsert, Option.map_some, Option.map_some]
      refine ⟨_, rfl, ⟨⟨?_, ?_, ?_⟩, rfl, rfl, hlt, haligned, hinv.base_aligned, fun z h => ?_,
        fun z h => ?_⟩⟩
      · simp only [List.map_append, List.map_map, hinv.consumed]
        rfl
      · simp only [List.map_append, List.map_map, hinv.reads]
        rfl
      · simp only [hinv.creadr]
      · rw [Vector.getElem_set]
        split
        · exact hvalue.2
        · exact hinv.creadr_lt z h
      · rw [Vector.getElem_set]
        split
        · exact hvalue.1
        · exact hinv.creadr_aligned z h

end GitsState

/-- **Commands are forwarded exactly once and in order**: in a run of all zones whose writes of
`GITS_CWRITER` can all be forwarded, the hardware has read what the zones have placed, and every
further write that can be forwarded returns. -/
theorem its_forwarding {overflowChecks : Bool} {frames : ItsFrames} {h : List GitsEvent}
    {s : GitsState} (r : ((gitsSystem overflowChecks frames).restrict
      fun s e => s.Forwardable frames e).Run h s) :
    s.Forwards ∧ ∀ e : GitsEvent, e.InQueue → s.Forwardable frames e →
      ∃ s', s.step overflowChecks frames e = some s' := by
  have hinv : s.Inv := by
    refine r.invariant (I := fun _ s => s.Inv) (fun s hs => .init hs) fun h s e s' _ hinv hs => ?_
    obtain ⟨hok, hqueue, hstep⟩ := hs
    obtain ⟨s₁, hstep₁, hinv₁⟩ := GitsState.forwards_step overflowChecks hinv hqueue hok
    obtain rfl := Option.some.inj (hstep.symm.trans hstep₁)
    exact hinv₁
  refine ⟨hinv.toForwards, fun e hqueue hok => ?_⟩
  obtain ⟨s', hstep, -⟩ := GitsState.forwards_step overflowChecks hinv hqueue hok
  exact ⟨s', hstep⟩

/-- The table for identifiers of 16 bits, and the queue behind it. -/
def someItsFrames : ItsFrames := by
  refine ⟨0x80000000, 0xE000, 0x8000E000, ?_, ?_, ?_, ?_, .inl ?_⟩
  all_goals decide

/-- Nothing is written, and the address spaces are the physical memory. -/
def freshGits : GitsState where
  cmdq := .new
  mem := fun _ => 0
  its := ⟨0, []⟩
  reads := []
  stage2 := fun _ ipa => some ipa
  placed := []

theorem cwriterOk_freshGits : freshGits.CwriterOk someItsFrames 0 0x40 := by
  refine ⟨by decide, by decide, fun off hoff => ⟨rfl, ?_⟩⟩
  have hle : off ≤ 0x20 := by
    revert off
    decide
  have hipa : freshGits.queueIpa 0 off = off := Nat.zero_add off
  have hread : freshGits.mem.readCmd off = .ofFn fun _ => 0 := rfl
  have hcmd : (freshGits.mem.readCmd off).lpi? = none := by
    rw [hread]
    decide
  rw [hipa]
  refine ⟨.inl ?_, .inl ?_, fun id hid => ?_⟩
  · show off + 0x20 ≤ 0x8000E000
    omega
  · show off + 0x20 ≤ 0x80000000
    omega
  · rw [hcmd] at hid
    cases hid

theorem its_forwarding_two : ∃ s : GitsState,
    (gitsSystem true someItsFrames).step freshGits (.setCwriter 0 0x40) s ∧ s.Forwards := by
  have hqueue : (GitsEvent.setCwriter 0 0x40).InQueue := by decide
  have hstart : ((gitsSystem true someItsFrames).restrict
      fun s e => s.Forwardable someItsFrames e).Run [] freshGits := .start ⟨rfl, rfl, rfl, rfl⟩
  have hok : freshGits.Forwardable someItsFrames (.setCwriter 0 0x40) := cwriterOk_freshGits
  obtain ⟨s, hs⟩ := (its_forwarding hstart).2 _ hqueue hok
  have hrun := hstart.next ⟨hok, hqueue, hs⟩
  exact ⟨s, ⟨hqueue, hs⟩, (its_forwarding hrun).1⟩

/-- The zone places a command at the last position of its queue, so that its next position is 0: the
commands up to there are not forwarded. -/
theorem write_of_zero_ignored : ∃ h s, (gitsSystem true someItsFrames).Run h s ∧ ¬ s.Forwards := by
  have hstart : (gitsSystem true someItsFrames).Run [] freshGits := .start ⟨rfl, rfl, rfl, rfl⟩
  have hfirst := hstart.next (e := .setCwriter 0 0x20) ⟨by decide, rfl⟩
  have hsecond := hfirst.next (e := .setCwriter 0 0) ⟨by decide, rfl⟩
  exact ⟨_, _, hsecond, fun h => absurd h.creadr (by decide)⟩

end Hvisor
