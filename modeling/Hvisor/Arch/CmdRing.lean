import Hvisor.Arch.SmmuSync
import Hvisor.Lib.WrapRing
import Hvisor.Memory.Frame

/-!
# The ring of SMMU commands

The command queue of aarch64's `iommu.rs` in its page, with `cmd_insert` of the hypervisor and the
SMMU that consumes next to it. The index of an end, its wrap bit and what else a register holds are
packed in one value; the SMMU may put anything above the two.

The hypervisor looks at a copy of `CMDQ_CONS`, which it reads again in its loops. Commands that the
SMMU has consumed since then still count for `q_full` and `q_empty`.

## Main definitions

* `FramedQueue`, `initCmdq`: the queue with its page, and the state after a reset
* `CmdRing.step`, `CmdRing.system`: the steps of `cmd_insert` and of the SMMU, and their runs
* `CmdRing.published`, `CmdRing.consumed`, `CmdRing.seen`: the commands of a history that are in the
  queue, that the SMMU has consumed, and that the hypervisor knows to be
* `CmdRing.Written`, `CmdRing.Exact`: a write to the right slot, and the arithmetic of the ring

## Main results

* `CmdQueue.incProdExact`, `CmdQueue.countsExact`: the arithmetic of the packed registers
* `CmdRing.Inv.step`: a step keeps the invariant of the ring
* `CmdRing.command_of_consume`: the SMMU gets the commands in the order of the calls
* `CmdRing.cmdRing_exact`: the arithmetic of the ring is exact in every run
-/

namespace Hvisor

open FrameAlloc (Frame FrameState)
open FirstFit (IndexAllocator)

/-- The offset, in `IDR1`, of the largest size of the queue. -/
def IDR1_CMDQS_OFF : Nat := 21
/-- Its bits. -/
def IDR1_CMDQS_LEN : Nat := 5
/-- The logarithm of the slots that a page has. -/
def CMDQ_MAX_SZ_SHIFT : Nat := 8
/-- The hint that allocates on writes. -/
def Q_BASE_RWA : Nat := 1 <<< 62
/-- The offset of the address in `CMDQ_BASE`. -/
def Q_BASE_ADDR_OFF : Nat := 5
/-- Its bits. -/
def Q_BASE_ADDR_LEN : Nat := 47
/-- The offset of the logarithm of the slots. -/
def Q_BASE_LOG2SIZE_OFF : Nat := 0
/-- Its bits. -/
def Q_BASE_LOG2SIZE_LEN : Nat := 5
/-- The words of a command. -/
def CMDQ_ENT_DWORDS : Nat := 2
/-- The bytes of a command. -/
def CMDQ_ENT_SIZE : Nat := CMDQ_ENT_DWORDS <<< 3

/-! ## The indices -/

namespace CmdQueue

variable {q : CmdQueue}

/-- `inc_prod` goes to the next position, and keeps the overflow bit. -/
structure IncProdExact (q : CmdQueue) : Prop where
  prod : q.incProd.prod % 2 ^ (q.maxNShift + 1) = (q.prod + 1) % 2 ^ (q.maxNShift + 1)
  ovf : qOvf q.incProd.prod = qOvf q.prod

/-- When the registers are at the positions of `p` commands that were inserted and `c` that were
consumed, the queue is full or empty as these numbers say. -/
def CountsExact (q : CmdQueue) : Prop :=
  ∀ p c, q.prod ≡ p [MOD 2 ^ (q.maxNShift + 1)] → q.cons ≡ c [MOD 2 ^ (q.maxNShift + 1)] →
    c ≤ p → p ≤ c + 2 ^ q.maxNShift →
      (q.qFull = true ↔ p - c = 2 ^ q.maxNShift) ∧ (q.qEmpty = true ↔ p - c = 0)

/-- **One insertion advances the producer by one**, whatever its register holds. -/
theorem incProdExact (hn : q.maxNShift < 31) : q.IncProdExact := by
  have hle : 2 ^ (q.maxNShift + 1) ≤ 2 ^ 31 := Nat.pow_le_pow_right Nat.two_pos hn
  have hlt : (q.prod + 1) % 2 ^ (q.maxNShift + 1) < 2 ^ (q.maxNShift + 1) :=
    Nat.mod_lt _ (Nat.two_pow_pos _)
  constructor
  · rw [incProd_prod_eq]
    refine Nat.eq_of_testBit_eq fun i => ?_
    -- the overflow bit is above the position
    simp only [Nat.testBit_mod_two_pow, Nat.testBit_or, testBit_qOvf]
    by_cases hi : i < q.maxNShift + 1
    · have hne : 31 ≠ i := by omega
      simp [hi, hne]
    · simp [hi]
  · rw [incProd_prod_eq]
    refine Nat.eq_of_testBit_eq fun i => ?_
    simp only [testBit_qOvf, Nat.testBit_or]
    by_cases hi : 31 = i
    · subst hi
      simp [Nat.testBit_lt_two_pow (hlt.trans_le hle)]
    · simp [hi]

theorem qWrap_eq_iff (q : CmdQueue) (r s : Nat) :
    q.qWrap r = q.qWrap s ↔ r.testBit q.maxNShift = s.testBit q.maxNShift := by
  constructor
  · intro h
    have hbit := congrArg (·.testBit q.maxNShift) h
    simpa [testBit_qWrap] using hbit
  · intro h
    refine Nat.eq_of_testBit_eq fun i => ?_
    rw [testBit_qWrap, testBit_qWrap]
    by_cases hi : q.maxNShift = i
    · rw [← hi, h]
    · rw [decide_eq_false hi, Bool.false_and, Bool.false_and]

/-- **`q_full` and `q_empty` count the commands that wait**, whatever else the registers hold. -/
theorem countsExact (q : CmdQueue) : q.CountsExact := by
  intro p c hprod hcons hcp hpc
  constructor
  · rw [qFull, Bool.and_eq_true, beq_iff_eq, bne_iff_ne, ne_eq, qIdx_eq, qIdx_eq, qWrap_eq_iff,
      WrapRing.full_iff hprod hcons hcp hpc]
    omega
  · rw [qEmpty, Bool.and_eq_true, beq_iff_eq, beq_iff_eq, qIdx_eq, qIdx_eq, qWrap_eq_iff,
      WrapRing.empty_iff hprod hcons hcp hpc]
    omega

end CmdQueue

/-! ## The queue in its page -/

/-- The command queue with the page of its entries. -/
structure FramedQueue extends CmdQueue where
  baseReg : Nat
  base : Nat
  qFrame : Frame

namespace FramedQueue

/-- `CmdQueue::new`, which panics when no frame is free. -/
def new {σ : Type} (A : IndexAllocator σ) (s : FrameState σ) :
    Option (FramedQueue × FrameState σ) :=
  match Frame.newZero A s with
  | (.ok qFrame, s) =>
    some ({ prod := 0, cons := 0, maxNShift := 0, baseReg := 0, base := 0, qFrame }, s)
  | (.error _, _) => none

/-- A new queue is empty, and has one page. -/
theorem new_eq_some {σ : Type} {A : IndexAllocator σ} {s s' : FrameState σ} {q : FramedQueue}
    (h : new A s = some (q, s')) : q.prod = 0 ∧ q.cons = 0 ∧ q.qFrame.size = pageSize := by
  rcases halloc : s.allocator.alloc A with ⟨_ | startPaddr, allocator⟩
  · simp [new, Frame.newZero, Frame.new, halloc] at h
  · simp only [new, Frame.newZero, Frame.new, halloc, Option.some.injEq, Prod.mk.injEq] at h
    obtain ⟨rfl, -⟩ := h
    exact ⟨rfl, rfl, Nat.one_mul _⟩

/-- The queue is set up with a number of slots. -/
def init (self : FramedQueue) (shiftBits : Nat) : FramedQueue :=
  let addrMask := extractBits self.qFrame.startPaddr Q_BASE_ADDR_OFF Q_BASE_ADDR_LEN
  { self with
    base := self.qFrame.startPaddr
    maxNShift := shiftBits
    baseReg := Q_BASE_RWA ||| addrMask <<< Q_BASE_ADDR_OFF |||
      extractBits shiftBits Q_BASE_LOG2SIZE_OFF Q_BASE_LOG2SIZE_LEN }

/-- The address of the slot that an index names. -/
def queueEntry (self : FramedQueue) (reg : Nat) : Nat :=
  self.base + self.qIdx reg * CMDQ_ENT_SIZE

/-- The two words of the command are written to the producer's entry. -/
def queueWrite (self : FramedQueue) (cmd : Cmd) (mem : Nat → Nat) : Nat → Nat :=
  let entry := self.queueEntry self.prod
  Function.update (Function.update mem entry cmd.1) (entry + 8) cmd.2

/-- The command in each slot. -/
def slots (self : FramedQueue) (mem : Nat → Nat) (slot : Nat) : Cmd :=
  let entry := self.base + slot * CMDQ_ENT_SIZE
  (mem entry, mem (entry + 8))

variable {q : FramedQueue} {cmd : Cmd} {mem : Nat → Nat}

theorem queueEntry_eq (q : FramedQueue) (reg : Nat) :
    q.queueEntry reg = q.base + reg % 2 ^ q.maxNShift * CMDQ_ENT_SIZE := by
  rw [queueEntry, CmdQueue.qIdx_eq]

/-- Only the two words of the entry are written. -/
theorem queueWrite_of_ne {a : Nat} (h₀ : a ≠ q.queueEntry q.prod)
    (h₈ : a ≠ q.queueEntry q.prod + 8) : q.queueWrite cmd mem a = mem a := by
  rw [queueWrite, Function.update_of_ne h₈, Function.update_of_ne h₀]

/-- **What the SMMU is told** in `CMDQ_BASE`: where the page is, and the number of slots. -/
theorem baseReg_init {shiftBits : Nat} (hshift : shiftBits < 2 ^ Q_BASE_LOG2SIZE_LEN)
    (halign : q.qFrame.startPaddr % 2 ^ 5 = 0) (hlt : q.qFrame.startPaddr < 2 ^ 52) :
    BitMask.field (q.init shiftBits).baseReg 5 47 <<< 5 = q.qFrame.startPaddr ∧
      BitMask.field (q.init shiftBits).baseReg 0 5 = shiftBits := by
  rw [Q_BASE_LOG2SIZE_LEN] at hshift
  have haddr : extractBits q.qFrame.startPaddr 5 47 < 2 ^ 47 := by
    rw [extractBits_eq_field]
    exact BitMask.field_lt
  have hsize : BitMask.field shiftBits 0 5 = shiftBits := by
    rw [BitMask.field, Nat.pow_zero, Nat.div_one, Nat.mod_eq_of_lt hshift]
  have hreg : (q.init shiftBits).baseReg =
      1 <<< 62 ||| extractBits q.qFrame.startPaddr 5 47 <<< 5 ||| extractBits shiftBits 0 5 := rfl
  rw [extractBits_eq_field shiftBits, hsize] at hreg
  constructor
  · have hflag : BitMask.field (1 <<< 62) 5 47 = 0 := by decide
    have hlow : BitMask.field shiftBits 5 47 = 0 := by
      rw [BitMask.field, Nat.div_eq_of_lt hshift, Nat.zero_mod]
    rw [hreg, BitMask.field_or, BitMask.field_or, hflag, hlow, BitMask.field_shiftLeft haddr,
      Nat.zero_or, Nat.or_zero, extractBits_eq_field]
    exact BitMask.field_shiftLeft_eq halign hlt
  · have hflag : BitMask.field (1 <<< 62) 0 5 = 0 := by decide
    have hhigh : BitMask.field (extractBits q.qFrame.startPaddr 5 47 <<< 5) 0 5 = 0 := by
      rw [BitMask.field, Nat.shiftLeft_eq, Nat.pow_zero, Nat.div_one, Nat.mul_mod_left]
    rw [hreg, BitMask.field_or, BitMask.field_or, hflag, hhigh, hsize, Nat.zero_or, Nat.zero_or]

/-- **A write of a command** changes one slot. -/
theorem slots_queueWrite : q.slots (q.queueWrite cmd mem) =
    Function.update (q.slots mem) (q.prod % 2 ^ q.maxNShift) cmd := by
  funext slot
  by_cases hslot : slot = q.prod % 2 ^ q.maxNShift
  · have hfirst : q.queueEntry q.prod ≠ q.queueEntry q.prod + 8 := by omega
    subst hslot
    rw [Function.update_self, slots, ← queueEntry_eq, queueWrite, Function.update_self,
      Function.update_of_ne hfirst, Function.update_self]
  · rw [Function.update_of_ne hslot]
    -- the words of different slots have different addresses
    have hentry := queueEntry_eq q q.prod
    rw [CMDQ_ENT_SIZE, CMDQ_ENT_DWORDS] at hentry
    refine Prod.ext (queueWrite_of_ne ?_ ?_) (queueWrite_of_ne ?_ ?_) <;>
    · rw [CMDQ_ENT_SIZE, CMDQ_ENT_DWORDS]
      omega

end FramedQueue

/-! ## The machine -/

/-- Where the hypervisor is in `cmd_insert`. -/
inductive InsertPlace where
  | idle
  /-- In the loop while the queue is full. -/
  | full (cmd : Cmd)
  /-- The command is written and the SMMU does not know. -/
  | setProd
  /-- In the loop until the queue is empty. -/
  | wait
  deriving DecidableEq

/-- The queue and the words of the memory by their address; the registers of the SMMU; and where the
hypervisor is. -/
structure CmdRing where
  cmdq : FramedQueue
  mem : Nat → Nat
  baseReg : Nat
  prodReg : Nat
  consReg : Nat
  place : InsertPlace

/-- `init_cmdq`, with the value of `IDR1`. -/
def initCmdq (idr1 : Nat) (cmdq : FramedQueue) (mem : Nat → Nat) : CmdRing :=
  let shift := extractBits idr1 IDR1_CMDQS_OFF IDR1_CMDQS_LEN
  let cmdq := if CMDQ_MAX_SZ_SHIFT < shift then cmdq.init CMDQ_MAX_SZ_SHIFT else cmdq.init shift
  { cmdq, mem, baseReg := cmdq.baseReg, consReg := cmdq.cons, prodReg := cmdq.prod, place := .idle }

/-- What happens: the steps of the hypervisor in `cmd_insert`, and the SMMU that has consumed a
command and puts a value into `CMDQ_CONS`. -/
inductive RingAct where
  | call (cmd : Cmd)
  /-- `sync_cons`, in one of the loops. -/
  | look
  | write
  /-- `inc_prod`, and the write of `CMDQ_PROD`. -/
  | publish
  | ret
  | consume (reg : Nat)

namespace CmdRing

/-- The position of an end: its slot and the wrap bit. -/
def position (m : CmdRing) (reg : Nat) : Nat := reg % 2 ^ (m.cmdq.maxNShift + 1)

/-- The index of the consumer is read from the register. -/
def syncCons (m : CmdRing) : CmdRing :=
  { m with cmdq := { m.cmdq with cons := m.consReg } }

/-- A step of the hypervisor or of the SMMU. -/
def step (m : CmdRing) : RingAct → Option CmdRing
  | .call cmd => if m.place = .idle then some { m with place := .full cmd } else none
  | .look =>
    match m.place with
    | .full _ => if m.cmdq.qFull then some m.syncCons else none
    | .wait => if m.cmdq.qEmpty then none else some m.syncCons
    | _ => none
  | .write =>
    match m.place with
    | .full cmd =>
      if m.cmdq.qFull then none
      else some { m with mem := m.cmdq.queueWrite cmd m.mem, place := .setProd }
    | _ => none
  | .publish =>
    match m.place with
    | .setProd =>
      let cmdq := { m.cmdq with toCmdQueue := m.cmdq.incProd }
      some { m with cmdq, prodReg := cmdq.prod, place := .wait }
    | _ => none
  | .ret =>
    match m.place with
    | .wait => if m.cmdq.qEmpty then some { m with place := .idle } else none
    | _ => none
  | .consume reg =>
    -- the bits above the wrap bit are any
    if m.position m.consReg ≠ m.position m.prodReg ∧
        m.position reg = m.position (m.consReg + 1) ∧ reg < 2 ^ 32 then
      some { m with consReg := reg }
    else none

/-- The state after a reset, with a page from the allocator. -/
def Initial {σ : Type} (A : IndexAllocator σ) (m : CmdRing) : Prop :=
  ∃ s cmdq s' idr1 mem, FramedQueue.new A s = some (cmdq, s') ∧ m = initCmdq idr1 cmdq mem

/-- The runs of the queue, from one that is set up. -/
def system {σ : Type} (A : IndexAllocator σ) : TransitionSystem CmdRing RingAct :=
  .ofStep (Initial A) step

/-! ## What a history says -/

/-- The commands that `cmd_insert` was called with, the oldest first. -/
def calls : List RingAct → List Cmd
  | [] => []
  | .call cmd :: h => calls h ++ [cmd]
  | _ :: h => calls h

/-- The number of commands that the SMMU was told of. -/
def published : List RingAct → Nat
  | [] => 0
  | .publish :: h => published h + 1
  | _ :: h => published h

/-- The number of commands that the SMMU has consumed. -/
def consumed : List RingAct → Nat
  | [] => 0
  | .consume _ :: h => consumed h + 1
  | _ :: h => consumed h

/-- The number of commands that were consumed when the hypervisor last read `CMDQ_CONS`. -/
def seen : List RingAct → Nat
  | [] => 0
  | .look :: h => consumed h
  | _ :: h => seen h

/-- The address of the producer's slot in the page. -/
def nextEntry (m : CmdRing) : Nat :=
  m.cmdq.qFrame.startPaddr + m.cmdq.prod % 2 ^ m.cmdq.maxNShift * CMDQ_ENT_SIZE

/-- The next command of a history has been written to the producer's slot, which is in the page and
holds no command that waits. -/
structure Written (h : List RingAct) (m m' : CmdRing) : Prop where
  command : (calls h)[published h]? = some (m'.mem m.nextEntry, m'.mem (m.nextEntry + 8))
  others : ∀ a, a ≠ m.nextEntry → a ≠ m.nextEntry + 8 → m'.mem a = m.mem a
  inPage : m.nextEntry + CMDQ_ENT_SIZE ≤ m.cmdq.qFrame.startPaddr + m.cmdq.qFrame.size
  free : ∀ i, consumed h ≤ i → i < published h →
    i % 2 ^ m.cmdq.maxNShift ≠ m.cmdq.prod % 2 ^ m.cmdq.maxNShift

/-- **The arithmetic of the ring is exact**: what the registers say, where commands are written, and
that the ones that wait stay. -/
structure Exact (h : List RingAct) (m : CmdRing) : Prop where
  /-- For all values of the registers. -/
  registers : ∀ q : CmdQueue, q.maxNShift = m.cmdq.maxNShift → q.IncProdExact ∧ q.CountsExact
  prod : m.position m.cmdq.prod = published h % 2 ^ (m.cmdq.maxNShift + 1)
  consumed_le : consumed h ≤ published h
  seen_le : seen h ≤ consumed h
  /-- With the commands that wait by the hypervisor's copy of `CMDQ_CONS`. -/
  qFull : m.cmdq.qFull = true ↔ published h - seen h = 2 ^ m.cmdq.maxNShift
  qEmpty : m.cmdq.qEmpty = true ↔ published h - seen h = 0
  /-- With the commands that wait, when the register has been read. -/
  qFull_syncCons : m.syncCons.cmdq.qFull = true ↔
    published h - consumed h = 2 ^ m.cmdq.maxNShift
  qEmpty_syncCons : m.syncCons.cmdq.qEmpty = true ↔ published h - consumed h = 0
  write : ∀ m', m.step .write = some m' → Written h m m'
  /-- A command that was not consumed is in its slot. -/
  keeps : WrapRing.Keeps (m.cmdq.slots m.mem) (2 ^ m.cmdq.maxNShift) (calls h) (consumed h)
    (published h)

/-! ## The invariant -/

variable {h : List RingAct} {m m' : CmdRing} {cmd : Cmd} {reg : Nat} {σ : Type}
  {A : IndexAllocator σ}

/-- What is known at each place. -/
def At (h : List RingAct) (m : CmdRing) : InsertPlace → Prop
  | .full cmd => (calls h).length = published h + 1 ∧ (calls h)[published h]? = some cmd
  | .setProd => (calls h).length = published h + 1 ∧ published h < seen h + 2 ^ m.cmdq.maxNShift ∧
    WrapRing.Keeps (m.cmdq.slots m.mem) (2 ^ m.cmdq.maxNShift) (calls h) (consumed h)
      (published h + 1)
  | _ => (calls h).length = published h

/-- The registers count what has happened, modulo twice the size. -/
structure Inv (h : List RingAct) (m : CmdRing) : Prop where
  shift : m.cmdq.maxNShift ≤ CMDQ_MAX_SZ_SHIFT
  base : m.cmdq.base = m.cmdq.qFrame.startPaddr
  size : m.cmdq.qFrame.size = pageSize
  prod : m.cmdq.prod = published h % 2 ^ (m.cmdq.maxNShift + 1)
  prodReg : m.prodReg = m.cmdq.prod
  cons : m.cmdq.cons ≡ seen h [MOD 2 ^ (m.cmdq.maxNShift + 1)]
  consReg : m.consReg ≡ consumed h [MOD 2 ^ (m.cmdq.maxNShift + 1)]
  seen_le : seen h ≤ consumed h
  consumed_le : consumed h ≤ published h
  published_le : published h ≤ seen h + 2 ^ m.cmdq.maxNShift
  keeps : WrapRing.Keeps (m.cmdq.slots m.mem) (2 ^ m.cmdq.maxNShift) (calls h) (consumed h)
    (published h)
  place : At h m m.place

namespace Inv

theorem prod_modEq (hi : Inv h m) :
    m.cmdq.prod ≡ published h [MOD 2 ^ (m.cmdq.maxNShift + 1)] := by
  rw [hi.prod]
  exact Nat.mod_modEq _ _

theorem shift_lt (hi : Inv h m) : m.cmdq.maxNShift < 31 :=
  hi.shift.trans_lt (by decide)

/-- The producer's slot is that of the next command. -/
theorem slot (hi : Inv h m) :
    m.cmdq.prod % 2 ^ m.cmdq.maxNShift = published h % 2 ^ m.cmdq.maxNShift :=
  hi.prod_modEq.of_dvd (Nat.pow_dvd_pow 2 (Nat.le_succ _))

/-- The queue by the hypervisor's copy of `CMDQ_CONS`. -/
theorem counts (hi : Inv h m) :
    (m.cmdq.qFull = true ↔ published h - seen h = 2 ^ m.cmdq.maxNShift) ∧
      (m.cmdq.qEmpty = true ↔ published h - seen h = 0) :=
  m.cmdq.countsExact _ _ hi.prod_modEq hi.cons (hi.seen_le.trans hi.consumed_le) hi.published_le

/-- **A call of `cmd_insert`** begins. -/
theorem call (hi : Inv h m) (hplace : m.place = .idle) :
    Inv (.call cmd :: h) { m with place := .full cmd } := by
  have hlen : (calls h).length = published h := by
    have hat := hi.place
    rwa [hplace] at hat
  have hcalls : calls (.call cmd :: h) = calls h ++ [cmd] := rfl
  have hpublished : published (.call cmd :: h) = (calls h).length := hlen.symm
  refine { hi with keeps := hi.keeps.append hlen.ge cmd, place := ⟨?_, ?_⟩ }
  · rw [hcalls, hpublished, List.length_append, List.length_singleton]
  · rw [hcalls, hpublished]
    exact List.getElem?_concat_length

/-- **The hypervisor reads `CMDQ_CONS`**, at a place where nothing is half done. -/
theorem syncCons (hi : Inv h m) (hplace : m.place ≠ .setProd) :
    Inv (.look :: h) m.syncCons := by
  refine { hi with cons := hi.consReg, seen_le := le_rfl, published_le := ?_, place := ?_ }
  · exact hi.published_le.trans (Nat.add_le_add_right hi.seen_le _)
  · have hat := hi.place
    change At (.look :: h) m.syncCons m.place
    cases hp : m.place with
    | setProd => exact absurd hp hplace
    | _ =>
      rw [hp] at hat
      exact hat

/-- **A command is written** when the queue is not full. -/
theorem write (hi : Inv h m) (hplace : m.place = .full cmd) (hfull : m.cmdq.qFull = false) :
    Inv (.write :: h) { m with mem := m.cmdq.queueWrite cmd m.mem, place := .setProd } := by
  have hat := hi.place
  rw [hplace] at hat
  obtain ⟨hlen, hcmd⟩ := hat
  have hroom : published h < seen h + 2 ^ m.cmdq.maxNShift := by
    refine lt_of_le_of_ne hi.published_le fun heq => ?_
    have hcount : published h - seen h = 2 ^ m.cmdq.maxNShift := by
      rw [heq, Nat.add_sub_cancel_left]
    rw [hi.counts.1.mpr hcount] at hfull
    cases hfull
  have hkeeps : WrapRing.Keeps (m.cmdq.slots (m.cmdq.queueWrite cmd m.mem))
      (2 ^ m.cmdq.maxNShift) (calls h) (consumed h) (published h + 1) := by
    rw [FramedQueue.slots_queueWrite, hi.slot]
    exact hi.keeps.write (hroom.trans_le (Nat.add_le_add_right hi.seen_le _)) hcmd
  exact { hi with
    keeps := hkeeps.mono le_rfl (Nat.le_succ _)
    place := ⟨hlen, hroom, hkeeps⟩ }

/-- **The SMMU is told of a command.** -/
theorem publish (hi : Inv h m) (hplace : m.place = .setProd) :
    Inv (.publish :: h) { m with
      cmdq := { m.cmdq with toCmdQueue := m.cmdq.incProd }
      prodReg := m.cmdq.incProd.prod
      place := .wait } := by
  have hat := hi.place
  rw [hplace] at hat
  obtain ⟨hlen, hroom, hkeeps⟩ := hat
  have hprod : m.cmdq.incProd.prod = (published h + 1) % 2 ^ (m.cmdq.maxNShift + 1) := by
    have hlt : m.cmdq.prod < 2 ^ (m.cmdq.maxNShift + 1) := by
      rw [hi.prod]
      exact Nat.mod_lt _ (Nat.two_pow_pos _)
    rw [CmdQueue.incProd_prod hi.shift_lt hlt, hi.prod, Nat.mod_add_mod]
  exact { hi with
    prod := hprod
    prodReg := rfl
    consumed_le := hi.consumed_le.trans (Nat.le_succ _)
    published_le := hroom
    keeps := hkeeps
    place := hlen }

/-- **The SMMU consumes a command**, and may put anything above the wrap bit. -/
theorem consume (hi : Inv h m) (hne : m.position m.consReg ≠ m.position m.prodReg)
    (hreg : m.position reg = m.position (m.consReg + 1)) :
    Inv (.consume reg :: h) { m with consReg := reg } := by
  have hlt : consumed h < published h := by
    refine lt_of_le_of_ne hi.consumed_le fun heq => hne ?_
    rw [hi.prodReg]
    exact hi.consReg.trans (heq ▸ hi.prod_modEq.symm)
  refine { hi with
    consReg := hreg.trans (hi.consReg.add_right 1)
    seen_le := hi.seen_le.trans (Nat.le_succ _)
    consumed_le := hlt
    keeps := hi.keeps.mono (Nat.le_succ _) le_rfl
    place := ?_ }
  have hat := hi.place
  change At (.consume reg :: h) { m with consReg := reg } m.place
  cases hp : m.place with
  | setProd =>
    rw [hp] at hat
    exact ⟨hat.1, hat.2.1, hat.2.2.mono (Nat.le_succ _) le_rfl⟩
  | _ =>
    rw [hp] at hat
    exact hat

end Inv

theorem Initial.inv (h : Initial A m) : Inv [] m := by
  obtain ⟨s, q, s', idr1, mem, hnew, rfl⟩ := h
  obtain ⟨hprod, hcons, hsize⟩ := FramedQueue.new_eq_some hnew
  -- the size is that of the register or the greatest
  have hinit : ∃ shift ≤ CMDQ_MAX_SZ_SHIFT, initCmdq idr1 q mem =
      { cmdq := q.init shift, mem, baseReg := (q.init shift).baseReg, consReg := q.cons,
        prodReg := q.prod, place := .idle } := by
    rw [initCmdq]
    split_ifs with hmax
    · exact ⟨_, le_rfl, rfl⟩
    · exact ⟨_, Nat.le_of_not_lt hmax, rfl⟩
  obtain ⟨shift, hshift, heq⟩ := hinit
  rw [heq]
  exact {
    shift := hshift
    base := rfl
    size := hsize
    prod := hprod.trans (Nat.zero_mod _).symm
    prodReg := rfl
    cons := congrArg (· % _) hcons
    consReg := congrArg (· % _) hcons
    seen_le := le_rfl
    consumed_le := le_rfl
    published_le := Nat.zero_le _
    keeps := .of_le le_rfl
    place := rfl }

/-- A command is written where the loop of a full queue ends. -/
theorem step_write (hs : m.step .write = some m') : ∃ cmd, m.place = .full cmd ∧
    m.cmdq.qFull = false ∧
      m' = { m with mem := m.cmdq.queueWrite cmd m.mem, place := .setProd } := by
  simp only [step] at hs
  split at hs
  · next cmd hplace =>
    split_ifs at hs with hfull
    cases hs
    exact ⟨cmd, hplace, Bool.eq_false_iff.mpr hfull, rfl⟩
  · cases hs

/-- **A step** keeps the invariant. -/
theorem Inv.step {a : RingAct} (hi : Inv h m) (hs : m.step a = some m') : Inv (a :: h) m' := by
  cases a with
  | call cmd =>
    simp only [CmdRing.step] at hs
    split_ifs at hs with hplace
    cases hs
    exact hi.call hplace
  | look =>
    simp only [CmdRing.step] at hs
    -- in the loop of a full queue, or in that of one that is not empty
    split at hs
    · next hplace =>
      split_ifs at hs
      cases hs
      exact hi.syncCons (by rw [hplace]; exact InsertPlace.noConfusion)
    · next hplace =>
      split_ifs at hs
      cases hs
      exact hi.syncCons (by rw [hplace]; exact InsertPlace.noConfusion)
    · cases hs
  | write =>
    obtain ⟨cmd, hplace, hfull, rfl⟩ := step_write hs
    exact hi.write hplace hfull
  | publish =>
    simp only [CmdRing.step] at hs
    split at hs
    · next hplace =>
      cases hs
      exact hi.publish hplace
    · cases hs
  | ret =>
    simp only [CmdRing.step] at hs
    split at hs
    · next hplace =>
      split_ifs at hs
      cases hs
      have hat := hi.place
      rw [hplace] at hat
      exact { hi with place := hat }
    · cases hs
  | consume reg =>
    simp only [CmdRing.step] at hs
    split_ifs at hs with hreg
    cases hs
    exact hi.consume hreg.1 hreg.2.1

theorem inv_of_run (r : (system A).Run h m) : Inv h m :=
  r.invariant (fun _ => Initial.inv) fun _ _ _ _ _ hi hs => hi.step hs

/-! ## The arithmetic -/

/-- The queue after a look at `CMDQ_CONS`, which may be taken at any place. -/
theorem Inv.counts_syncCons (hi : Inv h m) :
    (m.syncCons.cmdq.qFull = true ↔ published h - consumed h = 2 ^ m.cmdq.maxNShift) ∧
      (m.syncCons.cmdq.qEmpty = true ↔ published h - consumed h = 0) := by
  have hle : published h ≤ consumed h + 2 ^ m.cmdq.maxNShift :=
    hi.published_le.trans (Nat.add_le_add_right hi.seen_le _)
  exact m.syncCons.cmdq.countsExact _ _ hi.prod_modEq hi.consReg hi.consumed_le hle

/-- **The write of a command** goes to the slot of the producer. -/
theorem Inv.written (hi : Inv h m) (hs : m.step .write = some m') : Written h m m' := by
  obtain ⟨cmd, hplace, hfull, rfl⟩ := step_write hs
  obtain ⟨-, hroom, hkeeps⟩ := (hi.write hplace hfull).place
  have hentry : m.cmdq.queueEntry m.cmdq.prod = m.nextEntry := by
    rw [FramedQueue.queueEntry_eq, hi.base, nextEntry]
  refine ⟨?_, fun a h₀ h₈ => ?_, ?_, fun i hc hlt => ?_⟩
  · have hlast := hkeeps (published h) hi.consumed_le (Nat.lt_succ_self _)
    rw [← hi.slot, FramedQueue.slots, hi.base] at hlast
    exact hlast
  · exact FramedQueue.queueWrite_of_ne (hentry ▸ h₀) (hentry ▸ h₈)
  · -- at most 256 entries of 16 bytes
    have hslot : m.cmdq.prod % 2 ^ m.cmdq.maxNShift < 2 ^ m.cmdq.maxNShift :=
      Nat.mod_lt _ (Nat.two_pow_pos _)
    have hslots : 2 ^ m.cmdq.maxNShift ≤ 2 ^ 8 := Nat.pow_le_pow_right Nat.two_pos hi.shift
    have hlt : m.cmdq.prod % 2 ^ m.cmdq.maxNShift < 256 := hslot.trans_le hslots
    rw [hi.size, pageSize, nextEntry, CMDQ_ENT_SIZE, CMDQ_ENT_DWORDS]
    omega
  · rw [hi.slot]
    exact WrapRing.slot_ne hc hlt (hroom.trans_le (Nat.add_le_add_right hi.seen_le _))

/-- **The SMMU consumes the commands in the order of the calls**: the one in the slot of
`CMDQ_CONS` is the next. -/
theorem command_of_consume (r : (system A).Run h m) (hs : m.step (.consume reg) = some m') :
    (calls h)[consumed h]? = some (m.cmdq.slots m.mem (m.consReg % 2 ^ m.cmdq.maxNShift)) := by
  have hi := inv_of_run r
  have hnext := (hi.step hs).consumed_le
  have hslot : m.consReg % 2 ^ m.cmdq.maxNShift = consumed h % 2 ^ m.cmdq.maxNShift :=
    hi.consReg.of_dvd (Nat.pow_dvd_pow 2 (Nat.le_succ _))
  rw [hslot]
  exact hi.keeps (consumed h) le_rfl hnext

/-- **The arithmetic of the ring is exact in every run** of `cmd_insert` and the SMMU. -/
theorem cmdRing_exact (r : (system A).Run h m) : Exact h m := by
  have hi := inv_of_run r
  exact {
    registers := fun q hq => ⟨CmdQueue.incProdExact (hq ▸ hi.shift_lt), q.countsExact⟩
    prod := hi.prod_modEq
    consumed_le := hi.consumed_le
    seen_le := hi.seen_le
    qFull := hi.counts.1
    qEmpty := hi.counts.2
    qFull_syncCons := hi.counts_syncCons.1
    qEmpty_syncCons := hi.counts_syncCons.2
    write := fun m' hs => hi.written hs
    keeps := hi.keeps }

/-- One free page. -/
def onePage : FrameState {F : Finset Nat // F ⊆ Finset.range 1} :=
  ⟨⟨0x40000000, ⟨{0}, by decide⟩⟩, fun _ => 0⟩

/-- Two commands in a queue of one slot, which is full each time; the SMMU reports an error with the
second one. -/
def twoCommands : List RingAct :=
  [.call CmdQueue.buildSyncCmd, .write, .publish, .consume 1, .look, .ret,
    .call (CmdQueue.buildCfgiCmd 5), .write, .publish, .look, .consume 0x1000000]

theorem cmdRing_exact_two : ∃ h m, (system (FirstFit.bitmap 1)).Run h m ∧ published h = 2 ∧
    consumed h = 2 ∧ seen h = 1 ∧ m.consReg = 0x1000000 ∧ Exact h m := by
  have hex : ∃ q s' m, FramedQueue.new (FirstFit.bitmap 1) onePage = some (q, s') ∧
      TransitionSystem.exec step (fun _ _ => true) twoCommands (initCmdq 0 q fun _ => 0) = some m ∧
        m.consReg = 0x1000000 := ⟨_, _, _, rfl, rfl, rfl⟩
  obtain ⟨q, s', m, hnew, he, hreg⟩ := hex
  have r := TransitionSystem.Run.exec (S := system (FirstFit.bitmap 1)) step (fun _ _ => true)
    (fun _ _ _ _ hs => hs) (.start ⟨_, q, s', 0, fun _ => 0, hnew, rfl⟩) he
  exact ⟨_, m, r, rfl, rfl, rfl, hreg, cmdRing_exact r⟩

end CmdRing

end Hvisor
