import Hvisor.Arch.StreamTable

/-!
# The invalidation of cached stream table entries

The steps of `iommu_add_device` and those of the SMMU next to them, from aarch64's `iommu.rs`. The
SMMU may keep a stream table entry that it has read until it executes a `CFGI_STE` command for it.
The call has this command executed, waits, and only then writes the words of the entry.

## Main definitions

* `CmdQueue`, `Cmd`: the command queue as the hypervisor keeps it, and the commands
* `Smmuv3`, `Smmuv3.step`: an SMMU with its cache, and the steps of a call and of the SMMU
* `Smmuv3.target`: what the entry of a stream id will be after the call
* `Smmuv3.NoEarlyFetch`: no entry is kept between its invalidation and its change

## Main results

* `Smmuv3.final_eq_write`: the three words that a call writes are the assignment
* `Smmuv3.content_of_run`: outside of a call for it, a stream id is translated by its current entry
-/

namespace Hvisor

/-- The opcode of `CMD_SYNC`. -/
def CMDQ_OP_CMD_SYNC : Nat := 0x46
/-- The offset of the shareability in it. -/
def CMDQ_SYNC_0_MSH_OFF : Nat := 22
/-- The offset of the memory attributes in it. -/
def CMDQ_SYNC_0_MSI_ATTR_OFF : Nat := 24
/-- Inner shareable. -/
def SH_ISH : Nat := 3
/-- Outer and inner write-back. -/
def MEMATTR_OIWB : Nat := 0xf
/-- The opcode of `CMD_CFGI_STE`. -/
def CMDQ_OP_CFGI_STE : Nat := 3
/-- The offset of the stream in it. -/
def CMDQ_CFGI_0_SID_OFF : Nat := 32
/-- Only the last level is invalidated. -/
def CMDQ_CFGI_1_LEAF : Nat := 1

/-- The words of a command. -/
abbrev Cmd := Nat × Nat

/-- The indices of the command queue, as the hypervisor has them. -/
structure CmdQueue where
  prod : Nat
  cons : Nat
  maxNShift : Nat

namespace CmdQueue

/-- The slot that an index names. -/
def qIdx (q : CmdQueue) (reg : Nat) : Nat := reg &&& ((1 <<< q.maxNShift) - 1)

/-- The wrap bit of an index. -/
def qWrap (q : CmdQueue) (reg : Nat) : Nat := reg &&& (1 <<< q.maxNShift)

/-- The overflow bit of an index. -/
def qOvf (reg : Nat) : Nat := reg &&& (1 <<< 31)

/-- The indices say that nothing is queued. -/
def qEmpty (q : CmdQueue) : Bool :=
  q.qIdx q.prod == q.qIdx q.cons && q.qWrap q.prod == q.qWrap q.cons

/-- The indices say that no slot is free. -/
def qFull (q : CmdQueue) : Bool :=
  q.qIdx q.prod == q.qIdx q.cons && q.qWrap q.prod != q.qWrap q.cons

/-- The index of the consumer, as it is read from the SMMU. -/
def syncCons (q : CmdQueue) (cons : Nat) : CmdQueue := { q with cons := cons }

/-- The index of the producer after one more command. -/
def incProd (q : CmdQueue) : CmdQueue :=
  let prod := (q.qWrap q.prod ||| q.qIdx q.prod) + 1
  { q with prod := qOvf q.prod ||| q.qWrap prod ||| q.qIdx prod }

/-- `CMD_SYNC`. -/
def buildSyncCmd : Cmd :=
  (CMDQ_OP_CMD_SYNC ||| SH_ISH <<< CMDQ_SYNC_0_MSH_OFF |||
    MEMATTR_OIWB <<< CMDQ_SYNC_0_MSI_ATTR_OFF, 0)

/-- `CMD_CFGI_STE` for a stream. -/
def buildCfgiCmd (sid : Nat) : Cmd :=
  ((sid <<< CMDQ_CFGI_0_SID_OFF) % 2 ^ 64 ||| CMDQ_OP_CFGI_STE, CMDQ_CFGI_1_LEAF)

/-! ## The indices -/

variable {q : CmdQueue} {reg : Nat}

theorem qIdx_eq (q : CmdQueue) (reg : Nat) : q.qIdx reg = reg % 2 ^ q.maxNShift := by
  rw [qIdx, Nat.one_shiftLeft, BitMask.and_low]

theorem testBit_qWrap (q : CmdQueue) (reg i : Nat) :
    (q.qWrap reg).testBit i = (decide (q.maxNShift = i) && reg.testBit i) := by
  rw [qWrap, Nat.one_shiftLeft, Nat.testBit_and, Nat.testBit_two_pow, Bool.and_comm]

/-- An index with its wrap bit is all that counts of a register. -/
theorem wrap_or_idx (q : CmdQueue) (reg : Nat) :
    q.qWrap reg ||| q.qIdx reg = reg % 2 ^ (q.maxNShift + 1) := by
  refine Nat.eq_of_testBit_eq fun i => ?_
  rw [Nat.testBit_or, testBit_qWrap, qIdx_eq, Nat.testBit_mod_two_pow, Nat.testBit_mod_two_pow]
  grind

theorem testBit_qOvf (reg i : Nat) : (qOvf reg).testBit i = (decide (31 = i) && reg.testBit i) := by
  rw [qOvf, Nat.one_shiftLeft, Nat.testBit_and, Nat.testBit_two_pow, Bool.and_comm]

/-- The producer's register after an insertion. -/
theorem incProd_prod_eq (q : CmdQueue) : q.incProd.prod =
    qOvf q.prod ||| (q.prod + 1) % 2 ^ (q.maxNShift + 1) := by
  have hnext : q.incProd.prod = qOvf q.prod |||
      (q.qWrap ((q.qWrap q.prod ||| q.qIdx q.prod) + 1) |||
        q.qIdx ((q.qWrap q.prod ||| q.qIdx q.prod) + 1)) := Nat.lor_assoc ..
  rw [hnext, wrap_or_idx, wrap_or_idx, Nat.mod_add_mod]

theorem incProd_prod (hn : q.maxNShift < 31) (hlt : q.prod < 2 ^ (q.maxNShift + 1)) :
    q.incProd.prod = (q.prod + 1) % 2 ^ (q.maxNShift + 1) := by
  have hovf : qOvf q.prod = 0 := by
    refine Nat.eq_of_testBit_eq fun i => ?_
    have hle : 2 ^ (q.maxNShift + 1) ≤ 2 ^ 31 := Nat.pow_le_pow_right Nat.two_pos hn
    rw [testBit_qOvf, Nat.zero_testBit]
    by_cases hi : 31 = i
    · rw [← hi, Nat.testBit_lt_two_pow (hlt.trans_le hle), Bool.and_false]
    · rw [decide_eq_false hi, Bool.false_and]
  rw [incProd_prod_eq, hovf, Nat.zero_or]

theorem qEmpty_iff (hprod : q.prod < 2 ^ (q.maxNShift + 1))
    (hcons : q.cons < 2 ^ (q.maxNShift + 1)) : q.qEmpty = true ↔ q.prod = q.cons := by
  rw [qEmpty, Bool.and_eq_true, beq_iff_eq, beq_iff_eq]
  refine ⟨fun h => ?_, fun h => by rw [h]; exact ⟨rfl, rfl⟩⟩
  rw [← Nat.mod_eq_of_lt hprod, ← Nat.mod_eq_of_lt hcons, ← wrap_or_idx, ← wrap_or_idx, h.1, h.2]

theorem qFull_of_eq (h : q.cons = q.prod) : q.qFull = false := by
  rw [qFull, h, bne_self_eq_false, Bool.and_false]

end CmdQueue

/-! ## Commands -/

/-- The commands that a call inserts, in this order. -/
inductive Insertion where
  | cfgi
  | sync
  deriving DecidableEq

/-- The command of an insertion. -/
def Insertion.cmd (k : Insertion) (sid : Nat) : Cmd :=
  match k with
  | .cfgi => CmdQueue.buildCfgiCmd sid
  | .sync => CmdQueue.buildSyncCmd

/-- The stream id whose entry a command invalidates, as an SMMUv3 reads it. -/
def Cmd.invalidates (cmd : Cmd) : Option Nat :=
  if BitMask.field cmd.1 0 8 = CMDQ_OP_CFGI_STE then some (BitMask.field cmd.1 32 32) else none

theorem invalidates_cfgi {sid : Nat} (hsid : sid < 2 ^ 32) :
    (Insertion.cfgi.cmd sid).invalidates = some sid := by
  have hword : (sid <<< CMDQ_CFGI_0_SID_OFF) % 2 ^ 64 = sid <<< 32 := by
    rw [CMDQ_CFGI_0_SID_OFF, Nat.shiftLeft_eq]
    exact Nat.mod_eq_of_lt (by omega)
  have hop : BitMask.field (sid <<< 32) 0 8 = 0 := by
    rw [BitMask.field, Nat.shiftLeft_eq]
    omega
  have hcmd : (Insertion.cfgi.cmd sid).1 = sid <<< 32 ||| CMDQ_OP_CFGI_STE := by
    rw [← hword]
    rfl
  rw [Cmd.invalidates, hcmd, BitMask.field_or, BitMask.field_or, hop,
    BitMask.field_shiftLeft hsid, if_pos (by decide)]
  exact congrArg some (Nat.or_zero sid)

theorem invalidates_sync (sid : Nat) : (Insertion.sync.cmd sid).invalidates = none := by
  have hcmd : Insertion.sync.cmd sid = CmdQueue.buildSyncCmd := rfl
  rw [hcmd]
  decide

/-! ## The machine -/

/-- Where a call is: in `cmd_insert`, before the assertion, or before the write of a word. -/
inductive AddStage where
  /-- Before the loop while the queue is full. -/
  | full (k : Insertion)
  | queueWrite (k : Insertion)
  | setProd (k : Insertion)
  /-- In the loop until the queue is empty. -/
  | wait (k : Insertion)
  | check
  | word0
  | word2
  | word3
  deriving DecidableEq

/-- What the lock holder does. -/
inductive AddPlace where
  | idle
  | call (stage : AddStage) (vmid sid : Nat)
  deriving DecidableEq

/-- An SMMU: its table, the queue of commands with the registers, the entries that it keeps; and
where the hypervisor is in `iommu_add_device`. -/
structure Smmuv3 where
  strtab : Smmu
  cmdq : CmdQueue
  queue : Nat → Cmd
  prodReg : Nat
  consReg : Nat
  cache : Nat → Option StreamTableEntry
  place : AddPlace

/-- What happens: the hypervisor begins a call or goes on with it; the SMMU executes a command,
translates for a stream id, where it may keep what it reads, or drops an entry. -/
inductive SmmuAct where
  | call (vmid sid : Nat)
  | cpu
  | consume
  | translate (sid : Nat) (keep : Bool)
  | evict (sid : Nat)

/-- The write of one word of an entry. -/
def StreamTableEntry.writeWord (tab : StreamTableEntry) (vmid rootPt : Nat)
    (word : Fin STRTAB_STE_DWORDS) : StreamTableEntry :=
  Function.update tab word (tab word ||| steBits vmid rootPt word)

namespace Smmuv3

/-- The call goes on at a stage. -/
def goto (m : Smmuv3) (stage : AddStage) (vmid sid : Nat) : Smmuv3 :=
  { m with place := .call stage vmid sid }

/-- A word of the entry is written. -/
def writeWord (m : Smmuv3) (vmid sid : Nat) (word : Fin STRTAB_STE_DWORDS) : Smmuv3 :=
  let tab := (m.strtab.ste sid).writeWord vmid (m.strtab.rootPaddr vmid) word
  { m with strtab := { m.strtab with ste := Function.update m.strtab.ste sid tab } }

/-- A step of the hypervisor, which is in a call. -/
def cpuStep (m : Smmuv3) (stage : AddStage) (vmid sid : Nat) : Option Smmuv3 :=
  match stage with
  | .full k =>
    if m.cmdq.qFull then some { m with cmdq := m.cmdq.syncCons m.consReg }
    else some (m.goto (.queueWrite k) vmid sid)
  | .queueWrite k =>
    let queue := Function.update m.queue (m.cmdq.qIdx m.cmdq.prod) (k.cmd sid)
    some (goto { m with queue := queue } (.setProd k) vmid sid)
  | .setProd k =>
    let cmdq := m.cmdq.incProd
    some (goto { m with cmdq := cmdq, prodReg := cmdq.prod } (.wait k) vmid sid)
  | .wait k =>
    if m.cmdq.qEmpty then
      match k with
      | .cfgi => some (m.goto (.full .sync) vmid sid)
      | .sync => some (m.goto .check vmid sid)
    else some { m with cmdq := m.cmdq.syncCons m.consReg }
  | .check => if vmid < MAX_ZONE_NUM then some (m.goto .word0 vmid sid) else none
  | .word0 => some ((m.writeWord vmid sid 0).goto .word2 vmid sid)
  | .word2 => some ((m.writeWord vmid sid 2).goto .word3 vmid sid)
  | .word3 => some { m.writeWord vmid sid 3 with place := .idle }

/-- The SMMU keeps an entry, or drops it. -/
def setCache (m : Smmuv3) (sid : Nat) (tab : Option StreamTableEntry) : Smmuv3 :=
  { m with cache := Function.update m.cache sid tab }

/-- The SMMU executes a command. -/
def execute (m : Smmuv3) (cmd : Cmd) : Smmuv3 :=
  match cmd.invalidates with
  | some sid => m.setCache sid none
  | none => m

/-- The SMMU executes the command at its index, when there is one. -/
def consume (m : Smmuv3) : Option Smmuv3 :=
  if m.consReg = m.prodReg then none
  else
    some (execute { m with consReg := (m.consReg + 1) % 2 ^ (m.cmdq.maxNShift + 1) }
      (m.queue (m.consReg % 2 ^ m.cmdq.maxNShift)))

/-- The entry that a stream id is translated by. -/
def content (m : Smmuv3) (sid : Nat) : StreamTableEntry :=
  (m.cache sid).getD (m.strtab.ste sid)

/-- A step of the hypervisor or of the SMMU. -/
def step (m : Smmuv3) : SmmuAct → Option Smmuv3
  | .call vmid sid =>
    if m.place = .idle ∧ sid < 2 ^ 32 then some (m.goto (.full .cfgi) vmid sid) else none
  | .cpu =>
    match m.place with
    | .idle => none
    | .call stage vmid sid => m.cpuStep stage vmid sid
  | .consume => m.consume
  | .translate sid keep =>
    some (if keep then m.setCache sid (some (m.content sid)) else m)
  | .evict sid => some (m.setCache sid none)

/-! ## What an entry will be -/

/-- The words that are still to be written. -/
def rest : AddStage → List (Fin STRTAB_STE_DWORDS)
  | .word2 => [2, 3]
  | .word3 => [3]
  | _ => [0, 2, 3]

/-- The entry of the call's stream id after the call. -/
def final (m : Smmuv3) (stage : AddStage) (vmid sid : Nat) : StreamTableEntry :=
  (rest stage).foldl (fun tab word => tab.writeWord vmid (m.strtab.rootPaddr vmid) word)
    (m.strtab.ste sid)

/-- The entry of the call's stream id has been invalidated. -/
def Invalidated (m : Smmuv3) : AddStage → Prop
  | .full .cfgi | .queueWrite .cfgi | .setProd .cfgi => False
  | .wait .cfgi => m.consReg = m.prodReg
  | _ => True

instance (m : Smmuv3) (stage : AddStage) : Decidable (m.Invalidated stage) := by
  unfold Invalidated
  split <;> infer_instance

/-- What the entry of a stream id will be when nothing invalidates it any more. -/
def target (m : Smmuv3) (sid : Nat) : StreamTableEntry :=
  match m.place with
  | .idle => m.strtab.ste sid
  | .call stage vmid sid' =>
    if sid' = sid ∧ m.Invalidated stage then m.final stage vmid sid else m.strtab.ste sid

variable {m m' : Smmuv3} {stage : AddStage} {vmid sid : Nat} {k : Insertion} {cmd : Cmd}

/-- The three writes of a call are the assignment. -/
theorem final_eq_write (m : Smmuv3) (hstage : rest stage = [0, 2, 3]) : m.final stage vmid sid =
    (m.strtab.ste sid).write vmid (m.strtab.rootPaddr vmid) := by
  rw [final, hstage]
  funext ⟨word, hword⟩
  have hlt : word < 8 := hword
  -- a word that is not written gets no bits
  interval_cases word <;> first | rfl | exact (Nat.or_zero _).symm

/-! ## The invariant -/

/-- No command waits, and the hypervisor knows it. -/
structure Drained (m : Smmuv3) : Prop where
  cons : m.cmdq.cons = m.cmdq.prod
  consReg : m.consReg = m.cmdq.prod

/-- The command is the only one in the queue, or it has been executed. -/
inductive WaitsFor (m : Smmuv3) (cmd : Cmd) : Prop
  | queued (hprod : m.cmdq.prod = (m.consReg + 1) % 2 ^ (m.cmdq.maxNShift + 1))
      (hcons : m.cmdq.cons = m.consReg) (hcmd : m.queue (m.consReg % 2 ^ m.cmdq.maxNShift) = cmd)
  | executed (hreg : m.consReg = m.cmdq.prod)

/-- What is in the queue, at each place of a call. -/
def RingAt (m : Smmuv3) : AddPlace → Prop
  | .call (.setProd k) _ sid => m.Drained ∧ m.queue (m.cmdq.qIdx m.cmdq.prod) = k.cmd sid
  | .call (.wait k) _ sid => m.WaitsFor (k.cmd sid)
  | _ => m.Drained

theorem Drained.congr (h : m.Drained) (hcmdq : m'.cmdq = m.cmdq) (hreg : m'.consReg = m.consReg) :
    m'.Drained :=
  ⟨by rw [hcmdq]; exact h.cons, by rw [hcmdq, hreg]; exact h.consReg⟩

/-- The place in the queue is the same when neither the queue nor its indices change. -/
theorem RingAt.congr {place : AddPlace} (h : m.RingAt place) (hcmdq : m'.cmdq = m.cmdq)
    (hqueue : m'.queue = m.queue) (hreg : m'.consReg = m.consReg) : m'.RingAt place := by
  cases place with
  | idle => exact Drained.congr h hcmdq hreg
  | call stage vmid sid =>
    cases stage with
    | setProd k => exact ⟨h.1.congr hcmdq hreg, by rw [hqueue, hcmdq]; exact h.2⟩
    | wait k =>
      cases h with
      | queued hprod hcons hcmd =>
        exact .queued (by rw [hcmdq, hreg]; exact hprod) (by rw [hcmdq, hreg]; exact hcons)
          (by rw [hqueue, hcmdq, hreg]; exact hcmd)
      | executed hdone => exact .executed (by rw [hcmdq, hreg]; exact hdone)
    | _ => exact Drained.congr h hcmdq hreg

/-- The queue, and the entries that the SMMU keeps. -/
structure Inv (m : Smmuv3) : Prop where
  shift : m.cmdq.maxNShift < 31
  prodReg : m.prodReg = m.cmdq.prod
  prod : m.cmdq.prod < 2 ^ (m.cmdq.maxNShift + 1)
  cons : m.cmdq.cons < 2 ^ (m.cmdq.maxNShift + 1)
  consReg : m.consReg < 2 ^ (m.cmdq.maxNShift + 1)
  sid : ∀ stage vmid sid, m.place = .call stage vmid sid → sid < 2 ^ 32
  ring : m.RingAt m.place
  cache : ∀ sid tab, m.cache sid = some tab → tab = m.target sid

theorem succ_mod_ne {c n : Nat} (hc : c < 2 ^ (n + 1)) : (c + 1) % 2 ^ (n + 1) ≠ c := by
  have hle : 2 ^ 1 ≤ 2 ^ (n + 1) := Nat.pow_le_pow_right Nat.two_pos (Nat.le_add_left 1 n)
  rcases Nat.lt_or_ge (c + 1) (2 ^ (n + 1)) with hlt | hge
  · rw [Nat.mod_eq_of_lt hlt]
    exact Nat.succ_ne_self c
  · have hmax : c + 1 = 2 ^ (n + 1) := Nat.le_antisymm hc hge
    rw [hmax, Nat.mod_self]
    omega

/-- A queue with a command in it does not look empty. -/
theorem WaitsFor.executed_of_qEmpty (h : m.Inv) (hw : m.WaitsFor cmd)
    (hempty : m.cmdq.qEmpty = true) : m.consReg = m.cmdq.prod ∧ m.cmdq.cons = m.cmdq.prod := by
  have hcons := (CmdQueue.qEmpty_iff h.prod h.cons).mp hempty
  cases hw with
  | queued hprod hlocal _ =>
    rw [hlocal, hprod] at hcons
    exact absurd hcons (succ_mod_ne h.consReg)
  | executed hreg => exact ⟨hreg, hcons.symm⟩

/-- Where the hypervisor goes on without a change of the table, the queue's registers or what it has
invalidated. -/
theorem target_goto (hplace : m.place = .call stage vmid sid) {stage' : AddStage}
    (hinv : m.Invalidated stage' ↔ m.Invalidated stage) (hrest : rest stage' = rest stage)
    (sid' : Nat) : (m.goto stage' vmid sid).target sid' = m.target sid' := by
  have hfinal : (m.goto stage' vmid sid).final stage' vmid sid' = m.final stage vmid sid' := by
    rw [final, final, hrest]
    rfl
  have hinv' : (m.goto stage' vmid sid).Invalidated stage' ↔ m.Invalidated stage := hinv
  simp only [target, hplace, goto]
  simp only [goto] at hfinal hinv'
  simp only [hfinal, hinv']

theorem Inv.goto (h : m.Inv) (hplace : m.place = .call stage vmid sid) (stage' : AddStage)
    (hinv : m.Invalidated stage' ↔ m.Invalidated stage) (hrest : rest stage' = rest stage)
    (hring : m.RingAt (.call stage' vmid sid)) : (m.goto stage' vmid sid).Inv where
  shift := h.shift
  prodReg := h.prodReg
  prod := h.prod
  cons := h.cons
  consReg := h.consReg
  sid := by
    rintro _ _ _ ⟨⟩
    exact h.sid _ _ _ hplace
  ring := hring.congr rfl rfl rfl
  cache sid' tab hc := by
    rw [target_goto hplace hinv hrest]
    exact h.cache sid' tab hc

/-- The command is written to the next place of the queue, which is empty. -/
theorem Inv.queueWrite (h : m.Inv) (hplace : m.place = .call (.queueWrite k) vmid sid)
    (queue : Nat → Cmd) : Inv { m with queue := queue } :=
  ⟨h.shift, h.prodReg, h.prod, h.cons, h.consReg, h.sid, by
    have hring := h.ring
    rw [hplace] at hring
    rw [hplace]
    exact Drained.congr hring rfl rfl, h.cache⟩

/-- The command becomes visible to the SMMU. -/
theorem Inv.setProd (h : m.Inv) (hplace : m.place = .call (.setProd k) vmid sid) :
    (Smmuv3.goto { m with cmdq := m.cmdq.incProd, prodReg := m.cmdq.incProd.prod } (.wait k)
      vmid sid).Inv := by
  have hprod := CmdQueue.incProd_prod h.shift h.prod
  have hring := h.ring
  rw [hplace] at hring
  obtain ⟨⟨hcons, hreg⟩, hcmd⟩ := hring
  have hlt : m.cmdq.incProd.prod < 2 ^ (m.cmdq.maxNShift + 1) := by
    rw [hprod]
    exact Nat.mod_lt _ (Nat.two_pow_pos _)
  refine ⟨h.shift, rfl, hlt, h.cons, h.consReg, ?_, .queued ?_ ?_ ?_, fun sid' tab hc => ?_⟩
  · rintro _ _ _ ⟨⟩
    exact h.sid _ _ _ hplace
  · exact hreg ▸ hprod
  · exact hcons.trans hreg.symm
  · rw [CmdQueue.qIdx_eq, ← hreg] at hcmd
    exact hcmd
  · -- the invalidation is not executed before it is visible
    have hne : ¬ m.consReg = m.cmdq.incProd.prod := by
      rw [hprod, ← hreg]
      exact (succ_mod_ne h.consReg).symm
    have htarget := h.cache sid' tab hc
    rw [htarget]
    cases k with
    | cfgi => simp [target, hplace, Smmuv3.goto, Invalidated, hne]
    | sync => simp [target, hplace, Smmuv3.goto, Invalidated, final, rest]

/-- The hypervisor looks at the queue again. -/
theorem Inv.syncCons (h : m.Inv) (hplace : m.place = .call (.wait k) vmid sid) :
    Inv { m with cmdq := m.cmdq.syncCons m.consReg } := by
  have hring := h.ring
  rw [hplace] at hring
  refine ⟨h.shift, h.prodReg, h.prod, h.consReg, h.consReg, h.sid, ?_, h.cache⟩
  rw [hplace]
  cases hring with
  | queued hprod hcons hcmd => exact .queued hprod rfl hcmd
  | executed hreg => exact .executed hreg

/-- A word of the entry is written, after which others follow. -/
theorem target_writeWord {word : Fin STRTAB_STE_DWORDS} {words : List (Fin STRTAB_STE_DWORDS)}
    (hplace : m.place = .call stage vmid sid) (hinv : m.Invalidated stage)
    (hrest : rest stage = word :: words) (sid' : Nat) :
    m.target sid' = if sid = sid' then
      words.foldl (fun tab word => tab.writeWord vmid (m.strtab.rootPaddr vmid) word)
        ((m.strtab.ste sid').writeWord vmid (m.strtab.rootPaddr vmid) word)
      else (m.writeWord vmid sid word).strtab.ste sid' := by
  simp only [target, hplace, hinv, and_true]
  split_ifs with hsid
  · rw [final, hrest, List.foldl_cons]
  · exact (Function.update_of_ne (Ne.symm hsid) _ _).symm

/-- A word of the entry is written, after which the hypervisor is at a place of an empty queue. -/
theorem Inv.writeWord {word : Fin STRTAB_STE_DWORDS} {words : List (Fin STRTAB_STE_DWORDS)}
    (h : m.Inv) (hplace : m.place = .call stage vmid sid) (hinv : m.Invalidated stage)
    (hrest : rest stage = word :: words) (place : AddPlace) (hring : m.RingAt place)
    (hsid : ∀ stage vmid sid, place = .call stage vmid sid → sid < 2 ^ 32)
    (htarget : ∀ sid', target { m.writeWord vmid sid word with place := place } sid' =
      if sid = sid' then
        words.foldl (fun tab word => tab.writeWord vmid (m.strtab.rootPaddr vmid) word)
          ((m.writeWord vmid sid word).strtab.ste sid')
      else (m.writeWord vmid sid word).strtab.ste sid') :
    Inv { m.writeWord vmid sid word with place := place } := by
  refine ⟨h.shift, h.prodReg, h.prod, h.cons, h.consReg, hsid, hring.congr rfl rfl rfl,
    fun sid' tab hc => ?_⟩
  rw [h.cache sid' tab hc, target_writeWord hplace hinv hrest, htarget]
  have hself : (m.writeWord vmid sid word).strtab.ste sid =
      (m.strtab.ste sid).writeWord vmid (m.strtab.rootPaddr vmid) word :=
    Function.update_self _ _ _
  split_ifs with heq
  · rw [← heq, hself]
  · rfl

/-- **A step of the hypervisor** keeps the invariant. -/
theorem Inv.cpuStep (h : m.Inv) (hplace : m.place = .call stage vmid sid)
    (hs : m.cpuStep stage vmid sid = some m') : m'.Inv := by
  have hring := h.ring
  rw [hplace] at hring
  -- a command is written, published and waited for; then the words of the entry follow
  cases stage with
  | full k =>
    have hfull : m.cmdq.qFull = false := CmdQueue.qFull_of_eq (Drained.cons hring)
    simp only [Smmuv3.cpuStep, hfull, Bool.false_eq_true, if_false, Option.some.injEq] at hs
    subst hs
    exact h.goto hplace (.queueWrite k) (by cases k <;> exact Iff.rfl) rfl hring
  | queueWrite k =>
    cases hs
    have hwritten := h.queueWrite hplace
      (Function.update m.queue (m.cmdq.qIdx m.cmdq.prod) (k.cmd sid))
    refine hwritten.goto hplace (.setProd k) (by cases k <;> exact Iff.rfl) rfl
      ⟨Drained.congr hring rfl rfl, ?_⟩
    exact Function.update_self _ _ _
  | setProd k =>
    cases hs
    exact h.setProd hplace
  | wait k =>
    simp only [Smmuv3.cpuStep] at hs
    split_ifs at hs with hempty
    · -- an empty queue says that the command was executed
      obtain ⟨hreg, hcons⟩ := WaitsFor.executed_of_qEmpty h hring hempty
      have hdone : m.Invalidated (.wait .cfgi) := hreg.trans h.prodReg.symm
      cases k with
      | cfgi =>
        cases hs
        exact h.goto hplace (.full .sync) (iff_of_true trivial hdone) rfl ⟨hcons, hreg⟩
      | sync =>
        cases hs
        exact h.goto hplace .check Iff.rfl rfl ⟨hcons, hreg⟩
    · cases hs
      exact h.syncCons hplace
  | check =>
    simp only [Smmuv3.cpuStep] at hs
    split_ifs at hs
    cases hs
    exact h.goto hplace .word0 Iff.rfl rfl hring
  | word0 =>
    cases hs
    refine h.writeWord hplace trivial rfl (.call .word2 vmid sid) hring ?_ fun sid' => ?_
    · rintro _ _ _ ⟨⟩
      exact h.sid _ _ _ hplace
    · simp only [target, Invalidated, and_true]
      rfl
  | word2 =>
    cases hs
    refine h.writeWord hplace trivial rfl (.call .word3 vmid sid) hring ?_ fun sid' => ?_
    · rintro _ _ _ ⟨⟩
      exact h.sid _ _ _ hplace
    · simp only [target, Invalidated, and_true]
      rfl
  | word3 =>
    cases hs
    refine h.writeWord hplace trivial rfl .idle hring nofun fun sid' => ?_
    rw [target, List.foldl_nil, ite_self]

/-- The command that the SMMU executes is the one that the hypervisor waits for. -/
theorem queued_of_consume (h : m.Inv) (hne : m.consReg ≠ m.prodReg) :
    ∃ k vmid sid, m.place = .call (.wait k) vmid sid ∧
      m.cmdq.prod = (m.consReg + 1) % 2 ^ (m.cmdq.maxNShift + 1) ∧
      m.queue (m.consReg % 2 ^ m.cmdq.maxNShift) = k.cmd sid := by
  have hring := h.ring
  rw [h.prodReg] at hne
  cases hplace : m.place with
  | idle =>
    rw [hplace] at hring
    exact absurd (Drained.consReg hring) hne
  | call stage vmid sid =>
    rw [hplace] at hring
    cases stage with
    | wait k =>
      cases hring with
      | queued hprod _ hcmd => exact ⟨k, vmid, sid, rfl, hprod, hcmd⟩
      | executed hreg => exact absurd hreg hne
    | setProd k => exact absurd (Drained.consReg hring.1) hne
    | _ => exact absurd (Drained.consReg hring) hne

theorem cache_setCache_self (m : Smmuv3) (sid : Nat) (tab : Option StreamTableEntry) :
    (m.setCache sid tab).cache sid = tab :=
  Function.update_self _ _ _

theorem cache_setCache_of_ne {sid' : Nat} (h : sid' ≠ sid) (tab : Option StreamTableEntry) :
    (m.setCache sid tab).cache sid' = m.cache sid' :=
  Function.update_of_ne h _ _

/-- What is kept of one stream id changes. -/
theorem Inv.setCache (h : m.Inv) {tab : Option StreamTableEntry}
    (htab : ∀ e, tab = some e → e = m.target sid) : (m.setCache sid tab).Inv := by
  refine ⟨h.shift, h.prodReg, h.prod, h.cons, h.consReg, h.sid, h.ring.congr rfl rfl rfl,
    fun sid' e hc => ?_⟩
  by_cases hsid : sid' = sid
  · subst hsid
    rw [cache_setCache_self] at hc
    exact htab e hc
  · rw [cache_setCache_of_ne hsid] at hc
    exact h.cache sid' e hc

/-- **The SMMU executes a command**: the entry of the call's stream id is not kept any more. -/
theorem Inv.consume (h : m.Inv) (hs : m.consume = some m') : m'.Inv := by
  rw [Smmuv3.consume] at hs
  split_ifs at hs with hne
  obtain ⟨k, vmid, sid, hplace, hprod, hcmd⟩ := queued_of_consume h hne
  have hlt : (m.consReg + 1) % 2 ^ (m.cmdq.maxNShift + 1) < 2 ^ (m.cmdq.maxNShift + 1) :=
    Nat.mod_lt _ (Nat.two_pow_pos _)
  obtain rfl := Option.some.inj hs
  rw [hcmd]
  cases k with
  | cfgi =>
    have hexec : ∀ w : Smmuv3, w.execute (Insertion.cfgi.cmd sid) = w.setCache sid none := by
      intro w
      rw [execute, invalidates_cfgi (h.sid _ _ _ hplace)]
    rw [hexec]
    refine ⟨h.shift, h.prodReg, h.prod, h.cons, hlt, h.sid, ?_, fun sid' tab hc => ?_⟩
    · rw [Smmuv3.setCache, hplace]
      exact .executed hprod.symm
    · -- the entries of other stream ids are no matter of the call
      have hsid : sid' ≠ sid := by
        rintro rfl
        rw [cache_setCache_self] at hc
        cases hc
      rw [cache_setCache_of_ne hsid] at hc
      rw [h.cache sid' tab hc]
      simp only [target, hplace, Smmuv3.setCache, hsid.symm, false_and, if_false]
  | sync =>
    have hexec : ∀ w : Smmuv3, w.execute (Insertion.sync.cmd sid) = w := by
      intro w
      rw [execute, invalidates_sync]
    rw [hexec]
    refine ⟨h.shift, h.prodReg, h.prod, h.cons, hlt, h.sid, ?_, fun sid' tab hc => ?_⟩
    · rw [hplace]
      exact .executed hprod.symm
    · rw [h.cache sid' tab hc]
      simp only [target, hplace, Invalidated, and_true]
      rfl

/-- An entry is kept that is what it will be. -/
theorem content_eq_target (h : m.Inv)
    (hkeep : m.cache sid = none → m.target sid = m.strtab.ste sid) :
    m.content sid = m.target sid := by
  rw [content]
  cases hcached : m.cache sid with
  | none => exact (hkeep hcached).symm
  | some old => exact h.cache sid old hcached

theorem Inv.call (h : m.Inv) (hplace : m.place = .idle) (hsid : sid < 2 ^ 32) (vmid : Nat) :
    (m.goto (.full .cfgi) vmid sid).Inv := by
  have hring := h.ring
  rw [hplace] at hring
  refine ⟨h.shift, h.prodReg, h.prod, h.cons, h.consReg, ?_, Drained.congr hring rfl rfl,
    fun sid' tab hc => ?_⟩
  · rintro _ _ _ ⟨⟩
    exact hsid
  · rw [h.cache sid' tab hc]
    simp [target, hplace, Smmuv3.goto, Invalidated]

/-! ## Runs -/

/-- No call has begun, nothing waits in the queue, and what the SMMU keeps is current. -/
structure Initial (m : Smmuv3) : Prop where
  shift : m.cmdq.maxNShift < 31
  prod : m.cmdq.prod < 2 ^ (m.cmdq.maxNShift + 1)
  prodReg : m.prodReg = m.cmdq.prod
  drained : m.Drained
  place : m.place = .idle
  cache : ∀ sid tab, m.cache sid = some tab → tab = m.strtab.ste sid

/-- Calls of `iommu_add_device` one after the other, with the SMMU next to them. -/
def system : TransitionSystem Smmuv3 SmmuAct := .ofStep Initial step

/-- The SMMU keeps no entry that it reads after its invalidation and before its last change. -/
def NoEarlyFetch (m : Smmuv3) : SmmuAct → Prop
  | .translate sid keep =>
    keep = true → m.cache sid = none → m.target sid = m.strtab.ste sid
  | _ => True

/-- No call for the stream id has begun that has not returned. -/
def Returned (m : Smmuv3) (sid : Nat) : Prop := ∀ stage vmid, m.place ≠ .call stage vmid sid

theorem Initial.inv (h : m.Initial) : m.Inv where
  shift := h.shift
  prodReg := h.prodReg
  prod := h.prod
  cons := h.drained.cons ▸ h.prod
  consReg := h.drained.consReg ▸ h.prod
  sid stage vmid sid hplace := by
    rw [h.place] at hplace
    cases hplace
  ring := by
    rw [h.place]
    exact h.drained
  cache sid tab hc := by
    rw [target, h.place]
    exact h.cache sid tab hc

theorem Inv.step {a : SmmuAct} (h : m.Inv) (ha : NoEarlyFetch m a) (hs : m.step a = some m') :
    m'.Inv := by
  cases a with
  | call vmid sid =>
    rw [Smmuv3.step] at hs
    split_ifs at hs with hcall
    cases hs
    exact h.call hcall.1 hcall.2 vmid
  | cpu =>
    rw [Smmuv3.step] at hs
    split at hs
    · cases hs
    · next hplace => exact h.cpuStep hplace hs
  | consume => exact h.consume hs
  | translate sid keep =>
    cases keep with
    | false =>
      cases hs
      exact h
    | true =>
      cases hs
      refine h.setCache ?_
      rintro _ ⟨⟩
      exact content_eq_target h (ha rfl)
  | evict sid =>
    cases hs
    exact h.setCache nofun

theorem target_of_returned (h : m.Returned sid) : m.target sid = m.strtab.ste sid := by
  rw [target]
  split
  · rfl
  · next stage vmid sid' hplace =>
    have hne : sid' ≠ sid := fun heq => h stage vmid (heq ▸ hplace)
    rw [if_neg fun hand => hne hand.1]

/-- **No translation uses an entry from before a call** that has returned, in every run in which the
SMMU keeps no entry between its invalidation and its last change. -/
theorem content_of_run {h : List SmmuAct} (r : (system.restrict NoEarlyFetch).Run h m)
    (hret : m.Returned sid) : m.content sid = m.strtab.ste sid := by
  have hinv : m.Inv :=
    r.invariant (I := fun _ m => Inv m) (fun _ => Initial.inv)
      fun _ _ _ _ _ hinv (hs : _ ∧ _) => hinv.step hs.1 hs.2
  rw [content]
  cases hcached : m.cache sid with
  | none => rfl
  | some tab => exact (hinv.cache sid tab hcached).trans (target_of_returned hret)

/-- An SMMU at its start. -/
def example₀ : Smmuv3 where
  strtab := smmuExample
  cmdq := { prod := 0, cons := 0, maxNShift := 8 }
  queue _ := (0, 0)
  prodReg := 0
  consReg := 0
  cache _ := none
  place := .idle

theorem initial_example₀ : example₀.Initial where
  shift := by decide
  prod := by decide
  prodReg := rfl
  drained := ⟨rfl, rfl⟩
  place := rfl
  cache := nofun

/-- The steps of a call until the assertion, each command being executed at once. -/
def untilCheck (vmid sid : Nat) : List SmmuAct :=
  [.call vmid sid, .cpu, .cpu, .cpu, .consume, .cpu, .cpu, .cpu, .cpu, .cpu, .consume, .cpu, .cpu]

/-- Nothing is kept. -/
def keepsNothing (_ : Smmuv3) : SmmuAct → Bool
  | .translate _ keep => !keep
  | _ => true

theorem noEarlyFetch_of_keepsNothing {a : SmmuAct} (h : keepsNothing m a = true) :
    NoEarlyFetch m a := by
  cases a with
  | translate sid keep =>
    rintro rfl
    cases h
  | _ => trivial

theorem content_of_run_call : ∃ h m, (system.restrict NoEarlyFetch).Run h m ∧ m.Returned 5 ∧
    m.content 5 = m.strtab.ste 5 ∧ m.strtab.ste 5 ≠ smmuExample.ste 5 := by
  have hex : ∃ m, TransitionSystem.exec step keepsNothing
      (untilCheck 1 5 ++ [.cpu, .cpu, .cpu, .cpu, .translate 5 false]) example₀ = some m ∧
        m.place = .idle ∧ m.strtab.ste 5 0 ≠ smmuExample.ste 5 0 := ⟨_, rfl, rfl, by decide⟩
  obtain ⟨m, he, hplace, hne⟩ := hex
  have r := TransitionSystem.Run.exec (S := system.restrict NoEarlyFetch) step keepsNothing
    (fun _ _ _ hc hs => ⟨noEarlyFetch_of_keepsNothing hc, hs⟩) (.start initial_example₀) he
  have hret : m.Returned 5 := fun stage vmid h => by
    rw [hplace] at h
    cases h
  exact ⟨_, m, r, hret, content_of_run r hret, fun h => hne (congrFun h 0)⟩

/-- The SMMU keeps the old entry after its invalidation, and uses it after the call. -/
theorem stale_content : ∃ h m, system.Run h m ∧ m.Returned 5 ∧
    m.content 5 = smmuExample.ste 5 ∧ m.content 5 ≠ m.strtab.ste 5 := by
  have hex : ∃ m, TransitionSystem.exec step (fun _ _ => true)
      (untilCheck 1 5 ++ [.translate 5 true, .cpu, .cpu, .cpu, .cpu]) example₀ = some m ∧
        m.place = .idle ∧ m.content 5 = smmuExample.ste 5 ∧
          m.content 5 0 ≠ m.strtab.ste 5 0 := ⟨_, rfl, rfl, rfl, by decide⟩
  obtain ⟨m, he, hplace, hold, hne⟩ := hex
  have r := TransitionSystem.Run.exec (S := system) step (fun _ _ => true) (fun _ _ _ _ hs => hs)
    (.start initial_example₀) he
  have hret : m.Returned 5 := fun stage vmid h => by
    rw [hplace] at h
    cases h
  exact ⟨_, m, r, hret, hold, fun h => hne (congrFun h 0)⟩

end Smmuv3

end Hvisor
