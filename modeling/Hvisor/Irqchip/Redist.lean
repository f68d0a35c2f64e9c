import Hvisor.Irqchip.Gits
import Hvisor.Irqchip.SpiRouting

/-!
# The redistributors of a GICv3

Accesses of a guest to the redistributors, from `gicv3/vgic.rs` and `gicv3/gicr.rs`. A zone has the
frames of all CPUs in its address space. Each arm of `vgicv3_redist_handler` decides by itself
whether the frame of a CPU of another zone, or of no zone, may be accessed. `none` is a panic.

A guest also enables LPIs, by a command to the ITS or a write of `GICR_INVLPIR`; the number of the
interrupt comes from the guest and is the offset of a byte in the table. Nothing holds the byte in
the table, and it may come to lie in the frame of a redistributor.

## Main definitions

* `RedistBoard.InFrame`: the frames of the redistributors
* `redistArm`, `vgicv3RedistHandler`: the arms, and the accesses
* `RedistIsolated`: an access returns, and writes no redistributor of another zone
* `RedistAllowed`: when it is so
* `LpiSafe`: an LPI is enabled inside the table

## Main results

* `redistIsolated_iff`: an access is isolated exactly when it is allowed
* `redistAllowed_of_has`: an LPI of the table may be enabled
* `lpiSafe_iff`: an LPI is enabled inside the table exactly when the table has it
-/

namespace Hvisor

/-- The offset of the control register. -/
def GICR_CTLR : Nat := 0x0000
/-- The offset of the implementer register. -/
def GICR_IIDR : Nat := 0x0004
/-- The offset of the type register. -/
def GICR_TYPER : Nat := 0x0008
/-- The offset of the error register. -/
def GICR_STATUSR : Nat := 0x0010
/-- The offset of the power register. -/
def GICR_WAKER : Nat := 0x0014
/-- The offset of the register that makes an LPI pending. -/
def GICR_SETLPIR : Nat := 0x0040
/-- The offset of the register that makes an LPI not pending. -/
def GICR_CLRLPIR : Nat := 0x0048
/-- The offset of the address of the table of LPIs. -/
def GICR_PROPBASER : Nat := 0x0070
/-- The offset of the address of the table of pending LPIs. -/
def GICR_PENDBASER : Nat := 0x0078
/-- The offset of the register that invalidates one LPI. -/
def GICR_INVLPIR : Nat := 0x00a0
/-- The offset of the register that invalidates all LPIs. -/
def GICR_INVALLR : Nat := 0x00b0
/-- The offset of the register that says whether invalidations are over. -/
def GICR_SYNCR : Nat := 0x00c0
/-- The offset of the second frame. -/
def GICR_SGI_BASE : Nat := 0x10000
/-- The offset, in the second frame, of the register that enables interrupts. -/
def GICR_ISENABLER : Nat := GICD_ISENABLER
/-- The offset of the register that disables interrupts. -/
def GICR_ICENABLER : Nat := GICD_ICENABLER
/-- The offset of the register that makes interrupts pending. -/
def GICR_ISPENDR : Nat := GICD_ISPENDR
/-- The offset of the register that makes interrupts not pending. -/
def GICR_ICPENDR : Nat := GICD_ICPENDR
/-- The offset of the register that makes interrupts active. -/
def GICR_ISACTIVER : Nat := GICD_ISACTIVER
/-- The offset of the register that makes interrupts inactive. -/
def GICR_ICACTIVER : Nat := GICD_ICACTIVER
/-- The offset of the priorities. -/
def GICR_IPRIORITYR : Nat := GICD_IPRIORITYR
/-- The offset of the configurations. -/
def GICR_ICFGR : Nat := GICD_ICFGR
/-- The redistributor is the last one of its region. -/
def GICR_TYPER_LAST : UInt64 := (1 : UInt64) <<< 4

/-! ## The handler -/

/-- The affinities of the CPUs of a Phytium. -/
def CPU_MPIDS : List Nat := [0x200, 0x201, 0x000, 0x100]

/-- The board: its number of CPUs, whether it is a Phytium, where the redistributors are, and the
frames for LPIs. -/
structure RedistBoard where
  overflowChecks : Bool
  mpidrPhytium : Bool
  ncpu : Nat
  gicrBase : Nat
  frames : ItsFrames

namespace RedistBoard

variable (board : RedistBoard)

/-- `host_gicr_base`, for the CPUs of the board, on which its assertions hold. -/
def hostGicrBase (id : Nat) : Nat :=
  let cpuInterfaceNumber :=
    if board.mpidrPhytium then
      let mpidr := CPU_MPIDS.getD id 0
      (mpidr >>> 8 &&& 0xff) ||| (mpidr &&& 0xff)
    else id
  board.gicrBase + cpuInterfaceNumber * PER_GICR_SIZE

/-- An address in the frame of a CPU. -/
def InFrame (cpu addr : Nat) : Prop :=
  cpu < board.ncpu ∧ board.hostGicrBase cpu ≤ addr ∧ addr < board.hostGicrBase cpu + PER_GICR_SIZE

instance (cpu addr : Nat) : Decidable (board.InFrame cpu addr) :=
  inferInstanceAs (Decidable (_ ∧ _ ∧ _))

end RedistBoard

/-- The CPU of the frame that is accessed, the zones of all CPUs, and the zone that makes the
access. -/
structure RedistFrame where
  cpu : Nat
  owner : Nat → Option Nat
  zone : Nat
  zoneId : Nat

/-- What the accesses work on: the redistributors of the CPUs, each from its base on, the table
registers of the zones, and memory. -/
structure RedistState where
  dev : Nat → Device
  baserList : Vector UInt64 MAX_ZONE_NUM
  mem : PhysMem

/-- The arms of `vgicv3_redist_handler`. -/
inductive RedistArm where
  | ctlr
  | typer
  | readOnly
  | pendbaser
  | propbaser
  | syncr
  | setlpir
  | clrlpir
  | invlpir
  | guarded
  | other
  deriving DecidableEq

/-- The arm of the handler for an offset. -/
def redistArm (reg : Nat) : RedistArm :=
  if reg == GICR_CTLR then .ctlr
  else if reg == GICR_TYPER then .typer
  else if reg == GICR_IIDR || decide (0xffd0 ≤ reg ∧ reg ≤ 0xfffc) then .readOnly
  else if reg == GICR_PENDBASER then .pendbaser
  else if reg == GICR_PROPBASER then .propbaser
  else if reg == GICR_SYNCR then .syncr
  else if reg == GICR_SETLPIR then .setlpir
  else if reg == GICR_CLRLPIR || reg == GICR_INVALLR then .clrlpir
  else if reg == GICR_INVLPIR then .invlpir
  else if reg == GICR_STATUSR || reg == GICR_WAKER || reg == GICR_SGI_BASE + GICR_ISENABLER ||
      reg == GICR_SGI_BASE + GICR_ICENABLER || reg == GICR_SGI_BASE + GICR_ISPENDR ||
      reg == GICR_SGI_BASE + GICR_ICPENDR || reg == GICR_SGI_BASE + GICR_ISACTIVER ||
      reg == GICR_SGI_BASE + GICR_ICACTIVER ||
      inRegRange (GICR_SGI_BASE + GICR_IPRIORITYR) 8 4 reg ||
      inRegRange (GICR_SGI_BASE + GICR_ICFGR) 2 4 reg then .guarded
  else .other

namespace RedistState

/-- The access to a redistributor itself. -/
def perform (s : RedistState) (cpu : Nat) (mmio : MMIOAccess) : Option (MMIOAccess × RedistState) :=
  (mmioPerformAccess mmio (s.dev cpu)).map fun (mmio, dev) =>
    (mmio, { s with dev := Function.update s.dev cpu dev })

/-- The store of a byte: a redistributor takes it if it is in its frame. -/
def storeByte (s : RedistState) (board : RedistBoard) (addr : Nat) (val : BitVec 8) : RedistState :=
  { s with
    dev := fun cpu =>
      if board.InFrame cpu addr then
        (s.dev cpu).store ⟨addr - board.hostGicrBase cpu, 1, val.setWidth 64⟩
      else s.dev cpu
    mem := s.mem.writeByte addr val }

end RedistState

/-- The number of the LPI that a value of `GICR_INVLPIR` names. -/
def MMIOAccess.lpi (mmio : MMIOAccess) : Nat := (mmio.value.toBitVec &&& 0xffffffff).toNat

/-- The byte of an LPI, the first one being 8192, as `enable_one_lpi` computes its address. -/
def lpiAddr (overflowChecks : Bool) (frames : ItsFrames) (id : Nat) : Option Nat :=
  (wordSub overflowChecks id 8192).bind fun lpi => wordResult overflowChecks 64 (frames.table + lpi)

/-- The call of `enable_one_lpi` for an interrupt. -/
def enableLpi (overflowChecks : Bool) (frames : ItsFrames) (id : Nat) (mem : PhysMem) :
    Option PhysMem :=
  (wordSub overflowChecks id 8192).bind fun lpi => enableOneLpi overflowChecks frames lpi mem

theorem enableLpi_eq (overflowChecks : Bool) (frames : ItsFrames) (id : Nat) (mem : PhysMem) :
    enableLpi overflowChecks frames id mem =
      (lpiAddr overflowChecks frames id).map fun addr => mem.writeByte addr 1 := by
  rw [enableLpi, lpiAddr, Option.map_bind]
  rfl

/-- An access of a guest to the frame of a CPU. -/
def vgicv3RedistHandler (board : RedistBoard) (frame : RedistFrame) (mmio : MMIOAccess)
    (s : RedistState) : Option (MMIOAccess × RedistState) :=
  match redistArm mmio.addr with
  | .ctlr =>
    match frame.owner frame.cpu with
    | none => if !mmio.isWrite then s.perform frame.cpu mmio else some (mmio, s)
    | some z =>
      if frame.zone = z then s.perform frame.cpu mmio
      else if !mmio.isWrite then s.perform frame.cpu mmio
      else some (mmio, s)
  | .typer =>
    (s.perform frame.cpu mmio).map fun (mmio, s) =>
      let isLast := if board.mpidrPhytium then frame.cpu == 1 else frame.cpu == board.ncpu - 1
      ({ mmio with value := if isLast then mmio.value ||| GICR_TYPER_LAST else mmio.value }, s)
  | .readOnly => s.perform frame.cpu mmio
  | .pendbaser => s.perform frame.cpu mmio
  | .propbaser =>
    if h : frame.zoneId < MAX_ZONE_NUM then
      if mmio.isWrite then
        some (mmio, { s with baserList := s.baserList.set frame.zoneId mmio.value })
      else some ({ mmio with value := s.baserList[frame.zoneId] }, s)
    else none
  | .syncr => some ({ mmio with value := 0 }, s)
  | .setlpir => s.perform frame.cpu mmio
  | .clrlpir => s.perform frame.cpu mmio
  | .invlpir =>
    -- a read comes here as well
    (lpiAddr board.overflowChecks board.frames mmio.lpi).map fun addr =>
      (mmio, s.storeByte board addr 1)
  | .guarded =>
    (frame.owner frame.cpu).bind fun z =>
      if frame.zone = z then
        -- avoid linux disable maintenance interrupt
        let value := if mmio.addr == GICR_SGI_BASE + GICR_ICENABLER then
            mmio.value.toBitVec &&& ~~~(1#64 <<< MAINTENACE_INTERRUPT) &&& ~~~(1#64 <<< SGI_IPI_ID)
          else mmio.value.toBitVec
        s.perform frame.cpu { mmio with value := ⟨value⟩ }
      else some (mmio, s)
  | .other => some (mmio, s)

/-! ## Isolation -/

/-- **What an access should do**: it returns, and the redistributors of the CPUs that belong to
another zone, or to none, are not written. -/
def RedistIsolated (board : RedistBoard) (frame : RedistFrame) (mmio : MMIOAccess)
    (s : RedistState) : Prop :=
  ∃ res, vgicv3RedistHandler board frame mmio s = some res ∧
    ∀ cpu, frame.owner cpu ≠ some frame.zone → (res.2.dev cpu).writes = (s.dev cpu).writes

/-- The access is a write that a device takes. -/
def MMIOAccess.Stores (mmio : MMIOAccess) : Prop :=
  mmio.isWrite = true ∧ mmio.size ∈ [1, 2, 4, 8]

instance (mmio : MMIOAccess) : Decidable mmio.Stores := inferInstanceAs (Decidable (_ ∧ _))

/-- **The accesses that are isolated**, by the arm: an arm without a test of the owner takes aligned
accesses, and writes in a frame of the zone itself only; the arms with a test need an owner, and an
aligned access if it is the zone; the table register needs a zone that has one. An LPI needs a
number that a build with checks of overflows allows, and a byte outside the frames of other CPUs. -/
def RedistAllowed (board : RedistBoard) (frame : RedistFrame) (mmio : MMIOAccess) : Prop :=
  match redistArm mmio.addr with
  | .typer | .readOnly | .pendbaser | .setlpir | .clrlpir =>
    mmio.Aligned ∧ (mmio.Stores → frame.owner frame.cpu = some frame.zone)
  | .propbaser => frame.zoneId < MAX_ZONE_NUM
  | .invlpir =>
    (board.overflowChecks = true →
      8192 ≤ mmio.lpi ∧ board.frames.table + (mmio.lpi - 8192) < 2 ^ 64) ∧
    ∀ cpu, board.InFrame cpu ((board.frames.table + wrappingSub mmio.lpi 8192) % 2 ^ 64) →
      frame.owner cpu = some frame.zone
  | .guarded =>
    frame.owner frame.cpu ≠ none ∧ (frame.owner frame.cpu = some frame.zone → mmio.Aligned)
  | .ctlr | .syncr | .other => True

variable {board : RedistBoard} {frame : RedistFrame} {mmio : MMIOAccess} {s : RedistState}

theorem writes_access_iff (dev : Device) :
    (dev.access mmio).2.writes = dev.writes ↔ ¬ mmio.Stores := by
  rw [Device.access, MMIOAccess.Stores]
  by_cases hw : mmio.isWrite = true
  · rw [if_pos hw]
    by_cases hs : mmio.size ∈ [1, 2, 4, 8]
    · rw [if_pos hs]
      refine iff_of_false (fun heq => ?_) fun hno => hno ⟨hw, hs⟩
      exact absurd (List.append_right_eq_self.mp heq) (List.cons_ne_nil _ _)
    · rw [if_neg hs]
      exact iff_of_true rfl fun h => hs h.2
  · rw [if_neg hw]
    refine iff_of_true ?_ fun h => hw h.1
    split_ifs <;> rfl

/-- An access to a redistributor leaves the other ones alone. -/
theorem perform_eq_some_iff {cpu : Nat} {res : MMIOAccess × RedistState} :
    s.perform cpu mmio = some res ↔ mmio.Aligned ∧
      (((s.dev cpu).access mmio).1,
        { s with dev := Function.update s.dev cpu ((s.dev cpu).access mmio).2 }) = res := by
  rw [RedistState.perform, Option.map_eq_some_iff]
  constructor
  · rintro ⟨r, hr, rfl⟩
    obtain ⟨hal, rfl⟩ := mmioPerformAccess_eq_some_iff.mp hr
    exact ⟨hal, rfl⟩
  · rintro ⟨hal, rfl⟩
    exact ⟨_, mmioPerformAccess_eq hal _, rfl⟩

/-- An arm that passes the access on, and may change the value that is written or read. -/
theorem isolated_perform_iff (value : UInt64) (f : MMIOAccess → MMIOAccess)
    (h : vgicv3RedistHandler board frame mmio s =
      (s.perform frame.cpu { mmio with value }).map fun r => (f r.1, r.2)) :
    RedistIsolated board frame mmio s ↔
      mmio.Aligned ∧ (mmio.Stores → frame.owner frame.cpu = some frame.zone) := by
  rw [RedistIsolated, h]
  constructor
  · rintro ⟨res, hres, hwrites⟩
    obtain ⟨r, hr, rfl⟩ := Option.map_eq_some_iff.mp hres
    obtain ⟨hal, rfl⟩ := perform_eq_some_iff.mp hr
    refine ⟨hal, fun hstores => ?_⟩
    by_contra howner
    have hsame := hwrites frame.cpu howner
    dsimp only at hsame
    rw [Function.update_self] at hsame
    exact (writes_access_iff (s.dev frame.cpu)).mp hsame hstores
  · rintro ⟨hal, howner⟩
    refine ⟨_, Option.map_eq_some_iff.mpr ⟨_, perform_eq_some_iff.mpr ⟨hal, rfl⟩, rfl⟩,
      fun cpu hne => ?_⟩
    dsimp only
    rcases eq_or_ne cpu frame.cpu with rfl | hcpu
    · rw [Function.update_self]
      exact (writes_access_iff (s.dev frame.cpu)).mpr fun hstores => hne (howner hstores)
    · rw [Function.update_of_ne hcpu]

/-- An arm that writes no redistributor is isolated. -/
theorem isolated_of_dev (res : MMIOAccess × RedistState)
    (h : vgicv3RedistHandler board frame mmio s = some res) (hdev : res.2.dev = s.dev) :
    RedistIsolated board frame mmio s :=
  ⟨res, h, fun cpu _ => congrArg (fun dev => (dev cpu).writes) hdev⟩

/-- An arm that passes a read on is isolated when it is aligned. -/
theorem isolated_of_read (h : vgicv3RedistHandler board frame mmio s = s.perform frame.cpu mmio)
    (hal : mmio.Aligned) (hread : mmio.isWrite = false) : RedistIsolated board frame mmio s := by
  refine (isolated_perform_iff mmio.value id ?_).mpr ⟨hal, fun hstores => ?_⟩
  · rw [h]
    exact (congrFun Option.map_id _).symm
  · exact absurd (hread.symm.trans hstores.1) Bool.false_ne_true

/-- A control register is at the start of its frame. -/
theorem aligned_of_ctlr (h : redistArm mmio.addr = .ctlr) : mmio.Aligned := by
  intro _
  have haddr : mmio.addr = GICR_CTLR := by
    by_contra hne
    rw [redistArm, if_neg (by rwa [beq_iff_eq])] at h
    split_ifs at h
  rw [haddr, GICR_CTLR, Nat.zero_mod]

/-- The byte of an LPI, and when computing its address panics. -/
theorem lpiAddr_eq_some_iff {overflowChecks : Bool} {frames : ItsFrames} {id addr : Nat}
    (hid : id < 2 ^ 64) :
    lpiAddr overflowChecks frames id = some addr ↔
      (overflowChecks = true → 8192 ≤ id ∧ frames.table + (id - 8192) < 2 ^ 64) ∧
        (frames.table + wrappingSub id 8192) % 2 ^ 64 = addr := by
  have hsub : 8192 ≤ id → wrappingSub id 8192 = id - 8192 := fun hle => by
    rw [wrappingSub, usizeSize]
    omega
  rw [lpiAddr, wordSub]
  by_cases hle : 8192 ≤ id
  · rw [if_pos hle, Option.bind_some, wordResult, hsub hle]
    by_cases hlt : frames.table + (id - 8192) < 2 ^ 64
    · rw [if_pos hlt, Option.some.injEq, Nat.mod_eq_of_lt hlt]
      exact (and_iff_right fun _ => ⟨hle, hlt⟩).symm
    · rw [if_neg hlt]
      split_ifs with hchecks
      · exact iff_of_false (by simp) fun h => hlt (h.1 hchecks).2
      · rw [Option.some.injEq]
        exact (and_iff_right fun hc => absurd hc hchecks).symm
  · rw [if_neg hle]
    split_ifs with hchecks
    · exact iff_of_false (by simp) fun h => hle (h.1 hchecks).1
    · rw [Option.bind_some, wordResult]
      refine (Iff.trans ?_ (and_iff_right fun hc => absurd hc hchecks).symm)
      by_cases hlt : frames.table + wrappingSub id 8192 < 2 ^ 64
      · rw [if_pos hlt, Nat.mod_eq_of_lt hlt, Option.some.injEq]
      · rw [if_neg hlt, if_neg hchecks, Option.some.injEq]

theorem MMIOAccess.lpi_lt (mmio : MMIOAccess) : mmio.lpi < 2 ^ 64 := BitVec.isLt _

/-- A byte that is stored goes to the redistributor in whose frame it is. -/
theorem writes_storeByte_iff {addr : Nat} {val : BitVec 8} (cpu : Nat) :
    ((s.storeByte board addr val).dev cpu).writes = (s.dev cpu).writes ↔
      ¬ board.InFrame cpu addr := by
  rw [RedistState.storeByte]
  dsimp only
  by_cases hframe : board.InFrame cpu addr
  · rw [if_pos hframe]
    refine iff_of_false (fun heq => ?_) fun h => h hframe
    exact absurd (List.append_right_eq_self.mp heq) (List.cons_ne_nil _ _)
  · rw [if_neg hframe]
    exact iff_of_true rfl hframe

/-- **An access is isolated** exactly when it is allowed. -/
theorem redistIsolated_iff (board : RedistBoard) (frame : RedistFrame) (mmio : MMIOAccess)
    (s : RedistState) :
    RedistIsolated board frame mmio s ↔ RedistAllowed board frame mmio := by
  have hid : s.perform frame.cpu mmio = (s.perform frame.cpu mmio).map fun r => (id r.1, r.2) :=
    (congrFun Option.map_id _).symm
  have hpass : vgicv3RedistHandler board frame mmio s = s.perform frame.cpu mmio →
      (RedistIsolated board frame mmio s ↔
        mmio.Aligned ∧ (mmio.Stores → frame.owner frame.cpu = some frame.zone)) := fun h =>
    isolated_perform_iff mmio.value id (h.trans hid)
  rw [RedistAllowed]
  cases harm : redistArm mmio.addr with
  | ctlr =>
    -- a foreign frame is only read
    refine iff_of_true ?_ trivial
    have hal : mmio.Aligned := aligned_of_ctlr harm
    cases hw : mmio.isWrite with
    | false =>
      refine isolated_of_read ?_ hal hw
      rw [vgicv3RedistHandler, harm]
      dsimp only
      rw [hw]
      cases frame.owner frame.cpu with
      | none => rfl
      | some z => exact ite_self _
    | true =>
      cases howner : frame.owner frame.cpu with
      | none =>
        refine isolated_of_dev (mmio, s) ?_ rfl
        rw [vgicv3RedistHandler, harm]
        simp only [howner, hw]
        rfl
      | some z =>
        by_cases hz : frame.zone = z
        · refine (isolated_perform_iff mmio.value id ?_).mpr ⟨hal, fun _ => hz ▸ howner⟩
          rw [vgicv3RedistHandler, harm]
          simp only [howner, hz, if_true]
          exact hid
        · refine isolated_of_dev (mmio, s) ?_ rfl
          rw [vgicv3RedistHandler, harm]
          simp only [howner, hz, hw, if_false]
          rfl
  | typer =>
    have hrun := @isolated_perform_iff board frame mmio s mmio.value fun mmio =>
      let isLast := if board.mpidrPhytium then frame.cpu == 1 else frame.cpu == board.ncpu - 1
      { mmio with value := if isLast then mmio.value ||| GICR_TYPER_LAST else mmio.value }
    exact hrun (by rw [vgicv3RedistHandler, harm])
  | readOnly => exact hpass (by rw [vgicv3RedistHandler, harm])
  | pendbaser => exact hpass (by rw [vgicv3RedistHandler, harm])
  | setlpir => exact hpass (by rw [vgicv3RedistHandler, harm])
  | clrlpir => exact hpass (by rw [vgicv3RedistHandler, harm])
  | propbaser =>
    constructor
    · rintro ⟨res, hres, -⟩
      by_contra hzone
      rw [vgicv3RedistHandler, harm] at hres
      dsimp only at hres
      rw [dif_neg hzone] at hres
      cases hres
    · intro hzone
      obtain ⟨res, hres, hdev⟩ : ∃ res, vgicv3RedistHandler board frame mmio s = some res ∧
          res.2.dev = s.dev := by
        rw [vgicv3RedistHandler, harm]
        dsimp only
        rw [dif_pos hzone]
        split_ifs
        · exact ⟨_, rfl, rfl⟩
        · exact ⟨_, rfl, rfl⟩
      exact isolated_of_dev res hres hdev
  | syncr => exact iff_of_true (isolated_of_dev _ (by rw [vgicv3RedistHandler, harm]) rfl) trivial
  | invlpir =>
    rw [RedistIsolated, vgicv3RedistHandler, harm]
    dsimp only
    constructor
    · rintro ⟨res, hres, hwrites⟩
      obtain ⟨addr, haddr, rfl⟩ := Option.map_eq_some_iff.mp hres
      obtain ⟨hchecks, rfl⟩ := (lpiAddr_eq_some_iff mmio.lpi_lt).mp haddr
      refine ⟨hchecks, fun cpu hframe => ?_⟩
      by_contra howner
      exact (writes_storeByte_iff cpu).mp (hwrites cpu howner) hframe
    · rintro ⟨hchecks, hframes⟩
      refine ⟨_, Option.map_eq_some_iff.mpr
        ⟨_, (lpiAddr_eq_some_iff mmio.lpi_lt).mpr ⟨hchecks, rfl⟩, rfl⟩, fun cpu hne => ?_⟩
      exact (writes_storeByte_iff cpu).mpr fun hframe => hne (hframes cpu hframe)
  | guarded =>
    cases howner : frame.owner frame.cpu with
    | none =>
      refine iff_of_false ?_ fun h => h.1 rfl
      rintro ⟨res, hres, -⟩
      rw [vgicv3RedistHandler, harm] at hres
      dsimp only at hres
      rw [howner] at hres
      cases hres
    | some z =>
      rw [and_iff_right (Option.some_ne_none z), Option.some.injEq]
      by_cases hz : frame.zone = z
      · -- the frame is that of the zone: the access is passed on with a new value
        have hown : frame.owner frame.cpu = some frame.zone := hz ▸ howner
        have hvalue : ∃ value, vgicv3RedistHandler board frame mmio s =
            (s.perform frame.cpu { mmio with value }).map fun r => (id r.1, r.2) := by
          rw [vgicv3RedistHandler, harm]
          dsimp only
          rw [howner, Option.bind_some, if_pos hz]
          exact ⟨_, (congrFun Option.map_id _).symm⟩
        obtain ⟨value, hrun⟩ := hvalue
        rw [isolated_perform_iff value id hrun, forall_prop_of_true hz.symm]
        exact and_iff_left fun _ => hown
      · refine iff_of_true (isolated_of_dev (mmio, s) ?_ rfl) fun h => absurd h.symm hz
        rw [vgicv3RedistHandler, harm]
        dsimp only
        rw [howner, Option.bind_some, if_neg hz]
  | other => exact iff_of_true (isolated_of_dev _ (by rw [vgicv3RedistHandler, harm]) rfl) trivial

/-- A guest writes the table of pending LPIs of a CPU of another zone. -/
theorem not_redistIsolated : ¬ ∀ (board : RedistBoard) (frame : RedistFrame) (mmio : MMIOAccess)
    (s : RedistState), RedistIsolated board frame mmio s := by
  intro h
  have hallowed := (redistIsolated_iff _ _ _ _).mp
    (h ⟨true, false, 4, 0x80a0000, someItsFrames⟩ ⟨1, fun cpu => some cpu, 2, 2⟩
      ⟨0x78, 8, true, 0x40000000⟩ ⟨fun _ => zeroDevice, .replicate _ 0, fun _ => 0⟩)
  exact absurd (hallowed.2 ⟨rfl, by decide⟩) (by decide)

/-! ## The table of LPIs -/

namespace PhysMem

/-- A byte of memory. -/
def byte (mem : PhysMem) (addr : Nat) : BitVec 8 :=
  (mem (addr / 8) >>> (8 * (addr % 8))).setWidth 8

/-- The bits of a byte in its word. -/
theorem getLsbD_byte (mem : PhysMem) (addr i : Nat) :
    (mem.byte addr).getLsbD i =
      (decide (i < 8) && (mem (addr / 8)).getLsbD (8 * (addr % 8) + i)) := by
  rw [byte, BitVec.getLsbD_setWidth, BitVec.getLsbD_ushiftRight]

theorem byte_writeByte (mem : PhysMem) (addr a : Nat) (val : BitVec 8) :
    (mem.writeByte addr val).byte a = if a = addr then val else mem.byte a := by
  apply BitVec.eq_of_getLsbD_eq
  intro i hi
  rw [getLsbD_byte, decide_eq_true hi, Bool.true_and, writeByte, Function.update_apply]
  by_cases hword : a / 8 = addr / 8
  · rw [if_pos hword, BitVec.getLsbD_or, BitVec.getLsbD_and, BitVec.getLsbD_not,
      BitVec.getLsbD_shiftLeft, BitVec.getLsbD_shiftLeft, BitVec.getLsbD_setWidth,
      decide_eq_true (by omega : 8 * (a % 8) + i < 64), Bool.true_and, Bool.true_and]
    have hmask : ∀ k, (0xff#64).getLsbD k = decide (k < 8) := fun k => by
      show (BitVec.ofNat 64 (2 ^ 8 - 1)).getLsbD k = _
      rw [BitVec.getLsbD_ofNat, Nat.testBit_two_pow_sub_one]
      by_cases hk : k < 8
      · rw [decide_eq_true hk, decide_eq_true (by omega : k < 64)]
        rfl
      · rw [decide_eq_false hk, Bool.and_false]
    rw [hmask]
    rcases Nat.lt_trichotomy (a % 8) (addr % 8) with hlt | heq | hgt
    · -- the byte is below the one that is written
      have hne : a ≠ addr := fun heq => by omega
      have hbelow : 8 * (a % 8) + i < 8 * (addr % 8) := by omega
      rw [if_neg hne, getLsbD_byte, decide_eq_true hi, decide_eq_true hbelow, hword]
      simp
    · obtain rfl : a = addr := by omega
      have hnot : ¬ 8 * (a % 8) + i < 8 * (a % 8) := by omega
      -- the mask clears the old bit, and the new one is that of the value
      rw [if_pos rfl, decide_eq_false hnot, Nat.add_sub_cancel_left, decide_eq_true hi,
        decide_eq_true (by omega : i < 64)]
      simp
    · -- the byte is above it: the value has no bit there
      have hne : a ≠ addr := fun heq => by omega
      have habove : ¬ 8 * (a % 8) + i - 8 * (addr % 8) < 8 := by omega
      have hval : val.getLsbD (8 * (a % 8) + i - 8 * (addr % 8)) = false :=
        BitVec.getLsbD_of_ge _ _ (by omega)
      rw [if_neg hne, getLsbD_byte, decide_eq_true hi, decide_eq_false habove, hval, hword]
      simp
  · have hne : a ≠ addr := fun heq => hword (congrArg (· / 8) heq)
    rw [if_neg hword, if_neg hne, getLsbD_byte, decide_eq_true hi, Bool.true_and]

end PhysMem

namespace ItsFrames

/-- The table has the byte of an LPI. -/
def Has (frames : ItsFrames) (id : Nat) : Prop := 8192 ≤ id ∧ id - 8192 < frames.tableSize

instance (frames : ItsFrames) (id : Nat) : Decidable (frames.Has id) :=
  instDecidableAnd

end ItsFrames

/-- **What a step that may enable an LPI should do**: the number of the LPI is not below the first
one, and the step returns and writes no byte outside the table. -/
structure LpiSafe (frames : ItsFrames) (id? : Option Nat) (run : PhysMem → Option PhysMem) :
    Prop where
  le : ∀ id, id? = some id → 8192 ≤ id
  writes : ∀ mem, ∃ mem', run mem = some mem' ∧
    ∀ a, ¬ (frames.table ≤ a ∧ a < frames.table + frames.tableSize) → mem'.byte a = mem.byte a

/-- A write of `GICR_INVLPIR`, and what it does to memory. -/
def writeInvlpir (board : RedistBoard) (frame : RedistFrame) (s : RedistState) (size value : UInt64)
    (mem : PhysMem) : Option PhysMem :=
  (vgicv3RedistHandler board frame ⟨GICR_INVLPIR.toUInt64, size, true, value⟩ { s with mem }).map
    fun res => res.2.mem

variable {overflowChecks : Bool} {frames : ItsFrames} {id : Nat}

/-- The byte that an LPI of the table sets. -/
theorem enableLpi_of_has (h : frames.Has id) (mem : PhysMem) :
    enableLpi overflowChecks frames id mem =
      some (mem.writeByte (frames.table + (id - 8192)) 1) := by
  have hlt : frames.table + (id - 8192) < 2 ^ 64 :=
    Nat.lt_of_lt_of_le (Nat.add_lt_add_left h.2 _) frames.table_le
  rw [enableLpi, wordSub, if_pos h.1, Option.bind_some, enableOneLpi, wordResult, if_pos hlt]
  rfl

/-- **An LPI of the table may be enabled**, when the table is in no frame. -/
theorem redistAllowed_of_has (hinvlpir : mmio.addr = GICR_INVLPIR)
    (hhas : board.frames.Has mmio.lpi)
    (hapart : ∀ cpu, ∀ a < board.frames.tableSize, ¬ board.InFrame cpu (board.frames.table + a)) :
    RedistAllowed board frame mmio := by
  obtain ⟨hle, hlt⟩ := hhas
  have hend : board.frames.table + (mmio.lpi - 8192) < 2 ^ 64 :=
    Nat.lt_of_lt_of_le (Nat.add_lt_add_left hlt _) board.frames.table_le
  have hsub : wrappingSub mmio.lpi 8192 = mmio.lpi - 8192 := by
    have := mmio.lpi_lt
    rw [wrappingSub, usizeSize]
    omega
  have harm : redistArm mmio.addr = .invlpir := by
    rw [hinvlpir]
    decide
  rw [RedistAllowed, harm]
  refine ⟨fun _ => ⟨hle, hend⟩, fun cpu hframe => absurd hframe ?_⟩
  rw [hsub, Nat.mod_eq_of_lt hend]
  exact hapart cpu _ hlt

/-- An LPI behind the table sets a byte outside of it, or the sum panics. -/
theorem enableLpi_behind (hid : id < 2 ^ 64) (hle : 8192 ≤ id)
    (hout : frames.tableSize ≤ id - 8192) (mem : PhysMem) {mem' : PhysMem}
    (h : enableLpi overflowChecks frames id mem = some mem') :
    ∃ a, ¬ (frames.table ≤ a ∧ a < frames.table + frames.tableSize) ∧
      mem' = mem.writeByte a 1 := by
  rw [enableLpi, wordSub, if_pos hle, Option.bind_some, enableOneLpi, wordResult] at h
  split_ifs at h with hlt hchecks
  · exact ⟨_, fun hin => absurd hin.2 (by omega), (Option.some.inj h).symm⟩
  · cases h
  · refine ⟨_, fun hin => ?_, (Option.some.inj h).symm⟩
    -- the sum wraps once, to an address below the table
    have htable := frames.table_le
    have hwrap : (frames.table + (id - 8192)) % 2 ^ 64 = frames.table + (id - 8192) - 2 ^ 64 := by
      omega
    have hge := hin.1
    rw [hwrap] at hge
    omega

/-- A step that enables an LPI is safe for the LPIs of the table only. -/
theorem lpiSafe_enableLpi_iff (hid : id < 2 ^ 64) :
    LpiSafe frames (some id) (enableLpi overflowChecks frames id) ↔ frames.Has id := by
  constructor
  · intro h
    have hle := h.le id rfl
    refine ⟨hle, Nat.lt_of_not_le fun hout => ?_⟩
    -- on a memory of zeros the byte shows
    obtain ⟨mem', hmem', hsame⟩ := h.writes fun _ => 0
    obtain ⟨a, ha, rfl⟩ := enableLpi_behind hid hle hout _ hmem'
    have hbyte := hsame a ha
    rw [PhysMem.byte_writeByte, if_pos rfl] at hbyte
    have hzero : PhysMem.byte (fun _ => 0) a = 0 := by
      apply BitVec.eq_of_getLsbD_eq
      intro i hi
      rw [PhysMem.getLsbD_byte]
      simp
    exact absurd (hbyte.trans hzero) (by decide)
  · intro h
    refine ⟨fun id' hid' => Option.some.inj hid' ▸ h.1, fun mem => ?_⟩
    refine ⟨_, enableLpi_of_has h mem, fun a ha => ?_⟩
    rw [PhysMem.byte_writeByte, if_neg]
    intro heq
    have hlt := Nat.add_lt_add_left h.2 frames.table
    apply ha
    rw [heq]
    exact ⟨Nat.le_add_right _ _, hlt⟩

/-- A command enables the LPI that it maps, and no other command writes anything. -/
theorem analyzeCmd_eq (value : ItsCmd) (mem : PhysMem) :
    analyzeCmd overflowChecks frames value mem =
      match value.lpi? with
      | some id => enableLpi overflowChecks frames id mem
      | none => some mem := by
  rw [analyzeCmd, ItsCmd.lpi?]
  dsimp only
  split_ifs <;> rfl

theorem ItsCmd.lpi?_lt {value : ItsCmd} (h : value.lpi? = some id) : id < 2 ^ 64 := by
  rw [ItsCmd.lpi?] at h
  split_ifs at h
  · exact Option.some.inj h ▸ BitVec.isLt _
  · exact Option.some.inj h ▸ BitVec.isLt _

theorem lpiSafe_analyzeCmd_iff (value : ItsCmd) :
    LpiSafe frames value.lpi? (analyzeCmd overflowChecks frames value) ↔
      ∀ id, value.lpi? = some id → frames.Has id := by
  have hrun : analyzeCmd overflowChecks frames value = fun mem =>
      match value.lpi? with
      | some id => enableLpi overflowChecks frames id mem
      | none => some mem := funext fun mem => analyzeCmd_eq value mem
  rw [hrun]
  cases hid : value.lpi? with
  | none =>
    refine iff_of_true ⟨fun id h => ?_, fun mem => ?_⟩ fun id h => ?_
    · exact absurd h (Option.some_ne_none id).symm
    · exact ⟨mem, rfl, fun _ _ => rfl⟩
    · exact absurd h (Option.some_ne_none id).symm
  | some id =>
    rw [lpiSafe_enableLpi_iff (ItsCmd.lpi?_lt hid)]
    constructor
    · rintro h id' ⟨⟩
      exact h
    · exact fun h => h id rfl

/-- **LPIs are enabled inside the table** exactly when the table has the byte of each LPI that is
named, by a command or by a write of `GICR_INVLPIR`. -/
theorem lpiSafe_iff (board : RedistBoard) (frame : RedistFrame) (s : RedistState) :
    (∀ value : ItsCmd,
      LpiSafe board.frames value.lpi? (analyzeCmd board.overflowChecks board.frames value) ↔
        ∀ id, value.lpi? = some id → board.frames.Has id) ∧
    (∀ size value : UInt64,
      LpiSafe board.frames (some (value.toNat % 2 ^ 32)) (writeInvlpir board frame s size value) ↔
        board.frames.Has (value.toNat % 2 ^ 32)) := by
  refine ⟨lpiSafe_analyzeCmd_iff, fun size value => ?_⟩
  have hlpi : MMIOAccess.lpi ⟨GICR_INVLPIR.toUInt64, size, true, value⟩ = value.toNat % 2 ^ 32 := by
    show (value.toBitVec &&& 0xffffffff#64).toNat = _
    rw [BitVec.toNat_and]
    exact Nat.and_two_pow_sub_one_eq_mod _ 32
  have hrun : writeInvlpir board frame s size value =
      enableLpi board.overflowChecks board.frames (value.toNat % 2 ^ 32) := by
    funext mem
    have harm : redistArm (MMIOAccess.mk GICR_INVLPIR.toUInt64 size true value).addr = .invlpir :=
      rfl
    rw [writeInvlpir, vgicv3RedistHandler, harm]
    dsimp only
    rw [hlpi, Option.map_map, enableLpi_eq]
    rfl
  rw [hrun]
  exact lpiSafe_enableLpi_iff (Nat.lt_of_lt_of_le (Nat.mod_lt _ (by decide)) (by decide))

/-- A command maps an LPI that the table does not have. -/
theorem not_lpiSafe : ¬ ∀ (overflowChecks : Bool) (frames : ItsFrames) (value : ItsCmd),
    LpiSafe frames value.lpi? (analyzeCmd overflowChecks frames value) := by
  intro h
  have hhas := lpiSafe_analyzeCmd_iff _ |>.mp
    (h true someItsFrames ⟨#[0x0a, 0xffffffff00000000, 0, 0], rfl⟩) 0xffffffff (by decide)
  exact absurd hhas (by decide)

end Hvisor
