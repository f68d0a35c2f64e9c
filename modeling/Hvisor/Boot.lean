import Hvisor.Arch.S2pt
import Hvisor.Lib.Rendezvous
import Hvisor.Lib.TransitionSystem

/-!
# Booting

`rust_main` on all CPUs, from `main.rs`, with what comes before it in `arch_entry` and the detection
of the physical address size, `setup_parange` from `arch/aarch64/mm.rs`. One CPU comes out of reset
and starts the others. A step is one access to a variable that the CPUs share; a CPU that spins on
such a variable takes no step until the condition is met. Logging and what a CPU does with its own
memory are left out, and so is all that the primary sets up on its own except for the address space
of the root zone.

## Main definitions

* `Board`: the build, the device tree and the CPUs
* `BootPc`, `BootState`: where each CPU is, and the variables that the CPUs share
* `bootStep`, `bootSystem`: the steps
* `BootPc.stage`: how far a CPU is
-/

namespace Hvisor

open Function

/-- The CPUs that the hypervisor has room for. -/
def MAX_CPU_NUM : Nat := 32

/-- The architecture of the build. -/
inductive TargetArch where
  | aarch64
  | riscv64
  | loongarch64
  deriving DecidableEq

/-- The build and the board: whether CPU ids are looked up in a table (`mpidr_phytium`,
`mpidr_e2000q`), whether the CPUs are counted, the CPUs in the device tree, the default for them,
the CPU that comes out of reset, and the value of `ID_AA64MMFR0_EL1` on each CPU. -/
structure Board where
  arch : TargetArch
  mpidrTable : Bool
  autodetectNcpus : Bool
  cpuNodes : Nat
  boardNcpus : Nat
  bootCpu : Nat
  idAa64mmfr0El1 : Nat → BitVec 64
  boardNcpus_pos : 0 < boardNcpus
  boardNcpus_le : boardNcpus ≤ MAX_CPU_NUM

namespace Board

/-- The CPUs that are counted in the device tree. -/
def detectedCpus (b : Board) : Nat :=
  if b.arch ≠ .loongarch64 ∧ b.autodetectNcpus = true then b.cpuNodes else 0

/-- The number of CPUs that `rust_main` goes by. -/
def ncpu (b : Board) : Nat :=
  if b.detectedCpus = 0 then b.boardNcpus
  else if MAX_CPU_NUM < b.detectedCpus then MAX_CPU_NUM
  else b.detectedCpus

/-- `cpu_start` knows how to address the CPU; otherwise it panics. -/
def canStart (b : Board) (cpuid : Nat) : Bool :=
  match b.arch with
  | .aarch64 => !b.mpidrTable || decide (1 ≤ cpuid ∧ cpuid ≤ 3)
  | .riscv64 => true
  | .loongarch64 => decide (1 ≤ cpuid ∧ cpuid ≤ 3)

/-- The field `PARange` of a CPU. -/
def parange (b : Board) (cpu : Nat) : Nat := (b.idAa64mmfr0El1 cpu &&& 0xf).toNat

theorem ncpu_pos (b : Board) : 0 < b.ncpu := by
  rw [ncpu]
  split_ifs with hzero hmax
  · exact b.boardNcpus_pos
  · decide
  · exact Nat.pos_of_ne_zero hzero

theorem ncpu_le (b : Board) : b.ncpu ≤ MAX_CPU_NUM := by
  rw [ncpu]
  split_ifs with hzero hmax
  · exact b.boardNcpus_le
  · exact le_rfl
  · exact Nat.le_of_not_lt hmax

end Board

/-! ## States -/

/-- The next access of a CPU to what the CPUs share; the argument says that it is the primary. -/
inductive BootPc where
  | off
  | archEntry
  | loadMaster
  | storeMaster
  | setup
  | wake (cpuId : Nat)
  | enter (primary : Bool)
  | waitEntered (primary : Bool)
  | checkEntered (primary : Bool)
  | storeNcpu (primary : Bool)
  | minParange (primary : Bool)
  | addParange (primary : Bool)
  | waitParange (primary : Bool)
  | waitEarly
  | initEarly
  | storeEarly
  | addInited (primary : Bool)
  | waitInited (primary : Bool)
  | waitLate
  | initLate
  | runVm (primary : Bool)
  | panicked
  deriving DecidableEq

/-- How far a CPU is. -/
def BootPc.stage : BootPc → Nat
  | off => 0
  | archEntry => 1
  | loadMaster => 2
  | storeMaster => 3
  | setup => 4
  | wake _ => 5
  | enter _ => 6
  | waitEntered _ => 7
  | checkEntered _ => 8
  | storeNcpu _ => 9
  | minParange _ => 10
  | addParange _ => 11
  | waitParange _ => 12
  | waitEarly | initEarly => 13
  | storeEarly => 14
  | addInited _ => 15
  | waitInited _ => 16
  | waitLate | initLate => 17
  | runVm _ => 18
  | panicked => 19

/-- The statics of `main.rs`, `consts.rs` and `mm.rs`, and the number of levels of the address space
of the root zone, once there is one. -/
structure BootState where
  pc : Nat → BootPc
  masterCpu : BitVec 32
  constsNcpu : Nat
  enteredCpus : Nat
  initEarlyOk : Nat
  initedCpus : Nat
  initLateOk : Nat
  minParange : Nat
  parangeOkCpus : Nat
  parangeNcpu : Nat
  rootZone : Option Nat

namespace BootState

/-- The CPU goes on at a place. -/
def goto (s : BootState) (p : Nat) (pc : BootPc) : BootState :=
  { s with pc := update s.pc p pc }

/-- The statics of the `.bss` section are zeroed; the others start with another value. -/
def clearBss (s : BootState) : BootState :=
  { s with enteredCpus := 0, initEarlyOk := 0, initedCpus := 0, initLateOk := 0,
           parangeOkCpus := 0, parangeNcpu := 0 }

end BootState

/-- `fetch_add(1)` on an `AtomicU32`. -/
def fetchAdd (n : Nat) : Nat := (n + 1) % 2 ^ 32

/-- All CPUs are off except for the one that comes out of reset. -/
def Board.reset (b : Board) : BootState where
  pc := update (fun _ => .off) b.bootCpu .archEntry
  masterCpu := -1
  constsNcpu := MAX_CPU_NUM
  enteredCpus := 0
  initEarlyOk := 0
  initedCpus := 0
  initLateOk := 0
  minParange := 0x7
  parangeOkCpus := 0
  parangeNcpu := 0
  rootZone := none

/-! ## Steps -/

/-- The number of levels that `new_s2_memory_set` takes; on AArch64 it asserts that all CPUs have
told their `PARange`, and looks up the smallest. -/
def Board.newS2Level (b : Board) (s : BootState) : Option Nat :=
  match b.arch with
  | .aarch64 =>
    if s.parangeOkCpus = s.parangeNcpu then
      PARANGE_TABLE[s.minParange]?.map fun bits => if bits < 44 then 3 else 4
    else none
  | .riscv64 => some 3
  | .loongarch64 => some 4

/-- One round of `wakeup_secondary_cpus`. A CPU that runs already is an error that AArch64 ignores
and RISC-V does not; on LoongArch the interrupt has no effect. -/
def Board.wakeCpu (b : Board) (s : BootState) (p c : Nat) : BootState :=
  if c = p then s.goto p (.wake (c + 1))
  else if b.canStart c then
    if s.pc c = .off then (s.goto c .archEntry).goto p (.wake (c + 1))
    else if b.arch = .riscv64 then s.goto p .panicked
    else s.goto p (.wake (c + 1))
  else s.goto p .panicked

/-- A CPU takes a step; none while it spins, is off, has panicked, or runs a zone. -/
def bootStep (b : Board) (s : BootState) (p : Nat) : Option BootState :=
  match s.pc p with
  | .off | .runVm _ | .panicked => none
  | .archEntry =>
    some ((if b.arch = .aarch64 ∧ p = 0 then s.clearBss else s).goto p .loadMaster)
  | .loadMaster =>
    some (s.goto p (if s.masterCpu = -1 then .storeMaster else .enter false))
  | .storeMaster => some ({ s with masterCpu := BitVec.ofNat 32 p }.goto p .setup)
  | .setup =>
    let s := if b.arch = .riscv64 then s.clearBss else s
    some ({ s with constsNcpu := b.ncpu }.goto p (.wake 0))
  | .wake c => some (if c < b.ncpu then b.wakeCpu s p c else s.goto p (.enter true))
  | .enter primary =>
    some ({ s with enteredCpus := fetchAdd s.enteredCpus }.goto p (.waitEntered primary))
  | .waitEntered primary =>
    if s.enteredCpus < b.ncpu then none else some (s.goto p (.checkEntered primary))
  | .checkEntered primary =>
    some (s.goto p (if s.enteredCpus ≠ b.ncpu then .panicked
      else if b.arch = .aarch64 then .storeNcpu primary
      else if primary then .initEarly else .waitEarly))
  | .storeNcpu primary => some ({ s with parangeNcpu := b.ncpu }.goto p (.minParange primary))
  | .minParange primary =>
    some ({ s with minParange := min s.minParange (b.parange p) }.goto p (.addParange primary))
  | .addParange primary =>
    some ({ s with parangeOkCpus := fetchAdd s.parangeOkCpus }.goto p (.waitParange primary))
  | .waitParange primary =>
    if s.parangeOkCpus < s.parangeNcpu then none
    else some (s.goto p (if primary then .initEarly else .waitEarly))
  | .waitEarly => if s.initEarlyOk < 1 then none else some (s.goto p (.addInited false))
  | .initEarly =>
    match b.newS2Level s with
    | some level => some ({ s with rootZone := some level }.goto p .storeEarly)
    | none => some (s.goto p .panicked)
  | .storeEarly => some ({ s with initEarlyOk := 1 }.goto p (.addInited true))
  | .addInited primary =>
    some ({ s with initedCpus := fetchAdd s.initedCpus }.goto p (.waitInited primary))
  | .waitInited primary =>
    if s.initedCpus < b.ncpu then none
    else some (s.goto p (if primary then .initLate else .waitLate))
  | .waitLate => if s.initLateOk < 1 then none else some (s.goto p (.runVm false))
  | .initLate => some ({ s with initLateOk := 1 }.goto p (.runVm true))

/-- The boot of a board, a step of one CPU at a time. -/
def bootSystem (b : Board) : TransitionSystem BootState Nat :=
  .ofStep (· = b.reset) (bootStep b)

end Hvisor
