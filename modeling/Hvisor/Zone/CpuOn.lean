import Hvisor.Zone.Overlap

/-!
# Guests that start CPUs

`psci_emulate_cpu_on` of aarch64's `trap.rs`, `mpidr_to_cpuid` of `cpu.rs`, `sbi_hsm_start_handler`
of riscv64's `sbi.rs`, and `get_cpu_data` of `percpu.rs`. A guest names the CPU that it starts by
any 64-bit value. The data of the CPUs is an array without a bound: the hypervisor takes what lies
at the place of the id for the data of a CPU, be it beyond the CPUs that exist. A call is modelled
from where it has the `ctrl_lock` of the data; `none` is a panic.

## Main definitions

* `CpuLayout`, `getCpuData`, `cpuSlot`: the array of the CPUs' data
* `mpidrToCpuid`: the CPU id of a value of `MPIDR`
* `psciEmulateCpuOn`, `sbiHsmStartHandler`: the calls
* `CpuIsolated`: what isolation of the zones asks of a call
* `MayStart`: the condition

## Main results

* `cpuSlot_eq`: which ids have their data at a place
* `cpuOn_isolated_iff`: the calls that respect the isolation
* `cpuOn_not_isolated`: a guest starts a CPU of another zone
-/

namespace Hvisor

variable {s s' : Machine} {p c z : Nat}

/-! ## The data of the CPUs -/

/-- The bytes of a CPU's own data, with its stack. -/
def PER_CPU_SIZE : Nat := 512 * 1024

/-- The features of the build that read a value of `MPIDR` in their way. -/
inductive MpidrFeature where
  | standard
  | mpidr_rockchip
  | mpidr_phytium
  | mpidr_e2000q
  deriving DecidableEq

/-- How the hypervisor is built and loaded: the start of the CPUs' data, with room for the ids that
a set of CPUs can have, and whether an overflow panics. -/
structure CpuLayout where
  perCpuArrayPtr : Nat
  overflowChecks : Bool
  feature : MpidrFeature
  fits : perCpuArrayPtr + 64 * PER_CPU_SIZE ≤ 2 ^ 64

variable {b : CpuLayout}

/-- The address of the data of a CPU. -/
def getCpuData (b : CpuLayout) (cpuId : UInt64) : Option Nat :=
  let addr := b.perCpuArrayPtr + cpuId.toNat * PER_CPU_SIZE
  if addr < 2 ^ 64 then some addr
  else if b.overflowChecks then none
  else some (addr % 2 ^ 64)

/-- The place in the array of the data at an address; addresses below the array come last. -/
def CpuLayout.index (b : CpuLayout) (addr : Nat) : Nat :=
  (addr + 2 ^ 64 - b.perCpuArrayPtr) % 2 ^ 64 / PER_CPU_SIZE

/-- The place of the data of a CPU. -/
def cpuSlot (b : CpuLayout) (cpuId : UInt64) : Option Nat := (getCpuData b cpuId).map b.index

/-- The id of a CPU that exists stands for its place; ids that differ by a multiple of `2 ^ 45` have
the same place, when no overflow panics. -/
theorem cpuSlot_eq (b : CpuLayout) (cpuId : UInt64) : cpuSlot b cpuId =
    if b.perCpuArrayPtr + cpuId.toNat * PER_CPU_SIZE < 2 ^ 64 ∨ b.overflowChecks = false
    then some (cpuId.toNat % 2 ^ 45) else none := by
  have hfits := b.fits
  have hindex : ∀ addr, addr % 2 ^ 64 = (b.perCpuArrayPtr + cpuId.toNat * PER_CPU_SIZE) % 2 ^ 64 →
      b.index addr = cpuId.toNat % 2 ^ 45 := by
    intro addr ha
    rw [CpuLayout.index]
    simp only [PER_CPU_SIZE] at *
    omega
  simp only [cpuSlot, getCpuData]
  by_cases hlt : b.perCpuArrayPtr + cpuId.toNat * PER_CPU_SIZE < 2 ^ 64
  · rw [if_pos hlt, if_pos (.inl hlt), Option.map_some, hindex _ rfl]
  · rw [if_neg hlt]
    by_cases hover : b.overflowChecks = true
    · rw [if_pos hover, if_neg (not_or.mpr ⟨hlt, by rw [hover]; nofun⟩), Option.map_none]
    · rw [if_neg hover, if_pos (.inr (by simpa using hover)), Option.map_some,
        hindex _ (Nat.mod_mod _ _)]

theorem cpuSlot_of_lt {cpuId : UInt64} (h : cpuId.toNat < 64) :
    cpuSlot b cpuId = some cpuId.toNat := by
  have hfits := b.fits
  have hlt : b.perCpuArrayPtr + cpuId.toNat * PER_CPU_SIZE < 2 ^ 64 := by
    simp only [PER_CPU_SIZE] at *
    omega
  rw [cpuSlot_eq, if_pos (.inl hlt), Nat.mod_eq_of_lt (by omega)]

/-! ## The calls -/

/-- `mpidr_to_cpuid`. -/
def mpidrToCpuid (feature : MpidrFeature) (mpidr : UInt64) : Option UInt64 :=
  match feature with
  | .standard => some (mpidr &&& 0xff00ffffff)
  | .mpidr_rockchip => some ((mpidr >>> 8) &&& 0xff)
  | .mpidr_phytium =>
    match (mpidr &&& 0xffff).toNat with
    | 0x00 => some 2
    | 0x100 => some 3
    | 0x200 => some 0
    | 0x201 => some 1
    | _ => none
  | .mpidr_e2000q =>
    match (mpidr &&& 0xffff).toNat with
    | 0x00 => some 0
    | 0x100 => some 1
    | 0x200 => some 2
    | 0x201 => some 3
    | _ => none

/-- `send_event`: there are queues for the CPUs that exist. -/
def Machine.sendEvent (s : Machine) (cpuId : UInt64) (e : IpiEvent) : Machine :=
  if cpuId.toNat < s.ncpu then s.send cpuId.toNat e else s

/-- What a call returns, the place of the data that it looks at, and the machine after it. -/
structure CallResult (α : Type) where
  ret : α
  touched : Option Nat
  machine : Machine

/-- `PSCI_CPU_ON` with the registers `x1` and `x2`. -/
def psciEmulateCpuOn (b : CpuLayout) (s : Machine) (mpidr entry : UInt64) :
    Option (CallResult UInt64) := do
  let cpu ← mpidrToCpuid b.feature mpidr
  let target ← cpuSlot b cpu
  if !s.powerOn target then
    let s := { s with cpuOnEntry := Function.update s.cpuOnEntry target entry.toNat,
                      powerOn := Function.update s.powerOn target true }
    return ⟨0, target, s.sendEvent cpu .WAKEUP⟩
  else
    return ⟨0xffffffffffffffff - 3, target, s⟩

/-- What a call returns. -/
inductive SbiError where
  | RET_SUCCESS
  | RET_ERR_FAILED
  | RET_ERR_ALREADY_AVAILABLE
  deriving DecidableEq

/-- `HART_START` by CPU `p` with the registers `a0`, `a1` and `a2`. -/
def sbiHsmStartHandler (b : CpuLayout) (s : Machine) (p : Nat) (cpuid startAddr opaq : UInt64) :
    Option (CallResult SbiError) := do
  if cpuid.toNat = p then
    return ⟨.RET_ERR_ALREADY_AVAILABLE, none, s⟩
  else
    let target ← cpuSlot b cpuid
    if s.powerOn target then
      return ⟨.RET_ERR_FAILED, target, s⟩
    else
      let s := { s with cpuOnEntry := Function.update s.cpuOnEntry target startAddr.toNat,
                        dtbIpa := Function.update s.dtbIpa target opaq.toNat }
      return ⟨.RET_SUCCESS, target, s.sendEvent cpuid .WAKEUP⟩

/-! ## Isolation -/

/-- The CPU is one of the zone of CPU `p`. -/
def Machine.OwnsCpu (s : Machine) (p c : Nat) : Prop := ∃ z, s.zone p = some z ∧ s.owners.Has z c

theorem lt_of_ownsCpu (h : s.OwnsCpu p c) : c < 64 := by
  obtain ⟨z, -, hhas⟩ := h
  exact BitVec.lt_of_getLsbD (Bool.and_eq_true_iff.mp hhas).2

/-- **Isolation of the zones' CPUs** asks of a call of CPU `p` for a CPU: the call changes nothing
of CPUs that are not of the zone, and it fails for such a CPU, changes nothing at all, and looks at
no data but of CPUs that exist. -/
structure CpuIsolated {α : Type} (s : Machine) (p target : Nat) (failed : Prop) (r : CallResult α) :
    Prop where
  others : ∀ c, ¬ s.OwnsCpu p c → r.machine.powerOn c = s.powerOn c ∧
    r.machine.cpuOnEntry c = s.cpuOnEntry c ∧ r.machine.dtbIpa c = s.dtbIpa c ∧
      r.machine.events c = s.events c
  outside : ¬ s.OwnsCpu p target → failed ∧ r.machine = s ∧ ∀ i, r.touched = some i → i < s.ncpu

/-- A call of `PSCI_CPU_ON` by CPU `p` returns, and is isolated. -/
def PsciIsolated (b : CpuLayout) (s : Machine) (p : Nat) (mpidr entry : UInt64) : Prop :=
  ∃ cpu r, mpidrToCpuid b.feature mpidr = some cpu ∧ psciEmulateCpuOn b s mpidr entry = some r ∧
    CpuIsolated s p cpu.toNat (r.ret ≠ 0) r

/-- A call of `HART_START` by CPU `p` returns, and is isolated. -/
def HsmIsolated (b : CpuLayout) (s : Machine) (p : Nat) (cpuid startAddr opaq : UInt64) : Prop :=
  ∃ r, sbiHsmStartHandler b s p cpuid startAddr opaq = some r ∧
    CpuIsolated s p cpuid.toNat (r.ret ≠ .RET_SUCCESS) r

/-- The CPU is one of the caller's zone, or its id stands for a CPU that exists and is on. -/
def MayStart (b : CpuLayout) (s : Machine) (p : Nat) (cpu : UInt64) : Prop :=
  s.OwnsCpu p cpu.toNat ∨ ∃ i, cpuSlot b cpu = some i ∧ i < s.ncpu ∧ s.powerOn i = true

/-- A call that fails at a CPU that exists is isolated. -/
theorem isolated_of_failed {α : Type} {target : Nat} {failed : Prop} {r : CallResult α}
    (hf : failed) (hm : r.machine = s)
    (ht : ¬ s.OwnsCpu p target → ∀ i, r.touched = some i → i < s.ncpu) :
    CpuIsolated s p target failed r := by
  refine ⟨fun c _ => ?_, fun hout => ⟨hf, hm, ht hout⟩⟩
  rw [hm]
  exact ⟨rfl, rfl, rfl, rfl⟩

/-- A call that starts a CPU of the zone is isolated. -/
theorem isolated_of_ownsCpu {α : Type} {cpu : UInt64} {failed : Prop} {r : CallResult α}
    (ho : s.OwnsCpu p cpu.toNat) (hm : ∀ c, c ≠ cpu.toNat → r.machine.powerOn c = s.powerOn c ∧
      r.machine.cpuOnEntry c = s.cpuOnEntry c ∧ r.machine.dtbIpa c = s.dtbIpa c ∧
        r.machine.events c = s.events c) : CpuIsolated s p cpu.toNat failed r := by
  refine ⟨fun c hc => hm c ?_, fun hout => absurd ho hout⟩
  rintro rfl
  exact hc ho

/-- An event changes nothing but the queue of the CPU. -/
theorem sendEvent_of_ne {cpu : UInt64} {e : IpiEvent} (hc : c ≠ cpu.toNat) :
    (s.sendEvent cpu e).powerOn = s.powerOn ∧ (s.sendEvent cpu e).cpuOnEntry = s.cpuOnEntry ∧
      (s.sendEvent cpu e).dtbIpa = s.dtbIpa ∧ (s.sendEvent cpu e).events c = s.events c := by
  rw [Machine.sendEvent]
  split
  · exact ⟨rfl, rfl, rfl, addEvent_of_ne _ _ hc⟩
  · exact ⟨rfl, rfl, rfl, rfl⟩

/-- A call that fails at a CPU that is on, and starts one that is off, is isolated exactly for the
CPUs that the caller may start. -/
theorem isolated_iff_mayStart {α : Type} {cpu : UInt64} {failed : CallResult α → Prop}
    {on off : Nat → CallResult α}
    (hon : ∀ i, failed (on i) ∧ (on i).machine = s ∧ (on i).touched = some i)
    (hoff : ∀ i, ¬ failed (off i) ∧ ∀ c, c ≠ i → c ≠ cpu.toNat →
      (off i).machine.powerOn c = s.powerOn c ∧ (off i).machine.cpuOnEntry c = s.cpuOnEntry c ∧
        (off i).machine.dtbIpa c = s.dtbIpa c ∧ (off i).machine.events c = s.events c) :
    (∃ r, ((cpuSlot b cpu).map fun i => if s.powerOn i then on i else off i) = some r ∧
      CpuIsolated s p cpu.toNat (failed r) r) ↔ MayStart b s p cpu := by
  constructor
  · rintro ⟨r, hr, hi⟩
    obtain ⟨i, hslot, rfl⟩ := Option.map_eq_some_iff.mp hr
    by_cases ho : s.OwnsCpu p cpu.toNat
    · exact .inl ho
    · obtain ⟨hf, -, ht⟩ := hi.outside ho
      by_cases hpow : s.powerOn i = true
      · rw [if_pos hpow] at ht
        exact .inr ⟨i, hslot, ht i (hon i).2.2, hpow⟩
      · rw [if_neg hpow] at hf
        exact absurd hf (hoff i).1
  · rintro (ho | ⟨i, hslot, hlt, hpow⟩)
    · rw [cpuSlot_of_lt (lt_of_ownsCpu ho), Option.map_some]
      refine ⟨_, rfl, ?_⟩
      by_cases hpow : s.powerOn cpu.toNat = true
      · rw [if_pos hpow]
        exact isolated_of_failed (hon _).1 (hon _).2.1 fun hout => absurd ho hout
      · rw [if_neg hpow]
        exact isolated_of_ownsCpu ho fun c hc => (hoff _).2 c hc hc
    · rw [hslot, Option.map_some, if_pos hpow]
      refine ⟨_, rfl, isolated_of_failed (hon i).1 (hon i).2.1 fun _ j hj => ?_⟩
      rw [(hon i).2.2] at hj
      exact Option.some.inj hj ▸ hlt

theorem psciIsolated_iff (b : CpuLayout) (s : Machine) (p : Nat) (mpidr entry : UInt64) :
    PsciIsolated b s p mpidr entry ↔
      ∃ cpu, mpidrToCpuid b.feature mpidr = some cpu ∧ MayStart b s p cpu := by
  refine exists_congr fun cpu => ?_
  rw [exists_and_left]
  refine and_congr_right fun hcpu => ?_
  have hcall : psciEmulateCpuOn b s mpidr entry = (cpuSlot b cpu).map fun i =>
      if s.powerOn i then ⟨0xffffffffffffffff - 3, i, s⟩
      else ⟨0, i, Machine.sendEvent { s with
        cpuOnEntry := Function.update s.cpuOnEntry i entry.toNat
        powerOn := Function.update s.powerOn i true } cpu .WAKEUP⟩ := by
    rw [psciEmulateCpuOn, hcpu, Option.bind_eq_bind, Option.bind_some]
    cases cpuSlot b cpu with
    | none => rfl
    | some i =>
      rw [Option.bind_eq_bind, Option.bind_some, Option.map_some]
      cases s.powerOn i <;> rfl
  have halready : (0xffffffffffffffff - 3 : UInt64) ≠ 0 := by decide
  rw [hcall]
  refine isolated_iff_mayStart (fun i => ⟨halready, rfl, rfl⟩) fun i => ⟨by simp, fun c hi hc => ?_⟩
  obtain ⟨hp, he, hd, hq⟩ := sendEvent_of_ne (s := { s with
    cpuOnEntry := Function.update s.cpuOnEntry i entry.toNat
    powerOn := Function.update s.powerOn i true }) (e := .WAKEUP) hc
  rw [hp, he, hd, hq]
  exact ⟨Function.update_of_ne hi .., Function.update_of_ne hi .., rfl, rfl⟩

theorem hsmIsolated_iff (b : CpuLayout) (s : Machine) (p : Nat) (cpuid startAddr opaq : UInt64) :
    HsmIsolated b s p cpuid startAddr opaq ↔ cpuid.toNat = p ∨ MayStart b s p cpuid := by
  rw [HsmIsolated]
  by_cases hself : cpuid.toNat = p
  · simp only [sbiHsmStartHandler, hself, if_true, true_or, iff_true]
    exact ⟨_, rfl, isolated_of_failed nofun rfl fun _ i hi => nomatch hi⟩
  have hcall : sbiHsmStartHandler b s p cpuid startAddr opaq = (cpuSlot b cpuid).map fun i =>
      if s.powerOn i then ⟨.RET_ERR_FAILED, i, s⟩
      else ⟨.RET_SUCCESS, i, Machine.sendEvent { s with
        cpuOnEntry := Function.update s.cpuOnEntry i startAddr.toNat
        dtbIpa := Function.update s.dtbIpa i opaq.toNat } cpuid .WAKEUP⟩ := by
    simp only [sbiHsmStartHandler, hself, if_false, Option.bind_eq_bind]
    cases cpuSlot b cpuid with
    | none => rfl
    | some i => cases hpow : s.powerOn i <;> simp [hpow]
  rw [hcall, or_iff_right hself]
  refine isolated_iff_mayStart (fun i => ⟨nofun, rfl, rfl⟩) fun i => ⟨by simp, fun c hi hc => ?_⟩
  obtain ⟨hp, he, hd, hq⟩ := sendEvent_of_ne (s := { s with
    cpuOnEntry := Function.update s.cpuOnEntry i startAddr.toNat
    dtbIpa := Function.update s.dtbIpa i opaq.toNat }) (e := .WAKEUP) hc
  rw [hp, he, hd, hq]
  exact ⟨rfl, Function.update_of_ne hi .., Function.update_of_ne hi .., rfl⟩

/-- **The calls that respect the isolation** of the zones' CPUs, of whatever CPU in whatever state:
those for a CPU of the caller's zone, and those with an id that stands for a CPU that exists and is
on. -/
theorem cpuOn_isolated_iff (b : CpuLayout) (s : Machine) (p : Nat) :
    (∀ mpidr entry, PsciIsolated b s p mpidr entry ↔
      ∃ cpu, mpidrToCpuid b.feature mpidr = some cpu ∧ MayStart b s p cpu) ∧
    ∀ cpuid startAddr opaq, HsmIsolated b s p cpuid startAddr opaq ↔
      cpuid.toNat = p ∨ MayStart b s p cpuid :=
  ⟨psciIsolated_iff b s p, hsmIsolated_iff b s p⟩

/-- The layout of a board, with the checks of a debug build. -/
def debugLayout : CpuLayout where
  perCpuArrayPtr := 0x40500000
  overflowChecks := true
  feature := .standard
  fits := by decide

/-- The guest of CPU 2 runs in zone 1 and starts CPU 3, which zone 2 is started on: the call
succeeds and gives the CPU another entry point. -/
theorem cpuOn_not_isolated : ¬ ∀ b h s p, lifecycle.Run h s → p < s.ncpu → (s.zone p).isSome →
    (∀ mpidr entry, PsciIsolated b s p mpidr entry) ∧
      ∀ cpuid startAddr opaq, HsmIsolated b s p cpuid startAddr opaq := by
  have hr : ((lifeRun (fun _ _ _ => true) (startActs 0 1 [2] ++ wakeActs 2 ++ startActs 0 2 [3])
      ([], bootMachine)).map fun r => (r.2.ncpu, r.2.zone 2, (r.2.zones 1).cpuSet, r.2.powerOn 3)) =
        some (4, some 1, ⟨4, 0b100⟩, false) := by
    decide +kernel
  intro hall
  obtain ⟨⟨h, s⟩, hrun, he⟩ := Option.map_eq_some_iff.mp hr
  simp only [Prod.mk.injEq] at he
  obtain ⟨hn, hz, hset, hoff⟩ := he
  have hiso := (hall debugLayout h s 2 (run_of_lifeRun (.start bootMachine_initial) hrun) (by omega)
    (by rw [hz]; rfl)).1 3 0x40000000
  obtain ⟨cpu, hcpu, hmay⟩ := (psciIsolated_iff ..).mp hiso
  obtain rfl : 3 = cpu := Option.some.inj hcpu
  rcases hmay with ⟨z, hz', hhas⟩ | ⟨i, hslot, -, hon⟩
  · obtain rfl := Option.some.inj (hz.symm.trans hz')
    rw [Owners.Has, Machine.owners, hset] at hhas
    cases hhas
  · rw [cpuSlot_of_lt (by decide)] at hslot
    obtain rfl := Option.some.inj hslot
    have hon : s.powerOn 3 = true := hon
    rw [hoff] at hon
    cases hon

end Hvisor
