import Hvisor.Cpu
import Hvisor.Irqchip.Vgicv2

/-!
# Software interrupts of guests

How a guest interrupts other CPUs, from `arch/aarch64/trap.rs` for a GICv3, `gicv2/vgic.rs` for a
GICv2, and `arch/riscv64/sbi.rs`. The interrupt controllers decode what is written as their
specifications say, and a mask of harts is decoded as the SBI says.

## Main definitions

* `SoftMachine`: the CPUs, with their zones, affinities and event queues
* `handleSysreg`, `sbiIpiHandler`: the handlers; the one of a GICv2 is `vgicv2DistHandler`
* `SoftIrq`, `Delivered`: what a guest writes or passes, and the CPUs that are interrupted
* `Names`: the CPUs that the values name

## Main results

* `delivered_iff_names`: a software interrupt goes exactly to the CPUs that are named
* `softIrq_isolated_iff`: when a software interrupt stays in the zone of its sender
-/

namespace Hvisor

/-- The CPUs of a machine: their zones, affinities, whether they are marked as on, and events. -/
structure SoftMachine (ι : Type) where
  ncpu : Nat
  zone : Nat → Option ι
  mpidr : Nat → BitVec 64
  powerOn : Nat → Bool
  events : EventQueues

variable {ι : Type}

/-! ## GICv3 -/

/-- What is written to `ICC_SGI1R_EL1` when the guest of a CPU writes a value to it. -/
def handleSysreg (powerOn : Bool) (val : BitVec 64) : Option (BitVec 64) :=
  if !powerOn then none else some val

/-- The CPU is a target of the value in `ICC_SGI1R_EL1`: any other CPU, by the mode bit, or one with
the affinity levels and in the target list. -/
def sgi1rTargets (val : BitVec 64) (self cpu : Nat) (mpidr : BitVec 64) : Bool :=
  if val.getLsbD 40 then cpu != self
  else
    mpidr.extractLsb' 32 8 == val.extractLsb' 48 8 &&
    mpidr.extractLsb' 16 8 == val.extractLsb' 32 8 &&
      mpidr.extractLsb' 8 8 == val.extractLsb' 16 8 &&
      (mpidr.extractLsb' 4 4 == val.extractLsb' 44 4 &&
        val.getLsbD (mpidr.extractLsb' 0 4).toNat)

/-! ## GICv2 -/

/-- The CPU is a target of the value in `GICD_SGIR`, by the filter: the target list, the other CPUs,
or the CPU itself. -/
def sgirTargets (val : BitVec 64) (self cpu : Nat) : Bool :=
  match val.getLsbD 25, val.getLsbD 24 with
  | false, false => decide (cpu < 8) && val.getLsbD (16 + cpu)
  | false, true => cpu != self
  | true, false => cpu == self
  | true, true => false

/-- A write of the distributor that raises a software interrupt. -/
def raisesSgi (w : BusWrite) : Bool := w.address == Gicv2.GICD_SGIR_REG_OFFSET && w.size == 4

/-! ## SBI -/

/-- The function that interrupts harts. -/
def SEND_IPI : Nat := 0

/-- `HartMask::has_bit`: the mask counts from its base, and the base of all ones names all harts. -/
def hasBit (hartMask hartMaskBase : BitVec 64) (hartId : Nat) : Bool :=
  if hartMaskBase = BitVec.allOnes 64 then true
  else decide (hartMaskBase.toNat ≤ hartId) && hartMask.getLsbD (hartId - hartMaskBase.toNat)

/-- The queues of the CPUs that there are take the event. -/
def sendEvent (ncpu : Nat) (q : EventQueues) (cpu : Nat) (event : IpiEvent) : EventQueues :=
  if cpu < ncpu then addEvent q cpu event else q

/-- The loop of `sbi_ipi_handler` over the first `n` harts. -/
def sendIpis (ncpu : Nat) (hartMask hartMaskBase : BitVec 64) (q : EventQueues) : Nat → EventQueues
  | 0 => q
  | cpuId + 1 =>
    let q := sendIpis ncpu hartMask hartMaskBase q cpuId
    if hasBit hartMask hartMaskBase cpuId then sendEvent ncpu q cpuId .SEND_IPI else q

/-- `sbi_ipi_handler`: an event is queued for the harts that are named. -/
def sbiIpiHandler (ncpu fid : Nat) (hartMask hartMaskBase : BitVec 64) (q : EventQueues) :
    EventQueues :=
  if fid = SEND_IPI then sendIpis ncpu hartMask hartMaskBase q 64 else q

/-! ## Delivery -/

/-- What a guest writes to `ICC_SGI1R_EL1`, or to `GICD_SGIR` as a word, or passes to the SBI. -/
inductive SoftIrq where
  | sgi1r (val : BitVec 64)
  | sgir (irqBitmap : IrqBitmap) (value : UInt64)
  | sendIpi (hartMask hartMaskBase : BitVec 64)

/-- The call of the guest of CPU `self` interrupts the CPU, or queues an event for it. -/
def Delivered (m : SoftMachine ι) (self : Nat) (call : SoftIrq) (cpu : Nat) : Prop :=
  cpu < m.ncpu ∧
  match call with
  | .sgi1r val =>
    ∃ val', handleSysreg (m.powerOn self) val = some val' ∧
      sgi1rTargets val' self cpu (m.mpidr cpu) = true
  | .sgir irqBitmap value =>
    ∃ mmio dev, Gicv2.vgicv2DistHandler irqBitmap ⟨0x0F00, 4, true, value⟩ ⟨fun _ => 0, []⟩ =
        some (mmio, dev) ∧
      ∃ w ∈ dev.writes, raisesSgi w = true ∧ sgirTargets w.value self cpu = true
  | .sendIpi hartMask hartMaskBase =>
    (sbiIpiHandler m.ncpu SEND_IPI hartMask hartMaskBase m.events) cpu ≠ m.events cpu

/-- The values name the CPU. On a GICv3 a CPU that is not marked as on names none. -/
def Names (m : SoftMachine ι) (self : Nat) (call : SoftIrq) (cpu : Nat) : Prop :=
  match call with
  | .sgi1r val => m.powerOn self = true ∧ sgi1rTargets val self cpu (m.mpidr cpu) = true
  | .sgir _ value => sgirTargets value.toBitVec self cpu = true
  | .sendIpi hartMask hartMaskBase => cpu < 64 ∧ hasBit hartMask hartMaskBase cpu = true

theorem addEvent_ne (q : EventQueues) (cpu : Nat) : addEvent q cpu .SEND_IPI cpu ≠ q cpu := by
  rw [addEvent_same, if_neg (by decide)]
  intro h
  simpa using congrArg List.length h

/-- The loop queues an event for the harts that are named, and for no other. -/
theorem sendIpis_ne_iff (ncpu : Nat) (hartMask hartMaskBase : BitVec 64) (q : EventQueues)
    (n cpu : Nat) :
    sendIpis ncpu hartMask hartMaskBase q n cpu ≠ q cpu ↔
      cpu < n ∧ cpu < ncpu ∧ hasBit hartMask hartMaskBase cpu = true := by
  induction n with
  | zero => simp [sendIpis]
  | succ n ih =>
    simp only [sendIpis]
    rcases Nat.lt_trichotomy cpu n with h | rfl | h
    · -- the last round is about another hart
      have hlast : ∀ q, sendEvent ncpu q n .SEND_IPI cpu = q cpu := by
        intro q
        rw [sendEvent]
        split
        · exact addEvent_of_ne q _ h.ne
        · rfl
      have hlt : cpu < n + 1 := by omega
      split
      · rw [hlast, ih]
        simp only [h, hlt]
      · rw [ih]
        simp only [h, hlt]
    · -- the last round is about this hart, and no round before it was
      have hold : sendIpis ncpu hartMask hartMaskBase q cpu cpu = q cpu := by
        by_contra hne
        exact absurd (ih.mp hne).1 (Nat.lt_irrefl cpu)
      split
      · next hb =>
        rw [sendEvent]
        split
        · next hlt =>
          refine iff_of_true ?_ ⟨Nat.lt_succ_self _, hlt, hb⟩
          rw [← hold]
          exact addEvent_ne _ _
        · next hlt => exact iff_of_false (fun hne => hne hold) fun hc => hlt hc.2.1
      · next hb => exact iff_of_false (fun hne => hne hold) fun hc => hb hc.2.2
    · have hold : sendIpis ncpu hartMask hartMaskBase q n cpu = q cpu := by
        by_contra hne
        exact absurd (ih.mp hne).1 (by omega)
      have hlast : sendEvent ncpu (sendIpis ncpu hartMask hartMaskBase q n) n .SEND_IPI cpu =
          q cpu := by
        rw [sendEvent]
        split
        · rw [addEvent_of_ne _ _ (by omega), hold]
        · exact hold
      refine iff_of_false ?_ fun hc => absurd hc.1 (by omega)
      split
      · exact fun hne => hne hlast
      · exact fun hne => hne hold

/-- The targets of a word are in its low four bytes. -/
theorem sgirTargets_lowBytes (value : BitVec 64) (self cpu : Nat) :
    sgirTargets (lowBytes value 4) self cpu = sgirTargets value self cpu := by
  have h25 : (lowBytes value 4).getLsbD 25 = value.getLsbD 25 := by
    rw [getLsbD_lowBytes, decide_eq_true (by decide), Bool.true_and]
  have h24 : (lowBytes value 4).getLsbD 24 = value.getLsbD 24 := by
    rw [getLsbD_lowBytes, decide_eq_true (by decide), Bool.true_and]
  have hlist : (decide (cpu < 8) && (lowBytes value 4).getLsbD (16 + cpu)) =
      (decide (cpu < 8) && value.getLsbD (16 + cpu)) := by
    by_cases hc : cpu < 8
    · rw [getLsbD_lowBytes, decide_eq_true (by omega : 16 + cpu < 8 * 4), Bool.true_and]
    · rw [decide_eq_false hc, Bool.false_and, Bool.false_and]
  simp only [sgirTargets, h25, h24, hlist]

/-- **A software interrupt goes exactly to the CPUs that are named**, whatever their zone is. -/
theorem delivered_iff_names (m : SoftMachine ι) (self : Nat) (call : SoftIrq) (cpu : Nat) :
    Delivered m self call cpu ↔ cpu < m.ncpu ∧ Names m self call cpu := by
  refine and_congr_right fun hlt => ?_
  cases call with
  | sgi1r val =>
    simp only [handleSysreg, Names]
    cases m.powerOn self <;> simp
  | sgir irqBitmap value =>
    simp only [Gicv2.vgicv2DistHandler_sgir, Option.some.injEq, Prod.mk.injEq, Names]
    constructor
    · rintro ⟨mmio, dev, ⟨-, rfl⟩, w, hw, -, ht⟩
      obtain rfl := List.mem_singleton.mp hw
      rwa [sgirTargets_lowBytes] at ht
    · intro ht
      refine ⟨_, _, ⟨rfl, rfl⟩, _, List.mem_singleton.mpr rfl, rfl, ?_⟩
      rwa [sgirTargets_lowBytes]
  | sendIpi hartMask hartMaskBase =>
    simp only [sbiIpiHandler, if_true, sendIpis_ne_iff, Names]
    exact ⟨fun h => ⟨h.1, h.2.2⟩, fun h => ⟨h.1, hlt, h.2⟩⟩

/-- **When a software interrupt stays in the zone of its sender**: it goes to the CPUs that the
guest names, whatever its number is, so exactly when the guest names no CPU outside. -/
theorem softIrq_isolated_iff (m : SoftMachine ι) (self : Nat) (call : SoftIrq) :
    (∀ cpu, Delivered m self call cpu ↔ cpu < m.ncpu ∧ Names m self call cpu) ∧
      ((∀ cpu, Delivered m self call cpu → m.zone cpu = m.zone self) ↔
        ∀ cpu < m.ncpu, m.zone cpu ≠ m.zone self → ¬ Names m self call cpu) := by
  refine ⟨delivered_iff_names m self call, ?_⟩
  simp only [delivered_iff_names]
  constructor
  · exact fun h cpu hlt hne hn => hne (h cpu ⟨hlt, hn⟩)
  · exact fun h cpu ⟨hlt, hn⟩ => by_contra fun hne => h cpu hlt hne hn

/-- Two zones on one CPU each. -/
def twoSoftCpus : SoftMachine Bool where
  ncpu := 2
  zone cpu := some (cpu == 0)
  mpidr cpu := BitVec.ofNat 64 cpu
  powerOn _ := true
  events _ := []

/-- On each of the three ways a guest interrupts the CPU of another zone, on the first two with the
hypervisor's own event interrupt. -/
theorem softIrq_not_isolated :
    (¬ ∀ (m : SoftMachine Bool) (self : Nat) (val : BitVec 64) (cpu : Nat),
      Delivered m self (.sgi1r val) cpu → m.zone cpu = m.zone self) ∧
    (¬ ∀ (m : SoftMachine Bool) (self : Nat) (irqBitmap : IrqBitmap) (value : UInt64) (cpu : Nat),
      Delivered m self (.sgir irqBitmap value) cpu → m.zone cpu = m.zone self) ∧
    ¬ ∀ (m : SoftMachine Bool) (self : Nat) (hartMask hartMaskBase : BitVec 64) (cpu : Nat),
      Delivered m self (.sendIpi hartMask hartMaskBase) cpu → m.zone cpu = m.zone self := by
  refine ⟨fun h => ?_, fun h => ?_, fun h => ?_⟩
  · have hd : Delivered twoSoftCpus 0 (.sgi1r 0x7000002) 1 :=
      ⟨by decide, 0x7000002, rfl, by decide⟩
    exact absurd (h twoSoftCpus 0 _ 1 hd) (by decide)
  · have hd : Delivered twoSoftCpus 0 (.sgir (Vector.replicate _ 0) 0x20007) 1 :=
      ⟨by decide, _, _, Gicv2.vgicv2DistHandler_sgir _ _ _, _, List.mem_singleton.mpr rfl, rfl,
        by decide⟩
    exact absurd (h twoSoftCpus 0 _ _ 1 hd) (by decide)
  · have hd : Delivered twoSoftCpus 0 (.sendIpi 2 0) 1 := ⟨by decide, by decide⟩
    exact absurd (h twoSoftCpus 0 _ _ 1 hd) (by decide)

end Hvisor
