import Hvisor.Irqchip.Vgicv3
import Hvisor.Lib.TransitionSystem
import Mathlib.Logic.Function.Basic

/-!
# Routing of shared interrupts

Guests access the distributor, which signals shared interrupts to CPUs, where the hypervisor injects
them into the guest, from `gicv3/vgic.rs` and `gicv3/mod.rs`. Zones are given by the interrupts that
they have and the CPUs that they own.

The distributor is as affinity routing has it: a shared interrupt that is enabled is signalled to
the CPU whose affinity its routing register names, or to any CPU if the register has the mode bit.
Priorities and groups only hold interrupts back, and are left out.

## Main definitions

* `Gicd`, `Gicd.routesTo`: the distributor, and where it sends an interrupt
* `injectIrq`, `handleMaintenaceInterrupt`, `gicv3HandleIrq`: the handling of an interrupt
* `SpiPlatform`, `spiRouting`: the zones, and the system of accesses and interrupts
* `RoutesHome`, `KeepsHome`: interrupts that go to their zone, and writes that keep them there

## Main results

* `Gicd.access_effect`: which interrupts an access enables and routes
* `spi_confined`: while zones keep their interrupts home, each is injected into its zone
-/

namespace Hvisor

/-! ## The distributor -/

/-- The state of the distributor: the bits that enable interrupts, and the bytes of the other
registers. -/
structure Gicd where
  enable : Nat → BitVec 8
  mem : Nat → BitVec 8

namespace Gicd

/-- What a byte of the distributor reads as; the enabling and the disabling registers show the same
bits. -/
def byte (d : Gicd) (off : Nat) : BitVec 8 :=
  if GICD_ISENABLER ≤ off ∧ off < GICD_ISPENDR then d.enable ((off - GICD_ISENABLER) % 0x80)
  else d.mem off

/-- A write of a byte, which enables or disables interrupts or sets a route. -/
def writeByte (d : Gicd) (off : Nat) (b : BitVec 8) : Gicd :=
  if GICD_ISENABLER ≤ off ∧ off < GICD_ICENABLER then
    let k := off - GICD_ISENABLER
    { d with enable := Function.update d.enable k (d.enable k ||| b) }
  else if GICD_ICENABLER ≤ off ∧ off < GICD_ISPENDR then
    let k := off - GICD_ICENABLER
    { d with enable := Function.update d.enable k (d.enable k &&& ~~~b) }
  else { d with mem := Function.update d.mem off b }

/-- The first `n` bytes of a write reach the distributor. -/
def take (d : Gicd) (w : BusWrite) : Nat → Gicd
  | 0 => d
  | n + 1 => (d.take w n).writeByte (w.address + n) (w.value.extractLsb' (8 * n) 8)

/-- The writes of an access one after the other. -/
def takeAll (d : Gicd) (writes : List BusWrite) : Gicd :=
  writes.foldl (fun d w => d.take w w.size) d

/-- The interrupt is enabled. -/
def enabled (d : Gicd) (irq : Nat) : Bool := (d.enable (irq / 8)).getLsbD (irq % 8)

/-- The routing register of an interrupt. -/
def router (d : Gicd) (irq : Nat) : BitVec 64 := Device.load ⟨d.mem, []⟩ (GICD_IROUTER + 8 * irq) 8

/-- The fields of an affinity, in a routing register and in `MPIDR_EL1`. -/
def affinity (r : BitVec 64) : BitVec 64 := r &&& 0xff00ffffff

/-- The interrupt goes to a CPU with the affinity: by the mode bit, or by name. -/
def routesTo (d : Gicd) (irq : Nat) (mpidr : BitVec 64) : Bool :=
  (d.router irq).getLsbD 31 || affinity (d.router irq) == affinity mpidr

end Gicd

/-! ## Interrupts on a CPU -/

/-- The distributor, the interrupts that CPUs wait to inject, and those that they injected, with the
CPU. -/
structure SpiState where
  gicd : Gicd
  pendingVirqs : Nat → List (Nat × Bool)
  injected : List (Nat × Nat)

/-- What the search in the list registers of a CPU finds. -/
inductive LrSearch where
  /-- The interrupt is in a register. -/
  | listed
  | free
  | full
  deriving DecidableEq

/-- The interrupt of the hypervisor's own events. -/
def SGI_IPI_ID : Nat := 7
/-- The maintenance interrupt. -/
def MAINTENACE_INTERRUPT : Nat := 25

namespace SpiState

/-- The interrupt waits in the queue of the CPU. -/
def addIrq (s : SpiState) (cpu irqId : Nat) (isHardware : Bool) : SpiState :=
  { s with pendingVirqs :=
      Function.update s.pendingVirqs cpu (s.pendingVirqs cpu ++ [(irqId, isHardware)]) }

/-- `inject_irq` on a CPU: whether the interrupt need not be added to the pending ones. -/
def injectIrq (s : SpiState) (cpu irqId : Nat) (isHardware : Bool) : LrSearch → SpiState × Bool
  | .listed => (s, true)
  | .free => ({ s with injected := (cpu, irqId) :: s.injected }, true)
  | .full => (s.addIrq cpu irqId isHardware, false)

/-- The loop of `handle_maintenace_interrupt`; each round but the last one takes a pending
interrupt, of which there are at most `n`. -/
def handleMaintenaceInterrupt (s : SpiState) (cpu : Nat) (search : Nat → LrSearch) :
    Nat → SpiState
  | 0 => s
  | n + 1 =>
    match s.pendingVirqs cpu with
    | [] => s
    | (irqId, isHardware) :: irqs =>
      let s := { s with pendingVirqs := Function.update s.pendingVirqs cpu irqs }
      match s.injectIrq cpu irqId isHardware (search n) with
      | (s, true) => s.handleMaintenaceInterrupt cpu search n
      -- the interrupt is added again, after `inject_irq` has added it
      | (s, false) => s.addIrq cpu irqId isHardware

/-- `gicv3_handle_irq_el1` with one interrupt; `ipiHandled` is what `check_events` answers. -/
def gicv3HandleIrq (s : SpiState) (cpu irqId : Nat) (ipiHandled : Bool)
    (search : Nat → LrSearch) : SpiState :=
  if irqId < 8 then
    if irqId = SGI_IPI_ID ∧ ipiHandled then s else (s.injectIrq cpu irqId false (search 0)).1
  else if irqId < 16 then s
  else if irqId = MAINTENACE_INTERRUPT then
    s.handleMaintenaceInterrupt cpu search (s.pendingVirqs cpu).length
  else (s.injectIrq cpu irqId true (search 0)).1

end SpiState

/-! ## The system -/

/-- Zones with their interrupts, the owners of the CPUs, and the affinities of the CPUs. -/
structure SpiPlatform (ι : Type) where
  irqBitmap : ι → IrqBitmap
  zone : Nat → Option ι
  mpidr : Nat → BitVec 64

/-- The steps: accesses of guests, and interrupts that are taken. -/
inductive SpiEvent where
  /-- The guest of a CPU accesses the distributor. -/
  | access (cpu : Nat) (mmio : MMIOAccess)
  /-- A CPU takes an interrupt. -/
  | irq (cpu irqId : Nat) (ipiHandled : Bool) (search : Nat → LrSearch)

variable {ι : Type}

/-- The distributor after an access by a guest of a zone. -/
def Gicd.access (d : Gicd) (irqBitmap : IrqBitmap) (mmio : MMIOAccess) : Option Gicd :=
  (vgicv3DistHandler irqBitmap mmio ⟨d.byte, []⟩).map fun r => d.takeAll r.2.writes

/-- An enabled interrupt is signalled to a CPU. -/
def Gicd.Delivers (d : Gicd) (P : SpiPlatform ι) (irq cpu : Nat) : Prop :=
  d.enabled irq = true ∧ d.routesTo irq (P.mpidr cpu) = true

/-- The interrupt belongs to the zone of the CPU, if the CPU has one. -/
def SpiPlatform.Has (P : SpiPlatform ι) (cpu irq : Nat) : Prop :=
  ∀ z, P.zone cpu = some z → Owns (P.irqBitmap z) irq = true

/-- The routing of an interrupt names CPUs of the zone, or CPUs without a zone. -/
def RoutesHome (P : SpiPlatform ι) (d : Gicd) (z : ι) (irq : Nat) : Prop :=
  ∀ cpu, d.routesTo irq (P.mpidr cpu) = true → ∀ z', P.zone cpu = some z' → z' = z

/-- Each enabled interrupt belongs to a zone, and goes to this zone. -/
def AllHome (P : SpiPlatform ι) (d : Gicd) : Prop :=
  ∀ irq, isSpi irq = true → d.enabled irq = true → ∃ z, Owns (P.irqBitmap z) irq = true ∧
    RoutesHome P d z irq

/-- A step, with what the hardware may choose. -/
inductive SpiStep (P : SpiPlatform ι) : SpiState → SpiEvent → SpiState → Prop
  | access {s : SpiState} {cpu : Nat} {mmio : MMIOAccess} {z : ι} {d : Gicd} :
      P.zone cpu = some z → s.gicd.access (P.irqBitmap z) mmio = some d →
      SpiStep P s (.access cpu mmio) { s with gicd := d }
  | irq {s : SpiState} {cpu irqId : Nat} {ipiHandled : Bool} {search : Nat → LrSearch} :
      (isSpi irqId = true → s.gicd.Delivers P irqId cpu) →
      SpiStep P s (.irq cpu irqId ipiHandled search) (s.gicv3HandleIrq cpu irqId ipiHandled search)

/-- Guests access the distributor and CPUs take interrupts, from a state in which enabled interrupts
are home. -/
def spiRouting (P : SpiPlatform ι) : TransitionSystem SpiState SpiEvent where
  init s := AllHome P s.gicd ∧ (∀ cpu, s.pendingVirqs cpu = []) ∧ s.injected = []
  step := SpiStep P

/-- The value of an access has a bit for the interrupt, in the enabling registers. -/
def Enables (mmio : MMIOAccess) (irq : Nat) : Prop :=
  ∃ i < 8 * mmio.bytes, irq = 8 * (mmio.addr - GICD_ISENABLER) + i ∧
    mmio.value.toBitVec.getLsbD i = true

/-- A guest writes the enabling registers by whole words, enables an interrupt of its zone only when
the interrupt is routed to the zone, and routes one that is enabled to the zone only. -/
structure KeepsHome (P : SpiPlatform ι) (d : Gicd) (z : ι) (mmio : MMIOAccess) : Prop where
  word : inRegRange GICD_ISENABLER 32 4 mmio.addr = true → mmio.addr % 4 = 0
  enable : inRegRange GICD_ISENABLER 32 4 mmio.addr = true → ∀ irq, isSpi irq = true →
    Owns (P.irqBitmap z) irq = true → Enables mmio irq → RoutesHome P d z irq
  route : inRegRange GICD_IROUTER 1024 8 mmio.addr = true →
    ∀ irq, irq = (mmio.addr - GICD_IROUTER) / 8 → isSpi irq = true →
    Owns (P.irqBitmap z) irq = true → d.enabled irq = true →
    RoutesHome P (d.take ⟨mmio.addr, mmio.bytes, lowBytes mmio.value.toBitVec mmio.bytes⟩
      mmio.bytes) z irq

/-- The guard of a step: a write of a guest keeps the interrupts of its zone home. -/
def HomeGuard (P : SpiPlatform ι) (s : SpiState) : SpiEvent → Prop
  | .access cpu mmio =>
    mmio.isWrite = true → ∀ z, P.zone cpu = some z → KeepsHome P s.gicd z mmio
  | .irq .. => True

/-! ## What an access leaves alone -/

theorem Device.load_congr {dev dev' : Device} {addr n : Nat}
    (h : ∀ i < n, dev.byte (addr + i) = dev'.byte (addr + i)) :
    dev.load addr n = dev'.load addr n := by
  induction n with
  | zero => rfl
  | succ n ih =>
    rw [Device.load, Device.load, ih fun i hi => h i (by omega), h n (by omega)]

namespace Gicd

variable {d d' : Gicd}

theorem mem_writeByte (d : Gicd) (off : Nat) (b : BitVec 8) {x : Nat} (h : x ≠ off) :
    (d.writeByte off b).mem x = d.mem x := by
  rw [writeByte]
  split_ifs
  · rfl
  · rfl
  · exact Function.update_of_ne h _ _

theorem mem_take (d : Gicd) (w : BusWrite) (n : Nat) {x : Nat}
    (h : x < w.address ∨ w.address + n ≤ x) : (d.take w n).mem x = d.mem x := by
  induction n with
  | zero => rfl
  | succ n ih => rw [take, mem_writeByte _ _ _ (by omega), ih (by omega)]

theorem router_take (d : Gicd) (w : BusWrite) (n : Nat) {irq : Nat}
    (h : GICD_IROUTER + 8 * irq + 8 ≤ w.address ∨ w.address + n ≤ GICD_IROUTER + 8 * irq) :
    (d.take w n).router irq = d.router irq :=
  Device.load_congr fun i hi => mem_take d w n (by omega)

theorem enabled_of_writeByte {off : Nat} {b : BitVec 8} {irq : Nat}
    (h : (d.writeByte off b).enabled irq = true) :
    d.enabled irq = true ∨ GICD_ISENABLER ≤ off ∧ off < GICD_ICENABLER ∧
      irq / 8 = off - GICD_ISENABLER ∧ b.getLsbD (irq % 8) = true := by
  rw [writeByte] at h
  split_ifs at h with hset hclear
  · by_cases hk : irq / 8 = off - GICD_ISENABLER
    · simp only [enabled, hk, Function.update_self, BitVec.getLsbD_or, Bool.or_eq_true] at h ⊢
      exact h.imp id fun hb => ⟨hset.1, hset.2, trivial, hb⟩
    · simp only [enabled, Function.update_of_ne hk] at h
      exact .inl h
  · left
    by_cases hk : irq / 8 = off - GICD_ICENABLER
    · simp only [enabled, hk, Function.update_self, BitVec.getLsbD_and, Bool.and_eq_true] at h ⊢
      exact h.1
    · simpa only [enabled, Function.update_of_ne hk] using h
  · exact .inl h

/-- A write enables an interrupt by a bit of the enabling registers only. -/
theorem enabled_of_take {w : BusWrite} {n irq : Nat} (h : (d.take w n).enabled irq = true) :
    d.enabled irq = true ∨ ∃ i < n, GICD_ISENABLER ≤ w.address + i ∧
      w.address + i < GICD_ICENABLER ∧ irq / 8 = w.address + i - GICD_ISENABLER ∧
      w.value.getLsbD (8 * i + irq % 8) = true := by
  induction n with
  | zero => exact .inl h
  | succ n ih =>
    rcases enabled_of_writeByte h with h | ⟨hlo, hhi, hirq, hb⟩
    · exact (ih h).imp id fun ⟨i, hi, hr⟩ => ⟨i, by omega, hr⟩
    · refine .inr ⟨n, by omega, hlo, hhi, hirq, ?_⟩
      rw [BitVec.getLsbD_extractLsb', Bool.and_eq_true] at hb
      exact hb.2

theorem bitFieldRegs_end : ∀ r ∈ bitFieldRegs, r.base + (r.num - 1) * 4 + 8 ≤ GICD_IROUTER := by
  decide

/-- An aligned access of a register with fields that reaches the enabling registers is one of
them. -/
theorem isenabler_of_covers {r : BitFieldReg} (hr : r ∈ bitFieldRegs) {addr bytes i : Nat}
    (ha : inRegRange r.base r.num 4 addr = true) (hal : addr % bytes = 0)
    (hbytes : bytes = 1 ∨ bytes = 2 ∨ bytes = 4 ∨ bytes = 8) (hi : i < bytes)
    (hlo : GICD_ISENABLER ≤ addr + i) (hhi : addr + i < GICD_ICENABLER) :
    r = ⟨GICD_ISENABLER, 32, 1, true⟩ := by
  rw [inRegRange_iff] at ha
  simp only [GICD_ISENABLER, GICD_ICENABLER] at hlo hhi
  simp only [bitFieldRegs, List.mem_cons, List.not_mem_nil, or_false] at hr
  rcases hr with rfl | rfl | rfl | rfl | rfl | rfl | rfl | rfl | rfl
  · simp only [GICD_ICENABLER] at ha
    omega
  · rfl
  · simp only [GICD_ICPENDR] at ha
    omega
  · simp only [GICD_ISPENDR] at ha
    omega
  · simp only [GICD_ICACTIVER] at ha
    omega
  · simp only [GICD_ISACTIVER] at ha
    omega
  · simp only [GICD_IGROUPR] at ha
    rcases hbytes with rfl | rfl | rfl | rfl <;> omega
  · simp only [GICD_ICFGR] at ha
    omega
  · simp only [GICD_IPRIORITYR] at ha
    omega

/-- **What an access does to an interrupt**: a guest enables and routes interrupts of its own zone
only. -/
theorem access_effect {irqBitmap : IrqBitmap} {mmio : MMIOAccess}
    (h : d.access irqBitmap mmio = some d')
    (hword : mmio.isWrite = true → inRegRange GICD_ISENABLER 32 4 mmio.addr = true →
      mmio.addr % 4 = 0) (irq : Nat) :
    (d'.enabled irq = true → d.enabled irq = true ∨ mmio.isWrite = true ∧
      inRegRange GICD_ISENABLER 32 4 mmio.addr = true ∧ Owns irqBitmap irq = true ∧
      Enables mmio irq) ∧
    (d'.router irq = d.router irq ∨ mmio.isWrite = true ∧
      inRegRange GICD_IROUTER 1024 8 mmio.addr = true ∧ irq = (mmio.addr - GICD_IROUTER) / 8 ∧
      Owns irqBitmap irq = true ∧ d' = d.take ⟨mmio.addr, mmio.bytes,
        lowBytes mmio.value.toBitVec mmio.bytes⟩ mmio.bytes) := by
  rw [access, Option.map_eq_some_iff] at h
  obtain ⟨⟨mmio', dev'⟩, hrun, rfl⟩ := h
  -- by the write that the handler makes: none, or one to a routing register, a target register or
  -- a register of bit fields
  rcases writes_of_distHandler hrun with hw | ⟨hwr, hs, hal, value, hw, hplace⟩
  · rw [show dev'.writes = [] from hw]
    exact ⟨.inl, .inl rfl⟩
  · rw [show dev'.writes = [_] from hw]
    have hbytes : mmio.bytes = 1 ∨ mmio.bytes = 2 ∨ mmio.bytes = 4 ∨ mmio.bytes = 8 := by
      simp only [List.mem_cons, List.not_mem_nil, or_false] at hs
      rcases hs with h | h | h | h <;> rw [MMIOAccess.bytes, h] <;> decide
    simp only [takeAll, List.foldl_cons, List.foldl_nil]
    rcases hplace with ⟨hrouter, ho, rfl⟩ | htarget | ⟨r, hr, ha, hpoke⟩
    · have hrange := hrouter
      rw [inRegRange_iff] at hrange
      simp only [GICD_IROUTER] at hrange
      refine ⟨fun he => ?_, ?_⟩
      · rcases enabled_of_take he with he | ⟨i, hi, hlo, hhi, -⟩
        · exact .inl he
        · simp only [GICD_ICENABLER] at hhi
          omega
      · -- the access is within the routing register of an interrupt of the zone
        by_cases hirq : irq = (mmio.addr - GICD_IROUTER) / 8
        · exact .inr ⟨hwr, hrouter, hirq, hirq ▸ ho, rfl⟩
        · refine .inl (router_take _ _ _ ?_)
          simp only [GICD_IROUTER] at hirq ⊢
          generalize mmio.bytes = bytes at hal hbytes ⊢
          rcases hbytes with rfl | rfl | rfl | rfl <;> omega
    · rw [inRegRange_iff] at htarget
      simp only [GICD_ITARGETSR] at htarget
      refine ⟨fun he => ?_, .inl (router_take _ _ _ ?_)⟩
      · rcases enabled_of_take he with he | ⟨i, hi, hlo, hhi, -⟩
        · exact .inl he
        · simp only [GICD_ICENABLER] at hhi
          omega
      · simp only [GICD_IROUTER]
        omega
    · have hend := bitFieldRegs_end r hr
      have ha' := ha
      rw [inRegRange_iff] at ha'
      refine ⟨fun he => ?_, .inl (router_take _ _ _ ?_)⟩
      · rcases enabled_of_take he with he | ⟨i, hi, hlo, hhi, hirq, hb⟩
        · exact .inl he
        · -- a bit that enables an interrupt is one of the zone's
          obtain rfl := isenabler_of_covers hr ha hal hbytes hi hlo hhi
          have hal4 := hword hwr ha
          obtain ⟨-, hlt, howns, hval⟩ := hpoke rfl _ hb
          have hplace : irq = 8 * (mmio.addr - GICD_ISENABLER) + (8 * i + irq % 8) := by
            simp only [GICD_ISENABLER] at hlo hirq ha' ⊢
            omega
          rw [BitFieldReg.wordIrqAt_eq (Nat.one_dvd 32) ha'.1 rfl hal4, BitFieldReg.irqAt,
            Nat.div_one, ← hplace] at howns
          exact .inr ⟨hwr, ha, howns, _, hlt, hplace, hval⟩
      · dsimp only
        omega

end Gicd

/-! ## Runs -/

section Runs

variable {P : SpiPlatform ι} {s : SpiState}

/-- A write that keeps the interrupts of its zone home keeps all interrupts home. -/
theorem allHome_access {d d' : Gicd} (hd : AllHome P d) {z : ι} {mmio : MMIOAccess}
    (h : d.access (P.irqBitmap z) mmio = some d')
    (hkeep : mmio.isWrite = true → KeepsHome P d z mmio) : AllHome P d' := by
  intro irq hspi hen'
  obtain ⟨hen, hrouter⟩ := Gicd.access_effect h (fun hw => (hkeep hw).word) irq
  rcases hrouter with hsame | ⟨hw, hrange, hirq, ho, rfl⟩
  · have hroutes : ∀ z, RoutesHome P d' z irq ↔ RoutesHome P d z irq := by
      intro z
      simp only [RoutesHome, Gicd.routesTo, hsame]
    rcases hen hen' with hold | ⟨hw, hrange, ho, hbit⟩
    · obtain ⟨z', ho, hhome⟩ := hd irq hspi hold
      exact ⟨z', ho, (hroutes z').mpr hhome⟩
    · exact ⟨z, ho, (hroutes z).mpr ((hkeep hw).enable hrange irq hspi ho hbit)⟩
  · -- the interrupt gets a new route: it is the zone's, and was enabled before
    refine ⟨z, ho, (hkeep hw).route hrange irq hirq hspi ho ?_⟩
    rcases hen hen' with hold | ⟨-, hrange', -⟩
    · exact hold
    · rw [inRegRange_iff] at hrange hrange'
      simp only [GICD_IROUTER, GICD_ISENABLER] at hrange hrange'
      omega

/-- What is delivered to a CPU belongs to its zone. -/
theorem has_of_delivers {d : Gicd} (hd : AllHome P d) {irq cpu : Nat} (hspi : isSpi irq = true)
    (h : d.Delivers P irq cpu) : P.Has cpu irq := by
  intro z hz
  obtain ⟨z', ho, hhome⟩ := hd irq hspi h.1
  rwa [hhome cpu h.2 z hz]

/-- The shared interrupts that were injected, and the ones that wait, belong to the zones of the
CPUs. -/
structure Confined (P : SpiPlatform ι) (s : SpiState) : Prop where
  injected : ∀ x ∈ s.injected, isSpi x.2 = true → P.Has x.1 x.2
  pending : ∀ cpu, ∀ x ∈ s.pendingVirqs cpu, isSpi x.1 = true → P.Has cpu x.1

theorem Confined.addIrq (h : Confined P s) {cpu irqId : Nat} {hw : Bool}
    (hhas : isSpi irqId = true → P.Has cpu irqId) : Confined P (s.addIrq cpu irqId hw) := by
  refine ⟨h.injected, fun c x hx => ?_⟩
  by_cases hc : c = cpu
  · subst hc
    simp only [SpiState.addIrq, Function.update_self, List.mem_append, List.mem_singleton] at hx
    rcases hx with hx | rfl
    · exact h.pending c x hx
    · exact hhas
  · simp only [SpiState.addIrq, Function.update_of_ne hc] at hx
    exact h.pending c x hx

theorem Confined.injectIrq (h : Confined P s) {cpu irqId : Nat} {hw : Bool}
    (hhas : isSpi irqId = true → P.Has cpu irqId) (search : LrSearch) :
    Confined P (s.injectIrq cpu irqId hw search).1 := by
  cases search with
  | listed => exact h
  | free =>
    refine ⟨fun x hx => ?_, h.pending⟩
    rcases List.mem_cons.mp hx with rfl | hx
    · exact hhas
    · exact h.injected x hx
  | full => exact h.addIrq hhas

theorem Confined.handleMaintenaceInterrupt {cpu : Nat} {search : Nat → LrSearch} {n : Nat}
    (h : Confined P s) : Confined P (s.handleMaintenaceInterrupt cpu search n) := by
  induction n generalizing s with
  | zero => exact h
  | succ n ih =>
    rw [SpiState.handleMaintenaceInterrupt]
    cases hq : s.pendingVirqs cpu with
    | nil => exact h
    | cons x irqs =>
      obtain ⟨irqId, isHardware⟩ := x
      have hhas : isSpi irqId = true → P.Has cpu irqId :=
        h.pending cpu (irqId, isHardware) (hq ▸ List.mem_cons_self)
      have hrest :
          Confined P { s with pendingVirqs := Function.update s.pendingVirqs cpu irqs } := by
        refine ⟨h.injected, fun c x hx => ?_⟩
        by_cases hc : c = cpu
        · subst hc
          simp only [Function.update_self] at hx
          exact h.pending c x (hq ▸ List.mem_cons_of_mem _ hx)
        · simp only [Function.update_of_ne hc] at hx
          exact h.pending c x hx
      have hinj : Confined P
          (SpiState.injectIrq { s with pendingVirqs := Function.update s.pendingVirqs cpu irqs } cpu
            irqId isHardware (search n)).1 := hrest.injectIrq hhas (search n)
      simp only
      split
      · next heq =>
        rw [heq] at hinj
        exact ih hinj
      · next heq =>
        rw [heq] at hinj
        exact hinj.addIrq hhas

theorem Confined.gicv3HandleIrq (h : Confined P s) {cpu irqId : Nat} {ipiHandled : Bool}
    {search : Nat → LrSearch} (hhas : isSpi irqId = true → P.Has cpu irqId) :
    Confined P (s.gicv3HandleIrq cpu irqId ipiHandled search) := by
  rw [SpiState.gicv3HandleIrq]
  split_ifs
  · exact h
  · exact h.injectIrq hhas _
  · exact h
  · exact h.handleMaintenaceInterrupt
  · exact h.injectIrq hhas _

theorem gicd_injectIrq (s : SpiState) (cpu irqId : Nat) (hw : Bool) (search : LrSearch) :
    (s.injectIrq cpu irqId hw search).1.gicd = s.gicd := by
  cases search <;> rfl

theorem gicd_handleMaintenaceInterrupt (s : SpiState) (cpu : Nat) (search : Nat → LrSearch)
    (n : Nat) : (s.handleMaintenaceInterrupt cpu search n).gicd = s.gicd := by
  induction n generalizing s with
  | zero => rfl
  | succ n ih =>
    rw [SpiState.handleMaintenaceInterrupt]
    cases hq : s.pendingVirqs cpu with
    | nil => rfl
    | cons x irqs =>
      simp only
      cases search n
      · exact ih _
      · exact ih _
      · rfl

/-- The handling of an interrupt leaves the distributor alone. -/
theorem gicd_gicv3HandleIrq (s : SpiState) (cpu irqId : Nat) (ipiHandled : Bool)
    (search : Nat → LrSearch) :
    (s.gicv3HandleIrq cpu irqId ipiHandled search).gicd = s.gicd := by
  rw [SpiState.gicv3HandleIrq]
  split_ifs
  · rfl
  · exact gicd_injectIrq _ _ _ _ _
  · rfl
  · exact gicd_handleMaintenaceInterrupt _ _ _ _
  · exact gicd_injectIrq _ _ _ _ _

/-- **Shared interrupts stay in their zones**: while every guest keeps the interrupts of its zone
home, what is injected on a CPU belongs to the zone of the CPU. -/
theorem spi_confined {h : List SpiEvent}
    (r : ((spiRouting P).restrict (HomeGuard P)).Run h s) {cpu irq : Nat}
    (hinj : (cpu, irq) ∈ s.injected) (hspi : isSpi irq = true) {z : ι} (hz : P.zone cpu = some z) :
    Owns (P.irqBitmap z) irq = true := by
  have hinv : AllHome P s.gicd ∧ Confined P s := by
    refine TransitionSystem.Run.invariant (I := fun _ s => AllHome P s.gicd ∧ Confined P s) ?_ ?_ r
    · rintro s ⟨hhome, hpend, hinj⟩
      refine ⟨hhome, ⟨fun x hx => ?_, fun c x hx => ?_⟩⟩
      · rw [hinj] at hx
        cases hx
      · rw [hpend] at hx
        cases hx
    · rintro h s e s' - ⟨hhome, hconf⟩ ⟨hkeep, hstep⟩
      cases hstep with
      | access hz hacc =>
        exact ⟨allHome_access hhome hacc fun hw => hkeep hw _ hz,
          ⟨hconf.injected, hconf.pending⟩⟩
      | irq hdel =>
        rw [gicd_gicv3HandleIrq]
        exact ⟨hhome, hconf.gicv3HandleIrq fun hspi => has_of_delivers hhome hspi (hdel hspi)⟩
  exact hinv.2.injected _ hinj hspi z hz

end Runs

/-! ## Two zones -/

/-- Two zones on one CPU each, with interrupts 33 and 34. -/
def twoSpiZones : SpiPlatform Bool where
  irqBitmap z := (irqBitmapInit [if z then 34 else 33]).getD (Vector.replicate _ 0)
  zone cpu := if cpu = 0 then some false else if cpu = 1 then some true else none
  mpidr cpu := BitVec.ofNat 64 cpu

/-- Nothing is enabled, and every interrupt goes to the first CPU. -/
def resetSpiState : SpiState := ⟨⟨fun _ => 0, fun _ => 0⟩, fun _ => [], []⟩

theorem owns_twoSpiZones (z : Bool) (irq : Nat) :
    Owns (twoSpiZones.irqBitmap z) irq = true ↔ irq = if z then 34 else 33 := by
  obtain ⟨irqBitmap, hinit⟩ :
      ∃ irqBitmap, irqBitmapInit [if z then 34 else 33] = some irqBitmap := by
    cases z <;> exact ⟨_, rfl⟩
  simp only [twoSpiZones, hinit, Option.getD_some]
  rw [owns_irqBitmapInit hinit, List.mem_singleton]

theorem twoSpiZones_disjoint : ∀ z z' irq, isSpi irq = true →
    Owns (twoSpiZones.irqBitmap z) irq = true → Owns (twoSpiZones.irqBitmap z') irq = true →
    z = z' := by
  intro z z' irq _ hz hz'
  rw [owns_twoSpiZones] at hz hz'
  cases z <;> cases z' <;> simp_all

theorem resetSpiState_init : (spiRouting twoSpiZones).init resetSpiState := by
  have hoff : ∀ irq, resetSpiState.gicd.enabled irq = false := by
    intro irq
    simp [Gicd.enabled, resetSpiState]
  refine ⟨fun irq _ h => ?_, fun _ => rfl, rfl⟩
  rw [hoff] at h
  cases h

/-- The guest of the first CPU enables interrupt 33. -/
def enableAccess : MMIOAccess := ⟨0x104, 4, true, 2⟩

/-- A distributor with interrupt 33 enabled. -/
def enabledGicd : Gicd := resetSpiState.gicd.takeAll [⟨0x104, 4, 2⟩]

theorem access_enableAccess :
    resetSpiState.gicd.access (twoSpiZones.irqBitmap false) enableAccess = some enabledGicd := by
  rfl

/-- The interrupt reaches the zone that enabled it. -/
theorem spi_confined_two : Owns (twoSpiZones.irqBitmap false) 33 = true := by
  have hrouter : ∀ irq, enabledGicd.router irq = 0 := by
    intro irq
    rw [Gicd.router, show enabledGicd.mem = fun _ => 0 from rfl]
    simp [Device.load]
  have hhome : ∀ irq, RoutesHome twoSpiZones resetSpiState.gicd false irq := by
    intro irq cpu h z' hz'
    simp only [twoSpiZones] at hz'
    split_ifs at hz' with h0 h1
    · exact (Option.some.inj hz').symm
    · subst h1
      rw [Gicd.routesTo, Gicd.router, show resetSpiState.gicd.mem = fun _ => 0 from rfl] at h
      simp only [Device.load] at h
      exact absurd h (by decide)
  have r : ((spiRouting twoSpiZones).restrict (HomeGuard twoSpiZones)).Run
      [.irq 0 33 false fun _ => .free, .access 0 enableAccess]
      { resetSpiState with gicd := enabledGicd, injected := [(0, 33)] } := by
    refine .next (.next (.start resetSpiState_init) ⟨?_, .access rfl access_enableAccess⟩)
      ⟨trivial, .irq fun _ => ⟨by decide, ?_⟩⟩
    · intro _ z hz
      obtain rfl : false = z := Option.some.inj hz
      exact ⟨fun _ => by decide, fun _ irq _ _ _ => hhome irq, fun h => absurd h (by decide)⟩
    · rw [Gicd.routesTo, hrouter]
      decide
  have hinj : (0, 33) ∈ [(0, 33)] := List.mem_cons_self
  exact spi_confined r hinj (by decide) rfl

/-- A zone routes its interrupt to the CPU of another zone, where it is injected. -/
theorem spi_not_confined :
    ¬ ∀ (ι : Type) (P : SpiPlatform ι),
      (∀ z z' irq, isSpi irq = true → Owns (P.irqBitmap z) irq = true →
        Owns (P.irqBitmap z') irq = true → z = z') →
      ∀ (h : List SpiEvent) (s : SpiState), (spiRouting P).Run h s →
      ∀ cpu irq, (cpu, irq) ∈ s.injected → isSpi irq = true → ∀ z, P.zone cpu = some z →
      Owns (P.irqBitmap z) irq = true := by
  intro h
  have hroute : enabledGicd.access (twoSpiZones.irqBitmap false) ⟨0x6108, 8, true, 1⟩ =
      some (enabledGicd.takeAll [⟨0x6108, 8, 1⟩]) := by
    rfl
  have r : (spiRouting twoSpiZones).Run
      [.irq 1 33 false fun _ => .free, .access 0 ⟨0x6108, 8, true, 1⟩, .access 0 enableAccess]
      { resetSpiState with
          gicd := enabledGicd.takeAll [⟨0x6108, 8, 1⟩], injected := [(1, 33)] } :=
    .next (.next (.next (.start resetSpiState_init) (.access rfl access_enableAccess))
      (.access rfl hroute)) (.irq fun _ => ⟨by decide, by decide⟩)
  have howns := h Bool twoSpiZones twoSpiZones_disjoint _ _ r 1 33 List.mem_cons_self (by decide)
    true rfl
  revert howns
  decide

end Hvisor
