import Hvisor.Irqchip.Vgicv3
import Hvisor.Zone.RootPrivilege
import Mathlib.Logic.Relation

/-!
# Teardowns that nothing disturbs

`PSCI_SYSTEM_OFF`, `hv_zone_shutdown` and the handlers of events as whole functions, from aarch64's
`trap.rs`, `cpu.rs` and `event.rs`, `hypercall/mod.rs` and `gicv3/mod.rs`. A handler runs to its
end, or as far as it waits for other CPUs, while no CPU makes any other step; `none` is a panic, or
a wait for a lock that is not given back. The fields are those of the machine whose CPUs take their
steps in any order.

## Main definitions

* `Distributor`, `archIrqchipReset`: the interrupts that are enabled and active, and their reset
* `GicMachine`: the machine with the distributor
* `Machine.checkEvents`, `Machine.processEvents`: a CPU handles its events
* `Machine.systemOff`, `GicMachine.hvZoneShutdown`: the teardowns
-/

namespace Hvisor

variable {s s' : Machine} {p q c z id : Nat} {act : Act} {o : Outcome}

/-! ## The distributor -/

/-- The words of `GICD_ISENABLER` and `GICD_ISACTIVER`, a bit for each interrupt. -/
structure Distributor where
  enabled : Nat → BitVec 32
  active : Nat → BitVec 32

namespace Distributor

/-- Write a word of `GICD_ICENABLER`: the interrupts of the mask are disabled. -/
def writeIcenabler (d : Distributor) (idx : Nat) (mask : BitVec 32) : Distributor :=
  { d with enabled := Function.update d.enabled idx (d.enabled idx &&& ~~~mask) }

/-- Interrupts become inactive. -/
def writeIcactiver (d : Distributor) (idx : Nat) (mask : BitVec 32) : Distributor :=
  { d with active := Function.update d.active idx (d.active idx &&& ~~~mask) }

/-- The interrupt is enabled. -/
def isEnabled (d : Distributor) (irq : Nat) : Bool := (d.enabled (irq / 32)).getLsbD (irq % 32)

/-- The interrupt is active. -/
def isActive (d : Distributor) (irq : Nat) : Bool := (d.active (irq / 32)).getLsbD (irq % 32)

end Distributor

/-- The words of a zone's bitmap with their index; the first word is of interrupts of a CPU. -/
def archIrqchipReset (irqBitmap : IrqBitmap) (d : Distributor) : Distributor :=
  irqBitmap.toList.zipIdx.foldl (fun d (mask, idx) =>
    if idx = 0 then d else (d.writeIcenabler idx mask).writeIcactiver idx mask) d

/-- The loop of the reset from word `k` on clears, in each word, the bits of the mask. -/
theorem foldl_archIrqchipReset (l : List (BitVec 32)) (k : Nat) (d : Distributor) (i : Nat) :
    let d' := (l.zipIdx k).foldl (fun d (mask, idx) =>
      if idx = 0 then d else (d.writeIcenabler idx mask).writeIcactiver idx mask) d
    let mask := if i ≠ 0 ∧ k ≤ i then l.getD (i - k) 0 else 0
    d'.enabled i = d.enabled i &&& ~~~mask ∧ d'.active i = d.active i &&& ~~~mask := by
  have hall : ∀ w : BitVec 32, w &&& 4294967295#32 = w := fun w => BitVec.and_allOnes
  induction l generalizing k d with
  | nil => simp [hall]
  | cons mask l ih =>
    rw [List.zipIdx_cons, List.foldl_cons]
    obtain ⟨hen, hact⟩ := ih (k + 1)
      (if k = 0 then d else (d.writeIcenabler k mask).writeIcactiver k mask)
    simp only [hen, hact]
    -- the word is before the ones of the loop, the first of them, or a later one
    rcases Nat.lt_trichotomy i k with hlt | rfl | hgt
    · have hk : k ≠ 0 := by omega
      have hle : ¬ k + 1 ≤ i := by omega
      simp [hk, hle, Nat.not_le.mpr hlt, Distributor.writeIcenabler, Distributor.writeIcactiver,
        Nat.ne_of_lt hlt]
    · have hle : ¬ i + 1 ≤ i := by omega
      by_cases hi : i = 0
      · simp [hi]
      · simp [hi, hle, hall, Distributor.writeIcenabler, Distributor.writeIcactiver]
    · have hi : i ≠ 0 := by omega
      have hsub : i - k = i - (k + 1) + 1 := by omega
      rw [hsub, List.getD_cons_succ]
      simp only [hi, ne_eq, not_false_eq_true, true_and, if_pos (show k + 1 ≤ i by omega),
        if_pos (Nat.le_of_lt hgt)]
      split <;> simp [Distributor.writeIcenabler, Distributor.writeIcactiver, Nat.ne_of_gt hgt]

/-- **The reset** of a zone's interrupts disables and deactivates the shared ones. -/
theorem isEnabled_archIrqchipReset (irqBitmap : IrqBitmap) (d : Distributor) (irq : Nat) :
    ((archIrqchipReset irqBitmap d).isEnabled irq =
        (d.isEnabled irq && !(decide (32 ≤ irq) && Owns irqBitmap irq))) ∧
      (archIrqchipReset irqBitmap d).isActive irq =
        (d.isActive irq && !(decide (32 ≤ irq) && Owns irqBitmap irq)) := by
  obtain ⟨hen, hact⟩ := foldl_archIrqchipReset irqBitmap.toList 0 d (irq / 32)
  -- word 0 is passed over, and it holds the interrupts below 32
  have hbit : (if irq / 32 ≠ 0 ∧ 0 ≤ irq / 32 then irqBitmap.toList.getD (irq / 32 - 0) 0
      else 0).getLsbD (irq % 32) = (decide (32 ≤ irq) && Owns irqBitmap irq) := by
    have hword : irq / 32 ≠ 0 ∧ 0 ≤ irq / 32 ↔ 32 ≤ irq := by omega
    rw [if_congr hword rfl rfl, Nat.sub_zero, List.getD_eq_getElem?_getD, Vector.getElem?_toList,
      Owns, irqInZone]
    by_cases hspi : 32 ≤ irq
    · rw [if_pos hspi]
      cases irqBitmap[irq / 32]? <;> simp [hspi]
    · simp [hspi]
  have hlt : irq % 32 < 32 := Nat.mod_lt _ (by decide)
  rw [Distributor.isEnabled, Distributor.isActive, archIrqchipReset, hen, hact]
  simp only [BitVec.getLsbD_and, BitVec.getLsbD_not, hlt, decide_true, Bool.true_and, hbit]
  exact ⟨rfl, rfl⟩

/-- The machine, the interrupts of each zone, and the distributor. -/
structure GicMachine where
  machine : Machine
  irqBitmap : Nat → IrqBitmap
  gicd : Distributor

/-! ## Events -/

namespace Machine

/-- `idle` by CPU `c`. -/
def idle (s : Machine) (c : Nat) : Option Machine :=
  if s.ctrlLock c = none then
    some { s with powerOn := Function.update s.powerOn c false,
                  elr := Function.update s.elr c 0,
                  stage2 := Function.update s.stage2 c none }
  else none

/-- `run` by CPU `c`. -/
def run (s : Machine) (c : Nat) : Option Machine :=
  match s.zone c with
  | some z =>
    if s.writer z = none then
      some { s with stage2 := Function.update s.stage2 c (some z),
                    elr := Function.update s.elr c (s.cpuOnEntry c),
                    powerOn := Function.update s.powerOn c true }
    else none
  | none => none

/-- The list of the CPU is emptied; `none` is a list that is locked or missing. -/
def handleVirtioIrq (s : Machine) (c : Nat) : Option Machine :=
  if s.virtioIrqsLock = none then
    match s.virtioIrqs c with
    | some _ => some { s with virtioIrqs := Function.update s.virtioIrqs c (some []) }
    | none => none
  else none

/-- `check_events` of a CPU that takes its events. -/
def checkEvents (s : Machine) (c : Nat) : Option Machine :=
  let (event, events) := fetchEvent s.events c
  let s := { s with events := events }
  match event with
  | some .WAKEUP => s.run c
  | some .SHUTDOWN => s.idle c
  | some .VIRTIO_INJECT_IRQ => s.handleVirtioIrq c
  | _ => some s

/-- CPU `c` takes `n` interrupts. -/
def takeIrqs (c : Nat) : Nat → Machine → Option Machine
  | 0, s => some s
  | n + 1, s => (s.checkEvents c).bind (takeIrqs c n)

/-- CPU `c` runs at the lower exception level, and takes an interrupt for each of its events. -/
def processEvents (s : Machine) (c : Nat) : Option Machine :=
  if s.pc c = .lower then takeIrqs c (s.events c).length s else none

/-! ## Teardowns -/

/-- The loop of a power-off over the other CPUs. -/
def releaseCpu (s : Machine) (c : Nat) : Option Machine :=
  if s.ctrlLock c = none then some ((s.setZone c none).send c .SHUTDOWN) else none

/-- `PSCI_SYSTEM_OFF` by the guest of CPU `p`. -/
def systemOff (s : Machine) (p : Nat) : Option Machine :=
  match s.zone p with
  | none => none
  | some z =>
    if s.writer z = none then
      (s.isThisRootZone p).bind fun isRoot =>
        (((s.zones z).cpuSet.iterExcept p).foldlM releaseCpu s).bind fun s =>
          -- the zone has to be the last reference when it is taken out of the list
          match (s.setZone p none).removeZone p (s.zones z).id
              (if isRoot then .systemOff else .lower) with
          | some (s, some _) => if isRoot then some s else s.idle p
          | _ => none
    else none

/-- The first loop of a shutdown. -/
def closeCpu (s : Machine) (c : Nat) : Option Machine :=
  if s.ctrlLock c = none then
    some ({ s with cpuOnEntry := Function.update s.cpuOnEntry c INVALID_ADDRESS,
                   virtioIrqs := Function.update s.virtioIrqs c
                     ((s.virtioIrqs c).map fun _ => []) }.send c .SHUTDOWN)
  else none

/-- The last loop of a shutdown. -/
def clearCpu (s : Machine) (c : Nat) : Option Machine :=
  if s.ctrlLock c = none then some (s.setZone c none) else none

end Machine

namespace GicMachine

/-- `hv_zone_shutdown` by the guest of CPU `q`. While CPU `q` waits, the other CPUs of the zone
handle their events; when one of them stays on, the wait ends after `MAX_WAIT_TIMES`. -/
def hvZoneShutdown (x : GicMachine) (q id : Nat) : Option (Except HvErrorNum Unit × GicMachine) :=
  let s := x.machine
  (s.isThisRootZone q).bind fun isRoot =>
    if !isRoot then some (.error .EPERM, x)
    else if id = 0 then some (.error .EINVAL, x)
    else if s.virtioIrqsLock = none then
      (s.findZone id).bind fun
      | none => some (.error .EINVAL, x)
      | some z =>
        if s.writer z = none ∧ s.readers z = 0 then
          let cpus := (s.zones z).cpuSet.iter
          let s := { s with virtioIrqsLock := some q,
                            writer := Function.update s.writer z (some q) }
          (cpus.foldlM Machine.closeCpu s).bind fun s =>
          ((cpus.filter fun c => c < s.ncpu && c != q).foldlM Machine.processEvents s).bind fun s =>
          (cpus.foldlM Machine.clearCpu s).bind fun s =>
            let gicd := archIrqchipReset (x.irqBitmap z) x.gicd
            match { s with writer := Function.update s.writer z none }.removeZone q id .lower with
            | some (s, some _) =>
              some (.ok (), { x with machine := { s with virtioIrqsLock := none }, gicd := gicd })
            | _ => none
        else none
    else none

end GicMachine

/-! ## What the loops do -/

/-- A function that is changed at a CPU and then at each CPU of a list. -/
theorem update_mem {α : Type*} (f g : Nat → α) (c : Nat) (l : List Nat) :
    (fun c' => if c' ∈ l then g c' else Function.update f c (g c) c') =
      fun c' => if c' ∈ c :: l then g c' else f c' := by
  funext c'
  by_cases hc : c' = c
  · subst hc
    simp
  · simp [hc]

namespace Machine

/-- A loop whose body takes the `ctrl_lock` of a CPU for a while: no lock is held, and the loop does
what its body does. -/
theorem foldlM_locked {g : Machine → Nat → Option Machine} (f : Machine → Nat → Machine)
    (hg : ∀ s c s', g s c = some s' ↔ s.ctrlLock c = none ∧ s' = f s c)
    (hf : ∀ s c, (f s c).ctrlLock = s.ctrlLock) {l : List Nat} :
    l.foldlM g s = some s' ↔ (∀ c ∈ l, s.ctrlLock c = none) ∧ s' = l.foldl f s := by
  -- no body changes a lock, so the test on the first state is the test of every round
  induction l generalizing s with
  | nil =>
    rw [List.foldlM_nil, List.foldl_nil]
    exact ⟨fun h => ⟨nofun, (Option.some.inj h).symm⟩, fun h => by rw [h.2]; rfl⟩
  | cons c l ih =>
    simp only [List.foldlM_cons, Option.bind_eq_bind, Option.bind_eq_some_iff, hg, List.foldl_cons,
      List.forall_mem_cons]
    constructor
    · rintro ⟨_, ⟨hc, rfl⟩, h⟩
      obtain ⟨hl, rfl⟩ := ih.mp h
      exact ⟨⟨hc, hf s c ▸ hl⟩, rfl⟩
    · rintro ⟨⟨hc, hl⟩, rfl⟩
      exact ⟨f s c, ⟨hc, rfl⟩, ih.mpr ⟨(hf s c).symm ▸ hl, rfl⟩⟩

theorem releaseCpu_eq_some : s.releaseCpu c = some s' ↔
    s.ctrlLock c = none ∧ s' = (s.setZone c none).send c .SHUTDOWN := by
  rw [releaseCpu]
  split <;> simp_all [eq_comm]

theorem foldlM_releaseCpu {l : List Nat} : l.foldlM releaseCpu s = some s' ↔
    (∀ c ∈ l, s.ctrlLock c = none) ∧
      s' = { s with zone := fun c => if c ∈ l then none else s.zone c,
                    events := fun c => if c ∈ l then [.SHUTDOWN] else s.events c } := by
  have key : l.foldl (fun s c => (s.setZone c none).send c .SHUTDOWN) s =
      { s with zone := fun c => if c ∈ l then none else s.zone c,
               events := fun c => if c ∈ l then [.SHUTDOWN] else s.events c } := by
    induction l generalizing s with
    | nil => rfl
    | cons c l ih =>
      rw [List.foldl_cons, ih]
      simp only [setZone, send, addEvent, if_true, update_mem _ (fun _ => none),
        update_mem _ (fun _ => [IpiEvent.SHUTDOWN])]
  rw [← key]
  exact foldlM_locked _ (fun _ _ _ => releaseCpu_eq_some) fun _ _ => rfl

theorem closeCpu_eq_some : s.closeCpu c = some s' ↔ s.ctrlLock c = none ∧
    s' = { s with cpuOnEntry := Function.update s.cpuOnEntry c INVALID_ADDRESS,
                  virtioIrqs := Function.update s.virtioIrqs c
                    ((s.virtioIrqs c).map fun _ => []) }.send c .SHUTDOWN := by
  rw [closeCpu]
  split <;> simp_all [eq_comm]

theorem foldlM_closeCpu {l : List Nat} : l.foldlM closeCpu s = some s' ↔
    (∀ c ∈ l, s.ctrlLock c = none) ∧
      s' = { s with
        cpuOnEntry := fun c => if c ∈ l then INVALID_ADDRESS else s.cpuOnEntry c
        virtioIrqs := fun c => if c ∈ l then (s.virtioIrqs c).map fun _ => [] else s.virtioIrqs c
        events := fun c => if c ∈ l then [.SHUTDOWN] else s.events c } := by
  have key : l.foldl (fun s c =>
      { s with cpuOnEntry := Function.update s.cpuOnEntry c INVALID_ADDRESS,
               virtioIrqs := Function.update s.virtioIrqs c
                 ((s.virtioIrqs c).map fun _ => []) }.send c .SHUTDOWN) s =
      { s with
        cpuOnEntry := fun c => if c ∈ l then INVALID_ADDRESS else s.cpuOnEntry c
        virtioIrqs := fun c => if c ∈ l then (s.virtioIrqs c).map fun _ => [] else s.virtioIrqs c
        events := fun c => if c ∈ l then [.SHUTDOWN] else s.events c } := by
    induction l generalizing s with
    | nil => rfl
    | cons c l ih =>
      rw [List.foldl_cons, ih]
      -- a list that is cleared twice is cleared
      have hirqs : (fun c' => (Function.update s.virtioIrqs c
          ((s.virtioIrqs c).map fun _ => []) c').map fun _ => ([] : List Nat)) =
            fun c' => (s.virtioIrqs c').map fun _ => [] := by
        funext c'
        by_cases hc : c' = c
        · subst hc
          rw [Function.update_self, Option.map_map]
          rfl
        · rw [Function.update_of_ne hc]
      have hirq := congrFun hirqs
      simp only [send, addEvent, if_true, update_mem _ (fun _ => INVALID_ADDRESS),
        update_mem _ (fun _ => [IpiEvent.SHUTDOWN]), hirq,
        update_mem _ (fun c => (s.virtioIrqs c).map fun _ => [])]
  rw [← key]
  exact foldlM_locked _ (fun _ _ _ => closeCpu_eq_some) fun _ _ => rfl

theorem clearCpu_eq_some :
    s.clearCpu c = some s' ↔ s.ctrlLock c = none ∧ s' = s.setZone c none := by
  rw [clearCpu]
  split <;> simp_all [eq_comm]

theorem foldlM_clearCpu {l : List Nat} : l.foldlM clearCpu s = some s' ↔
    (∀ c ∈ l, s.ctrlLock c = none) ∧
      s' = { s with zone := fun c => if c ∈ l then none else s.zone c } := by
  have key : l.foldl (fun s c => s.setZone c none) s =
      { s with zone := fun c => if c ∈ l then none else s.zone c } := by
    induction l generalizing s with
    | nil => rfl
    | cons c l ih =>
      rw [List.foldl_cons, ih]
      simp only [setZone, update_mem _ (fun _ => none)]
  rw [← key]
  exact foldlM_locked _ (fun _ _ _ => clearCpu_eq_some) fun _ _ => rfl

/-! ## What a CPU does with its events -/

/-- The states differ in events, interrupts, and in what a CPU runs, at most. -/
structure SameZones (s s' : Machine) : Prop where
  ncpu : s'.ncpu = s.ncpu
  zone : s'.zone = s.zone
  cpuOnEntry : s'.cpuOnEntry = s.cpuOnEntry
  ctrlLock : s'.ctrlLock = s.ctrlLock
  pc : s'.pc = s.pc
  zones : s'.zones = s.zones
  writer : s'.writer = s.writer
  zoneList : s'.zoneList = s.zoneList
  zoneListLock : s'.zoneListLock = s.zoneListLock
  virtioIrqsLock : s'.virtioIrqsLock = s.virtioIrqsLock

theorem SameZones.refl (s : Machine) : SameZones s s :=
  ⟨rfl, rfl, rfl, rfl, rfl, rfl, rfl, rfl, rfl, rfl⟩

theorem SameZones.trans {s₁ s₂ s₃ : Machine} (h : SameZones s₁ s₂) (h' : SameZones s₂ s₃) :
    SameZones s₁ s₃ :=
  ⟨h'.ncpu.trans h.ncpu, h'.zone.trans h.zone, h'.cpuOnEntry.trans h.cpuOnEntry,
    h'.ctrlLock.trans h.ctrlLock, h'.pc.trans h.pc, h'.zones.trans h.zones,
    h'.writer.trans h.writer, h'.zoneList.trans h.zoneList, h'.zoneListLock.trans h.zoneListLock,
    h'.virtioIrqsLock.trans h.virtioIrqsLock⟩

/-- A CPU without a zone can handle the event. -/
structure CanHandle (s : Machine) (c : Nat) (e : IpiEvent) : Prop where
  wakeup : e ≠ .WAKEUP
  irqs : e = .VIRTIO_INJECT_IRQ → s.virtioIrqsLock = none ∧ s.virtioIrqs c ≠ none
  shutdown : e = .SHUTDOWN → s.ctrlLock c = none

theorem canHandle_of_checkEvents {e : IpiEvent} {l : List IpiEvent} (he : s.events c = e :: l)
    (hz : s.zone c = none ∨ e ≠ .WAKEUP) (hs : s.checkEvents c = some s') :
    CanHandle s c e ∧ SameZones s s' ∧ s'.events = Function.update s.events c l ∧
      s'.virtioIrqs = if e = .VIRTIO_INJECT_IRQ then Function.update s.virtioIrqs c (some [])
        else s.virtioIrqs := by
  simp only [checkEvents, fetchEvent, he, List.head?_cons, List.tail_cons] at hs
  -- one case for each event that changes something of the machine
  cases e with
  | WAKEUP =>
    simp only [run, hz.resolve_right (absurd rfl)] at hs
    cases hs
  | SHUTDOWN =>
    simp only [idle] at hs
    split at hs <;> cases hs
    next hl =>
    exact ⟨⟨by simp, by simp, fun _ => hl⟩, ⟨rfl, rfl, rfl, rfl, rfl, rfl, rfl, rfl, rfl, rfl⟩,
      rfl, rfl⟩
  | VIRTIO_INJECT_IRQ =>
    simp only [handleVirtioIrq] at hs
    split at hs
    · next hl =>
      split at hs <;> cases hs
      next irqs hirqs =>
      exact ⟨⟨by simp, fun _ => ⟨hl, by simp [hirqs]⟩, by simp⟩,
        ⟨rfl, rfl, rfl, rfl, rfl, rfl, rfl, rfl, rfl, rfl⟩, rfl, rfl⟩
    · cases hs
  | _ =>
    cases hs
    exact ⟨⟨by simp, by simp, by simp⟩, ⟨rfl, rfl, rfl, rfl, rfl, rfl, rfl, rfl, rfl, rfl⟩,
      rfl, rfl⟩

theorem checkEvents_of_canHandle {e : IpiEvent} {l : List IpiEvent} (he : s.events c = e :: l)
    (hc : CanHandle s c e) : ∃ s', s.checkEvents c = some s' := by
  simp only [checkEvents, fetchEvent, he, List.head?_cons, List.tail_cons]
  cases e with
  | WAKEUP => exact absurd rfl hc.wakeup
  | SHUTDOWN => simp only [idle, hc.shutdown rfl, if_true, Option.some.injEq, exists_eq']
  | VIRTIO_INJECT_IRQ =>
    obtain ⟨hl, hirqs⟩ := hc.irqs rfl
    obtain ⟨irqs, hirqs⟩ := Option.ne_none_iff_exists'.mp hirqs
    simp only [handleVirtioIrq, hl, hirqs, if_true, Option.some.injEq, exists_eq']
  | _ => exact ⟨_, rfl⟩

/-- **A CPU that handles its events** can handle each of them, and changes nothing but its lists. -/
theorem takeIrqs_eq_some {n : Nat} (hn : (s.events c).length = n)
    (hz : s.zone c = none ∨ .WAKEUP ∉ s.events c) (hs : takeIrqs c n s = some s') :
    (∀ e ∈ s.events c, CanHandle s c e) ∧ SameZones s s' ∧
      s'.events = Function.update s.events c [] ∧
      s'.virtioIrqs = if .VIRTIO_INJECT_IRQ ∈ s.events c
        then Function.update s.virtioIrqs c (some []) else s.virtioIrqs := by
  -- one interrupt for each event; handling one leaves what the others need
  induction n generalizing s with
  | zero =>
    cases hs
    rw [List.length_eq_zero_iff] at hn
    refine ⟨by rw [hn]; nofun, .refl _, ?_, by rw [hn, if_neg List.not_mem_nil]⟩
    rw [← hn, Function.update_eq_self]
  | succ n ih =>
    obtain ⟨s₁, hs₁, hs⟩ := Option.bind_eq_some_iff.mp hs
    cases he : s.events c with
    | nil => simp [he] at hn
    | cons e l =>
      rw [he, List.length_cons, Nat.add_right_cancel_iff] at hn
      rw [he, List.mem_cons, not_or] at hz
      obtain ⟨hcan, hsame, hev, hirqs⟩ :=
        canHandle_of_checkEvents he (hz.imp_right fun h => Ne.symm h.1) hs₁
      have hevc : s₁.events c = l := by rw [hev, Function.update_self]
      obtain ⟨hcan', hsame', hev', hirqs'⟩ := ih (hevc ▸ hn)
        (by rw [hsame.zone, hevc]; exact hz.imp_right And.right) hs
      rw [hevc] at hcan' hirqs'
      refine ⟨?_, hsame.trans hsame', ?_, ?_⟩
      · intro e' he'
        rcases List.mem_cons.mp he' with rfl | he'
        · exact hcan
        · obtain ⟨hw, hi, hd⟩ := hcan' e' he'
          refine ⟨hw, fun hinj => ?_, hsame.ctrlLock ▸ hd⟩
          obtain ⟨hlock, hsome⟩ := hi hinj
          refine ⟨hsame.virtioIrqsLock ▸ hlock, ?_⟩
          rw [hirqs] at hsome
          -- the list may be there only since an earlier event of this CPU cleared it
          split at hsome
          · next hinj' => exact (hcan.irqs hinj').2
          · exact hsome
      · rw [hev', hev, Function.update_idem]
      · rw [hirqs', hirqs]
        by_cases hinj : e = .VIRTIO_INJECT_IRQ
        · simp [hinj]
        · simp [hinj, Ne.symm hinj]

theorem takeIrqs_of_canHandle {n : Nat} (hn : (s.events c).length = n)
    (hcan : ∀ e ∈ s.events c, CanHandle s c e) : ∃ s', takeIrqs c n s = some s' := by
  induction n generalizing s with
  | zero => exact ⟨s, rfl⟩
  | succ n ih =>
    cases he : s.events c with
    | nil => simp [he] at hn
    | cons e l =>
      rw [he, List.length_cons, Nat.add_right_cancel_iff] at hn
      rw [he, List.forall_mem_cons] at hcan
      obtain ⟨s₁, hs₁⟩ := checkEvents_of_canHandle he hcan.1
      obtain ⟨-, hsame, hev, hirqs⟩ := canHandle_of_checkEvents he (.inr hcan.1.wakeup) hs₁
      have hevc : s₁.events c = l := by rw [hev, Function.update_self]
      obtain ⟨s', hs'⟩ := ih (hevc ▸ hn) fun e' he' => by
        obtain ⟨hw, hi, hd⟩ := hcan.2 e' (hevc ▸ he')
        refine ⟨hw, fun hinj => ⟨hsame.virtioIrqsLock ▸ (hi hinj).1, ?_⟩, hsame.ctrlLock ▸ hd⟩
        rw [hirqs]
        split
        · rw [Function.update_self]
          nofun
        · exact (hi hinj).2
      exact ⟨s', by rw [takeIrqs, hs₁]; exact hs'⟩

/-! ## The CPUs of a zone -/

/-- What CPUs have changed that have handled their events. -/
structure Settled (s : Machine) (l : List Nat) (s' : Machine) : Prop where
  same : SameZones s s'
  events : s'.events = fun c => if c ∈ l then [] else s.events c
  virtioIrqs : s'.virtioIrqs = fun c =>
    if c ∈ l ∧ .VIRTIO_INJECT_IRQ ∈ s.events c then some [] else s.virtioIrqs c

/-- The CPU runs its guest or is parked, and can handle its events. -/
structure Ready (s : Machine) (c : Nat) : Prop where
  pc : s.pc c = .lower
  events : ∀ e ∈ s.events c, CanHandle s c e

theorem settled_of_processEvents (hz : s.zone c = none ∨ .WAKEUP ∉ s.events c)
    (hs : s.processEvents c = some s') : Ready s c ∧ Settled s [c] s' := by
  rw [processEvents] at hs
  split at hs
  · next hpc =>
    obtain ⟨hcan, hsame, hev, hirqs⟩ := takeIrqs_eq_some rfl hz hs
    refine ⟨⟨hpc, hcan⟩, hsame, ?_, ?_⟩
    · rw [hev]
      funext c'
      simp [Function.update_apply]
    · rw [hirqs]
      funext c'
      by_cases hc : c' = c
      · subst hc
        split <;> simp_all
      · split <;> simp [hc]
  · cases hs

theorem processEvents_of_ready (h : Ready s c) : ∃ s', s.processEvents c = some s' := by
  rw [processEvents, if_pos h.pc]
  exact takeIrqs_of_canHandle rfl h.events

theorem Settled.ready_iff (h : Settled s [c] s') {c' : Nat} (hc : c' ≠ c) :
    Ready s' c' ↔ Ready s c' := by
  have hev : s'.events c' = s.events c' := by simp [h.events, hc]
  have hirqs : s'.virtioIrqs c' = s.virtioIrqs c' := by simp [h.virtioIrqs, hc]
  have hcan : ∀ e, CanHandle s' c' e ↔ CanHandle s c' e := fun e => by
    constructor
    all_goals
      rintro ⟨hw, hi, hd⟩
      refine ⟨hw, fun he => ?_, fun he => ?_⟩
    · exact ⟨h.same.virtioIrqsLock ▸ (hi he).1, hirqs ▸ (hi he).2⟩
    · exact h.same.ctrlLock ▸ hd he
    · exact ⟨h.same.virtioIrqsLock.symm ▸ (hi he).1, hirqs.symm ▸ (hi he).2⟩
    · exact h.same.ctrlLock.symm ▸ hd he
  constructor
  · rintro ⟨hpc, he⟩
    exact ⟨h.same.pc ▸ hpc, fun e hm => (hcan e).mp (he e (hev.symm ▸ hm))⟩
  · rintro ⟨hpc, he⟩
    exact ⟨h.same.pc.symm ▸ hpc, fun e hm => (hcan e).mpr (he e (hev ▸ hm))⟩

theorem Settled.cons {l : List Nat} {s₁ : Machine} (hc : c ∉ l) (h : Settled s [c] s₁)
    (h' : Settled s₁ l s') : Settled s (c :: l) s' := by
  refine ⟨h.same.trans h'.same, ?_, ?_⟩
  · rw [h'.events, h.events]
    funext c'
    by_cases hl : c' ∈ l <;> by_cases hcc : c' = c <;> simp [hl, hcc]
  · rw [h'.virtioIrqs, h.virtioIrqs, h.events]
    funext c'
    by_cases hcc : c' = c
    · subst hcc
      simp [hc]
    · simp [hcc]

theorem settled_of_foldlM {l : List Nat} (hl : l.Nodup)
    (hz : ∀ c ∈ l, s.zone c = none ∨ .WAKEUP ∉ s.events c)
    (hs : l.foldlM processEvents s = some s') : (∀ c ∈ l, Ready s c) ∧ Settled s l s' := by
  induction l generalizing s with
  | nil =>
    cases hs
    exact ⟨nofun, ⟨.refl _, by simp, by simp⟩⟩
  | cons c l ih =>
    rw [List.foldlM_cons] at hs
    obtain ⟨s₁, hs₁, hs⟩ := Option.bind_eq_some_iff.mp hs
    obtain ⟨hcl, hl⟩ := List.nodup_cons.mp hl
    obtain ⟨hc, hz⟩ := List.forall_mem_cons.mp hz
    obtain ⟨hready, hset⟩ := settled_of_processEvents hc hs₁
    -- the CPUs are different, so what one does leaves the others ready
    have hne : ∀ c' ∈ l, c' ≠ c := fun c' hc' he => hcl (he ▸ hc')
    obtain ⟨hready', hset'⟩ := ih hl (fun c' hc' => by
      rw [hset.same.zone, hset.events]
      simpa [hne c' hc'] using hz c' hc') hs
    refine ⟨List.forall_mem_cons.mpr ⟨hready, fun c' hc' => ?_⟩, hset.cons hcl hset'⟩
    exact (hset.ready_iff (hne c' hc')).mp (hready' c' hc')

theorem foldlM_of_ready {l : List Nat} (hl : l.Nodup) (h : ∀ c ∈ l, Ready s c) :
    ∃ s', l.foldlM processEvents s = some s' := by
  induction l generalizing s with
  | nil => exact ⟨s, rfl⟩
  | cons c l ih =>
    obtain ⟨hcl, hl⟩ := List.nodup_cons.mp hl
    obtain ⟨hc, h⟩ := List.forall_mem_cons.mp h
    obtain ⟨s₁, hs₁⟩ := processEvents_of_ready hc
    have hset := (settled_of_processEvents (.inr fun hw => (hc.events _ hw).wakeup rfl) hs₁).2
    obtain ⟨s', hs'⟩ := ih hl fun c' hc' =>
      (hset.ready_iff fun he => hcl (he ▸ hc')).mpr (h c' hc')
    exact ⟨s', by rw [List.foldlM_cons, hs₁]; exact hs'⟩

end Machine

/-! ## The zone leaves the list -/

theorem goto_eq_self {pc : Pc} (h : s.pc p = pc) : s.goto p pc = s := by
  rw [Machine.goto, ← h, Function.update_eq_self]

/-- A zone that is listed once and that no CPU has leaves the list, when no handler refers to it. -/
theorem removeZone_eq_some {w : Nat} (hfind : s.findZone id = some (some z))
    (hnd : s.zoneList.Nodup) (hzone : ∀ c, s.zone c ≠ some z) (hpc : s.pc p = .lower) :
    s.removeZone p id .lower = some (s', some w) ↔
      (∀ c ≤ s.ncpu, z ∉ (s.pc c).held) ∧ w = z ∧
        s' = { s with zoneList := s.zoneList.erase z } := by
  have hcount : Machine.strongCount { s with zoneList := s.zoneList.erase z } z = 0 ↔
      ∀ c ≤ s.ncpu, z ∉ (s.pc c).held := by
    rw [strongCount_eq_zero]
    exact ⟨fun h c hc => (h.2 c hc).2,
      fun h => ⟨hnd.not_mem_erase, fun c hc => ⟨hzone c, h c hc⟩⟩⟩
  have hgoto : Machine.goto { s with zoneList := s.zoneList.erase z } p .lower =
      { s with zoneList := s.zoneList.erase z } := goto_eq_self hpc
  rw [Machine.removeZone, hfind]
  simp only [hgoto, hcount]
  split
  · next h =>
    simp only [Option.some.injEq, Prod.mk.injEq]
    exact ⟨fun he => ⟨h, he.2.symm, he.1.symm⟩, fun he => ⟨he.2.2.symm, he.2.1.symm⟩⟩
  · next h => simp [h]

end Hvisor
