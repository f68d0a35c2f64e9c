import Hvisor.Lib.Mailbox
import Hvisor.Zone.Teardown

/-!
# Interrupts of virtio devices

The root zone records interrupts for the CPUs of other zones in `VIRTIO_IRQS`, and sends the CPU an
event; the handler of the event injects what is recorded. An interrupt that is recorded already is
not recorded again, and no event is sent for it. So a list without an event would block the
interrupts to come. A shutdown drops the events of a CPU, and must clear the list of the CPU.

A log runs along with the lists. It keeps the zone that each interrupt was recorded for, and what
was recorded and injected.

## Main definitions

* `IrqOp`, `Machine.irqOp`: what a step does to the lists
* `IrqLog`, `irqLifecycle`: the log, and the life of zones with it
* `DrainsIrqs`: the condition on a step
* `IrqsInv`: the invariant of lists and events

## Main results

* `irqEffect_of_lifeStep`: a step does to the lists what it does to the log
* `irqsInv_of_lifeStep`: what a step preserves
-/

namespace Hvisor

open Mailbox

variable {s s' : Machine} {p c z : Nat} {act : Act} {o : Outcome}

/-- The interrupts that are recorded for a CPU. -/
def Machine.irqList (s : Machine) (c : Nat) : List Nat := (s.virtioIrqs c).getD []

/-- The zone that a CPU injects interrupts for: the one whose guest it runs; for a parked CPU, the
one that it is assigned to. -/
def Machine.virqZone (s : Machine) (c : Nat) : Option Nat := (s.stage2 c).or (s.zone c)

/-- What happens to the lists of interrupts. -/
inductive IrqOp where
  | keep
  /-- The CPU injects what is recorded for it, for a zone. -/
  | inject (cpu : Nat) (zone : Option Nat)
  /-- A shutdown drops what is recorded for the CPU. -/
  | drop (cpu : Nat)
  | record (cpu irq zone : Nat)
  deriving DecidableEq

/-- What the next step of CPU `p` does to the lists. -/
def Machine.irqOp (s : Machine) (p : Nat) : IrqOp :=
  match s.pc p with
  | .event .irqs => .inject p (s.virqZone p)
  | .stop (.send _ _ c _) => .drop c
  | .lookup (.injectSend z irq _) =>
    match (s.zones z).cpuSet.firstCpu with
    | some c =>
      if irq ∈ s.irqList c then .keep
      else if (s.irqList c).length + 1 < MAX_DEVS then .record c irq z
      else .keep
    | none => .keep
  | _ => .keep

/-- The lists after the operation. -/
def IrqOp.lists (f : Nat → List Nat) : IrqOp → Nat → List Nat
  | .keep => f
  | .inject c _ | .drop c => Function.update f c []
  | .record c irq _ => Function.update f c (f c ++ [irq])

/-- The interrupts of each CPU that are recorded, with the zone that they were recorded for; all
that were recorded and not dropped, and that were taken; and those that were injected, with the zone
that the CPU injected them for. -/
structure IrqLog where
  pending : Nat → List (Nat × Nat)
  ledger : Nat → Ledger (Nat × Nat)
  injected : Nat → List ((Nat × Nat) × Option Nat)

namespace IrqLog

/-- Nothing was recorded. -/
def empty : IrqLog := ⟨fun _ => [], fun _ => .empty, fun _ => []⟩

/-- What is known of a list changes. -/
def update (l : IrqLog) (c : Nat) (pending : List (Nat × Nat)) (ledger : Ledger (Nat × Nat)) :
    IrqLog :=
  { l with pending := Function.update l.pending c pending
           ledger := Function.update l.ledger c ledger }

/-- CPU `c` injects what is recorded for it. -/
def inject (l : IrqLog) (c : Nat) (zone : Option Nat) : IrqLog :=
  { l.update c [] ((l.ledger c).takeAll (l.pending c)) with
    injected := Function.update l.injected c (l.injected c ++ (l.pending c).map (·, zone)) }

end IrqLog

/-- What a step does to the log. -/
def IrqOp.log (l : IrqLog) : IrqOp → IrqLog
  | .keep => l
  | .inject c zone => l.inject c zone
  | .drop c => l.update c [] (l.ledger c).drop
  | .record c irq z =>
    l.update c (l.pending c ++ [(irq, z)]) ((l.ledger c).push (fun _ => false) (irq, z))

/-- The life of zones, and what happens to the lists along with it. -/
def irqLifecycle : TransitionSystem (Machine × IrqLog) (Nat × Act × Outcome) where
  init x := x.1.Initial ∧ (∀ c, x.1.irqList c = []) ∧ x.2 = .empty
  step x e x' := lifecycle.step x.1 e x'.1 ∧ x'.2 = (x.1.irqOp e.1).log x.2

/-- The CPU holds the lock of `VIRTIO_IRQS`. -/
def Pc.holdsIrqs : Pc → Bool
  | .event .irqs | .lookup (.inject _) | .lookup (.injectSend _ _ _) => true
  | .stop (.irqs _) => false
  | .stop _ => true
  | _ => false

/-- The zone that a shutdown clears the lists of, and the CPUs that are left. -/
def Pc.sweeps : Pc → Option (Nat × List Nat)
  | .stop (.sendLock _ z todo) => some (z, todo)
  | .stop (.entry _ z c todo) | .stop (.send _ z c todo) => some (z, c :: todo)
  | .stop (.waitLock _ z _ _) | .stop (.wait _ z _ _ _) | .stop (.clearLock _ z _)
  | .stop (.clear _ z _ _) | .stop (.drop _ z) | .stop (.remove _ z) => some (z, [])
  | _ => none

/-- The CPU has taken the event of its list, and injects for the guest that it runs. -/
def Machine.InjectsIrqs (s : Machine) (c : Nat) : Prop :=
  (s.pc c = .event .irqsLock ∨ s.pc c = .event .irqs) ∧ s.stage2 c ≠ none

/-- A power-off takes the zone of a CPU whose list is empty, or that is about to inject it for the
guest; it gives up the zone of its own CPU with an empty list; it removes a zone for whose CPUs
nothing is recorded, or about to be; and it is called in a listed zone. An interrupt is recorded
for a CPU that still has the zone. -/
def DrainsIrqs (s : Machine) (e : Nat × Act × Outcome) : Prop :=
  match s.pc e.1 with
  | .lookup (.injectSend z irq _) =>
    ∀ c, s.irqOp e.1 = .record c irq z → s.zone c = some z
  | .off (.clear _ _ c _) => s.irqList c = [] ∨ s.InjectsIrqs c
  | .off (.self _ _) => s.irqList e.1 = []
  | .off (.remove _ _) => ∀ z, s.Removes e.1 z → (∀ c, s.owners.Has z c → s.irqList c = []) ∧
      ∀ q irq results, s.pc q ≠ .lookup (.injectSend z irq results)
  | .lower => e.2.1 = .systemOff → ∀ z, s.zone e.1 = some z → z ∈ s.zoneList
  | _ => True

/-! ## What a step does to the lists -/

/-- The places whose next step changes the lists. -/
def Pc.changesIrqs : Pc → Bool
  | .event .irqs | .stop (.send _ _ _ _) | .lookup (.injectSend _ _ _) => true
  | _ => false

theorem irqOp_eq_keep (h : (s.pc p).changesIrqs = false) : s.irqOp p = .keep := by
  rw [Machine.irqOp]
  split
  · next hpc => simp [hpc, Pc.changesIrqs] at h
  · next hpc => simp [hpc, Pc.changesIrqs] at h
  · next hpc => simp [hpc, Pc.changesIrqs] at h
  · rfl

theorem irqList_of_update {x : Option (List Nat)}
    (h : s'.virtioIrqs = Function.update s.virtioIrqs c x) :
    s'.irqList = Function.update s.irqList c (x.getD []) := by
  funext c'
  rw [Machine.irqList, h]
  by_cases hc : c' = c
  · subst hc
    rw [Function.update_self, Function.update_self]
  · rw [Function.update_of_ne hc, Function.update_of_ne hc]
    rfl

/-- The handler of an event; the events that are not about zones are handled at once. -/
def IpiEvent.handler : IpiEvent → Pc
  | .WAKEUP => .event .cloning
  | .SHUTDOWN => .event .idling
  | .VIRTIO_INJECT_IRQ => .event .irqsLock
  | _ => .lower

/-- What a step does to the events of a CPU. -/
inductive QueueStep (s : Machine) (p : Nat) (s' : Machine) (c : Nat) : Prop where
  | keep (h : s'.events c = s.events c)
  | fetch (e : IpiEvent) (hc : c = p) (hcheck : s.pc p = .event .check)
      (h : s.events c = e :: s'.events c) (hpc : s'.pc p = e.handler)
  | shutdown (h : s'.events c = [.SHUTDOWN]) (hpc : s.irqOp p = .drop c ∨
      ∃ z isRoot todo, s.pc p = .off (.clear z isRoot c todo))
  | send (e : IpiEvent) (h : s'.events c = s.events c ++ [e]) (he : e ≠ .SHUTDOWN)
      (hrecord : e = .VIRTIO_INJECT_IRQ → ∃ irq z, s.irqOp p = .record c irq z)

/-- An event other than a shutdown is sent. -/
theorem queueStep_of_send {target : Nat} {e : IpiEvent}
    (hev : s'.events = addEvent s.events target e) (he : e ≠ .SHUTDOWN)
    (hrecord : e = .VIRTIO_INJECT_IRQ → ∃ irq z, s.irqOp p = .record target irq z) (c : Nat) :
    QueueStep s p s' c := by
  by_cases hc : c = target
  · subst hc
    exact .send e (by rw [hev, addEvent_same, if_neg he]) he hrecord
  · exact .keep (by rw [hev, addEvent_of_ne _ _ hc])

/-- A shutdown is sent. -/
theorem queueStep_of_shutdown {target : Nat} (hev : s'.events = addEvent s.events target .SHUTDOWN)
    (hpc : s.irqOp p = .drop target ∨ ∃ z isRoot todo, s.pc p = .off (.clear z isRoot target todo))
    (c : Nat) : QueueStep s p s' c := by
  by_cases hc : c = target
  · subst hc
    exact .shutdown (by rw [hev, addEvent_same, if_pos rfl]) hpc
  · exact .keep (by rw [hev, addEvent_of_ne _ _ hc])

/-- An event of virtio interrupts stays queued, or is handled or dropped. -/
theorem QueueStep.mem_or (h : QueueStep s p s' c) (hc : .VIRTIO_INJECT_IRQ ∈ s.events c) :
    .VIRTIO_INJECT_IRQ ∈ s'.events c ∨ c = p ∧ s'.pc p = .event .irqsLock ∨
      s.irqOp p = .drop c ∨ ∃ z isRoot todo, s.pc p = .off (.clear z isRoot c todo) := by
  cases h with
  | keep h => exact .inl (h ▸ hc)
  | fetch e hcp hcheck h hpc =>
    rw [h] at hc
    rcases List.mem_cons.mp hc with rfl | hc
    · exact .inr (.inl ⟨hcp, hpc⟩)
    · exact .inl hc
  | shutdown h hpc => exact .inr (.inr hpc)
  | send e h he hrecord =>
    rw [h]
    exact .inl (List.mem_append_left _ hc)

/-- An event of virtio interrupts was queued before, or is sent with a record. -/
theorem QueueStep.of_mem (h : QueueStep s p s' c) (hc : .VIRTIO_INJECT_IRQ ∈ s'.events c) :
    .VIRTIO_INJECT_IRQ ∈ s.events c ∨ ∃ irq z, s.irqOp p = .record c irq z := by
  cases h with
  | keep h => exact .inl (h ▸ hc)
  | fetch e hcp hcheck h hpc =>
    rw [h]
    exact .inl (List.mem_cons_of_mem _ hc)
  | shutdown h hpc =>
    rw [h] at hc
    cases List.mem_singleton.mp hc
  | send e h he hrecord =>
    rw [h] at hc
    rcases List.mem_append.mp hc with hc | hc
    · exact .inl hc
    · exact .inr (hrecord (List.mem_singleton.mp hc).symm)

/-- **A step changes the lists as it says**, and the events and the lock with them. -/
structure IrqEffect (s : Machine) (p : Nat) (s' : Machine) : Prop where
  lists : s'.irqList = (s.irqOp p).lists s.irqList
  queue : ∀ c, QueueStep s p s' c
  sent : ∀ c irq z, s.irqOp p = .record c irq z → .VIRTIO_INJECT_IRQ ∈ s'.events c
  injects : s.pc p = .event .irqsLock → s'.pc p = .event .irqs
  unlock : s'.virtioIrqsLock = s.virtioIrqsLock ∨ s.virtioIrqsLock = none ∨ (s.pc p).holdsIrqs
  lock : (s'.pc p).holdsIrqs → s'.virtioIrqsLock = some p ∨
    (s.pc p).holdsIrqs ∧ s'.virtioIrqsLock = s.virtioIrqsLock

/-- A step that leaves the lists alone, and drops no event. -/
theorem irqEffect_of_lists (hl : s'.virtioIrqs = s.virtioIrqs) (hop : (s.pc p).changesIrqs = false)
    (he : ∀ c, QueueStep s p s' c) (hpc : s.pc p ≠ .event .irqsLock)
    (hu : s'.virtioIrqsLock = s.virtioIrqsLock ∨ s.virtioIrqsLock = none ∨ (s.pc p).holdsIrqs)
    (hk : (s'.pc p).holdsIrqs → s'.virtioIrqsLock = some p ∨
      (s.pc p).holdsIrqs ∧ s'.virtioIrqsLock = s.virtioIrqsLock) : IrqEffect s p s' := by
  have hkeep := irqOp_eq_keep hop
  refine ⟨?_, he, ?_, fun h => absurd h hpc, hu, hk⟩
  · rw [hkeep]
    funext c
    rw [Machine.irqList, hl]
    rfl
  · intro c irq z h
    rw [hkeep] at h
    cases h

/-- The same with the lock left alone. -/
theorem irqEffect_of_keep (hl : s'.virtioIrqs = s.virtioIrqs) (hop : (s.pc p).changesIrqs = false)
    (he : ∀ c, QueueStep s p s' c)
    (hk : s'.virtioIrqsLock = s.virtioIrqsLock) (hpc : s.pc p ≠ .event .irqsLock)
    (hh : (s'.pc p).holdsIrqs → (s.pc p).holdsIrqs) : IrqEffect s p s' :=
  irqEffect_of_lists hl hop he hpc (.inl hk) fun h => .inr ⟨hh h, hk⟩

/-- Removing a zone from the list leaves the interrupts alone. -/
theorem irqs_of_removeZone {id : Nat} {next : Pc} {r : Option Nat}
    (hs : s.removeZone p id next = some (s', r)) : s'.virtioIrqs = s.virtioIrqs ∧
      s'.events = s.events ∧ s'.virtioIrqsLock = s.virtioIrqsLock := by
  rcases removeZone_cases hs with ⟨-, -, rfl⟩ | ⟨z, -, ⟨-, rfl⟩ | ⟨-, rfl, -⟩⟩
  all_goals exact ⟨rfl, rfl, rfl⟩

section

attribute [local simp] Machine.goto Machine.lockCtrl Machine.unlockCtrl Machine.send
  Machine.setZone Function.update_apply Pc.holdsIrqs Pc.changesIrqs

/-- An event is fetched. -/
theorem queueStep_of_fetch (hcheck : s.pc p = .event .check)
    (hev : s'.events = (fetchEvent s.events p).2)
    (hpc : ∀ e, (fetchEvent s.events p).1 = some e → s'.pc p = e.handler) (c : Nat) :
    QueueStep s p s' c := by
  rw [fetchEvent] at hev hpc
  by_cases hc : c = p
  · subst hc
    cases hq : s.events c with
    | nil => exact .keep (by rw [hev, hq]; exact Function.update_self _ _ _)
    | cons e l =>
      refine .fetch e rfl hcheck ?_ (hpc e (by rw [hq]; rfl))
      have htail : s'.events c = l := by
        rw [hev, hq]
        exact Function.update_self _ _ _
      rw [hq, htail]
  · exact .keep (by rw [hev]; exact Function.update_of_ne hc _ _)

theorem irqEffect_of_eventStep {pc : EventPc} (hpc : s.pc p = .event pc)
    (hs : eventStep s p pc = some (s', o)) : IrqEffect s p s' := by
  cases pc with
  | check =>
    have hkeep : s.irqOp p = .keep := irqOp_eq_keep (by rw [hpc]; rfl)
    simp only [eventStep] at hs
    split at hs
    all_goals
      next he =>
      cases hs
      refine ⟨by rw [hkeep]; rfl, queueStep_of_fetch hpc rfl ?_, by simp [hkeep], by simp [hpc],
        .inl rfl, by simp⟩
      intro e hf
      simp_all [IpiEvent.handler]
  | irqsLock =>
    have hkeep : s.irqOp p = .keep := irqOp_eq_keep (by rw [hpc]; rfl)
    simp only [eventStep] at hs
    split at hs <;> cases hs
    next hlock =>
    exact ⟨by rw [hkeep]; rfl, fun _ => .keep rfl, by simp [hkeep], by simp, .inr (.inl hlock),
      by simp⟩
  | irqs =>
    have hop : s.irqOp p = .inject p (s.virqZone p) := by rw [Machine.irqOp, hpc]
    simp only [eventStep] at hs
    split at hs <;> cases hs
    · refine ⟨?_, fun _ => .keep rfl, by simp [hop], by simp [hpc], by simp [hpc], by simp⟩
      rw [hop]
      exact irqList_of_update (x := some []) rfl
    · next hnone =>
      refine ⟨?_, fun _ => .keep rfl, by simp [hop], by simp [hpc], by simp [hpc], by simp⟩
      have hempty : s.irqList p = [] := by rw [Machine.irqList, hnone, Option.getD_none]
      rw [hop, IrqOp.lists, ← hempty, Function.update_eq_self]
      rfl
  | cloning | activating z | resetting | starting | idling | poweringOff | parking =>
    simp only [eventStep] at hs
    (try split at hs) <;> cases hs
    all_goals
      refine irqEffect_of_keep rfl ?_ (fun _ => .keep rfl) rfl ?_ ?_
      all_goals simp [hpc]

theorem holdsIrqs_enter (call : RootCall) : call.enter.1.holdsIrqs = false := by
  cases call with
  | start config sizeOk => cases sizeOk <;> rfl
  | shutdown zoneId =>
    rw [RootCall.enter]
    split <;> rfl
  | _ => rfl

/-- A step of `is_this_root_zone` has nothing to do with interrupts. -/
theorem irqEffect_of_rootCheckStep {next : RootCheckPc → Pc} {zones : List Nat}
    {check : RootCheckPc} (hop : (s.pc p).changesIrqs = false) (hpc : s.pc p ≠ .event .irqsLock)
    (hnext : ∀ check', (next check').holdsIrqs = false)
    (hs : rootCheckStep s p next zones check = some s') : IrqEffect s p s' := by
  obtain ⟨q, rfl, ⟨check', rfl, -⟩ | rfl⟩ := goto_of_rootCheckStep hs
  all_goals
    refine irqEffect_of_keep rfl hop (fun _ => .keep rfl) rfl hpc fun h => ?_
    simp only [Machine.goto, Function.update_self, hnext] at h
    cases h

theorem irqEffect_of_trapStep {pc : TrapPc} (hpc : s.pc p = .trap pc)
    (hs : trapStep s p pc = some (s', o)) : IrqEffect s p s' := by
  have hop : (s.pc p).changesIrqs = false := by
    rw [hpc]
    rfl
  have hne : s.pc p ≠ .event .irqsLock := by simp [hpc]
  revert hs hpc
  fun_cases trapStep s p pc <;> intro hpc hs
  case case13 | case25 =>
    obtain ⟨s₁, hs₁, he⟩ := Option.map_eq_some_iff.mp hs
    cases he
    exact irqEffect_of_rootCheckStep hop hne (fun _ => rfl) hs₁
  all_goals cases hs
  all_goals
    refine irqEffect_of_keep rfl hop (fun c => ?_) rfl hne ?_
  case case17.refl.refine_1 | case22.refl.refine_1 =>
    exact queueStep_of_send rfl (by decide) (by simp) c
  case case23.refl.refine_2 =>
    intro h
    simp only [Machine.goto, Function.update_self, holdsIrqs_enter] at h
    cases h
  all_goals first | exact .keep rfl | simp

theorem irqEffect_of_startStep {pc : StartPc} (hpc : s.pc p = .start pc)
    (hs : startStep s p pc = some (s', o)) : IrqEffect s p s' := by
  revert hs hpc
  fun_cases startStep s p pc <;> intro hpc hs <;> cases hs
  all_goals
    refine irqEffect_of_keep rfl (by rw [hpc]; rfl) (fun c => ?_) rfl (by simp [hpc]) ?_
  case case16.refl.refine_1 => exact queueStep_of_send rfl (by decide) (by simp) c
  all_goals first | exact .keep rfl | simp

theorem irqEffect_of_stopStep {pc : StopPc} (hpc : s.pc p = .stop pc)
    (hs : stopStep s p pc = some (s', o)) : IrqEffect s p s' := by
  revert hs hpc
  fun_cases stopStep s p pc <;> intro hpc hs <;> try cases hs
  case case1.refl hlock =>
    exact irqEffect_of_lists rfl (by rw [hpc]; rfl) (fun _ => .keep rfl) (by simp [hpc])
      (.inr (.inl hlock)) fun _ => .inl rfl
  case case4.refl =>
    exact irqEffect_of_lists rfl (by rw [hpc]; rfl) (fun _ => .keep rfl) (by simp [hpc])
      (.inr (.inr (by rw [hpc]; rfl))) (by simp)
  case case12.refl id z c todo =>
    have hop : s.irqOp p = .drop c := by rw [Machine.irqOp, hpc]
    refine ⟨?_, queueStep_of_shutdown rfl (.inl hop), by simp [hop], by simp [hpc], .inl rfl,
      fun _ => .inr ⟨by simp [hpc], rfl⟩⟩
    rw [hop]
    refine (irqList_of_update rfl).trans ?_
    cases s.virtioIrqs c <;> rfl
  case case24.refl id z s₁ w hr =>
    obtain ⟨hl, he, -⟩ := irqs_of_removeZone hr
    refine irqEffect_of_lists hl (by rw [hpc]; rfl) (fun c => .keep (congrFun he c)) (by simp [hpc])
      (.inr (.inr (by rw [hpc]; rfl))) fun h => ?_
    rcases pc_of_removeZone hr with hq | hq | ⟨_, hq⟩ <;> simp [hq] at h
  case case25.refl id z hr =>
    obtain ⟨hl, he, hk⟩ := irqs_of_removeZone hr
    refine irqEffect_of_keep hl (by rw [hpc]; rfl) (fun c => .keep (congrFun he c)) hk
      (by simp [hpc]) ?_
    rw [hpc]
    exact fun _ => rfl
  all_goals
    refine irqEffect_of_keep rfl (by rw [hpc]; rfl) (fun _ => .keep rfl) rfl (by simp [hpc]) ?_
    rw [hpc]
    exact fun _ => rfl

theorem irqEffect_of_offStep {pc : OffPc} (hpc : s.pc p = .off pc)
    (hs : offStep s p pc = some (s', o)) : IrqEffect s p s' := by
  revert hs hpc
  fun_cases offStep s p pc <;> intro hpc hs
  case case6 =>
    obtain ⟨s₁, hs₁, he⟩ := Option.map_eq_some_iff.mp hs
    cases he
    exact irqEffect_of_rootCheckStep (by rw [hpc]; rfl) (by simp [hpc]) (fun _ => rfl) hs₁
  all_goals try cases hs
  case case12.refl z isRoot c todo =>
    have hkeep : s.irqOp p = .keep := irqOp_eq_keep (by rw [hpc]; rfl)
    exact ⟨by rw [hkeep]; rfl, queueStep_of_shutdown rfl (.inr ⟨z, isRoot, todo, hpc⟩),
      by simp [hkeep], by simp [hpc], .inl rfl, by simp⟩
  case case15.refl z isRoot r hr =>
    obtain ⟨hl, he, hk⟩ := irqs_of_removeZone hr
    refine irqEffect_of_keep hl (by rw [hpc]; rfl) (fun c => .keep (congrFun he c)) hk
      (by simp [hpc]) ?_
    rcases pc_of_removeZone hr with hq | hq | ⟨_, hq⟩ <;> cases isRoot <;> simp [hq]
  all_goals
    refine irqEffect_of_keep rfl (by rw [hpc]; rfl) (fun _ => .keep rfl) rfl (by simp [hpc]) ?_
    simp

theorem irqEffect_of_lookupStep {pc : LookupPc} (hpc : s.pc p = .lookup pc)
    (hs : lookupStep s p pc = some (s', o)) : IrqEffect s p s' := by
  cases pc with
  | injectSend z irq results =>
    simp only [lookupStep] at hs
    split at hs
    · split at hs
      · next hfirst =>
        cases hs
        have hop : s.irqOp p = .keep := by simp only [Machine.irqOp, hpc, hfirst]
        exact ⟨by rw [hop]; rfl, fun _ => .keep rfl, by simp [hop], by simp [hpc], .inl rfl,
          by simp⟩
      · next c hfirst =>
        split at hs
        · next hmem =>
          -- the interrupt is recorded already
          cases hs
          have hop : s.irqOp p = .keep := by
            simp only [Machine.irqOp, hpc, hfirst]
            exact if_pos hmem
          refine ⟨?_, fun _ => .keep rfl, by simp [hop], by simp [hpc], .inl rfl, by simp [hpc]⟩
          rw [hop]
          exact (irqList_of_update (x := some (s.irqList c)) rfl).trans
            (Function.update_eq_self c s.irqList)
        · next hmem =>
          split at hs
          · next hlen =>
            cases hs
            have hop : s.irqOp p = .record c irq z := by
              simp only [Machine.irqOp, hpc, hfirst]
              exact (if_neg hmem).trans (if_pos hlen)
            refine ⟨?_, queueStep_of_send rfl (by decide) fun _ => ⟨irq, z, hop⟩,
              fun c' irq' z' he => ?_, by simp [hpc], .inl rfl, by simp [hpc]⟩
            · rw [hop]
              exact irqList_of_update (x := some (s.irqList c ++ [irq])) rfl
            · rw [hop] at he
              cases he
              simp
          · next hlen =>
            cases hs
            have hop : s.irqOp p = .keep := by
              simp only [Machine.irqOp, hpc, hfirst]
              exact (if_neg hmem).trans (if_neg hlen)
            exact ⟨by rw [hop]; rfl, fun _ => .keep rfl, by simp [hop], by simp [hpc], .inl rfl,
              by simp⟩
    · cases hs
  | injectLock results =>
    simp only [lookupStep] at hs
    split at hs <;> cases hs
    next hlock =>
    exact irqEffect_of_lists rfl (by rw [hpc]; rfl) (fun _ => .keep rfl) (by simp [hpc])
      (.inr (.inl hlock)) fun _ => .inl rfl
  | inject results =>
    cases results with
    | nil =>
      cases hs
      exact irqEffect_of_lists rfl (by rw [hpc]; rfl) (fun _ => .keep rfl) (by simp [hpc])
        (.inr (.inr (by rw [hpc]; rfl))) (by simp)
    | cons result results =>
      simp only [lookupStep] at hs
      split at hs <;> cases hs
      all_goals
        refine irqEffect_of_keep rfl (by rw [hpc]; rfl) (fun _ => .keep rfl) rfl (by simp [hpc]) ?_
        simp [hpc]
  | signal zoneId =>
    simp only [lookupStep] at hs
    split at hs <;> cases hs
    all_goals
      refine irqEffect_of_keep rfl (by rw [hpc]; rfl) (fun _ => .keep rfl) rfl (by simp [hpc]) ?_
      simp
  | signalSend z =>
    simp only [lookupStep] at hs
    split at hs
    · split at hs <;> cases hs
      all_goals
        refine irqEffect_of_keep rfl (by rw [hpc]; rfl) (fun c => ?_) rfl (by simp [hpc]) (by simp)
      · exact queueStep_of_send rfl (by decide) (by simp) c
      · exact .keep rfl
    · cases hs

end

theorem irqEffect_of_trapEntry (hpc : s.pc p = .lower) (hs : trapEntry s p act = some s') :
    IrqEffect s p s' := by
  cases act with
  | step => cases hs
  | irq =>
    cases hs
    refine irqEffect_of_keep rfl (by rw [hpc]; rfl) (fun _ => .keep rfl) rfl (by rw [hpc]; nofun) ?_
    simp [Machine.goto, Pc.holdsIrqs]
  | trap uses | cpuOn target entry =>
    simp only [trapEntry] at hs
    split at hs <;> cases hs
    refine irqEffect_of_keep rfl (by rw [hpc]; rfl) (fun _ => .keep rfl) rfl (by rw [hpc]; nofun) ?_
    simp [Machine.goto, Pc.holdsIrqs]
  | hvc call | systemOff =>
    simp only [trapEntry, Machine.withThisZone] at hs
    split at hs
    · split at hs <;> cases hs
      all_goals
        refine irqEffect_of_keep rfl (by rw [hpc]; rfl) (fun _ => .keep rfl) rfl
          (by rw [hpc]; nofun) ?_
        simp [Machine.goto, Pc.holdsIrqs]
    · cases hs

/-- **The frame of a step** for the interrupts. -/
theorem irqEffect_of_lifeStep (hs : lifeStep s p act = some (s', o)) : IrqEffect s p s' := by
  cases hpc : s.pc p with
  | lower => exact irqEffect_of_trapEntry hpc (trapEntry_of_lifeStep hs hpc).1
  | event pc => exact irqEffect_of_eventStep hpc (eventStep_of_lifeStep hs hpc)
  | trap pc => exact irqEffect_of_trapStep hpc (trapStep_of_lifeStep hs hpc)
  | start pc => exact irqEffect_of_startStep hpc (startStep_of_lifeStep hs hpc)
  | stop pc => exact irqEffect_of_stopStep hpc (stopStep_of_lifeStep hs hpc)
  | off pc => exact irqEffect_of_offStep hpc (offStep_of_lifeStep hs hpc)
  | lookup pc => exact irqEffect_of_lookupStep hpc (lookupStep_of_lifeStep hs hpc)
  | systemOff | panicked r zones =>
    have hh := handlerStep_of_lifeStep hs (by simp [hpc])
    rw [handlerStep, hpc] at hh
    cases hh

/-- A CPU that a shutdown is sent to has no other event queued. -/
theorem events_of_shutdown (hs : lifeStep s p act = some (s', o))
    (hop : s.irqOp p = .drop c ∨ ∃ z isRoot todo, s.pc p = .off (.clear z isRoot c todo)) :
    s'.events c = [.SHUTDOWN] := by
  rcases hop with hop | ⟨z, isRoot, todo, hpc⟩
  · obtain ⟨id, z, todo, hpc⟩ : ∃ id z todo, s.pc p = .stop (.send id z c todo) := by
      unfold Machine.irqOp at hop
      split at hop
      · cases hop
      · next hpc =>
        cases hop
        exact ⟨_, _, _, hpc⟩
      · split at hop
        · split_ifs at hop
        · cases hop
      · cases hop
    have hh := stopStep_of_lifeStep hs hpc
    rw [stopStep] at hh
    cases hh
    simp [Machine.goto, Machine.send, Machine.unlockCtrl]
  · have hh := offStep_of_lifeStep hs hpc
    rw [offStep] at hh
    cases hh
    simp [Machine.goto, Machine.send, Machine.unlockCtrl]

/-! ## What the operations do to the log -/

namespace IrqOp

variable {f : Nat → List Nat} {l : IrqLog} {op : IrqOp}

/-- The log agrees with the lists. -/
theorem pending_log (h : ∀ c, (l.pending c).map Prod.fst = f c) (op : IrqOp) (c : Nat) :
    ((op.log l).pending c).map Prod.fst = op.lists f c := by
  cases op with
  | keep => exact h c
  | inject c' zone | drop c' =>
    simp only [log, lists, IrqLog.inject, IrqLog.update, Function.update_apply]
    split
    · rfl
    · exact h c
  | record c' irq z =>
    simp only [log, lists, IrqLog.update, Function.update_apply]
    split
    · rw [List.map_append, h c', List.map_singleton]
    · exact h c

theorem balanced_log (h : ∀ c, (l.ledger c).Balanced (l.pending c)) (op : IrqOp) (c : Nat) :
    ((op.log l).ledger c).Balanced ((op.log l).pending c) := by
  cases op with
  | keep => exact h c
  | inject c' zone | drop c' =>
    simp only [log, IrqLog.inject, IrqLog.update, Function.update_apply]
    split
    · first | exact (h c').takeAll | exact Ledger.balanced_drop _
    · exact h c
  | record c' irq z =>
    simp only [log, IrqLog.update, Function.update_apply]
    split
    · exact (h c').push (irq, z)
    · exact h c

theorem mem_of_mem_log {x : Nat × Nat} (h : x ∈ (op.log l).pending c) :
    (x ∈ l.pending c ∧ ∀ zone, op ≠ .inject c zone) ∨ op = .record c x.1 x.2 := by
  cases op with
  | keep => exact .inl ⟨h, nofun⟩
  | inject c' zone | drop c' =>
    simp only [log, IrqLog.inject, IrqLog.update, Function.update_apply] at h
    split at h
    · cases h
    · next hc => exact .inl ⟨h, by simp [Ne.symm hc]⟩
  | record c' irq z =>
    simp only [log, IrqLog.update, Function.update_apply] at h
    split at h
    · next hc =>
      subst hc
      rcases List.mem_append.mp h with h | h
      · exact .inl ⟨h, nofun⟩
      · obtain rfl := List.mem_singleton.mp h
        exact .inr rfl
    · exact .inl ⟨h, nofun⟩

theorem mem_of_mem_injected {x : Nat × Nat} {zone : Option Nat}
    (h : (x, zone) ∈ (op.log l).injected c) :
    (x, zone) ∈ l.injected c ∨ op = .inject c zone ∧ x ∈ l.pending c := by
  cases op with
  | keep => exact .inl h
  | inject c' zone' =>
    simp only [log, IrqLog.inject, Function.update_apply] at h
    split at h
    · next hc =>
      subst hc
      rcases List.mem_append.mp h with h | h
      · exact .inl h
      · obtain ⟨y, hy, he⟩ := List.mem_map.mp h
        cases he
        exact .inr ⟨rfl, hy⟩
    · exact .inl h
  | drop c' | record c' irq z => exact .inl h

theorem taken_log (h : ∀ c, (l.ledger c).taken = (l.injected c).map Prod.fst) (op : IrqOp)
    (c : Nat) : ((op.log l).ledger c).taken = ((op.log l).injected c).map Prod.fst := by
  cases op with
  | keep => exact h c
  | inject c' zone =>
    simp only [log, IrqLog.inject, IrqLog.update, Function.update_apply]
    split
    · rw [List.map_append, List.map_map, ← h c']
      exact congrArg _ (List.map_id _).symm
    · exact h c
  | drop c' | record c' irq z =>
    simp only [log, IrqLog.update, Function.update_apply]
    split
    · next hc => exact (h c').trans (by rw [hc])
    · exact h c

theorem of_lists_ne_nil (h : op.lists f c ≠ []) :
    (f c ≠ [] ∧ (∀ zone, op ≠ .inject c zone) ∧ op ≠ .drop c) ∨
      ∃ irq z, op = .record c irq z := by
  cases op with
  | keep => exact .inl ⟨h, nofun, nofun⟩
  | inject c' zone | drop c' =>
    simp only [lists, Function.update_apply] at h
    split at h
    · exact absurd rfl h
    · next hc => exact .inl ⟨h, by simp [Ne.symm hc], by simp [Ne.symm hc]⟩
  | record c' irq z =>
    by_cases hc : c = c'
    · exact .inr ⟨irq, z, by rw [hc]⟩
    · simp only [lists, Function.update_apply, if_neg hc] at h
      exact .inl ⟨h, nofun, nofun⟩

end IrqOp

/-- What is recorded is recorded for a CPU of the zone. -/
theorem of_record {irq : Nat} (h : s.irqOp p = .record c irq z) :
    (∃ results, s.pc p = .lookup (.injectSend z irq results)) ∧
      (s.zones z).cpuSet.firstCpu = some c := by
  rw [Machine.irqOp] at h
  split at h
  · cases h
  · cases h
  · next z' irq' results hpc =>
    split at h
    · next c' hfirst =>
      split at h
      · cases h
      · split at h
        · cases h
          exact ⟨⟨results, hpc⟩, hfirst⟩
        · cases h
    · cases h
  · cases h

/-- Only a CPU itself injects what is recorded for it. -/
theorem of_inject {zone : Option Nat} (h : s.irqOp p = .inject c zone) :
    c = p ∧ s.pc p = .event .irqs ∧ zone = s.virqZone p := by
  rw [Machine.irqOp] at h
  split at h
  · next hpc =>
    cases h
    exact ⟨rfl, hpc, rfl⟩
  · cases h
  · split at h
    · split_ifs at h
    · cases h
  · cases h

/-! ## The invariant -/

/-- **The invariant**: the lists of a CPU have an event that is queued or handled, the log agrees
with them, what is recorded is recorded for a listed zone of the CPU, and a shutdown has cleared the
lists of the CPUs that it is done with. -/
structure IrqsInv (s : Machine) (l : IrqLog) : Prop where
  owned : Owned s.owners s.jobs
  torn : TornListed s
  lock : ∀ p, (s.pc p).holdsIrqs → s.virtioIrqsLock = some p
  queued : ∀ c, s.irqList c ≠ [] → .VIRTIO_INJECT_IRQ ∈ s.events c ∨
    s.pc c = .event .irqsLock ∨ s.pc c = .event .irqs
  pending : ∀ c, (l.pending c).map Prod.fst = s.irqList c
  balanced : ∀ c, (l.ledger c).Balanced (l.pending c)
  about : ∀ q z irq results, s.pc q = .lookup (.injectSend z irq results) → z ∈ s.zoneList
  recorded : ∀ c irq z, (irq, z) ∈ l.pending c → z ∈ s.zoneList ∧ s.owners.Has z c
  swept : ∀ q z todo, (s.pc q).sweeps = some (z, todo) → (∀ c ∈ todo, s.owners.Has z c) ∧
    ∀ c, s.owners.Has z c → c ∉ todo → s.irqList c = [] ∧ .VIRTIO_INJECT_IRQ ∉ s.events c

variable {l : IrqLog}

theorem lock_of_lifeStep (h : IrqsInv s l) (hs : lifeStep s p act = some (s', o)) (q : Nat)
    (hq : (s'.pc q).holdsIrqs) : s'.virtioIrqsLock = some q := by
  have hirq := irqEffect_of_lifeStep hs
  by_cases hqp : q = p
  · subst hqp
    rcases hirq.lock hq with he | ⟨hold, he⟩
    · exact he
    · rw [he]
      exact h.lock q hold
  · rw [(effect_of_lifeStep hs).pc_of_ne hqp] at hq
    have hold := h.lock q hq
    rcases hirq.unlock with he | he | he
    · rw [he]
      exact hold
    · rw [he] at hold
      cases hold
    · rw [h.lock p he] at hold
      exact absurd (Option.some.inj hold).symm hqp

/-- **No list is left without an event.** -/
theorem queued_of_lifeStep (h : IrqsInv s l) (hg : DrainsIrqs s (p, act, o))
    (hs : lifeStep s p act = some (s', o)) (hc : s'.irqList c ≠ []) :
    .VIRTIO_INJECT_IRQ ∈ s'.events c ∨ s'.pc c = .event .irqsLock ∨ s'.pc c = .event .irqs := by
  have hirq := irqEffect_of_lifeStep hs
  have heff := effect_of_lifeStep hs
  rw [hirq.lists] at hc
  rcases IrqOp.of_lists_ne_nil hc with ⟨hold, hinj, hdrop⟩ | ⟨irq, z, hop⟩
  · rcases h.queued c hold with he | hpc | hpc
    · rcases (hirq.queue c).mem_or he with he | ⟨rfl, hpc⟩ | hop | ⟨z, isRoot, todo, hpc⟩
      · exact .inl he
      · exact .inr (.inl hpc)
      · exact absurd hop hdrop
      · simp only [DrainsIrqs, hpc] at hg
        have hcp : c ≠ p := by
          rintro rfl
          rcases hg with hg | ⟨hg | hg, -⟩
          · exact hold hg
          · rw [hpc] at hg
            cases hg
          · rw [hpc] at hg
            cases hg
        rw [heff.pc_of_ne hcp]
        exact .inr (hg.resolve_left hold).1
    · by_cases hcp : c = p
      · subst hcp
        exact .inr (.inr (hirq.injects hpc))
      · rw [heff.pc_of_ne hcp]
        exact .inr (.inl hpc)
    · have hcp : c ≠ p := by
        rintro rfl
        exact hinj (s.virqZone c) (by rw [Machine.irqOp, hpc])
      rw [heff.pc_of_ne hcp]
      exact .inr (.inr hpc)
  · exact .inl (hirq.sent c irq z hop)

/-- A listed zone stays listed, unless the step removes it. -/
theorem mem_zoneList_of_effect (h : Effect s p s') (hz : z ∈ s.zoneList) (hr : ¬ s.Removes p z) :
    z ∈ s'.zoneList := by
  rcases h.zoneList with he | ⟨w, c, -, he⟩ | ⟨w, hw, he⟩
  · rwa [he]
  · rw [he]
    exact List.mem_append_left _ hz
  · rw [he]
    refine (List.mem_erase_of_ne ?_).mpr hz
    rintro rfl
    exact hr hw

/-- The zone that an interrupt is about to be recorded for was found in the list. -/
theorem found_of_injectSend {irq : Nat} {results : List (Nat × Nat)}
    (hs : lifeStep s p act = some (s', o)) (hpc' : s'.pc p = .lookup (.injectSend z irq results)) :
    z ∈ s.zoneList ∧ ∃ pc, s.pc p = .lookup pc := by
  have hto := (effect_of_lifeStep hs).leadsTo
  rw [hpc'] at hto
  cases hpc : s.pc p with
  | lookup pc =>
    refine ⟨?_, pc, rfl⟩
    have hh := lookupStep_of_lifeStep hs hpc
    revert hh
    fun_cases lookupStep s p pc <;> intro hh <;> cases hh
    all_goals simp [Machine.goto, Machine.send] at hpc'
    next hfind =>
    obtain ⟨rfl, -, -⟩ := hpc'
    exact (findZone_eq_some hfind).1
  | trap t =>
    rw [hpc] at hto
    cases t <;> exact hto.elim
  | _ =>
    rw [hpc] at hto
    exact hto.elim

/-- What a zone that leaves the list has no trace of: it is about to get no interrupt, and its CPUs
have none. -/
theorem none_of_removes (h : IrqsInv s l) (hg : DrainsIrqs s (p, act, o)) (hr : s.Removes p z) :
    (∀ c, s.owners.Has z c → s.irqList c = []) ∧
      ∀ q irq results, s.pc q ≠ .lookup (.injectSend z irq results) := by
  obtain ⟨-, i, hj⟩ := tears_of_removes h.owned h.torn hr
  have hr' := hr
  rw [Machine.Removes] at hr'
  split at hr'
  · next id w hpc =>
    -- a shutdown has cleared the lists, and holds their lock
    rw [Machine.jobs, hpc] at hj
    cases hj
    refine ⟨fun c hc => ?_, fun q irq results hq => ?_⟩
    · exact ((h.swept p z [] (by rw [hpc]; rfl)).2 c hc List.not_mem_nil).1
    · have hp := h.lock p (by rw [hpc]; rfl)
      rw [h.lock q (by rw [hq]; rfl)] at hp
      obtain rfl := Option.some.inj hp
      rw [hpc] at hq
      cases hq
  · next w isRoot hpc =>
    simp only [DrainsIrqs, hpc] at hg
    exact hg z hr
  · exact hr'.elim

theorem about_of_lifeStep (h : IrqsInv s l) (hg : DrainsIrqs s (p, act, o))
    (hs : lifeStep s p act = some (s', o)) {q irq : Nat} {results : List (Nat × Nat)}
    (hq : s'.pc q = .lookup (.injectSend z irq results)) : z ∈ s'.zoneList := by
  have heff := effect_of_lifeStep hs
  by_cases hqp : q = p
  · subst hqp
    obtain ⟨hz, pc, hpc⟩ := found_of_injectSend hs hq
    refine mem_zoneList_of_effect heff hz fun hr => ?_
    rw [Machine.Removes, hpc] at hr
    exact hr
  · rw [heff.pc_of_ne hqp] at hq
    refine mem_zoneList_of_effect heff (h.about q z irq results hq) fun hr => ?_
    exact (none_of_removes h hg hr).2 q irq results hq

theorem recorded_of_lifeStep (h : IrqsInv s l) (hg : DrainsIrqs s (p, act, o))
    (hs : lifeStep s p act = some (s', o)) {irq : Nat}
    (hc : (irq, z) ∈ ((s.irqOp p).log l).pending c) : z ∈ s'.zoneList ∧ s'.owners.Has z c := by
  have heff := effect_of_lifeStep hs
  rcases IrqOp.mem_of_mem_log hc with ⟨hold, -⟩ | hop
  · obtain ⟨hz, hhas⟩ := h.recorded c irq z hold
    refine ⟨mem_zoneList_of_effect heff hz fun hr => ?_,
      (has_of_effect heff (h.owned.lt z hz)).mpr hhas⟩
    have hnone := (none_of_removes h hg hr).1 c hhas
    rw [← h.pending c, List.map_eq_nil_iff] at hnone
    rw [hnone] at hold
    cases hold
  · obtain ⟨⟨results, hpc⟩, hfirst⟩ := of_record hop
    have hz := h.about p z irq results hpc
    have hhas : s.owners.Has z c := CpuSet.containsCpu_of_firstCpu hfirst
    refine ⟨mem_zoneList_of_effect heff hz fun hr => ?_,
      (has_of_effect heff (h.owned.lt z hz)).mpr hhas⟩
    rw [Machine.Removes, hpc] at hr
    exact hr

/-- A shutdown goes on with the same CPUs, or with all, or clears the list of the first one. -/
theorem sweeps_of_stopStep {pc : StopPc} {todo : List Nat} (hpc : s.pc p = .stop pc)
    (hs : stopStep s p pc = some (s', o)) (h : (s'.pc p).sweeps = some (z, todo)) :
    (s.jobs p).tears = some z ∧
      ((s.pc p).sweeps = some (z, todo) ∨ todo = (s.zones z).cpuSet.iter ∨
        ∃ c, (s.pc p).sweeps = some (z, c :: todo) ∧ s.irqOp p = .drop c) := by
  rw [Machine.jobs]
  revert hs hpc h
  fun_cases stopStep s p pc <;> intro hpc hs h <;> try cases hs
  case case24.refl hr | case25 hr =>
    rcases pc_of_removeZone hr with hq | hq | ⟨_, hq⟩ <;> simp [hq, Pc.sweeps] at h
  all_goals
    simp [Machine.goto, Pc.sweeps] at h
  all_goals
    obtain ⟨rfl, rfl⟩ := h
  case case6.refl => exact ⟨by rw [hpc]; rfl, .inr (.inl rfl)⟩
  case case12.refl c todo =>
    refine ⟨by rw [hpc]; rfl, .inr (.inr ⟨c, by rw [hpc]; rfl, ?_⟩)⟩
    rw [Machine.irqOp, hpc]
  all_goals exact ⟨by rw [hpc]; rfl, .inl (by rw [hpc]; rfl)⟩

theorem sweeps_of_lifeStep {todo : List Nat} (hs : lifeStep s p act = some (s', o))
    (h : (s'.pc p).sweeps = some (z, todo)) : (s.jobs p).tears = some z ∧
      ((s.pc p).sweeps = some (z, todo) ∨ todo = (s.zones z).cpuSet.iter ∨
        ∃ c, (s.pc p).sweeps = some (z, c :: todo) ∧ s.irqOp p = .drop c) := by
  have hto := (effect_of_lifeStep hs).leadsTo
  obtain ⟨t, ht⟩ : ∃ t, s'.pc p = .stop t := by
    unfold Pc.sweeps at h
    split at h
    all_goals first | exact ⟨_, ‹_›⟩ | cases h
  rw [ht] at hto
  cases hpc : s.pc p with
  | stop pc =>
    rw [← hpc]
    exact sweeps_of_stopStep hpc (stopStep_of_lifeStep hs hpc) h
  | trap pc =>
    rw [hpc] at hto
    cases pc with
    | rootCheck w call =>
      cases t with
      | irqs id =>
        rw [ht] at h
        cases h
      | _ => exact hto.elim
    | _ => exact hto.elim
  | _ =>
    rw [hpc] at hto
    exact hto.elim

/-- The zone that a shutdown sweeps is torn down by it. -/
theorem tears_of_sweeps {todo : List Nat} (h : (s.pc p).sweeps = some (z, todo)) :
    (s.jobs p).tears = some z ∧ (s.pc p).holdsIrqs := by
  rw [Machine.jobs]
  unfold Pc.sweeps at h
  split at h
  all_goals
    first
    | cases h
      next hpc =>
      rw [hpc]
      exact ⟨rfl, rfl⟩
    | cases h

/-- The lists of the CPUs that a shutdown is done with are empty, and no event is queued for
them. -/
theorem cleared_of_sweeps (h : IrqsInv s l) (hs : lifeStep s p act = some (s', o)) {q : Nat}
    {todo : List Nat} (hq : (s'.pc q).sweeps = some (z, todo)) :
    (∀ c ∈ todo, s'.owners.Has z c) ∧ ∀ c, s'.owners.Has z c → c ∉ todo →
      s'.irqList c = [] ∧ .VIRTIO_INJECT_IRQ ∉ s'.events c := by
  have heff := effect_of_lifeStep hs
  have hirq := irqEffect_of_lifeStep hs
  -- a CPU without interrupts stays so, but for those that the step records
  have hkeep : ∀ c, s.irqList c = [] ∧ .VIRTIO_INJECT_IRQ ∉ s.events c →
      (∀ c irq z, s.irqOp p ≠ .record c irq z) →
      s'.irqList c = [] ∧ .VIRTIO_INJECT_IRQ ∉ s'.events c := by
    intro c hc hrec
    refine ⟨?_, fun hev => ?_⟩
    · by_contra hne
      rw [hirq.lists] at hne
      rcases IrqOp.of_lists_ne_nil hne with ⟨hold, -, -⟩ | ⟨irq, w, hop⟩
      · exact hold hc.1
      · exact hrec c irq w hop
    · rcases (hirq.queue c).of_mem hev with hold | ⟨irq, w, hop⟩
      · exact hc.2 hold
      · exact hrec c irq w hop
  by_cases hqp : q = p
  · subst hqp
    obtain ⟨htears, hcases⟩ := sweeps_of_lifeStep hs hq
    have hlt := h.owned.lt_of_tears htears
    have hrec : ∀ {todo'}, (s.pc q).sweeps = some (z, todo') →
        ∀ c irq w, s.irqOp q ≠ .record c irq w := by
      intro todo' hsweeps c irq w hop
      obtain ⟨⟨results, hpc⟩, -⟩ := of_record hop
      rw [hpc] at hsweeps
      cases hsweeps
    simp only [has_of_effect heff hlt]
    rcases hcases with hsame | rfl | ⟨c', hfirst, hop⟩
    · obtain ⟨htodo, hdone⟩ := h.swept q z todo hsame
      exact ⟨htodo, fun c hc hn => hkeep c (hdone c hc hn) (hrec hsame)⟩
    · exact ⟨fun c hc => CpuSet.mem_iter.mp hc, fun c hc hn => absurd (CpuSet.mem_iter.mpr hc) hn⟩
    · obtain ⟨htodo, hdone⟩ := h.swept q z (c' :: todo) hfirst
      refine ⟨fun c hc => htodo c (List.mem_cons_of_mem _ hc), fun c hc hn => ?_⟩
      by_cases hcc : c = c'
      · subst hcc
        refine ⟨?_, ?_⟩
        · rw [hirq.lists, hop]
          exact Function.update_self _ _ _
        · rw [events_of_shutdown hs (.inl hop)]
          decide
      · exact hkeep c (hdone c hc (by simp [hcc, hn])) (hrec hfirst)
  · rw [heff.pc_of_ne hqp] at hq
    obtain ⟨htears, hholds⟩ := tears_of_sweeps hq
    have hlt := h.owned.lt_of_tears htears
    obtain ⟨htodo, hdone⟩ := h.swept q z todo hq
    simp only [has_of_effect heff hlt]
    refine ⟨htodo, fun c hc hn => hkeep c (hdone c hc hn) fun c irq w hop => ?_⟩
    -- the CPU that records holds the lock
    obtain ⟨⟨results, hpc⟩, -⟩ := of_record hop
    have hp := h.lock p (by rw [hpc]; rfl)
    rw [h.lock q hholds] at hp
    exact hqp (Option.some.inj hp)

/-- **The step lemma.** -/
theorem irqsInv_of_lifeStep (h : IrqsInv s l) (hn : NoOverlap s (p, act, o))
    (hg : DrainsIrqs s (p, act, o)) (hs : lifeStep s p act = some (s', o)) :
    IrqsInv s' ((s.irqOp p).log l) := by
  have hoff : s.pc p = .lower → act = .systemOff → ∀ z, s.zone p = some z → z ∈ s.zoneList := by
    intro hpc
    simp only [DrainsIrqs, hpc] at hg
    exact hg
  refine ⟨owned_step h.owned hn hs, listed_of_lifeStep h.owned h.torn hoff hs,
    fun _ => lock_of_lifeStep h hs _, fun _ => queued_of_lifeStep h hg hs, fun c => ?_,
    IrqOp.balanced_log h.balanced _, fun _ _ _ _ => about_of_lifeStep h hg hs,
    fun _ _ _ => recorded_of_lifeStep h hg hs, fun _ _ _ => cleared_of_sweeps h hs⟩
  rw [(irqEffect_of_lifeStep hs).lists]
  exact IrqOp.pending_log h.pending _ c

theorem irqsInv_of_initial (hi : s.Initial) (hl : ∀ c, s.irqList c = []) : IrqsInv s .empty := by
  refine ⟨owned_of_initial hi, fun p z hz => ?_, fun p hp => ?_, fun c hc => absurd (hl c) hc,
    fun c => (hl c).symm, fun _ => Ledger.balanced_empty, fun q z irq results hq => ?_, nofun,
    fun q z todo hq => ?_⟩
  · rw [Machine.jobs, hi.pc p] at hz
    cases hz
  · rw [hi.pc p] at hp
    cases hp
  · rw [hi.pc q] at hq
    cases hq
  · rw [hi.pc q] at hq
    cases hq

end Hvisor
