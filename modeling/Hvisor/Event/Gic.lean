import Hvisor.Event.Bus

/-!
# Events by a software interrupt of the GIC

How aarch64 delivers events, from `event.rs`, `gicv3/mod.rs` and `gicv2/gic.rs`. A sender raises one
software interrupt at the target, which is a single pending bit; the handler of the target
acknowledges it and checks for one event. The handler of a GICv3 goes on until no interrupt is
pending, the one of a GICv2 takes one interrupt. Guests may raise the same interrupt.

## Main definitions

* `GicPlace`, `GicVersion`, `GicAct`: the handler and the steps
* `gicStep`, `gicEvents`: the steps of the CPUs, and the system
* `Covered`: the events of a CPU do not outnumber the interrupts to come
* `KeepsCovered`: the condition on a step

## Main results

* `covered_gicStep`: what a step preserves
* `gic_lossless`: while no interrupt is swallowed that is needed, no event is lost
-/

namespace Hvisor

/-- Where a CPU is in the handler. -/
inductive GicPlace where
  /-- About to read the acknowledge register. -/
  | loop
  /-- Acknowledged the interrupt of events, and is about to check for one. -/
  | event
  deriving DecidableEq

/-- The versions of the interrupt controller. -/
inductive GicVersion where
  | v2
  | v3
  deriving DecidableEq

/-- Where the handler goes after an interrupt: back to the loop, or out. -/
def GicVersion.afterIrq : GicVersion → EventCpu GicPlace
  | .v2 => .outside
  | .v3 => .inside .loop

/-- What a CPU does. -/
inductive GicAct where
  /-- `send_event`: puts the event in the queue of the target. -/
  | send (target : Nat) (event : IpiEvent)
  /-- `arch_send_event` -/
  | raise
  /-- The guest raises the interrupt of events at a CPU. -/
  | guestSgi (target : Nat)
  | irq
  /-- The acknowledge register holds the interrupt of events. -/
  | ack
  /-- It holds another interrupt, which is handled. -/
  | other
  | check
  /-- It holds none. -/
  | done
  deriving DecidableEq

/-- The state of the delivery. -/
abbrev GicState := EventState Bool GicPlace

/-- A step of CPU `p`, of `ncpu` CPUs. -/
def gicStep (v : GicVersion) (ncpu : Nat) (s : GicState) (p : Nat) (act : GicAct) :
    Option GicState :=
  if p < ncpu then
    match s.pc p, act with
    | .outside, .send target event => some ((s.addEvent target event).goto p (.sending target))
    | .sending target, .raise => some ((s.setPending target true).goto p .outside)
    | .outside, .guestSgi target => some (s.setPending target true)
    | .outside, .irq => some (s.goto p (.inside .loop))
    | .inside .loop, .ack =>
      if s.pending p then some ((s.setPending p false).goto p (.inside .event)) else none
    | .inside .loop, .other => some (s.goto p v.afterIrq)
    | .inside .event, .check =>
      match s.fetchEvent p with
      -- `run` and `idle` leave the handler
      | (some .WAKEUP, s) | (some .SHUTDOWN, s) => some (s.goto p .outside)
      | (_, s) => some (s.goto p v.afterIrq)
    | .inside .loop, .done => if s.pending p then none else some (s.goto p .outside)
    | _, _ => none
  else none

/-- The delivery of events from a state in which nothing is sent. -/
def gicEvents (v : GicVersion) (ncpu : Nat) : TransitionSystem GicState (Nat × GicAct) :=
  .ofStep (· = .quiet false) fun s e => gicStep v ncpu s e.1 e.2

/-- What a CPU `p` at a place still does for the events of `cpu`: raise the interrupt, or check for
one event. -/
def share (p cpu : Nat) : EventCpu GicPlace → Nat
  | .sending target => if target = cpu then 1 else 0
  | .inside .event => if p = cpu then 1 else 0
  | _ => 0

/-- One if the CPU has acknowledged an interrupt and not yet checked for its event. -/
def checking (s : GicState) (cpu : Nat) : Nat := if s.pc cpu = .inside .event then 1 else 0

/-- The interrupts to come: the one that is pending, those that senders will raise, and the one that
is handled. -/
def toCome (ncpu : Nat) (s : GicState) (cpu : Nat) : Nat :=
  (s.pending cpu).toNat + s.inflight ncpu cpu + checking s cpu

/-- **The events of a CPU do not outnumber the interrupts to come.** -/
def Covered (ncpu : Nat) (s : GicState) : Prop :=
  ∀ cpu, (s.events cpu).length ≤ toCome ncpu s cpu

/-- The interrupt is raised where it is not pending, or where the interrupts to come are enough
without it. -/
def KeepsCovered (ncpu : Nat) (s : GicState) (e : Nat × GicAct) : Prop :=
  e.2 = .raise → ∀ target, s.pc e.1 = .sending target → s.pending target = true →
    (s.events target).length < toCome ncpu s target

variable {v : GicVersion} {ncpu : Nat} {s s' : GicState}

theorem length_push_le (q : List IpiEvent) (event : IpiEvent) :
    (Mailbox.push clearsQueue q event).length ≤ q.length + 1 := by
  rw [Mailbox.push]
  split <;> simp

/-- A CPU that moves gives up what it would do, for what it does next. -/
theorem toCome_goto (s : GicState) {p : Nat} (hp : p < ncpu) (x : EventCpu GicPlace) (cpu : Nat) :
    toCome ncpu (s.goto p x) cpu + share p cpu (s.pc p) = toCome ncpu s cpu + share p cpu x := by
  have hcount := s.inflight_goto hp x cpu
  have hpending : (s.goto p x).pending = s.pending := rfl
  have hshare : ∀ y : EventCpu GicPlace, share p cpu y =
      (if y = .sending cpu then 1 else 0) + if p = cpu ∧ y = .inside .event then 1 else 0 := by
    intro y
    cases y with
    | inside place => cases place <;> simp [share]
    | _ => simp [share]
  have hcheck : checking (s.goto p x) cpu + (if p = cpu ∧ s.pc p = .inside .event then 1 else 0) =
      checking s cpu + if p = cpu ∧ x = .inside .event then 1 else 0 := by
    by_cases h : p = cpu
    · subst h
      simp only [checking, EventState.goto, Function.update_self, true_and]
      omega
    · simp only [checking, EventState.goto, Function.update_of_ne (Ne.symm h), h, false_and]
  rw [toCome, toCome, hpending, hshare, hshare]
  omega

/-- Raising or taking an interrupt changes what is pending there. -/
theorem toCome_setPending_self (s : GicState) (cpu : Nat) (b : Bool) :
    toCome ncpu (s.setPending cpu b) cpu + (s.pending cpu).toNat =
      toCome ncpu s cpu + b.toNat := by
  have hsend : (s.setPending cpu b).inflight ncpu cpu = s.inflight ncpu cpu := rfl
  have hcheck : checking (s.setPending cpu b) cpu = checking s cpu := rfl
  have hpending : (s.setPending cpu b).pending cpu = b := Function.update_self _ _ _
  rw [toCome, toCome, hsend, hcheck, hpending]
  omega

theorem toCome_setPending_of_ne (s : GicState) {target cpu : Nat} (b : Bool) (h : cpu ≠ target) :
    toCome ncpu (s.setPending target b) cpu = toCome ncpu s cpu := by
  have hpending : (s.setPending target b).pending cpu = s.pending cpu :=
    Function.update_of_ne h _ _
  rw [toCome, toCome, hpending]
  rfl

/-- A move after which the queue of each CPU is covered by what is to come there. -/
theorem covered_goto {p : Nat} {x : EventCpu GicPlace} (hp : p < ncpu)
    (h : ∀ cpu, (s.events cpu).length + share p cpu (s.pc p) ≤
      toCome ncpu s cpu + share p cpu x) : Covered ncpu (s.goto p x) := by
  intro cpu
  have hmove := toCome_goto s hp x cpu
  have hcpu := h cpu
  have hevents : (s.goto p x).events = s.events := rfl
  rw [hevents]
  omega

/-- An event is put in the queue, and an interrupt is to come for it. -/
theorem Covered.send {p : Nat} (hc : Covered ncpu s) (hp : p < ncpu) (h : s.pc p = .outside)
    (target : Nat) (event : IpiEvent) :
    Covered ncpu ((s.addEvent target event).goto p (.sending target)) := by
  refine covered_goto hp fun cpu => ?_
  rw [show (s.addEvent target event).pc p = .outside from h]
  have hcpu : (s.events cpu).length ≤ toCome ncpu (s.addEvent target event) cpu := hc cpu
  by_cases ht : cpu = target
  · subst ht
    have hlen := length_push_le (s.events cpu) event
    rw [EventState.events_addEvent_self]
    simp only [share, if_true]
    omega
  · rw [EventState.events_addEvent_of_ne _ _ ht]
    simp only [share]
    omega

/-- The interrupt is raised where it is not pending, or not needed. -/
theorem Covered.raise {p target : Nat} (hc : Covered ncpu s) (hp : p < ncpu)
    (h : s.pc p = .sending target)
    (hg : s.pending target = true → (s.events target).length < toCome ncpu s target) :
    Covered ncpu ((s.setPending target true).goto p .outside) := by
  refine covered_goto hp fun cpu => ?_
  rw [show (s.setPending target true).pc p = .sending target from h]
  have hcpu : ((s.setPending target true).events cpu).length ≤ toCome ncpu s cpu := hc cpu
  by_cases ht : cpu = target
  · subst ht
    have hpending : toCome ncpu (s.setPending cpu true) cpu + _ = _ :=
      toCome_setPending_self s cpu true
    have hevents : (s.setPending cpu true).events cpu = s.events cpu := rfl
    rw [hevents] at hcpu ⊢
    simp only [share, if_true]
    cases hpend : s.pending cpu with
    | true =>
      have := hg hpend
      rw [hpend] at hpending
      omega
    | false =>
      rw [hpend, Bool.toNat_false, Bool.toNat_true] at hpending
      omega
  · rw [toCome_setPending_of_ne s true ht]
    simp only [share, Ne.symm ht, if_false]
    omega

/-- An interrupt that the guest raises covers what was covered. -/
theorem Covered.guestSgi (hc : Covered ncpu s) (target : Nat) :
    Covered ncpu (s.setPending target true) := by
  intro cpu
  have hcpu : ((s.setPending target true).events cpu).length ≤ toCome ncpu s cpu := hc cpu
  by_cases ht : cpu = target
  · subst ht
    have hpending : toCome ncpu (s.setPending cpu true) cpu + _ = _ :=
      toCome_setPending_self s cpu true
    have := Bool.toNat_le (s.pending cpu)
    rw [Bool.toNat_true] at hpending
    omega
  · rwa [toCome_setPending_of_ne s true ht]

/-- The interrupt that was pending is the one that is handled. -/
theorem Covered.ack {p : Nat} (hc : Covered ncpu s) (hp : p < ncpu)
    (h : s.pc p = .inside .loop) (hpend : s.pending p = true) :
    Covered ncpu ((s.setPending p false).goto p (.inside .event)) := by
  refine covered_goto hp fun cpu => ?_
  rw [show (s.setPending p false).pc p = .inside .loop from h]
  have hcpu : ((s.setPending p false).events cpu).length ≤ toCome ncpu s cpu := hc cpu
  by_cases ht : cpu = p
  · subst ht
    have hpending : toCome ncpu (s.setPending cpu false) cpu + _ = _ :=
      toCome_setPending_self s cpu false
    rw [hpend, Bool.toNat_false, Bool.toNat_true] at hpending
    simp only [share, if_true]
    omega
  · rw [toCome_setPending_of_ne s false ht]
    simp only [share]
    omega

/-- An event is taken for the interrupt that was handled. -/
theorem Covered.check {p : Nat} {x : EventCpu GicPlace} (hc : Covered ncpu s) (hp : p < ncpu)
    (h : s.pc p = .inside .event) : Covered ncpu ((s.fetchEvent p).2.goto p x) := by
  refine covered_goto hp fun cpu => ?_
  rw [show (s.fetchEvent p).2.pc p = .inside .event from h]
  have hcpu : (s.events cpu).length ≤ toCome ncpu (s.fetchEvent p).2 cpu := hc cpu
  by_cases ht : cpu = p
  · subst ht
    have hone : 1 ≤ toCome ncpu (s.fetchEvent cpu).2 cpu := by
      have hcheck : checking (s.fetchEvent cpu).2 cpu = 1 := if_pos h
      rw [toCome, hcheck]
      exact Nat.le_add_left 1 _
    rw [EventState.events_fetchEvent_self, List.length_tail]
    simp only [share, if_true]
    omega
  · rw [EventState.events_fetchEvent_of_ne _ ht]
    simp only [share, Ne.symm ht, if_false]
    omega

/-- **What a step preserves.** -/
theorem covered_gicStep {p : Nat} {act : GicAct} (h : gicStep v ncpu s p act = some s')
    (hg : KeepsCovered ncpu s (p, act)) (hc : Covered ncpu s) : Covered ncpu s' := by
  have hstay : ∀ x, s.pc p = .outside ∨ s.pc p = .inside .loop → p < ncpu →
      Covered ncpu (s.goto p x) := by
    intro x hpc hp
    refine covered_goto hp fun cpu => ?_
    have hcpu := hc cpu
    rcases hpc with hpc | hpc
    all_goals
      rw [hpc]
      simp only [share]
      omega
  revert h
  fun_cases gicStep v ncpu s p act <;> intro hs <;> try cases hs
  case case1 hp target event hpc => exact hc.send hp hpc target event
  case case2 hp target hpc => exact hc.raise hp hpc (hg rfl target hpc)
  case case3 target hpc => exact hc.guestSgi target
  case case4 hp hpc => exact hstay _ (.inl hpc) hp
  case case5 hp hpc hpend => exact hc.ack hp hpc hpend
  case case7 hp hpc => exact hstay _ (.inr hpc) hp
  case case8 hp hpc s' hfetch =>
    obtain rfl : (s.fetchEvent p).2 = s' := congrArg Prod.snd hfetch
    exact hc.check hp hpc
  case case9 hp hpc s' hfetch =>
    obtain rfl : (s.fetchEvent p).2 = s' := congrArg Prod.snd hfetch
    exact hc.check hp hpc
  case case10 hp hpc event s' hw hs hfetch =>
    obtain rfl : (s.fetchEvent p).2 = s' := congrArg Prod.snd hfetch
    exact hc.check hp hpc
  case case12 hp hpc hpend => exact hstay _ (.inr hpc) hp

theorem balanced_gicStep {p : Nat} {act : GicAct} (h : gicStep v ncpu s p act = some s')
    (hb : s.Balanced) : s'.Balanced := by
  revert h
  fun_cases gicStep v ncpu s p act <;> intro hs <;> try cases hs
  case case1 target event hpc => exact hb.addEvent target event
  case case8 s' hfetch =>
    obtain rfl : (s.fetchEvent p).2 = s' := congrArg Prod.snd hfetch
    exact hb.fetchEvent p
  case case9 s' hfetch =>
    obtain rfl : (s.fetchEvent p).2 = s' := congrArg Prod.snd hfetch
    exact hb.fetchEvent p
  case case10 event s' hw hs hfetch =>
    obtain rfl : (s.fetchEvent p).2 = s' := congrArg Prod.snd hfetch
    exact hb.fetchEvent p
  all_goals exact hb

/-! ## Runs -/

theorem covered_quiet (ncpu : Nat) : Covered ncpu (.quiet false) := fun _ => Nat.zero_le _

/-- **No event is lost** in a run in which no raise is swallowed that is needed: when no interrupt
is pending at a CPU or to be raised there, and it is not in its handler, its queue is empty, and it
has handled what was sent, once and in order, but for what a shutdown dropped. -/
theorem gic_lossless {h : List (Nat × GicAct)}
    (r : ((gicEvents v ncpu).restrict (KeepsCovered ncpu)).Run h s) (cpu : Nat)
    (hpending : s.pending cpu = false) (hsend : s.inflight ncpu cpu = 0)
    (hpc : s.pc cpu = .outside) :
    s.events cpu = [] ∧ (s.ledger cpu).kept = (s.ledger cpu).taken := by
  have hinv : Covered ncpu s ∧ s.Balanced := by
    refine TransitionSystem.Run.invariant (I := fun _ s => Covered ncpu s ∧ s.Balanced) ?_ ?_ r
    · rintro s rfl
      exact ⟨covered_quiet ncpu, EventState.balanced_quiet false⟩
    · rintro h s ⟨p, act⟩ s' - ⟨hc, hb⟩ ⟨hg, hs⟩
      exact ⟨covered_gicStep hs hg hc, balanced_gicStep hs hb⟩
  have hcheck : checking s cpu = 0 := if_neg (by rw [hpc]; exact nofun)
  have hlen := hinv.1 cpu
  rw [toCome, hpending, hsend, hcheck] at hlen
  have hempty : s.events cpu = [] := List.eq_nil_of_length_eq_zero (Nat.le_zero.mp hlen)
  have hbal := hinv.2 cpu
  rw [hempty] at hbal
  exact ⟨hempty, hbal.eq_taken⟩

instance (ncpu : Nat) (s : GicState) (e : Nat × GicAct) : Decidable (KeepsCovered ncpu s e) :=
  match h : s.pc e.1 with
  | .sending target =>
    decidable_of_iff (e.2 = .raise → s.pending target = true →
        (s.events target).length < toCome ncpu s target)
      ⟨fun hk hr target' ht => by
        obtain rfl : target = target' := EventCpu.sending.inj (h.symm.trans ht)
        exact hk hr, fun hk hr => hk hr target h⟩
  | .outside => isTrue fun _ target ht => by rw [h] at ht; cases ht
  | .inside _ => isTrue fun _ target ht => by rw [h] at ht; cases ht

/-- CPU 0 of three sends two events to CPU 2, which handles each after its own interrupt. -/
def twoSends : List (Nat × GicAct) :=
  [(0, .send 2 .VIRTIO_INJECT_IRQ), (0, .raise), (2, .irq), (2, .ack), (2, .check),
    (0, .send 2 .SHM_SIGNAL), (0, .raise), (2, .ack), (2, .check), (2, .done)]

/-- The state after them. -/
def sentTwo : GicState :=
  (TransitionSystem.exec (fun s e => gicStep .v3 3 s e.1 e.2)
    (fun s e => decide (KeepsCovered 3 s e)) twoSends (.quiet false)).getD (.quiet false)

theorem gic_lossless_sentTwo : sentTwo.events 2 = [] ∧
    (sentTwo.ledger 2).taken = [.VIRTIO_INJECT_IRQ, .SHM_SIGNAL] ∧
    (sentTwo.ledger 2).kept = (sentTwo.ledger 2).taken := by
  have r : ((gicEvents .v3 3).restrict (KeepsCovered 3)).Run (twoSends.reverse ++ []) sentTwo :=
    .exec (fun s e => gicStep .v3 3 s e.1 e.2) (fun s e => decide (KeepsCovered 3 s e))
      (S := (gicEvents .v3 3).restrict (KeepsCovered 3))
      (fun _ _ _ hg hs => ⟨of_decide_eq_true hg, hs⟩) (.start rfl) rfl
  obtain ⟨hempty, hkept⟩ := gic_lossless r 2 rfl rfl rfl
  exact ⟨hempty, rfl, hkept⟩

/-- CPUs 0 and 1 each put an event in the queue of CPU 2 before either raises the interrupt, so that
one interrupt comes of the two; and CPU 2 handles it. -/
def coalescedSends : GicVersion → List (Nat × GicAct)
  | .v2 => [(0, .send 2 .VIRTIO_INJECT_IRQ), (1, .send 2 .SHM_SIGNAL), (0, .raise), (1, .raise),
      (2, .irq), (2, .ack), (2, .check)]
  | .v3 => [(0, .send 2 .VIRTIO_INJECT_IRQ), (1, .send 2 .SHM_SIGNAL), (0, .raise), (1, .raise),
      (2, .irq), (2, .ack), (2, .check), (2, .done)]

/-- With either version, the second event stays behind. -/
theorem gic_strands (v : GicVersion) :
    ∃ s, (gicEvents v 3).Run ((coalescedSends v).reverse ++ []) s ∧
    s.pending 2 = false ∧ s.inflight 3 2 = 0 ∧ s.pc 2 = .outside ∧ s.events 2 = [.SHM_SIGNAL] := by
  cases v
  all_goals
    refine ⟨_, .exec (fun s e => gicStep _ 3 s e.1 e.2) (fun _ _ => true)
      (fun _ _ _ _ hs => hs) (.start rfl) rfl, ?_⟩
    exact ⟨rfl, rfl, rfl, rfl⟩

theorem gic_not_lossless : ¬ ∀ v ncpu h s, (gicEvents v ncpu).Run h s →
    ∀ cpu, s.pending cpu = false → s.inflight ncpu cpu = 0 → s.pc cpu = .outside →
      s.events cpu = [] := by
  intro hall
  obtain ⟨s, r, hpending, hsend, hpc, hevents⟩ := gic_strands .v3
  have := hall .v3 3 _ s r 2 hpending hsend hpc
  rw [hevents] at this
  cases this

end Hvisor
