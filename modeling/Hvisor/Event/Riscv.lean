import Hvisor.Event.Bus

/-!
# Events by the software interrupt of RISC-V

How riscv64 delivers events, from `event.rs`, `arch/riscv64/trap.rs` and `arch/riscv64/ipi.rs`. The
handler of the software interrupt checks for events until there is none, or one that is not handled,
and clears the pending bit after. Senders may queue events and raise the interrupt in between. The
handler sends events itself: an interrupt that it injects into the virtual PLIC may be one for
another hart.

## Main definitions

* `riscvHandles`: the events after which the handler checks for the next one
* `RiscvPlace`, `RiscvAct`, `riscvStep`, `riscvEvents`: the handler, the steps, and the system
* `InSend`, `RiscvState.inflight`: the sends that are not over, also those of handlers
* `Pended`: where an event is queued, an interrupt is pending or to come
* `ClearsDrained`: the condition on a step

## Main results

* `pended_riscvStep`: what a step preserves
* `riscv_lossless`: while the pending bit is not cleared over an event, no event is lost
-/

namespace Hvisor

/-- Where a CPU is in the handler. -/
inductive RiscvPlace where
  /-- In the loop that checks for events. -/
  | loop
  /-- In the loop, between the two steps of a send. -/
  | sending (target : Nat)
  /-- After the loop, about to clear the pending bit. -/
  | clear
  deriving DecidableEq

/-- What a CPU does. -/
inductive RiscvAct where
  /-- `send_event`: puts the event in the queue of the target. -/
  | send (target : Nat) (event : IpiEvent)
  /-- `arch_send_event` -/
  | raise
  /-- The software interrupt is taken. -/
  | irq
  | checkEvents
  | clearSsoft
  deriving DecidableEq

/-- The state of the delivery. -/
abbrev RiscvState := EventState Bool RiscvPlace

/-- A CPU at the place has put an event in the queue of the target, and not yet raised the
interrupt. -/
def InSend (x : EventCpu RiscvPlace) (target : Nat) : Prop :=
  x = .sending target ∨ x = .inside (.sending target)

instance (x : EventCpu RiscvPlace) (target : Nat) : Decidable (InSend x target) :=
  inferInstanceAs (Decidable (_ ∨ _))

/-- How many of the first `ncpu` CPUs have put an event in the queue of a CPU, and not yet raised
the interrupt. -/
def RiscvState.inflight (s : RiscvState) (ncpu cpu : Nat) : Nat :=
  (List.range ncpu).countP fun p => InSend (s.pc p) cpu

/-- Whether `check_events` returns that it handled the event. It does not return from a wake-up or a
shutdown. -/
def riscvHandles (plic : Bool) : IpiEvent → Bool
  | .VIRTIO_INJECT_IRQ | .WAKEUP_VIRTIO_DEVICE | .SEND_IPI | .SHM_SIGNAL => true
  | .UPDATE_HART_LINE => plic
  | .WAKEUP | .SHUTDOWN | .CLEAR_INJECT_IRQ => false

/-- A step of CPU `p`, of `ncpu` CPUs. -/
def riscvStep (plic : Bool) (ncpu : Nat) (s : RiscvState) (p : Nat) (act : RiscvAct) :
    Option RiscvState :=
  if p < ncpu then
    match s.pc p, act with
    | .outside, .send target event => some ((s.addEvent target event).goto p (.sending target))
    | .sending target, .raise => some ((s.setPending target true).goto p .outside)
    -- an interrupt that the handler injects may be one for another hart
    | .inside .loop, .send target event =>
      some ((s.addEvent target event).goto p (.inside (.sending target)))
    | .inside (.sending target), .raise =>
      some ((s.setPending target true).goto p (.inside .loop))
    | .outside, .irq => if s.pending p then some (s.goto p (.inside .loop)) else none
    | .inside .loop, .checkEvents =>
      match s.fetchEvent p with
      -- `run` and `idle` enter the guest, and the pending bit stays
      | (some .WAKEUP, s) | (some .SHUTDOWN, s) => some (s.goto p .outside)
      | (some event, s) =>
        if riscvHandles plic event then some s else some (s.goto p (.inside .clear))
      | (none, s) => some (s.goto p (.inside .clear))
    | .inside .clear, .clearSsoft => some ((s.setPending p false).goto p .outside)
    | _, _ => none
  else none

/-- The delivery of events from the state in which nothing is sent. -/
def riscvEvents (plic : Bool) (ncpu : Nat) : TransitionSystem RiscvState (Nat × RiscvAct) :=
  .ofStep (· = .quiet false) fun s e => riscvStep plic ncpu s e.1 e.2

/-- **Where an event is queued, an interrupt is pending or to come**, and one is pending at a CPU
that handles it. -/
structure Pended (ncpu : Nat) (s : RiscvState) : Prop where
  events : ∀ cpu, s.events cpu ≠ [] → s.pending cpu = true ∨ 0 < RiscvState.inflight s ncpu cpu
  handling : ∀ cpu place, s.pc cpu = .inside place → s.pending cpu = true

/-- The pending bit is cleared where no event is queued, or a sender is about to raise it. -/
def ClearsDrained (ncpu : Nat) (s : RiscvState) (e : Nat × RiscvAct) : Prop :=
  e.2 = .clearSsoft → s.events e.1 = [] ∨ 0 < RiscvState.inflight s ncpu e.1

variable {plic : Bool} {ncpu : Nat} {s s' : RiscvState}

/-- A CPU that moves is counted where it sends, and not where it did. -/
theorem inflight_goto_riscv (s : RiscvState) {p : Nat} (hp : p < ncpu) (x : EventCpu RiscvPlace)
    (cpu : Nat) :
    RiscvState.inflight (s.goto p x) ncpu cpu + (if InSend (s.pc p) cpu then 1 else 0) =
      RiscvState.inflight s ncpu cpu + if InSend x cpu then 1 else 0 :=
  EventState.countP_update (fun y => InSend y cpu) s.pc hp x

theorem not_inSend_inside {place : RiscvPlace} {target : Nat} (h : place ≠ .sending target) :
    ¬ InSend (.inside place) target := by
  rintro (he | he)
  · cases he
  · exact h (EventCpu.inside.inj he)

theorem not_inSend_outside {target : Nat} : ¬ InSend .outside target := by
  rintro (he | he)
  · cases he
  · cases he

/-- A move after which each queued event has an interrupt that is pending or to come. -/
theorem pended_goto {p : Nat} {x : EventCpu RiscvPlace} (hp : p < ncpu)
    (hevents : ∀ cpu, s.events cpu ≠ [] → s.pending cpu = true ∨ InSend x cpu ∨
      ¬ InSend (s.pc p) cpu ∧ 0 < RiscvState.inflight s ncpu cpu)
    (hhandling : ∀ cpu place, cpu ≠ p → s.pc cpu = .inside place → s.pending cpu = true)
    (hx : ∀ place, x = .inside place → s.pending p = true) : Pended ncpu (s.goto p x) := by
  refine ⟨fun cpu he => ?_, fun cpu place hpc => ?_⟩
  · have hcount := inflight_goto_riscv s hp x cpu
    rcases hevents cpu he with h | hx | ⟨hne, hlt⟩
    · exact .inl h
    · rw [if_pos hx] at hcount
      refine .inr ?_
      split at hcount
      · next hself =>
        have : 0 < RiscvState.inflight s ncpu cpu :=
          List.countP_pos_iff.mpr ⟨p, List.mem_range.mpr hp, decide_eq_true hself⟩
        omega
      · omega
    · rw [if_neg hne] at hcount
      exact .inr (by omega)
  · by_cases hc : cpu = p
    · subst hc
      simp only [EventState.goto, Function.update_self] at hpc
      exact hx place hpc
    · simp only [EventState.goto, Function.update_of_ne hc] at hpc
      exact hhandling cpu place hc hpc

theorem events_ne_nil_of_fetchEvent {p cpu : Nat} (h : (s.fetchEvent p).2.events cpu ≠ []) :
    s.events cpu ≠ [] := by
  intro hnil
  by_cases hc : cpu = p
  · subst hc
    rw [EventState.events_fetchEvent_self, hnil] at h
    exact h rfl
  · rw [EventState.events_fetchEvent_of_ne s hc] at h
    exact h hnil

/-- A CPU that is not in a send begins one. -/
theorem Pended.send {p target : Nat} {x : EventCpu RiscvPlace} (hi : Pended ncpu s) (hp : p < ncpu)
    (h : ∀ cpu, ¬ InSend (s.pc p) cpu) (hx : InSend x target)
    (hpend : ∀ place, x = .inside place → s.pending p = true) (event : IpiEvent) :
    Pended ncpu ((s.addEvent target event).goto p x) := by
  refine pended_goto hp (fun cpu he => ?_) (fun cpu place _ hpc => hi.handling cpu place hpc) hpend
  by_cases ht : cpu = target
  · exact .inr (.inl (ht ▸ hx))
  · rw [EventState.events_addEvent_of_ne s event ht] at he
    exact (hi.events cpu he).imp_right fun hlt => .inr ⟨h cpu, hlt⟩

/-- A CPU ends its send. -/
theorem Pended.raise {p target : Nat} {x : EventCpu RiscvPlace} (hi : Pended ncpu s) (hp : p < ncpu)
    (h : ∀ cpu, InSend (s.pc p) cpu → cpu = target)
    (hpend : ∀ place, x = .inside place → s.pending p = true) :
    Pended ncpu ((s.setPending target true).goto p x) := by
  have hpending : ∀ cpu, s.pending cpu = true → (s.setPending target true).pending cpu = true := by
    intro cpu hcpu
    simp only [EventState.setPending, Function.update_apply]
    split
    · rfl
    · exact hcpu
  refine pended_goto hp (fun cpu he => ?_)
    (fun cpu place _ hpc => hpending cpu (hi.handling cpu place hpc))
    fun place hplace => hpending p (hpend place hplace)
  by_cases ht : cpu = target
  · exact .inl (by simp only [ht, EventState.setPending, Function.update_self])
  · exact (hi.events cpu he).imp (hpending cpu) fun hlt => .inr ⟨fun hs => ht (h cpu hs), hlt⟩

/-- The handler moves on, and has taken an event or none. -/
theorem Pended.handle {p : Nat} {x : EventCpu RiscvPlace} (hi : Pended ncpu s) (hp : p < ncpu)
    (h : s.pc p = .inside .loop) : Pended ncpu ((s.fetchEvent p).2.goto p x) := by
  refine pended_goto hp (fun cpu he => ?_) (fun cpu place _ hpc => hi.handling cpu place hpc)
    (fun _ _ => hi.handling p .loop h)
  refine (hi.events cpu (events_ne_nil_of_fetchEvent he)).imp_right fun hlt => .inr ⟨?_, hlt⟩
  rw [show (s.fetchEvent p).2.pc p = .inside .loop from h]
  exact not_inSend_inside RiscvPlace.noConfusion

/-- The pending bit is cleared where no event is queued, or a sender is about to raise it. -/
theorem Pended.clear {p : Nat} (hi : Pended ncpu s) (hp : p < ncpu)
    (h : s.pc p = .inside .clear) (hg : s.events p = [] ∨ 0 < RiscvState.inflight s ncpu p) :
    Pended ncpu ((s.setPending p false).goto p .outside) := by
  have hpending : ∀ cpu, cpu ≠ p → (s.setPending p false).pending cpu = s.pending cpu :=
    fun cpu hc => Function.update_of_ne hc _ _
  have hpc : ∀ cpu, ¬ InSend ((s.setPending p false).pc p) cpu := by
    intro cpu
    rw [show (s.setPending p false).pc p = .inside .clear from h]
    exact not_inSend_inside RiscvPlace.noConfusion
  refine pended_goto hp (fun cpu he => ?_) (fun cpu place hc hpc => ?_) nofun
  · by_cases hc : cpu = p
    · subst hc
      exact .inr (.inr ⟨hpc cpu, hg.resolve_left he⟩)
    · rw [hpending cpu hc]
      exact (hi.events cpu he).imp_right fun hlt => .inr ⟨hpc cpu, hlt⟩
  · rw [hpending cpu hc]
    exact hi.handling cpu place hpc

/-- **What a step preserves.** -/
theorem pended_riscvStep {p : Nat} {act : RiscvAct} (h : riscvStep plic ncpu s p act = some s')
    (hg : ClearsDrained ncpu s (p, act)) (hi : Pended ncpu s) : Pended ncpu s' := by
  have hfetched : ∀ {x : EventCpu RiscvPlace} {e s₁}, p < ncpu → s.pc p = .inside .loop →
      s.fetchEvent p = (e, s₁) → Pended ncpu (s₁.goto p x) := by
    intro x e s₁ hp hpc hfetch
    obtain rfl : (s.fetchEvent p).2 = s₁ := congrArg Prod.snd hfetch
    exact hi.handle hp hpc
  revert h
  fun_cases riscvStep plic ncpu s p act <;> intro hs <;> try cases hs
  case case1 hp target event hpc =>
    exact hi.send hp (fun _ => hpc ▸ not_inSend_outside) (.inl rfl) (fun _ h => by cases h) event
  case case2 hp target hpc =>
    refine hi.raise hp (fun cpu hs => ?_) fun _ h => by cases h
    rcases hs with hs | hs
    · exact (EventCpu.sending.inj (hpc.symm.trans hs)).symm
    · cases hpc.symm.trans hs
  case case3 hp target event hpc =>
    have hout : ∀ cpu, ¬ InSend (s.pc p) cpu := fun cpu =>
      hpc ▸ not_inSend_inside RiscvPlace.noConfusion
    exact hi.send hp hout (.inr rfl) (fun _ _ => hi.handling p _ hpc) event
  case case4 hp target hpc =>
    refine hi.raise hp (fun cpu hs => ?_) fun _ _ => hi.handling p _ hpc
    rcases hs with hs | hs
    · cases hpc.symm.trans hs
    · exact (RiscvPlace.sending.inj (EventCpu.inside.inj (hpc.symm.trans hs))).symm
  case case5 hp hpc hpend =>
    refine pended_goto hp (fun cpu he => ?_) (fun cpu place _ => hi.handling cpu place)
      fun _ _ => hpend
    exact (hi.events cpu he).imp_right fun hlt => .inr ⟨hpc ▸ not_inSend_outside, hlt⟩
  case case7 hp hpc s₁ hfetch => exact hfetched hp hpc hfetch
  case case8 hp hpc s₁ hfetch => exact hfetched hp hpc hfetch
  case case9 hp hpc event hw hd hhandles hfetch =>
    obtain rfl : (s.fetchEvent p).2 = s' := congrArg Prod.snd hfetch
    exact ⟨fun cpu he => hi.events cpu (events_ne_nil_of_fetchEvent he), hi.handling⟩
  case case10 hp hpc event s₁ hw hd hfetch hhandles => exact hfetched hp hpc hfetch
  case case11 hp hpc s₁ hfetch => exact hfetched hp hpc hfetch
  case case12 hp hpc => exact hi.clear hp hpc (hg rfl)

theorem balanced_riscvStep {p : Nat} {act : RiscvAct} (h : riscvStep plic ncpu s p act = some s')
    (hb : s.Balanced) : s'.Balanced := by
  have hfetched : ∀ {e s₁}, s.fetchEvent p = (e, s₁) → s₁.Balanced := by
    intro e s₁ hfetch
    obtain rfl : (s.fetchEvent p).2 = s₁ := congrArg Prod.snd hfetch
    exact hb.fetchEvent p
  revert h
  fun_cases riscvStep plic ncpu s p act <;> intro hs <;> try cases hs
  case case1 target event hpc => exact (hb.addEvent target event).goto p _
  case case3 target event hpc => exact (hb.addEvent target event).goto p _
  case case7 s₁ hfetch => exact (hfetched hfetch).goto p _
  case case8 s₁ hfetch => exact (hfetched hfetch).goto p _
  case case9 event hw hd hhandles hfetch => exact hfetched hfetch
  case case10 event s₁ hw hd hfetch hhandles => exact (hfetched hfetch).goto p _
  case case11 s₁ hfetch => exact (hfetched hfetch).goto p _
  all_goals exact hb

/-! ## Runs -/

/-- **No event is lost** in a run in which no pending bit is cleared over a queued event: when
events are queued at a CPU that is outside its handler, and no sender is about to raise the
interrupt there, the interrupt is pending; and what a CPU took is what was sent, once and in order,
but for what is queued and what a shutdown dropped. -/
theorem riscv_lossless {h : List (Nat × RiscvAct)}
    (r : ((riscvEvents plic ncpu).restrict (ClearsDrained ncpu)).Run h s) (cpu : Nat)
    (hsend : RiscvState.inflight s ncpu cpu = 0) :
    (s.events cpu ≠ [] → s.pending cpu = true) ∧
      (s.ledger cpu).kept = (s.ledger cpu).taken ++ s.events cpu := by
  have hinv : Pended ncpu s ∧ s.Balanced := by
    refine TransitionSystem.Run.invariant (I := fun _ s => Pended ncpu s ∧ s.Balanced) ?_ ?_ r
    · rintro s rfl
      exact ⟨⟨fun _ h => absurd rfl h, nofun⟩, EventState.balanced_quiet false⟩
    · rintro h s ⟨p, act⟩ s' - ⟨hi, hb⟩ ⟨hg, hs⟩
      exact ⟨pended_riscvStep hs hg hi, balanced_riscvStep hs hb⟩
  refine ⟨fun he => (hinv.1.events cpu he).resolve_right ?_, hinv.2 cpu⟩
  rw [hsend]
  exact Nat.lt_irrefl 0

instance (ncpu : Nat) (s : RiscvState) (e : Nat × RiscvAct) : Decidable (ClearsDrained ncpu s e) :=
  inferInstanceAs (Decidable (e.2 = .clearSsoft → s.events e.1 = [] ∨
    0 < RiscvState.inflight s ncpu e.1))

/-- CPU 0 sends an event to CPU 1, which handles it; and another one, after the pending bit is
cleared. -/
def sendsApart : List (Nat × RiscvAct) :=
  [(0, .send 1 .VIRTIO_INJECT_IRQ), (0, .raise), (1, .irq), (1, .checkEvents), (1, .checkEvents),
    (1, .clearSsoft), (0, .send 1 .SHM_SIGNAL), (0, .raise)]

/-- The state after them. -/
def sentApart : RiscvState :=
  (TransitionSystem.exec (fun s e => riscvStep true 2 s e.1 e.2)
    (fun s e => decide (ClearsDrained 2 s e)) sendsApart (.quiet false)).getD (.quiet false)

theorem riscv_lossless_sentApart : sentApart.events 1 = [.SHM_SIGNAL] ∧
    sentApart.pending 1 = true ∧ (sentApart.ledger 1).taken = [.VIRTIO_INJECT_IRQ] := by
  have r : ((riscvEvents true 2).restrict (ClearsDrained 2)).Run (sendsApart.reverse ++ [])
      sentApart :=
    .exec (fun s e => riscvStep true 2 s e.1 e.2) (fun s e => decide (ClearsDrained 2 s e))
      (S := (riscvEvents true 2).restrict (ClearsDrained 2))
      (fun _ _ _ hg hs => ⟨of_decide_eq_true hg, hs⟩) (.start rfl) rfl
  exact ⟨rfl, (riscv_lossless r 1 rfl).1 (by decide), rfl⟩

/-- CPU 0 sends a second event to CPU 1 after its loop has ended, and before the pending bit is
cleared. -/
def sendsBeforeClear : List (Nat × RiscvAct) :=
  [(0, .send 1 .VIRTIO_INJECT_IRQ), (0, .raise), (1, .irq), (1, .checkEvents), (1, .checkEvents),
    (0, .send 1 .SHM_SIGNAL), (0, .raise), (1, .clearSsoft)]

/-- CPU 0 sends two events to CPU 1, which does not handle the first. -/
def sendsUnhandled : List (Nat × RiscvAct) :=
  [(0, .send 1 .CLEAR_INJECT_IRQ), (0, .raise), (0, .send 1 .VIRTIO_INJECT_IRQ), (0, .raise),
    (1, .irq), (1, .checkEvents), (1, .clearSsoft)]

/-- In either case the second event stays behind. -/
theorem riscv_strands {acts : List (Nat × RiscvAct)}
    (h : acts = sendsBeforeClear ∨ acts = sendsUnhandled) (plic : Bool) :
    ∃ s, (riscvEvents plic 2).Run (acts.reverse ++ []) s ∧ s.pc 1 = .outside ∧
      RiscvState.inflight s 2 1 = 0 ∧ s.events 1 ≠ [] ∧ s.pending 1 = false := by
  rcases h with rfl | rfl
  all_goals
    cases plic
    all_goals
      refine ⟨_, .exec (fun s e => riscvStep _ 2 s e.1 e.2) (fun _ _ => true)
        (fun _ _ _ _ hs => hs) (.start rfl) rfl, ?_⟩
      exact ⟨rfl, rfl, List.cons_ne_nil _ _, rfl⟩

theorem riscv_not_lossless : ¬ ∀ plic ncpu h s, (riscvEvents plic ncpu).Run h s →
    ∀ cpu, s.pc cpu = .outside → RiscvState.inflight s ncpu cpu = 0 → s.events cpu ≠ [] →
      s.pending cpu = true := by
  intro hall
  obtain ⟨s, r, hpc, hsend, hevents, hpending⟩ := riscv_strands (.inl rfl) true
  have := hall true 2 _ s r 1 hpc hsend hevents
  rw [hpending] at this
  cases this

end Hvisor
