import Hvisor.Event.Bus

/-!
# Events by the inter-processor interrupt of LoongArch

How loongarch64 delivers events, from `event.rs`, `arch/loongarch64/trap.rs` and
`arch/loongarch64/ipi.rs`. A sender first empties the queue of the target, then puts its event in,
and sets the bits of the event interrupt in the status of the target. The handler reads its status,
checks for events if it is just these bits, and clears all bits in any case.

## Main definitions

* `LoongPlace`, `LoongAct`, `loongStep`, `loongEvents`: the send and the handler, the steps, and the
  system
* `Answered`: a CPU that is about to clear its status leaves no event behind
* `heeds`: the condition on a step

## Main results

* `answered_loongStep`, `balanced_loongStep`: what a step preserves
* `loongarch_lossless`: while senders drop nothing and no status is misread, no event is lost
-/

namespace Hvisor

/-- Where a CPU is in a send or in the handler. -/
inductive LoongPlace where
  /-- In the loop of `send_event` that waits for the queue of the target to be empty. -/
  | wait (target : Nat) (event : IpiEvent)
  /-- After it, about to put the event in. -/
  | push (target : Nat) (event : IpiEvent)
  /-- In the handler, about to read the status. -/
  | status
  /-- In the loop that checks for events. -/
  | loop
  /-- About to clear the status. -/
  | reset
  deriving DecidableEq

/-- What a CPU does. -/
inductive LoongAct where
  /-- `send_event` -/
  | send (target : Nat) (event : IpiEvent)
  /-- `fetch_event` by the sender -/
  | fetch
  | addEvent
  /-- `arch_send_event` -/
  | raise
  /-- Bits of a CPU's status are set from elsewhere. -/
  | ipi (target : Nat) (bits : BitVec 32)
  | irq
  | getIpiStatus
  | checkEvents
  | resetIpi
  deriving DecidableEq

/-- The state of the delivery. -/
abbrev LoongState := EventState (BitVec 32) LoongPlace

/-- What `SGI_IPI_ID` is taken for: the status of an event. -/
def eventStatus : BitVec 32 := 7

/-- The CPUs whose status can be read and written. -/
def MAX_IPI_CPU : Nat := 4

/-- `ipi_write_action`: sets bits of the status. -/
def ipiWriteAction (s : LoongState) (cpu : Nat) (action : BitVec 32) : LoongState :=
  if cpu < MAX_IPI_CPU then s.setPending cpu (s.pending cpu ||| action) else s

/-- The status of a CPU; there is none past the last. -/
def getIpiStatus (s : LoongState) (cpu : Nat) : BitVec 32 :=
  if cpu < MAX_IPI_CPU then s.pending cpu else 0

/-- `reset_ipi`: clears the status. -/
def resetIpi (s : LoongState) (cpu : Nat) : LoongState :=
  if cpu < MAX_IPI_CPU then s.setPending cpu 0 else s

/-- Whether `check_events` returns that it handled the event. It does not return from a wake-up or a
shutdown. -/
def loongHandles : IpiEvent → Bool
  | .VIRTIO_INJECT_IRQ | .WAKEUP_VIRTIO_DEVICE | .CLEAR_INJECT_IRQ | .SHM_SIGNAL => true
  | .WAKEUP | .SHUTDOWN | .UPDATE_HART_LINE | .SEND_IPI => false

/-- `fetch_event` by a sender: the event is not handled. -/
def dropEvent (s : LoongState) (cpu : Nat) : Option IpiEvent × LoongState :=
  let (event, events) := fetchEvent s.events cpu
  (event, { s with events })

/-- A step of CPU `p`, of `ncpu` CPUs. -/
def loongStep (ncpu : Nat) (s : LoongState) (p : Nat) (act : LoongAct) : Option LoongState :=
  if p < ncpu then
    match s.pc p, act with
    | .outside, .send target event => some (s.goto p (.inside (.wait target event)))
    | .inside (.wait target event), .fetch =>
      match dropEvent s target with
      | (none, s) => some (s.goto p (.inside (.push target event)))
      | (some _, s) => some s
    | .inside (.push target event), .addEvent =>
      some ((s.addEvent target event).goto p (.sending target))
    | .sending target, .raise => some ((ipiWriteAction s target eventStatus).goto p .outside)
    | .outside, .ipi target bits => some (ipiWriteAction s target bits)
    | .outside, .irq => if s.pending p ≠ 0 then some (s.goto p (.inside .status)) else none
    | .inside .status, .getIpiStatus =>
      if getIpiStatus s p = eventStatus then some (s.goto p (.inside .loop))
      else some (s.goto p (.inside .reset))
    | .inside .loop, .checkEvents =>
      match s.fetchEvent p with
      -- `run` and `idle` do not return to the handler
      | (some .WAKEUP, s) | (some .SHUTDOWN, s) => some (s.goto p .outside)
      | (some event, s) => if loongHandles event then some s else some (s.goto p (.inside .reset))
      | (none, s) => some (s.goto p (.inside .reset))
    | .inside .reset, .resetIpi => some ((resetIpi s p).goto p .outside)
    | _, _ => none
  else none

/-- The delivery of events from the state in which nothing is sent. -/
def loongEvents (ncpu : Nat) : TransitionSystem LoongState (Nat × LoongAct) :=
  .ofStep (· = .quiet 0) fun s e => loongStep ncpu s e.1 e.2

/-- **A CPU that is about to clear its status leaves no event behind**: its queue is empty, or a
sender is about to set the status again. -/
def Answered (ncpu : Nat) (s : LoongState) : Prop :=
  ∀ cpu, s.pc cpu = .inside .reset → s.events cpu = [] ∨ 0 < s.inflight ncpu cpu

/-- A sender that waits finds the queue empty; a CPU whose status is not that of an event has none
queued, or a sender is about to set its status; an event that is not handled is the last one; and
the status of a CPU is not set while the CPU is about to clear it, unless it has no event queued or
a further sender is about to set it. -/
def heeds (ncpu : Nat) (s : LoongState) (e : Nat × LoongAct) : Bool :=
  match s.pc e.1, e.2 with
  | .inside (.wait target _), .fetch => s.events target = []
  | .inside .status, .getIpiStatus =>
    getIpiStatus s e.1 = eventStatus ∨ s.events e.1 = [] ∨ 0 < s.inflight ncpu e.1
  | .inside .loop, .checkEvents => (∀ event ∈ (s.events e.1).head?, loongHandles event = true ∨
      event = .WAKEUP ∨ event = .SHUTDOWN) ∨
    (s.events e.1).tail = [] ∨ 0 < s.inflight ncpu e.1
  | .sending target, .raise =>
    s.pc target ≠ .inside .reset ∨ s.events target = [] ∨ 1 < s.inflight ncpu target
  | _, _ => true

variable {ncpu : Nat} {s s' : LoongState}

/-- A move after which each CPU that is about to clear its status leaves no event behind. -/
theorem answered_goto {p : Nat} {x : EventCpu LoongPlace} (hp : p < ncpu)
    (h : ∀ cpu, (s.goto p x).pc cpu = .inside .reset → s.events cpu = [] ∨ x = .sending cpu ∨
      (if s.pc p = .sending cpu then 1 else 0) < s.inflight ncpu cpu) :
    Answered ncpu (s.goto p x) := by
  intro cpu hpc
  have hcount := s.inflight_goto hp x cpu
  rcases h cpu hpc with he | rfl | hlt
  · exact .inl he
  · simp only [EventState.goto, Function.update_apply] at hpc
    rw [if_pos rfl] at hcount
    refine .inr ?_
    split at hcount
    · next hself =>
      have : 0 < s.inflight ncpu cpu :=
        List.countP_pos_iff.mpr ⟨p, List.mem_range.mpr hp, decide_eq_true hself⟩
      omega
    · omega
  · exact .inr (by omega)

theorem pc_of_goto {p cpu : Nat} {x : EventCpu LoongPlace} (hx : x ≠ .inside .reset)
    (h : (s.goto p x).pc cpu = .inside .reset) : s.pc cpu = .inside .reset := by
  by_cases hc : cpu = p
  · subst hc
    simp only [EventState.goto, Function.update_self] at h
    exact absurd h hx
  · simpa only [EventState.goto, Function.update_of_ne hc] using h

/-- A CPU that is not in the middle of a send moves to another place than the one before the
reset. -/
theorem Answered.goto {p : Nat} {x : EventCpu LoongPlace} (hi : Answered ncpu s) (hp : p < ncpu)
    (hpc : ∀ cpu, s.pc p ≠ .sending cpu) (hx : x ≠ .inside .reset) :
    Answered ncpu (s.goto p x) := by
  refine answered_goto hp fun cpu h => (hi cpu (pc_of_goto hx h)).imp_right fun hlt => .inr ?_
  rwa [if_neg (hpc cpu)]

/-- A CPU moves to the place before the reset, with no event left behind. -/
theorem Answered.goto_reset {p : Nat} (hi : Answered ncpu s) (hp : p < ncpu)
    (hpc : ∀ cpu, s.pc p ≠ .sending cpu) (h : s.events p = [] ∨ 0 < s.inflight ncpu p) :
    Answered ncpu (s.goto p (.inside .reset)) := by
  refine answered_goto hp fun cpu hreset => ?_
  rw [if_neg (hpc cpu)]
  by_cases hc : cpu = p
  · subst hc
    exact h.imp_right .inr
  · simp only [EventState.goto, Function.update_of_ne hc] at hreset
    exact (hi cpu hreset).imp_right .inr

/-- Taking an event, or dropping one, leaves no more behind. -/
theorem Answered.of_fewer {t : LoongState} (hi : Answered ncpu s) (hpc : t.pc = s.pc)
    (h : ∀ cpu, s.events cpu = [] → t.events cpu = []) : Answered ncpu t := by
  intro cpu hreset
  rw [hpc] at hreset
  refine (hi cpu hreset).imp (h cpu) fun hlt => ?_
  rw [EventState.inflight, hpc]
  exact hlt

theorem Answered.fetchEvent (hi : Answered ncpu s) (p : Nat) :
    Answered ncpu (s.fetchEvent p).2 := by
  refine hi.of_fewer rfl fun cpu he => ?_
  by_cases hc : cpu = p
  · subst hc
    rw [EventState.events_fetchEvent_self, he, List.tail_nil]
  · rwa [EventState.events_fetchEvent_of_ne s hc]

/-- What a sender drops from an empty queue is nothing. -/
theorem dropEvent_of_nil {target : Nat} (h : s.events target = []) :
    dropEvent s target = (none, s) := by
  have hsame : Function.update s.events target [] = s.events := by
    rw [← h, Function.update_eq_self]
  simp only [dropEvent, fetchEvent, h, List.head?_nil, List.tail_nil, hsame]

/-- The event goes in with its sender about to set the status. -/
theorem Answered.addEvent {p target : Nat} {event : IpiEvent} {x : LoongPlace}
    (hi : Answered ncpu s) (hp : p < ncpu) (h : s.pc p = .inside x) :
    Answered ncpu ((s.addEvent target event).goto p (.sending target)) := by
  refine answered_goto hp fun cpu hreset => ?_
  have hcpu := hi cpu
    (pc_of_goto (s := s.addEvent target event) (x := .sending target) nofun hreset)
  by_cases ht : cpu = target
  · exact .inr (.inl (by rw [ht]))
  · rw [EventState.events_addEvent_of_ne s event ht]
    refine hcpu.imp_right fun hlt => .inr ?_
    rwa [show (s.addEvent target event).pc p = .inside x from h, if_neg nofun]

theorem ipiWriteAction_pc (cpu : Nat) (action : BitVec 32) :
    (ipiWriteAction s cpu action).pc = s.pc := by
  rw [ipiWriteAction]
  split <;> rfl

theorem ipiWriteAction_events (cpu : Nat) (action : BitVec 32) :
    (ipiWriteAction s cpu action).events = s.events := by
  rw [ipiWriteAction]
  split <;> rfl

/-- The status is set where it is not about to be cleared, or set again. -/
theorem Answered.raise {p target : Nat} (hi : Answered ncpu s) (hp : p < ncpu)
    (h : s.pc p = .sending target)
    (hg : s.pc target ≠ .inside .reset ∨ s.events target = [] ∨ 1 < s.inflight ncpu target) :
    Answered ncpu ((ipiWriteAction s target eventStatus).goto p .outside) := by
  refine answered_goto hp fun cpu hreset => ?_
  have hpc := pc_of_goto (x := .outside) nofun hreset
  rw [ipiWriteAction_pc] at hpc
  rw [ipiWriteAction_events, ipiWriteAction_pc, h]
  have hcount : (ipiWriteAction s target eventStatus).inflight ncpu cpu = s.inflight ncpu cpu := by
    rw [EventState.inflight, ipiWriteAction_pc, EventState.inflight]
  rw [hcount]
  by_cases ht : cpu = target
  · subst ht
    rw [if_pos rfl]
    exact (hg.resolve_left (absurd hpc)).imp_right .inr
  · rw [if_neg fun heq => ht (EventCpu.sending.inj heq).symm]
    exact (hi cpu hpc).imp_right .inr

/-- **What a step preserves**: no CPU clears its status over an event. -/
theorem answered_loongStep {p : Nat} {act : LoongAct} (h : loongStep ncpu s p act = some s')
    (hg : heeds ncpu s (p, act) = true) (hi : Answered ncpu s) : Answered ncpu s' := by
  have hstay : (s.fetchEvent p).2.pc = s.pc := rfl
  revert h
  fun_cases loongStep ncpu s p act <;> intro hs <;> try cases hs
  case case1 hp target event hpc => exact hi.goto hp (by rw [hpc]; exact nofun) nofun
  case case2 hp target event hpc s₁ hdrop =>
    -- the sender finds no event that it would drop
    simp only [heeds, hpc, decide_eq_true_eq] at hg
    rw [dropEvent_of_nil hg] at hdrop
    cases hdrop
    exact hi.goto hp (by rw [hpc]; exact nofun) nofun
  case case3 hp target event hpc e hdrop =>
    simp only [heeds, hpc, decide_eq_true_eq] at hg
    rw [dropEvent_of_nil hg] at hdrop
    cases hdrop
  case case4 hp target event hpc => exact hi.addEvent hp hpc
  case case5 hp target hpc =>
    simp only [heeds, hpc, decide_eq_true_eq] at hg
    exact hi.raise hp hpc hg
  case case6 target bits hpc =>
    exact hi.of_fewer (ipiWriteAction_pc target bits) fun cpu he => by
      rwa [ipiWriteAction_events]
  case case7 hp hpc hstatus => exact hi.goto hp (by rw [hpc]; exact nofun) nofun
  case case9 hp hpc hstatus => exact hi.goto hp (by rw [hpc]; exact nofun) nofun
  case case10 hp hpc hstatus =>
    simp only [heeds, hpc, decide_eq_true_eq] at hg
    exact hi.goto_reset hp (by rw [hpc]; exact nofun)
      (hg.resolve_left hstatus)
  case case11 hp hpc s₁ hfetch =>
    obtain rfl : (s.fetchEvent p).2 = s₁ := congrArg Prod.snd hfetch
    exact (hi.fetchEvent p).goto hp (fun cpu => by rw [hstay, hpc]; exact nofun) nofun
  case case12 hp hpc s₁ hfetch =>
    obtain rfl : (s.fetchEvent p).2 = s₁ := congrArg Prod.snd hfetch
    exact (hi.fetchEvent p).goto hp (fun cpu => by rw [hstay, hpc]; exact nofun) nofun
  case case13 hp hpc event hw hd hhandles hfetch =>
    obtain rfl : (s.fetchEvent p).2 = s' := congrArg Prod.snd hfetch
    exact hi.fetchEvent p
  case case14 hp hpc event s₁ hw hd hfetch hhandles =>
    -- an event without a handler ends the loop, and by the condition it is the last one
    obtain rfl : (s.fetchEvent p).2 = s₁ := congrArg Prod.snd hfetch
    obtain ⟨rest, hevents⟩ := List.head?_eq_some_iff.mp (congrArg Prod.fst hfetch)
    simp only [heeds, hpc, decide_eq_true_eq] at hg
    refine (hi.fetchEvent p).goto_reset hp (fun cpu => by rw [hstay, hpc]; exact nofun) ?_
    rw [EventState.events_fetchEvent_self, hevents]
    rw [hevents] at hg
    refine hg.resolve_left fun hall => ?_
    rcases hall event rfl with h | h | h
    · exact hhandles h
    · exact hw h
    · exact hd h
  case case15 hp hpc s₁ hfetch =>
    obtain rfl : (s.fetchEvent p).2 = s₁ := congrArg Prod.snd hfetch
    refine (hi.fetchEvent p).goto_reset hp (fun cpu => by rw [hstay, hpc]; exact nofun) ?_
    rw [EventState.events_fetchEvent_self, List.head?_eq_none_iff.mp (congrArg Prod.fst hfetch)]
    exact .inl List.tail_nil
  case case16 hp hpc =>
    have hreset : (resetIpi s p).pc = s.pc ∧ (resetIpi s p).events = s.events := by
      rw [resetIpi]
      split
      · exact ⟨rfl, rfl⟩
      · exact ⟨rfl, rfl⟩
    have hi' : Answered ncpu (resetIpi s p) := hi.of_fewer hreset.1 fun cpu he => by rwa [hreset.2]
    exact hi'.goto hp (fun cpu => by rw [hreset.1, hpc]; exact nofun) nofun

/-- **What a step preserves**: no sender drops an event. -/
theorem balanced_loongStep {p : Nat} {act : LoongAct} (h : loongStep ncpu s p act = some s')
    (hg : heeds ncpu s (p, act) = true) (hb : s.Balanced) : s'.Balanced := by
  have hfetched : ∀ {e s₁}, s.fetchEvent p = (e, s₁) → s₁.Balanced := by
    intro e s₁ hfetch
    obtain rfl : (s.fetchEvent p).2 = s₁ := congrArg Prod.snd hfetch
    exact hb.fetchEvent p
  have hpending : ∀ cpu x, (s.setPending cpu x).Balanced := fun _ _ => hb
  revert h
  fun_cases loongStep ncpu s p act <;> intro hs <;> try cases hs
  case case2 target event hpc s₁ hdrop =>
    simp only [heeds, hpc, decide_eq_true_eq] at hg
    rw [dropEvent_of_nil hg] at hdrop
    cases hdrop
    exact hb.goto p _
  case case3 target event hpc e hdrop =>
    simp only [heeds, hpc, decide_eq_true_eq] at hg
    rw [dropEvent_of_nil hg] at hdrop
    cases hdrop
  case case4 target event hpc => exact (hb.addEvent target event).goto p _
  case case5 target hpc =>
    rw [ipiWriteAction]
    split
    · exact (hpending _ _).goto p _
    · exact hb.goto p _
  case case6 target bits hpc =>
    rw [ipiWriteAction]
    split
    · exact hpending _ _
    · exact hb
  case case11 s₁ hfetch => exact (hfetched hfetch).goto p _
  case case12 s₁ hfetch => exact (hfetched hfetch).goto p _
  case case13 event hw hd hhandles hfetch => exact hfetched hfetch
  case case14 event s₁ hw hd hfetch hhandles => exact (hfetched hfetch).goto p _
  case case15 s₁ hfetch => exact (hfetched hfetch).goto p _
  case case16 hpc =>
    rw [resetIpi]
    split
    · exact (hpending _ _).goto p _
    · exact hb.goto p _
  all_goals exact hb

/-! ## Runs -/

/-- **No event is lost** in a run whose steps heed the condition: what was sent to a CPU and not
dropped by a shutdown was taken by its own checks, in order, or is in its queue; and the CPU does
not clear its status over a queued event, unless a sender is about to set the status again. -/
theorem loongarch_lossless {h : List (Nat × LoongAct)}
    (r : ((loongEvents ncpu).restrict fun s e => heeds ncpu s e = true).Run h s) (cpu : Nat) :
    (s.ledger cpu).kept = (s.ledger cpu).taken ++ s.events cpu ∧
      (s.pc cpu = .inside .reset → s.events cpu = [] ∨ 0 < s.inflight ncpu cpu) := by
  have hinv : Answered ncpu s ∧ s.Balanced := by
    refine TransitionSystem.Run.invariant (I := fun _ s => Answered ncpu s ∧ s.Balanced) ?_ ?_ r
    · rintro s rfl
      exact ⟨nofun, EventState.balanced_quiet 0⟩
    · rintro h s ⟨p, act⟩ s' - ⟨hi, hb⟩ ⟨hg, hs⟩
      exact ⟨answered_loongStep hs hg hi, balanced_loongStep hs hg hb⟩
  exact ⟨hinv.2 cpu, hinv.1 cpu⟩

/-- CPU 0 sends an event to CPU 1, which handles it and is about to clear its status. -/
def loongSend : List (Nat × LoongAct) :=
  [(0, .send 1 .VIRTIO_INJECT_IRQ), (0, .fetch), (0, .addEvent), (0, .raise), (1, .irq),
    (1, .getIpiStatus), (1, .checkEvents), (1, .checkEvents)]

/-- The state after them. -/
def loongSent : LoongState :=
  (TransitionSystem.exec (fun s e => loongStep 2 s e.1 e.2) (heeds 2) loongSend (.quiet 0)).getD
    (.quiet 0)

theorem loongarch_lossless_loongSent : (loongSent.ledger 1).taken = [.VIRTIO_INJECT_IRQ] ∧
    loongSent.pc 1 = .inside .reset ∧
    (loongSent.ledger 1).kept = (loongSent.ledger 1).taken ++ loongSent.events 1 ∧
    (loongSent.events 1 = [] ∨ 0 < loongSent.inflight 2 1) := by
  have r : ((loongEvents 2).restrict fun s e => heeds 2 s e = true).Run (loongSend.reverse ++ [])
      loongSent :=
    .exec (fun s e => loongStep 2 s e.1 e.2) (heeds 2)
      (S := (loongEvents 2).restrict fun s e => heeds 2 s e = true)
      (fun _ _ _ hg hs => ⟨hg, hs⟩) (.start rfl) rfl
  obtain ⟨hkept, hreset⟩ := loongarch_lossless r 1
  exact ⟨rfl, rfl, hkept, hreset rfl⟩

/-- CPU 0 sends an event to CPU 2; CPU 1 is about to send another one, and drops it. -/
def droppedSend : List (Nat × LoongAct) :=
  [(0, .send 2 .VIRTIO_INJECT_IRQ), (0, .fetch), (0, .addEvent), (0, .raise),
    (1, .send 2 .SHM_SIGNAL), (1, .fetch)]

/-- A further bit of the status of CPU 1 is set when it reads the status. -/
def misreadSend : List (Nat × LoongAct) :=
  [(0, .ipi 1 8), (0, .send 1 .VIRTIO_INJECT_IRQ), (0, .fetch), (0, .addEvent), (0, .raise),
    (1, .irq), (1, .getIpiStatus)]

/-- CPU 1 finds no event, and is about to clear its status when CPU 0 sends one. -/
def lateSend : List (Nat × LoongAct) :=
  [(0, .ipi 1 7), (1, .irq), (1, .getIpiStatus), (1, .checkEvents), (0, .send 1 .VIRTIO_INJECT_IRQ),
    (0, .fetch), (0, .addEvent), (0, .raise)]

/-- In the last two cases, the status is cleared over the event. -/
theorem loongarch_strands {acts : List (Nat × LoongAct)}
    (h : acts = misreadSend ∨ acts = lateSend) :
    ∃ s, (loongEvents 2).Run (acts.reverse ++ []) s ∧ s.pc 1 = .inside .reset ∧
      s.events 1 ≠ [] ∧ s.inflight 2 1 = 0 := by
  rcases h with rfl | rfl
  all_goals
    refine ⟨_, .exec (fun s e => loongStep 2 s e.1 e.2) (fun _ _ => true)
      (fun _ _ _ _ hs => hs) (.start rfl) rfl, ?_⟩
    exact ⟨rfl, List.cons_ne_nil _ _, rfl⟩

theorem loongarch_not_lossless :
    (¬ ∀ ncpu h s, (loongEvents ncpu).Run h s → ∀ cpu,
      (s.ledger cpu).kept = (s.ledger cpu).taken ++ s.events cpu) ∧
    ¬ ∀ ncpu h s, (loongEvents ncpu).Run h s → ∀ cpu, s.pc cpu = .inside .reset →
      s.events cpu = [] ∨ 0 < s.inflight ncpu cpu := by
  constructor
  · intro hall
    have hrun : ∃ s, (loongEvents 3).Run (droppedSend.reverse ++ []) s ∧
        (s.ledger 2).kept = [.VIRTIO_INJECT_IRQ] ∧ (s.ledger 2).taken = [] ∧ s.events 2 = [] := by
      refine ⟨_, .exec (fun s e => loongStep 3 s e.1 e.2) (fun _ _ => true)
        (fun _ _ _ _ hs => hs) (.start rfl) rfl, ?_⟩
      exact ⟨rfl, rfl, rfl⟩
    obtain ⟨s, r, hkept, htaken, hevents⟩ := hrun
    have := hall 3 _ s r 2
    rw [hkept, htaken, hevents] at this
    cases this
  · intro hall
    obtain ⟨s, r, hpc, hevents, hsend⟩ := loongarch_strands (.inl rfl)
    rcases hall 2 _ s r 1 hpc with h | h
    · exact hevents h
    · rw [hsend] at h
      exact Nat.lt_irrefl 0 h

end Hvisor
