import Hvisor.Cpu
import Hvisor.Lib.Mailbox
import Hvisor.Lib.TransitionSystem
import Mathlib.Data.List.Count

/-!
# Events between CPUs

What the three architectures share of the delivery of events, from `event.rs`. A CPU sends an event
in two steps: it puts the event in the queue of the target, and raises an interrupt there. Between
the two it is in the middle of the send. Other CPUs may take steps in between.

## Main definitions

* `EventCpu`, `EventState`: where the CPUs are, the queues, and the interrupts that are pending
* `EventState.addEvent`, `EventState.fetchEvent`: the queues, with their ledgers
* `EventState.inflight`: the sends to a CPU that are not over
* `EventState.quiet`: the state in which nothing is sent

## Main results

* `EventState.Balanced.addEvent`, `EventState.Balanced.fetchEvent`: the ledgers agree with the
  queues
-/

namespace Hvisor

open Mailbox

/-- Where a CPU is: at a place of the architecture's own code, between the two steps of a send, or
elsewhere. -/
inductive EventCpu (H : Type) where
  | outside
  | sending (target : Nat)
  | inside (place : H)
  deriving DecidableEq

/-- The queues, the interrupts that are pending and the places of the CPUs; and, for each queue, the
events that were put in and the ones that were handled. -/
structure EventState (π H : Type) where
  events : EventQueues
  pending : Nat → π
  pc : Nat → EventCpu H
  ledger : Nat → Ledger IpiEvent

/-- Whether the event drops the ones before it. -/
def clearsQueue (event : IpiEvent) : Bool := event == .SHUTDOWN

theorem addEvent_eq_push (q : EventQueues) (cpu : Nat) (event : IpiEvent) :
    addEvent q cpu event cpu = push clearsQueue (q cpu) event := by
  cases event <;> rw [addEvent_same] <;> rfl

variable {π H : Type}

namespace EventState

/-- The CPU goes on at a place. -/
def goto (s : EventState π H) (p : Nat) (pc : EventCpu H) : EventState π H :=
  { s with pc := Function.update s.pc p pc }

/-- What is pending at a CPU. -/
def setPending (s : EventState π H) (cpu : Nat) (x : π) : EventState π H :=
  { s with pending := Function.update s.pending cpu x }

/-- `add_event` -/
def addEvent (s : EventState π H) (cpu : Nat) (event : IpiEvent) : EventState π H :=
  { s with
    events := Hvisor.addEvent s.events cpu event
    ledger := Function.update s.ledger cpu ((s.ledger cpu).push clearsQueue event) }

/-- `fetch_event` by the CPU of the queue: the event counts as handled. -/
def fetchEvent (s : EventState π H) (cpu : Nat) : Option IpiEvent × EventState π H :=
  let (event, events) := Hvisor.fetchEvent s.events cpu
  (event, { s with
    events := events
    ledger := Function.update s.ledger cpu ((s.ledger cpu).take event) })

/-- How many of the first `ncpu` CPUs have put an event in the queue of a CPU, and not yet raised
the interrupt. -/
def inflight [DecidableEq H] (s : EventState π H) (ncpu cpu : Nat) : Nat :=
  (List.range ncpu).countP fun p => s.pc p = .sending cpu

/-- Nothing is queued or pending, and no CPU sends or handles anything. -/
def quiet (idle : π) : EventState π H where
  events _ := []
  pending _ := idle
  pc _ := .outside
  ledger _ := .empty

/-- Each ledger agrees with its queue. -/
def Balanced (s : EventState π H) : Prop := ∀ cpu, (s.ledger cpu).Balanced (s.events cpu)

variable {s : EventState π H}

@[simp] theorem events_fetchEvent_self (s : EventState π H) (cpu : Nat) :
    (s.fetchEvent cpu).2.events cpu = (s.events cpu).tail := Function.update_self _ _ _

@[simp] theorem events_fetchEvent_of_ne (s : EventState π H) {cpu c : Nat} (h : c ≠ cpu) :
    (s.fetchEvent cpu).2.events c = s.events c := Function.update_of_ne h _ _

@[simp] theorem fetchEvent_fst (s : EventState π H) (cpu : Nat) :
    (s.fetchEvent cpu).1 = (s.events cpu).head? := rfl

theorem events_addEvent_self (s : EventState π H) (cpu : Nat) (event : IpiEvent) :
    (s.addEvent cpu event).events cpu = push clearsQueue (s.events cpu) event :=
  addEvent_eq_push _ _ _

@[simp] theorem events_addEvent_of_ne (s : EventState π H) {cpu c : Nat} (event : IpiEvent)
    (h : c ≠ cpu) : (s.addEvent cpu event).events c = s.events c := addEvent_of_ne _ _ h

theorem balanced_quiet (idle : π) : (quiet idle : EventState π H).Balanced :=
  fun _ => Ledger.balanced_empty

theorem Balanced.goto (h : s.Balanced) (p : Nat) (x : EventCpu H) : (s.goto p x).Balanced := h

theorem Balanced.addEvent (h : s.Balanced) (cpu : Nat) (event : IpiEvent) :
    (s.addEvent cpu event).Balanced := by
  intro c
  by_cases hc : c = cpu
  · subst hc
    rw [events_addEvent_self]
    simp only [EventState.addEvent, Function.update_self]
    exact (h c).push event
  · rw [events_addEvent_of_ne _ _ hc]
    simp only [EventState.addEvent, Function.update_of_ne hc]
    exact h c

theorem Balanced.fetchEvent (h : s.Balanced) (cpu : Nat) : (s.fetchEvent cpu).2.Balanced := by
  intro c
  by_cases hc : c = cpu
  · subst hc
    rw [events_fetchEvent_self]
    simp only [EventState.fetchEvent, Function.update_self]
    exact (h c).take
  · rw [events_fetchEvent_of_ne _ hc]
    simp only [EventState.fetchEvent, Function.update_of_ne hc]
    exact h c

/-! ## Counting sends -/

section Count

/-- What counts at one place before and after an update there, and is counted the same elsewhere. -/
theorem countP_update {β : Type*} (P : β → Prop) [DecidablePred P] (f : Nat → β) {p n : Nat}
    (hp : p < n) (x : β) :
    (List.range n).countP (fun q => P (Function.update f p x q)) + (if P (f p) then 1 else 0) =
      (List.range n).countP (fun q => P (f q)) + if P x then 1 else 0 := by
  induction n with
  | zero => cases hp
  | succ n ih =>
    simp only [List.range_succ, List.countP_append, List.countP_singleton, decide_eq_true_eq]
    rcases Nat.lt_or_eq_of_le (Nat.le_of_lt_succ hp) with h | rfl
    · have := ih h
      rw [Function.update_of_ne (Nat.ne_of_gt h)]
      omega
    · have hsame : (List.range p).countP (fun q => P (Function.update f p x q)) =
          (List.range p).countP fun q => P (f q) := by
        refine List.countP_congr fun q hq => ?_
        rw [Function.update_of_ne (Nat.ne_of_lt (List.mem_range.mp hq))]
      rw [hsame, Function.update_self]
      omega

variable [DecidableEq H]

/-- A CPU that moves is counted where it goes, and not where it was. -/
theorem inflight_goto (s : EventState π H) {p ncpu : Nat} (hp : p < ncpu) (x : EventCpu H)
    (cpu : Nat) :
    (s.goto p x).inflight ncpu cpu + (if s.pc p = .sending cpu then 1 else 0) =
      s.inflight ncpu cpu + if x = .sending cpu then 1 else 0 :=
  countP_update (fun y => y = EventCpu.sending cpu) s.pc hp x

end Count

end EventState

end Hvisor
