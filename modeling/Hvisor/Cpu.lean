import Mathlib.Data.List.Count
import Mathlib.Data.Nat.Bitwise
import Mathlib.Logic.Function.Basic

/-!
# CPU sets and event queues

The set of CPUs of a zone, from `percpu.rs`, and the event queues that CPUs send each other
interrupts through, from `event.rs`.

## Main definitions

* `CpuSet`, `CpuSet.containsCpu`, `CpuSet.firstCpu`, `CpuSet.iter`, `CpuSet.setBit`: a set of CPUs
  as a bitmap
* `IpiEvent`, `EventQueues`, `addEvent`, `fetchEvent`: the events of each CPU
-/

namespace Hvisor

/-- The address that stands for none. -/
def INVALID_ADDRESS : Nat := 2 ^ 64 - 1
/-- How often a CPU looks whether another one is off. -/
def MAX_WAIT_TIMES : Nat := 10000000

/-- A set of CPUs: a bitmap, of which the bits up to the greatest CPU id count. -/
structure CpuSet where
  maxCpuId : Nat
  bitmap : BitVec 64
  deriving DecidableEq

namespace CpuSet

/-- The CPU is in the set. -/
def containsCpu (self : CpuSet) (id : Nat) : Bool :=
  decide (id ≤ self.maxCpuId) && self.bitmap.getLsbD id

/-- The CPUs of the set in increasing order. -/
def iter (self : CpuSet) : List Nat :=
  (List.range (self.maxCpuId + 1)).filter self.containsCpu

/-- The CPUs of the set in increasing order, without `id`. -/
def iterExcept (self : CpuSet) (id : Nat) : List Nat :=
  (List.range (self.maxCpuId + 1)).filter fun i => self.containsCpu i && i != id

/-- Add a CPU; the caller checks that it is at most the greatest id. -/
def setBit (self : CpuSet) (id : Nat) : CpuSet :=
  { self with bitmap := self.bitmap ||| BitVec.ofNat 64 (2 ^ id) }

/-- The first CPU of the set. -/
def firstCpu (self : CpuSet) : Option Nat :=
  (List.range (self.maxCpuId + 1)).find? self.containsCpu

@[simp] theorem mem_iter {self : CpuSet} {id : Nat} :
    id ∈ self.iter ↔ self.containsCpu id = true := by
  simp only [iter, List.mem_filter, List.mem_range, containsCpu, Bool.and_eq_true,
    decide_eq_true_eq]
  exact ⟨fun h => h.2, fun h => ⟨Nat.lt_succ_of_le h.1, h⟩⟩

theorem nodup_iter (self : CpuSet) : self.iter.Nodup := List.nodup_range.filter _

@[simp] theorem mem_iterExcept {self : CpuSet} {id c : Nat} :
    c ∈ self.iterExcept id ↔ self.containsCpu c = true ∧ c ≠ id := by
  simp only [iterExcept, List.mem_filter, List.mem_range, containsCpu, Bool.and_eq_true,
    decide_eq_true_eq, bne_iff_ne]
  exact ⟨fun h => h.2, fun h => ⟨Nat.lt_succ_of_le h.1.1, h⟩⟩

theorem nodup_iterExcept (self : CpuSet) (id : Nat) : (self.iterExcept id).Nodup :=
  List.nodup_range.filter _

@[simp] theorem containsCpu_empty (n c : Nat) : (CpuSet.mk n 0#64).containsCpu c = false := by
  simp [containsCpu]

theorem containsCpu_of_setBit {self : CpuSet} {id c : Nat}
    (h : (self.setBit id).containsCpu c = true) : self.containsCpu c = true ∨ c = id := by
  rw [containsCpu, Bool.and_eq_true, setBit, BitVec.getLsbD_or, BitVec.getLsbD_ofNat,
    Nat.testBit_two_pow, Bool.or_eq_true, Bool.and_eq_true, decide_eq_true_eq] at h
  rcases h with ⟨hc, hb | ⟨-, hb⟩⟩
  · exact .inl (by rw [containsCpu, hb, Bool.and_true]; exact decide_eq_true hc)
  · exact .inr (of_decide_eq_true hb).symm

theorem containsCpu_of_firstCpu {self : CpuSet} {id : Nat} (h : self.firstCpu = some id) :
    self.containsCpu id = true := List.find?_some h

end CpuSet

/-! ## Events -/

/-- The events that the hypervisor handles on this architecture. -/
inductive IpiEvent where
  | WAKEUP
  | SHUTDOWN
  | VIRTIO_INJECT_IRQ
  | WAKEUP_VIRTIO_DEVICE
  | CLEAR_INJECT_IRQ
  | UPDATE_HART_LINE
  | SEND_IPI
  | SHM_SIGNAL
  deriving DecidableEq, Repr

/-- The pending events of each CPU, the next one first. -/
abbrev EventQueues := Nat → List IpiEvent

/-- Queue an event; a shutdown drops what was pending. -/
def addEvent (q : EventQueues) (cpu : Nat) (event : IpiEvent) : EventQueues :=
  Function.update q cpu (if event = .SHUTDOWN then [.SHUTDOWN] else q cpu ++ [event])

/-- The next event of a CPU, and the queues without it. -/
def fetchEvent (q : EventQueues) (cpu : Nat) : Option IpiEvent × EventQueues :=
  (q cpu |>.head?, Function.update q cpu (q cpu).tail)

theorem mem_of_fetchEvent {q q' : EventQueues} {cpu c : Nat} {e : Option IpiEvent} {x : IpiEvent}
    (h : fetchEvent q cpu = (e, q')) (hx : x ∈ q' c) : x ∈ q c := by
  obtain rfl : Function.update q cpu (q cpu).tail = q' := congrArg Prod.snd h
  by_cases hc : c = cpu
  · subst hc
    rw [Function.update_self] at hx
    exact List.mem_of_mem_tail hx
  · rwa [Function.update_of_ne hc] at hx

@[simp] theorem addEvent_same (q : EventQueues) (cpu : Nat) (event : IpiEvent) :
    addEvent q cpu event cpu = if event = .SHUTDOWN then [.SHUTDOWN] else q cpu ++ [event] := by
  simp [addEvent]

theorem addEvent_of_ne (q : EventQueues) {cpu cpu' : Nat} (event : IpiEvent) (h : cpu' ≠ cpu) :
    addEvent q cpu event cpu' = q cpu' := by
  simp [addEvent, h]

/-- A queue has the wake-ups of an earlier one, and no shutdown that was not in it. -/
structure SameStarts (l l' : List IpiEvent) : Prop where
  wakeups : l'.count .WAKEUP = l.count .WAKEUP
  shutdown : .SHUTDOWN ∈ l' → .SHUTDOWN ∈ l

namespace SameStarts

variable {l l' l'' : List IpiEvent} {q : EventQueues} {c : Nat}

theorem of_eq (h : l' = l) : SameStarts l l' := ⟨by rw [h], fun hm => h ▸ hm⟩

theorem trans (h : SameStarts l l') (h' : SameStarts l' l'') : SameStarts l l'' :=
  ⟨h'.wakeups.trans h.wakeups, fun hm => h.shutdown (h'.shutdown hm)⟩

theorem wakeup_iff (h : SameStarts l l') : .WAKEUP ∈ l' ↔ .WAKEUP ∈ l := by
  rw [← List.count_pos_iff, h.wakeups, List.count_pos_iff]

/-- An event for another CPU, or one that neither starts nor stops the CPU. -/
theorem addEvent {target : Nat} {e : IpiEvent}
    (h : target ≠ c ∨ e ≠ .WAKEUP ∧ e ≠ .SHUTDOWN) :
    SameStarts (q c) (Hvisor.addEvent q target e c) := by
  by_cases hc : c = target
  · subst hc
    obtain ⟨hw, hd⟩ := h.resolve_left fun hne => hne rfl
    rw [addEvent_same, if_neg hd]
    refine ⟨?_, fun hm => ?_⟩
    · rw [List.count_append, List.count_singleton, if_neg (by simpa using hw)]
      rfl
    · rcases List.mem_append.mp hm with hm | hm
      · exact hm
      · exact absurd (List.mem_singleton.mp hm).symm hd
  · exact of_eq (addEvent_of_ne q e hc)

/-- Taking an event of another CPU, or one that is no wake-up. -/
theorem fetchEvent {cpu : Nat} (h : c = cpu → (Hvisor.fetchEvent q cpu).1 ≠ some .WAKEUP) :
    SameStarts (q c) ((Hvisor.fetchEvent q cpu).2 c) := by
  rw [Hvisor.fetchEvent] at h ⊢
  by_cases hc : c = cpu
  · subst hc
    dsimp only at h ⊢
    rw [Function.update_self]
    cases hq : q c with
    | nil => exact of_eq rfl
    | cons e l =>
      have hne : e ≠ .WAKEUP := fun heq => h rfl (by rw [hq, heq]; rfl)
      refine ⟨?_, List.mem_cons_of_mem e⟩
      rw [List.tail_cons, List.count_cons_of_ne hne]
  · exact of_eq (Function.update_of_ne hc ..)

end SameStarts

/-- Taking a wake-up leaves one less. -/
theorem count_fetchEvent_wakeup {q : EventQueues} {cpu : Nat}
    (h : (fetchEvent q cpu).1 = some .WAKEUP) :
    ((fetchEvent q cpu).2 cpu).count .WAKEUP + 1 = (q cpu).count .WAKEUP := by
  rw [fetchEvent] at h ⊢
  dsimp only at h ⊢
  rw [Function.update_self]
  cases hq : q cpu with
  | nil =>
    rw [hq] at h
    cases h
  | cons e l =>
    rw [hq] at h
    obtain rfl : e = .WAKEUP := Option.some.inj h
    rw [List.tail_cons, List.count_cons_self]

end Hvisor
