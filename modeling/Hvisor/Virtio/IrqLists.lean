import Hvisor.Lib.CountedArray
import Hvisor.Lib.TransitionSystem
import Hvisor.Virtio.Trampoline
import Hvisor.Zone.Lifecycle

/-!
# The lists of virtio interrupts

`VIRTIO_IRQS` has for each CPU an array of `MAX_DEVS + 1` words, the number of interrupts that are
recorded and the interrupts. `hv_virtio_inject_irq` records what the backend has posted in the ring
of results, and `handle_virtio_irq` injects what is recorded for its CPU. The hypercall holds the
lock of the lists while it loops over the results, and in between the backend and zones go on.

## Main definitions

* `HvisorDeviceRes`, `IrqTables`: a result, and the ring, the zones and the lists
* `IrqAct`, `IrqObs`, `IrqTables.step`: the steps, and what they show
* `pendingIrqs`: what was posted for a live zone and is not injected yet
* `HasRoom`: the condition on a round of the hypercall
* `IrqListsInv`: the invariant

## Main results

* `irqListsInv_of_step`: what a step with room preserves
* `virtioIrqs_recorded`: while there is room, no round fails and no interrupt is lost
* `step_panics_of_not_hasRoom`: a round without room fails
-/

namespace Hvisor

open CountedArray

/-- A result of the backend: an interrupt for a zone. -/
structure HvisorDeviceRes where
  targetZone : Nat
  irqId : Nat
  deriving DecidableEq

/-- The ring of results, the list of zones with their CPUs, the lists of interrupts, whether the
hypercall holds their lock, and how many events are waiting for each CPU. -/
structure IrqTables where
  resFront : Nat
  resRear : Nat
  resList : Vector HvisorDeviceRes MAX_REQ
  zones : Nat → Option CpuSet
  irqs : Nat → Option (Vector Nat (MAX_DEVS + 1))
  injecting : Bool
  events : Nat → Nat

/-- The steps. The last five are those of the backend and of what starts and ends zones. -/
inductive IrqAct where
  /-- The root zone calls `hv_virtio_inject_irq`. -/
  | enter
  /-- A round of its loop. -/
  | round
  /-- A CPU takes the event and runs `handle_virtio_irq`. -/
  | handle (cpu : Nat)
  /-- The backend writes the region, and keeps the indices below `MAX_REQ`. -/
  | backend (resFront resRear : Nat) (resList : Vector HvisorDeviceRes MAX_REQ)
  | start (zone : Nat) (cpuSet : CpuSet)
  /-- `hv_zone_shutdown`: the lists of the CPUs are cleared. -/
  | shutdown (zone : Nat)
  /-- A zone ends by itself, and the lists stay. -/
  | remove (zone : Nat)
  | clearEvents (cpu : Nat)

/-- What a step shows. -/
inductive IrqObs where
  | silent
  | posted (cpu irqId zone : Nat)
  | injected (cpu : Nat) (irqIds : List Nat)
  | gone (zone : Nat)

namespace IrqTables

/-- The interrupts that are recorded for a CPU. -/
def listed (s : IrqTables) (c : Nat) : List Nat := (s.irqs c).elim [] valid

/-- `irq_list` of a round: the entry of the CPU, made if there is none. -/
def entry (loongarch64 : Bool) (s : IrqTables) (c : Nat) : Vector Nat (MAX_DEVS + 1) :=
  let irqList := (s.irqs c).getD (Vector.replicate (MAX_DEVS + 1) 0)
  -- the workaround for loongarch64
  if loongarch64 then clear irqList else irqList

/-- The list of a CPU. -/
def setEntry (s : IrqTables) (c : Nat) (irqList : Vector Nat (MAX_DEVS + 1)) : IrqTables :=
  { s with irqs := Function.update s.irqs c (some irqList) }

/-- `region.res_front = (region.res_front + 1) & (MAX_REQ - 1)`. -/
def advance (s : IrqTables) : IrqTables :=
  { s with resFront := (s.resFront + 1) &&& (MAX_REQ - 1) }

/-- The CPU is sent the event to inject. -/
def sendInject (s : IrqTables) (c : Nat) : IrqTables :=
  { s with events := Function.update s.events c (s.events c + 1) }

/-- Record an interrupt for a CPU. -/
def record (loongarch64 : Bool) (s : IrqTables) (c irqId zone : Nat) :
    Except (Fault HvError) (IrqTables × IrqObs) :=
  let irqList := s.entry loongarch64 c
  -- the slice `1..=len` ends in the array
  if MAX_DEVS < irqList[0] then .error .panic
  -- recorded already: no event is sent
  else if irqId ∈ valid irqList then
    .ok ((s.setEntry c irqList).advance, .posted c irqId zone)
  else if h : irqList[0] + 1 < MAX_DEVS then
    .ok (((s.setEntry c (push irqList irqId (by omega))).sendInject c).advance,
      .posted c irqId zone)
  -- `assert!(len + 1 < MAX_DEVS)`, although the array has one more slot
  else .error .panic

/-- A round of the loop of `hv_virtio_inject_irq`. -/
def round (loongarch64 : Bool) (s : IrqTables) : Except (Fault HvError) (IrqTables × IrqObs) :=
  if s.resRear = s.resFront then .ok ({ s with injecting := false }, .silent)
  else if h : s.resFront < MAX_REQ then
    let res := s.resList[s.resFront]
    match s.zones res.targetZone with
    -- the zone is gone: the result is passed over
    | none => .ok (s.advance, .silent)
    | some cpuSet =>
      match cpuSet.firstCpu with
      | none => .error .panic
      | some targetCpu => s.record loongarch64 targetCpu res.irqId res.targetZone
  else .error .panic

/-- `handle_virtio_irq` on CPU `c`. -/
def handleVirtioIrq (s : IrqTables) (c : Nat) : Except (Fault HvError) (IrqTables × IrqObs) :=
  match s.irqs c with
  -- `map.get_mut(&this_cpu_id()).unwrap()`
  | none => .error .panic
  | some irqList =>
    if MAX_DEVS < irqList[0] then .error .panic
    else .ok (s.setEntry c (clear irqList), .injected c (valid irqList))

/-- `none` when the step cannot be taken. Steps on the lists wait for their lock. -/
def step (loongarch64 : Bool) (s : IrqTables) :
    IrqAct → Option (Except (Fault HvError) (IrqTables × IrqObs))
  | .enter => if s.injecting then none else some (.ok ({ s with injecting := true }, .silent))
  | .round => if s.injecting then some (s.round loongarch64) else none
  | .handle c =>
    if s.injecting = false ∧ 0 < s.events c then
      some (handleVirtioIrq { s with events := Function.update s.events c (s.events c - 1) } c)
    else none
  | .backend resFront resRear resList =>
    if resFront < MAX_REQ ∧ resRear < MAX_REQ then
      some (.ok ({ s with resFront, resRear, resList }, .silent))
    else none
  | .start z cpuSet =>
    some (.ok ({ s with zones := Function.update s.zones z (some cpuSet) }, .silent))
  | .shutdown z =>
    match s.zones z with
    | some cpuSet =>
      if s.injecting then none
      else
        some (.ok ({ s with
          zones := Function.update s.zones z none
          irqs := fun c => if cpuSet.containsCpu c then (s.irqs c).map clear else s.irqs c },
            .gone z))
    | none => none
  | .remove z => some (.ok ({ s with zones := Function.update s.zones z none }, .gone z))
  | .clearEvents c =>
    some (.ok ({ s with events := Function.update s.events c 0 }, .silent))

/-- A zone is started under an id that is not in use, with CPUs that no other zone has. -/
def MayStart (s : IrqTables) (z : Nat) (cpuSet : CpuSet) : Prop :=
  s.zones z = none ∧ cpuSet.firstCpu.isSome ∧
    ∀ z' cpuSet', s.zones z' = some cpuSet' → ∀ c, cpuSet.containsCpu c → ¬ cpuSet'.containsCpu c

end IrqTables

/-- The lists and the steps on them. -/
def virtioIrqs (loongarch64 : Bool) : TransitionSystem IrqTables (IrqAct × IrqObs) where
  init s := s.resFront < MAX_REQ ∧ s.resRear < MAX_REQ ∧ s.injecting = false ∧
    (∀ z, s.zones z = none) ∧ (∀ c, s.irqs c = none) ∧ ∀ c, s.events c = 0
  step s e s' := s.step loongarch64 e.1 = some (.ok (s', e.2)) ∧
    ∀ z cpuSet, e.1 = .start z cpuSet → s.MayStart z cpuSet

/-- What was posted for a zone that is still live and was not injected since: the CPU, the interrupt
and the zone. The latest step is the first. -/
def pendingIrqs : List (IrqAct × IrqObs) → List (Nat × Nat × Nat)
  | [] => []
  | (_, .silent) :: h => pendingIrqs h
  | (_, .posted c irqId z) :: h => (c, irqId, z) :: pendingIrqs h
  | (_, .injected c irqIds) :: h =>
    (pendingIrqs h).filter fun (c', irqId, _) => !(c' == c && irqIds.contains irqId)
  | (_, .gone z) :: h => (pendingIrqs h).filter fun (_, _, z') => z' != z

/-- There is room for what a round records: the interrupt is in the list of its CPU, or fewer than
`MAX_DEVS - 1` others are. On LoongArch, where a round starts a new list, no others are. -/
def HasRoom (loongarch64 : Bool) (s : IrqTables) : IrqAct → Prop
  | .round => s.resRear ≠ s.resFront → ∀ (h : s.resFront < MAX_REQ) (cpuSet : CpuSet) (c : Nat),
      s.zones s.resList[s.resFront].targetZone = some cpuSet → cpuSet.firstCpu = some c →
      if loongarch64 then ∀ x ∈ s.listed c, x = s.resList[s.resFront].irqId
      else s.resList[s.resFront].irqId ∈ s.listed c ∨ (s.listed c).length + 1 < MAX_DEVS
  | _ => True

/-- The invariant of the lists. -/
structure IrqListsInv (h : List (IrqAct × IrqObs)) (s : IrqTables) : Prop where
  front : s.resFront < MAX_REQ
  cpus : ∀ z cpuSet, s.zones z = some cpuSet → cpuSet.firstCpu.isSome
  apart : ∀ z z' cpuSet cpuSet', s.zones z = some cpuSet → s.zones z' = some cpuSet' → z ≠ z' →
    ∀ c, cpuSet.containsCpu c → ¬ cpuSet'.containsCpu c
  count : ∀ c irqList, s.irqs c = some irqList → irqList[0] < MAX_DEVS
  event : ∀ c, 0 < s.events c → (s.irqs c).isSome
  pending : ∀ c irqId z, (c, irqId, z) ∈ pendingIrqs h →
    ∃ cpuSet, s.zones z = some cpuSet ∧ cpuSet.containsCpu c ∧ irqId ∈ s.listed c

/-! ## Recording -/

section

variable {loongarch64 : Bool} {s s' : IrqTables} {c irqId z : Nat}
  {irqList : Vector Nat (MAX_DEVS + 1)} {h : List (IrqAct × IrqObs)} {o : IrqObs}

namespace IrqTables

theorem listed_of_irqs {c' : Nat} (hs : s'.irqs = Function.update s.irqs c (some irqList)) :
    s'.listed c' = if c' = c then valid irqList else s.listed c' := by
  unfold listed
  rw [hs, Function.update_apply]
  split <;> rfl

theorem valid_entry_false : valid (s.entry false c) = s.listed c := by
  unfold entry listed
  cases s.irqs c <;> simp

theorem valid_entry_true : valid (s.entry true c) = [] := by simp [entry]

/-- What recording does: the list of the CPU changes, and its events may. -/
structure Recorded (s : IrqTables) (c : Nat) (irqList : Vector Nat (MAX_DEVS + 1))
    (s' : IrqTables) : Prop where
  irqs : s'.irqs = Function.update s.irqs c (some irqList)
  zones : s'.zones = s.zones
  front : s'.resFront < MAX_REQ
  events : ∀ c', 0 < s'.events c' → 0 < s.events c' ∨ c' = c

theorem advance_lt (s : IrqTables) : s.advance.resFront < MAX_REQ :=
  Nat.lt_of_le_of_lt Nat.and_le_right (by decide)

theorem recorded_setEntry : s.Recorded c irqList (s.setEntry c irqList).advance :=
  ⟨rfl, rfl, advance_lt _, fun _ h => .inl h⟩

theorem recorded_sendInject :
    s.Recorded c irqList ((s.setEntry c irqList).sendInject c).advance := by
  refine ⟨rfl, rfl, advance_lt _, fun c' h => ?_⟩
  by_cases hc : c' = c
  · exact .inr hc
  · have h' : 0 < Function.update s.events c (s.events c + 1) c' := h
    rw [Function.update_of_ne hc] at h'
    exact .inl h'

/-- **Recording**: the interrupt is in the list of the CPU behind what the entry held, or there was
no room for it. -/
theorem record_cases (loongarch64 : Bool) (s : IrqTables) (c irqId z : Nat)
    (hcount : (s.entry loongarch64 c)[0] < MAX_DEVS) :
    (∃ s' irqList, s.record loongarch64 c irqId z = .ok (s', .posted c irqId z) ∧
      s.Recorded c irqList s' ∧ irqList[0] < MAX_DEVS ∧ irqId ∈ valid irqList ∧
      ∀ x ∈ valid (s.entry loongarch64 c), x ∈ valid irqList) ∨
    (s.record loongarch64 c irqId z = .error .panic ∧ irqId ∉ valid (s.entry loongarch64 c) ∧
      MAX_DEVS ≤ (valid (s.entry loongarch64 c)).length + 1) := by
  unfold record
  simp only [if_neg (Nat.lt_asymm hcount)]
  -- recorded already, or appended, or no room; the count of the entry is within the array
  split
  · next hmem => exact .inl ⟨_, _, rfl, recorded_setEntry, hcount, hmem, fun x hx => hx⟩
  · next hmem =>
    split
    · next hroom =>
      refine .inl ⟨_, _, rfl, recorded_sendInject, by rwa [push_zero], ?_, fun x hx => ?_⟩
      all_goals rw [valid_push]
      · exact List.mem_append_right _ List.mem_cons_self
      · exact List.mem_append_left _ hx
    · next hroom =>
      refine .inr ⟨rfl, hmem, ?_⟩
      rw [length_valid (Nat.le_of_lt hcount)]
      omega

theorem entry_count (loongarch64 : Bool) (c : Nat)
    (hcount : ∀ c irqList, s.irqs c = some irqList → irqList[0] < MAX_DEVS) :
    (s.entry loongarch64 c)[0] < MAX_DEVS := by
  unfold entry
  -- a list that is made or cleared is empty; any other is the one of the table
  cases loongarch64 with
  | true => simp [MAX_DEVS]
  | false =>
    cases hc : s.irqs c with
    | none => simp [MAX_DEVS]
    | some irqList => simpa using hcount c irqList hc

end IrqTables

open IrqTables

/-! ## The invariant -/

theorem irqListsInv_init (loongarch64 : Bool) (hs : (virtioIrqs loongarch64).init s) :
    IrqListsInv [] s := by
  obtain ⟨hfront, -, -, hzones, hirqs, hevents⟩ := hs
  exact ⟨hfront, by simp [hzones], by simp [hzones], by simp [hirqs], by simp [hevents],
    by simp [pendingIrqs]⟩

/-- A round with room records what was posted, and goes on with the next result. -/
theorem round_cases (hi : IrqListsInv h s) (hroom : HasRoom loongarch64 s .round) :
    (∃ s', s.round loongarch64 = .ok (s', .silent) ∧ s'.irqs = s.irqs ∧ s'.zones = s.zones ∧
      s'.events = s.events ∧ s'.resFront < MAX_REQ) ∨
    ∃ s' irqList c irqId z cpuSet, s.round loongarch64 = .ok (s', .posted c irqId z) ∧
      s.zones z = some cpuSet ∧ cpuSet.containsCpu c ∧ s.Recorded c irqList s' ∧
      irqList[0] < MAX_DEVS ∧ irqId ∈ valid irqList ∧ ∀ x ∈ s.listed c, x ∈ valid irqList := by
  have hfront := hi.front
  unfold IrqTables.round
  -- the ring may be empty, and the zone of the result may be gone
  by_cases hempty : s.resRear = s.resFront
  · exact .inl ⟨_, if_pos hempty, rfl, rfl, rfl, hi.front⟩
  · have hr := hroom hempty hfront
    rw [if_neg hempty, dif_pos hfront]
    generalize s.resList[s.resFront] = res at hr ⊢
    cases hz : s.zones res.targetZone with
    | none => exact .inl ⟨s.advance, by simp only [hz], rfl, rfl, rfl, advance_lt s⟩
    | some cpuSet =>
      obtain ⟨c, hc⟩ := Option.isSome_iff_exists.mp (hi.cpus _ _ hz)
      have hr := hr cpuSet c hz hc
      have hcpu := CpuSet.containsCpu_of_firstCpu hc
      simp only [hz, hc]
      -- the CPU of the zone is known, and what recording does decides
      rcases record_cases loongarch64 s c res.irqId res.targetZone
          (entry_count loongarch64 c hi.count) with
        ⟨s', irqList, he, hrec, hlt, hmem, hold⟩ | ⟨he, hnot, hfull⟩
      · refine .inr ⟨s', irqList, c, _, _, cpuSet, he, hz, hcpu, hrec, hlt, hmem, ?_⟩
        cases loongarch64 with
        | false =>
          rw [valid_entry_false] at hold
          exact hold
        | true =>
          -- nothing but the interrupt itself was in the list
          intro x hx
          rwa [hr x hx]
      · cases loongarch64 with
        | false =>
          rw [valid_entry_false] at hnot hfull
          -- the condition says it is in the list, or that the list is not full
          rcases hr with hin | hlen
          · exact absurd hin hnot
          · omega
        | true =>
          rw [valid_entry_true] at hfull
          -- the list was cleared just before, so it is not full
          exact absurd hfull (by decide)

/-- A step that leaves the lists and the zones alone. -/
theorem IrqListsInv.of_silent (hi : IrqListsInv h s) {a : IrqAct} (hirqs : s'.irqs = s.irqs)
    (hzones : s'.zones = s.zones) (hevents : ∀ c, 0 < s'.events c → 0 < s.events c)
    (hfront : s'.resFront < MAX_REQ) : IrqListsInv ((a, .silent) :: h) s' := by
  refine ⟨hfront, ?_, ?_, ?_, ?_, ?_⟩
  · rw [hzones]
    exact hi.cpus
  · rw [hzones]
    exact hi.apart
  · rw [hirqs]
    exact hi.count
  · intro c hc
    rw [hirqs]
    exact hi.event c (hevents c hc)
  · intro c irqId z hp
    simp only [listed, hzones, hirqs]
    exact hi.pending c irqId z hp

/-- A round that records an interrupt. -/
theorem IrqListsInv.of_posted (hi : IrqListsInv h s) {a : IrqAct} {cpuSet : CpuSet}
    (hz : s.zones z = some cpuSet) (hc : cpuSet.containsCpu c) (hr : s.Recorded c irqList s')
    (hcount : irqList[0] < MAX_DEVS) (hmem : irqId ∈ valid irqList)
    (hold : ∀ x ∈ s.listed c, x ∈ valid irqList) :
    IrqListsInv ((a, .posted c irqId z) :: h) s' := by
  refine ⟨hr.front, ?_, ?_, ?_, ?_, ?_⟩
  · rw [hr.zones]
    exact hi.cpus
  · rw [hr.zones]
    exact hi.apart
  · intro c' irqList' hc'
    rw [hr.irqs, Function.update_apply] at hc'
    split at hc'
    · obtain rfl := Option.some.inj hc'
      exact hcount
    · exact hi.count c' irqList' hc'
  · intro c' he
    rw [hr.irqs, Function.update_apply]
    split
    · rfl
    · next hne => exact hi.event c' ((hr.events c' he).resolve_right hne)
  · intro c' irqId' z' hp
    rw [hr.zones, listed_of_irqs hr.irqs]
    -- pending is the interrupt of this round, or one from before that the list has kept
    rcases List.mem_cons.mp hp with heq | hp
    · obtain ⟨rfl, rfl, rfl⟩ : c' = c ∧ irqId' = irqId ∧ z' = z := by simpa using heq
      exact ⟨cpuSet, hz, hc, by rwa [if_pos rfl]⟩
    · obtain ⟨cpuSet', hz', hc', hin⟩ := hi.pending c' irqId' z' hp
      refine ⟨cpuSet', hz', hc', ?_⟩
      split
      · next heq =>
        subst heq
        exact hold irqId' hin
      · exact hin

/-- A CPU injects what is recorded for it, and its list is empty. -/
theorem IrqListsInv.of_injected (hi : IrqListsInv h s) {a : IrqAct} (hc : s.irqs c = some irqList)
    (hirqs : s'.irqs = Function.update s.irqs c (some (clear irqList)))
    (hzones : s'.zones = s.zones) (hevents : ∀ c, 0 < s'.events c → 0 < s.events c)
    (hfront : s'.resFront < MAX_REQ) :
    IrqListsInv ((a, .injected c (valid irqList)) :: h) s' := by
  refine ⟨hfront, ?_, ?_, ?_, ?_, ?_⟩
  · rw [hzones]
    exact hi.cpus
  · rw [hzones]
    exact hi.apart
  · intro c' irqList' hc'
    rw [hirqs, Function.update_apply] at hc'
    split at hc'
    · obtain rfl := Option.some.inj hc'
      rw [clear_zero]
      decide
    · exact hi.count c' irqList' hc'
  · intro c' he
    rw [hirqs, Function.update_apply]
    split
    · rfl
    · exact hi.event c' (hevents c' he)
  · intro c' irqId z hp
    -- still pending are those of other CPUs, and those that the list did not hold
    obtain ⟨hp, hnot⟩ := List.mem_filter.mp hp
    obtain ⟨cpuSet, hz, hcpu, hin⟩ := hi.pending c' irqId z hp
    rw [hzones, listed_of_irqs hirqs]
    refine ⟨cpuSet, hz, hcpu, ?_⟩
    split
    · -- what the list held was injected
      next heq =>
      subst heq
      have hlist : s.listed c' = valid irqList := by rw [listed, hc, Option.elim_some]
      rw [hlist] at hin
      simp [hin] at hnot
    · exact hin

/-- A zone goes. The lists of other zones' CPUs stay. -/
theorem IrqListsInv.of_gone (hi : IrqListsInv h s) {a : IrqAct}
    (hzones : s'.zones = Function.update s.zones z none)
    (hirqs : ∀ c, s'.irqs c = s.irqs c ∨
      s'.irqs c = (s.irqs c).map clear ∧ ∃ cpuSet, s.zones z = some cpuSet ∧ cpuSet.containsCpu c)
    (hevents : s'.events = s.events) (hfront : s'.resFront < MAX_REQ) :
    IrqListsInv ((a, .gone z) :: h) s' := by
  -- the zones that are left were there before
  have hlive : ∀ z' cpuSet, s'.zones z' = some cpuSet → z' ≠ z ∧ s.zones z' = some cpuSet := by
    intro z' cpuSet hz
    rw [hzones, Function.update_apply] at hz
    split at hz
    · cases hz
    · next hne => exact ⟨hne, hz⟩
  refine ⟨hfront, ?_, ?_, ?_, ?_, ?_⟩
  · exact fun z' cpuSet hz => hi.cpus z' cpuSet (hlive z' cpuSet hz).2
  · intro z₁ z₂ cpus₁ cpus₂ h₁ h₂
    exact hi.apart z₁ z₂ cpus₁ cpus₂ (hlive _ _ h₁).2 (hlive _ _ h₂).2
  · intro c irqList hc
    rcases hirqs c with hsame | ⟨hclear, -⟩
    · exact hi.count c irqList (hsame ▸ hc)
    · rw [hclear] at hc
      obtain ⟨irqList', -, rfl⟩ := Option.map_eq_some_iff.mp hc
      rw [clear_zero]
      decide
  · intro c he
    rw [hevents] at he
    have hsome := hi.event c he
    rcases hirqs c with hsame | ⟨hclear, -⟩
    · rwa [hsame]
    · rwa [hclear, Option.isSome_map]
  · intro c irqId z' hp
    obtain ⟨hp, hne⟩ := List.mem_filter.mp hp
    have hne : z' ≠ z := by simpa using hne
    obtain ⟨cpuSet, hz, hcpu, hin⟩ := hi.pending c irqId z' hp
    refine ⟨cpuSet, by rw [hzones, Function.update_of_ne hne, hz], hcpu, ?_⟩
    rcases hirqs c with hsame | ⟨-, cpuSet', hz', hcpu'⟩
    · rwa [listed, hsame]
    · -- a CPU of the zone that goes is not one of another zone
      exact absurd hcpu' (hi.apart z' z cpuSet cpuSet' hz hz' hne c hcpu)

/-- A zone starts, with CPUs that no other zone has. -/
theorem IrqListsInv.of_started (hi : IrqListsInv h s) {a : IrqAct} {cpuSet : CpuSet}
    (hstart : s.MayStart z cpuSet) (hzones : s'.zones = Function.update s.zones z (some cpuSet))
    (hirqs : s'.irqs = s.irqs) (hevents : s'.events = s.events) (hfront : s'.resFront < MAX_REQ) :
    IrqListsInv ((a, .silent) :: h) s' := by
  obtain ⟨hnone, hcpu, hapart⟩ := hstart
  -- a zone is the one that starts, or was there before
  have hlive : ∀ z' cpuSet', s'.zones z' = some cpuSet' →
      z' = z ∧ cpuSet' = cpuSet ∨ s.zones z' = some cpuSet' := by
    intro z' cpuSet' hz
    rw [hzones, Function.update_apply] at hz
    split at hz
    · next heq => exact .inl ⟨heq, (Option.some.inj hz).symm⟩
    · exact .inr hz
  refine ⟨hfront, ?_, ?_, ?_, ?_, ?_⟩
  · intro z' cpuSet' hz
    rcases hlive z' cpuSet' hz with ⟨-, rfl⟩ | hz
    · exact hcpu
    · exact hi.cpus z' cpuSet' hz
  · intro z₁ z₂ cpus₁ cpus₂ h₁ h₂ hne c hc
    -- two zones: neither, one or both of them may be the one that starts
    rcases hlive z₁ cpus₁ h₁ with ⟨rfl, rfl⟩ | h₁
    · rcases hlive z₂ cpus₂ h₂ with ⟨rfl, -⟩ | h₂
      · exact absurd rfl hne
      · exact hapart z₂ cpus₂ h₂ c hc
    · rcases hlive z₂ cpus₂ h₂ with ⟨rfl, rfl⟩ | h₂
      · exact fun hc' => hapart z₁ cpus₁ h₁ c hc' hc
      · exact hi.apart z₁ z₂ cpus₁ cpus₂ h₁ h₂ hne c hc
  · rw [hirqs]
    exact hi.count
  · rw [hirqs, hevents]
    exact hi.event
  · intro c irqId z' hp
    obtain ⟨cpuSet', hz, hc, hin⟩ := hi.pending c irqId z' hp
    -- nothing is pending for an id that was not in use
    have hne : z' ≠ z := by
      rintro rfl
      rw [hnone] at hz
      cases hz
    refine ⟨cpuSet', ?_, hc, ?_⟩
    · rw [hzones, Function.update_of_ne hne, hz]
    · rwa [listed, hirqs]

/-- **What a step with room preserves.** -/
theorem irqListsInv_of_step (hi : IrqListsInv h s) {a : IrqAct} (hroom : HasRoom loongarch64 s a)
    (hs : s.step loongarch64 a = some (.ok (s', o)))
    (hstart : ∀ z cpuSet, a = .start z cpuSet → s.MayStart z cpuSet) :
    IrqListsInv ((a, o) :: h) s' := by
  -- the steps by what they show: silent, posted, injected or gone
  cases a with
  | enter =>
    simp only [step] at hs
    split at hs <;> cases hs
    exact hi.of_silent rfl rfl (fun _ h => h) hi.front
  | round =>
    simp only [step] at hs
    split at hs
    · have hr := Option.some.inj hs
      rcases round_cases hi hroom with ⟨s₁, he, hirqs, hzones, hevents, hfront⟩ |
        ⟨s₁, irqList, c, irqId, z, cpuSet, he, hz, hc, hrec, hcount, hmem, hold⟩
      · obtain ⟨rfl, rfl⟩ := Prod.mk.inj (Except.ok.inj (he.symm.trans hr))
        exact hi.of_silent hirqs hzones (fun c h => hevents ▸ h) hfront
      · obtain ⟨rfl, rfl⟩ := Prod.mk.inj (Except.ok.inj (he.symm.trans hr))
        exact hi.of_posted hz hc hrec hcount hmem hold
    · cases hs
  | handle c =>
    simp only [step] at hs
    split at hs
    · have hr := Option.some.inj hs
      unfold handleVirtioIrq at hr
      split at hr
      · cases hr
      · next irqList hc =>
        split at hr
        · cases hr
        · obtain ⟨rfl, rfl⟩ := Prod.mk.inj (Except.ok.inj hr)
          -- one event less waits for this CPU
          refine hi.of_injected hc rfl rfl (fun c' h => ?_) hi.front
          have h' : 0 < Function.update s.events c (s.events c - 1) c' := h
          rw [Function.update_apply] at h'
          split at h'
          · next heq =>
            subst heq
            omega
          · exact h'
    · cases hs
  | backend resFront resRear resList =>
    simp only [step] at hs
    split at hs <;> cases hs
    next hlt => exact hi.of_silent rfl rfl (fun _ h => h) hlt.1
  | start z cpuSet =>
    obtain ⟨rfl, rfl⟩ := Prod.mk.inj (Except.ok.inj (Option.some.inj hs))
    exact hi.of_started (hstart z cpuSet rfl) rfl rfl rfl hi.front
  | shutdown z =>
    simp only [step] at hs
    split at hs
    · next cpuSet hz =>
      split at hs <;> cases hs
      refine hi.of_gone rfl (fun c => ?_) rfl hi.front
      by_cases hc : cpuSet.containsCpu c
      · exact .inr ⟨if_pos hc, cpuSet, hz, hc⟩
      · exact .inl (if_neg hc)
    · cases hs
  | remove z =>
    obtain ⟨rfl, rfl⟩ := Prod.mk.inj (Except.ok.inj (Option.some.inj hs))
    exact hi.of_gone rfl (fun c => .inl rfl) rfl hi.front
  | clearEvents c =>
    obtain ⟨rfl, rfl⟩ := Prod.mk.inj (Except.ok.inj (Option.some.inj hs))
    refine hi.of_silent rfl rfl (fun c' h => ?_) hi.front
    simp only [Function.update_apply] at h
    split at h
    · exact absurd h (lt_irrefl 0)
    · exact h

/-- A step with room does not fail. -/
theorem step_not_panic (hi : IrqListsInv h s) {a : IrqAct} (hroom : HasRoom loongarch64 s a) :
    s.step loongarch64 a ≠ some (.error .panic) := by
  intro hs
  -- only the round and the handler can fail
  cases a with
  | round =>
    simp only [step] at hs
    split at hs
    · have hr := Option.some.inj hs
      -- a round with room ends in one of the two cases, and neither is an error
      rcases round_cases hi hroom with ⟨s₁, he, -⟩ | ⟨s₁, _, _, _, _, _, he, -⟩
      all_goals
        rw [he] at hr
        cases hr
    · cases hs
  | handle c =>
    simp only [step] at hs
    split at hs
    · next hcond =>
      -- an event waits only where an entry was made before
      obtain ⟨irqList, hc⟩ := Option.isSome_iff_exists.mp (hi.event c hcond.2)
      have hcount := hi.count c irqList hc
      have hr := Option.some.inj hs
      simp only [handleVirtioIrq, hc, if_neg (Nat.lt_asymm hcount)] at hr
      cases hr
    · cases hs
  | shutdown z =>
    simp only [step] at hs
    split at hs
    · split at hs <;> cases hs
    · cases hs
  | enter | backend | start | remove | clearEvents =>
    simp only [step] at hs
    first
    | cases hs
    | split at hs <;> cases hs

/-- **Recording is within bounds**: in every run whose rounds find room, no assertion and no index
fails in the next step that finds room, and every interrupt that was posted for a live zone is in
the list of its CPU until it is injected. -/
theorem virtioIrqs_recorded
    (r : ((virtioIrqs loongarch64).restrict fun s e => HasRoom loongarch64 s e.1).Run h s) :
    (∀ a, HasRoom loongarch64 s a → s.step loongarch64 a ≠ some (.error .panic)) ∧
    ∀ c irqId z, (c, irqId, z) ∈ pendingIrqs h →
      ∃ cpuSet, s.zones z = some cpuSet ∧ cpuSet.containsCpu c ∧ irqId ∈ s.listed c := by
  have hi : IrqListsInv h s := by
    refine r.invariant ?_ ?_
    · exact fun s hs => irqListsInv_init loongarch64 hs
    · rintro h s ⟨a, o⟩ s' - hi ⟨hroom, hs, hstart⟩
      exact irqListsInv_of_step hi hroom hs hstart
  exact ⟨fun a ha => step_not_panic hi ha, hi.pending⟩

/-- Nothing is recorded and no zone is there. -/
def noIrqs : IrqTables where
  resFront := 0
  resRear := 0
  resList := Vector.replicate MAX_REQ ⟨1, 10⟩
  zones _ := none
  irqs _ := none
  injecting := false
  events _ := 0

theorem noIrqs_init (loongarch64 : Bool) : (virtioIrqs loongarch64).init noIrqs :=
  ⟨by decide, by decide, rfl, fun _ => rfl, fun _ => rfl, fun _ => rfl⟩

/-- The zone 1 with the CPU 1 is started. -/
theorem noIrqs_mayStart (a : IrqAct) (ha : a = .start 1 ⟨3, 2#64⟩) :
    ∀ z cpuSet, a = .start z cpuSet → noIrqs.MayStart z cpuSet := by
  rintro z cpuSet rfl
  obtain ⟨rfl, rfl⟩ := IrqAct.start.inj ha
  refine ⟨rfl, by decide, fun z' cpuSet' hz => ?_⟩
  cases hz

/-- One result for a zone is recorded. -/
theorem virtioIrqs_recorded_one : ∃ s h, (virtioIrqs false).Run h s ∧
    pendingIrqs h = [(1, 10, 1)] ∧ 10 ∈ s.listed 1 := by
  have r₀ : ((virtioIrqs false).restrict fun s e => HasRoom false s e.1).Run [] noIrqs :=
    .start (noIrqs_init false)
  have r₁ := r₀.next (e := (IrqAct.start 1 ⟨3, 2#64⟩, IrqObs.silent))
    ⟨trivial, rfl, noIrqs_mayStart _ rfl⟩
  have r₂ := r₁.next (e := (IrqAct.backend 0 1 (Vector.replicate MAX_REQ ⟨1, 10⟩), IrqObs.silent))
    ⟨trivial, rfl, fun _ _ h => IrqAct.noConfusion h⟩
  have r₃ := r₂.next (e := (IrqAct.enter, IrqObs.silent))
    ⟨trivial, rfl, fun _ _ h => IrqAct.noConfusion h⟩
  have r₄ := r₃.next (e := (IrqAct.round, IrqObs.posted 1 10 1))
    ⟨fun _ _ _ _ _ _ => .inr (show 0 + 1 < MAX_DEVS by decide), rfl,
      fun _ _ h => IrqAct.noConfusion h⟩
  obtain ⟨_, -, -, hin⟩ := (virtioIrqs_recorded r₄).2 1 10 1 List.mem_cons_self
  exact ⟨_, _, r₄.of_restrict, rfl, hin⟩

/-- Four results with different interrupts. -/
def fourResults : Vector HvisorDeviceRes MAX_REQ :=
  (((Vector.replicate MAX_REQ ⟨1, 10⟩).set 1 ⟨1, 11⟩ (by decide)).set 2 ⟨1, 12⟩ (by decide)).set 3
    ⟨1, 13⟩ (by decide)

/-- Four interrupts are all that the backend ever posts, and the fourth fails the assertion. -/
theorem virtioIrqs_fourth_panics : ∃ h s, (virtioIrqs false).Run h s ∧
    (∃ ids : List Nat, ids.length ≤ MAX_DEVS ∧ ∀ e ∈ h, ∀ resFront resRear resList,
      e.1 = .backend resFront resRear resList → ∀ res ∈ resList.toList, res.irqId ∈ ids) ∧
    s.step false .round = some (.error .panic) := by
  have r₀ : (virtioIrqs false).Run [] noIrqs := .start (noIrqs_init false)
  have r₁ := r₀.next (e := (IrqAct.start 1 ⟨3, 2#64⟩, IrqObs.silent)) ⟨rfl, noIrqs_mayStart _ rfl⟩
  have r₂ := r₁.next (e := (IrqAct.backend 0 4 fourResults, IrqObs.silent))
    ⟨rfl, fun _ _ h => IrqAct.noConfusion h⟩
  have r₃ := r₂.next (e := (IrqAct.enter, IrqObs.silent))
    ⟨rfl, fun _ _ h => IrqAct.noConfusion h⟩
  have r₄ := r₃.next (e := (IrqAct.round, IrqObs.posted 1 10 1))
    ⟨rfl, fun _ _ h => IrqAct.noConfusion h⟩
  have r₅ := r₄.next (e := (IrqAct.round, IrqObs.posted 1 11 1))
    ⟨rfl, fun _ _ h => IrqAct.noConfusion h⟩
  have r₆ := r₅.next (e := (IrqAct.round, IrqObs.posted 1 12 1))
    ⟨rfl, fun _ _ h => IrqAct.noConfusion h⟩
  refine ⟨_, _, r₆, ⟨[10, 11, 12, 13], by decide, ?_⟩, rfl⟩
  intro e he resFront resRear resList hb
  simp only [List.mem_cons, List.not_mem_nil, or_false] at he
  rcases he with rfl | rfl | rfl | rfl | rfl | rfl
  case inr.inr.inr.inr.inl =>
    obtain ⟨-, -, rfl⟩ := IrqAct.backend.inj hb
    decide
  all_goals cases hb

/-- Without the workaround, a round that finds no room fails. -/
theorem step_panics_of_not_hasRoom (hi : IrqListsInv h s) (hlock : s.injecting = true)
    (hfull : ¬ HasRoom false s .round) : s.step false .round = some (.error .panic) := by
  -- a result for a live zone, whose interrupt is not in a list that has no room
  simp only [HasRoom, Classical.not_forall] at hfull
  obtain ⟨hne, hlt, cpuSet, c, hz, hc, hno⟩ := hfull
  simp only [Bool.false_eq_true, if_false, not_or] at hno
  simp only [step, hlock, if_true, IrqTables.round, if_neg hne, dif_pos hlt, hz, hc]
  rcases record_cases false s c s.resList[s.resFront].irqId s.resList[s.resFront].targetZone
      (entry_count false c hi.count) with
    ⟨s', irqList, he, -⟩ | ⟨he, -, -⟩
  -- recording cannot have succeeded: neither branch is open
  · exfalso
    have hcount := entry_count false c hi.count
    rw [record] at he
    rw [← valid_entry_false (s := s), length_valid (Nat.le_of_lt hcount)] at hno
    simp only [if_neg (Nat.lt_asymm hcount), if_neg hno.1, dif_neg hno.2] at he
    cases he
  · rw [he]

end

end Hvisor
