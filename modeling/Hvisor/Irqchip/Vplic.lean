import Hvisor.Config
import Hvisor.Cpu
import Hvisor.Lib.TransitionSystem

/-!
# The virtual PLIC

The interrupt controller of a zone on riscv64, from `plic/vplic.rs` and `plic/mod.rs`: the state,
the injection of interrupts and the accesses of the guest. Interrupts are numbered up to a maximum,
and a context is a mode of a hart; an index out of bounds panics, which `none` stands for. What a
call does to the physical PLIC, to the interrupt line of its CPU and to other CPUs is the list of
its outputs.

## Main definitions

* `ZoneHarts`, `VirtualPLIC`: the harts of a zone, and the controller
* `VirtualPLIC.injectIrq`, `VirtualPLIC.vplicEmulAccess`: the operations
* `vplicSystem`: the system of all calls, in any order and on any CPU
* `IsNext`: the answer that a claim should get

## Main results

* `getNextPending_isNext`: the search finds the interrupt of greatest priority
* `active_latch`, `pending_latch`: the events that set and clear the bits of an interrupt
* `vplic_claim_discipline`: claims, completions and injections of an interrupt take turns
-/

namespace Hvisor

/-! ## State -/

/-- The CPUs of a zone in order; the bitmap of a configuration names 64 at most. -/
structure ZoneHarts where
  cpus : List Nat
  bound : cpus.length ≤ 64

/-- The harts of a zone with the configuration. -/
def HvZoneConfig.harts (config : HvZoneConfig) : ZoneHarts where
  cpus := config.cpuList
  bound := (List.length_filter_le _ _).trans (List.length_range.le)

/-- `cpu_num * 2`: the machine-mode and the supervisor-mode context of each hart. -/
def ZoneHarts.numContexts (harts : ZoneHarts) : Nat := harts.cpus.length * 2

/-- The virtual PLIC of a zone. -/
structure VirtualPLIC (maxInterrupts : Nat) (harts : ZoneHarts) where
  hw : Vector Bool (maxInterrupts + 1)
  active : Vector Bool (maxInterrupts + 1)
  priority : Vector Nat (maxInterrupts + 1)
  pending : Vector Bool (maxInterrupts + 1)
  enable : Vector (Vector Bool (maxInterrupts + 1)) harts.numContexts
  threshold : Vector Nat harts.numContexts

/-- What a call does outside the controller. -/
inductive VplicOutput where
  | hostSetPriority (intrId priority : Nat)
  | hostSetEnableNum (pcontextId irq : Nat) (enable : Bool)
  | hostSetThreshold (pcontextId threshold : Nat)
  | hostComplete (pcontextId irq : Nat)
  /-- `hvip::set_vseip` or `hvip::clear_vseip` on the CPU that makes the call. -/
  | vseip (set : Bool)
  | sendEvent (cpu : Nat) (event : IpiEvent)
  deriving DecidableEq

/-- Write an element; the index is checked. -/
def setChecked {α : Type} {n : Nat} (v : Vector α n) (i : Nat) (x : α) : Option (Vector α n) :=
  if h : i < n then some (v.set i x) else none

@[simp]
theorem Vector.get_eq {α : Type} {n : Nat} (v : Vector α n) (i : Fin n) :
    v.get i = getElem v i.val i.isLt :=
  rfl

namespace VirtualPLIC

variable {maxInterrupts : Nat} {harts : ZoneHarts}

/-- No interrupt is enabled, pending or active. -/
def new (maxInterrupts : Nat) (harts : ZoneHarts) : VirtualPLIC maxInterrupts harts where
  hw := .replicate _ false
  active := .replicate _ false
  priority := .replicate _ 0
  pending := .replicate _ false
  enable := .replicate _ (.replicate _ false)
  threshold := .replicate _ 0

/-! ## Operations -/

variable (self : VirtualPLIC maxInterrupts harts)

/-- The interrupt may be handed to a context: pending, not active, and enabled there. -/
def claimable (context : Fin harts.numContexts) (irq : Fin (maxInterrupts + 1)) : Bool :=
  self.pending[irq] && !self.active[irq] && self.enable[context][irq]

/-- The loop of `vplic_get_next_pending`, with the greatest priority so far and its interrupt. -/
def nextPendingLoop (context : Fin harts.numContexts) :
    List (Fin (maxInterrupts + 1)) → Nat × Nat → Nat × Nat
  | [], best => best
  | irq :: irqs, (maxPrio, nextIrq) =>
    if self.claimable context irq && decide (maxPrio < self.priority[irq]) then
      nextPendingLoop context irqs (self.priority[irq], irq)
    else nextPendingLoop context irqs (maxPrio, nextIrq)

/-- The pending interrupt with the highest priority; 0 when there is none over the threshold. -/
def getNextPending (context : Nat) : Option Nat :=
  if h : context < harts.numContexts then
    let (maxPrio, nextIrq) :=
      self.nextPendingLoop ⟨context, h⟩ (List.finRange (maxInterrupts + 1)).tail (0, 0)
    some (if self.threshold[context] < maxPrio then nextIrq % 2 ^ 32 else 0)
  else none

/-- The context of the host for a context of the zone. -/
def vcontextToPcontext (harts : ZoneHarts) (vcontextId : Nat) : Option Nat :=
  harts.cpus[vcontextId / 2]?.map (· * 2 + 1)

/-- `vplic_update_hart_line` on CPU `cpu`: the line follows the state, or the CPU of the context is
told to look. -/
def updateHartLine (cpu vcontextId : Nat) : Option (List VplicOutput) := do
  let pcontextId ← vcontextToPcontext harts vcontextId
  if pcontextId / 2 = cpu then
    let irqId ← self.getNextPending vcontextId
    return [.vseip (irqId != 0)]
  else return [.sendEvent (pcontextId / 2) .UPDATE_HART_LINE]

/-- Update the lines of the supervisor-mode contexts that a test names. -/
def updateHartLines (cpu : Nat) (test : Fin harts.numContexts → Bool) :
    Option (List VplicOutput) :=
  ((List.finRange harts.numContexts).filter fun c => c.val % 2 != 0 && test c).foldlM
    (fun out c => (self.updateHartLine cpu c).map (out ++ ·)) []

/-- An interrupt is marked as one of hardware, or not; `none` is an index past the end. -/
def vplicSetHw (intrId : Nat) (hw : Bool) : Option (VirtualPLIC maxInterrupts harts) := do
  return { self with hw := ← setChecked self.hw intrId hw }

/-- `inject_irq` on CPU `cpu`. -/
def injectIrq (cpu vcontextId intrId : Nat) (hw : Bool) :
    Option (VirtualPLIC maxInterrupts harts × List VplicOutput) :=
  if h : intrId < maxInterrupts + 1 then
    if hw != self.hw[intrId] then some (self, [])
    else if !self.pending[intrId] then
      let self := { self with pending := self.pending.set intrId true }
      (if self.hw[intrId] then self.updateHartLine cpu vcontextId
        else self.updateHartLines cpu fun c =>
          self.enable[c][intrId] && decide (self.threshold[c] < self.priority[intrId])).map
        fun out => (self, out)
    else some (self, [])
  else none

/-- The interrupts of a word of bits, from `start` on. -/
def wordIrqs (maxInterrupts start : Nat) : List (Fin (maxInterrupts + 1)) :=
  (List.finRange (maxInterrupts + 1)).filter fun irq =>
    decide (start ≤ irq.val ∧ irq.val ≤ start + 31)

/-- The bits of some interrupts as a word. -/
def readWord (start : Nat) (bits : Vector Bool (maxInterrupts + 1)) : Nat :=
  (wordIrqs maxInterrupts start).foldl
    (fun word irq => word ||| bits[irq].toNat <<< (irq.val - start)) 0

/-- The loop of a write to a word of enable bits. -/
def writeEnables (cpu : Nat) (vcontextId : Fin harts.numContexts) (start value : Nat) :
    VirtualPLIC maxInterrupts harts → List (Fin (maxInterrupts + 1)) →
      Option (VirtualPLIC maxInterrupts harts × List VplicOutput)
  | self, [] => some (self, [])
  | self, irq :: irqs =>
    let irqEnable := value.testBit (irq.val - start)
    if self.enable[vcontextId][irq] == irqEnable then
      writeEnables cpu vcontextId start value self irqs
    else
      let self := { self with
        enable := self.enable.set vcontextId (self.enable[vcontextId].set irq irqEnable) }
      let out :=
        if self.hw[irq] then
          (vcontextToPcontext harts vcontextId).map fun pcontextId =>
            [.hostSetEnableNum pcontextId irq irqEnable]
        else self.updateHartLine cpu vcontextId
      out.bind fun out =>
        (writeEnables cpu vcontextId start value self irqs).map fun (self, out') =>
          (self, out ++ out')

/-- An enable bit of a context is written. -/
def setEnable (context : Fin harts.numContexts) (irq : Fin (maxInterrupts + 1))
    (irqEnable : Bool) : VirtualPLIC maxInterrupts harts :=
  { self with
    enable := self.enable.set context (self.enable[context].set irq irqEnable) }

/-- A context of supervisor mode, which is the only one that works. -/
def supervisor? (harts : ZoneHarts) (vcontextId : Nat) : Option (Fin harts.numContexts) :=
  if h : vcontextId < harts.numContexts then
    if vcontextId % 2 = 0 then none else some ⟨vcontextId, h⟩
  else none

/-- The answer of a call, the state after it and the outputs. -/
abbrev Answer (maxInterrupts : Nat) (harts : ZoneHarts) :=
  Option (Nat × VirtualPLIC maxInterrupts harts × List VplicOutput)

/-- An access to a priority. -/
def priorityAccess (cpu offset value : Nat) (isWrite : Bool) : Answer maxInterrupts harts :=
  let intrId := offset / 4
  if h : maxInterrupts < intrId ∨ intrId = 0 then some (0, self, [])
  else
    have hlt : intrId < maxInterrupts + 1 := by omega
    if isWrite then
      let self := { self with priority := self.priority.set intrId (value % 2 ^ 32) }
      (if self.hw[intrId] then some [.hostSetPriority intrId (value % 2 ^ 32)]
        else self.updateHartLines cpu fun c => self.enable[c][intrId]).map fun out => (0, self, out)
    else some (self.priority[intrId], self, [])

/-- An access to enable bits. -/
def enableAccess (cpu offset value : Nat) (isWrite : Bool) : Answer maxInterrupts harts :=
  match supervisor? harts ((offset - 0x2000) / 0x80) with
  | none => some (0, self, [])
  | some vcontextId =>
    let start := (offset - 0x2000) % 0x80 / 4 * 32
    if isWrite then
      (writeEnables cpu vcontextId start value self (wordIrqs maxInterrupts start)).map
        fun (self, out) => (0, self, out)
    else some (readWord start self.enable[vcontextId], self, [])

/-- An access to a threshold. -/
def thresholdAccess (cpu vcontextId value : Nat) (isWrite : Bool) : Answer maxInterrupts harts :=
  match supervisor? harts vcontextId with
  | none => some (0, self, [])
  | some vcontextId =>
    if isWrite then do
      let self := { self with threshold := self.threshold.set vcontextId (value % 2 ^ 32) }
      let pcontextId ← vcontextToPcontext harts vcontextId
      let out ← self.updateHartLine cpu vcontextId
      return (0, self, .hostSetThreshold pcontextId (value % 2 ^ 32) :: out)
    else some (self.threshold[vcontextId], self, [])

/-- A complete of a context. -/
def complete (cpu : Nat) (vcontextId : Fin harts.numContexts) (irqId : Nat) :
    Answer maxInterrupts harts := do
  let hw ← self.hw[irqId]?
  let hostOut ← (if hw then
      (vcontextToPcontext harts vcontextId).map fun pcontextId => [.hostComplete pcontextId irqId]
    else some [])
  let self := { self with active := ← setChecked self.active irqId false }
  let out ← self.updateHartLine cpu vcontextId
  return (0, self, hostOut ++ out)

/-- A claim of a context. -/
def claim (cpu : Nat) (vcontextId : Fin harts.numContexts) : Answer maxInterrupts harts := do
  let claimedIrq ← self.getNextPending vcontextId
  let self := { self with
    pending := ← setChecked self.pending claimedIrq false
    active := ← setChecked self.active claimedIrq true }
  let out ← self.updateHartLine cpu vcontextId
  return (claimedIrq, self, out)

/-- A claim or a completion. -/
def claimCompleteAccess (cpu vcontextId value : Nat) (isWrite : Bool) :
    Answer maxInterrupts harts :=
  match supervisor? harts vcontextId with
  | none => some (0, self, [])
  | some vcontextId =>
    if isWrite then self.complete cpu vcontextId value else self.claim cpu vcontextId

/-- `vplic_emul_access` on CPU `cpu`. -/
def vplicEmulAccess (cpu offset size value : Nat) (isWrite : Bool) : Answer maxInterrupts harts :=
  if size ≠ 4 ∨ offset % 4 ≠ 0 then some (0, self, [])
  else if 2 ^ 32 ≤ value then some (0, self, [])
  else if offset ≤ 0x0FFC then self.priorityAccess cpu offset value isWrite
  else if 0x1000 ≤ offset ∧ offset ≤ 0x107C then
    if isWrite then some (0, self, [])
    else some (readWord ((offset - 0x1000) / 4 * 32) self.pending, self, [])
  else if 0x2000 ≤ offset ∧ offset < 0x2000 + 0x80 * harts.numContexts then
    self.enableAccess cpu offset value isWrite
  else if 0x200000 ≤ offset ∧ (offset - 0x200000) % 0x1000 = 0 then
    self.thresholdAccess cpu ((offset - 0x200000) / 0x1000) value isWrite
  else if 0x200004 ≤ offset ∧ (offset - 0x200004) % 0x1000 = 0 then
    self.claimCompleteAccess cpu ((offset - 0x200004) / 0x1000) value isWrite
  else some (0, self, [])

/-! ## Runs -/

/-- What becomes of an injection: it is turned away, the interrupt is pending already, or it is
now. -/
inductive Injection where
  | refused
  | merged
  | pended
  deriving DecidableEq

/-- What becomes of an interrupt that is injected. -/
def injection (intrId : Nat) (hw : Bool) : Injection :=
  if self.hw[intrId]? = some hw then
    if self.pending[intrId]? = some true then .merged else .pended
  else .refused

end VirtualPLIC

open VirtualPLIC

/-- A call, with what became of it. -/
inductive VplicEvent where
  | setHw (intrId : Nat) (hw : Bool)
  | inject (cpu vcontextId intrId : Nat) (hw : Bool) (result : Injection)
  | access (cpu offset size value : Nat) (isWrite : Bool) (answer : Nat)

/-- A call that returns, with what the event says. -/
def vplicStep {maxInterrupts : Nat} {harts : ZoneHarts} (s : VirtualPLIC maxInterrupts harts) :
    VplicEvent → Option (VirtualPLIC maxInterrupts harts)
  | .setHw intrId hw => s.vplicSetHw intrId hw
  | .inject cpu vcontextId intrId hw result =>
    if result = s.injection intrId hw then (s.injectIrq cpu vcontextId intrId hw).map Prod.fst
    else none
  | .access cpu offset size value isWrite answer =>
    (s.vplicEmulAccess cpu offset size value isWrite).bind fun (answer', s', _) =>
      if answer = answer' then some s' else none

/-- The calls in any order, from a new controller on. -/
def vplicSystem (maxInterrupts : Nat) (harts : ZoneHarts) :
    TransitionSystem (VirtualPLIC maxInterrupts harts) VplicEvent :=
  .ofStep (· = new maxInterrupts harts) vplicStep

/-- A read of the claim register of a context. -/
def ClaimAccess (harts : ZoneHarts) (context : Fin harts.numContexts) (offset size value : Nat) :
    Prop :=
  context.val % 2 = 1 ∧ size = 4 ∧ value < 2 ^ 32 ∧ offset = 0x200004 + 0x1000 * context.val

/-- A context claims, and gets the interrupt. -/
def Claims (harts : ZoneHarts) (irq : Nat) : VplicEvent → Prop
  | .access _ offset size value false answer =>
    answer = irq ∧ ∃ context, ClaimAccess harts context offset size value
  | _ => False

/-- A context completes the interrupt. -/
def Completes (harts : ZoneHarts) (irq : Nat) : VplicEvent → Prop
  | .access _ offset size value true _ =>
    value = irq ∧ ∃ context, ClaimAccess harts context offset size value
  | _ => False

/-- An injection of the interrupt makes it pending. -/
def Pends (irq : Nat) : VplicEvent → Prop
  | .inject _ _ intrId _ .pended => intrId = irq
  | _ => False

/-- An injection of the interrupt is not turned away. -/
def AcceptsIrq (irq : Nat) : VplicEvent → Prop
  | .inject _ _ intrId _ result => intrId = irq ∧ result ≠ .refused
  | _ => False

/-- **The answer that a claim should get**: the claimable interrupt of greatest priority, the least
one among equals, when its priority is over the threshold, and 0 when there is none such. -/
def IsNext {maxInterrupts : Nat} {harts : ZoneHarts} (s : VirtualPLIC maxInterrupts harts)
    (context : Fin harts.numContexts) (answer : Nat) : Prop :=
  (∃ irq : Fin (maxInterrupts + 1), answer = irq ∧ irq.val ≠ 0 ∧ s.claimable context irq = true ∧
      s.threshold[context] < s.priority[irq] ∧
      ∀ irq', s.claimable context irq' = true →
        s.priority[irq'] < s.priority[irq] ∨ s.priority[irq'] = s.priority[irq] ∧ irq ≤ irq') ∨
    answer = 0 ∧ ∀ irq, s.claimable context irq = true → s.priority[irq] ≤ s.threshold[context]

/-! ## The search -/

namespace VirtualPLIC

variable {maxInterrupts : Nat} {harts : ZoneHarts} {s s' : VirtualPLIC maxInterrupts harts}
  {context : Fin harts.numContexts} {out : List VplicOutput} {cpu offset size value answer : Nat}
  {isWrite hw : Bool} {intrId irq : Nat}

/-- The loop keeps what it starts with unless a claimable interrupt exceeds it, and comes to the
first one of greatest priority otherwise. -/
theorem nextPendingLoop_cases (s : VirtualPLIC maxInterrupts harts)
    (context : Fin harts.numContexts)
    {l : List (Fin (maxInterrupts + 1))} (hl : l.Pairwise (· < ·)) (maxPrio nextIrq : Nat) :
    (s.nextPendingLoop context l (maxPrio, nextIrq) = (maxPrio, nextIrq) ∧
        ∀ irq ∈ l, s.claimable context irq = true → s.priority[irq] ≤ maxPrio) ∨
      ∃ irq ∈ l, s.nextPendingLoop context l (maxPrio, nextIrq) = (s.priority[irq], irq.val) ∧
        s.claimable context irq = true ∧ maxPrio < s.priority[irq] ∧
        ∀ irq' ∈ l, s.claimable context irq' = true →
          s.priority[irq'] < s.priority[irq] ∨ s.priority[irq'] = s.priority[irq] ∧ irq ≤ irq' := by
  induction hl generalizing maxPrio nextIrq with
  | nil => exact .inl ⟨rfl, nofun⟩
  | @cons irq l hlt _ ih =>
    rw [nextPendingLoop]
    split
    · next hc =>
      rw [Bool.and_eq_true, decide_eq_true_eq] at hc
      rcases ih s.priority[irq] irq with ⟨heq, hall⟩ | ⟨irq₁, hmem, heq, hc₁, hgt, hall⟩
      · -- no later interrupt has a greater priority
        refine .inr ⟨irq, List.mem_cons_self, heq, hc.1, hc.2, fun irq' hirq' hc' => ?_⟩
        rcases List.mem_cons.mp hirq' with rfl | hirq'
        · exact .inr ⟨rfl, Nat.le_refl _⟩
        · rcases (hall irq' hirq' hc').lt_or_eq with h | h
          · exact .inl h
          · exact .inr ⟨h, Nat.le_of_lt (hlt irq' hirq')⟩
      · refine .inr ⟨irq₁, List.mem_cons_of_mem _ hmem, heq, hc₁, hc.2.trans hgt,
          fun irq' hirq' hc' => ?_⟩
        rcases List.mem_cons.mp hirq' with rfl | hirq'
        · exact .inl hgt
        · exact hall irq' hirq' hc'
    · next hc =>
      have hle : s.claimable context irq = true → s.priority[irq] ≤ maxPrio := fun hcl => by
        simpa [hcl] using hc
      rcases ih maxPrio nextIrq with ⟨heq, hall⟩ | ⟨irq₁, hmem, heq, hc₁, hgt, hall⟩
      · exact .inl ⟨heq, List.forall_mem_cons.mpr ⟨hle, hall⟩⟩
      · refine .inr ⟨irq₁, List.mem_cons_of_mem _ hmem, heq, hc₁, hgt, ?_⟩
        exact List.forall_mem_cons.mpr ⟨fun hcl => .inl ((hle hcl).trans_lt hgt), hall⟩

/-- Only interrupts that have a priority register have a priority. -/
def PrioritiesInRange (s : VirtualPLIC maxInterrupts harts) : Prop :=
  ∀ irq : Fin (maxInterrupts + 1), s.priority[irq] ≠ 0 → irq.val ≠ 0 ∧ irq.val < 2 ^ 10

/-- **The search finds the interrupt of greatest priority.** -/
theorem getNextPending_isNext (context : Fin harts.numContexts) (hs : s.PrioritiesInRange) :
    ∃ answer, s.getNextPending context = some answer ∧ IsNext s context answer := by
  have hsorted : (List.finRange (maxInterrupts + 1)).tail.Pairwise (· < ·) :=
    (List.pairwise_lt_finRange _).tail
  have hmem : ∀ irq : Fin (maxInterrupts + 1), irq.val ≠ 0 →
      irq ∈ (List.finRange (maxInterrupts + 1)).tail := fun irq hne => by
    rw [List.finRange_succ, List.tail_cons]
    exact List.mem_map.mpr ⟨irq.pred fun h => hne (by rw [h]; rfl), List.mem_finRange _,
      Fin.succ_pred _ _⟩
  have hzero : ∀ irq : Fin (maxInterrupts + 1), irq.val = 0 → s.priority[irq] = 0 := fun irq h => by
    by_contra hne
    exact (hs irq hne).1 h
  simp only [getNextPending, context.isLt, dif_pos, Option.some.injEq, exists_eq_left']
  rcases nextPendingLoop_cases s context hsorted 0 0 with
    ⟨heq, hall⟩ | ⟨irq, hirq, heq, hc, hpos, hall⟩
  · rw [heq]
    refine .inr ⟨if_neg (Nat.not_lt_zero _), fun irq hc => ?_⟩
    by_cases h0 : irq.val = 0
    · rw [hzero irq h0]
      exact Nat.zero_le _
    · exact (hall irq (hmem irq h0) hc).trans (Nat.zero_le _)
  · rw [heq]
    obtain ⟨hne, hlt⟩ := hs irq hpos.ne'
    have hall' : ∀ irq', s.claimable context irq' = true →
        s.priority[irq'] < s.priority[irq] ∨ s.priority[irq'] = s.priority[irq] ∧ irq ≤ irq' := by
      intro irq' hc'
      by_cases h0 : irq'.val = 0
      · rw [hzero irq' h0]
        exact .inl hpos
      · exact hall irq' (hmem irq' h0) hc'
    by_cases hthr : s.threshold[context] < s.priority[irq]
    · refine .inl ⟨irq, ?_, hne, hc, hthr, hall'⟩
      exact (if_pos hthr).trans (Nat.mod_eq_of_lt (hlt.trans (by decide)))
    · refine .inr ⟨if_neg hthr, fun irq' hc' => ?_⟩
      rcases hall' irq' hc' with h | ⟨h, -⟩ <;> omega

/-! ## What a call changes -/

theorem setChecked_eq_some {α : Type} {n i : Nat} {v v' : Vector α n} {x : α}
    (h : setChecked v i x = some v') : ∃ hi : i < n, v' = v.set i x := by
  rw [setChecked] at h
  split at h
  · next hi =>
    cases h
    exact ⟨hi, rfl⟩
  · cases h

theorem vplicSetHw_eq_some (h : s.vplicSetHw intrId hw = some s') :
    s'.pending = s.pending ∧ s'.active = s.active ∧ s'.priority = s.priority := by
  obtain ⟨hw', -, h⟩ := Option.bind_eq_some_iff.mp h
  cases h
  exact ⟨rfl, rfl, rfl⟩

/-- An injection writes the pending bit, if it writes anything. -/
theorem injectIrq_eq_some {vcontextId : Nat}
    (h : s.injectIrq cpu vcontextId intrId hw = some (s', out)) :
    ∃ hi : intrId < maxInterrupts + 1,
      s' = if s.injection intrId hw = .pended then
          { s with pending := s.pending.set intrId true }
        else s := by
  rw [injectIrq] at h
  split at h
  · next hi =>
    refine ⟨hi, ?_⟩
    simp only [injection, Vector.getElem?_eq_getElem hi, Option.some.injEq]
    split at h
    · next hne =>
      cases h
      rw [bne_iff_ne] at hne
      rw [if_neg hne.symm, if_neg (by decide)]
    · next heq =>
      rw [bne_iff_ne, not_not] at heq
      rw [if_pos heq.symm]
      split at h
      · next hp =>
        obtain ⟨out', -, h⟩ := Option.map_eq_some_iff.mp h
        cases h
        rw [Bool.not_eq_true'] at hp
        rw [if_pos (by rw [hp]; rfl)]
      · next hp =>
        cases h
        rw [Bool.not_eq_true', Bool.not_eq_false] at hp
        rw [if_pos hp, if_neg (by decide)]
  · cases h

theorem writeEnables_eq_some {start : Nat} {l : List (Fin (maxInterrupts + 1))}
    (h : writeEnables cpu context start value s l = some (s', out)) :
    ∃ enable, s' = { s with enable } := by
  induction l generalizing s out with
  | nil =>
    cases h
    exact ⟨s'.enable, rfl⟩
  | cons irq l ih =>
    rw [writeEnables] at h
    split at h
    · exact ih h
    · obtain ⟨out₁, -, h⟩ := Option.bind_eq_some_iff.mp h
      obtain ⟨⟨s₁, out₂⟩, hrest, h⟩ := Option.map_eq_some_iff.mp h
      cases h
      obtain ⟨enable, rfl⟩ := ih hrest
      exact ⟨enable, rfl⟩

/-- An access of a priority leaves the priorities in range: it has an offset of one. -/
theorem priorityAccess_eq_some (hoff : offset ≤ 0x0FFC)
    (h : s.priorityAccess cpu offset value isWrite = some (answer, s', out)) :
    s'.pending = s.pending ∧ s'.active = s.active ∧
      (s.PrioritiesInRange → s'.PrioritiesInRange) := by
  rw [priorityAccess] at h
  split at h
  · cases h
    exact ⟨rfl, rfl, id⟩
  · next hid =>
    split at h
    · obtain ⟨out', -, h⟩ := Option.map_eq_some_iff.mp h
      cases h
      refine ⟨rfl, rfl, fun hs irq hne => ?_⟩
      by_cases hirq : offset / 4 = irq.val
      · exact ⟨by omega, by omega⟩
      · exact hs irq (by simpa [Vector.getElem_set, hirq] using hne)
    · cases h
      exact ⟨rfl, rfl, id⟩

theorem enableAccess_eq_some
    (h : s.enableAccess cpu offset value isWrite = some (answer, s', out)) :
    ∃ enable, s' = { s with enable } := by
  rw [enableAccess] at h
  split at h
  · cases h
    exact ⟨s.enable, rfl⟩
  · split at h
    · obtain ⟨⟨s₁, out₁⟩, hloop, h⟩ := Option.map_eq_some_iff.mp h
      cases h
      exact writeEnables_eq_some hloop
    · cases h
      exact ⟨s.enable, rfl⟩

theorem thresholdAccess_eq_some
    {vcontextId : Nat}
    (h : s.thresholdAccess cpu vcontextId value isWrite = some (answer, s', out)) :
    ∃ threshold, s' = { s with threshold } := by
  rw [thresholdAccess] at h
  split at h
  · cases h
    exact ⟨s.threshold, rfl⟩
  · split at h
    · obtain ⟨pcontextId, -, h⟩ := Option.bind_eq_some_iff.mp h
      obtain ⟨out₁, -, h⟩ := Option.bind_eq_some_iff.mp h
      cases h
      exact ⟨_, rfl⟩
    · cases h
      exact ⟨s.threshold, rfl⟩

theorem complete_eq_some (h : s.complete cpu context value = some (answer, s', out)) :
    ∃ hi : value < maxInterrupts + 1, s' = { s with active := s.active.set value false } := by
  obtain ⟨hw, -, h⟩ := Option.bind_eq_some_iff.mp h
  obtain ⟨hostOut, -, h⟩ := Option.bind_eq_some_iff.mp h
  obtain ⟨active, hset, h⟩ := Option.bind_eq_some_iff.mp h
  obtain ⟨out', -, h⟩ := Option.bind_eq_some_iff.mp h
  cases h
  obtain ⟨hi, rfl⟩ := setChecked_eq_some hset
  exact ⟨hi, rfl⟩

theorem claim_eq_some (h : s.claim cpu context = some (answer, s', out)) :
    s.getNextPending context = some answer ∧ ∃ hi : answer < maxInterrupts + 1,
      s' = { s with
        pending := s.pending.set answer false
        active := s.active.set answer true } := by
  obtain ⟨claimedIrq, hnext, h⟩ := Option.bind_eq_some_iff.mp h
  obtain ⟨pending, hpending, h⟩ := Option.bind_eq_some_iff.mp h
  obtain ⟨active, hactive, h⟩ := Option.bind_eq_some_iff.mp h
  obtain ⟨out', -, h⟩ := Option.bind_eq_some_iff.mp h
  cases h
  obtain ⟨hi, rfl⟩ := setChecked_eq_some hpending
  obtain ⟨-, rfl⟩ := setChecked_eq_some hactive
  exact ⟨hnext, hi, rfl⟩

/-! ## Which call an access is -/

theorem supervisor?_eq_some {vcontextId : Nat} :
    supervisor? harts vcontextId = some context ↔
      vcontextId = context.val ∧ context.val % 2 = 1 := by
  have hlt := context.isLt
  rw [supervisor?]
  split
  · split
    · refine iff_of_false nofun ?_
      rintro ⟨rfl, h⟩
      omega
    · rw [Option.some.injEq, Fin.ext_iff]
      constructor
      · rintro rfl
        exact ⟨rfl, by omega⟩
      · exact fun h => h.1
  · refine iff_of_false nofun ?_
    rintro ⟨rfl, -⟩
    omega

/-- The registers of the contexts end before the thresholds. -/
theorem numContexts_le (harts : ZoneHarts) : harts.numContexts ≤ 128 :=
  Nat.mul_le_mul_right 2 harts.bound

theorem vplicEmulAccess_claim (h : ClaimAccess harts context offset size value) :
    s.vplicEmulAccess cpu offset size value isWrite =
      if isWrite then s.complete cpu context value else s.claim cpu context := by
  obtain ⟨hodd, rfl, hvalue, rfl⟩ := h
  have hn := numContexts_le harts
  have hctx : supervisor? harts ((0x200004 + 0x1000 * context.val - 0x200004) / 0x1000) =
      some context := supervisor?_eq_some.mpr ⟨by omega, hodd⟩
  rw [vplicEmulAccess, if_neg (by omega), if_neg (by omega), if_neg (by omega), if_neg (by omega),
    if_neg (by omega), if_neg (by omega), if_pos (by omega), claimCompleteAccess, hctx]

/-- An access that is neither a claim nor a complete. -/
theorem vplicEmulAccess_other
    (h : s.vplicEmulAccess cpu offset size value isWrite = some (answer, s', out))
    (hne : ∀ context, ¬ ClaimAccess harts context offset size value) :
    s'.pending = s.pending ∧ s'.active = s.active ∧
      (s.PrioritiesInRange → s'.PrioritiesInRange) := by
  have hsame : s' = s → s'.pending = s.pending ∧ s'.active = s.active ∧
      (s.PrioritiesInRange → s'.PrioritiesInRange) := by
    rintro rfl
    exact ⟨rfl, rfl, id⟩
  rw [vplicEmulAccess] at h
  split at h
  · cases h
    exact hsame rfl
  next hsize =>
  split at h
  · cases h
    exact hsame rfl
  next hvalue =>
  split at h
  · next hoff => exact priorityAccess_eq_some hoff h
  split at h
  · split at h <;> cases h <;> exact hsame rfl
  split at h
  · obtain ⟨enable, rfl⟩ := enableAccess_eq_some h
    exact ⟨rfl, rfl, id⟩
  split at h
  · obtain ⟨threshold, rfl⟩ := thresholdAccess_eq_some h
    exact ⟨rfl, rfl, id⟩
  split at h
  · next hoff =>
    rw [claimCompleteAccess] at h
    split at h
    · cases h
      exact hsame rfl
    · next context hctx =>
      obtain ⟨hval, hodd⟩ := supervisor?_eq_some.mp hctx
      exact absurd ⟨hodd, by omega, by omega, by omega⟩ (hne context)
  · cases h
    exact hsame rfl

end VirtualPLIC

/-! ## Claims, completions and injections -/

section Discipline

variable {maxInterrupts : Nat} {harts : ZoneHarts} {s s' : VirtualPLIC maxInterrupts harts}
  {e : VplicEvent} {h : List VplicEvent} {irq : Nat}

/-- What a step does to the pending and active bits of an interrupt. -/
structure StepOf (s s' : VirtualPLIC maxInterrupts harts) (e : VplicEvent) (irq : Nat) : Prop where
  pends : Pends irq e → s'.pending[irq]? = some true
  merges : AcceptsIrq irq e → s'.pending[irq]? = some true
  claims : Claims harts irq e → s'.pending[irq]? = some false ∧ s'.active[irq]? = some true
  completes : Completes harts irq e → s'.active[irq]? = some false
  pending : ¬ Pends irq e → ¬ Claims harts irq e → s'.pending[irq]? = s.pending[irq]?
  active : ¬ Claims harts irq e → ¬ Completes harts irq e → s'.active[irq]? = s.active[irq]?

/-- A call that changes neither the pending nor the active bits. -/
theorem StepOf.of_eq (hp : s'.pending = s.pending) (ha : s'.active = s.active)
    (hpends : ¬ Pends irq e) (haccepts : ¬ AcceptsIrq irq e) (hclaims : ¬ Claims harts irq e)
    (hcompletes : ¬ Completes harts irq e) : StepOf s s' e irq where
  pends h := absurd h hpends
  merges h := absurd h haccepts
  claims h := absurd h hclaims
  completes h := absurd h hcompletes
  pending _ _ := by rw [hp]
  active _ _ := by rw [ha]

theorem stepOf_inject {cpu vcontextId intrId : Nat} {hw : Bool} {out : List VplicOutput}
    (hs : s.injectIrq cpu vcontextId intrId hw = some (s', out)) :
    StepOf s s' (.inject cpu vcontextId intrId hw (s.injection intrId hw)) irq := by
  obtain ⟨hi, rfl⟩ := injectIrq_eq_some hs
  cases hres : s.injection intrId hw with
  | refused =>
    rw [if_neg (by decide)]
    exact .of_eq rfl rfl id (fun h => h.2 rfl) id id
  | merged =>
    rw [if_neg (by decide)]
    refine ⟨nofun, ?_, nofun, nofun, fun _ _ => rfl, fun _ _ => rfl⟩
    rintro ⟨rfl, -⟩
    rw [injection] at hres
    split at hres
    · split at hres
      · assumption
      · cases hres
    · cases hres
  | pended =>
    rw [if_pos rfl]
    have hset : intrId = irq → (s.pending.set intrId true)[irq]? = some true := by
      rintro rfl
      simp [hi]
    refine ⟨hset, fun h => hset h.1, nofun, nofun, fun hne _ => ?_, fun _ _ => rfl⟩
    have hne : intrId ≠ irq := hne
    simp [hne]

theorem stepOf_access {cpu offset size value answer : Nat} {isWrite : Bool} {out : List VplicOutput}
    (hs : s.vplicEmulAccess cpu offset size value isWrite = some (answer, s', out)) :
    StepOf s s' (.access cpu offset size value isWrite answer) irq := by
  by_cases hclaim : ∃ context, ClaimAccess harts context offset size value
  · obtain ⟨context, hctx⟩ := hclaim
    rw [vplicEmulAccess_claim hctx] at hs
    cases isWrite with
    | true =>
      obtain ⟨hi, rfl⟩ := complete_eq_some hs
      refine ⟨nofun, nofun, nofun, ?_, fun _ _ => rfl, fun _ hne => ?_⟩
      · rintro ⟨rfl, -⟩
        simp [hi]
      · have hne : value ≠ irq := fun he => hne ⟨he, context, hctx⟩
        simp [hne]
    | false =>
      obtain ⟨-, hi, rfl⟩ := claim_eq_some hs
      refine ⟨nofun, nofun, ?_, nofun, fun _ hne => ?_, fun hne _ => ?_⟩
      · rintro ⟨rfl, -⟩
        simp [hi]
      · have hne : answer ≠ irq := fun he => hne ⟨he, context, hctx⟩
        simp [hne]
      · have hne : answer ≠ irq := fun he => hne ⟨he, context, hctx⟩
        simp [hne]
  · have hne : ∀ context, ¬ ClaimAccess harts context offset size value :=
      fun context hctx => hclaim ⟨context, hctx⟩
    obtain ⟨hp, ha, -⟩ := vplicEmulAccess_other hs hne
    refine .of_eq hp ha nofun nofun ?_ ?_
    · cases isWrite with
      | true => exact nofun
      | false => exact fun h => hclaim h.2
    · cases isWrite with
      | true => exact fun h => hclaim h.2
      | false => exact nofun

theorem vplicStep_inject {cpu vcontextId intrId : Nat} {hw : Bool} {result : Injection}
    (hs : vplicStep s (.inject cpu vcontextId intrId hw result) = some s') :
    result = s.injection intrId hw ∧
      ∃ out, s.injectIrq cpu vcontextId intrId hw = some (s', out) := by
  rw [vplicStep] at hs
  split at hs
  · next hres =>
    obtain ⟨⟨s₁, out⟩, hcall, rfl⟩ := Option.map_eq_some_iff.mp hs
    exact ⟨hres, out, hcall⟩
  · cases hs

theorem vplicStep_access {cpu offset size value answer : Nat} {isWrite : Bool}
    (hs : vplicStep s (.access cpu offset size value isWrite answer) = some s') :
    ∃ out, s.vplicEmulAccess cpu offset size value isWrite = some (answer, s', out) := by
  obtain ⟨⟨answer', s₁, out⟩, hcall, hs⟩ := Option.bind_eq_some_iff.mp hs
  rw [Option.ite_none_right_eq_some] at hs
  obtain ⟨rfl, hs⟩ := hs
  cases hs
  exact ⟨out, hcall⟩

/-- **What a step does** to the bits of an interrupt. -/
theorem stepOf_step (hs : (vplicSystem maxInterrupts harts).step s e s') : StepOf s s' e irq := by
  cases e with
  | setHw intrId hw =>
    obtain ⟨hp, ha, -⟩ := vplicSetHw_eq_some hs
    exact .of_eq hp ha id id id id
  | inject cpu vcontextId intrId hw result =>
    obtain ⟨rfl, out, hs⟩ := vplicStep_inject hs
    exact stepOf_inject hs
  | access cpu offset size value isWrite answer =>
    obtain ⟨out, hs⟩ := vplicStep_access hs
    exact stepOf_access hs

/-- The pending bit is set by an injection and cleared by a claim. -/
theorem pending_latch (irq : Nat) : (vplicSystem maxInterrupts harts).Latch
    (fun s => s.pending[irq]? == some true) (Pends irq) (Claims harts irq) where
  set hs he := by rw [(stepOf_step hs).pends he]; rfl
  clear hs he := by rw [((stepOf_step hs).claims he).1]; rfl
  keep hs hset hclear := by rw [(stepOf_step hs).pending hset hclear]

theorem pends_accepts (he : Pends irq e) : AcceptsIrq irq e := by
  cases e with
  | inject cpu vcontextId intrId hw result =>
    cases result with
    | pended => exact ⟨he, by decide⟩
    | refused | merged => exact absurd he id
  | setHw | access => exact absurd he id

/-- The pending bit is set after an injection that is accepted, also when it was before. -/
theorem accepted_latch (irq : Nat) : (vplicSystem maxInterrupts harts).Latch
    (fun s => s.pending[irq]? == some true) (AcceptsIrq irq) (Claims harts irq) where
  set hs he := by rw [(stepOf_step hs).merges he]; rfl
  clear hs he := by rw [((stepOf_step hs).claims he).1]; rfl
  keep hs hset hclear := by rw [(stepOf_step hs).pending (fun he => hset (pends_accepts he)) hclear]

/-- The active bit is set by a claim and cleared by a completion. -/
theorem active_latch (irq : Nat) : (vplicSystem maxInterrupts harts).Latch
    (fun s => s.active[irq]? == some true) (Claims harts irq) (Completes harts irq) where
  set hs he := by rw [((stepOf_step hs).claims he).2]; rfl
  clear hs he := by rw [(stepOf_step hs).completes he]; rfl
  keep hs hset hclear := by rw [(stepOf_step hs).active hset hclear]

theorem prioritiesInRange_of_step (hs : (vplicSystem maxInterrupts harts).step s e s')
    (h : s.PrioritiesInRange) : s'.PrioritiesInRange := by
  cases e with
  | setHw intrId hw =>
    obtain ⟨-, -, hprio⟩ := vplicSetHw_eq_some hs
    rwa [PrioritiesInRange, hprio]
  | inject cpu vcontextId intrId hw result =>
    obtain ⟨-, out, hs⟩ := vplicStep_inject hs
    obtain ⟨hi, rfl⟩ := injectIrq_eq_some hs
    split <;> exact h
  | access cpu offset size value isWrite answer =>
    obtain ⟨out, hs⟩ := vplicStep_access hs
    by_cases hclaim : ∃ context, ClaimAccess harts context offset size value
    · obtain ⟨context, hctx⟩ := hclaim
      rw [vplicEmulAccess_claim hctx] at hs
      cases isWrite with
      | true =>
        obtain ⟨hi, rfl⟩ := complete_eq_some hs
        exact h
      | false =>
        obtain ⟨-, hi, rfl⟩ := claim_eq_some hs
        exact h
    · exact (vplicEmulAccess_other hs fun context hctx => hclaim ⟨context, hctx⟩).2.2 h

theorem prioritiesInRange_of_run (r : (vplicSystem maxInterrupts harts).Run h s) :
    s.PrioritiesInRange := by
  refine r.invariant (I := fun _ s => s.PrioritiesInRange) ?_ ?_
  · rintro _ rfl irq hne
    simp [new] at hne
  · exact fun _ _ _ _ _ hI hs => prioritiesInRange_of_step hs hI

/-- A claim gets a pending interrupt that is not active, or none. -/
theorem claimable_of_claims (hs : (vplicSystem maxInterrupts harts).step s e s')
    (hrange : s.PrioritiesInRange) (he : Claims harts irq e) (h0 : irq ≠ 0) :
    s.pending[irq]? = some true ∧ s.active[irq]? = some false := by
  cases e with
  | setHw intrId hw => exact absurd he id
  | inject cpu vcontextId intrId hw result => exact absurd he id
  | access cpu offset size value isWrite answer =>
    obtain ⟨out, hs⟩ := vplicStep_access hs
    cases isWrite with
    | true => exact absurd he id
    | false =>
      obtain ⟨rfl, context, hctx⟩ := he
      rw [vplicEmulAccess_claim hctx] at hs
      obtain ⟨hnext, -⟩ := claim_eq_some hs
      obtain ⟨answer', hnext', hisNext⟩ := getNextPending_isNext context hrange
      obtain rfl : answer = answer' := Option.some.inj (hnext.symm.trans hnext')
      rcases hisNext with ⟨irq, rfl, -, hc, -⟩ | ⟨rfl, -⟩
      · simp only [claimable, Bool.and_eq_true, Bool.not_eq_true'] at hc
        obtain ⟨⟨hp, ha⟩, -⟩ := hc
        rw [Vector.getElem?_eq_getElem irq.isLt, Vector.getElem?_eq_getElem irq.isLt]
        exact ⟨congrArg some hp, congrArg some ha⟩
      · exact absurd rfl h0

/-- Updating the line of a context of the zone returns. -/
theorem exists_updateHartLine (cpu : Nat) (context : Fin harts.numContexts) :
    ∃ out, s.updateHartLine cpu context = some out := by
  have hcpu : context.val / 2 < harts.cpus.length := by
    have := context.isLt
    simp only [ZoneHarts.numContexts] at this
    omega
  rw [updateHartLine, vcontextToPcontext, List.getElem?_eq_getElem hcpu]
  simp only [Option.map_some, Option.bind_eq_bind, Option.bind_some]
  split
  · simp [getNextPending, context.isLt]
  · exact ⟨_, rfl⟩

/-- A claim returns with the interrupt that the search finds. -/
theorem claim_of_next (cpu : Nat) {context : Fin harts.numContexts} {answer : Nat}
    (hnext : s.getNextPending context = some answer)
    (hlt : answer < maxInterrupts + 1) :
    ∃ s' out, s.claim cpu context = some (answer, s', out) := by
  let claimed : VirtualPLIC maxInterrupts harts := { s with
    pending := s.pending.set answer false
    active := s.active.set answer true }
  obtain ⟨out, hout⟩ := exists_updateHartLine (s := claimed) cpu context
  refine ⟨claimed, out, ?_⟩
  simp only [claim, hnext, setChecked, dif_pos hlt, Option.bind_eq_bind, Option.bind_some,
    Option.pure_def]
  rw [hout, Option.bind_some]

/-- A claim returns, and its answer is the one that it should get. -/
theorem exists_claim (hrange : s.PrioritiesInRange) (cpu : Nat) (context : Fin harts.numContexts) :
    ∃ answer s' out, s.claim cpu context = some (answer, s', out) ∧ IsNext s context answer := by
  obtain ⟨answer, hnext, hisNext⟩ := getNextPending_isNext context hrange
  have hlt : answer < maxInterrupts + 1 := by
    rcases hisNext with ⟨irq, rfl, -⟩ | ⟨rfl, -⟩
    · exact irq.isLt
    · exact Nat.succ_pos _
  obtain ⟨s', out, h⟩ := claim_of_next cpu hnext hlt
  exact ⟨answer, s', out, h, hisNext⟩

/-- **The claim discipline of the virtual PLIC.** After any calls in any order, a claim gets the
answer that it should; between two claims that get the same interrupt it was completed and an
injection made it pending; and an interrupt whose injection was accepted is pending until a claim
gets it. -/
theorem vplic_claim_discipline (maxInterrupts : Nat) (harts : ZoneHarts) {h : List VplicEvent}
    {s : VirtualPLIC maxInterrupts harts} (r : (vplicSystem maxInterrupts harts).Run h s) :
    (∀ cpu context offset size value, ClaimAccess harts context offset size value →
      ∃ answer s' out, s.vplicEmulAccess cpu offset size value false = some (answer, s', out) ∧
        IsNext s context answer) ∧
    (∀ l₁ l₂ l₃ e₁ e₂ irq, h = l₁ ++ e₂ :: (l₂ ++ e₁ :: l₃) → irq ≠ 0 → Claims harts irq e₁ →
      Claims harts irq e₂ → (∃ e ∈ l₂, Completes harts irq e) ∧ ∃ e ∈ l₂, Pends irq e) ∧
    (∀ l₁ l₂ e irq, h = l₁ ++ e :: l₂ → AcceptsIrq irq e → (∀ e' ∈ l₁, ¬ Claims harts irq e') →
      s.pending[irq]? = some true) := by
  refine ⟨fun cpu context offset size value hctx => ?_, fun l₁ l₂ l₃ e₁ e₂ irq hh h0 he₁ he₂ => ?_,
    fun l₁ l₂ e irq hh he hno => ?_⟩
  · rw [vplicEmulAccess_claim hctx, if_neg (by decide)]
    exact exists_claim (prioritiesInRange_of_run r) cpu context
  · obtain ⟨s₁, s₂, r₁, hs⟩ := r.split hh
    obtain ⟨hp, ha⟩ := claimable_of_claims hs (prioritiesInRange_of_run r₁) he₂ h0
    constructor
    · -- the interrupt would still be active
      by_contra hno
      push Not at hno
      have hact := r₁.latched (active_latch irq) rfl he₁ hno
      rw [ha] at hact
      cases hact
    · -- the interrupt would not be pending
      by_contra hno
      push Not at hno
      have hpend := r₁.latched (pending_latch irq).not rfl he₁ hno
      rw [hp] at hpend
      cases hpend
  · have hpend := r.latched (accepted_latch irq) hh he hno
    exact eq_of_beq hpend

/-- Two harts. -/
def twoHarts : ZoneHarts := ⟨[2, 3], by decide⟩

/-- Interrupt 1 gets a priority and is enabled for the second hart, which claims it twice: what
happens between the claims. -/
def betweenClaims : List VplicEvent :=
  [.inject 2 1 1 false .pended, .access 3 0x203004 4 1 true 0]

theorem vplic_claim_discipline_twice :
    (∃ e ∈ betweenClaims, Completes twoHarts 1 e) ∧ ∃ e ∈ betweenClaims, Pends 1 e := by
  let claim : VplicEvent := .access 3 0x203004 4 0 false 1
  let before : List VplicEvent :=
    [.inject 2 1 1 false .pended, .access 3 0x2180 4 2 true 0, .access 2 4 4 7 true 0]
  obtain ⟨s, hs⟩ : ∃ s, TransitionSystem.exec vplicStep (fun _ _ => true)
      (claim :: (betweenClaims ++ claim :: before)).reverse (new 3 twoHarts) = some s :=
    Option.isSome_iff_exists.mp (by decide +kernel)
  have hrun : (vplicSystem 3 twoHarts).Run (claim :: (betweenClaims ++ claim :: before)) s := by
    have := TransitionSystem.Run.exec vplicStep (fun _ _ => true)
      (fun _ _ _ _ h => h) (.start rfl : (vplicSystem 3 twoHarts).Run [] _) hs
    rwa [List.reverse_reverse, List.append_nil] at this
  have hclaims : Claims twoHarts 1 claim :=
    ⟨rfl, ⟨3, by decide⟩, by decide, rfl, by decide, rfl⟩
  exact (vplic_claim_discipline 3 twoHarts hrun).2.1 [] betweenClaims before claim claim 1 rfl
    (by decide) hclaims hclaims

end Discipline

end Hvisor
