import Hvisor.Irqchip.SpiRouting
import Mathlib.Data.Set.Basic

/-!
# List registers

The virtual interrupts of a CPU, from `gicv3/mod.rs`. An interrupt that is injected goes to a free
list register, from which the guest takes it; while no register is free it waits in the CPU's queue
of `PENDING_VIRQS`, which the maintenance interrupt moves to the registers. A tag goes along with
each interrupt, of a type that the functions know nothing of.

## Main definitions

* `VirtIface`: the registers of the virtual interface of a CPU, and its queue
* `VirtIface.injectIrq`, `VirtIface.handleMaintenaceInterrupt`, `VirtIface.gicv3HandleIrq`: what the
  hypervisor does with an interrupt
* `VirtIface.acknowledge`, `VirtIface.deactivate`: what a guest does with a list register
* `VirtIface.Waits`: an interrupt with a tag waits or is active
* `VirtIface.Adds`: what waits afterwards, and what stays

## Main results

* `VirtIface.adds_gicv3HandleIrq`: the handling of an interrupt adds no other interrupt
-/

namespace Hvisor

/-- The underflow interrupt is enabled. -/
def ICH_HCR_UIE : BitVec 64 := 1 <<< 1

/-- The interrupt is a software one. -/
def isSgi (irqn : Nat) : Bool := decide (irqn < 16)

/-- A virtual interrupt to be injected, with a tag. -/
structure Virq (ι : Type*) where
  irqId : Nat
  isHardware : Bool
  tag : ι

/-- The registers of a CPU for virtual interrupts, and its queue in `PENDING_VIRQS`; with the tag of
what was written to each list register. -/
structure VirtIface (ι : Type*) where
  vtr : BitVec 64
  hcr : BitVec 64
  lr : Nat → BitVec 64
  lrTag : Nat → ι
  pendingVirqs : List (Virq ι)

/-- The value of a list register says that its interrupt is pending or active. -/
def lrValid (val : BitVec 64) : Bool := val.getLsbD 62 || val.getLsbD 63

/-- What the loop of `inject_irq` finds: the interrupt, or the first free list register, if any. -/
inductive LrScan where
  | listed
  | unlisted (freeIr : Option Nat)

namespace VirtIface

variable {ι : Type*}

/-- After `gicc_init`, with `gicv3_clear_pending_irqs`. -/
def giccInit (vtr : BitVec 64) (tag : ι) : VirtIface ι where
  vtr := vtr
  hcr := 1
  lr _ := 0
  lrTag _ := tag
  pendingVirqs := []

/-- The number of list registers. -/
def lrNum (v : VirtIface ι) : Nat := (v.vtr &&& 0xf).toNat + 1

/-- A bit of `ICH_ELRSR_EL2`: the list register has no valid interrupt, and no end of one to
signal. -/
def elrsr (v : VirtIface ι) (i : Nat) : Bool :=
  !lrValid (v.lr i) && ((v.lr i).getLsbD 61 || !(v.lr i).getLsbD 41)

/-- A list register is written. -/
def writeLr (v : VirtIface ι) (i : Nat) (val : BitVec 64) (tag : ι) : VirtIface ι :=
  { v with lr := Function.update v.lr i val, lrTag := Function.update v.lrTag i tag }

/-- The interrupt waits in the queue. -/
def addIrq (v : VirtIface ι) (virq : Virq ι) : VirtIface ι :=
  { v with pendingVirqs := v.pendingVirqs ++ [virq] }

/-- The underflow interrupt is enabled or disabled. -/
def enableMaintenaceInterrupt (v : VirtIface ι) (isEnable : Bool) : VirtIface ι :=
  { v with hcr := if isEnable then v.hcr ||| ICH_HCR_UIE else v.hcr &&& ~~~ICH_HCR_UIE }

/-- The loop of `inject_irq` over list registers, with the first free one so far. -/
def scan (v : VirtIface ι) (irqId : Nat) : List Nat → Option Nat → LrScan
  | [], freeIr => .unlisted freeIr
  | i :: l, freeIr =>
    if v.elrsr i then v.scan irqId l (freeIr.or (some i))
    else if (v.lr i).toNat % 2 ^ 32 = irqId then .listed
    else v.scan irqId l freeIr

/-- The value of a list register for an interrupt: pending, of group 1. -/
def lrValue (irqId : Nat) (isHardware : Bool) : BitVec 64 :=
  let val := BitVec.ofNat 64 irqId ||| 1 <<< 60 ||| 1 <<< 62
  if !isSgi (irqId % 2 ^ 32) && isHardware then val ||| 1 <<< 61 ||| BitVec.ofNat 64 irqId <<< 32
  else val

/-- `inject_irq`: whether the interrupt need not be added to the queue. -/
def injectIrq (v : VirtIface ι) (virq : Virq ι) : VirtIface ι × Bool :=
  match v.scan virq.irqId (List.range v.lrNum) none with
  | .listed => (v, true)
  | .unlisted none => ((v.addIrq virq).enableMaintenaceInterrupt true, false)
  | .unlisted (some i) => (v.writeLr i (lrValue virq.irqId virq.isHardware) virq.tag, true)

/-- The loop of `handle_maintenace_interrupt`, over the interrupts in the queue. -/
def drain (v : VirtIface ι) : List (Virq ι) → VirtIface ι
  | [] => v.enableMaintenaceInterrupt false
  | virq :: virqs =>
    match { v with pendingVirqs := virqs }.injectIrq virq with
    | (v, true) => v.drain virqs
    -- the interrupt is added again, after `inject_irq` has added it
    | (v, false) => (v.addIrq virq).enableMaintenaceInterrupt true

/-- The handler of the underflow interrupt. -/
def handleMaintenaceInterrupt (v : VirtIface ι) : VirtIface ι := v.drain v.pendingVirqs

/-- `gicv3_handle_irq_el1` with one interrupt, of which `check_events` handles none. -/
def gicv3HandleIrq (v : VirtIface ι) (irqId : Nat) (tag : ι) : VirtIface ι :=
  if irqId < 8 then (v.injectIrq ⟨irqId, false, tag⟩).1
  else if irqId < 16 then v
  else if irqId = MAINTENACE_INTERRUPT then v.handleMaintenaceInterrupt
  else (v.injectIrq ⟨irqId, true, tag⟩).1

/-- The guest acknowledges the pending interrupt of a list register, which becomes active. -/
def acknowledge (v : VirtIface ι) (i : Nat) : Option (VirtIface ι) :=
  if i < v.lrNum ∧ (v.lr i).getLsbD 62 then
    some { v with lr := Function.update v.lr i ((v.lr i &&& ~~~(1#64 <<< 62)) ||| 1#64 <<< 63) }
  else none

/-- The guest deactivates the active interrupt of a list register. -/
def deactivate (v : VirtIface ι) (i : Nat) : Option (VirtIface ι) :=
  if i < v.lrNum ∧ (v.lr i).getLsbD 63 then
    some { v with lr := Function.update v.lr i (v.lr i &&& ~~~(1#64 <<< 63)) }
  else none

/-- An interrupt with the tag is valid in a list register, or in the queue. -/
def Waits (v : VirtIface ι) (tag : ι) : Prop :=
  (∃ i < v.lrNum, lrValid (v.lr i) = true ∧ v.lrTag i = tag) ∨
    ∃ virq ∈ v.pendingVirqs, virq.tag = tag

/-- No list register is valid, and the queue is empty. -/
def Clear (v : VirtIface ι) : Prop :=
  (∀ i < v.lrNum, lrValid (v.lr i) = false) ∧ v.pendingVirqs = []

instance (v : VirtIface ι) : Decidable v.Clear :=
  inferInstanceAs (Decidable ((∀ i < v.lrNum, lrValid (v.lr i) = false) ∧ v.pendingVirqs = []))

/-! ## What an interrupt adds -/

variable {v v' w : VirtIface ι} {i irqId : Nat} {virq : Virq ι} {tag : ι} {tags tags' : Set ι}

/-- What waits afterwards waited before or has one of the tags, and valid list registers stay. -/
structure Adds (v v' : VirtIface ι) (tags : Set ι) : Prop where
  vtr : v'.vtr = v.vtr
  waits : ∀ tag, v'.Waits tag → v.Waits tag ∨ tag ∈ tags
  kept : ∀ i, lrValid (v.lr i) = true → v'.lr i = v.lr i ∧ v'.lrTag i = v.lrTag i

theorem Adds.refl (v : VirtIface ι) (tags : Set ι) : Adds v v tags :=
  ⟨rfl, fun _ => .inl, fun _ _ => ⟨rfl, rfl⟩⟩

theorem Adds.trans (h : Adds v v' tags) (h' : Adds v' w tags') : Adds v w (tags ∪ tags') := by
  refine ⟨h'.vtr.trans h.vtr, fun tag hw => ?_, fun i hi => ?_⟩
  · rcases h'.waits tag hw with hw | hw
    · exact (h.waits tag hw).imp_right .inl
    · exact .inr (.inr hw)
  · obtain ⟨hlr, htag⟩ := h.kept i hi
    obtain ⟨hlr', htag'⟩ := h'.kept i (hlr ▸ hi)
    exact ⟨hlr'.trans hlr, htag'.trans htag⟩

/-- Tags that wait already are not added. -/
theorem Adds.absorb (h : Adds v v' tags) (htags : ∀ tag ∈ tags, v.Waits tag ∨ tag ∈ tags') :
    Adds v v' tags' :=
  ⟨h.vtr, fun tag hw => (h.waits tag hw).elim .inl (htags tag), h.kept⟩

theorem adds_enableMaintenaceInterrupt (v : VirtIface ι) (isEnable : Bool) (tags : Set ι) :
    Adds v (v.enableMaintenaceInterrupt isEnable) tags :=
  ⟨rfl, fun _ => .inl, fun _ _ => ⟨rfl, rfl⟩⟩

theorem adds_addIrq (v : VirtIface ι) (virq : Virq ι) : Adds v (v.addIrq virq) {virq.tag} := by
  refine ⟨rfl, fun tag hw => ?_, fun _ _ => ⟨rfl, rfl⟩⟩
  rcases hw with hlr | ⟨q, hq, rfl⟩
  · exact .inl (.inl hlr)
  · rcases List.mem_append.mp hq with hq | hq
    · exact .inl (.inr ⟨q, hq, rfl⟩)
    · exact .inr (congrArg Virq.tag (List.mem_singleton.mp hq))

theorem lrValid_of_elrsr (h : v.elrsr i = true) : lrValid (v.lr i) = false := by
  rw [elrsr, Bool.and_eq_true, Bool.not_eq_true'] at h
  exact h.1

theorem adds_writeLr (hi : v.elrsr i = true) (val : BitVec 64) (tag : ι) :
    Adds v (v.writeLr i val tag) {tag} := by
  refine ⟨rfl, fun tag' hw => ?_, fun j hj => ?_⟩
  · rcases hw with ⟨j, hlt, hj, htag⟩ | hq
    · by_cases hji : j = i
      · subst hji
        exact .inr (htag.symm.trans (Function.update_self _ _ _))
      · simp only [writeLr, Function.update_of_ne hji] at hj htag
        exact .inl (.inl ⟨j, hlt, hj, htag⟩)
    · exact .inl (.inr hq)
  · -- a valid list register is not the free one
    have hji : j ≠ i := by
      rintro rfl
      rw [lrValid_of_elrsr hi] at hj
      cases hj
    exact ⟨Function.update_of_ne hji _ _, Function.update_of_ne hji _ _⟩

/-- The list register that the loop finds is free. -/
theorem elrsr_of_scan {l : List Nat} {freeIr : Option Nat}
    (h : v.scan irqId l freeIr = .unlisted (some i)) : freeIr = some i ∨ v.elrsr i = true := by
  induction l generalizing freeIr with
  | nil =>
    cases h
    exact .inl rfl
  | cons j l ih =>
    rw [scan] at h
    split_ifs at h with hj
    · rcases ih h with hfree | hfree
      · cases freeIr with
        | none =>
          obtain rfl : j = i := Option.some.inj hfree
          exact .inr hj
        | some k => exact .inl hfree
      · exact .inr hfree
    · exact ih h

/-- The ways an injection goes: the interrupt is listed, there is no free list register, or it goes
to a free one. -/
theorem injectIrq_cases (v : VirtIface ι) (virq : Virq ι) :
    v.injectIrq virq = (v, true) ∨
      v.injectIrq virq = ((v.addIrq virq).enableMaintenaceInterrupt true, false) ∨
      ∃ i, v.elrsr i = true ∧ v.injectIrq virq =
        (v.writeLr i (lrValue virq.irqId virq.isHardware) virq.tag, true) := by
  rw [injectIrq]
  split
  · exact .inl rfl
  · exact .inr (.inl rfl)
  · next i hscan => exact .inr (.inr ⟨i, (elrsr_of_scan hscan).resolve_left nofun, rfl⟩)

theorem adds_injectIrq (v : VirtIface ι) (virq : Virq ι) :
    Adds v (v.injectIrq virq).1 {virq.tag} := by
  rcases injectIrq_cases v virq with h | h | ⟨i, hi, h⟩
  · rw [h]
    exact .refl v _
  · rw [h]
    exact ((adds_addIrq v virq).trans (adds_enableMaintenaceInterrupt _ true ∅)).absorb
      fun tag htag => .inr (htag.resolve_right (Set.notMem_empty tag))
  · rw [h]
    exact adds_writeLr hi _ _

/-- An interrupt that needs no place in the queue leaves the queue as it is. -/
theorem pendingVirqs_of_injectIrq (h : v.injectIrq virq = (v', true)) :
    v'.pendingVirqs = v.pendingVirqs := by
  rcases injectIrq_cases v virq with hc | hc | ⟨i, -, hc⟩ <;> rw [hc] at h <;> cases h <;> rfl

/-- The maintenance interrupt moves what waits, and adds nothing. -/
theorem adds_drain {virqs : List (Virq ι)} (h : v.pendingVirqs = virqs) :
    Adds v (v.drain virqs) ∅ := by
  induction virqs generalizing v with
  | nil => exact adds_enableMaintenaceInterrupt v false ∅
  | cons virq virqs ih =>
    -- the interrupt that is taken out waited, so that its tag may be added again
    have htag : v.Waits virq.tag := .inr ⟨virq, h ▸ List.mem_cons_self, rfl⟩
    have hpop : Adds v { v with pendingVirqs := virqs } ∅ := by
      refine ⟨rfl, fun tag hw => .inl (hw.imp_right ?_), fun _ _ => ⟨rfl, rfl⟩⟩
      rintro ⟨q, hq, rfl⟩
      exact ⟨q, h ▸ List.mem_cons_of_mem _ hq, rfl⟩
    have hinj := hpop.trans (adds_injectIrq { v with pendingVirqs := virqs } virq)
    rw [drain]
    split
    · next w heq =>
      rw [heq] at hinj
      refine (hinj.trans (ih (pendingVirqs_of_injectIrq heq))).absorb ?_
      rintro tag ((htag' | rfl) | htag')
      · exact .inr htag'
      · exact .inl htag
      · exact .inr htag'
    · next w heq =>
      rw [heq] at hinj
      refine ((hinj.trans (adds_addIrq w virq)).trans
        (adds_enableMaintenaceInterrupt _ true ∅)).absorb ?_
      rintro tag (((htag' | rfl) | rfl) | htag')
      · exact .inr htag'
      · exact .inl htag
      · exact .inl htag
      · exact .inr htag'

/-- **The handling of an interrupt** adds no interrupt but the one that is handled. -/
theorem adds_gicv3HandleIrq (v : VirtIface ι) (irqId : Nat) (tag : ι) :
    Adds v (v.gicv3HandleIrq irqId tag) {tag} := by
  rw [gicv3HandleIrq]
  split_ifs
  · exact adds_injectIrq v ⟨irqId, false, tag⟩
  · exact .refl v _
  · exact (adds_drain rfl).absorb fun _ => False.elim
  · exact adds_injectIrq v ⟨irqId, true, tag⟩

/-! ## What a guest takes -/

theorem clear_giccInit (vtr : BitVec 64) (tag : ι) : (giccInit vtr tag).Clear :=
  ⟨fun _ _ => by simp [giccInit, lrValid], rfl⟩

end VirtIface

end Hvisor
