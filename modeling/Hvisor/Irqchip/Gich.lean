import Hvisor.Lib.BitMask
import Mathlib.Logic.Function.Basic
import Mathlib.Tactic.Basic
import Mathlib.Tactic.IntervalCases
import Mathlib.Tactic.SplitIfs

/-!
# List registers of a GICv2

The virtual interrupts of a CPU, from `gicv2/gic.rs`. Here a list register has 32 bits, and the one
that is taken for an interrupt is the last free one. An interrupt that is not a software-generated
one is always linked to the physical interrupt of the same number.

## Main definitions

* `Gich`: the registers of the virtual interface of a CPU, and its queue
* `Gich.injectIrq`, `Gich.handleMaintenaceInterrupt`: what the hypervisor does with an interrupt
* `Gich.acknowledge`, `Gich.deactivate`: what a guest does with a list register
* `Gich.Linked`: a list register is linked to no physical interrupt but its own
* `Gich.ChangesState`: what a guest changes

## Main results

* `Gich.ownLink_lrValue_iff`: when a value that is written is linked to its own interrupt
* `Gich.LinkInv.injectIrq`, `Gich.LinkInv.handleMaintenaceInterrupt`: list registers stay linked to
  their own interrupts
-/

namespace Hvisor

/-- The interface is enabled. -/
def GICV2_GICH_HCR_EN : BitVec 32 := 0x1

/-- The underflow interrupt is enabled. -/
def GICV2_GICH_HCR_UIE : BitVec 32 := 1 <<< 1

/-- The interrupt is pending. -/
def GICV2_GICH_LR_PENDING_STATE : Nat := 0x1 <<< 28

/-- The interrupt is linked to a physical one. -/
def GICV2_GICH_LR_HW : Nat := 0x1 <<< 31

/-- The offset of the source of a software interrupt. -/
def GICV2_GICH_LR_CPUID_SHIFT : Nat := 10

/-- The offset of the physical interrupt. -/
def GICV2_GICH_LR_PHYSID_SHIFT : Nat := 10

/-- The registers of a CPU for virtual interrupts, and its queue in `PENDING_VIRQS`. -/
structure Gich where
  vtr : BitVec 32
  hcr : BitVec 32
  lr : Nat → BitVec 32
  pendingVirqs : List (Nat × Bool)

namespace Gich

/-- The virtual interrupt of a list register. -/
def vint (val : BitVec 32) : Nat := val.toNat % 2 ^ 10

/-- The physical interrupt of a list register. -/
def pint (val : BitVec 32) : Nat := val.toNat / 2 ^ 10 % 2 ^ 10

/-- The value of a list register says that its interrupt is pending or active. -/
def valid (val : BitVec 32) : Bool := val.getLsbD 28 || val.getLsbD 29

/-- The list register is linked to a physical interrupt. -/
def hardware (val : BitVec 32) : Bool := val.getLsbD 31

/-- The number of list registers. -/
def getLrsNum (g : Gich) : Nat := (g.vtr &&& 0b11111).toNat + 1

/-- The number that the loops go up to, one less than there are. -/
def getLrNum (g : Gich) : Nat := (g.vtr &&& 0b11111).toNat

/-- After `init` of the interface of the CPU, with `clear_all_lr`. -/
def giccInit (vtr : BitVec 32) : Gich where
  vtr := vtr
  hcr := GICV2_GICH_HCR_EN
  lr _ := 0
  pendingVirqs := []

/-- A bit of `GICH_ELRSR`: the list register has no valid interrupt, and no end of one to signal. -/
def elrsr (g : Gich) (i : Nat) : Bool :=
  !valid (g.lr i) && (hardware (g.lr i) || !(g.lr i).getLsbD 19)

/-- A list register is written. -/
def setLr (g : Gich) (i : Nat) (val : BitVec 32) : Gich :=
  { g with lr := Function.update g.lr i val }

/-- The interrupt waits in the queue. -/
def addIrq (g : Gich) (irqId : Nat) (isSgi : Bool) : Gich :=
  { g with pendingVirqs := g.pendingVirqs ++ [(irqId, isSgi)] }

/-- The underflow interrupt is enabled or disabled. -/
def changeUnderflowMaintenance (g : Gich) (isEnable : Bool) : Gich :=
  { g with
    hcr := if isEnable then g.hcr ||| GICV2_GICH_HCR_UIE else g.hcr &&& ~~~GICV2_GICH_HCR_UIE }

/-- What the loop of `inject_irq` finds: the interrupt, or the last free list register, if any. -/
inductive Scan where
  | listed
  | unlisted (freeLr : Option Nat)

/-- The loop of `inject_irq` over list registers, with the last free one so far. -/
def scan (g : Gich) (irqId : Nat) : List Nat → Option Nat → Scan
  | [], freeLr => .unlisted freeLr
  | i :: l, freeLr =>
    if g.elrsr i then g.scan irqId l (some i)
    else if pint (g.lr i) = irqId then .listed
    else g.scan irqId l freeLr

/-- The value of a list register for an interrupt: pending, of group 0. -/
def lrValue (irqId : Nat) (isSgi : Bool) : BitVec 32 :=
  let val := irqId ||| GICV2_GICH_LR_PENDING_STATE
  BitVec.ofNat 32 <|
    if isSgi then val ||| 1 <<< GICV2_GICH_LR_CPUID_SHIFT
    else val ||| irqId <<< GICV2_GICH_LR_PHYSID_SHIFT ||| GICV2_GICH_LR_HW

/-- `inject_irq`: whether the interrupt need not be added to the queue. -/
def injectIrq (g : Gich) (irqId : Nat) (isSgi : Bool) : Gich × Bool :=
  match g.scan irqId (List.range g.getLrNum) none with
  | .listed => (g, true)
  | .unlisted none => ((g.addIrq irqId isSgi).changeUnderflowMaintenance true, false)
  | .unlisted (some i) => (g.setLr i (lrValue irqId isSgi), true)

/-- The loop of `handle_maintenace_interrupt`, over the interrupts in the queue. -/
def drain (g : Gich) : List (Nat × Bool) → Gich
  | [] => g.changeUnderflowMaintenance false
  | (irqId, isSgi) :: virqs =>
    match { g with pendingVirqs := virqs }.injectIrq irqId isSgi with
    | (g, true) => g.drain virqs
    -- the interrupt is added again, after `inject_irq` has added it
    | (g, false) => (g.addIrq irqId isSgi).changeUnderflowMaintenance true

/-- The handler of the underflow interrupt. -/
def handleMaintenaceInterrupt (g : Gich) : Gich := g.drain g.pendingVirqs

/-- The guest acknowledges the pending interrupt of a list register, which becomes active. -/
def acknowledge (g : Gich) (i : Nat) : Option Gich :=
  if i < g.getLrsNum ∧ (g.lr i).getLsbD 28 then
    some (g.setLr i ((g.lr i &&& ~~~(1#32 <<< 28)) ||| 1#32 <<< 29))
  else none

/-- The guest deactivates the active interrupt of a list register. -/
def deactivate (g : Gich) (i : Nat) : Option Gich :=
  if i < g.getLrsNum ∧ (g.lr i).getLsbD 29 then
    some (g.setLr i (g.lr i &&& ~~~(1#32 <<< 29)))
  else none

/-! ## The link of a list register -/

variable {g g' : Gich} {i irqId : Nat} {isSgi : Bool} {val : BitVec 32}

/-- A value that is linked, if at all, to the physical interrupt of the same number. -/
def OwnLink (val : BitVec 32) : Prop := hardware val = true → pint val = vint val

instance (val : BitVec 32) : Decidable (OwnLink val) :=
  inferInstanceAs (Decidable (_ → _))

/-- No valid list register is linked to another physical interrupt. -/
def Linked (g : Gich) : Prop := ∀ i < g.getLrsNum, valid (g.lr i) = true → OwnLink (g.lr i)

instance (g : Gich) : Decidable g.Linked :=
  inferInstanceAs (Decidable (∀ i < g.getLrsNum, valid (g.lr i) = true → OwnLink (g.lr i)))

/-- The bits of an interrupt beyond the tenth, which the two fields of a list register share. -/
def Narrow (irqId : Nat) : Prop := ∀ k < 10, irqId.testBit (10 + k) = true → irqId.testBit k = true

instance (irqId : Nat) : Decidable (Narrow irqId) :=
  inferInstanceAs (Decidable (∀ k < 10, _ → _))

theorem narrow_of_lt (h : irqId < 2 ^ 10) : Narrow irqId := by
  intro k _ hbit
  have hle : 2 ^ 10 ≤ 2 ^ (10 + k) := Nat.pow_le_pow_right Nat.two_pos (Nat.le_add_right 10 k)
  rw [Nat.testBit_lt_two_pow (h.trans_le hle)] at hbit
  cases hbit

/-- A bit of the value, without the bits of the state. -/
theorem testBit_lrValue (irqId : Nat) {k : Nat} (hk : k < 20) :
    (lrValue irqId false).toNat.testBit k =
      (irqId.testBit k || decide (10 ≤ k) && irqId.testBit (k - 10)) := by
  have hpend : GICV2_GICH_LR_PENDING_STATE.testBit k = false := by
    rw [GICV2_GICH_LR_PENDING_STATE, Nat.testBit_shiftLeft, decide_eq_false (by omega),
      Bool.false_and]
  have hhw : GICV2_GICH_LR_HW.testBit k = false := by
    rw [GICV2_GICH_LR_HW, Nat.testBit_shiftLeft, decide_eq_false (by omega), Bool.false_and]
  rw [lrValue, if_neg Bool.false_ne_true, BitVec.toNat_ofNat, Nat.testBit_mod_two_pow,
    decide_eq_true (by omega : k < 32), Bool.true_and, Nat.testBit_or, Nat.testBit_or,
    Nat.testBit_or, Nat.testBit_shiftLeft, hpend, hhw, Bool.or_false, Bool.or_false]
  rfl

theorem testBit_vint (irqId : Nat) {k : Nat} (hk : k < 10) :
    (vint (lrValue irqId false)).testBit k = irqId.testBit k := by
  rw [vint, Nat.testBit_mod_two_pow, decide_eq_true hk, Bool.true_and,
    testBit_lrValue irqId (by omega), decide_eq_false (by omega : ¬ 10 ≤ k), Bool.false_and,
    Bool.or_false]

theorem testBit_pint (irqId : Nat) {k : Nat} (hk : k < 10) :
    (pint (lrValue irqId false)).testBit k = (irqId.testBit (10 + k) || irqId.testBit k) := by
  rw [pint, Nat.testBit_mod_two_pow, decide_eq_true hk, Bool.true_and, Nat.testBit_div_two_pow,
    Nat.add_comm, testBit_lrValue irqId (by omega), decide_eq_true (by omega : 10 ≤ 10 + k),
    Bool.true_and, Nat.add_sub_cancel_left]

theorem hardware_lrValue (irqId : Nat) : hardware (lrValue irqId false) = true := by
  have hhw : GICV2_GICH_LR_HW.testBit 31 = true := by decide
  rw [hardware, lrValue, if_neg Bool.false_ne_true, BitVec.getLsbD_ofNat, Nat.testBit_or, hhw]
  simp

/-- **The link of a value that is written**: to its own interrupt, when the bits that reach into the
physical field are set there anyway. -/
theorem ownLink_lrValue_iff (irqId : Nat) : OwnLink (lrValue irqId false) ↔ Narrow irqId := by
  have hfield : ∀ n, n % 2 ^ 10 < 2 ^ 10 := fun n => Nat.mod_lt n (by decide)
  refine ⟨fun h k hk hbit => ?_, fun h _ => ?_⟩
  · have heq := congrArg (Nat.testBit · k) (h (hardware_lrValue irqId))
    simp only [testBit_pint irqId hk, testBit_vint irqId hk, hbit, Bool.true_or] at heq
    exact heq.symm
  · refine Nat.eq_of_testBit_eq fun k => ?_
    by_cases hk : k < 10
    · rw [testBit_pint irqId hk, testBit_vint irqId hk]
      have := h k hk
      grind
    · have hle : 2 ^ 10 ≤ 2 ^ k := Nat.pow_le_pow_right Nat.two_pos (not_lt.mp hk)
      rw [pint, vint, Nat.testBit_lt_two_pow ((hfield _).trans_le hle),
        Nat.testBit_lt_two_pow ((hfield _).trans_le hle)]

/-- A software-generated interrupt is not linked. -/
theorem ownLink_sgi (h : irqId < 8) : OwnLink (lrValue irqId true) := by
  interval_cases irqId <;> decide

/-! ## List registers stay linked to their own interrupts -/

/-- The list registers are linked to their own interrupts, and will be when those of the queue
follow. -/
structure LinkInv (g : Gich) : Prop where
  linked : g.Linked
  queued : ∀ virq ∈ g.pendingVirqs, OwnLink (lrValue virq.1 virq.2)

theorem linkInv_giccInit (vtr : BitVec 32) : (giccInit vtr).LinkInv := by
  refine ⟨fun i _ hi => ?_, nofun⟩
  simp [giccInit, valid] at hi

theorem LinkInv.setLr (h : g.LinkInv) (hval : valid val = true → OwnLink val) :
    (g.setLr i val).LinkInv := by
  refine ⟨fun j hj hvalid => ?_, h.queued⟩
  by_cases hji : j = i
  · subst hji
    have hlr : (g.setLr j val).lr j = val := Function.update_self _ _ _
    rw [hlr] at hvalid ⊢
    exact hval hvalid
  · have hlr : (g.setLr i val).lr j = g.lr j := Function.update_of_ne hji _ _
    rw [hlr] at hvalid ⊢
    exact h.linked j hj hvalid

theorem LinkInv.addIrq (h : g.LinkInv) (hirq : OwnLink (lrValue irqId isSgi)) :
    (g.addIrq irqId isSgi).LinkInv := by
  refine ⟨h.linked, fun virq hvirq => ?_⟩
  rcases List.mem_append.mp hvirq with hvirq | hvirq
  · exact h.queued virq hvirq
  · obtain rfl := List.mem_singleton.mp hvirq
    exact hirq

theorem LinkInv.changeUnderflowMaintenance (h : g.LinkInv) (isEnable : Bool) :
    (g.changeUnderflowMaintenance isEnable).LinkInv :=
  ⟨h.linked, h.queued⟩

theorem LinkInv.injectIrq (h : g.LinkInv) (hirq : OwnLink (lrValue irqId isSgi)) :
    (g.injectIrq irqId isSgi).1.LinkInv := by
  rw [Gich.injectIrq]
  split
  · exact h
  · exact (h.addIrq hirq).changeUnderflowMaintenance true
  · exact h.setLr fun _ => hirq

theorem LinkInv.drain {virqs : List (Nat × Bool)} (h : g.LinkInv)
    (hvirqs : ∀ virq ∈ virqs, OwnLink (lrValue virq.1 virq.2)) : (g.drain virqs).LinkInv := by
  induction virqs generalizing g with
  | nil => exact h.changeUnderflowMaintenance false
  | cons virq virqs ih =>
    obtain ⟨irqId, isSgi⟩ := virq
    obtain ⟨hirq, hvirqs⟩ := List.forall_mem_cons.mp hvirqs
    -- the queue that is left has interrupts of the loop only
    have hpop : LinkInv { g with pendingVirqs := virqs } := ⟨h.linked, hvirqs⟩
    have hinj := hpop.injectIrq hirq
    rw [Gich.drain]
    split
    · next w heq =>
      rw [heq] at hinj
      exact ih hinj hvirqs
    · next w heq =>
      rw [heq] at hinj
      exact (hinj.addIrq hirq).changeUnderflowMaintenance true

theorem LinkInv.handleMaintenaceInterrupt (h : g.LinkInv) : g.handleMaintenaceInterrupt.LinkInv :=
  h.drain h.queued

/-! ## What a guest changes -/

/-- The fields of a list register are its lower bits. -/
theorem fields_congr {val val' : BitVec 32} (h : ∀ k < 28, val.getLsbD k = val'.getLsbD k) :
    vint val = vint val' ∧ pint val = pint val' := by
  have hfield : ∀ m n, m + n ≤ 28 →
      val.toNat / 2 ^ m % 2 ^ n = val'.toNat / 2 ^ m % 2 ^ n := by
    intro m n hmn
    refine Nat.eq_of_testBit_eq fun k => ?_
    rw [Nat.testBit_mod_two_pow, Nat.testBit_mod_two_pow, Nat.testBit_div_two_pow,
      Nat.testBit_div_two_pow, BitVec.testBit_toNat, BitVec.testBit_toNat]
    by_cases hk : k < n
    · rw [h (k + m) (by omega)]
    · rw [decide_eq_false hk, Bool.false_and, Bool.false_and]
  constructor
  · simpa [vint] using hfield 0 10 (by decide)
  · exact hfield 10 10 (by decide)

/-- The guest changes the state bits of a valid list register, and nothing else. -/
def ChangesState (g g' : Gich) (i : Nat) : Prop :=
  i < g.getLrsNum ∧ valid (g.lr i) = true ∧ ∃ val,
    (∀ k < 32, k ≠ 28 → k ≠ 29 → val.getLsbD k = (g.lr i).getLsbD k) ∧ g' = g.setLr i val

theorem changesState_acknowledge (ha : g.acknowledge i = some g') : ChangesState g g' i := by
  rw [Gich.acknowledge] at ha
  split_ifs at ha with hi
  cases ha
  refine ⟨hi.1, by rw [valid, hi.2, Bool.true_or], _, fun k hk h28 h29 => ?_, rfl⟩
  have hset := BitMask.getLsbD_one_shiftLeft (w := 32) (k := 29) (i := k) (by decide)
  have hclear := BitMask.getLsbD_one_shiftLeft (w := 32) (k := 28) (i := k) (by decide)
  rw [BitVec.getLsbD_or, BitVec.getLsbD_and, BitVec.getLsbD_not, hset, hclear, decide_eq_true hk,
    decide_eq_false h29.symm, decide_eq_false h28.symm]
  simp

theorem changesState_deactivate (ha : g.deactivate i = some g') : ChangesState g g' i := by
  rw [Gich.deactivate] at ha
  split_ifs at ha with hi
  cases ha
  refine ⟨hi.1, by rw [valid, hi.2, Bool.or_true], _, fun k hk _ h29 => ?_, rfl⟩
  rw [BitVec.getLsbD_and, BitVec.getLsbD_not, BitMask.getLsbD_one_shiftLeft (by decide),
    decide_eq_true hk, decide_eq_false h29.symm]
  simp

theorem LinkInv.changesState (h : g.LinkInv) (hc : ChangesState g g' i) : g'.LinkInv := by
  obtain ⟨hi, hvalid, val, hval, rfl⟩ := hc
  refine h.setLr fun _ hhw => ?_
  have hown := h.linked i hi hvalid ((hval 31 (by decide) (by decide) (by decide)).symm.trans hhw)
  obtain ⟨hvint, hpint⟩ := fields_congr fun k hk =>
    hval k (by omega) (by omega) (by omega)
  rw [hpint, hown, hvint]

end Gich

end Hvisor
