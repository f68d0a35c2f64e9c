import Hvisor.Irqchip.ListRegisters
import Hvisor.Lib.BitMask
import Hvisor.Lib.TransitionSystem
import Mathlib.Data.Finset.Card

/-!
# The injection of virtual interrupts

What `inject_irq` and the maintenance interrupt of `gicv3/mod.rs` do to the interrupts of a CPU, for
any content of its list registers. A list register is in use unless `ICH_ELRSR_EL2` says that it is
empty. The search looks at all registers before it takes a free one, and so no interrupt is in two
of them; it stops at a register with the same interrupt, be it pending or only active; and an
interrupt that finds no free register is put into the queue twice when it comes from the queue.

## Main definitions

* `VirtIface.InUse`, `lrVintid`: the list registers in use, and their interrupts
* `ifaceSystem`: a CPU that injects interrupts, and a guest that takes them
* `VirtIface.NoDuplicates`: no interrupt is in two list registers
* `VirtIface.Recorded`, `VirtIface.stateOf`: an interrupt is pending somewhere, and where an
  interrupt is held
* `VirtIface.held`, `VirtIface.Conserves`: the interrupts in registers and queue, and a refill that
  keeps them

## Main results

* `VirtIface.scan_eq`: what the search finds
* `VirtIface.noDuplicates_of_run`: no interrupt is in two list registers
* `VirtIface.records_iff`: when an injection leaves the interrupt pending
* `VirtIface.conserves_iff`: when the maintenance interrupt keeps all interrupts
-/

namespace Hvisor

/-- The virtual interrupt of a list register. -/
def lrVintid (val : BitVec 64) : Nat := val.toNat % 2 ^ 32

namespace VirtIface

variable {ι : Type*} {v v' : VirtIface ι} {virq : Virq ι} {irqId i j : Nat} {tag : ι}

/-- A list register that `ICH_ELRSR_EL2` does not give as empty. -/
def InUse (v : VirtIface ι) (i : Nat) : Prop := i < v.lrNum ∧ v.elrsr i = false

instance (v : VirtIface ι) (i : Nat) : Decidable (v.InUse i) :=
  inferInstanceAs (Decidable (_ ∧ _))

/-- A list register that `inject_irq` may take. -/
def Free (v : VirtIface ι) (i : Nat) : Prop := i < v.lrNum ∧ v.elrsr i = true

instance (v : VirtIface ι) (i : Nat) : Decidable (v.Free i) :=
  inferInstanceAs (Decidable (_ ∧ _))

/-! ## The search -/

/-- **What the search finds**: the interrupt in a register in use, or else the first free register.
-/
theorem scan_eq (v : VirtIface ι) (irqId : Nat) (l : List Nat) (freeIr : Option Nat) :
    v.scan irqId l freeIr =
      if ∃ j ∈ l, v.elrsr j = false ∧ lrVintid (v.lr j) = irqId then .listed
      else .unlisted (freeIr.or (l.find? v.elrsr)) := by
  induction l generalizing freeIr with
  | nil => simp [scan]
  | cons j l ih =>
    rw [scan]
    by_cases hj : v.elrsr j = true
    · -- a free register is passed over, also when its old interrupt is the same
      rw [if_pos hj, ih]
      cases freeIr <;> simp [hj]
    · have hj : v.elrsr j = false := by simpa using hj
      by_cases hirq : lrVintid (v.lr j) = irqId
      · have hirq' : (v.lr j).toNat % 2 ^ 32 = irqId := hirq
        rw [hj, if_neg Bool.false_ne_true, if_pos hirq',
          if_pos ⟨j, List.mem_cons_self, hj, hirq⟩]
      · have hirq' : ¬ (v.lr j).toNat % 2 ^ 32 = irqId := hirq
        rw [hj, if_neg Bool.false_ne_true, if_neg hirq', ih,
          List.find?_cons_of_neg (by rw [hj]; exact Bool.false_ne_true)]
        simp only [List.exists_mem_cons_iff, hirq, and_false, false_or]

/-- The ways an injection goes, with what the search saw. -/
inductive InjectionOf (v : VirtIface ι) (virq : Virq ι) : VirtIface ι × Bool → Prop
  | listed (i : Nat) (hi : v.InUse i) (hirq : lrVintid (v.lr i) = virq.irqId) :
      InjectionOf v virq (v, true)
  | full (hnew : ∀ i, v.InUse i → lrVintid (v.lr i) ≠ virq.irqId) (hfull : ∀ i, ¬ v.Free i) :
      InjectionOf v virq ((v.addIrq virq).enableMaintenaceInterrupt true, false)
  | placed (i : Nat) (hnew : ∀ i, v.InUse i → lrVintid (v.lr i) ≠ virq.irqId) (hi : v.Free i) :
      InjectionOf v virq (v.writeLr i (lrValue virq.irqId virq.isHardware) virq.tag, true)

theorem injectionOf (v : VirtIface ι) (virq : Virq ι) : InjectionOf v virq (v.injectIrq virq) := by
  rw [injectIrq, scan_eq]
  split_ifs with hlisted
  · obtain ⟨i, hi, hfree, hirq⟩ := hlisted
    exact .listed i ⟨List.mem_range.mp hi, hfree⟩ hirq
  · have hnew : ∀ i, v.InUse i → lrVintid (v.lr i) ≠ virq.irqId := fun i hi hirq =>
      hlisted ⟨i, List.mem_range.mpr hi.1, hi.2, hirq⟩
    cases hfind : (List.range v.lrNum).find? v.elrsr with
    | none =>
      refine .full hnew fun i hi => ?_
      exact List.find?_eq_none.mp hfind i (List.mem_range.mpr hi.1) hi.2
    | some i =>
      refine .placed i hnew ⟨?_, List.find?_some hfind⟩
      exact List.mem_range.mp (List.mem_of_find?_eq_some hfind)

/-! ## The value that is written -/

/-- A bit of the value: the interrupt, pending, of group 1, and its link when it is a hardware one.
-/
theorem getLsbD_lrValue (irqId : Nat) (isHardware : Bool) (i : Nat) :
    (lrValue irqId isHardware).getLsbD i =
      (decide (i < 64) && (irqId.testBit i || decide (60 = i) || decide (62 = i) ||
        (!isSgi (irqId % 2 ^ 32) && isHardware &&
          (decide (61 = i) || decide (32 ≤ i) && irqId.testBit (i - 32))))) := by
  have hbit : ∀ k, k < 64 → (1#64 <<< k).getLsbD i = decide (k = i) := fun _ =>
    BitMask.getLsbD_one_shiftLeft
  have hval : (BitVec.ofNat 64 irqId ||| 1#64 <<< 60 ||| 1#64 <<< 62).getLsbD i =
      (decide (i < 64) && (irqId.testBit i || decide (60 = i) || decide (62 = i))) := by
    rw [BitVec.getLsbD_or, BitVec.getLsbD_or, hbit 60 (by decide), hbit 62 (by decide),
      BitVec.getLsbD_ofNat]
    grind
  have hmap : (1#64 <<< 61 ||| BitVec.ofNat 64 irqId <<< 32).getLsbD i =
      (decide (i < 64) && (decide (61 = i) || decide (32 ≤ i) && irqId.testBit (i - 32))) := by
    rw [BitVec.getLsbD_or, hbit 61 (by decide), BitVec.getLsbD_shiftLeft, BitVec.getLsbD_ofNat]
    grind
  -- the constants of the definition are shifted as numbers
  have h60 : ((1 <<< 60 : Nat) : BitVec 64) = 1#64 <<< 60 := by decide
  have h61 : ((1 <<< 61 : Nat) : BitVec 64) = 1#64 <<< 61 := by decide
  have h62 : ((1 <<< 62 : Nat) : BitVec 64) = 1#64 <<< 62 := by decide
  rw [lrValue, h60, h61, h62]
  split_ifs with h
  · rw [BitVec.or_assoc, BitVec.getLsbD_or, hval, hmap, h]
    grind
  · rw [hval, eq_false_of_ne_true h]
    grind

theorem lrValid_lrValue (irqId : Nat) (isHardware : Bool) :
    lrValid (lrValue irqId isHardware) = true := by
  rw [lrValid, getLsbD_lrValue]
  simp

/-- An interrupt of 32 bits is read back. -/
theorem lrVintid_lrValue (h : irqId < 2 ^ 32) (isHardware : Bool) :
    lrVintid (lrValue irqId isHardware) = irqId := by
  refine Nat.eq_of_testBit_eq fun i => ?_
  rw [lrVintid, Nat.testBit_mod_two_pow, BitVec.testBit_toNat, getLsbD_lrValue]
  by_cases hi : i < 32
  · grind
  · have hle : 2 ^ 32 ≤ 2 ^ i := Nat.pow_le_pow_right Nat.two_pos (not_lt.mp hi)
    rw [Nat.testBit_lt_two_pow (h.trans_le hle), decide_eq_false hi, Bool.false_and]

/-! ## The refill -/

/-- A round of the loop of `handle_maintenace_interrupt`, and whether another one follows. -/
def refillRound (v : VirtIface ι) : VirtIface ι × Bool :=
  match v.pendingVirqs with
  | [] => (v.enableMaintenaceInterrupt false, false)
  | virq :: virqs =>
    match { v with pendingVirqs := virqs }.injectIrq virq with
    | (v, true) => (v, true)
    | (v, false) => ((v.addIrq virq).enableMaintenaceInterrupt true, false)

/-- The rounds of a refill that ends. -/
inductive Refills : VirtIface ι → VirtIface ι → Prop
  | stop {v v' : VirtIface ι} (h : v.refillRound = (v', false)) : Refills v v'
  | next {v w v' : VirtIface ι} (h : v.refillRound = (w, true)) (r : Refills w v') : Refills v v'

theorem refills_drain {virqs : List (Virq ι)} (h : v.pendingVirqs = virqs) :
    Refills v (v.drain virqs) := by
  induction virqs generalizing v with
  | nil => exact .stop (by rw [refillRound, h, drain])
  | cons virq virqs ih =>
    rw [drain]
    split
    · next w heq =>
      refine .next (w := w) ?_ (ih (pendingVirqs_of_injectIrq heq))
      simp only [refillRound, h, heq]
    · next w heq =>
      refine .stop ?_
      simp only [refillRound, h, heq]

/-- **The refill ends**, after one round for each interrupt that it moves. -/
theorem refills_handleMaintenaceInterrupt (v : VirtIface ι) :
    Refills v v.handleMaintenaceInterrupt :=
  refills_drain rfl

/-! ## The rule for invariants of injections -/

/-- A property of list registers and queue that an injection keeps, when the interrupt is one of
`Q`: it is about the list registers, and kept when the search finds a free one. -/
structure InjectRule (I : VirtIface ι → Prop) (Q : Virq ι → Prop) : Prop where
  queued : ∀ {v}, I v → ∀ virq ∈ v.pendingVirqs, Q virq
  of_lr : ∀ {v v' : VirtIface ι}, I v → v'.vtr = v.vtr → v'.lr = v.lr →
    (∀ virq ∈ v'.pendingVirqs, Q virq) → I v'
  placed : ∀ {v virq i}, I v → Q virq → v.Free i →
    (∀ j, v.InUse j → lrVintid (v.lr j) ≠ virq.irqId) →
    I (v.writeLr i (lrValue virq.irqId virq.isHardware) virq.tag)

namespace InjectRule

variable {I : VirtIface ι → Prop} {Q : Virq ι → Prop} (R : InjectRule I Q)
include R

theorem addIrq (h : I v) (hq : Q virq) : I (v.addIrq virq) := by
  refine R.of_lr h rfl rfl fun q hmem => ?_
  rcases List.mem_append.mp hmem with hmem | hmem
  · exact R.queued h q hmem
  · rw [List.mem_singleton.mp hmem]
    exact hq

theorem enableMaintenaceInterrupt (h : I v) (isEnable : Bool) :
    I (v.enableMaintenaceInterrupt isEnable) :=
  R.of_lr h rfl rfl fun q hmem => R.queued h q hmem

theorem injectIrq (h : I v) (virq : Virq ι) (hq : Q virq) : I (v.injectIrq virq).1 := by
  rcases hv : v.injectIrq virq with ⟨w, b⟩
  cases hv ▸ injectionOf v virq with
  | listed => exact h
  | full => exact R.enableMaintenaceInterrupt (R.addIrq h hq) true
  | placed i hnew hi => exact R.placed h hq hi hnew

theorem refillRound (h : I v) : I v.refillRound.1 := by
  rw [VirtIface.refillRound]
  split
  · exact R.enableMaintenaceInterrupt h false
  · next virq virqs hqueue =>
    have hq : Q virq := R.queued h virq (hqueue ▸ List.mem_cons_self)
    have hpop : I { v with pendingVirqs := virqs } :=
      R.of_lr h rfl rfl fun q hmem => R.queued h q (hqueue ▸ List.mem_cons_of_mem _ hmem)
    have hinj := R.injectIrq hpop virq hq
    split
    · next w heq => exact heq ▸ hinj
    · next w heq =>
      rw [heq] at hinj
      exact R.enableMaintenaceInterrupt (R.addIrq hinj hq) true

/-- The rounds of a refill keep what each round keeps. -/
theorem refills (h : I v) (r : Refills v v') : I v' := by
  induction r with
  | stop hround =>
    have hkept := R.refillRound h
    rwa [hround] at hkept
  | next hround _ ih =>
    have hkept := R.refillRound h
    rw [hround] at hkept
    exact ih hkept

theorem handleMaintenaceInterrupt (h : I v) : I v.handleMaintenaceInterrupt :=
  R.refills h (refills_handleMaintenaceInterrupt v)

end InjectRule

/-! ## No interrupt is in two list registers -/

/-- No interrupt is valid in two list registers. -/
def NoDuplicates (v : VirtIface ι) : Prop :=
  ∀ i < v.lrNum, ∀ j < v.lrNum, lrValid (v.lr i) = true → lrValid (v.lr j) = true →
    lrVintid (v.lr i) = lrVintid (v.lr j) → i = j

/-- No list register has the end of an interrupt to signal. -/
def NoEoi (v : VirtIface ι) : Prop :=
  ∀ i < v.lrNum, ((v.lr i).getLsbD 61 || !(v.lr i).getLsbD 41) = true

/-- What each injection keeps. -/
structure Tidy (v : VirtIface ι) : Prop where
  noDuplicates : v.NoDuplicates
  noEoi : v.NoEoi
  queued : ∀ virq ∈ v.pendingVirqs, virq.irqId < 2 ^ 32

/-- `ICH_ELRSR_EL2` gives the list registers that are neither pending nor active. -/
theorem Tidy.elrsr (h : v.Tidy) (hi : i < v.lrNum) : v.elrsr i = !lrValid (v.lr i) := by
  rw [VirtIface.elrsr, h.noEoi i hi, Bool.and_true]

/-- A list register takes a value whose interrupt is valid in no other one. -/
theorem Tidy.update {val : BitVec 64} (h : v.Tidy) (hvtr : v'.vtr = v.vtr)
    (hlr : v'.lr = Function.update v.lr i val) (hqueue : v'.pendingVirqs = v.pendingVirqs)
    (heoi : (val.getLsbD 61 || !val.getLsbD 41) = true)
    (hnew : ∀ j < v.lrNum, j ≠ i → lrValid (v.lr j) = true → lrVintid (v.lr j) ≠ lrVintid val) :
    v'.Tidy := by
  have hnum : v'.lrNum = v.lrNum := by rw [lrNum, hvtr, lrNum]
  have hself : v'.lr i = val := by rw [hlr, Function.update_self]
  have hother : ∀ j, j ≠ i → v'.lr j = v.lr j := fun j hj => by
    rw [hlr, Function.update_of_ne hj]
  refine ⟨fun j hj k hk hvj hvk hjk => ?_, fun j hj => ?_, by rw [hqueue]; exact h.queued⟩
  · rw [hnum] at hj hk
    by_cases hji : j = i <;> by_cases hki : k = i
    · exact hji.trans hki.symm
    · subst hji
      rw [hother k hki] at hvk hjk
      rw [hself] at hjk
      exact absurd hjk.symm (hnew k hk hki hvk)
    · subst hki
      rw [hother j hji] at hvj hjk
      rw [hself] at hjk
      exact absurd hjk (hnew j hj hji hvj)
    · rw [hother j hji] at hvj hjk
      rw [hother k hki] at hvk hjk
      exact h.noDuplicates j hj k hk hvj hvk hjk
  · rw [hnum] at hj
    by_cases hji : j = i
    · subst hji
      rw [hself, heoi]
    · rw [hother j hji]
      exact h.noEoi j hj

/-- Neither the queue nor the maintenance interrupt says anything of the list registers. -/
theorem Tidy.of_lr (h : v.Tidy) (hvtr : v'.vtr = v.vtr) (hlr : v'.lr = v.lr)
    (hqueue : ∀ virq ∈ v'.pendingVirqs, virq.irqId < 2 ^ 32) : v'.Tidy := by
  have hnum : v'.lrNum = v.lrNum := by rw [lrNum, hvtr, lrNum]
  refine ⟨?_, ?_, hqueue⟩
  · rw [NoDuplicates, hnum, hlr]
    exact h.noDuplicates
  · rw [NoEoi, hnum, hlr]
    exact h.noEoi

/-- The value that an injection writes signals no end of an interrupt. -/
theorem eoi_lrValue (h : irqId < 2 ^ 32) (isHardware : Bool) :
    ((lrValue irqId isHardware).getLsbD 61 || !(lrValue irqId isHardware).getLsbD 41) = true := by
  have hbit : irqId.testBit 41 = false := Nat.testBit_lt_two_pow (h.trans (by decide))
  rw [getLsbD_lrValue, getLsbD_lrValue, hbit]
  cases !isSgi (irqId % 2 ^ 32) && isHardware <;> simp

theorem injectRule_tidy : InjectRule (ι := ι) Tidy fun virq => virq.irqId < 2 ^ 32 where
  queued h := h.queued
  of_lr h := h.of_lr
  placed {v virq i} h hirq hi hnew := by
    refine h.update rfl rfl rfl (eoi_lrValue hirq _) fun j hj _ hvj => ?_
    -- a valid register is in use, and the search has looked at all of them
    rw [lrVintid_lrValue hirq]
    exact hnew j ⟨hj, by rw [h.elrsr hj, hvj, Bool.not_true]⟩

/-- The state bits of a list register are not its interrupt. -/
theorem lrVintid_congr {val val' : BitVec 64} (h : ∀ k < 32, val.getLsbD k = val'.getLsbD k) :
    lrVintid val = lrVintid val' := by
  refine Nat.eq_of_testBit_eq fun k => ?_
  rw [lrVintid, lrVintid, Nat.testBit_mod_two_pow, Nat.testBit_mod_two_pow, BitVec.testBit_toNat,
    BitVec.testBit_toNat]
  by_cases hk : k < 32
  · rw [h k hk]
  · rw [decide_eq_false hk, Bool.false_and, Bool.false_and]

/-- The guest changes the state bits of a valid list register, and nothing else. -/
def ChangesState (v v' : VirtIface ι) (i : Nat) : Prop :=
  i < v.lrNum ∧ lrValid (v.lr i) = true ∧ ∃ val, (∀ k < 62, val.getLsbD k = (v.lr i).getLsbD k) ∧
    v' = { v with lr := Function.update v.lr i val }

theorem changesState_acknowledge (ha : v.acknowledge i = some v') : ChangesState v v' i := by
  rw [VirtIface.acknowledge] at ha
  split_ifs at ha with hi
  cases ha
  refine ⟨hi.1, by rw [lrValid, hi.2, Bool.true_or], _, fun k hk => ?_, rfl⟩
  have hset := BitMask.getLsbD_one_shiftLeft (w := 64) (k := 63) (i := k) (by decide)
  have hclear := BitMask.getLsbD_one_shiftLeft (w := 64) (k := 62) (i := k) (by decide)
  rw [BitVec.getLsbD_or, BitVec.getLsbD_and, BitVec.getLsbD_not, hset, hclear,
    decide_eq_true (by omega : k < 64), decide_eq_false (by omega : ¬ 63 = k),
    decide_eq_false (by omega : ¬ 62 = k)]
  simp

theorem changesState_deactivate (ha : v.deactivate i = some v') : ChangesState v v' i := by
  rw [VirtIface.deactivate] at ha
  split_ifs at ha with hi
  cases ha
  refine ⟨hi.1, by rw [lrValid, hi.2, Bool.or_true], _, fun k hk => ?_, rfl⟩
  rw [BitVec.getLsbD_and, BitVec.getLsbD_not, BitMask.getLsbD_one_shiftLeft (by decide),
    decide_eq_true (by omega : k < 64), decide_eq_false (by omega : ¬ 63 = k)]
  simp

theorem Tidy.changesState (h : v.Tidy) (hc : ChangesState v v' i) : v'.Tidy := by
  obtain ⟨hi, hvi, val, hval, rfl⟩ := hc
  refine h.update rfl rfl rfl ?_ fun j hj hji hvj heq => ?_
  · rw [hval 61 (by decide), hval 41 (by decide)]
    exact h.noEoi i hi
  · rw [lrVintid_congr fun k hk => hval k (hk.trans (by decide))] at heq
    exact hji (h.noDuplicates j hj i hi hvj hvi heq)

/-- An event at the interface of a CPU: an injection, from whichever place, a round of the refill,
or what a guest does with a list register. -/
inductive IfaceAct (ι : Type*) where
  | inject (irq : BitVec 32) (isHardware : Bool) (tag : ι)
  | refill
  | acknowledge (i : Nat)
  | deactivate (i : Nat)

/-- A step of the hypervisor or of the guest. -/
def ifaceStep (v : VirtIface ι) : IfaceAct ι → Option (VirtIface ι)
  | .inject irq isHardware tag => some (v.injectIrq ⟨irq.toNat, isHardware, tag⟩).1
  | .refill => some v.refillRound.1
  | .acknowledge i => v.acknowledge i
  | .deactivate i => v.deactivate i

/-- The list registers are empty, with any queue of interrupts of 32 bits. -/
def Empty (v : VirtIface ι) : Prop :=
  (∀ i < v.lrNum, v.elrsr i = true) ∧ ∀ virq ∈ v.pendingVirqs, virq.irqId < 2 ^ 32

/-- The injections and refills of a CPU, and what a guest does on it, from empty list registers. -/
def ifaceSystem (ι : Type*) : TransitionSystem (VirtIface ι) (IfaceAct ι) :=
  .ofStep Empty ifaceStep

theorem Empty.tidy (h : v.Empty) : v.Tidy := by
  refine ⟨fun i hi j _ hvi => ?_, fun i hi => ?_, h.2⟩
  · rw [lrValid_of_elrsr (h.1 i hi)] at hvi
    cases hvi
  · exact (Bool.and_eq_true _ _ ▸ h.1 i hi).2

theorem Tidy.step {a : IfaceAct ι} (h : v.Tidy) (hs : ifaceStep v a = some v') : v'.Tidy := by
  cases a with
  | inject irq isHardware tag =>
    cases hs
    exact injectRule_tidy.injectIrq h _ irq.isLt
  | refill =>
    cases hs
    exact injectRule_tidy.refillRound h
  | acknowledge i => exact h.changesState (changesState_acknowledge hs)
  | deactivate i => exact h.changesState (changesState_deactivate hs)

/-- **No interrupt is ever in two list registers**, however injections, refills and the guest follow
each other; and `ICH_ELRSR_EL2` gives exactly the list registers that are neither pending nor
active. -/
theorem noDuplicates_of_run {h : List (IfaceAct ι)} (r : (ifaceSystem ι).Run h v) :
    v.NoDuplicates ∧ ∀ i < v.lrNum, v.elrsr i = !lrValid (v.lr i) := by
  have htidy : v.Tidy :=
    r.invariant (I := fun _ v => Tidy v) (fun _ => Empty.tidy) fun _ _ _ _ _ => Tidy.step
  exact ⟨htidy.noDuplicates, fun i hi => htidy.elrsr hi⟩

/-- An interrupt that comes again while the guest has it active. -/
theorem noDuplicates_of_run_active : ∃ v : VirtIface Unit,
    ((ifaceSystem Unit).Run [.inject 27 true (), .acknowledge 0, .inject 27 true ()] v ∧
      v.NoDuplicates) ∧ ∀ i < v.lrNum, v.elrsr i = !lrValid (v.lr i) := by
  have hempty : Empty (giccInit 3 ()) := by
    refine ⟨fun i _ => ?_, nofun⟩
    rw [VirtIface.elrsr, show (giccInit 3 ()).lr i = 0 from rfl]
    decide
  have r : (ifaceSystem Unit).Run [.inject 27 true (), .acknowledge 0, .inject 27 true ()] _ :=
    .next (.next (.next (.start hempty) rfl) rfl) rfl
  obtain ⟨hdup, helrsr⟩ := noDuplicates_of_run r
  exact ⟨_, ⟨r, hdup⟩, helrsr⟩

/-! ## An injection that is recorded -/

/-- The interrupt is pending in a list register, or it is in the queue. -/
def Recorded (v : VirtIface ι) (irqId : Nat) : Prop :=
  (∃ i < v.lrNum, (v.lr i).getLsbD 62 = true ∧ lrVintid (v.lr i) = irqId) ∨
    ∃ virq ∈ v.pendingVirqs, virq.irqId = irqId

instance (v : VirtIface ι) (irqId : Nat) : Decidable (v.Recorded irqId) :=
  inferInstanceAs (Decidable (_ ∨ _))

/-- The state of an interrupt: the list registers in use that hold it, and its places in the
queue. -/
def stateOf (v : VirtIface ι) (irqId : Nat) : (Nat → Option (BitVec 64)) × List (Virq ι) :=
  (fun i => if v.InUse i ∧ lrVintid (v.lr i) = irqId then some (v.lr i) else none,
    v.pendingVirqs.filter fun virq => virq.irqId = irqId)

/-- The interrupt is pending, and the state of the others is as before. -/
structure Records (v v' : VirtIface ι) (irqId : Nat) : Prop where
  recorded : v'.Recorded irqId
  others : ∀ k, k ≠ irqId → v'.stateOf k = v.stateOf k

theorem inUse_writeLr {val : BitVec 64} (hi : i < v.lrNum) (hval : lrValid val = true) :
    (v.writeLr i val tag).InUse j ↔ j = i ∨ v.InUse j := by
  have hnum : (v.writeLr i val tag).lrNum = v.lrNum := rfl
  rw [InUse, InUse, hnum]
  by_cases hji : j = i
  · subst hji
    have hlr : (v.writeLr j val tag).lr j = val := Function.update_self _ _ _
    simp [elrsr, hlr, hval, hi]
  · have hlr : (v.writeLr i val tag).lr j = v.lr j := Function.update_of_ne hji _ _
    simp [elrsr, hlr, hji]

/-- An interrupt that is put into the queue or a free list register is pending. -/
theorem records_of_not_listed (hirq : virq.irqId < 2 ^ 32)
    (hnew : ∀ i, v.InUse i → lrVintid (v.lr i) ≠ virq.irqId) :
    Records v (v.injectIrq virq).1 virq.irqId := by
  rcases hv : v.injectIrq virq with ⟨w, b⟩
  cases hv ▸ injectionOf v virq with
  | listed i hi heq => exact absurd heq (hnew i hi)
  | full =>
    refine ⟨.inr ⟨virq, List.mem_append_right _ List.mem_cons_self, rfl⟩, fun k hk => ?_⟩
    refine Prod.ext rfl ?_
    have hne : ¬ virq.irqId = k := fun h => hk h.symm
    simp [stateOf, addIrq, VirtIface.enableMaintenaceInterrupt, List.filter_append, hne]
  | placed i _ hi =>
    have hvalid := lrValid_lrValue virq.irqId virq.isHardware
    have hself : (v.writeLr i (lrValue virq.irqId virq.isHardware) virq.tag).lr i =
        lrValue virq.irqId virq.isHardware := Function.update_self _ _ _
    refine ⟨.inl ⟨i, hi.1, ?_, ?_⟩, fun k hk => Prod.ext (funext fun j => ?_) rfl⟩
    · rw [hself, getLsbD_lrValue]
      simp
    · rw [hself, lrVintid_lrValue hirq]
    · simp only [stateOf, inUse_writeLr hi.1 hvalid]
      by_cases hji : j = i
      · -- the free register held no interrupt, and holds another one now
        subst hji
        have hfree : ¬ v.InUse j := fun h => by
          rw [InUse, hi.2] at h
          cases h.2
        rw [hself, lrVintid_lrValue hirq, if_neg (fun h => hk h.2.symm),
          if_neg (fun h => hfree h.1)]
      · have hother : (v.writeLr i (lrValue virq.irqId virq.isHardware) virq.tag).lr j = v.lr j :=
          Function.update_of_ne hji _ _
        simp only [hother, hji, false_or]

/-- **An injection leaves the interrupt pending** and the others as they are, unless a list register
in use holds it already and it is not pending before either. -/
theorem records_iff (v : VirtIface ι) (virq : Virq ι) (hirq : virq.irqId < 2 ^ 32) :
    Records v (v.injectIrq virq).1 virq.irqId ↔
      ((∃ i, v.InUse i ∧ lrVintid (v.lr i) = virq.irqId) → v.Recorded virq.irqId) := by
  by_cases hlisted : ∃ i, v.InUse i ∧ lrVintid (v.lr i) = virq.irqId
  · -- the search stops at the register and nothing changes
    have hsame : (v.injectIrq virq).1 = v := by
      obtain ⟨i, hi, heq⟩ := hlisted
      rcases hv : v.injectIrq virq with ⟨w, b⟩
      cases hv ▸ injectionOf v virq with
      | listed => rfl
      | full hnew => exact absurd heq (hnew i hi)
      | placed j hnew => exact absurd heq (hnew i hi)
    rw [hsame]
    exact ⟨fun h _ => h.recorded, fun h => ⟨h hlisted, fun _ _ => rfl⟩⟩
  · have hnew : ∀ i, v.InUse i → lrVintid (v.lr i) ≠ virq.irqId := fun i hi heq =>
      hlisted ⟨i, hi, heq⟩
    exact ⟨fun _ h => absurd h hlisted, fun _ => records_of_not_listed hirq hnew⟩

theorem records_iff_pending :
    (78 < 2 ^ 32 ∧ Recorded ((giccInit 3 ()).injectIrq ⟨78, false, ()⟩).1 78) ∧
      Records ((giccInit 3 ()).injectIrq ⟨78, false, ()⟩).1
        (((giccInit 3 ()).injectIrq ⟨78, false, ()⟩).1.injectIrq ⟨78, true, ()⟩).1 78 := by
  have hrec : Recorded ((giccInit 3 ()).injectIrq ⟨78, false, ()⟩).1 78 := by decide
  exact ⟨⟨by decide, hrec⟩, (records_iff _ ⟨78, true, ()⟩ (by decide)).mpr fun _ => hrec⟩

/-- An interrupt is lost that comes while the guest has the one before active. -/
theorem not_records_active : ∃ v : VirtIface Unit,
    ((giccInit 3 ()).injectIrq ⟨78, false, ()⟩).1.acknowledge 0 = some v ∧
      (v.injectIrq ⟨78, false, ()⟩).2 = true ∧ ¬ Records v (v.injectIrq ⟨78, false, ()⟩).1 78 :=
  ⟨_, rfl, by decide, fun h => absurd h.recorded (by decide)⟩

/-! ## A refill that keeps all interrupts -/

/-- The list registers in use. -/
def used (v : VirtIface ι) : Finset Nat := (Finset.range v.lrNum).filter v.InUse

/-- The list registers that `inject_irq` may take. -/
def free (v : VirtIface ι) : Finset Nat := (Finset.range v.lrNum).filter v.Free

/-- The interrupts in list registers and in the queue. -/
def held (v : VirtIface ι) : Multiset Nat :=
  v.used.val.map (fun i => lrVintid (v.lr i)) + v.pendingVirqs.map Virq.irqId

/-- The same interrupts are held, and those in the queue are in the same order. -/
structure Conserves (v v' : VirtIface ι) : Prop where
  held : v'.held = v.held
  order : (v'.pendingVirqs.map Virq.irqId).Sublist (v.pendingVirqs.map Virq.irqId)

/-- The queue has no interrupt twice, and none that is in a list register. -/
structure Distinct (v : VirtIface ι) : Prop where
  irqs : ∀ virq ∈ v.pendingVirqs, virq.irqId < 2 ^ 32
  nodup : (v.pendingVirqs.map Virq.irqId).Nodup
  unlisted : ∀ virq ∈ v.pendingVirqs, ∀ i, v.InUse i → lrVintid (v.lr i) ≠ virq.irqId

theorem mem_used : i ∈ v.used ↔ v.InUse i := by
  rw [used, Finset.mem_filter, Finset.mem_range]
  exact ⟨And.right, fun h => ⟨h.1, h⟩⟩

theorem mem_free : i ∈ v.free ↔ v.Free i := by
  rw [free, Finset.mem_filter, Finset.mem_range]
  exact ⟨And.right, fun h => ⟨h.1, h⟩⟩

section

variable {val : BitVec 64}

theorem used_writeLr (hi : i < v.lrNum) (hval : lrValid val = true) :
    (v.writeLr i val tag).used = insert i v.used := by
  ext j
  rw [mem_used, inUse_writeLr hi hval, Finset.mem_insert, mem_used]

theorem free_writeLr (hval : lrValid val = true) :
    (v.writeLr i val tag).free = v.free.erase i := by
  ext j
  rw [mem_free, Finset.mem_erase, mem_free]
  by_cases hji : j = i
  · subst hji
    have hlr : (v.writeLr j val tag).lr j = val := Function.update_self _ _ _
    simp [Free, elrsr, hlr, hval]
  · have hlr : (v.writeLr i val tag).lr j = v.lr j := Function.update_of_ne hji _ _
    have hnum : (v.writeLr i val tag).lrNum = v.lrNum := rfl
    simp [Free, elrsr, hlr, hji, hnum]

/-- A free list register takes one more interrupt. -/
theorem held_writeLr (hi : v.Free i) (hval : lrValid val = true) (tag : ι) :
    (v.writeLr i val tag).held = lrVintid val ::ₘ v.held := by
  have hnot : i ∉ v.used := fun h => by
    have hbusy := (mem_used.mp h).2
    rw [hi.2] at hbusy
    cases hbusy
  have hself : (v.writeLr i val tag).lr i = val := Function.update_self _ _ _
  have hothers : v.used.val.map (fun j => lrVintid ((v.writeLr i val tag).lr j)) =
      v.used.val.map fun j => lrVintid (v.lr j) := by
    refine Multiset.map_congr rfl fun j hj => ?_
    have hji : j ≠ i := fun h => hnot (h ▸ hj)
    have hlr : (v.writeLr i val tag).lr j = v.lr j := Function.update_of_ne hji _ _
    rw [hlr]
  have hqueue : (v.writeLr i val tag).pendingVirqs = v.pendingVirqs := rfl
  rw [held, used_writeLr hi.1 hval, Finset.insert_val_of_notMem hnot, Multiset.map_cons, hself,
    hothers, hqueue, Multiset.cons_add, held]

end

theorem held_addIrq (v : VirtIface ι) (virq : Virq ι) :
    (v.addIrq virq).held = virq.irqId ::ₘ v.held := by
  have hlrs : (v.addIrq virq).used.val.map (fun i => lrVintid ((v.addIrq virq).lr i)) =
      v.used.val.map fun i => lrVintid (v.lr i) := rfl
  rw [held, hlrs, addIrq, List.map_append, ← Multiset.coe_add, List.map_cons, List.map_nil,
    ← Multiset.singleton_add, held, Multiset.coe_singleton, ← Multiset.add_assoc,
    Multiset.add_comm]

theorem held_enableMaintenaceInterrupt (v : VirtIface ι) (isEnable : Bool) :
    (v.enableMaintenaceInterrupt isEnable).held = v.held := rfl

/-- The interrupt at the head of the queue, which the refill takes out. -/
theorem held_pop {virqs : List (Virq ι)} (h : v.pendingVirqs = virq :: virqs) :
    v.held = virq.irqId ::ₘ held { v with pendingVirqs := virqs } := by
  have hlrs : v.held = v.used.val.map (fun i => lrVintid (v.lr i)) +
      ((v.pendingVirqs.map Virq.irqId : List Nat) : Multiset Nat) := rfl
  rw [hlrs, h, List.map_cons, ← Multiset.cons_coe, Multiset.add_cons]
  rfl

/-- What is left is distinct after the head of the queue has gone to a free list register. -/
theorem Distinct.writeLr {virqs : List (Virq ι)} (h : v.Distinct)
    (hqueue : v.pendingVirqs = virq :: virqs) (hi : v.Free i) :
    Distinct (writeLr { v with pendingVirqs := virqs } i
      (lrValue virq.irqId virq.isHardware) virq.tag) := by
  have hirq : virq.irqId < 2 ^ 32 := h.irqs virq (hqueue ▸ List.mem_cons_self)
  have hnodup := h.nodup
  rw [hqueue, List.map_cons, List.nodup_cons] at hnodup
  refine ⟨fun q hq => h.irqs q (hqueue ▸ List.mem_cons_of_mem _ hq), hnodup.2,
    fun q hq j hj => ?_⟩
  rcases (inUse_writeLr (v := { v with pendingVirqs := virqs }) hi.1
    (lrValid_lrValue virq.irqId virq.isHardware)).mp hj with rfl | hj
  · -- the interrupt that left the queue is no other one of it
    have hlr : (VirtIface.writeLr { v with pendingVirqs := virqs } j
        (lrValue virq.irqId virq.isHardware) virq.tag).lr j =
        lrValue virq.irqId virq.isHardware := Function.update_self _ _ _
    rw [hlr, lrVintid_lrValue hirq]
    exact fun heq => hnodup.1 (List.mem_map.mpr ⟨q, hq, heq.symm⟩)
  · have hji : j ≠ i := fun heq => by
      have hfree := hi.2
      rw [← heq] at hfree
      exact Bool.false_ne_true (hj.2.symm.trans hfree)
    have hlr : (VirtIface.writeLr { v with pendingVirqs := virqs } i
        (lrValue virq.irqId virq.isHardware) virq.tag).lr j = v.lr j :=
      Function.update_of_ne hji _ _
    rw [hlr]
    exact h.unlisted q (hqueue ▸ List.mem_cons_of_mem _ hq) j hj

/-- What the refill holds afterwards: the same, or one interrupt more. -/
theorem held_drain {virqs : List (Virq ι)} (h : v.Distinct) (hqueue : v.pendingVirqs = virqs) :
    if virqs.length ≤ v.free.card then
      (v.drain virqs).held = v.held ∧ (v.drain virqs).pendingVirqs = []
    else ∃ irq, (v.drain virqs).held = irq ::ₘ v.held := by
  induction virqs generalizing v with
  | nil =>
    rw [List.length_nil, if_pos (Nat.zero_le _)]
    exact ⟨rfl, hqueue⟩
  | cons virq virqs ih =>
    have hirq : virq.irqId < 2 ^ 32 := h.irqs virq (hqueue ▸ List.mem_cons_self)
    have hpop := held_pop hqueue
    rw [drain]
    rcases hinj : injectIrq { v with pendingVirqs := virqs } virq with ⟨w, b⟩
    cases hinj ▸ injectionOf { v with pendingVirqs := virqs } virq with
    | listed i hi heq =>
      exact absurd heq (h.unlisted virq (hqueue ▸ List.mem_cons_self) i hi)
    | full _ hfull =>
      -- `inject_irq` and the refill both put the interrupt back
      have hcard : v.free.card = 0 := by
        rw [Finset.card_eq_zero, Finset.eq_empty_iff_forall_notMem]
        exact fun i hi => hfull i (mem_free.mp hi)
      rw [if_neg (by rw [hcard]; exact Nat.not_succ_le_zero _)]
      refine ⟨virq.irqId, ?_⟩
      simp only [held_enableMaintenaceInterrupt, held_addIrq, hpop]
    | placed i _ hi =>
      have hval := lrValid_lrValue virq.irqId virq.isHardware
      have hheld := held_writeLr (v := { v with pendingVirqs := virqs }) hi hval virq.tag
      rw [lrVintid_lrValue hirq, ← hpop] at hheld
      have hfree : (writeLr { v with pendingVirqs := virqs } i
          (lrValue virq.irqId virq.isHardware) virq.tag).free.card + 1 = v.free.card := by
        rw [free_writeLr hval]
        exact Finset.card_erase_add_one (mem_free.mpr hi)
      have hrest := ih (h.writeLr hqueue hi) rfl
      rw [hheld] at hrest
      simpa only [List.length_cons, ← hfree, Nat.add_le_add_iff_right] using hrest

/-- **The refill keeps all interrupts** if and only if there is a free list register for each one of
the queue: otherwise an interrupt is put back twice. -/
theorem conserves_iff (v : VirtIface ι) (h : v.Distinct) :
    Refills v v.handleMaintenaceInterrupt ∧
      (Conserves v v.handleMaintenaceInterrupt ↔ v.pendingVirqs.length ≤ v.free.card) := by
  refine ⟨refills_handleMaintenaceInterrupt v, fun hc => ?_, fun hle => ?_⟩
  · by_contra hlt
    have hdrain := held_drain h rfl
    rw [if_neg hlt] at hdrain
    obtain ⟨irq, hmore⟩ := hdrain
    have hcard := congrArg Multiset.card (hmore.symm.trans hc.held)
    rw [Multiset.card_cons] at hcard
    exact Nat.succ_ne_self _ hcard
  · have hdrain := held_drain h rfl
    rw [if_pos hle] at hdrain
    refine ⟨hdrain.1, ?_⟩
    rw [handleMaintenaceInterrupt, hdrain.2]
    exact List.nil_sublist _

theorem conserves_iff_empty :
    Distinct { giccInit 3 () with pendingVirqs := [⟨78, true, ()⟩] } ∧
      Refills { giccInit 3 () with pendingVirqs := [⟨78, true, ()⟩] }
          (handleMaintenaceInterrupt { giccInit 3 () with pendingVirqs := [⟨78, true, ()⟩] }) ∧
        (Conserves { giccInit 3 () with pendingVirqs := [⟨78, true, ()⟩] }
            (handleMaintenaceInterrupt { giccInit 3 () with pendingVirqs := [⟨78, true, ()⟩] }) ↔
          1 ≤ (free { giccInit 3 () with pendingVirqs := [⟨78, true, ()⟩] }).card) := by
  have h : Distinct { giccInit 3 () with pendingVirqs := [⟨78, true, ()⟩] } := by
    refine ⟨by decide, by decide, fun virq _ i hi => ?_⟩
    -- no list register is in use
    exact absurd hi.2 (by rw [elrsr, show (giccInit 3 ()).lr i = 0 from rfl]; decide)
  exact ⟨h, conserves_iff _ h⟩

/-- With one list register, in which an interrupt is, another one of the queue is put back twice. -/
theorem not_conserves_full : ∃ v : VirtIface Unit,
    v = (((giccInit 0 ()).injectIrq ⟨27, true, ()⟩).1.injectIrq ⟨78, true, ()⟩).1 ∧ v.Distinct ∧
      v.handleMaintenaceInterrupt.held = 78 ::ₘ v.held ∧
        ¬ Conserves v v.handleMaintenaceInterrupt := by
  refine ⟨_, rfl, ⟨by decide, by decide, fun virq hq i hi => ?_⟩, by decide, fun h => ?_⟩
  · have hzero : i < 1 := hi.1
    obtain rfl : i = 0 := Nat.lt_one_iff.mp hzero
    revert virq
    decide
  · exact absurd h.held (by decide)

end VirtIface

end Hvisor
