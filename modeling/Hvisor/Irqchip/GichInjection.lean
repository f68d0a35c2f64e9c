import Hvisor.Irqchip.Gich
import Hvisor.Lib.TransitionSystem
import Mathlib.Tactic.IntervalCases

/-!
# Injections into the list registers of a GICv2

What `inject_irq` of `gicv2/gic.rs` does to the list registers, in every state that injections,
refills and the guest lead to. The search compares the physical interrupt of a list register, where
the CPU of a software-generated interrupt stands, and passes over the last list register.

## Main definitions

* `Gich.InjectionOf`: the ways an injection goes, with what the search saw
* `gichSystem`: the injections and refills of a CPU, and what a guest does on it
* `Gich.Disciplined`: no interrupt is in two list registers, none is dropped that is in none, and
  none is turned away while a list register is free
* `Gich.Fits`: when an injection is disciplined

## Main results

* `Gich.disciplined_iff`: an injection is disciplined exactly when the interrupt fits
* `Gich.disciplined_of_run`: the same in every run, and interrupts stay apart while they fit
* `Gich.fits_iff_of_run`: what it takes for interrupts of either kind
-/

namespace Hvisor

namespace Gich

variable {g g' : Gich} {irqId i j : Nat} {isSgi : Bool} {val : BitVec 32}

/-- A list register whose interrupt is pending or active. -/
def InUse (g : Gich) (i : Nat) : Prop := i < g.getLrsNum ∧ valid (g.lr i) = true

instance (g : Gich) (i : Nat) : Decidable (g.InUse i) := inferInstanceAs (Decidable (_ ∧ _))

/-- No interrupt is in two list registers. -/
def Distinct (g : Gich) : Prop :=
  ∀ i j, g.InUse i → g.InUse j → vint (g.lr i) = vint (g.lr j) → i = j

/-- The interrupt is in a list register. -/
def Carries (g : Gich) (irqId : Nat) : Prop := ∃ i, g.InUse i ∧ vint (g.lr i) = irqId

/-- The interrupt stands in the physical field of a list register. -/
def Matches (g : Gich) (irqId : Nat) : Prop := ∃ i, g.InUse i ∧ pint (g.lr i) = irqId

/-- **What an injection should do**: afterwards no interrupt is in two list registers; it is dropped
only if a list register has it; and it does not fit only if all list registers are in use. -/
structure Disciplined (g : Gich) (irqId : Nat) (isSgi : Bool) : Prop where
  distinct : (g.injectIrq irqId isSgi).1.Distinct
  dropped : g.injectIrq irqId isSgi = (g, true) → g.Carries irqId
  full : (g.injectIrq irqId isSgi).2 = false → ∀ i < g.getLrsNum, g.InUse i

/-- The interrupt is found in the list registers exactly when it is there; and if it is not, one of
them is free, and not the last one. -/
structure Fits (g : Gich) (irqId : Nat) : Prop where
  found : g.Matches irqId ↔ g.Carries irqId
  room : g.Carries irqId ∨ ∃ i < g.getLrNum, ¬ g.InUse i

/-! ## The search -/

/-- **What the search finds**: the number in the physical field of a list register in use, or else
the last free one. -/
theorem scan_eq (g : Gich) (irqId : Nat) (l : List Nat) (freeLr : Option Nat) :
    g.scan irqId l freeLr =
      if ∃ j ∈ l, g.elrsr j = false ∧ pint (g.lr j) = irqId then .listed
      else .unlisted ((l.reverse.find? g.elrsr).or freeLr) := by
  induction l generalizing freeLr with
  | nil => simp [scan]
  | cons j l ih =>
    rw [scan]
    cases hj : g.elrsr j with
    | true =>
      rw [if_pos rfl, ih]
      simp [hj, List.find?_append]
    | false =>
      rw [if_neg Bool.false_ne_true]
      by_cases hirq : pint (g.lr j) = irqId
      · rw [if_pos hirq, if_pos ⟨j, List.mem_cons_self, hj, hirq⟩]
      · rw [if_neg hirq, ih]
        simp [hj, hirq, List.find?_append]

/-- The ways an injection goes, with what the search saw. -/
inductive InjectionOf (g : Gich) (irqId : Nat) (isSgi : Bool) : Gich × Bool → Prop
  | listed (i : Nat) (hi : i < g.getLrNum) (hused : g.elrsr i = false)
      (hirq : pint (g.lr i) = irqId) : InjectionOf g irqId isSgi (g, true)
  | full (hnew : ∀ i < g.getLrNum, g.elrsr i = false → pint (g.lr i) ≠ irqId)
      (hfull : ∀ i < g.getLrNum, g.elrsr i = false) :
      InjectionOf g irqId isSgi ((g.addIrq irqId isSgi).changeUnderflowMaintenance true, false)
  | placed (i : Nat) (hnew : ∀ i < g.getLrNum, g.elrsr i = false → pint (g.lr i) ≠ irqId)
      (hi : i < g.getLrNum) (hfree : g.elrsr i = true) :
      InjectionOf g irqId isSgi (g.setLr i (lrValue irqId isSgi), true)

theorem injectionOf (g : Gich) (irqId : Nat) (isSgi : Bool) :
    InjectionOf g irqId isSgi (g.injectIrq irqId isSgi) := by
  rw [injectIrq, scan_eq]
  split_ifs with hlisted
  · obtain ⟨i, hi, hused, hirq⟩ := hlisted
    exact .listed i (List.mem_range.mp hi) hused hirq
  · have hnew : ∀ i < g.getLrNum, g.elrsr i = false → pint (g.lr i) ≠ irqId :=
      fun i hi hused hirq => hlisted ⟨i, List.mem_range.mpr hi, hused, hirq⟩
    rw [Option.or_none]
    cases hfind : (List.range g.getLrNum).reverse.find? g.elrsr with
    | none =>
      refine .full hnew fun i hi => ?_
      have hmem : i ∈ (List.range g.getLrNum).reverse :=
        List.mem_reverse.mpr (List.mem_range.mpr hi)
      simpa using List.find?_eq_none.mp hfind i hmem
    | some i =>
      refine .placed i hnew ?_ (List.find?_some hfind)
      exact List.mem_range.mp (List.mem_reverse.mp (List.mem_of_find?_eq_some hfind))

/-! ## The value that is written -/

theorem valid_lrValue (irqId : Nat) (isSgi : Bool) : valid (lrValue irqId isSgi) = true := by
  have hpend : GICV2_GICH_LR_PENDING_STATE.testBit 28 = true := by decide
  have hbit : (lrValue irqId isSgi).getLsbD 28 = true := by
    rw [lrValue, BitVec.getLsbD_ofNat]
    cases isSgi <;> simp [hpend]
  rw [valid, hbit, Bool.true_or]

/-- A bit of the value for a software-generated interrupt, without those of the state. -/
theorem testBit_lrValue_sgi (irqId : Nat) {k : Nat} (hk : k < 20) :
    (lrValue irqId true).toNat.testBit k = (irqId.testBit k || decide (k = 10)) := by
  have hpend : GICV2_GICH_LR_PENDING_STATE.testBit k = false := by
    rw [GICV2_GICH_LR_PENDING_STATE, Nat.testBit_shiftLeft, decide_eq_false (by omega),
      Bool.false_and]
  have hcpu : (1 <<< GICV2_GICH_LR_CPUID_SHIFT).testBit k = decide (k = 10) := by
    rw [Nat.one_shiftLeft, GICV2_GICH_LR_CPUID_SHIFT, Nat.testBit_two_pow]
    exact decide_eq_decide.mpr eq_comm
  rw [lrValue, if_pos rfl, BitVec.toNat_ofNat, Nat.testBit_mod_two_pow,
    decide_eq_true (by omega : k < 32), Bool.true_and, Nat.testBit_or, Nat.testBit_or, hpend, hcpu,
    Bool.or_false]

theorem vint_lrValue (hirq : irqId < 2 ^ 10) (isSgi : Bool) :
    vint (lrValue irqId isSgi) = irqId := by
  refine Nat.eq_of_testBit_eq fun k => ?_
  by_cases hk : k < 10
  · cases isSgi with
    | false => exact testBit_vint irqId hk
    | true =>
      rw [vint, Nat.testBit_mod_two_pow, decide_eq_true hk, Bool.true_and,
        testBit_lrValue_sgi irqId (by omega), decide_eq_false (by omega : ¬ k = 10), Bool.or_false]
  · have hle : 2 ^ 10 ≤ 2 ^ k := Nat.pow_le_pow_right Nat.two_pos (not_lt.mp hk)
    rw [vint, Nat.testBit_lt_two_pow ((Nat.mod_lt _ (by decide)).trans_le hle),
      Nat.testBit_lt_two_pow (hirq.trans_le hle)]

/-- The physical field has the number of the CPU for a software-generated interrupt. -/
theorem pint_lrValue_sgi (hirq : irqId < 2 ^ 10) : pint (lrValue irqId true) = 1 := by
  have hone : ∀ k, Nat.testBit 1 k = decide (0 = k) := fun k => Nat.testBit_two_pow (n := 0)
  refine Nat.eq_of_testBit_eq fun k => ?_
  rw [pint, Nat.testBit_mod_two_pow, Nat.testBit_div_two_pow, hone]
  by_cases hk : k < 10
  · have hhigh : irqId.testBit (k + 10) = false := by
      refine Nat.testBit_lt_two_pow (hirq.trans_le ?_)
      exact Nat.pow_le_pow_right Nat.two_pos (Nat.le_add_left 10 k)
    rw [testBit_lrValue_sgi irqId (by omega), hhigh, decide_eq_true hk, Bool.true_and,
      Bool.false_or]
    exact decide_eq_decide.mpr (by omega)
  · rw [decide_eq_false hk, Bool.false_and, decide_eq_false (by omega)]

theorem pint_lrValue (hirq : irqId < 2 ^ 10) : pint (lrValue irqId false) = irqId := by
  have hown := (ownLink_lrValue_iff irqId).mpr (narrow_of_lt hirq) (hardware_lrValue irqId)
  rw [hown, vint_lrValue hirq]

/-! ## What injections keep -/

/-- What all list registers are like: the last one is never taken, none asks for a maintenance
interrupt at its end, and the queue has numbers of interrupts. -/
structure SlotInv (g : Gich) : Prop where
  last : valid (g.lr g.getLrNum) = false
  noEoi : ∀ i < g.getLrNum, hardware (g.lr i) = true ∨ (g.lr i).getLsbD 19 = false
  queued : ∀ virq ∈ g.pendingVirqs, virq.1 < 1020

theorem SlotInv.elrsr (h : g.SlotInv) (hi : i < g.getLrNum) : g.elrsr i = !valid (g.lr i) := by
  rw [Gich.elrsr]
  rcases h.noEoi i hi with hhw | heoi
  · rw [hhw, Bool.true_or, Bool.and_true]
  · rw [heoi, Bool.not_false, Bool.or_true, Bool.and_true]

/-- The list registers in use are those that the search compares. -/
theorem SlotInv.inUse_iff (h : g.SlotInv) (i : Nat) :
    g.InUse i ↔ i < g.getLrNum ∧ g.elrsr i = false := by
  constructor
  · rintro ⟨hi, hvalid⟩
    have hne : i ≠ g.getLrNum := by
      rintro rfl
      rw [h.last] at hvalid
      cases hvalid
    have hlt : i < g.getLrNum := by
      rw [getLrsNum] at hi
      rw [getLrNum] at hne ⊢
      omega
    exact ⟨hlt, by rw [h.elrsr hlt, hvalid, Bool.not_true]⟩
  · rintro ⟨hi, hused⟩
    rw [h.elrsr hi, Bool.not_eq_false'] at hused
    exact ⟨Nat.lt_succ_of_lt hi, hused⟩

theorem SlotInv.not_inUse_last (h : g.SlotInv) : ¬ g.InUse g.getLrNum := fun hused =>
  Nat.lt_irrefl _ ((h.inUse_iff _).mp hused).1

/-- The list registers in use after one is written. -/
theorem inUse_setLr (hi : i < g.getLrsNum) (hval : valid val = true) :
    (g.setLr i val).InUse j ↔ j = i ∨ g.InUse j := by
  have hnum : (g.setLr i val).getLrsNum = g.getLrsNum := rfl
  rw [InUse, InUse, hnum]
  by_cases hji : j = i
  · subst hji
    have hlr : (g.setLr j val).lr j = val := Function.update_self _ _ _
    simp [hlr, hval, hi]
  · have hlr : (g.setLr i val).lr j = g.lr j := Function.update_of_ne hji _ _
    simp [hlr, hji]

/-- Writing a free list register keeps interrupts apart exactly when the interrupt is in none. -/
theorem distinct_setLr_iff (hi : i < g.getLrsNum) (hfree : ¬ g.InUse i) (hval : valid val = true) :
    (g.setLr i val).Distinct ↔ g.Distinct ∧ ¬ g.Carries (vint val) := by
  have hself : (g.setLr i val).lr i = val := Function.update_self _ _ _
  have hother : ∀ j, g.InUse j → (g.setLr i val).lr j = g.lr j := fun j hj =>
    Function.update_of_ne (fun heq : j = i => hfree (heq ▸ hj)) _ _
  constructor
  · intro h
    refine ⟨fun j k hj hk heq => ?_, ?_⟩
    · apply h j k ((inUse_setLr hi hval).mpr (.inr hj)) ((inUse_setLr hi hval).mpr (.inr hk))
      rw [hother j hj, hother k hk, heq]
    · rintro ⟨j, hj, heq⟩
      have hji : j = i := by
        apply h j i ((inUse_setLr hi hval).mpr (.inr hj)) ((inUse_setLr hi hval).mpr (.inl rfl))
        rw [hother j hj, hself, heq]
      exact hfree (hji ▸ hj)
  · rintro ⟨hdistinct, hnew⟩ j k hj hk heq
    rcases (inUse_setLr hi hval).mp hj with rfl | hj' <;>
      rcases (inUse_setLr hi hval).mp hk with rfl | hk'
    · rfl
    · rw [hself, hother k hk'] at heq
      exact absurd ⟨k, hk', heq.symm⟩ hnew
    · rw [hself, hother j hj'] at heq
      exact absurd ⟨j, hj', heq⟩ hnew
    · rw [hother j hj', hother k hk'] at heq
      exact hdistinct j k hj' hk' heq

/-- **An injection is disciplined** exactly when interrupts are apart and this one fits. -/
theorem disciplined_iff (h : g.SlotInv) (hirq : irqId < 2 ^ 10) :
    g.Disciplined irqId isSgi ↔ g.Distinct ∧ g.Fits irqId := by
  -- the search compares list registers in use only
  have hsearch : (∀ i < g.getLrNum, g.elrsr i = false → pint (g.lr i) ≠ irqId) →
      ¬ g.Matches irqId := by
    rintro hnew ⟨i, hi, hmatch⟩
    obtain ⟨hlt, hused⟩ := (h.inUse_iff i).mp hi
    exact hnew i hlt hused hmatch
  rcases hinj : g.injectIrq irqId isSgi with ⟨g', fits⟩
  cases hinj ▸ injectionOf g irqId isSgi with
  | listed i hi hused hmatch =>
    have hmatches : g.Matches irqId := ⟨i, (h.inUse_iff i).mpr ⟨hi, hused⟩, hmatch⟩
    constructor
    · rintro ⟨hdistinct, hdropped, -⟩
      rw [hinj] at hdistinct
      have hcarries := hdropped hinj
      exact ⟨hdistinct, ⟨iff_of_true hmatches hcarries, .inl hcarries⟩⟩
    · rintro ⟨hdistinct, hfits⟩
      refine ⟨by rw [hinj]; exact hdistinct, fun _ => hfits.found.mp hmatches, fun hfull => ?_⟩
      rw [hinj] at hfull
      cases hfull
  | full hnew hfull =>
    refine iff_of_false (fun hd => ?_) ?_
    · -- the last list register is free, and the search does not look at it
      refine h.not_inUse_last (hd.full ?_ _ (Nat.lt_succ_self _))
      rw [hinj]
    · rintro ⟨-, hfound, hroom⟩
      rcases hroom with hcarries | ⟨i, hi, hfree⟩
      · exact hsearch hnew (hfound.mpr hcarries)
      · exact hfree ((h.inUse_iff i).mpr ⟨hi, hfull i hi⟩)
  | placed i hnew hi hfree =>
    have hfree' : ¬ g.InUse i := fun hused => by
      rw [((h.inUse_iff i).mp hused).2] at hfree
      cases hfree
    have hlt : i < g.getLrsNum := Nat.lt_succ_of_lt hi
    have hdistinct := distinct_setLr_iff hlt hfree' (valid_lrValue irqId isSgi)
    rw [vint_lrValue hirq] at hdistinct
    constructor
    · rintro ⟨hd, -, -⟩
      rw [hinj] at hd
      obtain ⟨hold, hcarries⟩ := hdistinct.mp hd
      exact ⟨hold, ⟨iff_of_false (hsearch hnew) hcarries, .inr ⟨i, hi, hfree'⟩⟩⟩
    · rintro ⟨hold, hfound, -⟩
      have hcarries : ¬ g.Carries irqId := fun hc => hsearch hnew (hfound.mpr hc)
      refine ⟨by rw [hinj]; exact hdistinct.mpr ⟨hold, hcarries⟩, fun hsame => ?_, fun hfull => ?_⟩
      · -- something is written, and so nothing is dropped
        rw [hinj] at hsame
        have hused : (g.setLr i (lrValue irqId isSgi)).InUse i :=
          (inUse_setLr hlt (valid_lrValue irqId isSgi)).mpr (.inl rfl)
        rw [(Prod.mk.inj hsame).1] at hused
        exact absurd hused hfree'
      · rw [hinj] at hfull
        cases hfull

theorem SlotInv.injectIrq (h : g.SlotInv) (hirq : irqId < 1020) :
    (g.injectIrq irqId isSgi).1.SlotInv := by
  rcases hinj : g.injectIrq irqId isSgi with ⟨g', fits⟩
  cases hinj ▸ injectionOf g irqId isSgi with
  | listed => exact h
  | full =>
    refine ⟨h.last, h.noEoi, fun virq hvirq => ?_⟩
    rcases List.mem_append.mp hvirq with hvirq | hvirq
    · exact h.queued virq hvirq
    · obtain rfl := List.mem_singleton.mp hvirq
      exact hirq
  | placed i _ hi _ =>
    have hother : ∀ j, j ≠ i → (g.setLr i (lrValue irqId isSgi)).lr j = g.lr j := fun j hji =>
      Function.update_of_ne hji _ _
    refine ⟨?_, fun j hj => ?_, h.queued⟩
    · -- the search leaves out the last register
      have hlast : (g.setLr i (lrValue irqId isSgi)).lr g.getLrNum = g.lr g.getLrNum :=
        hother _ hi.ne'
      exact (congrArg valid hlast).trans h.last
    · by_cases hji : j = i
      · subst hji
        have hself : (g.setLr j (lrValue irqId isSgi)).lr j = lrValue irqId isSgi :=
          Function.update_self _ _ _
        rw [hself]
        cases isSgi with
        | false => exact .inl (hardware_lrValue irqId)
        | true =>
          -- bit 19 asks for a maintenance interrupt, and no number of an interrupt reaches it
          have hhigh : irqId.testBit 19 = false :=
            Nat.testBit_lt_two_pow (hirq.trans_le (by decide))
          right
          rw [← BitVec.testBit_toNat, testBit_lrValue_sgi irqId (by decide), hhigh]
          decide
      · rw [hother j hji]
        exact h.noEoi j hj

theorem SlotInv.changesState (h : g.SlotInv) (hc : ChangesState g g' i) : g'.SlotInv := by
  obtain ⟨hi, hvalid, val, hval, rfl⟩ := hc
  have hlt : i < g.getLrNum := ((h.inUse_iff i).mp ⟨hi, hvalid⟩).1
  refine ⟨?_, fun j hj => ?_, h.queued⟩
  · have hlast : (g.setLr i val).lr g.getLrNum = g.lr g.getLrNum :=
      Function.update_of_ne hlt.ne' _ _
    exact (congrArg valid hlast).trans h.last
  · by_cases hji : j = i
    · subst hji
      have hself : (g.setLr j val).lr j = val := Function.update_self _ _ _
      rw [hself, hardware, hval 31 (by decide) (by decide) (by decide),
        hval 19 (by decide) (by decide) (by decide)]
      exact h.noEoi j hj
    · have hother : (g.setLr i val).lr j = g.lr j := Function.update_of_ne hji _ _
      rw [hother]
      exact h.noEoi j hj

/-- The guest does not move interrupts. -/
theorem Distinct.changesState (h : g.Distinct) (hc : ChangesState g g' i) : g'.Distinct := by
  obtain ⟨hi, hvalid, val, hval, rfl⟩ := hc
  have hvint : ∀ j, vint ((g.setLr i val).lr j) = vint (g.lr j) := fun j => by
    by_cases hji : j = i
    · subst hji
      have hself : (g.setLr j val).lr j = val := Function.update_self _ _ _
      rw [hself]
      exact (fields_congr fun k hk => hval k (by omega) (by omega) (by omega)).1
    · have hother : (g.setLr i val).lr j = g.lr j := Function.update_of_ne hji _ _
      rw [hother]
  have hused : ∀ j, (g.setLr i val).InUse j → g.InUse j := fun j hj => by
    by_cases hji : j = i
    · exact hji ▸ ⟨hi, hvalid⟩
    · have hother : (g.setLr i val).lr j = g.lr j := Function.update_of_ne hji _ _
      exact ⟨hj.1, hother ▸ hj.2⟩
  intro j k hj hk heq
  rw [hvint, hvint] at heq
  exact h j k (hused j hj) (hused k hk) heq

/-! ## Runs -/

/-- A round of the loop of `handle_maintenace_interrupt`, and whether the loop goes on. -/
def refillRound (g : Gich) : Gich × Bool :=
  match g.pendingVirqs with
  | [] => (g.changeUnderflowMaintenance false, false)
  | (irqId, isSgi) :: virqs =>
    match { g with pendingVirqs := virqs }.injectIrq irqId isSgi with
    | (g, true) => (g, true)
    | (g, false) => ((g.addIrq irqId isSgi).changeUnderflowMaintenance true, false)

end Gich

/-- An event at the interface of a CPU: an injection, a round of the refill, or what a guest does
with a list register. -/
inductive GichAct where
  | inject (irqId : Nat) (isSgi : Bool)
  | refill
  | acknowledge (i : Nat)
  | deactivate (i : Nat)
  deriving DecidableEq

/-- What is injected is the number of an interrupt. -/
def GichAct.Known : GichAct → Prop
  | .inject irqId _ => irqId < 1020
  | _ => True

instance : DecidablePred GichAct.Known
  | .inject .. => inferInstanceAs (Decidable (_ < _))
  | .refill | .acknowledge _ | .deactivate _ => inferInstanceAs (Decidable True)

namespace Gich

/-- A step of the hypervisor or of the guest. -/
def step (g : Gich) : GichAct → Option Gich
  | .inject irqId isSgi => some (g.injectIrq irqId isSgi).1
  | .refill => some g.refillRound.1
  | .acknowledge i => g.acknowledge i
  | .deactivate i => g.deactivate i

/-- The list registers are clear, with any interrupts in the queue. -/
def Clear (g : Gich) : Prop :=
  (∀ i < g.getLrsNum, g.lr i = 0) ∧ ∀ virq ∈ g.pendingVirqs, virq.1 < 1020

end Gich

/-- The injections and refills of a CPU, and what a guest does on it, from clear list registers. -/
def gichSystem : TransitionSystem Gich GichAct where
  init := Gich.Clear
  step g a g' := a.Known ∧ g.step a = some g'

namespace Gich

variable {g g' : Gich} {irqId i : Nat} {isSgi : Bool} {a : GichAct} {h : List GichAct}

/-- The interrupts that are injected fit. -/
def Fitting (g : Gich) : GichAct → Prop
  | .inject irqId _ => g.Fits irqId
  | .refill => ∀ virq ∈ g.pendingVirqs.head?, g.Fits virq.1
  | _ => True

theorem Clear.slotInv (hg : g.Clear) : g.SlotInv := by
  refine ⟨?_, fun i hi => .inr ?_, hg.2⟩
  · have hlast := hg.1 g.getLrNum (Nat.lt_succ_self _)
    rw [hlast]
    rfl
  · rw [hg.1 i (Nat.lt_succ_of_lt hi)]
    rfl

theorem Clear.distinct (hg : g.Clear) : g.Distinct := by
  rintro i j ⟨hi, hvalid⟩
  rw [hg.1 i hi] at hvalid
  cases hvalid

/-- The refill of a maintenance interrupt is a run of its rounds. -/
theorem run_drain {virqs : List (Nat × Bool)} (hg : g.pendingVirqs = virqs) :
    ∃ h, (gichSystem.startingAt g).Run h (g.drain virqs) := by
  have hround : ∀ g g' : Gich, g.refillRound.1 = g' →
      (gichSystem.startingAt g).Run [.refill] g' := fun g g' hr =>
    .next (.start rfl) ⟨trivial, congrArg some hr⟩
  induction virqs generalizing g with
  | nil => exact ⟨_, hround _ _ (by rw [refillRound, hg, drain])⟩
  | cons virq virqs ih =>
    obtain ⟨irqId, isSgi⟩ := virq
    rw [drain]
    rcases hinj : { g with pendingVirqs := virqs }.injectIrq irqId isSgi with ⟨g₁, fits⟩
    cases fits with
    | false => exact ⟨_, hround _ _ (by rw [refillRound, hg]; simp only [hinj])⟩
    | true =>
      have hqueue : g₁.pendingVirqs = virqs := by
        cases hinj ▸ injectionOf { g with pendingVirqs := virqs } irqId isSgi with
        | listed => rfl
        | placed => rfl
      obtain ⟨es, hrun⟩ := ih hqueue
      have hfirst := hround g g₁ (by rw [refillRound, hg]; simp only [hinj])
      refine ⟨es ++ [.refill], hfirst.append ?_⟩
      simp only [hinj]
      exact hrun

/-- A round of the refill is an injection from the queue, after which the interrupt may be added
again. -/
theorem refillRound_cases (g : Gich) :
    g.refillRound.1 = g.changeUnderflowMaintenance false ∨
      ∃ virq virqs g', g.pendingVirqs = virq :: virqs ∧
        ({ g with pendingVirqs := virqs }.injectIrq virq.1 virq.2).1 = g' ∧
          (g.refillRound.1 = g' ∨
            g.refillRound.1 = (g'.addIrq virq.1 virq.2).changeUnderflowMaintenance true) := by
  rw [refillRound]
  split
  · exact .inl rfl
  · next irqId isSgi virqs hqueue =>
    refine .inr ⟨(irqId, isSgi), virqs, _, hqueue, rfl, ?_⟩
    split
    · next heq =>
      rw [heq]
      exact .inl rfl
    · next heq =>
      rw [heq]
      exact .inr rfl

theorem SlotInv.addIrq (hg : g.SlotInv) (hirq : irqId < 1020) : (g.addIrq irqId isSgi).SlotInv := by
  refine ⟨hg.last, hg.noEoi, fun virq hvirq => ?_⟩
  rcases List.mem_append.mp hvirq with hvirq | hvirq
  · exact hg.queued virq hvirq
  · obtain rfl := List.mem_singleton.mp hvirq
    exact hirq

theorem SlotInv.refillRound (hg : g.SlotInv) : g.refillRound.1.SlotInv := by
  rcases refillRound_cases g with heq | ⟨virq, virqs, g', hqueue, hinj, heq⟩
  · rw [heq]
    exact ⟨hg.last, hg.noEoi, hg.queued⟩
  · obtain ⟨hirq, hvirqs⟩ := List.forall_mem_cons.mp (hqueue ▸ hg.queued)
    have hpop : SlotInv { g with pendingVirqs := virqs } := ⟨hg.last, hg.noEoi, hvirqs⟩
    have hg' : g'.SlotInv := hinj ▸ hpop.injectIrq hirq
    rcases heq with heq | heq <;> rw [heq]
    · exact hg'
    · have hadd : (g'.addIrq virq.1 virq.2).SlotInv := hg'.addIrq hirq
      exact ⟨hadd.last, hadd.noEoi, hadd.queued⟩

theorem SlotInv.step (hg : g.SlotInv) (ha : a.Known) (hs : g.step a = some g') : g'.SlotInv := by
  cases a with
  | inject irqId isSgi =>
    cases hs
    exact hg.injectIrq ha
  | refill =>
    cases hs
    exact hg.refillRound
  | acknowledge i => exact hg.changesState (changesState_acknowledge hs)
  | deactivate i => exact hg.changesState (changesState_deactivate hs)

theorem slotInv_of_run (r : gichSystem.Run h g) : g.SlotInv :=
  r.invariant (I := fun _ g => SlotInv g) (fun _ hg => Clear.slotInv hg)
    fun _ _ _ _ _ hg (hs : _ ∧ _) => hg.step hs.1 hs.2

/-- Interrupts that fit stay apart. -/
theorem Distinct.step (hd : g.Distinct) (hg : g.SlotInv) (ha : a.Known) (hfit : g.Fitting a)
    (hs : g.step a = some g') : g'.Distinct := by
  cases a with
  | inject irqId isSgi =>
    cases hs
    have hlt : irqId < 2 ^ 10 := Nat.lt_trans ha (by decide)
    exact ((disciplined_iff hg hlt).mpr ⟨hd, hfit⟩).distinct
  | refill =>
    cases hs
    rcases refillRound_cases g with heq | ⟨virq, virqs, g', hqueue, hinj, heq⟩
    · rw [heq]
      exact hd
    · obtain ⟨hirq, hvirqs⟩ := List.forall_mem_cons.mp (hqueue ▸ hg.queued)
      have hpop : SlotInv { g with pendingVirqs := virqs } := ⟨hg.last, hg.noEoi, hvirqs⟩
      have hfit : Fits { g with pendingVirqs := virqs } virq.1 :=
        ⟨(hfit virq (by rw [hqueue]; rfl)).found, (hfit virq (by rw [hqueue]; rfl)).room⟩
      have hd' : g'.Distinct :=
        hinj ▸ ((disciplined_iff hpop (Nat.lt_trans hirq (by decide))).mpr ⟨hd, hfit⟩).distinct
      rcases heq with heq | heq <;> rw [heq] <;> exact hd'
  | acknowledge i => exact hd.changesState (changesState_acknowledge hs)
  | deactivate i => exact hd.changesState (changesState_deactivate hs)

/-- **The discipline of list registers** in every run: an injection is disciplined exactly when no
interrupt is in two list registers before and this one fits; and no interrupt is in two of them as
long as all fit. -/
theorem disciplined_of_run (r : gichSystem.Run h g) (irqId : Nat) (isSgi : Bool)
    (hirq : irqId < 1020) :
    (g.Disciplined irqId isSgi ↔ g.Distinct ∧ g.Fits irqId) ∧
      ((gichSystem.restrict Fitting).Run h g → g.Distinct) := by
  refine ⟨disciplined_iff (slotInv_of_run r) (Nat.lt_trans hirq (by decide)), fun r' => ?_⟩
  refine r'.invariant (I := fun _ g => Distinct g) (fun _ hg => Clear.distinct hg) ?_
  intro h g a g' r hd hs
  exact hd.step (slotInv_of_run r.of_restrict) hs.2.1 hs.1 hs.2.2

/-- Interrupt 27 comes, is taken by the guest and comes again. -/
theorem disciplined_of_run_timer : ∃ g : Gich,
    gichSystem.Run [.acknowledge 2, .inject 27 false] g ∧ g.Disciplined 27 false ∧
      g.Distinct := by
  have hclear : Clear (giccInit 3) := ⟨fun _ _ => rfl, nofun⟩
  have hinj : gichSystem.step (giccInit 3) (.inject 27 false) _ := ⟨by decide, rfl⟩
  obtain ⟨g, hack, hused, hvint, hpint⟩ : ∃ g,
      (((giccInit 3).injectIrq 27 false).1).acknowledge 2 = some g ∧ g.InUse 2 ∧
        vint (g.lr 2) = 27 ∧ pint (g.lr 2) = 27 := ⟨_, rfl, by decide, by decide, by decide⟩
  have r : gichSystem.Run [.acknowledge 2, .inject 27 false] g :=
    .next (.next (.start hclear) hinj) ⟨trivial, hack⟩
  have hfits : Fits (giccInit 3) 27 := by
    have hclearLr : ∀ i, valid ((giccInit 3).lr i) = false := fun _ =>
      (by decide : valid 0 = false)
    have hnone : ∀ i, ¬ (giccInit 3).InUse i := fun i hi =>
      Bool.false_ne_true ((hclearLr i).symm.trans hi.2)
    refine ⟨iff_of_false ?_ ?_, .inr ⟨0, by decide, hnone 0⟩⟩ <;> rintro ⟨i, hi, -⟩ <;>
      exact hnone i hi
  have hdistinct := (disciplined_of_run r 27 false (by decide)).2
    (.next (.next (.start hclear) ⟨hfits, hinj⟩) ⟨trivial, trivial, hack⟩)
  refine ⟨g, r, (disciplined_of_run r 27 false (by decide)).1.mpr ⟨hdistinct, ?_⟩, hdistinct⟩
  exact ⟨iff_of_true ⟨2, hused, hpint⟩ ⟨2, hused, hvint⟩, .inl ⟨2, hused, hvint⟩⟩

/-- A software-generated interrupt that comes twice is in two list registers; interrupt 1 is dropped
for another one; and an interrupt is turned away while the only list register is free. -/
theorem not_disciplined :
    (∃ g, gichSystem.Run [.inject 7 true] g ∧ ¬ (g.injectIrq 7 true).1.Distinct) ∧
      (∃ g, gichSystem.Run [.inject 3 true] g ∧ g.injectIrq 1 true = (g, true) ∧
        ¬ g.Carries 1) ∧
      ∃ g, gichSystem.Run [] g ∧ (g.injectIrq 27 false).2 = false ∧ g.getLrsNum = 1 ∧
        ¬ g.InUse 0 := by
  have hclear : ∀ vtr, Clear (giccInit vtr) := fun _ => ⟨fun _ _ => rfl, nofun⟩
  refine ⟨⟨_, .next (.start (hclear 3)) ⟨by decide, rfl⟩, fun hdistinct => ?_⟩,
    ⟨_, .next (.start (hclear 3)) ⟨by decide, rfl⟩, rfl, ?_⟩,
    ⟨_, .start (hclear 0), rfl, rfl, by decide⟩⟩
  · exact absurd (hdistinct 1 2 (by decide) (by decide) (by decide)) (by decide)
  · rintro ⟨i, hi, hvint⟩
    have hlt : i < 4 := hi.1
    interval_cases i <;> revert hi hvint <;> decide

/-! ## Interrupts of either kind -/

end Gich

/-- A software-generated interrupt, or one that is private to the CPU or shared. -/
def GichAct.OfKind : GichAct → Prop
  | .inject irqId isSgi => if isSgi then irqId < 16 else 16 ≤ irqId
  | _ => True

namespace Gich

variable {g g' : Gich} {irqId i : Nat} {isSgi : Bool} {a : GichAct} {h : List GichAct}

/-- The physical field has the interrupt itself, or number 1 for a software-generated one. -/
structure KindInv (g : Gich) : Prop where
  slots : ∀ i, g.InUse i → pint (g.lr i) = vint (g.lr i) ∧ 16 ≤ vint (g.lr i) ∨
    pint (g.lr i) = 1 ∧ vint (g.lr i) < 16
  queued : ∀ virq ∈ g.pendingVirqs, (GichAct.inject virq.1 virq.2).OfKind

theorem KindInv.addIrq (hk : g.KindInv) (hirq : (GichAct.inject irqId isSgi).OfKind) :
    (g.addIrq irqId isSgi).KindInv := by
  refine ⟨hk.slots, fun virq hvirq => ?_⟩
  rcases List.mem_append.mp hvirq with hvirq | hvirq
  · exact hk.queued virq hvirq
  · obtain rfl := List.mem_singleton.mp hvirq
    exact hirq

theorem KindInv.injectIrq (hk : g.KindInv) (hlt : irqId < 2 ^ 10)
    (hirq : (GichAct.inject irqId isSgi).OfKind) : (g.injectIrq irqId isSgi).1.KindInv := by
  rcases hinj : g.injectIrq irqId isSgi with ⟨g', fits⟩
  cases hinj ▸ injectionOf g irqId isSgi with
  | listed => exact hk
  | full =>
    have hadd := hk.addIrq hirq
    exact ⟨hadd.slots, hadd.queued⟩
  | placed i _ hi _ =>
    refine ⟨fun j hj => ?_, hk.queued⟩
    by_cases hji : j = i
    · subst hji
      have hself : (g.setLr j (lrValue irqId isSgi)).lr j = lrValue irqId isSgi :=
        Function.update_self _ _ _
      rw [hself, vint_lrValue hlt]
      cases isSgi with
      | false => exact .inl ⟨pint_lrValue hlt, hirq⟩
      | true => exact .inr ⟨pint_lrValue_sgi hlt, hirq⟩
    · have hother : (g.setLr i (lrValue irqId isSgi)).lr j = g.lr j :=
        Function.update_of_ne hji _ _
      rw [hother]
      exact hk.slots j ⟨hj.1, hother ▸ hj.2⟩

theorem KindInv.changesState (hk : g.KindInv) (hc : ChangesState g g' i) : g'.KindInv := by
  obtain ⟨hi, hvalid, val, hval, rfl⟩ := hc
  refine ⟨fun j hj => ?_, hk.queued⟩
  by_cases hji : j = i
  · subst hji
    have hself : (g.setLr j val).lr j = val := Function.update_self _ _ _
    obtain ⟨hvint, hpint⟩ := fields_congr fun k hk =>
      hval k (by omega) (by omega) (by omega)
    rw [hself, hvint, hpint]
    exact hk.slots j ⟨hi, hvalid⟩
  · have hother : (g.setLr i val).lr j = g.lr j := Function.update_of_ne hji _ _
    rw [hother]
    exact hk.slots j ⟨hj.1, hother ▸ hj.2⟩

theorem KindInv.step (hk : g.KindInv) (hg : g.SlotInv) (ha : a.Known) (hkind : a.OfKind)
    (hs : g.step a = some g') : g'.KindInv := by
  cases a with
  | inject irqId isSgi =>
    cases hs
    exact hk.injectIrq (Nat.lt_trans ha (by decide)) hkind
  | refill =>
    cases hs
    rcases refillRound_cases g with heq | ⟨virq, virqs, g', hqueue, hinj, heq⟩
    · rw [heq]
      exact ⟨hk.slots, hk.queued⟩
    · obtain ⟨hkind, hkinds⟩ := List.forall_mem_cons.mp (hqueue ▸ hk.queued)
      have hirq : virq.1 < 1020 := hg.queued virq (hqueue ▸ List.mem_cons_self)
      have hpop : KindInv { g with pendingVirqs := virqs } := ⟨hk.slots, hkinds⟩
      have hk' : g'.KindInv := hinj ▸ hpop.injectIrq (Nat.lt_trans hirq (by decide)) hkind
      rcases heq with heq | heq <;> rw [heq]
      · exact hk'
      · have hadd := hk'.addIrq hkind
        exact ⟨hadd.slots, hadd.queued⟩
  | acknowledge i => exact hk.changesState (changesState_acknowledge hs)
  | deactivate i => exact hk.changesState (changesState_deactivate hs)

/-- **What it takes to fit**, when interrupts of either kind are injected as what they are: room for
one that is private to the CPU or shared; for a software-generated one, that it is in no list
register, except that interrupt 1 is looked for among all of them. -/
theorem fits_iff_of_run {vtr : BitVec 32}
    (r : ((gichSystem.startingAt (giccInit vtr)).restrict fun _ a => a.OfKind).Run h g)
    (irqId : Nat) :
    (16 ≤ irqId → (g.Fits irqId ↔ g.Carries irqId ∨ ∃ i < g.getLrNum, ¬ g.InUse i)) ∧
      (irqId < 16 → irqId ≠ 1 →
        (g.Fits irqId ↔ ¬ g.Carries irqId ∧ ∃ i < g.getLrNum, ¬ g.InUse i)) ∧
      (g.Fits 1 ↔ ((∃ irqId < 16, g.Carries irqId) → g.Carries 1) ∧
        (g.Carries 1 ∨ ∃ i < g.getLrNum, ¬ g.InUse i)) := by
  have hinv : g.SlotInv ∧ g.KindInv := by
    refine r.invariant (I := fun _ g => SlotInv g ∧ KindInv g) (fun g hg => ?_) ?_
    · obtain rfl : g = giccInit vtr := hg
      refine ⟨Clear.slotInv ⟨fun _ _ => rfl, nofun⟩, ⟨fun i hi => ?_, nofun⟩⟩
      exact absurd hi.2 (by decide : ¬ valid 0 = true)
    · intro h g a g' _ hinv (hs : _ ∧ _ ∧ _)
      exact ⟨hinv.1.step hs.2.1 hs.2.2, hinv.2.step hinv.1 hs.2.1 hs.1 hs.2.2⟩
  -- a software-generated interrupt leaves 1 in the field that the search reads
  have hmatches : g.Matches 1 ↔ ∃ irqId < 16, g.Carries irqId := by
    constructor
    · rintro ⟨i, hi, hpint⟩
      rcases hinv.2.slots i hi with ⟨heq, hle⟩ | ⟨-, hlt⟩
      · omega
      · exact ⟨_, hlt, i, hi, rfl⟩
    · rintro ⟨_, hlt, i, hi, rfl⟩
      rcases hinv.2.slots i hi with ⟨heq, hle⟩ | ⟨hpint, -⟩
      · omega
      · exact ⟨i, hi, hpint⟩
  refine ⟨fun hle => ?_, fun hlt hne => ?_, ?_⟩
  · have hfound : g.Matches irqId ↔ g.Carries irqId := by
      refine exists_congr fun i => and_congr_right fun hi => ?_
      have hslot := hinv.2.slots i hi
      omega
    exact ⟨Fits.room, fun hroom => ⟨hfound, hroom⟩⟩
  · -- no field holds the number of another software-generated interrupt
    have hno : ¬ g.Matches irqId := by
      rintro ⟨i, hi, hpint⟩
      have hslot := hinv.2.slots i hi
      omega
    constructor
    · intro hfits
      have hcarries : ¬ g.Carries irqId := fun hc => hno (hfits.found.mpr hc)
      exact ⟨hcarries, hfits.room.resolve_left hcarries⟩
    · rintro ⟨hcarries, hfree⟩
      exact ⟨iff_of_false hno hcarries, .inr hfree⟩
  · have hself : g.Carries 1 → g.Matches 1 := fun hc => hmatches.mpr ⟨1, by decide, hc⟩
    constructor
    · intro hfits
      exact ⟨fun hsgi => hfits.found.mp (hmatches.mpr hsgi), hfits.room⟩
    · rintro ⟨hsgi, hroom⟩
      exact ⟨⟨fun hm => hsgi (hmatches.mp hm), hself⟩, hroom⟩

end Gich

end Hvisor
