import Hvisor.Irqchip.Gich
import Hvisor.Irqchip.Injection

/-!
# The completion of physical interrupts

The handlers of `gicv3/mod.rs` and `gicv2/gic.rs` with what they do at the interface of the CPU:
they acknowledge physical interrupts, drop their priority, and deactivate those that are not left to
a guest. A guest deactivates through a list register that is linked to the physical interrupt. The
log of a CPU is checked against the progress that an interrupt makes.

## Main definitions

* `VirtIface.Linked`: list registers are linked to no physical interrupt but their own
* `GicOp`, `Progress.follow`: the operations, and the order that they have to follow
* `LoggedGic`, `LoggedGic.Settled`: a CPU with its log, and a log that follows the order
* `Gicv3.handleIrqEl1`, `Gicv2.handleIrq`: the handlers
* `Gicv3.system`, `Gicv2.system`: a CPU whose handler takes interrupts

## Main results

* `VirtIface.ownLink_lrValue_iff`: the link of a list register of a GICv3
* `Gicv2.not_settled_maintenance`: what becomes of the maintenance interrupt of a GICv2
* `complete_of_run`: both handlers complete the interrupts that they take, but for the maintenance
  interrupt of a GICv2 and interrupts from 8192 on
-/

namespace Hvisor

/-! ## The link of a list register of a GICv3 -/

/-- The physical interrupt of a list register. -/
def lrPintid (val : BitVec 64) : Nat := val.toNat / 2 ^ 32 % 2 ^ 13

namespace VirtIface

variable {ι : Type*} {v v' : VirtIface ι} {i irqId : Nat} {isHardware : Bool} {val : BitVec 64}

/-- A value that is linked, if at all, to the physical interrupt of the same number. -/
def OwnLink (val : BitVec 64) : Prop := val.getLsbD 61 = true → lrPintid val = lrVintid val

instance (val : BitVec 64) : Decidable (OwnLink val) :=
  inferInstanceAs (Decidable (_ → _))

/-- No valid list register is linked to another physical interrupt. -/
def Linked (v : VirtIface ι) : Prop :=
  ∀ i < v.lrNum, lrValid (v.lr i) = true → OwnLink (v.lr i)

instance (v : VirtIface ι) : Decidable v.Linked :=
  inferInstanceAs (Decidable (∀ i < v.lrNum, lrValid (v.lr i) = true → OwnLink (v.lr i)))

theorem lrPintid_lrValue (h : irqId < 2 ^ 32) (hsgi : ¬ irqId < 16) :
    lrPintid (lrValue irqId true) = irqId % 2 ^ 13 := by
  have hsgi' : isSgi (irqId % 2 ^ 32) = false := by
    rw [isSgi, Nat.mod_eq_of_lt h, decide_eq_false hsgi]
  refine Nat.eq_of_testBit_eq fun k => ?_
  rw [lrPintid, Nat.testBit_mod_two_pow, Nat.testBit_mod_two_pow, Nat.testBit_div_two_pow,
    BitVec.testBit_toNat, getLsbD_lrValue, hsgi']
  by_cases hk : k < 13
  · have hle : 2 ^ 32 ≤ 2 ^ (k + 32) := Nat.pow_le_pow_right Nat.two_pos (Nat.le_add_left 32 k)
    rw [Nat.testBit_lt_two_pow (h.trans_le hle), Nat.add_sub_cancel]
    simp [hk, show k + 32 < 64 by omega, show 60 ≠ k + 32 by omega, show 62 ≠ k + 32 by omega,
      show 61 ≠ k + 32 by omega]
  · rw [decide_eq_false hk, Bool.false_and, Bool.false_and]

theorem getLsbD_61_lrValue (h : irqId < 2 ^ 32) (isHardware : Bool) :
    (lrValue irqId isHardware).getLsbD 61 = (isHardware && !decide (irqId < 16)) := by
  have hbit : irqId.testBit 61 = false := Nat.testBit_lt_two_pow (h.trans (by decide))
  rw [getLsbD_lrValue, hbit, isSgi, Nat.mod_eq_of_lt h]
  cases isHardware <;> simp

/-- **The link of a value that is written**: to its own interrupt, when the number fits into the
physical field, of 13 bits. -/
theorem ownLink_lrValue_iff (h : irqId < 2 ^ 32) :
    OwnLink (lrValue irqId isHardware) ↔ (isHardware = true → irqId < 8192) := by
  rw [OwnLink, getLsbD_61_lrValue h, lrVintid_lrValue h]
  cases isHardware with
  | false => simp
  | true =>
    by_cases hsgi : irqId < 16
    · simp [hsgi, show irqId < 8192 by omega]
    · rw [lrPintid_lrValue h hsgi]
      simp only [hsgi, decide_false, Bool.not_false, Bool.and_true, true_imp_iff]
      omega

/-- The list registers are linked to their own interrupts, and will be when those of the queue
follow. -/
structure LinkInv (v : VirtIface ι) : Prop where
  linked : v.Linked
  queued : ∀ virq ∈ v.pendingVirqs, OwnLink (lrValue virq.irqId virq.isHardware)

theorem linkInv_giccInit (vtr : BitVec 64) (tag : ι) : (giccInit vtr tag).LinkInv := by
  refine ⟨fun i hi hvi => ?_, nofun⟩
  rw [(clear_giccInit vtr tag).1 i hi] at hvi
  cases hvi

theorem LinkInv.update (h : v.LinkInv) (hvtr : v'.vtr = v.vtr)
    (hlr : v'.lr = Function.update v.lr i val) (hqueue : v'.pendingVirqs = v.pendingVirqs)
    (hval : lrValid val = true → OwnLink val) : v'.LinkInv := by
  refine ⟨fun j hj hvalid => ?_, by rw [hqueue]; exact h.queued⟩
  have hnum : v'.lrNum = v.lrNum := by rw [lrNum, hvtr, lrNum]
  rw [hlr] at hvalid ⊢
  by_cases hji : j = i
  · rw [hji, Function.update_self] at hvalid ⊢
    exact hval hvalid
  · rw [Function.update_of_ne hji] at hvalid ⊢
    exact h.linked j (hnum ▸ hj) hvalid

theorem injectRule_linkInv :
    InjectRule (ι := ι) LinkInv fun virq => OwnLink (lrValue virq.irqId virq.isHardware) where
  queued h := h.queued
  of_lr {v v'} h hvtr hlr hqueue := by
    have hnum : v'.lrNum = v.lrNum := by rw [lrNum, hvtr, lrNum]
    refine ⟨?_, hqueue⟩
    rw [Linked, hnum, hlr]
    exact h.linked
  placed h hq _ _ := h.update rfl rfl rfl fun _ => hq

theorem LinkInv.changesState (h : v.LinkInv) (hc : ChangesState v v' i) : v'.LinkInv := by
  obtain ⟨hi, hvi, val, hval, rfl⟩ := hc
  have hpint : lrPintid val = lrPintid (v.lr i) := by
    refine Nat.eq_of_testBit_eq fun k => ?_
    rw [lrPintid, lrPintid, Nat.testBit_mod_two_pow, Nat.testBit_mod_two_pow,
      Nat.testBit_div_two_pow, Nat.testBit_div_two_pow, BitVec.testBit_toNat, BitVec.testBit_toNat]
    by_cases hk : k < 13
    · rw [hval (k + 32) (by omega)]
    · rw [decide_eq_false hk, Bool.false_and, Bool.false_and]
  refine h.update rfl rfl rfl fun _ hhw => ?_
  rw [hpint, lrVintid_congr fun k hk => hval k (hk.trans (by decide))]
  exact h.linked i hi hvi ((hval 61 (by decide)).symm.trans hhw)

end VirtIface

/-! ## The order of operations -/

/-- What is done with physical interrupts at the interface of a CPU. -/
inductive GicOp where
  | ack (irqId : Nat)
  /-- The priority is dropped. -/
  | eoir (irqId : Nat)
  | dir (irqId : Nat)
  /-- The handler returns. -/
  | ret
  /-- A guest deactivates a virtual interrupt, and with it the physical one that is linked. -/
  | guestDir (vint pint : Nat)
  deriving DecidableEq

/-- What has happened to the interrupt that was acknowledged last. -/
inductive Progress where
  | idle
  | acked (irqId : Nat)
  | dropped (irqId : Nat)
  deriving DecidableEq

/-- The operations that may follow: the priority is dropped once for each interrupt, before the next
one and before the handler returns, and an interrupt is deactivated for itself. -/
def Progress.follow : Progress → GicOp → Option Progress
  | .idle, .ack irqId | .dropped _, .ack irqId => some (.acked irqId)
  | .acked irqId, .eoir irqId' => if irqId' = irqId then some (.dropped irqId) else none
  | .acked irqId, .dir irqId' => if irqId' = irqId then some (.acked irqId) else none
  | .dropped irqId, .dir irqId' => if irqId' = irqId then some (.dropped irqId) else none
  | .idle, .ret | .dropped _, .ret => some .idle
  | p, .guestDir vint pint => if vint = pint then some p else none
  | _, _ => none

/-- The interface of a CPU for virtual interrupts, with the log of what is done to physical ones. -/
structure LoggedGic (α : Type*) where
  iface : α
  log : List GicOp

/-- What `check_events` does: the interrupts that it injects, and its result when it returns. -/
structure CheckEvents where
  injected : List (BitVec 32)
  result : Option Bool

namespace LoggedGic

variable {α : Type*} {c : LoggedGic α} {irqId : Nat} {p : Progress} {op : GicOp}

/-- The operation goes to the log. -/
def emit (c : LoggedGic α) (op : GicOp) : LoggedGic α := { c with log := c.log ++ [op] }

/-- The interface changes, and the log stays. -/
def mapIface (c : LoggedGic α) (f : α → α) : LoggedGic α := { c with iface := f c.iface }

/-- The progress after the log, when the log follows the order. -/
def progress (c : LoggedGic α) : Option Progress := c.log.foldlM Progress.follow .idle

theorem progress_emit (h : c.progress = some p) : (c.emit op).progress = p.follow op := by
  rw [progress] at h
  rw [progress, emit, List.foldlM_append, h]
  simp

@[simp] theorem progress_mapIface (f : α → α) : (c.mapIface f).progress = c.progress := rfl

@[simp] theorem iface_emit : (c.emit op).iface = c.iface := rfl

@[simp] theorem iface_mapIface (f : α → α) : (c.mapIface f).iface = f c.iface := rfl

/-- No interrupt is acknowledged whose priority is not dropped. -/
def Settled (c : LoggedGic α) : Prop :=
  c.progress = some .idle ∨ ∃ irqId, c.progress = some (.dropped irqId)

theorem settled_of_log (h : c.log = []) : c.Settled := by
  rw [Settled, progress, h]
  exact .inl rfl

theorem Settled.mapIface (h : c.Settled) (f : α → α) : (c.mapIface f).Settled := h

theorem Settled.ack (h : c.Settled) (irqId : Nat) :
    (c.emit (.ack irqId)).progress = some (.acked irqId) := by
  rcases h with h | ⟨_, h⟩ <;> rw [progress_emit h] <;> rfl

theorem Settled.ret (h : c.Settled) : (c.emit .ret).Settled := by
  rcases h with h | ⟨_, h⟩ <;> exact .inl (progress_emit h)

theorem Settled.guestDir (h : c.Settled) (n : Nat) : (c.emit (.guestDir n n)).Settled := by
  rcases h with h | ⟨irqId, h⟩
  · exact .inl ((progress_emit h).trans (if_pos rfl))
  · exact .inr ⟨irqId, (progress_emit h).trans (if_pos rfl)⟩

/-- `deactivate_irq`: the priority is dropped, and some interrupts are deactivated at once. -/
def deactivateIrq (c : LoggedGic α) (irqId : Nat) (dir : Bool) : LoggedGic α :=
  if dir then (c.emit (.eoir irqId)).emit (.dir irqId) else c.emit (.eoir irqId)

theorem iface_deactivateIrq (dir : Bool) : (c.deactivateIrq irqId dir).iface = c.iface := by
  cases dir <;> rfl

theorem settled_deactivateIrq (h : c.progress = some (.acked irqId)) (dir : Bool) :
    (c.deactivateIrq irqId dir).Settled := by
  have heoir : (c.emit (.eoir irqId)).progress = some (.dropped irqId) :=
    (progress_emit h).trans (if_pos rfl)
  cases dir with
  | false => exact .inr ⟨irqId, heoir⟩
  | true => exact .inr ⟨irqId, (progress_emit heoir).trans (if_pos rfl)⟩

end LoggedGic

/-! ## The handler of a GICv3 -/

namespace Gicv3

/-- A CPU with a GICv3. -/
abbrev Cpu := LoggedGic (VirtIface Unit)

/-- The interrupt that the register names, if any. -/
def pendingIrq (iar : Nat) : Option Nat := if iar = 0x3ff then none else some iar

/-- The priority is dropped; a software or maintenance interrupt is deactivated too. -/
def deactivateIrq (c : Cpu) (irqId : Nat) : Cpu :=
  c.deactivateIrq irqId (decide (irqId < 16 ∨ irqId = MAINTENACE_INTERRUPT))

/-- The interrupt is injected. -/
def injectIrq (c : Cpu) (irqId : Nat) (isHardware : Bool) : Cpu :=
  c.mapIface fun v => (v.injectIrq ⟨irqId, isHardware, ()⟩).1

/-- What `check_events` injects. -/
def checkEvents (c : Cpu) (ev : CheckEvents) : Cpu :=
  ev.injected.foldl (fun c irq => injectIrq c irq.toNat false) c

/-- `gicv3_handle_irq_el1` with one interrupt, and whether the loop goes on. -/
def handleIrq (c : Cpu) (irqId : Nat) (ev : CheckEvents) : Cpu × Bool :=
  if irqId < 8 then
    let c := deactivateIrq c irqId
    if irqId = SGI_IPI_ID then
      match ev.result with
      | none => (checkEvents c ev, false)
      | some true => (checkEvents c ev, true)
      | some false => (injectIrq (checkEvents c ev) irqId false, true)
    else (injectIrq c irqId false, true)
  else if irqId < 16 then (deactivateIrq c irqId, true)
  else if irqId = MAINTENACE_INTERRUPT then
    (deactivateIrq (c.mapIface VirtIface.handleMaintenaceInterrupt) irqId, true)
  else (deactivateIrq (injectIrq c irqId true) irqId, true)

/-- The loop of `gicv3_handle_irq_el1`, over what is read from `ICC_IAR1_EL1`. -/
def handleIrqEl1 (c : Cpu) : List (Nat × CheckEvents) → Cpu
  | [] => c.emit .ret
  | (iar, ev) :: reads =>
    match pendingIrq iar with
    | none => c.emit .ret
    | some irqId =>
      match handleIrq (c.emit (.ack irqId)) irqId ev with
      | (c, true) => handleIrqEl1 c reads
      | (c, false) => c

variable {c : Cpu} {irqId : Nat} {ev : CheckEvents} {reads : List (Nat × CheckEvents)}

/-- The interface is handled as without a log, when `check_events` has nothing to do. -/
theorem iface_handleIrq (c : Cpu) (irqId : Nat) :
    (handleIrq c irqId ⟨[], some false⟩).1.iface = c.iface.gicv3HandleIrq irqId () := by
  rw [handleIrq, VirtIface.gicv3HandleIrq]
  split_ifs <;> simp [deactivateIrq, injectIrq, checkEvents, LoggedGic.iface_deactivateIrq]

theorem linkInv_injectIrq {isHardware : Bool} (h : c.iface.LinkInv) (hirq : irqId < 2 ^ 32)
    (hlt : isHardware = true → irqId < 8192) : (injectIrq c irqId isHardware).iface.LinkInv :=
  VirtIface.injectRule_linkInv.injectIrq h ⟨irqId, isHardware, ()⟩
    ((VirtIface.ownLink_lrValue_iff hirq).mpr hlt)

theorem linkInv_checkEvents (h : c.iface.LinkInv) (ev : CheckEvents) :
    (checkEvents c ev).iface.LinkInv := by
  obtain ⟨injected, result⟩ := ev
  rw [checkEvents]
  induction injected generalizing c with
  | nil => exact h
  | cons irq injected ih => exact ih (linkInv_injectIrq h irq.isLt nofun)

theorem progress_checkEvents (c : Cpu) (ev : CheckEvents) :
    (checkEvents c ev).progress = c.progress := by
  obtain ⟨injected, result⟩ := ev
  rw [checkEvents]
  induction injected generalizing c with
  | nil => rfl
  | cons irq injected ih => exact ih (injectIrq c irq.toNat false)

/-- The priority is dropped and list registers stay linked to their own interrupts. -/
def Good (c : Cpu) : Prop := c.Settled ∧ c.iface.LinkInv

theorem good_deactivateIrq (h : c.progress = some (.acked irqId)) (hlink : c.iface.LinkInv) :
    Good (deactivateIrq c irqId) := by
  refine ⟨LoggedGic.settled_deactivateIrq h _, ?_⟩
  rw [deactivateIrq, LoggedGic.iface_deactivateIrq]
  exact hlink

theorem Good.injectIrq (h : Good c) {isHardware : Bool} (hirq : irqId < 2 ^ 32)
    (hlt : isHardware = true → irqId < 8192) : Good (injectIrq c irqId isHardware) :=
  ⟨h.1.mapIface _, linkInv_injectIrq h.2 hirq hlt⟩

theorem Good.checkEvents (h : Good c) (ev : CheckEvents) : Good (checkEvents c ev) := by
  refine ⟨?_, linkInv_checkEvents h.2 ev⟩
  rw [LoggedGic.Settled, progress_checkEvents]
  exact h.1

/-- **An interrupt of the loop** that is no LPI. -/
theorem good_handleIrq (h : c.progress = some (.acked irqId)) (hlink : c.iface.LinkInv)
    (hlt : irqId < 8192) (ev : CheckEvents) : Good (handleIrq c irqId ev).1 := by
  have hirq : irqId < 2 ^ 32 := hlt.trans (by decide)
  have hdone := good_deactivateIrq h hlink
  rw [handleIrq]
  split_ifs with hsgi hipi
  · dsimp only
    split
    · exact hdone.checkEvents ev
    · exact hdone.checkEvents ev
    · exact (hdone.checkEvents ev).injectIrq hirq nofun
  · exact hdone.injectIrq hirq nofun
  · exact hdone
  · exact good_deactivateIrq h (VirtIface.injectRule_linkInv.handleMaintenaceInterrupt hlink)
  · -- the interrupt is left to the guest, which its list register is linked to
    exact good_deactivateIrq h (linkInv_injectIrq hlink hirq fun _ => hlt)

theorem Good.handleIrqEl1 (h : Good c) (hreads : ∀ read ∈ reads, read.1 < 8192) :
    Good (handleIrqEl1 c reads) := by
  induction reads generalizing c with
  | nil => exact ⟨h.1.ret, h.2⟩
  | cons read reads ih =>
    obtain ⟨iar, ev⟩ := read
    obtain ⟨hlt, hreads⟩ := List.forall_mem_cons.mp hreads
    rw [Gicv3.handleIrqEl1]
    split
    · exact ⟨h.1.ret, h.2⟩
    · next irqId hpending =>
      -- what is acknowledged is what was read
      rw [pendingIrq] at hpending
      split_ifs at hpending
      obtain rfl := Option.some.inj hpending
      have hgood := good_handleIrq (h.1.ack iar) h.2 hlt ev
      split
      · next heq =>
        rw [heq] at hgood
        exact ih hgood hreads
      · next heq =>
        rw [heq] at hgood
        exact hgood

end Gicv3

/-! ## The handler of a GICv2 -/

namespace Gicv2

/-- A CPU with a GICv2. -/
abbrev Cpu := LoggedGic Gich

/-- The number of software interrupts. -/
def GICV2_SGIS_NUM : Nat := 16

/-- The interrupt that the register names, if any. -/
def getPendingIrq (iar : Nat) : Option Nat :=
  let irq := iar % 2 ^ 10
  if 1023 ≤ irq then none else some irq

/-- The priority is dropped; a software interrupt is deactivated too. -/
def deactivateIrq (c : Cpu) (irqId : Nat) : Cpu :=
  c.deactivateIrq irqId (decide (irqId < GICV2_SGIS_NUM))

/-- The interrupt is injected. -/
def injectIrq (c : Cpu) (irqId : Nat) (isSgi : Bool) : Cpu :=
  c.mapIface fun g => (g.injectIrq irqId isSgi).1

/-- What `check_events` injects. -/
def checkEvents (c : Cpu) (ev : CheckEvents) : Cpu :=
  ev.injected.foldl (fun c irq => injectIrq c irq.toNat false) c

/-- `gicv2_handle_irq` with what is read from `GICC_IAR`. -/
def handleIrq (c : Cpu) (iar : Nat) (ev : CheckEvents) : Cpu :=
  match getPendingIrq iar with
  | none => c.emit .ret
  | some irqId =>
    let c := c.emit (.ack irqId)
    if irqId < 8 then
      let c := deactivateIrq c irqId
      if irqId = SGI_IPI_ID then
        match ev.result with
        | none => checkEvents c ev
        | some true => (checkEvents c ev).emit .ret
        | some false => (injectIrq (checkEvents c ev) irqId true).emit .ret
      else (injectIrq c irqId true).emit .ret
    else if irqId < GICV2_SGIS_NUM then (deactivateIrq c irqId).emit .ret
    else if irqId = MAINTENACE_INTERRUPT then
      (c.mapIface Gich.handleMaintenaceInterrupt).emit .ret
    else (injectIrq (deactivateIrq c irqId) irqId false).emit .ret

variable {c : Cpu} {irqId iar : Nat} {ev : CheckEvents}

/-- The priority is dropped and list registers stay linked to their own interrupts. -/
def Good (c : Cpu) : Prop := c.Settled ∧ c.iface.LinkInv

theorem Good.ret (h : Good c) : Good (c.emit .ret) := ⟨h.1.ret, h.2⟩

theorem good_deactivateIrq (h : c.progress = some (.acked irqId)) (hlink : c.iface.LinkInv) :
    Good (deactivateIrq c irqId) := by
  refine ⟨LoggedGic.settled_deactivateIrq h _, ?_⟩
  rw [deactivateIrq, LoggedGic.iface_deactivateIrq]
  exact hlink

theorem Good.injectIrq (h : Good c) {isSgi : Bool}
    (hirq : Gich.OwnLink (Gich.lrValue irqId isSgi)) : Good (injectIrq c irqId isSgi) :=
  ⟨h.1.mapIface _, h.2.injectIrq hirq⟩

theorem Good.checkEvents (h : Good c) (hev : ∀ irq ∈ ev.injected, Gich.Narrow irq.toNat) :
    Good (checkEvents c ev) := by
  obtain ⟨injected, result⟩ := ev
  rw [Gicv2.checkEvents]
  induction injected generalizing c with
  | nil => exact h
  | cons irq injected ih =>
    obtain ⟨hirq, hev⟩ := List.forall_mem_cons.mp hev
    exact ih (h.injectIrq ((Gich.ownLink_lrValue_iff _).mpr hirq)) hev

/-- **An interrupt** that is not the maintenance interrupt. -/
theorem Good.handleIrq (h : Good c) (hiar : iar % 2 ^ 10 ≠ MAINTENACE_INTERRUPT)
    (hev : ∀ irq ∈ ev.injected, Gich.Narrow irq.toNat) : Good (handleIrq c iar ev) := by
  rw [Gicv2.handleIrq]
  split
  · exact h.ret
  · next irqId hpending =>
    have hirqId : irqId = iar % 2 ^ 10 := by
      simp only [getPendingIrq] at hpending
      split_ifs at hpending
      exact (Option.some.inj hpending).symm
    have hlt : irqId < 2 ^ 10 := hirqId ▸ Nat.mod_lt iar (by decide)
    have hdone := good_deactivateIrq (c := c.emit (.ack irqId)) (h.1.ack irqId) h.2
    dsimp only
    split_ifs with hsgi hipi hskip hmaint
    · have hinj := (hdone.checkEvents hev).injectIrq (Gich.ownLink_sgi hsgi)
      split
      · exact hdone.checkEvents hev
      · exact (hdone.checkEvents hev).ret
      · exact hinj.ret
    · exact (hdone.injectIrq (Gich.ownLink_sgi hsgi)).ret
    · exact hdone.ret
    · exact absurd (hirqId.symm.trans hmaint) hiar
    · have hown := (Gich.ownLink_lrValue_iff irqId).mpr (Gich.narrow_of_lt hlt)
      exact (hdone.injectIrq hown).ret

/-- The priority of the maintenance interrupt is never dropped. -/
theorem not_settled_maintenance (h : c.Settled) (hiar : iar % 2 ^ 10 = MAINTENACE_INTERRUPT)
    (ev : CheckEvents) : (handleIrq c iar ev).progress = none := by
  have hpending : getPendingIrq iar = some MAINTENACE_INTERRUPT := by
    simp only [getPendingIrq, hiar]
    rfl
  have hack := h.ack MAINTENACE_INTERRUPT
  rw [handleIrq, hpending]
  exact LoggedGic.progress_emit (c := (c.emit (.ack MAINTENACE_INTERRUPT)).mapIface _) hack

end Gicv2

/-! ## Runs -/

/-- An event on a CPU: the handler takes interrupts, of which `ρ` is what it reads; an interrupt is
injected otherwise; or a guest acts on a list register. -/
inductive GicCpuAct (ρ : Type) where
  | handle (reads : ρ)
  | inject (irq : BitVec 32)
  | acknowledge (i : Nat)
  | deactivate (i : Nat)

namespace Gicv3

/-- A step of the CPU and its guest, on a GICv3. -/
def step (c : Cpu) : GicCpuAct (List (Nat × CheckEvents)) → Option Cpu
  | .handle reads => some (handleIrqEl1 c reads)
  | .inject irq => some (injectIrq c irq.toNat false)
  | .acknowledge i => (c.iface.acknowledge i).map fun v => { c with iface := v }
  | .deactivate i =>
    (c.iface.deactivate i).map fun v =>
      let c' : Cpu := { c with iface := v }
      if (c.iface.lr i).getLsbD 61 then
        c'.emit (.guestDir (lrVintid (c.iface.lr i)) (lrPintid (c.iface.lr i)))
      else c'

/-- A CPU whose list registers are linked to their own interrupts, with nothing in its log. -/
def system : TransitionSystem Cpu (GicCpuAct (List (Nat × CheckEvents))) :=
  .ofStep (fun c => c.log = [] ∧ c.iface.LinkInv) step

/-- The handler takes no interrupt from 8192 on. -/
def NoLpi (_ : Cpu) : GicCpuAct (List (Nat × CheckEvents)) → Prop
  | .handle reads => ∀ read ∈ reads, read.1 < 8192
  | _ => True

variable {c c' : Cpu} {a : GicCpuAct (List (Nat × CheckEvents))}

theorem Good.step (h : Good c) (ha : NoLpi c a) (hs : step c a = some c') : Good c' := by
  cases a with
  | handle reads =>
    cases hs
    exact h.handleIrqEl1 ha
  | inject irq =>
    cases hs
    exact h.injectIrq irq.isLt nofun
  | acknowledge i =>
    obtain ⟨v, hv, rfl⟩ := Option.map_eq_some_iff.mp hs
    exact ⟨h.1, h.2.changesState (VirtIface.changesState_acknowledge hv)⟩
  | deactivate i =>
    obtain ⟨v, hv, rfl⟩ := Option.map_eq_some_iff.mp hs
    have hchange := VirtIface.changesState_deactivate hv
    have hlink := h.2.changesState hchange
    dsimp only
    split_ifs with hhw
    · -- the list register is linked to its own interrupt, which is the one deactivated
      rw [h.2.linked i hchange.1 hchange.2.1 hhw]
      exact ⟨LoggedGic.Settled.guestDir (c := { c with iface := v }) h.1 _, hlink⟩
    · exact ⟨h.1, hlink⟩

theorem good_of_run {h : List _} (r : (system.restrict NoLpi).Run h c) : Good c :=
  r.invariant (I := fun _ c => Good c)
    (fun _ (hinit : _ ∧ _) => ⟨LoggedGic.settled_of_log hinit.1, hinit.2⟩)
    fun _ _ _ _ _ hgood (hs : _ ∧ _) => hgood.step hs.1 hs.2

end Gicv3

namespace Gicv2

/-- A step of the CPU and its guest, on a GICv2. -/
def step (c : Cpu) : GicCpuAct (Nat × CheckEvents) → Option Cpu
  | .handle (iar, ev) => some (handleIrq c iar ev)
  | .inject irq => some (injectIrq c irq.toNat false)
  | .acknowledge i => (c.iface.acknowledge i).map fun g => { c with iface := g }
  | .deactivate i =>
    (c.iface.deactivate i).map fun g =>
      let c' : Cpu := { c with iface := g }
      if Gich.hardware (c.iface.lr i) then
        c'.emit (.guestDir (Gich.vint (c.iface.lr i)) (Gich.pint (c.iface.lr i)))
      else c'

/-- A CPU whose list registers are linked to their own interrupts, with nothing in its log. -/
def system : TransitionSystem Cpu (GicCpuAct (Nat × CheckEvents)) :=
  .ofStep (fun c => c.log = [] ∧ c.iface.LinkInv) step

/-- The handler does not take the maintenance interrupt, and what is injected fits into a list
register. -/
def NoMaintenance (_ : Cpu) : GicCpuAct (Nat × CheckEvents) → Prop
  | .handle (iar, ev) =>
    iar % 2 ^ 10 ≠ MAINTENACE_INTERRUPT ∧ ∀ irq ∈ ev.injected, Gich.Narrow irq.toNat
  | .inject irq => Gich.Narrow irq.toNat
  | _ => True

variable {c c' : Cpu} {a : GicCpuAct (Nat × CheckEvents)}

theorem Good.step (h : Good c) (ha : NoMaintenance c a) (hs : step c a = some c') : Good c' := by
  cases a with
  | handle read =>
    cases hs
    exact h.handleIrq ha.1 ha.2
  | inject irq =>
    cases hs
    exact h.injectIrq ((Gich.ownLink_lrValue_iff _).mpr ha)
  | acknowledge i =>
    obtain ⟨g, hg, rfl⟩ := Option.map_eq_some_iff.mp hs
    exact ⟨h.1, h.2.changesState (Gich.changesState_acknowledge hg)⟩
  | deactivate i =>
    obtain ⟨g, hg, rfl⟩ := Option.map_eq_some_iff.mp hs
    have hchange := Gich.changesState_deactivate hg
    have hlink := h.2.changesState hchange
    dsimp only
    split_ifs with hhw
    · rw [h.2.linked i hchange.1 hchange.2.1 hhw]
      exact ⟨LoggedGic.Settled.guestDir (c := { c with iface := g }) h.1 _, hlink⟩
    · exact ⟨h.1, hlink⟩

theorem good_of_run {h : List _} (r : (system.restrict NoMaintenance).Run h c) : Good c :=
  r.invariant (I := fun _ c => Good c)
    (fun _ (hinit : _ ∧ _) => ⟨LoggedGic.settled_of_log hinit.1, hinit.2⟩)
    fun _ _ _ _ _ hgood (hs : _ ∧ _) => hgood.step hs.1 hs.2

end Gicv2

/-- **Both handlers complete the interrupts that they take**: in every run of a GICv3 without
interrupts from 8192 on, and in every run of a GICv2 without the maintenance interrupt, the log
follows the order, no priority is left to be dropped, and list registers are linked to their own
interrupts. -/
theorem complete_of_run (h₃ : List (GicCpuAct (List (Nat × CheckEvents)))) (c₃ : Gicv3.Cpu)
    (h₂ : List (GicCpuAct (Nat × CheckEvents))) (c₂ : Gicv2.Cpu) :
    ((Gicv3.system.restrict Gicv3.NoLpi).Run h₃ c₃ → c₃.Settled ∧ c₃.iface.Linked) ∧
      ((Gicv2.system.restrict Gicv2.NoMaintenance).Run h₂ c₂ →
        c₂.Settled ∧ c₂.iface.Linked) := by
  constructor
  · intro r
    have hgood := Gicv3.good_of_run r
    exact ⟨hgood.1, hgood.2.linked⟩
  · intro r
    have hgood := Gicv2.good_of_run r
    exact ⟨hgood.1, hgood.2.linked⟩

/-- A timer interrupt that a guest takes, on either. -/
theorem complete_of_run_timer :
    (∃ c, (Gicv3.system.restrict Gicv3.NoLpi).Run
        [.deactivate 0, .acknowledge 0, .handle [(27, ⟨[], some true⟩)]] c ∧
        c.Settled ∧ c.iface.Linked) ∧
      ∃ c, (Gicv2.system.restrict Gicv2.NoMaintenance).Run
        [.deactivate 3, .acknowledge 3, .handle (27, ⟨[], some true⟩)] c ∧
        c.Settled ∧ c.iface.Linked := by
  have h3 : Gicv3.system.init ⟨VirtIface.giccInit 3 (), []⟩ :=
    ⟨rfl, VirtIface.linkInv_giccInit 3 ()⟩
  have h2 : Gicv2.system.init ⟨Gich.giccInit 4, []⟩ := ⟨rfl, Gich.linkInv_giccInit 4⟩
  have r3 : (Gicv3.system.restrict Gicv3.NoLpi).Run
      [.deactivate 0, .acknowledge 0, .handle [(27, ⟨[], some true⟩)]] _ :=
    .next (.next (.next (.start h3) ⟨by simp [Gicv3.NoLpi], rfl⟩) ⟨trivial, rfl⟩) ⟨trivial, rfl⟩
  have r2 : (Gicv2.system.restrict Gicv2.NoMaintenance).Run
      [.deactivate 3, .acknowledge 3, .handle (27, ⟨[], some true⟩)] _ :=
    .next (.next (.next (.start h2) ⟨by simp [Gicv2.NoMaintenance, MAINTENACE_INTERRUPT], rfl⟩)
      ⟨trivial, rfl⟩) ⟨trivial, rfl⟩
  exact ⟨⟨_, r3, (complete_of_run _ _ [] ⟨Gich.giccInit 4, []⟩).1 r3⟩,
    ⟨_, r2, (complete_of_run [] ⟨VirtIface.giccInit 3 (), []⟩ _ _).2 r2⟩⟩

/-- The priority of the maintenance interrupt of a GICv2 is not dropped, and an LPI of a GICv3 is
linked to the timer interrupt. -/
theorem not_complete :
    (∃ c, Gicv2.system.Run [.handle (25, ⟨[], some true⟩)] c ∧ ¬ c.Settled) ∧
      ∃ c, Gicv3.system.Run [.handle [(8219, ⟨[], some true⟩)]] c ∧ ¬ c.iface.Linked := by
  have h3 : Gicv3.system.init ⟨VirtIface.giccInit 3 (), []⟩ :=
    ⟨rfl, VirtIface.linkInv_giccInit 3 ()⟩
  have h2 : Gicv2.system.init ⟨Gich.giccInit 4, []⟩ := ⟨rfl, Gich.linkInv_giccInit 4⟩
  refine ⟨⟨_, .next (.start h2) rfl, fun hsettled => ?_⟩,
    ⟨_, .next (.start h3) rfl, by decide⟩⟩
  have hnone := Gicv2.not_settled_maintenance (LoggedGic.settled_of_log h2.1)
    (by decide : 25 % 2 ^ 10 = MAINTENACE_INTERRUPT) ⟨[], some true⟩
  rcases hsettled with h | ⟨_, h⟩ <;> rw [hnone] at h <;> cases h

end Hvisor
