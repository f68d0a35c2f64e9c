import Hvisor.Zone.VirtioIrqs

/-!
# The zones that interrupts are injected for

A power-off does not wait for the CPUs that it sends a shutdown. Such a CPU may still run the old
guest while the next zone is started on it, and interrupts are recorded for that one. Their event
waits behind the shutdown, or behind the wake-up of the next zone, so that the CPU has left the old
guest when it handles them.

## Main definitions

* `Machine.guest`: the zone whose guest a CPU runs, or goes back to from its handler
* `GuestsInv`: the invariant of guests and interrupts
* `VirtioIrqsOk`: no interrupt is lost or reaches another zone

## Main results

* `guestsInv_of_lifeStep`: what a step preserves
* `virtioIrqs_ok`: while a power-off finds the lists of its zone empty, and takes the CPUs of its
  zone from no interrupt, none is lost or leaked
* `virtioIrqs_not_ok`: a power-off leaves an interrupt behind, which blocks the next zone's
-/

namespace Hvisor

open Mailbox

variable {s s' : Machine} {p c z : Nat} {act : Act} {o : Outcome} {l : IrqLog}

/-! ## Guests -/

/-- The zone whose guest a CPU runs, or goes back to from its handler. -/
def Pc.guest (stage2 : Option Nat) : Pc → Option Nat
  | .event (.activating z) => some z
  | .event .cloning | .event .idling | .event .poweringOff | .event .parking => none
  | .off (.remove _ _) | .systemOff | .panicked _ _ => none
  | _ => stage2

/-- The zone whose guest the CPU runs, or goes back to. -/
def Machine.guest (s : Machine) (c : Nat) : Option Nat := (s.pc c).guest (s.stage2 c)

/-- The CPU handles its list of interrupts. -/
def Pc.HandlesIrqs (pc : Pc) : Prop := pc = .event .irqsLock ∨ pc = .event .irqs

instance (pc : Pc) : Decidable pc.HandlesIrqs := inferInstanceAs (Decidable (_ ∨ _))

/-- The event takes a CPU away from its guest. -/
def IpiEvent.Leaves (e : IpiEvent) : Prop := e = .SHUTDOWN ∨ e = .WAKEUP

/-- The zone is listed, or about to be. -/
def Machine.Started (s : Machine) (z : Nat) : Prop :=
  z ∈ s.zoneList ∨ ∃ q b, s.pc q = .start (.add z b)

/-- An event of interrupts that is queued waits until the CPU has left its guest. -/
def Machine.HoldsBack (s : Machine) (c : Nat) : Prop :=
  Shielded (· = .VIRTIO_INJECT_IRQ) IpiEvent.Leaves (s.events c)

theorem Pc.guest_eq {pc : Pc} (st : Option Nat) (h : ∀ z, pc ≠ .event (.activating z)) :
    pc.guest st = st ∨ pc.guest st = none := by
  unfold Pc.guest
  split
  · next z => exact absurd rfl (h z)
  all_goals first | exact .inr rfl | exact .inl rfl

theorem Pc.HandlesIrqs.guest {pc : Pc} (h : pc.HandlesIrqs) (st : Option Nat) :
    pc.guest st = st := by
  rcases h with rfl | rfl <;> rfl

/-- **Where the guest of a CPU comes from**: the CPU keeps it, leaves it, or clones its zone to run
the guest of that one. -/
theorem guest_of_lifeStep (hs : lifeStep s p act = some (s', o)) (c : Nat) :
    s'.guest c = s.guest c ∨ s'.guest c = none ∨
      c = p ∧ s.pc p = .event .cloning ∧ s'.guest c = s.zone c ∧ s'.zone c = s.zone c := by
  have heff := effect_of_lifeStep hs
  by_cases hcp : c = p
  · subst hcp
    simp only [Machine.guest]
    have hto := heff.leadsTo
    cases hpc : s.pc c with
    | event pc =>
      have hh := eventStep_of_lifeStep hs hpc
      cases pc with
      | cloning =>
        simp only [eventStep] at hh
        split at hh <;> cases hh
        · next z hz =>
          refine .inr (.inr ⟨trivial, rfl, ?_, rfl⟩)
          simp [Machine.goto, Pc.guest, hz]
        · exact .inr (.inl (by simp [Machine.goto, Pc.guest]))
      | _ =>
        simp only [eventStep] at hh
        (try split at hh) <;> cases hh <;>
          simp [Machine.goto, Machine.lockCtrl, Machine.unlockCtrl, Pc.guest]
    | off pc =>
      have hst : s'.stage2 c = s.stage2 c := by
        rcases heff.stage2 c with he | ⟨-, ⟨he, -⟩ | ⟨z, he, -⟩⟩
        · exact he
        all_goals rw [hpc] at he; cases he
      rw [hst]
      cases pc with
      | remove w isRoot =>
        have hh := offStep_of_lifeStep hs hpc
        simp only [offStep] at hh
        split at hh
        · cases hh
        · next hr =>
          cases hh
          refine .inr (.inl ?_)
          rcases pc_of_removeZone hr with he | he | ⟨_, he⟩ <;> cases isRoot <;> rw [he] <;> rfl
      | _ =>
        rw [hpc] at hto
        refine (Pc.guest_eq (s.stage2 c) fun z hz => ?_).imp_right .inl
        rw [hz] at hto
        exact hto.elim
    | systemOff | panicked r zones =>
      have hh := handlerStep_of_lifeStep hs (by simp [hpc])
      rw [handlerStep, hpc] at hh
      cases hh
    | _ =>
      have hst : s'.stage2 c = s.stage2 c := by
        rcases heff.stage2 c with he | ⟨-, ⟨he, -⟩ | ⟨z, he, -⟩⟩
        · exact he
        all_goals rw [hpc] at he; cases he
      rw [hst]
      rw [hpc] at hto
      refine (Pc.guest_eq (s.stage2 c) fun z hz => ?_).imp_right .inl
      rw [hz] at hto
      exact hto.elim
  · exact .inl (by rw [Machine.guest, heff.pc_of_ne hcp, heff.stage2_of_ne hcp, Machine.guest])

/-! ## The invariant -/

/-- **The invariant**: a CPU with the page tables of a zone is on, or on its way; interrupts wait
while a CPU runs the guest of another zone than its own; a CPU that runs the guest of another zone
than the one whose first CPU it is handles no interrupts, and is going to leave the guest; what is
recorded is for the zone of the CPU, and what is handled for the zone that is injected into. -/
structure GuestsInv (s : Machine) (l : IrqLog) : Prop where
  on : ∀ c, s.stage2 c ≠ none → s.powerOn c = true ∨ s.pc c = .event .resetting ∨
    s.pc c = .event .starting ∨ s.pc c = .event .parking
  boot : ∀ q z b, s.pc q = .start (.wake z b) → (s.zones z).cpuSet.firstCpu = some b
  held : ∀ c w, s.guest c = some w → s.zone c ≠ some w → s.HoldsBack c
  first : ∀ c z w, s.Started z → (s.zones z).cpuSet.firstCpu = some c → s.guest c = some w → w ≠ z →
    (∃ e ∈ s.events c, e.Leaves) ∧ ¬ (s.pc c).HandlesIrqs
  waiting : ∀ c irq z, (irq, z) ∈ l.pending c → ¬ (s.pc c).HandlesIrqs → s.zone c = some z
  handled : ∀ c irq z, (irq, z) ∈ l.pending c → (s.pc c).HandlesIrqs → s.virqZone c = some z
  into : ∀ c x zone, (x, zone) ∈ l.injected c → zone = some x.2
  taken : ∀ c, (l.ledger c).taken = (l.injected c).map Prod.fst

/-- A CPU of a zone that is listed, or about to be, has this zone or none. -/
theorem zone_of_has (h : Owned s.owners s.jobs) (hz : s.Started z) (hhas : s.owners.Has z c) :
    s.zone c = some z ∨ s.zone c = none := by
  rcases hz with hlisted | ⟨q, b, hpc⟩
  · rcases h.used z (.inl hlisted) c hhas with he | hwork
    · exact .inl he
    · obtain ⟨p, hp⟩ := h.tears_of_inWork hlisted hwork
      cases hc : s.zone c with
      | none => exact .inr rfl
      | some w => exact .inl (congrArg some (h.eq_of_tears hp hc hhas))
  · have hok := h.job q
    rw [Machine.jobs, hpc] at hok
    exact .inl (hok.2.2.2.2.2 c hhas List.not_mem_nil)

theorem lt_of_started (h : Owned s.owners s.jobs) (hz : s.Started z) : z < s.nextZone := by
  rcases hz with hlisted | ⟨q, b, hpc⟩
  · exact h.lt z hlisted
  · have hok := h.job q
    rw [Machine.jobs, hpc] at hok
    exact hok.2.1

/-- A zone that comes to be started was so, or its first CPU was off and is sent a wake-up. -/
theorem started_of_lifeStep (hs : lifeStep s p act = some (s', o)) (hz : s'.Started z) :
    s.Started z ∨
      ∃ b, s.pc p = .start (.wake z b) ∧ s.powerOn b = false ∧ .WAKEUP ∈ s'.events b := by
  have heff := effect_of_lifeStep hs
  rcases hz with hlisted | ⟨q, b, hq⟩
  · left
    rcases heff.zoneList with he | ⟨w, b, hpc, he⟩ | ⟨w, -, he⟩
    · exact .inl (he ▸ hlisted)
    · rw [he] at hlisted
      rcases List.mem_append.mp hlisted with hold | hnew
      · exact .inl hold
      · rw [List.mem_singleton] at hnew
        exact .inr ⟨p, b, hnew ▸ hpc⟩
    · rw [he] at hlisted
      exact .inl (List.mem_of_mem_erase hlisted)
  · by_cases hqp : q = p
    · subst hqp
      right
      have hto := heff.leadsTo
      rw [hq] at hto
      cases hpc : s.pc q with
      | start pc =>
        have hh := startStep_of_lifeStep hs hpc
        revert hh
        fun_cases startStep s q pc <;> intro hh <;> cases hh <;>
          simp [Machine.goto, Machine.lockCtrl, Machine.send, Machine.unlockCtrl] at hq
        next hoff =>
        obtain ⟨rfl, rfl⟩ := hq
        refine ⟨_, rfl, by simpa using hoff, ?_⟩
        simp [Machine.goto, Machine.send]
      | trap pc =>
        rw [hpc] at hto
        cases pc <;> exact hto.elim
      | _ =>
        rw [hpc] at hto
        exact hto.elim
    · rw [heff.pc_of_ne hqp] at hq
      exact .inl (.inr ⟨q, b, hq⟩)

/-- A CPU stays on, or on its way, while it has the page tables of a zone. -/
theorem on_of_lifeStep (h : GuestsInv s l) (hs : lifeStep s p act = some (s', o))
    (hst : s'.stage2 c ≠ none) : s'.powerOn c = true ∨ s'.pc c = .event .resetting ∨
      s'.pc c = .event .starting ∨ s'.pc c = .event .parking := by
  have heff := effect_of_lifeStep hs
  by_cases hcp : c = p
  · subst hcp
    cases hpc : s.pc c with
    | event pc =>
      have hh := eventStep_of_lifeStep hs hpc
      have hon := h.on c
      rw [hpc] at hon
      cases pc <;> simp only [eventStep] at hh <;> (try split at hh) <;> cases hh <;>
        simp_all [Machine.goto, Machine.lockCtrl, Machine.unlockCtrl]
    | _ =>
      have hst' : s'.stage2 c = s.stage2 c := by
        rcases heff.stage2 c with he | ⟨-, ⟨he, -⟩ | ⟨z, he, -⟩⟩
        · exact he
        all_goals rw [hpc] at he; cases he
      rw [hst'] at hst
      have hold : s.powerOn c = true := by
        refine (h.on c hst).resolve_right ?_
        simp [hpc]
      left
      rcases heff.powerOn c with he | he | ⟨-, he⟩
      · rw [he, hold]
      · exact he
      · rw [hpc] at he
        cases he
  · rw [heff.stage2_of_ne hcp] at hst
    rw [heff.pc_of_ne hcp]
    rcases heff.powerOn c with he | he | ⟨hc, -⟩
    · rw [he]
      exact h.on c hst
    · exact .inl he
    · exact absurd hc hcp

theorem boot_of_lifeStep (ho : Owned s.owners s.jobs) (h : GuestsInv s l)
    (hs : lifeStep s p act = some (s', o)) {q b : Nat} (hq : s'.pc q = .start (.wake z b)) :
    (s'.zones z).cpuSet.firstCpu = some b := by
  have heff := effect_of_lifeStep hs
  by_cases hqp : q = p
  · subst hqp
    have hto := heff.leadsTo
    rw [hq] at hto
    cases hpc : s.pc q with
    | start pc =>
      have hh := startStep_of_lifeStep hs hpc
      revert hh
      fun_cases startStep s q pc <;> intro hh <;> cases hh <;>
        simp [Machine.goto, Machine.lockCtrl, Machine.send, Machine.unlockCtrl] at hq
      next hfirst _ =>
      obtain ⟨rfl, rfl⟩ := hq
      exact hfirst
    | trap pc =>
      rw [hpc] at hto
      cases pc <;> exact hto.elim
    | _ =>
      rw [hpc] at hto
      exact hto.elim
  · rw [heff.pc_of_ne hqp] at hq
    have hok := ho.job q
    rw [Machine.jobs, hq] at hok
    rw [heff.zones z hok.2.1]
    exact h.boot q z b hq

/-! ## What a step preserves -/

/-- A CPU comes to handle its list by the event. -/
theorem handlesIrqs_of_lifeStep (hs : lifeStep s p act = some (s', o))
    (hc : (s'.pc c).HandlesIrqs) : (s.pc c).HandlesIrqs ∨
      c = p ∧ s.pc p = .event .check ∧ s.events p = .VIRTIO_INJECT_IRQ :: s'.events p := by
  have heff := effect_of_lifeStep hs
  by_cases hcp : c = p
  · subst hcp
    have hto := heff.leadsTo
    cases hpc : s.pc c with
    | event pc =>
      have hh := eventStep_of_lifeStep hs hpc
      cases pc with
      | check =>
        simp only [eventStep] at hh
        split at hh <;> cases hh
        case h_3 he =>
          obtain ⟨l, hl⟩ := List.head?_eq_some_iff.mp he
          exact .inr ⟨rfl, rfl, by simp [Machine.goto, fetchEvent, hl]⟩
        all_goals simp [Machine.goto, Pc.HandlesIrqs] at hc
      | irqsLock | irqs => exact .inl (by simp [Pc.HandlesIrqs])
      | _ =>
        simp only [eventStep] at hh
        (try split at hh) <;> cases hh <;>
          simp [Machine.goto, Machine.lockCtrl, Machine.unlockCtrl, Pc.HandlesIrqs] at hc
    | off pc =>
      cases pc with
      | remove w isRoot =>
        have hh := offStep_of_lifeStep hs hpc
        simp only [offStep] at hh
        split at hh
        · cases hh
        · next hr =>
          cases hh
          rcases pc_of_removeZone hr with he | he | ⟨_, he⟩ <;> cases isRoot <;> rw [he] at hc <;>
            simp [Pc.HandlesIrqs] at hc
      | _ =>
        rw [hpc] at hto
        rcases hc with hc | hc <;> rw [hc] at hto <;> exact hto.elim
    | _ =>
      rw [hpc] at hto
      rcases hc with hc | hc <;> rw [hc] at hto <;> exact hto.elim
  · rw [heff.pc_of_ne hcp] at hc
    exact .inl hc

/-- The CPU that loses its zone has nothing recorded, or is another one that is about to inject
it. -/
theorem injects_of_takes (hi : IrqsInv s l) (hg : DrainsIrqs s (p, act, o))
    (htakes : (s.pc p).takes p = some c) {x : Nat × Nat} (hx : x ∈ l.pending c) :
    c ≠ p ∧ s.InjectsIrqs c := by
  have hne : s.irqList c ≠ [] := by
    rw [← hi.pending c, Ne, List.map_eq_nil_iff]
    exact List.ne_nil_of_mem hx
  unfold Pc.takes at htakes
  split at htakes <;> cases htakes
  · next id z todo hpc =>
    -- a shutdown has cleared the list
    have hok := hi.owned.job p
    rw [Machine.jobs, hpc] at hok
    have hhas := (hok.2.2.2.1 c List.mem_cons_self).1
    exact absurd ((hi.swept p z [] (by rw [hpc]; rfl)).2 c hhas List.not_mem_nil).1 hne
  · next z isRoot todo hpc =>
    simp only [DrainsIrqs, hpc] at hg
    have hinj := hg.resolve_left hne
    refine ⟨?_, hinj⟩
    rintro rfl
    rcases hinj.1 with he | he <;> rw [hpc] at he <;> cases he
  · next z isRoot hpc =>
    simp only [DrainsIrqs, hpc] at hg
    exact absurd hg hne

/-- A CPU that is given to a zone had none. -/
theorem zone_of_gives (ho : Owned s.owners s.jobs) (hgives : (s.pc p).gives = some (c, z)) :
    s.zone c = none := by
  unfold Pc.gives at hgives
  split at hgives <;> cases hgives
  next config todo hpc =>
  have hok := ho.job p
  rw [Machine.jobs, hpc] at hok
  exact (hok.2.2.2.2.1 c List.mem_cons_self).2

/-- An interrupt is recorded for a CPU that has the zone. -/
theorem zone_of_record (hg : DrainsIrqs s (p, act, o)) {irq : Nat}
    (hop : s.irqOp p = .record c irq z) : s.zone c = some z := by
  obtain ⟨⟨results, hpc⟩, -⟩ := of_record hop
  simp only [DrainsIrqs, hpc] at hg
  exact hg c hop

/-- **An event of interrupts does not overtake the shutdown** of a CPU that lost its zone. -/
theorem held_of_lifeStep (hi : IrqsInv s l) (h : GuestsInv s l) (hg : DrainsIrqs s (p, act, o))
    (hs : lifeStep s p act = some (s', o)) {w : Nat} (hgw : s'.guest c = some w)
    (hz : s'.zone c ≠ some w) : s'.HoldsBack c := by
  have heff := effect_of_lifeStep hs
  have hguest : s.guest c = some w := by
    rcases guest_of_lifeStep hs c with he | he | ⟨-, -, he, hzone⟩
    · rw [← he, hgw]
    · rw [he] at hgw
      cases hgw
    · exact absurd (hzone.trans (he.symm.trans hgw)) hz
  -- the zone that the CPU had is not the one of its guest, or is taken from it now
  have hcases : s.zone c ≠ some w ∨ (s.pc p).takes p = some c := by
    rcases heff.zone c with he | ⟨htakes, -⟩ | ⟨z, hgives, -⟩
    · exact .inl (he ▸ hz)
    · exact .inr htakes
    · left
      simp [zone_of_gives hi.owned hgives]
  rcases hcases with hold | htakes
  · have hback := h.held c w hguest hold
    cases (irqEffect_of_lifeStep hs).queue c with
    | keep he => rwa [Machine.HoldsBack, he]
    | fetch e hcp hcheck he hpc =>
      subst hcp
      rw [Machine.HoldsBack, he] at hback
      rcases hback with hleaves | ⟨-, hrest⟩
      · rw [Machine.guest, hpc] at hgw
        rcases hleaves with rfl | rfl <;> cases hgw
      · exact hrest
    | shutdown he hdrop =>
      rw [Machine.HoldsBack, he]
      exact .inl (.inl rfl)
    | send e he hne hrecord =>
      rw [Machine.HoldsBack, he]
      refine hback.append ?_
      by_cases hirq : e = .VIRTIO_INJECT_IRQ
      · obtain ⟨irq, z, hop⟩ := hrecord hirq
        obtain ⟨⟨results, hpc⟩, hfirst⟩ := of_record hop
        have hzone := zone_of_record hg hop
        refine .inl (h.first c z w (.inl (hi.about p z irq results hpc)) hfirst hguest ?_).1
        rintro rfl
        exact hold hzone
      · exact .inr hirq
  · unfold Pc.takes at htakes
    split at htakes <;> cases htakes
    · next id z todo hpc =>
      -- a shutdown has dropped the events of interrupts
      have hok := hi.owned.job p
      rw [Machine.jobs, hpc] at hok
      have hhas := (hok.2.2.2.1 c List.mem_cons_self).1
      have hnone := ((hi.swept p z [] (by rw [hpc]; rfl)).2 c hhas List.not_mem_nil).2
      refine shielded_of_forall fun e he hirq => ?_
      subst hirq
      rcases ((irqEffect_of_lifeStep hs).queue c).of_mem he with hmem | ⟨irq, w, hop⟩
      · exact hnone hmem
      · obtain ⟨⟨results, hpc'⟩, -⟩ := of_record hop
        rw [hpc] at hpc'
        cases hpc'
    · next z isRoot todo hpc =>
      rw [Machine.HoldsBack, events_of_shutdown hs (.inr ⟨z, isRoot, todo, hpc⟩)]
      exact .inl (.inl rfl)
    · next z isRoot hpc =>
      -- the CPU that powers its own zone off does not go back to the guest
      have hh := offStep_of_lifeStep hs hpc
      rw [offStep] at hh
      cases hh
      simp [Machine.guest, Machine.goto, Pc.guest] at hgw

/-- **A CPU that still runs another guest leaves it** before it handles interrupts of its zone. -/
theorem first_of_lifeStep (hi : IrqsInv s l) (h : GuestsInv s l)
    (hs : lifeStep s p act = some (s', o)) {w : Nat} (hz : s'.Started z)
    (hfirst : (s'.zones z).cpuSet.firstCpu = some c) (hgw : s'.guest c = some w) (hne : w ≠ z) :
    (∃ e ∈ s'.events c, e.Leaves) ∧ ¬ (s'.pc c).HandlesIrqs := by
  have heff := effect_of_lifeStep hs
  rcases started_of_lifeStep hs hz with hold | ⟨b, hpc, hoff, hwake⟩
  · rw [heff.zones z (lt_of_started hi.owned hold)] at hfirst
    have hzone := zone_of_has hi.owned hold (CpuSet.containsCpu_of_firstCpu hfirst)
    have hguest : s.guest c = some w := by
      rcases guest_of_lifeStep hs c with he | he | ⟨-, -, he, -⟩
      · rw [← he, hgw]
      · rw [he] at hgw
        cases hgw
      · rw [he] at hgw
        rcases hzone with hzone | hzone <;> rw [hzone] at hgw <;> cases hgw
        exact absurd rfl hne
    obtain ⟨⟨e, hmem, hleaves⟩, hnot⟩ := h.first c z w hold hfirst hguest hne
    have hback : s.HoldsBack c := by
      refine h.held c w hguest fun hw => ?_
      rcases hzone with hzone | hzone <;> rw [hzone] at hw <;> cases hw
      exact hne rfl
    refine ⟨?_, fun hhandles => ?_⟩
    · cases (irqEffect_of_lifeStep hs).queue c with
      | keep he => exact ⟨e, he ▸ hmem, hleaves⟩
      | fetch e' hcp hcheck he hpc =>
        subst hcp
        rw [he] at hmem
        rcases List.mem_cons.mp hmem with rfl | hmem
        · rw [Machine.guest, hpc] at hgw
          rcases hleaves with rfl | rfl <;> cases hgw
        · exact ⟨e, hmem, hleaves⟩
      | shutdown he hdrop =>
        rw [he]
        exact ⟨.SHUTDOWN, List.mem_singleton_self _, .inl rfl⟩
      | send e' he hne' hrecord =>
        rw [he]
        exact ⟨e, List.mem_append_left _ hmem, hleaves⟩
    · rcases handlesIrqs_of_lifeStep hs hhandles with hh | ⟨rfl, -, hev⟩
      · exact hnot hh
      · rw [Machine.HoldsBack, hev] at hback
        rcases hback with (he | he) | ⟨he, -⟩
        · cases he
        · cases he
        · exact he rfl
  · -- the first CPU is off, so that it runs no guest, or has just got its page tables
    have hlt : z < s.nextZone := by
      have hok := hi.owned.job p
      rw [Machine.jobs, hpc] at hok
      exact hok.2.1
    rw [heff.zones z hlt, h.boot p z b hpc] at hfirst
    obtain rfl := Option.some.inj hfirst
    refine ⟨⟨.WAKEUP, hwake, .inr rfl⟩, fun hhandles => ?_⟩
    rcases handlesIrqs_of_lifeStep hs hhandles with hh | ⟨rfl, hcheck, -⟩
    · have hbp : b ≠ p := by
        rintro rfl
        rcases hh with hh | hh <;> rw [hpc] at hh <;> cases hh
      rw [Machine.guest, heff.pc_of_ne hbp, hh.guest, heff.stage2_of_ne hbp] at hgw
      rcases h.on b (by simp [hgw]) with hon | hat
      · rw [hoff] at hon
        cases hon
      · rcases hh with hh | hh <;> simp [hh] at hat
    · rw [hpc] at hcheck
      cases hcheck

/-- What is recorded for a CPU is for its zone. -/
theorem waiting_of_lifeStep (hi : IrqsInv s l) (h : GuestsInv s l) (hg : DrainsIrqs s (p, act, o))
    (hs : lifeStep s p act = some (s', o)) {irq : Nat}
    (hc : (irq, z) ∈ ((s.irqOp p).log l).pending c) (hnot : ¬ (s'.pc c).HandlesIrqs) :
    s'.zone c = some z := by
  have heff := effect_of_lifeStep hs
  rcases IrqOp.mem_of_mem_log hc with ⟨hold, hinj⟩ | hop
  · have hwait : ¬ (s.pc c).HandlesIrqs := by
      intro hh
      by_cases hcp : c = p
      · subst hcp
        rcases hh with hh | hh
        · exact hnot (.inr ((irqEffect_of_lifeStep hs).injects hh))
        · exact hinj (s.virqZone c) (by rw [Machine.irqOp, hh])
      · exact hnot (by rwa [heff.pc_of_ne hcp])
    have hzone := h.waiting c irq z hold hwait
    rcases heff.zone c with he | ⟨htakes, -⟩ | ⟨w, hgives, -⟩
    · rw [he, hzone]
    · exact absurd (injects_of_takes hi hg htakes hold).2.1 hwait
    · rw [zone_of_gives hi.owned hgives] at hzone
      cases hzone
  · obtain ⟨⟨results, hpc⟩, -⟩ := of_record hop
    have hzone := zone_of_record hg hop
    rcases heff.zone c with he | ⟨htakes, -⟩ | ⟨w, hgives, -⟩
    · rw [he, hzone]
    all_goals simp [hpc, Pc.takes, Pc.gives] at *

/-- What a CPU handles is for the zone that it injects into. -/
theorem handled_of_lifeStep (hi : IrqsInv s l) (h : GuestsInv s l) (hg : DrainsIrqs s (p, act, o))
    (hs : lifeStep s p act = some (s', o)) {irq : Nat}
    (hc : (irq, z) ∈ ((s.irqOp p).log l).pending c) (hhandles : (s'.pc c).HandlesIrqs) :
    s'.virqZone c = some z := by
  have heff := effect_of_lifeStep hs
  have hst : s'.stage2 c = s.stage2 c := by
    rcases heff.stage2 c with he | ⟨rfl, hpc⟩
    · exact he
    · rcases handlesIrqs_of_lifeStep hs hhandles with (hh | hh) | ⟨-, hh, -⟩ <;> simp [hh] at hpc
  rw [Machine.virqZone, hst]
  rcases IrqOp.mem_of_mem_log hc with ⟨hold, hinj⟩ | hop
  · rcases handlesIrqs_of_lifeStep hs hhandles with hh | ⟨rfl, hcheck, hev⟩
    · have hzone := h.handled c irq z hold hh
      rw [Machine.virqZone] at hzone
      cases hw : s.stage2 c with
      | some w => rwa [hw] at hzone
      | none =>
        rw [hw, Option.none_or] at hzone
        rw [Option.none_or]
        rcases heff.zone c with he | ⟨htakes, -⟩ | ⟨w, hgives, -⟩
        · rw [he, hzone]
        · exact absurd hw (injects_of_takes hi hg htakes hold).2.2
        · rw [zone_of_gives hi.owned hgives] at hzone
          cases hzone
    · have hzone := h.waiting c irq z hold (by rw [hcheck]; rintro (he | he) <;> cases he)
      have hsame : s'.zone c = s.zone c := by
        rcases heff.zone c with he | ⟨htakes, -⟩ | ⟨w, hgives, -⟩
        · exact he
        all_goals simp [hcheck, Pc.takes, Pc.gives] at *
      cases hw : s.stage2 c with
      | none => rw [Option.none_or, hsame, hzone]
      | some w =>
        rw [Option.some_or]
        by_contra hne
        -- the event would have overtaken a shutdown
        have hback := h.held c w (by rw [Machine.guest, hcheck]; exact hw)
          (by rw [hzone]; exact Ne.symm hne)
        rw [Machine.HoldsBack, hev] at hback
        rcases hback with (he | he) | ⟨he, -⟩
        · cases he
        · cases he
        · exact he rfl
  · obtain ⟨⟨results, hpc⟩, hfirst⟩ := of_record hop
    have hzone := zone_of_record hg hop
    have hsame : s'.zone c = s.zone c := by
      rcases heff.zone c with he | ⟨htakes, -⟩ | ⟨w, hgives, -⟩
      · exact he
      all_goals simp [hpc, Pc.takes, Pc.gives] at *
    cases hw : s.stage2 c with
    | none => rw [Option.none_or, hsame, hzone]
    | some w =>
      rw [Option.some_or]
      by_contra hne
      rcases handlesIrqs_of_lifeStep hs hhandles with hh | ⟨-, hcheck, -⟩
      · refine (h.first c z w (.inl (hi.about p z irq results hpc)) hfirst ?_ ?_).2 hh
        · rw [Machine.guest, hh.guest, hw]
        · rintro rfl
          exact hne rfl
      · rw [hpc] at hcheck
        cases hcheck

/-- **The step lemma.** -/
theorem guestsInv_of_lifeStep (hi : IrqsInv s l) (h : GuestsInv s l)
    (hg : DrainsIrqs s (p, act, o)) (hs : lifeStep s p act = some (s', o)) :
    GuestsInv s' ((s.irqOp p).log l) := by
  refine ⟨fun _ => on_of_lifeStep h hs, fun _ _ _ => boot_of_lifeStep hi.owned h hs,
    fun _ _ => held_of_lifeStep hi h hg hs, fun _ _ _ => first_of_lifeStep hi h hs,
    fun _ _ _ => waiting_of_lifeStep hi h hg hs, fun _ _ _ => handled_of_lifeStep hi h hg hs,
    fun c x zone hx => ?_, IrqOp.taken_log h.taken _⟩
  rcases IrqOp.mem_of_mem_injected hx with hold | ⟨hop, hpending⟩
  · exact h.into c x zone hold
  · obtain ⟨rfl, hpc, rfl⟩ := of_inject hop
    exact h.handled c x.1 x.2 hpending (.inr hpc)

theorem guestsInv_of_initial (hi : s.Initial) : GuestsInv s .empty := by
  obtain ⟨root, hlist, -, -, hzone⟩ := hi.list
  have hguest : ∀ {c w}, s.guest c = some w → s.zone c = some w := by
    intro c w hgw
    rw [Machine.guest, hi.pc c] at hgw
    rcases hi.stage2 c with he | he
    · exact absurd (hgw.symm.trans he) (by simp)
    · exact he.symm.trans hgw
  refine ⟨fun c hc => ?_, fun q z b hq => ?_, fun c w hgw hz => ?_,
    fun c z w hz hfirst hgw hne => ?_, nofun, nofun, nofun, fun _ => rfl⟩
  · left
    rw [hi.powerOn c, Option.isSome_iff_ne_none]
    exact hc
  · rw [hi.pc q] at hq
    cases hq
  · exact absurd (hguest hgw) hz
  · -- a CPU that runs a guest has the root zone
    have hcw := hguest hgw
    rw [hzone c] at hcw
    split_ifs at hcw
    cases hcw
    rcases hz with hz | ⟨q, b, hq⟩
    · rw [hlist, List.mem_singleton] at hz
      exact absurd hz.symm hne
    · rw [hi.pc q] at hq
      cases hq

/-! ## Runs -/

/-- **No interrupt is lost or leaked**: a CPU with a list has an event queued, or has fetched it;
what was recorded was injected, in order, is in the list, or was dropped by the shutdown of its
zone; what was injected was injected for the zone that it was recorded for; and what is in the list
of a CPU was recorded for the CPU's zone. -/
structure VirtioIrqsOk (s : Machine) (l : IrqLog) : Prop where
  queued : s.virtioIrqsLock = none → ∀ c, s.irqList c ≠ [] →
    .VIRTIO_INJECT_IRQ ∈ s.events c ∨ s.pc c = .event .irqsLock
  pending : ∀ c, (l.pending c).map Prod.fst = s.irqList c
  injected : ∀ c, (l.ledger c).kept = (l.injected c).map Prod.fst ++ l.pending c
  into : ∀ c x zone, (x, zone) ∈ l.injected c → zone = some x.2
  dropped : ∀ p id z c todo, s.pc p = .stop (.send id z c todo) → ∀ x ∈ l.pending c, x.2 = z
  own : ∀ c x z, x ∈ l.pending c → s.zone c = some z → x.2 = z

theorem IrqsInv.ok (h : IrqsInv s l) (hguests : GuestsInv s l) : VirtioIrqsOk s l := by
  refine ⟨fun hfree c hc => ?_, h.pending, fun c => ?_, hguests.into,
    fun p id z c todo hpc x hx => ?_, fun c x z hx hz => ?_⟩
  · refine (h.queued c hc).imp_right fun hpc => hpc.resolve_right fun hirqs => ?_
    rw [h.lock c (by rw [hirqs]; rfl)] at hfree
    cases hfree
  · rw [← hguests.taken c]
    exact h.balanced c
  · obtain ⟨hlisted, hhas⟩ := h.recorded c x.1 x.2 hx
    have hz := h.torn p z (by rw [Machine.jobs, hpc]; rfl)
    have hc := (h.swept p z (c :: todo) (by rw [hpc]; rfl)).1 c List.mem_cons_self
    exact h.owned.disjoint x.2 hlisted z hz c hhas hc
  · obtain ⟨hlisted, hhas⟩ := h.recorded c x.1 x.2 hx
    rcases zone_of_has h.owned (.inl hlisted) hhas with he | he <;> rw [he] at hz <;> cases hz
    rfl

/-- **Interrupts of virtio devices are neither lost nor leaked** in a run without overlap in which a
power-off finds no interrupt that is recorded, or about to be, for its zone, and none is recorded
for a CPU that a power-off has taken. -/
theorem virtioIrqs_ok {h : List (Nat × Act × Outcome)} {x : Machine × IrqLog}
    (r : (irqLifecycle.restrict fun x e => NoOverlap x.1 e ∧ DrainsIrqs x.1 e).Run h x) :
    VirtioIrqsOk x.1 x.2 := by
  have hinv : IrqsInv x.1 x.2 ∧ GuestsInv x.1 x.2 := by
    refine r.invariant (I := fun _ x => IrqsInv x.1 x.2 ∧ GuestsInv x.1 x.2) ?_ ?_
    · rintro ⟨s, l⟩ ⟨hi, hl, rfl⟩
      exact ⟨irqsInv_of_initial hi hl, guestsInv_of_initial hi⟩
    · rintro _ ⟨s, l⟩ ⟨p, act, o⟩ ⟨s', l'⟩ - ⟨h, hguests⟩ ⟨⟨hn, hg⟩, hs, rfl⟩
      exact ⟨irqsInv_of_lifeStep h hn hg hs, guestsInv_of_lifeStep h hguests hg hs⟩
  exact hinv.1.ok hinv.2

/-- A run of given steps is one with a log. -/
theorem irqRun_of_lifeRun {G : Machine → Nat × Act × Outcome → Prop}
    {check : Machine → Nat → Act → Bool}
    (hcheck : ∀ s p act o, (∀ c, s.ncpu ≤ c → s.pc c = .lower) → check s p act = true →
      G s (p, act, o))
    {acts : List (Nat × Act)} {h h' : List (Nat × Act × Outcome)}
    (r : (irqLifecycle.restrict fun x e => G x.1 e).Run h (s, l))
    (hout : ∀ c, s.ncpu ≤ c → s.pc c = .lower)
    (hr : lifeRun check acts (h, s) = some (h', s')) :
    ∃ l', (irqLifecycle.restrict fun x e => G x.1 e).Run h' (s', l') := by
  induction acts generalizing h s l with
  | nil =>
    cases hr
    exact ⟨l, r⟩
  | cons a acts ih =>
    obtain ⟨p, act⟩ := a
    rw [lifeRun] at hr
    split at hr
    · next hc =>
      split at hr
      · next s₁ o hs =>
        have heff := effect_of_lifeStep hs
        refine ih (.next (e := (p, act, o)) r ⟨hcheck s p act o hout hc, hs, rfl⟩) ?_ hr
        intro c hcpu
        rw [heff.ncpu] at hcpu
        rw [heff.pc_of_ne (Nat.ne_of_gt (Nat.lt_of_lt_of_le (lt_of_lifeStep hs) hcpu))]
        exact hout c hcpu
      · cases hr
    · cases hr

theorem irqLifecycle_init : irqLifecycle.init (bootMachine, .empty) :=
  ⟨bootMachine_initial, fun _ => rfl, rfl⟩

/-- What `DrainsIrqs` asks for of a record; where it asks for something of a power-off, there is
none. -/
def drainsIrqsCheck (s : Machine) (p : Nat) (act : Act) : Bool :=
  match s.pc p with
  | .lookup (.injectSend z _ _) =>
    match (s.zones z).cpuSet.firstCpu with
    | some c => s.zone c == some z
    | none => true
  | .off (.clear _ _ _ _) | .off (.self _ _) | .off (.remove _ _) => false
  | .lower => act != .systemOff
  | _ => true

theorem drainsIrqs_of_check (hc : drainsIrqsCheck s p act = true) : DrainsIrqs s (p, act, o) := by
  unfold drainsIrqsCheck at hc
  unfold DrainsIrqs
  split at hc
  · next z irq results hpc =>
    simp only [hpc]
    intro c hop
    rw [(of_record hop).2] at hc
    exact beq_iff_eq.mp hc
  all_goals simp_all

/-- CPU `p` records interrupts for zones and is not disturbed. -/
def injectActs (p : Nat) (results : List (Nat × Nat)) : List (Nat × Act) :=
  (p, .hvc (.inject results)) :: List.replicate (2 * results.length + 5) (p, .step)

/-- CPU `p` takes an interrupt and handles what is recorded for it. -/
def handleActs (p : Nat) : List (Nat × Act) := (p, .irq) :: List.replicate 3 (p, .step)

/-- Zone 1 runs on CPU 2, which has handled one interrupt and is about to handle the next one. -/
theorem virtioIrqs_ok_inject : ∃ h s l,
    (irqLifecycle.restrict fun x e => NoOverlap x.1 e ∧ DrainsIrqs x.1 e).Run h (s, l) ∧
      s.irqList 2 = [6] ∧ VirtioIrqsOk s l := by
  have hr : ((lifeRun (fun s p act => noOverlapCheck s p act && drainsIrqsCheck s p act)
      (startActs 0 1 [2] ++ wakeActs 2 ++ injectActs 0 [(1, 5)] ++ handleActs 2 ++
        injectActs 0 [(1, 6)]) ([], bootMachine)).map fun r => r.2.irqList 2) = some [6] := by
    decide +kernel
  obtain ⟨⟨h, s⟩, hrun, he⟩ := Option.map_eq_some_iff.mp hr
  obtain ⟨l, r⟩ := irqRun_of_lifeRun (G := fun s e => NoOverlap s e ∧ DrainsIrqs s e)
    (fun s p act o hout hc => ⟨noOverlap_of_check hout (Bool.and_eq_true_iff.mp hc).1,
      drainsIrqs_of_check (Bool.and_eq_true_iff.mp hc).2⟩)
    (.start irqLifecycle_init) (fun _ _ => rfl) hrun
  exact ⟨h, s, l, r, he, virtioIrqs_ok r⟩

/-- Zone 1 runs on CPUs 2 and 3. An interrupt is recorded for it, and CPU 3 powers the zone off
before CPU 2 handles the event: the interrupt stays, and the event is gone. -/
theorem virtioIrqs_not_ok : ¬ ∀ h s l, irqLifecycle.Run h (s, l) → VirtioIrqsOk s l := by
  have hr : ((lifeRun (fun _ _ _ => true) (startActs 0 1 [2, 3] ++ wakeActs 2 ++ cpuOnActs 2 3 ++
      wakeActs 3 ++ injectActs 0 [(1, 5)] ++ offActs 3 [2] ++ parkActs 2)
        ([], bootMachine)).map fun r =>
          (r.2.virtioIrqsLock, r.2.irqList 2, r.2.events 2, r.2.pc 2)) =
            some (none, [5], [], .lower) := by
    decide +kernel
  intro hall
  obtain ⟨⟨h, s⟩, hrun, he⟩ := Option.map_eq_some_iff.mp hr
  obtain ⟨l, r⟩ := irqRun_of_lifeRun (G := fun _ _ => True) (fun _ _ _ _ _ _ => trivial)
    (.start irqLifecycle_init) (fun _ _ => rfl) hrun
  simp only [Prod.mk.injEq] at he
  obtain ⟨hlock, hlist, hevents, hpc⟩ := he
  rcases (hall h s l r.of_restrict).queued hlock 2 (by rw [hlist]; nofun) with hq | hq
  · rw [hevents] at hq
    cases hq
  · rw [hpc] at hq
    cases hq

end Hvisor
