import Hvisor.Zone.Overlap

/-!
# CPUs of a zone that was shut down

`hv_zone_shutdown` waits until the CPUs of the zone are off, takes the zone from them, and drops it.
A CPU is off for good when it is parked, no wake-up of it is queued or under way, and nobody sends
it one. In runs where the wait for a CPU ends for that reason, and nobody wakes the CPU up
afterwards, no CPU runs the zone when the shutdown returns, or later.

## Main definitions

* `Off`, `Quiet`: a CPU that is off for good, and that left its page tables as well
* `PowerOk`: what `power_on` says
* `Machine.Passed`, `Machine.Cleared`: the CPUs that a shutdown has waited for and has taken
* `Orderly`: the condition on a step
* `Gone`: no CPU has anything of a zone

## Main results

* `off_of_lifeStep`: a CPU that is off stays off until it is woken up
* `shutdown_quiescent`: a shutdown that returns leaves the zone's CPUs quiet, and the zone gone
* `shutdown_not_quiescent`: a sibling that calls `CPU_ON` in time makes it run the zone instead
-/

namespace Hvisor

variable {s s' : Machine} {p c z : Nat} {act : Act} {o : Outcome}

/-! ## CPUs that are off -/

/-- On the way from a wake-up to the guest. -/
def Pc.Waking : Pc → Prop
  | .event .cloning | .event (.activating _) | .event .resetting | .event .starting => True
  | _ => False

/-- In the parking loop, in an interrupt, in `idle`, or stuck. -/
def Pc.Resting : Pc → Prop
  | .lower | .panicked _ _ => True
  | .event pc => ¬ (Pc.event pc).Waking
  | _ => False

/-- The CPU does not run a guest, or is about to park, and nothing wakes it up. -/
structure Off (s : Machine) (c : Nat) : Prop where
  pc : (s.pc c).Resting
  tables : s.stage2 c = none ∨ s.pc c = .event .parking
  queue : .WAKEUP ∉ s.events c
  send : ∀ p, s.pc p ≠ .trap (.cpuOnSend c)

/-- The CPU is off, and left the page tables of its zone. -/
structure Quiet (s : Machine) (c : Nat) : Prop extends Off s c where
  parked : s.stage2 c = none

/-- A resting CPU without wake-ups rests, and parks. -/
theorem resting_of_eventStep {pc : EventPc} (hpc : s.pc p = .event pc) (hn : ¬ (s.pc p).Waking)
    (ht : s.stage2 p = none ∨ s.pc p = .event .parking) (hq : .WAKEUP ∉ s.events p)
    (hs : eventStep s p pc = some (s', o)) :
    (s'.pc p).Resting ∧ (s'.stage2 p = none ∨ s'.pc p = .event .parking) := by
  have hst : pc ≠ .parking → s.stage2 p = none := by
    intro hne
    refine ht.resolve_right ?_
    rw [hpc]
    rintro ⟨⟩
    exact hne rfl
  rw [hpc] at hn
  cases pc with
  | check =>
    have hhead : (fetchEvent s.events p).1 ≠ some .WAKEUP := fun hw => hq (List.mem_of_mem_head? hw)
    simp only [eventStep] at hs
    split at hs
    · next hw => exact absurd hw hhead
    all_goals
      cases hs
      exact ⟨by simp [Machine.goto, Pc.Resting, Pc.Waking], .inl (hst (by simp))⟩
  | cloning | activating z | resetting | starting => exact absurd trivial hn
  | parking =>
    cases hs
    exact ⟨by simp [Machine.goto, Pc.Resting], .inl (by simp [Machine.goto])⟩
  | idling | poweringOff | irqsLock | irqs =>
    simp only [eventStep] at hs
    (try split at hs) <;> cases hs <;>
      exact ⟨by simp [Machine.goto, Pc.Resting, Pc.Waking], .inl (hst (by simp))⟩

/-- A parked CPU takes interrupts only. -/
theorem irq_of_trapEntry (ht : s.stage2 p = none) (hs : trapEntry s p act = some s') :
    s' = s.goto p (.event .check) := by
  cases act <;> simp_all [trapEntry]

/-- **Off stays off**: a step that sends the CPU no wake-up, and is not about to, leaves it off. -/
theorem off_of_lifeStep (h : Off s c) (hs : lifeStep s p act = some (s', o))
    (hw : (s.pc p).wakes ≠ some c) (hon : s'.pc p ≠ .trap (.cpuOnSend c)) : Off s' c := by
  have heff := effect_of_lifeStep hs
  have key : (s'.pc c).Resting ∧ (s'.stage2 c = none ∨ s'.pc c = .event .parking) := by
    by_cases hcp : c = p
    · subst hcp
      have hpc := h.pc
      unfold lifeStep at hs
      split at hs
      · split at hs
        · next hlow =>
          -- the CPU is parked, so that it takes an interrupt
          have ht : s.stage2 c = none := h.tables.resolve_right (by simp [hlow])
          obtain ⟨s₁, hs₁, he⟩ := Option.map_eq_some_iff.mp hs
          cases he
          rw [irq_of_trapEntry ht hs₁]
          exact ⟨by simp [Machine.goto, Pc.Resting, Pc.Waking], .inl ht⟩
        · split at hs
          · unfold handlerStep at hs
            split at hs
            · next pc hev =>
              rw [hev] at hpc
              exact resting_of_eventStep hev (by rw [hev]; exact hpc) h.tables h.queue hs
            all_goals simp_all [Pc.Resting]
          · cases hs
      · cases hs
    · rw [heff.pc_of_ne hcp, heff.stage2_of_ne hcp]
      exact ⟨h.pc, h.tables⟩
  refine ⟨key.1, key.2, ?_, ?_⟩
  · intro hq
    rcases heff.wakeup c hq with hq | hq
    · exact h.queue hq
    · exact hw hq
  · intro q
    by_cases hqp : q = p
    · subst hqp
      exact hon
    · rw [heff.pc_of_ne hqp]
      exact h.send q

/-! ## What `power_on` says -/

/-- A CPU with `power_on` clear rests and is parked or about to, or is on the way from a wake-up. -/
def PowerOk (s : Machine) : Prop := ∀ c, s.powerOn c = false →
  (s.pc c).Resting ∧ (s.stage2 c = none ∨ s.pc c = .event .parking) ∨
    (s.pc c).Waking ∧ (s.pc c = .event .cloning → s.stage2 c = none)

/-- The CPU's own step in a handler of events. -/
theorem powerOk_of_eventStep (h : PowerOk s) {pc : EventPc} (hpc : s.pc p = .event pc)
    (hs : eventStep s p pc = some (s', o)) (hoff : s'.powerOn p = false) :
    (s'.pc p).Resting ∧ (s'.stage2 p = none ∨ s'.pc p = .event .parking) ∨
      (s'.pc p).Waking ∧ (s'.pc p = .event .cloning → s'.stage2 p = none) := by
  have hp := h p
  rw [hpc] at hp
  cases pc with
  | check | cloning | irqsLock | irqs | idling =>
    -- `power_on` was clear before, and the CPU was parked
    simp only [eventStep] at hs
    (try split at hs) <;> cases hs <;>
      simp_all [Machine.goto, Machine.lockCtrl, Pc.Resting, Pc.Waking]
  | activating z =>
    simp only [eventStep] at hs
    split at hs <;> cases hs
    exact .inr ⟨by simp [Machine.goto, Pc.Waking], by simp [Machine.goto]⟩
  | resetting =>
    cases hs
    exact .inr ⟨by simp [Machine.goto, Pc.Waking], by simp [Machine.goto]⟩
  | starting =>
    cases hs
    simp [Machine.goto] at hoff
  | poweringOff =>
    cases hs
    exact .inl ⟨by simp [Machine.goto, Pc.Resting, Pc.Waking], .inr (by simp [Machine.goto])⟩
  | parking =>
    cases hs
    exact .inl ⟨by simp [Machine.goto, Pc.Resting], .inl (by simp [Machine.goto])⟩

theorem powerOk_of_lifeStep (h : PowerOk s) (hs : lifeStep s p act = some (s', o)) :
    PowerOk s' := by
  have heff := effect_of_lifeStep hs
  intro c hoff
  by_cases hcp : c = p
  · subst hcp
    unfold lifeStep at hs
    split at hs
    · split at hs
      · next hlow =>
        obtain ⟨s₁, hs₁, he⟩ := Option.map_eq_some_iff.mp hs
        cases he
        have hold : s.powerOn c = false := by
          rcases heff.powerOn c with he | he | ⟨-, he⟩
          · rwa [he] at hoff
          · rw [he] at hoff
            cases hoff
          · simp [hlow] at he
        have ht : s.stage2 c = none := by
          rcases h c hold with ⟨-, ht | ht⟩ | ⟨hw, -⟩
          · exact ht
          · simp [hlow] at ht
          · simp [hlow, Pc.Waking] at hw
        rw [irq_of_trapEntry ht hs₁]
        exact .inl ⟨by simp [Machine.goto, Pc.Resting, Pc.Waking], .inl ht⟩
      · split at hs
        · unfold handlerStep at hs
          split at hs
          · next hev => exact powerOk_of_eventStep h hev hs hoff
          all_goals
            -- a CPU in another handler has `power_on` set, and does not clear it
            next hpc =>
            have hold : s.powerOn c = false := by
              rcases heff.powerOn c with he | he | ⟨-, he⟩
              · rwa [he] at hoff
              · rw [he] at hoff
                cases hoff
              · simp [hpc] at he
            have hc := h c hold
            simp_all [Pc.Resting, Pc.Waking]
        · cases hs
    · cases hs
  · rw [heff.pc_of_ne hcp, heff.stage2_of_ne hcp]
    refine h c ?_
    rcases heff.powerOn c with he | he | ⟨he, -⟩
    · rwa [he] at hoff
    · rw [he] at hoff
      cases hoff
    · exact absurd he hcp

theorem powerOk_of_initial (hi : s.Initial) : PowerOk s := by
  intro c hc
  have ht := hi.powerOn c
  rw [hc] at ht
  refine .inl ⟨by simp [hi.pc c, Pc.Resting], .inl ?_⟩
  simpa using ht.symm

/-! ## CPUs that a shutdown waited for -/

/-- The shutdown by CPU `p` has waited for CPU `c`. -/
def Machine.Passed (s : Machine) (p c : Nat) : Prop :=
  match s.pc p with
  | .stop (.waitLock _ z todo _) => (s.zones z).cpuSet.containsCpu c = true ∧ c ∉ todo
  | .stop (.wait _ z c' todo _) => (s.zones z).cpuSet.containsCpu c = true ∧ c ∉ c' :: todo
  | .stop (.clearLock _ z _) | .stop (.clear _ z _ _) | .stop (.drop _ z) | .stop (.remove _ z) =>
    (s.zones z).cpuSet.containsCpu c = true
  | _ => False

/-- The shutdown by CPU `p` has taken the zone from CPU `c`. -/
def Machine.Cleared (s : Machine) (p c : Nat) : Prop :=
  match s.pc p with
  | .stop (.clearLock _ z todo) => (s.zones z).cpuSet.containsCpu c = true ∧ c ∉ todo
  | .stop (.clear _ z c' todo) => (s.zones z).cpuSet.containsCpu c = true ∧ c ∉ c' :: todo
  | .stop (.drop _ z) | .stop (.remove _ z) => (s.zones z).cpuSet.containsCpu c = true
  | _ => False

/-- The step by which the wait for CPU `c` ends. -/
def Machine.Passing (s : Machine) (p c : Nat) : Prop :=
  ∃ id z todo count, s.pc p = .stop (.wait id z c todo count) ∧
    ¬ (s.powerOn c ∧ ¬ MAX_WAIT_TIMES < count + 1)

theorem Machine.Cleared.passed (h : s.Cleared p c) : s.Passed p c := by
  unfold Cleared at h
  unfold Passed
  split at h <;> simp_all

/-- A CPU that steps to a place in a shutdown was in the shutdown, or enters it. -/
theorem stop_of_leadsTo {q : Pc} {pc : StopPc} (h : q.LeadsTo (.stop pc)) :
    (∃ id, pc = .irqs id) ∨ ∃ pc', q = .stop pc' := by
  cases q with
  | stop pc' => exact .inr ⟨pc', rfl⟩
  | trap t => cases t <;> cases pc <;> simp_all [Pc.LeadsTo]
  | _ => cases pc <;> simp_all [Pc.LeadsTo]

/-- A place at which CPUs count as waited for is in a shutdown, and not its first. -/
theorem stop_of_passed (hs : lifeStep s p act = some (s', o)) (h : s'.Passed p c) :
    ∃ pc, s.pc p = .stop pc ∧ stopStep s p pc = some (s', o) := by
  have hto := (effect_of_lifeStep hs).leadsTo
  unfold Machine.Passed at h
  have hstop : ∃ pc, s.pc p = .stop pc := by
    split at h
    case h_7 => exact h.elim
    all_goals
      next hpc =>
      rw [hpc] at hto
      exact (stop_of_leadsTo hto).resolve_left (by simp)
  obtain ⟨pc, hpc⟩ := hstop
  exact ⟨pc, hpc, stopStep_of_lifeStep hs hpc⟩

/-- A CPU that a shutdown is newly done waiting for was waited for in this step. -/
theorem passed_of_lifeStep (hs : lifeStep s p act = some (s', o)) (h : s'.Passed p c) :
    s.Passed p c ∨ s.Passing p c := by
  obtain ⟨pc, hpc, hst⟩ := stop_of_passed hs h
  cases pc with
  | waitLock id z todo count =>
    cases todo with
    | nil =>
      -- no CPU is left to wait for
      cases hst
      simp only [Machine.Passed, Machine.goto, Function.update_self] at h
      exact .inl (by simpa [Machine.Passed, hpc] using h)
    | cons c' todo =>
      simp only [stopStep] at hst
      split at hst <;> cases hst
      simp only [Machine.Passed, Machine.goto, Machine.lockCtrl, Function.update_self] at h
      exact .inl (by simpa [Machine.Passed, hpc] using h)
  | wait id z c' todo count =>
    simp only [stopStep] at hst
    split at hst
    · -- the loop starts again with all CPUs
      cases hst
      simp only [Machine.Passed, Machine.goto, Machine.unlockCtrl, Function.update_self] at h
      exact absurd (CpuSet.mem_iter.mpr h.1) h.2
    · next hpass =>
      cases hst
      simp only [Machine.Passed, Machine.goto, Machine.unlockCtrl, Function.update_self] at h
      by_cases hc : c = c'
      · subst hc
        exact .inr ⟨id, z, todo, count, hpc, hpass⟩
      · refine .inl ?_
        simp only [Machine.Passed, hpc, List.mem_cons, hc, false_or]
        exact h
  | clearLock id z todo =>
    cases todo with
    | nil =>
      cases hst
      exact .inl (by simpa [Machine.Passed, Machine.goto, hpc] using h)
    | cons c' todo =>
      simp only [stopStep] at hst
      split at hst <;> cases hst
      exact .inl (by simpa [Machine.Passed, Machine.goto, Machine.lockCtrl, hpc] using h)
  | clear id z c' todo =>
    cases hst
    exact .inl (by
      simpa [Machine.Passed, Machine.goto, Machine.unlockCtrl, Machine.setZone, hpc] using h)
  | drop id z =>
    cases hst
    exact .inl (by simpa [Machine.Passed, Machine.goto, hpc] using h)
  | sendLock id z todo =>
    cases todo with
    | nil =>
      cases hst
      simp only [Machine.Passed, Machine.goto, Function.update_self] at h
      exact absurd (CpuSet.mem_iter.mpr h.1) h.2
    | cons c' todo =>
      simp only [stopStep] at hst
      split at hst <;> cases hst
      simp [Machine.Passed, Machine.goto] at h
  | remove id z =>
    simp only [stopStep] at hst
    split at hst
    · cases hst
    all_goals
      next hr =>
      cases hst
      rcases removeZone_cases hr with ⟨-, -, rfl⟩ | ⟨z', -, ⟨-, rfl⟩ | ⟨-, rfl, -⟩⟩ <;>
        simp [Machine.Passed, Machine.goto] at h
  | irqs id | find id | write id z | entry id z c' todo | send id z c' todo =>
    simp only [stopStep] at hst
    (try split at hst) <;> cases hst <;> simp [Machine.Passed, Machine.goto] at h

/-- A CPU that a shutdown has newly taken the zone from lost it in this step. -/
theorem cleared_of_lifeStep (hs : lifeStep s p act = some (s', o)) (h : s'.Cleared p c) :
    s.Cleared p c ∨ (s.pc p).takes p = some c := by
  obtain ⟨pc, hpc, hst⟩ := stop_of_passed hs h.passed
  -- of the places of a shutdown only `clear` takes the zone from a CPU
  cases pc with
  | waitLock id z todo count =>
    cases todo with
    | nil =>
      cases hst
      simp only [Machine.Cleared, Machine.goto, Function.update_self] at h
      exact absurd (CpuSet.mem_iter.mpr h.1) h.2
    | cons c' todo =>
      simp only [stopStep] at hst
      split at hst <;> cases hst
      simp [Machine.Cleared, Machine.goto] at h
  | clearLock id z todo =>
    cases todo with
    | nil =>
      cases hst
      exact .inl (by simpa [Machine.Cleared, Machine.goto, hpc] using h)
    | cons c' todo =>
      simp only [stopStep] at hst
      split at hst <;> cases hst
      exact .inl (by simpa [Machine.Cleared, Machine.goto, Machine.lockCtrl, hpc] using h)
  | clear id z c' todo =>
    cases hst
    simp only [Machine.Cleared, Machine.goto, Machine.unlockCtrl, Function.update_self] at h
    by_cases hc : c = c'
    · subst hc
      exact .inr (by rw [hpc]; rfl)
    · refine .inl ?_
      simp only [Machine.Cleared, hpc, List.mem_cons, hc, false_or]
      exact h
  | drop id z =>
    cases hst
    exact .inl (by simpa [Machine.Cleared, Machine.goto, hpc] using h)
  | sendLock id z todo =>
    cases todo with
    | nil =>
      cases hst
      simp [Machine.Cleared, Machine.goto] at h
    | cons c' todo =>
      simp only [stopStep] at hst
      split at hst <;> cases hst
      simp [Machine.Cleared, Machine.goto] at h
  | remove id z =>
    simp only [stopStep] at hst
    split at hst
    · cases hst
    all_goals
      next hr =>
      cases hst
      rcases removeZone_cases hr with ⟨-, -, rfl⟩ | ⟨z', -, ⟨-, rfl⟩ | ⟨-, rfl, -⟩⟩ <;>
        simp [Machine.Cleared, Machine.goto] at h
  | irqs id | find id | write id z | entry id z c' todo | send id z c' todo
  | wait id z c' todo count =>
    simp only [stopStep] at hst
    (try split at hst) <;> cases hst <;> simp [Machine.Cleared, Machine.goto] at h

/-! ## The condition -/

/-- The wait for a CPU ends because the CPU is off, with no wake-up queued or under way; the zone of
a CPU is taken once the CPU has parked; and nobody calls `CPU_ON` for a CPU that a shutdown has
waited for. -/
def Orderly (s : Machine) (e : Nat × Act × Outcome) : Prop :=
  match s.pc e.1 with
  | .stop (.wait _ _ c _ count) => ¬ (s.powerOn c ∧ ¬ MAX_WAIT_TIMES < count + 1) →
      s.powerOn c = false ∧ .WAKEUP ∉ s.events c ∧ ¬ (s.pc c).Waking
  | .stop (.clear _ _ c _) => s.pc c ≠ .event .parking
  | .trap (.cpuOn target _) => s.powerOn target = false → ∀ p, ¬ s.Passed p target
  | _ => True

/-! ## The invariant -/

/-- What runs that meet the conditions keep: CPUs that a shutdown waited for are off, those that it
has taken left their page tables, and a CPU has page tables only of a zone that has it. -/
structure Swept (s : Machine) : Prop where
  owned : Owned s.owners s.jobs
  locked : Locked s
  power : PowerOk s
  wake : ∀ p z c, s.pc p = .start (.wake z c) → s.owners.Has z c
  passed : ∀ p c, s.Passed p c → Off s c
  cleared : ∀ p c, s.Cleared p c → s.stage2 c = none
  tables : ∀ c z, s.stage2 c = some z ∨ s.pc c = .event (.activating z) →
    z < s.nextZone ∧ s.owners.Has z c

/-- The zone of a CPU that a shutdown waited for is being removed. -/
theorem tears_of_passed (h : s.Passed p c) :
    ∃ z, (s.jobs p).tears = some z ∧ s.owners.Has z c := by
  unfold Machine.Passed at h
  rw [Machine.jobs]
  split at h
  case h_7 => exact h.elim
  case h_1 | h_2 =>
    next hpc =>
    rw [hpc]
    exact ⟨_, rfl, h.1⟩
  all_goals
    next hpc =>
    rw [hpc]
    exact ⟨_, rfl, h⟩

/-- The steps of other CPUs do not change what a shutdown has waited for. -/
theorem passed_of_ne (ho : Owned s.owners s.jobs) (heff : Effect s p s') {q : Nat} (hq : q ≠ p)
    (h : s'.Passed q c) : s.Passed q c := by
  have hpc := heff.pc_of_ne hq
  obtain ⟨z, hz, -⟩ := tears_of_passed h
  rw [Machine.jobs, hpc] at hz
  have hzs := heff.zones z (ho.lt_of_tears hz)
  unfold Machine.Passed at h ⊢
  rw [hpc] at h
  split at h <;> simp_all [Pc.job, Job.tears]

theorem cleared_of_ne (ho : Owned s.owners s.jobs) (heff : Effect s p s') {q : Nat} (hq : q ≠ p)
    (h : s'.Cleared q c) : s.Cleared q c := by
  have hpc := heff.pc_of_ne hq
  obtain ⟨z, hz, -⟩ := tears_of_passed h.passed
  rw [Machine.jobs, hpc] at hz
  have hzs := heff.zones z (ho.lt_of_tears hz)
  unfold Machine.Cleared at h ⊢
  rw [hpc] at h
  split at h <;> simp_all [Pc.job, Job.tears]

/-- A CPU comes to send a wake-up only to a CPU with `power_on` clear. -/
theorem cpuOn_of_cpuOnSend (hs : lifeStep s p act = some (s', o))
    (h : s'.pc p = .trap (.cpuOnSend c)) :
    ∃ entry, s.pc p = .trap (.cpuOn c entry) ∧ s.powerOn c = false := by
  have hto := (effect_of_lifeStep hs).leadsTo
  rw [h] at hto
  -- the place is reached from `cpuOn` alone, where the flag was found clear
  cases hpc : s.pc p with
  | lower =>
    have hs₁ := (trapEntry_of_lifeStep hs hpc).1
    cases act <;> simp only [trapEntry, Machine.withThisZone] at hs₁ <;>
      (try split at hs₁) <;> (try split at hs₁) <;> cases hs₁ <;> simp [Machine.goto] at h
  | trap t =>
    have hh := trapStep_of_lifeStep hs hpc
    clear hpc hs hto
    revert hh
    fun_cases trapStep s p t <;> intro hh
    all_goals try
      obtain ⟨s₁, hs₁, he⟩ := Option.map_eq_some_iff.mp hh
      cases he
      obtain ⟨q, rfl, ⟨check, rfl, -⟩ | rfl⟩ := goto_of_rootCheckStep hs₁ <;>
        simp [Machine.goto] at h
    all_goals cases hh
    case case20.refl target entry hoff =>
      simp only [Machine.goto, Function.update_self] at h
      cases h
      exact ⟨entry, rfl, by simpa using hoff⟩
    case case23.refl z call =>
      have hn := locks_enter (p := p) call
      simp only [Machine.goto, Function.update_self] at h
      rw [h] at hn
      cases hn
    all_goals simp [Machine.goto] at h
  | _ => simp [hpc, Pc.LeadsTo] at hto

/-- A CPU comes to activate the page tables of its zone. -/
theorem zone_of_activating (hs : lifeStep s p act = some (s', o))
    (h : s'.pc p = .event (.activating z)) : s.zone p = some z := by
  have hto := (effect_of_lifeStep hs).leadsTo
  rw [h] at hto
  cases hpc : s.pc p with
  | event t =>
    have hh := eventStep_of_lifeStep hs hpc
    cases t with
    | cloning =>
      simp only [eventStep] at hh
      split at hh <;> cases hh
      · next hz =>
        simp only [Machine.goto, Function.update_self] at h
        cases h
        exact hz
      · simp [Machine.goto] at h
    | _ =>
      simp only [eventStep] at hh
      (try split at hh) <;> cases hh <;> simp [Machine.goto] at h
  | _ => simp [hpc, Pc.LeadsTo] at hto

/-- A start wakes up a CPU of its zone. -/
theorem boot_of_wake (hs : lifeStep s p act = some (s', o))
    (h : s'.pc p = .start (.wake z c)) : s.pc p = .start (.lock z) ∧ s.owners.Has z c := by
  have hto := (effect_of_lifeStep hs).leadsTo
  rw [h] at hto
  cases hpc : s.pc p with
  | start t =>
    have hh := startStep_of_lifeStep hs hpc
    cases t with
    | lock z' =>
      simp only [startStep] at hh
      split at hh
      · next hboot =>
        split at hh <;> cases hh
        simp only [Machine.goto, Function.update_self] at h
        cases h
        exact ⟨rfl, CpuSet.containsCpu_of_firstCpu hboot⟩
      · cases hh
        simp [Machine.goto] at h
    | check config todo cpuSet | assign config z' todo =>
      cases todo <;> simp only [startStep] at hh <;> (try split at hh) <;> (try split at hh) <;>
        cases hh <;> simp [Machine.goto] at h
    | _ =>
      simp only [startStep] at hh
      (try split at hh) <;> cases hh <;> simp [Machine.goto] at h
  | trap t => cases t <;> simp_all [Pc.LeadsTo]
  | _ => simp [hpc, Pc.LeadsTo] at hto

/-! ## The step lemma -/

/-- A CPU that a shutdown is done waiting for is off. -/
theorem off_of_passing (h : Swept s) (hg : Orderly s (p, act, o)) (hp : s.Passing p c) :
    Off s c := by
  obtain ⟨id, z, todo, count, hpc, hpass⟩ := hp
  simp only [Orderly, hpc] at hg
  obtain ⟨hoff, hq, hnw⟩ := hg hpass
  rcases h.power c hoff with ⟨hr, ht⟩ | ⟨hw, -⟩
  · refine ⟨hr, ht, hq, ?_⟩
    intro q hsend
    -- the waiting CPU holds the lock that a sender of wake-ups holds
    have hlp : s.ctrlLock c = some p := h.locked p c (by rw [hpc]; rfl)
    have hlq : s.ctrlLock c = some q := h.locked q c (by rw [hsend]; rfl)
    obtain rfl : p = q := Option.some.inj (hlp.symm.trans hlq)
    simp [hpc] at hsend
  · exact absurd hw hnw

/-- Nobody sends a wake-up to a CPU that a shutdown waits for, or has waited for. -/
theorem wakes_ne (h : Swept s) {q : Nat} (hoff : Off s c) (ht : (s.jobs q).tears = some z)
    (hhas : s.owners.Has z c) : (s.pc p).wakes ≠ some c := by
  intro hw
  unfold Pc.wakes at hw
  split at hw
  · next hpc =>
    cases hw
    exact hoff.send p hpc
  · next z' c' hpc =>
    cases hw
    have hclaim : (s.jobs p).claims s.owners c := by
      rw [Machine.jobs, hpc]
      exact h.wake p z' c hpc
    exact h.owned.apart.takenCpu p q z c hclaim ht hhas
  · cases hw

/-- A CPU that a shutdown has waited for, before or in this step, is off after the step. -/
theorem off_of_passed (h : Swept s) (hg : Orderly s (p, act, o))
    (hs : lifeStep s p act = some (s', o)) {q : Nat} (hq : s'.Passed q c) : Off s' c := by
  have heff := effect_of_lifeStep hs
  by_cases hqp : q = p
  · subst hqp
    obtain ⟨pc, hpc, -⟩ := stop_of_passed hs hq
    have hoff : Off s c := by
      rcases passed_of_lifeStep hs hq with hq | hq
      · exact h.passed q c hq
      · exact off_of_passing h hg hq
    -- the CPU that moves is in a shutdown, and sends no wake-ups
    refine off_of_lifeStep hoff hs (by simp [hpc, Pc.wakes]) ?_
    intro hsend
    obtain ⟨entry, hpc', -⟩ := cpuOn_of_cpuOnSend hs hsend
    simp [hpc] at hpc'
  · have hold := passed_of_ne h.owned heff hqp hq
    obtain ⟨z, ht, hhas⟩ := tears_of_passed hold
    have hoff := h.passed q c hold
    refine off_of_lifeStep hoff hs (wakes_ne h hoff ht hhas) ?_
    intro hsend
    obtain ⟨entry, hpc', hpow⟩ := cpuOn_of_cpuOnSend hs hsend
    simp only [Orderly, hpc'] at hg
    exact hg hpow q hold

/-- The page tables of a CPU that is off are not activated. -/
theorem stage2_of_off (hoff : Off s c) (heff : Effect s p s') (ht : s.stage2 c = none) :
    s'.stage2 c = none := by
  rcases heff.stage2 c with he | ⟨-, ⟨-, he⟩ | ⟨z, hpc, -⟩⟩
  · rw [he, ht]
  · exact he
  · by_cases hcp : c = p
    · subst hcp
      have := hoff.pc
      simp [hpc, Pc.Resting, Pc.Waking] at this
    · rw [heff.stage2_of_ne hcp, ht]

/-- A CPU that lost its zone to a shutdown has left its page tables. -/
theorem stage2_of_cleared (h : Swept s) (hg : Orderly s (p, act, o))
    (hs : lifeStep s p act = some (s', o)) {q : Nat} (hq : s'.Cleared q c) :
    s'.stage2 c = none := by
  have heff := effect_of_lifeStep hs
  by_cases hqp : q = p
  · subst hqp
    obtain ⟨pc, hpc, -⟩ := stop_of_passed hs hq.passed
    rcases cleared_of_lifeStep hs hq with hq | ht
    · exact stage2_of_off (h.passed q c hq.passed) heff (h.cleared q c hq)
    · -- the shutdown takes the CPU in this step, and the CPU has parked
      rw [hpc] at ht
      unfold Pc.takes at ht
      split at ht
      · next id z c' todo he =>
        cases ht
        rw [he] at hpc
        have hok := h.owned.job q
        rw [Machine.jobs, hpc] at hok
        have hpassed : s.Passed q c := by
          simp only [Machine.Passed, hpc]
          exact (hok.2.2.2.1 c List.mem_cons_self).1
        have hoff := h.passed q c hpassed
        simp only [Orderly, hpc] at hg
        exact stage2_of_off hoff heff (hoff.tables.resolve_right hg)
      all_goals simp_all
  · have hold := cleared_of_ne h.owned heff hqp hq
    exact stage2_of_off (h.passed q c hold.passed) heff (h.cleared q c hold)

/-- A CPU gets page tables of its own zone alone. -/
theorem tables_of_lifeStep (h : Swept s) (hs : lifeStep s p act = some (s', o))
    (ht : s'.stage2 c = some z ∨ s'.pc c = .event (.activating z)) :
    z < s'.nextZone ∧ s'.owners.Has z c := by
  have heff := effect_of_lifeStep hs
  have key : z < s.nextZone ∧ s.owners.Has z c := by
    rcases ht with ht | ht
    · rcases heff.stage2 c with he | ⟨rfl, ⟨-, he⟩ | ⟨z', hpc, he⟩⟩
      · exact h.tables c z (.inl (he ▸ ht))
      · rw [he] at ht
        cases ht
      · rw [he] at ht
        cases ht
        exact h.tables c z (.inr hpc)
    · by_cases hcp : c = p
      · subst hcp
        exact h.owned.has c z (zone_of_activating hs ht)
      · rw [heff.pc_of_ne hcp] at ht
        exact h.tables c z (.inr ht)
  exact ⟨Nat.lt_of_lt_of_le key.1 heff.nextZone, (has_of_effect heff key.1).mpr key.2⟩

/-- **The step lemma**: steps that meet the conditions keep the invariant. -/
theorem swept_of_lifeStep (h : Swept s) (hn : NoOverlap s (p, act, o))
    (hg : Orderly s (p, act, o)) (hs : lifeStep s p act = some (s', o)) : Swept s' := by
  have heff := effect_of_lifeStep hs
  refine ⟨owned_step h.owned hn hs, locked_of_effect h.locked heff,
    powerOk_of_lifeStep h.power hs, ?_, fun _ _ hq => off_of_passed h hg hs hq,
    fun _ _ hq => stage2_of_cleared h hg hs hq, fun _ _ ht => tables_of_lifeStep h hs ht⟩
  intro q z c hq
  have hold : s.owners.Has z c ∧ z < s.nextZone := by
    by_cases hqp : q = p
    · subst hqp
      obtain ⟨hpc, hhas⟩ := boot_of_wake hs hq
      have hok := h.owned.job q
      rw [Machine.jobs, hpc] at hok
      exact ⟨hhas, hok.2.1⟩
    · rw [heff.pc_of_ne hqp] at hq
      have hok := h.owned.job q
      rw [Machine.jobs, hq] at hok
      exact ⟨h.wake q z c hq, hok.2.1⟩
  exact (has_of_effect heff hold.2).mpr hold.1

theorem swept_of_initial (hi : s.Initial) : Swept s := by
  refine ⟨owned_of_initial hi, ?_, powerOk_of_initial hi, ?_, ?_, ?_, ?_⟩
  · intro p c hp
    rw [hi.pc p] at hp
    cases hp
  · intro p z c hp
    rw [hi.pc p] at hp
    cases hp
  · intro p c hp
    simp [Machine.Passed, hi.pc p] at hp
  · intro p c hp
    simp [Machine.Cleared, hi.pc p] at hp
  · intro c z ht
    rcases ht with ht | ht
    · refine (owned_of_initial hi).has c z ?_
      rcases hi.stage2 c with he | he
      · simp [he] at ht
      · rw [he] at ht
        exact ht
    · rw [hi.pc c] at ht
      cases ht

/-! ## Zones that are gone -/

/-- No CPU has anything of the zone, and none can get it. -/
structure Gone (s : Machine) (z : Nat) : Prop where
  lt : z < s.nextZone
  zone : ∀ c, s.zone c ≠ some z
  stage2 : ∀ c, s.stage2 c ≠ some z
  activating : ∀ c, s.pc c ≠ .event (.activating z)
  built : ∀ p todo c, s.jobs p = .built z todo → ¬ s.owners.Has z c

/-- **A zone that is gone stays gone.** -/
theorem gone_of_lifeStep (h : Gone s z) (ho : Owned s.owners s.jobs)
    (hs : lifeStep s p act = some (s', o)) : Gone s' z := by
  have heff := effect_of_lifeStep hs
  refine ⟨Nat.lt_of_lt_of_le h.lt heff.nextZone, ?_, ?_, ?_, ?_⟩
  · intro c hc
    rcases heff.zone c with he | ⟨-, he⟩ | ⟨z', hg, he⟩
    · exact h.zone c (he ▸ hc)
    · rw [he] at hc
      cases hc
    · rw [he] at hc
      obtain rfl := Option.some.inj hc
      -- only a start that created the zone gives it to a CPU
      unfold Pc.gives at hg
      split at hg
      · next config z₁ c₁ todo hpc =>
        cases hg
        have hj : s.jobs p = .built z' (c :: todo) := by
          rw [Machine.jobs, hpc]
          rfl
        have hok := ho.job p
        rw [hj] at hok
        exact h.built p _ c hj (hok.2.2.2.2.1 c List.mem_cons_self).1
      · cases hg
  · intro c hc
    rcases heff.stage2 c with he | ⟨-, ⟨-, he⟩ | ⟨z', hpc, he⟩⟩
    · exact h.stage2 c (he ▸ hc)
    · rw [he] at hc
      cases hc
    · rw [he] at hc
      obtain rfl := Option.some.inj hc
      exact h.activating p hpc
  · intro c hc
    by_cases hcp : c = p
    · subst hcp
      exact h.zone c (zone_of_activating hs hc)
    · rw [heff.pc_of_ne hcp] at hc
      exact h.activating c hc
  · intro q todo c hj hhas
    rw [has_of_effect heff h.lt] at hhas
    by_cases hqp : q = p
    · subst hqp
      rcases built_of_lifeStep hs hj with ⟨todo', hj', -⟩ | ⟨he, -⟩
      · exact h.built q todo' c hj' hhas
      · exact Nat.ne_of_lt h.lt he
    · rw [Machine.jobs, heff.pc_of_ne hqp] at hj
      exact h.built q todo c hj hhas

theorem stopped_enter (call : RootCall) (z : Nat) : call.enter.2 ≠ .stopped z := by
  cases call with
  | start config sizeOk => cases sizeOk <;> simp [RootCall.enter]
  | shutdown zoneId =>
    rw [RootCall.enter]
    split <;> simp
  | _ => simp [RootCall.enter]

/-- The last step of a shutdown that returns. -/
theorem remove_of_stopped (hs : lifeStep s p act = some (s', .stopped z)) :
    ∃ id, s.pc p = .stop (.remove id z) := by
  unfold lifeStep at hs
  split at hs
  · split at hs
    · obtain ⟨s₁, -, he⟩ := Option.map_eq_some_iff.mp hs
      cases he
    · split at hs
      · unfold handlerStep at hs
        split at hs
        · next pc _ =>
          revert hs
          fun_cases eventStep s p pc <;> intro hs <;> cases hs
        · next pc _ =>
          revert hs
          fun_cases trapStep s p pc <;> intro hs <;> simp [stopped_enter] at hs
        · next pc _ =>
          revert hs
          fun_cases startStep s p pc <;> intro hs <;> cases hs
        · next pc hpc =>
          revert hs hpc
          fun_cases stopStep s p pc <;> intro hpc hs <;> cases hs
          exact ⟨_, hpc⟩
        · next pc _ =>
          revert hs
          fun_cases offStep s p pc <;> intro hs <;> simp at hs
        · next pc _ =>
          revert hs
          fun_cases lookupStep s p pc <;> intro hs <;> cases hs
        all_goals cases hs
      · cases hs
  · cases hs

/-- **A shutdown that returns** leaves the CPUs of the zone quiet and without a zone, and the zone
gone. -/
theorem quiet_of_stopped (h : Swept s) (hn : NoOverlap s (p, act, .stopped z))
    (hg : Orderly s (p, act, .stopped z)) (hs : lifeStep s p act = some (s', .stopped z)) :
    Gone s' z ∧ ∀ c, s'.owners.Has z c → Quiet s' c ∧ s'.zone c = none := by
  have heff := effect_of_lifeStep hs
  have h' := swept_of_lifeStep h hn hg hs
  obtain ⟨id, hpc⟩ := remove_of_stopped hs
  have hj : s.jobs p = .clearing z (some id) [] := by
    rw [Machine.jobs, hpc]
    rfl
  have hok := h.owned.job p
  rw [hj] at hok
  obtain ⟨hlt, -, -, -, hzone⟩ := hok
  -- the shutdown has waited for, and taken, all CPUs of the zone
  have hpassed : ∀ c, s.owners.Has z c → s.Passed p c := by
    intro c hc
    simp only [Machine.Passed, hpc]
    exact hc
  have hcleared : ∀ c, s.owners.Has z c → s.Cleared p c := by
    intro c hc
    simp only [Machine.Cleared, hpc]
    exact hc
  have hquiet : ∀ c, s.owners.Has z c → Quiet s c ∧ s.zone c = none := by
    intro c hc
    exact ⟨⟨h.passed p c (hpassed c hc), h.cleared p c (hcleared c hc)⟩, hzone c hc (by simp)⟩
  have hgone : Gone s z := by
    refine ⟨hlt, ?_, ?_, ?_, ?_⟩
    · intro c hc
      have := (hquiet c (h.owned.has c z hc).2).2
      simp [hc] at this
    · intro c hc
      have := (hquiet c (h.tables c z (.inl hc)).2).1.parked
      simp [hc] at this
    · intro c hc
      have := (hquiet c (h.tables c z (.inr hc)).2).1.pc
      simp [hc, Pc.Resting, Pc.Waking] at this
    · intro q todo c hjq hc
      refine h.owned.apart.takenCpu q p z c ?_ (by rw [hj]; rfl) hc
      rw [hjq]
      exact hc
  refine ⟨gone_of_lifeStep hgone h.owned hs, ?_⟩
  intro c hc
  rw [has_of_effect heff hlt] at hc
  obtain ⟨hq, hz⟩ := hquiet c hc
  have hoff : Off s' c := by
    refine off_of_lifeStep hq.toOff hs (by simp [hpc, Pc.wakes]) ?_
    intro hsend
    obtain ⟨entry, hpc', -⟩ := cpuOn_of_cpuOnSend hs hsend
    simp [hpc] at hpc'
  refine ⟨⟨hoff, stage2_of_off hq.toOff heff hq.parked⟩, ?_⟩
  rcases heff.zone c with he | ⟨-, he⟩ | ⟨z', hgive, -⟩
  · rw [he, hz]
  · exact he
  · simp [hpc, Pc.gives] at hgive

/-- **Shutdown quiescence**: in every run that meets the conditions, when a shutdown of a zone
returns, its CPUs are parked, with no wake-up queued, out of the zone's page tables and without a
zone; and from then on no CPU has the zone, its page tables, or is about to activate them. -/
theorem shutdown_quiescent {h : List (Nat × Act × Outcome)} {s : Machine}
    (r : (lifecycle.restrict fun s e => NoOverlap s e ∧ Orderly s e).Run h s) :
    (∀ e ∈ h, ∀ z, e.2.2 = .stopped z → Gone s z) ∧
      ∀ e h' z, h = e :: h' → e.2.2 = .stopped z → ∀ c, s.owners.Has z c →
        Quiet s c ∧ s.zone c = none := by
  have inv : Swept s ∧ (∀ e ∈ h, ∀ z, e.2.2 = .stopped z → Gone s z) ∧
      ∀ e h' z, h = e :: h' → e.2.2 = .stopped z → ∀ c, s.owners.Has z c →
        Quiet s c ∧ s.zone c = none := by
    refine r.invariant (I := fun h s => Swept s ∧ (∀ e ∈ h, ∀ z, e.2.2 = .stopped z → Gone s z) ∧
      ∀ e h' z, h = e :: h' → e.2.2 = .stopped z → ∀ c, s.owners.Has z c →
        Quiet s c ∧ s.zone c = none) ?_ ?_
    · intro s hi
      exact ⟨swept_of_initial hi, nofun, nofun⟩
    · rintro h s ⟨p, act, o⟩ s' _ ⟨hsw, hgone, -⟩ ⟨⟨hn, hg⟩, hs⟩
      refine ⟨swept_of_lifeStep hsw hn hg hs, ?_, ?_⟩
      · intro e he z hz
        rcases List.mem_cons.mp he with rfl | he
        · cases hz
          exact (quiet_of_stopped hsw hn hg hs).1
        · exact gone_of_lifeStep (hgone e he z hz) hsw.owned hs
      · intro e h' z he hz
        cases he
        cases hz
        exact (quiet_of_stopped hsw hn hg hs).2
  exact inv.2

/-- Where `Orderly` asks for something, the CPU is parked, and no CPU shuts a zone down. -/
def orderlyCheck (s : Machine) (p : Nat) (_ : Act) : Bool :=
  match s.pc p with
  | .stop (.wait _ _ c _ _) => !s.powerOn c && !(s.events c).contains .WAKEUP && s.pc c == .lower
  | .stop (.clear _ _ c _) => s.pc c == .lower
  | .trap (.cpuOn _ _) => (List.range s.ncpu).all fun q => (s.jobs q).tears == none
  | _ => true

theorem orderly_of_check (hout : ∀ c, s.ncpu ≤ c → s.pc c = .lower)
    (hc : orderlyCheck s p act = true) : Orderly s (p, act, o) := by
  unfold orderlyCheck at hc
  unfold Orderly
  split
  · next hpc =>
    simp only [hpc, Bool.and_eq_true] at hc
    intro _
    exact ⟨by simpa using hc.1.1, by simpa using hc.1.2, by simp_all [Pc.Waking]⟩
  · next hpc =>
    simp only [hpc] at hc
    simp_all
  · next hpc =>
    simp only [hpc] at hc
    intro _ q hq
    obtain ⟨z, hz, -⟩ := tears_of_passed hq
    by_cases hlt : q < s.ncpu
    · have hn := List.all_eq_true.mp hc q (List.mem_range.mpr hlt)
      simp [hz] at hn
    · rw [Machine.jobs, hout q (Nat.le_of_not_lt hlt)] at hz
      cases hz
  · trivial

/-- Zone 1 runs on CPUs 2 and 3 when CPU 0 shuts it down; both park before the wait ends. -/
theorem shutdown_quiescent_two : ∃ h s,
    (lifecycle.restrict fun s e => NoOverlap s e ∧ Orderly s e).Run h s ∧
      (0, .step, .stopped 1) ∈ h ∧ Gone s 1 := by
  have hr : ((lifeRun (fun s p act => noOverlapCheck s p act && orderlyCheck s p act)
      (startActs 0 1 [2, 3] ++ wakeActs 2 ++ cpuOnActs 2 3 ++ wakeActs 3 ++
        (stopActs 0 1 [2, 3]).take 14 ++ parkActs 2 ++ parkActs 3 ++
        (stopActs 0 1 [2, 3]).drop 14) ([], bootMachine)).map fun r =>
          decide ((0, .step, .stopped 1) ∈ r.1)) = some true := by
    decide +kernel
  obtain ⟨⟨h, s⟩, hrun, he⟩ := Option.map_eq_some_iff.mp hr
  have r : (lifecycle.restrict fun s e => NoOverlap s e ∧ Orderly s e).Run h s := by
    refine restrict_of_lifeRun ?_ (.start bootMachine_initial) (fun _ _ => rfl) hrun
    intro s p act o hout hc
    rw [Bool.and_eq_true] at hc
    exact ⟨noOverlap_of_check hout hc.1, orderly_of_check hout hc.2⟩
  have hmem := of_decide_eq_true he
  exact ⟨h, s, r, hmem, (shutdown_quiescent r).1 _ hmem 1 rfl⟩

/-- The shutdown of zone 1 has waited for CPU 2 when CPU 3 calls `CPU_ON` for it; CPU 2 activates
the page tables of the zone between the unlock and the removal of the zone, and runs its guest when
the shutdown returns. -/
theorem shutdown_not_quiescent : ∃ h s z c, lifecycle.Run ((0, .step, .stopped z) :: h) s ∧
    s.owners.Has z c ∧ s.pc c = .lower ∧ s.stage2 c = some z := by
  have hr : ((lifeRun (fun _ _ _ => true)
      (startActs 0 1 [2, 3] ++ wakeActs 2 ++ cpuOnActs 2 3 ++ wakeActs 3 ++
        (stopActs 0 1 [2, 3]).take 14 ++ parkActs 2 ++ List.replicate 2 (0, .step) ++
        cpuOnActs 3 2 ++ (wakeActs 2).take 3 ++ parkActs 3 ++ List.replicate 9 (0, .step) ++
        List.replicate 3 (2, .step) ++ [(0, .step)]) ([], bootMachine)).map fun r =>
          decide (r.1.head? = some (0, .step, .stopped 1) ∧
            (r.2.zones 1).cpuSet.containsCpu 2 = true ∧ r.2.pc 2 = .lower ∧
            r.2.stage2 2 = some 1)) = some true := by
    decide +kernel
  obtain ⟨⟨h, s⟩, hrun, he⟩ := Option.map_eq_some_iff.mp hr
  obtain ⟨hhead, hhas, hpc, ht⟩ := of_decide_eq_true he
  obtain ⟨h', rfl⟩ := List.head?_eq_some_iff.mp hhead
  exact ⟨h', s, 1, 2, run_of_lifeRun (.start bootMachine_initial) hrun, hhas, hpc, ht⟩

end Hvisor
