import Hvisor.Lib.StartOnce
import Hvisor.Zone.Quiescence

/-!
# Calls of `CPU_ON` for a parked CPU

`psci_emulate_cpu_on` by any CPUs, aimed at a CPU that is parked, with `check_events` and `run` of
that CPU: one call succeeds, and the CPU enters its guest once, at the entry of that call. A call
tests and sets the flag `power_on` of the CPU under its lock, and `run` only sets it again.

## Main definitions

* `Machine.Parked`: the CPU is parked, and nothing is queued that starts or stops it
* `Pc.actsOn`: a start, a shutdown or a power-off is about to change the CPU
* `Machine.seen`, `cpuOnWatch`: what is seen of the calls, and the steps that are watched
* `Tracks`: how far the start of the CPU is

## Main results

* `tracks_of_lifeStep`: a step takes the start to its next phase, or leaves it
* `cpuOn_once_of_run`: the CPU is started once
-/

namespace Hvisor

open StartOnce

variable {s s' : Machine} {p c entry₀ : Nat} {act : Act} {o : Outcome}
  {ph : StartOnce.Phase Nat Nat}

/-! ## What is watched -/

/-- The CPU has parked, and no event that starts or stops it is queued. -/
structure Machine.Parked (s : Machine) (c : Nat) : Prop where
  pc : s.pc c = .lower
  stage2 : s.stage2 c = none
  powerOn : s.powerOn c = false
  wakeup : .WAKEUP ∉ s.events c
  shutdown : .SHUTDOWN ∉ s.events c

/-- In the next step of CPU `p`, a start gives CPU `c` an entry or wakes it up, or a shutdown or a
power-off stops it. -/
def Pc.actsOn (p c : Nat) : Pc → Bool
  | .start (.assign _ _ (c' :: _)) | .start (.wake _ c') => c' == c
  | .stop (.entry _ _ c' _) | .stop (.send _ _ c' _) => c' == c
  | .off (.clear _ _ c' _) => c' == c
  | .off (.remove _ _) => p == c
  | _ => false

/-- What is seen of the calls for CPU `c` in a step of CPU `p`: a call finds the CPU off and sets
its entry, a call returns, or the CPU enters its guest. -/
def Machine.seen (s : Machine) (c p : Nat) (o : Outcome) : Option (Event Nat Nat) :=
  match s.pc p with
  | .trap (.cpuOn target entry) =>
    if target = c then
      match o with
      | .cpuOn ok => some (.returned p ok)
      | _ => some (.accepted p entry)
    else none
  | .trap (.cpuOnSend target) =>
    if target = c then
      match o with
      | .cpuOn ok => some (.returned p ok)
      | _ => none
    else none
  | .event .starting => if p = c then some (.entered (s.elr c)) else none
  | _ => none

/-- The steps from a state on, as long as no zone that CPU `c` belongs to is started or stopped; a
step shows what is seen of the calls for the CPU. -/
def cpuOnWatch (c : Nat) (s₀ : Machine) : TransitionSystem Machine (Option (Event Nat Nat)) where
  init := (· = s₀)
  step s e s' := ∃ p act o, (s.pc p).actsOn p c = false ∧ lifeStep s p act = some (s', o) ∧
    e = s.seen c p o

/-- In `idle`. -/
def Pc.Stopping : Pc → Prop
  | .event .idling | .event .poweringOff | .event .parking => True
  | _ => False

/-- **How far the start of the CPU is.** A wake-up is queued once, between the event of the call
and the moment when the CPU takes it. -/
structure Tracks (entry₀ c : Nat) (s : Machine) (ph : StartOnce.Phase Nat Nat) : Prop where
  on : s.powerOn c = ph.request?.isSome
  entry : s.cpuOnEntry c = (ph.request?.map Prod.snd).getD entry₀
  sender : ∀ q, s.pc q = .trap (.cpuOnSend c) ↔ ∃ a, ph = .accepted q a
  count : (s.events c).count .WAKEUP ≤ 1
  wakeup : .WAKEUP ∈ s.events c → (∃ i a, ph = .sent i a) ∧ ¬ (s.pc c).Waking
  waking : (s.pc c).Waking → ∃ i a, ph = .sent i a
  starting : s.pc c = .event .starting → s.elr c = s.cpuOnEntry c
  shutdown : .SHUTDOWN ∉ s.events c
  stopping : ¬ (s.pc c).Stopping

/-! ## Steps that leave the CPU -/

/-- The data of the CPU that the calls work on are left as they are, and no shutdown is queued. -/
structure Aside (c : Nat) (s s' : Machine) : Prop where
  powerOn : s'.powerOn c = s.powerOn c
  cpuOnEntry : s'.cpuOnEntry c = s.cpuOnEntry c
  elr : s'.elr c = s.elr c
  events : SameStarts (s.events c) (s'.events c)

theorem aside_of_eq (hon : s'.powerOn c = s.powerOn c) (hentry : s'.cpuOnEntry c = s.cpuOnEntry c)
    (helr : s'.elr c = s.elr c) (hevents : s'.events c = s.events c) : Aside c s s' :=
  ⟨hon, hentry, helr, .of_eq hevents⟩

theorem Aside.trans {s₁ : Machine} (h : Aside c s s₁) (h' : Aside c s₁ s') : Aside c s s' :=
  ⟨h'.powerOn.trans h.powerOn, h'.cpuOnEntry.trans h.cpuOnEntry, h'.elr.trans h.elr,
    h.events.trans h'.events⟩

/-- An event for another CPU, or one that neither starts nor stops the CPU. -/
theorem aside_send {target : Nat} {e : IpiEvent}
    (h : target ≠ c ∨ e ≠ .WAKEUP ∧ e ≠ .SHUTDOWN) : Aside c s (s.send target e) :=
  ⟨rfl, rfl, rfl, .addEvent h⟩

/-- A step that leaves the data of the CPU, and takes it to no place in the start or in `idle`. -/
theorem Tracks.aside {q : Pc} (ht : Tracks entry₀ c s ph) (ha : Aside c s s')
    (hpc : s'.pc = Function.update s.pc p q) (hp : s.pc p ≠ .trap (.cpuOnSend c))
    (hq : q ≠ .trap (.cpuOnSend c)) (hc : p = c → ¬ q.Waking ∧ ¬ q.Stopping) :
    Tracks entry₀ c s' ph := by
  have hother : c ≠ p → s'.pc c = s.pc c := fun hne => by rw [hpc, Function.update_of_ne hne]
  have hself : c = p → ¬ (s'.pc c).Waking ∧ ¬ (s'.pc c).Stopping := fun heq => by
    rw [hpc, heq, Function.update_self]
    exact hc heq.symm
  refine ⟨ha.powerOn.trans ht.on, ha.cpuOnEntry.trans ht.entry, fun r => ?_, ?_, fun hmem => ?_,
    fun hw => ?_, fun hstart => ?_, fun hmem => ht.shutdown (ha.events.shutdown hmem), ?_⟩
  · rw [← ht.sender r, hpc]
    by_cases hr : r = p
    · subst hr
      rw [Function.update_self]
      exact iff_of_false hq hp
    · rw [Function.update_of_ne hr]
  · exact ha.events.wakeups ▸ ht.count
  · obtain ⟨hsent, hw⟩ := ht.wakeup (ha.events.wakeup_iff.mp hmem)
    refine ⟨hsent, ?_⟩
    by_cases hcp : c = p
    · exact (hself hcp).1
    · rwa [hother hcp]
  · by_cases hcp : c = p
    · exact absurd hw (hself hcp).1
    · exact ht.waking (hother hcp ▸ hw)
  · by_cases hcp : c = p
    · exact absurd (by rw [hstart]; trivial) (hself hcp).1
    · rw [ha.elr, ha.cpuOnEntry]
      exact ht.starting (hother hcp ▸ hstart)
  · by_cases hcp : c = p
    · exact (hself hcp).2
    · rw [hother hcp]
      exact ht.stopping

theorem aside_of_startStep {pc : StartPc} (hpc : s.pc p = .start pc)
    (hn : (s.pc p).actsOn p c = false) (hs : startStep s p pc = some (s', o)) : Aside c s s' := by
  rw [hpc] at hn
  cases pc with
  | assign config z todo =>
    cases todo with
    | nil =>
      cases hs
      exact aside_of_eq rfl rfl rfl rfl
    | cons c' todo =>
      cases hs
      have hne : c' ≠ c := ne_of_beq_false hn
      exact aside_of_eq rfl (Function.update_of_ne hne.symm ..) rfl rfl
  | wake z bootCpu =>
    simp only [startStep] at hs
    split at hs <;> cases hs
    · exact (aside_send (s := s) (.inl (ne_of_beq_false hn))).trans (aside_of_eq rfl rfl rfl rfl)
    · exact aside_of_eq rfl rfl rfl rfl
  | check config todo cpuSet =>
    cases todo with
    | nil =>
      cases hs
      exact aside_of_eq rfl rfl rfl rfl
    | cons c' todo =>
      simp only [startStep] at hs
      split at hs
      · cases hs
        exact aside_of_eq rfl rfl rfl rfl
      · split at hs <;> cases hs <;> exact aside_of_eq rfl rfl rfl rfl
  | _ =>
    simp only [startStep] at hs
    (repeat' split at hs) <;> cases hs <;> exact aside_of_eq rfl rfl rfl rfl

theorem aside_of_removeZone {id : Nat} {next : Pc} {r : Option Nat}
    (hs : s.removeZone p id next = some (s', r)) : Aside c s s' := by
  rcases removeZone_cases hs with ⟨-, -, rfl⟩ | ⟨z, -, ⟨-, rfl⟩ | ⟨-, rfl, -⟩⟩ <;>
    exact aside_of_eq rfl rfl rfl rfl

theorem aside_of_stopStep {pc : StopPc} (hpc : s.pc p = .stop pc)
    (hn : (s.pc p).actsOn p c = false) (hs : stopStep s p pc = some (s', o)) : Aside c s s' := by
  rw [hpc] at hn
  cases pc with
  | entry id z c' todo =>
    cases hs
    have hne : c' ≠ c := ne_of_beq_false hn
    exact aside_of_eq rfl (Function.update_of_ne hne.symm ..) rfl rfl
  | send id z c' todo =>
    cases hs
    exact (aside_send (s := s) (.inl (ne_of_beq_false hn))).trans (aside_of_eq rfl rfl rfl rfl)
  | remove id z =>
    simp only [stopStep] at hs
    split at hs <;> cases hs
    · next hr => exact (aside_of_removeZone hr).trans (aside_of_eq rfl rfl rfl rfl)
    · next hr => exact aside_of_removeZone hr
  | sendLock id z todo | waitLock id z todo count | clearLock id z todo =>
    cases todo <;> simp only [stopStep] at hs <;> (try split at hs) <;> cases hs <;>
      exact aside_of_eq rfl rfl rfl rfl
  | _ =>
    simp only [stopStep] at hs
    (repeat' split at hs) <;> cases hs <;> exact aside_of_eq rfl rfl rfl rfl

theorem aside_of_offStep {pc : OffPc} (hpc : s.pc p = .off pc) (hn : (s.pc p).actsOn p c = false)
    (hs : offStep s p pc = some (s', o)) : Aside c s s' := by
  rw [hpc] at hn
  cases pc with
  | clear z isRoot c' todo =>
    cases hs
    exact (aside_send (s := s) (.inl (ne_of_beq_false hn))).trans (aside_of_eq rfl rfl rfl rfl)
  | remove z isRoot =>
    simp only [offStep] at hs
    split at hs <;> cases hs
    next hr => exact aside_of_removeZone hr
  | lock z isRoot todo =>
    cases todo <;> simp only [offStep] at hs <;> (try split at hs) <;> cases hs <;>
      exact aside_of_eq rfl rfl rfl rfl
  | root z check =>
    rcases offStep_root_cases hs with ⟨-, -, -, rfl⟩ | ⟨-, rfl, -⟩ | rfl <;>
      exact aside_of_eq rfl rfl rfl rfl
  | _ =>
    simp only [offStep] at hs
    (repeat' split at hs) <;> cases hs <;> exact aside_of_eq rfl rfl rfl rfl

theorem aside_of_lookupStep {pc : LookupPc} (hs : lookupStep s p pc = some (s', o)) :
    Aside c s s' := by
  have hsend : ∀ target, Aside c s (s.send target .VIRTIO_INJECT_IRQ) := fun target =>
    aside_send (.inr ⟨by decide, by decide⟩)
  cases pc with
  | inject results =>
    cases results with
    | nil =>
      cases hs
      exact aside_of_eq rfl rfl rfl rfl
    | cons r results =>
      simp only [lookupStep] at hs
      (repeat' split at hs) <;> cases hs <;> exact aside_of_eq rfl rfl rfl rfl
  | injectSend z irq results =>
    simp only [lookupStep] at hs
    (repeat' split at hs) <;> cases hs
    · exact aside_of_eq rfl rfl rfl rfl
    · exact aside_of_eq rfl rfl rfl rfl
    · exact (hsend _).trans (aside_of_eq rfl rfl rfl rfl)
    · exact aside_of_eq rfl rfl rfl rfl
  | signalSend z =>
    simp only [lookupStep] at hs
    (repeat' split at hs) <;> cases hs
    · have hsignal : Aside c s (s.send 2 .SHM_SIGNAL) := aside_send (.inr ⟨by decide, by decide⟩)
      exact hsignal.trans (aside_of_eq rfl rfl rfl rfl)
    · exact aside_of_eq rfl rfl rfl rfl
  | _ =>
    simp only [lookupStep] at hs
    (repeat' split at hs) <;> cases hs <;> exact aside_of_eq rfl rfl rfl rfl

theorem aside_of_trapEntry (hs : trapEntry s p act = some s') : Aside c s s' := by
  cases act <;> simp only [trapEntry, Machine.withThisZone] at hs <;>
    (repeat' split at hs) <;> cases hs <;> exact aside_of_eq rfl rfl rfl rfl

theorem aside_of_otherEvent {pc : EventPc} (hne : p ≠ c) (hs : eventStep s p pc = some (s', o)) :
    Aside c s s' := by
  have hother : ∀ {α : Type} (f : Nat → α) (x : α), Function.update f p x c = f c := fun f x =>
    Function.update_of_ne hne.symm x f
  cases pc with
  | check =>
    simp only [eventStep] at hs
    split at hs <;> cases hs <;> exact aside_of_eq rfl rfl rfl (hother ..)
  | resetting =>
    cases hs
    exact aside_of_eq rfl rfl (hother ..) rfl
  | starting =>
    cases hs
    exact aside_of_eq (hother ..) rfl rfl rfl
  | poweringOff =>
    cases hs
    exact aside_of_eq (hother ..) rfl rfl rfl
  | parking =>
    cases hs
    exact aside_of_eq rfl rfl (hother ..) rfl
  | _ =>
    simp only [eventStep] at hs
    split at hs <;> cases hs <;> exact aside_of_eq rfl rfl rfl rfl

/-- A call for another CPU, or another trap. -/
theorem aside_of_trapStep {pc : TrapPc} (hsend : pc ≠ .cpuOnSend c)
    (hon : ∀ entry, pc ≠ .cpuOn c entry) (hs : trapStep s p pc = some (s', o)) :
    Aside c s s' := by
  revert hs hsend hon
  fun_cases trapStep s p pc <;> intro hsend hon hs
  all_goals try
    obtain ⟨s₁, hs₁, he⟩ := Option.map_eq_some_iff.mp hs
    cases he
    obtain ⟨q, rfl, -⟩ := goto_of_rootCheckStep hs₁
    exact aside_of_eq rfl rfl rfl rfl
  all_goals cases hs
  case case17.refl target uses =>
    exact (aside_send (s := s) (.inr ⟨by decide, by decide⟩)).trans (aside_of_eq rfl rfl rfl rfl)
  case case20.refl target entry hoff =>
    have hne : c ≠ target := fun heq => hon entry (by rw [heq])
    exact aside_of_eq (Function.update_of_ne hne ..) (Function.update_of_ne hne ..) rfl rfl
  case case22.refl target =>
    have hne : target ≠ c := fun heq => hsend (by rw [heq])
    exact (aside_send (s := s) (.inl hne)).trans (aside_of_eq rfl rfl rfl rfl)
  all_goals exact aside_of_eq rfl rfl rfl rfl

/-- Outside the handlers of events, and the power-off of the CPU itself, a step leads to no place in
the start or in `idle`. -/
theorem not_waking_of_leadsTo {q q' : Pc} (h : q.LeadsTo q') (he : ∀ pc, q ≠ .event pc)
    (hr : ∀ z isRoot, q ≠ .off (.remove z isRoot)) : ¬ q'.Waking ∧ ¬ q'.Stopping := by
  cases q' with
  | event pc' =>
    cases q with
    | event pc => exact absurd rfl (he pc)
    | lower => cases pc' <;> simp_all [Pc.LeadsTo, Pc.Waking, Pc.Stopping]
    | off pc => cases pc <;> cases pc' <;> simp_all [Pc.LeadsTo]
    | trap pc => cases pc <;> simp [Pc.LeadsTo] at h
    | _ => simp [Pc.LeadsTo] at h
  | _ => exact ⟨id, id⟩

/-- A step that leaves the data of the CPU, and is none of its handlers of events. -/
theorem Tracks.leave (ht : Tracks entry₀ c s ph) (ha : Aside c s s')
    (hs : lifeStep s p act = some (s', o)) (hsend : s.pc p ≠ .trap (.cpuOnSend c))
    (hon : ∀ entry, s.pc p ≠ .trap (.cpuOn c entry))
    (hc : p = c → (∀ pc, s.pc p ≠ .event pc) ∧ ∀ z isRoot, s.pc p ≠ .off (.remove z isRoot)) :
    Tracks entry₀ c s' ph := by
  obtain ⟨q, hpc, hto⟩ := (effect_of_lifeStep hs).pc
  refine ht.aside ha hpc hsend (fun hq => ?_) fun heq => ?_
  · have hpc' : s'.pc p = .trap (.cpuOnSend c) := by rw [hpc, Function.update_self, hq]
    obtain ⟨entry, hentry, -⟩ := cpuOn_of_cpuOnSend hs hpc'
    exact hon entry hentry
  · exact not_waking_of_leadsTo hto (hc heq).1 (hc heq).2

/-! ## The start -/

/-- A step of the CPU on its way to the guest. -/
theorem Tracks.onWay {q : Pc} (ht : Tracks entry₀ c s ph) (hw : (s.pc c).Waking)
    (hon : s'.powerOn = s.powerOn) (hentry : s'.cpuOnEntry = s.cpuOnEntry)
    (hevents : s'.events = s.events) (hpc : s'.pc = Function.update s.pc c q)
    (hq : q ≠ .trap (.cpuOnSend c)) (hstop : ¬ q.Stopping)
    (hstart : q = .event .starting → s'.elr c = s.cpuOnEntry c) : Tracks entry₀ c s' ph := by
  have hself : s'.pc c = q := by rw [hpc, Function.update_self]
  refine ⟨by rw [hon, ht.on], by rw [hentry, ht.entry], fun r => ?_, hevents ▸ ht.count,
    fun hmem => ?_, fun _ => ht.waking hw, fun hq' => ?_, hevents ▸ ht.shutdown, by rwa [hself]⟩
  · rw [← ht.sender r, hpc]
    by_cases hr : r = c
    · subst hr
      rw [Function.update_self]
      exact iff_of_false hq fun h => by rw [h] at hw; exact hw
    · rw [Function.update_of_ne hr]
  · -- no wake-up is queued any more
    rw [hevents] at hmem
    exact absurd hw (ht.wakeup hmem).2
  · rw [hentry]
    exact hstart (hself.symm.trans hq')

/-- The CPU takes an event. -/
theorem tracks_of_check (ht : Tracks entry₀ c s ph) (hpc : s.pc c = .event .check)
    (hs : eventStep s c .check = some (s', o)) : Tracks entry₀ c s' ph := by
  have hsend : s.pc c ≠ .trap (.cpuOnSend c) := by
    rw [hpc]
    exact Pc.noConfusion
  simp only [eventStep] at hs
  split at hs
  · next hwake =>
    cases hs
    -- the wake-up that is taken is the only one that was queued
    obtain ⟨hsent, -⟩ := ht.wakeup (List.mem_of_mem_head? hwake)
    have hzero : ((fetchEvent s.events c).2 c).count .WAKEUP = 0 := by
      have hcount := ht.count
      rw [← count_fetchEvent_wakeup hwake] at hcount
      exact Nat.le_zero.mp (Nat.le_of_succ_le_succ hcount)
    have hself : Function.update s.pc c (Pc.event .cloning) c = .event .cloning :=
      Function.update_self ..
    refine ⟨ht.on, ht.entry, fun r => ?_, hzero ▸ Nat.zero_le 1, fun hmem => ?_, fun _ => hsent,
      fun hstart => ?_, fun hmem => ht.shutdown (mem_of_fetchEvent rfl hmem), ?_⟩
    · rw [← ht.sender r]
      by_cases hr : r = c
      · subst hr
        exact iff_of_false (fun h => Pc.noConfusion (hself.symm.trans h)) hsend
      · exact (Function.update_of_ne hr (Pc.event .cloning) s.pc) ▸ Iff.rfl
    · exact absurd hmem (List.count_eq_zero.mp hzero)
    · cases hself.symm.trans hstart
    · show ¬ (Function.update s.pc c (Pc.event .cloning) c).Stopping
      rw [hself]
      exact id
  · next hshut => exact absurd (List.mem_of_mem_head? hshut) ht.shutdown
  · next hvirtio =>
    cases hs
    have hne : (fetchEvent s.events c).1 ≠ some .WAKEUP := by
      rw [hvirtio]
      decide
    exact ht.aside ⟨rfl, rfl, rfl, .fetchEvent fun _ => hne⟩ rfl hsend Pc.noConfusion
      fun _ => ⟨id, id⟩
  · next hne _ _ =>
    cases hs
    exact ht.aside ⟨rfl, rfl, rfl, .fetchEvent fun _ => hne⟩ rfl hsend Pc.noConfusion
      fun _ => ⟨id, id⟩

/-- The start is where it was, or what is seen takes it to its next phase. -/
def Follows (entry₀ c : Nat) (ph : StartOnce.Phase Nat Nat) (e : Option (Event Nat Nat))
    (s' : Machine) : Prop :=
  match e with
  | none => Tracks entry₀ c s' ph
  | some e => ∃ ph', Step ph e ph' ∧ Tracks entry₀ c s' ph'

/-- The CPU enters its guest, at the entry of the call that was accepted. -/
theorem follows_starting (ht : Tracks entry₀ c s ph) (hpc : s.pc c = .event .starting) :
    Follows entry₀ c ph (s.seen c c .tau)
      ({ s with powerOn := Function.update s.powerOn c true }.goto c .lower) := by
  obtain ⟨i, a, rfl⟩ := ht.waking (by rw [hpc]; trivial)
  have hentered : s.elr c = a := (ht.starting hpc).trans ht.entry
  have hseen : s.seen c c .tau = some (.entered a) := by
    unfold Machine.seen
    rw [hpc]
    exact (if_pos rfl).trans (congrArg (some ∘ Event.entered) hentered)
  have hwake : .WAKEUP ∉ s.events c := fun hmem => (ht.wakeup hmem).2 (by rw [hpc]; trivial)
  have hself : Function.update s.pc c Pc.lower c = .lower := Function.update_self ..
  rw [hseen]
  refine ⟨_, .enter i a, Function.update_self .., ht.entry, fun r => ?_, ht.count,
    fun hmem => absurd hmem hwake, fun hw => ?_, fun hq => ?_, ht.shutdown, fun hw => ?_⟩
  · refine iff_of_false (fun hr => ?_) fun ⟨_, h⟩ => by cases h
    by_cases hrc : r = c
    · subst hrc
      cases hself.symm.trans hr
    · obtain ⟨_, h⟩ := (ht.sender r).mp ((Function.update_of_ne hrc Pc.lower s.pc) ▸ hr)
      cases h
  · exact absurd (hself ▸ hw : Pc.lower.Waking) id
  · cases hself.symm.trans hq
  · exact absurd (hself ▸ hw : Pc.lower.Stopping) id

/-- A handler of events of the CPU itself. -/
theorem follows_of_ownEvent (ht : Tracks entry₀ c s ph) {pc : EventPc} (hpc : s.pc c = .event pc)
    (hs : eventStep s c pc = some (s', o)) : Follows entry₀ c ph (s.seen c c o) s' := by
  have hnone : pc ≠ .starting → s.seen c c o = none := fun hne => by
    unfold Machine.seen
    rw [hpc]
    cases pc <;> first | rfl | exact absurd rfl hne
  have hsend : s.pc c ≠ .trap (.cpuOnSend c) := by
    rw [hpc]
    exact Pc.noConfusion
  have hstop := ht.stopping
  rw [hpc] at hstop
  -- by the places of the handler: the start goes on, the CPU stops, or it takes interrupts
  cases pc with
  | check =>
    rw [hnone EventPc.noConfusion]
    exact tracks_of_check ht hpc hs
  | cloning =>
    rw [hnone EventPc.noConfusion]
    have hw : (s.pc c).Waking := by rw [hpc]; trivial
    simp only [eventStep] at hs
    split at hs <;> cases hs
    · exact ht.onWay hw rfl rfl rfl rfl Pc.noConfusion id (fun h => by cases h)
    · exact ht.onWay hw rfl rfl rfl rfl Pc.noConfusion id (fun h => by cases h)
  | activating z =>
    rw [hnone EventPc.noConfusion]
    have hw : (s.pc c).Waking := by rw [hpc]; trivial
    simp only [eventStep] at hs
    split at hs <;> cases hs
    exact ht.onWay hw rfl rfl rfl rfl Pc.noConfusion id (fun h => by cases h)
  | resetting =>
    rw [hnone EventPc.noConfusion]
    have hw : (s.pc c).Waking := by rw [hpc]; trivial
    cases hs
    exact ht.onWay hw rfl rfl rfl rfl Pc.noConfusion id fun _ => Function.update_self ..
  | starting =>
    cases hs
    exact follows_starting ht hpc
  | idling => exact absurd trivial hstop
  | poweringOff => exact absurd trivial hstop
  | parking => exact absurd trivial hstop
  | irqsLock =>
    rw [hnone EventPc.noConfusion]
    simp only [eventStep] at hs
    split at hs <;> cases hs
    exact ht.aside (aside_of_eq rfl rfl rfl rfl) rfl hsend Pc.noConfusion fun _ => ⟨id, id⟩
  | irqs =>
    rw [hnone EventPc.noConfusion]
    simp only [eventStep] at hs
    split at hs <;> cases hs <;>
      exact ht.aside (aside_of_eq rfl rfl rfl rfl) rfl hsend Pc.noConfusion fun _ => ⟨id, id⟩

/-- The call that finds the CPU off sets its flag and its entry. -/
theorem tracks_accepted (ht : Tracks entry₀ c s .parked) {entry : Nat} :
    Tracks entry₀ c ({ s with
      cpuOnEntry := Function.update s.cpuOnEntry c entry
      powerOn := Function.update s.powerOn c true }.goto p (.trap (.cpuOnSend c)))
      (.accepted p entry) := by
  have hnever : ¬ ∃ i a, (.parked : StartOnce.Phase Nat Nat) = .sent i a :=
    fun ⟨_, _, h⟩ => by cases h
  have hpcs : ∀ r, Function.update s.pc p (Pc.trap (.cpuOnSend c)) r =
      if r = p then .trap (.cpuOnSend c) else s.pc r := fun r => Function.update_apply ..
  have hresting : ¬ (Function.update s.pc p (Pc.trap (.cpuOnSend c)) c).Waking ∧
      ¬ (Function.update s.pc p (Pc.trap (.cpuOnSend c)) c).Stopping := by
    rw [hpcs]
    split
    · exact ⟨id, id⟩
    · exact ⟨fun hw => hnever (ht.waking hw), ht.stopping⟩
  refine ⟨Function.update_self .., Function.update_self .., fun r => ?_, ht.count,
    fun hmem => absurd (ht.wakeup hmem).1 hnever, fun hw => absurd hw hresting.1, fun hq => ?_,
    ht.shutdown, hresting.2⟩
  · refine (Eq.congr_left (hpcs r)).trans ?_
    by_cases hr : r = p
    · rw [if_pos hr, hr]
      exact iff_of_true rfl ⟨entry, rfl⟩
    · rw [if_neg hr]
      refine iff_of_false (fun h => ?_) fun ⟨_, h⟩ => hr ?_
      · obtain ⟨_, h⟩ := (ht.sender r).mp h
        cases h
      · injection h with h
        exact h.symm
  · refine absurd ?_ hresting.1
    rw [show Function.update s.pc p (Pc.trap (.cpuOnSend c)) c = .event .starting from hq]
    trivial

/-- A call that has the lock of the CPU. -/
theorem follows_of_cpuOn (ht : Tracks entry₀ c s ph) {entry : Nat}
    (hpc : s.pc p = .trap (.cpuOn c entry))
    (hs : trapStep s p (.cpuOn c entry) = some (s', o)) :
    Follows entry₀ c ph (s.seen c p o) s' := by
  have hsend : s.pc p ≠ .trap (.cpuOnSend c) := by
    rw [hpc]
    exact fun h => by cases h
  simp only [trapStep] at hs
  split at hs
  · next hoff =>
    have hoff : s.powerOn c = false := by simpa using hoff
    cases hs
    -- the CPU is off only as long as no call was accepted
    obtain rfl : ph = .parked := by
      have hon := ht.on
      rw [hoff] at hon
      cases ph <;> first | rfl | cases hon
    have hseen : s.seen c p .tau = some (.accepted p entry) := by
      unfold Machine.seen
      rw [hpc]
      exact if_pos rfl
    rw [hseen]
    exact ⟨_, .accept p entry, tracks_accepted ht⟩
  · next hoff =>
    cases hs
    have hne : ph ≠ .parked := by
      rintro rfl
      exact hoff (by rw [ht.on]; rfl)
    have hseen : s.seen c p (.cpuOn false) = some (.returned p false) := by
      unfold Machine.seen
      rw [hpc]
      exact if_pos rfl
    rw [hseen]
    exact ⟨ph, .refuse ph p hne, ht.aside (aside_of_eq rfl rfl rfl rfl) rfl hsend
      Pc.noConfusion fun _ => ⟨id, id⟩⟩

/-- The call that was accepted sends the event. -/
theorem follows_of_cpuOnSend (ht : Tracks entry₀ c s ph) (hpc : s.pc p = .trap (.cpuOnSend c))
    (hs : trapStep s p (.cpuOnSend c) = some (s', o)) :
    Follows entry₀ c ph (s.seen c p o) s' := by
  obtain ⟨a, rfl⟩ := (ht.sender p).mp hpc
  cases hs
  have hseen : s.seen c p (.cpuOn true) = some (.returned p true) := by
    unfold Machine.seen
    rw [hpc]
    exact if_pos rfl
  rw [hseen]
  refine ⟨_, .succeed p a, ?_⟩
  -- nothing was sent yet, and so the CPU is not on its way
  have hnever : ¬ ∃ i b, (.accepted p a : StartOnce.Phase Nat Nat) = .sent i b :=
    fun ⟨_, _, h⟩ => by cases h
  have hwake : .WAKEUP ∉ s.events c := fun hmem => hnever (ht.wakeup hmem).1
  have hq : addEvent s.events c .WAKEUP c = s.events c ++ [.WAKEUP] := Function.update_self ..
  have hpcs : ∀ r, Function.update s.pc p Pc.lower r = if r = p then .lower else s.pc r :=
    fun r => Function.update_apply ..
  have hresting : ¬ (Function.update s.pc p Pc.lower c).Waking ∧
      ¬ (Function.update s.pc p Pc.lower c).Stopping := by
    rw [hpcs]
    split
    · exact ⟨id, id⟩
    · exact ⟨fun hw => hnever (ht.waking hw), ht.stopping⟩
  refine ⟨ht.on, ht.entry, fun r => ?_, ?_, fun _ => ⟨⟨p, a, rfl⟩, hresting.1⟩,
    fun hw => absurd hw hresting.1, fun hstart => ?_, fun hmem => ?_, hresting.2⟩
  · refine iff_of_false (fun hr => ?_) fun ⟨_, h⟩ => by cases h
    have hr := (hpcs r).symm.trans hr
    split at hr
    · cases hr
    · next hne =>
      obtain ⟨_, h⟩ := (ht.sender r).mp hr
      injection h with h
      exact hne h.symm
  · show (addEvent s.events c .WAKEUP c).count .WAKEUP ≤ 1
    rw [hq, List.count_append, List.count_eq_zero.mpr hwake]
    exact Nat.le_refl _
  · refine absurd ?_ hresting.1
    rw [show Function.update s.pc p Pc.lower c = .event .starting from hstart]
    trivial
  · have hmem : IpiEvent.SHUTDOWN ∈ addEvent s.events c .WAKEUP c := hmem
    rw [hq] at hmem
    rcases List.mem_append.mp hmem with hmem | hmem
    · exact ht.shutdown hmem
    · cases List.mem_singleton.mp hmem

/-- **What a step does to the start** of the CPU. -/
theorem tracks_of_lifeStep (ht : Tracks entry₀ c s ph) (hn : (s.pc p).actsOn p c = false)
    (hs : lifeStep s p act = some (s', o)) : Follows entry₀ c ph (s.seen c p o) s' := by
  -- most steps show nothing and leave the data of the CPU
  have hleave : s.seen c p o = none → Aside c s s' → s.pc p ≠ .trap (.cpuOnSend c) →
      (∀ entry, s.pc p ≠ .trap (.cpuOn c entry)) →
      (p = c → (∀ pc, s.pc p ≠ .event pc) ∧ ∀ z isRoot, s.pc p ≠ .off (.remove z isRoot)) →
      Follows entry₀ c ph (s.seen c p o) s' := fun hseen ha hsend hon hc => by
    rw [hseen]
    exact ht.leave ha hs hsend hon hc
  have hseen : ∀ pc, s.pc p = pc → (∀ t, pc ≠ .trap t) → (∀ t, pc ≠ .event t) →
      s.seen c p o = none := fun pc hpc htrap hevent => by
    unfold Machine.seen
    rw [hpc]
    cases pc <;> first | rfl | exact absurd rfl (htrap _) | exact absurd rfl (hevent _)
  cases hpc : s.pc p with
  | lower =>
    have hnone := hseen _ hpc (fun _ h => by cases h) fun _ h => by cases h
    have ha : Aside c s s' := aside_of_trapEntry (trapEntry_of_lifeStep hs hpc).1
    exact hleave hnone ha (by simp [hpc]) (by simp [hpc]) (by simp [hpc])
  | event pc =>
    have hstep := eventStep_of_lifeStep hs hpc
    by_cases hc : p = c
    · subst hc
      exact follows_of_ownEvent ht hpc hstep
    · have hnone : s.seen c p o = none := by
        unfold Machine.seen
        rw [hpc]
        cases pc <;> first | rfl | exact if_neg hc
      exact hleave hnone (aside_of_otherEvent hc hstep) (by simp [hpc]) (by simp [hpc])
        fun heq => absurd heq hc
  | trap pc =>
    have hstep := trapStep_of_lifeStep hs hpc
    by_cases hsend : pc = .cpuOnSend c
    · subst hsend
      exact follows_of_cpuOnSend ht hpc hstep
    by_cases hon : ∃ entry, pc = .cpuOn c entry
    · obtain ⟨entry, rfl⟩ := hon
      exact follows_of_cpuOn ht hpc hstep
    · have hon : ∀ entry, pc ≠ .cpuOn c entry := fun entry heq => hon ⟨entry, heq⟩
      have hnone : s.seen c p o = none := by
        unfold Machine.seen
        rw [hpc]
        cases pc with
        | cpuOn target entry => exact if_neg fun heq => hon entry (by rw [heq])
        | cpuOnSend target => exact if_neg fun heq => hsend (by rw [heq])
        | _ => rfl
      refine hleave hnone (aside_of_trapStep hsend hon hstep) ?_ ?_ (by simp [hpc])
      · rw [hpc]
        exact fun heq => hsend (Pc.trap.inj heq)
      · rw [hpc]
        exact fun entry heq => hon entry (Pc.trap.inj heq)
  | start pc =>
    have hnone := hseen _ hpc (fun _ h => by cases h) fun _ h => by cases h
    have ha : Aside c s s' := aside_of_startStep hpc hn (startStep_of_lifeStep hs hpc)
    exact hleave hnone ha (by simp [hpc]) (by simp [hpc]) (by simp [hpc])
  | stop pc =>
    have hnone := hseen _ hpc (fun _ h => by cases h) fun _ h => by cases h
    have ha : Aside c s s' := aside_of_stopStep hpc hn (stopStep_of_lifeStep hs hpc)
    exact hleave hnone ha (by simp [hpc]) (by simp [hpc]) (by simp [hpc])
  | off pc =>
    have hnone := hseen _ hpc (fun _ h => by cases h) fun _ h => by cases h
    have ha : Aside c s s' := aside_of_offStep hpc hn (offStep_of_lifeStep hs hpc)
    refine hleave hnone ha (by simp [hpc]) (by simp [hpc]) fun heq => ?_
    -- a power-off of the CPU itself is left out of what is watched
    refine ⟨by simp [hpc], fun z isRoot hremove => ?_⟩
    rw [hremove] at hn
    exact absurd heq (ne_of_beq_false hn)
  | lookup pc =>
    have hnone := hseen _ hpc (fun _ h => by cases h) fun _ h => by cases h
    have ha : Aside c s s' := aside_of_lookupStep (lookupStep_of_lifeStep hs hpc)
    exact hleave hnone ha (by simp [hpc]) (by simp [hpc]) (by simp [hpc])
  | systemOff =>
    have hstep := handlerStep_of_lifeStep hs (by simp [hpc])
    simp [handlerStep, hpc] at hstep
  | panicked reason zones =>
    have hstep := handlerStep_of_lifeStep hs (by simp [hpc])
    simp [handlerStep, hpc] at hstep

/-! ## Runs -/

/-- A CPU that is about to be sent the event of a call is on: the call has set the flag, and holds
the lock that `idle` takes. -/
theorem powerOn_of_cpuOnSend {h : List (Nat × Act × Outcome)} (r : lifecycle.Run h s) :
    ∀ q c, s.pc q = .trap (.cpuOnSend c) → s.powerOn c = true := by
  induction r with
  | start hi =>
    intro q c hq
    rw [hi.pc] at hq
    cases hq
  | @next h s s' e r hs ih =>
    obtain ⟨p, act, o⟩ := e
    have hs : lifeStep s p act = some (s', o) := hs
    have heff := effect_of_lifeStep hs
    intro q c hq
    by_cases hqp : q = p
    · subst hqp
      obtain ⟨entry, hpc, hoff⟩ := cpuOn_of_cpuOnSend hs hq
      have hstep := trapStep_of_lifeStep hs hpc
      simp only [trapStep, hoff, Bool.not_false, if_true] at hstep
      cases hstep
      exact Function.update_self ..
    · rw [heff.pc_of_ne hqp] at hq
      rcases heff.powerOn c with hsame | hon | ⟨hself, hpc⟩
      · rw [hsame]
        exact ih q c hq
      · exact hon
      · -- both hold the lock of the CPU
        have hlocked := locked_of_run r
        have hp := hlocked p c (by rw [hpc, hself]; rfl)
        have hq := hlocked q c (by rw [hq]; rfl)
        exact absurd (Option.some.inj (hq.symm.trans hp)) hqp

/-- No call is about to send an event to a CPU that is off. -/
theorem not_sending_of_run {h : List (Nat × Act × Outcome)} (r : lifecycle.Run h s)
    (hoff : s.powerOn c = false) (q : Nat) : s.pc q ≠ .trap (.cpuOnSend c) := by
  intro hq
  have hon := powerOn_of_cpuOnSend r q c hq
  rw [hoff] at hon
  cases hon

theorem Machine.Parked.tracks (hp : s.Parked c) {h : List (Nat × Act × Outcome)}
    (r : lifecycle.Run h s) : Tracks (s.cpuOnEntry c) c s .parked := by
  refine ⟨hp.powerOn, rfl, fun q => ?_, ?_, fun hmem => absurd hmem hp.wakeup, fun hw => ?_,
    fun hq => ?_, hp.shutdown, ?_⟩
  · exact iff_of_false (not_sending_of_run r hp.powerOn q) fun ⟨_, h⟩ => by cases h
  · rw [List.count_eq_zero.mpr hp.wakeup]
    exact Nat.zero_le _
  · rw [hp.pc] at hw
    exact absurd hw id
  · rw [hp.pc] at hq
    cases hq
  · rw [hp.pc]
    exact id

/-- The calls for a parked CPU are a start that happens once. -/
theorem cpuOnWatch_simulates {h₀ : List (Nat × Act × Outcome)} {s₀ : Machine}
    (r₀ : lifecycle.Run h₀ s₀) (hp : s₀.Parked c) {h : List (Option (Event Nat Nat))}
    (r : (cpuOnWatch c s₀).Run h s) :
    ∃ ph, (StartOnce.system Nat Nat).Run (h.filterMap id) ph ∧ Tracks (s₀.cpuOnEntry c) c s ph := by
  refine TransitionSystem.Run.simulates (R := fun _ s ph => Tracks (s₀.cpuOnEntry c) c s ph)
    ?_ ?_ ?_ r
  · rintro s rfl
    exact ⟨.parked, rfl, hp.tracks r₀⟩
  · rintro _ s e s' ph _ ht ⟨p, act, o, hn, hs, rfl⟩ he
    have hfollows := tracks_of_lifeStep ht hn hs
    rw [show s.seen c p o = none from he] at hfollows
    exact hfollows
  · rintro _ s e s' ph b _ ht ⟨p, act, o, hn, hs, rfl⟩ he
    have hfollows := tracks_of_lifeStep ht hn hs
    rw [show s.seen c p o = some b from he] at hfollows
    exact hfollows

/-- **`CPU_ON` starts a parked CPU once.** However the calls for it, its handlers of events and the
steps of other CPUs interleave: at most one call succeeds; the CPU enters its guest at most once,
after that call, at its entry; and the entry of the CPU is that of the call that was accepted, or
what it was before, whatever other calls return. -/
theorem cpuOn_once_of_run {h₀ : List (Nat × Act × Outcome)} {s₀ : Machine}
    (r₀ : lifecycle.Run h₀ s₀) (hp : s₀.Parked c) {h : List (Option (Event Nat Nat))}
    (r : (cpuOnWatch c s₀).Run h s) :
    Once (h.filterMap id) ∧
      (∀ i entry, .accepted i entry ∈ h.filterMap id → s.cpuOnEntry c = entry) ∧
      ((∀ i entry, .accepted i entry ∉ h.filterMap id) → s.cpuOnEntry c = s₀.cpuOnEntry c) := by
  obtain ⟨ph, hrun, ht⟩ := cpuOnWatch_simulates r₀ hp r
  have hentry := ht.entry
  refine ⟨once_of_run hrun, fun i entry hmem => ?_, fun hno => ?_⟩
  · rw [(accepted_iff_of_run hrun).mp hmem] at hentry
    exact hentry
  · cases hreq : ph.request? with
    | none =>
      rw [hreq] at hentry
      exact hentry
    | some req => exact absurd ((accepted_iff_of_run hrun).mpr hreq) (hno _ _)

/-- Take steps in the given order, none of which acts on the CPU. -/
def watchActs (c : Nat) : List (Nat × Act) → List (Option (Event Nat Nat)) × Machine →
    Option (List (Option (Event Nat Nat)) × Machine)
  | [], r => some r
  | (p, act) :: acts, (h, s) =>
    if (s.pc p).actsOn p c then none
    else (lifeStep s p act).bind fun (s', o) => watchActs c acts (s.seen c p o :: h, s')

theorem run_of_watchActs {s₀ : Machine} {acts : List (Nat × Act)}
    {h h' : List (Option (Event Nat Nat))} (r : (cpuOnWatch c s₀).Run h s)
    (hr : watchActs c acts (h, s) = some (h', s')) : (cpuOnWatch c s₀).Run h' s' := by
  induction acts generalizing h s with
  | nil =>
    cases hr
    exact r
  | cons a acts ih =>
    obtain ⟨p, act⟩ := a
    rw [watchActs] at hr
    split at hr
    · cases hr
    · next hn =>
      obtain ⟨⟨s₁, o⟩, hs, hr⟩ := Option.bind_eq_some_iff.mp hr
      exact ih (.next r ⟨p, act, o, Bool.eq_false_of_not_eq_true hn, hs, rfl⟩) hr

/-- CPUs 2 and 0 call `CPU_ON` for CPU 3, which is parked, with different entries; CPU 3 takes an
interrupt before the event is sent, and another one after. -/
def twoCalls : List (Nat × Act) :=
  [(2, .cpuOn 3 0x80000000), (0, .cpuOn 3 0x90000000), (2, .step), (2, .step), (3, .irq),
    (3, .step), (2, .step)] ++ wakeActs 3 ++ [(0, .step), (0, .step)]

theorem cpuOn_once_of_run_two : ∃ h₀ s₀ h s, lifecycle.Run h₀ s₀ ∧ s₀.Parked 3 ∧
    (cpuOnWatch 3 s₀).Run h s ∧ h.filterMap id = [.returned 0 false, .entered 0x80000000,
      .returned 2 true, .accepted 2 0x80000000] ∧
    Once (h.filterMap id) ∧ s.cpuOnEntry 3 = 0x80000000 := by
  have hr : ((lifeRun (fun _ _ _ => true) (startActs 0 1 [2, 3] ++ wakeActs 2)
      ([], bootMachine)).bind fun r₀ => (watchActs 3 twoCalls ([], r₀.2)).map fun r =>
        ((r₀.2.pc 3, r₀.2.stage2 3, r₀.2.powerOn 3, r₀.2.events 3), r.1.filterMap id)) =
      some ((.lower, none, false, []), [.returned 0 false, .entered 0x80000000, .returned 2 true,
        .accepted 2 0x80000000]) := by
    decide +kernel
  obtain ⟨⟨h₀, s₀⟩, hrun₀, hr⟩ := Option.bind_eq_some_iff.mp hr
  obtain ⟨⟨h, s⟩, hrun, he⟩ := Option.map_eq_some_iff.mp hr
  simp only [Prod.mk.injEq] at he
  obtain ⟨⟨hpc, hst, hon, hev⟩, hseen⟩ := he
  have r₀ := run_of_lifeRun (.start bootMachine_initial) hrun₀
  have hp : s₀.Parked 3 := ⟨hpc, hst, hon, by simp [hev], by simp [hev]⟩
  have r := run_of_watchActs (.start rfl) hrun
  obtain ⟨honce, hentry, -⟩ := cpuOn_once_of_run r₀ hp r
  refine ⟨h₀, s₀, h, s, r₀, hp, r, hseen, honce, hentry 2 _ ?_⟩
  rw [hseen]
  simp

end Hvisor
