import Hvisor.Lib.Progress
import Hvisor.Zone.HartStart

/-!
# Harts that take their wake-up

Whether a hart that is sent a wake-up takes it, and so whether a call of `HART_START` that succeeds
starts the hart: as long as no wake-up is raised between the hart's last look for events and the
clearing of its pending bit, the interrupt of a wake-up that is queued stays pending until the hart
takes it.

## Main definitions

* `HartMachine.Answers`: the hart takes the wake-up that it is sent
* `HartMachine.startCost`: what is left until the hart enters its guest
* `HartMachine.Serves`: the steps of the hart and of the call for it

## Main results

* `answers_of_hartStep`: what a step does to the interrupt of the hart
* `exists_hartStep`: a start that is under way goes on
* `hartStart_once_of_run`: the hart is started exactly once when no call tests its flag while a
  start is pending, and no wake-up is raised while the hart is about to clear its pending bit
* `not_hartStart_once`: two calls start a hart twice
* `hartStart_lost`: a call succeeds, and the hart does not take its wake-up
-/

namespace Hvisor

open StartOnce

variable {plic : Bool} {s s' s₀ : HartMachine} {p c : Nat} {act : HartAct} {ret : Option SbiError}
  {ph : StartOnce.Phase Nat HartArgs} {args : HartArgs}

/-- What is left of a call that was accepted, by its place. -/
def HartPc.callCost : HartPc → Nat
  | .storeEntry _ _ => 5
  | .storeDtb _ _ => 4
  | .send _ => 3
  | .raise _ => 2
  | .unlock _ => 1
  | _ => 0

/-- What is left of the way to the guest, for a hart that is on or off. -/
def HartPc.wakeCost (on : Bool) : HartPc → Nat
  | .enter => 1
  | .readDtb => 2
  | .readEntry => 3
  | .powerOn => 4
  | .checkEvents => 5
  | .lower | .raiseEvent _ true => if on then 0 else 6
  | .clearSsoft | .raiseEvent _ false => 7
  | _ => 0

namespace HartMachine

/-! ## The interrupt of the wake-up -/

/-- **The hart takes the wake-up that it is sent**: the interrupt of a wake-up that is queued is to
be raised, or is pending and will not be cleared before the wake-up is taken; no event ends the
handler before it; and a hart that is off is nowhere but in the parking loop and the handler. -/
structure Answers (plic : Bool) (s : HartMachine) (c : Nat) : Prop where
  pended : .WAKEUP ∈ s.events c →
    (∃ q, s.pc q = .raise c) ∨ s.pending c = true ∧ s.pc c ≠ .clearSsoft
  handled : s.powerOn c = false → ∀ e ∈ s.events c, e = .WAKEUP ∨ riscvHandles plic e = true
  idle : s.powerOn c = false → (s.pc c).Idle
  guest : s.inGuest c = true → s.powerOn c = true

/-- A step that leaves the hart's data, and its interrupt unless it raises it. -/
theorem Answers.move {q : HartPc} (ha : Answers plic s c) (hon : s'.powerOn c = s.powerOn c)
    (hguest : s'.inGuest c = s.inGuest c)
    (hevents : ∀ e ∈ s'.events c, e ∈ s.events c ∨
      e ≠ .WAKEUP ∧ (riscvHandles plic e = true ∨ s.powerOn c = true))
    (hpending : s.pending c = true → s'.pending c = true)
    (hpc : s'.pc = Function.update s.pc p q) (hp : s.pc p ≠ .raise c)
    (hq : p = c → (s.powerOn c = false → q.Idle) ∧ q ≠ .clearSsoft) : Answers plic s' c := by
  have hother : ∀ r, r ≠ p → s'.pc r = s.pc r := fun r hr => by rw [hpc, Function.update_of_ne hr]
  have hself : s'.pc p = q := by rw [hpc, Function.update_self]
  refine ⟨fun hmem => ?_, fun hoff e he => ?_, fun hoff => ?_, fun hg => ?_⟩
  · have hold : .WAKEUP ∈ s.events c := (hevents _ hmem).resolve_right fun hne => hne.1 rfl
    rcases ha.pended hold with ⟨r, hr⟩ | ⟨hpend, hclear⟩
    · have hrp : r ≠ p := fun heq => hp (heq ▸ hr)
      exact .inl ⟨r, (hother r hrp).trans hr⟩
    · refine .inr ⟨hpending hpend, ?_⟩
      by_cases hcp : c = p
      · subst hcp
        rw [hself]
        exact (hq rfl).2
      · rwa [hother c hcp]
  · rw [hon] at hoff
    rcases hevents e he with hold | ⟨-, hhandles | hon'⟩
    · exact ha.handled hoff e hold
    · exact .inr hhandles
    · rw [hoff] at hon'
      cases hon'
  · rw [hon] at hoff
    by_cases hcp : c = p
    · subst hcp
      rw [hself]
      exact (hq rfl).1 hoff
    · rw [hother c hcp]
      exact ha.idle hoff
  · rw [hon]
    exact ha.guest (hguest ▸ hg)

/-- No wake-up is queued for a hart that is on. -/
theorem Tracks.wakeup_notMem (ht : Tracks s₀ c s ph) (hon : s.powerOn c = true) :
    .WAKEUP ∉ s.events c := by
  have hphase := ht.phase
  cases ph with
  | parked => exact hphase.2.1.1
  | accepted i args => exact hphase.2.1.1
  | sent i args =>
    cases hphase.2 with
    | queued hoff _ _ => cases hoff.symm.trans hon
    | powerOn _ _ hq => exact hq
    | readEntry _ _ hq => exact hq
    | readDtb _ _ hq _ => exact hq
    | enter _ _ hq _ _ => exact hq
  | entered i args => exact hphase.2.1.1

/-- A hart at a place of a call, or on its way past the flag, is on. -/
theorem Answers.away {q : HartPc} (ha : Answers plic s c) (hidle : ¬ (s.pc p).Idle) (heq : p = c)
    (hoff : s.powerOn c = false) : q.Idle :=
  absurd (heq ▸ ha.idle hoff) hidle

/-- What a step leaves in the queue of the hart does not end its handler. -/
theorem mem_or_of_sends {target : Nat} {event : IpiEvent} (hsends : s.sends plic target event)
    {e : IpiEvent} (he : e ∈ addEvent s.events target event c) :
    e ∈ s.events c ∨ e ≠ .WAKEUP ∧ (riscvHandles plic e = true ∨ s.powerOn c = true) := by
  by_cases hc : c = target
  · subst hc
    rw [addEvent_same, if_neg (ne_of_sends hsends).2] at he
    rcases List.mem_append.mp he with he | he
    · exact .inl he
    · obtain rfl := List.mem_singleton.mp he
      refine .inr ⟨(ne_of_sends hsends).1, ?_⟩
      rw [sends, Bool.or_eq_true, Bool.and_eq_true] at hsends
      exact hsends.imp_right fun h => h.2
  · rw [addEvent_of_ne _ _ hc] at he
    exact .inl he

theorem pending_setPending {target : Nat} (h : s.pending c = true) :
    (s.setPending target true).pending c = true := by
  simp only [setPending, Function.update_apply]
  split
  · rfl
  · exact h

/-- A place of a call that the hart itself is not at. -/
theorem idle_update {target : Nat} {q : HartPc} (ha : Answers plic s target)
    (hidle : ¬ (s.pc p).Idle) (hoff : s.powerOn target = false) :
    (Function.update s.pc p q target).Idle := by
  rw [Function.update_apply]
  split
  · next heq => exact ha.away hidle heq.symm hoff
  · exact ha.idle hoff

/-- The wake-up of a hart is queued: its interrupt is to be raised. -/
theorem Answers.send {target : Nat} (ha : Answers plic s c) (hpc : s.pc p = .send target) :
    Answers plic ((s.send target .WAKEUP).goto p (.raise target)) c := by
  have hidle : ¬ (s.pc p).Idle := by
    rw [hpc]
    exact id
  by_cases hc : target = c
  · subst hc
    refine ⟨fun _ => .inl ⟨p, Function.update_self ..⟩, fun hoff e he => ?_,
      fun hoff => idle_update (s := s) ha hidle hoff, ha.guest⟩
    have he : e ∈ addEvent s.events target .WAKEUP target := he
    rw [addEvent_same, if_neg (by decide)] at he
    rcases List.mem_append.mp he with he | he
    · exact ha.handled hoff e he
    · exact .inl (List.mem_singleton.mp he)
  · refine ha.move rfl rfl (fun e he => ?_) id rfl (by simp [hpc]) fun heq =>
      ⟨ha.away hidle heq, by simp⟩
    have he : e ∈ addEvent s.events target .WAKEUP c := he
    rw [addEvent_of_ne _ _ (Ne.symm hc)] at he
    exact .inl he

/-- The interrupt of a wake-up is raised: the hart is not about to clear it. -/
theorem Answers.raise {target : Nat} (ha : Answers plic s c) (hg : s.Settled p c)
    (hpc : s.pc p = .raise target) :
    Answers plic ((s.setPending target true).goto p (.unlock target)) c := by
  have hidle : ¬ (s.pc p).Idle := by
    rw [hpc]
    exact id
  by_cases hc : target = c
  · subst hc
    refine ⟨fun _ => .inr ⟨Function.update_self .., ?_⟩, ha.handled,
      fun hoff => idle_update (s := s) ha hidle hoff, ha.guest⟩
    show Function.update s.pc p (HartPc.unlock target) target ≠ .clearSsoft
    rw [Function.update_apply]
    split
    · simp
    · exact hg.2 hpc
  · exact ha.move rfl rfl (fun _ => .inl) pending_setPending rfl (by simp [hpc, hc]) fun heq =>
      ⟨ha.away hidle heq, by simp⟩

/-- A hart that is on has no wake-up queued, and may leave its handler. -/
theorem Tracks.answers (ht : Tracks s₀ c s ph) (hon : s.powerOn c = true)
    (hon' : s'.powerOn c = true) (hevents : ∀ e ∈ s'.events c, e ∈ s.events c) :
    Answers plic s' c :=
  ⟨fun hmem => absurd (hevents _ hmem) (ht.wakeup_notMem hon),
    fun hoff => absurd (hon'.symm.trans hoff) (by simp),
    fun hoff => absurd (hon'.symm.trans hoff) (by simp), fun _ => hon'⟩

/-- A fetched event is handled, or ends the handler of a hart that is on. -/
theorem Answers.fetched {event : IpiEvent} {events : EventQueues} (ht : Tracks s₀ c s ph)
    (ha : Answers plic s c) (hpc : s.pc p = .checkEvents) (hne : event ≠ .WAKEUP)
    (hfetch : fetchEvent s.events p = (some event, events)) :
    Answers plic (if riscvHandles plic event then { s with events }
      else { s with events }.goto p .clearSsoft) c := by
  have hevents : ∀ e ∈ events c, e ∈ s.events c := fun e he => mem_of_fetchEvent hfetch he
  split
  · exact ha.move (q := .checkEvents) rfl rfl (fun e he => .inl (hevents e he)) id
      (Function.update_eq_self_iff.mpr hpc.symm).symm (by simp [hpc])
      fun _ => ⟨fun _ => trivial, by simp⟩
  · next hhandles =>
    by_cases hc : p = c
    · subst hc
      have hon : s.powerOn p = true := by
        by_contra hoff
        have hmem : event ∈ s.events p := List.mem_of_mem_head? (congrArg Prod.fst hfetch)
        rcases ha.handled (Bool.eq_false_of_not_eq_true hoff) event hmem with rfl | hh
        · exact hne rfl
        · exact hhandles hh
      exact ht.answers hon hon hevents
    · exact ha.move rfl rfl (fun e he => .inl (hevents e he)) id rfl (by simp [hpc])
        fun heq => absurd heq hc

/-- No event is left, and the hart is about to clear its interrupt. -/
theorem Answers.drained {events : EventQueues} (ha : Answers plic s c)
    (hpc : s.pc p = .checkEvents) (hfetch : fetchEvent s.events p = (none, events)) :
    Answers plic ({ s with events }.goto p .clearSsoft) c := by
  have hevents : ∀ e ∈ events c, e ∈ s.events c := fun e he => mem_of_fetchEvent hfetch he
  by_cases hc : p = c
  · subst hc
    have hnil : s.events p = [] := List.head?_eq_none_iff.mp (congrArg Prod.fst hfetch)
    have hempty : ∀ e, e ∉ events p := fun e he => by
      have := hevents e he
      rw [hnil] at this
      cases this
    refine ⟨fun hmem => absurd hmem (hempty _), fun _ e he => absurd he (hempty e), fun _ => ?_,
      ha.guest⟩
    show (Function.update s.pc p HartPc.clearSsoft p).Idle
    rw [Function.update_self]
    trivial
  · exact ha.move rfl rfl (fun e he => .inl (hevents e he)) id rfl (by simp [hpc])
      fun heq => absurd heq hc

/-- The interrupt is cleared: a wake-up that came since the last look is still to be raised. -/
theorem Answers.clearSsoft (ha : Answers plic s c) (hpc : s.pc p = .clearSsoft) :
    Answers plic ((s.setPending p false).goto p .lower) c := by
  by_cases hc : p = c
  · subst hc
    refine ⟨fun hmem => ?_, ha.handled, fun _ => ?_, ha.guest⟩
    · rcases ha.pended hmem with ⟨q, hq⟩ | ⟨-, hclear⟩
      · have hqp : q ≠ p := by
          rintro rfl
          rw [hpc] at hq
          cases hq
        exact .inl ⟨q, (Function.update_of_ne hqp ..).trans hq⟩
      · exact absurd hpc hclear
    · show (Function.update s.pc p HartPc.lower p).Idle
      rw [Function.update_self]
      trivial
  · refine ha.move rfl rfl (fun _ => .inl) (fun hpend => ?_) rfl (by simp [hpc])
      fun heq => absurd heq hc
    exact (Function.update_of_ne (Ne.symm hc) ..).trans hpend

/-- A hart that sets its flag has taken its wake-up. -/
theorem Answers.powerOn (ht : Tracks s₀ c s ph) (ha : Answers plic s c)
    (hpc : s.pc p = .powerOn) :
    Answers plic ({ s with powerOn := Function.update s.powerOn p true }.goto p .readEntry) c := by
  by_cases hc : p = c
  · subst hc
    have hon : ∀ {b : Bool}, Function.update s.powerOn p true p = b → b = true := fun h => by
      rw [← h, Function.update_self]
    refine ⟨fun hmem => ?_, fun hoff => absurd (hon hoff) (by simp),
      fun hoff => absurd (hon hoff) (by simp), fun _ => Function.update_self ..⟩
    obtain ⟨i, args, -, hway⟩ := sent_of_waking ht (by rw [hpc]; trivial)
    exact absurd hmem (hway.waking (by rw [hpc]; trivial)).1
  · exact ha.move (Function.update_of_ne (Ne.symm hc) ..) rfl (fun _ => .inl) id rfl
      (by simp [hpc]) fun heq => absurd heq hc

/-- A hart that enters its guest is on. -/
theorem Answers.enter (ht : Tracks s₀ c s ph) (ha : Answers plic s c) (hpc : s.pc p = .enter) :
    Answers plic ({ s with inGuest := Function.update s.inGuest p true }.goto p .lower) c := by
  by_cases hc : p = c
  · subst hc
    have hon : s.powerOn p = true := by
      by_contra hoff
      have hidle := ha.idle (Bool.eq_false_of_not_eq_true hoff)
      rw [hpc] at hidle
      exact hidle
    exact ht.answers hon hon fun _ => id
  · exact ha.move rfl (Function.update_of_ne (Ne.symm hc) ..) (fun _ => .inl) id rfl
      (by simp [hpc]) fun heq => absurd heq hc

/-- **What a step does to the interrupt** of the hart. -/
theorem answers_of_hartStep (ht : Tracks s₀ c s ph) (ha : Answers plic s c) (hg : s.Settled p c)
    (hs : hartStep plic s p act = some (s', ret)) : Answers plic s' c := by
  have hother : ∀ {α : Type} (f : Nat → α) (x : α), p ≠ c → Function.update f p x c = f c :=
    fun f x hne => Function.update_of_ne hne.symm x f
  have hsame : ∀ {e : IpiEvent}, e ∈ s.events c → e ∈ s.events c ∨
      e ≠ .WAKEUP ∧ (riscvHandles plic e = true ∨ s.powerOn c = true) := .inl
  -- the hart never stops
  have hstops : (s.pc p).Stopping → p ≠ c := fun hstop heq => ht.stopping (heq ▸ hstop)
  revert hs
  fun_cases hartStep plic s p act <;> intro hs <;> cases hs
  case case1 hpc _ =>
    exact ha.move rfl rfl (fun _ => hsame) id rfl (by simp [hpc]) fun _ =>
      ⟨fun _ => trivial, by simp⟩
  case case3 hpc hsends | case18 hpc hsends =>
    exact ha.move rfl rfl (fun _ => mem_or_of_sends hsends) id rfl (by simp [hpc]) fun _ =>
      ⟨fun _ => trivial, by simp⟩
  case case5 => exact ha
  case case6 hpc hguest _ =>
    refine ha.move rfl rfl (fun _ => hsame) id rfl (by simp [hpc]) fun heq =>
      ⟨fun hoff => ?_, by simp⟩
    rw [ha.guest (heq ▸ hguest)] at hoff
    cases hoff
  case case8 hpc _ | case11 hpc _ | case12 hpc | case13 hpc | case26 hpc | case27 hpc =>
    exact ha.move rfl rfl (fun _ => hsame) id rfl (by simp [hpc]) fun heq =>
      ⟨ha.away (by rw [hpc]; exact id) heq, by simp⟩
  case case10 hpc _ | case16 hpc =>
    exact ha.move rfl rfl (fun _ => hsame) id rfl (by simp [hpc]) fun _ =>
      ⟨fun _ => trivial, by simp⟩
  case case14 hpc => exact ha.send hpc
  case case15 hpc => exact ha.raise hg hpc
  case case17 target inHandler hpc =>
    refine ha.move rfl rfl (fun _ => hsame) pending_setPending rfl (by simp [hpc]) fun _ => ?_
    cases inHandler
    all_goals exact ⟨fun _ => trivial, by simp⟩
  case case20 hpc events s₁ hfetch =>
    exact ha.move rfl rfl (fun e he => .inl (mem_of_fetchEvent hfetch he)) id rfl (by simp [hpc])
      fun _ => ⟨fun _ => trivial, by simp⟩
  case case21 hpc events s₁ hfetch =>
    have hc : p ≠ c := fun heq =>
      ht.shutdown (heq ▸ List.mem_of_mem_head? (congrArg Prod.fst hfetch))
    exact ha.move rfl rfl (fun e he => .inl (mem_of_fetchEvent hfetch he)) id rfl (by simp [hpc])
      fun heq => absurd heq hc
  case case22 hpc events s₁ event hne hshut hfetch => exact ha.fetched ht hpc hne hfetch
  case case23 hpc events s₁ hfetch => exact ha.drained hpc hfetch
  case case24 hpc => exact ha.clearSsoft hpc
  case case25 hpc => exact ha.powerOn ht hpc
  case case28 hpc => exact ha.enter ht hpc
  case case29 hpc =>
    have hc := hstops (by rw [hpc]; trivial)
    exact ha.move (hother _ _ hc) rfl (fun _ => hsame) id rfl (by simp [hpc])
      fun heq => absurd heq hc
  case case30 hpc =>
    have hc := hstops (by rw [hpc]; trivial)
    exact ha.move rfl (hother _ _ hc) (fun _ => hsame) id rfl (by simp [hpc])
      fun heq => absurd heq hc

/-! ## The way of a start -/

/-- What is left of a call that was accepted. -/
def callCost (s : HartMachine) (c : Nat) : Nat :=
  match s.ctrlLock c with
  | some q => (s.pc q).callCost
  | none => 0

/-- What is left until the hart enters its guest: of the call, of the hart's own way, and of the
events before the wake-up. -/
def startCost (s : HartMachine) (c : Nat) : Nat :=
  2 * s.callCost c + (s.pc c).wakeCost (s.powerOn c) + (s.events c).length

/-- A hart that moves to a place where no more of a call is left. -/
theorem callCost_le {q : HartPc} (hlock : s'.ctrlLock = s.ctrlLock)
    (hpc : s'.pc = Function.update s.pc p q) (hq : q.callCost ≤ (s.pc p).callCost) :
    s'.callCost c ≤ s.callCost c := by
  unfold callCost
  rw [hlock]
  split
  · next r _ =>
    rw [hpc, Function.update_apply]
    split
    · next heq => rwa [heq]
    · exact Nat.le_refl _
  · exact Nat.le_refl _

/-- The hart goes on on its way, or takes an event. -/
theorem startCost_lt_of_wake {q : HartPc} (hlock : s'.ctrlLock = s.ctrlLock)
    (hpc : s'.pc = Function.update s.pc c q) (hq : q.callCost = 0)
    (hlt : q.wakeCost (s'.powerOn c) + (s'.events c).length <
      (s.pc c).wakeCost (s.powerOn c) + (s.events c).length) :
    s'.startCost c < s.startCost c := by
  have hcall : s'.callCost c ≤ s.callCost c :=
    callCost_le hlock hpc (by rw [hq]; exact Nat.zero_le _)
  have hself : s'.pc c = q := by rw [hpc, Function.update_self]
  rw [startCost, startCost, hself]
  omega

/-- The call goes on, and may queue the wake-up. -/
theorem startCost_lt_of_call {q : HartPc} (hl : s.ctrlLock c = some p) (hpc' : p ≠ c)
    (hlock : s'.ctrlLock = s.ctrlLock) (hpc : s'.pc = Function.update s.pc p q)
    (hq : q.callCost < (s.pc p).callCost) (hon : s'.powerOn c = s.powerOn c)
    (hlt : (s'.events c).length ≤ (s.events c).length + 1) : s'.startCost c < s.startCost c := by
  have hcall : s.callCost c = (s.pc p).callCost := by rw [callCost, hl]
  have hcall' : s'.callCost c = q.callCost := by
    rw [callCost, hlock, hl]
    dsimp only
    rw [hpc, Function.update_self]
  have hc : s'.pc c = s.pc c := by rw [hpc, Function.update_of_ne hpc'.symm]
  rw [startCost, startCost, hcall, hcall', hc, hon]
  omega

/-- A place at which a step of the hart neither accepts a call nor raises a wake-up. -/
theorem Settled.of_pc {q : HartPc} (hpc : s.pc p = q) (hcheck : ∀ args, q ≠ .check c args)
    (hraise : q ≠ .raise c) : s.Settled p c :=
  ⟨fun args h => absurd (hpc.symm.trans h) (hcheck args), fun h => absurd (hpc.symm.trans h) hraise⟩

/-- A step of the hart, or of the call for it that holds its lock. -/
def Serves (s : HartMachine) (p c : Nat) : Prop := p = c ∨ (s.pc p).locks = some c

/-- Some step takes the start of the hart further: one of the hart, or of the call for it. -/
def Advances (plic : Bool) (s : HartMachine) (c : Nat) : Prop :=
  ∃ p act s' ret, hartStep plic s p act = some (s', ret) ∧ s.Settled p c ∧ s.Serves p c ∧
    s'.startCost c < s.startCost c

/-- A call that was accepted stores its arguments and sends the wake-up. -/
theorem advances_of_storing {i : Nat} (hl : s.Locked) (hne : i ≠ c) (h : s.Storing i c args) :
    s.Advances plic c := by
  have hcall : ∀ {q}, s.pc i = q → q.locks = some c → s.ctrlLock c = some i := fun hpc hq =>
    hl i c (by rw [hpc, hq])
  rcases h with hpc | ⟨hpc, -⟩ | ⟨hpc, -⟩
  · refine ⟨i, .step, { s with cpuOnEntry := Function.update s.cpuOnEntry c args.startAddr }.goto i
      (.storeDtb c args.opaq), none, by simp only [hartStep, hpc], .of_pc hpc (by simp) (by simp),
      .inr (by rw [hpc]; rfl), ?_⟩
    exact startCost_lt_of_call (hcall hpc rfl) hne rfl rfl (by simp [hpc, HartPc.callCost])
      rfl (Nat.le_succ _)
  · refine ⟨i, .step, { s with dtbIpa := Function.update s.dtbIpa c args.opaq }.goto i (.send c),
      none, by simp only [hartStep, hpc], .of_pc hpc (by simp) (by simp),
      .inr (by rw [hpc]; rfl), ?_⟩
    exact startCost_lt_of_call (hcall hpc rfl) hne rfl rfl (by simp [hpc, HartPc.callCost])
      rfl (Nat.le_succ _)
  · refine ⟨i, .step, (s.send c .WAKEUP).goto i (.raise c), none, by simp only [hartStep, hpc],
      .of_pc hpc (by simp) (by simp), .inr (by rw [hpc]; rfl), ?_⟩
    refine startCost_lt_of_call (hcall hpc rfl) hne rfl rfl (by simp [hpc, HartPc.callCost]) rfl ?_
    show (addEvent s.events c .WAKEUP c).length ≤ (s.events c).length + 1
    rw [addEvent_same, if_neg (by decide), List.length_append, List.length_singleton]

/-- The hart leaves its handler, before the interrupt of the wake-up is raised. -/
theorem advances_of_clearSsoft (hpc : s.pc c = .clearSsoft) : s.Advances plic c := by
  refine ⟨c, .step, (s.setPending c false).goto c .lower, none, by simp only [hartStep, hpc],
    .of_pc hpc (by simp) (by simp), .inl rfl, ?_⟩
  refine startCost_lt_of_wake rfl rfl rfl ?_
  have hlt : ∀ on, HartPc.lower.wakeCost on < 7 := by decide
  rw [hpc]
  exact Nat.add_lt_add_right (hlt _) _

/-- The call raises the interrupt of the wake-up. -/
theorem advances_of_raise {q : Nat} (hl : s.Locked) (hne : q ≠ c) (hpc : s.pc q = .raise c)
    (hclear : s.pc c ≠ .clearSsoft) : s.Advances plic c := by
  refine ⟨q, .step, (s.setPending c true).goto q (.unlock c), none, by simp only [hartStep, hpc],
    ⟨fun _ h => (by cases hpc.symm.trans h), fun _ => hclear⟩, .inr (by rw [hpc]; rfl), ?_⟩
  exact startCost_lt_of_call (hl q c (by rw [hpc]; rfl)) hne rfl rfl
    (by simp [hpc, HartPc.callCost]) rfl (Nat.le_succ _)

/-- The hart takes the interrupt of the wake-up, and what is queued before it. -/
theorem advances_of_pending (ha : Answers plic s c) (hoff : s.powerOn c = false)
    (hway : ¬ (s.pc c).Waking) (hmem : .WAKEUP ∈ s.events c) (hpend : s.pending c = true)
    (hclear : s.pc c ≠ .clearSsoft) : s.Advances plic c := by
  have hidle := ha.idle hoff
  cases hpc : s.pc c with
  | lower =>
    refine ⟨c, .irq, s.goto c .checkEvents, none, by simp only [hartStep, hpc, hpend, if_true],
      .of_pc hpc (by simp) (by simp), .inl rfl, ?_⟩
    exact startCost_lt_of_wake rfl rfl rfl (by simp [hpc, hoff, HartPc.wakeCost, goto])
  | raiseEvent target inHandler =>
    refine ⟨c, .step,
      (s.setPending target true).goto c (if inHandler then .checkEvents else .lower), none,
      by simp only [hartStep, hpc], .of_pc hpc (by simp) (by simp), .inl rfl, ?_⟩
    cases inHandler
    all_goals
      exact startCost_lt_of_wake rfl rfl rfl
        (by simp [hpc, hoff, HartPc.wakeCost, setPending, goto])
  | checkEvents =>
    obtain ⟨event, rest, hq⟩ := List.exists_cons_of_ne_nil (List.ne_nil_of_mem hmem)
    have hfetch : fetchEvent s.events c = (some event, Function.update s.events c rest) := by
      rw [fetchEvent, hq]
      rfl
    have hlen : (Function.update s.events c rest c).length < (s.events c).length := by
      rw [Function.update_self, hq]
      exact Nat.lt_succ_self _
    rcases ha.handled hoff event (hq ▸ List.mem_cons_self ..) with rfl | hhandles
    · refine ⟨c, .step, { s with events := Function.update s.events c rest }.goto c .powerOn, none,
        by simp only [hartStep, hpc, hfetch], .of_pc hpc (by simp) (by simp), .inl rfl, ?_⟩
      refine startCost_lt_of_wake rfl rfl rfl ?_
      have hlt : HartPc.powerOn.wakeCost (s.powerOn c) < 5 := Nat.lt_succ_self 4
      rw [hpc]
      exact Nat.add_lt_add hlt hlen
    · refine ⟨c, .step, { s with events := Function.update s.events c rest }, none, ?_,
        .of_pc hpc (by simp) (by simp), .inl rfl, ?_⟩
      · simp only [hartStep, hpc, hfetch]
        cases event
        case WAKEUP | SHUTDOWN => cases hhandles
        all_goals exact congrArg (fun s => some (s, none)) (if_pos hhandles)
      · refine startCost_lt_of_wake rfl (Function.update_eq_self_iff.mpr hpc.symm).symm rfl ?_
        rw [hpc]
        exact Nat.add_lt_add_left hlen _
  | clearSsoft => exact absurd hpc hclear
  | powerOn => exact absurd (by rw [hpc]; trivial) hway
  | _ => exact absurd hidle (by rw [hpc]; exact id)

/-- The hart enters its guest. -/
theorem advances_of_waking (hon : s.pc c = .enter → s.powerOn c = true) (hw : (s.pc c).Waking) :
    s.Advances plic c := by
  cases hpc : s.pc c with
  | powerOn =>
    refine ⟨c, .step, { s with powerOn := Function.update s.powerOn c true }.goto c .readEntry,
      none, by simp only [hartStep, hpc], .of_pc hpc (by simp) (by simp), .inl rfl, ?_⟩
    exact startCost_lt_of_wake rfl rfl rfl (by simp [hpc, HartPc.wakeCost, goto])
  | readEntry =>
    refine ⟨c, .step, { s with sepc := Function.update s.sepc c (s.cpuOnEntry c) }.goto c .readDtb,
      none, by simp only [hartStep, hpc], .of_pc hpc (by simp) (by simp), .inl rfl, ?_⟩
    exact startCost_lt_of_wake rfl rfl rfl (by simp [hpc, HartPc.wakeCost, goto])
  | readDtb =>
    refine ⟨c, .step, { s with x11 := Function.update s.x11 c (s.dtbIpa c) }.goto c .enter, none,
      by simp only [hartStep, hpc], .of_pc hpc (by simp) (by simp), .inl rfl, ?_⟩
    exact startCost_lt_of_wake rfl rfl rfl (by simp [hpc, HartPc.wakeCost, goto])
  | enter =>
    refine ⟨c, .step, { s with inGuest := Function.update s.inGuest c true }.goto c .lower, none,
      by simp only [hartStep, hpc], .of_pc hpc (by simp) (by simp), .inl rfl, ?_⟩
    exact startCost_lt_of_wake rfl rfl rfl (by simp [hpc, hon hpc, HartPc.wakeCost, goto])
  | _ =>
    rw [hpc] at hw
    exact hw.elim

/-- **A start that is under way goes on** until the hart is on and in its guest: every place has a
step that takes it further, of the hart or of the call for it. -/
theorem exists_hartStep (ht : Tracks s₀ c s ph) (ha : Answers plic s c) (hne : ph ≠ .parked) :
    s.powerOn c = true ∧ ¬ (s.pc c).Waking ∨ s.Advances plic c := by
  -- a hart that is off is in no call
  have hother : ∀ {q}, s.powerOn c = false → ¬ (s.pc q).Idle → q ≠ c := fun hoff hq heq =>
    hq (heq ▸ ha.idle hoff)
  have hphase := ht.phase
  cases ph with
  | parked => exact absurd rfl hne
  | accepted i args =>
    obtain ⟨hoff, -, hstoring⟩ := hphase
    refine .inr (advances_of_storing ht.locked (hother hoff ?_) hstoring)
    rcases hstoring with hpc | ⟨hpc, -⟩ | ⟨hpc, -⟩
    all_goals
      rw [hpc]
      exact id
  | sent i args =>
    refine .inr ?_
    cases hphase.2 with
    | queued hoff hway hcount =>
      have hmem : .WAKEUP ∈ s.events c := List.count_pos_iff.mp (hcount ▸ Nat.one_pos)
      by_cases hclear : s.pc c = .clearSsoft
      · exact advances_of_clearSsoft hclear
      · rcases ha.pended hmem with ⟨q, hq⟩ | ⟨hpend, -⟩
        · exact advances_of_raise ht.locked (hother hoff (by rw [hq]; exact id)) hq hclear
        · exact advances_of_pending ha hoff hway hmem hpend hclear
    | powerOn _ hpc _ => exact advances_of_waking (by simp [hpc]) (by rw [hpc]; trivial)
    | readEntry hon hpc _ => exact advances_of_waking (fun _ => hon) (by rw [hpc]; trivial)
    | readDtb hon hpc _ _ => exact advances_of_waking (fun _ => hon) (by rw [hpc]; trivial)
    | enter hon hpc _ _ _ => exact advances_of_waking (fun _ => hon) (by rw [hpc]; trivial)
  | entered i args => exact .inl ⟨hphase.1, hphase.2.1.2⟩

/-! ## Runs -/

/-- A parked hart has no start under way, and takes the wake-up that it will be sent. -/
theorem Parked.tracks (hp : s₀.Parked plic c) (hl : s₀.Locked) : Tracks s₀ c s₀ .parked := by
  refine ⟨hl, fun hmem => ?_, ?_, fun q hq => absurd hq (hp.accepts q), hp.powerOn,
    ⟨fun hmem => ?_, ?_⟩, ⟨rfl, rfl⟩⟩
  · cases hp.handled _ hmem
  · rw [hp.pc]
    exact id
  · cases hp.handled _ hmem
  · rw [hp.pc]
    exact id

theorem Parked.answers (hp : s₀.Parked plic c) : Answers plic s₀ c := by
  refine ⟨fun hmem => ?_, fun _ e he => .inr (hp.handled e he), fun _ => ?_, fun hg => ?_⟩
  · cases hp.handled _ hmem
  · rw [hp.pc]
    trivial
  · rw [hp.inGuest] at hg
    cases hg

/-- The calls for a parked hart are a start that happens once, when each step is settled, and the
hart takes its wake-up. -/
theorem hartWatch_simulates (hp : s₀.Parked plic c) (hl : s₀.Locked)
    {h : List (Nat × Option (Event Nat HartArgs))}
    (r : ((hartWatch plic c s₀).restrict fun s e => s.Settled e.1 c).Run h s) :
    ∃ ph, (StartOnce.system Nat HartArgs).Run (h.filterMap Prod.snd) ph ∧ Tracks s₀ c s ph ∧
      Answers plic s c := by
  refine TransitionSystem.Run.simulates
    (R := fun _ s ph => Tracks s₀ c s ph ∧ Answers plic s c) ?_ ?_ ?_ r
  · rintro s rfl
    exact ⟨.parked, rfl, hp.tracks hl, hp.answers⟩
  · rintro _ s e s' ph _ ⟨ht, ha⟩ ⟨hg, act, ret, hs, hseen⟩ he
    have hfollows := follows_of_hartStep ht hg hs
    rw [← hseen, he] at hfollows
    exact ⟨hfollows, answers_of_hartStep ht ha hg hs⟩
  · rintro _ s e s' ph b _ ⟨ht, ha⟩ ⟨hg, act, ret, hs, hseen⟩ he
    have hfollows := follows_of_hartStep ht hg hs
    rw [← hseen, he] at hfollows
    obtain ⟨ph', hstep, ht'⟩ := hfollows
    exact ⟨ph', hstep, ht', answers_of_hartStep ht ha hg hs⟩

/-- A hart at rest for which a call was seen has entered its guest. -/
theorem exact_of_atRest {h : List (Event Nat HartArgs)} (ht : Tracks s₀ c s ph)
    (r : (StartOnce.system Nat HartArgs).Run h ph) (hrest : s.AtRest c) (hh : h ≠ []) :
    h.countP Event.succeeds = 1 ∧ h.countP Event.enters = 1 := by
  obtain ⟨⟨hwake, hway⟩, haccepts⟩ := hrest
  have hphase := ht.phase
  cases ph with
  | parked => exact absurd (eq_nil_of_run r rfl) hh
  | accepted i args => exact absurd hphase.2.2.accepts (haccepts i)
  | sent i args =>
    cases hphase.2 with
    | queued _ _ hcount => exact absurd (List.count_pos_iff.mp (hcount ▸ Nat.one_pos)) hwake
    | powerOn _ hpc _ => exact absurd (by rw [hpc]; trivial) hway
    | readEntry _ hpc _ => exact absurd (by rw [hpc]; trivial) hway
    | readDtb _ hpc _ _ => exact absurd (by rw [hpc]; trivial) hway
    | enter _ hpc _ _ _ => exact absurd (by rw [hpc]; trivial) hway
  | entered i args => exact exact_of_run r

/-- A hart that is on, and not on its way to the guest, has no start under way. -/
theorem Tracks.atRest (ht : Tracks s₀ c s ph) (hon : s.powerOn c = true)
    (hway : ¬ (s.pc c).Waking) : s.AtRest c := by
  refine ⟨⟨ht.wakeup_notMem hon, hway⟩, fun q hq => ?_⟩
  obtain ⟨args, rfl⟩ := ht.sender q hq
  cases hon.symm.trans ht.phase.1

/-- **A run in which a call was seen can be led to the entry of the hart**, by steps of the hart and
of the call for it. -/
theorem exists_entry (hp : s₀.Parked plic c) (hl : s₀.Locked)
    {h : List (Nat × Option (Event Nat HartArgs))}
    (r : ((hartWatch plic c s₀).restrict fun s e => s.Settled e.1 c).Run h s)
    (hh : h.filterMap Prod.snd ≠ []) :
    ∃ h' s', (((hartWatch plic c s).restrict fun s e => s.Settled e.1 c).restrict
        fun s e => s.Serves e.1 c).Run h' s' ∧
      ((h' ++ h).filterMap Prod.snd).countP Event.succeeds = 1 ∧
        ((h' ++ h).filterMap Prod.snd).countP Event.enters = 1 := by
  have hseen : ∀ h' : List (Nat × Option (Event Nat HartArgs)),
      (h' ++ h).filterMap Prod.snd ≠ [] := fun h' heq => by
    rw [List.filterMap_append] at heq
    exact hh (List.append_eq_nil_iff.mp heq).2
  -- the start of the hart in a state that the run is led to
  have hsim : ∀ h' s', (((hartWatch plic c s).restrict fun s e => s.Settled e.1 c).restrict
        fun s e => s.Serves e.1 c).Run h' s' → ∃ ph,
      (StartOnce.system Nat HartArgs).Run ((h' ++ h).filterMap Prod.snd) ph ∧ Tracks s₀ c s' ph ∧
        Answers plic s' c :=
    fun h' s' r' => hartWatch_simulates hp hl (r.append r'.of_restrict)
  have start : (((hartWatch plic c s).restrict fun s e => s.Settled e.1 c).restrict
      fun s e => s.Serves e.1 c).Run [] s := .start rfl
  obtain ⟨h', s', r', hon, hway⟩ := start.exists_lead
    (fun s => s.powerOn c = true ∧ ¬ (s.pc c).Waking) (fun s => s.startCost c) fun h' s' r' => by
      obtain ⟨ph, hrun, ht, ha⟩ := hsim h' s' r'
      have hph : ph ≠ .parked := fun hph => hseen h' (eq_nil_of_run hrun hph)
      refine (exists_hartStep ht ha hph).imp_right ?_
      rintro ⟨p, act, s'', ret, hs, hg, hserves, hlt⟩
      exact ⟨(p, s'.seen c p ret), s'', ⟨hserves, hg, act, ret, hs, rfl⟩, hlt⟩
  rw [List.append_nil] at r'
  obtain ⟨ph, hrun, ht, -⟩ := hsim h' s' r'
  exact ⟨h', s', r', exact_of_atRest ht hrun (ht.atRest hon hway) (hseen h')⟩

end HartMachine

open HartMachine

/-- **`HART_START` starts a parked hart exactly once** in runs in which a call that finds the flag
of the hart clear finds no start pending, and no wake-up is raised while the hart is about to clear
its pending bit: at most one call succeeds; the hart enters its guest at most once, after that call,
with its arguments, which the data of the hart keep; as long as no call is accepted the data are
what they were; once a call was seen, and whenever the hart is at rest then, exactly one call has
succeeded and the hart has entered its guest exactly once; and as long as it has not, the steps of
the hart and of the call lead there. -/
theorem hartStart_once_of_run (plic : Bool) (hp : s₀.Parked plic c) (hl : s₀.Locked)
    {h : List (Nat × Option (Event Nat HartArgs))}
    (r : ((hartWatch plic c s₀).restrict fun s e => s.Settled e.1 c).Run h s) :
    Once (h.filterMap Prod.snd) ∧
      (∀ i args, .accepted i args ∈ h.filterMap Prod.snd →
        .returned i true ∈ h.filterMap Prod.snd → s.Stored c args) ∧
      ((∀ i args, .accepted i args ∉ h.filterMap Prod.snd) →
        s.Stored c ⟨s₀.cpuOnEntry c, s₀.dtbIpa c⟩) ∧
      (h.filterMap Prod.snd ≠ [] →
        (s.AtRest c → (h.filterMap Prod.snd).countP Event.succeeds = 1 ∧
          (h.filterMap Prod.snd).countP Event.enters = 1) ∧
        ∃ h' s', (((hartWatch plic c s).restrict fun s e => s.Settled e.1 c).restrict
            fun s e => s.Serves e.1 c).Run h' s' ∧
          ((h' ++ h).filterMap Prod.snd).countP Event.succeeds = 1 ∧
            ((h' ++ h).filterMap Prod.snd).countP Event.enters = 1) := by
  obtain ⟨ph, hrun, ht, -⟩ := hartWatch_simulates hp hl r
  have hphase := ht.phase
  refine ⟨once_of_run hrun, fun i args hmem hret => ?_, fun hno => ?_, fun hh =>
    ⟨fun hrest => exact_of_atRest ht hrun hrest hh, exists_entry hp hl r hh⟩⟩
  · have hreq := (accepted_iff_of_run hrun).mp hmem
    have hcounted : Event.returned i true ∈ ph.counted := by
      rw [← counted_of_run hrun]
      exact List.mem_filter.mpr ⟨hret, rfl⟩
    cases ph with
    | parked => cases hreq
    | accepted j args' => simp [StartOnce.Phase.counted] at hcounted
    | sent j args' =>
      cases hreq
      exact hphase.1
    | entered j args' =>
      cases hreq
      exact hphase.2.2
  · cases ph with
    | parked => exact hphase.2.2
    | accepted j args' => exact absurd ((accepted_iff_of_run hrun).mpr rfl) (hno j args')
    | sent j args' => exact absurd ((accepted_iff_of_run hrun).mpr rfl) (hno j args')
    | entered j args' => exact absurd ((accepted_iff_of_run hrun).mpr rfl) (hno j args')

/-- The check of `Settled`. -/
def settledCheck (c : Nat) (s : HartMachine) (p : Nat) : Bool :=
  match s.pc p with
  | .check target _ =>
    target != c || s.powerOn c || !(s.events c).contains .WAKEUP && s.pc c != .powerOn
  | .raise target => target != c || s.pc c != .clearSsoft
  | _ => true

theorem settled_of_check (h : settledCheck c s p = true) : s.Settled p c := by
  refine ⟨fun args hpc hoff hpending => ?_, fun hpc => ?_⟩
  · rw [settledCheck, hpc] at h
    simp only [bne_self_eq_false, hoff, Bool.or_self, Bool.false_or, Bool.and_eq_true,
      Bool.not_eq_true', List.contains_eq_mem, decide_eq_false_iff_not, bne_iff_ne] at h
    rcases hpending with hmem | hon
    · exact h.1 hmem
    · exact h.2 hon
  · rw [settledCheck, hpc] at h
    simpa only [bne_self_eq_false, Bool.false_or, bne_iff_ne] using h

/-- Take steps in the given order, each of which passes a check. -/
def hartRun (c : Nat) (check : HartMachine → Nat → Bool) : List (Nat × HartAct) →
    List (Nat × Option (Event Nat HartArgs)) × HartMachine →
      Option (List (Nat × Option (Event Nat HartArgs)) × HartMachine)
  | [], r => some r
  | (p, act) :: acts, (h, s) =>
    if check s p then
      (hartStep true s p act).bind fun (s', ret) =>
        hartRun c check acts ((p, s.seen c p ret) :: h, s')
    else none

theorem run_of_hartRun {G : HartMachine → Nat → Prop} {check : HartMachine → Nat → Bool}
    (hG : ∀ s p, check s p = true → G s p) {acts : List (Nat × HartAct)}
    {h h' : List (Nat × Option (Event Nat HartArgs))}
    (r : ((hartWatch true c s₀).restrict fun s e => G s e.1).Run h s)
    (hr : hartRun c check acts (h, s) = some (h', s')) :
    ((hartWatch true c s₀).restrict fun s e => G s e.1).Run h' s' := by
  induction acts generalizing h s with
  | nil =>
    cases hr
    exact r
  | cons a acts ih =>
    obtain ⟨p, act⟩ := a
    rw [hartRun] at hr
    split at hr
    · next hcheck =>
      obtain ⟨⟨s₁, ret⟩, hs, hr⟩ := Option.bind_eq_some_iff.mp hr
      exact ih (.next (e := (p, s.seen c p ret)) r ⟨hG s p hcheck, act, ret, hs, rfl⟩) hr
    · cases hr

theorem pc_of_hartStep {q : Nat} (hs : hartStep plic s p act = some (s', ret)) (hq : q ≠ p) :
    s'.pc q = s.pc q := by
  revert hs
  fun_cases hartStep plic s p act <;> intro hs <;> cases hs
  case case5 => rfl
  case case22 =>
    split
    · rfl
    · exact Function.update_of_ne hq ..
  all_goals exact Function.update_of_ne hq ..

/-- A hart that takes no step stays where it is. -/
theorem pc_of_hartRun {check : HartMachine → Nat → Bool} {acts : List (Nat × HartAct)} {q : Nat}
    {h h' : List (Nat × Option (Event Nat HartArgs))} (hq : ∀ a ∈ acts, q ≠ a.1)
    (hr : hartRun c check acts (h, s) = some (h', s')) : s'.pc q = s.pc q := by
  induction acts generalizing h s with
  | nil =>
    cases hr
    rfl
  | cons a acts ih =>
    obtain ⟨p, act⟩ := a
    rw [hartRun] at hr
    split at hr
    · obtain ⟨⟨s₁, ret⟩, hs, hr⟩ := Option.bind_eq_some_iff.mp hr
      obtain ⟨hqp, hq⟩ := List.forall_mem_cons.mp hq
      exact (ih hq hr).trans (pc_of_hartStep hs hqp)
    · cases hr

/-- Harts 0 and 1 run the guest, and hart 2 is parked. -/
def parkedHart : HartMachine where
  powerOn c := decide (c < 2)
  cpuOnEntry _ := INVALID_ADDRESS
  dtbIpa _ := INVALID_ADDRESS
  ctrlLock _ := none
  events _ := []
  pending _ := false
  sepc _ := 0
  x11 _ := 0
  inGuest c := decide (c < 2)
  pc _ := .lower

theorem parked_parkedHart : parkedHart.Parked true 2 :=
  ⟨rfl, rfl, rfl, fun _ h => (by cases h), fun _ h => by cases h⟩

theorem locked_parkedHart : parkedHart.Locked := fun _ _ h => by cases h

/-- Hart `p` calls `HART_START` for hart 2, up to where the call returns. -/
def hartStartActs (p : Nat) (args : HartArgs) (n : Nat) : List (Nat × HartAct) :=
  (p, .hartStart 2 args) :: List.replicate n (p, .step)

/-- Hart 1 calls after hart 2 has set its flag. -/
def lateCall : List (Nat × HartAct) :=
  hartStartActs 0 ⟨0x80200000, 1⟩ 7 ++ [(2, .irq), (2, .step), (2, .step)] ++
    hartStartActs 1 ⟨0x80400000, 2⟩ 2 ++ [(2, .step), (2, .step), (2, .step)]

theorem hartStart_once_of_run_late : ∃ h s,
    ((hartWatch true 2 parkedHart).restrict fun s e => s.Settled e.1 2).Run h s ∧
    h.filterMap Prod.snd = [.entered ⟨0x80200000, 1⟩, .returned 1 false, .returned 0 true,
      .accepted 0 ⟨0x80200000, 1⟩] ∧ s.AtRest 2 ∧
    Once (h.filterMap Prod.snd) ∧ s.Stored 2 ⟨0x80200000, 1⟩ ∧
    (h.filterMap Prod.snd).countP Event.succeeds = 1 ∧
      (h.filterMap Prod.snd).countP Event.enters = 1 := by
  have hr : (hartRun 2 (settledCheck 2) lateCall ([], parkedHart)).map
        (fun r => ((r.2.pc 0, r.2.pc 1, r.2.pc 2, r.2.events 2), r.1.filterMap Prod.snd)) =
      some ((.lower, .lower, .lower, []), [.entered ⟨0x80200000, 1⟩, .returned 1 false,
        .returned 0 true, .accepted 0 ⟨0x80200000, 1⟩]) := by
    decide +kernel
  obtain ⟨⟨h, s⟩, hrun, he⟩ := Option.map_eq_some_iff.mp hr
  simp only [Prod.mk.injEq] at he
  obtain ⟨⟨h0, h1, h2, hevents⟩, hseen⟩ := he
  have hactive : ∀ a ∈ lateCall, a.1 < 3 := by decide
  have hlower : ∀ q, s.pc q = .lower
    | 0 => h0
    | 1 => h1
    | 2 => h2
    | q + 3 => pc_of_hartRun (fun a ha => by have := hactive a ha; omega) hrun
  have hrest : s.AtRest 2 := by
    refine ⟨⟨by simp [hevents], by rw [hlower]; exact id⟩, fun q => ?_⟩
    rw [hlower]
    simp [HartPc.accepts]
  have r := run_of_hartRun (fun _ _ => settled_of_check) (.start rfl) hrun
  obtain ⟨honce, hstored, -, hexact⟩ :=
    hartStart_once_of_run true parked_parkedHart locked_parkedHart r
  refine ⟨h, s, r, hseen, hrest, honce, hstored 0 _ ?_ ?_, (hexact ?_).1 hrest⟩
  · rw [hseen]
    simp
  · rw [hseen]
    simp
  · rw [hseen]
    simp

/-- Harts 0 and 1 call before hart 2 takes its interrupt, and both calls succeed. -/
theorem not_hartStart_once : ¬ ∀ (plic : Bool) (c : Nat) (s₀ : HartMachine)
    (h : List (Nat × Option (Event Nat HartArgs))) (s : HartMachine), s₀.Parked plic c → s₀.Locked →
    (hartWatch plic c s₀).Run h s → Once (h.filterMap Prod.snd) := by
  intro hall
  have hr : (hartRun 2 (fun _ _ => true) (hartStartActs 0 ⟨0x80200000, 1⟩ 7 ++
      hartStartActs 1 ⟨0x80400000, 2⟩ 7) ([], parkedHart)).map
        (fun r => (r.1.filterMap Prod.snd).countP Event.succeeds) = some 2 := by
    decide +kernel
  obtain ⟨⟨h, s⟩, hrun, hcount⟩ := Option.map_eq_some_iff.mp hr
  have r := run_of_hartRun (G := fun _ _ => True) (fun _ _ _ => trivial) (.start rfl) hrun
  have honce := hall true 2 parkedHart h s parked_parkedHart locked_parkedHart r.of_restrict
  have hle := honce.succeeds
  rw [hcount] at hle
  exact absurd hle (by decide)

/-- Hart 0 sends hart 2 an event, and calls when hart 2 is about to clear its pending bit. -/
def lostCall : List (Nat × HartAct) :=
  [(0, .event 2 .SEND_IPI), (0, .step), (2, .irq), (2, .step), (2, .step)] ++
    hartStartActs 0 ⟨0x80200000, 1⟩ 7 ++ [(2, .step)]

/-- **A call succeeds, and the hart does not take its wake-up**: it waits in the parking loop with
the wake-up queued, and its software interrupt is not pending. -/
theorem hartStart_lost : ∃ h s, (hartWatch true 2 parkedHart).Run h s ∧
    h.filterMap Prod.snd = [.returned 0 true, .accepted 0 ⟨0x80200000, 1⟩] ∧
    s.pc 0 = .lower ∧ s.pc 2 = .lower ∧ s.events 2 = [.WAKEUP] ∧ s.pending 2 = false ∧
    hartStep true s 2 .irq = none := by
  have hr : (hartRun 2 (fun _ _ => true) lostCall ([], parkedHart)).map
        (fun r => (r.1.filterMap Prod.snd, r.2.pc 0, r.2.pc 2, r.2.events 2, r.2.pending 2)) =
      some ([.returned 0 true, .accepted 0 ⟨0x80200000, 1⟩], .lower, .lower, [.WAKEUP], false) := by
    decide +kernel
  obtain ⟨⟨h, s⟩, hrun, he⟩ := Option.map_eq_some_iff.mp hr
  simp only [Prod.mk.injEq] at he
  obtain ⟨hseen, h0, h2, hevents, hpend⟩ := he
  have r := run_of_hartRun (G := fun _ _ => True) (fun _ _ _ => trivial) (.start rfl) hrun
  refine ⟨h, s, r.of_restrict, hseen, h0, h2, hevents, hpend, ?_⟩
  simp only [hartStep, h2, hpend]
  rfl

end Hvisor
