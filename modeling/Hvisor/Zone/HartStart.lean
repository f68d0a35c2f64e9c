import Hvisor.Event.Riscv
import Hvisor.Lib.StartOnce
import Hvisor.Zone.CpuOn

/-!
# Calls of `HART_START` for a parked hart

`sbi_hsm_start_handler` by the harts of a zone, aimed at one that is parked, with the software
interrupt and `run` of that hart, from riscv64's `sbi.rs`, `trap.rs`, `ipi.rs` and `cpu.rs`. A call
tests the flag `power_on` of the hart under its lock, but only the hart sets it, when it runs. A
call that tests it before that is accepted as well: it writes another entry, and its wake-up starts
the hart again. And the handler of the software interrupt clears the pending bit after it has looked
for events the last time, so that a wake-up in between stays queued without an interrupt.

## Main definitions

* `HartPc`, `HartMachine`, `hartStep`: the handlers and the steps
* `HartMachine.StartPending`: a hart was sent a wake-up and has not set its flag
* `HartMachine.Settled`: the condition on a step
* `hartWatch`: the steps, with what is seen of the calls for a hart
* `HartMachine.AtRest`: no start of the hart is under way
* `HartMachine.Tracks`: how far the start of a hart is

## Main results

* `follows_of_hartStep`: what a step does to the start of the hart
-/

namespace Hvisor

open StartOnce

/-- The arguments of a call. -/
structure HartArgs where
  startAddr : Nat
  opaq : Nat
  deriving DecidableEq

/-- Where a hart is. -/
inductive HartPc where
  /-- Runs its guest, or the parking loop. -/
  | lower
  /-- `sbi_hsm_start_handler`: about to take `ctrl_lock`, to test the flag, to write `cpu_on_entry`
  and `dtb_ipa`, to queue the wake-up, to raise the software interrupt, to release the lock. -/
  | lock (target : Nat) (args : HartArgs)
  | check (target : Nat) (args : HartArgs)
  | storeEntry (target : Nat) (args : HartArgs)
  | storeDtb (target opaq : Nat)
  | send (target : Nat)
  | raise (target : Nat)
  | unlock (target : Nat)
  /-- About to raise the software interrupt of another event, in the handler of events or not. -/
  | raiseEvent (target : Nat) (inHandler : Bool)
  /-- `handle_software_interrupt`: in the loop, and after it. -/
  | checkEvents
  | clearSsoft
  /-- `run`: about to set the flag, to read `cpu_on_entry` and `dtb_ipa`, to enter the guest. -/
  | powerOn
  | readEntry
  | readDtb
  | enter
  /-- `idle`. -/
  | powerOff
  | park
  deriving DecidableEq

/-- The data of the harts by field, with `sepc` and `x11` of the guest, and whether the hart runs
its guest. -/
structure HartMachine where
  powerOn : Nat → Bool
  cpuOnEntry : Nat → Nat
  dtbIpa : Nat → Nat
  ctrlLock : Nat → Option Nat
  events : EventQueues
  /-- The software interrupt is pending. -/
  pending : Nat → Bool
  sepc : Nat → Nat
  x11 : Nat → Nat
  inGuest : Nat → Bool
  pc : Nat → HartPc

/-- What a hart does. -/
inductive HartAct where
  /-- The hart takes the software interrupt. -/
  | irq
  /-- The hypervisor sends another event. -/
  | event (target : Nat) (event : IpiEvent)
  | hartStart (target : Nat) (args : HartArgs)
  | step
  deriving DecidableEq

namespace HartMachine

/-- The hart goes on at a place. -/
def goto (s : HartMachine) (p : Nat) (pc : HartPc) : HartMachine :=
  { s with pc := Function.update s.pc p pc }

/-- The event is queued. -/
def send (s : HartMachine) (c : Nat) (e : IpiEvent) : HartMachine :=
  { s with events := addEvent s.events c e }

/-- The software interrupt of a hart becomes pending, or not. -/
def setPending (s : HartMachine) (c : Nat) (b : Bool) : HartMachine :=
  { s with pending := Function.update s.pending c b }

/-- The hart has the lock of another one. -/
def lockCtrl (s : HartMachine) (c p : Nat) : HartMachine :=
  { s with ctrlLock := Function.update s.ctrlLock c (some p) }

/-- The lock of a hart is free. -/
def unlockCtrl (s : HartMachine) (c : Nat) : HartMachine :=
  { s with ctrlLock := Function.update s.ctrlLock c none }

end HartMachine

/-- The other events that a hart may be sent: all are handled but the clearing of injected
interrupts, which goes to harts that are on. No hart is shut down. -/
def HartMachine.sends (s : HartMachine) (plic : Bool) (target : Nat) (event : IpiEvent) : Bool :=
  riscvHandles plic event || event == .CLEAR_INJECT_IRQ && s.powerOn target

/-- A step of hart `p`, with what a call returns. -/
def hartStep (plic : Bool) (s : HartMachine) (p : Nat) (act : HartAct) :
    Option (HartMachine × Option SbiError) :=
  match s.pc p, act with
  | .lower, .irq => if s.pending p then some (s.goto p .checkEvents, none) else none
  | .lower, .event target event =>
    if s.sends plic target event then
      some ((s.send target event).goto p (.raiseEvent target false), none)
    else none
  | .lower, .hartStart target args =>
    if s.inGuest p then
      if target = p then some (s, some .RET_ERR_ALREADY_AVAILABLE)
      else some (s.goto p (.lock target args), none)
    else none
  | .lock target args, .step =>
    if s.ctrlLock target = none then
      some ((s.lockCtrl target p).goto p (.check target args), none)
    else none
  | .check target args, .step =>
    if s.powerOn target then some ((s.unlockCtrl target).goto p .lower, some .RET_ERR_FAILED)
    else some (s.goto p (.storeEntry target args), none)
  | .storeEntry target args, .step =>
    some ({ s with cpuOnEntry := Function.update s.cpuOnEntry target args.startAddr }.goto p
      (.storeDtb target args.opaq), none)
  | .storeDtb target opaq, .step =>
    some ({ s with dtbIpa := Function.update s.dtbIpa target opaq }.goto p (.send target), none)
  | .send target, .step => some ((s.send target .WAKEUP).goto p (.raise target), none)
  | .raise target, .step => some ((s.setPending target true).goto p (.unlock target), none)
  | .unlock target, .step => some ((s.unlockCtrl target).goto p .lower, some .RET_SUCCESS)
  | .raiseEvent target inHandler, .step =>
    some ((s.setPending target true).goto p (if inHandler then .checkEvents else .lower), none)
  | .checkEvents, .event target event =>
    if s.sends plic target event then
      some ((s.send target event).goto p (.raiseEvent target true), none)
    else none
  | .checkEvents, .step =>
    let (event, events) := fetchEvent s.events p
    let s := { s with events := events }
    match event with
    -- `run` and `idle` do not return, and the pending bit stays
    | some .WAKEUP => some (s.goto p .powerOn, none)
    | some .SHUTDOWN => some (s.goto p .powerOff, none)
    | some event => some (if riscvHandles plic event then s else s.goto p .clearSsoft, none)
    | none => some (s.goto p .clearSsoft, none)
  | .clearSsoft, .step => some ((s.setPending p false).goto p .lower, none)
  | .powerOn, .step =>
    some ({ s with powerOn := Function.update s.powerOn p true }.goto p .readEntry, none)
  | .readEntry, .step =>
    some ({ s with sepc := Function.update s.sepc p (s.cpuOnEntry p) }.goto p .readDtb, none)
  | .readDtb, .step =>
    some ({ s with x11 := Function.update s.x11 p (s.dtbIpa p) }.goto p .enter, none)
  | .enter, .step =>
    some ({ s with inGuest := Function.update s.inGuest p true }.goto p .lower, none)
  | .powerOff, .step =>
    some ({ s with powerOn := Function.update s.powerOn p false }.goto p .park, none)
  | .park, .step =>
    some ({ s with sepc := Function.update s.sepc p 0,
                   x11 := Function.update s.x11 p (s.dtbIpa p),
                   inGuest := Function.update s.inGuest p false }.goto p .lower, none)
  | _, _ => none

/-! ## What is watched -/

/-- The hart whose lock a hart holds in a call. -/
def HartPc.locks : HartPc → Option Nat
  | .check target _ | .storeEntry target _ | .storeDtb target _ | .send target | .raise target
  | .unlock target => some target
  | _ => none

/-- The hart that a call was accepted for, until its wake-up is queued. -/
def HartPc.accepts : HartPc → Option Nat
  | .storeEntry target _ | .storeDtb target _ | .send target => some target
  | _ => none

/-- On the way from a wake-up to the guest. -/
def HartPc.Waking : HartPc → Prop
  | .powerOn | .readEntry | .readDtb | .enter => True
  | _ => False

/-- The hart is on its way to park. -/
def HartPc.Stopping : HartPc → Prop
  | .powerOff | .park => True
  | _ => False

/-- In the parking loop, in the handler of events, or about to run with the wake-up taken. -/
def HartPc.Idle : HartPc → Prop
  | .lower | .raiseEvent _ _ | .checkEvents | .clearSsoft | .powerOn => True
  | _ => False

namespace HartMachine

/-- A call past `lock` holds the lock. -/
def Locked (s : HartMachine) : Prop := ∀ p c, (s.pc p).locks = some c → s.ctrlLock c = some p

/-- The hart has parked, no event that starts or stops it or ends its handler is queued, and no call
was accepted for it. -/
structure Parked (plic : Bool) (s : HartMachine) (c : Nat) : Prop where
  pc : s.pc c = .lower
  inGuest : s.inGuest c = false
  powerOn : s.powerOn c = false
  handled : ∀ e ∈ s.events c, riscvHandles plic e = true
  accepts : ∀ p, (s.pc p).accepts ≠ some c

/-- The hart was sent a wake-up and has not set its flag. -/
def StartPending (s : HartMachine) (c : Nat) : Prop := .WAKEUP ∈ s.events c ∨ s.pc c = .powerOn

/-- A call that finds the flag of the hart clear finds no start pending, and the interrupt of a
wake-up is not raised while the hart is about to clear its pending bit. -/
def Settled (s : HartMachine) (p c : Nat) : Prop :=
  (∀ args, s.pc p = .check c args → s.powerOn c = false → ¬ s.StartPending c) ∧
    (s.pc p = .raise c → s.pc c ≠ .clearSsoft)

/-- What is seen of the calls for hart `c` in a step of hart `p`: a call finds the flag clear, a
call fails or succeeds, or the hart enters its guest. A call has succeeded when its wake-up is
queued: the hart may enter its guest before the call has raised the interrupt and returned. -/
def seen (s : HartMachine) (c p : Nat) (ret : Option SbiError) : Option (Event Nat HartArgs) :=
  match s.pc p with
  | .check target args =>
    if target = c then
      match ret with
      | some err => some (.returned p (err == .RET_SUCCESS))
      | none => some (.accepted p args)
    else none
  | .send target =>
    if target = c then some (.returned p true) else none
  | .enter => if p = c then some (.entered ⟨s.sepc c, s.x11 c⟩) else none
  | _ => none

end HartMachine

/-- The steps from a state on; a step shows what is seen of the calls for hart `c`. -/
def hartWatch (plic : Bool) (c : Nat) (s₀ : HartMachine) :
    TransitionSystem HartMachine (Nat × Option (Event Nat HartArgs)) where
  init := (· = s₀)
  step s e s' := ∃ act ret, hartStep plic s e.1 act = some (s', ret) ∧ e.2 = s.seen c e.1 ret

/-! ## How far the start is -/

variable {plic : Bool} {s s' s₀ : HartMachine} {p c : Nat} {act : HartAct} {ret : Option SbiError}
  {ph : StartOnce.Phase Nat HartArgs} {args : HartArgs}

namespace HartMachine

/-- The entry and the argument of a hart are those of a call. -/
def Stored (s : HartMachine) (c : Nat) (args : HartArgs) : Prop :=
  s.cpuOnEntry c = args.startAddr ∧ s.dtbIpa c = args.opaq

/-- The hart is on no way to its guest, and no wake-up of it is queued. -/
def Still (s : HartMachine) (c : Nat) : Prop := .WAKEUP ∉ s.events c ∧ ¬ (s.pc c).Waking

/-- No call that was accepted for the hart is under way, and the hart has taken its wake-ups. -/
def AtRest (s : HartMachine) (c : Nat) : Prop := s.Still c ∧ ∀ q, (s.pc q).accepts ≠ some c

/-- The call that was accepted stores its arguments. -/
def Storing (s : HartMachine) (p c : Nat) (args : HartArgs) : Prop :=
  s.pc p = .storeEntry c args ∨
    s.pc p = .storeDtb c args.opaq ∧ s.cpuOnEntry c = args.startAddr ∨
      s.pc p = .send c ∧ s.Stored c args

/-- The wake-up is queued once, or the hart is on the way to its guest. -/
inductive Underway (s : HartMachine) (c : Nat) (args : HartArgs) : Prop
  | queued (hoff : s.powerOn c = false) (hpc : ¬ (s.pc c).Waking)
      (hcount : (s.events c).count .WAKEUP = 1)
  | powerOn (hoff : s.powerOn c = false) (hpc : s.pc c = .powerOn) (hq : .WAKEUP ∉ s.events c)
  | readEntry (hon : s.powerOn c = true) (hpc : s.pc c = .readEntry) (hq : .WAKEUP ∉ s.events c)
  | readDtb (hon : s.powerOn c = true) (hpc : s.pc c = .readDtb) (hq : .WAKEUP ∉ s.events c)
      (hsepc : s.sepc c = args.startAddr)
  | enter (hon : s.powerOn c = true) (hpc : s.pc c = .enter) (hq : .WAKEUP ∉ s.events c)
      (hsepc : s.sepc c = args.startAddr) (hx11 : s.x11 c = args.opaq)

/-- What holds of the hart in a phase of its start. -/
def InPhase (s₀ : HartMachine) (c : Nat) (s : HartMachine) : StartOnce.Phase Nat HartArgs → Prop
  | .parked => s.powerOn c = false ∧ s.Still c ∧ s.Stored c ⟨s₀.cpuOnEntry c, s₀.dtbIpa c⟩
  | .accepted p args => s.powerOn c = false ∧ s.Still c ∧ s.Storing p c args
  | .sent _ args => s.Stored c args ∧ s.Underway c args
  | .entered _ args => s.powerOn c = true ∧ s.Still c ∧ s.Stored c args

/-- **How far the start of the hart is.** -/
structure Tracks (s₀ : HartMachine) (c : Nat) (s : HartMachine)
    (ph : StartOnce.Phase Nat HartArgs) : Prop where
  locked : s.Locked
  shutdown : .SHUTDOWN ∉ s.events c
  stopping : ¬ (s.pc c).Stopping
  sender : ∀ q, (s.pc q).accepts = some c → ∃ args, ph = .accepted q args
  phase : InPhase s₀ c s ph

theorem Locked.goto {q : HartPc} (hl : s.Locked) (hpc : s'.pc = Function.update s.pc p q)
    (hkeep : ∀ c, s'.ctrlLock c = s.ctrlLock c ∨ s.ctrlLock c = none ∨ (s.pc p).locks = some c)
    (hq : ∀ c, q.locks = some c → s'.ctrlLock c = some p) : s'.Locked := by
  intro r c hr
  by_cases hrp : r = p
  · subst hrp
    rw [hpc, Function.update_self] at hr
    exact hq c hr
  · rw [hpc, Function.update_of_ne hrp] at hr
    have hlock := hl r c hr
    rcases hkeep c with hsame | hfree | hp
    · exact hsame.trans hlock
    · cases hfree.symm.trans hlock
    · exact absurd (Option.some.inj (hlock.symm.trans (hl p c hp))) hrp

/-- A step keeps the locks with those who hold them. -/
theorem locked_of_hartStep (hl : s.Locked) (hs : hartStep plic s p act = some (s', ret)) :
    s'.Locked := by
  -- a step that leaves the locks, to a place where the hart holds none or the one that it held
  have hkeep : ∀ {s₁ : HartMachine} {q : HartPc}, s₁.ctrlLock = s.ctrlLock →
      s₁.pc = Function.update s.pc p q → (∀ c, q.locks = some c → (s.pc p).locks = some c) →
      s₁.Locked := fun {s₁ q} hlock hpc hq => by
    refine hl.goto hpc (fun c => .inl (congrFun hlock c)) fun c hc => ?_
    rw [hlock]
    exact hl p c (hq c hc)
  have hunlock : ∀ {s₁ : HartMachine} {target : Nat}, (s.pc p).locks = some target →
      s₁.ctrlLock = Function.update s.ctrlLock target none →
      s₁.pc = Function.update s.pc p .lower → s₁.Locked := fun {s₁ target} ht hlock hpc => by
    refine hl.goto hpc (fun c => ?_) fun c hc => by cases hc
    by_cases hc : c = target
    · exact .inr (.inr (hc ▸ ht))
    · exact .inl (by rw [hlock, Function.update_of_ne hc])
  have hnone : ∀ {q : HartPc}, q.locks = none → ∀ c, q.locks = some c → (s.pc p).locks = some c :=
    fun {q} hq c hc => by rw [hq] at hc; cases hc
  revert hs
  fun_cases hartStep plic s p act <;> intro hs <;> cases hs
  case case5 => exact hl
  case case8 target args hpc hfree =>
    refine hl.goto rfl (fun c => ?_) fun c hc => ?_
    · by_cases hct : c = target
      · exact .inr (.inl (hct ▸ hfree))
      · exact .inl (Function.update_of_ne hct ..)
    · obtain rfl : target = c := Option.some.inj hc
      exact Function.update_self ..
  case case10 hpc hon => exact hunlock (by rw [hpc]; rfl) rfl rfl
  case case11 hpc hoff => exact hkeep rfl rfl fun c hc => by rw [hpc]; exact hc
  case case12 hpc | case13 hpc | case14 hpc | case15 hpc =>
    exact hkeep rfl rfl fun c hc => by rw [hpc]; exact hc
  case case16 hpc => exact hunlock (by rw [hpc]; rfl) rfl rfl
  case case17 target inHandler hpc =>
    refine hkeep rfl rfl (hnone ?_)
    cases inHandler <;> rfl
  case case22 =>
    split
    · exact hl
    · exact hkeep rfl rfl (hnone rfl)
  all_goals exact hkeep rfl rfl (hnone rfl)

/-- The data of the hart are left as they are, and no event that starts or stops it is queued. -/
structure Aside (c : Nat) (s s' : HartMachine) : Prop where
  powerOn : s'.powerOn c = s.powerOn c
  cpuOnEntry : s'.cpuOnEntry c = s.cpuOnEntry c
  dtbIpa : s'.dtbIpa c = s.dtbIpa c
  sepc : s'.sepc c = s.sepc c
  x11 : s'.x11 c = s.x11 c
  events : SameStarts (s.events c) (s'.events c)

theorem aside_of_eq (hon : s'.powerOn c = s.powerOn c) (hentry : s'.cpuOnEntry c = s.cpuOnEntry c)
    (hdtb : s'.dtbIpa c = s.dtbIpa c) (hsepc : s'.sepc c = s.sepc c) (hx11 : s'.x11 c = s.x11 c)
    (hevents : s'.events c = s.events c) : Aside c s s' :=
  ⟨hon, hentry, hdtb, hsepc, hx11, .of_eq hevents⟩

/-! ## Steps -/

/-- A hart that is moved to no place on the way to the guest stays still. -/
theorem Still.move {q : HartPc} (h : s.Still c) (hevents : SameStarts (s.events c) (s'.events c))
    (hpc : s'.pc = Function.update s.pc p q) (hq : ¬ q.Waking) : s'.Still c := by
  refine ⟨fun hmem => h.1 (hevents.wakeup_iff.mp hmem), ?_⟩
  rw [hpc, Function.update_apply]
  split
  · exact hq
  · exact h.2

theorem Stored.aside (h : s.Stored c args) (ha : Aside c s s') : s'.Stored c args :=
  ⟨ha.cpuOnEntry.trans h.1, ha.dtbIpa.trans h.2⟩

theorem Storing.aside {i : Nat} (h : s.Storing i c args) (ha : Aside c s s')
    (hpc : s'.pc i = s.pc i) : s'.Storing i c args := by
  rcases h with h | ⟨h, hentry⟩ | ⟨h, hstored⟩
  · exact .inl (hpc.trans h)
  · exact .inr (.inl ⟨hpc.trans h, ha.cpuOnEntry.trans hentry⟩)
  · exact .inr (.inr ⟨hpc.trans h, hstored.aside ha⟩)

theorem Storing.accepts {i : Nat} (h : s.Storing i c args) : (s.pc i).accepts = some c := by
  rcases h with h | ⟨h, -⟩ | ⟨h, -⟩ <;> rw [h] <;> rfl

/-- What is settled of a hart on its way to the guest, by the place that it is at. -/
theorem Underway.waking (h : s.Underway c args) (hw : (s.pc c).Waking) :
    .WAKEUP ∉ s.events c ∧ (s.pc c ≠ .powerOn → s.powerOn c = true) ∧
      (s.pc c = .readDtb ∨ s.pc c = .enter → s.sepc c = args.startAddr) ∧
        (s.pc c = .enter → s.x11 c = args.opaq) := by
  cases h with
  | queued _ hpc _ => exact absurd hw hpc
  | powerOn _ hpc hq => exact ⟨hq, fun hne => absurd hpc hne, by simp [hpc], by simp [hpc]⟩
  | readEntry hon hpc hq => exact ⟨hq, fun _ => hon, by simp [hpc], by simp [hpc]⟩
  | readDtb hon hpc hq hsepc => exact ⟨hq, fun _ => hon, fun _ => hsepc, by simp [hpc]⟩
  | enter hon hpc hq hsepc hx11 => exact ⟨hq, fun _ => hon, fun _ => hsepc, fun _ => hx11⟩

/-- The start goes on as it does when the hart is left alone. -/
theorem Underway.aside (h : s.Underway c args) (ha : Aside c s s')
    (hpc : s'.pc c = s.pc c ∨ ¬ (s.pc c).Waking ∧ ¬ (s'.pc c).Waking) : s'.Underway c args := by
  have hq : .WAKEUP ∉ s.events c → .WAKEUP ∉ s'.events c := fun hq hmem =>
    hq (ha.events.wakeup_iff.mp hmem)
  have hsame : (s.pc c).Waking → s'.pc c = s.pc c := fun hw =>
    hpc.resolve_right fun hno => hno.1 hw
  cases h with
  | queued hoff hpc' hcount =>
    refine .queued (ha.powerOn.trans hoff) ?_ (ha.events.wakeups.trans hcount)
    rcases hpc with hpc | ⟨-, hpc⟩
    · rwa [hpc]
    · exact hpc
  | powerOn hoff hpc' hmem =>
    exact .powerOn (ha.powerOn.trans hoff) ((hsame (by rw [hpc']; trivial)).trans hpc') (hq hmem)
  | readEntry hon hpc' hmem =>
    exact .readEntry (ha.powerOn.trans hon) ((hsame (by rw [hpc']; trivial)).trans hpc') (hq hmem)
  | readDtb hon hpc' hmem hsepc =>
    exact .readDtb (ha.powerOn.trans hon) ((hsame (by rw [hpc']; trivial)).trans hpc') (hq hmem)
      (ha.sepc.trans hsepc)
  | enter hon hpc' hmem hsepc hx11 =>
    exact .enter (ha.powerOn.trans hon) ((hsame (by rw [hpc']; trivial)).trans hpc') (hq hmem)
      (ha.sepc.trans hsepc) (ha.x11.trans hx11)

/-- A step that leaves the data of the hart, and takes it to no place in a call for it, in its start
or in `idle`. -/
theorem Tracks.aside {q : HartPc} (ht : Tracks s₀ c s ph) (ha : Aside c s s') (hl : s'.Locked)
    (hpc : s'.pc = Function.update s.pc p q) (hp : (s.pc p).accepts ≠ some c)
    (hq : q.accepts ≠ some c) (hc : p = c → ¬ (s.pc p).Waking ∧ ¬ q.Waking ∧ ¬ q.Stopping) :
    Tracks s₀ c s' ph := by
  have hother : ∀ r, r ≠ p → s'.pc r = s.pc r := fun r hr => by rw [hpc, Function.update_of_ne hr]
  have hself : s'.pc p = q := by rw [hpc, Function.update_self]
  have hway : s'.pc c = s.pc c ∨ ¬ (s.pc c).Waking ∧ ¬ (s'.pc c).Waking := by
    by_cases hcp : c = p
    · subst hcp
      rw [hself]
      exact .inr ⟨(hc rfl).1, (hc rfl).2.1⟩
    · exact .inl (hother c hcp)
  have hstill : s.Still c → s'.Still c := fun h => by
    refine ⟨fun hmem => h.1 (ha.events.wakeup_iff.mp hmem), ?_⟩
    rcases hway with hway | ⟨-, hway⟩
    · rw [hway]
      exact h.2
    · exact hway
  refine ⟨hl, fun hmem => ht.shutdown (ha.events.shutdown hmem), ?_, fun r hr => ?_, ?_⟩
  · by_cases hcp : c = p
    · subst hcp
      rw [hself]
      exact (hc rfl).2.2
    · rw [hother c hcp]
      exact ht.stopping
  · by_cases hrp : r = p
    · subst hrp
      rw [hself] at hr
      exact absurd hr hq
    · exact ht.sender r (hother r hrp ▸ hr)
  · have hphase := ht.phase
    cases ph with
    | parked => exact ⟨ha.powerOn.trans hphase.1, hstill hphase.2.1, hphase.2.2.aside ha⟩
    | accepted i args =>
      have hip : i ≠ p := fun heq => hp (heq ▸ hphase.2.2.accepts)
      exact ⟨ha.powerOn.trans hphase.1, hstill hphase.2.1, hphase.2.2.aside ha (hother i hip)⟩
    | sent i args => exact ⟨hphase.1.aside ha, hphase.2.aside ha hway⟩
    | entered i args => exact ⟨ha.powerOn.trans hphase.1, hstill hphase.2.1, hphase.2.2.aside ha⟩

/-- The start is where it was, or what is seen takes it to its next phase. -/
def Follows (s₀ : HartMachine) (c : Nat) (ph : StartOnce.Phase Nat HartArgs)
    (e : Option (Event Nat HartArgs)) (s' : HartMachine) : Prop :=
  match e with
  | none => Tracks s₀ c s' ph
  | some e => ∃ ph', Step ph e ph' ∧ Tracks s₀ c s' ph'

/-- A call is accepted for a hart that no start is pending for. -/
theorem tracks_accepted (ht : Tracks s₀ c s ph) (hpc : s.pc p = .check c args)
    (hoff : s.powerOn c = false) (hg : s.Settled p c)
    (hl : (s.goto p (.storeEntry c args)).Locked) :
    ph = .parked ∧ Tracks s₀ c (s.goto p (.storeEntry c args)) (.accepted p args) := by
  have hsettled := hg.1 args hpc hoff
  have hphase := ht.phase
  obtain rfl : ph = .parked := by
    cases ph with
    | parked => rfl
    | accepted i args' =>
      -- that call would hold the lock
      have hi := hphase.2.2
      have hlocks : (s.pc i).locks = some c := by
        rcases hi with h | ⟨h, -⟩ | ⟨h, -⟩ <;> rw [h] <;> rfl
      have hlock := ht.locked i c hlocks
      have hlock' := ht.locked p c (by rw [hpc]; rfl)
      obtain rfl : i = p := Option.some.inj (hlock.symm.trans hlock')
      have haccepts := hi.accepts
      rw [hpc] at haccepts
      cases haccepts
    | sent i args' =>
      -- the flag is clear until the hart sets it, and a start is pending until then
      refine absurd ?_ hsettled
      cases hphase.2 with
      | queued _ _ hcount => exact .inl (List.count_pos_iff.mp (hcount ▸ Nat.one_pos))
      | powerOn _ hpc _ => exact .inr hpc
      | readEntry hon => cases hoff.symm.trans hon
      | readDtb hon => cases hoff.symm.trans hon
      | enter hon => cases hoff.symm.trans hon
    | entered i args' => cases hoff.symm.trans hphase.1
  refine ⟨rfl, hl, ht.shutdown, ?_, fun r hr => ?_, hoff, ?_, .inl (Function.update_self ..)⟩
  · show ¬ (Function.update s.pc p (HartPc.storeEntry c args) c).Stopping
    rw [Function.update_apply]
    split
    · exact id
    · exact ht.stopping
  · by_cases hrp : r = p
    · exact ⟨args, by rw [hrp]⟩
    · have hr : (Function.update s.pc p (HartPc.storeEntry c args) r).accepts = some c := hr
      rw [Function.update_of_ne hrp] at hr
      obtain ⟨_, h⟩ := ht.sender r hr
      cases h
  · exact hphase.2.1.move (.of_eq rfl) rfl id

/-- The call that was accepted goes on storing its arguments. -/
theorem tracks_stored {q : HartPc} (ht : Tracks s₀ c s (.accepted p args)) (hl : s'.Locked)
    (hpc : s'.pc = Function.update s.pc p q) (hon : s'.powerOn = s.powerOn)
    (hevents : s'.events = s.events) (hq : ¬ q.Waking ∧ ¬ q.Stopping)
    (hstoring : s'.Storing p c args) : Tracks s₀ c s' (.accepted p args) := by
  obtain ⟨hoff, hstill, -⟩ := ht.phase
  refine ⟨hl, by rw [hevents]; exact ht.shutdown, ?_, fun r hr => ?_, by rw [hon]; exact hoff,
    hstill.move (.of_eq (by rw [hevents])) hpc hq.1, hstoring⟩
  · rw [hpc, Function.update_apply]
    split
    · exact hq.2
    · exact ht.stopping
  · by_cases hrp : r = p
    · exact ⟨args, by rw [hrp]⟩
    · rw [hpc, Function.update_of_ne hrp] at hr
      exact ht.sender r hr

/-- The hart that a call was accepted for has a phase that says so. -/
theorem accepted_of_accepts (ht : Tracks s₀ c s ph) (hp : (s.pc p).accepts = some c) :
    ∃ args, ph = .accepted p args ∧ s.Storing p c args := by
  obtain ⟨args, rfl⟩ := ht.sender p hp
  exact ⟨args, rfl, ht.phase.2.2⟩

/-- The call that was accepted queues the wake-up. -/
theorem tracks_sent (ht : Tracks s₀ c s (.accepted p args)) (hpc : s.pc p = .send c)
    (hl : ((s.send c .WAKEUP).goto p (.raise c)).Locked) :
    Tracks s₀ c ((s.send c .WAKEUP).goto p (.raise c)) (.sent p args) := by
  obtain ⟨hoff, hstill, hstoring⟩ := ht.phase
  -- the wake-up is sent when both arguments are stored
  have hstored : s.Stored c args := by
    rcases hstoring with h | ⟨h, -⟩ | ⟨-, h⟩
    · cases hpc.symm.trans h
    · cases hpc.symm.trans h
    · exact h
  have hq : addEvent s.events c .WAKEUP c = s.events c ++ [.WAKEUP] := Function.update_self ..
  have hmove : ∀ {P : HartPc → Prop}, P (.raise c) → P (s.pc c) →
      P (Function.update s.pc p (HartPc.raise c) c) := fun {P} hraise hc => by
    rw [Function.update_apply]
    split
    · exact hraise
    · exact hc
  refine ⟨hl, fun hmem => ?_, hmove (P := fun pc => ¬ pc.Stopping) id ht.stopping, fun r hr => ?_,
    hstored, .queued hoff (hmove (P := fun pc => ¬ pc.Waking) id hstill.2) ?_⟩
  · have hmem : IpiEvent.SHUTDOWN ∈ addEvent s.events c .WAKEUP c := hmem
    rw [hq] at hmem
    rcases List.mem_append.mp hmem with hmem | hmem
    · exact ht.shutdown hmem
    · cases List.mem_singleton.mp hmem
  · have hr : (Function.update s.pc p (HartPc.raise c) r).accepts = some c := hr
    by_cases hrp : r = p
    · rw [hrp, Function.update_self] at hr
      cases hr
    · rw [Function.update_of_ne hrp] at hr
      obtain ⟨_, h⟩ := ht.sender r hr
      injection h with h
      exact absurd h.symm hrp
  · show (addEvent s.events c .WAKEUP c).count .WAKEUP = 1
    rw [hq, List.count_append, List.count_eq_zero.mpr hstill.1]
    rfl

/-- A step of the hart on its way to the guest. -/
theorem tracks_onWay {q : HartPc} {i : Nat} (ht : Tracks s₀ c s (.sent i args)) (hl : s'.Locked)
    (hpc : s'.pc = Function.update s.pc c q) (hentry : s'.cpuOnEntry = s.cpuOnEntry)
    (hdtb : s'.dtbIpa = s.dtbIpa) (hevents : .SHUTDOWN ∈ s'.events c → .SHUTDOWN ∈ s.events c)
    (hq : q.accepts = none) (hstop : ¬ q.Stopping) (hway : s'.Underway c args) :
    Tracks s₀ c s' (.sent i args) := by
  obtain ⟨hstored, -⟩ := ht.phase
  refine ⟨hl, fun hmem => ht.shutdown (hevents hmem), ?_, fun r hr => ?_,
    ⟨by rw [hentry]; exact hstored.1, by rw [hdtb]; exact hstored.2⟩, hway⟩
  · rwa [hpc, Function.update_self]
  · by_cases hrc : r = c
    · rw [hpc, hrc, Function.update_self, hq] at hr
      cases hr
    · rw [hpc, Function.update_of_ne hrc] at hr
      exact ht.sender r hr

/-- A hart on its way to the guest was sent a wake-up. -/
theorem sent_of_waking (ht : Tracks s₀ c s ph) (hw : (s.pc c).Waking) :
    ∃ i args, ph = .sent i args ∧ s.Underway c args := by
  have hphase := ht.phase
  cases ph with
  | parked => exact absurd hw hphase.2.1.2
  | accepted i args => exact absurd hw hphase.2.1.2
  | sent i args => exact ⟨i, args, rfl, hphase.2⟩
  | entered i args => exact absurd hw hphase.2.1.2

/-- A place from which nothing is seen. -/
theorem seen_eq_none {pc : HartPc} (hpc : s.pc p = pc) (hcheck : ∀ args, pc ≠ .check c args)
    (hsend : pc ≠ .send c) (henter : p = c → pc ≠ .enter) : s.seen c p ret = none := by
  unfold seen
  rw [hpc]
  cases pc with
  | check target args => exact if_neg fun heq => hcheck args (by rw [heq])
  | send target => exact if_neg fun heq => hsend (by rw [heq])
  | enter => exact if_neg fun heq => henter heq rfl
  | _ => rfl

/-- A step from a place outside the calls for the hart, to another one, shows nothing and leaves the
start, when it leaves the data of the hart. -/
theorem follows_aside {pc q : HartPc} (ht : Tracks s₀ c s ph) (hpc : s.pc p = pc)
    (hl : s'.Locked) (ha : Aside c s s') (hpc' : s'.pc = Function.update s.pc p q)
    (hcheck : ∀ args, pc ≠ .check c args) (hp : pc.accepts ≠ some c) (hq : q.accepts ≠ some c)
    (hc : p = c → ¬ pc.Waking ∧ ¬ q.Waking ∧ ¬ q.Stopping) :
    Follows s₀ c ph (s.seen c p ret) s' := by
  rw [seen_eq_none hpc hcheck (fun heq => hp (heq ▸ rfl)) fun heq h => (hc heq).1 (h ▸ trivial)]
  exact ht.aside ha hl hpc' (hpc ▸ hp) hq (hpc ▸ hc)

/-- A call that finds the flag of the hart set is refused. -/
theorem follows_refused (ht : Tracks s₀ c s ph) (hpc : s.pc p = .check c args)
    (hon : s.powerOn c = true) (hl : ((s.unlockCtrl c).goto p .lower).Locked) :
    Follows s₀ c ph (s.seen c p (some .RET_ERR_FAILED)) ((s.unlockCtrl c).goto p .lower) := by
  have hseen : s.seen c p (some .RET_ERR_FAILED) = some (.returned p false) := by
    unfold seen
    rw [hpc]
    exact if_pos rfl
  have hne : ph ≠ .parked := by
    rintro rfl
    cases hon.symm.trans ht.phase.1
  have ha : Aside c s ((s.unlockCtrl c).goto p .lower) := aside_of_eq rfl rfl rfl rfl rfl rfl
  rw [hseen]
  refine ⟨ph, .refuse ph p hne, ht.aside ha hl rfl ?_ (by simp [HartPc.accepts]) fun _ => ?_⟩
  · rw [hpc]
    simp [HartPc.accepts]
  · rw [hpc]
    exact ⟨id, id, id⟩

theorem follows_accepted (ht : Tracks s₀ c s ph) (hpc : s.pc p = .check c args)
    (hoff : s.powerOn c = false) (hg : s.Settled p c)
    (hl : (s.goto p (.storeEntry c args)).Locked) :
    Follows s₀ c ph (s.seen c p none) (s.goto p (.storeEntry c args)) := by
  have hseen : s.seen c p none = some (.accepted p args) := by
    unfold seen
    rw [hpc]
    exact if_pos rfl
  obtain ⟨rfl, ht'⟩ := tracks_accepted ht hpc hoff hg hl
  rw [hseen]
  exact ⟨_, .accept p args, ht'⟩

/-- The call that was accepted stores the entry, `s'` being the state after it. -/
theorem follows_storeEntry (ht : Tracks s₀ c s ph) (hpc : s.pc p = .storeEntry c args)
    (hl : s'.Locked)
    (hs : s' = { s with cpuOnEntry := Function.update s.cpuOnEntry c args.startAddr }.goto p
      (.storeDtb c args.opaq)) : Follows s₀ c ph (s.seen c p none) s' := by
  rw [seen_eq_none hpc (by simp) (by simp) (by simp)]
  obtain ⟨args', rfl, hstoring⟩ := accepted_of_accepts ht (by rw [hpc]; rfl)
  obtain rfl : args = args' := by
    rcases hstoring with h | ⟨h, -⟩ | ⟨h, -⟩
    · cases hpc.symm.trans h
      rfl
    · cases hpc.symm.trans h
    · cases hpc.symm.trans h
  subst hs
  exact tracks_stored ht hl rfl rfl rfl ⟨id, id⟩
    (.inr (.inl ⟨Function.update_self .., Function.update_self ..⟩))

theorem follows_storeDtb {opaq : Nat} (ht : Tracks s₀ c s ph) (hpc : s.pc p = .storeDtb c opaq)
    (hl : s'.Locked)
    (hs : s' = { s with dtbIpa := Function.update s.dtbIpa c opaq }.goto p (.send c)) :
    Follows s₀ c ph (s.seen c p none) s' := by
  rw [seen_eq_none hpc (by simp) (by simp) (by simp)]
  obtain ⟨args, rfl, hstoring⟩ := accepted_of_accepts ht (by rw [hpc]; rfl)
  -- the entry was stored in the step before
  obtain ⟨rfl, hentry⟩ : opaq = args.opaq ∧ s.cpuOnEntry c = args.startAddr := by
    rcases hstoring with h | ⟨h, hentry⟩ | ⟨h, -⟩
    · cases hpc.symm.trans h
    · cases hpc.symm.trans h
      exact ⟨rfl, hentry⟩
    · cases hpc.symm.trans h
  subst hs
  exact tracks_stored ht hl rfl rfl rfl ⟨id, id⟩
    (.inr (.inr ⟨Function.update_self .., hentry, Function.update_self ..⟩))

/-- The call that was accepted succeeds. -/
theorem follows_send (ht : Tracks s₀ c s ph) (hpc : s.pc p = .send c)
    (hl : ((s.send c .WAKEUP).goto p (.raise c)).Locked) :
    Follows s₀ c ph (s.seen c p none) ((s.send c .WAKEUP).goto p (.raise c)) := by
  have hseen : s.seen c p none = some (.returned p true) := by
    unfold seen
    rw [hpc]
    exact if_pos rfl
  obtain ⟨args, rfl, -⟩ := accepted_of_accepts ht (by rw [hpc]; rfl)
  rw [hseen]
  exact ⟨_, .succeed p args, tracks_sent ht hpc hl⟩

/-- The hart takes its wake-up. It was sent one only, and so none is left. -/
theorem follows_wakeup (ht : Tracks s₀ c s ph) (hpc : s.pc c = .checkEvents)
    (hwake : (fetchEvent s.events c).1 = some .WAKEUP)
    (hl : ({ s with events := (fetchEvent s.events c).2 }.goto c .powerOn).Locked) :
    Follows s₀ c ph (s.seen c c none)
      ({ s with events := (fetchEvent s.events c).2 }.goto c .powerOn) := by
  rw [seen_eq_none hpc (by simp) (by simp) (by simp)]
  have hmem : .WAKEUP ∈ s.events c := List.mem_of_mem_head? hwake
  obtain ⟨i, args, rfl, hoff, hcount⟩ : ∃ i args, ph = .sent i args ∧ s.powerOn c = false ∧
      (s.events c).count .WAKEUP = 1 := by
    have hphase := ht.phase
    cases ph with
    | parked => exact absurd hmem hphase.2.1.1
    | accepted i args => exact absurd hmem hphase.2.1.1
    | sent i args =>
      cases hphase.2 with
      | queued hoff _ hcount => exact ⟨i, args, rfl, hoff, hcount⟩
      | powerOn _ _ hq => exact absurd hmem hq
      | readEntry _ _ hq => exact absurd hmem hq
      | readDtb _ _ hq _ => exact absurd hmem hq
      | enter _ _ hq _ _ => exact absurd hmem hq
    | entered i args => exact absurd hmem hphase.2.1.1
  have hzero : ((fetchEvent s.events c).2 c).count .WAKEUP = 0 := by
    rw [← count_fetchEvent_wakeup hwake] at hcount
    exact Nat.succ.inj hcount
  exact tracks_onWay ht hl rfl rfl rfl (mem_of_fetchEvent rfl) rfl id
    (.powerOn hoff (Function.update_self ..) (List.count_eq_zero.mp hzero))

theorem follows_powerOn (ht : Tracks s₀ c s ph) (hpc : s.pc c = .powerOn) (hl : s'.Locked)
    (hs : s' = { s with powerOn := Function.update s.powerOn c true }.goto c .readEntry) :
    Follows s₀ c ph (s.seen c c none) s' := by
  rw [seen_eq_none hpc (by simp) (by simp) (by simp)]
  obtain ⟨i, args, rfl, hway⟩ := sent_of_waking ht (by rw [hpc]; trivial)
  obtain ⟨hq, -⟩ := hway.waking (by rw [hpc]; trivial)
  subst hs
  exact tracks_onWay ht hl rfl rfl rfl id rfl id
    (.readEntry (Function.update_self ..) (Function.update_self ..) hq)

/-- The hart reads its entry, which is still the one that was stored for the wake-up. -/
theorem follows_readEntry (ht : Tracks s₀ c s ph) (hpc : s.pc c = .readEntry) (hl : s'.Locked)
    (hs : s' = { s with sepc := Function.update s.sepc c (s.cpuOnEntry c) }.goto c .readDtb) :
    Follows s₀ c ph (s.seen c c none) s' := by
  rw [seen_eq_none hpc (by simp) (by simp) (by simp)]
  obtain ⟨i, args, rfl, hway⟩ := sent_of_waking ht (by rw [hpc]; trivial)
  obtain ⟨hq, hon, -⟩ := hway.waking (by rw [hpc]; trivial)
  subst hs
  exact tracks_onWay ht hl rfl rfl rfl id rfl id (.readDtb (hon (by simp [hpc]))
    (Function.update_self ..) hq ((Function.update_self ..).trans ht.phase.1.1))

theorem follows_readDtb (ht : Tracks s₀ c s ph) (hpc : s.pc c = .readDtb) (hl : s'.Locked)
    (hs : s' = { s with x11 := Function.update s.x11 c (s.dtbIpa c) }.goto c .enter) :
    Follows s₀ c ph (s.seen c c none) s' := by
  rw [seen_eq_none hpc (by simp) (by simp) (by simp)]
  obtain ⟨i, args, rfl, hway⟩ := sent_of_waking ht (by rw [hpc]; trivial)
  obtain ⟨hq, hon, hsepc, -⟩ := hway.waking (by rw [hpc]; trivial)
  subst hs
  exact tracks_onWay ht hl rfl rfl rfl id rfl id (.enter (hon (by simp [hpc]))
    (Function.update_self ..) hq (hsepc (.inl hpc))
    ((Function.update_self ..).trans ht.phase.1.2))

/-- A hart that is about to enter the guest has the arguments of the call, and is started then. -/
theorem follows_enter (ht : Tracks s₀ c s ph) (hpc : s.pc c = .enter)
    (hl : ({ s with inGuest := Function.update s.inGuest c true }.goto c .lower).Locked) :
    Follows s₀ c ph (s.seen c c none)
      ({ s with inGuest := Function.update s.inGuest c true }.goto c .lower) := by
  have hseen : s.seen c c none = some (.entered ⟨s.sepc c, s.x11 c⟩) := by
    unfold seen
    rw [hpc]
    exact if_pos rfl
  obtain ⟨i, args, rfl, hway⟩ := sent_of_waking ht (by rw [hpc]; trivial)
  obtain ⟨hq, hon, hsepc, hx11⟩ := hway.waking (by rw [hpc]; trivial)
  rw [hseen, hsepc (.inr hpc), hx11 hpc]
  have hself : Function.update s.pc c HartPc.lower c = .lower := Function.update_self ..
  refine ⟨_, .enter i args, hl, ht.shutdown, ?_, fun r hr => ?_, hon (by simp [hpc]), ⟨hq, ?_⟩,
    ht.phase.1⟩
  · show ¬ (Function.update s.pc c HartPc.lower c).Stopping
    rw [hself]
    exact id
  · have hr : (Function.update s.pc c HartPc.lower r).accepts = some c := hr
    by_cases hrc : r = c
    · rw [hrc, hself] at hr
      cases hr
    · rw [Function.update_of_ne hrc] at hr
      obtain ⟨_, h⟩ := ht.sender r hr
      cases h
  · show ¬ (Function.update s.pc c HartPc.lower c).Waking
    rw [hself]
    exact id

/-- The other events neither start nor stop a hart. -/
theorem ne_of_sends {target : Nat} {event : IpiEvent} (h : s.sends plic target event = true) :
    event ≠ .WAKEUP ∧ event ≠ .SHUTDOWN := by
  cases event <;> simp_all [sends, riscvHandles]

/-- **What a step does to the start** of the hart. -/
theorem follows_of_hartStep (ht : Tracks s₀ c s ph) (hg : s.Settled p c)
    (hs : hartStep plic s p act = some (s', ret)) : Follows s₀ c ph (s.seen c p ret) s' := by
  have hl := locked_of_hartStep ht.locked hs
  have hother : ∀ {α : Type} {target : Nat} (f : Nat → α) (x : α), target ≠ c →
      Function.update f target x c = f c := fun f x hne => Function.update_of_ne hne.symm x f
  have hnot : ∀ {target : Nat}, target ≠ c → some target ≠ some c := fun hne heq =>
    hne (Option.some.inj heq)
  have hfetched : ∀ {e events}, fetchEvent s.events p = (e, events) →
      (c = p → e ≠ some .WAKEUP) → SameStarts (s.events c) (events c) := fun {e events} hf he => by
    have hsame : SameStarts (s.events c) ((fetchEvent s.events p).2 c) :=
      .fetchEvent fun heq => by rw [hf]; exact he heq
    rwa [hf] at hsame
  revert hs
  fun_cases hartStep plic s p act <;> intro hs <;> cases hs
  -- an interrupt, and the other events
  case case1 hpc _ =>
    exact follows_aside ht hpc hl (aside_of_eq rfl rfl rfl rfl rfl rfl) rfl
      (by simp) (by simp [HartPc.accepts]) (by simp [HartPc.accepts]) fun _ => ⟨id, id, id⟩
  case case3 target event hpc hsends =>
    have ha : Aside c s ((s.send target event).goto p (.raiseEvent target false)) :=
      ⟨rfl, rfl, rfl, rfl, rfl, .addEvent (.inr (ne_of_sends hsends))⟩
    exact follows_aside ht hpc hl ha rfl (by simp) (by simp [HartPc.accepts])
      (by simp [HartPc.accepts]) fun _ => ⟨id, id, id⟩
  case case18 target event hpc hsends =>
    have ha : Aside c s ((s.send target event).goto p (.raiseEvent target true)) :=
      ⟨rfl, rfl, rfl, rfl, rfl, .addEvent (.inr (ne_of_sends hsends))⟩
    exact follows_aside ht hpc hl ha rfl (by simp) (by simp [HartPc.accepts])
      (by simp [HartPc.accepts]) fun _ => ⟨id, id, id⟩
  case case17 target inHandler hpc =>
    refine follows_aside ht hpc hl (aside_of_eq rfl rfl rfl rfl rfl rfl) rfl
      (by simp) (by simp [HartPc.accepts]) ?_ fun _ => ⟨id, ?_⟩
    all_goals cases inHandler <;> simp [HartPc.accepts, HartPc.Waking, HartPc.Stopping]
  case case5 args hpc hguest =>
    exact follows_aside (q := .lower) ht hpc hl (aside_of_eq rfl rfl rfl rfl rfl rfl)
      (Function.update_eq_self_iff.mpr hpc.symm).symm (by simp) (by simp [HartPc.accepts])
      (by simp [HartPc.accepts]) fun _ => ⟨id, id, id⟩
  case case6 target args hpc hguest hne =>
    exact follows_aside ht hpc hl (aside_of_eq rfl rfl rfl rfl rfl rfl) rfl
      (by simp) (by simp [HartPc.accepts]) (by simp [HartPc.accepts]) fun _ => ⟨id, id, id⟩
  case case8 target args hpc hfree =>
    exact follows_aside ht hpc hl (aside_of_eq rfl rfl rfl rfl rfl rfl) rfl
      (by simp) (by simp [HartPc.accepts]) (by simp [HartPc.accepts]) fun _ => ⟨id, id, id⟩
  -- the places of a call: for the hart, or for another one
  case case10 target args hpc hon =>
    by_cases hc : target = c
    · subst hc
      exact follows_refused ht hpc hon hl
    · exact follows_aside ht hpc hl (aside_of_eq rfl rfl rfl rfl rfl rfl) rfl
        (by simp [hc]) (by simp [HartPc.accepts]) (by simp [HartPc.accepts]) fun _ => ⟨id, id, id⟩
  case case11 target args hpc hoff =>
    by_cases hc : target = c
    · subst hc
      exact follows_accepted ht hpc (Bool.eq_false_of_not_eq_true hoff) hg hl
    · exact follows_aside ht hpc hl (aside_of_eq rfl rfl rfl rfl rfl rfl) rfl
        (by simp [hc]) (by simp [HartPc.accepts]) (hnot hc) fun _ => ⟨id, id, id⟩
  case case12 target args hpc =>
    by_cases hc : target = c
    · subst hc
      exact follows_storeEntry ht hpc hl rfl
    · exact follows_aside ht hpc hl (aside_of_eq rfl (hother _ _ hc) rfl rfl rfl rfl) rfl
        (by simp) (hnot hc) (hnot hc) fun _ => ⟨id, id, id⟩
  case case13 target opaq hpc =>
    by_cases hc : target = c
    · subst hc
      exact follows_storeDtb ht hpc hl rfl
    · exact follows_aside ht hpc hl (aside_of_eq rfl rfl (hother _ _ hc) rfl rfl rfl) rfl
        (by simp) (hnot hc) (hnot hc) fun _ => ⟨id, id, id⟩
  case case14 target hpc =>
    by_cases hc : target = c
    · subst hc
      exact follows_send ht hpc hl
    · have ha : Aside c s ((s.send target .WAKEUP).goto p (.raise target)) :=
        ⟨rfl, rfl, rfl, rfl, rfl, .addEvent (.inl hc)⟩
      exact follows_aside ht hpc hl ha rfl (by simp) (hnot hc) (by simp [HartPc.accepts])
        fun _ => ⟨id, id, id⟩
  case case15 target hpc | case16 target hpc =>
    exact follows_aside ht hpc hl (aside_of_eq rfl rfl rfl rfl rfl rfl) rfl
      (by simp) (by simp [HartPc.accepts]) (by simp [HartPc.accepts]) fun _ => ⟨id, id, id⟩
  -- the handler of events: only a wake-up of the hart matters, and no hart is shut down
  case case20 hpc events s₁ hfetch =>
    by_cases hc : p = c
    · subst hc
      obtain rfl : (fetchEvent s.events p).2 = events := congrArg Prod.snd hfetch
      exact follows_wakeup ht hpc (congrArg Prod.fst hfetch) hl
    · have ha : Aside c s (s₁.goto p .powerOn) :=
        ⟨rfl, rfl, rfl, rfl, rfl, hfetched hfetch fun heq => absurd heq.symm hc⟩
      exact follows_aside ht hpc hl ha rfl (by simp) (by simp [HartPc.accepts])
        (by simp [HartPc.accepts]) fun heq => absurd heq hc
  case case21 hpc events s₁ hfetch =>
    have hmem : IpiEvent.SHUTDOWN ∈ s.events p :=
      List.mem_of_mem_head? (congrArg Prod.fst hfetch)
    have hc : p ≠ c := fun heq => ht.shutdown (heq ▸ hmem)
    have ha : Aside c s (s₁.goto p .powerOff) :=
      ⟨rfl, rfl, rfl, rfl, rfl, hfetched hfetch fun heq => absurd heq.symm hc⟩
    exact follows_aside ht hpc hl ha rfl (by simp) (by simp [HartPc.accepts])
      (by simp [HartPc.accepts]) fun heq => absurd heq hc
  case case22 hpc events s₁ event hne hshut hfetch =>
    have hsame := hfetched hfetch fun _ heq => hne (Option.some.inj heq)
    split at hl
    · next hhandles =>
      rw [if_pos hhandles]
      have ha : Aside c s s₁ := ⟨rfl, rfl, rfl, rfl, rfl, hsame⟩
      exact follows_aside (q := .checkEvents) ht hpc hl ha
        (Function.update_eq_self_iff.mpr hpc.symm).symm (by simp) (by simp [HartPc.accepts])
        (by simp [HartPc.accepts]) fun _ => ⟨id, id, id⟩
    · next hhandles =>
      rw [if_neg hhandles]
      have ha : Aside c s (s₁.goto p .clearSsoft) := ⟨rfl, rfl, rfl, rfl, rfl, hsame⟩
      exact follows_aside ht hpc hl ha rfl (by simp) (by simp [HartPc.accepts])
        (by simp [HartPc.accepts]) fun _ => ⟨id, id, id⟩
  case case23 hpc events s₁ hfetch =>
    have ha : Aside c s (s₁.goto p .clearSsoft) :=
      ⟨rfl, rfl, rfl, rfl, rfl, hfetched hfetch fun _ heq => Option.some_ne_none _ heq.symm⟩
    exact follows_aside ht hpc hl ha rfl (by simp) (by simp [HartPc.accepts])
      (by simp [HartPc.accepts]) fun _ => ⟨id, id, id⟩
  case case24 hpc =>
    exact follows_aside ht hpc hl (aside_of_eq rfl rfl rfl rfl rfl rfl) rfl
      (by simp) (by simp [HartPc.accepts]) (by simp [HartPc.accepts]) fun _ => ⟨id, id, id⟩
  -- the way to the guest: of the hart itself, or of another one
  case case25 hpc =>
    by_cases hc : p = c
    · subst hc
      exact follows_powerOn ht hpc hl rfl
    · exact follows_aside ht hpc hl (aside_of_eq (hother _ _ hc) rfl rfl rfl rfl rfl) rfl
        (by simp) (by simp [HartPc.accepts]) (by simp [HartPc.accepts]) fun heq => absurd heq hc
  case case26 hpc =>
    by_cases hc : p = c
    · subst hc
      exact follows_readEntry ht hpc hl rfl
    · exact follows_aside ht hpc hl (aside_of_eq rfl rfl rfl (hother _ _ hc) rfl rfl) rfl
        (by simp) (by simp [HartPc.accepts]) (by simp [HartPc.accepts]) fun heq => absurd heq hc
  case case27 hpc =>
    by_cases hc : p = c
    · subst hc
      exact follows_readDtb ht hpc hl rfl
    · exact follows_aside ht hpc hl (aside_of_eq rfl rfl rfl rfl (hother _ _ hc) rfl) rfl
        (by simp) (by simp [HartPc.accepts]) (by simp [HartPc.accepts]) fun heq => absurd heq hc
  case case28 hpc =>
    by_cases hc : p = c
    · subst hc
      exact follows_enter ht hpc hl
    · rw [seen_eq_none hpc (by simp) (by simp) fun heq => absurd heq hc]
      exact ht.aside (aside_of_eq rfl rfl rfl rfl rfl rfl) hl rfl
        (by rw [hpc]; simp [HartPc.accepts]) (by simp [HartPc.accepts]) fun heq => absurd heq hc
  -- the hart never stops
  case case29 hpc =>
    have hc : p ≠ c := fun heq => ht.stopping (by rw [← heq, hpc]; trivial)
    exact follows_aside ht hpc hl (aside_of_eq (hother _ _ hc) rfl rfl rfl rfl rfl) rfl
      (by simp) (by simp [HartPc.accepts]) (by simp [HartPc.accepts]) fun heq => absurd heq hc
  case case30 hpc =>
    have hc : p ≠ c := fun heq => ht.stopping (by rw [← heq, hpc]; trivial)
    exact follows_aside ht hpc hl (aside_of_eq rfl rfl rfl (hother _ _ hc) (hother _ _ hc) rfl) rfl
      (by simp) (by simp [HartPc.accepts]) (by simp [HartPc.accepts]) fun heq => absurd heq hc

end HartMachine

end Hvisor
