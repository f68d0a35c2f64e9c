import Hvisor.Event.Loongarch

/-!
# Runs of a CPU on LoongArch

`run` and `idle` of loongarch64, from `arch/loongarch64/cpu.rs`, with the hypercalls that start and
shut down a zone and the traps that the CPU takes. `run` sets the flag `power_on`, which nothing
clears, and stores `cpu_on_entry` in the saved program counter only the first time. A later run goes
on where the last trap was taken.

## Main definitions

* `LoongCpu`, `LoongCpu.finishRun`, `LoongCpu.idle`: the data of a CPU, and what the functions do to
  them
* `LoongMachine`, `restartStep`, `loongRestarts`: the handlers, the steps, and the system
* `LoongSeen`: what is seen of a run
* `Restarts`: each run enters at the entry, and a CPU that idles is off
* `RunsFresh`: no CPU runs or idles once it has run, unless it was at the entry anyway

## Main results

* `seen_of_restartStep`: what a step does to a CPU
* `restarts_iff_of_run`: when CPUs can be started again
* `not_restarts`: a CPU that has run stays on, and runs on where it was
-/

namespace Hvisor

/-- What `run` and `idle` use of the data of a CPU: the saved registers and program counter of the
guest, and two flags. -/
structure LoongCpu where
  x : Fin 32 → Nat
  sepc : Nat
  powerOn : Bool
  init : Bool

namespace LoongCpu

/-- `ArchCpu::new`. -/
def new : LoongCpu where
  x _ := 0
  sepc := 0
  powerOn := false
  init := false

/-- The first part of `run`. -/
def setPowerOn (self : LoongCpu) : LoongCpu := { self with powerOn := true }

/-- The function `init`. -/
def initCtx (self : LoongCpu) (entry : Nat) : LoongCpu := { self with sepc := entry }

/-- The rest of `run`, up to the guest, which is entered at `sepc`. -/
def finishRun (self : LoongCpu) (cpuOnEntry : Nat) : LoongCpu :=
  let self := if self.init then self else { self.initCtx cpuOnEntry with init := true }
  { self with x := fun _ => 0 }

/-- `idle` sets where the next trap is saved, enables the interrupt of events, and loops. -/
def idle (self : LoongCpu) : LoongCpu := self

/-- The trap vector saves where the trap was taken. -/
def saveEra (self : LoongCpu) (era : Nat) : LoongCpu := { self with sepc := era }

/-- The handler of a trap skips the instruction that it has emulated. -/
def skip (self : LoongCpu) : LoongCpu := { self with sepc := self.sepc + 4 }

end LoongCpu

/-- What a CPU does after it has sent an event. -/
inductive SendNext where
  | start
  /-- The CPUs of the zone, and those that are still to be shut down. -/
  | stop (cpus rest : List Nat)
  | other
  deriving DecidableEq

/-- Where a CPU is. -/
inductive LoongPc where
  | runVm
  /-- Runs its guest. -/
  | lower
  /-- The loop of `idle`. -/
  | loop
  /-- `hv_zone_start`: in `zone_create`, with the CPUs that are still to be set up; about to take
  `ctrl_lock`, to test the flag, to drop the lock. -/
  | create (zone entry boot : Nat) (rest : List Nat)
  | startLock (boot : Nat)
  | startCheck (boot : Nat)
  | startUnlock (boot : Nat)
  /-- `hv_zone_shutdown`: at the next CPU, about to write `cpu_on_entry`, to drop the lock; in the
  wait; and after it. -/
  | stopLock (cpus rest : List Nat)
  | stopEntry (cpus : List Nat) (target : Nat) (rest : List Nat)
  | stopUnlock (cpus : List Nat) (target : Nat) (rest : List Nat)
  | wait (cpus rest : List Nat) (count : Nat)
  | clear (rest : List Nat)
  /-- `send_event`: in the loop that empties the queue, and after it. -/
  | send (target : Nat) (event : IpiEvent) (next : SendNext)
  | push (target : Nat) (event : IpiEvent) (next : SendNext)
  /-- In the loop that checks for events. -/
  | checkEvents
  /-- `run`: in `activate_gpm`, about to set the flag, after it. -/
  | activate
  | powerOn
  | enter
  | idle
  deriving DecidableEq

/-- The data of the CPUs by field. -/
structure LoongMachine where
  cpu : Nat → LoongCpu
  cpuOnEntry : Nat → Nat
  zone : Nat → Option Nat
  bootCpu : Nat → Bool
  ctrlLock : Nat → Option Nat
  events : EventQueues
  pc : Nat → LoongPc

/-- What a CPU does; a trap comes with the address that it is taken at. -/
inductive RestartAct where
  /-- The interrupt of events. -/
  | irq (era : Nat)
  /-- A trap whose handler does not check for events. -/
  | trap (era : Nat) (emulated : Bool)
  /-- A hypercall that sends another event. -/
  | event (era target : Nat) (event : IpiEvent)
  | hvZoneStart (era zone entry : Nat) (cpus : List Nat)
  | hvZoneShutdown (era : Nat) (cpus : List Nat)
  | step
  deriving DecidableEq

/-- What is seen of CPU `cpu` in a step. -/
inductive LoongSeen where
  | trapped (cpu era : Nat)
  /-- `run` enters the guest at `pc`, with `entry` the `cpu_on_entry` of the CPU. -/
  | entered (cpu pc entry : Nat)
  /-- `idle` is in its loop, with the flag `on`. -/
  | idled (cpu : Nat) (on : Bool)
  /-- `hv_zone_start` tests the flag of a CPU, which idles or not. -/
  | started (cpu : Nat) (idle ok : Bool)
  /-- The wait of `hv_zone_shutdown` tests the flag of a CPU, and starts over or not. -/
  | polled (cpu : Nat) (idle again : Bool)
  deriving DecidableEq

namespace LoongMachine

/-- The CPU goes on at a place. -/
def goto (s : LoongMachine) (p : Nat) (pc : LoongPc) : LoongMachine :=
  { s with pc := Function.update s.pc p pc }

/-- The CPU's own data. -/
def setCpu (s : LoongMachine) (p : Nat) (cpu : LoongCpu) : LoongMachine :=
  { s with cpu := Function.update s.cpu p cpu }

/-- The CPU has the lock of another one. -/
def lockCtrl (s : LoongMachine) (c p : Nat) : LoongMachine :=
  { s with ctrlLock := Function.update s.ctrlLock c (some p) }

/-- The lock of a CPU is free. -/
def unlockCtrl (s : LoongMachine) (c : Nat) : LoongMachine :=
  { s with ctrlLock := Function.update s.ctrlLock c none }

/-- A hypercall begins. -/
def call (s : LoongMachine) (p era : Nat) (pc : LoongPc) : LoongMachine :=
  (s.setCpu p ((s.cpu p).saveEra era)).goto p pc

/-- A hypercall returns to the guest. -/
def ret (s : LoongMachine) (p : Nat) : LoongMachine :=
  (s.setCpu p (s.cpu p).skip).goto p .lower

/-- What `zone_create` sets up of a CPU. -/
def setUp (s : LoongMachine) (c zone entry boot : Nat) : LoongMachine :=
  { s with zone := Function.update s.zone c (some zone),
           bootCpu := if c = boot then Function.update s.bootCpu c true else s.bootCpu,
           cpuOnEntry := Function.update s.cpuOnEntry c entry }

/-- The CPU waits in its loop. -/
def Idles (s : LoongMachine) (c : Nat) : Prop := s.pc c = .loop

instance (s : LoongMachine) (c : Nat) : Decidable (s.Idles c) :=
  inferInstanceAs (Decidable (s.pc c = .loop))

end LoongMachine

/-- A step of CPU `p`, with what is seen of it. An interrupt may come at any time. -/
def restartStep (s : LoongMachine) (p : Nat) (act : RestartAct) :
    Option (LoongMachine × Option LoongSeen) :=
  match s.pc p, act with
  | .runVm, .step => some (s.goto p (if s.bootCpu p then .activate else .idle), none)
  | .lower, .irq era | .loop, .irq era =>
    some (s.call p era .checkEvents, some (.trapped p era))
  | .lower, .trap era emulated | .loop, .trap era emulated =>
    let cpu := (s.cpu p).saveEra era
    -- the handler returns to guest mode, also from the loop of `idle`
    some ((s.setCpu p (if emulated then cpu.skip else cpu)).goto p .lower, some (.trapped p era))
  | .lower, .event era target event =>
    if event = .WAKEUP ∨ event = .SHUTDOWN then none
    else some (s.call p era (.send target event .other), some (.trapped p era))
  | .lower, .hvZoneStart era zone entry cpus =>
    match cpus with
    | [] => none
    | boot :: _ => some (s.call p era (.create zone entry boot cpus), some (.trapped p era))
  | .lower, .hvZoneShutdown era cpus =>
    some (s.call p era (.stopLock cpus cpus), some (.trapped p era))
  | .create zone entry boot (c :: rest), .step =>
    some ((s.setUp c zone entry boot).goto p (.create zone entry boot rest), none)
  | .create _ _ boot [], .step => some (s.goto p (.startLock boot), none)
  | .startLock boot, .step =>
    if s.ctrlLock boot = none then some ((s.lockCtrl boot p).goto p (.startCheck boot), none)
    else none
  | .startCheck boot, .step =>
    if (s.cpu boot).powerOn then
      -- EBUSY
      some ((s.unlockCtrl boot).ret p, some (.started boot (s.Idles boot) false))
    else some (s.goto p (.send boot .WAKEUP .start), some (.started boot (s.Idles boot) true))
  | .startUnlock boot, .step => some ((s.unlockCtrl boot).ret p, none)
  | .stopLock cpus (c :: rest), .step =>
    if s.ctrlLock c = none then some ((s.lockCtrl c p).goto p (.stopEntry cpus c rest), none)
    else none
  | .stopLock cpus [], .step => some (s.goto p (.wait cpus cpus 0), none)
  | .stopEntry cpus c rest, .step =>
    some ({ s with cpuOnEntry := Function.update s.cpuOnEntry c INVALID_ADDRESS }.goto p
      (.send c .SHUTDOWN (.stop cpus rest)), none)
  | .stopUnlock cpus c rest, .step =>
    some ((s.unlockCtrl c).goto p (.stopLock cpus rest), none)
  | .wait cpus (c :: rest) count, .step =>
    if s.ctrlLock c = none then
      -- past the limit, a CPU that is still on counts as off
      let again := (s.cpu c).powerOn && !decide (MAX_WAIT_TIMES < count + 1)
      some (s.goto p (.wait cpus (if again then cpus else rest) (count + 1)),
        some (.polled c (s.Idles c) again))
    else none
  | .wait cpus [] _, .step => some (s.goto p (.clear cpus), none)
  | .clear (c :: rest), .step =>
    if s.ctrlLock c = none then
      some ({ s with zone := Function.update s.zone c none }.goto p (.clear rest), none)
    else none
  | .clear [], .step => some (s.ret p, none)
  | .send target event next, .step =>
    match fetchEvent s.events target with
    | (some _, events) => some ({ s with events }, none)
    | (none, _) => some (s.goto p (.push target event next), none)
  | .push target event next, .step =>
    let s := { s with events := addEvent s.events target event }
    match next with
    | .start => some (s.goto p (.startUnlock target), none)
    | .stop cpus rest => some (s.goto p (.stopUnlock cpus target rest), none)
    | .other => some (s.ret p, none)
  | .checkEvents, .step =>
    let (event, events) := fetchEvent s.events p
    let s := { s with events }
    match event with
    | some .WAKEUP => some (s.goto p .activate, none)
    | some .SHUTDOWN => some (s.goto p .idle, none)
    | some event => some (if loongHandles event then s else s.goto p .lower, none)
    | none => some (s.goto p .lower, none)
  | .activate, .step =>
    -- a CPU without a zone panics
    if (s.zone p).isSome then some (s.goto p .powerOn, none) else none
  | .powerOn, .step => some ((s.setCpu p (s.cpu p).setPowerOn).goto p .enter, none)
  | .enter, .step =>
    let cpu := (s.cpu p).finishRun (s.cpuOnEntry p)
    some ((s.setCpu p cpu).goto p .lower, some (.entered p cpu.sepc (s.cpuOnEntry p)))
  | .idle, .step =>
    let cpu := (s.cpu p).idle
    some ((s.setCpu p cpu).goto p .loop, some (.idled p cpu.powerOn))
  | _, _ => none

/-- The CPUs are about to call `run_vm`, after the root zone was created. -/
structure LoongMachine.Booted (s : LoongMachine) : Prop where
  cpu : ∀ c, s.cpu c = .new
  ctrlLock : ∀ c, s.ctrlLock c = none
  events : ∀ c, s.events c = []
  pc : ∀ c, s.pc c = .runVm

/-- The runs from there on; a step shows what is seen of it. -/
def loongRestarts : TransitionSystem LoongMachine (Nat × Option LoongSeen) where
  init := LoongMachine.Booted
  step s e s' := ∃ act, restartStep s e.1 act = some (s', e.2)

/-! ## What is promised of a CPU -/

namespace LoongSeen

/-- **What is seen is as it should be**: a run enters at the entry, a CPU that idles is off, it can
be started again, and the wait of a shutdown is over with it. -/
def Right (c : Nat) : LoongSeen → Prop
  | .trapped .. => True
  | .entered c' pc entry => c' = c → pc = entry
  | .idled c' on => c' = c → on = false
  | .started c' idle ok => c' = c → idle = true → ok = true
  | .polled c' idle again => c' = c → idle = true → again = false

/-- Where a CPU took a trap. -/
def era (c : Nat) : LoongSeen → Option Nat
  | .trapped c' era => if c' = c then some era else none
  | _ => none

end LoongSeen

/-- The CPU has run its guest. -/
def Ran (c : Nat) (h : List LoongSeen) : Prop := ∃ pc entry, .entered c pc entry ∈ h

/-- A CPU idles before it has ever run; a run is its first one, or finds the entry in `sepc`, where
the trap was taken that brought it there. -/
def LoongSeen.Fresh (c : Nat) (h : List LoongSeen) : LoongSeen → Prop
  | .entered c' _ entry => c' = c → Ran c h → h.findSome? (era c) = some entry
  | .idled c' _ => c' = c → ¬ Ran c h
  | _ => True

/-- The CPU can be started again and again. -/
def Restarts (c : Nat) (h : List LoongSeen) : Prop := ∀ e ∈ h, e.Right c

/-- The condition on the steps of a history, the latest first. -/
def RunsFresh (c : Nat) : List LoongSeen → Prop
  | [] => True
  | e :: h => e.Fresh c h ∧ RunsFresh c h

variable {s s' : LoongMachine} {p c : Nat} {act : RestartAct} {o : Option LoongSeen}
  {h : List LoongSeen} {e : LoongSeen}

theorem ran_cons (he : ∀ pc entry, e ≠ .entered c pc entry) : Ran c (e :: h) ↔ Ran c h := by
  simp only [Ran, List.mem_cons]
  constructor
  · rintro ⟨pc, entry, heq | hmem⟩
    · exact absurd heq.symm (he pc entry)
    · exact ⟨pc, entry, hmem⟩
  · rintro ⟨pc, entry, hmem⟩
    exact ⟨pc, entry, .inr hmem⟩

/-! ## What a step does to a CPU -/

/-- In the handler of an interrupt, up to the entry of the guest. -/
def LoongPc.InHandler : LoongPc → Prop
  | .checkEvents | .activate | .powerOn | .enter => True
  | _ => False

/-- **The flags of a CPU say whether it has run**, and in a handler `sepc` is where the interrupt
was taken. -/
structure TracksRun (c : Nat) (h : List LoongSeen) (s : LoongMachine) : Prop where
  boot : s.pc c = .runVm → ¬ Ran c h
  powerOn : (s.cpu c).powerOn = true ↔ Ran c h ∨ s.pc c = .enter
  init : (s.cpu c).init = true ↔ Ran c h
  sepc : (s.pc c).InHandler → Ran c h → h.findSome? (LoongSeen.era c) = some (s.cpu c).sepc

/-- While a CPU idles it is off. -/
def IdlesOff (c : Nat) (s : LoongMachine) : Prop := s.Idles c → (s.cpu c).powerOn = false

/-- What a step keeps, and what it shows. -/
structure Seen (c : Nat) (h : List LoongSeen) (s s' : LoongMachine) (o : Option LoongSeen) :
    Prop where
  tracks : TracksRun c (o.toList ++ h) s'
  fresh : ∀ e, o = some e → e.Right c → e.Fresh c h
  right : IdlesOff c s → ∀ e, o = some e → e.Fresh c h → e.Right c
  off : IdlesOff c s → (∀ e, o = some e → e.Fresh c h) → IdlesOff c s'

/-- What is seen is no run of the CPU, and not that it idles. -/
structure LoongSeen.Aside (c : Nat) (s : LoongMachine) (e : LoongSeen) : Prop where
  entered : ∀ pc entry, e ≠ .entered c pc entry
  idled : ∀ on, e ≠ .idled c on
  right : IdlesOff c s → e.Right c

theorem LoongSeen.Aside.fresh (ha : e.Aside c s) : e.Fresh c h := by
  cases e with
  | trapped | started | polled => trivial
  | entered c' pc entry => exact fun hc => absurd (hc ▸ rfl) (ha.entered pc entry)
  | idled c' on => exact fun hc => absurd (hc ▸ rfl) (ha.idled on)

/-- A step that leaves the flags, and how far a run is. -/
theorem seen_of_aside (ht : TracksRun c h s) (hon : (s'.cpu c).powerOn = (s.cpu c).powerOn)
    (hinit : (s'.cpu c).init = (s.cpu c).init) (hboot : s'.pc c = .runVm → s.pc c = .runVm)
    (henter : s'.pc c = .enter ↔ s.pc c = .enter) (hloop : s'.pc c = .loop → s.pc c = .loop)
    (hsepc : (s'.pc c).InHandler → Ran c h →
      (o.toList ++ h).findSome? (LoongSeen.era c) = some (s'.cpu c).sepc)
    (ha : ∀ e, o = some e → e.Aside c s) : Seen c h s s' o := by
  have hran : Ran c (o.toList ++ h) ↔ Ran c h := by
    cases o with
    | none => rfl
    | some e => exact ran_cons (ha e rfl).entered
  refine ⟨⟨?_, ?_, ?_, ?_⟩, fun e he _ => (ha e he).fresh, fun hi e he _ => (ha e he).right hi, ?_⟩
  · rw [hran]
    exact fun hpc => ht.boot (hboot hpc)
  · rw [hran, hon, henter]
    exact ht.powerOn
  · rw [hran, hinit]
    exact ht.init
  · rw [hran]
    exact hsepc
  · intro hi _ hidle
    rw [hon]
    exact hi (hloop hidle)

theorem aside_trapped (era : Nat) : (LoongSeen.trapped p era).Aside c s where
  entered _ _ h := by cases h
  idled _ h := by cases h
  right _ := trivial

/-- A start of a CPU that idles and is off is let through. -/
theorem aside_started (boot : Nat) :
    (LoongSeen.started boot (decide (s.Idles boot)) (!(s.cpu boot).powerOn)).Aside c s where
  entered _ _ h := by cases h
  idled _ h := by cases h
  right hi := by
    rintro rfl hidle
    rw [hi (of_decide_eq_true hidle)]
    rfl

/-- The wait for a CPU that idles and is off is over. -/
theorem aside_polled (target : Nat) (b : Bool) :
    (LoongSeen.polled target (decide (s.Idles target))
      ((s.cpu target).powerOn && b)).Aside c s where
  entered _ _ h := by cases h
  idled _ h := by cases h
  right hi := by
    rintro rfl hidle
    rw [hi (of_decide_eq_true hidle)]
    rfl

/-- A step of another CPU. -/
theorem seen_of_other (ht : TracksRun c h s) (hpc : s'.pc c = s.pc c) (hcpu : s'.cpu c = s.cpu c)
    (ha : ∀ e, o = some e → e.Aside c s ∧ e.era c = none) : Seen c h s s' o := by
  apply seen_of_aside ht
  · rw [hcpu]
  · rw [hcpu]
  · rw [hpc]
    exact id
  · rw [hpc]
  · rw [hpc]
    exact id
  · intro hin hran
    rw [hpc] at hin
    rw [hcpu, ← ht.sepc hin hran]
    cases o with
    | none => rfl
    | some e => simp [(ha e rfl).2]
  · exact fun e he => (ha e he).1

/-- Neither where a run or `idle` ends, nor where it begins. -/
def LoongPc.Passing (q : LoongPc) : Prop := q ≠ .runVm ∧ q ≠ .enter ∧ q ≠ .loop

/-- **A step that is not the end of `run` or `idle`**: it leaves the flags, and reaches a handler by
a trap, or goes on in one. -/
theorem seen_of_move {q : LoongPc} {d : LoongCpu} (ht : TracksRun c h s)
    (hpc : s'.pc = Function.update s.pc p q) (hcpu : s'.cpu = Function.update s.cpu p d)
    (hon : d.powerOn = (s.cpu p).powerOn) (hinit : d.init = (s.cpu p).init) (hq : q.Passing)
    (hne : s.pc p ≠ .enter)
    (hsepc : q.InHandler → o = some (.trapped p d.sepc) ∨
      o = none ∧ (s.pc p = .runVm ∨ (s.pc p).InHandler) ∧ d.sepc = (s.cpu p).sepc)
    (ha : ∀ e, o = some e → e.Aside c s ∧ (p ≠ c → e.era c = none)) : Seen c h s s' o := by
  by_cases hc : p = c
  · subst hc
    have hpc : s'.pc p = q := by rw [hpc, Function.update_self]
    have hcpu : s'.cpu p = d := by rw [hcpu, Function.update_self]
    apply seen_of_aside ht
    · rw [hcpu, hon]
    · rw [hcpu, hinit]
    · exact fun h => absurd (hpc.symm.trans h) hq.1
    · exact ⟨fun h => absurd (hpc.symm.trans h) hq.2.1, fun h => absurd h hne⟩
    · exact fun h => absurd (hpc.symm.trans h) hq.2.2
    · intro hin hran
      rw [hpc] at hin
      rw [hcpu]
      rcases hsepc hin with rfl | ⟨rfl, hold, hsame⟩
      · simp [LoongSeen.era]
      · rw [hsame]
        exact ht.sepc (hold.resolve_left fun hboot => ht.boot hboot hran) hran
    · exact fun e he => (ha e he).1
  · apply seen_of_other ht
    · rw [hpc, Function.update_of_ne (Ne.symm hc)]
    · rw [hcpu, Function.update_of_ne (Ne.symm hc)]
    · exact fun e he => ⟨(ha e he).1, (ha e he).2 hc⟩

/-- A step of a hypercall. -/
theorem seen_of_call {q : LoongPc} {d : LoongCpu} (ht : TracksRun c h s)
    (hpc : s'.pc = Function.update s.pc p q) (hcpu : s'.cpu = Function.update s.cpu p d)
    (hon : d.powerOn = (s.cpu p).powerOn) (hinit : d.init = (s.cpu p).init) (hq : q.Passing)
    (hout : ¬ q.InHandler) (hne : s.pc p ≠ .enter)
    (ha : ∀ e, o = some e → e.Aside c s ∧ (p ≠ c → e.era c = none)) : Seen c h s s' o :=
  seen_of_move ht hpc hcpu hon hinit hq hne (fun h => absurd h hout) ha

/-- The CPU reports that it is on. -/
theorem seen_powerOn (ht : TracksRun c h s) (hpc : s.pc c = .powerOn) :
    Seen c h s ((s.setCpu c (s.cpu c).setPowerOn).goto c .enter) none := by
  have hpc' : ((s.setCpu c (s.cpu c).setPowerOn).goto c .enter).pc c = .enter :=
    Function.update_self ..
  have hcpu : ((s.setCpu c (s.cpu c).setPowerOn).goto c .enter).cpu c = (s.cpu c).setPowerOn :=
    Function.update_self ..
  refine ⟨⟨?_, ?_, ?_, ?_⟩, fun e he => (by cases he), fun _ e he => (by cases he), ?_⟩
  · rw [hpc']
    rintro ⟨⟩
  · rw [hpc', hcpu]
    exact ⟨fun _ => .inr rfl, fun _ => rfl⟩
  · rw [hcpu]
    exact ht.init
  · rw [hcpu]
    exact fun _ => ht.sepc (by rw [hpc]; trivial)
  · intro _ _ hidle
    cases hpc'.symm.trans hidle

/-- The run enters the guest: the first time at the entry, and later where the trap was taken. -/
theorem seen_enter (ht : TracksRun c h s) (hpc : s.pc c = .enter) :
    Seen c h s ((s.setCpu c ((s.cpu c).finishRun (s.cpuOnEntry c))).goto c .lower)
      (some (.entered c ((s.cpu c).finishRun (s.cpuOnEntry c)).sepc (s.cpuOnEntry c))) := by
  have hpc' : ((s.setCpu c ((s.cpu c).finishRun (s.cpuOnEntry c))).goto c .lower).pc c = .lower :=
    Function.update_self ..
  have hcpu : ((s.setCpu c ((s.cpu c).finishRun (s.cpuOnEntry c))).goto c .lower).cpu c =
      (s.cpu c).finishRun (s.cpuOnEntry c) := Function.update_self ..
  have hran : Ran c
      (.entered c ((s.cpu c).finishRun (s.cpuOnEntry c)).sepc (s.cpuOnEntry c) :: h) :=
    ⟨_, _, List.mem_cons_self⟩
  -- a CPU that has run is not given the entry again, and goes on where the trap was taken
  have hlater : Ran c h → ((s.cpu c).finishRun (s.cpuOnEntry c)).sepc = (s.cpu c).sepc ∧
      h.findSome? (LoongSeen.era c) = some (s.cpu c).sepc := by
    intro hran
    refine ⟨?_, ht.sepc (by rw [hpc]; trivial) hran⟩
    rw [LoongCpu.finishRun, if_pos (ht.init.mpr hran)]
  have hon : ((s.cpu c).finishRun (s.cpuOnEntry c)).powerOn = true := by
    rw [← ht.powerOn.mpr (.inr hpc), LoongCpu.finishRun]
    split <;> rfl
  refine ⟨⟨?_, ?_, ?_, ?_⟩, ?_, ?_, ?_⟩
  · rw [hpc']
    rintro ⟨⟩
  · rw [hcpu, hon]
    exact ⟨fun _ => .inl hran, fun _ => rfl⟩
  · rw [hcpu]
    refine ⟨fun _ => hran, fun _ => ?_⟩
    rw [LoongCpu.finishRun]
    split
    · next hinit => exact hinit
    · rfl
  · rw [hpc']
    exact fun hin => absurd hin id
  · rintro e ⟨⟩ hright _ hran
    obtain ⟨hsepc, hera⟩ := hlater hran
    rw [hera, ← hsepc, hright rfl]
  · rintro _ e ⟨⟩ hfresh _
    -- the first run sets `sepc`, a later one leaves the address of the trap there
    cases hinit : (s.cpu c).init with
    | false =>
      rw [LoongCpu.finishRun, hinit]
      rfl
    | true =>
      have hran := ht.init.mp hinit
      obtain ⟨hsepc, hera⟩ := hlater hran
      rw [hsepc]
      exact Option.some.inj (hera.symm.trans (hfresh rfl hran))
  · intro _ _ hidle
    cases hpc'.symm.trans hidle

/-- `idle` leaves the flag, which is set if the CPU has run. -/
theorem seen_idle (ht : TracksRun c h s) (hpc : s.pc c = .idle) :
    Seen c h s ((s.setCpu c (s.cpu c).idle).goto c .loop) (some (.idled c (s.cpu c).powerOn)) := by
  have hpc' : ((s.setCpu c (s.cpu c).idle).goto c .loop).pc c = .loop := Function.update_self ..
  have hcpu : ((s.setCpu c (s.cpu c).idle).goto c .loop).cpu c = s.cpu c :=
    Function.update_self ..
  have hon : (s.cpu c).powerOn = true ↔ Ran c h := by
    rw [ht.powerOn, hpc]
    simp
  have hran : Ran c (.idled c (s.cpu c).powerOn :: h) ↔ Ran c h := ran_cons fun _ _ h => by cases h
  refine ⟨⟨?_, ?_, ?_, ?_⟩, ?_, ?_, ?_⟩
  · rw [hpc']
    rintro ⟨⟩
  · rw [hpc', hcpu, hon]
    simp [hran]
  · rw [hcpu]
    exact ht.init.trans hran.symm
  · rw [hpc']
    exact fun hin => absurd hin id
  · rintro e ⟨⟩ hright _ hran
    rw [hon.mpr hran] at hright
    exact absurd (hright rfl) (by simp)
  · rintro _ e ⟨⟩ hfresh _
    exact Bool.eq_false_iff.mpr fun h => hfresh rfl (hon.mp h)
  · intro _ hfresh _
    rw [hcpu]
    exact Bool.eq_false_iff.mpr fun h => hfresh _ rfl rfl (hon.mp h)

/-- **What a step does**: it keeps what the flags say; what it shows is right exactly when it meets
the condition; and then a CPU that idles is off. -/
theorem seen_of_restartStep (ht : TracksRun c h s) (hs : restartStep s p act = some (s', o)) :
    Seen c h s s' o := by
  have hsame : s.cpu = Function.update s.cpu p (s.cpu p) := (Function.update_eq_self ..).symm
  have htrapped : ∀ era e, some (LoongSeen.trapped p era) = some e →
      e.Aside c s ∧ (p ≠ c → e.era c = none) := by
    rintro era e ⟨⟩
    exact ⟨aside_trapped era, fun hc => if_neg hc⟩
  have hnone : ∀ e : LoongSeen, none = some e → e.Aside c s ∧ (p ≠ c → e.era c = none) := by
    rintro e ⟨⟩
  revert hs
  fun_cases restartStep s p act <;> intro hs <;> try cases hs
  case case1 hpc =>
    refine seen_of_move ht rfl hsame rfl rfl ?_ ?_ ?_ ?_
    · split <;> simp [LoongPc.Passing]
    · rw [hpc]
      simp
    · exact fun _ => .inr ⟨rfl, .inl hpc, rfl⟩
    · exact hnone
  -- traps of the guest, and of a CPU that idles
  case case2 hpc | case3 hpc =>
    refine seen_of_move ht rfl rfl rfl rfl ?_ ?_ ?_ ?_
    · simp [LoongPc.Passing]
    · rw [hpc]
      simp
    · exact fun _ => .inl rfl
    · exact htrapped _
  case case4 hpc cpu | case5 hpc cpu =>
    refine seen_of_call ht rfl rfl ?_ ?_ ?_ ?_ ?_ ?_
    · split <;> rfl
    · split <;> rfl
    · simp [LoongPc.Passing]
    · exact id
    · rw [hpc]
      simp
    · exact htrapped _
  case case7 hpc _ | case9 hpc _ _ | case10 hpc =>
    refine seen_of_call ht rfl rfl rfl rfl ?_ ?_ ?_ ?_
    · simp [LoongPc.Passing]
    · exact id
    · rw [hpc]
      simp
    · exact htrapped _
  -- the steps of the hypercalls, which leave the CPU that is watched as it is
  case case11 hpc | case12 hpc | case13 hpc _ | case18 hpc _ | case20 hpc | case21 hpc |
      case22 hpc | case25 hpc | case26 hpc _ | case30 hpc _ _ | case31 hpc | case32 hpc =>
    refine seen_of_call ht rfl hsame rfl rfl ?_ ?_ ?_ ?_
    · simp [LoongPc.Passing]
    · exact id
    · rw [hpc]
      simp
    · exact hnone
  case case15 boot hpc hon =>
    refine seen_of_call ht rfl rfl rfl rfl ?_ ?_ ?_ ?_
    · simp [LoongPc.Passing]
    · exact id
    · rw [hpc]
      simp
    · rintro e ⟨⟩
      have ha := aside_started (c := c) (s := s) boot
      rw [hon] at ha
      exact ⟨ha, fun _ => rfl⟩
  case case16 boot hpc hoff =>
    refine seen_of_call ht rfl hsame rfl rfl ?_ ?_ ?_ ?_
    · simp [LoongPc.Passing]
    · exact id
    · rw [hpc]
      simp
    · rintro e ⟨⟩
      have ha := aside_started (c := c) (s := s) boot
      rw [Bool.eq_false_iff.mpr hoff] at ha
      exact ⟨ha, fun _ => rfl⟩
  case case17 hpc | case28 hpc | case33 hpc =>
    refine seen_of_call ht rfl rfl rfl rfl ?_ ?_ ?_ ?_
    · simp [LoongPc.Passing]
    · exact id
    · rw [hpc]
      simp
    · exact hnone
  case case23 target rest count hpc hlock again =>
    refine seen_of_call ht rfl hsame rfl rfl ?_ ?_ ?_ ?_
    · simp [LoongPc.Passing]
    · exact id
    · rw [hpc]
      simp
    · rintro e ⟨⟩
      exact ⟨aside_polled target _, fun _ => rfl⟩
  case case29 hpc _ _ _ =>
    -- the CPU stays where it is
    refine seen_of_call ht (Function.update_eq_self_iff.mpr hpc.symm).symm hsame rfl rfl ?_ ?_ ?_ ?_
    · simp [LoongPc.Passing]
    · exact id
    · rw [hpc]
      simp
    · exact hnone
  -- the handler of events goes to `run`, to `idle` or back to the guest
  case case34 hpc _ _ _ | case35 hpc _ _ _ | case37 hpc _ _ _ =>
    refine seen_of_move ht rfl hsame rfl rfl ?_ ?_ ?_ ?_
    · simp [LoongPc.Passing]
    · rw [hpc]
      simp
    · exact fun _ => .inr ⟨rfl, .inr (by rw [hpc]; trivial), rfl⟩
    · exact hnone
  case case36 hpc events s₁ event _ _ _ =>
    refine seen_of_move (p := p) (q := if loongHandles event then .checkEvents else .lower)
      (d := s.cpu p) ht ?_ ?_ rfl rfl ?_ ?_ ?_ ?_
    · split
      · exact (Function.update_eq_self_iff.mpr hpc.symm).symm
      · rfl
    · split <;> exact hsame
    · split <;> simp [LoongPc.Passing]
    · rw [hpc]
      simp
    · exact fun _ => .inr ⟨rfl, .inr (by rw [hpc]; trivial), rfl⟩
    · exact hnone
  case case38 hpc _ =>
    refine seen_of_move ht rfl hsame rfl rfl ?_ ?_ ?_ ?_
    · simp [LoongPc.Passing]
    · rw [hpc]
      simp
    · exact fun _ => .inr ⟨rfl, .inr (by rw [hpc]; trivial), rfl⟩
    · exact hnone
  -- the ends of `run` and `idle`, of the CPU itself or of another one
  case case40 hpc =>
    by_cases hc : p = c
    · subst hc
      exact seen_powerOn ht hpc
    · exact seen_of_other ht (Function.update_of_ne (Ne.symm hc) ..)
        (Function.update_of_ne (Ne.symm hc) ..) fun e he => by cases he
  case case41 hpc cpu =>
    by_cases hc : p = c
    · subst hc
      exact seen_enter ht hpc
    · refine seen_of_other ht (Function.update_of_ne (Ne.symm hc) ..)
        (Function.update_of_ne (Ne.symm hc) ..) ?_
      rintro e ⟨⟩
      exact ⟨⟨fun _ _ h => hc (by cases h; rfl), fun _ h => (by cases h),
        fun _ heq => absurd heq hc⟩, rfl⟩
  case case42 hpc cpu =>
    by_cases hc : p = c
    · subst hc
      exact seen_idle ht hpc
    · refine seen_of_other ht (Function.update_of_ne (Ne.symm hc) ..)
        (Function.update_of_ne (Ne.symm hc) ..) ?_
      rintro e ⟨⟩
      exact ⟨⟨fun _ _ h => (by cases h), fun _ h => hc (by cases h; rfl),
        fun _ heq => absurd heq hc⟩, rfl⟩

/-! ## Runs -/

theorem tracksRun_of_booted (hb : s.Booted) (c : Nat) : TracksRun c [] s := by
  refine ⟨?_, ?_, ?_, ?_⟩
  · rintro - ⟨pc, entry, hmem⟩
    cases hmem
  · simp [hb.cpu, hb.pc, Ran, LoongCpu.new]
  · simp [hb.cpu, Ran, LoongCpu.new]
  · rw [hb.pc]
    exact fun hin => absurd hin id

/-- What is seen, the latest first. -/
def seenOf (h : List (Nat × Option LoongSeen)) : List LoongSeen := h.filterMap Prod.snd

theorem seenOf_cons (e : Nat × Option LoongSeen) (h : List (Nat × Option LoongSeen)) :
    seenOf (e :: h) = e.2.toList ++ seenOf h := by
  obtain ⟨p, o⟩ := e
  cases o <;> rfl

/-- **When a CPU can be started again**: in a run, each run of the CPU enters the guest at the
`cpu_on_entry` of that time, and the CPU is off when it idles, so that no start is refused and no
wait goes on, exactly when it idles only before it has run, and runs only once, unless the trap that
brings it to a later run was taken at the entry. -/
theorem restarts_iff_of_run {h : List (Nat × Option LoongSeen)} (r : loongRestarts.Run h s)
    (c : Nat) : (Restarts c (seenOf h) ↔ RunsFresh c (seenOf h)) ∧
      (RunsFresh c (seenOf h) → s.pc c = .loop → (s.cpu c).powerOn = false) := by
  suffices hinv : TracksRun c (seenOf h) s ∧ (Restarts c (seenOf h) → RunsFresh c (seenOf h)) ∧
      (RunsFresh c (seenOf h) → Restarts c (seenOf h) ∧ IdlesOff c s) from
    ⟨⟨hinv.2.1, fun hf => (hinv.2.2 hf).1⟩, fun hf => (hinv.2.2 hf).2⟩
  refine TransitionSystem.Run.invariant (I := fun h s => TracksRun c (seenOf h) s ∧
    (Restarts c (seenOf h) → RunsFresh c (seenOf h)) ∧
      (RunsFresh c (seenOf h) → Restarts c (seenOf h) ∧ IdlesOff c s)) ?_ ?_ r
  · intro s hb
    refine ⟨tracksRun_of_booted hb c, fun _ => trivial, fun _ => ⟨fun e he => (by cases he), ?_⟩⟩
    intro hidle
    cases (hb.pc c).symm.trans hidle
  · rintro h s ⟨p, o⟩ s' - ⟨ht, hfresh, hright⟩ ⟨act, hs⟩
    -- what a step shows is right exactly when it is fresh, given that all before it was
    have hseen := seen_of_restartStep ht hs
    rw [seenOf_cons]
    refine ⟨hseen.tracks, ?_, ?_⟩
    · intro hall
      cases o with
      | none => exact hfresh hall
      | some e =>
        obtain ⟨he, hall⟩ := List.forall_mem_cons.mp hall
        exact ⟨hseen.fresh e rfl he, hfresh hall⟩
    · intro hall
      cases o with
      | none =>
        obtain ⟨hpast, hoff⟩ := hright hall
        exact ⟨hpast, hseen.off hoff fun e he => by cases he⟩
      | some e =>
        obtain ⟨he, hall⟩ := hall
        obtain ⟨hpast, hoff⟩ := hright hall
        have hnow := hseen.right hoff e rfl he
        refine ⟨List.forall_mem_cons.mpr ⟨hnow, hpast⟩, hseen.off hoff ?_⟩
        rintro e' ⟨⟩
        exact he

/-- CPU 0 is about to boot the root zone, and CPU 1 to idle. -/
def bootedLoong : LoongMachine where
  cpu _ := .new
  cpuOnEntry c := if c = 0 then 0x200000 else INVALID_ADDRESS
  zone c := if c = 0 then some 0 else none
  bootCpu c := decide (c = 0)
  ctrlLock _ := none
  events _ := []
  pc _ := .runVm

theorem booted_bootedLoong : bootedLoong.Booted :=
  ⟨fun _ => rfl, fun _ => rfl, fun _ => rfl, fun _ => rfl⟩

/-- Steps of CPU `p`. -/
def loongSteps (p n : Nat) : List (Nat × RestartAct) := List.replicate n (p, .step)

/-- The CPUs boot. -/
def loongBootActs : List (Nat × RestartAct) := loongSteps 0 4 ++ loongSteps 1 2

/-- CPU 0 starts a zone on CPU 1, which takes one more step when it drops an event. -/
def loongStartActs (zone entry n : Nat) : List (Nat × RestartAct) :=
  (0, .hvZoneStart 0x200010 zone entry [1]) :: loongSteps 0 n

/-- CPU 0 shuts the zone of CPU 1 down, or is somewhere in the call. -/
def loongStopActs (n : Nat) : List (Nat × RestartAct) :=
  (0, .hvZoneShutdown 0x200020 [1]) :: loongSteps 0 n

/-- CPU 1 takes an interrupt. -/
def loongIrqActs (era n : Nat) : List (Nat × RestartAct) := (1, .irq era) :: loongSteps 1 n

/-- The steps from the start, with what is seen. -/
def loongTrace (acts : List (Nat × RestartAct)) :
    Option (List (Nat × Option LoongSeen) × LoongMachine) :=
  TransitionSystem.trace (fun s (e : Nat × RestartAct) =>
    (restartStep s e.1 e.2).map fun (s', o) => (s', e.1, o)) acts ([], bootedLoong)

/-- What is seen in `loongTrace` is seen in a run. -/
theorem run_of_loongTrace {acts : List (Nat × RestartAct)} {seen : List LoongSeen}
    (ht : (loongTrace acts).map (fun r => seenOf r.1) = some seen) :
    ∃ h s, loongRestarts.Run h s ∧ seenOf h = seen := by
  obtain ⟨⟨h, s⟩, hr, hseen⟩ := Option.map_eq_some_iff.mp ht
  refine ⟨h, s, ?_, hseen⟩
  refine TransitionSystem.Run.trace _ ?_ (.start booted_bootedLoong) hr
  intro s a s' e he
  obtain ⟨⟨s₁, o⟩, hs, heq⟩ := Option.map_eq_some_iff.mp he
  cases heq
  exact ⟨a.2, hs⟩

/-- The zone is shut down before CPU 1 takes its interrupt, and another one started. -/
theorem restarts_iff_of_run_again : ∃ h s, loongRestarts.Run h s ∧
    .entered 1 0xa000 0xa000 ∈ seenOf h ∧ .polled 1 true false ∈ seenOf h ∧
    (Restarts 1 (seenOf h) ↔ RunsFresh 1 (seenOf h)) ∧ RunsFresh 1 (seenOf h) := by
  have ht : (loongTrace (loongBootActs ++ loongStartActs 1 0x9000 7 ++ loongStopActs 11 ++
      loongStartActs 2 0xa000 8 ++ loongIrqActs 0x100 4)).map (fun r => seenOf r.1) = some
        [.entered 1 0xa000 0xa000, .trapped 1 0x100, .started 1 true true, .trapped 0 0x200010,
          .polled 1 true false, .trapped 0 0x200020, .started 1 true true, .trapped 0 0x200010,
          .idled 1 false, .entered 0 0x200000 0x200000] := by
    decide +kernel
  obtain ⟨h, s, r, hseen⟩ := run_of_loongTrace ht
  refine ⟨h, s, r, ?_, ?_, (restarts_iff_of_run r 1).1, ?_⟩
  all_goals
    rw [hseen]
    simp [RunsFresh, LoongSeen.Fresh, Ran]

/-- CPU 1 has run when its zone is shut down, and the wait for it goes on. In another run it has
taken its wake-up and not set the flag yet when the zone is shut down and another one started, and
the second wake-up leaves it where it was interrupted. -/
theorem not_restarts :
    (∃ h s, loongRestarts.Run h s ∧ .idled 1 true ∈ seenOf h ∧ .polled 1 true true ∈ seenOf h ∧
      ¬ Restarts 1 (seenOf h)) ∧
    ∃ h s, loongRestarts.Run h s ∧ .entered 1 0xa100 0xa000 ∈ seenOf h ∧
      ¬ Restarts 1 (seenOf h) := by
  constructor
  · have ht : (loongTrace (loongBootActs ++ loongStartActs 1 0x9000 7 ++ loongIrqActs 0x100 4 ++
        loongStopActs 6 ++ loongIrqActs 0x9100 2 ++ loongSteps 0 1)).map
          (fun r => seenOf r.1) = some
          [.polled 1 true true, .idled 1 true, .trapped 1 0x9100, .trapped 0 0x200020,
            .entered 1 0x9000 0x9000, .trapped 1 0x100, .started 1 true true,
            .trapped 0 0x200010, .idled 1 false, .entered 0 0x200000 0x200000] := by
      decide +kernel
    obtain ⟨h, s, r, hseen⟩ := run_of_loongTrace ht
    have hidled : .idled 1 true ∈ seenOf h := by
      rw [hseen]
      simp
    refine ⟨h, s, r, hidled, ?_, fun hall => absurd (hall _ hidled rfl) (by simp)⟩
    rw [hseen]
    simp
  · have ht : (loongTrace (loongBootActs ++ loongStartActs 1 0x9000 7 ++ loongIrqActs 0x100 1 ++
        loongStopActs 10 ++ loongStartActs 2 0xa000 8 ++ loongSteps 1 3 ++
          loongIrqActs 0xa100 4)).map
          (fun r => seenOf r.1) = some [.entered 1 0xa100 0xa000, .trapped 1 0xa100,
            .entered 1 0xa000 0xa000, .started 1 false true, .trapped 0 0x200010,
            .polled 1 false false, .trapped 0 0x200020, .trapped 1 0x100, .started 1 true true,
            .trapped 0 0x200010, .idled 1 false, .entered 0 0x200000 0x200000] := by
      decide +kernel
    obtain ⟨h, s, r, hseen⟩ := run_of_loongTrace ht
    have hentered : .entered 1 0xa100 0xa000 ∈ seenOf h := by
      rw [hseen]
      simp
    exact ⟨h, s, r, hentered, fun hall => absurd (hall _ hentered rfl) (by decide)⟩

end Hvisor
