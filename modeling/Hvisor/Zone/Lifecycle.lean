import Hvisor.Config
import Hvisor.Cpu
import Hvisor.Error
import Hvisor.Lib.TransitionSystem
import Hvisor.Zone.Ownership

/-!
# The life of zones

CPUs start, shut down and power off zones, from `zone.rs`, `hypercall/mod.rs` and, for aarch64,
`trap.rs`, `cpu.rs` and `event.rs`. Every CPU runs its guest or a handler of the hypervisor, one
step at a time, and the steps of the CPUs interleave in any order. A step takes a lock, or is an
access that other CPUs can see; an operation on `ZONE_LIST` is one step, which waits while a zone
that it visits is locked for writing.

A zone is a reference to reference-counted data; its number stands for the address. The page tables
of a zone are those of its number.

## Main definitions

* `Pc`: where a CPU is, by the handler that it runs
* `Machine`: the zones, the data of each CPU, the locks and the event queues
* `Machine.findZone`, `Machine.removeZone`, `Machine.strongCount`: the list of zones
* `eventStep`, `trapStep`, `startStep`, `stopStep`, `offStep`, `lookupStep`: one step of a handler
* `lifecycle`: the transition system
-/

namespace Hvisor

/-- The largest number of virtio devices of a zone. -/
def MAX_DEVS : Nat := 4

/-! ## Places in the handlers -/

/-- A call that the root zone makes, after the dispatch. -/
inductive RootCall where
  /-- `hv_zone_start`; whether the size of the configuration is right. -/
  | start (config : HvZoneConfig) (sizeOk : Bool)
  | shutdown (zoneId : Nat)
  /-- `hv_virtio_inject_irq`, with the target zones and irqs of the results that wait. -/
  | inject (results : List (Nat × Nat))
  | signal (zoneId : Nat)
  deriving DecidableEq

/-- In `check_events`, and in the handlers of events. -/
inductive EventPc where
  | check
  /-- `run`: about to clone the zone, to activate its page tables, to reset, to set `power_on`. -/
  | cloning
  | activating (zone : Nat)
  | resetting
  | starting
  /-- `idle`: about to take `ctrl_lock`, to clear `power_on`, to activate the parking page
  tables. -/
  | idling
  | poweringOff
  | parking
  /-- `handle_virtio_irq`: about to take `VIRTIO_IRQS`, to inject. -/
  | irqsLock
  | irqs
  deriving DecidableEq

/-- In `is_this_root_zone`, with the clone of the CPU's zone: about to clone the root zone, to
compare the two and drop the root zone, to drop the CPU's zone. -/
inductive RootCheckPc where
  | list (zone : Nat)
  | drop (zone root : Nat)
  | done (zone : Nat) (isRoot : Bool)
  deriving DecidableEq

namespace RootCheckPc

/-- The clone of the CPU's zone. -/
def this : RootCheckPc → Nat
  | .list z | .drop z _ | .done z _ => z

/-- The clone of the root zone. -/
def root : RootCheckPc → List Nat
  | .drop _ root => [root]
  | _ => []

end RootCheckPc

/-- A look at a zone in the handling of a trap. -/
inductive ZoneUse where
  /-- `this_zone()`, to read the zone or to write it. -/
  | this (write : Bool)
  /-- `zone_error()`. -/
  | error
  /-- `root_zone()`, for the CPU that gets `WAKEUP_VIRTIO_DEVICE`. -/
  | wakeRoot
  deriving DecidableEq

/-- In the handling of a trap that changes no zone. -/
inductive TrapPc where
  /-- Emulates an access or a call, with the looks at zones that are still to come. -/
  | emulate (uses : List ZoneUse)
  | reading (zone : Nat) (write : Bool) (uses : List ZoneUse)
  | rootError (check : RootCheckPc) (uses : List ZoneUse)
  | rootReading (root : Nat) (uses : List ZoneUse)
  | rootWaking (cpu : Nat) (uses : List ZoneUse)
  /-- `psci_emulate_cpu_on`. -/
  | cpuOnLock (target entry : Nat)
  | cpuOn (target entry : Nat)
  | cpuOnSend (target : Nat)
  | rootCheck (check : RootCheckPc) (call : RootCall)
  deriving DecidableEq

/-- In `hv_zone_start` and `zone_create`. -/
inductive StartPc where
  | find (config : HvZoneConfig)
  /-- Has found that the id is in use, by `zone`. -/
  | used (zone : Nat)
  | check (config : HvZoneConfig) (todo : List Nat) (cpuSet : CpuSet)
  /-- Reports that a CPU belongs to `zone`. -/
  | busy (zone : Nat)
  | assign (config : HvZoneConfig) (zone : Nat) (todo : List Nat)
  | lock (zone : Nat)
  | wake (zone bootCpu : Nat)
  | add (zone bootCpu : Nat)
  deriving DecidableEq

/-- In `hv_zone_shutdown`. The last place has dropped `zone`. -/
inductive StopPc where
  | irqs (zoneId : Nat)
  | find (zoneId : Nat)
  | write (zoneId zone : Nat)
  | sendLock (zoneId zone : Nat) (todo : List Nat)
  | entry (zoneId zone cpu : Nat) (todo : List Nat)
  | send (zoneId zone cpu : Nat) (todo : List Nat)
  | waitLock (zoneId zone : Nat) (todo : List Nat) (count : Nat)
  | wait (zoneId zone cpu : Nat) (todo : List Nat) (count : Nat)
  | clearLock (zoneId zone : Nat) (todo : List Nat)
  | clear (zoneId zone cpu : Nat) (todo : List Nat)
  | drop (zoneId zone : Nat)
  | remove (zoneId zone : Nat)
  deriving DecidableEq

/-- In the handling of `PSCI_SYSTEM_OFF`. The last place has dropped `zone`. -/
inductive OffPc where
  | read (zone : Nat)
  | this (zone : Nat)
  | root (zone : Nat) (check : RootCheckPc)
  | enter (zone : Nat) (isRoot : Bool)
  | lock (zone : Nat) (isRoot : Bool) (todo : List Nat)
  | clear (zone : Nat) (isRoot : Bool) (cpu : Nat) (todo : List Nat)
  | self (zone : Nat) (isRoot : Bool)
  | remove (zone : Nat) (isRoot : Bool)
  deriving DecidableEq

/-- In the calls of the root zone that look a zone up to send its CPUs an event. -/
inductive LookupPc where
  | injectLock (results : List (Nat × Nat))
  | inject (results : List (Nat × Nat))
  | injectSend (zone irq : Nat) (results : List (Nat × Nat))
  | signal (zoneId : Nat)
  | signalSend (zone : Nat)
  deriving DecidableEq

/-- What a CPU panicked at. -/
inductive PanicReason where
  /-- `unwrap` of the CPU's zone. -/
  | noZone
  /-- `unwrap` of the first zone of the list. -/
  | noRoot
  /-- An error of the root zone. -/
  | rootError
  /-- `unwrap` of the zone to remove. -/
  | notListed
  /-- The assertion of `remove_zone`. -/
  | strongCount
  | badCpu
  | noCpu
  | noIrqList
  | tooManyIrqs
  deriving DecidableEq

/-- Where a CPU is. -/
inductive Pc where
  /-- Runs at the lower exception level: its guest, or the parking loop. -/
  | lower
  | event (pc : EventPc)
  | trap (pc : TrapPc)
  | start (pc : StartPc)
  | stop (pc : StopPc)
  | off (pc : OffPc)
  | lookup (pc : LookupPc)
  /-- Turned the machine off. -/
  | systemOff
  /-- Panicked, and keeps the clones of zones that it held. -/
  | panicked (reason : PanicReason) (zones : List Nat)
  deriving DecidableEq

/-- The clones of zones that a CPU holds in a handler. -/
def Pc.held : Pc → List Nat
  | .event (.activating z) | .trap (.reading z _ _) | .trap (.rootReading z _) => [z]
  | .trap (.rootCheck check _) | .trap (.rootError check _) => check.this :: check.root
  | .start (.used z) | .start (.busy z) | .start (.assign _ z _) | .start (.lock z)
  | .start (.wake z _) | .start (.add z _) => [z]
  | .stop (.write _ z) | .stop (.sendLock _ z _) | .stop (.entry _ z _ _) | .stop (.send _ z _ _)
  | .stop (.waitLock _ z _ _) | .stop (.wait _ z _ _ _) | .stop (.clearLock _ z _)
  | .stop (.clear _ z _ _) | .stop (.drop _ z) => [z]
  | .off (.root z check) => z :: check.this :: check.root
  | .off (.read z) | .off (.this z) | .off (.enter z _) | .off (.lock z _ _) | .off (.clear z _ _ _)
  | .off (.self z _) => [z]
  | .lookup (.injectSend z _ _) | .lookup (.signalSend z) => [z]
  | .panicked _ zones => zones
  | _ => []

/-- The zone that a CPU holds a read lock of over several steps. -/
def Pc.reads : Pc → Option Nat
  | .off (.lock z _ _) | .off (.clear z _ _ _) => some z
  | _ => none

/-! ## States -/

/-- The state of the hypervisor. The data of the CPUs stands by field, a field is a function of the
CPU; the page tables of a CPU are those of a zone, or the parking ones. -/
structure Machine where
  ncpu : Nat
  zone : Nat → Option Nat
  cpuOnEntry : Nat → Nat
  dtbIpa : Nat → Nat
  bootCpu : Nat → Bool
  powerOn : Nat → Bool
  ctrlLock : Nat → Option Nat
  elr : Nat → Nat
  stage2 : Nat → Option Nat
  pc : Nat → Pc
  events : EventQueues
  zones : Nat → ZoneData
  nextZone : Nat
  writer : Nat → Option Nat
  zoneList : List Nat
  zoneListLock : Option Nat
  virtioIrqsLock : Option Nat
  virtioIrqs : Nat → Option (List Nat)

/-- What a call returns, for the calls that start, stop or wake something. -/
inductive Outcome where
  | tau
  | started (zone : Nat)
  | stopped (zone : Nat)
  | cpuOn (ok : Bool)
  | failed (num : HvErrorNum)
  deriving DecidableEq

namespace Machine

/-- The CPU goes on at a place. -/
def goto (s : Machine) (p : Nat) (pc : Pc) : Machine := { s with pc := Function.update s.pc p pc }

/-- The CPU has the lock of another one. -/
def lockCtrl (s : Machine) (c p : Nat) : Machine :=
  { s with ctrlLock := Function.update s.ctrlLock c (some p) }

/-- The lock of a CPU is free. -/
def unlockCtrl (s : Machine) (c : Nat) : Machine :=
  { s with ctrlLock := Function.update s.ctrlLock c none }

/-- The entry of a CPU for its zone. -/
def setZone (s : Machine) (c : Nat) (z : Option Nat) : Machine :=
  { s with zone := Function.update s.zone c z }

/-- `send_event`: the event is queued. -/
def send (s : Machine) (c : Nat) (e : IpiEvent) : Machine :=
  { s with events := addEvent s.events c e }

/-- The walk of `find_zone` over a list: `none` if it waits for a zone's lock. -/
def findIn (s : Machine) (id : Nat) : List Nat → Option (Option Nat)
  | [] => some none
  | z :: l => if (s.writer z).isSome then none
    else if (s.zones z).id = id then some (some z) else s.findIn id l

/-- `find_zone`, when the list and the zones on the way can be read. -/
def findZone (s : Machine) (id : Nat) : Option (Option Nat) :=
  if s.zoneListLock = none then s.findIn id s.zoneList else none

/-- `root_zone`, when the list can be read. -/
def rootZone (s : Machine) : Option (Option Nat) :=
  if s.zoneListLock = none then some s.zoneList.head? else none

/-- How often a zone is referred to: from the list, from the CPUs' data, and from handlers. -/
def strongCount (s : Machine) (z : Nat) : Nat :=
  s.zoneList.count z + (List.range (s.ncpu + 1)).countP (fun c => s.zone c = some z) +
    ((List.range (s.ncpu + 1)).map fun c => (s.pc c).held.count z).sum

/-- The CPUs that hold a read lock of a zone over several steps. -/
def readers (s : Machine) (z : Nat) : Nat :=
  (List.range s.ncpu).countP fun c => (s.pc c).reads = some z

/-- `remove_zone` by a CPU that goes on at `next`: the zone with the id leaves the list, and must be
referred to from nowhere else. A panic leaves the list locked. -/
def removeZone (s : Machine) (p id : Nat) (next : Pc) : Option (Machine × Option Nat) :=
  match s.findZone id with
  | none => none
  | some none =>
    some ({ s with zoneListLock := some p }.goto p (.panicked .notListed []), none)
  | some (some z) =>
    let s := { s with zoneList := s.zoneList.erase z }.goto p next
    if s.strongCount z = 0 then some (s, some z)
    else some ({ s with zoneListLock := some p }.goto p (.panicked .strongCount [z]), none)

end Machine

/-! ## Events -/

/-- `check_events`, `run`, `idle` and `handle_virtio_irq` by CPU `p`. -/
def eventStep (s : Machine) (p : Nat) : EventPc → Option (Machine × Outcome)
  | .check =>
    let (event, events) := fetchEvent s.events p
    let s := { s with events := events }
    match event with
    | some .WAKEUP => some (s.goto p (.event .cloning), .tau)
    | some .SHUTDOWN => some (s.goto p (.event .idling), .tau)
    | some .VIRTIO_INJECT_IRQ => some (s.goto p (.event .irqsLock), .tau)
    | _ => some (s.goto p .lower, .tau)
  | .cloning =>
    match s.zone p with
    | some z => some (s.goto p (.event (.activating z)), .tau)
    | none => some (s.goto p (.panicked .noZone []), .tau)
  | .activating z =>
    if s.writer z = none then
      some ({ s with stage2 := Function.update s.stage2 p (some z) }.goto p (.event .resetting),
        .tau)
    else none
  | .resetting =>
    some ({ s with elr := Function.update s.elr p (s.cpuOnEntry p) }.goto p (.event .starting),
      .tau)
  | .starting =>
    -- not under the lock that the other accesses of `power_on` are under
    some ({ s with powerOn := Function.update s.powerOn p true }.goto p .lower, .tau)
  | .idling =>
    if s.ctrlLock p = none then some ((s.lockCtrl p p).goto p (.event .poweringOff), .tau) else none
  | .poweringOff =>
    some (({ s with powerOn := Function.update s.powerOn p false }.unlockCtrl p).goto p
      (.event .parking), .tau)
  | .parking =>
    some ({ s with elr := Function.update s.elr p 0,
                   stage2 := Function.update s.stage2 p none }.goto p .lower, .tau)
  | .irqsLock =>
    if s.virtioIrqsLock = none then
      some ({ s with virtioIrqsLock := some p }.goto p (.event .irqs), .tau)
    else none
  | .irqs =>
    match s.virtioIrqs p with
    | some _ =>
      some ({ s with virtioIrqs := Function.update s.virtioIrqs p (some []),
                     virtioIrqsLock := none }.goto p .lower, .tau)
    | none => some (s.goto p (.panicked .noIrqList []), .tau)

/-! ## Traps -/

/-- `is_this_root_zone` by CPU `p`, up to its answer; the CPU holds the clones `zones` besides. -/
def rootCheckStep (s : Machine) (p : Nat) (next : RootCheckPc → Pc) (zones : List Nat) :
    RootCheckPc → Option Machine
  | .list z =>
    match s.rootZone with
    | some (some root) => some (s.goto p (next (.drop z root)))
    | some none => some (s.goto p (.panicked .noRoot (z :: zones)))
    | none => none
  | .drop z root => some (s.goto p (next (.done z (root == z))))
  | .done _ _ => none

/-- What follows `is_this_root_zone`. -/
def RootCall.enter : RootCall → Pc × Outcome
  | .start config sizeOk =>
    if sizeOk then (.start (.find config), .tau) else (.lower, .failed .EINVAL)
  | .shutdown zoneId =>
    if zoneId = 0 then (.lower, .failed .EINVAL) else (.stop (.irqs zoneId), .tau)
  | .inject results => (.lookup (.injectLock results), .tau)
  | .signal zoneId => (.lookup (.signal zoneId), .tau)

/-- The handling of a trap that changes no zone, by CPU `p`. -/
def trapStep (s : Machine) (p : Nat) : TrapPc → Option (Machine × Outcome)
  | .emulate [] => some (s.goto p .lower, .tau)
  | .emulate (.this write :: uses) =>
    match s.zone p with
    | some z => some (s.goto p (.trap (.reading z write uses)), .tau)
    | none => some (s.goto p (.panicked .noZone []), .tau)
  | .emulate (.error :: uses) =>
    match s.zone p with
    | some z => some (s.goto p (.trap (.rootError (.list z) uses)), .tau)
    | none => some (s.goto p (.panicked .noZone []), .tau)
  | .emulate (.wakeRoot :: uses) =>
    match s.rootZone with
    | some (some root) => some (s.goto p (.trap (.rootReading root uses)), .tau)
    | some none => some (s.goto p (.panicked .noRoot []), .tau)
    | none => none
  | .reading z write uses =>
    if s.writer z = none ∧ (write → s.readers z = 0) then
      some (s.goto p (.trap (.emulate uses)), .tau)
    else none
  | .rootError (.done _ isRoot) uses =>
    if isRoot then some (s.goto p (.panicked .rootError []), .tau)
    else some (s.goto p (.trap (.emulate (.this true :: uses))), .tau)
  | .rootError check uses =>
    (rootCheckStep s p (fun check => .trap (.rootError check uses)) [] check).map (·, .tau)
  | .rootReading root uses =>
    if s.writer root = none then
      match (s.zones root).cpuSet.firstCpu with
      | some c => some (s.goto p (.trap (.rootWaking c uses)), .tau)
      | none => some (s.goto p (.panicked .noCpu [root]), .tau)
    else none
  | .rootWaking c uses =>
    some ((s.send c .WAKEUP_VIRTIO_DEVICE).goto p (.trap (.emulate uses)), .tau)
  | .cpuOnLock target entry =>
    if s.ctrlLock target = none then
      some ((s.lockCtrl target p).goto p (.trap (.cpuOn target entry)), .tau)
    else none
  | .cpuOn target entry =>
    if !s.powerOn target then
      some ({ s with cpuOnEntry := Function.update s.cpuOnEntry target entry,
                     powerOn := Function.update s.powerOn target true }.goto p
        (.trap (.cpuOnSend target)), .tau)
    else
      some ((s.unlockCtrl target).goto p .lower, .cpuOn false)
  | .cpuOnSend target =>
    -- the release of the lock and the return stand with the event: what others do in between
    -- neither takes the lock nor reads this place, and so commutes with them
    some (((s.send target .WAKEUP).unlockCtrl target).goto p .lower, .cpuOn true)
  | .rootCheck (.done _ isRoot) call =>
    if isRoot then some (s.goto p call.enter.1, call.enter.2)
    else some (s.goto p .lower, .failed .EPERM)
  | .rootCheck check call =>
    (rootCheckStep s p (fun check => .trap (.rootCheck check call)) [] check).map (·, .tau)

/-! ## Start -/

/-- `hv_zone_start` by CPU `p`. The page tables, devices and interrupts of the new zone are its own
until it is in the list, and are left out. -/
def startStep (s : Machine) (p : Nat) : StartPc → Option (Machine × Outcome)
  | .find config =>
    match s.findZone config.zoneId with
    | none => none
    | some (some z) => some (s.goto p (.start (.used z)), .tau)
    | some none => some (s.goto p (.start (.check config config.cpuList ⟨s.ncpu, 0⟩)), .tau)
  | .used _ => some (s.goto p .lower, .failed .EINVAL)
  | .check config (c :: todo) cpuSet =>
    -- no lock is held from here to the assignment
    match s.zone c with
    | some z => some (s.goto p (.start (.busy z)), .tau)
    | none =>
      if c ≤ cpuSet.maxCpuId then
        some (s.goto p (.start (.check config todo (cpuSet.setBit c))), .tau)
      else some (s.goto p (.panicked .badCpu []), .tau)
  | .check config [] cpuSet =>
    let z := s.nextZone
    some ({ s with zones := Function.update s.zones z ⟨config.zoneId, cpuSet⟩,
                   nextZone := z + 1 }.goto p (.start (.assign config z cpuSet.iter)), .tau)
  | .busy z =>
    if s.writer z = none then some (s.goto p .lower, .failed .EBUSY) else none
  | .assign config z (c :: todo) =>
    let boot := (s.zones z).cpuSet.firstCpu == some c
    let dtb := config.dtbIpa (config.memoryRegions.toList.take config.numMemoryRegions)
    some ({ s.setZone c (some z) with
              bootCpu := Function.update s.bootCpu c (boot || s.bootCpu c),
              cpuOnEntry := Function.update s.cpuOnEntry c config.entryPoint,
              dtbIpa := Function.update s.dtbIpa c dtb }.goto p
      (.start (.assign config z todo)), .tau)
  | .assign _ z [] => some (s.goto p (.start (.lock z)), .tau)
  | .lock z =>
    match (s.zones z).cpuSet.firstCpu with
    | some bootCpu =>
      if s.ctrlLock bootCpu = none then
        some ((s.lockCtrl bootCpu p).goto p (.start (.wake z bootCpu)), .tau)
      else none
    | none => some (s.goto p (.panicked .noCpu [z]), .tau)
  | .wake z bootCpu =>
    if !s.powerOn bootCpu then
      some ((s.send bootCpu .WAKEUP).goto p (.start (.add z bootCpu)), .tau)
    else
      some ((s.unlockCtrl bootCpu).goto p .lower, .failed .EBUSY)
  | .add z bootCpu =>
    if s.zoneListLock = none then
      some (({ s with zoneList := s.zoneList ++ [z] }.unlockCtrl bootCpu).goto p .lower, .started z)
    else none

/-! ## Shutdown -/

/-- `hv_zone_shutdown` by CPU `p`. -/
def stopStep (s : Machine) (p : Nat) : StopPc → Option (Machine × Outcome)
  | .irqs id =>
    if s.virtioIrqsLock = none then
      some ({ s with virtioIrqsLock := some p }.goto p (.stop (.find id)), .tau)
    else none
  | .find id =>
    match s.findZone id with
    | none => none
    | some none => some ({ s with virtioIrqsLock := none }.goto p .lower, .failed .EINVAL)
    | some (some z) => some (s.goto p (.stop (.write id z)), .tau)
  | .write id z =>
    if s.writer z = none ∧ s.readers z = 0 then
      some ({ s with writer := Function.update s.writer z (some p) }.goto p
        (.stop (.sendLock id z (s.zones z).cpuSet.iter)), .tau)
    else none
  | .sendLock id z (c :: todo) =>
    if s.ctrlLock c = none then some ((s.lockCtrl c p).goto p (.stop (.entry id z c todo)), .tau)
    else none
  | .sendLock id z [] =>
    some (s.goto p (.stop (.waitLock id z (s.zones z).cpuSet.iter 0)), .tau)
  | .entry id z c todo =>
    some ({ s with cpuOnEntry := Function.update s.cpuOnEntry c INVALID_ADDRESS }.goto p
      (.stop (.send id z c todo)), .tau)
  | .send id z c todo =>
    some ((({ s with virtioIrqs := Function.update s.virtioIrqs c
                      ((s.virtioIrqs c).map fun _ => []) }.send c .SHUTDOWN).unlockCtrl c).goto p
      (.stop (.sendLock id z todo)), .tau)
  | .waitLock id z (c :: todo) count =>
    if s.ctrlLock c = none then
      some ((s.lockCtrl c p).goto p (.stop (.wait id z c todo count)), .tau)
    else none
  | .waitLock id z [] _ =>
    some (s.goto p (.stop (.clearLock id z (s.zones z).cpuSet.iter)), .tau)
  | .wait id z c todo count =>
    let count := count + 1
    if s.powerOn c ∧ ¬ MAX_WAIT_TIMES < count then
      -- one CPU is on: the loop starts again
      some ((s.unlockCtrl c).goto p (.stop (.waitLock id z (s.zones z).cpuSet.iter count)), .tau)
    else
      some ((s.unlockCtrl c).goto p (.stop (.waitLock id z todo count)), .tau)
  | .clearLock id z (c :: todo) =>
    if s.ctrlLock c = none then some ((s.lockCtrl c p).goto p (.stop (.clear id z c todo)), .tau)
    else none
  | .clearLock id z [] => some (s.goto p (.stop (.drop id z)), .tau)
  | .clear id z c todo =>
    some (((s.setZone c none).unlockCtrl c).goto p (.stop (.clearLock id z todo)), .tau)
  | .drop id z =>
    some ({ s with writer := Function.update s.writer z none }.goto p (.stop (.remove id z)), .tau)
  | .remove id z =>
    match s.removeZone p id .lower with
    | none => none
    | some (s, some _) => some ({ s with virtioIrqsLock := none }, .stopped z)
    | some (s, none) => some (s, .tau)

/-! ## Power off -/

/-- `PSCI_SYSTEM_OFF` by CPU `p`. -/
def offStep (s : Machine) (p : Nat) : OffPc → Option (Machine × Outcome)
  | .read z => if s.writer z = none then some (s.goto p (.off (.this z)), .tau) else none
  | .this z =>
    match s.zone p with
    | some z' => some (s.goto p (.off (.root z (.list z'))), .tau)
    | none => some (s.goto p (.panicked .noZone [z]), .tau)
  | .root z (.done _ isRoot) => some (s.goto p (.off (.enter z isRoot)), .tau)
  | .root z check =>
    (rootCheckStep s p (fun check => .off (.root z check)) [z] check).map (·, .tau)
  | .enter z isRoot =>
    if s.writer z = none then
      some (s.goto p (.off (.lock z isRoot ((s.zones z).cpuSet.iterExcept p))), .tau)
    else none
  | .lock z isRoot (c :: todo) =>
    if s.ctrlLock c = none then
      some ((s.lockCtrl c p).goto p (.off (.clear z isRoot c todo)), .tau)
    else none
  | .lock z isRoot [] => some (s.goto p (.off (.self z isRoot)), .tau)
  | .clear z isRoot c todo =>
    -- the CPU may run its guest
    some ((((s.setZone c none).send c .SHUTDOWN).unlockCtrl c).goto p
      (.off (.lock z isRoot todo)), .tau)
  | .self z isRoot => some ((s.setZone p none).goto p (.off (.remove z isRoot)), .tau)
  | .remove z isRoot =>
    match s.removeZone p (s.zones z).id (if isRoot then .systemOff else .event .idling) with
    | none => none
    | some (s, _) => some (s, .tau)

/-! ## Lookups -/

/-- `hv_virtio_inject_irq` and `hv_shm_signal` by CPU `p`. -/
def lookupStep (s : Machine) (p : Nat) : LookupPc → Option (Machine × Outcome)
  | .injectLock results =>
    if s.virtioIrqsLock = none then
      some ({ s with virtioIrqsLock := some p }.goto p (.lookup (.inject results)), .tau)
    else none
  | .inject [] => some ({ s with virtioIrqsLock := none }.goto p .lower, .tau)
  | .inject ((zoneId, irq) :: results) =>
    match s.findZone zoneId with
    | none => none
    | some none => some (s.goto p (.lookup (.inject results)), .tau)
    | some (some z) => some (s.goto p (.lookup (.injectSend z irq results)), .tau)
  | .injectSend z irq results =>
    if s.writer z = none then
      match (s.zones z).cpuSet.firstCpu with
      | none => some (s.goto p (.panicked .noCpu [z]), .tau)
      | some c =>
        let irqs := (s.virtioIrqs c).getD []
        if irq ∈ irqs then
          some ({ s with virtioIrqs := Function.update s.virtioIrqs c (some irqs) }.goto p
            (.lookup (.inject results)), .tau)
        else if irqs.length + 1 < MAX_DEVS then
          some (({ s with virtioIrqs := Function.update s.virtioIrqs c
                            (some (irqs ++ [irq])) }.send c .VIRTIO_INJECT_IRQ).goto p
            (.lookup (.inject results)), .tau)
        else some (s.goto p (.panicked .tooManyIrqs []), .tau)
    else none
  | .signal zoneId =>
    match s.findZone zoneId with
    | none => none
    | some none => some (s.goto p .lower, .failed .ENOENT)
    | some (some z) => some (s.goto p (.lookup (.signalSend z)), .tau)
  | .signalSend z =>
    if s.writer z = none then
      -- CPU 2 gets the event, whatever the zone
      if s.powerOn 2 then some ((s.send 2 .SHM_SIGNAL).goto p .lower, .tau)
      else some (s.goto p .lower, .failed .ENODEV)
    else none

/-! ## The system -/

/-- The next step of a CPU in a handler; one that waits for a lock has none. -/
def handlerStep (s : Machine) (p : Nat) : Option (Machine × Outcome) :=
  match s.pc p with
  | .event pc => eventStep s p pc
  | .trap pc => trapStep s p pc
  | .start pc => startStep s p pc
  | .stop pc => stopStep s p pc
  | .off pc => offStep s p pc
  | .lookup pc => lookupStep s p pc
  | .lower | .systemOff | .panicked _ _ => none

/-- What happens: a CPU takes an interrupt, its guest traps, or it takes the next step of a
handler. -/
inductive Act where
  | irq
  /-- A data abort or another call, with the looks at zones that its handling takes. -/
  | trap (uses : List ZoneUse)
  | hvc (call : RootCall)
  | cpuOn (target entry : Nat)
  | systemOff
  | step
  deriving DecidableEq

/-- `this_zone()` by CPU `p`, on the way to a place with the clone. -/
def Machine.withThisZone (s : Machine) (p : Nat) (next : Nat → Pc) : Machine :=
  match s.zone p with
  | some z => s.goto p (next z)
  | none => s.goto p (.panicked .noZone [])

/-- A guest traps; the parking loop only takes interrupts. -/
def trapEntry (s : Machine) (p : Nat) : Act → Option Machine
  | .irq => some (s.goto p (.event .check))
  | .step => none
  | .trap uses => if (s.stage2 p).isSome then some (s.goto p (.trap (.emulate uses))) else none
  | .hvc call =>
    if (s.stage2 p).isSome then
      some (s.withThisZone p fun z => .trap (.rootCheck (.list z) call))
    else none
  | .cpuOn target entry =>
    if (s.stage2 p).isSome then some (s.goto p (.trap (.cpuOnLock target entry))) else none
  | .systemOff =>
    if (s.stage2 p).isSome then some (s.withThisZone p fun z => .off (.read z)) else none

/-- A step of a CPU. -/
def lifeStep (s : Machine) (p : Nat) (act : Act) : Option (Machine × Outcome) :=
  if p < s.ncpu then
    match s.pc p with
    | .lower => (trapEntry s p act).map fun s => (s, .tau)
    | _ => if act = .step then handlerStep s p else none
  else none

/-- The state after boot: the root zone is listed and owns its CPUs, no other CPU has a zone, and
every CPU runs the root zone or is parked. -/
structure Machine.Initial (s : Machine) : Prop where
  list : ∃ root, s.zoneList = [root] ∧ root < s.nextZone ∧ (s.zones root).id = 0 ∧
    ∀ c, s.zone c = if (s.zones root).cpuSet.containsCpu c then some root else none
  pc : ∀ c, s.pc c = .lower
  stage2 : ∀ c, s.stage2 c = none ∨ s.stage2 c = s.zone c
  wakeup : ∀ c, .WAKEUP ∉ s.events c
  powerOn : ∀ c, s.powerOn c = (s.stage2 c).isSome
  ctrlLock : ∀ c, s.ctrlLock c = none
  writer : ∀ z, s.writer z = none
  zoneListLock : s.zoneListLock = none
  virtioIrqsLock : s.virtioIrqsLock = none

/-- The hypervisor with all interleavings; a step shows who moves, and what a call returns. -/
def lifecycle : TransitionSystem Machine (Nat × Act × Outcome) where
  init := Machine.Initial
  step s e s' := lifeStep s e.1 e.2.1 = some (s', e.2.2)

/-- Take steps in the given order, each of which passes a check. -/
def lifeRun (check : Machine → Nat → Act → Bool) : List (Nat × Act) →
    List (Nat × Act × Outcome) × Machine → Option (List (Nat × Act × Outcome) × Machine)
  | [], r => some r
  | (p, act) :: acts, (h, s) =>
    if check s p act then
      match lifeStep s p act with
      | some (s', o) => lifeRun check acts ((p, act, o) :: h, s')
      | none => none
    else none

theorem run_of_lifeRun {check : Machine → Nat → Act → Bool} {acts : List (Nat × Act)}
    {h h' : List (Nat × Act × Outcome)} {s s' : Machine} (r : lifecycle.Run h s)
    (hr : lifeRun check acts (h, s) = some (h', s')) : lifecycle.Run h' s' := by
  induction acts generalizing h s with
  | nil =>
    cases hr
    exact r
  | cons a acts ih =>
    obtain ⟨p, act⟩ := a
    rw [lifeRun] at hr
    split at hr
    · split at hr
      · next s₁ o hs => exact ih (.next (e := (p, act, o)) r hs) hr
      · cases hr
    · cases hr

/-! ## A machine -/

/-- Four CPUs after boot. The root zone has CPUs 0 and 1 and runs on them; CPUs 2 and 3 are
parked. -/
def bootMachine : Machine where
  ncpu := 4
  zone c := if (CpuSet.mk 4 0b11).containsCpu c then some 0 else none
  cpuOnEntry _ := INVALID_ADDRESS
  dtbIpa _ := INVALID_ADDRESS
  bootCpu c := c == 0
  powerOn c := (CpuSet.mk 4 0b11).containsCpu c
  ctrlLock _ := none
  elr _ := 0
  stage2 c := if (CpuSet.mk 4 0b11).containsCpu c then some 0 else none
  pc _ := .lower
  events _ := []
  zones _ := ⟨0, ⟨4, 0b11⟩⟩
  nextZone := 1
  writer _ := none
  zoneList := [0]
  zoneListLock := none
  virtioIrqsLock := none
  virtioIrqs _ := none

theorem bootMachine_initial : bootMachine.Initial := by
  refine ⟨⟨0, rfl, Nat.one_pos, rfl, fun _ => rfl⟩, fun _ => rfl, fun _ => .inr rfl, nofun, ?_,
    fun _ => rfl, fun _ => rfl, rfl, rfl⟩
  intro c
  simp only [bootMachine]
  split <;> simp_all

/-- A configuration of a zone without memory and devices. -/
def bareConfig (id : Nat) (cpus : List Nat) : HvZoneConfig where
  zoneId := id
  cpus := cpus.foldl (fun bits c => bits ||| BitVec.ofNat 64 (2 ^ c)) 0
  numMemoryRegions := 0
  memoryRegions := Vector.replicate _ ⟨0, 0, 0, 0⟩
  numIvcConfigs := 0
  ivcConfigs := Vector.replicate _ ⟨0, 0, 0, 0, 0, 0, 0, 0⟩
  entryPoint := 0x80000000
  dtbLoadPaddr := 0
  numPciDevs := 0
  allocPciDevs := Vector.replicate _ 0

/-- CPU `p` starts a zone and is not disturbed: two steps for each CPU of the zone, and the rest. -/
def startActs (p id : Nat) (cpus : List Nat) : List (Nat × Act) :=
  (p, .hvc (.start (bareConfig id cpus) true)) ::
    List.replicate (2 * cpus.length + 9) (p, .step)

/-- CPU `p` takes an interrupt, runs its zone from the wake-up on, or parks by the shutdown. -/
def wakeActs (p : Nat) : List (Nat × Act) := (p, .irq) :: List.replicate 5 (p, .step)

/-- A CPU takes its event and parks. -/
def parkActs (p : Nat) : List (Nat × Act) := (p, .irq) :: List.replicate 4 (p, .step)

/-- The guest of CPU `p` calls `CPU_ON` for a CPU. -/
def cpuOnActs (p target : Nat) : List (Nat × Act) :=
  (p, .cpuOn target 0x80000000) :: List.replicate 3 (p, .step)

/-- CPU `p` powers off a zone with other CPUs, up to the place where it parks. -/
def offActs (p : Nat) (others : List Nat) : List (Nat × Act) :=
  (p, .systemOff) :: List.replicate (2 * others.length + 12) (p, .step)

/-- CPU `p` shuts a zone down whose CPUs are off: seven steps for each CPU, and the rest. -/
def stopActs (p id : Nat) (cpus : List Nat) : List (Nat × Act) :=
  (p, .hvc (.shutdown id)) :: List.replicate (7 * cpus.length + 11) (p, .step)

end Hvisor
