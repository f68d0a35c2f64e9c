import Hvisor.Cpu
import Hvisor.Lib.RingBuffer
import Hvisor.Memory.Mmio

/-!
# The virtio trampoline

The requests that guests outside the root zone make of the virtio devices of the root zone, from
`device/virtio_trampoline.rs`. CPUs run `mmio_virtio_handler` one step at a time, over the region
that they share with the backend in the root zone: a ring of requests, and for each CPU a counter of
the answers and the latest value. The steps of the CPUs and of the backend interleave in any order.
A step is an access of the shared region, or an operation on the lock.

## Main definitions

* `HvisorDeviceReq`, `VirtioBridge`: the requests and the shared region
* `VirtioPc`: where a CPU is in the handler, with its local variables
* `Backend`, `Ticket`: where the backend is, and how far each request is
* `Bridge`, `cpuStep`, `backendStep`: the state and its steps
* `virtio`: the transition system
-/

namespace Hvisor

/-! ## The shared region -/

/-- The offset of the register that notifies a queue. -/
def QUEUE_NOTIFY : UInt64 := 0x50
/-- The slots of the list of requests. -/
def MAX_REQ : Nat := 32
/-- The CPUs that the shared region has room for. -/
def MAX_CPUS : Nat := 32

/-- Hvisor device requests. -/
structure HvisorDeviceReq where
  srcCpu : UInt64
  address : UInt64
  size : UInt64
  value : UInt64
  srcZone : UInt32
  isWrite : UInt8
  needInterrupt : UInt8
  padding : UInt16
  deriving DecidableEq

/-- A request. -/
def HvisorDeviceReq.new (srcCpu address size value : UInt64) (srcZone : UInt32) (isWrite : Bool)
    (needInterrupt : UInt8) : HvisorDeviceReq where
  srcCpu := srcCpu
  address := address
  size := size
  value := value
  srcZone := srcZone
  isWrite := if isWrite then 1 else 0
  needInterrupt := needInterrupt
  padding := 0

/-- The region shared with the root zone. -/
structure VirtioBridge where
  reqFront : UInt32
  reqRear : UInt32
  reqList : Vector HvisorDeviceReq MAX_REQ
  cfgFlags : Vector UInt64 MAX_CPUS
  cfgValues : Vector UInt64 MAX_CPUS
  needWakeup : UInt8

namespace VirtioBridge

/-- The list of requests is full. -/
def isReqListFull (self : VirtioBridge) : Bool :=
  ((self.reqRear + 1) &&& (UInt32.ofNat MAX_REQ - 1)) == self.reqFront

/-- The slot that the next request goes to. -/
def rearSlot (self : VirtioBridge) : Nat := (self.reqRear % UInt32.ofNat MAX_REQ).toNat

theorem rearSlot_lt (self : VirtioBridge) : self.rearSlot < MAX_REQ := by
  simp only [rearSlot, UInt32.toNat_mod]
  exact Nat.mod_lt _ (by decide)

/-- The first half of `push_req`, up to the fence. -/
def writeReq (self : VirtioBridge) (req : HvisorDeviceReq) : VirtioBridge :=
  { self with reqList := self.reqList.set self.rearSlot req self.rearSlot_lt }

/-- The second half of `push_req`. -/
def advanceRear (self : VirtioBridge) : VirtioBridge :=
  { self with reqRear := (self.reqRear + 1) % UInt32.ofNat MAX_REQ }

/-- The backend moves over a request that it read. -/
def advanceFront (self : VirtioBridge) : VirtioBridge :=
  { self with reqFront := (self.reqFront + 1) % UInt32.ofNat MAX_REQ }

/-- The backend writes the value that it answers a CPU. -/
def writeCfgValue (self : VirtioBridge) (cpu : Nat) (v : UInt64) : VirtioBridge :=
  { self with cfgValues := self.cfgValues.setIfInBounds cpu v }

/-- The backend counts an answer to a CPU. -/
def bumpCfgFlag (self : VirtioBridge) (cpu : Nat) : VirtioBridge :=
  { self with cfgFlags := match self.cfgFlags[cpu]? with
      | some flag => self.cfgFlags.setIfInBounds cpu (flag + 1)
      | none => self.cfgFlags }

end VirtioBridge

/-! ## CPUs -/

/-- Where a CPU is, with the local variables of `mmio_virtio_handler`. -/
inductive VirtioPc where
  /-- Runs its guest. -/
  | guest
  /-- Is about to take the lock, the first time or again. -/
  | locking (mmio : MMIOAccess) (needInterrupt : UInt8)
  | testing (mmio : MMIOAccess) (needInterrupt : UInt8)
  /-- Found the list full and gives the lock back. -/
  | dropping (mmio : MMIOAccess) (needInterrupt : UInt8)
  | sampling (mmio : MMIOAccess) (needInterrupt : UInt8)
  | writing (mmio : MMIOAccess) (needInterrupt : UInt8) (hreq : HvisorDeviceReq)
    (oldCfgFlag : UInt64)
  | advancing (mmio : MMIOAccess) (needInterrupt : UInt8) (hreq : HvisorDeviceReq)
      (oldCfgFlag : UInt64)
  | waking (mmio : MMIOAccess) (needInterrupt : UInt8) (oldCfgFlag : UInt64)
  | unlocking (mmio : MMIOAccess) (needInterrupt : UInt8) (oldCfgFlag : UInt64)
  | waiting (mmio : MMIOAccess) (oldCfgFlag : UInt64) (count : Nat)
  | loading (mmio : MMIOAccess)
  | returning (mmio : MMIOAccess)
  /-- Holds the lock in the handler of another call, which leaves requests and answers alone. -/
  | finishing
  /-- Is stopped by a panic of the hypervisor. -/
  | panicked

/-! ## The backend -/

/-- How far the backend is with taking requests. -/
inductive Phase where
  | idle
  /-- Saw that the indices differ. -/
  | ready
  /-- Read a request and is about to move over it. -/
  | got (req : HvisorDeviceReq)

/-- How far a request is, by its place in the order of reading. -/
inductive Ticket where
  | unread
  | taken (req : HvisorDeviceReq)
  | written (req : HvisorDeviceReq) (v : UInt64)
  | answered (req : HvisorDeviceReq) (v : UInt64)
  /-- Is a notification, which gets no answer. -/
  | ignored (req : HvisorDeviceReq)

/-- What the backend keeps. -/
structure Backend where
  phase : Phase
  /-- How many requests were read. -/
  count : Nat
  tickets : Nat → Ticket

/-! ## Steps -/

/-- The shared region and its lock, the CPUs, their event queues and the backend. -/
structure Bridge where
  region : VirtioBridge
  lock : Option Nat
  pc : Nat → VirtioPc
  events : EventQueues
  backend : Backend

/-- What a run shows of its steps. -/
inductive BridgeEvent where
  | call (cpu : Nat) (mmio : MMIOAccess) (base : UInt64)
  | push (cpu : Nat) (req : HvisorDeviceReq)
  | read (req : HvisorDeviceReq)
  | answer (no : Nat) (v : UInt64)
  | ret (cpu : Nat) (mmio : MMIOAccess)
  | tau
  deriving DecidableEq

/-- What stays the same: the zone of each CPU, and the CPUs of the root zone. -/
structure Platform where
  zoneId : Nat → UInt32
  rootCpuSet : CpuSet

namespace Bridge

/-- The CPU goes on at a place. -/
def goto (s : Bridge) (cpu : Nat) (pc : VirtioPc) : Bridge :=
  { s with pc := Function.update s.pc cpu pc }

@[simp] theorem goto_region (s : Bridge) (cpu : Nat) (pc : VirtioPc) :
    (s.goto cpu pc).region = s.region :=
  rfl

@[simp] theorem goto_lock (s : Bridge) (cpu : Nat) (pc : VirtioPc) :
    (s.goto cpu pc).lock = s.lock := rfl

@[simp] theorem goto_backend (s : Bridge) (cpu : Nat) (pc : VirtioPc) :
    (s.goto cpu pc).backend = s.backend := rfl

@[simp] theorem goto_pc_self (s : Bridge) (cpu : Nat) (pc : VirtioPc) :
    (s.goto cpu pc).pc cpu = pc := by
  simp [goto]

theorem goto_pc_of_ne (s : Bridge) {cpu c : Nat} (pc : VirtioPc) (h : c ≠ cpu) :
    (s.goto cpu pc).pc c = s.pc c := by
  simp [goto, h]

end Bridge

/-- The request of an access, whose address is absolute by now. -/
def Platform.request (P : Platform) (cpu : Nat) (mmio : MMIOAccess) (needInterrupt : UInt8) :
    HvisorDeviceReq :=
  HvisorDeviceReq.new (UInt64.ofNat cpu) mmio.address mmio.size mmio.value (P.zoneId cpu)
    mmio.isWrite needInterrupt

/-- A guest access enters `mmio_virtio_handler`. -/
def callStep (s : Bridge) (cpu : Nat) (mmio : MMIOAccess) (base : UInt64) :
    Option (Bridge × BridgeEvent) :=
  match s.pc cpu with
  | .guest =>
    let needInterrupt := if mmio.address == QUEUE_NOTIFY then 1 else 0
    some (s.goto cpu (.locking { mmio with address := mmio.address + base } needInterrupt),
      .call cpu mmio base)
  | _ => none

/-- A CPU takes the lock in the handler of another call. -/
def finishStep (s : Bridge) (cpu : Nat) : Option (Bridge × BridgeEvent) :=
  match s.pc cpu, s.lock with
  | .guest, none => some ({ s with lock := some cpu }.goto cpu .finishing, .tau)
  | _, _ => none

/-- The next step of a CPU in the handler; a CPU that waits for the lock may have none. -/
def cpuStep (P : Platform) (s : Bridge) (cpu : Nat) : Option (Bridge × BridgeEvent) :=
  match s.pc cpu with
  | .guest => none
  | .panicked => none
  | .locking mmio needInterrupt =>
    match s.lock with
    | none => some ({ s with lock := some cpu }.goto cpu (.testing mmio needInterrupt), .tau)
    | some _ => none
  | .testing mmio needInterrupt =>
    if s.region.isReqListFull then
      -- the lock goes back, so that the root zone can take it and finish requests
      some (s.goto cpu (.dropping mmio needInterrupt), .tau)
    else
      some (s.goto cpu (.sampling mmio needInterrupt), .tau)
  | .dropping mmio needInterrupt =>
    some ({ s with lock := none }.goto cpu (.locking mmio needInterrupt), .tau)
  | .sampling mmio needInterrupt =>
    -- the counter is read before the request is visible
    match s.region.cfgFlags[cpu]? with
    | some oldCfgFlag =>
      let hreq := P.request cpu mmio needInterrupt
      some (s.goto cpu (.writing mmio needInterrupt hreq oldCfgFlag), .tau)
    | none => some (s.goto cpu .panicked, .tau)
  | .writing mmio needInterrupt hreq oldCfgFlag =>
    some ({ s with region := s.region.writeReq hreq }.goto cpu
      (.advancing mmio needInterrupt hreq oldCfgFlag), .tau)
  | .advancing mmio needInterrupt hreq oldCfgFlag =>
    some ({ s with region := s.region.advanceRear }.goto cpu
      (.waking mmio needInterrupt oldCfgFlag), .push cpu hreq)
  | .waking mmio needInterrupt oldCfgFlag =>
    if s.region.needWakeup == 1 then
      match P.rootCpuSet.firstCpu with
      | some rootCpu =>
        some ({ s with events := addEvent s.events rootCpu .WAKEUP_VIRTIO_DEVICE }.goto cpu
          (.unlocking mmio needInterrupt oldCfgFlag), .tau)
      | none => some (s.goto cpu .panicked, .tau)
    else
      some (s.goto cpu (.unlocking mmio needInterrupt oldCfgFlag), .tau)
  | .unlocking mmio needInterrupt oldCfgFlag =>
    if needInterrupt == 0 then
      some ({ s with lock := none }.goto cpu (.waiting mmio oldCfgFlag 0), .tau)
    else
      some ({ s with lock := none }.goto cpu (.returning mmio), .tau)
  | .waiting mmio oldCfgFlag count =>
    match s.region.cfgFlags[cpu]? with
    | some flag =>
      if flag == oldCfgFlag then
        -- a slow backend is reported, and waited for
        let count := if count + 1 = MAX_WAIT_TIMES * 10 then 0 else count + 1
        some (s.goto cpu (.waiting mmio oldCfgFlag count), .tau)
      else if !mmio.isWrite then
        some (s.goto cpu (.loading mmio), .tau)
      else
        some (s.goto cpu (.returning mmio), .tau)
    | none => some (s.goto cpu .panicked, .tau)
  | .loading mmio =>
    match s.region.cfgValues[cpu]? with
    | some value => some (s.goto cpu (.returning { mmio with value := value }), .tau)
    | none => some (s.goto cpu .panicked, .tau)
  | .returning mmio => some (s.goto cpu .guest, .ret cpu mmio)
  | .finishing => some ({ s with lock := none }.goto cpu .guest, .tau)

/-- What the backend does next: it takes the requests one by one, answers those it took that are no
notifications in any order, in two steps each, and may ask for a wakeup. -/
inductive BackendOp where
  | check
  | read
  | advance
  | writeValue (no : Nat) (v : UInt64)
  | bumpFlag (no : Nat)
  | needWakeup (v : UInt8)
  deriving DecidableEq

/-- What is known of a request changes. -/
def Backend.setTicket (b : Backend) (no : Nat) (t : Ticket) : Backend :=
  { b with tickets := Function.update b.tickets no t }

/-- The ticket of a request that was read. -/
def Ticket.ofReq (req : HvisorDeviceReq) : Ticket :=
  if req.needInterrupt == 0 then .taken req else .ignored req

/-- A step of the backend. -/
def backendStep (s : Bridge) (op : BackendOp) : Option (Bridge × BridgeEvent) :=
  let b := s.backend
  match op with
  | .check =>
    match b.phase with
    | .idle =>
      if s.region.reqFront ≠ s.region.reqRear then
        some ({ s with backend := { b with phase := .ready } }, .tau)
      else none
    | _ => none
  | .read =>
    match b.phase, s.region.reqList[s.region.reqFront.toNat]? with
    | .ready, some req =>
      let b := b.setTicket b.count (.ofReq req)
      some ({ s with backend := { b with phase := .got req, count := b.count + 1 } }, .read req)
    | _, _ => none
  | .advance =>
    match b.phase with
    | .got _ =>
      some ({ s with region := s.region.advanceFront, backend := { b with phase := .idle } }, .tau)
    | _ => none
  | .writeValue no v =>
    match b.tickets no with
    | .taken req =>
      some ({ s with region := s.region.writeCfgValue req.srcCpu.toNat v,
                     backend := b.setTicket no (.written req v) }, .tau)
    | _ => none
  | .bumpFlag no =>
    match b.tickets no with
    | .written req v =>
      some ({ s with region := s.region.bumpCfgFlag req.srcCpu.toNat,
                     backend := b.setTicket no (.answered req v) }, .answer no v)
    | _ => none
  | .needWakeup v => some ({ s with region := { s.region with needWakeup := v } }, .tau)

/-- Who moves. -/
inductive BridgeAction where
  | call (cpu : Nat) (mmio : MMIOAccess) (base : UInt64)
  | finish (cpu : Nat)
  | cpu (cpu : Nat)
  | backend (op : BackendOp)
  deriving DecidableEq

/-- A step of the hypervisor or of the backend. -/
def bridgeStep (P : Platform) (s : Bridge) : BridgeAction → Option (Bridge × BridgeEvent)
  | .call cpu mmio base => callStep s cpu mmio base
  | .finish cpu => finishStep s cpu
  | .cpu cpu => cpuStep P s cpu
  | .backend op => backendStep s op

/-- At the start the ring is empty, and no CPU and no request is under way. -/
structure Bridge.Initial (s : Bridge) : Prop where
  front : s.region.reqFront.toNat < MAX_REQ
  rear : s.region.reqRear = s.region.reqFront
  lock : s.lock = none
  pc : ∀ cpu, s.pc cpu = .guest
  phase : s.backend.phase = .idle
  count : s.backend.count = 0
  tickets : ∀ no, s.backend.tickets no = .unread

/-- The trampoline with all interleavings. -/
def virtio (P : Platform) : TransitionSystem Bridge BridgeEvent where
  init := Bridge.Initial
  step s e s' := ∃ act, bridgeStep P s act = some (s', e)

/-- Take steps in the given order. -/
def bridgeRun (P : Platform) : List BridgeAction → List BridgeEvent × Bridge →
    Option (List BridgeEvent × Bridge)
  | [], r => some r
  | act :: acts, (h, s) =>
    match bridgeStep P s act with
    | some (s', e) => bridgeRun P acts (e :: h, s')
    | none => none

theorem virtio_run_of_bridgeRun {P : Platform} {acts : List BridgeAction} {h h' : List BridgeEvent}
    {s s' : Bridge} (r : (virtio P).Run h s) (hr : bridgeRun P acts (h, s) = some (h', s')) :
    (virtio P).Run h' s' := by
  induction acts generalizing h s with
  | nil =>
    cases hr
    exact r
  | cons act acts ih =>
    rw [bridgeRun] at hr
    split at hr
    · next s₁ e hs => exact ih (.next r ⟨act, hs⟩) hr
    · cases hr

end Hvisor
