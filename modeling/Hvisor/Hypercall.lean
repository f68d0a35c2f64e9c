import Hvisor.Config
import Hvisor.Cpu
import Hvisor.Memory.Stage2Space

/-!
# Hypercalls

The dispatch of `hypercall/mod.rs` and the handlers that a guest of any zone reaches. A handler
that stores through an address of the guest leaves the store in a log: the hypervisor runs on
physical addresses, so the address of a store is the physical one. The operations of the root zone
start with a check of the calling zone; what follows the check is a parameter.

## Main definitions

* `HyperCallCode`, `HyperCallCode.tryFrom`: the codes
* `HvState`: the zones, the per-CPU data and the tables that the handlers read, with the stores
* `RootCalls`, `hypercall`: the operations of the root zone, and the dispatch
* `Zone.Writable`, `Isolated`: a byte that a zone may write, and a call that writes such bytes only

## Main results

* `rootOnly_run`: a zone other than the root is turned away before anything happens
* `hypercall_isolated_iff`: when a hypercall stays within the memory of its zone
-/

namespace Hvisor

/-! ## Codes and data -/

/-- The hypercalls. -/
inductive HyperCallCode where
  | HvVirtioInit
  | HvVirtioInjectIrq
  | HvZoneStart
  | HvZoneShutdown
  | HvZoneList
  | HvClearInjectIrq
  | HvIvcInfo
  | HvConfigCheck
  | HvShmSignal
  deriving DecidableEq, Repr

/-- The code with a number. -/
def HyperCallCode.tryFrom : Nat → Option HyperCallCode
  | 0 => some .HvVirtioInit
  | 1 => some .HvVirtioInjectIrq
  | 2 => some .HvZoneStart
  | 3 => some .HvZoneShutdown
  | 4 => some .HvZoneList
  | 20 => some .HvClearInjectIrq
  | 5 => some .HvIvcInfo
  | 6 => some .HvConfigCheck
  | 10 => some .HvShmSignal
  | _ => none

/-- The version of the configuration that the hypervisor has. -/
def CONFIG_MAGIC_VERSION : Nat := 0x1
/-- The bytes of a name. -/
def CONFIG_NAME_MAXLEN : Nat := 32

/-- The ivc info that one zone should first accquire. -/
structure IvcInfo where
  len : Nat
  ivcCtIpas : Vector Nat CONFIG_MAX_IVC_CONGIGS
  ivcShmemIpas : Vector Nat CONFIG_MAX_IVC_CONGIGS
  ivcIds : Vector Nat CONFIG_MAX_IVC_CONGIGS
  ivcIrqs : Vector Nat CONFIG_MAX_IVC_CONGIGS
  deriving DecidableEq

/-- What `hv_zone_list` tells of a zone. -/
structure ZoneInfo where
  zoneId : Nat
  cpus : BitVec 64
  name : Vector UInt8 CONFIG_NAME_MAXLEN
  isErr : Bool
  deriving DecidableEq

/-- A value that a handler stores through an address of the guest. -/
inductive Stored where
  | u64 (v : Nat)
  | ivcInfo (info : IvcInfo)
  | zoneInfo (info : ZoneInfo)
  deriving DecidableEq

/-- The bytes of a value: `IvcInfo` is packed, and `ZoneInfo` has the layout of C, with the `u64`
at offset 8 and padding at the end. -/
def Stored.size : Stored → Nat
  | .u64 _ => 8
  | .ivcInfo _ => 8 + 8 * CONFIG_MAX_IVC_CONGIGS + 8 * CONFIG_MAX_IVC_CONGIGS +
      4 * CONFIG_MAX_IVC_CONGIGS + 4 * CONFIG_MAX_IVC_CONGIGS
  | .zoneInfo _ => 8 + 8 + CONFIG_NAME_MAXLEN + 8

/-- A store of a value at a physical address. -/
structure Store where
  addr : Nat
  val : Stored
  deriving DecidableEq

/-- The store writes the byte at the address. -/
def Store.Writes (w : Store) (pa : Nat) : Prop := w.addr ≤ pa ∧ pa < w.addr + w.val.size

/-- A zone, as far as the handlers read it. -/
structure Zone where
  id : Nat
  name : Vector UInt8 CONFIG_NAME_MAXLEN
  cpuSet : CpuSet
  gpm : MemorySet PageTableEntry
  isErr : Bool

/-- The state that the handlers work on. A zone is shared under a reference, and `zones` is what
the references lead to. -/
structure HvState where
  zones : Nat → Zone
  zoneList : List Nat
  cpuZone : Nat → Option Nat
  ncpu : Nat
  powerOn : Nat → Bool
  ivcInfos : SortedMap Nat IvcInfo
  events : EventQueues
  stores : List Store

/-- The computations of a handler. -/
abbrev HyperCallM := EStateM (Fault HvError) HvState

/-! ## Handlers -/

/-- `unwrap` of an option. -/
def unwrapOption {α : Type} : Option α → HyperCallM α
  | some a => return a
  | none => throw .panic

/-- The zone of the CPU. -/
def thisZone (cpu : Nat) : HyperCallM Nat := do unwrapOption ((← get).cpuZone cpu)

/-- The first zone of the list. -/
def rootZone : HyperCallM Nat := do unwrapOption (← get).zoneList.head?

/-- The CPU is one of the root zone. -/
def isThisRootZone (cpu : Nat) : HyperCallM Bool := do
  let this ← thisZone cpu
  let root ← rootZone
  return this == root

/-- The id of the zone of the CPU. -/
def thisZoneId (cpu : Nat) : HyperCallM Nat := do
  let zone ← thisZone cpu
  return ((← get).zones zone).id

/-- Store a value through an address of the guest. -/
def store (addr : Nat) (val : Stored) : HyperCallM Unit :=
  modify fun s => { s with stores := s.stores ++ [⟨addr, val⟩] }

/-- What there is to tell of all zones. -/
def allZonesInfo (s : HvState) : List ZoneInfo :=
  s.zoneList.map fun z =>
    let zone := s.zones z
    ⟨zone.id % 2 ^ 32, zone.cpuSet.bitmap, zone.name, zone.isErr⟩

/-- `hv_ivc_info`: the zone is told of its shared memories. -/
def hvIvcInfo (cpu ivcInfoIpa : Nat) : HyperCallM Nat := do
  let zoneId ← thisZoneId cpu
  let zone ← thisZone cpu
  -- ipa -> hpa -> hva
  match ((← get).zones zone).gpm.pageTableQuery ivcInfoIpa with
  | .error _ => throw .panic
  | .ok (hpa, _, _) =>
    match (← get).ivcInfos.get? zoneId with
    | some zoneIvcInfo =>
      store hpa (.ivcInfo zoneIvcInfo)
      return 0
    | none => throw (hvErrMsg .ENODEV "Zone {zone_id} has no ivc config!")

/-- `hv_zone_config_check`: the version is written to the address. -/
def hvZoneConfigCheck (magicVersion : Nat) : HyperCallM Nat := do
  store magicVersion (.u64 CONFIG_MAGIC_VERSION)
  return 0

/-- Store zone infos one after the other. -/
def storeZoneInfos (zones : Nat) : List ZoneInfo → HyperCallM Unit
  | [] => return ()
  | info :: infos => do
    store zones (.zoneInfo info)
    storeZoneInfos (zones + (Stored.zoneInfo info).size) infos

/-- `hv_zone_list`: the zones are written to the array, as many as fit. -/
def hvZoneList (zones cnt : Nat) : HyperCallM Nat := do
  if zones = 0 then
    throw (hvErrMsg .EINVAL "hv_zone_list: zones is null")
  let zonesInfo := allZonesInfo (← get)
  storeZoneInfos zones (zonesInfo.take cnt)
  return min cnt zonesInfo.length

/-- Ask the running CPUs from 1 on to clear an injected interrupt. -/
def hvClearInjectIrq : HyperCallM Nat := do
  modify fun s =>
    { s with
      events := ((List.range s.ncpu).filter fun i => decide (1 ≤ i) && s.powerOn i).foldl
        (fun q i => addEvent q i .CLEAR_INJECT_IRQ) s.events }
  return 0

/-- What the operations of the root zone do after the check of the calling zone. -/
structure RootCalls where
  virtioInit : Nat → HyperCallM Nat
  virtioInjectIrq : HyperCallM Nat
  zoneStart : Nat → Nat → HyperCallM Nat
  zoneShutdown : Nat → HyperCallM Nat
  shmSignal : Nat → Nat → HyperCallM Nat

/-- An operation of the root zone, with the message for another zone. -/
def rootOnly (cpu : Nat) (msg : String) (op : HyperCallM Nat) : HyperCallM Nat := do
  if !(← isThisRootZone cpu) then
    throw (hvErrMsg .EPERM msg)
  op

section RootOnly

variable (root : RootCalls) (cpu : Nat)

/-- `hv_virtio_init`, for the root zone only. -/
def hvVirtioInit (sharedRegionAddr : Nat) : HyperCallM Nat :=
  rootOnly cpu "Init virtio over non-root zones: unsupported!" (root.virtioInit sharedRegionAddr)

/-- `hv_virtio_inject_irq`, for the root zone only. -/
def hvVirtioInjectIrq : HyperCallM Nat :=
  rootOnly cpu "Virtio send irq operation over non-root zones: unsupported!" root.virtioInjectIrq

/-- `hv_zone_start`, for the root zone only. -/
def hvZoneStart (config configSize : Nat) : HyperCallM Nat :=
  rootOnly cpu "Start zone operation over non-root zones: unsupported!"
    (root.zoneStart config configSize)

/-- `hv_zone_shutdown`, for the root zone only. -/
def hvZoneShutdown (zoneId : Nat) : HyperCallM Nat :=
  rootOnly cpu "Shutdown zone operation over non-root zones: unsupported!"
    (root.zoneShutdown zoneId)

/-- `hv_shm_signal`, for the root zone only. -/
def hvShmSignal (targetZoneId serviceId : Nat) : HyperCallM Nat :=
  rootOnly cpu "Only root zone can send shm signals" (root.shmSignal targetZoneId serviceId)

/-- **The hypercall** with a code and two arguments, made on a CPU. -/
def hypercall (code arg0 arg1 : Nat) : HyperCallM Nat :=
  match HyperCallCode.tryFrom code with
  | none => return 0
  | some code =>
    match code with
    | .HvVirtioInit => hvVirtioInit root cpu arg0
    | .HvVirtioInjectIrq => hvVirtioInjectIrq root cpu
    | .HvZoneStart => hvZoneStart root cpu arg0 arg1
    | .HvZoneShutdown => hvZoneShutdown root cpu arg0
    | .HvZoneList => hvZoneList arg0 arg1
    | .HvClearInjectIrq => hvClearInjectIrq
    | .HvIvcInfo => hvIvcInfo cpu arg0
    | .HvConfigCheck => hvZoneConfigCheck arg0
    | .HvShmSignal => hvShmSignal root cpu arg0 arg1

end RootOnly

/-! ## Isolation -/

/-- The stage-2 map of the zone maps the byte with the `WRITE` flag. -/
def Zone.Writable (zone : Zone) (pa : Nat) : Prop :=
  ∃ ipa < usizeSize, ∃ fl ps, zone.gpm.pageTableQuery ipa = .ok (pa, fl, ps) ∧
    fl.contains MemFlags.WRITE = true

/-- The stores that a call made. -/
def newStores (s : HvState) (res : EStateM.Result (Fault HvError) HvState Nat) : List Store :=
  (endState res).stores.drop s.stores.length

/-- **The stores write bytes only that the zone may write.** -/
def Isolated (zone : Zone) (stores : List Store) : Prop :=
  ∀ w ∈ stores, ∀ pa, w.Writes pa → zone.Writable pa

/-- The zone may write the bytes from `addr` on. -/
def Zone.WritableRange (zone : Zone) (addr size : Nat) : Prop :=
  ∀ pa, addr ≤ pa → pa < addr + size → zone.Writable pa

/-- The condition on the arguments under which a call stays within the memory of the zone. -/
def StaysWithin (s : HvState) (zone : Zone) (code arg0 arg1 : Nat) : Prop :=
  match HyperCallCode.tryFrom code with
  | some .HvConfigCheck => zone.WritableRange arg0 8
  | some .HvZoneList => arg0 ≠ 0 → zone.WritableRange arg0 (56 * min arg1 s.zoneList.length)
  | some .HvIvcInfo => ∀ hpa fl ps, zone.gpm.pageTableQuery arg0 = .ok (hpa, fl, ps) →
      (s.ivcInfos.get? zone.id).isSome = true → zone.WritableRange hpa 56
  | _ => True

variable {s : HvState} {cpu z : Nat} {zone : Zone}

theorem isolated_nil : Isolated zone [] := by simp [Isolated]

theorem isolated_singleton (addr : Nat) (val : Stored) :
    Isolated zone [⟨addr, val⟩] ↔ zone.WritableRange addr val.size := by
  simp only [Isolated, List.mem_singleton, forall_eq, Store.Writes, Zone.WritableRange, and_imp]

theorem newStores_append (stores : List Store)
    {res : EStateM.Result (Fault HvError) HvState Nat}
    (h : (endState res).stores = s.stores ++ stores) : newStores s res = stores := by
  rw [newStores, h, List.drop_left]

theorem thisZone_run (hz : s.cpuZone cpu = some z) : (thisZone cpu).run s = .ok z s := by
  simp only [thisZone, EStateM.run_bind, EStateM.run_get, hz, unwrapOption, EStateM.run_pure]

theorem thisZoneId_run (hz : s.cpuZone cpu = some z) :
    (thisZoneId cpu).run s = .ok (s.zones z).id s := by
  simp only [thisZoneId, EStateM.run_bind, thisZone_run hz, EStateM.run_get, EStateM.run_pure]

/-- **A zone other than the root is turned away before anything happens.** -/
theorem rootOnly_run (hz : s.cpuZone cpu = some z) (hroot : s.zoneList.head? ≠ some z)
    (msg : String)
    (op : HyperCallM Nat) :
    (rootOnly cpu msg op).run s =
      .error (if s.zoneList = [] then .panic else hvErrMsg .EPERM msg) s := by
  simp only [rootOnly, isThisRootZone, EStateM.run_bind, thisZone_run hz, rootZone, EStateM.run_get]
  cases hl : s.zoneList with
  | nil => rfl
  | cons r l =>
    have hne : (z == r) = false := by
      simp only [hl, List.head?_cons, ne_eq, Option.some.injEq] at hroot
      simpa using fun he : z = r => hroot he.symm
    simp only [List.head?_cons, unwrapOption, EStateM.run_pure, hne]
    rfl

/-- The stores of a list of zone infos. -/
def zoneInfoStores (zones : Nat) : List ZoneInfo → List Store
  | [] => []
  | info :: infos => ⟨zones, .zoneInfo info⟩ :: zoneInfoStores (zones + 56) infos

theorem storeZoneInfos_run (zones : Nat) (infos : List ZoneInfo) (s : HvState) :
    (storeZoneInfos zones infos).run s =
      .ok () { s with stores := s.stores ++ zoneInfoStores zones infos } := by
  induction infos generalizing zones s with
  | nil => simp [storeZoneInfos, zoneInfoStores, EStateM.run_pure]
  | cons info infos ih =>
    simp only [storeZoneInfos, store, EStateM.run_bind, EStateM.run_modify, ih, zoneInfoStores,
      List.append_assoc, List.singleton_append]
    rfl

theorem isolated_zoneInfoStores (zones : Nat) (infos : List ZoneInfo) :
    Isolated zone (zoneInfoStores zones infos) ↔ zone.WritableRange zones (56 * infos.length) := by
  induction infos generalizing zones with
  | nil =>
    refine iff_of_true isolated_nil fun pa hlo hhi => ?_
    simp only [List.length_nil] at hhi
    omega
  | cons info infos ih =>
    have hcons : Isolated zone (zoneInfoStores zones (info :: infos)) ↔
        zone.WritableRange zones 56 ∧ Isolated zone (zoneInfoStores (zones + 56) infos) := by
      rw [show zone.WritableRange zones 56 ↔ Isolated zone [⟨zones, .zoneInfo info⟩] from
        (isolated_singleton zones (.zoneInfo info)).symm]
      simp only [Isolated, zoneInfoStores, List.forall_mem_cons, List.mem_singleton, forall_eq]
    rw [hcons, ih, List.length_cons]
    constructor
    · rintro ⟨h₁, h₂⟩ pa hlo hhi
      by_cases hpa : pa < zones + 56
      · exact h₁ pa hlo hpa
      · exact h₂ pa (by omega) (by omega)
    · exact fun h => ⟨fun pa hlo hhi => h pa hlo (by omega), fun pa hlo hhi =>
        h pa (by omega) (by omega)⟩

/-- **When a hypercall stays within the memory of its zone**: for a zone other than the root,
exactly where the bytes that the three handlers without a check of the zone store are its own. -/
theorem hypercall_isolated_iff (root : RootCalls) {s : HvState} {cpu z : Nat}
    (hz : s.cpuZone cpu = some z) (hroot : s.zoneList.head? ≠ some z) (code arg0 arg1 : Nat) :
    Isolated (s.zones z) (newStores s ((hypercall root cpu code arg0 arg1).run s)) ↔
      StaysWithin s (s.zones z) code arg0 arg1 := by
  -- a call of the root zone is turned away before it stores
  have hreject : ∀ msg op, Isolated (s.zones z) (newStores s ((rootOnly cpu msg op).run s)) := by
    intro msg op
    rw [rootOnly_run hz hroot, newStores_append [] (by simp)]
    exact isolated_nil
  unfold hypercall StaysWithin
  cases HyperCallCode.tryFrom code with
  | none =>
    rw [newStores_append [] (by simp [EStateM.run_pure])]
    exact iff_of_true isolated_nil trivial
  | some c =>
    cases c with
    | HvVirtioInit => exact iff_of_true (hreject _ _) trivial
    | HvVirtioInjectIrq => exact iff_of_true (hreject _ _) trivial
    | HvZoneStart => exact iff_of_true (hreject _ _) trivial
    | HvZoneShutdown => exact iff_of_true (hreject _ _) trivial
    | HvShmSignal => exact iff_of_true (hreject _ _) trivial
    | HvClearInjectIrq =>
      rw [newStores_append [] (by
        simp only [hvClearInjectIrq, EStateM.run_bind, EStateM.run_modify, EStateM.run_pure,
          endState_ok, List.append_nil])]
      exact iff_of_true isolated_nil trivial
    | HvConfigCheck =>
      rw [newStores_append [⟨arg0, .u64 CONFIG_MAGIC_VERSION⟩] (by
        simp only [hvZoneConfigCheck, store, EStateM.run_bind, EStateM.run_modify,
          EStateM.run_pure, endState_ok])]
      exact isolated_singleton _ _
    | HvZoneList =>
      by_cases h0 : arg0 = 0
      · rw [newStores_append [] (by
          simp only [hvZoneList, h0, if_true, EStateM.run_bind, EStateM.run_throw, endState_error,
            List.append_nil])]
        exact iff_of_true isolated_nil fun h => absurd h0 h
      · rw [newStores_append (zoneInfoStores arg0 ((allZonesInfo s).take arg1)) (by
          simp only [hvZoneList, h0, if_false, EStateM.run_bind, EStateM.run_get,
            storeZoneInfos_run, EStateM.run_pure, endState_ok])]
        rw [isolated_zoneInfoStores, List.length_take, allZonesInfo, List.length_map]
        exact ⟨fun h _ => h, fun h => h h0⟩
    | HvIvcInfo =>
      -- the store is made where the zone has the address mapped, at any rights, and has a table
      cases hq : (s.zones z).gpm.pageTableQuery arg0 with
      | error e =>
        rw [newStores_append [] (by
          simp only [hvIvcInfo, EStateM.run_bind, thisZoneId_run hz, thisZone_run hz,
            EStateM.run_get, hq, List.append_nil]
          rfl)]
        exact iff_of_true isolated_nil fun hpa fl ps h => by cases h
      | ok x =>
        obtain ⟨hpa, fl, ps⟩ := x
        cases hi : s.ivcInfos.get? (s.zones z).id with
        | none =>
          rw [newStores_append [] (by
            simp only [hvIvcInfo, EStateM.run_bind, thisZoneId_run hz, thisZone_run hz,
              EStateM.run_get, hq, hi, List.append_nil]
            rfl)]
          exact iff_of_true isolated_nil fun _ _ _ _ h => by cases h
        | some info =>
          rw [newStores_append [⟨hpa, .ivcInfo info⟩] (by
            simp only [hvIvcInfo, store, EStateM.run_bind, thisZoneId_run hz, thisZone_run hz,
              EStateM.run_get, hq, hi, EStateM.run_modify, EStateM.run_pure, endState_ok])]
          rw [isolated_singleton]
          constructor
          · intro h hpa' fl' ps' he _
            simp only [Except.ok.injEq, Prod.mk.injEq] at he
            exact he.1 ▸ h
          · exact fun h => h hpa fl ps rfl rfl

/-! ## Two zones -/

/-- A zone with the given map on one CPU. -/
def zoneWith (id : Nat) (gpm : MemorySet PageTableEntry) : Zone :=
  ⟨id, Vector.replicate _ 0, ⟨2, 1#64 <<< id⟩, gpm, false⟩

/-- The root zone on CPU 0, and another zone with the given map on CPU 1. -/
def twoZones (gpm : MemorySet PageTableEntry) : HvState where
  zones z := if z = 0 then zoneWith 0 (freshSet 0x20000 []) else zoneWith 1 gpm
  zoneList := [0, 1]
  cpuZone cpu := if cpu < 2 then some cpu else none
  ncpu := 2
  powerOn _ := true
  ivcInfos := .empty
  events _ := []
  stores := []

/-- Operations of the root zone that do nothing. -/
def noRootCalls : RootCalls where
  virtioInit _ := return 0
  virtioInjectIrq := return 0
  zoneStart _ _ := return 0
  zoneShutdown _ := return 0
  shmSignal _ _ := return 0

/-- A zone with memory may ask for the version of the configuration in its memory. -/
theorem hypercall_isolated_ram :
    Isolated (zoneWith 1 ramSet) (newStores (twoZones ramSet)
      ((hypercall noRootCalls 1 6 0x40000100 0).run (twoZones ramSet))) := by
  refine (@hypercall_isolated_iff noRootCalls (twoZones ramSet) 1 1 rfl (by decide) 6
    0x40000100 0).mpr fun pa hlo hhi => ?_
  have hmem : ramRegion.Mem pa := by
    simp only [MemoryRegion.Mem, ramRegion, MemoryRegion.newWithOffsetMapper]
    omega
  have hid : ramRegion.mapper.mapFn pa = pa := by
    have h := stage2Region_ram.mapFn_eq hmem
    rw [show ramRegion.mapper.mapFn ramRegion.start = ramRegion.start by decide] at h
    rw [h, Nat.add_sub_cancel' hmem.1]
  obtain ⟨ps, hq⟩ := query_of_mem history_ramSet.synced ramSet_has stage2Region_ram hmem
  rw [hid] at hq
  exact ⟨pa, by simp only [usizeSize]; omega, _, ps, hq, by decide⟩

/-- A zone without any memory has the hypervisor write to an address of its choice. -/
theorem hypercall_not_isolated :
    ¬ ∀ (root : RootCalls) (s : HvState) (cpu z : Nat), s.cpuZone cpu = some z →
      s.zoneList.head? ≠ some z → ∀ code arg0 arg1,
      Isolated (s.zones z) (newStores s ((hypercall root cpu code arg0 arg1).run s)) := by
  intro h
  have hiso := h noRootCalls (twoZones (freshSet 0x1000 someFrames.tail)) 1 1 rfl (by decide)
    6 0x80000000 0
  obtain ⟨ipa, -, fl, ps, hq, -⟩ := hiso ⟨0x80000000, .u64 1⟩ List.mem_cons_self 0x80000000
    ⟨le_rfl, by decide⟩
  have hnew := MemorySet.new_spec (frameAddr_of_lt (by decide)) (by decide)
    (new_freshSet 0x1000 someFrames.tail)
  have hn : (freshSet 0x1000 someFrames.tail).pageTableQuery ipa = .error (.err .NotMapped) :=
    query_notMapped hnew.1 fun ps a => hnew.2.2.2 _ a
  rw [show (freshSet 0x1000 someFrames.tail).pageTableQuery ipa = _ from hq] at hn
  cases hn

end Hvisor
