import Hvisor.Event.Gic
import Hvisor.Ivc.Entries

/-!
# Control tables

The control table of a shared memory, which a zone reads to learn its sizes and its own peer id and
writes to interrupt a peer, from `ivc.rs`. The handler unwraps what it finds in the tables: what the
zone was told, the record, and the zone's own entry there. `ivc_init` registers a control table
before it tells the zone anything, and returns early when the records turn a configuration away.

## Main definitions

* `mmioIvcHandler`: the handler
* `Serving`: the condition on a creation
* `Served`, `ServedInv`: what the handler unwraps is there

## Main results

* `hvIvcInfo_panics_iff`: when the call for what the zone was told panics
* `ivc_accesses_complete`: in runs whose creations meet the condition, no access panics
* `control_table_panics`: a zone whose second configuration is turned away
-/

namespace Hvisor

open MemorySet TransitionSystem

/-! ## The handler -/

/-- The words of `ISPENDR`. -/
def GICV2_INT_REGS_NUM : Nat := 32

/-- Write a word of `ISPENDR`, the interrupts that are made pending; the array of version 2 has
bounds. -/
def setIspender (gic : GicVersion) (index : Nat) (value : BitVec 32) (ispendr : Nat → BitVec 32) :
    Option (Nat → BitVec 32) :=
  if gic = .v2 ∧ GICV2_INT_REGS_NUM ≤ index then none
  else some (Function.update ispendr index (ispendr index ||| value))

/-- The offset of the id of the shared memory. -/
def CT_IVC_ID : Nat := 0x00
/-- The offset of the number of peers. -/
def CT_MAX_PEERS : Nat := 0x04
/-- The offset of the size of the section that all write. -/
def CT_RW_SEC_SIZE : Nat := 0x08
/-- The offset of the size of the sections that one peer writes. -/
def CT_OUT_SEC_SIZE : Nat := 0x0C
/-- The offset of the zone's own peer id. -/
def CT_PEER_ID : Nat := 0x10
/-- The offset of the register that interrupts a peer. -/
def CT_IPI_INVOKE : Nat := 0x14

/-- The shared memory whose control table is at an address. -/
def IvcInfo.idAt (info : IvcInfo) (base : Nat) : Option Nat :=
  ((List.range info.len).find? fun i => info.ivcCtIpas[i]? == some base).bind fun i =>
    info.ivcIds[i]?

/-- The lowest peer id of the zone. -/
def IvcRecord.peerIdOf (rec : IvcRecord) (zoneId : Nat) : Option Nat :=
  (rec.peerInfos.entries.find? fun entry => entry.2.zoneId == zoneId).map Prod.fst

/-- The access to the registers of a record. -/
def IvcRecord.access (gic : GicVersion) (rec : IvcRecord) (ivcId zoneId : Nat) (mmio : MMIOAccess)
    (ispendr : Nat → BitVec 32) :
    Option (Except HvError Unit × MMIOAccess × (Nat → BitVec 32)) :=
  let answer (value : Nat) := some (.ok (), { mmio with value := .ofNat value }, ispendr)
  if mmio.addr = CT_IVC_ID then answer ivcId
  else if mmio.addr = CT_MAX_PEERS then answer rec.maxPeers
  else if mmio.addr = CT_RW_SEC_SIZE then answer rec.rwSecSize
  else if mmio.addr = CT_OUT_SEC_SIZE then answer rec.outSecSize
  else if mmio.addr = CT_PEER_ID then (rec.peerIdOf zoneId).bind answer
  else if mmio.addr = CT_IPI_INVOKE ∧ mmio.isWrite = true then
    -- the peer id is the low word of the value
    match rec.peerInfos.get? (mmio.value.toNat % 2 ^ 32) with
    | some info =>
      (setIspender gic (info.irqNum / 32) (1 <<< (info.irqNum % 32)) ispendr).map fun ispendr =>
        (.ok (), mmio, ispendr)
    | none => some (.error ⟨.EINVAL, none⟩, mmio, ispendr)
  else some (.error ⟨.EFAULT, none⟩, mmio, ispendr)

/-- The handler of an access by a zone. -/
def mmioIvcHandler (gic : GicVersion) (tables : IvcTables) (zoneId : Nat) :
    MMIOHandler.Run (Nat → BitVec 32) := fun mmio base ispendr => do
  let ivcInfo ← tables.infos.get? zoneId
  let ivcId ← ivcInfo.idAt base
  let rec ← tables.records.get? ivcId
  rec.access gic ivcId zoneId mmio ispendr

/-- The interrupt controller has the interrupt. -/
def GicVersion.Takes (gic : GicVersion) (irq : Nat) : Prop :=
  gic = .v2 → irq / 32 < GICV2_INT_REGS_NUM

section Handler

variable {gic : GicVersion} {rec : IvcRecord} {ivcId zoneId : Nat} {mmio : MMIOAccess}
  {ispendr : Nat → BitVec 32}

theorem setIspender_isSome {irq : Nat} (h : gic.Takes irq) (value : BitVec 32) :
    (setIspender gic (irq / 32) value ispendr).isSome := by
  rw [setIspender, if_neg]
  · rfl
  · rintro ⟨hv2, hle⟩
    exact absurd (h hv2) (not_lt.mpr hle)

theorem peerIdOf_isSome {p : Nat} {info : PeerInfo} (h : rec.peerInfos.get? p = some info) :
    (rec.peerIdOf info.zoneId).isSome := by
  rw [IvcRecord.peerIdOf, Option.isSome_map, List.find?_isSome]
  exact ⟨(p, info), SortedMap.get?_eq_some.mp h, beq_self_eq_true _⟩

/-- An access completes when the record has an entry for the zone, and interrupts that there are. -/
theorem access_isSome {p : Nat} {info : PeerInfo} (h : rec.peerInfos.get? p = some info)
    (hirqs : ∀ p info, rec.peerInfos.get? p = some info → gic.Takes info.irqNum) :
    (rec.access gic ivcId info.zoneId mmio ispendr).isSome := by
  rw [IvcRecord.access]
  split
  · rfl
  split
  · rfl
  split
  · rfl
  split
  · rfl
  split
  · -- the peer id of the zone
    obtain ⟨id, hid⟩ := Option.isSome_iff_exists.mp (peerIdOf_isSome h)
    rw [hid]
    rfl
  split
  · split
    · next peer hpeer =>
      rw [Option.isSome_map]
      exact setIspender_isSome (hirqs _ _ hpeer) _
    · rfl
  · rfl

/-- A configuration of a list is found by the address of its control table, or one with the same
address. -/
theorem idAt_fromConfigs {configs : List HvIvcConfig} {c : HvIvcConfig}
    (hlen : configs.length ≤ CONFIG_MAX_IVC_CONGIGS) (hc : c ∈ configs) :
    ∃ c' ∈ configs, (IvcInfo.fromConfigs configs).idAt c.controlTableIpa = some c'.ivcId := by
  have hget : ∀ i, i < configs.length → ∀ c', configs[i]? = some c' →
      (IvcInfo.fromConfigs configs).ivcCtIpas[i]? = some c'.controlTableIpa ∧
        (IvcInfo.fromConfigs configs).ivcIds[i]? = some c'.ivcId := by
    intro i hi c' hc'
    have hlt : i < CONFIG_MAX_IVC_CONGIGS := hi.trans_le hlen
    simp only [IvcInfo.fromConfigs, Vector.getElem?_ofFn, hlt, dite_true, hc', Option.map_some,
      Option.getD_some, and_self]
  obtain ⟨i, hi, rfl⟩ := List.mem_iff_getElem.mp hc
  have hfound : ((List.range configs.length).find? fun j =>
      (IvcInfo.fromConfigs configs).ivcCtIpas[j]? == some configs[i].controlTableIpa).isSome := by
    rw [List.find?_isSome]
    refine ⟨i, List.mem_range.mpr hi, ?_⟩
    rw [(hget i hi _ (List.getElem?_eq_getElem hi)).1]
    exact beq_self_eq_true _
  obtain ⟨j, hj⟩ := Option.isSome_iff_exists.mp hfound
  have hlt : j < configs.length := List.mem_range.mp (List.mem_of_find?_eq_some hj)
  refine ⟨configs[j], List.getElem_mem hlt, ?_⟩
  rw [IvcInfo.idAt]
  show (List.find? _ (List.range configs.length)).bind _ = _
  rw [hj, Option.bind_some, (hget j hlt _ (List.getElem?_eq_getElem hlt)).2]

end Handler

/-! ## What the zone was told -/

/-- The computation ends in a panic. -/
def Panics {α : Type} (m : HyperCallM α) (s : HvState) : Prop := ∃ s', m.run s = .error .panic s'

/-- **The call for what the zone was told panics** exactly when its argument is not mapped. -/
theorem hvIvcInfo_panics_iff {s : HvState} {cpu z : Nat} (hz : s.cpuZone cpu = some z) (ipa : Nat) :
    Panics (hvIvcInfo cpu ipa) s ↔ ∀ x, (s.zones z).gpm.pageTableQuery ipa ≠ .ok x := by
  rw [Panics, hvIvcInfo]
  simp only [EStateM.run_bind, thisZoneId_run hz, thisZone_run hz, EStateM.run_get]
  cases hq : (s.zones z).gpm.pageTableQuery ipa with
  | error e =>
    refine iff_of_true ⟨s, rfl⟩ ?_
    intro x hx
    cases hx
  | ok x =>
    obtain ⟨hpa, fl, ps⟩ := x
    refine iff_of_false ?_ fun h => h _ rfl
    rintro ⟨s', h⟩
    cases hinfo : s.ivcInfos.get? (s.zones z).id with
    | none =>
      simp only [hinfo, EStateM.run_bind, EStateM.run_get] at h
      cases h
    | some info =>
      simp only [hinfo, EStateM.run_bind, EStateM.run_get] at h
      cases h

/-! ## The condition -/

section Runs

variable {φ : Type} {env : StartEnv φ} {gic : GicVersion} {s s' : IvcHistory φ} {h : List IvcEvent}
  {config : HvZoneConfig}

/-- **The condition on a creation**, also on one that fails at a CPU: no zone that is there has the
id; where the new zone becomes a peer, no zone that is there has the peer id; the records accept all
configurations of a zone that gets its CPUs or turn the first one away; and the interrupts are ones
that there are. -/
structure Serving (env : StartEnv φ) (gic : GicVersion) (s : IvcHistory φ) (config : HvZoneConfig) :
    Prop where
  fresh : ∀ z, (s.state.spaces z).isSome → (s.state.machine.zones z).id ≠ config.zoneId
  free : FreeEntries env s config
  whole : (∀ c ∈ config.cpuList, s.state.machine.zone c = none) →
    ∀ configs, config.ivcConfig = some configs →
      s.state.joins env config = configs ∨ s.state.joins env config = []
  irqs : ∀ c ∈ s.state.joins env config, gic.Takes c.interruptNum

/-- The condition on a step: a creation meets the condition unless a zone of the list has the id. -/
def ServingStep (env : StartEnv φ) (gic : GicVersion) (s : IvcHistory φ) : IvcEvent → Prop
  | .create config =>
    s.state.machine.findZone config.zoneId = some none → Serving env gic s config
  | .other => True

/-- **What the handler unwraps is there**: what the zone was told, and its entries. -/
structure ServedInv (env : StartEnv φ) (gic : GicVersion) (s : IvcHistory φ) : Prop where
  base : IvcInv env.overflowChecks s
  named : Named s
  told : ∀ z, (s.state.spaces z).isSome → s.joined z ≠ [] →
    (s.joined z).length ≤ CONFIG_MAX_IVC_CONGIGS ∧
      s.state.ivc.infos.get? (s.state.machine.zones z).id = some (.fromConfigs (s.joined z))
  tables : ∀ z zone, s.state.spaces z = some zone → ∀ cfg ∈ zone.mmio,
    cfg.handler = .mmio_ivc_handler → ∃ c ∈ s.joined z, cfg.arg = c.controlTableIpa
  irqs : ∀ id p info, peerInfo? s.state.ivc.records id p = some info → gic.Takes info.irqNum

/-- The control tables of a new zone are those of the configurations by which it became a peer. -/
theorem Creation.tables {s : StartState φ} {configs : List HvIvcConfig} {done : Bool}
    {run₀ run : IvcRun φ} (h : Creation env s config configs done run₀ run) (henv : env.Sound) :
    ∀ cfg ∈ run.zone.mmio, cfg.handler = .mmio_ivc_handler →
      ∃ c ∈ s.joins env config, cfg.arg = c.controlTableIpa := by
  apply h.rule (P := fun acc run => ∀ cfg ∈ run.zone.mmio, cfg.handler = .mmio_ivc_handler →
    ∃ c ∈ acc, cfg.arg = c.controlTableIpa)
  · intro cfg hcfg hh
    exact absurd hh ((of_zoneBefore henv h.before).2 cfg hcfg)
  · intro acc c rec s₁ s₂ _ hs hstep cfg hcfg hh
    rcases hstep.mem_mmio hcfg with hcfg | ⟨-, -, harg⟩
    · obtain ⟨c', hc', harg⟩ := hs cfg hcfg hh
      exact ⟨c', List.mem_append_left _ hc', harg⟩
    · exact ⟨c, List.mem_append_right _ (List.mem_singleton_self c), harg⟩

/-- A zone that became a peer by all its configurations is told so. -/
theorem Creation.told {s : StartState φ} {configs : List HvIvcConfig} {done : Bool}
    {run₀ run : IvcRun φ} (h : Creation env s config configs done run₀ run)
    (hjoins : s.joins env config = configs ∨ s.joins env config = [])
    (hne : s.joins env config ≠ []) :
    done = true ∧ s.joins env config = configs ∧
      (s.joins env config).length ≤ CONFIG_MAX_IVC_CONGIGS := by
  have hall := hjoins.resolve_right hne
  have hlen : configs.length ≤ CONFIG_MAX_IVC_CONGIGS := by
    have hconfigs := h.ivcConfig
    rw [HvZoneConfig.ivcConfig] at hconfigs
    split at hconfigs
    · next hle =>
      rw [← Option.some.inj hconfigs, List.length_take]
      omega
    · cases hconfigs
  exact ⟨h.done_iff.mpr hall, hall, hall ▸ hlen⟩

theorem servedInv_of_init (hs : (ivcHistory env).init s) : ServedInv env gic s := by
  refine ⟨ivcInv_of_init hs, named_of_init hs, ?_, ?_, ?_⟩
  · intro z hz
    rw [hs.1] at hz
    cases hz
  · intro z zone hz
    rw [hs.1] at hz
    cases hz
  · intro id p info hinfo
    rw [hs.2] at hinfo
    cases hinfo

theorem ServedInv.elsewhere (hi : ServedInv env gic s) (he : Elsewhere s.state s'.state)
    (hj : s'.joined = s.joined) : ServedInv env gic s' := by
  refine ⟨hi.base.elsewhere he hj, hi.named.elsewhere he hj, ?_, ?_, ?_⟩
  · intro z hz hne
    obtain ⟨zone', hz⟩ := Option.isSome_iff_exists.mp hz
    obtain ⟨zone, hzone, hid, -⟩ := he.zone z zone' hz
    rw [he.ivc, hid, hj]
    rw [hj] at hne
    exact hi.told z (hzone ▸ rfl) hne
  · intro z zone' hz cfg hcfg hh
    obtain ⟨zone, hzone, -, -, hmmio⟩ := he.zone z zone' hz
    rw [hj]
    exact hi.tables z zone hzone cfg (hmmio cfg hcfg hh) hh
  · rw [he.ivc]
    exact hi.irqs

theorem ServedInv.create (hi : ServedInv env gic s) (henv : env.Sound)
    (hg : s.state.machine.findZone config.zoneId = some none → Serving env gic s config)
    (hs : s.create env config = some s') : ServedInv env gic s' := by
  have hbase := hi.base.create henv hs
  have hnamed := hi.named.create (fun hfresh => (hg hfresh).free) hs
  rcases create_cases hs with rfl | ⟨configs, done, run₀, run, hc, hivc, hres⟩
  · exact hi
  have hg := hg hc.fresh
  have hrecs : s'.state.ivc.records = run.records := congrArg IvcTables.records hivc
  have hinfos : s'.state.ivc.infos = if done then
      s.state.ivc.infos.insert config.zoneId (.fromConfigs configs) else s.state.ivc.infos := by
    rw [hivc]
  have hirqs : ∀ id p info, peerInfo? run.records id p = some info → gic.Takes info.irqNum := by
    intro id p info hinfo
    rcases hc.peerInfo? id p with ⟨c, hcj, -, hnew⟩ | ⟨-, hsame⟩
    · obtain rfl := Option.some.inj (hnew.symm.trans hinfo)
      exact hg.irqs c hcj
    · exact hi.irqs id p info (hsame.symm.trans hinfo)
  -- the zones that are there were told under other ids
  have hold : ∀ z, (s.state.spaces z).isSome → s.joined z ≠ [] →
      (s.joined z).length ≤ CONFIG_MAX_IVC_CONGIGS ∧
        s'.state.ivc.infos.get? (s.state.machine.zones z).id =
          some (.fromConfigs (s.joined z)) := by
    intro z hz hne
    obtain ⟨hlen, htold⟩ := hi.told z hz hne
    refine ⟨hlen, ?_⟩
    rw [hinfos]
    split
    · rw [SortedMap.get?_insert, if_neg (hg.fresh z hz)]
      exact htold
    · exact htold
  rcases hres with ⟨hspaces, hmachine, -, hj⟩ | ⟨zone, -, hspaces, -, hmmio, -, hids, hj, hcpus⟩
  · refine ⟨hbase, hnamed, ?_, ?_, hrecs ▸ hirqs⟩
    · rw [hspaces, hj, hmachine]
      exact hold
    · rw [hspaces, hj]
      exact hi.tables
  · refine ⟨hbase, hnamed, ?_, ?_, hrecs ▸ hirqs⟩
    · intro z hz hne
      rw [hspaces, Function.update_apply] at hz
      rw [hj, Function.update_apply] at hne ⊢
      rw [hids]
      by_cases hnew : z = s.state.machine.nextZone
      · rw [if_pos hnew] at hne ⊢
        rw [if_pos hnew]
        obtain ⟨hdone, hall, hlen⟩ := hc.told (hg.whole hcpus configs hc.ivcConfig) hne
        refine ⟨hlen, ?_⟩
        rw [hinfos, if_pos hdone, SortedMap.get?_insert, if_pos rfl, hall]
      · rw [if_neg hnew] at hz hne ⊢
        rw [if_neg hnew]
        exact hold z hz hne
    · intro z zone₁ hz cfg hcfg hh
      rw [hspaces, Function.update_apply] at hz
      rw [hj, Function.update_apply]
      split at hz
      · next hnew =>
        obtain rfl := Option.some.inj hz
        rw [if_pos hnew]
        exact hc.tables henv cfg (hmmio cfg hcfg hh) hh
      · next hnew =>
        rw [if_neg hnew]
        exact hi.tables z zone₁ hz cfg hcfg hh

theorem servedInv_of_run (henv : env.Sound)
    (r : ((ivcHistory env).restrict (ServingStep env gic)).Run h s) : ServedInv env gic s := by
  have start : ∀ s, ((ivcHistory env).restrict (ServingStep env gic)).init s →
    ServedInv env gic s :=
    fun _ hs => servedInv_of_init hs
  refine r.invariant (I := fun _ s => ServedInv env gic s) start ?_
  rintro h s e s' _ hi ⟨hg, hs⟩
  cases e with
  | create config => exact hi.create henv hg hs
  | other => exact hi.elsewhere hs.1 hs.2

/-- **The tables name the zone**: it was told of the control table, and the record of the shared
memory has an entry for it. -/
def Served (tables : IvcTables) (zoneId base : Nat) : Prop :=
  ∃ ivcInfo ivcId rec p info, tables.infos.get? zoneId = some ivcInfo ∧
    ivcInfo.idAt base = some ivcId ∧ tables.records.get? ivcId = some rec ∧
    rec.peerInfos.get? p = some info ∧ info.zoneId = zoneId

theorem ServedInv.served (hi : ServedInv env gic s) {z : Nat} {zone : NewZone}
    (hz : s.state.spaces z = some zone) {cfg : MMIOConfig} (hcfg : cfg ∈ zone.mmio)
    (hh : cfg.handler = .mmio_ivc_handler) :
    Served s.state.ivc (s.state.machine.zones z).id cfg.arg := by
  have hsome : (s.state.spaces z).isSome := hz ▸ rfl
  obtain ⟨c, hc, harg⟩ := hi.tables z zone hz cfg hcfg hh
  obtain ⟨hlen, htold⟩ := hi.told z hsome (List.ne_nil_of_mem hc)
  obtain ⟨c', hc', hid⟩ := idAt_fromConfigs hlen hc
  obtain ⟨info, hinfo, hzone⟩ := hi.named z hsome c' hc'
  obtain ⟨rec, hrec, hpeer⟩ := Option.bind_eq_some_iff.mp hinfo
  exact ⟨_, c'.ivcId, rec, c'.peerId, info, htold, harg ▸ hid, hrec, hpeer, hzone⟩

/-- An access to a control table completes when the tables name the zone. -/
theorem Served.access {tables : IvcTables} {zoneId base : Nat} (hs : Served tables zoneId base)
    (hirqs : ∀ id p info, peerInfo? tables.records id p = some info → gic.Takes info.irqNum)
    (mmio : MMIOAccess) (ispendr : Nat → BitVec 32) :
    (mmioIvcHandler gic tables zoneId mmio base ispendr).isSome := by
  obtain ⟨ivcInfo, ivcId, rec, p, info, htold, hid, hrec, hpeer, rfl⟩ := hs
  rw [mmioIvcHandler]
  simp only [Option.bind_eq_bind, htold, hid, hrec, Option.bind_some]
  apply access_isSome hpeer
  intro p' info' hinfo'
  apply hirqs ivcId p'
  rw [peerInfo?, hrec]
  exact hinfo'

/-- **No access of a guest panics**, in every run whose creations meet the condition: the tables
name each zone with a control table, so that an access to the table completes; and the call for what
the zone was told panics for an argument that is not mapped only. -/
theorem ivc_accesses_complete (henv : env.Sound)
    (r : ((ivcHistory env).restrict (ServingStep env gic)).Run h s) {z : Nat} {zone : NewZone}
    (hz : s.state.spaces z = some zone) :
    (∀ cfg ∈ zone.mmio, cfg.handler = .mmio_ivc_handler →
      Served s.state.ivc (s.state.machine.zones z).id cfg.arg ∧ ∀ mmio ispendr,
        (mmioIvcHandler gic s.state.ivc (s.state.machine.zones z).id mmio cfg.arg ispendr).isSome) ∧
    ∀ (hv : HvState) (cpu ipa : Nat), hv.cpuZone cpu = some z → (hv.zones z).gpm = zone.gpm →
      (Panics (hvIvcInfo cpu ipa) hv ↔ ∀ x, zone.gpm.pageTableQuery ipa ≠ .ok x) := by
  have hi := servedInv_of_run henv r
  constructor
  · intro cfg hcfg hh
    have hserved := hi.served hz hcfg hh
    exact ⟨hserved, hserved.access hi.irqs⟩
  · intro hv cpu ipa hcpu hgpm
    rw [hvIvcInfo_panics_iff hcpu, hgpm]

end Runs

/-! ## Zones on the board -/

/-- After the creation of the first zone, no zone has another id. -/
theorem fresh_of_create {env : StartEnv Nat} {next id : Nat} {config : HvZoneConfig}
    {s : IvcHistory Nat} (hs : (noZones next).create env config = some s) (hid : config.zoneId ≠ id)
    (z : Nat) (hz : (s.state.spaces z).isSome) : (s.state.machine.zones z).id ≠ id := by
  rcases create_cases hs with rfl | ⟨_, _, _, _, -, -, hres⟩
  · cases hz
  rcases hres with ⟨hspaces, -⟩ | ⟨zone, -, hspaces, -, -, -, hids, -⟩
  · rw [hspaces] at hz
    cases hz
  · rw [hspaces, Function.update_apply] at hz
    rw [hids]
    split
    · exact hid
    · next hne =>
      rw [if_neg hne] at hz
      cases hz

/-- The condition on a new zone with one configuration, when no entry is there yet. -/
theorem serving_of_none {s : IvcHistory Nat} {id cpu : Nat} {c : HvIvcConfig}
    (hfresh : ∀ z, (s.state.spaces z).isSome → (s.state.machine.zones z).id ≠ id)
    (hjoins : s.state.joins (ivcBoard true) (ivcZone id cpu c []) = [c])
    (hnone : peerInfo? s.state.ivc.records c.ivcId c.peerId = none) :
    Serving (ivcBoard true) .v3 s (ivcZone id cpu c []) := by
  refine ⟨hfresh, ?_, fun _ configs hconfigs => ?_, nofun⟩
  · intro c' hc' info hinfo
    rw [hjoins] at hc'
    obtain rfl := List.mem_singleton.mp hc'
    rw [hnone] at hinfo
    cases hinfo
  · obtain rfl : [c] = configs := Option.some.inj hconfigs
    exact .inl hjoins

/-- Each of two peers may use its control table. -/
theorem ivc_accesses_complete_pair : ∃ (s : IvcHistory Nat) (zone : NewZone),
    s.state.spaces 1 = some zone ∧ s.joined 1 = [pairConfig 1] ∧
      ∀ cfg ∈ zone.mmio, cfg.handler = .mmio_ivc_handler → ∀ mmio ispendr,
        (mmioIvcHandler .v3 s.state.ivc (s.state.machine.zones 1).id mmio cfg.arg
          ispendr).isSome := by
  obtain ⟨s₁, s, zone₁, zone₂, hs₁, hs, ⟨hjoins₀, hjoins₁, hnone⟩, -, hz₂, -, hj₂⟩ :=
    exists_pair_steps
  have r : ((ivcHistory (ivcBoard true)).restrict (ServingStep (ivcBoard true) .v3)).Run
      [.create (ivcZone 1 1 (pairConfig 1) []), .create (ivcZone 0 0 (pairConfig 0) [])] s := by
    refine .next (.next (.start ⟨fun _ => rfl, rfl⟩) ⟨?_, hs₁⟩) ⟨?_, hs⟩
    · exact fun _ => serving_of_none (fun _ hz => Bool.noConfusion hz) hjoins₀ rfl
    · exact fun _ => serving_of_none (fresh_of_create hs₁ (by decide)) hjoins₁ hnone
  obtain ⟨haccess, -⟩ := ivc_accesses_complete (ivcBoard_sound true) r hz₂
  exact ⟨s, zone₂, hz₂, hj₂, fun cfg hcfg hh => (haccess cfg hcfg hh).2⟩

/-- A shared memory with sections that are no whole pages. -/
def oddConfig : HvIvcConfig := { pairConfig 0 with ivcId := 8, rwSecSize := 0x1001 }

/-- **A control table that panics**: the records turn the second configuration of a zone away, and
the zone has the control table of the first one without having been told of it. -/
theorem control_table_panics : ¬ ∀ (env : StartEnv Nat) (gic : GicVersion) (s : IvcHistory Nat)
    (h : List IvcEvent), env.Sound → (ivcHistory env).Run h s →
      ∀ z zone, s.state.spaces z = some zone →
      ∀ cfg ∈ zone.mmio, cfg.handler = .mmio_ivc_handler → ∀ mmio ispendr,
        (mmioIvcHandler gic s.state.ivc (s.state.machine.zones z).id mmio cfg.arg
          ispendr).isSome := by
  intro hall
  have hsome : ((createAll (ivcBoard true) (noZones 0x40000000)
      [ivcZone 1 0 (pairConfig 0) [oddConfig]]).map fun s =>
      ((s.state.spaces 0).map NewZone.mmio, (s.state.machine.zones 0).id,
        s.state.ivc.infos.get? 1)) =
        some (some [⟨0x70000000, 0x1000, .mmio_ivc_handler, 0x70000000⟩], 1, none) := by
    decide +kernel
  obtain ⟨s, hs, hsome⟩ := Option.map_eq_some_iff.mp hsome
  simp only [Prod.mk.injEq] at hsome
  obtain ⟨hmmio, hid, hinfos⟩ := hsome
  obtain ⟨zone, hz, hmmio⟩ := Option.map_eq_some_iff.mp hmmio
  have r := run_of_createAll (run_noZones (ivcBoard true) 0x40000000) hs
  have haccess := hall _ .v3 s _ (ivcBoard_sound true) r 0 zone hz _
    (hmmio ▸ List.mem_singleton_self _) rfl ⟨0, 4, false, 0⟩ fun _ => 0
  rw [hid, mmioIvcHandler, hinfos] at haccess
  cases haccess

end Hvisor
