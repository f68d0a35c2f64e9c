import Hvisor.Ivc.ControlTable
import Hvisor.Zone.Sequential

/-!
# Zones that come back

A zone that is shut down leaves its entries in the records of shared memories: `hv_zone_shutdown`
does not touch them. So the records name a zone that is gone, and count it as a peer when it is
created again: a shared memory that all its peers had joined turns away each of them that comes
back.

## Main definitions

* `StartState.hvZoneShutdown`: the shutdown of a zone, which is dropped with its memory
* `NamesZone`: the records name a zone
* `RoomFor`: no record is full when its turn comes
* `SetUpAgain`: what a zone that is created again should get

## Main results

* `elsewhere_of_hvZoneShutdown`: a shutdown leaves the shared memories as they are
* `joined_eq_iff`: when a zone that comes back becomes a peer by all its configurations
* `ivc_rejoin_iff`: what is left after a shutdown, and what the zone gets when it is created again
* `removed_zone_named`: a record that names a removed zone
-/

namespace Hvisor

open MemorySet TransitionSystem

/-! ## Shutdown -/

section Shutdown

variable {s s' : Machine} {c q id : Nat} {x y : GicMachine}

theorem zones_of_foldlM {f : Machine → Nat → Option Machine}
    (hf : ∀ {s c s'}, f s c = some s' → s'.zones = s.zones) {l : List Nat}
    (h : l.foldlM f s = some s') : s'.zones = s.zones := by
  induction l generalizing s with
  | nil =>
    cases h
    rfl
  | cons c l ih =>
    rw [List.foldlM_cons] at h
    obtain ⟨s₁, hs₁, h⟩ := Option.bind_eq_some_iff.mp h
    exact (ih h).trans (hf hs₁)

theorem zones_of_checkEvents (h : s.checkEvents c = some s') : s'.zones = s.zones := by
  simp only [Machine.checkEvents] at h
  split at h
  · -- `run`
    rw [Machine.run] at h
    split at h
    · split at h
      · cases h
        rfl
      · cases h
    · cases h
  · -- `idle`
    rw [Machine.idle] at h
    split at h
    · cases h
      rfl
    · cases h
  · rw [Machine.handleVirtioIrq] at h
    split at h
    · split at h
      · cases h
        rfl
      · cases h
    · cases h
  · cases h
    rfl

theorem zones_of_processEvents (h : s.processEvents c = some s') : s'.zones = s.zones := by
  have htake : ∀ {n s}, Machine.takeIrqs c n s = some s' → s'.zones = s.zones := by
    intro n
    induction n with
    | zero =>
      intro s h
      cases h
      rfl
    | succ n ih =>
      intro s h
      obtain ⟨s₁, hs₁, h⟩ := Option.bind_eq_some_iff.mp h
      exact (ih h).trans (zones_of_checkEvents hs₁)
  rw [Machine.processEvents] at h
  split at h
  · exact htake h
  · cases h

theorem zones_of_removeZone {next : Pc} {w : Option Nat}
    (h : s.removeZone q id next = some (s', w)) : s'.zones = s.zones := by
  rw [Machine.removeZone] at h
  split at h
  · cases h
  · cases h
    rfl
  · dsimp only at h
    split at h
    · cases h
      rfl
    · cases h
      rfl

/-- A shutdown leaves the data of all zones as they are, and is none of zone 0. -/
theorem zones_of_hvZoneShutdown (h : x.hvZoneShutdown q id = some (.ok (), y)) :
    id ≠ 0 ∧ y.machine.zones = x.machine.zones ∧ ∃ z, x.machine.findZone id = some (some z) := by
  rw [GicMachine.hvZoneShutdown] at h
  obtain ⟨isRoot, -, h⟩ := Option.bind_eq_some_iff.mp h
  split at h
  · cases h
  split at h
  · cases h
  next hid =>
  split at h
  swap
  · cases h
  obtain ⟨found, hfind, h⟩ := Option.bind_eq_some_iff.mp h
  cases found with
  | none => cases h
  | some z =>
    refine ⟨hid, ?_, z, hfind⟩
    simp only at h
    split at h
    swap
    · cases h
    -- the three loops, and the zone leaves the list
    obtain ⟨s₁, h₁, h⟩ := Option.bind_eq_some_iff.mp h
    obtain ⟨s₂, h₂, h⟩ := Option.bind_eq_some_iff.mp h
    obtain ⟨s₃, h₃, h⟩ := Option.bind_eq_some_iff.mp h
    have hzones₁ := zones_of_foldlM (fun hc => (Machine.closeCpu_eq_some.mp hc).2 ▸ rfl) h₁
    have hzones₂ := zones_of_foldlM zones_of_processEvents h₂
    have hzones₃ := zones_of_foldlM (fun hc => (Machine.clearCpu_eq_some.mp hc).2 ▸ rfl) h₃
    have hzones : s₃.zones = x.machine.zones := hzones₃.trans (hzones₂.trans hzones₁)
    split at h
    · next s₄ w hrem =>
      cases h
      exact (zones_of_removeZone hrem).trans hzones
    · cases h

end Shutdown

section Elsewhere

variable {φ : Type} {env : StartEnv φ} {s s' : StartState φ} {q id : Nat}
  {irqBitmap : Nat → IrqBitmap} {gicd : Distributor}

/-- `hv_zone_shutdown`: the zone that leaves the list is dropped with its memory. -/
def StartState.hvZoneShutdown (env : StartEnv φ) (s : StartState φ) (irqBitmap : Nat → IrqBitmap)
    (gicd : Distributor) (q id : Nat) : Option (Except HvErrorNum Unit × StartState φ) :=
  (GicMachine.hvZoneShutdown ⟨s.machine, irqBitmap, gicd⟩ q id).map fun (res, x) =>
    (res, match res, s.machine.findZone id with
      | .ok (), some (some z) =>
        { s with
          machine := x.machine
          spaces := Function.update s.spaces z none
          frames := ((s.spaces z).map fun zone => env.dropZone zone s.frames).getD s.frames }
      | _, _ => { s with machine := x.machine })

/-- **A shutdown leaves the shared memories as they are**; the zone is gone. -/
theorem elsewhere_of_hvZoneShutdown
    (h : s.hvZoneShutdown env irqBitmap gicd q id = some (.ok (), s')) :
    id ≠ 0 ∧ Elsewhere s s' ∧ ∃ z, s.machine.findZone id = some (some z) ∧ s'.spaces z = none := by
  obtain ⟨⟨res, x⟩, hx, h⟩ := Option.map_eq_some_iff.mp h
  obtain ⟨rfl, h⟩ := Prod.mk.inj h
  obtain ⟨hid, hzones, z, hfind⟩ := zones_of_hvZoneShutdown hx
  simp only [hfind] at h
  subst h
  refine ⟨hid, ⟨rfl, ?_⟩, z, hfind, Function.update_self ..⟩
  intro z' zone hz'
  change Function.update s.spaces z none z' = some zone at hz'
  rw [Function.update_apply] at hz'
  split at hz'
  · cases hz'
  · exact ⟨zone, hz', congrArg ZoneData.id (congrFun hzones z'), .refl, fun cfg hcfg _ => hcfg⟩

end Elsewhere

/-! ## Room -/

/-- The records name the zone. -/
def NamesZone (recs : SortedMap Nat IvcRecord) (zoneId : Nat) : Prop :=
  ∃ ivcId p info, peerInfo? recs ivcId p = some info ∧ info.zoneId = zoneId

/-- **No record is full** when the turn of its configuration comes. -/
def RoomFor (zoneId : Nat) : List HvIvcConfig → SortedMap Nat IvcRecord → Prop
  | [], _ => True
  | c :: configs, recs => ∃ rec, recs.get? c.ivcId = some rec ∧ rec.peerInfos.size ≠ rec.maxPeers ∧
      RoomFor zoneId configs (recs.insert c.ivcId (rec.insertPeer c zoneId))

section Room

variable {φ : Type} {overflowChecks : Bool} {allocContiguous : φ → Nat → Option (Nat × φ)}
  {zoneId : Nat} {configs : List HvIvcConfig} {s s' : IvcRun φ} {done : Bool}

/-- When the records have the sizes of the configurations, the zone becomes a peer by all of them
exactly if no record is full when its turn comes. -/
theorem joined_eq_iff
    (h : ivcJoin overflowChecks allocContiguous zoneId configs s = some (done, s'))
    (hfits : ∀ c ∈ configs, ∃ rec, s.records.get? c.ivcId = some rec ∧ rec.Fits c) :
    ivcJoined overflowChecks allocContiguous zoneId configs s.records s.frames = configs ↔
      RoomFor zoneId configs s.records := by
  induction configs generalizing s with
  | nil => exact iff_of_true rfl trivial
  | cons c configs ih =>
    obtain ⟨rec, hrec, hfit⟩ := hfits c List.mem_cons_self
    have haccepts : Accepts s.records c ↔ rec.peerInfos.size ≠ rec.maxPeers := by
      simp only [Accepts, hrec]
      exact ⟨fun ha => ha.2.2.2, fun hne => ⟨hfit.maxPeers, hfit.rwSecSize, hfit.outSecSize, hne⟩⟩
    rw [ivcJoin] at h
    rw [ivcJoined]
    split at h
    · cases h
    · next hins =>
      -- the record is full
      cases h
      simp only [hins]
      refine iff_of_false (List.cons_ne_nil _ _).symm ?_
      rintro ⟨rec', hrec', hroom, -⟩
      obtain rfl := Option.some.inj (hrec.symm.trans hrec')
      rcases insertIvcRecord_cases hins with ⟨-, hacc, -⟩ | ⟨_, _, hres, -⟩
      · exact hacc (haccepts.mpr hroom)
      · cases hres
    · next startPaddr recs frames hins =>
      obtain ⟨zone, hzone, hloop⟩ := Option.bind_eq_some_iff.mp h
      simp only [hins, List.cons.injEq, true_and]
      rcases insertIvcRecord_cases hins with ⟨hres, -⟩ | ⟨_, rec', -, hacc, hrecs, hold⟩
      · cases hres
      obtain rfl : rec = rec' := by
        rcases hold with hold | ⟨hnone, -⟩
        · exact Option.some.inj (hrec.symm.trans hold)
        · rw [hrec] at hnone
          cases hnone
      have hfits' : ∀ c' ∈ configs, ∃ rec', recs.get? c'.ivcId = some rec' ∧ rec'.Fits c' := by
        intro c' hc'
        obtain ⟨rec', hrec', hfit'⟩ := hfits c' (List.mem_cons_of_mem _ hc')
        rw [hrecs, SortedMap.get?_insert]
        by_cases hid : c'.ivcId = c.ivcId
        · obtain rfl : rec = rec' := Option.some.inj (hrec.symm.trans (hid ▸ hrec'))
          exact ⟨_, if_pos hid, hfit'.of_layout IvcRecord.layout_insertPeer⟩
        · exact ⟨rec', (if_neg hid).trans hrec', hfit'⟩
      rw [ih hloop hfits', hrecs]
      constructor
      · exact fun hroom => ⟨rec, hrec, haccepts.mp hacc, hroom⟩
      · rintro ⟨rec', hrec', -, hroom⟩
        obtain rfl := Option.some.inj (hrec.symm.trans hrec')
        exact hroom

end Room

/-! ## The zone comes back -/

section Rejoin

variable {φ : Type} {env : StartEnv φ} {config : HvZoneConfig}

/-- The control tables of the configurations by which a zone became a peer are registered. -/
theorem Creation.registered {s : StartState φ} {configs : List HvIvcConfig} {done : Bool}
    {run₀ run : IvcRun φ} (h : Creation env s config configs done run₀ run) :
    ∀ c ∈ s.joins env config, ∃ cfg ∈ run.zone.mmio, cfg.start = c.controlTableIpa ∧
      cfg.handler = .mmio_ivc_handler ∧ cfg.arg = c.controlTableIpa := by
  apply h.rule (P := fun acc run => ∀ c ∈ acc, ∃ cfg ∈ run.zone.mmio,
    cfg.start = c.controlTableIpa ∧ cfg.handler = .mmio_ivc_handler ∧ cfg.arg = c.controlTableIpa)
  · nofun
  · intro acc c rec s₁ s₂ _ hs hstep c' hc'
    rcases List.mem_append.mp hc' with hc' | hc'
    · exact hstep.exists_mmio (.inr (hs c' hc'))
    · exact hstep.exists_mmio (.inl (List.mem_singleton.mp hc'))

/-- **The zone is set up again**: it became a peer by each configuration, it was told so, and it has
the windows on the memories of the records `recs` and the control tables. -/
structure SetUpAgain (env : StartEnv φ) (recs : SortedMap Nat IvcRecord) (config : HvZoneConfig)
    (configs : List HvIvcConfig) (s s' : StartState φ) (z : Nat) : Prop where
  joined : s.joins env config = configs
  told : s'.ivc.infos.get? config.zoneId = some (.fromConfigs configs)
  zone : ∃ zone, s'.spaces z = some zone ∧ (∀ c ∈ configs, ∃ rec, recs.get? c.ivcId = some rec ∧
    Windows env.overflowChecks zone.gpm c rec.sharedMem.startPaddr) ∧
    ∀ c ∈ configs, ∃ cfg ∈ zone.mmio, cfg.start = c.controlTableIpa ∧
      cfg.handler = .mmio_ivc_handler ∧ cfg.arg = c.controlTableIpa

/-- Histories that go on keep the records. -/
theorem keepLayouts_of_run (henv : env.Sound) {s s' : IvcHistory φ} {h : List IvcEvent}
    (hi : IvcInv env.overflowChecks s) (r : ((ivcHistory env).startingAt s).Run h s') :
    IvcInv env.overflowChecks s' ∧ KeepLayouts s.state.ivc.records s'.state.ivc.records := by
  have start : ∀ s', ((ivcHistory env).startingAt s).init s' → IvcInv env.overflowChecks s' ∧
      KeepLayouts s.state.ivc.records s'.state.ivc.records := by
    rintro s' rfl
    exact ⟨hi, .refl _⟩
  refine r.invariant (I := fun _ s' => IvcInv env.overflowChecks s' ∧
    KeepLayouts s.state.ivc.records s'.state.ivc.records) start ?_
  rintro h s₁ e s₂ _ ⟨hi₁, hkeep⟩ hs
  cases e with
  | create config => exact ⟨hi₁.create henv hs, hkeep.trans (keepLayouts_of_create hi₁ henv hs)⟩
  | other =>
    refine ⟨hi₁.elsewhere hs.1 hs.2, ?_⟩
    rw [hs.1.ivc]
    exact hkeep

/-- **When a zone that comes back is set up again**: no record is full when its turn comes. -/
theorem setUpAgain_iff (henv : env.Sound) {s : IvcHistory φ} (hi : IvcInv env.overflowChecks s)
    {recs : SortedMap Nat IvcRecord} (hkeep : KeepLayouts recs s.state.ivc.records)
    {configs : List HvIvcConfig} (hconfigs : config.ivcConfig = some configs)
    (hne : config.zoneId ≠ 0)
    (hfits : ∀ c ∈ configs, ∃ rec, recs.get? c.ivcId = some rec ∧ rec.Fits c) {s' : StartState φ}
    {z : Nat} (hcreate : s.state.zoneCreate env config = some (.ok z, s')) :
    SetUpAgain env recs config configs s.state s' z ↔
      RoomFor config.zoneId configs s.state.ivc.records := by
  rcases zoneCreate_ivc hcreate with ⟨hres, -⟩ | ⟨configs', done, run₀, run, hc, hivc, hres⟩
  · cases hres
  obtain rfl : configs = configs' := Option.some.inj (hconfigs.symm.trans hc.ivcConfig)
  rcases hres with ⟨hres, -⟩ | ⟨cpuSet, hres, -, -, hspaces, -⟩
  · cases hres
  cases hres
  have hfits' : ∀ c ∈ configs, ∃ rec, run₀.records.get? c.ivcId = some rec ∧ rec.Fits c := by
    intro c hcm
    obtain ⟨rec, hrec, hfit⟩ := hfits c hcm
    obtain ⟨rec', hrec', hl⟩ := hkeep _ _ hrec
    rw [hc.records]
    exact ⟨rec', hrec', hfit.of_layout hl⟩
  have hroom : s.state.joins env config = configs ↔
      RoomFor config.zoneId configs s.state.ivc.records := by
    rw [hc.joins_eq, ← hc.records]
    exact joined_eq_iff hc.join hfits'
  rw [← hroom]
  refine ⟨SetUpAgain.joined, fun hall => ⟨hall, ?_, run.zone, ?_, ?_, ?_⟩⟩
  · rw [hivc, if_pos (hc.done_iff.mpr hall)]
    exact (SortedMap.get?_insert ..).trans (if_pos rfl)
  · rw [hspaces, if_neg hne, Function.update_self]
  · -- the record that there is now has the frames of the one that there was
    intro c hcm
    have hspec := hc.spec henv hi.valid
    obtain ⟨rec, hrec, -⟩ := hfits c hcm
    obtain ⟨rec', hrec', hl⟩ := (hkeep.trans hspec.keep) _ _ hrec
    obtain ⟨rec'', hrec'', -, hwin⟩ := hspec.windows c (hall ▸ hcm)
    obtain rfl := Option.some.inj (hrec'.symm.trans hrec'')
    have hmem : rec'.sharedMem = rec.sharedMem := congrArg (·.2.2.2) hl
    exact ⟨rec, hrec, hmem ▸ hwin⟩
  · intro c hcm
    exact hc.registered c (hall ▸ hcm)

/-- **What is left of a zone, and what it gets when it comes back.** In every history, a zone that
became a peer by all its configurations is shut down, and after more steps it is created again with
the same configuration. After the shutdown the records name the zone exactly if they did before; and
the zone is set up again exactly if no record is full when its turn comes. -/
theorem ivc_rejoin_iff (henv : env.Sound) {s : IvcHistory φ} {h : List IvcEvent}
    (r : (ivcHistory env).Run h s) {z : Nat} {zone : NewZone} (hz : s.state.spaces z = some zone)
    (hid : (s.state.machine.zones z).id = config.zoneId)
    (hconfigs : config.ivcConfig = some (s.joined z)) {irqBitmap : Nat → IrqBitmap}
    {gicd : Distributor} {q : Nat} {t : StartState φ}
    (hstop : s.state.hvZoneShutdown env irqBitmap gicd q (s.state.machine.zones z).id =
      some (.ok (), t)) {h' : List IvcEvent} {s₁ : IvcHistory φ}
    (r' : ((ivcHistory env).startingAt ⟨t, s.joined⟩).Run h' s₁) {z' : Nat} {t' : StartState φ}
    (hcreate : s₁.state.zoneCreate env config = some (.ok z', t')) :
    (¬ NamesZone t.ivc.records config.zoneId ↔ ¬ NamesZone s.state.ivc.records config.zoneId) ∧
      (SetUpAgain env s.state.ivc.records config (s.joined z) s₁.state t' z' ↔
        RoomFor config.zoneId (s.joined z) s₁.state.ivc.records) := by
  obtain ⟨hne, he, -⟩ := elsewhere_of_hvZoneShutdown hstop
  have hi := ivcInv_of_run henv r
  have ht : IvcInv env.overflowChecks ⟨t, s.joined⟩ := hi.elsewhere he rfl
  obtain ⟨hi₁, hkeep⟩ := keepLayouts_of_run henv ht r'
  have hsame : t.ivc.records = s.state.ivc.records := congrArg IvcTables.records he.ivc
  change KeepLayouts t.ivc.records _ at hkeep
  rw [hsame] at hkeep ⊢
  refine ⟨Iff.rfl, setUpAgain_iff henv hi₁ hkeep hconfigs (hid ▸ hne) ?_ hcreate⟩
  intro c hc
  obtain ⟨rec, hrec, hfits, -⟩ := hi.windows z zone hz c hc
  exact ⟨rec, hrec, hfits⟩

end Rejoin

/-! ## A zone on the board -/

/-- The zones are put on the list. -/
def IvcHistory.list (s : IvcHistory Nat) (zones : List Nat) : IvcHistory Nat :=
  { s with state := { s.state with machine := { s.state.machine with zoneList := zones } } }

theorem elsewhere_list (s : IvcHistory Nat) (zones : List Nat) :
    Elsewhere s.state (s.list zones).state :=
  ⟨rfl, fun _ zone hz => ⟨zone, hz, rfl, .refl, fun _ hcfg _ => hcfg⟩⟩

/-- A distributor with nothing enabled or active. -/
def quietGicd : Distributor := ⟨fun _ => 0, fun _ => 0⟩

/-- A zone on CPU 1 that is a peer, beside the root zone on CPU 0. -/
def loneZone : HvZoneConfig := ivcZone 1 1 (pairConfig 0) []

/-- The zone of the board is shut down. -/
def StartState.stopLone (s : StartState Nat) : Option (Except HvErrorNum Unit × StartState Nat) :=
  s.hvZoneShutdown (ivcBoard true) (fun _ => Vector.replicate _ 0) quietGicd 0 1

/-- The record of the zone: the number of its peers, the most it takes, and the zone that is peer
0. -/
def loneRecord (s : StartState Nat) : Option (Nat × Nat × Nat) :=
  (s.ivc.records.get? 7).bind fun rec =>
    (rec.peerInfos.get? 0).map fun info => (rec.peerInfos.size, rec.maxPeers, info.zoneId)

/-- The zone is created, shut down and created again. -/
theorem exists_lone : ∃ (s : IvcHistory Nat) (h : List IvcEvent) (zone : NewZone)
    (t t' : StartState Nat)
    (z' : Nat), (ivcHistory (ivcBoard true)).Run h s ∧ s.state.spaces 1 = some zone ∧
      s.joined 1 = [pairConfig 0] ∧ (s.state.machine.zones 1).id = 1 ∧
      s.state.stopLone = some (.ok (), t) ∧ loneRecord t = some (1, 2, 1) ∧
      t.zoneCreate (ivcBoard true) loneZone = some (.ok z', t') := by
  have hall : ((createAll (ivcBoard true) (noZones 0x40000000) [bareConfig 0 [0], loneZone]).bind
      fun s => (s.list [0, 1]).state.stopLone.bind fun stop =>
        (stop.2.zoneCreate (ivcBoard true) loneZone).map fun res =>
          ((s.state.spaces 1).isSome && stop.1.isOk && res.1.isOk &&
            (s.state.machine.zones 1).id == 1, s.joined 1, loneRecord stop.2)) =
      some (true, [pairConfig 0], some (1, 2, 1)) := by
    decide +kernel
  obtain ⟨s, hs, hall⟩ := Option.bind_eq_some_iff.mp hall
  obtain ⟨⟨res, t⟩, hstop, hall⟩ := Option.bind_eq_some_iff.mp hall
  obtain ⟨⟨res', t'⟩, hcreate, hall⟩ := Option.map_eq_some_iff.mp hall
  simp only [Prod.mk.injEq, Bool.and_eq_true, Option.isSome_iff_exists, beq_iff_eq] at hall
  obtain ⟨⟨⟨⟨⟨zone, hz⟩, hok⟩, hok'⟩, hid⟩, hj, hrecord⟩ := hall
  have r : (ivcHistory (ivcBoard true)).Run _ (s.list [0, 1]) :=
    .next (e := IvcEvent.other) (run_of_createAll (run_noZones _ _) hs)
      ⟨elsewhere_list s [0, 1], rfl⟩
  cases res with
  | error e => cases hok
  | ok u =>
    cases res' with
    | error e => cases hok'
    | ok z' => exact ⟨s.list [0, 1], _, zone, t, t', z', r, hz, hj, hid, hstop, hrecord, hcreate⟩

/-- A zone that comes back to a record with room for it is set up again, and was named all the
time. -/
theorem ivc_rejoin_lone : ∃ (recs : SortedMap Nat IvcRecord) (t t' : StartState Nat) (z' : Nat),
    SetUpAgain (ivcBoard true) recs loneZone [pairConfig 0] t t' z' ∧ NamesZone recs 1 := by
  obtain ⟨s, h, zone, t, t', z', r, hz, hj, hid, hstop, hrecord, hcreate⟩ := exists_lone
  obtain ⟨rec, hrec, hpeer⟩ := Option.bind_eq_some_iff.mp hrecord
  obtain ⟨info, hinfo, hpeer⟩ := Option.map_eq_some_iff.mp hpeer
  simp only [Prod.mk.injEq] at hpeer
  obtain ⟨hsize, hmax, hzone⟩ := hpeer
  have hstop' : s.state.hvZoneShutdown (ivcBoard true) (fun _ => Vector.replicate _ 0) quietGicd 0
      (s.state.machine.zones 1).id = some (.ok (), t) := by
    rw [hid]
    exact hstop
  have hid' : (s.state.machine.zones 1).id = loneZone.zoneId := hid
  have hconfigs : loneZone.ivcConfig = some (s.joined 1) := by
    rw [hj]
    decide
  obtain ⟨hnames, hset⟩ := ivc_rejoin_iff (ivcBoard_sound true) r hz hid' hconfigs hstop'
    (.start rfl) hcreate
  rw [hj] at hset
  refine ⟨s.state.ivc.records, t, t', z', hset.mpr ⟨rec, hrec, ?_, trivial⟩, ?_⟩
  · rw [hsize, hmax]
    decide
  · by_contra hno
    exact hnames.mpr hno ⟨7, 0, info, Option.bind_eq_some_iff.mpr ⟨rec, hrec, hinfo⟩, hzone⟩

/-- **A record that names a removed zone**, right after its shutdown. -/
theorem removed_zone_named : ¬ ∀ (env : StartEnv Nat) (s : IvcHistory Nat) (h : List IvcEvent),
    env.Sound → (ivcHistory env).Run h s → ∀ z irqBitmap gicd q t, s.joined z ≠ [] →
      s.state.hvZoneShutdown env irqBitmap gicd q (s.state.machine.zones z).id = some (.ok (), t) →
      ¬ NamesZone t.ivc.records (s.state.machine.zones z).id := by
  intro hall
  obtain ⟨s, h, zone, t, t', z', r, -, hj, hid, hstop, hrecord, -⟩ := exists_lone
  obtain ⟨rec, hrec, hpeer⟩ := Option.bind_eq_some_iff.mp hrecord
  obtain ⟨info, hinfo, hpeer⟩ := Option.map_eq_some_iff.mp hpeer
  simp only [Prod.mk.injEq] at hpeer
  have hne : s.joined 1 ≠ [] := by
    rw [hj]
    exact List.cons_ne_nil _ _
  have hno := hall _ s h (ivcBoard_sound true) r 1 (fun _ => Vector.replicate _ 0) quietGicd 0 t hne
  rw [hid] at hno
  exact hno hstop ⟨7, 0, info, Option.bind_eq_some_iff.mpr ⟨rec, hrec, hinfo⟩, hpeer.2.2⟩

end Hvisor
