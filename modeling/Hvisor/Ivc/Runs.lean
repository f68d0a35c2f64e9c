import Hvisor.Ivc.Joins
import Hvisor.Lib.TransitionSystem
import Hvisor.Zone.StartFailure

/-!
# Shared memories over the time of zones

Histories of creations of zones, with whatever the hypervisor does in between, and for each zone the
configurations by which it became a peer. Zones that have no memory any more are gone. In between,
the tables of the shared memories stay as they are, and page tables only grow: no function of the
hypervisor deletes a region of a zone. What `pci_init` inserts into a new zone counts as inserted
afterwards.

## Main definitions

* `StartEnv.Sound`: what the parts that are parameters promise
* `StartState.zoneBefore`, `StartState.joins`: a new zone before it becomes a peer, and the
  configurations by which it does
* `Elsewhere`: what the hypervisor does in between
* `ivcHistory`: the histories
* `IvcInv`: records have their frames, and zones their windows
* `ivcBoard`, `createAll`: a board, and zones that are created one after the other

## Main results

* `zoneCreate_ivc`: what the creation of a zone does to the shared memories
* `Creation.rule`: what holds before a zone becomes a peer and is kept by each configuration
* `ivcInv_of_run`: the invariant
-/

namespace Hvisor

open MemorySet TransitionSystem

variable {φ : Type}

/-! ## New zones -/

/-- What the parts that are parameters promise: frames that are aligned, page tables that are well
formed, and devices that are not control tables. -/
structure StartEnv.Sound (env : StartEnv φ) : Prop where
  allocContiguous : GivesFrames env.allocContiguous
  newS2MemorySet : ∀ frames gpm frames', env.newS2MemorySet frames = some (gpm, frames') →
    gpm.st.Inv
  mmioInit : ∀ zone config zone', env.mmioInit zone config = some zone' →
    zone.gpm.Grown zone'.gpm ∧ ∀ cfg ∈ zone'.mmio, cfg.handler = .mmio_ivc_handler → cfg ∈ zone.mmio

section Before

variable (env : StartEnv φ) (s : StartState φ) (config : HvZoneConfig)

/-- The new zone before it becomes a peer, with the frames that are left. -/
def StartState.zoneBefore : Option (NewZone × φ) := do
  let (gpm, frames) ← env.newS2MemorySet s.frames
  let zone ← ptInit ⟨gpm, []⟩ (← config.memoryRegionsUsed)
  let zone ← env.mmioInit zone config
  return (zone, frames)

/-- The configurations by which the new zone becomes a peer. -/
def StartState.joins : List HvIvcConfig :=
  match s.zoneBefore env config, config.ivcConfig with
  | some (_, frames), some configs =>
    ivcJoined env.overflowChecks env.allocContiguous config.zoneId configs s.ivc.records frames
  | _, _ => []

/-- **A creation comes to `ivc_init`** with the zone and the frames of `run₀`, and leaves it with
those of `run`: no zone of the list has the id. -/
structure Creation (configs : List HvIvcConfig) (done : Bool) (run₀ run : IvcRun φ) : Prop where
  fresh : s.machine.findZone config.zoneId = some none
  before : s.zoneBefore env config = some (run₀.zone, run₀.frames)
  records : run₀.records = s.ivc.records
  ivcConfig : config.ivcConfig = some configs
  join : ivcJoin env.overflowChecks env.allocContiguous config.zoneId configs run₀ =
    some (done, run)

end Before

variable {env : StartEnv φ} {s s' : StartState φ} {config : HvZoneConfig}
  {configs : List HvIvcConfig} {done : Bool} {run₀ run : IvcRun φ} {zone zone' : NewZone}
  {regions : List HvConfigMemoryRegion} {frames : φ}

/-- **What a creation does to the shared memories**: nothing, when the id is in use; else what
`ivc_init` does, also when the zone cannot have its CPUs. -/
theorem zoneCreate_ivc {res : Except HvErrorNum Nat}
    (h : s.zoneCreate env config = some (res, s')) :
    (res = .error .EINVAL ∧ s' = s) ∨
      ∃ configs done run₀ run, Creation env s config configs done run₀ run ∧
        s'.ivc = ⟨run.records, if done then s.ivc.infos.insert config.zoneId (.fromConfigs configs)
          else s.ivc.infos⟩ ∧
        ((res = .error .EBUSY ∧ s'.machine = s.machine ∧ s'.spaces = s.spaces ∧
            ∃ zone, s'.frames = env.dropZone zone run.frames) ∨
          ∃ cpuSet, res = .ok s.machine.nextZone ∧ s'.machine = s.machine.withZone config cpuSet ∧
            s'.frames = run.frames ∧ s'.spaces = Function.update s.spaces s.machine.nextZone
              (some (if config.zoneId = 0 then run.zone.mmioRegionRegister HYPERAMP_CTRL_PA
                HYPERAMP_CTRL_SIZE .mmio_hyperamp_handler HYPERAMP_CTRL_PA else run.zone)) ∧
            ∀ c ∈ config.cpuList, s.machine.zone c = none) := by
  simp only [StartState.zoneCreate, Option.bind_eq_bind] at h
  obtain ⟨found, hfind, h⟩ := Option.bind_eq_some_iff.mp h
  cases found with
  | some z =>
    cases h
    exact .inl ⟨rfl, rfl⟩
  | none =>
    simp only [Option.bind_eq_some_iff] at h
    obtain ⟨⟨gpm, frames⟩, hgpm, regions, hregions, zone, hzone, zone₁, hzone₁, configs, hconfigs,
      ⟨ivc, frames₁, zone₂⟩, hivc, smmu, hsmmu, res', hcheck, h⟩ := h
    obtain ⟨⟨done, run⟩, hjoin, he⟩ := Option.map_eq_some_iff.mp hivc
    simp only [Prod.mk.injEq] at he
    obtain ⟨rfl, rfl, rfl⟩ := he
    have hbefore : s.zoneBefore env config = some (zone₁, frames) := by
      simp only [StartState.zoneBefore, hgpm, hregions, hzone, hzone₁, Option.bind_eq_bind,
        Option.bind_some, Option.pure_def]
    refine .inr ⟨configs, done, ⟨s.ivc.records, frames, zone₁⟩, run,
      ⟨hfind, hbefore, rfl, hconfigs, hjoin⟩, ?_⟩
    cases res' with
    | error u =>
      cases h
      exact ⟨rfl, .inl ⟨rfl, rfl, rfl, _, rfl⟩⟩
    | ok cpuSet =>
      cases h
      exact ⟨rfl, .inr ⟨cpuSet, rfl, rfl, rfl, rfl, (Machine.checkCpus_ok hcheck).1⟩⟩

theorem Creation.joins_eq (h : Creation env s config configs done run₀ run) :
    s.joins env config = ivcJoined env.overflowChecks env.allocContiguous config.zoneId configs
      run₀.records run₀.frames := by
  rw [StartState.joins, h.before, h.ivcConfig, h.records]

/-- `ivc_init` comes to its end when the zone becomes a peer by all its configurations. -/
theorem Creation.done_iff (h : Creation env s config configs done run₀ run) :
    done = true ↔ s.joins env config = configs := by
  rw [h.joins_eq]
  rcases ivcJoined_of_ivcJoin h.join with ⟨hdone, hall⟩ | ⟨hdone, c, rest, -, hsplit⟩
  · exact iff_of_true hdone hall
  · -- the configuration that is turned away is not one of those
    refine iff_of_false (hdone ▸ Bool.false_ne_true) fun hall => ?_
    rw [hall] at hsplit
    exact absurd hsplit (by simp)

/-- **What `ivc_init` keeps**: what holds before and is kept by each configuration by which the zone
becomes a peer holds afterwards. -/
theorem Creation.rule (h : Creation env s config configs done run₀ run)
    {P : List HvIvcConfig → IvcRun φ → Prop} (start : P [] run₀)
    (step : ∀ acc c rec s₁ s₂, c ∈ s.joins env config → P acc s₁ →
      JoinStep env.overflowChecks env.allocContiguous config.zoneId c rec s₁ s₂ →
        P (acc ++ [c]) s₂) :
    P (s.joins env config) run := by
  rw [h.joins_eq] at step ⊢
  exact ivcJoin_rule start step h.join

/-- Regions of the configuration only add to the page table, and are no control tables. -/
theorem of_ptInit (hinv : zone.gpm.st.Inv) (h : ptInit zone regions = some zone') :
    zone.gpm.Grows zone'.gpm ∧
      ∀ cfg ∈ zone'.mmio, cfg.handler = .mmio_ivc_handler → cfg ∈ zone.mmio := by
  induction regions generalizing zone with
  | nil =>
    cases h
    exact ⟨.refl hinv, fun cfg hcfg _ => hcfg⟩
  | cons region regions ih =>
    rw [ptInit, List.foldlM_cons] at h
    obtain ⟨zone₁, hregion, hrest⟩ := Option.bind_eq_some_iff.mp h
    have hstep : zone.gpm.Grows zone₁.gpm ∧
        ∀ cfg ∈ zone₁.mmio, cfg.handler = .mmio_ivc_handler → cfg ∈ zone.mmio := by
      rw [ptInitRegion] at hregion
      split at hregion
      · obtain ⟨gpm, hgpm, rfl⟩ := Option.map_eq_some_iff.mp hregion
        exact ⟨.of_insert hinv (.inl (insertRegion_eq_some.mp hgpm)), fun cfg hcfg _ => hcfg⟩
      · split at hregion
        · cases hregion
          refine ⟨.refl hinv, fun cfg hcfg hh => ?_⟩
          rcases mem_mmioRegionRegister hcfg with hcfg | ⟨-, hvirtio, -⟩
          · exact hcfg
          · rw [hh] at hvirtio
            cases hvirtio
        · cases hregion
    obtain ⟨hg, hmmio⟩ := ih hstep.1.inv hrest
    exact ⟨hstep.1.trans hg, fun cfg hcfg hh => hstep.2 cfg (hmmio cfg hcfg hh) hh⟩

/-- A new zone has a page table, and no control table before it becomes a peer. -/
theorem of_zoneBefore (henv : env.Sound) (h : s.zoneBefore env config = some (zone, frames)) :
    zone.gpm.st.Inv ∧ ∀ cfg ∈ zone.mmio, cfg.handler ≠ .mmio_ivc_handler := by
  simp only [StartState.zoneBefore, Option.bind_eq_bind, Option.bind_eq_some_iff] at h
  obtain ⟨⟨gpm, frames₁⟩, hgpm, regions, -, zone₁, hzone₁, zone₂, hzone₂, h⟩ := h
  cases h
  obtain ⟨hg, hpt⟩ := of_ptInit (henv.newS2MemorySet _ _ _ hgpm) hzone₁
  obtain ⟨hgrown, hmmio⟩ := henv.mmioInit _ _ _ hzone₂
  refine ⟨(hgrown.grows hg.inv).inv, fun cfg hcfg hh => ?_⟩
  cases hpt cfg (hmmio cfg hcfg hh) hh

/-! ## Windows of all configurations -/

/-- The zone has the windows of the configurations, on the memories of the records. -/
def HasWindows (overflowChecks : Bool) (recs : SortedMap Nat IvcRecord)
    (gpm : MemorySet PageTableEntry) (configs : List HvIvcConfig) : Prop :=
  ∀ c ∈ configs, ∃ rec, recs.get? c.ivcId = some rec ∧ rec.Fits c ∧
    Windows overflowChecks gpm c rec.sharedMem.startPaddr

theorem HasWindows.mono {overflowChecks : Bool} {recs recs' : SortedMap Nat IvcRecord}
    {gpm gpm' : MemorySet PageTableEntry} (h : HasWindows overflowChecks recs gpm configs)
    (hrecs : KeepLayouts recs recs') (hg : gpm.Grows gpm') :
    HasWindows overflowChecks recs' gpm' configs := by
  intro c hc
  obtain ⟨rec, hrec, hfits, hwin⟩ := h c hc
  obtain ⟨rec', hrec', hl⟩ := hrecs _ _ hrec
  have hmem : rec'.sharedMem = rec.sharedMem := congrArg (·.2.2.2) hl
  exact ⟨rec', hrec', hfits.of_layout hl, hmem ▸ hwin.grows hg⟩

/-- What `ivc_init` does: records keep their sizes and frames, and the new zone has the windows of
its configurations. -/
structure JoinSpec (overflowChecks : Bool) (recs : SortedMap Nat IvcRecord) (zone : NewZone)
    (configs : List HvIvcConfig) (run : IvcRun φ) : Prop where
  keep : KeepLayouts recs run.records
  valid : ∀ id rec, run.records.get? id = some rec → rec.Valid overflowChecks
  grows : zone.gpm.Grows run.zone.gpm
  windows : HasWindows overflowChecks run.records run.zone.gpm configs

/-- One more configuration. -/
theorem JoinSpec.step {recs : SortedMap Nat IvcRecord} {acc : List HvIvcConfig} {c : HvIvcConfig}
    {rec : IvcRecord} {zoneId : Nat} {s₁ s₂ : IvcRun φ}
    (hs : JoinSpec env.overflowChecks recs zone acc s₁) (henv : env.Sound)
    (hstep : JoinStep env.overflowChecks env.allocContiguous zoneId c rec s₁ s₂) :
    JoinSpec env.overflowChecks recs zone (acc ++ [c]) s₂ := by
  obtain ⟨-, hvalid₂⟩ := hstep.valid henv.allocContiguous hs.valid
  obtain ⟨hg, hwin⟩ := hstep.windows hs.grows.inv
  refine ⟨hs.keep.trans hstep.keepLayouts, hvalid₂, hs.grows.trans hg, ?_⟩
  intro c' hc'
  rcases List.mem_append.mp hc' with hc' | hc'
  · exact (hs.windows.mono hstep.keepLayouts hg) c' hc'
  · obtain rfl := List.mem_singleton.mp hc'
    refine ⟨_, (hstep.get?_records).trans (if_pos rfl), ?_, hwin⟩
    exact hstep.fits.of_layout IvcRecord.layout_insertPeer

theorem Creation.spec (h : Creation env s config configs done run₀ run) (henv : env.Sound)
    (hvalid : ∀ id rec, s.ivc.records.get? id = some rec → rec.Valid env.overflowChecks) :
    JoinSpec env.overflowChecks s.ivc.records run₀.zone (s.joins env config) run := by
  obtain ⟨hinv, -⟩ := of_zoneBefore henv h.before
  apply h.rule (P := fun acc run => JoinSpec env.overflowChecks s.ivc.records run₀.zone acc run)
  · rw [← h.records] at hvalid ⊢
    exact ⟨.refl _, hvalid, .refl hinv, nofun⟩
  · intro acc c rec s₁ s₂ _ hs hstep
    exact hs.step henv hstep

/-! ## Histories -/

/-- What the hypervisor does that is not the creation of a zone: the tables of the shared memories
stay as they are, zones may go, and the others keep their id, their control tables and what they
map. -/
structure Elsewhere (s s' : StartState φ) : Prop where
  ivc : s'.ivc = s.ivc
  zone : ∀ z zone', s'.spaces z = some zone' → ∃ zone, s.spaces z = some zone ∧
    (s'.machine.zones z).id = (s.machine.zones z).id ∧ zone.gpm.Grown zone'.gpm ∧
    ∀ cfg ∈ zone'.mmio, cfg.handler = .mmio_ivc_handler → cfg ∈ zone.mmio

/-- The state, and for each zone the configurations by which it became a peer. -/
structure IvcHistory (φ : Type) where
  state : StartState φ
  joined : Nat → List HvIvcConfig

/-- The steps: creations, and what the hypervisor does in between. -/
inductive IvcEvent where
  | create (config : HvZoneConfig)
  | other

/-- The creation of a zone. -/
def IvcHistory.create (env : StartEnv φ) (s : IvcHistory φ) (config : HvZoneConfig) :
    Option (IvcHistory φ) :=
  (s.state.zoneCreate env config).map fun (res, state) =>
    ⟨state, match res with
      | .ok z => Function.update s.joined z (s.state.joins env config)
      | .error _ => s.joined⟩

/-- **The histories**, from a state before the first zone. -/
def ivcHistory (env : StartEnv φ) : TransitionSystem (IvcHistory φ) IvcEvent where
  init s := (∀ z, s.state.spaces z = none) ∧ s.state.ivc = ⟨.empty, .empty⟩
  step s e s' :=
    match e with
    | .create config => s.create env config = some s'
    | .other => Elsewhere s.state s'.state ∧ s'.joined = s.joined

section Histories

variable {s s' : IvcHistory φ} {h : List IvcEvent}

/-- **The ways a creation goes**: it is refused; or the zone becomes a peer and is dropped; or the
zone is there. -/
theorem create_cases (hs : s.create env config = some s') :
    s' = s ∨ ∃ configs done run₀ run, Creation env s.state config configs done run₀ run ∧
      s'.state.ivc = ⟨run.records, if done then
        s.state.ivc.infos.insert config.zoneId (.fromConfigs configs) else s.state.ivc.infos⟩ ∧
      ((s'.state.spaces = s.state.spaces ∧ s'.state.machine = s.state.machine ∧
          (∃ zone, s'.state.frames = env.dropZone zone run.frames) ∧ s'.joined = s.joined) ∨
        ∃ zone, s'.state.frames = run.frames ∧
          s'.state.spaces = Function.update s.state.spaces s.state.machine.nextZone (some zone) ∧
          zone.gpm = run.zone.gpm ∧
          (∀ cfg ∈ zone.mmio, cfg.handler = .mmio_ivc_handler → cfg ∈ run.zone.mmio) ∧
          (config.zoneId ≠ 0 → zone = run.zone) ∧
          (∀ z, (s'.state.machine.zones z).id = if z = s.state.machine.nextZone then config.zoneId
            else (s.state.machine.zones z).id) ∧
          s'.joined = Function.update s.joined s.state.machine.nextZone
            (s.state.joins env config) ∧
          ∀ c ∈ config.cpuList, s.state.machine.zone c = none) := by
  obtain ⟨⟨res, state⟩, hcreate, rfl⟩ := Option.map_eq_some_iff.mp hs
  rcases zoneCreate_ivc hcreate with ⟨rfl, rfl⟩ | ⟨configs, done, run₀, run, hc, hivc, hres⟩
  · exact .inl rfl
  refine .inr ⟨configs, done, run₀, run, hc, hivc, ?_⟩
  rcases hres with ⟨rfl, hmachine, hspaces, hframes⟩ |
    ⟨cpuSet, rfl, hmachine, hframes, hspaces, hcpus⟩
  · exact .inl ⟨hspaces, hmachine, hframes, rfl⟩
  · refine .inr ⟨_, hframes, hspaces, ?_, ?_, fun hne => if_neg hne, ?_, rfl, hcpus⟩
    · split <;> rfl
    · intro cfg hcfg hh
      split at hcfg
      · rcases mem_mmioRegionRegister hcfg with hcfg | ⟨-, hyper, -⟩
        · exact hcfg
        · rw [hh] at hyper
          cases hyper
      · exact hcfg
    · intro z
      show (state.machine.zones z).id = _
      rw [hmachine, (Machine.zone_withZone _ _ _).1, Function.update_apply]
      split <;> rfl

/-- **Records have their frames, and zones their windows** on the memories of the records. -/
structure IvcInv (overflowChecks : Bool) (s : IvcHistory φ) : Prop where
  valid : ∀ id rec, s.state.ivc.records.get? id = some rec → rec.Valid overflowChecks
  inv : ∀ z zone, s.state.spaces z = some zone → zone.gpm.st.Inv
  windows : ∀ z zone, s.state.spaces z = some zone →
    HasWindows overflowChecks s.state.ivc.records zone.gpm (s.joined z)

/-- Creations keep the sizes and the frames of records. -/
theorem keepLayouts_of_create (hi : IvcInv env.overflowChecks s) (henv : env.Sound)
    (hs : s.create env config = some s') :
    KeepLayouts s.state.ivc.records s'.state.ivc.records := by
  rcases create_cases hs with rfl | ⟨configs, done, run₀, run, hc, hivc, -⟩
  · exact .refl _
  · rw [hivc]
    exact (hc.spec henv hi.valid).keep

/-- What the hypervisor does in between keeps the windows. -/
theorem IvcInv.elsewhere (hi : IvcInv env.overflowChecks s) (he : Elsewhere s.state s'.state)
    (hj : s'.joined = s.joined) : IvcInv env.overflowChecks s' := by
  refine ⟨?_, ?_, ?_⟩
  · rw [he.ivc]
    exact hi.valid
  · intro z zone' hz
    obtain ⟨zone, hzone, -, hg, -⟩ := he.zone z zone' hz
    exact (hg.grows (hi.inv z zone hzone)).inv
  · intro z zone' hz
    obtain ⟨zone, hzone, -, hg, -⟩ := he.zone z zone' hz
    rw [he.ivc, hj]
    exact (hi.windows z zone hzone).mono (.refl _) (hg.grows (hi.inv z zone hzone))

/-- A creation keeps the windows of all zones, and gives the new zone its own. -/
theorem IvcInv.create (hi : IvcInv env.overflowChecks s) (henv : env.Sound)
    (hs : s.create env config = some s') : IvcInv env.overflowChecks s' := by
  rcases create_cases hs with rfl | ⟨configs, done, run₀, run, hc, hivc, hres⟩
  · exact hi
  have hspec := hc.spec henv hi.valid
  have hrecs : s'.state.ivc.records = run.records := congrArg IvcTables.records hivc
  have hold : ∀ z zone, s.state.spaces z = some zone →
      HasWindows env.overflowChecks run.records zone.gpm (s.joined z) := fun z zone hz =>
    (hi.windows z zone hz).mono hspec.keep (.refl (hi.inv z zone hz))
  rcases hres with ⟨hspaces, -, -, hj⟩ | ⟨zone, -, hspaces, hgpm, -, -, -, hj, -⟩
  · refine ⟨hrecs ▸ hspec.valid, hspaces ▸ hi.inv, ?_⟩
    rw [hspaces, hrecs, hj]
    exact hold
  · refine ⟨hrecs ▸ hspec.valid, ?_, ?_⟩
    · intro z zone₁ hz
      rw [hspaces, Function.update_apply] at hz
      split at hz
      · obtain rfl := Option.some.inj hz
        rw [hgpm]
        exact hspec.grows.inv
      · exact hi.inv z zone₁ hz
    · intro z zone₁ hz
      rw [hspaces, Function.update_apply] at hz
      rw [hrecs, hj, Function.update_apply]
      split at hz
      · next hnew =>
        obtain rfl := Option.some.inj hz
        rw [if_pos hnew, hgpm]
        exact hspec.windows
      · next hnew =>
        rw [if_neg hnew]
        exact hold z zone₁ hz

theorem ivcInv_of_init (hs : (ivcHistory env).init s) : IvcInv env.overflowChecks s := by
  obtain ⟨hspaces, hivc⟩ := hs
  refine ⟨fun id rec hrec => ?_, fun z zone hz => ?_, fun z zone hz => ?_⟩
  · rw [hivc] at hrec
    cases (SortedMap.get?_eq_none.mpr fun _ => SortedMap.not_mem_empty).symm.trans hrec
  · rw [hspaces] at hz
    cases hz
  · rw [hspaces] at hz
    cases hz

/-- **In every history** records have their frames, and zones their windows. -/
theorem ivcInv_of_run (henv : env.Sound) (r : (ivcHistory env).Run h s) :
    IvcInv env.overflowChecks s := by
  refine r.invariant (I := fun _ s => IvcInv env.overflowChecks s) (fun _ => ivcInv_of_init) ?_
  intro h s e s' _ hi hs
  cases e with
  | create config => exact hi.create henv hs
  | other => exact hi.elsewhere hs.1 hs.2

end Histories

/-! ## A board -/

/-- A board with frames that are handed out one after the other, up to the largest address. -/
def ivcBoard (overflowChecks : Bool) : StartEnv Nat where
  overflowChecks := overflowChecks
  pci := false
  iommu := false
  allocContiguous next count :=
    if next % pageSize = 0 ∧ next + count * pageSize ≤ 2 ^ 48 then
      some (next, next + count * pageSize)
    else none
  newS2MemorySet next := some (freshSet 0x1000 someFrames.tail, next)
  mmioInit zone _ := some zone
  dropZone _ next := next

theorem ivcBoard_sound (overflowChecks : Bool) : (ivcBoard overflowChecks).Sound := by
  refine ⟨?_, ?_, ?_⟩
  · intro frames count start frames' h
    simp only [ivcBoard, Option.ite_none_right_eq_some, Option.some.injEq, Prod.mk.injEq] at h
    obtain ⟨⟨hal, hbound⟩, rfl, -⟩ := h
    exact ⟨hal, hbound⟩
  · intro frames gpm frames' h
    obtain ⟨rfl, -⟩ := Prod.mk.inj (Option.some.inj h)
    exact (new_spec (frameAddr_of_lt (by decide)) (by decide)
      (new_freshSet 0x1000 someFrames.tail)).1
  · intro zone config zone' h
    obtain rfl := Option.some.inj h
    exact ⟨.refl, fun cfg hcfg _ => hcfg⟩

/-- Before the first zone. -/
def noZones (next : Nat) : IvcHistory Nat where
  state :=
    { machine := { bootMachine with zone := fun _ => none, zoneList := [], nextZone := 0 }
      spaces := fun _ => none
      ivc := ⟨.empty, .empty⟩
      smmu := ⟨0, fun _ _ => 0, fun _ => 0⟩
      frames := next }
  joined _ := []

/-- A zone on one CPU that takes part in shared memories. -/
def ivcZone (id cpu : Nat) (c₁ : HvIvcConfig) (more : List HvIvcConfig) : HvZoneConfig :=
  { bareConfig id [cpu] with
    numIvcConfigs := more.length + 1
    ivcConfigs := #v[c₁, more.headD c₁] }

/-- The creation of zones one after the other. -/
def createAll (env : StartEnv Nat) (s : IvcHistory Nat) (configs : List HvZoneConfig) :
    Option (IvcHistory Nat) :=
  configs.foldlM (IvcHistory.create env) s

theorem run_of_createAll {env : StartEnv Nat} {s s' : IvcHistory Nat} {h : List IvcEvent}
    {configs : List HvZoneConfig} (r : (ivcHistory env).Run h s)
    (hc : createAll env s configs = some s') :
    (ivcHistory env).Run ((configs.map IvcEvent.create).reverse ++ h) s' := by
  induction configs generalizing h s with
  | nil =>
    cases hc
    exact r
  | cons config configs ih =>
    rw [createAll, List.foldlM_cons] at hc
    obtain ⟨s₁, hs₁, hc⟩ := Option.bind_eq_some_iff.mp hc
    rw [List.map_cons, List.reverse_cons, List.append_assoc]
    exact ih (.next (e := IvcEvent.create config) r hs₁) hc

theorem run_noZones (env : StartEnv Nat) (next : Nat) : (ivcHistory env).Run [] (noZones next) :=
  .start ⟨fun _ => rfl, rfl⟩

end Hvisor
