import Hvisor.Ivc.Isolation
import Hvisor.Lib.Grants
import Hvisor.Zone.Validation

/-!
# The memory of zones

What the page tables of all zones reach, over the time of the zones: the memory of the configuration
of the zone, and the shared memories that it has joined. Nothing else of the pool of frames is
reached, which has the page tables. This needs what nothing checks: that the memory of a
configuration is outside of the pool. Two zones share no more than what both have joined exactly
when their configurations have no memory in common. The registers of devices, which zones may have
in common, are a parameter.

## Main definitions

* `HvConfigMemoryRegion.Backs`, `HvZoneConfig.Memory`: the memory of a configuration
* `HvZoneConfig.Placed`: the memory of a configuration has whole pages, outside of the pool
* `memHistory`: histories of zones, with their configurations
* `Placeable`, `PlacedStep`: the conditions on a creation, and on any step
* `MemHistory.grants`: who is granted which memory
* `MemoryExact`: a zone reaches what it is granted
* `MemoryIsolated`: two zones reach what both have joined

## Main results

* `query_of_zoneBefore`: a new zone reaches the memory of its configuration
* `Creation.reaches`: what it reaches when it has become a peer
* `memoryInv_of_run`: the invariant
* `memoryExact_of_run`: zones reach what they are granted
* `memoryIsolated_iff_of_run`: zones are isolated when their configurations are apart
-/

namespace Hvisor

open MemorySet TransitionSystem

/-! ## The memory of a configuration -/

namespace HvConfigMemoryRegion

variable (region : HvConfigMemoryRegion)

/-- The region is mapped, and has the physical address. -/
def Backs (pa : Nat) : Prop :=
  region.mapped?.isSome ∧ region.physicalStart ≤ pa ∧ pa < region.physicalStart + region.size

/-- The access that a zone has to a region. -/
def access : MemFlags :=
  MemFlags.READ ||| MemFlags.WRITE |||
    if region.memType = MEM_TYPE_IO then MemFlags.Io else MemFlags.empty

end HvConfigMemoryRegion

namespace HvZoneConfig

/-- The physical address is memory of the configuration. -/
def Memory (config : HvZoneConfig) (pa : Nat) : Prop :=
  ∃ region ∈ config.usedRegions, region.Backs pa

/-- **The memory of the configuration** has whole pages, as the page tables do, and is outside of
the pool. -/
structure Placed (pool : Nat → Prop) (config : HvZoneConfig) : Prop where
  aligned : ∀ region ∈ config.usedRegions, region.mapped?.isSome →
    region.physicalStart % pageSize = 0
  bound : ∀ region ∈ config.usedRegions, region.mapped?.isSome →
    region.physicalStart + region.size ≤ 2 ^ 48
  outside : ∀ pa, config.Memory pa → ¬ pool pa

end HvZoneConfig

section Regions

variable {pool : Nat → Prop} {config : HvZoneConfig} {region : HvConfigMemoryRegion}
  {r : MemoryRegion} {gpm : MemorySet PageTableEntry}

/-- The access flags of a region as entries keep them. -/
theorem kept_access : kept (MemFlags.READ ||| MemFlags.WRITE ||| MemFlags.EXECUTE |||
    if region.memType = MEM_TYPE_IO then MemFlags.Io else MemFlags.empty) = region.access := by
  rw [HvConfigMemoryRegion.access]
  split
  · decide
  · decide

/-- What is mapped for a region. -/
theorem mapped?_eq_some (h : region.mapped? = some r) :
    r = .newWithOffsetMapper region.virtualStart region.physicalStart region.size
      (MemFlags.READ ||| MemFlags.WRITE ||| MemFlags.EXECUTE |||
        if region.memType = MEM_TYPE_IO then MemFlags.Io else MemFlags.empty) := by
  rw [HvConfigMemoryRegion.mapped?] at h
  split at h
  · exact (Option.some.inj h).symm
  · cases h

theorem size_mapped (h : region.mapped? = some r) :
    r.start = region.virtualStart ∧ r.size = region.size := by
  rw [mapped?_eq_some h]
  exact ⟨rfl, rfl⟩

/-- The target of an address of a region. -/
theorem target_mapped (h : region.mapped? = some r) (hva : region.virtualStart < 2 ^ 64)
    (hpa : region.physicalStart + region.size ≤ 2 ^ 48) {d : Nat} (hd : d < region.size) :
    target r (region.virtualStart + d) = (region.physicalStart + d, region.access) := by
  rw [mapped?_eq_some h, target, mapFn_newWithOffsetMapper _ _ hva (by omega),
    Nat.mod_mod_of_dvd _ (by decide), Nat.mod_eq_of_lt (by omega), ← kept_access]
  rfl

theorem HvZoneConfig.mem_mappedRegions : r ∈ config.mappedRegions ↔
    ∃ region ∈ config.usedRegions, region.mapped? = some r := by
  rw [mappedRegions, List.mem_filterMap]

namespace HvZoneConfig.Placed

variable (h : config.Placed pool)
include h

/-- The regions keep pages aligned. -/
theorem hasOffset (hr : r ∈ config.mappedRegions) (hlt : r.start + r.size < usizeSize) :
    HasOffset r := by
  obtain ⟨region, hregion, hmap⟩ := mem_mappedRegions.mp hr
  obtain ⟨hstart, hsize⟩ := size_mapped hmap
  have hsome : region.mapped?.isSome := hmap ▸ rfl
  have hpa := h.bound region hregion hsome
  rw [usizeSize] at hlt
  rw [mapped?_eq_some hmap]
  apply hasOffset_newWithOffsetMapper
  · omega
  · omega
  · exact h.aligned region hregion hsome

/-- The target of an address of a region is in the memory of the configuration. -/
theorem memory_target (hr : r ∈ config.mappedRegions) (hlt : r.start + r.size < usizeSize)
    {va : Nat} (hva : r.Mem va) : config.Memory (target r va).1 := by
  obtain ⟨region, hregion, hmap⟩ := mem_mappedRegions.mp hr
  obtain ⟨hstart, hsize⟩ := size_mapped hmap
  have hsome : region.mapped?.isSome := hmap ▸ rfl
  obtain ⟨hlo, hhi⟩ := hva
  rw [hstart] at hlo
  obtain ⟨d, rfl⟩ := Nat.exists_eq_add_of_le hlo
  rw [usizeSize] at hlt
  rw [target_mapped hmap (by omega) (h.bound region hregion hsome) (by omega)]
  exact ⟨region, hregion, hsome, Nat.le_add_right _ _, by omega⟩

/-- **The answer for the memory of the configuration**, where it is mapped. -/
theorem query (hinv : gpm.st.Inv) (hmaps : ∀ r ∈ config.mappedRegions, gpm.Maps r)
    (hregion : region ∈ config.usedRegions) (hsome : region.mapped?.isSome) {d : Nat}
    (hd : d < region.size) :
    ∃ ps, gpm.pageTableQuery (region.virtualStart + d) =
      .ok (region.physicalStart + d, region.access, ps) := by
  obtain ⟨r, hmap⟩ := Option.isSome_iff_exists.mp hsome
  obtain ⟨hstart, hsize⟩ := size_mapped hmap
  have hr : r ∈ config.mappedRegions := mem_mappedRegions.mpr ⟨region, hregion, hmap⟩
  have hlt := (hmaps r hr).bound (by omega)
  have hva : r.Mem (region.virtualStart + d) := by
    rw [MemoryRegion.Mem]
    omega
  obtain ⟨ps, hq⟩ := (hmaps r hr).query hinv (h.hasOffset hr hlt) hva
  rw [usizeSize] at hlt
  rw [target_mapped hmap (by omega) (h.bound region hregion hsome) hd] at hq
  exact ⟨ps, hq⟩

end HvZoneConfig.Placed

end Regions

/-! ## New zones -/

section New

variable {φ : Type} {env : StartEnv φ} {pool device : Nat → Prop} {held : φ → Nat → Prop}
  {s : StartState φ} {config : HvZoneConfig} {zone : NewZone} {frames : φ}

/-- **What a board promises**: new page tables are empty, and the interrupt controller is mapped at
registers of devices only. -/
structure StartEnv.Bare (env : StartEnv φ) (device : Nat → Prop) : Prop where
  newSet : ∀ frames, env.NewSet frames
  mmioInit : ∀ zone config zone', env.mmioInit zone config = some zone' →
    ∀ va x, zone'.gpm.pageTableQuery va = .ok x → zone.gpm.pageTableQuery va = .ok x ∨ device x.1

/-- The regions of a configuration in a new page table. -/
theorem of_zoneBefore_mapped (henv : env.Sound) (hbare : env.Bare device)
    (h : s.zoneBefore env config = some (zone, frames)) :
    ∃ gpm gpm' : MemorySet PageTableEntry, gpm.st.Inv ∧
      (∀ va x, gpm.pageTableQuery va ≠ .ok x) ∧
      config.mappedRegions.foldlM insertRegion gpm = some gpm' ∧ gpm'.Grows zone.gpm ∧
      ∀ va x, zone.gpm.pageTableQuery va = .ok x → gpm'.pageTableQuery va = .ok x ∨ device x.1 := by
  simp only [StartState.zoneBefore, Option.bind_eq_bind, Option.bind_eq_some_iff] at h
  obtain ⟨⟨gpm, frames₁⟩, hgpm, regions, hregions, zone₁, hzone₁, zone₂, hzone₂, h⟩ := h
  cases h
  obtain ⟨-, rfl⟩ := HvZoneConfig.memoryRegionsUsed_eq_some.mp hregions
  obtain ⟨level, mem, free, hframe, hnodup, hnew⟩ := hbare.newSet _ _ _ hgpm
  obtain ⟨hinv, -, -, hleaf⟩ := new_spec hframe hnodup hnew
  have hmap := (map_gpm_ptInit ⟨gpm, []⟩ config.usedRegions).symm
  rw [hzone₁, Option.map_some, Option.ite_none_right_eq_some] at hmap
  obtain ⟨-, hfold⟩ := hmap
  obtain ⟨hg, -⟩ := grows_of_foldlM hinv hfold
  refine ⟨gpm, zone₁.gpm, hinv, fun va x hq => ?_, hfold, ?_, hbare.mmioInit _ _ _ hzone₂⟩
  · -- a new page table has no leaves
    obtain ⟨ps, a, hl⟩ := exists_leaf_of_query hinv hq
    exact hleaf _ a hl
  · exact (henv.mmioInit _ _ _ hzone₂).1.grows hg.inv

/-- **A new zone** has the regions of its configuration, and reaches nothing else but registers. -/
theorem query_of_zoneBefore (henv : env.Sound) (hbare : env.Bare device)
    (hplaced : config.Placed pool) (h : s.zoneBefore env config = some (zone, frames)) :
    (∀ r ∈ config.mappedRegions, zone.gpm.Maps r) ∧
      ∀ va x, zone.gpm.pageTableQuery va = .ok x → config.Memory x.1 ∨ device x.1 := by
  obtain ⟨gpm, gpm', hinv, hnone, hfold, hg, hquery⟩ := of_zoneBefore_mapped henv hbare h
  obtain ⟨-, hmaps⟩ := grows_of_foldlM hinv hfold
  refine ⟨fun r hr => (hmaps r hr).grows hg, fun va x hq => ?_⟩
  rcases hquery va x hq with hq | hdev
  · left
    have hoff : ∀ r ∈ config.mappedRegions, r.size ≠ 0 → HasOffset r := fun r hr hne =>
      hplaced.hasOffset hr ((hmaps r hr).bound hne)
    rcases query_of_foldlM hinv hfold hoff hq with hq | ⟨r, hr, va', hva', hpa, -⟩
    · exact absurd hq (hnone va x)
    · have hne : r.size ≠ 0 := fun h0 => by
        have hlt := hva'.1.trans_lt hva'.2
        omega
      rw [hpa]
      exact hplaced.memory_target hr ((hmaps r hr).bound hne) hva'
  · exact .inr hdev

/-- Shared memories have frames of their own, for all of their sections. -/
structure SharedFrames (pool held : Nat → Prop) (recs : SortedMap Nat IvcRecord) : Prop where
  own : OwnFrames pool held recs
  size : ∀ id rec, recs.get? id = some rec → rec.totalSize < 2 ^ 32

/-- A record with a new peer. -/
theorem JoinStep.sharedFrames {c : HvIvcConfig} {rec : IvcRecord} {s s' : IvcRun φ} {zoneId : Nat}
    (h : JoinStep env.overflowChecks env.allocContiguous zoneId c rec s s')
    (hlaw : FrameLaw env pool held) (hsize : c.windowSize < 2 ^ 32)
    (hr : SharedFrames pool (held s.frames) s.records) :
    SharedFrames pool (held s'.frames) s'.records := by
  refine ⟨h.ownFrames hlaw hr.own, fun id r' hr' => ?_⟩
  rcases h.get?_cases hr' with ⟨r, hold, hl⟩ | ⟨-, -, hfits, -⟩
  · simp only [IvcRecord.layout, Prod.mk.injEq] at hl
    rw [IvcRecord.totalSize, hl.1, hl.2.1, hl.2.2.1]
    exact hr.size id r hold
  · rw [hfits.totalSize]
    exact hsize

/-- **What a zone reaches when it has become a peer**: what it reached before, and its windows. -/
theorem Creation.reaches {configs : List HvIvcConfig} {done : Bool} {run₀ run : IvcRun φ}
    (h : Creation env s config configs done run₀ run) (henv : env.Sound)
    (hlaw : FrameLaw env pool held)
    (hvalid : ∀ id rec, s.ivc.records.get? id = some rec → rec.Valid env.overflowChecks)
    (hr : SharedFrames pool (held s.frames) s.ivc.records)
    (hsize : ∀ c ∈ s.joins env config, c.windowSize < 2 ^ 32) :
    SharedFrames pool (held run.frames) run.records ∧
      ∀ va x, run.zone.gpm.pageTableQuery va = .ok x →
        run₀.zone.gpm.pageTableQuery va = .ok x ∨
          FromWindow run.records (s.joins env config) x := by
  obtain ⟨hinv, -⟩ := of_zoneBefore henv h.before
  have hstart : SharedFrames pool (held run₀.frames) run₀.records := by
    have hbefore := h.before
    simp only [StartState.zoneBefore, Option.bind_eq_bind, Option.bind_eq_some_iff] at hbefore
    obtain ⟨⟨gpm, frames⟩, hgpm, _, -, _, -, _, -, hbefore⟩ := hbefore
    obtain ⟨-, hframes⟩ := Prod.mk.inj (Option.some.inj hbefore)
    rw [h.records]
    refine ⟨hr.own.mono fun pa hpa => ?_, hr.size⟩
    rw [← hframes]
    exact hlaw.newS2MemorySet _ _ _ hgpm pa hpa
  have hrule := h.rule (P := fun acc run =>
    JoinSpec env.overflowChecks s.ivc.records run₀.zone acc run ∧
      SharedFrames pool (held run.frames) run.records ∧
      ∀ va x, run.zone.gpm.pageTableQuery va = .ok x →
        run₀.zone.gpm.pageTableQuery va = .ok x ∨ FromWindow run.records acc x) ?_ ?_
  · exact hrule.2
  · rw [← h.records] at hvalid ⊢
    exact ⟨⟨.refl _, hvalid, .refl hinv, fun _ hc => absurd hc List.not_mem_nil⟩, hstart,
      fun va x hq => .inl hq⟩
  · -- one more configuration
    rintro acc c rec s₁ s₂ hc ⟨hspec, hframes, hreach⟩ hstep
    obtain ⟨hrec, -⟩ := hstep.valid henv.allocContiguous hspec.valid
    refine ⟨hspec.step henv hstep, hstep.sharedFrames hlaw (hsize c hc) hframes, fun va x hq => ?_⟩
    rcases hstep.query hspec.grows.inv hrec hq with hold | ⟨o, ho, hpa, hfl⟩
    · rcases hreach va x hold with hold | hwin
      · exact .inl hold
      · exact .inr (hwin.mono hstep.keepLayouts fun c' => List.mem_append_left _)
    · refine .inr ⟨c, List.mem_append_right _ (List.mem_singleton_self c), _,
        (hstep.get?_records).trans (if_pos rfl), ?_, o, ho, hpa, hfl⟩
      exact hstep.fits.of_layout IvcRecord.layout_insertPeer

end New

/-! ## Histories -/

/-- A history of zones, with the configuration of each zone. -/
structure MemHistory (φ : Type) extends IvcHistory φ where
  config : Nat → HvZoneConfig

section Histories

variable {φ : Type} (env : StartEnv φ) (pool device : Nat → Prop) (held : φ → Nat → Prop)

/-- The creation of a zone. -/
def MemHistory.create (s : MemHistory φ) (config : HvZoneConfig) : Option (MemHistory φ) :=
  (s.state.zoneCreate env config).map fun (res, state) =>
    match res with
    | .ok z => ⟨⟨state, Function.update s.joined z (s.state.joins env config)⟩,
        Function.update s.config z config⟩
    | .error _ => ⟨⟨state, s.joined⟩, s.config⟩

/-- **The histories**, from a state before the first zone. -/
def memHistory : TransitionSystem (MemHistory φ) IvcEvent where
  init s := (ivcHistory env).init s.toIvcHistory
  step s e s' :=
    match e with
    | .create config => s.create env config = some s'
    | .other => Elsewhere s.state s'.state ∧ s'.joined = s.joined ∧ s'.config = s.config

/-- **The condition on a creation**: the memory of the zone is outside of the pool, and the sizes of
the shared memories that it joins fit into 32 bits. -/
structure Placeable (s : MemHistory φ) (config : HvZoneConfig) : Prop where
  placed : config.Placed pool
  size : ∀ c ∈ s.state.joins env config, c.windowSize < 2 ^ 32

/-- The condition on a step: in between, no frames of shared memories are given back, and zones get
at registers of devices only. -/
def PlacedStep (s : MemHistory φ) : IvcEvent → MemHistory φ → Prop
  | .create config, _ => Placeable env pool s config
  | .other, s' => (∀ pa, held s.state.frames pa → held s'.state.frames pa) ∧
    ∀ z zone zone', s.state.spaces z = some zone → s'.state.spaces z = some zone' →
      ∀ va x, zone'.gpm.pageTableQuery va = .ok x →
        zone.gpm.pageTableQuery va = .ok x ∨ device x.1

/-- **Who is granted which memory**, but for the registers of devices: zones own the memory of their
configurations, and join shared memories. -/
def MemHistory.grants (s : MemHistory φ) : Grants Nat Nat Nat where
  owns z pa := (s.state.spaces z).isSome ∧ (s.config z).Memory pa ∧ ¬ device pa
  joined z id := (s.state.spaces z).isSome ∧ ∃ c ∈ s.joined z, c.ivcId = id
  shared id pa := ∃ rec, s.state.ivc.records.get? id = some rec ∧ rec.Holds pa

/-- The zone reaches the physical address. -/
def NewZone.Reaches (zone : NewZone) (pa : Nat) : Prop :=
  ∃ va fl ps, zone.gpm.pageTableQuery va = .ok (pa, fl, ps)

/-- The configurations of zones have no memory in common. -/
def ConfigsApart (s : MemHistory φ) : Prop :=
  ∀ z z', (s.state.spaces z).isSome → (s.state.spaces z').isSome → z ≠ z' →
    ∀ pa, ¬ device pa → (s.config z).Memory pa → ¬ (s.config z').Memory pa

/-- **Zones are isolated**: what two zones reach is in a shared memory that both have joined. -/
def MemoryIsolated (s : MemHistory φ) : Prop :=
  ∀ z z' zone zone' pa, s.state.spaces z = some zone → s.state.spaces z' = some zone' → z ≠ z' →
    ¬ device pa → zone.Reaches pa → zone'.Reaches pa →
      ∃ id, (s.grants device).joined z id ∧ (s.grants device).joined z' id ∧
        (s.grants device).shared id pa

/-- **Page tables are exact**: a zone reaches what it is granted and no more, where its
configuration says, and nothing of the pool but shared memories that it has joined. -/
structure MemoryExact (s : MemHistory φ) : Prop where
  reaches : ∀ z zone pa, s.state.spaces z = some zone → ¬ device pa →
    (zone.Reaches pa ↔ (s.grants device).Reaches z pa)
  pool : ∀ z zone pa, s.state.spaces z = some zone → ¬ device pa → pool pa → zone.Reaches pa →
    ∃ id, (s.grants device).joined z id ∧ (s.grants device).shared id pa
  own : ∀ z zone region d, s.state.spaces z = some zone → region ∈ (s.config z).usedRegions →
    region.mapped?.isSome → d < region.size →
      ∃ ps, zone.gpm.pageTableQuery (region.virtualStart + d) =
        .ok (region.physicalStart + d, region.access, ps)

/-- **The invariant**: zones have the regions of their configurations, and reach these, registers of
devices and their windows. -/
structure MemoryInv (s : MemHistory φ) : Prop where
  base : IvcInv env.overflowChecks s.toIvcHistory
  shared : SharedFrames pool (held s.state.frames) s.state.ivc.records
  placed : ∀ z, (s.state.spaces z).isSome → (s.config z).Placed pool
  maps : ∀ z zone, s.state.spaces z = some zone → ∀ r ∈ (s.config z).mappedRegions, zone.gpm.Maps r
  answers : ∀ z zone, s.state.spaces z = some zone → ∀ va x, zone.gpm.pageTableQuery va = .ok x →
    (s.config z).Memory x.1 ∨ device x.1 ∨ FromWindow s.state.ivc.records (s.joined z) x

end Histories

section Runs

variable {φ : Type} {env : StartEnv φ} {pool device : Nat → Prop} {held : φ → Nat → Prop}
  {s s' : MemHistory φ} {config : HvZoneConfig} {h : List IvcEvent}

theorem toIvcHistory_create (hs : s.create env config = some s') :
    s.toIvcHistory.create env config = some s'.toIvcHistory := by
  obtain ⟨⟨res, state⟩, hcreate, rfl⟩ := Option.map_eq_some_iff.mp hs
  rw [IvcHistory.create, hcreate, Option.map_some]
  cases res with
  | ok z => rfl
  | error e => rfl

/-- **The ways a creation goes**: it is refused; or the zone becomes a peer and is dropped; or the
zone is there. -/
theorem memCreate_cases (hs : s.create env config = some s') :
    s' = s ∨ ∃ configs done run₀ run, Creation env s.state config configs done run₀ run ∧
      s'.state.ivc.records = run.records ∧
      ((s'.state.spaces = s.state.spaces ∧ s'.joined = s.joined ∧ s'.config = s.config ∧
          ∃ zone, s'.state.frames = env.dropZone zone run.frames) ∨
        ∃ zone, zone.gpm = run.zone.gpm ∧ s'.state.frames = run.frames ∧
          s'.state.spaces = Function.update s.state.spaces s.state.machine.nextZone (some zone) ∧
          s'.joined = Function.update s.joined s.state.machine.nextZone
            (s.state.joins env config) ∧
          s'.config = Function.update s.config s.state.machine.nextZone config) := by
  obtain ⟨⟨res, state⟩, hcreate, rfl⟩ := Option.map_eq_some_iff.mp hs
  rcases zoneCreate_ivc hcreate with ⟨rfl, rfl⟩ | ⟨configs, done, run₀, run, hc, hivc, hres⟩
  · exact .inl rfl
  refine .inr ⟨configs, done, run₀, run, hc, ?_, ?_⟩
  · rcases hres with ⟨rfl, -⟩ | ⟨cpuSet, rfl, -⟩
    · exact congrArg IvcTables.records hivc
    · exact congrArg IvcTables.records hivc
  · rcases hres with ⟨rfl, -, hspaces, hframes⟩ | ⟨cpuSet, rfl, -, hframes, hspaces, -⟩
    · exact .inl ⟨hspaces, rfl, rfl, hframes⟩
    · refine .inr ⟨_, ?_, hframes, hspaces, rfl, rfl⟩
      split <;> rfl

/-- A zone was there before, or it has the configuration. -/
theorem config_of_create (hs : s.create env config = some s') {z : Nat}
    (hz : (s'.state.spaces z).isSome) :
    (s.state.spaces z).isSome ∧ s'.config z = s.config z ∨
      z = s.state.machine.nextZone ∧ s'.config z = config := by
  rcases memCreate_cases hs with rfl | ⟨-, -, -, -, -, -, ⟨hspaces, -, hconf, -⟩ |
    ⟨zone, -, -, hspaces, -, hconf⟩⟩
  · exact .inl ⟨hz, rfl⟩
  · rw [hspaces] at hz
    rw [hconf]
    exact .inl ⟨hz, rfl⟩
  · rw [hspaces] at hz
    rw [hconf]
    by_cases hnew : z = s.state.machine.nextZone
    · rw [hnew, Function.update_self]
      exact .inr ⟨rfl, rfl⟩
    · rw [Function.update_of_ne hnew] at hz
      rw [Function.update_of_ne hnew]
      exact .inl ⟨hz, rfl⟩

theorem memoryInv_of_init (hs : (memHistory env).init s) : MemoryInv env pool device held s := by
  have hnone : ∀ id, s.state.ivc.records.get? id = none := by
    intro id
    rw [hs.2]
    exact SortedMap.get?_eq_none.mpr fun _ => SortedMap.not_mem_empty
  have hzone : ∀ {z} {P : Prop}, (s.state.spaces z).isSome → P := by
    intro z P hz
    rw [hs.1 z] at hz
    cases hz
  have hrec : ∀ {id rec} {P : Prop}, s.state.ivc.records.get? id = some rec → P := by
    intro id rec P hrec
    rw [hnone] at hrec
    cases hrec
  refine ⟨ivcInv_of_init hs, ⟨⟨?_, ?_⟩, ?_⟩, fun z hz => hzone hz, ?_, ?_⟩
  · exact fun id rec pa h => hrec h
  · exact fun id id' rec rec' pa h => hrec h
  · exact fun id rec h => hrec h
  · exact fun z zone hz => hzone (z := z) (hz ▸ rfl)
  · exact fun z zone hz => hzone (z := z) (hz ▸ rfl)

/-- What the hypervisor does in between keeps the invariant. -/
theorem MemoryInv.elsewhere (hi : MemoryInv env pool device held s)
    (he : Elsewhere s.state s'.state) (hj : s'.joined = s.joined) (hc : s'.config = s.config)
    (hg : PlacedStep env pool device held s .other s') : MemoryInv env pool device held s' := by
  have hsome : ∀ z, (s'.state.spaces z).isSome → (s.state.spaces z).isSome := by
    intro z hz
    obtain ⟨zone', hz⟩ := Option.isSome_iff_exists.mp hz
    obtain ⟨zone, hzone, -⟩ := he.zone z zone' hz
    exact hzone ▸ rfl
  refine ⟨hi.base.elsewhere he hj, ?_, ?_, ?_, ?_⟩
  · rw [he.ivc]
    exact ⟨hi.shared.own.mono hg.1, hi.shared.size⟩
  · intro z hz
    rw [hc]
    exact hi.placed z (hsome z hz)
  · intro z zone' hz r hr
    obtain ⟨zone, hzone, -, hg, -⟩ := he.zone z zone' hz
    rw [hc] at hr
    exact (hi.maps z zone hzone r hr).grows (hg.grows (hi.base.inv z zone hzone))
  · intro z zone' hz va x hq
    obtain ⟨zone, hzone, -⟩ := he.zone z zone' hz
    rw [he.ivc, hj, hc]
    rcases hg.2 z zone zone' hzone hz va x hq with hq | hdev
    · exact hi.answers z zone hzone va x hq
    · exact .inr (.inl hdev)

/-- A creation keeps the invariant. -/
theorem MemoryInv.create (hi : MemoryInv env pool device held s) (henv : env.Sound)
    (hbare : env.Bare device) (hlaw : FrameLaw env pool held)
    (hg : Placeable env pool s config) (hs : s.create env config = some s') :
    MemoryInv env pool device held s' := by
  have hbase := hi.base.create henv (toIvcHistory_create hs)
  have hplaced : ∀ z, (s'.state.spaces z).isSome → (s'.config z).Placed pool := by
    intro z hz
    rcases config_of_create hs hz with ⟨hz, hconf⟩ | ⟨-, hconf⟩
    · rw [hconf]
      exact hi.placed z hz
    · rw [hconf]
      exact hg.placed
  rcases memCreate_cases hs with rfl | ⟨configs, done, run₀, run, hc, hrecs, hres⟩
  · exact hi
  have hspec := hc.spec henv hi.base.valid
  obtain ⟨hshared, hreach⟩ := hc.reaches henv hlaw hi.base.valid hi.shared hg.size
  obtain ⟨hmaps, hquery⟩ := query_of_zoneBefore henv hbare hg.placed hc.before
  have hold : ∀ z zone, s.state.spaces z = some zone → ∀ va x,
      zone.gpm.pageTableQuery va = .ok x →
        (s.config z).Memory x.1 ∨ device x.1 ∨ FromWindow run.records (s.joined z) x := by
    intro z zone hz va x hq
    exact (hi.answers z zone hz va x hq).imp_right (·.imp_right (·.mono hspec.keep fun _ => id))
  rcases hres with ⟨hspaces, hj, hconf, zone, hframes⟩ | ⟨zone, hgpm, hframes, hspaces, hj, hconf⟩
  · refine ⟨hbase, ?_, hplaced, ?_, ?_⟩
    · rw [hframes, hrecs]
      exact ⟨hshared.own.mono fun pa => hlaw.dropZone zone run.frames pa, hshared.size⟩
    · rw [hspaces, hconf]
      exact hi.maps
    · rw [hspaces, hconf, hrecs, hj]
      exact hold
  · -- the zones that were there, and the new one
    have hother : ∀ z, z ≠ s.state.machine.nextZone →
        s'.state.spaces z = s.state.spaces z ∧ s'.config z = s.config z ∧
          s'.joined z = s.joined z := fun z hz => by
      rw [hspaces, hconf, hj]
      exact ⟨Function.update_of_ne hz _ _, Function.update_of_ne hz _ _,
        Function.update_of_ne hz _ _⟩
    have hnew : s'.config s.state.machine.nextZone = config := by
      rw [hconf, Function.update_self]
    refine ⟨hbase, ?_, hplaced, ?_, ?_⟩
    · rw [hframes, hrecs]
      exact hshared
    · intro z zone₁ hz r hr
      by_cases hz' : z = s.state.machine.nextZone
      · rw [hz', hspaces, Function.update_self] at hz
        obtain rfl := Option.some.inj hz
        rw [hz', hnew] at hr
        rw [hgpm]
        exact (hmaps r hr).grows hspec.grows
      · rw [(hother z hz').1] at hz
        rw [(hother z hz').2.1] at hr
        exact hi.maps z zone₁ hz r hr
    · intro z zone₁ hz va x hq
      rw [hrecs]
      by_cases hz' : z = s.state.machine.nextZone
      · rw [hz', hspaces, Function.update_self] at hz
        obtain rfl := Option.some.inj hz
        rw [hgpm] at hq
        rw [hz', hnew, hj, Function.update_self]
        rcases hreach va x hq with hq | hwin
        · exact (hquery va x hq).imp_right .inl
        · exact .inr (.inr hwin)
      · rw [(hother z hz').1] at hz
        rw [(hother z hz').2.1, (hother z hz').2.2]
        exact hold z zone₁ hz va x hq

/-- **In every run whose steps meet the condition** the invariant holds. -/
theorem memoryInv_of_run (henv : env.Sound) (hbare : env.Bare device)
    (hlaw : FrameLaw env pool held)
    (r : ((memHistory env).constrain (PlacedStep env pool device held)).Run h s) :
    MemoryInv env pool device held s := by
  have start : ∀ s, ((memHistory env).constrain (PlacedStep env pool device held)).init s →
      MemoryInv env pool device held s := fun _ hs => memoryInv_of_init hs
  refine r.invariant (I := fun _ s => MemoryInv env pool device held s) start ?_
  rintro h s e s' _ hi ⟨hg, hs⟩
  cases e with
  | create config => exact hi.create henv hbare hlaw hg hs
  | other => exact hi.elsewhere hs.1 hs.2.1 hs.2.2 hg

/-! ## Isolation -/

namespace MemoryInv

variable (hi : MemoryInv env pool device held s)
include hi

/-- A window reaches the frames of its record. -/
theorem holds_of_fromWindow {configs : List HvIvcConfig} {x : Nat × MemFlags × PageSize}
    (hx : FromWindow s.state.ivc.records configs x) :
    ∃ id rec, s.state.ivc.records.get? id = some rec ∧ rec.Holds x.1 ∧
      ∃ c ∈ configs, c.ivcId = id := by
  obtain ⟨c, hc, rec, hrec, hfits, o, ho, hpa, -⟩ := hx
  have hvalid := hi.base.valid _ rec hrec
  have hcount := hvalid.frameCount_mul
  have hbound := hvalid.bound
  rw [Nat.mod_eq_of_lt (hi.shared.size _ rec hrec)] at hcount
  rw [← hfits.totalSize] at ho
  rw [Nat.mod_eq_of_lt (by omega)] at hpa
  refine ⟨c.ivcId, rec, hrec, ?_, c, hc, rfl⟩
  rw [IvcRecord.Holds, hpa, hcount]
  omega

/-- The frames of a shared memory are reached through the windows. -/
theorem reaches_of_holds {z pa : Nat} {zone : NewZone} {c : HvIvcConfig} {rec : IvcRecord}
    (hz : s.state.spaces z = some zone) (hc : c ∈ s.joined z)
    (hrec : s.state.ivc.records.get? c.ivcId = some rec) (hpa : rec.Holds pa) :
    zone.Reaches pa := by
  obtain ⟨rec', hrec', hfits, regions, hregions, hmaps⟩ := hi.base.windows z zone hz c hc
  obtain rfl := Option.some.inj (hrec.symm.trans hrec')
  have hvalid := hi.base.valid _ rec hrec
  have hcount := hvalid.frameCount_mul
  have hbound := hvalid.bound
  rw [Nat.mod_eq_of_lt (hi.shared.size _ rec hrec)] at hcount
  obtain ⟨hlo, hhi⟩ := hpa
  obtain ⟨o, rfl⟩ := Nat.exists_eq_add_of_le hlo
  have ho : o < c.windowSize := by
    rw [← hfits.totalSize]
    omega
  obtain ⟨r, hr, va, hva, htarget, -⟩ :=
    exists_mem_of_lt hregions hmaps (by omega : rec.sharedMem.startPaddr < 2 ^ 64) ho
  obtain ⟨ps, hq⟩ := query_of_mem_regions hregions hmaps (hi.base.inv z zone hz) (by omega)
    hvalid.start_aligned hr hva
  rw [htarget, Nat.mod_eq_of_lt (by omega)] at hq
  exact ⟨va, _, ps, hq⟩

/-- The memory of the configuration is reached. -/
theorem reaches_of_memory {z pa : Nat} {zone : NewZone} (hz : s.state.spaces z = some zone)
    (hpa : (s.config z).Memory pa) : zone.Reaches pa := by
  obtain ⟨region, hregion, hsome, hlo, hhi⟩ := hpa
  obtain ⟨d, rfl⟩ := Nat.exists_eq_add_of_le hlo
  obtain ⟨ps, hq⟩ := (hi.placed z (hz ▸ rfl)).query (hi.base.inv z zone hz) (hi.maps z zone hz)
    hregion hsome (Nat.lt_of_add_lt_add_left hhi)
  exact ⟨_, _, ps, hq⟩

/-- **Page tables refine the grants**: a zone reaches what it is granted. -/
theorem reaches_iff {z pa : Nat} {zone : NewZone} (hz : s.state.spaces z = some zone)
    (hdev : ¬ device pa) : zone.Reaches pa ↔ (s.grants device).Reaches z pa := by
  have hsome : (s.state.spaces z).isSome := hz ▸ rfl
  constructor
  · rintro ⟨va, fl, ps, hq⟩
    rcases hi.answers z zone hz va _ hq with hm | hd | hwin
    · exact .inl ⟨hsome, hm, hdev⟩
    · exact absurd hd hdev
    · obtain ⟨id, rec, hrec, hpa, hc⟩ := hi.holds_of_fromWindow hwin
      exact .inr ⟨id, ⟨hsome, hc⟩, rec, hrec, hpa⟩
  · rintro (⟨-, hm, -⟩ | ⟨id, ⟨-, c, hc, rfl⟩, rec, hrec, hpa⟩)
    · exact hi.reaches_of_memory hz hm
    · exact hi.reaches_of_holds hz hc hrec hpa

theorem pool_of_shared {id pa : Nat} (h : (s.grants device).shared id pa) : pool pa := by
  obtain ⟨rec, hrec, hpa⟩ := h
  exact (hi.shared.own.held id rec pa hrec hpa).1

theorem not_pool_of_owns {z pa : Nat} (h : (s.grants device).owns z pa) : ¬ pool pa :=
  (hi.placed z h.1).outside pa h.2.1

/-- Memory of zones and shared memories are apart, when the configurations are. -/
theorem separated (hap : ConfigsApart device s) : (s.grants device).Separated := by
  apply Grants.Separated.of_pool pool
  · rintro z z' pa ⟨hz, hm, hdev⟩ ⟨hz', hm', -⟩
    by_contra hne
    exact hap z z' hz hz' hne pa hdev hm hm'
  · rintro id id' pa ⟨rec, hrec, hpa⟩ ⟨rec', hrec', hpa'⟩
    exact hi.shared.own.apart id id' rec rec' pa hrec hrec' hpa hpa'
  · exact fun z pa h => hi.not_pool_of_owns h
  · exact fun id pa h => hi.pool_of_shared h

end MemoryInv

/-- **Page tables are exact**, in every run whose steps meet the condition. -/
theorem memoryExact_of_run (henv : env.Sound) (hbare : env.Bare device)
    (hlaw : FrameLaw env pool held)
    (r : ((memHistory env).constrain (PlacedStep env pool device held)).Run h s) :
    MemoryExact pool device s := by
  have hi := memoryInv_of_run henv hbare hlaw r
  refine ⟨fun z zone pa hz hdev => hi.reaches_iff hz hdev, ?_, ?_⟩
  · intro z zone pa hz hdev hpool hreach
    rcases (hi.reaches_iff hz hdev).mp hreach with hown | hshared
    · exact absurd hpool (hi.not_pool_of_owns hown)
    · exact hshared
  · intro z zone region d hz hregion hsome hd
    exact (hi.placed z (hz ▸ rfl)).query (hi.base.inv z zone hz) (hi.maps z zone hz) hregion
      hsome hd

/-- **When zones are isolated**: in every run whose steps meet the condition, exactly where their
configurations have no memory in common. -/
theorem memoryIsolated_iff_of_run (henv : env.Sound) (hbare : env.Bare device)
    (hlaw : FrameLaw env pool held)
    (r : ((memHistory env).constrain (PlacedStep env pool device held)).Run h s) :
    MemoryIsolated device s ↔ ConfigsApart device s := by
  have hi := memoryInv_of_run henv hbare hlaw r
  constructor
  · intro hiso z z' hz hz' hne pa hdev hm hm'
    obtain ⟨zone, hzone⟩ := Option.isSome_iff_exists.mp hz
    obtain ⟨zone', hzone'⟩ := Option.isSome_iff_exists.mp hz'
    obtain ⟨id, -, -, hshared⟩ := hiso z z' zone zone' pa hzone hzone' hne hdev
      (hi.reaches_of_memory hzone hm) (hi.reaches_of_memory hzone' hm')
    exact (hi.placed z hz).outside pa hm (hi.pool_of_shared hshared)
  · intro hap z z' zone zone' pa hz hz' hne hdev hreach hreach'
    exact (hi.separated hap).common ((hi.reaches_iff hz hdev).mp hreach)
      ((hi.reaches_iff hz' hdev).mp hreach') hne

end Runs

/-! ## Two zones with memory -/

/-- A board that takes shared memories from the second gigabyte on. -/
def memBoard : StartEnv Nat :=
  { ivcBoard true with
    allocContiguous := fun next count =>
      if 0x40000000 ≤ next then (ivcBoard true).allocContiguous next count else none }

/-- The frames of the board: those of page tables, and those of shared memories. -/
def memPool (pa : Nat) : Prop := pa < 0x10000 ∨ 0x40000000 ≤ pa

theorem memBoard_sound : memBoard.Sound := by
  obtain ⟨halloc, hset, hmmio⟩ := ivcBoard_sound true
  refine ⟨fun frames count start frames' h => ?_, hset, hmmio⟩
  exact halloc _ _ _ _ (Option.ite_none_right_eq_some.mp h).2

theorem memBoard_bare : memBoard.Bare fun _ => False := by
  refine ⟨fun frames gpm frames' h => ?_, fun zone config zone' h va x hq => ?_⟩
  · obtain ⟨rfl, -⟩ := Prod.mk.inj (Option.some.inj h)
    exact ⟨3, _, _, frameAddr_of_lt (by decide), by decide, new_freshSet 0x1000 someFrames.tail⟩
  · obtain rfl := Option.some.inj h
    exact .inl hq

theorem memBoard_frameLaw : FrameLaw memBoard memPool fun next pa => pa < next := by
  obtain ⟨halloc, hset, hdrop⟩ := ivcBoard_frameLaw true
  refine ⟨fun frames count start frames' h => ?_, hset, hdrop⟩
  obtain ⟨hlo, h⟩ := Option.ite_none_right_eq_some.mp h
  obtain ⟨hfresh, hheld⟩ := halloc _ _ _ _ h
  refine ⟨fun pa hpa hpa' => ⟨?_, (hfresh pa hpa hpa').2⟩, hheld⟩
  simp only [ivcBoard, Option.ite_none_right_eq_some, Option.some.injEq, Prod.mk.injEq] at h
  exact .inr (by omega)

/-- A zone with two megabytes of memory, which takes part in a shared memory. -/
def ramZone (id : Nat) : HvZoneConfig :=
  { ivcZone id id (pairConfig id) [] with
    numMemoryRegions := 1
    memoryRegions :=
      Vector.replicate _ ⟨MEM_TYPE_RAM, 0x10000000 * (id + 1), 0x80000000, 0x200000⟩ }

theorem memory_ramZone {id pa : Nat} : (ramZone id).Memory pa ↔
    0x10000000 * (id + 1) ≤ pa ∧ pa < 0x10000000 * (id + 1) + 0x200000 := by
  have hused : (ramZone id).usedRegions =
      [⟨MEM_TYPE_RAM, 0x10000000 * (id + 1), 0x80000000, 0x200000⟩] := rfl
  rw [HvZoneConfig.Memory, hused]
  simp only [List.mem_singleton, exists_eq_left]
  exact and_iff_right rfl

theorem placed_ramZone {id : Nat} (hid : id < 2) : (ramZone id).Placed memPool := by
  have hused : (ramZone id).usedRegions =
      [⟨MEM_TYPE_RAM, 0x10000000 * (id + 1), 0x80000000, 0x200000⟩] := rfl
  refine ⟨?_, ?_, fun pa hpa hpool => ?_⟩
  · rw [hused, List.forall_mem_singleton]
    intro _
    show 0x10000000 * (id + 1) % 4096 = 0
    omega
  · rw [hused, List.forall_mem_singleton]
    intro _
    show 0x10000000 * (id + 1) + 0x200000 ≤ 2 ^ 48
    omega
  · rw [memory_ramZone] at hpa
    rw [memPool] at hpool
    omega

/-- Before the first zone. -/
def noMemory : MemHistory Nat := ⟨noZones 0x40000000, fun _ => ramZone 0⟩

theorem exists_ramPair : ∃ h s, ((memHistory memBoard).constrain
      (PlacedStep memBoard memPool (fun _ => False) fun next pa => pa < next)).Run h s ∧
    (s.state.spaces 0).isSome ∧ (s.state.spaces 1).isSome ∧ ConfigsApart (fun _ => False) s := by
  have hfirst : ((noMemory.create memBoard (ramZone 0)).map fun s₁ =>
      (noMemory.state.joins memBoard (ramZone 0), s₁.state.joins memBoard (ramZone 1),
        s₁.state.machine.nextZone)) = some ([pairConfig 0], [pairConfig 1], 1) := by decide +kernel
  obtain ⟨s₁, hs₁, hfirst⟩ := Option.map_eq_some_iff.mp hfirst
  simp only [Prod.mk.injEq] at hfirst
  obtain ⟨hjoins, hjoins₁, hnext⟩ := hfirst
  have hsecond : (((noMemory.create memBoard (ramZone 0)).bind fun s₁ =>
      s₁.create memBoard (ramZone 1)).map fun s =>
        ((s.state.spaces 0).isSome, (s.state.spaces 1).isSome)) = some (true, true) := by
    decide +kernel
  rw [hs₁, Option.bind_some] at hsecond
  obtain ⟨s, hs, hsome⟩ := Option.map_eq_some_iff.mp hsecond
  obtain ⟨h₀, h₁⟩ := Prod.mk.inj hsome
  have hsize : ∀ id, (pairConfig id).windowSize < 2 ^ 32 := fun id => by
    show 0x1000 + 2 * 0x1000 < 2 ^ 32
    decide
  have hplace : Placeable memBoard memPool noMemory (ramZone 0) := by
    refine ⟨placed_ramZone (by decide), ?_⟩
    rw [hjoins, List.forall_mem_singleton]
    exact hsize 0
  have hplace₁ : Placeable memBoard memPool s₁ (ramZone 1) := by
    refine ⟨placed_ramZone (by decide), ?_⟩
    rw [hjoins₁, List.forall_mem_singleton]
    exact hsize 1
  refine ⟨[.create (ramZone 1), .create (ramZone 0)], s, ?_, h₀, h₁, ?_⟩
  · exact .next (.next (.start ⟨fun _ => rfl, rfl⟩) ⟨hplace, hs₁⟩) ⟨hplace₁, hs⟩
  · -- the zones that are there
    have hconf : ∀ z, (s.state.spaces z).isSome → z < 2 ∧ s.config z = ramZone z := by
      intro z hz
      rcases config_of_create hs hz with ⟨hz, he⟩ | ⟨hz, he⟩
      · rcases config_of_create hs₁ hz with ⟨hz, -⟩ | ⟨hz, he₁⟩
        · cases hz
        · have hz : z = 0 := hz
          rw [he, he₁, hz]
          exact ⟨by decide, rfl⟩
      · rw [hnext] at hz
        rw [he, hz]
        exact ⟨by decide, rfl⟩
    intro z z' hz hz' hne pa _ hm hm'
    obtain ⟨hlt, he⟩ := hconf z hz
    obtain ⟨hlt', he'⟩ := hconf z' hz'
    rw [he, memory_ramZone] at hm
    rw [he', memory_ramZone] at hm'
    omega

/-- The page tables of two zones. -/
theorem memoryExact_ramPair : ∃ s : MemHistory Nat, (s.state.spaces 0).isSome ∧
    (s.state.spaces 1).isSome ∧ MemoryExact memPool (fun _ => False) s := by
  obtain ⟨h, s, r, h₀, h₁, -⟩ := exists_ramPair
  exact ⟨s, h₀, h₁, memoryExact_of_run memBoard_sound memBoard_bare memBoard_frameLaw r⟩

/-- Two zones with memory of their own and a shared memory are isolated. -/
theorem memoryIsolated_ramPair : ∃ s : MemHistory Nat, (s.state.spaces 0).isSome ∧
    (s.state.spaces 1).isSome ∧ MemoryIsolated (fun _ => False) s := by
  obtain ⟨h, s, r, h₀, h₁, hap⟩ := exists_ramPair
  exact ⟨s, h₀, h₁,
    (memoryIsolated_iff_of_run memBoard_sound memBoard_bare memBoard_frameLaw r).mpr hap⟩

end Hvisor
