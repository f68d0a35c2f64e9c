import Hvisor.Ivc.Windows
import Hvisor.Zone.Mmio

/-!
# How a zone becomes a peer

The loop of `ivc_init`, one configuration at a time: what the loop does with a configuration that
the records accept, and the rule for what the whole loop keeps.

## Main definitions

* `ivcJoined`: the configurations by which a zone becomes a peer
* `JoinStep`: a zone becomes a peer by a configuration
* `IvcRecord.Fits`, `IvcRecord.Valid`: a record has the sizes of a configuration, and its frames
* `KeepLayouts`: the records keep their sizes and frames

## Main results

* `ivcJoin_rule`: the rule for the loop
* `JoinStep.windows`, `JoinStep.query`: what the page table of the zone answers after a step
-/

namespace Hvisor

open MemorySet

/-! ## Records -/

/-- The record has the sizes of the configuration. -/
structure IvcRecord.Fits (rec : IvcRecord) (config : HvIvcConfig) : Prop where
  maxPeers : rec.maxPeers = config.maxPeers
  rwSecSize : rec.rwSecSize = config.rwSecSize
  outSecSize : rec.outSecSize = config.outSecSize

/-- The bytes of all sections. -/
def IvcRecord.totalSize (rec : IvcRecord) : Nat := rec.rwSecSize + rec.maxPeers * rec.outSecSize

/-- The physical address is in the frames of the record. -/
def IvcRecord.Holds (rec : IvcRecord) (pa : Nat) : Prop :=
  rec.sharedMem.startPaddr ≤ pa ∧
    pa < rec.sharedMem.startPaddr + rec.sharedMem.frameCount * pageSize

/-- **The frames of a record** are for its sizes, as far as these fit into 32 bits. -/
structure IvcRecord.Valid (overflowChecks : Bool) (rec : IvcRecord) : Prop where
  start_aligned : rec.sharedMem.startPaddr % pageSize = 0
  bound : rec.sharedMem.startPaddr + rec.sharedMem.frameCount * pageSize ≤ 2 ^ 48
  rw_aligned : rec.rwSecSize % pageSize = 0
  out_aligned : rec.outSecSize % pageSize = 0
  frameCount : rec.sharedMem.frameCount = rec.totalSize % 2 ^ 32 / pageSize
  checked : overflowChecks = true → rec.totalSize < 2 ^ 32

/-- The sizes of a record, and its frames. -/
def IvcRecord.layout (rec : IvcRecord) : Nat × Nat × Nat × Frame :=
  (rec.maxPeers, rec.rwSecSize, rec.outSecSize, rec.sharedMem)

section Records

variable {rec rec' : IvcRecord} {config : HvIvcConfig} {zoneId : Nat} {overflowChecks : Bool}

@[simp] theorem IvcRecord.layout_insertPeer :
    (rec.insertPeer config zoneId).layout = rec.layout := rfl

theorem IvcRecord.Fits.totalSize (h : rec.Fits config) : rec.totalSize = config.windowSize := by
  rw [IvcRecord.totalSize, HvIvcConfig.windowSize, h.rwSecSize, h.maxPeers, h.outSecSize]

theorem IvcRecord.Fits.of_layout (h : rec.Fits config) (hl : rec'.layout = rec.layout) :
    rec'.Fits config := by
  simp only [IvcRecord.layout, Prod.mk.injEq] at hl
  obtain ⟨hmax, hrw, hout, -⟩ := hl
  exact ⟨hmax.trans h.maxPeers, hrw.trans h.rwSecSize, hout.trans h.outSecSize⟩

theorem IvcRecord.Valid.of_layout (h : rec.Valid overflowChecks) (hl : rec'.layout = rec.layout) :
    rec'.Valid overflowChecks := by
  simp only [IvcRecord.layout, Prod.mk.injEq] at hl
  obtain ⟨hmax, hrw, hout, hmem⟩ := hl
  have htotal : rec'.totalSize = rec.totalSize := by
    rw [IvcRecord.totalSize, IvcRecord.totalSize, hmax, hrw, hout]
  constructor
  · rw [hmem]
    exact h.start_aligned
  · rw [hmem]
    exact h.bound
  · rw [hrw]
    exact h.rw_aligned
  · rw [hout]
    exact h.out_aligned
  · rw [hmem, htotal]
    exact h.frameCount
  · rw [htotal]
    exact h.checked

/-- All sections have whole pages. -/
theorem IvcRecord.Valid.totalSize_aligned (h : rec.Valid overflowChecks) :
    rec.totalSize % pageSize = 0 := by
  apply Nat.mod_eq_zero_of_dvd
  exact Nat.dvd_add (Nat.dvd_of_mod_eq_zero h.rw_aligned)
    (dvd_mul_of_dvd_right (Nat.dvd_of_mod_eq_zero h.out_aligned) _)

/-- The bytes of the frames. -/
theorem IvcRecord.Valid.frameCount_mul (h : rec.Valid overflowChecks) :
    rec.sharedMem.frameCount * pageSize = rec.totalSize % 2 ^ 32 := by
  have hal : pageSize ∣ rec.totalSize % 2 ^ 32 :=
    (Nat.dvd_mod_iff (by decide)).mpr (Nat.dvd_of_mod_eq_zero h.totalSize_aligned)
  rw [h.frameCount, Nat.div_mul_cancel hal]

end Records

/-- The records keep their sizes and their frames. -/
def KeepLayouts (recs recs' : SortedMap Nat IvcRecord) : Prop :=
  ∀ id rec, recs.get? id = some rec → ∃ rec', recs'.get? id = some rec' ∧ rec'.layout = rec.layout

theorem KeepLayouts.refl (recs : SortedMap Nat IvcRecord) : KeepLayouts recs recs :=
  fun _ rec h => ⟨rec, h, rfl⟩

theorem KeepLayouts.trans {recs recs' recs'' : SortedMap Nat IvcRecord} (h : KeepLayouts recs recs')
    (h' : KeepLayouts recs' recs'') : KeepLayouts recs recs'' := by
  intro id rec hrec
  obtain ⟨rec', hrec', hl⟩ := h id rec hrec
  obtain ⟨rec'', hrec'', hl'⟩ := h' id rec' hrec'
  exact ⟨rec'', hrec'', hl'.trans hl⟩

/-! ## One configuration -/

section Loop

variable {φ : Type} (overflowChecks : Bool) (allocContiguous : φ → Nat → Option (Nat × φ))
  (zoneId : Nat)

/-- The configurations up to the first one that is turned away. -/
def ivcJoined : List HvIvcConfig → SortedMap Nat IvcRecord → φ → List HvIvcConfig
  | [], _, _ => []
  | config :: configs, recs, frames =>
    match insertIvcRecord overflowChecks allocContiguous recs frames config zoneId with
    | some (.ok _, recs, frames) => config :: ivcJoined configs recs frames
    | _ => []

/-- **A zone becomes a peer** by a configuration: the record is there or is new, it gets the peer,
and the zone gets its windows and its control table. -/
structure JoinStep (config : HvIvcConfig) (rec : IvcRecord) (s s' : IvcRun φ) : Prop where
  accepts : Accepts s.records config
  record : s.records.get? config.ivcId = some rec ∨ s.records.get? config.ivcId = none ∧
    IvcRecord.fromConfig overflowChecks allocContiguous s.frames config = some (rec, s'.frames)
  records : s'.records = s.records.insert config.ivcId (rec.insertPeer config zoneId)
  frames : s.records.get? config.ivcId = some rec → s'.frames = s.frames
  zone : s.zone.mapIvc overflowChecks config rec.sharedMem.startPaddr = some s'.zone

variable {overflowChecks allocContiguous zoneId} {config : HvIvcConfig}
  {configs acc : List HvIvcConfig}
  {rec : IvcRecord} {s s' : IvcRun φ} {done : Bool} {id peerId va : Nat}
  {x : Nat × MemFlags × PageSize}

/-- A record that is there has its frames. -/
theorem frames_of_insertIvcRecord {recs recs' : SortedMap Nat IvcRecord} {frames frames' : φ}
    {res : Except Unit (Bool × Nat)}
    (h : insertIvcRecord overflowChecks allocContiguous recs frames config zoneId =
      some (res, recs', frames')) (hrec : recs.get? config.ivcId = some rec) :
    frames' = frames := by
  rw [insertIvcRecord] at h
  simp only [hrec] at h
  split at h
  · cases h
    rfl
  · split at h
    · cases h
      rfl
    · cases h
      rfl

/-- **The rule for the loop**: what holds at the start and is kept by each configuration by which
the zone becomes a peer holds at the end. -/
theorem ivcJoin_rule {P : List HvIvcConfig → IvcRun φ → Prop} (start : P acc s)
    (step : ∀ acc config rec s₁ s₂,
      config ∈ ivcJoined overflowChecks allocContiguous zoneId configs s.records s.frames →
        P acc s₁ →
      JoinStep overflowChecks allocContiguous zoneId config rec s₁ s₂ → P (acc ++ [config]) s₂)
    (h : ivcJoin overflowChecks allocContiguous zoneId configs s = some (done, s')) :
    P (acc ++ ivcJoined overflowChecks allocContiguous zoneId configs s.records s.frames) s' := by
  induction configs generalizing acc s with
  | nil =>
    cases h
    rw [ivcJoined, List.append_nil]
    exact start
  | cons config configs ih =>
    rw [ivcJoin] at h
    rw [ivcJoined] at step ⊢
    split at h
    · cases h
    · next hins =>
      cases h
      simp only [hins, List.append_nil]
      rcases insertIvcRecord_cases hins with ⟨-, -, hrecs, hframes⟩ | ⟨_, _, hres, -⟩
      · rw [hrecs, hframes]
        exact start
      · cases hres
    · next startPaddr recs frames hins =>
      obtain ⟨zone, hzone, hloop⟩ := Option.bind_eq_some_iff.mp h
      simp only [hins] at step ⊢
      rcases insertIvcRecord_cases hins with ⟨hres, -⟩ | ⟨_, rec, hres, hacc, hrecs, hrec⟩
      · cases hres
      · have hframes : s.records.get? config.ivcId = some rec → frames = s.frames :=
          frames_of_insertIvcRecord hins
        cases hres
        rw [List.append_cons]
        refine ih ?_
          (fun acc c rec s₁ s₂ hc => step acc c rec s₁ s₂ (List.mem_cons_of_mem _ hc)) hloop
        exact step acc config rec s ⟨recs, frames, zone⟩ List.mem_cons_self start
          ⟨hacc, hrec, hrecs, hframes, hzone⟩

/-- The loop comes to its end, or the records turn a configuration away. -/
theorem ivcJoined_of_ivcJoin
    (h : ivcJoin overflowChecks allocContiguous zoneId configs s = some (done, s')) :
    (done = true ∧
      ivcJoined overflowChecks allocContiguous zoneId configs s.records s.frames = configs) ∨
      done = false ∧ ∃ config rest, ¬ Accepts s'.records config ∧
        configs = ivcJoined overflowChecks allocContiguous zoneId configs s.records s.frames ++
          config :: rest := by
  induction configs generalizing s with
  | nil =>
    cases h
    exact .inl ⟨rfl, rfl⟩
  | cons config configs ih =>
    rw [ivcJoin] at h
    rw [ivcJoined]
    split at h
    · cases h
    · next hins =>
      cases h
      simp only [hins]
      rcases insertIvcRecord_cases hins with ⟨-, hacc, rfl, -⟩ | ⟨_, _, hres, -⟩
      · exact .inr ⟨trivial, config, configs, hacc, rfl⟩
      · cases hres
    · next hins =>
      obtain ⟨zone, -, h⟩ := Option.bind_eq_some_iff.mp h
      simp only [hins]
      rcases ih h with ⟨hdone, hall⟩ | ⟨hdone, c, rest, hacc, hsplit⟩
      · exact .inl ⟨hdone, congrArg _ hall⟩
      · exact .inr ⟨hdone, c, rest, hacc, congrArg _ hsplit⟩

/-! ## Records after a step -/

theorem wordResult_lt {w x y : Nat} (h : wordResult true w x = some y) : x < 2 ^ w := by
  rw [wordResult] at h
  split at h
  · assumption
  · cases h

/-- A new record has the sizes of its configuration. -/
theorem IvcRecord.of_fromConfig {frames frames' : φ}
    (h : IvcRecord.fromConfig overflowChecks allocContiguous frames config = some (rec, frames')) :
    rec.Fits config ∧ rec.sharedMem.frameCount = config.windowSize % 2 ^ 32 / pageSize ∧
      (overflowChecks = true → config.windowSize < 2 ^ 32) ∧
      allocContiguous frames rec.sharedMem.frameCount =
        some (rec.sharedMem.startPaddr, frames') := by
  simp only [IvcRecord.fromConfig, Option.bind_eq_bind, Option.bind_eq_some_iff] at h
  obtain ⟨outSecs, houts, size, hsize, ⟨sharedMem, frames₁⟩, hmem, h⟩ := h
  cases h
  obtain ⟨⟨start, frames₂⟩, halloc, hmem⟩ := Option.map_eq_some_iff.mp hmem
  cases hmem
  have hcomm : config.outSecSize * config.maxPeers = config.maxPeers * config.outSecSize :=
    Nat.mul_comm _ _
  refine ⟨⟨rfl, rfl, rfl⟩, ?_, ?_, halloc⟩
  · show size / pageSize = _
    rw [wordResult_mod hsize, wordResult_mod houts, HvIvcConfig.windowSize, hcomm, Nat.add_mod_mod]
  · rintro rfl
    have hlt := wordResult_lt houts
    have hout := wordResult_mod houts
    have hlt' := wordResult_lt hsize
    rw [HvIvcConfig.windowSize]
    rw [Nat.mod_eq_of_lt hlt] at hout
    omega

/-- What the allocator promises: aligned frames below the largest physical address. -/
def GivesFrames (allocContiguous : φ → Nat → Option (Nat × φ)) : Prop :=
  ∀ frames count start frames', allocContiguous frames count = some (start, frames') →
    start % pageSize = 0 ∧ start + count * pageSize ≤ 2 ^ 48

namespace JoinStep

variable (h : JoinStep overflowChecks allocContiguous zoneId config rec s s')
include h

theorem get?_records : s'.records.get? id =
    if id = config.ivcId then some (rec.insertPeer config zoneId) else s.records.get? id := by
  rw [h.records, SortedMap.get?_insert]

/-- The peer of the configuration is that of the zone, all others stay. -/
theorem peerInfo?_records : peerInfo? s'.records id peerId =
    if id = config.ivcId ∧ peerId = config.peerId then some (.fromConfig config zoneId)
    else peerInfo? s.records id peerId := by
  rw [h.records]
  exact peerInfo?_of_ok h.record

/-- The record has the sizes of the configuration. -/
theorem fits : rec.Fits config := by
  rcases h.record with hrec | ⟨-, hnew⟩
  · have hacc := h.accepts
    simp only [Accepts, hrec] at hacc
    exact ⟨hacc.1, hacc.2.1, hacc.2.2.1⟩
  · exact (IvcRecord.of_fromConfig hnew).1

theorem keepLayouts : KeepLayouts s.records s'.records := by
  intro id r hr
  rw [h.get?_records]
  by_cases hid : id = config.ivcId
  · rw [if_pos hid]
    rcases h.record with hrec | ⟨hnone, -⟩
    · obtain rfl := Option.some.inj (hrec.symm.trans (hid ▸ hr))
      exact ⟨_, rfl, rfl⟩
    · rw [hid, hnone] at hr
      cases hr
  · rw [if_neg hid]
    exact ⟨r, hr, rfl⟩

/-- Records are valid also after the step. -/
theorem valid (halloc : GivesFrames allocContiguous)
    (hvalid : ∀ id r, s.records.get? id = some r → r.Valid overflowChecks) :
    rec.Valid overflowChecks ∧ ∀ id r, s'.records.get? id = some r → r.Valid overflowChecks := by
  have hrec : rec.Valid overflowChecks := by
    rcases h.record with hrec | ⟨hnone, hnew⟩
    · exact hvalid _ _ hrec
    · obtain ⟨hfits, hcount, hchecked, hmem⟩ := IvcRecord.of_fromConfig hnew
      obtain ⟨hal, hbound⟩ := halloc _ _ _ _ hmem
      have hacc := h.accepts
      simp only [Accepts, hnone] at hacc
      refine ⟨hal, hbound, ?_, ?_, ?_, ?_⟩
      · rw [hfits.rwSecSize]
        exact hacc.1
      · rw [hfits.outSecSize]
        exact hacc.2
      · rw [hfits.totalSize, hcount]
      · rw [hfits.totalSize]
        exact hchecked
  refine ⟨hrec, ?_⟩
  intro id r hr
  rw [h.get?_records] at hr
  split at hr
  · cases hr
    exact hrec.of_layout rfl
  · exact hvalid id r hr

/-! ## The zone after a step -/

/-- The regions of the windows are inserted, and the control table is registered. -/
theorem exists_regions : ∃ regions,
    ivcRegions overflowChecks config rec.sharedMem.startPaddr = some regions ∧
      regions.foldlM insertRegion s.zone.gpm = some s'.zone.gpm ∧
      s'.zone.mmio = (s.zone.mmioRegionRegister config.controlTableIpa pageSize .mmio_ivc_handler
        config.controlTableIpa).mmio := by
  have hzone := h.zone
  simp only [NewZone.mapIvc, Option.bind_eq_bind, Option.bind_eq_some_iff, Option.pure_def,
    Option.some.injEq] at hzone
  obtain ⟨regions, hregions, gpm, hgpm, hzone⟩ := hzone
  rw [← hzone]
  exact ⟨regions, hregions, hgpm, rfl⟩

/-- The zone gets its windows, and keeps what is mapped. -/
theorem windows (hinv : s.zone.gpm.st.Inv) : s.zone.gpm.Grows s'.zone.gpm ∧
    Windows overflowChecks s'.zone.gpm config rec.sharedMem.startPaddr := by
  obtain ⟨regions, hregions, hgpm, -⟩ := h.exists_regions
  obtain ⟨hg, hmaps⟩ := grows_of_foldlM hinv hgpm
  exact ⟨hg, regions, hregions, hmaps⟩

/-- An answer after the step was there before, or it is that at an offset of the windows. -/
theorem query (hinv : s.zone.gpm.st.Inv) (hrec : rec.Valid overflowChecks)
    (hq : s'.zone.gpm.pageTableQuery va = .ok x) :
    s.zone.gpm.pageTableQuery va = .ok x ∨
      ∃ o < config.windowSize, x.1 = (rec.sharedMem.startPaddr + o) % 2 ^ 48 ∧
        x.2.1 = kept (config.flagsAt o) := by
  obtain ⟨regions, hregions, hgpm, -⟩ := h.exists_regions
  obtain ⟨-, hmaps⟩ := grows_of_foldlM hinv hgpm
  have hstart : rec.sharedMem.startPaddr < 2 ^ 64 := by
    have hbound := hrec.bound
    omega
  rcases query_of_foldlM hinv hgpm (fun r hr hne =>
    hasOffset_of_mem hregions hstart hrec.start_aligned hmaps hr hne) hq with hold | hnew
  · exact .inl hold
  · obtain ⟨r, hr, va', hva', hpa, hfl⟩ := hnew
    obtain ⟨o, ho, htarget⟩ := target_of_mem hregions hstart (hmaps r hr).bound hr hva'
    rw [htarget] at hpa hfl
    exact .inr ⟨o, ho, hpa, hfl⟩

/-- A control table of the zone is that of the configuration, or was there before. -/
theorem mem_mmio {cfg : MMIOConfig} (hcfg : cfg ∈ s'.zone.mmio) :
    cfg ∈ s.zone.mmio ∨ cfg.start = config.controlTableIpa ∧ cfg.handler = .mmio_ivc_handler ∧
      cfg.arg = config.controlTableIpa := by
  obtain ⟨-, -, -, hmmio⟩ := h.exists_regions
  rw [hmmio] at hcfg
  exact mem_mmioRegionRegister hcfg

/-- The zone has the control table of the configuration, and those that it had. -/
theorem exists_mmio {config' : HvIvcConfig} (hc : config' = config ∨ ∃ cfg ∈ s.zone.mmio,
      cfg.start = config'.controlTableIpa ∧ cfg.handler = .mmio_ivc_handler ∧
        cfg.arg = config'.controlTableIpa) :
    ∃ cfg ∈ s'.zone.mmio, cfg.start = config'.controlTableIpa ∧ cfg.handler = .mmio_ivc_handler ∧
      cfg.arg = config'.controlTableIpa := by
  obtain ⟨-, -, -, hmmio⟩ := h.exists_regions
  rw [hmmio]
  by_cases hsame : config'.controlTableIpa = config.controlTableIpa
  · rw [hsame]
    exact exists_mmioRegionRegister _ _ _ _ _
  · obtain ⟨cfg, hcfg, hstart, hh⟩ := hc.resolve_left fun he => hsame (he ▸ rfl)
    exact ⟨cfg, mem_mmioRegionRegister_of_ne hcfg (hstart ▸ hsame), hstart, hh⟩

end JoinStep

end Loop

end Hvisor
