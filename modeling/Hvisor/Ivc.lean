import Hvisor.Hypercall

/-!
# Memory that zones share

Inter-VM communication, from `ivc.rs`: a record for each shared memory, with the zones that take
part as its peers, and what each zone is told of the memories that it takes part in. The zone whose
memory is set up is still under construction; `none` is a panic. The allocator of frames is a
parameter.

## Main definitions

* `PeerInfo`, `Frame`, `IvcRecord`, `IvcTables`: the tables
* `insertIvcRecord`: a zone becomes a peer
* `ivcRegions`, `NewZone.mapIvc`: the windows of a zone on a shared memory
* `ivcJoin`, `ivcInit`: a zone becomes a peer by each of its configurations
* `Restated`, `IvcTables.Silent`: configurations that say nothing new

## Main results

* `insertIvcRecord_cases`: what a zone that becomes a peer changes
* `ivcJoin_records_eq_iff`: when the records are the same after a zone has become a peer
* `ivcInit_unchanged_iff`: when `ivc_init` changes nothing
-/

namespace Hvisor

/-! ## Tables -/

/-- What a record has of a peer. -/
structure PeerInfo where
  zoneId : Nat
  irqNum : Nat
  sharedMemIpa : Nat
  deriving DecidableEq

/-- Contiguous physical frames. -/
structure Frame where
  startPaddr : Nat
  frameCount : Nat
  deriving DecidableEq

/-- A shared memory: a section that all peers write, and one for each peer that the others read. -/
structure IvcRecord where
  maxPeers : Nat
  rwSecSize : Nat
  outSecSize : Nat
  peerInfos : SortedMap Nat PeerInfo
  sharedMem : Frame

/-- `IVC_RECORDS` and `IVC_INFOS`. -/
structure IvcTables where
  records : SortedMap Nat IvcRecord
  infos : SortedMap Nat IvcInfo

/-- The peer of a configuration. -/
def PeerInfo.fromConfig (config : HvIvcConfig) (zoneId : Nat) : PeerInfo :=
  ⟨zoneId, config.interruptNum, config.sharedMemIpa⟩

/-- What a zone is told of its configurations. -/
def IvcInfo.fromConfigs (configs : List HvIvcConfig) : IvcInfo where
  len := configs.length
  ivcCtIpas := .ofFn fun i => (configs[i.val]?.map HvIvcConfig.controlTableIpa).getD 0
  ivcShmemIpas := .ofFn fun i => (configs[i.val]?.map HvIvcConfig.sharedMemIpa).getD 0
  ivcIds := .ofFn fun i => (configs[i.val]?.map HvIvcConfig.ivcId).getD 0
  ivcIrqs := .ofFn fun i => (configs[i.val]?.map HvIvcConfig.interruptNum).getD 0

section Records

variable {φ : Type} (overflowChecks : Bool) (allocContiguous : φ → Nat → Option (Nat × φ))

/-- Frames in a row. -/
def Frame.newContiguous (frames : φ) (frameCount : Nat) : Option (Frame × φ) :=
  (allocContiguous frames frameCount).map fun (startPaddr, frames) =>
    (⟨startPaddr, frameCount⟩, frames)

/-- A record without peers, with new frames. -/
def IvcRecord.fromConfig (frames : φ) (config : HvIvcConfig) : Option (IvcRecord × φ) := do
  let outSecs ← wordResult overflowChecks 32 (config.outSecSize * config.maxPeers)
  let size ← wordResult overflowChecks 32 (config.rwSecSize + outSecs)
  let (sharedMem, frames) ← Frame.newContiguous allocContiguous frames (size / pageSize)
  return (⟨config.maxPeers, config.rwSecSize, config.outSecSize, .empty, sharedMem⟩, frames)

/-- The record gets the peer of a configuration. -/
def IvcRecord.insertPeer (rec : IvcRecord) (config : HvIvcConfig) (zoneId : Nat) : IvcRecord :=
  { rec with
    peerInfos := rec.peerInfos.insert config.peerId (.fromConfig config zoneId) }

/-- The record has the sizes of the configuration, and room for one more peer. -/
def IvcRecord.Takes (rec : IvcRecord) (config : HvIvcConfig) : Prop :=
  rec.maxPeers = config.maxPeers ∧ rec.rwSecSize = config.rwSecSize ∧
    rec.outSecSize = config.outSecSize ∧ rec.peerInfos.size ≠ rec.maxPeers

instance (rec : IvcRecord) (config : HvIvcConfig) : Decidable (rec.Takes config) :=
  inferInstanceAs (Decidable (_ ∧ _))

/-- A zone becomes a peer of the shared memory of its configuration, the first one of a new memory
or one more: whether the memory is new, and where it starts. -/
def insertIvcRecord (recs : SortedMap Nat IvcRecord) (frames : φ) (config : HvIvcConfig)
    (zoneId : Nat) : Option (Except Unit (Bool × Nat) × SortedMap Nat IvcRecord × φ) :=
  match recs.get? config.ivcId with
  | some rec =>
    if rec.maxPeers ≠ config.maxPeers ∨ rec.rwSecSize ≠ config.rwSecSize ∨
        rec.outSecSize ≠ config.outSecSize then
      some (.error (), recs, frames)
    else if rec.peerInfos.size = rec.maxPeers then
      some (.error (), recs, frames)
    else
      some (.ok (false, rec.sharedMem.startPaddr),
        recs.insert config.ivcId (rec.insertPeer config zoneId), frames)
  | none =>
    if config.rwSecSize % pageSize ≠ 0 ∨ config.outSecSize % pageSize ≠ 0 then
      some (.error (), recs, frames)
    else do
      let (rec, frames) ← IvcRecord.fromConfig overflowChecks allocContiguous frames config
      return (.ok (true, rec.sharedMem.startPaddr),
        recs.insert config.ivcId (rec.insertPeer config zoneId), frames)

end Records

/-! ## The zone -/

/-- The functions that emulate a device. -/
inductive MMIOHandler where
  | mmio_virtio_handler
  | mmio_ivc_handler
  | mmio_hyperamp_handler
  | mmio_pci_handler
  | vgicv2_dist_handler
  | vgicv3_dist_handler
  | vgicv3_redist_handler
  | vgicv3_its_handler
  deriving DecidableEq

/-- A region of a zone whose accesses are handled. -/
structure MMIOConfig where
  start : Nat
  size : Nat
  handler : MMIOHandler
  arg : Nat
  deriving DecidableEq

/-- A zone under construction: the parts that `ivc_init` works on. -/
structure NewZone where
  gpm : MemorySet PageTableEntry
  mmio : List MMIOConfig

/-- Register a mmio region and its handler; a region with the same start keeps its size. -/
def NewZone.mmioRegionRegister (zone : NewZone) (start size : Nat) (handler : MMIOHandler)
    (arg : Nat) : NewZone :=
  { zone with
    mmio := match zone.mmio.findIdx? fun mmio => mmio.start == start with
      | some i => zone.mmio.modify i fun mmio => { mmio with handler, arg }
      | none => zone.mmio ++ [⟨start, size, handler, arg⟩] }

/-- The windows of a zone on a shared memory: the zone writes the first section, and that of its own
peer id. -/
def ivcRegions (overflowChecks : Bool) (config : HvIvcConfig) (startPaddr : Nat) :
    Option (List MemoryRegion) := do
  let rest ← (List.range config.maxPeers).mapM fun i => do
    let ipa ← wordResult overflowChecks 64
      (config.sharedMemIpa + config.rwSecSize + i * config.outSecSize)
    let paddr ← wordResult overflowChecks 64
      (startPaddr + config.rwSecSize + i * config.outSecSize)
    let flags := if i = config.peerId then MemFlags.READ ||| MemFlags.WRITE else MemFlags.READ
    return .newWithOffsetMapper ipa paddr config.outSecSize flags
  return .newWithOffsetMapper config.sharedMemIpa startPaddr config.rwSecSize
    (MemFlags.READ ||| MemFlags.WRITE) :: rest

/-- `unwrap` of an insertion. -/
def insertRegion (gpm : MemorySet PageTableEntry) (region : MemoryRegion) :
    Option (MemorySet PageTableEntry) :=
  match (MemorySet.insert region).run gpm with
  | .ok _ gpm => some gpm
  | .error _ _ => none

/-- The zone gets its windows and its control table. -/
def NewZone.mapIvc (overflowChecks : Bool) (zone : NewZone) (config : HvIvcConfig)
    (startPaddr : Nat) : Option NewZone := do
  let regions ← ivcRegions overflowChecks config startPaddr
  let gpm ← regions.foldlM insertRegion zone.gpm
  return { zone with gpm }.mmioRegionRegister config.controlTableIpa pageSize .mmio_ivc_handler
    config.controlTableIpa

section Init

variable {φ : Type} (overflowChecks : Bool) (allocContiguous : φ → Nat → Option (Nat × φ))
  (zoneId : Nat)

/-- What `ivc_init` works on: the records, the frames and the zone. -/
structure IvcRun (φ : Type) where
  records : SortedMap Nat IvcRecord
  frames : φ
  zone : NewZone

/-- The loop of `ivc_init`, and whether it came to its end. -/
def ivcJoin : List HvIvcConfig → IvcRun φ → Option (Bool × IvcRun φ)
  | [], s => some (true, s)
  | config :: configs, s =>
    match insertIvcRecord overflowChecks allocContiguous s.records s.frames config zoneId with
    | none => none
    | some (.error _, records, frames) => some (false, { s with records, frames })
    | some (.ok (_, startPaddr), records, frames) =>
      (s.zone.mapIvc overflowChecks config startPaddr).bind fun zone =>
        ivcJoin configs ⟨records, frames, zone⟩

/-- `ivc_init`: the zone becomes a peer by its configurations, and is told of them. -/
def ivcInit (tables : IvcTables) (frames : φ) (zone : NewZone) (configs : List HvIvcConfig) :
    Option (IvcTables × φ × NewZone) :=
  (ivcJoin overflowChecks allocContiguous zoneId configs ⟨tables.records, frames, zone⟩).map
    fun (done, s) =>
      (⟨s.records, if done then tables.infos.insert zoneId (.fromConfigs configs)
        else tables.infos⟩, s.frames, s.zone)

end Init

/-! ## What a zone that becomes a peer changes -/

/-- The records take a peer with the configuration. -/
def Accepts (recs : SortedMap Nat IvcRecord) (config : HvIvcConfig) : Prop :=
  match recs.get? config.ivcId with
  | some rec => rec.Takes config
  | none => config.rwSecSize % pageSize = 0 ∧ config.outSecSize % pageSize = 0

instance (recs : SortedMap Nat IvcRecord) (config : HvIvcConfig) :
    Decidable (Accepts recs config) :=
  match h : recs.get? config.ivcId with
  | some rec => decidable_of_iff (rec.Takes config) (by rw [Accepts, h])
  | none =>
    decidable_of_iff (config.rwSecSize % pageSize = 0 ∧ config.outSecSize % pageSize = 0)
      (by rw [Accepts, h])

/-- What the records say of a peer. -/
def peerInfo? (recs : SortedMap Nat IvcRecord) (ivcId peerId : Nat) : Option PeerInfo :=
  (recs.get? ivcId).bind fun rec => rec.peerInfos.get? peerId

section Cases

variable {φ : Type} {overflowChecks : Bool} {allocContiguous : φ → Nat → Option (Nat × φ)}
  {recs recs' r₀ : SortedMap Nat IvcRecord} {frames frames' : φ} {config : HvIvcConfig}
  {configs : List HvIvcConfig} {zoneId id peerId : Nat} {s s' : IvcRun φ} {done : Bool}

/-- **A zone becomes a peer** of a record that there is or of a new one, or it is turned away, and
nothing changes. -/
theorem insertIvcRecord_cases {res : Except Unit (Bool × Nat)}
    (h : insertIvcRecord overflowChecks allocContiguous recs frames config zoneId =
      some (res, recs', frames')) :
    (res = .error () ∧ ¬ Accepts recs config ∧ recs' = recs ∧ frames' = frames) ∨
      ∃ isNew rec, res = .ok (isNew, rec.sharedMem.startPaddr) ∧ Accepts recs config ∧
        recs' = recs.insert config.ivcId (rec.insertPeer config zoneId) ∧
        (recs.get? config.ivcId = some rec ∨ recs.get? config.ivcId = none ∧
          IvcRecord.fromConfig overflowChecks allocContiguous frames config =
            some (rec, frames')) := by
  rw [insertIvcRecord] at h
  cases hrec : recs.get? config.ivcId with
  | some rec =>
    simp only [hrec] at h
    have hacc : Accepts recs config ↔ rec.Takes config := by rw [Accepts, hrec]
    split at h
    · next hne =>
      cases h
      refine .inl ⟨rfl, fun ha => ?_, rfl, rfl⟩
      obtain ⟨h₁, h₂, h₃, -⟩ := hacc.mp ha
      exact hne.elim (· h₁) (Or.elim · (· h₂) (· h₃))
    · next hne =>
      push Not at hne
      split at h
      · next hfull =>
        cases h
        exact .inl ⟨rfl, fun ha => (hacc.mp ha).2.2.2 hfull, rfl, rfl⟩
      · next hroom =>
        cases h
        exact .inr ⟨false, rec, rfl, hacc.mpr ⟨hne.1, hne.2.1, hne.2.2, hroom⟩, rfl, .inl rfl⟩
  | none =>
    simp only [hrec] at h
    have hacc : Accepts recs config ↔
        config.rwSecSize % pageSize = 0 ∧ config.outSecSize % pageSize = 0 := by rw [Accepts, hrec]
    split at h
    · next hne =>
      cases h
      refine .inl ⟨rfl, fun ha => ?_, rfl, rfl⟩
      obtain ⟨h₁, h₂⟩ := hacc.mp ha
      exact hne.elim (· h₁) (· h₂)
    · next hal =>
      push Not at hal
      obtain ⟨⟨rec, frames₁⟩, hnew, h⟩ := Option.bind_eq_some_iff.mp h
      cases h
      exact .inr ⟨true, rec, rfl, hacc.mpr hal, rfl, .inr ⟨rfl, hnew⟩⟩

/-- A new record has no peers. -/
theorem IvcRecord.peerInfos_fromConfig {rec : IvcRecord}
    (h : IvcRecord.fromConfig overflowChecks allocContiguous frames config = some (rec, frames')) :
    rec.peerInfos = .empty := by
  simp only [IvcRecord.fromConfig, Option.bind_eq_bind, Option.bind_eq_some_iff] at h
  obtain ⟨outSecs, -, size, -, ⟨sharedMem, frames₁⟩, -, h⟩ := h
  cases h
  rfl

/-- What the records say of one peer changes. -/
theorem peerInfo?_of_ok {rec : IvcRecord}
    (h : recs.get? config.ivcId = some rec ∨ recs.get? config.ivcId = none ∧
      IvcRecord.fromConfig overflowChecks allocContiguous frames config = some (rec, frames')) :
    peerInfo? (recs.insert config.ivcId (rec.insertPeer config zoneId)) id peerId =
      if id = config.ivcId ∧ peerId = config.peerId then some (.fromConfig config zoneId)
      else peerInfo? recs id peerId := by
  have hrec : ∀ p, rec.peerInfos.get? p = peerInfo? recs config.ivcId p := fun p => by
    rw [peerInfo?]
    rcases h with h | ⟨h, hnew⟩
    · rw [h, Option.bind_some]
    · rw [h, IvcRecord.peerInfos_fromConfig hnew, Option.bind_none]
      exact SortedMap.get?_eq_none.mpr fun v => SortedMap.not_mem_empty
  rw [peerInfo?, SortedMap.get?_insert]
  by_cases hid : id = config.ivcId
  · rw [if_pos hid, Option.bind_some, IvcRecord.insertPeer, SortedMap.get?_insert, hrec, hid]
    simp only [true_and]
  · rw [if_neg hid, if_neg fun h => hid h.1, peerInfo?]

/-- Peers stay. -/
theorem isSome_peerInfo?_of_ivcJoin
    (h : ivcJoin overflowChecks allocContiguous zoneId configs s = some (done, s'))
    (hp : (peerInfo? s.records id peerId).isSome) : (peerInfo? s'.records id peerId).isSome := by
  induction configs generalizing s with
  | nil =>
    cases h
    exact hp
  | cons config configs ih =>
    rw [ivcJoin] at h
    split at h
    · cases h
    · next hins =>
      cases h
      rcases insertIvcRecord_cases hins with ⟨-, -, rfl, -⟩ | ⟨_, _, hres, -⟩
      · exact hp
      · cases hres
    · next hins =>
      obtain ⟨zone, -, h⟩ := Option.bind_eq_some_iff.mp h
      rcases insertIvcRecord_cases hins with ⟨hres, -⟩ | ⟨_, rec, -, -, hrecs, hrec⟩
      · cases hres
      · refine ih h ?_
        simp only [hrecs, peerInfo?_of_ok hrec]
        split
        · rfl
        · exact hp

/-! ## Configurations that say nothing new -/

/-- Each configuration says of its peer what the records say, unless a later one is for the same
peer. -/
def Restated (recs : SortedMap Nat IvcRecord) (zoneId : Nat) : List HvIvcConfig → Prop
  | [] => True
  | config :: configs =>
    (peerInfo? recs config.ivcId config.peerId = some (.fromConfig config zoneId) ∨
      ∃ c ∈ configs, c.ivcId = config.ivcId ∧ c.peerId = config.peerId) ∧
      Restated recs zoneId configs

theorem Restated.isSome (h : Restated recs zoneId configs) (hc : config ∈ configs) :
    (peerInfo? recs config.ivcId config.peerId).isSome := by
  induction configs generalizing config with
  | nil => cases hc
  | cons c configs ih =>
    obtain ⟨hhead, htail⟩ := h
    rcases List.mem_cons.mp hc with rfl | hc
    · rcases hhead with hp | ⟨c', hc', hid, hpeer⟩
      · rw [hp]
        rfl
      · rw [← hid, ← hpeer]
        exact ih htail hc'
    · exact ih htail hc

/-- All of a record but what it says of its peers. -/
def IvcRecord.shape (rec : IvcRecord) : Nat × Nat × Nat × Frame × List Nat :=
  (rec.maxPeers, rec.rwSecSize, rec.outSecSize, rec.sharedMem, rec.peerInfos.keys)

/-- The records differ in what they say of peers, at most. -/
def SameShape (recs recs' : SortedMap Nat IvcRecord) : Prop :=
  ∀ id, (recs.get? id).map IvcRecord.shape = (recs'.get? id).map IvcRecord.shape

theorem SameShape.accepts_iff (h : SameShape recs recs') :
    Accepts recs config ↔ Accepts recs' config := by
  have hid := h config.ivcId
  rw [Accepts, Accepts]
  cases hrec : recs.get? config.ivcId <;> cases hrec' : recs'.get? config.ivcId <;>
    simp only [hrec, hrec', Option.map_some, Option.map_none, reduceCtorEq,
      Option.some.injEq] at hid
  · rfl
  · simp only [IvcRecord.shape, Prod.mk.injEq] at hid
    obtain ⟨h₁, h₂, h₃, -, h₄⟩ := hid
    simp only [IvcRecord.Takes, SortedMap.size_eq_length_keys, h₁, h₂, h₃, h₄]

theorem SameShape.eq (h : SameShape recs recs')
    (hp : ∀ id peerId, peerInfo? recs id peerId = peerInfo? recs' id peerId) : recs = recs' := by
  refine SortedMap.ext_get? fun id => ?_
  have hid := h id
  have hpeer := hp id
  simp only [peerInfo?] at hpeer
  cases hrec : recs.get? id <;> cases hrec' : recs'.get? id <;>
    simp only [hrec, hrec', Option.map_some, Option.map_none, reduceCtorEq,
      Option.some.injEq] at hid
  · rfl
  · simp only [hrec, hrec', Option.bind_some] at hpeer
    simp only [IvcRecord.shape, Prod.mk.injEq] at hid
    obtain ⟨h₁, h₂, h₃, h₄, -⟩ := hid
    rw [Option.some.injEq, IvcRecord.mk.injEq]
    exact ⟨h₁, h₂, h₃, SortedMap.ext_get? hpeer, h₄⟩

theorem SameShape.isSome_iff (h : SameShape recs recs') :
    (peerInfo? recs id peerId).isSome ↔ (peerInfo? recs' id peerId).isSome := by
  have hid := h id
  rw [peerInfo?, peerInfo?]
  cases hrec : recs.get? id <;> cases hrec' : recs'.get? id <;>
    simp only [hrec, hrec', Option.map_some, Option.map_none, reduceCtorEq,
      Option.some.injEq] at hid
  · rfl
  · simp only [IvcRecord.shape, Prod.mk.injEq] at hid
    rw [Option.bind_some, Option.bind_some, ← SortedMap.mem_keys, ← SortedMap.mem_keys,
      hid.2.2.2.2]

/-- A peer that there is gets another configuration. -/
theorem SameShape.insertPeer {rec : IvcRecord} (hrec : recs.get? config.ivcId = some rec)
    (hp : (peerInfo? recs config.ivcId config.peerId).isSome) :
    SameShape (recs.insert config.ivcId (rec.insertPeer config zoneId)) recs := by
  intro id
  rw [SortedMap.get?_insert]
  split
  · next hid =>
    rw [peerInfo?, hrec, Option.bind_some] at hp
    rw [hid, hrec, Option.map_some, Option.map_some, IvcRecord.shape, IvcRecord.insertPeer,
      SortedMap.keys_insert_of_mem (SortedMap.mem_keys.mpr hp)]
    rfl
  · rfl

/-- No configuration is accepted: the records are `r₀` when they say the same of all peers. -/
theorem SameShape.eq_iff (h : SameShape recs r₀) : recs = r₀ ↔
    (∀ id peerId, peerInfo? recs id peerId ≠ peerInfo? r₀ id peerId →
      ∃ c ∈ ([] : List HvIvcConfig), c.ivcId = id ∧ c.peerId = peerId) ∧
    Restated r₀ zoneId [] := by
  constructor
  · intro he
    exact ⟨fun id p hne => absurd (by rw [he]) hne, trivial⟩
  · rintro ⟨hp, -⟩
    refine h.eq fun id p => ?_
    by_contra hne
    obtain ⟨c, hc, -⟩ := hp id p hne
    cases hc

/-- A peer that there is gets the configuration: what the rest of the accepted ones must restate. -/
theorem restated_cons_iff (hpeer : ∀ id peerId, peerInfo? recs' id peerId =
      if id = config.ivcId ∧ peerId = config.peerId then some (.fromConfig config zoneId)
      else peerInfo? recs id peerId) :
    ((∀ id peerId, peerInfo? recs' id peerId ≠ peerInfo? r₀ id peerId →
        ∃ c ∈ configs, c.ivcId = id ∧ c.peerId = peerId) ∧ Restated r₀ zoneId configs) ↔
      (∀ id peerId, peerInfo? recs id peerId ≠ peerInfo? r₀ id peerId →
        ∃ c ∈ config :: configs, c.ivcId = id ∧ c.peerId = peerId) ∧
      Restated r₀ zoneId (config :: configs) := by
  rw [Restated, ← and_assoc]
  refine and_congr_left fun _ => ⟨fun h => ⟨?_, ?_⟩, fun ⟨h, hhead⟩ => ?_⟩
  · intro id p hne
    by_cases hkey : id = config.ivcId ∧ p = config.peerId
    · exact ⟨config, List.mem_cons_self, hkey.1.symm, hkey.2.symm⟩
    · obtain ⟨c, hc, hc'⟩ := h id p (by rwa [hpeer, if_neg hkey])
      exact ⟨c, List.mem_cons_of_mem _ hc, hc'⟩
  · by_cases hsame : peerInfo? r₀ config.ivcId config.peerId = some (.fromConfig config zoneId)
    · exact .inl hsame
    · exact .inr (h _ _ (by rw [hpeer, if_pos ⟨rfl, rfl⟩]; exact Ne.symm hsame))
  · intro id p hne
    rw [hpeer] at hne
    split at hne
    · next hkey =>
      obtain ⟨rfl, rfl⟩ := hkey
      exact hhead.resolve_left (Ne.symm hne)
    · next hkey =>
      obtain ⟨c, hc, rfl, rfl⟩ := h id p hne
      rcases List.mem_cons.mp hc with rfl | hc
      · exact absurd ⟨rfl, rfl⟩ hkey
      · exact ⟨c, hc, rfl, rfl⟩

/-- **The records are `r₀`** after the loop, when it starts from records that differ from them in
what they say of peers at most: the accepted configurations overwrite what differs, and say what
`r₀` says. The loop comes to its end when all configurations are accepted. -/
theorem ivcJoin_records_eq_iff
    (h : ivcJoin overflowChecks allocContiguous zoneId configs s = some (done, s'))
    (hs : SameShape s.records r₀) :
    (s'.records = r₀ ↔
      (∀ id peerId, peerInfo? s.records id peerId ≠ peerInfo? r₀ id peerId →
        ∃ c ∈ configs.takeWhile (Accepts r₀ ·), c.ivcId = id ∧ c.peerId = peerId) ∧
      Restated r₀ zoneId (configs.takeWhile (Accepts r₀ ·))) ∧
    (s'.records = r₀ → (done = true ↔ ∀ c ∈ configs, Accepts r₀ c)) := by
  induction configs generalizing s with
  | nil =>
    cases h
    exact ⟨hs.eq_iff, fun _ => ⟨fun _ => nofun, fun _ => rfl⟩⟩
  | cons config configs ih =>
    rw [ivcJoin] at h
    split at h
    · cases h
    · next hins =>
      cases h
      rcases insertIvcRecord_cases hins with ⟨-, hacc, rfl, -⟩ | ⟨_, _, hres, -⟩
      · -- the loop ends at a configuration that `r₀` does not accept either
        rw [hs.accepts_iff] at hacc
        rw [List.takeWhile_cons_of_neg (by simpa using hacc)]
        exact ⟨hs.eq_iff, fun _ =>
          ⟨nofun, fun hall => absurd (hall config List.mem_cons_self) hacc⟩⟩
      · cases hres
    · next startPaddr recs frames hins =>
      obtain ⟨zone, -, h⟩ := Option.bind_eq_some_iff.mp h
      rcases insertIvcRecord_cases hins with ⟨hres, -⟩ | ⟨_, rec, -, hacc, hrecs, hrec⟩
      · cases hres
      have hpeer : ∀ id p, peerInfo? recs id p =
          if id = config.ivcId ∧ p = config.peerId then some (.fromConfig config zoneId)
          else peerInfo? s.records id p := fun id p => by
        rw [hrecs]
        exact peerInfo?_of_ok hrec
      rw [hs.accepts_iff] at hacc
      rw [List.takeWhile_cons_of_pos (by simpa using hacc)]
      -- a peer that was there is said anew, and one that was not stays to the end
      by_cases hold : (peerInfo? s.records config.ivcId config.peerId).isSome
      · -- the records keep their shape
        have hget : s.records.get? config.ivcId = some rec := by
          refine hrec.resolve_right fun hnone => ?_
          rw [peerInfo?, hnone.1] at hold
          cases hold
        have hshape : SameShape recs r₀ := fun id =>
          (hrecs ▸ SameShape.insertPeer hget hold id).trans (hs id)
        obtain ⟨heq, hdone⟩ := ih h hshape
        exact ⟨heq.trans (restated_cons_iff hpeer), fun he => (hdone he).trans (by simp [hacc])⟩
      · -- there is a peer now that `r₀` does not have
        have hne : s'.records ≠ r₀ := by
          intro he
          have hnew : (peerInfo? recs config.ivcId config.peerId).isSome := by
            rw [hpeer, if_pos ⟨rfl, rfl⟩]
            rfl
          have hkept := isSome_peerInfo?_of_ivcJoin h hnew
          rw [he, ← hs.isSome_iff] at hkept
          exact hold hkept
        refine ⟨iff_of_false hne ?_, fun he => absurd he hne⟩
        rintro ⟨-, hrest⟩
        exact hold (hs.isSome_iff.mpr (hrest.isSome List.mem_cons_self))

/-! ## A zone that is told nothing new -/

/-- The configurations that are accepted say nothing new, and if all are, neither does what the zone
is told. -/
def IvcTables.Silent (tables : IvcTables) (zoneId : Nat) (configs : List HvIvcConfig) : Prop :=
  Restated tables.records zoneId (configs.takeWhile (Accepts tables.records ·)) ∧
    ((∀ c ∈ configs, Accepts tables.records c) →
      tables.infos.get? zoneId = some (.fromConfigs configs))

/-- **`ivc_init` changes nothing** exactly when its configurations say nothing new. -/
theorem ivcInit_unchanged_iff {tables tables' : IvcTables} {zone zone' : NewZone}
    (h : ivcInit overflowChecks allocContiguous zoneId tables frames zone configs =
      some (tables', frames', zone')) : tables' = tables ↔ tables.Silent zoneId configs := by
  obtain ⟨⟨done, s'⟩, hjoin, he⟩ := Option.map_eq_some_iff.mp h
  obtain ⟨rfl, -⟩ := Prod.mk.inj he
  obtain ⟨hrecs, hdone⟩ := ivcJoin_records_eq_iff hjoin fun _ => rfl
  have hsame : s'.records = tables.records ↔
      Restated tables.records zoneId (configs.takeWhile (Accepts tables.records ·)) :=
    hrecs.trans (and_iff_right fun _ _ hne => absurd rfl hne)
  rw [IvcTables.Silent, ← hsame]
  obtain ⟨records, infos⟩ := tables
  rw [IvcTables.mk.injEq]
  refine and_congr_right fun hr => ?_
  rw [← hdone hr]
  by_cases hd : done = true
  · simp only [hd, if_true, forall_const]
    exact SortedMap.insert_eq_self_iff
  · simp [hd]

end Cases

end Hvisor
