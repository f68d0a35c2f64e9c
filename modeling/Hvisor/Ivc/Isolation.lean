import Hvisor.Ivc.Entries

/-!
# Who writes an output section

A zone writes the output section of its own peer id only, so that no two zones should write the same
one. This needs that no zone takes the peer id of another one, that all sections have frames, and
that no zone reaches frames of shared memories through its other memory.

## Main definitions

* `FrameLaw`: what the allocator promises of frames that are held
* `Isolating`, `IsolatingStep`: the conditions on a creation, and on any step
* `WriteIsolated`: each output section is written by the zone of its peer only

## Main results

* `writeIsolated_of_run`: in runs whose steps meet the condition, output sections have one writer
* `two_writers`: two zones with the same peer id write the same section
-/

namespace Hvisor

open MemorySet TransitionSystem

variable {φ : Type} {env : StartEnv φ} {pool : Nat → Prop} {held : φ → Nat → Prop}

/-! ## Frames -/

/-- **What the allocator promises**: contiguous frames come from a pool, and nobody holds them; what
a zone gives back when it is dropped are frames of its page tables, not of shared memories. -/
structure FrameLaw (env : StartEnv φ) (pool : Nat → Prop) (held : φ → Nat → Prop) : Prop where
  allocContiguous : ∀ frames count start frames',
    env.allocContiguous frames count = some (start, frames') →
      (∀ pa, start ≤ pa → pa < start + count * pageSize →
        pool pa ∧ ¬ held frames pa ∧ held frames' pa) ∧
      ∀ pa, held frames pa → held frames' pa
  newS2MemorySet : ∀ frames gpm frames', env.newS2MemorySet frames = some (gpm, frames') →
    ∀ pa, held frames pa → held frames' pa
  dropZone : ∀ zone frames pa, held frames pa → held (env.dropZone zone frames) pa

/-- **Records have frames of their own**, which they hold. -/
structure OwnFrames (pool held : Nat → Prop) (recs : SortedMap Nat IvcRecord) : Prop where
  held : ∀ id rec pa, recs.get? id = some rec → rec.Holds pa → pool pa ∧ held pa
  apart : ∀ id id' rec rec' pa, recs.get? id = some rec → recs.get? id' = some rec' → rec.Holds pa →
    rec'.Holds pa → id = id'

theorem OwnFrames.mono {held held' : Nat → Prop} {recs : SortedMap Nat IvcRecord}
    (h : OwnFrames pool held recs) (hle : ∀ pa, held pa → held' pa) : OwnFrames pool held' recs :=
  ⟨fun id rec pa hrec hpa => ⟨(h.held id rec pa hrec hpa).1, hle pa (h.held id rec pa hrec hpa).2⟩,
    h.apart⟩

section Steps

variable {config : HvIvcConfig} {rec : IvcRecord} {s s' : IvcRun φ} {zoneId : Nat}

/-- A record after a step was there before, or it is that of the configuration, with new frames. -/
theorem JoinStep.get?_cases
    (h : JoinStep env.overflowChecks env.allocContiguous zoneId config rec s s') {id : Nat}
    {r' : IvcRecord} (hr' : s'.records.get? id = some r') :
    (∃ r, s.records.get? id = some r ∧ r'.layout = r.layout) ∨
      id = config.ivcId ∧ s.records.get? id = none ∧ r'.Fits config ∧
        env.allocContiguous s.frames r'.sharedMem.frameCount =
          some (r'.sharedMem.startPaddr, s'.frames) := by
  rw [h.get?_records] at hr'
  by_cases hid : id = config.ivcId
  · rw [if_pos hid] at hr'
    obtain rfl := Option.some.inj hr'
    rcases h.record with hrec | ⟨hnone, hnew⟩
    · exact .inl ⟨rec, hid ▸ hrec, rfl⟩
    · obtain ⟨hfits, -, -, halloc⟩ := IvcRecord.of_fromConfig hnew
      exact .inr ⟨hid, hid ▸ hnone, hfits.of_layout rfl, halloc⟩
  · rw [if_neg hid] at hr'
    exact .inl ⟨r', hr', rfl⟩

theorem IvcRecord.holds_of_layout {r r' : IvcRecord} (h : r'.layout = r.layout) {pa : Nat} :
    r'.Holds pa ↔ r.Holds pa := by
  have hmem : r'.sharedMem = r.sharedMem := congrArg (·.2.2.2) h
  rw [IvcRecord.Holds, IvcRecord.Holds, hmem]

/-- Frames that are held stay held. -/
theorem JoinStep.held_mono
    (h : JoinStep env.overflowChecks env.allocContiguous zoneId config rec s s')
    (hlaw : FrameLaw env pool held) {pa : Nat} (hpa : held s.frames pa) : held s'.frames pa := by
  rcases h.record with hrec | ⟨-, hnew⟩
  · rw [h.frames hrec]
    exact hpa
  · obtain ⟨-, -, -, halloc⟩ := IvcRecord.of_fromConfig hnew
    exact (hlaw.allocContiguous _ _ _ _ halloc).2 pa hpa

/-- A new record has frames that no other one has. -/
theorem JoinStep.ownFrames
    (h : JoinStep env.overflowChecks env.allocContiguous zoneId config rec s s')
    (hlaw : FrameLaw env pool held) (ho : OwnFrames pool (held s.frames) s.records) :
    OwnFrames pool (held s'.frames) s'.records := by
  -- what an address that a record holds afterwards was before
  have hbefore : ∀ id r' pa, s'.records.get? id = some r' → r'.Holds pa →
      (∃ r, s.records.get? id = some r ∧ r.Holds pa) ∨
        id = config.ivcId ∧ pool pa ∧ ¬ held s.frames pa ∧ held s'.frames pa := by
    intro id r' pa hr' hpa
    rcases h.get?_cases hr' with ⟨r, hr, hl⟩ | ⟨hid, -, -, halloc⟩
    · exact .inl ⟨r, hr, (IvcRecord.holds_of_layout hl).mp hpa⟩
    · obtain ⟨hfresh, -⟩ := hlaw.allocContiguous _ _ _ _ halloc
      exact .inr ⟨hid, hfresh pa hpa.1 hpa.2⟩
  constructor
  · intro id r' pa hr' hpa
    rcases hbefore id r' pa hr' hpa with ⟨r, hr, hpa⟩ | ⟨-, hpool, -, hheld⟩
    · obtain ⟨hpool, hheld⟩ := ho.held id r pa hr hpa
      exact ⟨hpool, h.held_mono hlaw hheld⟩
    · exact ⟨hpool, hheld⟩
  · intro id id' r r' pa hr hr' hpa hpa'
    rcases hbefore id r pa hr hpa with ⟨r₁, hr₁, hpa₁⟩ | ⟨hid, -, hfree, -⟩
    · rcases hbefore id' r' pa hr' hpa' with ⟨r₂, hr₂, hpa₂⟩ | ⟨-, -, hfree, -⟩
      · exact ho.apart id id' r₁ r₂ pa hr₁ hr₂ hpa₁ hpa₂
      · exact absurd (ho.held id r₁ pa hr₁ hpa₁).2 hfree
    · rcases hbefore id' r' pa hr' hpa' with ⟨r₂, hr₂, hpa₂⟩ | ⟨hid', -⟩
      · exact absurd (ho.held id' r₂ pa hr₂ hpa₂).2 hfree
      · exact hid.trans hid'.symm

end Steps

/-! ## Sections -/

/-- The physical address is in an output section of the record. -/
def IvcRecord.InSection (rec : IvcRecord) (i pa : Nat) : Prop :=
  rec.sharedMem.startPaddr + rec.rwSecSize + i * rec.outSecSize ≤ pa ∧
    pa < rec.sharedMem.startPaddr + rec.rwSecSize + (i + 1) * rec.outSecSize

/-- The zone writes the physical address. -/
def NewZone.Writes (zone : NewZone) (pa : Nat) : Prop :=
  ∃ va fl ps, zone.gpm.pageTableQuery va = .ok (pa, fl, ps) ∧ fl.contains MemFlags.WRITE = true

/-- **Output sections have one writer**: recorded peer ids are those of sections, and a zone that
writes an output section is the only one, and the one that the record has as the peer of the
section. -/
structure WriteIsolated (s : IvcHistory φ) : Prop where
  peerId : ∀ id rec p, s.state.ivc.records.get? id = some rec → (rec.peerInfos.get? p).isSome →
    p < rec.maxPeers
  recorded : ∀ id rec i pa z zone, s.state.ivc.records.get? id = some rec → i < rec.maxPeers →
    rec.InSection i pa → s.state.spaces z = some zone → zone.Writes pa →
      ∃ info, rec.peerInfos.get? i = some info ∧ info.zoneId = (s.state.machine.zones z).id
  unique : ∀ id rec i pa pa' z z' zone zone', s.state.ivc.records.get? id = some rec →
    i < rec.maxPeers →
    rec.InSection i pa → rec.InSection i pa' → s.state.spaces z = some zone →
      s.state.spaces z' = some zone' → zone.Writes pa → zone'.Writes pa' → z = z'

/-! ## The condition -/

/-- **The condition on a creation**, also on one that fails at a CPU: where the zone becomes a peer,
no zone that is there has the peer id, the peer id is that of a section, and the size of all
sections fits into 32 bits; and the other memory of a zone that gets its CPUs does not reach the
pool of frames. -/
structure Isolating (env : StartEnv φ) (pool : Nat → Prop) (s : IvcHistory φ)
    (config : HvZoneConfig) :
    Prop where
  free : FreeEntries env s config
  peerId : ∀ c ∈ s.state.joins env config, c.peerId < c.maxPeers
  size : ∀ c ∈ s.state.joins env config, c.rwSecSize + c.maxPeers * c.outSecSize < 2 ^ 32
  outside : (∀ c ∈ config.cpuList, s.state.machine.zone c = none) →
    ∀ zone frames, s.state.zoneBefore env config = some (zone, frames) →
      ∀ va x, zone.gpm.pageTableQuery va = .ok x → ¬ pool x.1

/-- The condition on a step: a creation meets the condition unless a zone of the list has the id,
and nothing in between gives frames of the pool back, or lets a zone reach more of them. -/
def IsolatingStep (env : StartEnv φ) (pool : Nat → Prop) (held : φ → Nat → Prop)
    (s : IvcHistory φ) :
    IvcEvent → IvcHistory φ → Prop
  | .create config, _ =>
    s.state.machine.findZone config.zoneId = some none → Isolating env pool s config
  | .other, s' => (∀ pa, held s.state.frames pa → held s'.state.frames pa) ∧
    ∀ z zone zone', s.state.spaces z = some zone → s'.state.spaces z = some zone' →
      ∀ va x, zone'.gpm.pageTableQuery va = .ok x → pool x.1 → zone.gpm.pageTableQuery va = .ok x

/-! ## The invariant -/

/-- The answer comes from a window of one of the configurations. -/
def FromWindow (recs : SortedMap Nat IvcRecord) (configs : List HvIvcConfig)
    (x : Nat × MemFlags × PageSize) : Prop :=
  ∃ c ∈ configs, ∃ rec, recs.get? c.ivcId = some rec ∧ rec.Fits c ∧
    ∃ o < c.windowSize, x.1 = (rec.sharedMem.startPaddr + o) % 2 ^ 48 ∧ x.2.1 = kept (c.flagsAt o)

theorem FromWindow.mono {recs recs' : SortedMap Nat IvcRecord} {configs configs' : List HvIvcConfig}
    {x : Nat × MemFlags × PageSize} (h : FromWindow recs configs x) (hkeep : KeepLayouts recs recs')
    (hsub : ∀ c ∈ configs, c ∈ configs') : FromWindow recs' configs' x := by
  obtain ⟨c, hc, rec, hrec, hfits, o, ho, hpa, hfl⟩ := h
  obtain ⟨rec', hrec', hl⟩ := hkeep _ _ hrec
  have hmem : rec'.sharedMem = rec.sharedMem := congrArg (·.2.2.2) hl
  exact ⟨c, hsub c hc, rec', hrec', hfits.of_layout hl, o, ho, hmem ▸ hpa, hfl⟩

/-- What the records satisfy. -/
structure SoundRecords (pool held : Nat → Prop) (recs : SortedMap Nat IvcRecord) : Prop where
  own : OwnFrames pool held recs
  size : ∀ id rec, recs.get? id = some rec → rec.totalSize < 2 ^ 32
  peerId : ∀ id rec p, recs.get? id = some rec → (rec.peerInfos.get? p).isSome → p < rec.maxPeers

/-- **The invariant**: the records are sound, no two zones have the same peer id, and what a zone
reaches of the pool it reaches through its windows. -/
structure IsolationInv (env : StartEnv φ) (pool : Nat → Prop) (held : φ → Nat → Prop)
    (s : IvcHistory φ) : Prop where
  base : IvcInv env.overflowChecks s
  named : Named s
  records : SoundRecords pool (held s.state.frames) s.state.ivc.records
  unique : ∀ z z', (s.state.spaces z).isSome → (s.state.spaces z').isSome →
    ∀ c ∈ s.joined z, ∀ c' ∈ s.joined z', c.ivcId = c'.ivcId → c.peerId = c'.peerId → z = z'
  answers : ∀ z zone, s.state.spaces z = some zone → ∀ va x, zone.gpm.pageTableQuery va = .ok x →
    pool x.1 → FromWindow s.state.ivc.records (s.joined z) x

/-- A record with a new peer. -/
theorem JoinStep.soundRecords {config : HvIvcConfig} {rec : IvcRecord} {s s' : IvcRun φ}
    {zoneId : Nat}
    (h : JoinStep env.overflowChecks env.allocContiguous zoneId config rec s s')
    (hlaw : FrameLaw env pool held) (hpeer : config.peerId < config.maxPeers)
    (hsize : config.windowSize < 2 ^ 32) (hr : SoundRecords pool (held s.frames) s.records) :
    SoundRecords pool (held s'.frames) s'.records := by
  refine ⟨h.ownFrames hlaw hr.own, ?_, ?_⟩
  · intro id r' hr'
    rcases h.get?_cases hr' with ⟨r, hold, hl⟩ | ⟨-, -, hfits, -⟩
    · simp only [IvcRecord.layout, Prod.mk.injEq] at hl
      rw [IvcRecord.totalSize, hl.1, hl.2.1, hl.2.2.1]
      exact hr.size id r hold
    · rw [hfits.totalSize]
      exact hsize
  · intro id r' p hr' hp
    have hinfo : (peerInfo? s'.records id p).isSome := by
      rw [peerInfo?, hr', Option.bind_some]
      exact hp
    rw [h.peerInfo?_records] at hinfo
    by_cases hkey : id = config.ivcId ∧ p = config.peerId
    · obtain ⟨rfl, rfl⟩ := hkey
      rw [h.get?_records, if_pos rfl] at hr'
      obtain rfl := Option.some.inj hr'
      show config.peerId < rec.maxPeers
      rw [h.fits.maxPeers]
      exact hpeer
    · -- the peer was there before
      rw [if_neg hkey] at hinfo
      cases hold : s.records.get? id with
      | none =>
        rw [peerInfo?, hold] at hinfo
        cases hinfo
      | some r =>
        rw [peerInfo?, hold, Option.bind_some] at hinfo
        obtain ⟨r'', hr'', hl⟩ := h.keepLayouts id r hold
        obtain rfl := Option.some.inj (hr'.symm.trans hr'')
        have hmax : r'.maxPeers = r.maxPeers := congrArg (·.1) hl
        rw [hmax]
        exact hr.peerId id r p hold hinfo

/-- What `ivc_init` does to the records. -/
theorem Creation.soundRecords {s : IvcHistory φ} {config : HvZoneConfig}
    {configs : List HvIvcConfig} {done : Bool} {run₀ run : IvcRun φ}
    (h : Creation env s.state config configs done run₀ run) (hlaw : FrameLaw env pool held)
    (hi : IsolationInv env pool held s) (hg : Isolating env pool s config) :
    SoundRecords pool (held run.frames) run.records := by
  have hstart : SoundRecords pool (held run₀.frames) run₀.records := by
    have hbefore := h.before
    simp only [StartState.zoneBefore, Option.bind_eq_bind, Option.bind_eq_some_iff] at hbefore
    obtain ⟨⟨gpm, frames⟩, hgpm, _, -, _, -, _, -, hbefore⟩ := hbefore
    obtain ⟨-, hframes⟩ := Prod.mk.inj (Option.some.inj hbefore)
    rw [h.records]
    refine ⟨hi.records.own.mono fun pa hpa => ?_, hi.records.size, hi.records.peerId⟩
    rw [← hframes]
    exact hlaw.newS2MemorySet _ _ _ hgpm pa hpa
  apply h.rule (P := fun _ run => SoundRecords pool (held run.frames) run.records)
  · exact hstart
  · exact fun acc c rec s₁ s₂ hc hsound hstep =>
      hstep.soundRecords hlaw (hg.peerId c hc) (hg.size c hc) hsound

/-- What the new zone reaches of the pool, when it did not reach it before. -/
theorem Creation.answers {s : IvcHistory φ} {config : HvZoneConfig} {configs : List HvIvcConfig}
    {done : Bool} {run₀ run : IvcRun φ} (h : Creation env s.state config configs done run₀ run)
    (henv : env.Sound) (hi : IvcInv env.overflowChecks s)
    (houtside : ∀ va x, run₀.zone.gpm.pageTableQuery va = .ok x → ¬ pool x.1) :
    ∀ va x, run.zone.gpm.pageTableQuery va = .ok x → pool x.1 →
      FromWindow run.records (s.state.joins env config) x := by
  obtain ⟨hinv, -⟩ := of_zoneBefore henv h.before
  have hrule := h.rule (P := fun acc run =>
    JoinSpec env.overflowChecks s.state.ivc.records run₀.zone acc run ∧
      ∀ va x, run.zone.gpm.pageTableQuery va = .ok x → pool x.1 → FromWindow run.records acc x)
    ?_ ?_
  · exact hrule.2
  · refine ⟨?_, fun va x hq hpool => absurd hpool (houtside va x hq)⟩
    have hvalid := hi.valid
    rw [← h.records] at hvalid ⊢
    exact ⟨.refl _, hvalid, .refl hinv, fun _ hc => absurd hc List.not_mem_nil⟩
  · -- one more configuration
    rintro acc c rec s₁ s₂ hc ⟨hspec, hanswers⟩ hstep
    obtain ⟨hrec, -⟩ := hstep.valid henv.allocContiguous hspec.valid
    refine ⟨hspec.step henv hstep, ?_⟩
    intro va x hq hpool
    rcases hstep.query hspec.grows.inv hrec hq with hold | ⟨o, ho, hpa, hfl⟩
    · exact (hanswers va x hold hpool).mono hstep.keepLayouts fun c' => List.mem_append_left _
    · refine ⟨c, List.mem_append_right _ (List.mem_singleton_self c), _,
        (hstep.get?_records).trans (if_pos rfl), ?_, o, ho, hpa, hfl⟩
      exact hstep.fits.of_layout IvcRecord.layout_insertPeer

section Runs

variable {s s' : IvcHistory φ} {h : List IvcEvent}

theorem isolationInv_of_init (hs : (ivcHistory env).init s) : IsolationInv env pool held s := by
  have hnone : ∀ id, s.state.ivc.records.get? id = none := by
    intro id
    rw [hs.2]
    exact SortedMap.get?_eq_none.mpr fun _ => SortedMap.not_mem_empty
  have hrec : ∀ {id rec} {P : Prop}, s.state.ivc.records.get? id = some rec → P := by
    intro id rec P hrec
    rw [hnone] at hrec
    cases hrec
  refine ⟨ivcInv_of_init hs, named_of_init hs, ⟨⟨?_, ?_⟩, ?_, ?_⟩, ?_, ?_⟩
  · exact fun id rec pa h => hrec h
  · exact fun id id' rec rec' pa h => hrec h
  · exact fun id rec h => hrec h
  · exact fun id rec p h => hrec h
  · intro z z' hz
    rw [hs.1] at hz
    cases hz
  · intro z zone hz
    rw [hs.1] at hz
    cases hz

theorem IsolationInv.elsewhere (hi : IsolationInv env pool held s) (he : Elsewhere s.state s'.state)
    (hj : s'.joined = s.joined) (hg : IsolatingStep env pool held s .other s') :
    IsolationInv env pool held s' := by
  have hsome : ∀ z, (s'.state.spaces z).isSome → (s.state.spaces z).isSome := by
    intro z hz
    obtain ⟨zone', hz⟩ := Option.isSome_iff_exists.mp hz
    obtain ⟨zone, hzone, -⟩ := he.zone z zone' hz
    exact hzone ▸ rfl
  refine ⟨hi.base.elsewhere he hj, hi.named.elsewhere he hj, ?_, ?_, ?_⟩
  · rw [he.ivc]
    exact ⟨hi.records.own.mono hg.1, hi.records.size, hi.records.peerId⟩
  · intro z z' hz hz'
    rw [hj]
    exact hi.unique z z' (hsome z hz) (hsome z' hz')
  · intro z zone' hz va x hq hpool
    obtain ⟨zone, hzone, -⟩ := he.zone z zone' hz
    rw [he.ivc, hj]
    exact hi.answers z zone hzone va x (hg.2 z zone zone' hzone hz va x hq hpool) hpool

theorem IsolationInv.create (hi : IsolationInv env pool held s) (henv : env.Sound)
    (hlaw : FrameLaw env pool held) {config : HvZoneConfig}
    (hg : s.state.machine.findZone config.zoneId = some none → Isolating env pool s config)
    (hs : s.create env config = some s') : IsolationInv env pool held s' := by
  have hbase := hi.base.create henv hs
  have hnamed := hi.named.create (fun hfresh => (hg hfresh).free) hs
  rcases create_cases hs with rfl | ⟨configs, done, run₀, run, hc, hivc, hres⟩
  · exact hi
  have hrecs : s'.state.ivc.records = run.records := congrArg IvcTables.records hivc
  have hg := hg hc.fresh
  have hspec := hc.spec henv hi.base.valid
  have hsound := hc.soundRecords hlaw hi hg
  -- what the zones that are there reach of the pool
  have hold : ∀ z zone, s.state.spaces z = some zone → ∀ va x,
      zone.gpm.pageTableQuery va = .ok x → pool x.1 → FromWindow run.records (s.joined z) x :=
    fun z zone hz va x hq hpool => (hi.answers z zone hz va x hq hpool).mono hspec.keep fun _ => id
  rcases hres with ⟨hspaces, -, ⟨zone, hframes⟩, hj⟩ |
    ⟨zone, hframes, hspaces, hgpm, -, -, -, hj, hcpus⟩
  · refine ⟨hbase, hnamed, ?_, ?_, ?_⟩
    · rw [hframes, hrecs]
      exact ⟨hsound.own.mono fun pa => hlaw.dropZone zone run.frames pa, hsound.size, hsound.peerId⟩
    · rw [hspaces, hj]
      exact hi.unique
    · rw [hspaces, hrecs, hj]
      exact hold
  · refine ⟨hbase, hnamed, ?_, ?_, ?_⟩
    · rw [hframes, hrecs]
      exact hsound
    · -- the entry of another zone would be the one that the new zone takes
      have hfresh : ∀ z, z ≠ s.state.machine.nextZone → (s'.state.spaces z).isSome →
          ∀ c ∈ s'.joined z, ∀ c' ∈ s.state.joins env config, c.ivcId = c'.ivcId →
            c.peerId = c'.peerId → False := by
        intro z hz hsome c hcz c' hc' hid hpeer
        rw [hspaces, Function.update_of_ne hz] at hsome
        rw [hj, Function.update_of_ne hz] at hcz
        obtain ⟨info, hinfo, hzone⟩ := hi.named z hsome c hcz
        rw [hid, hpeer] at hinfo
        exact hg.free c' hc' info hinfo z hsome hzone.symm
      intro z z' hz hz' c hcz c' hcz' hid hpeer
      by_cases hnew : z = s.state.machine.nextZone
      · by_cases hnew' : z' = s.state.machine.nextZone
        · exact hnew.trans hnew'.symm
        · rw [hnew, hj, Function.update_self] at hcz
          exact (hfresh z' hnew' hz' c' hcz' c hcz hid.symm hpeer.symm).elim
      · by_cases hnew' : z' = s.state.machine.nextZone
        · rw [hnew', hj, Function.update_self] at hcz'
          exact (hfresh z hnew hz c hcz c' hcz' hid hpeer).elim
        · rw [hspaces, Function.update_of_ne hnew] at hz
          rw [hspaces, Function.update_of_ne hnew'] at hz'
          rw [hj, Function.update_of_ne hnew] at hcz
          rw [hj, Function.update_of_ne hnew'] at hcz'
          exact hi.unique z z' hz hz' c hcz c' hcz' hid hpeer
    · intro z zone₁ hz
      rw [hspaces, Function.update_apply] at hz
      rw [hrecs, hj, Function.update_apply]
      split at hz
      · next hnew =>
        obtain rfl := Option.some.inj hz
        rw [if_pos hnew, hgpm]
        exact hc.answers henv hi.base (hg.outside hcpus _ _ hc.before)
      · next hnew =>
        rw [if_neg hnew]
        exact hold z zone₁ hz

theorem isolationInv_of_run (henv : env.Sound) (hlaw : FrameLaw env pool held)
    (r : ((ivcHistory env).constrain (IsolatingStep env pool held)).Run h s) :
    IsolationInv env pool held s := by
  have start : ∀ s, ((ivcHistory env).constrain (IsolatingStep env pool held)).init s →
      IsolationInv env pool held s := fun _ hs => isolationInv_of_init hs
  refine r.invariant (I := fun _ s => IsolationInv env pool held s) start ?_
  rintro h s e s' _ hi ⟨hg, hs⟩
  cases e with
  | create config => exact hi.create henv hlaw hg hs
  | other => exact hi.elsewhere hs.1 hs.2 hg

/-! ## Writers -/

/-- A zone that writes an output section has the peer id of the section. -/
theorem IsolationInv.peer_of_writes (hi : IsolationInv env pool held s) {id i pa z : Nat}
    {rec : IvcRecord} {zone : NewZone} (hrec : s.state.ivc.records.get? id = some rec)
    (hlt : i < rec.maxPeers) (hin : rec.InSection i pa) (hz : s.state.spaces z = some zone)
    (hw : zone.Writes pa) : ∃ c ∈ s.joined z, c.ivcId = id ∧ c.peerId = i := by
  obtain ⟨va, fl, ps, hq, hwrite⟩ := hw
  have hframes : ∀ id rec, s.state.ivc.records.get? id = some rec →
      rec.sharedMem.frameCount * pageSize = rec.totalSize ∧
        rec.sharedMem.startPaddr + rec.totalSize ≤ 2 ^ 48 := by
    intro id rec hrec
    have hvalid := hi.base.valid id rec hrec
    have hcount := hvalid.frameCount_mul
    have hbound := hvalid.bound
    rw [Nat.mod_eq_of_lt (hi.records.size id rec hrec)] at hcount
    exact ⟨hcount, hcount ▸ hbound⟩
  -- the section is in the frames of the record
  have hholds : rec.Holds pa := by
    have hle : (i + 1) * rec.outSecSize ≤ rec.maxPeers * rec.outSecSize :=
      Nat.mul_le_mul_right _ hlt
    obtain ⟨hlo, hhi⟩ := hin
    rw [IvcRecord.Holds, (hframes id rec hrec).1, IvcRecord.totalSize]
    omega
  obtain ⟨c, hc, rec', hrec', hfits, o, ho, hpa, hfl⟩ :=
    hi.answers z zone hz va _ hq (hi.records.own.held id rec pa hrec hholds).1
  obtain ⟨hcount, hbound⟩ := hframes _ _ hrec'
  rw [← hfits.totalSize] at ho
  rw [Nat.mod_eq_of_lt (by omega)] at hpa
  change pa = rec'.sharedMem.startPaddr + o at hpa
  -- and in the frames of the window, which are those of one record
  have hholds' : rec'.Holds pa := by
    rw [IvcRecord.Holds, hcount]
    omega
  have hid := hi.records.own.apart _ _ _ _ pa hrec' hrec hholds' hholds
  obtain rfl : rec' = rec := by
    rw [hid, hrec] at hrec'
    exact (Option.some.inj hrec').symm
  refine ⟨c, hc, hid, ?_⟩
  have hsec : c.InSection i o := by
    obtain ⟨hlo, hhi⟩ := hin
    rw [HvIvcConfig.InSection, HvIvcConfig.secOffset, HvIvcConfig.secOffset, ← hfits.rwSecSize,
      ← hfits.outSecSize]
    omega
  change fl = kept (c.flagsAt o) at hfl
  rw [hfl, HvIvcConfig.contains_WRITE_iff hsec] at hwrite
  exact hwrite.symm

/-- **Output sections have one writer**, in every run whose steps meet the condition: the zone that
the record has as the peer of the section. -/
theorem writeIsolated_of_run (henv : env.Sound) (hlaw : FrameLaw env pool held)
    (r : ((ivcHistory env).constrain (IsolatingStep env pool held)).Run h s) : WriteIsolated s := by
  have hi := isolationInv_of_run henv hlaw r
  refine ⟨hi.records.peerId, ?_, ?_⟩
  · intro id rec i pa z zone hrec hlt hin hz hw
    obtain ⟨c, hc, rfl, rfl⟩ := hi.peer_of_writes hrec hlt hin hz hw
    obtain ⟨info, hinfo, hid⟩ := hi.named z (hz ▸ rfl) c hc
    rw [peerInfo?, hrec, Option.bind_some] at hinfo
    exact ⟨info, hinfo, hid⟩
  · intro id rec i pa pa' z z' zone zone' hrec hlt hin hin' hz hz' hw hw'
    obtain ⟨c, hc, hid, hpeer⟩ := hi.peer_of_writes hrec hlt hin hz hw
    obtain ⟨c', hc', hid', hpeer'⟩ := hi.peer_of_writes hrec hlt hin' hz' hw'
    exact hi.unique z z' (hz ▸ rfl) (hz' ▸ rfl) c hc c' hc' (hid.trans hid'.symm)
      (hpeer.trans hpeer'.symm)

end Runs

/-! ## Two zones on the board -/

/-- The board hands out frames in order, and holds those that it has handed out. -/
theorem ivcBoard_frameLaw (overflowChecks : Bool) :
    FrameLaw (ivcBoard overflowChecks) (fun _ => True) fun next pa => pa < next := by
  refine ⟨?_, ?_, fun _ _ _ h => h⟩
  · intro frames count start frames' h
    simp only [ivcBoard, Option.ite_none_right_eq_some, Option.some.injEq, Prod.mk.injEq] at h
    obtain ⟨-, rfl, rfl⟩ := h
    refine ⟨fun pa hlo hhi => ⟨trivial, not_lt.mpr hlo, hhi⟩, fun pa hpa => ?_⟩
    exact Nat.lt_add_right _ hpa
  · intro frames gpm frames' h pa hpa
    obtain ⟨-, rfl⟩ := Prod.mk.inj (Option.some.inj h)
    exact hpa

/-- A zone of the board has no other memory. -/
theorem query_of_zoneBefore_ivcBoard {overflowChecks : Bool} {s : StartState Nat} {id cpu : Nat}
    {c : HvIvcConfig} {more : List HvIvcConfig} {zone : NewZone} {frames : Nat}
    (h : s.zoneBefore (ivcBoard overflowChecks) (ivcZone id cpu c more) = some (zone, frames))
    (va : Nat) (x : Nat × MemFlags × PageSize) : zone.gpm.pageTableQuery va ≠ .ok x := by
  have hzone : zone = ⟨freshSet 0x1000 someFrames.tail, []⟩ :=
    (Prod.mk.inj (Option.some.inj h)).1.symm
  have hnew := new_spec (frameAddr_of_lt (by decide)) (by decide)
    (new_freshSet 0x1000 someFrames.tail)
  have hno : (freshSet 0x1000 someFrames.tail).pageTableQuery va = .error (.err .NotMapped) :=
    query_notMapped hnew.1 fun ps a => hnew.2.2.2 _ a
  rw [hzone]
  intro hq
  cases hno.symm.trans hq

/-- The condition on the configurations of a new zone when no entry is there yet. -/
theorem isolating_of_none {s : IvcHistory Nat} {id cpu : Nat} {c : HvIvcConfig}
    (hjoins : s.state.joins (ivcBoard true) (ivcZone id cpu c []) = [c])
    (hnone : peerInfo? s.state.ivc.records c.ivcId c.peerId = none) (hpeer : c.peerId < c.maxPeers)
    (hsize : c.rwSecSize + c.maxPeers * c.outSecSize < 2 ^ 32) :
    Isolating (ivcBoard true) (fun _ => True) s (ivcZone id cpu c []) := by
  refine ⟨?_, ?_, ?_, fun _ zone frames h va x hq _ => query_of_zoneBefore_ivcBoard h va x hq⟩
  · intro c' hc' info hinfo
    rw [hjoins] at hc'
    obtain rfl := List.mem_singleton.mp hc'
    rw [hnone] at hinfo
    cases hinfo
  · intro c' hc'
    rw [hjoins] at hc'
    obtain rfl := List.mem_singleton.mp hc'
    exact hpeer
  · intro c' hc'
    rw [hjoins] at hc'
    obtain rfl := List.mem_singleton.mp hc'
    exact hsize

/-- Two peers with their own ids write their own sections. -/
theorem writeIsolated_pair : ∃ s : IvcHistory Nat, s.joined 0 = [pairConfig 0] ∧
    s.joined 1 = [pairConfig 1] ∧ WriteIsolated s := by
  obtain ⟨s₁, s, -, -, hs₁, hs, ⟨hjoins₀, hjoins₁, hnone⟩, -, -, hj₁, hj₂⟩ := exists_pair_steps
  have r : ((ivcHistory (ivcBoard true)).constrain
      (IsolatingStep (ivcBoard true) (fun _ => True) fun next pa => pa < next)).Run
      [.create (ivcZone 1 1 (pairConfig 1) []), .create (ivcZone 0 0 (pairConfig 0) [])] s := by
    refine .next (.next (.start ⟨fun _ => rfl, rfl⟩) ⟨?_, hs₁⟩) ⟨?_, hs⟩
    · exact fun _ => isolating_of_none hjoins₀ rfl (by decide) (by decide)
    · exact fun _ => isolating_of_none hjoins₁ hnone (by decide) (by decide)
  exact ⟨s, hj₁, hj₂, writeIsolated_of_run (ivcBoard_sound true) (ivcBoard_frameLaw true) r⟩

/-- **Two writers**: a second zone takes the peer id of the first one, and both write its output
section. -/
theorem two_writers : ¬ ∀ (env : StartEnv Nat) (pool : Nat → Prop) (held : Nat → Nat → Prop)
    (s : IvcHistory Nat) (h : List IvcEvent), env.Sound → FrameLaw env pool held →
    (ivcHistory env).Run h s → WriteIsolated s := by
  intro hall
  have hsome : ((createAll (ivcBoard true) (noZones 0x40000000)
      [ivcZone 0 0 (pairConfig 0) [], ivcZone 1 1 (pairConfig 0) []]).map fun s =>
      ((s.state.spaces 0).isSome, (s.state.spaces 1).isSome, s.joined 0, s.joined 1)) =
        some (true, true, [pairConfig 0], [pairConfig 0]) := by decide +kernel
  obtain ⟨s, hs, hsome⟩ := Option.map_eq_some_iff.mp hsome
  simp only [Prod.mk.injEq, Option.isSome_iff_exists] at hsome
  obtain ⟨⟨zone₁, hz₁⟩, ⟨zone₂, hz₂⟩, hj₁, hj₂⟩ := hsome
  have r := run_of_createAll (run_noZones (ivcBoard true) 0x40000000) hs
  have hmem : pairConfig 0 ∈ [pairConfig 0] := List.mem_singleton_self _
  obtain ⟨rec, hrec, hfits, hvalid, hinv₁, hwin₁⟩ :=
    exists_record_of_joined (ivcBoard_sound true) r hz₁ (hj₁ ▸ hmem)
  obtain ⟨rec₂, hrec₂, -, -, hinv₂, hwin₂⟩ :=
    exists_record_of_joined (ivcBoard_sound true) r hz₂ (hj₂ ▸ hmem)
  obtain rfl : rec = rec₂ := Option.some.inj (hrec.symm.trans hrec₂)
  have hbound := hvalid.bound
  have hframes := hvalid.frameCount_mul
  rw [hfits.totalSize, show (pairConfig 0).windowSize % 2 ^ 32 = 0x3000 by decide] at hframes
  have hpa : (rec.sharedMem.startPaddr + 0x1000) % 2 ^ 48 = rec.sharedMem.startPaddr + 0x1000 :=
    Nat.mod_eq_of_lt (by omega)
  have ho : 0x1000 < (pairConfig 0).windowSize := by decide
  have hwrites : ∀ zone : NewZone, zone.gpm.st.Inv →
      Windows true zone.gpm (pairConfig 0) rec.sharedMem.startPaddr →
      zone.Writes (rec.sharedMem.startPaddr + 0x1000) := by
    intro zone hinv hwin
    obtain ⟨ps, hq⟩ := hwin.query hinv (by omega) hvalid.start_aligned (by decide) ho
    rw [hpa] at hq
    exact ⟨_, _, ps, hq, by decide⟩
  have hin : rec.InSection 0 (rec.sharedMem.startPaddr + 0x1000) := by
    rw [IvcRecord.InSection, hfits.rwSecSize, hfits.outSecSize]
    constructor
    · show _ + 0x1000 + 0 * 0x1000 ≤ _
      omega
    · show _ < _ + 0x1000 + (0 + 1) * 0x1000
      omega
  have hmax : 0 < rec.maxPeers := by
    rw [hfits.maxPeers]
    decide
  have hsame :=
    (hall _ _ _ s _ (ivcBoard_sound true) (ivcBoard_frameLaw true) r).unique _ rec 0 _ _ 0 1
    zone₁ zone₂ hrec hmax hin hin hz₁ hz₂ (hwrites zone₁ hinv₁ hwin₁) (hwrites zone₂ hinv₂ hwin₂)
  exact absurd hsame (by decide)

end Hvisor
