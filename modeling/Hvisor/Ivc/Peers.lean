import Hvisor.Ivc.Runs

/-!
# Peers see the same memory

Two zones that are peers of one shared memory find the same physical address at the same offset of
their windows, each writes its own output section and reads the others. The windows lie in the
frames of the shared memory as long as the size of all sections fits into the 32 bits in which
`ivc.rs` computes how many frames to allocate.

## Main definitions

* `WindowsInside`: the windows lie in the frames

## Main results

* `ivc_peers_agree`: what two peers find at an offset of their windows
* `ivc_windows_inside_iff`: when the windows lie in the frames
* `windows_outside`: sizes for which they do not
-/

namespace Hvisor

open MemorySet TransitionSystem

/-! ## Flags -/

namespace HvIvcConfig

variable {config : HvIvcConfig} {i o : Nat}

theorem contains_READ_flagsAt : (kept (config.flagsAt o)).contains MemFlags.READ = true := by
  rw [flagsAt, secFlags]
  split
  · decide
  · split <;> decide

theorem contains_WRITE_of_lt (ho : o < config.rwSecSize) :
    (kept (config.flagsAt o)).contains MemFlags.WRITE = true := by
  rw [flagsAt, if_pos ho]
  decide

/-- The zone writes its own output section only. -/
theorem contains_WRITE_iff (h : config.InSection i o) :
    (kept (config.flagsAt o)).contains MemFlags.WRITE = true ↔ i = config.peerId := by
  rw [flagsAt_of_inSection h, secFlags]
  split
  · next hi => exact iff_of_true (by decide) hi
  · next hi => exact iff_of_false (by decide) hi

end HvIvcConfig

section Peers

variable {φ : Type} {env : StartEnv φ} {s : IvcHistory φ} {h : List IvcEvent}

/-- The record of a configuration by which a zone became a peer, with the windows of the zone. -/
theorem exists_record_of_joined (henv : env.Sound) (r : (ivcHistory env).Run h s) {z : Nat}
    {zone : NewZone} (hz : s.state.spaces z = some zone) {c : HvIvcConfig} (hc : c ∈ s.joined z) :
    ∃ rec, s.state.ivc.records.get? c.ivcId = some rec ∧ rec.Fits c ∧
      rec.Valid env.overflowChecks ∧ zone.gpm.st.Inv ∧
      Windows env.overflowChecks zone.gpm c rec.sharedMem.startPaddr := by
  have hi := ivcInv_of_run henv r
  obtain ⟨rec, hrec, hfits, hwin⟩ := hi.windows z zone hz c hc
  exact ⟨rec, hrec, hfits, hi.valid _ _ hrec, hi.inv z zone hz, hwin⟩

/-- **Peers see the same memory.** In every history, two zones that became peers of one shared
memory find the same physical address at each offset of their windows. Both read all of it and write
the first section, and each writes the output section of its own peer id only. -/
theorem ivc_peers_agree (henv : env.Sound) (r : (ivcHistory env).Run h s) {z₁ z₂ : Nat}
    {zone₁ zone₂ : NewZone} (hz₁ : s.state.spaces z₁ = some zone₁)
    (hz₂ : s.state.spaces z₂ = some zone₂) {c₁ c₂ : HvIvcConfig} (hc₁ : c₁ ∈ s.joined z₁)
    (hc₂ : c₂ ∈ s.joined z₂) (hid : c₁.ivcId = c₂.ivcId)
    (hipa₁ : c₁.sharedMemIpa + c₁.windowSize ≤ 2 ^ 64)
    (hipa₂ : c₂.sharedMemIpa + c₂.windowSize ≤ 2 ^ 64) {o : Nat} (ho : o < c₁.windowSize) :
    ∃ pa fl₁ ps₁ fl₂ ps₂,
      zone₁.gpm.pageTableQuery (c₁.sharedMemIpa + o) = .ok (pa, fl₁, ps₁) ∧
      zone₂.gpm.pageTableQuery (c₂.sharedMemIpa + o) = .ok (pa, fl₂, ps₂) ∧
      (fl₁.contains MemFlags.READ = true ∧ fl₂.contains MemFlags.READ = true) ∧
      (o < c₁.rwSecSize → fl₁.contains MemFlags.WRITE = true ∧ fl₂.contains MemFlags.WRITE = true) ∧
      ∀ i, c₁.InSection i o → (fl₁.contains MemFlags.WRITE = true ↔ i = c₁.peerId) ∧
        (fl₂.contains MemFlags.WRITE = true ↔ i = c₂.peerId) := by
  obtain ⟨rec, hrec, hfits₁, hvalid, hinv₁, hwin₁⟩ := exists_record_of_joined henv r hz₁ hc₁
  obtain ⟨rec₂, hrec₂, hfits₂, -, hinv₂, hwin₂⟩ := exists_record_of_joined henv r hz₂ hc₂
  obtain rfl : rec = rec₂ := Option.some.inj (hrec.symm.trans (hid ▸ hrec₂))
  -- the record has the sizes of both configurations
  have hrw : c₂.rwSecSize = c₁.rwSecSize := hfits₂.rwSecSize.symm.trans hfits₁.rwSecSize
  have hout : c₂.outSecSize = c₁.outSecSize := hfits₂.outSecSize.symm.trans hfits₁.outSecSize
  have hsize : c₂.windowSize = c₁.windowSize := hfits₂.totalSize.symm.trans hfits₁.totalSize
  have hstart : rec.sharedMem.startPaddr < 2 ^ 64 := by
    have hbound := hvalid.bound
    omega
  obtain ⟨ps₁, hq₁⟩ := hwin₁.query hinv₁ hstart hvalid.start_aligned hipa₁ ho
  obtain ⟨ps₂, hq₂⟩ := hwin₂.query hinv₂ hstart hvalid.start_aligned hipa₂ (hsize ▸ ho)
  refine ⟨_, _, ps₁, _, ps₂, hq₁, hq₂, ?_, ?_, ?_⟩
  · exact ⟨HvIvcConfig.contains_READ_flagsAt, HvIvcConfig.contains_READ_flagsAt⟩
  · intro hlt
    exact ⟨HvIvcConfig.contains_WRITE_of_lt hlt, HvIvcConfig.contains_WRITE_of_lt (hrw ▸ hlt)⟩
  · intro i hin
    have hin₂ : c₂.InSection i o := by
      rw [HvIvcConfig.InSection, HvIvcConfig.secOffset, HvIvcConfig.secOffset, hrw, hout]
      exact hin
    exact ⟨HvIvcConfig.contains_WRITE_iff hin, HvIvcConfig.contains_WRITE_iff hin₂⟩

end Peers

/-- A shared memory with a page for each section and two peers. -/
def pairConfig (peerId : Nat) : HvIvcConfig where
  ivcId := 7
  peerId := peerId
  controlTableIpa := 0x70000000
  sharedMemIpa := 0x50000000 + peerId * 0x10000000
  rwSecSize := 0x1000
  outSecSize := 0x1000
  interruptNum := 64
  maxPeers := 2

/-- Two zones that are its peers. -/
def pairZones : List HvZoneConfig := [ivcZone 0 0 (pairConfig 0) [], ivcZone 1 1 (pairConfig 1) []]

theorem exists_pair : ∃ s zone₁ zone₂,
    createAll (ivcBoard true) (noZones 0x40000000) pairZones = some s ∧
      s.state.spaces 0 = some zone₁ ∧ s.state.spaces 1 = some zone₂ ∧
      s.joined 0 = [pairConfig 0] ∧ s.joined 1 = [pairConfig 1] := by
  have hall : ((createAll (ivcBoard true) (noZones 0x40000000) pairZones).map fun s =>
      ((s.state.spaces 0).isSome, (s.state.spaces 1).isSome, s.joined 0, s.joined 1)) =
        some (true, true, [pairConfig 0], [pairConfig 1]) := by decide +kernel
  obtain ⟨s, hs, hall⟩ := Option.map_eq_some_iff.mp hall
  simp only [Prod.mk.injEq, Option.isSome_iff_exists] at hall
  obtain ⟨⟨zone₁, hz₁⟩, ⟨zone₂, hz₂⟩, hj₁, hj₂⟩ := hall
  exact ⟨s, zone₁, zone₂, hs, hz₁, hz₂, hj₁, hj₂⟩

/-- The first byte of the output section of peer 0 has the same physical address for both zones. -/
theorem ivc_peers_agree_pair : ∃ (zone₁ zone₂ : NewZone) (pa : Nat) (fl₁ fl₂ : MemFlags)
    (ps₁ ps₂ : PageSize), zone₁.gpm.pageTableQuery 0x50001000 = .ok (pa, fl₁, ps₁) ∧
      zone₂.gpm.pageTableQuery 0x60001000 = .ok (pa, fl₂, ps₂) ∧
      fl₁.contains MemFlags.WRITE = true ∧ fl₂.contains MemFlags.WRITE = false := by
  obtain ⟨s, zone₁, zone₂, hs, hz₁, hz₂, hj₁, hj₂⟩ := exists_pair
  have hc₁ : pairConfig 0 ∈ s.joined 0 := by
    rw [hj₁]
    exact List.mem_singleton_self _
  have hc₂ : pairConfig 1 ∈ s.joined 1 := by
    rw [hj₂]
    exact List.mem_singleton_self _
  obtain ⟨pa, fl₁, ps₁, fl₂, ps₂, hq₁, hq₂, -, -, hwrite⟩ :=
    ivc_peers_agree (ivcBoard_sound true)
      (run_of_createAll (run_noZones _ _) hs) hz₁ hz₂ hc₁ hc₂ rfl
      (by decide) (by decide) (show 0x1000 < (pairConfig 0).windowSize by decide)
  obtain ⟨hw₁, hw₂⟩ := hwrite 0 ⟨by decide, by decide⟩
  refine ⟨zone₁, zone₂, pa, fl₁, fl₂, ps₁, ps₂, hq₁, hq₂, hw₁.mpr rfl, ?_⟩
  rw [← Bool.not_eq_true, hw₂]
  decide

/-! ## Frames -/

section Frames

variable {φ : Type} {env : StartEnv φ} {s : IvcHistory φ} {h : List IvcEvent}

/-- **The windows lie in the frames** of the shared memory: each address of their regions is
answered with one in the frames. -/
def WindowsInside (overflowChecks : Bool) (gpm : MemorySet PageTableEntry) (config : HvIvcConfig)
    (rec : IvcRecord) : Prop :=
  ∀ regions, ivcRegions overflowChecks config rec.sharedMem.startPaddr = some regions →
    ∀ r ∈ regions, ∀ va, r.Mem va → ∃ pa fl ps, gpm.pageTableQuery va = .ok (pa, fl, ps) ∧
      rec.Holds pa

/-- An offset of the windows is in the frames when it is less than the size that was allocated. -/
theorem IvcRecord.Valid.holds_iff {rec : IvcRecord} {overflowChecks : Bool}
    (h : rec.Valid overflowChecks) {o : Nat} (ho : o ≤ rec.totalSize % 2 ^ 32) :
    rec.Holds ((rec.sharedMem.startPaddr + o) % 2 ^ 48) ↔ o < rec.totalSize % 2 ^ 32 := by
  have hbound := h.bound
  have hlt : rec.totalSize % 2 ^ 32 < 2 ^ 32 := Nat.mod_lt _ (by decide)
  rw [IvcRecord.Holds]
  rw [h.frameCount_mul] at hbound ⊢
  -- the address behind the last frame may be the first one that does not exist
  by_cases hlast : rec.sharedMem.startPaddr + o < 2 ^ 48
  · rw [Nat.mod_eq_of_lt hlast]
    omega
  · have hzero : (rec.sharedMem.startPaddr + o) % 2 ^ 48 = 0 := by
      obtain heq : rec.sharedMem.startPaddr + o = 2 ^ 48 := by omega
      rw [heq, Nat.mod_self]
    rw [hzero]
    omega

theorem Windows.inside_iff {overflowChecks : Bool} {gpm : MemorySet PageTableEntry}
    {config : HvIvcConfig} {rec : IvcRecord}
    (h : Windows overflowChecks gpm config rec.sharedMem.startPaddr) (hinv : gpm.st.Inv)
    (hvalid : rec.Valid overflowChecks) (hfits : rec.Fits config) :
    WindowsInside overflowChecks gpm config rec ↔ config.windowSize < 2 ^ 32 := by
  obtain ⟨regions, hregions, hmaps⟩ := h
  have hstart : rec.sharedMem.startPaddr < 2 ^ 64 := by
    have hbound := hvalid.bound
    omega
  have htotal := hfits.totalSize
  constructor
  · -- the offset behind the frames that were allocated is in the windows
    intro hinside
    by_contra hge
    have hlt : rec.totalSize % 2 ^ 32 < config.windowSize := by
      have hmod : rec.totalSize % 2 ^ 32 < 2 ^ 32 := Nat.mod_lt _ (by decide)
      omega
    obtain ⟨r, hr, va, hva, htarget, -⟩ := exists_mem_of_lt hregions hmaps hstart hlt
    obtain ⟨ps, hq⟩ := query_of_mem_regions hregions hmaps hinv hstart hvalid.start_aligned hr hva
    obtain ⟨pa, fl, ps', hq', hholds⟩ := hinside regions hregions r hr va hva
    rw [hq, htarget] at hq'
    obtain rfl := (Prod.mk.inj (Except.ok.inj hq')).1
    exact absurd ((hvalid.holds_iff le_rfl).mp hholds) (lt_irrefl _)
  · intro hlt regions' hregions' r hr va hva
    obtain rfl := Option.some.inj (hregions.symm.trans hregions')
    obtain ⟨o, ho, htarget⟩ := target_of_mem hregions hstart (hmaps r hr).bound hr hva
    obtain ⟨ps, hq⟩ := query_of_mem_regions hregions hmaps hinv hstart hvalid.start_aligned hr hva
    rw [htarget] at hq
    have ho' : o < rec.totalSize % 2 ^ 32 := by
      rw [htotal, Nat.mod_eq_of_lt hlt]
      exact ho
    exact ⟨_, _, ps, hq, (hvalid.holds_iff ho'.le).mpr ho'⟩

/-- **The windows of a peer lie in the frames** of the shared memory exactly when the size of all
sections fits into 32 bits. -/
theorem ivc_windows_inside_iff (henv : env.Sound) (r : (ivcHistory env).Run h s) {z : Nat}
    {zone : NewZone} (hz : s.state.spaces z = some zone) {c : HvIvcConfig} (hc : c ∈ s.joined z) :
    ∃ rec, s.state.ivc.records.get? c.ivcId = some rec ∧
      (WindowsInside env.overflowChecks zone.gpm c rec ↔
        c.rwSecSize + c.maxPeers * c.outSecSize < 2 ^ 32) := by
  obtain ⟨rec, hrec, hfits, hvalid, hinv, hwin⟩ := exists_record_of_joined henv r hz hc
  exact ⟨rec, hrec, hwin.inside_iff hinv hvalid hfits⟩

end Frames

/-- The windows of a zone with three pages lie in the frames. -/
theorem ivc_windows_inside_pair : ∃ (zone : NewZone) (rec : IvcRecord),
    WindowsInside true zone.gpm (pairConfig 0) rec := by
  obtain ⟨s, zone, -, hs, hz, -, hj, -⟩ := exists_pair
  have hc : pairConfig 0 ∈ s.joined 0 := by
    rw [hj]
    exact List.mem_singleton_self _
  obtain ⟨rec, -, hinside⟩ := ivc_windows_inside_iff (ivcBoard_sound true)
    (run_of_createAll (run_noZones _ _) hs) hz hc
  exact ⟨zone, rec, hinside.mpr (by decide)⟩

/-- Sections of five gigabytes. -/
def hugeConfig : HvIvcConfig where
  ivcId := 7
  peerId := 0
  controlTableIpa := 0x70000000
  sharedMemIpa := 0x400000000
  rwSecSize := 0x40000000
  outSecSize := 0x80000000
  interruptNum := 64
  maxPeers := 2

/-- **Windows outside of the frames**: for sections of five gigabytes one gigabyte is allocated, and
the zone reads and writes the four gigabytes behind it. -/
theorem windows_outside : ¬ ∀ (env : StartEnv Nat) (s : IvcHistory Nat)
    (h : List IvcEvent), env.Sound →
    (ivcHistory env).Run h s → ∀ z zone c rec, s.state.spaces z = some zone → c ∈ s.joined z →
      s.state.ivc.records.get? c.ivcId = some rec →
        WindowsInside env.overflowChecks zone.gpm c rec := by
  intro hall
  have hsome : ((createAll (ivcBoard false) (noZones 0x40000000) [ivcZone 0 0 hugeConfig []]).map
      fun s => ((s.state.spaces 0).isSome, s.joined 0)) = some (true, [hugeConfig]) := by
    decide +kernel
  obtain ⟨s, hs, hsome⟩ := Option.map_eq_some_iff.mp hsome
  simp only [Prod.mk.injEq, Option.isSome_iff_exists] at hsome
  obtain ⟨⟨zone, hz⟩, hj⟩ := hsome
  have hc : hugeConfig ∈ s.joined 0 := by
    rw [hj]
    exact List.mem_singleton_self _
  have r := run_of_createAll (run_noZones (ivcBoard false) 0x40000000) hs
  obtain ⟨rec, hrec, hfits, hvalid, hinv, hwin⟩ :=
    exists_record_of_joined (ivcBoard_sound false) r hz hc
  have hlt := (hwin.inside_iff hinv hvalid hfits).mp
    (hall _ s _ (ivcBoard_sound false) r 0 zone hugeConfig rec hz hc hrec)
  exact absurd hlt (by decide)

end Hvisor
