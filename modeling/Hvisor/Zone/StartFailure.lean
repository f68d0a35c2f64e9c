import Hvisor.Zone.Create

/-!
# Zones that fail to start

A start of a zone that returns an error should leave everything as it was. The checks of
`zone_create` stand between its effects, and `hv_zone_start` checks the boot CPU after all of them:
a start that fails at a CPU has changed the tables of the shared memories and the assignments of
devices, and one that fails at the boot CPU has given the CPUs to a zone that nobody can find.

## Main definitions

* `Unchanged`: what a failed start should leave as it was
* `LeavesNoTrace`: the condition
* `StartState.Booted`: a state after boot

## Main results

* `zoneCreate_cases`: what a creation has changed when it returns
* `zoneStart_atomic_iff`: the failed starts that change nothing
* `zoneStart_not_atomic`: a failed start of a zone leaves the zone in a table
-/

namespace Hvisor

variable {φ : Type} {env : StartEnv φ} {s s' : StartState φ} {p : Nat} {config : HvZoneConfig}
  {sizeOk : Bool}

/-! ## Creation -/

/-- What the creation of a zone has done to the tables when it comes to the CPUs. -/
structure Registered (env : StartEnv φ) (s : StartState φ) (config : HvZoneConfig)
    (s' : StartState φ) : Prop where
  ivc : ∃ configs frames zone r, config.ivcConfig = some configs ∧
    ivcInit env.overflowChecks env.allocContiguous config.zoneId s.ivc frames zone configs =
      some (s'.ivc, r)
  smmu : env.assignDevices config s.smmu = some s'.smmu

/-- **When a creation returns**, the id of the zone is in use, or a CPU is, or the zone is there. -/
theorem zoneCreate_cases {res : Except HvErrorNum Nat}
    (h : s.zoneCreate env config = some (res, s')) :
    (res = .error .EINVAL ∧ s' = s ∧ ∃ z, s.machine.findZone config.zoneId = some (some z)) ∨
      s.machine.findZone config.zoneId = some none ∧ Registered env s config s' ∧
        ((res = .error .EBUSY ∧ (∃ c ∈ config.cpuList, s.machine.zone c ≠ none) ∧
            s'.machine = s.machine ∧ s'.spaces = s.spaces) ∨
          ∃ cpuSet, res = .ok s.machine.nextZone ∧ (∀ c ∈ config.cpuList, s.machine.zone c = none) ∧
            (∀ c, cpuSet.containsCpu c = true → c ∈ config.cpuList) ∧
            s'.machine = s.machine.withZone config cpuSet) := by
  simp only [StartState.zoneCreate, Option.bind_eq_bind] at h
  obtain ⟨found, hfind, h⟩ := Option.bind_eq_some_iff.mp h
  cases found with
  | some z =>
    cases h
    exact .inl ⟨rfl, rfl, z, hfind⟩
  | none =>
    simp only [Option.bind_eq_some_iff] at h
    obtain ⟨⟨gpm, frames⟩, -, regions, -, zone, -, zone₁, -, configs, hconfigs,
      ⟨ivc, frames₁, zone₂⟩,
      hivc, smmu, hsmmu, res', hcheck, h⟩ := h
    refine .inr ⟨hfind, ?_⟩
    cases res' with
    | error u =>
      cases h
      exact ⟨⟨⟨configs, _, _, _, hconfigs, hivc⟩, hsmmu⟩,
        .inl ⟨rfl, Machine.checkCpus_error hcheck, rfl, rfl⟩⟩
    | ok cpuSet =>
      cases h
      obtain ⟨hfree, hset⟩ := Machine.checkCpus_ok hcheck
      refine ⟨⟨⟨configs, _, _, _, hconfigs, hivc⟩, hsmmu⟩, .inr ⟨cpuSet, rfl, hfree, ?_, rfl⟩⟩
      exact fun c hc => (hset c hc).resolve_left (by simp)

/-! ## Failure -/

/-- What a failed start should leave as it was: the list of zones, the zones and the entries of the
CPUs, the tables of the shared memories, the events, and the assignments of devices. -/
structure Unchanged (s s' : StartState φ) : Prop where
  zoneList : s'.machine.zoneList = s.machine.zoneList
  zone : s'.machine.zone = s.machine.zone
  bootCpu : s'.machine.bootCpu = s.machine.bootCpu
  cpuOnEntry : s'.machine.cpuOnEntry = s.machine.cpuOnEntry
  events : s'.machine.events = s.machine.events
  records : s'.ivc.records = s.ivc.records
  infos : s'.ivc.infos = s.ivc.infos
  ste : s'.smmu.ste = s.smmu.ste

/-- The tables say already what the creation of the zone would put there. -/
structure Redundant (env : StartEnv φ) (s : StartState φ) (config : HvZoneConfig) : Prop where
  ivc : ∀ configs, config.ivcConfig = some configs → s.ivc.Silent config.zoneId configs
  devices : env.pci = true → ∀ idx < config.numPciDevs,
    DeviceAssigned env.overflowChecks env.iommu config s.smmu idx

/-- A start fails before it creates the zone, or at a CPU that has a zone, when the tables say
already what the start put there. -/
def LeavesNoTrace (env : StartEnv φ) (s : StartState φ) (p : Nat) (config : HvZoneConfig)
    (sizeOk : Bool) : Prop :=
  s.machine.isThisRootZone p = some false ∨ sizeOk = false ∨
    (∃ z, s.machine.findZone config.zoneId = some (some z)) ∨
      (∃ c ∈ config.cpuList, s.machine.zone c ≠ none) ∧ Redundant env s config

theorem Registered.tables_eq_iff (h : Registered env s config s') :
    s'.ivc = s.ivc ∧ s'.smmu.ste = s.smmu.ste ↔ Redundant env s config := by
  obtain ⟨configs, frames, zone, r, hconfigs, hivc⟩ := h.ivc
  have hsilent : s'.ivc = s.ivc ↔ s.ivc.Silent config.zoneId configs := ivcInit_unchanged_iff hivc
  have hste : s'.smmu.ste = s.smmu.ste ↔ (env.pci = true → ∀ idx < config.numPciDevs,
      DeviceAssigned env.overflowChecks env.iommu config s.smmu idx) := by
    have hsmmu := h.smmu
    rw [StartEnv.assignDevices] at hsmmu
    split at hsmmu
    · next hpci => rw [ste_eq_iff_of_pciInit hsmmu, forall_prop_of_true hpci]
    · next hpci =>
      rw [Option.some.inj hsmmu]
      exact ⟨fun _ hp => absurd hp hpci, fun _ => rfl⟩
  constructor
  · rintro ⟨hi, hs⟩
    refine ⟨fun configs' hc => ?_, hste.mp hs⟩
    obtain rfl := Option.some.inj (hconfigs.symm.trans hc)
    exact hsilent.mp hi
  · rintro ⟨hi, hd⟩
    exact ⟨hsilent.mpr (hi configs hconfigs), hste.mpr hd⟩

/-- Nothing of the table's owner changes but the table. -/
theorem Registered.smmu_eq (h : Registered env s config s') (hs : s'.smmu.ste = s.smmu.ste) :
    s'.smmu = s.smmu := by
  have hsmmu := h.smmu
  rw [StartEnv.assignDevices] at hsmmu
  split at hsmmu
  · obtain ⟨hb, hr, -⟩ := ste_le_of_foldlM hsmmu
    cases hold : s.smmu
    cases hnew : s'.smmu
    simp only [hold, hnew] at hb hr hs
    rw [hb, hr, hs]
  · exact (Option.some.inj hsmmu).symm

/-- When a start fails: before it creates the zone, at a CPU that has a zone, or at the boot CPU. -/
theorem hvZoneStart_error_cases {e : HvErrorNum}
    (h : s.hvZoneStart env p config sizeOk = some (.error e, s')) :
    (s' = s ∧ (s.machine.isThisRootZone p = some false ∨ sizeOk = false ∨
        ∃ z, s.machine.findZone config.zoneId = some (some z))) ∨
      s.machine.isThisRootZone p = some true ∧ sizeOk = true ∧
        s.machine.findZone config.zoneId = some none ∧ Registered env s config s' ∧
        (((∃ c ∈ config.cpuList, s.machine.zone c ≠ none) ∧ s'.machine = s.machine ∧
            s'.spaces = s.spaces) ∨
          (∀ c ∈ config.cpuList, s.machine.zone c = none) ∧
            ∃ c ∈ config.cpuList, s'.machine.zone c ≠ none) := by
  simp only [StartState.hvZoneStart, Option.bind_eq_bind] at h
  obtain ⟨isRoot, hroot, h⟩ := Option.bind_eq_some_iff.mp h
  cases isRoot with
  | false =>
    cases h
    exact .inl ⟨rfl, .inl hroot⟩
  | true =>
    cases sizeOk with
    | false =>
      cases h
      exact .inl ⟨rfl, .inr (.inl rfl)⟩
    | true =>
      simp only [Bool.not_true, Bool.false_eq_true, if_false, Option.bind_eq_some_iff] at h
      obtain ⟨⟨res, s₁⟩, hcreate, h⟩ := h
      rcases zoneCreate_cases hcreate with ⟨rfl, hs, hfound⟩ | ⟨hnone, hreg, hcase⟩
      · cases h
        subst hs
        exact .inl ⟨rfl, .inr (.inr hfound)⟩
      · refine .inr ⟨hroot, rfl, hnone, ?_⟩
        rcases hcase with ⟨rfl, hbusy⟩ | ⟨cpuSet, rfl, hfree, hset, hmachine⟩
        · cases h
          exact ⟨hreg, .inl hbusy⟩
        · obtain ⟨bootCpu, hboot, h⟩ := Option.bind_eq_some_iff.mp h
          split at h
          · split at h
            · split at h <;> cases h
            · cases h
              -- the boot CPU has got the new zone
              obtain ⟨hzones, hzone⟩ := Machine.zone_withZone s.machine config cpuSet
              rw [hmachine, hzones, Function.update_self] at hboot
              have hhas := CpuSet.containsCpu_of_firstCpu hboot
              refine ⟨hreg, .inr ⟨hfree, bootCpu, hset _ hhas, ?_⟩⟩
              rw [hmachine, hzone _ hhas]
              nofun
          · cases h

/-- **The failed starts that change nothing**: those that fail before the zone is created, and those
that fail at a CPU when the tables say already what they put there. The whole state is then as it
was, but for the frames: what follows runs as if there had been no start. -/
theorem zoneStart_atomic_iff {e : HvErrorNum}
    (h : s.hvZoneStart env p config sizeOk = some (.error e, s')) :
    (Unchanged s s' ↔ LeavesNoTrace env s p config sizeOk) ∧
      (LeavesNoTrace env s p config sizeOk → { s' with frames := s.frames } = s) := by
  rcases hvZoneStart_error_cases h with ⟨rfl, hearly⟩ | ⟨hroot, hsize, hnone, hreg, hcase⟩
  · have hno : LeavesNoTrace env s' p config sizeOk := by
      rcases hearly with hr | hs | hf
      · exact .inl hr
      · exact .inr (.inl hs)
      · exact .inr (.inr (.inl hf))
    exact ⟨iff_of_true ⟨rfl, rfl, rfl, rfl, rfl, rfl, rfl, rfl⟩ hno, fun _ => rfl⟩
  · -- the start has come to the CPUs
    have hlate : LeavesNoTrace env s p config sizeOk ↔
        (∃ c ∈ config.cpuList, s.machine.zone c ≠ none) ∧ Redundant env s config := by
      rw [LeavesNoTrace, hroot, hsize, hnone]
      simp
    rw [hlate]
    rcases hcase with ⟨hbusy, hmachine, hspaces⟩ | ⟨hfree, c, hc, hzone⟩
    · rw [and_iff_right hbusy, ← hreg.tables_eq_iff]
      constructor
      · constructor
        · intro hu
          have hivc : s'.ivc = s.ivc := by
            cases hold : s.ivc
            cases hnew : s'.ivc
            have hr := hu.records
            have hi := hu.infos
            simp only [hold, hnew] at hr hi
            rw [hr, hi]
          exact ⟨hivc, hu.ste⟩
        · rintro ⟨hivc, hste⟩
          refine ⟨?_, ?_, ?_, ?_, ?_, ?_, ?_, hste⟩
          all_goals first | rw [hmachine] | rw [hivc]
      · rintro ⟨hivc, hste⟩
        have hsmmu := hreg.smmu_eq hste
        cases s
        cases s'
        simp only at hmachine hspaces hivc hsmmu
        rw [hmachine, hspaces, hivc, hsmmu]
    · have hnot : ¬ ∃ c ∈ config.cpuList, s.machine.zone c ≠ none := fun ⟨c, hc, hz⟩ =>
        hz (hfree c hc)
      constructor
      · refine iff_of_false (fun hu => hzone ?_) fun hn => hnot hn.1
        rw [hu.zone, hfree c hc]
      · exact fun hn => absurd hn.1 hnot

/-! ## A board -/

/-- A board without PCI; frames are handed out one after the other. -/
def boardEnv : StartEnv Nat where
  overflowChecks := true
  pci := false
  iommu := false
  allocContiguous next count := some (next, next + count * pageSize)
  newS2MemorySet next := some (freshSet next [], next + pageSize)
  mmioInit zone _ := some ((List.range 4).foldl
    (fun zone cpu =>
      zone.mmioRegionRegister (0x80a0000 + cpu * 0x20000) 0x20000 .vgicv3_redist_handler cpu)
    ((zone.mmioRegionRegister 0x8000000 0x10000 .vgicv3_dist_handler 0).mmioRegionRegister
      0x8080000 0x20000 .vgicv3_its_handler 0))
  dropZone _ next := next - pageSize

/-- The state after boot, when the root zone takes part in no shared memory. -/
structure StartState.Booted (s : StartState φ) : Prop where
  machine : s.machine.Initial
  records : s.ivc.records = .empty
  infos : s.ivc.infos = SortedMap.empty.insert 0 (.fromConfigs [])

/-- The board with entries of the table that bypass the translation, and what the zones have been
told of shared memories. -/
def board (infos : SortedMap Nat IvcInfo) : StartState Nat where
  machine := bootMachine
  spaces z := if z = 0 then some ⟨freshSet 0x50000000 [], []⟩ else none
  ivc := ⟨.empty, infos⟩
  smmu := ⟨0x50100000, fun _ word => [9, 1 <<< 44].getD word.val 0, fun _ => 0x50002000⟩
  frames := 0x50200000

/-- The start of a zone on a CPU of the root zone. -/
theorem hvZoneStart_board (infos : SortedMap Nat IvcInfo) :
    (board infos).hvZoneStart boardEnv 0 (bareConfig 1 [0]) true =
      some (.error .EBUSY, board (infos.insert 1 (.fromConfigs []))) := by
  have hcpus : (bareConfig 1 [0]).cpuList = [0] := by decide
  have hivc : (bareConfig 1 [0]).ivcConfig = some [] := by decide
  have hregions : (bareConfig 1 [0]).memoryRegionsUsed = some [] := by decide
  have hroot : (board infos).machine.isThisRootZone 0 = some true := by rfl
  have hfind : (board infos).machine.findZone (bareConfig 1 [0]).zoneId = some none := by rfl
  have hcheck : (board infos).machine.checkCpus [0] ⟨(board infos).machine.ncpu, 0⟩ =
      some (.error ()) := by rfl
  simp only [StartState.hvZoneStart, StartState.zoneCreate, hroot, hfind, hcpus, hivc, hregions,
    hcheck, boardEnv, ptInit, ivcInit, ivcJoin, StartEnv.assignDevices, Option.bind_eq_bind,
    Option.bind_some, Option.map_some, List.foldlM_nil, Option.pure_def, Bool.not_true,
    Bool.false_eq_true, if_false, if_true, Nat.add_sub_cancel]
  rfl

/-- **A failed start leaves the zone in a table**: a CPU has a zone, and the table of what the zones
are told of shared memories has got an entry for the zone that was not started. -/
theorem zoneStart_not_atomic : ¬ ∀ (s : StartState Nat) p config sizeOk e s', s.Booted →
    s.hvZoneStart boardEnv p config sizeOk = some (.error e, s') → Unchanged s s' := by
  intro hall
  have hu := hall (board (SortedMap.empty.insert 0 (.fromConfigs []))) 0 (bareConfig 1 [0]) true _ _
    ⟨bootMachine_initial, rfl, rfl⟩ (hvZoneStart_board _)
  have hinfos := congrArg (·.get? 1) hu.infos
  simp only [board, SortedMap.get?_insert, if_true] at hinfos
  cases hinfos

/-- The start fails once more, and changes nothing. -/
theorem zoneStart_atomic_iff_again : ∃ (s s' : StartState Nat),
    s.hvZoneStart boardEnv 0 (bareConfig 1 [0]) true = some (.error .EBUSY, s') ∧ Unchanged s s' ∧
      { s' with frames := s.frames } = s := by
  refine ⟨board ((SortedMap.empty.insert 0 (.fromConfigs [])).insert 1 (.fromConfigs [])), _,
    hvZoneStart_board _, ?_⟩
  have hno : LeavesNoTrace boardEnv
      (board ((SortedMap.empty.insert 0 (.fromConfigs [])).insert 1 (.fromConfigs []))) 0
      (bareConfig 1 [0]) true := by
    refine .inr (.inr (.inr ⟨⟨0, by decide, nofun⟩, ⟨fun configs hc => ?_, nofun⟩⟩))
    obtain rfl : [] = configs := Option.some.inj hc
    exact ⟨trivial, fun _ => SortedMap.get?_insert .. |>.trans (if_pos rfl)⟩
  obtain ⟨hiff, hstate⟩ := zoneStart_atomic_iff (hvZoneStart_board _)
  exact ⟨hiff.mpr hno, hstate hno⟩

end Hvisor
