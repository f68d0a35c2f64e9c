import Hvisor.Zone.Sequential
import Hvisor.Zone.VirtioIrqs

/-!
# Two ways to tear a zone down

A guest powers its zone off, or the root zone shuts the zone down. Either way the zone leaves the
list and its CPUs; a shutdown also takes back the entry points of the CPUs, the interrupts that are
recorded for them, and the interrupts of the zone in the distributor. So the two ways agree only
where nothing of this is there.

## Main definitions

* `Referenced`: who refers to a zone
* `GicMachine.powerOff`: a power-off, after which the CPUs of the zone handle their events
* `GicMachine.TeardownsAgree`: the two ways come to an end, and leave the same
* `Unhindered`, `LeavesNothing`: the condition

## Main results

* `referenced_of_run`: the references are in order in every run
* `exists_powerOff`, `exists_hvZoneShutdown`: when a teardown comes to an end
* `resources_of_powerOff`, `resources_of_hvZoneShutdown`: what it leaves
* `teardowns_agree_iff`: when the two ways agree
* `teardowns_not_agree`: a power-off leaves an interrupt enabled
-/

namespace Hvisor

variable {s s' : Machine} {p q c z id : Nat} {act : Act} {o : Outcome}

/-! ## References to zones -/

/-- **References to zones**: a CPU has a zone that it is a CPU of, each zone is listed once, and a
zone that a CPU builds is not listed and built by no other CPU. -/
structure Referenced (s : Machine) : Prop where
  zone : ∀ c z, s.zone c = some z → z < s.nextZone ∧ s.owners.Has z c
  listed : ∀ z ∈ s.zoneList, z < s.nextZone
  nodup : s.zoneList.Nodup
  built : ∀ p z todo, s.jobs p = .built z todo →
    z < s.nextZone ∧ z ∉ s.zoneList ∧ ∀ c ∈ todo, s.owners.Has z c
  builder : ∀ p q z todo todo', s.jobs p = .built z todo → s.jobs q = .built z todo' → p = q

theorem referenced_of_initial (hi : s.Initial) : Referenced s := by
  obtain ⟨root, hlist, hlt, -, hzone⟩ := hi.list
  have hjob : ∀ p, s.jobs p = .idle := by
    intro p
    rw [Machine.jobs, hi.pc p]
    rfl
  refine ⟨fun c z hz => ?_, fun z hz => ?_, ?_, fun p z todo hj => ?_, fun p q z _ _ hj => ?_⟩
  · rw [hzone c] at hz
    split at hz
    · next hc =>
      cases hz
      exact ⟨hlt, hc⟩
    · cases hz
  · rw [hlist] at hz
    rwa [List.mem_singleton.mp hz]
  · rw [hlist]
    exact List.nodup_singleton root
  · rw [hjob p] at hj
    cases hj
  · rw [hjob p] at hj
    cases hj

/-- The zone that a step lists has been built, and leaves its builder. -/
theorem job_of_add {w b : Nat} (hpc : s.pc p = .start (.add w b)) : s.jobs p = .built w [] := by
  rw [Machine.jobs, hpc]
  rfl

theorem not_built_of_add {w b : Nat} {todo : List Nat} (hpc : s.pc p = .start (.add w b))
    (hs : lifeStep s p act = some (s', o)) : s'.jobs p ≠ .built z todo := by
  have hh := startStep_of_lifeStep hs hpc
  simp only [startStep] at hh
  split at hh <;> cases hh
  simp [Machine.jobs, Machine.goto, Machine.unlockCtrl, Pc.job]

theorem referenced_of_lifeStep (h : Referenced s) (hs : lifeStep s p act = some (s', o)) :
    Referenced s' := by
  have heff := effect_of_lifeStep hs
  have hne : ∀ {q}, q ≠ p → s'.jobs q = s.jobs q := fun hq => by
    rw [Machine.jobs, heff.pc_of_ne hq, Machine.jobs]
  -- the zones that a CPU builds were there, but for the new one of the CPU that moves
  have hbuilt : ∀ q z todo, s'.jobs q = .built z todo →
      (∃ todo', s.jobs q = .built z todo' ∧ ∀ c ∈ todo, c ∈ todo') ∨
        q = p ∧ z = s.nextZone ∧ z < s'.nextZone ∧ ∀ c ∈ todo, s'.owners.Has z c := by
    intro q z todo hj
    by_cases hq : q = p
    · subst hq
      exact (built_of_lifeStep hs hj).imp_right fun h => ⟨rfl, h⟩
    · rw [hne hq] at hj
      exact .inl ⟨todo, hj, fun _ h => h⟩
  have hlisted : ∀ z ∈ s'.zoneList, z ∈ s.zoneList ∨ ∃ b, s.pc p = .start (.add z b) := by
    intro z hz
    rcases heff.zoneList with he | ⟨w, b, hpc, he⟩ | ⟨w, -, he⟩
    · exact .inl (he ▸ hz)
    · rw [he] at hz
      rcases List.mem_append.mp hz with hz | hz
      · exact .inl hz
      · obtain rfl := List.mem_singleton.mp hz
        exact .inr ⟨b, hpc⟩
    · rw [he] at hz
      exact .inl (List.mem_of_mem_erase hz)
  have hlt : ∀ z ∈ s'.zoneList, z < s.nextZone := by
    intro z hz
    rcases hlisted z hz with hz | ⟨b, hpc⟩
    · exact h.listed z hz
    · exact (h.built p z [] (job_of_add hpc)).1
  refine ⟨fun c z hz => ?_, fun z hz => Nat.lt_of_lt_of_le (hlt z hz) heff.nextZone, ?_,
    fun q z todo hj => ?_, fun q r z todo todo' hq hr => ?_⟩
  · rcases heff.zone c with he | ⟨-, he⟩ | ⟨w, hg, he⟩
    · obtain ⟨hz, hhas⟩ := h.zone c z (he ▸ hz)
      exact ⟨Nat.lt_of_lt_of_le hz heff.nextZone, (has_of_effect heff hz).mpr hhas⟩
    · rw [he] at hz
      cases hz
    · obtain rfl := Option.some.inj (he.symm.trans hz)
      obtain ⟨todo, hj, hc⟩ : ∃ todo, s.jobs p = .built w todo ∧ c ∈ todo := by
        rw [Machine.jobs]
        revert hg
        fun_cases Pc.gives (s.pc p) <;> intro hg <;> cases hg
        exact ⟨_, rfl, List.mem_cons_self⟩
      obtain ⟨hw, -, hhas⟩ := h.built p w todo hj
      exact ⟨Nat.lt_of_lt_of_le hw heff.nextZone, (has_of_effect heff hw).mpr (hhas c hc)⟩
  · rcases heff.zoneList with he | ⟨w, b, hpc, he⟩ | ⟨w, -, he⟩
    · rw [he]
      exact h.nodup
    · rw [he]
      refine h.nodup.append (List.nodup_singleton w) fun z hz hw => ?_
      obtain rfl := List.mem_singleton.mp hw
      exact (h.built p z [] (job_of_add hpc)).2.1 hz
    · rw [he]
      exact h.nodup.erase w
  · rcases hbuilt q z todo hj with ⟨todo', hold, hsub⟩ | ⟨rfl, rfl, hnew, hhas⟩
    · obtain ⟨hz, hout, hhas⟩ := h.built q z todo' hold
      refine ⟨Nat.lt_of_lt_of_le hz heff.nextZone, fun hin => ?_, fun c hc =>
        (has_of_effect heff hz).mpr (hhas c (hsub c hc))⟩
      rcases hlisted z hin with hin | ⟨b, hpc⟩
      · exact hout hin
      · obtain rfl := h.builder q p z _ _ hold (job_of_add hpc)
        exact not_built_of_add hpc hs hj
    · exact ⟨hnew, fun hin => Nat.lt_irrefl _ (hlt _ hin), hhas⟩
  · rcases hbuilt q z todo hq with ⟨t, hq, -⟩ | ⟨rfl, he, -⟩ <;>
      rcases hbuilt r z todo' hr with ⟨t', hr, -⟩ | ⟨rfl, he', -⟩
    · exact h.builder q r z t t' hq hr
    · exact absurd (h.built q z t hq).1 (he' ▸ Nat.lt_irrefl _)
    · exact absurd (h.built r z t' hr).1 (he ▸ Nat.lt_irrefl _)
    · rfl

theorem referenced_of_run {h : List (Nat × Act × Outcome)} (r : lifecycle.Run h s) :
    Referenced s := by
  refine r.invariant (I := fun _ s => Referenced s) (fun s hi => referenced_of_initial hi) ?_
  rintro _ s ⟨p, act, o⟩ s' - h hs
  exact referenced_of_lifeStep h hs

/-! ## What is compared -/

/-- What a zone leaves behind in the hypervisor, apart from the distributor. -/
structure Resources where
  zoneList : List Nat
  zone : Nat → Option Nat
  cpuOnEntry : Nat → Nat
  virtioIrqs : Nat → Option (List Nat)

/-- What a zone has. -/
def Machine.resources (s : Machine) : Resources :=
  ⟨s.zoneList, s.zone, s.cpuOnEntry, s.virtioIrqs⟩

namespace GicMachine

/-- The guest of CPU `p` powers its zone off, and the CPUs of the zone handle their events. -/
def powerOff (x : GicMachine) (p z : Nat) : Option GicMachine :=
  (x.machine.systemOff p).bind fun s =>
    (((x.machine.zones z).cpuSet.iter.filter fun c =>
      c < s.ncpu).foldlM Machine.processEvents s).map
      fun s => { x with machine := s }

/-- The states agree on what is left of a zone with the interrupts of the bitmap. -/
structure Agrees (x y : GicMachine) (irqBitmap : IrqBitmap) : Prop where
  resources : x.machine.resources = y.machine.resources
  irqs : ∀ irq, Owns irqBitmap irq = true → x.gicd.isEnabled irq = y.gicd.isEnabled irq ∧
    x.gicd.isActive irq = y.gicd.isActive irq

/-- The power-off of a zone by CPU `p` and the shutdown by CPU `q` come to an end, and agree. -/
def TeardownsAgree (x : GicMachine) (p q z : Nat) : Prop :=
  ∃ x₁ x₂, x.powerOff p z = some x₁ ∧
    x.hvZoneShutdown q (x.machine.zones z).id = some (.ok (), x₂) ∧ x₁.Agrees x₂ (x.irqBitmap z)

end GicMachine

/-- No other CPU is in the way of a teardown: no lock is held that it takes, no handler refers to
the zone, and the CPUs of the zone are in no handler. -/
structure Unhindered (s : Machine) (z : Nat) : Prop where
  irqsLock : s.virtioIrqsLock = none
  readers : s.readers z = 0
  ctrlLock : ∀ c, s.owners.Has z c → s.ctrlLock c = none
  held : ∀ c ≤ s.ncpu, z ∉ (s.pc c).held
  lower : ∀ c, s.owners.Has z c → c < s.ncpu → s.pc c = .lower

/-- Nothing is left of a zone when CPU `p` powers it off: no wake-up waits for the CPU, no
interrupts are recorded for CPUs of the zone but for those that CPU `p` handles, no CPU has an entry
point, and the zone's shared interrupts are neither enabled nor active. -/
structure LeavesNothing (x : GicMachine) (p z : Nat) : Prop where
  wakeup : .WAKEUP ∉ x.machine.events p
  irqs : ∀ c, x.machine.owners.Has z c → if c = p ∧ .VIRTIO_INJECT_IRQ ∈ x.machine.events p
    then x.machine.virtioIrqs p ≠ none else x.machine.irqList c = []
  entry : ∀ c, x.machine.owners.Has z c → x.machine.cpuOnEntry c = INVALID_ADDRESS
  gicd : ∀ irq, 32 ≤ irq → Owns (x.irqBitmap z) irq = true →
    x.gicd.isEnabled irq = false ∧ x.gicd.isActive irq = false

/-- The guest of CPU `p` runs in the zone. -/
structure Runs (s : Machine) (p z : Nat) : Prop where
  lt : p < s.ncpu
  pc : s.pc p = .lower
  stage2 : (s.stage2 p).isSome
  zone : s.zone p = some z

/-! ## The power-off -/

theorem findZone_congr (hl : s'.zoneListLock = s.zoneListLock) (hz : s'.zoneList = s.zoneList)
    (hw : s'.writer = s.writer) (hd : s'.zones = s.zones) : s'.findZone id = s.findZone id := by
  have hin : ∀ l, s'.findIn id l = s.findIn id l := by
    intro l
    induction l with
    | nil => rfl
    | cons z l ih => rw [Machine.findIn, Machine.findIn, ih, hw, hd]
  rw [Machine.findZone, Machine.findZone, hl, hz, hin]

theorem writer_of_findZone (h : s.findZone id = some (some z)) : s.writer z = none := by
  have hin : ∀ l, s.findIn id l = some (some z) → s.writer z = none := by
    intro l
    induction l with
    | nil => nofun
    | cons w l ih =>
      intro h
      rw [Machine.findIn] at h
      split at h
      · cases h
      · next hw =>
        split at h
        · cases h
          simpa using hw
        · exact ih h
  rw [Machine.findZone] at h
  split at h
  · exact hin _ h
  · cases h

/-- No CPU has the zone; the CPUs other than `p` that had it are sent a shutdown. -/
def Machine.released (s : Machine) (p z : Nat) : Machine :=
  { s with
    zone := fun c => if (s.zones z).cpuSet.containsCpu c then none else s.zone c
    events := fun c => if c ∈ (s.zones z).cpuSet.iterExcept p then [.SHUTDOWN] else s.events c }

/-- The machine after a power-off, before the CPUs handle their events. -/
def Machine.poweredOff (s : Machine) (p z : Nat) : Machine :=
  { s with
    zone := (s.released p z).zone
    events := (s.released p z).events
    zoneList := s.zoneList.erase z
    powerOn := Function.update s.powerOn p false
    elr := Function.update s.elr p 0
    stage2 := Function.update s.stage2 p none }

theorem removeZone_released {w : Nat} (h : Referenced s) (hp : Runs s p z)
    (hfind : s.findZone (s.zones z).id = some (some z)) :
    (s.released p z).removeZone p (s.zones z).id .lower = some (s', some w) ↔
      (∀ c ≤ s.ncpu, z ∉ (s.pc c).held) ∧ w = z ∧
        s' = { s with zone := (s.released p z).zone, events := (s.released p z).events,
                      zoneList := s.zoneList.erase z } := by
  have hzone : ∀ c, (s.released p z).zone c ≠ some z := by
    intro c
    simp only [Machine.released]
    split
    · nofun
    · next hc => exact fun he => hc (h.zone c z he).2
  have hfind' : (s.released p z).findZone (s.zones z).id = some (some z) := by
    rw [← hfind]
    exact findZone_congr rfl rfl rfl rfl
  have hpc : (s.released p z).pc p = .lower := hp.pc
  exact removeZone_eq_some hfind' h.nodup hzone hpc

/-- **A power-off of a zone** comes to an end when nothing is in the way. -/
theorem systemOff_eq_some (h : Referenced s) (hp : Runs s p z)
    (hroot : s.isThisRootZone p = some false)
    (hfind : s.findZone (s.zones z).id = some (some z)) : s.systemOff p = some s' ↔
      (∀ c, s.owners.Has z c → s.ctrlLock c = none) ∧ (∀ c ≤ s.ncpu, z ∉ (s.pc c).held) ∧
        s' = s.poweredOff p z := by
  have hhas : (s.zones z).cpuSet.containsCpu p = true := (h.zone p z hp.zone).2
  -- the zone is taken from the other CPUs, and then from CPU `p`
  have hset : Machine.setZone { s with
      zone := fun c => if c ∈ (s.zones z).cpuSet.iterExcept p then none else s.zone c
      events := fun c => if c ∈ (s.zones z).cpuSet.iterExcept p then [.SHUTDOWN]
        else s.events c } p none = s.released p z := by
    simp only [Machine.setZone, Machine.released, CpuSet.mem_iterExcept]
    congr 1
    funext c
    by_cases hc : c = p
    · subst hc
      simp [hhas]
    · simp [hc]
  simp only [Machine.systemOff, hp.zone, writer_of_findZone hfind, if_true, hroot,
    Option.bind_some, Option.bind_eq_some_iff, Machine.foldlM_releaseCpu, Bool.false_eq_true,
    if_false]
  constructor
  · rintro ⟨_, ⟨hlock, rfl⟩, hs⟩
    rw [hset] at hs
    split at hs
    · next s₂ w hr =>
      obtain ⟨hheld, -, rfl⟩ := (removeZone_released h hp hfind).mp hr
      rw [Machine.idle] at hs
      split at hs <;> cases hs
      next hself =>
      refine ⟨fun c hc => ?_, hheld, rfl⟩
      by_cases hcp : c = p
      · exact hcp ▸ hself
      · exact hlock c (CpuSet.mem_iterExcept.mpr ⟨hc, hcp⟩)
    · cases hs
  · rintro ⟨hlock, hheld, rfl⟩
    refine ⟨_, ⟨fun c hc => hlock c (CpuSet.mem_iterExcept.mp hc).1, rfl⟩, ?_⟩
    rw [hset, (removeZone_released h hp hfind).mpr ⟨hheld, rfl, rfl⟩]
    exact if_pos (hlock p hhas)

/-- The CPUs of the zone, of those that exist. -/
theorem mem_filter_iter {c : Nat} : c ∈ (s.zones z).cpuSet.iter.filter (fun c => c < s.ncpu) ↔
    s.owners.Has z c ∧ c < s.ncpu := by
  rw [List.mem_filter, CpuSet.mem_iter, decide_eq_true_iff]
  rfl

theorem events_poweredOff (hc : s.owners.Has z c) :
    (s.poweredOff p z).events c = if c = p then s.events p else [.SHUTDOWN] := by
  simp only [Machine.poweredOff, Machine.released, CpuSet.mem_iterExcept]
  by_cases hcp : c = p
  · subst hcp
    simp
  · rw [if_pos ⟨hc, hcp⟩, if_neg hcp]

theorem ready_poweredOff (hc : s.owners.Has z c) :
    (s.poweredOff p z).Ready c ↔ s.pc c = .lower ∧
      if c = p then ∀ e ∈ s.events p, s.CanHandle p e else s.ctrlLock c = none := by
  have hcan : ∀ e, (s.poweredOff p z).CanHandle c e ↔ s.CanHandle c e := fun e =>
    ⟨fun h => ⟨h.wakeup, h.irqs, h.shutdown⟩, fun h => ⟨h.wakeup, h.irqs, h.shutdown⟩⟩
  have hready : (s.poweredOff p z).Ready c ↔ s.pc c = .lower ∧
      ∀ e ∈ if c = p then s.events p else [.SHUTDOWN], s.CanHandle c e := by
    rw [← events_poweredOff hc]
    exact ⟨fun h => ⟨h.pc, fun e he => (hcan e).mp (h.events e he)⟩,
      fun h => ⟨h.1, fun e he => (hcan e).mpr (h.2 e he)⟩⟩
  rw [hready]
  refine and_congr_right fun _ => ?_
  by_cases hcp : c = p
  · subst hcp
    simp
  · simp only [if_neg hcp, List.forall_mem_singleton]
    exact ⟨fun h => h.shutdown rfl, fun h => ⟨nofun, nofun, fun _ => h⟩⟩

variable {x y : GicMachine}

/-- The CPUs of a zone that is powered off handle their events. -/
theorem powerOff_eq_some (h : Referenced x.machine) (hp : Runs x.machine p z)
    (hroot : x.machine.isThisRootZone p = some false)
    (hfind : x.machine.findZone (x.machine.zones z).id = some (some z)) :
    x.powerOff p z = some y ↔
      (∀ c, x.machine.owners.Has z c → x.machine.ctrlLock c = none) ∧
      (∀ c ≤ x.machine.ncpu, z ∉ (x.machine.pc c).held) ∧
      ∃ s, ((x.machine.zones z).cpuSet.iter.filter fun c => c < x.machine.ncpu).foldlM
        Machine.processEvents (x.machine.poweredOff p z) = some s ∧
          { x with machine := s } = y := by
  simp only [GicMachine.powerOff, Option.bind_eq_some_iff, Option.map_eq_some_iff,
    systemOff_eq_some h hp hroot hfind]
  constructor
  · rintro ⟨_, ⟨hlock, hheld, rfl⟩, s, hs, rfl⟩
    exact ⟨hlock, hheld, s, hs, rfl⟩
  · rintro ⟨hlock, hheld, s, hs, rfl⟩
    exact ⟨_, ⟨hlock, hheld, rfl⟩, s, hs, rfl⟩

/-- **A power-off comes to an end** when no other CPU is in the way, and CPU `p` can handle its
events. -/
theorem exists_powerOff (h : Referenced x.machine) (hp : Runs x.machine p z)
    (hroot : x.machine.isThisRootZone p = some false)
    (hfind : x.machine.findZone (x.machine.zones z).id = some (some z)) :
    (∃ y, x.powerOff p z = some y) ↔
      (∀ c, x.machine.owners.Has z c → x.machine.ctrlLock c = none) ∧
      (∀ c ≤ x.machine.ncpu, z ∉ (x.machine.pc c).held) ∧
      (∀ c, x.machine.owners.Has z c → c < x.machine.ncpu → x.machine.pc c = .lower) ∧
      ∀ e ∈ x.machine.events p, x.machine.CanHandle p e := by
  have hhas : x.machine.owners.Has z p := (h.zone p z hp.zone).2
  simp only [powerOff_eq_some h hp hroot hfind]
  constructor
  · rintro ⟨y, hlock, hheld, s, hs, -⟩
    obtain ⟨hready, -⟩ := Machine.settled_of_foldlM ((CpuSet.nodup_iter _).filter _)
      (fun c hc => .inl (if_pos (mem_filter_iter.mp hc).1)) hs
    have hready := fun c hc hlt =>
      (ready_poweredOff hc).mp (hready c (mem_filter_iter.mpr ⟨hc, hlt⟩))
    refine ⟨hlock, hheld, fun c hc hlt => (hready c hc hlt).1, ?_⟩
    simpa using (hready p hhas hp.lt).2
  · rintro ⟨hlock, hheld, hlower, hcan⟩
    obtain ⟨s, hs⟩ := Machine.foldlM_of_ready (s := x.machine.poweredOff p z)
      ((CpuSet.nodup_iter _).filter _) fun c hc => by
        obtain ⟨hc, hlt⟩ := mem_filter_iter.mp hc
        refine (ready_poweredOff hc).mpr ⟨hlower c hc hlt, ?_⟩
        split
        · exact hcan
        · exact hlock c hc
    exact ⟨_, hlock, hheld, s, hs, rfl⟩

/-- **What a power-off leaves**: the CPUs keep their entry points, and the interrupts that are
recorded for them but for those that CPU `p` handles. -/
theorem resources_of_powerOff (h : Referenced x.machine) (hp : Runs x.machine p z)
    (hroot : x.machine.isThisRootZone p = some false)
    (hfind : x.machine.findZone (x.machine.zones z).id = some (some z))
    (hs : x.powerOff p z = some y) : y.machine.resources =
      { zoneList := x.machine.zoneList.erase z
        zone := (x.machine.released p z).zone
        cpuOnEntry := x.machine.cpuOnEntry
        virtioIrqs := if .VIRTIO_INJECT_IRQ ∈ x.machine.events p
          then Function.update x.machine.virtioIrqs p (some []) else x.machine.virtioIrqs } ∧
      y.gicd = x.gicd := by
  have hhas : x.machine.owners.Has z p := (h.zone p z hp.zone).2
  obtain ⟨-, -, s, hfold, rfl⟩ := (powerOff_eq_some h hp hroot hfind).mp hs
  obtain ⟨-, hset⟩ := Machine.settled_of_foldlM ((CpuSet.nodup_iter _).filter _)
    (fun c hc => .inl (if_pos (mem_filter_iter.mp hc).1)) hfold
  refine ⟨?_, rfl⟩
  rw [Machine.resources, hset.same.zoneList, hset.same.zone, hset.same.cpuOnEntry, hset.virtioIrqs]
  congr 1
  funext c
  have hinj : (c ∈ (x.machine.zones z).cpuSet.iter.filter (fun c => c < x.machine.ncpu) ∧
      .VIRTIO_INJECT_IRQ ∈ (x.machine.poweredOff p z).events c) ↔
        c = p ∧ .VIRTIO_INJECT_IRQ ∈ x.machine.events p := by
    rw [mem_filter_iter]
    constructor
    · rintro ⟨⟨hc, -⟩, hinj⟩
      rw [events_poweredOff hc] at hinj
      split at hinj
      · next hcp => exact ⟨hcp, hinj⟩
      · cases List.mem_singleton.mp hinj
    · rintro ⟨rfl, hinj⟩
      exact ⟨⟨hhas, hp.lt⟩, by rwa [events_poweredOff hhas, if_pos rfl]⟩
  rw [if_congr hinj rfl rfl]
  by_cases hev : .VIRTIO_INJECT_IRQ ∈ x.machine.events p
  · simp [hev, Function.update_apply]
    rfl
  · simp [hev]
    rfl

/-! ## The shutdown -/

/-- The machine while CPU `q` waits for the CPUs of the zone. -/
def Machine.closed (s : Machine) (q z : Nat) : Machine :=
  let cpus := (s.zones z).cpuSet.iter
  { s with
    virtioIrqsLock := some q
    writer := Function.update s.writer z (some q)
    cpuOnEntry := fun c => if c ∈ cpus then INVALID_ADDRESS else s.cpuOnEntry c
    virtioIrqs := fun c => if c ∈ cpus then (s.virtioIrqs c).map fun _ => [] else s.virtioIrqs c
    events := fun c => if c ∈ cpus then [.SHUTDOWN] else s.events c }

/-- The machine after a shutdown, from the state in which the CPUs of the zone have parked. -/
def Machine.shutDown (s : Machine) (z : Nat) : Machine :=
  { s with
    zone := fun c => if c ∈ (s.zones z).cpuSet.iter then none else s.zone c
    zoneList := s.zoneList.erase z
    writer := Function.update s.writer z none
    virtioIrqsLock := none }

/-- The CPUs that CPU `q` waits for are sent a shutdown. -/
theorem settled_of_closed {t : Machine}
    (hs : ((s.zones z).cpuSet.iter.filter fun c => c < s.ncpu && c != q).foldlM
      Machine.processEvents (s.closed q z) = some t) :
    (∀ c, s.owners.Has z c → c < s.ncpu → c ≠ q → (s.closed q z).Ready c) ∧
      (s.closed q z).Settled ((s.zones z).cpuSet.iter.filter fun c => c < s.ncpu && c != q) t := by
  have hnone : ∀ c ∈ (s.zones z).cpuSet.iter.filter fun c => c < s.ncpu && c != q,
      (s.closed q z).zone c = none ∨ .WAKEUP ∉ (s.closed q z).events c := by
    intro c hc
    have hc := (List.mem_filter.mp hc).1
    simp [Machine.closed, CpuSet.mem_iter.mp hc]
  obtain ⟨hready, hset⟩ :=
    Machine.settled_of_foldlM ((CpuSet.nodup_iter _).filter _) hnone hs
  refine ⟨fun c hc hlt hne => hready c ?_, hset⟩
  rw [List.mem_filter, CpuSet.mem_iter]
  exact ⟨hc, by simp [hlt, hne]⟩

theorem removeZone_shutDown {w : Nat} {t : Machine} (h : Referenced s) (hq : s.pc q = .lower)
    (hfind : s.findZone id = some (some z)) (hsame : (s.closed q z).SameZones t) :
    Machine.removeZone { t with
        zone := fun c => if c ∈ (s.zones z).cpuSet.iter then none else t.zone c
        writer := Function.update t.writer z none } q id .lower = some (s', some w) ↔
      (∀ c ≤ s.ncpu, z ∉ (s.pc c).held) ∧ w = z ∧ s' = { t with
        zone := fun c => if c ∈ (s.zones z).cpuSet.iter then none else t.zone c
        writer := Function.update t.writer z none
        zoneList := t.zoneList.erase z } := by
  have hzone : ∀ c, (if c ∈ (s.zones z).cpuSet.iter then none else t.zone c) ≠ some z := by
    intro c
    rw [hsame.zone]
    split
    · nofun
    · next hc => exact fun he => hc (CpuSet.mem_iter.mpr (h.zone c z he).2)
  have hwriter : Function.update t.writer z none = s.writer := by
    rw [hsame.writer, Machine.closed, Function.update_idem, ← writer_of_findZone hfind,
      Function.update_eq_self]
  have hfind' : Machine.findZone { t with
      zone := fun c => if c ∈ (s.zones z).cpuSet.iter then none else t.zone c
      writer := Function.update t.writer z none } id = some (some z) := by
    rw [← hfind]
    exact findZone_congr hsame.zoneListLock hsame.zoneList hwriter hsame.zones
  have hpc : t.pc q = .lower := by rw [hsame.pc]; exact hq
  have hnd : t.zoneList.Nodup := by rw [hsame.zoneList]; exact h.nodup
  refine (removeZone_eq_some hfind' hnd hzone hpc).trans ?_
  simp only [hsame.ncpu, hsame.pc]
  rfl

theorem hvZoneShutdown_eq_ok (h : Referenced x.machine) (hq : x.machine.pc q = .lower)
    (hroot : x.machine.isThisRootZone q = some true) (hid : id ≠ 0)
    (hfind : x.machine.findZone id = some (some z)) :
    x.hvZoneShutdown q id = some (.ok (), y) ↔
      x.machine.virtioIrqsLock = none ∧ x.machine.readers z = 0 ∧
      (∀ c, x.machine.owners.Has z c → x.machine.ctrlLock c = none) ∧
      (∀ c ≤ x.machine.ncpu, z ∉ (x.machine.pc c).held) ∧
      ∃ s, ((x.machine.zones z).cpuSet.iter.filter fun c =>
          c < x.machine.ncpu && c != q).foldlM Machine.processEvents
            (x.machine.closed q z) = some s ∧
        y = { x with machine := s.shutDown z,
                     gicd := archIrqchipReset (x.irqBitmap z) x.gicd } := by
  simp only [GicMachine.hvZoneShutdown, hroot, hfind, hid, Option.bind_some, Bool.not_true,
    Bool.false_eq_true, if_false, writer_of_findZone hfind, true_and]
  by_cases hirqs : x.machine.virtioIrqsLock = none
  · by_cases hreaders : x.machine.readers z = 0
    · simp only [hirqs, hreaders, if_true, Option.bind_eq_some_iff, Machine.foldlM_closeCpu,
        true_and]
      constructor
      · rintro ⟨_, ⟨hlock, rfl⟩, s, hs, t, ht, hr⟩
        have hsame := (settled_of_closed hs).2.same
        obtain ⟨-, rfl⟩ := Machine.foldlM_clearCpu.mp ht
        split at hr
        · next s₂ w hrem =>
          obtain ⟨hheld, -, rfl⟩ := (removeZone_shutDown h hq hfind hsame).mp hrem
          cases hr
          refine ⟨fun c hc => hlock c (CpuSet.mem_iter.mpr hc), hheld, s, hs, ?_⟩
          rw [Machine.shutDown, hsame.zones]
          rfl
        · cases hr
      · rintro ⟨hlock, hheld, s, hs, rfl⟩
        have hsame := (settled_of_closed hs).2.same
        have hlock' : ∀ c ∈ (x.machine.zones z).cpuSet.iter, x.machine.ctrlLock c = none :=
          fun c hc => hlock c (CpuSet.mem_iter.mp hc)
        refine ⟨_, ⟨hlock', rfl⟩, s, hs, _,
          Machine.foldlM_clearCpu.mpr ⟨fun c hc => by rw [hsame.ctrlLock]; exact hlock' c hc,
            rfl⟩, ?_⟩
        rw [(removeZone_shutDown h hq hfind hsame).mpr ⟨hheld, rfl, rfl⟩]
        simp only [Machine.shutDown, hsame.zones]
        rfl
    · simp [hirqs, hreaders]
  · simp [hirqs]

theorem ready_closed (hc : s.owners.Has z c) :
    (s.closed q z).Ready c ↔ s.pc c = .lower ∧ s.ctrlLock c = none := by
  have hev : (s.closed q z).events c = [.SHUTDOWN] := if_pos (CpuSet.mem_iter.mpr hc)
  constructor
  · rintro ⟨hpc, he⟩
    exact ⟨hpc, (he .SHUTDOWN (hev ▸ List.mem_singleton.mpr rfl)).shutdown rfl⟩
  · rintro ⟨hpc, hlock⟩
    refine ⟨hpc, fun e he => ?_⟩
    rw [hev] at he
    obtain rfl := List.mem_singleton.mp he
    exact ⟨nofun, nofun, fun _ => hlock⟩

/-- **A shutdown comes to an end** when no other CPU is in the way. -/
theorem exists_hvZoneShutdown (h : Referenced x.machine) (hq : x.machine.pc q = .lower)
    (hroot : x.machine.isThisRootZone q = some true) (hid : id ≠ 0)
    (hfind : x.machine.findZone id = some (some z)) :
    (∃ y, x.hvZoneShutdown q id = some (.ok (), y)) ↔ Unhindered x.machine z := by
  simp only [hvZoneShutdown_eq_ok h hq hroot hid hfind]
  constructor
  · rintro ⟨y, hirqs, hreaders, hlock, hheld, s, hs, -⟩
    refine ⟨hirqs, hreaders, hlock, hheld, fun c hc hlt => ?_⟩
    by_cases hcq : c = q
    · exact hcq ▸ hq
    · exact ((ready_closed hc).mp ((settled_of_closed hs).1 c hc hlt hcq)).1
  · rintro ⟨hirqs, hreaders, hlock, hheld, hlower⟩
    obtain ⟨s, hs⟩ := Machine.foldlM_of_ready (s := x.machine.closed q z)
      (l := (x.machine.zones z).cpuSet.iter.filter fun c => c < x.machine.ncpu && c != q)
      ((CpuSet.nodup_iter _).filter _) fun c hc => by
        obtain ⟨hc, hlt⟩ := List.mem_filter.mp hc
        have hc := CpuSet.mem_iter.mp hc
        have hlt := of_decide_eq_true (Bool.and_eq_true_iff.mp hlt).1
        exact (ready_closed hc).mpr ⟨hlower c hc hlt, hlock c hc⟩
    exact ⟨_, hirqs, hreaders, hlock, hheld, s, hs, rfl⟩

/-- **What a shutdown leaves**: no CPU of the zone has an entry point or an interrupt that is
recorded, and the zone's interrupts are reset. -/
theorem resources_of_hvZoneShutdown (h : Referenced x.machine) (hq : x.machine.pc q = .lower)
    (hroot : x.machine.isThisRootZone q = some true) (hid : id ≠ 0)
    (hfind : x.machine.findZone id = some (some z))
    (hs : x.hvZoneShutdown q id = some (.ok (), y)) : y.machine.resources =
      { zoneList := x.machine.zoneList.erase z
        zone := (x.machine.released p z).zone
        cpuOnEntry := (x.machine.closed q z).cpuOnEntry
        virtioIrqs := (x.machine.closed q z).virtioIrqs } ∧
      y.gicd = archIrqchipReset (x.irqBitmap z) x.gicd := by
  obtain ⟨-, -, -, -, s, hfold, rfl⟩ := (hvZoneShutdown_eq_ok h hq hroot hid hfind).mp hs
  have hset := (settled_of_closed hfold).2
  refine ⟨?_, rfl⟩
  simp only [Machine.resources, Machine.shutDown, hset.same.zoneList, hset.same.zone,
    hset.same.zones, hset.same.cpuOnEntry, hset.virtioIrqs]
  congr 1
  · funext c
    exact if_congr CpuSet.mem_iter rfl rfl
  · funext c
    refine if_neg ?_
    rintro ⟨hc, hinj⟩
    have hev : (x.machine.closed q z).events c = [.SHUTDOWN] := if_pos (List.mem_filter.mp hc).1
    rw [hev] at hinj
    cases List.mem_singleton.mp hinj

/-! ## The comparison -/

theorem map_virtioIrqs_eq_self :
    (s.virtioIrqs c).map (fun _ => []) = s.virtioIrqs c ↔ s.irqList c = [] := by
  rw [Machine.irqList]
  cases s.virtioIrqs c with
  | none => simp
  | some l => simp [eq_comm]

/-- The lists of interrupts that the two teardowns leave are the same. -/
theorem virtioIrqs_agree_iff (hhas : s.owners.Has z p) :
    ((if .VIRTIO_INJECT_IRQ ∈ s.events p then Function.update s.virtioIrqs p (some [])
        else s.virtioIrqs) = (s.closed q z).virtioIrqs ∧
      (.VIRTIO_INJECT_IRQ ∈ s.events p → s.virtioIrqs p ≠ none)) ↔
      ∀ c, s.owners.Has z c → if c = p ∧ .VIRTIO_INJECT_IRQ ∈ s.events p
        then s.virtioIrqs p ≠ none else s.irqList c = [] := by
  have hclosed : ∀ c, (s.closed q z).virtioIrqs c =
      if s.owners.Has z c then (s.virtioIrqs c).map fun _ => [] else s.virtioIrqs c := fun c =>
    if_congr CpuSet.mem_iter rfl rfl
  -- the CPU that powers off still takes the interrupts that an event announces
  by_cases hinj : .VIRTIO_INJECT_IRQ ∈ s.events p
  · simp only [hinj, if_true, and_true, forall_true_left]
    constructor
    · rintro ⟨he, hsome⟩ c hc
      by_cases hcp : c = p
      · exact (if_pos hcp).mpr hsome
      · rw [if_neg hcp, ← map_virtioIrqs_eq_self]
        have hec := congrFun he c
        rwa [Function.update_of_ne hcp, hclosed, if_pos hc, eq_comm] at hec
    · intro hall
      have hsome : s.virtioIrqs p ≠ none := by simpa using hall p hhas
      refine ⟨funext fun c => ?_, hsome⟩
      rw [hclosed]
      by_cases hcp : c = p
      · subst hcp
        obtain ⟨l, hl⟩ := Option.ne_none_iff_exists'.mp hsome
        rw [Function.update_self, if_pos hhas, hl, Option.map_some]
      · rw [Function.update_of_ne hcp]
        split
        · next hc =>
          have hempty := hall c hc
          rw [if_neg hcp] at hempty
          exact (map_virtioIrqs_eq_self.mpr hempty).symm
        · rfl
  · simp only [hinj, if_false, and_false, IsEmpty.forall_iff, and_true]
    constructor
    · intro he c hc
      have hec := congrFun he c
      rw [hclosed, if_pos hc] at hec
      exact map_virtioIrqs_eq_self.mp hec.symm
    · intro hall
      funext c
      rw [hclosed]
      split
      · next hc => exact (map_virtioIrqs_eq_self.mpr (hall c hc)).symm
      · rfl

/-- **The comparison** in a state with its references in order. -/
theorem teardownsAgree_iff_of_referenced (h : Referenced x.machine) (hp : Runs x.machine p z)
    (hroot : x.machine.isThisRootZone p = some false) (hq : x.machine.pc q = .lower)
    (hqroot : x.machine.isThisRootZone q = some true) (hid : (x.machine.zones z).id ≠ 0)
    (hfind : x.machine.findZone (x.machine.zones z).id = some (some z)) :
    x.TeardownsAgree p q z ↔ Unhindered x.machine z ∧ LeavesNothing x p z := by
  have hhas : x.machine.owners.Has z p := (h.zone p z hp.zone).2
  have hoff := exists_powerOff h hp hroot hfind
  have hstop := exists_hvZoneShutdown h hq hqroot hid hfind
  -- both ways to the end are known with what they leave, and compared field by field
  constructor
  · rintro ⟨x₁, x₂, h₁, h₂, hres, hgicd⟩
    obtain ⟨-, -, -, hcan⟩ := hoff.mp ⟨x₁, h₁⟩
    obtain ⟨hr₁, hg₁⟩ := resources_of_powerOff h hp hroot hfind h₁
    obtain ⟨hr₂, hg₂⟩ := resources_of_hvZoneShutdown (p := p) h hq hqroot hid hfind h₂
    rw [hr₁, hr₂, Resources.mk.injEq] at hres
    obtain ⟨-, -, hentry, hirqs⟩ := hres
    refine ⟨hstop.mp ⟨x₂, h₂⟩, fun hw => (hcan _ hw).wakeup rfl,
      (virtioIrqs_agree_iff hhas).mp ⟨hirqs, fun hinj => ((hcan _ hinj).irqs rfl).2⟩,
      fun c hc => ?_, fun irq hspi ho => ?_⟩
    · rw [hentry]
      exact if_pos (CpuSet.mem_iter.mpr hc)
    · obtain ⟨hen, hact⟩ := hgicd irq ho
      obtain ⟨hren, hract⟩ := isEnabled_archIrqchipReset (x.irqBitmap z) x.gicd irq
      rw [hg₁, hg₂, hren] at hen
      rw [hg₁, hg₂, hract] at hact
      simp only [hspi, ho, decide_true, Bool.and_self, Bool.not_true, Bool.and_false] at hen hact
      exact ⟨hen, hact⟩
  · rintro ⟨hun, hleft⟩
    obtain ⟨hall, hinj⟩ := (virtioIrqs_agree_iff (q := q) hhas).mpr hleft.irqs
    obtain ⟨x₁, h₁⟩ := hoff.mpr ⟨hun.ctrlLock, hun.held, hun.lower, fun e he =>
      ⟨fun hw => hleft.wakeup (hw ▸ he), fun hv => ⟨hun.irqsLock, hinj (hv ▸ he)⟩,
        fun _ => hun.ctrlLock p hhas⟩⟩
    obtain ⟨x₂, h₂⟩ := hstop.mpr hun
    obtain ⟨hr₁, hg₁⟩ := resources_of_powerOff h hp hroot hfind h₁
    obtain ⟨hr₂, hg₂⟩ := resources_of_hvZoneShutdown (p := p) h hq hqroot hid hfind h₂
    refine ⟨x₁, x₂, h₁, h₂, ?_, fun irq ho => ?_⟩
    · rw [hr₁, hr₂, Resources.mk.injEq]
      refine ⟨rfl, rfl, funext fun c => ?_, hall⟩
      simp only [Machine.closed]
      split
      · next hc => exact hleft.entry c (CpuSet.mem_iter.mp hc)
      · rfl
    · obtain ⟨hren, hract⟩ := isEnabled_archIrqchipReset (x.irqBitmap z) x.gicd irq
      rw [hg₁, hg₂, hren, hract]
      by_cases hspi : 32 ≤ irq
      · simp [hleft.gicd irq hspi ho]
      · simp [hspi]

/-- **The teardowns agree** in a reachable state exactly if no other CPU is in their way and nothing
is left that only a shutdown clears: a power-off by CPU `p` in a zone other than the root zone, and
a shutdown of the zone by CPU `q` in the root zone. -/
theorem teardowns_agree_iff {h : List (Nat × Act × Outcome)} {root : Nat}
    (r : lifecycle.Run h x.machine) (hp : Runs x.machine p z)
    (hroot : x.machine.isThisRootZone p = some false) (hq : Runs x.machine q root)
    (hqroot : x.machine.isThisRootZone q = some true) (hid : (x.machine.zones z).id ≠ 0)
    (hfind : x.machine.findZone (x.machine.zones z).id = some (some z)) :
    x.TeardownsAgree p q z ↔ Unhindered x.machine z ∧ LeavesNothing x p z :=
  teardownsAgree_iff_of_referenced (referenced_of_run r) hp hroot hq.pc hqroot hid hfind

/-- CPU 0 starts zone 1 on CPU 2 at an address, and CPU 2 runs it. -/
def startAt (entry : Nat) : List (Nat × Act) :=
  (0, .hvc (.start { bareConfig 1 [2] with entryPoint := entry } true)) ::
    List.replicate 11 (0, .step) ++ wakeActs 2

/-- What the comparison needs to know of the machine in which CPU 2 runs zone 1. -/
structure RunsZone (s : Machine) : Prop where
  guest : Runs s 2 1
  root : Runs s 0 0
  isThisRootZone : s.isThisRootZone 2 = some false ∧ s.isThisRootZone 0 = some true
  zones : s.zones 1 = ⟨1, ⟨4, 0b100⟩⟩
  findZone : s.findZone 1 = some (some 1)

/-- The machine runs two zones on four CPUs, as a test. -/
def Machine.runsZoneCheck (s : Machine) : Bool :=
  s.ncpu == 4 && s.pc 2 == .lower && s.pc 0 == .lower && s.stage2 2 == some 1 &&
    s.stage2 0 == some 0 && s.zone 2 == some 1 && s.zone 0 == some 0 &&
    s.isThisRootZone 2 == some false && s.isThisRootZone 0 == some true &&
    s.zones 1 == ⟨1, ⟨4, 0b100⟩⟩ && s.findZone 1 == some (some 1)

theorem runsZone_of_check (hc : s.runsZoneCheck = true) : RunsZone s := by
  simp only [Machine.runsZoneCheck, Bool.and_eq_true, beq_iff_eq] at hc
  obtain ⟨⟨⟨⟨⟨⟨⟨⟨⟨⟨hn, hpc⟩, hpc₀⟩, hst⟩, hst₀⟩, hz⟩, hz₀⟩, hr⟩, hr₀⟩, hzs⟩, hf⟩ := hc
  exact ⟨⟨by omega, hpc, by rw [hst]; rfl, hz⟩, ⟨by omega, hpc₀, by rw [hst₀]; rfl, hz₀⟩,
    ⟨hr, hr₀⟩, hzs, hf⟩

/-- A machine with a shared interrupt that belongs to the zones, and may be enabled. -/
def withIrq33 (s : Machine) (enabled : Bool) : GicMachine where
  machine := s
  irqBitmap _ := (Vector.replicate _ 0).set 1 0b10
  gicd := ⟨fun idx => if idx = 1 ∧ enabled then 0b10 else 0, fun _ => 0⟩

theorem owns_withIrq33 (s : Machine) (enabled : Bool) (z : Nat) :
    Owns ((withIrq33 s enabled).irqBitmap z) 33 = true := by
  have : Owns ((Vector.replicate _ 0).set 1 0b10) 33 = true := by decide
  exact this

/-- A zone without an entry point, whose interrupt is disabled, leaves nothing. -/
theorem teardowns_agree_iff_noEntry : ∃ h s, lifecycle.Run h s ∧
    (withIrq33 s false).TeardownsAgree 2 0 1 := by
  have hr : ((lifeRun (fun _ _ _ => true) (startAt INVALID_ADDRESS) ([], bootMachine)).map fun r =>
      r.2.runsZoneCheck && decide (r.2.virtioIrqsLock = none ∧ r.2.readers 1 = 0 ∧
        r.2.ctrlLock 2 = none ∧ r.2.events 2 = [] ∧ r.2.virtioIrqs 2 = none ∧
          r.2.cpuOnEntry 2 = INVALID_ADDRESS ∧ ∀ c ≤ r.2.ncpu, 1 ∉ (r.2.pc c).held)) =
      some true := by
    decide +kernel
  obtain ⟨⟨h, s⟩, hrun, he⟩ := Option.map_eq_some_iff.mp hr
  simp only [Bool.and_eq_true, decide_eq_true_iff] at he
  obtain ⟨hcheck, hirqs, hreaders, hlock, hev, hlist, hentry, hheld⟩ := he
  have hz := runsZone_of_check hcheck
  have hid : (s.zones 1).id = 1 := by rw [hz.zones]
  -- the zone has one CPU
  have hcpu : ∀ c, s.owners.Has 1 c → c = 2 := by
    have hone : ∀ c ≤ 4, (CpuSet.mk 4 0b100).containsCpu c = true → c = 2 := by decide
    intro c hc
    have hc : (s.zones 1).cpuSet.containsCpu c = true := hc
    rw [hz.zones] at hc
    exact hone c (of_decide_eq_true (Bool.and_eq_true_iff.mp hc).1) hc
  have r := run_of_lifeRun (.start bootMachine_initial) hrun
  refine ⟨h, s, r, (teardowns_agree_iff (x := withIrq33 s false) r hz.guest hz.isThisRootZone.1
    hz.root hz.isThisRootZone.2 (by simp [withIrq33, hid])
      (by simp [withIrq33, hid, hz.findZone])).mpr ⟨⟨hirqs, hreaders, fun c hc => ?_, hheld,
      fun c hc _ => ?_⟩, ⟨?_, fun c hc => ?_, fun c hc => ?_, fun irq _ _ => ?_⟩⟩⟩
  · exact hcpu c hc ▸ hlock
  · exact hcpu c hc ▸ hz.guest.pc
  · simp [withIrq33, hev]
  · simp [withIrq33, hev, hcpu c hc, Machine.irqList, hlist]
  · exact hcpu c hc ▸ hentry
  · simp [withIrq33, Distributor.isEnabled, Distributor.isActive]

/-- A zone whose interrupt is enabled, and whose CPU was started at an address: after a power-off
the interrupt stays enabled and the CPU keeps the entry point. -/
theorem teardowns_not_agree : ¬ ∀ (x : GicMachine) h p q z root, lifecycle.Run h x.machine →
    Runs x.machine p z → x.machine.isThisRootZone p = some false → Runs x.machine q root →
    x.machine.isThisRootZone q = some true → (x.machine.zones z).id ≠ 0 →
    x.machine.findZone (x.machine.zones z).id = some (some z) → x.TeardownsAgree p q z := by
  have hr : ((lifeRun (fun _ _ _ => true) (startAt 0x80000000) ([], bootMachine)).map fun r =>
      (r.2.runsZoneCheck,
        ((withIrq33 r.2 true).powerOff 2 1).map fun y =>
          (y.machine.cpuOnEntry 2, y.gicd.isEnabled 33),
        ((withIrq33 r.2 true).hvZoneShutdown 0 1).map fun y =>
          (y.2.machine.cpuOnEntry 2, y.2.gicd.isEnabled 33))) =
      some (true, some (0x80000000, true), some (INVALID_ADDRESS, false)) := by
    decide +kernel
  intro hall
  obtain ⟨⟨h, s⟩, hrun, he⟩ := Option.map_eq_some_iff.mp hr
  simp only [Prod.mk.injEq] at he
  obtain ⟨hcheck, hoff, hstop⟩ := he
  have hz := runsZone_of_check hcheck
  have hid : (s.zones 1).id = 1 := by rw [hz.zones]
  obtain ⟨x₁, x₂, h₁, h₂, hagree⟩ := hall (withIrq33 s true) h 2 0 1 0
    (run_of_lifeRun (.start bootMachine_initial) hrun) hz.guest hz.isThisRootZone.1 hz.root
      hz.isThisRootZone.2 (by simp [withIrq33, hid]) (by simp [withIrq33, hid, hz.findZone])
  have hid' : ((withIrq33 s true).machine.zones 1).id = 1 := hid
  rw [hid'] at h₂
  rw [h₁, Option.map_some, Option.some.injEq, Prod.mk.injEq] at hoff
  rw [h₂, Option.map_some, Option.some.injEq, Prod.mk.injEq] at hstop
  have hirq := (hagree.irqs 33 (owns_withIrq33 s true 1)).1
  rw [hoff.2, hstop.2] at hirq
  cases hirq

end Hvisor
