import Hvisor.Zone.Effects

/-!
# Zones that overlap

Starting a zone checks its id and its CPUs, and uses them later without a lock in between; tearing a
zone down takes the CPUs from the zone before the zone leaves the list. The machine refines the jobs
of the ownership model, step by step. In runs where no check passes while another CPU is between
such a check and its use, listed zones have different ids and CPUs and own their CPUs; without that
condition two starts make two zones of one id.

## Main definitions

* `Machine.owners`, `Machine.jobs`: the ownership model's view of the machine
* `ZonesOk`: what the list of zones and the ownership of CPUs should be like
* `NoOverlap`: the condition on a step

## Main results

* `owned_step`: a step of the machine is one of the ownership model
* `zones_ok_of_noOverlap`: runs without overlap keep `ZonesOk`
* `start_start_not_ok`: two starts that overlap do not
-/

namespace Hvisor

/-! ## The view of the ownership model -/

/-- Who has which zone, as far as the list and the CPUs say. -/
def Machine.owners (s : Machine) : Owners := ⟨s.zone, s.zones, s.nextZone, s.zoneList⟩

/-- What CPU `p` is about, by its place. -/
def Pc.job (p : Nat) : Pc → Job
  | .start (.check config _ cpuSet) => .creating config.zoneId cpuSet
  | .start (.assign _ z todo) => .built z todo
  | .start (.lock z) | .start (.wake z _) | .start (.add z _) => .built z []
  | .stop (.write id z) | .stop (.sendLock id z _) | .stop (.entry id z _ _)
  | .stop (.send id z _ _) | .stop (.waitLock id z _ _) | .stop (.wait id z _ _ _) =>
    .closing z (some id) []
  | .stop (.clearLock id z todo) => .clearing z (some id) todo
  | .stop (.clear id z c todo) => .clearing z (some id) (c :: todo)
  | .stop (.drop id z) | .stop (.remove id z) => .clearing z (some id) []
  | .off (.read z) | .off (.this z) | .off (.root z _) | .off (.enter z _) => .closing z none [p]
  | .off (.lock z _ todo) => .clearing z none (p :: todo)
  | .off (.clear z _ c todo) => .clearing z none (p :: c :: todo)
  | .off (.self z _) => .clearing z none [p]
  | .off (.remove z _) => .clearing z none []
  | _ => .idle

/-- What the CPU works on. -/
def Machine.jobs (s : Machine) (p : Nat) : Job := (s.pc p).job p

variable {s s' : Machine} {p z : Nat} {act : Act} {o : Outcome}

/-- The CPUs of a zone stay. -/
theorem has_of_effect {c : Nat} (heff : Effect s p s') (hz : z < s.nextZone) :
    s'.owners.Has z c ↔ s.owners.Has z c := by
  simp only [Owners.Has, Machine.owners, heff.zones z hz]

/-- A zone that a start has built was there, or is the next one with its CPUs. -/
theorem built_of_startStep {pc : StartPc} {todo : List Nat} (hpc : s.pc p = .start pc)
    (hs : startStep s p pc = some (s', o)) (hj : s'.jobs p = .built z todo) :
    (∃ todo', s.jobs p = .built z todo' ∧ ∀ c ∈ todo, c ∈ todo') ∨
      z = s.nextZone ∧ z < s'.nextZone ∧ ∀ c ∈ todo, s'.owners.Has z c := by
  rw [Machine.jobs] at hj ⊢
  revert hs hj hpc
  fun_cases startStep s p pc <;> intro hpc hs hj <;> cases hs
  all_goals
    rw [hpc]
    simp [Machine.goto, Machine.setZone, Machine.send, Machine.lockCtrl, Machine.unlockCtrl,
      Pc.job] at hj ⊢
  case case8.refl =>
    obtain ⟨rfl, rfl⟩ := hj
    refine ⟨rfl, by omega, fun c hc => ?_⟩
    simpa [Owners.Has, Machine.owners] using hc
  case case11.refl =>
    obtain ⟨rfl, rfl⟩ := hj
    exact .inl ⟨rfl, fun c hc => .inr hc⟩
  all_goals
    obtain ⟨rfl, rfl⟩ := hj
    simp

/-- A zone that a CPU is about to give its CPUs was created by it, or is created in this step. -/
theorem built_of_lifeStep {todo : List Nat} (hs : lifeStep s p act = some (s', o))
    (hj : s'.jobs p = .built z todo) :
    (∃ todo', s.jobs p = .built z todo' ∧ ∀ c ∈ todo, c ∈ todo') ∨
      z = s.nextZone ∧ z < s'.nextZone ∧ ∀ c ∈ todo, s'.owners.Has z c := by
  have hto := (effect_of_lifeStep hs).leadsTo
  have hjob := hj
  rw [Machine.jobs] at hjob
  obtain ⟨pc', hpc'⟩ : ∃ pc', s'.pc p = .start pc' := by
    cases hpc' : s'.pc p with
    | start pc' => exact ⟨pc', rfl⟩
    | stop t => cases t <;> simp [hpc', Pc.job] at hjob
    | off t => cases t <;> simp [hpc', Pc.job] at hjob
    | _ => simp [hpc', Pc.job] at hjob
  rw [hpc'] at hto hjob
  cases hpc : s.pc p with
  | start t => exact built_of_startStep hpc (startStep_of_lifeStep hs hpc) hj
  | trap t =>
    rw [hpc] at hto
    cases t <;> cases pc' <;> simp_all [Pc.LeadsTo, Pc.job]
  | _ =>
    rw [hpc] at hto
    exact hto.elim

theorem jobs_of_pc {q : Pc} (hpc : s'.pc = Function.update s.pc p q) :
    s'.jobs = Function.update s.jobs p (q.job p) := by
  funext c
  by_cases hc : c = p
  · subst hc
    simp [Machine.jobs, hpc]
  · simp [Machine.jobs, hpc, hc]

/-- A step to a place with the same job, which leaves the owners alone. -/
theorem owned_stutter {q : Pc} (h : Owned s.owners s.jobs) (ho : s'.owners = s.owners)
    (hpc : s'.pc = Function.update s.pc p q) (hq : q.job p = (s.pc p).job p) :
    Owned s'.owners s'.jobs := by
  have hj : s'.jobs = s.jobs := by
    rw [jobs_of_pc hpc, hq]
    exact Function.update_eq_self ..
  rwa [ho, hj]

/-! ## Steps -/

/-- Handlers of events have nothing to do with zones. -/
theorem eventStep_idle {pc : EventPc} (hs : eventStep s p pc = some (s', o)) :
    s'.owners = s.owners ∧ ∃ q, s'.pc = Function.update s.pc p q ∧ q.job p = .idle := by
  cases pc <;> simp only [eventStep] at hs <;> (try split at hs) <;> (try cases hs) <;>
    exact ⟨rfl, _, rfl, rfl⟩

theorem job_enter (call : RootCall) : (call.enter.1).job p = .idle := by
  cases call <;> simp only [RootCall.enter] <;> (try split) <;> rfl

/-- Traps that change no zone have nothing to do with zones. -/
theorem trapStep_idle {pc : TrapPc} (hs : trapStep s p pc = some (s', o)) :
    s'.owners = s.owners ∧ ∃ q, s'.pc = Function.update s.pc p q ∧ q.job p = .idle := by
  revert hs
  fun_cases trapStep s p pc <;> intro hs
  all_goals try
    obtain ⟨s₁, hs₁, he⟩ := Option.map_eq_some_iff.mp hs
    cases he
    obtain ⟨q, rfl, ⟨check, rfl, -⟩ | rfl⟩ := goto_of_rootCheckStep hs₁ <;> exact ⟨rfl, _, rfl, rfl⟩
  all_goals cases hs
  case case23.refl z call => exact ⟨rfl, _, rfl, job_enter call⟩
  all_goals exact ⟨rfl, _, rfl, rfl⟩

/-- Lookups of zones change no zone. -/
theorem lookupStep_idle {pc : LookupPc} (hs : lookupStep s p pc = some (s', o)) :
    s'.owners = s.owners ∧ ∃ q, s'.pc = Function.update s.pc p q ∧ q.job p = .idle := by
  cases pc with
  | inject results =>
    cases results with
    | nil =>
      cases hs
      exact ⟨rfl, _, rfl, rfl⟩
    | cons r results =>
      simp only [lookupStep] at hs
      split at hs <;> cases hs <;> exact ⟨rfl, _, rfl, rfl⟩
  | injectSend z irq results =>
    simp only [lookupStep] at hs
    split at hs
    · split at hs
      · cases hs
        exact ⟨rfl, _, rfl, rfl⟩
      · split at hs
        · cases hs
          exact ⟨rfl, _, rfl, rfl⟩
        · split at hs <;> cases hs <;> exact ⟨rfl, _, rfl, rfl⟩
    · cases hs
  | signalSend z =>
    simp only [lookupStep] at hs
    split at hs
    · split at hs <;> cases hs <;> exact ⟨rfl, _, rfl, rfl⟩
    · cases hs
  | _ =>
    simp only [lookupStep] at hs
    split at hs <;> cases hs <;> exact ⟨rfl, _, rfl, rfl⟩

/-- A job that ends, or that is over before it took a CPU. -/
theorem owned_abandon {q : Pc} (h : Owned s.owners s.jobs) (ho : s'.owners = s.owners)
    (hpc : s'.pc = Function.update s.pc p q) (hq : q.job p = .idle)
    (hb : ∀ z todo, s.jobs p = .built z todo → todo = [])
    (hc : ∀ z id left, s.jobs p ≠ .clearing z id left) : Owned s'.owners s'.jobs := by
  rw [ho, jobs_of_pc hpc, hq]
  exact h.abandon hb hc

/-! ## The condition -/

/-- A check passes only while no other CPU is between such a check and its use: the check that a
zone id is free, the check that a CPU is free, and the lookup of a zone to tear it down. A guest
powers its zone off only while no other CPU tears the zone down, or is still about to list it. -/
def NoOverlap (s : Machine) (e : Nat × Act × Outcome) : Prop :=
  match s.pc e.1 with
  | .start (.find config) => s.findZone config.zoneId = some none →
      ∀ p', p' ≠ e.1 → (s.jobs p').zoneId s.owners ≠ some config.zoneId
  | .start (.check _ (c :: _) _) => s.zone c = none →
      ∀ p', p' ≠ e.1 → ¬ (s.jobs p').claims s.owners c ∧
        ∀ z, (s.jobs p').tears = some z → ¬ s.owners.Has z c
  | .stop (.find id) => ∀ z, s.findZone id = some (some z) →
      ∀ p', p' ≠ e.1 → (s.jobs p').tears ≠ some z
  | .lower => e.2.1 = .systemOff → ∀ z, s.zone e.1 = some z →
      ∀ p', p' ≠ e.1 → ¬ (s.jobs p').WorksOn z
  | _ => True

/-- **A step of `hv_zone_start`** keeps the ownership invariant. -/
theorem owned_startStep (h : Owned s.owners s.jobs) {pc : StartPc} (hpc : s.pc p = .start pc)
    (hg : NoOverlap s (p, act, o)) (hs : startStep s p pc = some (s', o)) :
    Owned s'.owners s'.jobs := by
  have hj : s.jobs p = (Pc.start pc).job p := by rw [Machine.jobs, hpc]
  simp only [NoOverlap, hpc] at hg
  -- a step begins a job, goes on in it or ends it; the rest leave owners and jobs as they are
  cases pc with
  | find config =>
    simp only [startStep] at hs
    split at hs
    · cases hs
    · cases hs
      exact owned_stutter h rfl rfl (by rw [hpc]; rfl)
    · next hfind =>
      cases hs
      rw [jobs_of_pc (s := s) (p := p) rfl]
      exact h.begin s.ncpu hj (findZone_eq_none hfind) (hg hfind)
  | used z =>
    cases hs
    exact owned_stutter h rfl rfl (by rw [hpc]; rfl)
  | check config todo cpuSet =>
    cases todo with
    | nil =>
      cases hs
      rw [jobs_of_pc (s := s) (p := p) rfl]
      exact h.build hj
    | cons c todo =>
      simp only [startStep] at hs
      split at hs
      · cases hs
        exact owned_abandon h rfl rfl rfl (by simp [hj, Pc.job]) (by simp [hj, Pc.job])
      · next hfree =>
        split at hs
        · cases hs
          rw [jobs_of_pc (s := s) (p := p) rfl]
          exact h.claim hj hfree (hg hfree)
        · cases hs
          exact owned_abandon h rfl rfl rfl (by simp [hj, Pc.job]) (by simp [hj, Pc.job])
  | busy z =>
    simp only [startStep] at hs
    split at hs
    · cases hs
      exact owned_stutter h rfl rfl (by rw [hpc]; rfl)
    · cases hs
  | assign config z todo =>
    cases todo with
    | nil =>
      cases hs
      exact owned_stutter h rfl rfl (by rw [hpc]; rfl)
    | cons c todo =>
      cases hs
      rw [jobs_of_pc (s := s) (p := p) rfl]
      exact h.assign hj
  | lock z =>
    simp only [startStep] at hs
    split at hs
    · split at hs
      · cases hs
        exact owned_stutter h rfl rfl (by rw [hpc]; rfl)
      · cases hs
    · cases hs
      exact owned_abandon h rfl rfl rfl (by simp [hj, Pc.job]) (by simp [hj, Pc.job])
  | wake z bootCpu =>
    simp only [startStep] at hs
    split at hs
    · cases hs
      exact owned_stutter h rfl rfl (by rw [hpc]; rfl)
    · -- the CPUs keep a zone that is never listed
      cases hs
      exact owned_abandon h rfl rfl rfl (by simp [hj, Pc.job]) (by simp [hj, Pc.job])
  | add z bootCpu =>
    simp only [startStep] at hs
    split at hs
    · cases hs
      rw [jobs_of_pc (s := s) (p := p) rfl]
      exact h.publish hj
    · cases hs

/-- **`remove_zone`** after a teardown keeps the ownership invariant. -/
theorem owned_removeZone (h : Owned s.owners s.jobs) {id : Nat} {i : Option Nat} {next : Pc}
    {r : Option Nat} (hj : s.jobs p = .clearing z i []) (hid : (s.zones z).id = id)
    (hnext : next.job p = .idle) (hs : s.removeZone p id next = some (s', r)) :
    Owned s'.owners s'.jobs := by
  rcases removeZone_cases hs with ⟨-, hfind, rfl⟩ | ⟨z', hfind, hr⟩
  · rw [jobs_of_pc (s := s) (p := p) (q := .panicked .notListed []) rfl]
    exact h.finish hj fun hz => findZone_eq_none hfind z hz hid
  · obtain ⟨hz', hid'⟩ := findZone_eq_some hfind
    have key : Owned (s.owners.remove z') (Function.update s.jobs p .idle) := by
      refine (h.remove z').finish hj ?_
      intro hz
      -- a listed zone of the id is the one that was found
      obtain ⟨hne, hz⟩ := h.nodup.mem_erase_iff.mp hz
      exact hne (h.ids z hz z' hz' (hid.trans hid'.symm))
    rcases hr with ⟨-, rfl⟩ | ⟨-, rfl, -⟩
    · rw [jobs_of_pc (s := s) (p := p) (q := next) rfl, hnext]
      exact key
    · rw [jobs_of_pc (s := s) (p := p) (q := .panicked .strongCount [_]) rfl]
      exact key

/-- **A step of `hv_zone_shutdown`** keeps the ownership invariant. -/
theorem owned_stopStep (h : Owned s.owners s.jobs) {pc : StopPc} (hpc : s.pc p = .stop pc)
    (hg : NoOverlap s (p, act, o)) (hs : stopStep s p pc = some (s', o)) :
    Owned s'.owners s'.jobs := by
  have hj : s.jobs p = (Pc.stop pc).job p := by rw [Machine.jobs, hpc]
  simp only [NoOverlap, hpc] at hg
  cases pc with
  | irqs id | write id z =>
    simp only [stopStep] at hs
    split at hs <;> cases hs
    exact owned_stutter h rfl rfl (by rw [hpc]; rfl)
  | entry id z c todo | send id z c todo =>
    cases hs
    exact owned_stutter h rfl rfl (by rw [hpc]; rfl)
  | find id =>
    simp only [stopStep] at hs
    split at hs
    · cases hs
    · cases hs
      exact owned_stutter h rfl rfl (by rw [hpc]; rfl)
    · next z hfind =>
      cases hs
      obtain ⟨hz, hid⟩ := findZone_eq_some hfind
      rw [jobs_of_pc (s := s) (p := p) rfl]
      refine h.close hj (.inl hz) ?_ (by simp) ?_
      · intro i hi
        exact hid.trans (Option.some.inj hi)
      · intro p' hp' hw
        obtain ⟨q, hq⟩ := h.tears_of_inWork hz ⟨p', hw⟩
        by_cases hqp : q = p
        · subst hqp
          simp [hj, Pc.job, Job.tears] at hq
        · exact hg z hfind q hqp hq
  | sendLock id z todo | clearLock id z todo =>
    cases todo with
    | nil =>
      cases hs
      exact owned_stutter h rfl rfl (by rw [hpc]; rfl)
    | cons c todo =>
      simp only [stopStep] at hs
      split at hs <;> cases hs
      exact owned_stutter h rfl rfl (by rw [hpc]; rfl)
  | waitLock id z todo count =>
    cases todo with
    | nil =>
      -- the CPUs are taken from here on
      cases hs
      rw [jobs_of_pc (s := s) (p := p) rfl]
      exact h.clearing hj (CpuSet.nodup_iter _) fun c => CpuSet.mem_iter
    | cons c todo =>
      simp only [stopStep] at hs
      split at hs <;> cases hs
      exact owned_stutter h rfl rfl (by rw [hpc]; rfl)
  | wait id z c todo count =>
    simp only [stopStep] at hs
    split at hs <;> cases hs <;> exact owned_stutter h rfl rfl (by rw [hpc]; rfl)
  | clear id z c todo =>
    cases hs
    have hok := h.job p
    rw [hj] at hok
    have hnd := hok.2.2.1
    rw [jobs_of_pc (s := s) (p := p) rfl]
    refine h.clear hj List.mem_cons_self hnd.of_cons ?_
    intro c'
    have hn := (List.nodup_cons.mp hnd).1
    simp only [List.mem_cons]
    exact ⟨fun hc' => ⟨.inr hc', by rintro rfl; exact hn hc'⟩, fun hc' => hc'.1.resolve_left hc'.2⟩
  | drop id z =>
    cases hs
    exact owned_stutter h rfl rfl (by rw [hpc]; rfl)
  | remove id z =>
    have hok := h.job p
    rw [hj] at hok
    simp only [stopStep] at hs
    split at hs
    · cases hs
    · next s₁ z' hr =>
      cases hs
      have key := owned_removeZone h hj (hok.2.1 id rfl) rfl hr
      exact key
    · next s₁ hr =>
      cases hs
      exact owned_removeZone h hj (hok.2.1 id rfl) rfl hr

/-- **A step of a power-off** keeps the ownership invariant. -/
theorem owned_offStep (h : Owned s.owners s.jobs) {pc : OffPc} (hpc : s.pc p = .off pc)
    (hs : offStep s p pc = some (s', o)) : Owned s'.owners s'.jobs := by
  have hj : s.jobs p = (Pc.off pc).job p := by rw [Machine.jobs, hpc]
  cases pc with
  | read z =>
    simp only [offStep] at hs
    split at hs <;> cases hs
    exact owned_stutter h rfl rfl (by rw [hpc]; rfl)
  | this z =>
    simp only [offStep] at hs
    split at hs <;> cases hs
    · exact owned_stutter h rfl rfl (by rw [hpc]; rfl)
    · exact owned_abandon h rfl rfl rfl (by simp [hj, Pc.job]) (by simp [hj, Pc.job])
  | root z check =>
    rcases offStep_root_cases hs with ⟨z', isRoot, -, rfl⟩ | ⟨check', rfl, -⟩ | rfl
    · exact owned_stutter h rfl rfl (by rw [hpc]; rfl)
    · exact owned_stutter h rfl rfl (by rw [hpc]; rfl)
    · exact owned_abandon h rfl rfl rfl (by simp [hj, Pc.job]) (by simp [hj, Pc.job])
  | enter z isRoot =>
    simp only [offStep] at hs
    split at hs <;> cases hs
    have hok := h.job p
    rw [hj] at hok
    have hp : s.owners.Has z p := hok.2.2.1 p (by simp)
    rw [jobs_of_pc (s := s) (p := p) rfl]
    -- the CPU that powers off clears itself last, after the others of the zone
    refine h.clearing hj ?_ ?_
    · rw [List.nodup_cons]
      exact ⟨by simp, CpuSet.nodup_iterExcept _ _⟩
    · intro c
      rw [List.mem_cons, CpuSet.mem_iterExcept]
      by_cases hc : c = p
      · subst hc
        exact ⟨fun _ => hp, fun _ => .inl rfl⟩
      · exact ⟨fun hm => (hm.resolve_left hc).1, fun hm => .inr ⟨hm, hc⟩⟩
  | lock z isRoot todo =>
    cases todo with
    | nil =>
      cases hs
      exact owned_stutter h rfl rfl (by rw [hpc]; rfl)
    | cons c todo =>
      simp only [offStep] at hs
      split at hs <;> cases hs
      exact owned_stutter h rfl rfl (by rw [hpc]; rfl)
  | clear z isRoot c todo =>
    cases hs
    have hok := h.job p
    rw [hj] at hok
    have hnd := hok.2.2.1
    rw [jobs_of_pc (s := s) (p := p) rfl]
    have hn := List.nodup_cons.mp hnd
    have hn' := List.nodup_cons.mp hn.2
    -- what is left to clear is what was left without this CPU
    refine h.clear hj (c := c) (by simp) ?_ ?_
    · rw [List.nodup_cons]
      exact ⟨fun hp => hn.1 (List.mem_cons_of_mem _ hp), hn'.2⟩
    · intro c'
      simp only [List.mem_cons]
      constructor
      · rintro (rfl | hc')
        · exact ⟨.inl rfl, by rintro rfl; exact hn.1 List.mem_cons_self⟩
        · exact ⟨.inr (.inr hc'), by rintro rfl; exact hn'.1 hc'⟩
      · rintro ⟨rfl | rfl | hc', hne⟩
        · exact .inl rfl
        · exact absurd rfl hne
        · exact .inr hc'
  | self z isRoot =>
    cases hs
    rw [jobs_of_pc (s := s) (p := p) rfl]
    exact h.clear hj List.mem_cons_self List.nodup_nil (by simp)
  | remove z isRoot =>
    simp only [offStep] at hs
    split at hs
    · cases hs
    · next s₁ r hr =>
      cases hs
      exact owned_removeZone h hj rfl (by cases isRoot <;> rfl) hr

/-- **A trap from a guest** keeps the ownership invariant. -/
theorem owned_trapEntry (h : Owned s.owners s.jobs) (hpc : s.pc p = .lower)
    (hg : NoOverlap s (p, act, o)) (hs : trapEntry s p act = some s') :
    Owned s'.owners s'.jobs := by
  have hj : s.jobs p = .idle := by rw [Machine.jobs, hpc]; rfl
  simp only [NoOverlap, hpc] at hg
  cases act with
  | step => cases hs
  | irq =>
    cases hs
    exact owned_stutter h rfl rfl (by rw [hpc]; rfl)
  | trap uses | cpuOn target entry =>
    simp only [trapEntry] at hs
    split at hs <;> cases hs
    exact owned_stutter h rfl rfl (by rw [hpc]; rfl)
  | hvc call =>
    simp only [trapEntry, Machine.withThisZone] at hs
    split at hs
    · split at hs <;> cases hs <;> exact owned_stutter h rfl rfl (by rw [hpc]; rfl)
    · cases hs
  | systemOff =>
    simp only [trapEntry, Machine.withThisZone] at hs
    split at hs
    · split at hs
      · next z hz =>
        cases hs
        rw [jobs_of_pc (s := s) (p := p) rfl]
        refine h.close hj (.inr ⟨p, hz⟩) (by simp) ?_ (hg rfl z hz)
        intro c hc
        rwa [List.mem_singleton.mp hc]
      · cases hs
        exact owned_stutter h rfl rfl (by rw [hpc]; rfl)
    · cases hs

/-- **The step lemma**: the ownership invariant is kept by every step that meets the condition. -/
theorem owned_step (h : Owned s.owners s.jobs) (hg : NoOverlap s (p, act, o))
    (hs : lifeStep s p act = some (s', o)) : Owned s'.owners s'.jobs := by
  unfold lifeStep at hs
  split at hs
  · split at hs
    · next hpc =>
      obtain ⟨s₁, hs₁, he⟩ := Option.map_eq_some_iff.mp hs
      cases he
      exact owned_trapEntry h hpc hg hs₁
    · split at hs
      · unfold handlerStep at hs
        -- handlers that are not about zones have no job before and after
        have idle : s.jobs p = .idle → s'.owners = s.owners →
            (∃ q, s'.pc = Function.update s.pc p q ∧ q.job p = .idle) →
            Owned s'.owners s'.jobs := by
          rintro hj ho ⟨q, hq, hi⟩
          exact owned_stutter h ho hq (hi.trans hj.symm)
        split at hs
        · next pc hpc =>
          obtain ⟨ho, hq⟩ := eventStep_idle hs
          exact idle (by rw [Machine.jobs, hpc]; rfl) ho hq
        · next pc hpc =>
          obtain ⟨ho, hq⟩ := trapStep_idle hs
          exact idle (by rw [Machine.jobs, hpc]; rfl) ho hq
        · next pc hpc => exact owned_startStep h hpc hg hs
        · next pc hpc => exact owned_stopStep h hpc hg hs
        · next pc hpc => exact owned_offStep h hpc hs
        · next pc hpc =>
          obtain ⟨ho, hq⟩ := lookupStep_idle hs
          exact idle (by rw [Machine.jobs, hpc]; rfl) ho hq
        all_goals cases hs
      · cases hs
  · cases hs

/-- The ownership invariant holds after boot. -/
theorem owned_of_initial (hi : s.Initial) : Owned s.owners s.jobs := by
  obtain ⟨root, hlist, hlt, -, hzone⟩ := hi.list
  have hj : ∀ p, s.jobs p = .idle := by
    intro p
    rw [Machine.jobs, hi.pc p]
    rfl
  have hmem : ∀ {z}, z ∈ s.owners.zoneList ↔ z = root := by
    intro z
    simp [Machine.owners, hlist]
  have howner : ∀ {c z}, s.owners.zone c = some z ↔ z = root ∧ s.owners.Has root c := by
    intro c z
    simp only [Machine.owners, hzone c, Owners.Has]
    split
    · next hc => simp [hc, eq_comm]
    · next hc => simp [hc]
  refine ⟨?_, ?_, ?_, ?_, ?_, ?_, ?_, ?_⟩
  · simp [Machine.owners, hlist]
  · intro z hz
    rwa [hmem.mp hz]
  · intro c z hc
    obtain ⟨rfl, hhas⟩ := howner.mp hc
    exact ⟨hlt, hhas⟩
  · intro z hz z' hz' _
    rw [hmem.mp hz, hmem.mp hz']
  · intro z hz z' hz' _ _ _
    rw [hmem.mp hz, hmem.mp hz']
  · intro z hz c hc
    obtain rfl : z = root := by
      rcases hz with hz | ⟨c', hc'⟩
      · exact hmem.mp hz
      · exact (howner.mp hc').1
    exact .inl (howner.mpr ⟨rfl, hc⟩)
  · intro p
    rw [hj p]
    trivial
  · refine ⟨?_, ?_, ?_, ?_⟩ <;> intro p p' <;> simp [hj, Job.zoneId, Job.claims, Job.tears]

/-! ## Runs -/

/-- The CPU is in `hv_zone_start`, `hv_zone_shutdown` or a power-off. -/
def Pc.ChangesZones : Pc → Prop
  | .start _ | .stop _ | .off _ => True
  | _ => False

/-- Listed zones have different ids and no CPU in common, and own exactly their CPUs while no start,
shutdown or power-off is in progress. -/
structure ZonesOk (s : Machine) : Prop where
  ids : (s.zoneList.map fun z => (s.zones z).id).Nodup
  cpus : s.zoneList.Pairwise fun z z' =>
    ∀ c, ¬ ((s.zones z).cpuSet.containsCpu c ∧ (s.zones z').cpuSet.containsCpu c)
  owner : (∀ p, ¬ (s.pc p).ChangesZones) →
    ∀ z ∈ s.zoneList, ∀ c, s.zone c = some z ↔ (s.zones z).cpuSet.containsCpu c

theorem Owned.zonesOk (h : Owned s.owners s.jobs) : ZonesOk s := by
  refine ⟨?_, ?_, ?_⟩
  · refine h.nodup.map_on ?_
    intro z hz z' hz' he
    exact h.ids z hz z' hz' he
  · refine (List.Nodup.pairwise_of_forall_ne h.nodup ?_)
    rintro z hz z' hz' hne c ⟨hc, hc'⟩
    exact hne (h.disjoint z hz z' hz' c hc hc')
  · intro hq z hz c
    refine h.zone_iff ?_ hz
    -- a job is that of a start, a shutdown or a power-off
    rintro ⟨p, hp⟩
    have hn := hq p
    rw [Machine.jobs] at hp
    cases hpc : s.pc p with
    | start | stop | off => simp [hpc, Pc.ChangesZones] at hn
    | _ => simp [hpc, Pc.job] at hp

theorem owned_of_run {h : List (Nat × Act × Outcome)}
    (r : (lifecycle.restrict NoOverlap).Run h s) : Owned s.owners s.jobs := by
  refine r.invariant (I := fun _ s => Owned s.owners s.jobs) ?_ ?_
  · intro s hi
    exact owned_of_initial hi
  · rintro _ s ⟨p, act, o⟩ s' _ h ⟨hg, hs⟩
    exact owned_step h hg hs

/-- **Zone ownership**: in every run of starts, shutdowns, power-offs and traps of which no two
overlap between a check and its use, listed zones differ in id and CPUs and own their CPUs. -/
theorem zones_ok_of_noOverlap {h : List (Nat × Act × Outcome)} {s : Machine}
    (r : (lifecycle.restrict NoOverlap).Run h s) : ZonesOk s := (owned_of_run r).zonesOk

/-- Where `NoOverlap` asks for something, no other CPU has a job. -/
def noOverlapCheck (s : Machine) (p : Nat) (act : Act) : Bool :=
  let alone := (List.range s.ncpu).all fun p' => p' == p || s.jobs p' == .idle
  match s.pc p with
  | .start (.find _) | .start (.check _ _ _) | .stop (.find _) => alone
  | .lower => act != .systemOff || alone
  | _ => true

theorem noOverlap_of_check (hout : ∀ c, s.ncpu ≤ c → s.pc c = .lower)
    (hc : noOverlapCheck s p act = true) : NoOverlap s (p, act, o) := by
  have alone : ((List.range s.ncpu).all fun p' => p' == p || s.jobs p' == .idle) = true →
      ∀ p', p' ≠ p → s.jobs p' = .idle := by
    intro ha p' hp'
    by_cases hlt : p' < s.ncpu
    · have := List.all_eq_true.mp ha p' (List.mem_range.mpr hlt)
      simpa [hp'] using this
    · rw [Machine.jobs, hout p' (Nat.le_of_not_lt hlt)]
      rfl
  unfold noOverlapCheck at hc
  unfold NoOverlap
  split
  · next hpc =>
    simp only [hpc] at hc
    intro _ p' hp'
    simp [alone hc p' hp', Job.zoneId]
  · next hpc =>
    simp only [hpc] at hc
    intro _ p' hp'
    simp [alone hc p' hp', Job.claims, Job.tears]
  · next hpc =>
    simp only [hpc] at hc
    intro _ _ p' hp'
    simp [alone hc p' hp', Job.tears]
  · next hpc =>
    simp only [hpc] at hc
    rintro rfl z _ p' hp'
    simp [alone hc p' hp']
  · trivial

/-- CPU 0 starts zone 1 on CPUs 2 and 3, CPU 2 runs it and powers it off, and CPU 0 starts zone 2 on
CPU 3. -/
theorem zones_ok_of_noOverlap_off : ∃ h s, (lifecycle.restrict NoOverlap).Run h s ∧
    s.zoneList.map (fun z => (s.zones z).id) = [0, 2] ∧ ZonesOk s := by
  have hr : ((lifeRun noOverlapCheck (startActs 0 1 [2, 3] ++ wakeActs 2 ++ offActs 2 [3] ++
      startActs 0 2 [3]) ([], bootMachine)).map fun r =>
        r.2.zoneList.map fun z => (r.2.zones z).id) = some [0, 2] := by
    decide +kernel
  obtain ⟨⟨h, s⟩, hrun, he⟩ := Option.map_eq_some_iff.mp hr
  have r : (lifecycle.restrict NoOverlap).Run h s :=
    restrict_of_lifeRun (fun _ _ _ _ => noOverlap_of_check) (.start bootMachine_initial)
      (fun _ _ => rfl) hrun
  exact ⟨h, s, r, he, zones_ok_of_noOverlap r⟩

/-- Two CPUs of the root zone start zones of one id; both see that the id is free. -/
theorem start_start_not_ok : ∃ h s, lifecycle.Run h s ∧ ¬ ZonesOk s := by
  have hr : ((lifeRun (fun _ _ _ => true) ((startActs 0 1 [2]).take 5 ++ startActs 1 1 [3] ++
      (startActs 0 1 [2]).drop 5) ([], bootMachine)).map fun r =>
        r.2.zoneList.map fun z => (r.2.zones z).id) = some [0, 1, 1] := by
    decide +kernel
  obtain ⟨⟨h, s⟩, hrun, he⟩ := Option.map_eq_some_iff.mp hr
  refine ⟨h, s, run_of_lifeRun (.start bootMachine_initial) hrun, ?_⟩
  intro hok
  have hids := hok.ids
  rw [he] at hids
  simp at hids

end Hvisor
