import Hvisor.Cpu
import Mathlib.Data.List.Nodup

/-!
# The ownership of CPUs

What starting and tearing down zones is about: which zones are listed, and which zone a CPU belongs
to. CPUs carry out jobs: they create a zone, whose id and CPUs they checked to be free, and list it,
or they take a zone's CPUs away and remove it. As long as no two jobs are about the same zone id,
the same CPU or the same zone, listed zones have different ids and CPUs, and own their CPUs.

## Main definitions

* `Owners`: the zones, the list and the zone of each CPU
* `Job`: what a CPU is about
* `Owned`: the invariant of owners and jobs

## Main results

* `Owned.begin`, `Owned.claim`, `Owned.build`, `Owned.assign`, `Owned.publish`: creation
* `Owned.close`, `Owned.clearing`, `Owned.clear`, `Owned.remove`, `Owned.finish`: teardown
* `Owned.zone_iff`: without jobs, a listed zone is the zone of exactly its CPUs
-/

namespace Hvisor

/-- What is fixed of a zone from its creation on. -/
structure ZoneData where
  id : Nat
  cpuSet : CpuSet
  deriving DecidableEq

/-- The zones that were created, the listed ones, and the zone of each CPU. -/
structure Owners where
  zone : Nat → Option Nat
  zones : Nat → ZoneData
  nextZone : Nat
  zoneList : List Nat

/-- What a CPU is about. -/
inductive Job where
  | idle
  /-- Creates a zone; the CPUs were checked so far. -/
  | creating (id : Nat) (cpuSet : CpuSet)
  /-- Gives the CPUs to a new zone; those of `todo` are left. -/
  | built (zone : Nat) (todo : List Nat)
  /-- Is going to remove a zone; what is known of its id, and some of its CPUs. -/
  | closing (zone : Nat) (id : Option Nat) (members : List Nat)
  /-- Takes the CPUs of a zone; those of `left` are left. -/
  | clearing (zone : Nat) (id : Option Nat) (left : List Nat)
  deriving DecidableEq

namespace Owners

/-- The CPU is one of those the zone was created with. -/
def Has (o : Owners) (z c : Nat) : Prop := (o.zones z).cpuSet.containsCpu c = true

instance (o : Owners) (z c : Nat) : Decidable (o.Has z c) :=
  inferInstanceAs (Decidable ((o.zones z).cpuSet.containsCpu c = true))

/-- The entry of a CPU for its zone. -/
def setZone (o : Owners) (c : Nat) (z : Option Nat) : Owners :=
  { o with zone := Function.update o.zone c z }

/-- A new zone, which is not listed. -/
def create (o : Owners) (data : ZoneData) : Owners :=
  { o with zones := Function.update o.zones o.nextZone data, nextZone := o.nextZone + 1 }

/-- The zone comes to the end of the list. -/
def add (o : Owners) (z : Nat) : Owners := { o with zoneList := o.zoneList ++ [z] }

/-- The zone leaves the list. -/
def remove (o : Owners) (z : Nat) : Owners := { o with zoneList := o.zoneList.erase z }

end Owners

namespace Job

/-- The id of the zone that a job creates. -/
def zoneId (o : Owners) : Job → Option Nat
  | .creating id _ => some id
  | .built z _ => some (o.zones z).id
  | _ => none

/-- The CPUs that a job creates a zone for. -/
def claims (o : Owners) : Job → Nat → Prop
  | .creating _ cpuSet, c => cpuSet.containsCpu c = true
  | .built z _, c => o.Has z c
  | _, _ => False

/-- The zone that a job removes. -/
def tears : Job → Option Nat
  | .closing z _ _ | .clearing z _ _ => some z
  | _ => none

end Job

variable {o : Owners} {j : Nat → Job} {p z c id : Nat}

/-- What a job relies on. -/
def JobOk (o : Owners) : Job → Prop
  | .idle => True
  | .creating id cpuSet => (∀ z ∈ o.zoneList, (o.zones z).id ≠ id) ∧
      ∀ c, cpuSet.containsCpu c = true → o.zone c = none ∧ ∀ z ∈ o.zoneList, ¬ o.Has z c
  | .built z todo => z ∉ o.zoneList ∧ z < o.nextZone ∧
      (∀ z' ∈ o.zoneList, (o.zones z').id ≠ (o.zones z).id ∧ ∀ c, o.Has z c → ¬ o.Has z' c) ∧
      todo.Nodup ∧ (∀ c ∈ todo, o.Has z c ∧ o.zone c = none) ∧
      ∀ c, o.Has z c → c ∉ todo → o.zone c = some z
  | .closing z id members => z < o.nextZone ∧ (∀ i, id = some i → (o.zones z).id = i) ∧
      (∀ c ∈ members, o.Has z c) ∧ ∀ c, o.Has z c → o.zone c = some z
  | .clearing z id left => z < o.nextZone ∧ (∀ i, id = some i → (o.zones z).id = i) ∧ left.Nodup ∧
      (∀ c ∈ left, o.Has z c ∧ o.zone c = some z) ∧ ∀ c, o.Has z c → c ∉ left → o.zone c = none

/-- No two jobs are about the same zone id, the same CPU or the same zone. -/
structure Apart (o : Owners) (j : Nat → Job) : Prop where
  sameId : ∀ p p' i, p ≠ p' → (j p).zoneId o = some i → (j p').zoneId o ≠ some i
  sameCpu : ∀ p p' c, p ≠ p' → (j p).claims o c → ¬ (j p').claims o c
  sameZone : ∀ p p' z, p ≠ p' → (j p).tears = some z → (j p').tears ≠ some z
  takenCpu : ∀ p p' z c, (j p).claims o c → (j p').tears = some z → ¬ o.Has z c

/-- A job that removes a zone creates none. -/
theorem Job.tears_of_claims {job : Job} (h : job.claims o c) : job.tears = none := by
  cases job with
  | closing | clearing => exact h.elim
  | _ => rfl

/-- What holds of any two jobs is kept when one job changes to one of which it holds with the
others, both ways. -/
theorem pairs_update {R : Job → Job → Prop} {job : Job}
    (h : ∀ q q', q ≠ q' → R (j q) (j q')) (hto : ∀ q, q ≠ p → R job (j q))
    (hfrom : ∀ q, q ≠ p → R (j q) job) {q q' : Nat} (hne : q ≠ q') :
    R (Function.update j p job q) (Function.update j p job q') := by
  have hself : Function.update j p job p = job := Function.update_self ..
  have hother : ∀ {q}, q ≠ p → Function.update j p job q = j q := fun hq =>
    Function.update_of_ne hq job j
  by_cases hqp : q = p
  · subst hqp
    rw [hself, hother hne.symm]
    exact hto q' hne.symm
  · rw [hother hqp]
    by_cases hqp' : q' = p
    · subst hqp'
      rw [hself]
      exact hfrom q hqp
    · rw [hother hqp']
      exact h q q' hne

/-- The job of one CPU changes to one that is about nothing that another job is about. -/
theorem Apart.update (h : Apart o j) {job : Job}
    (hid : ∀ i, job.zoneId o = some i → ∀ p', p' ≠ p → (j p').zoneId o ≠ some i)
    (hcpu : ∀ c, job.claims o c → ∀ p', p' ≠ p → ¬ (j p').claims o c)
    (hz : ∀ z, job.tears = some z → ∀ p', p' ≠ p → (j p').tears ≠ some z)
    (hclaim : ∀ c, job.claims o c → ∀ p' z, p' ≠ p → (j p').tears = some z → ¬ o.Has z c)
    (htear : ∀ z, job.tears = some z → ∀ p' c, p' ≠ p → (j p').claims o c → ¬ o.Has z c) :
    Apart o (Function.update j p job) where
  sameId q q' i hne := by
    apply pairs_update (R := fun x y => x.zoneId o = some i → y.zoneId o ≠ some i) _ _ _ hne
    · exact fun q q' hne => h.sameId q q' i hne
    · exact fun q hq hi => hid i hi q hq
    · exact fun q hq hi hi' => hid i hi' q hq hi
  sameCpu q q' c hne := by
    apply pairs_update (R := fun x y => x.claims o c → ¬ y.claims o c) _ _ _ hne
    · exact fun q q' hne => h.sameCpu q q' c hne
    · exact fun q hq hc => hcpu c hc q hq
    · exact fun q hq hc hc' => hcpu c hc' q hq hc
  sameZone q q' z hne := by
    apply pairs_update (R := fun x y => x.tears = some z → y.tears ≠ some z) _ _ _ hne
    · exact fun q q' hne => h.sameZone q q' z hne
    · exact fun q hq ht => hz z ht q hq
    · exact fun q hq ht ht' => hz z ht' q hq ht
  takenCpu q q' z c hc ht := by
    -- no job both claims a CPU and tears a zone down
    have hne : q ≠ q' := by
      rintro rfl
      rw [Job.tears_of_claims hc] at ht
      cases ht
    revert hc ht
    apply pairs_update (R := fun x y => x.claims o c → y.tears = some z → ¬ o.Has z c) _ _ _ hne
    · exact fun q q' _ => h.takenCpu q q' z c
    · exact fun q hq hc ht => hclaim c hc q z hq ht
    · exact fun q hq hc ht => htear z ht q c hq hc

/-- The job of one CPU changes to one that is about nothing new. -/
theorem Apart.shrink (h : Apart o j) {job : Job}
    (hid : ∀ i, job.zoneId o = some i → (j p).zoneId o = some i)
    (hcpu : ∀ c, job.claims o c → (j p).claims o c)
    (hz : ∀ z, job.tears = some z → (j p).tears = some z) :
    Apart o (Function.update j p job) := by
  refine h.update ?_ ?_ ?_ ?_ ?_
  · intro i hi p' hp'
    exact h.sameId p p' i hp'.symm (hid i hi)
  · intro c hc p' hp'
    exact h.sameCpu p p' c hp'.symm (hcpu c hc)
  · intro z hjz p' hp'
    exact h.sameZone p p' z hp'.symm (hz z hjz)
  · intro c hc p' z _ hz'
    exact h.takenCpu p p' z c (hcpu c hc) hz'
  · intro z hjz p' c _ hc
    exact h.takenCpu p' p z c hc (hz z hjz)

/-- The job gives or takes the CPUs of the zone. -/
def Job.WorksOn (job : Job) (z : Nat) : Prop := job.tears = some z ∨ ∃ todo, job = .built z todo

/-- The zone is one that a job works on. -/
def InWork (j : Nat → Job) (z : Nat) : Prop := ∃ p, (j p).WorksOn z

@[simp] theorem Job.worksOn_idle : ¬ Job.idle.WorksOn z := by simp [WorksOn, tears]

@[simp] theorem Job.worksOn_creating {cpuSet : CpuSet} : ¬ (Job.creating id cpuSet).WorksOn z := by
  simp [WorksOn, tears]

@[simp] theorem Job.worksOn_built {z' : Nat} {todo : List Nat} :
    (Job.built z' todo).WorksOn z ↔ z' = z := by
  simp [WorksOn, tears]

@[simp] theorem Job.worksOn_closing {z' : Nat} {i : Option Nat} {members : List Nat} :
    (Job.closing z' i members).WorksOn z ↔ z' = z := by
  simp [WorksOn, tears]

@[simp] theorem Job.worksOn_clearing {z' : Nat} {i : Option Nat} {left : List Nat} :
    (Job.clearing z' i left).WorksOn z ↔ z' = z := by
  simp [WorksOn, tears]

/-- The zone is listed, or a CPU has it. -/
def Owners.Used (o : Owners) (z : Nat) : Prop := z ∈ o.zoneList ∨ ∃ c, o.zone c = some z

/-- The invariant: listed zones differ, a used zone owns all its CPUs unless a job gives or takes
them, jobs are right about the owners, and no two jobs are about the same thing. -/
structure Owned (o : Owners) (j : Nat → Job) : Prop where
  nodup : o.zoneList.Nodup
  lt : ∀ z ∈ o.zoneList, z < o.nextZone
  has : ∀ c z, o.zone c = some z → z < o.nextZone ∧ o.Has z c
  ids : ∀ z ∈ o.zoneList, ∀ z' ∈ o.zoneList, (o.zones z).id = (o.zones z').id → z = z'
  disjoint : ∀ z ∈ o.zoneList, ∀ z' ∈ o.zoneList, ∀ c, o.Has z c → o.Has z' c → z = z'
  used : ∀ z, o.Used z → ∀ c, o.Has z c → o.zone c = some z ∨ InWork j z
  job : ∀ p, JobOk o (j p)
  apart : Apart o j

namespace Owned

/-- A listed zone that no job gives or takes the CPUs of is the zone of exactly its CPUs. -/
theorem zone_iff (h : Owned o j) (hj : ¬ InWork j z) (hz : z ∈ o.zoneList) :
    o.zone c = some z ↔ o.Has z c := by
  constructor
  · intro hc
    exact (h.has c z hc).2
  · intro hc
    rcases h.used z (.inl hz) c hc with he | hp
    · exact he
    · exact absurd hp hj

/-- A listed zone has got its CPUs. -/
theorem tears_of_inWork (h : Owned o j) (hz : z ∈ o.zoneList) (hw : InWork j z) :
    ∃ p, (j p).tears = some z := by
  obtain ⟨p, hp | ⟨todo, hp⟩⟩ := hw
  · exact ⟨p, hp⟩
  · have hok := h.job p
    rw [hp] at hok
    exact absurd hz hok.1

theorem lt_of_used (h : Owned o j) (hz : o.Used z) : z < o.nextZone := by
  rcases hz with hz | ⟨c, hc⟩
  · exact h.lt z hz
  · exact (h.has c z hc).1

theorem lt_of_tears (h : Owned o j) (hz : (j p).tears = some z) : z < o.nextZone := by
  have hok := h.job p
  cases hj : j p with
  | closing z' id members | clearing z' id left =>
    rw [hj] at hok hz
    obtain rfl : z' = z := Option.some.inj hz
    exact hok.1
  | _ => simp [hj, Job.tears] at hz

/-- A CPU that is taken from a zone, and has it, has no other zone that jobs are about. -/
theorem eq_of_tears {z' : Nat} (h : Owned o j) (ht : (j p).tears = some z) (hc : o.zone c = some z')
    (hhas : o.Has z c) : z' = z := by
  have hok := h.job p
  cases hj : j p with
  | closing z₀ id members =>
    rw [hj] at hok ht
    obtain rfl : z₀ = z := Option.some.inj ht
    exact Option.some.inj (hc.symm.trans (hok.2.2.2 c hhas))
  | clearing z₀ id left =>
    rw [hj] at hok ht
    obtain rfl : z₀ = z := Option.some.inj ht
    by_cases hl : c ∈ left
    · exact Option.some.inj (hc.symm.trans (hok.2.2.2.1 c hl).2)
    · simp [hok.2.2.2.2 c hhas hl] at hc
  | _ => simp [hj, Job.tears] at ht

/-- The jobs are right after the job of one CPU changes. -/
theorem job_update {o' : Owners} {job : Job} (hok : JobOk o' job)
    (h : ∀ p', p' ≠ p → JobOk o' (j p')) (q : Nat) : JobOk o' (Function.update j p job q) := by
  by_cases hq : q = p
  · subst hq
    rwa [Function.update_self]
  · rw [Function.update_of_ne hq]
    exact h q hq

/-- A zone that another CPU works on is still worked on after the job of one CPU changes. -/
theorem inWork_update {job : Job} (hw : InWork j z) (hp : (j p).WorksOn z → job.WorksOn z) :
    InWork (Function.update j p job) z := by
  obtain ⟨q, hq⟩ := hw
  by_cases hqp : q = p
  · subst hqp
    exact ⟨q, by rw [Function.update_self]; exact hp hq⟩
  · exact ⟨q, by rwa [Function.update_of_ne hqp]⟩

/-- The job of one CPU changes, and the owners do not. -/
theorem update (h : Owned o j) {job : Job} (hok : JobOk o job)
    (hapart : Apart o (Function.update j p job))
    (hused : ∀ z c, o.Has z c → (j p).WorksOn z → ¬ job.WorksOn z → o.zone c = some z) :
    Owned o (Function.update j p job) := by
  refine ⟨h.nodup, h.lt, h.has, h.ids, h.disjoint, ?_, job_update hok fun q _ => h.job q, hapart⟩
  intro z hz c hc
  rcases h.used z hz c hc with he | hw
  · exact .inl he
  · by_cases hp : (j p).WorksOn z ∧ ¬ job.WorksOn z
    · exact .inl (hused z c hc hp.1 hp.2)
    · exact .inr (inWork_update hw fun hw' => by_contra fun hjob => hp ⟨hw', hjob⟩)

/-- A job ends, or never came to take a CPU from its zone. -/
theorem abandon (h : Owned o j) (hb : ∀ z todo, j p = .built z todo → todo = [])
    (hc : ∀ z id left, j p ≠ .clearing z id left) : Owned o (Function.update j p .idle) := by
  refine h.update trivial (h.apart.shrink nofun nofun nofun) ?_
  intro z c hhas hw _
  have hok := h.job p
  cases hj : j p with
  | built z' todo =>
    -- the zone has all its CPUs, and keeps them without being listed
    obtain rfl := hb z' todo hj
    rw [hj] at hok hw
    obtain rfl := Job.worksOn_built.mp hw
    exact hok.2.2.2.2.2 c hhas (by simp)
  | closing z' id members =>
    rw [hj] at hok hw
    obtain rfl := Job.worksOn_closing.mp hw
    exact hok.2.2.2 c hhas
  | clearing z' id left => exact absurd hj (hc z' id left)
  | _ => simp [hj] at hw

/-! ## Creation -/

/-- A zone id is free, and no other job creates a zone with it. -/
theorem begin (h : Owned o j) (n : Nat) (hj : j p = .idle)
    (hfree : ∀ z ∈ o.zoneList, (o.zones z).id ≠ id)
    (hid : ∀ p', p' ≠ p → (j p').zoneId o ≠ some id) :
    Owned o (Function.update j p (.creating id ⟨n, 0⟩)) := by
  refine h.update ⟨hfree, ?_⟩ (h.apart.update ?_ ?_ nofun ?_ nofun) ?_
  · intro c hc
    simp at hc
  · rintro i hi
    obtain rfl : id = i := Option.some.inj hi
    exact hid
  · intro c hc
    simp [Job.claims] at hc
  · intro c hc
    simp [Job.claims] at hc
  · intro z c _ hw
    simp [hj] at hw

/-- A CPU has no zone, and no other job is about it. -/
theorem claim (h : Owned o j) {cpuSet : CpuSet} (hj : j p = .creating id cpuSet)
    (hfree : o.zone c = none)
    (hcpu : ∀ p', p' ≠ p → ¬ (j p').claims o c ∧ ∀ z, (j p').tears = some z → ¬ o.Has z c) :
    Owned o (Function.update j p (.creating id (cpuSet.setBit c))) := by
  have hok := h.job p
  rw [hj] at hok
  -- a listed zone with the CPU would own it, or be about to be removed
  have hlist : ∀ z ∈ o.zoneList, ¬ o.Has z c := by
    intro z hz hc
    rcases h.used z (.inl hz) c hc with he | hw
    · simp [hfree] at he
    · obtain ⟨p', hp'⟩ := h.tears_of_inWork hz hw
      have hne : p' ≠ p := by
        rintro rfl
        simp [hj, Job.tears] at hp'
      exact (hcpu p' hne).2 z hp' hc
  refine h.update ⟨hok.1, ?_⟩ (h.apart.update ?_ ?_ nofun ?_ nofun) ?_
  · intro c' hc'
    rcases CpuSet.containsCpu_of_setBit hc' with hc' | rfl
    · exact hok.2 c' hc'
    · exact ⟨hfree, hlist⟩
  · intro i hi p' hp'
    exact h.apart.sameId p p' i hp'.symm (by rw [hj]; exact hi)
  · intro c' hc' p' hp'
    rcases CpuSet.containsCpu_of_setBit hc' with hc' | rfl
    · exact h.apart.sameCpu p p' c' hp'.symm (by rw [hj]; exact hc')
    · exact (hcpu p' hp').1
  · intro c' hc' p' z hp' hz
    rcases CpuSet.containsCpu_of_setBit hc' with hc' | rfl
    · exact h.apart.takenCpu p p' z c' (by rw [hj]; exact hc') hz
    · exact (hcpu p' hp').2 z hz
  · intro z c' _ hw
    simp [hj] at hw

/-! ### A zone that comes to be -/

theorem zones_create (data : ZoneData) (hz : z < o.nextZone) :
    (o.create data).zones z = o.zones z :=
  Function.update_of_ne (Nat.ne_of_lt hz) _ _

theorem has_create (data : ZoneData) (hz : z < o.nextZone) :
    (o.create data).Has z c ↔ o.Has z c := by
  rw [Owners.Has, Owners.Has, zones_create data hz]

/-- The jobs of the CPUs stay right when a zone comes to be. -/
theorem jobOk_create (h : Owned o j) (data : ZoneData) (q : Nat) :
    JobOk (o.create data) (j q) := by
  have hok := h.job q
  cases hj : j q with
  | idle => trivial
  | creating id cpuSet =>
    rw [hj] at hok
    refine ⟨?_, ?_⟩
    · intro z hz
      rw [zones_create data (h.lt z hz)]
      exact hok.1 z hz
    · intro c hc
      refine ⟨(hok.2 c hc).1, ?_⟩
      intro z hz hc'
      exact (hok.2 c hc).2 z hz ((has_create data (h.lt z hz)).mp hc')
  | built z todo =>
    rw [hj] at hok
    obtain ⟨hn, hlt, hids, hnd, htodo, hdone⟩ := hok
    refine ⟨hn, Nat.lt_succ_of_lt hlt, ?_, hnd, ?_, ?_⟩
    · intro z' hz'
      rw [zones_create data hlt, zones_create data (h.lt z' hz')]
      refine ⟨(hids z' hz').1, ?_⟩
      intro c hc hc'
      exact (hids z' hz').2 c ((has_create data hlt).mp hc) ((has_create data (h.lt z' hz')).mp hc')
    · intro c hc
      exact ⟨(has_create data hlt).mpr (htodo c hc).1, (htodo c hc).2⟩
    · intro c hc
      exact hdone c ((has_create data hlt).mp hc)
  | closing z id members =>
    rw [hj] at hok
    obtain ⟨hlt, hid, hm, hall⟩ := hok
    refine ⟨Nat.lt_succ_of_lt hlt, by rwa [zones_create data hlt], ?_, ?_⟩
    · intro c hc
      exact (has_create data hlt).mpr (hm c hc)
    · intro c hc
      exact hall c ((has_create data hlt).mp hc)
  | clearing z id left =>
    rw [hj] at hok
    obtain ⟨hlt, hid, hnd, hleft, hdone⟩ := hok
    refine ⟨Nat.lt_succ_of_lt hlt, by rwa [zones_create data hlt], hnd, ?_, ?_⟩
    · intro c hc
      exact ⟨(has_create data hlt).mpr (hleft c hc).1, (hleft c hc).2⟩
    · intro c hc
      exact hdone c ((has_create data hlt).mp hc)

/-- The jobs are about what they were about. -/
theorem apart_create (h : Owned o j) (data : ZoneData) : Apart (o.create data) j := by
  have hbuilt : ∀ q z todo, j q = .built z todo → z < o.nextZone := by
    intro q z todo hj
    have hok := h.job q
    rw [hj] at hok
    exact hok.2.1
  have hzoneId : ∀ q, (j q).zoneId (o.create data) = (j q).zoneId o := by
    intro q
    cases hj : j q with
    | built z todo => simp only [Job.zoneId, zones_create data (hbuilt q z todo hj)]
    | _ => rfl
  have hclaims : ∀ q c, (j q).claims (o.create data) c ↔ (j q).claims o c := by
    intro q c
    cases hj : j q with
    | built z todo => exact has_create data (hbuilt q z todo hj)
    | _ => rfl
  refine ⟨?_, ?_, h.apart.sameZone, ?_⟩
  · intro q q' i hne
    rw [hzoneId, hzoneId]
    exact h.apart.sameId q q' i hne
  · intro q q' c hne
    rw [hclaims, hclaims]
    exact h.apart.sameCpu q q' c hne
  · intro q q' z c hc hz
    rw [hclaims] at hc
    rw [has_create data (h.lt_of_tears hz)]
    exact h.apart.takenCpu q q' z c hc hz

/-- The new zone comes to be. -/
theorem build (h : Owned o j) {cpuSet : CpuSet} (hj : j p = .creating id cpuSet) :
    Owned (o.create ⟨id, cpuSet⟩) (Function.update j p (.built o.nextZone cpuSet.iter)) := by
  have hok := h.job p
  rw [hj] at hok
  have hnew : (o.create ⟨id, cpuSet⟩).zones o.nextZone = ⟨id, cpuSet⟩ := Function.update_self ..
  have hHasNew : ∀ c, (o.create ⟨id, cpuSet⟩).Has o.nextZone c ↔ cpuSet.containsCpu c = true := by
    intro c
    rw [Owners.Has, hnew]
  refine ⟨h.nodup, ?_, ?_, ?_, ?_, ?_, job_update ?_ fun q _ => h.jobOk_create _ q, ?_⟩
  · intro z hz
    exact Nat.lt_succ_of_lt (h.lt z hz)
  · intro c z hc
    obtain ⟨hz, hhas⟩ := h.has c z hc
    exact ⟨Nat.lt_succ_of_lt hz, (has_create _ hz).mpr hhas⟩
  · intro z hz z' hz' he
    rw [zones_create _ (h.lt z hz), zones_create _ (h.lt z' hz')] at he
    exact h.ids z hz z' hz' he
  · intro z hz z' hz' c hc hc'
    exact h.disjoint z hz z' hz' c ((has_create _ (h.lt z hz)).mp hc)
      ((has_create _ (h.lt z' hz')).mp hc')
  · intro z hz c hc
    rcases h.used z hz c ((has_create _ (h.lt_of_used hz)).mp hc) with he | hw
    · exact .inl he
    · refine .inr (inWork_update hw ?_)
      simp [hj]
  · refine ⟨fun hz => Nat.lt_irrefl _ (h.lt _ hz), Nat.lt_succ_self _, ?_,
      cpuSet.nodup_iter, ?_, ?_⟩
    · intro z' hz'
      rw [zones_create _ (h.lt z' hz'), hnew]
      refine ⟨hok.1 z' hz', ?_⟩
      intro c hc hc'
      exact (hok.2 c ((hHasNew c).mp hc)).2 z' hz' ((has_create _ (h.lt z' hz')).mp hc')
    · intro c hc
      have hc' := CpuSet.mem_iter.mp hc
      exact ⟨(hHasNew c).mpr hc', (hok.2 c hc').1⟩
    · intro c hc hn
      exact absurd (CpuSet.mem_iter.mpr ((hHasNew c).mp hc)) hn
  · refine (h.apart_create ⟨id, cpuSet⟩).shrink ?_ ?_ nofun
    · intro i hi
      rw [hj]
      simpa only [Job.zoneId, hnew] using hi
    · intro c hc
      rw [hj]
      exact (hHasNew c).mp hc

/-! ### CPUs that a zone gets and gives back -/

/-- A job that works on no zone with the CPU stays right when the zone of the CPU changes. -/
theorem jobOk_setZone {job : Job} {v : Option Nat} (hok : JobOk o job)
    (hworks : ∀ z, job.WorksOn z → ¬ o.Has z c)
    (hcreates : ∀ id cpuSet, job = .creating id cpuSet → cpuSet.containsCpu c = true → v = none) :
    JobOk (o.setZone c v) job := by
  have hother : ∀ {c'}, c' ≠ c → (o.setZone c v).zone c' = o.zone c' := fun hc =>
    Function.update_of_ne hc _ _
  -- the CPUs of a zone that the job works on are other ones
  have hne : ∀ {z c'}, job.WorksOn z → o.Has z c' → c' ≠ c := by
    rintro z c' hw hhas rfl
    exact hworks z hw hhas
  cases job with
  | idle => trivial
  | creating id cpuSet =>
    refine ⟨hok.1, ?_⟩
    intro c' hc'
    by_cases he : c' = c
    · subst he
      refine ⟨?_, (hok.2 c' hc').2⟩
      rw [hcreates id cpuSet rfl hc']
      exact Function.update_self ..
    · rw [hother he]
      exact hok.2 c' hc'
  | built z todo =>
    obtain ⟨hn, hlt, hids, hnd, htodo, hdone⟩ := hok
    refine ⟨hn, hlt, hids, hnd, ?_, ?_⟩
    · intro c' hc'
      rw [hother (hne (.inr ⟨todo, rfl⟩) (htodo c' hc').1)]
      exact htodo c' hc'
    · intro c' hc'
      rw [hother (hne (.inr ⟨todo, rfl⟩) hc')]
      exact hdone c' hc'
  | closing z id members =>
    obtain ⟨hz, hid, hm, hall⟩ := hok
    refine ⟨hz, hid, hm, ?_⟩
    intro c' hc'
    rw [hother (hne (.inl rfl) hc')]
    exact hall c' hc'
  | clearing z id left =>
    obtain ⟨hz, hid, hnd, hleft, hdone⟩ := hok
    refine ⟨hz, hid, hnd, ?_, ?_⟩
    · intro c' hc'
      rw [hother (hne (.inl rfl) (hleft c' hc').1)]
      exact hleft c' hc'
    · intro c' hc'
      rw [hother (hne (.inl rfl) hc')]
      exact hdone c' hc'

/-- A new zone gets one of its CPUs. -/
theorem assign (h : Owned o j) {todo : List Nat} (hj : j p = .built z (c :: todo)) :
    Owned (o.setZone c (some z)) (Function.update j p (.built z todo)) := by
  have hok := h.job p
  rw [hj] at hok
  obtain ⟨hn, hlt, hids, hnd, htodo, hdone⟩ := hok
  obtain ⟨hhas, hfree⟩ : o.Has z c ∧ o.zone c = none := htodo c (by simp)
  have hself : (o.setZone c (some z)).zone c = some z := Function.update_self ..
  have hother : ∀ {c'}, c' ≠ c → (o.setZone c (some z)).zone c' = o.zone c' := fun hc =>
    Function.update_of_ne hc _ _
  -- no other job is about the CPU
  have hclaim : (j p).claims o c := by
    rw [hj]
    exact hhas
  have hclaims : ∀ p', p' ≠ p → ¬ (j p').claims o c := fun p' hp' =>
    h.apart.sameCpu p p' c hp'.symm hclaim
  refine ⟨h.nodup, h.lt, ?_, h.ids, h.disjoint, ?_, job_update ?_ ?_, ?_⟩
  · intro c' z' hc'
    by_cases he : c' = c
    · subst he
      rw [hself] at hc'
      obtain rfl := Option.some.inj hc'
      exact ⟨hlt, hhas⟩
    · rw [hother he] at hc'
      exact h.has c' z' hc'
  · intro z' hz' c' hc'
    by_cases hzz : z' = z
    · subst hzz
      exact .inr ⟨p, by rw [Function.update_self]; exact .inr ⟨todo, rfl⟩⟩
    · -- another zone that is used was used before, and did not own this CPU
      have hz₀ : o.Used z' := by
        rcases hz' with hz' | ⟨c₁, hc₁⟩
        · exact .inl hz'
        · refine .inr ⟨c₁, ?_⟩
          rwa [hother] at hc₁
          rintro rfl
          rw [hself] at hc₁
          exact hzz (Option.some.inj hc₁).symm
      rcases h.used z' hz₀ c' hc' with he | hw
      · refine .inl ?_
        rwa [hother]
        rintro rfl
        simp [hfree] at he
      · refine .inr (inWork_update hw ?_)
        simp [hj]
  · refine ⟨hn, hlt, hids, hnd.of_cons, ?_, ?_⟩
    · intro c' hc'
      have he : c' ≠ c := by
        rintro rfl
        exact (List.nodup_cons.mp hnd).1 hc'
      rw [hother he]
      exact htodo c' (List.mem_cons_of_mem _ hc')
    · intro c' hc' hn'
      by_cases he : c' = c
      · rw [he, hself]
      · rw [hother he]
        exact hdone c' hc' (by simp [he, hn'])
  · intro p' hp'
    refine jobOk_setZone (h.job p') ?_ ?_
    · rintro z' (hz' | ⟨todo', hj'⟩) hhas'
      · exact h.apart.takenCpu p p' z' c hclaim hz' hhas'
      · exact hclaims p' hp' (by rw [hj']; exact hhas')
    · intro id' cpuSet hj' hc'
      exact absurd (by rw [hj']; exact hc') (hclaims p' hp')
  · have hap : Apart (o.setZone c (some z)) j :=
      ⟨h.apart.sameId, h.apart.sameCpu, h.apart.sameZone, h.apart.takenCpu⟩
    refine hap.shrink ?_ ?_ nofun
    · intro i hi
      rwa [hj]
    · intro c' hc'
      rwa [hj]

/-- A new zone that owns its CPUs is listed. -/
theorem publish (h : Owned o j) (hj : j p = .built z []) :
    Owned (o.add z) (Function.update j p .idle) := by
  have hok := h.job p
  rw [hj] at hok
  obtain ⟨hn, hlt, hids, -, -, hdone⟩ := hok
  have hmem : ∀ {z'}, z' ∈ (o.add z).zoneList ↔ z' ∈ o.zoneList ∨ z' = z := by
    intro z'
    simp [Owners.add]
  -- the other jobs are about other ids and CPUs
  have hid : ∀ p', p' ≠ p → (j p').zoneId o ≠ some (o.zones z).id := by
    intro p' hp'
    exact h.apart.sameId p p' _ hp'.symm (by rw [hj]; rfl)
  have hcpu : ∀ p', p' ≠ p → ∀ c, o.Has z c → ¬ (j p').claims o c := by
    intro p' hp' c hc
    exact h.apart.sameCpu p p' c hp'.symm (by rw [hj]; exact hc)
  refine ⟨?_, ?_, h.has, ?_, ?_, ?_, job_update trivial ?_, ?_⟩
  · rw [Owners.add, List.nodup_append]
    refine ⟨h.nodup, List.nodup_singleton z, ?_⟩
    rintro a ha b hb rfl
    exact hn (List.mem_singleton.mp hb ▸ ha)
  · intro z' hz'
    rcases hmem.mp hz' with hz' | rfl
    · exact h.lt z' hz'
    · exact hlt
  · intro z₁ h₁ z₂ h₂ he
    rcases hmem.mp h₁ with l₁ | rfl <;> rcases hmem.mp h₂ with l₂ | rfl
    · exact h.ids z₁ l₁ z₂ l₂ he
    · exact absurd he (hids z₁ l₁).1
    · exact absurd he.symm (hids z₂ l₂).1
    · rfl
  · intro z₁ h₁ z₂ h₂ c' hc₁ hc₂
    rcases hmem.mp h₁ with l₁ | rfl <;> rcases hmem.mp h₂ with l₂ | rfl
    · exact h.disjoint z₁ l₁ z₂ l₂ c' hc₁ hc₂
    · exact absurd hc₁ ((hids z₁ l₁).2 c' hc₂)
    · exact absurd hc₂ ((hids z₂ l₂).2 c' hc₁)
    · rfl
  · intro z' hz' c' hc'
    by_cases hzz : z' = z
    · subst hzz
      exact .inl (hdone c' hc' (by simp))
    · have hz₀ : o.Used z' := hz'.imp_left fun hl => (hmem.mp hl).resolve_right hzz
      rcases h.used z' hz₀ c' hc' with he | hw
      · exact .inl he
      · refine .inr (inWork_update hw ?_)
        rw [hj, Job.worksOn_built]
        exact fun he => absurd he.symm hzz
  · intro p' hp'
    have hok' := h.job p'
    cases hj' : j p' with
    | idle => trivial
    | creating id' cpuSet =>
      rw [hj'] at hok'
      refine ⟨?_, ?_⟩
      · intro z' hz'
        rcases hmem.mp hz' with hz' | rfl
        · exact hok'.1 z' hz'
        · intro he
          exact hid p' hp' (by rw [hj', ← he]; rfl)
      · intro c' hc'
        refine ⟨(hok'.2 c' hc').1, ?_⟩
        intro z' hz' hhas
        rcases hmem.mp hz' with hz' | rfl
        · exact (hok'.2 c' hc').2 z' hz' hhas
        · exact hcpu p' hp' c' hhas (by rw [hj']; exact hc')
    | built z' todo =>
      rw [hj'] at hok'
      obtain ⟨hn', hlt', hids', hnd', htodo', hdone'⟩ := hok'
      have hid' : (o.zones z).id ≠ (o.zones z').id := by
        intro he
        exact hid p' hp' (by rw [hj', he]; rfl)
      refine ⟨?_, hlt', ?_, hnd', htodo', hdone'⟩
      · intro hz'
        rcases hmem.mp hz' with hz' | rfl
        · exact hn' hz'
        · exact hid' rfl
      · intro z'' hz''
        rcases hmem.mp hz'' with hz'' | rfl
        · exact hids' z'' hz''
        · refine ⟨hid', ?_⟩
          intro c' hc' hc''
          exact hcpu p' hp' c' hc'' (by rw [hj']; exact hc')
    | closing z' id' members | clearing z' id' left =>
      rw [hj'] at hok'
      exact hok'
  · have hap : Apart (o.add z) j :=
      ⟨h.apart.sameId, h.apart.sameCpu, h.apart.sameZone, h.apart.takenCpu⟩
    exact hap.shrink nofun nofun nofun

/-! ## Teardown -/

/-- A used zone is going to be removed that no other job works on. -/
theorem close (h : Owned o j) {id : Option Nat} {members : List Nat} (hj : j p = .idle)
    (hz : o.Used z) (hid : ∀ i, id = some i → (o.zones z).id = i)
    (hm : ∀ c ∈ members, o.zone c = some z) (hfree : ∀ p', p' ≠ p → ¬ (j p').WorksOn z) :
    Owned o (Function.update j p (.closing z id members)) := by
  have hall : ∀ c, o.Has z c → o.zone c = some z := by
    intro c hc
    rcases h.used z hz c hc with he | ⟨p', hp'⟩
    · exact he
    · have hne : p' ≠ p := by
        rintro rfl
        simp [hj] at hp'
      exact absurd hp' (hfree p' hne)
  refine h.update ⟨h.lt_of_used hz, hid, ?_, hall⟩ (h.apart.update nofun nofun ?_ nofun ?_) ?_
  · intro c hc
    exact (h.has c z (hm c hc)).2
  · intro z' hz' p' hp' ht
    obtain rfl : z = z' := Option.some.inj hz'
    exact hfree p' hp' (.inl ht)
  · -- the CPUs of a zone that is created have no zone yet, or have that one
    intro z' hz' p' c hp' hc hhas
    obtain rfl : z = z' := Option.some.inj hz'
    have hok' := h.job p'
    cases hj' : j p' with
    | creating id' cpuSet =>
      rw [hj'] at hok' hc
      have he := hall c hhas
      simp [(hok'.2 c hc).1] at he
    | built z' todo =>
      rw [hj'] at hok' hc
      obtain ⟨-, -, -, -, htodo, hdone⟩ := hok'
      have he := hall c hhas
      by_cases hct : c ∈ todo
      · simp [(htodo c hct).2] at he
      · rw [hdone c hc hct] at he
        exact hfree p' hp' (by rw [hj', Job.worksOn_built]; exact Option.some.inj he)
    | _ =>
      rw [hj'] at hc
      exact hc
  · intro z' c _ hw
    simp [hj] at hw

/-- The CPUs of a zone are about to be taken one by one. -/
theorem clearing (h : Owned o j) {id : Option Nat} {members left : List Nat}
    (hj : j p = .closing z id members) (hnd : left.Nodup) (hleft : ∀ c, c ∈ left ↔ o.Has z c) :
    Owned o (Function.update j p (.clearing z id left)) := by
  have hok := h.job p
  rw [hj] at hok
  obtain ⟨hz, hid, -, hall⟩ := hok
  refine h.update ⟨hz, hid, hnd, ?_, ?_⟩ (h.apart.shrink nofun nofun ?_) ?_
  · intro c hc
    exact ⟨(hleft c).mp hc, hall c ((hleft c).mp hc)⟩
  · intro c hc hn
    exact absurd ((hleft c).mpr hc) hn
  · intro z' hz'
    rwa [hj]
  · intro z' c _ hw hn
    rw [hj, Job.worksOn_closing] at hw
    exact absurd hw (by simpa using hn)

/-- A zone that is removed loses one of its CPUs. -/
theorem clear (h : Owned o j) {id : Option Nat} {left left' : List Nat}
    (hj : j p = .clearing z id left) (hc : c ∈ left) (hnd' : left'.Nodup)
    (hleft' : ∀ c', c' ∈ left' ↔ c' ∈ left ∧ c' ≠ c) :
    Owned (o.setZone c none) (Function.update j p (.clearing z id left')) := by
  have hok := h.job p
  rw [hj] at hok
  obtain ⟨hz, hid, -, hleft, hdone⟩ := hok
  have hself : (o.setZone c none).zone c = none := Function.update_self ..
  have hother : ∀ {c'}, c' ≠ c → (o.setZone c none).zone c' = o.zone c' := fun hc =>
    Function.update_of_ne hc _ _
  obtain ⟨hhas, howner⟩ := hleft c hc
  have hself' : InWork (Function.update j p (.clearing z id left')) z :=
    ⟨p, by rw [Function.update_self]; exact .inl rfl⟩
  -- another job that removes a zone removes another one, without this CPU
  have hforeign : ∀ p', p' ≠ p → ∀ z', (j p').tears = some z' → ¬ o.Has z' c := by
    intro p' hp' z' hz' hc'
    obtain rfl := h.eq_of_tears hz' howner hc'
    exact h.apart.sameZone p p' z hp'.symm (by rw [hj]; rfl) hz'
  refine ⟨h.nodup, h.lt, ?_, h.ids, h.disjoint, ?_, job_update ?_ ?_, ?_⟩
  · intro c' z' hc'
    by_cases he : c' = c
    · subst he
      rw [hself] at hc'
      cases hc'
    · rw [hother he] at hc'
      exact h.has c' z' hc'
  · intro z' hz' c' hc'
    by_cases hzz : z' = z
    · subst hzz
      exact .inr hself'
    · have hz₀ : o.Used z' := by
        rcases hz' with hz' | ⟨c₁, hc₁⟩
        · exact .inl hz'
        · refine .inr ⟨c₁, ?_⟩
          rwa [hother] at hc₁
          rintro rfl
          rw [hself] at hc₁
          cases hc₁
      rcases h.used z' hz₀ c' hc' with he | hw
      · refine .inl ?_
        rwa [hother]
        rintro rfl
        exact hzz (Option.some.inj (he.symm.trans howner))
      · refine .inr (inWork_update hw ?_)
        rw [hj, Job.worksOn_clearing, Job.worksOn_clearing]
        exact fun he => he
  · refine ⟨hz, hid, hnd', ?_, ?_⟩
    · intro c' hc'
      obtain ⟨hc', he⟩ := (hleft' c').mp hc'
      rw [hother he]
      exact hleft c' hc'
    · intro c' hc' hn
      by_cases he : c' = c
      · rw [he, hself]
      · rw [hother he]
        exact hdone c' hc' fun hl => hn ((hleft' c').mpr ⟨hl, he⟩)
  · intro p' hp'
    refine jobOk_setZone (h.job p') ?_ fun _ _ _ _ => rfl
    rintro z' (hz' | ⟨todo, hj'⟩) hhas'
    · exact hforeign p' hp' z' hz' hhas'
    · exact h.apart.takenCpu p' p z c (by rw [hj']; exact hhas') (by rw [hj]; rfl) hhas
  · have hap : Apart (o.setZone c none) j :=
      ⟨h.apart.sameId, h.apart.sameCpu, h.apart.sameZone, h.apart.takenCpu⟩
    refine hap.shrink nofun nofun ?_
    intro z' hz'
    rwa [hj]

/-- A zone leaves the list. -/
theorem remove (h : Owned o j) (z : Nat) : Owned (o.remove z) j := by
  have hsub : ∀ {z'}, z' ∈ (o.remove z).zoneList → z' ∈ o.zoneList := List.mem_of_mem_erase
  refine ⟨h.nodup.erase z, ?_, h.has, ?_, ?_, ?_, ?_, ?_⟩
  · intro z' hz'
    exact h.lt z' (hsub hz')
  · intro z₁ h₁ z₂ h₂ he
    exact h.ids z₁ (hsub h₁) z₂ (hsub h₂) he
  · intro z₁ h₁ z₂ h₂ c' hc₁ hc₂
    exact h.disjoint z₁ (hsub h₁) z₂ (hsub h₂) c' hc₁ hc₂
  · intro z' hz' c' hc'
    exact h.used z' (hz'.imp_left hsub) c' hc'
  · intro p
    have hok := h.job p
    cases hj : j p with
    | idle => trivial
    | creating id cpuSet =>
      rw [hj] at hok
      refine ⟨fun z' hz' => hok.1 z' (hsub hz'), ?_⟩
      intro c' hc'
      exact ⟨(hok.2 c' hc').1, fun z' hz' => (hok.2 c' hc').2 z' (hsub hz')⟩
    | built z' todo =>
      rw [hj] at hok
      obtain ⟨hn, hlt, hids, hrest⟩ := hok
      exact ⟨fun hz' => hn (hsub hz'), hlt, fun z'' hz'' => hids z'' (hsub hz''), hrest⟩
    | closing z' id members | clearing z' id left =>
      rw [hj] at hok
      exact hok
  · exact ⟨h.apart.sameId, h.apart.sameCpu, h.apart.sameZone, h.apart.takenCpu⟩

/-- The removal of a zone that lost all its CPUs, and is not listed, ends. -/
theorem finish (h : Owned o j) {id : Option Nat} (hj : j p = .clearing z id [])
    (hz : z ∉ o.zoneList) : Owned o (Function.update j p .idle) := by
  have hok := h.job p
  rw [hj] at hok
  obtain ⟨-, -, -, -, hdone⟩ := hok
  refine ⟨h.nodup, h.lt, h.has, h.ids, h.disjoint, ?_, job_update trivial fun q _ => h.job q,
    h.apart.shrink nofun nofun nofun⟩
  intro z' hz' c hc
  by_cases hzz : z' = z
  · -- no CPU has the zone any more
    subst hzz
    rcases hz' with hz' | ⟨c', hc'⟩
    · exact absurd hz' hz
    · have := hdone c' (h.has c' z' hc').2 (by simp)
      simp [this] at hc'
  · rcases h.used z' hz' c hc with he | hw
    · exact .inl he
    · refine .inr (inWork_update hw ?_)
      rw [hj, Job.worksOn_clearing]
      exact fun he => absurd he.symm hzz

end Owned

end Hvisor
