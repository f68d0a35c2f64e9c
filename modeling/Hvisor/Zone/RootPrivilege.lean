import Hvisor.Zone.Overlap

/-!
# The privilege of the root zone

The root zone is told by its place: it is the first zone of `ZONE_LIST`. Calls that only the root
zone may make compare the caller's zone with it. So the first zone must be the one with id 0 at any
time.

## Main definitions

* `Machine.isRoot`, `Machine.isThisRootZone`: the test
* `RootFirst`: the first zone has id 0
* `keepsRoot`: the condition on a step

## Main results

* `rootFirst_of_lifeStep`: what a step preserves
* `root_has_id_zero`: while the root zone is not removed from before another zone, no other zone
  passes for it
* `other_zone_is_root`: a zone that is left behind by the root zone does
-/

namespace Hvisor

variable {s s' : Machine} {p c z : Nat} {act : Act} {o : Outcome} {call : RootCall}

/-- Whether a zone is the first one of `ZONE_LIST`; no answer if the list is locked or empty. -/
def Machine.isRoot (s : Machine) (z : Nat) : Option Bool :=
  if s.zoneListLock = none then s.zoneList.head?.map (· == z) else none

/-- `is_this_root_zone` by a CPU. -/
def Machine.isThisRootZone (s : Machine) (c : Nat) : Option Bool := (s.zone c).bind s.isRoot

theorem head_of_isRoot (h : s.isRoot z = some true) : s.zoneList.head? = some z := by
  rw [Machine.isRoot] at h
  split at h
  · obtain ⟨root, hroot, he⟩ := Option.map_eq_some_iff.mp h
    rw [hroot, beq_iff_eq.mp he]
  · cases h

/-- The zone that a check is about to find, or has found, to be the root zone. -/
def RootCheckPc.passes : RootCheckPc → Option Nat
  | .drop z root => if root = z then some z else none
  | .done z true => some z
  | _ => none

/-- A check of a caller's zone comes to pass with the first zone of the list. -/
theorem passes_of_rootCheckStep {next : RootCheckPc → Pc} {zones : List Nat} {check : RootCheckPc}
    (hnext : ∀ check', next check' = .trap (.rootCheck check' call))
    (hs : rootCheckStep s p next zones check = some s') {check' : RootCheckPc}
    (hpc : s'.pc p = .trap (.rootCheck check' call)) (h : check'.passes = some z) :
    check.passes = some z ∨ s.zoneList.head? = some z := by
  rcases rootCheckStep_cases hs with ⟨z', root, rfl, hroot, rfl⟩ | ⟨z', rfl, -, rfl⟩ |
    ⟨z', root, rfl, rfl⟩
  · simp only [Machine.goto, Function.update_self, hnext, Pc.trap.injEq, TrapPc.rootCheck.injEq,
      and_true] at hpc
    subst hpc
    rw [RootCheckPc.passes] at h
    split at h
    · next he =>
      rw [he] at hroot
      exact .inr (hroot.trans h)
    · cases h
  · simp only [Machine.goto, Function.update_self] at hpc
    cases hpc
  · simp only [Machine.goto, Function.update_self, hnext, Pc.trap.injEq, TrapPc.rootCheck.injEq,
      and_true] at hpc
    subst hpc
    left
    by_cases he : root = z'
    · simp only [he, beq_self_eq_true, RootCheckPc.passes, if_true] at h ⊢
      exact h
    · simp only [beq_false_of_ne he, RootCheckPc.passes] at h
      cases h

namespace StopPc

/-- The id of the zone that is shut down. -/
def zoneId : StopPc → Nat
  | .irqs id | .find id | .write id _ | .sendLock id _ _ | .entry id _ _ _ | .send id _ _ _
  | .waitLock id _ _ _ | .wait id _ _ _ _ | .clearLock id _ _ | .clear id _ _ _ | .drop id _
  | .remove id _ => id

end StopPc

/-- **The root zone comes first**, where a zone is listed at all; zones in work exist, no shutdown
is of the root zone, and no other zone has passed for it. -/
structure RootFirst (s : Machine) : Prop where
  head : ∀ z, s.zoneList.head? = some z → (s.zones z).id = 0
  listed : ∀ z ∈ s.zoneList, z < s.nextZone
  built : ∀ p z todo, s.jobs p = .built z todo → z < s.nextZone
  stop : ∀ p pc, s.pc p = .stop pc → pc.zoneId ≠ 0
  passed : ∀ p check call z, s.pc p = .trap (.rootCheck check call) → check.passes = some z →
    z < s.nextZone ∧ (s.zones z).id = 0

/-- CPU `p` in `PSCI_SYSTEM_OFF` removes the first zone only if it is the last one; and it adds to
an empty list only a zone with id 0. -/
def keepsRoot (s : Machine) (p : Nat) : Bool :=
  match s.pc p with
  | .off (.remove z _) => s.findZone (s.zones z).id ≠ some s.zoneList.head? ∨ s.zoneList.length ≤ 1
  | .start (.add z _) => s.zoneList ≠ [] ∨ (s.zones z).id = 0
  | _ => true

/-! ## One step -/

theorem lt_of_built {todo : List Nat} (h : RootFirst s) (hs : lifeStep s p act = some (s', o))
    (hj : s'.jobs p = .built z todo) : z < s'.nextZone := by
  rcases built_of_lifeStep hs hj with ⟨todo', hold, -⟩ | ⟨-, hlt, -⟩
  · exact Nat.lt_of_lt_of_le (h.built p z todo' hold) (effect_of_lifeStep hs).nextZone
  · exact hlt

/-- A shutdown keeps its id. -/
theorem zoneId_of_stopStep {pc pc' : StopPc} (hs : stopStep s p pc = some (s', o))
    (hpc : s'.pc p = .stop pc') : pc'.zoneId = pc.zoneId := by
  by_cases hrem : ∃ id z, pc = .remove id z
  · obtain ⟨id, z, rfl⟩ := hrem
    exfalso
    have hleads : s'.pc p = .lower ∨ s'.pc p = .panicked .notListed [] ∨
        ∃ z', s'.pc p = .panicked .strongCount [z'] := by
      simp only [stopStep] at hs
      split at hs
      · cases hs
      all_goals
        next hr =>
        have hremoved := pc_of_removeZone hr
        cases hs
        exact hremoved
    rw [hpc] at hleads
    rcases hleads with h | h | ⟨_, h⟩ <;> cases h
  · revert hs hpc hrem
    fun_cases stopStep s p pc <;> intro hs hpc hrem <;> try cases hs
    all_goals try exact absurd ⟨_, _, rfl⟩ hrem
    all_goals
      simp only [Machine.goto, Function.update_self, reduceCtorEq, Pc.stop.injEq] at hpc
    all_goals
      subst hpc
      rfl

/-- A shutdown begins with an id that is not 0. -/
theorem zoneId_of_enter {call : RootCall} {pc : StopPc} (h : call.enter.1 = .stop pc) :
    pc.zoneId ≠ 0 := by
  cases call with
  | shutdown id =>
    simp only [RootCall.enter] at h
    split at h
    · cases h
    · next hid =>
      cases h
      exact hid
  | start config sizeOk => cases sizeOk <;> cases h
  | _ => cases h

theorem zoneId_ne_zero {pc : StopPc} (h : RootFirst s) (hs : lifeStep s p act = some (s', o))
    (hpc : s'.pc p = .stop pc) : pc.zoneId ≠ 0 := by
  have hto := (effect_of_lifeStep hs).leadsTo
  rw [hpc] at hto
  cases hq : s.pc p with
  | trap t =>
    rw [hq] at hto
    cases t with
    | rootCheck check call =>
      rcases pc_of_rootCheck (trapStep_of_lifeStep hs hq) with ⟨_, _, he⟩ | he | ⟨_, he, _⟩ | he
      · exact zoneId_of_enter (he.symm.trans hpc)
      all_goals
        rw [he] at hpc
        cases hpc
    | _ => exact hto.elim
  | stop t =>
    rw [zoneId_of_stopStep (stopStep_of_lifeStep hs hq) hpc]
    exact h.stop p t hq
  | _ =>
    rw [hq] at hto
    exact hto.elim

/-- A caller comes to pass the check with the first zone of the list. -/
theorem passes_of_lifeStep {check : RootCheckPc} (hs : lifeStep s p act = some (s', o))
    (hpc : s'.pc p = .trap (.rootCheck check call)) (h : check.passes = some z) :
    (∃ check' call', s.pc p = .trap (.rootCheck check' call') ∧ check'.passes = some z) ∨
      s.zoneList.head? = some z := by
  have hto := (effect_of_lifeStep hs).leadsTo
  rw [hpc] at hto
  cases hq : s.pc p with
  | trap t =>
    have hh := trapStep_of_lifeStep hs hq
    clear hs hto hq
    revert hh
    fun_cases trapStep s p t <;> intro hh
    case case13 uses check' hne =>
      obtain ⟨s₁, hs₁, he⟩ := Option.map_eq_some_iff.mp hh
      cases he
      obtain ⟨q, rfl, ⟨check₁, rfl, -⟩ | rfl⟩ := goto_of_rootCheckStep hs₁ <;>
        simp [Machine.goto] at hpc
    case case25 check' call' hne =>
      obtain ⟨s₁, hs₁, he⟩ := Option.map_eq_some_iff.mp hh
      cases he
      have hcall : call' = call := by
        obtain ⟨q, rfl, ⟨check₁, rfl, -⟩ | rfl⟩ := goto_of_rootCheckStep hs₁ <;>
          simp [Machine.goto] at hpc
        exact hpc.2
      subst hcall
      exact (passes_of_rootCheckStep (fun _ => rfl) hs₁ hpc h).imp_left fun hold =>
        ⟨_, _, rfl, hold⟩
    case case23 z' call' =>
      cases hh
      simp only [Machine.goto, Function.update_self] at hpc
      have henter := leadsTo_enter (.done z' true) call'
      rw [hpc] at henter
      cases call' with
      | start config sizeOk => cases sizeOk <;> cases hpc
      | shutdown id =>
        simp only [RootCall.enter] at hpc
        split at hpc <;> cases hpc
      | _ => cases hpc
    all_goals cases hh
    all_goals simp [Machine.goto] at hpc
  | lower =>
    -- a call begins with the clone of the caller's zone
    have hs₁ := (trapEntry_of_lifeStep hs hq).1
    cases act <;> simp only [trapEntry, Machine.withThisZone] at hs₁ <;>
      (try split at hs₁) <;> (try split at hs₁) <;> cases hs₁ <;> simp [Machine.goto] at hpc
    rw [← hpc.1] at h
    cases h
  | _ => simp [hq, Pc.LeadsTo] at hto

/-- The first zone is not removed from before another one. -/
theorem removes_head {root : Nat} {l : List Nat} (h : RootFirst s) (hg : keepsRoot s p = true)
    (hl : s.zoneList = root :: l) (hr : s.Removes p root) : l = [] := by
  have hroot : (s.zones root).id = 0 := h.head root (by rw [hl, List.head?_cons])
  rw [Machine.Removes] at hr
  split at hr
  · next id z hpc =>
    -- a shutdown finds a zone with its id, which is not the first one's
    have hid := (findZone_eq_some hr).2
    have hne := h.stop p _ hpc
    rw [hroot] at hid
    exact absurd hid.symm hne
  · next z isRoot hpc =>
    simp only [keepsRoot, hpc, decide_eq_true_eq] at hg
    have hlen := hg.resolve_left fun hne => hne (by rw [hr, hl, List.head?_cons])
    rw [hl, List.length_cons] at hlen
    exact List.eq_nil_of_length_eq_zero (by omega)
  · exact hr.elim

/-- **What a step preserves.** -/
theorem rootFirst_of_lifeStep (h : RootFirst s) (hg : keepsRoot s p = true)
    (hs : lifeStep s p act = some (s', o)) : RootFirst s' := by
  have heff := effect_of_lifeStep hs
  have hadded : ∀ z c, s.pc p = .start (.add z c) → z < s.nextZone := fun z c hpc =>
    h.built p z [] (by rw [Machine.jobs, hpc]; rfl)
  refine ⟨fun z hz => ?_, fun z hz => ?_, fun q z todo hj => ?_, fun q pc hpc => ?_,
    fun q check call z hpc hpass => ?_⟩
  · -- the head of the list: it stays, is the first zone that is added, or has another one removed
    rcases heff.zoneList with he | ⟨w, c, hpc, he⟩ | ⟨w, hr, he⟩
    · rw [he] at hz
      rw [heff.zones z (h.listed z (List.mem_of_mem_head? hz))]
      exact h.head z hz
    · rw [he] at hz
      cases hl : s.zoneList with
      | nil =>
        rw [hl, List.nil_append, List.head?_cons] at hz
        obtain rfl := Option.some.inj hz
        rw [heff.zones w (hadded w c hpc)]
        simp only [keepsRoot, hpc, decide_eq_true_eq] at hg
        exact hg.resolve_left fun hne => hne hl
      | cons root l =>
        rw [hl, List.cons_append, List.head?_cons, ← List.head?_cons (l := l), ← hl] at hz
        rw [heff.zones z (h.listed z (List.mem_of_mem_head? hz))]
        exact h.head z hz
    · cases hl : s.zoneList with
      | nil =>
        rw [he, hl] at hz
        cases hz
      | cons root l =>
        rw [he, hl] at hz
        by_cases hw : root = w
        · -- the root zone goes last
          subst hw
          rw [List.erase_cons_head, removes_head h hg hl hr] at hz
          cases hz
        · rw [List.erase_cons_tail (by simpa using hw), List.head?_cons] at hz
          obtain rfl := Option.some.inj hz
          rw [heff.zones root (h.listed root (by rw [hl]; exact List.mem_cons_self))]
          exact h.head root (by rw [hl, List.head?_cons])
  · refine Nat.lt_of_lt_of_le ?_ heff.nextZone
    rcases heff.zoneList with he | ⟨w, c, hpc, he⟩ | ⟨w, -, he⟩
    · exact h.listed z (he ▸ hz)
    · rw [he] at hz
      rcases List.mem_append.mp hz with hz | hz
      · exact h.listed z hz
      · obtain rfl := List.mem_singleton.mp hz
        exact hadded z c hpc
    · rw [he] at hz
      exact h.listed z (List.mem_of_mem_erase hz)
  · by_cases hqp : q = p
    · subst hqp
      exact lt_of_built h hs hj
    · rw [Machine.jobs, heff.pc_of_ne hqp] at hj
      exact Nat.lt_of_lt_of_le (h.built q z todo hj) heff.nextZone
  · by_cases hqp : q = p
    · subst hqp
      exact zoneId_ne_zero h hs hpc
    · rw [heff.pc_of_ne hqp] at hpc
      exact h.stop q pc hpc
  · have hold : z < s.nextZone ∧ (s.zones z).id = 0 := by
      by_cases hqp : q = p
      · subst hqp
        rcases passes_of_lifeStep hs hpc hpass with ⟨check', call', hq, hold⟩ | hhead
        · exact h.passed q check' call' z hq hold
        · exact ⟨h.listed z (List.mem_of_mem_head? hhead), h.head z hhead⟩
      · rw [heff.pc_of_ne hqp] at hpc
        exact h.passed q check call z hpc hpass
    exact ⟨Nat.lt_of_lt_of_le hold.1 heff.nextZone, by rw [heff.zones z hold.1, hold.2]⟩

/-! ## Runs -/

theorem rootFirst_of_initial (hi : s.Initial) : RootFirst s := by
  obtain ⟨root, hlist, hlt, hid, -⟩ := hi.list
  refine ⟨fun z hz => ?_, fun z hz => ?_, fun p z todo hj => ?_, fun p pc hpc => ?_,
    fun p check call z hpc => ?_⟩
  · rw [hlist, List.head?_cons] at hz
    obtain rfl := Option.some.inj hz
    exact hid
  · rw [hlist] at hz
    obtain rfl := List.mem_singleton.mp hz
    exact hlt
  · rw [Machine.jobs, hi.pc p] at hj
    cases hj
  · rw [hi.pc p] at hpc
    cases hpc
  · rw [hi.pc p] at hpc
    cases hpc

/-- **Root privilege stays with the zone of id 0**, in a run of which no step removes the first zone
from before another one: a CPU that `is_this_root_zone` holds of has that zone, and so has a caller
that passes the check of a call of the root zone, or has passed it. -/
theorem root_has_id_zero {h : List (Nat × Act × Outcome)}
    (r : (lifecycle.restrict fun s e => keepsRoot s e.1 = true).Run h s) (c : Nat) :
    (s.isThisRootZone c = some true → ∃ z, s.zone c = some z ∧ (s.zones z).id = 0) ∧
      ∀ z call, (s.pc c = .trap (.rootCheck (.list z) call) ∧ s.isRoot z = some true ∨
        s.pc c = .trap (.rootCheck (.done z true) call)) → (s.zones z).id = 0 := by
  have hinv : RootFirst s := by
    refine r.invariant (I := fun _ s => RootFirst s) (fun s hi => rootFirst_of_initial hi) ?_
    rintro _ s ⟨p, act, o⟩ s' - h ⟨hg, hs⟩
    exact rootFirst_of_lifeStep h hg hs
  refine ⟨fun hroot => ?_, fun z call hpc => ?_⟩
  rotate_left
  · rcases hpc with ⟨-, hroot⟩ | hpc
    · exact hinv.head z (head_of_isRoot hroot)
    · exact (hinv.passed c _ call z hpc rfl).2
  obtain ⟨z, hz, hroot⟩ := Option.bind_eq_some_iff.mp hroot
  exact ⟨z, hz, hinv.head z (head_of_isRoot hroot)⟩

/-- CPU 0 starts zone 1 on CPUs 2 and 3, and CPU 2 runs it. -/
theorem root_has_id_zero_start : ∃ h s,
    (lifecycle.restrict fun s e => keepsRoot s e.1 = true).Run h s ∧
      s.isThisRootZone 2 = some false ∧ ∃ z, s.zone 0 = some z ∧ (s.zones z).id = 0 := by
  have hr : ((lifeRun (fun s p _ => keepsRoot s p) (startActs 0 1 [2, 3] ++ wakeActs 2)
      ([], bootMachine)).map fun r => (r.2.isThisRootZone 0, r.2.isThisRootZone 2)) =
        some (some true, some false) := by
    decide +kernel
  obtain ⟨⟨h, s⟩, hrun, he⟩ := Option.map_eq_some_iff.mp hr
  obtain ⟨h0, h2⟩ := Prod.mk.inj he
  have r : (lifecycle.restrict fun s e => keepsRoot s e.1 = true).Run h s :=
    restrict_of_lifeRun (fun _ _ _ _ _ hc => hc) (.start bootMachine_initial) (fun _ _ => rfl) hrun
  exact ⟨h, s, r, h2, (root_has_id_zero r 0).1 h0⟩

/-- After that the root zone powers itself off on CPU 0: until the machine is off, zone 1 is taken
for the root zone. -/
theorem other_zone_is_root : ¬ ∀ h s, lifecycle.Run h s → ∀ c, s.isThisRootZone c = some true →
    ∃ z, s.zone c = some z ∧ (s.zones z).id = 0 := by
  have hr : ((lifeRun (fun _ _ _ => true) (startActs 0 1 [2, 3] ++ wakeActs 2 ++
      (0, .systemOff) :: List.replicate 11 (0, .step)) ([], bootMachine)).map fun r =>
        (r.2.isThisRootZone 2, (r.2.zone 2).map fun z => (r.2.zones z).id)) =
          some (some true, some 1) := by
    decide +kernel
  intro hall
  obtain ⟨⟨h, s⟩, hrun, he⟩ := Option.map_eq_some_iff.mp hr
  obtain ⟨hroot, hid⟩ := Prod.mk.inj he
  obtain ⟨z, hz, hzero⟩ := hall h s (run_of_lifeRun (.start bootMachine_initial) hrun) 2 hroot
  rw [hz, Option.map_some, hzero] at hid
  cases hid

end Hvisor
