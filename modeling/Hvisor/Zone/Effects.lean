import Hvisor.Zone.Lifecycle

/-!
# What a step changes

The frame of the steps of the zone machine. A step of a CPU changes its own place alone, and the
zone, the page tables, the power state, the wake-ups and the lock of a CPU only at few places of the
handlers.

## Main definitions

* `Pc.locks`, `Pc.takes`, `Pc.gives`, `Pc.wakes`: the places that matter
* `Effect`: what a step may change

## Main results

* `effect_of_lifeStep`: a step changes nothing else
* `removeZone_cases`, `findZone_eq_some`, `findZone_eq_none`: the operations on the list of zones
* `ctrlLock_exclusive`: `ctrl_lock` is held by one CPU at a time
-/

namespace Hvisor

variable {s s' : Machine} {p c z id : Nat} {act : Act} {o : Outcome}

/-! ## The list of zones -/

theorem findIn_eq_none {l : List Nat} (h : s.findIn id l = some none) :
    ∀ z ∈ l, (s.zones z).id ≠ id := by
  induction l with
  | nil => simp
  | cons z l ih =>
    rw [Machine.findIn] at h
    split at h
    · cases h
    · split at h
      · cases h
      · next hid =>
        intro z' hz'
        rcases List.mem_cons.mp hz' with rfl | hz'
        · exact hid
        · exact ih h z' hz'

theorem findIn_eq_some {l : List Nat} (h : s.findIn id l = some (some z)) :
    z ∈ l ∧ (s.zones z).id = id := by
  induction l with
  | nil => simp [Machine.findIn] at h
  | cons z' l ih =>
    rw [Machine.findIn] at h
    split_ifs at h with hw hid
    · cases h
      exact ⟨List.mem_cons_self, hid⟩
    · exact ⟨List.mem_cons_of_mem _ (ih h).1, (ih h).2⟩

theorem findZone_eq_none (h : s.findZone id = some none) :
    ∀ z ∈ s.zoneList, (s.zones z).id ≠ id := by
  unfold Machine.findZone at h
  split_ifs at h
  exact findIn_eq_none h

theorem findZone_eq_some (h : s.findZone id = some (some z)) :
    z ∈ s.zoneList ∧ (s.zones z).id = id := by
  unfold Machine.findZone at h
  split_ifs at h
  exact findIn_eq_some h

/-- A zone is referred to from nowhere. -/
theorem strongCount_eq_zero : s.strongCount z = 0 ↔ z ∉ s.zoneList ∧
    ∀ c ≤ s.ncpu, s.zone c ≠ some z ∧ z ∉ (s.pc c).held := by
  simp only [Machine.strongCount, Nat.add_eq_zero_iff, List.count_eq_zero, List.countP_eq_zero,
    List.sum_eq_zero_iff_forall_eq_nat, List.forall_mem_map, List.mem_range, Nat.lt_succ_iff,
    decide_eq_true_eq, and_assoc, ← forall₂_and]

/-- `remove_zone` finds no zone and panics, or finds one, which leaves the list, and panics if the
zone is still referred to. -/
theorem removeZone_cases {next : Pc} {r : Option Nat}
    (hs : s.removeZone p id next = some (s', r)) :
    (r = none ∧ s.findZone id = some none ∧
      s' = { s with zoneListLock := some p }.goto p (.panicked .notListed [])) ∨
    ∃ z, s.findZone id = some (some z) ∧
      (r = some z ∧ s' = { s with zoneList := s.zoneList.erase z }.goto p next ∨
        r = none ∧
          s' = { s with zoneList := s.zoneList.erase z, zoneListLock := some p }.goto p
            (.panicked .strongCount [z]) ∧
          ({ s with zoneList := s.zoneList.erase z }.goto p next).strongCount z ≠ 0) := by
  unfold Machine.removeZone at hs
  split at hs
  · cases hs
  · next hfind =>
    cases hs
    exact .inl ⟨rfl, hfind, rfl⟩
  · next z hfind =>
    refine .inr ⟨z, hfind, ?_⟩
    dsimp only at hs
    split at hs
    · cases hs
      exact .inl ⟨rfl, rfl⟩
    · next hcount =>
      cases hs
      exact .inr ⟨rfl, by simp [Machine.goto], hcount⟩

/-- Where `remove_zone` leads. -/
theorem pc_of_removeZone {next : Pc} {r : Option Nat}
    (hs : s.removeZone p id next = some (s', r)) :
    s'.pc p = next ∨ s'.pc p = .panicked .notListed [] ∨
      ∃ z, s'.pc p = .panicked .strongCount [z] := by
  rcases removeZone_cases hs with ⟨-, -, rfl⟩ | ⟨z, -, ⟨-, rfl⟩ | ⟨-, rfl, -⟩⟩
  · exact .inr (.inl (Function.update_self _ _ _))
  · exact .inl (Function.update_self _ _ _)
  · exact .inr (.inr ⟨z, Function.update_self _ _ _⟩)

/-- `is_this_root_zone` clones the first zone, if there is one, or compares the two. -/
theorem rootCheckStep_cases {next : RootCheckPc → Pc} {zones : List Nat} {check : RootCheckPc}
    (hs : rootCheckStep s p next zones check = some s') :
    (∃ z root, check = .list z ∧ s.zoneList.head? = some root ∧
      s' = s.goto p (next (.drop z root))) ∨
    (∃ z, check = .list z ∧ s.zoneList.head? = none ∧
      s' = s.goto p (.panicked .noRoot (z :: zones))) ∨
    ∃ z root, check = .drop z root ∧ s' = s.goto p (next (.done z (root == z))) := by
  cases check with
  | list z =>
    simp only [rootCheckStep, Machine.rootZone] at hs
    split at hs
    · next root hroot =>
      cases hs
      split_ifs at hroot
      exact .inl ⟨z, root, rfl, Option.some.inj hroot, rfl⟩
    · next hroot =>
      cases hs
      split_ifs at hroot
      exact .inr (.inl ⟨z, rfl, Option.some.inj hroot, rfl⟩)
    · cases hs
  | drop z root =>
    cases hs
    exact .inr (.inr ⟨z, root, rfl, rfl⟩)
  | done z isRoot => cases hs

/-- A step of `is_this_root_zone` only moves the CPU: on in it, or to a panic. -/
theorem goto_of_rootCheckStep {next : RootCheckPc → Pc} {zones : List Nat} {check : RootCheckPc}
    (hs : rootCheckStep s p next zones check = some s') :
    ∃ q, s' = s.goto p q ∧
      ((∃ check', q = next check' ∧ check'.this = check.this) ∨
        q = .panicked .noRoot (check.this :: zones)) := by
  rcases rootCheckStep_cases hs with ⟨z, root, rfl, -, rfl⟩ | ⟨z, rfl, -, rfl⟩ |
    ⟨z, root, rfl, rfl⟩
  · exact ⟨_, rfl, .inl ⟨_, rfl, rfl⟩⟩
  · exact ⟨_, rfl, .inr rfl⟩
  · exact ⟨_, rfl, .inl ⟨_, rfl, rfl⟩⟩

/-- Where the check of the root zone leads. -/
theorem pc_of_rootCheck {check : RootCheckPc} {call : RootCall}
    (hs : trapStep s p (.rootCheck check call) = some (s', o)) :
    (∃ z, check = .done z true ∧ s'.pc p = call.enter.1) ∨ s'.pc p = .lower ∨
      (∃ check', s'.pc p = .trap (.rootCheck check' call) ∧ check'.this = check.this) ∨
      s'.pc p = .panicked .noRoot [check.this] := by
  by_cases hdone : ∃ z isRoot, check = .done z isRoot
  · obtain ⟨z, isRoot, rfl⟩ := hdone
    cases isRoot <;> cases hs <;> simp [Machine.goto]
  · obtain ⟨s₁, hs₁, he⟩ : ∃ s₁, rootCheckStep s p (fun check => .trap (.rootCheck check call)) []
        check = some s₁ ∧ (s₁, Outcome.tau) = (s', o) := by
      cases check with
      | done z isRoot => exact absurd ⟨z, isRoot, rfl⟩ hdone
      | _ => exact Option.map_eq_some_iff.mp hs
    cases he
    obtain ⟨q, rfl, ⟨check', rfl, hthis⟩ | rfl⟩ := goto_of_rootCheckStep hs₁
    · exact .inr (.inr (.inl ⟨check', Function.update_self _ _ _, hthis⟩))
    · exact .inr (.inr (.inr (Function.update_self _ _ _)))

/-- Where the check of a power-off leads. -/
theorem offStep_root_cases {check : RootCheckPc}
    (hs : offStep s p (.root z check) = some (s', o)) :
    (∃ z' isRoot, check = .done z' isRoot ∧ s' = s.goto p (.off (.enter z isRoot))) ∨
      (∃ check', s' = s.goto p (.off (.root z check')) ∧ check'.this = check.this) ∨
      s' = s.goto p (.panicked .noRoot [check.this, z]) := by
  by_cases hdone : ∃ z' isRoot, check = .done z' isRoot
  · obtain ⟨z', isRoot, rfl⟩ := hdone
    cases hs
    exact .inl ⟨z', isRoot, rfl, rfl⟩
  · obtain ⟨s₁, hs₁, he⟩ : ∃ s₁, rootCheckStep s p (fun check => .off (.root z check)) [z]
        check = some s₁ ∧ (s₁, Outcome.tau) = (s', o) := by
      cases check with
      | done z' isRoot => exact absurd ⟨z', isRoot, rfl⟩ hdone
      | _ => exact Option.map_eq_some_iff.mp hs
    cases he
    obtain ⟨q, rfl, ⟨check', rfl, hthis⟩ | rfl⟩ := goto_of_rootCheckStep hs₁
    · exact .inr (.inl ⟨check', rfl, hthis⟩)
    · exact .inr (.inr rfl)

/-! ## Places -/

namespace Pc

/-- The CPU whose `ctrl_lock` CPU `p` holds. -/
def locks (p : Nat) : Pc → Option Nat
  | .event .poweringOff => some p
  | .trap (.cpuOn c _) | .trap (.cpuOnSend c) => some c
  | .start (.wake _ c) | .start (.add _ c) => some c
  | .stop (.entry _ _ c _) | .stop (.send _ _ c _) | .stop (.wait _ _ c _ _)
  | .stop (.clear _ _ c _) => some c
  | .off (.clear _ _ c _) => some c
  | _ => none

/-- The CPU that loses its zone in the next step of CPU `p`. -/
def takes (p : Nat) : Pc → Option Nat
  | .stop (.clear _ _ c _) | .off (.clear _ _ c _) => some c
  | .off (.self _ _) => some p
  | _ => none

/-- The CPU that gets a zone in the next step, and the zone. -/
def gives : Pc → Option (Nat × Nat)
  | .start (.assign _ z (c :: _)) => some (c, z)
  | _ => none

/-- The CPU that a wake-up is sent to in the next step. -/
def wakes : Pc → Option Nat
  | .trap (.cpuOnSend c) | .start (.wake _ c) => some c
  | _ => none

/-- Where a step leads: on in the handler, back to the guest, to a panic or to another handler. -/
def LeadsTo : Pc → Pc → Prop
  | _, .lower | _, .panicked _ _ => True
  | .event _, .event _ | .trap _, .trap _ | .start _, .start _ | .stop _, .stop _ | .off _, .off _
  | .lookup _, .lookup _ => True
  | .lower, .event .check | .lower, .trap _ | .lower, .off (.read _) => True
  | .trap (.rootCheck _ _), .start (.find _) | .trap (.rootCheck _ _), .stop (.irqs _)
  | .trap (.rootCheck _ _), .lookup (.injectLock _) | .trap (.rootCheck _ _), .lookup (.signal _) =>
    True
  | .off (.remove _ _), .event .idling | .off (.remove _ _), .systemOff => True
  | _, _ => False

end Pc

/-- The next step of CPU `p` takes the zone from the list. -/
def Machine.Removes (s : Machine) (p z : Nat) : Prop :=
  match s.pc p with
  | .stop (.remove id _) => s.findZone id = some (some z)
  | .off (.remove z' _) => s.findZone (s.zones z').id = some (some z)
  | _ => False

/-- What a step of CPU `p` may change. -/
structure Effect (s : Machine) (p : Nat) (s' : Machine) : Prop where
  ncpu : s'.ncpu = s.ncpu
  pc : ∃ q, s'.pc = Function.update s.pc p q ∧ (s.pc p).LeadsTo q
  nextZone : s.nextZone ≤ s'.nextZone
  zones : ∀ z < s.nextZone, s'.zones z = s.zones z
  zone : ∀ c, s'.zone c = s.zone c ∨ (s.pc p).takes p = some c ∧ s'.zone c = none ∨
    ∃ z, (s.pc p).gives = some (c, z) ∧ s'.zone c = some z
  stage2 : ∀ c, s'.stage2 c = s.stage2 c ∨ c = p ∧ (s.pc p = .event .parking ∧ s'.stage2 c = none ∨
    ∃ z, s.pc p = .event (.activating z) ∧ s'.stage2 c = some z)
  powerOn : ∀ c, s'.powerOn c = s.powerOn c ∨ s'.powerOn c = true ∨
    c = p ∧ s.pc p = .event .poweringOff
  wakeup : ∀ c, .WAKEUP ∈ s'.events c → .WAKEUP ∈ s.events c ∨ (s.pc p).wakes = some c
  unlock : ∀ c, s'.ctrlLock c = s.ctrlLock c ∨ s.ctrlLock c = none ∨ (s.pc p).locks p = some c
  lock : ∀ c, (s'.pc p).locks p = some c → s'.ctrlLock c = some p ∨
    (s.pc p).locks p = some c ∧ s'.ctrlLock c = s.ctrlLock c
  zoneList : s'.zoneList = s.zoneList ∨
    (∃ z c, s.pc p = .start (.add z c) ∧ s'.zoneList = s.zoneList ++ [z]) ∨
    ∃ z, s.Removes p z ∧ s'.zoneList = s.zoneList.erase z

/-- A step that goes to another place without a lock, and may change data that does not matter
here. -/
theorem effect_of_goto {q : Pc} (hncpu : s'.ncpu = s.ncpu)
    (hpc : s'.pc = Function.update s.pc p q) (hn : s'.nextZone = s.nextZone)
    (hzs : s'.zones = s.zones) (hz : s'.zone = s.zone) (hst : s'.stage2 = s.stage2)
    (hp : s'.powerOn = s.powerOn) (he : ∀ c, .WAKEUP ∈ s'.events c → .WAKEUP ∈ s.events c)
    (hl : s'.ctrlLock = s.ctrlLock) (hq : q.locks p = none) (hto : (s.pc p).LeadsTo q)
    (hlist : s'.zoneList = s.zoneList ∨ ∃ z, s.Removes p z ∧ s'.zoneList = s.zoneList.erase z) :
    Effect s p s' := by
  refine ⟨hncpu, ⟨q, hpc, hto⟩, Nat.le_of_eq hn.symm, ?_, ?_, ?_, ?_, ?_, ?_, ?_, ?_⟩
  · intro z _
    rw [hzs]
  · intro c
    exact .inl (by rw [hz])
  · intro c
    exact .inl (by rw [hst])
  · intro c
    exact .inl (by rw [hp])
  · intro c hc
    exact .inl (he c hc)
  · intro c
    exact .inl (by rw [hl])
  · intro c hc
    rw [hpc, Function.update_self, hq] at hc
    cases hc
  · exact hlist.imp_right .inr

theorem effect_of_removeZone {next : Pc} {r : Option Nat} (hn : next.locks p = none)
    (hto : (s.pc p).LeadsTo next) (hr : ∀ z, s.findZone id = some (some z) → s.Removes p z)
    (hs : s.removeZone p id next = some (s', r)) : Effect s p s' := by
  rcases removeZone_cases hs with ⟨-, -, rfl⟩ | ⟨z, hz, ⟨-, rfl⟩ | ⟨-, rfl, -⟩⟩
  · exact effect_of_goto rfl rfl rfl rfl rfl rfl rfl (fun _ h => h) rfl rfl trivial (.inl rfl)
  · exact effect_of_goto rfl rfl rfl rfl rfl rfl rfl (fun _ h => h) rfl hn hto
      (.inr ⟨z, hr z hz, rfl⟩)
  · exact effect_of_goto rfl rfl rfl rfl rfl rfl rfl (fun _ h => h) rfl rfl trivial
      (.inr ⟨z, hr z hz, rfl⟩)

/-! ## Steps of the handlers -/

theorem locks_enter (call : RootCall) : (call.enter.1).locks p = none := by
  cases call with
  | start config sizeOk => cases sizeOk <;> rfl
  | shutdown zoneId =>
    rw [RootCall.enter]
    split <;> rfl
  | _ => rfl

theorem leadsTo_enter (check : RootCheckPc) (call : RootCall) :
    (Pc.trap (.rootCheck check call)).LeadsTo call.enter.1 := by
  cases call with
  | start config sizeOk => cases sizeOk <;> trivial
  | shutdown zoneId =>
    rw [RootCall.enter]
    split <;> trivial
  | _ => trivial

section

attribute [local simp] Machine.goto Machine.lockCtrl Machine.unlockCtrl Machine.send
  Machine.setZone Function.update_apply Pc.locks Pc.takes Pc.gives Pc.wakes Pc.LeadsTo addEvent

theorem effect_of_eventStep {pc : EventPc} (hpc : s.pc p = .event pc)
    (hs : eventStep s p pc = some (s', o)) : Effect s p s' := by
  cases pc with
  | check =>
    simp only [eventStep] at hs
    have hsub : ∀ c, .WAKEUP ∈ (fetchEvent s.events p).2 c → .WAKEUP ∈ s.events c := fun _ =>
      mem_of_fetchEvent rfl
    split at hs <;> cases hs <;>
      exact effect_of_goto rfl rfl rfl rfl rfl rfl rfl hsub rfl rfl
        (by rw [hpc]; trivial) (.inl rfl)
  | cloning | resetting | irqsLock | irqs =>
    simp only [eventStep] at hs
    (try split at hs) <;> cases hs <;>
      exact effect_of_goto rfl rfl rfl rfl rfl rfl rfl (fun _ h => h) rfl rfl
        (by rw [hpc]; trivial) (.inl rfl)
  | activating z | starting | idling | poweringOff | parking =>
    simp only [eventStep] at hs
    (try split at hs) <;> cases hs
    all_goals refine ⟨rfl, ⟨_, rfl, ?_⟩, Nat.le_refl _, fun _ _ => rfl, ?_, ?_, ?_, ?_, ?_, ?_, ?_⟩
    all_goals simp [hpc]
    all_goals grind

/-- A step that only moves the CPU, to a place without a lock. -/
theorem effect_of_move {q : Pc} (hs : s' = s.goto p q) (hq : q.locks p = none)
    (hto : (s.pc p).LeadsTo q) : Effect s p s' := by
  subst hs
  exact effect_of_goto rfl rfl rfl rfl rfl rfl rfl (fun _ h => h) rfl hq hto (.inl rfl)

theorem effect_of_rootCheckStep {next : RootCheckPc → Pc} {zones : List Nat} {check : RootCheckPc}
    (hs : rootCheckStep s p next zones check = some s')
    (hq : ∀ check', (next check').locks p = none)
    (hto : ∀ check', (s.pc p).LeadsTo (next check')) : Effect s p s' := by
  obtain ⟨q, hmove, ⟨check', rfl, -⟩ | rfl⟩ := goto_of_rootCheckStep hs
  · exact effect_of_move hmove (hq check') (hto check')
  · exact effect_of_move hmove rfl trivial

theorem effect_of_trapStep {pc : TrapPc} (hpc : s.pc p = .trap pc)
    (hs : trapStep s p pc = some (s', o)) : Effect s p s' := by
  revert hs hpc
  fun_cases trapStep s p pc <;> intro hpc hs
  all_goals try
    obtain ⟨s₁, hs₁, he⟩ := Option.map_eq_some_iff.mp hs
    cases he
    exact effect_of_rootCheckStep hs₁ (fun _ => rfl) fun _ => by rw [hpc]; trivial
  all_goals cases hs
  case case17.refl c uses =>
    refine effect_of_goto rfl rfl rfl rfl rfl rfl rfl (fun _ h => ?_) rfl rfl
      (by rw [hpc]; trivial) (.inl rfl)
    simp at h
    grind
  case case23.refl z call =>
    exact effect_of_move rfl (locks_enter call) (by rw [hpc]; exact leadsTo_enter _ call)
  case case18.refl | case20.refl | case21.refl | case22.refl =>
    refine ⟨rfl, ⟨_, rfl, ?_⟩, Nat.le_refl _, fun _ _ => rfl, ?_, ?_, ?_, ?_, ?_, ?_, ?_⟩
    all_goals simp [hpc]
    all_goals grind
  all_goals exact effect_of_move rfl rfl (by rw [hpc]; trivial)

theorem effect_of_startStep {pc : StartPc} (hpc : s.pc p = .start pc)
    (hs : startStep s p pc = some (s', o)) : Effect s p s' := by
  revert hs hpc
  fun_cases startStep s p pc <;> intro hpc hs <;> cases hs
  all_goals refine ⟨rfl, ⟨_, rfl, ?_⟩, ?_, ?_, ?_, ?_, ?_, ?_, ?_, ?_, ?_⟩
  all_goals simp [hpc]
  all_goals grind

theorem effect_of_stopStep {pc : StopPc} (hpc : s.pc p = .stop pc)
    (hs : stopStep s p pc = some (s', o)) : Effect s p s' := by
  by_cases hrem : ∃ id z, pc = .remove id z
  · obtain ⟨id, z, rfl⟩ := hrem
    have hrm : ∀ z', s.findZone id = some (some z') → s.Removes p z' := by
      intro z' hz'
      rwa [Machine.Removes, hpc]
    simp only [stopStep] at hs
    split at hs
    · cases hs
    · next hr =>
      cases hs
      obtain ⟨h₁, h₂, h₃, h₄, h₅, h₆, h₇, h₈, h₉, h₁₀, h₁₁⟩ :=
        effect_of_removeZone rfl (by rw [hpc]; trivial) hrm hr
      exact ⟨h₁, h₂, h₃, h₄, h₅, h₆, h₇, h₈, h₉, h₁₀, h₁₁⟩
    · next hr =>
      cases hs
      exact effect_of_removeZone rfl (by rw [hpc]; trivial) hrm hr
  · revert hs hpc hrem
    fun_cases stopStep s p pc <;> intro hpc hs hrem <;> (try cases hs)
    all_goals try exact absurd ⟨_, _, rfl⟩ hrem
    all_goals refine ⟨rfl, ⟨_, rfl, ?_⟩, Nat.le_refl _, fun _ _ => rfl, ?_, ?_, ?_, ?_, ?_, ?_, ?_⟩
    all_goals simp [hpc]
    all_goals grind

theorem effect_of_offStep {pc : OffPc} (hpc : s.pc p = .off pc)
    (hs : offStep s p pc = some (s', o)) : Effect s p s' := by
  by_cases hrem : ∃ z isRoot, pc = .remove z isRoot
  · obtain ⟨z, isRoot, rfl⟩ := hrem
    simp only [offStep] at hs
    split at hs
    · cases hs
    · next hr =>
      cases hs
      refine effect_of_removeZone (by cases isRoot <;> rfl)
        (by rw [hpc]; cases isRoot <;> trivial) ?_ hr
      intro z' hz'
      rwa [Machine.Removes, hpc]
  · revert hs hpc hrem
    fun_cases offStep s p pc <;> intro hpc hs hrem
    all_goals try
      obtain ⟨s₁, hs₁, he⟩ := Option.map_eq_some_iff.mp hs
      cases he
      exact effect_of_rootCheckStep hs₁ (fun _ => rfl) fun _ => by rw [hpc]; trivial
    all_goals try cases hs
    all_goals try exact absurd ⟨_, _, rfl⟩ hrem
    all_goals refine ⟨rfl, ⟨_, rfl, ?_⟩, Nat.le_refl _, fun _ _ => rfl, ?_, ?_, ?_, ?_, ?_, ?_, ?_⟩
    all_goals simp [hpc]
    all_goals grind

theorem effect_of_lookupStep {pc : LookupPc} (hpc : s.pc p = .lookup pc)
    (hs : lookupStep s p pc = some (s', o)) : Effect s p s' := by
  revert hs hpc
  fun_cases lookupStep s p pc <;> intro hpc hs <;> cases hs
  all_goals refine ⟨rfl, ⟨_, rfl, ?_⟩, Nat.le_refl _, fun _ _ => rfl, ?_, ?_, ?_, ?_, ?_, ?_, ?_⟩
  all_goals simp [hpc]
  all_goals grind

end

theorem effect_of_trapEntry (hpc : s.pc p = .lower) (hs : trapEntry s p act = some s') :
    Effect s p s' := by
  cases act with
  | step => cases hs
  | irq =>
    cases hs
    exact effect_of_goto rfl rfl rfl rfl rfl rfl rfl (fun _ h => h) rfl rfl
      (by rw [hpc]; trivial) (.inl rfl)
  | trap uses | cpuOn target entry =>
    simp only [trapEntry] at hs
    split at hs <;> cases hs
    exact effect_of_goto rfl rfl rfl rfl rfl rfl rfl (fun _ h => h) rfl rfl
      (by rw [hpc]; trivial) (.inl rfl)
  | hvc call | systemOff =>
    simp only [trapEntry, Machine.withThisZone] at hs
    split at hs
    · split at hs <;> cases hs <;>
        exact effect_of_goto rfl rfl rfl rfl rfl rfl rfl (fun _ h => h) rfl rfl
          (by rw [hpc]; trivial) (.inl rfl)
    · cases hs

/-- **The frame of a step**: whatever a CPU does, it changes no more than `Effect` says. -/
theorem effect_of_lifeStep (hs : lifeStep s p act = some (s', o)) : Effect s p s' := by
  unfold lifeStep at hs
  split at hs
  · split at hs
    · next hpc =>
      obtain ⟨s₁, hs₁, he⟩ := Option.map_eq_some_iff.mp hs
      cases he
      exact effect_of_trapEntry hpc hs₁
    · split at hs
      · unfold handlerStep at hs
        split at hs
        · next hpc => exact effect_of_eventStep hpc hs
        · next hpc => exact effect_of_trapStep hpc hs
        · next hpc => exact effect_of_startStep hpc hs
        · next hpc => exact effect_of_stopStep hpc hs
        · next hpc => exact effect_of_offStep hpc hs
        · next hpc => exact effect_of_lookupStep hpc hs
        all_goals cases hs
      · cases hs
  · cases hs

namespace Effect

/-- No other CPU is moved. -/
theorem pc_of_ne (h : Effect s p s') (hc : c ≠ p) : s'.pc c = s.pc c := by
  obtain ⟨q, hq, -⟩ := h.pc
  rw [hq, Function.update_of_ne hc]

/-- Where the CPU goes. -/
theorem leadsTo (h : Effect s p s') : (s.pc p).LeadsTo (s'.pc p) := by
  obtain ⟨q, hq, hto⟩ := h.pc
  rwa [hq, Function.update_self]

/-- The page tables of another CPU stay. -/
theorem stage2_of_ne (h : Effect s p s') (hc : c ≠ p) : s'.stage2 c = s.stage2 c := by
  rcases h.stage2 c with he | ⟨he, -⟩
  · exact he
  · exact absurd he hc

end Effect

/-! ## The handler of a step -/

theorem handlerStep_of_lifeStep (hs : lifeStep s p act = some (s', o)) (hpc : s.pc p ≠ .lower) :
    handlerStep s p = some (s', o) := by
  unfold lifeStep at hs
  split at hs
  · split at hs
    · next h => exact absurd h hpc
    · split at hs
      · exact hs
      · cases hs
  · cases hs

theorem trapEntry_of_lifeStep (hs : lifeStep s p act = some (s', o)) (hpc : s.pc p = .lower) :
    trapEntry s p act = some s' ∧ o = .tau := by
  unfold lifeStep at hs
  rw [hpc] at hs
  simp only at hs
  split at hs
  · obtain ⟨s₁, hs₁, he⟩ := Option.map_eq_some_iff.mp hs
    cases he
    exact ⟨hs₁, rfl⟩
  · cases hs

theorem eventStep_of_lifeStep {pc : EventPc} (hs : lifeStep s p act = some (s', o))
    (hpc : s.pc p = .event pc) : eventStep s p pc = some (s', o) := by
  have hh := handlerStep_of_lifeStep hs (by simp [hpc])
  rwa [handlerStep, hpc] at hh

theorem trapStep_of_lifeStep {pc : TrapPc} (hs : lifeStep s p act = some (s', o))
    (hpc : s.pc p = .trap pc) : trapStep s p pc = some (s', o) := by
  have hh := handlerStep_of_lifeStep hs (by simp [hpc])
  rwa [handlerStep, hpc] at hh

theorem startStep_of_lifeStep {pc : StartPc} (hs : lifeStep s p act = some (s', o))
    (hpc : s.pc p = .start pc) : startStep s p pc = some (s', o) := by
  have hh := handlerStep_of_lifeStep hs (by simp [hpc])
  rwa [handlerStep, hpc] at hh

theorem stopStep_of_lifeStep {pc : StopPc} (hs : lifeStep s p act = some (s', o))
    (hpc : s.pc p = .stop pc) : stopStep s p pc = some (s', o) := by
  have hh := handlerStep_of_lifeStep hs (by simp [hpc])
  rwa [handlerStep, hpc] at hh

theorem offStep_of_lifeStep {pc : OffPc} (hs : lifeStep s p act = some (s', o))
    (hpc : s.pc p = .off pc) : offStep s p pc = some (s', o) := by
  have hh := handlerStep_of_lifeStep hs (by simp [hpc])
  rwa [handlerStep, hpc] at hh

theorem lookupStep_of_lifeStep {pc : LookupPc} (hs : lifeStep s p act = some (s', o))
    (hpc : s.pc p = .lookup pc) : lookupStep s p pc = some (s', o) := by
  have hh := handlerStep_of_lifeStep hs (by simp [hpc])
  rwa [handlerStep, hpc] at hh

/-! ## The lock of a CPU -/

/-- A CPU at a place where it holds a `ctrl_lock` is the holder. -/
def Locked (s : Machine) : Prop := ∀ p c, (s.pc p).locks p = some c → s.ctrlLock c = some p

theorem locked_of_effect (hl : Locked s) (h : Effect s p s') : Locked s' := by
  intro q c hq
  by_cases hqp : q = p
  · subst hqp
    rcases h.lock c hq with he | ⟨hold, he⟩
    · exact he
    · rw [he]
      exact hl q c hold
  · -- the lock of another CPU is not free, and not the one that `p` gives back
    rw [h.pc_of_ne hqp] at hq
    have hold := hl q c hq
    rcases h.unlock c with he | he | he
    · rwa [he]
    · simp [he] at hold
    · rw [hl p c he] at hold
      exact absurd (Option.some.inj hold).symm hqp

theorem locked_of_run {h : List (Nat × Act × Outcome)} (r : lifecycle.Run h s) : Locked s := by
  refine r.invariant (I := fun _ s => Locked s) ?_ ?_
  · intro s hi p c hp
    rw [hi.pc p] at hp
    cases hp
  · rintro _ s ⟨p, act, o⟩ s' _ hl hs
    exact locked_of_effect hl (effect_of_lifeStep hs)

/-- **`ctrl_lock` excludes**: two CPUs at places with the lock of one CPU are the same. -/
theorem ctrlLock_exclusive {h : List (Nat × Act × Outcome)} {q : Nat} (r : lifecycle.Run h s)
    (hp : (s.pc p).locks p = some c) (hq : (s.pc q).locks q = some c) : p = q := by
  have hl := locked_of_run r
  exact Option.some.inj ((hl p c hp).symm.trans (hl q c hq))

/-! ## Guarded runs -/

theorem lt_of_lifeStep (hs : lifeStep s p act = some (s', o)) : p < s.ncpu := by
  unfold lifeStep at hs
  split at hs
  · assumption
  · cases hs

/-- A run of given steps meets a guard that follows from their check; CPUs that do not exist are at
no place. -/
theorem restrict_of_lifeRun {G : Machine → Nat × Act × Outcome → Prop}
    {check : Machine → Nat → Act → Bool}
    (hcheck : ∀ s p act o, (∀ c, s.ncpu ≤ c → s.pc c = .lower) → check s p act = true →
      G s (p, act, o))
    {acts : List (Nat × Act)} {h h' : List (Nat × Act × Outcome)}
    (r : (lifecycle.restrict G).Run h s) (hout : ∀ c, s.ncpu ≤ c → s.pc c = .lower)
    (hr : lifeRun check acts (h, s) = some (h', s')) : (lifecycle.restrict G).Run h' s' := by
  induction acts generalizing h s with
  | nil =>
    cases hr
    exact r
  | cons a acts ih =>
    obtain ⟨p, act⟩ := a
    rw [lifeRun] at hr
    split at hr
    · next hc =>
      split at hr
      · next s₁ o hs =>
        have heff := effect_of_lifeStep hs
        refine ih (.next (e := (p, act, o)) r ⟨hcheck s p act o hout hc, hs⟩) ?_ hr
        intro c hcpu
        rw [heff.ncpu] at hcpu
        rw [heff.pc_of_ne (Nat.ne_of_gt (Nat.lt_of_lt_of_le (lt_of_lifeStep hs) hcpu))]
        exact hout c hcpu
      · cases hr
    · cases hr

end Hvisor
