import Hvisor.Zone.Overlap

/-!
# Zones that are torn down

A CPU that tears a zone down has found it in the list, or runs it, and takes it from the list at the
end. In between the zone stays listed, so that what the CPU removes is this zone.

## Main definitions

* `TornListed`: each zone that is torn down is listed

## Main results

* `tears_of_removes`: the zone that leaves the list is the one that the CPU tears down
* `listed_of_lifeStep`: what a step preserves
-/

namespace Hvisor

variable {s s' : Machine} {p z : Nat} {act : Act} {o : Outcome}

/-- Each zone that a CPU is about to remove is listed. -/
def TornListed (s : Machine) : Prop := ∀ p z, (s.jobs p).tears = some z → z ∈ s.zoneList

/-- The zone that leaves the list is the one that the CPU tears down. -/
theorem tears_of_removes (ho : Owned s.owners s.jobs) (hl : TornListed s) (hr : s.Removes p z) :
    z ∈ s.zoneList ∧ ∃ id, s.jobs p = .clearing z id [] := by
  unfold Machine.Removes at hr
  split at hr
  · next id z₀ hpc =>
    obtain ⟨hz, hid⟩ := findZone_eq_some hr
    have hj : s.jobs p = .clearing z₀ (some id) [] := by
      rw [Machine.jobs, hpc]
      rfl
    have hok := ho.job p
    rw [hj] at hok
    have hz₀ := hl p z₀ (by rw [hj]; rfl)
    obtain rfl := ho.ids z hz z₀ hz₀ (hid.trans (hok.2.1 id rfl).symm)
    exact ⟨hz, some id, hj⟩
  · next z₀ isRoot hpc =>
    obtain ⟨hz, hid⟩ := findZone_eq_some hr
    have hj : s.jobs p = .clearing z₀ none [] := by
      rw [Machine.jobs, hpc]
      rfl
    have hz₀ := hl p z₀ (by rw [hj]; rfl)
    obtain rfl := ho.ids z hz z₀ hz₀ hid
    exact ⟨hz, none, hj⟩
  · exact hr.elim

/-- A CPU comes to tear down a listed zone that it found, or its own. -/
theorem tears_of_lifeStep (hs : lifeStep s p act = some (s', o))
    (ht : (s'.jobs p).tears = some z) : (s.jobs p).tears = some z ∨ z ∈ s.zoneList ∨
      s.pc p = .lower ∧ act = .systemOff ∧ s.zone p = some z := by
  have hto := (effect_of_lifeStep hs).leadsTo
  rw [Machine.jobs] at ht ⊢
  -- a teardown begins where a shutdown has found its zone or a power-off has read it, and goes on
  -- up to `remove_zone`; no other step comes to one
  cases hpc : s.pc p with
  | lower =>
    have hs₁ := (trapEntry_of_lifeStep hs hpc).1
    cases act with
    | systemOff =>
      simp only [trapEntry, Machine.withThisZone] at hs₁
      split at hs₁
      · split at hs₁ <;> cases hs₁
        · next z' hz' =>
          simp only [Machine.goto, Function.update_self, Pc.job, Job.tears] at ht
          exact .inr (.inr ⟨rfl, rfl, by rw [hz', ht]⟩)
        · simp [Machine.goto, Pc.job, Job.tears] at ht
      · cases hs₁
    | _ =>
      simp only [trapEntry, Machine.withThisZone] at hs₁
      (try split at hs₁) <;> (try split at hs₁) <;> cases hs₁ <;>
        simp [Machine.goto, Pc.job, Job.tears] at ht
  | stop pc =>
    have hh := stopStep_of_lifeStep hs hpc
    cases pc with
    | find id =>
      simp only [stopStep] at hh
      split at hh
      · cases hh
      · cases hh
        simp [Machine.goto, Pc.job, Job.tears] at ht
      · next z' hfind =>
        cases hh
        simp only [Machine.goto, Function.update_self, Pc.job, Job.tears] at ht
        cases ht
        exact .inr (.inl (findZone_eq_some hfind).1)
    | remove id z' =>
      simp only [stopStep] at hh
      split at hh
      · cases hh
      all_goals
        next hr =>
        cases hh
        rcases pc_of_removeZone hr with he | he | ⟨_, he⟩ <;> simp_all [Pc.job, Job.tears]
    | sendLock id z' todo | waitLock id z' todo count | clearLock id z' todo =>
      cases todo <;> simp only [stopStep] at hh <;> (try split at hh) <;> cases hh <;>
        exact .inl (by simpa [Machine.goto, Pc.job, Job.tears] using ht)
    | _ =>
      simp only [stopStep] at hh
      (try split at hh) <;> cases hh <;> simp [Machine.goto, Pc.job, Job.tears] at ht <;>
        exact .inl (by simpa [Pc.job, Job.tears] using ht)
  | off pc =>
    have hh := offStep_of_lifeStep hs hpc
    cases pc with
    | remove z' isRoot =>
      simp only [offStep] at hh
      split at hh
      · cases hh
      · next hr =>
        cases hh
        rcases pc_of_removeZone hr with he | he | ⟨_, he⟩ <;> cases isRoot <;>
          simp [he, Pc.job, Job.tears] at ht
    | lock z' isRoot todo =>
      cases todo <;> simp only [offStep] at hh <;> (try split at hh) <;> cases hh <;>
        exact .inl (by simpa [Machine.goto, Pc.job, Job.tears] using ht)
    | this z' =>
      simp only [offStep] at hh
      split at hh <;> cases hh
      · exact .inl (by simpa [Machine.goto, Pc.job, Job.tears] using ht)
      · simp [Machine.goto, Pc.job, Job.tears] at ht
    | root z' check =>
      rcases offStep_root_cases hh with ⟨_, _, -, rfl⟩ | ⟨_, rfl, -⟩ | rfl
      · exact .inl (by simpa [Machine.goto, Pc.job, Job.tears] using ht)
      · exact .inl (by simpa [Machine.goto, Pc.job, Job.tears] using ht)
      · simp [Machine.goto, Pc.job, Job.tears] at ht
    | _ =>
      simp only [offStep] at hh
      (try split at hh) <;> cases hh
      exact .inl (by simpa [Machine.goto, Pc.job, Job.tears] using ht)
  | event pc =>
    obtain ⟨-, q, hq, hi⟩ := eventStep_idle (eventStep_of_lifeStep hs hpc)
    simp [hq, hi, Job.tears] at ht
  | trap pc =>
    obtain ⟨-, q, hq, hi⟩ := trapStep_idle (trapStep_of_lifeStep hs hpc)
    simp [hq, hi, Job.tears] at ht
  | lookup pc =>
    obtain ⟨-, q, hq, hi⟩ := lookupStep_idle (lookupStep_of_lifeStep hs hpc)
    simp [hq, hi, Job.tears] at ht
  | start pc =>
    rw [hpc] at hto
    cases hpc' : s'.pc p with
    | start t => cases t <;> simp [hpc', Pc.job, Job.tears] at ht
    | stop t | off t => simp [hpc', Pc.LeadsTo] at hto
    | _ => simp [hpc', Pc.job, Job.tears] at ht
  | systemOff | panicked r zones =>
    have hh := handlerStep_of_lifeStep hs (by simp [hpc])
    rw [handlerStep, hpc] at hh
    cases hh

theorem idle_of_removes (hr : s.Removes p z) (hs : lifeStep s p act = some (s', o)) :
    s'.jobs p = .idle := by
  rw [Machine.jobs]
  unfold Machine.Removes at hr
  split at hr
  · next hpc =>
    have hh := stopStep_of_lifeStep hs hpc
    simp only [stopStep] at hh
    split at hh
    · cases hh
    all_goals
      next hrem =>
      cases hh
      rcases pc_of_removeZone hrem with he | he | ⟨_, he⟩ <;> simp_all [Pc.job]
  · next hpc =>
    have hh := offStep_of_lifeStep hs hpc
    simp only [offStep] at hh
    split at hh
    · cases hh
    · next isRoot _ _ _ hrem =>
      cases hh
      rcases pc_of_removeZone hrem with he | he | ⟨_, he⟩ <;> cases isRoot <;> simp [he, Pc.job]
  · exact hr.elim

/-- A zone that is being torn down stays listed until its own removal, when a power-off is called in
a listed zone. -/
theorem listed_of_lifeStep (ho : Owned s.owners s.jobs) (hl : TornListed s)
    (hoff : s.pc p = .lower → act = .systemOff → ∀ z, s.zone p = some z → z ∈ s.zoneList)
    (hs : lifeStep s p act = some (s', o)) : TornListed s' := by
  intro q z ht
  have heff := effect_of_lifeStep hs
  have hold : z ∈ s.zoneList ∧ (q ≠ p → (s.jobs q).tears = some z) := by
    by_cases hqp : q = p
    · subst hqp
      refine ⟨?_, fun hne => absurd rfl hne⟩
      rcases tears_of_lifeStep hs ht with ht | hz | ⟨hpc, hact, hz⟩
      · exact hl q z ht
      · exact hz
      · exact hoff hpc hact z hz
    · rw [Machine.jobs, heff.pc_of_ne hqp] at ht
      exact ⟨hl q z ht, fun _ => ht⟩
  rcases heff.zoneList with he | ⟨z', c, -, he⟩ | ⟨z', hr, he⟩
  · rw [he]
    exact hold.1
  · rw [he]
    exact List.mem_append_left _ hold.1
  · rw [he]
    refine (List.mem_erase_of_ne ?_).mpr hold.1
    rintro rfl
    obtain ⟨-, id, hj⟩ := tears_of_removes ho hl hr
    by_cases hqp : q = p
    · -- the CPU that removes the zone is done with it
      subst hqp
      rw [idle_of_removes hr hs] at ht
      cases ht
    · exact ho.apart.sameZone p q z (Ne.symm hqp) (by rw [hj]; rfl) (hold.2 hqp)

end Hvisor
