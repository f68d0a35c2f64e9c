import Hvisor.Boot.Order
import Hvisor.Lib.Progress
import Mathlib.Algebra.Group.Nat.Defs
import Mathlib.Algebra.Order.BigOperators.Group.Finset
import Mathlib.Data.Finset.Max

/-!
# Booting comes to an end

A CPU only goes forward, so a boot takes a bounded number of steps. As long as some CPU does not run
its zone, one that is furthest behind can go on, or else the primary, for whom it waits.

## Main definitions

* `BootPc.rank`, `Board.rank`: how far a CPU is, and how far all of them are

## Main results

* `BootInv.rank_lt`: a step takes the boot forward
* `BootInv.live`: some CPU can go on
* `boot_terminates`: every boot comes to an end, with all CPUs running their zones
-/

namespace Hvisor

open Function Rendezvous

variable {b : Board} {s s' : BootState} {p : Nat}

/-- How far a CPU is, with the rounds of the wake-up loop counted. -/
def BootPc.rank (b : Board) : BootPc → Nat
  | .wake k => 5 + k
  | q => if q.stage ≤ 4 then q.stage else b.ncpu + q.stage

/-- How far all CPUs are. -/
def Board.rank (b : Board) (s : BootState) : Nat := ∑ c ∈ b.cpus, (s.pc c).rank b

/-! ## Going forward -/

/-- A CPU may start another one. -/
def BootState.Started (s s' : BootState) (p : Nat) : Prop :=
  ∀ c, c ≠ p → s'.pc c = s.pc c ∨ s.pc c = .off ∧ s'.pc c = .archEntry

theorem BootState.started_goto {t : BootState} {q : BootPc} (h : t.pc = s.pc) :
    s.Started (t.goto p q) p := fun c hc => .inl (by simp [BootState.goto, hc, h])

/-- **A step takes its CPU forward**, and starts at most CPUs that are off. -/
theorem bootStep_forward (h : BootInv b s) (hs : bootStep b s p = some s') :
    (s.pc p).rank b < (s'.pc p).rank b ∧ s.Started s' p := by
  have hallowed := h.allowed p
  rw [bootStep] at hs
  cases hpc : s.pc p with
  | off => simp [hpc] at hs
  | runVm primary => simp [hpc] at hs
  | panicked => simp [hpc] at hs
  | archEntry =>
    simp only [hpc, Option.some.injEq] at hs
    subst hs
    refine ⟨by simp [BootState.goto, BootPc.rank, BootPc.stage], BootState.started_goto ?_⟩
    split_ifs <;> rfl
  | loadMaster =>
    simp only [hpc, Option.some.injEq] at hs
    subst hs
    refine ⟨?_, BootState.started_goto rfl⟩
    simp only [BootState.goto, update_self]
    split_ifs <;> simp [BootPc.rank, BootPc.stage]
  | storeMaster =>
    simp only [hpc, Option.some.injEq] at hs
    subst hs
    exact ⟨by simp [BootState.goto, BootPc.rank, BootPc.stage], BootState.started_goto rfl⟩
  | setup =>
    simp only [hpc, Option.some.injEq] at hs
    subst hs
    refine ⟨by simp [BootState.goto, BootPc.rank, BootPc.stage], BootState.started_goto ?_⟩
    split_ifs <;> rfl
  | wake k =>
    simp only [hpc, Option.some.injEq] at hs
    subst hs
    rw [hpc] at hallowed
    have hk : k ≤ b.ncpu := hallowed.2
    split_ifs with hlt
    · rw [Board.wakeCpu]
      split_ifs with hkp hstart hoff hrv
      · exact ⟨by simp [BootState.goto, BootPc.rank], BootState.started_goto rfl⟩
      · refine ⟨by simp [BootState.goto, BootPc.rank], fun c hc => ?_⟩
        by_cases hck : c = k
        · subst hck
          exact .inr ⟨hoff, by simp [BootState.goto, hc]⟩
        · exact .inl (by simp [BootState.goto, hc, hck])
      · refine ⟨?_, BootState.started_goto rfl⟩
        simp [BootState.goto, BootPc.rank, BootPc.stage]
        omega
      · exact ⟨by simp [BootState.goto, BootPc.rank], BootState.started_goto rfl⟩
      · refine ⟨?_, BootState.started_goto rfl⟩
        simp [BootState.goto, BootPc.rank, BootPc.stage]
        omega
    · refine ⟨?_, BootState.started_goto rfl⟩
      simp [BootState.goto, BootPc.rank, BootPc.stage]
      omega
  | enter primary | storeNcpu primary | minParange primary | addParange primary
  | addInited primary =>
    simp only [hpc, Option.some.injEq] at hs
    subst hs
    exact ⟨by simp [BootState.goto, BootPc.rank, BootPc.stage], BootState.started_goto rfl⟩
  | storeEarly | initLate =>
    simp only [hpc, Option.some.injEq] at hs
    subst hs
    exact ⟨by simp [BootState.goto, BootPc.rank, BootPc.stage], BootState.started_goto rfl⟩
  | waitEntered primary | waitEarly | waitLate =>
    simp only [hpc, Option.ite_none_left_eq_some, Option.some.injEq] at hs
    obtain ⟨-, rfl⟩ := hs
    exact ⟨by simp [BootState.goto, BootPc.rank, BootPc.stage], BootState.started_goto rfl⟩
  | waitParange primary | waitInited primary =>
    simp only [hpc, Option.ite_none_left_eq_some, Option.some.injEq] at hs
    obtain ⟨-, rfl⟩ := hs
    refine ⟨?_, BootState.started_goto rfl⟩
    simp only [BootState.goto, update_self]
    split_ifs <;> simp [BootPc.rank, BootPc.stage]
  | checkEntered primary =>
    simp only [hpc, Option.some.injEq] at hs
    subst hs
    refine ⟨?_, BootState.started_goto rfl⟩
    simp only [BootState.goto, update_self]
    split_ifs <;> simp [BootPc.rank, BootPc.stage]
  | initEarly =>
    simp only [hpc] at hs
    cases hlevel : b.newS2Level s with
    | none =>
      simp only [hlevel, Option.some.injEq] at hs
      subst hs
      exact ⟨by simp [BootState.goto, BootPc.rank, BootPc.stage], BootState.started_goto rfl⟩
    | some level =>
      simp only [hlevel, Option.some.injEq] at hs
      subst hs
      exact ⟨by simp [BootState.goto, BootPc.rank, BootPc.stage], BootState.started_goto rfl⟩

theorem bootStep_off (hs : bootStep b s p = some s') : s.pc p ≠ .off := fun hoff => by
  rw [bootStep, hoff] at hs
  cases hs

/-- **A step takes the boot forward.** -/
theorem BootInv.rank_lt (h : BootInv b s) (hs : bootStep b s p = some s') :
    b.rank s < b.rank s' := by
  obtain ⟨hlt, hothers⟩ := bootStep_forward h hs
  apply Finset.sum_lt_sum
  · intro c _
    by_cases hc : c = p
    · exact hc ▸ hlt.le
    · rcases hothers c hc with heq | ⟨hoff, -⟩
      · rw [heq]
      · simp [hoff, BootPc.rank, BootPc.stage]
  · exact ⟨p, Board.mem_cpus.mpr (h.lt (bootStep_off hs)), hlt⟩

theorem BootPc.Allowed.rank_le {c : Nat} {q : BootPc} (h : q.Allowed b c) :
    q.rank b ≤ b.ncpu + 18 := by
  cases q with
  | wake k =>
    have : k ≤ b.ncpu := h.2
    rw [BootPc.rank]
    omega
  | panicked => exact h.elim
  | _ => simp [BootPc.rank, BootPc.stage]

theorem BootInv.rank_le (h : BootInv b s) : b.rank s ≤ b.ncpu * (b.ncpu + 18) := by
  have := Finset.sum_le_card_nsmul b.cpus (fun c => (s.pc c).rank b) (b.ncpu + 18)
    fun c _ => (h.allowed c).rank_le
  rwa [b.card_cpus, Nat.nsmul_eq_mul] at this

/-! ## Going on -/

/-- The accesses that wait for nothing. -/
def BootPc.Free (q : BootPc) : Prop :=
  q.stage ≠ 0 ∧ q.stage ≠ 7 ∧ q.stage ≠ 12 ∧ q ≠ .waitEarly ∧ q.stage ≠ 16 ∧ q ≠ .waitLate ∧
    q.stage < 18

theorem BootPc.Free.step (h : (s.pc p).Free) : ∃ s', bootStep b s p = some s' := by
  rw [← Option.isSome_iff_exists, bootStep]
  cases hpc : s.pc p with
  | initEarly => cases b.newS2Level s <;> rfl
  | _ => simp_all [BootPc.Free, BootPc.stage]

/-- A CPU at a barrier can go on when it is among those that are furthest behind. -/
theorem BootInv.step_barrier (h : BootInv b s) (hp : p < b.ncpu)
    (hk : s.stage p = 7 ∨ s.stage p = 12 ∨ s.stage p = 16)
    (hall : ∀ c < b.ncpu, s.stage p ≤ s.stage c) : ∃ s', bootStep b s p = some s' := by
  have hallowed := h.allowed p
  have hreached : ∀ k, s.stage p = k → ¬ reached b.cpus s.stage k < b.ncpu := fun k hk hlt => by
    rw [← b.card_cpus] at hlt
    exact hlt.ne (reached_eq_card_iff.mpr fun c hc => hk ▸ hall c (Board.mem_cpus.mp hc))
  rw [← Option.isSome_iff_exists, bootStep]
  cases hpc : s.pc p with
  | waitEntered primary =>
    have := hreached 7 (by rw [BootState.stage, hpc, BootPc.stage])
    simp [h.entered, this]
  | waitParange primary =>
    rw [hpc] at hallowed
    have hon : s.stage p = 12 := by rw [BootState.stage, hpc, BootPc.stage]
    have := hreached 12 hon
    simp [h.parangeOk hallowed.2, h.parangeNcpu hallowed.2 p hp (by omega), this]
  | waitInited primary =>
    have := hreached 16 (by rw [BootState.stage, hpc, BootPc.stage])
    simp [h.inited, this]
  | _ => simp [BootState.stage, hpc, BootPc.stage] at hk

/-- A CPU at a flag can go on when the primary has set it, and otherwise the primary can. -/
theorem BootInv.step_flag (h : BootInv b s) (hpc : s.pc p = .waitEarly ∨ s.pc p = .waitLate)
    (hle : s.stage p ≤ s.stage b.bootCpu) : ∃ c s', bootStep b s c = some s' := by
  have hallowed := h.allowed b.bootCpu
  by_cases hflag : s.stage p + 1 < s.stage b.bootCpu ∨ 18 ≤ s.stage b.bootCpu
  · refine ⟨p, ?_⟩
    rw [← Option.isSome_iff_exists, bootStep]
    rcases hpc with hpc | hpc
    · have hon : s.stage p = 13 := by rw [BootState.stage, hpc, BootPc.stage]
      simp [hpc, h.early, show 15 ≤ s.stage b.bootCpu by omega]
    · have hon : s.stage p = 17 := by rw [BootState.stage, hpc, BootPc.stage]
      simp [hpc, h.late, show 18 ≤ s.stage b.bootCpu by omega]
  · refine ⟨b.bootCpu, BootPc.Free.step ?_⟩
    have hstage : (s.pc b.bootCpu).stage = s.stage b.bootCpu := rfl
    have hearly : s.pc b.bootCpu ≠ .waitEarly := fun heq => by
      rw [heq] at hallowed
      exact hallowed rfl
    have hlate : s.pc b.bootCpu ≠ .waitLate := fun heq => by
      rw [heq] at hallowed
      exact hallowed rfl
    have hon : s.stage p = 13 ∨ s.stage p = 17 := by
      rcases hpc with hpc | hpc <;> simp [BootState.stage, hpc, BootPc.stage]
    refine ⟨?_, ?_, ?_, hearly, ?_, hlate, ?_⟩ <;> omega

/-- **Some CPU can go on** until all of them run their zones. -/
theorem BootInv.live (hb : b.Starts) (h : BootInv b s) :
    (∀ c < b.ncpu, s.pc c = .runVm (decide (c = b.bootCpu))) ∨
      ∃ p s', bootStep b s p = some s' := by
  by_cases h5 : s.stage b.bootCpu ≤ 5
  · -- the boot CPU is still on its own, and waits for nothing
    have hstage : (s.pc b.bootCpu).stage = s.stage b.bootCpu := rfl
    have hpos : s.stage b.bootCpu ≠ 0 := fun heq => h.booted (stage_eq_zero.mp heq)
    have hearly : s.pc b.bootCpu ≠ .waitEarly := fun heq => by
      rw [BootState.stage, heq, BootPc.stage] at h5
      omega
    have hlate : s.pc b.bootCpu ≠ .waitLate := fun heq => by
      rw [BootState.stage, heq, BootPc.stage] at h5
      omega
    refine .inr ⟨b.bootCpu, BootPc.Free.step ⟨hpos, ?_, ?_, hearly, ?_, hlate, ?_⟩⟩ <;> omega
  · obtain ⟨p, hp, hmin⟩ := Finset.exists_min_image b.cpus s.stage
      ⟨b.bootCpu, Board.mem_cpus.mpr hb.bootCpu_lt⟩
    rw [Board.mem_cpus] at hp
    have hall : ∀ c < b.ncpu, s.stage p ≤ s.stage c := fun c hc => hmin c (Board.mem_cpus.mpr hc)
    by_cases hbarrier : s.stage p = 7 ∨ s.stage p = 12 ∨ s.stage p = 16
    · exact .inr ⟨p, h.step_barrier hp hbarrier hall⟩
    by_cases hflag : s.pc p = .waitEarly ∨ s.pc p = .waitLate
    · exact .inr (h.step_flag hflag (hall _ hb.bootCpu_lt))
    by_cases hend : s.stage p < 18
    · have hpos : s.stage p ≠ 0 := fun heq => h.running (by omega) p hp (stage_eq_zero.mp heq)
      exact .inr ⟨p, BootPc.Free.step ⟨hpos, fun heq => hbarrier (.inl heq),
        fun heq => hbarrier (.inr (.inl heq)), fun heq => hflag (.inl heq),
        fun heq => hbarrier (.inr (.inr heq)), fun heq => hflag (.inr heq), hend⟩⟩
    · refine .inl fun c hc => ?_
      have h18 : 18 ≤ s.stage c := (Nat.le_of_not_lt hend).trans (hall c hc)
      have hallowed := h.allowed c
      cases hpc : s.pc c with
      | runVm primary =>
        rw [hpc] at hallowed
        rw [show primary = _ from hallowed]
      | panicked =>
        rw [hpc] at hallowed
        exact hallowed.elim
      | _ => simp [BootState.stage, hpc, BootPc.stage] at h18

/-- **Every boot comes to an end**: it takes a bounded number of steps; it stops only when all CPUs
run their zones; and from each of its states it can be continued to that end. -/
theorem boot_terminates {h : List Nat} (hb : b.Starts) (r : (bootSystem b).Run h s) :
    h.length ≤ b.ncpu * (b.ncpu + 18) ∧
      ((∀ p, bootStep b s p = none) → ∀ c < b.ncpu, s.pc c = .runVm (decide (c = b.bootCpu))) ∧
      ∃ h' s', (bootSystem b).Run (h' ++ h) s' ∧
        ∀ c < b.ncpu, s'.pc c = .runVm (decide (c = b.bootCpu)) := by
  have hrank : ∀ h s p s', (bootSystem b).Run h s → (bootSystem b).step s p s' →
      b.rank s < b.rank s' := fun _ _ _ _ r hs => (boot_inv hb r).rank_lt hs
  refine ⟨?_, fun hstuck => ?_, ?_⟩
  · exact (r.length_add_le (n := 0) (fun _ _ => Nat.zero_le _) hrank).trans (boot_inv hb r).rank_le
  · rcases (boot_inv hb r).live hb with hend | ⟨p, s', hs⟩
    · exact hend
    · rw [hstuck p] at hs
      cases hs
  · exact r.exists_final hrank (fun _ _ r => (boot_inv hb r).rank_le)
      fun _ _ r => (boot_inv hb r).live hb

theorem boot_terminates_twoCpus :
    ∃ h s, (bootSystem twoCpus).Run (h ++ twoCpusSteps.reverse) s ∧ s.pc 0 = .runVm true ∧
      s.pc 1 = .runVm false := by
  obtain ⟨s, r, -⟩ := twoCpus_run
  obtain ⟨-, -, h, s', r', hend⟩ := boot_terminates twoCpus_starts r
  exact ⟨h, s', by simpa using r', hend 0 (by decide), hend 1 (by decide)⟩

end Hvisor
