import Hvisor.Boot

/-!
# The order of booting

However the steps of the CPUs interleave, no assertion of the boot fails, one CPU is the primary,
and each CPU finds what it relies on: the root zone is there before a CPU sets itself up, all CPUs
have told their `PARange` before the root zone is made, and all of them are set up before one runs a
zone. The CPUs wait for each other by counting, and for the primary by its two flags.

## Main definitions

* `Board.Starts`: the boot CPU is one of those that are counted, and the others can be started
* `Board.minParange`, `Board.rootLevel`: what the CPUs agree on
* `BootInv`: the invariant
* `Ordered`: what each CPU relies on

## Main results

* `BootInv.goto`: the invariant when one CPU goes on
* `BootInv.step`: a step keeps the invariant
* `boot_ordered`: the order holds in every run
* `boot_parange`: the CPUs agree on the physical address size
-/

namespace Hvisor

open Function Rendezvous

variable {b : Board} {s s' t : BootState} {p : Nat} {q : BootPc}

/-! ## Boards -/

namespace Board

/-- **A board that can start**: the CPU that comes out of reset is one of those that are counted, on
AArch64 it is the one that clears the `.bss` section, the other CPUs can be started, and the table
of address sizes has an entry for some CPU. -/
structure Starts (b : Board) : Prop where
  bootCpu_lt : b.bootCpu < b.ncpu
  first : b.arch = .aarch64 → b.bootCpu = 0
  canStart : ∀ c < b.ncpu, c ≠ b.bootCpu → b.canStart c = true
  parange : b.arch = .aarch64 → ∃ c < b.ncpu, b.parange c ≤ 5

/-- The CPUs that are counted. -/
def cpus (b : Board) : Finset Nat := Finset.range b.ncpu

@[simp] theorem mem_cpus {b : Board} {c : Nat} : c ∈ b.cpus ↔ c < b.ncpu := Finset.mem_range

@[simp] theorem card_cpus (b : Board) : b.cpus.card = b.ncpu := Finset.card_range _

/-- The smallest `PARange`, which is at most the value that the search starts with. -/
def minParange (b : Board) : Nat := ((List.range b.ncpu).map b.parange).foldl min 0x7

/-- The number of levels of the root zone's address space. -/
def rootLevel (b : Board) : Option Nat :=
  match b.arch with
  | .aarch64 => PARANGE_TABLE[b.minParange]?.map fun bits => if bits < 44 then 3 else 4
  | .riscv64 => some 3
  | .loongarch64 => some 4

/-- The stages that all CPUs come to before one goes on. -/
def Barrier (b : Board) (k : Nat) : Prop := k = 7 ∨ k = 12 ∧ b.arch = .aarch64 ∨ k = 16

end Board

theorem Board.forall_barrier {b : Board} {P : Nat → Prop} :
    (∀ k, b.Barrier k → P k) ↔ P 7 ∧ (b.arch = .aarch64 → P 12) ∧ P 16 := by
  simp only [Barrier]
  exact ⟨fun h => ⟨h 7 (.inl rfl), fun ha => h 12 (.inr (.inl ⟨rfl, ha⟩)), h 16 (.inr (.inr rfl))⟩,
    fun h k hk => by rcases hk with rfl | ⟨rfl, ha⟩ | rfl; exacts [h.1, h.2.1 ha, h.2.2]⟩

theorem le_foldl_min_iff {l : List Nat} {m n : Nat} :
    m ≤ l.foldl min n ↔ m ≤ n ∧ ∀ x ∈ l, m ≤ x := by
  induction l generalizing n with
  | nil => simp
  | cons x l ih => rw [List.foldl_cons, ih, le_min_iff, List.forall_mem_cons, and_assoc]

theorem Board.le_minParange_iff {b : Board} {m : Nat} :
    m ≤ b.minParange ↔ m ≤ 7 ∧ ∀ c < b.ncpu, m ≤ b.parange c := by
  simp [minParange, le_foldl_min_iff]

theorem Board.Starts.minParange_le {b : Board} (hb : b.Starts) (ha : b.arch = .aarch64) :
    b.minParange ≤ 5 := by
  obtain ⟨c, hc, hle⟩ := hb.parange ha
  exact ((le_minParange_iff.mp le_rfl).2 c hc).trans hle

/-! ## The invariant -/

/-- A CPU may be here: the primary and the others go different ways, and only AArch64 looks for the
address size. -/
def BootPc.Allowed (b : Board) (c : Nat) : BootPc → Prop
  | off | archEntry | loadMaster => True
  | storeMaster | setup | initEarly | storeEarly | initLate => c = b.bootCpu
  | wake k => c = b.bootCpu ∧ k ≤ b.ncpu
  | waitEarly | waitLate => c ≠ b.bootCpu
  | enter primary | waitEntered primary | checkEntered primary | addInited primary
  | waitInited primary | runVm primary => primary = decide (c = b.bootCpu)
  | storeNcpu primary | minParange primary | addParange primary | waitParange primary =>
    primary = decide (c = b.bootCpu) ∧ b.arch = .aarch64
  | panicked => False

/-- How far each CPU is. -/
abbrev BootState.stage (s : BootState) (c : Nat) : Nat := (s.pc c).stage

@[simp] theorem BootState.stage_goto (s : BootState) (p : Nat) (q : BootPc) :
    (s.goto p q).stage = update s.stage p q.stage := by
  funext c
  by_cases hc : c = p
  · simp [BootState.stage, BootState.goto, hc]
  · simp [BootState.stage, BootState.goto, hc]

@[simp] theorem stage_eq_zero {q : BootPc} : q.stage = 0 ↔ q = .off := by
  cases q <;> simp [BootPc.stage]

/-- **The invariant of booting**: where the CPUs may be, what the counters count, what the flags
say, and what is known of the address size. -/
structure BootInv (b : Board) (s : BootState) : Prop where
  outside : ∀ c, b.ncpu ≤ c → s.pc c = .off
  allowed : ∀ c, (s.pc c).Allowed b c
  booted : s.pc b.bootCpu ≠ .off
  first : s.stage b.bootCpu ≤ 4 → ∀ c, c ≠ b.bootCpu → s.pc c = .off
  woken : ∀ k, s.pc b.bootCpu = .wake k → ∀ c < b.ncpu, c ≠ b.bootCpu → (s.pc c = .off ↔ k ≤ c)
  running : 6 ≤ s.stage b.bootCpu → ∀ c < b.ncpu, s.pc c ≠ .off
  master : s.masterCpu = -1 ↔ s.stage b.bootCpu ≤ 3
  entered : s.enteredCpus = reached b.cpus s.stage 7
  parangeOk : b.arch = .aarch64 → s.parangeOkCpus = reached b.cpus s.stage 12
  inited : s.initedCpus = reached b.cpus s.stage 16
  early : s.initEarlyOk = if 15 ≤ s.stage b.bootCpu then 1 else 0
  late : s.initLateOk = if 18 ≤ s.stage b.bootCpu then 1 else 0
  together : ∀ k, b.Barrier k → Together b.cpus s.stage k
  behindEarly : Behind b.cpus s.stage b.bootCpu 15
  behindLate : Behind b.cpus s.stage b.bootCpu 18
  parangeNcpu : b.arch = .aarch64 → ∀ c < b.ncpu, 10 ≤ s.stage c → s.parangeNcpu = b.ncpu
  parange_le : s.minParange ≤ 7 ∧
    (b.arch = .aarch64 → ∀ c < b.ncpu, 11 ≤ s.stage c → s.minParange ≤ b.parange c)
  le_parange : b.minParange ≤ s.minParange
  zone : 14 ≤ s.stage b.bootCpu → s.rootZone = b.rootLevel ∧ b.rootLevel.isSome = true

theorem BootInv.lt (h : BootInv b s) (hp : s.pc p ≠ .off) : p < b.ncpu :=
  Nat.lt_of_not_le fun hle => hp (h.outside p hle)

/-- The address size that is found when all CPUs have told theirs. -/
theorem BootInv.minParange_eq (h : BootInv b s) (ha : b.arch = .aarch64)
    (hall : ∀ c < b.ncpu, 11 ≤ s.stage c) : s.minParange = b.minParange :=
  le_antisymm
    (Board.le_minParange_iff.mpr ⟨h.parange_le.1, fun c hc => h.parange_le.2 ha c hc (hall c hc)⟩)
    h.le_parange

/-! ## One CPU goes on -/

/-- CPU `p` goes on from state `s`: the shared variables become those of `t`, and the next access of
the CPU is `q`. Each count grows as the CPU passes it, a flag is set by the primary, and nobody
leaves a barrier alone. -/
structure Moves (b : Board) (s t : BootState) (p : Nat) (q : BootPc) : Prop where
  pc : t.pc = s.pc
  live : s.pc p ≠ .off
  allowed : q.Allowed b p
  le : s.stage p ≤ q.stage
  wake : ∀ k, q ≠ .wake k
  running : p = b.bootCpu → s.stage p < 6 → 6 ≤ q.stage → ∀ c < b.ncpu, s.pc c ≠ .off
  master : t.masterCpu = s.masterCpu ∧ (p = b.bootCpu → (s.stage p ≤ 3 ↔ q.stage ≤ 3)) ∨
    p = b.bootCpu ∧ 3 < q.stage ∧ t.masterCpu ≠ -1
  entered : t.enteredCpus = s.enteredCpus + if s.stage p < 7 ∧ 7 ≤ q.stage then 1 else 0
  parangeOk : b.arch = .aarch64 →
    t.parangeOkCpus = s.parangeOkCpus + if s.stage p < 12 ∧ 12 ≤ q.stage then 1 else 0
  inited : t.initedCpus = s.initedCpus + if s.stage p < 16 ∧ 16 ≤ q.stage then 1 else 0
  early : t.initEarlyOk =
    if p = b.bootCpu ∧ s.stage p < 15 ∧ 15 ≤ q.stage then 1 else s.initEarlyOk
  late : t.initLateOk =
    if p = b.bootCpu ∧ s.stage p < 18 ∧ 18 ≤ q.stage then 1 else s.initLateOk
  together : ∀ k, b.Barrier k → s.stage p ≤ k → k < q.stage → ∀ c < b.ncpu, k ≤ s.stage c
  behindEarly : p ≠ b.bootCpu → s.stage p < 15 → 15 ≤ q.stage → 15 ≤ s.stage b.bootCpu
  behindLate : p ≠ b.bootCpu → s.stage p < 18 → 18 ≤ q.stage → 18 ≤ s.stage b.bootCpu
  parangeNcpu : b.arch = .aarch64 → t.parangeNcpu = b.ncpu ∨
    t.parangeNcpu = s.parangeNcpu ∧ (10 ≤ q.stage → 10 ≤ s.stage p)
  minParange : t.minParange = s.minParange ∧ (b.arch = .aarch64 → 11 ≤ q.stage → 11 ≤ s.stage p) ∨
    t.minParange = min s.minParange (b.parange p)
  zone : t.rootZone = s.rootZone ∧ (p = b.bootCpu → 14 ≤ q.stage → 14 ≤ s.stage p) ∨
    t.rootZone = b.rootLevel ∧ b.rootLevel.isSome = true

/-- **One CPU goes on**, and the invariant stays. -/
theorem BootInv.goto (h : BootInv b s) (m : Moves b s t p q) : BootInv b (t.goto p q) := by
  have hp : p < b.ncpu := h.lt m.live
  have hmem : p ∈ b.cpus := Board.mem_cpus.mpr hp
  have hstage : t.stage = s.stage := by
    funext c
    rw [BootState.stage, m.pc]
  have hq : q ≠ .off := fun heq => by
    have := m.le
    rw [heq] at this
    exact m.live (stage_eq_zero.mp (Nat.le_zero.mp this))
  have hself : (t.goto p q).pc p = q := by simp [BootState.goto]
  have hother : ∀ c, c ≠ p → (t.goto p q).pc c = s.pc c := fun c hc => by
    simp [BootState.goto, hc, m.pc]
  have hboot : (t.goto p q).stage b.bootCpu =
      if p = b.bootCpu then q.stage else s.stage b.bootCpu := by
    rw [BootState.stage_goto, hstage]
    by_cases hpb : p = b.bootCpu
    · rw [if_pos hpb, hpb, update_self]
    · rw [if_neg hpb, update_of_ne (Ne.symm hpb)]
  have hle : s.stage b.bootCpu ≤ (t.goto p q).stage b.bootCpu := by
    rw [hboot]
    split
    · next hpb => exact hpb ▸ m.le
    · exact le_rfl
  constructor
  case outside =>
    intro c hc
    rw [hother c (by omega)]
    exact h.outside c hc
  case allowed =>
    intro c
    by_cases hc : c = p
    · rw [hc, hself]
      exact m.allowed
    · rw [hother c hc]
      exact h.allowed c
  case booted =>
    by_cases hpb : b.bootCpu = p
    · rwa [hpb, hself]
    · rw [hother _ hpb]
      exact h.booted
  case first =>
    intro h4 c hc
    have hoff := h.first (hle.trans h4) c hc
    by_cases hcp : c = p
    · exact absurd (hcp ▸ hoff) m.live
    · rw [hother c hcp]
      exact hoff
  case woken =>
    intro k hk c hc hne
    have hpb : b.bootCpu ≠ p := fun heq => m.wake k (by rwa [heq, hself] at hk)
    rw [hother _ hpb] at hk
    have hiff := h.woken k hk c hc hne
    by_cases hcp : c = p
    · subst hcp
      rw [hself]
      exact iff_of_false hq fun hkc => m.live (hiff.mpr hkc)
    · rwa [hother c hcp]
  case running =>
    intro h6 c hc
    have hall : ∀ c < b.ncpu, s.pc c ≠ .off := by
      rw [hboot] at h6
      split at h6
      · next hpb =>
        by_cases hs : s.stage p < 6
        · exact m.running hpb hs h6
        · exact h.running (hpb ▸ Nat.le_of_not_lt hs)
      · exact h.running h6
    by_cases hcp : c = p
    · rwa [hcp, hself]
    · rw [hother c hcp]
      exact hall c hc
  case master =>
    rw [hboot]
    rcases m.master with ⟨hm, hiff⟩ | ⟨hpb, hq3, hm⟩
    · rw [show (t.goto p q).masterCpu = s.masterCpu from hm, h.master]
      split
      · next hpb => exact hpb ▸ hiff hpb
      · exact Iff.rfl
    · rw [if_pos hpb]
      exact iff_of_false hm (Nat.not_le.mpr hq3)
  case entered =>
    rw [BootState.stage_goto, hstage, reached_update hmem m.le, ← h.entered]
    exact m.entered
  case parangeOk =>
    intro ha
    rw [BootState.stage_goto, hstage, reached_update hmem m.le, ← h.parangeOk ha]
    exact m.parangeOk ha
  case inited =>
    rw [BootState.stage_goto, hstage, reached_update hmem m.le, ← h.inited]
    exact m.inited
  case early =>
    rw [hboot]
    refine m.early.trans ?_
    rw [h.early]
    by_cases hpb : p = b.bootCpu
    · have hpq := m.le
      subst hpb
      simp only [true_and, if_true]
      split_ifs <;> first | rfl | omega
    · simp [hpb]
  case late =>
    rw [hboot]
    refine m.late.trans ?_
    rw [h.late]
    by_cases hpb : p = b.bootCpu
    · have hpq := m.le
      subst hpb
      simp only [true_and, if_true]
      split_ifs <;> first | rfl | omega
    · simp [hpb]
  case together =>
    intro k hk
    rw [BootState.stage_goto, hstage]
    refine (h.together k hk).update m.le fun hkq => ?_
    by_cases hlt : k < s.stage p
    · exact .inl hlt
    · exact .inr fun c hc => m.together k hk (Nat.le_of_not_lt hlt) hkq c (Board.mem_cpus.mp hc)
  case behindEarly =>
    rw [BootState.stage_goto, hstage]
    refine h.behindEarly.update m.le fun hne hk => ?_
    by_cases hlt : s.stage p < 15
    · exact .inr (m.behindEarly hne hlt hk)
    · exact .inl (Nat.le_of_not_lt hlt)
  case behindLate =>
    rw [BootState.stage_goto, hstage]
    refine h.behindLate.update m.le fun hne hk => ?_
    by_cases hlt : s.stage p < 18
    · exact .inr (m.behindLate hne hlt hk)
    · exact .inl (Nat.le_of_not_lt hlt)
  case parangeNcpu =>
    intro ha c hc h10
    rcases m.parangeNcpu ha with hn | ⟨hn, hq10⟩
    · exact hn
    · refine hn.trans ?_
      rw [BootState.stage_goto, hstage] at h10
      by_cases hcp : c = p
      · subst hcp
        rw [update_self] at h10
        exact h.parangeNcpu ha c hc (hq10 h10)
      · rw [update_of_ne hcp] at h10
        exact h.parangeNcpu ha c hc h10
  case parange_le =>
    rw [BootState.stage_goto, hstage]
    rcases m.minParange with ⟨hmin, hq11⟩ | hmin
    · change t.minParange ≤ 7 ∧ _
      rw [show (t.goto p q).minParange = t.minParange from rfl, hmin]
      refine ⟨h.parange_le.1, fun ha c hc h11 => ?_⟩
      by_cases hcp : c = p
      · subst hcp
        rw [update_self] at h11
        exact h.parange_le.2 ha c hc (hq11 ha h11)
      · rw [update_of_ne hcp] at h11
        exact h.parange_le.2 ha c hc h11
    · rw [show (t.goto p q).minParange = min s.minParange (b.parange p) from hmin]
      refine ⟨(min_le_left ..).trans h.parange_le.1, fun ha c hc h11 => ?_⟩
      by_cases hcp : c = p
      · subst hcp
        exact min_le_right ..
      · rw [update_of_ne hcp] at h11
        exact (min_le_left ..).trans (h.parange_le.2 ha c hc h11)
  case le_parange =>
    rcases m.minParange with ⟨hmin, -⟩ | hmin
    · exact h.le_parange.trans_eq hmin.symm
    · refine (le_min h.le_parange ?_).trans_eq hmin.symm
      exact (Board.le_minParange_iff.mp le_rfl).2 p hp
  case zone =>
    intro h14
    rw [hboot] at h14
    rcases m.zone with ⟨hz, hq14⟩ | hz
    · rw [show (t.goto p q).rootZone = s.rootZone from hz]
      apply h.zone
      split at h14
      · next hpb => exact hpb ▸ hq14 hpb h14
      · exact h14
    · exact hz

/-! ## Starting the others -/

/-- The boot CPU goes on with starting the others: no CPU comes to a stage that is counted. -/
theorem BootInv.wake {k : Nat} (h : BootInv b s) (h5 : s.stage b.bootCpu ≤ 5)
    (hk : k ≤ b.ncpu) (hboot : t.pc b.bootCpu = .wake k) (h4 : 4 ≤ s.stage b.bootCpu)
    (hpc : ∀ c, c ≠ b.bootCpu → t.pc c = s.pc c ∨ c < b.ncpu ∧ s.pc c = .off ∧ t.pc c = .archEntry)
    (hwoken : ∀ c < b.ncpu, c ≠ b.bootCpu → (t.pc c = .off ↔ k ≤ c))
    (hshared : { t with pc := s.pc, constsNcpu := s.constsNcpu } = s) : BootInv b t := by
  have hstage : ∀ c n, 6 ≤ n → (n ≤ t.stage c ↔ n ≤ s.stage c) := by
    intro c n hn
    by_cases hc : c = b.bootCpu
    · subst hc
      rw [BootState.stage, hboot, BootPc.stage]
      omega
    · rcases hpc c hc with heq | ⟨-, hs, ht⟩
      · rw [BootState.stage, heq]
      · rw [BootState.stage, BootState.stage, hs, ht, BootPc.stage, BootPc.stage]
        omega
  have hboot5 : t.stage b.bootCpu = 5 := by rw [BootState.stage, hboot, BootPc.stage]
  have hreached : ∀ n, 6 ≤ n → reached b.cpus t.stage n = reached b.cpus s.stage n :=
    fun n hn => reached_congr fun c => hstage c n hn
  obtain ⟨pc, master, consts, entered, early, inited, late, minp, okCpus, pncpu, zone⟩ := t
  cases s
  simp only [BootState.mk.injEq] at hshared
  obtain ⟨-, rfl, -, rfl, rfl, rfl, rfl, rfl, rfl, rfl, rfl⟩ := hshared
  constructor
  case outside =>
    intro c hc
    have hne : c ≠ b.bootCpu := fun heq => h.booted (heq ▸ h.outside c hc)
    rcases hpc c hne with heq | ⟨hlt, -⟩
    · exact heq.trans (h.outside c hc)
    · exact absurd hc (Nat.not_le.mpr hlt)
  case allowed =>
    intro c
    by_cases hc : c = b.bootCpu
    · rw [hc, hboot]
      exact ⟨rfl, hk⟩
    · rcases hpc c hc with heq | ⟨-, -, ht⟩
      · rw [heq]
        exact h.allowed c
      · rw [ht]
        trivial
  case booted => rw [hboot]; nofun
  case first => intro hle; omega
  case woken =>
    intro k' hk'
    rw [hboot] at hk'
    cases hk'
    exact hwoken
  case running => intro hle; omega
  case master =>
    refine h.master.trans ⟨fun hle => ?_, fun hle => ?_⟩
    · omega
    · omega
  case entered => exact h.entered.trans (hreached 7 (by omega)).symm
  case parangeOk => exact fun ha => (h.parangeOk ha).trans (hreached 12 (by omega)).symm
  case inited => exact h.inited.trans (hreached 16 (by omega)).symm
  case early =>
    refine h.early.trans ?_
    rw [if_neg (by omega), if_neg (by omega)]
  case late =>
    refine h.late.trans ?_
    rw [if_neg (by omega), if_neg (by omega)]
  case together =>
    intro n hn i hi hni j hj
    have h6 : 6 ≤ n := by
      rcases hn with rfl | ⟨rfl, -⟩ | rfl <;> omega
    exact (hstage j n h6).mpr
      (h.together n hn i hi ((hstage i (n + 1) (by omega)).mp hni) j hj)
  case behindEarly =>
    intro i hi hk15
    have := h.behindEarly i hi ((hstage i 15 (by omega)).mp hk15)
    omega
  case behindLate =>
    intro i hi hk18
    have := h.behindLate i hi ((hstage i 18 (by omega)).mp hk18)
    omega
  case parangeNcpu =>
    exact fun ha c hc h10 => h.parangeNcpu ha c hc ((hstage c 10 (by omega)).mp h10)
  case parange_le =>
    exact ⟨h.parange_le.1, fun ha c hc h11 =>
      h.parange_le.2 ha c hc ((hstage c 11 (by omega)).mp h11)⟩
  case le_parange => exact h.le_parange
  case zone => intro hle; omega

/-- Zeroing the `.bss` section changes nothing while the boot CPU is alone. -/
theorem BootInv.clearBss (h : BootInv b s) (h4 : s.stage b.bootCpu ≤ 4) :
    BootInv b s.clearBss := by
  have hlow : ∀ c, s.stage c ≤ 4 := fun c => by
    by_cases hc : c = b.bootCpu
    · exact hc ▸ h4
    · rw [BootState.stage, h.first h4 c hc, BootPc.stage]
      omega
  have hzero : ∀ k, 5 ≤ k → reached b.cpus s.stage k = 0 := fun k hk =>
    reached_eq_zero_iff.mpr fun c _ => by have := hlow c; omega
  exact
    { h with
      entered := (hzero 7 (by omega)).symm
      parangeOk := fun _ => (hzero 12 (by omega)).symm
      inited := (hzero 16 (by omega)).symm
      early := (if_neg (by change ¬ 15 ≤ s.stage b.bootCpu; omega)).symm
      late := (if_neg (by change ¬ 18 ≤ s.stage b.bootCpu; omega)).symm
      parangeNcpu := fun _ c _ (h10 : 10 ≤ s.stage c) => by have := hlow c; omega }

/-! ## Steps -/

/-- A count that has come to the number of CPUs tells that all of them have come. -/
theorem Board.all_reached {k : Nat} {stage : Nat → Nat}
    (h : ¬ reached b.cpus stage k < b.ncpu) : ∀ c < b.ncpu, k ≤ stage c := fun c hc =>
  reached_eq_card_iff.mp (le_antisymm (reached_le_card ..) (by rw [b.card_cpus]; omega)) c
    (Board.mem_cpus.mpr hc)

/-- The counters do not overflow. -/
theorem Board.fetchAdd_reached (b : Board) (stage : Nat → Nat) (k : Nat) :
    fetchAdd (reached b.cpus stage k) = reached b.cpus stage k + 1 := by
  have hle := reached_le_card b.cpus stage k
  have hmax := b.ncpu_le
  rw [Board.card_cpus] at hle
  rw [MAX_CPU_NUM] at hmax
  exact Nat.mod_eq_of_lt (by omega)

/-- One round of `wakeup_secondary_cpus`: the CPU is off, and can be started. -/
theorem BootInv.wakeRound {k : Nat} (hb : b.Starts) (h : BootInv b s)
    (hpc : s.pc b.bootCpu = .wake k) (hk : k ≤ b.ncpu) :
    BootInv b (if k < b.ncpu then b.wakeCpu s b.bootCpu k else s.goto b.bootCpu (.enter true)) := by
  have hon : s.stage b.bootCpu = 5 := by rw [BootState.stage, hpc, BootPc.stage]
  have hwoken := h.woken k hpc
  by_cases hlt : k < b.ncpu
  · rw [if_pos hlt, Board.wakeCpu]
    by_cases hkb : k = b.bootCpu
    · rw [if_pos hkb]
      apply h.wake (k := k + 1) (by omega) hlt
      · simp [BootState.goto]
      · omega
      · exact fun c hc => .inl (by simp [BootState.goto, hc])
      · intro c hc hne
        rw [show (s.goto b.bootCpu (.wake (k + 1))).pc c = s.pc c by simp [BootState.goto, hne],
          hwoken c hc hne]
        omega
      · rfl
    · rw [if_neg hkb, if_pos (hb.canStart k hlt hkb), if_pos ((hwoken k hlt hkb).mpr le_rfl)]
      apply h.wake (k := k + 1) (by omega) hlt
      · simp [BootState.goto]
      · omega
      · intro c hc
        by_cases hck : c = k
        · subst hck
          exact .inr ⟨hlt, (hwoken c hlt hkb).mpr le_rfl, by simp [BootState.goto, hc]⟩
        · exact .inl (by simp [BootState.goto, hc, hck])
      · intro c hc hne
        by_cases hck : c = k
        · subst hck
          simp [BootState.goto, hne]
        · rw [show ((s.goto k .archEntry).goto b.bootCpu (.wake (k + 1))).pc c = s.pc c by
            simp [BootState.goto, hne, hck], hwoken c hc hne]
          omega
      · rfl
  · rw [if_neg hlt]
    apply h.goto
    constructor
    case running =>
      intro _ _ _ c hc hoff
      by_cases hcb : c = b.bootCpu
      · exact h.booted (hcb ▸ hoff)
      · exact absurd ((hwoken c hc hcb).mp hoff) (by omega)
    all_goals simp [hpc, BootState.stage, BootPc.Allowed, BootPc.stage, Board.forall_barrier]

/-- A CPU that has left the third wait finds the smallest `PARange` of all CPUs. -/
theorem BootInv.minParange_of_stage {c : Nat} (h : BootInv b s) (ha : b.arch = .aarch64)
    (h13 : 13 ≤ s.stage c) :
    s.minParange = b.minParange ∧ s.parangeOkCpus = b.ncpu ∧ s.parangeNcpu = b.ncpu := by
  have hc : c < b.ncpu := h.lt fun hoff => by
    rw [BootState.stage, hoff, BootPc.stage] at h13
    omega
  have hall := h.together 12 (.inr (.inl ⟨rfl, ha⟩)) c (Board.mem_cpus.mpr hc) (by omega)
  refine ⟨h.minParange_eq ha fun d hd => ?_, ?_, h.parangeNcpu ha c hc (by omega)⟩
  · have := hall d (Board.mem_cpus.mpr hd)
    omega
  · rw [h.parangeOk ha, ← b.card_cpus]
    exact reached_eq_card_iff.mpr hall

/-- An address space that is made from then on has the depth that the CPUs agree on. -/
theorem BootInv.newS2Level {c : Nat} (hb : b.Starts) (h : BootInv b s) (h13 : 13 ≤ s.stage c) :
    b.newS2Level s = b.rootLevel ∧ b.rootLevel.isSome = true := by
  rw [Board.newS2Level, Board.rootLevel]
  cases ha : b.arch with
  | aarch64 =>
    obtain ⟨hmin, hok, hn⟩ := h.minParange_of_stage ha h13
    have hle := hb.minParange_le ha
    simp only [if_pos (hok.trans hn.symm), hmin, Option.isSome_map, true_and]
    simp only [PARANGE_TABLE, isSome_getElem?]
    exact hle.trans_lt (by decide)
  | riscv64 => simp
  | loongarch64 => simp

/-! ## One step, by the place where it is taken -/

/-- The section of zeros is cleared by a CPU that is first. -/
theorem BootInv.step_archEntry (hb : b.Starts) (h : BootInv b s) (hpc : s.pc p = .archEntry)
    (hs : bootStep b s p = some s') : BootInv b s' := by
  rw [bootStep] at hs
  simp only [hpc, Option.some.injEq] at hs
  subst hs
  have hmove : ∀ t, BootInv b t → t.pc = s.pc → BootInv b (t.goto p .loadMaster) := by
    intro t ht htpc
    apply ht.goto (s := t)
    constructor <;>
      simp [htpc, hpc, BootState.stage, BootPc.Allowed, BootPc.stage, Board.forall_barrier]
  split_ifs with hclear
  · obtain rfl : p = b.bootCpu := hclear.2.trans (hb.first hclear.1).symm
    refine hmove _ (h.clearBss ?_) rfl
    rw [BootState.stage, hpc, BootPc.stage]
    omega
  · exact hmove s h rfl

/-- The CPU is the first to read the word exactly where it is the boot CPU. -/
theorem BootInv.step_loadMaster (h : BootInv b s) (hpc : s.pc p = .loadMaster)
    (hs : bootStep b s p = some s') : BootInv b s' := by
  have hmaster := h.master
  rw [bootStep] at hs
  simp only [hpc, Option.some.injEq] at hs
  subst hs
  have hon : s.stage p = 2 := by rw [BootState.stage, hpc, BootPc.stage]
  by_cases hpb : p = b.bootCpu
  · subst hpb
    rw [if_pos (hmaster.mpr (by rw [hon]; omega))]
    apply h.goto
    constructor <;>
      simp [hpc, BootState.stage, BootPc.Allowed, BootPc.stage, Board.forall_barrier]
  · have hstarted : 4 < s.stage b.bootCpu := Nat.lt_of_not_le fun h4 => by
      have := h.first h4 p hpb
      rw [hpc] at this
      cases this
    rw [if_neg (fun heq => absurd (hmaster.mp heq) (by omega))]
    apply h.goto
    constructor <;>
      simp [hpc, hpb, BootState.stage, BootPc.Allowed, BootPc.stage, Board.forall_barrier]

theorem BootInv.step_storeMaster (hb : b.Starts) (h : BootInv b s) (hpc : s.pc p = .storeMaster)
    (hs : bootStep b s p = some s') : BootInv b s' := by
  have hallowed := h.allowed p
  rw [bootStep] at hs
  simp only [hpc, Option.some.injEq] at hs
  subst hs
  rw [hpc] at hallowed
  obtain rfl : p = b.bootCpu := hallowed
  apply h.goto
  constructor
  case master =>
    refine .inr ⟨rfl, by decide, fun heq => ?_⟩
    have hlt := hb.bootCpu_lt
    have hmax := b.ncpu_le
    rw [MAX_CPU_NUM] at hmax
    have := congrArg BitVec.toNat heq
    simp at this
    omega
  all_goals simp [hpc, BootState.stage, BootPc.Allowed, BootPc.stage, Board.forall_barrier]

theorem BootInv.step_setup (h : BootInv b s) (hpc : s.pc p = .setup)
    (hs : bootStep b s p = some s') : BootInv b s' := by
  have hallowed := h.allowed p
  rw [bootStep] at hs
  simp only [hpc, Option.some.injEq] at hs
  subst hs
  rw [hpc] at hallowed
  obtain rfl : p = b.bootCpu := hallowed
  have hon : s.stage b.bootCpu = 4 := by rw [BootState.stage, hpc, BootPc.stage]
  have halone := h.first hon.le
  have hmove : ∀ t, BootInv b t → t.pc = s.pc →
      BootInv b ({ t with constsNcpu := b.ncpu }.goto b.bootCpu (.wake 0)) := by
    intro t ht htpc
    have hont : t.stage b.bootCpu = 4 := by rw [BootState.stage, htpc]; exact hon
    apply ht.wake (k := 0) (by omega) (Nat.zero_le _)
    · simp [BootState.goto]
    · omega
    · exact fun c hc => .inl (by simp [BootState.goto, hc])
    · exact fun c _ hc => iff_of_true (by simpa [BootState.goto, hc, htpc] using halone c hc)
        (Nat.zero_le c)
    · rfl
  split_ifs with hrv
  · exact hmove _ (h.clearBss hon.le) rfl
  · exact hmove s h rfl

theorem BootInv.step_wake {k : Nat} (hb : b.Starts) (h : BootInv b s) (hpc : s.pc p = .wake k)
    (hs : bootStep b s p = some s') : BootInv b s' := by
  have hallowed := h.allowed p
  rw [bootStep] at hs
  simp only [hpc, Option.some.injEq] at hs
  subst hs
  rw [hpc] at hallowed
  obtain ⟨rfl, hk⟩ : p = b.bootCpu ∧ k ≤ b.ncpu := hallowed
  exact h.wakeRound hb hpc hk

/-- The CPU is counted as one that has entered. -/
theorem BootInv.step_enter {primary : Bool} (h : BootInv b s) (hpc : s.pc p = .enter primary)
    (hs : bootStep b s p = some s') : BootInv b s' := by
  have hallowed := h.allowed p
  rw [bootStep] at hs
  simp only [hpc, Option.some.injEq] at hs
  subst hs
  rw [hpc] at hallowed
  apply h.goto
  constructor
  case allowed => exact hallowed
  case entered =>
    rw [show s.stage p = 6 by rw [BootState.stage, hpc, BootPc.stage], BootPc.stage,
      if_pos (by omega)]
    change fetchAdd s.enteredCpus = s.enteredCpus + 1
    rw [h.entered, b.fetchAdd_reached]
  all_goals simp [hpc, BootState.stage, BootPc.stage, Board.forall_barrier]

/-- A CPU that goes on has seen that all CPUs have entered. -/
theorem BootInv.step_waitEntered {primary : Bool} (h : BootInv b s)
    (hpc : s.pc p = .waitEntered primary) (hs : bootStep b s p = some s') : BootInv b s' := by
  have hallowed := h.allowed p
  rw [bootStep] at hs
  simp only [hpc, Option.ite_none_left_eq_some, Option.some.injEq] at hs
  obtain ⟨hwait, rfl⟩ := hs
  rw [h.entered] at hwait
  rw [hpc] at hallowed
  have hall := Board.all_reached hwait
  apply h.goto
  constructor
  case allowed => exact hallowed
  case together =>
    rw [Board.forall_barrier]
    simp only [hpc, BootState.stage, BootPc.stage]
    exact ⟨fun _ _ => hall, fun _ _ _ => by omega, fun _ _ => by omega⟩
  all_goals simp [hpc, BootState.stage, BootPc.stage]

/-- The count has not changed since, and the assertion holds. -/
theorem BootInv.step_checkEntered {primary : Bool} (h : BootInv b s)
    (hpc : s.pc p = .checkEntered primary) (hs : bootStep b s p = some s') : BootInv b s' := by
  have hallowed := h.allowed p
  rw [bootStep] at hs
  simp only [hpc, Option.some.injEq] at hs
  subst hs
  rw [hpc] at hallowed
  have hp := h.lt (p := p) (by rw [hpc]; nofun)
  have hall := h.together 7 (.inl rfl) p (Board.mem_cpus.mpr hp)
    (by rw [BootState.stage, hpc, BootPc.stage]; omega)
  have hcount : s.enteredCpus = b.ncpu := by
    rw [h.entered, ← b.card_cpus]
    exact reached_eq_card_iff.mpr hall
  rw [if_neg (not_not.mpr hcount)]
  by_cases ha : b.arch = .aarch64
  · rw [if_pos ha]
    apply h.goto
    constructor
    case allowed => exact ⟨hallowed, ha⟩
    all_goals simp [hpc, BootState.stage, BootPc.stage, Board.forall_barrier]
  · rw [if_neg ha]
    by_cases hprimary : primary = true
    · subst hprimary
      rw [if_pos rfl]
      obtain rfl : p = b.bootCpu := of_decide_eq_true hallowed.symm
      apply h.goto
      constructor <;>
        simp [hpc, ha, BootState.stage, BootPc.Allowed, BootPc.stage, Board.forall_barrier]
    · rw [if_neg hprimary]
      have hne : p ≠ b.bootCpu := fun heq => hprimary (hallowed.trans (decide_eq_true heq))
      apply h.goto
      constructor <;>
        simp [hpc, ha, hne, BootState.stage, BootPc.Allowed, BootPc.stage, Board.forall_barrier]

theorem BootInv.step_storeNcpu {primary : Bool} (h : BootInv b s)
    (hpc : s.pc p = .storeNcpu primary) (hs : bootStep b s p = some s') : BootInv b s' := by
  have hallowed := h.allowed p
  rw [bootStep] at hs
  simp only [hpc, Option.some.injEq] at hs
  subst hs
  rw [hpc] at hallowed
  apply h.goto
  constructor
  case allowed => exact hallowed
  all_goals simp [hpc, BootState.stage, BootPc.stage, Board.forall_barrier]

theorem BootInv.step_minParange {primary : Bool} (h : BootInv b s)
    (hpc : s.pc p = .minParange primary) (hs : bootStep b s p = some s') : BootInv b s' := by
  have hallowed := h.allowed p
  rw [bootStep] at hs
  simp only [hpc, Option.some.injEq] at hs
  subst hs
  rw [hpc] at hallowed
  apply h.goto
  constructor
  case allowed => exact hallowed
  all_goals simp [hpc, BootState.stage, BootPc.stage, Board.forall_barrier]

/-- The CPU is counted as one whose range is in the minimum. -/
theorem BootInv.step_addParange {primary : Bool} (h : BootInv b s)
    (hpc : s.pc p = .addParange primary) (hs : bootStep b s p = some s') : BootInv b s' := by
  have hallowed := h.allowed p
  rw [bootStep] at hs
  simp only [hpc, Option.some.injEq] at hs
  subst hs
  rw [hpc] at hallowed
  apply h.goto
  constructor
  case allowed => exact hallowed
  case parangeOk =>
    intro ha
    rw [show s.stage p = 11 by rw [BootState.stage, hpc, BootPc.stage], BootPc.stage,
      if_pos (by omega)]
    change fetchAdd s.parangeOkCpus = s.parangeOkCpus + 1
    rw [h.parangeOk ha, b.fetchAdd_reached]
  all_goals simp [hpc, BootState.stage, BootPc.stage, Board.forall_barrier]

/-- A CPU that goes on has seen that all ranges are in the minimum. -/
theorem BootInv.step_waitParange {primary : Bool} (h : BootInv b s)
    (hpc : s.pc p = .waitParange primary) (hs : bootStep b s p = some s') : BootInv b s' := by
  have hallowed := h.allowed p
  rw [bootStep] at hs
  simp only [hpc, Option.ite_none_left_eq_some, Option.some.injEq] at hs
  obtain ⟨hwait, rfl⟩ := hs
  rw [hpc] at hallowed
  obtain ⟨hprimary, ha⟩ := hallowed
  have hp := h.lt (p := p) (by rw [hpc]; nofun)
  have hon : s.stage p = 12 := by rw [BootState.stage, hpc, BootPc.stage]
  rw [h.parangeOk ha, h.parangeNcpu ha p hp (by omega)] at hwait
  have hall := Board.all_reached hwait
  have hmove : ∀ q : BootPc, q.stage = 13 → q.Allowed b p → (∀ k, q ≠ .wake k) →
      BootInv b (s.goto p q) := by
    intro q hq hqa hqw
    apply h.goto
    constructor
    case allowed => exact hqa
    case wake => exact hqw
    case together =>
      rw [Board.forall_barrier, hon, hq]
      exact ⟨fun _ _ => by omega, fun _ _ _ => hall, fun _ _ => by omega⟩
    all_goals simp [hpc, hon, hq]
  by_cases hpb : p = b.bootCpu
  · rw [if_pos (hprimary.trans (decide_eq_true hpb))]
    exact hmove _ rfl hpb nofun
  · rw [if_neg (fun heq => hpb (of_decide_eq_true (hprimary.symm.trans heq)))]
    exact hmove _ rfl hpb nofun

/-- A CPU that goes on has seen the flag of the boot CPU. -/
theorem BootInv.step_waitEarly (h : BootInv b s) (hpc : s.pc p = .waitEarly)
    (hs : bootStep b s p = some s') : BootInv b s' := by
  have hallowed := h.allowed p
  rw [bootStep] at hs
  simp only [hpc, Option.ite_none_left_eq_some, Option.some.injEq] at hs
  obtain ⟨hwait, rfl⟩ := hs
  rw [hpc] at hallowed
  have hne : p ≠ b.bootCpu := hallowed
  have hboot : 15 ≤ s.stage b.bootCpu := by
    rw [h.early] at hwait
    exact Nat.le_of_not_lt fun hlt => hwait (by rw [if_neg (by omega)]; omega)
  apply h.goto
  constructor
  case behindEarly => exact fun _ _ _ => hboot
  all_goals simp [hpc, hne, BootState.stage, BootPc.Allowed, BootPc.stage, Board.forall_barrier]

/-- The level of the root zone is one that there is. -/
theorem BootInv.step_initEarly (hb : b.Starts) (h : BootInv b s) (hpc : s.pc p = .initEarly)
    (hs : bootStep b s p = some s') : BootInv b s' := by
  have hallowed := h.allowed p
  rw [bootStep] at hs
  rw [hpc] at hallowed
  obtain rfl : p = b.bootCpu := hallowed
  have hlevel := h.newS2Level hb (c := b.bootCpu) (by rw [BootState.stage, hpc, BootPc.stage])
  obtain ⟨level, hroot⟩ := Option.isSome_iff_exists.mp hlevel.2
  simp only [hpc, hlevel.1, hroot, Option.some.injEq] at hs
  subst hs
  apply h.goto
  constructor
  case zone => exact .inr ⟨hroot.symm, hlevel.2⟩
  all_goals simp [hpc, BootState.stage, BootPc.Allowed, BootPc.stage, Board.forall_barrier]

theorem BootInv.step_storeEarly (h : BootInv b s) (hpc : s.pc p = .storeEarly)
    (hs : bootStep b s p = some s') : BootInv b s' := by
  have hallowed := h.allowed p
  rw [bootStep] at hs
  simp only [hpc, Option.some.injEq] at hs
  subst hs
  rw [hpc] at hallowed
  obtain rfl : p = b.bootCpu := hallowed
  apply h.goto
  constructor <;>
    simp [hpc, BootState.stage, BootPc.Allowed, BootPc.stage, Board.forall_barrier]

/-- The CPU is counted as one that is set up. -/
theorem BootInv.step_addInited {primary : Bool} (h : BootInv b s)
    (hpc : s.pc p = .addInited primary) (hs : bootStep b s p = some s') : BootInv b s' := by
  have hallowed := h.allowed p
  rw [bootStep] at hs
  simp only [hpc, Option.some.injEq] at hs
  subst hs
  rw [hpc] at hallowed
  apply h.goto
  constructor
  case allowed => exact hallowed
  case inited =>
    rw [show s.stage p = 15 by rw [BootState.stage, hpc, BootPc.stage], BootPc.stage,
      if_pos (by omega)]
    change fetchAdd s.initedCpus = s.initedCpus + 1
    rw [h.inited, b.fetchAdd_reached]
  all_goals simp [hpc, BootState.stage, BootPc.stage, Board.forall_barrier]

/-- A CPU that goes on has seen that all CPUs are set up. -/
theorem BootInv.step_waitInited {primary : Bool} (h : BootInv b s)
    (hpc : s.pc p = .waitInited primary) (hs : bootStep b s p = some s') : BootInv b s' := by
  have hallowed := h.allowed p
  rw [bootStep] at hs
  simp only [hpc, Option.ite_none_left_eq_some, Option.some.injEq] at hs
  obtain ⟨hwait, rfl⟩ := hs
  rw [hpc] at hallowed
  rw [h.inited] at hwait
  have hall := Board.all_reached hwait
  have hon : s.stage p = 16 := by rw [BootState.stage, hpc, BootPc.stage]
  have hmove : ∀ q : BootPc, q.stage = 17 → q.Allowed b p → (∀ k, q ≠ .wake k) →
      BootInv b (s.goto p q) := by
    intro q hq hqa hqw
    apply h.goto
    constructor
    case allowed => exact hqa
    case wake => exact hqw
    case together =>
      rw [Board.forall_barrier, hon, hq]
      exact ⟨fun _ _ => by omega, fun _ _ _ => by omega, fun _ _ => hall⟩
    all_goals simp [hpc, hon, hq]
  by_cases hpb : p = b.bootCpu
  · rw [if_pos (hallowed.trans (decide_eq_true hpb))]
    exact hmove _ rfl hpb nofun
  · rw [if_neg (fun heq => hpb (of_decide_eq_true (hallowed.symm.trans heq)))]
    exact hmove _ rfl hpb nofun

/-- A CPU that goes on has seen the second flag of the boot CPU. -/
theorem BootInv.step_waitLate (h : BootInv b s) (hpc : s.pc p = .waitLate)
    (hs : bootStep b s p = some s') : BootInv b s' := by
  have hallowed := h.allowed p
  rw [bootStep] at hs
  simp only [hpc, Option.ite_none_left_eq_some, Option.some.injEq] at hs
  obtain ⟨hwait, rfl⟩ := hs
  rw [hpc] at hallowed
  have hne : p ≠ b.bootCpu := hallowed
  have hboot : 18 ≤ s.stage b.bootCpu := by
    rw [h.late] at hwait
    exact Nat.le_of_not_lt fun hlt => hwait (by rw [if_neg (by omega)]; omega)
  apply h.goto
  constructor
  case behindLate => exact fun _ _ _ => hboot
  all_goals simp [hpc, hne, BootState.stage, BootPc.Allowed, BootPc.stage, Board.forall_barrier]

theorem BootInv.step_initLate (h : BootInv b s) (hpc : s.pc p = .initLate)
    (hs : bootStep b s p = some s') : BootInv b s' := by
  have hallowed := h.allowed p
  rw [bootStep] at hs
  simp only [hpc, Option.some.injEq] at hs
  subst hs
  rw [hpc] at hallowed
  obtain rfl : p = b.bootCpu := hallowed
  apply h.goto
  constructor <;>
    simp [hpc, BootState.stage, BootPc.Allowed, BootPc.stage, Board.forall_barrier]

/-- **A step keeps the invariant.** -/
theorem BootInv.step (hb : b.Starts) (h : BootInv b s) (hs : bootStep b s p = some s') :
    BootInv b s' := by
  cases hpc : s.pc p with
  | off => simp [bootStep, hpc] at hs
  | runVm primary => simp [bootStep, hpc] at hs
  | panicked => simp [bootStep, hpc] at hs
  | archEntry => exact h.step_archEntry hb hpc hs
  | loadMaster => exact h.step_loadMaster hpc hs
  | storeMaster => exact h.step_storeMaster hb hpc hs
  | setup => exact h.step_setup hpc hs
  | wake k => exact h.step_wake hb hpc hs
  | enter primary => exact h.step_enter hpc hs
  | waitEntered primary => exact h.step_waitEntered hpc hs
  | checkEntered primary => exact h.step_checkEntered hpc hs
  | storeNcpu primary => exact h.step_storeNcpu hpc hs
  | minParange primary => exact h.step_minParange hpc hs
  | addParange primary => exact h.step_addParange hpc hs
  | waitParange primary => exact h.step_waitParange hpc hs
  | waitEarly => exact h.step_waitEarly hpc hs
  | initEarly => exact h.step_initEarly hb hpc hs
  | storeEarly => exact h.step_storeEarly hpc hs
  | addInited primary => exact h.step_addInited hpc hs
  | waitInited primary => exact h.step_waitInited hpc hs
  | waitLate => exact h.step_waitLate hpc hs
  | initLate => exact h.step_initLate hpc hs

/-- Only the boot CPU has left reset. -/
theorem BootInv.reset (hb : b.Starts) : BootInv b b.reset := by
  have hlt := hb.bootCpu_lt
  have hoff : ∀ c, c ≠ b.bootCpu → b.reset.pc c = .off := fun c hc => by simp [Board.reset, hc]
  have hon : b.reset.pc b.bootCpu = .archEntry := by simp [Board.reset]
  have hstage : ∀ c, b.reset.stage c ≤ 1 := fun c => by
    by_cases hc : c = b.bootCpu
    · rw [BootState.stage, hc, hon, BootPc.stage]
    · rw [BootState.stage, hoff c hc, BootPc.stage]
      omega
  have hzero : ∀ k, 2 ≤ k → reached b.cpus b.reset.stage k = 0 := fun k hk =>
    reached_eq_zero_iff.mpr fun c _ => by have := hstage c; omega
  constructor
  case outside => exact fun c hc => hoff c (by omega)
  case allowed =>
    intro c
    by_cases hc : c = b.bootCpu
    · rw [hc, hon]
      trivial
    · rw [hoff c hc]
      trivial
  case booted => rw [hon]; nofun
  case first => exact fun _ => hoff
  case woken => rw [hon]; nofun
  case running => intro h6; have := hstage b.bootCpu; omega
  case master => exact iff_of_true rfl ((hstage _).trans (by omega))
  case entered => exact (hzero 7 (by omega)).symm
  case parangeOk => exact fun _ => (hzero 12 (by omega)).symm
  case inited => exact (hzero 16 (by omega)).symm
  case early => exact (if_neg (by have := hstage b.bootCpu; omega)).symm
  case late => exact (if_neg (by have := hstage b.bootCpu; omega)).symm
  case together => intro k hk c _ hkc; have := hstage c; omega
  case behindEarly => intro c _ hc; have := hstage c; omega
  case behindLate => intro c _ hc; have := hstage c; omega
  case parangeNcpu => intro _ c _ hc; have := hstage c; omega
  case parange_le =>
    exact ⟨le_rfl, fun _ c _ h11 => by have := hstage c; omega⟩
  case le_parange => exact (Board.le_minParange_iff.mp le_rfl).1
  case zone => intro h14; have := hstage b.bootCpu; omega

theorem boot_inv {h : List Nat} (hb : b.Starts) (r : (bootSystem b).Run h s) : BootInv b s := by
  refine TransitionSystem.Run.invariant (I := fun _ s => BootInv b s) ?_ ?_ r
  · rintro s rfl
    exact BootInv.reset hb
  · exact fun h s p s' _ hinv hs => hinv.step hb hs

/-! ## What the CPUs rely on -/

/-- **What each CPU relies on.** No CPU has panicked; those that are not counted stay off; only the
boot CPU goes the primary's way; the root zone is there, and of the right depth, for each CPU that
has left the early phase; and a CPU that runs its zone does so when all CPUs have been set up and
the primary has finished. -/
structure Ordered (b : Board) (s : BootState) : Prop where
  noPanic : ∀ c, s.pc c ≠ .panicked
  counted : ∀ c, b.ncpu ≤ c → s.pc c = .off
  primary : ∀ c, s.pc c = .initEarly ∨ s.pc c = .initLate ∨ s.pc c = .runVm true → c = b.bootCpu
  rootZone : ∀ c < b.ncpu, 15 ≤ s.stage c → s.rootZone = b.rootLevel ∧ b.rootLevel.isSome = true
  setUp : ∀ c < b.ncpu, 18 ≤ s.stage c → 18 ≤ s.stage b.bootCpu ∧ ∀ d < b.ncpu, 16 ≤ s.stage d

/-- **The order of booting**: in every run, each CPU finds what it relies on. -/
theorem boot_ordered {h : List Nat} (hb : b.Starts) (r : (bootSystem b).Run h s) : Ordered b s := by
  have hinv := boot_inv hb r
  constructor
  case noPanic =>
    intro c hc
    have := hinv.allowed c
    rw [hc] at this
    exact this
  case counted => exact hinv.outside
  case primary =>
    intro c hc
    have := hinv.allowed c
    rcases hc with hc | hc | hc
    · rw [hc] at this
      exact this
    · rw [hc] at this
      exact this
    · rw [hc] at this
      exact of_decide_eq_true this.symm
  case rootZone =>
    intro c hc h15
    have := hinv.behindEarly c (Board.mem_cpus.mpr hc) h15
    exact hinv.zone (by omega)
  case setUp =>
    intro c hc h18
    refine ⟨hinv.behindLate c (Board.mem_cpus.mpr hc) h18, fun d hd => ?_⟩
    exact hinv.together 16 (.inr (.inr rfl)) c (Board.mem_cpus.mpr hc) (by omega) d
      (Board.mem_cpus.mpr hd)

/-- Two CPUs of which one tells a smaller `PARange`. -/
def twoCpus : Board where
  arch := .aarch64
  mpidrTable := false
  autodetectNcpus := true
  cpuNodes := 2
  boardNcpus := 4
  bootCpu := 0
  idAa64mmfr0El1 cpu := if cpu = 0 then 0x1125 else 0x1122
  boardNcpus_pos := by decide
  boardNcpus_le := by decide

theorem twoCpus_starts : twoCpus.Starts where
  bootCpu_lt := by decide
  first := fun _ => rfl
  canStart := by decide
  parange := fun _ => ⟨0, by decide, by decide⟩

/-- The CPUs take turns until both run their zones. -/
def twoCpusSteps : List Nat :=
  [0, 0, 0, 0, 0, 0, 0, 0, 1, 1, 1, 0, 1, 1, 1, 0, 0, 0, 1, 1, 0, 0, 1, 0, 0, 0, 1, 1, 1, 0, 0, 1]

theorem twoCpus_run : ∃ s, (bootSystem twoCpus).Run (twoCpusSteps.reverse ++ []) s ∧
    s.stage 0 = 18 ∧ s.stage 1 = 18 := by
  have hsome : (TransitionSystem.exec (bootStep twoCpus) (fun _ _ => true) twoCpusSteps
      twoCpus.reset).any (fun s => s.stage 0 = 18 ∧ s.stage 1 = 18) = true := by decide
  obtain ⟨s, hs, hstage⟩ := (Option.any_eq_true _ _).mp hsome
  exact ⟨s, .exec _ _ (fun _ _ _ _ hstep => hstep) (.start rfl) hs, of_decide_eq_true hstage⟩

theorem boot_ordered_twoCpus :
    ∃ s, (bootSystem twoCpus).Run (twoCpusSteps.reverse ++ []) s ∧ Ordered twoCpus s := by
  obtain ⟨s, r, -⟩ := twoCpus_run
  exact ⟨s, r, boot_ordered twoCpus_starts r⟩

/-- **The CPUs agree on the physical address size** on AArch64: a CPU that has left the third wait
finds the smallest `PARange` of all of them, and an address space that is made from then on has the
depth that goes with it. -/
theorem boot_parange {h : List Nat} {c : Nat} (hb : b.Starts) (ha : b.arch = .aarch64)
    (r : (bootSystem b).Run h s) (h13 : 13 ≤ s.stage c) :
    s.minParange = b.minParange ∧ s.parangeOkCpus = s.parangeNcpu ∧ b.newS2Level s = b.rootLevel ∧
      b.rootLevel.isSome = true := by
  have hinv := boot_inv hb r
  obtain ⟨hmin, hok, hn⟩ := hinv.minParange_of_stage ha h13
  exact ⟨hmin, hok.trans hn.symm, hinv.newS2Level hb h13⟩

/-- The smaller of the two `PARange`s makes an address space of three levels. -/
theorem boot_parange_twoCpus :
    ∃ s, (bootSystem twoCpus).Run (twoCpusSteps.reverse ++ []) s ∧ s.minParange = 2 ∧
      twoCpus.newS2Level s = some 3 := by
  obtain ⟨s, r, h0, -⟩ := twoCpus_run
  obtain ⟨hmin, -, hlevel, -⟩ := boot_parange (c := 0) twoCpus_starts rfl r (by omega)
  exact ⟨s, r, hmin.trans (by decide), hlevel.trans (by decide)⟩

end Hvisor
