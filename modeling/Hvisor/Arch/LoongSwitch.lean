import Hvisor.Lib.RegisterMachine
import Hvisor.Lib.WorldSwitch
import Mathlib.Data.List.FinRange

/-!
# The world switch on LoongArch

The code of `_hyp_trap_vector` and `_hyp_trap_return`. The context of a guest lies below the address
in `SAVE3`, and the stack is in `SAVE4`; `DESAVE` takes the register by which the context is
reached. Besides the general registers the code saves and restores the control registers of the
guest. Those of the timer and `ESTAT` it saves only: they count on while the handler runs, which
sets them itself.

## Main definitions

* `Gcsr`, `LoongCsr`: the control registers of the guest and of the host
* `hypTrapEntry`, `hypTrapReturn`: the code
* `ZoneContext`: what a guest has in the CPU
* `loongSwitch`: the world switch

## Main results

* `run_hypTrapEntry`, `run_hypTrapReturn`: what the code does
* `loongarch_switch_refines`: a guest cannot tell that its registers were saved
-/

namespace Hvisor

open Function RegisterMachine Instr ByteMemory

/-- The control registers of a guest, in the order of the context. -/
inductive Gcsr where
  | crmd | prmd | euen | misc | ectl | estat | era | badv | badi | eentry
  | tlbidx | tlbehi | tlbelo0 | tlbelo1
  | asid | pgdl | pgdh | pgd | pwcl | pwch
  | stlbps | ravcfg
  | cpuid | prcfg1 | prcfg2 | prcfg3
  | save0 | save1 | save2 | save3 | save4 | save5 | save6 | save7
  | save8 | save9 | save10 | save11 | save12 | save13 | save14 | save15
  | tid | tcfg | tval | cntc | ticlr
  | llbctl
  | tlbrentry | tlbrbadv | tlbrera | tlbrsave | tlbrelo0 | tlbrelo1 | tlbrehi | tlbrprmd
  | dmw0 | dmw1 | dmw2 | dmw3
  deriving DecidableEq

/-- The control registers of the host that the code uses, and those of the guest. -/
inductive LoongCsr where
  | era
  | save3
  | save4
  | desave
  | gcsr (g : Gcsr)
  deriving DecidableEq

/-- A core. -/
abbrev LoongCore := RegisterMachine LoongCsr

variable {s t : LoongCore} {ctx top : BitVec 64}

/-! ## The code -/

/-- The guest's control registers, in the order of the code. -/
def gcsrs : List Gcsr :=
  [.crmd, .prmd, .euen, .misc, .ectl, .estat, .era, .badv, .badi, .eentry,
    .tlbidx, .tlbehi, .tlbelo0, .tlbelo1,
    .asid, .pgdl, .pgdh, .pgd, .pwcl, .pwch,
    .stlbps, .ravcfg,
    .cpuid, .prcfg1, .prcfg2, .prcfg3,
    .save0, .save1, .save2, .save3, .save4, .save5, .save6, .save7,
    .save8, .save9, .save10, .save11, .save12, .save13, .save14, .save15,
    .tid, .tcfg, .tval, .cntc, .ticlr,
    .llbctl,
    .tlbrentry, .tlbrbadv, .tlbrera, .tlbrsave, .tlbrelo0, .tlbrelo1, .tlbrehi, .tlbrprmd,
    .dmw0, .dmw1, .dmw2, .dmw3]

/-- The registers that `_hyp_trap_return` leaves as they are. -/
def Gcsr.isLive : Gcsr → Bool
  | estat | tid | tcfg | tval | cntc | ticlr => true
  | _ => false

/-- The place of a control register of the guest in its context: `n` is at `256 + 8 * n`. -/
def Gcsr.slot (g : Gcsr) : Nat := 33 + gcsrs.idxOf g

/-- The general registers, each with its place in the context, but for `$r3`. -/
def gprPlaces : List (Fin 32 × Nat) :=
  ((List.finRange 32).filter (· ≠ 3)).map fun r => (r, (r : Nat))

/-- The control registers that are saved. -/
def savedCsrs : List (LoongCsr × Nat) :=
  (.era, 32) :: gcsrs.map fun g => (.gcsr g, g.slot)

/-- The control registers that are restored. -/
def restoredCsrs : List (LoongCsr × Nat) :=
  (.era, 32) :: (gcsrs.filter (!·.isLive)).map fun g => (.gcsr g, g.slot)

/-- The first part of `_hyp_trap_vector` makes `$r3` point to the context. -/
def pointEntry : List (Instr LoongCsr) :=
  [.csrrw 3 .desave 3, .csrr 3 .save3, .addi 3 3 (-768)]

/-- `_hyp_trap_vector` up to the call of `trap_handler`. -/
def hypTrapEntry : List (Instr LoongCsr) :=
  pointEntry ++ save 3 gprPlaces ++ saveCsrs 12 3 savedCsrs ++
    [.csrr 12 .desave, .sd 12 3 (8 * 3), .addi 4 3 0, .csrr 3 .save4]

/-- The first part of `_hyp_trap_return` restores the control registers. -/
def csrReturn : List (Instr LoongCsr) :=
  [.addi 3 4 0] ++ restoreCsrs 12 12 3 restoredCsrs ++ [.ld 12 3 (8 * 3), .csrrw 12 .desave 12]

/-- The way back to the guest. -/
def hypTrapReturn : List (Instr LoongCsr) :=
  csrReturn ++ restore 3 gprPlaces ++ [.csrrw 3 .desave 3]

theorem mem_gcsrs (g : Gcsr) : g ∈ gcsrs := by cases g <;> simp [gcsrs]

theorem gcsr_mem_savedCsrs (g : Gcsr) : (.gcsr g, g.slot) ∈ savedCsrs :=
  List.mem_cons_of_mem _ (List.mem_map.mpr ⟨g, mem_gcsrs g, rfl⟩)

theorem savedCsrs_ne {p : LoongCsr × Nat} (hp : p ∈ savedCsrs) : p.1 ≠ .desave := by
  rcases List.mem_cons.mp hp with rfl | hp
  · nofun
  · obtain ⟨g, -, rfl⟩ := List.mem_map.mp hp
    nofun

theorem gcsr_mem_restoredCsrs {g : Gcsr} (h : g.isLive = false) :
    (.gcsr g, g.slot) ∈ restoredCsrs := by
  apply List.mem_cons_of_mem
  exact List.mem_map.mpr ⟨g, List.mem_filter.mpr ⟨mem_gcsrs g, by rw [h]; rfl⟩, rfl⟩

theorem notMem_restoredCsrs {g : Gcsr} (h : g.isLive = true) :
    .gcsr g ∉ restoredCsrs.map Prod.fst := by
  simp [restoredCsrs, h]

theorem restoredCsrs_ne {k : LoongCsr} {i : Nat} (hk : (k, i) ∈ restoredCsrs) : k ≠ .desave := by
  rintro rfl
  simp [restoredCsrs] at hk

theorem restoredCsrs_nodup : (restoredCsrs.map Prod.fst).Nodup := by decide

theorem gprPlaces_ne {p : Fin 32 × Nat} (hp : p ∈ gprPlaces) : p.1 ≠ 3 := by
  obtain ⟨r, hr, rfl⟩ := List.mem_map.mp hp
  exact of_decide_eq_true (List.mem_filter.mp hr).2

theorem gprPlaces_nodup : (gprPlaces.map Prod.fst).Nodup := by decide

theorem mem_gprPlaces {r : Fin 32} (h : r ≠ 3) : (r, (r : Nat)) ∈ gprPlaces :=
  List.mem_map.mpr ⟨r, List.mem_filter.mpr ⟨List.mem_finRange r, decide_eq_true h⟩, rfl⟩

/-! ## What the code does -/

/-- What `_hyp_trap_vector` stores into the context. -/
def LoongCore.frame (s : LoongCore) : List (Nat × BitVec 64) :=
  gprPlaces.map (fun p => (p.2, s.get p.1)) ++ savedCsrs.map (fun p => (p.2, s.csr p.1)) ++
    [(3, s.get 3)]

/-- The places that are stored to. -/
def framePlaces : List Nat := gprPlaces.map Prod.snd ++ savedCsrs.map Prod.snd ++ [3]

theorem map_fst_loongFrame (s : LoongCore) : s.frame.map Prod.fst = framePlaces := by
  rw [LoongCore.frame, framePlaces, List.map_append, List.map_append, List.map_map, List.map_map]
  rfl

theorem framePlaces_nodup : framePlaces.Nodup := by decide +kernel

theorem framePlaces_lt : ∀ i ∈ framePlaces, i < 93 := by decide +kernel

theorem run_pointEntry (s : LoongCore) :
    (run s pointEntry).mem = s.mem ∧ (run s pointEntry).get 3 = s.csr .save3 - 768 ∧
      (∀ r, r ≠ 3 → (run s pointEntry).get r = s.get r) ∧
      (run s pointEntry).csr .desave = s.get 3 ∧
      ∀ k, k ≠ .desave → (run s pointEntry).csr k = s.csr k := by
  rw [pointEntry, run_cons, run_cons, run_cons, run_nil, Instr.step, Instr.step, Instr.step]
  refine ⟨?_, ?_, fun r hr => ?_, ?_, fun k hk => ?_⟩
  · rw [mem_set, mem_set, mem_set, mem_setCsr]
  · rw [get_set_self _ (by decide), get_set_self _ (by decide), csr_set, csr_setCsr,
      if_neg (by decide)]
    exact (BitVec.sub_eq_add_neg ..).symm
  · rw [get_set_of_ne _ hr, get_set_of_ne _ hr, get_set_of_ne _ hr, get_setCsr]
  · rw [csr_set, csr_set, csr_set, csr_setCsr, if_pos rfl]
  · rw [csr_set, csr_set, csr_set, csr_setCsr, if_neg hk]

/-- The main part of `_hyp_trap_vector` stores all registers but `$r3`. -/
theorem run_saveEntry (h : s.csr .save3 - 768 = ctx) :
    let t := run (run (run s pointEntry) (save 3 gprPlaces)) (saveCsrs 12 3 savedCsrs)
    t.mem = s.mem.spill ctx (gprPlaces.map (fun p => (p.2, s.get p.1)) ++
        savedCsrs.map fun p => (p.2, s.csr p.1)) ∧
      t.get 3 = ctx ∧ t.csr .desave = s.get 3 ∧ ∀ k, k ≠ .desave → t.csr k = s.csr k := by
  obtain ⟨hmem, hpoint, hget, hdesave, hcsr⟩ := run_pointEntry s
  rw [h] at hpoint
  have hgpr : gprPlaces.map (fun p => (p.2, (run s pointEntry).get p.1)) =
      gprPlaces.map fun p => (p.2, s.get p.1) :=
    List.map_congr_left fun p hp => by rw [hget _ (gprPlaces_ne hp)]
  have hcsrs : savedCsrs.map (fun p => (p.2, (run s pointEntry).csr p.1)) =
      savedCsrs.map fun p => (p.2, s.csr p.1) :=
    List.map_congr_left fun p hp => by rw [hcsr _ (savedCsrs_ne hp)]
  have hsave := run_save (run s pointEntry) 3 gprPlaces
  obtain ⟨hmem', hcsr', hget'⟩ := run_saveCsrs
    (run (run s pointEntry) (save 3 gprPlaces)) 12 3 savedCsrs (by decide) (by decide)
  refine ⟨?_, ?_, ?_, fun k hk => ?_⟩
  · rw [hmem', hsave, mem_setMem, get_setMem, csr_setMem, hpoint, hgpr, hcsrs, hmem, spill_append]
  · rw [hget' 3 (by decide), hsave, get_setMem, hpoint]
  · rw [hcsr', hsave, csr_setMem, hdesave]
  · rw [hcsr', hsave, csr_setMem, hcsr k hk]

/-- **What `_hyp_trap_vector` does**: it stores what the guest has into the context, whose address
is the argument of the handler, and takes the stack from `SAVE4`. -/
theorem run_hypTrapEntry (h : s.csr .save3 - 768 = ctx) :
    (run s hypTrapEntry).mem = s.mem.spill ctx s.frame ∧ (run s hypTrapEntry).get 4 = ctx ∧
      (run s hypTrapEntry).get 3 = s.csr .save4 ∧
      ∀ k, k ≠ .desave → (run s hypTrapEntry).csr k = s.csr k := by
  obtain ⟨hmem, hpoint, hdesave, hcsr⟩ := run_saveEntry h
  rw [hypTrapEntry, run_append, run_append, run_append, LoongCore.frame, spill_append, ← hmem,
    spill_cons, spill_nil, run_cons, run_cons, run_cons, run_cons, run_nil, Instr.step, Instr.step,
    Instr.step, Instr.step]
  refine ⟨?_, ?_, ?_, fun k hk => ?_⟩
  · rw [mem_set, mem_set, mem_setMem, mem_set, get_set_of_ne _ (by decide), hpoint,
      get_set_self _ (by decide), hdesave, slot]
  · rw [get_set_of_ne _ (by decide), get_set_self _ (by decide), get_setMem,
      get_set_of_ne _ (by decide), hpoint]
    exact BitVec.add_zero ctx
  · rw [get_set_self _ (by decide), csr_set, csr_setMem, csr_set, hcsr .save4 (by decide)]
  · rw [csr_set, csr_set, csr_setMem, csr_set, hcsr k hk]

theorem run_csrReturn (h : s.get 4 = ctx) :
    (run s csrReturn).mem = s.mem ∧ (run s csrReturn).get 3 = ctx ∧
      (run s csrReturn).csr .desave = s.mem.load (slot ctx 3) ∧
      (∀ k, k ∉ restoredCsrs.map Prod.fst → k ≠ .desave → (run s csrReturn).csr k = s.csr k) ∧
      ∀ k i, (k, i) ∈ restoredCsrs → (run s csrReturn).csr k = s.mem.load (slot ctx i) := by
  have hpoint : ((addi 3 4 0).step s).get 3 = ctx := by
    rw [Instr.step, get_set_self _ (by decide), h]
    exact BitVec.add_zero ctx
  have hmem : ((addi 3 4 0).step s).mem = s.mem := mem_set ..
  have hcsr : ((addi 3 4 0).step s).csr = s.csr := csr_set ..
  obtain ⟨hmem', hget, hcsr', hload⟩ := run_restoreCsrs ((addi 3 4 0).step s) 12 12 3 restoredCsrs
    (by decide) (by decide) (.inr rfl) restoredCsrs_nodup
  have hpoint' := (hget 3 (by decide)).trans hpoint
  rw [hmem] at hmem'
  rw [hmem, hpoint] at hload
  rw [csrReturn, run_append, run_append, run_cons s, run_nil, run_cons, run_cons, run_nil]
  generalize run ((addi 3 4 0).step s) (restoreCsrs 12 12 3 restoredCsrs) = t at *
  rw [Instr.step, Instr.step]
  refine ⟨?_, ?_, ?_, fun k hk hne => ?_, fun k i hk => ?_⟩
  · rw [mem_set, mem_setCsr, mem_set, hmem']
  · rw [get_set_of_ne _ (by decide), get_setCsr, get_set_of_ne _ (by decide), hpoint']
  · rw [csr_set, csr_setCsr, if_pos rfl, get_set_self _ (by decide), hmem', hpoint']
    rfl
  · rw [csr_set, csr_setCsr, if_neg hne, csr_set, hcsr' k hk, hcsr]
  · have hne : k ≠ .desave := restoredCsrs_ne hk
    rw [csr_set, csr_setCsr, if_neg hne, csr_set, hload k i hk]

/-- **What `_hyp_trap_return` does**: it gives the guest what the context holds, but for the
registers that are live, which stay as they are. -/
theorem run_hypTrapReturn (h : s.get 4 = ctx) :
    (run s hypTrapReturn).mem = s.mem ∧
      (∀ r, r ≠ 0 → (run s hypTrapReturn).get r = s.mem.load (slot ctx r)) ∧
      (∀ k, k ∉ restoredCsrs.map Prod.fst → k ≠ .desave →
        (run s hypTrapReturn).csr k = s.csr k) ∧
      ∀ k i, (k, i) ∈ restoredCsrs → (run s hypTrapReturn).csr k = s.mem.load (slot ctx i) := by
  obtain ⟨hmem, hpoint, hdesave, hcsr, hload⟩ := run_csrReturn h
  obtain ⟨hcsr', hmem', -⟩ :=
    run_restore (l := gprPlaces) (run s csrReturn) fun p hp => gprPlaces_ne hp
  rw [hypTrapReturn, run_append, run_append, run_cons, run_nil, Instr.step]
  refine ⟨?_, fun r hr => ?_, fun k hk hne => ?_, fun k i hk => ?_⟩
  · rw [mem_set, mem_setCsr, hmem', hmem]
  · by_cases h3 : r = 3
    · subst h3
      rw [get_set_self _ hr, hcsr', hdesave]
      rfl
    · rw [get_set_of_ne _ h3, get_setCsr, get_run_restore _ (fun p hp => gprPlaces_ne hp)
        gprPlaces_nodup hr (mem_gprPlaces h3), hmem, hpoint]
  · rw [csr_set, csr_setCsr, if_neg hne, hcsr', hcsr k hk hne]
  · rw [csr_set, csr_setCsr, if_neg (restoredCsrs_ne hk), hcsr', hload k i hk]

/-! ## The switch -/

/-- What a guest has in the CPU, and what the context keeps of it; `$r0` is zero in any case. -/
structure ZoneContext where
  x : Fin 32 → BitVec 64
  sepc : BitVec 64
  gcsr : Gcsr → BitVec 64

/-- What the guest has. -/
def LoongCore.guest (s : LoongCore) : ZoneContext where
  x := s.get
  sepc := s.csr .era
  gcsr g := s.csr (.gcsr g)

/-- The context while the handler runs; the live registers are those of the CPU. -/
def LoongCore.saved (ctx : BitVec 64) (s : LoongCore) : ZoneContext where
  x r := if r = 0 then 0 else s.mem.load (slot ctx r)
  sepc := s.mem.load (slot ctx 32)
  gcsr g := if g.isLive then s.csr (.gcsr g) else s.mem.load (slot ctx g.slot)

/-- The CPU knows where the context ends, and the top of its stack. -/
def LoongCore.Ready (ctx top : BitVec 64) (s : LoongCore) : Prop :=
  s.csr .save3 - 768 = ctx ∧ s.csr .save4 = top

theorem loongFrame_lt {p : Nat × BitVec 64} (hp : p ∈ s.frame) : p.1 < 93 := by
  apply framePlaces_lt
  rw [← map_fst_loongFrame s]
  exact List.mem_map_of_mem hp

theorem load_loongFrame {i : Nat} {v : BitVec 64} (hmem : (i, v) ∈ s.frame) (m : ByteMemory)
    (base : BitVec 64) : (m.spill base s.frame).load (slot base i) = v := by
  apply load_spill_of_mem (fun p hp => (loongFrame_lt hp).trans (by decide)) ?_ hmem
  rw [map_fst_loongFrame]
  exact framePlaces_nodup

theorem get_mem_loongFrame (s : LoongCore) (r : Fin 32) : ((r : Nat), s.get r) ∈ s.frame := by
  by_cases h3 : r = 3
  · subst h3
    exact List.mem_append_right _ (List.mem_singleton.mpr rfl)
  · apply List.mem_append_left
    exact List.mem_append_left _ (List.mem_map.mpr ⟨_, mem_gprPlaces h3, rfl⟩)

theorem csr_mem_loongFrame {k : LoongCsr} {i : Nat} (hk : (k, i) ∈ savedCsrs) :
    (i, s.csr k) ∈ s.frame := by
  apply List.mem_append_left
  exact List.mem_append_right _ (List.mem_map.mpr ⟨_, hk, rfl⟩)

/-- **What is saved is what the guest has.** -/
theorem saved_hypTrapEntry (h : s.Ready ctx top) :
    LoongCore.saved ctx (run s hypTrapEntry) = s.guest := by
  obtain ⟨hmem, -, -, hcsr⟩ := run_hypTrapEntry h.1
  rw [LoongCore.saved, LoongCore.guest, ZoneContext.mk.injEq, hmem]
  refine ⟨funext fun r => ?_, ?_, funext fun g => ?_⟩
  · split_ifs with hr
    · rw [hr, get_zero]
    · exact load_loongFrame (get_mem_loongFrame s r) ..
  · exact load_loongFrame (csr_mem_loongFrame List.mem_cons_self) ..
  · split_ifs with hg
    · exact hcsr _ nofun
    · exact load_loongFrame (csr_mem_loongFrame (gcsr_mem_savedCsrs g)) ..

/-- **What the guest gets back is what is saved.** -/
theorem guest_hypTrapReturn (h : s.get 4 = ctx) :
    LoongCore.guest (run s hypTrapReturn) = s.saved ctx := by
  obtain ⟨-, hget, hcsr, hload⟩ := run_hypTrapReturn h
  rw [LoongCore.saved, LoongCore.guest, ZoneContext.mk.injEq]
  refine ⟨funext fun r => ?_, hload _ _ List.mem_cons_self, funext fun g => ?_⟩
  · split_ifs with hr
    · rw [hr, get_zero]
    · exact hget r hr
  · split_ifs with hg
    · exact hcsr _ (notMem_restoredCsrs hg) nofun
    · exact hload _ _ (gcsr_mem_restoredCsrs (Bool.not_eq_true _ ▸ hg))

/-- The handler is called with the address of the context, and on the stack of the CPU. -/
theorem called_hypTrapEntry (h : s.Ready ctx top) :
    LoongCore.Ready ctx top (run s hypTrapEntry) ∧ (run s hypTrapEntry).get 4 = ctx ∧
      (run s hypTrapEntry).get 3 = top := by
  obtain ⟨-, h4, h3, hcsr⟩ := run_hypTrapEntry h.1
  refine ⟨⟨?_, ?_⟩, h4, h3.trans h.2⟩
  · rw [hcsr .save3 (by decide), h.1]
  · rw [hcsr .save4 (by decide), h.2]

theorem ready_hypTrapReturn (h : s.Ready ctx top) (h4 : s.get 4 = ctx) :
    LoongCore.Ready ctx top (run s hypTrapReturn) := by
  obtain ⟨-, -, hcsr, -⟩ := run_hypTrapReturn h4
  refine ⟨?_, ?_⟩
  · rw [hcsr .save3 (by decide) (by decide), h.1]
  · rw [hcsr .save4 (by decide) (by decide), h.2]

/-- **The world switch on LoongArch**: the context is at `ctx`, and the stack of the CPU is at
`top`. The guest cannot change the control registers of the host. -/
def loongSwitch (ctx top : BitVec 64) : WorldSwitch LoongCore ZoneContext Unit where
  exit s := run s hypTrapEntry
  enter s := run s hypTrapReturn
  cause _ := ()
  guest := LoongCore.guest
  saved := LoongCore.saved ctx
  Ready := LoongCore.Ready ctx top
  Kept s s' := s'.csr .save3 = s.csr .save3 ∧ s'.csr .save4 = s.csr .save4
  Called s := s.Ready ctx top ∧ s.get 4 = ctx ∧ s.get 3 = top
  Done s := s.Ready ctx top ∧ s.get 4 = ctx
  ready_of_kept h hk := ⟨(congrArg (· - 768) hk.1).trans h.1, hk.2.trans h.2⟩
  called_exit := called_hypTrapEntry
  saved_exit := saved_hypTrapEntry
  ready_enter h := ready_hypTrapReturn h.1 h.2
  guest_enter h := guest_hypTrapReturn h.2

/-- **A guest cannot tell that its registers were saved**: whatever it runs and whatever traps it
takes, it sees in the CPU what it had there, changed by the handlers and by nothing else. The next
trap finds the context and the stack, and saves what the guest has without touching any byte outside
the context. -/
theorem loongarch_switch_refines {handler : Unit → LoongCore → LoongCore → Prop}
    {handle : Unit → ZoneContext → ZoneContext → Prop} {reset : ZoneContext}
    {h : List (SwitchEvent ZoneContext Unit)}
    (hh : (loongSwitch ctx top).Handles handler handle)
    (r : ((loongSwitch ctx top).system handler reset).Run h s) :
    (vcpuSystem handle reset).Run h s.guest ∧ s.Ready ctx top ∧
      ∀ a, 768 ≤ (a - ctx).toNat → (run s hypTrapEntry).mem a = s.mem a := by
  obtain ⟨hrun, hready⟩ := WorldSwitch.run_refines hh r
  refine ⟨hrun, hready, fun a ha => ?_⟩
  rw [(run_hypTrapEntry hready.1).1]
  exact spill_outside (n := 93) (fun p hp => loongFrame_lt hp) (by omega)

/-- The guest goes on with the next instruction. -/
def ZoneContext.skip (c : ZoneContext) : ZoneContext := { c with sepc := c.sepc + 4 }

/-- A handler that does nothing else, and returns to where the context is. -/
def skipTrap (ctx : BitVec 64) (_ : Unit) (s t : LoongCore) : Prop :=
  t = (s.setMem (s.mem.store (slot ctx 32) (s.mem.load (slot ctx 32) + 4))).set 4 ctx

theorem Gcsr.slot_lt (g : Gcsr) : g.slot < 93 := by
  have := List.idxOf_lt_length_iff.mpr (mem_gcsrs g)
  rw [Gcsr.slot]
  exact Nat.add_lt_add_left this 33

theorem skipTrap_handles (ctx top : BitVec 64) :
    (loongSwitch ctx top).Handles (skipTrap ctx) fun _ c c' => c' = c.skip := by
  rintro _ s t rfl ⟨hready, -⟩
  have hother : ∀ i, i < 93 → i ≠ 32 →
      (s.mem.store (slot ctx 32) (s.mem.load (slot ctx 32) + 4)).load (slot ctx i) =
        s.mem.load (slot ctx i) := fun i hi hne =>
    load_store_slot_of_ne (by decide) (hi.trans (by decide)) hne.symm
  refine ⟨⟨⟨?_, ?_⟩, get_set_self _ (by decide) _⟩, ?_⟩
  · rw [csr_set, csr_setMem, hready.1]
  · rw [csr_set, csr_setMem, hready.2]
  · change LoongCore.saved ctx _ = (LoongCore.saved ctx s).skip
    rw [LoongCore.saved, LoongCore.saved, ZoneContext.skip, ZoneContext.mk.injEq, mem_set,
      mem_setMem, csr_set, csr_setMem, load_store_self]
    refine ⟨funext fun r => ?_, rfl, funext fun g => ?_⟩
    · rw [hother r (by omega) (by omega)]
    · rw [hother g.slot g.slot_lt (by rw [Gcsr.slot]; omega)]

/-- A CPU about to enter its guest for the first time, with its context at `0x9000_1000`. -/
def bootLoong : LoongCore where
  x := update (fun _ => 0) 4 0x9000_1000
  csr
    | .save3 => 0x9000_1300
    | .save4 => 0x9008_0000
    | _ => 0
  mem _ := 0

theorem bootLoong_done :
    bootLoong.Ready 0x9000_1000 0x9008_0000 ∧ bootLoong.get 4 = 0x9000_1000 := by
  refine ⟨⟨?_, rfl⟩, ?_⟩
  · decide
  · decide

theorem loongarch_switch_refines_skip :
    ∃ s, ((loongSwitch 0x9000_1000 0x9008_0000).system (skipTrap 0x9000_1000)
        (bootLoong.saved 0x9000_1000)).Run [.trap ()] s ∧
      s.guest = (bootLoong.saved 0x9000_1000).skip := by
  have r := TransitionSystem.Run.next
    (S := (loongSwitch 0x9000_1000 0x9008_0000).system (skipTrap 0x9000_1000)
      (bootLoong.saved 0x9000_1000))
    (.start ⟨bootLoong, bootLoong_done, rfl, rfl⟩) (e := .trap ()) ⟨rfl, _, rfl, rfl⟩
  refine ⟨_, r, ?_⟩
  obtain ⟨hrun, -⟩ := loongarch_switch_refines (skipTrap_handles _ _) r
  cases hrun with
  | next r' hs =>
    cases r' with
    | start hi => exact hs.trans (congrArg ZoneContext.skip hi)

end Hvisor
