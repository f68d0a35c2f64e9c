import Hvisor.Lib.PairStack
import Hvisor.Lib.WorldSwitch
import Mathlib.Data.List.FinRange

/-!
# The world switch on AArch64

The code of `trap.S` and `vmreturn`: `handle_vmexit` pushes the general registers of a guest onto
the stack of the CPU, as `GeneralRegisters`, and `vmreturn` pops them, so that the stack is empty
whenever a guest runs. Where and how the guest goes on stays in `ELR_EL2` and `SPSR_EL2`, where the
handler may change it.

## Main definitions

* `ExitReason`: the vectors that lead to the handler
* `handleVmexit`, `vmreturn`: the code
* `El1Context`: what a guest has in the CPU
* `aarch64Switch`: the world switch

## Main results

* `run_handleVmexit`, `run_vmreturn`: what the code does
* `aarch64_switch_refines`: a guest cannot tell that its registers were saved
-/

namespace Hvisor

open Function PairInstr ByteMemory

/-- The vectors of `_hyp_trap_vector` that have a handler. -/
inductive ExitReason where
  | el2Abort
  | el2Irq
  | el1Abort
  | el1Irq
  deriving DecidableEq

/-- The number of a reason. -/
def ExitReason.code : ExitReason → BitVec 64
  | el2Abort => 0x0
  | el2Irq => 0x1
  | el1Abort => 0x2
  | el1Irq => 0x3

/-- A CPU at EL2: the registers, the stack and the memory, the registers that an exception sets, and
the vector that it takes. -/
structure El2 extends StackMachine (Fin 31) where
  elr : BitVec 64
  spsr : BitVec 64
  vector : ExitReason

variable {s t : El2} {m : StackMachine (Fin 31)} {base : BitVec 64} {exitReason : ExitReason}

/-! ## The code -/

/-- The pairs `x1, x2` to `x29, x30`. -/
def usrPairs : List (Fin 31 × Fin 31) :=
  (List.finRange 15).map fun k : Fin 15 => (⟨2 * k + 1, by omega⟩, ⟨2 * k + 2, by omega⟩)

/-- The macro `HANDLE_VMEXIT`. -/
def handleVmexit (exitReason : ExitReason) : List (PairInstr (Fin 31)) :=
  usrPairs.reverse.map (fun p => .push p.1 p.2) ++
    [.const 1 exitReason.code, .push 1 0, .const 29 0, .const 30 0, .fromSp 0]

/-- The function `vmreturn`. -/
def vmreturn : List (PairInstr (Fin 31)) :=
  [.toSp 0, .pop 1 0] ++ usrPairs.map fun p => .pop p.1 p.2

/-! ## What the code does -/

theorem usrPairs_getElem (k : Fin 15) :
    usrPairs[(k : Nat)]? = some (⟨2 * k + 1, by omega⟩, ⟨2 * k + 2, by omega⟩) := by
  rw [usrPairs, List.getElem?_map, List.getElem?_eq_getElem (by simp), List.getElem_finRange]
  rfl

/-- The pair of a register other than `x0`. -/
theorem usrPairs_of_ne_zero {r : Fin 31} (hr : r ≠ 0) :
    ∃ k : Fin 15, ∃ p, usrPairs[(k : Nat)]? = some p ∧
      (r = p.1 ∧ (r : Nat) + 1 = 2 * (1 + k) ∨ r = p.2 ∧ (r : Nat) + 1 = 2 * (1 + k) + 1) := by
  have hpos : (r : Nat) ≠ 0 := fun h => hr (Fin.ext h)
  refine ⟨⟨(r - 1) / 2, by omega⟩, _, usrPairs_getElem _, ?_⟩
  by_cases hodd : (r : Nat) % 2 = 1
  · refine .inl ⟨Fin.ext ?_, ?_⟩ <;> dsimp only <;> omega
  · refine .inr ⟨Fin.ext ?_, ?_⟩ <;> dsimp only <;> omega

/-- What `handle_vmexit` stores. -/
def generalRegisters (x : Fin 31 → BitVec 64) (exitReason : ExitReason) :
    List (Nat × BitVec 64) :=
  (pairSlots 1 usrPairs.reverse).map (fun q => (q.1, x q.2)) ++ [(0, exitReason.code), (1, x 0)]

theorem map_fst_generalRegisters (x : Fin 31 → BitVec 64) (exitReason : ExitReason) :
    (generalRegisters x exitReason).map Prod.fst =
      (pairSlots 1 usrPairs.reverse).map Prod.fst ++ [0, 1] := by
  rw [generalRegisters, List.map_append, List.map_map]
  rfl

theorem generalRegisters_lt {x : Fin 31 → BitVec 64} {p : Nat × BitVec 64}
    (hp : p ∈ generalRegisters x exitReason) : p.1 < 32 := by
  have hall : ∀ i ∈ (pairSlots 1 usrPairs.reverse).map Prod.fst ++ [0, 1], i < 32 := by decide
  apply hall
  rw [← map_fst_generalRegisters x exitReason]
  exact List.mem_map_of_mem hp

theorem load_generalRegisters {x : Fin 31 → BitVec 64} {i : Nat} {v : BitVec 64}
    (hmem : (i, v) ∈ generalRegisters x exitReason) (m : ByteMemory) (base : BitVec 64) :
    (m.spill base (generalRegisters x exitReason)).load (slot base i) = v := by
  apply load_spill_of_mem (fun p hp => (generalRegisters_lt hp).trans (by decide)) ?_ hmem
  rw [map_fst_generalRegisters]
  decide

/-- `usr[r]` comes after `exit_reason`. -/
theorem mem_generalRegisters (x : Fin 31 → BitVec 64) (exitReason : ExitReason) (r : Fin 31) :
    ((r : Nat) + 1, x r) ∈ generalRegisters x exitReason := by
  have hpairs : ∀ r : Fin 31, r ≠ 0 → ((r : Nat) + 1, r) ∈ pairSlots 1 usrPairs.reverse := by decide
  by_cases hr : r = 0
  · subst hr
    exact List.mem_append_right _ (by simp)
  · exact List.mem_append_left _ (List.mem_map.mpr ⟨_, hpairs r hr, rfl⟩)

/-- **What `handle_vmexit` does**: it stores the registers below the top of the stack, and their
address is the argument of the handler. -/
theorem run_handleVmexit (exitReason : ExitReason) (h : m.sp = slot base 32) :
    (run m (handleVmexit exitReason)).mem = m.mem.spill base (generalRegisters m.x exitReason) ∧
      (run m (handleVmexit exitReason)).sp = base ∧
      (run m (handleVmexit exitReason)).x 0 = base := by
  have hpush := run_push (n := 1) (l := usrPairs.reverse) h
  have hbase : slot base (2 * 1) - 16#64 = base := by
    rw [slot_sub_pair base 0]
    exact BitVec.add_zero base
  rw [handleVmexit, run_append, hpush, generalRegisters, spill_append]
  simp only [run_cons, run_nil, step, hbase]
  refine ⟨?_, trivial, update_self ..⟩
  rw [update_self, update_of_ne (by decide)]
  simp [slot]

/-- **What `vmreturn` does**: it takes the registers from where its argument points to, and leaves
the stack empty. -/
theorem run_vmreturn (h : m.x 0 = base) :
    (run m vmreturn).sp = slot base 32 ∧ (run m vmreturn).mem = m.mem ∧
      ∀ r, (run m vmreturn).x r = m.mem.load (slot base (r + 1)) := by
  have hsp : (run m [.toSp 0, .pop 1 0]).sp = slot base (2 * 1) := by
    simp only [run_cons, run_nil, step, h, slot]
  have hx0 : (run m [.toSp 0, .pop 1 0]).x 0 = m.mem.load (slot base 1) := by
    simp only [run_cons, run_nil, step, h, slot, update_self]
  obtain ⟨hsp', hmem, hother, hpairs⟩ := run_pop (l := usrPairs) hsp (by decide)
  rw [vmreturn, run_append]
  refine ⟨hsp', hmem, fun r => ?_⟩
  by_cases hr : r = 0
  · subst hr
    exact (hother 0 (by decide)).trans hx0
  · obtain ⟨k, p, hk, hrp⟩ := usrPairs_of_ne_zero hr
    obtain ⟨hfst, hsnd⟩ := hpairs k p hk
    rcases hrp with ⟨rfl, hslot⟩ | ⟨rfl, hslot⟩
    · rw [hslot]
      exact hfst
    · rw [hslot]
      exact hsnd

/-! ## The switch -/

/-- What a guest has in the CPU: `usr` of `GeneralRegisters`, and where and how it goes on. -/
structure El1Context where
  usr : Fin 31 → BitVec 64
  elr : BitVec 64
  spsr : BitVec 64

namespace El2

/-- The guest is left. -/
def exit (s : El2) : El2 :=
  { s with toStackMachine := run s.toStackMachine (handleVmexit s.vector) }

/-- The guest is entered again. -/
def enter (s : El2) : El2 := { s with toStackMachine := run s.toStackMachine vmreturn }

/-- What the guest has. -/
def guest (s : El2) : El1Context where
  usr := s.x
  elr := s.elr
  spsr := s.spsr

/-- The context while the handler runs. -/
def saved (base : BitVec 64) (s : El2) : El1Context where
  usr r := s.mem.load (slot base (r + 1))
  elr := s.elr
  spsr := s.spsr

theorem mem_exit (h : s.sp = slot base 32) :
    s.exit.mem = s.mem.spill base (generalRegisters s.x s.vector) := (run_handleVmexit s.vector h).1

/-- **What is saved is what the guest has.** -/
theorem saved_exit (h : s.sp = slot base 32) : s.exit.saved base = s.guest := by
  rw [saved, guest, El1Context.mk.injEq, mem_exit h]
  exact ⟨funext fun r => load_generalRegisters (mem_generalRegisters ..) .., rfl, rfl⟩

/-- **What the guest gets back is what is saved.** -/
theorem guest_enter (h : s.x 0 = base) : s.enter.guest = s.saved base := by
  rw [saved, guest, El1Context.mk.injEq]
  exact ⟨funext (run_vmreturn h).2.2, rfl, rfl⟩

/-- The handler is called with the address of `GeneralRegisters`, where the reason is noted. -/
theorem called_exit (h : s.sp = slot base 32) :
    s.exit.sp = base ∧ s.exit.x 0 = base ∧ s.exit.mem.load (slot base 0) = s.exit.vector.code := by
  obtain ⟨-, hsp, hx⟩ := run_handleVmexit s.vector h
  refine ⟨hsp, hx, ?_⟩
  rw [mem_exit h]
  exact load_generalRegisters (List.mem_append_right _ List.mem_cons_self) ..

end El2

/-- **The world switch on AArch64**: `GeneralRegisters` is at `base`, below the top of the stack of
the CPU. The guest cannot change the stack pointer of EL2. -/
def aarch64Switch (base : BitVec 64) : WorldSwitch El2 El1Context ExitReason where
  exit := El2.exit
  enter := El2.enter
  cause s := s.vector
  guest := El2.guest
  saved := El2.saved base
  Ready s := s.sp = slot base 32
  Kept s s' := s'.sp = s.sp
  Called s := s.sp = base ∧ s.x 0 = base ∧ s.mem.load (slot base 0) = s.vector.code
  Done s := s.x 0 = base
  ready_of_kept h hk := hk.trans h
  called_exit := El2.called_exit
  saved_exit := El2.saved_exit
  ready_enter h := (run_vmreturn h).1
  guest_enter := El2.guest_enter

/-- **A guest cannot tell that its registers were saved**: whatever it runs and whatever traps it
takes, it sees in the CPU what it had there, changed by the handlers and by nothing else. The stack
is empty whenever it runs, however many traps there were, and the next trap saves the registers
without touching any byte outside `GeneralRegisters`. -/
theorem aarch64_switch_refines {handler : ExitReason → El2 → El2 → Prop}
    {handle : ExitReason → El1Context → El1Context → Prop} {reset : El1Context}
    {h : List (SwitchEvent El1Context ExitReason)}
    (hh : (aarch64Switch base).Handles handler handle)
    (r : ((aarch64Switch base).system handler reset).Run h s) :
    (vcpuSystem handle reset).Run h s.guest ∧ s.sp = slot base 32 ∧
      ∀ a, 8 * 32 ≤ (a - base).toNat → s.exit.mem a = s.mem a := by
  obtain ⟨hrun, hready⟩ := WorldSwitch.run_refines hh r
  refine ⟨hrun, hready, fun a ha => ?_⟩
  rw [El2.mem_exit hready]
  exact spill_outside (fun p hp => generalRegisters_lt hp) ha

/-- The guest goes on with the next instruction. -/
def El1Context.skip (c : El1Context) : El1Context := { c with elr := c.elr + 4 }

/-- A handler that does nothing else, and returns to where the registers are. -/
def skipEl1 (base : BitVec 64) (_ : ExitReason) (s t : El2) : Prop :=
  t = { s with x := update s.x 0 base, elr := s.elr + 4 }

theorem skipEl1_handles (base : BitVec 64) :
    (aarch64Switch base).Handles (skipEl1 base) fun _ c c' => c' = c.skip := by
  rintro _ s t rfl -
  refine ⟨?_, rfl⟩
  change update s.x 0 base 0 = base
  exact update_self ..

/-- A CPU about to enter its guest for the first time. -/
def bootEl2 : El2 where
  x := update (fun _ => 0) 0 0x4060_0000
  sp := 0x4060_0000
  mem _ := 0
  elr := 0x5000_0000
  spsr := 0x3c5
  vector := .el1Abort

theorem bootEl2_x : bootEl2.x 0 = 0x4060_0000 := by decide

theorem aarch64_switch_refines_skip :
    ∃ s, ((aarch64Switch 0x4060_0000).system (skipEl1 0x4060_0000)
        (bootEl2.saved 0x4060_0000)).Run [.trap .el1Abort] s ∧ s.elr = 0x5000_0004 := by
  have r := TransitionSystem.Run.next
    (S := (aarch64Switch 0x4060_0000).system (skipEl1 0x4060_0000) (bootEl2.saved 0x4060_0000))
    (.start ⟨bootEl2, bootEl2_x, rfl, rfl⟩) (e := .trap .el1Abort) ⟨rfl, _, rfl, rfl⟩
  refine ⟨_, r, ?_⟩
  obtain ⟨hrun, -⟩ := aarch64_switch_refines (skipEl1_handles _) r
  cases hrun with
  | next r' hs =>
    cases r' with
    | start hi =>
      have helr := congrArg El1Context.elr (hs.trans (congrArg El1Context.skip hi))
      exact helr.trans (by decide)

end Hvisor
