import Hvisor.Lib.ByteMemory
import Mathlib.Logic.Function.Basic

/-!
# Pairs of registers on a stack

A machine with registers, a stack pointer and a memory, whose code pushes pairs of registers onto
the stack and pops them off it, the first of a pair at the lower address.

## Main definitions

* `StackMachine`: the state
* `PairInstr`, `PairInstr.step`, `PairInstr.run`: the code
* `PairInstr.pairSlots`: where pairs end up that are pushed one after the other

## Main results

* `PairInstr.run_push`: pushing pairs is a spill
* `PairInstr.run_pop`: popping pairs loads their slots
-/

/-- The registers, the stack pointer and the memory. -/
structure StackMachine (ρ : Type*) where
  x : ρ → BitVec 64
  sp : BitVec 64
  mem : ByteMemory

/-- The instructions: push and pop a pair, set a register to a constant, and move the stack pointer
to a register and back. -/
inductive PairInstr (ρ : Type*) where
  | push (a b : ρ)
  | pop (a b : ρ)
  | const (r : ρ) (v : BitVec 64)
  | fromSp (r : ρ)
  | toSp (r : ρ)

namespace PairInstr

open Function ByteMemory

variable {ρ : Type*} [DecidableEq ρ] {s : StackMachine ρ} {base : BitVec 64} {n : Nat}
  {l : List (ρ × ρ)}

/-- What an instruction does. -/
def step (s : StackMachine ρ) : PairInstr ρ → StackMachine ρ
  | push a b =>
    { s with sp := s.sp - 16#64,
             mem := (s.mem.store (s.sp - 16#64) (s.x a)).store (s.sp - 16#64 + 8#64) (s.x b) }
  | pop a b =>
    { s with sp := s.sp + 16#64,
             x := update (update s.x a (s.mem.load s.sp)) b (s.mem.load (s.sp + 8#64)) }
  | const r v => { s with x := update s.x r v }
  | fromSp r => { s with x := update s.x r s.sp }
  | toSp r => { s with sp := s.x r }

/-- Run code from its first instruction to its last. -/
def run (s : StackMachine ρ) (code : List (PairInstr ρ)) : StackMachine ρ := code.foldl step s

@[simp] theorem run_nil (s : StackMachine ρ) : run s [] = s := rfl

@[simp] theorem run_cons (s : StackMachine ρ) (i : PairInstr ρ) (code : List (PairInstr ρ)) :
    run s (i :: code) = run (i.step s) code := rfl

theorem run_append (s : StackMachine ρ) (code code' : List (PairInstr ρ)) :
    run s (code ++ code') = run (run s code) code' := List.foldl_append

theorem slot_succ (base : BitVec 64) (n : Nat) :
    slot base (2 * n) + 8#64 = slot base (2 * n + 1) := by
  rw [slot, slot, BitVec.add_assoc, ← BitVec.ofNat_add, Nat.mul_add]

theorem slot_add_pair (base : BitVec 64) (n : Nat) :
    slot base (2 * n) + 16#64 = slot base (2 * (n + 1)) := by
  rw [slot, slot, BitVec.add_assoc, ← BitVec.ofNat_add]
  congr 2

theorem slot_sub_pair (base : BitVec 64) (n : Nat) :
    slot base (2 * (n + 1)) - 16#64 = slot base (2 * n) := by
  rw [← slot_add_pair, BitVec.add_sub_cancel]

/-- Where registers end up whose pairs are pushed one after the other, the last at slot `2 * n`. -/
def pairSlots (n : Nat) : List (ρ × ρ) → List (Nat × ρ)
  | [] => []
  | p :: l => (2 * (n + l.length), p.1) :: (2 * (n + l.length) + 1, p.2) :: pairSlots n l

/-- **Pushing pairs is a spill**, and changes no register. -/
theorem run_push (h : s.sp = slot base (2 * (n + l.length))) :
    run s (l.map fun p => push p.1 p.2) =
      { s with sp := slot base (2 * n),
               mem := s.mem.spill base ((pairSlots n l).map fun q => (q.1, s.x q.2)) } := by
  induction l generalizing s with
  | nil =>
    obtain ⟨x, sp, m⟩ := s
    obtain rfl : sp = slot base (2 * n) := h
    rfl
  | cons p l ih =>
    have hsp : s.sp - 16#64 = slot base (2 * (n + l.length)) := by
      rw [h, List.length_cons, ← Nat.add_assoc, slot_sub_pair]
    rw [List.map_cons, run_cons, ih (s := step s (push p.1 p.2)) hsp]
    simp only [step, pairSlots, List.map_cons, spill_cons, hsp, slot_succ]

/-- **Popping pairs loads their slots**: the registers of the `k`-th pair those above slot
`2 * (n + k)`, and the others stay as they are. -/
theorem run_pop (h : s.sp = slot base (2 * n)) (hnodup : (l.flatMap fun p => [p.1, p.2]).Nodup) :
    (run s (l.map fun p => pop p.1 p.2)).sp = slot base (2 * (n + l.length)) ∧
      (run s (l.map fun p => pop p.1 p.2)).mem = s.mem ∧
      (∀ r, r ∉ l.flatMap (fun p => [p.1, p.2]) →
        (run s (l.map fun p => pop p.1 p.2)).x r = s.x r) ∧
      ∀ k p, l[k]? = some p →
        (run s (l.map fun p => pop p.1 p.2)).x p.1 = s.mem.load (slot base (2 * (n + k))) ∧
          (run s (l.map fun p => pop p.1 p.2)).x p.2 =
            s.mem.load (slot base (2 * (n + k) + 1)) := by
  induction l generalizing s n with
  | nil => exact ⟨h, rfl, fun _ _ => rfl, fun k p hk => by simp at hk⟩
  | cons p l ih =>
    rw [List.flatMap_cons, List.nodup_append] at hnodup
    obtain ⟨hp, hl, hdisj⟩ := hnodup
    have hsp : (step s (pop p.1 p.2)).sp = slot base (2 * (n + 1)) := by
      rw [step, h, slot_add_pair]
    obtain ⟨hsp', hmem, hother, hpairs⟩ := ih hsp hl
    have h1 : p.1 ∉ l.flatMap fun p => [p.1, p.2] := fun hmem =>
      hdisj p.1 (by simp) p.1 hmem rfl
    have h2 : p.2 ∉ l.flatMap fun p => [p.1, p.2] := fun hmem =>
      hdisj p.2 (by simp) p.2 hmem rfl
    have hne : p.1 ≠ p.2 := by simpa using hp
    rw [List.map_cons, run_cons]
    refine ⟨?_, hmem, fun r hr => ?_, fun k q hk => ?_⟩
    · rw [hsp', List.length_cons, Nat.add_right_comm, Nat.add_assoc]
    · rw [List.flatMap_cons, List.mem_append, not_or] at hr
      have hr12 : r ≠ p.1 ∧ r ≠ p.2 := by simpa using hr.1
      exact (hother r hr.2).trans ((update_of_ne hr12.2 ..).trans (update_of_ne hr12.1 ..))
    · cases k with
      | zero =>
        obtain rfl : p = q := by simpa using hk
        have hfst : (step s (pop p.1 p.2)).x p.1 = s.mem.load s.sp :=
          (update_of_ne hne ..).trans (update_self ..)
        have hsnd : (step s (pop p.1 p.2)).x p.2 = s.mem.load (s.sp + 8#64) := update_self ..
        rw [hother _ h1, hother _ h2, hfst, hsnd, h, slot_succ]
        exact ⟨rfl, rfl⟩
      | succ k =>
        have := hpairs k q (by simpa using hk)
        rwa [Nat.add_right_comm n 1 k, Nat.add_assoc] at this

end PairInstr
