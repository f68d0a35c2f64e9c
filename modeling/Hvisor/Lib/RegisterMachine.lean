import Hvisor.Lib.ByteMemory
import Mathlib.Data.Fin.SuccPred
import Mathlib.Logic.Function.Basic

/-!
# Register machines

A machine with 32 registers, of which the first reads as zero, control registers, and a memory. Code
without jumps loads, stores and moves words; it can save registers of both kinds at the slots of a
block, and restore them.

## Main definitions

* `RegisterMachine`, `RegisterMachine.get`, `RegisterMachine.set`: the state
* `Instr`, `Instr.step`, `Instr.run`: the code
* `Instr.save`, `Instr.restore`: code for a list of registers and slots
* `Instr.saveCsrs`, `Instr.restoreCsrs`: code for a list of control registers and slots

## Main results

* `Instr.run_save`, `Instr.run_saveCsrs`: saving registers is a spill
* `Instr.run_restore`, `Instr.run_restoreCsrs`: restoring registers loads their slots
-/

/-- The registers, the control registers, which are cells, and the memory. -/
structure RegisterMachine (κ : Type) where
  x : Fin 32 → BitVec 64
  csr : κ → BitVec 64
  mem : ByteMemory

namespace RegisterMachine

open Function

scoped instance neZero : NeZero 32 := ⟨by decide⟩

variable {κ : Type} {s : RegisterMachine κ} {r r' : Fin 32} {v : BitVec 64}

/-- A general register; register 0 is zero. -/
def get (s : RegisterMachine κ) (r : Fin 32) : BitVec 64 := if r = 0 then 0 else s.x r

/-- A general register is written. -/
def set (s : RegisterMachine κ) (r : Fin 32) (v : BitVec 64) : RegisterMachine κ :=
  if r = 0 then s else { s with x := update s.x r v }

/-- A control register is written. -/
def setCsr [DecidableEq κ] (s : RegisterMachine κ) (k : κ) (v : BitVec 64) : RegisterMachine κ :=
  { s with csr := update s.csr k v }

/-- The memory changes. -/
def setMem (s : RegisterMachine κ) (m : ByteMemory) : RegisterMachine κ := { s with mem := m }

@[simp] theorem get_zero (s : RegisterMachine κ) : s.get 0 = 0 := rfl

theorem get_set (s : RegisterMachine κ) (r r' : Fin 32) (v : BitVec 64) :
    (s.set r v).get r' = if r' = r ∧ r ≠ 0 then v else s.get r' := by
  rw [set]
  split_ifs with hr hrr hrr
  · exact absurd hr hrr.2
  · rfl
  · simp [get, hrr.1, hr]
  · have hne : r' ≠ r := fun h => hrr ⟨h, hr⟩
    simp [get, hne]

theorem get_set_self (s : RegisterMachine κ) (hr : r ≠ 0) (v : BitVec 64) :
    (s.set r v).get r = v := by rw [get_set, if_pos ⟨rfl, hr⟩]

theorem get_set_of_ne (s : RegisterMachine κ) (h : r' ≠ r) (v : BitVec 64) :
    (s.set r v).get r' = s.get r' := by rw [get_set, if_neg fun hrr => h hrr.1]

@[simp] theorem csr_set (s : RegisterMachine κ) (r : Fin 32) (v : BitVec 64) :
    (s.set r v).csr = s.csr := by
  rw [set]
  split_ifs <;> rfl

@[simp] theorem mem_set (s : RegisterMachine κ) (r : Fin 32) (v : BitVec 64) :
    (s.set r v).mem = s.mem := by
  rw [set]
  split_ifs <;> rfl

@[simp] theorem get_setMem (s : RegisterMachine κ) (m : ByteMemory) (r : Fin 32) :
    (s.setMem m).get r = s.get r := rfl

@[simp] theorem csr_setMem (s : RegisterMachine κ) (m : ByteMemory) :
    (s.setMem m).csr = s.csr := rfl

@[simp] theorem mem_setMem (s : RegisterMachine κ) (m : ByteMemory) : (s.setMem m).mem = m := rfl

section Csr

variable [DecidableEq κ]

@[simp] theorem get_setCsr (s : RegisterMachine κ) (k : κ) (v : BitVec 64) (r : Fin 32) :
    (s.setCsr k v).get r = s.get r := rfl

@[simp] theorem mem_setCsr (s : RegisterMachine κ) (k : κ) (v : BitVec 64) :
    (s.setCsr k v).mem = s.mem := rfl

theorem csr_setCsr (s : RegisterMachine κ) (k : κ) (v : BitVec 64) (k' : κ) :
    (s.setCsr k v).csr k' = if k' = k then v else s.csr k' := by
  simp [setCsr, update_apply]

end Csr

end RegisterMachine

/-! ## Code -/

/-- The instructions: add a constant, store and load a word at an offset from a register, read a
control register, and exchange one. -/
inductive Instr (κ : Type) where
  | addi (rd rs : Fin 32) (imm : BitVec 64)
  | sd (rs base : Fin 32) (off : Nat)
  | ld (rd base : Fin 32) (off : Nat)
  | csrr (rd : Fin 32) (k : κ)
  | csrrw (rd : Fin 32) (k : κ) (rs : Fin 32)

namespace Instr

open RegisterMachine

variable {κ : Type} [DecidableEq κ] {s : RegisterMachine κ} {base : Fin 32} {b : BitVec 64}
  {l : List (Fin 32 × Nat)}

/-- What an instruction does. -/
def step (s : RegisterMachine κ) : Instr κ → RegisterMachine κ
  | addi rd rs imm => s.set rd (s.get rs + imm)
  | sd rs base off => s.setMem (s.mem.store (s.get base + BitVec.ofNat 64 off) (s.get rs))
  | ld rd base off => s.set rd (s.mem.load (s.get base + BitVec.ofNat 64 off))
  | csrr rd k => s.set rd (s.csr k)
  | csrrw rd k rs => (s.setCsr k (s.get rs)).set rd (s.csr k)

/-- Run code from its first instruction to its last. -/
def run (s : RegisterMachine κ) (code : List (Instr κ)) : RegisterMachine κ := code.foldl step s

@[simp] theorem run_nil (s : RegisterMachine κ) : run s [] = s := rfl

@[simp] theorem run_cons (s : RegisterMachine κ) (i : Instr κ) (code : List (Instr κ)) :
    run s (i :: code) = run (i.step s) code := rfl

theorem run_append (s : RegisterMachine κ) (code code' : List (Instr κ)) :
    run s (code ++ code') = run (run s code) code' := List.foldl_append

/-- Save registers at slots of the block that a register points to. -/
def save (base : Fin 32) (l : List (Fin 32 × Nat)) : List (Instr κ) :=
  l.map fun p => sd p.1 base (8 * p.2)

/-- Restore registers from slots of the block that a register points to. -/
def restore (base : Fin 32) (l : List (Fin 32 × Nat)) : List (Instr κ) :=
  l.map fun p => ld p.1 base (8 * p.2)

/-- **Saving registers is a spill** and changes nothing else. -/
theorem run_save (s : RegisterMachine κ) (base : Fin 32) (l : List (Fin 32 × Nat)) :
    run s (save base l) =
      s.setMem (s.mem.spill (s.get base) (l.map fun p => (p.2, s.get p.1))) := by
  induction l generalizing s with
  | nil => rfl
  | cons p l ih => exact ih _

/-- **Restoring registers loads their slots**, when the register that points to the block is not
among them. -/
theorem run_restore (s : RegisterMachine κ) (hbase : ∀ p ∈ l, p.1 ≠ base) :
    (run s (restore base l)).csr = s.csr ∧ (run s (restore base l)).mem = s.mem ∧
      ∀ r, (∀ p ∈ l, p.1 ≠ r) → (run s (restore base l)).get r = s.get r := by
  induction l generalizing s with
  | nil => exact ⟨rfl, rfl, fun _ _ => rfl⟩
  | cons p l ih =>
    obtain ⟨hcsr, hmem, hget⟩ := ih (s := (ld p.1 base (8 * p.2)).step s)
      fun q hq => hbase q (List.mem_cons_of_mem p hq)
    refine ⟨hcsr.trans (csr_set ..), hmem.trans (mem_set ..), fun r hr => ?_⟩
    refine (hget r fun q hq => hr q (List.mem_cons_of_mem p hq)).trans ?_
    exact get_set_of_ne _ (Ne.symm (hr p List.mem_cons_self)) _

/-- A register that has been restored holds the word of its slot. -/
theorem get_run_restore {r : Fin 32} {i : Nat} (s : RegisterMachine κ)
    (hbase : ∀ p ∈ l, p.1 ≠ base) (hnodup : (l.map Prod.fst).Nodup) (hr : r ≠ 0)
    (hmem : (r, i) ∈ l) :
    (run s (restore base l)).get r = s.mem.load (ByteMemory.slot (s.get base) i) := by
  induction l generalizing s with
  | nil => cases hmem
  | cons p l ih =>
    have hp := hbase p List.mem_cons_self
    have hbase' : ∀ q ∈ l, q.1 ≠ base := fun q hq => hbase q (List.mem_cons_of_mem p hq)
    rw [List.map_cons, List.nodup_cons] at hnodup
    rcases List.mem_cons.mp hmem with rfl | hmem
    · have hlater : ∀ q ∈ l, q.1 ≠ r := fun q hq heq =>
        hnodup.1 (List.mem_map.mpr ⟨q, hq, heq⟩)
      exact ((run_restore _ hbase').2.2 r hlater).trans (get_set_self _ hr _)
    · refine (ih _ hbase' hnodup.2 hmem).trans ?_
      rw [step, mem_set, get_set_of_ne _ (Ne.symm hp)]

/-! ## Control registers -/

section Csr

/-- Save control registers by way of a register. -/
def saveCsrs (tmp base : Fin 32) (lk : List (κ × Nat)) : List (Instr κ) :=
  lk.flatMap fun p => [csrr tmp p.1, sd tmp base (8 * p.2)]

/-- Restore control registers by way of a register; the old values go to `d`. -/
def restoreCsrs (tmp d base : Fin 32) (lk : List (κ × Nat)) : List (Instr κ) :=
  lk.flatMap fun p => [ld tmp base (8 * p.2), csrrw d p.1 tmp]

/-- **Saving control registers is a spill**, and changes only the register it goes by. -/
theorem run_saveCsrs (s : RegisterMachine κ) (tmp base : Fin 32) (lk : List (κ × Nat))
    (htmp : tmp ≠ 0) (hbase : tmp ≠ base) :
    (run s (saveCsrs tmp base lk)).mem =
        s.mem.spill (s.get base) (lk.map fun p => (p.2, s.csr p.1)) ∧
      (run s (saveCsrs tmp base lk)).csr = s.csr ∧
      ∀ r, r ≠ tmp → (run s (saveCsrs tmp base lk)).get r = s.get r := by
  induction lk generalizing s with
  | nil => exact ⟨rfl, rfl, fun _ _ => rfl⟩
  | cons p lk ih =>
    have hpoint : (s.set tmp (s.csr p.1)).get base = s.get base := get_set_of_ne _ hbase.symm _
    have hstep : run s (saveCsrs tmp base (p :: lk)) =
        run ((s.set tmp (s.csr p.1)).setMem
          (s.mem.store (ByteMemory.slot (s.get base) p.2) (s.csr p.1))) (saveCsrs tmp base lk) := by
      rw [saveCsrs, List.flatMap_cons, run_append, run_cons, run_cons, run_nil, step, step, mem_set,
        hpoint, get_set_self _ htmp]
      rfl
    obtain ⟨hmem, hcsr, hget⟩ := ih ((s.set tmp (s.csr p.1)).setMem
      (s.mem.store (ByteMemory.slot (s.get base) p.2) (s.csr p.1)))
    rw [hstep]
    refine ⟨?_, ?_, fun r hr => ?_⟩
    · rw [hmem, get_setMem, mem_setMem, csr_setMem, csr_set, hpoint]
      rfl
    · rw [hcsr, csr_setMem, csr_set]
    · rw [hget r hr, get_setMem, get_set_of_ne _ hr]

/-- **Restoring control registers loads their slots**, and changes no others, and no register but
the one it goes by. -/
theorem run_restoreCsrs (s : RegisterMachine κ) (tmp d base : Fin 32) (lk : List (κ × Nat))
    (htmp : tmp ≠ 0) (hbase : tmp ≠ base) (hd : d = 0 ∨ d = tmp)
    (hnodup : (lk.map Prod.fst).Nodup) :
    (run s (restoreCsrs tmp d base lk)).mem = s.mem ∧
      (∀ r, r ≠ tmp → (run s (restoreCsrs tmp d base lk)).get r = s.get r) ∧
      (∀ k, k ∉ lk.map Prod.fst → (run s (restoreCsrs tmp d base lk)).csr k = s.csr k) ∧
      ∀ k i, (k, i) ∈ lk →
        (run s (restoreCsrs tmp d base lk)).csr k =
          s.mem.load (ByteMemory.slot (s.get base) i) := by
  induction lk generalizing s with
  | nil => exact ⟨rfl, fun _ _ => rfl, fun _ _ => rfl, fun _ _ h => by cases h⟩
  | cons p lk ih =>
    rw [List.map_cons, List.nodup_cons] at hnodup
    let t := run s [ld tmp base (8 * p.2), csrrw d p.1 tmp]
    have hmem : t.mem = s.mem := by simp [t, step]
    have hget : ∀ r, r ≠ tmp → t.get r = s.get r := fun r hr => by
      have hdr : r = d → r = 0 := fun heq => hd.elim (heq.trans ·) fun h => absurd (heq.trans h) hr
      simp only [t, run_cons, run_nil, step, get_set, get_setCsr, hr, false_and, if_false]
      split_ifs with h
      · exact absurd ((hdr h.1).symm ▸ h.1).symm h.2
      · rfl
    have hcsr : ∀ k, t.csr k =
        if k = p.1 then s.mem.load (ByteMemory.slot (s.get base) p.2) else s.csr k := fun k => by
      simp only [t, run_cons, run_nil, step, csr_set, csr_setCsr, get_set_self _ htmp]
      rfl
    obtain ⟨hmem', hget', hcsr', hload⟩ := ih t hnodup.2
    have hstep : run s (restoreCsrs tmp d base (p :: lk)) = run t (restoreCsrs tmp d base lk) := rfl
    rw [hstep]
    refine ⟨hmem'.trans hmem, fun r hr => (hget' r hr).trans (hget r hr), fun k hk => ?_,
      fun k i hk => ?_⟩
    · rw [List.map_cons, List.mem_cons, not_or] at hk
      rw [hcsr' k hk.2, hcsr, if_neg hk.1]
    · rcases List.mem_cons.mp hk with rfl | hk
      · rw [hcsr' k hnodup.1, hcsr, if_pos rfl]
      · rw [hload k i hk, hmem, hget base hbase.symm]

end Csr

end Instr
