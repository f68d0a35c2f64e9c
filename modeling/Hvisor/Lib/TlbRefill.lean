import Mathlib.Data.Fintype.Defs
import Mathlib.Logic.Function.Basic
import Mathlib.Tactic.Linarith

/-!
# Refilling a TLB by software

A CPU that leaves the walk of page tables to a handler. The handler runs on physical addresses, and
the CPU has instructions for the steps of the walk: `lddir` reads the entry of a directory for the
address that has missed, `ldpte` reads one of a pair of neighbouring page entries into a control
register, and `tlbfill` writes the pair into the TLB. A page entry serves one page, and an entry of
the TLB a pair of pages.

## Main definitions

* `TlbRefill.PageWalk`: which bits of an address are the index on which level
* `TlbRefill.Core`, `TlbRefill.Instr`: the CPU and the instructions
* `TlbRefill.TlbEntry`: the entries of the TLB
* `TlbRefill.directory`, `TlbRefill.handler`: a step of a walk, and a handler
* `TlbRefill.descend`: the base of the last table

## Main results

* `TlbRefill.run_directory`: a step of the walk moves to the base of the next table
* `TlbRefill.run_handler`: the handler fills in the pair of entries around the address, and leaves
  the registers as they were
-/

namespace TlbRefill

open Function

/-- The bits of an address from `base` on, as many as `width`. -/
structure Field where
  base : Nat
  width : Nat

/-- The index that the bits of the field select. -/
def Field.index (f : Field) (va : Nat) : Nat := va / 2 ^ f.base % 2 ^ f.width

/-- The fields for the directories, by their levels, and for the page entries. -/
structure PageWalk where
  dir : Nat → Field
  pt : Field

/-- The addresses that the CPU can give to the memory have this many bits. -/
def paBits : Nat := 48

/-- A physical address, of which the CPU drops the bits that it does not have. -/
def phys (base : BitVec 64) : Nat := base.toNat % 2 ^ paBits

/-- An entry of the TLB for a pair of pages: the number of the pair, the entry of the even page and
the one of the odd page. -/
structure TlbEntry where
  vppn : Nat
  lo : Bool → BitVec 64

/-- The control registers: the root table, the address that has missed, a scratch register, and the
pair of page entries. -/
inductive Csr where
  | pgd
  | tlbrbadv
  | tlbrsave
  | tlbrelo (odd : Bool)
  deriving DecidableEq

/-- The registers of a core, and its TLB. -/
structure Core where
  x : Fin 32 → BitVec 64
  csr : Csr → BitVec 64
  tlb : List TlbEntry

namespace Core

variable {c : Core} {r r' : Fin 32} {k k' : Csr} {v : BitVec 64}

/-- A general register; register 0 is zero. -/
def get (c : Core) (r : Fin 32) : BitVec 64 := if r.val = 0 then 0 else c.x r

/-- A general register is written. -/
def set (c : Core) (r : Fin 32) (v : BitVec 64) : Core := { c with x := update c.x r v }

/-- A control register is written. -/
def setCsr (c : Core) (k : Csr) (v : BitVec 64) : Core := { c with csr := update c.csr k v }

/-- The address that has missed. -/
def badv (c : Core) : Nat := (c.csr .tlbrbadv).toNat

theorem get_set_self (c : Core) (hr : r.val ≠ 0) (v : BitVec 64) : (c.set r v).get r = v := by
  rw [get, if_neg hr]
  exact update_self ..

@[simp] theorem set_csr (c : Core) (r : Fin 32) (v : BitVec 64) : (c.set r v).csr = c.csr := rfl

@[simp] theorem set_tlb (c : Core) (r : Fin 32) (v : BitVec 64) : (c.set r v).tlb = c.tlb := rfl

@[simp] theorem set_set (c : Core) (r : Fin 32) (v w : BitVec 64) :
    (c.set r v).set r w = c.set r w := by simp only [set, update_idem]

@[simp] theorem set_self (c : Core) (r : Fin 32) : c.set r (c.x r) = c := by
  simp only [set, update_eq_self]

@[simp] theorem setCsr_tlb (c : Core) (k : Csr) (v : BitVec 64) : (c.setCsr k v).tlb = c.tlb := rfl

@[simp] theorem setCsr_x (c : Core) (k : Csr) (v : BitVec 64) : (c.setCsr k v).x = c.x := rfl

@[simp] theorem set_x (c : Core) (r : Fin 32) (v : BitVec 64) : (c.set r v).x = update c.x r v :=
  rfl

theorem setCsr_csr (c : Core) (k : Csr) (v : BitVec 64) (k' : Csr) :
    (c.setCsr k v).csr k' = if k' = k then v else c.csr k' := by
  simp only [setCsr, update_apply]

@[simp] theorem setCsr_get (c : Core) (k : Csr) (v : BitVec 64) (r : Fin 32) :
    (c.setCsr k v).get r = c.get r := rfl

end Core

/-! ## Code -/

/-- The instructions of a refill handler. -/
inductive Instr where
  | csrwr (rd : Fin 32) (k : Csr)
  | csrrd (rd : Fin 32) (k : Csr)
  | ori (rd rj : Fin 32) (imm : BitVec 12)
  | xori (rd rj : Fin 32) (imm : BitVec 12)
  | lddir (rd rj : Fin 32) (level : Nat)
  | ldpte (rj : Fin 32) (odd : Bool)
  | tlbfill

section Run

variable (w : PageWalk) (mem : Nat → BitVec 64)

/-- The entry of a directory for an address; `base` may also be the entry of a huge page, which
stays. -/
def directoryEntry (level va : Nat) (base : BitVec 64) : BitVec 64 :=
  if base.getLsbD 6 then base else mem (phys base + 8 * (w.dir level).index va)

/-- The page entry of the even page or the odd one of the pair around an address. -/
def pageWord (va : Nat) (odd : Bool) (base : BitVec 64) : BitVec 64 :=
  mem (phys base + 8 * (w.pt.index va / 2 * 2 + odd.toNat))

/-- The number of the pair of pages around an address, in the bits that the CPU has. -/
def pairOf (va : Nat) : Nat := va % 2 ^ paBits / 2 ^ (w.pt.base + 1)

/-- What an instruction does. -/
def Instr.step (c : Core) : Instr → Core
  | csrwr rd k => (c.setCsr k (c.get rd)).set rd (c.csr k)
  | csrrd rd k => c.set rd (c.csr k)
  | ori rd rj imm => c.set rd (c.get rj ||| imm.setWidth 64)
  | xori rd rj imm => c.set rd (c.get rj ^^^ imm.setWidth 64)
  | lddir rd rj level => c.set rd (directoryEntry w mem level c.badv (c.get rj))
  | ldpte rj odd => c.setCsr (.tlbrelo odd) (pageWord w mem c.badv odd (c.get rj))
  | tlbfill =>
    { c with tlb := ⟨pairOf w c.badv, fun odd => c.csr (.tlbrelo odd)⟩ :: c.tlb }

/-- Run code from its first instruction to its last. -/
def run (c : Core) (code : List Instr) : Core := code.foldl (Instr.step w mem) c

@[simp] theorem run_nil (c : Core) : run w mem c [] = c := rfl

@[simp] theorem run_cons (c : Core) (i : Instr) (code : List Instr) :
    run w mem c (i :: code) = run w mem (i.step w mem c) code := rfl

theorem run_append (c : Core) (code code' : List Instr) :
    run w mem c (code ++ code') = run w mem (run w mem c code) code' := List.foldl_append

/-! ## A step of the walk -/

/-- Read the entry of a directory, and clear the bits of the mask in it, which are set and then
flipped. -/
def directory (r : Fin 32) (mask : BitVec 12) (level : Nat) : List Instr :=
  [.lddir r r level, .ori r r mask, .xori r r mask]

/-- The base of the next table. -/
def next (mask : BitVec 12) (va level : Nat) (base : BitVec 64) : BitVec 64 :=
  mem (phys base + 8 * (w.dir level).index va) &&& ~~~mask.setWidth 64

/-- The base of the last table, through directories of these levels. -/
def descend (mask : BitVec 12) (va : Nat) (base : BitVec 64) (levels : List Nat) : BitVec 64 :=
  levels.foldl (fun base level => next w mem mask va level base) base

variable {w mem}

theorem or_xor_self {n : Nat} (x m : BitVec n) : (x ||| m) ^^^ m = x &&& ~~~m := by
  ext i hi
  simp only [BitVec.getElem_xor, BitVec.getElem_or, BitVec.getElem_and, BitVec.getElem_not]
  cases x[i] <;> cases m[i] <;> rfl

variable {r : Fin 32} {mask : BitVec 12}

/-- The bit of huge pages is under the mask. -/
theorem next_huge (hmask : mask.getLsbD 6 = true) (va level : Nat) (base : BitVec 64) :
    (next w mem mask va level base).getLsbD 6 = false := by
  simp [next, hmask]

/-- **A step of the walk** moves to the base of the next table, and changes nothing else. -/
theorem run_directory (c : Core) (hr : r.val ≠ 0) (level : Nat)
    (hhuge : (c.get r).getLsbD 6 = false) :
    run w mem c (directory r mask level) = c.set r (next w mem mask c.badv level (c.get r)) := by
  have hentry : directoryEntry w mem level c.badv (c.get r) =
      mem (phys (c.get r) + 8 * (w.dir level).index c.badv) := by
    simp only [directoryEntry, hhuge, Bool.false_eq_true, if_false]
  simp only [directory, run_cons, run_nil, Instr.step, hentry, Core.get_set_self _ hr, Core.set_set,
    or_xor_self, next]

/-- The steps of the walk, one after the other. -/
theorem run_directories (c : Core) (hr : r.val ≠ 0) (hmask : mask.getLsbD 6 = true)
    (levels : List Nat) (hhuge : (c.get r).getLsbD 6 = false) :
    run w mem c (levels.flatMap (directory r mask)) =
      c.set r (descend w mem mask c.badv (c.get r) levels) := by
  induction levels generalizing c with
  | nil =>
    rw [List.flatMap_nil, run_nil, descend, List.foldl_nil, Core.get, if_neg hr, Core.set_self]
  | cons level levels ih =>
    rw [List.flatMap_cons, run_append, run_directory c hr level hhuge, ih]
    · rw [Core.get_set_self _ hr, Core.set_set]
      rfl
    · rw [Core.get_set_self _ hr]
      exact next_huge hmask ..

/-! ## A handler -/

/-- Put a register by, walk through directories of these levels with it, read the pair of page
entries, fill it in, and take the register back. -/
def handler (r : Fin 32) (mask : BitVec 12) (levels : List Nat) : List Instr :=
  [.csrwr r .tlbrsave, .csrrd r .pgd] ++ levels.flatMap (directory r mask) ++
    [.ldpte r false, .ldpte r true, .tlbfill, .csrrd r .tlbrsave]

/-- The entry of the TLB for an address, from a page table with this root. -/
def refill (w : PageWalk) (mem : Nat → BitVec 64) (mask : BitVec 12) (root : BitVec 64)
    (levels : List Nat) (va : Nat) : TlbEntry :=
  ⟨pairOf w va, fun odd => pageWord w mem va odd (descend w mem mask va root levels)⟩

/-- **The handler fills in the pair of entries** that the tables have for the address, and leaves
the registers and the root as they were. -/
theorem run_handler (c : Core) (hr : r.val ≠ 0) (hmask : mask.getLsbD 6 = true)
    (levels : List Nat) (hroot : (c.csr .pgd).getLsbD 6 = false) :
    (run w mem c (handler r mask levels)).tlb =
        refill w mem mask (c.csr .pgd) levels c.badv :: c.tlb ∧
      (run w mem c (handler r mask levels)).x = c.x ∧
      (run w mem c (handler r mask levels)).csr .pgd = c.csr .pgd := by
  -- the state in which the walk starts
  let c₁ := run w mem c [.csrwr r .tlbrsave, .csrrd r .pgd]
  have hget : c₁.get r = c.csr .pgd := Core.get_set_self _ hr _
  have hbadv : c₁.badv = c.badv := rfl
  have hwalk : run w mem c₁ (levels.flatMap (directory r mask)) =
      c₁.set r (descend w mem mask c.badv (c.csr .pgd) levels) := by
    rw [run_directories c₁ hr hmask levels (by rw [hget]; exact hroot), hget, hbadv]
  have hrun : run w mem c (handler r mask levels) =
      run w mem (c₁.set r (descend w mem mask c.badv (c.csr .pgd) levels))
        [.ldpte r false, .ldpte r true, .tlbfill, .csrrd r .tlbrsave] := by
    rw [handler, run_append, run_append, hwalk]
  rw [hrun]
  refine ⟨?_, ?_, rfl⟩
  · simp only [run_cons, run_nil, Instr.step, Core.setCsr_get, Core.get_set_self _ hr, Core.set_tlb,
      Core.setCsr_tlb]
    refine congrArg (· :: c.tlb) (congrArg (TlbEntry.mk _) ?_)
    funext odd
    cases odd <;> rfl
  -- the register was put by before the walk
  · have hsave : c₁.csr .tlbrsave = c.x r := by
      show (if r.val = 0 then 0 else c.x r) = c.x r
      rw [if_neg hr]
    have hx : c₁.x = update (update c.x r (c.csr .tlbrsave)) r (c.csr .pgd) := rfl
    simp only [run_cons, run_nil, Instr.step, Core.set_csr, Core.setCsr_csr, Core.set_x,
      Core.setCsr_x, reduceCtorEq, if_false, hsave, hx, update_idem, update_eq_self]

end Run

end TlbRefill
