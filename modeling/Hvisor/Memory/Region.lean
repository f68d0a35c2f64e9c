import Hvisor.Lib.BitMask

/-!
# Addresses, memory flags and memory regions

A `usize`, and so an address, is a natural number below `2 ^ 64`. The definitions follow
`consts.rs`, `memory/addr.rs`, `memory/mod.rs`, `memory/mapper.rs` and the region type of
`memory/mm.rs`.

## Main definitions

* `alignDown`, `alignUp`, `isAligned`, `pageOffset`: page arithmetic
* `MemFlags`: the memory flags, a set of bits
* `Mapper`, `Mapper.mapFn`: where a guest address of a region lies
* `MemoryRegion`, `MemoryRegion.newWithOffsetMapper`, `MemoryRegion.isOverlapWith`
* `MemoryRegion.Mem`, `MemoryRegion.Disjoint`: the addresses of a region, and disjoint regions
-/

namespace Hvisor

/-- The number of `usize` values. -/
def usizeSize : Nat := 2 ^ 64

/-- Addition that overflows into `none`. -/
def checkedAdd (a b : Nat) : Option Nat := if a + b < usizeSize then some (a + b) else none

/-- What the sum or the product of words of `w` bits is in a build, with checks of overflows or
without. -/
def wordResult (overflowChecks : Bool) (w x : Nat) : Option Nat :=
  if x < 2 ^ w then some x
  else if overflowChecks then none
  else some (x % 2 ^ w)

theorem isSome_wordResult_iff {overflowChecks : Bool} {w x : Nat} :
    (wordResult overflowChecks w x).isSome ↔ (overflowChecks = true → x < 2 ^ w) := by
  rw [wordResult]
  cases overflowChecks with
  | false =>
    split <;> simp
  | true =>
    split
    · next hlt => simp [hlt]
    · next hlt => simp [hlt]

theorem wordResult_mod {overflowChecks : Bool} {w x y : Nat}
    (h : wordResult overflowChecks w x = some y) : y = x % 2 ^ w := by
  rw [wordResult] at h
  split at h
  · next hlt =>
    cases h
    rw [Nat.mod_eq_of_lt hlt]
  · split at h
    · cases h
    · cases h
      rfl

/-- Subtraction modulo the word size. -/
def wrappingSub (a b : Nat) : Nat := (a + usizeSize - b) % usizeSize

/-- The complement of a word. -/
def usizeNot (a : Nat) : Nat := usizeSize - 1 - a

theorem checkedAdd_eq_some {a b c : Nat} :
    checkedAdd a b = some c ↔ a + b < usizeSize ∧ c = a + b := by
  unfold checkedAdd
  split_ifs with h <;> simp [h, eq_comm]

/-! ## Pages -/

/-- The size of a page. -/
def pageSize : Nat := 0x1000

/-- The number of zones. -/
def MAX_ZONE_NUM : Nat := 3

/-- The offset of an address in its page. -/
def pageOffset (addr : Nat) : Nat := addr &&& (pageSize - 1)

/-- The start of the page of an address. -/
def alignDown (addr : Nat) : Nat := addr &&& usizeNot (pageSize - 1)

/-- The start of the first page from an address on. -/
def alignUp (addr : Nat) : Nat := (addr + pageSize - 1) &&& usizeNot (pageSize - 1)

/-- The address is the start of a page. -/
def isAligned (addr : Nat) : Bool := pageOffset addr == 0

/-- The pages that a size takes. -/
def pageCount (size : Nat) : Nat := alignUp size / pageSize

@[simp] theorem pageOffset_eq (addr : Nat) : pageOffset addr = addr % 4096 :=
  BitMask.and_low addr 12

@[simp] theorem isAligned_iff {addr : Nat} : isAligned addr = true ↔ addr % 4096 = 0 := by
  simp [isAligned]

theorem alignDown_eq {addr : Nat} (h : addr < 2 ^ 64) : alignDown addr = addr - addr % 4096 :=
  BitMask.and_not_low (w := 64) (n := 12) h (by norm_num)

/-! ## Memory flags -/

/-- The flags of a region or of a mapping. -/
abbrev MemFlags := BitVec 64

namespace MemFlags

/-- The memory can be read. -/
def READ : MemFlags := 1#64 <<< 0
/-- The memory can be written. -/
def WRITE : MemFlags := 1#64 <<< 1
/-- The memory can be executed. -/
def EXECUTE : MemFlags := 1#64 <<< 2
/-- The memory is that of a device. -/
def Io : MemFlags := 1#64 <<< 4
/-- Only the smallest pages are used. -/
def NO_HUGEPAGES : MemFlags := 1#64 <<< 8
/-- The memory is one of user mode. -/
def USER : MemFlags := 1#64 <<< 9

/-- The empty set of flags. -/
def empty : MemFlags := 0

/-- All flags of `other` are set. -/
def contains (flags other : MemFlags) : Bool := flags &&& other == other

end MemFlags

/-! ## Regions -/

/-- How the addresses of a region map to physical addresses. -/
inductive Mapper where
  | offset (off : Nat)
  | fixed (paddr : Nat)
  deriving DecidableEq, Repr

/-- The physical address of a guest address. -/
def Mapper.mapFn : Mapper → Nat → Nat
  | .offset off, vaddr => wrappingSub vaddr off
  | .fixed paddr, _ => paddr

/-- A range of guest-physical addresses with its flags and its target. -/
structure MemoryRegion where
  start : Nat
  size : Nat
  flags : MemFlags
  mapper : Mapper
  deriving DecidableEq

namespace MemoryRegion

/-- A region at a start, with its target at another. -/
def newWithOffsetMapper (startVaddr : Nat) (startPaddr : Nat) (size : Nat)
    (flags : MemFlags) : MemoryRegion :=
  let physVirtOffset := wrappingSub startVaddr startPaddr
  ⟨startVaddr, size, flags, .offset physVirtOffset⟩

/-- Test whether this region overlaps with `other`; `none` when an end overflows. -/
def isOverlapWith (self other : MemoryRegion) : Option Bool := do
  let p0 := self.start
  let p1 ← checkedAdd p0 self.size
  let p2 := other.start
  let p3 ← checkedAdd p2 other.size
  return !(p1 ≤ p2 || p0 ≥ p3)

/-- The guest-physical addresses of the region. -/
def Mem (r : MemoryRegion) (va : Nat) : Prop := r.start ≤ va ∧ va < r.start + r.size

instance (r : MemoryRegion) (va : Nat) : Decidable (r.Mem va) :=
  inferInstanceAs (Decidable (_ ∧ _))

/-- No address is in both regions. -/
def Disjoint (r r' : MemoryRegion) : Prop :=
  r.start + r.size ≤ r'.start ∨ r'.start + r'.size ≤ r.start

instance (r r' : MemoryRegion) : Decidable (r.Disjoint r') :=
  inferInstanceAs (Decidable (_ ∨ _))

theorem Disjoint.symm {r r' : MemoryRegion} (h : r.Disjoint r') : r'.Disjoint r := Or.symm h

theorem Disjoint.not_mem {r r' : MemoryRegion} {va : Nat} (h : r.Disjoint r') (hr : r.Mem va) :
    ¬ r'.Mem va := by
  unfold Disjoint at h
  unfold Mem at *
  omega

/-- The test of two regions within the address space. -/
theorem isOverlapWith_eq {r r' : MemoryRegion} (h : r.start + r.size < usizeSize)
    (h' : r'.start + r'.size < usizeSize) :
    r.isOverlapWith r' = some (!decide (r.Disjoint r')) := by
  simp only [isOverlapWith, Option.bind_eq_bind, Option.pure_def,
    checkedAdd_eq_some.mpr ⟨h, rfl⟩, checkedAdd_eq_some.mpr ⟨h', rfl⟩, Option.bind_some]
  by_cases hd : r.Disjoint r' <;> simp only [hd] <;> unfold Disjoint at hd <;> simp <;> omega

end MemoryRegion

end Hvisor
