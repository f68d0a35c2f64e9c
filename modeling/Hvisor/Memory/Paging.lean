import Hvisor.Error
import Hvisor.Memory.Region

/-!
# The level-3/4 page table

The page table of `arch/aarch64/paging.rs`, over any entry type. A table is a frame of 512
entries in physical memory, and a reference to an entry is its address. The tables, the memory
and the frame allocator form one state; a computation that fails keeps the state it has reached.

The clonee lock serialises the operations of one table and of its clones, so each operation here
is one step. An arithmetic overflow and a failed assertion are the panics of the debug build.

## Main definitions

* `PagingError`, `PageSize`, `GenericPTE`: errors, page sizes and the interface of an entry
* `PtState`, `PagingM`, `HvM`: the state and the computations over it
* `getEntryMut`, `query`: the walk, and the answer for an address
* `getEntryMutOrCreate`, `mapPage`, `unmapPage`: one page
* `choosePageSize`, `HvPageTable.map`, `HvPageTable.unmap`: a region
-/

namespace Hvisor

/-- Why a page table turns a call down. -/
inductive PagingError where
  | NoMemory
  | NotMapped
  | AlreadyMapped
  | MappedToHugePage
  deriving DecidableEq, Repr

/-- The format `{:?}` of a paging error. -/
def PagingError.debug : PagingError → String
  | .NoMemory => "NoMemory"
  | .NotMapped => "NotMapped"
  | .AlreadyMapped => "AlreadyMapped"
  | .MappedToHugePage => "MappedToHugePage"

/-- `From<PagingError> for HvError`. -/
def PagingError.toHvError : PagingError → HvError
  | .NoMemory => ⟨.ENOMEM, none⟩
  | e => ⟨.EFAULT, some e.debug⟩

/-- The sizes of pages. -/
inductive PageSize where
  | Size4K
  | Size2M
  | Size1G
  deriving DecidableEq, Repr

namespace PageSize

/-- The discriminant of a page size: its number of bytes. -/
def bytes : PageSize → Nat
  | .Size4K => 0x1000
  | .Size2M => 0x200000
  | .Size1G => 0x40000000

/-- The offset of an address in its page. -/
def pageOffset (self : PageSize) (addr : Nat) : Nat := addr &&& (self.bytes - 1)

/-- The address is the start of a page. -/
def isAligned (self : PageSize) (addr : Nat) : Bool := self.pageOffset addr == 0

/-- The start of the page of an address. -/
def alignDown (self : PageSize) (addr : Nat) : Nat := addr &&& usizeNot (self.bytes - 1)

/-- The page is larger than the smallest. -/
def isHuge : PageSize → Bool
  | .Size4K => false
  | _ => true

theorem bytes_pos (ps : PageSize) : 0 < ps.bytes := by cases ps <;> simp [bytes]

@[simp] theorem pageOffset_eq (ps : PageSize) (addr : Nat) :
    ps.pageOffset addr = addr % ps.bytes := by
  cases ps
  · exact BitMask.and_low addr 12
  · exact BitMask.and_low addr 21
  · exact BitMask.and_low addr 30

@[simp] theorem isAligned_iff {ps : PageSize} {addr : Nat} :
    ps.isAligned addr = true ↔ addr % ps.bytes = 0 := by
  simp [isAligned]

theorem alignDown_eq (ps : PageSize) {addr : Nat} (h : addr < 2 ^ 64) :
    ps.alignDown addr = addr - addr % ps.bytes := by
  cases ps
  · exact BitMask.and_not_low (w := 64) (n := 12) h (by norm_num)
  · exact BitMask.and_not_low (w := 64) (n := 21) h (by norm_num)
  · exact BitMask.and_not_low (w := 64) (n := 30) h (by norm_num)

end PageSize

/-- A page: its address and its size. -/
structure Page where
  vaddr : Nat
  size : PageSize
  deriving DecidableEq

/-- The interface of a page-table entry. `zero` is the entry that a zeroed word holds, and `flags`
is `none` where decoding them panics. -/
class GenericPTE (PTE : Type) where
  zero : PTE
  addr : PTE → Nat
  flags : PTE → Option MemFlags
  isUnused : PTE → Bool
  isPresent : PTE → Bool
  isHuge : PTE → Bool
  setAddr : PTE → Nat → PTE
  setFlags : PTE → MemFlags → Bool → PTE
  setTable : PTE → Nat → PTE
  clear : PTE → PTE

open GenericPTE

/-! ## Tables and indices -/

/-- The number of entries of a table. -/
abbrev entryCount : Nat := 512

/-- The index that the bits of an address from `shift` on select in a table. -/
def tableIndex (shift vaddr : Nat) : Fin entryCount :=
  ⟨(vaddr >>> shift) &&& (entryCount - 1), by
    have : (vaddr >>> shift) &&& (2 ^ 9 - 1) = (vaddr >>> shift) % 2 ^ 9 := BitMask.and_low _ 9
    simp only [entryCount]
    norm_num at this ⊢
    omega⟩

/-- The index in the table of the fourth level. -/
def p4Index (vaddr : Nat) : Fin entryCount := tableIndex (12 + 27) vaddr
/-- The index in the table of the third level. -/
def p3Index (vaddr : Nat) : Fin entryCount := tableIndex (12 + 18) vaddr
/-- The index in the table of the second level. -/
def p2Index (vaddr : Nat) : Fin entryCount := tableIndex (12 + 9) vaddr
/-- The index in the table of the first level. -/
def p1Index (vaddr : Nat) : Fin entryCount := tableIndex 12 vaddr

theorem tableIndex_val (shift vaddr : Nat) :
    (tableIndex shift vaddr).val = vaddr / 2 ^ shift % 512 := by
  rw [← Nat.shiftRight_eq_div_pow]
  exact BitMask.and_low _ 9

/-- The address of an entry of a table. -/
def entryPtr (table : Nat) (i : Fin entryCount) : Nat := table + 8 * i.val

/-! ## The state of a page table -/

/-- A page table: its root frame, its number of levels and its intermediate frames. -/
structure HvPageTable where
  root : Nat
  level : Nat
  intrmTables : List Nat
  deriving DecidableEq

/-- A page table with the physical memory, read as entries, and the frames that the allocator
hands out next. -/
structure PtState (PTE : Type) where
  pt : HvPageTable
  mem : Nat → PTE
  free : List Nat

/-- Computations of a page table that fail with a paging error. -/
abbrev PagingM (PTE : Type) := EStateM PagingError (PtState PTE)

/-- Computations of a page table that fail with an error of the hypervisor, or panic. -/
abbrev HvM (PTE : Type) := EStateM (Fault HvError) (PtState PTE)

/-- The state in which a computation ends. -/
def endState {ε σ α : Type} : EStateM.Result ε σ α → σ
  | .ok _ s => s
  | .error _ s => s

@[simp] theorem endState_ok {ε σ α : Type} (a : α) (s : σ) :
    endState (.ok a s : EStateM.Result ε σ α) = s := rfl

@[simp] theorem endState_error {ε σ α : Type} (e : ε) (s : σ) :
    endState (.error e s : EStateM.Result ε σ α) = s := rfl

variable {PTE : Type} [GenericPTE PTE]

/-- The state with an entry rewritten. -/
def PtState.setEntry (s : PtState PTE) (entry : Nat) (e : PTE) : PtState PTE :=
  { s with mem := Function.update s.mem entry e }

/-- The memory with the frame at `paddr` filled with zero. -/
def zeroFrame (mem : Nat → PTE) (paddr : Nat) : Nat → PTE := fun a =>
  if paddr ≤ a ∧ a < paddr + pageSize then zero else mem a

/-- Rewrite an entry in place. -/
def modifyEntry (entry : Nat) (f : PTE → PTE) : PagingM PTE Unit :=
  modify fun s => s.setEntry entry (f (s.mem entry))

/-- An error of the page table as an error of the hypervisor. -/
def liftPaging {α : Type} (x : PagingM PTE α) : HvM PTE α := fun s =>
  match x s with
  | .ok a s' => .ok a s'
  | .error e s' => .error (.err e.toHvError) s'

omit [GenericPTE PTE] in
theorem liftPaging_run {α : Type} (x : PagingM PTE α) (s : PtState PTE) :
    (liftPaging x).run s = match x.run s with
      | .ok a s' => .ok a s'
      | .error e s' => .error (.err e.toHvError) s' := rfl

/-- `assert!`. -/
def hvAssert {σ : Type} (b : Bool) : EStateM (Fault HvError) σ Unit :=
  if b then pure () else throw .panic

/-! ## The walk -/

/-- The table that an entry leads to. -/
def nextTableMut (entry : PTE) : Except PagingError Nat :=
  if !isPresent entry then .error .NotMapped
  else if isHuge entry then .error .MappedToHugePage
  else .ok (addr entry)

/-- The entry that serves an address, and its page size. -/
def getEntryMut (s : PtState PTE) (vaddr : Nat) : Except PagingError (Nat × PageSize) := do
  let p3 ←
    if s.pt.level = 4 then
      let p4 := s.pt.root
      let p4e := entryPtr p4 (p4Index vaddr)
      nextTableMut (s.mem p4e)
    else
      .ok s.pt.root
  let p3e := entryPtr p3 (p3Index vaddr)
  if isHuge (s.mem p3e) then
    return (p3e, .Size1G)
  let p2 ← nextTableMut (s.mem p3e)
  let p2e := entryPtr p2 (p2Index vaddr)
  if isHuge (s.mem p2e) then
    return (p2e, .Size2M)
  let p1 ← nextTableMut (s.mem p2e)
  let p1e := entryPtr p1 (p1Index vaddr)
  return (p1e, .Size4K)

/-- The physical address, the flags and the page size of an address. -/
def query (s : PtState PTE) (vaddr : Nat) :
    Except (Fault PagingError) (Nat × MemFlags × PageSize) :=
  match getEntryMut s vaddr with
  | .error e => .error (.err e)
  | .ok (entry, size) =>
    if isUnused (s.mem entry) then
      .error (.err .NotMapped)
    else
      let off := size.pageOffset vaddr
      match flags (s.mem entry) with
      | some fl => .ok (addr (s.mem entry) + off, fl, size)
      | none => .error .panic

/-! ## One page -/

/-- A zeroed frame for an intermediate table, kept with the page table. -/
def allocIntrmTable : PagingM PTE Nat := fun s =>
  match s.free with
  | [] => .error .NoMemory s
  | paddr :: free =>
    .ok paddr
      { pt := { s.pt with intrmTables := s.pt.intrmTables ++ [paddr] }
        mem := zeroFrame s.mem paddr
        free }

/-- The table of an entry, which is created when there is none. -/
def nextTableMutOrCreate (entry : Nat) : PagingM PTE Nat := do
  let e := (← get).mem entry
  if isUnused e then
    let paddr ← allocIntrmTable
    modifyEntry entry (setTable · paddr)
    return paddr
  else
    match nextTableMut e with
    | .ok table => return table
    | .error err => throw err

/-- The entry of a page, with the tables on its way created. -/
def getEntryMutOrCreate (page : Page) : PagingM PTE Nat := do
  let s ← get
  let p3 ←
    if s.pt.level = 4 then
      let p4 := s.pt.root
      let p4e := entryPtr p4 (p4Index page.vaddr)
      nextTableMutOrCreate p4e
    else
      pure s.pt.root
  let p3e := entryPtr p3 (p3Index page.vaddr)
  if page.size = .Size1G then
    return p3e
  let p2 ← nextTableMutOrCreate p3e
  let p2e := entryPtr p2 (p2Index page.vaddr)
  if page.size = .Size2M then
    return p2e
  let p1 ← nextTableMutOrCreate p2e
  let p1e := entryPtr p1 (p1Index page.vaddr)
  return p1e

/-- The entry of a page is written, where there is none yet. -/
def mapPage (page : Page) (paddr : Nat) (flags : MemFlags) : PagingM PTE Nat := do
  let entry ← getEntryMutOrCreate page
  if !isUnused ((← get).mem entry) then
    throw .AlreadyMapped
  modifyEntry entry (setAddr · (page.size.alignDown paddr))
  modifyEntry entry (setFlags · flags page.size.isHuge)
  return entry

/-- The entry of an address is cleared. -/
def unmapPage (vaddr : Nat) : PagingM PTE (Nat × PageSize) := fun s =>
  match getEntryMut s vaddr with
  | .error e => .error e s
  | .ok (entry, size) =>
    if isUnused (s.mem entry) then
      .error .NotMapped s
    else
      let paddr := addr (s.mem entry)
      .ok (paddr, size) (s.setEntry entry (clear (s.mem entry)))

/-! ## A region -/

/-- The largest page that fits at an address. -/
def choosePageSize (vaddr paddr size : Nat) (flags : MemFlags) : PageSize :=
  if PageSize.Size1G.isAligned vaddr && PageSize.Size1G.isAligned paddr &&
      decide (size ≥ PageSize.Size1G.bytes) && !flags.contains MemFlags.NO_HUGEPAGES then
    .Size1G
  else if PageSize.Size2M.isAligned vaddr && PageSize.Size2M.isAligned paddr &&
      decide (size ≥ PageSize.Size2M.bytes) && !flags.contains MemFlags.NO_HUGEPAGES then
    .Size2M
  else
    .Size4K

/-- The loop of `map` from `vaddr` on, with `size` bytes left. -/
def mapLoop (region : MemoryRegion) (vaddr size : Nat) : HvM PTE Unit :=
  if size = 0 then pure ()
  else do
    let paddr := region.mapper.mapFn vaddr
    let pageSize := choosePageSize vaddr paddr size region.flags
    -- `Page::new_aligned` asserts the alignment in the debug build
    hvAssert (pageSize.isAligned vaddr)
    let _ ← liftPaging (mapPage ⟨vaddr, pageSize⟩ paddr region.flags)
    match checkedAdd vaddr pageSize.bytes with
    | none => throw .panic
    | some next =>
      if pageSize.bytes ≤ size then mapLoop region next (size - pageSize.bytes)
      else throw .panic
termination_by size
decreasing_by exact Nat.sub_lt (by omega) (PageSize.bytes_pos _)

/-- The pages of a region are mapped, the largest that fit. -/
def HvPageTable.map (region : MemoryRegion) : HvM PTE Unit := do
  hvAssert (isAligned region.start)
  hvAssert (isAligned region.size)
  mapLoop region region.start region.size

/-- The loop of `unmap` from `vaddr` on, with `size` bytes left. A page that is not aligned to its
size ends in an endless loop, which no caller comes back from either. -/
def unmapLoop (vaddr size : Nat) : HvM PTE Unit := fun s =>
  if size = 0 then .ok () s
  else
    match liftPaging (unmapPage vaddr) s with
    | .error e s' => .error e s'
    | .ok (_, pageSize) s' =>
      if !pageSize.isAligned vaddr then .error .panic s'
      else if pageSize.bytes ≤ size then
        match checkedAdd vaddr pageSize.bytes with
        | none => .error .panic s'
        | some next => unmapLoop next (size - pageSize.bytes) s'
      else .error .panic s'
termination_by size
decreasing_by exact Nat.sub_lt (by omega) (PageSize.bytes_pos _)

/-- The pages of a region are unmapped. -/
def HvPageTable.unmap (region : MemoryRegion) : HvM PTE Unit :=
  unmapLoop region.start region.size

end Hvisor
