import Hvisor.Lib.TransitionSystem
import Hvisor.Memory.MemorySet

/-!
# Page tables of LoongArch

The page table of `arch/loongarch64/paging.rs` with the entries of `s2pt.rs`: four levels, with
pages on the last one only. The walk follows the directory entry of each level without a test that
it is in use. Where no table was made for the two megabytes around an address, it follows an entry
of zeros, and takes physical page 0 for a table.

A frame of the hypervisor has its physical address with the prefix of the window through which the
CPU sees it.

## Main definitions

* `Loong.PageTableEntry`: the entries
* `Loong.getEntryMut`, `Loong.query`, `Loong.unmapPage`: the walk, and what it is used for
* `Loong.map`, `Loong.unmap`: the loops over a region
* `Loong.tableAt`: the tables that were made

## Main results

* `Loong.getEntryMut_eq`, `Loong.walk_of_tableAt`: what the walk follows
-/

namespace Hvisor

namespace Loong

/-! ## Entries -/

namespace DescriptorAttr

/-- The entry is valid. -/
def V : BitVec 64 := 1#64 <<< 0
/-- The page is dirty. -/
def D : BitVec 64 := 1#64 <<< 1
/-- The privilege level. -/
def PLV : BitVec 64 := 0b11#64 <<< 2
/-- The type of the memory. -/
def MAT : BitVec 64 := 0b11#64 <<< 4
/-- Strongly ordered, uncached. -/
def MAT_SUC : BitVec 64 := 0b00#64 <<< 4
/-- Coherent, cached. -/
def MAT_CC : BitVec 64 := 0b01#64 <<< 4
/-- The page is global, or huge in a directory. -/
def G : BitVec 64 := 1#64 <<< 6
/-- The page is present. -/
def P : BitVec 64 := 1#64 <<< 7
/-- The page can be written. -/
def W : BitVec 64 := 1#64 <<< 8
/-- The page cannot be read. -/
def NR : BitVec 64 := 1#64 <<< 61
/-- The page cannot be executed. -/
def NX : BitVec 64 := 1#64 <<< 62
/-- The privilege level is checked for equality. -/
def RPLV : BitVec 64 := 1#64 <<< 63

/-- The bits that have a name. -/
def all : BitVec 64 := V ||| D ||| PLV ||| MAT ||| G ||| P ||| W ||| NR ||| NX ||| RPLV

/-- The flags of a mapping that the bits say. -/
def toMemFlags (attr : BitVec 64) : MemFlags :=
  let flags := MemFlags.empty
  let flags := if attr &&& W == W then flags ||| MemFlags.WRITE else flags
  let flags := if !(attr &&& NR == NR) then flags ||| MemFlags.READ else flags
  if !(attr &&& NX == NX) then flags ||| MemFlags.EXECUTE else flags

/-- The bits that the flags of a mapping ask for. -/
def ofMemFlags (flags : MemFlags) : BitVec 64 :=
  let attr := 0
  let attr := if flags.contains MemFlags.WRITE then attr ||| W else attr
  let attr := if !flags.contains MemFlags.READ then attr ||| NR else attr
  let attr := if !flags.contains MemFlags.EXECUTE then attr ||| NX else attr
  -- the user's flag stands for an entry that is not valid
  let attr := if !flags.contains MemFlags.USER then attr ||| (V ||| D) else attr
  if flags.contains MemFlags.Io then attr ||| MAT_SUC else attr ||| MAT_CC

end DescriptorAttr

/-- An entry of a page table. -/
structure PageTableEntry where
  bits : BitVec 64
  deriving DecidableEq

namespace PageTableEntry

/-- The bits of the address. -/
def PTE_PPN_MASK : BitVec 64 := 0x0000_ffff_ffff_f000

/-- The address is written into the entry; the old one is taken out first. -/
def setAddr (self : PageTableEntry) (addr : Nat) : PageTableEntry :=
  ⟨(self.bits &&& ~~~PTE_PPN_MASK) ||| BitVec.ofNat 64 addr⟩

instance : GenericPTE PageTableEntry where
  zero := ⟨0⟩
  addr e := (e.bits &&& PTE_PPN_MASK).toNat
  flags e := some (DescriptorAttr.toMemFlags (e.bits &&& DescriptorAttr.all))
  isUnused e := e.bits == 0
  isPresent e := e.bits &&& DescriptorAttr.P != 0
  isHuge _ := false
  setAddr := setAddr
  setFlags e fl _ := ⟨DescriptorAttr.ofMemFlags fl ||| (e.bits &&& PTE_PPN_MASK)⟩
  setTable e pa := ⟨(e.setAddr pa).bits ||| DescriptorAttr.V⟩
  clear _ := ⟨0⟩

end PageTableEntry

open GenericPTE

/-- The state of a page table with the memory and the free frames. -/
abbrev State := PtState PageTableEntry

/-- `Level4PageTable::new`: a fresh root table; `none` is the failure of `expect`. -/
def new (mem : Nat → PageTableEntry) (free : List Nat) : Option State :=
  match free with
  | [] => none
  | root :: free => some ⟨⟨root, 4, []⟩, zeroFrame mem root, free⟩

/-! ## The walk -/

/-- Where the hypervisor sees memory, cached. -/
def LOONGARCH64_CACHED_DMW_PREFIX : Nat := 0x9000_0000_0000_0000

/-- `next_table_mut`: the test of the entry is commented out. -/
def nextTableMut (entry : PageTableEntry) : Except PagingError Nat :=
  .ok (addr entry ||| LOONGARCH64_CACHED_DMW_PREFIX)

/-- The entry of an address, with the size of its page. -/
def getEntryMut (s : State) (vaddr : Nat) : Except PagingError (Nat × PageSize) := do
  let p4e := entryPtr s.pt.root (p4Index vaddr)
  let p3 ← nextTableMut (s.mem p4e)
  let p3e := entryPtr p3 (p3Index vaddr)
  if isHuge (s.mem p3e) then
    return (p3e, .Size1G)
  let p2 ← nextTableMut (s.mem p3e)
  let p2e := entryPtr p2 (p2Index vaddr)
  if isHuge (s.mem p2e) then
    return (p2e, .Size2M)
  let p1 ← nextTableMut (s.mem p2e)
  let p1e := entryPtr p1 (p1Index vaddr)
  return (p1e, .Size4K)

/-- The answer for an address. -/
def query (s : State) (vaddr : Nat) : Except PagingError (Nat × MemFlags × PageSize) := do
  let (entry, size) ← getEntryMut s vaddr
  if isUnused (s.mem entry) then
    throw .NotMapped
  let off := size.pageOffset vaddr
  return (addr (s.mem entry) + off, (flags (s.mem entry)).getD .empty, size)

/-- The entry of an address is cleared. -/
def unmapPage (vaddr : Nat) : PagingM PageTableEntry (Nat × PageSize) := fun s =>
  match getEntryMut s vaddr with
  | .error e => .error e s
  | .ok (entry, size) =>
    if isUnused (s.mem entry) then
      .error .NotMapped s
    else
      let paddr := addr (s.mem entry)
      .ok (paddr, size) (s.setEntry entry (clear (s.mem entry)))

/-! ## Mapping -/

/-- The table of an entry, which is created when there is none. -/
def nextTableMutOrCreate (entry : Nat) : PagingM PageTableEntry Nat := do
  let e := (← get).mem entry
  if isUnused e then
    let paddr ← allocIntrmTable
    modifyEntry entry (setTable · paddr)
    return paddr
  else
    match nextTableMut e with
    | .ok table => return table
    | .error err => throw err

/-- The entry of a page, with the tables on its way created. -/
def getEntryMutOrCreate (page : Page) : PagingM PageTableEntry Nat := do
  let p4 := (← get).pt.root
  let p4e := entryPtr p4 (p4Index page.vaddr)
  let p3 ← nextTableMutOrCreate p4e
  let p3e := entryPtr p3 (p3Index page.vaddr)
  if page.size = .Size1G then
    return p3e
  let p2 ← nextTableMutOrCreate p3e
  let p2e := entryPtr p2 (p2Index page.vaddr)
  if page.size = .Size2M then
    return p2e
  let p1 ← nextTableMutOrCreate p2e
  let p1e := entryPtr p1 (p1Index page.vaddr)
  return p1e

/-- The entry of a page is written, where there is none yet. -/
def mapPage (page : Page) (paddr : Nat) (flags : MemFlags) : PagingM PageTableEntry Nat := do
  let entry ← getEntryMutOrCreate page
  if !isUnused ((← get).mem entry) then
    throw .AlreadyMapped
  modifyEntry entry (setAddr · (page.size.alignDown paddr))
  modifyEntry entry (setFlags · flags page.size.isHuge)
  return entry

/-- The loop of `map` from `vaddr` on, with `size` bytes left and pages of one size. -/
def mapLoop (region : MemoryRegion) (pageSize : PageSize) (vaddr size : Nat) :
    HvM PageTableEntry Unit :=
  if size = 0 then pure ()
  else do
    let paddr := region.mapper.mapFn vaddr
    hvAssert (pageSize.isAligned vaddr)
    let _ ← liftPaging (mapPage ⟨vaddr, pageSize⟩ paddr region.flags)
    match checkedAdd vaddr pageSize.bytes with
    | none => throw .panic
    | some next =>
      if pageSize.bytes ≤ size then mapLoop region pageSize next (size - pageSize.bytes)
      else throw .panic
termination_by size
decreasing_by exact Nat.sub_lt (by omega) (PageSize.bytes_pos _)

/-- The pages are of 4 KiB, also where a larger one fits. -/
def map (region : MemoryRegion) : HvM PageTableEntry Unit := do
  hvAssert (isAligned region.start)
  hvAssert (isAligned region.size)
  mapLoop region .Size4K region.start region.size

/-- The loop of `unmap` from `vaddr` on, with `size` bytes left. A page that is not aligned ends in
an endless loop, which no caller comes back from either. -/
def unmapLoop (vaddr size : Nat) : HvM PageTableEntry Unit := fun s =>
  if size = 0 then .ok () s
  else
    match liftPaging (unmapPage vaddr) s with
    | .error e s' => .error e s'
    | .ok (_, pageSize) s' =>
      if !pageSize.isAligned vaddr then .error .panic s'
      else if pageSize.bytes ≤ size then
        match checkedAdd vaddr pageSize.bytes with
        | none => .error .panic s'
        | some next => unmapLoop next (size - pageSize.bytes) s'
      else .error .panic s'
termination_by size
decreasing_by exact Nat.sub_lt (by omega) (PageSize.bytes_pos _)

/-- The pages of a region are unmapped. -/
def unmap (region : MemoryRegion) : HvM PageTableEntry Unit :=
  unmapLoop region.start region.size

/-! ## What the walk follows -/

/-- The directory entries that the walk for an address follows, one on each level. -/
def followed (s : State) (vaddr : Nat) : List PageTableEntry :=
  let e₄ := s.mem (entryPtr s.pt.root (p4Index vaddr))
  let e₃ := s.mem (entryPtr (addr e₄ ||| LOONGARCH64_CACHED_DMW_PREFIX) (p3Index vaddr))
  let e₂ := s.mem (entryPtr (addr e₃ ||| LOONGARCH64_CACHED_DMW_PREFIX) (p2Index vaddr))
  [e₄, e₃, e₂]

/-- The entry that the walk ends at. -/
def walkEnd (s : State) (vaddr : Nat) : Nat :=
  let e₄ := s.mem (entryPtr s.pt.root (p4Index vaddr))
  let e₃ := s.mem (entryPtr (addr e₄ ||| LOONGARCH64_CACHED_DMW_PREFIX) (p3Index vaddr))
  let e₂ := s.mem (entryPtr (addr e₃ ||| LOONGARCH64_CACHED_DMW_PREFIX) (p2Index vaddr))
  entryPtr (addr e₂ ||| LOONGARCH64_CACHED_DMW_PREFIX) (p1Index vaddr)

/-- **The walk never stops** before the last level. -/
theorem getEntryMut_eq (s : State) (vaddr : Nat) :
    getEntryMut s vaddr = .ok (walkEnd s vaddr, .Size4K) := rfl

variable {s s' : State} {p q : Path} {i j : Fin entryCount} {f g vaddr : Nat}

/-- The table that was made for a path of at most three indices, the deepest first. -/
def tableAt (s : State) : Path → Option Nat
  | [] => some s.pt.root
  | i :: p => do
    let f ← tableAt s p
    let e := s.mem (entryPtr f i)
    if p.length < 3 ∧ isUnused e = false then
      return addr e ||| LOONGARCH64_CACHED_DMW_PREFIX
    else none

/-- The path of the last table for an address. -/
def tablePath (vaddr : Nat) : Path := [p2Index vaddr, p3Index vaddr, p4Index vaddr]

/-- The path of the page of an address. -/
def pagePath (vaddr : Nat) : Path := p1Index vaddr :: tablePath vaddr

theorem tableAt_cons : tableAt s (i :: p) = some g ↔
    ∃ f, tableAt s p = some f ∧ p.length < 3 ∧ isUnused (s.mem (entryPtr f i)) = false ∧
      addr (s.mem (entryPtr f i)) ||| LOONGARCH64_CACHED_DMW_PREFIX = g := by
  rw [tableAt, Option.bind_eq_bind, Option.bind_eq_some_iff]
  apply exists_congr
  intro f
  apply and_congr_right
  intro _
  simp only [Option.ite_none_right_eq_some, Option.pure_def, Option.some.injEq, and_assoc]

theorem tableAt_of_some (h : tableAt s p = some f) : tableAt s (i :: p) =
    if p.length < 3 ∧ isUnused (s.mem (entryPtr f i)) = false then
      some (addr (s.mem (entryPtr f i)) ||| LOONGARCH64_CACHED_DMW_PREFIX)
    else none := by
  rw [tableAt, h]
  rfl

theorem tableAt_of_none (h : tableAt s p = none) : tableAt s (i :: p) = none := by
  rw [tableAt, h]
  rfl

theorem tableAt_of_unused (h : tableAt s p = some f)
    (hu : isUnused (s.mem (entryPtr f i)) = true) : tableAt s (i :: p) = none := by
  rw [tableAt_of_some h]
  simp only [hu, Bool.true_eq_false, and_false, if_false]

/-- **Where there is a table for an address, the walk follows the entries of the tables** and ends
in it. -/
theorem walk_of_tableAt (h : tableAt s (tablePath vaddr) = some f) :
    walkEnd s vaddr = entryPtr f (p1Index vaddr) ∧
      ∀ e ∈ followed s vaddr, isUnused e = false := by
  obtain ⟨f₂, h₂, -, hu₂, rfl⟩ := tableAt_cons.mp h
  obtain ⟨f₃, h₃, -, hu₃, rfl⟩ := tableAt_cons.mp h₂
  obtain ⟨f₄, h₄, -, hu₄, rfl⟩ := tableAt_cons.mp h₃
  obtain rfl : s.pt.root = f₄ := Option.some.inj h₄
  refine ⟨rfl, ?_⟩
  simp only [followed, List.forall_mem_cons, List.not_mem_nil, false_implies, implies_true,
    and_true]
  exact ⟨hu₄, hu₃, hu₂⟩

/-- Where all directory entries on the way are in use, there is a table for the address. -/
theorem tableAt_of_followed (h : ∀ e ∈ followed s vaddr, isUnused e = false) :
    ∃ f, tableAt s (tablePath vaddr) = some f := by
  simp only [followed, List.forall_mem_cons, List.not_mem_nil, false_implies, implies_true,
    and_true] at h
  obtain ⟨hu₄, hu₃, hu₂⟩ := h
  have h₄ : tableAt s [p4Index vaddr] = some _ :=
    tableAt_cons.mpr ⟨s.pt.root, rfl, by decide, hu₄, rfl⟩
  have h₃ : tableAt s [p3Index vaddr, p4Index vaddr] = some _ :=
    tableAt_cons.mpr ⟨_, h₄, by simp, hu₃, rfl⟩
  exact ⟨_, tableAt_cons.mpr ⟨_, h₃, by simp, hu₂, rfl⟩⟩

end Loong

end Hvisor
