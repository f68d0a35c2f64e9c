import Hvisor.Lib.BitMask
import Mathlib.Logic.Function.Basic

/-!
# The address space of the hypervisor on AArch64

The tables that the CPUs boot with and keep, from `arch/aarch64/mmu.rs`, and the walk of the MMU
through them. The hypervisor uses physical addresses as virtual ones, and so relies on the tables
mapping each address to itself.

## Main definitions

* `PTEDescriptor.new`, `bootPtInit`: the code
* `translate`: the walk, as `mmu_init` sets it up
* `bootMemory`: the memory type of an address, if it is mapped

## Main results

* `translate_bootPtInit`: every address is mapped to itself, or not mapped
-/

namespace Hvisor.BootMmu

open Function

/-! ## The code -/

/-- The logarithm of the bytes of a page. -/
def PAGE_SHIFT : Nat := 12
/-- The entries of a table. -/
def ENTRY_PER_PAGE : Nat := 512

/-- The type of the memory of a block. -/
inductive MemoryType where
  | Normal
  | Device
  | Null
  deriving DecidableEq

/-- What an entry is: a block, or a page of the next table. -/
inductive PTEType where
  | Block
  | Page

/-- The fields of a descriptor, at their offsets. -/
def fieldVal (offset numbits value : Nat) : Nat := (value % 2 ^ numbits) <<< offset

/-- A descriptor with the given fields; the others are zero. -/
def descriptor (fields : List Nat) : Nat := fields.foldr (· ||| ·) 0

/-- The index of the attributes in `MAIR_EL2`. -/
def MemoryType.attrIndx : MemoryType → Nat
  | Device => 0
  | Normal => 1
  | Null => 0

/-- Inner shareable, or outer. -/
def MemoryType.sh : MemoryType → Nat
  | Device => 0b10
  | Normal => 0b11
  | Null => 0b10

/-- The descriptor for an address, a type of memory and a kind of entry. -/
def PTEDescriptor.new (addr : Nat) (memType : MemoryType) : PTEType → Nat
  | .Block =>
    -- `OAB`, `AF`, `AP`, `TYPE` and `VALID`
    descriptor [fieldVal 12 36 (addr >>> PAGE_SHIFT), fieldVal 10 1 1, fieldVal 6 2 0b00,
      fieldVal 1 1 0, fieldVal 0 1 1, fieldVal 2 3 memType.attrIndx, fieldVal 8 2 memType.sh]
  | .Page =>
    -- `NLTA`, `VALID` and `TYPE`
    descriptor [fieldVal 12 36 (addr >>> PAGE_SHIFT), fieldVal 0 1 1, fieldVal 1 1 1]

/-- The descriptor that maps nothing. -/
def PTEDescriptor.invalid : Nat := 0

/-- A table. -/
abbrev PageTables := Fin ENTRY_PER_PAGE → Nat

namespace PageTables

/-- An entry of the table is written. -/
def set (t : PageTables) (i descriptor : Nat) : PageTables := fun j =>
  if j.val = i then descriptor else t j

/-- The loop over `start..stop`. -/
def fill (t : PageTables) (start stop : Nat) (f : Nat → Nat) : PageTables :=
  (List.range' start (stop - start)).foldl (fun t i => t.set i (f i)) t

end PageTables

/-- The layouts of the boards. -/
inductive PtLayout where
  | qemu
  /-- Of the boards with an RK3568 or an RK3588. -/
  | rk
  | other

/-- The logarithm of the bytes that an entry of the second level maps. -/
def L2_SHIFT : Nat := 21

/-- The first entry of the second table that maps devices, where it maps both. -/
def DEVICE_BOUND : Nat := (0xf0000000 - 0xc0000000) / 2 ^ L2_SHIFT

/-- `boot_pt_init`: the two tables; `l1PtEntry` is the address of the second. -/
def bootPtInit (layout : PtLayout) (l1PtEntry : Nat) : PageTables × PageTables :=
  let l0 : PageTables := fun _ => 0
  let l1 : PageTables := fun _ => 0
  match layout with
  | .qemu =>
    let l0 := l0.set 0 (PTEDescriptor.new 0x0 .Device .Block)
    let l0 := l0.fill 1 ENTRY_PER_PAGE fun i => PTEDescriptor.new (0x40000000 * i) .Normal .Block
    (l0, l1)
  | .rk =>
    let l0 := l0.set 0 (PTEDescriptor.new 0x0 .Normal .Block)
    let l0 := l0.set 1 (PTEDescriptor.new 0x40000000 .Normal .Block)
    let l0 := l0.set 2 (PTEDescriptor.new 0x80000000 .Normal .Block)
    let l0 := l0.set 3 (PTEDescriptor.new l1PtEntry .Null .Page)
    let l1 := l1.fill 0 DEVICE_BOUND fun i =>
      PTEDescriptor.new (0xc0000000 + i <<< L2_SHIFT) .Normal .Block
    let l1 := l1.fill DEVICE_BOUND ENTRY_PER_PAGE fun i =>
      PTEDescriptor.new (0xc0000000 + i <<< L2_SHIFT) .Device .Block
    let l0 := l0.fill 4 ENTRY_PER_PAGE fun i => PTEDescriptor.new (0x40000000 * i) .Normal .Block
    (l0, l1)
  | .other =>
    let l0 := l0.set 0 (PTEDescriptor.new 0x0 .Device .Block)
    let l0 := l0.fill 1 7 fun i => PTEDescriptor.new (0x40000000 * i) .Normal .Block
    let l0 := l0.fill 8 ENTRY_PER_PAGE fun _ => PTEDescriptor.invalid
    (l0, l1)

/-! ## The walk -/

/-- What an address is translated to. -/
structure Translated where
  pa : Nat
  attrIndx : Nat
  sh : Nat
  ap : Nat
  xn : Nat
  deriving DecidableEq

/-- A descriptor of a block or a page of `2 ^ shift` bytes. Without `AF` the access is a fault. -/
def leaf (d shift va : Nat) : Option Translated :=
  if d / 2 ^ 10 % 2 = 0 then none
  else some {
    pa := d / 2 ^ shift % 2 ^ (48 - shift) * 2 ^ shift + va % 2 ^ shift
    attrIndx := d / 2 ^ 2 % 2 ^ 3
    sh := d / 2 ^ 8 % 2 ^ 2
    ap := d / 2 ^ 6 % 2 ^ 2
    xn := d / 2 ^ 54 % 2 }

/-- The entry of a table that an address selects. -/
def entryIndex (va shift : Nat) : Fin ENTRY_PER_PAGE :=
  ⟨va / 2 ^ shift % ENTRY_PER_PAGE, Nat.mod_lt _ (by decide)⟩

/-- The walk over the levels whose entries are for `2 ^ shift` bytes. `mem` has the tables by their
addresses. What an entry for a table may forbid below it is left out; the entries here do not. -/
def walk (mem : Nat → PageTables) (va : Nat) : List Nat → PageTables → Option Translated
  | [], _ => none
  | shift :: shifts, t =>
    let d := t (entryIndex va shift)
    if d % 2 = 0 then none
    else if shift = PAGE_SHIFT then
      if d / 2 % 2 = 1 then leaf d shift va else none
    else if d / 2 % 2 = 0 then leaf d shift va
    else walk mem va shifts (mem (d / 2 ^ PAGE_SHIFT % 2 ^ 36 * 2 ^ PAGE_SHIFT))

/-- The walk as `mmu_init` sets it up: pages of 4 KiB, addresses of 39 bits. -/
def translate (mem : Nat → PageTables) (ttbr0 va : Nat) : Option Translated :=
  if va < 2 ^ 39 then walk mem va [30, 21, 12] (mem ttbr0) else none

/-- The memory with the tables of the boot at their addresses. -/
def bootMem (layout : PtLayout) (l0 l1 : Nat) (mem : Nat → PageTables) : Nat → PageTables :=
  update (update mem l0 (bootPtInit layout l1).1) l1 (bootPtInit layout l1).2

/-! ## What is mapped -/

/-- The memory type of an address, if it is mapped. -/
def bootMemory (layout : PtLayout) (va : Nat) : Option MemoryType :=
  match layout with
  | .qemu =>
    if va < 0x40000000 then some .Device else if va < 2 ^ 39 then some .Normal else none
  | .rk =>
    if 0xf0000000 ≤ va ∧ va < 0x100000000 then some .Device
    else if va < 2 ^ 39 then some .Normal else none
  | .other =>
    if va < 0x40000000 then some .Device else if va < 0x1c0000000 then some .Normal else none

/-- An address that is mapped to itself, for reads, writes and instructions of the hypervisor. -/
def identity (va : Nat) (memType : MemoryType) : Translated where
  pa := va
  attrIndx := memType.attrIndx
  sh := memType.sh
  ap := 0b00
  xn := 0

/-! ## Descriptors -/

theorem fieldVal_or (offset numbits value : Nat) {rest : Nat} (h : rest < 2 ^ offset) :
    fieldVal offset numbits value ||| rest = value % 2 ^ numbits * 2 ^ offset + rest := by
  rw [fieldVal, ← Nat.shiftLeft_add_eq_or_of_lt h, Nat.shiftLeft_eq]

/-- What a descriptor of a block has below the address. -/
def MemoryType.bits : MemoryType → Nat
  | Normal => 0x705
  | Device | Null => 0x601

theorem new_block (addr : Nat) (memType : MemoryType) :
    PTEDescriptor.new addr memType .Block = addr / 2 ^ 12 % 2 ^ 36 * 2 ^ 12 + memType.bits := by
  have hlow : memType.bits < 2 ^ 12 := by cases memType <;> decide
  rw [← Nat.shiftRight_eq_div_pow, ← fieldVal_or 12 36 _ hlow]
  cases memType <;> rfl

/-- A descriptor of a block is valid, no table, and accessed. -/
theorem new_block_bits (addr : Nat) (memType : MemoryType) :
    PTEDescriptor.new addr memType .Block % 2 = 1 ∧
      PTEDescriptor.new addr memType .Block / 2 % 2 = 0 ∧
      PTEDescriptor.new addr memType .Block / 2 ^ 10 % 2 = 1 := by
  rw [new_block]
  cases memType <;> simp only [MemoryType.bits] <;> omega

theorem new_page (addr : Nat) (memType : MemoryType) :
    PTEDescriptor.new addr memType .Page = addr / 2 ^ 12 % 2 ^ 36 * 2 ^ 12 + 3 := by
  rw [← Nat.shiftRight_eq_div_pow, ← fieldVal_or 12 36 _ (by decide)]
  rfl

theorem leaf_new {addr shift va : Nat} (memType : MemoryType) (haddr : addr < 2 ^ 48)
    (hshift : shift = 30 ∨ shift = 21) (halign : addr = va / 2 ^ shift * 2 ^ shift) :
    leaf (PTEDescriptor.new addr memType .Block) shift va = some (identity va memType) := by
  obtain ⟨-, -, haf⟩ := new_block_bits addr memType
  rw [leaf, if_neg (by rw [haf]; decide), new_block, identity]
  rcases hshift with rfl | rfl
  all_goals
    cases memType
    all_goals
      simp only [MemoryType.bits, MemoryType.attrIndx, MemoryType.sh, Option.some.injEq,
        Translated.mk.injEq, Nat.reduceSub]
      omega

/-! ## Tables -/

namespace PageTables

theorem fill_apply (t : PageTables) (start stop : Nat) (f : Nat → Nat) (j : Fin ENTRY_PER_PAGE) :
    t.fill start stop f j = if start ≤ j.val ∧ j.val < stop then f j else t j := by
  have hloop : ∀ n start (t : PageTables),
      (List.range' start n).foldl (fun t i => t.set i (f i)) t j =
        if start ≤ j.val ∧ j.val < start + n then f j else t j := by
    intro n
    induction n with
    | zero =>
      intro start t
      rw [if_neg (by omega)]
      rfl
    | succ n ih =>
      intro start t
      rw [List.range'_succ, List.foldl_cons, ih, set]
      -- the entry of the first round is not written again
      by_cases hj : j.val = start
      · rw [if_neg (by omega), if_pos hj, if_pos (by omega), hj]
      · rw [if_neg hj]
        congr 1
        apply propext
        omega
  rw [fill, hloop]
  congr 1
  apply propext
  omega

end PageTables

/-! ## The map -/

variable {mem : Nat → PageTables} {t : PageTables} {va l0 l1 : Nat}

theorem val_entryIndex (hva : va < 2 ^ 39) : (entryIndex va 30).val = va / 2 ^ 30 :=
  Nat.mod_eq_of_lt (show va / 2 ^ 30 < 512 by omega)

theorem walk_block (addr : Nat) {shift : Nat} {shifts : List Nat} {memType : MemoryType}
    (ht : t (entryIndex va shift) = PTEDescriptor.new addr memType .Block) (haddr : addr < 2 ^ 48)
    (hshift : shift = 30 ∨ shift = 21) (halign : addr = va / 2 ^ shift * 2 ^ shift) :
    walk mem va (shift :: shifts) t = some (identity va memType) := by
  have hpage : shift ≠ PAGE_SHIFT := by
    rw [PAGE_SHIFT]
    omega
  have hleaf := leaf_new memType haddr hshift halign
  obtain ⟨hvalid, hblock, -⟩ := new_block_bits addr memType
  simp only [walk, ht]
  rw [if_neg (by rw [hvalid]; decide), if_neg hpage, if_pos hblock, hleaf]

theorem walk_zero {shift : Nat} {shifts : List Nat} (ht : t (entryIndex va shift) = 0) :
    walk mem va (shift :: shifts) t = none := by
  simp only [walk, ht, Nat.zero_mod, if_true]

/-- An entry for a table leads to it. -/
theorem walk_page {shifts : List Nat} {memType : MemoryType}
    (ht : t (entryIndex va 30) = PTEDescriptor.new l1 memType .Page) (halign : l1 % 2 ^ 12 = 0)
    (hlt : l1 < 2 ^ 48) : walk mem va (30 :: shifts) t = walk mem va shifts (mem l1) := by
  have hnext : (l1 / 2 ^ 12 % 2 ^ 36 * 2 ^ 12 + 3) / 2 ^ PAGE_SHIFT % 2 ^ 36 * 2 ^ PAGE_SHIFT =
      l1 := by
    rw [PAGE_SHIFT]
    omega
  rw [new_page] at ht
  simp only [walk, ht]
  rw [if_neg (by omega), if_neg (by decide), if_neg (by omega), hnext]

theorem walk_qemu (hva : va < 2 ^ 39) :
    walk mem va [30, 21, 12] (bootPtInit .qemu l1).1 =
      some (identity va (if va < 0x40000000 then .Device else .Normal)) := by
  have hindex := val_entryIndex hva
  split_ifs with hlow
  · refine walk_block 0 ?_ (by decide) (.inl rfl) (by omega)
    simp only [bootPtInit, PageTables.fill_apply, PageTables.set, hindex]
    rw [if_neg (by omega), if_pos (by omega)]
  · refine walk_block (0x40000000 * (va / 2 ^ 30)) ?_ (by omega) (.inl rfl) (by omega)
    simp only [bootPtInit, PageTables.fill_apply, hindex, ENTRY_PER_PAGE]
    rw [if_pos (by omega)]

theorem walk_other (hva : va < 2 ^ 39) :
    walk mem va [30, 21, 12] (bootPtInit .other l1).1 =
      (if va < 0x40000000 then some (identity va .Device)
      else if va < 0x1c0000000 then some (identity va .Normal) else none) := by
  have hindex := val_entryIndex hva
  split_ifs with hlow hhigh
  · refine walk_block 0 ?_ (by decide) (.inl rfl) (by omega)
    simp only [bootPtInit, PageTables.fill_apply, PageTables.set, hindex]
    rw [if_neg (by omega), if_neg (by omega), if_pos (by omega)]
  · refine walk_block (0x40000000 * (va / 2 ^ 30)) ?_ (by omega) (.inl rfl) (by omega)
    simp only [bootPtInit, PageTables.fill_apply, hindex, ENTRY_PER_PAGE]
    rw [if_neg (by omega), if_pos (by omega)]
  -- entry 7 is in neither loop, and zero as the entries behind it
  · refine walk_zero ?_
    simp only [bootPtInit, PageTables.fill_apply, PageTables.set, hindex, ENTRY_PER_PAGE,
      PTEDescriptor.invalid]
    split_ifs <;> omega

/-- The last of the first four GiB has a table of its own. -/
theorem walk_rk (hva : va < 2 ^ 39) (halign : l1 % 2 ^ 12 = 0) (hlt : l1 < 2 ^ 48)
    (hmem : mem l1 = (bootPtInit .rk l1).2) :
    walk mem va [30, 21, 12] (bootPtInit .rk l1).1 =
      some (identity va (if 0xf0000000 ≤ va ∧ va < 0x100000000 then .Device else .Normal)) := by
  have hindex := val_entryIndex hva
  by_cases h3 : va / 2 ^ 30 = 3
  · have hentry : (bootPtInit .rk l1).1 (entryIndex va 30) = PTEDescriptor.new l1 .Null .Page := by
      simp only [bootPtInit, PageTables.fill_apply, PageTables.set, hindex]
      rw [if_neg (by omega), if_pos h3]
    have hindex1 : (entryIndex va 21).val = va / 2 ^ 21 - 3 * 512 := by
      change va / 2 ^ 21 % 512 = _
      omega
    have hbound : DEVICE_BOUND = 384 := rfl
    have hsize : ENTRY_PER_PAGE = 512 := rfl
    have hshift : 0xc0000000 + (va / 2 ^ 21 - 3 * 512) <<< L2_SHIFT = va / 2 ^ 21 * 2 ^ 21 := by
      rw [Nat.shiftLeft_eq, L2_SHIFT]
      omega
    rw [walk_page hentry halign hlt, hmem]
    split_ifs with hdevice
    · refine walk_block (va / 2 ^ 21 * 2 ^ 21) ?_ (by omega) (.inr rfl) rfl
      simp only [bootPtInit, PageTables.fill_apply, hindex1]
      rw [if_pos (by omega), hshift]
    · refine walk_block (va / 2 ^ 21 * 2 ^ 21) ?_ (by omega) (.inr rfl) rfl
      simp only [bootPtInit, PageTables.fill_apply, hindex1]
      rw [if_neg (by omega), if_pos (by omega), hshift]
  · rw [if_neg (by omega)]
    refine walk_block (0x40000000 * (va / 2 ^ 30)) ?_ (by omega) (.inl rfl) (by omega)
    simp only [bootPtInit, PageTables.fill_apply, PageTables.set, hindex, ENTRY_PER_PAGE]
    split_ifs with h h₂ h₁ h₀
    · rfl
    · rw [h₂]
    · rw [h₁]
    · rw [h₀]
    · omega

/-- **The hypervisor's addresses are physical ones**: wherever the two tables are, the MMU maps
every address that the layout has to itself, with the memory type that it is to have, and no
others. -/
theorem translate_bootPtInit (layout : PtLayout) (mem : Nat → PageTables) (va : Nat)
    (hne : l0 ≠ l1) (halign : l1 % 2 ^ 12 = 0) (hlt : l1 < 2 ^ 48) :
    translate (bootMem layout l0 l1 mem) l0 va = (bootMemory layout va).map (identity va) := by
  have hl0 : bootMem layout l0 l1 mem l0 = (bootPtInit layout l1).1 := by
    rw [bootMem, update_of_ne hne, update_self]
  have hl1 : bootMem layout l0 l1 mem l1 = (bootPtInit layout l1).2 := by
    rw [bootMem, update_self]
  rw [translate, hl0]
  split_ifs with hva
  · cases layout with
    | qemu =>
      rw [walk_qemu hva, bootMemory, if_pos hva]
      split_ifs <;> rfl
    | rk =>
      rw [walk_rk hva halign hlt hl1, bootMemory, if_pos hva]
      split_ifs <;> rfl
    | other =>
      rw [walk_other hva, bootMemory]
      split_ifs <;> rfl
  -- beyond the addresses of the walk
  · have hnone : bootMemory layout va = none := by
      cases layout <;> rw [bootMemory]
      · rw [if_neg (by omega), if_neg hva]
      · rw [if_neg (by omega), if_neg hva]
      · rw [if_neg (by omega), if_neg (by omega)]
    rw [hnone]
    rfl

/-- The registers of the interrupt controller of an RK3568. -/
theorem translate_bootPtInit_rk :
    translate (bootMem .rk 0x500000 0x501000 fun _ _ => 0) 0x500000 0xfd400000 =
      some (identity 0xfd400000 .Device) :=
  translate_bootPtInit .rk _ _ (by decide) (by decide) (by decide)

end Hvisor.BootMmu
