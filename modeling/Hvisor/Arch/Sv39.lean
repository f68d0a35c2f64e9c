import Hvisor.Memory.Writes

/-!
# The stage-2 tables of RISC-V

The page-table entry of `arch/riscv64/s2pt.rs`, the register that `S2PTInstr::activate` writes,
and the walk of the hardware in the mode Sv39x4. The tables are those of
`arch/riscv64/paging.rs`, which is the page table of three levels.

An entry with no access right reads as an entry for a table. The entries of the proofs,
`accessPTE`, are those of the source with an access right added to a mapping without one. For
mappings with one they are the same.

## Main definitions

* `DescriptorAttr`, `PageTableEntry`: the entry, with its instance of `GenericPTE`
* `activate`: the word for `hgatp`
* `PageTableEntry.kind`, `stage2Walk`, `sv39x4`: the walk of the hardware
* `accessPTE`, `withFlags`: the entries of mappings with an access right, where other flags are
  written than those asked for

## Main results

* `accessPTE_lawful`: these entries are lawful
* `mapLoop_access`, `unmapLoop_access`: the calls work alike on both kinds of entries
* `kind_setTable`, `kind_setFlags`: what the hardware reads in the entries of the source
-/

namespace Hvisor

namespace Riscv

open GenericPTE

/-! ## The entry -/

/-- The attribute fields of a descriptor. -/
abbrev DescriptorAttr := BitVec 64

namespace DescriptorAttr

/-- The entry is valid. -/
def VALID : DescriptorAttr := 1#64 <<< 0
/-- The page can be read. -/
def READABLE : DescriptorAttr := 1#64 <<< 1
/-- The page can be written. -/
def WRITABLE : DescriptorAttr := 1#64 <<< 2
/-- The page can be executed. -/
def EXECUTABLE : DescriptorAttr := 1#64 <<< 3
/-- The page is one of user mode; a guest's pages are. -/
def USER : DescriptorAttr := 1#64 <<< 4
/-- The mapping is global. -/
def GLOBAL : DescriptorAttr := 1#64 <<< 5
/-- The page was accessed. -/
def ACCESSED : DescriptorAttr := 1#64 <<< 6
/-- The page was written. -/
def DIRTY : DescriptorAttr := 1#64 <<< 7

/-- All named bits. -/
def all : DescriptorAttr :=
  VALID ||| READABLE ||| WRITABLE ||| EXECUTABLE ||| USER ||| GLOBAL ||| ACCESSED ||| DIRTY

/-- The bits that are attributes. -/
def fromBitsTruncate (bits : BitVec 64) : DescriptorAttr := bits &&& all

/-- All attributes of `other` are set. -/
def contains (self other : DescriptorAttr) : Bool := self &&& other == other

/-- `From<DescriptorAttr> for MemFlags`. -/
def toMemFlags (attr : DescriptorAttr) : MemFlags :=
  let flags := MemFlags.empty
  if !attr.contains VALID then flags
  else
    let flags := if attr.contains READABLE then flags ||| MemFlags.READ else flags
    let flags := if attr.contains WRITABLE then flags ||| MemFlags.WRITE else flags
    let flags := if attr.contains EXECUTABLE then flags ||| MemFlags.EXECUTE else flags
    if attr.contains USER then flags ||| MemFlags.USER else flags

/-- `From<MemFlags> for DescriptorAttr`. -/
def ofMemFlags (flags : MemFlags) : DescriptorAttr :=
  -- a stage 2 page table must be a user's
  let attr := VALID ||| USER
  let attr := if flags.contains MemFlags.READ then attr ||| READABLE else attr
  let attr := if flags.contains MemFlags.WRITE then attr ||| WRITABLE else attr
  let attr := if flags.contains MemFlags.EXECUTE then attr ||| EXECUTABLE else attr
  if flags.contains MemFlags.USER then attr ||| USER else attr

end DescriptorAttr

open Riscv.DescriptorAttr

/-- A stage-2 page-table entry. -/
structure PageTableEntry where
  bits : BitVec 64
  deriving DecidableEq

namespace PageTableEntry

/-- The bits of the page number in an entry. -/
def PTE_PPN_MASK : BitVec 64 := 0x3F_FFFF_FFFF_FC00

/-- The bits of the page number in an address. -/
def PPN_MASK : BitVec 64 := 0xFF_FFFF_FFFF_F000

/-- The entry that is not used. -/
def empty : PageTableEntry := ⟨0⟩

/-- The address of an entry. -/
def addr (self : PageTableEntry) : Nat := ((self.bits &&& PTE_PPN_MASK) <<< 2).toNat

/-- The address is written, and the low seven bits stay. -/
def setAddr (self : PageTableEntry) (paddr : Nat) : PageTableEntry :=
  ⟨(self.bits &&& 0x7f#64) ||| ((BitVec.ofNat 64 paddr &&& PPN_MASK) >>> 2)⟩

/-- The attributes anew, under the same address. -/
def setAttr (self : PageTableEntry) (attr : DescriptorAttr) : PageTableEntry :=
  ⟨(attr &&& ~~~PTE_PPN_MASK) ||| (self.bits &&& PTE_PPN_MASK)⟩

/-- The entry of a mapping gets its flags. -/
def setFlags (self : PageTableEntry) (flags : MemFlags) : PageTableEntry :=
  let attr := ofMemFlags flags
  self.setAttr attr

/-- The entry becomes one for a table. -/
def setTable (self : PageTableEntry) (paddr : Nat) : PageTableEntry :=
  let attr := VALID
  (self.setAddr paddr).setAttr attr

/-- The entry is a leaf: it has a right. -/
def isHuge (self : PageTableEntry) : Bool :=
  (fromBitsTruncate self.bits).contains READABLE ||
    (fromBitsTruncate self.bits).contains WRITABLE ||
    (fromBitsTruncate self.bits).contains EXECUTABLE

end PageTableEntry

/-- The entries of the source. -/
instance sourcePTE : GenericPTE PageTableEntry where
  zero := PageTableEntry.empty
  addr := PageTableEntry.addr
  flags e := some (fromBitsTruncate e.bits).toMemFlags
  isUnused e := e.bits == 0
  isPresent e := (fromBitsTruncate e.bits).contains VALID
  isHuge := PageTableEntry.isHuge
  setAddr := PageTableEntry.setAddr
  setFlags e flags _ := PageTableEntry.setFlags e flags
  setTable := PageTableEntry.setTable
  clear _ := ⟨0⟩

/-- The word for `hgatp`; `none` is the panic of `set_bits` on a number that does not fit. -/
def activate (rootPaddr : Nat) : Option (BitVec 64) :=
  let mode := 8#64
  let vmid := 0#64
  if rootPaddr >>> 12 < 2 ^ 44 then
    some ((mode <<< 60) ||| (vmid <<< 44) ||| BitVec.ofNat 64 (rootPaddr >>> 12))
  else none

/-! ## The walk of the hardware -/

/-- The root table that `hgatp` names. In the mode Sv39x4 the two low bits of the page number read
as zero. -/
def hgatpRoot (hgatp : BitVec 64) : Nat := BitMask.field hgatp.toNat 0 44 / 4 * 4 * 4096

/-- The page number of an entry. -/
def PageTableEntry.ppn (e : PageTableEntry) : Nat := BitMask.field e.bits.toNat 10 44

/-- What the hardware reads in an entry. -/
inductive PteKind where
  | fault
  | leaf
  | table
  deriving DecidableEq

/-- The bits that are reserved in every entry. -/
def RESERVED : BitVec 64 := 0x3FF#64 <<< 54

/-- An entry that is not valid, that may be written but not read, or that has a reserved bit set
faults. Of the others a leaf may be read or executed, and must be a user's page; the attributes
of pages are reserved in an entry for a table. Whether a page was accessed or written is left to
the hardware, which sets the bits itself. -/
def PageTableEntry.kind (e : PageTableEntry) : PteKind :=
  if !contains e.bits VALID || (!contains e.bits READABLE && contains e.bits WRITABLE) ||
      !(e.bits &&& RESERVED == 0) then .fault
  else if contains e.bits READABLE || contains e.bits EXECUTABLE then
    if contains e.bits USER then .leaf else .fault
  else if contains e.bits USER || contains e.bits ACCESSED || contains e.bits DIRTY then .fault
  else .table

/-- The index of a guest-physical address on a level. The root table has eleven bits. -/
def walkIndex : Nat → Nat → Nat
  | 2, gpa => BitMask.field gpa 30 11
  | level, gpa => BitMask.field gpa (12 + 9 * level) 9

/-- The bytes of a page on a level. -/
def levelBytes (level : Nat) : Nat := 4096 * 512 ^ level

/-- **The walk of the hardware** from a table of a level on: the physical address of a
guest-physical address. A page above the last level must be aligned to its size. -/
def stage2Walk (mem : Nat → PageTableEntry) (gpa : Nat) : Nat → Nat → Option Nat
  | level, table =>
    let e := mem (table + 8 * walkIndex level gpa)
    match e.kind with
    | .fault => none
    | .leaf =>
      if e.ppn * 4096 % levelBytes level = 0 then some (e.ppn * 4096 + gpa % levelBytes level)
      else none
    | .table =>
      match level with
      | 0 => none
      | level + 1 => stage2Walk mem gpa level (e.ppn * 4096)

/-- **The translation in the mode Sv39x4**, of guest-physical addresses of 41 bits. -/
def sv39x4 (mem : Nat → PageTableEntry) (hgatp : BitVec 64) (gpa : Nat) : Option Nat :=
  if gpa < 2 ^ 41 then stage2Walk mem gpa 2 (hgatpRoot hgatp) else none

/-! ## Words that are put together -/

section Bits

variable {e : PageTableEntry} {attr : DescriptorAttr} {fl : MemFlags} {p : Nat}

theorem getLsbD_PPN_MASK {i : Nat} (hi : i < 64) :
    PageTableEntry.PPN_MASK.getLsbD i = (decide (12 ≤ i) && decide (i < 56)) := by
  have h : ∀ i : Fin 64, PageTableEntry.PPN_MASK.getLsbD i =
      (decide (12 ≤ i.val) && decide (i.val < 56)) := by decide
  exact h ⟨i, hi⟩

theorem getLsbD_PTE_PPN_MASK {i : Nat} (hi : i < 64) :
    PageTableEntry.PTE_PPN_MASK.getLsbD i = (decide (10 ≤ i) && decide (i < 54)) := by
  have h : ∀ i : Fin 64, PageTableEntry.PTE_PPN_MASK.getLsbD i =
      (decide (10 ≤ i.val) && decide (i.val < 54)) := by decide
  exact h ⟨i, hi⟩

/-- The address field holds the page number of the address. -/
theorem ppn_setAddr (p : Nat) :
    ((PageTableEntry.empty.setAddr p).bits &&& PageTableEntry.PTE_PPN_MASK) <<< 2 =
      BitVec.ofNat 64 p &&& PageTableEntry.PPN_MASK := by
  apply BitVec.eq_of_getLsbD_eq
  intro i hi
  have hempty : (PageTableEntry.empty.setAddr p).bits =
      (BitVec.ofNat 64 p &&& PageTableEntry.PPN_MASK) >>> 2 := BitVec.zero_or
  simp only [hempty, BitVec.getLsbD_shiftLeft, BitVec.getLsbD_and, BitVec.getLsbD_ushiftRight]
  by_cases h2 : i < 2
  · rw [getLsbD_PPN_MASK hi]
    simp [h2]
    omega
  · rw [Nat.add_sub_cancel' (by omega : 2 ≤ i), getLsbD_PPN_MASK hi,
      getLsbD_PTE_PPN_MASK (by omega)]
    by_cases hlo : 12 ≤ i <;> by_cases hhi : i < 56 <;> simp [hi, h2, hlo, hhi]
    omega

/-- **An entry has the address it was built over.** -/
theorem addr_setAttr (attr : DescriptorAttr) (hp : p % 4096 = 0) (hlt : p < 2 ^ 56) :
    ((PageTableEntry.empty.setAddr p).setAttr attr).addr = p := by
  rw [PageTableEntry.addr, PageTableEntry.setAttr, BitMask.merge_and_mask, ppn_setAddr,
    BitVec.toNat_and, BitVec.toNat_ofNat, Nat.mod_eq_of_lt (by omega)]
  exact BitMask.and_window (a := 12) (b := 56) hp hlt (by norm_num)

/-- The address of an entry is its page number times the size of a page. -/
theorem ppn_mul (e : PageTableEntry) : e.ppn * 4096 = e.addr := by
  have hmask : PageTableEntry.PTE_PPN_MASK.toNat = (2 ^ 44 - 1) <<< 10 := by decide
  have hlt : e.ppn < 2 ^ 44 := BitMask.field_lt
  rw [PageTableEntry.addr, BitVec.toNat_shiftLeft, BitVec.toNat_and, hmask, BitMask.and_field,
    ← PageTableEntry.ppn, Nat.shiftLeft_eq, Nat.shiftLeft_eq, Nat.mod_eq_of_lt] <;> omega

/-- The attributes of an entry do not depend on its address. -/
theorem contains_setAttr {other : DescriptorAttr} (h : other &&& PageTableEntry.PTE_PPN_MASK = 0) :
    contains (e.setAttr attr).bits other = contains attr other := by
  rw [contains, contains, PageTableEntry.setAttr, BitMask.merge_and_disjoint _ _ _ _ h]

theorem fromBitsTruncate_setAttr :
    fromBitsTruncate (e.setAttr attr).bits = fromBitsTruncate attr :=
  BitMask.merge_and_disjoint attr e.bits PageTableEntry.PTE_PPN_MASK all (by decide)

/-- What the hardware reads does not depend on the address. -/
theorem kind_setAttr : (e.setAttr attr).kind = PageTableEntry.kind ⟨attr⟩ := by
  have hreserved : (e.setAttr attr).bits &&& RESERVED = attr &&& RESERVED :=
    BitMask.merge_and_disjoint attr e.bits PageTableEntry.PTE_PPN_MASK RESERVED (by decide)
  unfold PageTableEntry.kind
  rw [hreserved, contains_setAttr (by decide), contains_setAttr (by decide),
    contains_setAttr (by decide), contains_setAttr (by decide), contains_setAttr (by decide),
    contains_setAttr (by decide), contains_setAttr (by decide)]

/-- An entry that is not valid faults. -/
theorem kind_of_not_valid (h : (fromBitsTruncate e.bits).contains VALID = false) :
    e.kind = .fault := by
  have hbits : fromBitsTruncate e.bits &&& VALID = e.bits &&& VALID := by
    rw [fromBitsTruncate, BitVec.and_assoc]
    rfl
  rw [contains, hbits] at h
  unfold PageTableEntry.kind
  rw [contains, h]
  rfl

theorem kind_setTable (e : PageTableEntry) (p : Nat) : (e.setTable p).kind = .table := by
  rw [PageTableEntry.setTable, kind_setAttr]
  decide

/-- **The rights of a page that the hardware knows**: a page that may be written may be read. -/
def Accessible (fl : MemFlags) : Bool :=
  fl.contains MemFlags.READ || (fl.contains MemFlags.EXECUTE && !fl.contains MemFlags.WRITE)

/-- What the attributes of a page contain. -/
theorem contains_ofMemFlags (fl : MemFlags) : contains (ofMemFlags fl) VALID = true ∧
    contains (ofMemFlags fl) READABLE = fl.contains MemFlags.READ ∧
    contains (ofMemFlags fl) WRITABLE = fl.contains MemFlags.WRITE ∧
    contains (ofMemFlags fl) EXECUTABLE = fl.contains MemFlags.EXECUTE ∧
    contains (ofMemFlags fl) USER = true ∧ ofMemFlags fl &&& RESERVED = 0 ∧
    fromBitsTruncate (ofMemFlags fl) = ofMemFlags fl := by
  rw [ofMemFlags]
  cases fl.contains MemFlags.READ <;> cases fl.contains MemFlags.WRITE <;>
    cases fl.contains MemFlags.EXECUTE <;> cases fl.contains MemFlags.USER <;>
    exact ⟨rfl, rfl, rfl, rfl, rfl, rfl, rfl⟩

theorem kind_setFlags (e : PageTableEntry) (fl : MemFlags) :
    (e.setFlags fl).kind = .leaf ↔ Accessible fl = true := by
  obtain ⟨hvalid, hread, hwrite, hexecute, huser, hreserved, -⟩ := contains_ofMemFlags fl
  rw [PageTableEntry.setFlags, kind_setAttr, Accessible]
  unfold PageTableEntry.kind
  rw [hvalid, hread, hwrite, hexecute, huser, hreserved]
  cases fl.contains MemFlags.READ <;> cases fl.contains MemFlags.WRITE <;>
    cases fl.contains MemFlags.EXECUTE <;> simp

/-- An entry is huge when a right is set. -/
theorem isHuge_setFlags (e : PageTableEntry) (fl : MemFlags) : (e.setFlags fl).isHuge =
    (fl.contains MemFlags.READ || fl.contains MemFlags.WRITE || fl.contains MemFlags.EXECUTE) := by
  obtain ⟨-, hread, hwrite, hexecute, -, -, hbits⟩ := contains_ofMemFlags fl
  unfold PageTableEntry.isHuge PageTableEntry.setFlags
  rw [fromBitsTruncate_setAttr, hbits, hread, hwrite, hexecute]

theorem valid_setFlags (e : PageTableEntry) (fl : MemFlags) :
    (fromBitsTruncate (e.setFlags fl).bits).contains VALID = true := by
  obtain ⟨hvalid, -, -, -, -, -, hbits⟩ := contains_ofMemFlags fl
  rw [PageTableEntry.setFlags, fromBitsTruncate_setAttr, hbits, hvalid]

theorem bits_ne_zero {bits : BitVec 64} (h : (fromBitsTruncate bits).contains VALID = true) :
    bits ≠ 0 := by
  rintro rfl
  exact absurd h (by decide)

end Bits

/-! ## Entries of mappings with an access right -/

/-- A right is set. -/
def HasAccess (fl : MemFlags) : Bool :=
  fl.contains MemFlags.READ || fl.contains MemFlags.WRITE || fl.contains MemFlags.EXECUTE

/-- The flags, with the right to read when there is none. -/
def withAccess (fl : MemFlags) : MemFlags := if HasAccess fl then fl else fl ||| MemFlags.READ

theorem withAccess_of {fl : MemFlags} (h : HasAccess fl = true) : withAccess fl = fl := if_pos h

theorem hasAccess_withAccess (fl : MemFlags) : HasAccess (withAccess fl) = true := by
  unfold withAccess
  split_ifs with h
  · exact h
  · have hread : (fl ||| MemFlags.READ).contains MemFlags.READ = true := by
      have habs : (fl ||| MemFlags.READ) &&& MemFlags.READ = MemFlags.READ := by
        ext i hi
        simp only [BitVec.getElem_and, BitVec.getElem_or]
        cases fl[i] <;> cases MemFlags.READ[i] <;> rfl
      rw [MemFlags.contains, habs, beq_self_eq_true]
    rw [HasAccess, hread, Bool.true_or, Bool.true_or]

theorem Accessible.hasAccess {fl : MemFlags} (h : Accessible fl = true) : HasAccess fl = true := by
  unfold Accessible at h
  unfold HasAccess
  revert h
  cases fl.contains MemFlags.READ <;> cases fl.contains MemFlags.WRITE <;>
    cases fl.contains MemFlags.EXECUTE <;> decide

/-- **The entries of mappings with an access right**: those of the source, where a mapping without
one is given the right to read. -/
@[reducible] def accessPTE : GenericPTE PageTableEntry :=
  { sourcePTE with
    setFlags := fun e flags _ => PageTableEntry.setFlags e (withAccess flags) }

theorem accessPTE_lawful : @LawfulGenericPTE PageTableEntry accessPTE := by
  let _ := accessPTE
  refine ⟨fun e => ?_, by decide, fun _ => rfl, fun p hp hlt => ?_, fun p fl huge => ?_,
    fun p fl huge hp hlt => addr_setAttr _ hp (by omega)⟩
  · show (e.bits == 0) = true ↔ e = PageTableEntry.empty
    rw [beq_iff_eq]
    exact ⟨fun h => congrArg PageTableEntry.mk h, fun h => congrArg PageTableEntry.bits h⟩
  · have hv : (fromBitsTruncate (PageTableEntry.empty.setTable p).bits).contains VALID = true := by
      rw [PageTableEntry.setTable, fromBitsTruncate_setAttr]
      decide
    refine ⟨beq_eq_false_iff_ne.mpr (bits_ne_zero hv), hv, ?_, addr_setAttr VALID hp (by omega)⟩
    show (PageTableEntry.empty.setTable p).isHuge = false
    rw [PageTableEntry.isHuge, PageTableEntry.setTable, fromBitsTruncate_setAttr]
    decide
  · have hv := valid_setFlags (PageTableEntry.empty.setAddr p) (withAccess fl)
    refine ⟨beq_eq_false_iff_ne.mpr (bits_ne_zero hv), hv, fun _ => ?_⟩
    exact (isHuge_setFlags _ _).trans (hasAccess_withAccess fl)

/-! ## The calls on both kinds of entries -/

section WithFlags

variable {PTE : Type} (P : GenericPTE PTE) (w : MemFlags → MemFlags)

/-- The entries with other flags written for those asked for. -/
@[reducible] def withFlags : GenericPTE PTE :=
  { P with setFlags := fun e fl huge => P.setFlags e (w fl) huge }

theorem mapPage_withFlags (page : Page) (paddr : Nat) (fl : MemFlags) :
    @mapPage _ (withFlags P w) page paddr fl = @mapPage _ P page paddr (w fl) := rfl

theorem unmapPage_withFlags (vaddr : Nat) :
    @unmapPage _ (withFlags P w) vaddr = @unmapPage _ P vaddr := rfl

/-- The tables that are found do not depend on what is written. -/
theorem tableAt_withFlags (s : PtState PTE) (p : Path) :
    @tableAt _ (withFlags P w) s p = @tableAt _ P s p := by
  induction p with
  | nil => rfl
  | cons i p ih =>
    simp only [tableAt, ih]
    rfl

theorem tree_withFlags (s : PtState PTE) : @tree _ (withFlags P w) s = @tree _ P s := by
  funext p
  cases p with
  | nil => rfl
  | cons i p =>
    simp only [tree, tableAt_withFlags]
    rfl

end WithFlags

section Access

variable {region : MemoryRegion} {fl : MemFlags} {s s' : PtState PageTableEntry}

theorem accessPTE_eq : accessPTE = withFlags sourcePTE withAccess := rfl

theorem tree_access (s : PtState PageTableEntry) :
    @tree _ accessPTE s = @tree _ sourcePTE s := by
  rw [accessPTE_eq]
  exact tree_withFlags sourcePTE withAccess s

theorem mapPage_access (h : HasAccess fl = true) (page : Page) (paddr : Nat) :
    @mapPage _ accessPTE page paddr fl = @mapPage _ sourcePTE page paddr fl := by
  rw [accessPTE_eq, mapPage_withFlags, withAccess_of h]

/-- A page that cannot be mapped fails before its flags are written. -/
theorem mapPage_access_error {page : Page} {paddr : Nat} {e : PagingError}
    (h : (@mapPage _ accessPTE page paddr fl).run s = .error e s') :
    (@mapPage _ sourcePTE page paddr fl).run s = .error e s' := by
  rw [accessPTE_eq, mapPage_withFlags] at h
  rw [mapPage, EStateM.run_bind] at h ⊢
  cases hget : (@getEntryMutOrCreate _ sourcePTE page).run s with
  | error e' s₁ =>
    rw [hget] at h
    exact h
  | ok entry s₁ =>
    rw [hget] at h
    simp only [EStateM.run_bind, EStateM.run_get] at h ⊢
    cases hu : isUnused (s₁.mem entry) with
    | false =>
      simp only [hu, Bool.not_false, if_true] at h ⊢
      exact h
    | true =>
      simp only [hu, Bool.not_true, Bool.false_eq_true, if_false, modifyEntry, EStateM.run_bind,
        EStateM.run_modify, EStateM.run_pure] at h
      cases h

/-- **Mapping a region with an access right** works alike on both kinds of entries. -/
theorem mapLoop_access (h : HasAccess region.flags = true) (vaddr size : Nat) :
    @mapLoop _ accessPTE region vaddr size = @mapLoop _ sourcePTE region vaddr size := by
  induction size using Nat.strong_induction_on generalizing vaddr with
  | _ size ih =>
    rw [@mapLoop.eq_def _ accessPTE, @mapLoop.eq_def _ sourcePTE]
    split_ifs with h0
    · rfl
    -- the rest of the region is mapped alike by the induction
    have hrest : ∀ ps : PageSize, ∀ next,
        @mapLoop _ accessPTE region next (size - ps.bytes) =
          @mapLoop _ sourcePTE region next (size - ps.bytes) := fun ps next =>
      ih _ (Nat.sub_lt (by omega) ps.bytes_pos) next
    simp only [mapPage_access h, hrest]

theorem unmapLoop_access (vaddr size : Nat) :
    @unmapLoop _ accessPTE vaddr size = @unmapLoop _ sourcePTE vaddr size := by
  induction size using Nat.strong_induction_on generalizing vaddr with
  | _ size ih =>
    funext s
    rw [@unmapLoop.eq_def _ accessPTE, @unmapLoop.eq_def _ sourcePTE]
    split_ifs with h0
    · rfl
    have hrest : ∀ ps : PageSize, ∀ next,
        @unmapLoop _ accessPTE next (size - ps.bytes) =
          @unmapLoop _ sourcePTE next (size - ps.bytes) := fun ps next =>
      ih _ (Nat.sub_lt (by omega) ps.bytes_pos) next
    have hpage : @unmapPage _ accessPTE vaddr = @unmapPage _ sourcePTE vaddr := by
      rw [accessPTE_eq, unmapPage_withFlags]
    simp only [hrest, hpage]

end Access

end Riscv

end Hvisor
