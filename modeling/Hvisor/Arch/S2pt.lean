import Hvisor.Memory.PagingTree

/-!
# Stage-2 descriptors

The page-table entry of `arch/aarch64/s2pt.rs`, a word with an address field and attributes, and
the number of levels that `arch/aarch64/mm.rs` chooses for stage 2.

## Main definitions

* `DescriptorAttr`, `MemType`: the attributes and the conversions from and to memory flags
* `PageTableEntry`: the entry, with its instance of `GenericPTE`
* `stage2Level`, `stage2Bits`: the levels of the table and the bits of the input addresses

## Main results

* `PageTableEntry.flags_leaf`: a mapping has the `READ`, `WRITE` and `IO` flags it was made with
* the instance of `LawfulGenericPTE`
-/

namespace Hvisor

/-- The attribute fields of a stage-2 descriptor. -/
abbrev DescriptorAttr := BitVec 64

/-- The type of the memory of a mapping. -/
inductive MemType where
  | Device
  | Normal
  deriving DecidableEq, Repr

/-- The attribute index of a memory type. -/
def MemType.toU64 : MemType → BitVec 64
  | .Device => 1
  | .Normal => 15

namespace DescriptorAttr

/-- The descriptor is valid. -/
def VALID : DescriptorAttr := 1#64 <<< 0
/-- The descriptor is one for a table or for a page. -/
def NON_BLOCK : DescriptorAttr := 1#64 <<< 1
/-- The attributes of the memory. -/
def ATTR : DescriptorAttr := 0b1111#64 <<< 2
/-- The guest may read. -/
def S2AP_R : DescriptorAttr := 1#64 <<< 6
/-- The guest may write. -/
def S2AP_W : DescriptorAttr := 1#64 <<< 7
/-- Inner shareable, with the next bit. -/
def INNER : DescriptorAttr := 1#64 <<< 8
/-- Shareable. -/
def SHAREABLE : DescriptorAttr := 1#64 <<< 9
/-- The access flag. -/
def AF : DescriptorAttr := 1#64 <<< 10

/-- All named bits. -/
def all : DescriptorAttr :=
  VALID ||| NON_BLOCK ||| ATTR ||| S2AP_R ||| S2AP_W ||| INNER ||| SHAREABLE ||| AF

/-- The bits that are attributes. -/
def fromBitsTruncate (bits : BitVec 64) : DescriptorAttr := bits &&& all

/-- All attributes of `other` are set. -/
def contains (self other : DescriptorAttr) : Bool := self &&& other == other

/-- The bits of the memory type. -/
def ATTR_INDEX_MASK : BitVec 64 := 0b111100

/-- The attributes of a memory type. -/
def fromMemType (memType : MemType) : DescriptorAttr :=
  let bits := memType.toU64 <<< 2
  let bits := if memType = .Normal then bits ||| (INNER ||| SHAREABLE) else bits
  fromBitsTruncate bits

/-- The memory type; `none` is the panic on an index that is neither. -/
def memType (self : DescriptorAttr) : Option MemType :=
  let idx := (self &&& ATTR_INDEX_MASK) >>> 2
  if idx = 1 then some .Device else if idx = 15 then some .Normal else none

/-- `From<DescriptorAttr> for MemFlags`. -/
def toMemFlags (attr : DescriptorAttr) : Option MemFlags := do
  let flags := MemFlags.empty
  let flags :=
    if attr.contains VALID && attr.contains S2AP_R then flags ||| MemFlags.READ else flags
  let flags := if attr.contains S2AP_W then flags ||| MemFlags.WRITE else flags
  let memType ← attr.memType
  return if memType = .Device then flags ||| MemFlags.Io else flags

/-- `From<MemFlags> for DescriptorAttr`. -/
def ofMemFlags (flags : MemFlags) : DescriptorAttr :=
  let attr := if flags.contains MemFlags.Io then fromMemType .Device else fromMemType .Normal
  let attr := attr ||| (VALID ||| AF)
  let attr := if flags.contains MemFlags.READ then attr ||| S2AP_R else attr
  if flags.contains MemFlags.WRITE then attr ||| S2AP_W else attr

end DescriptorAttr

open DescriptorAttr

/-- A stage-2 page-table entry. -/
structure PageTableEntry where
  bits : BitVec 64
  deriving DecidableEq

namespace PageTableEntry

/-- The bits of the address. -/
def PHYS_ADDR_MASK : BitVec 64 := 0x0000_ffff_ffff_f000

/-- The entry that is not used. -/
def empty : PageTableEntry := ⟨0⟩

/-- The attributes are written, and the address stays. -/
def setFlagsAndMemType (self : PageTableEntry) (flags : DescriptorAttr) (memType : MemType) :
    PageTableEntry :=
  let attr := flags ||| fromMemType memType
  ⟨(attr &&& ~~~PHYS_ADDR_MASK) ||| (self.bits &&& PHYS_ADDR_MASK)⟩

/-- The address is written, and the attributes stay. -/
def setAddr (self : PageTableEntry) (paddr : Nat) : PageTableEntry :=
  ⟨(self.bits &&& ~~~PHYS_ADDR_MASK) ||| (BitVec.ofNat 64 paddr &&& PHYS_ADDR_MASK)⟩

/-- The entry of a mapping gets its flags. -/
def setFlags (self : PageTableEntry) (flags : MemFlags) (isHuge : Bool) : PageTableEntry :=
  let memType := if flags.contains MemFlags.Io then MemType.Device else MemType.Normal
  let attr := ofMemFlags flags
  let attr := if !isHuge then attr ||| NON_BLOCK else attr
  self.setFlagsAndMemType attr memType

instance : GenericPTE PageTableEntry where
  zero := empty
  addr e := (e.bits &&& PHYS_ADDR_MASK).toNat
  flags e := (fromBitsTruncate e.bits).toMemFlags
  isUnused e := e.bits == 0
  isPresent e := (fromBitsTruncate e.bits).contains VALID
  isHuge e := !(fromBitsTruncate e.bits).contains NON_BLOCK
  setAddr := setAddr
  setFlags := setFlags
  setTable e paddr := (e.setAddr paddr).setFlagsAndMemType (VALID ||| NON_BLOCK) .Normal
  clear _ := ⟨0⟩

/-! ## An entry as it was built -/

/-- The attributes that `setFlags` writes. -/
def leafAttr (fl : MemFlags) (huge : Bool) : DescriptorAttr :=
  let attr := ofMemFlags fl
  (if !huge then attr ||| NON_BLOCK else attr) |||
    fromMemType (if fl.contains MemFlags.Io then .Device else .Normal)

theorem setFlags_bits (e : PageTableEntry) (fl : MemFlags) (huge : Bool) :
    (e.setFlags fl huge).bits =
      (leafAttr fl huge &&& ~~~PHYS_ADDR_MASK) ||| (e.bits &&& PHYS_ADDR_MASK) := rfl

/-- The attributes of an entry do not depend on its address. -/
theorem fromBitsTruncate_merge (attr addr : BitVec 64) :
    fromBitsTruncate ((attr &&& ~~~PHYS_ADDR_MASK) ||| (addr &&& PHYS_ADDR_MASK)) =
      fromBitsTruncate attr :=
  BitMask.merge_and_disjoint attr addr PHYS_ADDR_MASK all (by decide)

theorem addr_merge (e : PageTableEntry) (attr : BitVec 64) {p : Nat} (hp : p % 4096 = 0)
    (hlt : p < 2 ^ 48) : (((attr &&& ~~~PHYS_ADDR_MASK) |||
      ((e.setAddr p).bits &&& PHYS_ADDR_MASK)) &&& PHYS_ADDR_MASK).toNat = p := by
  rw [BitMask.merge_and_mask, setAddr, BitMask.merge_and_mask, BitVec.toNat_and, BitVec.toNat_ofNat,
    Nat.mod_eq_of_lt (by omega)]
  exact BitMask.and_window (a := 12) (b := 48) hp hlt (by norm_num)

/-- The flags read back from the attributes. -/
theorem contains_attr (fl : MemFlags) (huge : Bool) :
    (fromBitsTruncate (leafAttr fl huge)).contains VALID = true ∧
    (fromBitsTruncate (leafAttr fl huge)).contains NON_BLOCK = !huge ∧
    (fromBitsTruncate (leafAttr fl huge)).toMemFlags = some (
      (if fl.contains MemFlags.READ then MemFlags.READ else 0) |||
      (if fl.contains MemFlags.WRITE then MemFlags.WRITE else 0) |||
      (if fl.contains MemFlags.Io then MemFlags.Io else 0)) := by
  unfold leafAttr ofMemFlags
  cases huge <;> cases fl.contains MemFlags.READ <;> cases fl.contains MemFlags.WRITE <;>
    cases fl.contains MemFlags.Io <;> decide

/-- A flag of one bit, kept or not. -/
theorem and_flag (fl : MemFlags) (i : Nat) :
    fl &&& BitVec.twoPow 64 i =
      if fl.contains (BitVec.twoPow 64 i) then BitVec.twoPow 64 i else 0 := by
  unfold MemFlags.contains
  rw [BitVec.and_twoPow]
  cases h : fl.getLsbD i <;> simp

/-- **A mapping has the `READ`, `WRITE` and `IO` flags it was made with.** -/
theorem flags_leaf (e : PageTableEntry) (fl : MemFlags) (huge : Bool) :
    GenericPTE.flags (e.setFlags fl huge) =
      some (fl &&& (MemFlags.READ ||| MemFlags.WRITE ||| MemFlags.Io)) := by
  have hr : MemFlags.READ = BitVec.twoPow 64 0 := rfl
  have hw : MemFlags.WRITE = BitVec.twoPow 64 1 := rfl
  have hi : MemFlags.Io = BitVec.twoPow 64 4 := rfl
  show (fromBitsTruncate (e.setFlags fl huge).bits).toMemFlags = _
  rw [setFlags_bits, fromBitsTruncate_merge, (contains_attr fl huge).2.2, hr, hw, hi]
  rw [BitVec.and_or_distrib_left, BitVec.and_or_distrib_left, and_flag, and_flag, and_flag]

theorem bits_ne_zero {bits : BitVec 64} (h : (fromBitsTruncate bits).contains VALID = true) :
    bits ≠ 0 := by
  rintro rfl
  exact absurd h (by decide)

instance : LawfulGenericPTE PageTableEntry where
  isUnused_iff e := by
    show (e.bits == 0) = true ↔ e = empty
    rw [beq_iff_eq]
    exact ⟨fun h => by rw [empty, ← h], fun h => by rw [h]; rfl⟩
  isPresent_zero := by decide
  clear_eq _ := rfl
  table p hp hlt := by
    have hv : (fromBitsTruncate ((empty.setAddr p).setFlagsAndMemType (VALID ||| NON_BLOCK)
        .Normal).bits).contains VALID = true := by
      rw [setFlagsAndMemType, fromBitsTruncate_merge]
      decide
    refine ⟨beq_eq_false_iff_ne.mpr (bits_ne_zero hv), hv, ?_, addr_merge empty _ hp hlt⟩
    show (!(fromBitsTruncate ((empty.setAddr p).setFlagsAndMemType (VALID ||| NON_BLOCK)
        .Normal).bits).contains NON_BLOCK) = false
    rw [setFlagsAndMemType, fromBitsTruncate_merge]
    decide
  leaf p fl huge := by
    have hattr : fromBitsTruncate ((empty.setAddr p).setFlags fl huge).bits =
        fromBitsTruncate (leafAttr fl huge) := by
      rw [setFlags_bits, fromBitsTruncate_merge]
    obtain ⟨hv, hn, -⟩ := contains_attr fl huge
    rw [← hattr] at hv hn
    refine ⟨beq_eq_false_iff_ne.mpr (bits_ne_zero hv), hv, fun hhuge => ?_⟩
    show (!(fromBitsTruncate ((empty.setAddr p).setFlags fl huge).bits).contains NON_BLOCK) = true
    rw [hn, Bool.not_not, hhuge]
  leaf_addr p fl huge hp hlt := addr_merge empty (leafAttr fl huge) hp hlt

end PageTableEntry

/-! ## The levels of stage 2 -/

/-- The bits of a physical address, for each value of `PARange`. -/
def PARANGE_TABLE : Vector Nat 6 := #v[32, 36, 40, 42, 44, 48]

/-- The bits of a physical address, from the smallest `PARange` of the CPUs. -/
def parangeBits (parange : Fin 6) : Nat := PARANGE_TABLE[parange]

/-- Stage 2 starts with a table of three levels. -/
def isS2PtLevel3 (parange : Fin 6) : Bool := decide (parangeBits parange < 44)

/-- The number of levels that `new_s2_memory_set` gives a stage-2 table. -/
def stage2Level (parange : Fin 6) : Nat := if isS2PtLevel3 parange then 3 else 4

/-- The `T0SZ` field that `activate_vmm` writes into `VTCR_EL2`. -/
def vtcrT0sz (parange : Fin 6) : Nat :=
  64 - if isS2PtLevel3 parange then 39 else parangeBits parange

/-- The bits of the guest-physical addresses that stage 2 translates. -/
def stage2Bits (parange : Fin 6) : Nat := 64 - vtcrT0sz parange

/-- The tables of stage 2 reach all translated addresses. -/
theorem stage2Bits_le (parange : Fin 6) :
    2 ^ stage2Bits parange ≤ 2 ^ (12 + 9 * stage2Level parange) := by
  refine Nat.pow_le_pow_right (by norm_num) ?_
  revert parange
  decide

theorem stage2Bits_le_48 (parange : Fin 6) : 2 ^ stage2Bits parange ≤ 2 ^ 48 := by
  refine Nat.pow_le_pow_right (by norm_num) ?_
  revert parange
  decide

end Hvisor
