import Hvisor.Memory.Region
import Mathlib.Algebra.Order.Monoid.Canonical.Defs
import Mathlib.Order.Basic

/-!
# The stream table of the SMMU

Devices are assigned to zones, from aarch64's `iommu.rs`: the entry of a device's stream id gets the
zone's id and the root of a page table. The commands to the SMMU are left out, and so are its
registers. The table has no bound: an entry beyond it is whatever lies there.

## Main definitions

* `Smmu`: the entries from the start of the table on, and the page tables of the zones
* `StreamTableEntry.write`, `iommuAddDevice`: a device is assigned to a zone
* `StreamTableEntry.Has`: an entry says already what would be written
-/

namespace Hvisor

/-- The words of an entry of the stream table. -/
def STRTAB_STE_DWORDS : Nat := 8
/-- The bytes of an entry. -/
def STRTAB_STE_SIZE : Nat := STRTAB_STE_DWORDS <<< 3
/-- The entry is valid. -/
def STRTAB_STE_0_V : Nat := 1
/-- The offset of the configuration in word 0. -/
def STRTAB_STE_0_CFG_OFF : Nat := 1
/-- Stage 2 translates, and stage 1 is passed over. -/
def STRTAB_STE_0_CFG_S2_TRANS : Nat := 6
/-- The offset of `S2VTCR` in word 2. -/
def STRTAB_STE_2_VTCR_OFF : Nat := 32
/-- Its bits. -/
def STRTAB_STE_2_VTCR_LEN : Nat := 19
/-- The offset of the VMID in word 2. -/
def STRTAB_STE_2_S2VMID_OFF : Nat := 0
/-- Walks through device memory fault. -/
def STRTAB_STE_2_S2PTW : Nat := 1 <<< 54
/-- The tables are those of AArch64. -/
def STRTAB_STE_2_S2AA64 : Nat := 1 <<< 51
/-- Faults are recorded. -/
def STRTAB_STE_2_S2R : Nat := 1 <<< 58
/-- The offset of the root table in word 3. -/
def STRTAB_STE_3_S2TTB_OFF : Nat := 4
/-- Its bits. -/
def STRTAB_STE_3_S2TTB_LEN : Nat := 48

/-- `S2VTCR` as the hypervisor writes it. -/
def DEFAULT_VCTR : Nat :=
  20 + (2 <<< 6) + (1 <<< 8) + (1 <<< 10) + (3 <<< 12) + (0 <<< 14) + (4 <<< 16)

/-- Some bits of a value. -/
def extractBits (value start length : Nat) : Nat := (value >>> start) &&& ((1 <<< length) - 1)

/-- The words of an entry. -/
abbrev StreamTableEntry := Fin STRTAB_STE_DWORDS → Nat

/-- The address of the table, its entries by their place, and the roots of the zones' page
tables. -/
structure Smmu where
  base : Nat
  ste : Nat → StreamTableEntry
  rootPaddr : Nat → Nat

/-! ## Assignments -/

/-- The bits that the assignment to a zone sets in each word of an entry. -/
def steBits (vmid rootPt : Nat) : StreamTableEntry := fun word =>
  let val0 := STRTAB_STE_0_V ||| (STRTAB_STE_0_CFG_S2_TRANS <<< STRTAB_STE_0_CFG_OFF)
  let val2 := (vmid <<< STRTAB_STE_2_S2VMID_OFF) ||| STRTAB_STE_2_S2PTW ||| STRTAB_STE_2_S2AA64 |||
    STRTAB_STE_2_S2R |||
      (extractBits DEFAULT_VCTR 0 STRTAB_STE_2_VTCR_LEN <<< STRTAB_STE_2_VTCR_OFF)
  let vttbr := extractBits rootPt STRTAB_STE_3_S2TTB_OFF STRTAB_STE_3_S2TTB_LEN
  match word.val with
  | 0 => val0
  | 2 => val2
  | 3 => vttbr <<< STRTAB_STE_3_S2TTB_OFF
  | _ => 0

/-- `write_ste`: the bits that an entry has are kept. -/
def StreamTableEntry.write (tab : StreamTableEntry) (vmid rootPt : Nat) : StreamTableEntry :=
  fun word => tab word ||| steBits vmid rootPt word

/-- The place of the entry of a stream id. -/
def Smmu.slot (overflowChecks : Bool) (self : Smmu) (sid : Nat) : Option Nat := do
  let offset ← wordResult overflowChecks 64 (sid * STRTAB_STE_SIZE)
  let addr ← wordResult overflowChecks 64 (self.base + offset)
  return wrappingSub addr self.base / STRTAB_STE_SIZE

/-- Assign a device to a zone. -/
def iommuAddDevice (overflowChecks : Bool) (smmu : Smmu) (vmid sid : Nat) : Option Smmu :=
  if vmid < MAX_ZONE_NUM then
    (smmu.slot overflowChecks sid).map fun i =>
      { smmu with
        ste := Function.update smmu.ste i ((smmu.ste i).write vmid (smmu.rootPaddr vmid)) }
  else none

/-! ## Entries that say it already -/

/-- The entry has the bits of the assignment. -/
def StreamTableEntry.Has (tab : StreamTableEntry) (vmid rootPt : Nat) : Prop :=
  ∀ word, tab word ||| steBits vmid rootPt word = tab word

instance (tab : StreamTableEntry) (vmid rootPt : Nat) : Decidable (tab.Has vmid rootPt) :=
  inferInstanceAs (Decidable (∀ _, _))

variable {overflowChecks : Bool} {smmu smmu' : Smmu} {vmid sid : Nat}

theorem iommuAddDevice_eq_some : iommuAddDevice overflowChecks smmu vmid sid = some smmu' ↔
    vmid < MAX_ZONE_NUM ∧ ∃ i, smmu.slot overflowChecks sid = some i ∧
      { smmu with
        ste := Function.update smmu.ste i ((smmu.ste i).write vmid (smmu.rootPaddr vmid)) } =
          smmu' := by
  rw [iommuAddDevice]
  split
  · next h => rw [Option.map_eq_some_iff, and_iff_right h]
  · next h => simp [h]

/-- An assignment clears no bits of the table, and changes nothing else. -/
theorem ste_le_of_iommuAddDevice (h : iommuAddDevice overflowChecks smmu vmid sid = some smmu') :
    smmu'.base = smmu.base ∧ smmu'.rootPaddr = smmu.rootPaddr ∧ smmu.ste ≤ smmu'.ste := by
  obtain ⟨-, i, -, rfl⟩ := iommuAddDevice_eq_some.mp h
  exact ⟨rfl, rfl, le_update_self_iff.mpr fun word => Nat.left_le_or⟩

theorem ste_eq_iff_of_iommuAddDevice
    (h : iommuAddDevice overflowChecks smmu vmid sid = some smmu') :
    smmu'.ste = smmu.ste ↔
      ∃ i, smmu.slot overflowChecks sid = some i ∧
        (smmu.ste i).Has vmid (smmu.rootPaddr vmid) := by
  obtain ⟨-, i, hi, rfl⟩ := iommuAddDevice_eq_some.mp h
  simp only [hi, Option.some.injEq, exists_eq_left', Function.update_eq_self_iff]
  exact funext_iff

end Hvisor
