import Mathlib.Data.Nat.Bitwise

/-!
# Accesses to devices

An access of a guest that the hypervisor emulates, and how it is passed on to the device, from
`memory/mmio.rs`. Addresses are relative to the base of the device.

## Main definitions

* `MMIOAccess`: the access
* `Device`, `Device.load`, `Device.store`: a device, as the bus shows it
* `MMIOAccess.Aligned`, `mmioPerformAccess`: the access to the device itself, `none` is a panic
-/

namespace Hvisor

/-- An access of a guest to a device. -/
structure MMIOAccess where
  address : UInt64
  size : UInt64
  isWrite : Bool
  value : UInt64
  deriving DecidableEq

/-- The address of the access. -/
abbrev MMIOAccess.addr (mmio : MMIOAccess) : Nat := mmio.address.toNat

/-- The bytes of the access. -/
abbrev MMIOAccess.bytes (mmio : MMIOAccess) : Nat := mmio.size.toNat

/-- A write that a device takes: `size` bytes from `address` on. -/
structure BusWrite where
  address : Nat
  size : Nat
  value : BitVec 64
  deriving DecidableEq

/-- A device: what its bytes read as, and the writes that it took, the last one at the end. -/
structure Device where
  byte : Nat → BitVec 8
  writes : List BusWrite

/-- The bytes of a value that an access of `size` bytes carries. -/
def lowBytes (value : BitVec 64) (size : Nat) : BitVec 64 :=
  value &&& BitVec.ofNat 64 (2 ^ (8 * size) - 1)

theorem getLsbD_lowBytes (value : BitVec 64) (size i : Nat) :
    (lowBytes value size).getLsbD i = (decide (i < 8 * size) && value.getLsbD i) := by
  rw [lowBytes, BitVec.getLsbD_and, BitVec.getLsbD_ofNat, Nat.testBit_two_pow_sub_one]
  by_cases hi : i < 64
  · rw [decide_eq_true hi, Bool.true_and, Bool.and_comm]
  · rw [BitVec.getLsbD_of_ge _ _ (Nat.le_of_not_lt hi), Bool.false_and, Bool.and_false]

namespace Device

/-- The value of the bytes from an address on, the first one lowest. -/
def load (dev : Device) (addr : Nat) : Nat → BitVec 64
  | 0 => 0
  | n + 1 => dev.load addr n ||| (dev.byte (addr + n)).setWidth 64 <<< (8 * n)

/-- The write goes to the log. -/
def store (dev : Device) (w : BusWrite) : Device := { dev with writes := dev.writes ++ [w] }

theorem getLsbD_load (dev : Device) (addr : Nat) {n i : Nat} (hn : n ≤ 8) :
    (dev.load addr n).getLsbD i =
      (decide (i < 8 * n) && (dev.byte (addr + i / 8)).getLsbD (i % 8)) := by
  induction n with
  | zero => simp [load]
  | succ n ih =>
    rw [load, BitVec.getLsbD_or, ih (by omega), BitVec.getLsbD_shiftLeft, BitVec.getLsbD_setWidth]
    -- the last byte is the one that is shifted in
    rcases Nat.lt_trichotomy (i / 8) n with h | h | h
    · rw [decide_eq_true (by omega : i < 8 * n), decide_eq_true (by omega : i < 8 * (n + 1))]
      simp
    · rw [decide_eq_false (by omega : ¬ i < 8 * n), decide_eq_true (by omega : i < 8 * (n + 1)),
        decide_eq_true (by omega : i < 64), decide_eq_true (by omega : i - 8 * n < 64), h,
        show i - 8 * n = i % 8 by omega]
      simp
    · rw [decide_eq_false (by omega : ¬ i < 8 * n), decide_eq_false (by omega : ¬ i < 8 * (n + 1)),
        BitVec.getLsbD_of_ge (dev.byte (addr + n)) (i - 8 * n) (by omega)]
      simp

end Device

/-- An access with the size of an instruction has an address that is a multiple of it. -/
def MMIOAccess.Aligned (mmio : MMIOAccess) : Prop :=
  mmio.size ∈ [1, 2, 4, 8] → mmio.addr % mmio.bytes = 0

instance (mmio : MMIOAccess) : Decidable mmio.Aligned := inferInstanceAs (Decidable (_ → _))

/-- The access of a device at an aligned address. Another size than those of the instructions is
refused. -/
def Device.access (dev : Device) (mmio : MMIOAccess) : MMIOAccess × Device :=
  if mmio.isWrite then
    if mmio.size ∈ [1, 2, 4, 8] then
      (mmio, dev.store ⟨mmio.addr, mmio.bytes, lowBytes mmio.value.toBitVec mmio.bytes⟩)
    else (mmio, dev)
  else
    if mmio.size ∈ [1, 2, 4, 8] then
      ({ mmio with value := ⟨dev.load mmio.addr mmio.bytes⟩ }, dev)
    else ({ mmio with value := ⟨BitVec.allOnes 64⟩ }, dev)

/-- The access to the device itself. `ptr::read_volatile` and `ptr::write_volatile` panic when the
address is not aligned; in a build without this check the device aborts the access. -/
def mmioPerformAccess (mmio : MMIOAccess) (dev : Device) : Option (MMIOAccess × Device) :=
  if mmio.Aligned then some (dev.access mmio) else none

theorem mmioPerformAccess_eq {mmio : MMIOAccess} (h : mmio.Aligned) (dev : Device) :
    mmioPerformAccess mmio dev = some (dev.access mmio) :=
  if_pos h

/-- What an access that returns tells: it is aligned. -/
theorem mmioPerformAccess_eq_some_iff {mmio : MMIOAccess} {dev : Device}
    {res : MMIOAccess × Device} :
    mmioPerformAccess mmio dev = some res ↔ mmio.Aligned ∧ dev.access mmio = res := by
  rw [mmioPerformAccess, Option.ite_none_right_eq_some, Option.some.injEq]

theorem isSome_mmioPerformAccess_iff {mmio : MMIOAccess} {dev : Device} :
    (mmioPerformAccess mmio dev).isSome ↔ mmio.Aligned := by
  rw [mmioPerformAccess]
  split_ifs with h
  · exact iff_of_true rfl h
  · exact iff_of_false Bool.false_ne_true h

/-- Whether an access is aligned depends on its address and its size. -/
theorem MMIOAccess.aligned_congr {mmio mmio' : MMIOAccess} (haddr : mmio.addr = mmio'.addr)
    (hsize : mmio.size = mmio'.size) : mmio.Aligned ↔ mmio'.Aligned := by
  rw [Aligned, Aligned, haddr, hsize, bytes, bytes, hsize]

end Hvisor
