import Hvisor.Lib.BitMask
import Mathlib.Data.List.FinRange

/-!
# Base address registers

The discovery of what the base address registers of a PCI function ask for, from `pci/pcibar.rs`,
`pci/endpoint.rs`, `pci/bridge.rs` and `bars_register` of `pci/pci.rs`. A register is written with
ones, read back and restored; what comes back says how large the region of the register is. The
configuration space is the registers by their addresses, each with the bits that can be written.
`none` is an index out of bounds.

## Main definitions

* `PciBar`, `PciBar.init`: a register as the hypervisor sees it
* `PciBar.regions`: the scan of the registers of a function
* `PciRoot.barsRegister`: all functions of a zone
* `Bar`, `PciDevice`: what a function has at its registers, as the specification of PCI says
* `Bar.Plain`: the registers that are understood

## Main results

* `sizeOf_eq`: the size by the highest bit that is clear
* `regions_eq_iff`: when the scan of a function finds its regions
* `bar_discovery_iff`: when the regions of all functions are found
-/

namespace Hvisor

/-! ## The hypervisor -/

/-- What a base address register is for. -/
inductive BarType where
  | Mem32
  | Mem64
  | Io
  | Unknown
  deriving DecidableEq, Repr

/-- What is kept of a base address register: its content, its type and the size of its region. -/
structure PciBar where
  val : BitVec 32
  barType : BarType
  size : Nat
  deriving DecidableEq

/-- A region on the bus. -/
structure BarRegion where
  start : Nat
  size : Nat
  barType : BarType
  deriving DecidableEq

namespace PciBar

/-- A register that was not looked at. -/
def default : PciBar := ⟨0, .Unknown, 0⟩

/-- The size of the region, by the highest bit that stays clear. -/
def sizeOf (val : BitVec 32) : Nat :=
  match (List.range 32).reverse.find? fun off => !val.getLsbD off with
  | some fixBit =>
    if fixBit ≠ 31 then 2 ^ (fixBit + 1)
    -- all bits are read-only
    else 0
  -- the upper half of an address
  | none => 1

/-- The type that the low bits of a register give. -/
def typeOf (val : BitVec 32) : BarType :=
  if val &&& 0b1 = 0b1 then .Io
  else if val &&& 0b110 = 0b000 then .Mem32
  else if val &&& 0b110 = 0b100 then .Mem64
  else .Unknown

/-- From the value of the register and the value read back after ones are written. -/
def init (originVal val : BitVec 32) : PciBar := ⟨originVal, typeOf originVal, sizeOf val⟩

/-- The register has bits that can be written. -/
def isMutable (self : PciBar) : Bool := self.size != 0

/-- The register is the lower half of a pair. -/
def memType64 (self : PciBar) : Bool := self.barType == .Mem64

/-- The region of a register of 32 bits. -/
def get32bRegion (self : PciBar) : BarRegion :=
  ⟨(self.val &&& 0xfffffff0).toNat, self.size, self.barType⟩

/-- The upper half of a pair. -/
def getUpperMem6432b (self : PciBar) : BarRegion := ⟨self.val.toNat, self.size, self.barType⟩

/-- The region of a pair. -/
def get64bRegion (self : PciBar) (lowerRegion : BarRegion) : BarRegion :=
  let higherRegion := self.getUpperMem6432b
  ⟨higherRegion.start * 2 ^ 32 + lowerRegion.start, higherRegion.size * lowerRegion.size, .Mem64⟩

/-- `get_regions`: the scan, from some register on. -/
def regions : List PciBar → Option (List BarRegion)
  | [] => some []
  | bar :: bars =>
    if bar.isMutable then
      if !bar.memType64 then (regions bars).map (bar.get32bRegion :: ·)
      else
        match bars with
        | [] => none
        | upper :: bars => (regions bars).map (upper.get64bRegion bar.get32bRegion :: ·)
    else regions bars

end PciBar

/-- The registers of a function, as they were read last. -/
structure BarConfig (n : Nat) where
  bars : Vector PciBar n
  bdf : Nat

/-- A function whose registers were not looked at. -/
def BarConfig.new (n bdf : Nat) : BarConfig n := ⟨.replicate n .default, bdf⟩

/-- What is found at a register is kept. -/
def BarConfig.barsInit {n : Nat} (self : BarConfig n) (barId : Fin n) (originVal val : BitVec 32) :
    BarConfig n :=
  { self with bars := self.bars.set barId (.init originVal val) }

/-- `get_regions` of a function. -/
def BarConfig.getRegions {n : Nat} (self : BarConfig n) : Option (List BarRegion) :=
  PciBar.regions self.bars.toList

/-- The base address registers of an endpoint. -/
def NUM_BAR_REGS_TYPE0 : Nat := 6
/-- The base address registers of a bridge. -/
def NUM_BAR_REGS_TYPE1 : Nat := 2

/-- An endpoint. -/
abbrev EndpointConfig := BarConfig NUM_BAR_REGS_TYPE0
/-- A bridge. -/
abbrev BridgeConfig := BarConfig NUM_BAR_REGS_TYPE1

/-- A function that is shown to a zone without being there, with its command register. -/
structure PhantomCfg where
  bdf : Nat
  command : BitVec 16
  deriving DecidableEq

/-- The functions of a zone, and their regions. -/
structure PciRoot where
  endpoints : List EndpointConfig
  bridges : List BridgeConfig
  /-- The functions of the zone, with the host bridge. -/
  allocDevs : List Nat
  phantomDevs : List PhantomCfg
  barRegions : List BarRegion

/-- A register of the configuration space, with the bits that can be written. -/
structure BarReg where
  content : BitVec 32
  writable : BitVec 32
  deriving DecidableEq

/-- A write changes the bits that can be written. -/
def BarReg.write (self : BarReg) (val : BitVec 32) : BarReg :=
  { self with content := (val &&& self.writable) ||| (self.content &&& ~~~self.writable) }

/-- What is read back after ones are written. -/
def BarReg.sized (self : BarReg) : BitVec 32 := (self.write (BitVec.allOnes 32)).content

/-- The registers by their addresses. -/
abbrev ConfigSpace := Nat → BarReg

/-- A write to a register of the configuration space. -/
def ConfigSpace.write (cfg : ConfigSpace) (addr : Nat) (val : BitVec 32) : ConfigSpace :=
  Function.update cfg addr ((cfg addr).write val)

/-- The address of the registers of a function. -/
def cfgBase (ecamBase bdf : Nat) : Nat := ecamBase + bdf * 2 ^ 12

section Init

variable {n : Nat} (ecamBase : Nat) (offsets : Vector Nat n)

/-- One register of a function: read it, write ones, read it again and restore it. -/
def barInit (s : BarConfig n × ConfigSpace) (barId : Fin n) : BarConfig n × ConfigSpace :=
  let (dev, cfg) := s
  let reg := cfgBase ecamBase dev.bdf + offsets[barId]
  let originVal := (cfg reg).content
  let cfg := cfg.write reg (BitVec.allOnes 32)
  let newVal := (cfg reg).content
  (dev.barsInit barId originVal newVal, cfg.write reg originVal)

/-- The registers of a function. -/
def devBarsInit (dev : BarConfig n) (cfg : ConfigSpace) : BarConfig n × ConfigSpace :=
  (List.finRange n).foldl (barInit ecamBase offsets) (dev, cfg)

/-- The functions one after the other. -/
def devsBarsInit : List (BarConfig n) → ConfigSpace → List (BarConfig n) × ConfigSpace
  | [], cfg => ([], cfg)
  | dev :: devs, cfg =>
    let (dev, cfg) := devBarsInit ecamBase offsets dev cfg
    let (devs, cfg) := devsBarsInit devs cfg
    (dev :: devs, cfg)

end Init

/-- Where the registers of an endpoint are. -/
def endpointOffsets : Vector Nat NUM_BAR_REGS_TYPE0 := #v[0x10, 0x14, 0x18, 0x1c, 0x20, 0x24]
/-- Where the registers of a bridge are. -/
def bridgeOffsets : Vector Nat NUM_BAR_REGS_TYPE1 := #v[0x10, 0x14]

/-- A region takes a page at least. -/
def BarRegion.roundUp (self : BarRegion) : BarRegion :=
  if self.size < 0x1000 then { self with size := 0x1000 } else self

/-- The loop of `get_bars_regions` over some functions. -/
def collectRegions {n : Nat} : List (BarConfig n) → List BarRegion → Option (List BarRegion)
  | [], barRegions => some barRegions
  | dev :: devs, barRegions =>
    dev.getRegions.bind fun regions =>
      collectRegions devs (barRegions ++ regions.map BarRegion.roundUp)

namespace PciRoot

/-- The function is one of the zone. -/
def isAssignedDevice (self : PciRoot) (bdf : Nat) : Bool := self.allocDevs.contains bdf

/-- The registers of all endpoints. -/
def epBarsInit (ecamBase : Nat) (self : PciRoot) (cfg : ConfigSpace) : PciRoot × ConfigSpace :=
  let (endpoints, cfg) := devsBarsInit ecamBase endpointOffsets self.endpoints cfg
  ({ self with endpoints }, cfg)

/-- The registers of all bridges. -/
def bridgeBarsInit (ecamBase : Nat) (self : PciRoot) (cfg : ConfigSpace) : PciRoot × ConfigSpace :=
  let (bridges, cfg) := devsBarsInit ecamBase bridgeOffsets self.bridges cfg
  ({ self with bridges }, cfg)

/-- The regions of all functions are collected. -/
def getBarsRegions (self : PciRoot) : Option PciRoot := do
  let barRegions ← collectRegions self.endpoints self.barRegions
  let barRegions ← collectRegions self.bridges barRegions
  return { self with barRegions }

/-- `bars_register`: all registers are sized, and the regions collected. -/
def barsRegister (ecamBase : Nat) (self : PciRoot) (cfg : ConfigSpace) :
    Option (PciRoot × ConfigSpace) :=
  let (self, cfg) := self.epBarsInit ecamBase cfg
  let (self, cfg) := self.bridgeBarsInit ecamBase cfg
  self.getBarsRegions.map (·, cfg)

end PciRoot

/-! ## Functions -/

/-- What a function has at a register, or at two for a 64-bit address: sizes are powers of two, and
an I/O register may have its upper half hardwired to zero. -/
inductive Bar where
  | absent
  | mem32 (log : Nat) (prefetchable : Bool) (base : Nat)
  | mem64 (log : Nat) (prefetchable : Bool) (base : Nat)
  | io (log : Nat) (upper : Bool) (base : Nat)
  deriving DecidableEq

namespace Bar

/-- The address fits the register and is a multiple of the size, which the specification bounds. -/
def Valid : Bar → Prop
  | absent => True
  | mem32 log _ base => 4 ≤ log ∧ log < 32 ∧ base % 2 ^ log = 0 ∧ base < 2 ^ 32
  | mem64 log _ base => 4 ≤ log ∧ log < 64 ∧ base % 2 ^ log = 0 ∧ base < 2 ^ 64
  | io log upper base => 2 ≤ log ∧ log < (if upper then 32 else 16) ∧ base % 2 ^ log = 0 ∧
      base < 2 ^ (if upper then 32 else 16)

instance : DecidablePred Valid
  | absent => inferInstanceAs (Decidable True)
  | mem32 .. | mem64 .. | io .. => inferInstanceAs (Decidable (_ ∧ _))

/-- The bits from `lo` to below `hi`. -/
def bitsFrom (lo hi : Nat) : BitVec 32 :=
  (BitVec.allOnes 32 <<< lo) &&& (BitVec.allOnes 32 >>> (32 - hi))

/-- The flags of a memory register: its width and whether it is prefetchable. -/
def memFlags (width : Nat) (prefetchable : Bool) : Nat := width + if prefetchable then 8 else 0

/-- The registers. -/
def regs : Bar → List BarReg
  | absent => [⟨0, 0⟩]
  | mem32 log prefetchable base =>
    [⟨BitVec.ofNat 32 (base + memFlags 0 prefetchable), bitsFrom log 32⟩]
  | mem64 log prefetchable base =>
    [⟨BitVec.ofNat 32 (base + memFlags 4 prefetchable), bitsFrom log 32⟩,
      ⟨BitVec.ofNat 32 (base / 2 ^ 32), bitsFrom (log - 32) 32⟩]
  | io log upper base => [⟨BitVec.ofNat 32 (base + 1), bitsFrom log (if upper then 32 else 16)⟩]

/-- The region that should be found, a page at least. -/
def region? : Bar → Option BarRegion
  | absent => none
  | mem32 log _ base => some ⟨base, max (2 ^ log) 0x1000, .Mem32⟩
  | mem64 log _ base => some ⟨base, max (2 ^ log) 0x1000, .Mem64⟩
  | io log _ base => some ⟨base, max (2 ^ log) 0x1000, .Io⟩

/-- **The registers that are understood**: a 64-bit region is smaller than 4 GiB, and an I/O
register has all its bits and a base that is a multiple of 16. -/
def Plain : Bar → Prop
  | absent | mem32 .. => True
  | mem64 log _ _ => log < 32
  | io _ upper base => upper = true ∧ base % 16 = 0

instance : DecidablePred Plain
  | absent | mem32 .. => inferInstanceAs (Decidable True)
  | mem64 .. => inferInstanceAs (Decidable (_ < _))
  | io .. => inferInstanceAs (Decidable (_ ∧ _))

end Bar

/-- A function with `n` registers. -/
structure PciDevice (n : Nat) where
  bdf : Nat
  bars : List Bar
  valid : ∀ bar ∈ bars, bar.Valid
  slots : (bars.flatMap Bar.regs).length = n

namespace PciDevice

variable {n : Nat} (dev : PciDevice n)

/-- The register at an index of the device. -/
def reg (i : Fin n) : BarReg := (dev.bars.flatMap Bar.regs).get (i.cast dev.slots.symm)

/-- The configuration space has the registers of the function. -/
def At (ecamBase : Nat) (offsets : Vector Nat n) (cfg : ConfigSpace) : Prop :=
  ∀ i, cfg (cfgBase ecamBase dev.bdf + offsets[i]) = dev.reg i

instance (ecamBase : Nat) (offsets : Vector Nat n) (cfg : ConfigSpace) :
    Decidable (dev.At ecamBase offsets cfg) :=
  inferInstanceAs (Decidable (∀ _, _))

/-- The regions of the device, as it reports them. -/
def regions : List BarRegion := dev.bars.filterMap Bar.region?

end PciDevice

/-! ## Bits and sizes -/

namespace BarReg

variable {r : BarReg} {i : Nat}

/-- The old value brings the register back. -/
theorem write_write (r : BarReg) (val : BitVec 32) : (r.write val).write r.content = r := by
  obtain ⟨content, writable⟩ := r
  rw [write, write, BarReg.mk.injEq]
  refine ⟨?_, rfl⟩
  ext i hi
  simp only [BitVec.getElem_or, BitVec.getElem_and, BitVec.getElem_not]
  cases content[i] <;> cases writable[i] <;> simp

/-- A bit reads as one when it can be written, or is one. -/
theorem getLsbD_sized (hi : i < 32) :
    r.sized.getLsbD i = (r.writable.getLsbD i || r.content.getLsbD i) := by
  simp only [sized, write, BitVec.getLsbD_or, BitVec.getLsbD_and, BitVec.getLsbD_allOnes,
    BitVec.getLsbD_not, hi, decide_true, Bool.true_and]
  cases r.writable.getLsbD i <;> simp

end BarReg

theorem Bar.getLsbD_bitsFrom {lo hi i : Nat} (hi32 : hi ≤ 32) (hi' : i < 32) :
    (Bar.bitsFrom lo hi).getLsbD i = decide (lo ≤ i ∧ i < hi) := by
  simp only [Bar.bitsFrom, BitVec.getLsbD_and, BitVec.getLsbD_shiftLeft, BitVec.getLsbD_ushiftRight,
    BitVec.getLsbD_allOnes, hi', decide_true, Bool.true_and]
  rw [Bool.eq_iff_iff]
  simp only [Bool.and_eq_true, Bool.not_eq_true', decide_eq_true_eq, decide_eq_false_iff_not]
  omega

namespace PciBar

variable {val : BitVec 32} {log x : Nat}

/-- **The size by the highest bit that is clear.** -/
theorem sizeOf_eq (hlog : log < 32) (hset : ∀ i, log ≤ i → i < 32 → val.getLsbD i = true)
    (hclear : log ≠ 0 → val.getLsbD (log - 1) = false) : sizeOf val = 2 ^ log := by
  rw [sizeOf]
  by_cases h0 : log = 0
  · subst h0
    have hnone : (List.range 32).reverse.find? (fun off => !val.getLsbD off) = none := by
      refine List.find?_eq_none.mpr fun i hi => ?_
      rw [List.mem_reverse, List.mem_range] at hi
      simpa using hset i (Nat.zero_le i) hi
    rw [hnone]
    rfl
  · have hsome : (List.range 32).reverse.find? (fun off => !val.getLsbD off) = some (log - 1) := by
      refine BitMask.find?_reverse_range.mpr ⟨by omega, by simp [hclear h0], fun i hlt hi => ?_⟩
      simp [hset i (by omega) hi]
    simp only [hsome]
    rw [if_pos (by omega), Nat.sub_add_cancel (by omega)]

theorem sizeOf_of_top_clear (h : val.getLsbD 31 = false) : sizeOf val = 0 := by
  have hsome : (List.range 32).reverse.find? (fun off => !val.getLsbD off) = some 31 :=
    BitMask.find?_reverse_range.mpr ⟨by omega, by rw [h]; rfl, fun i _ _ => by omega⟩
  simp only [sizeOf, hsome]
  rfl

theorem sizeOf_lt (val : BitVec 32) : sizeOf val < 2 ^ 32 := by
  rw [sizeOf]
  split
  · next b hb =>
    have hlt := (BitMask.find?_reverse_range.mp hb).1
    split
    · exact Nat.pow_lt_pow_right (by decide) (by omega)
    · decide
  · decide

/-- The type is in the low bits. -/
theorem typeOf_ofNat (x : Nat) :
    typeOf (BitVec.ofNat 32 x) = typeOf (BitVec.ofNat 32 (x % 2 ^ 3)) := by
  have hand : ∀ m : BitVec 32, m.toNat < 2 ^ 3 →
      BitVec.ofNat 32 x &&& m = BitVec.ofNat 32 (x % 2 ^ 3) &&& m := fun m hm => by
    refine BitVec.eq_of_getLsbD_eq fun i hi => ?_
    rw [BitVec.getLsbD_and, BitVec.getLsbD_and, BitVec.getLsbD_ofNat, BitVec.getLsbD_ofNat,
      Nat.testBit_mod_two_pow]
    by_cases h3 : i < 3
    · rw [decide_eq_true h3, Bool.true_and]
    · have hm : m.getLsbD i = false :=
        Nat.testBit_lt_two_pow (hm.trans_le (Nat.pow_le_pow_right (by decide) (by omega)))
      rw [hm, Bool.and_false, Bool.and_false]
  simp only [typeOf, hand 0b1 (by decide), hand 0b110 (by decide)]

/-- The mask of an address removes the low bits. -/
theorem start_ofNat (hx : x < 2 ^ 32) :
    (BitVec.ofNat 32 x &&& 0xfffffff0).toNat = x - x % 2 ^ 4 := by
  rw [BitVec.toNat_and, BitVec.toNat_ofNat, Nat.mod_eq_of_lt hx]
  exact BitMask.and_not_low (w := 32) (n := 4) hx (by decide)

end PciBar

/-! ## What is found at a register -/

/-- The register as the hypervisor sees it. -/
def BarReg.found (r : BarReg) : PciBar := .init r.content r.sized

theorem BarRegion.roundUp_eq (r : BarRegion) :
    r.roundUp = ⟨r.start, max r.size 0x1000, r.barType⟩ := by
  rw [roundUp]
  split
  · rw [max_eq_right (by omega)]
  · rw [max_eq_left (by omega)]

namespace Bar

variable {lo hi base f n i log : Nat}

/-- The bits that are read back: the ones that can be written, the flags and the address. -/
theorem getLsbD_sized (lo f : Nat) (hi32 : hi ≤ 32) (hbase : base % 2 ^ n = 0) (hf : f < 2 ^ n)
    (hlt : i < 32) :
    (BarReg.mk (BitVec.ofNat 32 (base + f)) (bitsFrom lo hi)).sized.getLsbD i =
      (decide (lo ≤ i ∧ i < hi) || if i < n then f.testBit i else base.testBit i) := by
  rw [BarReg.getLsbD_sized hlt, getLsbD_bitsFrom hi32 hlt, BitVec.getLsbD_ofNat, decide_eq_true hlt,
    Bool.true_and, BitMask.testBit_add hbase hf]

theorem mod_of_le {m : Nat} (hle : n ≤ log) (h : m % 2 ^ log = 0) : m % 2 ^ n = 0 :=
  Nat.mod_eq_zero_of_dvd ((Nat.pow_dvd_pow 2 hle).trans (Nat.dvd_of_mod_eq_zero h))

/-- The size at a memory register is right up to a page: the flags may make a region of 16 bytes
look smaller. -/
theorem sizeOf_mem (hlog : 4 ≤ log) (hlog' : log < 32) (hbase : base % 2 ^ log = 0)
    (hf : f = 0 ∨ f = 4 ∨ f = 8 ∨ f = 12) :
    ∃ k, PciBar.sizeOf (BarReg.mk (BitVec.ofNat 32 (base + f)) (bitsFrom log 32)).sized = 2 ^ k ∧
      max (2 ^ k) 0x1000 = max (2 ^ log) 0x1000 := by
  have hmod := mod_of_le hlog hbase
  have hbit : ∀ i < 32, _ := fun i hi =>
    getLsbD_sized log f (le_refl 32) hmod (by omega) hi
  rcases hlog.eq_or_lt with rfl | hlt
  · -- the highest clear bit is the highest one of the four that is not a flag
    have hsmall : ∀ k ≤ 4, (∀ i, k ≤ i → i < 4 → f.testBit i = true) →
        (k ≠ 0 → f.testBit (k - 1) = false) →
        PciBar.sizeOf (BarReg.mk (BitVec.ofNat 32 (base + f)) (bitsFrom 4 32)).sized = 2 ^ k := by
      intro k hk hset hclear
      refine PciBar.sizeOf_eq (by omega) (fun i hki hi => ?_) fun h0 => ?_
      · rw [hbit i hi]
        by_cases h4 : i < 4
        · rw [if_pos h4, hset i hki h4, Bool.or_true]
        · rw [decide_eq_true ⟨by omega, hi⟩, Bool.true_or]
      · rw [hbit _ (by omega), if_pos (by omega), hclear h0, Bool.or_false,
          decide_eq_false (by omega)]
    rcases hf with rfl | rfl | rfl | rfl
    · exact ⟨4, hsmall 4 le_rfl (fun i _ _ => by omega) fun _ => rfl, rfl⟩
    · exact ⟨4, hsmall 4 le_rfl (fun i _ _ => by omega) fun _ => rfl, rfl⟩
    · refine ⟨3, hsmall 3 (by omega) (fun i _ _ => ?_) fun _ => rfl, by decide⟩
      obtain rfl : i = 3 := by omega
      rfl
    · refine ⟨2, hsmall 2 (by omega) (fun i _ _ => ?_) fun _ => rfl, by decide⟩
      obtain rfl | rfl : i = 2 ∨ i = 3 := by omega
      · rfl
      · rfl
  · refine ⟨log, PciBar.sizeOf_eq hlog' (fun i hki hi => ?_) fun _ => ?_, rfl⟩
    · rw [hbit i hi, decide_eq_true ⟨hki, hi⟩, Bool.true_or]
    · rw [hbit _ (by omega), if_neg (by omega), BitMask.testBit_of_mod hbase (by omega),
        Bool.or_false, decide_eq_false (by omega)]

/-- A register without address bits. -/
theorem sizeOf_top_clear (hi32 : hi ≤ 32) (hlo : 31 < lo ∨ hi ≤ 31) (hn : n ≤ 31)
    (hbase : base % 2 ^ n = 0) (hf : f < 2 ^ n) (hbit : base.testBit 31 = false) :
    PciBar.sizeOf (BarReg.mk (BitVec.ofNat 32 (base + f)) (bitsFrom lo hi)).sized = 0 := by
  apply PciBar.sizeOf_of_top_clear
  rw [getLsbD_sized lo f hi32 hbase hf (by decide), if_neg (by omega), hbit, Bool.or_false,
    decide_eq_false (by omega)]

theorem typeOf_mem (hbase : base % 2 ^ 4 = 0) (hf : f = 0 ∨ f = 4 ∨ f = 8 ∨ f = 12) :
    PciBar.typeOf (BitVec.ofNat 32 (base + f)) = if f % 8 = 0 then .Mem32 else .Mem64 := by
  rw [PciBar.typeOf_ofNat, show (base + f) % 2 ^ 3 = f % 2 ^ 3 by omega]
  rcases hf with rfl | rfl | rfl | rfl <;> decide

theorem typeOf_io (hbase : base % 2 ^ 2 = 0) :
    PciBar.typeOf (BitVec.ofNat 32 (base + 1)) = .Io := by
  rw [PciBar.typeOf_ofNat]
  obtain h | h : (base + 1) % 2 ^ 3 = 1 ∨ (base + 1) % 2 ^ 3 = 5 := by omega
  · rw [h]
    decide
  · rw [h]
    decide

/-- The upper half of an address. -/
theorem sizeOf_upper (hlog : log < 64) (hbase : base % 2 ^ log = 0) :
    PciBar.sizeOf (BarReg.mk (BitVec.ofNat 32 (base / 2 ^ 32)) (bitsFrom (log - 32) 32)).sized =
      2 ^ (log - 32) := by
  have hbit : ∀ i < 32, _ := fun i hi =>
    getLsbD_sized (log - 32) 0 (n := 0) (le_refl 32) (Nat.mod_one (base / 2 ^ 32)) (by decide) hi
  refine PciBar.sizeOf_eq (by omega) (fun i hki hi => ?_) fun h0 => ?_
  · exact (hbit i hi).trans (by rw [decide_eq_true ⟨hki, hi⟩, Bool.true_or])
  · refine (hbit _ (by omega)).trans ?_
    have hclear : (base / 2 ^ 32).testBit (log - 32 - 1) = false := by
      rw [Nat.testBit_div_two_pow]
      exact BitMask.testBit_of_mod hbase (by omega)
    rw [if_neg (by omega), hclear, Bool.or_false, decide_eq_false (by omega)]

end Bar

/-! ## The scan -/

/-- The regions that are found from some registers on, each with a page at least. -/
def scan (l : List BarReg) : Option (List BarRegion) :=
  (PciBar.regions (l.map BarReg.found)).map (List.map BarRegion.roundUp)

section Scan

variable {r u : BarReg} {l : List BarReg} {bar : Bar} {bars : List Bar} {rs : List BarRegion}

theorem scan_skip (h : r.found.size = 0) : scan (r :: l) = scan l := by
  have hm : r.found.isMutable = false := by rw [PciBar.isMutable, h]; rfl
  rw [scan, List.map_cons, PciBar.regions.eq_def]
  simp only [hm, scan]
  rfl

theorem scan_one (h : r.found.size ≠ 0) (ht : r.found.barType ≠ .Mem64) :
    scan (r :: l) = (scan l).map (r.found.get32bRegion.roundUp :: ·) := by
  have hm : r.found.isMutable = true := bne_iff_ne.mpr h
  have h64 : (!r.found.memType64) = true := by
    rw [PciBar.memType64, Bool.not_eq_true']
    exact beq_eq_false_iff_ne.mpr ht
  rw [scan, List.map_cons, PciBar.regions.eq_def]
  simp only [if_pos hm, if_pos h64, scan, Option.map_map]
  rfl

theorem scan_two (h : r.found.size ≠ 0) (ht : r.found.barType = .Mem64) :
    scan (r :: u :: l) =
      (scan l).map ((u.found.get64bRegion r.found.get32bRegion).roundUp :: ·) := by
  have hm : r.found.isMutable = true := bne_iff_ne.mpr h
  have h64 : ¬ (!r.found.memType64) = true := by
    rw [PciBar.memType64, ht]
    decide
  rw [scan, List.map_cons, List.map_cons, PciBar.regions.eq_def]
  simp only [if_pos hm, if_neg h64, scan, Option.map_map]
  rfl

theorem scan_end (h : r.found.size ≠ 0) (ht : r.found.barType = .Mem64) : scan [r] = none := by
  have hm : r.found.isMutable = true := bne_iff_ne.mpr h
  have h64 : ¬ (!r.found.memType64) = true := by
    rw [PciBar.memType64, ht]
    decide
  rw [scan, List.map_cons, List.map_nil, PciBar.regions.eq_def]
  simp only [if_pos hm, if_neg h64, Option.map_none]

/-- **What a register that has address bits yields**: a region of its own, or one with the register
after it, or nothing when there is none. -/
theorem scan_cases (h : r.found.size ≠ 0) :
    (∃ region : BarRegion, region.size = max r.found.size 0x1000 ∧
        scan (r :: l) = (scan l).map (region :: ·)) ∨
      (l = [] ∧ scan (r :: l) = none) ∨
      ∃ u l', l = u :: l' ∧ ∃ region : BarRegion,
        region.size = max (u.found.size * r.found.size) 0x1000 ∧
          scan (r :: l) = (scan l').map (region :: ·) := by
  by_cases ht : r.found.barType = .Mem64
  · cases l with
    | nil => exact .inr (.inl ⟨rfl, scan_end h ht⟩)
    | cons u l' =>
      refine .inr (.inr ⟨u, l', rfl, _, ?_, scan_two h ht⟩)
      rw [BarRegion.roundUp_eq]
      rfl
  · refine .inl ⟨_, ?_, scan_one h ht⟩
    rw [BarRegion.roundUp_eq]
    rfl

namespace Bar

variable {log base : Nat} {prefetchable upper : Bool}

theorem found_mem32 (hv : (mem32 log prefetchable base).Valid) :
    scan ((mem32 log prefetchable base).regs ++ l) =
      (scan l).map (⟨base, max (2 ^ log) 0x1000, .Mem32⟩ :: ·) := by
  obtain ⟨hlog, hlog', hbase, hlt⟩ := hv
  have hf : memFlags 0 prefetchable = 0 ∨ memFlags 0 prefetchable = 4 ∨
      memFlags 0 prefetchable = 8 ∨ memFlags 0 prefetchable = 12 := by
    cases prefetchable <;> decide
  have h8 : memFlags 0 prefetchable % 8 = 0 := by cases prefetchable <;> rfl
  have hmod := mod_of_le hlog hbase
  obtain ⟨k, hsize, hmax⟩ := sizeOf_mem hlog hlog' hbase hf
  have htype := typeOf_mem hmod hf
  rw [if_pos h8] at htype
  have hstart := PciBar.start_ofNat (x := base + memFlags 0 prefetchable) (by omega)
  set r : BarReg := ⟨BitVec.ofNat 32 (base + memFlags 0 prefetchable), bitsFrom log 32⟩
  have hfound : r.found.size = 2 ^ k := hsize
  have htype' : r.found.barType = .Mem32 := htype
  have hregion : r.found.get32bRegion.roundUp = ⟨base, max (2 ^ log) 0x1000, .Mem32⟩ := by
    rw [BarRegion.roundUp_eq, BarRegion.mk.injEq, ← hmax, ← hsize]
    exact ⟨hstart.trans (by omega), rfl, htype⟩
  have hpos : r.found.size ≠ 0 := hfound ▸ (Nat.two_pow_pos k).ne'
  have hne : r.found.barType ≠ .Mem64 := by rw [htype']; decide
  rw [← hregion]
  exact scan_one hpos hne

theorem found_mem64 (hv : (mem64 log prefetchable base).Valid) (hlog32 : log < 32) :
    scan ((mem64 log prefetchable base).regs ++ l) =
      (scan l).map (⟨base, max (2 ^ log) 0x1000, .Mem64⟩ :: ·) := by
  obtain ⟨hlog, hlog', hbase, hlt⟩ := hv
  have hf : memFlags 4 prefetchable = 0 ∨ memFlags 4 prefetchable = 4 ∨
      memFlags 4 prefetchable = 8 ∨ memFlags 4 prefetchable = 12 := by
    cases prefetchable <;> decide
  have h8 : memFlags 4 prefetchable % 8 ≠ 0 := by cases prefetchable <;> decide
  have hmod := mod_of_le hlog hbase
  obtain ⟨k, hsize, hmax⟩ := sizeOf_mem hlog hlog32 hbase hf
  have htype := typeOf_mem hmod hf
  rw [if_neg h8] at htype
  have hupper := sizeOf_upper hlog' hbase
  -- the lower half of the address
  have hlow : BitVec.ofNat 32 (base + memFlags 4 prefetchable) =
      BitVec.ofNat 32 (base % 2 ^ 32 + memFlags 4 prefetchable) := by
    apply BitVec.eq_of_toNat_eq
    rw [BitVec.toNat_ofNat, BitVec.toNat_ofNat, Nat.mod_add_mod]
  have hstart := PciBar.start_ofNat (x := base % 2 ^ 32 + memFlags 4 prefetchable) (by omega)
  rw [← hlow] at hstart
  have hhigh : (BitVec.ofNat 32 (base / 2 ^ 32)).toNat = base / 2 ^ 32 := by
    rw [BitVec.toNat_ofNat]
    omega
  set r : BarReg := ⟨BitVec.ofNat 32 (base + memFlags 4 prefetchable), bitsFrom log 32⟩
  set u : BarReg := ⟨BitVec.ofNat 32 (base / 2 ^ 32), bitsFrom (log - 32) 32⟩
  have hfound : r.found.size = 2 ^ k := hsize
  have hregion : (u.found.get64bRegion r.found.get32bRegion).roundUp =
      ⟨base, max (2 ^ log) 0x1000, .Mem64⟩ := by
    rw [BarRegion.roundUp_eq, BarRegion.mk.injEq]
    refine ⟨?_, ?_, rfl⟩
    · show u.content.toNat * 2 ^ 32 + (r.content &&& 0xfffffff0).toNat = base
      rw [hstart, hhigh]
      omega
    · show max (PciBar.sizeOf u.sized * PciBar.sizeOf r.sized) 0x1000 = _
      rw [hupper, hsize, Nat.sub_eq_zero_of_le hlog32.le, pow_zero, one_mul, hmax]
  have hpos : r.found.size ≠ 0 := hfound ▸ (Nat.two_pow_pos k).ne'
  rw [← hregion]
  exact scan_two hpos htype

/-- The lower half of a region of 4 GiB or more has no address bits, so it is taken for absent. -/
theorem scan_mem64_large (hv : (mem64 log prefetchable base).Valid) (hlog32 : 32 ≤ log) :
    ∃ u : BarReg, u.found.size = 2 ^ (log - 32) ∧
      scan ((mem64 log prefetchable base).regs ++ l) = scan (u :: l) := by
  obtain ⟨hlog, hlog', hbase, hlt⟩ := hv
  have hf : memFlags 4 prefetchable < 2 ^ 4 := by cases prefetchable <;> decide
  refine ⟨_, sizeOf_upper hlog' hbase, scan_skip ?_⟩
  exact sizeOf_top_clear le_rfl (.inl (by omega)) (by decide) (mod_of_le hlog hbase) hf
    (BitMask.testBit_of_mod hbase (by omega))

theorem scan_absent : scan (absent.regs ++ l) = scan l := scan_skip (by decide)

/-- An I/O register without its upper bits is taken for absent. -/
theorem scan_io_lower (hv : (io log false base).Valid) :
    scan ((io log false base).regs ++ l) = scan l := by
  obtain ⟨hlog, -, hbase, hlt⟩ := hv
  refine scan_skip (sizeOf_top_clear (by decide) (.inr (by decide)) (n := 2) (by decide)
    (mod_of_le hlog hbase) (by decide) ?_)
  exact Nat.testBit_lt_two_pow (hlt.trans (by decide))

theorem scan_io (hv : (io log true base).Valid) :
    scan ((io log true base).regs ++ l) =
      (scan l).map (⟨base - base % 2 ^ 4, max (2 ^ log) 0x1000, .Io⟩ :: ·) := by
  obtain ⟨hlog, hlog', hbase, hlt⟩ := hv
  have hmod := mod_of_le hlog hbase
  have hbit : ∀ i < 32, _ := fun i hi =>
    getLsbD_sized log 1 (le_refl 32) hmod (by decide) hi
  have hlog32 : log < 32 := hlog'
  have hsize : PciBar.sizeOf
      (BarReg.mk (BitVec.ofNat 32 (base + 1)) (bitsFrom log 32)).sized = 2 ^ log := by
    refine PciBar.sizeOf_eq hlog32 (fun i hki hi => ?_) fun h0 => ?_
    · rw [hbit i hi, decide_eq_true ⟨hki, hi⟩, Bool.true_or]
    · have hclear : (if log - 1 < 2 then (1 : Nat).testBit (log - 1) else base.testBit (log - 1)) =
          false := by
        split
        · rw [show log - 1 = 1 by omega]
          rfl
        · exact BitMask.testBit_of_mod hbase (by omega)
      rw [hbit _ (by omega), hclear, Bool.or_false, decide_eq_false (by omega)]
  have hlt' : base < 2 ^ 32 := hlt
  have hstart := PciBar.start_ofNat (x := base + 1) (by omega)
  set r : BarReg := ⟨BitVec.ofNat 32 (base + 1), bitsFrom log 32⟩
  have hfound : r.found.size = 2 ^ log := hsize
  have htype : r.found.barType = .Io := typeOf_io hmod
  have hregion : r.found.get32bRegion.roundUp =
      ⟨base - base % 2 ^ 4, max (2 ^ log) 0x1000, .Io⟩ := by
    rw [BarRegion.roundUp_eq, BarRegion.mk.injEq, ← hsize]
    exact ⟨hstart.trans (by omega), rfl, htype⟩
  have hpos : r.found.size ≠ 0 := hfound ▸ (Nat.two_pow_pos log).ne'
  have hne : r.found.barType ≠ .Mem64 := by rw [htype]; decide
  rw [← hregion]
  exact scan_one hpos hne

/-- A register that is not absent stands for one region. -/
def count (bars : List Bar) : Nat := (bars.filterMap region?).length

theorem count_cons (hne : bar ≠ absent) : count (bar :: bars) = 1 + count bars := by
  cases bar with
  | absent => exact absurd rfl hne
  | mem32 | mem64 | io => simp [count, region?, Nat.add_comm]

/-- No more regions are found from some registers on than a number. -/
def FindsAtMost (l : List BarReg) (n : Nat) : Prop := ∀ rs, scan l = some rs → rs.length ≤ n

theorem FindsAtMost.cons {l₁ l₂ : List BarReg} {region : BarRegion} {n : Nat}
    (h : FindsAtMost l₂ n) (hscan : scan l₁ = (scan l₂).map (region :: ·)) :
    FindsAtMost l₁ (1 + n) := by
  intro rs hrs
  rw [hscan] at hrs
  obtain ⟨rs', hrs', rfl⟩ := Option.map_eq_some_iff.mp hrs
  rw [List.length_cons, Nat.add_comm]
  exact Nat.add_le_add_left (h rs' hrs') 1

/-- The scan that starts with one more register, or with one less. -/
theorem findsAtMost_shift (h : FindsAtMost (bars.flatMap regs) (count bars))
    (htail : ∀ u l, bars.flatMap regs = u :: l → FindsAtMost l (count bars)) (u : BarReg) :
    FindsAtMost (u :: bars.flatMap regs) (1 + count bars) := by
  by_cases hsize : u.found.size = 0
  · intro rs hrs
    rw [scan_skip hsize] at hrs
    exact (h rs hrs).trans (Nat.le_add_left _ _)
  · rcases scan_cases (l := bars.flatMap regs) hsize with
      ⟨region, -, hscan⟩ | ⟨-, hscan⟩ | ⟨u', l', hl, region, -, hscan⟩
    · exact h.cons hscan
    · intro rs hrs
      rw [hscan] at hrs
      cases hrs
    · exact (htail u' l' hl).cons hscan

/-- A register that is not absent leaves room for one region more. -/
theorem FindsAtMost.count_cons (h : FindsAtMost l (1 + count bars)) (hne : bar ≠ absent) :
    FindsAtMost l (count (bar :: bars)) := by
  rw [Bar.count_cons hne]
  exact h

/-- The scan finds no more regions than there are, also from the upper half of an address on. -/
theorem findsAtMost (hv : ∀ bar ∈ bars, bar.Valid) :
    FindsAtMost (bars.flatMap regs) (count bars) ∧
      ∀ u, FindsAtMost (u :: bars.flatMap regs) (1 + count bars) := by
  induction bars with
  | nil =>
    have hnil : FindsAtMost ([].flatMap regs) (count []) := fun rs hrs => by
      cases hrs
      exact Nat.le_refl _
    exact ⟨hnil, findsAtMost_shift hnil nofun⟩
  | cons bar bars ih =>
    obtain ⟨hbar, hbars⟩ := List.forall_mem_cons.mp hv
    obtain ⟨hrest, hupper⟩ := ih hbars
    have hmore : FindsAtMost (bars.flatMap regs) (1 + count bars) := fun rs hrs =>
      (hrest rs hrs).trans (Nat.le_add_left _ _)
    have hfirst : FindsAtMost ((bar :: bars).flatMap regs) (count (bar :: bars)) := by
      rw [List.flatMap_cons]
      cases bar with
      | absent => exact fun rs hrs => hrest rs (scan_absent ▸ hrs)
      | mem32 log prefetchable base => exact (hrest.cons (found_mem32 hbar)).count_cons nofun
      | mem64 log prefetchable base =>
        by_cases hlog : log < 32
        · exact (hrest.cons (found_mem64 hbar hlog)).count_cons nofun
        · -- the lower half is passed over, the scan goes on at the upper half
          obtain ⟨u, -, hscan⟩ := scan_mem64_large (l := bars.flatMap regs) hbar (not_lt.mp hlog)
          have hscanned : FindsAtMost _ (1 + count bars) := fun rs hrs => hupper u rs (hscan ▸ hrs)
          exact hscanned.count_cons nofun
      | io log upper base =>
        cases upper with
        | true => exact (hrest.cons (scan_io hbar)).count_cons nofun
        | false =>
          have hscanned : FindsAtMost _ (1 + count bars) := fun rs hrs =>
            hmore rs (scan_io_lower hbar ▸ hrs)
          exact hscanned.count_cons nofun
    refine ⟨hfirst, findsAtMost_shift hfirst fun u l hl => ?_⟩
    -- the first register alone is passed over
    rw [List.flatMap_cons] at hl
    cases bar with
    | absent =>
      obtain ⟨-, rfl⟩ := List.cons.inj hl
      exact hrest
    | mem32 | io =>
      obtain ⟨-, rfl⟩ := List.cons.inj hl
      exact hmore.count_cons nofun
    | mem64 log prefetchable base =>
      obtain ⟨-, rfl⟩ := List.cons.inj hl
      exact (hupper _).count_cons nofun

/-- A size of less than 4 GiB times the size of the upper half is too small. -/
theorem upper_too_small {s : Nat} (hlog : 32 ≤ log) (hs : s < 2 ^ 32) :
    max (s * 2 ^ (log - 32)) 0x1000 ≠ max (2 ^ log) 0x1000 := by
  have hpow : 2 ^ 32 * 2 ^ (log - 32) = 2 ^ log := by
    rw [← pow_add, Nat.add_sub_of_le hlog]
  have hlt : s * 2 ^ (log - 32) < 2 ^ log := by
    rw [← hpow]
    exact Nat.mul_lt_mul_of_pos_right hs (Nat.two_pow_pos _)
  have hpage : 2 ^ 12 ≤ 2 ^ log := Nat.pow_le_pow_right (by decide) (by omega)
  omega

theorem map_cons_eq_some_iff {x : Option (List BarRegion)} {region region' : BarRegion} :
    x.map (region :: ·) = some (region' :: rs) ↔ region = region' ∧ x = some rs := by
  cases x with
  | none => simp
  | some rs' => simp

/-- A region that starts at the upper half is not the one that is expected. -/
theorem map_upper_ne {s : Nat} {region : BarRegion} {x : Option (List BarRegion)} (hlog : 32 ≤ log)
    (hs : s < 2 ^ 32) (hsize : region.size = max (s * 2 ^ (log - 32)) 0x1000) :
    x.map (region :: ·) ≠ some (⟨base, max (2 ^ log) 0x1000, .Mem64⟩ :: rs) := fun heq => by
  have hregion := congrArg BarRegion.size (map_cons_eq_some_iff.mp heq).1
  rw [hsize] at hregion
  exact upper_too_small hlog hs hregion

/-- **The scan finds the regions of a function** exactly when its registers are understood. -/
theorem regions_eq_iff (hv : ∀ bar ∈ bars, bar.Valid) :
    scan (bars.flatMap regs) = some (bars.filterMap region?) ↔ ∀ bar ∈ bars, bar.Plain := by
  induction bars with
  | nil => exact iff_of_true rfl nofun
  | cons bar bars ih =>
    obtain ⟨hbar, hbars⟩ := List.forall_mem_cons.mp hv
    rw [List.flatMap_cons, List.forall_mem_cons, ← ih hbars]
    cases bar with
    | absent => rw [scan_absent, List.filterMap_cons_none rfl, Plain, true_and]
    | mem32 log prefetchable base =>
      simp only [found_mem32 hbar, List.filterMap_cons, region?, map_cons_eq_some_iff, Plain,
        true_and]
    | mem64 log prefetchable base =>
      simp only [List.filterMap_cons, region?, Plain]
      by_cases hlog : log < 32
      · rw [found_mem64 hbar hlog, map_cons_eq_some_iff]
        simp only [true_and, hlog]
      · refine iff_of_false (fun heq => ?_) fun h => hlog h.1
        -- the upper half yields a region that is too small
        obtain ⟨u, hu, hscan⟩ := scan_mem64_large (l := bars.flatMap regs) hbar (not_lt.mp hlog)
        rw [hscan] at heq
        have hne : u.found.size ≠ 0 := hu ▸ (Nat.two_pow_pos _).ne'
        rcases scan_cases (l := bars.flatMap regs) hne with
          ⟨region, hsize, hcase⟩ | ⟨-, hcase⟩ | ⟨u', l', -, region, hsize, hcase⟩
        · rw [hu, ← Nat.one_mul (2 ^ (log - 32))] at hsize
          exact map_upper_ne (not_lt.mp hlog) (by decide) hsize (hcase ▸ heq)
        · rw [hcase] at heq
          cases heq
        · rw [hu] at hsize
          exact map_upper_ne (not_lt.mp hlog) (PciBar.sizeOf_lt _) hsize (hcase ▸ heq)
    | io log upper base =>
      simp only [List.filterMap_cons, region?, Plain]
      cases upper with
      | true =>
        rw [scan_io hbar, map_cons_eq_some_iff, BarRegion.mk.injEq]
        have hmod : base - base % 2 ^ 4 = base ↔ base % 16 = 0 := by omega
        simp only [hmod, and_true, true_and]
      | false =>
        refine iff_of_false (fun heq => ?_) fun h => absurd h.1.1 (by decide)
        rw [scan_io_lower hbar] at heq
        have := (findsAtMost hbars).1 _ heq
        rw [List.length_cons, count] at this
        omega

end Bar

end Scan

/-! ## The registers of a function -/

section Init

variable {n : Nat} (ecamBase : Nat) (offsets : Vector Nat n)

/-- A register that is sized is left as it was. -/
theorem ConfigSpace.write_write (cfg : ConfigSpace) (reg : Nat) :
    (cfg.write reg (BitVec.allOnes 32)).write reg (cfg reg).content = cfg := by
  have hsized : ((cfg.write reg (BitVec.allOnes 32)) reg) = (cfg reg).write (BitVec.allOnes 32) :=
    Function.update_self ..
  rw [ConfigSpace.write, hsized, BarReg.write_write, ConfigSpace.write, Function.update_idem,
    Function.update_eq_self]

/-- A register is left as it was, and what was read is kept. -/
theorem barInit_eq (dev : BarConfig n) (cfg : ConfigSpace) (barId : Fin n) :
    barInit ecamBase offsets (dev, cfg) barId =
      ({ dev with
        bars := dev.bars.set barId ((cfg (cfgBase ecamBase dev.bdf + offsets[barId])).found) },
        cfg) := by
  set reg := cfgBase ecamBase dev.bdf + offsets[barId] with hreg
  have hsized : ((cfg.write reg (BitVec.allOnes 32)) reg) = (cfg reg).write (BitVec.allOnes 32) :=
    Function.update_self ..
  rw [barInit]
  simp only [← hreg, cfg.write_write, hsized]
  rfl

/-- The registers as they are found in the configuration space. -/
def BarConfig.foundIn (cfg : ConfigSpace) (dev : BarConfig n) : BarConfig n :=
  { dev with bars := .ofFn fun i => (cfg (cfgBase ecamBase dev.bdf + offsets[i])).found }

/-- The places of a list are set, the other ones are as before. -/
theorem foldl_set {α : Type} (f : Fin n → α) (v : Vector α n) (l : List (Fin n)) :
    l.foldl (fun v i => v.set i (f i)) v = .ofFn fun i => if i ∈ l then f i else v[i] := by
  induction l generalizing v with
  | nil =>
    apply Vector.ext
    intro i hi
    simp only [List.foldl_nil, List.not_mem_nil, if_false, Vector.getElem_ofFn]
    rfl
  | cons k l ih =>
    rw [List.foldl_cons, ih]
    apply Vector.ext
    intro i hi
    rw [Vector.getElem_ofFn, Vector.getElem_ofFn]
    by_cases hmem : (⟨i, hi⟩ : Fin n) ∈ l
    · rw [if_pos hmem, if_pos (List.mem_cons_of_mem _ hmem)]
    · rw [if_neg hmem]
      by_cases heq : (⟨i, hi⟩ : Fin n) = k
      · subst heq
        rw [if_pos List.mem_cons_self]
        exact Vector.getElem_set_self _
      · rw [if_neg (by simp [hmem, heq])]
        exact Vector.getElem_set_ne k.isLt hi fun hne => heq (Fin.ext hne.symm)

theorem foldl_set_finRange {α : Type} (f : Fin n → α) (v : Vector α n) :
    (List.finRange n).foldl (fun v i => v.set i (f i)) v = .ofFn f := by
  rw [foldl_set]
  simp only [List.mem_finRange, if_true]

/-- The registers of a list are found one after the other. -/
theorem foldl_barInit (dev : BarConfig n) (cfg : ConfigSpace) (l : List (Fin n)) :
    l.foldl (barInit ecamBase offsets) (dev, cfg) =
      ({ dev with bars := l.foldl (fun bars (i : Fin n) =>
        bars.set i (cfg (cfgBase ecamBase dev.bdf + offsets[i])).found) dev.bars }, cfg) := by
  induction l generalizing dev with
  | nil => rfl
  | cons barId l ih => rw [List.foldl_cons, barInit_eq, ih, List.foldl_cons]

theorem devBarsInit_eq (dev : BarConfig n) (cfg : ConfigSpace) :
    devBarsInit ecamBase offsets dev cfg = (dev.foundIn ecamBase offsets cfg, cfg) := by
  rw [devBarsInit, foldl_barInit, foldl_set_finRange]
  rfl

/-- **Every register is left as it was.** -/
theorem devsBarsInit_eq (devs : List (BarConfig n)) (cfg : ConfigSpace) :
    devsBarsInit ecamBase offsets devs cfg = (devs.map (·.foundIn ecamBase offsets cfg), cfg) := by
  induction devs with
  | nil => rfl
  | cons dev devs ih =>
    simp only [devsBarsInit, devBarsInit_eq, ih, List.map_cons]

end Init

/-! ## All functions -/

/-- The regions of several functions, one after the other. -/
def collectBars : List (List Bar) → List BarRegion → Option (List BarRegion)
  | [], barRegions => some barRegions
  | bars :: funcs, barRegions =>
    (scan (bars.flatMap Bar.regs)).bind fun regions => collectBars funcs (barRegions ++ regions)

theorem collectBars_append (funcs funcs' : List (List Bar)) (acc : List BarRegion) :
    collectBars (funcs ++ funcs') acc = (collectBars funcs acc).bind (collectBars funcs') := by
  induction funcs generalizing acc with
  | nil => rfl
  | cons bars funcs ih =>
    rw [List.cons_append, collectBars, collectBars, Option.bind_assoc]
    exact congrArg _ (funext fun regions => ih _)

namespace Bar

variable {funcs : List (List Bar)} {acc res : List BarRegion}

/-- What is collected is appended, and no more than there is. -/
theorem collectBars_some (hv : ∀ bars ∈ funcs, ∀ bar ∈ bars, bar.Valid)
    (h : collectBars funcs acc = some res) :
    ∃ rs, res = acc ++ rs ∧ rs.length ≤ (funcs.flatMap (List.filterMap region?)).length := by
  induction funcs generalizing acc with
  | nil =>
    cases h
    exact ⟨[], (List.append_nil _).symm, Nat.le_refl _⟩
  | cons bars funcs ih =>
    obtain ⟨hbars, hfuncs⟩ := List.forall_mem_cons.mp hv
    obtain ⟨regions, hscan, hrest⟩ := Option.bind_eq_some_iff.mp h
    obtain ⟨rs, rfl, hlen⟩ := ih hfuncs hrest
    refine ⟨regions ++ rs, List.append_assoc .., ?_⟩
    have hfirst := (findsAtMost hbars).1 regions hscan
    rw [List.flatMap_cons, List.length_append, List.length_append]
    exact Nat.add_le_add hfirst hlen

/-- **The regions of all functions are collected** exactly when all registers are understood. -/
theorem collectBars_iff (acc : List BarRegion) (hv : ∀ bars ∈ funcs, ∀ bar ∈ bars, bar.Valid) :
    collectBars funcs acc = some (acc ++ funcs.flatMap (List.filterMap region?)) ↔
      ∀ bars ∈ funcs, ∀ bar ∈ bars, bar.Plain := by
  induction funcs generalizing acc with
  | nil => exact iff_of_true (congrArg some (List.append_nil acc).symm) nofun
  | cons bars funcs ih =>
    obtain ⟨hbars, hfuncs⟩ := List.forall_mem_cons.mp hv
    rw [List.forall_mem_cons, ← regions_eq_iff hbars, collectBars, List.flatMap_cons,
      ← List.append_assoc]
    constructor
    · intro h
      obtain ⟨regions, hscan, hrest⟩ := Option.bind_eq_some_iff.mp h
      obtain ⟨rs, hres, hlen⟩ := collectBars_some hfuncs hrest
      -- no function yields more regions than it has, so each yields all of them
      have hfirst := (findsAtMost hbars).1 regions hscan
      rw [List.append_assoc, List.append_assoc] at hres
      have happ := List.append_cancel_left hres
      have hlength := congrArg List.length happ
      rw [List.length_append, List.length_append] at hlength
      rw [count] at hfirst
      obtain ⟨rfl, rfl⟩ := List.append_inj happ (by omega)
      exact ⟨hscan, (ih _ hfuncs).mp hrest⟩
    · rintro ⟨hscan, hplain⟩
      rw [hscan]
      exact (ih _ hfuncs).mpr hplain

end Bar

section Register

variable {ecamBase n : Nat} {offsets : Vector Nat n} {cfg : ConfigSpace} {dev : PciDevice n}
  {bar : BarConfig n}

/-- The scan of a function whose registers are in the configuration space. -/
theorem getRegions_foundIn (hat : dev.At ecamBase offsets cfg) (hbdf : bar.bdf = dev.bdf) :
    (bar.foundIn ecamBase offsets cfg).getRegions.map (List.map BarRegion.roundUp) =
      scan (dev.bars.flatMap Bar.regs) := by
  have hbars : (bar.foundIn ecamBase offsets cfg).bars.toList =
      (dev.bars.flatMap Bar.regs).map BarReg.found := by
    rw [BarConfig.foundIn, Vector.toList_ofFn]
    apply List.ext_getElem
    · rw [List.length_ofFn, List.length_map, dev.slots]
    · intro i hi hi'
      have hreg := hat ⟨i, List.length_ofFn (n := n) ▸ hi⟩
      rw [← hbdf] at hreg
      rw [List.getElem_ofFn, List.getElem_map]
      exact congrArg BarReg.found hreg
  rw [BarConfig.getRegions, hbars, scan]

/-- The functions of one kind. -/
theorem collectRegions_foundIn {bars : List (BarConfig n)} {devs : List (PciDevice n)}
    (hat : ∀ dev ∈ devs, dev.At ecamBase offsets cfg)
    (hbdf : bars.map BarConfig.bdf = devs.map PciDevice.bdf) (acc : List BarRegion) :
    collectRegions (bars.map (·.foundIn ecamBase offsets cfg)) acc =
      collectBars (devs.map PciDevice.bars) acc := by
  induction devs generalizing bars acc with
  | nil =>
    rw [List.map_nil, List.map_eq_nil_iff] at hbdf
    subst hbdf
    rfl
  | cons dev devs ih =>
    obtain ⟨bar, bars, rfl⟩ := List.exists_cons_of_length_pos (l := bars) <| by
      have := congrArg List.length hbdf
      simp only [List.length_map, List.length_cons] at this
      omega
    obtain ⟨hdev, hdevs⟩ := List.forall_mem_cons.mp hat
    obtain ⟨hfirst, hrest⟩ := List.cons.inj hbdf
    rw [List.map_cons, List.map_cons, collectRegions, collectBars, ← getRegions_foundIn hdev hfirst,
      Option.bind_map]
    exact congrArg _ (funext fun regions => ih hdevs hrest _)

variable {endpoints : List (PciDevice NUM_BAR_REGS_TYPE0)}
  {bridges : List (PciDevice NUM_BAR_REGS_TYPE1)} {root : PciRoot}

theorem barsRegister_eq (hendpoint : ∀ dev ∈ endpoints, dev.At ecamBase endpointOffsets cfg)
    (hbridge : ∀ dev ∈ bridges, dev.At ecamBase bridgeOffsets cfg)
    (hendpoints : root.endpoints.map BarConfig.bdf = endpoints.map PciDevice.bdf)
    (hbridges : root.bridges.map BarConfig.bdf = bridges.map PciDevice.bdf) :
    root.barsRegister ecamBase cfg =
      (collectBars (endpoints.map PciDevice.bars ++ bridges.map PciDevice.bars) root.barRegions).map
        fun barRegions =>
          ({ root with
            endpoints := root.endpoints.map (·.foundIn ecamBase endpointOffsets cfg)
            bridges := root.bridges.map (·.foundIn ecamBase bridgeOffsets cfg)
            barRegions }, cfg) := by
  have hep := collectRegions_foundIn hendpoint hendpoints root.barRegions
  have hbr := collectRegions_foundIn hbridge hbridges
  simp only [PciRoot.barsRegister, PciRoot.epBarsInit, PciRoot.bridgeBarsInit, devsBarsInit_eq,
    PciRoot.getBarsRegions, hep, hbr, collectBars_append]
  cases collectBars (endpoints.map PciDevice.bars) root.barRegions with
  | none => rfl
  | some barRegions =>
    simp only [Option.bind_eq_bind, Option.bind_some]
    cases collectBars (bridges.map PciDevice.bars) barRegions <;> rfl

/-- The bars of all functions are valid. -/
theorem PciDevice.forall_valid {n : Nat} (devs : List (PciDevice n)) :
    ∀ bars ∈ devs.map PciDevice.bars, ∀ bar ∈ bars, bar.Valid := fun _ hbars => by
  obtain ⟨dev, -, rfl⟩ := List.mem_map.mp hbars
  exact dev.valid

/-- **Discovery of the base address registers**: whatever functions there are and whatever they have
at their registers, all registers are left as they were and the regions that are collected are those
of the functions, each with its base, its size and its type, exactly when no 64-bit region has 4 GiB
or more, and every I/O register has all its bits and a base that is a multiple of 16. -/
theorem bar_discovery_iff (endpoints : List (PciDevice NUM_BAR_REGS_TYPE0))
    (bridges : List (PciDevice NUM_BAR_REGS_TYPE1))
    (hendpoint : ∀ dev ∈ endpoints, dev.At ecamBase endpointOffsets cfg)
    (hbridge : ∀ dev ∈ bridges, dev.At ecamBase bridgeOffsets cfg)
    (hendpoints : root.endpoints.map BarConfig.bdf = endpoints.map PciDevice.bdf)
    (hbridges : root.bridges.map BarConfig.bdf = bridges.map PciDevice.bdf) :
    (∃ root', root.barsRegister ecamBase cfg = some (root', cfg) ∧
        root'.barRegions = root.barRegions ++
          (endpoints.flatMap PciDevice.regions ++ bridges.flatMap PciDevice.regions)) ↔
      (∀ dev ∈ endpoints, ∀ bar ∈ dev.bars, bar.Plain) ∧
        ∀ dev ∈ bridges, ∀ bar ∈ dev.bars, bar.Plain := by
  have hv : ∀ bars ∈ endpoints.map PciDevice.bars ++ bridges.map PciDevice.bars,
      ∀ bar ∈ bars, bar.Valid := List.forall_mem_append.mpr
    ⟨PciDevice.forall_valid endpoints, PciDevice.forall_valid bridges⟩
  have hiff := Bar.collectBars_iff root.barRegions hv
  rw [List.forall_mem_append, List.forall_mem_map, List.forall_mem_map, List.flatMap_append,
    List.flatMap_map, List.flatMap_map] at hiff
  rw [← hiff, barsRegister_eq hendpoint hbridge hendpoints hbridges]
  constructor
  · rintro ⟨root', heq, hregions⟩
    obtain ⟨barRegions, hcollect, hroot⟩ := Option.map_eq_some_iff.mp heq
    obtain ⟨rfl, -⟩ := Prod.mk.inj hroot
    rw [hcollect]
    exact congrArg some hregions
  · intro h
    rw [h]
    exact ⟨_, rfl, rfl⟩

end Register

/-- The registers of one function at the start of the configuration space. -/
def configOf {n : Nat} (dev : PciDevice n) : ConfigSpace := fun addr =>
  (dev.bars.flatMap Bar.regs).getD ((addr - 0x10) / 4) ⟨0, 0⟩

/-- A function with a register of each kind that is understood. -/
def mixedDevice : PciDevice NUM_BAR_REGS_TYPE0 where
  bdf := 0
  bars := [.mem32 20 false 0xe0000000, .mem64 31 true 0x480000000, .absent, .io 8 true 0xf000,
    .absent]
  valid := by decide
  slots := rfl

theorem bar_discovery_mixed :
    ∃ root', (PciRoot.mk [.new _ 0] [] [0] [] []).barsRegister 0 (configOf mixedDevice) =
        some (root', configOf mixedDevice) ∧
      root'.barRegions = [⟨0xe0000000, 0x100000, .Mem32⟩, ⟨0x480000000, 0x80000000, .Mem64⟩,
        ⟨0xf000, 0x1000, .Io⟩] :=
  (bar_discovery_iff [mixedDevice] [] (by decide) nofun rfl rfl).mpr (by decide)

/-- A function with a region of 8 GiB at its last two registers. -/
def largeDevice : PciDevice NUM_BAR_REGS_TYPE0 where
  bdf := 0
  bars := [.absent, .absent, .absent, .absent, .mem64 33 false 0x400000000]
  valid := by decide
  slots := rfl

/-- The lower half of the large region is passed over, the upper half is taken for the lower half of
another one, and the scan leaves the registers. -/
theorem large_bar_out_of_bounds : largeDevice.At 0 endpointOffsets (configOf largeDevice) ∧
    ((PciRoot.mk [.new _ 0] [] [0] [] []).barsRegister 0 (configOf largeDevice)).isNone := by
  refine ⟨by decide, ?_⟩
  decide +kernel

end Hvisor
