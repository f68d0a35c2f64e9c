import Hvisor.Arch.Dabt

/-!
# Page faults of a guest on loongarch64

The arm of `handle_exception` for `ECODE_PIL`, `ECODE_PIS` and `ECODE_PNR`, from
`arch/loongarch64/trap.rs`, with the registers as the trap vector saves and restores them: it
decodes the word of the instruction, hands an access to the device, and writes the destination of a
load. The decoder takes words that its table does not list, and the mask of eight bytes is computed
by a shift by the width of a word.

## Main definitions

* `extractField`, `loongDecode`, `extended`, `handleException`: the code
* `Gprs`, `guestTrap`: the registers of the guest, and a trap from one instruction to the next
* `listedEncodings`: the table of the source
* `Moves`, `Clean`, `Stray`: what is promised, and the conditions

## Main results

* `loongDecode_listed`: every listed encoding is decoded as it is
* `isSome_loongDecode_iff`: which other words are decoded
* `extended_eq`, `extended_eight`: what a load leaves
* `moves_iff`: when the data of a listed word move as its encoding says
-/

namespace Hvisor

namespace Loong

variable (overflowChecks : Bool) {σ : Type}

/-! ## The instruction -/

/-- Some bits of an instruction. -/
def extractField (inst offset length : Nat) : Nat := (inst >>> offset) &&& ((1 <<< length) - 1)

/-- The direction, and whether a load extends no sign, from the field `ty`. -/
def decodeType : Nat → Option (Bool × Bool)
  | 0b00 => some (false, false)
  | 0b01 => some (true, false)
  | 0b10 => some (false, true)
  | _ => none

/-- The number of bytes, from the field `sz`. -/
def decodeSize : Nat → Option Nat
  | 0b00 => some 1
  | 0b01 => some 2
  | 0b10 => some 4
  | 0b11 => some 8
  | _ => none

/-- The direction and the size, from the field `ty` of the pointers. -/
def decodePtr : Nat → Option (Bool × Bool × Nat)
  | 0b00 => some (false, false, 4)
  | 0b01 => some (true, false, 4)
  | 0b10 => some (false, false, 8)
  | 0b11 => some (true, false, 8)
  | _ => none

/-- The direction, whether a load extends no sign, and the size. -/
def loongDecode (ins : Nat) : Option (Bool × Bool × Nat) :=
  let prefix6 := extractField ins 26 6
  if prefix6 = 0b001010 then do
    -- load/store
    let (isWrite, isU) ← decodeType (extractField ins 24 2)
    let size ← decodeSize (extractField ins 22 2)
    return (isWrite, isU, size)
  else if prefix6 = 0b001001 then
    -- load/store pointer
    decodePtr (extractField ins 24 2)
  else if prefix6 = 0b001110 then do
    -- load/store extended
    let (isWrite, isU) ← decodeType (extractField ins 20 2)
    let size ← decodeSize (extractField ins 18 2)
    return (isWrite, isU, size)
  else none

/-! ## The handler -/

/-- The registers of the trap, and what it has to do with: the general-purpose registers of the
context, and the devices of the zone. -/
structure TrapMachine (σ : Type) where
  badi : BitVec 32
  badv : BitVec 64
  sepc : BitVec 64
  x : Vector (BitVec 64) 32
  dev : σ

/-- A word shifted up; a shift takes the low bits of its amount. -/
def shlWord (x : BitVec 64) (n : Nat) : Option (BitVec 64) :=
  if n < 64 then some (x <<< n) else if overflowChecks then none else some (x <<< (n % 64))

/-- The sign extension of a value of some bits. -/
def signedExt (value : BitVec 64) (size : Nat) : Option (BitVec 64) := do
  -- `1 << (size - 1)`, with `size` in bits
  let signBit ← shlWord overflowChecks 1 (← subWord overflowChecks size 1)
  -- all bits from the sign bit on are set
  if value &&& signBit != 0 then
    (shlWord overflowChecks 1 size).map fun bit => value ||| ~~~(bit - 1)
  else some value

/-- The value of a load, trimmed by its size and extended. -/
def extended (value : BitVec 64) (size : Nat) (isU : Bool) : Option (BitVec 64) := do
  let bits ← wordResult overflowChecks 64 (size * 8)
  let bit ← shlWord overflowChecks 1 bits
  -- the mask is `(1 << (size * 8)) - 1`
  let trimmedBySize := value &&& (bit - 1)
  if isU then some trimmedBySize else signedExt overflowChecks trimmedBySize bits

/-- The address that the arm of the pointers computes, and does not use. -/
def memAddr (m : TrapMachine σ) : Option Nat :=
  let ins := m.badi.toNat
  -- `mem_addr` is computed in the arm of the pointers only
  if extractField ins 26 6 = 0b001001 then do
    let base ← m.x[extractField ins 5 5]?
    wordResult overflowChecks 64 (base.toNat + extractField ins 10 14)
  else some 0

/-- The access that is handed to the device, and whether a load extends no sign. -/
def trapAccess (m : TrapMachine σ) : Option (MMIOAccess × Bool) := do
  let (isWrite, isU, size) ← loongDecode m.badi.toNat
  let _ ← memAddr overflowChecks m
  let value ← (if isWrite then m.x[extractField m.badi.toNat 0 5]? else some 0)
  return ({ address := ⟨m.badv⟩, size := .ofNat size, isWrite, value := ⟨value⟩ }, isU)

/-- The registers after an access that was handled. -/
def finish (m : TrapMachine σ) (isWrite isU : Bool) (mmioAccess : MMIOAccess) :
    Option (Vector (BitVec 64) 32) :=
  if isWrite then some m.x
  else
    (extended overflowChecks mmioAccess.value.toBitVec mmioAccess.bytes isU).map fun value =>
      m.x.setIfInBounds (extractField m.badi.toNat 0 5) value

/-- The access of a load or store is handled, and its result goes to the register. -/
def handleException (handlers : MMIOHandler → MMIOHandler.Run σ) (regions : List MMIOConfig)
    (m : TrapMachine σ) : Option (TrapMachine σ) := do
  let (mmioAccess, isU) ← trapAccess overflowChecks m
  let isWrite := mmioAccess.isWrite
  let (res, mmioAccess, dev) ←
    mmioHandleAccess overflowChecks handlers regions mmioAccess m.dev
  match res with
  -- the destination is written before `sepc` goes on
  | .ok () =>
    let x ← finish overflowChecks m isWrite isU mmioAccess
    let sepc ← wordResult overflowChecks 64 (m.sepc.toNat + 4)
    return { m with x, sepc := .ofNat 64 sepc, dev }
  -- a panic
  | .error _ => none

/-! ## The guest -/

/-- The general-purpose registers: register 0 is zero. -/
structure Gprs where
  x : Vector (BitVec 64) 32
  zero : x[0] = 0

/-- Write a register; register 0 stays zero. -/
def Gprs.set (gprs : Gprs) (r : BitVec 5) (value : BitVec 64) : Gprs :=
  if h : r = 0 then gprs
  else
    have hne : r.toNat ≠ 0 := fun h' => h (BitVec.eq_of_toNat_eq h')
    ⟨gprs.x.set r.toNat value r.isLt, by simp [hne, gprs.zero]⟩

/-- A general register. -/
def Gprs.get (gprs : Gprs) (r : BitVec 5) : BitVec 64 :=
  have hlt := r.isLt
  gprs.x[r.toNat]

/-- What `_hyp_trap_return` loads: a load of register 0 leaves it zero. -/
def Gprs.restore (x : Vector (BitVec 64) 32) : Gprs := ⟨x.set 0 0, by simp⟩

/-- A guest at a load or a store, with the devices of its zone. -/
structure Guest (σ : Type) where
  badi : BitVec 32
  badv : BitVec 64
  pc : BitVec 64
  gprs : Gprs
  dev : σ

/-- The context that `_hyp_trap_vector` saves. -/
def Guest.save (g : Guest σ) : TrapMachine σ where
  badi := g.badi
  badv := g.badv
  sepc := g.pc
  x := g.gprs.x
  dev := g.dev

/-- The guest before the instruction, and after it. -/
def guestTrap (handlers : MMIOHandler → MMIOHandler.Run σ) (regions : List MMIOConfig)
    (g : Guest σ) : Option (Guest σ) :=
  (handleException overflowChecks handlers regions g.save).map fun m =>
    { g with pc := m.sepc, gprs := .restore m.x, dev := m.dev }

/-! ## The table -/

/-- A line of the table: the leading bits of the word, what the instruction does, and whether it is
one of the pointers. -/
structure Encoding where
  bits : Nat
  opcode : Nat
  isWrite : Bool
  isU : Bool
  size : Nat
  deriving DecidableEq

/-- The word has the leading bits of the encoding. -/
def Encoding.Matches (r : Encoding) (word : BitVec 32) : Prop :=
  word.toNat / 2 ^ (32 - r.bits) = r.opcode

instance (r : Encoding) (word : BitVec 32) : Decidable (r.Matches word) :=
  inferInstanceAs (Decidable (_ = _))

/-- The encodings in the order of the source. -/
def listedEncodings : List Encoding := [
  -- LD, ST and LD with U
  ⟨10, 0b0010100000, false, false, 1⟩,
  ⟨10, 0b0010100001, false, false, 2⟩,
  ⟨10, 0b0010100010, false, false, 4⟩,
  ⟨10, 0b0010100011, false, false, 8⟩,
  ⟨10, 0b0010100100, true, false, 1⟩,
  ⟨10, 0b0010100101, true, false, 2⟩,
  ⟨10, 0b0010100110, true, false, 4⟩,
  ⟨10, 0b0010100111, true, false, 8⟩,
  ⟨10, 0b0010101000, false, true, 1⟩,
  ⟨10, 0b0010101001, false, true, 2⟩,
  ⟨10, 0b0010101010, false, true, 4⟩,
  -- LDPTR and STPTR, of a word and of a double word
  ⟨8, 0b00100100, false, false, 4⟩,
  ⟨8, 0b00100101, true, false, 4⟩,
  ⟨8, 0b00100110, false, false, 8⟩,
  ⟨8, 0b00100111, true, false, 8⟩,
  -- LDX, STX and LDX with U
  ⟨17, 0b00111000000000000, false, false, 1⟩,
  ⟨17, 0b00111000000001000, false, false, 2⟩,
  ⟨17, 0b00111000000010000, false, false, 4⟩,
  ⟨17, 0b00111000000011000, false, false, 8⟩,
  ⟨17, 0b00111000000100000, true, false, 1⟩,
  ⟨17, 0b00111000000101000, true, false, 2⟩,
  ⟨17, 0b00111000000110000, true, false, 4⟩,
  ⟨17, 0b00111000000111000, true, false, 8⟩,
  ⟨17, 0b00111000001000000, false, true, 1⟩,
  ⟨17, 0b00111000001001000, false, true, 2⟩,
  ⟨17, 0b00111000001010000, false, true, 4⟩]

/-! ## Decoding -/

@[simp]
theorem extractField_eq (inst offset length : Nat) :
    extractField inst offset length = inst / 2 ^ offset % 2 ^ length := by
  rw [extractField, Nat.shiftRight_eq_div_pow, Nat.one_shiftLeft, Nat.and_two_pow_sub_one_eq_mod]

/-- The fields of the encodings with an immediate offset. -/
theorem listed_immediate : ∀ r ∈ listedEncodings, r.bits = 10 →
    r.opcode / 2 ^ 4 = 0b001010 ∧
      decodeType (r.opcode / 2 ^ 2 % 2 ^ 2) = some (r.isWrite, r.isU) ∧
      decodeSize (r.opcode % 2 ^ 2) = some r.size := by decide

/-- The fields of the pointers. -/
theorem listed_ptr : ∀ r ∈ listedEncodings, r.bits = 8 →
    r.opcode / 2 ^ 2 = 0b001001 ∧
      decodePtr (r.opcode % 2 ^ 2) = some (r.isWrite, r.isU, r.size) := by decide

/-- The fields of the indexed encodings. -/
theorem listed_indexed : ∀ r ∈ listedEncodings, r.bits = 17 →
    r.opcode / 2 ^ 11 = 0b001110 ∧
      decodeType (r.opcode / 2 ^ 5 % 2 ^ 2) = some (r.isWrite, r.isU) ∧
      decodeSize (r.opcode / 2 ^ 3 % 2 ^ 2) = some r.size := by decide

theorem listed_bits : ∀ r ∈ listedEncodings, r.bits = 10 ∨ r.bits = 8 ∨ r.bits = 17 := by decide

/-- A field above the lowest bit of an opcode is one of the opcode. -/
theorem extractField_of_div {inst k opcode : Nat} (h : inst / 2 ^ k = opcode)
    (offset length : Nat) :
    extractField inst (k + offset) length = opcode / 2 ^ offset % 2 ^ length := by
  rw [extractField_eq, Nat.pow_add, ← Nat.div_div_eq_div_mul, h]

/-- The first field of a word has its six leading bits. -/
theorem extractField_leading (word : BitVec 32) :
    extractField word.toNat 26 6 = word.toNat / 2 ^ 26 := by
  have hlt := word.isLt
  rw [extractField_eq]
  -- 26 bits below it leave six of a word of 32
  exact Nat.mod_eq_of_lt (by omega)

/-- The six leading bits of the listed encodings. -/
theorem leading_listed {r : Encoding} (hr : r ∈ listedEncodings) {word : BitVec 32}
    (h : r.Matches word) : extractField word.toNat 26 6 =
      if r.bits = 10 then 0b001010 else if r.bits = 8 then 0b001001 else 0b001110 := by
  rw [Encoding.Matches] at h
  -- one kind of encoding at a time: the opcode's own leading bits are in the table
  rcases listed_bits r hr with hbits | hbits | hbits
  · rw [hbits] at h ⊢
    rw [extractField_of_div h 4 6, (listed_immediate r hr hbits).1]
    rfl
  · rw [hbits] at h ⊢
    rw [extractField_of_div h 2 6, (listed_ptr r hr hbits).1]
    rfl
  · rw [hbits] at h ⊢
    rw [extractField_of_div h 11 6, (listed_indexed r hr hbits).1]
    rfl

/-- **Every listed encoding** is decoded as it is. -/
theorem loongDecode_listed {r : Encoding} (hr : r ∈ listedEncodings) {word : BitVec 32}
    (h : r.Matches word) : loongDecode word.toNat = some (r.isWrite, r.isU, r.size) := by
  have hleading := leading_listed hr h
  rw [Encoding.Matches] at h
  have hfield := extractField_of_div h
  -- the arm that the leading bits choose, and then its two fields
  rcases listed_bits r hr with hbits | hbits | hbits
  · obtain ⟨-, htype, hsize⟩ := listed_immediate r hr hbits
    rw [hbits] at hfield hleading
    have h6 : extractField word.toNat 26 6 = 0b001010 := hleading
    rw [loongDecode, if_pos h6, hfield 2 2, hfield 0 2, htype, pow_zero, Nat.div_one, hsize]
    rfl
  · obtain ⟨-, hptr⟩ := listed_ptr r hr hbits
    rw [hbits] at hfield hleading
    have h6 : extractField word.toNat 26 6 = 0b001001 := hleading
    rw [loongDecode, if_neg (by omega), if_pos h6, hfield 0 2, pow_zero, Nat.div_one, hptr]
  · obtain ⟨-, htype, hsize⟩ := listed_indexed r hr hbits
    rw [hbits] at hfield hleading
    have h6 : extractField word.toNat 26 6 = 0b001110 := hleading
    rw [loongDecode, if_neg (by omega), if_neg (by omega), if_pos h6, hfield 5 2, hfield 3 2,
      htype, hsize]
    rfl

/-- A word outside the table that is taken for a load or a store: `0010101011`, or one that has the
first field of the indexed encodings and a type of theirs. -/
def Stray (word : BitVec 32) : Prop :=
  word.toNat / 2 ^ 22 = 0b0010101011 ∨
    word.toNat / 2 ^ 26 = 0b001110 ∧ word.toNat / 2 ^ 20 % 2 ^ 2 ≠ 0b11

instance (word : BitVec 32) : Decidable (Stray word) := inferInstanceAs (Decidable (_ ∨ _))

/-- Every type and size of the immediate encodings is listed, but one. -/
theorem exists_listed_immediate : ∀ j < 2 ^ 4, (decodeType (j / 2 ^ 2)).isSome → j ≠ 0b1011 →
    ∃ r ∈ listedEncodings, r.bits = 10 ∧ r.opcode = 0b001010 * 2 ^ 4 + j := by decide

theorem exists_listed_ptr : ∀ j < 2 ^ 2,
    ∃ r ∈ listedEncodings, r.bits = 8 ∧ r.opcode = 0b001001 * 2 ^ 2 + j := by decide

theorem isSome_decodeType_iff : ∀ ty < 2 ^ 2, (decodeType ty).isSome ↔ ty ≠ 0b11 := by decide

theorem isSome_decodeSize : ∀ sz < 2 ^ 2, (decodeSize sz).isSome := by decide

/-- The size is always decoded, and so the type decides. -/
theorem isSome_decode_iff (ty : Nat) {sz : Nat} (hsz : sz < 2 ^ 2) :
    (do
      let (isWrite, isU) ← decodeType ty
      let size ← decodeSize sz
      return (isWrite, isU, size) : Option (Bool × Bool × Nat)).isSome ↔
        (decodeType ty).isSome := by
  obtain ⟨size, hsize⟩ := Option.isSome_iff_exists.mp (isSome_decodeSize sz hsz)
  rw [hsize]
  cases decodeType ty with
  | none => exact Iff.rfl
  | some res => exact Iff.rfl

/-- **A word outside the table** is decoded exactly when it is one of the stray ones. -/
theorem isSome_loongDecode_iff {word : BitVec 32}
    (hlisted : ∀ r ∈ listedEncodings, ¬ r.Matches word) :
    (loongDecode word.toNat).isSome ↔ Stray word := by
  have hlt := word.isLt
  have h6 := extractField_leading word
  rw [loongDecode, h6, Stray]
  -- the arms in the order of the source, each by the leading bits
  by_cases himm : word.toNat / 2 ^ 26 = 0b001010
  · rw [if_pos himm, extractField_eq, extractField_eq,
      isSome_decode_iff _ (Nat.mod_lt _ (by decide))]
    constructor
    · intro htype
      by_contra hstray
      -- the four bits after the first field name a line of the table
      have hdiv : word.toNat / 2 ^ 22 % 2 ^ 4 / 2 ^ 2 = word.toNat / 2 ^ 24 % 2 ^ 2 := by omega
      obtain ⟨r, hr, hbits, hopcode⟩ := exists_listed_immediate (word.toNat / 2 ^ 22 % 2 ^ 4)
        (Nat.mod_lt _ (by decide)) (hdiv ▸ htype) (by omega)
      refine hlisted r hr ?_
      rw [Encoding.Matches, hbits, hopcode]
      omega
    · intro hstray
      rw [isSome_decodeType_iff _ (Nat.mod_lt _ (by decide))]
      omega
  -- every type of the pointers is listed, so the word would be in the table
  by_cases hptr : word.toNat / 2 ^ 26 = 0b001001
  · obtain ⟨r, hr, hbits, hopcode⟩ := exists_listed_ptr (word.toNat / 2 ^ 24 % 2 ^ 2)
      (Nat.mod_lt _ (by decide))
    refine absurd ?_ (hlisted r hr)
    rw [Encoding.Matches, hbits, hopcode]
    omega
  -- the arm takes any word whose type is not `11`
  by_cases hidx : word.toNat / 2 ^ 26 = 0b001110
  · rw [if_neg himm, if_neg hptr, if_pos hidx, extractField_eq, extractField_eq,
      isSome_decode_iff _ (Nat.mod_lt _ (by decide)),
      isSome_decodeType_iff _ (Nat.mod_lt _ (by decide))]
    omega
  -- no arm: the handler panics
  · rw [if_neg himm, if_neg hptr, if_neg hidx]
    refine iff_of_false Bool.false_ne_true ?_
    rintro (h | ⟨h, -⟩) <;> omega

/-! ## What a load leaves -/

variable {overflowChecks}

theorem shlWord_of_lt (x : BitVec 64) {n : Nat} (h : n < 64) :
    shlWord overflowChecks x n = some (x <<< n) := if_pos h

/-- The mask of some low bits. -/
theorem one_shiftLeft_sub_one {n : Nat} (h : n < 64) :
    (1 : BitVec 64) <<< n - 1 = BitVec.ofNat 64 (2 ^ n - 1) := by
  have hlt : 2 ^ n < 2 ^ 64 := Nat.pow_lt_pow_right (by decide) h
  have hpos := Nat.two_pow_pos n
  have hshift : ((1 : BitVec 64) <<< n).toNat = 2 ^ n := by
    rw [BitVec.toNat_shiftLeft, Nat.shiftLeft_eq]
    exact (congrArg (· % 2 ^ 64) (Nat.one_mul _)).trans (Nat.mod_eq_of_lt hlt)
  have hone : (1 : BitVec 64).toNat = 1 := rfl
  -- below 64 the shift is the power of two, so nothing is borrowed
  apply BitVec.eq_of_toNat_eq
  rw [BitVec.toNat_sub_of_le (by rw [BitVec.le_def, hshift, hone]; omega), hshift, hone,
    BitVec.toNat_ofNat]
  exact (Nat.mod_eq_of_lt (by omega)).symm

/-- **A trimmed value is extended with its sign.** -/
theorem signedExt_lowBytes (value : BitVec 64) {size : Nat} (hpos : 0 < size) (hlt : size < 8) :
    signedExt overflowChecks (lowBytes value size) (8 * size) =
      some ((value.setWidth (8 * size)).signExtend 64) := by
  have hsub : subWord overflowChecks (8 * size) 1 = some (8 * size - 1) := if_pos (by omega)
  have hbit : (1 : BitVec 64) <<< (8 * size - 1) = BitVec.twoPow 64 (8 * size - 1) :=
    (BitVec.twoPow_eq _ _).symm
  simp only [signedExt, hsub, Option.bind_eq_bind, Option.bind_some,
    shlWord_of_lt 1 (by omega : 8 * size - 1 < 64), shlWord_of_lt 1 (by omega : 8 * size < 64),
    Option.map_some, hbit, BitVec.and_twoPow]
  -- the sign bit of the trimmed value is that of the value
  have hlast : (lowBytes value size).getLsbD (8 * size - 1) = value.getLsbD (8 * size - 1) := by
    rw [getLsbD_lowBytes, decide_eq_true (by omega), Bool.true_and]
  rw [hlast]
  have hsign := fun i (hi : i < 64) =>
    getLsbD_signExtend_setWidth value (by omega : 0 < 8 * size) hi
  cases hset : value.getLsbD (8 * size - 1) with
  -- the sign bit is set: the complement of the mask is added
  | true =>
    have hne : BitVec.twoPow 64 (8 * size - 1) ≠ 0 := by
      intro h
      have hget := congrArg (·.getLsbD (8 * size - 1)) h
      simp only [BitVec.getLsbD_twoPow, decide_eq_true (by omega : 8 * size - 1 < 64)] at hget
      simp at hget
    rw [if_pos rfl, if_pos (bne_iff_ne.mpr hne), one_shiftLeft_sub_one (by omega)]
    congr 1
    apply BitVec.eq_of_getLsbD_eq
    intro i hi
    rw [hsign i hi, hset, BitVec.getLsbD_or, getLsbD_lowBytes, BitVec.getLsbD_not,
      BitVec.getLsbD_ofNat, Nat.testBit_two_pow_sub_one, decide_eq_true hi]
    by_cases hlow : i < 8 * size
    · rw [if_pos hlow, decide_eq_true hlow]
      simp
    · rw [if_neg hlow, decide_eq_false hlow]
      rfl
  -- the sign bit is clear: the trimmed value stays, and the extension is by zeros
  | false =>
    rw [if_neg Bool.false_ne_true, if_neg (by simp)]
    congr 1
    apply BitVec.eq_of_getLsbD_eq
    intro i hi
    rw [hsign i hi, hset, getLsbD_lowBytes]
    by_cases hlow : i < 8 * size
    · rw [if_pos hlow, decide_eq_true hlow, Bool.true_and]
    · rw [if_neg hlow, decide_eq_false hlow, Bool.false_and]

/-- **A load of less than eight bytes** leaves what the architecture says. -/
theorem extended_eq (value : BitVec 64) {size : Nat} (hpos : 0 < size) (hlt : size < 8)
    (isU : Bool) :
    extended overflowChecks value size isU = some (archLoad size (!isU) true value) := by
  have hbits : wordResult overflowChecks 64 (8 * size) = some (8 * size) := if_pos (by omega)
  have htrim : value &&& BitVec.ofNat 64 (2 ^ (8 * size) - 1) = lowBytes value size := rfl
  simp only [extended, Nat.mul_comm size 8, hbits, Option.bind_eq_bind, Option.bind_some,
    shlWord_of_lt 1 (by omega : 8 * size < 64), one_shiftLeft_sub_one (by omega : 8 * size < 64),
    htrim]
  -- the mask is that of the low bytes, since the shift is below 64
  cases isU with
  | true => exact congrArg some (setWidth_eq_lowBytes value size).symm
  | false => exact signedExt_lowBytes value hpos hlt

/-- **A load of eight bytes** leaves zero: the shift of the mask takes the low bits of 64. -/
theorem extended_eight (value : BitVec 64) (isU : Bool) :
    extended overflowChecks value 8 isU = if overflowChecks then none else some 0 := by
  cases overflowChecks with
  -- the shift by 64 panics
  | true => rfl
  | false =>
    -- the shift takes 64 as 0, so the mask is `1 - 1`
    have hzero : value &&& ((1 : BitVec 64) <<< (64 % 64) - 1) = 0 := BitVec.and_zero
    have hrun : extended false value 8 isU =
        if isU then some (value &&& ((1 : BitVec 64) <<< (64 % 64) - 1))
        else signedExt false (value &&& ((1 : BitVec 64) <<< (64 % 64) - 1)) 64 := rfl
    rw [hrun, hzero]
    cases isU with
    | true => rfl
    | false => decide

/-! ## What is promised -/

/-- The register of a word that is loaded or stored. -/
def rdOf (word : BitVec 32) : BitVec 5 := word.setWidth 5

/-- The register of the address. -/
def rjOf (word : BitVec 32) : BitVec 5 := (word >>> 5).setWidth 5

/-- The offset of the pointers. -/
def si14Of (word : BitVec 32) : BitVec 14 := (word >>> 10).setWidth 14

/-- The access that a guest at an encoding asks for. -/
def Guest.request (g : Guest σ) (r : Encoding) : MMIOAccess where
  address := ⟨g.badv⟩
  size := .ofNat r.size
  isWrite := r.isWrite
  value := ⟨if r.isWrite then g.gprs.get (rdOf g.badi) else 0⟩

/-- What the handler of the region answers, and what is left of it. -/
def Guest.serve (g : Guest σ) (handlers : MMIOHandler → MMIOHandler.Run σ) (cfg : MMIOConfig)
    (r : Encoding) : Option (Except HvError Unit × MMIOAccess × σ) :=
  handlers cfg.handler
    { g.request r with address := (g.request r).address - .ofNat cfg.start } cfg.arg g.dev

/-- The guest with nothing handed to its devices yet. -/
def Guest.observed (g : Guest σ) : Guest (σ × List MMIOAccess) where
  badi := g.badi
  badv := g.badv
  pc := g.pc
  gprs := g.gprs
  dev := (g.dev, [])

/-- **The data move as the encoding says**: the device is handed one access, of its direction and
size, and of its register for a store; a load leaves the value that is answered, extended, in its
register and nothing else; and the guest goes on after the word. -/
structure Moves (r : Encoding) (g : Guest σ) (g' : Guest (σ × List MMIOAccess))
    (value : BitVec 64) : Prop where
  access : ∃ mmio, g'.dev.2 = [mmio] ∧ mmio.isWrite = r.isWrite ∧ mmio.bytes = r.size ∧
    (r.isWrite = true → mmio.value.toBitVec = g.gprs.get (rdOf g.badi))
  gprs : g'.gprs = if r.isWrite then g.gprs
    else g.gprs.set (rdOf g.badi) (archLoad r.size (!r.isU) true value)
  pc : g'.pc = g.pc + 4

variable (overflowChecks) in
/-- A load has less than eight bytes, or there are no checks of overflows and it goes to register 0
or is answered with zero; and with checks the address of a pointer and that of the next word do not
overflow. -/
structure Clean (r : Encoding) (g : Guest σ) (value : BitVec 64) : Prop where
  load : r.isWrite = true ∨ r.size ≠ 8 ∨
    overflowChecks = false ∧ (rdOf g.badi = 0 ∨ value = 0)
  ptr : overflowChecks = true → r.bits = 8 →
    (g.gprs.get (rjOf g.badi)).toNat + (si14Of g.badi).toNat < 2 ^ 64
  pc : overflowChecks = true → g.pc.toNat + 4 < 2 ^ 64

/-! ## The registers -/

theorem Gprs.get_eq (gprs : Gprs) (r : BitVec 5) : gprs.x[r.toNat]? = some (gprs.get r) :=
  Vector.getElem?_eq_getElem r.isLt

theorem Gprs.ext {gprs gprs' : Gprs}
    (h : ∀ i (hi : i < 32), gprs.x[i] = gprs'.x[i]) : gprs = gprs' := by
  obtain ⟨x, zero⟩ := gprs
  obtain ⟨x', zero'⟩ := gprs'
  obtain rfl : x = x' := Vector.ext h
  rfl

theorem Gprs.getElem_restore (x : Vector (BitVec 64) 32) {i : Nat} (hi : i < 32) :
    (Gprs.restore x).x[i] = if i = 0 then 0 else x[i] := by
  simp only [restore, Vector.getElem_set, eq_comm]

theorem Gprs.getElem_set (gprs : Gprs) (r : BitVec 5) (value : BitVec 64) {i : Nat} (hi : i < 32) :
    (gprs.set r value).x[i] = if i ≠ 0 ∧ i = r.toNat then value else gprs.x[i] := by
  rw [set]
  split
  · next hr =>
    subst hr
    rw [if_neg fun h => h.1 h.2]
  · next hr =>
    have hne : r.toNat ≠ 0 := fun h => hr (BitVec.eq_of_toNat_eq h)
    rw [Vector.getElem_set]
    by_cases hi' : r.toNat = i
    · rw [if_pos hi', if_pos ⟨hi' ▸ hne, hi'.symm⟩]
    · rw [if_neg hi', if_neg fun h => hi' h.2.symm]

/-- The registers that were saved are restored. -/
theorem Gprs.restore_self (gprs : Gprs) : Gprs.restore gprs.x = gprs := by
  apply Gprs.ext
  intro i hi
  rw [getElem_restore]
  split
  · next hi' =>
    subst hi'
    exact gprs.zero.symm
  · rfl

/-- A register of the context that is written is one of the guest, but for register 0. -/
theorem Gprs.restore_set (gprs : Gprs) (r : BitVec 5) (value : BitVec 64) :
    Gprs.restore (gprs.x.setIfInBounds r.toNat value) = gprs.set r value := by
  apply Gprs.ext
  intro i hi
  rw [getElem_restore, getElem_set, Vector.getElem_setIfInBounds]
  -- register 0 is loaded as zero on the way back, whatever was written
  by_cases hi' : i = 0
  · subst hi'
    rw [if_pos rfl, if_neg fun h => h.1 rfl, gprs.zero]
  · rw [if_neg hi']
    by_cases hr : r.toNat = i
    · rw [if_pos hr, if_pos ⟨hi', hr.symm⟩]
    · rw [if_neg hr, if_neg fun h => hr h.2.symm]

theorem Gprs.get_set_self (gprs : Gprs) {r : BitVec 5} (hr : r ≠ 0) (value : BitVec 64) :
    (gprs.set r value).get r = value := by
  have hne : r.toNat ≠ 0 := fun h => hr (BitVec.eq_of_toNat_eq h)
  rw [get, getElem_set, if_pos ⟨hne, rfl⟩]

/-- Two values are written alike to register 0 only. -/
theorem Gprs.set_inj (gprs : Gprs) (r : BitVec 5) (v w : BitVec 64) :
    gprs.set r v = gprs.set r w ↔ r = 0 ∨ v = w := by
  constructor
  · intro h
    by_cases hr : r = 0
    · exact .inl hr
    · have hget := congrArg (·.get r) h
      simp only [get_set_self gprs hr] at hget
      exact .inr hget
  · rintro (rfl | rfl)
    · rfl
    · rfl

/-! ## The run of a trap -/

variable {handlers : MMIOHandler → MMIOHandler.Run σ} {regions : List MMIOConfig} {cfg : MMIOConfig}
  {r : Encoding} {g : Guest σ} {mmio' : MMIOAccess} {dev' : σ}

theorem extractField_rd (word : BitVec 32) : extractField word.toNat 0 5 = (rdOf word).toNat := by
  rw [extractField_eq, pow_zero, Nat.div_one, rdOf, BitVec.toNat_setWidth]

theorem extractField_rj (word : BitVec 32) : extractField word.toNat 5 5 = (rjOf word).toNat := by
  rw [extractField_eq, rjOf, BitVec.toNat_setWidth, BitVec.toNat_ushiftRight,
    Nat.shiftRight_eq_div_pow]

theorem extractField_si14 (word : BitVec 32) :
    extractField word.toNat 10 14 = (si14Of word).toNat := by
  rw [extractField_eq, si14Of, BitVec.toNat_setWidth, BitVec.toNat_ushiftRight,
    Nat.shiftRight_eq_div_pow]

/-- The address of a pointer is computed, and may overflow. -/
theorem isSome_memAddr_iff (hr : r ∈ listedEncodings) (hmatch : r.Matches g.badi) :
    (memAddr overflowChecks g.save).isSome ↔ (overflowChecks = true → r.bits = 8 →
      (g.gprs.get (rjOf g.badi)).toNat + (si14Of g.badi).toNat < 2 ^ 64) := by
  have hleading : extractField g.save.badi.toNat 26 6 = _ := leading_listed hr hmatch
  have hbase : g.save.x[extractField g.save.badi.toNat 5 5]? = some (g.gprs.get (rjOf g.badi)) := by
    rw [← Gprs.get_eq, ← extractField_rj]
    rfl
  have hoffset : extractField g.save.badi.toNat 10 14 = (si14Of g.badi).toNat :=
    extractField_si14 g.badi
  rw [memAddr, hbase, hoffset, hleading]
  -- only the pointers come to the sum
  by_cases hbits : r.bits = 8
  · rw [hbits, if_pos rfl]
    exact isSome_wordResult_iff.trans ⟨fun h hc _ => h hc, fun h hc => h hc rfl⟩
  · rw [if_neg]
    · exact iff_of_true rfl fun _ h => absurd h hbits
    · rw [if_neg hbits]
      split <;> decide

/-- The access of a listed encoding. -/
theorem trapAccess_listed (hr : r ∈ listedEncodings) (hmatch : r.Matches g.badi) :
    trapAccess overflowChecks g.save =
      (memAddr overflowChecks g.save).map fun _ => (g.request r, r.isU) := by
  have hdecode : loongDecode g.save.badi.toNat = some (r.isWrite, r.isU, r.size) :=
    loongDecode_listed hr hmatch
  have hvalue : (if r.isWrite then g.save.x[extractField g.save.badi.toNat 0 5]? else some 0) =
      some (if r.isWrite then g.gprs.get (rdOf g.badi) else 0) := by
    cases r.isWrite with
    | true =>
      rw [if_pos rfl, if_pos rfl, ← Gprs.get_eq, ← extractField_rd]
      rfl
    | false => rfl
  simp only [trapAccess, hdecode, hvalue, Option.bind_eq_bind, Option.bind_some]
  cases memAddr overflowChecks g.save with
  | none => rfl
  | some addr => rfl

variable (overflowChecks) in
/-- The registers of the guest after the instruction, when the device answers `value`. -/
def Guest.finish (g : Guest σ) (r : Encoding) (value : BitVec 64) : Option Gprs :=
  if r.isWrite then some g.gprs
  else (extended overflowChecks value r.size r.isU).map (g.gprs.set (rdOf g.badi))

theorem bytes_request (hr : r ∈ listedEncodings) (g : Guest σ) : (g.request r).bytes = r.size := by
  have hsizes : ∀ r ∈ listedEncodings, (UInt64.ofNat r.size).toNat = r.size := by decide
  exact hsizes r hr

theorem finish_listed (hr : r ∈ listedEncodings) (hsize : mmio'.size = (g.request r).size) :
    (finish overflowChecks g.save r.isWrite r.isU mmio').map Gprs.restore =
      g.finish overflowChecks r mmio'.value.toBitVec := by
  have hbytes : mmio'.bytes = r.size := by
    rw [MMIOAccess.bytes, hsize]
    exact bytes_request hr g
  have hrd : extractField g.save.badi.toNat 0 5 = (rdOf g.badi).toNat := extractField_rd g.badi
  rw [finish, Guest.finish, hbytes, hrd]
  -- a store leaves the context as it was saved; a load writes one register of it
  cases r.isWrite with
  | true => exact congrArg some g.gprs.restore_self
  | false =>
    rw [if_neg Bool.false_ne_true, if_neg Bool.false_ne_true, Option.map_map]
    congr 1
    funext value
    exact g.gprs.restore_set (rdOf g.badi) value

/-- **The run of a trap** at a listed encoding. -/
theorem guestTrap_eq (hr : r ∈ listedEncodings) (hmatch : r.Matches g.badi)
    (hfind : findMmioRegion overflowChecks regions (g.request r).addr (g.request r).bytes =
      some (some cfg))
    (hdev : g.serve handlers cfg r = some (.ok (), mmio', dev'))
    (hsize : mmio'.size = (g.request r).size) :
    guestTrap overflowChecks handlers regions g =
      (memAddr overflowChecks g.save).bind fun _ =>
        (g.finish overflowChecks r mmio'.value.toBitVec).bind fun gprs =>
          (wordResult overflowChecks 64 (g.pc.toNat + 4)).map fun pc =>
            { g with pc := .ofNat 64 pc, gprs, dev := dev' } := by
  have haccess : mmioHandleAccess overflowChecks handlers regions (g.request r) g.save.dev =
      some (.ok (), mmio', dev') := (mmioHandleAccess_eq hfind).trans hdev
  have hwrite : (g.request r).isWrite = r.isWrite := rfl
  rw [← finish_listed hr hsize, guestTrap, handleException, trapAccess_listed hr hmatch]
  -- what may fail, in the order of the handler: the address, the extension, the next word
  cases memAddr overflowChecks g.save with
  | none => rfl
  | some addr =>
    simp only [Option.map_some, Option.bind_eq_bind, Option.bind_some, haccess, hwrite]
    cases finish overflowChecks g.save r.isWrite r.isU mmio' with
    | none => rfl
    | some x =>
      have hpc : g.save.sepc = g.pc := rfl
      rw [hpc]
      cases wordResult overflowChecks 64 (g.pc.toNat + 4) with
      | none => rfl
      | some pc => rfl

/-- Eight bytes are the whole register. -/
theorem archLoad_eight (signed : Bool) (value : BitVec 64) :
    archLoad 8 signed true value = value := by
  cases signed with
  | true => exact (BitVec.signExtend_eq _).trans (BitVec.setWidth_eq value)
  | false => exact (BitVec.setWidth_eq _).trans (BitVec.setWidth_eq value)

/-- The registers are what the encoding says exactly when the value is extended as it says. -/
theorem finish_eq_iff (overflowChecks : Bool) (g : Guest σ) (hr : r ∈ listedEncodings)
    (value : BitVec 64) :
    g.finish overflowChecks r value = some (if r.isWrite then g.gprs
        else g.gprs.set (rdOf g.badi) (archLoad r.size (!r.isU) true value)) ↔
      r.isWrite = true ∨ r.size ≠ 8 ∨
        overflowChecks = false ∧ (rdOf g.badi = 0 ∨ value = 0) := by
  have hsizes : ∀ r ∈ listedEncodings, 0 < r.size ∧ r.size ≤ 8 := by decide
  obtain ⟨hpos, hle⟩ := hsizes r hr
  rw [Guest.finish]
  cases r.isWrite with
  | true => exact iff_of_true rfl (.inl rfl)
  | false =>
    rw [if_neg Bool.false_ne_true, if_neg Bool.false_ne_true]
    -- only eight bytes go wrong, and then nothing but zero is left
    by_cases hsize : r.size = 8
    · rw [hsize, extended_eight, archLoad_eight]
      cases overflowChecks with
      | true => exact iff_of_false nofun (by simp)
      | false =>
        rw [if_neg Bool.false_ne_true, Option.map_some, Option.some.injEq, Gprs.set_inj,
          eq_comm (b := value)]
        simp
    · rw [extended_eq value hpos (by omega)]
      exact iff_of_true rfl (.inr (.inl hsize))

/-- **When the data of a listed encoding move as it says**: exactly when it is clean. -/
theorem moves_iff (hr : r ∈ listedEncodings) (hmatch : r.Matches g.badi)
    (hfind : findMmioRegion overflowChecks regions (g.request r).addr (g.request r).bytes =
      some (some cfg))
    (hdev : g.serve handlers cfg r = some (.ok (), mmio', dev'))
    (hsize : mmio'.size = (g.request r).size) :
    (∃ g' ∈ guestTrap overflowChecks (logged handlers) regions g.observed,
      Moves r g g' mmio'.value.toBitVec) ↔ Clean overflowChecks r g mmio'.value.toBitVec := by
  have hlogged : g.observed.serve (logged handlers) cfg r = _ := logged_eq_some hdev
  have hrun : guestTrap overflowChecks (logged handlers) regions g.observed = _ :=
    guestTrap_eq hr hmatch hfind hlogged hsize
  have haddr : (memAddr overflowChecks g.observed.save).isSome ↔ _ := isSome_memAddr_iff hr hmatch
  have hgprs := finish_eq_iff overflowChecks g hr mmio'.value.toBitVec
  rw [hrun]
  -- the run is the address, the registers and the next word; each has its condition
  constructor
  · rintro ⟨g', hg', hmoves⟩
    obtain ⟨addr, ha, hg'⟩ := Option.bind_eq_some_iff.mp hg'
    obtain ⟨gprs, hfinish, hg'⟩ := Option.bind_eq_some_iff.mp hg'
    obtain ⟨pc, hpc, rfl⟩ := Option.map_eq_some_iff.mp hg'
    refine ⟨hgprs.mp ?_, haddr.mp (Option.isSome_iff_exists.mpr ⟨addr, ha⟩), ?_⟩
    · rw [← hmoves.gprs]
      exact hfinish
    · exact isSome_wordResult_iff.mp (Option.isSome_iff_exists.mpr ⟨pc, hpc⟩)
  · intro hclean
    obtain ⟨addr, ha⟩ := Option.isSome_iff_exists.mp (haddr.mpr hclean.ptr)
    obtain ⟨pc, hpc⟩ := Option.isSome_iff_exists.mp (isSome_wordResult_iff.mpr hclean.pc)
    have hfinish : g.observed.finish overflowChecks r mmio'.value.toBitVec = _ :=
      hgprs.mpr hclean.load
    have hpc' : wordResult overflowChecks 64 (g.observed.pc.toNat + 4) = some pc := hpc
    rw [ha, Option.bind_some, hfinish, Option.bind_some, hpc', Option.map_some]
    refine ⟨_, rfl, ⟨_, rfl, rfl, ?_, ?_⟩, rfl, ofNat_wordResult hpc⟩
    · exact bytes_request hr g
    · intro hwrite
      exact if_pos hwrite

/-- **A word outside the table** has an access exactly when it is one of the stray ones. -/
theorem isSome_trapAccess_iff (hlisted : ∀ r ∈ listedEncodings, ¬ r.Matches g.badi) :
    (trapAccess overflowChecks g.save).isSome ↔ Stray g.badi := by
  rw [← isSome_loongDecode_iff hlisted]
  -- a word with the leading bits of the pointers would be listed
  have hleading : extractField g.save.badi.toNat 26 6 ≠ 0b001001 := by
    intro h6
    obtain ⟨r, hr, hbits, hopcode⟩ := exists_listed_ptr (g.badi.toNat / 2 ^ 24 % 2 ^ 2)
      (Nat.mod_lt _ (by decide))
    refine hlisted r hr ?_
    have hdiv : g.badi.toNat / 2 ^ 26 = 0b001001 := (extractField_leading g.badi).symm.trans h6
    rw [Encoding.Matches, hbits, hopcode]
    omega
  -- a register of the context is always there, so the decoder decides
  have hvalue : ∀ isWrite : Bool,
      (if isWrite then g.save.x[extractField g.save.badi.toNat 0 5]? else some 0).isSome := by
    intro isWrite
    cases isWrite with
    | true =>
      have hrd : extractField g.save.badi.toNat 0 5 = (rdOf g.badi).toNat := extractField_rd g.badi
      rw [if_pos rfl, hrd]
      exact Option.isSome_iff_exists.mpr ⟨_, g.gprs.get_eq (rdOf g.badi)⟩
    | false => rfl
  rw [trapAccess, memAddr, if_neg hleading]
  show _ ↔ (loongDecode g.save.badi.toNat).isSome = true
  cases loongDecode g.save.badi.toNat with
  | none => exact Iff.rfl
  | some res =>
    refine iff_of_true ?_ rfl
    simpa only [Option.bind_eq_bind, Option.bind_some, Option.isSome_bind, Option.pure_def,
      Option.isSome_some, Option.any_true] using hvalue res.1

/-- **The emulation of loads and stores.** Every listed word is decoded as its encoding, and for all
registers and every answer of a device the trap moves its data as the encoding says exactly when it
is clean; a word outside the table has no access exactly when it is not one of the stray ones. -/
theorem emulation_iff (overflowChecks : Bool) (g : Guest σ) :
    (∀ r ∈ listedEncodings, r.Matches g.badi →
      loongDecode g.badi.toNat = some (r.isWrite, r.isU, r.size) ∧
      ∀ (handlers : MMIOHandler → MMIOHandler.Run σ) (regions : List MMIOConfig)
        (cfg : MMIOConfig) (mmio' : MMIOAccess) (dev' : σ),
        findMmioRegion overflowChecks regions (g.request r).addr (g.request r).bytes =
          some (some cfg) →
        g.serve handlers cfg r = some (.ok (), mmio', dev') →
        mmio'.size = (g.request r).size →
        ((∃ g' ∈ guestTrap overflowChecks (logged handlers) regions g.observed,
          Moves r g g' mmio'.value.toBitVec) ↔ Clean overflowChecks r g mmio'.value.toBitVec)) ∧
    ((∀ r ∈ listedEncodings, ¬ r.Matches g.badi) →
      (trapAccess overflowChecks g.save = none ↔ ¬ Stray g.badi)) := by
  refine ⟨?_, ?_⟩
  · intro r hr hmatch
    refine ⟨loongDecode_listed hr hmatch, ?_⟩
    intro handlers regions cfg mmio' dev' hfind hdev hsize
    exact moves_iff hr hmatch hfind hdev hsize
  · intro hlisted
    rw [← isSome_trapAccess_iff hlisted, Option.not_isSome_iff_eq_none]

/-- A guest at a word that names register 4, and whose address is of the device at `0xa000000`. -/
def guestAt (word : BitVec 32) : Guest Unit where
  badi := word
  badv := 0xa000008
  pc := 0x9000000000200000
  gprs := .restore (Vector.replicate 32 0)
  dev := ()

/-- `ld.b` -/
def ldB : Encoding := ⟨10, 0b0010100000, false, false, 1⟩
/-- `ld.d` -/
def ldD : Encoding := ⟨10, 0b0010100011, false, false, 8⟩

/-- The sign of a byte is extended. -/
theorem emulation_iff_ldB : ∃ g',
    g' ∈ guestTrap true (logged (answering 0x80)) [dabtRegion] (guestAt 0x280000a4).observed ∧
    g'.gprs.get 4 = 0xffffffffffffff80 ∧ Moves ldB (guestAt 0x280000a4) g' 0x80 := by
  have hfind : findMmioRegion true [dabtRegion] ((guestAt 0x280000a4).request ldB).addr
      ((guestAt 0x280000a4).request ldB).bytes = some (some dabtRegion) := by decide
  have hdev : (guestAt 0x280000a4).serve (answering 0x80) dabtRegion ldB =
      some (.ok (), ⟨8, 1, false, ⟨0x80⟩⟩, ()) := by decide
  have hclean : Clean true ldB (guestAt 0x280000a4) 0x80 :=
    ⟨.inr (.inl (by decide)), fun _ h => absurd h (by decide), fun _ => by decide⟩
  obtain ⟨g', hg', hmoves⟩ := ((((emulation_iff true (guestAt 0x280000a4)).1 ldB (by decide)
    (by decide)).2 _ _ _ _ _ hfind hdev rfl).mpr hclean)
  refine ⟨g', hg', ?_, hmoves⟩
  rw [hmoves.gprs]
  decide

/-- A load of eight bytes leaves zero in its register, or panics where overflows are checked; and
`amswap.w`, which is not listed, is emulated as a load of one byte. -/
theorem not_emulation :
    ((∃ g', guestTrap false (logged (answering 5)) [dabtRegion] (guestAt 0x28c000a4).observed =
        some g' ∧ g'.gprs.get 4 = 0 ∧ ¬ Moves ldD (guestAt 0x28c000a4) g' 5) ∧
      guestTrap true (logged (answering 5)) [dabtRegion] (guestAt 0x28c000a4).observed = none) ∧
    (∀ r ∈ listedEncodings, ¬ r.Matches 0x386018a4) ∧
    ∃ g', guestTrap true (logged (answering 5)) [dabtRegion] (guestAt 0x386018a4).observed =
        some g' ∧ g'.dev.2 = [⟨8, 1, false, 0⟩] ∧ g'.gprs.get 4 = 5 := by
  refine ⟨⟨⟨_, rfl, by decide, fun h => ?_⟩, by decide⟩, by decide, _, rfl, by decide, by decide⟩
  have hget := congrArg (·.get 4) h.gprs
  revert hget
  decide

end Loong

end Hvisor
