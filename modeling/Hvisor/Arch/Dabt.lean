import Hvisor.Zone.Mmio

/-!
# Data aborts of a guest

`handle_dabt` of aarch64, from `arch/aarch64/trap.rs`: it decodes the syndrome of a load or a store
that the guest has no memory for, hands an access to the device, and writes the destination of a
load. The value of a store goes to the device with all its bits, that of a load that does not extend
a sign comes from there with all its bits, and a sign is extended to 40 or to 48 bits.

## Main definitions

* `isWrite`, `srt`, `sse`, `sas`: the fields of the syndrome
* `DabtMachine`, `handleDabt`: the registers, and the handler
* `archLoad`, `xreg`, `setXreg`: what the architecture says of a load and of the registers
* `DabtMoves`: the data move as the architecture says
* `DabtClean`: the condition

## Main results

* `loaded_eq_iff`: when a register is loaded as the architecture says
* `dabtMoves_iff`: when the data move as the architecture says
* `dabt_genericHandler`: they do for a device behind `mmio_generic_handler`, but for signs
-/

namespace Hvisor

/-! ## The syndrome -/

/-- The field ISS of `ESR_EL2`. -/
def issOf (esr : BitVec 64) : BitVec 64 := esr &&& 0x1ffffff

/-- The access is a store. -/
def isWrite (iss : BitVec 64) : Bool := iss >>> 6 &&& 1 != 0

/-- The register of the instruction; 31 is `xzr`. -/
def srt (iss : BitVec 64) : Nat := (iss >>> 16 &&& 0x1f).toNat

/-- The load extends the sign. -/
def sse (iss : BitVec 64) : Bool := iss >>> 21 &&& 1 != 0

/-- The size of the access, as the syndrome encodes it. -/
def sas (iss : BitVec 64) : Nat := (iss >>> 22 &&& 3).toNat

/-- The size of the access in bytes. -/
def accessSize (iss : BitVec 64) : Nat := 1 <<< sas iss

/-! ## The handler -/

/-- The registers of the trap, those of the guest, and the zone: whether it is the root zone and has
an error, and the devices. -/
structure DabtMachine (σ : Type) where
  esr : BitVec 64
  hpfar : BitVec 64
  far : BitVec 64
  elr : BitVec 64
  usr : Vector (BitVec 64) 31
  isRoot : Bool
  isErr : Bool
  dev : σ

variable (overflowChecks : Bool) {σ : Type}

namespace DabtMachine

/-- The syndrome of the machine. -/
def iss (m : DabtMachine σ) : BitVec 64 := issOf m.esr

/-- The address of the page, with the offset in it. -/
def address (m : DabtMachine σ) : BitVec 64 := m.far &&& 0xfff ||| m.hpfar <<< 8

end DabtMachine

/-- The access that is handed to the device. -/
def dabtAccess (m : DabtMachine σ) : Option MMIOAccess := do
  let value ← if srt m.iss = 31 then some 0 else m.usr[srt m.iss]?
  return { address := ⟨m.address⟩, size := .ofNat (accessSize m.iss), isWrite := isWrite m.iss,
           value := ⟨value⟩ }

/-- The difference of two words. -/
def subWord (a b : Nat) : Option Nat :=
  if b ≤ a then some (a - b) else if overflowChecks then none else some (wrappingSub a b)

/-- The value of a load that extends the sign: shifted up in a word of 32 bits, widened with its
sign, and shifted down. A shift takes the low bits of its amount. -/
def extendValue (value : BitVec 64) (size : Nat) : Option (BitVec 64) :=
  (subWord overflowChecks 32 (8 * size)).map fun shift =>
    ((value <<< (shift % 64)).setWidth 32).signExtend 64 >>> (shift % 64)

/-- `arch_skip_instruction`: the instruction has two bytes or four. -/
def archSkipInstruction (m : DabtMachine σ) : Option (DabtMachine σ) :=
  let ins := if m.esr.getLsbD 25 then 4 else 2
  (wordResult overflowChecks 64 (m.elr.toNat + ins)).map fun pc => { m with elr := .ofNat 64 pc }

/-- `zone_error`: the zone is marked; the root zone panics. -/
def zoneError (m : DabtMachine σ) : Option (DabtMachine σ) :=
  if m.isRoot then none else some { m with isErr := true }

/-- The destination of a load that was handled. -/
def finishLoad (m : DabtMachine σ) (value : BitVec 64) : Option (DabtMachine σ) :=
  if !isWrite m.iss && srt m.iss != 31 then do
    let value ←
      if sse m.iss then extendValue overflowChecks value (accessSize m.iss) else some value
    return { m with usr := m.usr.setIfInBounds (srt m.iss) value }
  else some m

/-- `handle_dabt`: the access is handled, and its result goes to the register. -/
def handleDabt (handlers : MMIOHandler → MMIOHandler.Run σ) (regions : List MMIOConfig)
    (m : DabtMachine σ) : Option (DabtMachine σ) := do
  let mmio ← dabtAccess m
  let (res, mmio, dev) ← mmioHandleAccess overflowChecks handlers regions mmio m.dev
  let m := { m with dev }
  let m ← match res with
    | .ok () => finishLoad overflowChecks m mmio.value.toBitVec
    | .error _ => zoneError m
  archSkipInstruction overflowChecks m

/-! ## The architecture -/

/-- A register of the guest; register 31 is zero. -/
def xreg (usr : Vector (BitVec 64) 31) (n : Nat) : BitVec 64 := usr[n]?.getD 0

/-- Write a register; register 31 stays zero. -/
def setXreg (usr : Vector (BitVec 64) 31) (n : Nat) (value : BitVec 64) : Vector (BitVec 64) 31 :=
  usr.setIfInBounds n value

/-- The field SF: the destination has 64 bits, or 32, and the rest of it is zero. -/
def sixtyFour (iss : BitVec 64) : Bool := iss.getLsbD 15

/-- What a load of `size` bytes leaves in its destination. -/
def archLoad (size : Nat) (sse sf : Bool) (value : BitVec 64) : BitVec 64 :=
  let data := value.setWidth (8 * size)
  if sse then if sf then data.signExtend 64 else (data.signExtend 32).setWidth 64
  else data.setWidth 64

/-- The syndrome describes an instruction: a sign is extended into a greater register only. -/
structure ValidSyndrome (iss : BitVec 64) : Prop where
  isv : iss.getLsbD 24 = true
  sign : isWrite iss = false → sse iss = true →
    8 * accessSize iss < if sixtyFour iss then 64 else 32

/-! ## What is promised -/

/-- The access that the device is handed, with its address. -/
def DabtMachine.request (m : DabtMachine σ) : MMIOAccess where
  address := ⟨m.address⟩
  size := .ofNat (accessSize m.iss)
  isWrite := isWrite m.iss
  value := ⟨xreg m.usr (srt m.iss)⟩

/-- The devices with what each call of a handler is given. -/
def logged (handlers : MMIOHandler → MMIOHandler.Run σ) :
    MMIOHandler → MMIOHandler.Run (σ × List MMIOAccess) :=
  fun handler mmio arg s => (handlers handler mmio arg s.1).map fun (res, mmio', dev) =>
    (res, mmio', dev, s.2 ++ [mmio])

/-- A call that a handler answers is logged. -/
theorem logged_eq_some {handlers : MMIOHandler → MMIOHandler.Run σ} {handler : MMIOHandler}
    {mmio mmio' : MMIOAccess} {arg : Nat} {dev dev' : σ} {res : Except HvError Unit}
    (h : handlers handler mmio arg dev = some (res, mmio', dev')) :
    logged handlers handler mmio arg (dev, []) = some (res, mmio', dev', [mmio]) := by
  rw [logged, h]
  rfl

/-- The machine, with a log of the accesses that its devices see. -/
def DabtMachine.observed (m : DabtMachine σ) : DabtMachine (σ × List MMIOAccess) where
  esr := m.esr
  hpfar := m.hpfar
  far := m.far
  elr := m.elr
  usr := m.usr
  isRoot := m.isRoot
  isErr := m.isErr
  dev := (m.dev, [])

/-- **The data move as the architecture says**: a load whose device answers `value` leaves what the
architecture says in its destination, and nothing else; the device of a store is handed the low
bytes of the source, once. -/
structure DabtMoves (m : DabtMachine σ) (m' : DabtMachine (σ × List MMIOAccess))
    (value : BitVec 64) : Prop where
  load : isWrite m.iss = false → m'.usr = setXreg m.usr (srt m.iss)
    (archLoad (accessSize m.iss) (sse m.iss) (sixtyFour m.iss) value)
  store : isWrite m.iss = true → m'.usr = m.usr ∧ ∃ mmio, m'.dev.2 = [mmio] ∧
    mmio.value.toBitVec = lowBytes (xreg m.usr (srt m.iss)) (accessSize m.iss)

/-- The source of a store has no bits but those of the access. A load goes to `xzr`, extends the
sign of a word or of a value with a clear sign, or extends none and is answered with no bits but
those of the access. -/
def DabtClean (m : DabtMachine σ) (value : BitVec 64) : Prop :=
  if isWrite m.iss then (xreg m.usr (srt m.iss)).toNat < 2 ^ (8 * accessSize m.iss)
  else srt m.iss = 31 ∨
    if sse m.iss then
      accessSize m.iss = 4 ∨ value.getLsbD (8 * accessSize m.iss - 1) = false
    else value.toNat < 2 ^ (8 * accessSize m.iss)

/-! ## What a load leaves -/

variable {overflowChecks}

/-- The address of the next instruction, if it is computed. -/
theorem ofNat_wordResult {pc : BitVec 64} {n res : Nat}
    (h : wordResult overflowChecks 64 (pc.toNat + n) = some res) :
    BitVec.ofNat 64 res = pc + .ofNat 64 n := by
  apply BitVec.eq_of_toNat_eq
  rw [wordResult_mod h, BitVec.toNat_add, BitVec.toNat_ofNat, BitVec.toNat_ofNat, Nat.mod_mod,
    Nat.add_mod_mod]

theorem sas_lt (iss : BitVec 64) : sas iss < 4 := by
  rw [sas, BitVec.toNat_and]
  exact Nat.lt_succ_of_le Nat.and_le_right

theorem srt_lt (iss : BitVec 64) : srt iss < 32 := by
  rw [srt, BitVec.toNat_and]
  exact Nat.lt_succ_of_le Nat.and_le_right

/-- The sizes of an access. -/
theorem accessSize_cases (iss : BitVec 64) :
    accessSize iss = 1 ∨ accessSize iss = 2 ∨ accessSize iss = 4 ∨ accessSize iss = 8 := by
  have hlt := sas_lt iss
  obtain h | h | h | h : sas iss = 0 ∨ sas iss = 1 ∨ sas iss = 2 ∨ sas iss = 3 := by omega
  all_goals
    rw [accessSize, h]
    decide

/-- The bits of the value that the handler leaves. -/
theorem getLsbD_shifted (v : BitVec 64) {n : Nat} (hn : n < 32) (i : Nat) :
    (((v <<< n).setWidth 32).signExtend 64 >>> n).getLsbD i =
      (decide (n + i < 64) && if n + i < 32 then v.getLsbD i else v.getLsbD (31 - n)) := by
  rw [BitVec.getLsbD_ushiftRight, BitVec.getLsbD_signExtend, BitVec.msb_eq_getLsbD_last,
    BitVec.getLsbD_setWidth, BitVec.getLsbD_setWidth, BitVec.getLsbD_shiftLeft,
    BitVec.getLsbD_shiftLeft]
  congr 1
  split
  · next hlt =>
    rw [decide_eq_true hlt, decide_eq_true (by omega : n + i < 64), decide_eq_false (by omega),
      Nat.add_sub_cancel_left]
    rfl
  · rw [decide_eq_false (by omega : ¬ 32 - 1 < n)]
    rfl

/-- The bits of a value whose sign is extended to 64 bits. -/
theorem getLsbD_signExtend_setWidth (v : BitVec 64) {w : Nat} (hw : 0 < w) {i : Nat} (hi : i < 64) :
    ((v.setWidth w).signExtend 64).getLsbD i =
      if i < w then v.getLsbD i else v.getLsbD (w - 1) := by
  rw [BitVec.getLsbD_signExtend, BitVec.msb_eq_getLsbD_last, BitVec.getLsbD_setWidth,
    BitVec.getLsbD_setWidth, decide_eq_true hi, decide_eq_true (by omega : w - 1 < w),
    Bool.true_and, Bool.true_and]
  split
  · next hlow => rw [decide_eq_true hlow, Bool.true_and]
  · rfl

/-- The bits of a value whose sign is extended to a register of `r` bits. -/
theorem getLsbD_extended (v : BitVec 64) {w r : Nat} (hw : 0 < w) (hr : w < r) (hle : r ≤ 64)
    (i : Nat) : (((v.setWidth w).signExtend r).setWidth 64).getLsbD i =
      (decide (i < r) && if i < w then v.getLsbD i else v.getLsbD (w - 1)) := by
  rw [BitVec.getLsbD_setWidth, BitVec.getLsbD_signExtend, BitVec.msb_eq_getLsbD_last,
    BitVec.getLsbD_setWidth, BitVec.getLsbD_setWidth, decide_eq_true (by omega : w - 1 < w),
    Bool.true_and]
  by_cases hi : i < r
  · rw [decide_eq_true hi, decide_eq_true (by omega : i < 64), Bool.true_and, Bool.true_and]
    split
    · next hlt => rw [decide_eq_true hlt, Bool.true_and]
    · rfl
  · rw [decide_eq_false hi]
    simp

/-- **The sign is extended** to a register when the value has 32 bits or a clear sign: otherwise
the bits that were shifted in from above are zero, and those up to there are set. -/
theorem shifted_eq_iff (v : BitVec 64) {n r : Nat} (hn : n < 32) (hr : r = 32 ∨ r = 64)
    (hlt : 32 - n < r) : ((v <<< n).setWidth 32).signExtend 64 >>> n =
      ((v.setWidth (32 - n)).signExtend r).setWidth 64 ↔ n = 0 ∨ v.getLsbD (31 - n) = false := by
  have harch := fun i => getLsbD_extended v (w := 32 - n) (r := r) (by omega) hlt (by omega) i
  have hlast : 32 - n - 1 = 31 - n := by omega
  rw [hlast] at harch
  constructor
  · intro heq
    by_contra hno
    obtain ⟨hpos, hset⟩ := not_or.mp hno
    rw [Bool.not_eq_false] at hset
    -- bit 32 tells a register of 32 bits, and bit 63 one of 64
    have hbit := fun i => (getLsbD_shifted v hn i).symm.trans
      ((congrArg (BitVec.getLsbD · i) heq).trans (harch i))
    rcases hr with rfl | rfl
    · have := hbit 32
      rw [decide_eq_true (by omega : n + 32 < 64), if_neg (by omega), hset] at this
      simp at this
    · have := hbit 63
      rw [decide_eq_false (by omega : ¬ n + 63 < 64), if_neg (by omega : ¬ 63 < 32 - n),
        hset] at this
      simp at this
  · intro h
    apply BitVec.eq_of_getLsbD_eq
    intro i hi
    rw [getLsbD_shifted v hn, harch]
    by_cases hlow : i < 32 - n
    · rw [if_pos hlow, if_pos (by omega), decide_eq_true (by omega : n + i < 64),
        decide_eq_true (by omega : i < r)]
    · rw [if_neg hlow, if_neg (by omega)]
      rcases h with rfl | hclear
      · have hr : r = 64 := by omega
        rw [decide_eq_true (by omega : 0 + i < 64), decide_eq_true (by omega : i < r)]
      · rw [hclear, Bool.and_false, Bool.and_false]

theorem setWidth_eq_lowBytes (v : BitVec 64) (size : Nat) :
    (v.setWidth (8 * size)).setWidth 64 = lowBytes v size := by
  apply BitVec.eq_of_getLsbD_eq
  intro i hi
  rw [BitVec.getLsbD_setWidth, BitVec.getLsbD_setWidth, getLsbD_lowBytes, decide_eq_true hi,
    Bool.true_and]

/-- A value is its low bytes when it has no other bits. -/
theorem eq_lowBytes_iff (v : BitVec 64) (size : Nat) :
    v = lowBytes v size ↔ v.toNat < 2 ^ (8 * size) := by
  constructor
  · intro h
    rw [h, lowBytes, BitVec.toNat_and, BitVec.toNat_ofNat]
    have hle : (2 ^ (8 * size) - 1) % 2 ^ 64 ≤ 2 ^ (8 * size) - 1 := Nat.mod_le _ _
    have hpos : 0 < 2 ^ (8 * size) := Nat.two_pow_pos _
    exact (Nat.and_le_right.trans hle).trans_lt (by omega)
  · intro h
    apply BitVec.eq_of_getLsbD_eq
    intro i hi
    rw [getLsbD_lowBytes]
    by_cases hlow : i < 8 * size
    · rw [decide_eq_true hlow, Bool.true_and]
    · rw [decide_eq_false hlow, Bool.false_and, BitVec.getLsbD]
      exact Nat.testBit_lt_two_pow (h.trans_le (Nat.pow_le_pow_right (by omega) (by omega)))

/-! ## The registers -/

variable {handlers : MMIOHandler → MMIOHandler.Run σ} {regions : List MMIOConfig} {cfg : MMIOConfig}
  {m : DabtMachine σ} {mmio' : MMIOAccess} {dev' : σ}

theorem xreg_xzr (usr : Vector (BitVec 64) 31) : xreg usr 31 = 0 := by
  rw [xreg, Vector.getElem?_eq_none (Nat.le_refl 31)]
  rfl

theorem setXreg_xzr (usr : Vector (BitVec 64) 31) (v : BitVec 64) : setXreg usr 31 v = usr :=
  Vector.setIfInBounds_eq_of_size_le (Nat.le_refl 31)

/-- Two values are written alike only if they are equal. -/
theorem setIfInBounds_inj {α : Type} {n i : Nat} (x : Vector α n) (hi : i < n) {v w : α}
    (h : x.setIfInBounds i v = x.setIfInBounds i w) : v = w := by
  have hget := congrArg (fun x : Vector α n => x[i]?) h
  simpa [Vector.getElem?_setIfInBounds, hi] using hget

/-- Two values are written alike to `xzr` only. -/
theorem setXreg_inj (usr : Vector (BitVec 64) 31) {n : Nat} (hn : n < 32) (v w : BitVec 64) :
    setXreg usr n v = setXreg usr n w ↔ n = 31 ∨ v = w := by
  constructor
  · intro h
    by_cases hn' : n < 31
    · exact .inr (setIfInBounds_inj usr hn' h)
    · exact .inl (by omega)
  · rintro (rfl | rfl)
    · rw [setXreg_xzr, setXreg_xzr]
    · rfl

theorem dabtAccess_eq (m : DabtMachine σ) : dabtAccess m = some m.request := by
  have hlt := srt_lt m.iss
  rw [dabtAccess]
  by_cases h : srt m.iss = 31
  · rw [if_pos h, DabtMachine.request, h, xreg_xzr]
    rfl
  · have hlt : srt m.iss < 31 := by omega
    rw [if_neg h, DabtMachine.request, xreg, Vector.getElem?_eq_getElem hlt]
    rfl

/-! ## The run of the handler -/

/-- The value that a load leaves in its destination. -/
def loaded (iss : BitVec 64) (value : BitVec 64) : BitVec 64 :=
  let shift := 32 - 8 * accessSize iss
  if sse iss then ((value <<< shift).setWidth 32).signExtend 64 >>> shift else value

/-- A sign is extended from a byte, a half word or a word. -/
theorem ValidSyndrome.accessSize_le (hvalid : ValidSyndrome m.iss) (hload : isWrite m.iss = false)
    (hsse : sse m.iss = true) : accessSize m.iss ≤ 4 := by
  have hlt := hvalid.sign hload hsse
  have hsizes := accessSize_cases m.iss
  split at hlt <;> omega

theorem finishLoad_eq (hvalid : ValidSyndrome m.iss) (value : BitVec 64) :
    finishLoad overflowChecks m value = some { m with
      usr := if isWrite m.iss then m.usr else setXreg m.usr (srt m.iss) (loaded m.iss value) } := by
  rw [finishLoad]
  cases hload : isWrite m.iss with
  | true => rfl
  | false =>
    by_cases hsrt : srt m.iss = 31
    · rw [hsrt, setXreg_xzr]
      rfl
    · rw [if_pos (by simp [hsrt]), loaded]
      cases hsse : sse m.iss with
      | false => rfl
      | true =>
        have hle := hvalid.accessSize_le hload hsse
        have hsub : subWord overflowChecks 32 (8 * accessSize m.iss) =
            some (32 - 8 * accessSize m.iss) := if_pos (by omega)
        simp only [if_true, extendValue, hsub, Option.map_some, Option.bind_eq_bind,
          Option.bind_some, Nat.mod_eq_of_lt (by omega : 32 - 8 * accessSize m.iss < 64)]
        rfl

/-- **What is loaded is what the architecture says** when the value is answered so. -/
theorem loaded_eq_iff (hvalid : ValidSyndrome m.iss) (hload : isWrite m.iss = false)
    (value : BitVec 64) : loaded m.iss value =
      archLoad (accessSize m.iss) (sse m.iss) (sixtyFour m.iss) value ↔
        if sse m.iss then accessSize m.iss = 4 ∨ value.getLsbD (8 * accessSize m.iss - 1) = false
        else value.toNat < 2 ^ (8 * accessSize m.iss) := by
  have hsizes := accessSize_cases m.iss
  cases hsse : sse m.iss with
  | false =>
    rw [loaded, archLoad, hsse, setWidth_eq_lowBytes]
    exact eq_lowBytes_iff value _
  | true =>
    have hlt := hvalid.sign hload hsse
    have hle := hvalid.accessSize_le hload hsse
    have hwidth : 32 - (32 - 8 * accessSize m.iss) = 8 * accessSize m.iss := by omega
    have hbit : 31 - (32 - 8 * accessSize m.iss) = 8 * accessSize m.iss - 1 := by omega
    have hzero : 32 - 8 * accessSize m.iss = 0 ↔ accessSize m.iss = 4 := by omega
    -- the shifts are over 32 bits, whatever the width of the register
    have key := fun r hr hlt => shifted_eq_iff value (n := 32 - 8 * accessSize m.iss) (r := r)
      (by omega) hr hlt
    rw [hwidth, hbit, hzero] at key
    rw [loaded, archLoad, hsse]
    cases hsf : sixtyFour m.iss with
    | true =>
      rw [hsf] at hlt
      have hwide := key 64 (.inr rfl) hlt
      rwa [BitVec.setWidth_eq] at hwide
    | false =>
      rw [hsf] at hlt
      exact key 32 (.inl rfl) hlt

/-- The handler of the region is handed the access, and its answer is loaded. -/
theorem handleDabt_eq (hvalid : ValidSyndrome m.iss)
    (hfind : findMmioRegion overflowChecks regions m.request.addr m.request.bytes =
      some (some cfg))
    (hdev : handlers cfg.handler
      { m.request with address := m.request.address - .ofNat cfg.start } cfg.arg m.dev =
        some (.ok (), mmio', dev')) :
    handleDabt overflowChecks handlers regions m = archSkipInstruction overflowChecks { m with
      usr := if isWrite m.iss then m.usr
        else setXreg m.usr (srt m.iss) (loaded m.iss mmio'.value.toBitVec)
      dev := dev' } := by
  have hrun : handleDabt overflowChecks handlers regions m =
      (finishLoad overflowChecks { m with dev := dev' } mmio'.value.toBitVec).bind
        (archSkipInstruction overflowChecks) := by
    simp only [handleDabt, dabtAccess_eq, Option.bind_eq_bind, Option.bind_some,
      mmioHandleAccess_eq hfind, hdev]
  have hvalid' : ValidSyndrome (DabtMachine.iss { m with dev := dev' }) := hvalid
  rw [hrun, finishLoad_eq hvalid', Option.bind_some]
  rfl

/-- **When the data of a data abort move as the architecture says**: for every syndrome of an
instruction, every register and every answer of the device, exactly when the source of a store or
the answer of a load has no bits but those of the access, or the sign that is extended is that of a
word or clear. The handler returns unless the address of the next instruction overflows. -/
theorem dabtMoves_iff (hvalid : ValidSyndrome m.iss)
    (hfind : findMmioRegion overflowChecks regions m.request.addr m.request.bytes =
      some (some cfg))
    (hdev : handlers cfg.handler
      { m.request with address := m.request.address - .ofNat cfg.start } cfg.arg m.dev =
        some (.ok (), mmio', dev')) :
    (handleDabt overflowChecks (logged handlers) regions m.observed).isSome =
        (archSkipInstruction overflowChecks m).isSome ∧
      ∀ m' ∈ handleDabt overflowChecks (logged handlers) regions m.observed,
        (DabtMoves m m' mmio'.value.toBitVec ↔ DabtClean m mmio'.value.toBitVec) := by
  have hlogged := logged_eq_some hdev
  have hrun := handleDabt_eq (m := m.observed) hvalid hfind hlogged
  rw [hrun]
  refine ⟨?_, ?_⟩
  · rw [archSkipInstruction, archSkipInstruction, Option.isSome_map, Option.isSome_map]
    rfl
  · intro m' hm'
    obtain ⟨pc, -, rfl⟩ := Option.map_eq_some_iff.mp hm'
    rw [DabtClean]
    cases hwrite : isWrite m.iss with
    | true =>
      -- a store hands the whole register to the device
      rw [if_pos rfl, ← eq_lowBytes_iff]
      constructor
      · intro h
        obtain ⟨-, mmio, hlog, hvalue⟩ := h.store hwrite
        obtain rfl := List.singleton_inj.mp hlog
        exact hvalue
      · intro h
        refine ⟨fun hload => ?_, fun _ => ⟨?_, _, rfl, h⟩⟩
        · rw [hwrite] at hload
          cases hload
        · exact if_pos hwrite
    | false =>
      -- a load is what the architecture says if the values are equal, or go to no register
      rw [if_neg Bool.false_ne_true, ← loaded_eq_iff hvalid hwrite, ← setXreg_inj _ (srt_lt _)]
      have husr : (if isWrite m.observed.iss then m.observed.usr else
          setXreg m.observed.usr (srt m.observed.iss)
            (loaded m.observed.iss mmio'.value.toBitVec)) =
          setXreg m.usr (srt m.iss) (loaded m.iss mmio'.value.toBitVec) := by
        rw [if_neg]
        · rfl
        · exact fun h => Bool.false_ne_true (hwrite.symm.trans h)
      constructor
      · intro h
        exact husr.symm.trans (h.load hwrite)
      · intro h
        refine ⟨fun _ => husr.trans h, fun hstore => ?_⟩
        rw [hwrite] at hstore
        cases hstore

/-- A device that answers every load with a value. -/
def answering (value : BitVec 64) : MMIOHandler → MMIOHandler.Run Unit := fun _ mmio _ s =>
  some (.ok (), if mmio.isWrite then mmio else { mmio with value := ⟨value⟩ }, s)

/-- The device is at `0xa000000`. -/
def dabtRegion : MMIOConfig := ⟨0xa000000, 0x1000, .mmio_virtio_handler, 0⟩

/-- A data abort on that device, with a value in the first register. -/
def dabtAt (esr x0 : BitVec 64) : DabtMachine Unit where
  esr := esr
  hpfar := 0xa0000
  far := 0xffff000000000004
  elr := 0x40080000
  usr := (Vector.replicate 31 0).setIfInBounds 0 x0
  isRoot := false
  isErr := false
  dev := ()

/-- `ldrsw x0` -/
def ldrsw : BitVec 64 := 0x93a08000
/-- `ldrsb x0` -/
def ldrsb : BitVec 64 := 0x93208000
/-- `ldrb w0` -/
def ldrb : BitVec 64 := 0x93000000
/-- `strb w0` -/
def strb : BitVec 64 := 0x93000040

/-- The sign of a word is extended. -/
theorem dabtMoves_iff_ldrsw : ∃ m',
    m' ∈ handleDabt true (logged (answering 0x80000000)) [dabtRegion] (dabtAt ldrsw 0).observed ∧
    m'.usr[0]? = some 0xffffffff80000000 ∧
    DabtMoves (dabtAt ldrsw 0) m' 0x80000000 := by
  have hvalid : ValidSyndrome (dabtAt ldrsw 0).iss := ⟨by decide, fun _ _ => by decide⟩
  have hfind : findMmioRegion true [dabtRegion] (dabtAt ldrsw 0).request.addr
      (dabtAt ldrsw 0).request.bytes = some (some dabtRegion) := by decide
  have hdev : answering 0x80000000 dabtRegion.handler
      { (dabtAt ldrsw 0).request with
        address := (dabtAt ldrsw 0).request.address - .ofNat dabtRegion.start } dabtRegion.arg () =
        some (.ok (), ⟨4, 4, false, ⟨0x80000000⟩⟩, ()) := by decide
  obtain ⟨hsome, hiff⟩ := dabtMoves_iff hvalid hfind hdev
  obtain ⟨m', hm'⟩ := Option.isSome_iff_exists.mp (hsome.trans (by decide))
  have hmoves := (hiff m' hm').mpr (.inr (.inl (by decide)))
  refine ⟨m', hm', ?_, hmoves⟩
  rw [hmoves.load (by decide)]
  decide

/-- A negative byte is extended to 40 bits; a load of a byte leaves all bits that the device
answers; and the device of a store of a byte is handed all bits of the register. -/
theorem not_dabtMoves :
    (∃ m', m' ∈ handleDabt true (logged (answering 0x80)) [dabtRegion] (dabtAt ldrsb 0).observed ∧
      m'.usr[0]? = some 0xffffffff80 ∧ ¬ DabtMoves (dabtAt ldrsb 0) m' 0x80) ∧
    (∃ m', m' ∈ handleDabt true (logged (answering 0x1ff)) [dabtRegion] (dabtAt ldrb 0).observed ∧
      m'.usr[0]? = some 0x1ff ∧ ¬ DabtMoves (dabtAt ldrb 0) m' 0x1ff) ∧
    ∃ m', m' ∈ handleDabt true (logged (answering 0)) [dabtRegion] (dabtAt strb 0x1234).observed ∧
      m'.dev.2.map (·.value) = [0x1234] ∧ ¬ DabtMoves (dabtAt strb 0x1234) m' 0 := by
  refine ⟨⟨_, rfl, by decide, fun h => ?_⟩, ⟨_, rfl, by decide, fun h => ?_⟩,
    ⟨_, rfl, by decide, fun h => ?_⟩⟩
  · have := h.load (by decide)
    revert this
    decide
  · have := h.load (by decide)
    revert this
    decide
  · obtain ⟨-, mmio, hlog, hvalue⟩ := h.store (by decide)
    obtain rfl := List.singleton_inj.mp hlog
    revert hvalue
    decide

/-! ## Devices that are passed through -/

/-- `mmio_generic_handler`: the access goes to the physical memory from the argument on. -/
def mmioGenericHandler (overflowChecks : Bool) : MMIOHandler.Run Device := fun mmio base bus =>
  (mmioPerformAccessAt overflowChecks base mmio bus).map fun (mmio, bus) => (.ok (), mmio, bus)

/-- What a device is read as has no bits but those of the access. -/
theorem load_lt (dev : Device) (addr : Nat) {n : Nat} (hn : n ≤ 8) :
    (dev.load addr n).toNat < 2 ^ (8 * n) := by
  rw [← eq_lowBytes_iff]
  apply BitVec.eq_of_getLsbD_eq
  intro i hi
  rw [getLsbD_lowBytes, Device.getLsbD_load dev addr hn, ← Bool.and_assoc, Bool.and_self]

theorem bytes_request (m : DabtMachine σ) : m.request.bytes = accessSize m.iss := by
  have hsizes := accessSize_cases m.iss
  exact UInt64.toNat_ofNat_of_lt' (by simp only [UInt64.size]; omega)

/-- The size of an access is one of an instruction. -/
theorem size_request (m : DabtMachine σ) : m.request.size ∈ [1, 2, 4, 8] := by
  simp only [DabtMachine.request]
  rcases accessSize_cases m.iss with h | h | h | h <;> rw [h] <;> decide

/-- An access that is passed through, to an aligned address. -/
theorem mmioGenericHandler_eq {mmio : MMIOAccess} {base addr : Nat} {bus : Device}
    (hsize : mmio.size ∈ [1, 2, 4, 8]) (haddr : addr = base + mmio.addr) (hlt : addr < 2 ^ 64)
    (hal : addr % mmio.bytes = 0) :
    mmioGenericHandler overflowChecks mmio base bus =
      if mmio.isWrite then
        some (.ok (), mmio,
          bus.store ⟨addr, mmio.bytes, lowBytes mmio.value.toBitVec mmio.bytes⟩)
      else some (.ok (), { mmio with value := ⟨bus.load addr mmio.bytes⟩ }, bus) := by
  subst haddr
  have haddr : (UInt64.ofNat (base + mmio.addr)).toNat = base + mmio.addr :=
    UInt64.toNat_ofNat_of_lt' hlt
  have halAt : mmio.AlignedAt base := fun _ => hal
  rw [mmioGenericHandler, mmioPerformAccessAt_eq hlt, if_pos halAt, Device.access]
  simp only [if_pos hsize, MMIOAccess.addr, haddr]
  obtain ⟨address, size, isWrite, value⟩ := mmio
  cases isWrite <;> rfl

/-- **Behind `mmio_generic_handler`** an aligned store writes the low bytes of its source, whatever
else is in it, and an aligned load that extends no sign leaves what the architecture says. -/
theorem dabt_genericHandler {m : DabtMachine Device} (hvalid : ValidSyndrome m.iss)
    (hfind : findMmioRegion overflowChecks regions m.request.addr m.request.bytes =
      some (some cfg))
    {addr : Nat} (haddr : addr = cfg.arg + (m.request.addr - cfg.start)) (hlt : addr < 2 ^ 64)
    (hal : addr % accessSize m.iss = 0) :
    ∃ m₁, handleDabt overflowChecks (fun _ => mmioGenericHandler overflowChecks) regions m =
        archSkipInstruction overflowChecks m₁ ∧
      (isWrite m.iss = true → m₁.usr = m.usr ∧ m₁.dev = m.dev.store
        ⟨addr, accessSize m.iss, lowBytes (xreg m.usr (srt m.iss)) (accessSize m.iss)⟩) ∧
      (isWrite m.iss = false → sse m.iss = false → m₁.dev = m.dev ∧
        m₁.usr = setXreg m.usr (srt m.iss) (archLoad (accessSize m.iss) false (sixtyFour m.iss)
          (m.dev.load addr (accessSize m.iss)))) := by
  obtain ⟨-, hstart⟩ := findMmioRegion_some hfind
  have hrel : (m.request.address - .ofNat cfg.start).toNat = m.request.addr - cfg.start :=
    toNat_sub_start hstart
  have hgeneric := @mmioGenericHandler_eq overflowChecks
    { m.request with address := m.request.address - .ofNat cfg.start } cfg.arg addr m.dev
    (size_request m) (haddr.trans (congrArg (cfg.arg + ·) hrel.symm)) hlt
    ((congrArg (addr % ·) (bytes_request m)).trans hal)
  cases hwrite : isWrite m.iss with
  | true =>
    have hdev := hgeneric.trans (if_pos hwrite)
    refine ⟨_, handleDabt_eq hvalid hfind hdev, fun _ => ⟨if_pos hwrite, ?_⟩, fun h => (by cases h)⟩
    rw [← bytes_request m]
    rfl
  | false =>
    have hdev := hgeneric.trans (if_neg fun h => Bool.false_ne_true (hwrite.symm.trans h))
    refine ⟨_, handleDabt_eq hvalid hfind hdev, fun h => (by cases h), fun _ hsse => ⟨rfl, ?_⟩⟩
    have hle : accessSize m.iss ≤ 8 := by
      have hsizes := accessSize_cases m.iss
      omega
    have hload := (loaded_eq_iff hvalid hwrite (m.dev.load addr (accessSize m.iss))).mpr
    rw [hsse] at hload
    rw [if_neg fun h => Bool.false_ne_true (hwrite.symm.trans h), ← hload (load_lt _ _ hle),
      ← bytes_request m]

end Hvisor
