import Hvisor.Irqchip.HostPlic

/-!
# The words that the start of the PLIC writes

The registers that `init_global` of `plic/plic.rs` sets to zero. The number of enable words of a
context is meant to be the number of interrupts over 32, rounded up, but `/` binds before `+` and
there is one word for each interrupt. The words behind those of the interrupts are in the same
context, and from word 32 on in the contexts that follow, up to contexts that nobody asked for.

## Main definitions

* `Plic.IsRegister`: the registers of the memory map, without what is reserved
* `Plic.InitWord`, `Plic.InitExact`: the words that are to be written, and that these are all

## Main results

* `Plic.initExact_iff`: the start is exact when the loops write no other register
* `Plic.initGlobal_exact_iff`: the numbers for which the loops write the words they are meant to
-/

namespace Hvisor

/-- The offset of the pending bits. -/
def PLIC_PENDING_OFFSET : Nat := 0x1000
/-- The offset of the registers of claims. -/
def PLIC_CLAIM_OFFSET : Nat := 0x200004

namespace Plic

/-! ## Registers -/

/-- The offset of the enable word that holds the bit of an interrupt in a context. -/
def enableWord (context irqId : Nat) : Nat :=
  PLIC_ENABLE_OFFSET + context * 0x80 + irqId / 32 * 4

/-- The offsets of the registers, by the memory map; all others are reserved. -/
inductive IsRegister : Nat → Prop
  | priority {irqId : Nat} (hpos : 0 < irqId) (hmax : irqId ≤ PLIC_MAX_IRQ) : IsRegister (irqId * 4)
  | pending {word : Nat} (hword : word < 32) : IsRegister (PLIC_PENDING_OFFSET + word * 4)
  | enable {context word : Nat} (hcontext : context < PLIC_MAX_CONTEXT) (hword : word < 32) :
    IsRegister (PLIC_ENABLE_OFFSET + context * 0x80 + word * 4)
  | threshold {context : Nat} (hcontext : context < PLIC_MAX_CONTEXT) :
    IsRegister (PLIC_THRESHOLD_OFFSET + context * 0x1000)
  | claim {context : Nat} (hcontext : context < PLIC_MAX_CONTEXT) :
    IsRegister (PLIC_CLAIM_OFFSET + context * 0x1000)

/-- The priorities of the interrupts from 1 to `numInterrupts`, and the words with their enable bits
in the contexts below `numContexts`. -/
def InitWord (numInterrupts numContexts offset : Nat) : Prop :=
  ∃ irqId, 0 < irqId ∧ irqId ≤ numInterrupts ∧
    (offset = irqId * 4 ∨ ∃ context < numContexts, offset = enableWord context irqId)

/-- The start writes zero to its words and writes no other register, whatever they hold before. -/
def InitExact (numInterrupts numContexts : Nat) : Prop :=
  ∀ p : Plic, ∃ p', p.initGlobal numInterrupts numContexts = some p' ∧ ∀ offset,
    (InitWord numInterrupts numContexts offset → p'.reg offset = 0) ∧
      (IsRegister offset → ¬ InitWord numInterrupts numContexts offset →
        p'.reg offset = p.reg offset)

/-! ## What the loops write -/

section

variable {n numContexts offset : Nat}

/-- What is to be written is written. -/
theorem initWrites_of_initWord (h : InitWord n numContexts offset) :
    InitWrites n numContexts offset := by
  obtain ⟨irqId, hpos, hle, rfl | ⟨context, hcontext, rfl⟩⟩ := h
  · exact .inl ⟨irqId, hpos, hle, rfl⟩
  · exact .inr ⟨context, hcontext, irqId / 32, by omega, rfl⟩

/-- The start is exact when the registers that it writes are its words. -/
theorem initExact_iff (hn : n ≤ PLIC_MAX_IRQ) (hc : numContexts ≤ PLIC_MAX_CONTEXT) :
    InitExact n numContexts ↔ ∀ offset, IsRegister offset → InitWrites n numContexts offset →
      InitWord n numContexts offset := by
  constructor
  · intro h offset hreg hwrites
    by_contra hword
    -- a register that holds a bit shows that it is written
    obtain ⟨p', hp, hexact⟩ := h ⟨fun _ => 1⟩
    obtain ⟨p'', hp', hloops⟩ := reg_initGlobal hn hc ⟨fun _ => 1⟩
    obtain rfl := Option.some.inj (hp.symm.trans hp')
    have hone : p'.reg offset = 1 := (hexact offset).2 hreg hword
    rw [(hloops offset).1 hwrites] at hone
    exact absurd hone (by decide)
  · intro h p
    obtain ⟨p', hp, hloops⟩ := reg_initGlobal hn hc p
    refine ⟨p', hp, fun offset => ⟨fun hword => ?_, fun hreg hword => ?_⟩⟩
    · exact (hloops offset).1 (initWrites_of_initWord hword)
    · exact (hloops offset).2 fun hwrites => hword (h offset hreg hwrites)

/-! ## The numbers that are right -/

theorem not_initWord_enable {context word : Nat} (hn : n ≤ PLIC_MAX_IRQ) (hword : word < 32)
    (h : n / 32 < word ∨ numContexts ≤ context) :
    ¬ InitWord n numContexts (PLIC_ENABLE_OFFSET + context * 0x80 + word * 4) := by
  rw [PLIC_MAX_IRQ] at hn
  rintro ⟨irqId, -, hle, heq | ⟨context', hcontext', heq⟩⟩
  · rw [PLIC_ENABLE_OFFSET] at heq
    omega
  · rw [enableWord] at heq
    omega

/-- An enable word that is written shows a start that is not exact, when it holds no bit of the
interrupts or its context is not to be started. -/
theorem not_initExact_of_enable {context word : Nat} (hn : n ≤ PLIC_MAX_IRQ)
    (hc : numContexts ≤ PLIC_MAX_CONTEXT) (hcontext : context < PLIC_MAX_CONTEXT)
    (hword : word < 32) (h : n / 32 < word ∨ numContexts ≤ context)
    (hwrites : InitWrites n numContexts (PLIC_ENABLE_OFFSET + context * 0x80 + word * 4)) :
    ¬ InitExact n numContexts := by
  rw [initExact_iff hn hc]
  intro hexact
  exact not_initWord_enable hn hword h (hexact _ (.enable hcontext hword) hwrites)

/-- All words of all contexts are to be written. -/
theorem initWord_of_enable {context word : Nat} (hn : 992 ≤ n) (hword : word < 32)
    (hcontext : context < numContexts) :
    InitWord n numContexts (PLIC_ENABLE_OFFSET + context * 0x80 + word * 4) := by
  refine ⟨max 1 (word * 32), by omega, by omega, .inr ⟨context, hcontext, ?_⟩⟩
  have hdiv : max 1 (word * 32) / 32 = word := by omega
  rw [enableWord, hdiv]

/-- **The start writes the words it is meant to write and no others** exactly when there is at most
one interrupt or no context, or when all words of all contexts are to be written. -/
theorem initGlobal_exact_iff {numInterrupts numContexts : Nat}
    (hinterrupts : numInterrupts ≤ PLIC_MAX_IRQ) (hcontexts : numContexts ≤ PLIC_MAX_CONTEXT) :
    InitExact numInterrupts numContexts ↔
      numInterrupts ≤ 1 ∨ numContexts = 0 ∨
        992 ≤ numInterrupts ∧ numContexts = PLIC_MAX_CONTEXT := by
  constructor
  · intro h
    by_contra hno
    simp only [not_or, not_and] at hno
    obtain ⟨hone, hzero, hall⟩ := hno
    have hpos : 0 < numContexts := Nat.pos_of_ne_zero hzero
    rcases Nat.lt_or_ge numInterrupts 992 with hlt | hge
    · -- a word of context 0 that holds none of the interrupts
      have hword : numInterrupts / 32 + 1 < 32 := by omega
      refine not_initExact_of_enable hinterrupts hcontexts (hpos.trans_le hcontexts) hword
        (.inl (Nat.lt_succ_self _)) (.inr ⟨0, hpos, numInterrupts / 32 + 1, ?_, rfl⟩) h
      omega
    · -- the first word of the context behind the last one
      have hlt : numContexts < PLIC_MAX_CONTEXT := lt_of_le_of_ne hcontexts (hall hge)
      refine not_initExact_of_enable hinterrupts hcontexts hlt (Nat.zero_lt_succ 31) (.inr le_rfl)
        (.inr ⟨numContexts - 1, Nat.sub_one_lt hzero, 32, ?_, ?_⟩) h
      · omega
      · omega
  · intro h
    rw [initExact_iff hinterrupts hcontexts]
    rintro offset hreg (⟨irqId, hpos, hle, rfl⟩ | ⟨context, hcontext, j, hj, hoffset⟩)
    · exact ⟨irqId, hpos, hle, .inl rfl⟩
    rcases h with hone | rfl | ⟨hge, rfl⟩
    · -- the word of the one interrupt
      obtain rfl : j = 0 := by omega
      exact ⟨1, Nat.one_pos, by omega, .inr ⟨context, hcontext, hoffset⟩⟩
    · exact absurd hcontext (Nat.not_lt_zero context)
    · -- behind the words of the last context, everything up to the thresholds is reserved
      rw [PLIC_MAX_IRQ] at hinterrupts
      rw [PLIC_ENABLE_OFFSET] at hoffset
      rw [PLIC_MAX_CONTEXT] at hcontext
      cases hreg with
      | enable hcontext' hword => exact initWord_of_enable hge hword hcontext'
      | priority hpos hmax =>
        rw [PLIC_MAX_IRQ] at hmax
        omega
      | pending hword =>
        rw [PLIC_PENDING_OFFSET] at hoffset
        omega
      | threshold _ =>
        rw [PLIC_THRESHOLD_OFFSET] at hoffset
        omega
      | claim _ =>
        rw [PLIC_CLAIM_OFFSET] at hoffset
        omega

/-- The start for one interrupt. -/
theorem initGlobal_exact_one : InitExact 1 64 :=
  (initGlobal_exact_iff (by decide) (by decide)).mpr (.inl le_rfl)

/-- The start of `qemu-plic`, with 1023 interrupts and two contexts for each of 32 CPUs, writes an
enable word of context 64. -/
theorem initGlobal_not_exact :
    1023 ≤ PLIC_MAX_IRQ ∧ 32 * 2 ≤ PLIC_MAX_CONTEXT ∧ ¬ InitExact 1023 (32 * 2) := by
  have hwrites : InitWrites 1023 (32 * 2) (PLIC_ENABLE_OFFSET + 64 * 0x80 + 0 * 4) :=
    .inr ⟨63, by decide, 32, by decide, rfl⟩
  refine ⟨by decide, by decide, ?_⟩
  exact not_initExact_of_enable (by decide) (by decide) (by decide) (by decide) (.inr le_rfl)
    hwrites

end

end Plic

end Hvisor
