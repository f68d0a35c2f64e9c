import Hvisor.Irqchip.HartLines
import Hvisor.Irqchip.Vgicv3

/-!
# The physical PLIC

The registers that the hypervisor writes for a zone on riscv64, from `plic/plic.rs` and
`plic/mod.rs`. An access of the guest that changes an enable bit of a hardware interrupt is passed
on, but the write of a single bit only ever sets it. The bits of the host are those of the guest as
long as the guest clears none, and the reset of a zone leaves them.

## Main definitions

* `Plic`, `Plic.enableBit`: the registers, and the enable bit of an interrupt
* `Plic.applyAll`: what an access of the guest does to them
* `Plic.Zeroes`, `Plic.InitWrites`: what a loop sets to zero, and what the start does
* `PlicZone`: the interrupts of a zone, with `irq_bitmap_init` and `arch_irqchip_reset`
* `HostedVplic.system`: the accesses of the guests of a zone
* `KeepsEnabled`: an access that clears no enable bit of a hardware interrupt

## Main results

* `Plic.enableBit_setEnableNum`: the write of a single bit
* `Plic.reg_initGlobal`: the registers after the start
* `enableBit_writeEnables`: the host's bits after a word of enable bits
* `mirrors_access`: an access keeps the bits of host and guest equal exactly when it clears none
* `host_mirrors_of_run`: the bits in runs of such accesses, and after the reset
-/

namespace Hvisor

/-- The offset of the enable bits. -/
def PLIC_ENABLE_OFFSET : Nat := 0x2000
/-- The offset of the thresholds. -/
def PLIC_THRESHOLD_OFFSET : Nat := 0x200000
/-- The largest interrupt. -/
def PLIC_MAX_IRQ : Nat := 1023
/-- The number of contexts. -/
def PLIC_MAX_CONTEXT : Nat := 15872

/-- The registers of 32 bits, by their offset. -/
structure Plic where
  reg : Nat → BitVec 32

namespace Plic

/-! ## Operations -/

/-- A register is written. -/
def write (p : Plic) (offset : Nat) (value : BitVec 32) : Plic :=
  ⟨Function.update p.reg offset value⟩

/-- The priority of an interrupt. -/
def setPriority (p : Plic) (irqId priority : Nat) : Plic :=
  p.write (irqId * 4) (.ofNat 32 priority)

/-- The enable bits of 32 interrupts, for a context. -/
def setEnable (p : Plic) (context irqBase : Nat) (value : BitVec 32) : Plic :=
  p.write (PLIC_ENABLE_OFFSET + context * 0x80 + irqBase) value

/-- The enable bit of an interrupt, for a context. -/
def setEnableNum (p : Plic) (context irqId : Nat) (enable : Bool) : Plic :=
  let addr := PLIC_ENABLE_OFFSET + context * 0x80 + irqId / 32 * 4
  let value := p.reg addr
  -- nothing clears the bit
  p.write addr (value ||| (BitVec.ofBool enable).setWidth 32 <<< (irqId % 32))

/-- The threshold of a context. -/
def setThreshold (p : Plic) (context value : Nat) : Plic :=
  p.write (PLIC_THRESHOLD_OFFSET + context * 0x1000) (.ofNat 32 value)

/-- The register takes the completion, and keeps nothing. -/
def complete (p : Plic) (_context _irqId : Nat) : Plic := p

/-- `init_global`; too many interrupts or contexts panic. -/
def initGlobal (p : Plic) (numInterrupts numContexts : Nat) : Option Plic :=
  if PLIC_MAX_IRQ < numInterrupts then none
  else if PLIC_MAX_CONTEXT < numContexts then none
  else
    let p := (List.range' 1 numInterrupts).foldl (fun p i => p.setPriority i 0) p
    some ((List.range numContexts).foldl (fun p i =>
      (List.range (numInterrupts + 31 / 32)).foldl (fun p j => p.setEnable i (j * 4) 0) p) p)

/-- What an output of the virtual PLIC does. -/
def apply (p : Plic) : VplicOutput → Plic
  | .hostSetPriority intrId priority => p.setPriority intrId priority
  | .hostSetEnableNum pcontextId irq enable => p.setEnableNum pcontextId irq enable
  | .hostSetThreshold pcontextId threshold => p.setThreshold pcontextId threshold
  | .hostComplete pcontextId irq => p.complete pcontextId irq
  | .vseip _ => p
  | .sendEvent _ _ => p

/-- The PLIC after all outputs. -/
def applyAll (p : Plic) (out : List VplicOutput) : Plic := out.foldl apply p

theorem applyAll_append (p : Plic) (out out' : List VplicOutput) :
    p.applyAll (out ++ out') = (p.applyAll out).applyAll out' := List.foldl_append

/-- The enable bit of an interrupt in a context. -/
def enableBit (p : Plic) (context irq : Nat) : Bool :=
  (p.reg (PLIC_ENABLE_OFFSET + context * 0x80 + irq / 32 * 4)).getLsbD (irq % 32)

/-! ## The enable bits -/

section

variable {p : Plic} {context c irqId irq n : Nat} {enable : Bool}

theorem reg_write (p : Plic) (offset : Nat) (value : BitVec 32) (i : Nat) :
    (p.write offset value).reg i = if i = offset then value else p.reg i :=
  Function.update_apply ..

/-- A write elsewhere. -/
theorem enableBit_write (offset : Nat) (value : BitVec 32)
    (h : PLIC_ENABLE_OFFSET + c * 0x80 + irq / 32 * 4 ≠ offset) :
    (p.write offset value).enableBit c irq = p.enableBit c irq := by
  rw [enableBit, reg_write, if_neg h, enableBit]

theorem enableBit_setPriority (hirqId : irqId < 1024) (priority : Nat) :
    (p.setPriority irqId priority).enableBit c irq = p.enableBit c irq := by
  apply enableBit_write
  rw [PLIC_ENABLE_OFFSET]
  omega

theorem enableBit_setThreshold (hc : c < PLIC_MAX_CONTEXT) (hirq : irq < 1024) (value : Nat) :
    (p.setThreshold context value).enableBit c irq = p.enableBit c irq := by
  apply enableBit_write
  rw [PLIC_MAX_CONTEXT] at hc
  rw [PLIC_ENABLE_OFFSET, PLIC_THRESHOLD_OFFSET]
  omega

/-- **The write of a single bit** sets it, or does nothing. -/
theorem enableBit_setEnableNum (hirqId : irqId < 1024) (hirq : irq < 1024) :
    (p.setEnableNum context irqId enable).enableBit c irq =
      (p.enableBit c irq || (decide (c = context ∧ irq = irqId) && enable)) := by
  by_cases hword : c = context ∧ irq / 32 = irqId / 32
  · obtain ⟨rfl, hword⟩ := hword
    have hbit : ((BitVec.ofBool enable).setWidth 32 <<< (irqId % 32)).getLsbD (irq % 32) =
        (decide (c = c ∧ irq = irqId) && enable) := by
      by_cases heq : irq = irqId
      · subst heq
        have hlt : irq % 32 < 32 := Nat.mod_lt _ (by decide)
        simp [hlt]
      · have hne : irq % 32 ≠ irqId % 32 := by omega
        rcases Nat.lt_or_gt_of_ne hne with hlt | hgt
        · simp [heq, hlt]
        · have hsub : irq % 32 - irqId % 32 ≠ 0 := by omega
          cases enable <;> simp [heq, hsub]
    rw [setEnableNum, enableBit, enableBit, hword, reg_write, if_pos rfl, BitVec.getLsbD_or, hbit]
  · have hne : ¬ (c = context ∧ irq = irqId) := by
      rintro ⟨rfl, rfl⟩
      exact hword ⟨rfl, rfl⟩
    rw [decide_eq_false hne, Bool.false_and, Bool.or_false]
    apply enableBit_write
    rw [PLIC_ENABLE_OFFSET]
    omega

/-- A loop that keeps a bit in each round keeps it. -/
theorem enableBit_foldl {α : Type} {f : Plic → α → Plic} (l : List α)
    (hf : ∀ p, ∀ a ∈ l, (f p a).enableBit c irq = p.enableBit c irq) (p : Plic) :
    (l.foldl f p).enableBit c irq = p.enableBit c irq := by
  induction l generalizing p with
  | nil => rfl
  | cons a l ih =>
    rw [List.foldl_cons, ih (fun p b hb => hf p b (List.mem_cons_of_mem _ hb)),
      hf p a List.mem_cons_self]

end

/-! ## Loops that write zero -/

section

variable {α : Type} {f g : Plic → Plic} {V W : Nat → Prop} {n numContexts offset : Nat}

/-- The registers that are in `W` become zero, and the others stay. -/
def Zeroes (f : Plic → Plic) (W : Nat → Prop) : Prop :=
  ∀ p offset, (W offset → (f p).reg offset = 0) ∧ (¬ W offset → (f p).reg offset = p.reg offset)

theorem zeroes_write (i : Nat) : Zeroes (·.write i 0) (· = i) := fun p offset =>
  ⟨fun h => (reg_write p i 0 offset).trans (if_pos h),
    fun h => (reg_write p i 0 offset).trans (if_neg h)⟩

theorem Zeroes.comp (hg : Zeroes g W) (hf : Zeroes f V) :
    Zeroes (g ∘ f) fun offset => V offset ∨ W offset := by
  intro p offset
  refine ⟨fun h => ?_, fun h => ?_⟩
  · by_cases hw : W offset
    · exact (hg (f p) offset).1 hw
    · have hv : V offset := h.resolve_right hw
      exact ((hg (f p) offset).2 hw).trans ((hf p offset).1 hv)
  · rw [not_or] at h
    exact ((hg (f p) offset).2 h.2).trans ((hf p offset).2 h.1)

theorem Zeroes.congr (hf : Zeroes f V) (h : ∀ offset, V offset ↔ W offset) : Zeroes f W :=
  fun p offset => ⟨fun hw => (hf p offset).1 ((h offset).mpr hw),
    fun hw => (hf p offset).2 fun hv => hw ((h offset).mp hv)⟩

/-- **A loop** sets to zero what its rounds set to zero. -/
theorem Zeroes.foldl {f : Plic → α → Plic} {W : α → Nat → Prop} (l : List α)
    (hf : ∀ a ∈ l, Zeroes (f · a) (W a)) :
    Zeroes (fun p => l.foldl f p) fun offset => ∃ a ∈ l, W a offset := by
  induction l with
  | nil => exact fun p offset => ⟨fun ⟨_, ha, _⟩ => absurd ha List.not_mem_nil, fun _ => rfl⟩
  | cons a l ih =>
    have hrest := ih fun b hb => hf b (List.mem_cons_of_mem a hb)
    refine (hrest.comp (hf a List.mem_cons_self)).congr fun offset => ?_
    rw [List.exists_mem_cons_iff]

/-! ## The start -/

/-- What the loops of the start write: one enable word for each interrupt. -/
def InitWrites (n numContexts offset : Nat) : Prop :=
  (∃ irqId, 0 < irqId ∧ irqId ≤ n ∧ offset = irqId * 4) ∨
    ∃ context < numContexts, ∃ j < n, offset = PLIC_ENABLE_OFFSET + context * 0x80 + j * 4

/-- **The words that the start writes.** -/
theorem reg_initGlobal (hn : n ≤ PLIC_MAX_IRQ) (hc : numContexts ≤ PLIC_MAX_CONTEXT) (p : Plic) :
    ∃ p', p.initGlobal n numContexts = some p' ∧ ∀ offset,
      (InitWrites n numContexts offset → p'.reg offset = 0) ∧
        (¬ InitWrites n numContexts offset → p'.reg offset = p.reg offset) := by
  have hpriority := Zeroes.foldl (List.range' 1 n) fun i _ => zeroes_write (i * 4)
  have henable := Zeroes.foldl (List.range numContexts) fun i _ =>
    Zeroes.foldl (List.range (n + 31 / 32)) fun j _ =>
      zeroes_write (PLIC_ENABLE_OFFSET + i * 0x80 + j * 4)
  have hloops := (henable.comp hpriority).congr (W := InitWrites n numContexts) fun offset => by
    simp only [InitWrites, List.mem_range'_1, List.mem_range, Nat.reduceDiv, Nat.add_zero,
      and_assoc, Nat.lt_one_add_iff, Nat.succ_le_iff]
  refine ⟨_, ?_, hloops p⟩
  rw [initGlobal, if_neg hn.not_gt, if_neg hc.not_gt]
  rfl

/-- **The start of the PLIC** disables the interrupts of all contexts. -/
theorem enableBit_initGlobal {p p' : Plic} {c irq : Nat} (h : p.initGlobal n numContexts = some p')
    (hirq : 0 < irq ∧ irq ≤ n) (hc : c < numContexts) : p'.enableBit c irq = false := by
  have hn : n ≤ PLIC_MAX_IRQ := by
    by_contra hno
    rw [initGlobal, if_pos (Nat.lt_of_not_le hno)] at h
    cases h
  have hmax : numContexts ≤ PLIC_MAX_CONTEXT := by
    by_contra hno
    rw [initGlobal, if_neg hn.not_gt, if_pos (Nat.lt_of_not_le hno)] at h
    cases h
  obtain ⟨p'', hp, hloops⟩ := reg_initGlobal hn hmax p
  obtain rfl := Option.some.inj (h.symm.trans hp)
  have hwrites : InitWrites n numContexts (PLIC_ENABLE_OFFSET + c * 0x80 + irq / 32 * 4) :=
    .inr ⟨c, hc, irq / 32, by omega, rfl⟩
  rw [enableBit, (hloops _).1 hwrites]
  exact BitVec.getLsbD_zero

end

end Plic

/-! ## Zones -/

/-- The interrupts of a zone, and its virtual PLIC. -/
structure PlicZone (maxInterrupts : Nat) (harts : ZoneHarts) where
  irqBitmap : IrqBitmap
  vplic : VirtualPLIC maxInterrupts harts

namespace PlicZone

variable {maxInterrupts : Nat} {harts : ZoneHarts}

/-- A round of `irq_bitmap_init`; `hwIrqs` is what the board gives as `HW_IRQS`. -/
def addIrq (hwIrqs : List Nat) (zone : PlicZone maxInterrupts harts) (irqId : Nat) :
    Option (PlicZone maxInterrupts harts) := do
  let vplic ← (if irqId ∈ hwIrqs then zone.vplic.vplicSetHw irqId true else some zone.vplic)
  let irqBitmap ← insertIrqToBitmap zone.irqBitmap irqId
  return ⟨irqBitmap, vplic⟩

/-- `irq_bitmap_init` of a new zone. -/
def irqBitmapInit (maxInterrupts : Nat) (harts : ZoneHarts) (hwIrqs irqs : List Nat) :
    Option (PlicZone maxInterrupts harts) :=
  irqs.foldlM (addIrq hwIrqs) ⟨Vector.replicate _ 0, .new maxInterrupts harts⟩

/-- The reset of an interrupt of a zone. -/
def resetIrq (harts : ZoneHarts) (p : Plic) (irqId : Nat) : Plic :=
  harts.cpus.foldl (fun p cpuid => p.setEnableNum (cpuid * 2 + 1) irqId false)
    (p.setPriority irqId 0)

/-- `arch_irqchip_reset`, as far as the physical PLIC goes. -/
def archIrqchipReset (hwIrqs : List Nat) (zone : PlicZone maxInterrupts harts) (p : Plic) : Plic :=
  let p := zone.irqBitmap.toList.zipIdx.foldl (fun p (word, index) =>
    (List.range 32).foldl (fun p bitPosition =>
      let irqId := index * 32 + bitPosition
      if word.getLsbD bitPosition then
        if irqId ∈ hwIrqs then resetIrq harts p irqId else p
      else p) p) p
  harts.cpus.foldl (fun p cpuid => p.setThreshold (cpuid * 2 + 1) 0) p

/-- The interrupts of the hardware that a new zone has are those of its configuration. -/
theorem hw_foldlM_addIrq {hwIrqs irqs : List Nat} {zone₀ zone : PlicZone maxInterrupts harts}
    (h : irqs.foldlM (addIrq hwIrqs) zone₀ = some zone) :
    zone.vplic.enable = zone₀.vplic.enable ∧ ∀ irq : Fin (maxInterrupts + 1),
      zone.vplic.hw.get irq = true ↔
        (irq.val ∈ irqs ∧ irq.val ∈ hwIrqs) ∨ zone₀.vplic.hw.get irq = true := by
  induction irqs generalizing zone₀ with
  | nil =>
    cases h
    simp
  | cons irqId irqs ih =>
    rw [List.foldlM_cons] at h
    obtain ⟨zone₁, hround, h⟩ := Option.bind_eq_some_iff.mp h
    rw [addIrq] at hround
    obtain ⟨vplic, hvplic, hround⟩ := Option.bind_eq_some_iff.mp hround
    obtain ⟨irqBitmap, -, hround⟩ := Option.bind_eq_some_iff.mp hround
    cases hround
    obtain ⟨henable, hhw⟩ := ih h
    split at hvplic
    · next hmem =>
      obtain ⟨hw, hset, hvplic⟩ := Option.bind_eq_some_iff.mp hvplic
      cases hvplic
      obtain ⟨hi, rfl⟩ := VirtualPLIC.setChecked_eq_some hset
      refine ⟨henable, fun irq => (hhw irq).trans ?_⟩
      by_cases heq : irqId = irq.val
      · subst heq
        simp [hmem]
      · have heq' : irq.val ≠ irqId := Ne.symm heq
        simp [heq, heq']
    · next hmem =>
      cases hvplic
      refine ⟨henable, fun irq => (hhw irq).trans ?_⟩
      have hne : irq.val ∈ hwIrqs → irq.val ≠ irqId := fun h heq => hmem (heq ▸ h)
      by_cases hirq : irq.val ∈ hwIrqs
      · simp [hirq, hne hirq]
      · simp [hirq]

/-- **The virtual PLIC of a new zone** knows the hardware interrupts of its configuration, and has
none enabled. -/
theorem irqBitmapInit_eq_some {hwIrqs irqs : List Nat} {zone : PlicZone maxInterrupts harts}
    (h : irqBitmapInit maxInterrupts harts hwIrqs irqs = some zone)
    (irq : Fin (maxInterrupts + 1)) :
    (zone.vplic.hw.get irq = true ↔ irq.val ∈ irqs ∧ irq.val ∈ hwIrqs) ∧
      ∀ c : Fin harts.numContexts, (zone.vplic.enable.get c).get irq = false := by
  obtain ⟨henable, hhw⟩ := hw_foldlM_addIrq h
  refine ⟨(hhw irq).trans (or_iff_left ?_), fun c => ?_⟩
  · simp [VirtualPLIC.new]
  · rw [henable]
    simp [VirtualPLIC.new]

variable {c irq : Nat}

/-- **The reset of a zone** leaves the enable bits. -/
theorem enableBit_archIrqchipReset (hwIrqs : List Nat) (zone : PlicZone maxInterrupts harts)
    (p : Plic) (hc : c < PLIC_MAX_CONTEXT) (hirq : irq < 1024) :
    (zone.archIrqchipReset hwIrqs p).enableBit c irq = p.enableBit c irq := by
  rw [archIrqchipReset, Plic.enableBit_foldl _ fun p cpuid _ =>
    Plic.enableBit_setThreshold hc hirq 0]
  refine Plic.enableBit_foldl _ (fun p ⟨word, index⟩ hmem => ?_) p
  have hindex : index < 1024 / 32 := by
    have := (List.mem_zipIdx hmem).2.1
    simpa using this
  refine Plic.enableBit_foldl _ (fun p bitPosition hbit => ?_) p
  have hirqId : index * 32 + bitPosition < 1024 := by
    have := List.mem_range.mp hbit
    omega
  dsimp only
  split
  · split
    · rw [resetIrq, Plic.enableBit_foldl _ fun p cpuid _ => ?_, Plic.enableBit_setPriority hirqId]
      rw [Plic.enableBit_setEnableNum hirqId hirq, Bool.and_false, Bool.or_false]
    · rfl
  · rfl

end PlicZone

/-! ## Outputs that the host does not see -/

section

variable {maxInterrupts : Nat} {harts : ZoneHarts} {s s' : VirtualPLIC maxInterrupts harts}
  {p : Plic} {context c : Fin harts.numContexts} {out : List VplicOutput}
  {cpu offset size value answer start : Nat} {isWrite : Bool}
  {irq : Fin (maxInterrupts + 1)} {l : List (Fin (maxInterrupts + 1))}

open VirtualPLIC

theorem host_updateHartLine {vcontextId : Nat} (h : s.updateHartLine cpu vcontextId = some out) :
    p.applyAll out = p := by
  obtain ⟨pcontextId, -, h⟩ := Option.bind_eq_some_iff.mp h
  split at h
  · obtain ⟨answer, -, h⟩ := Option.bind_eq_some_iff.mp h
    cases h
    rfl
  · cases h
    rfl

theorem host_updateHartLines {test : Fin harts.numContexts → Bool}
    (h : s.updateHartLines cpu test = some out) : p.applyAll out = p := by
  rw [updateHartLines_eq] at h
  generalize (List.finRange harts.numContexts).filter _ = contexts at h
  induction contexts using List.reverseRecOn generalizing out with
  | nil =>
    cases h
    rfl
  | append_singleton contexts c ih =>
    rw [List.foldlM_append] at h
    obtain ⟨out₁, hout₁, h⟩ := Option.bind_eq_some_iff.mp h
    rw [List.foldlM_cons] at h
    obtain ⟨_, h, h'⟩ := Option.bind_eq_some_iff.mp h
    cases h'
    obtain ⟨out₂, hout₂, rfl⟩ := Option.map_eq_some_iff.mp h
    rw [Plic.applyAll_append, ih hout₁, host_updateHartLine hout₂]

/-! ## A word of enable bits -/

/-- **The host's bits after a word of enable bits**: those of hardware interrupts that the guest
enables are set. -/
theorem enableBit_writeEnables (p : Plic) (c : Fin harts.numContexts)
    (irq : Fin (maxInterrupts + 1)) (hmax : maxInterrupts ≤ PLIC_MAX_IRQ) (hn : harts.cpus.Nodup)
    (hodd : context.val % 2 = 1) (hc : c.val % 2 = 1) (hl : l.Nodup)
    (h : writeEnables cpu context start value s l = some (s', out)) :
    (p.applyAll out).enableBit (harts.cpuOf c * 2 + 1) irq =
      (p.enableBit (harts.cpuOf c * 2 + 1) irq ||
        decide (c = context ∧ irq ∈ l ∧ s.hw.get irq = true ∧
          (s.enable.get context).get irq = false ∧
          value.testBit (irq.val - start) = true)) := by
  rw [PLIC_MAX_IRQ] at hmax
  have hirq := irq.isLt
  -- the rounds from the last one on; each looks at the bit as it was before the access
  induction l using List.reverseRecOn generalizing s' out with
  | nil =>
    cases h
    simp [Plic.applyAll]
  | append_singleton l last ih =>
    obtain ⟨s₁, out₁, out₂, hloop, -, hround, rfl⟩ := writeEnables_snoc h
    obtain ⟨hl', -, hdisjoint⟩ := List.nodup_append.mp hl
    have ih := ih hl' hloop
    obtain rfl := writeEnables_state hloop
    have hmem : last ∉ l := fun hmem => hdisjoint last hmem last (List.mem_singleton_self _) rfl
    have hbit : ((writeBits context start value s l).enable.get context).get last =
        (s.enable.get context).get last := by
      rw [enable_writeBits, if_neg fun h => hmem h.2]
    have hlast : ∀ p : Plic, (p.applyAll out₂).enableBit (harts.cpuOf c * 2 + 1) irq =
        (p.enableBit (harts.cpuOf c * 2 + 1) irq ||
          decide (c = context ∧ irq = last ∧ s.hw.get last = true ∧
            (s.enable.get context).get last = false ∧
            value.testBit (last.val - start) = true)) := by
      intro p
      cases hround with
      | same hsame =>
        rw [hbit] at hsame
        have hno : ¬ (c = context ∧ irq = last ∧ s.hw.get last = true ∧
            (s.enable.get context).get last = false ∧ value.testBit (last.val - start) = true) := by
          rintro ⟨-, -, -, hoff, hon⟩
          rw [hsame, hon] at hoff
          cases hoff
        rw [decide_eq_false hno, Bool.or_false]
        rfl
      | hardware pcontextId hne hhw hp =>
        rw [hw_writeBits] at hhw
        rw [hbit] at hne
        obtain rfl : harts.cpuOf context * 2 + 1 = pcontextId :=
          Option.some.inj ((vcontextToPcontext_eq context).symm.trans hp)
        have hcontext : harts.cpuOf c * 2 + 1 = harts.cpuOf context * 2 + 1 ↔ c = context := by
          refine ⟨fun h => cpuOf_injective hn hc hodd (by omega), ?_⟩
          rintro rfl
          rfl
        have hboth : decide (harts.cpuOf c * 2 + 1 = harts.cpuOf context * 2 + 1 ∧
            irq.val = last.val) = decide (c = context ∧ irq = last) :=
          decide_eq_decide.mpr (and_congr hcontext Fin.ext_iff.symm)
        show (p.setEnableNum _ _ _).enableBit _ _ = _
        rw [Plic.enableBit_setEnableNum (by omega) (by omega), hboth]
        cases hv : value.testBit (last.val - start) with
        | false => simp
        | true =>
          rw [hv] at hne
          rw [hhw, Bool.eq_false_of_not_eq_true hne]
          simp
      | virtual out₂ hne hhw hout =>
        rw [hw_writeBits] at hhw
        rw [host_updateHartLine hout, hhw]
        simp
    rw [Plic.applyAll_append, hlast, ih, Bool.or_assoc]
    congr 1
    by_cases heq : irq = last
    · subst heq
      simp [hmem]
    · simp [heq]

/-! ## Equal bits -/

/-- The enable bits of hardware interrupts are those of the host. -/
def Mirrors (s : VirtualPLIC maxInterrupts harts) (p : Plic) : Prop :=
  ∀ c : Fin harts.numContexts, c.val % 2 = 1 →
    ∀ irq : Fin (maxInterrupts + 1), s.hw.get irq = true →
      p.enableBit (harts.cpuOf c * 2 + 1) irq = (s.enable.get c).get irq

/-- An access of the guest clears no enable bit of a hardware interrupt. -/
def KeepsEnabled (s : VirtualPLIC maxInterrupts harts) (offset size value : Nat) (isWrite : Bool) :
    Prop :=
  ∀ context, ∀ word < 32, EnableWrite harts context offset size value isWrite word →
    ∀ irq ∈ wordIrqs maxInterrupts (word * 32), s.hw.get irq = true →
      (s.enable.get context).get irq = true →
      value.testBit (irq.val - word * 32) = true

/-- A word of enable bits keeps the bits equal exactly when it clears none of a hardware interrupt.
-/
theorem mirrors_enable {word : Nat} (hmax : maxInterrupts ≤ PLIC_MAX_IRQ) (hn : harts.cpus.Nodup)
    (hm : Mirrors s p) (hw : EnableWrite harts context offset size value isWrite word)
    (hloop : writeEnables cpu context (word * 32) value s (wordIrqs maxInterrupts (word * 32)) =
      some (s', out)) :
    Mirrors s' (p.applyAll out) ↔ KeepsEnabled s offset size value isWrite := by
  have hodd := hw.supervisor
  have hhost (c : Fin harts.numContexts) (hc : c.val % 2 = 1) (irq : Fin (maxInterrupts + 1)) :=
    enableBit_writeEnables p c irq hmax hn hodd hc (wordIrqs_nodup _ _) hloop
  obtain rfl := writeEnables_state hloop
  have hhw :
      (writeBits context (word * 32) value s (wordIrqs maxInterrupts (word * 32))).hw = s.hw :=
    hw_writeBits
  constructor
  · intro hm' c word' _ hw' irq hmem hirq hset
    obtain ⟨rfl, rfl⟩ := hw.unique hw'
    have hbit := hm' c hodd irq (by rw [hhw, hirq])
    rw [hhost c hodd irq, hm c hodd irq hirq, hset, Bool.true_or, enable_writeBits,
      if_pos ⟨rfl, hmem⟩] at hbit
    exact hbit.symm
  · intro hkeeps c hc irq hirq
    rw [hhw] at hirq
    rw [hhost c hc irq, hm c hc irq hirq, enable_writeBits]
    by_cases hat : c = context ∧ irq ∈ wordIrqs maxInterrupts (word * 32)
    · obtain ⟨rfl, hmem⟩ := hat
      rw [if_pos ⟨rfl, hmem⟩]
      cases hset : (s.enable.get c).get irq with
      | true => exact (hkeeps c word hw.bound hw irq hmem hirq hset).symm
      | false => simp only [hmem, hirq, true_and, Bool.false_or, Bool.decide_eq_true]
    · have hne : ¬ (c = context ∧ irq ∈ wordIrqs maxInterrupts (word * 32) ∧ s.hw.get irq = true ∧
          (s.enable.get context).get irq = false ∧ value.testBit (irq.val - word * 32) = true) :=
        fun h => hat ⟨h.1, h.2.1⟩
      rw [if_neg hat, decide_eq_false hne, Bool.or_false]

/-- An access does not touch which interrupts are those of the hardware. -/
theorem hw_access (h : s.vplicEmulAccess cpu offset size value isWrite = some (answer, s', out)) :
    s'.hw = s.hw := by
  cases accessOf h with
  | enable context word _ _ _ hloop => rw [writeEnables_state hloop, hw_writeBits]
  | _ => rfl

/-- **An access keeps the bits equal** exactly when it clears none of a hardware interrupt. -/
theorem mirrors_access (hmax : maxInterrupts ≤ PLIC_MAX_IRQ) (hn : harts.cpus.Nodup)
    (hcpus : ∀ cpu ∈ harts.cpus, cpu < 64) (hm : Mirrors s p)
    (h : s.vplicEmulAccess cpu offset size value isWrite = some (answer, s', out)) :
    Mirrors s' (p.applyAll out) ↔ KeepsEnabled s offset size value isWrite := by
  by_cases henable : ∃ context word, EnableWrite harts context offset size value isWrite word
  · obtain ⟨context, word, hw⟩ := henable
    rw [vplicEmulAccess_enable hw] at h
    obtain ⟨⟨s₁, out₁⟩, hloop, h⟩ := Option.map_eq_some_iff.mp h
    cases h
    exact mirrors_enable hmax hn hm hw hloop
  · have hkeeps : KeepsEnabled s offset size value isWrite :=
      fun context word _ hw => absurd ⟨context, word, hw⟩ henable
    refine iff_of_true ?_ hkeeps
    cases accessOf h with
    | silent => exact hm
    | priority irq _ hw hout =>
      intro c hc irq' hirq'
      split at hout
      · rw [hout]
        exact (Plic.enableBit_setPriority hw.irq.2 value).trans (hm c hc irq' hirq')
      · rw [host_updateHartLines hout]
        exact hm c hc irq' hirq'
    | enable context word _ _ hw _ => exact absurd ⟨context, word, hw⟩ henable
    | threshold context hodd pcontextId out hp hout =>
      intro c hc irq hirq
      have hcpu : harts.cpuOf c < 64 := hcpus _ (List.get_mem ..)
      have hirq' := irq.isLt
      rw [PLIC_MAX_IRQ] at hmax
      have hlines :
          (p.setThreshold pcontextId value).applyAll out = p.setThreshold pcontextId value :=
        host_updateHartLine hout
      show ((p.setThreshold pcontextId value).applyAll out).enableBit _ _ = _
      rw [hlines, Plic.enableBit_setThreshold (by rw [PLIC_MAX_CONTEXT]; omega) (by omega)]
      exact hm c hc irq hirq
    | claim context irq hirq _ hc hread hnext hout =>
      rw [host_updateHartLine hout]
      exact hm
    | complete context hirq hostOut out hc hwrite hhost hout =>
      rw [Plic.applyAll_append, host_updateHartLine hout]
      rcases hhost with rfl | ⟨pcontextId, rfl⟩ <;> exact hm

end

/-! ## Runs -/

/-- A virtual PLIC with the physical one. -/
structure HostedVplic (maxInterrupts : Nat) (harts : ZoneHarts) where
  vplic : VirtualPLIC maxInterrupts harts
  host : Plic

/-- An access of a guest of the zone. -/
structure VplicAccess where
  cpu : Nat
  offset : Nat
  size : Nat
  value : Nat
  isWrite : Bool

namespace HostedVplic

variable {maxInterrupts : Nat} {harts : ZoneHarts}

/-- An access of a guest, with what it does to the PLIC. -/
def step (s : HostedVplic maxInterrupts harts) (a : VplicAccess) :
    Option (HostedVplic maxInterrupts harts) :=
  (s.vplic.vplicEmulAccess a.cpu a.offset a.size a.value a.isWrite).map fun (_, vplic, out) =>
    ⟨vplic, s.host.applyAll out⟩

/-- The accesses of the guests of a zone in any order. -/
def system (s₀ : HostedVplic maxInterrupts harts) :
    TransitionSystem (HostedVplic maxInterrupts harts) VplicAccess :=
  .ofStep (· = s₀) step

/-- The access clears no enable bit of a hardware interrupt. -/
def Keeps (s : HostedVplic maxInterrupts harts) (a : VplicAccess) : Prop :=
  KeepsEnabled s.vplic a.offset a.size a.value a.isWrite

set_option synthInstance.maxSize 400 in
instance (s : HostedVplic maxInterrupts harts) (a : VplicAccess) : Decidable (Keeps s a) :=
  inferInstanceAs (Decidable (∀ _ : Fin harts.numContexts, _))

theorem cpu_lt (config : HvZoneConfig) : ∀ cpu ∈ config.harts.cpus, cpu < 64 := fun _ h =>
  List.mem_range.mp (List.mem_filter.mp h).1

/-- **The host mirrors the guest** in runs whose accesses clear no enable bit of a hardware
interrupt, when none of these was set before; the reset of the zone clears a bit only if it was
clear. -/
theorem host_mirrors_of_run (config : HvZoneConfig) (maxInterrupts : Nat) (hwIrqs irqs : List Nat)
    {zone : PlicZone maxInterrupts config.harts} {p host : Plic} {numContexts : Nat}
    (hzone : PlicZone.irqBitmapInit maxInterrupts config.harts hwIrqs irqs = some zone)
    (hboard : (p.initGlobal maxInterrupts numContexts).isSome)
    (hclear : ∀ c : Fin config.harts.numContexts, c.val % 2 = 1 → ∀ irq ∈ irqs, irq ∈ hwIrqs →
      host.enableBit (config.harts.cpuOf c * 2 + 1) irq = false)
    {h : List VplicAccess} {s : HostedVplic maxInterrupts config.harts}
    (r : ((system ⟨zone.vplic, host⟩).restrict Keeps).Run h s)
    (c : Fin config.harts.numContexts) (hodd : c.val % 2 = 1) (irq : Fin (maxInterrupts + 1))
    (hirq : irq.val ∈ irqs) (hhw : irq.val ∈ hwIrqs) :
    s.host.enableBit (config.harts.cpuOf c * 2 + 1) irq = (s.vplic.enable.get c).get irq ∧
      ∀ host : Plic, (zone.archIrqchipReset hwIrqs host).enableBit
        (config.harts.cpuOf c * 2 + 1) irq = false ↔
          host.enableBit (config.harts.cpuOf c * 2 + 1) irq = false := by
  have hmax : maxInterrupts ≤ PLIC_MAX_IRQ := by
    by_contra hgt
    rw [Plic.initGlobal, if_pos (Nat.not_le.mp hgt)] at hboard
    cases hboard
  have hi : s.vplic.hw = zone.vplic.hw ∧ Mirrors s.vplic s.host := by
    refine r.invariant (I := fun _ s => s.vplic.hw = zone.vplic.hw ∧ Mirrors s.vplic s.host) ?_ ?_
    · rintro _ rfl
      refine ⟨rfl, fun c hc irq hirq => ?_⟩
      obtain ⟨hhw, hoff⟩ := PlicZone.irqBitmapInit_eq_some hzone irq
      obtain ⟨hmem, hmem'⟩ := hhw.mp hirq
      exact (hclear c hc irq hmem hmem').trans (hoff c).symm
    · rintro _ s a s' _ ⟨hhw, hm⟩ ⟨hkeeps, hs⟩
      obtain ⟨⟨answer, vplic, out⟩, hout, hs⟩ := Option.map_eq_some_iff.mp hs
      cases hs
      refine ⟨(hw_access hout).trans hhw, ?_⟩
      exact (mirrors_access hmax (VplicLines.harts_nodup config) (cpu_lt config) hm hout).mpr hkeeps
  have hcpu : config.harts.cpuOf c < 64 := cpu_lt config _ (List.get_mem ..)
  have hlt := irq.isLt
  rw [PLIC_MAX_IRQ] at hmax
  refine ⟨hi.2 c hodd irq ?_, fun host => ?_⟩
  · rw [hi.1]
    exact (PlicZone.irqBitmapInit_eq_some hzone irq).1.mpr ⟨hirq, hhw⟩
  · rw [PlicZone.enableBit_archIrqchipReset hwIrqs zone host (by rw [PLIC_MAX_CONTEXT]; omega)
      (by omega)]

/-! ## A zone that enables an interrupt of the hardware -/

open VplicLines (sharedConfig otherHart)

/-- The zone of two harts with interrupt 1, after some accesses, on a PLIC that has been started. -/
def pairRun (check : HostedVplic 1 sharedConfig.harts → VplicAccess → Bool)
    (as : List VplicAccess) :
    Option (PlicZone 1 sharedConfig.harts × Plic × HostedVplic 1 sharedConfig.harts) := do
  let zone ← PlicZone.irqBitmapInit 1 sharedConfig.harts [1] [1]
  let host ← (⟨fun _ => 0⟩ : Plic).initGlobal 1 8
  let s ← TransitionSystem.exec step check as ⟨zone.vplic, host⟩
  return (zone, host, s)

theorem pairRun_eq_some {check : HostedVplic 1 sharedConfig.harts → VplicAccess → Bool}
    {as : List VplicAccess}
    {x : PlicZone 1 sharedConfig.harts × Plic × HostedVplic 1 sharedConfig.harts}
    (h : pairRun check as = some x) :
    PlicZone.irqBitmapInit 1 sharedConfig.harts [1] [1] = some x.1 ∧
      (⟨fun _ => 0⟩ : Plic).initGlobal 1 8 = some x.2.1 ∧
        TransitionSystem.exec step check as ⟨x.1.vplic, x.2.1⟩ = some x.2.2 := by
  rw [pairRun] at h
  obtain ⟨zone, hzone, h⟩ := Option.bind_eq_some_iff.mp h
  obtain ⟨host, hhost, h⟩ := Option.bind_eq_some_iff.mp h
  obtain ⟨s, hs, h⟩ := Option.bind_eq_some_iff.mp h
  cases h
  exact ⟨hzone, hhost, hs⟩

/-- CPU 3 enables interrupt 1 for itself, and disables it. -/
def enableIrq : VplicAccess := ⟨3, 0x2180, 4, 2, true⟩

/-- A guest disables its interrupts. -/
def disableIrq : VplicAccess := ⟨3, 0x2180, 4, 0, true⟩

/-- The enable bit of the host follows. -/
theorem host_mirrors_of_run_enable : ∃ x, pairRun (fun s a => decide (Keeps s a)) [enableIrq] =
    some x ∧ (x.2.2.host.enableBit (sharedConfig.harts.cpuOf otherHart * 2 + 1) 1 =
        (x.2.2.vplic.enable.get otherHart).get (1 : Fin 2) ∧
      ∀ host : Plic, (x.1.archIrqchipReset [1] host).enableBit
        (sharedConfig.harts.cpuOf otherHart * 2 + 1) 1 = false ↔
          host.enableBit (sharedConfig.harts.cpuOf otherHart * 2 + 1) 1 = false) := by
  have hsome : (pairRun (fun s a => decide (Keeps s a)) [enableIrq]).isSome = true := by
    decide +kernel
  obtain ⟨x, hx⟩ := Option.isSome_iff_exists.mp hsome
  obtain ⟨hzone, hhost, hs⟩ := pairRun_eq_some hx
  have hclear : ∀ c : Fin sharedConfig.harts.numContexts, c.val % 2 = 1 → ∀ irq ∈ [1], irq ∈ [1] →
      x.2.1.enableBit (sharedConfig.harts.cpuOf c * 2 + 1) irq = false := by
    intro c _ irq hirq _
    have hcpu : ∀ c, sharedConfig.harts.cpuOf c < 4 := by decide
    obtain rfl := List.mem_singleton.mp hirq
    have hlt := hcpu c
    exact Plic.enableBit_initGlobal hhost (by decide) (by omega)
  have hrun := TransitionSystem.Run.exec (S := (system ⟨x.1.vplic, x.2.1⟩).restrict Keeps) step
    (fun s a => decide (Keeps s a)) (fun _ _ _ hc hs => ⟨of_decide_eq_true hc, hs⟩) (.start rfl) hs
  exact ⟨x, hx, host_mirrors_of_run sharedConfig 1 [1] [1] hzone (by rw [hhost]; rfl) hclear hrun
    otherHart rfl 1 (by decide) (by decide)⟩

/-- The guest disables the interrupt, and the enable bit of the host stays. -/
theorem not_host_mirrors : ¬ ∀ (config : HvZoneConfig) (maxInterrupts : Nat)
    (hwIrqs irqs : List Nat)
    (zone : PlicZone maxInterrupts config.harts) (p host : Plic) (numContexts : Nat),
    PlicZone.irqBitmapInit maxInterrupts config.harts hwIrqs irqs = some zone →
    p.initGlobal maxInterrupts numContexts = some host →
    ∀ (h : List VplicAccess) (s : HostedVplic maxInterrupts config.harts),
      (system ⟨zone.vplic, host⟩).Run h s →
      ∀ c : Fin config.harts.numContexts, c.val % 2 = 1 → ∀ irq : Fin (maxInterrupts + 1),
        irq.val ∈ irqs → irq.val ∈ hwIrqs →
          s.host.enableBit (config.harts.cpuOf c * 2 + 1) irq = (s.vplic.enable.get c).get irq ∧
          (zone.archIrqchipReset hwIrqs s.host).enableBit (config.harts.cpuOf c * 2 + 1) irq =
            false := by
  intro hclaim
  have hexec : (pairRun (fun _ _ => true) [enableIrq, disableIrq]).any (fun x =>
      x.2.2.host.enableBit (sharedConfig.harts.cpuOf otherHart * 2 + 1) 1 &&
        !(x.2.2.vplic.enable.get otherHart).get (1 : Fin 2)) = true := by
    decide +kernel
  obtain ⟨x, hx, hend⟩ := (Option.any_eq_true ..).mp hexec
  obtain ⟨hzone, hhost, hs⟩ := pairRun_eq_some hx
  rw [Bool.and_eq_true, Bool.not_eq_true'] at hend
  have hrun := TransitionSystem.Run.exec (S := system ⟨x.1.vplic, x.2.1⟩) step (fun _ _ => true)
    (fun _ _ _ _ hs => hs) (.start rfl) hs
  have hbit := (hclaim sharedConfig 1 [1] [1] x.1 _ x.2.1 8 hzone hhost _ x.2.2 hrun otherHart rfl 1
    (by decide) (by decide)).1
  rw [hend.2] at hbit
  exact Bool.noConfusion (hend.1.symm.trans hbit)

end HostedVplic

end Hvisor
