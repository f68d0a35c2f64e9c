import Hvisor.Irqchip.Vplic
import Mathlib.Data.List.DropRight
import Mathlib.Order.Fin.Basic

/-!
# Accesses to the virtual PLIC

What each access of a guest to the virtual PLIC is, with the state after it and its outputs; and the
loop that writes a word of enable bits as a sequence of single bits.

## Main definitions

* `PriorityWrite`, `EnableWrite`: the writes of a priority and of a word of enable bits
* `VirtualPLIC.AccessOf`: the ways an access goes
* `VirtualPLIC.writeBits`, `VirtualPLIC.RoundOf`: the state after some bits of a word, and the ways
  a round of the loop goes
* `VirtualPLIC.Idle`: a write of a word that is there already

## Main results

* `VirtualPLIC.accessOf`: each access is one of these
* `VirtualPLIC.writeEnables_append`, `VirtualPLIC.writeEnables_state`: the loop, bit by bit
* `VirtualPLIC.isSome_vplicEmulAccess_iff`: when an access returns
* `VirtualPLIC.idle_iff`: when a write of a word does nothing
-/

namespace Hvisor

/-- A write of the priority of an interrupt. -/
structure PriorityWrite (offset size value : Nat) (isWrite : Bool) (irq : Nat) : Prop where
  size : size = 4
  value : value < 2 ^ 32
  offset : offset = 4 * irq
  irq : irq ≠ 0 ∧ irq < 1024
  isWrite : isWrite = true

/-- A write of a word of enable bits of a context. -/
structure EnableWrite (harts : ZoneHarts) (context : Fin harts.numContexts)
    (offset size value : Nat) (isWrite : Bool) (word : Nat) : Prop where
  size : size = 4
  value : value < 2 ^ 32
  supervisor : context.val % 2 = 1
  bound : word < 32
  offset : offset = 0x2000 + 0x80 * context.val + 4 * word
  isWrite : isWrite = true

section

variable (harts : ZoneHarts) (context : Fin harts.numContexts) (offset size value : Nat)
  (isWrite : Bool)

instance (irq : Nat) : Decidable (PriorityWrite offset size value isWrite irq) :=
  decidable_of_iff (size = 4 ∧ value < 2 ^ 32 ∧ offset = 4 * irq ∧ (irq ≠ 0 ∧ irq < 1024) ∧
      isWrite = true)
    ⟨fun ⟨h₁, h₂, h₃, h₄, h₅⟩ => ⟨h₁, h₂, h₃, h₄, h₅⟩,
      fun ⟨h₁, h₂, h₃, h₄, h₅⟩ => ⟨h₁, h₂, h₃, h₄, h₅⟩⟩

instance (word : Nat) : Decidable (EnableWrite harts context offset size value isWrite word) :=
  decidable_of_iff (size = 4 ∧ value < 2 ^ 32 ∧ context.val % 2 = 1 ∧ word < 32 ∧
      offset = 0x2000 + 0x80 * context.val + 4 * word ∧ isWrite = true)
    ⟨fun ⟨h₁, h₂, h₃, h₄, h₅, h₆⟩ => ⟨h₁, h₂, h₃, h₄, h₅, h₆⟩,
      fun ⟨h₁, h₂, h₃, h₄, h₅, h₆⟩ => ⟨h₁, h₂, h₃, h₄, h₅, h₆⟩⟩

end

/-- The word that an access writes. -/
theorem EnableWrite.unique {harts : ZoneHarts} {context c : Fin harts.numContexts}
    {offset size value word word' : Nat} {isWrite : Bool}
    (h : EnableWrite harts context offset size value isWrite word)
    (h' : EnableWrite harts c offset size value isWrite word') : c = context ∧ word' = word := by
  have heq := h.offset.symm.trans h'.offset
  have hb := h.bound
  have hb' := h'.bound
  exact ⟨Fin.ext (by omega), by omega⟩

namespace VirtualPLIC

variable {maxInterrupts : Nat} {harts : ZoneHarts} {s s' : VirtualPLIC maxInterrupts harts}
  {context : Fin harts.numContexts} {out : List VplicOutput} {cpu offset size value answer : Nat}
  {isWrite : Bool}

/-- The ways an access of a CPU goes. -/
inductive AccessOf (s : VirtualPLIC maxInterrupts harts) (cpu offset size value : Nat)
    (isWrite : Bool) : VirtualPLIC maxInterrupts harts → List VplicOutput → Prop
  | silent : AccessOf s cpu offset size value isWrite s []
  | priority (irq : Fin (maxInterrupts + 1)) (out : List VplicOutput)
      (hw : PriorityWrite offset size value isWrite irq)
      (hout : if s.hw.get irq then out = [.hostSetPriority irq value]
        else updateHartLines { s with priority := s.priority.set irq value irq.isLt } cpu
          (fun c => (s.enable.get c).get irq) = some out) :
      AccessOf s cpu offset size value isWrite
        { s with priority := s.priority.set irq value irq.isLt } out
  | enable (context : Fin harts.numContexts) (word : Nat) (s' : VirtualPLIC maxInterrupts harts)
      (out : List VplicOutput) (hw : EnableWrite harts context offset size value isWrite word)
      (hloop : writeEnables cpu context (word * 32) value s (wordIrqs maxInterrupts (word * 32)) =
        some (s', out)) :
      AccessOf s cpu offset size value isWrite s' out
  | threshold (context : Fin harts.numContexts) (hodd : context.val % 2 = 1) (pcontextId : Nat)
      (out : List VplicOutput) (hp : vcontextToPcontext harts context = some pcontextId)
      (hout : updateHartLine { s with
        threshold := s.threshold.set context value context.isLt } cpu context = some out) :
      AccessOf s cpu offset size value isWrite
        { s with threshold := s.threshold.set context value context.isLt }
        (.hostSetThreshold pcontextId value :: out)
  | claim (context : Fin harts.numContexts) (irq : Nat) (hirq : irq < maxInterrupts + 1)
      (out : List VplicOutput) (hc : ClaimAccess harts context offset size value)
      (hread : isWrite = false) (hnext : s.getNextPending context = some irq)
      (hout : updateHartLine { s with
        pending := s.pending.set irq false
        active := s.active.set irq true } cpu context = some out) :
      AccessOf s cpu offset size value isWrite
        { s with pending := s.pending.set irq false, active := s.active.set irq true } out
  | complete (context : Fin harts.numContexts) (hirq : value < maxInterrupts + 1)
      (hostOut out : List VplicOutput) (hc : ClaimAccess harts context offset size value)
      (hwrite : isWrite = true)
      (hhost : hostOut = [] ∨ ∃ pcontextId, hostOut = [.hostComplete pcontextId value])
      (hout : updateHartLine { s with active := s.active.set value false } cpu context =
        some out) :
      AccessOf s cpu offset size value isWrite { s with active := s.active.set value false }
        (hostOut ++ out)

theorem accessOf_priority (hsize : size = 4 ∧ offset % 4 = 0) (hvalue : value < 2 ^ 32)
    (hoff : offset ≤ 0x0FFC)
    (h : s.priorityAccess cpu offset value isWrite = some (answer, s', out)) :
    AccessOf s cpu offset size value isWrite s' out := by
  rw [priorityAccess] at h
  split at h
  · cases h
    exact .silent
  · next hid =>
    split at h
    · next hwrite =>
      obtain ⟨out', hout, h⟩ := Option.map_eq_some_iff.mp h
      cases h
      rw [Nat.mod_eq_of_lt hvalue] at hout ⊢
      have hirq : offset / 4 < maxInterrupts + 1 := by omega
      refine .priority ⟨offset / 4, hirq⟩ out ⟨hsize.1, hvalue, ?_, ?_, hwrite⟩ ?_
      · show offset = 4 * (offset / 4)
        omega
      · show offset / 4 ≠ 0 ∧ offset / 4 < 1024
        omega
      · split at hout
        · next hhw =>
          cases hout
          exact (if_pos hhw).mpr rfl
        · next hhw => exact (if_neg hhw).mpr hout
    · cases h
      exact .silent

theorem accessOf_enable (hsize : size = 4 ∧ offset % 4 = 0) (hvalue : value < 2 ^ 32)
    (hoff : 0x2000 ≤ offset)
    (h : s.enableAccess cpu offset value isWrite = some (answer, s', out)) :
    AccessOf s cpu offset size value isWrite s' out := by
  rw [enableAccess] at h
  split at h
  · cases h
    exact .silent
  · next context hctx =>
    obtain ⟨hval, hodd⟩ := supervisor?_eq_some.mp hctx
    split at h
    · next hwrite =>
      obtain ⟨⟨s₁, out₁⟩, hloop, h⟩ := Option.map_eq_some_iff.mp h
      cases h
      exact .enable context ((offset - 0x2000) % 0x80 / 4) s' out
        ⟨hsize.1, hvalue, hodd, by omega, by omega, hwrite⟩ hloop
    · cases h
      exact .silent

theorem accessOf_threshold {vcontextId : Nat} (hvalue : value < 2 ^ 32)
    (h : s.thresholdAccess cpu vcontextId value isWrite = some (answer, s', out)) :
    AccessOf s cpu offset size value isWrite s' out := by
  rw [thresholdAccess] at h
  split at h
  · cases h
    exact .silent
  · next context hctx =>
    split at h
    · obtain ⟨hval, hodd⟩ := supervisor?_eq_some.mp hctx
      obtain ⟨pcontextId, hp, h⟩ := Option.bind_eq_some_iff.mp h
      obtain ⟨out₁, hout, h⟩ := Option.bind_eq_some_iff.mp h
      cases h
      rw [Nat.mod_eq_of_lt hvalue] at hout ⊢
      exact .threshold context hodd pcontextId out₁ hp hout
    · cases h
      exact .silent

theorem accessOf_complete (hc : ClaimAccess harts context offset size value)
    (hwrite : isWrite = true) (h : s.complete cpu context value = some (answer, s', out)) :
    AccessOf s cpu offset size value isWrite s' out := by
  obtain ⟨hw, -, h⟩ := Option.bind_eq_some_iff.mp h
  obtain ⟨hostOut, hhost, h⟩ := Option.bind_eq_some_iff.mp h
  obtain ⟨active, hset, h⟩ := Option.bind_eq_some_iff.mp h
  obtain ⟨out', hout, h⟩ := Option.bind_eq_some_iff.mp h
  cases h
  obtain ⟨hi, rfl⟩ := setChecked_eq_some hset
  refine .complete context hi hostOut out' hc hwrite ?_ hout
  split at hhost
  · obtain ⟨pcontextId, -, rfl⟩ := Option.map_eq_some_iff.mp hhost
    exact .inr ⟨pcontextId, rfl⟩
  · cases hhost
    exact .inl rfl

theorem accessOf_claim (hc : ClaimAccess harts context offset size value)
    (hread : isWrite = false) (h : s.claim cpu context = some (answer, s', out)) :
    AccessOf s cpu offset size value isWrite s' out := by
  obtain ⟨claimedIrq, hnext, h⟩ := Option.bind_eq_some_iff.mp h
  obtain ⟨pending, hpending, h⟩ := Option.bind_eq_some_iff.mp h
  obtain ⟨active, hactive, h⟩ := Option.bind_eq_some_iff.mp h
  obtain ⟨out', hout, h⟩ := Option.bind_eq_some_iff.mp h
  cases h
  obtain ⟨hi, rfl⟩ := setChecked_eq_some hpending
  obtain ⟨_, rfl⟩ := setChecked_eq_some hactive
  exact .claim context _ hi out hc hread hnext hout

/-- **Which access it is.** -/
theorem accessOf (h : s.vplicEmulAccess cpu offset size value isWrite = some (answer, s', out)) :
    AccessOf s cpu offset size value isWrite s' out := by
  by_cases hclaim : ∃ context, ClaimAccess harts context offset size value
  · obtain ⟨context, hc⟩ := hclaim
    rw [vplicEmulAccess_claim hc] at h
    cases isWrite with
    | true => exact accessOf_complete hc rfl h
    | false => exact accessOf_claim hc rfl h
  · -- the checks of the size and of the value, and then the ranges in the order of the source
    rw [vplicEmulAccess] at h
    split at h
    · cases h
      exact .silent
    next hsize =>
    split at h
    · cases h
      exact .silent
    next hvalue =>
    have hsize' : size = 4 ∧ offset % 4 = 0 := by omega
    have hvalue' : value < 2 ^ 32 := by omega
    split at h
    · next hoff => exact accessOf_priority hsize' hvalue' hoff h
    split at h
    · split at h <;> cases h <;> exact .silent
    split at h
    · next hoff => exact accessOf_enable hsize' hvalue' hoff.1 h
    split at h
    · exact accessOf_threshold hvalue' h
    split at h
    · next hoff =>
      rw [claimCompleteAccess] at h
      split at h
      · cases h
        exact .silent
      · next context hctx =>
        -- the claim register of a supervisor-mode context was the first case
        obtain ⟨hval, hodd⟩ := supervisor?_eq_some.mp hctx
        exact absurd ⟨context, hodd, hsize'.1, hvalue', by omega⟩ hclaim
    · cases h
      exact .silent

/-- A write of a word of enable bits is the loop over its bits. -/
theorem vplicEmulAccess_enable {word : Nat}
    (h : EnableWrite harts context offset size value isWrite word) :
    s.vplicEmulAccess cpu offset size value isWrite =
      (writeEnables cpu context (word * 32) value s (wordIrqs maxInterrupts (word * 32))).map
        fun (s, out) => (0, s, out) := by
  obtain ⟨rfl, hvalue, hodd, hword, rfl, rfl⟩ := h
  have hlt := context.isLt
  have hctx : supervisor? harts ((0x2000 + 0x80 * context.val + 4 * word - 0x2000) / 0x80) =
      some context := supervisor?_eq_some.mpr ⟨by omega, hodd⟩
  have hstart : (0x2000 + 0x80 * context.val + 4 * word - 0x2000) % 0x80 / 4 = word := by omega
  rw [vplicEmulAccess, if_neg (by omega), if_neg (by omega), if_neg (by omega), if_neg (by omega),
    if_pos (by omega), enableAccess, hctx, hstart]
  exact if_pos rfl

/-! ## The bits of a word -/

section

variable {start : Nat} {irq : Fin (maxInterrupts + 1)} {l l' : List (Fin (maxInterrupts + 1))}

/-- Some bits of a word are written. -/
def writeBits (context : Fin harts.numContexts) (start value : Nat)
    (s : VirtualPLIC maxInterrupts harts) (l : List (Fin (maxInterrupts + 1))) :
    VirtualPLIC maxInterrupts harts :=
  l.foldl (fun s irq => s.setEnable context irq (value.testBit (irq.val - start))) s

theorem setEnable_self (h : (s.enable.get context).get irq = isWrite) :
    s.setEnable context irq isWrite = s := by
  subst h
  simp [setEnable]

theorem enable_setEnable (c : Fin harts.numContexts) (i : Fin (maxInterrupts + 1)) (b : Bool) :
    ((s.setEnable context irq b).enable.get c).get i =
      if c = context ∧ i = irq then b else (s.enable.get c).get i := by
  by_cases hc : c = context
  · subst hc
    by_cases hi : i = irq
    · subst hi
      simp [setEnable]
    · have hi' : irq.val ≠ i.val := fun h => hi (Fin.ext h.symm)
      simp [setEnable, hi, hi']
  · have hc' : context.val ≠ c.val := fun h => hc (Fin.ext h.symm)
    simp [setEnable, hc, hc']

/-- The enable bits after some bits of a word. -/
theorem enable_writeBits (c : Fin harts.numContexts) (i : Fin (maxInterrupts + 1)) :
    ((writeBits context start value s l).enable.get c).get i =
      if c = context ∧ i ∈ l then value.testBit (i.val - start) else (s.enable.get c).get i := by
  induction l generalizing s with
  | nil => simp [writeBits]
  | cons irq l ih =>
    rw [writeBits, List.foldl_cons, ← writeBits, ih, enable_setEnable]
    by_cases hi : i = irq
    · subst hi
      by_cases hc : c = context <;> simp [hc]
    · simp [hi]

/-- The loop over two words of bits, one after the other. -/
theorem writeEnables_append : writeEnables cpu context start value s (l ++ l') =
    (writeEnables cpu context start value s l).bind fun (s₁, out₁) =>
      (writeEnables cpu context start value s₁ l').map fun (s₂, out₂) => (s₂, out₁ ++ out₂) := by
  induction l generalizing s with
  | nil => simp [writeEnables]
  | cons irq l ih =>
    rw [List.cons_append, writeEnables, writeEnables]
    split
    · exact ih
    · simp only [ih, Option.map_bind, Option.bind_map, Option.bind_assoc]
      congr 1
      funext out₁
      simp only [Function.comp_def, Option.map_map, List.append_assoc]

/-- What a round of the loop does. -/
inductive RoundOf (s : VirtualPLIC maxInterrupts harts) (cpu : Nat)
    (context : Fin harts.numContexts) (irq : Fin (maxInterrupts + 1)) (irqEnable : Bool) :
    List VplicOutput → Prop
  | same (h : (s.enable.get context).get irq = irqEnable) : RoundOf s cpu context irq irqEnable []
  | hardware (pcontextId : Nat) (h : (s.enable.get context).get irq ≠ irqEnable)
      (hhw : s.hw.get irq = true)
      (hp : vcontextToPcontext harts context = some pcontextId) :
      RoundOf s cpu context irq irqEnable [.hostSetEnableNum pcontextId irq irqEnable]
  | virtual (out : List VplicOutput) (h : (s.enable.get context).get irq ≠ irqEnable)
      (hhw : s.hw.get irq = false)
      (hout : (s.setEnable context irq irqEnable).updateHartLine cpu context = some out) :
      RoundOf s cpu context irq irqEnable out

/-- **A round of the loop** writes the bit of its interrupt. -/
theorem roundOf (h : writeEnables cpu context start value s [irq] = some (s', out)) :
    s' = s.setEnable context irq (value.testBit (irq.val - start)) ∧
      RoundOf s cpu context irq (value.testBit (irq.val - start)) out := by
  rw [writeEnables] at h
  split at h
  · next hsame =>
    have hsame := eq_of_beq hsame
    cases h
    exact ⟨(setEnable_self hsame).symm, .same hsame⟩
  · next hne =>
    have hne : (s.enable.get context).get irq ≠ value.testBit (irq.val - start) := fun heq =>
      hne (beq_iff_eq.mpr heq)
    obtain ⟨out₁, hout, h⟩ := Option.bind_eq_some_iff.mp h
    simp only [writeEnables, Option.map_some, List.append_nil] at h
    cases h
    refine ⟨rfl, ?_⟩
    split at hout
    · next hhw =>
      obtain ⟨pcontextId, hp, rfl⟩ := Option.map_eq_some_iff.mp hout
      exact .hardware pcontextId hne hhw hp
    · next hhw => exact .virtual out hne (Bool.eq_false_of_not_eq_true hhw) hout

/-- The last round of the loop. -/
theorem writeEnables_snoc
    (h : writeEnables cpu context start value s (l ++ [irq]) = some (s', out)) :
    ∃ s₁ out₁ out₂, writeEnables cpu context start value s l = some (s₁, out₁) ∧
      s' = s₁.setEnable context irq (value.testBit (irq.val - start)) ∧
        RoundOf s₁ cpu context irq (value.testBit (irq.val - start)) out₂ ∧ out = out₁ ++ out₂ := by
  rw [writeEnables_append] at h
  obtain ⟨⟨s₁, out₁⟩, hloop, h⟩ := Option.bind_eq_some_iff.mp h
  obtain ⟨⟨s₂, out₂⟩, hround, h⟩ := Option.map_eq_some_iff.mp h
  cases h
  obtain ⟨hs, hout⟩ := roundOf hround
  exact ⟨s₁, out₁, out₂, hloop, hs, hout, rfl⟩

/-- The loop writes the bits of its interrupts. -/
theorem writeEnables_state (h : writeEnables cpu context start value s l = some (s', out)) :
    s' = writeBits context start value s l := by
  induction l using List.reverseRecOn generalizing s' out with
  | nil =>
    cases h
    rfl
  | append_singleton l irq ih =>
    obtain ⟨s₁, out₁, out₂, hloop, rfl, -⟩ := writeEnables_snoc h
    rw [writeBits, List.foldl_append, ih hloop]
    rfl

end

/-! ## Accesses that return -/

/-- A completion of an interrupt that the controller does not have. -/
def CompletesBeyond (maxInterrupts : Nat) (harts : ZoneHarts) (offset size value : Nat)
    (isWrite : Bool) : Prop :=
  isWrite = true ∧ maxInterrupts < value ∧ ∃ context, ClaimAccess harts context offset size value

theorem exists_vcontextToPcontext (context : Fin harts.numContexts) :
    ∃ pcontextId, vcontextToPcontext harts context = some pcontextId := by
  have hlt : context.val < harts.cpus.length * 2 := context.isLt
  rw [vcontextToPcontext, List.getElem?_eq_getElem (by omega : context.val / 2 < harts.cpus.length)]
  exact ⟨_, rfl⟩

theorem updateHartLines_eq (s : VirtualPLIC maxInterrupts harts) (cpu : Nat)
    (test : Fin harts.numContexts → Bool) : s.updateHartLines cpu test =
      ((List.finRange harts.numContexts).filter fun c => c.val % 2 != 0 && test c).foldlM
        (fun out c => (s.updateHartLine cpu c.val).map (out ++ ·)) [] := by
  rw [VirtualPLIC.updateHartLines, bind_pure_comp, List.map_eq_map, List.foldlM_map]

/-- Updating the lines of some contexts returns, since each of them is a context of the zone. -/
theorem exists_updateHartLines (s : VirtualPLIC maxInterrupts harts) (cpu : Nat)
    (test : Fin harts.numContexts → Bool) : ∃ out, s.updateHartLines cpu test = some out := by
  rw [updateHartLines_eq]
  generalize (List.finRange harts.numContexts).filter _ = contexts
  suffices h : ∀ acc, ∃ out, contexts.foldlM
      (fun out c => (s.updateHartLine cpu c.val).map (out ++ ·)) acc = some out from h []
  induction contexts with
  | nil => exact fun acc => ⟨acc, rfl⟩
  | cons c contexts ih =>
    intro acc
    obtain ⟨out, hout⟩ := exists_updateHartLine (s := s) cpu c
    rw [List.foldlM_cons, hout]
    exact ih (acc ++ out)

/-- The loop of a write to a word of enable bits returns, whichever bits it writes. -/
theorem exists_writeEnables (start : Nat) (s : VirtualPLIC maxInterrupts harts)
    (l : List (Fin (maxInterrupts + 1))) :
    ∃ res, writeEnables cpu context start value s l = some res := by
  induction l generalizing s with
  | nil => exact ⟨(s, []), rfl⟩
  | cons irq l ih =>
    rw [writeEnables]
    dsimp only
    split
    · exact ih s
    · next hne =>
      obtain ⟨pcontextId, hp⟩ := exists_vcontextToPcontext context
      -- the state with the bit written
      let s₁ := s.setEnable context irq (value.testBit (irq.val - start))
      obtain ⟨out, hout⟩ : ∃ out, (if s.hw[irq] then
          (vcontextToPcontext harts context).map fun pcontextId =>
            [.hostSetEnableNum pcontextId irq (value.testBit (irq.val - start))]
          else s₁.updateHartLine cpu context) = some out := by
        split
        · rw [hp]
          exact ⟨_, rfl⟩
        · exact exists_updateHartLine cpu context
      obtain ⟨res, hres⟩ := ih s₁
      refine ⟨(res.1, out ++ res.2), ?_⟩
      show (if s.hw[irq] then _ else s₁.updateHartLine cpu context).bind
        (fun out => (writeEnables cpu context start value s₁ l).map _) = _
      rw [hout, Option.bind_some, hres]
      rfl

theorem exists_priorityAccess (s : VirtualPLIC maxInterrupts harts) :
    ∃ res, s.priorityAccess cpu offset value isWrite = some res := by
  rw [priorityAccess]
  split
  · exact ⟨_, rfl⟩
  · split
    · dsimp only
      split
      · exact ⟨_, rfl⟩
      · obtain ⟨out, hout⟩ := exists_updateHartLines { s with priority := _ } cpu _
        rw [hout]
        exact ⟨_, rfl⟩
    · exact ⟨_, rfl⟩

theorem exists_enableAccess (s : VirtualPLIC maxInterrupts harts) :
    ∃ res, s.enableAccess cpu offset value isWrite = some res := by
  rw [enableAccess]
  split
  · exact ⟨_, rfl⟩
  · dsimp only
    split
    · obtain ⟨res, hres⟩ := exists_writeEnables _ s _
      rw [hres]
      exact ⟨_, rfl⟩
    · exact ⟨_, rfl⟩

theorem exists_thresholdAccess (s : VirtualPLIC maxInterrupts harts) (vcontextId : Nat) :
    ∃ res, s.thresholdAccess cpu vcontextId value isWrite = some res := by
  rw [thresholdAccess]
  split
  · exact ⟨_, rfl⟩
  · next context hctx =>
    split
    · obtain ⟨pcontextId, hp⟩ := exists_vcontextToPcontext context
      obtain ⟨out, hout⟩ := exists_updateHartLine
        (s := { s with threshold := s.threshold.set context (value % 2 ^ 32) }) cpu context
      simp only [hp, hout, Option.bind_eq_bind, Option.bind_some]
      exact ⟨_, rfl⟩
    · exact ⟨_, rfl⟩

/-- The search answers 0 or an interrupt of the controller, whatever the priorities are. -/
theorem getNextPending_lt (s : VirtualPLIC maxInterrupts harts)
    (context : Fin harts.numContexts) :
    ∃ irq < maxInterrupts + 1, s.getNextPending context = some irq := by
  rw [getNextPending, dif_pos context.isLt]
  refine ⟨_, ?_, rfl⟩
  have hsorted : (List.finRange (maxInterrupts + 1)).tail.Pairwise (· < ·) :=
    (List.pairwise_lt_finRange _).tail
  split
  · rcases nextPendingLoop_cases s context hsorted 0 0 with ⟨heq, -⟩ | ⟨irq, -, heq, -⟩
    · rw [heq]
      exact Nat.succ_pos _
    · rw [heq]
      exact (Nat.mod_le _ _).trans_lt irq.isLt
  · exact Nat.succ_pos _

/-- A completion indexes the interrupts with the value that is written. -/
theorem isSome_complete_iff (s : VirtualPLIC maxInterrupts harts) :
    (s.complete cpu context value).isSome ↔ value ≤ maxInterrupts := by
  rw [complete]
  by_cases hlt : value < maxInterrupts + 1
  · refine iff_of_true ?_ (Nat.le_of_lt_succ hlt)
    obtain ⟨pcontextId, hp⟩ := exists_vcontextToPcontext context
    obtain ⟨out, hout⟩ := exists_updateHartLine
      (s := { s with active := s.active.set value false }) cpu context
    have hhost : ∃ hostOut, (if s.hw[value] then
        (vcontextToPcontext harts context).map fun pcontextId =>
          [VplicOutput.hostComplete pcontextId value]
        else some []) = some hostOut := by
      rw [hp]
      split <;> exact ⟨_, rfl⟩
    obtain ⟨hostOut, hhost⟩ := hhost
    simp only [Vector.getElem?_eq_getElem hlt, setChecked, dif_pos hlt, Option.bind_eq_bind,
      Option.bind_some, hhost, hout]
    rfl
  · refine iff_of_false ?_ fun hle => hlt (Nat.lt_succ_of_le hle)
    rw [Vector.getElem?_eq_none (Nat.le_of_not_lt hlt)]
    exact Bool.false_ne_true

/-- **Each access returns**, except a completion of an interrupt that the controller does not
have. -/
theorem isSome_vplicEmulAccess_iff (s : VirtualPLIC maxInterrupts harts)
    (cpu offset size value : Nat) (isWrite : Bool) :
    (s.vplicEmulAccess cpu offset size value isWrite).isSome ↔
      ¬ CompletesBeyond maxInterrupts harts offset size value isWrite := by
  by_cases hclaim : ∃ context, ClaimAccess harts context offset size value
  · obtain ⟨context, hc⟩ := hclaim
    rw [vplicEmulAccess_claim hc]
    cases isWrite with
    | true =>
      -- the only index that is the guest's own: the interrupt that it says it completes
      rw [if_pos rfl, isSome_complete_iff, ← Nat.not_lt]
      exact not_congr ⟨fun h => ⟨rfl, h, context, hc⟩, fun h => h.2.1⟩
    | false =>
      obtain ⟨irq, hirq, hnext⟩ := getNextPending_lt s context
      obtain ⟨s', out, h⟩ := claim_of_next cpu hnext hirq
      rw [if_neg Bool.false_ne_true, h]
      exact iff_of_true rfl fun h => absurd h.1 Bool.false_ne_true
  · refine iff_of_true (Option.isSome_iff_exists.mpr ?_) fun h => hclaim h.2.2
    rw [vplicEmulAccess]
    split
    · exact ⟨_, rfl⟩
    next hsize =>
    split
    · exact ⟨_, rfl⟩
    next hvalue =>
    split
    · exact exists_priorityAccess s
    split
    · split <;> exact ⟨_, rfl⟩
    split
    · exact exists_enableAccess s
    split
    · exact exists_thresholdAccess s _
    split
    · next hoff =>
      rw [claimCompleteAccess]
      split
      · exact ⟨_, rfl⟩
      · next context hctx =>
        obtain ⟨hval, hodd⟩ := supervisor?_eq_some.mp hctx
        exact absurd ⟨context, hodd, by omega, by omega, by omega⟩ hclaim
    · exact ⟨_, rfl⟩

/-- A guest of one hart completes the interrupt 5 of a controller with 3. -/
theorem not_isSome_vplicEmulAccess : ¬ ∀ (maxInterrupts : Nat) (harts : ZoneHarts)
    (h : List VplicEvent) (s : VirtualPLIC maxInterrupts harts),
    (vplicSystem maxInterrupts harts).Run h s → ∀ cpu offset size value isWrite,
      (s.vplicEmulAccess cpu offset size value isWrite).isSome := by
  intro h
  have hsome := h 3 ⟨[0], by decide⟩ [] (new _ _) (.start rfl) 0 0x201004 4 5 true
  exact absurd hsome (by decide)

/-! ## Writes that do nothing -/

/-- A word is written that is there already, and no line is looked at: a priority of an interrupt
that is neither physical nor enabled, enable bits, or no register at all. -/
structure Idle (s : VirtualPLIC maxInterrupts harts) (offset value : Nat) : Prop where
  priority : ∀ irq : Fin (maxInterrupts + 1), PriorityWrite offset 4 value true irq →
    s.hw.get irq = false ∧ s.priority.get irq = value ∧
      ∀ context : Fin harts.numContexts, context.val % 2 = 1 →
        (s.enable.get context).get irq = false
  enable : ∀ context word, EnableWrite harts context offset 4 value true word →
    ∀ irq ∈ wordIrqs maxInterrupts (word * 32),
      (s.enable.get context).get irq = value.testBit (irq.val - word * 32)
  context : ∀ context : Fin harts.numContexts, context.val % 2 = 1 →
    offset ≠ 0x200000 + 0x1000 * context.val ∧ offset ≠ 0x200004 + 0x1000 * context.val

/-- The update of a line is seen outside. -/
theorem updateHartLine_ne_nil : s.updateHartLine cpu context ≠ some [] := by
  intro h
  obtain ⟨pcontextId, -, h⟩ := Option.bind_eq_some_iff.mp h
  split at h
  · obtain ⟨irqId, -, h⟩ := Option.bind_eq_some_iff.mp h
    cases h
  · cases h

/-- No output of an update of some lines means that there is no line to update. -/
theorem updateHartLines_eq_nil_iff (s : VirtualPLIC maxInterrupts harts) (cpu : Nat)
    (test : Fin harts.numContexts → Bool) : s.updateHartLines cpu test = some [] ↔
      ∀ context : Fin harts.numContexts, context.val % 2 = 1 → test context = false := by
  -- what was put out stays, and so the first line that is updated shows
  have hgrow : ∀ (contexts : List (Fin harts.numContexts)) acc, contexts.foldlM
      (fun out c => (s.updateHartLine cpu c.val).map (out ++ ·)) acc = some [] →
        acc = [] ∧ contexts = [] := by
    intro contexts
    induction contexts with
    | nil =>
      intro acc h
      exact ⟨Option.some.inj h, rfl⟩
    | cons c contexts ih =>
      intro acc h
      obtain ⟨out, hout⟩ := exists_updateHartLine (s := s) cpu c
      rw [List.foldlM_cons, hout] at h
      obtain ⟨-, rfl⟩ := List.append_eq_nil_iff.mp (ih (acc ++ out) h).1
      exact absurd hout updateHartLine_ne_nil
  rw [updateHartLines_eq]
  constructor
  · intro h context hodd
    have hnil := (hgrow _ _ h).2
    rw [List.filter_eq_nil_iff] at hnil
    have hnot := hnil context (List.mem_finRange context)
    simpa [hodd] using hnot
  · intro h
    rw [List.filter_eq_nil_iff.mpr]
    · rfl
    · intro context _ hnot
      rw [Bool.and_eq_true, bne_iff_ne] at hnot
      rw [h context (by omega)] at hnot
      exact Bool.false_ne_true hnot.2

/-- A write of a priority. -/
theorem vplicEmulAccess_priority {irq : Fin (maxInterrupts + 1)}
    (h : PriorityWrite offset 4 value true irq) :
    s.vplicEmulAccess cpu offset 4 value true =
      (if s.hw.get irq then some [.hostSetPriority irq value]
        else updateHartLines { s with priority := s.priority.set irq value irq.isLt } cpu
          fun c => (s.enable.get c).get irq).map
        fun out => (0, { s with priority := s.priority.set irq value irq.isLt }, out) := by
  obtain ⟨-, hvalue, rfl, ⟨hne, hlt⟩, -⟩ := h
  have hirq : 4 * irq.val / 4 = irq.val := by omega
  have hbound := irq.isLt
  rw [vplicEmulAccess, if_neg (by omega), if_neg (by omega), if_pos (by omega), priorityAccess,
    dif_neg (by omega), if_pos rfl]
  simp only [hirq, Nat.mod_eq_of_lt hvalue]
  rfl

/-- A write of a threshold is seen outside. -/
theorem vplicEmulAccess_threshold (hodd : context.val % 2 = 1)
    (hoff : offset = 0x200000 + 0x1000 * context.val) (hvalue : value < 2 ^ 32) :
    s.vplicEmulAccess cpu offset 4 value true ≠ some (answer, s, []) := by
  subst hoff
  intro h
  have hn := numContexts_le harts
  have hctx : supervisor? harts ((0x200000 + 0x1000 * context.val - 0x200000) / 0x1000) =
      some context := supervisor?_eq_some.mpr ⟨by omega, hodd⟩
  rw [vplicEmulAccess, if_neg (by omega), if_neg (by omega), if_neg (by omega), if_neg (by omega),
    if_neg (by omega), if_pos (by omega), thresholdAccess, hctx] at h
  obtain ⟨pcontextId, -, h⟩ := Option.bind_eq_some_iff.mp h
  obtain ⟨out, -, h⟩ := Option.bind_eq_some_iff.mp h
  have hout := congrArg (·.2.2) (Option.some.inj h)
  cases hout

/-- A completion is seen outside. -/
theorem complete_ne_silent (s : VirtualPLIC maxInterrupts harts) :
    s.complete cpu context value ≠ some (answer, s, []) := by
  intro h
  obtain ⟨hw, -, h⟩ := Option.bind_eq_some_iff.mp h
  obtain ⟨hostOut, -, h⟩ := Option.bind_eq_some_iff.mp h
  obtain ⟨active, -, h⟩ := Option.bind_eq_some_iff.mp h
  obtain ⟨out, hout, h⟩ := Option.bind_eq_some_iff.mp h
  have hnil := congrArg (·.2.2) (Option.some.inj h)
  obtain ⟨-, rfl⟩ := List.append_eq_nil_iff.mp hnil
  exact updateHartLine_ne_nil hout

/-- The loop does nothing when each bit is there already. -/
theorem writeEnables_eq_self {start : Nat} {l : List (Fin (maxInterrupts + 1))}
    (h : ∀ irq ∈ l, (s.enable.get context).get irq = value.testBit (irq.val - start)) :
    writeEnables cpu context start value s l = some (s, []) := by
  induction l with
  | nil => rfl
  | cons irq l ih =>
    rw [writeEnables, if_pos]
    · exact ih fun irq hirq => h irq (List.mem_cons_of_mem _ hirq)
    · exact beq_iff_eq.mpr (h irq List.mem_cons_self)

/-- A write of a priority does nothing when it finds its value and looks at no line. -/
theorem vplicEmulAccess_priority_iff (s : VirtualPLIC maxInterrupts harts) (cpu : Nat)
    (irq : Fin (maxInterrupts + 1)) (hw : PriorityWrite offset 4 value true irq) :
    (s.vplicEmulAccess cpu offset 4 value true).map Prod.snd = some (s, []) ↔
      s.hw.get irq = false ∧ s.priority.get irq = value ∧
        ∀ context : Fin harts.numContexts, context.val % 2 = 1 →
          (s.enable.get context).get irq = false := by
  rw [vplicEmulAccess_priority hw, Option.map_map]
  constructor
  · intro h
    obtain ⟨out, hout, h⟩ := Option.map_eq_some_iff.mp h
    obtain rfl : out = [] := congrArg Prod.snd h
    have hprio : s.priority.set irq value irq.isLt = s.priority := congrArg (·.1.priority) h
    split at hout
    · cases hout
    · next hhw =>
      rw [updateHartLines_eq_nil_iff] at hout
      refine ⟨Bool.eq_false_of_not_eq_true hhw, ?_, hout⟩
      rw [← hprio]
      simp
  · rintro ⟨hhw, rfl, hnone⟩
    have hprio : s.priority.set irq (s.priority.get irq) irq.isLt = s.priority := by simp
    rw [hprio, if_neg (Bool.eq_false_iff.mp hhw), (updateHartLines_eq_nil_iff _ cpu _).mpr hnone]
    rfl

/-- **A write of a word does nothing** exactly when it is idle. -/
theorem idle_iff (s : VirtualPLIC maxInterrupts harts) (cpu : Nat) (hoff : offset % 4 = 0)
    (hvalue : value < 2 ^ 32) :
    (s.vplicEmulAccess cpu offset 4 value true).map Prod.snd = some (s, []) ↔
      s.Idle offset value := by
  constructor
  · intro h
    obtain ⟨⟨answer, -⟩, h, rfl⟩ := Option.map_eq_some_iff.mp h
    refine ⟨fun irq hw => ?_, fun c word hw irq hirq => ?_, fun c hodd => ⟨?_, ?_⟩⟩
    · exact (vplicEmulAccess_priority_iff s cpu irq hw).mp (congrArg (·.map Prod.snd) h)
    · rw [vplicEmulAccess_enable hw] at h
      obtain ⟨⟨s', out⟩, hloop, h⟩ := Option.map_eq_some_iff.mp h
      cases h
      have hs : s = writeBits c (word * 32) value s (wordIrqs maxInterrupts (word * 32)) :=
        writeEnables_state hloop
      rw [hs, enable_writeBits, if_pos ⟨rfl, hirq⟩]
    · exact fun heq => vplicEmulAccess_threshold hodd heq hvalue h
    · intro heq
      rw [vplicEmulAccess_claim ⟨hodd, rfl, hvalue, heq⟩, if_pos rfl] at h
      exact complete_ne_silent s h
  · intro hidle
    rw [vplicEmulAccess, if_neg (by omega), if_neg (by omega)]
    -- the ranges in the order of the source
    split
    · next hprio =>
      by_cases hirq : maxInterrupts < offset / 4 ∨ offset / 4 = 0
      · rw [priorityAccess, dif_pos hirq, Option.map_some]
      · have hlt : offset / 4 < maxInterrupts + 1 := by omega
        have hw : PriorityWrite offset 4 value true (offset / 4) :=
          ⟨rfl, hvalue, by omega, by omega, rfl⟩
        have h := (vplicEmulAccess_priority_iff s cpu ⟨offset / 4, hlt⟩ hw).mpr
          (hidle.priority ⟨offset / 4, hlt⟩ hw)
        rwa [vplicEmulAccess, if_neg (by omega), if_neg (by omega), if_pos hprio] at h
    split
    · rw [if_pos rfl, Option.map_some]
    split
    · next hen =>
      rw [enableAccess]
      split
      · rfl
      · next context hctx =>
        obtain ⟨hval, hodd⟩ := supervisor?_eq_some.mp hctx
        have hbits := hidle.enable context ((offset - 0x2000) % 0x80 / 4)
          ⟨rfl, hvalue, hodd, by omega, by omega, rfl⟩
        rw [if_pos rfl, writeEnables_eq_self hbits]
        rfl
    split
    · rw [thresholdAccess]
      split
      · rfl
      · next context hctx =>
        obtain ⟨hval, hodd⟩ := supervisor?_eq_some.mp hctx
        exact absurd (by omega) (hidle.context context hodd).1
    split
    · rw [claimCompleteAccess]
      split
      · rfl
      · next context hctx =>
        obtain ⟨hval, hodd⟩ := supervisor?_eq_some.mp hctx
        exact absurd (by omega) (hidle.context context hodd).2
    · rfl

end VirtualPLIC

end Hvisor
