import Hvisor.Irqchip.VplicAccess
import Mathlib.Data.List.Nodup

/-!
# The interrupt lines of a zone on riscv64

The `VSEIP` bits that the virtual PLIC asserts, from `plic/vplic.rs` and `plic/mod.rs`: a call on
one CPU writes the bit of this CPU, and tells other CPUs by `UPDATE_HART_LINE` events to look at
theirs. A call updates the lines of the contexts that its code names, and not those of all contexts
for which the answer changes.

## Main definitions

* `VirtualPLIC.Deliverable`: there is an interrupt that the line of a context stands for
* `HartLines`, `HartLines.applyAll`: the lines and the events under way, and what a call does to
  them
* `ExactLines`: each line is as it should be, unless its CPU has yet to look
* `VplicLines`, `VplicLines.system`: a controller with its lines, and its runs
* `VplicLines.Unnoticed`: a call that changes the answer of no context whose line it does not update

## Main results

* `VirtualPLIC.getNextPending_eq`: the search tells what the line should be
* `ExactLines.next`: the rule for exact lines
* `wordLines`: the line after a word of enable bits
* `VplicLines.lines_exact_of_run`: the lines are exact, in runs of such calls
-/

namespace Hvisor

namespace VirtualPLIC

variable {maxInterrupts : Nat} {harts : ZoneHarts} {s s' : VirtualPLIC maxInterrupts harts}
  {context c : Fin harts.numContexts} {out : List VplicOutput} {cpu p : Nat}

/-! ## What a line stands for -/

/-- The interrupt may be taken by a context: pending, not active, enabled and over its threshold. -/
def deliverable (s : VirtualPLIC maxInterrupts harts) (context : Fin harts.numContexts)
    (irq : Fin (maxInterrupts + 1)) : Bool :=
  s.claimable context irq && decide (s.threshold.get context < s.priority.get irq)

/-- Some interrupt may be taken by the context. -/
def Deliverable (s : VirtualPLIC maxInterrupts harts) (context : Fin harts.numContexts) : Prop :=
  ∃ irq, s.deliverable context irq = true

instance (s : VirtualPLIC maxInterrupts harts) (context : Fin harts.numContexts) :
    Decidable (s.Deliverable context) :=
  inferInstanceAs (Decidable (∃ irq, s.deliverable context irq = true))

/-- **The search tells what the line should be.** -/
theorem getNextPending_eq (hs : s.PrioritiesInRange) (context : Fin harts.numContexts) :
    ∃ answer, s.getNextPending context = some answer ∧
      (answer != 0) = decide (s.Deliverable context) := by
  obtain ⟨answer, hnext, hisNext⟩ := getNextPending_isNext context hs
  refine ⟨answer, hnext, ?_⟩
  rcases hisNext with ⟨irq, rfl, hne, hc, hthr, -⟩ | ⟨rfl, hall⟩
  · have hdel : s.Deliverable context :=
      ⟨irq, Bool.and_eq_true_iff.mpr ⟨hc, decide_eq_true hthr⟩⟩
    rw [decide_eq_true hdel, bne_iff_ne]
    exact hne
  · have hdel : ¬ s.Deliverable context := by
      rintro ⟨irq, hirq⟩
      rw [deliverable, Bool.and_eq_true, decide_eq_true_eq] at hirq
      exact Nat.not_lt.mpr (hall irq hirq.1) hirq.2
    rw [decide_eq_false hdel]
    rfl

end VirtualPLIC

/-! ## Contexts and CPUs -/

section

variable {harts : ZoneHarts} {context c : Fin harts.numContexts}

theorem ZoneHarts.half_lt (harts : ZoneHarts) (context : Fin harts.numContexts) :
    context.val / 2 < harts.cpus.length := by
  have hlt : context.val < harts.cpus.length * 2 := context.isLt
  omega

/-- The CPU of a context. -/
def ZoneHarts.cpuOf (harts : ZoneHarts) (context : Fin harts.numContexts) : Nat :=
  harts.cpus.get ⟨context.val / 2, harts.half_lt context⟩

/-- `pcontext_to_vcontext` on a CPU: its place among the CPUs of the zone. -/
def pcontextToVcontext (harts : ZoneHarts) (cpu : Nat) : Nat :=
  (harts.cpus.findIdx? (· == cpu)).getD 0 * 2 + 1

theorem vcontextToPcontext_eq (context : Fin harts.numContexts) :
    VirtualPLIC.vcontextToPcontext harts context = some (harts.cpuOf context * 2 + 1) := by
  rw [VirtualPLIC.vcontextToPcontext, List.getElem?_eq_getElem (harts.half_lt context)]
  rfl

/-- The context that a CPU of the zone runs in supervisor mode. -/
theorem exists_context {cpu : Nat} (h : cpu ∈ harts.cpus) :
    ∃ context : Fin harts.numContexts, context.val = pcontextToVcontext harts cpu ∧
      context.val % 2 = 1 ∧ harts.cpuOf context = cpu := by
  have hsome : (harts.cpus.findIdx? (· == cpu)).isSome = true := by
    rw [List.findIdx?_isSome, List.any_eq_true]
    exact ⟨cpu, h, beq_self_eq_true _⟩
  obtain ⟨i, hi⟩ := Option.isSome_iff_exists.mp hsome
  obtain ⟨hlt, heq, -⟩ := List.findIdx?_eq_some_iff_getElem.mp hi
  have hval : pcontextToVcontext harts cpu = i * 2 + 1 := by rw [pcontextToVcontext, hi]; rfl
  have hhalf : (i * 2 + 1) / 2 = i := by omega
  refine ⟨⟨i * 2 + 1, show _ < harts.cpus.length * 2 by omega⟩, hval.symm, ?_, ?_⟩
  · show (i * 2 + 1) % 2 = 1
    omega
  · simp only [ZoneHarts.cpuOf, hhalf]
    exact eq_of_beq heq

/-- Contexts of supervisor mode are on different CPUs. -/
theorem cpuOf_injective (hn : harts.cpus.Nodup) (h : context.val % 2 = 1) (hc : c.val % 2 = 1)
    (heq : harts.cpuOf context = harts.cpuOf c) : context = c := by
  have hidx := hn.injective_get heq
  rw [Fin.mk.injEq] at hidx
  exact Fin.ext (by omega)

end

/-! ## The lines -/

/-- The `VSEIP` bits of the CPUs, and how many `UPDATE_HART_LINE` events wait for each. -/
structure HartLines where
  line : Nat → Bool
  events : Nat → Nat

namespace HartLines

/-- What an output of a call on a CPU does. -/
def apply (cpu : Nat) (lines : HartLines) : VplicOutput → HartLines
  | .vseip set => { lines with line := Function.update lines.line cpu set }
  | .sendEvent target .UPDATE_HART_LINE =>
    { lines with events := Function.update lines.events target (lines.events target + 1) }
  | _ => lines

/-- The lines after all outputs. -/
def applyAll (lines : HartLines) (cpu : Nat) (out : List VplicOutput) : HartLines :=
  out.foldl (apply cpu) lines

theorem applyAll_append (lines : HartLines) (cpu : Nat) (out out' : List VplicOutput) :
    lines.applyAll cpu (out ++ out') = (lines.applyAll cpu out).applyAll cpu out' :=
  List.foldl_append

/-- Nothing happens to the line of a CPU, nor to its events. -/
def Same (lines lines' : HartLines) (p : Nat) : Prop :=
  lines'.line p = lines.line p ∧ lines'.events p = lines.events p

theorem Same.trans {lines lines' lines'' : HartLines} {p : Nat} (h : Same lines lines' p)
    (h' : Same lines' lines'' p) : Same lines lines'' p :=
  ⟨h'.1.trans h.1, h'.2.trans h.2⟩

end HartLines

/-! ## Exact lines -/

section

variable {maxInterrupts : Nat} {harts : ZoneHarts} {s s' : VirtualPLIC maxInterrupts harts}
  {L L' L'' : HartLines} {context c : Fin harts.numContexts} {out : List VplicOutput} {cpu p : Nat}

/-- The line of a context stands for its interrupts, unless its CPU has yet to look. -/
def Fresh (s : VirtualPLIC maxInterrupts harts) (L : HartLines) (c : Fin harts.numContexts) :
    Prop :=
  L.events (harts.cpuOf c) ≠ 0 ∨ L.line (harts.cpuOf c) = decide (s.Deliverable c)

/-- The lines of the supervisor-mode contexts are exact. -/
def ExactLines (s : VirtualPLIC maxInterrupts harts) (L : HartLines) : Prop :=
  ∀ c : Fin harts.numContexts, c.val % 2 = 1 → Fresh s L c

theorem Fresh.same (h : Fresh s L c) (hsame : HartLines.Same L L' (harts.cpuOf c))
    (hdel : s'.Deliverable c ↔ s.Deliverable c) : Fresh s' L' c := by
  rw [Fresh, hsame.1, hsame.2, decide_eq_decide.mpr hdel]
  exact h

/-- **The rule for exact lines**: a call writes the line of a context, or leaves both the line and
what it stands for. -/
theorem ExactLines.next (h : ExactLines s L)
    (hc : ∀ c : Fin harts.numContexts, c.val % 2 = 1 → Fresh s' L' c ∨
      HartLines.Same L L' (harts.cpuOf c) ∧ (s'.Deliverable c ↔ s.Deliverable c)) :
    ExactLines s' L' := by
  intro c hodd
  rcases hc c hodd with hfresh | ⟨hsame, hdel⟩
  · exact hfresh
  · exact (h c hodd).same hsame hdel

/-- The outputs of an update, and the line after it. -/
theorem applyAll_updateHartLine (hs : s.PrioritiesInRange)
    (h : s.updateHartLine cpu context = some out) :
    Fresh s (L.applyAll cpu out) context ∧
      (harts.cpuOf context ≠ cpu → (L.applyAll cpu out).events (harts.cpuOf context) ≠ 0) ∧
      ∀ p ≠ harts.cpuOf context, HartLines.Same L (L.applyAll cpu out) p := by
  obtain ⟨pcontextId, hpcontext, h⟩ := Option.bind_eq_some_iff.mp h
  obtain rfl : harts.cpuOf context * 2 + 1 = pcontextId :=
    Option.some.inj ((vcontextToPcontext_eq context).symm.trans hpcontext)
  have hhalf : (harts.cpuOf context * 2 + 1) / 2 = harts.cpuOf context := by omega
  rw [hhalf] at h
  split at h
  · next hcpu =>
    obtain ⟨answer, hanswer, h⟩ := Option.bind_eq_some_iff.mp h
    obtain ⟨answer', hanswer', heq⟩ := VirtualPLIC.getNextPending_eq hs context
    obtain rfl : answer = answer' := Option.some.inj (hanswer.symm.trans hanswer')
    cases h
    refine ⟨.inr ?_, fun hne => absurd hcpu hne, fun p hp => ⟨?_, rfl⟩⟩
    · rw [← heq, hcpu]
      exact Function.update_self ..
    · exact Function.update_of_ne (hcpu ▸ hp) ..
  · cases h
    have hevents : (L.applyAll cpu [.sendEvent (harts.cpuOf context) .UPDATE_HART_LINE]).events
        (harts.cpuOf context) ≠ 0 :=
      (Function.update_self ..).trans_ne (Nat.succ_ne_zero _)
    exact ⟨.inl hevents, fun _ => hevents, fun p hp => ⟨rfl, Function.update_of_ne hp ..⟩⟩

/-- The loop over the contexts that a test names writes their lines and no others. -/
theorem applyAll_updateHartLines (hn : harts.cpus.Nodup) (hs : s.PrioritiesInRange)
    {test : Fin harts.numContexts → Bool} (h : s.updateHartLines cpu test = some out)
    (hodd : c.val % 2 = 1) :
    if test c then Fresh s (L.applyAll cpu out) c
    else HartLines.Same L (L.applyAll cpu out) (harts.cpuOf c) := by
  -- the contexts of a prefix of the loop
  have hloop : ∀ (l : List (Fin harts.numContexts)) (out : List VplicOutput),
      (∀ c ∈ l, c.val % 2 = 1) →
      l.foldlM (fun out (c : Fin harts.numContexts) =>
        (s.updateHartLine cpu c).map (out ++ ·)) [] = some out →
      if c ∈ l then Fresh s (L.applyAll cpu out) c
      else HartLines.Same L (L.applyAll cpu out) (harts.cpuOf c) := by
    intro l
    induction l using List.reverseRecOn with
    | nil =>
      intro out _ h
      cases h
      rw [if_neg List.not_mem_nil]
      exact ⟨rfl, rfl⟩
    | append_singleton l context ih =>
      intro out hl h
      rw [List.foldlM_append] at h
      obtain ⟨out₁, hout₁, h⟩ := Option.bind_eq_some_iff.mp h
      rw [List.foldlM_cons] at h
      obtain ⟨_, h, h'⟩ := Option.bind_eq_some_iff.mp h
      cases h'
      obtain ⟨out₂, hout₂, rfl⟩ := Option.map_eq_some_iff.mp h
      have hl' := List.forall_mem_append.mp hl
      have ih := ih out₁ hl'.1 hout₁
      rw [HartLines.applyAll_append]
      obtain ⟨hfresh, -, hothers⟩ := applyAll_updateHartLine (L := L.applyAll cpu out₁) hs hout₂
      by_cases hc : c = context
      · subst hc
        rw [if_pos (List.mem_append_right _ (List.mem_singleton_self _))]
        exact hfresh
      · have hsame := hothers (harts.cpuOf c) fun heq =>
          hc (cpuOf_injective hn hodd (hl'.2 _ (List.mem_singleton_self _)) heq)
        by_cases hmem : c ∈ l
        · rw [if_pos (List.mem_append_left _ hmem)]
          rw [if_pos hmem] at ih
          exact ih.same hsame Iff.rfl
        · rw [if_neg fun h => (List.mem_append.mp h).elim hmem (hc ∘ List.mem_singleton.mp)]
          rw [if_neg hmem] at ih
          exact ih.trans hsame
  have hmem : c ∈ (List.finRange harts.numContexts).filter (fun c => c.val % 2 != 0 && test c) ↔
      test c = true := by
    simp [hodd]
  have hall : ∀ c ∈ (List.finRange harts.numContexts).filter (fun c => c.val % 2 != 0 && test c),
      c.val % 2 = 1 := fun c hc => (by simpa using (List.mem_filter.mp hc).2 : _ ∧ _).1
  have := hloop _ out hall (VirtualPLIC.updateHartLines_eq s cpu test ▸ h)
  rwa [if_congr hmem rfl rfl] at this

/-! ## A word of enable bits -/

open VirtualPLIC

section

variable {start value : Nat} {irq : Fin (maxInterrupts + 1)} {l : List (Fin (maxInterrupts + 1))}

/-- Writing the bit of the interrupt updates no line: the bit stays as it is, or the interrupt is
one of the hardware. -/
def VirtualPLIC.quiet (s : VirtualPLIC maxInterrupts harts) (context : Fin harts.numContexts)
    (start value : Nat) (irq : Fin (maxInterrupts + 1)) : Bool :=
  (s.enable.get context).get irq == value.testBit (irq.val - start) || s.hw.get irq

/-- The interrupts of a word up to the last one whose bit updates the line. -/
def VirtualPLIC.seenBits (s : VirtualPLIC maxInterrupts harts) (context : Fin harts.numContexts)
    (start value : Nat) (l : List (Fin (maxInterrupts + 1))) : List (Fin (maxInterrupts + 1)) :=
  l.rdropWhile (s.quiet context start value)

/-- The line while a word is written: the CPU has yet to look, or saw the bits up to the last one
that updates the line. -/
structure WordLines (s : VirtualPLIC maxInterrupts harts) (L L' : HartLines) (cpu : Nat)
    (context : Fin harts.numContexts) (start value : Nat) (l : List (Fin (maxInterrupts + 1))) :
    Prop where
  seen : Fresh (writeBits context start value s (s.seenBits context start value l)) L' context
  remote : harts.cpuOf context ≠ cpu → s.seenBits context start value l ≠ [] →
    L'.events (harts.cpuOf context) ≠ 0
  others : ∀ p ≠ harts.cpuOf context, HartLines.Same L L' p

/-- A round that updates no line. -/
theorem WordLines.quiet (h : WordLines s L L' cpu context start value l)
    (hquiet : s.quiet context start value irq = true) :
    WordLines s L L' cpu context start value (l ++ [irq]) := by
  have hseen : s.seenBits context start value (l ++ [irq]) = s.seenBits context start value l :=
    List.rdropWhile_concat_pos _ _ _ hquiet
  refine ⟨?_, ?_, h.others⟩
  · rw [hseen]
    exact h.seen
  · rw [hseen]
    exact h.remote

theorem hw_writeBits : (writeBits context start value s l).hw = s.hw := by
  induction l generalizing s with
  | nil => rfl
  | cons irq l ih => exact ih.trans rfl

theorem prioritiesInRange_writeBits (hs : s.PrioritiesInRange) :
    (writeBits context start value s l).PrioritiesInRange := by
  induction l generalizing s with
  | nil => exact hs
  | cons irq l ih => exact ih hs

theorem deliverable_writeBits (hne : c ≠ context) (i : Fin (maxInterrupts + 1)) :
    (writeBits context start value s l).deliverable c i = s.deliverable c i := by
  induction l generalizing s with
  | nil => rfl
  | cons irq l ih =>
    have hne' : context.val ≠ c.val := fun h => hne (Fin.ext h.symm)
    have henable : (s.setEnable context irq (value.testBit (irq.val - start))).enable[c] =
        s.enable[c] := Vector.getElem_set_ne context.isLt _ hne'
    rw [writeBits, List.foldl_cons, ← writeBits, ih, deliverable, claimable, henable]
    rfl

/-- **The line after a word of enable bits.** -/
theorem wordLines (hs : s.PrioritiesInRange) (hl : l.Nodup) (hfresh : Fresh s L context)
    (h : writeEnables cpu context start value s l = some (s', out)) :
    WordLines s L (L.applyAll cpu out) cpu context start value l := by
  -- the rounds from the last one on; each looks at the bit as it was before the access
  induction l using List.reverseRecOn generalizing s' out with
  | nil =>
    cases h
    exact ⟨hfresh, fun _ hne => absurd rfl hne, fun _ _ => ⟨rfl, rfl⟩⟩
  | append_singleton l irq ih =>
    obtain ⟨s₁, out₁, out₂, hloop, -, hround, rfl⟩ := writeEnables_snoc h
    obtain ⟨hl', -, hdisjoint⟩ := List.nodup_append.mp hl
    have ih := ih hl' hloop
    obtain rfl := writeEnables_state hloop
    have hmem : irq ∉ l := fun hmem => hdisjoint irq hmem irq (List.mem_singleton_self _) rfl
    have hbit : ((writeBits context start value s l).enable.get context).get irq =
        (s.enable.get context).get irq := by
      rw [enable_writeBits, if_neg fun h => hmem h.2]
    rw [HartLines.applyAll_append]
    cases hround with
    | same hsame =>
      refine ih.quiet (Bool.or_eq_true_iff.mpr (.inl ?_))
      rw [← hbit, hsame]
      exact beq_self_eq_true _
    | hardware pcontextId hne hhw hp =>
      rw [hw_writeBits] at hhw
      exact ih.quiet (Bool.or_eq_true_iff.mpr (.inr hhw))
    | virtual out₂ hne hhw hout =>
      rw [hw_writeBits] at hhw
      rw [hbit] at hne
      have hquiet : ¬ s.quiet context start value irq = true := by
        rw [VirtualPLIC.quiet, hhw, Bool.or_false, beq_iff_eq]
        exact hne
      have hseen : s.seenBits context start value (l ++ [irq]) = l ++ [irq] :=
        List.rdropWhile_concat_neg _ _ _ hquiet
      have hwrite : writeBits context start value s (l ++ [irq]) =
          (writeBits context start value s l).setEnable context irq
            (value.testBit (irq.val - start)) := List.foldl_append
      obtain ⟨hfresh', hremote, hothers⟩ := applyAll_updateHartLine (L := L.applyAll cpu out₁)
        (hwrite ▸ prioritiesInRange_writeBits hs) hout
      refine ⟨?_, fun hne _ => hremote hne, fun p hp => (ih.others p hp).trans (hothers p hp)⟩
      rw [hseen, hwrite]
      exact hfresh'

end

/-! ## Interrupts that another one covers -/

namespace VirtualPLIC

variable {irq : Fin (maxInterrupts + 1)}

/-- The interrupt is enabled for a context, and over its threshold. -/
def wants (s : VirtualPLIC maxInterrupts harts) (c : Fin harts.numContexts)
    (irq : Fin (maxInterrupts + 1)) : Bool :=
  (s.enable.get c).get irq && decide (s.threshold.get c < s.priority.get irq)

theorem deliverable_eq (s : VirtualPLIC maxInterrupts harts) (c : Fin harts.numContexts)
    (irq : Fin (maxInterrupts + 1)) :
    s.deliverable c irq = (s.pending.get irq && !s.active.get irq && s.wants c irq) :=
  Bool.and_assoc ..

/-- Another interrupt may be taken by the context. -/
def DeliverableBut (s : VirtualPLIC maxInterrupts harts) (c : Fin harts.numContexts)
    (irq : Fin (maxInterrupts + 1)) : Prop :=
  ∃ irq', irq' ≠ irq ∧ s.deliverable c irq' = true

instance (s : VirtualPLIC maxInterrupts harts) (c : Fin harts.numContexts)
    (irq : Fin (maxInterrupts + 1)) : Decidable (s.DeliverableBut c irq) :=
  inferInstanceAs (Decidable (∃ irq', irq' ≠ irq ∧ s.deliverable c irq' = true))

/-- One interrupt changes, and another one covers it where this matters. -/
theorem deliverable_iff_of_covered (irq : Fin (maxInterrupts + 1))
    (hoff : ∀ irq' ≠ irq, s'.deliverable c irq' = s.deliverable c irq')
    (hcover : s'.deliverable c irq ≠ s.deliverable c irq → s.DeliverableBut c irq) :
    s'.Deliverable c ↔ s.Deliverable c := by
  by_cases h : s'.deliverable c irq = s.deliverable c irq
  · refine exists_congr fun irq' => ?_
    by_cases heq : irq' = irq
    · rw [heq, h]
    · rw [hoff irq' heq]
  · obtain ⟨irq', hne, hdel⟩ := hcover h
    exact iff_of_true ⟨irq', (hoff irq' hne).trans hdel⟩ ⟨irq', hdel⟩

/-! ## Calls that nothing goes unnoticed in -/

/-- An injection of the hardware that makes an interrupt pending: only the line of its own CPU is
updated. -/
def InjectUnnoticed (s : VirtualPLIC maxInterrupts harts) (cpu intrId : Nat) (hw : Bool) : Prop :=
  ∀ irq : Fin (maxInterrupts + 1), irq.val = intrId → hw = true → s.hw.get irq = true →
    s.pending.get irq = false → s.active.get irq = false →
      ∀ c : Fin harts.numContexts, c.val % 2 = 1 → harts.cpuOf c ≠ cpu →
        s.wants c irq = true → s.DeliverableBut c irq

/-- A claim of an interrupt: only the line of the context that claims is updated. -/
def ClaimUnnoticed (s : VirtualPLIC maxInterrupts harts) (offset size value : Nat)
    (isWrite : Bool) : Prop :=
  ∀ context, ClaimAccess harts context offset size value → isWrite = false →
    ∀ irq : Fin (maxInterrupts + 1), irq.val ≠ 0 → IsNext s context irq →
      ∀ c : Fin harts.numContexts, c.val % 2 = 1 → c ≠ context →
        s.wants c irq = true → s.DeliverableBut c irq

/-- A completion of an interrupt that is pending again: only the line of the context that completes
is updated. -/
def CompleteUnnoticed (s : VirtualPLIC maxInterrupts harts) (offset size value : Nat)
    (isWrite : Bool) : Prop :=
  ∀ context, ClaimAccess harts context offset size value → isWrite = true →
    ∀ irq : Fin (maxInterrupts + 1), irq.val = value → s.pending.get irq = true →
      s.active.get irq = true → ∀ c : Fin harts.numContexts, c.val % 2 = 1 → c ≠ context →
        s.wants c irq = true → s.DeliverableBut c irq

/-- A write of the priority of a hardware interrupt that crosses a threshold: no line is updated. -/
def PriorityUnnoticed (s : VirtualPLIC maxInterrupts harts) (offset size value : Nat)
    (isWrite : Bool) : Prop :=
  ∀ irq : Fin (maxInterrupts + 1), PriorityWrite offset size value isWrite irq →
    s.hw.get irq = true → ∀ c : Fin harts.numContexts, c.val % 2 = 1 → s.claimable c irq = true →
      ¬ (s.threshold.get c < value ↔ s.threshold.get c < s.priority.get irq) →
        s.DeliverableBut c irq

/-- A write of a word of enable bits, on the CPU of the context or without a bit that updates its
line: the bits of hardware interrupts after the last bit that does. -/
def EnableUnnoticed (s : VirtualPLIC maxInterrupts harts) (cpu offset size value : Nat)
    (isWrite : Bool) : Prop :=
  ∀ context, ∀ word < 32, EnableWrite harts context offset size value isWrite word →
    let irqs := wordIrqs maxInterrupts (word * 32)
    let seen := s.seenBits context (word * 32) value irqs
    harts.cpuOf context = cpu ∨ seen = [] →
      ((writeBits context (word * 32) value s irqs).Deliverable context ↔
        (writeBits context (word * 32) value s seen).Deliverable context)

end VirtualPLIC

end

/-! ## Runs -/

/-- A virtual PLIC with the lines of its zone. -/
structure VplicLines (maxInterrupts : Nat) (harts : ZoneHarts) where
  vplic : VirtualPLIC maxInterrupts harts
  lines : HartLines

/-- A call on a CPU of the zone: an injection, an access of the guest, or an `UPDATE_HART_LINE`
event that is taken. -/
inductive LineCall where
  | inject (cpu intrId : Nat) (hw : Bool)
  | access (cpu offset size value : Nat) (isWrite : Bool)
  | updateHartLine (cpu : Nat)

namespace VplicLines

variable {maxInterrupts : Nat} {harts : ZoneHarts}

/-- A hart injects an interrupt into the virtual PLIC. -/
def inject (s : VplicLines maxInterrupts harts) (cpu intrId : Nat) (hw : Bool) :
    Option (VplicLines maxInterrupts harts) :=
  (s.vplic.injectIrq cpu (pcontextToVcontext harts cpu) intrId hw).map fun (vplic, out) =>
    ⟨vplic, s.lines.applyAll cpu out⟩

/-- A guest accesses the virtual PLIC. -/
def access (s : VplicLines maxInterrupts harts) (cpu offset size value : Nat) (isWrite : Bool) :
    Option (VplicLines maxInterrupts harts) :=
  (s.vplic.vplicEmulAccess cpu offset size value isWrite).map fun (_, vplic, out) =>
    ⟨vplic, s.lines.applyAll cpu out⟩

/-- `update_hart_line` for an event that is taken. -/
def updateHartLine (s : VplicLines maxInterrupts harts) (cpu : Nat) :
    Option (VplicLines maxInterrupts harts) :=
  if s.lines.events cpu = 0 then none
  else
    let lines :=
      { s.lines with events := Function.update s.lines.events cpu (s.lines.events cpu - 1) }
    (s.vplic.updateHartLine cpu (pcontextToVcontext harts cpu)).map fun out =>
      { s with lines := lines.applyAll cpu out }

/-- A call, by a hart of the zone. -/
def step (s : VplicLines maxInterrupts harts) : LineCall → Option (VplicLines maxInterrupts harts)
  | .inject cpu intrId hw => if cpu ∈ harts.cpus then s.inject cpu intrId hw else none
  | .access cpu offset size value isWrite =>
    if cpu ∈ harts.cpus then s.access cpu offset size value isWrite else none
  | .updateHartLine cpu => if cpu ∈ harts.cpus then s.updateHartLine cpu else none

/-- A new controller, which knows the interrupts of the hardware; no line is asserted. -/
def start (hw : Vector Bool (maxInterrupts + 1)) : VplicLines maxInterrupts harts where
  vplic := { VirtualPLIC.new maxInterrupts harts with hw }
  lines := ⟨fun _ => false, fun _ => 0⟩

/-- The calls in any order. -/
def system (maxInterrupts : Nat) (harts : ZoneHarts) :
    TransitionSystem (VplicLines maxInterrupts harts) LineCall :=
  .ofStep (fun s => ∃ hw, s = start hw) step

/-- Each context whose answer a call changes is one whose line it updates. -/
def Unnoticed (s : VplicLines maxInterrupts harts) : LineCall → Prop
  | .inject cpu intrId hw => s.vplic.InjectUnnoticed cpu intrId hw
  | .access cpu offset size value isWrite =>
    s.vplic.ClaimUnnoticed offset size value isWrite ∧
    s.vplic.CompleteUnnoticed offset size value isWrite ∧
    s.vplic.PriorityUnnoticed offset size value isWrite ∧
    s.vplic.EnableUnnoticed cpu offset size value isWrite
  | .updateHartLine _ => True

end VplicLines

/-! ## What a call preserves -/

open VirtualPLIC

section

variable {maxInterrupts : Nat} {harts : ZoneHarts} {v v' : VirtualPLIC maxInterrupts harts}
  {L : HartLines} {out : List VplicOutput} {cpu intrId offset size value answer : Nat}
  {hw isWrite : Bool} {context : Fin harts.numContexts}

/-- A call that updates the line of one context. -/
theorem ExactLines.update (hn : harts.cpus.Nodup) (hL : ExactLines v L)
    (hs : v'.PrioritiesInRange) (hodd : context.val % 2 = 1)
    (hout : v'.updateHartLine cpu context = some out)
    (hothers : ∀ c : Fin harts.numContexts, c.val % 2 = 1 → c ≠ context →
      (v'.Deliverable c ↔ v.Deliverable c)) : ExactLines v' (L.applyAll cpu out) := by
  obtain ⟨hfresh, -, hsame⟩ := applyAll_updateHartLine (L := L) hs hout
  refine hL.next fun c hc => ?_
  by_cases heq : c = context
  · exact .inl (heq ▸ hfresh)
  · exact .inr ⟨hsame _ fun h => heq (cpuOf_injective hn hc hodd h), hothers c hc heq⟩

/-- The ways an injection goes. -/
inductive InjectOf (v : VirtualPLIC maxInterrupts harts) (cpu vcontextId intrId : Nat) (hw : Bool) :
    VirtualPLIC maxInterrupts harts → List VplicOutput → Prop
  | silent : InjectOf v cpu vcontextId intrId hw v []
  | hardware (irq : Fin (maxInterrupts + 1)) (out : List VplicOutput) (hirq : irq.val = intrId)
      (hhw : hw = true ∧ v.hw.get irq = true) (hp : v.pending.get irq = false)
      (hout : updateHartLine { v with pending := v.pending.set irq true irq.isLt } cpu vcontextId =
        some out) :
      InjectOf v cpu vcontextId intrId hw { v with pending := v.pending.set irq true irq.isLt } out
  | virtual (irq : Fin (maxInterrupts + 1)) (out : List VplicOutput) (hirq : irq.val = intrId)
      (hout : updateHartLines { v with pending := v.pending.set irq true irq.isLt } cpu
        (fun c => v.wants c irq) = some out) :
      InjectOf v cpu vcontextId intrId hw { v with pending := v.pending.set irq true irq.isLt } out

theorem injectOf {vcontextId : Nat} (h : v.injectIrq cpu vcontextId intrId hw = some (v', out)) :
    InjectOf v cpu vcontextId intrId hw v' out := by
  rw [injectIrq] at h
  split at h
  · next hi =>
    split at h
    · cases h
      exact .silent
    · next heq =>
      rw [bne_iff_ne, not_not] at heq
      split at h
      · next hp =>
        obtain ⟨out', hout, h⟩ := Option.map_eq_some_iff.mp h
        cases h
        rw [Bool.not_eq_true'] at hp
        split at hout
        · next hhw => exact .hardware ⟨intrId, hi⟩ out rfl ⟨heq.trans hhw, hhw⟩ hp hout
        · exact .virtual ⟨intrId, hi⟩ out rfl hout
      · cases h
        exact .silent
  · cases h

theorem deliverable_setPending {irq irq' : Fin (maxInterrupts + 1)} (c : Fin harts.numContexts)
    (b : Bool) (hne : irq' ≠ irq) :
    deliverable { v with pending := v.pending.set irq b irq.isLt } c irq' =
      v.deliverable c irq' := by
  have hne' : irq.val ≠ irq'.val := fun h => hne (Fin.ext h.symm)
  simp [deliverable, claimable, hne']

theorem exactLines_inject (hn : harts.cpus.Nodup) (hs : v.PrioritiesInRange)
    (hL : ExactLines v L) (hcpu : cpu ∈ harts.cpus) (hg : v.InjectUnnoticed cpu intrId hw)
    (h : v.injectIrq cpu (pcontextToVcontext harts cpu) intrId hw = some (v', out)) :
    ExactLines v' (L.applyAll cpu out) := by
  cases injectOf h with
  | silent => exact hL
  | hardware irq out hirq hhw hp hout =>
    obtain ⟨context, hcontext, hodd, rfl⟩ := exists_context hcpu
    rw [← hcontext] at hout
    have hs' : PrioritiesInRange { v with pending := v.pending.set irq true irq.isLt } := hs
    refine hL.update hn hs' hodd hout fun c hc hne => deliverable_iff_of_covered irq
      (fun irq' hne => deliverable_setPending c true hne) fun hchanged => ?_
    -- the interrupt was not pending before
    have hbefore : v.deliverable c irq = false := by rw [deliverable_eq, hp]; rfl
    have hafter : deliverable { v with pending := v.pending.set irq true irq.isLt } c irq = true :=
      Bool.eq_true_of_not_eq_false (hbefore ▸ hchanged)
    rw [deliverable_eq, Bool.and_eq_true, Bool.and_eq_true, Bool.not_eq_true'] at hafter
    exact hg irq hirq hhw.1 hhw.2 hp hafter.1.2 c hc (fun h => hne (cpuOf_injective hn hc hodd h))
      hafter.2
  | virtual irq out hirq hout =>
    have hs' : PrioritiesInRange { v with pending := v.pending.set irq true irq.isLt } := hs
    refine hL.next fun c hc => ?_
    have hline := applyAll_updateHartLines (L := L) hn hs' hout hc
    split at hline
    · exact .inl hline
    · next hwants =>
      refine .inr ⟨hline, deliverable_iff_of_covered irq
        (fun irq' hne => deliverable_setPending c true hne) fun hchanged => ?_⟩
      have hwants : v.wants c irq = false := Bool.eq_false_of_not_eq_true hwants
      have hwants' : wants { v with pending := v.pending.set irq true irq.isLt } c irq = false :=
        hwants
      rw [deliverable_eq, deliverable_eq, hwants, hwants', Bool.and_false,
        Bool.and_false] at hchanged
      exact absurd rfl hchanged

/-- The interrupt that there is not is never deliverable. -/
theorem deliverable_zero (hs : v.PrioritiesInRange) (c : Fin harts.numContexts)
    {irq : Fin (maxInterrupts + 1)} (h0 : irq.val = 0) : v.deliverable c irq = false := by
  have hprio : v.priority.get irq = 0 := by
    by_contra hne
    exact (hs irq hne).1 h0
  rw [deliverable, hprio, decide_eq_false (Nat.not_lt_zero _), Bool.and_false]

theorem exactLines_claim (hn : harts.cpus.Nodup) (hs : v.PrioritiesInRange) (hL : ExactLines v L)
    {irq : Nat} (hirq : irq < maxInterrupts + 1) (hc : ClaimAccess harts context offset size value)
    (hg : v.ClaimUnnoticed offset size value false) (hnext : v.getNextPending context = some irq)
    (hout : updateHartLine { v with
      pending := v.pending.set irq false
      active := v.active.set irq true } cpu context = some out) :
    ExactLines { v with pending := v.pending.set irq false, active := v.active.set irq true }
      (L.applyAll cpu out) := by
  obtain ⟨answer, hnext', hisNext⟩ := getNextPending_isNext context hs
  obtain rfl : irq = answer := Option.some.inj (hnext.symm.trans hnext')
  refine hL.update hn hs hc.1 hout fun c hodd hne => deliverable_iff_of_covered
    ⟨irq, hirq⟩ (fun irq' hne' => ?_) fun hchanged => ?_
  · have hne'' : irq ≠ irq'.val := fun h => hne' (Fin.ext h.symm)
    simp [deliverable, claimable, hne'']
  · -- after the claim it is not pending, and so it was deliverable before
    have hafter : deliverable { v with
        pending := v.pending.set irq false
        active := v.active.set irq true } c ⟨irq, hirq⟩ = false := by
      simp [deliverable, claimable]
    rw [hafter] at hchanged
    have hbefore := Bool.eq_true_of_not_eq_false hchanged.symm
    have h0 : irq ≠ 0 := by
      rintro rfl
      rw [deliverable_zero hs c rfl] at hbefore
      cases hbefore
    rw [deliverable_eq, Bool.and_eq_true] at hbefore
    exact hg context hc rfl ⟨irq, hirq⟩ h0 hisNext c hodd hne hbefore.2

theorem exactLines_complete (hn : harts.cpus.Nodup) (hs : v.PrioritiesInRange)
    (hL : ExactLines v L) (hirq : value < maxInterrupts + 1)
    (hc : ClaimAccess harts context offset size value)
    (hg : v.CompleteUnnoticed offset size value true)
    (hout : updateHartLine { v with active := v.active.set value false } cpu context = some out) :
    ExactLines { v with active := v.active.set value false } (L.applyAll cpu out) := by
  refine hL.update hn hs hc.1 hout fun c hodd hne => deliverable_iff_of_covered
    ⟨value, hirq⟩ (fun irq' hne' => ?_) fun hchanged => ?_
  · have hne'' : value ≠ irq'.val := fun h => hne' (Fin.ext h.symm)
    simp [deliverable, claimable, hne'']
  · have hafter : deliverable { v with active := v.active.set value false } c ⟨value, hirq⟩ =
        (v.pending[value] && v.wants c ⟨value, hirq⟩) := by
      simp [deliverable, claimable, wants, Bool.and_assoc]
    have hbefore : v.deliverable c ⟨value, hirq⟩ =
        (v.pending[value] && !v.active[value] && v.wants c ⟨value, hirq⟩) := deliverable_eq v c _
    rw [hafter, hbefore] at hchanged
    cases hp : v.pending[value] <;> cases ha : v.active[value] <;>
      cases hw : v.wants c ⟨value, hirq⟩ <;> simp [hp, ha, hw] at hchanged
    exact hg context hc rfl ⟨value, hirq⟩ rfl hp ha c hodd hne hw

theorem exactLines_threshold (hn : harts.cpus.Nodup) (hs : v.PrioritiesInRange)
    (hL : ExactLines v L) (hodd : context.val % 2 = 1)
    (hout : updateHartLine { v with
        threshold := v.threshold.set context value context.isLt } cpu context =
      some out) :
    ExactLines { v with threshold := v.threshold.set context value context.isLt }
      (L.applyAll cpu out) := by
  refine hL.update hn hs hodd hout fun c _ hne => exists_congr fun irq => ?_
  have hne' : context.val ≠ c.val := fun h => hne (Fin.ext h.symm)
  simp [deliverable, claimable, hne']

theorem exactLines_priority (hn : harts.cpus.Nodup) (hs : v.PrioritiesInRange)
    (hL : ExactLines v L) (irq : Fin (maxInterrupts + 1))
    (hw : PriorityWrite offset size value isWrite irq)
    (hg : v.PriorityUnnoticed offset size value isWrite)
    (hout : if v.hw.get irq then out = [.hostSetPriority irq value]
      else updateHartLines { v with priority := v.priority.set irq value irq.isLt } cpu
        (fun c => (v.enable.get c).get irq) = some out) :
    ExactLines { v with priority := v.priority.set irq value irq.isLt } (L.applyAll cpu out) := by
  let v' : VirtualPLIC maxInterrupts harts :=
    { v with priority := v.priority.set irq value irq.isLt }
  have hs' : v'.PrioritiesInRange := by
    intro irq' hne
    by_cases heq : irq' = irq
    · rw [heq]
      exact hw.irq
    · have hne' : irq.val ≠ irq'.val := fun h => heq (Fin.ext h.symm)
      exact hs irq' (by simpa [v', hne'] using hne)
  have hoff : ∀ c, ∀ irq' ≠ irq, v'.deliverable c irq' = v.deliverable c irq' := by
    intro c irq' hne
    have hne' : irq.val ≠ irq'.val := fun h => hne (Fin.ext h.symm)
    simp [v', deliverable, claimable, hne']
  have hat : ∀ c, v'.deliverable c irq =
      (v.claimable c irq && decide (v.threshold.get c < value)) := by
    intro c
    simp [v', deliverable, claimable]
  split at hout
  · next hhw =>
    subst hout
    refine hL.next fun c hodd => .inr ⟨⟨rfl, rfl⟩,
      deliverable_iff_of_covered irq (hoff c) fun hchanged => ?_⟩
    rw [hat, deliverable] at hchanged
    cases hc : v.claimable c irq with
    | false => exact absurd (by rw [hc]; rfl) hchanged
    | true =>
      rw [hc, Bool.true_and, Bool.true_and] at hchanged
      exact hg irq hw hhw c hodd hc fun hiff => hchanged (decide_eq_decide.mpr hiff)
  · refine hL.next fun c hodd => ?_
    have hline := applyAll_updateHartLines (L := L) hn hs' hout hodd
    split at hline
    · exact .inl hline
    · next henable =>
      have henable : v.enable[c][irq] = false := Bool.eq_false_of_not_eq_true henable
      have hc : v.claimable c irq = false := by rw [claimable, henable, Bool.and_false]
      refine .inr ⟨hline, deliverable_iff_of_covered irq (hoff c) fun hchanged => ?_⟩
      rw [hat, deliverable, hc] at hchanged
      exact absurd rfl hchanged

theorem wordIrqs_nodup (maxInterrupts start : Nat) : (wordIrqs maxInterrupts start).Nodup :=
  (List.nodup_finRange _).filter _

theorem exactLines_enable (hn : harts.cpus.Nodup) (hs : v.PrioritiesInRange)
    (hL : ExactLines v L) {word : Nat}
    (hw : EnableWrite harts context offset size value isWrite word)
    (hg : v.EnableUnnoticed cpu offset size value isWrite)
    (hloop : writeEnables cpu context (word * 32) value v (wordIrqs maxInterrupts (word * 32)) =
      some (v', out)) : ExactLines v' (L.applyAll cpu out) := by
  have hlines := wordLines hs (wordIrqs_nodup _ _) (hL context hw.supervisor) hloop
  obtain rfl := writeEnables_state hloop
  refine hL.next fun c hodd => ?_
  by_cases heq : c = context
  · subst heq
    refine .inl ?_
    by_cases hlook : harts.cpuOf c = cpu ∨
        v.seenBits c (word * 32) value (wordIrqs maxInterrupts (word * 32)) = []
    · exact hlines.seen.same ⟨rfl, rfl⟩ (hg c word hw.bound hw hlook)
    · rw [not_or] at hlook
      exact .inl (hlines.remote hlook.1 hlook.2)
  · refine .inr ⟨hlines.others _ fun h => heq (cpuOf_injective hn hodd hw.supervisor h),
      exists_congr fun irq => ?_⟩
    rw [deliverable_writeBits heq]

/-- **What an access preserves.** -/
theorem exactLines_access (hn : harts.cpus.Nodup) (hs : v.PrioritiesInRange)
    (hL : ExactLines v L) (hclaim : v.ClaimUnnoticed offset size value isWrite)
    (hcomplete : v.CompleteUnnoticed offset size value isWrite)
    (hpriority : v.PriorityUnnoticed offset size value isWrite)
    (henable : v.EnableUnnoticed cpu offset size value isWrite)
    (h : v.vplicEmulAccess cpu offset size value isWrite = some (answer, v', out)) :
    ExactLines v' (L.applyAll cpu out) := by
  cases accessOf h with
  | silent => exact hL
  | priority irq _ hw hout => exact exactLines_priority hn hs hL irq hw hpriority hout
  | enable context word _ _ hw hloop => exact exactLines_enable hn hs hL hw henable hloop
  | threshold context hodd pcontextId out hp hout =>
    -- the host's threshold is not a line
    show ExactLines _ (L.applyAll cpu out)
    exact exactLines_threshold hn hs hL hodd hout
  | claim context irq hirq _ hc hread hnext hout =>
    subst hread
    exact exactLines_claim hn hs hL hirq hc hclaim hnext hout
  | complete context hirq hostOut out hc hwrite hhost hout =>
    subst hwrite
    have hsame : L.applyAll cpu (hostOut ++ out) = L.applyAll cpu out := by
      rw [HartLines.applyAll_append]
      rcases hhost with rfl | ⟨pcontextId, rfl⟩ <;> rfl
    rw [hsame]
    exact exactLines_complete hn hs hL hirq hc hcomplete hout

/-- An event that is taken. -/
theorem exactLines_updateHartLine (hn : harts.cpus.Nodup) (hs : v.PrioritiesInRange)
    (hL : ExactLines v L) (hcpu : cpu ∈ harts.cpus)
    (h : v.updateHartLine cpu (pcontextToVcontext harts cpu) = some out) (events : Nat) :
    ExactLines v (HartLines.applyAll
      { L with events := Function.update L.events cpu events } cpu out) := by
  obtain ⟨context, hcontext, hodd, rfl⟩ := exists_context hcpu
  rw [← hcontext] at h
  obtain ⟨hfresh, -, hsame⟩ := applyAll_updateHartLine
    (L := { L with events := Function.update L.events (harts.cpuOf context) events }) hs h
  refine hL.next fun c hc => ?_
  by_cases heq : c = context
  · exact .inl (heq ▸ hfresh)
  · have hne : harts.cpuOf c ≠ harts.cpuOf context := fun h => heq (cpuOf_injective hn hc hodd h)
    have hevents : HartLines.Same L
        { L with events := Function.update L.events (harts.cpuOf context) events }
        (harts.cpuOf c) := ⟨rfl, Function.update_of_ne hne ..⟩
    exact .inr ⟨hevents.trans (hsame _ hne), Iff.rfl⟩

end

namespace VplicLines

variable {maxInterrupts : Nat} {harts : ZoneHarts} {s s' : VplicLines maxInterrupts harts}
  {h : List LineCall} {e : LineCall}

/-- No line is asserted, and nothing is pending. -/
theorem exact_start (hw : Vector Bool (maxInterrupts + 1)) :
    ExactLines (start hw : VplicLines maxInterrupts harts).vplic
      (start hw : VplicLines maxInterrupts harts).lines := by
  intro c _
  refine .inr (decide_eq_false ?_).symm
  rintro ⟨irq, hirq⟩
  simp [start, VirtualPLIC.new, deliverable, claimable] at hirq

/-- What a call preserves. -/
theorem exact_step (hn : harts.cpus.Nodup)
    (hi : s.vplic.PrioritiesInRange ∧ ExactLines s.vplic s.lines) (hg : Unnoticed s e)
    (hs : s.step e = some s') :
    s'.vplic.PrioritiesInRange ∧ ExactLines s'.vplic s'.lines := by
  obtain ⟨hrange, hexact⟩ := hi
  cases e with
  | inject cpu intrId hw =>
    rw [step] at hs
    split at hs
    · next hcpu =>
      obtain ⟨⟨vplic, out⟩, hout, hs⟩ := Option.map_eq_some_iff.mp hs
      cases hs
      refine ⟨?_, exactLines_inject hn hrange hexact hcpu hg hout⟩
      obtain ⟨hi, hvplic⟩ := injectIrq_eq_some hout
      show vplic.PrioritiesInRange
      rw [hvplic]
      split <;> exact hrange
    · cases hs
  | access cpu offset size value isWrite =>
    rw [step] at hs
    split at hs
    · obtain ⟨⟨answer, vplic, out⟩, hout, hs⟩ := Option.map_eq_some_iff.mp hs
      cases hs
      obtain ⟨hclaim, hcomplete, hpriority, henable⟩ := hg
      refine ⟨?_, exactLines_access hn hrange hexact hclaim hcomplete hpriority henable hout⟩
      have hcall : (vplicSystem maxInterrupts harts).step s.vplic
          (.access cpu offset size value isWrite answer) vplic := by
        show (s.vplic.vplicEmulAccess cpu offset size value isWrite).bind _ = some vplic
        rw [hout]
        exact if_pos rfl
      exact prioritiesInRange_of_step hcall hrange
    · cases hs
  | updateHartLine cpu =>
    rw [step] at hs
    split at hs
    · next hcpu =>
      rw [updateHartLine] at hs
      split at hs
      · cases hs
      · obtain ⟨out, hout, hs⟩ := Option.map_eq_some_iff.mp hs
        cases hs
        exact ⟨hrange, exactLines_updateHartLine hn hrange hexact hcpu hout _⟩
    · cases hs

/-- The CPUs of a configuration are distinct. -/
theorem harts_nodup (config : HvZoneConfig) : config.harts.cpus.Nodup :=
  List.nodup_range.filter _

/-- **The lines are exact** in every run whose calls change the answer of no context without
updating its line: with no event under way to its CPU, the line of a supervisor-mode context is
asserted exactly when some interrupt is pending, not active, enabled for the context and over its
threshold. -/
theorem lines_exact_of_run (config : HvZoneConfig) (maxInterrupts : Nat)
    {h : List LineCall} {s : VplicLines maxInterrupts config.harts}
    (r : ((system maxInterrupts config.harts).restrict Unnoticed).Run h s)
    (c : Fin config.harts.numContexts) (hodd : c.val % 2 = 1)
    (hevents : s.lines.events (config.harts.cpuOf c) = 0) :
    s.lines.line (config.harts.cpuOf c) = true ↔
      ∃ irq : Fin (maxInterrupts + 1), s.vplic.pending.get irq = true ∧
        s.vplic.active.get irq = false ∧ (s.vplic.enable.get c).get irq = true ∧
          s.vplic.threshold.get c < s.vplic.priority.get irq := by
  have hi : s.vplic.PrioritiesInRange ∧ ExactLines s.vplic s.lines := by
    refine r.invariant (I := fun _ s => s.vplic.PrioritiesInRange ∧ ExactLines s.vplic s.lines)
      ?_ ?_
    · rintro s ⟨hw, rfl⟩
      refine ⟨fun irq hne => absurd ?_ hne, exact_start hw⟩
      simp [start, VirtualPLIC.new]
    · rintro _ _ _ _ _ hi ⟨hg, hs⟩
      exact exact_step (harts_nodup config) hi hg hs
  rcases hi.2 c hodd with hne | hline
  · exact absurd hevents hne
  · rw [hline, decide_eq_true_eq, Deliverable]
    refine exists_congr fun irq => ?_
    simp only [deliverable, claimable, Bool.and_eq_true, Bool.not_eq_true', decide_eq_true_eq,
      and_assoc]
    exact Iff.rfl

/-! ## Two harts that share a virtual interrupt -/

section

variable (v : VirtualPLIC maxInterrupts harts) (cpu intrId offset size value : Nat)
  (hw isWrite : Bool)

instance (context : Fin harts.numContexts) :
    Decidable (ClaimAccess harts context offset size value) :=
  inferInstanceAs (Decidable (_ ∧ _))

instance (context : Fin harts.numContexts) (answer : Nat) :
    Decidable (IsNext v context answer) :=
  inferInstanceAs (Decidable (_ ∨ _))

set_option synthInstance.maxSize 400 in
instance : Decidable (v.InjectUnnoticed cpu intrId hw) :=
  inferInstanceAs (Decidable (∀ _ : Fin (maxInterrupts + 1), _))

instance : Decidable (v.ClaimUnnoticed offset size value isWrite) :=
  inferInstanceAs (Decidable (∀ _ : Fin harts.numContexts, _))

instance : Decidable (v.CompleteUnnoticed offset size value isWrite) :=
  inferInstanceAs (Decidable (∀ _ : Fin harts.numContexts, _))

instance : Decidable (v.PriorityUnnoticed offset size value isWrite) :=
  inferInstanceAs (Decidable (∀ _ : Fin (maxInterrupts + 1), _))

instance : Decidable (v.EnableUnnoticed cpu offset size value isWrite) :=
  inferInstanceAs (Decidable (∀ context : Fin harts.numContexts, ∀ word < 32,
    EnableWrite harts context offset size value isWrite word → _ ∨ _ → (_ ↔ _)))

instance (s : VplicLines maxInterrupts harts) : (e : LineCall) → Decidable (Unnoticed s e)
  | .inject cpu intrId hw => inferInstanceAs (Decidable (s.vplic.InjectUnnoticed cpu intrId hw))
  | .access .. => inferInstanceAs (Decidable (_ ∧ _))
  | .updateHartLine _ => instDecidableTrue

end

/-- A zone on CPUs 2 and 3. -/
def sharedConfig : HvZoneConfig where
  zoneId := 1
  cpus := 12
  numMemoryRegions := 0
  memoryRegions := Vector.replicate _ ⟨0, 0, 0, 0⟩
  numIvcConfigs := 0
  ivcConfigs := Vector.replicate _ ⟨0, 0, 0, 0, 0, 0, 0, 0⟩
  entryPoint := 0x80000000
  dtbLoadPaddr := 0
  numPciDevs := 0
  allocPciDevs := Vector.replicate _ 0

/-- The virtual interrupt 1 gets a priority, is enabled for both harts and injected on CPU 2, and
CPU 3 looks at its line. -/
def sharedInterrupt : List LineCall :=
  [.access 2 4 4 1 true, .access 2 0x2080 4 2 true, .access 3 0x2180 4 2 true, .inject 2 1 false,
    .updateHartLine 3]

/-- Two harts, and nothing injected. -/
def startPair : VplicLines 1 sharedConfig.harts := start (.replicate _ false)

/-- The context of CPU 3. -/
def otherHart : Fin sharedConfig.harts.numContexts := ⟨3, by decide⟩

/-- The run ends with both lines asserted. -/
theorem lines_exact_of_run_shared : ∃ s : VplicLines 1 sharedConfig.harts,
    TransitionSystem.exec step (fun s e => decide (Unnoticed s e)) sharedInterrupt startPair =
      some s ∧
      (s.lines.line (sharedConfig.harts.cpuOf otherHart) = true ↔
        ∃ irq : Fin 2, s.vplic.pending.get irq = true ∧ s.vplic.active.get irq = false ∧
          (s.vplic.enable.get otherHart).get irq = true ∧
            s.vplic.threshold.get otherHart < s.vplic.priority.get irq) := by
  have hexec : (TransitionSystem.exec step (fun s e => decide (Unnoticed s e)) sharedInterrupt
      startPair).any (fun s => s.lines.events (sharedConfig.harts.cpuOf otherHart) == 0) =
        true := by
    decide +kernel
  obtain ⟨s, hs, hevents⟩ := (Option.any_eq_true ..).mp hexec
  have hrun := TransitionSystem.Run.exec (S := (system 1 sharedConfig.harts).restrict Unnoticed)
    step (fun s e => decide (Unnoticed s e)) (fun _ _ _ hc hs => ⟨of_decide_eq_true hc, hs⟩)
    (.start ⟨_, rfl⟩) hs
  exact ⟨s, hs, lines_exact_of_run sharedConfig 1 hrun otherHart rfl (eq_of_beq hevents)⟩

/-- One hart claims the interrupt, and the line of the other one stays asserted. -/
theorem not_lines_exact : ¬ ∀ (config : HvZoneConfig) (maxInterrupts : Nat) (h : List LineCall)
    (s : VplicLines maxInterrupts config.harts), (system maxInterrupts config.harts).Run h s →
      (∀ c, s.lines.events (config.harts.cpuOf c) = 0) →
        ∀ c : Fin config.harts.numContexts, c.val % 2 = 1 →
          (s.lines.line (config.harts.cpuOf c) = true ↔
            ∃ irq : Fin (maxInterrupts + 1), s.vplic.pending.get irq = true ∧
              s.vplic.active.get irq = false ∧ (s.vplic.enable.get c).get irq = true ∧
                s.vplic.threshold.get c < s.vplic.priority.get irq) := by
  intro hclaim
  have hexec : (TransitionSystem.exec step (fun _ _ => true)
      (sharedInterrupt ++ [.access 2 0x201004 4 0 false]) startPair).any (fun s =>
        decide (∀ c, s.lines.events (sharedConfig.harts.cpuOf c) = 0) &&
          s.lines.line (sharedConfig.harts.cpuOf otherHart) &&
            !decide (∃ irq : Fin 2, s.vplic.pending.get irq = true)) = true := by
    decide +kernel
  obtain ⟨s, hs, hend⟩ := (Option.any_eq_true ..).mp hexec
  rw [Bool.and_eq_true, Bool.and_eq_true, decide_eq_true_eq, Bool.not_eq_true',
    decide_eq_false_iff_not] at hend
  obtain ⟨⟨hevents, hline⟩, hpending⟩ := hend
  have hrun := TransitionSystem.Run.exec (S := system 1 sharedConfig.harts) step (fun _ _ => true)
    (fun _ _ _ _ hs => hs) (.start ⟨_, rfl⟩) hs
  obtain ⟨irq, hp, -⟩ := (hclaim sharedConfig 1 _ s hrun hevents otherHart rfl).mp hline
  exact hpending ⟨irq, hp⟩

end VplicLines

end Hvisor
