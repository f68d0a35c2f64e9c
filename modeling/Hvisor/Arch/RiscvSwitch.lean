import Hvisor.Lib.RegisterMachine
import Hvisor.Lib.WorldSwitch
import Mathlib.Data.List.FinRange

/-!
# The world switch on RISC-V

The code of `trap.S`: `VM_EXIT` saves what a guest has in the hart into the `ArchCpu` that
`sscratch` points to, and switches to the stack that is kept there; `VM_ENTRY` restores it. What a
guest has in the hart is its registers, and the three control registers that say where and how it
goes on; the hart has set those when the trap was taken.

## Main definitions

* `vmExit`, `vmEntry`, `hypTrapVector`: the code
* `GuestContext`: what a guest has in a hart, which is also what `ArchCpu` keeps of it
* `riscvSwitch`: the world switch

## Main results

* `run_vmExit`, `run_vmEntry`: what the code does
* `riscv_switch_refines`: a guest cannot tell that its registers were saved
-/

namespace Hvisor

open Function RegisterMachine Instr ByteMemory

/-- The control registers that the code of `trap.S` uses. -/
inductive RiscvCsr where
  | sscratch
  | hstatus
  | sstatus
  | sepc
  | scause
  deriving DecidableEq

/-- A hart. -/
abbrev Hart := RegisterMachine RiscvCsr

variable {s t : Hart} {area top : BitVec 64}

/-! ## The code -/

/-- The registers `x0` to `x30`, each with its place in `ArchCpu`. -/
def gprSlots : List (Fin 32 × Nat) :=
  (List.finRange 31).map fun i : Fin 31 => (i.castSucc, (i : Nat))

/-- The control registers that say how the guest goes on, each with its place in `ArchCpu`. -/
def csrSlots : List (RiscvCsr × Nat) := [(.hstatus, 32), (.sstatus, 33), (.sepc, 34)]

/-- The first part of `VM_EXIT`, up to the register that points to `ArchCpu` meanwhile. -/
def gprExit : List (Instr RiscvCsr) :=
  [.csrrw 31 .sscratch 31] ++ save 31 gprSlots ++
    [.addi 2 31 0, .csrrw 31 .sscratch 31, .sd 31 2 (8 * 31)]

/-- The way from the guest. -/
def vmExit : List (Instr RiscvCsr) :=
  gprExit ++ saveCsrs 5 2 csrSlots ++ [.ld 2 2 (8 * 35), .csrr 10 .sscratch]

/-- The trap vector up to the call: interrupts have another handler than exceptions. -/
def hypTrapVector : List (Instr RiscvCsr) := vmExit ++ [.csrr 5 .scause]

/-- The first part of `VM_ENTRY`. -/
def csrEntry : List (Instr RiscvCsr) := [.csrr 31 .sscratch] ++ restoreCsrs 1 0 31 csrSlots

/-- The way back to the guest. -/
def vmEntry : List (Instr RiscvCsr) := csrEntry ++ restore 31 gprSlots ++ [.ld 31 31 (8 * 31)]

theorem gprSlots_ne {p : Fin 32 × Nat} (hp : p ∈ gprSlots) : p.1 ≠ 31 := by
  obtain ⟨i, -, rfl⟩ := List.mem_map.mp hp
  exact Fin.ne_of_lt (Fin.castSucc_lt_last i)

theorem gprSlots_nodup : (gprSlots.map Prod.fst).Nodup := by decide

theorem mem_gprSlots {r : Fin 32} (h : r ≠ 31) : (r, (r : Nat)) ∈ gprSlots :=
  List.mem_map.mpr ⟨r.castLT (by omega), List.mem_finRange _, rfl⟩

/-! ## What the code does -/

/-- What `VM_EXIT` stores into `ArchCpu`. -/
def Hart.frame (s : Hart) : List (Nat × BitVec 64) :=
  gprSlots.map (fun p => (p.2, s.get p.1)) ++ [(31, s.get 31)] ++
    csrSlots.map fun p => (p.2, s.csr p.1)

theorem map_fst_frame (s : Hart) : s.frame.map Prod.fst = List.range 35 := rfl

theorem frame_lt {p : Nat × BitVec 64} (hp : p ∈ s.frame) : p.1 < 35 := by
  have := List.mem_map_of_mem (f := Prod.fst) hp
  rwa [map_fst_frame, List.mem_range] at this

/-- The first part of `VM_EXIT` stores all registers, and leaves `sscratch` as it was. -/
theorem run_gprExit (s : Hart) :
    (run s gprExit).mem = s.mem.spill (s.csr .sscratch)
        (gprSlots.map (fun p => (p.2, s.get p.1)) ++ [(31, s.get 31)]) ∧
      (run s gprExit).get 2 = s.csr .sscratch ∧ (run s gprExit).csr = s.csr := by
  have hpoint : ((csrrw 31 .sscratch 31).step s).get 31 = s.csr .sscratch :=
    get_set_self _ (by decide) _
  have hgpr : gprSlots.map (fun p => (p.2, ((csrrw 31 .sscratch 31).step s).get p.1)) =
      gprSlots.map fun p => (p.2, s.get p.1) :=
    List.map_congr_left fun p hp => by rw [Instr.step, get_set_of_ne _ (gprSlots_ne hp), get_setCsr]
  simp only [gprExit, run_append, run_cons, run_nil, run_save, hpoint, hgpr, spill_append]
  refine ⟨?_, ?_, funext fun k => ?_⟩
  · simp [Instr.step, get_set, csr_setCsr, slot]
  · simp [Instr.step, get_set]
  · by_cases hk : k = .sscratch
    · simp [Instr.step, csr_setCsr, get_set, hk]
    · simp [Instr.step, csr_setCsr, hk]

/-- **What `VM_EXIT` does**: it stores the context into `ArchCpu`, whose address is the argument of
the handler, and takes the stack from there. -/
theorem run_vmExit (s : Hart) :
    (run s vmExit).mem = s.mem.spill (s.csr .sscratch) s.frame ∧
      (run s vmExit).csr = s.csr ∧ (run s vmExit).get 10 = s.csr .sscratch ∧
      (run s vmExit).get 2 =
        (s.mem.spill (s.csr .sscratch) s.frame).load (slot (s.csr .sscratch) 35) := by
  obtain ⟨hmem, hpoint, hcsr⟩ := run_gprExit s
  obtain ⟨hmem', hcsr', hget'⟩ := run_saveCsrs (run s gprExit) 5 2 csrSlots (by decide)
    (by decide)
  rw [hmem, hcsr, hpoint, ← spill_append] at hmem'
  rw [hcsr] at hcsr'
  have hpoint' := (hget' 2 (by decide)).trans hpoint
  rw [vmExit, run_append, run_append, Hart.frame, ← hmem', run_cons, run_cons, run_nil, Instr.step,
    Instr.step]
  refine ⟨?_, ?_, ?_, ?_⟩
  · rw [mem_set, mem_set]
  · rw [csr_set, csr_set, hcsr']
  · rw [get_set_self _ (by decide), csr_set, hcsr']
  · rw [get_set_of_ne _ (by decide), get_set_self _ (by decide), hpoint']
    rfl

/-- The trap vector does nothing else to what the handler finds. -/
theorem run_hypTrapVector (s : Hart) :
    (run s hypTrapVector).mem = (run s vmExit).mem ∧
      (run s hypTrapVector).csr = (run s vmExit).csr ∧
      ∀ r, r ≠ 5 → (run s hypTrapVector).get r = (run s vmExit).get r := by
  rw [hypTrapVector, run_append, run_cons, run_nil, Instr.step]
  exact ⟨mem_set .., csr_set .., fun r hr => get_set_of_ne _ hr _⟩

/-- The first part of `VM_ENTRY` restores the control registers, and points to `ArchCpu`. -/
theorem run_csrEntry (s : Hart) :
    (run s csrEntry).mem = s.mem ∧ (run s csrEntry).get 31 = s.csr .sscratch ∧
      (∀ k, k ∉ csrSlots.map Prod.fst → (run s csrEntry).csr k = s.csr k) ∧
      ∀ k i, (k, i) ∈ csrSlots →
        (run s csrEntry).csr k = s.mem.load (slot (s.csr .sscratch) i) := by
  have hpoint : ((csrr 31 .sscratch).step s).get 31 = s.csr .sscratch :=
    get_set_self _ (by decide) _
  have hmem : ((csrr 31 .sscratch).step s).mem = s.mem := mem_set ..
  have hcsr : ((csrr 31 .sscratch).step s).csr = s.csr := csr_set ..
  obtain ⟨hmem', hget, hcsr', hload⟩ := run_restoreCsrs ((csrr 31 .sscratch).step s) 1 0 31
    csrSlots (by decide) (by decide) (.inl rfl) (by decide)
  rw [csrEntry, run_append, run_cons, run_nil]
  refine ⟨hmem'.trans hmem, (hget 31 (by decide)).trans hpoint, fun k hk => ?_, fun k i hk => ?_⟩
  · rw [hcsr' k hk, hcsr]
  · rw [hload k i hk, hmem, hpoint]

/-- **What `VM_ENTRY` does**: it restores each register from its place in `ArchCpu`, the one that
points there last. -/
theorem run_vmEntry (s : Hart) :
    (run s vmEntry).mem = s.mem ∧ (run s vmEntry).csr = (run s csrEntry).csr ∧
      ∀ r, r ≠ 0 → (run s vmEntry).get r = s.mem.load (slot (s.csr .sscratch) r) := by
  obtain ⟨hmem, hpoint, -⟩ := run_csrEntry s
  obtain ⟨hcsr', hmem', hget⟩ :=
    run_restore (l := gprSlots) (run s csrEntry) fun p hp => gprSlots_ne hp
  rw [vmEntry, run_append, run_append, run_cons, run_nil, Instr.step]
  refine ⟨?_, ?_, fun r hr => ?_⟩
  · rw [mem_set, hmem', hmem]
  · rw [csr_set, hcsr']
  · by_cases h31 : r = 31
    · subst h31
      rw [get_set_self _ hr, hmem', hmem, hget 31 fun p hp => gprSlots_ne hp, hpoint]
      rfl
    · rw [get_set_of_ne _ h31, get_run_restore _ (fun p hp => gprSlots_ne hp) gprSlots_nodup hr
        (mem_gprSlots h31), hmem, hpoint]

/-! ## The switch -/

/-- What a guest has in a hart, and what `ArchCpu` keeps of it; `x0` is zero in any case. -/
@[ext] structure GuestContext where
  x : Fin 32 → BitVec 64
  hstatus : BitVec 64
  sstatus : BitVec 64
  sepc : BitVec 64

/-- What the guest has. -/
def Hart.guest (s : Hart) : GuestContext where
  x := s.get
  hstatus := s.csr .hstatus
  sstatus := s.csr .sstatus
  sepc := s.csr .sepc

/-- The context that `ArchCpu` keeps. -/
def Hart.saved (area : BitVec 64) (s : Hart) : GuestContext where
  x r := if r = 0 then 0 else s.mem.load (slot area r)
  hstatus := s.mem.load (slot area 32)
  sstatus := s.mem.load (slot area 33)
  sepc := s.mem.load (slot area 34)

/-- The hart knows where `ArchCpu` is, and the stack is noted there. -/
def Hart.Ready (area top : BitVec 64) (s : Hart) : Prop :=
  s.csr .sscratch = area ∧ s.mem.load (slot area 35) = top

theorem load_frame {i : Nat} {v : BitVec 64} (hmem : (i, v) ∈ s.frame) (m : ByteMemory)
    (base : BitVec 64) : (m.spill base s.frame).load (slot base i) = v := by
  apply load_spill_of_mem (fun p hp => (frame_lt hp).trans (by decide)) ?_ hmem
  rw [map_fst_frame]
  exact List.nodup_range

theorem get_mem_frame (s : Hart) (r : Fin 32) : ((r : Nat), s.get r) ∈ s.frame := by
  apply List.mem_append_left
  by_cases h31 : r = 31
  · subst h31
    exact List.mem_append_right _ (List.mem_singleton.mpr rfl)
  · exact List.mem_append_left _ (List.mem_map.mpr ⟨_, mem_gprSlots h31, rfl⟩)

theorem csr_mem_frame {k : RiscvCsr} {i : Nat} (hk : (k, i) ∈ csrSlots) :
    (i, s.csr k) ∈ s.frame :=
  List.mem_append_right _ (List.mem_map.mpr ⟨_, hk, rfl⟩)

/-- `VM_EXIT` does not touch the place where the stack is noted. -/
theorem load_stackTop (s : Hart) (m : ByteMemory) (base : BitVec 64) :
    (m.spill base s.frame).load (slot base 35) = m.load (slot base 35) := by
  apply load_spill_of_notMem (fun p hp => (frame_lt hp).trans (by decide)) (by decide)
  rw [map_fst_frame, List.mem_range]
  omega

theorem mem_hypTrapVector (s : Hart) :
    (run s hypTrapVector).mem = s.mem.spill (s.csr .sscratch) s.frame :=
  (run_hypTrapVector s).1.trans (run_vmExit s).1

/-- **What is saved is what the guest has.** -/
theorem saved_hypTrapVector (s : Hart) :
    Hart.saved (s.csr .sscratch) (run s hypTrapVector) = s.guest := by
  have hcsr : ∀ {k i}, (k, i) ∈ csrSlots →
      (run s hypTrapVector).mem.load (slot (s.csr .sscratch) i) = s.csr k := fun hk => by
    rw [mem_hypTrapVector, load_frame (csr_mem_frame hk)]
  rw [Hart.saved, Hart.guest, GuestContext.mk.injEq]
  refine ⟨funext fun r => ?_, hcsr (by decide), hcsr (by decide), hcsr (by decide)⟩
  split_ifs with hr
  · rw [hr, get_zero]
  · rw [mem_hypTrapVector, load_frame (get_mem_frame s r)]

/-- **What the guest gets back is what is saved.** -/
theorem guest_vmEntry (s : Hart) : Hart.guest (run s vmEntry) = s.saved (s.csr .sscratch) := by
  obtain ⟨-, hcsr, hget⟩ := run_vmEntry s
  obtain ⟨-, -, -, hload⟩ := run_csrEntry s
  rw [Hart.saved, Hart.guest, GuestContext.mk.injEq, hcsr]
  refine ⟨funext fun r => ?_, hload _ _ (by decide), hload _ _ (by decide), hload _ _ (by decide)⟩
  split_ifs with hr
  · rw [hr, get_zero]
  · exact hget r hr

/-- The handler is called with the address of `ArchCpu`, and on the stack that is noted there. -/
theorem called_hypTrapVector (h : s.Ready area top) :
    Hart.Ready area top (run s hypTrapVector) ∧ (run s hypTrapVector).get 10 = area ∧
      (run s hypTrapVector).get 2 = top := by
  obtain ⟨rfl, htop⟩ := h
  obtain ⟨-, hcsr, hget⟩ := run_hypTrapVector s
  obtain ⟨-, hcsr', h10, h2⟩ := run_vmExit s
  rw [load_stackTop, htop] at h2
  refine ⟨⟨?_, ?_⟩, ?_, ?_⟩
  · rw [hcsr, hcsr']
  · rw [mem_hypTrapVector, load_stackTop, htop]
  · rw [hget 10 (by decide), h10]
  · rw [hget 2 (by decide), h2]

theorem ready_vmEntry (h : s.Ready area top) : Hart.Ready area top (run s vmEntry) := by
  obtain ⟨hmem, hcsr, -⟩ := run_vmEntry s
  refine ⟨?_, ?_⟩
  · rw [hcsr, (run_csrEntry s).2.2.1 _ (by decide), h.1]
  · rw [hmem, h.2]

/-- **The world switch on RISC-V**: `ArchCpu` is at `area`, and the stack of the CPU is at `top`.
The guest can change neither `sscratch` nor the place where the stack is noted. -/
def riscvSwitch (area top : BitVec 64) : WorldSwitch Hart GuestContext Bool where
  exit s := run s hypTrapVector
  enter s := run s vmEntry
  cause s := (s.csr .scause).msb
  guest := Hart.guest
  saved := Hart.saved area
  Ready := Hart.Ready area top
  Kept s s' := s'.csr .sscratch = s.csr .sscratch ∧
    s'.mem.load (slot area 35) = s.mem.load (slot area 35)
  Called s := s.Ready area top ∧ s.get 10 = area ∧ s.get 2 = top
  Done := Hart.Ready area top
  ready_of_kept h hk := ⟨hk.1.trans h.1, hk.2.trans h.2⟩
  called_exit := called_hypTrapVector
  saved_exit {s} h := h.1 ▸ saved_hypTrapVector s
  ready_enter := ready_vmEntry
  guest_enter {s} h := h.1 ▸ guest_vmEntry s

/-- **A guest cannot tell that its registers were saved**: whatever it runs and whatever traps it
takes, it sees in the hart what it had there, changed by the handlers and by nothing else. The next
trap finds `ArchCpu` and the stack, and saves the context without touching any other byte. -/
theorem riscv_switch_refines {handler : Bool → Hart → Hart → Prop}
    {handle : Bool → GuestContext → GuestContext → Prop} {reset : GuestContext}
    {h : List (SwitchEvent GuestContext Bool)}
    (hh : (riscvSwitch area top).Handles handler handle)
    (r : ((riscvSwitch area top).system handler reset).Run h s) :
    (vcpuSystem handle reset).Run h s.guest ∧ s.Ready area top ∧
      ∀ a, 8 * 35 ≤ (a - area).toNat → (run s hypTrapVector).mem a = s.mem a := by
  obtain ⟨hrun, hready⟩ := WorldSwitch.run_refines hh r
  refine ⟨hrun, hready, fun a ha => ?_⟩
  obtain ⟨rfl, -⟩ := hready
  rw [mem_hypTrapVector]
  exact spill_outside (fun p hp => frame_lt hp) ha

/-- The guest goes on with the next instruction. -/
def GuestContext.skip (c : GuestContext) : GuestContext := { c with sepc := c.sepc + 4 }

/-- A handler that does nothing else. -/
def skipHandler (area : BitVec 64) (_ : Bool) (s t : Hart) : Prop :=
  t = s.setMem (s.mem.store (slot area 34) (s.mem.load (slot area 34) + 4))

theorem skipHandler_handles (area top : BitVec 64) :
    (riscvSwitch area top).Handles (skipHandler area) fun _ c c' => c' = c.skip := by
  rintro _ s t rfl ⟨⟨hscratch, htop⟩, -⟩
  have hother : ∀ i, i < 36 → i ≠ 34 →
      (s.mem.store (slot area 34) (s.mem.load (slot area 34) + 4)).load (slot area i) =
        s.mem.load (slot area i) := fun i hi hne =>
    load_store_slot_of_ne (by decide) (hi.trans (by decide)) hne.symm
  refine ⟨⟨hscratch, (hother 35 (by decide) (by decide)).trans htop⟩, ?_⟩
  change Hart.saved area _ = (Hart.saved area s).skip
  rw [Hart.saved, Hart.saved, GuestContext.skip, GuestContext.mk.injEq, mem_setMem,
    hother 32 (by decide) (by decide), hother 33 (by decide) (by decide), load_store_self]
  refine ⟨funext fun r => ?_, rfl, rfl, rfl⟩
  rw [hother r (by omega) (by omega)]

/-- A hart whose `ArchCpu` is at `0x80400000`. -/
def bootHart : Hart where
  x _ := 0
  csr
    | .sscratch => 0x80400000
    | _ => 0
  mem := store (fun _ => 0) (slot 0x80400000 35) 0x80600000

theorem bootHart_ready : bootHart.Ready 0x80400000 0x80600000 := ⟨rfl, load_store_self ..⟩

theorem riscv_switch_refines_skip :
    ∃ s, ((riscvSwitch 0x80400000 0x80600000).system (skipHandler 0x80400000)
        (bootHart.saved 0x80400000)).Run [.trap false] s ∧
      s.guest = (bootHart.saved 0x80400000).skip := by
  have hcause : (riscvSwitch 0x80400000 0x80600000).cause (run bootHart vmEntry) = false := by
    change (RegisterMachine.csr (run bootHart vmEntry) .scause).msb = false
    rw [(run_vmEntry bootHart).2.1, (run_csrEntry bootHart).2.2.1 _ (by decide)]
    rfl
  have r := TransitionSystem.Run.next
    (S := (riscvSwitch 0x80400000 0x80600000).system (skipHandler 0x80400000)
      (bootHart.saved 0x80400000))
    (.start ⟨bootHart, bootHart_ready, rfl, rfl⟩) (e := .trap false) ⟨hcause, _, rfl, rfl⟩
  refine ⟨_, r, ?_⟩
  obtain ⟨hrun, -⟩ := riscv_switch_refines (skipHandler_handles _ _) r
  cases hrun with
  | next r' hs =>
    cases r' with
    | start hi => exact hs.trans (congrArg GuestContext.skip hi)

end Hvisor
