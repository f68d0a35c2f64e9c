import Hvisor.Lib.TransitionSystem
import Hvisor.Pci.Isolation

/-!
# Phantom functions

A zone sees the PCI functions that are present but not its own as phantoms, with a virtual command
register each. The handler of `pci/pci.rs` makes an entry for a function when its register 0 is
accessed, and looks the entry up when its command register is. It does not look whether there is an
entry already, and what starts at another register goes on to the function.

## Main definitions

* `PciRoot.phantom`: the entry of a function
* `PciAccess`, `phantomAccesses`: the accesses of a zone to functions that it does not own
* `virtualCommand`: what a history makes of the command register of a function
* `KeepsPhantoms`: the condition on an access
* `PhantomInv`: the invariant

## Main results

* `phantom_push`, `phantom_modify`: the entries after a change of the list
* `mmioPciHandler_cases`: what an access to a function of somebody else does
* `phantomInv_of_step`: what an access that meets the condition preserves
* `phantom_one_state`: one entry for each function, what was written last is read, and the command
  registers of the functions are not written
-/

namespace Hvisor

/-! ## The entries -/

section Entries

variable {pciroot : PciRoot} {bdf : Nat}

/-- The entry of a function, the first one if there are several. -/
def PciRoot.phantom (pciroot : PciRoot) (bdf : Nat) : Option PhantomCfg :=
  pciroot.phantomDevs.find? fun pdev => pdev.bdf == bdf

/-- The list after an entry is made. -/
theorem phantom_push {l : List PhantomCfg} (hnone : l.find? (fun pdev => pdev.bdf == bdf) = none)
    (command : BitVec 16) (g : Nat) :
    (l ++ [PhantomCfg.new bdf command]).find? (fun pdev => pdev.bdf == g) =
      if g = bdf then some (.new bdf command) else l.find? fun pdev => pdev.bdf == g := by
  rw [List.find?_append]
  split
  · next heq =>
    subst heq
    rw [hnone]
    simp [PhantomCfg.new]
  · next hne =>
    have hsingle : [PhantomCfg.new bdf command].find? (fun pdev => pdev.bdf == g) = none := by
      simp [PhantomCfg.new, Ne.symm hne]
    rw [hsingle, Option.or_none]

/-- The list after the command of an entry is set. -/
theorem phantom_modify {l : List PhantomCfg} {i : Nat}
    (hi : l.findIdx? (fun pdev => pdev.bdf == bdf) = some i) (command : BitVec 16) (g : Nat) :
    (l.modify i (·.setCmd command)).find? (fun pdev => pdev.bdf == g) =
      if g = bdf then some ⟨bdf, command⟩ else l.find? fun pdev => pdev.bdf == g := by
  -- on the list, down to the first entry of the function
  induction l generalizing i with
  | nil => cases hi
  | cons pdev l ih =>
    rw [List.findIdx?_cons] at hi
    split at hi
    · next heq =>
      obtain rfl := Option.some.inj hi
      obtain rfl : pdev.bdf = bdf := by simpa using heq
      rw [List.modify_zero_cons, List.find?_cons, List.find?_cons]
      by_cases hg : g = pdev.bdf
      · subst hg
        simp [PhantomCfg.setCmd]
      · have hb : (pdev.bdf == g) = false := beq_eq_false_iff_ne.mpr (Ne.symm hg)
        simp [PhantomCfg.setCmd, hg, hb]
    · next hne =>
      obtain ⟨j, hj, rfl⟩ := Option.map_eq_some_iff.mp hi
      rw [List.modify_succ_cons, List.find?_cons, List.find?_cons, ih hj]
      by_cases hg : g = bdf
      · subst hg
        simp [hne]
      · simp [hg]

theorem findIdx?_phantom {l : List PhantomCfg} {i : Nat}
    (hi : l.findIdx? (fun pdev => pdev.bdf == bdf) = some i) :
    l[i]? = l.find? fun pdev => pdev.bdf == bdf := by
  induction l generalizing i with
  | nil => cases hi
  | cons pdev l ih =>
    rw [List.findIdx?_cons] at hi
    split at hi
    · next heq =>
      obtain rfl := Option.some.inj hi
      rw [List.find?_cons, heq]
      rfl
    · next hne =>
      obtain ⟨j, hj, rfl⟩ := Option.map_eq_some_iff.mp hi
      rw [List.find?_cons, Bool.eq_false_iff.mpr hne]
      exact ih hj

theorem map_bdf_modify (l : List PhantomCfg) (i : Nat) (command : BitVec 16) :
    (l.modify i (·.setCmd command)).map PhantomCfg.bdf = l.map PhantomCfg.bdf := by
  induction l generalizing i with
  | nil => simp
  | cons pdev l ih =>
    cases i with
    | zero => rfl
    | succ i => rw [List.modify_succ_cons, List.map_cons, List.map_cons, ih]

end Entries

/-! ## Accesses -/

/-- An access with what the physical memory reads as, and the access as the handler leaves it. -/
structure PciAccess where
  byte : Nat → BitVec 8
  request : MMIOAccess
  answer : MMIOAccess

namespace PciAccess

/-- The function that is accessed. -/
abbrev bdf (e : PciAccess) : Nat := e.request.addr / 2 ^ 12

/-- The register that is accessed. -/
abbrev regAddr (e : PciAccess) : Nat := e.request.addr % 2 ^ 12

/-- The access covers a byte of the command register of a function. -/
def Covers (e : PciAccess) (g : Nat) : Prop :=
  e.request.addr < g * 2 ^ 12 + CFG_CMD_OFF + 2 ∧
    g * 2 ^ 12 + CFG_CMD_OFF < e.request.addr + e.request.bytes

/-- There is a function: its header is not all ones. -/
def Present (base : Nat) (e : PciAccess) (g : Nat) : Prop :=
  (Device.mk e.byte []).load (base + g * 2 ^ 12) 4 ≠ 0xffffffff

/-- The command that the physical register of a function holds. -/
def physicalCommand (base : Nat) (e : PciAccess) (g : Nat) : BitVec 16 :=
  ((Device.mk e.byte []).load (base + g * 2 ^ 12 + CFG_CMD_OFF) 2).setWidth 16

end PciAccess

/-- The accesses of a zone with the functions `devs` to others, in the configuration space at
`base`. The configuration space of a function lies in the address space. -/
def phantomAccesses (overflowChecks : Bool) (base : Nat) (devs : List Nat) :
    TransitionSystem (PciRoot × List BusWrite) PciAccess where
  init s := s.1.allocDevs = devs ∧ s.1.phantomDevs = [] ∧ s.2 = []
  step s e s' := e.bdf ∉ devs ∧ base + (e.bdf + 1) * 2 ^ 12 ≤ 2 ^ 64 ∧
    mmioPciHandler overflowChecks e.request base (s.1, ⟨e.byte, s.2⟩) =
      some (.ok (), e.answer, s'.1, ⟨e.byte, s'.2⟩)

/-- A write of `size` bytes replaces the low bytes of a command. -/
def mergeCommand (command : BitVec 16) (size : Nat) (value : BitVec 64) : BitVec 16 :=
  let mask := BitVec.ofNat 16 (2 ^ (8 * min size 2) - 1)
  (command &&& ~~~mask) ||| (value.setWidth 16 &&& mask)

/-- The virtual command register of a function after a history, the latest access first: the command
at the first access to register 0, and what was written since. -/
def virtualCommand (base : Nat) : List PciAccess → Nat → Option (BitVec 16)
  | [], _ => none
  | e :: h, g =>
    if e.bdf = g then
      if e.regAddr = 0 then
        (virtualCommand base h g).or
          (if (Device.mk e.byte []).load (base + g * 2 ^ 12) 4 = 0xffffffff then none
          else some (e.physicalCommand base g &&& ~~~0x400))
      else if e.regAddr = CFG_CMD_OFF ∧ e.request.isWrite = true then
        (virtualCommand base h g).map fun command =>
          mergeCommand command e.request.bytes e.request.value.toBitVec
      else virtualCommand base h g
    else virtualCommand base h g

/-- The accesses that the handler keeps the state of phantoms for. Register 0 of a function is
accessed once, before its command register; the command is written as a whole; and no access that
starts elsewhere covers a command register. -/
structure KeepsPhantoms (base : Nat) (devs : List Nat) (s : PciRoot × List BusWrite)
    (e : PciAccess) : Prop where
  once : e.regAddr = 0 → e.Present base e.bdf → s.1.phantom e.bdf = none
  known : e.regAddr = CFG_CMD_OFF → e.Present base e.bdf → (s.1.phantom e.bdf).isSome
  whole : e.regAddr = CFG_CMD_OFF → e.request.isWrite = true →
    ∀ pdev, s.1.phantom e.bdf = some pdev →
      mergeCommand pdev.command e.request.bytes e.request.value.toBitVec =
        e.request.value.toBitVec.setWidth 16
  aimed : ∀ g ∉ devs, e.Covers g → e.bdf = g ∧ e.regAddr = CFG_CMD_OFF

/-- The invariant of the entries and the writes. -/
structure PhantomInv (base : Nat) (devs : List Nat) (h : List PciAccess)
    (s : PciRoot × List BusWrite) : Prop where
  allocDevs : s.1.allocDevs = devs
  nodup : (s.1.phantomDevs.map PhantomCfg.bdf).Nodup
  command : ∀ g, (s.1.phantom g).map PhantomCfg.command = virtualCommand base h g
  writes : ∀ w ∈ s.2, ∀ g ∉ devs, ∀ addr, w.address ≤ addr → addr < w.address + w.size →
    ¬ (base + g * 2 ^ 12 + CFG_CMD_OFF ≤ addr ∧ addr < base + g * 2 ^ 12 + CFG_CMD_OFF + 2)

/-! ## The handler -/

section Handler

variable {overflowChecks : Bool} {base : Nat} {devs : List Nat} {s s' : PciRoot × List BusWrite}
  {e : PciAccess} {h : List PciAccess}

/-- What an access to a function of somebody else does. -/
inductive PhantomEffect (base : Nat) (s : PciRoot × List BusWrite) (e : PciAccess) :
    PciRoot × List BusWrite → Prop
  /-- Nothing is there, or the register is not emulated by the entry. -/
  | keep : (e.regAddr = 0 → ¬ e.Present base e.bdf) →
      (e.regAddr = CFG_CMD_OFF → s.1.phantom e.bdf = none) → PhantomEffect base s e s
  | probe : e.regAddr = 0 → e.Present base e.bdf →
      PhantomEffect base s e ({ s.1 with
        phantomDevs := s.1.phantomDevs ++ [.new e.bdf (e.physicalCommand base e.bdf)] }, s.2)
  | set (i : Nat) : e.regAddr = CFG_CMD_OFF → e.request.isWrite = true →
      (s.1.phantomDevs.findIdx? fun pdev => pdev.bdf == e.bdf) = some i →
      PhantomEffect base s e ({ s.1 with
        phantomDevs := s.1.phantomDevs.modify i
          (·.setCmd (e.request.value.toBitVec.setWidth 16)) }, s.2)
  | get (pdev : PhantomCfg) : e.regAddr = CFG_CMD_OFF → e.request.isWrite = false →
      s.1.phantom e.bdf = some pdev → e.answer.value = .ofNat pdev.command.toNat →
      PhantomEffect base s e s
  | pass (w : BusWrite) : e.regAddr ≠ 0 → e.regAddr ≠ CFG_CMD_OFF → e.request.isWrite = true →
      w.address = base + e.request.addr → w.size = e.request.bytes →
      PhantomEffect base s e (s.1, s.2 ++ [w])

/-- The parts of a result. -/
theorem answer_of_some {mmio mmio' : MMIOAccess} {root root' : PciRoot} {byte : Nat → BitVec 8}
    {writes writes' : List BusWrite}
    (h : some ((.ok (), mmio, root, ⟨byte, writes⟩) :
      Except HvError Unit × MMIOAccess × PciRoot × Device) =
        some (.ok (), mmio', root', ⟨byte, writes'⟩)) :
    mmio' = mmio ∧ root' = root ∧ writes' = writes := by
  simp only [Option.some.injEq, Prod.mk.injEq, Device.mk.injEq, true_and] at h
  exact ⟨h.1.symm, h.2.1.symm, h.2.2.symm⟩

/-- An access that goes on to the function. -/
theorem performAccessAt_cases (s s' : PciRoot × List BusWrite)
    (hword : base + e.request.addr < 2 ^ 64)
    (hs : (mmioPerformAccessAt overflowChecks base e.request ⟨e.byte, s.2⟩).map (fun x =>
      ((.ok (), x.1, s.1, x.2) : Except HvError Unit × MMIOAccess × PciRoot × Device)) =
        some (.ok (), e.answer, s'.1, ⟨e.byte, s'.2⟩)) :
    s' = s ∨ e.request.isWrite = true ∧ ∃ w : BusWrite, w.address = base + e.request.addr ∧
      w.size = e.request.bytes ∧ s' = (s.1, s.2 ++ [w]) := by
  obtain ⟨root', writes'⟩ := s'
  -- a write of a size that the bus has is logged; any other leaves nothing
  by_cases hwrite : e.request.isWrite = true
  · rw [mmioPerformAccessAt_write hwrite hword] at hs
    split_ifs at hs
    · obtain ⟨-, rfl, rfl⟩ := answer_of_some hs
      exact .inr ⟨hwrite, _, rfl, rfl, rfl⟩
    · obtain ⟨-, rfl, rfl⟩ := answer_of_some hs
      exact .inl rfl
    · cases hs
  · rw [mmioPerformAccessAt_eq hword, Device.access, if_neg hwrite] at hs
    -- a read leaves the memory alone, whatever its size is
    split_ifs at hs
    · obtain ⟨-, rfl, rfl⟩ := answer_of_some hs
      exact .inl rfl
    · obtain ⟨-, rfl, rfl⟩ := answer_of_some hs
      exact .inl rfl
    · cases hs

theorem Device.load_mk (byte : Nat → BitVec 8) (writes : List BusWrite) (addr n : Nat) :
    (Device.mk byte writes).load addr n = (Device.mk byte []).load addr n := by
  induction n with
  | zero => rfl
  | succ n ih => rw [Device.load, Device.load, ih]

/-- The access that makes an entry. -/
theorem mmioPciHandler_probe {root : PciRoot} {writes : List BusWrite}
    (hbdf : e.bdf ∉ root.allocDevs) (hlt : base + (e.bdf + 1) * 2 ^ 12 ≤ 2 ^ 64)
    (hreg : e.regAddr = 0) (hp : e.Present base e.bdf) :
    mmioPciHandler overflowChecks e.request base (root, ⟨e.byte, writes⟩) =
      some (.ok (), { e.request with value := .ofNat PHANTOM_DEV_HEADER },
        { root with
          phantomDevs := root.phantomDevs ++ [.new e.bdf (e.physicalCommand base e.bdf)] },
        ⟨e.byte, writes⟩) := by
  -- the access is where the function starts
  have haddr : base + e.request.addr = base + e.bdf * 2 ^ 12 := by
    unfold PciAccess.bdf
    unfold PciAccess.regAddr at hreg
    omega
  have hheader : base + e.bdf * 2 ^ 12 < 2 ^ 64 := by omega
  have hcommand : CFG_CMD_OFF + (base + e.bdf * 2 ^ 12) < 2 ^ 64 := by
    unfold CFG_CMD_OFF
    omega
  have hassigned : ¬ root.isAssignedDevice e.bdf = true := by
    rw [PciRoot.isAssignedDevice_iff]
    exact hbdf
  -- the header is read, and then the command for the new entry
  rw [mmioPciHandler]
  simp only [if_neg hassigned]
  rw [if_pos hreg, haddr, wordResult, if_pos hheader, Option.bind_some, Device.load_mk, if_neg hp,
    wordResult, if_pos hcommand, Option.map_some, Device.load_mk, Nat.add_comm CFG_CMD_OFF]
  rfl

/-- **What an access does** to a function of somebody else. -/
theorem mmioPciHandler_cases (hdevs : s.1.allocDevs = devs)
    (hs : (phantomAccesses overflowChecks base devs).step s e s') : PhantomEffect base s e s' := by
  obtain ⟨hbdf, hlt, hs⟩ := hs
  obtain ⟨root', writes'⟩ := s'
  rw [← hdevs] at hbdf
  -- the access that makes an entry, and then the arms of the handler for all others
  by_cases hprobe : e.regAddr = 0 ∧ e.Present base e.bdf
  · rw [mmioPciHandler_probe hbdf hlt hprobe.1 hprobe.2] at hs
    obtain ⟨-, rfl, rfl⟩ := answer_of_some hs
    exact .probe hprobe.1 hprobe.2
  have haddr : e.bdf * 2 ^ 12 + e.regAddr = e.request.addr := by
    unfold PciAccess.bdf PciAccess.regAddr
    omega
  have hreg : e.regAddr < 2 ^ 12 := Nat.mod_lt _ (by norm_num)
  have hword : base + e.request.addr < 2 ^ 64 := by omega
  have hassigned : ¬ s.1.isAssignedDevice e.bdf = true := by
    rw [PciRoot.isAssignedDevice_iff]
    exact hbdf
  rw [mmioPciHandler] at hs
  simp only [if_neg hassigned] at hs
  split at hs
  · next h0 =>
    -- register 0, where the address of the function starts
    have hheader : base + e.request.addr = base + e.bdf * 2 ^ 12 := by omega
    have hempty : (Device.mk e.byte []).load (base + e.bdf * 2 ^ 12) 4 = 0xffffffff := by
      by_contra hp
      exact hprobe ⟨h0, hp⟩
    rw [wordResult, if_pos hword, Option.bind_some, Device.load_mk, hheader, if_pos hempty] at hs
    obtain ⟨-, rfl, rfl⟩ := answer_of_some hs
    exact .keep (fun _ hp => hp hempty) fun hcmd => absurd (h0.symm.trans hcmd) (by decide)
  · next h0 =>
    split at hs
    -- the command register, with an entry or without one
    · next hcmd =>
      split at hs
      · next i hi =>
        split at hs
        -- a write goes to the entry, and a read is answered from it
        · next hwrite =>
          obtain ⟨-, rfl, rfl⟩ := answer_of_some hs
          exact .set i hcmd hwrite hi
        · next hread =>
          obtain ⟨hanswer, rfl, rfl⟩ := answer_of_some hs
          have hfound := findIdx?_phantom hi
          obtain ⟨hil, -⟩ := List.findIdx?_eq_some_iff_getElem.mp hi
          rw [List.getElem?_eq_getElem hil] at hfound hanswer
          refine .get _ hcmd (by simpa using hread) hfound.symm ?_
          rw [hanswer]
          rfl
      · next hnone =>
        obtain ⟨-, rfl, rfl⟩ := answer_of_some hs
        refine .keep (fun h => absurd h h0) fun _ => ?_
        rw [PciRoot.phantom, List.find?_eq_none]
        intro pdev hp
        exact Bool.eq_false_iff.mp (List.findIdx?_eq_none_iff.mp hnone pdev hp)
    · next hcmd =>
      -- any other register goes on to the function
      have hkeep : PhantomEffect base s e s :=
        .keep (fun h => absurd h h0) fun h => absurd h hcmd
      split at hs
      · obtain ⟨-, rfl, rfl⟩ := answer_of_some hs
        exact hkeep
      · split at hs
        · obtain ⟨-, rfl, rfl⟩ := answer_of_some hs
          exact hkeep
        · rcases performAccessAt_cases s (root', writes') hword hs with
            he | ⟨hwrite, w, hw, hsize, he⟩
          · rw [he]
            exact hkeep
          · rw [he]
            exact .pass w h0 hcmd hwrite hw hsize

/-! ## The invariant -/

theorem phantomInv_init (overflowChecks : Bool)
    (hs : (phantomAccesses overflowChecks base devs).init s) : PhantomInv base devs [] s := by
  obtain ⟨hdevs, hlist, hwrites⟩ := hs
  refine ⟨hdevs, by simp [hlist], fun g => ?_, by simp [hwrites]⟩
  simp [PciRoot.phantom, hlist, virtualCommand]

/-- Away from the function of the access, the virtual command is as before. -/
theorem virtualCommand_of_ne {g : Nat} (hg : e.bdf ≠ g) :
    virtualCommand base (e :: h) g = virtualCommand base h g := by
  rw [virtualCommand, if_neg hg]

/-- An access that neither makes an entry nor writes a command. -/
theorem virtualCommand_of_keep (h0 : e.regAddr = 0 → ¬ e.Present base e.bdf)
    (hcmd : e.regAddr = CFG_CMD_OFF → e.request.isWrite = true →
      virtualCommand base h e.bdf = none) (g : Nat) :
    virtualCommand base (e :: h) g = virtualCommand base h g := by
  rw [virtualCommand]
  -- only its own function is in question, and it has no entry that a write would change
  split
  · next heq =>
    subst heq
    split
    · next hreg =>
      have habsent := not_not.mp (h0 hreg)
      rw [if_pos habsent, Option.or_none]
    · split
      · next hw => rw [hcmd hw.1 hw.2, Option.map_none]
      · rfl
  · rfl

/-- The access to register 0 that makes an entry. -/
theorem virtualCommand_of_probe (hi : PhantomInv base devs h s) (hreg : e.regAddr = 0)
    (hp : e.Present base e.bdf) (hnone : s.1.phantom e.bdf = none) :
    virtualCommand base (e :: h) e.bdf = some (e.physicalCommand base e.bdf &&& ~~~0x400) := by
  have hv := hi.command e.bdf
  rw [hnone, Option.map_none] at hv
  rw [virtualCommand, if_pos rfl, if_pos hreg, ← hv, Option.none_or]
  exact if_neg hp

/-- The write of a command. -/
theorem virtualCommand_of_set (hi : PhantomInv base devs h s) (hreg : e.regAddr = CFG_CMD_OFF)
    (hwrite : e.request.isWrite = true) {pdev : PhantomCfg}
    (hsome : s.1.phantom e.bdf = some pdev) :
    virtualCommand base (e :: h) e.bdf =
      some (mergeCommand pdev.command e.request.bytes e.request.value.toBitVec) := by
  have hv := hi.command e.bdf
  rw [hsome, Option.map_some] at hv
  have h0 : e.regAddr ≠ 0 := by
    rw [hreg]
    decide
  rw [virtualCommand, if_pos rfl, if_neg h0, if_pos ⟨hreg, hwrite⟩, ← hv, Option.map_some]

/-- **What an access that meets the condition preserves.** -/
theorem phantomInv_of_step (hi : PhantomInv base devs h s) (hk : KeepsPhantoms base devs s e)
    (hs : (phantomAccesses overflowChecks base devs).step s e s') :
    PhantomInv base devs (e :: h) s' := by
  -- one case for each effect of an access
  cases mmioPciHandler_cases hi.allocDevs hs with
  | keep h0 hcmd =>
    refine ⟨hi.allocDevs, hi.nodup, fun g => ?_, hi.writes⟩
    rw [virtualCommand_of_keep h0 _ g, hi.command]
    -- without an entry the virtual command is none
    intro hreg _
    rw [← hi.command, hcmd hreg, Option.map_none]
  | probe hreg hp =>
    have hnone := hk.once hreg hp
    refine ⟨hi.allocDevs, ?_, fun g => ?_, hi.writes⟩
    · -- there was no entry of the function
      rw [List.map_append, List.map_cons, List.map_nil, List.nodup_append]
      refine ⟨hi.nodup, List.nodup_singleton _, ?_⟩
      intro g hg g' hg'
      obtain rfl := List.mem_singleton.mp hg'
      obtain ⟨pdev, hmem, rfl⟩ := List.mem_map.mp hg
      have hno := List.find?_eq_none.mp hnone pdev hmem
      exact fun heq => hno (beq_iff_eq.mpr heq)
    · rw [PciRoot.phantom, phantom_push hnone]
      split
      · next heq =>
        rw [heq, virtualCommand_of_probe hi hreg hp hnone]
        rfl
      · next hne =>
        rw [virtualCommand_of_ne (Ne.symm hne), ← hi.command]
        rfl
  | set i hreg hwrite hidx =>
    -- the entry that is set is the one that is looked up
    have hsome : ∃ pdev, s.1.phantom e.bdf = some pdev := by
      rw [PciRoot.phantom, ← findIdx?_phantom hidx]
      obtain ⟨hil, -⟩ := List.findIdx?_eq_some_iff_getElem.mp hidx
      exact ⟨_, List.getElem?_eq_getElem hil⟩
    obtain ⟨pdev, hpdev⟩ := hsome
    refine ⟨hi.allocDevs, ?_, fun g => ?_, hi.writes⟩
    · rw [map_bdf_modify]
      exact hi.nodup
    · rw [PciRoot.phantom, phantom_modify hidx]
      split
      · next heq =>
        rw [heq, virtualCommand_of_set hi hreg hwrite hpdev, hk.whole hreg hwrite pdev hpdev]
        rfl
      · next hne =>
        rw [virtualCommand_of_ne (Ne.symm hne), ← hi.command]
        rfl
  | get pdev hreg hread hpdev hanswer =>
    refine ⟨hi.allocDevs, hi.nodup, fun g => ?_, hi.writes⟩
    rw [virtualCommand_of_keep _ _ g, hi.command]
    -- a read of the command register changes neither
    · intro h0
      rw [hreg] at h0
      exact absurd h0 (by decide)
    · intro _ hwrite
      rw [hread] at hwrite
      cases hwrite
  | pass w h0 hcmd hwrite haddr hsize =>
    refine ⟨hi.allocDevs, hi.nodup, fun g => ?_, ?_⟩
    · rw [virtualCommand_of_keep (fun h => absurd h h0) (fun h => absurd h hcmd) g]
      exact hi.command g
    · intro w' hw' g hg addr hlo hhi
      rcases List.mem_append.mp hw' with hold | hnew
      · exact hi.writes w' hold g hg addr hlo hhi
      · obtain rfl := List.mem_singleton.mp hnew
        rintro ⟨hge, hlt⟩
        -- the access would cover the command register
        have hcovers : e.Covers g := by
          unfold PciAccess.Covers
          rw [haddr] at hlo hhi
          rw [hsize] at hhi
          omega
        exact hcmd (hk.aimed g hg hcovers).2

/-- What is read from a command register. -/
theorem answer_of_read (hi : PhantomInv base devs h s) (hk : KeepsPhantoms base devs s e)
    (hs : (phantomAccesses overflowChecks base devs).step s e s')
    (hread : e.request.isWrite = false) {g : Nat} (hg : g ∉ devs) (hcovers : e.Covers g)
    (hp : e.Present base g) :
    e.bdf = g ∧ e.regAddr = CFG_CMD_OFF ∧
      ∃ command, virtualCommand base h g = some command ∧
        e.answer.value = .ofNat command.toNat := by
  obtain ⟨rfl, hreg⟩ := hk.aimed g hg hcovers
  refine ⟨rfl, hreg, ?_⟩
  obtain ⟨pdev, hpdev⟩ := Option.isSome_iff_exists.mp (hk.known hreg hp)
  -- there is an entry and the access reads it, so one case is left
  cases mmioPciHandler_cases hi.allocDevs hs with
  | keep h0 hcmd =>
    rw [hcmd hreg] at hpdev
    cases hpdev
  | probe h0 =>
    rw [hreg] at h0
    exact absurd h0 (by decide)
  | set i _ hwrite =>
    rw [hread] at hwrite
    cases hwrite
  | get pdev' _ _ hpdev' hanswer =>
    refine ⟨pdev'.command, ?_, hanswer⟩
    rw [← hi.command, hpdev', Option.map_some]
  | pass w h0 hcmd => exact absurd hreg hcmd

/-- **Phantom functions have one virtual state each**: after accesses that meet the condition, each
function has at most one entry, each read that covers the command register of a function returned
what was written last or the command that the function had at first, and no write has reached the
command register of a function of somebody else. -/
theorem phantom_one_state
    (r : ((phantomAccesses overflowChecks base devs).restrict (KeepsPhantoms base devs)).Run h s) :
    (s.1.phantomDevs.map PhantomCfg.bdf).Nodup ∧
    (∀ l₁ e l₂, h = l₁ ++ e :: l₂ → e.request.isWrite = false → ∀ g ∉ devs, e.Covers g →
      e.Present base g → e.bdf = g ∧ e.regAddr = CFG_CMD_OFF ∧
        ∃ command, virtualCommand base l₂ g = some command ∧
          e.answer.value = .ofNat command.toNat) ∧
    ∀ w ∈ s.2, ∀ g ∉ devs, ∀ addr, w.address ≤ addr → addr < w.address + w.size →
      ¬ (base + g * 2 ^ 12 + CFG_CMD_OFF ≤ addr ∧
        addr < base + g * 2 ^ 12 + CFG_CMD_OFF + 2) := by
  have hinv : ∀ {h s}, ((phantomAccesses overflowChecks base devs).restrict
      (KeepsPhantoms base devs)).Run h s → PhantomInv base devs h s := by
    intro h s r
    refine r.invariant ?_ ?_
    · exact fun s hs => phantomInv_init overflowChecks hs
    · exact fun h s e s' _ hi hs => phantomInv_of_step hi hs.1 hs.2
  refine ⟨(hinv r).nodup, ?_, (hinv r).writes⟩
  intro l₁ e l₂ hh hread g hg hcovers hp
  obtain ⟨s₁, s₂, r₁, hk, hstep⟩ := r.split hh
  exact answer_of_read (hinv r₁) hk hstep hread hg hcovers hp

end Handler

/-! ## A phantom -/

/-- The zone with the host bridge only, and its entries. -/
def hostBridge (phantomDevs : List PhantomCfg) : PciRoot := ⟨[], [], [0x0], phantomDevs, []⟩

/-- A read of register 0 of device 1, where memory reads as zeros. -/
def probeAccess : PciAccess := ⟨fun _ => 0, ⟨0x8000, 4, false, 0⟩, ⟨0x8000, 4, false, 0x77777777⟩⟩

theorem probeAccess_step (l : List PhantomCfg) :
    (phantomAccesses true 0x10000000 [0x0]).step (hostBridge l, []) probeAccess
      (hostBridge (l ++ [⟨0x8, 0⟩]), []) := by
  refine ⟨by decide, by decide, ?_⟩
  have hbdf : probeAccess.bdf ∉ (hostBridge l).allocDevs := by
    change 0x8 ∉ [0x0]
    decide
  have hp : probeAccess.Present 0x10000000 0x8 := by
    unfold PciAccess.Present
    decide
  have hcommand : probeAccess.physicalCommand 0x10000000 0x8 = 0 := by decide
  refine (mmioPciHandler_probe (e := probeAccess) hbdf (by decide) (by decide) hp).trans ?_
  rw [show probeAccess.bdf = 0x8 by decide, hcommand]
  rfl

/-- One entry after one access to register 0. -/
theorem phantom_one_state_probe : ∃ s, (phantomAccesses true 0x10000000 [0x0]).Run [probeAccess] s ∧
    s.1.phantomDevs = [⟨0x8, 0⟩] ∧ (s.1.phantomDevs.map PhantomCfg.bdf).Nodup := by
  have hk : KeepsPhantoms 0x10000000 [0x0] (hostBridge [], []) probeAccess := by
    refine ⟨fun _ _ => rfl, fun h => absurd h (by decide), fun h => absurd h (by decide), ?_⟩
    rintro g - ⟨h₁, h₂⟩
    have h₁' : 0x8000 < g * 2 ^ 12 + 6 := h₁
    have h₂' : g * 2 ^ 12 + 4 < 0x8004 := h₂
    omega
  have r : ((phantomAccesses true 0x10000000 [0x0]).restrict
      (KeepsPhantoms 0x10000000 [0x0])).Run [probeAccess] (hostBridge [⟨0x8, 0⟩], []) :=
    .next (.start ⟨rfl, rfl, rfl⟩) ⟨hk, probeAccess_step []⟩
  exact ⟨_, r.of_restrict, rfl, (phantom_one_state r).1⟩

/-- A second access to register 0 makes a second entry for the same function. -/
theorem phantom_entry_twice : ¬ ∀ h s, (phantomAccesses true 0x10000000 [0x0]).Run h s →
    (s.1.phantomDevs.map PhantomCfg.bdf).Nodup := by
  intro hall
  have r : (phantomAccesses true 0x10000000 [0x0]).Run [probeAccess, probeAccess] _ :=
    .next (.next (.start (s := (hostBridge [], [])) ⟨rfl, rfl, rfl⟩) (probeAccess_step []))
      (probeAccess_step _)
  exact absurd (hall _ _ r) (by decide)

end Hvisor
