import Hvisor.Arch.LoongSpace
import Hvisor.Lib.TlbRefill

/-!
# The TLB of LoongArch

The CPU finds the memory of a zone in its TLB only. When an address is missing there,
`tlb_refill_handler` walks the tables on physical addresses, and fills in what they have for the two
pages around the address. Like the walks in `paging.rs`, this one does not stop at an entry of
zeros.

## Main definitions

* `Loong.setPwclPwch`, `Loong.tlbRefillHandler`: the format of the tables, and the handler
* `Loong.physWord`: the memory, as the handler sees it
* `Loong.PageZeroClear`: physical page 0 looks like an empty table

## Main results

* `Loong.phys_descend`: the tables that the handler walks through
* `Loong.refill_hits`: what the entry of the TLB has for an address
* `Loong.History.refill_exact`: after any history of a memory set, a refill gives an address the
  entry of its region
-/

namespace Hvisor

namespace Loong

open GenericPTE MemorySet TlbRefill

variable {s : State} {p : Path} {i : Fin entryCount} {f va gpa root : Nat} {base : BitVec 64}
  {odd : Bool} {e : PageTableEntry} {c : Core} {m : Gpm}

/-! ## The handler -/

/-- The format of the tables: four levels, with 512 entries each. -/
def setPwclPwch : PageWalk where
  dir
    | 1 => ⟨12 + 9, 9⟩
    | 2 => ⟨12 + 9 + 9, 9⟩
    | 3 => ⟨12 + 9 + 9 + 9, 9⟩
    | _ => ⟨0, 0⟩
  pt := ⟨12, 9⟩

/-- The low bits, which the walk clears of an entry. -/
def PAGE_WALK_MASK : BitVec 12 := 0xfff

/-- The register that the walk uses. -/
def r12 : Fin 32 := ⟨12, by omega⟩

/-- `tlb_refill_handler`, up to `ertn`. -/
def tlbRefillHandler : List Instr :=
  [.csrwr r12 .tlbrsave,
    .csrrd r12 .pgd,
    .lddir r12 r12 3,
    .ori r12 r12 PAGE_WALK_MASK,
    .xori r12 r12 PAGE_WALK_MASK,
    .lddir r12 r12 2,
    .ori r12 r12 PAGE_WALK_MASK,
    .xori r12 r12 PAGE_WALK_MASK,
    .lddir r12 r12 1,
    .ori r12 r12 PAGE_WALK_MASK,
    .xori r12 r12 PAGE_WALK_MASK,
    .ldpte r12 false,
    .ldpte r12 true,
    .tlbfill,
    .csrrd r12 .tlbrsave]

/-- The word at a physical address: the hypervisor sees it through the window. -/
def physWord (s : State) (pa : Nat) : BitVec 64 := (s.mem (LOONGARCH64_CACHED_DMW_PREFIX + pa)).bits

/-- `S2PTInstr::activate`: `PGDL` and `PGDH` are the same, so that the bad address does not matter
for `PGD`. -/
def activate (rootPa : Nat) (c : Core) : Core := c.setCsr .pgd (BitVec.ofNat 64 rootPa)

/-- What the handler fills in for an address. -/
def refilled (s : State) (root : BitVec 64) (va : Nat) : TlbEntry :=
  refill setPwclPwch (physWord s) PAGE_WALK_MASK root [3, 2, 1] va

/-- **The handler**, when the root is aligned. -/
theorem run_tlbRefillHandler (s : State) (c : Core) (hroot : (c.csr .pgd).getLsbD 6 = false) :
    let c' := run setPwclPwch (physWord s) c tlbRefillHandler
    c'.tlb = refilled s (c.csr .pgd) c.badv :: c.tlb ∧ c'.x = c.x ∧ c'.csr .pgd = c.csr .pgd :=
  run_handler c (by decide) (by decide) [3, 2, 1] hroot

/-! ## The walk -/

/-- What is left of an entry under the mask leads to its table. -/
theorem phys_mask (e : PageTableEntry) :
    phys (e.bits &&& ~~~PAGE_WALK_MASK.setWidth 64) = addr e := by
  have hmask : ~~~PAGE_WALK_MASK.setWidth 64 &&& BitVec.ofNat 64 (2 ^ 48 - 1) =
      PageTableEntry.PTE_PPN_MASK := by decide
  have hlow : (BitVec.ofNat 64 (2 ^ 48 - 1)).toNat = 2 ^ 48 - 1 := by decide
  show _ = (e.bits &&& PageTableEntry.PTE_PPN_MASK).toNat
  rw [← hmask, ← BitVec.and_assoc, BitVec.toNat_and _ (BitVec.ofNat 64 (2 ^ 48 - 1)), hlow,
    BitMask.and_low]
  rfl

theorem addr_lt (e : PageTableEntry) : addr e < 2 ^ 48 := by
  rw [← phys_mask]
  exact Nat.mod_lt _ (by norm_num)

/-- The word that the walk reads from a table is the entry of the table. -/
theorem physWord_entry (hf : f = LOONGARCH64_CACHED_DMW_PREFIX + phys base) (i : Fin entryCount) :
    physWord s (phys base + 8 * i.val) = (s.mem (entryPtr f i)).bits := by
  rw [physWord, entryPtr, hf, Nat.add_assoc]

/-- Physical page 0 looks like an empty table. -/
def PageZeroClear (s : State) : Prop := ∀ i : Fin entryCount, physWord s (8 * i.val) = 0

/-- Where the walk is: at a table that was made, or at physical page 0. -/
def At (s : State) (p : Path) (base : BitVec 64) : Prop :=
  tableAt s p = some (LOONGARCH64_CACHED_DMW_PREFIX + phys base) ∨
    tableAt s p = none ∧ (PageZeroClear s → phys base = 0)

/-- **One step of the walk.** An entry of zeros leads to physical page 0. -/
theorem At.next (h : At s p base) (hlen : p.length < 3) (va level : Nat)
    (hi : (setPwclPwch.dir level).index va = i.val) :
    At s (i :: p) (next setPwclPwch (physWord s) PAGE_WALK_MASK va level base) := by
  rw [TlbRefill.next, hi]
  rcases h with h | ⟨h, hzero⟩
  · rw [physWord_entry rfl i]
    cases hu : isUnused (s.mem (entryPtr (LOONGARCH64_CACHED_DMW_PREFIX + phys base) i)) with
    | false =>
      left
      rw [tableAt_of_some h, if_pos ⟨hlen, hu⟩, phys_mask, prefix_add (addr_lt _)]
    | true =>
      refine .inr ⟨tableAt_of_unused h hu, fun _ => ?_⟩
      rw [phys_mask, (isUnused_iff _).mp hu]
      rfl
  · refine .inr ⟨tableAt_of_none h, fun hclear => ?_⟩
    rw [hzero hclear, Nat.zero_add, hclear i]
    rfl

/-- **The walk ends** at the table for the address, or at physical page 0. -/
theorem phys_descend (va : Nat) (h : At s [] base) :
    At s (tablePath va)
      (TlbRefill.descend setPwclPwch (physWord s) PAGE_WALK_MASK va base [3, 2, 1]) := by
  have h₃ := h.next (i := p4Index va) (by decide) va 3 (tableIndex_val _ _).symm
  have h₂ := h₃.next (i := p3Index va) (by simp) va 2 (tableIndex_val _ _).symm
  exact h₂.next (i := p2Index va) (by simp) va 1 (tableIndex_val _ _).symm

/-! ## The entry of the TLB -/

/-- The even page or the odd one of the pair around an address. -/
def pairPage (va : Nat) (odd : Bool) : Nat := va / 8192 * 8192 + 4096 * odd.toNat

theorem tablePath_pairPage (va : Nat) (odd : Bool) :
    tablePath (pairPage va odd) = tablePath va := by
  rw [tablePath_eq_iff, pairPage]
  have hodd := odd.toNat_le
  omega

theorem p1Index_pairPage (va : Nat) (odd : Bool) :
    setPwclPwch.pt.index va / 2 * 2 + odd.toNat = (p1Index (pairPage va odd)).val := by
  rw [p1Index, tableIndex_val, pairPage]
  simp only [Field.index, setPwclPwch]
  have hodd := odd.toNat_le
  omega

/-- The word that the tables have for the page of an address; a page that is not in use has none. -/
def pageBits (s : State) (va : Nat) : BitVec 64 := ((pageAt s (pagePath va)).getD zero).bits

theorem getD_inUse (e : PageTableEntry) : (inUse e).getD zero = e := by
  rw [inUse]
  split_ifs with hu
  · exact ((isUnused_iff e).mp hu).symm
  · rfl

/-- **What the handler fills in** for an address: the words of the tables for both pages. Where no
table was made, physical page 0 has to look like an empty one. -/
theorem refilled_lo (hroot : At s [] base)
    (hva : (∃ f, tableAt s (tablePath va) = some f) ∨ PageZeroClear s) (odd : Bool) :
    (refilled s base va).lo odd = pageBits s (pairPage va odd) := by
  have hat := phys_descend va hroot
  set last := TlbRefill.descend setPwclPwch (physWord s) PAGE_WALK_MASK va base [3, 2, 1] with hlast
  show pageWord setPwclPwch (physWord s) va odd last = _
  rw [pageWord, p1Index_pairPage]
  rcases hat with htable | ⟨hnone, hzero⟩
  · have hpage : pageAt s (pagePath (pairPage va odd)) = _ :=
      pageAt_of_some (by rw [tablePath_pairPage]; exact htable) rfl
    rw [physWord_entry rfl, pageBits, hpage, getD_inUse]
  · have hclear : PageZeroClear s := by
      apply hva.resolve_left
      rintro ⟨f, hf⟩
      rw [hnone] at hf
      cases hf
    have hnopage : pageAt s (pagePath (pairPage va odd)) = none := by
      rw [← tablePath_pairPage va odd] at hnone
      rw [pagePath, pageAt, hnone, Option.bind_none, ite_self]
    rw [hzero hclear, Nat.zero_add, hclear, pageBits, hnopage]
    rfl

/-- The entry of the TLB is for the pair of pages around the address. -/
def Hits (t : TlbEntry) (gpa : Nat) : Prop := t.vppn = pairOf setPwclPwch gpa

/-- The word that an entry of the TLB has for an address. -/
def word (t : TlbEntry) (gpa : Nat) : BitVec 64 := t.lo (gpa.testBit 12)

/-- An entry of the TLB has what the tables have. -/
def Agrees (s : State) (t : TlbEntry) : Prop := ∀ gpa, Hits t gpa → word t gpa = pageBits s gpa

/-- **The entry that is filled in** agrees with the tables, for every address that it is for. -/
theorem refilled_agrees (hroot : At s [] base)
    (hva : (∃ f, tableAt s (tablePath va) = some f) ∨ PageZeroClear s) :
    Agrees s (refilled s base va) := by
  intro gpa hhit
  have hpair : va % 2 ^ 48 / 2 ^ 13 = gpa % 2 ^ 48 / 2 ^ 13 := hhit
  have hodd : gpa.testBit 12 = decide (gpa / 4096 % 2 = 1) := by
    rw [Nat.testBit_eq_decide_div_mod_eq]
  rw [word, refilled_lo hroot hva, pageBits, pageBits]
  have hpath : pagePath (pairPage va (gpa.testBit 12)) = pagePath gpa := by
    rw [pagePath_eq_iff, pairPage, hodd]
    by_cases h : gpa / 4096 % 2 = 1
    · rw [decide_eq_true h, Bool.toNat_true]
      omega
    · rw [decide_eq_false h, Bool.toNat_false]
      omega
  rw [hpath]

/-- The table for the two megabytes around an address was made. -/
def HasTable (s : State) (va : Nat) : Prop := ∃ f, tableAt s (tablePath va) = some f

/-- The root of a page table is a table for the walk, and no huge page. -/
theorem at_root (h : Inv s) : At s [] (BitVec.ofNat 64 s.pt.root) ∧
    (BitVec.ofNat 64 s.pt.root).getLsbD 6 = false := by
  obtain ⟨pa, hal, hlt, hroot⟩ := h.frame _ (h.owned [] _ rfl)
  have hphys : phys (BitVec.ofNat 64 s.pt.root) = pa := by
    rw [phys, BitVec.toNat_ofNat, hroot]
    unfold LOONGARCH64_CACHED_DMW_PREFIX paBits
    omega
  refine ⟨.inl ?_, ?_⟩
  · rw [hphys, ← hroot]
    rfl
  · have hdvd : s.pt.root % 2 ^ 12 = 0 := by
      rw [hroot]
      unfold LOONGARCH64_CACHED_DMW_PREFIX
      omega
    rw [BitVec.getLsbD_ofNat, BitMask.testBit_of_mod hdvd (by norm_num), Bool.and_false]

/-- **The handler refines the tables**: it fills in what the tables have for the pair of pages
around the address that has missed, and changes no register. -/
theorem handler_refines (h : Inv s) (hpgd : c.csr .pgd = BitVec.ofNat 64 s.pt.root)
    (hva : HasTable s c.badv ∨ PageZeroClear s) :
    let c' := run setPwclPwch (physWord s) c tlbRefillHandler
    c'.x = c.x ∧ c'.csr .pgd = c.csr .pgd ∧
      ∃ t, c'.tlb = t :: c.tlb ∧ Hits t c.badv ∧ Agrees s t := by
  obtain ⟨hat, hroot⟩ := at_root h
  rw [← hpgd] at hat hroot
  obtain ⟨htlb, hx, hkept⟩ := run_tlbRefillHandler s c hroot
  exact ⟨hx, hkept, _, htlb, rfl, refilled_agrees hat hva⟩

/-! ## The words of the regions -/

/-- Where the CPU goes with the word of a page, and whether it takes instructions from there; a page
that is not valid is an exception. -/
def translate (w : BitVec 64) (gpa : Nat) : Option (Nat × Bool) :=
  if w &&& DescriptorAttr.V = 0 then none
  else some ((w &&& PageTableEntry.PTE_PPN_MASK).toNat + gpa % 4096, w &&& DescriptorAttr.NX == 0)

/-- The flags in an entry: the page is valid unless it is the user's, and the bits of the address
are left to it. -/
theorem ofMemFlags_spec (fl : MemFlags) :
    DescriptorAttr.ofMemFlags fl &&& DescriptorAttr.V =
        (if fl.contains MemFlags.USER then 0 else DescriptorAttr.V) ∧
      DescriptorAttr.ofMemFlags fl &&& DescriptorAttr.NX =
        (if fl.contains MemFlags.EXECUTE then 0 else DescriptorAttr.NX) ∧
      DescriptorAttr.ofMemFlags fl &&& PageTableEntry.PTE_PPN_MASK = 0 := by
  simp only [DescriptorAttr.ofMemFlags]
  cases fl.contains MemFlags.WRITE <;> cases fl.contains MemFlags.READ <;>
    cases fl.contains MemFlags.EXECUTE <;> cases fl.contains MemFlags.USER <;>
      cases fl.contains MemFlags.Io <;> decide

/-- The physical address of an address of a region, in the bits that an entry has. -/
def target (r : MemoryRegion) (va : Nat) : Nat :=
  PageSize.Size4K.alignDown (r.mapper.mapFn (va - va % 4096)) % 2 ^ 48 + va % 4096

theorem alignDown_mod (x : Nat) : PageSize.Size4K.alignDown x % 4096 = 0 := by
  have hlow : usizeNot (PageSize.Size4K.bytes - 1) % 2 ^ 12 = 0 := by decide
  rw [PageSize.alignDown, show 4096 = 2 ^ 12 by norm_num, Nat.and_mod_two_pow, hlow, Nat.and_zero]

/-- The field of the address holds the bits of an address that it has. -/
theorem ppn_toNat {x : Nat} (hx : x % 4096 = 0) :
    (BitVec.ofNat 64 x &&& PageTableEntry.PTE_PPN_MASK).toNat = x % 2 ^ 48 := by
  have hmask : PageTableEntry.PTE_PPN_MASK.toNat = (2 ^ (48 - 12) - 1) <<< 12 := by decide
  have hlow : PageTableEntry.PTE_PPN_MASK.toNat =
      (2 ^ 48 - 1) &&& PageTableEntry.PTE_PPN_MASK.toNat := by decide
  have hbits : x % 2 ^ 64 % 2 ^ 48 = x % 2 ^ 48 := Nat.mod_mod_of_dvd x (by norm_num)
  rw [BitVec.toNat_and, BitVec.toNat_ofNat, hlow, ← Nat.and_assoc, BitMask.and_low, hbits, hmask]
  exact BitMask.and_window (by omega) (Nat.mod_lt _ (by norm_num)) (by norm_num)

/-- **The word of a region** translates its addresses to their targets. -/
theorem translate_regionEntry {r : MemoryRegion} (hmod : va % 2 ^ 48 = gpa % 2 ^ 48) :
    translate (regionEntry r va).bits gpa =
      if r.flags.contains MemFlags.USER then none
      else some (target r va, r.flags.contains MemFlags.EXECUTE) := by
  obtain ⟨hvalid, hnx, hppn⟩ := ofMemFlags_spec r.flags
  set x := PageSize.Size4K.alignDown (r.mapper.mapFn (va - va % 4096)) with hx
  have hbits : (regionEntry r va).bits = DescriptorAttr.ofMemFlags r.flags |||
      (BitVec.ofNat 64 x &&& PageTableEntry.PTE_PPN_MASK) := pageEntry_bits ..
  -- the flags and the address are in bits of their own
  have hflag : ∀ k : BitVec 64, PageTableEntry.PTE_PPN_MASK &&& k = 0 →
      (regionEntry r va).bits &&& k = DescriptorAttr.ofMemFlags r.flags &&& k := by
    intro k hk
    rw [hbits, BitVec.and_or_distrib_right, BitVec.and_assoc, hk]
    simp
  have haddr : ((regionEntry r va).bits &&& PageTableEntry.PTE_PPN_MASK).toNat = x % 2 ^ 48 := by
    have hzero : ∀ y : BitVec 64, 0 ||| y = y := fun y => BitVec.zero_or
    rw [hbits, BitVec.and_or_distrib_right, BitVec.and_assoc, BitVec.and_self, hppn, hzero]
    exact ppn_toNat (alignDown_mod _)
  have hoff : gpa % 4096 = va % 4096 := by omega
  rw [translate, hflag DescriptorAttr.V (by decide), hflag DescriptorAttr.NX (by decide), haddr,
    hvalid, hnx, hoff]
  cases r.flags.contains MemFlags.USER
  · cases r.flags.contains MemFlags.EXECUTE <;> rfl
  · rfl

/-- What the regions of a memory set say about an address. -/
def RegionsTranslate (m : Gpm) (gpa pa : Nat) (executable : Bool) : Prop :=
  ∃ r va, m.Has r ∧ r.Mem va ∧ va % 2 ^ 48 = gpa % 2 ^ 48 ∧ r.flags.contains MemFlags.USER = false ∧
    target r va = pa ∧ r.flags.contains MemFlags.EXECUTE = executable

/-- **The words of the tables translate as the regions say.** -/
theorem Synced.translate_iff (h : Synced m) {pa : Nat} {executable : Bool} :
    translate (pageBits m.st gpa) gpa = some (pa, executable) ↔
      RegionsTranslate m gpa pa executable := by
  constructor
  · intro ht
    cases hpage : pageAt m.st (pagePath gpa) with
    | none =>
      rw [pageBits, hpage] at ht
      exact absurd ht (by rw [Option.getD_none]; exact Option.some_ne_none _ ∘ Eq.symm)
    | some e =>
      obtain ⟨r, va, hr, hva, hmod, rfl⟩ := h.pageAt_eq_some_iff.mp hpage
      rw [pageBits, hpage, Option.getD_some, translate_regionEntry hmod] at ht
      split_ifs at ht with huser
      obtain ⟨rfl, rfl⟩ := Prod.mk.inj (Option.some.inj ht)
      exact ⟨r, va, hr, hva, hmod, (Bool.not_eq_true _).mp huser, rfl, rfl⟩
  · rintro ⟨r, va, hr, hva, hmod, huser, rfl, rfl⟩
    have hpage : pageAt m.st (pagePath gpa) = some (regionEntry r va) :=
      h.pageAt_eq_some_iff.mpr ⟨r, va, hr, hva, hmod, rfl⟩
    rw [pageBits, hpage, Option.getD_some, translate_regionEntry hmod, huser]
    rfl

/-- The two megabytes around an address of a recorded region have a table. -/
theorem Synced.hasTable (h : Synced m) {r : MemoryRegion} (hr : m.Has r) (hva : r.Mem va)
    (hblock : va % 2 ^ 48 / 2 ^ 21 = gpa % 2 ^ 48 / 2 ^ 21) : HasTable m.st gpa := by
  obtain ⟨f, hf⟩ := h.table hr hva
  exact ⟨f, by rw [← tablePath_eq_iff.mpr hblock, hf]⟩

/-- **After any history of a memory set, a refill is exact**: the entry that the handler fills in
translates each address that it is for as the recorded regions do. -/
theorem refill_exact (h : History m) (hpgd : c.csr .pgd = BitVec.ofNat 64 m.st.pt.root)
    (hva : HasTable m.st c.badv ∨ PageZeroClear m.st) :
    let c' := run setPwclPwch (physWord m.st) c tlbRefillHandler
    c'.x = c.x ∧ c'.csr .pgd = c.csr .pgd ∧ ∃ t, c'.tlb = t :: c.tlb ∧ Hits t c.badv ∧
      ∀ gpa, Hits t gpa → ∀ pa executable,
        translate (word t gpa) gpa = some (pa, executable) ↔
          RegionsTranslate m gpa pa executable := by
  obtain ⟨hx, hkept, t, htlb, hhit, hagree⟩ := handler_refines h.synced.inv hpgd hva
  refine ⟨hx, hkept, t, htlb, hhit, fun gpa hgpa pa executable => ?_⟩
  rw [hagree gpa hgpa]
  exact h.synced.translate_iff

/-- A page of memory at the start of the address space. -/
def lowMemory : MemoryRegion :=
  .newWithOffsetMapper 0 0x10000000 0x1000 (MemFlags.READ ||| MemFlags.WRITE ||| MemFlags.EXECUTE)

/-- A zone with one page, and a miss at its start. -/
theorem refill_exact_lowMemory :
    ∃ (m : Gpm) (c : Core) (t : TlbEntry), History m ∧
      (run setPwclPwch (physWord m.st) c tlbRefillHandler).tlb = [t] ∧
        translate (word t 0x10) 0x10 = some (0x10000010, true) := by
  have hnew : History ⟨.empty, freshTable fun _ => zero⟩ := .new isFrame_poolFrames (by decide) rfl
  have hmark : Marked lowMemory.flags := by decide
  have hrun := eq_ok_of_isOk ((Loong.insert lowMemory).run
    (⟨.empty, freshTable fun _ => zero⟩ : Gpm)) (by decide +kernel)
  have hhist := History.insert hnew hmark hrun
  have hhas := ((hnew.synced.insert hmark hrun).2 lowMemory).mpr (.inr ⟨by decide, rfl⟩)
  set m := endState ((Loong.insert lowMemory).run (⟨.empty, freshTable fun _ => zero⟩ : Gpm))
  let c : Core := ⟨fun _ => 0, fun k => if k = .pgd then BitVec.ofNat 64 m.st.pt.root else 0, []⟩
  have hbadv : c.badv = 0 := by simp [Core.badv, c]
  have hin : lowMemory.Mem 0x10 := by decide
  have hblock : 0x10 % 2 ^ 48 / 2 ^ 21 = c.badv % 2 ^ 48 / 2 ^ 21 := by
    rw [hbadv]
    rfl
  obtain ⟨-, -, t, htlb, hhit, hexact⟩ := refill_exact (c := c) hhist rfl
    (.inl (hhist.synced.hasTable hhas hin hblock))
  have hhit' : Hits t 0x10 := by
    rw [Hits, hhit, hbadv]
    rfl
  refine ⟨m, c, t, hhist, htlb, (hexact 0x10 hhit' _ _).mpr ?_⟩
  exact ⟨lowMemory, 0x10, hhas, hin, rfl, by decide, by decide, by decide⟩

end Loong

end Hvisor
