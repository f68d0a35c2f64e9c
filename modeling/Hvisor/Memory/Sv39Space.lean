import Hvisor.Arch.Sv39
import Hvisor.Memory.Growth
import Hvisor.Memory.Stage2Space

/-!
# The guest-physical address space on RISC-V

The memory set of a zone over the stage-2 tables of RISC-V. Its root table has four pages, and
the hardware indexes all of them, while the calls of the page table index the first page only.
`Frame::new_16` asks the allocator for the four pages and clears none of them: what it clears is
the aligned frame that its loop finds.

## Main definitions

* `new16`, `newGpm`: the root table, and a fresh memory set
* `RootReady`: the root table that is handed out is aligned and has no valid entries
* `Sv39Region`, `Insertable`: the regions whose insertion keeps the table in step
* `GpmHistory`: the memory sets after calls of `insert` and `delete`
* `GpmInv`: the table maps the recorded regions, and the rest of the root table is empty

## Main results

* `stage2Walk_of_leaf`, `stage2Walk_of_no_leaf`: the walk of the hardware, read in the radix tree
* `GpmHistory.inv`: the invariant after every history
* `sv39x4_refines_regions`: the hardware translates as the recorded regions do
* `sv39_insert_atomic_iff`: when a failing insertion changes nothing
-/

namespace Hvisor

namespace Riscv

open GenericPTE RadixTree

/-! ## The root table -/

/-- The pages of a root table. -/
def rootPages (root : Nat) : List Nat := (List.range 4).map fun k => root + k * pageSize

/-- The loop of `Frame::new_16`, with the frames it holds: it clears frames until one is aligned,
and gives that one back. -/
def new16Loop (mem : Nat → PageTableEntry) (v : List Nat) :
    List Nat → Option ((Nat → PageTableEntry) × List Nat × List Nat)
  | [] => none
  | f :: free =>
    let mem := zeroFrame mem f
    if f &&& 0b11111111111111 = 0 then some (mem, v, f :: free)
    else new16Loop mem (v ++ [f]) free

/-- `Frame::new_16`, with the allocator's answer for four contiguous frames. -/
def new16 (contiguous : List Nat → Option Nat) (mem : Nat → PageTableEntry) (free : List Nat) :
    Option (Nat × (Nat → PageTableEntry) × List Nat) := do
  let (mem, v, free) ← new16Loop mem [] free
  let ret ← contiguous free
  return (ret, mem, (v ++ free).filter fun f => f ∉ rootPages ret)

/-- A memory set with a fresh root table; `none` is the failure of `expect`. -/
def newGpm (contiguous : List Nat → Option Nat) (mem : Nat → PageTableEntry) (free : List Nat) :
    Option (MemorySet PageTableEntry) := do
  let (root, mem, free) ← new16 contiguous mem free
  return ⟨.empty, ⟨⟨root, 3, []⟩, mem, free⟩⟩

/-- What the allocator promises for four contiguous frames: all of them are free. -/
def Contiguous (contiguous : List Nat → Option Nat) : Prop :=
  ∀ free root, contiguous free = some root → ∀ f ∈ rootPages root, f ∈ free

/-- No entry of the page is valid. -/
def NoValid (mem : Nat → PageTableEntry) (f : Nat) : Prop :=
  ∀ i : Fin entryCount, isPresent (mem (entryPtr f i)) = false

/-- **The root table that is handed out is ready**: it is aligned, its first page is the frame that
the loop clears or holds zeros, and no entry of the other pages is valid. -/
structure RootReady (contiguous : List Nat → Option Nat) (mem : Nat → PageTableEntry)
    (free : List Nat) (root : Nat) : Prop where
  answer : contiguous (free.dropWhile fun f => f % 16384 ≠ 0) = some root
  aligned : root % 16384 = 0
  first : (free.dropWhile fun f => f % 16384 ≠ 0).head? = some root ∨
    ∀ a, InFrame root a → mem a = zero
  others : ∀ k, 0 < k → k < 4 → NoValid mem (root + k * pageSize)

theorem mem_rootPages {root f : Nat} : f ∈ rootPages root ↔ ∃ k < 4, f = root + k * pageSize := by
  simp [rootPages, eq_comm]

/-! ## Runs -/

/-- **A region that the tables can map**: it has an offset mapper, is page aligned on both sides,
lies below `2 ^ 39`, has its target below `2 ^ 56`, and its rights are known to the hardware. -/
structure Sv39Region (r : MemoryRegion) : Prop where
  offset : ∃ off < usizeSize, r.mapper = .offset off
  start_aligned : r.start % 4096 = 0
  size_aligned : r.size % 4096 = 0
  paddr_aligned : r.mapper.mapFn r.start % 4096 = 0
  bound : r.start + r.size ≤ 2 ^ 39
  paddr_bound : r.mapper.mapFn r.start + r.size ≤ 2 ^ 56
  accessible : Accessible r.flags = true

/-- **An insertion that keeps the table in step**: it does not reach the table, its first page
cannot be mapped, or it is one of a region that the tables can map and all of its pages fit. -/
def Insertable (m : MemorySet PageTableEntry) (region : MemoryRegion) : Prop :=
  region.size = 0 ∨ m.testFreeArea region ≠ some true ∨ ¬ m.st.Room (region.pages.take 1) ∨
    Sv39Region region ∧ m.st.Room region.pages

/-- What the others may do between two calls: they write outside of the tables and of the root
table, and the frames left are fresh ones. -/
structure RootOthers (m m' : MemorySet PageTableEntry) : Prop extends MemorySet.Others m m' where
  root : ∀ f ∈ rootPages m.st.pt.root, ∀ i, m'.st.mem (entryPtr f i) = m.st.mem (entryPtr f i)
  root_free : ∀ f ∈ rootPages m.st.pt.root, f ∉ m'.st.free

/-- The memory sets after calls of `insert` and `delete` that return, from a root table with the
first property and by insertions with the second one. -/
inductive GpmHistory (contiguous : List Nat → Option Nat)
    (ready : (Nat → PageTableEntry) → List Nat → Prop)
    (insertable : MemorySet PageTableEntry → MemoryRegion → Prop) :
    MemorySet PageTableEntry → Prop
  | new {mem : Nat → PageTableEntry} {free : List Nat} {m : MemorySet PageTableEntry}
      (hframe : ∀ f ∈ free, FrameAddr f) (hnodup : free.Nodup) (hready : ready mem free)
      (h : newGpm contiguous mem free = some m) : GpmHistory contiguous ready insertable m
  | others {m m' : MemorySet PageTableEntry} (hm : GpmHistory contiguous ready insertable m)
      (h : RootOthers m m') : GpmHistory contiguous ready insertable m'
  | insert {m m' : MemorySet PageTableEntry} {region : MemoryRegion}
      (hm : GpmHistory contiguous ready insertable m) (hinsert : insertable m region)
      (h : (MemorySet.insert region).run m = .ok () m' ∨
        ∃ e, (MemorySet.insert region).run m = .error (.err e) m') :
      GpmHistory contiguous ready insertable m'
  | delete {m m' : MemorySet PageTableEntry} {start : Nat}
      (hm : GpmHistory contiguous ready insertable m)
      (h : (MemorySet.delete start).run m = .ok () m' ∨
        ∃ e, (MemorySet.delete start).run m = .error (.err e) m') :
      GpmHistory contiguous ready insertable m'

/-! ## The walk of the hardware in the tree -/

section Walk

local instance : GenericPTE PageTableEntry := accessPTE
local instance : LawfulGenericPTE PageTableEntry := accessPTE_lawful

/-- An entry for a table reads as one. -/
def Pointer (e : PageTableEntry) : Prop :=
  isPresent e = true → e.isHuge = false → e.kind = .table

/-- The entries that the calls write are entries for tables, or of mappings with a right. -/
theorem writable_pointer : Writable Pointer where
  zero := fun h => absurd h (by decide)
  table f _ := fun _ _ => kind_setTable _ _
  leaf paddr fl ps := fun _ h => by
    have hhuge : (PageTableEntry.setFlags (PageTableEntry.empty.setAddr (ps.alignDown paddr))
        (withAccess fl)).isHuge = true := (isHuge_setFlags _ _).trans (hasAccess_withAccess fl)
    rw [show (leafEntry paddr fl ps : PageTableEntry) = PageTableEntry.setFlags
      (PageTableEntry.empty.setAddr (ps.alignDown paddr)) (withAccess fl) from rfl, hhuge] at h
    cases h

variable {s : PtState PageTableEntry} {p : Path} {i : Fin entryCount} {f g gpa level : Nat}
  {a : PageTableEntry} {ps : PageSize}

/-- The walk at an entry of a table. -/
theorem stage2Walk_eq (mem : Nat → PageTableEntry) (gpa level table : Nat) :
    stage2Walk mem gpa level table =
      match (mem (table + 8 * walkIndex level gpa)).kind with
      | .fault => none
      | .leaf =>
        if (mem (table + 8 * walkIndex level gpa)).addr % levelBytes level = 0 then
          some ((mem (table + 8 * walkIndex level gpa)).addr + gpa % levelBytes level)
        else none
      | .table =>
        match level with
        | 0 => none
        | level + 1 =>
          stage2Walk mem gpa level (mem (table + 8 * walkIndex (level + 1) gpa)).addr := by
  cases level with
  | zero =>
    cases hk : (mem (table + 8 * walkIndex 0 gpa)).kind <;> simp only [stage2Walk, hk, ppn_mul]
  | succ level =>
    cases hk : (mem (table + 8 * walkIndex (level + 1) gpa)).kind <;>
      simp only [stage2Walk, hk, ppn_mul]

theorem stage2Walk_empty (hp : tableAt s p = some f) (hi : walkIndex level gpa = i)
    (he : tree s (i :: p) = .empty) : stage2Walk s.mem gpa level f = none := by
  have hmem : s.mem (f + 8 * walkIndex level gpa) = PageTableEntry.empty := by
    rw [hi]
    exact mem_eq_zero hp he
  have hkind : PageTableEntry.empty.kind = .fault := by decide
  rw [stage2Walk_eq, hmem, hkind]

theorem stage2Walk_leaf (hi : walkIndex level gpa = i) (hmem : s.mem (entryPtr f i) = a)
    (hkind : a.kind = .leaf) (hal : a.addr % levelBytes level = 0) :
    stage2Walk s.mem gpa level f = some (a.addr + gpa % levelBytes level) := by
  have hmem' : s.mem (f + 8 * walkIndex level gpa) = a := by
    rw [hi]
    exact hmem
  rw [stage2Walk_eq, hmem', hkind]
  exact if_pos hal

/-- **An entry for a table** is followed. -/
theorem stage2Walk_table (h : s.Inv) (hq : s.AllEntries Pointer) (hp : tableAt s p = some f)
    (hi : walkIndex (level + 1) gpa = i) (hg : tableAt s (i :: p) = some g) :
    stage2Walk s.mem gpa (level + 1) f = stage2Walk s.mem gpa level g := by
  obtain ⟨f', hf', ht, haddr⟩ := tableAt_cons_eq_some.mp hg
  obtain rfl : f' = f := Option.some.inj (hf'.symm.trans hp)
  have hpres := h.present p i f' hp (by simp [ht])
  -- an entry that leads to a table is no leaf, so it is a pointer
  have hhuge : (s.mem (entryPtr f' i)).isHuge = false := by
    rw [tree_cons hp] at ht
    unfold decode at ht
    split_ifs at ht with h₁ h₂
    exact (Bool.or_eq_false_iff.mp (Bool.eq_false_iff.mpr h₂)).2
  have hkind := hq f' (h.owned p f' hp) i hpres hhuge
  have hmem : s.mem (f' + 8 * walkIndex (level + 1) gpa) = s.mem (entryPtr f' i) := by
    rw [hi]
    rfl
  rw [stage2Walk_eq]
  simp only [hmem, hkind, ← haddr]
  rfl

/-! The indices of the two walks agree below `2 ^ 39`. -/

theorem walkIndex_two (h : gpa < 2 ^ 39) : walkIndex 2 gpa = p3Index gpa := by
  rw [walkIndex, BitMask.field, p3Index, tableIndex_val]
  omega

theorem walkIndex_one (gpa : Nat) : walkIndex 1 gpa = p2Index gpa := by
  rw [walkIndex, BitMask.field, p2Index, tableIndex_val]
  · omega
  · simp

theorem walkIndex_zero (gpa : Nat) : walkIndex 0 gpa = p1Index gpa := by
  rw [walkIndex, BitMask.field, p1Index, tableIndex_val]
  · omega
  · simp

/-- The level of the tables that hold the pages of a size. -/
def sizeLevel : PageSize → Nat
  | .Size4K => 0
  | .Size2M => 1
  | .Size1G => 2

theorem levelBytes_sizeLevel (ps : PageSize) : levelBytes (sizeLevel ps) = ps.bytes := by
  cases ps <;> rfl

theorem walkIndex_sizeLevel (ps : PageSize) (h : gpa < 2 ^ 39) :
    walkIndex (sizeLevel ps) gpa = pageIndex ps gpa := by
  cases ps
  · exact walkIndex_zero gpa
  · exact walkIndex_one gpa
  · exact walkIndex_two h

/-- **The walk reaches every table** on the way of an address. -/
theorem stage2Walk_root (h : s.Inv) (hq : s.AllEntries Pointer)
    (hgpa : gpa < 2 ^ 39) (hf : tableAt s (tablePath 3 ps gpa) = some f) :
    stage2Walk s.mem gpa 2 s.pt.root = stage2Walk s.mem gpa (sizeLevel ps) f := by
  have h2 := walkIndex_two hgpa
  have h1 := walkIndex_one gpa
  cases ps with
  | Size1G => exact congrArg (stage2Walk s.mem gpa 2) (Option.some.inj hf)
  | Size2M => exact stage2Walk_table h hq rfl h2 hf
  | Size4K =>
    obtain ⟨g, hg, -, -⟩ := tableAt_cons_eq_some.mp hf
    exact (stage2Walk_table h hq rfl h2 hg).trans (stage2Walk_table h hq hg h1 hf)

/-- **The walk at a leaf** ends with its address. -/
theorem stage2Walk_of_leaf (h : s.Inv) (hl : s.pt.level = 3) (hq : s.AllEntries Pointer)
    (hgpa : gpa < 2 ^ 39) (hleaf : tree s (pagePath 3 ps gpa) = .leaf a) (hkind : a.kind = .leaf)
    (hal : a.addr % ps.bytes = 0) :
    stage2Walk s.mem gpa 2 s.pt.root = some (a.addr + gpa % ps.bytes) := by
  rw [← hl] at hleaf
  obtain ⟨f, -, hf, hmem, -⟩ := getEntryMut_leaf h hleaf
  rw [hl] at hf
  rw [← levelBytes_sizeLevel] at hal ⊢
  rw [stage2Walk_root h hq hgpa hf]
  exact stage2Walk_leaf (walkIndex_sizeLevel ps hgpa) hmem hkind hal

/-- Without a leaf around an address, the tables on its way end at an empty slot. -/
theorem exists_empty_slot (hl : s.pt.level = 3)
    (hn : ∀ ps a, tree s (pagePath 3 ps gpa) ≠ .leaf a) :
    ∃ ps f, tableAt s (tablePath 3 ps gpa) = some f ∧ tree s (pagePath 3 ps gpa) = .empty := by
  cases h3 : tree s (pagePath 3 .Size1G gpa) with
  | empty => exact ⟨.Size1G, s.pt.root, rfl, h3⟩
  | leaf a => exact absurd h3 (hn _ a)
  | table =>
    obtain ⟨p2, hp2⟩ := tree_eq_table.mp h3
    cases h2 : tree s (pagePath 3 .Size2M gpa) with
    | empty => exact ⟨.Size2M, p2, hp2, h2⟩
    | leaf a => exact absurd h2 (hn _ a)
    | table =>
      obtain ⟨p1, hp1⟩ := tree_eq_table.mp h2
      cases h1 : tree s (pagePath 3 .Size4K gpa) with
      | empty => exact ⟨.Size4K, p1, hp1, h1⟩
      | leaf a => exact absurd h1 (hn _ a)
      | table =>
        -- the last level holds no tables
        obtain ⟨g, hg⟩ := tree_eq_table.mp h1
        rcases tableAt_length hg with he | he
        · cases he
        · exact absurd hl.symm he

/-- **The walk without a leaf** faults. -/
theorem stage2Walk_of_no_leaf (h : s.Inv) (hl : s.pt.level = 3) (hq : s.AllEntries Pointer)
    (hgpa : gpa < 2 ^ 39) (hn : ∀ ps a, tree s (pagePath 3 ps gpa) ≠ .leaf a) :
    stage2Walk s.mem gpa 2 s.pt.root = none := by
  obtain ⟨ps, f, hf, hempty⟩ := exists_empty_slot hl hn
  rw [stage2Walk_root h hq hgpa hf]
  exact stage2Walk_empty hf (walkIndex_sizeLevel ps hgpa) hempty

end Walk

/-! ## The register and the root table -/

theorem hgatpRoot_activate {root : Nat} (hal : root % 16384 = 0) (hlt : root < 2 ^ 48) :
    ∃ hgatp, activate root = some hgatp ∧ hgatpRoot hgatp = root := by
  have hshift : root >>> 12 = root / 2 ^ 12 := Nat.shiftRight_eq_div_pow root 12
  have hfits : root >>> 12 < 2 ^ 44 := by omega
  refine ⟨_, if_pos hfits, ?_⟩
  have hmode : BitMask.field (8#64 <<< 60).toNat 0 44 = 0 := by decide
  have hvmid : BitMask.field (0#64 <<< 44).toNat 0 44 = 0 := by decide
  have hppn : BitMask.field (BitVec.ofNat 64 (root >>> 12)).toNat 0 44 = root >>> 12 := by
    rw [BitVec.toNat_ofNat, BitMask.field, hshift]
    omega
  rw [hgatpRoot, BitVec.toNat_or, BitVec.toNat_or, BitMask.field_or, BitMask.field_or, hmode, hvmid,
    hppn, Nat.zero_or, Nat.zero_or]
  omega

/-- What the loop of `new_16` does: it takes the frames before the first aligned one, and clears
them and that one. -/
theorem new16Loop_spec {mem mem' : Nat → PageTableEntry} {v v' free rest : List Nat}
    (h : new16Loop mem v free = some (mem', v', rest)) :
    rest = (free.dropWhile fun f => f % 16384 ≠ 0) ∧ v' ++ rest = v ++ free ∧
      (∀ a, mem' a = zero ∨ mem' a = mem a) ∧
      ∀ f, rest.head? = some f → ∀ a, InFrame f a → mem' a = zero := by
  -- on the free frames: the loop clears the first, and stops at one that is aligned
  induction free generalizing mem v with
  | nil => cases h
  | cons f free ih =>
    have hmask : f &&& 0b11111111111111 = f % 16384 := BitMask.and_low f 14
    have hzero : ∀ a, zeroFrame mem f a = zero ∨ zeroFrame mem f a = mem a := by
      intro a
      unfold zeroFrame
      split_ifs
      · exact .inl rfl
      · exact .inr rfl
    simp only [new16Loop, hmask] at h
    by_cases hal : f % 16384 = 0
    · rw [if_pos hal, Option.some.injEq, Prod.mk.injEq, Prod.mk.injEq] at h
      obtain ⟨rfl, rfl, rfl⟩ := h
      refine ⟨by simp [hal], rfl, hzero, fun g hg a ha => ?_⟩
      obtain rfl : f = g := Option.some.inj hg
      exact if_pos ha
    · rw [if_neg hal] at h
      obtain ⟨hrest, hfree, hmem, hhead⟩ := ih h
      refine ⟨by simp [hrest, hal], by simpa using hfree, fun a => ?_, hhead⟩
      rcases hmem a with ha | ha
      · exact .inl ha
      · exact (hzero a).imp ha.trans ha.trans

/-! ## The calls on both kinds of entries -/

section Access

variable {m : MemorySet PageTableEntry} {s s' : PtState PageTableEntry} {region : MemoryRegion}

theorem room_access {pages : List Page} :
    @PtState.Room _ accessPTE s pages ↔ @PtState.Room _ sourcePTE s pages := by
  have hneeded : @PtState.tablesNeeded _ accessPTE s pages =
      @PtState.tablesNeeded _ sourcePTE s pages := by
    simp only [PtState.tablesNeeded, tree_access]
  constructor
  · rintro ⟨hclear, hapart, hframes⟩
    rw [tree_access] at hclear
    rw [hneeded] at hframes
    exact @PtState.Room.mk _ sourcePTE _ _ hclear hapart hframes
  · rintro ⟨hclear, hapart, hframes⟩
    rw [← tree_access] at hclear
    rw [← hneeded] at hframes
    exact @PtState.Room.mk _ accessPTE _ _ hclear hapart hframes

/-- The call of `map` on a region whose first page cannot be mapped. -/
theorem mapLoop_first_error (P : GenericPTE PageTableEntry) {s s' : PtState PageTableEntry}
    {e : PagingError} (h0 : region.size ≠ 0) (hs : region.start % 4096 = 0)
    (h : (@mapPage _ P ⟨region.start, choosePageSize region.start (region.mapper.mapFn region.start)
      region.size region.flags⟩ (region.mapper.mapFn region.start) region.flags).run s =
        .error e s') :
    (@mapLoop _ P region region.start region.size).run s = .error (.err e.toHvError) s' := by
  have hal :=
    choosePageSize_isAligned region.flags (region.mapper.mapFn region.start) region.size hs
  rw [mapLoop, if_neg h0]
  simp only [hvAssert, hal, if_true, pure_bind, EStateM.run_bind, liftPaging_run, h]

/-- Calls of `insert` that map alike are alike. -/
theorem insert_congr (P P' : GenericPTE PageTableEntry)
    (h : region.size ≠ 0 → region.start % 4096 = 0 → region.size % 4096 = 0 →
      m.testFreeArea region = some true →
      (@mapLoop _ P region region.start region.size).run m.st =
        (@mapLoop _ P' region region.start region.size).run m.st) :
    (@MemorySet.insert _ P region).run m = (@MemorySet.insert _ P' region).run m := by
  by_cases hal : isAligned region.start = true ∧ isAligned region.size = true
  swap
  · exact (@MemorySet.insert_unaligned _ P m region hal).trans
      (@MemorySet.insert_unaligned _ P' m region hal).symm
  obtain ⟨hs, hz⟩ := hal
  -- the assertions and the test of the area do not depend on the entries
  by_cases h0 : region.size = 0
  · exact (@MemorySet.insert_zero _ P m region hs h0).trans
      (@MemorySet.insert_zero _ P' m region hs h0).symm
  rw [@MemorySet.insert_run _ P region hs hz h0, @MemorySet.insert_run _ P' region hs hz h0]
  cases hfree : m.testFreeArea region with
  | none => rfl
  | some free =>
    cases free with
    | false => rfl
    | true => simp only [h h0 (isAligned_iff.mp hs) (isAligned_iff.mp hz) hfree]

/-- An insertion of a region with an access right is alike on both kinds of entries. -/
theorem insert_eq_access (h : HasAccess region.flags = true) :
    (@MemorySet.insert _ sourcePTE region).run m = (@MemorySet.insert _ accessPTE region).run m :=
  insert_congr sourcePTE accessPTE fun _ _ _ _ =>
    congrArg (EStateM.run · m.st) (mapLoop_access h _ _).symm

theorem delete_access (start : Nat) :
    (@MemorySet.delete _ accessPTE start).run m = (@MemorySet.delete _ sourcePTE start).run m := by
  rw [@MemorySet.delete_run _ accessPTE, @MemorySet.delete_run _ sourcePTE]
  simp only [unmapLoop_access]

end Access

/-! ## The invariant -/

section Invariant

local instance : GenericPTE PageTableEntry := accessPTE
local instance : LawfulGenericPTE PageTableEntry := accessPTE_lawful

/-- **The invariant of the tables of a zone**: they map exactly the recorded regions, each of which
they can map, the root table is aligned, and its upper pages have no valid entries and belong to
no one else. -/
structure GpmInv (m : MemorySet PageTableEntry) : Prop where
  synced : m.Synced
  level : m.st.pt.level = 3
  region : ∀ r, m.Has r → Sv39Region r
  aligned : m.st.pt.root % 16384 = 0
  upper : ∀ k, 0 < k → k < 4 → NoValid m.st.mem (m.st.pt.root + k * pageSize)
  apart : ∀ k, 0 < k → k < 4 → m.st.pt.root + k * pageSize ∉ m.st.frames ∧
    m.st.pt.root + k * pageSize ∉ m.st.free
  entries : m.st.AllEntries Pointer

variable {m m' : MemorySet PageTableEntry} {region r : MemoryRegion} {gpa start : Nat}

/-- A root table that is ready starts a zone. -/
theorem GpmInv.new {contiguous : List Nat → Option Nat} (hc : Contiguous contiguous)
    {mem : Nat → PageTableEntry} {free : List Nat} {root : Nat}
    (hframe : ∀ f ∈ free, FrameAddr f) (hnodup : free.Nodup)
    (hready : RootReady contiguous mem free root) (h : newGpm contiguous mem free = some m) :
    GpmInv m := by
  cases hloop : new16Loop mem [] free with
  | none => simp [newGpm, new16, hloop] at h
  | some result =>
    obtain ⟨mem', v, rest⟩ := result
    obtain ⟨hrest, hfree, hmem, hhead⟩ := new16Loop_spec hloop
    have hanswer : contiguous rest = some root := hrest ▸ hready.answer
    simp only [newGpm, new16, hloop, hanswer, Option.bind_eq_bind, Option.bind_some,
      Option.pure_def, Option.some.injEq] at h
    subst h
    set free' := (v ++ rest).filter fun f => f ∉ rootPages root with hfree'
    rw [List.nil_append] at hfree
    -- the four pages were free, and what is left is not theirs
    have hpage : ∀ f ∈ rootPages root, FrameAddr f := fun f hf =>
      hframe f (hfree ▸ List.mem_append_right v (hc rest root hanswer f hf))
    have hleft : ∀ f ∈ free', f ∈ free ∧ f ∉ rootPages root := fun f hf => by
      have := List.mem_filter.mp hf
      exact ⟨hfree ▸ this.1, by simpa using this.2⟩
    have hnodup' : free'.Nodup := (hfree ▸ hnodup).filter _
    have hmemRoot : root ∈ rootPages root := mem_rootPages.mpr ⟨0, by omega, by simp⟩
    have hzero : zeroFrame mem' root = mem' := by
      funext a
      unfold zeroFrame
      split_ifs with hin
      · rcases hready.first with hfirst | hfirst
        · exact (hhead root (hrest ▸ hfirst) a hin).symm
        · rcases hmem a with ha | ha
          · exact ha.symm
          · exact ((ha.trans (hfirst a hin))).symm
      · rfl
    have hnew : MemorySet.new 3 mem' (root :: free') =
        some ⟨.empty, ⟨⟨root, 3, []⟩, mem', free'⟩⟩ := by
      simp only [MemorySet.new, true_or, if_true, hzero]
    have hsync := MemorySet.synced_new (fun f hf => ?_) (List.nodup_cons.mpr ⟨?_, hnodup'⟩) hnew
    · refine ⟨hsync, rfl, fun r hr => ?_, hready.aligned, fun k hk hk4 i => ?_, fun k hk hk4 => ?_,
        fun f hf i => ?_⟩
      · obtain ⟨k, hk⟩ := SortedMap.mem_values.mp hr
        exact absurd hk SortedMap.not_mem_empty
      · show @isPresent _ sourcePTE (mem' (entryPtr (root + k * pageSize) i)) = false
        rcases hmem (entryPtr (root + k * pageSize) i) with ha | ha
        · rw [ha]
          rfl
        · rw [ha]
          exact hready.others k hk hk4 i
      · refine ⟨fun hf => ?_, fun hf => (hleft _ hf).2 (mem_rootPages.mpr ⟨k, hk4, rfl⟩)⟩
        have hroot : root + k * pageSize = root := List.mem_singleton.mp hf
        simp only [pageSize] at hroot
        omega
      · obtain rfl : f = root := List.mem_singleton.mp hf
        have hentry : mem' (entryPtr f i) = zero := by
          rw [← hzero]
          exact if_pos (inFrame_entryPtr f i)
        show Pointer (mem' (entryPtr f i))
        rw [hentry]
        exact writable_pointer.zero
    · rcases List.mem_cons.mp hf with rfl | hf
      · exact hpage f hmemRoot
      · exact hframe f (hleft f hf).1
    · exact fun hf => (hleft root hf).2 hmemRoot

theorem GpmInv.others (h : GpmInv m) (ho : RootOthers m m') : GpmInv m' := by
  have hroot : m'.st.pt.root = m.st.pt.root := congrArg HvPageTable.root ho.pt
  have hframes : m'.st.frames = m.st.frames := by rw [PtState.frames, PtState.frames, ho.pt]
  have hmem : ∀ k, k < 4 → m.st.pt.root + k * pageSize ∈ rootPages m.st.pt.root := fun k hk =>
    mem_rootPages.mpr ⟨k, hk, rfl⟩
  refine ⟨h.synced.others ho.toOthers, ho.pt ▸ h.level, fun r hr => ?_, hroot ▸ h.aligned,
    fun k hk hk4 i => ?_, fun k hk hk4 => ?_, fun f hf i => ?_⟩
  · rw [MemorySet.Has, ho.regions] at hr
    exact h.region r hr
  · rw [hroot, ho.root _ (hmem k hk4)]
    exact h.upper k hk hk4 i
  · rw [hroot, hframes]
    exact ⟨(h.apart k hk hk4).1, ho.root_free _ (hmem k hk4)⟩
  · rw [hframes] at hf
    rw [ho.mem f hf]
    exact h.entries f hf i

/-- A call that writes its tables only keeps the rest of the root table. -/
theorem GpmInv.of_wrote (h : GpmInv m) (hw : Wrote Pointer m.st m'.st) (hsync : m'.Synced)
    (hlevel : m'.st.pt.level = m.st.pt.level) (hregion : ∀ r, m'.Has r → Sv39Region r) :
    GpmInv m' := by
  have hroot := hw.root
  have hapart : ∀ k, 0 < k → k < 4 → m'.st.pt.root + k * pageSize ∉ m'.st.frames ∧
      m'.st.pt.root + k * pageSize ∉ m'.st.free := by
    intro k hk hk4
    obtain ⟨hframes, hfree⟩ := h.apart k hk hk4
    rw [hroot]
    refine ⟨fun hf => ?_, fun hf => hfree (hw.free _ hf)⟩
    rcases hw.taken _ hf with hf | hf
    · exact hframes hf
    · exact hfree hf
  refine ⟨hsync, hlevel.trans h.level, hregion, hroot ▸ h.aligned, fun k hk hk4 i => ?_, hapart,
    hw.entries h.entries⟩
  -- no table is where the upper page is
  have hmem := hw.mem (entryPtr (m'.st.pt.root + k * pageSize) i) fun f hf hin => by
    have hal := (hsync.inv.frame f hf).1
    have hne : f ≠ m'.st.pt.root + k * pageSize := fun he => (hapart k hk hk4).1 (he ▸ hf)
    have hin' := inFrame_entryPtr (m'.st.pt.root + k * pageSize) i
    have haligned := h.aligned
    rw [← hroot] at haligned
    simp only [InFrame, pageSize] at hin hin' hne
    omega
  rw [hmem, hroot]
  exact h.upper k hk hk4 i

/-! ## One call -/

/-- A first page without room fails, and changes no leaf. -/
theorem mapPage_of_not_room {s : PtState PageTableEntry} (h : s.Inv) (h0 : region.size ≠ 0)
    (hz : region.size % 4096 = 0) (hroom : ¬ s.Room (region.pages.take 1)) :
    ∃ e s', (mapPage ⟨region.start, choosePageSize region.start
      (region.mapper.mapFn region.start) region.size region.flags⟩
        (region.mapper.mapFn region.start) region.flags).run s = .error e s' ∧
      SameLeaves s s' := by
  set page : Page := ⟨region.start, choosePageSize region.start
    (region.mapper.mapFn region.start) region.size region.flags⟩ with hpage
  have hfirst : region.pages.take 1 = [page] := by
    rw [MemoryRegion.pages, pagesFrom_of_ne h0 hz]
    rfl
  rw [hfirst, ← fits_iff_room region] at hroom
  have hspec := mapPage_spec h page (region.mapper.mapFn region.start) region.flags
  -- a page that is mapped would have had room
  cases hrun : (mapPage page (region.mapper.mapFn region.start) region.flags).run s with
  | error e s' =>
    rw [hrun] at hspec
    exact ⟨e, s', rfl, hspec.1⟩
  | ok f s' =>
    rw [hrun] at hspec
    exact absurd hspec.1.fits hroom

/-- **An insertion that keeps the table in step** works alike on both kinds of entries. -/
theorem insert_access (h : m.st.Inv) (hi : Insertable m region) :
    (@MemorySet.insert _ sourcePTE region).run m = (MemorySet.insert region).run m := by
  apply insert_congr
  intro h0 hs hz hfree
  rcases hi with hi | hi | hroom | ⟨hregion, -⟩
  · exact absurd hi h0
  · exact absurd hfree hi
  · obtain ⟨e, s', hrun, -⟩ := mapPage_of_not_room h h0 hz (mt room_access.mp hroom)
    rw [mapLoop_first_error accessPTE h0 hs hrun]
    exact mapLoop_first_error sourcePTE h0 hs (mapPage_access_error hrun)
  · rw [mapLoop_access (Accessible.hasAccess hregion.accessible)]

/-- An insertion of a region that the tables can map keeps the table in step when it succeeds. -/
theorem insertable_of_ok (h : GpmInv m) (hregion : Sv39Region region)
    (hrun : (@MemorySet.insert _ sourcePTE region).run m = .ok () m') : Insertable m region := by
  rw [insert_eq_access (Accessible.hasAccess hregion.accessible)] at hrun
  obtain ⟨hs, hz, ⟨h0, -⟩ | ⟨-, -, st, hloop, -⟩⟩ := MemorySet.insert_ok hrun
  · exact .inl h0
  · have hspec := mapLoop_spec region h.synced.inv (isAligned_iff.mp hs) (isAligned_iff.mp hz)
    rw [hloop] at hspec
    exact .inr (.inr (.inr ⟨hregion, room_access.mp ((fits_iff_room region).mp hspec.1.fits)⟩))

/-- A call that does not put a page keeps the regions, and the leaves. -/
theorem GpmInv.sameLeaves {st : PtState PageTableEntry} (h : GpmInv m)
    (hw : Wrote Pointer m.st st) (hs : SameLeaves m.st st) : GpmInv ⟨m.regions, st⟩ :=
  h.of_wrote hw (h.synced.sameLeaves hs) hs.level h.region

/-- **An insertion** keeps the invariant. -/
theorem GpmInv.insert (h : GpmInv m) (hi : Insertable m region)
    (hrun : (@MemorySet.insert _ sourcePTE region).run m = .ok () m' ∨
      ∃ e, (@MemorySet.insert _ sourcePTE region).run m = .error (.err e) m') : GpmInv m' := by
  have hinv := h.synced.inv
  rw [insert_access hinv hi] at hrun
  have hwrote := MemorySet.wrote_insert writable_pointer region hinv
  rcases hrun with hrun | ⟨e, hrun⟩
  · rw [hrun] at hwrote
    obtain ⟨hs, hz, ⟨-, rfl⟩ | ⟨h0, hfree, st, hloop, rfl⟩⟩ := MemorySet.insert_ok hrun
    · exact h
    have hspec := mapLoop_spec region hinv (isAligned_iff.mp hs) (isAligned_iff.mp hz)
    rw [hloop] at hspec
    -- all pages were mapped, so the region is one that the tables can map
    have hregion : Sv39Region region := by
      rcases hi with hi | hi | hroom | ⟨hregion, -⟩
      · exact absurd hi h0
      · exact absurd hfree hi
      · obtain ⟨e, s', hpage, -⟩ := mapPage_of_not_room hinv h0 (isAligned_iff.mp hz)
          (mt room_access.mp hroom)
        rw [mapLoop_first_error accessPTE h0 (isAligned_iff.mp hs) hpage] at hloop
        cases hloop
      · exact hregion
    refine h.of_wrote hwrote (h.synced.insert hrun) hspec.1.level fun r hr => ?_
    obtain ⟨k, hk⟩ := SortedMap.mem_values.mp hr
    rcases SortedMap.mem_insert.mp hk with ⟨-, rfl⟩ | ⟨-, hk⟩
    · exact hregion
    · exact h.region r (SortedMap.mem_values.mpr ⟨k, hk⟩)
  · rw [hrun] at hwrote
    obtain ⟨hs, hz, h0, rfl | ⟨hfree, st, hloop, rfl⟩⟩ := MemorySet.insert_err hrun
    · exact h
    rcases hi with hi | hi | hroom | ⟨-, hroom⟩
    · exact absurd hi h0
    · exact absurd hfree hi
    · -- the first page is not mapped, and nothing else is tried
      obtain ⟨e', s', hpage, hsame⟩ := mapPage_of_not_room hinv h0 (isAligned_iff.mp hz)
        (mt room_access.mp hroom)
      rw [mapLoop_first_error accessPTE h0 (isAligned_iff.mp hs) hpage] at hloop
      cases hloop
      exact h.sameLeaves hwrote hsame
    · -- there is room for all pages
      have hfits := (fits_iff_room region).mpr (room_access.mpr hroom)
      have hspec := mapLoop_spec region hinv (isAligned_iff.mp hs) (isAligned_iff.mp hz)
      rw [hloop] at hspec
      obtain ⟨l₁, x, l₂, s₁, hl, -, -, hnot⟩ := hspec
      have hl' : region.pages.map (pageLeaf m.st.pt.level region) = l₁ ++ x :: l₂ := hl
      rw [hl', List.append_cons] at hfits
      exact absurd hfits.of_append hnot

/-- **A deletion** keeps the invariant. -/
theorem GpmInv.delete (h : GpmInv m)
    (hrun : (@MemorySet.delete _ sourcePTE start).run m = .ok () m' ∨
      ∃ e, (@MemorySet.delete _ sourcePTE start).run m = .error (.err e) m') : GpmInv m' := by
  rw [← delete_access] at hrun
  have hwrote := MemorySet.wrote_delete writable_pointer start h.synced.inv
  have hsync := h.synced.delete start
  rcases hrun with hrun | ⟨e, hrun⟩
  · rw [hrun] at hwrote hsync
    obtain ⟨region, st, -, hloop, rfl⟩ := MemorySet.delete_ok hrun
    have hpt : (endState ((unmapLoop region.start region.size).run m.st)).pt = m.st.pt :=
      (unmapLoop_inv h.synced.inv).2
    rw [hloop] at hpt
    refine h.of_wrote hwrote hsync (congrArg HvPageTable.level hpt) fun r hr => ?_
    obtain ⟨k, hk⟩ := SortedMap.mem_values.mp hr
    exact h.region r (SortedMap.mem_values.mpr ⟨k, (SortedMap.mem_erase.mp hk).2⟩)
  · rw [hrun] at hsync
    exact hsync ▸ h

/-! ## The translation -/

theorem Sv39Region.mapFn_lt (h : Sv39Region r) (hm : r.Mem gpa) : r.mapper.mapFn gpa < 2 ^ 56 := by
  obtain ⟨off, hoff, hmapper⟩ := h.offset
  have hb := h.paddr_bound
  have hbound := h.bound
  unfold MemoryRegion.Mem at hm
  rw [hmapper] at hb ⊢
  simp only [Mapper.mapFn, wrappingSub, usizeSize] at hoff hb ⊢
  omega

/-- **An address of a recorded region** is translated to the address that the region says. -/
theorem GpmInv.walk_of_mem (h : GpmInv m) (hr : m.Has r) (hm : r.Mem gpa) :
    stage2Walk m.st.mem gpa 2 m.st.pt.root = some (r.mapper.mapFn gpa) := by
  have hregion := h.region r hr
  have hbound := hregion.bound
  have hgpa : gpa < 2 ^ 39 := lt_of_lt_of_le hm.2 hbound
  obtain ⟨p, hp, hmp, hleaf⟩ := h.synced.leaf_of_mem hr hm
  obtain ⟨hal, hlo, hhi, hsize⟩ := (h.synced.wf.tiles hr).mem hp
  have hoffset : MemorySet.HasOffset r := ⟨hregion.offset, hregion.paddr_aligned⟩
  have hdvd := hoffset.dvd_mapFn hregion.start_aligned hal hsize
  obtain ⟨-, hd64, hd12⟩ := MemorySet.bytes_dvd p.size
  have hpaddr : r.mapper.mapFn p.vaddr % 4096 = 0 := Nat.mod_eq_zero_of_dvd (hd12.trans hdvd)
  have hpos := p.size.bytes_pos
  have hlt : r.mapper.mapFn p.vaddr < 2 ^ 56 := hregion.mapFn_lt ⟨hlo, by omega⟩
  have hdown : p.size.alignDown (r.mapper.mapFn p.vaddr) = r.mapper.mapFn p.vaddr := by
    rw [PageSize.alignDown_eq _ (by omega), Nat.mod_eq_zero_of_dvd hdvd, Nat.sub_zero]
  -- the leaf as the hardware reads it
  have hrights := withAccess_of (Accessible.hasAccess hregion.accessible)
  have hentry : (leafEntry (r.mapper.mapFn p.vaddr) r.flags p.size : PageTableEntry) =
      (PageTableEntry.empty.setAddr (r.mapper.mapFn p.vaddr)).setFlags r.flags := by
    show (PageTableEntry.empty.setAddr (p.size.alignDown (r.mapper.mapFn p.vaddr))).setFlags
      (withAccess r.flags) = _
    rw [hdown, hrights]
  have haddr : (leafEntry (r.mapper.mapFn p.vaddr) r.flags p.size : PageTableEntry).addr =
      r.mapper.mapFn p.vaddr := by
    rw [hentry]
    exact addr_setAttr _ hpaddr hlt
  have hkind : (leafEntry (r.mapper.mapFn p.vaddr) r.flags p.size : PageTableEntry).kind =
      .leaf := by
    rw [hentry]
    exact (kind_setFlags _ _).mpr hregion.accessible
  have halign : (leafEntry (r.mapper.mapFn p.vaddr) r.flags p.size : PageTableEntry).addr %
      p.size.bytes = 0 := by
    rw [haddr]
    exact Nat.mod_eq_zero_of_dvd hdvd
  rw [h.level] at hleaf
  rw [stage2Walk_of_leaf h.synced.inv h.level h.entries hgpa hleaf hkind halign, haddr,
    ← hoffset.mapFn_add hd64 (Nat.mod_lt _ hpos) hdvd, MemorySet.vaddr_add_mod hal hmp]

theorem GpmInv.root_lt (h : GpmInv m) : m.st.pt.root < 2 ^ 48 :=
  (h.synced.inv.frame _ List.mem_cons_self).2

/-- No two recorded regions share an address. -/
theorem GpmInv.region_unique (h : GpmInv m) {r' : MemoryRegion} (hr : m.Has r) (hr' : m.Has r')
    (hm : r.Mem gpa) (hm' : r'.Mem gpa) : r = r' := by
  by_contra hne
  exact (h.synced.wf.disjoint r r' hr hr' hne).not_mem hm hm'

/-- **An address outside of the recorded regions** faults. -/
theorem GpmInv.walk_of_not_mem (h : GpmInv m) (hgpa : gpa < 2 ^ 41)
    (hn : ∀ r, m.Has r → ¬ r.Mem gpa) : stage2Walk m.st.mem gpa 2 m.st.pt.root = none := by
  by_cases hlow : gpa < 2 ^ 39
  · refine stage2Walk_of_no_leaf h.synced.inv h.level h.entries hlow fun ps a => ?_
    have hno : tree m.st (pagePath m.st.pt.level ps gpa) ≠ .leaf a := h.synced.no_leaf (by
      rw [h.level]
      exact fun r hr => (h.region r hr).bound) (by rwa [h.level]) hn ps a
    rwa [h.level] at hno
  · -- the root index is one of an upper page
    have hk : 0 < gpa / 2 ^ 39 ∧ gpa / 2 ^ 39 < 4 := by omega
    have hentry : m.st.pt.root + 8 * walkIndex 2 gpa =
        entryPtr (m.st.pt.root + gpa / 2 ^ 39 * pageSize) (p3Index gpa) := by
      rw [entryPtr, walkIndex, BitMask.field, p3Index, tableIndex_val, pageSize]
      omega
    have hfault := kind_of_not_valid (h.upper _ hk.1 hk.2 (p3Index gpa))
    rw [stage2Walk_eq, hentry, hfault]

end Invariant

/-! ## Refinement -/

section Refinement

variable {contiguous : List Nat → Option Nat} {m : MemorySet PageTableEntry}

/-- **The invariant holds after every history.** -/
theorem GpmHistory.inv (hc : Contiguous contiguous) (h : GpmHistory contiguous
    (fun mem free => ∃ root, RootReady contiguous mem free root) Insertable m) : GpmInv m := by
  induction h with
  | new hframe hnodup hready h =>
    obtain ⟨root, hready⟩ := hready
    exact .new hc hframe hnodup hready h
  | others _ ho ih => exact ih.others ho
  | insert _ hi hrun ih => exact ih.insert hi hrun
  | delete _ hrun ih => exact ih.delete hrun

/-- **The hardware translates as the recorded regions do**, after every history that starts from a
root table that is ready and whose insertions keep the table in step. -/
theorem sv39x4_refines_regions (hc : Contiguous contiguous) (h : GpmHistory contiguous
    (fun mem free => ∃ root, RootReady contiguous mem free root) Insertable m) :
    ∃ hgatp, activate m.st.pt.root = some hgatp ∧ ∀ gpa < 2 ^ 41, ∀ paddr,
      sv39x4 m.st.mem hgatp gpa = some paddr ↔
        ∃ r, m.Has r ∧ r.Mem gpa ∧ r.mapper.mapFn gpa = paddr := by
  have hinv := h.inv hc
  obtain ⟨hgatp, hactivate, hroot⟩ := hgatpRoot_activate hinv.aligned hinv.root_lt
  refine ⟨hgatp, hactivate, fun gpa hgpa paddr => ?_⟩
  rw [sv39x4, if_pos hgpa, hroot]
  -- an address in a region is translated as the region says, and any other faults
  by_cases hmem : ∃ r, m.Has r ∧ r.Mem gpa
  · obtain ⟨r, hr, hm⟩ := hmem
    rw [hinv.walk_of_mem hr hm, Option.some.injEq]
    constructor
    · exact fun he => ⟨r, hr, hm, he⟩
    · rintro ⟨r', hr', hm', he⟩
      rwa [hinv.region_unique hr hr' hm hm']
  · rw [hinv.walk_of_not_mem hgpa fun r hr hm => hmem ⟨r, hr, hm⟩]
    constructor
    · rintro ⟨⟩
    · rintro ⟨r, hr, hm, -⟩
      exact absurd ⟨r, hr, hm⟩ hmem

/-! ### Failing insertions -/

/-- The calls keep the tables well formed, also where an insertion fails on its way. -/
theorem GpmHistory.tables (hc : Contiguous contiguous) (h : GpmHistory contiguous
    (fun mem free => ∃ root, RootReady contiguous mem free root)
    (fun _ region => HasAccess region.flags = true) m) :
    @PtState.Inv _ accessPTE m.st := by
  let _ := accessPTE
  have _ := accessPTE_lawful
  induction h with
  | new hframe hnodup hready h =>
    obtain ⟨root, hready⟩ := hready
    exact (GpmInv.new hc hframe hnodup hready h).synced.inv
  | others _ ho ih => exact ho.toOthers.inv ih
  | @insert m m' region _ haccess hrun ih =>
    have hinsert := MemorySet.insert_inv region ih
    rw [insert_eq_access haccess] at hrun
    rcases hrun with hrun | ⟨e, hrun⟩
    · simpa [hrun] using hinsert
    · simpa [hrun] using hinsert
  | @delete m m' start _ hrun ih =>
    have hdelete := MemorySet.delete_inv start ih
    rw [← delete_access] at hrun
    rcases hrun with hrun | ⟨e, hrun⟩
    · simpa [hrun] using hdelete
    · simpa [hrun] using hdelete

/-- **When a failing insertion changes nothing**, on the tables of RISC-V: exactly where the call
does not reach the table, or its first page cannot be mapped, or all of its pages can. -/
theorem sv39_insert_atomic_iff (hc : Contiguous contiguous) (h : GpmHistory contiguous
    (fun mem free => ∃ root, RootReady contiguous mem free root)
    (fun _ region => HasAccess region.flags = true) m) {region : MemoryRegion}
    (haccess : HasAccess region.flags = true) (hs : isAligned region.start = true)
    (hz : isAligned region.size = true) :
    m.InsertAtomic region ↔ region.size = 0 ∨ m.testFreeArea region ≠ some true ∨
      ¬ m.st.Room (region.pages.take 1) ∨ m.st.Room region.pages := by
  -- the answers of the table do not depend on the flags that are written
  have hatomic : m.InsertAtomic region ↔ @MemorySet.InsertAtomic _ accessPTE m region := by
    unfold MemorySet.InsertAtomic
    rw [insert_eq_access haccess]
    exact Iff.rfl
  have hiff : @MemorySet.InsertAtomic _ accessPTE m region ↔
      region.size = 0 ∨ m.testFreeArea region ≠ some true ∨
        ¬ @PtState.Room _ accessPTE m.st (region.pages.take 1) ∨
        @PtState.Room _ accessPTE m.st region.pages := by
    let _ := accessPTE
    have _ := accessPTE_lawful
    exact MemorySet.insertAtomic_iff (h.tables hc) hs hz
  rw [hatomic, hiff, room_access, room_access]

end Refinement

/-! ### A gigabyte of memory, and a stale entry -/

/-- The first four frames in a row that are free. -/
def firstFit (free : List Nat) : Option Nat :=
  free.find? fun f => (rootPages f).all fun p => decide (p ∈ free)

theorem contiguous_firstFit : Contiguous firstFit := by
  intro free root h f hf
  have hall := List.find?_some h
  simpa using List.all_eq_true.mp hall f hf

/-- Frames of which the first is aligned. -/
def rootFrames : List Nat := [0x4000, 0x5000, 0x6000, 0x7000, 0x8000, 0x9000]

/-- A zone over memory that holds the given words. -/
def startGpm (mem : Nat → PageTableEntry) : MemorySet PageTableEntry :=
  ⟨.empty, ⟨⟨0x4000, 3, []⟩, zeroFrame mem 0x4000, [0x8000, 0x9000]⟩⟩

theorem newGpm_rootFrames (mem : Nat → PageTableEntry) :
    newGpm firstFit mem rootFrames = some (startGpm mem) := rfl

/-- Memory of zeros is ready. -/
theorem rootReady_zero : RootReady firstFit (fun _ => zero) rootFrames 0x4000 :=
  ⟨by decide, by decide, .inl (by decide), fun _ _ _ _ => by decide⟩

theorem sv39Region_ram : Sv39Region ramRegion :=
  ⟨⟨0, by decide, rfl⟩, by decide, by decide, by decide, by decide, by decide, by decide⟩

/-- A zone with a gigabyte of memory. -/
def ramGpm : MemorySet PageTableEntry :=
  endState ((MemorySet.insert ramRegion).run (startGpm fun _ => zero))

theorem gpmHistory_ram : GpmHistory firstFit
    (fun mem free => ∃ root, RootReady firstFit mem free root) Insertable ramGpm := by
  have hnew : GpmHistory firstFit (fun mem free => ∃ root, RootReady firstFit mem free root)
      Insertable (startGpm fun _ => zero) :=
    .new (frameAddr_of_lt (by decide)) (by decide) ⟨_, rootReady_zero⟩ (newGpm_rootFrames _)
  have hrun := eq_ok_of_isOk ((MemorySet.insert ramRegion).run (startGpm fun _ => zero))
    (by decide +kernel)
  exact .insert hnew (insertable_of_ok (hnew.inv contiguous_firstFit) sv39Region_ram hrun)
    (.inl hrun)

theorem ramGpm_has : ramGpm.Has ramRegion := by
  unfold MemorySet.Has
  decide +kernel

/-- The hardware translates the memory. -/
theorem sv39x4_refines_regions_ram : ∃ hgatp, activate ramGpm.st.pt.root = some hgatp ∧
    sv39x4 ramGpm.st.mem hgatp 0x40001234 = some 0x40001234 := by
  obtain ⟨hgatp, hactivate, hwalk⟩ := sv39x4_refines_regions contiguous_firstFit gpmHistory_ram
  refine ⟨hgatp, hactivate, (hwalk 0x40001234 (by decide) 0x40001234).mpr ?_⟩
  exact ⟨ramRegion, ramGpm_has, by decide, by decide⟩

/-- Memory with an entry that was left behind in the second page of the root table. -/
def staleMem : Nat → PageTableEntry := fun a => if a = 0x5000 then ⟨0x1f⟩ else zero

/-- With a stale entry in the root table, an address of no region is translated. -/
theorem not_sv39x4_refines_regions : ¬ ∀ (contiguous : List Nat → Option Nat)
    (m : MemorySet PageTableEntry), Contiguous contiguous →
      GpmHistory contiguous (fun _ _ => True) (fun _ _ => True) m →
      ∃ hgatp, activate m.st.pt.root = some hgatp ∧ ∀ gpa < 2 ^ 41, ∀ paddr,
        sv39x4 m.st.mem hgatp gpa = some paddr ↔
          ∃ r, m.Has r ∧ r.Mem gpa ∧ r.mapper.mapFn gpa = paddr := by
  intro h
  obtain ⟨hgatp, hactivate, hwalk⟩ := h firstFit (startGpm staleMem) contiguous_firstFit
    (.new (frameAddr_of_lt (by decide)) (by decide) trivial (newGpm_rootFrames staleMem))
  obtain rfl : hgatp = 0x8000000000000004 := by
    have hword : activate (startGpm staleMem).st.pt.root = some 0x8000000000000004 := by decide
    exact Option.some.inj (hactivate.symm.trans hword)
  -- the second page of the root still holds what was in memory before
  have hstale : sv39x4 (startGpm staleMem).st.mem 0x8000000000000004 (2 ^ 39) = some 0 := by
    decide +kernel
  obtain ⟨r, hr, -⟩ := (hwalk (2 ^ 39) (by decide) 0).mp hstale
  obtain ⟨k, hk⟩ := SortedMap.mem_values.mp hr
  exact SortedMap.not_mem_empty hk

end Riscv

end Hvisor
