import Hvisor.Memory.Stage2Space

/-!
# What insertions keep

Insertions add leaves to a page table and take none away, also when they fail on the way. So a
region that was mapped once is answered for as long as nothing is deleted, and an answer that is new
comes from the region of an insertion. Physical addresses are those of an entry, modulo `2 ^ 48`.

## Main definitions

* `MemorySet.Maps`: the leaves of a region are in the table
* `MemorySet.Grows`: no leaf is gone
* `MemorySet.Grown`: insertions in a row, successful or not

## Main results

* `Grows.of_insert`: an insertion only adds leaves
* `Maps.query`: the answer for an address of a region that is mapped
* `query_of_insert`: where an answer comes from after an insertion
-/

namespace Hvisor

open GenericPTE RadixTree

/-! ## Addresses of entries -/

namespace PageTableEntry

/-- An entry keeps the bits of an address below 48. -/
theorem addr_leaf_mod (p : Nat) (fl : MemFlags) (huge : Bool) (hp : p % 4096 = 0) :
    GenericPTE.addr ((setAddr empty p).setFlags fl huge) = p % 2 ^ 48 := by
  have hset : (setAddr empty p).setFlags fl huge =
      (setAddr empty (p % 2 ^ 48)).setFlags fl huge := by
    have hbits : BitVec.ofNat 64 p &&& PHYS_ADDR_MASK =
        BitVec.ofNat 64 (p % 2 ^ 48) &&& PHYS_ADDR_MASK := by
      apply BitVec.eq_of_getLsbD_eq
      intro i hi
      rw [BitVec.getLsbD_and, BitVec.getLsbD_and, BitVec.getLsbD_ofNat, BitVec.getLsbD_ofNat,
        Nat.testBit_mod_two_pow]
      -- the mask of the address has no bit from 48 on
      by_cases h48 : i < 48
      · rw [decide_eq_true h48, Bool.true_and]
      · have hmask : PHYS_ADDR_MASK.getLsbD i = false :=
          Nat.testBit_lt_two_pow (lt_of_lt_of_le (by decide) (Nat.pow_le_pow_right (by decide)
            (not_lt.mp h48)))
        rw [hmask, Bool.and_false, Bool.and_false]
    rw [setAddr, setAddr, hbits]
  rw [hset]
  exact addr_merge empty (leafAttr fl huge) (by omega) (Nat.mod_lt _ (by decide))

end PageTableEntry

/-- A multiple of a number that divides the modulus, and less than that number more. -/
theorem add_mod_of_dvd {b n x d : Nat} (hb : b ∣ x) (hn : b ∣ n) (hd : d < b) (hpos : 0 < n) :
    (x + d) % n = x % n + d := by
  obtain ⟨k, rfl⟩ := hn
  obtain ⟨y, rfl⟩ := hb
  have hk : 0 < k := Nat.pos_of_mul_pos_left hpos
  have hy := Nat.mod_lt y hk
  rw [Nat.mul_mod_mul_left, Nat.add_mod, Nat.mul_mod_mul_left]
  have hle : b * (y % k) + b ≤ b * k := by
    rw [← Nat.mul_succ]
    exact Nat.mul_le_mul_left b hy
  rw [Nat.mod_eq_of_lt (b := b * k) (by omega : d < b * k), Nat.mod_eq_of_lt (by omega)]

namespace MemorySet

/-! ## Leaves -/

section Leaves

variable {PTE : Type} [GenericPTE PTE] {m m' m'' : MemorySet PTE} {region r : MemoryRegion}

/-- **A region is mapped**: its pages lie in the address space, and their leaves are in the
table. -/
structure Maps (m : MemorySet PTE) (r : MemoryRegion) : Prop where
  start_aligned : r.start % 4096 = 0
  size_aligned : r.size % 4096 = 0
  bound : r.size ≠ 0 → r.start + r.size < usizeSize
  leaf : ∀ x ∈ m.leavesOf r, tree m.st x.1 = .leaf x.2

theorem Maps.tiles (h : m.Maps r) (hne : r.size ≠ 0) :
    Tiles r r.start (r.start + r.size) r.pages :=
  tiles_pagesFrom h.start_aligned h.size_aligned (h.bound hne)

/-- No leaf is gone. -/
structure Grows (m m' : MemorySet PTE) : Prop where
  inv : m'.st.Inv
  level : m'.st.pt.level = m.st.pt.level
  leaf : ∀ q a, tree m.st q = .leaf a → tree m'.st q = .leaf a

theorem Grows.refl (h : m.st.Inv) : m.Grows m := ⟨h, rfl, fun _ _ hl => hl⟩

theorem Grows.trans (h : m.Grows m') (h' : m'.Grows m'') : m.Grows m'' :=
  ⟨h'.inv, h'.level.trans h.level, fun q a hl => h'.leaf q a (h.leaf q a hl)⟩

theorem Maps.grows (h : m.Maps r) (hg : m.Grows m') : m'.Maps r := by
  refine ⟨h.start_aligned, h.size_aligned, h.bound, fun x hx => hg.leaf _ _ (h.leaf x ?_)⟩
  rwa [leavesOf, hg.level] at hx

theorem Grows.of_others (h : m.st.Inv) (ho : Others m m') : m.Grows m' :=
  ⟨ho.inv h, congrArg HvPageTable.level ho.pt, fun q a hl => by rwa [ho.tree_eq h]⟩

variable [LawfulGenericPTE PTE]

omit [LawfulGenericPTE PTE] in
/-- The leaves after some were put. -/
theorem Grows.of_put {st : PtState PTE} {l : List (Path × PTE)} (hput : Put m.st st l)
    (hst : m'.st = st) : m.Grows m' := by
  subst hst
  exact ⟨hput.inv, hput.level, fun q a hl => (hput.leaf_iff q a).mpr (.inr hl)⟩

/-- What a call of `insert` puts into the table: leaves of the region. -/
theorem insert_leaves (h : m.st.Inv)
    (hrun : (insert region).run m = .ok () m' ∨ ∃ e, (insert region).run m = .error (.err e) m') :
    m.Grows m' ∧
      ∀ q a, tree m'.st q = .leaf a → tree m.st q = .leaf a ∨ (q, a) ∈ m.leavesOf region := by
  have hself : m.Grows m ∧
      ∀ q a, tree m.st q = .leaf a → tree m.st q = .leaf a ∨ (q, a) ∈ m.leavesOf region :=
    ⟨.refl h, fun _ _ => .inl⟩
  rcases hrun with hrun | ⟨e, hrun⟩
  · obtain ⟨hs, hz, ⟨-, rfl⟩ | ⟨-, -, st, hloop, rfl⟩⟩ := insert_ok hrun
    · exact hself
    have hspec := mapLoop_spec region h (isAligned_iff.mp hs) (isAligned_iff.mp hz)
    rw [hloop] at hspec
    have hput : Put m.st st (m.leavesOf region) := hspec.1
    exact ⟨.of_put hput rfl, fun q a hl => ((hput.leaf_iff q a).mp hl).symm⟩
  · obtain ⟨hs, hz, -, rfl | ⟨-, st, hloop, rfl⟩⟩ := insert_err hrun
    · exact hself
    have hspec := mapLoop_spec region h (isAligned_iff.mp hs) (isAligned_iff.mp hz)
    rw [hloop] at hspec
    -- the leaves before the page that does not fit
    obtain ⟨l₁, x, l₂, st₁, hl, hput, hsame, -⟩ := hspec
    refine ⟨⟨hsame.inv, hsame.level.trans hput.level, fun q a hq => ?_⟩, fun q a hq => ?_⟩
    · exact (hsame.leaves q a).mpr ((hput.leaf_iff q a).mpr (.inr hq))
    · rcases (hput.leaf_iff q a).mp ((hsame.leaves q a).mp hq) with hq | hq
      · refine .inr ?_
        show (q, a) ∈ leavesFrom m.st.pt.level region region.start region.size
        rw [hl]
        exact List.mem_append_left _ hq
      · exact .inl hq

/-- **A region that was inserted is mapped.** -/
theorem Maps.of_insert (h : m.st.Inv) (hrun : (insert region).run m = .ok () m') :
    m'.Maps region := by
  obtain ⟨hs, hz, ⟨h0, rfl⟩ | ⟨h0, -, st, hloop, rfl⟩⟩ := insert_ok hrun
  · refine ⟨isAligned_iff.mp hs, isAligned_iff.mp hz, fun hne => absurd h0 hne, fun x hx => ?_⟩
    rw [leavesOf, MemoryRegion.leaves, leavesFrom, h0, pagesFrom_zero] at hx
    cases hx
  · have hspec := mapLoop_spec region h (isAligned_iff.mp hs) (isAligned_iff.mp hz)
    rw [hloop] at hspec
    have hput : Put m.st st (m.leavesOf region) := hspec.1
    refine ⟨isAligned_iff.mp hs, isAligned_iff.mp hz, fun _ => hspec.2.resolve_left h0,
      fun x hx => ?_⟩
    rw [leavesOf, hput.level] at hx
    exact (hput.leaf_iff x.1 x.2).mpr (.inl hx)

/-- **An insertion only adds leaves**, also when it fails. -/
theorem Grows.of_insert (h : m.st.Inv)
    (hrun : (insert region).run m = .ok () m' ∨ ∃ e, (insert region).run m = .error (.err e) m') :
    m.Grows m' := (insert_leaves h hrun).1

/-- Insertions, successful or not, and writes of others outside of the tables. -/
inductive Grown (m : MemorySet PTE) : MemorySet PTE → Prop
  | refl : Grown m m
  | others {m' m'' : MemorySet PTE} (h : Grown m m') (ho : Others m' m'') : Grown m m''
  | insert {m' m'' : MemorySet PTE} {region : MemoryRegion} (h : Grown m m')
      (hrun : (MemorySet.insert region).run m' = .ok () m'' ∨
        ∃ e, (MemorySet.insert region).run m' = .error (.err e) m'') : Grown m m''

theorem Grown.grows (h : m.Grown m') (hinv : m.st.Inv) : m.Grows m' := by
  induction h with
  | refl => exact .refl hinv
  | others _ ho ih => exact ih.trans (.of_others ih.inv ho)
  | insert _ hrun ih => exact ih.trans (.of_insert ih.inv hrun)

end Leaves

/-! ## Answers -/

section Answers

variable {m m' : MemorySet PageTableEntry} {region r : MemoryRegion} {va : Nat}

/-- The target of an address: its physical address, and its access flags. -/
def target (r : MemoryRegion) (va : Nat) : Nat × MemFlags :=
  (r.mapper.mapFn va % 2 ^ 48, r.flags &&& (MemFlags.READ ||| MemFlags.WRITE ||| MemFlags.Io))

/-- **A region with an offset**, which keeps pages aligned. -/
structure HasOffset (r : MemoryRegion) : Prop where
  offset : ∃ off < usizeSize, r.mapper = .offset off
  paddr_aligned : r.mapper.mapFn r.start % 4096 = 0

/-- An offset keeps distances within a page. -/
theorem HasOffset.mapFn_add (h : HasOffset r) {vaddr d b : Nat} (hb : b ∣ usizeSize) (hd : d < b)
    (hmap : b ∣ r.mapper.mapFn vaddr) : r.mapper.mapFn (vaddr + d) = r.mapper.mapFn vaddr + d := by
  obtain ⟨off, hoff, hmapper⟩ := h.offset
  rw [hmapper] at hmap ⊢
  simp only [Mapper.mapFn, wrappingSub] at hmap ⊢
  have hdvd : b ∣ vaddr + usizeSize - off := (Nat.dvd_mod_iff hb).mp hmap
  rw [← add_mod_of_dvd hdvd hb hd (by decide)]
  congr 1
  omega

/-- The target of a page that `map` picks is aligned to the page's size. -/
theorem HasOffset.dvd_mapFn (hr : HasOffset r) (hstart : r.start % 4096 = 0) {p : Page}
    (hp : p.vaddr % p.size.bytes = 0)
    (hsize : ∃ size, p.size = choosePageSize p.vaddr (r.mapper.mapFn p.vaddr) size r.flags) :
    p.size.bytes ∣ r.mapper.mapFn p.vaddr := by
  have hd12 : 4096 ∣ p.size.bytes := Nat.dvd_of_mod_eq_zero (bytes_mod p.size)
  have hpage : p.vaddr % 4096 = 0 :=
    Nat.mod_eq_zero_of_dvd (hd12.trans (Nat.dvd_of_mod_eq_zero hp))
  obtain ⟨off, hoff, hmapper⟩ := hr.offset
  have hpaddr : r.mapper.mapFn p.vaddr % 4096 = 0 := by
    have hal := hr.paddr_aligned
    rw [hmapper] at hal ⊢
    simp only [Mapper.mapFn, wrappingSub, usizeSize] at hal hoff ⊢
    omega
  -- a large page is picked only where the physical address is aligned to it too
  obtain ⟨size, hsize⟩ := hsize
  apply Nat.dvd_of_mod_eq_zero
  rw [hsize]
  exact choosePageSize_paddr r.flags p.vaddr size hpaddr

/-- An address of a page, put together from the start of the page. -/
theorem vaddr_add_mod {p : Page} (hp : p.vaddr % p.size.bytes = 0) (hm : p.Mem va) :
    p.vaddr + va % p.size.bytes = va := by
  have hdiv := (Page.mem_iff hp).mp hm
  have hva := Nat.div_add_mod va p.size.bytes
  have hpv := Nat.div_add_mod p.vaddr p.size.bytes
  rw [hdiv] at hva
  omega

theorem bytes_dvd (ps : PageSize) : ps.bytes ∣ 2 ^ 48 ∧ ps.bytes ∣ usizeSize ∧ 4096 ∣ ps.bytes := by
  cases ps <;> decide

/-- The answer from the leaf of a page. -/
theorem query_of_page (h : m.st.Inv) (hr : HasOffset r) (hstart : r.start % 4096 = 0) {p : Page}
    (hp : p.vaddr % p.size.bytes = 0)
    (hsize : ∃ size, p.size = choosePageSize p.vaddr (r.mapper.mapFn p.vaddr) size r.flags)
    (hleaf : tree m.st (pagePath m.st.pt.level p.size va) =
      .leaf (leafEntry (r.mapper.mapFn p.vaddr) r.flags p.size)) :
    m.pageTableQuery va = .ok ((target r (p.vaddr + va % p.size.bytes)).1,
      (target r (p.vaddr + va % p.size.bytes)).2, p.size) := by
  obtain ⟨hd48, hd64, hd12⟩ := bytes_dvd p.size
  have hpos := p.size.bytes_pos
  have hlt := Nat.mod_lt va hpos
  have hpmod := hr.dvd_mapFn hstart hp hsize
  have hpaddr : r.mapper.mapFn p.vaddr % 4096 = 0 :=
    Nat.mod_eq_zero_of_dvd (hd12.trans hpmod)
  obtain ⟨off, hoff, hmapper⟩ := hr.offset
  have hbound : r.mapper.mapFn p.vaddr < 2 ^ 64 := by
    rw [hmapper]
    exact Nat.mod_lt _ (by decide)
  -- the address in the entry is the page's own, cut to 48 bits, and the offset is added back
  have hdown : p.size.alignDown (r.mapper.mapFn p.vaddr) = r.mapper.mapFn p.vaddr := by
    rw [PageSize.alignDown_eq _ hbound, Nat.mod_eq_zero_of_dvd hpmod, Nat.sub_zero]
  have haddr : addr (leafEntry (r.mapper.mapFn p.vaddr) r.flags p.size : PageTableEntry) =
      r.mapper.mapFn p.vaddr % 2 ^ 48 := by
    rw [leafEntry, hdown]
    exact PageTableEntry.addr_leaf_mod _ _ _ hpaddr
  have hflags : flags (leafEntry (r.mapper.mapFn p.vaddr) r.flags p.size : PageTableEntry) =
      some (r.flags &&& (MemFlags.READ ||| MemFlags.WRITE ||| MemFlags.Io)) :=
    PageTableEntry.flags_leaf _ _ _
  rw [pageTableQuery, query_leaf h hleaf, haddr, hflags, target, hr.mapFn_add hd64 hlt hpmod,
    add_mod_of_dvd hpmod hd48 hlt (by decide)]

/-- **The answer for an address of a region that is mapped.** -/
theorem Maps.query (h : m.Maps r) (hinv : m.st.Inv) (hr : HasOffset r) (hva : r.Mem va) :
    ∃ ps, m.pageTableQuery va = .ok ((target r va).1, (target r va).2, ps) := by
  have hne : r.size ≠ 0 := fun h0 => by
    have := hva.1.trans_lt hva.2
    omega
  have htiles := h.tiles hne
  obtain ⟨p, hp, hmem⟩ := htiles.exists_page hva.1 hva.2
  obtain ⟨hal, -, -, hsize⟩ := htiles.mem hp
  have hdiv := (Page.mem_iff hal).mp hmem
  have hleaf := h.leaf _ (List.mem_map_of_mem hp)
  rw [show (pageLeaf m.st.pt.level r p : Path × PageTableEntry).1 =
    pagePath m.st.pt.level p.size va from (pagePath_congr hdiv).symm] at hleaf
  have hquery := query_of_page hinv hr h.start_aligned hal hsize hleaf
  rw [vaddr_add_mod hal hmem] at hquery
  exact ⟨p.size, hquery⟩

/-- An address that is answered has a leaf around it. -/
theorem exists_leaf_of_query (h : m.st.Inv) {x : Nat × MemFlags × PageSize}
    (hq : m.pageTableQuery va = .ok x) :
    ∃ ps a, tree m.st (pagePath m.st.pt.level ps va) = .leaf a := by
  by_contra hno
  push Not at hno
  have hnone := query_notMapped h hno
  rw [pageTableQuery, hnone] at hq
  cases hq

/-- **Where an answer comes from after an insertion**: it was there before, or it is that of an
address of the region. -/
theorem query_of_insert (h : m.st.Inv) (hr : region.size ≠ 0 → HasOffset region)
    (hrun : (insert region).run m = .ok () m') {x : Nat × MemFlags × PageSize}
    (hq : m'.pageTableQuery va = .ok x) :
    m.pageTableQuery va = .ok x ∨
      ∃ va', region.Mem va' ∧ x.1 = (target region va').1 ∧ x.2.1 = (target region va').2 := by
  obtain ⟨hg, hleaves⟩ := insert_leaves h (.inl hrun)
  obtain ⟨ps, a, hleaf⟩ := exists_leaf_of_query hg.inv hq
  rcases hleaves _ _ hleaf with hold | hnew
  · left
    rw [pageTableQuery, query_leaf hg.inv hleaf] at hq
    rw [hg.level] at hold
    rw [pageTableQuery, query_leaf h hold, hq]
  · right
    have hmaps := Maps.of_insert h hrun
    have hne : region.size ≠ 0 := fun h0 => by
      rw [leavesOf, MemoryRegion.leaves, leavesFrom, h0, pagesFrom_zero] at hnew
      cases hnew
    have htiles := hmaps.tiles hne
    obtain ⟨p, hp, heq⟩ := List.mem_map.mp hnew
    obtain ⟨hpath, rfl⟩ := Prod.mk.inj heq
    obtain ⟨hal, hlo, hhi, hsize⟩ := htiles.mem hp
    -- the page has the size of the leaf that was found
    rw [hg.level] at hpath
    obtain rfl : p.size = ps := pagePath_inj h.level hpath
    have hquery := query_of_page hg.inv (hr hne) hmaps.start_aligned hal hsize hleaf
    rw [hquery] at hq
    have hlt := Nat.mod_lt va p.size.bytes_pos
    refine ⟨p.vaddr + va % p.size.bytes, ⟨by omega, by omega⟩, ?_, ?_⟩
    · rw [← Except.ok.inj hq]
    · rw [← Except.ok.inj hq]

end Answers

end MemorySet

end Hvisor
