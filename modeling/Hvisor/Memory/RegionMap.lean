import Hvisor.Memory.Cleared
import Mathlib.Data.List.Nodup

/-!
# Regions as lists of pages

The loop of `map` takes the pages of a region greedily, and the loop of `unmap` finds their sizes
again by the walk. A region's pages tile it, and mapping the region puts the leaves of its pages
in order until one does not fit.

## Main definitions

* `pagesFrom`, `pages`: the pages that `map` takes
* `pageLeaf`, `leavesFrom`: the leaf of a page, and the leaves of the pages
* `PtState.Room`: pages that can all be mapped

## Main results

* `tiles_pagesFrom`, `Tiles.exists_page`: the pages are aligned, within the region, and cover it
* `Tiles.apart`: the paths of the pages do not meet
* `mapLoop_spec`: mapping puts the leaves of the pages that fit
* `unmapLoop_cleared`, `unmapLoop_spec`: unmapping removes the leaves of the pages
-/

namespace Hvisor

open GenericPTE RadixTree

/-- The address lies in the page. -/
def Page.Mem (p : Page) (va : Nat) : Prop := p.vaddr ≤ va ∧ va < p.vaddr + p.size.bytes

/-- The pages that the loop of `map` takes from `vaddr` on, with `size` bytes left. -/
def pagesFrom (region : MemoryRegion) (vaddr size : Nat) : List Page :=
  if size = 0 then []
  else
    let pageSize := choosePageSize vaddr (region.mapper.mapFn vaddr) size region.flags
    ⟨vaddr, pageSize⟩ ::
      match checkedAdd vaddr pageSize.bytes with
      | none => []
      | some next =>
        if pageSize.bytes ≤ size then pagesFrom region next (size - pageSize.bytes) else []
termination_by size
decreasing_by exact Nat.sub_lt (by omega) (PageSize.bytes_pos _)

/-- The pages of a region. -/
def MemoryRegion.pages (region : MemoryRegion) : List Page :=
  pagesFrom region region.start region.size

/-! ## The choice of a page size -/

section Choice

variable {vaddr paddr size : Nat} (fl : MemFlags)

theorem choosePageSize_le (vaddr paddr : Nat) (hs : size % 4096 = 0) (h0 : size ≠ 0) :
    (choosePageSize vaddr paddr size fl).bytes ≤ size := by
  unfold choosePageSize
  split_ifs with h₁ h₂
  · simp only [Bool.and_eq_true, decide_eq_true_eq] at h₁
    exact h₁.1.2
  · simp only [Bool.and_eq_true, decide_eq_true_eq] at h₂
    exact h₂.1.2
  · simp only [PageSize.bytes]
    omega

theorem choosePageSize_isAligned (paddr size : Nat) (hv : vaddr % 4096 = 0) :
    (choosePageSize vaddr paddr size fl).isAligned vaddr = true := by
  unfold choosePageSize
  split_ifs with h₁ h₂
  · simp only [Bool.and_eq_true] at h₁
    exact h₁.1.1.1
  · simp only [Bool.and_eq_true] at h₂
    exact h₂.1.1.1
  · simpa [PageSize.bytes] using hv

theorem choosePageSize_paddr (vaddr size : Nat) (hp : paddr % 4096 = 0) :
    paddr % (choosePageSize vaddr paddr size fl).bytes = 0 := by
  unfold choosePageSize
  split_ifs with h₁ h₂
  · simp only [Bool.and_eq_true, PageSize.isAligned_iff] at h₁
    exact h₁.1.1.2
  · simp only [Bool.and_eq_true, PageSize.isAligned_iff] at h₂
    exact h₂.1.1.2
  · exact hp

theorem bytes_mod (ps : PageSize) : ps.bytes % 4096 = 0 := by cases ps <;> simp [PageSize.bytes]

end Choice

/-! ## The tiling of a region -/

variable {region : MemoryRegion} {vaddr size : Nat} {p p' : Page}

theorem pagesFrom_zero : pagesFrom region vaddr 0 = [] := by
  rw [pagesFrom]
  simp

theorem pagesFrom_of_ne (h0 : size ≠ 0) (hs : size % 4096 = 0) :
    let ps := choosePageSize vaddr (region.mapper.mapFn vaddr) size region.flags
    pagesFrom region vaddr size = ⟨vaddr, ps⟩ ::
      match checkedAdd vaddr ps.bytes with
      | none => []
      | some next => pagesFrom region next (size - ps.bytes) := by
  intro ps
  have hle : ps.bytes ≤ size := choosePageSize_le _ _ _ hs h0
  rw [pagesFrom, if_neg h0]
  simp only [ps] at hle ⊢
  simp only [hle, if_true]

theorem pagesFrom_of_lt (h0 : size ≠ 0) (hs : size % 4096 = 0) (hend : vaddr + size < usizeSize) :
    let ps := choosePageSize vaddr (region.mapper.mapFn vaddr) size region.flags
    pagesFrom region vaddr size =
      ⟨vaddr, ps⟩ :: pagesFrom region (vaddr + ps.bytes) (size - ps.bytes) := by
  intro ps
  have hle : ps.bytes ≤ size := choosePageSize_le _ _ _ hs h0
  have hadd : checkedAdd vaddr ps.bytes = some (vaddr + ps.bytes) :=
    checkedAdd_eq_some.mpr ⟨by omega, rfl⟩
  simp only [pagesFrom_of_ne h0 hs, ps] at hadd ⊢
  rw [hadd]

/-- The pages lie one after the other from `a` to `b`, each with the size that `map` chooses. -/
inductive Tiles (region : MemoryRegion) : Nat → Nat → List Page → Prop
  | nil (a : Nat) : Tiles region a a []
  | cons {a b : Nat} {l : List Page} {ps : PageSize} {size : Nat}
      (hps : ps = choosePageSize a (region.mapper.mapFn a) size region.flags)
      (hal : a % ps.bytes = 0) (hl : Tiles region (a + ps.bytes) b l) :
      Tiles region a b (⟨a, ps⟩ :: l)

/-- **The pages of a region tile it**, when it does not reach the end of the address space. -/
theorem tiles_pagesFrom (hv : vaddr % 4096 = 0) (hs : size % 4096 = 0)
    (hend : vaddr + size < usizeSize) :
    Tiles region vaddr (vaddr + size) (pagesFrom region vaddr size) := by
  -- on the size that is left: the first page, and a tiling of the rest
  induction size using Nat.strong_induction_on generalizing vaddr with
  | _ size ih =>
    by_cases h0 : size = 0
    · rw [h0, pagesFrom_zero]
      exact .nil vaddr
    · rw [pagesFrom_of_lt h0 hs hend]
      set ps := choosePageSize vaddr (region.mapper.mapFn vaddr) size region.flags with hps
      have hle : ps.bytes ≤ size := choosePageSize_le _ _ _ hs h0
      have hpos := ps.bytes_pos
      have hmod := bytes_mod ps
      have hal : vaddr % ps.bytes = 0 := by
        simpa using choosePageSize_isAligned region.flags (region.mapper.mapFn vaddr) size hv
      have hl := @ih (size - ps.bytes) (by omega) (vaddr + ps.bytes) (by omega) (by omega)
        (by omega)
      rw [show vaddr + ps.bytes + (size - ps.bytes) = vaddr + size by omega] at hl
      exact .cons hps hal hl

namespace Tiles

variable {a b : Nat} {l : List Page}

theorem le (h : Tiles region a b l) : a ≤ b := by
  induction h with
  | nil => exact le_rfl
  | cons _ _ _ ih => exact (Nat.le_add_right _ _).trans ih

/-- Every page is aligned and within the bounds. -/
theorem mem (h : Tiles region a b l) (hp : p ∈ l) : p.vaddr % p.size.bytes = 0 ∧ a ≤ p.vaddr ∧
    p.vaddr + p.size.bytes ≤ b ∧
    ∃ size, p.size = choosePageSize p.vaddr (region.mapper.mapFn p.vaddr) size region.flags := by
  induction h with
  | nil => simp at hp
  | @cons a b l ps size hps hal hl ih =>
    rcases List.mem_cons.mp hp with rfl | hp
    · exact ⟨hal, le_rfl, hl.le, size, hps⟩
    · obtain ⟨h₁, h₂, h₃⟩ := ih hp
      exact ⟨h₁, by omega, h₃⟩

/-- The pages cover what lies between the bounds. -/
theorem exists_page (h : Tiles region a b l) {va : Nat} (ha : a ≤ va) (hb : va < b) :
    ∃ p ∈ l, p.Mem va := by
  induction h with
  | nil => omega
  | @cons a b l ps size hps hal hl ih =>
    by_cases hin : va < a + ps.bytes
    · exact ⟨_, List.mem_cons_self, ha, hin⟩
    · obtain ⟨p, hp, hm⟩ := ih (by omega) hb
      exact ⟨p, List.mem_cons_of_mem _ hp, hm⟩

/-- The pages follow each other. -/
theorem pairwise (h : Tiles region a b l) :
    l.Pairwise fun p p' => p.vaddr + p.size.bytes ≤ p'.vaddr := by
  induction h with
  | nil => exact .nil
  | cons hps hal hl ih => exact List.pairwise_cons.mpr ⟨fun p' hp' => (hl.mem hp').2.1, ih⟩

/-- One page is around an address. -/
theorem eq_of_mem (h : Tiles region a b l) {va : Nat} (hp : p ∈ l) (hp' : p' ∈ l) (hm : p.Mem va)
    (hm' : p'.Mem va) : p = p' := by
  induction h with
  | nil => cases hp
  | cons hps hal hl ih =>
    rcases List.mem_cons.mp hp with rfl | hin <;> rcases List.mem_cons.mp hp' with rfl | hin'
    · rfl
    · have hlo := (hl.mem hin').2.1
      exact absurd hm.2 (Nat.not_lt.mpr (hlo.trans hm'.1))
    · have hlo := (hl.mem hin).2.1
      exact absurd hm'.2 (Nat.not_lt.mpr (hlo.trans hm.1))
    · exact ih hin hin'

end Tiles

/-! ## Paths of pages -/

variable {level va va' : Nat} {ps ps' : PageSize}

/-- Addresses in one page have one page path. -/
theorem pagePath_congr (h : va / ps.bytes = va' / ps.bytes) :
    pagePath level ps va = pagePath level ps va' := by
  cases ps <;> by_cases h4 : level = 4 <;>
    simp only [pagePath, pageIndex, tablePath, topPath, p1Index, p2Index, p3Index, p4Index, h4,
      if_true, if_false, List.cons.injEq, Fin.ext_iff, tableIndex_val, PageSize.bytes,
      and_true] at h ⊢ <;>
    norm_num <;> omega

theorem div_two_pow_add_nine (a n : Nat) : a / 2 ^ (n + 9) = a / 2 ^ n / 512 := by
  rw [Nat.div_div_eq_div_mul, Nat.pow_add]

/-- Within the address range, one page path means one page. -/
theorem div_eq_of_pagePath_eq (hl : level = 3 ∨ level = 4) (hva : va < 2 ^ (12 + 9 * level))
    (hva' : va' < 2 ^ (12 + 9 * level)) (h : pagePath level ps va = pagePath level ps va') :
    va / ps.bytes = va' / ps.bytes := by
  have h21 : ∀ a, a / 2 ^ (12 + 9) = a / 2 ^ 12 / 512 := fun a => div_two_pow_add_nine a 12
  have h30 : ∀ a, a / 2 ^ (12 + 18) = a / 2 ^ 12 / 512 / 512 := fun a => by
    rw [← h21, ← div_two_pow_add_nine a 21]
  have h39 : ∀ a, a / 2 ^ (12 + 27) = a / 2 ^ 12 / 512 / 512 / 512 := fun a => by
    rw [← h30, ← div_two_pow_add_nine a 30]
  have hb : ps.bytes = match ps with
      | .Size4K => 2 ^ 12
      | .Size2M => 2 ^ (12 + 9)
      | .Size1G => 2 ^ (12 + 18) := by
    cases ps <;> rfl
  rw [hb]
  -- the indices of the path are the digits of the page number in base 512
  rcases hl with rfl | rfl <;> cases ps <;>
    simp only [pagePath, pageIndex, tablePath, topPath, p1Index, p2Index, p3Index, p4Index,
      List.cons.injEq, Fin.ext_iff, tableIndex_val, h21, h30, h39, reduceIte] at h ⊢ <;>
    norm_num at h hva hva' <;> omega

theorem pagePath_length (ps : PageSize) (va va' : Nat) :
    (pagePath level ps va).length = (pagePath level ps va').length := by
  cases ps <;> by_cases h4 : level = 4 <;> simp [pagePath, tablePath, topPath, h4]

/-- A page slot above or at another one: the upper page is around the lower one. -/
theorem div_eq_of_pagePath_suffix (hl : level = 3 ∨ level = 4) (hva : va < 2 ^ (12 + 9 * level))
    (hva' : va' < 2 ^ (12 + 9 * level)) (h : pagePath level ps va <:+ pagePath level ps' va') :
    va / ps.bytes = va' / ps.bytes := by
  refine div_eq_of_pagePath_eq hl hva hva' ?_
  have h₁ : pagePath level ps va <:+ keyPath level va' := h.trans (pagePath_suffix _ _ _)
  have h₂ : pagePath level ps va' <:+ keyPath level va' := pagePath_suffix _ _ _
  exact (List.suffix_of_suffix_length_le h₁ h₂ (pagePath_length ps va va').le).eq_of_length
    (pagePath_length ps va va')

theorem Page.mem_iff (h : p.vaddr % p.size.bytes = 0) :
    p.Mem va ↔ va / p.size.bytes = p.vaddr / p.size.bytes := by
  unfold Page.Mem
  rcases p with ⟨v, ps⟩
  cases ps <;> simp only [PageSize.bytes] at h ⊢ <;> omega

/-- The slot of a page. -/
def Page.slot (level : Nat) (p : Page) : Path := pagePath level p.size p.vaddr

/-- The slots of two pages within the address range, one behind the other, are apart. -/
theorem Page.slot_apart (hl : level = 3 ∨ level = 4) (hal : p.vaddr % p.size.bytes = 0)
    (hal' : p'.vaddr % p'.size.bytes = 0) (hlt : p.vaddr + p.size.bytes ≤ p'.vaddr)
    (hb : p'.vaddr + p'.size.bytes ≤ 2 ^ (12 + 9 * level)) :
    ¬ p.slot level <:+ p'.slot level ∧ ¬ p'.slot level <:+ p.slot level := by
  have hpos := p.size.bytes_pos
  have hpos' := p'.size.bytes_pos
  -- one slot above the other would put the first address of one page into the other
  constructor
  · intro hs
    have hdiv := div_eq_of_pagePath_suffix hl (by omega) (by omega) hs
    have hm : p.Mem p'.vaddr := (Page.mem_iff hal).mpr hdiv.symm
    exact absurd hm.2 (by omega)
  · intro hs
    have hdiv := div_eq_of_pagePath_suffix hl (by omega) (by omega) hs
    have hm : p'.Mem p.vaddr := (Page.mem_iff hal').mpr hdiv.symm
    exact absurd hm.1 (by omega)

/-- The slots of the pages of a region within the address range are apart. -/
theorem Tiles.apart (hl : level = 3 ∨ level = 4) {a b : Nat} {l : List Page}
    (h : Tiles region a b l) (hb : b ≤ 2 ^ (12 + 9 * level)) :
    l.Pairwise fun p p' => ¬ p.slot level <:+ p'.slot level ∧ ¬ p'.slot level <:+ p.slot level := by
  refine h.pairwise.imp_of_mem fun {p p'} hp hp' hlt => ?_
  obtain ⟨hal, -, -, -⟩ := h.mem hp
  obtain ⟨hal', -, hhi', -⟩ := h.mem hp'
  exact Page.slot_apart hl hal hal' hlt (hhi'.trans hb)

/-! ## The leaves of a region -/

variable {PTE : Type} [GenericPTE PTE]

/-- The leaf of a page. -/
def pageLeaf (level : Nat) (region : MemoryRegion) (p : Page) : Path × PTE :=
  (pagePath level p.size p.vaddr, leafEntry (region.mapper.mapFn p.vaddr) region.flags p.size)

/-- The leaves of the pages from `vaddr` on. -/
def leavesFrom (level : Nat) (region : MemoryRegion) (vaddr size : Nat) : List (Path × PTE) :=
  (pagesFrom region vaddr size).map (pageLeaf level region)

/-- The leaves of a region. -/
def MemoryRegion.leaves (level : Nat) (region : MemoryRegion) : List (Path × PTE) :=
  leavesFrom level region region.start region.size

variable {s s' s'' : PtState PTE}

/-- The tables that pages need. -/
def PtState.tablesNeeded (s : PtState PTE) (pages : List Page) : Nat :=
  ((tree s).holesAll (pages.map (Page.slot s.pt.level))).card

/-- **Room for pages**: every slot is clear, no slot is above another, and the frames last for the
tables they need. -/
structure PtState.Room (s : PtState PTE) (pages : List Page) : Prop where
  clear : ∀ p ∈ pages, (tree s).Clear (p.slot s.pt.level)
  apart : pages.Pairwise fun p p' =>
    ¬ p.slot s.pt.level <:+ p'.slot s.pt.level ∧ ¬ p'.slot s.pt.level <:+ p.slot s.pt.level
  frames : s.tablesNeeded pages ≤ s.free.length

/-- Leaves fit when their slots are those of pages that there is room for. -/
theorem fits_iff_room_of_slots {l : List (Path × PTE)} {pages : List Page}
    (hslots : l.map Prod.fst = pages.map (Page.slot s.pt.level)) :
    (tree s).Fits s.free.length l ↔ s.Room pages := by
  have hclear : (∀ x ∈ l, (tree s).Clear x.1) ↔ ∀ q ∈ l.map Prod.fst, (tree s).Clear q :=
    List.forall_mem_map.symm
  have hapart : l.Pairwise (fun x y => ¬ x.1 <:+ y.1 ∧ ¬ y.1 <:+ x.1) ↔
      (l.map Prod.fst).Pairwise fun q r => ¬ q <:+ r ∧ ¬ r <:+ q := by rw [List.pairwise_map]
  rw [Tree.fits_iff, hclear, hapart, hslots, List.forall_mem_map, List.pairwise_map,
    ← PtState.tablesNeeded]
  exact ⟨fun h => ⟨h.1, h.2.1, h.2.2⟩, fun h => ⟨h.clear, h.apart, h.frames⟩⟩

theorem fits_iff_room (region : MemoryRegion) {pages : List Page} :
    (tree s).Fits s.free.length (pages.map (pageLeaf s.pt.level region)) ↔ s.Room pages :=
  fits_iff_room_of_slots List.map_map

theorem Put.refl (h : s.Inv) : Put s s [] := ⟨h, rfl, rfl, trivial, rfl⟩

theorem Put.cons {x : Path × PTE} {l : List (Path × PTE)} (h : Put s s' [x])
    (hf : s'.free.length = s.free.length - ((tree s).holes x.1.tail).card) (h' : Put s' s'' l) :
    Put s s'' (x :: l) := by
  have htree : tree s' = (tree s).insertLeaf x.1 x.2 := h.tree_eq
  refine ⟨h'.inv, h'.root.trans h.root, h'.level.trans h.level, ⟨h.fits.1, h.fits.2.1, ?_⟩, ?_⟩
  · have := h'.fits
    rwa [htree, hf] at this
  · have := h'.tree_eq
    rwa [htree] at this

theorem Put.leaf_iff {l : List (Path × PTE)} (h : Put s s' l) (r : Path) (a : PTE) :
    tree s' r = .leaf a ↔ (r, a) ∈ l ∨ tree s r = .leaf a := by
  rw [h.tree_eq, h.fits.insertLeaves_eq_leaf]

variable [LawfulGenericPTE PTE]

/-- Mapping a region puts the leaves of its pages in order, and takes the frames of the tables that
they create. -/
theorem mapLoop_spec_free (region : MemoryRegion) (h : s.Inv) (hv : vaddr % 4096 = 0)
    (hs : size % 4096 = 0) :
    let l : List (Path × PTE) := leavesFrom s.pt.level region vaddr size
    match (mapLoop region vaddr size).run s with
    | .ok _ s' => (Put s s' l ∧ s'.free.length = s.free.length - (tree s).spent l) ∧
        (size = 0 ∨ vaddr + size < usizeSize)
    | .error .panic s' => Put s s' l ∧ usizeSize ≤ vaddr + size
    | .error (.err _) s' => ∃ l₁ x l₂ s₁, l = l₁ ++ x :: l₂ ∧ Put s s₁ l₁ ∧ SameLeaves s₁ s' ∧
        ¬ (tree s).Fits s.free.length (l₁ ++ [x]) := by
  -- on the size that is left: a page is mapped by `mapPage_spec`, and the rest in the state after
  induction size using Nat.strong_induction_on generalizing vaddr s with
  | _ size ih =>
    intro l
    by_cases h0 : size = 0
    · subst h0
      rw [mapLoop]
      simp only [if_true, EStateM.run_pure]
      have hl : l = [] := by simp [l, leavesFrom, pagesFrom_zero]
      exact ⟨hl ▸ ⟨Put.refl h, rfl⟩, Or.inl trivial⟩
    · set paddr := region.mapper.mapFn vaddr with hpaddr
      set ps := choosePageSize vaddr paddr size region.flags with hps
      have hle : ps.bytes ≤ size := choosePageSize_le _ _ _ hs h0
      have hpos := ps.bytes_pos
      have hmod := bytes_mod ps
      have hal : ps.isAligned vaddr = true := choosePageSize_isAligned region.flags paddr size hv
      set x : Path × PTE := pageLeaf s.pt.level region ⟨vaddr, ps⟩ with hx
      have hmap := mapPage_spec h ⟨vaddr, ps⟩ paddr region.flags
      have hl : l = x :: match checkedAdd vaddr ps.bytes with
          | none => []
          | some next => leavesFrom s.pt.level region next (size - ps.bytes) := by
        simp only [l, leavesFrom, pagesFrom_of_ne h0 hs, List.map_cons, ← hpaddr, ← hps, ← hx]
        cases checkedAdd vaddr ps.bytes <;> rfl
      rw [mapLoop, if_neg h0]
      simp only [← hpaddr, ← hps, hvAssert, hal, if_true, pure_bind, EStateM.run_bind,
        liftPaging_run]
      cases hrun : (mapPage ⟨vaddr, ps⟩ paddr region.flags).run s with
      | error e s₁ =>
        rw [hrun] at hmap
        obtain ⟨hsame, hfit⟩ : SameLeaves s s₁ ∧ ¬ (tree s).Fits s.free.length [x] := hmap
        exact ⟨[], x, _, s, hl, Put.refl h, hsame, hfit⟩
      | ok a s₁ =>
        rw [hrun] at hmap
        obtain ⟨hput, hfree⟩ : Put s s₁ [x] ∧
          s₁.free.length = s.free.length - ((tree s).holes x.1.tail).card := hmap
        cases hadd : checkedAdd vaddr ps.bytes with
        | none =>
          -- the address of the next page overflows, after this one was mapped
          rw [hadd] at hl
          simp only [EStateM.run_throw]
          refine ⟨hl ▸ hput, ?_⟩
          unfold checkedAdd at hadd
          split_ifs at hadd
          omega
        | some next =>
          obtain ⟨hlt, rfl⟩ := checkedAdd_eq_some.mp hadd
          have ih := @ih (size - ps.bytes) (by omega) (vaddr + ps.bytes) _ hput.inv (by omega)
            (by omega)
          rw [hadd] at hl
          rw [hput.level] at ih
          have htree : tree s₁ = (tree s).insertLeaf x.1 x.2 := hput.tree_eq
          simp only [hle, if_true]
          cases hloop : (mapLoop region (vaddr + ps.bytes) (size - ps.bytes)).run s₁ with
          | ok u s₂ =>
            rw [hloop] at ih
            obtain ⟨⟨hput₁, hfree₁⟩, hend⟩ := ih
            refine ⟨⟨hl ▸ hput.cons hfree hput₁, ?_⟩, Or.inr (by omega)⟩
            rw [hl, hfree₁, hfree, htree, Tree.spent, Nat.sub_add_eq]
          | error e s₂ =>
            rw [hloop] at ih
            cases e with
            | panic => exact ⟨hl ▸ hput.cons hfree ih.1, by have := ih.2; omega⟩
            | err e =>
              obtain ⟨l₁, y, l₂, s₃, hl₁, hput₁, hsame, hfit⟩ := ih
              refine ⟨x :: l₁, y, l₂, s₃, hl.trans (congrArg (x :: ·) hl₁),
                hput.cons hfree hput₁, hsame, ?_⟩
              rw [htree, hfree] at hfit
              exact fun hf => hfit hf.2.2

/-- **Mapping a region** puts the leaves of its pages in order: all of them when it succeeds, or
when the last page ends past the address space, and those before the first one that does not fit
when it fails. -/
theorem mapLoop_spec (region : MemoryRegion) (h : s.Inv) (hv : vaddr % 4096 = 0)
    (hs : size % 4096 = 0) :
    let l : List (Path × PTE) := leavesFrom s.pt.level region vaddr size
    match (mapLoop region vaddr size).run s with
    | .ok _ s' => Put s s' l ∧ (size = 0 ∨ vaddr + size < usizeSize)
    | .error .panic s' => Put s s' l ∧ usizeSize ≤ vaddr + size
    | .error (.err _) s' => ∃ l₁ x l₂ s₁, l = l₁ ++ x :: l₂ ∧ Put s s₁ l₁ ∧ SameLeaves s₁ s' ∧
        ¬ (tree s).Fits s.free.length (l₁ ++ [x]) := by
  have hspec := mapLoop_spec_free region h hv hs
  cases hrun : (mapLoop region vaddr size).run s with
  | ok u s' =>
    rw [hrun] at hspec
    exact ⟨hspec.1.1, hspec.2⟩
  | error e s' =>
    rw [hrun] at hspec
    cases e with
    | panic => exact hspec
    | err e => exact hspec

/-- **Unmapping a region** whose pages are leaves clears these leaves. -/
theorem unmapLoop_cleared (region : MemoryRegion) (h : s.Inv) (hv : vaddr % 4096 = 0)
    (hs : size % 4096 = 0) (hend : vaddr + size < usizeSize)
    (hleaf : ∀ x ∈ leavesFrom s.pt.level region vaddr size, tree s x.1 = .leaf x.2)
    (hnodup : ((@leavesFrom PTE _ s.pt.level region vaddr size).map Prod.fst).Nodup) :
    ∃ s', (unmapLoop vaddr size).run s = .ok () s' ∧
      Cleared {q | q ∈ (@leavesFrom PTE _ s.pt.level region vaddr size).map Prod.fst} s s' := by
  induction size using Nat.strong_induction_on generalizing vaddr s with
  | _ size ih =>
    rw [EStateM.run, unmapLoop]
    by_cases h0 : size = 0
    · subst h0
      refine ⟨s, by simp, ?_⟩
      have hnone : {q | q ∈ (@leavesFrom PTE _ s.pt.level region vaddr 0).map Prod.fst} = ∅ := by
        ext q
        simp [leavesFrom, pagesFrom_zero]
      rw [hnone]
      exact .refl s
    · set ps := choosePageSize vaddr (region.mapper.mapFn vaddr) size region.flags with hps
      have hle : ps.bytes ≤ size := choosePageSize_le _ _ _ hs h0
      have hpos := ps.bytes_pos
      have hmod := bytes_mod ps
      have hal : ps.isAligned vaddr = true :=
        choosePageSize_isAligned region.flags (region.mapper.mapFn vaddr) size hv
      set x : Path × PTE := pageLeaf s.pt.level region ⟨vaddr, ps⟩ with hx
      have hl : leavesFrom s.pt.level region vaddr size =
          x :: leavesFrom s.pt.level region (vaddr + ps.bytes) (size - ps.bytes) := by
        simp only [leavesFrom, pagesFrom_of_lt h0 hs hend, List.map_cons, ← hps, ← hx]
      rw [hl] at hleaf hnodup
      obtain ⟨hnot, hnodup⟩ := List.nodup_cons.mp hnodup
      have hx' : tree s (pagePath s.pt.level ps vaddr) = .leaf x.2 := hleaf x List.mem_cons_self
      have hone : Leaves s {pagePath s.pt.level ps vaddr} := fun q hq => ⟨x.2, hq ▸ hx'⟩
      obtain ⟨s₁, hrun, hc⟩ := unmapPage_cleared h hx'
      have hadd : checkedAdd vaddr ps.bytes = some (vaddr + ps.bytes) :=
        checkedAdd_eq_some.mpr ⟨by omega, rfl⟩
      have hlift : liftPaging (unmapPage vaddr) s = .ok (addr x.2, ps) s₁ := by
        have := liftPaging_run (unmapPage vaddr) s
        rwa [hrun] at this
      -- the leaves of the other pages stay, as their paths are different
      have hleaf₁ : ∀ y ∈ leavesFrom s₁.pt.level region (vaddr + ps.bytes) (size - ps.bytes),
          tree s₁ y.1 = .leaf y.2 := by
        intro y hy
        rw [hc.pt] at hy
        refine (hc.leaf_iff h hone).mpr ⟨fun he => hnot ?_, hleaf y (List.mem_cons_of_mem _ hy)⟩
        exact List.mem_map.mpr ⟨y, hy, he⟩
      obtain ⟨s₂, hrun₂, hc₂⟩ := ih (size - ps.bytes) (by omega) (hc.inv h hone)
        (by omega) (by omega) (by omega) hleaf₁ (by rwa [hc.pt])
      refine ⟨s₂, ?_, ?_⟩
      · simp only [h0, if_false, hlift, hal, Bool.not_true, Bool.false_eq_true, hle, if_true, hadd]
        exact hrun₂
      · have hall : {q | q ∈ (@leavesFrom PTE _ s.pt.level region vaddr size).map Prod.fst} =
            {pagePath s.pt.level ps vaddr} ∪ {q | q ∈ (@leavesFrom PTE _ s₁.pt.level region
              (vaddr + ps.bytes) (size - ps.bytes)).map Prod.fst} := by
          ext q
          rw [hl, hc.pt, List.map_cons, Set.mem_ofPred_eq, List.mem_cons]
          rfl
        rw [hall]
        exact hc.trans h hone hc₂

/-- Unmapping a region whose pages are leaves removes exactly these leaves. -/
theorem unmapLoop_spec (region : MemoryRegion) (h : s.Inv) (hv : vaddr % 4096 = 0)
    (hs : size % 4096 = 0)
    (hend : vaddr + size < usizeSize)
    (hleaf : ∀ x ∈ leavesFrom s.pt.level region vaddr size, tree s x.1 = .leaf x.2)
    (hnodup : ((@leavesFrom PTE _ s.pt.level region vaddr size).map Prod.fst).Nodup) :
    ∃ s', (unmapLoop vaddr size).run s = .ok () s' ∧ s'.Inv ∧ s'.pt = s.pt ∧ s'.free = s.free ∧
      ∀ r a, tree s' r = .leaf a ↔
        r ∉ (@leavesFrom PTE _ s.pt.level region vaddr size).map Prod.fst ∧
          tree s r = .leaf a := by
  obtain ⟨s', hrun, hc⟩ := unmapLoop_cleared region h hv hs hend hleaf hnodup
  have hA : Leaves s {q | q ∈ (@leavesFrom PTE _ s.pt.level region vaddr size).map Prod.fst} := by
    intro q hq
    obtain ⟨x, hx, rfl⟩ := List.mem_map.mp hq
    exact ⟨x.2, hleaf x hx⟩
  exact ⟨s', hrun, hc.inv h hA, hc.pt, hc.free, fun r a => hc.leaf_iff h hA⟩

/-- Mapping and unmapping keep the invariant, however they end. -/
theorem mapLoop_inv (region : MemoryRegion) (h : s.Inv) (hv : vaddr % 4096 = 0)
    (hs : size % 4096 = 0) :
    (endState ((mapLoop region vaddr size).run s)).Inv := by
  have hspec := mapLoop_spec region h hv hs
  cases hrun : (mapLoop region vaddr size).run s with
  | ok u s' =>
    rw [hrun] at hspec
    exact hspec.1.inv
  | error e s' =>
    rw [hrun] at hspec
    cases e with
    | panic => exact hspec.1.inv
    | err e =>
      obtain ⟨_, _, _, _, _, _, hsame, _⟩ := hspec
      exact hsame.inv

theorem unmapLoop_inv (h : s.Inv) : (endState ((unmapLoop vaddr size).run s)).Inv ∧
    (endState ((unmapLoop vaddr size).run s)).pt = s.pt := by
  -- on the size that is left; unmapping one page keeps the invariant, and the loop may stop there
  induction size using Nat.strong_induction_on generalizing vaddr s with
  | _ size ih =>
    rw [EStateM.run, unmapLoop]
    split_ifs with h0
    · exact ⟨h, rfl⟩
    · have hpage := unmapPage_inv h vaddr
      have hlift := liftPaging_run (unmapPage vaddr) s
      rw [EStateM.run] at hlift
      rw [hlift]
      cases hrun : (unmapPage vaddr).run s with
      | error e s' =>
        rw [hrun] at hpage
        exact ⟨hpage ▸ h, congrArg _ hpage⟩
      | ok a s' =>
        rw [hrun] at hpage
        obtain ⟨hinv, hpt⟩ := hpage
        have hpos := a.2.bytes_pos
        simp only
        split_ifs
        · exact ⟨hinv, hpt⟩
        · cases checkedAdd vaddr a.2.bytes with
          | none => exact ⟨hinv, hpt⟩
          | some next =>
            obtain ⟨hinv₂, hpt₂⟩ := @ih (size - a.2.bytes) (by omega) next s' hinv
            exact ⟨hinv₂, hpt₂.trans hpt⟩
        · exact ⟨hinv, hpt⟩

end Hvisor
