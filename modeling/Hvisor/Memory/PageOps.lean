import Hvisor.Memory.PagingTree

/-!
# Pages as leaves

The operations on one page, read in the radix tree: an address walks along its path, mapping a
page puts a leaf at the page's path, and unmapping removes the leaf that serves the address.

## Main definitions

* `keyPath`, `pagePath`: the path of an address, and of the page of a given size around it
* `leafEntry`: the entry that maps a page

## Main results

* `query_leaf`, `query_notMapped`: the answer for an address is the leaf on its path
* `mapPage_spec`: mapping a page puts its leaf, exactly where the slot is clear and frames last
* `unmapPage_inv`: unmapping a page keeps the invariant
-/

namespace Hvisor

open GenericPTE RadixTree

/-! ## Paths of addresses -/

/-- The indices above the third level. -/
def topPath (level va : Nat) : Path := if level = 4 then [p4Index va] else []

/-- The path of the table that holds the page of the given size around an address. -/
def tablePath (level : Nat) : PageSize → Nat → Path
  | .Size1G, va => topPath level va
  | .Size2M, va => p3Index va :: topPath level va
  | .Size4K, va => p2Index va :: p3Index va :: topPath level va

/-- The index of the page of the given size around an address in its table. -/
def pageIndex : PageSize → Nat → Fin entryCount
  | .Size1G, va => p3Index va
  | .Size2M, va => p2Index va
  | .Size4K, va => p1Index va

/-- The path of the page of the given size around an address. -/
def pagePath (level : Nat) (ps : PageSize) (va : Nat) : Path :=
  pageIndex ps va :: tablePath level ps va

/-- The path of an address. -/
def keyPath (level va : Nat) : Path := pagePath level .Size4K va

variable {level va : Nat} {ps ps' : PageSize}

theorem pagePath_suffix (level : Nat) (ps : PageSize) (va : Nat) :
    pagePath level ps va <:+ keyPath level va := by
  cases ps
  · exact List.suffix_refl _
  · exact List.suffix_cons _ _
  · exact (List.suffix_cons _ _).trans (List.suffix_cons _ _)

theorem topPath_length (va : Nat) (hl : level = 3 ∨ level = 4) :
    (topPath level va).length + 3 = level := by
  rcases hl with rfl | rfl <;> simp [topPath]

theorem tablePath_length (ps : PageSize) (va : Nat) (hl : level = 3 ∨ level = 4) :
    (tablePath level ps va).length < level ∧
      ((tablePath level ps va).length + 1 = level ↔ ps = .Size4K) := by
  have := topPath_length va hl
  cases ps <;> simp only [tablePath, List.length_cons] <;> simp <;> omega

/-- A slot on the path of an address below the top level is the slot of a page around it. -/
theorem eq_pagePath_of_suffix (hl : level = 3 ∨ level = 4) {q : Path} (hq : q <:+ keyPath level va)
    (hne : q ≠ []) (htop : level = 4 → q ≠ [p4Index va]) : ∃ ps, q = pagePath level ps va := by
  simp only [keyPath, pagePath, tablePath, pageIndex] at hq
  rcases List.suffix_cons_iff.mp hq with rfl | hq
  · exact ⟨.Size4K, rfl⟩
  rcases List.suffix_cons_iff.mp hq with rfl | hq
  · exact ⟨.Size2M, rfl⟩
  rcases List.suffix_cons_iff.mp hq with rfl | hq
  · exact ⟨.Size1G, rfl⟩
  exfalso
  rcases hl with rfl | rfl
  · exact hne (by simpa [topPath] using hq)
  · simp only [topPath, if_true] at hq
    rcases List.suffix_cons_iff.mp hq with rfl | hq
    · exact htop rfl rfl
    · exact hne (List.suffix_nil.mp hq)

theorem pagePath_inj (hl : level = 3 ∨ level = 4) {va' : Nat}
    (h : pagePath level ps va = pagePath level ps' va') : ps = ps' := by
  have h₁ := topPath_length va hl
  have h₂ := topPath_length va' hl
  have := congrArg List.length h
  cases ps <;> cases ps' <;> simp only [pagePath, tablePath, List.length_cons] at this <;>
    first | rfl | omega

/-! ## The walk -/

variable {PTE : Type} [GenericPTE PTE] [LawfulGenericPTE PTE] {s s' : PtState PTE} {e : PTE}

/-- The walk from the third level on. -/
def walkFrom (s : PtState PTE) (vaddr p3 : Nat) : Except PagingError (Nat × PageSize) := do
  let p3e := entryPtr p3 (p3Index vaddr)
  if isHuge (s.mem p3e) then
    return (p3e, .Size1G)
  let p2 ← nextTableMut (s.mem p3e)
  let p2e := entryPtr p2 (p2Index vaddr)
  if isHuge (s.mem p2e) then
    return (p2e, .Size2M)
  let p1 ← nextTableMut (s.mem p2e)
  let p1e := entryPtr p1 (p1Index vaddr)
  return (p1e, .Size4K)

omit [LawfulGenericPTE PTE] in
theorem getEntryMut_eq (s : PtState PTE) (va : Nat) :
    getEntryMut s va =
      (if s.pt.level = 4 then nextTableMut (s.mem (entryPtr s.pt.root (p4Index va)))
        else .ok s.pt.root) >>= walkFrom s va := by
  unfold getEntryMut walkFrom
  split_ifs <;> rfl

/-- One level of the walk: a slot without a table that reads as huge, an empty slot, or a table. -/
theorem walk_step (h : s.Inv) {p : Path} {f : Nat} (hp : tableAt s p = some f)
    (hlen : p.length + 1 ≠ s.pt.level) (i : Fin entryCount) :
    (isHuge (s.mem (entryPtr f i)) = true ∧ tree s (i :: p) ≠ .table) ∨
    (isHuge (s.mem (entryPtr f i)) = false ∧ tree s (i :: p) = .empty ∧
      nextTableMut (s.mem (entryPtr f i)) = .error .NotMapped) ∨
    (isHuge (s.mem (entryPtr f i)) = false ∧
      ∃ g, tableAt s (i :: p) = some g ∧ nextTableMut (s.mem (entryPtr f i)) = .ok g) := by
  have hwalk := nextTableMut_tree (i := i) h hp hlen
  have hlen' : (p.length + 1 == s.pt.level) = false := by simpa using hlen
  have hdecode := tree_cons (i := i) hp
  rw [hlen'] at hdecode
  -- what the entry stands for in the tree decides how the walk goes on
  cases ht : tree s (i :: p) with
  | empty =>
    rw [ht] at hwalk
    cases hh : isHuge (s.mem (entryPtr f i)) with
    | true => exact Or.inl ⟨rfl, by simp⟩
    | false => exact Or.inr (Or.inl ⟨rfl, rfl, hwalk⟩)
  | table =>
    rw [ht] at hwalk hdecode
    have hh : isHuge (s.mem (entryPtr f i)) = false := by
      unfold decode at hdecode
      split_ifs at hdecode with h₁ h₂
      simpa using h₂
    exact Or.inr (Or.inr ⟨hh, hwalk⟩)
  | leaf a =>
    rw [ht] at hdecode
    have hh : isHuge (s.mem (entryPtr f i)) = true := by
      unfold decode at hdecode
      split_ifs at hdecode with h₁ h₂
      simpa using h₂
    exact Or.inl ⟨hh, by simp⟩

omit [LawfulGenericPTE PTE] in
/-- An empty slot that the walk reaches leaves no leaf around the address. -/
theorem no_leaf_of_empty (ps : PageSize) {f : Nat}
    (hp : tableAt s (tablePath level ps va) = some f)
    (ht : tree s (pagePath level ps va) = .empty) (ps' : PageSize) (a : PTE) :
    tree s (pagePath level ps' va) ≠ .leaf a := by
  intro hl
  have hwf := tree_wf s
  -- of two slots on one walk one is above the other: below an empty one nothing is in use, ...
  rcases List.suffix_or_suffix_of_suffix (pagePath_suffix level ps va)
    (pagePath_suffix level ps' va) with hs | hs
  · by_cases he : pagePath level ps va = pagePath level ps' va
    · simp [he, hl] at ht
    · simp [hwf.empty_below (by simp [ht]) hs he] at hl
  -- ... and above it there are tables
  · rcases List.suffix_cons_iff.mp hs with he | hs
    · rw [show pagePath level ps' va = pagePath level ps va from he, ht] at hl
      cases hl
    · have htab : tree s (tablePath level ps va) = .table := tree_eq_table.mpr ⟨f, hp⟩
      have := hwf.eq_of_leaf_suffix hl (by simp [htab]) hs
      rw [this, htab] at hl
      cases hl

/-- **The walk** for an address ends at the entry of a page whose slot holds no table, or where
nothing is mapped around the address. -/
theorem getEntryMut_cases (h : s.Inv) (va : Nat) :
    (∃ ps f, getEntryMut s va = .ok (entryPtr f (pageIndex ps va), ps) ∧
      tableAt s (tablePath s.pt.level ps va) = some f ∧
      tree s (pagePath s.pt.level ps va) ≠ .table) ∨
    (getEntryMut s va = .error .NotMapped ∧
      ∀ ps a, tree s (pagePath s.pt.level ps va) ≠ .leaf a) := by
  have htl := topPath_length va h.level
  rw [getEntryMut_eq]
  -- the third level is reached, or the top entry is empty
  have htop : (∃ p3, (if s.pt.level = 4 then nextTableMut (s.mem (entryPtr s.pt.root (p4Index va)))
        else .ok s.pt.root) = .ok p3 ∧ tableAt s (topPath s.pt.level va) = some p3) ∨
      ((if s.pt.level = 4 then nextTableMut (s.mem (entryPtr s.pt.root (p4Index va)))
        else .ok s.pt.root) = .error .NotMapped ∧ tree s (topPath s.pt.level va) = .empty) := by
    by_cases h4 : s.pt.level = 4
    · have hwalk := nextTableMut_tree (p := []) (f := s.pt.root) (i := p4Index va) h rfl
        (by simp [h4])
      simp only [h4, if_true, topPath]
      cases ht : tree s [p4Index va] with
      | empty =>
        rw [ht] at hwalk
        exact Or.inr ⟨hwalk, rfl⟩
      | table =>
        rw [ht] at hwalk
        obtain ⟨g, hg, hok⟩ := hwalk
        exact Or.inl ⟨g, hok, hg⟩
      | leaf a => exact absurd ht (h.top h4 _ a)
    · simp only [h4, if_false, topPath]
      exact Or.inl ⟨s.pt.root, rfl, rfl⟩
  rcases htop with ⟨p3, hget, hp3⟩ | ⟨hget, hempty⟩
  · rw [hget]
    simp only [walkFrom, bind, Except.bind, pure, Except.pure]
    rcases walk_step h hp3 (by omega) (p3Index va) with ⟨hh, hslot⟩ | ⟨hh, he, hn⟩ |
      ⟨hh, p2, hp2, hn⟩
    · exact Or.inl ⟨.Size1G, p3, by simp [hh, pageIndex], hp3, hslot⟩
    · exact Or.inr ⟨by simp [hh, hn], no_leaf_of_empty .Size1G hp3 he⟩
    simp only [hh, hn, Bool.false_eq_true, if_false]
    rcases walk_step h hp2 (by simp; omega) (p2Index va) with
      ⟨hh, hslot⟩ | ⟨hh, he, hn⟩ | ⟨hh, p1, hp1, hn⟩
    · exact Or.inl ⟨.Size2M, p2, by simp [hh, pageIndex], hp2, hslot⟩
    · exact Or.inr ⟨by simp [hh, hn], no_leaf_of_empty .Size2M hp2 he⟩
    refine Or.inl ⟨.Size4K, p1, by simp [hh, hn, pageIndex], hp1, fun ht => ?_⟩
    -- the last level holds no tables
    obtain ⟨g, hg⟩ := tree_eq_table.mp ht
    rcases tableAt_length hg with he | he
    · simp [pagePath] at he
    · simp [pagePath, tablePath] at he
      omega
  · rw [hget]
    refine Or.inr ⟨rfl, fun ps a hl => ?_⟩
    have hs : topPath s.pt.level va <:+ pagePath s.pt.level ps va := by
      cases ps
      · exact (List.suffix_cons _ _).trans ((List.suffix_cons _ _).trans (List.suffix_cons _ _))
      · exact (List.suffix_cons _ _).trans (List.suffix_cons _ _)
      · exact List.suffix_cons _ _
    have hne : topPath s.pt.level va ≠ pagePath s.pt.level ps va := by
      intro e
      simp [← e, hempty] at hl
    simp [(tree_wf s).empty_below (by simp [hempty]) hs hne] at hl

/-! ## The answer for an address -/

/-- The leaf that serves an address is found by the walk. -/
theorem getEntryMut_leaf (h : s.Inv) (hl : tree s (pagePath s.pt.level ps va) = .leaf e) :
    ∃ f, getEntryMut s va = .ok (entryPtr f (pageIndex ps va), ps) ∧
      tableAt s (tablePath s.pt.level ps va) = some f ∧ s.mem (entryPtr f (pageIndex ps va)) = e ∧
      isUnused e = false := by
  rcases getEntryMut_cases h va with ⟨ps', f, hget, hp, hslot⟩ | ⟨-, hn⟩
  -- the walk has ended at a slot with a leaf, and there is one leaf on the way
  · obtain ⟨a, ha⟩ : ∃ a, tree s (pagePath s.pt.level ps' va) = .leaf a := by
      cases ht : tree s (pagePath s.pt.level ps' va) with
      | empty => exact absurd hl (no_leaf_of_empty ps' hp ht ps e)
      | table => exact absurd ht hslot
      | leaf a => exact ⟨a, rfl⟩
    obtain rfl : ps = ps' := pagePath_inj h.level
      ((tree_wf s).leaf_unique hl ha (pagePath_suffix _ _ _) (pagePath_suffix _ _ _))
    refine ⟨f, hget, hp, ?_⟩
    rw [pagePath, tree_cons hp] at hl
    unfold decode at hl
    split_ifs at hl with h₁ h₂
    simp only [Slot.leaf.injEq] at hl
    rw [hl] at h₁
    exact ⟨hl, by simpa using h₁⟩
  · exact absurd hl (hn ps e)

theorem query_leaf (h : s.Inv) (hl : tree s (pagePath s.pt.level ps va) = .leaf e) :
    query s va = match flags e with
      | some fl => .ok (addr e + va % ps.bytes, fl, ps)
      | none => .error .panic := by
  obtain ⟨f, hget, -, he, hu⟩ := getEntryMut_leaf h hl
  cases hf : flags e with
  | some fl => simp [query, hget, he, hu, hf, PageSize.pageOffset_eq]
  | none => simp [query, hget, he, hu, hf]

theorem query_notMapped (h : s.Inv) (hn : ∀ ps a, tree s (pagePath s.pt.level ps va) ≠ .leaf a) :
    query s va = .error (.err .NotMapped) := by
  rcases getEntryMut_cases h va with ⟨ps, f, hget, hp, hslot⟩ | ⟨hget, -⟩
  · have hu : isUnused (s.mem (entryPtr f (pageIndex ps va))) = true := by
      rw [isUnused_iff_tree hp]
      cases ht : tree s (pageIndex ps va :: tablePath s.pt.level ps va) with
      | empty => rfl
      | table => exact absurd ht hslot
      | leaf a => exact absurd ht (hn ps a)
    simp [query, hget, hu]
  · simp [query, hget]

/-- The answer for an address depends on the leaves only. -/
theorem SameLeaves.query (h : s.Inv) (hs : SameLeaves s s') (va : Nat) :
    Hvisor.query s' va = Hvisor.query s va := by
  by_cases hl : ∃ ps a, tree s (pagePath s.pt.level ps va) = .leaf a
  · obtain ⟨ps, a, hl⟩ := hl
    have hl' : tree s' (pagePath s'.pt.level ps va) = .leaf a := by
      rw [hs.level, hs.leaves, hl]
    rw [query_leaf h hl, query_leaf hs.inv hl']
  · have hn : ∀ ps a, tree s (pagePath s.pt.level ps va) ≠ .leaf a := fun ps a ht =>
      hl ⟨ps, a, ht⟩
    have hn' : ∀ ps a, tree s' (pagePath s'.pt.level ps va) ≠ .leaf a := fun ps a ht => by
      rw [hs.level, hs.leaves] at ht
      exact hn ps a ht
    rw [query_notMapped h hn, query_notMapped hs.inv hn']

/-! ## Mapping one page -/

/-- The entry that maps a page. -/
def leafEntry (paddr : Nat) (fl : MemFlags) (ps : PageSize) : PTE :=
  setFlags (setAddr zero (ps.alignDown paddr)) fl ps.isHuge

omit [LawfulGenericPTE PTE] in
/-- The entry of a page is found by the descent to its table. -/
theorem getEntryMutOrCreate_run (s : PtState PTE) (page : Page) :
    (getEntryMutOrCreate page).run s =
      (do
        let table ← descend (tablePath s.pt.level page.size page.vaddr)
        return entryPtr table (pageIndex page.size page.vaddr)).run s := by
  unfold getEntryMutOrCreate
  by_cases h4 : s.pt.level = 4 <;> cases hs : page.size
  all_goals
    simp only [tablePath, topPath, h4, if_true, if_false, descend, bind_assoc, pure_bind,
      pageIndex]
    simp only [EStateM.run_bind, EStateM.run_get, h4, if_true, if_false, EStateM.run_pure,
      reduceCtorEq]

/-- The state `s'` is `s` with leaves put in order; the page table is kept otherwise. -/
structure Put (s s' : PtState PTE) (l : List (Path × PTE)) : Prop where
  inv : s'.Inv
  root : s'.pt.root = s.pt.root
  level : s'.pt.level = s.pt.level
  fits : (tree s).Fits s.free.length l
  tree_eq : tree s' = (tree s).insertLeaves l

omit [LawfulGenericPTE PTE] in
theorem tablePath_ne_nil (hl : level = 4) : tablePath level ps va ≠ [] := by
  have := topPath_length va (Or.inr hl)
  intro h
  have := congrArg List.length h
  cases ps <;> simp only [tablePath, List.length_cons, List.length_nil] at this <;> omega

theorem leafEntry_spec {P : Type} [GenericPTE P] [LawfulGenericPTE P] (paddr : Nat)
    (fl : MemFlags) (ps : PageSize) :
    isUnused (leafEntry paddr fl ps : P) = false ∧ isPresent (leafEntry paddr fl ps : P) = true ∧
      (ps.isHuge = true → isHuge (leafEntry paddr fl ps : P) = true) :=
  LawfulGenericPTE.leaf (ps.alignDown paddr) fl ps.isHuge

/-- The entry of a page reads as a leaf in its table. -/
theorem decode_leafEntry {P : Type} [GenericPTE P] [LawfulGenericPTE P] (ps : PageSize) (va : Nat)
    (hl : level = 3 ∨ level = 4) (paddr : Nat) (fl : MemFlags) :
    decode ((tablePath level ps va).length + 1 == level) (leafEntry paddr fl ps : P) =
      .leaf (leafEntry paddr fl ps) := by
  obtain ⟨hu, -, hh⟩ := leafEntry_spec (P := P) paddr fl ps
  have hlast := (tablePath_length ps va hl).2
  unfold decode
  rw [hu, if_neg Bool.false_ne_true, if_pos]
  cases hp : ps.isHuge with
  | true => rw [hh hp, Bool.or_true]
  | false => cases ps <;> simp_all [PageSize.isHuge]

omit [LawfulGenericPTE PTE] in
/-- Putting a leaf is making the tables on its way and then writing its entry. -/
theorem Descended.insertLeaf {i : Fin entryCount} {p : Path} (hd : Descended s s' p) (a : PTE) :
    Function.update (tree s') (i :: p) (.leaf a) = (tree s).insertLeaf (i :: p) a := by
  funext r
  by_cases hr : r = i :: p
  · subst hr
    rw [Function.update_self, Tree.insertLeaf_self]
  · rw [Function.update_of_ne hr, hd.slots]
    -- on the way the empty slots have become tables, and elsewhere nothing has changed
    by_cases hs : r <:+ p
    · have hs' : r <:+ i :: p := hs.trans (List.suffix_cons i p)
      simp only [Tree.insertLeaf, hr, hs', if_true, if_false]
      cases ht : tree s r <;> simp [Tree.mem_holes, hs, ht]
    · have hs' : ¬ r <:+ i :: p := fun h => by
        rcases List.suffix_cons_iff.mp h with h | h
        · exact hr h
        · exact hs h
      rw [Tree.insertLeaf_of_not_suffix hs', if_neg fun h => hs (Tree.mem_holes.mp h).1]

omit [LawfulGenericPTE PTE] in
/-- The two writes of a mapping over an unused entry. -/
theorem writeLeaf_run {entry : Nat} (he : s.mem entry = zero) (paddr : Nat) (fl : MemFlags) :
    (do
      modifyEntry entry (setAddr · (ps.alignDown paddr))
      modifyEntry entry (setFlags · fl ps.isHuge)
      return entry : PagingM PTE Nat).run s =
      .ok entry (s.setEntry entry (leafEntry paddr fl ps)) := by
  simp only [modifyEntry, EStateM.run_bind, EStateM.run_modify, EStateM.run_pure, PtState.setEntry,
    Function.update_self, Function.update_idem, he, leafEntry]

/-- **Mapping a page** puts its leaf, exactly where the slot is clear and the frames last. -/
theorem mapPage_spec (h : s.Inv) (page : Page) (paddr : Nat) (fl : MemFlags) :
    let q := pagePath s.pt.level page.size page.vaddr
    let a : PTE := leafEntry paddr fl page.size
    match (mapPage page paddr fl).run s with
    | .ok _ s' => Put s s' [(q, a)] ∧
        s'.free.length = s.free.length - ((tree s).holes q.tail).card
    | .error _ s' => SameLeaves s s' ∧ ¬ (tree s).Fits s.free.length [(q, a)] := by
  intro q a
  obtain ⟨hlen, hlast⟩ := tablePath_length page.size page.vaddr h.level
  have hspec := descend_spec h _ hlen
  set p := tablePath s.pt.level page.size page.vaddr with hpdef
  set i := pageIndex page.size page.vaddr with hidef
  have hq : q = i :: p := rfl
  have hqp : ¬ i :: p <:+ p := fun hs => by simpa using hs.length_le
  rw [mapPage, EStateM.run_bind, getEntryMutOrCreate_run, EStateM.run_bind]
  simp only [← hpdef, ← hidef]
  cases hrun : (descend p).run s with
  | error e s₁ =>
    -- the descent fails for a leaf on the way or for want of frames, and either is in the way
    rw [hrun] at hspec
    refine ⟨hspec.1, fun hf => hspec.2 ⟨fun r b hr => ?_, hf.2.1⟩⟩
    exact hf.1.2 r b (hr.trans (List.suffix_cons i p))
  | ok f s₁ =>
    rw [hrun] at hspec
    obtain ⟨hd, hp⟩ := hspec
    have hslot : tree s₁ (i :: p) = tree s (i :: p) := by
      rw [hd.slots, if_neg fun hm => hqp (Tree.mem_holes.mp hm).1]
    have hunused := isUnused_iff_tree (i := i) hp
    simp only [EStateM.run_pure, EStateM.run_bind, EStateM.run_get]
    cases hu : isUnused (s₁.mem (entryPtr f i)) with
    | false =>
      refine ⟨hd.sameLeaves, fun hf => ?_⟩
      have he : tree s₁ (i :: p) = .empty := hslot.trans hf.1.1
      simp [hu] at hunused
      exact hunused he
    | true =>
      -- the slot is empty, and the entry that is written there reads as the leaf
      have he : tree s₁ (i :: p) = .empty := hunused.mp hu
      have hdec := decode_leafEntry (P := PTE) page.size page.vaddr h.level paddr fl
      rw [← hpdef] at hdec
      have hlen₁ : (p.length + 1 == s₁.pt.level) = (p.length + 1 == s.pt.level) := by rw [hd.level]
      rw [← hlen₁] at hdec
      have hold : tree s₁ (i :: p) ≠ .table := by simp [he]
      have hnew : decode (p.length + 1 == s₁.pt.level) a ≠ .table := by rw [hdec]; simp
      have hpres := (leafEntry_spec (P := PTE) paddr fl page.size).2.1
      have hinv : (s₁.setEntry (entryPtr f i) a).Inv :=
        hd.inv.setEntry hp hold hnew (Or.inr hpres) fun hl hn =>
          absurd hn (tablePath_ne_nil (hd.level ▸ hl))
      have htree : tree (s₁.setEntry (entryPtr f i) a) = (tree s).insertLeaf q a := by
        rw [tree_setEntry hd.inv hp hold hnew, hdec, hd.insertLeaf, hq]
      have hclear : (tree s).Clear q := by
        refine ⟨hslot ▸ he, fun r b hr hb => ?_⟩
        rcases List.suffix_cons_iff.mp hr with rfl | hr
        · rw [← hslot, he] at hb
          cases hb
        · exact hd.noLeaf r b hr hb
      simp only [Bool.not_true, Bool.false_eq_true, if_false]
      rw [writeLeaf_run (mem_eq_zero hp he)]
      refine ⟨⟨hinv, hd.root, hd.level, ⟨hclear, hd.enough, trivial⟩, htree⟩, ?_⟩
      show s₁.free.length = _
      rw [hd.free, List.length_drop]
      rfl

/-! ## Unmapping one page -/

/-- Clearing an entry that is no table empties its slot. -/
theorem clear_setEntry (h : s.Inv) {p : Path} {f : Nat} {i : Fin entryCount}
    (hp : tableAt s p = some f) (hold : tree s (i :: p) ≠ .table) :
    (s.setEntry (entryPtr f i) (clear (s.mem (entryPtr f i)))).Inv ∧
      tree (s.setEntry (entryPtr f i) (clear (s.mem (entryPtr f i)))) =
        (tree s).removeLeaf (i :: p) := by
  have hdec : decode (p.length + 1 == s.pt.level) (clear (s.mem (entryPtr f i))) = .empty := by
    rw [clear_eq, decode_zero]
  have hnew : decode (p.length + 1 == s.pt.level) (clear (s.mem (entryPtr f i))) ≠ .table := by
    simp [hdec]
  have hu : isUnused (clear (s.mem (entryPtr f i))) = true := by rw [clear_eq, isUnused_iff]
  refine ⟨h.setEntry hp hold hnew (Or.inl hu) fun _ _ => hu, ?_⟩
  rw [tree_setEntry h hp hold hnew, hdec]
  funext r
  by_cases hr : r = i :: p <;> simp [Tree.removeLeaf, hr]

/-- Unmapping keeps the invariant, however it ends. -/
theorem unmapPage_inv (h : s.Inv) (va : Nat) :
    match (unmapPage va).run s with
    | .ok _ s' => s'.Inv ∧ s'.pt = s.pt
    | .error _ s' => s' = s := by
  simp only [unmapPage, EStateM.run]
  rcases getEntryMut_cases h va with ⟨ps, f, hget, hp, hslot⟩ | ⟨hget, -⟩
  · simp only [hget]
    split_ifs with hu
    · rfl
    · exact ⟨(clear_setEntry h hp hslot).1, rfl⟩
  · simp only [hget]

end Hvisor
