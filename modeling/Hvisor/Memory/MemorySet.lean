import Hvisor.Lib.SortedMap
import Hvisor.Memory.RegionMap

/-!
# Memory sets

A memory set of `memory/mm.rs`: the regions by their start, and the page table that maps them.
The frames and the rest of the memory belong to everyone, so between two operations of a memory
set the others may take and free frames and write outside its tables.

## Main definitions

* `MemorySet`, `MemorySet.new`, `MemorySet.insert`, `MemorySet.delete`, `MemorySet.clear`,
  `MemorySet.pageTableQuery`: the operations
* `MemorySet.Others`: what the others may do between two operations
* `MemorySet.Reachable`: the sets after calls that return
* `MemorySet.History`: the sets after successful calls
* `MemorySet.InsertAtomic`: a failing call of `insert` changes nothing

## Main results

* `MemorySet.Reachable.inv`: the tables of a reachable set are well formed
* `MemorySet.insertAtomic_iff`: when a failing call of `insert` changes nothing
-/

namespace Hvisor

open GenericPTE RadixTree

/-- A memory set, with the memory and the frames that its page table works on. -/
structure MemorySet (PTE : Type) where
  regions : SortedMap Nat MemoryRegion
  st : PtState PTE

/-- Computations of a memory set. -/
abbrev MemorySetM (PTE : Type) := EStateM (Fault HvError) (MemorySet PTE)

/-- A computation of the page table as one of the memory set. -/
def liftPt {PTE α : Type} (x : HvM PTE α) : MemorySetM PTE α := fun m =>
  match x m.st with
  | .ok a st => .ok a { m with st }
  | .error e st => .error e { m with st }

theorem liftPt_run {PTE : Type} (x : HvM PTE Unit) (m : MemorySet PTE) :
    (liftPt x).run m = match x.run m.st with
      | .ok _ st => .ok () { m with st }
      | .error e st => .error e { m with st } := by
  simp only [EStateM.run, liftPt]
  cases x m.st <;> rfl

/-- `Result::unwrap`. -/
def unwrap {σ α : Type} (x : EStateM (Fault HvError) σ α) : EStateM (Fault HvError) σ α := fun s =>
  match x s with
  | .ok a s' => .ok a s'
  | .error _ s' => .error .panic s'

namespace MemorySet

variable {PTE : Type} [GenericPTE PTE]

/-! ## Operations -/

/-- A memory set with a fresh root table; `none` is the failure of the assertion or of `expect`. -/
def new (ptLevel : Nat) (mem : Nat → PTE) (free : List Nat) : Option (MemorySet PTE) :=
  match free with
  | [] => none
  | root :: free =>
    if ptLevel = 3 ∨ ptLevel = 4 then
      some ⟨.empty, ⟨⟨root, ptLevel, []⟩, zeroFrame mem root, free⟩⟩
    else none

/-- No region overlaps; `none` is the overflow of an end. -/
def testFreeArea (self : MemorySet PTE) (other : MemoryRegion) : Option Bool :=
  let before := match self.regions.lastBelow other.start with
    | some (_, before) => before.isOverlapWith other
    | none => some false
  let after := match self.regions.firstFrom other.start with
    | some (_, after) => after.isOverlapWith other
    | none => some false
  match before with
  | none => none
  | some true => some false
  | some false => after.map fun overlap => !overlap

/-- Add a memory region to this set. -/
def insert (region : MemoryRegion) : MemorySetM PTE Unit := do
  hvAssert (isAligned region.start)
  hvAssert (isAligned region.size)
  if region.size = 0 then
    return ()
  match (← get).testFreeArea region with
  | none => throw .panic
  | some false => throw (hvErr .EINVAL)
  | some true =>
    liftPt (HvPageTable.map region)
    modify fun m => { m with regions := m.regions.insert region.start region }

/-- Find and remove the memory region that starts from `start`. -/
def delete (start : Nat) : MemorySetM PTE Unit := do
  match (← get).regions.get? start with
  | some region =>
    liftPt (HvPageTable.unmap region)
    modify fun m => { m with regions := m.regions.erase start }
  | none =>
    throw (hvErrMsg .EINVAL
      ("MemorySet::delete(): no memory region starts from " ++ hexStr start))

/-- The loop of `clear`. -/
def clearLoop : List MemoryRegion → MemorySetM PTE Unit
  | [] => return ()
  | region :: regions => do
    unwrap (liftPt (HvPageTable.unmap region))
    clearLoop regions

/-- All regions are unmapped. -/
def clear : MemorySetM PTE Unit := do
  clearLoop (← get).regions.values
  modify fun m => { m with regions := .empty }

/-- The answer of the page table for an address. -/
def pageTableQuery (self : MemorySet PTE) (vaddr : Nat) :
    Except (Fault PagingError) (Nat × MemFlags × PageSize) :=
  query self.st vaddr

/-! ## Runs -/

/-- What the others may do between two operations: they write outside the tables, and the frames
left are fresh ones. -/
structure Others (m m' : MemorySet PTE) : Prop where
  regions : m'.regions = m.regions
  pt : m'.st.pt = m.st.pt
  mem : ∀ f ∈ m.st.frames, ∀ i, m'.st.mem (entryPtr f i) = m.st.mem (entryPtr f i)
  free_frame : ∀ f ∈ m'.st.free, FrameAddr f ∧ f ∉ m.st.frames
  free_nodup : m'.st.free.Nodup

/-- The sets of the given level that inserting and deleting reach, by calls that return. -/
inductive Reachable (level : Nat) : MemorySet PTE → Prop
  | new {mem : Nat → PTE} {free : List Nat} {m : MemorySet PTE}
      (hframe : ∀ f ∈ free, FrameAddr f) (hnodup : free.Nodup)
      (h : new level mem free = some m) : Reachable level m
  | others {m m' : MemorySet PTE} (hm : Reachable level m) (h : Others m m') : Reachable level m'
  | insert {m m' : MemorySet PTE} {region : MemoryRegion} (hm : Reachable level m)
      (h : (insert region).run m = .ok () m' ∨ ∃ e, (insert region).run m = .error (.err e) m') :
      Reachable level m'
  | delete {m m' : MemorySet PTE} {start : Nat} (hm : Reachable level m)
      (h : (delete start).run m = .ok () m' ∨ ∃ e, (delete start).run m = .error (.err e) m') :
      Reachable level m'

/-- The sets of the given level after successful calls, inserting regions with the property. -/
inductive History (valid : MemoryRegion → Prop) (level : Nat) : MemorySet PTE → Prop
  | new {mem : Nat → PTE} {free : List Nat} {m : MemorySet PTE}
      (hframe : ∀ f ∈ free, FrameAddr f) (hnodup : free.Nodup)
      (h : new level mem free = some m) : History valid level m
  | others {m m' : MemorySet PTE} (hm : History valid level m) (h : Others m m') :
      History valid level m'
  | insert {m m' : MemorySet PTE} {region : MemoryRegion} (hm : History valid level m)
      (hvalid : valid region) (h : (insert region).run m = .ok () m') : History valid level m'
  | delete {m m' : MemorySet PTE} {start : Nat} (hm : History valid level m)
      (h : (delete start).run m = .ok () m') : History valid level m'

/-! ## One call -/

variable {m m' : MemorySet PTE} {region : MemoryRegion} {level : Nat}

theorem insert_unaligned
    (h : ¬ (isAligned region.start = true ∧ isAligned region.size = true)) :
    (insert region).run m = .error .panic m := by
  rw [not_and_or, Bool.not_eq_true, Bool.not_eq_true] at h
  rcases h with h | h
  · simp [insert, hvAssert, h, EStateM.run_bind, EStateM.run_throw]
  · cases hs : isAligned region.start <;>
      simp [insert, hvAssert, h, hs, EStateM.run_bind, EStateM.run_throw]

theorem insert_zero (hs : isAligned region.start = true) (h0 : region.size = 0) :
    (insert region).run m = .ok () m := by
  simp [insert, hvAssert, hs, h0, EStateM.run_pure]

/-- The call for an aligned region. -/
theorem insert_run (hs : isAligned region.start = true) (hz : isAligned region.size = true)
    (h0 : region.size ≠ 0) (m : MemorySet PTE) : (insert region).run m =
      match m.testFreeArea region with
      | none => .error .panic m
      | some false => .error (hvErr .EINVAL) m
      | some true =>
        match (mapLoop region region.start region.size).run m.st with
        | .ok _ st => .ok () ⟨m.regions.insert region.start region, st⟩
        | .error e st => .error e { m with st } := by
  have hmap : (HvPageTable.map region : HvM PTE Unit) =
      mapLoop region region.start region.size := by
    simp only [HvPageTable.map, hvAssert, hs, hz, if_true, pure_bind]
  simp only [insert, hvAssert, hs, hz, h0, if_true, if_false, pure_bind, EStateM.run_bind,
    EStateM.run_get]
  cases m.testFreeArea region with
  | none => rfl
  | some b =>
    cases b with
    | false => rfl
    | true =>
      simp only [EStateM.run_bind, hmap, liftPt_run]
      cases (mapLoop region region.start region.size).run m.st <;> rfl

/-- What a successful call did. -/
theorem insert_ok (h : (insert region).run m = .ok () m') :
    isAligned region.start = true ∧ isAligned region.size = true ∧
      (region.size = 0 ∧ m' = m ∨
        region.size ≠ 0 ∧ m.testFreeArea region = some true ∧
          ∃ st, (mapLoop region region.start region.size).run m.st = .ok () st ∧
            m' = ⟨m.regions.insert region.start region, st⟩) := by
  by_cases hal : isAligned region.start = true ∧ isAligned region.size = true
  swap
  · simp [insert_unaligned hal] at h
  obtain ⟨hs, hz⟩ := hal
  refine ⟨hs, hz, ?_⟩
  by_cases h0 : region.size = 0
  · rw [insert_zero hs h0, EStateM.Result.ok.injEq] at h
    exact Or.inl ⟨h0, h.2.symm⟩
  rw [insert_run hs hz h0] at h
  -- only a free area that was mapped to its end is a success
  cases hfree : m.testFreeArea region with
  | none => simp [hfree] at h
  | some free =>
    cases free with
    | false => simp [hfree] at h
    | true =>
      cases hrun : (mapLoop region region.start region.size).run m.st with
      | error e st => simp [hfree, hrun] at h
      | ok u st =>
        simp only [hfree, hrun, EStateM.Result.ok.injEq, true_and] at h
        exact Or.inr ⟨h0, rfl, st, rfl, h.symm⟩

/-- What a failing call did: nothing, or the part of the mapping that was made. -/
theorem insert_err {e : HvError} (h : (insert region).run m = .error (.err e) m') :
    isAligned region.start = true ∧ isAligned region.size = true ∧ region.size ≠ 0 ∧
      (m' = m ∨ m.testFreeArea region = some true ∧
        ∃ st, (mapLoop region region.start region.size).run m.st = .error (.err e) st ∧
          m' = { m with st }) := by
  by_cases hal : isAligned region.start = true ∧ isAligned region.size = true
  swap
  · simp [insert_unaligned hal] at h
  obtain ⟨hs, hz⟩ := hal
  by_cases h0 : region.size = 0
  · simp [insert_zero hs h0] at h
  refine ⟨hs, hz, h0, ?_⟩
  rw [insert_run hs hz h0] at h
  -- an area that is not free is an error before the table is touched
  cases hfree : m.testFreeArea region with
  | none => simp [hfree] at h
  | some free =>
    cases free with
    | false =>
      simp only [hfree, EStateM.Result.error.injEq] at h
      exact .inl h.2.symm
    | true =>
      cases hrun : (mapLoop region region.start region.size).run m.st with
      | ok u st => simp [hfree, hrun] at h
      | error e' st =>
        simp only [hfree, hrun, EStateM.Result.error.injEq] at h
        exact .inr ⟨rfl, st, by rw [h.1], h.2.symm⟩

theorem delete_run (start : Nat) (m : MemorySet PTE) : (delete start).run m =
      match m.regions.get? start with
      | none => .error (hvErrMsg .EINVAL
          ("MemorySet::delete(): no memory region starts from " ++ hexStr start)) m
      | some region =>
        match (unmapLoop region.start region.size).run m.st with
        | .ok _ st => .ok () ⟨m.regions.erase start, st⟩
        | .error e st => .error e { m with st } := by
  simp only [delete, EStateM.run_bind, EStateM.run_get]
  cases m.regions.get? start with
  | none => rfl
  | some region =>
    simp only [EStateM.run_bind, HvPageTable.unmap, liftPt_run]
    cases (unmapLoop region.start region.size).run m.st <;> rfl

/-- What a successful call of `delete` did. -/
theorem delete_ok {start : Nat} (h : (delete start).run m = .ok () m') :
    ∃ region st, m.regions.get? start = some region ∧
      (unmapLoop region.start region.size).run m.st = .ok () st ∧
        m' = ⟨m.regions.erase start, st⟩ := by
  rw [delete_run] at h
  cases hget : m.regions.get? start with
  | none => simp [hget] at h
  | some region =>
    cases hloop : (unmapLoop region.start region.size).run m.st with
    | error e st => simp [hget, hloop] at h
    | ok u st =>
      simp only [hget, hloop, EStateM.Result.ok.injEq, true_and] at h
      exact ⟨region, st, rfl, hloop, h.symm⟩

/-! ## Well-formed tables -/

variable [LawfulGenericPTE PTE]

/-- A root table without entries has no leaves below it. -/
theorem tree_of_zero_root {s : PtState PTE} (h : ∀ i, s.mem (entryPtr s.pt.root i) = zero) :
    ∀ p ≠ [], tree s p = .empty := by
  intro p hp
  obtain ⟨q, i, rfl⟩ := (List.eq_nil_or_concat p).resolve_left hp
  rw [List.concat_eq_append]
  have hi : tree s [i] = .empty := by rw [tree_cons (f := s.pt.root) rfl, h, decode_zero]
  have hne : tree s [i] ≠ .table := by simp [hi]
  by_cases hq : [i] = q ++ [i]
  · rw [← hq, hi]
  · exact (tree_wf s).empty_below hne (List.suffix_append q [i]) hq

theorem new_spec {mem : Nat → PTE} {free : List Nat} (hframe : ∀ f ∈ free, FrameAddr f)
    (hnodup : free.Nodup) (h : new level mem free = some m) :
    m.st.Inv ∧ m.st.pt.level = level ∧ m.regions = .empty ∧ ∀ q a, tree m.st q ≠ .leaf a := by
  unfold new at h
  cases free with
  | nil => simp at h
  | cons root free =>
    simp only [Option.ite_none_right_eq_some, Option.some.injEq] at h
    obtain ⟨hl, rfl⟩ := h
    have hzero : ∀ i : Fin entryCount, zeroFrame mem root (entryPtr root i) = zero := by
      intro i
      have hi := i.isLt
      simp only [entryCount] at hi
      rw [zeroFrame, if_pos]
      simp only [entryPtr, pageSize]
      omega
    set s : PtState PTE := ⟨⟨root, level, []⟩, zeroFrame mem root, free⟩ with hs
    have htree : ∀ p ≠ [], tree s p = .empty := tree_of_zero_root hzero
    -- the root is all zero, so it is the only table
    have htable : ∀ p f, tableAt s p = some f → p = [] ∧ f = root := by
      intro p f hp
      have hpnil : p = [] := by
        by_contra hne
        have := tree_eq_table.mpr ⟨f, hp⟩
        simp [htree p hne] at this
      subst hpnil
      exact ⟨rfl, (Option.some.inj hp).symm⟩
    have hmem : ∀ f ∈ s.frames, f = root := by simp [PtState.frames, hs]
    refine ⟨⟨hl, fun f hf => ?_, fun p f hp => ?_, fun p q f hp hq => ?_, fun p i f hp hne => ?_,
      fun _ i a hi => ?_, fun f hf => ?_, (List.nodup_cons.mp hnodup).2⟩, rfl, rfl,
      fun q a hq => ?_⟩
    · exact hmem f hf ▸ hframe root List.mem_cons_self
    · rw [(htable p f hp).2]
      exact List.mem_cons_self
    · rw [(htable p f hp).1, (htable q f hq).1]
    · exact absurd (htree _ (by simp)) hne
    · rw [htree _ (by simp)] at hi
      cases hi
    · refine ⟨hframe f (List.mem_cons_of_mem _ hf), fun hf' => ?_⟩
      exact (List.nodup_cons.mp hnodup).1 (hmem f hf' ▸ hf)
    · by_cases hq' : q = []
      · simp [hq', tree] at hq
      · rw [htree q hq'] at hq
        cases hq

omit [LawfulGenericPTE PTE] in
theorem Others.inv (h : Others m m') (hm : m.st.Inv) : m'.st.Inv :=
  hm.frame_rule h.pt h.mem h.free_frame h.free_nodup

omit [LawfulGenericPTE PTE] in
theorem Others.tree_eq (h : Others m m') (hm : m.st.Inv) : tree m'.st = tree m.st :=
  tree_frame hm h.pt h.mem

omit [LawfulGenericPTE PTE] in
/-- **However a call of `insert` ends**, the table is the one before, or what the mapping left. -/
theorem insert_table (region : MemoryRegion) (m : MemorySet PTE) :
    (endState ((insert region).run m)).st = m.st ∨
      region.start % 4096 = 0 ∧ region.size % 4096 = 0 ∧
        (endState ((insert region).run m)).st =
          endState ((mapLoop region region.start region.size).run m.st) := by
  by_cases hal : isAligned region.start = true ∧ isAligned region.size = true
  swap
  · rw [insert_unaligned hal]
    exact .inl rfl
  obtain ⟨hs, hz⟩ := hal
  by_cases h0 : region.size = 0
  · rw [insert_zero hs h0]
    exact .inl rfl
  rw [insert_run hs hz h0]
  cases m.testFreeArea region with
  | none => exact .inl rfl
  | some free =>
    cases free with
    | false => exact .inl rfl
    | true =>
      refine .inr ⟨isAligned_iff.mp hs, isAligned_iff.mp hz, ?_⟩
      simp only
      cases (mapLoop region region.start region.size).run m.st <;> rfl

omit [LawfulGenericPTE PTE] in
/-- **However a call of `delete` ends**, the table is the one before, or what unmapping left. -/
theorem delete_table (start : Nat) (m : MemorySet PTE) :
    (endState ((delete start).run m)).st = m.st ∨ ∃ region : MemoryRegion,
      (endState ((delete start).run m)).st =
        endState ((unmapLoop region.start region.size).run m.st) := by
  rw [delete_run]
  cases m.regions.get? start with
  | none => exact .inl rfl
  | some region =>
    refine .inr ⟨region, ?_⟩
    simp only
    cases (unmapLoop region.start region.size).run m.st <;> rfl

/-- A call keeps the tables well formed, however it ends. -/
theorem insert_inv (region : MemoryRegion) (hm : m.st.Inv) :
    (endState ((insert region).run m)).st.Inv := by
  rcases insert_table region m with h | ⟨hs, hz, h⟩
  · rw [h]
    exact hm
  · rw [h]
    exact mapLoop_inv region hm hs hz

theorem delete_inv (start : Nat) (hm : m.st.Inv) :
    (endState ((delete start).run m)).st.Inv := by
  rcases delete_table start m with h | ⟨region, h⟩
  · rw [h]
    exact hm
  · rw [h]
    exact (unmapLoop_inv hm).1

/-- **The tables of a reachable set are well formed.** -/
theorem Reachable.inv (h : Reachable level m) : m.st.Inv := by
  induction h with
  | new hframe hnodup h => exact (new_spec hframe hnodup h).1
  | others _ h ih => exact h.inv ih
  | @insert m m' region _ h ih =>
    have := insert_inv region ih
    rcases h with h | ⟨e, h⟩ <;> simpa [h] using this
  | @delete m m' start _ h ih =>
    have := delete_inv start ih
    rcases h with h | ⟨e, h⟩ <;> simpa [h] using this

/-! ## Failing calls -/

/-- A call of `insert` that fails leaves the regions and every answer as they were. -/
def InsertAtomic (m : MemorySet PTE) (region : MemoryRegion) : Prop :=
  ∀ e m', (insert region).run m = .error (.err e) m' →
    m'.regions = m.regions ∧ ∀ va, m'.pageTableQuery va = m.pageTableQuery va

/-- A mapped page is answered for, and an address under a clear slot is not. -/
theorem query_ne_of_leaf {s s' : PtState PTE} {p : Page} {a : PTE} (h : s.Inv) (h' : s'.Inv)
    (hl : s'.pt.level = s.pt.level) (hc : (tree s).Clear (p.slot s.pt.level))
    (ha : tree s' (p.slot s.pt.level) = .leaf a) : query s' p.vaddr ≠ query s p.vaddr := by
  have hn : ∀ ps b, tree s (pagePath s.pt.level ps p.vaddr) ≠ .leaf b := by
    intro ps b hb
    have hnone := (tree_wf s).lookup_of_clear hc (pagePath_suffix s.pt.level p.size p.vaddr)
    exact ((tree_wf s).lookup_eq_none.mp hnone) _ b (pagePath_suffix _ _ _) hb
  have ha' : tree s' (pagePath s'.pt.level p.size p.vaddr) = .leaf a := hl ▸ ha
  rw [query_notMapped h hn, query_leaf h' ha']
  cases flags a <;> simp

/-- **When a failing call changes nothing**: the call does not reach the table, or its first page
cannot be mapped, or all of them can. -/
theorem insertAtomic_iff (h : m.st.Inv) (hs : isAligned region.start = true)
    (hz : isAligned region.size = true) :
    m.InsertAtomic region ↔ region.size = 0 ∨ m.testFreeArea region ≠ some true ∨
      ¬ m.st.Room (region.pages.take 1) ∨ m.st.Room region.pages := by
  by_cases h0 : region.size = 0
  · simp [InsertAtomic, insert_zero hs h0, h0]
  by_cases hfree : m.testFreeArea region = some true
  swap
  · refine iff_of_true (fun e m' hrun => ?_) (Or.inr (Or.inl hfree))
    rw [insert_run hs hz h0] at hrun
    cases htest : m.testFreeArea region with
    | none => simp [htest] at hrun
    | some b =>
      cases b with
      | true => exact absurd htest hfree
      | false =>
        simp only [htest, EStateM.Result.error.injEq] at hrun
        exact ⟨by rw [hrun.2], fun va => by rw [hrun.2]⟩
  have hspec := mapLoop_spec region h (isAligned_iff.mp hs) (isAligned_iff.mp hz)
  have hpages : leavesFrom m.st.pt.level region region.start region.size =
      region.pages.map (@pageLeaf PTE _ m.st.pt.level region) := rfl
  have hinsert := insert_run hs hz h0 m
  simp only [h0, hfree, ne_eq, not_true_eq_false, false_or]
  simp only [hfree] at hinsert
  cases hrun : (mapLoop region region.start region.size).run m.st with
  | ok u st =>
    rw [hrun, hpages] at hspec
    refine iff_of_true (fun e m' he => ?_) (Or.inr ((fits_iff_room region).mp hspec.1.fits))
    simp [hinsert, hrun] at he
  | error e st =>
    rw [hrun] at hspec hinsert
    cases e with
    | panic =>
      rw [hpages] at hspec
      refine iff_of_true (fun e m' he => ?_) (Or.inr ((fits_iff_room region).mp hspec.1.fits))
      simp [hinsert] at he
    | err e =>
      obtain ⟨l₁, x, l₂, s₁, hl, hput, hsame, hfit⟩ := hspec
      rw [hpages] at hl
      have hall : ¬ m.st.Room region.pages := by
        rw [← fits_iff_room region, hl, List.append_cons]
        exact fun hf => hfit hf.of_append
      have hfirst : m.st.Room (region.pages.take 1) ↔ l₁ ≠ [] := by
        rw [← fits_iff_room region, List.map_take, hl]
        cases l₁ with
        | nil => simpa using hfit
        | cons y l₁ =>
          have hy : (tree m.st).Fits m.st.free.length [y] := ⟨hput.fits.1, hput.fits.2.1, trivial⟩
          simpa using hy
      simp only [hall, or_false, hfirst, not_not]
      constructor
      · intro hatomic
        by_contra hne
        obtain ⟨y, l, rfl⟩ := List.exists_cons_of_ne_nil hne
        -- the first page is mapped now, and was not
        obtain ⟨p, -, hp⟩ : ∃ p ∈ region.pages, pageLeaf m.st.pt.level region p = y :=
          List.mem_map.mp (hl ▸ List.mem_append_left _ List.mem_cons_self)
        have hc : (tree m.st).Clear (p.slot m.st.pt.level) := by
          have := hput.fits.1
          rwa [← hp] at this
        have hleaf : tree st (p.slot m.st.pt.level) = .leaf y.2 := by
          rw [hsame.leaves, hput.leaf_iff]
          exact Or.inl (hp ▸ List.mem_cons_self)
        have hlevel : st.pt.level = m.st.pt.level := hsame.level.trans hput.level
        exact query_ne_of_leaf h hsame.inv hlevel hc hleaf ((hatomic e _ hinsert).2 p.vaddr)
      · rintro rfl e' m' he
        obtain ⟨-, rfl⟩ : _ ∧ _ := by simpa [hinsert] using he
        refine ⟨rfl, SameLeaves.query h ⟨hsame.inv, hsame.root.trans hput.root,
          hsame.level.trans hput.level, fun r a => ?_⟩⟩
        rw [hsame.leaves, hput.leaf_iff]
        simp

end MemorySet

end Hvisor
