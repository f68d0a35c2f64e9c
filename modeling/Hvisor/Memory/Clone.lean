import Hvisor.Memory.Recorded
import Hvisor.Memory.Stage2Space
import Hvisor.Memory.Writes

/-!
# Cloned memory sets

A clone of a memory set has a root table of its own, with the entries of the original's, and the
regions of the original. The tables below the root are the original's: what is cleared in the clone
below its root is cleared in the original too.

## Main definitions

* `HvPageTable.cloneFrom`, `MemorySet.clone`: the clone
* `MemorySet.drop`: the end of a set
* `MemorySet.After`: the original, some calls later
* `MemorySet.CloneIndependent`: the end of the clone does not reach the original

## Main results

* `tree_sharedTable`: the clone, with the tables it shares, has the tree of the original
* `MemorySet.clone_clear`: what the original has lost after the clone was cleared
* `MemorySet.clone_independent_iff`: when a clone is independent
-/

namespace Hvisor

open GenericPTE RadixTree

variable {PTE : Type} [GenericPTE PTE]

/-- The memory with the table `src` copied to `dst`. -/
def copyTable (mem : Nat → PTE) (src dst : Nat) : Nat → PTE := fun a =>
  if dst ≤ a ∧ a < dst + pageSize then mem (src + (a - dst)) else mem a

/-- `clone_from`: clone only the top level page table mapping; `none` is the failure of `expect`.
The clonee does not track intermediate tables. -/
def HvPageTable.cloneFrom (src : PtState PTE) : Option (PtState PTE) :=
  match src.free with
  | [] => none
  | root :: free =>
    some ⟨⟨root, src.pt.level, []⟩, copyTable (zeroFrame src.mem root) src.pt.root root, free⟩

namespace MemorySet

/-- The clone of a memory set, with a root table of its own. -/
def clone (self : MemorySet PTE) : Option (MemorySet PTE) :=
  (HvPageTable.cloneFrom self.st).map fun st => ⟨self.regions, st⟩

/-- `drop`: the set is cleared, and its frames go back to the allocator. -/
def drop : MemorySetM PTE Unit := do
  clear
  modify fun m => { m with st := { m.st with free := m.st.frames ++ m.st.free } }

end MemorySet

/-! ## A table and the tables it shares -/

/-- The page table with other intermediate frames. -/
def PtState.withTables (s : PtState PTE) (l : List Nat) : PtState PTE :=
  { s with pt := { s.pt with intrmTables := l } }

/-- The result in a state that is changed. -/
def mapState {ε σ α : Type} (f : σ → σ) : EStateM.Result ε σ α → EStateM.Result ε σ α
  | .ok a s => .ok a (f s)
  | .error e s => .error e (f s)

section WithTables

variable {s : PtState PTE} {vaddr size : Nat} (l : List Nat)

/-- Unmapping does not read which frames the table tracks. -/
theorem unmapPage_withTables : (unmapPage vaddr).run (s.withTables l) =
    mapState (·.withTables l) ((unmapPage vaddr).run s) := by
  have hget : getEntryMut (s.withTables l) vaddr = getEntryMut s vaddr := rfl
  have hmem : (s.withTables l).mem = s.mem := rfl
  simp only [EStateM.run, unmapPage, hget, hmem]
  -- the walk and the write do not look at the frames that are tracked
  cases getEntryMut s vaddr with
  | error e => rfl
  | ok entry =>
    cases hu : isUnused (s.mem entry.1) with
    | true => simp only [hu, if_true, mapState]
    | false =>
      simp only [hu, Bool.false_eq_true, if_false, mapState]
      rfl

theorem unmapLoop_withTables : (unmapLoop vaddr size).run (s.withTables l) =
    mapState (·.withTables l) ((unmapLoop vaddr size).run s) := by
  -- both loops take the same steps, since a page is unmapped alike in both
  induction size using Nat.strong_induction_on generalizing vaddr s with
  | _ size ih =>
    simp only [EStateM.run] at ih ⊢
    rw [unmapLoop, unmapLoop]
    split_ifs with h0
    · rfl
    have hpage := @unmapPage_withTables PTE _ s vaddr l
    simp only [EStateM.run] at hpage
    simp only [liftPaging, hpage]
    cases unmapPage vaddr s with
    | error e s₁ => rfl
    | ok a s₁ =>
      have hpos := a.2.bytes_pos
      simp only [mapState]
      split_ifs
      · rfl
      · cases checkedAdd vaddr a.2.bytes with
        | none => rfl
        | some next => exact ih (size - a.2.bytes) (by omega)
      · rfl

end WithTables

section Shared

variable {s : PtState PTE} {g a : Nat} {free : List Nat} {i : Fin entryCount} {p : Path}

/-- The clone's table on frame `g`, counted as the owner of the tables that it shares. -/
def PtState.sharedTable (s : PtState PTE) (g : Nat) (free : List Nat) : PtState PTE :=
  ⟨⟨g, s.pt.level, s.pt.intrmTables⟩, copyTable (zeroFrame s.mem g) s.pt.root g, free⟩

variable (h : s.Inv) (hfree : s.free = g :: free)

/-- The copy writes the new root only. -/
theorem mem_sharedTable (ha : ¬ InFrame g a) : (s.sharedTable g free).mem a = s.mem a := by
  exact (if_neg ha).trans (if_neg ha)

include h hfree

/-- The entries of the new root are those of the old one. -/
theorem mem_sharedTable_root :
    (s.sharedTable g free).mem (entryPtr g i) = s.mem (entryPtr s.pt.root i) := by
  obtain ⟨hg, hnot⟩ := h.free_frame g (hfree ▸ List.mem_cons_self)
  have hroot := h.table_frame (p := []) rfl
  have hne : s.pt.root ≠ g := fun he => hnot (he ▸ List.mem_cons_self)
  have hoff : s.pt.root + (entryPtr g i - g) = entryPtr s.pt.root i := by
    simp only [entryPtr]
    omega
  refine (if_pos (inFrame_entryPtr g i)).trans ?_
  rw [hoff]
  exact if_neg (not_inFrame_entryPtr hroot hg.1 hne i)

/-- The entries of the tables are kept. -/
theorem mem_sharedTable_old {f : Nat} (hf : f ∈ s.frames) :
    (s.sharedTable g free).mem (entryPtr f i) = s.mem (entryPtr f i) := by
  obtain ⟨hg, hnot⟩ := h.free_frame g (hfree ▸ List.mem_cons_self)
  apply mem_sharedTable
  apply not_inFrame_entryPtr (h.frame f hf).1 hg.1
  rintro rfl
  exact hnot hf

/-- **Below the root the tables are shared.** -/
theorem tableAt_sharedTable (hp : p ≠ []) : tableAt (s.sharedTable g free) p = tableAt s p := by
  -- the first step is in the copied root, and the others in tables that both have
  induction p with
  | nil => exact absurd rfl hp
  | cons i p ih =>
    cases p with
    | nil =>
      have hmem := mem_sharedTable_root (i := i) h hfree
      simp only [tableAt]
      rw [show (s.sharedTable g free).pt.root = g from rfl, hmem]
      rfl
    | cons j p =>
      rw [tableAt_cons_bind, ih (List.cons_ne_nil j p), tableAt_cons_bind (s := s) (p := j :: p)]
      apply Option.bind_congr
      intro k hk
      rw [mem_sharedTable_old h hfree (h.owned _ k hk)]
      rfl

theorem tree_sharedTable : tree (s.sharedTable g free) = tree s := by
  funext q
  -- an entry of the root was copied; every other one lies in a table that is shared
  cases q with
  | nil => rfl
  | cons i q =>
    cases q with
    | nil =>
      have hmem := mem_sharedTable_root (i := i) h hfree
      simp only [tree, tableAt]
      rw [show (s.sharedTable g free).pt.root = g from rfl, hmem]
      rfl
    | cons j q =>
      rw [tree, tree, tableAt_sharedTable h hfree (List.cons_ne_nil j q)]
      cases hk : tableAt s (j :: q) with
      | none => rfl
      | some k =>
        simp only [mem_sharedTable_old h hfree (h.owned _ k hk)]
        rfl

theorem inv_sharedTable : (s.sharedTable g free).Inv := by
  obtain ⟨hg, hnot⟩ := h.free_frame g (hfree ▸ List.mem_cons_self)
  have hnodup : (g :: free).Nodup := hfree ▸ h.free_nodup
  have htable := fun p hp => @tableAt_sharedTable PTE _ s g free p h hfree hp
  have htree := tree_sharedTable h hfree
  have hintrm : ∀ f ∈ s.pt.intrmTables, f ∈ s.frames := fun f hf => List.mem_cons_of_mem _ hf
  -- no table below the root is the root
  have hbelow : ∀ q f, q ≠ [] → tableAt s q = some f → f ∈ s.pt.intrmTables := by
    intro q f hq hf
    refine (List.mem_cons.mp (h.owned q f hf)).resolve_left ?_
    rintro rfl
    exact hq (h.inj q [] _ hf rfl)
  -- a table of the clone is its new root or a table of the original below the root
  have hcases : ∀ q f, tableAt (s.sharedTable g free) q = some f →
      q = [] ∧ f = g ∨ q ≠ [] ∧ tableAt s q = some f := by
    intro q f hf
    by_cases hq : q = []
    · subst hq
      exact .inl ⟨rfl, (Option.some.inj hf).symm⟩
    · exact .inr ⟨hq, htable q hq ▸ hf⟩
  refine ⟨h.level, fun f hf => ?_, fun q f hf => ?_, fun q r f hq hr => ?_,
    fun q i f hq hne => ?_, fun hl i a hi => ?_, fun f hf => ?_, (List.nodup_cons.mp hnodup).2⟩
  · rcases List.mem_cons.mp hf with rfl | hf
    · exact hg
    · exact h.frame f (hintrm f hf)
  · rcases hcases q f hf with ⟨-, rfl⟩ | ⟨hq, hf⟩
    · exact List.mem_cons_self
    · exact List.mem_cons_of_mem _ (hbelow q f hq hf)
  · rcases hcases q f hq with ⟨rfl, rfl⟩ | ⟨hq, hf⟩ <;>
      rcases hcases r _ hr with ⟨rfl, hrf⟩ | ⟨hr, hrf⟩
    · rfl
    · exact absurd (h.owned r _ hrf) hnot
    · exact absurd (hrf ▸ h.owned q f hf) hnot
    · exact h.inj q r f hf hrf
  · rw [htree] at hne
    rcases hcases q f hq with ⟨rfl, rfl⟩ | ⟨-, hf⟩
    · rw [mem_sharedTable_root h hfree]
      exact h.present [] i _ rfl hne
    · rw [mem_sharedTable_old h hfree (h.owned q f hf)]
      exact h.present q i f hf hne
  · rw [htree] at hi
    exact h.top hl i a hi
  · obtain ⟨hframe, hfresh⟩ := h.free_frame f (hfree ▸ List.mem_cons_of_mem g hf)
    refine ⟨hframe, fun hin => ?_⟩
    rcases List.mem_cons.mp hin with rfl | hin
    · exact (List.nodup_cons.mp hnodup).1 hf
    · exact hfresh (hintrm f hin)

end Shared

namespace MemorySet

variable {m m' m'' c : MemorySet PTE} {g : Nat} {free : List Nat}

/-! ## Clearing the clone -/

/-- The set with other intermediate frames. -/
def withTables (m : MemorySet PTE) (l : List Nat) : MemorySet PTE :=
  { m with st := m.st.withTables l }

theorem clearLoop_withTables (l : List Nat) (regions : List MemoryRegion) :
    (clearLoop regions).run (m.withTables l) =
      mapState (·.withTables l) ((clearLoop regions).run m) := by
  induction regions generalizing m with
  | nil => rfl
  | cons region regions ih =>
    have hunmap := @unmapLoop_withTables PTE _ m.st region.start region.size l
    simp only [EStateM.run] at hunmap ih ⊢
    simp only [clearLoop, bind, EStateM.bind, unwrap, liftPt, HvPageTable.unmap, withTables, hunmap]
    cases unmapLoop region.start region.size m.st with
    | error e st => rfl
    | ok u st => exact @ih { m with st }

/-- Clearing does not read which frames the table tracks. -/
theorem clear_withTables (l : List Nat) :
    clear.run (m.withTables l) = mapState (·.withTables l) (clear.run m) := by
  have hloop := clearLoop_withTables (m := m) l m.regions.values
  have hregions : (m.withTables l).regions = m.regions := rfl
  simp only [clear, EStateM.run_bind, EStateM.run_get, hregions, hloop]
  cases (clearLoop m.regions.values).run m with
  | error e m' => rfl
  | ok u m' => rfl

/-- The clone of a set, as the table that it shares. -/
theorem clone_eq_some (hc : m.clone = some c) : ∃ g free, m.st.free = g :: free ∧
    c.withTables m.st.pt.intrmTables = ⟨m.regions, m.st.sharedTable g free⟩ ∧
    c.withTables [] = c ∧ c.st.pt.root = g := by
  simp only [clone, HvPageTable.cloneFrom] at hc
  cases hfree : m.st.free with
  | nil => simp [hfree] at hc
  | cons g free =>
    simp only [hfree, Option.map_some, Option.some.injEq] at hc
    subst hc
    exact ⟨g, free, rfl, rfl, rfl, rfl⟩

/-- The paths of the pages of the recorded regions that lie in tables below the root. -/
def sharedSlots (m : MemorySet PTE) : Set Path := {q | q ∈ m.slots ∧ 2 ≤ q.length}

/-- The set in the memory, and with the free frames, that another one has left. -/
def inMemory (m : MemorySet PTE) (mem : Nat → PTE) (free : List Nat) : MemorySet PTE :=
  ⟨m.regions, ⟨m.st.pt, mem, free⟩⟩

variable [LawfulGenericPTE PTE]

omit [LawfulGenericPTE PTE] in
/-- What the original has lost after the entries of the clone were cleared: up to what others may
do, the pages in the tables below the root. -/
theorem cleared_inMemory (h : m.st.Inv) (hfree : m.st.free = g :: free) {st : PtState PTE}
    (hcl : Cleared m.slots (m.st.sharedTable g free) st) {fr : List Nat}
    (hfr : ∀ f ∈ fr, FrameAddr f ∧ f ∉ m.st.frames) (hnodup : fr.Nodup) :
    ∃ m', Others m m' ∧ Cleared m.sharedSlots m'.st (m.inMemory st.mem fr).st := by
  obtain ⟨hg, hnot⟩ := h.free_frame g (hfree ▸ List.mem_cons_self)
  have hne : ∀ f ∈ m.st.frames, f ≠ g := fun f hf he => hnot (he ▸ hf)
  classical
  -- the new root is none of the original's tables, so what happens there is done by others
  let mem : Nat → PTE := fun a => if InFrame g a then st.mem a else m.st.mem a
  have hold : ∀ f ∈ m.st.frames, ∀ i, mem (entryPtr f i) = m.st.mem (entryPtr f i) := by
    intro f hf i
    exact if_neg (not_inFrame_entryPtr (h.frame f hf).1 hg.1 (hne f hf) i)
  have ho : Others m (m.inMemory mem fr) := ⟨rfl, rfl, hold, hfr, hnodup⟩
  have htable : ∀ p, tableAt (m.inMemory mem fr).st p = tableAt m.st p :=
    tableAt_frame h rfl hold
  refine ⟨m.inMemory mem fr, ho, rfl, rfl, fun p f i hp hip => ?_, fun a ha => ?_⟩
  · have hpne : p ≠ [] := by
      rintro rfl
      exact absurd hip.2 (by simp)
    apply hcl.zero p f i _ hip.1
    rw [tableAt_sharedTable h hfree hpne, ← htable]
    exact hp
  · show st.mem a = mem a
    by_cases hin : InFrame g a
    · exact (if_pos hin).symm
    · have hkept : (m.st.sharedTable g free).mem a = m.st.mem a := mem_sharedTable hin
      refine Eq.trans ?_ (hkept.trans (if_neg hin).symm)
      apply hcl.mem
      intro p f i hp hip
      by_cases hpne : p = []
      · -- an entry of the new root
        subst hpne
        obtain rfl : g = f := Option.some.inj hp
        rintro rfl
        exact hin (inFrame_entryPtr g i)
      · apply ha p f i _ ⟨hip, ?_⟩
        · rw [htable, ← tableAt_sharedTable h hfree hpne]
          exact hp
        · have := List.length_pos_iff.mpr hpne
          rw [List.length_cons]
          omega

/-- **Clearing the clone succeeds**, and the original loses the pages in the tables below the
root. -/
theorem clone_clear (h : m.Recorded) (hc : m.clone = some c) :
    ∃ g free st, m.st.free = g :: free ∧ clear.run c = .ok () ⟨.empty, st⟩ ∧ st.frames = [g] ∧
      st.free = free ∧
      Cleared m.slots (m.st.sharedTable g free) (st.withTables m.st.pt.intrmTables) := by
  obtain ⟨g, free, hfree, hshared, hnone, hroot⟩ := clone_eq_some hc
  -- with the shared tables counted as its own, the clone is a set like the original
  have hrec : Recorded ⟨m.regions, m.st.sharedTable g free⟩ := by
    refine Recorded.of_leaves h rfl ?_ (inv_sharedTable h.inv hfree) fun q a hq => ?_
    · rfl
    · rw [tree_sharedTable h.inv hfree]
      exact hq
  have hslots : slots ⟨m.regions, m.st.sharedTable g free⟩ = m.slots := rfl
  obtain ⟨st, hrun, hcl⟩ := hrec.clear_ok
  rw [← hshared, clear_withTables] at hrun
  -- the clone tracks no tables, and clearing it does not change that
  have hself := clear_withTables (m := c) []
  rw [hnone] at hself
  cases hc' : clear.run c with
  | error e c' =>
    rw [hc'] at hrun
    exact absurd hrun nofun
  | ok u c' =>
    rw [hc'] at hrun hself
    have hst := (EStateM.Result.ok.inj hrun).2
    have hempty := (EStateM.Result.ok.inj hself).2
    obtain ⟨regions, st'⟩ := c'
    obtain ⟨rfl, rfl⟩ := MemorySet.mk.inj hst
    refine ⟨g, free, st', hfree, rfl, ?_, hcl.free, hslots ▸ hcl⟩
    have hst' : st' = st'.withTables [] := (MemorySet.mk.inj hempty).2
    have hroot' : st'.pt.root = g := congrArg HvPageTable.root hcl.pt
    rw [hst', PtState.frames]
    exact congrArg (fun r => [r]) hroot'

/-! ## The original -/

/-- The set some calls later: its own calls that return, and writes of others outside of its
tables. -/
inductive After (m : MemorySet PTE) : MemorySet PTE → Prop
  | refl : After m m
  | others {m' m'' : MemorySet PTE} (h : After m m') (ho : Others m' m'') : After m m''
  | insert {m' m'' : MemorySet PTE} {region : MemoryRegion} (h : After m m')
      (hrun : (MemorySet.insert region).run m' = .ok () m'' ∨
        ∃ e, (MemorySet.insert region).run m' = .error (.err e) m'') : After m m''
  | delete {m' m'' : MemorySet PTE} {start : Nat} (h : After m m')
      (hrun : (MemorySet.delete start).run m' = .ok () m'' ∨
        ∃ e, (MemorySet.delete start).run m' = .error (.err e) m'') : After m m''

/-- The set answers as before, and a later `clear` or `drop` of it fails no `unwrap`. -/
structure Untouched (m m' : MemorySet PTE) : Prop where
  query : ∀ va, m'.pageTableQuery va = m.pageTableQuery va
  clear : ∀ m'', After m' m'' → isOk (clear.run m'') = true
  drop : ∀ m'', After m' m'' → isOk (drop.run m'') = true

/-- The set in what a computation of another one has left. -/
def sharing (m c : MemorySet PTE) : MemorySet PTE := m.inMemory c.st.mem c.st.free

/-- **The end of the clone does not reach the original**, be it cleared or dropped. -/
structure CloneIndependent (m c : MemorySet PTE) : Prop where
  clear : Untouched m (m.sharing (endState (clear.run c)))
  drop : Untouched m (m.sharing (endState (drop.run c)))

theorem Recorded.after (h : m.Recorded) (hafter : After m m') : m'.Recorded := by
  induction hafter with
  | refl => exact h
  | others _ ho ih => exact ih.others ho
  | insert _ hrun ih => exact ih.of_insert hrun
  | delete _ hrun ih => exact ih.delete hrun

omit [LawfulGenericPTE PTE] in
/-- Dropping a set is clearing it, as far as it can fail. -/
theorem drop_run (hrun : MemorySet.clear.run m = .ok () m') : drop.run m =
    .ok () { m' with st := { m'.st with free := m'.st.frames ++ m'.st.free } } := by
  simp only [drop, EStateM.run_bind, hrun, EStateM.run_modify]

theorem Untouched.of_others (h : m.Recorded) (ho : Others m m') : Untouched m m' := by
  have hsame : SameLeaves m.st m'.st := by
    refine ⟨ho.inv h.inv, congrArg HvPageTable.root ho.pt, congrArg HvPageTable.level ho.pt,
      fun q a => ?_⟩
    rw [ho.tree_eq h.inv]
  -- whatever calls follow, every recorded region is still mapped, so no `unwrap` fails
  have hok : ∀ m'', After m' m'' → ∃ st, MemorySet.clear.run m'' = .ok () ⟨.empty, st⟩ := by
    intro m'' hafter
    obtain ⟨st, hrun, -⟩ := ((h.others ho).after hafter).clear_ok
    exact ⟨st, hrun⟩
  refine ⟨hsame.query h.inv, fun m'' hafter => ?_, fun m'' hafter => ?_⟩
  · obtain ⟨st, hrun⟩ := hok m'' hafter
    rw [hrun]
    rfl
  · obtain ⟨st, hrun⟩ := hok m'' hafter
    rw [drop_run hrun]
    rfl

/-- **Where a page was cleared, the set answers differently.** -/
theorem not_untouched_of_slot (h : m.Recorded) (ho : Others m m') {A : Set Path}
    (hA : A ⊆ m.slots) (hc : Cleared A m'.st m''.st) {q : Path} (hq : q ∈ A) :
    ¬ Untouched m m'' := by
  intro hu
  have hrec := h.others ho
  have htree := ho.tree_eq h.inv
  have hlevel : m''.st.pt.level = m.st.pt.level :=
    (congrArg HvPageTable.level hc.pt).trans (congrArg HvPageTable.level ho.pt)
  have hleaves : Leaves m'.st A := fun q hq => by
    rw [htree]
    exact h.leaves q (hA hq)
  obtain ⟨r, hr, hslot⟩ := hA hq
  obtain ⟨x, hx, rfl⟩ := List.mem_map.mp hslot
  obtain ⟨p, hp, rfl⟩ := List.mem_map.mp hx
  have hleaf := h.leaf r hr _ hx
  -- the leaf of the page served its address, and no other leaf does
  have hnone : ∀ ps a, tree m''.st (pagePath m''.st.pt.level ps p.vaddr) ≠ .leaf a := by
    intro ps a ha
    rw [hlevel] at ha
    obtain ⟨hnot, ha⟩ := (hc.leaf_iff hrec.inv hleaves).mp ha
    rw [htree] at ha
    have hpath := (tree_wf m.st).leaf_unique hleaf ha (pagePath_suffix _ _ _)
      (pagePath_suffix _ _ _)
    exact hnot (hpath ▸ hq)
  -- the page was mapped, and after clearing it is not
  have hquery := hu.query p.vaddr
  rw [pageTableQuery, pageTableQuery, query_notMapped (hc.inv hrec.inv hleaves) hnone,
    query_leaf h.inv hleaf] at hquery
  split at hquery
  · cases hquery
  · cases hquery

omit [LawfulGenericPTE PTE] in
/-- The pages below the root are all but those of a gigabyte under a root of the third level. -/
theorem sharedSlots_eq_empty_iff (hl : m.st.pt.level = 3 ∨ m.st.pt.level = 4) :
    m.sharedSlots = ∅ ↔
      ∀ r, m.Has r → ∀ p ∈ r.pages, m.st.pt.level = 3 ∧ p.size = .Size1G := by
  -- the slot of a page is in the root table only for a gigabyte under three levels
  have hlen : ∀ p : Page, 2 ≤ (p.slot m.st.pt.level).length ↔
      ¬ (m.st.pt.level = 3 ∧ p.size = .Size1G) := by
    intro p
    have htop := topPath_length p.vaddr hl
    rw [Page.slot, pagePath, List.length_cons]
    cases p.size <;> simp only [tablePath, List.length_cons, reduceCtorEq, and_false, and_true,
      not_false_eq_true, iff_true] <;> omega
  constructor
  · intro hempty r hr p hp
    apply of_not_not
    intro hnot
    have hin : p.slot m.st.pt.level ∈ m.sharedSlots :=
      ⟨⟨r, hr, List.mem_map.mpr ⟨_, List.mem_map_of_mem hp, rfl⟩⟩, (hlen p).mpr hnot⟩
    rw [hempty] at hin
    exact hin.elim
  · intro hall
    ext q
    refine iff_of_false ?_ (Set.notMem_empty q)
    rintro ⟨⟨r, hr, hq⟩, hle⟩
    obtain ⟨x, hx, rfl⟩ := List.mem_map.mp hq
    obtain ⟨p, hp, rfl⟩ := List.mem_map.mp hx
    exact (hlen p).mp hle (hall r hr p hp)

/-- **A clone is independent exactly when every page of the recorded regions has its entry in the
root table**: a root of the third level, and pages of a gigabyte. -/
theorem clone_independent_iff {level : Nat} (h : Reachable level m) (hc : m.clone = some c) :
    CloneIndependent m c ↔
      ∀ r, m.Has r → ∀ p ∈ r.pages, m.st.pt.level = 3 ∧ p.size = .Size1G := by
  have hrec := h.recorded
  obtain ⟨g, free, st, hfree, hrun, hframes, hst, hcl⟩ := clone_clear hrec hc
  have hfr : ∀ f ∈ g :: free, FrameAddr f ∧ f ∉ m.st.frames := hfree ▸ hrec.inv.free_frame
  have hnodup : (g :: free).Nodup := hfree ▸ hrec.inv.free_nodup
  -- after `clear` the root frame is still the clone's; after `drop` it is free again
  obtain ⟨m₁, ho₁, hc₁⟩ := cleared_inMemory hrec.inv hfree hcl
    (fun f hf => hfr f (List.mem_cons_of_mem g hf)) (List.nodup_cons.mp hnodup).2
  obtain ⟨m₂, ho₂, hc₂⟩ := cleared_inMemory hrec.inv hfree hcl hfr hnodup
  have hclear : m.sharing (endState (MemorySet.clear.run c)) = m.inMemory st.mem free := by
    rw [hrun, ← hst]
    rfl
  have hdrop : m.sharing (endState (drop.run c)) = m.inMemory st.mem (g :: free) := by
    rw [drop_run hrun]
    show m.inMemory st.mem (st.frames ++ st.free) = _
    rw [hframes, hst]
    rfl
  rw [← sharedSlots_eq_empty_iff hrec.inv.level]
  constructor
  -- a page below the root would be gone for the original
  · intro hind
    apply Set.eq_empty_of_forall_notMem
    intro q hq
    have hsub : m.sharedSlots ⊆ m.slots := fun q hq => hq.1
    exact not_untouched_of_slot hrec ho₁ hsub hc₁ hq (hclear ▸ hind.clear)
  · intro hempty
    -- nothing of the original was cleared
    have hothers : ∀ {m' m'' : MemorySet PTE}, Others m m' → m''.regions = m.regions →
        Cleared m.sharedSlots m'.st m''.st → Others m m'' := by
      intro m' m'' ho hregions hc
      have hmem : m''.st.mem = m'.st.mem := by
        funext a
        apply hc.mem
        intro p f i _ hip
        rw [hempty] at hip
        exact hip.elim
      refine ⟨hregions, hc.pt.trans ho.pt, fun f hf i => ?_, hc.free ▸ ho.free_frame,
        hc.free ▸ ho.free_nodup⟩
      rw [hmem]
      exact ho.mem f hf i
    refine ⟨?_, ?_⟩
    · rw [hclear]
      exact .of_others hrec (hothers ho₁ rfl hc₁)
    · rw [hdrop]
      exact .of_others hrec (hothers ho₂ rfl hc₂)

/-- The clone of a set with a gigabyte in the root table. -/
theorem clone_independent_ram : ∃ c, ramSet.clone = some c ∧ CloneIndependent ramSet c := by
  have hreach : Reachable 3 ramSet := .insert
    (.new (frameAddr_of_lt (by decide)) (by decide) (new_freshSet 0x1000 someFrames.tail))
    (.inl (eq_ok_of_isOk ((MemorySet.insert ramRegion).run (freshSet 0x1000 someFrames.tail))
      (by decide +kernel)))
  obtain ⟨c, hc⟩ := Option.isSome_iff_exists.mp (by decide +kernel : ramSet.clone.isSome = true)
  have hpages : ∀ r ∈ ramSet.regions.values, ∀ p ∈ r.pages,
      ramSet.st.pt.level = 3 ∧ p.size = .Size1G := by decide +kernel
  exact ⟨c, hc, (clone_independent_iff hreach hc).mpr hpages⟩

/-- A fresh set after a page of four kilobytes was inserted. -/
def pageSet : MemorySet PageTableEntry :=
  endState ((MemorySet.insert lowPage).run (freshSet 0x1000 someFrames.tail))

/-- **The clone of a set with one small page is not independent**: when it is cleared, the page of
the original is gone. -/
theorem clone_not_independent :
    ¬ ∀ (level : Nat) (m c : MemorySet PageTableEntry), Reachable level m → m.clone = some c →
      CloneIndependent m c := by
  intro h
  have hreach : Reachable 3 pageSet := .insert
    (.new (frameAddr_of_lt (by decide)) (by decide) (new_freshSet 0x1000 someFrames.tail))
    (.inl (eq_ok_of_isOk ((MemorySet.insert lowPage).run (freshSet 0x1000 someFrames.tail))
      (by decide +kernel)))
  have hquery := (h 3 pageSet (pageSet.clone.get (by decide +kernel)) hreach
    (Option.some_get _).symm).clear.query 0
  have hmapped : (pageSet.pageTableQuery 0).isOk = true := by decide +kernel
  rw [← hquery] at hmapped
  exact absurd hmapped (by decide +kernel)

end MemorySet

end Hvisor
