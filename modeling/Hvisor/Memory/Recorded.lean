import Hvisor.Memory.Growth

/-!
# The recorded regions are mapped

A call of `insert` that fails may leave pages behind that no recorded region has, so the table can
map more than the recorded regions. That the recorded ones are mapped holds after any calls, and it
is enough for clearing the set.

## Main definitions

* `MemorySet.Recorded`: the recorded regions are mapped
* `MemorySet.slots`: the paths of their pages

## Main results

* `MemorySet.Reachable.recorded`: the recorded regions of a reachable set are mapped
* `MemorySet.Recorded.clear_ok`: clearing succeeds, and clears the entries of their pages
-/

namespace Hvisor

open GenericPTE RadixTree

namespace MemorySet

variable {PTE : Type} [GenericPTE PTE] {m m' : MemorySet PTE} {region r : MemoryRegion}
  {level : Nat}

/-- **The recorded regions are mapped**, each by pages of its own. -/
structure Recorded (m : MemorySet PTE) : Prop where
  inv : m.st.Inv
  wf : m.WellFormed
  leaf : ∀ r, m.Has r → ∀ x ∈ m.leavesOf r, tree m.st x.1 = .leaf x.2
  nodup : ∀ r, m.Has r → ((m.leavesOf r).map Prod.fst).Nodup
  apart : ∀ r r' q a a', m.Has r → m.Has r' → (q, a) ∈ m.leavesOf r → (q, a') ∈ m.leavesOf r' →
    r = r'

/-- The paths of the pages of a region. -/
def slotsOf (m : MemorySet PTE) (r : MemoryRegion) : Set Path :=
  {q | q ∈ (m.leavesOf r).map Prod.fst}

/-- The paths of the pages of the recorded regions. -/
def slots (m : MemorySet PTE) : Set Path := {q | ∃ r, m.Has r ∧ q ∈ m.slotsOf r}

theorem Recorded.leaves (h : m.Recorded) : Leaves m.st m.slots := by
  rintro q ⟨r, hr, hq⟩
  obtain ⟨x, hx, rfl⟩ := List.mem_map.mp hq
  exact ⟨x.2, h.leaf r hr x hx⟩

theorem Synced.recorded (h : m.Synced) : m.Recorded :=
  ⟨h.inv, h.wf, fun r hr x hx => (h.leaves x.1 x.2).mpr ⟨r, hr, hx⟩, h.nodup, h.apart⟩

/-- A set with the same regions, on a table of the same level that has lost no leaf. -/
theorem Recorded.of_leaves (h : m.Recorded) (hregions : m'.regions = m.regions)
    (hlevel : m'.st.pt.level = m.st.pt.level) (hinv : m'.st.Inv)
    (hleaf : ∀ q a, tree m.st q = .leaf a → tree m'.st q = .leaf a) : m'.Recorded := by
  have hhas : ∀ r, m'.Has r ↔ m.Has r := fun r => by rw [Has, Has, hregions]
  have hleaves : ∀ r, m'.leavesOf r = m.leavesOf r := fun r => by rw [leavesOf, leavesOf, hlevel]
  have hwf := h.wf
  refine ⟨hinv, ⟨?_, ?_, ?_, ?_, ?_⟩, fun r hr x hx => ?_, fun r hr => ?_, fun r r' q a a' => ?_⟩
  · exact hregions ▸ hwf.key
  · exact fun r hr => hwf.aligned r ((hhas r).mp hr)
  · exact fun r hr => hwf.nonempty r ((hhas r).mp hr)
  · exact fun r hr => hwf.bound r ((hhas r).mp hr)
  · exact fun r r' hr hr' => hwf.disjoint r r' ((hhas r).mp hr) ((hhas r').mp hr')
  · rw [hleaves] at hx
    exact hleaf _ _ (h.leaf r ((hhas r).mp hr) x hx)
  · rw [hleaves]
    exact h.nodup r ((hhas r).mp hr)
  · simp only [hhas, hleaves]
    exact h.apart r r' q a a'

theorem Recorded.others (h : m.Recorded) (ho : Others m m') : m'.Recorded := by
  apply h.of_leaves ho.regions (congrArg HvPageTable.level ho.pt) (ho.inv h.inv)
  intro q a hq
  rw [ho.tree_eq h.inv]
  exact hq

variable [LawfulGenericPTE PTE]

/-- **A successful insertion** adds a region that is mapped. -/
theorem Recorded.insert (h : m.Recorded) (hrun : (insert region).run m = .ok () m') :
    m'.Recorded := by
  have hgrows := Grows.of_insert h.inv (.inl hrun)
  have hmaps := Maps.of_insert h.inv hrun
  rcases inserted_of_run h.inv h.wf hrun with rfl | hi
  · exact h
  refine ⟨hi.put.inv, hi.wf, fun r hr x hx => ?_, fun r hr => hi.nodup h.nodup hr,
    fun r r' q a a' hr hr' hq hq' => hi.apart h.leaf h.apart hr hr' hq hq'⟩
  -- the new region was mapped, and the leaves of the others are kept
  rcases (hi.has r).mp hr with rfl | hr
  · exact hmaps.leaf x hx
  · rw [hi.leavesOf_eq] at hx
    exact hgrows.leaf _ _ (h.leaf r hr x hx)

/-- **A call of `insert`** that returns records a region that is mapped, or nothing. -/
theorem Recorded.of_insert (h : m.Recorded)
    (hrun : (MemorySet.insert region).run m = .ok () m' ∨
      ∃ e, (MemorySet.insert region).run m = .error (.err e) m') : m'.Recorded := by
  rcases hrun with hrun | ⟨e, hrun⟩
  · exact h.insert hrun
  -- a failed insertion may leave some pages, but takes none away
  · have hgrows := Grows.of_insert h.inv (.inr ⟨e, hrun⟩)
    have hregions : m'.regions = m.regions := by
      obtain ⟨-, -, -, rfl | ⟨-, st, -, rfl⟩⟩ := insert_err hrun <;> rfl
    exact h.of_leaves hregions hgrows.level hgrows.inv hgrows.leaf

/-- **Unmapping a recorded region** succeeds, and clears the entries of its pages. -/
theorem Recorded.unmap (h : m.Recorded) (hr : m.Has region) :
    ∃ st, (unmapLoop region.start region.size).run m.st = .ok () st ∧
      Cleared (m.slotsOf region) m.st st ∧ Recorded ⟨m.regions.erase region.start, st⟩ := by
  obtain ⟨st, hrun, hc⟩ := unmapLoop_cleared region h.inv (h.wf.aligned region hr).1
    (h.wf.aligned region hr).2 (h.wf.bound region hr) (h.leaf region hr) (h.nodup region hr)
  have hA : Leaves m.st (m.slotsOf region) := fun q hq => h.leaves q ⟨region, hr, hq⟩
  have hhas : ∀ r, Has ⟨m.regions.erase region.start, st⟩ r ↔ m.Has r ∧ r ≠ region :=
    fun r => h.wf.has_erase hr
  have hleaves : ∀ r, leavesOf ⟨m.regions.erase region.start, st⟩ r = m.leavesOf r :=
    fun r => by simp only [leavesOf, hc.pt]
  refine ⟨st, hrun, hc, hc.inv h.inv hA, h.wf.erase hr, fun r hr' x hx => ?_, fun r hr' => ?_,
    fun r r' q a a' hr₁ hr₂ hq hq' => ?_⟩
  · obtain ⟨hm, hne⟩ := (hhas r).mp hr'
    rw [hleaves] at hx
    -- a path belongs to one region, so the others lose nothing
    refine (hc.leaf_iff h.inv hA).mpr ⟨fun hin => hne ?_, h.leaf r hm x hx⟩
    obtain ⟨y, hy, hyx⟩ := List.mem_map.mp hin
    exact h.apart r region x.1 x.2 y.2 hm hr hx (hyx ▸ hy)
  · rw [hleaves]
    exact h.nodup r ((hhas r).mp hr').1
  · rw [hleaves] at hq hq'
    exact h.apart r r' q a a' ((hhas r).mp hr₁).1 ((hhas r').mp hr₂).1 hq hq'

/-- **A call of `delete`** that returns removes a region or nothing. -/
theorem Recorded.delete (h : m.Recorded) {start : Nat}
    (hrun : (delete start).run m = .ok () m' ∨ ∃ e, (delete start).run m = .error (.err e) m') :
    m'.Recorded := by
  rw [delete_run] at hrun
  -- no region starts there, which is an error, or the region is unmapped
  cases hget : m.regions.get? start with
  | none =>
    rw [hget] at hrun
    obtain hrun | ⟨e, hrun⟩ := hrun
    · exact absurd hrun nofun
    · rw [← (EStateM.Result.error.inj hrun).2]
      exact h
  | some r =>
    have hr : m.Has r := SortedMap.mem_values.mpr ⟨start, SortedMap.get?_eq_some.mp hget⟩
    obtain rfl : start = r.start := h.wf.key start r (SortedMap.get?_eq_some.mp hget)
    obtain ⟨st, hloop, -, herase⟩ := h.unmap hr
    simp only [hget, hloop] at hrun
    obtain hrun | ⟨e, hrun⟩ := hrun
    · rw [← (EStateM.Result.ok.inj hrun).2]
      exact herase
    · exact absurd hrun nofun

/-- **The recorded regions of a reachable set are mapped.** -/
theorem Reachable.recorded (h : Reachable level m) : m.Recorded := by
  induction h with
  | new hframe hnodup h => exact (synced_new hframe hnodup h).recorded
  | others _ ho ih => exact ih.others ho
  | insert _ hrun ih => exact ih.of_insert hrun
  | delete _ hrun ih => exact ih.delete hrun

omit [LawfulGenericPTE PTE] in
/-- The slots of a region and of the others. -/
theorem slots_erase (h : m.WellFormed) (hr : m.Has region) {st : PtState PTE}
    (hpt : st.pt = m.st.pt) :
    m.slotsOf region ∪ slots ⟨m.regions.erase region.start, st⟩ = m.slots := by
  have hhas : ∀ r, Has ⟨m.regions.erase region.start, st⟩ r ↔ m.Has r ∧ r ≠ region :=
    fun r => h.has_erase hr
  have hslots : ∀ r, slotsOf ⟨m.regions.erase region.start, st⟩ r = m.slotsOf r :=
    fun r => by simp only [slotsOf, leavesOf, hpt]
  ext q
  constructor
  · rintro (hq | ⟨r, hr', hq⟩)
    · exact ⟨region, hr, hq⟩
    · exact ⟨r, ((hhas r).mp hr').1, hslots r ▸ hq⟩
  · rintro ⟨r, hr', hq⟩
    by_cases hne : r = region
    · exact .inl (hne ▸ hq)
    · exact .inr ⟨r, (hhas r).mpr ⟨hr', hne⟩, (hslots r).symm ▸ hq⟩

omit [LawfulGenericPTE PTE] in
theorem slots_empty (st : PtState PTE) : slots ⟨.empty, st⟩ = ∅ := by
  ext q
  refine iff_of_false ?_ (Set.notMem_empty q)
  rintro ⟨r, hr, -⟩
  obtain ⟨k, hk⟩ := SortedMap.mem_values.mp hr
  exact SortedMap.not_mem_empty hk

/-- **Clearing** succeeds, and clears the entries of the pages of the recorded regions. -/
theorem Recorded.clear_ok (h : m.Recorded) :
    ∃ st, clear.run m = .ok () ⟨.empty, st⟩ ∧ Cleared m.slots m.st st := by
  -- what was cleared so far are the slots of the regions that are not recorded any more
  let P : MemorySet PTE → Prop := fun m₁ =>
    m₁.Recorded ∧ ∃ A, Cleared A m.st m₁.st ∧ A ∪ m₁.slots = m.slots
  have hunmap : ∀ m₁ r, P m₁ → m₁.Has r → ∃ st,
      (unmapLoop r.start r.size).run m₁.st = .ok () st ∧ P ⟨m₁.regions.erase r.start, st⟩ := by
    rintro m₁ r ⟨h₁, A, hc, hall⟩ hr
    obtain ⟨st, hrun, hc₁, herase⟩ := h₁.unmap hr
    have hA : Leaves m.st A := fun q hq => h.leaves q (hall ▸ .inl hq)
    refine ⟨st, hrun, herase, A ∪ m₁.slotsOf r, hc.trans h.inv hA hc₁, ?_⟩
    rw [Set.union_assoc, slots_erase h₁.wf hr hc₁.pt, hall]
  obtain ⟨st, hrun, -, A, hc, hall⟩ := clear_of (P := P) (fun _ h => h.1.wf) hunmap
    ⟨h, ∅, .refl _, Set.empty_union _⟩
  rw [slots_empty, Set.union_empty] at hall
  exact ⟨st, hrun, hall ▸ hc⟩

end MemorySet

end Hvisor
