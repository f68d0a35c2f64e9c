import Hvisor.Arch.LoongPages
import Hvisor.Arch.LoongPresence
import Hvisor.Memory.AddressSpace

/-!
# The address space of a zone on LoongArch

A memory set over the page tables of LoongArch: after any history of successful calls, the pages of
the tables are exactly those of the recorded regions.

## Main definitions

* `Loong.insert`, `Loong.delete`: the operations of a memory set
* `Loong.History`: the sets after successful calls
* `Loong.Synced`: the tables map exactly the recorded regions

## Main results

* `Loong.Synced.insert`, `Loong.Synced.delete`: the calls keep the tables in step
* `Loong.History.synced`: so does a history
* `Loong.Synced.pageAt_eq_some_iff`: what the pages of the tables are
-/

namespace Hvisor

namespace Loong

open BlockStore GenericPTE MemorySet

/-- A memory set over the page tables of LoongArch. -/
abbrev Gpm := MemorySet PageTableEntry

variable {m m' : Gpm} {region r : MemoryRegion} {st : State} {p : Path} {f start va : Nat}
  {e : PageTableEntry}

/-! ## Operations -/

/-- Add a memory region to this set. -/
def insert (region : MemoryRegion) : MemorySetM PageTableEntry Unit := do
  hvAssert (isAligned region.start)
  hvAssert (isAligned region.size)
  if region.size = 0 then
    return ()
  match (← get).testFreeArea region with
  | none => throw .panic
  | some false => throw (hvErr .EINVAL)
  | some true =>
    liftPt (map region)
    modify fun m => { m with regions := m.regions.insert region.start region }

/-- Find and remove the memory region that starts from `start`. -/
def delete (start : Nat) : MemorySetM PageTableEntry Unit := do
  match (← get).regions.get? start with
  | some region =>
    liftPt (unmap region)
    modify fun m => { m with regions := m.regions.erase start }
  | none =>
    throw (hvErrMsg .EINVAL
      ("MemorySet::delete(): no memory region starts from " ++ hexStr start))

/-- The sets after successful calls. The flags of the regions are ones that leave a mark. -/
inductive History : Gpm → Prop
  | new {mem : Nat → PageTableEntry} {free : List Nat} {st : State}
      (hframe : ∀ f ∈ free, IsFrame f) (hnodup : free.Nodup) (h : Loong.new mem free = some st) :
      History ⟨.empty, st⟩
  | others {m : Gpm} {st : State} (h : History m) (ho : Loong.Others m.st st) :
      History ⟨m.regions, st⟩
  | insert {m m' : Gpm} {region : MemoryRegion} (h : History m) (hmark : Marked region.flags)
      (hrun : (Loong.insert region).run m = .ok () m') : History m'
  | delete {m m' : Gpm} {start : Nat} (h : History m)
      (hrun : (Loong.delete start).run m = .ok () m') : History m'

/-! ## One call -/

/-- What a successful insertion did. -/
theorem insert_ok (hrun : (insert region).run m = .ok () m') :
    isAligned region.start = true ∧ isAligned region.size = true ∧
      (region.size = 0 ∧ m' = m ∨
        region.size ≠ 0 ∧ m.testFreeArea region = some true ∧
          ∃ st, (map region).run m.st = .ok () st ∧
            m' = ⟨m.regions.insert region.start region, st⟩) := by
  rw [insert] at hrun
  cases hs : isAligned region.start with
  | false => simp [hvAssert, hs, EStateM.run_bind, EStateM.run_throw] at hrun
  | true =>
    cases hz : isAligned region.size with
    | false => simp [hvAssert, hs, hz, EStateM.run_bind, EStateM.run_throw] at hrun
    | true =>
      simp only [hvAssert, hs, hz, if_true, pure_bind] at hrun
      refine ⟨rfl, rfl, ?_⟩
      split_ifs at hrun with h0
      · cases hrun
        exact .inl ⟨h0, rfl⟩
      simp only [EStateM.run_bind, EStateM.run_get] at hrun
      -- only a free area that was mapped to its end is a success
      cases hfree : m.testFreeArea region with
      | none => simp [hfree, EStateM.run_throw] at hrun
      | some free =>
        cases free with
        | false => simp [hfree, hvErr, EStateM.run_throw] at hrun
        | true =>
          simp only [hfree, EStateM.run_bind, liftPt_run] at hrun
          cases hmap : (map region).run m.st with
          | error e st => simp only [hmap, reduceCtorEq] at hrun
          | ok u st =>
            simp only [hmap, EStateM.run_modify, EStateM.Result.ok.injEq, true_and] at hrun
            exact .inr ⟨h0, rfl, st, rfl, hrun.symm⟩

/-- What a successful deletion did. -/
theorem delete_ok (hrun : (delete start).run m = .ok () m') :
    ∃ region st, m.regions.get? start = some region ∧ (unmap region).run m.st = .ok () st ∧
      m' = ⟨m.regions.erase start, st⟩ := by
  simp only [delete, EStateM.run_bind, EStateM.run_get] at hrun
  cases hget : m.regions.get? start with
  | none => simp [hget, hvErrMsg, EStateM.run_throw] at hrun
  | some region =>
    simp only [hget, EStateM.run_bind, liftPt_run] at hrun
    cases hunmap : (unmap region).run m.st with
    | error e st => simp only [hunmap, reduceCtorEq] at hrun
    | ok u st =>
      simp only [hunmap, EStateM.run_modify, EStateM.Result.ok.injEq, true_and] at hrun
      exact ⟨region, st, rfl, hunmap, hrun.symm⟩

/-! ## Others -/

section Others

variable {s s' : State}

/-- The way to a table reads entries of tables only, which the others keep. -/
theorem Others.tableAt_eq (ho : Loong.Others s s') (h : Inv s) (p : Path) :
    tableAt s' p = tableAt s p := by
  induction p with
  | nil => exact congrArg (fun pt => some pt.root) ho.pt
  | cons i p ih =>
    rw [tableAt, tableAt, ih]
    apply Option.bind_congr
    intro f hf
    rw [ho.mem f (h.owned p f hf)]

theorem Others.pageAt_eq (ho : Loong.Others s s') (h : Inv s) : pageAt s' = pageAt s := by
  funext p
  cases p with
  | nil => rfl
  | cons i p =>
    rw [pageAt, pageAt, ho.tableAt_eq h]
    congr 1
    apply Option.bind_congr
    intro f hf
    rw [ho.mem f (h.owned p f hf)]

theorem Others.inv (ho : Loong.Others s s') (h : Inv s) : Inv s' := by
  have hframes : s'.frames = s.frames := by simp only [PtState.frames, ho.pt]
  refine ⟨?_, fun p f hp => ?_, fun p q f hp hq => ?_, ?_, ho.free_nodup⟩
  · rw [hframes]
    exact h.frame
  · rw [ho.tableAt_eq h] at hp
    rw [hframes]
    exact h.owned p f hp
  · rw [ho.tableAt_eq h] at hp hq
    exact h.inj p q f hp hq
  · rw [hframes]
    exact ho.free_frame

end Others

/-! ## The tables in step with the regions -/

/-- **The tables map exactly the recorded regions.** -/
structure Synced (m : Gpm) : Prop where
  inv : Inv m.st
  wf : m.WellFormed
  holds : Holds pagePath addresses regionEntry {r | m.Has r} (pageAt m.st)

/-- The addresses of a recorded region are in tables. -/
theorem Synced.table (h : Synced m) (hr : m.Has r) (hva : r.Mem va) :
    ∃ f, tableAt m.st (tablePath va) = some f :=
  table_of_pageAt (h.holds.eq_some hr hva)

/-- A new set is empty. -/
theorem synced_new {mem : Nat → PageTableEntry} {free : List Nat} (hframe : ∀ f ∈ free, IsFrame f)
    (hnodup : free.Nodup) (hnew : Loong.new mem free = some st) : Synced ⟨.empty, st⟩ := by
  have hacc := accounted_new hframe hnodup hnew
  have hnone : ∀ r, ¬ Has (⟨.empty, st⟩ : Gpm) r := by
    intro r hr
    rw [Has, SortedMap.mem_values] at hr
    obtain ⟨k, hk⟩ := hr
    exact SortedMap.not_mem_empty hk
  refine ⟨hacc.inv, ⟨fun k r hr => ?_, fun r hr => absurd hr (hnone r),
    fun r hr => absurd hr (hnone r), fun r hr => absurd hr (hnone r),
    fun r _ hr => absurd hr (hnone r)⟩, ?_⟩
  · exact absurd (SortedMap.mem_values.mpr ⟨k, hr⟩) (hnone r)
  · have hempty : {r | Has (⟨.empty, st⟩ : Gpm) r} = ∅ := Set.eq_empty_of_forall_notMem hnone
    rw [hempty]
    refine .empty fun q => ?_
    -- no page is in use, since no region is mapped
    cases q with
    | nil => rfl
    | cons i p =>
      rw [pageAt]
      split_ifs with hlen
      · apply Option.eq_none_iff_forall_ne_some.mpr
        intro e he
        obtain ⟨f, hf, hin⟩ := Option.bind_eq_some_iff.mp he
        rw [inUse] at hin
        split_ifs at hin with hu
        obtain ⟨va, hva, -⟩ := hacc.page (i :: p) ⟨hlen, f, hf, (Bool.not_eq_true _).mp hu⟩
        exact hva
      · rfl

/-- **A successful insertion** keeps the tables in step, and records the region, if it is not
empty. -/
theorem Synced.insert (h : Synced m) (hmark : Marked region.flags)
    (hrun : (Loong.insert region).run m = .ok () m') :
    Synced m' ∧ ∀ r, m'.Has r ↔ m.Has r ∨ region.size ≠ 0 ∧ r = region := by
  obtain ⟨hs, hz, ⟨h0, rfl⟩ | ⟨h0, hfree, st, hmap, rfl⟩⟩ := insert_ok hrun
  · exact ⟨h, fun r => by simp [h0]⟩
  obtain ⟨hfills, hend⟩ := map_fills hmark h.inv hmap
  have hend : region.start + region.size < usizeSize := hend.resolve_left h0
  have hkept := kept_map region h.inv
  rw [hmap] at hkept
  -- `test_free_area` has said that nothing overlaps
  have hd : ∀ r, m.Has r → r.Disjoint region := (h.wf.testFreeArea_iff hend).mp hfree
  have hhas : ∀ r, Has ⟨m.regions.insert region.start region, st⟩ r ↔ r = region ∨ m.Has r :=
    fun r => h.wf.has_insert hd h0
  refine ⟨⟨hkept.1.inv, h.wf.insert ⟨isAligned_iff.mp hs, isAligned_iff.mp hz⟩ h0 hend hd, ?_⟩,
    fun r => ?_⟩
  · have hset : {r | Has ⟨m.regions.insert region.start region, st⟩ r} =
        Insert.insert region {r | m.Has r} := Set.ext hhas
    rw [hset]
    exact h.holds.fill hfills
  · rw [hhas]
    constructor
    · rintro (rfl | hr)
      · exact .inr ⟨h0, rfl⟩
      · exact .inl hr
    · rintro (hr | ⟨-, rfl⟩)
      · exact .inr hr
      · exact .inl rfl

/-- **A successful deletion** keeps the tables in step. -/
theorem Synced.delete (h : Synced m) (hrun : (Loong.delete start).run m = .ok () m') :
    Synced m' := by
  obtain ⟨region, st, hget, hunmap, rfl⟩ := delete_ok hrun
  have hentry := SortedMap.get?_eq_some.mp hget
  have hr : m.Has region := SortedMap.mem_values.mpr ⟨start, hentry⟩
  obtain rfl : start = region.start := h.wf.key start region hentry
  have htable : ∀ va ∈ addresses region, ∃ f, tableAt m.st (tablePath va) = some f :=
    fun va hva => h.table hr hva
  have hkept := kept_unmap region h.inv htable
  rw [hunmap] at hkept
  refine ⟨hkept.1.inv, h.wf.erase hr, ?_⟩
  have hhas : {r | Has ⟨m.regions.erase region.start, st⟩ r} = {r | m.Has r} \ {region} :=
    Set.ext fun r => h.wf.has_erase hr
  rw [hhas]
  exact h.holds.clear hr (unmap_clears h.inv htable hunmap)

theorem Synced.others (h : Synced m) (ho : Loong.Others m.st st) : Synced ⟨m.regions, st⟩ := by
  refine ⟨ho.inv h.inv, ⟨h.wf.key, h.wf.aligned, h.wf.nonempty, h.wf.bound, h.wf.disjoint⟩, ?_⟩
  rw [ho.pageAt_eq h.inv]
  exact h.holds

/-- **After any history of successful calls the tables map the recorded regions.** -/
theorem History.synced (h : History m) : Synced m := by
  induction h with
  | new hframe hnodup hnew => exact synced_new hframe hnodup hnew
  | others _ ho ih => exact ih.others ho
  | insert _ hmark hrun ih => exact (ih.insert hmark hrun).1
  | delete _ hrun ih => exact ih.delete hrun

/-- **The pages of the tables** are those of the regions, by the 48 bits of an address that the walk
reads. -/
theorem Synced.pageAt_eq_some_iff (h : Synced m) {gpa : Nat} :
    pageAt m.st (pagePath gpa) = some e ↔
      ∃ r va, m.Has r ∧ r.Mem va ∧ va % 2 ^ 48 = gpa % 2 ^ 48 ∧ regionEntry r va = e := by
  rw [h.holds.eq_some_iff]
  constructor
  · rintro ⟨r, hr, va, hva, hpath, rfl⟩
    -- the address of the page with the offset of this one is in the region too
    have hpage := pagePath_eq_iff.mp hpath
    have hal := h.wf.aligned r hr
    have hlo := hva.1
    have hhi := hva.2
    refine ⟨r, va - va % 4096 + gpa % 4096, hr, ⟨by omega, by omega⟩, by omega, ?_⟩
    have hsame : va - va % 4096 + gpa % 4096 - (va - va % 4096 + gpa % 4096) % 4096 =
        va - va % 4096 := by omega
    rw [regionEntry, regionEntry, hsame]
  · rintro ⟨r, va, hr, hva, hmod, rfl⟩
    exact ⟨r, hr, va, hva, pagePath_eq_iff.mpr (by rw [hmod]), rfl⟩

end Loong

end Hvisor
