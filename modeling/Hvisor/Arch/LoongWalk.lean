import Hvisor.Arch.LoongPaging
import Hvisor.Memory.Writes

/-!
# What the calls of LoongArch keep

The calls that map and unmap keep the tables of LoongArch as long as they stay where tables were
made: a call of `map` makes tables and pages at the paths of its region, and one of `unmap` clears
pages.

## Main definitions

* `Loong.Inv`: the invariant of the tables
* `Loong.PageInUse`: the pages in use, by their paths
* `Loong.Kept`: what a call keeps

## Main results

* `Loong.tableAt_addTable`, `Loong.tableAt_setPage`: the tables after one write
* `Loong.kept_map`, `Loong.kept_unmap`: what the calls keep, however they end
-/

namespace Hvisor

namespace Loong

open GenericPTE

variable {s s' s'' : State} {p q : Path} {i j : Fin entryCount} {f g k va vaddr size : Nat}

/-! ## Frames and entries -/

/-- A frame of the pool: a physical page, with the prefix of the window. -/
def IsFrame (f : Nat) : Prop :=
  ∃ pa, pa % 4096 = 0 ∧ pa < 2 ^ 48 ∧ f = LOONGARCH64_CACHED_DMW_PREFIX + pa

theorem IsFrame.mod (h : IsFrame f) : f % 4096 = 0 := by
  obtain ⟨pa, hpa, -, rfl⟩ := h
  unfold LOONGARCH64_CACHED_DMW_PREFIX
  omega

theorem isUnused_iff (e : PageTableEntry) : isUnused e = true ↔ e = zero := by
  show (e.bits == 0) = true ↔ e = ⟨0⟩
  rw [beq_iff_eq]
  constructor
  · intro h
    rw [← h]
  · rintro rfl
    rfl

/-- The prefix and the address of a frame share no bit. -/
theorem prefix_add {pa : Nat} (h : pa < 2 ^ 48) :
    LOONGARCH64_CACHED_DMW_PREFIX + pa = pa ||| LOONGARCH64_CACHED_DMW_PREFIX := by
  have hor := Nat.two_pow_add_eq_or_of_lt h 0x9000
  have hwindow : LOONGARCH64_CACHED_DMW_PREFIX = 2 ^ 48 * 0x9000 := by decide
  rw [hwindow, hor, Nat.or_comm]

/-- **An entry for a table** is in use, and leads back to its frame. -/
theorem setTable_spec (h : IsFrame f) :
    isUnused (setTable (zero : PageTableEntry) f) = false ∧
      addr (setTable (zero : PageTableEntry) f) ||| LOONGARCH64_CACHED_DMW_PREFIX = f := by
  obtain ⟨pa, hmod, hlt, rfl⟩ := h
  set dmw := BitVec.ofNat 64 LOONGARCH64_CACHED_DMW_PREFIX with hdmw
  -- the bits of the prefix stay in the entry, outside the field of the address
  have hbits : (setTable (zero : PageTableEntry) (LOONGARCH64_CACHED_DMW_PREFIX + pa)).bits =
      BitVec.ofNat 64 pa ||| dmw ||| DescriptorAttr.V := by
    rw [prefix_add hlt, hdmw, ← BitVec.ofNat_or]
    simp [setTable, PageTableEntry.setAddr, zero]
  have hpa : (BitVec.ofNat 64 pa &&& PageTableEntry.PTE_PPN_MASK).toNat = pa := by
    rw [BitVec.toNat_and, BitVec.toNat_ofNat, Nat.mod_eq_of_lt (by omega)]
    exact BitMask.and_window (a := 12) (b := 48) hmod hlt (by norm_num)
  have hwindow : dmw &&& PageTableEntry.PTE_PPN_MASK = 0 := by decide
  have hvalid : DescriptorAttr.V &&& PageTableEntry.PTE_PPN_MASK = 0 := by decide
  constructor
  · apply Bool.eq_false_iff.mpr
    intro hu
    have hzero := congrArg PageTableEntry.bits ((isUnused_iff _).mp hu)
    rw [hbits] at hzero
    have hbit := congrArg (fun b : BitVec 64 => b.getLsbD 0) hzero
    simp [DescriptorAttr.V, zero] at hbit
  · have haddr : addr (setTable (zero : PageTableEntry) (LOONGARCH64_CACHED_DMW_PREFIX + pa)) =
        pa := by
      show (_ &&& PageTableEntry.PTE_PPN_MASK).toNat = pa
      rw [hbits, BitVec.and_or_distrib_right, BitVec.and_or_distrib_right, hwindow, hvalid]
      simpa using hpa
    rw [haddr, prefix_add hlt]

/-! ## The invariant -/

/-- **The invariant of the tables**: they are frames of the pool, each one in one place, and the
free frames are others. -/
structure Inv (s : State) : Prop where
  frame : ∀ f ∈ s.frames, IsFrame f
  owned : ∀ p f, tableAt s p = some f → f ∈ s.frames
  inj : ∀ p q f, tableAt s p = some f → tableAt s q = some f → p = q
  free_frame : ∀ f ∈ s.free, IsFrame f ∧ f ∉ s.frames
  free_nodup : s.free.Nodup

/-- The entry of the page that a path leads to is in use. -/
def PageInUse (s : State) : Path → Prop
  | [] => False
  | i :: p => p.length = 3 ∧ ∃ f, tableAt s p = some f ∧ isUnused (s.mem (entryPtr f i)) = false

/-- **What a call keeps**: the invariant and the tables, and it makes new pages at certain paths
only. -/
structure Kept (new : Set Path) (s s' : State) : Prop where
  inv : Inv s'
  table : ∀ q f, tableAt s q = some f → tableAt s' q = some f
  page : ∀ q, PageInUse s' q → PageInUse s q ∨ q ∈ new

theorem Kept.refl (new : Set Path) (h : Inv s) : Kept new s s :=
  ⟨h, fun _ _ hq => hq, fun _ hq => .inl hq⟩

theorem Kept.trans {new : Set Path} (h : Kept new s s') (h' : Kept new s' s'') :
    Kept new s s'' := by
  refine ⟨h'.inv, fun q f hq => h'.table q f (h.table q f hq), fun q hq => ?_⟩
  rcases h'.page q hq with hq | hq
  · exact h.page q hq
  · exact .inr hq

theorem Kept.mono {new new' : Set Path} (h : Kept new s s') (hsub : new ⊆ new') :
    Kept new' s s' :=
  ⟨h.inv, h.table, fun q hq => (h.page q hq).imp_right fun hn => hsub hn⟩

theorem Inv.entryPtr_ne (h : Inv s) (hp : tableAt s p = some f) (hq : tableAt s q = some g)
    (hne : j :: q ≠ i :: p) : entryPtr g j ≠ entryPtr f i := by
  intro he
  obtain ⟨rfl, rfl⟩ := entryPtr_inj (h.frame g (h.owned q g hq)).mod
    (h.frame f (h.owned p f hp)).mod he
  exact hne (by rw [h.inj q p g hq hp])

/-! ## Writing a page -/

section SetPage

variable (h : Inv s) (hp : tableAt s p = some f) (hlen : p.length = 3) (e : PageTableEntry)
include h hp hlen

/-- No entry on the way to a table is the one of a page. -/
theorem tableAt_setPage (q : Path) :
    tableAt (s.setEntry (entryPtr f i) e) q = tableAt s q := by
  -- the way to a table is read in tables above, and the page's entry is in one of the last level
  induction q with
  | nil => rfl
  | cons j q ih =>
    rw [tableAt, tableAt, ih]
    apply Option.bind_congr
    intro k hk
    by_cases hq : q.length < 3
    · have hne : j :: q ≠ i :: p := by
        intro heq
        obtain ⟨-, rfl⟩ := List.cons.inj heq
        omega
      rw [setEntry_mem, Function.update_of_ne (h.entryPtr_ne hp hk hne)]
    · simp only [hq, false_and, if_false]

theorem kept_setPage : Kept {i :: p} s (s.setEntry (entryPtr f i) e) := by
  have htable := tableAt_setPage (i := i) h hp hlen e
  refine ⟨⟨h.frame, fun q g hq => h.owned q g (htable q ▸ hq), fun q r g hq hr => ?_,
    h.free_frame, h.free_nodup⟩, fun q g hq => (htable q).trans hq, fun q hq => ?_⟩
  · exact h.inj q r g (htable q ▸ hq) (htable r ▸ hr)
  -- the page itself may be new; every other entry is as before
  · by_cases hqp : q = i :: p
    · exact .inr hqp
    · left
      cases q with
      | nil => exact hq
      | cons j q =>
        obtain ⟨hlen', g, hg, hu⟩ := hq
        rw [htable] at hg
        rw [setEntry_mem, Function.update_of_ne (h.entryPtr_ne hp hg hqp)] at hu
        exact ⟨hlen', g, hg, hu⟩

/-- A cleared page is not in use. -/
theorem not_pageInUse_clear : ¬ PageInUse (s.setEntry (entryPtr f i) zero) (i :: p) := by
  rintro ⟨-, g, hg, hu⟩
  rw [tableAt_setPage h hp hlen, hp] at hg
  obtain rfl := Option.some.inj hg
  rw [setEntry_mem, Function.update_self] at hu
  exact absurd hu (by decide)

end SetPage

/-! ## A new table -/

section AddTable

variable {free : List Nat}
variable (h : Inv s) (hfree : s.free = g :: free) (hp : tableAt s p = some f)
  (hlen : p.length < 3) (hu : isUnused (s.mem (entryPtr f i)) = true)
include h hfree

theorem new_ne (hq : tableAt s q = some k) : k ≠ g := by
  rintro rfl
  exact (h.free_frame k (hfree ▸ List.mem_cons_self)).2 (h.owned q k hq)

include hp

/-- The entries of the other tables, and the other entries of this one, are kept. -/
theorem mem_addTable_old (hq : tableAt s q = some k) (hne : j :: q ≠ i :: p) :
    (s.addTable (entryPtr f i) g free).mem (entryPtr k j) = s.mem (entryPtr k j) := by
  have hg := (h.free_frame g (hfree ▸ List.mem_cons_self)).1.mod
  have hk := (h.frame k (h.owned q k hq)).mod
  have hkg : k ≠ g := new_ne h hfree hq
  rw [addTable_mem, Function.update_of_ne (h.entryPtr_ne hp hq hne), zeroFrame]
  exact if_neg (not_inFrame_entryPtr hk hg hkg j)

/-- The entries of the new table are zero. -/
theorem mem_addTable_zero : (s.addTable (entryPtr f i) g free).mem (entryPtr g j) = zero := by
  have hg := (h.free_frame g (hfree ▸ List.mem_cons_self)).1.mod
  have hf := (h.frame f (h.owned p f hp)).mod
  have hne : entryPtr g j ≠ entryPtr f i := by
    intro he
    exact new_ne h hfree hp (entryPtr_inj hg hf he).1.symm
  rw [addTable_mem, Function.update_of_ne hne, zeroFrame]
  exact if_pos (inFrame_entryPtr g j)

include hlen hu

/-- **A new table** stands under its entry, and every other table stays. -/
theorem tableAt_addTable (q : Path) :
    tableAt (s.addTable (entryPtr f i) g free) q = if q = i :: p then some g else tableAt s q := by
  have hspec := setTable_spec (h.free_frame g (hfree ▸ List.mem_cons_self)).1
  have hnone : tableAt s (i :: p) = none := tableAt_of_unused hp hu
  -- one step of the way more: the new entry, an entry below it, or one that is kept
  induction q with
  | nil => rfl
  | cons j q ih =>
    by_cases hjq : j :: q = i :: p
    · obtain ⟨rfl, rfl⟩ := List.cons.inj hjq
      have hq : q ≠ j :: q := fun e => by simpa using congrArg List.length e
      have hentry : (s.addTable (entryPtr f j) g free).mem (entryPtr f j) = setTable zero g := by
        rw [addTable_mem, Function.update_self, (isUnused_iff _).mp hu]
      rw [if_neg hq, hp] at ih
      rw [tableAt_of_some ih, hentry, if_pos ⟨hlen, hspec.1⟩, if_pos rfl, hspec.2]
    · rw [if_neg hjq]
      by_cases hq : q = i :: p
      · -- below the new table all is empty
        rw [if_pos hq] at ih
        have hzero : isUnused ((s.addTable (entryPtr f i) g free).mem (entryPtr g j)) = true := by
          rw [mem_addTable_zero h hfree hp]
          decide
        rw [tableAt_of_unused ih hzero, hq, tableAt_of_none hnone]
      · rw [if_neg hq] at ih
        cases hk : tableAt s q with
        | none => rw [tableAt_of_none hk, tableAt_of_none (ih.trans hk)]
        | some k =>
          rw [tableAt_of_some hk, tableAt_of_some (ih.trans hk),
            mem_addTable_old h hfree hp hk hjq]

theorem kept_addTable : Kept ∅ s (s.addTable (entryPtr f i) g free) := by
  have htable := tableAt_addTable h hfree hp hlen hu
  have hg := h.free_frame g (hfree ▸ List.mem_cons_self)
  have hnodup : (g :: free).Nodup := hfree ▸ h.free_nodup
  have hframes : ∀ a, a ∈ (s.addTable (entryPtr f i) g free).frames ↔ a ∈ s.frames ∨ a = g := by
    intro a
    simp [PtState.frames, PtState.addTable, PtState.setEntry, or_assoc]
  have hnone : tableAt s (i :: p) = none := tableAt_of_unused hp hu
  -- the frames, the owners, each table once, the free frames; then the tables and the pages
  refine ⟨⟨fun a ha => ?_, fun q a hq => ?_, fun q r a hq hr => ?_, fun a ha => ?_,
    (List.nodup_cons.mp hnodup).2⟩, fun q a hq => ?_, fun q hq => .inl ?_⟩
  · rcases (hframes a).mp ha with ha | rfl
    · exact h.frame a ha
    · exact hg.1
  · rw [hframes]
    rw [htable] at hq
    split_ifs at hq
    · exact .inr (Option.some.inj hq).symm
    · exact .inl (h.owned q a hq)
  · rw [htable] at hq hr
    split_ifs at hq hr with h₁ h₂ h₂
    · rw [h₁, h₂]
    · exact absurd (h.owned r a hr) (Option.some.inj hq ▸ hg.2)
    · exact absurd (h.owned q a hq) (Option.some.inj hr ▸ hg.2)
    · exact h.inj q r a hq hr
  · have ha' : a ∈ s.free := hfree ▸ List.mem_cons_of_mem g ha
    refine ⟨(h.free_frame a ha').1, fun hin => ?_⟩
    rcases (hframes a).mp hin with hin | rfl
    · exact (h.free_frame a ha').2 hin
    · exact (List.nodup_cons.mp hnodup).1 ha
  · rw [htable, if_neg]
    · exact hq
    · rintro rfl
      rw [hnone] at hq
      cases hq
  · cases q with
    | nil => exact hq
    | cons j q =>
      obtain ⟨hlen', a, ha, hused⟩ := hq
      rw [htable] at ha
      split_ifs at ha with hqp
      · -- an entry of the new table is zero
        obtain rfl := Option.some.inj ha
        rw [mem_addTable_zero h hfree hp] at hused
        exact absurd hused (by decide)
      · have hne : j :: q ≠ i :: p := by
          intro heq
          obtain ⟨-, rfl⟩ := List.cons.inj heq
          omega
        rw [mem_addTable_old h hfree hp ha hne] at hused
        exact ⟨hlen', a, ha, hused⟩

end AddTable

/-! ## Paths -/

theorem tablePath_eq_iff {va' : Nat} :
    tablePath va = tablePath va' ↔ va % 2 ^ 48 / 2 ^ 21 = va' % 2 ^ 48 / 2 ^ 21 := by
  simp only [tablePath, List.cons.injEq, and_true, p2Index, p3Index, p4Index, Fin.ext_iff,
    tableIndex_val]
  omega

theorem pagePath_eq_iff {va' : Nat} :
    pagePath va = pagePath va' ↔ va % 2 ^ 48 / 2 ^ 12 = va' % 2 ^ 48 / 2 ^ 12 := by
  rw [pagePath, pagePath, List.cons.injEq, tablePath_eq_iff]
  simp only [p1Index, Fin.ext_iff, tableIndex_val]
  omega

/-- The addresses of a page have one path. -/
theorem pagePath_of_page (hal : vaddr % 4096 = 0) (hle : vaddr ≤ va) (hlt : va < vaddr + 4096) :
    pagePath va = pagePath vaddr := by
  rw [pagePath_eq_iff]
  omega

/-! ## One page -/

/-- The step of the descent: the table under an entry, made where there is none. -/
theorem nextTableMutOrCreate_kept (h : Inv s) (hp : tableAt s p = some f) (hlen : p.length < 3) :
    match (nextTableMutOrCreate (entryPtr f i)).run s with
    | .ok g s' => Kept ∅ s s' ∧ tableAt s' (i :: p) = some g
    | .error _ s' => Kept ∅ s s' := by
  simp only [nextTableMutOrCreate, EStateM.run_bind, EStateM.run_get]
  -- the entry leads to a table, or one is allocated and the entry is written
  cases hu : isUnused (s.mem (entryPtr f i)) with
  | false =>
    simp only [Bool.false_eq_true, if_false, nextTableMut, EStateM.run_pure]
    refine ⟨.refl _ h, ?_⟩
    rw [tableAt_of_some hp, if_pos ⟨hlen, hu⟩]
  | true =>
    simp only [if_true, EStateM.run_bind]
    cases hfree : s.free with
    | nil =>
      have halloc : allocIntrmTable.run s = .error .NoMemory s := by
        simp only [allocIntrmTable, EStateM.run, hfree]
      rw [halloc]
      exact .refl _ h
    | cons g free =>
      have halloc : allocIntrmTable.run s = .ok g
          { pt := { s.pt with intrmTables := s.pt.intrmTables ++ [g] }
            mem := zeroFrame s.mem g, free } := by
        simp only [allocIntrmTable, EStateM.run, hfree]
      have hz : zeroFrame s.mem g (entryPtr f i) = s.mem (entryPtr f i) := by
        unfold zeroFrame
        split_ifs
        · rw [(isUnused_iff _).mp hu]
        · rfl
      rw [halloc]
      simp only [modifyEntry, EStateM.run_modify, EStateM.run_pure, hz]
      refine ⟨kept_addTable h hfree hp hlen hu, ?_⟩
      exact (tableAt_addTable h hfree hp hlen hu (i :: p)).trans (if_pos rfl)

/-- **The descent to a page** of 4 KiB, with the tables on the way made. -/
theorem getEntryMutOrCreate_kept (va : Nat) (h : Inv s) :
    match (getEntryMutOrCreate ⟨va, .Size4K⟩).run s with
    | .ok entry s' => Kept ∅ s s' ∧
        ∃ f, tableAt s' (tablePath va) = some f ∧ entry = entryPtr f (p1Index va)
    | .error _ s' => Kept ∅ s s' := by
  simp only [getEntryMutOrCreate, EStateM.run_bind, EStateM.run_get]
  -- three steps down from the root; the first that fails ends the call
  have h₄ := nextTableMutOrCreate_kept (i := p4Index va) (p := []) h rfl (by decide)
  cases hrun₄ : (nextTableMutOrCreate (entryPtr s.pt.root (p4Index va))).run s with
  | error e s₄ =>
    rw [hrun₄] at h₄
    exact h₄
  | ok p3 s₄ =>
    rw [hrun₄] at h₄
    obtain ⟨hkept₄, ht₄⟩ := h₄
    have h₃ := nextTableMutOrCreate_kept (i := p3Index va) hkept₄.inv ht₄ (by simp)
    simp only [reduceCtorEq, if_false, EStateM.run_bind]
    cases hrun₃ : (nextTableMutOrCreate (entryPtr p3 (p3Index va))).run s₄ with
    | error e s₃ =>
      rw [hrun₃] at h₃
      exact hkept₄.trans h₃
    | ok p2 s₃ =>
      rw [hrun₃] at h₃
      obtain ⟨hkept₃, ht₃⟩ := h₃
      have h₂ := nextTableMutOrCreate_kept (i := p2Index va) hkept₃.inv ht₃ (by simp)
      simp only
      cases hrun₂ : (nextTableMutOrCreate (entryPtr p2 (p2Index va))).run s₃ with
      | error e s₂ =>
        rw [hrun₂] at h₂
        exact (hkept₄.trans hkept₃).trans h₂
      | ok p1 s₂ =>
        rw [hrun₂] at h₂
        exact ⟨(hkept₄.trans hkept₃).trans h₂.1, p1, h₂.2, rfl⟩

/-- **Mapping a page**, however it ends, makes a page in use at its path at most, and the table of
its block when it succeeds. -/
theorem mapPage_kept (va : Nat) (h : Inv s) (paddr : Nat) (fl : MemFlags) :
    match (mapPage ⟨va, .Size4K⟩ paddr fl).run s with
    | .ok _ s' => Kept {pagePath va} s s' ∧ ∃ f, tableAt s' (tablePath va) = some f
    | .error _ s' => Kept {pagePath va} s s' := by
  simp only [mapPage, EStateM.run_bind]
  have hget := getEntryMutOrCreate_kept va h
  cases hrun : (getEntryMutOrCreate ⟨va, .Size4K⟩).run s with
  | error e s₁ =>
    rw [hrun] at hget
    exact hget.mono (Set.empty_subset _)
  | ok entry s₁ =>
    rw [hrun] at hget
    obtain ⟨hkept, f, hf, rfl⟩ := hget
    have hkept : Kept {pagePath va} s s₁ := hkept.mono (Set.empty_subset _)
    simp only [EStateM.run_get]
    -- the page is there already, which is an error, or its entry is written twice
    cases hu : isUnused (s₁.mem (entryPtr f (p1Index va))) with
    | false => exact hkept
    | true =>
      have hset : ∀ e e' : PageTableEntry,
          (s₁.setEntry (entryPtr f (p1Index va)) e).setEntry (entryPtr f (p1Index va)) e' =
            s₁.setEntry (entryPtr f (p1Index va)) e' := by
        intro e e'
        simp only [PtState.setEntry, Function.update_idem]
      simp only [Bool.not_true, Bool.false_eq_true, if_false, EStateM.run_bind, modifyEntry,
        EStateM.run_modify, EStateM.run_pure, hset]
      refine ⟨hkept.trans (kept_setPage hkept.inv hf rfl _), f, ?_⟩
      exact (tableAt_setPage hkept.inv hf rfl _ _).trans hf

/-- **Unmapping a page** whose block has a table, however it ends, makes no page in use, and none
is at its path when it succeeds. -/
theorem unmapPage_kept (h : Inv s) (hf : tableAt s (tablePath va) = some f) :
    match (unmapPage va).run s with
    | .ok x s' => Kept ∅ s s' ∧ x.2 = .Size4K ∧ ¬ PageInUse s' (pagePath va)
    | .error _ s' => Kept ∅ s s' := by
  simp only [EStateM.run, unmapPage, getEntryMut_eq, (walk_of_tableAt hf).1]
  -- `NotMapped`, or the entry is cleared
  split_ifs with hu
  · exact .refl _ h
  · have hclear : ∀ e : PageTableEntry, clear e = zero := fun _ => rfl
    simp only [hclear]
    have hpage := not_pageInUse_clear (i := p1Index va) h hf rfl
    have hset := kept_setPage (i := p1Index va) h hf rfl zero
    refine ⟨⟨hset.inv, hset.table, fun q hq => ?_⟩, trivial, hpage⟩
    rcases hset.page q hq with hq' | rfl
    · exact .inl hq'
    · exact absurd hq hpage

/-! ## A region -/

/-- The loop of `map`, however it ends, makes pages in use at the paths of its addresses at most,
and the tables of all of them when it succeeds. -/
theorem mapLoop_kept (region : MemoryRegion) {ps : PageSize} (hps : ps = .Size4K) {new : Set Path}
    (h : Inv s) (hnew : ∀ va, vaddr ≤ va → va < vaddr + size → pagePath va ∈ new) :
    match (mapLoop region ps vaddr size).run s with
    | .ok _ s' => Kept new s s' ∧
        ∀ va, vaddr ≤ va → va < vaddr + size → ∃ f, tableAt s' (tablePath va) = some f
    | .error _ s' => Kept new s s' := by
  have hbytes : ps.bytes = 4096 := by rw [hps]; rfl
  -- on the size that is left, for every start
  induction size using Nat.strong_induction_on generalizing vaddr s with
  | _ size ih =>
    by_cases h0 : size = 0
    · rw [mapLoop, if_pos h0]
      exact ⟨.refl _ h, fun va _ _ => by omega⟩
    rw [mapLoop, if_neg h0]
    simp only [hvAssert]
    cases hal : ps.isAligned vaddr with
    | false => exact .refl _ h
    | true =>
      have hmod : vaddr % 4096 = 0 := hbytes ▸ PageSize.isAligned_iff.mp hal
      have hpage := mapPage_kept vaddr h (region.mapper.mapFn vaddr) region.flags
      rw [← hps] at hpage
      have hin : {pagePath vaddr} ⊆ new := Set.singleton_subset_iff.mpr (hnew _ le_rfl (by omega))
      simp only [if_true, pure_bind, EStateM.run_bind, liftPaging_run]
      cases hrun : (mapPage ⟨vaddr, ps⟩ (region.mapper.mapFn vaddr) region.flags).run s with
      | error e s₁ =>
        rw [hrun] at hpage
        exact hpage.mono hin
      | ok a s₁ =>
        rw [hrun] at hpage
        obtain ⟨hkept, f, hf⟩ := hpage
        have hkept := hkept.mono hin
        simp only
        -- the loop goes on from the state with the page, unless the addresses end
        cases hadd : checkedAdd vaddr ps.bytes with
        | none => exact hkept
        | some next =>
          obtain ⟨-, rfl⟩ := checkedAdd_eq_some.mp hadd
          simp only
          -- a size below a page would underflow
          split_ifs with hle
          · have hrest := @ih (size - ps.bytes) (by omega) s₁ (vaddr + ps.bytes) hkept.inv
              fun va hva hlt => hnew va (by omega) (by omega)
            cases hloop : (mapLoop region ps (vaddr + ps.bytes) (size - ps.bytes)).run s₁ with
            | error e s₂ =>
              rw [hloop] at hrest
              exact hkept.trans hrest
            | ok u s₂ =>
              rw [hloop] at hrest
              refine ⟨hkept.trans hrest.1, fun va hva hlt => ?_⟩
              -- the first page was made before the rest, which keeps its table
              by_cases hfirst : va < vaddr + 4096
              · have hpath := (List.cons.inj (pagePath_of_page hmod hva hfirst)).2
                exact ⟨f, hrest.1.table _ f (hpath ▸ hf)⟩
              · exact hrest.2 va (by omega) (by omega)
          · exact hkept

/-- The loop of `unmap` over addresses whose blocks have tables, however it ends, makes no page in
use, and none is left at the paths of its addresses when it succeeds. -/
theorem unmapLoop_kept (h : Inv s)
    (htable : ∀ va, vaddr ≤ va → va < vaddr + size → ∃ f, tableAt s (tablePath va) = some f) :
    match (unmapLoop vaddr size).run s with
    | .ok _ s' => Kept ∅ s s' ∧
        ∀ va, vaddr ≤ va → va < vaddr + size → ¬ PageInUse s' (pagePath va)
    | .error _ s' => Kept ∅ s s' := by
  -- on the size that is left, for every start
  induction size using Nat.strong_induction_on generalizing vaddr s with
  | _ size ih =>
    rw [EStateM.run, unmapLoop]
    split_ifs with h0
    · exact ⟨.refl _ h, fun va _ _ => by omega⟩
    obtain ⟨f, hf⟩ := htable vaddr le_rfl (by omega)
    have hpage := unmapPage_kept h hf
    have hlift := liftPaging_run (unmapPage vaddr) s
    rw [EStateM.run] at hlift
    rw [hlift]
    cases hrun : (unmapPage vaddr).run s with
    | error e s₁ =>
      rw [hrun] at hpage
      exact hpage
    | ok a s₁ =>
      rw [hrun] at hpage
      obtain ⟨hkept, hsize, hgone⟩ := hpage
      have hbytes : a.2.bytes = 4096 := by rw [hsize]; rfl
      simp only
      split_ifs with hal hle
      · exact hkept
      · have hmod : vaddr % 4096 = 0 := by
          simp only [Bool.not_eq_true', Bool.not_eq_false] at hal
          exact hbytes ▸ PageSize.isAligned_iff.mp hal
        cases hadd : checkedAdd vaddr a.2.bytes with
        | none => exact hkept
        | some next =>
          obtain ⟨-, rfl⟩ := checkedAdd_eq_some.mp hadd
          have hrest := @ih (size - a.2.bytes) (by omega) s₁ (vaddr + a.2.bytes) hkept.inv
            fun va hva hlt => (htable va (by omega) (by omega)).imp fun f hf => hkept.table _ f hf
          simp only [EStateM.run] at hrest ⊢
          cases hloop : unmapLoop (vaddr + a.2.bytes) (size - a.2.bytes) s₁ with
          | error e s₂ =>
            rw [hloop] at hrest
            exact hkept.trans hrest
          | ok u s₂ =>
            rw [hloop] at hrest
            refine ⟨hkept.trans hrest.1, fun va hva hlt => ?_⟩
            by_cases hfirst : va < vaddr + 4096
            · rw [pagePath_of_page hmod hva hfirst]
              -- the page stays away, since the rest of the loop makes none
              intro hin
              exact hgone ((hrest.1.page _ hin).resolve_right (Set.notMem_empty _))
            · exact hrest.2 va (by omega) (by omega)
      · exact hkept

/-- The addresses of a region. -/
def addresses (region : MemoryRegion) : Set Nat := {va | region.Mem va}

/-- **A call of `map`.** -/
theorem kept_map (region : MemoryRegion) (h : Inv s) :
    match (map region).run s with
    | .ok _ s' => Kept (pagePath '' addresses region) s s' ∧
        ∀ va ∈ addresses region, ∃ f, tableAt s' (tablePath va) = some f
    | .error _ s' => Kept (pagePath '' addresses region) s s' := by
  have hnew : ∀ va, region.start ≤ va → va < region.start + region.size →
      pagePath va ∈ pagePath '' addresses region := fun va hle hlt => ⟨va, ⟨hle, hlt⟩, rfl⟩
  have hloop := mapLoop_kept region rfl h hnew
  simp only [map, hvAssert]
  -- a region that is not aligned fails an assertion before anything is written
  cases isAligned region.start with
  | false => exact .refl _ h
  | true =>
    cases isAligned region.size with
    | false => exact .refl _ h
    | true =>
      simp only [if_true, pure_bind]
      cases hrun : (mapLoop region .Size4K region.start region.size).run s with
      | error e s' =>
        rw [hrun] at hloop
        exact hloop
      | ok u s' =>
        rw [hrun] at hloop
        exact ⟨hloop.1, fun va hva => hloop.2 va hva.1 hva.2⟩

/-- **A call of `unmap`** for addresses whose blocks have tables. -/
theorem kept_unmap (region : MemoryRegion) (h : Inv s)
    (htable : ∀ va ∈ addresses region, ∃ f, tableAt s (tablePath va) = some f) :
    match (unmap region).run s with
    | .ok _ s' => Kept ∅ s s' ∧ ∀ va ∈ addresses region, ¬ PageInUse s' (pagePath va)
    | .error _ s' => Kept ∅ s s' := by
  have hloop := unmapLoop_kept h fun va hle hlt => htable va ⟨hle, hlt⟩
  rw [unmap]
  cases hrun : (unmapLoop region.start region.size).run s with
  | error e s' =>
    rw [hrun] at hloop
    exact hloop
  | ok u s' =>
    rw [hrun] at hloop
    exact ⟨hloop.1, fun va hva => hloop.2 va hva.1 hva.2⟩

end Loong

end Hvisor
