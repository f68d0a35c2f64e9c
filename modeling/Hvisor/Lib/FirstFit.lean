import Mathlib.Order.Interval.Finset.Nat

/-!
# Allocators of indices, and first fit

An allocator hands out single indices and runs of consecutive ones, and takes single indices back.
Its state stands for the set of the free indices. An allocator is lawful when it hands out free
indices only, which are not free from then on until they are given back. It is first fit, or lowest
first, when what it hands out is the lowest that is free.

## Main definitions

* `run`, `LowestRun`: consecutive indices, and the first run in a set
* `IndexAllocator`, `IndexAllocator.Lawful`, `IndexAllocator.LowestFirst`: allocators and their laws
* `bitmap`: the allocator whose state is the set of its free indices

## Main results

* `LowestRun.disjoint`: two lowest runs of different lengths are one the beginning of the other,
  or apart
* `LowestRun.run_subset_sdiff_iff`, `LowestRun.sdiff_iff`: the runs that are left without the
  beginning of the lowest one
* `IndexAllocator.Lawful.foldlM_dealloc`: a run is given back
* `bitmap_lowestFirst`: the laws hold of the set of free indices
-/

namespace FirstFit

/-! ## Runs -/

/-- The `n` indices from `i` on. -/
def run (i n : ℕ) : Finset ℕ := Finset.Ico i (i + n)

@[simp] theorem mem_run {i n j : ℕ} : j ∈ run i n ↔ i ≤ j ∧ j < i + n := Finset.mem_Ico

@[simp] theorem run_zero (i : ℕ) : run i 0 = ∅ := by simp [run]

theorem run_one (i : ℕ) : run i 1 = {i} := by
  ext j
  simp only [mem_run, Finset.mem_singleton]
  omega

theorem run_succ (i n : ℕ) : run i (n + 1) = {i} ∪ run (i + 1) n := by
  ext j
  simp only [Finset.mem_union, Finset.mem_singleton, mem_run]
  omega

/-- The lowest of the runs of `n` indices in `F`. -/
structure LowestRun (F : Finset ℕ) (n i : ℕ) : Prop where
  sub : run i n ⊆ F
  le : ∀ j, run j n ⊆ F → i ≤ j

variable {F G : Finset ℕ} {n p i j q s : ℕ}

theorem LowestRun.unique (h : LowestRun F n i) (h' : LowestRun F n j) : i = j :=
  Nat.le_antisymm (h.le j h'.sub) (h'.le i h.sub)

theorem exists_lowestRun (h : run i n ⊆ F) : ∃ j, LowestRun F n j := by
  classical
  have hex : ∃ i, run i n ⊆ F := ⟨i, h⟩
  exact ⟨Nat.find hex, Nat.find_spec hex, fun j hj => Nat.find_min' hex hj⟩

/-- The lowest run stays the lowest when indices go that are not in it. -/
theorem LowestRun.of_subset (h : LowestRun F n i) (hG : G ⊆ F) (hi : run i n ⊆ G) :
    LowestRun G n i :=
  ⟨hi, fun j hj => h.le j (hj.trans hG)⟩

/-- Two lowest runs start at the same index or do not meet: together they would be a longer run
that starts before the later of the two. -/
theorem LowestRun.disjoint (hs : LowestRun F n s) (hq : LowestRun F p q) (hne : q ≠ s) :
    Disjoint (run s n) (run q p) := by
  rw [Finset.disjoint_left]
  intro a has haq
  rw [mem_run] at has haq
  rcases Nat.lt_or_gt_of_ne hne with hlt | hgt
  · -- the run of `n` indices from `q` on is free
    have hsub : run q n ⊆ F := by
      intro j hj
      rw [mem_run] at hj
      by_cases hjs : j < s
      · exact hq.sub (mem_run.mpr (by omega))
      · exact hs.sub (mem_run.mpr (by omega))
    exact absurd (hs.le q hsub) (by omega)
  · have hsub : run s p ⊆ F := by
      intro j hj
      rw [mem_run] at hj
      by_cases hjq : j < q
      · exact hs.sub (mem_run.mpr (by omega))
      · exact hq.sub (mem_run.mpr (by omega))
    exact absurd (hq.le s hsub) (by omega)

/-- Without the first `p` indices of the lowest run of `n`, the runs of `n` that are left are those
that start after them. -/
theorem LowestRun.run_subset_sdiff_iff (hs : LowestRun F n s) (hn : 0 < n) (r : ℕ) :
    run r n ⊆ F \ run s p ↔ run r n ⊆ F ∧ s + p ≤ r := by
  constructor
  · intro h
    have hF : run r n ⊆ F := h.trans Finset.sdiff_subset
    have hr : r ∉ run s p := (Finset.mem_sdiff.mp (h (mem_run.mpr (by omega)))).2
    have hle := hs.le r hF
    rw [mem_run] at hr
    exact ⟨hF, by omega⟩
  · rintro ⟨hF, hr⟩ j hj
    have hj' := mem_run.mp hj
    rw [Finset.mem_sdiff, mem_run]
    exact ⟨hF hj, by omega⟩

/-- The lowest run of those that are left is the lowest one from the end of the beginning on. -/
theorem LowestRun.sdiff_iff (hs : LowestRun F n s) (hn : 0 < n) :
    LowestRun (F \ run s p) n q ↔ LowestRun (F.filter (s + p ≤ ·)) n q := by
  have hsub : ∀ j, run j n ⊆ F \ run s p ↔ run j n ⊆ F.filter (s + p ≤ ·) := by
    intro j
    rw [hs.run_subset_sdiff_iff hn]
    constructor
    · rintro ⟨hF, hle⟩ a ha
      exact Finset.mem_filter.mpr ⟨hF ha, hle.trans (mem_run.mp ha).1⟩
    · intro h
      refine ⟨h.trans (Finset.filter_subset _ _), ?_⟩
      exact (Finset.mem_filter.mp (h (mem_run.mpr ⟨le_rfl, by omega⟩))).2
  constructor
  · exact fun h => ⟨(hsub q).mp h.sub, fun j hj => h.le j ((hsub j).mpr hj)⟩
  · exact fun h => ⟨(hsub q).mpr h.sub, fun j hj => h.le j ((hsub j).mp hj)⟩

/-! ## Allocators -/

/-- The operations of an allocator of indices. `none` as a state is a failed assertion: a range that
does not fit, or an index given back that is free. -/
structure IndexAllocator (σ : Type*) where
  /-- no index is free -/
  default : σ
  /-- make the indices from the first number up to the second free -/
  insert : σ → ℕ → ℕ → Option σ
  alloc : σ → Option ℕ × σ
  /-- a run of a length, at an index with so many low zero bits -/
  allocContiguous : σ → ℕ → ℕ → Option ℕ × σ
  dealloc : σ → ℕ → Option σ

/-- What is handed out was free, is no longer, and can be given back. -/
structure IndexAllocator.Lawful {σ : Type*} (A : IndexAllocator σ) (cap : ℕ)
    (free : σ → Finset ℕ) : Prop where
  free_lt : ∀ {s i}, i ∈ free s → i < cap
  free_default : free A.default = ∅
  free_insert : ∀ {s a b s'}, A.insert s a b = some s' → free s' = free s ∪ Finset.Ico a b
  alloc_some : ∀ {s i s'}, A.alloc s = (some i, s') → i ∈ free s ∧ free s' = free s \ {i}
  alloc_none : ∀ {s s'}, A.alloc s = (none, s') → free s' = free s
  contiguous_some : ∀ {s n k i s'}, A.allocContiguous s n k = (some i, s') →
    run i n ⊆ free s ∧ free s' = free s \ run i n
  contiguous_none : ∀ {s n k s'}, A.allocContiguous s n k = (none, s') → free s' = free s
  dealloc : ∀ {s i}, i < cap → i ∉ free s →
    ∃ s', A.dealloc s i = some s' ∧ free s' = free s ∪ {i}

/-- What is handed out is the lowest that is free, and nothing only when there is none. -/
structure IndexAllocator.LowestFirst {σ : Type*} (A : IndexAllocator σ) (cap : ℕ)
    (free : σ → Finset ℕ) : Prop extends A.Lawful cap free where
  alloc_le : ∀ {s i s'}, A.alloc s = (some i, s') → ∀ j ∈ free s, i ≤ j
  alloc_none_empty : ∀ {s s'}, A.alloc s = (none, s') → free s = ∅
  contiguous_le : ∀ {s n i s'}, A.allocContiguous s n 0 = (some i, s') →
    ∀ j, run j n ⊆ free s → i ≤ j
  contiguous_none_run : ∀ {s n s'}, 0 < n → A.allocContiguous s n 0 = (none, s') →
    ∀ j, ¬ run j n ⊆ free s

/-- The indices of a run are given back one by one. -/
theorem IndexAllocator.Lawful.foldlM_dealloc {σ : Type*} {A : IndexAllocator σ} {cap : ℕ}
    {free : σ → Finset ℕ} (hA : A.Lawful cap free) {s : σ} (hcap : i + n ≤ cap)
    (hs : Disjoint (run i n) (free s)) :
    ∃ s', (List.range' i n).foldlM A.dealloc s = some s' ∧ free s' = free s ∪ run i n := by
  induction n generalizing i s with
  | zero => exact ⟨s, rfl, by simp⟩
  | succ n ih =>
    have hi : i ∉ free s := Finset.disjoint_left.mp hs (mem_run.mpr (by omega))
    obtain ⟨s₁, hd, hfree⟩ := hA.dealloc (by omega) hi
    have hs₁ : Disjoint (run (i + 1) n) (free s₁) := by
      rw [Finset.disjoint_left] at hs ⊢
      intro j hj
      rw [mem_run] at hj
      have hjs := hs (mem_run.mpr (show i ≤ j ∧ j < i + (n + 1) by omega))
      simp only [hfree, Finset.mem_union, Finset.mem_singleton, not_or]
      exact ⟨hjs, by omega⟩
    obtain ⟨s₂, hfold, hfree₂⟩ := ih (by omega) hs₁
    refine ⟨s₂, ?_, ?_⟩
    · rw [List.range'_succ, List.foldlM_cons, hd]
      exact hfold
    · rw [hfree₂, hfree, Finset.union_assoc, run_succ]

section Bitmap

variable (cap : ℕ)

/-- The lowest run in a set, at an index with `k` low zero bits. -/
def findRun (F : Finset ℕ) (n k : ℕ) : Option ℕ :=
  (List.range cap).find? fun i => decide (i % 2 ^ k = 0) && decide (run i n ⊆ F)

/-- The allocator whose state is the set of its free indices below `cap`. -/
def bitmap : IndexAllocator {F : Finset ℕ // F ⊆ Finset.range cap} where
  default := ⟨∅, Finset.empty_subset _⟩
  insert F a b :=
    if h : b ≤ cap then
      some ⟨F.1 ∪ Finset.Ico a b, Finset.union_subset F.2 fun i hi => by
        rw [Finset.mem_Ico] at hi
        exact Finset.mem_range.mpr (by omega)⟩
    else none
  alloc F :=
    match findRun cap F.1 1 0 with
    | some i => (some i, ⟨F.1 \ {i}, Finset.sdiff_subset.trans F.2⟩)
    | none => (none, F)
  allocContiguous F n k :=
    match if n = 0 then none else findRun cap F.1 n k with
    | some i => (some i, ⟨F.1 \ run i n, Finset.sdiff_subset.trans F.2⟩)
    | none => (none, F)
  dealloc F i :=
    if h : i < cap ∧ i ∉ F.1 then
      some ⟨F.1 ∪ {i}, Finset.union_subset F.2 (by simpa using h.1)⟩
    else none

variable {cap} {F : Finset ℕ} {n k i : ℕ}

theorem findRun_eq_some (h : findRun cap F n k = some i) :
    run i n ⊆ F ∧ ∀ j < i, j % 2 ^ k = 0 → ¬ run j n ⊆ F := by
  rw [findRun, List.find?_range_eq_some] at h
  obtain ⟨hi, -, hlow⟩ := h
  simp only [Bool.and_eq_true, decide_eq_true_eq] at hi
  refine ⟨hi.2, fun j hj hk => ?_⟩
  have hno := hlow j hj
  simpa [hk] using hno

theorem findRun_eq_none (hF : F ⊆ Finset.range cap) (hn : 0 < n) (h : findRun cap F n k = none) :
    ∀ j, j % 2 ^ k = 0 → ¬ run j n ⊆ F := by
  intro j hk hj
  have hcap : j < cap := Finset.mem_range.mp (hF (hj (mem_run.mpr (by omega))))
  rw [findRun, List.find?_eq_none] at h
  apply h j (List.mem_range.mpr hcap)
  simp [hk, hj]

theorem findRun_le (h : findRun cap F n 0 = some i) : ∀ j, run j n ⊆ F → i ≤ j := by
  intro j hj
  by_contra hlt
  exact (findRun_eq_some h).2 j (by omega) (by omega) hj

theorem bitmap_alloc_some {F F' : {F : Finset ℕ // F ⊆ Finset.range cap}}
    (h : (bitmap cap).alloc F = (some i, F')) :
    findRun cap F.1 1 0 = some i ∧ F'.1 = F.1 \ {i} := by
  simp only [bitmap] at h
  split at h
  · next j hj =>
    simp only [Prod.mk.injEq, Option.some.injEq] at h
    obtain ⟨rfl, rfl⟩ := h
    exact ⟨hj, rfl⟩
  · cases h

theorem bitmap_alloc_none {F F' : {F : Finset ℕ // F ⊆ Finset.range cap}}
    (h : (bitmap cap).alloc F = (none, F')) : findRun cap F.1 1 0 = none ∧ F' = F := by
  simp only [bitmap] at h
  split at h
  · cases h
  · next hnone =>
    exact ⟨hnone, (Prod.mk.inj h).2.symm⟩

theorem bitmap_contiguous_some {F F' : {F : Finset ℕ // F ⊆ Finset.range cap}}
    (h : (bitmap cap).allocContiguous F n k = (some i, F')) :
    findRun cap F.1 n k = some i ∧ F'.1 = F.1 \ run i n := by
  simp only [bitmap] at h
  split at h
  · next j hj =>
    simp only [Prod.mk.injEq, Option.some.injEq] at h
    obtain ⟨rfl, rfl⟩ := h
    split at hj
    · cases hj
    · exact ⟨hj, rfl⟩
  · cases h

theorem bitmap_contiguous_none {F F' : {F : Finset ℕ // F ⊆ Finset.range cap}}
    (h : (bitmap cap).allocContiguous F n k = (none, F')) :
    (0 < n → findRun cap F.1 n k = none) ∧ F' = F := by
  simp only [bitmap] at h
  split at h
  · cases h
  · next hnone =>
    refine ⟨fun hn => ?_, (Prod.mk.inj h).2.symm⟩
    rwa [if_neg (by omega)] at hnone

/-- The set of free indices is a lawful allocator, and hands out the lowest first. -/
theorem bitmap_lowestFirst (cap : ℕ) : (bitmap cap).LowestFirst cap Subtype.val where
  free_lt {F i} hi := Finset.mem_range.mp (F.2 hi)
  free_default := rfl
  free_insert {F a b F'} h := by
    simp only [bitmap] at h
    split at h
    · cases h
      rfl
    · cases h
  alloc_some h := by
    obtain ⟨hi, hF'⟩ := bitmap_alloc_some h
    exact ⟨(findRun_eq_some hi).1 (mem_run.mpr (by omega)), hF'⟩
  alloc_none h := by rw [(bitmap_alloc_none h).2]
  contiguous_some h := by
    obtain ⟨hi, hF'⟩ := bitmap_contiguous_some h
    exact ⟨(findRun_eq_some hi).1, hF'⟩
  contiguous_none h := by rw [(bitmap_contiguous_none h).2]
  dealloc {F i} hcap hi := ⟨_, dif_pos ⟨hcap, hi⟩, rfl⟩
  alloc_le h j hj := by
    apply findRun_le (bitmap_alloc_some h).1
    rwa [run_one, Finset.singleton_subset_iff]
  alloc_none_empty {F F'} h := by
    apply Finset.eq_empty_of_forall_notMem
    intro j hj
    apply findRun_eq_none F.2 one_pos (bitmap_alloc_none h).1 j (Nat.mod_one j)
    rwa [run_one, Finset.singleton_subset_iff]
  contiguous_le h := findRun_le (bitmap_contiguous_some h).1
  contiguous_none_run {F n F'} hn h j :=
    findRun_eq_none F.2 hn ((bitmap_contiguous_none h).1 hn) j (Nat.mod_one j)

end Bitmap

end FirstFit
