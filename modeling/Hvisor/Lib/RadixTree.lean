import Mathlib.Data.List.Infix
import Mathlib.Data.Finset.Card
import Mathlib.Data.Finset.Lattice.Basic
import Mathlib.Tactic.Cases
import Mathlib.Tactic.Tauto

/-!
# Radix trees as families of slots

A radix tree of tables with index type `ι` is the family of its slots: the slot of a path is
empty, holds a table, or holds a leaf. A path lists the indices from the slot's own table up to
the root, so that the slots above a slot are the tails of its path, and the root is the empty
path. Every key is a longest path; the leaf that serves it sits at one of its suffixes.

## Main definitions

* `Slot`, `Tree`, `Tree.WF`: the slots of a tree, and the shape a tree has
* `Tree.lookup`: the leaf on the way to a key
* `Tree.Clear`: a slot where a leaf can be put
* `Tree.insertLeaf`, `Tree.removeLeaf`: putting a leaf with the tables on its way, and removing it
* `Tree.holes`, `Tree.holesAll`: the tables that one leaf, or several leaves, create
* `Tree.insertLeaves`, `Tree.Fits`, `Tree.spent`: putting several leaves in order

## Main results

* `Tree.WF.lookup_eq_some`: the leaf on the way to a key is the leaf at a suffix of it
* `Tree.fits_iff`: when several leaves can be put in order, as a condition on the tree before
* `Tree.Fits.insertLeaves_eq_leaf`: the leaves after putting several
-/

namespace RadixTree

/-- The content of one slot. -/
inductive Slot (α : Type*) where
  | empty
  | table
  | leaf (a : α)
  deriving DecidableEq

/-- The slot is empty. -/
def Slot.isEmpty {α : Type*} : Slot α → Bool
  | .empty => true
  | _ => false

@[simp] theorem Slot.isEmpty_iff {α : Type*} {s : Slot α} : s.isEmpty = true ↔ s = .empty := by
  cases s <;> simp [isEmpty]

/-- A radix tree: the slot at each path, the slot's own index first. -/
abbrev Tree (ι α : Type*) := List ι → Slot α

variable {ι α : Type*}

namespace Tree

/-- **The shape of a radix tree**: the root is a table, and only a table has slots in use. -/
structure WF (T : Tree ι α) : Prop where
  root : T [] = .table
  parent : ∀ i p, T (i :: p) ≠ .empty → T p = .table

variable {T : Tree ι α} {p q r k : List ι} {a b : α}

theorem WF.table_of_suffix (h : T.WF) (hq : T q ≠ .empty) (hpq : p <:+ q) (hne : p ≠ q) :
    T p = .table := by
  obtain ⟨l, rfl⟩ := hpq
  -- up from `q`, one index at a time: each parent is a table, so its slot is in use too
  induction l with
  | nil => exact absurd rfl hne
  | cons i l ih =>
    have hl : T (l ++ p) = .table := h.parent i _ hq
    by_cases hnil : l ++ p = p
    · rwa [hnil] at hl
    · exact ih (by simp [hl]) (fun e => hnil e.symm)

theorem WF.eq_of_leaf_suffix (h : T.WF) (hp : T p = .leaf a) (hq : T q ≠ .empty)
    (hpq : p <:+ q) : p = q := by
  by_contra hne
  have := h.table_of_suffix hq hpq hne
  simp [hp] at this

/-- Nothing is in use below a slot that holds no table. -/
theorem WF.empty_below (h : T.WF) (hp : T p ≠ .table) (hpq : p <:+ q) (hne : p ≠ q) :
    T q = .empty := by
  by_contra hq
  exact hp (h.table_of_suffix hq hpq hne)

/-- Two leaves on the way to one key are one leaf. -/
theorem WF.leaf_unique (h : T.WF) (hp : T p = .leaf a) (hq : T q = .leaf b) (hpk : p <:+ k)
    (hqk : q <:+ k) : p = q := by
  rcases List.suffix_or_suffix_of_suffix hpk hqk with hs | hs
  · exact h.eq_of_leaf_suffix hp (by simp [hq]) hs
  · exact (h.eq_of_leaf_suffix hq (by simp [hp]) hs).symm

/-! ## Looking a key up -/

/-- The leaf on the way from the root to a key, with its path. -/
def lookup (T : Tree ι α) : List ι → Option (List ι × α)
  | [] => none
  | i :: p =>
    match lookup T p with
    | some r => some r
    | none =>
      match T (i :: p) with
      | .leaf a => some (i :: p, a)
      | _ => none

theorem lookup_suffix_leaf : ∀ {k : List ι}, T.lookup k = some (q, a) →
    q <:+ k ∧ T q = .leaf a := by
  intro k
  -- the lookup starts at the root, which is the end of the key
  induction k with
  | nil => simp [lookup]
  | cons i k ih =>
    intro h
    simp only [lookup] at h
    cases hk : T.lookup k with
    | some s =>
      rw [hk] at h
      obtain rfl : s = (q, a) := by simpa using h
      exact ⟨(ih hk).1.trans (List.suffix_cons i k), (ih hk).2⟩
    | none =>
      rw [hk] at h
      cases hT : T (i :: k) with
      | empty => simp [hT] at h
      | table => simp [hT] at h
      | leaf b =>
        simp only [hT, Option.some.injEq, Prod.mk.injEq] at h
        obtain ⟨rfl, rfl⟩ := h
        exact ⟨List.suffix_refl _, hT⟩

/-- **The lookup is the leaf at a suffix of the key.** -/
theorem WF.lookup_eq_some (h : T.WF) :
    T.lookup k = some (q, a) ↔ q <:+ k ∧ T q = .leaf a := by
  refine ⟨lookup_suffix_leaf, fun ⟨hqk, hq⟩ => ?_⟩
  cases hl : T.lookup k with
  | some s =>
    obtain ⟨hs, hls⟩ := lookup_suffix_leaf (q := s.1) (a := s.2) hl
    obtain rfl := h.leaf_unique hls hq hs hqk
    rw [hls] at hq
    simp only [Slot.leaf.injEq] at hq
    rw [← hq]
  | none =>
    -- a lookup that finds nothing has seen every suffix of the key
    exfalso
    induction k with
    | nil =>
      obtain rfl := List.suffix_nil.mp hqk
      simp [h.root] at hq
    | cons i k ih =>
      simp only [lookup] at hl
      cases hk : T.lookup k with
      | some s => simp [hk] at hl
      | none =>
        rcases List.suffix_cons_iff.mp hqk with rfl | hqk'
        · simp [hk, hq] at hl
        · exact ih ⟨hqk', hq⟩ hqk' hk

theorem WF.lookup_eq_none (h : T.WF) :
    T.lookup k = none ↔ ∀ q a, q <:+ k → T q ≠ .leaf a := by
  rw [Option.eq_none_iff_forall_ne_some]
  refine ⟨fun hn q a hq hl => hn (q, a) ((h.lookup_eq_some).mpr ⟨hq, hl⟩), fun hn s hs => ?_⟩
  obtain ⟨hq, hl⟩ := (h.lookup_eq_some (q := s.1) (a := s.2)).mp hs
  exact hn _ _ hq hl

/-! ## Putting and removing leaves -/

/-- A slot where a leaf can be put: it is empty and no leaf is on the way to it. -/
def Clear (T : Tree ι α) (q : List ι) : Prop :=
  T q = .empty ∧ ∀ r a, r <:+ q → T r ≠ .leaf a

variable [DecidableEq ι]

/-- The tree with a leaf at `q`: every empty slot on the way becomes a table. -/
def insertLeaf (T : Tree ι α) (q : List ι) (a : α) : Tree ι α := fun r =>
  if r = q then .leaf a
  else if r <:+ q then
    match T r with
    | .empty => .table
    | s => s
  else T r

/-- The tree without what is at `q`. -/
def removeLeaf (T : Tree ι α) (q : List ι) : Tree ι α := fun r => if r = q then .empty else T r

@[simp] theorem insertLeaf_self : T.insertLeaf q a q = .leaf a := by simp [insertLeaf]

theorem insertLeaf_of_not_suffix (h : ¬ r <:+ q) : T.insertLeaf q a r = T r := by
  have hne : r ≠ q := fun e => h (e ▸ List.suffix_refl _)
  simp [insertLeaf, hne, h]

theorem Clear.insertLeaf_of_suffix (h : T.Clear q) (hr : r <:+ q) (hne : r ≠ q) :
    T.insertLeaf q a r = .table := by
  simp only [insertLeaf, hne, hr, if_true, if_false]
  cases hT : T r with
  | empty => rfl
  | table => rfl
  | leaf b => exact absurd hT (h.2 r b hr)

/-- The leaves after putting one. -/
theorem Clear.insertLeaf_eq_leaf (h : T.Clear q) :
    T.insertLeaf q a r = .leaf b ↔ (r = q ∧ b = a) ∨ T r = .leaf b := by
  by_cases hq : r = q
  · subst hq
    simp [h.1, eq_comm]
  · by_cases hs : r <:+ q
    · simp [h.insertLeaf_of_suffix hs hq, hq, h.2 r b hs]
    · simp [insertLeaf_of_not_suffix hs, hq]

/-! ## The tables that leaves create -/

/-- The empty slots along a path: the tables that reaching its end creates. -/
def holes (T : Tree ι α) (p : List ι) : Finset (List ι) :=
  p.tails.toFinset.filter fun r => (T r).isEmpty

/-- The tables that leaves at all of `qs` create. -/
def holesAll (T : Tree ι α) : List (List ι) → Finset (List ι)
  | [] => ∅
  | q :: qs => T.holes q.tail ∪ T.holesAll qs

theorem mem_holes : r ∈ T.holes p ↔ r <:+ p ∧ T r = .empty := by simp [holes]

theorem mem_holesAll {qs : List (List ι)} :
    r ∈ T.holesAll qs ↔ ∃ q ∈ qs, r <:+ q.tail ∧ T r = .empty := by
  induction qs with
  | nil => simp [holesAll]
  | cons q qs ih => simp [holesAll, mem_holes, ih]

theorem holes_cons_of_empty {i : ι} (h : T (i :: p) = .empty) :
    T.holes (i :: p) = insert (i :: p) (T.holes p) := by
  ext r
  rw [Finset.mem_insert, mem_holes, mem_holes, List.suffix_cons_iff]
  constructor
  · rintro ⟨rfl | hr, he⟩
    · exact Or.inl rfl
    · exact Or.inr ⟨hr, he⟩
  · rintro (rfl | ⟨hr, he⟩)
    · exact ⟨Or.inl rfl, h⟩
    · exact ⟨Or.inr hr, he⟩

theorem holes_cons_of_ne {i : ι} (h : T (i :: p) ≠ .empty) : T.holes (i :: p) = T.holes p := by
  ext r
  rw [mem_holes, mem_holes, List.suffix_cons_iff]
  refine ⟨?_, fun ⟨hr, he⟩ => ⟨Or.inr hr, he⟩⟩
  rintro ⟨rfl | hr, he⟩
  · exact absurd he h
  · exact ⟨hr, he⟩

theorem card_holes_cons_of_empty {i : ι} (h : T (i :: p) = .empty) :
    (T.holes (i :: p)).card = (T.holes p).card + 1 := by
  rw [holes_cons_of_empty h, Finset.card_insert_of_notMem]
  intro hm
  have := (mem_holes.mp hm).1.length_le
  simp only [List.length_cons] at this
  omega

/-- Putting one leaf creates its own tables, and the others need only the rest. -/
theorem Clear.holesAll_insertLeaf (h : T.Clear q) {qs : List (List ι)}
    (hq : ∀ r ∈ qs, ¬ q <:+ r) :
    (T.insertLeaf q a).holesAll qs = T.holesAll qs \ T.holes q.tail := by
  ext r
  simp only [mem_holesAll, Finset.mem_sdiff, mem_holes]
  constructor
  · rintro ⟨q', hq', hr, he⟩
    -- an empty slot that is left is not on the way to the new leaf
    have hrq : ¬ r <:+ q := fun hs => by
      by_cases hrq : r = q
      · simp [hrq] at he
      · simp [h.insertLeaf_of_suffix hs hrq] at he
    rw [insertLeaf_of_not_suffix hrq] at he
    exact ⟨⟨q', hq', hr, he⟩, fun hm => hrq (hm.1.trans (List.tail_suffix q))⟩
  · rintro ⟨⟨q', hq', hr, he⟩, hn⟩
    have hrq' : r <:+ q' := hr.trans (List.tail_suffix q')
    -- on the way there it would be one of its holes, or the slot of the leaf itself
    have hrq : ¬ r <:+ q := fun hs => by
      cases q with
      | nil => exact hq q' hq' List.nil_suffix
      | cons i q =>
        rcases List.suffix_cons_iff.mp hs with rfl | hs
        · exact hq q' hq' hrq'
        · exact hn ⟨hs, he⟩
    exact ⟨q', hq', hr, by rw [insertLeaf_of_not_suffix hrq, he]⟩

/-- **The count of created tables**, one leaf after the other. -/
theorem Clear.card_holesAll_cons (h : T.Clear q) (a : α) {qs : List (List ι)}
    (hq : ∀ r ∈ qs, ¬ q <:+ r) :
    (T.holesAll (q :: qs)).card =
      (T.holes q.tail).card + ((T.insertLeaf q a).holesAll qs).card := by
  rw [h.holesAll_insertLeaf hq, holesAll, ← Finset.union_sdiff_self_eq_union,
    Finset.card_union_of_disjoint Finset.disjoint_sdiff]

/-! ## Several leaves in order -/

/-- The tree after putting leaves in order. -/
def insertLeaves (T : Tree ι α) : List (List ι × α) → Tree ι α
  | [] => T
  | (q, a) :: l => (T.insertLeaf q a).insertLeaves l

/-- Leaves can be put in order with `n` tables to spend: at its turn each slot is clear, and the
tables it creates are left. -/
def Fits (T : Tree ι α) (n : ℕ) : List (List ι × α) → Prop
  | [] => True
  | (q, a) :: l => T.Clear q ∧ (T.holes q.tail).card ≤ n ∧
      (T.insertLeaf q a).Fits (n - (T.holes q.tail).card) l

/-- The tables that putting leaves in order creates. -/
def spent (T : Tree ι α) : List (List ι × α) → ℕ
  | [] => 0
  | (q, a) :: l => (T.holes q.tail).card + (T.insertLeaf q a).spent l

/-- Leaves fit one list after the other. -/
theorem fits_append {l₁ l₂ : List (List ι × α)} {n : ℕ} :
    T.Fits n (l₁ ++ l₂) ↔ T.Fits n l₁ ∧ (T.insertLeaves l₁).Fits (n - T.spent l₁) l₂ := by
  induction l₁ generalizing T n with
  | nil => exact (and_iff_right trivial).symm
  | cons x l₁ ih =>
    rw [List.cons_append, Fits, Fits, ih, insertLeaves, spent, Nat.sub_add_eq, and_assoc, and_assoc]

theorem Fits.of_append {l₁ l₂ : List (List ι × α)} {n : ℕ} (h : T.Fits n (l₁ ++ l₂)) :
    T.Fits n l₁ := (fits_append.mp h).1

/-- A slot is clear after putting a leaf when it was clear before and neither slot is above the
other. -/
theorem Clear.clear_insertLeaf (h : T.Clear q) :
    (T.insertLeaf q a).Clear r ↔ T.Clear r ∧ ¬ q <:+ r ∧ ¬ r <:+ q := by
  constructor
  · rintro ⟨he, hl⟩
    have hqr : ¬ q <:+ r := fun hs => hl q a hs insertLeaf_self
    -- on the way to the new leaf there are tables now
    have hrq : ¬ r <:+ q := fun hs => by
      by_cases hne : r = q
      · exact hqr (hne ▸ List.suffix_refl _)
      · simp [h.insertLeaf_of_suffix hs hne] at he
    rw [insertLeaf_of_not_suffix hrq] at he
    exact ⟨⟨he, fun t b ht hT => hl t b ht ((h.insertLeaf_eq_leaf).mpr (Or.inr hT))⟩, hqr, hrq⟩
  · rintro ⟨⟨he, hl⟩, hqr, hrq⟩
    refine ⟨by rw [insertLeaf_of_not_suffix hrq, he], fun t b ht hT => ?_⟩
    rcases (h.insertLeaf_eq_leaf).mp hT with ⟨rfl, -⟩ | hT
    · exact hqr ht
    · exact hl t b ht hT

/-- **When leaves fit**: every slot is clear, no slot is above another, and the tables they create
together are at most `n`. -/
theorem fits_iff {l : List (List ι × α)} {n : ℕ} :
    T.Fits n l ↔ (∀ x ∈ l, T.Clear x.1) ∧
      l.Pairwise (fun x y => ¬ x.1 <:+ y.1 ∧ ¬ y.1 <:+ x.1) ∧
      (T.holesAll (l.map Prod.fst)).card ≤ n := by
  -- on the list, for every tree: the first leaf is put, and the rest has to fit then
  induction l generalizing T n with
  | nil => simp [Fits, holesAll]
  | cons x l ih =>
    obtain ⟨q, a⟩ := x
    rw [Fits, ih, List.pairwise_cons, List.map_cons]
    constructor
    · rintro ⟨hc, hn, hcl, hp, hcard⟩
      -- what is clear after the first leaf was clear before, and neither is above the other
      have hql : ∀ x ∈ l, T.Clear x.1 ∧ ¬ q <:+ x.1 ∧ ¬ x.1 <:+ q := fun x hx =>
        hc.clear_insertLeaf.mp (hcl x hx)
      refine ⟨fun x hx => ?_, ⟨fun x hx => (hql x hx).2, hp⟩, ?_⟩
      · rcases List.mem_cons.mp hx with rfl | hx
        · exact hc
        · exact (hql x hx).1
      · rw [hc.card_holesAll_cons a (by simpa using fun r b hr => (hql (r, b) hr).2.1)]
        omega
    · rintro ⟨hcl, ⟨hqp, hp⟩, hcard⟩
      have hc : T.Clear q := hcl (q, a) (by simp)
      rw [hc.card_holesAll_cons a (by simpa using fun r b hr => (hqp (r, b) hr).1)] at hcard
      refine ⟨hc, by omega, fun x hx => ?_, hp, by omega⟩
      exact hc.clear_insertLeaf.mpr ⟨hcl x (by simp [hx]), hqp x hx⟩

/-- The paths of leaves that fit are distinct. -/
theorem Fits.nodup {l : List (List ι × α)} {n : ℕ} (h : T.Fits n l) : (l.map Prod.fst).Nodup := by
  have hp := (fits_iff.mp h).2.1
  rw [List.Nodup, List.pairwise_map]
  exact hp.imp fun {x y} hxy (he : x.1 = y.1) => hxy.1 (he ▸ List.suffix_refl _)

/-- **The leaves after putting several.** -/
theorem Fits.insertLeaves_eq_leaf {l : List (List ι × α)} {n : ℕ} (h : T.Fits n l) :
    T.insertLeaves l r = .leaf b ↔ (r, b) ∈ l ∨ T r = .leaf b := by
  induction l generalizing T n with
  | nil => simp [insertLeaves]
  | cons x l ih =>
    obtain ⟨q, a⟩ := x
    obtain ⟨hc, -, hl⟩ := h
    rw [insertLeaves, ih hl, hc.insertLeaf_eq_leaf, List.mem_cons, Prod.mk.injEq]
    tauto

/-- Putting a leaf in a clear slot can be looked up, and the slot could not before. -/
theorem WF.lookup_of_clear (h : T.WF) (hc : T.Clear q) (hqk : q <:+ k) : T.lookup k = none := by
  refine h.lookup_eq_none.mpr fun r b hr hT => ?_
  rcases List.suffix_or_suffix_of_suffix hr hqk with hs | hs
  · exact hc.2 r b hs hT
  · have hne : T r = .empty := by
      by_cases hrq : q = r
      · exact hrq ▸ hc.1
      · exact h.empty_below (by simp [hc.1]) hs hrq
    simp [hne] at hT

end Tree

end RadixTree
