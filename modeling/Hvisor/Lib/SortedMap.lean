import Mathlib.Order.Lattice
import Mathlib.Data.List.Basic
import Mathlib.Data.List.Pairwise
import Mathlib.Tactic.Cases

/-!
# Sorted maps

A finite map from a linear order, kept as its entries in strictly increasing key order: the
iteration order of a balanced search tree without its shape.

## Main definitions

* `SortedMap`: the entries with their order
* `SortedMap.insert`, `SortedMap.erase`, `SortedMap.get?`: the operations by key
* `SortedMap.keys`, `SortedMap.size`: the keys and their number
* `SortedMap.lastBelow`, `SortedMap.firstFrom`: the neighbours of a key

## Main results

* `SortedMap.mem_insert`, `SortedMap.mem_erase`: the entries after an operation
* `SortedMap.get?_eq_some`: lookup by key is membership
* `SortedMap.ext_get?`: a map is known by its values
* `SortedMap.keys_insert_of_mem`: an entry that is replaced keeps its key
* `SortedMap.lastBelow_eq_some`, `SortedMap.firstFrom_eq_some`: the neighbours are the closest keys
-/

/-- A finite map as its entries in strictly increasing key order. -/
structure SortedMap (κ ν : Type*) [LinearOrder κ] where
  entries : List (κ × ν)
  sorted : entries.Pairwise fun a b => a.1 < b.1

namespace SortedMap

variable {κ ν : Type*} [LinearOrder κ] {m : SortedMap κ ν} {k k' : κ} {v v' : ν}

instance : Membership (κ × ν) (SortedMap κ ν) := ⟨fun m e => e ∈ m.entries⟩

theorem mem_def {e : κ × ν} : e ∈ m ↔ e ∈ m.entries := Iff.rfl

@[ext] theorem ext_entries {m' : SortedMap κ ν} (h : m.entries = m'.entries) : m = m' := by
  cases m
  cases m'
  simpa using h

/-- The map without entries. -/
def empty : SortedMap κ ν := ⟨[], .nil⟩

@[simp] theorem not_mem_empty {e : κ × ν} : e ∉ (empty : SortedMap κ ν) := by simp [mem_def, empty]

/-- The values in key order. -/
def values (m : SortedMap κ ν) : List ν := m.entries.map Prod.snd

@[simp] theorem mem_values : v ∈ m.values ↔ ∃ k, (k, v) ∈ m := by simp [values, mem_def]

theorem value_unique (h : (k, v) ∈ m) (h' : (k, v') ∈ m) : v = v' := by
  have key : ∀ {l : List (κ × ν)}, l.Pairwise (fun a b => a.1 < b.1) → (k, v) ∈ l → (k, v') ∈ l →
      v = v' := by
    intro l hl
    induction hl with
    | nil => simp
    | @cons a l ha _ ih =>
      intro h₁ h₂
      rcases List.mem_cons.mp h₁ with e₁ | m₁ <;> rcases List.mem_cons.mp h₂ with e₂ | m₂
      · exact (Prod.mk.inj (e₁.trans e₂.symm)).2
      · exact absurd (ha _ m₂) (by simp [← e₁])
      · exact absurd (ha _ m₁) (by simp [← e₂])
      · exact ih m₁ m₂
  exact key m.sorted h h'

/-! ## Operations by key -/

/-- The entries with `(k, v)` put in its place. -/
def insertEntries (k : κ) (v : ν) : List (κ × ν) → List (κ × ν)
  | [] => [(k, v)]
  | e :: l => if k < e.1 then (k, v) :: e :: l
    else if e.1 < k then e :: insertEntries k v l
    else (k, v) :: l

theorem mem_insertEntries {l : List (κ × ν)} (hl : l.Pairwise fun a b => a.1 < b.1)
    {e : κ × ν} : e ∈ insertEntries k v l ↔ e = (k, v) ∨ e.1 ≠ k ∧ e ∈ l := by
  induction hl with
  | nil => simp [insertEntries]
  | @cons a l ha _ ih =>
    have hne : ∀ b ∈ l, ¬ k < a.1 → ¬ a.1 < k → b.1 ≠ k := fun b hb h₁ h₂ e =>
      h₂ (e ▸ ha b hb)
    rw [insertEntries]
    split_ifs with h₁ h₂
    · have hgt : ∀ b ∈ a :: l, b.1 ≠ k := by
        intro b hb e
        rcases List.mem_cons.mp hb with rfl | hb
        · exact absurd h₁ (by simp [e])
        · exact absurd (h₁.trans (ha b hb)) (by simp [e])
      rw [List.mem_cons]
      exact or_congr_right ⟨fun h => ⟨hgt e h, h⟩, fun h => h.2⟩
    · rw [List.mem_cons, ih, List.mem_cons]
      constructor
      · rintro (rfl | rfl | ⟨h, hm⟩)
        · exact Or.inr ⟨ne_of_lt h₂, Or.inl rfl⟩
        · exact Or.inl rfl
        · exact Or.inr ⟨h, Or.inr hm⟩
      · rintro (rfl | ⟨h, rfl | hm⟩)
        · exact Or.inr (Or.inl rfl)
        · exact Or.inl rfl
        · exact Or.inr (Or.inr ⟨h, hm⟩)
    · rw [List.mem_cons, List.mem_cons]
      have hak : a.1 = k := le_antisymm (not_lt.mp h₁) (not_lt.mp h₂)
      constructor
      · rintro (rfl | hm)
        · exact Or.inl rfl
        · exact Or.inr ⟨hne e hm h₁ h₂, Or.inr hm⟩
      · rintro (rfl | ⟨h, rfl | hm⟩)
        · exact Or.inl rfl
        · exact absurd hak h
        · exact Or.inr hm

theorem sorted_insertEntries {l : List (κ × ν)} (hl : l.Pairwise fun a b => a.1 < b.1) :
    (insertEntries k v l).Pairwise fun a b => a.1 < b.1 := by
  induction hl with
  | nil => simp [insertEntries]
  | @cons a l ha hl ih =>
    rw [insertEntries]
    split_ifs with h₁ h₂
    · refine List.pairwise_cons.mpr ⟨fun b hb => ?_, List.pairwise_cons.mpr ⟨ha, hl⟩⟩
      rcases List.mem_cons.mp hb with rfl | hb
      · exact h₁
      · exact h₁.trans (ha b hb)
    · refine List.pairwise_cons.mpr ⟨fun b hb => ?_, ih⟩
      rcases (mem_insertEntries hl).mp hb with rfl | ⟨-, hb⟩
      · exact h₂
      · exact ha b hb
    · refine List.pairwise_cons.mpr ⟨fun b hb => ?_, hl⟩
      have hak : a.1 = k := le_antisymm (not_lt.mp h₁) (not_lt.mp h₂)
      simpa [hak] using ha b hb

/-- Insert an entry, replacing the one with the same key. -/
def insert (m : SortedMap κ ν) (k : κ) (v : ν) : SortedMap κ ν :=
  ⟨insertEntries k v m.entries, sorted_insertEntries m.sorted⟩

/-- Remove the entry of a key. -/
def erase (m : SortedMap κ ν) (k : κ) : SortedMap κ ν :=
  ⟨m.entries.filter fun e => e.1 ≠ k, m.sorted.filter _⟩

/-- The value of a key. -/
def get? (m : SortedMap κ ν) (k : κ) : Option ν :=
  (m.entries.find? fun e => e.1 = k).map Prod.snd

theorem mem_insert : (k', v') ∈ m.insert k v ↔ (k' = k ∧ v' = v) ∨ k' ≠ k ∧ (k', v') ∈ m := by
  rw [mem_def, insert, mem_insertEntries m.sorted, Prod.mk.injEq]
  rfl

theorem mem_erase : (k', v') ∈ m.erase k ↔ k' ≠ k ∧ (k', v') ∈ m := by
  rw [mem_def, erase, List.mem_filter, and_comm]
  simp [mem_def]

theorem get?_eq_some : m.get? k = some v ↔ (k, v) ∈ m := by
  rw [get?, Option.map_eq_some_iff]
  constructor
  · rintro ⟨e, he, rfl⟩
    have hk : e.1 = k := by simpa using List.find?_some he
    exact hk ▸ List.mem_of_find?_eq_some he
  · intro h
    cases hf : m.entries.find? fun e => e.1 = k with
    | none => exact absurd (List.find?_eq_none.mp hf _ h) (by simp)
    | some e =>
      have hk : e.1 = k := by simpa using List.find?_some hf
      have hm : (k, e.2) ∈ m := hk ▸ List.mem_of_find?_eq_some hf
      exact ⟨e, rfl, value_unique hm h⟩

theorem get?_eq_none : m.get? k = none ↔ ∀ v, (k, v) ∉ m := by
  rw [Option.eq_none_iff_forall_ne_some]
  exact forall_congr' fun v => not_congr get?_eq_some

theorem get?_insert (m : SortedMap κ ν) (k k' : κ) (v : ν) :
    (m.insert k v).get? k' = if k' = k then some v else m.get? k' := by
  ext v'
  rw [get?_eq_some, mem_insert]
  split_ifs with hk
  · simp [hk, eq_comm]
  · simp [hk, get?_eq_some]

/-- Maps with the same values are the same. -/
theorem ext_get? {m' : SortedMap κ ν} (h : ∀ k, m.get? k = m'.get? k) : m = m' := by
  have hmem : ∀ e, e ∈ m.entries ↔ e ∈ m'.entries := fun e => by
    rw [← mem_def, ← mem_def, ← get?_eq_some, ← get?_eq_some, h]
  have hnd : ∀ m : SortedMap κ ν, m.entries.Nodup := fun m =>
    m.sorted.imp fun hlt he => hlt.ne (congrArg Prod.fst he)
  refine ext_entries (((List.perm_ext_iff_of_nodup (hnd m) (hnd m')).mpr hmem).eq_of_pairwise ?_
    m.sorted m'.sorted)
  intro a b _ _ hab hba
  exact absurd (hab.trans hba) (lt_irrefl _)

theorem insert_eq_self_iff : m.insert k v = m ↔ m.get? k = some v := by
  constructor
  · intro h
    rw [← h, get?_insert, if_pos rfl]
  · intro h
    refine ext_get? fun k' => ?_
    rw [get?_insert]
    split_ifs with hk
    · rw [hk, h]
    · rfl

/-! ## Keys -/

/-- The keys in order. -/
def keys (m : SortedMap κ ν) : List κ := m.entries.map Prod.fst

/-- The number of entries. -/
def size (m : SortedMap κ ν) : Nat := m.entries.length

theorem mem_keys : k ∈ m.keys ↔ (m.get? k).isSome := by
  rw [Option.isSome_iff_exists, keys, List.mem_map]
  simp only [get?_eq_some, mem_def]
  constructor
  · rintro ⟨e, he, rfl⟩
    exact ⟨e.2, he⟩
  · rintro ⟨v, hv⟩
    exact ⟨_, hv, rfl⟩

theorem size_eq_length_keys (m : SortedMap κ ν) : m.size = m.keys.length := by
  rw [size, keys, List.length_map]

/-- Replacing a value leaves the keys as they are. -/
theorem keys_insert_of_mem (h : k ∈ m.keys) : (m.insert k v).keys = m.keys := by
  have key : ∀ {l : List (κ × ν)}, l.Pairwise (fun a b => a.1 < b.1) → k ∈ l.map Prod.fst →
      (insertEntries k v l).map Prod.fst = l.map Prod.fst := by
    intro l hl
    induction hl with
    | nil => simp
    | @cons a l ha _ ih =>
      intro hk
      rw [insertEntries]
      rcases List.mem_cons.mp hk with rfl | hk
      · simp
      · obtain ⟨e, he, rfl⟩ := List.mem_map.mp hk
        have hlt := ha e he
        rw [if_neg hlt.not_gt, if_pos hlt, List.map_cons, List.map_cons, ih hk]
  exact key m.sorted h

/-! ## The neighbours of a key -/

/-- The entry with the greatest key below `k`. -/
def lastBelow (m : SortedMap κ ν) (k : κ) : Option (κ × ν) :=
  (m.entries.filter fun e => e.1 < k).getLast?

/-- The entry with the least key from `k` on. -/
def firstFrom (m : SortedMap κ ν) (k : κ) : Option (κ × ν) := m.entries.find? fun e => k ≤ e.1

theorem lastBelow_eq_some {e : κ × ν} (h : m.lastBelow k = some e) :
    e ∈ m ∧ e.1 < k ∧ ∀ e' ∈ m, e'.1 < k → e'.1 ≤ e.1 := by
  obtain ⟨l, hl⟩ := List.getLast?_eq_some_iff.mp h
  have he : e ∈ m.entries.filter fun e => e.1 < k := by rw [hl]; simp
  refine ⟨(List.mem_filter.mp he).1, by simpa using (List.mem_filter.mp he).2, ?_⟩
  intro e' hm hk
  have he' : e' ∈ m.entries.filter fun e => e.1 < k := List.mem_filter.mpr ⟨hm, by simpa using hk⟩
  have hs : (l ++ [e]).Pairwise fun a b => a.1 < b.1 := hl ▸ m.sorted.filter _
  rw [hl, List.mem_append, List.mem_singleton] at he'
  rcases he' with he' | rfl
  · exact ((List.pairwise_append.mp hs).2.2 e' he' e (by simp)).le
  · exact le_rfl

theorem lastBelow_eq_none (h : m.lastBelow k = none) {e : κ × ν} (he : e ∈ m) : k ≤ e.1 := by
  have hn := List.getLast?_eq_none_iff.mp h
  simpa using List.filter_eq_nil_iff.mp hn e he

theorem firstFrom_eq_some {e : κ × ν} (h : m.firstFrom k = some e) :
    e ∈ m ∧ k ≤ e.1 ∧ ∀ e' ∈ m, k ≤ e'.1 → e.1 ≤ e'.1 := by
  refine ⟨List.mem_of_find?_eq_some h, by simpa using List.find?_some h, fun e' hm hk => ?_⟩
  obtain ⟨-, l₁, l₂, hl, hnot⟩ := List.find?_eq_some_iff_append.mp h
  have hs : (l₁ ++ e :: l₂).Pairwise fun a b => a.1 < b.1 := hl ▸ m.sorted
  rw [mem_def, hl, List.mem_append, List.mem_cons] at hm
  rcases hm with hm | rfl | hm
  · exact absurd hk (by simpa using hnot e' hm)
  · exact le_rfl
  · exact ((List.pairwise_cons.mp (List.pairwise_append.mp hs).2.1).1 e' hm).le

theorem firstFrom_eq_none (h : m.firstFrom k = none) {e : κ × ν} (he : e ∈ m) : e.1 < k := by
  simpa using List.find?_eq_none.mp h e he

end SortedMap
