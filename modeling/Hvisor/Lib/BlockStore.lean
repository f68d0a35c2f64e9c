import Mathlib.Data.Set.Image
import Mathlib.Logic.Function.Basic

/-!
# Blocks in a partial map

A partial map holds blocks. A block is a set of indices, each with a key and a value. Filling a
block takes keys that are free, and clearing it frees them.

## Main definitions

* `BlockStore.Fills`, `BlockStore.Clears`: what filling and clearing does to the map
* `BlockStore.Holds`: the map holds exactly these blocks

## Main results

* `BlockStore.Fills.union`, `BlockStore.Clears.union`: one part after the other
* `BlockStore.Holds.fill`, `BlockStore.Holds.clear`: a block is added, or taken out
* `BlockStore.Holds.eq_none_iff`: the keys that are free
-/

namespace BlockStore

open Function Set

variable {ι κ α ρ : Type*} {key : ι → κ} {P Q : Set ι} {v : ι → α} {m m₁ m' : κ → Option α}

/-- The keys of the indices were free and hold their values, and all other keys are as before. -/
structure Fills (key : ι → κ) (P : Set ι) (v : ι → α) (m m' : κ → Option α) : Prop where
  free : ∀ i ∈ P, m (key i) = none
  filled : ∀ i ∈ P, m' (key i) = some (v i)
  kept : ∀ k, k ∉ key '' P → m' k = m k

/-- The keys of the indices are free, and all other keys are as before. -/
structure Clears (key : ι → κ) (P : Set ι) (m m' : κ → Option α) : Prop where
  cleared : ∀ i ∈ P, m' (key i) = none
  kept : ∀ k, k ∉ key '' P → m' k = m k

theorem Fills.empty (key : ι → κ) (v : ι → α) (m : κ → Option α) : Fills key ∅ v m m :=
  ⟨fun _ hi => hi.elim, fun _ hi => hi.elim, fun _ _ => rfl⟩

theorem Clears.empty (key : ι → κ) (m : κ → Option α) : Clears key ∅ m m :=
  ⟨fun _ hi => hi.elim, fun _ _ => rfl⟩

/-- Indices that share one free key. -/
theorem Fills.of_key [DecidableEq κ] {k : κ} {a : α} (hP : P.Nonempty) (hkey : ∀ i ∈ P, key i = k)
    (hv : ∀ i ∈ P, v i = a) (hfree : m k = none) : Fills key P v m (update m k (some a)) := by
  obtain ⟨i₀, hi₀⟩ := hP
  refine ⟨fun i hi => ?_, fun i hi => ?_, fun k' hk' => ?_⟩
  · rw [hkey i hi, hfree]
  · rw [hkey i hi, hv i hi, update_self]
  · apply update_of_ne
    rintro rfl
    exact hk' ⟨i₀, hi₀, hkey i₀ hi₀⟩

theorem Clears.of_key [DecidableEq κ] {k : κ} (hP : P.Nonempty) (hkey : ∀ i ∈ P, key i = k) :
    Clears key P m (update m k none) := by
  obtain ⟨i₀, hi₀⟩ := hP
  refine ⟨fun i hi => ?_, fun k' hk' => ?_⟩
  · rw [hkey i hi, update_self]
  · apply update_of_ne
    rintro rfl
    exact hk' ⟨i₀, hi₀, hkey i₀ hi₀⟩

/-- **One part is filled after the other.** A key that the first has taken is not free for the
second. -/
theorem Fills.union (h : Fills key P v m m₁) (h' : Fills key Q v m₁ m') :
    Fills key (P ∪ Q) v m m' := by
  have hsep : ∀ i ∈ P, key i ∉ key '' Q := by
    rintro i hi ⟨j, hj, hji⟩
    have hfull := h.filled i hi
    rw [← hji, h'.free j hj] at hfull
    cases hfull
  refine ⟨?_, ?_, fun k hk => ?_⟩
  · rintro i (hi | hi)
    · exact h.free i hi
    · by_cases hin : key i ∈ key '' P
      · obtain ⟨j, hj, hji⟩ := hin
        exact absurd ⟨i, hi, hji.symm⟩ (hsep j hj)
      · rw [← h.kept _ hin]
        exact h'.free i hi
  · rintro i (hi | hi)
    · rw [h'.kept _ (hsep i hi)]
      exact h.filled i hi
    · exact h'.filled i hi
  · rw [image_union, mem_union, not_or] at hk
    rw [h'.kept k hk.2, h.kept k hk.1]

theorem Clears.union (h : Clears key P m m₁) (h' : Clears key Q m₁ m') :
    Clears key (P ∪ Q) m m' := by
  refine ⟨?_, fun k hk => ?_⟩
  · rintro i (hi | hi)
    · by_cases hin : key i ∈ key '' Q
      · obtain ⟨j, hj, hji⟩ := hin
        rw [← hji]
        exact h'.cleared j hj
      · rw [h'.kept _ hin]
        exact h.cleared i hi
    · exact h'.cleared i hi
  · rw [image_union, mem_union, not_or] at hk
    rw [h'.kept k hk.2, h.kept k hk.1]

/-! ## What a map holds -/

/-- **The map holds exactly the blocks**, and no key belongs to two of them. -/
structure Holds (key : ι → κ) (block : ρ → Set ι) (v : ρ → ι → α) (R : Set ρ)
    (m : κ → Option α) : Prop where
  eq_some_iff : ∀ k a, m k = some a ↔ ∃ r ∈ R, ∃ i ∈ block r, key i = k ∧ v r i = a
  apart : ∀ r ∈ R, ∀ r' ∈ R, ∀ i ∈ block r, ∀ i' ∈ block r', key i = key i' → r = r'

variable {block : ρ → Set ι} {w : ρ → ι → α} {R : Set ρ} {r : ρ} {i : ι}

theorem Holds.empty (hm : ∀ k, m k = none) : Holds key block w ∅ m := by
  refine ⟨fun k a => ?_, fun r hr => hr.elim⟩
  rw [hm]
  exact iff_of_false (Option.some_ne_none a).symm fun ⟨_, hr, _⟩ => hr.elim

theorem Holds.eq_some (h : Holds key block w R m) (hr : r ∈ R) (hi : i ∈ block r) :
    m (key i) = some (w r i) := (h.eq_some_iff _ _).mpr ⟨r, hr, i, hi, rfl, rfl⟩

/-- **The keys that are free** belong to no block. -/
theorem Holds.eq_none_iff (h : Holds key block w R m) {k : κ} :
    m k = none ↔ ∀ r ∈ R, ∀ i ∈ block r, key i ≠ k := by
  constructor
  · rintro hk r hr i hi rfl
    rw [h.eq_some hr hi] at hk
    cases hk
  · intro hk
    apply Option.eq_none_iff_forall_ne_some.mpr
    intro a ha
    obtain ⟨r, hr, i, hi, hik, -⟩ := (h.eq_some_iff k a).mp ha
    exact hk r hr i hi hik

/-- **A block is added.** Its keys were free, so no other block has one of them. -/
theorem Holds.fill (h : Holds key block w R m) (hf : Fills key (block r) (w r) m m') :
    Holds key block w (Insert.insert r R) m' := by
  have hnew : ∀ r' ∈ R, ∀ i ∈ block r, ∀ i' ∈ block r', key i ≠ key i' := by
    intro r' hr' i hi i' hi' he
    exact h.eq_none_iff.mp (hf.free i hi) r' hr' i' hi' he.symm
  refine ⟨fun k a => ?_, ?_⟩
  · by_cases hk : k ∈ key '' block r
    · obtain ⟨i, hi, rfl⟩ := hk
      rw [hf.filled i hi, Option.some.injEq]
      constructor
      · rintro rfl
        exact ⟨r, mem_insert r R, i, hi, rfl, rfl⟩
      · rintro ⟨r', rfl | hr', i', hi', hkey, rfl⟩
        · have hfull := hf.filled i' hi'
          rw [hkey, hf.filled i hi] at hfull
          exact Option.some.inj hfull
        · exact absurd hkey.symm (hnew r' hr' i hi i' hi')
    · rw [hf.kept k hk, h.eq_some_iff]
      constructor
      · rintro ⟨r', hr', hi⟩
        exact ⟨r', mem_insert_of_mem r hr', hi⟩
      · rintro ⟨r', rfl | hr', i, hi, hkey, ha⟩
        · exact absurd ⟨i, hi, hkey⟩ hk
        · exact ⟨r', hr', i, hi, hkey, ha⟩
  · rintro r₁ (rfl | hr₁) r₂ (rfl | hr₂) i hi i' hi' he
    · rfl
    · exact absurd he (hnew r₂ hr₂ i hi i' hi')
    · exact absurd he.symm (hnew r₁ hr₁ i' hi' i hi)
    · exact h.apart r₁ hr₁ r₂ hr₂ i hi i' hi' he

/-- **A block is taken out**, and its keys belong to no other one. -/
theorem Holds.clear (h : Holds key block w R m) (hr : r ∈ R) (hc : Clears key (block r) m m') :
    Holds key block w (R \ {r}) m' := by
  refine ⟨fun k a => ?_, fun r₁ hr₁ r₂ hr₂ => h.apart r₁ hr₁.1 r₂ hr₂.1⟩
  by_cases hk : k ∈ key '' block r
  · obtain ⟨i, hi, rfl⟩ := hk
    rw [hc.cleared i hi]
    refine iff_of_false (Option.some_ne_none a).symm ?_
    rintro ⟨r', hr', i', hi', hkey, -⟩
    exact hr'.2 (h.apart r' hr'.1 r hr i' hi' i hi hkey)
  · rw [hc.kept k hk, h.eq_some_iff]
    constructor
    · rintro ⟨r', hr', i, hi, hkey, ha⟩
      refine ⟨r', ⟨hr', ?_⟩, i, hi, hkey, ha⟩
      rintro rfl
      exact hk ⟨i, hi, hkey⟩
    · rintro ⟨r', hr', hi⟩
      exact ⟨r', hr'.1, hi⟩

end BlockStore
