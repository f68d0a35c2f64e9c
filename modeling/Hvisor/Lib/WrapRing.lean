import Mathlib.Data.Nat.Bitwise
import Mathlib.Data.Nat.ModEq
import Mathlib.Order.Interval.Finset.Nat

/-!
# Rings with a wrap bit

A ring of `2 ^ k` slots. The entries are numbered in the order in which they come, and entry `i` is
in slot `i % 2 ^ k`. Each end keeps a register whose low `k` bits are the slot it is at and whose
bit `k` changes each time it passes the end of the ring, so that a full ring and an empty one differ
in that bit. The bits above may be anything.

## Main definitions

* `WrapRing.Keeps`: the entries from a front number up to a rear number are in their slots

## Main results

* `WrapRing.empty_iff`, `WrapRing.full_iff`: what two registers say of the numbers of the ends
* `WrapRing.slot_ne`: an entry that waits is not in the next slot
* `WrapRing.Keeps.write`: the next entry is written
-/

namespace WrapRing

variable {α : Type*} {k n r s c c' p p' i : ℕ} {slot : ℕ → α} {l : List α} {a : α}

/-! ## The registers -/

/-- The slot and the wrap bit are the position modulo twice the size. -/
theorem mod_eq_iff : r % 2 ^ (k + 1) = s % 2 ^ (k + 1) ↔
    r % 2 ^ k = s % 2 ^ k ∧ r.testBit k = s.testBit k := by
  constructor
  · intro h
    have hle : 2 ^ k ∣ 2 ^ (k + 1) := Nat.pow_dvd_pow 2 (Nat.le_succ k)
    refine ⟨?_, ?_⟩
    · rw [← Nat.mod_mod_of_dvd r hle, h, Nat.mod_mod_of_dvd s hle]
    · have hbit := congrArg (·.testBit k) h
      simpa using hbit
  · rintro ⟨hslot, hbit⟩
    have hquot : r / 2 ^ k % 2 = s / 2 ^ k % 2 := by
      simp only [Nat.testBit_eq_decide_div_mod_eq, decide_eq_decide] at hbit
      omega
    rw [Nat.pow_succ, Nat.mod_mul, Nat.mod_mul, hslot, hquot]

/-- **An empty ring**: the registers are at the same slot and in the same lap. -/
theorem empty_iff (hr : r ≡ p [MOD 2 ^ (k + 1)]) (hs : s ≡ c [MOD 2 ^ (k + 1)]) (hcp : c ≤ p)
    (hpc : p ≤ c + 2 ^ k) : r % 2 ^ k = s % 2 ^ k ∧ r.testBit k = s.testBit k ↔ p = c := by
  rw [← mod_eq_iff, hr, hs]
  constructor
  · intro h
    -- the distance of the ends is below twice the size
    obtain ⟨d, rfl⟩ := Nat.exists_eq_add_of_le hcp
    have hd : d ≡ 0 [MOD 2 ^ (k + 1)] := Nat.ModEq.add_left_cancel' c h
    have hlt : d < 2 ^ (k + 1) := by
      rw [Nat.pow_succ]
      have := Nat.two_pow_pos k
      omega
    rw [Nat.ModEq, Nat.zero_mod, Nat.mod_eq_of_lt hlt] at hd
    rw [hd, Nat.add_zero]
  · rintro rfl
    rfl

/-- **A full ring**: the registers are at the same slot, and one lap apart. -/
theorem full_iff (hr : r ≡ p [MOD 2 ^ (k + 1)]) (hs : s ≡ c [MOD 2 ^ (k + 1)]) (hcp : c ≤ p)
    (hpc : p ≤ c + 2 ^ k) :
    r % 2 ^ k = s % 2 ^ k ∧ r.testBit k ≠ s.testBit k ↔ p = c + 2 ^ k := by
  have hempty := empty_iff hr hs hcp hpc
  have hdvd : 2 ^ k ∣ 2 ^ (k + 1) := Nat.pow_dvd_pow 2 (Nat.le_succ k)
  have hslot : r % 2 ^ k = s % 2 ^ k ↔ p % 2 ^ k = c % 2 ^ k := by
    rw [hr.of_dvd hdvd, hs.of_dvd hdvd]
  constructor
  · rintro ⟨hsame, hlap⟩
    have hne : p ≠ c := fun h => hlap (hempty.mpr h).2
    obtain ⟨d, rfl⟩ := Nat.exists_eq_add_of_le hcp
    have hd : d ≡ 0 [MOD 2 ^ k] := Nat.ModEq.add_left_cancel' c (hslot.mp hsame)
    obtain ⟨q, rfl⟩ := (Nat.modEq_zero_iff_dvd).mp hd
    have hpos : q ≠ 0 := by
      rintro rfl
      exact hne rfl
    -- a multiple of the size that is positive and no greater than the size
    have hq : 2 ^ k ≤ 2 ^ k * q := Nat.le_mul_of_pos_right _ (Nat.pos_of_ne_zero hpos)
    omega
  · rintro rfl
    refine ⟨hslot.mpr (Nat.add_mod_right c (2 ^ k)), fun hlap => ?_⟩
    have hself := hempty.mp ⟨hslot.mpr (Nat.add_mod_right c (2 ^ k)), hlap⟩
    have := Nat.two_pow_pos k
    omega

/-! ## The slots -/

/-- **An entry that waits** is in another slot than the one that comes next. -/
theorem slot_ne (hc : c ≤ i) (hi : i < p) (hp : p < c + n) : i % n ≠ p % n := by
  intro h
  have hmem : ∀ j, c ≤ j → j ≤ p → j ∈ (Finset.Ico c (c + n) : Set ℕ) := fun j hcj hjp =>
    Finset.mem_coe.mpr (Finset.mem_Ico.mpr ⟨hcj, hjp.trans_lt hp⟩)
  have heq := Nat.mod_injOn_Ico c n (hmem i hc hi.le) (hmem p (hc.trans hi.le) le_rfl) h
  exact hi.ne heq

/-- The entries with the numbers from `c` up to `p` are in their slots. -/
def Keeps (slot : ℕ → α) (n : ℕ) (l : List α) (c p : ℕ) : Prop :=
  ∀ i, c ≤ i → i < p → l[i]? = some (slot (i % n))

namespace Keeps

theorem of_le (h : p ≤ c) : Keeps slot n l c p := fun _ hc hi =>
  absurd (hc.trans_lt hi) h.not_gt

/-- Fewer entries are in their slots too. -/
theorem mono (h : Keeps slot n l c p) (hc : c ≤ c') (hp : p' ≤ p) : Keeps slot n l c' p' :=
  fun i hi hip => h i (hc.trans hi) (hip.trans_le hp)

/-- The entry behind the last one is written to its slot, when the ring is not full. -/
theorem write (h : Keeps slot n l c p) (hp : p < c + n) (ha : l[p]? = some a) :
    Keeps (Function.update slot (p % n) a) n l c (p + 1) := by
  intro i hc hi
  rcases Nat.lt_succ_iff_lt_or_eq.mp hi with hlt | rfl
  · rw [Function.update_of_ne (slot_ne hc hlt hp)]
    exact h i hc hlt
  · rw [Function.update_self]
    exact ha

/-- An entry is to come that is not yet written. -/
theorem append (h : Keeps slot n l c p) (hp : p ≤ l.length) (a : α) :
    Keeps slot n (l ++ [a]) c p := fun i hc hi => by
  rw [List.getElem?_append_left (hi.trans_le hp)]
  exact h i hc hi

end Keeps

end WrapRing
