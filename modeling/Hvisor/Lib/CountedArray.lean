import Mathlib.Data.List.Basic
import Mathlib.Tactic.TypeStar

/-!
# Arrays that count their elements

An array with a place for a number and `n` places for elements. The number says how many of the
places, from the first on, hold an element.

## Main definitions

* `CountedArray.valid`: the elements that the array holds
* `CountedArray.clear`, `CountedArray.push`: no element, and one element more

## Main results

* `CountedArray.valid_clear`, `CountedArray.valid_push`, `CountedArray.length_valid`
-/

namespace CountedArray

variable {n : ℕ} {v : Vector ℕ (n + 1)} {x : ℕ}

/-- The elements that the array holds. -/
def valid (v : Vector ℕ (n + 1)) : List ℕ := (v.toList.drop 1).take v[0]

/-- Forget the elements. -/
def clear (v : Vector ℕ (n + 1)) : Vector ℕ (n + 1) := v.set 0 0

/-- Put one element behind the others. -/
def push (v : Vector ℕ (n + 1)) (x : ℕ) (h : v[0] < n) : Vector ℕ (n + 1) :=
  (v.set (v[0] + 1) x).set 0 (v[0] + 1)

@[simp] theorem clear_zero : (clear v)[0] = 0 := by simp [clear]

@[simp] theorem push_zero (h : v[0] < n) : (push v x h)[0] = v[0] + 1 := by simp [push]

theorem length_valid (h : v[0] ≤ n) : (valid v).length = v[0] := by
  rw [valid, List.length_take, List.length_drop, Vector.length_toList]
  omega

@[simp] theorem valid_clear : valid (clear v) = [] := by
  rw [valid, clear_zero, List.take_zero]

@[simp] theorem valid_replicate (n : ℕ) : valid (Vector.replicate (n + 1) 0) = [] := by
  simp [valid]

/-- The pushed element is behind the others. -/
theorem valid_push (h : v[0] < n) : valid (push v x h) = valid v ++ [x] := by
  apply List.ext_getElem
  · rw [length_valid (by rw [push_zero]; omega), List.length_append,
      length_valid (Nat.le_of_lt h), push_zero, List.length_singleton]
  · intro i hi hi'
    rw [length_valid (by rw [push_zero]; omega), push_zero] at hi
    have hv : i < (valid v ++ [x]).length := hi'
    rw [List.getElem_append]
    split
    · next hlt =>
      rw [length_valid (Nat.le_of_lt h)] at hlt
      simp only [valid, push, List.getElem_take, List.getElem_drop, Vector.getElem_toList]
      rw [Vector.getElem_set_ne _ _ (by omega), Vector.getElem_set_ne _ _ (by omega)]
    · next hge =>
      rw [length_valid (Nat.le_of_lt h)] at hge
      simp only [valid, push, List.getElem_take, List.getElem_drop, Vector.getElem_toList,
        List.getElem_singleton]
      rw [Vector.getElem_set_ne _ _ (by omega), Vector.getElem_set, if_pos (by omega)]

end CountedArray
