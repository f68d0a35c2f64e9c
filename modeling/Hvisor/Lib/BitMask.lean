import Mathlib.Data.Nat.Bitwise
import Mathlib.Tactic.NormNum

/-!
# Words under masks

Lemmas on words that are put together from two words under a mask, and on the low bits of
natural numbers: a mask of low ones is a remainder.

## Main results

* `BitMask.merge_and_mask`, `BitMask.merge_and_disjoint`: the two parts of a merged word
* `BitMask.getLsbD_one_shiftLeft`: the word with one bit
* `BitMask.and_low`, `BitMask.and_not_low`: masks of low ones as remainders
* `BitMask.and_window`: a multiple of `2 ^ a` below `2 ^ b` under the mask of the bits between
* `BitMask.field_or`, `BitMask.field_shiftLeft`: the bit fields of words that are put together
* `BitMask.find?_reverse_range`: a search for the highest index
* `BitMask.testBit_of_mod`, `BitMask.testBit_add`: the bits of a multiple, and of one with low bits
  added
-/

namespace BitMask

section Merge

variable {w : ℕ} (x y m k : BitVec w)

/-- Under its mask, a merged word is the word that was put there. -/
theorem merge_and_mask : ((x &&& ~~~m) ||| (y &&& m)) &&& m = y &&& m := by
  ext i hi
  simp only [BitVec.getElem_and, BitVec.getElem_or, BitVec.getElem_not]
  cases m[i] <;> simp

/-- Away from its mask, a merged word is the other word. -/
theorem merge_and_disjoint (h : k &&& m = 0) :
    ((x &&& ~~~m) ||| (y &&& m)) &&& k = x &&& k := by
  ext i hi
  have hi' : (k &&& m)[i] = (0 : BitVec w)[i] := by rw [h]
  simp only [BitVec.getElem_and, BitVec.ofNat_eq_ofNat, BitVec.getElem_zero] at hi'
  simp only [BitVec.getElem_and, BitVec.getElem_or, BitVec.getElem_not]
  cases hk : k[i] <;> cases hm : m[i] <;> simp_all

end Merge

/-- The word with one bit. -/
theorem getLsbD_one_shiftLeft {w k i : ℕ} (h : k < w) :
    (1#w <<< k).getLsbD i = decide (k = i) := by
  rw [← BitVec.twoPow_eq, BitVec.getLsbD_twoPow, decide_eq_true h, Bool.true_and]

section Low

variable {x a b : ℕ}

/-- A mask of low ones takes the remainder. -/
theorem and_low (x n : ℕ) : x &&& (2 ^ n - 1) = x % 2 ^ n := Nat.and_two_pow_sub_one_eq_mod x n

/-- The complement of a mask of low ones, in a word of `w` bits, removes the remainder. -/
theorem and_not_low {w n : ℕ} (hx : x < 2 ^ w) (hn : n ≤ w) :
    x &&& (2 ^ w - 1 - (2 ^ n - 1)) = x - x % 2 ^ n := by
  have hw : (2 : ℕ) ^ n ≤ 2 ^ w := Nat.pow_le_pow_right (by norm_num) hn
  have hp : (0 : ℕ) < 2 ^ n := Nat.two_pow_pos n
  have hm : (2 : ℕ) ^ w - 1 - (2 ^ n - 1) = (2 ^ (w - n) - 1) <<< n := by
    rw [Nat.shiftLeft_eq, Nat.sub_mul, ← pow_add, Nat.sub_add_cancel hn]
    omega
  have hx' : x - x % 2 ^ n = (x >>> n) <<< n := by
    rw [Nat.shiftRight_eq_div_pow, Nat.shiftLeft_eq]
    have := Nat.div_add_mod x (2 ^ n)
    rw [mul_comm] at this
    omega
  rw [hx', hm]
  apply Nat.eq_of_testBit_eq
  intro i
  simp only [Nat.testBit_and, Nat.testBit_shiftLeft, Nat.testBit_two_pow_sub_one,
    Nat.testBit_shiftRight]
  by_cases hi : n ≤ i
  · by_cases hiw : i - n < w - n
    · simp [hi, hiw]
    · have hlt : x < 2 ^ i := hx.trans_le (Nat.pow_le_pow_right (by norm_num) (by omega))
      simp [Nat.add_sub_cancel' hi, Nat.testBit_lt_two_pow hlt]
  · simp [hi]

/-- A multiple of `2 ^ a` below `2 ^ b` is kept by the mask of the bits from `a` to `b`. -/
theorem and_window (ha : x % 2 ^ a = 0) (hb : x < 2 ^ b) (hab : a ≤ b) :
    x &&& ((2 ^ (b - a) - 1) <<< a) = x := by
  have hx : x = (x >>> a) <<< a := by
    rw [Nat.shiftRight_eq_div_pow, Nat.shiftLeft_eq]
    have := Nat.div_add_mod x (2 ^ a)
    rw [mul_comm] at this
    omega
  have hlt : x >>> a < 2 ^ (b - a) := by
    rw [Nat.shiftRight_eq_div_pow]
    refine Nat.div_lt_of_lt_mul ?_
    rwa [← pow_add, Nat.add_sub_cancel' hab]
  calc x &&& ((2 ^ (b - a) - 1) <<< a)
      = ((x >>> a) <<< a) &&& ((2 ^ (b - a) - 1) <<< a) := by rw [← hx]
    _ = ((x >>> a) &&& (2 ^ (b - a) - 1)) <<< a := by rw [Nat.shiftLeft_and_distrib]
    _ = x := by rw [and_low, Nat.mod_eq_of_lt hlt, ← hx]

/-- The low bits of a multiple of a power of two are clear. -/
theorem testBit_of_mod {n i : ℕ} (hx : x % 2 ^ n = 0) (hi : i < n) : x.testBit i = false := by
  have h : (x % 2 ^ n).testBit i = x.testBit i := by
    rw [Nat.testBit_mod_two_pow, decide_eq_true hi, Bool.true_and]
  rw [← h, hx, Nat.zero_testBit]

/-- The bits of a multiple with low bits added. -/
theorem testBit_add {n f i : ℕ} (hx : x % 2 ^ n = 0) (hf : f < 2 ^ n) :
    (x + f).testBit i = if i < n then f.testBit i else x.testBit i := by
  obtain ⟨q, rfl⟩ := Nat.dvd_of_mod_eq_zero hx
  rw [Nat.testBit_two_pow_mul_add q hf]
  split_ifs with hi
  · rfl
  · rw [Nat.testBit_two_pow_mul, decide_eq_true (not_lt.mp hi), Bool.true_and]

end Low

/-! ## Bit fields -/

section Field

variable {x y start len i : ℕ}

/-- The field of `len` bits from bit `start` on. -/
def field (x start len : ℕ) : ℕ := x / 2 ^ start % 2 ^ len

theorem testBit_field :
    (field x start len).testBit i = (decide (i < len) && x.testBit (i + start)) := by
  rw [field, Nat.testBit_mod_two_pow, Nat.testBit_div_two_pow]

theorem field_or : field (x ||| y) start len = field x start len ||| field y start len := by
  refine Nat.eq_of_testBit_eq fun i => ?_
  simp only [Nat.testBit_or, testBit_field, Bool.and_or_distrib_left]

theorem field_shiftLeft (hx : x < 2 ^ len) : field (x <<< start) start len = x := by
  rw [field, Nat.shiftLeft_eq, Nat.mul_div_cancel _ (Nat.two_pow_pos start), Nat.mod_eq_of_lt hx]

/-- The mask of a field takes the field. -/
theorem and_field (x start len : ℕ) :
    x &&& ((2 ^ len - 1) <<< start) = field x start len <<< start := by
  refine Nat.eq_of_testBit_eq fun i => ?_
  simp only [Nat.testBit_and, Nat.testBit_shiftLeft, Nat.testBit_two_pow_sub_one, testBit_field]
  by_cases hi : start ≤ i
  · rw [Nat.sub_add_cancel hi, Bool.and_comm, Bool.and_assoc]
  · simp [hi]

theorem field_lt : field x start len < 2 ^ len := Nat.mod_lt _ (Nat.two_pow_pos len)

/-- A multiple of `2 ^ start` without bits above the field is its field. -/
theorem field_shiftLeft_eq (hx : x % 2 ^ start = 0) (hlt : x < 2 ^ (start + len)) :
    field x start len <<< start = x := by
  have hdiv : x / 2 ^ start < 2 ^ len := Nat.div_lt_of_lt_mul (pow_add 2 start len ▸ hlt)
  rw [field, Nat.mod_eq_of_lt hdiv, Nat.shiftLeft_eq,
    Nat.div_mul_cancel (Nat.dvd_of_mod_eq_zero hx)]

end Field

/-! ## The highest index -/

/-- A search from the top finds the highest index that passes. -/
theorem find?_reverse_range {p : ℕ → Bool} {n b : ℕ} : (List.range n).reverse.find? p = some b ↔
    b < n ∧ p b = true ∧ ∀ i, b < i → i < n → p i = false := by
  induction n with
  | zero => simp
  | succ n ih =>
    rw [List.range_succ, List.reverse_append, List.reverse_singleton, List.singleton_append,
      List.find?_cons]
    cases hn : p n with
    | true =>
      simp only [Option.some.injEq]
      constructor
      · rintro rfl
        exact ⟨n.lt_succ_self, hn, fun i hlt hi => by omega⟩
      · rintro ⟨hlt, -, hall⟩
        by_contra hne
        rw [hall n (by omega) n.lt_succ_self] at hn
        cases hn
    | false =>
      simp only [ih]
      constructor
      · rintro ⟨hlt, hb, hall⟩
        refine ⟨by omega, hb, fun i hbi hi => ?_⟩
        rcases Nat.lt_succ_iff_lt_or_eq.mp hi with hi | rfl
        · exact hall i hbi hi
        · exact hn
      · rintro ⟨hlt, hb, hall⟩
        have hne : b ≠ n := by
          rintro rfl
          rw [hn] at hb
          cases hb
        exact ⟨by omega, hb, fun i hbi hi => hall i hbi (by omega)⟩

end BitMask
