import Mathlib.Data.BitVec
import Mathlib.Data.List.Nodup

/-!
# Memories of bytes

A memory maps addresses to bytes and is read and written a word at a time, little end first, at any
address. A block of words is stored slot by slot.

## Main definitions

* `ByteMemory`, `ByteMemory.load`, `ByteMemory.store`: the memories and the access to words
* `ByteMemory.slot`: the address of a word of a block
* `ByteMemory.spill`: store words at slots of a block

## Main results

* `ByteMemory.load_store_self`, `ByteMemory.load_store_of_disjoint`: a word after a store
* `ByteMemory.load_spill_of_mem`, `ByteMemory.load_spill_of_notMem`: a slot after a spill
* `ByteMemory.spill_outside`: a spill changes no byte outside the block
-/

/-- A memory of bytes. -/
abbrev ByteMemory := BitVec 64 → BitVec 8

namespace ByteMemory

variable {m : ByteMemory} {a b base : BitVec 64} {v : BitVec 64} {i j n : Nat}
  {l : List (Nat × BitVec 64)}

/-- The word at an address. -/
def load (m : ByteMemory) (a : BitVec 64) : BitVec 64 :=
  m (a + 7#64) ++ m (a + 6#64) ++ m (a + 5#64) ++ m (a + 4#64) ++
    m (a + 3#64) ++ m (a + 2#64) ++ m (a + 1#64) ++ m (a + 0#64)

/-- Write a word at an address. -/
def store (m : ByteMemory) (a v : BitVec 64) : ByteMemory := fun b =>
  if (b - a).toNat < 8 then v.extractLsb' (8 * (b - a).toNat) 8 else m b

theorem store_of_le (h : 8 ≤ (b - a).toNat) : m.store a v b = m b := if_neg (by omega)

theorem sub_self_add (a : BitVec 64) (h : n < 2 ^ 64) : (a + BitVec.ofNat 64 n - a).toNat = n := by
  rw [BitVec.toNat_sub, BitVec.toNat_add, BitVec.toNat_ofNat]
  omega

theorem sub_add (b a : BitVec 64) (h : (b - a).toNat + n < 2 ^ 64) :
    (b + BitVec.ofNat 64 n - a).toNat = (b - a).toNat + n := by
  rw [BitVec.toNat_sub] at h
  rw [BitVec.toNat_sub, BitVec.toNat_sub, BitVec.toNat_add, BitVec.toNat_ofNat]
  omega

/-- **A word that has been stored is read back.** -/
@[simp] theorem load_store_self (m : ByteMemory) (a v : BitVec 64) : (m.store a v).load a = v := by
  have hbyte : ∀ n : Nat, n < 8 → m.store a v (a + BitVec.ofNat 64 n) = v.extractLsb' (8 * n) 8 :=
    fun n hn => by rw [store, sub_self_add a (by omega), if_pos hn]
  rw [load, hbyte 7 (by omega), hbyte 6 (by omega), hbyte 5 (by omega), hbyte 4 (by omega),
    hbyte 3 (by omega), hbyte 2 (by omega), hbyte 1 (by omega), hbyte 0 (by omega)]
  ext k hk
  simp only [BitVec.getElem_append, BitVec.getElem_extractLsb']
  split_ifs <;> rw [← BitVec.getLsbD_eq_getElem] <;> congr 1 <;> omega

/-- **A word that no byte of a store falls into** is as before. -/
theorem load_store_of_disjoint (h : 8 ≤ (b - a).toNat) (h' : (b - a).toNat + 8 ≤ 2 ^ 64) :
    (m.store a v).load b = m.load b := by
  have hbyte : ∀ n : Nat, n < 8 →
      m.store a v (b + BitVec.ofNat 64 n) = m (b + BitVec.ofNat 64 n) := fun n hn => by
    have hsub := sub_add b a (n := n) (by omega)
    exact store_of_le (by omega)
  rw [load, load, hbyte 7 (by omega), hbyte 6 (by omega), hbyte 5 (by omega), hbyte 4 (by omega),
    hbyte 3 (by omega), hbyte 2 (by omega), hbyte 1 (by omega), hbyte 0 (by omega)]

/-! ## Blocks -/

/-- The address of a word of a block. -/
def slot (base : BitVec 64) (i : Nat) : BitVec 64 := base + BitVec.ofNat 64 (8 * i)

theorem slot_sub (base : BitVec 64) (h : i < 2 ^ 61) : (slot base i - base).toNat = 8 * i :=
  sub_self_add base (by omega)

/-- The slots of a block do not overlap. -/
theorem load_store_slot_of_ne (hi : i < 2 ^ 61) (hj : j < 2 ^ 61) (hne : i ≠ j) :
    (m.store (slot base i) v).load (slot base j) = m.load (slot base j) := by
  have hsub : (slot base j - slot base i).toNat = (2 ^ 64 + 8 * j - 8 * i) % 2 ^ 64 := by
    have hbi := slot_sub base hi
    have hbj := slot_sub base hj
    rw [BitVec.toNat_sub] at hbi hbj ⊢
    omega
  apply load_store_of_disjoint <;> omega

/-- Store words at slots of a block, one after the other. -/
def spill (m : ByteMemory) (base : BitVec 64) (l : List (Nat × BitVec 64)) : ByteMemory :=
  l.foldl (fun m p => m.store (slot base p.1) p.2) m

@[simp] theorem spill_nil (m : ByteMemory) (base : BitVec 64) : m.spill base [] = m := rfl

@[simp] theorem spill_cons (m : ByteMemory) (base : BitVec 64) (p : Nat × BitVec 64)
    (l : List (Nat × BitVec 64)) :
    m.spill base (p :: l) = (m.store (slot base p.1) p.2).spill base l := rfl

theorem spill_append (m : ByteMemory) (base : BitVec 64) (l l' : List (Nat × BitVec 64)) :
    m.spill base (l ++ l') = (m.spill base l).spill base l' := List.foldl_append

/-- **A slot that nothing is stored at** is as before. -/
theorem load_spill_of_notMem (hl : ∀ p ∈ l, p.1 < 2 ^ 61) (hi : i < 2 ^ 61)
    (hmem : i ∉ l.map Prod.fst) : (m.spill base l).load (slot base i) = m.load (slot base i) := by
  induction l generalizing m with
  | nil => rfl
  | cons p l ih =>
    rw [List.map_cons, List.mem_cons, not_or] at hmem
    rw [spill_cons, ih (fun q hq => hl q (List.mem_cons_of_mem p hq)) hmem.2,
      load_store_slot_of_ne (hl p List.mem_cons_self) hi (Ne.symm hmem.1)]

/-- **A slot that a word is stored at**, and no other word, holds that word. -/
theorem load_spill_of_mem (hl : ∀ p ∈ l, p.1 < 2 ^ 61) (hnodup : (l.map Prod.fst).Nodup)
    (hmem : (i, v) ∈ l) : (m.spill base l).load (slot base i) = v := by
  induction l generalizing m with
  | nil => cases hmem
  | cons p l ih =>
    rw [List.map_cons, List.nodup_cons] at hnodup
    have hl' : ∀ q ∈ l, q.1 < 2 ^ 61 := fun q hq => hl q (List.mem_cons_of_mem p hq)
    rw [spill_cons]
    rcases List.mem_cons.mp hmem with rfl | hmem
    · rw [load_spill_of_notMem hl' (hl _ List.mem_cons_self) hnodup.1, load_store_self]
    · exact ih hl' hnodup.2 hmem

/-- **A spill changes no byte outside the block.** -/
theorem spill_outside (hl : ∀ p ∈ l, p.1 < n) (h : 8 * n ≤ (b - base).toNat) :
    m.spill base l b = m b := by
  induction l generalizing m with
  | nil => rfl
  | cons p l ih =>
    have hp := hl p List.mem_cons_self
    rw [spill_cons, ih (fun q hq => hl q (List.mem_cons_of_mem p hq))]
    apply store_of_le
    have hslot := slot_sub base (i := p.1) (by omega)
    rw [BitVec.toNat_sub] at h hslot ⊢
    omega

end ByteMemory
