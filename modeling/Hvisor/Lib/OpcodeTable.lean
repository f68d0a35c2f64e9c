import Mathlib.Data.BitVec
import Mathlib.Data.List.Pairwise

/-!
# Tables of opcodes

Instructions are told apart by their leading bits, some by more of them than others. A table is
searched for the first opcode that a word starts with. If no opcode of the table continues another
one, a word starts with one of them at most, and what is found does not depend on the order.

## Main definitions

* `Opcode`, `Opcode.Matches`: leading bits, and the words that start with them
* `Opcode.Extends`, `Opcode.Apart`: one opcode continues another, and neither continues the other
* `OpcodeTable`, `OpcodeTable.lookup`, `OpcodeTable.PrefixFree`: the tables

## Main results

* `OpcodeTable.lookup_eq_some_iff`: what is found in a prefix-free table
-/

/-- The leading bits of words of `w` bits. -/
structure Opcode (w : Nat) where
  code : Nat
  length : Nat
  length_le : length ≤ w

namespace Opcode

variable {w : Nat} {p q : Opcode w} {word : BitVec w}

/-- The word starts with the opcode. -/
def Matches (p : Opcode w) (word : BitVec w) : Prop := word.toNat / 2 ^ (w - p.length) = p.code

instance (p : Opcode w) (word : BitVec w) : Decidable (p.Matches word) :=
  inferInstanceAs (Decidable (_ = _))

/-- `q` starts with `p`. -/
def Extends (q p : Opcode w) : Prop :=
  p.length ≤ q.length ∧ q.code / 2 ^ (q.length - p.length) = p.code

instance (q p : Opcode w) : Decidable (q.Extends p) := inferInstanceAs (Decidable (_ ∧ _))

/-- No word starts with both. -/
def Apart (p q : Opcode w) : Prop := ¬ q.Extends p ∧ ¬ p.Extends q

instance (p q : Opcode w) : Decidable (p.Apart q) := inferInstanceAs (Decidable (_ ∧ _))

/-- Of two opcodes that a word starts with, the longer one starts with the other. -/
theorem Matches.extends (hp : p.Matches word) (hq : q.Matches word) (hle : p.length ≤ q.length) :
    q.Extends p := by
  have hq' := q.length_le
  have hsplit : w - p.length = (w - q.length) + (q.length - p.length) := by omega
  refine ⟨hle, ?_⟩
  rw [← hq, Nat.div_div_eq_div_mul, ← Nat.pow_add, ← hsplit]
  exact hp

theorem Apart.not_matches (h : p.Apart q) (hp : p.Matches word) : ¬ q.Matches word := by
  intro hq
  rcases le_total p.length q.length with hle | hle
  · exact h.1 (hp.extends hq hle)
  · exact h.2 (hq.extends hp hle)

end Opcode

/-- Opcodes, and what each of them stands for. -/
abbrev OpcodeTable (w : Nat) (α : Type*) := List (Opcode w × α)

namespace OpcodeTable

variable {w : Nat} {α : Type*} {t : OpcodeTable w α} {word : BitVec w} {a : α}

/-- What the first opcode stands for that the word starts with. -/
def lookup (t : OpcodeTable w α) (word : BitVec w) : Option α :=
  (t.find? fun o => o.1.Matches word).map Prod.snd

/-- No opcode continues another one. -/
def PrefixFree (t : OpcodeTable w α) : Prop := (t.map Prod.fst).Pairwise Opcode.Apart

theorem lookup_cons (o : Opcode w × α) (t : OpcodeTable w α) (word : BitVec w) :
    lookup (o :: t) word = if o.1.Matches word then some o.2 else t.lookup word := by
  rw [lookup, List.find?_cons]
  by_cases h : o.1.Matches word
  · rw [if_pos h, decide_eq_true h]
    rfl
  · rw [if_neg h, decide_eq_false h]
    rfl

/-- **What is found in a prefix-free table** is what some opcode stands for that the word starts
with, wherever it is in the table. -/
theorem lookup_eq_some_iff (h : t.PrefixFree) :
    t.lookup word = some a ↔ ∃ p, (p, a) ∈ t ∧ p.Matches word := by
  induction t with
  | nil => simp [lookup]
  | cons o t ih =>
    obtain ⟨hapart, htail⟩ := List.pairwise_cons.mp h
    have hother : ∀ o' ∈ t, o.1.Matches word → ¬ o'.1.Matches word := fun o' hmem ho =>
      (hapart _ (List.mem_map_of_mem hmem)).not_matches ho
    rw [lookup_cons]
    split_ifs with ho
    -- no other opcode is one of the word
    · constructor
      · intro heq
        cases heq
        exact ⟨o.1, List.mem_cons_self, ho⟩
      · rintro ⟨p, hmem, hp⟩
        rcases List.mem_cons.mp hmem with heq | hmem
        · rw [← heq]
        · exact absurd hp (hother _ hmem ho)
    · rw [ih htail]
      constructor
      · rintro ⟨p, hmem, hp⟩
        exact ⟨p, List.mem_cons_of_mem _ hmem, hp⟩
      · rintro ⟨p, hmem, hp⟩
        rcases List.mem_cons.mp hmem with heq | hmem
        · rw [← heq] at ho
          exact absurd hp ho
        · exact ⟨p, hmem, hp⟩

end OpcodeTable
