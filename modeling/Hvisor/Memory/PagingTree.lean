import Hvisor.Lib.RadixTree
import Hvisor.Memory.Paging
import Mathlib.Data.Finset.Card

/-!
# The page table as a radix tree

The tables in memory form a radix tree of indices below 512. The tree is read off the memory,
from the root down: the slot of an empty entry is empty, a table entry leads to the next table,
and any other entry is a leaf. The operations on one page are then operations of the tree.

## Main definitions

* `LawfulGenericPTE`: what the entries of a page table promise
* `tableAt`, `tree`: the table at a path, and the radix tree in memory
* `PtState.Inv`: the tables are distinct frames of their own, and the free frames are others
* `SameLeaves`, `Descended`: states with the same leaves, and with the tables of a path made
* `descend`: the descent along a path that makes missing tables

## Main results

* `tree_setEntry`, `PtState.Inv.setEntry`: writing one entry changes one slot
* `tree_addTable`, `PtState.Inv.addTable`: a new table changes one slot
* `descend_spec`: the descent succeeds exactly where no leaf is in the way and the frames last
-/

namespace Hvisor

open GenericPTE RadixTree

/-- The promises of a page-table entry: an entry is unused when it is zero, and an entry built
over a zero entry is what it was built as. A page of the last level may read as huge too, since
the walk does not ask there. -/
class LawfulGenericPTE (PTE : Type) [GenericPTE PTE] : Prop where
  isUnused_iff : ∀ e : PTE, isUnused e = true ↔ e = zero
  isPresent_zero : isPresent (zero : PTE) = false
  clear_eq : ∀ e : PTE, clear e = zero
  table : ∀ p, p % 4096 = 0 → p < 2 ^ 48 →
    let e : PTE := setTable zero p
    isUnused e = false ∧ isPresent e = true ∧ isHuge e = false ∧ addr e = p
  leaf : ∀ p fl huge,
    let e : PTE := setFlags (setAddr zero p) fl huge
    isUnused e = false ∧ isPresent e = true ∧ (huge = true → isHuge e = true)
  leaf_addr : ∀ p fl huge, p % 4096 = 0 → p < 2 ^ 48 →
    addr (setFlags (setAddr (zero : PTE) p) fl huge) = p

export LawfulGenericPTE (isUnused_iff isPresent_zero clear_eq)

/-- A path of table indices, the deepest first. -/
abbrev Path := List (Fin entryCount)

variable {PTE : Type} [GenericPTE PTE]

/-! ## The tree in memory -/

/-- An entry as a slot; the entries of the last level are never tables. -/
def decode (last : Bool) (e : PTE) : Slot PTE :=
  if isUnused e then .empty else if last || isHuge e then .leaf e else .table

/-- The table that the walk reaches along a path. -/
def tableAt (s : PtState PTE) : Path → Option Nat
  | [] => some s.pt.root
  | i :: p =>
    match tableAt s p with
    | none => none
    | some f =>
      let e := s.mem (entryPtr f i)
      match decode (p.length + 1 == s.pt.level) e with
      | .table => some (addr e)
      | _ => none

/-- **The radix tree in memory.** -/
def tree (s : PtState PTE) : Tree (Fin entryCount) PTE
  | [] => .table
  | i :: p =>
    match tableAt s p with
    | none => .empty
    | some f => decode (p.length + 1 == s.pt.level) (s.mem (entryPtr f i))

variable {s s' : PtState PTE} {p q : Path} {i j : Fin entryCount} {f g : Nat} {e : PTE}

theorem tree_cons (h : tableAt s p = some f) :
    tree s (i :: p) = decode (p.length + 1 == s.pt.level) (s.mem (entryPtr f i)) := by
  simp [tree, h]

theorem tableAt_cons_eq_some : tableAt s (i :: p) = some g ↔
    ∃ f, tableAt s p = some f ∧ tree s (i :: p) = .table ∧ addr (s.mem (entryPtr f i)) = g := by
  rw [tableAt]
  cases hp : tableAt s p with
  | none => simp
  | some f =>
    rw [tree_cons hp]
    cases hd : decode (p.length + 1 == s.pt.level) (s.mem (entryPtr f i)) <;> simp [hd]

/-- One step of the walk. -/
theorem tableAt_cons_bind : tableAt s (i :: p) = (tableAt s p).bind fun f =>
    match decode (p.length + 1 == s.pt.level) (s.mem (entryPtr f i)) with
    | .table => some (addr (s.mem (entryPtr f i)))
    | _ => none := by
  rw [tableAt]
  cases tableAt s p <;> rfl

theorem tree_eq_table : tree s p = .table ↔ ∃ f, tableAt s p = some f := by
  cases p with
  | nil => simp [tree, tableAt]
  | cons i p =>
    constructor
    · intro h
      cases hp : tableAt s p with
      | none => simp [tree, hp] at h
      | some f => exact ⟨_, tableAt_cons_eq_some.mpr ⟨f, hp, h, rfl⟩⟩
    · rintro ⟨f, h⟩
      exact (tableAt_cons_eq_some.mp h).choose_spec.2.1

theorem tree_wf (s : PtState PTE) : (tree s).WF := by
  refine ⟨rfl, fun i p h => tree_eq_table.mpr ?_⟩
  cases hp : tableAt s p with
  | none => simp [tree, hp] at h
  | some f => exact ⟨f, rfl⟩

theorem entryPtr_inj (hf : f % 4096 = 0) (hg : g % 4096 = 0)
    (h : entryPtr f i = entryPtr g j) : f = g ∧ i = j := by
  have hi := i.isLt
  have hj := j.isLt
  unfold entryPtr at h
  simp only [entryCount] at hi hj
  refine ⟨by omega, Fin.ext (by omega)⟩

/-! ## The invariant of the tables -/

/-- The frames that a page table owns. -/
def PtState.frames (s : PtState PTE) : List Nat := s.pt.root :: s.pt.intrmTables

/-- A physical frame: page aligned, and within the 48 bits of a descriptor. -/
def FrameAddr (f : Nat) : Prop := f % 4096 = 0 ∧ f < 2 ^ 48

/-- **The invariant of a page table**: it has three or four levels, every table is a frame of its
own, all entries in use are present, the top of four levels holds tables only, and the free
frames are distinct and not in use. -/
structure PtState.Inv (s : PtState PTE) : Prop where
  level : s.pt.level = 3 ∨ s.pt.level = 4
  frame : ∀ f ∈ s.frames, FrameAddr f
  owned : ∀ p f, tableAt s p = some f → f ∈ s.frames
  inj : ∀ p q f, tableAt s p = some f → tableAt s q = some f → p = q
  present : ∀ p i f, tableAt s p = some f → tree s (i :: p) ≠ .empty →
    isPresent (s.mem (entryPtr f i)) = true
  top : s.pt.level = 4 → ∀ i a, tree s [i] ≠ .leaf a
  free_frame : ∀ f ∈ s.free, FrameAddr f ∧ f ∉ s.frames
  free_nodup : s.free.Nodup

theorem PtState.Inv.table_frame (h : s.Inv) (hp : tableAt s p = some f) : f % 4096 = 0 :=
  (h.frame f (h.owned p f hp)).1

/-- No entry of another table, and no other entry of this one, is where this entry is. -/
theorem PtState.Inv.entryPtr_ne (h : s.Inv) (hp : tableAt s p = some f) (hq : tableAt s q = some g)
    (hne : j :: q ≠ i :: p) : entryPtr g j ≠ entryPtr f i := by
  intro he
  obtain ⟨rfl, rfl⟩ := entryPtr_inj (h.table_frame hq) (h.table_frame hp) he
  exact hne (by rw [h.inj q p g hq hp])

theorem tableAt_length (h : tableAt s p = some f) : p = [] ∨ p.length ≠ s.pt.level := by
  cases p with
  | nil => exact Or.inl rfl
  | cons i p =>
    obtain ⟨g, hg, ht, -⟩ := tableAt_cons_eq_some.mp h
    rw [tree_cons hg] at ht
    right
    intro hl
    simp only [List.length_cons] at hl
    simp only [decode, hl, beq_self_eq_true, Bool.true_or, if_true] at ht
    split at ht <;> simp at ht

/-! ## Writing one entry -/

/-- A write that neither removes nor makes a table keeps the tables. -/
theorem tableAt_setEntry (h : s.Inv) (hp : tableAt s p = some f) (hold : tree s (i :: p) ≠ .table)
    (hnew : decode (p.length + 1 == s.pt.level) e ≠ .table) (q : Path) :
    tableAt (s.setEntry (entryPtr f i) e) q = tableAt s q := by
  induction q with
  | nil => rfl
  | cons j q ih =>
    rw [tableAt, tableAt, ih]
    cases hq : tableAt s q with
    | none => rfl
    | some g =>
      by_cases hjq : j :: q = i :: p
      · obtain ⟨rfl, rfl⟩ := List.cons.inj hjq
        obtain rfl : g = f := Option.some.inj (hq.symm.trans hp)
        rw [tree_cons hq] at hold
        simp only [PtState.setEntry, Function.update_self]
      · have hne := h.entryPtr_ne hp hq hjq
        simp only [PtState.setEntry, Function.update_of_ne hne]

theorem tree_setEntry (h : s.Inv) (hp : tableAt s p = some f) (hold : tree s (i :: p) ≠ .table)
    (hnew : decode (p.length + 1 == s.pt.level) e ≠ .table) :
    tree (s.setEntry (entryPtr f i) e) =
      Function.update (tree s) (i :: p) (decode (p.length + 1 == s.pt.level) e) := by
  funext q
  cases q with
  | nil => simp [tree]
  | cons j q =>
    rw [tree, tableAt_setEntry h hp hold hnew]
    -- the slot that is written is decoded anew, and the entries of all others are kept
    by_cases hjq : j :: q = i :: p
    · obtain ⟨rfl, rfl⟩ := List.cons.inj hjq
      simp [hp, PtState.setEntry]
    · rw [Function.update_of_ne hjq]
      cases hq : tableAt s q with
      | none => simp [tree, hq]
      | some g =>
        have hne := h.entryPtr_ne hp hq hjq
        simp only [PtState.setEntry, Function.update_of_ne hne, tree_cons hq]

theorem PtState.Inv.setEntry (h : s.Inv) (hp : tableAt s p = some f)
    (hold : tree s (i :: p) ≠ .table)
    (hnew : decode (p.length + 1 == s.pt.level) e ≠ .table)
    (hpres : isUnused e = true ∨ isPresent e = true)
    (htop : s.pt.level = 4 → p = [] → isUnused e = true) :
    (s.setEntry (entryPtr f i) e).Inv := by
  have ht := tableAt_setEntry (e := e) h hp hold hnew
  have htree := tree_setEntry (e := e) h hp hold hnew
  refine ⟨h.level, h.frame, fun q g hq => h.owned q g (by rwa [ht] at hq), fun q r g hq hr =>
    h.inj q r g (by rwa [ht] at hq) (by rwa [ht] at hr), fun q j g hq hne => ?_,
    fun hl j a hj => ?_,
    h.free_frame, h.free_nodup⟩
  · rw [ht] at hq
    -- the entry that is written is free or present, and any other is as before
    by_cases hjq : j :: q = i :: p
    · obtain ⟨rfl, rfl⟩ := List.cons.inj hjq
      obtain rfl : g = f := Option.some.inj (hq.symm.trans hp)
      rw [htree, Function.update_self] at hne
      rcases hpres with hu | hpres
      · simp [decode, hu] at hne
      · simpa [PtState.setEntry] using hpres
    · rw [htree, Function.update_of_ne hjq] at hne
      simpa [PtState.setEntry, Function.update_of_ne (h.entryPtr_ne hp hq hjq)] using
        h.present q j g hq hne
  · rw [htree] at hj
    by_cases hjq : [j] = i :: p
    · obtain ⟨rfl, rfl⟩ := List.cons.inj hjq
      rw [Function.update_self] at hj
      simp [decode, htop hl rfl] at hj
    · rw [Function.update_of_ne hjq] at hj
      exact h.top hl j a hj

section Frame

variable (h : s.Inv) (hpt : s'.pt = s.pt)
  (hmem : ∀ f ∈ s.frames, ∀ i, s'.mem (entryPtr f i) = s.mem (entryPtr f i))
include h hpt hmem

/-- **The frame rule**: the tables depend on the entries of their own frames only. -/
theorem tableAt_frame (q : Path) : tableAt s' q = tableAt s q := by
  induction q with
  | nil => simp [tableAt, hpt]
  | cons j q ih =>
    rw [tableAt, tableAt, ih]
    cases hq : tableAt s q with
    | none => rfl
    | some g => simp only [hmem g (h.owned q g hq), hpt]

theorem tree_frame : tree s' = tree s := by
  funext q
  cases q with
  | nil => rfl
  | cons j q =>
    rw [tree, tree, tableAt_frame h hpt hmem]
    cases hq : tableAt s q with
    | none => rfl
    | some g => simp only [hmem g (h.owned q g hq), hpt]

theorem PtState.Inv.frame_rule (hfree : ∀ f ∈ s'.free, FrameAddr f ∧ f ∉ s.frames)
    (hnodup : s'.free.Nodup) : s'.Inv := by
  have ht := tableAt_frame h hpt hmem
  have htree := tree_frame h hpt hmem
  have hframes : s'.frames = s.frames := by simp only [PtState.frames, hpt]
  refine ⟨hpt ▸ h.level, hframes ▸ h.frame, fun q g hq => hframes ▸ h.owned q g (ht q ▸ hq),
    fun q r g hq hr => h.inj q r g (ht q ▸ hq) (ht r ▸ hr), fun q i g hq hne => ?_,
    fun hl i a hi => h.top (hpt ▸ hl) i a (htree ▸ hi), hframes ▸ hfree, hnodup⟩
  have hq' : tableAt s q = some g := ht q ▸ hq
  rw [hmem g (h.owned q g hq')]
  exact h.present q i g hq' (htree ▸ hne)

end Frame

/-! ## Making a table -/

/-- The state with the zeroed frame `g` as an intermediate table under `entry`. -/
def PtState.addTable (s : PtState PTE) (entry g : Nat) (free : List Nat) : PtState PTE :=
  PtState.setEntry
    { pt := { s.pt with intrmTables := s.pt.intrmTables ++ [g] }
      mem := zeroFrame s.mem g
      free }
    entry (setTable (s.mem entry) g)

@[simp] theorem addTable_level (entry g : Nat) (free : List Nat) :
    (s.addTable entry g free).pt.level = s.pt.level := rfl

@[simp] theorem addTable_root (entry g : Nat) (free : List Nat) :
    (s.addTable entry g free).pt.root = s.pt.root := rfl

@[simp] theorem addTable_free (entry g : Nat) (free : List Nat) :
    (s.addTable entry g free).free = free := rfl

variable [LawfulGenericPTE PTE] {free : List Nat}

@[simp] theorem decode_zero (last : Bool) : decode last (zero : PTE) = .empty := by
  simp [decode, (isUnused_iff (zero : PTE)).mpr rfl]

theorem decode_eq_empty {last : Bool} : decode last e = .empty ↔ e = zero := by
  rw [← isUnused_iff]
  unfold decode
  split_ifs <;> simp_all

theorem mem_eq_zero (hp : tableAt s p = some f) (he : tree s (i :: p) = .empty) :
    s.mem (entryPtr f i) = zero := by
  rw [tree_cons hp] at he
  exact decode_eq_empty.mp he

omit [LawfulGenericPTE PTE] in
theorem tableAt_cons_none (h : tableAt s p = none) : tableAt s (i :: p) = none := by
  simp [tableAt, h]

omit [LawfulGenericPTE PTE] in
theorem tableAt_eq_none_of_empty (h : tree s p = .empty) : tableAt s p = none := by
  cases hp : tableAt s p with
  | none => rfl
  | some f => simp [tree_eq_table.mpr ⟨f, hp⟩] at h

section AddTable

variable (h : s.Inv) (hfree : s.free = g :: free) (hp : tableAt s p = some f)
  (he : tree s (i :: p) = .empty) (hlen : p.length + 1 ≠ s.pt.level)
include h hfree

omit [LawfulGenericPTE PTE] in
theorem new_frame_ne {q : Path} {k : Nat} (hq : tableAt s q = some k) : g ≠ k := by
  rintro rfl
  exact (h.free_frame g (by simp [hfree])).2 (h.owned q g hq)

include hp

omit [LawfulGenericPTE PTE] in
/-- The entries of the other tables, and the other entries of this one, are kept. -/
theorem mem_addTable_other {k : Nat} (hq : tableAt s q = some k) (hne : j :: q ≠ i :: p) :
    (s.addTable (entryPtr f i) g free).mem (entryPtr k j) = s.mem (entryPtr k j) := by
  have hg : g % 4096 = 0 := (h.free_frame g (by simp [hfree])).1.1
  have hk : k % 4096 = 0 := h.table_frame hq
  have hkg : g ≠ k := new_frame_ne h hfree hq
  have hj := j.isLt
  have hz : ¬ (g ≤ entryPtr k j ∧ entryPtr k j < g + pageSize) := by
    simp only [entryPtr, pageSize, entryCount] at hj ⊢
    omega
  simp only [PtState.addTable, PtState.setEntry, Function.update_of_ne (h.entryPtr_ne hp hq hne),
    zeroFrame, if_neg hz]

omit [LawfulGenericPTE PTE] in
/-- The entries of the new table are zero. -/
theorem mem_addTable_new :
    (s.addTable (entryPtr f i) g free).mem (entryPtr g j) = zero := by
  have hg : g % 4096 = 0 := (h.free_frame g (by simp [hfree])).1.1
  have hj := j.isLt
  have hne : entryPtr g j ≠ entryPtr f i := fun e =>
    new_frame_ne h hfree hp (entryPtr_inj hg (h.table_frame hp) e).1
  have hz : g ≤ entryPtr g j ∧ entryPtr g j < g + pageSize := by
    simp only [entryPtr, pageSize, entryCount] at hj ⊢
    omega
  simp only [PtState.addTable, PtState.setEntry, Function.update_of_ne hne, zeroFrame]
  rw [if_pos hz]

include he hlen

/-- **A new table** stands under its entry, and every other table stays. -/
theorem tableAt_addTable (q : Path) :
    tableAt (s.addTable (entryPtr f i) g free) q = if q = i :: p then some g else tableAt s q := by
  have hg : FrameAddr g := (h.free_frame g (by simp [hfree])).1
  have hnone : tableAt s (i :: p) = none := tableAt_eq_none_of_empty he
  -- one step of the way more: the new entry, an entry below it, or one that is kept
  induction q with
  | nil => rfl
  | cons j q ih =>
    rw [tableAt, ih]
    by_cases hjq : j :: q = i :: p
    · obtain ⟨rfl, rfl⟩ := List.cons.inj hjq
      have hq : q ≠ j :: q := fun e => by simpa using congrArg List.length e
      have hlen' : (q.length + 1 == s.pt.level) = false := by simpa using hlen
      have hentry : (s.addTable (entryPtr f j) g free).mem (entryPtr f j) = setTable zero g := by
        simp [PtState.addTable, PtState.setEntry, mem_eq_zero hp he]
      obtain ⟨hu, -, hh, ha⟩ := @LawfulGenericPTE.table PTE _ _ g hg.1 hg.2
      simp [hq, hp, hlen', hentry, decode, hu, hh, ha]
    · rw [if_neg hjq]
      by_cases hq : q = i :: p
      · subst hq
        have hn := tableAt_cons_none (i := j) hnone
        simp [mem_addTable_new h hfree hp, hn]
      · rw [if_neg hq, tableAt]
        cases hk : tableAt s q with
        | none => rfl
        | some k => simp only [mem_addTable_other h hfree hp hk hjq, addTable_level]

/-- **The tree with a new table.** -/
theorem tree_addTable :
    tree (s.addTable (entryPtr f i) g free) = Function.update (tree s) (i :: p) .table := by
  have htable := tableAt_addTable h hfree hp he hlen
  funext q
  by_cases hq : q = i :: p
  · subst hq
    rw [Function.update_self]
    exact tree_eq_table.mpr ⟨g, by rw [htable, if_pos rfl]⟩
  · rw [Function.update_of_ne hq]
    cases q with
    | nil => rfl
    | cons j q =>
      rw [tree, htable]
      -- below the new table all is empty, as it was
      by_cases hqp : q = i :: p
      · subst hqp
        have hempty : tree s (j :: i :: p) = .empty :=
          (tree_wf s).empty_below (p := i :: p) (by simp [he]) (List.suffix_cons j _) (by simp)
        simp [mem_addTable_new h hfree hp, hempty]
      · rw [if_neg hqp]
        cases hk : tableAt s q with
        | none => simp [tree, hk]
        | some k => simp only [mem_addTable_other h hfree hp hk hq, addTable_level, tree_cons hk]

theorem PtState.Inv.addTable : (s.addTable (entryPtr f i) g free).Inv := by
  have htable := tableAt_addTable h hfree hp he hlen
  have htree := tree_addTable h hfree hp he hlen
  have hg : FrameAddr g ∧ g ∉ s.frames := h.free_frame g (by simp [hfree])
  have hnodup : (g :: free).Nodup := hfree ▸ h.free_nodup
  -- the frame of the new table was free, and so is none of the others
  have hframes : ∀ a, a ∈ (s.addTable (entryPtr f i) g free).frames ↔ a ∈ s.frames ∨ a = g := by
    intro a
    simp [PtState.frames, PtState.addTable, PtState.setEntry, or_assoc]
  refine ⟨h.level, fun a ha => ?_, fun q a hq => ?_, fun q r a hq hr => ?_, fun q j a hq hne => ?_,
    fun hl j a hj => ?_, fun a ha => ?_, (List.nodup_cons.mp hnodup).2⟩
  · rcases (hframes a).mp ha with ha | rfl
    · exact h.frame a ha
    · exact hg.1
  · rw [hframes]
    rw [htable] at hq
    split_ifs at hq with hqp
    · exact Or.inr (Option.some.inj hq).symm
    · exact Or.inl (h.owned q a hq)
  · rw [htable] at hq hr
    split_ifs at hq hr with h₁ h₂ h₂
    · rw [h₁, h₂]
    · exact absurd (h.owned r a hr) (Option.some.inj hq ▸ hg.2)
    · exact absurd (h.owned q a hq) (Option.some.inj hr ▸ hg.2)
    · exact h.inj q r a hq hr
  · rw [htable] at hq
    split_ifs at hq with hqp
    · obtain rfl := Option.some.inj hq
      rw [tree, htable, if_pos hqp] at hne
      simp [mem_addTable_new h hfree hp] at hne
    · by_cases hjq : j :: q = i :: p
      · obtain ⟨rfl, rfl⟩ := List.cons.inj hjq
        obtain rfl : a = f := Option.some.inj (hq.symm.trans hp)
        simp [PtState.addTable, PtState.setEntry, mem_eq_zero hp he,
          (@LawfulGenericPTE.table PTE _ _ g hg.1.1 hg.1.2).2.1]
      · rw [htree, Function.update_of_ne hjq] at hne
        rw [mem_addTable_other h hfree hp hq hjq]
        exact h.present q j a hq hne
  · rw [htree] at hj
    by_cases hjq : [j] = i :: p
    · simp [hjq] at hj
    · rw [Function.update_of_ne hjq] at hj
      exact h.top hl j a hj
  · have hm : a ∈ s.free := hfree ▸ List.mem_cons_of_mem g ha
    refine ⟨(h.free_frame a hm).1, fun hf => ?_⟩
    rcases (hframes a).mp hf with hf | rfl
    · exact (h.free_frame a hm).2 hf
    · exact (List.nodup_cons.mp hnodup).1 ha

end AddTable

/-! ## Descending with creation -/

/-- No leaf is on the way along a path. -/
def NoLeaf (s : PtState PTE) (p : Path) : Prop := ∀ r a, r <:+ p → tree s r ≠ .leaf a

/-- The state `s'` keeps the page table of `s`, with the same leaves. -/
structure SameLeaves (s s' : PtState PTE) : Prop where
  inv : s'.Inv
  root : s'.pt.root = s.pt.root
  level : s'.pt.level = s.pt.level
  leaves : ∀ r a, tree s' r = .leaf a ↔ tree s r = .leaf a

/-- The state `s'` is `s` after the tables on the path `p` have been made. -/
structure Descended (s s' : PtState PTE) (p : Path) : Prop where
  inv : s'.Inv
  root : s'.pt.root = s.pt.root
  level : s'.pt.level = s.pt.level
  slots : ∀ r, tree s' r = if r ∈ (tree s).holes p then .table else tree s r
  free : s'.free = s.free.drop ((tree s).holes p).card
  noLeaf : NoLeaf s p
  enough : ((tree s).holes p).card ≤ s.free.length

/-- Descend to the table at a path, making the missing tables on the way. -/
def descend : Path → PagingM PTE Nat
  | [] => do return (← get).pt.root
  | i :: p => do
    let table ← descend p
    nextTableMutOrCreate (entryPtr table i)

omit [LawfulGenericPTE PTE] in
theorem Descended.sameLeaves (h : Descended s s' p) : SameLeaves s s' := by
  refine ⟨h.inv, h.root, h.level, fun r a => ?_⟩
  rw [h.slots]
  split_ifs with hr
  · simp [(Tree.mem_holes.mp hr).2]
  · rfl

/-- The entry of a slot whose table exists. -/
theorem nextTableMut_tree (h : s.Inv) (hp : tableAt s p = some f)
    (hlen : p.length + 1 ≠ s.pt.level) :
    match tree s (i :: p) with
    | .empty => nextTableMut (s.mem (entryPtr f i)) = .error .NotMapped
    | .table => ∃ g, tableAt s (i :: p) = some g ∧ nextTableMut (s.mem (entryPtr f i)) = .ok g
    | .leaf _ => nextTableMut (s.mem (entryPtr f i)) = .error .MappedToHugePage := by
  have hlen' : (p.length + 1 == s.pt.level) = false := by simpa using hlen
  have hpres := h.present p i f hp
  -- an empty entry is not present, and a present one is a table or a leaf by its huge bit
  cases ht : tree s (i :: p) with
  | empty => simp [nextTableMut, mem_eq_zero hp ht, isPresent_zero]
  | table =>
    obtain ⟨g, hg⟩ := tree_eq_table.mp ht
    obtain ⟨f', hf', -, ha⟩ := tableAt_cons_eq_some.mp hg
    obtain rfl : f' = f := Option.some.inj (hf'.symm.trans hp)
    refine ⟨g, hg, ?_⟩
    rw [tree_cons hp, hlen'] at ht
    have hh : isHuge (s.mem (entryPtr f' i)) = false := by
      unfold decode at ht
      split_ifs at ht with h₁ h₂
      simpa using h₂
    simp [nextTableMut, hpres (by simp [tree_eq_table.mpr ⟨g, hg⟩]), hh, ha]
  | leaf a =>
    have hne : tree s (i :: p) ≠ .empty := by simp [ht]
    rw [tree_cons hp, hlen'] at ht
    have hh : isHuge (s.mem (entryPtr f i)) = true := by
      unfold decode at ht
      split_ifs at ht with h₁ h₂
      simpa using h₂
    simp [nextTableMut, hpres hne, hh]

theorem isUnused_iff_tree (hp : tableAt s p = some f) :
    isUnused (s.mem (entryPtr f i)) = true ↔ tree s (i :: p) = .empty := by
  rw [isUnused_iff, tree_cons hp, decode_eq_empty]

section NextTable

variable {entry : Nat}

omit [LawfulGenericPTE PTE] in
theorem nextTableMutOrCreate_used (hu : isUnused (s.mem entry) = false) :
    (nextTableMutOrCreate entry).run s =
      match nextTableMut (s.mem entry) with
      | .ok table => .ok table s
      | .error e => .error e s := by
  simp only [nextTableMutOrCreate, EStateM.run_bind, EStateM.run_get, hu]
  cases nextTableMut (s.mem entry) <;> rfl

omit [LawfulGenericPTE PTE] in
theorem nextTableMutOrCreate_noMemory (hu : isUnused (s.mem entry) = true) (hfree : s.free = []) :
    (nextTableMutOrCreate entry).run s = .error .NoMemory s := by
  have halloc : allocIntrmTable.run s = .error .NoMemory s := by
    simp only [allocIntrmTable, EStateM.run, hfree]
  simp only [nextTableMutOrCreate, EStateM.run_bind, EStateM.run_get, hu, if_true, halloc]

theorem nextTableMutOrCreate_create (hu : isUnused (s.mem entry) = true)
    (hfree : s.free = g :: free) :
    (nextTableMutOrCreate entry).run s = .ok g (s.addTable entry g free) := by
  have halloc : allocIntrmTable.run s = .ok g
      { pt := { s.pt with intrmTables := s.pt.intrmTables ++ [g] }
        mem := zeroFrame s.mem g, free } := by
    simp only [allocIntrmTable, EStateM.run, hfree]
  -- clearing the new frame does not reach the entry, which is zero anyway
  have hz : zeroFrame s.mem g entry = s.mem entry := by
    unfold zeroFrame
    split_ifs
    · rw [(isUnused_iff _).mp hu]
    · rfl
  simp only [nextTableMutOrCreate, EStateM.run_bind, EStateM.run_get, hu, if_true, halloc,
    modifyEntry, EStateM.run_modify, EStateM.run_pure, hz, PtState.addTable]

end NextTable

/-- One step of the descent, from the table that `p` leads to. -/
theorem Descended.step (hd : Descended s s' p) (hp : tableAt s' p = some f)
    (hlen : p.length + 1 < s.pt.level) :
    match (nextTableMutOrCreate (entryPtr f i)).run s' with
    | .ok g s'' => Descended s s'' (i :: p) ∧ tableAt s'' (i :: p) = some g
    | .error _ s'' => SameLeaves s s'' ∧
        ¬ (NoLeaf s (i :: p) ∧ ((tree s).holes (i :: p)).card ≤ s.free.length) := by
  have hlen' : p.length + 1 ≠ s'.pt.level := by rw [hd.level]; omega
  have hself : ¬ i :: p <:+ p := fun h => by
    have := h.length_le
    simp only [List.length_cons] at this
    omega
  have hsame : tree s' (i :: p) = tree s (i :: p) := by
    rw [hd.slots, if_neg fun h => hself (Tree.mem_holes.mp h).1]
  have hwalk := nextTableMut_tree (i := i) hd.inv hp hlen'
  have hunused := isUnused_iff_tree (i := i) hp
  -- by the slot before the descent: a table is used, a leaf is in the way, and an empty one gets a
  -- table, as long as frames are left
  cases ht : tree s (i :: p) with
  | table =>
    rw [hsame, ht] at hwalk
    obtain ⟨g, hg, hok⟩ := hwalk
    have hu : isUnused (s'.mem (entryPtr f i)) = false := by
      rw [Bool.eq_false_iff, ne_eq, hunused, hsame, ht]
      simp
    rw [nextTableMutOrCreate_used hu, hok]
    have hh : (tree s).holes (i :: p) = (tree s).holes p :=
      Tree.holes_cons_of_ne (by simp [ht])
    refine ⟨⟨hd.inv, hd.root, hd.level, fun r => by rw [hh]; exact hd.slots r,
      by rw [hh]; exact hd.free, ?_, by rw [hh]; exact hd.enough⟩, hg⟩
    intro r a hr
    rcases List.suffix_cons_iff.mp hr with rfl | hr
    · simp [ht]
    · exact hd.noLeaf r a hr
  | leaf a =>
    rw [hsame, ht] at hwalk
    have hu : isUnused (s'.mem (entryPtr f i)) = false := by
      rw [Bool.eq_false_iff, ne_eq, hunused, hsame, ht]
      simp
    rw [nextTableMutOrCreate_used hu, hwalk]
    exact ⟨hd.sameLeaves, fun hc => hc.1 _ a (List.suffix_refl _) ht⟩
  | empty =>
    have hu : isUnused (s'.mem (entryPtr f i)) = true := by rw [hunused, hsame, ht]
    have hh := Tree.card_holes_cons_of_empty ht
    cases hfree : s'.free with
    | nil =>
      rw [nextTableMutOrCreate_noMemory hu hfree]
      refine ⟨hd.sameLeaves, fun hc => ?_⟩
      have hlen := hd.free ▸ hfree
      rw [List.drop_eq_nil_iff] at hlen
      omega
    | cons g free =>
      rw [nextTableMutOrCreate_create hu hfree]
      have hemp : tree s' (i :: p) = .empty := hsame.trans ht
      have htree := tree_addTable hd.inv hfree hp hemp hlen'
      refine ⟨⟨hd.inv.addTable hfree hp hemp hlen', hd.root, hd.level, fun r => ?_, ?_, ?_, ?_⟩, ?_⟩
      · rw [htree]
        by_cases hr : r = i :: p
        · simp [hr, Tree.holes_cons_of_empty ht]
        · simp [hd.slots, Tree.holes_cons_of_empty ht, hr]
      · rw [addTable_free, hh, ← List.drop_drop, ← hd.free, hfree]
        rfl
      · intro r a hr
        rcases List.suffix_cons_iff.mp hr with rfl | hr
        · simp [ht]
        · exact hd.noLeaf r a hr
      · have := congrArg List.length (hd.free ▸ hfree)
        simp only [List.length_drop, List.length_cons] at this
        omega
      · rw [tableAt_addTable hd.inv hfree hp hemp hlen', if_pos rfl]

omit [LawfulGenericPTE PTE] in
theorem Descended.root_nil (h : s.Inv) : Descended s s [] := by
  have hh : (tree s).holes [] = ∅ := by
    ext r
    rw [Tree.mem_holes, List.suffix_nil]
    refine ⟨?_, by simp⟩
    rintro ⟨rfl, he⟩
    simp [tree] at he
  refine ⟨h, rfl, rfl, fun r => by simp [hh], by simp [hh], fun r a hr => ?_, by simp [hh]⟩
  obtain rfl := List.suffix_nil.mp hr
  simp [tree]

/-- **The descent** succeeds exactly where no leaf is in the way and the frames last. -/
theorem descend_spec (h : s.Inv) : ∀ p : Path, p.length < s.pt.level →
    match (descend p).run s with
    | .ok g s' => Descended s s' p ∧ tableAt s' p = some g
    | .error _ s' => SameLeaves s s' ∧
        ¬ (NoLeaf s p ∧ ((tree s).holes p).card ≤ s.free.length) := by
  intro p
  -- down the path: the part above is there, or its failure is that of the whole
  induction p with
  | nil => exact fun _ => ⟨Descended.root_nil h, rfl⟩
  | cons i p ih =>
    intro hlen
    simp only [List.length_cons] at hlen
    have ih := ih (by omega)
    rw [descend, EStateM.run_bind]
    cases hrun : (descend p).run s with
    | error e s' =>
      rw [hrun] at ih
      refine ⟨ih.1, fun hc => ih.2 ⟨fun r a hr => ?_, ?_⟩⟩
      · exact hc.1 r a (hr.trans (List.suffix_cons i p))
      · refine (Finset.card_le_card fun r hr => ?_).trans hc.2
        obtain ⟨hr, he⟩ := Tree.mem_holes.mp hr
        exact Tree.mem_holes.mpr ⟨hr.trans (List.suffix_cons i p), he⟩
    | ok f s' =>
      rw [hrun] at ih
      exact ih.1.step ih.2 hlen

end Hvisor
