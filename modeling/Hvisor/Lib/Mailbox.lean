import Mathlib.Data.List.Basic

/-!
# Mailboxes

A queue of messages, some of which drop the messages before them, and the ledger of the mailbox: the
messages that were put in and not dropped, and the ones that were taken.

## Main definitions

* `Mailbox.push`: put a message in
* `Mailbox.Ledger`, `Mailbox.Ledger.Balanced`: the ledger, and when it agrees with the queue
* `Mailbox.Shielded`: no message of a kind comes before the first one of another kind

## Main results

* `Mailbox.Ledger.Balanced.push`, `Mailbox.Ledger.Balanced.take`: what keeps the ledger balanced
* `Mailbox.Shielded.append`: what keeps the messages of a kind behind
-/

namespace Mailbox

variable {α : Type*} (clears : α → Bool)

/-- Put a message in; one that clears the queue drops what is there. -/
def push (q : List α) (m : α) : List α := if clears m then [m] else q ++ [m]

/-- The messages that were put in and not dropped by a later one, and those that were taken, both in
order. -/
structure Ledger (α : Type*) where
  kept : List α
  taken : List α

namespace Ledger

/-- Nothing was put in. -/
def empty : Ledger α := ⟨[], []⟩

/-- A message is put in; one that clears the queue keeps the taken messages only. -/
def push (l : Ledger α) (m : α) : Ledger α :=
  { l with kept := if clears m then l.taken ++ [m] else l.kept ++ [m] }

/-- The first message is taken, if there is one. -/
def take (l : Ledger α) (m : Option α) : Ledger α := { l with taken := l.taken ++ m.toList }

/-- All messages of the queue are taken. -/
def takeAll (l : Ledger α) (q : List α) : Ledger α := { l with taken := l.taken ++ q }

/-- The messages that were not taken are dropped. -/
def drop (l : Ledger α) : Ledger α := { l with kept := l.taken }

/-- What was kept was taken, or is in the queue. -/
def Balanced (l : Ledger α) (q : List α) : Prop := l.kept = l.taken ++ q

variable {clears} {l : Ledger α} {q : List α}

theorem balanced_empty : (empty : Ledger α).Balanced [] := rfl

theorem Balanced.push (h : l.Balanced q) (m : α) :
    (l.push clears m).Balanced (Mailbox.push clears q m) := by
  simp only [Balanced, Ledger.push, Mailbox.push]
  split
  · rfl
  · rw [show l.kept = _ from h, List.append_assoc]

theorem Balanced.take (h : l.Balanced q) : (l.take q.head?).Balanced q.tail := by
  simp only [Balanced, Ledger.take]
  rw [show l.kept = _ from h, List.append_assoc]
  cases q <;> rfl

theorem Balanced.takeAll (h : l.Balanced q) : (l.takeAll q).Balanced [] := by
  rw [Balanced, List.append_nil]
  exact h

theorem balanced_drop (l : Ledger α) : l.drop.Balanced [] := (List.append_nil _).symm

/-- When the queue is empty, what was kept was taken. -/
theorem Balanced.eq_taken (h : l.Balanced []) : l.kept = l.taken := by
  rw [show l.kept = _ from h, List.append_nil]

end Ledger

/-! ## Messages that wait -/

variable {blocked stops : α → Prop} {m : α} {q : List α}

/-- No blocked message comes before the first one that stops. -/
def Shielded (blocked stops : α → Prop) : List α → Prop
  | [] => True
  | m :: q => stops m ∨ ¬ blocked m ∧ Shielded blocked stops q

theorem shielded_of_forall (h : ∀ m ∈ q, ¬ blocked m) : Shielded blocked stops q := by
  induction q with
  | nil => trivial
  | cons m q ih =>
    exact .inr ⟨h m List.mem_cons_self, ih fun m hm => h m (List.mem_cons_of_mem _ hm)⟩

/-- A blocked message may come behind one that stops. -/
theorem Shielded.append (h : Shielded blocked stops q) (hm : (∃ x ∈ q, stops x) ∨ ¬ blocked m) :
    Shielded blocked stops (q ++ [m]) := by
  induction q with
  | nil =>
    rcases hm with ⟨x, hx, -⟩ | hm
    · cases hx
    · exact .inr ⟨hm, trivial⟩
  | cons x q ih =>
    rcases h with hx | ⟨hx, hq⟩
    · exact .inl hx
    · refine (Classical.em (stops x)).imp_right fun hstop => ⟨hx, ih hq (hm.imp_left ?_)⟩
      rintro ⟨y, hy, hstop'⟩
      rcases List.mem_cons.mp hy with rfl | hy
      · exact absurd hstop' hstop
      · exact ⟨y, hy, hstop'⟩

end Mailbox
