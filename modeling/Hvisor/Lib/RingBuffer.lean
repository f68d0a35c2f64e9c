import Hvisor.Lib.TransitionSystem
import Mathlib.Data.Nat.ModEq

/-!
# Bounded FIFO channels and ring buffers

A channel delivers what was sent, in order, and holds a bounded number of entries. A ring buffer
keeps such a channel in a vector, from a front index to a rear index, both modulo the size, with one
slot always free so that equal indices mean an empty buffer.

## Main definitions

* `FifoEvent`, `fifo`: the channel as a transition system
* `FifoEvent.sent`, `FifoEvent.received`: what went in and out over a history
* `RingBuffer.Holds`: the entries that a vector with two indices holds

## Main results

* `sent_eq_of_run`: in a channel, what was sent is what was received and what waits
* `RingBuffer.Holds.push`, `RingBuffer.Holds.pop`: the two ends of the buffer
-/

/-! ## Channels -/

/-- What happens at the two ends of a channel. -/
inductive FifoEvent (α : Type*) where
  | send (a : α)
  | recv (a : α)

namespace FifoEvent

variable {α : Type*}

/-- What went in, the oldest first. -/
def sent : List (FifoEvent α) → List α
  | [] => []
  | .send a :: h => sent h ++ [a]
  | .recv _ :: h => sent h

/-- What came out, the oldest first. -/
def received : List (FifoEvent α) → List α
  | [] => []
  | .send _ :: h => received h
  | .recv a :: h => received h ++ [a]

end FifoEvent

open FifoEvent

variable {α : Type*} {n : Nat}

/-- The channel that holds at most `n` entries, the oldest first. -/
def fifo (α : Type*) (n : Nat) : TransitionSystem (List α) (FifoEvent α) where
  init q := q = []
  step q e q' := match e with
    | .send a => q.length < n ∧ q' = q ++ [a]
    | .recv a => q = a :: q'

/-- **A channel is lossless**: what was sent is what was received, followed by what waits. -/
theorem sent_eq_of_run {h : List (FifoEvent α)} {q : List α} (r : (fifo α n).Run h q) :
    sent h = received h ++ q := by
  refine r.invariant (I := fun h q => sent h = received h ++ q) ?_ ?_
  · rintro q rfl
    rfl
  · intro h q e q' _ ih hs
    cases e with
    | send a =>
      obtain ⟨-, rfl⟩ := hs
      simp [sent, received, ih]
    | recv a =>
      have hq : q = a :: q' := hs
      simp [sent, received, ih, hq]

/-! ## Ring buffers -/

namespace RingBuffer

/-- The vector holds `l` in the slots from `front` on; `rear` is the slot behind the last entry. -/
structure Holds (buf : Vector α n) (front rear : Nat) (l : List α) : Prop where
  front_lt : front < n
  length_lt : l.length < n
  rear_eq : rear = (front + l.length) % n
  slot : ∀ i < l.length, buf[(front + i) % n]? = l[i]?

variable {buf : Vector α n} {front rear : Nat} {l : List α} {a : α}

/-- Slots at different distances from the front are different. -/
theorem slot_inj {i j : Nat} (hi : i < n) (hj : j < n) (h : (front + i) % n = (front + j) % n) :
    i = j := by
  have hij : i ≡ j [MOD n] := Nat.ModEq.add_left_cancel' front h
  rwa [Nat.ModEq, Nat.mod_eq_of_lt hi, Nat.mod_eq_of_lt hj] at hij

theorem holds_nil (hf : front < n) : Holds buf front front [] where
  front_lt := hf
  length_lt := Nat.zero_lt_of_lt hf
  rear_eq := by simp [Nat.mod_eq_of_lt hf]
  slot i hi := absurd hi (Nat.not_lt_zero i)

namespace Holds

theorem rear_lt (h : Holds buf front rear l) : rear < n := by
  rw [h.rear_eq]
  exact Nat.mod_lt _ (Nat.zero_lt_of_lt h.front_lt)

/-- The buffer is full when one slot is left. -/
theorem full_iff (h : Holds buf front rear l) : (rear + 1) % n = front ↔ l.length + 1 = n := by
  have hlt := h.length_lt
  rw [h.rear_eq, Nat.mod_add_mod, Nat.add_assoc]
  constructor
  · intro he
    by_contra hne
    have hz : (front + (l.length + 1)) % n = (front + 0) % n := by
      rw [he, Nat.add_zero, Nat.mod_eq_of_lt h.front_lt]
    have := slot_inj (by omega) (by omega) hz
    omega
  · intro he
    rw [he, Nat.add_mod_right, Nat.mod_eq_of_lt h.front_lt]

/-- The buffer is empty when the indices meet. -/
theorem isEmpty_iff (h : Holds buf front rear l) : rear = front ↔ l = [] := by
  have hlt := h.length_lt
  rw [h.rear_eq]
  constructor
  · intro he
    have hz : (front + l.length) % n = (front + 0) % n := by
      rw [he, Nat.add_zero, Nat.mod_eq_of_lt h.front_lt]
    exact List.length_eq_zero_iff.mp (slot_inj hlt (by omega) hz)
  · rintro rfl
    simp [Nat.mod_eq_of_lt h.front_lt]

/-- A write to the free slot behind the last entry changes no entry. -/
theorem set (h : Holds buf front rear l) : Holds (buf.set rear a h.rear_lt) front rear l := by
  refine ⟨h.front_lt, h.length_lt, h.rear_eq, ?_⟩
  intro i hi
  rw [Vector.getElem?_set_ne, h.slot i hi]
  intro he
  rw [h.rear_eq] at he
  have := slot_inj h.length_lt (hi.trans h.length_lt) he
  omega

/-- The rear moves over a slot that was written. -/
theorem push (h : Holds buf front rear l) (ha : buf[rear]? = some a)
    (hfull : (rear + 1) % n ≠ front) : Holds buf front ((rear + 1) % n) (l ++ [a]) := by
  have hlt := h.length_lt
  have hne : l.length + 1 ≠ n := fun he => hfull (h.full_iff.mpr he)
  refine ⟨h.front_lt, by simp only [List.length_append, List.length_singleton]; omega, ?_, ?_⟩
  · rw [h.rear_eq, Nat.mod_add_mod, List.length_append, List.length_singleton, Nat.add_assoc]
  · intro i hi
    rw [List.length_append, List.length_singleton] at hi
    by_cases hl : i < l.length
    · rw [h.slot i hl, List.getElem?_append_left hl]
    · obtain rfl : i = l.length := by omega
      rw [← h.rear_eq, ha]
      simp

theorem head (h : Holds buf front rear (a :: l)) : buf[front]? = some a := by
  have := h.slot 0 (by simp)
  rwa [Nat.add_zero, Nat.mod_eq_of_lt h.front_lt] at this

/-- The front moves over the first entry. -/
theorem pop (h : Holds buf front rear (a :: l)) : Holds buf ((front + 1) % n) rear l := by
  have hlt : l.length + 1 < n := h.length_lt
  refine ⟨Nat.mod_lt _ (by omega), by omega, ?_, ?_⟩
  · rw [h.rear_eq, Nat.mod_add_mod, List.length_cons]
    congr 1
    omega
  · intro i hi
    have := h.slot (i + 1) (by simpa using hi)
    rw [Nat.mod_add_mod, Nat.add_assoc, Nat.add_comm 1 i, this]
    simp

end Holds

end RingBuffer
