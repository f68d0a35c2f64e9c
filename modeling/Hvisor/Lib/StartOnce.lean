import Hvisor.Lib.TransitionSystem
import Mathlib.Data.List.Basic
import Mathlib.Tactic.Common

/-!
# Starts that happen once

Requests to start a party that waits, by requesters `ι` with arguments `α`. One request is accepted
and then succeeds; the party is entered after it, with its argument; every other request is refused.

## Main definitions

* `StartOnce.Event`, `StartOnce.Phase`: what is seen of the requests, and how far the start is
* `StartOnce.system`: the system
* `StartOnce.Once`: what a history should be

## Main results

* `StartOnce.counted_of_run`: but for refusals, a history is a part of one start
* `StartOnce.once_of_run`: at most one request succeeds, and the party is entered at most once
* `StartOnce.exact_of_run`: when it was entered, exactly one has succeeded
-/

namespace StartOnce

variable {ι α : Type*}

/-- A request is accepted, a request returns, the party is entered. -/
inductive Event (ι α : Type*) where
  | accepted (i : ι) (a : α)
  | returned (i : ι) (ok : Bool)
  | entered (a : α)
  deriving DecidableEq

namespace Event

/-- A call succeeds. -/
def succeeds : Event ι α → Bool
  | returned _ ok => ok
  | _ => false

/-- The target enters. -/
def enters : Event ι α → Bool
  | entered _ => true
  | _ => false

/-- All but the refusals. -/
def counted : Event ι α → Bool
  | returned _ ok => ok
  | _ => true

end Event

/-- Where the target is, between a call and its entry. -/
inductive Phase (ι α : Type*) where
  | parked
  | accepted (i : ι) (a : α)
  | sent (i : ι) (a : α)
  | entered (i : ι) (a : α)

namespace Phase

/-- The request that was accepted. -/
def request? : Phase ι α → Option (ι × α)
  | parked => none
  | accepted i a | sent i a | entered i a => some (i, a)

/-- The start up to a phase, the latest event first. -/
def counted : Phase ι α → List (Event ι α)
  | parked => []
  | accepted i a => [.accepted i a]
  | sent i a => [.returned i true, .accepted i a]
  | entered i a => [.entered a, .returned i true, .accepted i a]

end Phase

/-- The steps of a start. -/
inductive Step : Phase ι α → Event ι α → Phase ι α → Prop
  | accept (i : ι) (a : α) : Step .parked (.accepted i a) (.accepted i a)
  | succeed (i : ι) (a : α) : Step (.accepted i a) (.returned i true) (.sent i a)
  | refuse (ph : Phase ι α) (i : ι) (h : ph ≠ .parked) : Step ph (.returned i false) ph
  | enter (i : ι) (a : α) : Step (.sent i a) (.entered a) (.entered i a)

/-- The runs of the target. -/
def system (ι α : Type*) : TransitionSystem (Phase ι α) (Event ι α) where
  init := (· = .parked)
  step := Step

/-- **At most one request succeeds**, and the party is entered at most once, after the request that
succeeds and with its argument. -/
structure Once (h : List (Event ι α)) : Prop where
  succeeds : h.countP Event.succeeds ≤ 1
  enters : h.countP Event.enters ≤ 1
  after : ∀ l₁ l₂ a, h = l₁ ++ .entered a :: l₂ →
    ∃ i, .accepted i a ∈ l₂ ∧ .returned i true ∈ l₂

variable {h : List (Event ι α)} {ph : Phase ι α}

/-- But for refusals, a history is the start up to its phase. -/
theorem counted_of_run (r : (system ι α).Run h ph) : h.filter Event.counted = ph.counted := by
  induction r with
  | start hi =>
    obtain rfl := hi
    rfl
  | next _ hs ih =>
    cases hs with
    | accept i a => exact congrArg (_ :: ·) ih
    | succeed i a => exact congrArg (_ :: ·) ih
    | refuse i h => exact ih
    | enter i a => exact congrArg (_ :: ·) ih

/-- The events that count are found in the history without refusals. -/
theorem countP_counted {p : Event ι α → Bool} (hp : ∀ e, p e = true → e.counted = true) :
    h.countP p = (h.filter Event.counted).countP p := by
  rw [List.countP_filter]
  apply List.countP_congr
  intro e _
  rw [Bool.and_eq_true]
  exact ⟨fun he => ⟨he, hp e he⟩, fun he => he.1⟩

theorem countP_succeeds (hc : h.filter Event.counted = ph.counted) :
    h.countP Event.succeeds = ph.counted.countP Event.succeeds := by
  rw [← hc]
  refine countP_counted fun e he => ?_
  cases e with
  | returned i ok => exact he
  | _ => rfl

theorem countP_enters (hc : h.filter Event.counted = ph.counted) :
    h.countP Event.enters = ph.counted.countP Event.enters := by
  rw [← hc]
  refine countP_counted fun e he => ?_
  cases e with
  | returned i ok => exact absurd he Bool.false_ne_true
  | _ => rfl

theorem once_of_counted (hc : h.filter Event.counted = ph.counted) : Once h := by
  refine ⟨?_, ?_, fun l₁ l₂ a hh => ?_⟩
  · rw [countP_succeeds hc]
    cases ph <;> exact Nat.le_of_ble_eq_true rfl
  · rw [countP_enters hc]
    cases ph <;> exact Nat.le_of_ble_eq_true rfl
  · -- the party is entered in the last phase only
    have hsplit : l₁.filter Event.counted ++ .entered a :: l₂.filter Event.counted =
        ph.counted := by
      rw [← hc, hh, List.filter_append]
      rfl
    have hmem : .entered a ∈ ph.counted := by
      rw [← hsplit]
      exact List.mem_append_right _ List.mem_cons_self
    obtain ⟨i, hl⟩ : ∃ i, l₂.filter Event.counted = [.returned i true, .accepted i a] := by
      cases ph with
      | parked => exact absurd hmem List.not_mem_nil
      | accepted i b => simp [Phase.counted] at hmem
      | sent i b => simp [Phase.counted] at hmem
      | entered i b =>
        rcases List.append_eq_cons_iff.mp hsplit with ⟨-, hcons⟩ | ⟨l, -, hcons⟩
        · obtain ⟨he, hl⟩ := List.cons.inj hcons
          obtain rfl := Event.entered.inj he
          exact ⟨i, hl⟩
        · have hlate : Event.entered a ∈ [.returned i true, .accepted i b] := by
            rw [hcons]
            exact List.mem_append_right _ List.mem_cons_self
          simp at hlate
    have hsub : ∀ e ∈ l₂.filter Event.counted, e ∈ l₂ := fun e he => (List.mem_filter.mp he).1
    rw [hl] at hsub
    exact ⟨i, hsub _ (by simp), hsub _ (by simp)⟩

/-- **A start happens once.** -/
theorem once_of_run (r : (system ι α).Run h ph) : Once h := once_of_counted (counted_of_run r)

/-- Nothing is seen before a request is accepted. -/
theorem eq_nil_of_run (r : (system ι α).Run h ph) (hp : ph = .parked) : h = [] := by
  cases r with
  | start _ => rfl
  | next _ hs =>
    subst hp
    cases hs with
    | refuse _ _ hne => exact absurd rfl hne

/-- When the party was entered, exactly one request has succeeded. -/
theorem exact_of_run {i : ι} {a : α} (r : (system ι α).Run h (.entered i a)) :
    h.countP Event.succeeds = 1 ∧ h.countP Event.enters = 1 := by
  have hc := counted_of_run r
  exact ⟨countP_succeeds hc, countP_enters hc⟩

/-- The request of a phase is the one that was accepted. -/
theorem accepted_iff_of_run (r : (system ι α).Run h ph) {i : ι} {a : α} :
    .accepted i a ∈ h ↔ ph.request? = some (i, a) := by
  have hmem : .accepted i a ∈ h ↔ .accepted i a ∈ h.filter Event.counted := by
    rw [List.mem_filter]
    exact ⟨fun he => ⟨he, rfl⟩, fun he => he.1⟩
  rw [hmem, counted_of_run r]
  cases ph <;> simp [Phase.counted, Phase.request?, eq_comm]

end StartOnce
