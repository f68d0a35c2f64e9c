import Mathlib.Data.List.Basic
import Mathlib.Tactic.Cases
import Mathlib.Tactic.TypeStar

/-!
# Transition systems and their runs

States with labelled steps. A run keeps its history, so that a property of a run can speak of what
happened before as well as of the state that is reached.

## Main definitions

* `TransitionSystem`, `TransitionSystem.Run`: the systems and their runs
* `TransitionSystem.restrict`, `TransitionSystem.constrain`: the same system with a guard on its
  steps
* `TransitionSystem.ofStep`, `TransitionSystem.exec`: the system of a step function, and its runs on
  given events
* `TransitionSystem.trace`: the steps on given inputs, with what they show
* `TransitionSystem.Latch`: a flag that some events set and others clear

## Main results

* `TransitionSystem.Run.invariant`: the rule for invariants of the history and the state
* `TransitionSystem.Run.split`: the step of a run that an event stands for
* `TransitionSystem.Run.latched`: a flag stays set until an event clears it
* `TransitionSystem.Run.simulates`: the rule for refinement of an abstract system
-/

/-- States, the ones that a run starts in, and the labelled steps between them. -/
structure TransitionSystem (σ ε : Type*) where
  init : σ → Prop
  step : σ → ε → σ → Prop

namespace TransitionSystem

variable {σ ε α β : Type*} {S : TransitionSystem σ ε} {h : List ε} {s : σ}

/-- A run with its history, the latest event first. -/
inductive Run (S : TransitionSystem σ ε) : List ε → σ → Prop
  | start {s : σ} : S.init s → Run S [] s
  | next {h : List ε} {s s' : σ} {e : ε} : Run S h s → S.step s e s' → Run S (e :: h) s'

/-- **The invariant rule**: what holds at the start and is kept by each step of a run holds in every
run. -/
theorem Run.invariant {I : List ε → σ → Prop} (start : ∀ s, S.init s → I [] s)
    (next : ∀ h s e s', S.Run h s → I h s → S.step s e s' → I (e :: h) s') (r : S.Run h s) :
    I h s := by
  induction r with
  | start hi => exact start _ hi
  | next r hs ih => exact next _ _ _ _ r ih hs

/-- The step of a run that an event of its history stands for. -/
theorem Run.split (r : S.Run h s) {l₁ l₂ : List ε} {e : ε} (hh : h = l₁ ++ e :: l₂) :
    ∃ s₁ s₂, S.Run l₂ s₁ ∧ S.step s₁ e s₂ := by
  induction r generalizing l₁ with
  | start => exact absurd hh (by simp)
  | next r hs ih =>
    cases l₁ with
    | nil =>
      obtain ⟨rfl, rfl⟩ := List.cons.inj hh
      exact ⟨_, _, r, hs⟩
    | cons e₁ l₁ => exact ih (List.cons.inj hh).2

/-- The system that starts in one state. -/
def startingAt (S : TransitionSystem σ ε) (s₀ : σ) : TransitionSystem σ ε :=
  { S with init := (· = s₀) }

/-- A run goes on from the state that it has reached. -/
theorem Run.append {h' : List ε} {s' : σ} (r : S.Run h s) (r' : (S.startingAt s).Run h' s') :
    S.Run (h' ++ h) s' := by
  induction r' with
  | start hi =>
    obtain rfl := hi
    exact r
  | next _ hs ih => exact .next ih hs

/-! ## Guards -/

/-- The system whose steps meet a guard on the state before and the event. -/
def restrict (S : TransitionSystem σ ε) (G : σ → ε → Prop) : TransitionSystem σ ε where
  init := S.init
  step s e s' := G s e ∧ S.step s e s'

theorem Run.of_restrict {G : σ → ε → Prop} (r : (S.restrict G).Run h s) : S.Run h s := by
  induction r with
  | start hi => exact .start hi
  | next _ hs ih => exact .next ih hs.2

/-- The system whose steps meet a guard on the states before and after. -/
def constrain (S : TransitionSystem σ ε) (G : σ → ε → σ → Prop) : TransitionSystem σ ε where
  init := S.init
  step s e s' := G s e s' ∧ S.step s e s'

/-! ## Step functions -/

/-- The system of a step function. -/
def ofStep (init : σ → Prop) (f : σ → ε → Option σ) : TransitionSystem σ ε where
  init := init
  step s e s' := f s e = some s'

/-- Take steps in order, each of which passes a check. -/
def exec (f : σ → ε → Option σ) (check : σ → ε → Bool) : List ε → σ → Option σ
  | [], s => some s
  | e :: es, s => if check s e then (f s e).bind (exec f check es) else none

/-- The events of `exec` make a run, when a step that passes the check is one of the system. -/
theorem Run.exec (f : σ → ε → Option σ) (check : σ → ε → Bool)
    (hf : ∀ s e s', check s e = true → f s e = some s' → S.step s e s') {es : List ε} {s' : σ}
    (r : S.Run h s) (he : exec f check es s = some s') : S.Run (es.reverse ++ h) s' := by
  induction es generalizing h s with
  | nil =>
    cases he
    exact r
  | cons e es ih =>
    rw [TransitionSystem.exec] at he
    split at he
    · next hc =>
      obtain ⟨s₁, hs, he⟩ := Option.bind_eq_some_iff.mp he
      rw [List.reverse_cons, List.append_assoc]
      exact ih (.next r (hf s e s₁ hc hs)) he
    · cases he

/-- Take steps in order, and keep what each of them shows. -/
def trace (f : σ → α → Option (σ × ε)) : List α → List ε × σ → Option (List ε × σ)
  | [], r => some r
  | a :: as, (h, s) => (f s a).bind fun (s', e) => trace f as (e :: h, s')

/-- What the steps of `trace` show is a run. -/
theorem Run.trace (f : σ → α → Option (σ × ε))
    (hf : ∀ s a s' e, f s a = some (s', e) → S.step s e s') {as : List α} {h' : List ε} {s' : σ}
    (r : S.Run h s) (ht : trace f as (h, s) = some (h', s')) : S.Run h' s' := by
  induction as generalizing h s with
  | nil =>
    cases ht
    exact r
  | cons a as ih =>
    obtain ⟨⟨s₁, e⟩, hs, ht⟩ := Option.bind_eq_some_iff.mp ht
    exact ih (.next r (hf s a s₁ e hs)) ht

/-! ## Latches -/

/-- A flag of the states that some events set, others clear, and all others leave as it is. -/
structure Latch (S : TransitionSystem σ ε) (flag : σ → Bool) (sets clears : ε → Prop) : Prop where
  set : ∀ {s e s'}, S.step s e s' → sets e → flag s' = true
  clear : ∀ {s e s'}, S.step s e s' → clears e → flag s' = false
  keep : ∀ {s e s'}, S.step s e s' → ¬ sets e → ¬ clears e → flag s' = flag s

theorem Latch.not {flag : σ → Bool} {sets clears : ε → Prop} (L : S.Latch flag sets clears) :
    S.Latch (fun s => !flag s) clears sets where
  set hs hc := by rw [L.clear hs hc]; rfl
  clear hs he := by rw [L.set hs he]; rfl
  keep hs hc he := by rw [L.keep hs he hc]

/-- **A flag stays set** until an event clears it. -/
theorem Run.latched {flag : σ → Bool} {sets clears : ε → Prop} (L : S.Latch flag sets clears)
    (r : S.Run h s) {l₁ l₂ : List ε} {e : ε} (hh : h = l₁ ++ e :: l₂) (he : sets e)
    (hc : ∀ e' ∈ l₁, ¬ clears e') : flag s = true := by
  induction r generalizing l₁ with
  | start => exact absurd hh (by simp)
  | @next h s s' e' r hs ih =>
    cases l₁ with
    | nil =>
      obtain ⟨rfl, -⟩ := List.cons.inj hh
      exact L.set hs he
    | cons e₁ l₁ =>
      obtain ⟨rfl, htail⟩ := List.cons.inj hh
      obtain ⟨hc', hc⟩ := List.forall_mem_cons.mp hc
      by_cases hset : sets e'
      · exact L.set hs hset
      · rw [L.keep hs hset hc', ih htail hc]

/-! ## Refinement -/

/-- **The simulation rule**: when each step of a run is a step of the abstract system, or leaves the
related abstract state related, the visible history is one of an abstract run. -/
theorem Run.simulates {A : TransitionSystem α β} {f : ε → Option β} {R : List ε → σ → α → Prop}
    (start : ∀ s, S.init s → ∃ a, A.init a ∧ R [] s a)
    (hidden : ∀ h s e s' a, S.Run h s → R h s a → S.step s e s' → f e = none → R (e :: h) s' a)
    (visible : ∀ h s e s' a b, S.Run h s → R h s a → S.step s e s' → f e = some b →
      ∃ a', A.step a b a' ∧ R (e :: h) s' a')
    (r : S.Run h s) : ∃ a, A.Run (h.filterMap f) a ∧ R h s a := by
  induction r with
  | start hi =>
    obtain ⟨a, ha, hR⟩ := start _ hi
    exact ⟨a, .start ha, hR⟩
  | @next h s s' e r hs ih =>
    obtain ⟨a, ra, hR⟩ := ih
    cases hf : f e with
    | none =>
      refine ⟨a, ?_, hidden _ _ _ _ _ r hR hs hf⟩
      rwa [List.filterMap_cons_none hf]
    | some b =>
      obtain ⟨a', ha, hR'⟩ := visible _ _ _ _ _ _ r hR hs hf
      refine ⟨a', ?_, hR'⟩
      rw [List.filterMap_cons_some hf]
      exact .next ra ha

end TransitionSystem
