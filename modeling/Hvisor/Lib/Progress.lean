import Hvisor.Lib.TransitionSystem
import Mathlib.Order.Basic

/-!
# Systems that come to an end

A number that grows with every step and is bounded bounds the length of the runs. When besides some
step is possible as long as the system has not come to its end, every run that cannot go on has come
to the end, and every run can be continued to one that has.

## Main results

* `TransitionSystem.Run.length_add_le`: how long a run can be
* `TransitionSystem.Run.exists_final`: a run goes on to the end
* `TransitionSystem.Run.exists_lead`: a run can be led to the end
-/

namespace TransitionSystem

variable {σ ε : Type*} {S : TransitionSystem σ ε} {h : List ε} {s : σ} {rank : σ → Nat}
  {bound : Nat}

/-- **A run is as long as the rank has room.** -/
theorem Run.length_add_le {n : Nat} (start : ∀ s, S.init s → n ≤ rank s)
    (step : ∀ h s e s', S.Run h s → S.step s e s' → rank s < rank s') (r : S.Run h s) :
    h.length + n ≤ rank s := by
  induction r with
  | start hi => simpa using start _ hi
  | @next h s s' e r hs ih =>
    have hlt := step h s e s' r hs
    rw [List.length_cons]
    omega

/-- **A run goes on to the end** when a step is possible until then. -/
theorem Run.exists_final {final : σ → Prop}
    (step : ∀ h s e s', S.Run h s → S.step s e s' → rank s < rank s')
    (bounded : ∀ h s, S.Run h s → rank s ≤ bound)
    (live : ∀ h s, S.Run h s → final s ∨ ∃ e s', S.step s e s') (r : S.Run h s) :
    ∃ h' s', S.Run (h' ++ h) s' ∧ final s' := by
  induction hn : bound - rank s using Nat.strongRecOn generalizing h s with
  | _ n ih =>
    rcases live h s r with hf | ⟨e, s', hs⟩
    · exact ⟨[], s, r, hf⟩
    · have hlt := step h s e s' r hs
      have hb := bounded _ _ (r.next hs)
      obtain ⟨h', s'', r', hf⟩ := ih (bound - rank s') (by omega) (r.next hs) rfl
      exact ⟨h' ++ [e], s'', by simpa using r', hf⟩

/-- **A run can be led to the end** when until then some step brings the end nearer. -/
theorem Run.exists_lead (final : σ → Prop) (cost : σ → Nat)
    (live : ∀ h s, S.Run h s → final s ∨ ∃ e s', S.step s e s' ∧ cost s' < cost s)
    (r : S.Run h s) : ∃ h' s', S.Run (h' ++ h) s' ∧ final s' := by
  induction hn : cost s using Nat.strongRecOn generalizing h s with
  | _ n ih =>
    rcases live h s r with hf | ⟨e, s', hs, hlt⟩
    · exact ⟨[], s, r, hf⟩
    · obtain ⟨h', s'', r', hf⟩ := ih (cost s') (hn ▸ hlt) (r.next hs) rfl
      exact ⟨h' ++ [e], s'', by simpa using r', hf⟩

end TransitionSystem
