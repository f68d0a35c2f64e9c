import Hvisor.Lib.TransitionSystem

/-!
# Switching between a guest and its handler

A processor runs a guest until a trap. Then some code saves what the guest has in the processor, a
handler runs, and some more code gives the guest back what has been saved, as the handler left it.
The guest cannot tell that its registers were saved: for it, the trap is one step of the handler on
what it has.

## Main definitions

* `WorldSwitch`: the code around the handler, and what it needs and promises
* `WorldSwitch.system`: the processor, with a handler and a guest that do as they please apart from
  that
* `vcpuSystem`: what the guest sees
* `WorldSwitch.calledWith`, `WorldSwitch.beside`: more that the handler finds, and more state

## Main results

* `WorldSwitch.run_refines`: every run of the processor is one of what the guest sees
-/

/-- What happens: the guest runs until it has `c` in the processor, or a trap is handled. -/
inductive SwitchEvent (Ctx ι : Type*) where
  | run (c : Ctx)
  | trap (cause : ι)

/-- The code of a world switch. `exit` leads from a trap to the handler, and `enter` from there to
the guest. `guest` is what the guest has in the processor, and `saved` what is kept of it meanwhile.
The guest may run in a state that is `Ready`, and keeps it so; the handler starts in one that is
`Called` and ends in one that is `Done`. -/
structure WorldSwitch (σ Ctx ι : Type*) where
  exit : σ → σ
  enter : σ → σ
  cause : σ → ι
  guest : σ → Ctx
  saved : σ → Ctx
  Ready : σ → Prop
  Kept : σ → σ → Prop
  Called : σ → Prop
  Done : σ → Prop
  ready_of_kept {s s' : σ} : Ready s → Kept s s' → Ready s'
  called_exit {s : σ} : Ready s → Called (exit s)
  saved_exit {s : σ} : Ready s → saved (exit s) = guest s
  ready_enter {s : σ} : Done s → Ready (enter s)
  guest_enter {s : σ} : Done s → guest (enter s) = saved s

/-- What the guest sees of the processor: what it has there, which it changes as it pleases, and
which a trap changes as the handler is to change it. -/
def vcpuSystem {Ctx ι : Type*} (handle : ι → Ctx → Ctx → Prop) (reset : Ctx) :
    TransitionSystem Ctx (SwitchEvent Ctx ι) where
  init := (· = reset)
  step
    | _, .run c', c'' => c'' = c'
    | c, .trap cause, c' => handle cause c c'

namespace WorldSwitch

variable {σ Ctx ι : Type*} (W : WorldSwitch σ Ctx ι)

/-- A handler that is called properly changes what is saved as it is to change it. -/
def Handles (handler : ι → σ → σ → Prop) (handle : ι → Ctx → Ctx → Prop) : Prop :=
  ∀ cause s t, handler cause s t → W.Called s → W.Done t ∧ handle cause (W.saved s) (W.saved t)

/-- The processor: a guest is entered for the first time, runs, and traps. -/
def system (handler : ι → σ → σ → Prop) (reset : Ctx) :
    TransitionSystem σ (SwitchEvent Ctx ι) where
  init s := ∃ t, W.Done t ∧ W.saved t = reset ∧ s = W.enter t
  step
    | s, .run c, s' => W.Kept s s' ∧ W.guest s' = c
    | s, .trap cause, s' => W.cause s = cause ∧ ∃ t, handler cause (W.exit s) t ∧ s' = W.enter t

variable {W}

/-- **The guest cannot tell that its registers were saved**: every run of the processor is one of
what the guest sees, and the next trap finds the processor as the code expects it. -/
theorem run_refines {handler : ι → σ → σ → Prop} {handle : ι → Ctx → Ctx → Prop} {reset : Ctx}
    {h : List (SwitchEvent Ctx ι)} {s : σ} (hh : W.Handles handler handle)
    (r : (W.system handler reset).Run h s) :
    (vcpuSystem handle reset).Run h (W.guest s) ∧ W.Ready s := by
  induction r with
  | start hi =>
    obtain ⟨t, hdone, hsaved, rfl⟩ := hi
    exact ⟨.start ((W.guest_enter hdone).trans hsaved), W.ready_enter hdone⟩
  | @next h s s' e r hs ih =>
    obtain ⟨ra, hready⟩ := ih
    cases e with
    | run c =>
      obtain ⟨hkept, hguest⟩ := hs
      exact ⟨.next ra hguest, W.ready_of_kept hready hkept⟩
    | trap cause =>
      obtain ⟨-, t, ht, rfl⟩ := hs
      obtain ⟨hdone, hhandle⟩ := hh cause _ t ht (W.called_exit hready)
      rw [W.saved_exit hready] at hhandle
      refine ⟨.next ra ?_, W.ready_enter hdone⟩
      rw [W.guest_enter hdone]
      exact hhandle

/-- The same code, with something more that the handler finds. -/
def calledWith (W : WorldSwitch σ Ctx ι) (P : σ → Prop) (hP : ∀ s, W.Ready s → P (W.exit s)) :
    WorldSwitch σ Ctx ι where
  __ := W
  Called s := W.Called s ∧ P s
  called_exit h := ⟨W.called_exit h, hP _ h⟩

/-- The same code on a processor with more state, of which the guest sees a part and another part is
the cause of a trap. The code itself leaves all of it as it is. -/
def beside (W : WorldSwitch σ Ctx ι) (ε κ : Type*) : WorldSwitch (σ × ε × κ) (Ctx × ε) κ where
  exit s := (W.exit s.1, s.2)
  enter s := (W.enter s.1, s.2)
  cause s := s.2.2
  guest s := (W.guest s.1, s.2.1)
  saved s := (W.saved s.1, s.2.1)
  Ready s := W.Ready s.1
  Kept s s' := W.Kept s.1 s'.1
  Called s := W.Called s.1
  Done s := W.Done s.1
  ready_of_kept h hk := W.ready_of_kept h hk
  called_exit h := W.called_exit h
  saved_exit h := congrArg (·, _) (W.saved_exit h)
  ready_enter h := W.ready_enter h
  guest_enter h := congrArg (·, _) (W.guest_enter h)

end WorldSwitch
