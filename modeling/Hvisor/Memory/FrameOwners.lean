import Hvisor.Lib.Ledger
import Hvisor.Lib.TransitionSystem
import Hvisor.Memory.Frame
import Mathlib.Order.CompletePartialOrder

/-!
# The owners of physical frames

Frames are created by the constructors of `memory/frame.rs` and dropped, in any order. The frames
that are free and those of the live values are a ledger of the pool. Each constructor moves frames
between the two a few times, and the vectors that it holds meanwhile are portions of the ledger like
the live values.

## Main definitions

* `FrameWorld`, `FrameOp`, `FrameOp.call`: the allocator with the live values, and the calls
* `frameSystem`: the sequences of calls from an initialised pool
* `Owns`: the ledger of the pool is balanced

## Main results

* `Owns.drop`, `Owns.dropAll`, `Owns.contiguousLoop`, `Owns.new16`: what each operation does to the
  ledger
* `Owns.of_run`: the ledger is balanced after every sequence of calls
* `frames_have_one_owner`: live values have disjoint frames of the pool, a frame is free or has one
  owner, and a drop frees its frames and no others
-/

namespace Hvisor.FrameAlloc

open FirstFit

variable {σ : Type}

/-- The allocator, and the values that are live. -/
structure FrameWorld (σ : Type) where
  state : FrameState σ
  live : List Frame

/-- The calls on frames; a drop names a live value. -/
inductive FrameOp where
  | new
  | newZero
  | newContiguous (frameCount alignLog2 : Nat)
  | newContiguousWithBase (frameCount alignLog2 : Nat)
  | new16
  | fromPaddr (startPaddr : Nat)
  | drop (i : Nat)

/-- The value of a call that succeeds is live. -/
def FrameWorld.push (w : FrameWorld σ) (r : Except HvError Frame × FrameState σ) : FrameWorld σ :=
  ⟨r.2, r.1.toOption.toList ++ w.live⟩

/-- A call with a bound on the rounds of its loops. -/
def FrameOp.call (A : IndexAllocator σ) (overflowChecks : Bool) (fuel : Nat) (w : FrameWorld σ) :
    FrameOp → Option (FrameWorld σ)
  | .new => some (w.push (Frame.new A w.state))
  | .newZero => some (w.push (Frame.newZero A w.state))
  | .newContiguous frameCount alignLog2 =>
    some (w.push (Frame.newContiguous A frameCount alignLog2 w.state))
  | .newContiguousWithBase frameCount alignLog2 =>
    (Frame.newContiguousWithBase A overflowChecks frameCount alignLog2 fuel w.state).map w.push
  | .new16 => (Frame.new16 A fuel w.state).map w.push
  | .fromPaddr startPaddr =>
    (Frame.fromPaddr startPaddr).map fun f => { w with live := f :: w.live }
  | .drop i =>
    -- a value is dropped once: it is live no longer
    w.live[i]?.bind fun f => (f.drop A w.state).map fun state => ⟨state, w.live.eraseIdx i⟩

/-- The sequences of calls from a pool of `size` bytes at `start`, with nothing allocated. -/
def frameSystem (A : IndexAllocator σ) (overflowChecks : Bool) (start size : Nat) :
    TransitionSystem (FrameWorld σ) FrameOp where
  init w := w.live = [] ∧
    FrameAllocator.init A (FrameAllocator.empty A) start size = some w.state.allocator
  step w op w' := ∃ fuel, op.call A overflowChecks fuel w = some w'

/-! ## The ledger -/

/-- The free frames and those of the live values make up the pool. -/
structure Owns (free : σ → Finset Nat) (base : Nat) (pool : Finset Nat) (s : FrameState σ)
    (live : List Frame) : Prop where
  base_eq : s.allocator.base = base
  inPool : ∀ f ∈ live, f.InPool base
  balanced : Ledger.Balanced pool (free s.allocator.inner) (live.map (Frame.indices base))

section Ledger

variable {A : IndexAllocator σ} {cap : Nat} {free : σ → Finset Nat} {base n k : Nat}
  {pool : Finset Nat} {s s' : FrameState σ} {live live' v : List Frame} {f : Frame}

theorem Owns.perm (h : Owns free base pool s live) (hp : live.Perm live') :
    Owns free base pool s live' where
  base_eq := h.base_eq
  inPool f hf := h.inPool f (hp.mem_iff.mpr hf)
  balanced := h.balanced.perm (hp.map _)

/-- Nothing moves. -/
theorem Owns.stay (h : Owns free base pool s live)
    (hm : s.Moved free s' (free s.allocator.inner)) : Owns free base pool s' live where
  base_eq := hm.base_eq.trans h.base_eq
  inPool := h.inPool
  balanced := by
    rw [hm.free_eq]
    exact h.balanced

/-- Free frames become those of a value. -/
theorem Owns.take {i : Nat} (h : Owns free base pool s live)
    (hsub : run i n ⊆ free s.allocator.inner)
    (hm : s.Moved free s' (free s.allocator.inner \ run i n)) :
    Owns free base pool s' (frameAt s.allocator.base i n :: live) where
  base_eq := hm.base_eq.trans h.base_eq
  inPool := by
    rw [h.base_eq]
    exact List.forall_mem_cons.mpr ⟨frameAt_inPool base i n, h.inPool⟩
  balanced := by
    rw [hm.free_eq, List.map_cons, h.base_eq, frameAt_indices]
    exact h.balanced.take hsub

theorem Owns.newContiguous (hA : A.Lawful cap free) (h : Owns free base pool s live)
    {r : Except HvError Frame} (hc : Frame.newContiguous A n k s = (r, s')) :
    Owns free base pool s' (r.toOption.toList ++ live) := by
  -- a run goes from the free frames to the new value, or nothing moves
  rcases Frame.newContiguous_cases hA s n k with ⟨i, s₁, he, -, hsub, -, hm⟩ | ⟨s₁, he, -, -, hm⟩
  · obtain ⟨rfl, rfl⟩ := Prod.mk.inj (he.symm.trans hc)
    exact h.take hsub hm
  · obtain ⟨rfl, rfl⟩ := Prod.mk.inj (he.symm.trans hc)
    exact h.stay hm

theorem Owns.new (hA : A.Lawful cap free) (h : Owns free base pool s live)
    {r : Except HvError Frame} (hc : Frame.new A s = (r, s')) :
    Owns free base pool s' (r.toOption.toList ++ live) := by
  rcases Frame.new_cases hA s with ⟨i, s₁, he, -, hsub, -, hm⟩ | ⟨s₁, he, -, -, hm⟩
  · obtain ⟨rfl, rfl⟩ := Prod.mk.inj (he.symm.trans hc)
    exact h.take hsub hm
  · obtain ⟨rfl, rfl⟩ := Prod.mk.inj (he.symm.trans hc)
    exact h.stay hm

theorem Owns.newZero (hA : A.Lawful cap free) (h : Owns free base pool s live)
    {r : Except HvError Frame} (hc : Frame.newZero A s = (r, s')) :
    Owns free base pool s' (r.toOption.toList ++ live) := by
  rcases Frame.newZero_cases hA s with ⟨i, s₁, he, -, hsub, -, hm⟩ | ⟨s₁, he, -, -, hm⟩
  · obtain ⟨rfl, rfl⟩ := Prod.mk.inj (he.symm.trans hc)
    exact h.take hsub hm
  · obtain ⟨rfl, rfl⟩ := Prod.mk.inj (he.symm.trans hc)
    exact h.stay hm

/-- A drop returns, and the frames of the value are free. -/
theorem Owns.drop (hA : A.Lawful cap free) (hcap : pool ⊆ Finset.range cap)
    (h : Owns free base pool s (f :: live)) :
    ∃ s', f.drop A s = some s' ∧
      free s'.allocator.inner = free s.allocator.inner ∪ f.indices base ∧
      Owns free base pool s' live := by
  have hbal := h.balanced
  rw [List.map_cons] at hbal
  have hsub : f.indices base ⊆ pool := hbal.subset List.mem_cons_self
  -- what a live value owns is not free, so `dealloc` finds every bit clear
  have hdisj : Disjoint (f.indices base) (free s.allocator.inner) :=
    hbal.disjoint_free List.mem_cons_self
  have hin : f.InPool base := h.inPool f List.mem_cons_self
  obtain ⟨s', hd, -, hm⟩ := Frame.drop_eq_some (s := s) hA (by rwa [h.base_eq])
    (by rw [h.base_eq]; exact hsub.trans hcap) (by rwa [h.base_eq])
  have hfree : free s'.allocator.inner = free s.allocator.inner ∪ f.indices base := by
    rw [hm.free_eq, h.base_eq]
  refine ⟨s', hd, hfree, hm.base_eq.trans h.base_eq, ?_, ?_⟩
  · exact fun g hg => h.inPool g (List.mem_cons_of_mem f hg)
  · rw [hfree]
    exact hbal.give

/-- All values of a vector are dropped. -/
theorem Owns.dropAll (hA : A.Lawful cap free) (hcap : pool ⊆ Finset.range cap)
    (h : Owns free base pool s (v ++ live)) :
    ∃ s', Frame.dropAll A v s = some s' ∧ Owns free base pool s' live := by
  -- by induction on the values that are still to be dropped
  induction v generalizing s with
  | nil => exact ⟨s, rfl, h⟩
  | cons f v ih =>
    obtain ⟨s₁, hd, -, h₁⟩ := h.drop hA hcap
    obtain ⟨s', hv, h'⟩ := ih h₁
    refine ⟨s', ?_, h'⟩
    rw [Frame.dropAll, List.foldlM_cons, hd]
    exact hv

/-- The value that is returned stays live when the vector of a function goes out of scope. -/
theorem Owns.dropAll_result (hA : A.Lawful cap free) (hcap : pool ⊆ Finset.range cap)
    {r : Except HvError Frame} (h : Owns free base pool s (r.toOption.toList ++ (v ++ live)))
    (hd : Frame.dropAll A v s = some s') : Owns free base pool s' (r.toOption.toList ++ live) := by
  have hp : (r.toOption.toList ++ (v ++ live)).Perm (v ++ (r.toOption.toList ++ live)) := by
    rw [← List.append_assoc, ← List.append_assoc]
    exact List.perm_append_comm.append_right live
  obtain ⟨s₁, hd₁, h₁⟩ := (h.perm hp).dropAll hA hcap
  obtain rfl := Option.some.inj (hd₁.symm.trans hd)
  exact h₁

theorem Owns.returnFrom (hA : A.Lawful cap free) (hcap : pool ⊆ Finset.range cap)
    {attempted : List (Except HvError Frame)} {ret r : Except HvError Frame}
    (h : Owns free base pool s
      (ret.toOption.toList ++ (attempted.filterMap Except.toOption ++ live)))
    (hr : Frame.returnFrom A attempted ret s = some (r, s')) :
    Owns free base pool s' (r.toOption.toList ++ live) := by
  obtain ⟨s₁, hd, he⟩ := Option.map_eq_some_iff.mp hr
  obtain ⟨rfl, rfl⟩ := Prod.mk.inj he
  exact h.dropAll_result hA hcap hd

/-- An attempt is one more portion of the vector. -/
theorem Owns.attempt {attempted : List (Except HvError Frame)} {temp : Except HvError Frame}
    (h : Owns free base pool s
      (temp.toOption.toList ++ (attempted.filterMap Except.toOption ++ live))) :
    Owns free base pool s ((attempted ++ [temp]).filterMap Except.toOption ++ live) := by
  apply h.perm
  -- an attempt that failed owns nothing
  have htemp : [temp].filterMap Except.toOption = temp.toOption.toList := by
    cases temp <;> rfl
  rw [List.filterMap_append, htemp, ← List.append_assoc]
  exact List.perm_append_comm.append_right live

/-- The rounds of `newContiguousWithBase`, by induction on their number: the vector holds the
attempts, and a frame that is not aligned is given back before the next one is allocated. -/
theorem Owns.contiguousLoop (hA : A.Lawful cap free) (hcap : pool ⊆ Finset.range cap)
    {overflowChecks : Bool} {alignMask fuel : Nat} {attempted : List (Except HvError Frame)}
    {r : Except HvError Frame}
    (h : Owns free base pool s (attempted.filterMap Except.toOption ++ live))
    (hr : Frame.contiguousLoop A overflowChecks n alignMask fuel attempted s = some (r, s')) :
    Owns free base pool s' (r.toOption.toList ++ live) := by
  induction fuel generalizing attempted s with
  | zero => cases hr
  | succ fuel ih =>
    rw [Frame.contiguousLoop] at hr
    -- the first allocation of the round fails: the attempts are dropped with the error
    rcases hc : Frame.newContiguous A n 0 s with ⟨e | frame, s₁⟩
    · have h₁ : Owns free base pool s₁ (attempted.filterMap Except.toOption ++ live) :=
        h.newContiguous hA hc
      simp only [hc] at hr
      exact Owns.returnFrom hA hcap h₁ hr
    · have h₁ := h.newContiguous hA hc
      simp only [hc] at hr
      -- it is aligned and returned, or given back for the padding and a second allocation
      split at hr
      · exact h₁.returnFrom hA hcap hr
      · obtain ⟨sum, -, hr⟩ := Option.bind_eq_some_iff.mp hr
        obtain ⟨s₂, hd, hr⟩ := Option.bind_eq_some_iff.mp hr
        obtain ⟨s₂', hd', -, h₂⟩ := h₁.drop hA hcap
        obtain rfl := Option.some.inj (hd'.symm.trans hd)
        obtain ⟨⟨temp, s₃⟩, ht⟩ : ∃ p, Frame.newContiguous A (wrappingSub (sum &&&
          usizeNot alignMask) frame.startPaddr / pageSize) 0 s₂' = p := ⟨_, rfl⟩
        rw [ht] at hr
        have h₃ := (h₂.newContiguous hA ht).attempt
        -- without a run behind the padding there is another round, which holds the padding as well
        rcases hc' : Frame.newContiguous A n 0 s₃ with ⟨e | frame', s₄⟩
        · simp only [hc'] at hr
          exact ih (h₃.newContiguous hA hc') hr
        · simp only [hc'] at hr
          exact (h₃.newContiguous hA hc').returnFrom hA hcap hr

/-- The search of `new16`: the vector holds the frames that were found, or it was dropped. -/
theorem Owns.new16Loop (hA : A.Lawful cap free) (hcap : pool ⊆ Finset.range cap) {fuel : Nat}
    {r : Except HvError (List Frame)} (h : Owns free base pool s (v ++ live))
    (hr : Frame.new16Loop A fuel v s = some (r, s')) :
    Owns free base pool s' (r.toOption.getD [] ++ live) := by
  induction fuel generalizing v s with
  | zero => cases hr
  | succ fuel ih =>
    rw [Frame.new16Loop] at hr
    -- no frame is left: the vector is dropped with the error
    rcases hc : Frame.newZero A s with ⟨e | f, s₁⟩
    · simp only [hc] at hr
      obtain ⟨s₂, hd, he⟩ := Option.map_eq_some_iff.mp hr
      obtain ⟨rfl, rfl⟩ := Prod.mk.inj he
      have h₁ : Owns free base pool s₁ (v ++ live) := h.newZero hA hc
      obtain ⟨s₃, hd', h₃⟩ := h₁.dropAll hA hcap
      obtain rfl := Option.some.inj (hd'.symm.trans hd)
      exact h₃
    · have h₁ : Owns free base pool s₁ (v ++ [f] ++ live) := by
        apply (h.newZero hA hc).perm
        change (f :: (v ++ live)).Perm (v ++ [f] ++ live)
        rw [List.append_assoc]
        exact List.perm_middle.symm
      simp only [hc] at hr
      -- the search stops at an aligned frame, or goes on with one more in the vector
      split at hr
      · obtain ⟨rfl, rfl⟩ := Prod.mk.inj (Option.some.inj hr)
        exact h₁
      · exact ih h₁ hr

/-- `new16`: the frame that the search found last is given back before the four are allocated. -/
theorem Owns.new16 (hA : A.Lawful cap free) (hcap : pool ⊆ Finset.range cap) {fuel : Nat}
    {r : Except HvError Frame} (h : Owns free base pool s live)
    (hr : Frame.new16 A fuel s = some (r, s')) :
    Owns free base pool s' (r.toOption.toList ++ live) := by
  obtain ⟨⟨found, s₁⟩, hloop, hr⟩ := Option.bind_eq_some_iff.mp hr
  have h₁ := Owns.new16Loop (v := []) hA hcap h hloop
  cases found with
  | error e =>
    obtain ⟨rfl, rfl⟩ := Prod.mk.inj (Option.some.inj hr)
    exact h₁
  | ok v =>
    obtain ⟨f16, hlast, hr⟩ := Option.bind_eq_some_iff.mp hr
    obtain ⟨s₂, hd, hr⟩ := Option.bind_eq_some_iff.mp hr
    have hv : v.dropLast ++ [f16] = v := List.dropLast_append_getLast? f16 hlast
    -- the last of the vector is taken from it and dropped
    have hperm : (v ++ live).Perm (f16 :: (v.dropLast ++ live)) := by
      rw [← hv, List.append_assoc, List.dropLast_concat]
      exact List.perm_middle
    obtain ⟨s₂', hd', -, h₂⟩ := (h₁.perm hperm).drop hA hcap
    obtain rfl := Option.some.inj (hd'.symm.trans hd)
    -- the four frames, and then the rest of the vector goes out of scope
    rcases hc : Frame.newContiguous A 4 0 s₂' with ⟨ret, s₃⟩
    rw [hc] at hr
    obtain ⟨s₄, hd₃, hr⟩ := Option.bind_eq_some_iff.mp hr
    obtain ⟨rfl, rfl⟩ := Prod.mk.inj (Option.some.inj hr)
    exact (h₂.newContiguous hA hc).dropAll_result hA hcap hd₃

/-- Every call keeps the ledger balanced. -/
theorem Owns.call (hA : A.Lawful cap free) (hcap : pool ⊆ Finset.range cap) {overflowChecks : Bool}
    {fuel : Nat} {op : FrameOp} {w w' : FrameWorld σ} (h : Owns free base pool w.state w.live)
    (hc : op.call A overflowChecks fuel w = some w') : Owns free base pool w'.state w'.live := by
  -- the constructors without a loop always return; the others return by hypothesis
  cases op with
  | new =>
    obtain rfl := Option.some.inj hc
    exact h.new hA rfl
  | newZero =>
    obtain rfl := Option.some.inj hc
    exact h.newZero hA rfl
  | newContiguous n k =>
    obtain rfl := Option.some.inj hc
    exact h.newContiguous hA rfl
  | newContiguousWithBase n k =>
    obtain ⟨⟨r, s'⟩, hr, rfl⟩ := Option.map_eq_some_iff.mp hc
    obtain ⟨alignMask, -, hr⟩ := Option.bind_eq_some_iff.mp hr
    have hno : Owns free base pool w.state
        (([] : List (Except HvError Frame)).filterMap Except.toOption ++ w.live) := h
    exact hno.contiguousLoop hA hcap hr
  | new16 =>
    obtain ⟨⟨r, s'⟩, hr, rfl⟩ := Option.map_eq_some_iff.mp hc
    exact h.new16 hA hcap hr
  | fromPaddr startPaddr =>
    obtain ⟨f, hf, rfl⟩ := Option.map_eq_some_iff.mp hc
    rw [Frame.fromPaddr] at hf
    split at hf
    · -- the value owns no frames
      obtain rfl := Option.some.inj hf
      refine ⟨h.base_eq, List.forall_mem_cons.mpr ⟨.inl rfl, h.inPool⟩, ?_⟩
      simpa [Frame.indices] using h.balanced.cons_empty
    · cases hf
  | drop i =>
    obtain ⟨f, hf, hc⟩ := Option.bind_eq_some_iff.mp hc
    obtain ⟨s', hd, rfl⟩ := Option.map_eq_some_iff.mp hc
    -- the value is brought to the front of the ledger
    obtain ⟨hi, rfl⟩ := List.getElem?_eq_some_iff.mp hf
    obtain ⟨s₁, hd₁, -, h₁⟩ := (h.perm (List.getElem_cons_eraseIdx_perm hi).symm).drop hA hcap
    obtain rfl := Option.some.inj (hd₁.symm.trans hd)
    exact h₁

end Ledger

/-! ## Addresses -/

section Addresses

variable {base i j : Nat} {f g : Frame}

/-- The addresses of the frames of a value. -/
def Frame.range (self : Frame) : Set Nat :=
  Set.Ico self.startPaddr (self.startPaddr + self.size)

/-- The addresses of the frame with index `j`. -/
def framePage (base j : Nat) : Set Nat :=
  Set.Ico (j * pageSize + base) (j * pageSize + base + pageSize)

theorem Frame.mem_range_iff (hf : f.InPool base) (a : Nat) :
    a ∈ f.range ↔ base ≤ a ∧ (a - base) / pageSize ∈ f.indices base := by
  obtain ⟨start, count⟩ := f
  simp only [range, indices, size, Set.mem_Ico, mem_run, pageSize]
  -- a value without frames has no addresses; any other starts at a frame of the pool
  rcases hf with hf | ⟨i, hi⟩
  · simp only at hf
    omega
  · simp only [pageSize] at hi
    omega

theorem mem_framePage_iff (a : Nat) :
    a ∈ framePage base j ↔ base ≤ a ∧ (a - base) / pageSize = j := by
  simp only [framePage, Set.mem_Ico, pageSize]
  omega

theorem framePage_subset_range (hf : f.InPool base) :
    framePage base j ⊆ f.range ↔ j ∈ f.indices base := by
  constructor
  · intro h
    have hj := h (mem_framePage_iff (j * pageSize + base) |>.mpr ⟨by omega, by simp [pageSize]⟩)
    simpa [pageSize] using ((f.mem_range_iff hf _).mp hj).2
  · intro h a ha
    rw [mem_framePage_iff] at ha
    exact (f.mem_range_iff hf a).mpr ⟨ha.1, by rwa [ha.2]⟩

theorem framePage_disjoint_range (hf : f.InPool base) (hj : j ∉ f.indices base) :
    Disjoint (framePage base j) f.range := by
  rw [Set.disjoint_left]
  intro a ha haf
  rw [mem_framePage_iff] at ha
  exact hj (ha.2 ▸ ((f.mem_range_iff hf a).mp haf).2)

theorem Frame.range_disjoint (hf : f.InPool base) (hg : g.InPool base)
    (h : Disjoint (f.indices base) (g.indices base)) : Disjoint f.range g.range := by
  rw [Set.disjoint_left]
  intro a haf hag
  exact Finset.disjoint_left.mp h ((f.mem_range_iff hf a).mp haf).2
    ((g.mem_range_iff hg a).mp hag).2

end Addresses

/-! ## Every sequence of calls -/

theorem alignUp_of_aligned {addr : Nat} (h : addr % pageSize = 0) (hlt : addr < 2 ^ 64) :
    alignUp addr = addr := by
  have hb : addr + pageSize - 1 < 2 ^ 64 := by
    simp only [pageSize] at h ⊢
    omega
  have hdown := alignDown_eq hb
  rw [alignDown] at hdown
  rw [alignUp, hdown]
  simp only [pageSize] at h ⊢
  omega

section Runs

variable {A : IndexAllocator σ} {cap : Nat} {free : σ → Finset Nat} {overflowChecks : Bool}
  {start size : Nat} {h : List FrameOp} {w : FrameWorld σ}

/-- An initialised pool: all its frames are free. -/
theorem Owns.init (hA : A.Lawful cap free) (hstart : start % pageSize = 0) (hlt : start < 2 ^ 64)
    (hi : (frameSystem A overflowChecks start size).init w) :
    Owns free start (Finset.range (pageCount size)) w.state w.live ∧ pageCount size ≤ cap := by
  obtain ⟨hlive, hinit⟩ := hi
  obtain ⟨inner, hins, he⟩ := Option.map_eq_some_iff.mp hinit
  have hfree : free w.state.allocator.inner = Finset.range (pageCount size) := by
    rw [← he, hA.free_insert hins, FrameAllocator.empty, hA.free_default, Finset.empty_union,
      Finset.range_eq_Ico, pageCount]
  refine ⟨⟨?_, by simp [hlive], ?_⟩, ?_⟩
  · rw [← he, alignUp_of_aligned hstart hlt]
  · rw [hfree, hlive]
    exact Ledger.balanced_nil
  -- otherwise the index `cap` would be free, and no allocator has it
  · by_contra hcap
    have hmem : cap ∈ free w.state.allocator.inner := by
      rw [hfree]
      exact Finset.mem_range.mpr (by omega)
    exact lt_irrefl cap (hA.free_lt hmem)

/-- **The ledger of the pool is balanced** after every sequence of calls. -/
theorem Owns.of_run (hA : A.Lawful cap free) (hstart : start % pageSize = 0) (hlt : start < 2 ^ 64)
    (r : (frameSystem A overflowChecks start size).Run h w) :
    Owns free start (Finset.range (pageCount size)) w.state w.live ∧ pageCount size ≤ cap := by
  apply r.invariant (fun w hi => Owns.init hA hstart hlt hi)
  rintro h w op w' - ⟨hw, hcap⟩ ⟨fuel, hc⟩
  exact ⟨hw.call hA (Finset.range_mono hcap) hc, hcap⟩

/-- A frame that is not free is in one live value. -/
theorem Owns.existsUnique_owner {pool : Finset Nat} {base j : Nat} {s : FrameState σ}
    {live : List Frame} (h : Owns free base pool s live) (hj : j ∈ pool)
    (hjf : j ∉ free s.allocator.inner) :
    ∃! i : Nat, ∃ f : Frame, live[i]? = some f ∧ framePage base j ⊆ f.range := by
  obtain ⟨S, hS, hjS⟩ := h.balanced.owner hj hjf
  obtain ⟨f, hf, rfl⟩ := List.mem_map.mp hS
  obtain ⟨i, hi⟩ := List.mem_iff_getElem?.mp hf
  refine ⟨i, ⟨f, hi, (framePage_subset_range (h.inPool f hf)).mpr hjS⟩, ?_⟩
  rintro k ⟨g, hk, hg⟩
  rw [framePage_subset_range (h.inPool g (List.mem_of_getElem? hk))] at hg
  -- two values at different places have no frame in common
  by_contra hne
  obtain ⟨hil, rfl⟩ := List.getElem?_eq_some_iff.mp hi
  obtain ⟨hkl, rfl⟩ := List.getElem?_eq_some_iff.mp hk
  have hpw := List.pairwise_iff_getElem.mp h.balanced.pairwise
  simp only [List.length_map, List.getElem_map] at hpw
  rcases Nat.lt_or_gt_of_ne hne with hlt | hgt
  · exact Finset.disjoint_left.mp (hpw k i hkl hil hlt) hg hjS
  · exact Finset.disjoint_left.mp (hpw i k hil hkl hgt) hjS hg

/-- **Physical frames have one owner**: after every sequence of calls, failing ones included, the
live values have disjoint frames in the pool, each frame of the pool is free or in exactly one live
value, and a drop frees exactly the frames of its value. -/
theorem frames_have_one_owner (hA : A.Lawful cap free) (hstart : start % pageSize = 0)
    (hlt : start < 2 ^ 64) (r : (frameSystem A overflowChecks start size).Run h w) :
    w.live.Pairwise (fun f g : Frame => Disjoint f.range g.range) ∧
    (∀ f ∈ w.live, f.range ⊆ Set.Ico start (start + pageCount size * pageSize)) ∧
    (∀ j < pageCount size,
      (j ∈ free w.state.allocator.inner ∧ ∀ f ∈ w.live, Disjoint (framePage start j) f.range) ∨
      (j ∉ free w.state.allocator.inner ∧
        ∃! i : Nat, ∃ f : Frame, w.live[i]? = some f ∧ framePage start j ⊆ f.range)) ∧
    ∀ (i : Nat) (f : Frame), w.live[i]? = some f → ∃ s', f.drop A w.state = some s' ∧
      ∀ j, j ∈ free s'.allocator.inner ↔
        j ∈ free w.state.allocator.inner ∨ framePage start j ⊆ f.range := by
  obtain ⟨hw, hcap⟩ := Owns.of_run hA hstart hlt r
  -- each part is one of the ledger, carried over from indices to addresses
  refine ⟨?_, ?_, ?_, ?_⟩
  · have hpw := List.pairwise_map.mp hw.balanced.pairwise
    apply hpw.imp_of_mem
    intro f g hf hg hd
    exact Frame.range_disjoint (hw.inPool f hf) (hw.inPool g hg) hd
  · intro f hf a ha
    obtain ⟨hge, hidx⟩ := (f.mem_range_iff (hw.inPool f hf) a).mp ha
    have hpool := Finset.mem_range.mp (hw.balanced.subset (List.mem_map_of_mem hf) hidx)
    simp only [pageSize, Set.mem_Ico] at hpool ⊢
    omega
  · intro j hj
    by_cases hjf : j ∈ free w.state.allocator.inner
    · refine .inl ⟨hjf, fun f hf => framePage_disjoint_range (hw.inPool f hf) fun hjS => ?_⟩
      exact Finset.disjoint_left.mp (hw.balanced.disjoint_free (List.mem_map_of_mem hf)) hjS hjf
    · exact .inr ⟨hjf, hw.existsUnique_owner (Finset.mem_range.mpr hj) hjf⟩
  · intro i f hf
    obtain ⟨hi, rfl⟩ := List.getElem?_eq_some_iff.mp hf
    obtain ⟨s', hd, hfree, -⟩ := (hw.perm (List.getElem_cons_eraseIdx_perm hi).symm).drop hA
      (Finset.range_mono hcap)
    refine ⟨s', hd, fun j => ?_⟩
    rw [hfree, Finset.mem_union, framePage_subset_range (hw.inPool _ (List.getElem_mem hi))]

/-- A frame, three frames whose allocation fails, and the drop of the first. -/
theorem frames_have_one_owner_of_two :
    ∃ w, (frameSystem (bitmap 2) true 0x80000000 0x2000).Run
        [.newContiguous 3 0, .newZero] w ∧
      ∀ (i : Nat) (f : Frame), w.live[i]? = some f → ∃ s', f.drop (bitmap 2) w.state = some s' ∧
        ∀ j, j ∈ s'.allocator.inner.1 ↔
          j ∈ w.state.allocator.inner.1 ∨ framePage 0x80000000 j ⊆ f.range := by
  have hinit : ∃ a, FrameAllocator.init (bitmap 2) (FrameAllocator.empty (bitmap 2)) 0x80000000
      0x2000 = some a := ⟨_, rfl⟩
  obtain ⟨a, ha⟩ := hinit
  have r : (frameSystem (bitmap 2) true 0x80000000 0x2000).Run [.newContiguous 3 0, .newZero] _ :=
    .next (.next (.start (s := ⟨⟨a, fun _ => 1⟩, []⟩) ⟨rfl, ha⟩) ⟨0, rfl⟩) ⟨0, rfl⟩
  exact ⟨_, r, (frames_have_one_owner (bitmap_lowestFirst 2).toLawful (by decide) (by decide)
    r).2.2.2⟩

end Runs

end Hvisor.FrameAlloc
