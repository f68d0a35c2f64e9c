import Hvisor.Error
import Hvisor.Lib.FirstFit
import Hvisor.Memory.Region

/-!
# Physical frames

The frames of the hypervisor's memory pool, after `memory/frame.rs`. A bitmap allocator hands out
the indices of the free frames. Its crate is not part of the source, so it is a parameter, an
allocator of indices `A`. The state is the global allocator with the bytes of the memory.

An error goes to the caller. `none` is a panic: a failed assertion, or an overflow of a build that
checks for them. The two constructors that loop get a bound on the number of rounds, and `none` is
also that the bound is too small.

## Main definitions

* `FrameAllocator`, `FrameState`, `Frame`: the allocator, its state with the memory, and frames
* `Frame.new`, `Frame.newZero`, `Frame.newContiguous`, `Frame.newContiguousWithBase`, `Frame.new16`,
  `Frame.fromPaddr`: the constructors
* `Frame.drop`: what happens to the frames of a value that goes out of scope

## Main results

* `Frame.newContiguous_cases`, `Frame.new_cases`, `Frame.newZero_cases`: what a constructor does to
  the set of free frames
* `Frame.drop_eq_some`: a dropped frame is free again
-/

namespace Hvisor.FrameAlloc

open FirstFit

variable {σ : Type}

/-- `x << k` of a word; without checks only the low bits of the shift amount count. -/
def shlResult (overflowChecks : Bool) (x k : Nat) : Option Nat :=
  if k < 64 then some ((x <<< k) % 2 ^ 64)
  else if overflowChecks then none
  else some ((x <<< (k % 64)) % 2 ^ 64)

/-! ## The allocator -/

/-- The allocator of frames, on one of indices. -/
structure FrameAllocator (σ : Type) where
  base : Nat
  inner : σ

/-- A frame, or several consecutive ones. A `frameCount` of `0` is a frame that somebody else
allocated. -/
structure Frame where
  startPaddr : Nat
  frameCount : Nat
  deriving DecidableEq, Repr

/-- The allocator, and the bytes of the physical memory. -/
structure FrameState (σ : Type) where
  allocator : FrameAllocator σ
  mem : Nat → BitVec 8

section

variable (A : IndexAllocator σ)

namespace FrameAllocator

/-- The allocator without frames. -/
def empty : FrameAllocator σ := ⟨0, A.default⟩

/-- The allocator gets its frames. -/
def init (self : FrameAllocator σ) (base size : Nat) : Option (FrameAllocator σ) :=
  (A.insert self.inner 0 (alignUp size / pageSize)).map fun inner => ⟨alignUp base, inner⟩

/-- A frame is taken. -/
def alloc (self : FrameAllocator σ) : Option Nat × FrameAllocator σ :=
  let (idx, inner) := A.alloc self.inner
  (idx.map fun idx => idx * pageSize + self.base, { self with inner })

/-- Frames in a row are taken. -/
def allocContiguous (self : FrameAllocator σ) (frameCount alignLog2 : Nat) :
    Option Nat × FrameAllocator σ :=
  let (idx, inner) := A.allocContiguous self.inner frameCount alignLog2
  (idx.map fun idx => idx * pageSize + self.base, { self with inner })

/-- An address below the base has no index: the difference overflows, or wraps to an index that the
bitmap does not have. -/
def dealloc (self : FrameAllocator σ) (target : Nat) : Option (FrameAllocator σ) :=
  if target < self.base then none
  else
    (A.dealloc self.inner ((target - self.base) / pageSize)).map fun inner => { self with inner }

/-- Frames in a row are given back; `none` is an underflow. -/
def deallocContiguous (self : FrameAllocator σ) (target frameCount : Nat) :
    Option (FrameAllocator σ) :=
  if target < self.base then none
  else
    let startIdx := (target - self.base) / pageSize
    ((List.range' startIdx frameCount).foldlM A.dealloc self.inner).map fun inner =>
      { self with inner }

end FrameAllocator

/-! ## Frames -/

namespace Frame

/-- Allocate one physical frame. -/
def new (s : FrameState σ) : Except HvError Frame × FrameState σ :=
  match s.allocator.alloc A with
  | (some startPaddr, allocator) => (.ok ⟨startPaddr, 1⟩, { s with allocator })
  | (none, allocator) => (.error ⟨.ENOMEM, none⟩, { s with allocator })

/-- The total size of the frames in bytes. -/
def size (self : Frame) : Nat := self.frameCount * pageSize

/-- Fill the frames with `byte`. -/
def fill (self : Frame) (byte : BitVec 8) (mem : Nat → BitVec 8) : Nat → BitVec 8 :=
  (List.range self.size).foldl (fun mem i => Function.update mem (self.startPaddr + i) byte) mem

/-- The bytes of the frame become zeros. -/
def clear (self : Frame) (mem : Nat → BitVec 8) : Nat → BitVec 8 := self.fill 0 mem

/-- Allocate one physical frame and fill it with zero. -/
def newZero (s : FrameState σ) : Except HvError Frame × FrameState σ :=
  match new A s with
  | (.ok f, s) => (.ok f, { s with mem := f.clear s.mem })
  | (.error e, s) => (.error e, s)

/-- Allocate contiguous physical frames. -/
def newContiguous (frameCount alignLog2 : Nat) (s : FrameState σ) :
    Except HvError Frame × FrameState σ :=
  match s.allocator.allocContiguous A frameCount alignLog2 with
  | (some startPaddr, allocator) => (.ok ⟨startPaddr, frameCount⟩, { s with allocator })
  | (none, allocator) => (.error ⟨.ENOMEM, none⟩, { s with allocator })

/-- A frame that goes out of scope is given back. -/
def drop (self : Frame) (s : FrameState σ) : Option (FrameState σ) :=
  match self.frameCount with
  | 0 => some s
  | 1 => (s.allocator.dealloc A self.startPaddr).map fun allocator => { s with allocator }
  | n => (s.allocator.deallocContiguous A self.startPaddr n).map fun allocator =>
      { s with allocator }

/-- The elements of a vector are dropped in order. -/
def dropAll (v : List Frame) (s : FrameState σ) : Option (FrameState σ) :=
  v.foldlM (fun s f => f.drop A s) s

/-- Return from `newContiguousWithBase`, whose vector goes out of scope; an attempt that failed
holds no frames. -/
def returnFrom (attemptedFrames : List (Except HvError Frame)) (ret : Except HvError Frame)
    (s : FrameState σ) : Option (Except HvError Frame × FrameState σ) :=
  (dropAll A (attemptedFrames.filterMap Except.toOption) s).map fun s => (ret, s)

/-- The rounds of `newContiguousWithBase`. -/
def contiguousLoop (overflowChecks : Bool) (frameCount alignMask : Nat) :
    Nat → List (Except HvError Frame) → FrameState σ →
      Option (Except HvError Frame × FrameState σ)
  | 0, _, _ => none
  | fuel + 1, attemptedFrames, s =>
    match newContiguous A frameCount 0 s with
    | (.error _, s) => returnFrom A attemptedFrames (.error ⟨.ENOMEM, none⟩) s
    | (.ok frame, s) =>
      if frame.startPaddr &&& alignMask = 0 then returnFrom A attemptedFrames (.ok frame) s
      else do
        let sum ← wordResult overflowChecks 64 (frame.startPaddr + alignMask)
        let nextAlignedAddr := sum &&& usizeNot alignMask
        let tempFrameCount := wrappingSub nextAlignedAddr frame.startPaddr / pageSize
        let s ← frame.drop A s
        let (temp, s) := newContiguous A tempFrameCount 0 s
        match newContiguous A frameCount 0 s with
        | (.ok frame, s) => returnFrom A (attemptedFrames ++ [temp]) (.ok frame) s
        | (.error _, s) =>
          contiguousLoop overflowChecks frameCount alignMask fuel (attemptedFrames ++ [temp]) s

/-- Allocate contiguous frames with the lower `alignLog2` bits of the address set to 0. -/
def newContiguousWithBase (overflowChecks : Bool) (frameCount alignLog2 fuel : Nat)
    (s : FrameState σ) : Option (Except HvError Frame × FrameState σ) := do
  let alignMask := (← shlResult overflowChecks 1 alignLog2) - 1
  contiguousLoop A overflowChecks frameCount alignMask fuel [] s

/-- Construct a frame from a raw physical address; the state is not touched. -/
def fromPaddr (startPaddr : Nat) : Option Frame :=
  if isAligned startPaddr then some ⟨startPaddr, 0⟩ else none

/-- The search of `new16` for a frame at a multiple of 16 KiB. -/
def new16Loop : Nat → List Frame → FrameState σ →
    Option (Except HvError (List Frame) × FrameState σ)
  | 0, _, _ => none
  | fuel + 1, v, s =>
    match newZero A s with
    | (.error e, s) => (dropAll A v s).map fun s => (.error e, s)
    | (.ok f, s) =>
      if f.startPaddr &&& 0b11_1111_1111_1111 = 0 then some (.ok (v ++ [f]), s)
      else new16Loop fuel (v ++ [f]) s

/-- `Frame::new_16`: four frames, aligned to their size. -/
def new16 (fuel : Nat) (s : FrameState σ) : Option (Except HvError Frame × FrameState σ) := do
  match ← new16Loop A fuel [] s with
  | (.error e, s) => some (.error e, s)
  | (.ok v, s) =>
    let f16 ← v.getLast?
    let s ← f16.drop A s
    let (ret, s) := newContiguous A 4 0 s
    let s ← dropAll A v.dropLast s
    some (ret, s)

end Frame

end

/-! ## What the operations do to the free frames -/

/-- The frames `i` to `i + n` of a pool. -/
def frameAt (base i n : Nat) : Frame := ⟨i * pageSize + base, n⟩

/-- The indices of the frames that a value owns. -/
def Frame.indices (base : Nat) (self : Frame) : Finset Nat :=
  run ((self.startPaddr - base) / pageSize) self.frameCount

/-- A value owns nothing, or frames of the pool. -/
def Frame.InPool (base : Nat) (self : Frame) : Prop :=
  self.frameCount = 0 ∨ ∃ i, self.startPaddr = i * pageSize + base

@[simp] theorem frameAt_indices (base i n : Nat) : (frameAt base i n).indices base = run i n := by
  simp [Frame.indices, frameAt, pageSize]

theorem frameAt_inPool (base i n : Nat) : (frameAt base i n).InPool base := .inr ⟨i, rfl⟩

/-- The set of the free frames has become `F`. -/
structure FrameState.Moved (free : σ → Finset Nat) (s s' : FrameState σ) (F : Finset Nat) :
    Prop where
  base_eq : s'.allocator.base = s.allocator.base
  free_eq : free s'.allocator.inner = F

section Specs

variable {A : IndexAllocator σ} {cap : Nat} {free : σ → Finset Nat} {s : FrameState σ}

/-- The frames that `newContiguous` hands out were free. -/
theorem Frame.newContiguous_cases (hA : A.Lawful cap free) (s : FrameState σ) (n k : Nat) :
    (∃ i s', newContiguous A n k s = (.ok (frameAt s.allocator.base i n), s') ∧
      A.allocContiguous s.allocator.inner n k = (some i, s'.allocator.inner) ∧
      run i n ⊆ free s.allocator.inner ∧ s'.mem = s.mem ∧
      s.Moved free s' (free s.allocator.inner \ run i n)) ∨
    (∃ s', newContiguous A n k s = (.error ⟨.ENOMEM, none⟩, s') ∧
      A.allocContiguous s.allocator.inner n k = (none, s'.allocator.inner) ∧ s'.mem = s.mem ∧
      s.Moved free s' (free s.allocator.inner)) := by
  -- the allocator decides; the memory is left as it is
  rcases h : A.allocContiguous s.allocator.inner n k with ⟨_ | i, inner⟩
  · refine .inr ⟨{ s with allocator := { s.allocator with inner } }, ?_, rfl, rfl, rfl, ?_⟩
    · simp [newContiguous, FrameAllocator.allocContiguous, h]
    · exact hA.contiguous_none h
  · obtain ⟨hsub, hfree⟩ := hA.contiguous_some h
    refine .inl ⟨i, { s with allocator := { s.allocator with inner } }, ?_, rfl, hsub, rfl, rfl,
      hfree⟩
    simp [newContiguous, FrameAllocator.allocContiguous, h, frameAt]

theorem Frame.new_cases (hA : A.Lawful cap free) (s : FrameState σ) :
    (∃ i s', new A s = (.ok (frameAt s.allocator.base i 1), s') ∧
      A.alloc s.allocator.inner = (some i, s'.allocator.inner) ∧
      run i 1 ⊆ free s.allocator.inner ∧ s'.mem = s.mem ∧
      s.Moved free s' (free s.allocator.inner \ run i 1)) ∨
    (∃ s', new A s = (.error ⟨.ENOMEM, none⟩, s') ∧
      A.alloc s.allocator.inner = (none, s'.allocator.inner) ∧ s'.mem = s.mem ∧
      s.Moved free s' (free s.allocator.inner)) := by
  rcases h : A.alloc s.allocator.inner with ⟨_ | i, inner⟩
  · refine .inr ⟨{ s with allocator := { s.allocator with inner } }, ?_, rfl, rfl, rfl, ?_⟩
    · simp [new, FrameAllocator.alloc, h]
    · exact hA.alloc_none h
  · obtain ⟨hmem, hfree⟩ := hA.alloc_some h
    refine .inl ⟨i, { s with allocator := { s.allocator with inner } }, ?_, rfl, ?_, rfl, rfl, ?_⟩
    · simp [new, FrameAllocator.alloc, h, frameAt]
    · rwa [run_one, Finset.singleton_subset_iff]
    · rwa [run_one]

theorem Frame.newZero_cases (hA : A.Lawful cap free) (s : FrameState σ) :
    (∃ i s', newZero A s = (.ok (frameAt s.allocator.base i 1), s') ∧
      A.alloc s.allocator.inner = (some i, s'.allocator.inner) ∧
      run i 1 ⊆ free s.allocator.inner ∧
      s'.mem = (frameAt s.allocator.base i 1).clear s.mem ∧
      s.Moved free s' (free s.allocator.inner \ run i 1)) ∨
    (∃ s', newZero A s = (.error ⟨.ENOMEM, none⟩, s') ∧
      A.alloc s.allocator.inner = (none, s'.allocator.inner) ∧ s'.mem = s.mem ∧
      s.Moved free s' (free s.allocator.inner)) := by
  -- a frame as from `new`, which is then cleared
  rcases new_cases hA s with ⟨i, s', hnew, halloc, hsub, hmem, hm⟩ | ⟨s', hnew, halloc, hmem, hm⟩
  · refine .inl ⟨i, { s' with mem := (frameAt s.allocator.base i 1).clear s'.mem }, ?_, halloc,
      hsub, ?_, ⟨hm.base_eq, hm.free_eq⟩⟩
    · simp [newZero, hnew]
    · rw [hmem]
  · refine .inr ⟨s', ?_, halloc, hmem, hm⟩
    simp [newZero, hnew]

/-- A filled frame holds the byte, and the rest of the memory what it held. -/
theorem Frame.fill_apply (f : Frame) (byte : BitVec 8) (mem : Nat → BitVec 8) (a : Nat) :
    f.fill byte mem a =
      if f.startPaddr ≤ a ∧ a < f.startPaddr + f.size then byte else mem a := by
  unfold fill
  induction f.size with
  | zero =>
    rw [if_neg (by omega)]
    rfl
  | succ n ih =>
    rw [List.range_succ, List.foldl_append, List.foldl_cons, List.foldl_nil, Function.update_apply]
    split_ifs at ih ⊢ <;> first | rfl | exact ih | omega

/-- Dropping what owns frames of the pool makes exactly these frames free. -/
theorem Frame.drop_eq_some (hA : A.Lawful cap free) {f : Frame} (hf : f.InPool s.allocator.base)
    (hcap : f.indices s.allocator.base ⊆ Finset.range cap)
    (hfree : Disjoint (f.indices s.allocator.base) (free s.allocator.inner)) :
    ∃ s', f.drop A s = some s' ∧ s'.mem = s.mem ∧
      s.Moved free s' (free s.allocator.inner ∪ f.indices s.allocator.base) := by
  obtain ⟨start, count⟩ := f
  match count, hf with
  | 0, _ => exact ⟨s, rfl, rfl, rfl, by simp [indices]⟩
  | n + 1, .inr ⟨i, hi⟩ =>
    obtain rfl : start = i * pageSize + s.allocator.base := hi
    have hdiv : i * pageSize / pageSize = i := Nat.mul_div_cancel i (by decide)
    simp only [indices, Nat.add_sub_cancel, hdiv] at hcap hfree ⊢
    have hbound : i + (n + 1) ≤ cap := by
      have hlast := Finset.mem_range.mp (hcap (mem_run.mpr (show i ≤ i + n ∧ _ by omega)))
      omega
    obtain ⟨inner, hd, hfree'⟩ := hA.foldlM_dealloc hbound hfree
    refine ⟨{ s with allocator := { s.allocator with inner } }, ?_, rfl, rfl, hfree'⟩
    cases n with
    | zero =>
      -- one frame is given back by itself
      have hone : A.dealloc s.allocator.inner i = some inner := by
        simpa [List.range'_succ] using hd
      simp [drop, FrameAllocator.dealloc, hdiv, hone]
    | succ n => simp [drop, FrameAllocator.deallocContiguous, hdiv, hd]

end Specs

end Hvisor.FrameAlloc
