import Hvisor.Memory.FrameOwners

/-!
# Contiguous frames at an aligned address

`Frame::new_contiguous_with_base` of `memory/frame.rs`, with an allocator that hands out the lowest
frames that are free. It pads to the next aligned address and allocates again, but it does not look
at the address of what the second allocation returns.

## Main definitions

* `frameAddr`, `padding`: the address of a frame, and the bytes up to the next aligned address
* `PadFits`, `WithBaseFits`: the free frames for which the padding leads to an aligned address

## Main results

* `wrappingSub_padding`: the distance to the next aligned address
* `Frame.contiguousLoop_of_noRun`, `Frame.contiguousLoop_of_aligned`,
  `Frame.contiguousLoop_of_misaligned`: the three courses of a round
* `newContiguousWithBase_aligned_iff`: when a result is aligned
-/

namespace Hvisor.FrameAlloc

open FirstFit

variable {σ : Type}

/-- The address of the frame with index `i`. -/
def frameAddr (base i : Nat) : Nat := i * pageSize + base

@[simp] theorem frameAt_startPaddr (base i n : Nat) :
    (frameAt base i n).startPaddr = frameAddr base i := rfl

theorem frameAddr_mono {base i j : Nat} (h : i ≤ j) : frameAddr base i ≤ frameAddr base j := by
  simp only [frameAddr, pageSize]
  omega

/-! ## Alignment -/

/-- The bytes from an address to the next one that passes the test of the mask; a shift amount
counts modulo the width of a word. -/
def padding (alignLog2 start : Nat) : Nat := 2 ^ (alignLog2 % 64) - start % 2 ^ (alignLog2 % 64)

theorem shlResult_one {overflowChecks : Bool} {k : Nat} (h : overflowChecks = true → k < 64) :
    shlResult overflowChecks 1 k = some (2 ^ (k % 64)) := by
  have hlt : 2 ^ (k % 64) < 2 ^ 64 := Nat.pow_lt_pow_right one_lt_two (Nat.mod_lt k (by norm_num))
  unfold shlResult
  -- a shift amount below 64, a panic, or one that counts modulo 64
  split_ifs with hk hc
  · rw [Nat.mod_eq_of_lt hk] at hlt ⊢
    rw [Nat.one_shiftLeft, Nat.mod_eq_of_lt hlt]
  · exact absurd (h hc) hk
  · rw [Nat.one_shiftLeft, Nat.mod_eq_of_lt hlt]

/-- From an address that is not aligned, the rounded sum is the next aligned address, which may be
the end of the address space. -/
theorem wrappingSub_padding {overflowChecks : Bool} {k start sum : Nat} (hstart : start < 2 ^ 64)
    (hmis : start % 2 ^ (k % 64) ≠ 0)
    (hsum : wordResult overflowChecks 64 (start + (2 ^ (k % 64) - 1)) = some sum) :
    wrappingSub (sum &&& usizeNot (2 ^ (k % 64) - 1)) start = padding k start := by
  have hk : k % 64 ≤ 64 := (Nat.mod_lt k (by norm_num)).le
  generalize hj : k % 64 = j at hk hmis hsum ⊢
  unfold padding
  rw [hj]
  have hpos : 0 < 2 ^ j := Nat.two_pow_pos j
  have hr : start % 2 ^ j < 2 ^ j := Nat.mod_lt start hpos
  have hsplit : 2 ^ j * (start / 2 ^ j) + start % 2 ^ j = start := Nat.div_add_mod start (2 ^ j)
  have hword : 2 ^ 64 = 2 ^ j * 2 ^ (64 - j) := by rw [← Nat.pow_add, Nat.add_sub_cancel' hk]
  -- `start` is `q` multiples of the alignment and a rest `r`, which is not zero
  generalize start / 2 ^ j = q at hsplit
  generalize start % 2 ^ j = r at hmis hr hsplit ⊢
  -- what is left of the sum modulo the alignment
  have hnext : start + (2 ^ j - 1) = 2 ^ j * (q + 1) + (r - 1) := by
    rw [Nat.mul_add, Nat.mul_one]
    omega
  have hdown : ∀ x < 2 ^ 64, x &&& usizeNot (2 ^ j - 1) = x - x % 2 ^ j := fun x hx =>
    BitMask.and_not_low (w := 64) (n := j) hx hk
  unfold wordResult at hsum
  split at hsum
  -- the sum is a word, and its multiple below is the next aligned address
  · next hlt =>
    obtain rfl := Option.some.inj hsum
    rw [hdown _ hlt, hnext, Nat.mul_add_mod, Nat.mod_eq_of_lt (by omega), Nat.add_sub_cancel]
    rw [hnext] at hlt
    rw [Nat.mul_add, Nat.mul_one] at hlt ⊢
    unfold wrappingSub usizeSize
    omega
  · next hge =>
    split at hsum
    · cases hsum
    · -- the next aligned address is the end of the address space
      obtain rfl := Option.some.inj hsum
      have hq : 2 ^ 64 ≤ 2 ^ j * (q + 1) := by
        rw [hword] at hge ⊢
        rw [hnext] at hge
        apply Nat.mul_le_mul_left
        by_contra hlt
        have hle : 2 ^ j * (q + 1) + 2 ^ j ≤ 2 ^ j * 2 ^ (64 - j) := by
          rw [← Nat.mul_succ]
          exact Nat.mul_le_mul_left _ (by omega)
        omega
      have hend : 2 ^ j * (q + 1) = 2 ^ 64 := by
        rw [Nat.mul_add, Nat.mul_one] at hq ⊢
        apply Nat.le_antisymm _ hq
        rw [hword] at hstart hq ⊢
        have hlt : 2 ^ j * q < 2 ^ j * 2 ^ (64 - j) := by omega
        have hq' : q + 1 ≤ 2 ^ (64 - j) := Nat.lt_of_mul_lt_mul_left hlt
        rw [← Nat.mul_succ]
        exact Nat.mul_le_mul_left _ hq'
      have hmod : (start + (2 ^ j - 1)) % 2 ^ 64 = r - 1 := by
        rw [hnext, hend, Nat.add_mod_left, Nat.mod_eq_of_lt (by omega)]
      rw [hmod, hdown _ (by omega), Nat.mod_eq_of_lt (by omega), Nat.sub_self]
      rw [Nat.mul_add, Nat.mul_one] at hend
      unfold wrappingSub usizeSize
      omega

/-! ## The rounds of `newContiguousWithBase` -/

section Rounds

variable {A : IndexAllocator σ} {cap : Nat} {free : σ → Finset Nat} {s s' : FrameState σ}
  {n k i : Nat}

/-- `newContiguous` hands out the lowest run, and fails only when there is none. -/
theorem Frame.newContiguous_lowest (hA : A.LowestFirst cap free) (s : FrameState σ) (hn : 0 < n) :
    (∃ i s', newContiguous A n 0 s = (.ok (frameAt s.allocator.base i n), s') ∧
      LowestRun (free s.allocator.inner) n i ∧ s'.mem = s.mem ∧
      s.Moved free s' (free s.allocator.inner \ run i n)) ∨
    (∃ s', newContiguous A n 0 s = (.error ⟨.ENOMEM, none⟩, s') ∧
      (∀ j, ¬ run j n ⊆ free s.allocator.inner) ∧ s'.mem = s.mem ∧
      s.Moved free s' (free s.allocator.inner)) := by
  rcases newContiguous_cases hA.toLawful s n 0 with
    ⟨i, s', he, hc, hsub, hmem, hm⟩ | ⟨s', he, hc, hmem, hm⟩
  · exact .inl ⟨i, s', he, ⟨hsub, hA.contiguous_le hc⟩, hmem, hm⟩
  · exact .inr ⟨s', he, hA.contiguous_none_run hn hc, hmem, hm⟩

/-- Frames that were handed out and are dropped at once: the free frames are the same as before. -/
theorem Frame.drop_of_taken (hA : A.Lawful cap free) (hsub : run i n ⊆ free s.allocator.inner)
    (hm : s.Moved free s' (free s.allocator.inner \ run i n)) :
    ∃ s₁, (frameAt s.allocator.base i n).drop A s' = some s₁ ∧ s₁.mem = s'.mem ∧
      s.Moved free s₁ (free s.allocator.inner) := by
  have hcap : run i n ⊆ Finset.range cap := fun j hj => Finset.mem_range.mpr (hA.free_lt (hsub hj))
  obtain ⟨s₁, hd, hmem, hbase, hfree⟩ := drop_eq_some (s := s')
    (f := frameAt s.allocator.base i n) hA
    (by rw [hm.base_eq]; exact frameAt_inPool _ i n)
    (by rw [hm.base_eq, frameAt_indices]; exact hcap)
    (by rw [hm.base_eq, frameAt_indices, hm.free_eq]; exact Finset.disjoint_sdiff)
  refine ⟨s₁, hd, hmem, hbase.trans hm.base_eq, ?_⟩
  -- what was taken away is added again
  rw [hfree, hm.base_eq, frameAt_indices, hm.free_eq, Finset.sdiff_union_of_subset hsub]

variable (overflowChecks : Bool) (fuel : Nat) (attempted : List (Except HvError Frame))

/-- Without a run that is long enough, the function returns an error. -/
theorem Frame.contiguousLoop_of_noRun (hA : A.LowestFirst cap free) (hn : 0 < n) (mask : Nat)
    (hno : ∀ j, ¬ run j n ⊆ free s.allocator.inner) :
    ∃ s₁, s.Moved free s₁ (free s.allocator.inner) ∧
      contiguousLoop A overflowChecks n mask (fuel + 1) attempted s =
        returnFrom A attempted (.error ⟨.ENOMEM, none⟩) s₁ := by
  rcases newContiguous_lowest hA s hn with ⟨i, s₁, he, hi, -, hm⟩ | ⟨s₁, he, -, -, hm⟩
  · exact absurd hi.sub (hno i)
  · refine ⟨s₁, hm, ?_⟩
    rw [contiguousLoop]
    simp only [he]

/-- The lowest run is returned when its address passes the test. -/
theorem Frame.contiguousLoop_of_aligned (hA : A.LowestFirst cap free) (hn : 0 < n) {j : Nat}
    (hi : LowestRun (free s.allocator.inner) n i)
    (hal : frameAddr s.allocator.base i % 2 ^ j = 0) :
    ∃ s₁, contiguousLoop A overflowChecks n (2 ^ j - 1) (fuel + 1) attempted s =
        returnFrom A attempted (.ok (frameAt s.allocator.base i n)) s₁ := by
  rcases newContiguous_lowest hA s hn with ⟨i', s₁, he, hi', -, hm⟩ | ⟨s₁, he, hno, -, hm⟩
  · obtain rfl := hi'.unique hi
    refine ⟨s₁, ?_⟩
    have htest : frameAddr s.allocator.base i' &&& (2 ^ j - 1) = 0 := by
      rw [BitMask.and_low]
      exact hal
    rw [contiguousLoop]
    simp only [he, frameAt_startPaddr]
    exact if_pos htest
  · exact absurd hi.sub (hno i)

/-- The lowest run has an address that does not pass the test. It is given back, frames are taken as
a padding, and what is allocated then is returned whatever its address is. -/
theorem Frame.contiguousLoop_of_misaligned (hA : A.LowestFirst cap free) (hn : 0 < n)
    (hi : LowestRun (free s.allocator.inner) n i) (hlt : frameAddr s.allocator.base i < 2 ^ 64)
    (hmis : frameAddr s.allocator.base i % 2 ^ (k % 64) ≠ 0)
    (hsum : overflowChecks = true →
      frameAddr s.allocator.base i + (2 ^ (k % 64) - 1) < 2 ^ 64) :
    ∃ s₂ temp s₃, s.Moved free s₂ (free s.allocator.inner) ∧
      newContiguous A (padding k (frameAddr s.allocator.base i) / pageSize) 0 s₂ = (temp, s₃) ∧
      (∀ frame s₄, newContiguous A n 0 s₃ = (.ok frame, s₄) →
        contiguousLoop A overflowChecks n (2 ^ (k % 64) - 1) (fuel + 1) attempted s =
          returnFrom A (attempted ++ [temp]) (.ok frame) s₄) ∧
      (∀ e s₄, newContiguous A n 0 s₃ = (.error e, s₄) →
        contiguousLoop A overflowChecks n (2 ^ (k % 64) - 1) (fuel + 1) attempted s =
          contiguousLoop A overflowChecks n (2 ^ (k % 64) - 1) fuel (attempted ++ [temp]) s₄) := by
  rcases newContiguous_lowest hA s hn with ⟨i', s₁, he, hi', -, hm⟩ | ⟨s₁, he, hno, -, hm⟩
  · obtain rfl := hi'.unique hi
    obtain ⟨s₂, hd, -, hm₂⟩ := drop_of_taken hA.toLawful hi'.sub hm
    -- with checks of overflows the hypothesis keeps the sum a word
    obtain ⟨sum, hw⟩ : ∃ sum, wordResult overflowChecks 64
        (frameAddr s.allocator.base i' + (2 ^ (k % 64) - 1)) = some sum := by
      unfold wordResult
      split_ifs with hc hb
      · exact ⟨_, rfl⟩
      · exact absurd (hsum hb) hc
      · exact ⟨_, rfl⟩
    have hpad := wrappingSub_padding hlt hmis hw
    rcases ht : newContiguous A (padding k (frameAddr s.allocator.base i') / pageSize) 0 s₂ with
      ⟨temp, s₃⟩
    have htest : frameAddr s.allocator.base i' &&& (2 ^ (k % 64) - 1) ≠ 0 := by
      rw [BitMask.and_low]
      exact hmis
    refine ⟨s₂, temp, s₃, hm₂, ht, fun frame s₄ hc => ?_, fun e s₄ hc => ?_⟩ <;>
      simp only [contiguousLoop, he, frameAt_startPaddr, if_neg htest, hw, hpad, hd, ht, hc,
        Option.bind_eq_bind, Option.bind_some]
  · exact absurd hi.sub (hno i)

/-- With checks of overflows, the sum has to be a word. -/
theorem Frame.contiguousLoop_of_overflow (hA : A.LowestFirst cap free) (hn : 0 < n)
    (hi : LowestRun (free s.allocator.inner) n i)
    (hmis : frameAddr s.allocator.base i % 2 ^ (k % 64) ≠ 0)
    (hsum : 2 ^ 64 ≤ frameAddr s.allocator.base i + (2 ^ (k % 64) - 1)) :
    contiguousLoop A true n (2 ^ (k % 64) - 1) fuel attempted s = none := by
  cases fuel with
  | zero => rfl
  | succ fuel =>
    rcases newContiguous_lowest hA s hn with ⟨i', s₁, he, hi', -, hm⟩ | ⟨s₁, he, hno, -, hm⟩
    · obtain rfl := hi'.unique hi
      have htest : frameAddr s.allocator.base i' &&& (2 ^ (k % 64) - 1) ≠ 0 := by
        rw [BitMask.and_low]
        exact hmis
      -- the run fails the test, and the sum for the padding panics
      have hover : wordResult true 64 (frameAddr s.allocator.base i' + (2 ^ (k % 64) - 1)) =
          none := by
        rw [wordResult, if_neg (Nat.not_lt.mpr hsum), if_pos rfl]
      rw [contiguousLoop]
      simp only [he, frameAt_startPaddr, if_neg htest, hover, Option.bind_eq_bind, Option.bind_none]
    · exact absurd hi.sub (hno i)

/-- What is free after the padding. When the padding is the beginning of the lowest run, it is taken
from it, and otherwise the lowest run is still there. -/
theorem Frame.padding_cases (hA : A.LowestFirst cap free) {p : Nat} (hp : 0 < p) {F : Finset Nat}
    (hi : LowestRun F n i) (hs : free s.allocator.inner = F) {temp : Except HvError Frame}
    (ht : newContiguous A p 0 s = (temp, s')) :
    s'.allocator.base = s.allocator.base ∧
      (LowestRun F p i ∧ temp = .ok (frameAt s.allocator.base i p) ∧
          free s'.allocator.inner = F \ run i p ∨
        ¬ LowestRun F p i ∧ LowestRun (free s'.allocator.inner) n i) := by
  -- the padding is found at some `q`, which is the run's start or apart from the run
  rcases newContiguous_lowest hA s hp with ⟨q, s₁, he, hq, -, hm⟩ | ⟨s₁, he, hno, -, hm⟩
  · obtain ⟨rfl, rfl⟩ := Prod.mk.inj (he.symm.trans ht)
    rw [hs] at hq
    have hfree : free s₁.allocator.inner = F \ run q p := by rw [hm.free_eq, hs]
    refine ⟨hm.base_eq, ?_⟩
    by_cases hqi : q = i
    · subst hqi
      exact .inl ⟨hq, rfl, hfree⟩
    · refine .inr ⟨fun h => hqi (hq.unique h), ?_⟩
      rw [hfree]
      apply hi.of_subset Finset.sdiff_subset
      exact Finset.subset_sdiff.mpr ⟨hi.sub, hi.disjoint hq hqi⟩
  · obtain ⟨rfl, rfl⟩ := Prod.mk.inj (he.symm.trans ht)
    rw [hs] at hno
    -- no frames for a padding: nothing is taken
    refine ⟨hm.base_eq, .inr ⟨fun h => hno i h.sub, ?_⟩⟩
    rw [hm.free_eq, hs]
    exact hi

/-- The padding is given back on the return. -/
theorem Frame.returnFrom_padding (hA : A.Lawful cap free) {p : Nat} (ret : Except HvError Frame)
    (hcap : run i p ⊆ Finset.range cap) (hd : Disjoint (run i p) (free s.allocator.inner)) :
    ∃ s', returnFrom A [.ok (frameAt s.allocator.base i p)] ret s = some (ret, s') ∧
      free s'.allocator.inner = free s.allocator.inner ∪ run i p := by
  obtain ⟨s', hdrop, -, -, hfree⟩ := drop_eq_some (s := s) hA (frameAt_inPool s.allocator.base i p)
    (by rwa [frameAt_indices]) (by rwa [frameAt_indices])
  rw [frameAt_indices] at hfree
  refine ⟨s', ?_, hfree⟩
  simp [returnFrom, dropAll, Except.toOption, hdrop]

end Rounds

/-! ## When the result is aligned -/

section WithBase

variable {A : IndexAllocator σ} {cap : Nat} {free : σ → Finset Nat} {s s' : FrameState σ}
  {overflowChecks : Bool} {n k i : Nat}

/-- The lowest run starts at `i`, where the test fails. The frames up to the next address that
passes it are the lowest run of their number, and the lowest run from there on, if there is one, is
at an aligned address. -/
structure PadFits (overflowChecks : Bool) (base : Nat) (F : Finset Nat) (n k i : Nat) : Prop where
  misaligned : frameAddr base i % 2 ^ (k % 64) ≠ 0
  no_overflow : overflowChecks = true → frameAddr base i + (2 ^ (k % 64) - 1) < 2 ^ 64
  pad_lowest : LowestRun F (padding k (frameAddr base i) / pageSize) i
  next_aligned : ∀ r,
    LowestRun (F.filter (i + padding k (frameAddr base i) / pageSize ≤ ·)) n r →
      2 ^ k ∣ frameAddr base r

/-- The shift does not overflow, and the lowest run of `n` free frames, if there is one, is aligned
or made so by the padding. -/
def WithBaseFits (overflowChecks : Bool) (base : Nat) (F : Finset Nat) (n k : Nat) : Prop :=
  (overflowChecks = true → k < 64) ∧
    ∀ i, LowestRun F n i → 2 ^ k ∣ frameAddr base i ∨ PadFits overflowChecks base F n k i

/-- The addresses that pass the test of the mask are a multiple of the page size apart, unless all
frames pass. -/
theorem padding_pos (hmis : frameAddr s.allocator.base i % 2 ^ (k % 64) ≠ 0)
    (hbase : s.allocator.base % pageSize = 0) :
    0 < padding k (frameAddr s.allocator.base i) / pageSize := by
  have haddr : 2 ^ 12 ∣ frameAddr s.allocator.base i := by
    simp only [frameAddr, pageSize] at hbase ⊢
    omega
  -- an alignment up to a page is passed by every frame
  have hj : 12 ≤ k % 64 := by
    by_contra hlt
    apply hmis
    exact Nat.mod_eq_zero_of_dvd ((Nat.pow_dvd_pow 2 (by omega)).trans haddr)
  have hpow : 2 ^ 12 ∣ 2 ^ (k % 64) := Nat.pow_dvd_pow 2 hj
  have hpad : 2 ^ 12 ∣ padding k (frameAddr s.allocator.base i) :=
    Nat.dvd_sub hpow ((Nat.dvd_mod_iff hpow).mpr haddr)
  have hr := Nat.mod_lt (frameAddr s.allocator.base i) (Nat.two_pow_pos (k % 64))
  have hpos : 0 < padding k (frameAddr s.allocator.base i) := Nat.sub_pos_of_lt hr
  exact Nat.div_pos (Nat.le_of_dvd hpos hpad) (by decide)

/-- The call returns. A value is aligned, and after an error the same frames are free as before. -/
def AlignedResult (free : σ → Finset Nat) (s : FrameState σ) (k : Nat)
    (call : Option (Except HvError Frame × FrameState σ)) : Prop :=
  ∃ r s', call = some (r, s') ∧ (∀ f, r = .ok f → 2 ^ k ∣ f.startPaddr) ∧
    ∀ e, r = .error e → free s'.allocator.inner = free s.allocator.inner

theorem Frame.newContiguousWithBase_eq (hk : overflowChecks = true → k < 64) (fuel : Nat) :
    newContiguousWithBase A overflowChecks n k fuel s =
      contiguousLoop A overflowChecks n (2 ^ (k % 64) - 1) fuel [] s := by
  rw [newContiguousWithBase, shlResult_one hk]
  rfl

theorem dvd_of_dvd_pow {x : Nat} (h : 2 ^ k ∣ x) : x % 2 ^ (k % 64) = 0 :=
  Nat.mod_eq_zero_of_dvd ((Nat.pow_dvd_pow 2 (Nat.mod_le k 64)).trans h)

/-- The lowest run passes the test, and is returned. -/
theorem exists_alignedResult_iff_of_aligned (hA : A.LowestFirst cap free) (hn : 0 < n)
    (hi : LowestRun (free s.allocator.inner) n i)
    (hal : frameAddr s.allocator.base i % 2 ^ (k % 64) = 0) :
    (∃ fuel, AlignedResult free s k
      (Frame.contiguousLoop A overflowChecks n (2 ^ (k % 64) - 1) fuel [] s)) ↔
      2 ^ k ∣ frameAddr s.allocator.base i := by
  constructor
  -- whatever the number of rounds is, the first one returns the run
  · rintro ⟨fuel, r, s', hloop, hok, -⟩
    cases fuel with
    | zero => cases hloop
    | succ fuel =>
      obtain ⟨s₁, he⟩ := Frame.contiguousLoop_of_aligned overflowChecks fuel [] hA hn hi hal
      obtain ⟨rfl, -⟩ := Prod.mk.inj (Option.some.inj (he.symm.trans hloop))
      exact hok _ rfl
  · intro hdvd
    obtain ⟨s₁, he⟩ := Frame.contiguousLoop_of_aligned overflowChecks 0 [] hA hn hi hal
    refine ⟨1, _, s₁, he, ?_, ?_⟩
    · intro f hf
      obtain rfl := Except.ok.inj hf
      exact hdvd
    · intro e h
      cases h

/-- After a padding that is the beginning of the lowest run, the second allocation hands out the
lowest run from the padding's end on, or the next round fails. -/
theorem alignedResult_of_padFits (hA : A.LowestFirst cap free) (hn : 0 < n)
    (hi : LowestRun (free s.allocator.inner) n i) (hlt : frameAddr s.allocator.base i < 2 ^ 64)
    (hbase : s.allocator.base % pageSize = 0)
    (h : PadFits overflowChecks s.allocator.base (free s.allocator.inner) n k i) :
    AlignedResult free s k
      (Frame.contiguousLoop A overflowChecks n (2 ^ (k % 64) - 1) 2 [] s) := by
  obtain ⟨s₂, temp, s₃, hm₂, ht, hok, herr⟩ := Frame.contiguousLoop_of_misaligned
    overflowChecks 1 [] hA hn hi hlt h.misaligned h.no_overflow
  have hpos := padding_pos h.misaligned hbase
  obtain ⟨hb₃, ⟨hq, rfl, hfree₃⟩ | ⟨hq, -⟩⟩ := Frame.padding_cases hA hpos hi hm₂.free_eq ht
  · rw [hm₂.base_eq] at hok herr
    have hcap : run i (padding k (frameAddr s.allocator.base i) / pageSize) ⊆ Finset.range cap :=
      fun j hj => Finset.mem_range.mpr (hA.free_lt (hq.sub hj))
    have hb₃' : s₃.allocator.base = s.allocator.base := hb₃.trans hm₂.base_eq
    rcases Frame.newContiguous_lowest hA s₃ hn with ⟨r, s₄, he, hr, -, hm₄⟩ | ⟨s₄, he, hno, -, hm₄⟩
    · -- the second allocation hands out the lowest run after the padding
      have hd : Disjoint (run i (padding k (frameAddr s.allocator.base i) / pageSize))
          (free s₄.allocator.inner) := by
        rw [hm₄.free_eq, hfree₃]
        exact Finset.disjoint_sdiff.mono_right Finset.sdiff_subset
      obtain ⟨s', hret, -⟩ := Frame.returnFrom_padding hA.toLawful
        (.ok (frameAt s.allocator.base r n)) hcap hd
      rw [hm₄.base_eq, hb₃'] at hret
      rw [hb₃'] at he
      refine ⟨_, s', (hok _ _ he).trans hret, ?_, ?_⟩
      · intro f hf
        obtain rfl := Except.ok.inj hf
        apply h.next_aligned r
        rw [hfree₃] at hr
        exact (hi.sdiff_iff hn).mp hr
      · intro e h
        cases h
    · -- the next round finds no run either
      rw [hm₄.free_eq.symm] at hno
      obtain ⟨s₅, hm₅, hloop⟩ := Frame.contiguousLoop_of_noRun overflowChecks 0
        [.ok (frameAt s.allocator.base i (padding k (frameAddr s.allocator.base i) / pageSize))]
        hA hn (2 ^ (k % 64) - 1) hno
      have hfree₅ : free s₅.allocator.inner = free s.allocator.inner \
          run i (padding k (frameAddr s.allocator.base i) / pageSize) := by
        rw [hm₅.free_eq, hm₄.free_eq, hfree₃]
      obtain ⟨s', hret, hfree'⟩ := Frame.returnFrom_padding (s := s₅) hA.toLawful
        (.error ⟨.ENOMEM, none⟩) hcap (by rw [hfree₅]; exact Finset.disjoint_sdiff)
      rw [hm₅.base_eq, hm₄.base_eq, hb₃'] at hret
      refine ⟨_, s', ((herr _ _ he).trans hloop).trans hret, ?_, ?_⟩
      · intro f hf
        cases hf
      · intro e _
        rw [hfree', hfree₅, Finset.sdiff_union_of_subset hq.sub]
  · exact absurd h.pad_lowest hq

/-- A call that keeps its promise although the lowest run does not pass the test has found the
padding at the beginning of the run. -/
theorem padFits_of_alignedResult (hA : A.LowestFirst cap free) (hn : 0 < n)
    (hi : LowestRun (free s.allocator.inner) n i) (hlt : frameAddr s.allocator.base i < 2 ^ 64)
    (hbase : s.allocator.base % pageSize = 0)
    (hmis : frameAddr s.allocator.base i % 2 ^ (k % 64) ≠ 0) {fuel : Nat}
    (h : AlignedResult free s k
      (Frame.contiguousLoop A overflowChecks n (2 ^ (k % 64) - 1) fuel [] s)) :
    PadFits overflowChecks s.allocator.base (free s.allocator.inner) n k i := by
  obtain ⟨r, s', hloop, hr, -⟩ := h
  -- the call returns, so the sum has not overflowed
  have hover : overflowChecks = true →
      frameAddr s.allocator.base i + (2 ^ (k % 64) - 1) < 2 ^ 64 := by
    rintro rfl
    by_contra hge
    rw [Frame.contiguousLoop_of_overflow fuel [] hA hn hi hmis (Nat.not_lt.mp hge)] at hloop
    cases hloop
  cases fuel with
  | zero => cases hloop
  | succ fuel =>
    obtain ⟨s₂, temp, s₃, hm₂, ht, hok, -⟩ := Frame.contiguousLoop_of_misaligned
      overflowChecks fuel [] hA hn hi hlt hmis hover
    obtain ⟨hb₃, hpad⟩ := Frame.padding_cases hA (padding_pos hmis hbase) hi hm₂.free_eq ht
    have hb₃' : s₃.allocator.base = s.allocator.base := hb₃.trans hm₂.base_eq
    -- what the second allocation hands out is returned
    have hret : ∀ q, LowestRun (free s₃.allocator.inner) n q →
        2 ^ k ∣ frameAddr s.allocator.base q := by
      intro q hq
      rcases Frame.newContiguous_lowest hA s₃ hn with
        ⟨q', s₄, he, hq', -, -⟩ | ⟨s₄, he, hno, -, -⟩
      · obtain rfl := hq.unique hq'
        rw [hok _ _ he] at hloop
        obtain ⟨s₅, -, hsome⟩ := Option.map_eq_some_iff.mp hloop
        obtain ⟨rfl, -⟩ := Prod.mk.inj hsome
        rw [← hb₃']
        exact hr _ rfl
      · exact absurd hq.sub (hno q)
    -- the padding was at the run's start, or the run itself is returned again
    obtain ⟨hq, -, hfree₃⟩ | ⟨-, hi₃⟩ := hpad
    · refine ⟨hmis, hover, hq, fun q hlow => hret q ?_⟩
      rw [hfree₃]
      exact (hi.sdiff_iff hn).mpr hlow
    · exact absurd (dvd_of_dvd_pow (hret i hi₃)) hmis

/-- **When `newContiguousWithBase` keeps its promise**: the lowest run of free frames is aligned, or
the padding up to the next aligned address is where the allocator finds it. -/
theorem newContiguousWithBase_aligned_iff (hA : A.LowestFirst cap free) (hn : 0 < n)
    (hbase : s.allocator.base % pageSize = 0)
    (hlt : ∀ i ∈ free s.allocator.inner, frameAddr s.allocator.base i < 2 ^ 64) :
    (∃ fuel, AlignedResult free s k
      (Frame.newContiguousWithBase A overflowChecks n k fuel s)) ↔
      WithBaseFits overflowChecks s.allocator.base (free s.allocator.inner) n k := by
  by_cases hk : overflowChecks = true → k < 64
  · simp only [Frame.newContiguousWithBase_eq hk]
    -- without a run the condition says nothing but that the shift is within the word
    by_cases hrun : ∃ i, LowestRun (free s.allocator.inner) n i
    · obtain ⟨i, hi⟩ := hrun
      have hmem : i ∈ free s.allocator.inner := hi.sub (mem_run.mpr ⟨le_rfl, by omega⟩)
      -- there is one lowest run, so the condition is about that one
      have hone : WithBaseFits overflowChecks s.allocator.base (free s.allocator.inner) n k ↔
          2 ^ k ∣ frameAddr s.allocator.base i ∨
            PadFits overflowChecks s.allocator.base (free s.allocator.inner) n k i := by
        refine ⟨fun h => h.2 i hi, fun h => ⟨hk, fun j hj => ?_⟩⟩
        rwa [hj.unique hi]
      rw [hone]
      by_cases hal : frameAddr s.allocator.base i % 2 ^ (k % 64) = 0
      · rw [exists_alignedResult_iff_of_aligned hA hn hi hal]
        exact ⟨.inl, fun h => h.resolve_right fun hp => hp.misaligned hal⟩
      · constructor
        · rintro ⟨fuel, h⟩
          exact .inr (padFits_of_alignedResult hA hn hi (hlt i hmem) hbase hal h)
        · rintro (h | h)
          · exact absurd (dvd_of_dvd_pow h) hal
          · exact ⟨2, alignedResult_of_padFits hA hn hi (hlt i hmem) hbase h⟩
    · -- without a run the call fails at once
      have hno : ∀ j, ¬ run j n ⊆ free s.allocator.inner := fun j hj =>
        hrun (exists_lowestRun hj)
      refine ⟨fun _ => ⟨hk, fun i hi => absurd ⟨i, hi⟩ hrun⟩, fun _ => ⟨1, ?_⟩⟩
      obtain ⟨s₁, hm, he⟩ := Frame.contiguousLoop_of_noRun overflowChecks 0 [] hA hn
        (2 ^ (k % 64) - 1) hno
      refine ⟨_, s₁, he, ?_, fun e _ => hm.free_eq⟩
      intro f hf
      cases hf
  · -- the shift overflows
    refine ⟨?_, fun h => absurd h.1 hk⟩
    rintro ⟨fuel, r, s', hcall, -⟩
    obtain ⟨hc, hge⟩ := Classical.not_imp.mp hk
    simp [Frame.newContiguousWithBase, shlResult, hge, hc] at hcall

/-- Free frames with a hole below the lowest run of four: one frame of padding fits in there. -/
def holeBelowRun : FrameState {F : Finset Nat // F ⊆ Finset.range 8} :=
  ⟨⟨0x40000000, ⟨{1, 3, 4, 5, 6, 7}, by decide⟩⟩, fun _ => 0⟩

theorem newContiguousWithBase_holeBelowRun :
    (∃ fuel, AlignedResult Subtype.val holeBelowRun 14
      (Frame.newContiguousWithBase (bitmap 8) true 4 14 fuel holeBelowRun)) ↔
      WithBaseFits true 0x40000000 {1, 3, 4, 5, 6, 7} 4 14 :=
  newContiguousWithBase_aligned_iff (bitmap_lowestFirst 8) (by decide) (by decide) (by decide)

/-- The padding is taken from the hole, and the four frames that are returned are the same that were
not aligned before. -/
theorem newContiguousWithBase_not_aligned : ¬ ∃ fuel, AlignedResult Subtype.val holeBelowRun 14
    (Frame.newContiguousWithBase (bitmap 8) true 4 14 fuel holeBelowRun) := by
  rintro ⟨fuel, h⟩
  have hi : LowestRun {1, 3, 4, 5, 6, 7} 4 3 := by
    have hlow : ∀ j < 3, ¬ run j 4 ⊆ ({1, 3, 4, 5, 6, 7} : Finset Nat) := by decide
    exact ⟨by decide, fun j hj => Nat.le_of_not_lt fun hlt => hlow j hlt hj⟩
  rw [Frame.newContiguousWithBase_eq (by decide)] at h
  have hpad := padFits_of_alignedResult (bitmap_lowestFirst 8) (by decide) hi (by decide)
    (by decide) (by decide) h
  -- the hole at 1 is a run of one frame
  exact absurd (hpad.pad_lowest.le 1 (by decide)) (by decide)

end WithBase

end Hvisor.FrameAlloc
