import Hvisor.Memory.FrameAlign

/-!
# Sixteen kibibytes for a root table

`Frame::new_16` of `memory/frame.rs`, with an allocator that hands out the lowest frames that are
free. It looks for one frame at a multiple of 16 KiB, clears what it finds on the way, gives the
aligned frame back and allocates four frames. Neither is the address of the four looked at, nor are
those cleared that the search has not found.

## Main definitions

* `FirstAligned`, `New16Fits`: the first aligned frame, and the states in which the four frames from
  the first aligned one on are the right ones
* `FoundAt`: what the search has done when it stops

## Main results

* `Frame.new16Loop_found`, `Frame.new16_cases`: what the search finds, and what is returned
* `Frame.exists_new16Loop`, `Frame.exists_new16`: the search ends
* `new16_aligned_and_zero_iff`: when the four frames are aligned and zero
-/

namespace Hvisor.FrameAlloc

open FirstFit

variable {σ : Type}

/-! ## The four frames of `new16` -/

section New16

variable {A : IndexAllocator σ} {cap : Nat} {free : σ → Finset Nat} {s s' : FrameState σ}
  {base i j fuel : Nat} {F : Finset Nat} {v v' : List Frame}

/-- The first of the frames at a multiple of 16 KiB. -/
structure FirstAligned (base : Nat) (F : Finset Nat) (i : Nat) : Prop where
  mem : i ∈ F
  aligned : 2 ^ 14 ∣ frameAddr base i
  le : ∀ j ∈ F, 2 ^ 14 ∣ frameAddr base j → i ≤ j

/-- The lowest four free frames from the first aligned one on are aligned, and those of them that
the search did not clear are zero. -/
def New16Fits (base : Nat) (F : Finset Nat) (mem : Nat → BitVec 8) : Prop :=
  ∀ i r, FirstAligned base F i → LowestRun (F.filter (i ≤ ·)) 4 r →
    2 ^ 14 ∣ frameAddr base r ∧
      ∀ a ∈ (frameAt base r 4).range, a ∉ framePage base i → mem a = 0

/-- What the search has done when it stops at the frame `i`: the frames up to `i` are taken, the
last one is cleared, and the memory above is as before. -/
structure FoundAt (free : σ → Finset Nat) (s s' : FrameState σ) (i : Nat) : Prop where
  moved : s.Moved free s' ((free s.allocator.inner).filter (i < ·))
  cleared : ∀ a ∈ framePage s.allocator.base i, s'.mem a = 0
  above : ∀ a, frameAddr s.allocator.base (i + 1) ≤ a → s'.mem a = s.mem a

theorem frameAt_clear_of_mem {mem : Nat → BitVec 8} {a : Nat} (ha : a ∈ framePage base i) :
    (frameAt base i 1).clear mem a = 0 := by
  rw [Frame.clear, Frame.fill_apply, if_pos]
  simp only [framePage, Set.mem_Ico] at ha
  simp only [frameAt, Frame.size]
  omega

theorem frameAt_clear_of_le {mem : Nat → BitVec 8} {a : Nat} (ha : frameAddr base (i + 1) ≤ a) :
    (frameAt base i 1).clear mem a = mem a := by
  rw [Frame.clear, Frame.fill_apply, if_neg]
  simp only [frameAddr, pageSize] at ha
  simp only [frameAt, Frame.size, pageSize]
  omega

/-- The frame that is allocated first is the lowest. -/
theorem Frame.newZero_lowest (hA : A.LowestFirst cap free) (s : FrameState σ) :
    (∃ i s', newZero A s = (.ok (frameAt s.allocator.base i 1), s') ∧
      i ∈ free s.allocator.inner ∧ (∀ j ∈ free s.allocator.inner, i ≤ j) ∧ FoundAt free s s' i) ∨
    (∃ s', newZero A s = (.error ⟨.ENOMEM, none⟩, s') ∧ free s.allocator.inner = ∅ ∧
      s.Moved free s' (free s.allocator.inner)) := by
  rcases newZero_cases hA.toLawful s with
    ⟨i, s', he, halloc, hsub, hmem, hm⟩ | ⟨s', he, halloc, -, hm⟩
  · have hi : i ∈ free s.allocator.inner := hsub (mem_run.mpr (by omega))
    have hle := hA.alloc_le halloc
    refine .inl ⟨i, s', he, hi, hle, ⟨hm.base_eq, ?_⟩, ?_, ?_⟩
    · rw [hm.free_eq]
      -- the frames that are left are those above the lowest
      ext j
      simp only [run_one, Finset.mem_sdiff, Finset.mem_singleton, Finset.mem_filter]
      refine and_congr_right fun hj => ?_
      have hij := hle j hj
      omega
    · intro a ha
      rw [hmem, frameAt_clear_of_mem ha]
    · intro a ha
      rw [hmem, frameAt_clear_of_le ha]
  · exact .inr ⟨s', he, hA.alloc_none_empty halloc, hm⟩

/-- A round that does not stop: what the search finds from there on it finds from here. -/
theorem FoundAt.trans {s₁ : FrameState σ} (h₁ : FoundAt free s s₁ j)
    (h : FoundAt free s₁ s' i) (hji : j < i) : FoundAt free s s' i where
  moved := by
    refine ⟨h.moved.base_eq.trans h₁.moved.base_eq, ?_⟩
    rw [h.moved.free_eq, h₁.moved.free_eq, Finset.filter_filter]
    apply Finset.filter_congr
    intro a _
    omega
  cleared a ha := h.cleared a (by rwa [h₁.moved.base_eq])
  above a ha := by
    rw [h.above a (by rwa [h₁.moved.base_eq]), h₁.above a]
    exact (frameAddr_mono (by omega)).trans ha

/-- The frames above one that is not aligned. -/
theorem firstAligned_filter (hj : ∀ a ∈ F, j ≤ a) (hmis : ¬ 2 ^ 14 ∣ frameAddr base j) :
    FirstAligned base (F.filter (j < ·)) i ↔ FirstAligned base F i := by
  have hmem : ∀ a, 2 ^ 14 ∣ frameAddr base a → (a ∈ F.filter (j < ·) ↔ a ∈ F) := by
    intro a ha
    rw [Finset.mem_filter]
    refine ⟨And.left, fun haF => ⟨haF, Nat.lt_of_le_of_ne (hj a haF) ?_⟩⟩
    rintro rfl
    exact hmis ha
  -- the sets have the same aligned frames
  constructor
  · exact fun h => ⟨(hmem i h.aligned).mp h.mem, h.aligned, fun a ha hal =>
      h.le a ((hmem a hal).mpr ha) hal⟩
  · exact fun h => ⟨(hmem i h.aligned).mpr h.mem, h.aligned, fun a ha hal =>
      h.le a ((hmem a hal).mp ha) hal⟩

/-- The test of `new16` on the address of a frame. -/
theorem and_mask16_eq_zero_iff (a : Nat) : a &&& 0b11_1111_1111_1111 = 0 ↔ 2 ^ 14 ∣ a := by
  rw [show 0b11_1111_1111_1111 = 2 ^ 14 - 1 from rfl, BitMask.and_low, Nat.dvd_iff_mod_eq_zero]

/-- **What the search finds**: the first aligned frame, or none when no free frame is aligned. By
induction on the rounds: a frame that is not aligned is the lowest, so it goes from the set without
changing what the first aligned one is. -/
theorem Frame.new16Loop_found (hA : A.LowestFirst cap free) {r : Except HvError (List Frame)}
    (h : new16Loop A fuel v s = some (r, s')) :
    (∃ w i, r = .ok (w ++ [frameAt s.allocator.base i 1]) ∧
      FirstAligned s.allocator.base (free s.allocator.inner) i ∧ FoundAt free s s' i) ∨
    (∃ e, r = .error e ∧ ∀ i, ¬ FirstAligned s.allocator.base (free s.allocator.inner) i) := by
  induction fuel generalizing v s with
  | zero => cases h
  | succ fuel ih =>
    rw [new16Loop] at h
    -- the round takes the lowest frame `j`, or there is none
    rcases newZero_lowest hA s with ⟨j, s₁, he, hj, hle, hfound⟩ | ⟨s₁, he, hempty, -⟩
    · simp only [he, frameAt_startPaddr, and_mask16_eq_zero_iff] at h
      split at h
      · next hal =>
        obtain ⟨rfl, rfl⟩ := Prod.mk.inj (Option.some.inj h)
        exact .inl ⟨v, j, rfl, ⟨hj, hal, fun a ha _ => hle a ha⟩, hfound⟩
      · next hmis =>
        -- the search goes on in the frames above `j`, which have the same first aligned one
        have hih := ih h
        rw [hfound.moved.base_eq, hfound.moved.free_eq] at hih
        simp only [firstAligned_filter hle hmis] at hih
        rcases hih with ⟨w, i, hr, hi, hfi⟩ | hnone
        · refine .inl ⟨w, i, hr, hi, hfound.trans hfi ?_⟩
          refine Nat.lt_of_le_of_ne (hle i hi.mem) ?_
          rintro rfl
          exact hmis hi.aligned
        · exact .inr hnone
    · simp only [he] at h
      obtain ⟨s₂, -, hs⟩ := Option.map_eq_some_iff.mp h
      obtain ⟨rfl, rfl⟩ := Prod.mk.inj hs
      refine .inr ⟨_, rfl, fun i hi => ?_⟩
      have hmem := hi.mem
      rw [hempty] at hmem
      simp at hmem

theorem FirstAligned.unique (h : FirstAligned base F i) (h' : FirstAligned base F j) : i = j :=
  Nat.le_antisymm (h.le j h'.mem h'.aligned) (h'.le i h.mem h.aligned)

/-- A drop does not touch the memory. -/
theorem Frame.drop_mem {f : Frame} (h : f.drop A s = some s') : s'.mem = s.mem := by
  unfold drop at h
  split at h
  · obtain rfl := Option.some.inj h
    rfl
  all_goals
    obtain ⟨allocator, -, rfl⟩ := Option.map_eq_some_iff.mp h
    rfl

theorem Frame.dropAll_mem (h : dropAll A v s = some s') : s'.mem = s.mem := by
  induction v generalizing s with
  | nil =>
    obtain rfl := Option.some.inj h
    rfl
  | cons f v ih =>
    rw [dropAll, List.foldlM_cons] at h
    obtain ⟨s₁, hd, hv⟩ := Option.bind_eq_some_iff.mp h
    rw [ih hv, drop_mem hd]

/-- **What `new16` returns**: the lowest four free frames from the first aligned one on. The first
aligned frame is clear, and the memory above it is as before. -/
theorem Frame.new16_cases (hA : A.LowestFirst cap free) {ret : Except HvError Frame}
    (h : new16 A fuel s = some (ret, s')) :
    (∃ i r, FirstAligned s.allocator.base (free s.allocator.inner) i ∧
      LowestRun ((free s.allocator.inner).filter (i ≤ ·)) 4 r ∧
      ret = .ok (frameAt s.allocator.base r 4) ∧
      (∀ a ∈ framePage s.allocator.base i, s'.mem a = 0) ∧
      ∀ a, frameAddr s.allocator.base (i + 1) ≤ a → s'.mem a = s.mem a) ∨
    (∃ e, ret = .error e ∧ ∀ i r, FirstAligned s.allocator.base (free s.allocator.inner) i →
      ¬ LowestRun ((free s.allocator.inner).filter (i ≤ ·)) 4 r) := by
  obtain ⟨⟨found, s₁⟩, hloop, h⟩ := Option.bind_eq_some_iff.mp h
  -- the search has found the first aligned frame, or the error of the search is returned
  rcases new16Loop_found hA hloop with ⟨w, i, rfl, hi, hf⟩ | ⟨e, rfl, hnone⟩
  · obtain ⟨f16, hlast, h⟩ := Option.bind_eq_some_iff.mp h
    obtain rfl : frameAt s.allocator.base i 1 = f16 := by simpa using hlast
    obtain ⟨s₂, hd, h⟩ := Option.bind_eq_some_iff.mp h
    -- the frame that was found is free again
    have hrun : run i 1 = {i} := run_one i
    obtain ⟨s₂', hd', hmem₂, hm₂⟩ := drop_eq_some (s := s₁) (f := frameAt s.allocator.base i 1)
      hA.toLawful (by rw [hf.moved.base_eq]; exact frameAt_inPool _ i 1)
      (by
        rw [hf.moved.base_eq, frameAt_indices, hrun, Finset.singleton_subset_iff]
        exact Finset.mem_range.mpr (hA.free_lt hi.mem))
      (by
        rw [hf.moved.base_eq, frameAt_indices, hrun, hf.moved.free_eq,
          Finset.disjoint_singleton_left]
        simp)
    obtain rfl := Option.some.inj (hd'.symm.trans hd)
    have hfree₂ : free s₂'.allocator.inner = (free s.allocator.inner).filter (i ≤ ·) := by
      rw [hm₂.free_eq, hf.moved.base_eq, frameAt_indices, hrun, hf.moved.free_eq]
      ext j
      simp only [Finset.mem_union, Finset.mem_filter, Finset.mem_singleton, Nat.le_iff_lt_or_eq]
      constructor
      · rintro (⟨hj, hlt⟩ | rfl)
        · exact ⟨hj, .inl hlt⟩
        · exact ⟨hi.mem, .inr rfl⟩
      · rintro ⟨hj, hlt | rfl⟩
        · exact .inl ⟨hj, hlt⟩
        · exact .inr rfl
    have hbase₂ : s₂'.allocator.base = s.allocator.base := hm₂.base_eq.trans hf.moved.base_eq
    -- free are the frames from the aligned one on; four of them in a row, or none
    rcases newContiguous_lowest (n := 4) hA s₂' (by norm_num) with
      ⟨r, s₃, he, hr, hmem₃, -⟩ | ⟨s₃, he, hno, -, -⟩
    · rw [he] at h
      obtain ⟨s₄, hd₄, h⟩ := Option.bind_eq_some_iff.mp h
      obtain ⟨rfl, rfl⟩ := Prod.mk.inj (Option.some.inj h)
      have hmem : s₄.mem = s₁.mem := (dropAll_mem hd₄).trans (hmem₃.trans hmem₂)
      rw [hfree₂] at hr
      refine .inl ⟨i, r, hi, hr, by rw [hbase₂], ?_, ?_⟩
      · rw [hmem]
        exact hf.cleared
      · rw [hmem]
        exact hf.above
    · rw [he] at h
      obtain ⟨s₄, hd₄, h⟩ := Option.bind_eq_some_iff.mp h
      obtain ⟨rfl, rfl⟩ := Prod.mk.inj (Option.some.inj h)
      refine .inr ⟨_, rfl, fun i' r hi' hr => ?_⟩
      obtain rfl := hi'.unique hi
      rw [hfree₂] at hno
      exact hno r hr.sub
  · obtain ⟨rfl, rfl⟩ := Prod.mk.inj (Option.some.inj h)
    exact .inr ⟨e, rfl, fun i r hi => absurd hi (hnone i)⟩

/-- A state by itself: what is not free is nobody's. -/
theorem Owns.self (free : σ → Finset Nat) (s : FrameState σ) :
    Owns free s.allocator.base (free s.allocator.inner) s [] :=
  ⟨rfl, by simp, Ledger.balanced_nil⟩

/-- The search ends: each round that does not stop takes a free frame. -/
theorem Frame.exists_new16Loop (hA : A.LowestFirst cap free) {pool : Finset Nat}
    (hcap : pool ⊆ Finset.range cap) (hs : Owns free base pool s v)
    (hfuel : (free s.allocator.inner).card < fuel) :
    ∃ r s', new16Loop A fuel v s = some (r, s') := by
  induction fuel generalizing v s with
  | zero => omega
  | succ fuel ih =>
    rw [new16Loop]
    rcases newZero_lowest hA s with ⟨j, s₁, he, hj, hle, hfound⟩ | ⟨s₁, he, hempty, -⟩
    · simp only [he]
      split
      · exact ⟨_, _, rfl⟩
      -- the frames that are free have become fewer
      · apply ih
        · exact (hs.newZero hA.toLawful he).perm (List.perm_append_singleton _ v).symm
        · rw [hfound.moved.free_eq]
          have hsub : (free s.allocator.inner).filter (j < ·) ⊂ free s.allocator.inner :=
            Finset.filter_ssubset.mpr ⟨j, hj, lt_irrefl j⟩
          have hlt := Finset.card_lt_card hsub
          omega
    -- no frame is left, and the vector can be dropped
    · have hs₁ : Owns free base pool s₁ (v ++ []) := by
        rw [List.append_nil]
        exact hs.newZero hA.toLawful he
      obtain ⟨s₂, hd, -⟩ := hs₁.dropAll hA.toLawful hcap
      simp only [he, hd]
      exact ⟨_, _, rfl⟩

/-- `new16` returns. -/
theorem Frame.exists_new16 (hA : A.LowestFirst cap free)
    (hfuel : (free s.allocator.inner).card < fuel) :
    ∃ ret s', new16 A fuel s = some (ret, s') := by
  have hcap : free s.allocator.inner ⊆ Finset.range cap := fun i hi =>
    Finset.mem_range.mpr (hA.free_lt hi)
  obtain ⟨r, s₁, hloop⟩ := exists_new16Loop (v := []) hA hcap (Owns.self free s) hfuel
  have h₁ := Owns.new16Loop (v := []) hA.toLawful hcap (Owns.self free s) hloop
  rw [new16, hloop]
  rcases new16Loop_found hA hloop with ⟨w, i, rfl, hi, hf⟩ | ⟨e, rfl, -⟩
  -- the ledger says that each drop returns: the aligned frame, and then the others
  · have hperm : (w ++ [frameAt s.allocator.base i 1] ++ []).Perm
        (frameAt s.allocator.base i 1 :: (w ++ [])) := by
      rw [List.append_nil, List.append_nil]
      exact List.perm_append_singleton _ w
    obtain ⟨s₂, hd, -, h₂⟩ := (h₁.perm hperm).drop hA.toLawful hcap
    rcases hc : newContiguous A 4 0 s₂ with ⟨ret, s₃⟩
    have h₃ := h₂.newContiguous hA.toLawful hc
    have hperm₃ : (ret.toOption.toList ++ (w ++ [])).Perm (w ++ ret.toOption.toList) := by
      rw [List.append_nil]
      exact List.perm_append_comm
    obtain ⟨s₄, hd₄, -⟩ := (h₃.perm hperm₃).dropAll hA.toLawful hcap
    refine ⟨ret, s₄, ?_⟩
    simp only [Option.bind_eq_bind, Option.bind_some, List.getLast?_append, List.getLast?_singleton,
      Option.some_or, hd, hc, List.dropLast_concat, hd₄]
  · exact ⟨_, s₁, rfl⟩

/-- **When the frames of `new16` are what its callers need**: the lowest four free frames from the
first aligned one on are aligned themselves, and the search is not needed to clear them. -/
theorem new16_aligned_and_zero_iff (hA : A.LowestFirst cap free) (s : FrameState σ) :
    (∀ fuel f s', Frame.new16 A fuel s = some (.ok f, s') →
      f.frameCount = 4 ∧ 2 ^ 14 ∣ f.startPaddr ∧ ∀ a ∈ f.range, s'.mem a = 0) ↔
      New16Fits s.allocator.base (free s.allocator.inner) s.mem := by
  -- above the first aligned frame the search has left the memory as it was
  have habove : ∀ {i r a : Nat}, FirstAligned s.allocator.base (free s.allocator.inner) i →
      LowestRun ((free s.allocator.inner).filter (i ≤ ·)) 4 r →
      a ∈ (frameAt s.allocator.base r 4).range → a ∉ framePage s.allocator.base i →
      frameAddr s.allocator.base (i + 1) ≤ a := by
    intro i r a hi hr ha hna
    have hle : i ≤ r := (Finset.mem_filter.mp (hr.sub (mem_run.mpr ⟨le_rfl, by omega⟩))).2
    simp only [Frame.range, frameAt, framePage, frameAddr, pageSize, Set.mem_Ico] at ha hna ⊢
    omega
  -- each direction looks at the one call that returns, and at its first aligned frame
  constructor
  · intro h i r hi hr
    obtain ⟨ret, s', hcall⟩ := Frame.exists_new16 hA (Nat.lt_succ_self _)
    rcases Frame.new16_cases hA hcall with ⟨i', r', hi', hr', rfl, -, hab⟩ | ⟨e, -, hnone⟩
    · obtain rfl := hi.unique hi'
      obtain rfl := hr.unique hr'
      obtain ⟨-, hal, hzero⟩ := h _ _ _ hcall
      refine ⟨hal, fun a ha hna => ?_⟩
      rw [← hab a (habove hi hr ha hna)]
      exact hzero a ha
    · exact absurd hr (hnone i r hi)
  · intro h fuel f s' hcall
    rcases Frame.new16_cases hA hcall with ⟨i, r, hi, hr, he, hcl, hab⟩ | ⟨e, he, -⟩
    · obtain rfl := Except.ok.inj he
      obtain ⟨hal, hzero⟩ := h i r hi hr
      refine ⟨rfl, hal, fun a ha => ?_⟩
      -- cleared by the search, or zero before and left alone
      by_cases hna : a ∈ framePage s.allocator.base i
      · exact hcl a hna
      · rw [hab a (habove hi hr ha hna)]
        exact hzero a ha hna
    · cases he

/-- The first aligned frame is not followed by a free one, and the memory was used before. -/
def usedFrames : FrameState {F : Finset Nat // F ⊆ Finset.range 8} :=
  ⟨⟨0x80000000, ⟨{0, 2, 3, 4, 5}, by decide⟩⟩, fun _ => 1⟩

theorem new16_aligned_and_zero_iff_usedFrames :
    (∀ fuel f s', Frame.new16 (bitmap 8) fuel usedFrames = some (.ok f, s') →
      f.frameCount = 4 ∧ 2 ^ 14 ∣ f.startPaddr ∧ ∀ a ∈ f.range, s'.mem a = 0) ↔
      New16Fits 0x80000000 {0, 2, 3, 4, 5} fun _ => 1 :=
  new16_aligned_and_zero_iff (bitmap_lowestFirst 8) usedFrames

/-- The four frames from index 2 on are neither at a multiple of 16 KiB nor zero. -/
theorem new16_not_aligned_not_zero :
    ∃ fuel f s', Frame.new16 (bitmap 8) fuel usedFrames = some (.ok f, s') ∧
      ¬ 2 ^ 14 ∣ f.startPaddr ∧ ∀ a ∈ f.range, s'.mem a ≠ 0 := by
  have hi : FirstAligned 0x80000000 ({0, 2, 3, 4, 5} : Finset Nat) 0 :=
    ⟨by decide, by decide, fun j _ _ => Nat.zero_le j⟩
  have hr : LowestRun (({0, 2, 3, 4, 5} : Finset Nat).filter (0 ≤ ·)) 4 2 := by
    have hlow : ∀ j < 2, ¬ run j 4 ⊆ ({0, 2, 3, 4, 5} : Finset Nat).filter (0 ≤ ·) := by decide
    exact ⟨by decide, fun j hj => Nat.le_of_not_lt fun hlt => hlow j hlt hj⟩
  obtain ⟨ret, s', hcall⟩ := Frame.exists_new16 (s := usedFrames) (bitmap_lowestFirst 8)
    (Nat.lt_succ_self _)
  rcases Frame.new16_cases (bitmap_lowestFirst 8) hcall with
    ⟨i, r, hi', hr', rfl, -, habove⟩ | ⟨e, -, hnone⟩
  · obtain rfl := hi.unique hi'
    obtain rfl := hr.unique hr'
    refine ⟨_, _, s', hcall, by decide, fun a ha => ?_⟩
    rw [habove a (le_trans (by decide) ha.1)]
    exact fun h => absurd h (show (1 : BitVec 8) ≠ 0 by decide)
  · exact absurd hr (hnone 0 2 hi)

end New16

end Hvisor.FrameAlloc
