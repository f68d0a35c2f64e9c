import Hvisor.Arch.LoongWalk
import Hvisor.Memory.Stage2Space

/-!
# Presence on the walk of LoongArch

An address that no region maps is not mapped for `query` and `unmap_page`, and their walk follows
directory entries in use only, where a table was made for the two megabytes around the address.
Elsewhere the walk follows an entry of zeros.

## Main definitions

* `Loong.Built`, `Loong.Accounted`: the states that calls of `map` and `unmap` build, and their
  invariant
* `Loong.RespectsPresence`: what the walk owes an address that is not mapped

## Main results

* `Loong.Built.accounted`: the invariant of a run
* `Loong.walk_respects_presence`: when the walk respects presence
-/

namespace Hvisor

namespace Loong

open GenericPTE

variable {s s' : State} {va : Nat}

/-! ## Runs -/

/-- What the others may do between two calls: they write outside the tables, and the frames left
are fresh ones. -/
structure Others (s s' : State) : Prop where
  pt : s'.pt = s.pt
  mem : ∀ f ∈ s.frames, ∀ i, s'.mem (entryPtr f i) = s.mem (entryPtr f i)
  free_frame : ∀ f ∈ s'.free, IsFrame f ∧ f ∉ s.frames
  free_nodup : s'.free.Nodup

/-- One of the addresses is in the two megabytes around this one, in the 48 bits that the walk
reads. -/
def Reached (reached : Set Nat) (va : Nat) : Prop :=
  ∃ va' ∈ reached, va' % 2 ^ 48 / 2 ^ 21 = va % 2 ^ 48 / 2 ^ 21

/-- The states that calls build, with the addresses that the regions mapped cover, and those that
successful calls of `map` have reached. A call that fails has mapped some of its region, or
unmapped some. Regions are unmapped in blocks that were reached only. -/
inductive Built : State → Set Nat → Set Nat → Prop
  | new {mem : Nat → PageTableEntry} {free : List Nat} {s : State}
      (hframe : ∀ f ∈ free, IsFrame f) (hnodup : free.Nodup) (h : Loong.new mem free = some s) :
      Built s ∅ ∅
  | others {s s' : State} {mapped reached : Set Nat} (h : Built s mapped reached)
      (ho : Others s s') : Built s' mapped reached
  | map {s s' : State} {mapped reached : Set Nat} {region : MemoryRegion}
      (h : Built s mapped reached) (hrun : (map region).run s = .ok () s') :
      Built s' (mapped ∪ addresses region) (reached ∪ addresses region)
  | mapFailed {s s' : State} {mapped reached : Set Nat} {region : MemoryRegion}
      {e : Fault HvError} (h : Built s mapped reached) (hrun : (map region).run s = .error e s') :
      Built s' (mapped ∪ addresses region) reached
  | unmap {s s' : State} {mapped reached : Set Nat} {region : MemoryRegion}
      (h : Built s mapped reached) (hreached : ∀ va ∈ addresses region, Reached reached va)
      (hrun : (unmap region).run s = .ok () s') : Built s' (mapped \ addresses region) reached
  | unmapFailed {s s' : State} {mapped reached : Set Nat} {region : MemoryRegion}
      {e : Fault HvError} (h : Built s mapped reached)
      (hreached : ∀ va ∈ addresses region, Reached reached va)
      (hrun : (unmap region).run s = .error e s') : Built s' mapped reached

/-- **The invariant of a run**: a page in use is one that a mapped region covers, and the blocks
reached have tables. -/
structure Accounted (s : State) (mapped reached : Set Nat) : Prop where
  inv : Inv s
  page : ∀ q, PageInUse s q → ∃ va ∈ mapped, pagePath va = q
  table : ∀ va, Reached reached va → ∃ f, tableAt s (tablePath va) = some f

variable {mapped reached : Set Nat} {region : MemoryRegion}

theorem accounted_new {mem : Nat → PageTableEntry} {free : List Nat}
    (hframe : ∀ f ∈ free, IsFrame f) (hnodup : free.Nodup) (h : Loong.new mem free = some s) :
    Accounted s ∅ ∅ := by
  cases free with
  | nil => exact absurd h nofun
  | cons root free =>
    obtain rfl := Option.some.inj h
    obtain ⟨hroot, hnodup⟩ := List.nodup_cons.mp hnodup
    -- there is no table but the root
    have htable : ∀ q f, tableAt ⟨⟨root, 4, []⟩, zeroFrame mem root, free⟩ q = some f →
        q = [] ∧ f = root := by
      intro q
      induction q with
      | nil => exact fun f hf => ⟨rfl, (Option.some.inj hf).symm⟩
      | cons i q ih =>
        intro f hf
        obtain ⟨g, hg, -, hu, -⟩ := tableAt_cons.mp hf
        obtain ⟨-, rfl⟩ := ih g hg
        -- the root holds zeros
        have hzero : zeroFrame mem g (entryPtr g i) = zero := if_pos (inFrame_entryPtr g i)
        simp only [hzero] at hu
        exact absurd hu (by decide)
    refine ⟨⟨fun f hf => ?_, fun q f hf => ?_, fun q r f hq hr => ?_, fun f hf => ⟨?_, ?_⟩, hnodup⟩,
      fun q hq => ?_, fun va hva => ?_⟩
    · obtain rfl := List.mem_singleton.mp hf
      exact hframe f List.mem_cons_self
    · rw [(htable q f hf).2]
      exact List.mem_cons_self
    · rw [(htable q f hq).1, (htable r f hr).1]
    · exact hframe f (List.mem_cons_of_mem root hf)
    · intro hin
      obtain rfl := List.mem_singleton.mp hin
      exact hroot hf
    · cases q with
      | nil => exact hq.elim
      | cons i q =>
        obtain ⟨hlen, f, hf, -⟩ := hq
        rw [(htable q f hf).1] at hlen
        exact absurd hlen (by decide)
    · obtain ⟨va', hva', -⟩ := hva
      exact absurd hva' (Set.notMem_empty _)

theorem Accounted.others (h : Accounted s mapped reached) (ho : Others s s') :
    Accounted s' mapped reached := by
  have hframes : s'.frames = s.frames := by simp only [PtState.frames, ho.pt]
  -- the way to a table reads entries of tables only, and these are kept
  have htable : ∀ q, tableAt s' q = tableAt s q := by
    intro q
    induction q with
    | nil => exact congrArg (fun pt => some pt.root) ho.pt
    | cons i q ih =>
      rw [tableAt, tableAt, ih]
      apply Option.bind_congr
      intro f hf
      rw [ho.mem f (h.inv.owned q f hf)]
  refine ⟨⟨fun f hf => ?_, fun q f hq => ?_, fun q r f hq hr => ?_, fun f hf => ?_,
    ho.free_nodup⟩, fun q hq => ?_, fun va hva => ?_⟩
  · exact h.inv.frame f (hframes ▸ hf)
  · rw [hframes]
    exact h.inv.owned q f (htable q ▸ hq)
  · exact h.inv.inj q r f (htable q ▸ hq) (htable r ▸ hr)
  · rw [hframes]
    exact ho.free_frame f hf
  · apply h.page
    cases q with
    | nil => exact hq
    | cons i q =>
      obtain ⟨hlen, f, hf, hu⟩ := hq
      rw [htable] at hf
      rw [ho.mem f (h.inv.owned q f hf)] at hu
      exact ⟨hlen, f, hf, hu⟩
  · rw [htable]
    exact h.table va hva

/-- A call of `map`, however it ends. -/
theorem Accounted.of_map (h : Accounted s mapped reached)
    (hkept : Kept (pagePath '' addresses region) s s') :
    Accounted s' (mapped ∪ addresses region) reached := by
  refine ⟨hkept.inv, fun q hq => ?_, fun va hva => ?_⟩
  -- a page from before, or one of the region
  · rcases hkept.page q hq with hq | ⟨va, hva, rfl⟩
    · obtain ⟨va, hva, rfl⟩ := h.page q hq
      exact ⟨va, .inl hva, rfl⟩
    · exact ⟨va, .inr hva, rfl⟩
  · obtain ⟨f, hf⟩ := h.table va hva
    exact ⟨f, hkept.table _ f hf⟩

/-- A call of `unmap`, however it ends. -/
theorem Accounted.of_unmap (h : Accounted s mapped reached) (hkept : Kept ∅ s s') :
    Accounted s' mapped reached := by
  refine ⟨hkept.inv, fun q hq => ?_, fun va hva => ?_⟩
  · exact h.page q ((hkept.page q hq).resolve_right nofun)
  · obtain ⟨f, hf⟩ := h.table va hva
    exact ⟨f, hkept.table _ f hf⟩

theorem Built.accounted (h : Built s mapped reached) : Accounted s mapped reached := by
  -- on the calls that built the state
  induction h with
  | new hframe hnodup h => exact accounted_new hframe hnodup h
  | others _ ho ih => exact ih.others ho
  | @map _ _ _ _ region _ hrun ih =>
    have hmap := kept_map region ih.inv
    rw [hrun] at hmap
    have hmapped := ih.of_map hmap.1
    refine ⟨hmapped.inv, hmapped.page, ?_⟩
    -- a block from before, or one that this call has reached
    rintro va ⟨va', hva' | hva', hblock⟩
    · exact hmapped.table va ⟨va', hva', hblock⟩
    · rw [← tablePath_eq_iff.mpr hblock]
      exact hmap.2 va' hva'
  | @mapFailed _ _ _ _ region _ _ hrun ih =>
    have hmap := kept_map region ih.inv
    rw [hrun] at hmap
    exact ih.of_map hmap
  | @unmap _ _ _ _ region _ hreached hrun ih =>
    have hunmap := kept_unmap region ih.inv fun va hva => ih.table va (hreached va hva)
    rw [hrun] at hunmap
    have hkept := ih.of_unmap hunmap.1
    refine ⟨hkept.inv, fun q hq => ?_, hkept.table⟩
    obtain ⟨va, hva, rfl⟩ := hkept.page q hq
    exact ⟨va, ⟨hva, fun hin => hunmap.2 va hin hq⟩, rfl⟩
  | @unmapFailed _ _ _ _ region _ _ hreached hrun ih =>
    have hunmap := kept_unmap region ih.inv fun va hva => ih.table va (hreached va hva)
    rw [hrun] at hunmap
    exact ih.of_unmap hunmap

/-! ## Presence -/

/-- What the walk owes an address that no region covers: it is not mapped, and no directory entry
is followed that is not in use. -/
structure RespectsPresence (s : State) (va : Nat) : Prop where
  query : query s va = .error .NotMapped
  unmapPage : (unmapPage va).run s = .error .NotMapped s
  followed : ∀ e ∈ followed s va, isUnused e = false

/-- **The walk respects presence where there is a table** for the two megabytes around the address,
and there only; the blocks that a successful call of `map` has reached have tables. An address is
not covered when no mapped region has its page in the 48 bits that the walk reads. -/
theorem walk_respects_presence (h : Built s mapped reached)
    (hva : ∀ va' ∈ mapped, va' % 2 ^ 48 / 2 ^ 12 ≠ va % 2 ^ 48 / 2 ^ 12) :
    (RespectsPresence s va ↔ ∃ f, tableAt s (tablePath va) = some f) ∧
      (Reached reached va → RespectsPresence s va) := by
  have hacc := h.accounted
  have hiff : RespectsPresence s va ↔ ∃ f, tableAt s (tablePath va) = some f := by
    constructor
    -- all entries that were followed are in use, so the last one leads to a table
    · intro hp
      exact tableAt_of_followed hp.followed
    · rintro ⟨f, hf⟩
      obtain ⟨hend, hfollowed⟩ := walk_of_tableAt hf
      -- the page at the end of the walk would be one that a region covers
      have hu : isUnused (s.mem (entryPtr f (p1Index va))) = true := by
        apply of_not_not
        intro hu
        obtain ⟨va', hva', hpath⟩ := hacc.page (pagePath va)
          ⟨rfl, f, hf, (Bool.not_eq_true _).mp hu⟩
        exact hva va' hva' (pagePath_eq_iff.mp hpath)
      refine ⟨?_, ?_, hfollowed⟩
      · rw [query, getEntryMut_eq, hend]
        exact if_pos hu
      · simp only [EStateM.run, unmapPage, getEntryMut_eq, hend, hu, if_true]
  exact ⟨hiff, fun hr => hiff.mpr (hacc.table va hr)⟩

/-- Five frames of the pool. -/
def poolFrames : List Nat :=
  (List.range 5).map fun n => LOONGARCH64_CACHED_DMW_PREFIX + 0x100000 + 0x1000 * n

theorem isFrame_poolFrames : ∀ f ∈ poolFrames, IsFrame f := by
  intro f hf
  obtain ⟨n, hn, rfl⟩ := List.mem_map.mp hf
  have hn := List.mem_range.mp hn
  exact ⟨0x100000 + 0x1000 * n, by omega, by omega, by omega⟩

/-- A page table over a memory, with the frames. -/
def freshTable (mem : Nat → PageTableEntry) : State :=
  ⟨⟨poolFrames.head (by decide), 4, []⟩, zeroFrame mem (poolFrames.head (by decide)),
    poolFrames.tail⟩

theorem built_freshTable (mem : Nat → PageTableEntry) : Built (freshTable mem) ∅ ∅ :=
  .new isFrame_poolFrames (by decide) rfl

/-- After the first page was mapped, the next one is not mapped. -/
theorem walk_respects_presence_next :
    ∃ s mapped, 0 ∈ mapped ∧ (∃ reached, Built s mapped reached) ∧ RespectsPresence s 0x1000 := by
  have hrun := eq_ok_of_isOk ((map lowPage).run (freshTable fun _ => zero)) (by decide +kernel)
  have hbuilt := (built_freshTable fun _ => zero).map hrun
  have hin : 0 ∈ addresses lowPage := ⟨by decide, by decide⟩
  refine ⟨_, _, .inr hin, ⟨_, hbuilt⟩, (walk_respects_presence hbuilt ?_).2 ?_⟩
  · rintro va (hva | ⟨-, hlt⟩)
    · exact absurd hva (Set.notMem_empty va)
    · have hlt : va < 0x1000 := hlt
      omega
  · exact ⟨0, .inr hin, rfl⟩

/-- **The walk does not stop at an entry of zeros**: on a fresh page table, it takes the physical
page 0 for a table, and where the first word of the page is not zero, an address that no region
maps is mapped. -/
theorem walk_not_respects_presence :
    ¬ ∀ (s : State) (mapped reached : Set Nat) (va : Nat), Built s mapped reached → va ∉ mapped →
      RespectsPresence s va := by
  intro h
  have hp := h _ _ _ 0
    (built_freshTable fun a => if a = LOONGARCH64_CACHED_DMW_PREFIX then ⟨1⟩ else zero)
    (Set.notMem_empty 0)
  -- from the second level on the walk reads the first word of page 0, which is in use
  have hok : (query (freshTable fun a =>
      if a = LOONGARCH64_CACHED_DMW_PREFIX then ⟨1⟩ else zero) 0).isOk = true := by
    decide +kernel
  rw [hp.query] at hok
  exact absurd hok nofun

end Loong

end Hvisor
