import Hvisor.Arch.Smmu
import Hvisor.Lib.TransitionSystem
import Mathlib.Tactic.IntervalCases

/-!
# What the stream table says

An entry of the stream table as an SMMUv3 reads it, after assignments of devices to zones. The words
of an entry are combined with what is there already, and so an entry says what was assigned when
none of its old bits is in the way. The frames of the table are not zeroed, and only the first two
words of an entry are set at the start.

## Main definitions

* `SteFields`, `StreamTableEntry.decode`: the fields of an entry that choose a translation
* `Assigns`: an assignment that is exact, and leaves other entries as they are
* `StreamTableEntry.Compatible`: the old bits of an entry are ones of the new entry
* `smmuSystem`: the runs of assignments

## Main results

* `assigns_iff`: when an assignment is exact
* `last_of_run`: entries say what was assigned last
-/

namespace Hvisor

/-- The entry is not valid. -/
def STRTAB_STE_0_INVALID : Nat := 0
/-- No stage translates. -/
def STRTAB_STE_0_CFG_BYPASS : Nat := 4
/-- The offset of the shareability in word 1. -/
def STRTAB_STE_1_SHCFG_OFF : Nat := 44
/-- The shareability of the access is used. -/
def STRTAB_STE_1_SHCFG_INCOMING : Nat := 1

instance : NeZero STRTAB_STE_DWORDS := ⟨by decide⟩

/-- The fields of an entry that choose a translation: those of word 0, and those of stage 2 in
words 2 and 3. The other bits of word 3 have no meaning in a stream that is not secure. -/
structure SteFields where
  v : Nat
  config : Nat
  s2vmid : Nat
  s2t0sz : Nat
  s2sl0 : Nat
  s2ir0 : Nat
  s2or0 : Nat
  s2sh0 : Nat
  s2tg : Nat
  s2ps : Nat
  s2aa64 : Nat
  s2endi : Nat
  s2affd : Nat
  s2ptw : Nat
  s2hd : Nat
  s2ha : Nat
  s2s : Nat
  s2r : Nat
  s2ttb : Nat
  deriving DecidableEq

/-- The fields of an entry, as the SMMU reads them. -/
def StreamTableEntry.decode (tab : StreamTableEntry) : SteFields where
  v := BitMask.field (tab 0) 0 1
  config := BitMask.field (tab 0) 1 3
  s2vmid := BitMask.field (tab 2) 0 16
  s2t0sz := BitMask.field (tab 2) 32 6
  s2sl0 := BitMask.field (tab 2) 38 2
  s2ir0 := BitMask.field (tab 2) 40 2
  s2or0 := BitMask.field (tab 2) 42 2
  s2sh0 := BitMask.field (tab 2) 44 2
  s2tg := BitMask.field (tab 2) 46 2
  s2ps := BitMask.field (tab 2) 48 3
  s2aa64 := BitMask.field (tab 2) 51 1
  s2endi := BitMask.field (tab 2) 52 1
  s2affd := BitMask.field (tab 2) 53 1
  s2ptw := BitMask.field (tab 2) 54 1
  s2hd := BitMask.field (tab 2) 55 1
  s2ha := BitMask.field (tab 2) 56 1
  s2s := BitMask.field (tab 2) 57 1
  s2r := BitMask.field (tab 2) 58 1
  s2ttb := BitMask.field (tab 3) 4 48 <<< 4

namespace SteFields

/-- Translation by stage 2 alone, for a zone: by little-endian tables in the format of AArch64 with
pages of 4 KiB, from level 0 on for addresses of 44 bits; a table in the memory of a device is not
walked, and a fault is recorded. -/
def assigned (vmid rootPt : Nat) : SteFields where
  v := 1
  config := STRTAB_STE_0_CFG_S2_TRANS
  s2vmid := vmid
  s2t0sz := 20
  s2sl0 := 2
  s2ir0 := 1
  s2or0 := 1
  s2sh0 := 3
  s2tg := 0
  s2ps := 4
  s2aa64 := 1
  s2endi := 0
  s2affd := 0
  s2ptw := 1
  s2hd := 0
  s2ha := 0
  s2s := 0
  s2r := 1
  s2ttb := rootPt

/-- The bits of two entries together. -/
def merge (a b : SteFields) : SteFields where
  v := a.v ||| b.v
  config := a.config ||| b.config
  s2vmid := a.s2vmid ||| b.s2vmid
  s2t0sz := a.s2t0sz ||| b.s2t0sz
  s2sl0 := a.s2sl0 ||| b.s2sl0
  s2ir0 := a.s2ir0 ||| b.s2ir0
  s2or0 := a.s2or0 ||| b.s2or0
  s2sh0 := a.s2sh0 ||| b.s2sh0
  s2tg := a.s2tg ||| b.s2tg
  s2ps := a.s2ps ||| b.s2ps
  s2aa64 := a.s2aa64 ||| b.s2aa64
  s2endi := a.s2endi ||| b.s2endi
  s2affd := a.s2affd ||| b.s2affd
  s2ptw := a.s2ptw ||| b.s2ptw
  s2hd := a.s2hd ||| b.s2hd
  s2ha := a.s2ha ||| b.s2ha
  s2s := a.s2s ||| b.s2s
  s2r := a.s2r ||| b.s2r
  s2ttb := a.s2ttb ||| b.s2ttb

end SteFields

/-- **The old bits of an entry are ones of the new entry**, in each field. -/
def StreamTableEntry.Compatible (tab : StreamTableEntry) (vmid rootPt : Nat) : Prop :=
  tab.decode.merge (.assigned vmid rootPt) = .assigned vmid rootPt

instance (tab : StreamTableEntry) (vmid rootPt : Nat) : Decidable (tab.Compatible vmid rootPt) :=
  inferInstanceAs (Decidable (_ = _))

/-! ## The fields that are written -/

section Write

variable {tab tab' : StreamTableEntry} {vmid rootPt : Nat}

theorem extractBits_eq_field (value start length : Nat) :
    extractBits value start length = BitMask.field value start length := by
  rw [extractBits, Nat.one_shiftLeft, BitMask.and_low, Nat.shiftRight_eq_div_pow, BitMask.field]

/-- The fields of two entries together are those of their bits together. -/
theorem decode_or : StreamTableEntry.decode (fun word => tab word ||| tab' word) =
    tab.decode.merge tab'.decode := by
  simp only [StreamTableEntry.decode, SteFields.merge, BitMask.field_or, Nat.shiftLeft_or_distrib]

/-- The addresses of root tables: of 52 bits, and at least as aligned as a table. -/
def RootAddr (rootPt : Nat) : Prop := rootPt % 2 ^ 4 = 0 ∧ rootPt < 2 ^ 52

/-- The bits that are written are those of the assigned entry. -/
theorem decode_steBits (hvmid : vmid < MAX_ZONE_NUM) (hroot : RootAddr rootPt) :
    (steBits vmid rootPt).decode = .assigned vmid rootPt := by
  have hword0 : steBits vmid rootPt 0 =
      STRTAB_STE_0_V ||| (STRTAB_STE_0_CFG_S2_TRANS <<< STRTAB_STE_0_CFG_OFF) := rfl
  have hword2 : steBits vmid rootPt 2 =
      (vmid <<< STRTAB_STE_2_S2VMID_OFF) ||| STRTAB_STE_2_S2PTW ||| STRTAB_STE_2_S2AA64 |||
        STRTAB_STE_2_S2R |||
        (extractBits DEFAULT_VCTR 0 STRTAB_STE_2_VTCR_LEN <<< STRTAB_STE_2_VTCR_OFF) := rfl
  have hword3 : steBits vmid rootPt 3 = extractBits rootPt 4 48 <<< 4 := rfl
  have hroot' : BitMask.field (steBits vmid rootPt 3) 4 48 <<< 4 = rootPt := by
    rw [hword3, extractBits_eq_field, BitMask.field_shiftLeft BitMask.field_lt,
      BitMask.field_shiftLeft_eq hroot.1 hroot.2]
  have hlt : vmid < 3 := hvmid
  rw [StreamTableEntry.decode, hroot', hword0, hword2]
  interval_cases vmid <;> rfl

/-- **An entry that is written** is the assigned one, when none of its old bits is in the way. -/
theorem decode_write_iff (tab : StreamTableEntry) (hvmid : vmid < MAX_ZONE_NUM)
    (hroot : RootAddr rootPt) :
    (tab.write vmid rootPt).decode = .assigned vmid rootPt ↔ tab.Compatible vmid rootPt := by
  have hmerge : (tab.write vmid rootPt).decode = tab.decode.merge (steBits vmid rootPt).decode :=
    decode_or
  rw [hmerge, decode_steBits hvmid hroot, StreamTableEntry.Compatible]

/-- `init_bypass_ste`: the first two words are set, the others are not. -/
def StreamTableEntry.initBypass (tab : StreamTableEntry) : StreamTableEntry := fun word =>
  match word.val with
  | 0 => STRTAB_STE_0_INVALID ||| STRTAB_STE_0_V |||
      STRTAB_STE_0_CFG_BYPASS <<< STRTAB_STE_0_CFG_OFF
  | 1 => STRTAB_STE_1_SHCFG_INCOMING <<< STRTAB_STE_1_SHCFG_OFF
  | _ => tab word

/-- The first assignment is exact where the table was zero before it was set up. -/
theorem compatible_initBypass (h2 : tab 2 = 0) (h3 : tab 3 = 0) :
    tab.initBypass.Compatible vmid rootPt := by
  have hword2 : tab.initBypass 2 = 0 := h2
  have hword3 : tab.initBypass 3 = 0 := h3
  have hword0 : tab.initBypass 0 = STRTAB_STE_0_INVALID ||| STRTAB_STE_0_V |||
      STRTAB_STE_0_CFG_BYPASS <<< STRTAB_STE_0_CFG_OFF := rfl
  have hzero : ∀ start len, BitMask.field 0 start len = 0 := fun start len => by
    rw [BitMask.field, Nat.zero_div, Nat.zero_mod]
  rw [StreamTableEntry.Compatible, StreamTableEntry.decode, hword0, hword2, hword3]
  simp only [hzero, SteFields.merge, SteFields.assigned, Nat.zero_or, Nat.zero_shiftLeft]
  rfl

end Write

/-! ## Assignments -/

section

variable {overflowChecks : Bool} {smmu smmu' smmu₀ : Smmu} {vmid sid i : Nat}

/-- The stream ids whose entry is at an offset that is a word; those of an SMMUv3 have 32 bits. -/
def StreamId (sid : Nat) : Prop := sid < 2 ^ 58

/-- The entry of a stream id is the one at its index. -/
theorem slot_eq (hbase : smmu.base < 2 ^ 64) (hsid : StreamId sid)
    (h : smmu.slot overflowChecks sid = some i) : i = sid := by
  have hoff : sid * STRTAB_STE_SIZE < 2 ^ 64 := by
    rw [StreamId] at hsid
    simp only [STRTAB_STE_SIZE, STRTAB_STE_DWORDS, Nat.shiftLeft_eq]
    omega
  have hsub : ∀ addr, wordResult overflowChecks 64 (smmu.base + sid * STRTAB_STE_SIZE) = some addr →
      wrappingSub addr smmu.base = sid * STRTAB_STE_SIZE := by
    intro addr haddr
    rw [wordResult] at haddr
    simp only [wrappingSub, usizeSize]
    split_ifs at haddr <;> cases haddr <;> omega
  rw [Smmu.slot, wordResult, if_pos hoff] at h
  have hbind : (wordResult overflowChecks 64 (smmu.base + sid * STRTAB_STE_SIZE)).bind
      (fun addr => some (wrappingSub addr smmu.base / STRTAB_STE_SIZE)) = some i := h
  obtain ⟨addr, haddr, hi⟩ := Option.bind_eq_some_iff.mp hbind
  have hsize : 0 < STRTAB_STE_SIZE := by decide
  rw [← Option.some.inj hi, hsub addr haddr, Nat.mul_div_cancel _ hsize]

/-- The entry says what was assigned, and those of other stream ids are as before. -/
structure Assigns (smmu smmu' : Smmu) (vmid sid : Nat) : Prop where
  assigned : (smmu'.ste sid).decode = .assigned vmid (smmu.rootPaddr vmid)
  others : ∀ sid', StreamId sid' → sid' ≠ sid → smmu'.ste sid' = smmu.ste sid'

/-- The table lies in memory, and so do the root tables of the zones. -/
structure Smmu.Placed (smmu : Smmu) : Prop where
  base : smmu.base < 2 ^ 64
  root : ∀ vmid < MAX_ZONE_NUM, RootAddr (smmu.rootPaddr vmid)

theorem ste_of_iommuAddDevice (hp : smmu.Placed) (hsid : StreamId sid)
    (h : iommuAddDevice overflowChecks smmu vmid sid = some smmu') :
    vmid < MAX_ZONE_NUM ∧ smmu'.ste =
      Function.update smmu.ste sid ((smmu.ste sid).write vmid (smmu.rootPaddr vmid)) := by
  obtain ⟨hvmid, i, hi, rfl⟩ := iommuAddDevice_eq_some.mp h
  obtain rfl := slot_eq hp.base hsid hi
  exact ⟨hvmid, rfl⟩

/-- **When an assignment is exact**: the old bits of the entry are ones of the new entry. -/
theorem assigns_iff (hp : smmu.Placed) (hsid : StreamId sid)
    (h : iommuAddDevice overflowChecks smmu vmid sid = some smmu') :
    Assigns smmu smmu' vmid sid ↔ (smmu.ste sid).Compatible vmid (smmu.rootPaddr vmid) := by
  obtain ⟨hvmid, hste⟩ := ste_of_iommuAddDevice hp hsid h
  have hself : smmu'.ste sid = (smmu.ste sid).write vmid (smmu.rootPaddr vmid) := by
    rw [hste, Function.update_self]
  have hwrite := decode_write_iff (smmu.ste sid) hvmid (hp.root vmid hvmid)
  rw [← hwrite, ← hself]
  refine ⟨Assigns.assigned, fun hassigned => ⟨hassigned, fun sid' _ hne => ?_⟩⟩
  rw [hste, Function.update_of_ne hne]

/-- Assignments of devices, of a stream id each to a zone. -/
def smmuSystem (overflowChecks : Bool) : TransitionSystem Smmu (Nat × Nat) where
  init := Smmu.Placed
  step smmu a smmu' := StreamId a.2 ∧ iommuAddDevice overflowChecks smmu a.1 a.2 = some smmu'

/-- No old bit of the entry is in the way of an assignment. -/
def FreshSlot (smmu : Smmu) (a : Nat × Nat) : Prop :=
  (smmu.ste a.2).Compatible a.1 (smmu.rootPaddr a.1)

theorem Smmu.Placed.step (hp : smmu.Placed)
    (h : iommuAddDevice overflowChecks smmu vmid sid = some smmu') : smmu'.Placed := by
  obtain ⟨hbase, hroot, -⟩ := ste_le_of_iommuAddDevice h
  exact ⟨hbase ▸ hp.base, hroot ▸ hp.root⟩

/-- The entry of a stream id after a history of assignments, from a table with any content. -/
def Last (smmu₀ smmu : Smmu) (h : List (Nat × Nat)) (sid : Nat) : Prop :=
  match h.find? fun a => a.2 = sid with
  | none => smmu.ste sid = smmu₀.ste sid
  | some a => (smmu.ste sid).decode = .assigned a.1 (smmu₀.rootPaddr a.1)

/-- **Entries say what was assigned last**, in every run whose assignments find no old bits in the
way. -/
theorem last_of_run {h : List (Nat × Nat)} (hp : smmu₀.Placed)
    (r : (((smmuSystem overflowChecks).restrict FreshSlot).startingAt smmu₀).Run h smmu)
    (hsid : StreamId sid) : Last smmu₀ smmu h sid := by
  suffices smmu.Placed ∧ smmu.rootPaddr = smmu₀.rootPaddr ∧
      ∀ sid, StreamId sid → Last smmu₀ smmu h sid from this.2.2 sid hsid
  refine r.invariant (I := fun h smmu => smmu.Placed ∧ smmu.rootPaddr = smmu₀.rootPaddr ∧
    ∀ sid, StreamId sid → Last smmu₀ smmu h sid) ?_ ?_
  · rintro _ rfl
    exact ⟨hp, rfl, fun _ _ => rfl⟩
  · rintro h smmu ⟨vmid, sid⟩ smmu' - ⟨hp, hroot, hlast⟩ ⟨hfresh, hs⟩
    have hassigns := (assigns_iff hp hs.1 hs.2).mpr hfresh
    have hroot' := (ste_le_of_iommuAddDevice hs.2).2.1
    refine ⟨hp.step hs.2, hroot'.trans hroot, fun sid' hsid' => ?_⟩
    by_cases hne : sid' = sid
    · subst hne
      rw [Last, List.find?_cons_of_pos (by simp), ← hroot]
      exact hassigns.assigned
    · rw [Last, List.find?_cons_of_neg (by simpa using Ne.symm hne),
        hassigns.others sid' hsid' hne]
      exact hlast sid' hsid'

theorem placed_of_run {h : List (Nat × Nat)} (hp : smmu₀.Placed)
    (r : ((smmuSystem overflowChecks).startingAt smmu₀).Run h smmu) : smmu.Placed := by
  refine r.invariant (I := fun _ smmu => smmu.Placed) ?_ ?_
  · rintro _ rfl
    exact hp
  · rintro _ _ _ _ - hp ⟨-, hs⟩
    exact hp.step hs

/-- **Assignments of devices**, from a table with any content: after any others, an assignment is
exact if and only if no old bit of the entry is in the way; and where none ever is, each entry says
what was assigned last, or is as it was. -/
theorem assignments_exact (hp : smmu₀.Placed) :
    (∀ h smmu, ((smmuSystem overflowChecks).startingAt smmu₀).Run h smmu → ∀ vmid sid smmu',
      (smmuSystem overflowChecks).step smmu (vmid, sid) smmu' →
        (Assigns smmu smmu' vmid sid ↔
          (smmu.ste sid).Compatible vmid (smmu.rootPaddr vmid))) ∧
      ∀ h smmu, (((smmuSystem overflowChecks).restrict FreshSlot).startingAt smmu₀).Run h smmu →
        ∀ sid, StreamId sid → Last smmu₀ smmu h sid := by
  refine ⟨fun h smmu r vmid sid smmu' hs => ?_, fun h smmu r sid hsid => last_of_run hp r hsid⟩
  exact assigns_iff (placed_of_run hp r) hs.1 hs.2

/-- A table at its start, and the root tables of the zones. -/
def smmuExample : Smmu where
  base := 0x40000000
  ste _ := StreamTableEntry.initBypass fun _ => 0
  rootPaddr vmid := 0x40400000 + 0x1000 * vmid

theorem placed_smmuExample : smmuExample.Placed := by
  refine ⟨by decide, fun vmid hvmid => ?_⟩
  have hlt : vmid < 3 := hvmid
  simp only [RootAddr, smmuExample]
  omega

/-- An assignment of a stream id whose entry lies in memory. -/
theorem step_of_lt (overflowChecks : Bool) (smmu : Smmu) (hvmid : vmid < MAX_ZONE_NUM)
    (hsid : StreamId sid)
    (hlt : smmu.base + sid * STRTAB_STE_SIZE < 2 ^ 64) :
    (smmuSystem overflowChecks).step smmu (vmid, sid) { smmu with
      ste := Function.update smmu.ste sid ((smmu.ste sid).write vmid (smmu.rootPaddr vmid)) } := by
  have hslot : smmu.slot overflowChecks sid =
      some (wrappingSub (smmu.base + sid * STRTAB_STE_SIZE) smmu.base / STRTAB_STE_SIZE) := by
    rw [Smmu.slot, wordResult, if_pos (by omega)]
    simp only [Option.bind_eq_bind, Option.bind_some, wordResult, if_pos hlt]
    rfl
  have heq := slot_eq (by omega) hsid hslot
  rw [heq] at hslot
  exact ⟨hsid, iommuAddDevice_eq_some.mpr ⟨hvmid, sid, hslot, rfl⟩⟩

theorem assignments_exact_first : ∃ smmu',
    (smmuSystem true).step smmuExample (1, 5) smmu' ∧
      (Assigns smmuExample smmu' 1 5 ↔
        (smmuExample.ste 5).Compatible 1 (smmuExample.rootPaddr 1)) ∧
        Last smmuExample smmu' [(1, 5)] 5 := by
  have hsid : StreamId 5 := by rw [StreamId]; decide
  have hvmid : 1 < MAX_ZONE_NUM := by decide
  have hs := step_of_lt true smmuExample hvmid hsid (by decide)
  have hfresh : FreshSlot smmuExample (1, 5) := compatible_initBypass rfl rfl
  have h := @assignments_exact true _ placed_smmuExample
  exact ⟨_, hs, h.1 [] smmuExample (.start rfl) 1 5 _ hs,
    h.2 _ _ (.next (.start rfl) ⟨hfresh, hs⟩) 5 hsid⟩

/-- A device that goes from zone 1 to zone 2 is translated for zone 3, with a table of neither. -/
theorem not_assigns_reassigned : ∃ smmu₁ smmu₂,
    (smmuSystem true).step smmuExample (1, 5) smmu₁ ∧ (smmuSystem true).step smmu₁ (2, 5) smmu₂ ∧
      (smmu₂.ste 5).decode = .assigned 3 0x40403000 ∧ ¬ Assigns smmu₁ smmu₂ 2 5 := by
  have hsid : StreamId 5 := by rw [StreamId]; decide
  have hvmid : 1 < MAX_ZONE_NUM := by decide
  have hs₁ := step_of_lt true smmuExample hvmid hsid (by decide)
  refine ⟨_, _, hs₁, step_of_lt true _ (by decide) hsid (by decide), by decide, fun h => ?_⟩
  exact absurd h.assigned (by decide)

end

end Hvisor
