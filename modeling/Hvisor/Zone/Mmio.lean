import Hvisor.Ivc
import Hvisor.Memory.Mmio

/-!
# The devices of a zone

An access of a guest to an address that its memory does not map goes to the handler that the zone
has registered there, with an address relative to the start of the region, from `memory/mmio.rs` and
`zone.rs`. The state that the handlers work on is a parameter; `none` is a panic.

## Main definitions

* `MMIOConfig.containsRegion`, `findMmioRegion`: the region of an access
* `mmioHandleAccess`: the call of the handler
* `mmioPerformAccessAt`: an access to the physical memory from a base on

## Main results

* `findMmioRegion_some`: the region that is found is registered and starts before the access
* `mem_mmioRegionRegister`, `exists_mmioRegionRegister`: what is registered afterwards
* `mmioPerformAccessAt_eq`, `mmioPerformAccessAt_write`: an access that is aligned, and the bytes
  that are written
-/

namespace Hvisor

variable (overflowChecks : Bool)

/-- The access is inside the region; the ends of both are computed in words. -/
def MMIOConfig.containsRegion (self : MMIOConfig) (addr size : Nat) : Option Bool :=
  if self.start ≤ addr then do
    let accessEnd ← wordResult overflowChecks 64 (addr + size)
    let regionEnd ← wordResult overflowChecks 64 (self.start + self.size)
    return accessEnd ≤ regionEnd
  else some false

/-- The first region that contains an access. -/
def findMmioRegion : List MMIOConfig → Nat → Nat → Option (Option MMIOConfig)
  | [], _, _ => some none
  | cfg :: mmio, addr, size =>
    (cfg.containsRegion overflowChecks addr size).bind fun contained =>
      if contained then some (some cfg) else findMmioRegion mmio addr size

/-- A handler: from the access, relative to its region, and the argument it was registered with. -/
abbrev MMIOHandler.Run (σ : Type) :=
  MMIOAccess → Nat → σ → Option (Except HvError Unit × MMIOAccess × σ)

/-- The access goes to the handler of its region. -/
def mmioHandleAccess {σ : Type} (handlers : MMIOHandler → MMIOHandler.Run σ)
    (regions : List MMIOConfig) (mmio : MMIOAccess) (s : σ) :
    Option (Except HvError Unit × MMIOAccess × σ) :=
  (findMmioRegion overflowChecks regions mmio.addr mmio.bytes).bind fun
    | some cfg =>
      handlers cfg.handler { mmio with address := mmio.address - .ofNat cfg.start } cfg.arg s
    | none => some (.error ⟨.EINVAL, none⟩, mmio, s)

/-- `mmio_perform_access`: the access to the physical memory, relative to a base. -/
def mmioPerformAccessAt (base : Nat) (mmio : MMIOAccess) (bus : Device) :
    Option (MMIOAccess × Device) :=
  (wordResult overflowChecks 64 (base + mmio.addr)).bind fun addr =>
    (mmioPerformAccess { mmio with address := .ofNat addr } bus).map fun (mmio', bus) =>
      ({ mmio with value := mmio'.value }, bus)

variable {overflowChecks} {regions : List MMIOConfig} {cfg : MMIOConfig} {addr size : Nat}

/-- The region that is found is registered, and starts before the access. -/
theorem findMmioRegion_some
    (h : findMmioRegion overflowChecks regions addr size = some (some cfg)) :
    cfg ∈ regions ∧ cfg.start ≤ addr := by
  induction regions with
  | nil => cases h
  | cons cfg' regions ih =>
    obtain ⟨contained, hcontains, h⟩ := Option.bind_eq_some_iff.mp h
    cases contained with
    | true =>
      obtain rfl : cfg' = cfg := Option.some.inj (Option.some.inj h)
      refine ⟨List.mem_cons_self, ?_⟩
      by_contra hlt
      rw [MMIOConfig.containsRegion, if_neg hlt] at hcontains
      cases hcontains
    | false =>
      obtain ⟨hmem, hle⟩ := ih h
      exact ⟨List.mem_cons_of_mem _ hmem, hle⟩

/-- After a registration a region is one that was registered before with the start and the handler
that it has, or has the handler and the argument of the registration. -/
theorem mem_mmioRegionRegister {zone : NewZone} {start arg : Nat} {handler : MMIOHandler}
    (h : cfg ∈ (zone.mmioRegionRegister start size handler arg).mmio) :
    cfg ∈ zone.mmio ∨ cfg.start = start ∧ cfg.handler = handler ∧ cfg.arg = arg := by
  rw [NewZone.mmioRegionRegister] at h
  cases hfind : zone.mmio.findIdx? fun mmio => mmio.start == start with
  | none =>
    simp only [hfind, List.mem_append, List.mem_singleton] at h
    rcases h with h | rfl
    · exact .inl h
    · exact .inr ⟨rfl, rfl, rfl⟩
  | some i =>
    simp only [hfind] at h
    obtain ⟨j, hj, rfl⟩ := List.mem_iff_getElem.mp h
    rw [List.length_modify] at hj
    rw [List.getElem_modify]
    by_cases hij : i = j
    · subst hij
      obtain ⟨_, hstart, _⟩ := List.findIdx?_eq_some_iff_getElem.mp hfind
      rw [if_pos rfl]
      exact .inr ⟨beq_iff_eq.mp hstart, rfl, rfl⟩
    · rw [if_neg hij]
      exact .inl (List.getElem_mem hj)

/-- After a registration there is a region with its start, handler and argument. -/
theorem exists_mmioRegionRegister (zone : NewZone) (start size arg : Nat) (handler : MMIOHandler) :
    ∃ cfg ∈ (zone.mmioRegionRegister start size handler arg).mmio,
      cfg.start = start ∧ cfg.handler = handler ∧ cfg.arg = arg := by
  rw [NewZone.mmioRegionRegister]
  cases hfind : zone.mmio.findIdx? fun mmio => mmio.start == start with
  | none => exact ⟨⟨start, size, handler, arg⟩, by simp, rfl, rfl, rfl⟩
  | some i =>
    obtain ⟨hi, hstart, -⟩ := List.findIdx?_eq_some_iff_getElem.mp hfind
    refine ⟨{ zone.mmio[i] with handler, arg }, ?_, beq_iff_eq.mp hstart, rfl, rfl⟩
    rw [List.mem_iff_getElem]
    exact ⟨i, by rwa [List.length_modify], by rw [List.getElem_modify, if_pos rfl]⟩

/-- Regions with another start stay. -/
theorem mem_mmioRegionRegister_of_ne {zone : NewZone} {start arg : Nat} {handler : MMIOHandler}
    (h : cfg ∈ zone.mmio) (hne : cfg.start ≠ start) :
    cfg ∈ (zone.mmioRegionRegister start size handler arg).mmio := by
  rw [NewZone.mmioRegionRegister]
  cases hfind : zone.mmio.findIdx? fun mmio => mmio.start == start with
  | none => exact List.mem_append_left _ h
  | some i =>
    obtain ⟨hi, hstart, -⟩ := List.findIdx?_eq_some_iff_getElem.mp hfind
    obtain ⟨j, hj, rfl⟩ := List.mem_iff_getElem.mp h
    rw [List.mem_iff_getElem]
    refine ⟨j, by rwa [List.length_modify], ?_⟩
    rw [List.getElem_modify, if_neg]
    rintro rfl
    exact hne (beq_iff_eq.mp hstart)

/-- The address of an access relative to its region, with the start of the region as base again. -/
theorem mmioHandleAccess_eq {σ : Type} {handlers : MMIOHandler → MMIOHandler.Run σ}
    {mmio : MMIOAccess} {s : σ}
    (h : findMmioRegion overflowChecks regions mmio.addr mmio.bytes = some (some cfg)) :
    mmioHandleAccess overflowChecks handlers regions mmio s =
      handlers cfg.handler { mmio with address := mmio.address - .ofNat cfg.start } cfg.arg s := by
  rw [mmioHandleAccess, h]
  rfl

theorem toNat_sub_start {address : UInt64} {start : Nat} (h : start ≤ address.toNat) :
    (address - UInt64.ofNat start).toNat = address.toNat - start := by
  have hstart : (UInt64.ofNat start).toNat = start := by
    rw [UInt64.toNat_ofNat']
    exact Nat.mod_eq_of_lt (h.trans_lt address.toNat_lt)
  rw [UInt64.toNat_sub_of_le _ _ (UInt64.le_iff_toNat_le.mpr (hstart.symm ▸ h)), hstart]

/-- The access from a base on is aligned. -/
def MMIOAccess.AlignedAt (mmio : MMIOAccess) (base : Nat) : Prop :=
  mmio.size ∈ [1, 2, 4, 8] → (base + mmio.addr) % mmio.bytes = 0

instance (mmio : MMIOAccess) (base : Nat) : Decidable (mmio.AlignedAt base) :=
  inferInstanceAs (Decidable (_ → _))

/-- An access from a base on, at an address that is a word: it panics unless it is aligned. -/
theorem mmioPerformAccessAt_eq {base : Nat} {mmio : MMIOAccess} {bus : Device}
    (hlt : base + mmio.addr < 2 ^ 64) :
    mmioPerformAccessAt overflowChecks base mmio bus =
      if mmio.AlignedAt base then
        let (mmio', bus) := bus.access { mmio with address := .ofNat (base + mmio.addr) }
        some ({ mmio with value := mmio'.value }, bus)
      else none := by
  have haddr : (UInt64.ofNat (base + mmio.addr)).toNat = base + mmio.addr := by
    rw [UInt64.toNat_ofNat']
    exact Nat.mod_eq_of_lt hlt
  have haligned : MMIOAccess.Aligned { mmio with address := .ofNat (base + mmio.addr) } ↔
      mmio.AlignedAt base := by
    rw [MMIOAccess.Aligned, MMIOAccess.AlignedAt]
    simp only [MMIOAccess.addr, haddr]
  rw [mmioPerformAccessAt, wordResult, if_pos hlt, Option.bind_some]
  by_cases hal : mmio.AlignedAt base
  · rw [mmioPerformAccess_eq (haligned.mpr hal), if_pos hal]
    rfl
  · rw [mmioPerformAccess, if_neg (mt haligned.mp hal), if_neg hal]
    rfl

/-- A write writes the bytes of the access when an instruction can have its size, and no other
ones. -/
theorem mmioPerformAccessAt_write {base : Nat} {mmio : MMIOAccess} {bus : Device}
    (hwrite : mmio.isWrite = true) (hlt : base + mmio.addr < 2 ^ 64) :
    mmioPerformAccessAt overflowChecks base mmio bus =
      if mmio.AlignedAt base then
        some (mmio, if mmio.size ∈ [1, 2, 4, 8] then
          bus.store ⟨base + mmio.addr, mmio.bytes,
            lowBytes mmio.value.toBitVec mmio.bytes⟩ else bus)
      else none := by
  have haddr : (UInt64.ofNat (base + mmio.addr)).toNat = base + mmio.addr := by
    rw [UInt64.toNat_ofNat']
    exact Nat.mod_eq_of_lt hlt
  rw [mmioPerformAccessAt_eq hlt, Device.access]
  simp only [if_pos hwrite, MMIOAccess.addr, haddr]
  split
  · split <;> rfl
  · rfl

end Hvisor
