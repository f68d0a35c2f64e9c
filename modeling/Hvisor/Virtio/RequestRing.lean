import Hvisor.Virtio.Trampoline

/-!
# The request ring

The ring of requests is a lossless channel. The abstract model is the channel that holds at most
`MAX_REQ - 1` requests; every run of the trampoline refines it, whatever CPUs push and however their
steps and the steps of the backend interleave.

## Main definitions

* `pushes`, `reads`: the requests of a history in the order of pushing and of reading
* `RingInv`: what holds of the ring, the lock and the CPUs that hold it

## Main results

* `ringInv_cpuStep`, `ringInv_backendStep`: what one step does to the ring
* `virtio_refines_fifo`: the trampoline refines the channel
* `req_list_lossless`: the backend reads what was pushed, and nothing is overwritten
-/

namespace Hvisor

/-! ## Histories -/

/-- What an event means for the channel of requests. -/
def fifoEvent : BridgeEvent → Option (FifoEvent HvisorDeviceReq)
  | .push _ req => some (.send req)
  | .read req => some (.recv req)
  | _ => none

/-- The pushed requests, the oldest first. -/
def pushes : List BridgeEvent → List HvisorDeviceReq
  | [] => []
  | .push _ req :: h => pushes h ++ [req]
  | _ :: h => pushes h

/-- The requests that the backend read, the oldest first. -/
def reads : List BridgeEvent → List HvisorDeviceReq
  | [] => []
  | .read req :: h => reads h ++ [req]
  | _ :: h => reads h

theorem sent_fifoEvent (h : List BridgeEvent) :
    FifoEvent.sent (h.filterMap fifoEvent) = pushes h := by
  induction h with
  | nil => rfl
  | cons e h ih => cases e <;> simp [fifoEvent, List.filterMap_cons, pushes, FifoEvent.sent, ih]

theorem received_fifoEvent (h : List BridgeEvent) :
    FifoEvent.received (h.filterMap fifoEvent) = reads h := by
  induction h with
  | nil => rfl
  | cons e h ih => cases e <;> simp [fifoEvent, List.filterMap_cons, reads, FifoEvent.received, ih]

/-! ## Indices -/

namespace VirtioBridge

variable {b : VirtioBridge}

theorem isReqListFull_iff :
    b.isReqListFull = true ↔ (b.reqRear.toNat + 1) % MAX_REQ = b.reqFront.toNat := by
  have hm : ((b.reqRear + 1) &&& (UInt32.ofNat MAX_REQ - 1)).toNat
      = (b.reqRear.toNat + 1) % MAX_REQ := by
    rw [UInt32.toNat_and, UInt32.toNat_add,
      show (UInt32.ofNat MAX_REQ - 1).toNat = 2 ^ 5 - 1 from rfl, Nat.and_two_pow_sub_one_eq_mod]
    rw [UInt32.toNat_one]
    exact Nat.mod_mod_of_dvd _ (by decide)
  rw [isReqListFull, beq_iff_eq, ← UInt32.toNat_inj, hm]

theorem rearSlot_eq (hr : b.reqRear.toNat < MAX_REQ) : b.rearSlot = b.reqRear.toNat := by
  rw [rearSlot, UInt32.toNat_mod, show (UInt32.ofNat MAX_REQ).toNat = MAX_REQ from rfl,
    Nat.mod_eq_of_lt hr]

theorem toNat_succ_mod (i : UInt32) :
    ((i + 1) % UInt32.ofNat MAX_REQ).toNat = (i.toNat + 1) % MAX_REQ := by
  rw [UInt32.toNat_mod, UInt32.toNat_add, show (UInt32.ofNat MAX_REQ).toNat = MAX_REQ from rfl,
    UInt32.toNat_one]
  exact Nat.mod_mod_of_dvd _ (by decide)

end VirtioBridge

/-! ## The invariant -/

namespace VirtioPc

/-- The CPU holds the lock. -/
def critical : VirtioPc → Bool
  | .testing .. | .dropping .. | .sampling .. | .writing .. | .advancing .. | .waking ..
  | .unlocking .. | .finishing => true
  | _ => false

/-- The CPU saw that the list was not full, and is about to push. -/
def pushing : VirtioPc → Bool
  | .sampling .. | .writing .. | .advancing .. => true
  | _ => false

/-- The request that the CPU wrote to the free slot. -/
def stored : VirtioPc → Option HvisorDeviceReq
  | .advancing _ _ hreq _ => some hreq
  | _ => none

theorem critical_of_pushing {pc : VirtioPc} (h : pc.pushing = true) : pc.critical = true := by
  cases pc <;> first | rfl | cases h

theorem pushing_of_stored {pc : VirtioPc} {hreq : HvisorDeviceReq} (h : pc.stored = some hreq) :
    pc.pushing = true := by
  cases pc <;> first | rfl | cases h

end VirtioPc

/-- The ring holds `ring`, CPUs in the critical section hold the lock, a CPU that is about to push
has a free slot, and one that is about to move the rear has written it. -/
structure RingInv (s : Bridge) (ring : List HvisorDeviceReq) : Prop where
  holds : RingBuffer.Holds s.region.reqList s.region.reqFront.toNat s.region.reqRear.toNat ring
  mutex : ∀ cpu, (s.pc cpu).critical = true → s.lock = some cpu
  room : ∀ cpu, (s.pc cpu).pushing = true → ring.length + 1 < MAX_REQ
  stored : ∀ cpu hreq, (s.pc cpu).stored = some hreq →
    s.region.reqList[s.region.reqRear.toNat]? = some hreq

namespace RingInv

variable {s : Bridge} {ring : List HvisorDeviceReq} {cpu : Nat} {pc : VirtioPc}

theorem rear_lt (h : RingInv s ring) : s.region.reqRear.toNat < MAX_REQ := h.holds.rear_lt

/-- Two CPUs in the critical section are one. -/
theorem eq_of_critical (h : RingInv s ring) {c : Nat} (hc : (s.pc c).critical = true)
    (hcpu : (s.pc cpu).critical = true) : c = cpu :=
  Option.some.inj ((h.mutex c hc).symm.trans (h.mutex cpu hcpu))

theorem init (hs : s.Initial) : RingInv s [] where
  holds := by
    rw [hs.rear]
    exact RingBuffer.holds_nil hs.front
  mutex cpu hc := by simp [hs.pc, VirtioPc.critical] at hc
  room cpu hc := by simp [hs.pc, VirtioPc.pushing] at hc
  stored cpu hreq hc := by simp [hs.pc, VirtioPc.stored] at hc

/-- A CPU moves on without a change to the region or the lock. -/
theorem goto (h : RingInv s ring) (hc : pc.critical = true → s.lock = some cpu)
    (hp : pc.pushing = true → ring.length + 1 < MAX_REQ)
    (hst : ∀ hreq, pc.stored = some hreq →
      s.region.reqList[s.region.reqRear.toNat]? = some hreq) :
    RingInv (s.goto cpu pc) ring := by
  refine ⟨h.holds, ?_, ?_, ?_⟩
  · intro c hcrit
    by_cases e : c = cpu
    · subst e
      exact hc (by simpa using hcrit)
    · exact h.mutex c (by rwa [s.goto_pc_of_ne pc e] at hcrit)
  · intro c hpush
    by_cases e : c = cpu
    · subst e
      exact hp (by simpa using hpush)
    · exact h.room c (by rwa [s.goto_pc_of_ne pc e] at hpush)
  · intro c hreq hstored
    by_cases e : c = cpu
    · subst e
      exact hst hreq (by simpa using hstored)
    · exact h.stored c hreq (by rwa [s.goto_pc_of_ne pc e] at hstored)

/-- A CPU moves on to a place outside the critical section. -/
theorem goto_outside (h : RingInv s ring) (hpc : pc.critical = false) :
    RingInv (s.goto cpu pc) ring := by
  have hnp : pc.pushing ≠ true := fun hp => by simp [VirtioPc.critical_of_pushing hp] at hpc
  refine h.goto ?_ ?_ ?_
  · intro hc
    simp [hpc] at hc
  · intro hp
    exact absurd hp hnp
  · intro hreq hst
    exact absurd (VirtioPc.pushing_of_stored hst) hnp

/-- A CPU takes the free lock. -/
theorem acquire (h : RingInv s ring) (hl : s.lock = none) (hp : pc.pushing = false) :
    RingInv ({ s with lock := some cpu }.goto cpu pc) ring := by
  have h' : RingInv { s with lock := some cpu } ring := by
    refine ⟨h.holds, ?_, h.room, h.stored⟩
    intro c hc
    have := h.mutex c hc
    simp [hl] at this
  refine h'.goto (fun _ => rfl) ?_ ?_
  · intro hp'
    simp [hp] at hp'
  · intro hreq hst
    simp [VirtioPc.pushing_of_stored hst] at hp

/-- The holder gives the lock back. -/
theorem release (h : RingInv s ring) (hcpu : (s.pc cpu).critical = true)
    (hpc : pc.critical = false) : RingInv ({ s with lock := none }.goto cpu pc) ring := by
  have g : RingInv (s.goto cpu pc) ring := h.goto_outside hpc
  refine ⟨g.holds, ?_, g.room, g.stored⟩
  intro c hc
  by_cases e : c = cpu
  · subst e
    simp [hpc] at hc
  · -- another CPU in the critical section would be the holder
    rw [Bridge.goto_pc_of_ne _ pc e] at hc
    exact absurd (h.eq_of_critical hc hcpu) e

/-- The holder writes its request to the free slot. -/
theorem write (h : RingInv s ring) {mmio : MMIOAccess} {ni : UInt8} {hreq : HvisorDeviceReq}
    {old : UInt64} (hpc : s.pc cpu = .writing mmio ni hreq old) :
    RingInv ({ s with region := s.region.writeReq hreq }.goto cpu (.advancing mmio ni hreq old))
      ring := by
  have hcrit : (s.pc cpu).critical = true := by rw [hpc]; rfl
  have h' : RingInv { s with region := s.region.writeReq hreq } ring := by
    refine ⟨?_, h.mutex, h.room, ?_⟩
    · have hset := h.holds.set (a := hreq)
      simp only [VirtioBridge.writeReq, VirtioBridge.rearSlot_eq h.rear_lt]
      exact hset
    · intro c r hst
      have hc := h.eq_of_critical
        (VirtioPc.critical_of_pushing (VirtioPc.pushing_of_stored hst)) hcrit
      subst hc
      simp [hpc, VirtioPc.stored] at hst
  refine h'.goto (fun _ => h.mutex cpu hcrit) (fun _ => h.room cpu (by rw [hpc]; rfl)) ?_
  intro r hr
  obtain rfl : hreq = r := Option.some.inj hr
  simp [VirtioBridge.writeReq, VirtioBridge.rearSlot_eq h.rear_lt]

/-- The holder makes its request visible. -/
theorem push (h : RingInv s ring) {mmio : MMIOAccess} {ni : UInt8} {hreq : HvisorDeviceReq}
    {old : UInt64} (hpc : s.pc cpu = .advancing mmio ni hreq old) :
    RingInv ({ s with region := s.region.advanceRear }.goto cpu (.waking mmio ni old))
      (ring ++ [hreq]) := by
  have hcrit : (s.pc cpu).critical = true := by rw [hpc]; rfl
  have hroom : ring.length + 1 < MAX_REQ := h.room cpu (by rw [hpc]; rfl)
  have hne : (s.region.reqRear.toNat + 1) % MAX_REQ ≠ s.region.reqFront.toNat := by
    intro he
    have := h.holds.full_iff.mp he
    omega
  -- no other CPU is about to push
  have hother : ∀ c, c ≠ cpu → (s.pc c).pushing ≠ true := by
    intro c hc hp
    exact hc (h.eq_of_critical (VirtioPc.critical_of_pushing hp) hcrit)
  refine ⟨?_, ?_, ?_, ?_⟩
  · have := h.holds.push (h.stored cpu hreq (by rw [hpc]; rfl)) hne
    simpa only [Bridge.goto_region, VirtioBridge.advanceRear,
      VirtioBridge.toNat_succ_mod] using this
  · intro c hc
    by_cases e : c = cpu
    · subst e
      exact h.mutex c hcrit
    · exact h.mutex c (by rwa [Bridge.goto_pc_of_ne _ _ e] at hc)
  · intro c hp
    by_cases e : c = cpu
    · subst e
      simp [VirtioPc.pushing] at hp
    · exact absurd (by rwa [Bridge.goto_pc_of_ne _ _ e] at hp) (hother c e)
  · intro c r hst
    by_cases e : c = cpu
    · subst e
      simp [VirtioPc.stored] at hst
    · rw [Bridge.goto_pc_of_ne _ _ e] at hst
      exact absurd (VirtioPc.pushing_of_stored hst) (hother c e)

/-- The backend moves over the first request. -/
theorem pop {req : HvisorDeviceReq} (h : RingInv s (req :: ring)) (b : Backend) :
    RingInv { s with region := s.region.advanceFront, backend := b } ring := by
  refine ⟨?_, h.mutex, ?_, h.stored⟩
  · have := h.holds.pop
    simpa only [VirtioBridge.advanceFront, VirtioBridge.toNat_succ_mod] using this
  · intro c hp
    exact Nat.lt_of_succ_lt (h.room c hp)

/-- The ring does not depend on the answers, the backend's place and the event queues. -/
theorem congr (h : RingInv s ring) {s' : Bridge} (hl : s'.region.reqList = s.region.reqList)
    (hf : s'.region.reqFront = s.region.reqFront) (hr : s'.region.reqRear = s.region.reqRear)
    (hlock : s'.lock = s.lock) (hpc : s'.pc = s.pc) : RingInv s' ring := by
  refine ⟨?_, ?_, ?_, ?_⟩
  · rw [hl, hf, hr]
    exact h.holds
  · rw [hlock, hpc]
    exact h.mutex
  · rw [hpc]
    exact h.room
  · rw [hl, hr, hpc]
    exact h.stored

end RingInv

/-! ## One step -/

variable {P : Platform} {s s' : Bridge} {e : BridgeEvent} {ring : List HvisorDeviceReq} {cpu : Nat}
  {h : List BridgeEvent}

/-- The ring after an event of a CPU. -/
def ringAfter (ring : List HvisorDeviceReq) : BridgeEvent → List HvisorDeviceReq
  | .push _ req => ring ++ [req]
  | _ => ring

theorem ringInv_callStep (hi : RingInv s ring) {mmio : MMIOAccess} {base : UInt64}
    (hs : callStep s cpu mmio base = some (s', e)) :
    e = .call cpu mmio base ∧ RingInv s' ring ∧ s'.backend = s.backend := by
  unfold callStep at hs
  split at hs
  · cases hs
    exact ⟨rfl, hi.goto_outside rfl, rfl⟩
  · cases hs

theorem ringInv_finishStep (hi : RingInv s ring) (hs : finishStep s cpu = some (s', e)) :
    e = .tau ∧ RingInv s' ring ∧ s'.backend = s.backend := by
  unfold finishStep at hs
  split at hs
  · next hpc hl =>
    cases hs
    exact ⟨rfl, hi.acquire hl rfl, rfl⟩
  · cases hs

/-- **A step of a CPU** leaves the ring as it is, or pushes the request that it shows. -/
theorem ringInv_cpuStep (hi : RingInv s ring) (hs : cpuStep P s cpu = some (s', e)) :
    RingInv s' (ringAfter ring e) ∧ (∀ req, e ≠ .read req) ∧ s'.backend = s.backend := by
  cases hpc : s.pc cpu with
  | guest => simp [cpuStep, hpc] at hs
  | panicked => simp [cpuStep, hpc] at hs
  | locking mmio ni =>
    simp only [cpuStep, hpc] at hs
    split at hs
    · next hl =>
      cases hs
      exact ⟨hi.acquire hl rfl, by rintro _ ⟨⟩, rfl⟩
    · cases hs
  | testing mmio ni =>
    have hl : s.lock = some cpu := hi.mutex cpu (by rw [hpc]; rfl)
    simp only [cpuStep, hpc] at hs
    split at hs
    · cases hs
      exact ⟨hi.goto (fun _ => hl) (by rintro ⟨⟩) (by rintro _ ⟨⟩), by rintro _ ⟨⟩, rfl⟩
    · next hfull =>
      cases hs
      -- the list has a free slot, and only the holder of the lock fills it
      have hlt := hi.holds.length_lt
      have hne : ring.length + 1 ≠ MAX_REQ := fun he =>
        hfull (VirtioBridge.isReqListFull_iff.mpr (hi.holds.full_iff.mpr he))
      exact ⟨hi.goto (fun _ => hl) (fun _ => by omega) (by rintro _ ⟨⟩), by rintro _ ⟨⟩, rfl⟩
  | dropping mmio ni =>
    simp only [cpuStep, hpc, Option.some.injEq, Prod.mk.injEq] at hs
    obtain ⟨rfl, rfl⟩ := hs
    exact ⟨hi.release (by rw [hpc]; rfl) rfl, by rintro _ ⟨⟩, rfl⟩
  | sampling mmio ni =>
    simp only [cpuStep, hpc] at hs
    split at hs
    · cases hs
      refine ⟨hi.goto ?_ ?_ (by rintro _ ⟨⟩), by rintro _ ⟨⟩, rfl⟩
      · intro _
        exact hi.mutex cpu (by rw [hpc]; rfl)
      · intro _
        exact hi.room cpu (by rw [hpc]; rfl)
    · cases hs
      exact ⟨hi.goto_outside rfl, by rintro _ ⟨⟩, rfl⟩
  | writing mmio ni hreq old =>
    simp only [cpuStep, hpc, Option.some.injEq, Prod.mk.injEq] at hs
    obtain ⟨rfl, rfl⟩ := hs
    exact ⟨hi.write hpc, by rintro _ ⟨⟩, rfl⟩
  | advancing mmio ni hreq old =>
    simp only [cpuStep, hpc, Option.some.injEq, Prod.mk.injEq] at hs
    obtain ⟨rfl, rfl⟩ := hs
    exact ⟨hi.push hpc, by rintro _ ⟨⟩, rfl⟩
  | waking mmio ni old =>
    have hl : s.lock = some cpu := hi.mutex cpu (by rw [hpc]; rfl)
    simp only [cpuStep, hpc] at hs
    split at hs
    · split at hs
      · cases hs
        refine ⟨RingInv.goto ?_ (fun _ => hl) (by rintro ⟨⟩) (by rintro _ ⟨⟩), by rintro _ ⟨⟩, rfl⟩
        exact hi.congr rfl rfl rfl rfl rfl
      · cases hs
        exact ⟨hi.goto_outside rfl, by rintro _ ⟨⟩, rfl⟩
    · cases hs
      exact ⟨hi.goto (fun _ => hl) (by rintro ⟨⟩) (by rintro _ ⟨⟩), by rintro _ ⟨⟩, rfl⟩
  | unlocking mmio ni old =>
    simp only [cpuStep, hpc] at hs
    split at hs
    · cases hs
      exact ⟨hi.release (by rw [hpc]; rfl) rfl, by rintro _ ⟨⟩, rfl⟩
    · cases hs
      exact ⟨hi.release (by rw [hpc]; rfl) rfl, by rintro _ ⟨⟩, rfl⟩
  | waiting mmio old count =>
    simp only [cpuStep, hpc] at hs
    split at hs
    · split at hs
      · cases hs
        exact ⟨hi.goto_outside rfl, by rintro _ ⟨⟩, rfl⟩
      · split at hs
        · cases hs
          exact ⟨hi.goto_outside rfl, by rintro _ ⟨⟩, rfl⟩
        · cases hs
          exact ⟨hi.goto_outside rfl, by rintro _ ⟨⟩, rfl⟩
    · cases hs
      exact ⟨hi.goto_outside rfl, by rintro _ ⟨⟩, rfl⟩
  | loading mmio =>
    simp only [cpuStep, hpc] at hs
    split at hs
    · cases hs
      exact ⟨hi.goto_outside rfl, by rintro _ ⟨⟩, rfl⟩
    · cases hs
      exact ⟨hi.goto_outside rfl, by rintro _ ⟨⟩, rfl⟩
  | returning mmio =>
    simp only [cpuStep, hpc, Option.some.injEq, Prod.mk.injEq] at hs
    obtain ⟨rfl, rfl⟩ := hs
    exact ⟨hi.goto_outside rfl, by rintro _ ⟨⟩, rfl⟩
  | finishing =>
    simp only [cpuStep, hpc, Option.some.injEq, Prod.mk.injEq] at hs
    obtain ⟨rfl, rfl⟩ := hs
    exact ⟨hi.release (by rw [hpc]; rfl) rfl, by rintro _ ⟨⟩, rfl⟩

/-- The requests that the backend has not read, when the ring holds `ring`. -/
def Unread (ring q : List HvisorDeviceReq) : Phase → Prop
  | .idle => ring = q
  | .ready => ring = q ∧ q ≠ []
  | .got req => ring = req :: q

variable {q : List HvisorDeviceReq}

theorem Unread.length_le {ph : Phase} (hu : Unread ring q ph) : q.length ≤ ring.length := by
  cases ph with
  | idle => exact (congrArg List.length hu).ge
  | ready => exact (congrArg List.length hu.1).ge
  | got req =>
    have hl := congrArg List.length hu
    rw [List.length_cons] at hl
    omega

theorem Unread.append {ph : Phase} (hu : Unread ring q ph) (l : List HvisorDeviceReq) :
    Unread (ring ++ l) (q ++ l) ph := by
  cases ph with
  | idle => exact congrArg (· ++ l) hu
  | ready => exact ⟨congrArg (· ++ l) hu.1, by simp [hu.2]⟩
  | got req => exact congrArg (· ++ l) hu

/-- **A step of the backend** reads the first unread request, or leaves the unread ones alone. -/
theorem ringInv_backendStep (hi : RingInv s ring) (hu : Unread ring q s.backend.phase)
    {op : BackendOp} (hs : backendStep s op = some (s', e)) :
    ∃ ring', RingInv s' ring' ∧
      ((∃ req q', e = .read req ∧ q = req :: q' ∧ s'.backend.phase = .got req ∧
          Unread ring' q' s'.backend.phase) ∨
        ((e = .tau ∨ ∃ no v, e = .answer no v) ∧ Unread ring' q s'.backend.phase ∧
          ∀ req, s'.backend.phase = .got req → s.backend.phase = .got req)) := by
  cases op with
  | check =>
    simp only [backendStep] at hs
    split at hs
    · next hph =>
      split at hs
      · next hne =>
        cases hs
        rw [hph] at hu
        obtain rfl : ring = q := hu
        refine ⟨ring, hi.congr rfl rfl rfl rfl rfl, .inr ⟨.inl rfl, ⟨rfl, ?_⟩, nofun⟩⟩
        rintro rfl
        have := hi.holds.isEmpty_iff.mpr rfl
        exact hne (UInt32.toNat_inj.mp this.symm)
      · cases hs
    · cases hs
  | read =>
    simp only [backendStep] at hs
    split at hs
    · next req hph hget =>
      cases hs
      rw [hph] at hu
      obtain ⟨rfl, hq⟩ := hu
      obtain ⟨req', q', rfl⟩ := List.exists_cons_of_ne_nil hq
      -- the slot at the front holds the first unread request
      obtain rfl : req' = req := Option.some.inj (hi.holds.head.symm.trans hget)
      exact ⟨req' :: q', hi.congr rfl rfl rfl rfl rfl, .inl ⟨req', q', rfl, rfl, rfl, rfl⟩⟩
    · cases hs
  | advance =>
    simp only [backendStep] at hs
    split at hs
    · next req hph =>
      cases hs
      rw [hph] at hu
      obtain rfl : ring = req :: q := hu
      exact ⟨q, hi.pop _, .inr ⟨.inl rfl, rfl, nofun⟩⟩
    · cases hs
  | writeValue no v =>
    simp only [backendStep] at hs
    split at hs
    · cases hs
      exact ⟨ring, hi.congr rfl rfl rfl rfl rfl, .inr ⟨.inl rfl, hu, fun _ => id⟩⟩
    · cases hs
  | bumpFlag no =>
    simp only [backendStep] at hs
    split at hs
    · cases hs
      exact ⟨ring, hi.congr rfl rfl rfl rfl rfl, .inr ⟨.inr ⟨_, _, rfl⟩, hu, fun _ => id⟩⟩
    · cases hs
  | needWakeup v =>
    cases hs
    exact ⟨ring, hi.congr rfl rfl rfl rfl rfl, .inr ⟨.inl rfl, hu, fun _ => id⟩⟩

/-! ## Runs -/

/-- What relates a state of the trampoline to the channel with the unread requests. -/
structure RingRel (h : List BridgeEvent) (s : Bridge) (q ring : List HvisorDeviceReq) : Prop where
  inv : RingInv s ring
  unread : Unread ring q s.backend.phase
  latest : ∀ req, s.backend.phase = .got req → ∃ popped, reads h = popped ++ [req]

/-- A CPU step that shows no push is hidden from the channel. -/
theorem RingRel.hidden (hR : RingRel h s q ring) (hi : RingInv s' ring)
    (he : reads (e :: h) = reads h)
    (hb : s'.backend = s.backend) : RingRel (e :: h) s' q ring := by
  refine ⟨hi, by rw [hb]; exact hR.unread, ?_⟩
  rw [hb, he]
  exact hR.latest

theorem reads_of_ne {h : List BridgeEvent} (hne : ∀ req, e ≠ .read req) :
    reads (e :: h) = reads h := by
  cases e with
  | read req => exact absurd rfl (hne req)
  | _ => rfl

/-- **The trampoline refines the channel** of at most `MAX_REQ - 1` requests. -/
theorem virtio_refines_fifo (r : (virtio P).Run h s) :
    ∃ q, (fifo HvisorDeviceReq (MAX_REQ - 1)).Run (h.filterMap fifoEvent) q ∧
      ∃ ring, RingRel h s q ring := by
  refine r.simulates (R := fun h s q => ∃ ring, RingRel h s q ring) ?_ ?_ ?_
  · intro s hs
    refine ⟨[], rfl, [], RingInv.init hs, ?_, ?_⟩
    · rw [hs.phase]
      rfl
    · rw [hs.phase]
      exact nofun
  · -- a step that the channel does not see: the ring may still move, with a request that was read
    rintro h s e s' q - ⟨ring, hR⟩ ⟨act, hs⟩ he
    cases act with
    | call cpu mmio base =>
      obtain ⟨rfl, hi, hb⟩ := ringInv_callStep hR.inv hs
      exact ⟨ring, hR.hidden hi rfl hb⟩
    | finish cpu =>
      obtain ⟨rfl, hi, hb⟩ := ringInv_finishStep hR.inv hs
      exact ⟨ring, hR.hidden hi rfl hb⟩
    | cpu cpu =>
      obtain ⟨hi, hne, hb⟩ := ringInv_cpuStep hR.inv hs
      have hring : ringAfter ring e = ring := by
        cases e with
        | push c req => cases he
        | _ => rfl
      rw [hring] at hi
      exact ⟨ring, hR.hidden hi (reads_of_ne hne) hb⟩
    | backend op =>
      obtain ⟨ring', hi, ⟨req, -, rfl, -⟩ | ⟨htau, hu, hgot⟩⟩ :=
        ringInv_backendStep hR.inv hR.unread hs
      · cases he
      · refine ⟨ring', hi, hu, ?_⟩
        intro req hph
        rw [reads_of_ne (by rcases htau with rfl | ⟨no, v, rfl⟩ <;> exact nofun)]
        exact hR.latest req (hgot req hph)
  · -- a push of a CPU or a read of the back end is a step of the channel
    rintro h s e s' q b - ⟨ring, hR⟩ ⟨act, hs⟩ he
    cases act with
    | call cpu mmio base =>
      obtain ⟨rfl, -⟩ := ringInv_callStep hR.inv hs
      cases he
    | finish cpu =>
      obtain ⟨rfl, -⟩ := ringInv_finishStep hR.inv hs
      cases he
    | cpu cpu =>
      obtain ⟨hi, hne, hb⟩ := ringInv_cpuStep hR.inv hs
      cases e with
      | push c req =>
        cases he
        refine ⟨q ++ [req], ⟨?_, rfl⟩, ring ++ [req], hi, ?_, ?_⟩
        · -- the pusher saw a free slot
          have hlt := hi.holds.length_lt
          have hle := hR.unread.length_le
          simp only [ringAfter, List.length_append, List.length_singleton] at hlt
          omega
        · rw [hb]
          exact hR.unread.append [req]
        · rw [hb]
          exact hR.latest
      | read req => exact absurd rfl (hne req)
      | _ => cases he
    | backend op =>
      obtain ⟨ring', hi, ⟨req, q', rfl, rfl, hph, hu⟩ | ⟨htau, -⟩⟩ :=
        ringInv_backendStep hR.inv hR.unread hs
      · cases he
        refine ⟨q', rfl, ring', hi, hu, ?_⟩
        intro req' hph'
        obtain rfl : req = req' := by
          rw [hph] at hph'
          exact Phase.got.inj hph'
        exact ⟨reads h, rfl⟩
      · rcases htau with rfl | ⟨no, v, rfl⟩ <;> cases he

/-- What was read is the beginning of what was pushed. -/
theorem reads_prefix_pushes (r : (virtio P).Run h s) : reads h <+: pushes h := by
  obtain ⟨q, rq, -⟩ := virtio_refines_fifo r
  have := sent_eq_of_run rq
  rw [sent_fifoEvent, received_fifoEvent] at this
  exact ⟨q, this.symm⟩

/-- **The request ring is a lossless FIFO**: in every run, what the backend read is what was pushed,
in order and as it was pushed; the requests that it did not move over yet stand in the ring, at most
`MAX_REQ - 1` of them, and no push writes to their slots. -/
theorem req_list_lossless (r : (virtio P).Run h s) :
    ∃ popped outstanding, pushes h = popped ++ outstanding ∧
      outstanding.length ≤ MAX_REQ - 1 ∧
      RingBuffer.Holds s.region.reqList s.region.reqFront.toNat s.region.reqRear.toNat outstanding ∧
      (s.region.reqFront ≠ s.region.reqRear ↔ outstanding ≠ []) ∧
      (match s.backend.phase with
        | .got req => outstanding.head? = some req ∧ reads h = popped ++ [req]
        | _ => reads h = popped) ∧
      ∀ cpu mmio ni hreq old, s.pc cpu = .writing mmio ni hreq old →
        ∀ i < outstanding.length, (s.region.reqFront.toNat + i) % MAX_REQ ≠ s.region.rearSlot := by
  obtain ⟨q, rq, ring, hR⟩ := virtio_refines_fifo r
  have hsent : pushes h = reads h ++ q := by
    have := sent_eq_of_run rq
    rwa [sent_fifoEvent, received_fifoEvent] at this
  have hlt := hR.inv.holds.length_lt
  obtain ⟨popped, hpop, hphase⟩ : ∃ popped, pushes h = popped ++ ring ∧
      match s.backend.phase with
        | .got req => ring.head? = some req ∧ reads h = popped ++ [req]
        | _ => reads h = popped := by
    have hu := hR.unread
    cases hph : s.backend.phase with
    | idle =>
      rw [hph] at hu
      obtain rfl : ring = q := hu
      exact ⟨reads h, hsent, rfl⟩
    | ready =>
      rw [hph] at hu
      obtain ⟨rfl, -⟩ := hu
      exact ⟨reads h, hsent, rfl⟩
    | got req =>
      rw [hph] at hu
      obtain rfl : ring = req :: q := hu
      obtain ⟨popped, hp⟩ := hR.latest req hph
      exact ⟨popped, by simp [hsent, hp], rfl, hp⟩
  refine ⟨popped, ring, hpop, by omega, hR.inv.holds, ?_, hphase, ?_⟩
  · rw [ne_comm, ne_eq, ← UInt32.toNat_inj, hR.inv.holds.isEmpty_iff]
  · intro cpu mmio ni hreq old _ i hi he
    rw [VirtioBridge.rearSlot_eq hR.inv.rear_lt, hR.inv.holds.rear_eq] at he
    have := RingBuffer.slot_inj (hi.trans hlt) hlt he
    omega

/-! ## A run -/

/-- An empty ring at its last slot. -/
def idleBridge : Bridge where
  region :=
    { reqFront := 31
      reqRear := 31
      reqList := Vector.replicate MAX_REQ (HvisorDeviceReq.new 0 0 0 0 0 false 0)
      cfgFlags := Vector.replicate MAX_CPUS 0
      cfgValues := Vector.replicate MAX_CPUS 0
      needWakeup := 0 }
  lock := none
  pc _ := .guest
  events _ := []
  backend := { phase := .idle, count := 0, tickets := fun _ => .unread }

theorem idleBridge_initial : idleBridge.Initial :=
  ⟨by decide, rfl, rfl, fun _ => rfl, rfl, rfl, fun _ => rfl⟩

/-- The root zone has CPU 0, and the other CPUs are those of zone 1. -/
def smallPlatform : Platform where
  zoneId cpu := if cpu = 0 then 0 else 1
  rootCpuSet := ⟨3, 1⟩

/-- CPU 1 reads the configuration while CPU 2 notifies a queue; the backend answers CPU 1. -/
def configReadRun : List BridgeAction :=
  [.call 1 ⟨0x10, 4, false, 0⟩ 0x1000, .call 2 ⟨0x50, 4, true, 1⟩ 0x1000,
    .cpu 1, .cpu 1, .cpu 1, .cpu 1, .cpu 1, .backend .check, .backend .read, .cpu 1, .cpu 1,
    .cpu 2, .cpu 2, .cpu 2, .cpu 2, .cpu 2, .cpu 2, .cpu 2, .cpu 2, .backend .advance,
    .backend (.writeValue 0 7), .cpu 1, .backend (.bumpFlag 0), .backend .check, .backend .read,
    .cpu 1, .cpu 1, .cpu 1]

theorem configReadRun_history :
    (bridgeRun smallPlatform configReadRun ([], idleBridge)).map Prod.fst = some
      [.ret 1 ⟨0x1010, 4, false, 7⟩, .tau, .tau,
        .read (smallPlatform.request 2 ⟨0x1050, 4, true, 1⟩ 1), .tau, .answer 0 7, .tau, .tau, .tau,
        .ret 2 ⟨0x1050, 4, true, 1⟩, .tau, .tau,
        .push 2 (smallPlatform.request 2 ⟨0x1050, 4, true, 1⟩ 1), .tau, .tau, .tau, .tau,
        .tau, .tau,
        .read (smallPlatform.request 1 ⟨0x1010, 4, false, 0⟩ 0), .tau,
        .push 1 (smallPlatform.request 1 ⟨0x1010, 4, false, 0⟩ 0), .tau, .tau, .tau, .tau,
        .call 2 ⟨0x50, 4, true, 1⟩ 0x1000, .call 1 ⟨0x10, 4, false, 0⟩ 0x1000] := by
  decide +kernel

theorem req_list_lossless_two :
    ∃ h s, (virtio smallPlatform).Run h s ∧ (reads h).length = 2 ∧
      ∃ popped outstanding, pushes h = popped ++ outstanding ∧
        outstanding.length ≤ MAX_REQ - 1 ∧
        RingBuffer.Holds s.region.reqList s.region.reqFront.toNat s.region.reqRear.toNat
          outstanding ∧
        (s.region.reqFront ≠ s.region.reqRear ↔ outstanding ≠ []) ∧
        (match s.backend.phase with
          | .got req => outstanding.head? = some req ∧ reads h = popped ++ [req]
          | _ => reads h = popped) ∧
        ∀ cpu mmio ni hreq old, s.pc cpu = .writing mmio ni hreq old →
          ∀ i < outstanding.length,
            (s.region.reqFront.toNat + i) % MAX_REQ ≠ s.region.rearSlot := by
  obtain ⟨⟨h, s⟩, hr, hh⟩ := Option.map_eq_some_iff.mp configReadRun_history
  obtain rfl : h = _ := hh
  have r := virtio_run_of_bridgeRun (.start idleBridge_initial) hr
  exact ⟨_, s, r, by decide, req_list_lossless r⟩

end Hvisor
