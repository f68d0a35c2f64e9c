import Hvisor.Virtio.RequestRing

/-!
# Configuration accesses

An access that is no notification waits for its answer: the CPU reads its counter of answers, pushes
the request, and waits until the counter changes. The counter does not say which request was
answered. It is the right one because a CPU has at most one unanswered request, and waits for it.

## Main definitions

* `access`, `requestNo`: the access that a CPU makes, and the number of its request
* `Answers`: the counter and the value of a CPU while it waits for an answer
* `Local`: what holds of a CPU, by its place in the handler
* `CfgInv`: the invariant of requests, tickets and CPUs

## Main results

* `CfgInv.cpuStep`, `CfgInv.backendStep`: one step keeps the invariant
* `cfg_access_correlated`: an access returns with the answer to its own request
-/

namespace Hvisor

/-! ## The access of a CPU -/

/-- The latest access of a CPU, with the base of the device. -/
def access (cpu : Nat) : List BridgeEvent → Option (MMIOAccess × UInt64)
  | [] => none
  | .call c mmio base :: h => if c = cpu then some (mmio, base) else access cpu h
  | _ :: h => access cpu h

/-- The number of the request that a CPU pushed for its latest access. -/
def requestNo (cpu : Nat) : List BridgeEvent → Option Nat
  | [] => none
  | .call c _ _ :: h => if c = cpu then none else requestNo cpu h
  | .push c _ :: h => if c = cpu then some (pushes h).length else requestNo cpu h
  | _ :: h => requestNo cpu h

/-- The access at its absolute address. -/
def MMIOAccess.absolute (mmio : MMIOAccess) (base : UInt64) : MMIOAccess :=
  { mmio with address := mmio.address + base }

/-- Whether an access notifies a queue, as the handler passes it on. -/
def MMIOAccess.notifies (mmio : MMIOAccess) : UInt8 := if mmio.address == QUEUE_NOTIFY then 1 else 0

theorem MMIOAccess.notifies_eq_zero {mmio : MMIOAccess} :
    mmio.notifies = 0 ↔ mmio.address ≠ QUEUE_NOTIFY := by
  unfold notifies
  split
  · next h => simp [beq_iff_eq.mp h]
  · next h => simpa using h

/-- The local variables of the handler are those of the CPU's access. -/
def Called (h : List BridgeEvent) (cpu : Nat) (mmio : MMIOAccess) (ni : UInt8) : Prop :=
  ∃ m base, access cpu h = some (m, base) ∧ mmio = m.absolute base ∧ ni = m.notifies

/-- The request of a CPU's access has the number `no`. -/
def Pushed (P : Platform) (h : List BridgeEvent) (cpu : Nat) (mmio : MMIOAccess) (ni : UInt8)
    (no : Nat) : Prop :=
  requestNo cpu h = some no ∧ (pushes h)[no]? = some (P.request cpu mmio ni)

/-! ## The invariant -/

/-- The counter and the value of a CPU that waits for the answer to a request, when the counter was
`old` before the request: the counter moves with the answer, and the value is there by then. -/
def Answers (s : Bridge) (cpu no : Nat) (old : UInt64) : Prop :=
  match s.backend.tickets no with
  | .unread | .taken _ => s.region.cfgFlags[cpu]? = some old
  | .written _ v => s.region.cfgFlags[cpu]? = some old ∧ s.region.cfgValues[cpu]? = some v
  | .answered _ v => s.region.cfgFlags[cpu]? = some (old + 1) ∧ s.region.cfgValues[cpu]? = some v
  | .ignored _ => False

/-- What an access returns with, when its request was answered with `v`. -/
def MMIOAccess.result (mmio : MMIOAccess) (v : UInt64) : MMIOAccess :=
  if mmio.isWrite then mmio else { mmio with value := v }

/-- What holds of a CPU, by its place in the handler. -/
def Local (P : Platform) (h : List BridgeEvent) (s : Bridge) (cpu : Nat) : VirtioPc → Prop
  | .guest | .finishing | .panicked => True
  | .locking mmio ni | .testing mmio ni | .dropping mmio ni | .sampling mmio ni =>
    Called h cpu mmio ni
  | .writing mmio ni hreq old | .advancing mmio ni hreq old =>
    Called h cpu mmio ni ∧ hreq = P.request cpu mmio ni ∧ s.region.cfgFlags[cpu]? = some old
  | .waking mmio ni old | .unlocking mmio ni old =>
    Called h cpu mmio ni ∧ ∃ no, Pushed P h cpu mmio ni no ∧ (ni = 0 → Answers s cpu no old)
  | .waiting mmio old _ =>
    Called h cpu mmio 0 ∧ ∃ no, Pushed P h cpu mmio 0 no ∧ Answers s cpu no old
  | .loading mmio =>
    Called h cpu mmio 0 ∧ mmio.isWrite = false ∧ ∃ no req v, Pushed P h cpu mmio 0 no ∧
      s.backend.tickets no = .answered req v ∧ s.region.cfgValues[cpu]? = some v
  | .returning mmio =>
    ∃ m base, access cpu h = some (m, base) ∧
      ∃ no, Pushed P h cpu (m.absolute base) m.notifies no ∧ (m.notifies = 0 →
        ∃ req v, s.backend.tickets no = .answered req v ∧ mmio = (m.absolute base).result v)

namespace VirtioPc

/-- The CPU read its counter and did not push yet. -/
def sampled : VirtioPc → Bool
  | .writing .. | .advancing .. => true
  | _ => false

/-- The CPU reads the value of its answer. -/
def loads : VirtioPc → Bool
  | .loading _ => true
  | _ => false

/-- The CPU does not leave its request before the answer. -/
def awaits : VirtioPc → Bool
  | .waking _ ni _ | .unlocking _ ni _ => ni == 0
  | .waiting .. | .panicked => true
  | _ => false

end VirtioPc

/-- A request that was not answered. -/
def Open (s : Bridge) (no : Nat) : Prop := ∀ req v, s.backend.tickets no ≠ .answered req v

/-- Tickets are those of the requests in order of pushing, answers are those of the history, and the
CPU of an unanswered request stays with it. -/
structure CfgInv (P : Platform) (h : List BridgeEvent) (s : Bridge) : Prop where
  cpu : ∀ cpu, Local P h s cpu (s.pc cpu)
  count : s.backend.count = (reads h).length
  unread : ∀ no, s.backend.count ≤ no → s.backend.tickets no = .unread
  taken : ∀ no req, (s.backend.tickets no = .taken req ∨
    (∃ v, s.backend.tickets no = .written req v) ∨
    ∃ v, s.backend.tickets no = .answered req v) →
    (pushes h)[no]? = some req ∧ req.needInterrupt = 0
  ignored : ∀ no req, s.backend.tickets no = .ignored req →
    (pushes h)[no]? = some req ∧ req.needInterrupt ≠ 0
  answers : ∀ no v, .answer no v ∈ h ↔ ∃ req, s.backend.tickets no = .answered req v
  owner : ∀ no req, (pushes h)[no]? = some req → req.needInterrupt = 0 → Open s no →
    ∃ cpu < MAX_CPUS, req.srcCpu = UInt64.ofNat cpu ∧ (s.pc cpu).awaits = true ∧
      requestNo cpu h = some no

variable {P : Platform} {h h' : List BridgeEvent} {s s' : Bridge} {e : BridgeEvent} {cpu : Nat}

theorem cpu_lt_of_flag {old : UInt64} (hf : s.region.cfgFlags[cpu]? = some old) :
    cpu < MAX_CPUS := by
  by_contra hc
  rw [Vector.getElem?_eq_none (Nat.le_of_not_lt hc)] at hf
  cases hf

theorem Answers.cpu_lt {no : Nat} {old : UInt64} (ha : Answers s cpu no old) : cpu < MAX_CPUS := by
  unfold Answers at ha
  split at ha
  · exact cpu_lt_of_flag ha
  · exact cpu_lt_of_flag ha
  · exact cpu_lt_of_flag ha.1
  · exact cpu_lt_of_flag ha.1
  · exact ha.elim

/-- When the counter of the CPU has moved, the request is answered. -/
theorem Answers.answered {no : Nat} {old flag : UInt64} (ha : Answers s cpu no old)
    (hflag : s.region.cfgFlags[cpu]? = some flag) (hne : flag ≠ old) :
    ∃ req v, s.backend.tickets no = .answered req v ∧ s.region.cfgValues[cpu]? = some v := by
  have hmoved : s.region.cfgFlags[cpu]? ≠ some old := fun ho =>
    hne (Option.some.inj (hflag.symm.trans ho))
  unfold Answers at ha
  split at ha
  · exact absurd ha hmoved
  · exact absurd ha hmoved
  · exact absurd ha.1 hmoved
  · next req v ht => exact ⟨req, v, ht, ha.2⟩
  · exact ha.elim

theorem toNat_ofNat_cpu (hc : cpu < MAX_CPUS) : (UInt64.ofNat cpu).toNat = cpu := by
  rw [UInt64.toNat_ofNat']
  exact Nat.mod_eq_of_lt (hc.trans (by decide))

@[simp] theorem request_srcCpu (mmio : MMIOAccess) (ni : UInt8) :
    (P.request cpu mmio ni).srcCpu = UInt64.ofNat cpu := rfl

@[simp] theorem request_needInterrupt (mmio : MMIOAccess) (ni : UInt8) :
    (P.request cpu mmio ni).needInterrupt = ni := rfl

/-- What holds of a CPU is kept by steps that leave its access, its counter and its ticket alone. -/
theorem Local.frame {pc : VirtioPc} (hl : Local P h s cpu pc) (ha : access cpu h' = access cpu h)
    (hr : requestNo cpu h' = requestNo cpu h) (hp : pushes h <+: pushes h')
    (hf : pc.sampled = true → s'.region.cfgFlags[cpu]? = s.region.cfgFlags[cpu]?)
    (hv : pc.loads = true → s'.region.cfgValues[cpu]? = s.region.cfgValues[cpu]?)
    (hans : ∀ no req old, requestNo cpu h = some no → (pushes h)[no]? = some req →
      req.needInterrupt = 0 → req.srcCpu = UInt64.ofNat cpu → Answers s cpu no old →
      Answers s' cpu no old)
    (hdone : ∀ no req v, s.backend.tickets no = .answered req v →
      s'.backend.tickets no = .answered req v) : Local P h' s' cpu pc := by
  have hcalled : ∀ {mmio ni}, Called h cpu mmio ni → Called h' cpu mmio ni := by
    intro mmio ni hc
    rwa [Called, ha]
  have hpushed : ∀ {mmio ni no}, Pushed P h cpu mmio ni no → Pushed P h' cpu mmio ni no := by
    intro mmio ni no hq
    refine ⟨hr.trans hq.1, ?_⟩
    obtain ⟨t, ht⟩ := hp
    rw [← ht, List.getElem?_append_left (List.getElem?_eq_some_iff.mp hq.2).1]
    exact hq.2
  -- what holds at a place is about the call and the ticket, and these are the same afterwards
  cases pc with
  | guest => trivial
  | finishing => trivial
  | panicked => trivial
  | locking mmio ni => exact hcalled hl
  | testing mmio ni => exact hcalled hl
  | dropping mmio ni => exact hcalled hl
  | sampling mmio ni => exact hcalled hl
  | writing mmio ni hreq old => exact ⟨hcalled hl.1, hl.2.1, (hf rfl).trans hl.2.2⟩
  | advancing mmio ni hreq old => exact ⟨hcalled hl.1, hl.2.1, (hf rfl).trans hl.2.2⟩
  | waking mmio ni old =>
    obtain ⟨hc, no, hq, hn⟩ := hl
    refine ⟨hcalled hc, no, hpushed hq, ?_⟩
    intro hz
    exact hans no _ old hq.1 hq.2 hz rfl (hn hz)
  | unlocking mmio ni old =>
    obtain ⟨hc, no, hq, hn⟩ := hl
    refine ⟨hcalled hc, no, hpushed hq, ?_⟩
    intro hz
    exact hans no _ old hq.1 hq.2 hz rfl (hn hz)
  | waiting mmio old count =>
    obtain ⟨hc, no, hq, hn⟩ := hl
    exact ⟨hcalled hc, no, hpushed hq, hans no _ old hq.1 hq.2 rfl rfl hn⟩
  | loading mmio =>
    obtain ⟨hc, hw, no, req, v, hq, ht, hval⟩ := hl
    exact ⟨hcalled hc, hw, no, req, v, hpushed hq, hdone no req v ht, (hv rfl).trans hval⟩
  | returning mmio =>
    obtain ⟨m, base, hacc, no, hq, hn⟩ := hl
    refine ⟨m, base, ha.trans hacc, no, hpushed hq, ?_⟩
    intro hz
    obtain ⟨req, v, ht, hm⟩ := hn hz
    exact ⟨req, v, hdone no req v ht, hm⟩

/-! ## Steps of CPUs -/

namespace CfgInv

theorem init (hs : s.Initial) : CfgInv P [] s where
  cpu c := by
    rw [hs.pc]
    trivial
  count := hs.count
  unread no _ := hs.tickets no
  taken no req ht := by simp [hs.tickets] at ht
  ignored no req ht := by simp [hs.tickets] at ht
  answers no v := by simp [hs.tickets]
  owner no req hp := by simp [pushes] at hp

/-- A step of a CPU keeps the invariant when it leaves the answers alone and does not abandon a
request of the CPU. -/
theorem cpu_move {pc : VirtioPc} (hi : CfgInv P h s) (hb : s'.backend = s.backend)
    (hf : s'.region.cfgFlags = s.region.cfgFlags) (hv : s'.region.cfgValues = s.region.cfgValues)
    (hpc : s'.pc = Function.update s.pc cpu pc)
    (hacc : ∀ c, c ≠ cpu → access c (e :: h) = access c h)
    (hreq : ∀ c, c ≠ cpu → requestNo c (e :: h) = requestNo c h)
    (hpush : pushes h <+: pushes (e :: h)) (hread : reads (e :: h) = reads h)
    (hans : ∀ no v, e ≠ .answer no v) (hcpu : Local P (e :: h) s' cpu pc)
    (hstay : ∀ no, (s.pc cpu).awaits = true → requestNo cpu h = some no → Open s no →
      pc.awaits = true ∧ requestNo cpu (e :: h) = some no)
    (hnew : ∀ no req, (pushes (e :: h))[no]? = some req → (pushes h)[no]? = none →
      req.needInterrupt = 0 → cpu < MAX_CPUS ∧ req.srcCpu = UInt64.ofNat cpu ∧
        pc.awaits = true ∧ requestNo cpu (e :: h) = some no) :
    CfgInv P (e :: h) s' := by
  have hkeep : ∀ {no : Nat} {req : HvisorDeviceReq},
      (pushes h)[no]? = some req → (pushes (e :: h))[no]? = some req := by
    intro no req hq
    obtain ⟨t, ht⟩ := hpush
    rw [← ht, List.getElem?_append_left (List.getElem?_eq_some_iff.mp hq).1]
    exact hq
  have hself : s'.pc cpu = pc := by simp [hpc]
  have hother : ∀ c, c ≠ cpu → s'.pc c = s.pc c := by
    intro c hc
    simp [hpc, hc]
  refine ⟨?_, ?_, ?_, ?_, ?_, ?_, ?_⟩
  · intro c
    by_cases hc : c = cpu
    · subst hc
      rw [hself]
      exact hcpu
    · rw [hother c hc]
      refine (hi.cpu c).frame (hacc c hc) (hreq c hc) hpush ?_ ?_ ?_ ?_
      · intro _
        rw [hf]
      · intro _
        rw [hv]
      · intro no req old _ _ _ _ ha
        simpa only [Answers, hb, hf, hv] using ha
      · rw [hb]
        exact fun _ _ _ => id
  · rw [hb, hread]
    exact hi.count
  · rw [hb]
    exact hi.unread
  · rw [hb]
    intro no req ht
    exact ⟨hkeep (hi.taken no req ht).1, (hi.taken no req ht).2⟩
  · rw [hb]
    intro no req ht
    exact ⟨hkeep (hi.ignored no req ht).1, (hi.ignored no req ht).2⟩
  · intro no v
    rw [hb, ← hi.answers no v, List.mem_cons]
    exact ⟨fun hm => hm.resolve_left (hans no v).symm, .inr⟩
  · -- an open request that awaits its answer is of a CPU that waits for it, the new one included
    intro no req hq hz ho
    have ho' : Open s no := by simpa only [Open, hb] using ho
    cases hold : (pushes h)[no]? with
    | none =>
      obtain ⟨hc, hsrc, haw, hno⟩ := hnew no req hq hold hz
      exact ⟨cpu, hc, hsrc, by rwa [hself], hno⟩
    | some req' =>
      obtain rfl : req' = req := Option.some.inj ((hkeep hold).symm.trans hq)
      obtain ⟨c, hc, hsrc, haw, hno⟩ := hi.owner no req' hold hz ho'
      by_cases he : c = cpu
      · subst he
        obtain ⟨haw', hno'⟩ := hstay no haw hno ho'
        exact ⟨c, hc, hsrc, by rwa [hself], hno'⟩
      · exact ⟨c, hc, hsrc, by rwa [hother c he], (hreq c he).trans hno⟩

/-- A step of a CPU that shows nothing but its return. -/
theorem cpu_silent {pc : VirtioPc} (hi : CfgInv P h s) (he : e = .tau ∨ ∃ m, e = .ret cpu m)
    (hb : s'.backend = s.backend)
    (hf : s'.region.cfgFlags = s.region.cfgFlags) (hv : s'.region.cfgValues = s.region.cfgValues)
    (hpc : s'.pc = Function.update s.pc cpu pc) (hcpu : Local P h s' cpu pc)
    (hstay : ∀ no, (s.pc cpu).awaits = true → requestNo cpu h = some no → Open s no →
      pc.awaits = true) : CfgInv P (e :: h) s' := by
  have key : ∀ {e'}, e' = e → (∀ no v, e' ≠ .answer no v) → (∀ c, access c (e' :: h) = access c h) →
      (∀ c, requestNo c (e' :: h) = requestNo c h) → pushes (e' :: h) = pushes h →
      reads (e' :: h) = reads h → CfgInv P (e :: h) s' := by
    rintro e' rfl hans hacc hreq hpush hread
    refine hi.cpu_move hb hf hv hpc (fun c _ => hacc c) (fun c _ => hreq c)
      (hpush ▸ List.prefix_rfl) hread hans ?_ ?_ ?_
    · refine hcpu.frame (hacc cpu) (hreq cpu) (hpush ▸ List.prefix_rfl) (fun _ => rfl)
        (fun _ => rfl) (fun _ _ _ _ _ _ _ => id) (fun _ _ _ => id)
    · intro no haw hno ho
      exact ⟨hstay no haw hno ho, (hreq cpu).trans hno⟩
    · intro no req hq hn
      rw [hpush, hn] at hq
      cases hq
  rcases he with rfl | ⟨m, rfl⟩
  · exact key rfl nofun (fun _ => rfl) (fun _ => rfl) rfl rfl
  · exact key rfl nofun (fun _ => rfl) (fun _ => rfl) rfl rfl

theorem callStep (hi : CfgInv P h s) {mmio : MMIOAccess} {base : UInt64}
    (hs : callStep s cpu mmio base = some (s', e)) : CfgInv P (e :: h) s' := by
  unfold Hvisor.callStep at hs
  split at hs
  · next hpc =>
    cases hs
    refine hi.cpu_move rfl rfl rfl rfl ?_ ?_ List.prefix_rfl rfl nofun ?_ ?_ ?_
    · intro c hc
      simp [access, hc.symm]
    · intro c hc
      simp [requestNo, hc.symm]
    · exact ⟨mmio, base, by simp [access], rfl, rfl⟩
    · intro no haw
      simp [hpc, VirtioPc.awaits] at haw
    · intro no req hq hn
      cases hn.symm.trans hq
  · cases hs

theorem finishStep (hi : CfgInv P h s) (hs : finishStep s cpu = some (s', e)) :
    CfgInv P (e :: h) s' := by
  unfold Hvisor.finishStep at hs
  split at hs
  · next hpc _ =>
    cases hs
    refine hi.cpu_silent (.inl rfl) rfl rfl rfl rfl trivial ?_
    intro no haw
    simp [hpc, VirtioPc.awaits] at haw
  · cases hs

/-- A CPU pushes its request, which nobody has read. -/
theorem push (hi : CfgInv P h s) (hfifo : reads h <+: pushes h) {mmio : MMIOAccess} {ni : UInt8}
    {hreq : HvisorDeviceReq} {old : UInt64} (hpc : s.pc cpu = .advancing mmio ni hreq old)
    (hs : Hvisor.cpuStep P s cpu = some (s', e)) : CfgInv P (e :: h) s' := by
  have hl := hi.cpu cpu
  rw [hpc] at hl
  obtain ⟨hc, rfl, hold⟩ := hl
  simp only [Hvisor.cpuStep, hpc, Option.some.injEq, Prod.mk.injEq] at hs
  obtain ⟨rfl, rfl⟩ := hs
  have hno : requestNo cpu (.push cpu (P.request cpu mmio ni) :: h) = some (pushes h).length := by
    simp [requestNo]
  refine hi.cpu_move rfl rfl rfl rfl (fun _ _ => rfl) ?_ (List.prefix_append _ _) rfl ?_ ?_ ?_ ?_
  · intro c hc
    simp [requestNo, hc.symm]
  · intro no v heq
    cases heq
  · refine ⟨hc, (pushes h).length, ⟨hno, by simp [pushes]⟩, ?_⟩
    intro _
    -- the new request has not been read, so its answer has not moved the counter
    have hle : s.backend.count ≤ (pushes h).length := hi.count ▸ hfifo.length_le
    simpa [Answers, hi.unread _ hle, VirtioBridge.advanceRear] using hold
  · intro no haw
    simp [hpc, VirtioPc.awaits] at haw
  · intro no req hq hn hz
    have hlen : (pushes h).length ≤ no := List.getElem?_eq_none_iff.mp hn
    have hlt := (List.getElem?_eq_some_iff.mp hq).1
    simp only [pushes, List.length_append, List.length_singleton] at hlt
    obtain rfl : no = (pushes h).length := by omega
    obtain rfl : P.request cpu mmio ni = req := by simpa [pushes] using hq
    exact ⟨cpu_lt_of_flag hold, rfl, by simpa [VirtioPc.awaits] using hz, hno⟩

/-- **A step of a CPU** keeps the invariant. -/
theorem cpuStep (hi : CfgInv P h s) (hfifo : reads h <+: pushes h)
    (hs : cpuStep P s cpu = some (s', e)) : CfgInv P (e :: h) s' := by
  have hl := hi.cpu cpu
  cases hpc : s.pc cpu with
  | guest => simp [Hvisor.cpuStep, hpc] at hs
  | panicked => simp [Hvisor.cpuStep, hpc] at hs
  | locking mmio ni =>
    rw [hpc] at hl
    simp only [Hvisor.cpuStep, hpc] at hs
    split at hs
    · cases hs
      refine hi.cpu_silent (.inl rfl) rfl rfl rfl rfl hl ?_
      simp [hpc, VirtioPc.awaits]
    · cases hs
  | testing mmio ni =>
    rw [hpc] at hl
    simp only [Hvisor.cpuStep, hpc] at hs
    split at hs
    · cases hs
      refine hi.cpu_silent (.inl rfl) rfl rfl rfl rfl hl ?_
      simp [hpc, VirtioPc.awaits]
    · cases hs
      refine hi.cpu_silent (.inl rfl) rfl rfl rfl rfl hl ?_
      simp [hpc, VirtioPc.awaits]
  | dropping mmio ni =>
    rw [hpc] at hl
    simp only [Hvisor.cpuStep, hpc, Option.some.injEq, Prod.mk.injEq] at hs
    obtain ⟨rfl, rfl⟩ := hs
    refine hi.cpu_silent (.inl rfl) rfl rfl rfl rfl hl ?_
    simp [hpc, VirtioPc.awaits]
  | sampling mmio ni =>
    rw [hpc] at hl
    simp only [Hvisor.cpuStep, hpc] at hs
    split at hs
    · next old hold =>
      cases hs
      refine hi.cpu_silent (.inl rfl) rfl rfl rfl rfl ⟨hl, rfl, hold⟩ ?_
      simp [hpc, VirtioPc.awaits]
    · cases hs
      refine hi.cpu_silent (.inl rfl) rfl rfl rfl rfl trivial ?_
      simp [hpc, VirtioPc.awaits]
  | writing mmio ni hreq old =>
    rw [hpc] at hl
    simp only [Hvisor.cpuStep, hpc, Option.some.injEq, Prod.mk.injEq] at hs
    obtain ⟨rfl, rfl⟩ := hs
    refine hi.cpu_silent (.inl rfl) rfl rfl rfl rfl hl ?_
    simp [hpc, VirtioPc.awaits]
  | advancing mmio ni hreq old => exact hi.push hfifo hpc hs
  | waking mmio ni old =>
    rw [hpc] at hl
    simp only [Hvisor.cpuStep, hpc] at hs
    split at hs
    · split at hs
      · cases hs
        refine hi.cpu_silent (.inl rfl) rfl rfl rfl rfl hl ?_
        intro no haw _ _
        rwa [hpc] at haw
      · cases hs
        exact hi.cpu_silent (.inl rfl) rfl rfl rfl rfl trivial (fun _ _ _ _ => rfl)
    · cases hs
      refine hi.cpu_silent (.inl rfl) rfl rfl rfl rfl hl ?_
      intro no haw _ _
      rwa [hpc] at haw
  | unlocking mmio ni old =>
    rw [hpc] at hl
    obtain ⟨hc, no, hq, hn⟩ := hl
    simp only [Hvisor.cpuStep, hpc] at hs
    split at hs
    · next hz =>
      obtain rfl : ni = 0 := beq_iff_eq.mp hz
      cases hs
      exact hi.cpu_silent (.inl rfl) rfl rfl rfl rfl ⟨hc, no, hq, hn rfl⟩ (fun _ _ _ _ => rfl)
    · next hz =>
      cases hs
      obtain ⟨m, base, hacc, rfl, rfl⟩ := hc
      refine hi.cpu_silent (.inl rfl) rfl rfl rfl rfl ⟨m, base, hacc, no, hq, ?_⟩ ?_
      · intro h0
        simp [h0] at hz
      · intro no' haw
        simp [hpc, VirtioPc.awaits] at haw
        simp [haw] at hz
  | waiting mmio old count =>
    rw [hpc] at hl
    obtain ⟨hc, no, hq, hn⟩ := hl
    simp only [Hvisor.cpuStep, hpc] at hs
    split at hs
    · next flag hflag =>
      split at hs
      · cases hs
        exact hi.cpu_silent (.inl rfl) rfl rfl rfl rfl ⟨hc, no, hq, hn⟩ (fun _ _ _ _ => rfl)
      · next hne =>
        -- the counter moved, so the request of this access was answered
        obtain ⟨req, v, ht, hval⟩ := hn.answered hflag (by simpa using hne)
        have hclosed : ∀ no', requestNo cpu h = some no' → ¬ Open s no' := by
          intro no' hno' ho
          obtain rfl : no = no' := Option.some.inj (hq.1.symm.trans hno')
          exact ho req v ht
        split at hs
        · next hw =>
          cases hs
          refine hi.cpu_silent (.inl rfl) rfl rfl rfl rfl ?_ ?_
          · exact ⟨hc, by simpa using hw, no, req, v, hq, ht, hval⟩
          · intro no' _ hno' ho
            exact absurd ho (hclosed no' hno')
        · next hw =>
          cases hs
          obtain ⟨m, base, hacc, rfl, h0⟩ := hc
          rw [h0] at hq
          refine hi.cpu_silent (.inl rfl) rfl rfl rfl rfl ⟨m, base, hacc, no, hq, ?_⟩ ?_
          · intro _
            refine ⟨req, v, ht, ?_⟩
            simp [MMIOAccess.result] at hw ⊢
            simp [hw]
          · intro no' _ hno' ho
            exact absurd ho (hclosed no' hno')
    · cases hs
      exact hi.cpu_silent (.inl rfl) rfl rfl rfl rfl trivial (fun _ _ _ _ => rfl)
  | loading mmio =>
    rw [hpc] at hl
    obtain ⟨hc, hw, no, req, v, hq, ht, hval⟩ := hl
    simp only [Hvisor.cpuStep, hpc] at hs
    split at hs
    · next value hvalue =>
      cases hs
      obtain rfl : value = v := Option.some.inj (hvalue.symm.trans hval)
      obtain ⟨m, base, hacc, rfl, h0⟩ := hc
      rw [h0] at hq
      refine hi.cpu_silent (.inl rfl) rfl rfl rfl rfl ⟨m, base, hacc, no, hq, ?_⟩ ?_
      · intro _
        exact ⟨req, value, ht, by simp [MMIOAccess.result, hw]⟩
      · simp [hpc, VirtioPc.awaits]
    · cases hs
      exact hi.cpu_silent (.inl rfl) rfl rfl rfl rfl trivial (fun _ _ _ _ => rfl)
  | returning mmio =>
    simp only [Hvisor.cpuStep, hpc, Option.some.injEq, Prod.mk.injEq] at hs
    obtain ⟨rfl, rfl⟩ := hs
    refine hi.cpu_silent (.inr ⟨mmio, rfl⟩) rfl rfl rfl rfl trivial ?_
    simp [hpc, VirtioPc.awaits]
  | finishing =>
    simp only [Hvisor.cpuStep, hpc, Option.some.injEq, Prod.mk.injEq] at hs
    obtain ⟨rfl, rfl⟩ := hs
    refine hi.cpu_silent (.inl rfl) rfl rfl rfl rfl trivial ?_
    simp [hpc, VirtioPc.awaits]

/-! ## Steps of the backend -/

/-- A step of the backend that leaves the answers alone. -/
theorem backend_quiet (hi : CfgInv P h s) (hpc : s'.pc = s.pc)
    (hf : s'.region.cfgFlags = s.region.cfgFlags) (hv : s'.region.cfgValues = s.region.cfgValues)
    (hc : s'.backend.count = s.backend.count) (ht : s'.backend.tickets = s.backend.tickets) :
    CfgInv P (.tau :: h) s' := by
  refine ⟨?_, ?_, ?_, ?_, ?_, ?_, ?_⟩
  · intro c
    rw [hpc]
    refine (hi.cpu c).frame rfl rfl List.prefix_rfl ?_ ?_ ?_ ?_
    · exact fun _ => by rw [hf]
    · exact fun _ => by rw [hv]
    · intro no req old _ _ _ _ ha
      simpa only [Answers, ht, hf, hv] using ha
    · rw [ht]
      exact fun _ _ _ => id
  · rw [hc]
    exact hi.count
  · rw [hc, ht]
    exact hi.unread
  · rw [ht]
    exact hi.taken
  · rw [ht]
    exact hi.ignored
  · intro no v
    rw [ht, ← hi.answers no v]
    simp
  · intro no req hq hz ho
    rw [hpc]
    exact hi.owner no req hq hz (by simpa only [Open, ht] using ho)

/-- The backend reads the next request and gives it a ticket. -/
theorem backend_read (hi : CfgInv P h s) {req : HvisorDeviceReq}
    (hnext : (pushes h)[s.backend.count]? = some req) (hpc : s'.pc = s.pc)
    (hr : s'.region = s.region) (hc : s'.backend.count = s.backend.count + 1)
    (ht : s'.backend.tickets = Function.update s.backend.tickets s.backend.count (.ofReq req)) :
    CfgInv P (.read req :: h) s' := by
  have hold : s.backend.tickets s.backend.count = .unread := hi.unread _ le_rfl
  have hne : ∀ {no t}, s.backend.tickets no = t → t ≠ .unread → s'.backend.tickets no = t := by
    rintro no t rfl hn
    rw [ht, Function.update_of_ne]
    rintro rfl
    exact hn hold
  have hnew : s'.backend.tickets s.backend.count = .ofReq req := by simp [ht]
  have hother : ∀ {no}, no ≠ s.backend.count →
      s'.backend.tickets no = s.backend.tickets no := by
    intro no hn
    rw [ht, Function.update_of_ne hn]
  refine ⟨?_, ?_, ?_, ?_, ?_, ?_, ?_⟩
  · intro c
    rw [hpc]
    refine (hi.cpu c).frame rfl rfl List.prefix_rfl ?_ ?_ ?_ ?_
    · exact fun _ => by rw [hr]
    · exact fun _ => by rw [hr]
    · intro no r old _ hq hz _ ha
      by_cases he : no = s.backend.count
      · subst he
        -- the request of a CPU that waits for an answer is no notification
        obtain rfl : r = req := Option.some.inj (hq.symm.trans hnext)
        simp only [Answers, hold] at ha
        simpa only [Answers, hnew, Ticket.ofReq, hz, beq_self_eq_true, if_true, hr] using ha
      · simpa only [Answers, hother he, hr] using ha
    · intro no r v hd
      exact hne hd nofun
  · rw [hc, hi.count]
    simp [reads]
  · intro no hle
    rw [hc] at hle
    rw [hother (by omega)]
    exact hi.unread no (by omega)
  · intro no r hd
    by_cases he : no = s.backend.count
    · subst he
      rw [hnew, Ticket.ofReq] at hd
      split at hd
      · next hz =>
        obtain rfl : req = r := by simpa using hd
        exact ⟨hnext, by simpa using hz⟩
      · simp at hd
    · rw [hother he] at hd
      exact hi.taken no r hd
  · intro no r hd
    by_cases he : no = s.backend.count
    · subst he
      rw [hnew, Ticket.ofReq] at hd
      split at hd
      · cases hd
      · next hz =>
        obtain rfl : req = r := by simpa using hd
        exact ⟨hnext, by simpa using hz⟩
    · rw [hother he] at hd
      exact hi.ignored no r hd
  · intro no v
    have hmem : BridgeEvent.answer no v ∈ BridgeEvent.read req :: h ↔ .answer no v ∈ h := by simp
    rw [hmem, hi.answers no v]
    by_cases he : no = s.backend.count
    · subst he
      rw [hold, hnew, Ticket.ofReq]
      split <;> simp
    · rw [hother he]
  · intro no r hq hz ho
    rw [hpc]
    refine hi.owner no r hq hz ?_
    intro r' v hd
    exact ho r' v (hne hd nofun)

/-- A step towards the answer of one request, which changes the counter and the value of its CPU
only. -/
theorem backend_answer (hi : CfgInv P h s) {no : Nat} {req : HvisorDeviceReq} {t : Ticket}
    {v : UInt64} (hreq : (pushes h)[no]? = some req) (hz : req.needInterrupt = 0)
    (hun : s.backend.tickets no ≠ .unread) (ho : Open s no) (hpc : s'.pc = s.pc)
    (hc : s'.backend.count = s.backend.count)
    (ht : s'.backend.tickets = Function.update s.backend.tickets no t)
    (he : (t = .written req v ∧ e = .tau) ∨ (t = .answered req v ∧ e = .answer no v))
    (hf : ∀ c, c ≠ req.srcCpu.toNat → s'.region.cfgFlags[c]? = s.region.cfgFlags[c]?)
    (hv : ∀ c, c ≠ req.srcCpu.toNat → s'.region.cfgValues[c]? = s.region.cfgValues[c]?)
    (hans : ∀ c old, c < MAX_CPUS → req.srcCpu.toNat = c → Answers s c no old →
      Answers s' c no old) : CfgInv P (e :: h) s' := by
  obtain ⟨cpu, hlt, hsrc, haw, hno⟩ := hi.owner no req hreq hz ho
  have hcpu : req.srcCpu.toNat = cpu := by rw [hsrc, toNat_ofNat_cpu hlt]
  have hnew : s'.backend.tickets no = t := by simp [ht]
  have hother : ∀ {k}, k ≠ no → s'.backend.tickets k = s.backend.tickets k := by
    intro k hk
    rw [ht, Function.update_of_ne hk]
  have hsame : ∀ c, access c (e :: h) = access c h ∧ requestNo c (e :: h) = requestNo c h := by
    intro c
    rcases he with ⟨-, rfl⟩ | ⟨-, rfl⟩ <;> exact ⟨rfl, rfl⟩
  have hpushes : pushes (e :: h) = pushes h := by
    rcases he with ⟨-, rfl⟩ | ⟨-, rfl⟩ <;> rfl
  refine ⟨?_, ?_, ?_, ?_, ?_, ?_, ?_⟩
  · intro c
    rw [hpc]
    -- the CPU of the request waits, so it is neither about to push nor about to read a value
    have hc : (s.pc c).awaits = false → c ≠ req.srcCpu.toNat := by
      rintro hna rfl
      rw [hcpu, haw] at hna
      cases hna
    refine (hi.cpu c).frame (hsame c).1 (hsame c).2 (hpushes ▸ List.prefix_rfl) ?_ ?_ ?_ ?_
    · intro hs
      refine hf c (hc ?_)
      cases hpc : s.pc c <;> first | rfl | simp [hpc, VirtioPc.sampled] at hs
    · intro hs
      refine hv c (hc ?_)
      cases hpc : s.pc c <;> first | rfl | simp [hpc, VirtioPc.loads] at hs
    · intro k r old hk hq _ hrsrc ha
      by_cases hkn : k = no
      · subst hkn
        obtain rfl : req = r := Option.some.inj (hreq.symm.trans hq)
        exact hans c old ha.cpu_lt (by rw [hrsrc, toNat_ofNat_cpu ha.cpu_lt]) ha
      · -- another request is that of another CPU
        have hne : c ≠ req.srcCpu.toNat := by
          rintro rfl
          rw [hcpu, hno] at hk
          exact hkn (Option.some.inj hk).symm
        simpa only [Answers, hother hkn, hf c hne, hv c hne] using ha
    · intro k r v' hd
      rw [hother, hd]
      rintro rfl
      exact ho r v' hd
  · rw [hc, hi.count]
    rcases he with ⟨-, rfl⟩ | ⟨-, rfl⟩ <;> rfl
  · intro k hk
    rw [hc] at hk
    rw [hother, hi.unread k hk]
    rintro rfl
    exact hun (hi.unread k hk)
  · intro k r hd
    rw [hpushes]
    by_cases hkn : k = no
    · subst hkn
      obtain rfl : req = r := by
        rcases he with ⟨rfl, -⟩ | ⟨rfl, -⟩ <;> simpa [hnew] using hd
      exact ⟨hreq, hz⟩
    · rw [hother hkn] at hd
      exact hi.taken k r hd
  · intro k r hd
    rw [hpushes]
    by_cases hkn : k = no
    · subst hkn
      rcases he with ⟨rfl, -⟩ | ⟨rfl, -⟩ <;> simp [hnew] at hd
    · rw [hother hkn] at hd
      exact hi.ignored k r hd
  · intro k w
    have hnone : ∀ w', BridgeEvent.answer no w' ∉ h := by
      intro w' hm
      obtain ⟨r, hd⟩ := (hi.answers no w').mp hm
      exact ho r w' hd
    by_cases hkn : k = no
    · subst hkn
      rcases he with ⟨rfl, rfl⟩ | ⟨rfl, rfl⟩
      · simp [hnew, hnone]
      · simp [hnew, hnone, eq_comm]
    · rw [hother hkn, ← hi.answers k w]
      rcases he with ⟨-, rfl⟩ | ⟨-, rfl⟩ <;> simp [hkn]
  · intro k r hq hrz hok
    rw [hpushes] at hq
    have hok' : Open s k := by
      intro r' v' hd
      by_cases hkn : k = no
      · subst hkn
        exact ho r' v' hd
      · exact hok r' v' ((hother hkn).trans hd)
    obtain ⟨c, hc, hrs, hca, hck⟩ := hi.owner k r hq hrz hok'
    exact ⟨c, hc, hrs, by rwa [hpc], (hsame c).2.trans hck⟩

/-- **A step of the backend** keeps the invariant. -/
theorem backendStep (hi : CfgInv P h s) {op : BackendOp}
    (hfifo : reads (e :: h) <+: pushes (e :: h))
    (hs : backendStep s op = some (s', e)) : CfgInv P (e :: h) s' := by
  cases op with
  | check =>
    simp only [Hvisor.backendStep] at hs
    split at hs
    · split at hs
      · cases hs
        exact hi.backend_quiet rfl rfl rfl rfl rfl
      · cases hs
    · cases hs
  | read =>
    simp only [Hvisor.backendStep] at hs
    split at hs
    · next req _ _ =>
      cases hs
      -- the request that is read next is the next one that was pushed
      have hnext : (pushes h)[s.backend.count]? = some req := by
        obtain ⟨q, hq⟩ := hfifo
        have hq' : reads h ++ [req] ++ q = pushes h := hq
        rw [← hq', hi.count]
        simp
      exact hi.backend_read hnext rfl rfl rfl rfl
    · cases hs
  | advance =>
    simp only [Hvisor.backendStep] at hs
    split at hs
    · cases hs
      exact hi.backend_quiet rfl rfl rfl rfl rfl
    · cases hs
  | writeValue no v =>
    simp only [Hvisor.backendStep] at hs
    split at hs
    · next req ht =>
      cases hs
      obtain ⟨hreq, hz⟩ := hi.taken no req (.inl ht)
      refine hi.backend_answer hreq hz (by simp [ht]) (by simp [Open, ht]) rfl rfl rfl
        (.inl ⟨rfl, rfl⟩) (fun _ _ => rfl) ?_ ?_
      · intro c hc
        exact Vector.getElem?_setIfInBounds_ne hc.symm
      · rintro c old hc rfl ha
        simp only [Answers, ht] at ha
        simp only [Answers, Backend.setTicket, Function.update_self, VirtioBridge.writeCfgValue]
        exact ⟨ha, Vector.getElem?_setIfInBounds_self_of_lt hc⟩
    · cases hs
  | bumpFlag no =>
    simp only [Hvisor.backendStep] at hs
    split at hs
    · next req v ht =>
      cases hs
      obtain ⟨hreq, hz⟩ := hi.taken no req (.inr (.inl ⟨v, ht⟩))
      refine hi.backend_answer hreq hz (by simp [ht]) (by simp [Open, ht]) rfl rfl rfl
        (.inr ⟨rfl, rfl⟩) ?_ (fun _ _ => rfl) ?_
      · intro c hc
        simp only [VirtioBridge.bumpCfgFlag]
        split
        · exact Vector.getElem?_setIfInBounds_ne hc.symm
        · rfl
      · rintro c old hc rfl ha
        simp only [Answers, ht] at ha
        simp only [Answers, Backend.setTicket, Function.update_self, VirtioBridge.bumpCfgFlag, ha.1]
        exact ⟨Vector.getElem?_setIfInBounds_self_of_lt hc, ha.2⟩
    · cases hs
  | needWakeup v =>
    cases hs
    exact hi.backend_quiet rfl rfl rfl rfl rfl

end CfgInv

/-! ## Runs -/

/-- The invariant holds in every run. -/
theorem cfgInv_of_run (r : (virtio P).Run h s) : CfgInv P h s := by
  refine r.invariant (I := CfgInv P) ?_ ?_
  · intro s hs
    exact CfgInv.init hs
  · rintro h s e s' r hi ⟨act, hs⟩
    cases act with
    | call cpu mmio base => exact hi.callStep hs
    | finish cpu => exact hi.finishStep hs
    | cpu cpu => exact hi.cpuStep (reads_prefix_pushes r) hs
    | backend op => exact hi.backendStep (reads_prefix_pushes (.next r ⟨.backend op, hs⟩)) hs

/-- A return is a step of a CPU that is done. -/
theorem pc_of_ret {act : BridgeAction} {m : MMIOAccess}
    (hs : bridgeStep P s act = some (s', .ret cpu m)) : s.pc cpu = .returning m := by
  cases act with
  | call c mmio base =>
    simp only [bridgeStep, callStep] at hs
    grind
  | finish c =>
    simp only [bridgeStep, finishStep] at hs
    grind
  | cpu c =>
    simp only [bridgeStep, cpuStep] at hs
    grind
  | backend op =>
    simp only [bridgeStep, backendStep] at hs
    grind

/-- **A configuration access gets its own answer**: in every run, when an access of a CPU returns
that is no notification, the request that the CPU pushed for it was answered, once, and a read
returns the value of that answer. -/
theorem cfg_access_correlated {m : MMIOAccess} (r : (virtio P).Run (.ret cpu m :: h) s) :
    ∃ mmio base, access cpu h = some (mmio, base) ∧ (mmio.address ≠ QUEUE_NOTIFY →
      ∃ no v, requestNo cpu h = some no ∧
        (pushes h)[no]? = some (P.request cpu (mmio.absolute base) 0) ∧
        .answer no v ∈ h ∧ (∀ v', .answer no v' ∈ h → v' = v) ∧
        m = (mmio.absolute base).result v) := by
  cases r with
  | @next _ s₀ _ _ r hs =>
    obtain ⟨act, hs⟩ := hs
    have hi := cfgInv_of_run r
    have hl := hi.cpu cpu
    rw [pc_of_ret hs] at hl
    obtain ⟨mmio, base, hacc, no, ⟨hno, hreq⟩, hdone⟩ := hl
    refine ⟨mmio, base, hacc, ?_⟩
    intro hn
    have hz := MMIOAccess.notifies_eq_zero.mpr hn
    obtain ⟨req, v, ht, hm⟩ := hdone hz
    refine ⟨no, v, hno, by rwa [hz] at hreq, (hi.answers no v).mpr ⟨req, ht⟩, ?_, hm⟩
    intro v' hv'
    obtain ⟨req', ht'⟩ := (hi.answers no v').mp hv'
    rw [ht] at ht'
    exact (Ticket.answered.inj ht').2.symm

theorem cfg_access_correlated_read :
    ∃ h s, (virtio smallPlatform).Run (.ret 1 ⟨0x1010, 4, false, 7⟩ :: h) s ∧
      ∃ mmio base, access 1 h = some (mmio, base) ∧ (mmio.address ≠ QUEUE_NOTIFY →
        ∃ no v, requestNo 1 h = some no ∧
          (pushes h)[no]? = some (smallPlatform.request 1 (mmio.absolute base) 0) ∧
          .answer no v ∈ h ∧ (∀ v', .answer no v' ∈ h → v' = v) ∧
          ⟨0x1010, 4, false, 7⟩ = (mmio.absolute base).result v) := by
  obtain ⟨⟨h, s⟩, hr, hh⟩ := Option.map_eq_some_iff.mp configReadRun_history
  obtain rfl : h = _ := hh
  have r := virtio_run_of_bridgeRun (.start idleBridge_initial) hr
  exact ⟨_, s, r, cfg_access_correlated r⟩

end Hvisor
