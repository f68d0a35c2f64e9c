import Hvisor.Lib.TransitionSystem
import Hvisor.Memory.Region

/-!
# The timer of a guest on RISC-V

How riscv64 gives a guest its timer, from `arch/riscv64/sbi.rs`, `arch/riscv64/trap.rs` and
`arch/riscv64/cpu.rs`. With Sstc a hart has a comparator for its guest. Without, the hypervisor sets
the timer of the hart for the guest, and passes the interrupt of that timer on. The start of a guest
resets the comparator, and leaves the timer of the hart as the guest before it has set it.

## Main definitions

* `HartTimer`: the clock and the timer of a hart, and what the CSRs have of them
* `sbiTimeHandler`, `handleTimerInterrupt`, `HartTimer.run`, `HartTimer.idle`: the code
* `TimerAct`, `timerStep`, `timerSystem`: a hart on which guests start and stop
* `lastSet`, `asked`: what was set last on the hart, and what its guest has set
* `TimerInv`: the invariant

## Main results

* `timerInv_step`: what a step preserves
* `guestTimer_exact`: when the interrupt of the timer comes to a guest
-/

namespace Hvisor

/-! ## The code -/

/-- `usize::MAX`, which the clock does not reach. -/
def NEVER : Nat := usizeSize - 1

/-- The clock of a hart, and its timer. `timer` is when the firmware is to raise the interrupt. -/
structure HartTimer where
  time : Nat
  timer : Nat
  /-- The interrupt of the hart is pending. -/
  stip : Bool
  /-- The hypervisor takes it. -/
  stie : Bool
  /-- The hypervisor has set the interrupt of the guest pending. -/
  vstip : Bool
  /-- The comparator of the guest. -/
  vstimecmp : Nat
  /-- A guest has the hart, which is not parked. -/
  powerOn : Bool

/-- What an SBI call returns. -/
structure SbiRet where
  error : Int
  value : Nat

/-- The call succeeded. -/
def RET_SUCCESS : Int := 0
/-- There is no such call. -/
def RET_ERR_NOT_SUPPORTED : Int := -2

/-- The function that sets the timer. -/
def SET_TIMER : Nat := 0

/-- `sbi_rt::set_timer`: the firmware takes back its interrupt, too. -/
def HartTimer.setTimer (t : HartTimer) (stimeValue : BitVec 64) : HartTimer :=
  { t with timer := stimeValue.toNat, stip := false }

/-- `sbi_time_handler`: the timer of the guest, or of the hart, is set. -/
def sbiTimeHandler (sstc : Bool) (fid : Nat) (stimeValue : BitVec 64) (t : HartTimer) :
    SbiRet × HartTimer :=
  if fid ≠ SET_TIMER then (⟨RET_ERR_NOT_SUPPORTED, 0⟩, t)
  else if sstc then (⟨RET_SUCCESS, 0⟩, { t with vstimecmp := stimeValue.toNat })
  else (⟨RET_SUCCESS, 0⟩, { t.setTimer stimeValue with vstip := false, stie := true })

/-- `handle_timer_interrupt`: the interrupt is passed on, and the one of the hart disabled. -/
def handleTimerInterrupt (t : HartTimer) : HartTimer := { t with vstip := true, stie := false }

namespace HartTimer

/-- The timer interrupt of the hart is enabled. -/
def initInterrupt (t : HartTimer) : HartTimer := { t with stie := true }

/-- `HVIP` is zero after it. -/
def resetRegs (sstc : Bool) (t : HartTimer) : HartTimer :=
  { t with vstip := false, vstimecmp := if sstc then NEVER else t.vstimecmp }

/-- `run`: the hart is set up for its guest. -/
def run (sstc : Bool) (t : HartTimer) : HartTimer :=
  { t.initInterrupt.resetRegs sstc with powerOn := true }

/-- `reset_interrupt` sets a bit of `SIE`, and leaves that of the timer as it is. -/
def idle (sstc : Bool) (t : HartTimer) : HartTimer := { t.resetRegs sstc with powerOn := false }

/-- The interrupt of the timer is pending in the guest. -/
def Pending (sstc : Bool) (t : HartTimer) : Prop :=
  t.vstip = true ∨ sstc = true ∧ t.vstimecmp ≤ t.time

end HartTimer

/-! ## The hart -/

/-- What happens to the timer of a hart. -/
inductive TimerAct where
  /-- The clock goes on. -/
  | tick (n : Nat)
  /-- The firmware raises the interrupt of the hart. -/
  | fire
  /-- The hypervisor takes it. -/
  | interrupt
  /-- The guest calls the SBI. -/
  | call (fid : Nat) (stimeValue : BitVec 64)
  /-- The guest writes the comparator that it has. -/
  | writeStimecmp (value : BitVec 64)
  | run
  | idle

/-- A step of the hart. The clock does not get to its last value. -/
def timerStep (sstc : Bool) (t : HartTimer) : TimerAct → Option HartTimer
  | .tick n => if t.time + n < NEVER then some { t with time := t.time + n } else none
  | .fire => if t.timer ≤ t.time then some { t with stip := true } else none
  | .interrupt => if t.stip && t.stie then some (handleTimerInterrupt t) else none
  | .call fid stimeValue =>
    if t.powerOn then some (sbiTimeHandler sstc fid stimeValue t).2 else none
  | .writeStimecmp value =>
    if t.powerOn && sstc then some { t with vstimecmp := value.toNat } else none
  | .run => some (t.run sstc)
  | .idle => some (t.idle sstc)

/-- A hart on which no timer is set and no guest runs yet. -/
def timerSystem (sstc : Bool) : TransitionSystem HartTimer TimerAct :=
  .ofStep (fun t => t.time < NEVER ∧ t.timer = NEVER ∧ t.stip = false ∧ t.vstip = false ∧
    t.powerOn = false) (timerStep sstc)

/-- What the guest sets the timer to. -/
def TimerAct.sets : TimerAct → Option (BitVec 64)
  | .call fid stimeValue => if fid = SET_TIMER then some stimeValue else none
  | .writeStimecmp value => some value
  | _ => none

/-- The guest of the hart is another one after it, or there is none. -/
def TimerAct.switches : TimerAct → Bool
  | .run | .idle => true
  | _ => false

/-- What was set last on the hart; the latest action is first. -/
def lastSet : List TimerAct → Option (BitVec 64)
  | [] => none
  | e :: h => e.sets.or (lastSet h)

/-- What the guest has set last, since it was started. -/
def asked : List TimerAct → Option (BitVec 64)
  | [] => none
  | e :: h => if e.switches then none else e.sets.or (asked h)

/-- The time that is set, if any. -/
def deadline (set : Option (BitVec 64)) : Nat := set.elim NEVER BitVec.toNat

theorem lastSet_of_asked {h : List TimerAct} {v : BitVec 64} (hv : asked h = some v) :
    lastSet h = some v := by
  induction h with
  | nil => cases hv
  | cons e h ih =>
    rw [asked] at hv
    split_ifs at hv
    rw [lastSet]
    cases hsets : e.sets with
    | none =>
      rw [hsets, Option.none_or] at hv
      exact ih hv
    | some v' =>
      rw [hsets, Option.some_or] at hv
      exact hv

/-! ## The invariant -/

/-- **The invariant**: the timers are those of the last setting, and the interrupt is up when it is
due. -/
structure TimerInv (sstc : Bool) (h : List TimerAct) (t : HartTimer) : Prop where
  time_lt : t.time < NEVER
  /-- The hypervisor sets the timer of the hart only where the guest has none of its own. -/
  timer : t.timer = if sstc then NEVER else deadline (lastSet h)
  stip : t.stip = true → t.timer ≤ t.time
  vstip : t.vstip = true → t.stip = true
  /-- The hypervisor waits for the interrupt until it has passed it on. -/
  stie : t.powerOn = true → t.vstip = false → t.stie = true
  vstimecmp : sstc = true → t.powerOn = true → t.vstimecmp = deadline (asked h)

variable {sstc : Bool} {h : List TimerAct} {t t' : HartTimer}

/-- **What a step preserves.** -/
theorem timerInv_step {e : TimerAct} (hs : timerStep sstc t e = some t')
    (hi : TimerInv sstc h t) : TimerInv sstc (e :: h) t' := by
  cases e with
  | tick n =>
    simp only [timerStep, Option.ite_none_right_eq_some, Option.some.injEq] at hs
    obtain ⟨hlt, rfl⟩ := hs
    exact ⟨hlt, hi.timer, fun hp => (hi.stip hp).trans (Nat.le_add_right _ _), hi.vstip, hi.stie,
      hi.vstimecmp⟩
  | fire =>
    simp only [timerStep, Option.ite_none_right_eq_some, Option.some.injEq] at hs
    obtain ⟨hle, rfl⟩ := hs
    exact ⟨hi.time_lt, hi.timer, fun _ => hle, fun _ => rfl, hi.stie, hi.vstimecmp⟩
  | interrupt =>
    simp only [timerStep, Option.ite_none_right_eq_some, Option.some.injEq,
      Bool.and_eq_true] at hs
    obtain ⟨⟨hp, -⟩, rfl⟩ := hs
    exact ⟨hi.time_lt, hi.timer, hi.stip, fun _ => hp, fun _ hv => Bool.noConfusion hv,
      hi.vstimecmp⟩
  | call fid v =>
    simp only [timerStep, Option.ite_none_right_eq_some, Option.some.injEq] at hs
    obtain ⟨hon, rfl⟩ := hs
    rw [sbiTimeHandler]
    split_ifs with hfid hsstc
    -- another function: nothing changes
    · have hsets : (TimerAct.call fid v).sets = none := if_neg hfid
      refine ⟨hi.time_lt, ?_, hi.stip, hi.vstip, hi.stie, ?_⟩
      · rw [lastSet, hsets]
        exact hi.timer
      · simp only [asked, TimerAct.switches, hsets]
        exact hi.vstimecmp
    · have hsets : (TimerAct.call fid v).sets = some v := if_pos (not_not.mp hfid)
      refine ⟨hi.time_lt, ?_, hi.stip, hi.vstip, hi.stie, fun _ _ => ?_⟩
      · exact hi.timer.trans (by rw [if_pos hsstc, if_pos hsstc])
      · simp only [asked, TimerAct.switches, hsets]
        rfl
    · have hsets : (TimerAct.call fid v).sets = some v := if_pos (not_not.mp hfid)
      refine ⟨hi.time_lt, ?_, fun hp => Bool.noConfusion hp, fun hp => Bool.noConfusion hp,
        fun _ _ => rfl, fun h => absurd h hsstc⟩
      rw [if_neg hsstc, lastSet, hsets]
      rfl
  | writeStimecmp v =>
    simp only [timerStep, Option.ite_none_right_eq_some, Option.some.injEq,
      Bool.and_eq_true] at hs
    obtain ⟨⟨-, hsstc⟩, rfl⟩ := hs
    refine ⟨hi.time_lt, ?_, hi.stip, hi.vstip, hi.stie, fun _ _ => rfl⟩
    exact hi.timer.trans (by rw [if_pos hsstc, if_pos hsstc])
  | run =>
    cases hs
    refine ⟨hi.time_lt, hi.timer, hi.stip, fun hp => Bool.noConfusion hp, fun _ _ => rfl,
      fun hsstc _ => ?_⟩
    exact if_pos hsstc
  | idle =>
    cases hs
    exact ⟨hi.time_lt, hi.timer, hi.stip, fun hp => Bool.noConfusion hp,
      fun hp => Bool.noConfusion hp, fun _ hp => Bool.noConfusion hp⟩

theorem timerInv_of_run (r : (timerSystem sstc).Run h t) : TimerInv sstc h t := by
  refine TransitionSystem.Run.invariant ?_ (fun _ _ _ _ _ hi hs => timerInv_step hs hi) r
  rintro t ⟨hlt, htimer, hstip, hvstip, hoff⟩
  refine ⟨hlt, ?_, fun hp => ?_, fun hp => ?_, fun hp => ?_, fun _ hp => ?_⟩
  · rw [htimer]
    split_ifs <;> rfl
  · rw [hstip] at hp
    cases hp
  · rw [hvstip] at hp
    cases hp
  · rw [hoff] at hp
    cases hp
  · rw [hoff] at hp
    cases hp

/-! ## What a guest gets -/

/-- Where the interrupt of a guest comes from. -/
def timerSource (sstc : Bool) (h : List TimerAct) : Option (BitVec 64) :=
  if sstc then asked h else lastSet h

theorem timerSource_of_asked {v : BitVec 64} (hv : asked h = some v) :
    timerSource sstc h = some v := by
  rw [timerSource]
  split_ifs
  · exact hv
  · exact lastSet_of_asked hv

namespace TimerInv

/-- An interrupt is not early. -/
theorem deadline_le (hi : TimerInv sstc h t) (hon : t.powerOn = true) (hp : t.Pending sstc) :
    deadline (timerSource sstc h) ≤ t.time := by
  have htimer := hi.timer
  rcases hp with hv | ⟨hsstc, hle⟩
  · have hle := hi.stip (hi.vstip hv)
    rw [timerSource]
    split_ifs at htimer ⊢ with hsstc
    -- the timer of the hart is not set
    · have := hi.time_lt
      omega
    · rwa [htimer] at hle
  · rw [hi.vstimecmp hsstc hon] at hle
    rwa [timerSource, if_pos hsstc]

/-- An interrupt is not lost: the firmware can raise it, and the hypervisor takes it. -/
theorem exists_pending (hi : TimerInv sstc h t) (hon : t.powerOn = true)
    (hle : deadline (timerSource sstc h) ≤ t.time) :
    ∃ more t', (∀ e ∈ more, e = .fire ∨ e = .interrupt) ∧
      ((timerSystem sstc).startingAt t).Run more t' ∧ t'.Pending sstc := by
  cases hv : t.vstip with
  | true => exact ⟨[], t, by simp, .start rfl, .inl hv⟩
  | false =>
    have htimer := hi.timer
    rw [timerSource] at hle
    split_ifs at htimer hle with hsstc
    · exact ⟨[], t, by simp, .start rfl, .inr ⟨hsstc, (hi.vstimecmp hsstc hon).trans_le hle⟩⟩
    · have hfire : timerStep sstc t .fire = some { t with stip := true } :=
        if_pos (htimer.trans_le hle)
      have hstie := hi.stie hon hv
      have hint : timerStep sstc { t with stip := true } .interrupt =
          some (handleTimerInterrupt { t with stip := true }) := by
        simp only [timerStep, hstie, Bool.and_self, if_true]
      exact ⟨[.interrupt, .fire], _, by simp, .next (.next (.start rfl) hfire) hint, .inl rfl⟩

end TimerInv

/-- The guest stays, and does not set the timer. -/
def Unasked (more : List TimerAct) : Prop := ∀ e ∈ more, e.sets = none ∧ e.switches = false

theorem asked_append {more : List TimerAct} (hq : Unasked more) : asked (more ++ h) = asked h := by
  induction more with
  | nil => rfl
  | cons e more ih =>
    obtain ⟨⟨hsets, hswitches⟩, hq⟩ := List.forall_mem_cons.mp hq
    rw [List.cons_append, asked, hswitches, hsets, Option.none_or]
    exact ih hq

theorem lastSet_append {more : List TimerAct} (hq : Unasked more) :
    lastSet (more ++ h) = lastSet h := by
  induction more with
  | nil => rfl
  | cons e more ih =>
    obtain ⟨⟨hsets, -⟩, hq⟩ := List.forall_mem_cons.mp hq
    rw [List.cons_append, lastSet, hsets, Option.none_or]
    exact ih hq

theorem powerOn_of_timerStep {e : TimerAct} (hs : timerStep sstc t e = some t')
    (he : e.switches = false) : t'.powerOn = t.powerOn := by
  cases e with
  | run => cases he
  | idle => cases he
  | call fid v =>
    simp only [timerStep, Option.ite_none_right_eq_some, Option.some.injEq] at hs
    obtain ⟨-, rfl⟩ := hs
    rw [sbiTimeHandler]
    split_ifs <;> rfl
  | _ =>
    simp only [timerStep, Option.ite_none_right_eq_some, Option.some.injEq] at hs
    obtain ⟨-, rfl⟩ := hs
    rfl

theorem powerOn_of_unasked {more : List TimerAct}
    (r : ((timerSystem sstc).startingAt t).Run more t') (hq : Unasked more) :
    t'.powerOn = t.powerOn := by
  induction r with
  | start hi => rw [hi]
  | next r hs ih =>
    obtain ⟨⟨-, hswitches⟩, hq⟩ := List.forall_mem_cons.mp hq
    rw [powerOn_of_timerStep hs hswitches]
    exact ih hq

/-- A guest that has not set the timer gets an interrupt of one that was set before it. -/
theorem TimerInv.stray {v : BitVec 64} (hi : TimerInv false h t) (hon : t.powerOn = true)
    (hv : lastSet h = some v) (hne : v.toNat ≠ NEVER) :
    ∃ more t', Unasked more ∧ ((timerSystem false).startingAt t).Run more t' ∧
      t'.Pending false := by
  have hlt : v.toNat < NEVER := lt_of_le_of_ne (Nat.le_pred_of_lt v.isLt) hne
  have htime := hi.time_lt
  -- the clock goes on until then
  have htick : timerStep false t (.tick (v.toNat - t.time)) =
      some { t with time := t.time + (v.toNat - t.time) } := if_pos (by omega)
  have hle : deadline (timerSource false (.tick (v.toNat - t.time) :: h)) ≤
      t.time + (v.toNat - t.time) := by
    rw [timerSource, if_neg Bool.false_ne_true, lastSet, hv]
    change v.toNat ≤ _
    omega
  have r : ((timerSystem false).startingAt t).Run [.tick (v.toNat - t.time)]
      { t with time := t.time + (v.toNat - t.time) } := .next (.start rfl) htick
  obtain ⟨more, t', hmore, r', hp⟩ := (timerInv_step htick hi).exists_pending hon hle
  refine ⟨more ++ [.tick (v.toNat - t.time)], t', fun e he => ?_, r.append r', hp⟩
  rcases List.mem_append.mp he with he | he
  · rcases hmore e he with rfl | rfl <;> exact ⟨rfl, rfl⟩
  · rw [List.mem_singleton.mp he]
    exact ⟨rfl, rfl⟩

/-- **The timer of a guest**: in every run of a hart, the interrupt of a guest that has set the
timer is never early, and comes when the firmware and the hypervisor take their steps; a guest that
has not set it can get an interrupt exactly where it has no comparator of its own, and a guest
before it has left the timer set. -/
theorem guestTimer_exact (r : (timerSystem sstc).Run h t) (hon : t.powerOn = true) :
    (∀ v, asked h = some v → (t.Pending sstc → v.toNat ≤ t.time) ∧
      (v.toNat ≤ t.time → ∃ more t', (∀ e ∈ more, e = .fire ∨ e = .interrupt) ∧
        ((timerSystem sstc).startingAt t).Run more t' ∧ t'.Pending sstc)) ∧
    (asked h = none →
      ((∃ more t', Unasked more ∧ ((timerSystem sstc).startingAt t).Run more t' ∧
          t'.Pending sstc) ↔
        sstc = false ∧ ∃ v, lastSet h = some v ∧ v.toNat ≠ NEVER)) := by
  have hi := timerInv_of_run r
  refine ⟨fun v hv => ?_, fun hnone => ⟨?_, ?_⟩⟩
  · have hsource : deadline (timerSource sstc h) = v.toNat := by
      rw [timerSource_of_asked hv]
      rfl
    rw [← hsource]
    exact ⟨hi.deadline_le hon, hi.exists_pending hon⟩
  · rintro ⟨more, t', hq, r', hp⟩
    have hi' := timerInv_of_run (r.append r')
    have hle := hi'.deadline_le ((powerOn_of_unasked r' hq).trans hon) hp
    have hlt := hle.trans_lt hi'.time_lt
    rw [timerSource, asked_append hq, lastSet_append hq, hnone] at hlt
    split_ifs at hlt with hsstc
    · exact absurd hlt (lt_irrefl _)
    · refine ⟨Bool.eq_false_of_not_eq_true hsstc, ?_⟩
      cases hlast : lastSet h with
      | none =>
        rw [hlast] at hlt
        exact absurd hlt (lt_irrefl _)
      | some v =>
        rw [hlast] at hlt
        exact ⟨v, rfl, hlt.ne⟩
  · rintro ⟨rfl, v, hv, hne⟩
    exact hi.stray hon hv hne

/-- A hart that is parked, and whose timer is not set. -/
def unsetHart : HartTimer where
  time := 0
  timer := NEVER
  stip := false
  stie := false
  vstip := false
  vstimecmp := 0
  powerOn := false

/-- A guest sets the timer, and another one is started on its hart. -/
def startsAfterSet : List TimerAct := [.run, .call SET_TIMER 10, .idle, .run]

theorem guestTimer_exact_startsAfterSet : ∃ t more t',
    (timerSystem false).Run (startsAfterSet.reverse ++ []) t ∧ asked startsAfterSet.reverse = none ∧
      Unasked more ∧ ((timerSystem false).startingAt t).Run more t' ∧ t'.Pending false := by
  have r : (timerSystem false).Run (startsAfterSet.reverse ++ []) _ :=
    .exec (timerStep false) (fun _ _ => true) (fun _ _ _ _ hs => hs)
      (.start (s := unsetHart) ⟨by decide, rfl, rfl, rfl, rfl⟩) rfl
  obtain ⟨more, t', hq, r', hp⟩ :=
    ((guestTimer_exact r rfl).2 rfl).mpr ⟨rfl, 10, rfl, by decide⟩
  exact ⟨_, more, t', r, rfl, hq, r', hp⟩

end Hvisor
