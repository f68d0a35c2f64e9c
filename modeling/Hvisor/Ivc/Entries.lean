import Hvisor.Ivc.Peers

/-!
# What the records say of zones

A zone that becomes a peer of a shared memory has an entry in its record, under the peer id of its
configuration. The record takes any peer id, also that of another zone, which then has no entry any
more.

## Main definitions

* `FreeEntries`: a creation leaves the entries of other zones alone
* `Named`: each zone has an entry for each of its configurations

## Main results

* `Creation.peerInfo?`: what the records say of peers after `ivc_init`
* `Named.create`, `Named.elsewhere`: zones keep their entries
-/

namespace Hvisor

open MemorySet TransitionSystem

variable {φ : Type} {env : StartEnv φ}

/-- **What the records say of a peer** after `ivc_init`: that it is the new zone, when one of its
configurations says so, or what they said before. -/
theorem Creation.peerInfo? {s : StartState φ} {config : HvZoneConfig} {configs : List HvIvcConfig}
    {done : Bool} {run₀ run : IvcRun φ} (h : Creation env s config configs done run₀ run)
    (id p : Nat) :
    (∃ c ∈ s.joins env config, (c.ivcId = id ∧ c.peerId = p) ∧
        peerInfo? run.records id p = some (.fromConfig c config.zoneId)) ∨
      (∀ c ∈ s.joins env config, ¬ (c.ivcId = id ∧ c.peerId = p)) ∧
        peerInfo? run.records id p = peerInfo? s.ivc.records id p := by
  apply h.rule (P := fun acc run =>
    (∃ c ∈ acc, (c.ivcId = id ∧ c.peerId = p) ∧
        Hvisor.peerInfo? run.records id p = some (.fromConfig c config.zoneId)) ∨
      (∀ c ∈ acc, ¬ (c.ivcId = id ∧ c.peerId = p)) ∧
        Hvisor.peerInfo? run.records id p = Hvisor.peerInfo? s.ivc.records id p)
  · rw [h.records]
    exact .inr ⟨nofun, rfl⟩
  · intro acc c rec s₁ s₂ _ hs hstep
    rw [hstep.peerInfo?_records]
    by_cases hkey : c.ivcId = id ∧ c.peerId = p
    · -- the entry is that of this configuration
      refine .inl ⟨c, List.mem_append_right _ (List.mem_singleton_self c), hkey, ?_⟩
      rw [if_pos ⟨hkey.1.symm, hkey.2.symm⟩]
    · rw [if_neg fun he => hkey ⟨he.1.symm, he.2.symm⟩]
      rcases hs with ⟨c', hc', hs⟩ | ⟨hno, hs⟩
      · exact .inl ⟨c', List.mem_append_left _ hc', hs⟩
      · refine .inr ⟨fun c' hc' => ?_, hs⟩
        rcases List.mem_append.mp hc' with hc' | hc'
        · exact hno c' hc'
        · obtain rfl := List.mem_singleton.mp hc'
          exact hkey

/-- **The creation leaves the entries of other zones alone**: where the new zone becomes a peer, the
record names no zone that is there. -/
def FreeEntries (env : StartEnv φ) (s : IvcHistory φ) (config : HvZoneConfig) : Prop :=
  ∀ c ∈ s.state.joins env config, ∀ info,
    peerInfo? s.state.ivc.records c.ivcId c.peerId = some info →
    ∀ z, (s.state.spaces z).isSome → (s.state.machine.zones z).id ≠ info.zoneId

/-- **Each zone has an entry** for each of its configurations. -/
def Named (s : IvcHistory φ) : Prop :=
  ∀ z, (s.state.spaces z).isSome → ∀ c ∈ s.joined z, ∃ info,
    peerInfo? s.state.ivc.records c.ivcId c.peerId = some info ∧
      info.zoneId = (s.state.machine.zones z).id

section Steps

variable {s s' : IvcHistory φ} {config : HvZoneConfig}

theorem named_of_init (hs : (ivcHistory env).init s) : Named s := by
  intro z hz
  rw [hs.1] at hz
  cases hz

theorem Named.elsewhere (hn : Named s) (he : Elsewhere s.state s'.state)
    (hj : s'.joined = s.joined) :
    Named s' := by
  intro z hz c hc
  obtain ⟨zone', hz⟩ := Option.isSome_iff_exists.mp hz
  obtain ⟨zone, hzone, hid, -⟩ := he.zone z zone' hz
  rw [he.ivc, hid]
  rw [hj] at hc
  exact hn z (hzone ▸ rfl) c hc

theorem Named.create (hn : Named s)
    (hfree : s.state.machine.findZone config.zoneId = some none → FreeEntries env s config)
    (hs : s.create env config = some s') : Named s' := by
  rcases create_cases hs with rfl | ⟨configs, done, run₀, run, hc, hivc, hres⟩
  · exact hn
  have hfree := hfree hc.fresh
  have hrecs : s'.state.ivc.records = run.records := congrArg IvcTables.records hivc
  -- the entries of the zones that are there stay
  have hold : ∀ z, (s.state.spaces z).isSome → ∀ c ∈ s.joined z, ∃ info,
      peerInfo? run.records c.ivcId c.peerId = some info ∧
        info.zoneId = (s.state.machine.zones z).id := by
    intro z hz c hcz
    obtain ⟨info, hinfo, hid⟩ := hn z hz c hcz
    rcases hc.peerInfo? c.ivcId c.peerId with ⟨c', hc', ⟨hivcId, hpeer⟩, -⟩ | ⟨-, hsame⟩
    · rw [← hivcId, ← hpeer] at hinfo
      exact absurd hid.symm (hfree c' hc' info hinfo z hz)
    · exact ⟨info, hsame.trans hinfo, hid⟩
  rcases hres with ⟨hspaces, hmachine, -, hj⟩ | ⟨zone, -, hspaces, -, -, -, hids, hj, -⟩
  · intro z hz c hcz
    rw [hrecs, hmachine]
    rw [hspaces] at hz
    rw [hj] at hcz
    exact hold z hz c hcz
  · intro z hz c hcz
    rw [hrecs, hids]
    rw [hj, Function.update_apply] at hcz
    rw [hspaces, Function.update_apply] at hz
    by_cases hnew : z = s.state.machine.nextZone
    · rw [if_pos hnew] at hcz ⊢
      rcases hc.peerInfo? c.ivcId c.peerId with ⟨c', -, -, hinfo⟩ | ⟨hno, -⟩
      · exact ⟨_, hinfo, rfl⟩
      · exact absurd ⟨rfl, rfl⟩ (hno c hcz)
    · rw [if_neg hnew] at hcz hz ⊢
      exact hold z hz c hcz

end Steps

/-- The two peers are created one after the other, and neither finds an entry of its own. -/
theorem exists_pair_steps : ∃ s₁ s zone₁ zone₂,
    (noZones 0x40000000).create (ivcBoard true) (ivcZone 0 0 (pairConfig 0) []) = some s₁ ∧
    s₁.create (ivcBoard true) (ivcZone 1 1 (pairConfig 1) []) = some s ∧
    ((noZones 0x40000000).state.joins (ivcBoard true) (ivcZone 0 0 (pairConfig 0) []) =
      [pairConfig 0] ∧
      s₁.state.joins (ivcBoard true) (ivcZone 1 1 (pairConfig 1) []) = [pairConfig 1] ∧
      peerInfo? s₁.state.ivc.records 7 1 = none) ∧
    s.state.spaces 0 = some zone₁ ∧ s.state.spaces 1 = some zone₂ ∧
      s.joined 0 = [pairConfig 0] ∧ s.joined 1 = [pairConfig 1] := by
  obtain ⟨s, zone₁, zone₂, hs, hpair⟩ := exists_pair
  have hfirst : ((IvcHistory.create (ivcBoard true) (noZones 0x40000000)
      (ivcZone 0 0 (pairConfig 0) [])).map fun s₁ =>
        ((noZones 0x40000000).state.joins (ivcBoard true) (ivcZone 0 0 (pairConfig 0) []),
          s₁.state.joins (ivcBoard true) (ivcZone 1 1 (pairConfig 1) []),
          peerInfo? s₁.state.ivc.records 7 1)) =
      some ([pairConfig 0], [pairConfig 1], none) := by decide +kernel
  obtain ⟨s₁, hs₁, hfirst⟩ := Option.map_eq_some_iff.mp hfirst
  simp only [Prod.mk.injEq] at hfirst
  simp only [createAll, pairZones, List.foldlM_cons, List.foldlM_nil, hs₁, Option.bind_eq_bind,
    Option.bind_some, Option.pure_def, Option.bind_fun_some] at hs
  exact ⟨s₁, s, zone₁, zone₂, hs₁, hs, hfirst, hpair⟩

end Hvisor
