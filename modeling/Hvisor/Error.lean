import Mathlib.Tactic.TypeStar

/-!
# Errors and panics

The POSIX-style error of the hypervisor's `HvResult`, and the two ways a computation ends without
a value: it returns an error to its caller, or it panics (a failed assertion, an `unwrap` on
`None`, an arithmetic overflow of the debug build). A panic stops the CPU for good, so no caller
sees it.

## Main definitions

* `HvErrorNum`, `HvError`: the errors
* `Fault`: an error or a panic
* `hexStr`: a number as the log prints it
-/

namespace Hvisor

/-- POSIX errno. -/
inductive HvErrorNum where
  | EPERM | ENOENT | Eio | E2BIG | ENOMEM | EFAULT | EBUSY | EEXIST | ENODEV | EINVAL | ERANGE
  | ENOSYS
  deriving DecidableEq, Repr

/-- An error with its message; the source location that the macro adds is left out. -/
structure HvError where
  num : HvErrorNum
  msg : Option String
  deriving DecidableEq, Repr

/-- How a computation ends without a value. -/
inductive Fault (ε : Type*) where
  | err (e : ε)
  | panic
  deriving DecidableEq, Repr

/-- `hv_err!(num)`. -/
def hvErr (num : HvErrorNum) : Fault HvError := .err ⟨num, none⟩

/-- `hv_err!(num, msg)`. -/
def hvErrMsg (num : HvErrorNum) (msg : String) : Fault HvError := .err ⟨num, some msg⟩

/-- A number in the format of `{:#x}`. -/
def hexStr (n : Nat) : String := "0x" ++ String.ofList (Nat.toDigits 16 n)

end Hvisor
