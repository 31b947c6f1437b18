import Mathlib
import Huicpp.Cxx.Prog

/-!
# Cxx.FdSet

The sets that `select` takes: an array of `FD_SETSIZE` bits with the descriptors as indices. The macros
that write and read a bit do not check the index.
-/

namespace Cxx

def FD_SETSIZE : Int := 1024

/-- The array has a bit for this descriptor. -/
def InFdSet (fd : Int) : Prop := 0 ≤ fd ∧ fd < FD_SETSIZE

instance (fd : Int) : Decidable (InFdSet fd) := inferInstanceAs (Decidable (_ ∧ _))

/-- `FD_ZERO` -/
def fdZero : Int → Bool := fun _ => false

/-- `FD_SET` -/
def fdSet (fd : Int) (fds : Int → Bool) : Outcome (Int → Bool) :=
  if InFdSet fd then pure (Function.update fds fd true) else .undef .outOfBounds

/-- `FD_ISSET` -/
def fdIsset (fd : Int) (fds : Int → Bool) : Outcome Bool :=
  if InFdSet fd then pure (fds fd) else .undef .outOfBounds

variable {fd : Int}

theorem fdSet_ok (h : InFdSet fd) (fds : Int → Bool) :
    fdSet fd fds = .ok (Function.update fds fd true) := if_pos h

theorem fdSet_undef (h : ¬ InFdSet fd) (fds : Int → Bool) : fdSet fd fds = .undef .outOfBounds := if_neg h

theorem fdIsset_ok (h : InFdSet fd) (fds : Int → Bool) : fdIsset fd fds = .ok (fds fd) := if_pos h

end Cxx
