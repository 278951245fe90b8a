import Mathlib.Algebra.Group.Nat.Defs
import Mathlib.Data.Int.Notation

/-!
# `core/signaler.h`, `core/signaler.cc`

A `Signaler` is an eventfd in non-blocking mode, which is a counter. `Send` writes to it and the
receiver's poll reports it while it is positive.
-/

namespace ServerKit

/-- The largest value of an eventfd counter. -/
def maxEventfd : ℕ := 2 ^ 64 - 2

/-- `write` of the value `v` to an eventfd: the new counter, or `none` when it fails, with `EINVAL`
or with `EAGAIN`. -/
def eventfdWrite (counter : ℕ) (v : UInt64) : Option ℕ :=
  if maxEventfd < v.toNat then none
  else if maxEventfd < counter + v.toNat then none
  else some (counter + v.toNat)

/-- `read` from an eventfd: the new counter, or `none` when it fails with `EAGAIN`. -/
def eventfdRead (counter : ℕ) : Option ℕ := if 0 < counter then some 0 else none

namespace Signaler

/-- `Signaler::Send` when `write` is not interrupted. `dummy` is the value its local variable,
which nothing initialises, happens to have. A `write` that fails changes nothing. -/
def send (counter : ℕ) (dummy : UInt64) : ℕ := (eventfdWrite counter dummy).getD counter

/-- `Signaler::Wait`: poll fails, times out, or reports a positive counter. -/
def Wait (counter : ℕ) (rc : ℤ) : Prop := rc = -1 ∨ rc = 0 ∨ rc = 1 ∧ 0 < counter

/-- `Signaler::RecvFailable`: what it returns, and the new counter. -/
def recvFailable (counter : ℕ) : ℤ × ℕ :=
  match eventfdRead counter with
  | some counter => (8, counter)
  | none => (-1, counter)

end Signaler

end ServerKit
