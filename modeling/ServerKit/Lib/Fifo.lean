import ServerKit.Lib.Lts

/-!
# First-in first-out queues

The abstract queue that buffers and pipes implement: values are put at the end and taken from the
front. `Fifo.conservation` is what it is for: what has been taken, followed by what is still queued,
is what has been put, in order.
-/

namespace ServerKit.Lib

universe u

/-- What happens at a queue, with what the caller gets back. -/
inductive FifoEvent (α : Type u)
  /-- The values are put, and `k` is reported as their number. -/
  | put (xs : List α) (k : Nat)
  /-- At most `n` values are asked for, `k` is reported as the number taken, and `xs` are the
  values. -/
  | take (n k : Nat) (xs : List α)
deriving DecidableEq, Repr

namespace FifoEvent

variable {α : Type u}

/-- The values put, in order. -/
def written : List (FifoEvent α) → List α
  | [] => []
  | put xs _ :: es => xs ++ written es
  | take _ _ _ :: es => written es

/-- The values taken, in order. -/
def taken : List (FifoEvent α) → List α
  | [] => []
  | put _ _ :: es => taken es
  | take _ _ xs :: es => xs ++ taken es

end FifoEvent

/-- The unbounded queue: everything put is accepted, and a request is met with as many values as
there are. -/
inductive FifoStep {α : Type u} : List α → FifoEvent α → List α → Prop
  | put (q xs : List α) : FifoStep q (.put xs xs.length) (q ++ xs)
  | take (q : List α) (n : Nat) : FifoStep q (.take n (min n q.length) (q.take n)) (q.drop n)

/-- **Conservation**: nothing is lost, duplicated or reordered. -/
theorem FifoStep.conservation {α : Type u} {q q' : List α} {es : List (FifoEvent α)}
    (h : Run FifoStep q es q') : FifoEvent.taken es ++ q' = q ++ FifoEvent.written es := by
  induction h with
  | nil => simp [FifoEvent.taken, FifoEvent.written]
  | cons hstep _ ih =>
    cases hstep with
    | put xs => rw [FifoEvent.taken, FifoEvent.written, ih, List.append_assoc]
    | take n =>
      rw [FifoEvent.taken, FifoEvent.written, List.append_assoc, ih, ← List.append_assoc,
        List.take_append_drop]

end ServerKit.Lib
