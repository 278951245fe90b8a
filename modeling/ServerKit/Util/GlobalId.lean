import Mathlib.Algebra.Group.Nat.Defs

/-!
# `util/global_id.cc`

`newRandom` hashes the clock and the seed that it keeps; nothing else reads that seed. Its values
are the sequence `random`, and the generator's part of it is the number of values taken so far.
-/

namespace ServerKit

def kLog2NumIDsInBatch : ℕ := 12

def kNumIDsInBatch : BitVec 32 := 1#32 <<< kLog2NumIDsInBatch

def kBatchMask : BitVec 32 := kNumIDsInBatch - 1

/-- `idGenerator`. -/
structure IdGenerator where
  upperBits : BitVec 64
  lowerBits : BitVec 32
  increment : BitVec 32
  remaining : BitVec 32
  draws : ℕ
deriving DecidableEq, Repr

namespace IdGenerator

/-- A `thread_local` generator before its first use. -/
def zero : IdGenerator where
  upperBits := 0
  lowerBits := 0
  increment := 0
  remaining := 0
  draws := 0

/-- The sum of two `int`s, unless it overflows. -/
def addInt (a b : BitVec 32) : Option (BitVec 32) :=
  if a.saddOverflow b then none else some (a + b)

/-- The difference of two `int`s, unless it overflows. -/
def subInt (a b : BitVec 32) : Option (BitVec 32) :=
  if a.ssubOverflow b then none else some (a - b)

variable (random : ℕ → BitVec 64)

/-- `newRandom`. -/
def newRandom (g : IdGenerator) : BitVec 64 × IdGenerator :=
  (random g.draws, { g with draws := g.draws + 1 })

/-- `reset`. An `int` operand beside a `uint64_t` is sign-extended. -/
def reset (g : IdGenerator) : IdGenerator :=
  let (v, g) := g.newRandom random
  let g := { g with
    upperBits := v &&& (~~~ kBatchMask).signExtend 64
    lowerBits := (v &&& kBatchMask.signExtend 64).truncate 32 }
  let (r, g) := g.newRandom random
  let g := { g with increment := (r &&& kBatchMask.signExtend 64).truncate 32 }
  let g := { g with increment := g.increment ||| 1 }
  { g with remaining := kNumIDsInBatch }

/-- `NewID`. -/
def newID (g : IdGenerator) : Option (BitVec 64 × IdGenerator) := do
  let g := if g.remaining = 0 then g.reset random else g
  let remaining ← subInt g.remaining 1
  let sum ← addInt g.lowerBits g.increment
  let g := { g with remaining, lowerBits := sum &&& kBatchMask }
  return (g.upperBits ||| g.lowerBits.signExtend 64, g)

/-- `n` calls of `NewID` on a new thread: the ids, oldest first, and the generator. -/
def newIDs : ℕ → Option (List (BitVec 64) × IdGenerator)
  | 0 => some ([], zero)
  | n + 1 => do
    let (ids, g) ← newIDs n
    let (id, g) ← g.newID random
    return (ids ++ [id], g)

end IdGenerator

end ServerKit
