import ServerKit.Base.Buffer
import ServerKit.Lib.Bytes
import Mathlib.Algebra.Group.Int.Defs

/-!
# `base/hash.h`, `base/hash.cc`, and `HashString` of `util/string.cc`

The machine is little-endian. The length goes through an `int`, so it may be negative.
-/

namespace ServerKit

open Lib

def kServerKitHashSeed : UInt64 := 0xbeef

/-- `m` of `MurmurHash64A`. -/
def murmurM : UInt64 := 0xc6a4a7935bd1e995

/-- What the loop of `MurmurHash64A` does to a block `k` before it goes into `h`. -/
def murmurBlock (k : UInt64) : UInt64 :=
  let k := k * murmurM
  let k := k ^^^ (k >>> 47)
  k * murmurM

/-- The loop of `MurmurHash64A` over `n` blocks: `h`, and the bytes from `data2` on. -/
def murmurBlocks : ℕ → UInt64 → List UInt8 → UInt64 × List UInt8
  | 0, h, data => (h, data)
  | n + 1, h, data =>
    murmurBlocks n ((h ^^^ murmurBlock (bytesWord (data.take 8))) * murmurM) (data.drop 8)

/-- The `switch` of `MurmurHash64A`, from `case n` on. -/
def murmurTail (data2 : List UInt8) : ℕ → UInt64 → UInt64
  | 0, h => h
  | 1, h => (h ^^^ (data2.getD 0 0).toUInt64) * murmurM
  | n + 2, h =>
    murmurTail data2 (n + 1) (h ^^^ ((data2.getD (n + 1) 0).toUInt64 <<<
      UInt64.ofNat (8 * (n + 1))))

/-- The end of `MurmurHash64A`. -/
def murmurFinish (h : UInt64) : UInt64 :=
  let h := h ^^^ (h >>> 47)
  let h := h * murmurM
  h ^^^ (h >>> 47)

/-- `MurmurHash64A`. With `end` in front of `data` the loop runs out of the memory of the key. -/
def murmurHash64A (key : List UInt8) (len : ℤ) (seed : UInt64) : Except Fault UInt64 :=
  let h := seed ^^^ (UInt64.ofNat (len % 2 ^ 64).toNat * murmurM)
  if len.tdiv 8 < 0 then .error .outOfBounds
  else
    let (h, data2) := murmurBlocks (len.tdiv 8).toNat h key
    .ok (murmurFinish (murmurTail data2 (len % 8).toNat h))

/-- `HashBytes`. -/
def hashBytes (data : List UInt8) (size : ℤ) : Except Fault UInt64 :=
  murmurHash64A data size kServerKitHashSeed

/-- `HashString`. -/
def hashString (str : List UInt8) : Except Fault UInt64 :=
  hashBytes str (Int.bmod str.length (2 ^ 32))

end ServerKit
