import ServerKit.Lib.Bytes

/-!
# `util/lookup8.cc`

Three ways to hash a key of any length to 64 bits, on a little-endian machine. `hash` puts its words
together from bytes, `hash2` takes a key of words, and `hash3` reads words where the key is aligned.
-/

namespace ServerKit

open Lib

namespace Lookup8

/-- `a`, `b` and `c`. -/
structure State where
  a : UInt64
  b : UInt64
  c : UInt64
deriving DecidableEq, Repr

/-- The `mix64` macro. -/
def mix64 (s : State) : State :=
  let ⟨a, b, c⟩ := s
  let a := a - b - c ^^^ c >>> 43
  let b := b - c - a ^^^ a <<< 9
  let c := c - a - b ^^^ b >>> 8
  let a := a - b - c ^^^ c >>> 38
  let b := b - c - a ^^^ a <<< 23
  let c := c - a - b ^^^ b >>> 5
  let a := a - b - c ^^^ c >>> 35
  let b := b - c - a ^^^ a <<< 49
  let c := c - a - b ^^^ b >>> 11
  let a := a - b - c ^^^ c >>> 12
  let b := b - c - a ^^^ a <<< 18
  let c := c - a - b ^^^ b >>> 22
  ⟨a, b, c⟩

/-- "Set up the internal state". -/
def start (level : UInt64) : State := ⟨level, level, 0x9e3779b97f4a7c13⟩

/-- `k[i]+((ub8)k[i+1]<<8)+...`: the word of eight bytes. -/
def byteWord (k : List UInt8) (i : ℕ) : UInt64 :=
  (k.getD i 0).toUInt64 + (k.getD (i + 1) 0).toUInt64 <<< 8 +
    (k.getD (i + 2) 0).toUInt64 <<< 16 + (k.getD (i + 3) 0).toUInt64 <<< 24 +
    (k.getD (i + 4) 0).toUInt64 <<< 32 + (k.getD (i + 5) 0).toUInt64 <<< 40 +
    (k.getD (i + 6) 0).toUInt64 <<< 48 + (k.getD (i + 7) 0).toUInt64 <<< 56

/-- `*(ub8 *)(k+i)`. -/
def wordAt (k : List UInt8) (i : ℕ) : UInt64 := bytesWord ((k.drop i).take 8)

/-- "Handle most of the key": `n` rounds of the loop, whose words `word` reads. -/
def blocks (word : List UInt8 → ℕ → UInt64) : ℕ → State → List UInt8 → State × List UInt8
  | 0, s, k => (s, k)
  | n + 1, s, k =>
    blocks word n (mix64 ⟨s.a + word k 0, s.b + word k 8, s.c + word k 16⟩) (k.drop 24)

/-- "Handle the last 23 bytes": the `switch`, from `case n` on. The first byte of `c` is reserved
for the length. -/
def tail (k : List UInt8) : ℕ → State → State
  | 0, s => s
  | n + 1, s =>
    let b := (k.getD n 0).toUInt64
    tail k n <|
      if n < 8 then { s with a := s.a + b <<< UInt64.ofNat (8 * n) }
      else if n < 16 then { s with b := s.b + b <<< UInt64.ofNat (8 * (n - 8)) }
      else { s with c := s.c + b <<< UInt64.ofNat (8 * (n - 15)) }

/-- The state of `hash` and of `hash3` where it reports the result. -/
def finish (word : List UInt8 → ℕ → UInt64) (k : List UInt8) (level : UInt64) : State :=
  let (s, rest) := blocks word (k.length / 24) (start level) k
  mix64 (tail rest (k.length % 24) { s with c := s.c + UInt64.ofNat k.length })

/-- `hash`. -/
def hash (k : List UInt8) (level : UInt64) : UInt64 := (finish byteWord k level).c

/-- The loop of `hash2`. -/
def blocks2 : ℕ → State → List UInt64 → State × List UInt64
  | 0, s, k => (s, k)
  | n + 1, s, k =>
    blocks2 n (mix64 ⟨s.a + k.getD 0 0, s.b + k.getD 1 0, s.c + k.getD 2 0⟩) (k.drop 3)

/-- The `switch` of `hash2`, from `case n` on. -/
def tail2 (k : List UInt64) : ℕ → State → State
  | 2, s => { s with b := s.b + k.getD 1 0, a := s.a + k.getD 0 0 }
  | 1, s => { s with a := s.a + k.getD 0 0 }
  | _, s => s

/-- `hash2`. -/
def hash2 (k : List UInt64) (level : UInt64) : UInt64 :=
  let (s, rest) := blocks2 (k.length / 3) (start level) k
  (mix64 (tail2 rest (k.length % 3) { s with c := s.c + UInt64.ofNat k.length <<< 3 })).c

/-- `hash3` of a key at `address`. -/
def hash3 (address : ℕ) (k : List UInt8) (level : UInt64) : UInt64 :=
  if address &&& 7 ≠ 0 then (finish byteWord k level).c else (finish wordAt k level).c

end Lookup8

end ServerKit
