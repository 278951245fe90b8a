import ServerKit.Lib.CInt

/-!
# `util/string.cc`

`vsnprintf` with one format and one argument list is a function of the size it is given: what it
returns, and what the buffer holds afterwards.
-/

namespace ServerKit

open Lib

def kSmallFixedSize : ℤ := 1024

def kMaxAppendSize : ℤ := 33554432

/-- A call of `vsnprintf`, by the size of its buffer. -/
abbrev Vsnprintf := ℤ → ℤ × List UInt8

/-- The size of the buffer of the next round: doubled, or what has been reported and its end. -/
def nextLength (result length : ℤ) : Except IntFault ℤ :=
  if result < 0 then mulInt length 2 else addInt result 1

/-- The loop of `stringAppendV`, or nothing when it has not ended after `rounds` rounds. -/
def appendLoop (vsnprintf : Vsnprintf) (dst : List UInt8) :
    (rounds : ℕ) → (result length : ℤ) → ExceptT IntFault Option (List UInt8)
  | 0, _, _ => none
  | rounds + 1, result, length => do
    let length ← nextLength result length
    if length > kMaxAppendSize then return dst
    let (result, memBuf) := vsnprintf length
    if 0 ≤ result ∧ result < length then return dst ++ memBuf.take result.toNat
    appendLoop vsnprintf dst rounds result length

/-- `stringAppendV`: the string it leaves in `dst`. -/
def stringAppendV (rounds : ℕ) (vsnprintf : Vsnprintf) (dst : List UInt8) :
    ExceptT IntFault Option (List UInt8) :=
  let (result, space) := vsnprintf kSmallFixedSize
  if 0 ≤ result ∧ result < kSmallFixedSize then return dst ++ space.take result.toNat
  else appendLoop vsnprintf dst rounds result kSmallFixedSize

/-- `StringPrintf`. -/
def stringPrintf (rounds : ℕ) (vsnprintf : Vsnprintf) : ExceptT IntFault Option (List UInt8) :=
  stringAppendV rounds vsnprintf []

/-- `StringAppendf`. -/
def stringAppendf (rounds : ℕ) (ret : List UInt8) (vsnprintf : Vsnprintf) :
    ExceptT IntFault Option (List UInt8) :=
  stringAppendV rounds vsnprintf ret

/-- `vsnprintf` as the C standard has it, when the formatted text is `text`. -/
def vsnprintfC (text : List UInt8) : Vsnprintf := fun size =>
  (text.length, text.take (size.toNat - 1) ++ [0])

/-- A lower-case hexadecimal digit. -/
def hexDigit (n : ℕ) : UInt8 := UInt8.ofNat (if n < 10 then 48 + n else 87 + n)

/-- The text of a `uint8_t` under `%x`. -/
def hexText (b : UInt8) : List UInt8 :=
  if b.toNat < 16 then [hexDigit b.toNat] else [hexDigit (b.toNat / 16), hexDigit (b.toNat % 16)]

/-- `StringToHex`. A byte fits into the fixed buffer, so no call of `StringPrintf` gets to its
loop. -/
def stringToHex (str : List UInt8) : ExceptT IntFault Option (List UInt8) :=
  str.foldlM (fun hex b => return hex ++ (← stringPrintf 0 (vsnprintfC (hexText b)))) [48, 120]

end ServerKit
