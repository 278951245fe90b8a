import ServerKit.Util.String
import ServerKit.Lib.Decimal

/-!
# `base/endpoint.h`
-/

namespace ServerKit

open Lib

/-- `Endpoint`. -/
structure Endpoint where
  addr : List UInt8
  port : UInt16
  str : List UInt8
deriving DecidableEq, Repr

namespace Endpoint

/-- `addr.c_str()`, as `%s` reads it. -/
def cStr (addr : List UInt8) : List UInt8 := addr.takeWhile (· ≠ 0)

/-- `"%s:%d"`. -/
def format (addr : List UInt8) (port : UInt16) : List UInt8 :=
  cStr addr ++ 0x3a :: decimal port.toNat

/-- `Endpoint::Endpoint()`, which leaves `str_` empty. -/
def new : Endpoint where
  addr := []
  port := 0
  str := []

/-- `Endpoint::Endpoint(addr, port)`, and `Endpoint::Init`. `StringPrintf` needs one round of its
loop at most. -/
def init (addr : List UInt8) (port : UInt16) : ExceptT IntFault Option Endpoint := do
  let str ← stringPrintf 1 (vsnprintfC (format addr port))
  return { addr, port, str }

/-- `operator==`. -/
def eq (a b : Endpoint) : Bool := a.port = b.port && a.str = b.str

end Endpoint

end ServerKit
