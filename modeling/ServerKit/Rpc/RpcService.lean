import ServerKit.Rpc.Protobuf
import Mathlib.Logic.Function.Basic

/-!
# `rpc/rpc_service.h`, `rpc/rpc_service.cc`, `rpc/rpc_meta.h`

The methods a server has, by the hashes of their names.
-/

namespace ServerKit

/-- A `gpb::Service*`. -/
abbrev ServicePtr := ℕ

/-- A `gpb::Service` with the methods of its descriptor. -/
structure Service (T : Type) where
  ptr : ServicePtr
  methods : List (MethodDescriptor T)

/-- `RpcMeta`. -/
structure RpcMeta (T : Type) where
  service : ServicePtr
  method : MethodDescriptor T
deriving DecidableEq, Repr

/-- `RpcService`. -/
structure RpcService (T : Type) where
  methodMap : UInt64 → Option (RpcMeta T)

namespace RpcService

variable {T : Type}

def new (T : Type) : RpcService T where
  methodMap := fun _ => none

/-- `RpcService::GetService`. -/
def getService (s : RpcService T) (methodId : UInt64) : Option (RpcMeta T) := s.methodMap methodId

/-- One iteration of the loop of `RpcService::Register`. -/
def registerMethod (s : RpcService T) (service : ServicePtr) (method : MethodDescriptor T) :
    Except Fault (RpcService T) := do
  let methodId ← hashString method.fullName
  if (s.methodMap methodId).isSome then .error .assertion
  else return { methodMap := Function.update s.methodMap methodId (some ⟨service, method⟩) }

/-- The loop of `RpcService::Register`. -/
def registerMethods (s : RpcService T) (service : ServicePtr) :
    List (MethodDescriptor T) → Except Fault (RpcService T)
  | [] => .ok s
  | method :: methods => do
    let s ← s.registerMethod service method
    s.registerMethods service methods

/-- `RpcService::Register`. -/
def register (s : RpcService T) (service : Service T) : Except Fault (RpcService T) :=
  s.registerMethods service.ptr service.methods

/-- `Register` for one service after another. -/
def registerAll (s : RpcService T) : List (Service T) → Except Fault (RpcService T)
  | [] => .ok s
  | service :: services => do
    let s ← s.register service
    s.registerAll services

end RpcService

end ServerKit
