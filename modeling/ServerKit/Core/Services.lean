import ServerKit.Base.Endpoint
import ServerKit.Rpc.RpcService

/-!
# The services of `core/application.h`, `core/application.cc`

`AddService` and `AddRpcService` keep one Listener for each address, and a Listener keeps its
handler. A handler is an `RpcService` or one of the user's; the user's own are no `RpcService`s.
-/

namespace ServerKit

/-- An `AcceptorHandler*`. -/
inductive AcceptorHandler (T : Type)
  | rpc (service : RpcService T)
  | user (handler : ℕ)

/-- `listeners_`: the handler of the Listener of an address. -/
structure Listeners (T : Type) where
  handler : List UInt8 → Option (AcceptorHandler T)

/-- A call of `AddService` or of `AddRpcService`. `listens` tells whether `Listen` returns `kOK`,
should it be called. -/
inductive ServiceCall (T : Type)
  | addService (endpoint : Endpoint) (handler : ℕ) (listens : Bool)
  | addRpcService (endpoint : Endpoint) (service : Service T) (listens : Bool)

namespace Listeners

variable {T : Type}

def new (T : Type) : Listeners T where
  handler := fun _ => none

def setHandler (s : Listeners T) (address : List UInt8) (handler : AcceptorHandler T) :
    Listeners T :=
  { handler := Function.update s.handler address (some handler) }

/-- `new Listener(endpoint, this, handler)`, stored in `listeners_`. -/
def listen (s : Listeners T) (address : List UInt8) (handler : AcceptorHandler T) (listens : Bool) :
    Except Fault (Listeners T) :=
  if listens then .ok (s.setHandler address handler) else .error .assertion

/-- `Application::AddService`. -/
def addService (s : Listeners T) (endpoint : Endpoint) (handler : ℕ) (listens : Bool) :
    Except Fault (Listeners T) :=
  let address := endpoint.str
  if (s.handler address).isSome then .error .assertion
  else s.listen address (.user handler) listens

/-- `static_cast<RpcService*>(handler)->Register(service)`, for the handler of the Listener of the
address. Behind a handler of the user's there is no `method_map_`. -/
def register (s : Listeners T) (address : List UInt8) (service : Service T) :
    Except Fault (Listeners T) :=
  match s.handler address with
  | none => .error .nullPointer
  | some (.user _) => .error .outOfBounds
  | some (.rpc rpcService) => do
    let rpcService ← rpcService.register service
    return s.setHandler address (.rpc rpcService)

/-- `Application::AddRpcService`. -/
def addRpcService (s : Listeners T) (endpoint : Endpoint) (service : Service T) (listens : Bool) :
    Except Fault (Listeners T) := do
  let address := endpoint.str
  let s ← if (s.handler address).isNone then s.listen address (.rpc (.new T)) listens else .ok s
  s.register address service

def call (s : Listeners T) : ServiceCall T → Except Fault (Listeners T)
  | .addService endpoint handler listens => s.addService endpoint handler listens
  | .addRpcService endpoint service listens => s.addRpcService endpoint service listens

/-- One call after another. -/
def calls (s : Listeners T) : List (ServiceCall T) → Except Fault (Listeners T)
  | [] => .ok s
  | c :: cs => do
    let s ← s.call c
    s.calls cs

end Listeners

end ServerKit
