import ServerKit.Rpc.RpcSystem

/-!
# A server that makes calls

`RpcSession` is a protobuf channel as well: with `RpcSession::CallMethod` code of the server calls
methods over the connection of a client. Both sides count the guids of their calls from 1.
-/

namespace ServerKit

open Lib

/-- `RpcSession::CallMethod`, with the status of the socket and `allocate_guid_`: the controller,
unless the socket is closed, `allocate_guid_`, and the session. -/
def RpcSession.callMethod {T Msg : Type} (pb : Protobuf T Msg) (s : RpcSession T)
    (status : SocketStatus) (allocateGuid : UInt64) (method : MethodDescriptor T) (request : Msg)
    (context : RequestContext) : Except Fault (Option RpcController × UInt64 × RpcSession T) :=
  if status = .closed then .ok (none, allocateGuid, s)
  else do
    let callGuid := allocateGuid + 1
    let packet ← Packet.new pb callGuid (some method) request
    let s := { s with requestContext := Function.update s.requestContext callGuid (some context) }
    let s ← s.sendPacket packet
    return (some ⟨s.guid, callGuid⟩, callGuid, s)

/-- A client, and a server whose session makes calls. The `j`-th of these has the objects with
address `j`; `objects` is what their response objects hold, and `runs` how often each done closure
has been run. `inService` of the system says that code of the server's user runs, the done closure
of a call of the session included. -/
structure TwoWay (T Msg : Type) where
  system : RpcSystem T Msg
  allocateGuid : UInt64
  calls : List (RpcCall T Msg)
  objects : ℕ → Msg
  runs : ℕ → ℕ

/-- A step of the two sides. -/
inductive TwoWayEvent (T Msg : Type)
  /-- A step without a call of the session. -/
  | base (e : RpcEvent T Msg)
  /-- `RpcSession::CallMethod`, with the initial value of the response object. -/
  | sessionCall (method : MethodDescriptor T) (request response : Msg)
  /-- `RpcSession::OnRead` runs the done closure of a call of the session. -/
  | sessionResponse

namespace TwoWay

variable {T Msg : Type}

/-- A new channel, and a new session of the service. -/
def new (service : RpcService T) (guid : UInt64) (object objects : ℕ → Msg) : TwoWay T Msg where
  system := .new service guid object
  allocateGuid := 0
  calls := []
  objects := objects
  runs := fun _ => 0

def setSystem (t : TwoWay T Msg) (system : RpcSystem T Msg) : TwoWay T Msg :=
  { t with system := system }

/-- The context of the next call of the session: its objects. -/
def nextContext (t : TwoWay T Msg) : RequestContext :=
  ⟨t.calls.length, t.calls.length, t.calls.length⟩

/-- A call of the session has been accepted. -/
def addCall (t : TwoWay T Msg) (allocateGuid : UInt64) (call : RpcCall T Msg) (response : Msg) :
    TwoWay T Msg :=
  { t with
    allocateGuid := allocateGuid
    calls := t.calls ++ [call]
    objects := Function.update t.objects t.calls.length response }

/-- Writes a response object, and runs the done closure of its call. -/
def run (t : TwoWay T Msg) (context : RequestContext) (value : Msg) : TwoWay T Msg :=
  { t with
    objects := Function.update t.objects context.response value
    runs := Function.update t.runs context.done (t.runs context.done + 1) }

end TwoWay

/-- One step of one side, or of the transport. -/
inductive TwoWayStep {T Msg : Type} (pb : Protobuf T Msg) : Lts (TwoWay T Msg) (TwoWayEvent T Msg)
  | base {t : TwoWay T Msg} {e : RpcEvent T Msg} {system : RpcSystem T Msg} :
      RpcStep pb t.system e system → TwoWayStep pb t (.base e) (t.setSystem system)
  -- the id of the method is not 0
  | sessionCall {t : TwoWay T Msg} {status : SocketStatus} {method : MethodDescriptor T}
      {request response : Msg} {controller : RpcController} {allocateGuid : UInt64}
      {session : RpcSession T} : t.system.ServicesRun → hashString method.fullName ≠ .ok 0 →
      t.system.session.callMethod pb status t.allocateGuid method request t.nextContext =
        .ok (some controller, allocateGuid, session) →
      TwoWayStep pb t (.sessionCall method request response)
        ((t.setSystem (t.system.setSession session)).addCall allocateGuid
          ⟨method, request, controller⟩ response)
  | sessionCallClosed {t : TwoWay T Msg} {status : SocketStatus} {method : MethodDescriptor T}
      {request response : Msg} {allocateGuid : UInt64} {session : RpcSession T} :
      t.system.ServicesRun →
      t.system.session.callMethod pb status t.allocateGuid method request t.nextContext =
        .ok (none, allocateGuid, session) →
      TwoWayStep pb t (.sessionCall method request response) t
  | sessionResponse {t : TwoWay T Msg} {session session' : RpcSession T} {context : RequestContext}
      {ret : Bool} {value : Msg} : t.system.serverReads = true → t.system.inService = false →
      t.system.session.recvPacket = .ok (true, session) →
      session.onPacket pb t.objects session.parser.getPacket =
        (.response context ret value, session') →
      TwoWayStep pb t .sessionResponse
        ((t.setSystem ((t.system.setSession session').setInService true)).run context value)

end ServerKit
