import ServerKit.Rpc.RpcChannel
import ServerKit.Rpc.RpcService

/-!
# `rpc/rpc_session.h`, `rpc/rpc_session.cc`

The server side of RPC. The session hands a request to the service of its method, and a closure that
sends the response. The service may run that closure before its `CallMethod` returns, or later.
-/

namespace ServerKit

open Lib

/-- `responseContext`, without the response message, which the service fills in. -/
structure ResponseContext (Msg : Type) where
  channelGuid : UInt64
  guid : UInt64
  request : Msg

/-- `RpcSession`, with the parts of its `socket_` and `parser_` that it uses. `sent` is the history
of `SendPacket`. -/
structure RpcSession (T : Type) where
  guid : UInt64
  requestContext : UInt64 → Option RequestContext
  service : RpcService T
  parser : PacketParser
  readList : List UInt8
  writeList : List UInt8
  sent : List Packet

/-- What `RpcSession::OnRead` does with a packet, up to a call of other code. -/
inductive SessionAction (T Msg : Type)
  | skip
  /-- `meta->GetService()->CallMethod(&meta->GetMethodDescriptor(), …)`. -/
  | callService (method : RpcMeta T) (context : ResponseContext Msg)
  /-- `context->Run()`, with whether the content was parsed, and what the response object holds. -/
  | response (context : RequestContext) (ret : Bool) (value : Msg)

namespace RpcSession

variable {T Msg : Type} (pb : Protobuf T Msg)

/-- `RpcSession::RpcSession` and `SetService`. -/
def new (service : RpcService T) : RpcSession T where
  guid := 0
  requestContext := fun _ => none
  service := service
  parser := .new
  readList := []
  writeList := []
  sent := []

/-- `parser_->SendPacket(packet)`. -/
def sendPacket (s : RpcSession T) (packet : Packet) : Except Fault (RpcSession T) := do
  let writeList ← PacketParser.sendPacket byteQueue s.writeList packet
  return { s with writeList := writeList, sent := s.sent ++ [packet] }

/-- `RpcSession::RunService`. -/
def runService (s : RpcSession T) (packet : Packet) (channelGuid : UInt64) : SessionAction T Msg :=
  match s.service.getService packet.methodId with
  | none => .skip
  | some method =>
    let (ret, request) := pb.parse method.method.inputType packet.content
    if !ret then .skip
    else .callService method ⟨channelGuid, packet.guid, request⟩

/-- The body of the loop of `RpcSession::OnRead`, up to a call of other code. `object` is what the
response objects of the calls of the session hold. -/
def onPacket (s : RpcSession T) (object : ℕ → Msg) (packet : Packet) :
    SessionAction T Msg × RpcSession T :=
  if packet.methodId ≠ 0 then (s.runService pb packet s.guid, s)
  else
    match s.requestContext packet.guid with
    | none => (.skip, s)
    | some context =>
      let (ret, value) := pb.parse (pb.typeOf (object context.response)) packet.content
      (.response context ret value,
        { s with requestContext := Function.update s.requestContext packet.guid none })

/-- `RpcSession::onResponse`; `response` is what the service has put into the response message. -/
def onResponse (s : RpcSession T) (context : ResponseContext Msg) (response : Msg) :
    Except Fault (RpcSession T) := do
  let packet ← Packet.new pb context.guid none response
  s.sendPacket packet

/-- `parser_->RecvPacket()`: whether there is a packet. -/
def recvPacket (s : RpcSession T) : Except Fault (Bool × RpcSession T) := do
  let (ret, parser, readList) ← PacketParser.recvPacket byteQueue s.parser s.readList
  return (ret, { s with parser := parser, readList := readList })

end RpcSession

end ServerKit
