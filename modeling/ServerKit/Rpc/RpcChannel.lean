import ServerKit.Core.Socket
import ServerKit.Lib.Lts
import ServerKit.Rpc.PacketParser
import ServerKit.Rpc.Protobuf

/-!
# `rpc/rpc_channel.h`, `rpc/rpc_channel.cc`, `rpc/request_context.h`

The client side of RPC, with its socket as two byte queues and a status. Response objects and done
closures are named by addresses; the user has one of each for every call.
-/

namespace ServerKit

open Lib

/-- `RequestContext`. -/
structure RequestContext where
  controller : ℕ
  response : ℕ
  done : ℕ
deriving DecidableEq, Repr

/-- `RpcController`, as `Init` leaves it. -/
structure RpcController where
  channelGuid : UInt64
  callGuid : UInt64
deriving DecidableEq, Repr

/-- `RpcChannel`, with the parts of its `socket_` and `parser_` that it uses. `sent` is the history
of `SendPacket`. -/
structure RpcChannel where
  guid : UInt64
  allocateGuid : UInt64
  packetQueue : List Packet
  requestContext : UInt64 → Option RequestContext
  status : SocketStatus
  parser : PacketParser
  readList : List UInt8
  writeList : List UInt8
  sent : List Packet

namespace RpcChannel

variable {T Msg : Type} (pb : Protobuf T Msg)

/-- `RpcChannel::RpcChannel`. -/
def new (guid : UInt64) : RpcChannel where
  guid := guid
  allocateGuid := 0
  packetQueue := []
  requestContext := fun _ => none
  status := .init
  parser := .new
  readList := []
  writeList := []
  sent := []

/-- `++allocate_guid_`. -/
def incAllocateGuid (ch : RpcChannel) : RpcChannel :=
  { ch with allocateGuid := ch.allocateGuid + 1 }

/-- Writes `request_context_` at a key, or erases the key. -/
def setContext (ch : RpcChannel) (guid : UInt64) (context : Option RequestContext) : RpcChannel :=
  { ch with requestContext := Function.update ch.requestContext guid context }

def setStatus (ch : RpcChannel) (status : SocketStatus) : RpcChannel := { ch with status := status }

def setPacketQueue (ch : RpcChannel) (packetQueue : List Packet) : RpcChannel :=
  { ch with packetQueue := packetQueue }

/-- `parser_->SendPacket(packet)`. -/
def sendPacket (ch : RpcChannel) (packet : Packet) : Except Fault RpcChannel := do
  let writeList ← PacketParser.sendPacket byteQueue ch.writeList packet
  return { ch with writeList := writeList, sent := ch.sent ++ [packet] }

/-- `RpcChannel::pushRequestToQueue`: the controller, and the channel. -/
def pushRequestToQueue (ch : RpcChannel) (method : MethodDescriptor T) (request : Msg)
    (context : RequestContext) : Except Fault (RpcController × RpcChannel) := do
  let ch := ch.incAllocateGuid
  let callGuid := ch.allocateGuid
  let packet ← Packet.new pb callGuid (some method) request
  let ch := ch.setPacketQueue (ch.packetQueue ++ [packet])
  return (⟨ch.guid, callGuid⟩, ch.setContext callGuid (some context))

/-- `Socket::Connect` of `socket_`; `err` is what `ConnectAsync` returns. `OnConnect` of the channel
only logs an error. -/
def connect (ch : RpcChannel) (err : ℤ) : RpcChannel :=
  if ch.status ≠ .init then ch
  else
    let ch := ch.setStatus .connecting
    if err = kOK then ch else ch.setStatus .closed

/-- `RpcChannel::CallMethod`: the controller, unless the socket is closed, and the channel. -/
def callMethod (ch : RpcChannel) (method : MethodDescriptor T) (request : Msg)
    (context : RequestContext) (err : ℤ) : Except Fault (Option RpcController × RpcChannel) :=
  match ch.status with
  | .closed => .ok (none, ch)
  | .connected => do
    let ch := ch.incAllocateGuid
    let callGuid := ch.allocateGuid
    let packet ← Packet.new pb callGuid (some method) request
    let ch := ch.setContext callGuid (some context)
    let ch ← ch.sendPacket packet
    return (some ⟨ch.guid, callGuid⟩, ch)
  | .init => do
    let (controller, ch) ← ch.pushRequestToQueue pb method request context
    return (some controller, ch.connect err)
  | .connecting => do
    let (controller, ch) ← ch.pushRequestToQueue pb method request context
    return (some controller, ch)

/-- One iteration of the loop of `RpcChannel::OnConnect(kOK)`, or its end. -/
def onConnectStep (ch : RpcChannel) : Except Fault (Option RpcChannel) :=
  match ch.packetQueue with
  | [] => .ok none
  | packet :: rest => do
    let ch ← ch.sendPacket packet
    return some (ch.setPacketQueue rest)

/-- The body of the loop of `RpcChannel::OnRead`, up to `context->Run()`. `object` is what the
response objects hold. With the context of the packet come whether its content was parsed, and what
the response object holds then. The contexts in the map are never NULL. -/
def onPacket (ch : RpcChannel) (object : ℕ → Msg) (packet : Packet) :
    Option (RequestContext × Bool × Msg) × RpcChannel :=
  if packet.methodId ≠ 0 then (none, ch)
  else
    match ch.requestContext packet.guid with
    | none => (none, ch)
    | some context =>
      let ret := pb.parse (pb.typeOf (object context.response)) packet.content
      (some (context, ret), ch.setContext packet.guid none)

/-- `parser_->RecvPacket()`: whether there is a packet. -/
def recvPacket (ch : RpcChannel) : Except Fault (Bool × RpcChannel) := do
  let (ret, parser, readList) ← PacketParser.recvPacket byteQueue ch.parser ch.readList
  return (ret, { ch with parser := parser, readList := readList })

end RpcChannel

/-! ## A channel and its user -/

/-- An accepted call. -/
structure RpcCall (T Msg : Type) where
  method : MethodDescriptor T
  request : Msg
  controller : RpcController

namespace RpcClient

/-- What runs on the client. -/
inductive Pc
  /-- Nothing of the channel. -/
  | idle
  /-- `OnConnect(kOK)`. -/
  | onConnect
  /-- The done closure of a call, in `OnRead`. -/
  | done (k : ℕ)
deriving DecidableEq, Repr

end RpcClient

/-- A channel and its user. The `k`-th call has the objects with address `k`; `object` is what the
response objects hold, `runs` how often each done closure has been run, and `calls` the accepted
calls in order. -/
structure RpcClient (T Msg : Type) where
  channel : RpcChannel
  pc : RpcClient.Pc
  object : ℕ → Msg
  runs : ℕ → ℕ
  calls : List (RpcCall T Msg)

/-- A step of the client. -/
inductive ClientEvent (T Msg : Type)
  /-- `CallMethod`, with the initial value of the response object. -/
  | call (method : MethodDescriptor T) (request response : Msg) (err : ℤ)
  /-- `Socket::Out` makes the socket connected and calls `OnConnect(kOK)`. -/
  | out
  /-- `OnConnect` sends a packet of the queue. -/
  | sendQueued
  /-- `OnConnect` returns. -/
  | connected
  /-- `OnRead` gets a packet. -/
  | packet (packet : Packet)
  /-- The done closure returns. -/
  | ret

namespace RpcClient

variable {T Msg : Type}

/-- A new channel. `object` is what the memory of the response objects holds. -/
def new (guid : UInt64) (object : ℕ → Msg) : RpcClient T Msg where
  channel := .new guid
  pc := .idle
  object := object
  runs := fun _ => 0
  calls := []

def setChannel (c : RpcClient T Msg) (channel : RpcChannel) : RpcClient T Msg :=
  { c with channel := channel }

def setPc (c : RpcClient T Msg) (pc : Pc) : RpcClient T Msg := { c with pc := pc }

/-- Writes a response object. -/
def setObject (c : RpcClient T Msg) (k : ℕ) (value : Msg) : RpcClient T Msg :=
  { c with object := Function.update c.object k value }

/-- Runs a done closure. -/
def run (c : RpcClient T Msg) (k : ℕ) : RpcClient T Msg :=
  { c with runs := Function.update c.runs k (c.runs k + 1), pc := .done k }

/-- The context of the next call: its objects. -/
def nextContext (c : RpcClient T Msg) : RequestContext :=
  ⟨c.calls.length, c.calls.length, c.calls.length⟩

/-- User code runs: between two events, or as a done closure. -/
def UserRuns (c : RpcClient T Msg) : Prop := c.pc ≠ .onConnect

/-- A call has been accepted. -/
def addCall (c : RpcClient T Msg) (call : RpcCall T Msg) : RpcClient T Msg :=
  { c with calls := c.calls ++ [call] }

end RpcClient

/-- One step of the client. -/
inductive ClientStep {T Msg : Type} (pb : Protobuf T Msg) :
    Lts (RpcClient T Msg) (ClientEvent T Msg)
  | call {c : RpcClient T Msg} {method : MethodDescriptor T} {request response : Msg} {err : ℤ}
      {controller : RpcController} {channel : RpcChannel} : c.UserRuns →
      c.channel.callMethod pb method request c.nextContext err = .ok (some controller, channel) →
      ClientStep pb c (.call method request response err)
        (((c.setObject c.calls.length response).setChannel channel).addCall
          ⟨method, request, controller⟩)
  | callClosed {c : RpcClient T Msg} {method : MethodDescriptor T} {request response : Msg}
      {err : ℤ}
      {channel : RpcChannel} : c.UserRuns →
      c.channel.callMethod pb method request c.nextContext err = .ok (none, channel) →
      ClientStep pb c (.call method request response err) (c.setChannel channel)
  | out {c : RpcClient T Msg} : c.pc = .idle → c.channel.status = .connecting →
      ClientStep pb c .out ((c.setChannel (c.channel.setStatus .connected)).setPc .onConnect)
  | sendQueued {c : RpcClient T Msg} {channel : RpcChannel} : c.pc = .onConnect →
      c.channel.onConnectStep = .ok (some channel) →
      ClientStep pb c .sendQueued (c.setChannel channel)
  | connected {c : RpcClient T Msg} : c.pc = .onConnect → c.channel.onConnectStep = .ok none →
      ClientStep pb c .connected (c.setPc .idle)
  | skip {c : RpcClient T Msg} {packet : Packet} {channel : RpcChannel} : c.pc = .idle →
      c.channel.onPacket pb c.object packet = (none, channel) →
      ClientStep pb c (.packet packet) (c.setChannel channel)
  -- the context is deleted, and its done closure with it
  | unparsed {c : RpcClient T Msg} {packet : Packet} {context : RequestContext} {value : Msg}
      {channel : RpcChannel} : c.pc = .idle →
      c.channel.onPacket pb c.object packet = (some (context, false, value), channel) →
      ClientStep pb c (.packet packet) ((c.setChannel channel).setObject context.response value)
  | response {c : RpcClient T Msg} {packet : Packet} {context : RequestContext} {value : Msg}
      {channel : RpcChannel} : c.pc = .idle →
      c.channel.onPacket pb c.object packet = (some (context, true, value), channel) →
      ClientStep pb c (.packet packet)
        (((c.setChannel channel).setObject context.response value).run context.done)
  | ret {c : RpcClient T Msg} {k : ℕ} : c.pc = .done k → ClientStep pb c .ret (c.setPc .idle)

end ServerKit
