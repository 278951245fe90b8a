import ServerKit.Rpc.RpcSession

/-!
# The response paths of `RpcChannel::OnRead` and `RpcSession::OnRead`

The two loops over the response packets that `RecvPacket` returns, with what they do with the
contexts they take out of `request_context_`: the done closures they run, and the contexts they
delete.
-/

namespace ServerKit

variable {T Msg : Type} (pb : Protobuf T Msg) (isNull : ℕ → Bool)

/-- `RequestContext::Run`: the closures it runs. `isNull` tells which done pointers are NULL. -/
def RequestContext.run (context : RequestContext) : List ℕ :=
  if isNull context.done then [] else [context.done]

/-- The state of a loop of `OnRead`: the channel or session, what the response objects hold, the
closures run so far, and the contexts deleted so far, each with its guid. -/
structure ReadState (C Msg : Type) where
  self : C
  object : ℕ → Msg
  ran : List ℕ
  deleted : List (UInt64 × RequestContext)

/-- An iteration of the loop of `RpcChannel::OnRead`. -/
def RpcChannel.readPacket (r : ReadState RpcChannel Msg) (packet : Packet) :
    ReadState RpcChannel Msg :=
  match r.self.onPacket pb r.object packet with
  | (none, ch) => { r with self := ch }
  | (some (context, ret, value), ch) =>
    { self := ch
      object := Function.update r.object context.response value
      ran := if ret then r.ran ++ context.run isNull else r.ran
      deleted := r.deleted ++ [(packet.guid, context)] }

/-- The loop of `RpcChannel::OnRead`. -/
def RpcChannel.onRead (ch : RpcChannel) (object : ℕ → Msg) (packets : List Packet) :
    ReadState RpcChannel Msg :=
  packets.foldl (readPacket pb isNull) { self := ch, object := object, ran := [], deleted := [] }

/-- An iteration of the loop of `RpcSession::OnRead`, for a packet that is no request. -/
def RpcSession.readPacket (r : ReadState (RpcSession T) Msg) (packet : Packet) :
    ReadState (RpcSession T) Msg :=
  match r.self.onPacket pb r.object packet with
  | (.response context _ value, s) =>
    { r with
      self := s
      object := Function.update r.object context.response value
      ran := r.ran ++ context.run isNull }
  | (_, s) => { r with self := s }

/-- The loop of `RpcSession::OnRead`, for packets that are no requests. -/
def RpcSession.onRead (s : RpcSession T) (object : ℕ → Msg) (packets : List Packet) :
    ReadState (RpcSession T) Msg :=
  packets.foldl (readPacket pb isNull) { self := s, object := object, ran := [], deleted := [] }

end ServerKit
