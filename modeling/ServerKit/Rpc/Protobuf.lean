import ServerKit.Base.Hash
import ServerKit.Rpc.Packet

/-!
# What the RPC code uses of protobuf

Protobuf is not part of the repository: its messages, their types and its two conversions are
parameters. `Protobuf.RoundTrips` is what the code relies on.
-/

namespace ServerKit

/-- `SerializeToString`, and `ParseFromString` of a message object of a given type: whether it
succeeds, and what the object holds then. -/
structure Protobuf (T Msg : Type) where
  typeOf : Msg → T
  serialize : Msg → List UInt8
  parse : T → List UInt8 → Bool × Msg

/-- Parsing undoes serialization, and a serialized message has fewer than 2 GiB. -/
structure Protobuf.RoundTrips {T Msg : Type} (pb : Protobuf T Msg) : Prop where
  parse_serialize : ∀ m, pb.parse (pb.typeOf m) (pb.serialize m) = (true, m)
  serialize_length : ∀ m, (pb.serialize m).length < 2 ^ 31

/-- `MethodDescriptor`. The characters of the name are its bytes. -/
structure MethodDescriptor (T : Type) where
  fullName : List UInt8
  inputType : T
  outputType : T
deriving DecidableEq, Repr

/-- `Packet::Packet(id, method, req)`. Nothing sets `recv_done_`. -/
def Packet.new {T Msg : Type} (pb : Protobuf T Msg) (id : UInt64)
    (method : Option (MethodDescriptor T)) (req : Msg) : Except Fault Packet := do
  let content := pb.serialize req
  let methodId ← match method with
    | some method => hashString method.fullName
    | none => .ok 0
  return {
    magic := kPacketMagicNum
    guid := id
    methodId := methodId
    size := UInt32.ofNat content.length
    content := content
    recvDone := false }

end ServerKit
