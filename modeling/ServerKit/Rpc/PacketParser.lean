import ServerKit.Base.Buffer
import ServerKit.Rpc.Packet

/-!
# `rpc/packet_parser.h`, `rpc/packet_parser.cc`

`PacketParser` cuts the byte stream of a socket into packets. It reads from the socket's
`read_list_` and writes to its `write_list_`, which are a parameter here (`SocketBuffer`): a byte
queue (`byteQueue`), or the repository's `BufferList` (`bufferListQueue`).
-/

namespace ServerKit

open Lib

/-- `Socket::ReadBufferSize`, `Socket::Read` and the `write_list_` part of `Socket::Write`. -/
structure SocketBuffer (β : Type) where
  readBufferSize : β → ℕ
  read : β → ℕ → Except Fault (List UInt8 × β)
  write : β → List UInt8 → Except Fault β

/-- The buffer of a socket as the bytes in it. -/
def byteQueue : SocketBuffer (List UInt8) where
  readBufferSize q := q.length
  read q n := .ok (q.take n, q.drop n)
  write q src := .ok (q ++ src)

/-- The buffer of a socket as the `BufferList` it is. -/
def bufferListQueue {σ : Type} (P : ObjectPool σ) : SocketBuffer (Memory σ × BufferList) where
  readBufferSize b := b.2.readableSize
  read b n := do
    let ((_, bytes), m, l) ← BufferList.readBytes P b.1 b.2 n
    return (bytes, m, l)
  write b src := do
    let (_, m, l) ← BufferList.writeBytes P b.1 b.2 src
    return (m, l)

namespace PacketParser

/-- The states of the parser. -/
inductive State
  | recvHeader
  | recvPacket
  | recvDone
deriving DecidableEq, Repr

end PacketParser

/-- `PacketParser`, without its socket. -/
structure PacketParser where
  state : PacketParser.State
  packet : Packet
deriving DecidableEq, Repr

namespace PacketParser

variable {β : Type} (B : SocketBuffer β)

/-- `PacketParser::PacketParser`. -/
def new : PacketParser where
  state := .recvHeader
  packet := .empty

/-- The four reads of the packet meta info. -/
def readMeta (packet : Packet) (b : β) : Except Fault (Packet × β) := do
  let packet := packet.setRecvDone false
  let (bytes, b) ← B.read b 1
  let packet := packet.readMagic bytes
  let (bytes, b) ← B.read b 8
  let packet := packet.readGuid bytes
  let (bytes, b) ← B.read b 8
  let packet := packet.readMethodId bytes
  let (bytes, b) ← B.read b 4
  return (packet.readSize bytes, b)

/-- One iteration of the loop of `RecvPacket`: `none` when it goes on, or what is returned. -/
def recvStep (parser : PacketParser) (b : β) : Except Fault (Option Bool × PacketParser × β) :=
  match parser.state with
  | .recvHeader =>
    if B.readBufferSize b < kMetaSize then .ok (some false, parser, b)
    else do
      let (packet, b) ← readMeta B parser.packet b
      -- `state_` stays as it is when the magic number is wrong
      if packet.magic ≠ kPacketMagicNum then return (some false, ⟨.recvHeader, packet⟩, b)
      else return (none, ⟨.recvPacket, packet⟩, b)
  | .recvPacket =>
    let readSize := parser.packet.size.toNat
    if B.readBufferSize b < readSize then .ok (some false, parser, b)
    else do
      let packet := parser.packet.resizeContent readSize
      let (bytes, b) ← B.read b readSize
      return (none, ⟨.recvDone, packet.readContent bytes⟩, b)
  | .recvDone => .ok (some true, ⟨.recvHeader, parser.packet.setRecvDone true⟩, b)

/-- The loop of `RecvPacket`, with the iterations it may still make. -/
def recvLoop : ℕ → PacketParser → β → Except Fault (Bool × PacketParser × β)
  | 0, _, _ => .error .noReturn
  | fuel + 1, parser, b => do
    let (r, parser, b) ← recvStep B parser b
    match r with
    | some done => return (done, parser, b)
    | none => recvLoop fuel parser b

/-- `PacketParser::RecvPacket`. The loop visits each state at most once. -/
def recvPacket (parser : PacketParser) (b : β) : Except Fault (Bool × PacketParser × β) :=
  if parser.state = .recvDone then .error .assertion else recvLoop B 3 parser b

/-- `PacketParser::GetPacket`. -/
def getPacket (parser : PacketParser) : Packet := parser.packet

/-- The loop of `OnRead`, with the iterations it may still make: the packets it meets. -/
def receiveLoop : ℕ → PacketParser → β → Except Fault (List Packet × PacketParser × β)
  | 0, _, _ => .error .noReturn
  | fuel + 1, parser, b => do
    let (r, parser, b) ← recvPacket B parser b
    if r then
      let (packets, parser', b) ← receiveLoop fuel parser b
      return (parser.getPacket :: packets, parser', b)
    else return ([], parser, b)

/-- `while (parser_->RecvPacket())`. Every packet but the first takes bytes from the buffer. -/
def receive (parser : PacketParser) (b : β) : Except Fault (List Packet × PacketParser × β) :=
  receiveLoop B (B.readBufferSize b + 2) parser b

/-- The segments of a byte stream arriving one after another, each followed by `OnRead`. -/
def receiveSegments : PacketParser → β → List (List UInt8) →
    Except Fault (List Packet × PacketParser × β)
  | parser, b, [] => .ok ([], parser, b)
  | parser, b, s :: segments => do
    let b ← B.write b s
    let (packets, parser, b) ← receive B parser b
    let (packets', parser, b) ← receiveSegments parser b segments
    return (packets ++ packets', parser, b)

/-- `PacketParser::SendPacket`. -/
def sendPacket (b : β) (packet : Packet) : Except Fault β := do
  let b ← B.write b packet.magicBytes
  let b ← B.write b packet.guidBytes
  let b ← B.write b packet.methodIdBytes
  let b ← B.write b packet.sizeBytes
  B.write b packet.content

/-- `SendPacket` for one packet after another. -/
def sendPackets : β → List Packet → Except Fault β
  | b, [] => .ok b
  | b, packet :: packets => do
    let b ← sendPacket B b packet
    sendPackets b packets

end PacketParser

end ServerKit
