import ServerKit.Core.Streams
import ServerKit.Rpc.PacketParser
import ServerKit.Rpc.Protobuf

/-!
# Packets over the Sockets of event loops

The whole stack below the channels and sessions: every Socket of every event loop has a
`PacketParser`, and other code writes to it with `SendPacket` and reads from it with `RecvPacket`
only. The bytes go through the `BufferList`s of the Socket, `Send` and `Recv`, and the connection.
-/

namespace ServerKit

open Lib

namespace Logged

/-- `Socket::Read`, recorded. -/
def read (w : Logged ObjectList) (k : SocketPtr) (n : ℕ) :
    Except Fault (List UInt8 × Logged ObjectList) :=
  match w.loop.sockets k with
  | none => .error .dangling
  | some s => do
    let ((_, bytes), m, readList) ← BufferList.readBytes objectPool w.loop.mem s.readList n
    return (bytes, ⟨(w.loop.setMem m).setSocket k (s.setReadList readList),
      fun j => w.loop.record j (w.logs j) (.read k bytes)⟩)

/-- `Socket::Write`, recorded. -/
def write (w : Logged ObjectList) (k : SocketPtr) (src : List UInt8) :
    Except Fault (Logged ObjectList) :=
  match w.loop.sockets k with
  | none => .error .dangling
  | some s =>
    -- `is_writable_` is false as long as `poller_` is NULL
    if !s.hasPoller then .error .nullPointer
    else do
      let (_, m, writeList) ← BufferList.writeBytes objectPool w.loop.mem s.writeList src
      return ⟨(w.loop.setMem m).afterWrite k (s.setWriteList writeList),
        fun j => w.loop.record j (w.logs j) (.write k src)⟩

/-- The Socket `k`, as its `PacketParser` uses it. -/
def socket (k : SocketPtr) : SocketBuffer (Logged ObjectList) where
  readBufferSize w :=
    match w.loop.sockets k with
    | none => 0
    | some s => s.readList.readableSize
  read w n := w.read k n
  write w src := w.write k src

end Logged

/-- Event loops whose Sockets have parsers, with the histories of `SendPacket`, and of the packets
for which `RecvPacket` has returned true. -/
structure PacketPeers (ι : Type) where
  peers : Peers ι
  parser : ι × SocketPtr → PacketParser
  sent : ι × SocketPtr → List Packet
  received : ι × SocketPtr → List Packet

/-- A step of one of the loops. -/
inductive PacketEvent (ι : Type)
  /-- Other than `Socket::Read` and `Socket::Write`. -/
  | loop (i : ι) (e : LoopEvent)
  | sendPacket (place : ι × SocketPtr) (packet : Packet)
  | recvPacket (place : ι × SocketPtr) (ret : Bool)

namespace PacketPeers

variable {ι : Type}

/-- Before anything has happened. -/
def new (peers : Peers ι) : PacketPeers ι where
  peers := peers
  parser := fun _ => .new
  sent := fun _ => []
  received := fun _ => []

def setPeers (w : PacketPeers ι) (peers : Peers ι) : PacketPeers ι := { w with peers := peers }

@[simp] theorem setPeers_peers (w : PacketPeers ι) (peers : Peers ι) :
    (w.setPeers peers).peers = peers := rfl

variable [DecidableEq ι]

/-- A packet has been sent. -/
def addSent (w : PacketPeers ι) (place : ι × SocketPtr) (packet : Packet) : PacketPeers ι :=
  { w with sent := Function.update w.sent place (w.sent place ++ [packet]) }

/-- `RecvPacket` has returned. -/
def addReceived (w : PacketPeers ι) (place : ι × SocketPtr) (parser : PacketParser) (ret : Bool) :
    PacketPeers ι :=
  { w with
    parser := Function.update w.parser place parser
    received := Function.update w.received place
      (w.received place ++ if ret then [parser.getPacket] else []) }

@[simp] theorem addSent_peers (w : PacketPeers ι) (place : ι × SocketPtr) (packet : Packet) :
    (w.addSent place packet).peers = w.peers := rfl

@[simp] theorem addReceived_self (w : PacketPeers ι) (place : ι × SocketPtr)
    (parser : PacketParser) (ret : Bool) : (w.addReceived place parser ret).received place =
      w.received place ++ if ret then [parser.getPacket] else [] :=
  Function.update_self ..

end PacketPeers

/-- One step. -/
inductive PacketStep {ι T Msg : Type} [DecidableEq ι] (pb : Protobuf T Msg) (wiring : Wiring ι) :
    Lts (PacketPeers ι) (PacketEvent ι)
  | loop {w : PacketPeers ι} {i : ι} {e : LoopEvent} {peers : Peers ι} :
      (∀ k bytes, e ≠ .read k bytes) → (∀ k src, e ≠ .write k src) →
      PeersStep wiring w.peers (i, e) peers → PacketStep pb wiring w (.loop i e) (w.setPeers peers)
  | sendPacket {w : PacketPeers ι} {i : ι} {k : SocketPtr} {guid : UInt64}
      {method : Option (MethodDescriptor T)} {message : Msg} {packet : Packet}
      {v : Logged ObjectList} : (w.peers i).loop.UserRuns →
      Packet.new pb guid method message = .ok packet →
      PacketParser.sendPacket (Logged.socket k) (w.peers i) packet = .ok v →
      PacketStep pb wiring w (.sendPacket (i, k) packet)
        ((w.setPeers (Function.update w.peers i v)).addSent (i, k) packet)
  | recvPacket {w : PacketPeers ι} {i : ι} {k : SocketPtr} {ret : Bool} {parser : PacketParser}
      {v : Logged ObjectList} : (w.peers i).loop.UserRuns → (w.peers i).loop.sockets k ≠ none →
      PacketParser.recvPacket (Logged.socket k) (w.parser (i, k)) (w.peers i) =
        .ok (ret, parser, v) →
      PacketStep pb wiring w (.recvPacket (i, k) ret)
        ((w.setPeers (Function.update w.peers i v)).addReceived (i, k) parser ret)

/-- No step takes more than the contiguous bytes. -/
def PacketPeers.WithinBuffer {ι : Type} (w : PacketPeers ι) : PacketEvent ι → Prop
  | .loop i e => w.peers.WithinBuffer (i, e)
  | _ => True

end ServerKit
