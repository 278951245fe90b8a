import ServerKit.Lib.Bytes

/-!
# `rpc/packet.h`
-/

namespace ServerKit

open Lib

/-- `sizeof (magic_num) + sizeof (call_guid) + sizeof (method_id) + sizeof (size)`. -/
def kMetaSize : ℕ := 21

/-- Packet magic number. -/
def kPacketMagicNum : UInt8 := 0x2B

/-- `Packet`. The characters of `content` are its bytes. -/
structure Packet where
  magic : UInt8
  guid : UInt64
  methodId : UInt64
  size : UInt32
  content : List UInt8
  recvDone : Bool
deriving DecidableEq, Repr

/-- `Packet::Packet()`. -/
def Packet.empty : Packet where
  magic := 0
  guid := 0
  methodId := 0
  size := 0
  content := []
  recvDone := false

namespace Packet

/-- The memory of the field `magic`. -/
def magicBytes (p : Packet) : List UInt8 := [p.magic]

/-- The memory of the field `guid`. -/
def guidBytes (p : Packet) : List UInt8 := wordBytes p.guid

/-- The memory of the field `method_id`. -/
def methodIdBytes (p : Packet) : List UInt8 := wordBytes p.methodId

/-- The memory of the field `size`. -/
def sizeBytes (p : Packet) : List UInt8 := halfBytes p.size

/-- Copies bytes to the address of `magic`. -/
def readMagic (p : Packet) (src : List UInt8) : Packet :=
  { p with magic := (patch p.magicBytes src).headD 0 }

/-- Copies bytes to the address of `guid`. -/
def readGuid (p : Packet) (src : List UInt8) : Packet :=
  { p with guid := bytesWord (patch p.guidBytes src) }

/-- Copies bytes to the address of `method_id`. -/
def readMethodId (p : Packet) (src : List UInt8) : Packet :=
  { p with methodId := bytesWord (patch p.methodIdBytes src) }

/-- Copies bytes to the address of `size`. -/
def readSize (p : Packet) (src : List UInt8) : Packet :=
  { p with size := bytesHalf (patch p.sizeBytes src) }

/-- Copies bytes to the address of `content[0]`. -/
def readContent (p : Packet) (src : List UInt8) : Packet :=
  { p with content := patch p.content src }

/-- `content.resize(n)`. -/
def resizeContent (p : Packet) (n : ℕ) : Packet :=
  { p with content := p.content.take n ++ List.replicate (n - p.content.length) 0 }

/-- Writes `recv_done_`. -/
def setRecvDone (p : Packet) (b : Bool) : Packet := { p with recvDone := b }

end Packet

end ServerKit
