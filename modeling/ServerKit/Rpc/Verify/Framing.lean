import ServerKit.Rpc.PacketParser
import ServerKit.Lib.Outcome

/-!
# Packet framing

A packet on the wire is its 21 header bytes and its content (`Packet.encode`). `nextFrame` reads the
frame at the front of a byte stream; `PacketParser.Pending` says which unread bytes a parser and its
buffer stand for, the header it has already taken included. Every call of `RecvPacket` is described
by `nextFrame` of these bytes, whatever the parser's state, so how the stream was cut does not
matter.
-/

namespace ServerKit

open Lib

/-! ## The wire format -/

namespace Packet

/-- The header on the wire. -/
def metaBytes (p : Packet) : List UInt8 :=
  p.magicBytes ++ (p.guidBytes ++ (p.methodIdBytes ++ p.sizeBytes))

/-- A packet on the wire. -/
def encode (p : Packet) : List UInt8 := p.metaBytes ++ p.content

/-- A packet the other side accepts: its magic number is right and `size` is the length of its
content. -/
structure IsFrame (p : Packet) : Prop where
  magic : p.magic = kPacketMagicNum
  size : p.size.toNat = p.content.length

/-- The packet as `GetPacket` returns it after a `RecvPacket` that returned true. -/
def received (p : Packet) : Packet := p.setRecvDone true

@[simp] theorem metaBytes_length (p : Packet) : p.metaBytes.length = kMetaSize := by
  simp [metaBytes, magicBytes, guidBytes, methodIdBytes, sizeBytes, kMetaSize]

@[simp] theorem encode_length (p : Packet) :
    p.encode.length = kMetaSize + p.content.length := by
  simp [encode]

@[simp] theorem received_encode (p : Packet) : p.received.encode = p.encode := rfl

/-- The header fields read from the front of a byte stream. -/
def decodeMeta (v : List UInt8) : Packet where
  magic := v.headD 0
  guid := bytesWord ((v.drop 1).take 8)
  methodId := bytesWord ((v.drop 9).take 8)
  size := bytesHalf ((v.drop 17).take 4)
  content := []
  recvDone := false

/-- A header in front of a content. -/
def withContent (h : Packet) (content : List UInt8) : Packet := { h with content := content }

/-- Packets with the same header. -/
structure SameMeta (p p' : Packet) : Prop where
  magic : p.magic = p'.magic
  guid : p.guid = p'.guid
  methodId : p.methodId = p'.methodId
  size : p.size = p'.size

/-- Packets with the same header and the same content are received as the same packet. -/
theorem SameMeta.received_withContent {h p : Packet} (hs : SameMeta h p)
    (content : List UInt8) : (h.withContent content).received =
    (p.withContent content).received := by
  simp only [withContent, received, setRecvDone, hs.magic, hs.guid, hs.methodId, hs.size]

/-- **Decoding undoes encoding**: the header fields are read back from the bytes written. -/
theorem decodeMeta_metaBytes (p : Packet) (r : List UInt8) :
    SameMeta (decodeMeta (p.metaBytes ++ r)) p := by
  have hguid := wordBytes_length p.guid
  have hmethod := wordBytes_length p.methodId
  have hsize := halfBytes_length p.size
  have h1 : (p.metaBytes ++ r).drop 1 =
      wordBytes p.guid ++ (wordBytes p.methodId ++ (halfBytes p.size ++ r)) := by
    simp [metaBytes, magicBytes, guidBytes, methodIdBytes, sizeBytes]
  have h9 : (p.metaBytes ++ r).drop 9 = wordBytes p.methodId ++ (halfBytes p.size ++ r) := by
    rw [← List.drop_drop (i := 8) (j := 1), h1, List.drop_left' hguid]
  have h17 : (p.metaBytes ++ r).drop 17 = halfBytes p.size ++ r := by
    rw [← List.drop_drop (i := 8) (j := 9), h9, List.drop_left' hmethod]
  refine ⟨by simp [decodeMeta, metaBytes, magicBytes], ?_, ?_, ?_⟩
  · rw [decodeMeta, h1, List.take_left' hguid, bytesWord_wordBytes]
  · rw [decodeMeta, h9, List.take_left' hmethod, bytesWord_wordBytes]
  · rw [decodeMeta, h17, List.take_left' hsize, bytesHalf_halfBytes]

/-- **Encoding undoes decoding**: any header's worth of bytes is the header of some packet. -/
theorem metaBytes_decodeMeta {v : List UInt8} (hv : kMetaSize ≤ v.length) :
    (decodeMeta v).metaBytes = v.take kMetaSize := by
  unfold kMetaSize at hv ⊢
  have hmagic : [v.headD 0] = v.take 1 := by
    cases v with
    | nil => simp at hv
    | cons b v => rfl
  have hguid : ((v.drop 1).take 8).length = 8 := by simp; omega
  have hmethod : ((v.drop 9).take 8).length = 8 := by simp; omega
  have hsize : ((v.drop 17).take 4).length = 4 := by simp; omega
  simp only [decodeMeta, metaBytes, magicBytes, guidBytes, methodIdBytes, sizeBytes,
    wordBytes_bytesWord hguid, wordBytes_bytesWord hmethod, halfBytes_bytesHalf hsize, hmagic]
  have h17 : v.drop 17 = (v.drop 9).drop 8 := by rw [List.drop_drop]
  have h9 : v.drop 9 = (v.drop 1).drop 8 := by rw [List.drop_drop]
  rw [h17, ← List.take_add, h9, ← List.take_add, ← List.take_add]

end Packet

/-! ## The frame at the front of a stream -/

/-- What a byte stream starts with. -/
inductive Front
  /-- Fewer bytes than the frame they begin has. -/
  | short
  /-- A header with a wrong magic number, and what follows it. -/
  | bad (rest : List UInt8)
  /-- A complete valid frame, and what follows it. -/
  | frame (packet : Packet) (rest : List UInt8)
deriving DecidableEq

/-- Reads the front of a byte stream. -/
def nextFrame (v : List UInt8) : Front :=
  if v.length < kMetaSize then .short
  else
    let rest := v.drop kMetaSize
    let size := (Packet.decodeMeta v).size.toNat
    if (Packet.decodeMeta v).magic ≠ kPacketMagicNum then .bad rest
    else if rest.length < size then .short
    else .frame ((Packet.decodeMeta v).withContent (rest.take size)).received (rest.drop size)

/-- The front of a stream that starts with a valid header. -/
theorem nextFrame_metaBytes {p : Packet} (hp : p.magic = kPacketMagicNum) (b : List UInt8) :
    nextFrame (p.metaBytes ++ b) =
      if b.length < p.size.toNat then .short
      else .frame (p.withContent (b.take p.size.toNat)).received (b.drop p.size.toNat) := by
  have hmeta := Packet.decodeMeta_metaBytes p b
  have hrest : (p.metaBytes ++ b).drop kMetaSize = b := List.drop_left' p.metaBytes_length
  unfold nextFrame
  rw [if_neg (by simp), hrest]
  simp only [hmeta.size, hmeta.magic, hp]
  rw [if_neg (by simp)]
  rw [hmeta.received_withContent]

/-- A frame that is there in full is read. -/
theorem nextFrame_encode {p : Packet} (hp : p.IsFrame) (r : List UInt8) :
    nextFrame (p.encode ++ r) = .frame p.received r := by
  rw [Packet.encode, List.append_assoc, nextFrame_metaBytes hp.magic, hp.size, if_neg (by simp),
    List.take_left' rfl, List.drop_left' rfl]
  rfl

/-- What is read as a frame is one. -/
theorem eq_of_nextFrame_frame {v r : List UInt8} {p : Packet} (h : nextFrame v = .frame p r) :
    p.IsFrame ∧ p.received = p ∧ v = p.encode ++ r := by
  unfold nextFrame at h
  split at h
  · cases h
  rename_i hlen
  simp only at h
  split at h
  · cases h
  rename_i hmagic
  split at h
  · cases h
  rename_i hsize
  obtain ⟨rfl, rfl⟩ := Front.frame.inj h
  have hmeta := Packet.metaBytes_decodeMeta (Nat.not_lt.mp hlen)
  refine ⟨⟨not_not.mp hmagic, ?_⟩, rfl, ?_⟩
  · change _ = (List.take _ _).length
    rw [List.length_take, Nat.min_eq_left (Nat.not_lt.mp hsize)]
    rfl
  · change v = (Packet.decodeMeta v).metaBytes ++ List.take _ _ ++ _
    rw [hmeta, List.append_assoc, List.take_append_drop, List.take_append_drop]

/-- A wrong header is met as soon as it is there in full. -/
theorem nextFrame_wrong {p : Packet} (hp : p.magic ≠ kPacketMagicNum) (r : List UInt8) :
    nextFrame (p.metaBytes ++ r) = .bad r := by
  have hmeta := Packet.decodeMeta_metaBytes p r
  unfold nextFrame
  rw [if_neg (by simp), List.drop_left' p.metaBytes_length]
  exact if_pos (by rw [hmeta.magic]; exact hp)

/-- What is met as a wrong header is one. -/
theorem eq_of_nextFrame_bad {v r : List UInt8} (h : nextFrame v = .bad r) :
    ∃ p : Packet, p.magic ≠ kPacketMagicNum ∧ v = p.metaBytes ++ r := by
  unfold nextFrame at h
  split at h
  · cases h
  rename_i hlen
  simp only at h
  split at h
  · rename_i hmagic
    obtain rfl := Front.bad.inj h
    refine ⟨Packet.decodeMeta v, hmagic, ?_⟩
    rw [Packet.metaBytes_decodeMeta (Nat.not_lt.mp hlen), List.take_append_drop]
  · split at h <;> cases h

/-! ## `RecvPacket` on a byte queue -/

namespace PacketParser

/-- The bytes a parser has still to turn into packets: those in the buffer, after those of the
header it has taken. -/
inductive Pending : PacketParser → List UInt8 → List UInt8 → Prop
  | header (packet : Packet) (b : List UInt8) : Pending ⟨.recvHeader, packet⟩ b b
  | packet {packet : Packet} (b : List UInt8) : packet.magic = kPacketMagicNum →
      Pending ⟨.recvPacket, packet⟩ b (packet.metaBytes ++ b)

theorem readMeta_byteQueue (packet : Packet) {b : List UInt8} (hb : kMetaSize ≤ b.length) :
    readMeta byteQueue packet b =
      .ok ((Packet.decodeMeta b).withContent packet.content, b.drop kMetaSize) := by
  unfold kMetaSize at hb
  have hmagic : ∀ x : UInt8, patch [x] (b.take 1) = b.take 1 := fun x =>
    patch_eq_of_length_le (by simp; omega)
  have hword : ∀ (x : UInt64) i, i + 8 ≤ b.length →
      patch (wordBytes x) ((b.drop i).take 8) = (b.drop i).take 8 := fun x i hi =>
    patch_eq_of_length_le (by simp; omega)
  have hhalf : ∀ x : UInt32, patch (halfBytes x) ((b.drop 17).take 4) = (b.drop 17).take 4 :=
    fun x => patch_eq_of_length_le (by simp; omega)
  have hhead : (b.take 1).headD 0 = b.headD 0 := by cases b <;> rfl
  simp only [readMeta, byteQueue, ok_bind, Packet.readMagic, Packet.readGuid,
    Packet.readMethodId, Packet.readSize, Packet.setRecvDone, Packet.magicBytes,
    Packet.guidBytes, Packet.methodIdBytes, Packet.sizeBytes, List.drop_drop, hmagic,
    hword _ 1 (by omega), hword _ 9 (by omega), hhalf, hhead]
  rfl

/-- Resizing the content and copying over it leaves what was copied. -/
theorem readContent_resizeContent (packet : Packet) {n : ℕ} {src : List UInt8}
    (h : src.length = n) : (packet.resizeContent n).readContent src = packet.withContent src := by
  have : (packet.resizeContent n).content.length ≤ src.length := by
    simp only [Packet.resizeContent, List.length_append, List.length_take, List.length_replicate]
    omega
  rw [Packet.readContent, patch_eq_of_length_le this]
  rfl

section Steps

variable {packet : Packet} {b : List UInt8}

theorem recvStep_header_short (h : b.length < kMetaSize) :
    recvStep byteQueue ⟨.recvHeader, packet⟩ b = .ok (some false, ⟨.recvHeader, packet⟩, b) :=
  if_pos h

theorem recvStep_header_bad (h : kMetaSize ≤ b.length)
    (hm : (Packet.decodeMeta b).magic ≠ kPacketMagicNum) :
    recvStep byteQueue ⟨.recvHeader, packet⟩ b =
      .ok (some false, ⟨.recvHeader, (Packet.decodeMeta b).withContent packet.content⟩,
        b.drop kMetaSize) := by
  refine (if_neg (Nat.not_lt.mpr h)).trans ?_
  rw [readMeta_byteQueue packet h]
  exact if_pos hm

theorem recvStep_header (h : kMetaSize ≤ b.length)
    (hm : (Packet.decodeMeta b).magic = kPacketMagicNum) :
    recvStep byteQueue ⟨.recvHeader, packet⟩ b =
      .ok (none, ⟨.recvPacket, (Packet.decodeMeta b).withContent packet.content⟩,
        b.drop kMetaSize) := by
  refine (if_neg (Nat.not_lt.mpr h)).trans ?_
  rw [readMeta_byteQueue packet h]
  exact if_neg (not_not.mpr hm)

theorem recvStep_packet_short (h : b.length < packet.size.toNat) :
    recvStep byteQueue ⟨.recvPacket, packet⟩ b = .ok (some false, ⟨.recvPacket, packet⟩, b) :=
  if_pos h

theorem recvStep_packet (h : packet.size.toNat ≤ b.length) :
    recvStep byteQueue ⟨.recvPacket, packet⟩ b =
      .ok (none, ⟨.recvDone, packet.withContent (b.take packet.size.toNat)⟩,
        b.drop packet.size.toNat) := by
  have hlen : (b.take packet.size.toNat).length = packet.size.toNat := by
    rw [List.length_take, Nat.min_eq_left h]
  refine (if_neg (Nat.not_lt.mpr h)).trans ?_
  rw [← readContent_resizeContent packet hlen]
  rfl

theorem recvStep_done :
    recvStep byteQueue ⟨.recvDone, packet⟩ b = .ok (some true, ⟨.recvHeader, packet.received⟩, b) :=
  rfl

end Steps

/-- An iteration that returns. -/
theorem recvLoop_return {fuel : ℕ} {parser parser' : PacketParser} {b b' : List UInt8} {r : Bool}
    (h : recvStep byteQueue parser b = .ok (some r, parser', b')) :
    recvLoop byteQueue (fuel + 1) parser b = .ok (r, parser', b') := by
  rw [recvLoop, h]
  rfl

/-- An iteration that goes on. -/
theorem recvLoop_continue {fuel : ℕ} {parser parser' : PacketParser} {b b' : List UInt8}
    (h : recvStep byteQueue parser b = .ok (none, parser', b')) :
    recvLoop byteQueue (fuel + 1) parser b = recvLoop byteQueue fuel parser' b' := by
  rw [recvLoop, h]
  rfl

/-- What a call of `RecvPacket` on the pending bytes `v` comes to. -/
def Receives (v : List UInt8) (r : Except Fault (Bool × PacketParser × List UInt8)) : Prop :=
  match nextFrame v with
  | .short => ∃ parser b, r = .ok (false, parser, b) ∧ Pending parser b v
  | .bad rest => ∃ packet, r = .ok (false, ⟨.recvHeader, packet⟩, rest)
  | .frame packet rest => r = .ok (true, ⟨.recvHeader, packet⟩, rest)

/-- The loop from the state that waits for the content. -/
theorem recvLoop_packet (packet : Packet) (hm : packet.magic = kPacketMagicNum) (fuel : ℕ)
    (b : List UInt8) :
    Receives (packet.metaBytes ++ b) (recvLoop byteQueue (fuel + 2) ⟨.recvPacket, packet⟩ b) := by
  unfold Receives
  rw [nextFrame_metaBytes hm]
  by_cases hsize : b.length < packet.size.toNat
  · rw [if_pos hsize]
    exact ⟨_, b, recvLoop_return (recvStep_packet_short hsize), .packet b hm⟩
  · rw [if_neg hsize]
    change recvLoop byteQueue (fuel + 2) _ b = _
    rw [recvLoop_continue (recvStep_packet (Nat.not_lt.mp hsize)), recvLoop_return recvStep_done]

/-- **A call of `RecvPacket`** is described by the front of the pending bytes, whatever part of
them the parser has already taken. -/
theorem recvPacket_spec {parser : PacketParser} {b v : List UInt8} (hp : Pending parser b v) :
    Receives v (recvPacket byteQueue parser b) := by
  cases hp with
  | packet b hm => exact recvLoop_packet _ hm 1 b
  | header packet b =>
    change Receives b (recvLoop byteQueue 3 ⟨.recvHeader, packet⟩ b)
    by_cases hlen : b.length < kMetaSize
    · have hfront : nextFrame b = .short := if_pos hlen
      unfold Receives
      rw [hfront]
      exact ⟨_, b, recvLoop_return (recvStep_header_short hlen), .header packet b⟩
    · have hlen := Nat.not_lt.mp hlen
      by_cases hm : (Packet.decodeMeta b).magic = kPacketMagicNum
      · -- the header is taken, and the loop goes on with the same pending bytes
        rw [recvLoop_continue (recvStep_header hlen hm)]
        have hbytes : ((Packet.decodeMeta b).withContent packet.content).metaBytes ++
            b.drop kMetaSize = b := by
          refine Eq.trans ?_ (List.take_append_drop kMetaSize b)
          rw [← Packet.metaBytes_decodeMeta hlen]
          rfl
        have := recvLoop_packet ((Packet.decodeMeta b).withContent packet.content) hm 0
          (b.drop kMetaSize)
        rwa [hbytes] at this
      · have hfront : nextFrame b = .bad (b.drop kMetaSize) := by
          have := nextFrame_wrong hm (b.drop kMetaSize)
          rwa [Packet.metaBytes_decodeMeta hlen, List.take_append_drop] at this
        unfold Receives
        rw [hfront]
        exact ⟨_, recvLoop_return (recvStep_header_bad hlen hm)⟩

end PacketParser

end ServerKit
