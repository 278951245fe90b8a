import ServerKit.Rpc.Verify.Segments
import ServerKit.Base.Verify.ListOps

/-!
# The parser on a `BufferList`

On any socket buffer that represents a byte queue (`SocketBuffer.Queues`) the parser does what it
does on `byteQueue`, except that `GetObject` may throw. A `BufferList` is such a buffer, so the
results about byte queues are results about the sockets of the repository.
-/

namespace ServerKit

open Lib

/-! ## Buffers that represent byte queues -/

/-- A socket buffer that represents a byte queue. -/
structure SocketBuffer.Queues {β : Type} (B : SocketBuffer β) (Rep : β → List UInt8 → Prop) :
    Prop where
  readBufferSize : ∀ {b q}, Rep b q → B.readBufferSize b = q.length
  read : ∀ {b q} n, Rep b q →
    Outcome (· = Fault.badAlloc) (fun r => r.1 = q.take n ∧ Rep r.2 (q.drop n)) (B.read b n)
  write : ∀ {b q} src, Rep b q →
    Outcome (· = Fault.badAlloc) (fun b' => Rep b' (q ++ src)) (B.write b src)

/-- A `BufferList` served by a safe pool represents its unread bytes. -/
theorem bufferListQueue_queues {σ : Type} {P : ObjectPool σ} {Own : σ → List BufferPtr → Prop}
    {ctx : Set BufferPtr} (hP : PoolSafe P Own ctx) :
    (bufferListQueue P).Queues fun b q => ∃ c, ListRep b.1.heap b.2 c q ∧ Own b.1.pool c where
  readBufferSize := by
    rintro b q ⟨c, hr, -⟩
    exact hr.readableSize_eq
  read := by
    rintro b q n ⟨c, hr, hown⟩
    refine ((readBytes_spec hP hr hown n).mono_fault (by simp)).bind ?_
    rintro ⟨⟨k, bytes⟩, m, l⟩ ⟨hret, hleaves, -⟩
    exact ⟨(Prod.mk.inj hret).2, hleaves⟩
  write := by
    rintro b q src ⟨c, hr, hown⟩
    refine (writeBytes_spec hP hr hown src).bind ?_
    rintro ⟨k, m, l⟩ ⟨-, hleaves, -⟩
    exact hleaves

/-! ## The parser -/

/-- The same value, and a buffer that represents the queue. -/
def SameValue {α β : Type} (Rep : β → List UInt8 → Prop) (x : α × β) (y : α × List UInt8) : Prop :=
  x.1 = y.1 ∧ Rep x.2 y.2

/-- The same two values, and a buffer that represents the queue. -/
def SameValues {α γ β : Type} (Rep : β → List UInt8 → Prop) (x : α × γ × β)
    (y : α × γ × List UInt8) : Prop :=
  x.1 = y.1 ∧ x.2.1 = y.2.1 ∧ Rep x.2.2 y.2.2

namespace SocketBuffer.Queues

open PacketParser

variable {β : Type} {B : SocketBuffer β} {Rep : β → List UInt8 → Prop} {b : β} {q : List UInt8}

theorem read_refines (hB : B.Queues Rep) (hr : Rep b q) (n : ℕ) :
    Refines (· = Fault.badAlloc) (SameValue Rep) (B.read b n) (byteQueue.read q n) :=
  .of_outcome (hB.read n hr)

theorem write_refines (hB : B.Queues Rep) (hr : Rep b q) (src : List UInt8) :
    Refines (· = Fault.badAlloc) Rep (B.write b src) (byteQueue.write q src) :=
  .of_outcome (hB.write src hr)

theorem readMeta_refines (hB : B.Queues Rep) (hr : Rep b q) (packet : Packet) :
    Refines (· = Fault.badAlloc) (SameValue Rep) (readMeta B packet b)
      (readMeta byteQueue packet q) := by
  refine (hB.read_refines hr 1).bind ?_
  rintro ⟨bytes₁, b₁⟩ ⟨_, q₁⟩ ⟨rfl, hr⟩
  refine (hB.read_refines hr 8).bind ?_
  rintro ⟨bytes₂, b₂⟩ ⟨_, q₂⟩ ⟨rfl, hr⟩
  refine (hB.read_refines hr 8).bind ?_
  rintro ⟨bytes₃, b₃⟩ ⟨_, q₃⟩ ⟨rfl, hr⟩
  refine (hB.read_refines hr 4).bind ?_
  rintro ⟨bytes₄, b₄⟩ ⟨_, q₄⟩ ⟨rfl, hr⟩
  exact .ok ⟨rfl, hr⟩

theorem recvStep_refines (hB : B.Queues Rep) (hr : Rep b q) (parser : PacketParser) :
    Refines (· = Fault.badAlloc) (SameValues Rep) (recvStep B parser b)
      (recvStep byteQueue parser q) := by
  have hsize : B.readBufferSize b = byteQueue.readBufferSize q := hB.readBufferSize hr
  cases hstate : parser.state with
  | recvHeader =>
    simp only [recvStep, hstate, hsize]
    split
    · exact .ok ⟨rfl, rfl, hr⟩
    · refine (hB.readMeta_refines hr parser.packet).bind ?_
      rintro ⟨packet, b₁⟩ ⟨_, q₁⟩ ⟨rfl, hr⟩
      dsimp only
      split
      · exact .ok ⟨rfl, rfl, hr⟩
      · exact .ok ⟨rfl, rfl, hr⟩
  | recvPacket =>
    simp only [recvStep, hstate, hsize]
    split
    · exact .ok ⟨rfl, rfl, hr⟩
    · refine (hB.read_refines hr _).bind ?_
      rintro ⟨bytes, b₁⟩ ⟨_, q₁⟩ ⟨rfl, hr⟩
      exact .ok ⟨rfl, rfl, hr⟩
  | recvDone =>
    simp only [recvStep, hstate]
    exact .ok ⟨rfl, rfl, hr⟩

theorem recvLoop_refines (hB : B.Queues Rep) (hr : Rep b q) (fuel : ℕ) (parser : PacketParser) :
    Refines (· = Fault.badAlloc) (SameValues Rep) (recvLoop B fuel parser b)
      (recvLoop byteQueue fuel parser q) := by
  induction fuel generalizing parser b q with
  | zero => exact .error
  | succ fuel ih =>
    refine (hB.recvStep_refines hr parser).bind ?_
    rintro ⟨r, parser₁, b₁⟩ ⟨_, _, q₁⟩ ⟨rfl, rfl, hr⟩
    cases r with
    | some done => exact .ok ⟨rfl, rfl, hr⟩
    | none => exact ih hr parser₁

theorem recvPacket_refines (hB : B.Queues Rep) (hr : Rep b q) (parser : PacketParser) :
    Refines (· = Fault.badAlloc) (SameValues Rep) (recvPacket B parser b)
      (recvPacket byteQueue parser q) := by
  unfold recvPacket
  split
  · exact .error
  · exact hB.recvLoop_refines hr 3 parser

theorem receiveLoop_refines (hB : B.Queues Rep) (hr : Rep b q) (fuel : ℕ)
    (parser : PacketParser) :
    Refines (· = Fault.badAlloc) (SameValues Rep) (receiveLoop B fuel parser b)
      (receiveLoop byteQueue fuel parser q) := by
  induction fuel generalizing parser b q with
  | zero => exact .error
  | succ fuel ih =>
    refine (hB.recvPacket_refines hr parser).bind ?_
    rintro ⟨r, parser₁, b₁⟩ ⟨_, _, q₁⟩ ⟨rfl, rfl, hr⟩
    cases r with
    | true =>
      refine (ih hr parser₁).bind ?_
      rintro ⟨packets, parser₂, b₂⟩ ⟨_, _, q₂⟩ ⟨rfl, rfl, hr⟩
      exact .ok ⟨rfl, rfl, hr⟩
    | false => exact .ok ⟨rfl, rfl, hr⟩

/-- **The segments of a stream arriving at a socket** come to what they come to at a byte queue. -/
theorem receiveSegments_refines (hB : B.Queues Rep) (hr : Rep b q) (parser : PacketParser)
    (segments : List (List UInt8)) :
    Refines (· = Fault.badAlloc) (SameValues Rep) (receiveSegments B parser b segments)
      (receiveSegments byteQueue parser q segments) := by
  induction segments generalizing parser b q with
  | nil => exact .ok ⟨rfl, rfl, hr⟩
  | cons s segments ih =>
    refine (hB.write_refines hr s).bind ?_
    intro b₁ q₁ hr
    have hfuel : B.readBufferSize b₁ = byteQueue.readBufferSize q₁ := hB.readBufferSize hr
    unfold receive
    rw [hfuel]
    refine (hB.receiveLoop_refines hr _ parser).bind ?_
    rintro ⟨packets, parser₁, b₂⟩ ⟨_, _, q₂⟩ ⟨rfl, rfl, hr⟩
    refine (ih hr parser₁).bind ?_
    rintro ⟨packets', parser₂, b₃⟩ ⟨_, _, q₃⟩ ⟨rfl, rfl, hr⟩
    exact .ok ⟨rfl, rfl, hr⟩

/-- **The packets sent through a socket** are in its buffer as they are in a byte queue. -/
theorem sendPackets_refines (hB : B.Queues Rep) (hr : Rep b q) (packets : List Packet) :
    Refines (· = Fault.badAlloc) Rep (sendPackets B b packets)
      (sendPackets byteQueue q packets) := by
  induction packets generalizing b q with
  | nil => exact .ok hr
  | cons packet packets ih =>
    refine Refines.bind (R := Rep) ?_ fun b₁ q₁ hr => ih hr
    refine (hB.write_refines hr _).bind fun b₁ q₁ hr => ?_
    refine (hB.write_refines hr _).bind fun b₂ q₂ hr => ?_
    refine (hB.write_refines hr _).bind fun b₃ q₃ hr => ?_
    refine (hB.write_refines hr _).bind fun b₄ q₄ hr => ?_
    exact hB.write_refines hr _

end SocketBuffer.Queues

section Sockets

open PacketParser

variable {σ : Type} {P : ObjectPool σ} {Own : σ → List BufferPtr → Prop} {ctx : Set BufferPtr}
  {m : Memory σ} {l : BufferList} {c : List BufferPtr} {packets : List Packet}

/-- What `SendPacket` leaves in an empty `write_list_`: the packets on the wire. -/
theorem sendPackets_bufferList (hP : PoolSafe P Own ctx) (hr : ListRep m.heap l c [])
    (hown : Own m.pool c) :
    Outcome (· = Fault.badAlloc)
      (fun b => ∃ c', ListRep b.1.heap b.2 c' (encodeAll packets) ∧ Own b.1.pool c')
      (sendPackets (bufferListQueue P) (m, l) packets) := by
  have h := (bufferListQueue_queues hP).sendPackets_refines (b := (m, l))
    ⟨c, hr, hown⟩ packets
  rw [sendPackets_byteQueue] at h
  exact h.outcome

/-- **Framing round-trips between two sockets**: what arrives in an empty `read_list_` in segments
is received packet by packet, and the list ends up empty. -/
theorem receiveSegments_bufferList (hP : PoolSafe P Own ctx) (hr : ListRep m.heap l c [])
    (hown : Own m.pool c) (hvalid : ∀ p ∈ packets, p.IsFrame) {segments : List (List UInt8)}
    (hcut : segments.flatten = encodeAll packets) :
    Outcome (· = Fault.badAlloc)
      (fun r => r.1 = packets.map Packet.received ∧ r.2.2.2.readableSize = 0)
      (receiveSegments (bufferListQueue P) .new (m, l) segments) := by
  have h := (bufferListQueue_queues hP).receiveSegments_refines (b := (m, l))
    ⟨c, hr, hown⟩ .new segments
  obtain ⟨packet, hrun⟩ := receiveSegments_encodeAll hvalid hcut
  rw [hrun] at h
  refine h.outcome.mono ?_
  rintro r ⟨hpackets, -, c', hr', -⟩
  exact ⟨hpackets, by simpa using hr'.readableSize_eq⟩

end Sockets

end ServerKit
