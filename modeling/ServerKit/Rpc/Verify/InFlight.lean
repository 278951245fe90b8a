import ServerKit.Rpc.Verify.Segments

/-!
# Packets on the way

One side writes packets to its `write_list_`, the transport moves bytes from there to the
`read_list_` of the other side, and the other side's parser takes packets from it. `InFlight` says
which packets are on the way: it is kept by sending, by moving any number of bytes, and by
`RecvPacket`.
-/

namespace ServerKit

open Lib

/-- The packets `ps` are on the way: in the parser, in the `read_list_` behind it, and in the
`write_list_`. Behind an `OnRead` (`reads` is false) none of them is there in full. -/
def InFlight (reads : Bool) (parser : PacketParser) (readList writeList : List UInt8)
    (ps : List Packet) : Prop :=
  ∃ v, PacketParser.Pending parser readList v ∧ v ++ writeList = encodeAll ps ∧
    (reads = false → nextFrame v = .short)

namespace InFlight

variable {reads : Bool} {parser parser' : PacketParser} {readList readList' writeList : List UInt8}
  {ps : List Packet}

theorem new : InFlight false .new [] [] [] := ⟨[], .header _ _, rfl, fun _ => rfl⟩

/-- More packets are sent. -/
theorem send (h : InFlight reads parser readList writeList ps) (qs : List Packet) :
    InFlight reads parser readList (writeList ++ encodeAll qs) (ps ++ qs) := by
  obtain ⟨v, hp, heq, hrest⟩ := h
  refine ⟨v, hp, ?_, hrest⟩
  rw [← List.append_assoc, heq, encodeAll_append]

/-- A segment arrives, and `OnRead` is called. -/
theorem move (h : InFlight reads parser readList writeList ps) (n : ℕ) :
    InFlight true parser (readList ++ writeList.take n) (writeList.drop n) ps := by
  obtain ⟨v, hp, heq, -⟩ := h
  refine ⟨v ++ writeList.take n, hp.append _, ?_, nofun⟩
  rw [List.append_assoc, List.take_append_drop, heq]

/-- What stands in front of frames is not a wrong header. -/
theorem not_bad {v rest r : List UInt8} (hframes : ∀ p ∈ ps, p.IsFrame)
    (h : v ++ rest = encodeAll ps) : nextFrame v ≠ .bad r := by
  intro hbad
  obtain ⟨p, hp, rfl⟩ := eq_of_nextFrame_bad hbad
  cases ps with
  | nil =>
    have hlen := congrArg List.length h
    simp [kMetaSize] at hlen
  | cons q qs =>
    rw [List.append_assoc, encodeAll_cons] at h
    have hq := nextFrame_encode (hframes q (by simp)) (encodeAll qs)
    rw [← h, nextFrame_wrong hp] at hq
    cases hq

/-- `RecvPacket` returns true: the first packet on the way has arrived. -/
theorem recv_true (h : InFlight reads parser readList writeList ps)
    (hframes : ∀ p ∈ ps, p.IsFrame)
    (hrecv : PacketParser.recvPacket byteQueue parser readList = .ok (true, parser', readList')) :
    ∃ p qs, ps = p :: qs ∧ parser'.packet = p.received ∧
      InFlight true parser' readList' writeList qs := by
  obtain ⟨v, hp, heq, -⟩ := h
  have hspec := PacketParser.recvPacket_spec hp
  unfold PacketParser.Receives at hspec
  cases hv : nextFrame v with
  | short =>
    rw [hv] at hspec
    obtain ⟨_, _, hr, -⟩ := hspec
    rw [hrecv] at hr
    cases hr
  | bad r =>
    rw [hv] at hspec
    obtain ⟨_, hr⟩ := hspec
    rw [hrecv] at hr
    cases hr
  | frame packet rest =>
    rw [hv] at hspec
    have hr := Except.ok.inj (hrecv.symm.trans hspec)
    simp only [Prod.mk.injEq, true_and] at hr
    obtain ⟨rfl, rfl⟩ := hr
    obtain ⟨hpacket, hreceived, rfl⟩ := eq_of_nextFrame_frame hv
    cases ps with
    | nil =>
      have hlen := congrArg List.length heq
      simp [kMetaSize] at hlen
    | cons p qs =>
      rw [List.append_assoc, encodeAll_cons] at heq
      have hfront := nextFrame_encode hpacket (readList' ++ writeList)
      rw [heq, nextFrame_encode (hframes p (by simp))] at hfront
      obtain ⟨hpeq, hqs⟩ := Front.frame.inj hfront
      refine ⟨p, qs, rfl, ?_, readList', .header _ _, hqs.symm, Bool.noConfusion⟩
      rw [hpeq, hreceived]

/-- `RecvPacket` returns false: nothing is lost, and no packet is there in full. -/
theorem recv_false (h : InFlight reads parser readList writeList ps)
    (hframes : ∀ p ∈ ps, p.IsFrame)
    (hrecv : PacketParser.recvPacket byteQueue parser readList = .ok (false, parser', readList')) :
    InFlight false parser' readList' writeList ps := by
  obtain ⟨v, hp, heq, -⟩ := h
  have hspec := PacketParser.recvPacket_spec hp
  unfold PacketParser.Receives at hspec
  cases hv : nextFrame v with
  | short =>
    rw [hv] at hspec
    obtain ⟨_, _, hr, hp'⟩ := hspec
    have hr := Except.ok.inj (hrecv.symm.trans hr)
    simp only [Prod.mk.injEq, true_and] at hr
    obtain ⟨rfl, rfl⟩ := hr
    exact ⟨v, hp', heq, fun _ => hv⟩
  | bad r => exact absurd hv (not_bad hframes heq)
  | frame packet rest =>
    rw [hv] at hspec
    rw [hrecv] at hspec
    cases hspec

/-- When all bytes have been moved and `OnRead` has returned, no packet is on the way. -/
theorem eq_nil (h : InFlight false parser readList [] ps) (hframes : ∀ p ∈ ps, p.IsFrame) :
    ps = [] := by
  obtain ⟨v, -, heq, hshort⟩ := h
  cases ps with
  | nil => rfl
  | cons p qs =>
    rw [List.append_nil, encodeAll_cons] at heq
    have hfront := nextFrame_encode (hframes p (by simp)) (encodeAll qs)
    rw [← heq, hshort rfl] at hfront
    cases hfront

end InFlight

end ServerKit
