import ServerKit.Rpc.Verify.Framing

/-!
# Byte streams in segments

`OnRead` calls `RecvPacket` until it returns false, after every segment of the stream. As long as no
header with a wrong magic number is met, what it delivers is a matter of the stream and not of the
segments. A wrong header is dropped, but the parser goes on reading headers at the next `OnRead`:
`Resumes` says for which segments it then takes a later part of the stream for a packet.
-/

namespace ServerKit

open Lib

/-! ## Streams of frames -/

/-- Packets on the wire, one after another. -/
def encodeAll (ps : List Packet) : List UInt8 := (ps.map Packet.encode).flatten

@[simp] theorem encodeAll_nil : encodeAll [] = [] := rfl

@[simp] theorem encodeAll_cons (p : Packet) (ps : List Packet) :
    encodeAll (p :: ps) = p.encode ++ encodeAll ps := rfl

@[simp] theorem encodeAll_append (ps ps' : List Packet) :
    encodeAll (ps ++ ps') = encodeAll ps ++ encodeAll ps' := by
  simp [encodeAll]

@[simp] theorem encodeAll_received (ps : List Packet) :
    encodeAll (ps.map Packet.received) = encodeAll ps := by
  simp [encodeAll, Function.comp_def]

theorem length_le_encodeAll (ps : List Packet) :
    kMetaSize * ps.length ≤ (encodeAll ps).length := by
  induction ps with
  | nil => simp
  | cons p ps ih =>
    simp only [encodeAll_cons, List.length_append, Packet.encode_length, List.length_cons]
    unfold kMetaSize at *
    omega

/-- The stream `v` is the frames `ps` and then `rest`, which does not start with a frame. -/
structure Frames (v : List UInt8) (ps : List Packet) (rest : List UInt8) : Prop where
  eq : v = encodeAll ps ++ rest
  valid : ∀ p ∈ ps, p.IsFrame
  stop : ∀ p r, nextFrame rest ≠ .frame p r

namespace Frames

variable {v rest : List UInt8} {ps : List Packet}

theorem cons {p : Packet} (hp : p.IsFrame) (h : Frames v ps rest) :
    Frames (p.encode ++ v) (p :: ps) rest where
  eq := by rw [h.eq, encodeAll_cons, List.append_assoc]
  valid := by
    intro x hx
    rcases List.mem_cons.mp hx with rfl | hx
    · exact hp
    · exact h.valid x hx
  stop := h.stop

theorem append {w : List UInt8} {ps' : List Packet} {rest' : List UInt8} (h : Frames v ps rest)
    (h' : Frames (rest ++ w) ps' rest') : Frames (v ++ w) (ps ++ ps') rest' where
  eq := by rw [h.eq, encodeAll_append, List.append_assoc, h'.eq, List.append_assoc]
  valid := fun p hp => (List.mem_append.mp hp).elim (h.valid p) (h'.valid p)
  stop := h'.stop

/-- Every stream is some frames and a rest. -/
theorem exists_frames (v : List UInt8) : ∃ ps rest, Frames v ps rest := by
  induction hn : v.length using Nat.strongRecOn generalizing v with
  | ind n ih =>
    cases hv : nextFrame v with
    | short => exact ⟨[], v, rfl, by simp, by simp [hv]⟩
    | bad r => exact ⟨[], v, rfl, by simp, by simp [hv]⟩
    | frame p r =>
      obtain ⟨hp, -, rfl⟩ := eq_of_nextFrame_frame hv
      obtain ⟨ps, rest, h⟩ := ih r.length (by
        rw [← hn, List.length_append, Packet.encode_length]; unfold kMetaSize; omega) r rfl
      exact ⟨p :: ps, rest, h.cons hp⟩

/-- Frames at the front of the stream are the first of them. -/
theorem exists_append {ps' : List Packet} (h : Frames v ps rest) (hvalid : ∀ p ∈ ps', p.IsFrame) :
    ∀ {w}, v = encodeAll ps' ++ w →
      ∃ ps₂, ps.map Packet.received = (ps' ++ ps₂).map Packet.received ∧ Frames w ps₂ rest := by
  induction ps' generalizing v ps with
  | nil =>
    intro w hw
    exact ⟨ps, rfl, hw.symm.trans h.eq, h.valid, h.stop⟩
  | cons p' ps' ih =>
    intro w hw
    rw [encodeAll_cons, List.append_assoc] at hw
    have hfront := nextFrame_encode (hvalid p' (by simp)) (encodeAll ps' ++ w)
    cases ps with
    | nil =>
      have hrest : rest = v := by simpa using h.eq.symm
      exact (h.stop _ _ (by rw [hrest, hw]; exact hfront)).elim
    | cons p ps =>
      have hfront' := nextFrame_encode (h.valid p (by simp)) (encodeAll ps ++ rest)
      have heq := h.eq
      rw [encodeAll_cons, List.append_assoc] at heq
      rw [← heq, hw, hfront] at hfront'
      obtain ⟨hp, hr⟩ := Front.frame.inj hfront'
      have hrest : Frames (encodeAll ps ++ rest) ps rest :=
        ⟨rfl, fun x hx => h.valid x (List.mem_cons_of_mem _ hx), h.stop⟩
      obtain ⟨ps₂, hps, hw₂⟩ := ih hrest
        (fun x hx => hvalid x (List.mem_cons_of_mem _ hx)) hr.symm
      exact ⟨ps₂, by simp [← hp, hps], hw₂⟩

/-- A stream has one decomposition. -/
theorem unique {ps' : List Packet} {rest' : List UInt8} (h : Frames v ps rest)
    (h' : Frames v ps' rest') :
    ps.map Packet.received = ps'.map Packet.received ∧ rest = rest' := by
  obtain ⟨ps₂, hps, hrest⟩ := h.exists_append h'.valid h'.eq
  cases ps₂ with
  | nil => exact ⟨by simpa using hps, by simpa using hrest.eq.symm⟩
  | cons p ps₂ =>
    refine (h'.stop p.received (encodeAll ps₂ ++ rest) ?_).elim
    rw [hrest.eq, encodeAll_cons, List.append_assoc]
    exact nextFrame_encode (hrest.valid p (by simp)) _

/-- Behind bytes that hold no frame and no wrong header yet, a wrong header ends in what comes
next. -/
theorem bad_length_lt {v w rest r : List UInt8} {ps : List Packet} (hv : nextFrame v = .short)
    (h : Frames (v ++ w) ps rest) (hbad : nextFrame rest = .bad r) : r.length < w.length := by
  by_contra hle
  obtain ⟨p, hp, rfl⟩ := eq_of_nextFrame_bad hbad
  have heq := h.eq
  rw [← List.append_assoc] at heq
  obtain ⟨v', rfl⟩ : ∃ v', v = encodeAll ps ++ p.metaBytes ++ v' := by
    rcases List.append_eq_append_iff.mp heq with ⟨a, ha, hw⟩ | ⟨a, ha, -⟩
    · have hlen := congrArg List.length hw
      rw [List.length_append] at hlen
      obtain rfl : a = [] := List.eq_nil_of_length_eq_zero (by omega)
      exact ⟨[], by simpa using ha.symm⟩
    · exact ⟨a, ha⟩
  cases ps with
  | nil =>
    rw [encodeAll_nil, List.nil_append, nextFrame_wrong hp] at hv
    cases hv
  | cons p ps =>
    rw [encodeAll_cons, List.append_assoc, List.append_assoc,
      nextFrame_encode (h.valid p (by simp))] at hv
    cases hv

end Frames

/-! ## `OnRead` on a byte queue -/

namespace PacketParser

variable {parser : PacketParser} {b v rest : List UInt8}

/-- More bytes in the buffer are more bytes pending. -/
theorem Pending.append (hp : Pending parser b v) (s : List UInt8) :
    Pending parser (b ++ s) (v ++ s) := by
  cases hp with
  | header packet b => exact .header packet (b ++ s)
  | packet b hm =>
    rw [List.append_assoc]
    exact .packet (b ++ s) hm

theorem Pending.length_le (hp : Pending parser b v) : v.length ≤ kMetaSize + b.length := by
  cases hp with
  | header packet b => omega
  | packet b hm => simp

/-- With nothing pending the buffer is empty and no header has been taken. -/
theorem Pending.of_nil (hp : Pending parser b []) :
    ∃ packet, parser = ⟨.recvHeader, packet⟩ ∧ b = [] := by
  generalize hv : ([] : List UInt8) = v at hp
  cases hp with
  | header packet => exact ⟨packet, rfl, rfl⟩
  | packet b hm =>
    have := congrArg List.length hv
    simp only [List.length_nil, List.length_append, Packet.metaBytes_length, kMetaSize] at this
    omega

/-- The state `OnRead` leaves the parser in when it stops at `rest`: a wrong header is gone. -/
def StopsAt (rest : List UInt8) (parser : PacketParser) (b : List UInt8) : Prop :=
  Pending parser b (match nextFrame rest with | .bad r => r | _ => rest)

/-- The loop of `OnRead` delivers the frames that are there in full, one in each iteration. -/
theorem receiveLoop_spec {ps : List Packet} (h : Frames v ps rest) :
    ∀ {fuel parser b}, Pending parser b v → ps.length < fuel →
      ∃ parser' b', receiveLoop byteQueue fuel parser b =
        .ok (ps.map Packet.received, parser', b') ∧ StopsAt rest parser' b' := by
  induction ps generalizing v with
  | nil =>
    rintro (_ | fuel) parser b hp hfuel
    · omega
    obtain rfl : v = rest := by simpa using h.eq
    have hrecv := recvPacket_spec hp
    have hstop := h.stop
    unfold Receives at hrecv
    unfold StopsAt
    cases hv : nextFrame v with
    | short =>
      rw [hv] at hrecv
      obtain ⟨parser', b', hrecv, hp'⟩ := hrecv
      exact ⟨parser', b', by rw [receiveLoop, hrecv]; rfl, hp'⟩
    | bad r =>
      rw [hv] at hrecv
      obtain ⟨packet, hrecv⟩ := hrecv
      exact ⟨_, r, by rw [receiveLoop, hrecv]; rfl, .header packet r⟩
    | frame p r => exact (hstop p r hv).elim
  | cons p ps ih =>
    rintro (_ | fuel) parser b hp hfuel
    · omega
    have hp₁ := h.valid p (by simp)
    have hrecv := recvPacket_spec hp
    unfold Receives at hrecv
    rw [h.eq, encodeAll_cons, List.append_assoc, nextFrame_encode hp₁] at hrecv
    obtain ⟨parser', b', hloop, hstop⟩ := ih (v := encodeAll ps ++ rest)
      ⟨rfl, fun x hx => h.valid x (List.mem_cons_of_mem _ hx), h.stop⟩
      (.header p.received (encodeAll ps ++ rest))
      (by simp only [List.length_cons] at hfuel; omega : ps.length < fuel)
    refine ⟨parser', b', ?_, hstop⟩
    rw [receiveLoop, hrecv]
    simp only [ok_bind, if_true, hloop]
    rfl

/-- **One `OnRead`** delivers the frames among the pending bytes. -/
theorem receive_spec {ps : List Packet} (hp : Pending parser b v) (h : Frames v ps rest) :
    ∃ parser' b', receive byteQueue parser b = .ok (ps.map Packet.received, parser', b') ∧
      StopsAt rest parser' b' := by
  refine receiveLoop_spec h hp ?_
  have hlen := congrArg List.length h.eq
  have hps := length_le_encodeAll ps
  have hle := hp.length_le
  rw [List.length_append] at hlen
  unfold kMetaSize at *
  change ps.length < b.length + 2
  omega

/-- One segment: it is appended to the buffer, and `OnRead` runs. -/
theorem receiveSegments_cons {packets : List Packet} {parser' : PacketParser} {b' : List UInt8}
    {s : List UInt8} (segments : List (List UInt8))
    (h : receive byteQueue parser (b ++ s) = .ok (packets, parser', b')) :
    receiveSegments byteQueue parser b (s :: segments) =
      (receiveSegments byteQueue parser' b' segments >>= fun r => .ok (packets ++ r.1, r.2)) := by
  rw [receiveSegments]
  change (receive byteQueue parser (b ++ s) >>= _) = _
  rw [h]
  rfl

/-! ## After a wrong header -/

/-- Some `OnRead` after the wrong header finds a frame at the front of its buffer: `b` is what was
behind the wrong header, `segments` are still to come. A further wrong header is dropped at each
`OnRead`. -/
def Resumes : List UInt8 → List (List UInt8) → Prop
  | _, [] => False
  | b, s :: segments =>
    match nextFrame (b ++ s) with
    | .short => Resumes (b ++ s) segments
    | .bad rest => Resumes rest segments
    | .frame _ _ => True

/-- Segments without their first `n` bytes: what is left of the segment the `n`-th byte is in, and
the segments after it. -/
def cutAt : ℕ → List (List UInt8) → List UInt8 × List (List UInt8)
  | _, [] => ([], [])
  | n, s :: segments =>
    if n ≤ s.length then (s.drop n, segments) else cutAt (n - s.length) segments

/-- A parser that has dropped a wrong header delivers something exactly when it resumes. -/
theorem receiveSegments_resumes : ∀ (segments : List (List UInt8)) {parser b v},
    Pending parser b v →
      ∃ packets parser' b',
        receiveSegments byteQueue parser b segments = .ok (packets, parser', b') ∧
          (packets = [] ↔ ¬ Resumes v segments)
  | [], parser, b, v, _ => ⟨[], parser, b, rfl, by simp [Resumes]⟩
  | s :: segments, parser, b, v, hp => by
    obtain ⟨ps, rest, h⟩ := Frames.exists_frames (v ++ s)
    obtain ⟨parser₁, b₁, hrecv, hstop⟩ := receive_spec (hp.append s) h
    obtain ⟨packets, parser', b', hrun, hiff⟩ := receiveSegments_resumes segments hstop
    refine ⟨_, parser', b', by rw [receiveSegments_cons segments hrecv, hrun]; rfl, ?_⟩
    cases ps with
    | nil =>
      obtain rfl : rest = v ++ s := by simpa using h.eq.symm
      have hstop := h.stop
      rw [Resumes]
      cases hv : nextFrame (v ++ s) with
      | short => simpa [hv] using hiff
      | bad r => simpa [hv] using hiff
      | frame p r => exact (hstop p r hv).elim
    | cons p ps =>
      have hfront := nextFrame_encode (h.valid p (by simp)) (encodeAll ps ++ rest)
      rw [Resumes, h.eq, encodeAll_cons, List.append_assoc, hfront]
      simp

/-- **A stream in segments**: the frames it is, and behind a wrong header what the parser resumes
with. -/
theorem receiveSegments_spec : ∀ (segments : List (List UInt8)) {parser b v ps rest},
    Pending parser b v → nextFrame v = .short → Frames (v ++ segments.flatten) ps rest →
      ∃ extra parser' b',
        receiveSegments byteQueue parser b segments =
          .ok (ps.map Packet.received ++ extra, parser', b') ∧
        (∀ r, nextFrame rest = .bad r →
          let later := cutAt (segments.flatten.length - r.length) segments
          (extra = [] ↔ ¬ Resumes later.1 later.2)) ∧
        (nextFrame rest = .short → extra = [] ∧ Pending parser' b' rest)
  | [], parser, b, v, ps, rest, hp, hv, h => by
    rw [List.flatten_nil, List.append_nil] at h
    have hshort : Frames v [] v := ⟨rfl, by simp, by simp [hv]⟩
    obtain ⟨hps, rfl⟩ := h.unique hshort
    rw [hps]
    exact ⟨[], parser, b, rfl, by simp [hv], fun _ => ⟨rfl, hp⟩⟩
  | s :: segments, parser, b, v, ps, rest, hp, hv, h => by
    obtain ⟨ps₁, rest₁, h₁⟩ := Frames.exists_frames (v ++ s)
    obtain ⟨ps₂, rest₂, h₂⟩ := Frames.exists_frames (rest₁ ++ segments.flatten)
    obtain ⟨parser₁, b₁, hrecv, hstop⟩ := receive_spec (hp.append s) h₁
    rw [List.flatten_cons, ← List.append_assoc] at h
    obtain ⟨hps, rfl⟩ := h.unique (h₁.append h₂)
    rw [hps, List.map_append, receiveSegments_cons segments hrecv]
    unfold StopsAt at hstop
    cases hv₁ : nextFrame rest₁ with
    | frame p r => exact (h₁.stop p r hv₁).elim
    | short =>
      rw [hv₁] at hstop
      obtain ⟨extra, parser', b', hrun, hbad, hshort⟩ :=
        receiveSegments_spec segments hstop hv₁ h₂
      refine ⟨extra, parser', b', by rw [hrun]; simp, fun r hr => ?_, hshort⟩
      -- the wrong header ends in a later segment
      have hlt := Frames.bad_length_lt hv₁ h₂ hr
      rw [cutAt, if_neg (by rw [List.flatten_cons, List.length_append]; omega)]
      have : (s :: segments).flatten.length - r.length - s.length =
          segments.flatten.length - r.length := by
        rw [List.flatten_cons, List.length_append]; omega
      rw [this]
      exact hbad r hr
    | bad r₁ =>
      -- the wrong header ends in this segment
      rw [hv₁] at hstop
      obtain ⟨extra, parser', b', hrun, hiff⟩ := receiveSegments_resumes segments hstop
      have hlt := Frames.bad_length_lt hv h₁ hv₁
      have hfront : nextFrame (rest₁ ++ segments.flatten) = .bad (r₁ ++ segments.flatten) := by
        obtain ⟨p, hp, rfl⟩ := eq_of_nextFrame_bad hv₁
        rw [List.append_assoc, nextFrame_wrong hp]
      have hnone : Frames (rest₁ ++ segments.flatten) [] (rest₁ ++ segments.flatten) :=
        ⟨rfl, by simp, by simp [hfront]⟩
      obtain ⟨hps₂, rfl⟩ := h₂.unique hnone
      have hcut : s.drop (s.length - r₁.length) = r₁ := by
        obtain ⟨p, -, rfl⟩ := eq_of_nextFrame_bad hv₁
        have heq := h₁.eq
        rw [← List.append_assoc] at heq
        obtain ⟨a, rfl⟩ : ∃ a, s = a ++ r₁ := by
          rcases List.append_eq_append_iff.mp heq with ⟨a, -, hs⟩ | ⟨a, -, hr⟩
          · exact ⟨a, hs⟩
          · have := congrArg List.length hr
            rw [List.length_append] at this
            omega
        exact List.drop_left' (by simp)
      refine ⟨extra, parser', b', by rw [hrun, hps₂]; simp, fun r hr => ?_, by simp [hfront]⟩
      obtain rfl := Front.bad.inj (hfront.symm.trans hr)
      have hn : (s :: segments).flatten.length - (r₁ ++ segments.flatten).length =
          s.length - r₁.length := by
        simp only [List.flatten_cons, List.length_append]
        omega
      rw [hn, cutAt, if_pos (by omega), hcut]
      exact hiff

end PacketParser

/-! ## Round trip -/

open PacketParser

theorem sendPacket_byteQueue (b : List UInt8) (packet : Packet) :
    sendPacket byteQueue b packet = .ok (b ++ packet.encode) := by
  simp [sendPacket, byteQueue, Packet.encode, Packet.metaBytes]

theorem sendPackets_byteQueue (packets : List Packet) (b : List UInt8) :
    sendPackets byteQueue b packets = .ok (b ++ encodeAll packets) := by
  induction packets generalizing b with
  | nil => simp [sendPackets]
  | cons p packets ih =>
    rw [sendPackets, sendPacket_byteQueue, ok_bind, ih, encodeAll_cons, List.append_assoc]

/-- The segments of a stream of frames are received frame by frame, and nothing is left over. -/
theorem receiveSegments_encodeAll {packets : List Packet} (hvalid : ∀ p ∈ packets, p.IsFrame)
    {segments : List (List UInt8)} (hcut : segments.flatten = encodeAll packets) :
    ∃ packet, receiveSegments byteQueue .new [] segments =
      .ok (packets.map Packet.received, ⟨.recvHeader, packet⟩, []) := by
  have hshort : nextFrame [] = .short := rfl
  have hframes : Frames ([] ++ segments.flatten) packets [] :=
    ⟨by simp [hcut], hvalid, by simp [hshort]⟩
  obtain ⟨extra, parser, b, hrun, -, hend⟩ := receiveSegments_spec segments
    (.header .empty []) hshort hframes
  obtain ⟨rfl, hp⟩ := hend hshort
  obtain ⟨packet, rfl, rfl⟩ := hp.of_nil
  rw [List.append_nil] at hrun
  exact ⟨packet, hrun⟩

/-- **Framing round-trips**: what `SendPacket` has written is received packet by packet and in
order, however the stream is cut into segments, and nothing is left over. -/
theorem packets_round_trip (packets : List Packet)
    (hvalid : ∀ p ∈ packets, p.magic = kPacketMagicNum ∧ p.size.toNat = p.content.length) :
    ∃ stream, sendPackets byteQueue [] packets = .ok stream ∧
      ∀ segments : List (List UInt8), segments.flatten = stream →
        ∃ packet, receiveSegments byteQueue .new [] segments =
          .ok (packets.map Packet.received, ⟨.recvHeader, packet⟩, []) := by
  refine ⟨encodeAll packets, by simpa using sendPackets_byteQueue packets [], ?_⟩
  rintro segments hcut
  exact receiveSegments_encodeAll (fun p hp => ⟨(hvalid p hp).1, (hvalid p hp).2⟩) hcut

/-- One packet with an empty content, cut inside its header. -/
theorem packets_round_trip_cut_header :
    ∃ packet, receiveSegments byteQueue .new []
        [[0x2B, 1, 0, 0, 0, 0, 0, 0, 0, 7], [0, 0, 0, 0, 0, 0, 0, 0, 0, 0, 0]] =
      .ok ([(⟨kPacketMagicNum, 1, 7, 0, [], true⟩ : Packet)], ⟨.recvHeader, packet⟩, []) := by
  obtain ⟨stream, hsend, hreceive⟩ :=
    packets_round_trip [⟨kPacketMagicNum, 1, 7, 0, [], false⟩] (by simp)
  obtain rfl := Except.ok.inj ((sendPackets_byteQueue _ _).symm.trans hsend)
  exact hreceive _ rfl

/-! ## Any stream -/

/-- `ps` is a sequence of complete valid frames at the front of the stream `v`. -/
def FramePrefix (v : List UInt8) (ps : List Packet) : Prop :=
  (∀ p ∈ ps, p.IsFrame) ∧ encodeAll ps <+: v

/-- `ps` is the longest such sequence. -/
def LongestFrames (v : List UInt8) (ps : List Packet) : Prop :=
  FramePrefix v ps ∧ ∀ ps', FramePrefix v ps' → ps'.length ≤ ps.length

/-- Behind complete valid frames, the first `n` bytes of the stream `v` end with a header that has
a wrong magic number. -/
def WrongHeaderAt (v : List UInt8) (n : ℕ) : Prop :=
  ∃ (ps : List Packet) (h : Packet), (∀ p ∈ ps, p.IsFrame) ∧ h.magic ≠ kPacketMagicNum ∧
    encodeAll ps ++ h.metaBytes <+: v ∧ n = (encodeAll ps).length + kMetaSize

theorem Frames.longest {v rest : List UInt8} {ps ps' : List Packet} (h : Frames v ps rest)
    (h' : FramePrefix v ps') : ps'.length ≤ ps.length := by
  obtain ⟨hvalid, w, hw⟩ := h'
  obtain ⟨ps₂, hps, -⟩ := h.exists_append hvalid hw.symm
  have := congrArg List.length hps
  simp only [List.length_map, List.length_append] at this
  omega

/-- A wrong header ends where the frames stop. -/
theorem Frames.wrongHeaderAt_iff {v rest : List UInt8} {ps : List Packet} (h : Frames v ps rest)
    (n : ℕ) : WrongHeaderAt v n ↔ ∃ r, nextFrame rest = .bad r ∧ n = v.length - r.length := by
  constructor
  · rintro ⟨ps', p, hvalid, hp, ⟨r, hr⟩, rfl⟩
    rw [List.append_assoc] at hr
    have hfront := nextFrame_wrong hp r
    have h' : Frames v ps' (p.metaBytes ++ r) := ⟨hr.symm, hvalid, by simp [hfront]⟩
    obtain ⟨-, rfl⟩ := h.unique h'
    refine ⟨r, hfront, ?_⟩
    rw [← hr]
    simp only [List.length_append, Packet.metaBytes_length]
    omega
  · rintro ⟨r, hr, rfl⟩
    obtain ⟨p, hp, rfl⟩ := eq_of_nextFrame_bad hr
    refine ⟨ps, p, h.valid, hp, ⟨r, ?_⟩, ?_⟩
    · rw [List.append_assoc]; exact h.eq.symm
    · rw [h.eq]
      simp only [List.length_append, Packet.metaBytes_length]
      omega

/-- **What is delivered of any stream**: the longest sequence of valid frames at its front, except
when an `OnRead` after the first wrong header finds a frame in what is behind it. -/
theorem delivered_longest_iff (segments : List (List UInt8)) :
    ∃ packets parser b,
      receiveSegments byteQueue .new [] segments = .ok (packets, parser, b) ∧
      (LongestFrames segments.flatten packets ↔
        ¬ ∃ n, WrongHeaderAt segments.flatten n ∧
          Resumes (cutAt n segments).1 (cutAt n segments).2) := by
  obtain ⟨ps, rest, h⟩ := Frames.exists_frames segments.flatten
  obtain ⟨extra, parser, b, hrun, hbad, hshort⟩ := receiveSegments_spec segments
    (.header .empty []) rfl (by rwa [List.nil_append])
  have hlongest : LongestFrames segments.flatten (ps.map Packet.received ++ extra) ↔
      extra = [] := by
    constructor
    · rintro ⟨hpre, -⟩
      have := h.longest hpre
      rw [List.length_append, List.length_map] at this
      exact List.eq_nil_of_length_eq_zero (by omega)
    · rintro rfl
      rw [List.append_nil]
      refine ⟨⟨?_, ?_⟩, fun ps' h' => by simpa using h.longest h'⟩
      · intro p hp
        obtain ⟨q, hq, rfl⟩ := List.mem_map.mp hp
        exact ⟨(h.valid q hq).magic, (h.valid q hq).size⟩
      · rw [encodeAll_received]
        exact ⟨rest, h.eq.symm⟩
  refine ⟨_, parser, b, hrun, hlongest.trans ?_⟩
  simp only [h.wrongHeaderAt_iff]
  cases hrest : nextFrame rest with
  | short => simp [(hshort hrest).1]
  | bad r =>
    refine (hbad r hrest).trans (not_congr ?_)
    constructor
    · exact fun hr => ⟨_, ⟨r, rfl, rfl⟩, hr⟩
    · rintro ⟨_, ⟨r', hr', rfl⟩, hr⟩
      obtain rfl := Front.bad.inj hr'
      exact hr
  | frame p r => exact (h.stop p r hrest).elim

/-- A header of zeros, and a valid frame with an empty content: in one segment nothing is
delivered, and in two the frame is. -/
theorem delivered_after_wrong_header :
    let zeros : List UInt8 := List.replicate 21 0
    let frame : List UInt8 := 0x2B :: List.replicate 20 0
    let packet : Packet := ⟨kPacketMagicNum, 0, 0, 0, [], true⟩
    (∃ parser b, receiveSegments byteQueue .new [] [zeros ++ frame] = .ok ([], parser, b)) ∧
    (∃ parser b, receiveSegments byteQueue .new [] [zeros, frame] = .ok ([packet], parser, b)) ∧
    ¬ LongestFrames (zeros ++ frame) [packet] := by
  refine ⟨⟨_, _, rfl⟩, ⟨_, _, rfl⟩, ?_⟩
  rintro ⟨⟨-, h⟩, -⟩
  exact absurd h (by decide)

end ServerKit
