import ServerKit.Core.Verify.Streams
import ServerKit.Rpc.PacketPeers
import ServerKit.Rpc.Verify.InFlight
import ServerKit.Rpc.Verify.SocketBuffers
import ServerKit.Rpc.Verify.Dispatch

/-!
# Packets arrive

`SendPacket` at one end of a connection is `RecvPacket` at the other, over the Buffers of two event
loops and whatever `::write` and `::read` make of the bytes. `RecvPacket` on a Socket does what it
does on the queue of the bytes that have arrived (`Logged.ReadsFrom`), and along the connection the
packets are on the way (`InFlight`).
-/

namespace ServerKit

open Lib

/-! ## Calls of `Read` and `Write` -/

namespace Logged

variable {v w w' : Logged ObjectList} {k : SocketPtr}

theorem read_eq {s : Socket} {n total : ℕ} {bytes : List UInt8} {m : Memory ObjectList}
    {readList : BufferList} (hk : w.loop.sockets k = some s)
    (hread : BufferList.readBytes objectPool w.loop.mem s.readList n =
      .ok ((total, bytes), m, readList)) :
    w.read k n = .ok (bytes, ⟨(w.loop.setMem m).setSocket k (s.setReadList readList),
      fun j => w.loop.record j (w.logs j) (.read k bytes)⟩) := by
  simp only [read, hk, hread, ok_bind]
  rfl

/-- `Read` is a step of the loop. -/
theorem read_step {n : ℕ} {bytes : List UInt8} (hw : w.loop.UserRuns)
    (h : w.read k n = .ok (bytes, w')) : LoggedStep objectPool w (.read k bytes) w' := by
  unfold read at h
  cases hk : w.loop.sockets k with
  | none =>
    rw [hk] at h
    cases h
  | some s =>
    rw [hk] at h
    obtain ⟨⟨⟨total, bytes'⟩, m, readList⟩, hread, hret⟩ := bind_eq_ok.mp h
    obtain ⟨rfl, rfl⟩ := Prod.mk.inj (Except.ok.inj hret)
    exact .step (.read hw hk hread)

/-- `Write` is a step of the loop. -/
theorem write_step {src : List UInt8} (hw : w.loop.UserRuns) (h : w.write k src = .ok w') :
    LoggedStep objectPool w (.write k src) w' := by
  unfold write at h
  cases hk : w.loop.sockets k with
  | none =>
    rw [hk] at h
    cases h
  | some s =>
    rw [hk] at h
    dsimp only at h
    split at h
    · cases h
    · next hpoller =>
      obtain ⟨⟨total, m, writeList⟩, hwrite, hret⟩ := bind_eq_ok.mp h
      obtain rfl := Except.ok.inj hret
      exact .step (.write hw hk (by simpa using hpoller) hwrite)

/-- Runs in which no `::write` takes more than the contiguous bytes. -/
abbrev RunWithin (w : Logged ObjectList) (es : List LoopEvent) (w' : Logged ObjectList) : Prop :=
  Run (Lts.restrict (LoggedStep objectPool) fun w e => w.loop.WithinBuffer e) w es w'

/-- Other code runs on behind a `Read` or a `Write`. -/
theorem userRuns_step {e : LoopEvent} (he : (∃ bytes, e = .read k bytes) ∨ ∃ src, e = .write k src)
    (hs : LoggedStep objectPool w e w') (hw : w.loop.UserRuns) : w'.loop.UserRuns := by
  cases hs with
  | step hs =>
    cases hs with
    | read => exact hw
    | write =>
      unfold EventLoop.afterWrite
      split <;> exact hw
    | _ => rcases he with ⟨_, he⟩ | ⟨_, he⟩ <;> cases he

/-- What a run of `Read`s adds to the histories. -/
theorem logs_of_reads {chunks : List (List UInt8)} :
    ∀ {w}, RunWithin w (chunks.map (.read k)) w' →
      w'.logs = Function.update w.logs k ((w.logs k).take chunks.flatten) := by
  induction chunks with
  | nil =>
    intro w hrun
    cases hrun
    exact (by simp [StreamLog.take])
  | cons bytes chunks ih =>
    intro w hrun
    cases hrun with
    | cons hs hrun =>
      cases hs.2 with
      | step hs =>
        rw [ih hrun]
        funext j
        by_cases hj : j = k
        · subst hj
          simp [EventLoop.record, StreamLog.take]
        · simp [EventLoop.record, hj, Ne.symm hj]

/-- What a run of `Write`s adds to the histories. -/
theorem logs_of_writes {chunks : List (List UInt8)} :
    ∀ {w}, RunWithin w (chunks.map (.write k)) w' →
      w'.logs = Function.update w.logs k ((w.logs k).write chunks.flatten) := by
  induction chunks with
  | nil =>
    intro w hrun
    cases hrun
    exact (by simp [StreamLog.write])
  | cons src chunks ih =>
    intro w hrun
    cases hrun with
    | cons hs hrun =>
      cases hs.2 with
      | step hs =>
        rw [ih hrun]
        funext j
        by_cases hj : j = k
        · subst hj
          simp [EventLoop.record, StreamLog.write]
        · simp [EventLoop.record, hj, Ne.symm hj]

/-! ## `RecvPacket` on a Socket -/

/-- `w` has been reached from `v` by `Read`s of the Socket `k`, and `q` has arrived there and has
not been read. -/
structure ReadsFrom (v : Logged ObjectList) (k : SocketPtr) (w : Logged ObjectList)
    (q : List UInt8) : Prop where
  ok : w.Ok
  userRuns : w.loop.UserRuns
  socket : w.loop.sockets k ≠ none
  arrived : (w.logs k).read ++ q = (w.logs k).received
  run : ∃ chunks : List (List UInt8), RunWithin v (chunks.map (.read k)) w

namespace ReadsFrom

variable {q : List UInt8}

/-- The bytes that have arrived are those in `read_list_`. -/
theorem queued (h : ReadsFrom v k w q) {s : Socket} (hk : w.loop.sockets k = some s) :
    Queued w.loop.mem s.readList q := by
  obtain ⟨input, output, hs⟩ := h.ok.streams k
  have hinput : input = q :=
    List.append_cancel_left (hs.balanced.input_eq.trans h.arrived.symm)
  exact hinput ▸ (hs.queued s hk).1

theorem read (h : ReadsFrom v k w q) (n : ℕ) :
    ∃ w', w.read k n = .ok (q.take n, w') ∧ ReadsFrom v k w' (q.drop n) := by
  obtain ⟨s, hk⟩ := Option.ne_none_iff_exists'.mp h.socket
  obtain ⟨m, readList, hread⟩ := (h.queued hk).2 n
  have hret := read_eq hk hread
  have hstep := read_step h.userRuns hret
  have hwithin : w.loop.WithinBuffer (.read k (q.take n)) := EventLoop.withinBuffer_of_ne (by simp)
  obtain ⟨chunks, hrun⟩ := h.run
  refine ⟨_, hret, h.ok.step hwithin hstep, userRuns_step (.inl ⟨_, rfl⟩) hstep h.userRuns, ?_, ?_,
    chunks ++ [q.take n], ?_⟩
  · simp [EventLoop.setSocket]
  · have harrived := h.arrived
    simp only [EventLoop.record, StreamLog.take, if_true]
    rw [List.append_assoc, List.take_append_drop]
    exact harrived
  · rw [List.map_append]
    exact hrun.snoc ⟨hwithin, hstep⟩

end ReadsFrom

/-- The Socket as `RecvPacket` uses it, which does not write. -/
def readSide (k : SocketPtr) : SocketBuffer (Logged ObjectList) :=
  { socket k with write := fun _ _ => .error .badAlloc }

theorem recvPacket_readSide (k : SocketPtr) (parser : PacketParser) (w : Logged ObjectList) :
    PacketParser.recvPacket (socket k) parser w = PacketParser.recvPacket (readSide k) parser w :=
  rfl

/-- What has arrived at the Socket is a byte queue. -/
theorem readSide_queues (v : Logged ObjectList) (k : SocketPtr) :
    (readSide k).Queues (ReadsFrom v k) where
  readBufferSize := by
    intro w q h
    obtain ⟨s, hk⟩ := Option.ne_none_iff_exists'.mp h.socket
    simp only [readSide, socket, hk]
    exact (h.queued hk).1
  read := by
    intro w q n h
    obtain ⟨w', hread, hw'⟩ := h.read n
    change Outcome _ _ (w.read k n)
    rw [hread]
    exact ⟨rfl, hw'⟩
  write := fun _ _ => rfl

/-- **`RecvPacket` on a Socket** does what it does on the bytes that have arrived. -/
theorem recvPacket_refines {q : List UInt8} (h : ReadsFrom w k w q) (parser : PacketParser) :
    Refines (· = Fault.badAlloc) (SameValues (ReadsFrom w k))
      (PacketParser.recvPacket (socket k) parser w)
      (PacketParser.recvPacket byteQueue parser q) := by
  rw [recvPacket_readSide]
  exact (readSide_queues w k).recvPacket_refines h parser

/-! ## `SendPacket` on a Socket -/

/-- `SendPacket` is five `Write`s. -/
theorem sendPacket_run {packet : Packet} (hw : w.loop.UserRuns)
    (h : PacketParser.sendPacket (socket k) w packet = .ok w') :
    ∃ chunks : List (List UInt8), chunks.flatten = packet.encode ∧
      RunWithin w (chunks.map (.write k)) w' := by
  have hwithin : ∀ (w : Logged ObjectList) src, w.loop.WithinBuffer (.write k src) :=
    fun w src => EventLoop.withinBuffer_of_ne (by simp)
  have hwrite : ∀ {w w' : Logged ObjectList} {src}, w.loop.UserRuns → w.write k src = .ok w' →
      (Lts.restrict (LoggedStep objectPool) fun w e => w.loop.WithinBuffer e) w (.write k src) w' ∧
        w'.loop.UserRuns :=
    fun hw h => ⟨⟨hwithin _ _, write_step hw h⟩,
      userRuns_step (.inr ⟨_, rfl⟩) (write_step hw h) hw⟩
  obtain ⟨w₁, h₁, h⟩ := bind_eq_ok.mp h
  obtain ⟨w₂, h₂, h⟩ := bind_eq_ok.mp h
  obtain ⟨w₃, h₃, h⟩ := bind_eq_ok.mp h
  obtain ⟨w₄, h₄, h₅⟩ := bind_eq_ok.mp h
  obtain ⟨hs₁, hw⟩ := hwrite hw h₁
  obtain ⟨hs₂, hw⟩ := hwrite hw h₂
  obtain ⟨hs₃, hw⟩ := hwrite hw h₃
  obtain ⟨hs₄, hw⟩ := hwrite hw h₄
  obtain ⟨hs₅, -⟩ := hwrite hw h₅
  exact ⟨[packet.magicBytes, packet.guidBytes, packet.methodIdBytes, packet.sizeBytes,
    packet.content], by simp [Packet.encode, Packet.metaBytes],
    .cons hs₁ <| .cons hs₂ <| .cons hs₃ <| .cons hs₄ <| .single hs₅⟩

end Logged

/-- `RecvPacket` returns. -/
theorem InFlight.exists_recv {reads : Bool} {parser : PacketParser}
    {readList writeList : List UInt8} {ps : List Packet}
    (h : InFlight reads parser readList writeList ps) :
    ∃ r, PacketParser.recvPacket byteQueue parser readList = .ok r := by
  obtain ⟨v, hp, -, -⟩ := h
  have hspec := PacketParser.recvPacket_spec hp
  unfold PacketParser.Receives at hspec
  cases hv : nextFrame v with
  | short =>
    rw [hv] at hspec
    obtain ⟨_, _, hr, -⟩ := hspec
    exact ⟨_, hr⟩
  | bad r =>
    rw [hv] at hspec
    obtain ⟨_, hr⟩ := hspec
    exact ⟨_, hr⟩
  | frame packet rest =>
    rw [hv] at hspec
    exact ⟨_, hspec⟩

/-! ## Connected loops -/

/-- A run of one loop in which nothing arrives keeps the invariant of connected loops. -/
theorem Peers.Ok.run_loop {ι : Type} [DecidableEq ι] {wiring : Wiring ι} {w : Peers ι} {i : ι}
    {es : List LoopEvent} {v : Logged ObjectList} (hw : w.Ok wiring)
    (hrun : Logged.RunWithin (w i) es v) (hes : ∀ e ∈ es, ∀ src, e ≠ .sysRead (.bytes src)) :
    Peers.Ok wiring (Function.update w i v) := by
  have hpeers := Peers.run_of_loop wiring hrun hes w i
  rw [Function.update_eq_self] at hpeers
  exact hpeers.invariant (Peers.Ok wiring) (fun _ _ _ hok hs => hok.step hs.1 hs.2) hw

/-- The history of a Socket of one of the loops. -/
def Peers.log {ι : Type} (w : Peers ι) (place : ι × SocketPtr) : StreamLog :=
  (w place.1).logs place.2

theorem Peers.log_update {ι : Type} [DecidableEq ι] {w : Peers ι} {i : ι} {k : SocketPtr}
    {v : Logged ObjectList} {log : StreamLog} (h : v.logs = Function.update (w i).logs k log) :
    Peers.log (Function.update w i v) = Function.update w.log (i, k) log := by
  funext ⟨j, m⟩
  unfold Peers.log
  by_cases hj : j = i
  · subst hj
    by_cases hm : m = k
    · subst hm
      simp [h]
    · simp [h, hm]
  · simp [hj]

/-- What has arrived at one end has been written at the other. -/
theorem Peers.Ok.received_prefix {ι : Type} {wiring : Wiring ι} {w : Peers ι} (hw : w.Ok wiring)
    {here there : ι × SocketPtr} (hwire : wiring here.1 here.2 = some there) :
    (w.log here).received <+: (w.log there).written := by
  obtain ⟨_, output, hs⟩ := (hw.loops there.1).streams there.2
  exact (hw.wires _ _ _ _ hwire).trans ⟨output, hs.balanced.output_eq⟩

namespace PacketPeers

variable {ι T Msg : Type} {pb : Protobuf T Msg} {wiring : Wiring ι} {w w' : PacketPeers ι}
  {here there : ι × SocketPtr}

/-- The packets between the two ends of a connection: those received are the first of those sent,
and the others are on the way. -/
structure Link (w : PacketPeers ι) (here there : ι × SocketPtr) : Prop where
  received : w.received here =
    ((w.sent there).take (w.received here).length).map Packet.received
  inFlight : ∃ input rest, (w.peers.log here).read ++ input = (w.peers.log here).received ∧
    (w.peers.log here).received ++ rest = (w.peers.log there).written ∧
    InFlight true (w.parser here) input rest ((w.sent there).drop (w.received here).length)

/-- The invariant. -/
structure Ok (wiring : Wiring ι) (w : PacketPeers ι) : Prop where
  peers : w.peers.Ok wiring
  isFrame : ∀ place, ∀ p ∈ w.sent place, p.IsFrame
  written : ∀ place, (w.peers.log place).written = encodeAll (w.sent place)
  links : ∀ here there, wiring here.1 here.2 = some there → w.Link here there

theorem ok_new {peers : Peers ι} (hstart : ∀ i, (peers i).Start) :
    (PacketPeers.new peers).Ok wiring := by
  have hlog : ∀ place, peers.log place = .new := fun place => (hstart place.1).2.2 place.2
  refine ⟨⟨fun i => (hstart i).ok, fun i k _ _ _ => ?_⟩, nofun,
    fun place => congrArg StreamLog.written (hlog place),
    fun here there _ => ⟨rfl, [], [], ?_, ?_, [], .header _ _, rfl, nofun⟩⟩
  · rw [show ((new peers).peers i).logs k = .new from hlog (i, k)]
    exact List.nil_prefix
  · change (peers.log here).read ++ [] = (peers.log here).received
    rw [hlog]
    rfl
  · change (peers.log here).received ++ [] = (peers.log there).written
    rw [hlog, hlog]
    rfl

theorem Link.le (h : w.Link here there) : (w.received here).length ≤ (w.sent there).length := by
  have hlength := congrArg List.length h.received
  rw [List.length_map, List.length_take] at hlength
  omega

/-- Bytes arrive, or nothing happens to the two ends. -/
theorem Link.arrive (h : w.Link here there) {peers : Peers ι}
    (hread : (peers.log here).read = (w.peers.log here).read)
    (hreceived : (w.peers.log here).received <+: (peers.log here).received)
    (hwritten : (peers.log there).written = (w.peers.log there).written)
    (hpre : (peers.log here).received <+: (peers.log there).written) :
    (w.setPeers peers).Link here there := by
  obtain ⟨input, rest, hinput, hrest, hflight⟩ := h.inFlight
  obtain ⟨src, hsrc⟩ := hreceived
  obtain ⟨later, hlater⟩ := hpre
  refine ⟨h.received, input ++ src, later, ?_, hlater, ?_⟩
  · change (peers.log here).read ++ (input ++ src) = (peers.log here).received
    rw [hread, ← hsrc, ← hinput, List.append_assoc]
  · obtain rfl : rest = src ++ later := by
      rw [hwritten, ← hrest, ← hsrc, List.append_assoc] at hlater
      exact (List.append_cancel_left hlater).symm
    have hmove := hflight.move src.length
    rw [List.take_left, List.drop_left] at hmove
    exact hmove

/-- More packets are sent at the other end, or none. -/
theorem Link.send (h : w.Link here there) (packets : List Packet)
    (hsent : w'.sent there = w.sent there ++ packets)
    (hreceived : w'.received here = w.received here) (hparser : w'.parser here = w.parser here)
    (hread : (w'.peers.log here).read = (w.peers.log here).read)
    (hbytes : (w'.peers.log here).received = (w.peers.log here).received)
    (hwritten : (w'.peers.log there).written = (w.peers.log there).written ++ encodeAll packets) :
    w'.Link here there := by
  obtain ⟨input, rest, hinput, hrest, hflight⟩ := h.inFlight
  refine ⟨?_, input, rest ++ encodeAll packets, ?_, ?_, ?_⟩
  · rw [hreceived, hsent, List.take_append_of_le_length h.le]
    exact h.received
  · rw [hread, hbytes]
    exact hinput
  · rw [hbytes, hwritten, ← List.append_assoc, hrest]
  · rw [hparser, hreceived, hsent, List.drop_append_of_le_length h.le]
    exact hflight.send packets

section Steps

variable [DecidableEq ι]

/-- What a step of a loop does to the histories, when other code neither reads nor writes. -/
theorem log_loop {i : ι} {e : LoopEvent} {peers peers' : Peers ι}
    (hread : ∀ k bytes, e ≠ .read k bytes) (hwrite : ∀ k src, e ≠ .write k src)
    (hs : PeersStep wiring peers (i, e) peers') (place : ι × SocketPtr) :
    (peers'.log place).read = (peers.log place).read ∧
      (peers'.log place).written = (peers.log place).written ∧
      (peers.log place).received <+: (peers'.log place).received := by
  cases hs with
  | @step _ _ _ v _ hs =>
    cases hs with
    | step hs =>
      unfold Peers.log
      by_cases hi : place.1 = i
      · rw [hi, Function.update_self]
        change ((peers i).loop.record place.2 ((peers i).logs place.2) e).read = _ ∧
          ((peers i).loop.record place.2 ((peers i).logs place.2) e).written = _ ∧
          _ <+: ((peers i).loop.record place.2 ((peers i).logs place.2) e).received
        unfold EventLoop.record
        split
        · exact absurd rfl (hwrite _ _)
        · exact absurd rfl (hread _ _)
        · split <;> exact ⟨rfl, rfl, List.prefix_refl _⟩
        · split
          · exact ⟨rfl, rfl, List.prefix_append _ _⟩
          · exact ⟨rfl, rfl, List.prefix_refl _⟩
        · exact ⟨rfl, rfl, List.prefix_refl _⟩
      · rw [Function.update_of_ne hi]
        exact ⟨rfl, rfl, List.prefix_refl _⟩

theorem Ok.loop (h : w.Ok wiring) {i : ι} {e : LoopEvent} {peers : Peers ι}
    (hread : ∀ k bytes, e ≠ .read k bytes) (hwrite : ∀ k src, e ≠ .write k src)
    (hwithin : w.peers.WithinBuffer (i, e)) (hs : PeersStep wiring w.peers (i, e) peers) :
    (w.setPeers peers).Ok wiring := by
  have hpeers := h.peers.step hwithin hs
  have hlog := log_loop hread hwrite hs
  refine ⟨hpeers, h.isFrame, fun place => (hlog place).2.1.trans (h.written place),
    fun here there hwire => ?_⟩
  exact (h.links here there hwire).arrive (hlog here).1 (hlog here).2.2 (hlog there).2.1
    (hpeers.received_prefix hwire)

theorem Ok.sendPacket (h : w.Ok wiring) {i : ι} {k : SocketPtr} {packet : Packet}
    {v : Logged ObjectList} (hframe : packet.IsFrame) (hw : (w.peers i).loop.UserRuns)
    (hsend : PacketParser.sendPacket (Logged.socket k) (w.peers i) packet = .ok v) :
    ((w.setPeers (Function.update w.peers i v)).addSent (i, k) packet).Ok wiring := by
  obtain ⟨chunks, hchunks, hrun⟩ := Logged.sendPacket_run hw hsend
  have hpeers := h.peers.run_loop hrun (by simp)
  have hlog := Peers.log_update (w := w.peers) (Logged.logs_of_writes hrun)
  rw [hchunks] at hlog
  have hold : ∀ place, (Peers.log (Function.update w.peers i v) place).read =
      (w.peers.log place).read ∧ (Peers.log (Function.update w.peers i v) place).received =
      (w.peers.log place).received := by
    intro place
    rw [hlog]
    by_cases hplace : place = (i, k)
    · rw [hplace, Function.update_self]
      exact ⟨rfl, rfl⟩
    · rw [Function.update_of_ne hplace]
      exact ⟨rfl, rfl⟩
  refine ⟨hpeers, fun place p hp => ?_, fun place => ?_, fun here there hwire => ?_⟩
  · change p ∈ Function.update w.sent (i, k) (w.sent (i, k) ++ [packet]) place at hp
    by_cases hplace : place = (i, k)
    · rw [hplace, Function.update_self] at hp
      rcases List.mem_append.mp hp with hp | hp
      · exact h.isFrame _ p hp
      · rw [List.mem_singleton.mp hp]
        exact hframe
    · rw [Function.update_of_ne hplace] at hp
      exact h.isFrame place p hp
  · change (Peers.log (Function.update w.peers i v) place).written =
      encodeAll (Function.update w.sent (i, k) (w.sent (i, k) ++ [packet]) place)
    rw [hlog]
    by_cases hplace : place = (i, k)
    · rw [hplace, Function.update_self, Function.update_self, encodeAll_append, encodeAll_cons,
        encodeAll_nil, List.append_nil, ← h.written (i, k)]
      rfl
    · rw [Function.update_of_ne hplace, Function.update_of_ne hplace]
      exact h.written place
  · have hlink := h.links here there hwire
    by_cases hthere : there = (i, k)
    · subst hthere
      refine hlink.send [packet] (Function.update_self ..) rfl rfl (hold here).1 (hold here).2 ?_
      change (Peers.log (Function.update w.peers i v) (i, k)).written = _
      rw [hlog, Function.update_self, encodeAll_cons, encodeAll_nil, List.append_nil]
      rfl
    · refine hlink.send [] ?_ rfl rfl (hold here).1 (hold here).2 ?_
      · rw [List.append_nil]
        exact Function.update_of_ne hthere ..
      · change (Peers.log (Function.update w.peers i v) there).written = _
        rw [hlog, Function.update_of_ne hthere, encodeAll_nil, List.append_nil]

/-- `RecvPacket` at this end. -/
theorem Link.recvPacket (h : w.Link here there) (hframe : ∀ p ∈ w.sent there, p.IsFrame)
    {ret : Bool} {parser : PacketParser} {peers : Peers ι} {q q' : List UInt8}
    (hq : (w.peers.log here).read ++ q = (w.peers.log here).received)
    (hrecv : PacketParser.recvPacket byteQueue (w.parser here) q = .ok (ret, parser, q'))
    (hq' : (peers.log here).read ++ q' = (peers.log here).received)
    (hbytes : (peers.log here).received = (w.peers.log here).received)
    (hwritten : (peers.log there).written = (w.peers.log there).written) :
    ((w.setPeers peers).addReceived here parser ret).Link here there := by
  obtain ⟨input, rest, hinput, hrest, hflight⟩ := h.inFlight
  obtain rfl : q = input := List.append_cancel_left (hq.trans hinput.symm)
  have hframes : ∀ p ∈ (w.sent there).drop (w.received here).length, p.IsFrame :=
    fun p hp => hframe p (List.mem_of_mem_drop hp)
  have hrest' : (peers.log here).received ++ rest = (peers.log there).written := by
    rw [hbytes, hwritten, hrest]
  have hreceived := (w.setPeers peers).addReceived_self here parser ret
  have hparser : ((w.setPeers peers).addReceived here parser ret).parser here = parser :=
    Function.update_self ..
  cases ret with
  | true =>
    obtain ⟨p, qs, hdrop, hpacket, hnext⟩ := hflight.recv_true hframes hrecv
    have hget : (w.sent there)[(w.received here).length]? = some p := by
      rw [← List.head?_drop, hdrop]
      rfl
    have hqs : (w.sent there).drop ((w.received here).length + 1) = qs := by
      rw [← List.tail_drop, hdrop]
      rfl
    refine ⟨?_, q', rest, hq', hrest', ?_⟩
    · rw [hreceived, if_pos rfl, List.length_append, List.length_singleton]
      change _ = (((w.sent there).take ((w.received here).length + 1)).map Packet.received)
      rw [List.take_add_one, hget, List.map_append, ← h.received, PacketParser.getPacket, hpacket]
      rfl
    · rw [hparser, hreceived, if_pos rfl, List.length_append, List.length_singleton]
      change InFlight true parser q' rest ((w.sent there).drop ((w.received here).length + 1))
      rw [hqs]
      exact hnext
  | false =>
    obtain ⟨v, hpending, hbytes', -⟩ := hflight.recv_false hframes hrecv
    have hreceived := hreceived.trans (List.append_nil _)
    refine ⟨?_, q', rest, hq', hrest', ?_⟩
    · rw [hreceived]
      exact h.received
    · rw [hparser, hreceived]
      exact ⟨v, hpending, hbytes', by simp⟩

theorem Ok.recvPacket (h : w.Ok wiring) {i : ι} {k : SocketPtr} {ret : Bool}
    {parser : PacketParser} {v : Logged ObjectList} (hw : (w.peers i).loop.UserRuns)
    (hk : (w.peers i).loop.sockets k ≠ none)
    (hrecv : PacketParser.recvPacket (Logged.socket k) (w.parser (i, k)) (w.peers i) =
      .ok (ret, parser, v)) :
    ((w.setPeers (Function.update w.peers i v)).addReceived (i, k) parser ret).Ok wiring := by
  obtain ⟨q, output, hstreams⟩ := (h.peers.loops i).streams k
  have hq := hstreams.balanced.input_eq
  have hfrom : (w.peers i).ReadsFrom k (w.peers i) q :=
    ⟨h.peers.loops i, hw, hk, hq, [], .nil _⟩
  have hrefines := Logged.recvPacket_refines hfrom (w.parser (i, k))
  rw [hrecv] at hrefines
  obtain ⟨⟨ret', parser', q'⟩, hqueue, rfl, rfl, hreads⟩ := hrefines
  obtain ⟨chunks, hrun⟩ := hreads.run
  have hpeers := h.peers.run_loop hrun (by simp)
  have hlog := Peers.log_update (w := w.peers) (Logged.logs_of_reads hrun)
  have hold : ∀ place, (Peers.log (Function.update w.peers i v) place).written =
      (w.peers.log place).written ∧ (Peers.log (Function.update w.peers i v) place).received =
      (w.peers.log place).received := by
    intro place
    rw [hlog]
    by_cases hplace : place = (i, k)
    · rw [hplace, Function.update_self]
      exact ⟨rfl, rfl⟩
    · rw [Function.update_of_ne hplace]
      exact ⟨rfl, rfl⟩
  refine ⟨hpeers, h.isFrame, fun place => (hold place).1.trans (h.written place),
    fun here there hwire => ?_⟩
  have hlink := h.links here there hwire
  by_cases hhere : here = (i, k)
  · subst hhere
    refine hlink.recvPacket (h.isFrame there) hq hqueue ?_ (hold _).2 (hold _).1
    have harrived := hreads.arrived
    unfold Peers.log
    rw [Function.update_self]
    exact harrived
  · have hread : (Peers.log (Function.update w.peers i v) here).read = (w.peers.log here).read := by
      rw [hlog, Function.update_of_ne hhere]
    refine hlink.send [] (List.append_nil _).symm (Function.update_of_ne hhere ..)
      (Function.update_of_ne hhere ..) hread (hold here).2 ?_
    rw [encodeAll_nil, List.append_nil]
    exact (hold there).1

theorem Ok.step (h : w.Ok wiring) (hpb : pb.RoundTrips) {e : PacketEvent ι}
    (hwithin : w.WithinBuffer e) (hs : PacketStep pb wiring w e w') : w'.Ok wiring := by
  cases hs with
  | loop hread hwrite hs => exact h.loop hread hwrite hwithin hs
  | sendPacket hw hpacket hsend => exact h.sendPacket (Packet.new_isFrame hpb hpacket) hw hsend
  | recvPacket hw hk hrecv => exact h.recvPacket hw hk hrecv

end Steps

end PacketPeers

/-- **Packets arrive.** In every run of connected loops whose Sockets are used through their parsers
only, and in which no `::write` takes more than the contiguous bytes: the packets for which
`RecvPacket` has returned true at one end are the first of those sent with `SendPacket` at the
other, in order, each once. When all bytes written there have arrived here, `RecvPacket` returns
true as long as packets are missing, and false from then on. -/
theorem packets_arrive {ι T Msg : Type} [DecidableEq ι] {pb : Protobuf T Msg}
    (hpb : pb.RoundTrips) {wiring : Wiring ι} {peers : Peers ι} {w : PacketPeers ι}
    {es : List (PacketEvent ι)} (hstart : ∀ i, (peers i).Start)
    (hrun : Run (Lts.restrict (PacketStep pb wiring) PacketPeers.WithinBuffer) (.new peers) es w)
    {i j : ι} {k m : SocketPtr} (hwire : wiring i k = some (j, m)) :
    w.received (i, k) <+: (w.sent (j, m)).map Packet.received ∧
      ((w.peers i).loop.UserRuns → (w.peers i).loop.sockets k ≠ none →
        ((w.peers i).logs k).received = ((w.peers j).logs m).written →
        Outcome (· = Fault.badAlloc)
          (fun r => r.1 = true ↔ (w.received (i, k)).length < (w.sent (j, m)).length)
          (PacketParser.recvPacket (Logged.socket k) (w.parser (i, k)) (w.peers i))) := by
  have h : w.Ok wiring := hrun.invariant (PacketPeers.Ok wiring)
    (fun _ _ _ hok hs => hok.step hpb hs.1 hs.2) (PacketPeers.ok_new hstart)
  have hlink := h.links (i, k) (j, m) hwire
  refine ⟨?_, fun hw hk hall => ?_⟩
  · rw [hlink.received]
    exact (List.take_prefix _ _).map _
  · obtain ⟨input, rest, hinput, hrest, hflight⟩ := hlink.inFlight
    have hnil : rest = [] := by
      have hall : (w.peers.log (i, k)).received = (w.peers.log (j, m)).written := hall
      rw [← hall] at hrest
      exact List.append_right_eq_self.mp hrest
    subst hnil
    have hframes : ∀ p ∈ (w.sent (j, m)).drop (w.received (i, k)).length, p.IsFrame :=
      fun p hp => h.isFrame _ p (List.mem_of_mem_drop hp)
    obtain ⟨⟨ret, parser, q⟩, hrecv⟩ := hflight.exists_recv
    have hrefines := Logged.recvPacket_refines ⟨h.peers.loops i, hw, hk, hinput, [], .nil _⟩
      (w.parser (i, k))
    rw [hrecv] at hrefines
    refine (hrefines.mono_fault fun e he => he.resolve_right nofun).mono ?_
    rintro ⟨ret', parser', v⟩ ⟨_, hr, hret, -, -⟩
    obtain rfl := Except.ok.inj hr
    obtain rfl : ret' = ret := hret
    have hmissing : ret' = true ↔ (w.sent (j, m)).drop (w.received (i, k)).length ≠ [] := by
      cases ret' with
      | true =>
        obtain ⟨p, qs, hdrop, -⟩ := hflight.recv_true hframes hrecv
        simp [hdrop]
      | false =>
        have hdrop := (hflight.recv_false hframes hrecv).eq_nil hframes
        simp [hdrop]
    rw [hmissing, ne_eq, List.drop_eq_nil_iff, Nat.not_le]

/-! ## One packet -/

/-- A response of one byte. -/
def Packet.nine : Packet := ⟨kPacketMagicNum, 1, 0, 1, [9], false⟩

/-- The loop that sends: `::write` takes the packet. -/
theorem Logged.sends_packet : ∃ v₀ v₁ v₂,
    RunWithin .twoBuffers [.newServer 0 5 true, .setPoller 0 true] v₀ ∧ v₀.loop.UserRuns ∧
    PacketParser.sendPacket (socket 0) v₀ .nine = .ok v₁ ∧
    RunWithin v₁ [.poll, .callOut 0, .run, .run, .run, .sysWrite (.bytes 22)] v₂ ∧
    (v₂.logs 0).sent = Packet.nine.encode := by
  refine ⟨_, _, _,
    .cons ⟨EventLoop.withinBuffer_of_ne (by simp), .step (.newServer rfl rfl rfl rfl)⟩ <|
    .single ⟨EventLoop.withinBuffer_of_ne (by simp), .step (.setPoller rfl rfl rfl rfl)⟩, rfl, rfl,
    .cons ⟨EventLoop.withinBuffer_of_ne (by simp), .step (.poll rfl rfl)⟩ <|
    .cons ⟨EventLoop.withinBuffer_of_ne (by simp), .step (.callOut 0 rfl rfl rfl rfl)⟩ <|
    .cons ⟨EventLoop.withinBuffer_of_ne (by simp), .step (.outRun rfl rfl rfl)⟩ <|
    .cons ⟨EventLoop.withinBuffer_of_ne (by simp), .step (.outRun rfl rfl rfl)⟩ <|
    .cons ⟨EventLoop.withinBuffer_of_ne (by simp), .step (.outRun rfl rfl rfl)⟩ <|
    .single ⟨?_, .step (.sysWrite rfl rfl (by decide) (by decide) (by decide) rfl)⟩, rfl⟩
  rintro n k s hn hk hs
  obtain rfl : 22 = n := WriteResult.bytes.inj (LoopEvent.sysWrite.inj hn)
  obtain rfl : 0 = k := Option.some.inj hk
  obtain rfl := Option.some.inj hs
  decide

/-- The loop that receives: `::read` brings the packet, and `OnRead` is called. -/
theorem Logged.receives_packet : ∃ v₀ v₁ v₂ v₃ parser,
    RunWithin .twoBuffers [.newServer 0 6 true, .setPoller 0 true, .poll,
      .epollWait [⟨0, ⟨false, true, false⟩⟩], .check 0, .check 0, .run] v₀ ∧
    v₀.loop.running = some 0 ∧ (v₀.logs 0).received = [] ∧
    LoggedStep objectPool v₀ (.sysRead (.bytes Packet.nine.encode)) v₁ ∧
    RunWithin v₁ [.sysRead (.error eAGAIN), .run, .run] v₂ ∧
    v₂.loop.UserRuns ∧ v₂.loop.sockets 0 ≠ none ∧
    PacketParser.recvPacket (socket 0) .new v₂ = .ok (true, parser, v₃) ∧
    parser.getPacket = Packet.nine.received := by
  have hfd : (6 : ℤ) ≠ kInvalidFd := by decide
  exact ⟨_, _, _, _, _,
    .cons ⟨EventLoop.withinBuffer_of_ne (by simp), .step (.newServer rfl rfl rfl rfl)⟩ <|
    .cons ⟨EventLoop.withinBuffer_of_ne (by simp), .step (.setPoller rfl rfl rfl rfl)⟩ <|
    .cons ⟨EventLoop.withinBuffer_of_ne (by simp), .step (.poll rfl rfl)⟩ <|
    .cons ⟨EventLoop.withinBuffer_of_ne (by simp),
      .step (.epollWait _ rfl rfl (Nat.le_refl _) (by decide))⟩ <|
    .cons ⟨EventLoop.withinBuffer_of_ne (by simp), .step (.checkError rfl rfl rfl hfd)⟩ <|
    .cons ⟨EventLoop.withinBuffer_of_ne (by simp), .step (.checkInput rfl rfl rfl hfd)⟩ <|
    .single ⟨EventLoop.withinBuffer_of_ne (by simp), .step (.inRun rfl rfl rfl)⟩, rfl, rfl,
    .step (.sysRead rfl rfl (by decide) (by decide) rfl),
    .cons ⟨EventLoop.withinBuffer_of_ne (by simp), .step (.sysReadFails rfl nofun)⟩ <|
    .cons ⟨EventLoop.withinBuffer_of_ne (by simp), .step (.inRun rfl rfl rfl)⟩ <|
    .single ⟨EventLoop.withinBuffer_of_ne (by simp), .step (.inRun rfl rfl rfl)⟩, rfl, nofun, rfl,
    rfl⟩

/-- What one loop does by itself, as long as nothing arrives. -/
theorem PacketPeers.run_of_loop {ι T Msg : Type} [DecidableEq ι] (pb : Protobuf T Msg)
    (wiring : Wiring ι) (i : ι) {v v' : Logged ObjectList} {es : List LoopEvent}
    (hrun : Logged.RunWithin v es v')
    (hes : ∀ e ∈ es, (∀ src, e ≠ .sysRead (.bytes src)) ∧ (∀ k bytes, e ≠ .read k bytes) ∧
      ∀ k src, e ≠ .write k src) {w : PacketPeers ι} (hw : w.peers i = v) :
    Run (Lts.restrict (PacketStep pb wiring) WithinBuffer) w (es.map (.loop i))
      (w.setPeers (Function.update w.peers i v')) := by
  induction hrun generalizing w with
  | nil v =>
    subst hw
    rw [Function.update_eq_self]
    exact .nil w
  | @cons v v₁ v' e es hs _ ih =>
    subst hw
    obtain ⟨harrive, hread, hwrite⟩ := hes e (by simp)
    have hrest := ih (fun e he => hes e (List.mem_cons_of_mem _ he))
      (w := w.setPeers (Function.update w.peers i v₁)) (Function.update_self ..)
    change Run _ _ _ (w.setPeers (Function.update (Function.update w.peers i v₁) i v')) at hrest
    rw [Function.update_idem] at hrest
    exact .cons ⟨hs.1, .loop hread hwrite (.step (Peers.delivers_of_ne harrive) hs.2)⟩ hrest

/-- One packet goes through a connection. -/
theorem PacketPeers.one_packet : ∃ es w,
    Run (Lts.restrict (PacketStep Protobuf.oneByte oneConnection) WithinBuffer)
      (.new fun _ => .twoBuffers) es w ∧ w.sent (false, 0) = [.nine] ∧
      w.received (true, 0) = [Packet.nine.received] := by
  obtain ⟨v₀, v₁, v₂, hopen, hruns, hsend, hwrite, hsent⟩ := Logged.sends_packet
  obtain ⟨u₀, u₁, u₂, u₃, parser, haccept, hrunning, hreceived, hread, hcall, hruns', hk, hrecv,
    hpacket⟩ := Logged.receives_packet
  have hnew : Packet.new Protobuf.oneByte 1 none 9 = .ok .nine := rfl
  obtain ⟨w, hw⟩ : ∃ w : PacketPeers Bool, w = .new fun _ => .twoBuffers := ⟨_, rfl⟩
  -- the sender, up to `::write`
  have hrun₁ := run_of_loop Protobuf.oneByte oneConnection false hopen (by simp) (w := w)
    (by rw [hw]; rfl)
  obtain ⟨w₁, hw₁⟩ : ∃ w₁, w₁ = w.setPeers (Function.update w.peers false v₀) := ⟨_, rfl⟩
  rw [← hw₁] at hrun₁
  have hv₀ : w₁.peers false = v₀ := by simp [hw₁]
  have hstep₂ : Lts.restrict (PacketStep Protobuf.oneByte oneConnection) WithinBuffer w₁
      (.sendPacket (false, 0) .nine)
      ((w₁.setPeers (Function.update w₁.peers false v₁)).addSent (false, 0) .nine) :=
    ⟨trivial, .sendPacket (hv₀ ▸ hruns) hnew (hv₀ ▸ hsend)⟩
  obtain ⟨w₂, hw₂⟩ : ∃ w₂, w₂ =
    (w₁.setPeers (Function.update w₁.peers false v₁)).addSent (false, 0) .nine := ⟨_, rfl⟩
  rw [← hw₂] at hstep₂
  have hrun₃ := run_of_loop Protobuf.oneByte oneConnection false hwrite (by simp) (w := w₂)
    (by simp [hw₂])
  obtain ⟨w₃, hw₃⟩ : ∃ w₃, w₃ = w₂.setPeers (Function.update w₂.peers false v₂) := ⟨_, rfl⟩
  rw [← hw₃] at hrun₃
  have hpeers₃ : w₃.peers = Function.update (fun _ => .twoBuffers) false v₂ := by
    rw [hw₃, hw₂, hw₁, hw]
    change Function.update (Function.update (Function.update _ _ _) _ _) _ _ = _
    rw [Function.update_idem, Function.update_idem]
    rfl
  -- the receiver, up to `OnRead`
  have hrun₄ := run_of_loop Protobuf.oneByte oneConnection true haccept (by simp) (w := w₃)
    (by rw [hpeers₃]; rfl)
  obtain ⟨w₄, hw₄⟩ : ∃ w₄, w₄ = w₃.setPeers (Function.update w₃.peers true u₀) := ⟨_, rfl⟩
  rw [← hw₄] at hrun₄
  have hu₀ : w₄.peers true = u₀ := by simp [hw₄]
  have hv₂ : w₄.peers false = v₂ := by
    rw [hw₄]
    change Function.update w₃.peers true u₀ false = v₂
    rw [hpeers₃]
    rfl
  have hstep₅ : Lts.restrict (PacketStep Protobuf.oneByte oneConnection) WithinBuffer w₄
      (.loop true (.sysRead (.bytes Packet.nine.encode)))
      (w₄.setPeers (Function.update w₄.peers true u₁)) := by
    refine ⟨EventLoop.withinBuffer_of_ne (by simp), .loop (by simp) (by simp)
      (.step (fun src k hsrc hk => ?_) (by rw [hu₀]; exact hread))⟩
    obtain rfl := ReadResult.bytes.inj (LoopEvent.sysRead.inj hsrc)
    rw [hu₀] at hk
    obtain rfl : 0 = k := Option.some.inj (hrunning.symm.trans hk)
    refine ⟨false, 0, rfl, ?_⟩
    rw [hv₂, hu₀, hsent, hreceived]
    exact List.prefix_refl _
  obtain ⟨w₅, hw₅⟩ : ∃ w₅, w₅ = w₄.setPeers (Function.update w₄.peers true u₁) := ⟨_, rfl⟩
  rw [← hw₅] at hstep₅
  have hrun₆ := run_of_loop Protobuf.oneByte oneConnection true hcall (by simp) (w := w₅)
    (by simp [hw₅])
  obtain ⟨w₆, hw₆⟩ : ∃ w₆, w₆ = w₅.setPeers (Function.update w₅.peers true u₂) := ⟨_, rfl⟩
  rw [← hw₆] at hrun₆
  have hu₂ : w₆.peers true = u₂ := by simp [hw₆]
  have hparser : w₆.parser (true, 0) = .new := by rw [hw₆, hw₅, hw₄, hw₃, hw₂, hw₁, hw]; rfl
  have hrecv : PacketParser.recvPacket (Logged.socket 0) (w₆.parser (true, 0)) (w₆.peers true) =
      .ok (true, parser, u₃) := by
    rw [hparser, hu₂]
    exact hrecv
  have hsent₆ : w₆.sent (false, 0) = [.nine] := by rw [hw₆, hw₅, hw₄, hw₃, hw₂, hw₁, hw]; rfl
  have hnone : w₆.received (true, 0) = [] := by rw [hw₆, hw₅, hw₄, hw₃, hw₂, hw₁, hw]; rfl
  rw [← hw]
  have hstep₇ : Lts.restrict (PacketStep Protobuf.oneByte oneConnection) WithinBuffer w₆
      (.recvPacket (true, 0) true)
      ((w₆.setPeers (Function.update w₆.peers true u₃)).addReceived (true, 0) parser true) :=
    ⟨trivial, .recvPacket (hu₂ ▸ hruns') (hu₂ ▸ hk) hrecv⟩
  refine ⟨_, _, (((((hrun₁.snoc hstep₂).append hrun₃).append hrun₄).snoc hstep₅).append hrun₆).snoc
    hstep₇, hsent₆, ?_⟩
  rw [PacketPeers.addReceived_self, hpacket]
  exact congrArg (· ++ [Packet.nine.received]) hnone

/-- One packet is sent at one end and received at the other. -/
theorem packets_arrive_one_packet : ∃ es w,
    Run (Lts.restrict (PacketStep Protobuf.oneByte oneConnection) PacketPeers.WithinBuffer)
      (.new fun _ => .twoBuffers) es w ∧
    w.sent (false, 0) = [.nine] ∧ w.received (true, 0) = [Packet.nine.received] ∧
    w.received (true, 0) <+: (w.sent (false, 0)).map Packet.received := by
  obtain ⟨es, w, hrun, hsent, hreceived⟩ := PacketPeers.one_packet
  have harrive := packets_arrive Protobuf.oneByte_roundTrips (fun _ => Logged.twoBuffers_start) hrun
    (i := true) (k := 0) (j := false) (m := 0) rfl
  exact ⟨es, w, hrun, hsent, hreceived, harrive.1⟩

end ServerKit
