import ServerKit.Core.Verify.Traffic
import ServerKit.Core.Verify.Registered

/-!
# Socket streams

A Socket is two byte streams: its user reads what `::read` has brought, and `::write` takes what its
user has written, each in order and without loss, whatever the other Sockets of the thread do with
the Buffers they share. Along a connection the streams of the two ends compose.
-/

namespace ServerKit

open Lib

/-! ## The loop as traffic -/

section Traffic

variable {w w' : EventLoop ObjectList} {e : LoopEvent} {chain : ℕ → List BufferPtr}
  {queue : ℕ → List UInt8}

/-- A step that leaves the memory and the lists. -/
theorem quiet_traffic (hmem : w'.mem = w.mem) (hlists : w'.lists = w.lists)
    (hrecord : ∀ k log, w.record k log e = log) :
    ∃ tr, TrafficStep w.thread tr w'.thread ∧
      ∀ k log, w.record k log e = tr.record k log := by
  have hthread : w'.thread = w.thread := by
    unfold EventLoop.thread
    rw [hmem, hlists]
  rw [hthread]
  exact ⟨.quiet, .quiet, hrecord⟩

/-- A Socket is created. -/
theorem made_traffic {k : SocketPtr} {s : Socket} {m m' : Memory ObjectList}
    (hk : w.sockets k = none) (hread : BufferList.new objectPool w.mem = .ok (m, s.readList))
    (hwrite : BufferList.new objectPool m = .ok (m', s.writeList))
    (hrecord : ∀ k log, w.record k log e = log) :
    ∃ tr, TrafficStep w.thread tr ((w.setMem m').setSocket k s).thread ∧
      ∀ k log, w.record k log e = tr.record k log := by
  have hnone : w.lists (readIx k) = none ∧ w.lists (writeIx k) = none := by
    rw [EventLoop.lists_readIx, EventLoop.lists_writeIx, hk]
    exact ⟨rfl, rfl⟩
  have hthread : ((w.setMem m').setSocket k s).thread = ⟨m', Function.update
      (Function.update w.lists (readIx k) (some s.readList)) (writeIx k) (some s.writeList)⟩ := by
    unfold EventLoop.thread
    rw [EventLoop.lists_setSocket]
    rfl
  rw [hthread]
  exact ⟨.made k, .made hnone.1 hnone.2 hread hwrite, hrecord⟩

/-- **Each step of the loop is a step of the lists**, with the same bytes in the histories. -/
theorem loop_traffic (h : Holds w.thread chain queue) (hok : w.WithinBuffer e)
    (hstep : LoopStep objectPool w e w') :
    ∃ tr, TrafficStep w.thread tr w'.thread ∧
      ∀ k log, w.record k log e = tr.record k log := by
  cases hstep with
  | newClient _ hk hread hwrite | newServer _ hk hread hwrite =>
    exact made_traffic hk hread hwrite fun _ _ => rfl
  | setPoller _ hk | connect _ hk | connectFails _ hk | outClose _ hk | inClose _ hk
  | connectReturn _ hk =>
    exact quiet_traffic rfl (EventLoop.lists_setSocket_same hk rfl rfl) fun _ _ => rfl
  | connectAgain | poll | callOut | epollWait | checkRetired | checkError | checkInput
  | checkOutput | pollDone | outReturn | inRun | inReturn =>
    exact quiet_traffic rfl rfl fun _ _ => rfl
  | @write _ k s src total m writeList _ hk _ hwrite =>
    refine ⟨.written k src, ?_, fun _ _ => rfl⟩
    have hlist : w.lists (writeIx k) = some s.writeList := by
      rw [EventLoop.lists_writeIx, hk]
      rfl
    have hthread : ((w.setMem m).afterWrite k (s.setWriteList writeList)).thread =
        ⟨m, Function.update w.lists (writeIx k) (some writeList)⟩ := by
      unfold EventLoop.thread EventLoop.afterWrite
      split
      · exact congrArg (Thread.mk m) (EventLoop.lists_setWriteList (s := s) hk rfl)
      · exact congrArg (Thread.mk m) (EventLoop.lists_setWriteList (s := s) hk rfl)
    rw [hthread]
    exact .written hlist hwrite
  | @read _ k s n total bytes m readList _ hk hread =>
    refine ⟨.read k bytes, ?_, fun _ _ => rfl⟩
    have hlist : w.lists (readIx k) = some s.readList := by
      rw [EventLoop.lists_readIx, hk]
      rfl
    have hthread : ((w.setMem m).setSocket k (s.setReadList readList)).thread =
        ⟨m, Function.update w.lists (readIx k) (some readList)⟩ :=
      congrArg (Thread.mk m) (EventLoop.lists_setReadList hk readList)
    rw [hthread]
    exact .read hlist hread
  | @outRun _ k s s' pc next stack _ hk hout =>
    have hlists : s'.readList = s.readList ∧ s'.writeList = s.writeList := by
      rcases Socket.outStep_eq hout with rfl | rfl | ⟨n, -, -, rfl⟩ <;> exact ⟨rfl, rfl⟩
    exact quiet_traffic rfl (EventLoop.lists_setSocket_same hk hlists.1 hlists.2) fun _ _ => rfl
  | @sysWrite _ k s ret n m writeList stack hstack hk _ _ _ hadvance =>
    have hrunning : w.running = some k := by simp [EventLoop.running, hstack]
    have hn := hok n k s rfl hrunning hk
    have hlist : w.lists (writeIx k) = some s.writeList := by
      rw [EventLoop.lists_writeIx, hk]
      rfl
    have hcopy := copyFromReadPoint_eq (m := w.mem) (h.rep _ _ hlist) hn
    refine ⟨.sent k ((queue (writeIx k)).take n), ?_, fun j log => ?_⟩
    · have hthread : (((w.setMem m).setSocket k
          ((s.setWriteList writeList).setLastWrite (.bytes n))).setStack
          (.out k (Socket.afterWrite ret (.bytes n)) :: stack)).thread =
          ⟨m, Function.update w.lists (writeIx k) (some writeList)⟩ :=
        congrArg (Thread.mk m) (EventLoop.lists_setWriteList (s := s) hk rfl)
      rw [hthread]
      refine .sent hlist hn ?_
      change BufferList.drain objectPool w.mem s.writeList n = _
      rw [BufferList.drain, hcopy, ok_bind, hadvance]
      rfl
    · have htaken : w.bytesTaken k n = (queue (writeIx k)).take n := by
        simp only [EventLoop.bytesTaken, hk, hcopy]
      change (if w.running = some j then log.send (w.bytesTaken j n) else log) =
        if k = j then log.send ((queue (writeIx k)).take n) else log
      rw [hrunning]
      by_cases hj : k = j
      · subst hj
        rw [if_pos rfl, if_pos rfl, htaken]
      · rw [if_neg (by simpa using hj), if_neg hj]
  | @sysWriteFails _ k s ret r stack _ hk _ hr =>
    refine quiet_traffic rfl (EventLoop.lists_setSocket_same hk rfl rfl) fun j log => ?_
    cases r with
    | bytes n => exact absurd rfl (hr n)
    | zero | error => rfl
  | @sysRead _ k s ret src m readList stack hstack hk _ hfit hfill =>
    have hrunning : w.running = some k := by simp [EventLoop.running, hstack]
    have hlist : w.lists (readIx k) = some s.readList := by
      rw [EventLoop.lists_readIx, hk]
      rfl
    refine ⟨.received k src, ?_, fun j log => ?_⟩
    · have hthread : (((w.setMem m).setSocket k (s.setReadList readList)).setStack
          (.input k (Socket.afterRead ret (.bytes src)) :: stack)).thread =
          ⟨m, Function.update w.lists (readIx k) (some readList)⟩ :=
        congrArg (Thread.mk m) (EventLoop.lists_setReadList hk readList)
      rw [hthread]
      exact .received hlist hfit hfill
    · change (if w.running = some j then log.receive src else log) =
        if k = j then log.receive src else log
      rw [hrunning]
      simp only [Option.some.injEq]
  | @sysReadFails _ k ret r stack _ hr =>
    refine quiet_traffic rfl rfl fun j log => ?_
    cases r with
    | bytes src => exact absurd rfl (hr src)
    | zero | error => rfl

end Traffic

/-! ## The histories -/

/-- The history accounts for what is queued: `input` in `read_list_`, `output` in `write_list_`. -/
structure Balanced (log : StreamLog) (input output : List UInt8) : Prop where
  input_eq : log.read ++ input = log.received
  output_eq : log.sent ++ output = log.written

namespace Balanced

variable {log : StreamLog} {input output : List UInt8}

theorem new : Balanced .new [] [] := ⟨rfl, rfl⟩

theorem write (h : Balanced log input output) (src : List UInt8) :
    Balanced (log.write src) input (output ++ src) := by
  refine ⟨h.input_eq, ?_⟩
  change log.sent ++ (output ++ src) = log.written ++ src
  rw [← List.append_assoc, h.output_eq]

theorem send (h : Balanced log input output) (n : ℕ) :
    Balanced (log.send (output.take n)) input (output.drop n) := by
  refine ⟨h.input_eq, ?_⟩
  change log.sent ++ output.take n ++ output.drop n = log.written
  rw [List.append_assoc, List.take_append_drop, h.output_eq]

theorem receive (h : Balanced log input output) (src : List UInt8) :
    Balanced (log.receive src) (input ++ src) output := by
  refine ⟨?_, h.output_eq⟩
  change log.read ++ (input ++ src) = log.received ++ src
  rw [← List.append_assoc, h.input_eq]

theorem take (h : Balanced log input output) (n : ℕ) :
    Balanced (log.take (input.take n)) (input.drop n) output := by
  refine ⟨?_, h.output_eq⟩
  change log.read ++ input.take n ++ input.drop n = log.received
  rw [List.append_assoc, List.take_append_drop, h.input_eq]

end Balanced

/-- **The invariant**: each list represents its queue, and the histories account for the queues. -/
structure Accounted (t : Thread) (logs : SocketPtr → StreamLog) (chain : ℕ → List BufferPtr)
    (queue : ℕ → List UInt8) : Prop where
  holds : Holds t chain queue
  balanced : ∀ k, Balanced (logs k) (queue (readIx k)) (queue (writeIx k))
  fresh : ∀ k, t.lists (readIx k) = none → t.lists (writeIx k) = none → logs k = .new

/-- What a step does to one Socket, the others being left alone. -/
theorem Accounted.socket {t t' : Thread} {logs : SocketPtr → StreamLog}
    {chain chain' : ℕ → List BufferPtr} {queue queue' : ℕ → List UInt8} {tr : Traffic}
    (h : Accounted t logs chain queue) (k : SocketPtr) (hholds : Holds t' chain' queue')
    (hk : Balanced (tr.record k (logs k)) (queue' (readIx k)) (queue' (writeIx k)))
    (hlive : t'.lists (readIx k) ≠ none ∨ t'.lists (writeIx k) ≠ none)
    (hother : ∀ j, j ≠ k → (∀ log, tr.record j log = log) ∧
      queue' (readIx j) = queue (readIx j) ∧ queue' (writeIx j) = queue (writeIx j) ∧
      t'.lists (readIx j) = t.lists (readIx j) ∧ t'.lists (writeIx j) = t.lists (writeIx j)) :
    Accounted t' (fun j => tr.record j (logs j)) chain' queue' := by
  refine ⟨hholds, fun j => ?_, fun j hread hwrite => ?_⟩
  · by_cases hj : j = k
    · subst hj
      exact hk
    · obtain ⟨hrecord, hin, hout, -, -⟩ := hother j hj
      rw [hrecord, hin, hout]
      exact h.balanced j
  · by_cases hj : j = k
    · subst hj
      exact (hlive.elim (· hread) (· hwrite)).elim
    · obtain ⟨hrecord, -, -, hr, hw⟩ := hother j hj
      rw [hrecord]
      exact h.fresh j (hr ▸ hread) (hw ▸ hwrite)

/-- The step lemma. -/
theorem Accounted.step {t t' : Thread} {logs : SocketPtr → StreamLog}
    {chain : ℕ → List BufferPtr} {queue : ℕ → List UInt8} {tr : Traffic}
    (h : Accounted t logs chain queue) (hstep : TrafficStep t tr t') :
    ∃ chain' queue', Accounted t' (fun k => tr.record k (logs k)) chain' queue' := by
  cases hstep with
  | quiet => exact ⟨chain, queue, h⟩
  | @made _ k m m' r w hr hw hread hwrite =>
    obtain ⟨chain₁, h₁⟩ := h.holds.new hr hread
    obtain ⟨chain₂, h₂⟩ := h₁.new (i := writeIx k) (by simpa using hw) hwrite
    refine ⟨chain₂, _, h.socket k h₂ ?_ (.inl (by simp)) fun j hj => ?_⟩
    · rw [Traffic.record, h.fresh k hr hw]
      simpa using Balanced.new
    · simp [Traffic.record, hj]
  | @written _ k l l' src total m hl hwrite =>
    obtain ⟨chain', h'⟩ := h.holds.write hl hwrite
    refine ⟨chain', _, h.socket k h' ?_ (.inr (by simp)) fun j hj => ?_⟩
    · simpa [Traffic.record] using (h.balanced k).write src
    · simp [Traffic.record, hj, Ne.symm hj]
  | @sent _ k l l' n bytes m hl hn hdrain =>
    obtain ⟨rfl, chain', h'⟩ := h.holds.drain hl hn hdrain
    refine ⟨chain', _, h.socket k h' ?_ (.inr (by simp)) fun j hj => ?_⟩
    · simpa [Traffic.record] using (h.balanced k).send n
    · simp [Traffic.record, hj, Ne.symm hj]
  | @received _ k l l' src m hl hfit hfill =>
    obtain ⟨chain', h'⟩ := h.holds.fill hl hfit hfill
    refine ⟨chain', _, h.socket k h' ?_ (.inl (by simp)) fun j hj => ?_⟩
    · simpa [Traffic.record] using (h.balanced k).receive src
    · simp [Traffic.record, hj, Ne.symm hj]
  | @read _ k l l' n total bytes m hl hread =>
    obtain ⟨rfl, chain', h'⟩ := h.holds.read hl hread
    refine ⟨chain', _, h.socket k h' ?_ (.inl (by simp)) fun j hj => ?_⟩
    · simpa [Traffic.record] using (h.balanced k).take n
    · simp [Traffic.record, hj, Ne.symm hj]

/-! ## Runs of a loop -/

/-- The invariant of a loop with its histories. -/
def Logged.Ok (w : Logged ObjectList) : Prop :=
  ∃ chain queue, Accounted w.loop.thread w.logs chain queue

namespace Logged

variable {w w' : Logged ObjectList} {t : Thread} {h : Heap} {e : LoopEvent}

/-- A thread that uses its pool for the first time has all its Buffers in the free list. -/
theorem allFree_of_start (hthread : Thread.start h = .ok t) : t.mem.pool.AllFree := by
  have hs := (Thread.start_shared hthread).shares 0
  refine ⟨hs.nodup, fun p => (hs.made_iff p).trans ⟨?_, .inl⟩⟩
  rintro (hp | hp | ⟨_, _, hp⟩)
  · exact hp
  · cases hp
  · cases hp

/-- Every thread can run a loop, on its pool as the first use leaves it. -/
theorem exists_start (h : Heap) (size : ℤ) : ∃ t, Thread.start h = .ok t ∧
    Logged.Start
      { loop := { sockets := fun _ => none, epoll := .init size, mem := t.mem, poll := .idle,
                  stack := [] }
        logs := fun _ => .new } := by
  obtain ⟨t, hthread, -⟩ := Thread.start_ok h
  exact ⟨t, hthread, ⟨fun _ => rfl, ⟨size, rfl⟩, rfl, rfl⟩, allFree_of_start hthread, fun _ => rfl⟩

theorem Start.ok (hw : w.Start) : w.Ok := by
  obtain ⟨⟨hsockets, -⟩, ⟨hnodup, hmade⟩, hlogs⟩ := hw
  have hnone : ∀ i, w.loop.lists i = none := fun i => by simp [EventLoop.lists, hsockets]
  refine ⟨fun _ => [], fun _ => [], ⟨⟨?_, fun _ _ => rfl, fun i => ?_⟩, fun i l hl => ?_⟩,
    fun k => ?_, fun k _ _ => hlogs k⟩
  · intro i l hl
    rw [show w.loop.thread.lists i = none from hnone i] at hl
    cases hl
  · have helse : elsewhere (fun _ => ([] : List BufferPtr)) i = ∅ := by
      ext p
      simp [elsewhere]
    rw [helse]
    exact { nodup := hnodup, free_chain := by simp, free_ctx := by simp, chain_ctx := by simp,
            made_iff := fun p => (hmade p).trans (by simp [EventLoop.thread]) }
  · rw [show w.loop.thread.lists i = none from hnone i] at hl
    cases hl
  · rw [hlogs]
    exact .new

theorem Ok.step (hw : w.Ok) (hok : w.loop.WithinBuffer e) (hstep : LoggedStep objectPool w e w') :
    w'.Ok := by
  obtain ⟨chain, queue, hacc⟩ := hw
  cases hstep with
  | step hstep =>
    obtain ⟨tr, htr, hrecord⟩ := loop_traffic hacc.holds hok hstep
    obtain ⟨chain', queue', hacc'⟩ := hacc.step htr
    refine ⟨chain', queue', ?_⟩
    simp only [hrecord]
    exact hacc'

theorem Ok.run {es : List LoopEvent} (hw : w.Ok)
    (hrun : Run (Lts.restrict (LoggedStep objectPool) fun w e => w.loop.WithinBuffer e) w es w') :
    w'.Ok :=
  hrun.invariant Ok (fun _ _ _ hok hs => hok.step hs.1 hs.2) hw

end Logged

/-- `Read` would deliver the bytes `q` from the list `l`, and no more. -/
def Queued (m : Memory ObjectList) (l : BufferList) (q : List UInt8) : Prop :=
  l.readableSize = q.length ∧ ∀ n, ∃ m' l',
    BufferList.readBytes objectPool m l n = .ok ((min n q.length, q.take n), m', l')

theorem Holds.queued {t : Thread} {chain : ℕ → List BufferPtr} {queue : ℕ → List UInt8} {i : ℕ}
    {l : BufferList} (h : Holds t chain queue) (hl : t.lists i = some l) :
    Queued t.mem l (queue i) := by
  refine ⟨(h.rep i l hl).readableSize_eq, fun n => ?_⟩
  obtain ⟨⟨_, m', l'⟩, hread, rfl, -⟩ :=
    (readBytes_spec (objectPool_safe _) (h.rep i l hl) (h.shares i) n).exists_ok
  exact ⟨m', l', hread⟩

/-- What the histories of a Socket say, with `input` in `read_list_` and `output` in
`write_list_`. -/
structure Logged.Streams (w : Logged ObjectList) (k : SocketPtr) (input output : List UInt8) :
    Prop where
  balanced : Balanced (w.logs k) input output
  queued : ∀ s, w.loop.sockets k = some s →
    Queued w.loop.mem s.readList input ∧ Queued w.loop.mem s.writeList output

theorem Logged.Ok.streams {w : Logged ObjectList} (hw : w.Ok) (k : SocketPtr) :
    ∃ input output, w.Streams k input output := by
  obtain ⟨chain, queue, hacc⟩ := hw
  refine ⟨queue (readIx k), queue (writeIx k), hacc.balanced k, fun s hk => ?_⟩
  have hr : w.loop.thread.lists (readIx k) = some s.readList := by
    change w.loop.lists (readIx k) = _
    rw [EventLoop.lists_readIx, hk]
    rfl
  have hw : w.loop.thread.lists (writeIx k) = some s.writeList := by
    change w.loop.lists (writeIx k) = _
    rw [EventLoop.lists_writeIx, hk]
    rfl
  exact ⟨hacc.holds.queued hr, hacc.holds.queued hw⟩

/-- **A Socket is two byte streams.** In every run of an event loop in which no `::write` takes more
than the contiguous bytes, for each Socket what its user has read followed by what is in
`read_list_` is what `::read` has brought, and what `::write` has taken followed by what is in
`write_list_` is what its user has written. -/
theorem socket_streams {w₀ w : Logged ObjectList} {es : List LoopEvent} (hstart : w₀.Start)
    (hrun : Run (Lts.restrict (LoggedStep objectPool) fun w e => w.loop.WithinBuffer e) w₀ es w)
    (k : SocketPtr) :
    ∃ input output, (w.logs k).read ++ input = (w.logs k).received ∧
      (w.logs k).sent ++ output = (w.logs k).written ∧
      ∀ s, w.loop.sockets k = some s →
        Queued w.loop.mem s.readList input ∧ Queued w.loop.mem s.writeList output := by
  obtain ⟨input, output, hs⟩ := (hstart.ok.run hrun).streams k
  exact ⟨input, output, hs.balanced.input_eq, hs.balanced.output_eq, hs.queued⟩

theorem EventLoop.withinBuffer_of_ne {σ : Type} {w : EventLoop σ} {e : LoopEvent}
    (h : ∀ n, e ≠ .sysWrite (.bytes n)) : w.WithinBuffer e :=
  fun n _ _ he => absurd he (h n)

/-- A thread with two free Buffers, recorded. -/
def Logged.twoBuffers : Logged ObjectList where
  loop := .twoBuffers
  logs := fun _ => .new

theorem Logged.twoBuffers_start : Logged.twoBuffers.Start := by
  refine ⟨EventLoop.twoBuffers_start, ⟨by decide, fun p => ?_⟩, fun _ => rfl⟩
  change p.val < 2 ↔ p ∈ [(⟨0, by decide⟩ : BufferPtr), ⟨1, by decide⟩]
  simp only [List.mem_cons, List.not_mem_nil, or_false, Fin.ext_iff]
  omega

/-- Two bytes are written to a server Socket, and `::write` takes one of them. -/
theorem Logged.sends_one_byte : ∃ v,
    Run (Lts.restrict (LoggedStep objectPool) fun w e => w.loop.WithinBuffer e) .twoBuffers
      [.newServer 0 5 true, .setPoller 0 true, .write 0 [7, 8], .poll, .callOut 0, .run, .run, .run,
        .sysWrite (.bytes 1)] v ∧ (v.logs 0).sent = [7] := by
  refine ⟨_, .cons ⟨EventLoop.withinBuffer_of_ne (by simp), .step (.newServer rfl rfl rfl rfl)⟩ <|
    .cons ⟨EventLoop.withinBuffer_of_ne (by simp), .step (.setPoller rfl rfl rfl rfl)⟩ <|
    .cons ⟨EventLoop.withinBuffer_of_ne (by simp), .step (.write rfl rfl rfl rfl)⟩ <|
    .cons ⟨EventLoop.withinBuffer_of_ne (by simp), .step (.poll rfl rfl)⟩ <|
    .cons ⟨EventLoop.withinBuffer_of_ne (by simp), .step (.callOut 0 rfl rfl rfl rfl)⟩ <|
    .cons ⟨EventLoop.withinBuffer_of_ne (by simp), .step (.outRun rfl rfl rfl)⟩ <|
    .cons ⟨EventLoop.withinBuffer_of_ne (by simp), .step (.outRun rfl rfl rfl)⟩ <|
    .cons ⟨EventLoop.withinBuffer_of_ne (by simp), .step (.outRun rfl rfl rfl)⟩ <|
    .single ⟨?_, .step (.sysWrite rfl rfl (by decide) (by decide) (by decide) rfl)⟩, rfl⟩
  rintro n k s hn hk hs
  obtain rfl : 1 = n := WriteResult.bytes.inj (LoopEvent.sysWrite.inj hn)
  obtain rfl : 0 = k := Option.some.inj hk
  obtain rfl := Option.some.inj hs
  decide

theorem socket_streams_short_write : ∃ es w,
    Run (Lts.restrict (LoggedStep objectPool) fun w e => w.loop.WithinBuffer e) .twoBuffers es w ∧
    (w.logs 0).sent = [7] ∧
    ∃ input output, (w.logs 0).read ++ input = (w.logs 0).received ∧
      (w.logs 0).sent ++ output = (w.logs 0).written ∧
      ∀ s, w.loop.sockets 0 = some s →
        Queued w.loop.mem s.readList input ∧ Queued w.loop.mem s.writeList output := by
  obtain ⟨w, hrun, hsent⟩ := Logged.sends_one_byte
  exact ⟨_, w, hrun, hsent, socket_streams Logged.twoBuffers_start hrun 0⟩

/-! ## Connected loops -/

section Peers

variable {w : EventLoop ObjectList} {k : SocketPtr} {log : StreamLog} {e : LoopEvent}

/-- What has been sent stays sent. -/
theorem EventLoop.record_sent (w : EventLoop ObjectList) (k : SocketPtr) (log : StreamLog)
    (e : LoopEvent) : log.sent <+: (w.record k log e).sent := by
  unfold record
  split
  · split <;> exact List.prefix_refl _
  · split <;> exact List.prefix_refl _
  · split
    · exact List.prefix_append _ _
    · exact List.prefix_refl _
  · split <;> exact List.prefix_refl _
  · exact List.prefix_refl _

/-- Only `::read` brings bytes. -/
theorem EventLoop.record_received (w : EventLoop ObjectList) (k : SocketPtr) (log : StreamLog)
    (e : LoopEvent) : (w.record k log e).received = log.received ∨
      ∃ src, e = .sysRead (.bytes src) ∧ w.running = some k ∧
        (w.record k log e).received = log.received ++ src := by
  unfold record
  split
  · split <;> exact .inl rfl
  · split <;> exact .inl rfl
  · split <;> exact .inl rfl
  · split
    · exact .inr ⟨_, rfl, ‹_›, rfl⟩
    · exact .inl rfl
  · exact .inl rfl

/-- The invariant of connected loops: what has arrived at one end is a prefix of what has left the
other. -/
structure Peers.Ok {ι : Type} (wiring : Wiring ι) (w : Peers ι) : Prop where
  loops : ∀ i, (w i).Ok
  wires : ∀ i k j m, wiring i k = some (j, m) →
    ((w i).logs k).received <+: ((w j).logs m).sent

theorem Peers.Ok.step {ι : Type} [DecidableEq ι] {wiring : Wiring ι} {w w' : Peers ι}
    {l : ι × LoopEvent} (hw : w.Ok wiring) (hok : w.WithinBuffer l) (hs : PeersStep wiring w l w') :
    w'.Ok wiring := by
  cases hs with
  | @step _ i e v hdeliver hstep =>
    refine ⟨fun j => ?_, fun j k j' m hwire => ?_⟩
    · by_cases hj : j = i
      · subst hj
        rw [Function.update_self]
        exact (hw.loops j).step hok hstep
      · rw [Function.update_of_ne hj]
        exact hw.loops j
    · have hold := hw.wires j k j' m hwire
      have hlogs : ∀ m, (v.logs m) = (w i).loop.record m ((w i).logs m) e := by
        cases hstep
        exact fun _ => rfl
      have hsent : ((w j').logs m).sent <+: ((Function.update w i v j').logs m).sent := by
        by_cases hj' : j' = i
        · subst hj'
          rw [Function.update_self, hlogs]
          exact EventLoop.record_sent _ _ _ _
        · rw [Function.update_of_ne hj']
      refine List.IsPrefix.trans ?_ hsent
      by_cases hj : j = i
      · subst hj
        rw [Function.update_self, hlogs]
        rcases EventLoop.record_received (w j).loop k ((w j).logs k) e with h | ⟨src, he, hk, h⟩
        · rw [h]
          exact hold
        · -- the bytes brought are the next that have left the other end
          obtain ⟨j'', m'', hwire', hsrc⟩ := hdeliver src k he hk
          obtain ⟨rfl, rfl⟩ := Prod.mk.inj (Option.some.inj (hwire'.symm.trans hwire))
          rw [h]
          obtain ⟨rest, hrest⟩ := hsrc
          obtain ⟨later, hlater⟩ := hold
          rw [← hlater, List.drop_left] at hrest
          exact ⟨rest, by rw [List.append_assoc, hrest, hlater]⟩
      · rw [Function.update_of_ne hj]
        exact hold

/-- **The two ends of a connection.** In every run of connected loops in which no `::write` takes
more than the contiguous bytes, the bytes read at one end are those written at the other, in order:
what is missing at the end is in the `read_list_` of the one, on the way, or in the `write_list_` of
the other. -/
theorem connection_stream {ι : Type} [DecidableEq ι] {wiring : Wiring ι} {w₀ w : Peers ι}
    {ls : List (ι × LoopEvent)} (hstart : ∀ i, (w₀ i).Start)
    (hrun : Run (Lts.restrict (PeersStep wiring) Peers.WithinBuffer) w₀ ls w)
    {i j : ι} {k m : SocketPtr} (hwire : wiring i k = some (j, m)) :
    ∃ input wire output,
      ((w i).logs k).read ++ input ++ wire ++ output = ((w j).logs m).written ∧
      (∀ s, (w i).loop.sockets k = some s → Queued (w i).loop.mem s.readList input) ∧
      ∀ s, (w j).loop.sockets m = some s → Queued (w j).loop.mem s.writeList output := by
  have hstart' : Peers.Ok wiring w₀ :=
    { loops := fun i => (hstart i).ok
      wires := fun i k _ _ _ => by
        rw [(hstart i).2.2 k]
        exact List.nil_prefix }
  have hw := hrun.invariant (Peers.Ok wiring) (fun _ _ _ hok hs => hok.step hs.1 hs.2) hstart'
  obtain ⟨input, _, hi⟩ := (hw.loops i).streams k
  obtain ⟨_, output, hj⟩ := (hw.loops j).streams m
  obtain ⟨wire, hwire'⟩ := hw.wires i k j m hwire
  refine ⟨input, wire, output, ?_, fun s hs => (hi.queued s hs).1, fun s hs => (hj.queued s hs).2⟩
  calc ((w i).logs k).read ++ input ++ wire ++ output
      = ((w i).logs k).received ++ wire ++ output := by rw [hi.balanced.input_eq]
    _ = ((w j).logs m).sent ++ output := by rw [hwire']
    _ = ((w j).logs m).written := hj.balanced.output_eq

theorem Peers.delivers_of_ne {ι : Type} {wiring : Wiring ι} {w : Peers ι} {i : ι} {e : LoopEvent}
    (h : ∀ src, e ≠ .sysRead (.bytes src)) : w.Delivers wiring i e :=
  fun src _ he => absurd he (h src)

/-- The two ends of one connection: the Sockets 0 of two loops. -/
def oneConnection : Wiring Bool := fun i k => if k = 0 then some (!i, 0) else none

/-- What one loop does by itself, it does among the others, as long as nothing arrives. -/
theorem Peers.run_of_loop {ι : Type} [DecidableEq ι] (wiring : Wiring ι)
    {v v' : Logged ObjectList} {es : List LoopEvent}
    (hrun : Run (Lts.restrict (LoggedStep objectPool) fun w e => w.loop.WithinBuffer e) v es v')
    (hes : ∀ e ∈ es, ∀ src, e ≠ .sysRead (.bytes src)) (w : Peers ι) (i : ι) :
    Run (Lts.restrict (PeersStep wiring) Peers.WithinBuffer) (Function.update w i v)
      (es.map fun e => (i, e)) (Function.update w i v') := by
  induction hrun with
  | nil => exact .nil _
  | @cons v v₁ v' e es hs _ ih =>
    have hself : Function.update w i v i = v := Function.update_self ..
    have hstep : PeersStep wiring (Function.update w i v) (i, e)
        (Function.update (Function.update w i v) i v₁) :=
      .step (Peers.delivers_of_ne (hes e (by simp))) (hself.symm ▸ hs.2)
    rw [Function.update_idem] at hstep
    refine .cons ⟨?_, hstep⟩ (ih fun e he => hes e (List.mem_cons_of_mem _ he))
    change (Function.update w i v i).loop.WithinBuffer e
    rw [hself]
    exact hs.1

/-- The loop that receives: it is in `Recv`, where `::read` may bring a byte. -/
theorem Logged.receives_one_byte : ∃ v v',
    Run (Lts.restrict (LoggedStep objectPool) fun w e => w.loop.WithinBuffer e) .twoBuffers
      [.newServer 0 6 true, .setPoller 0 true, .poll, .epollWait [⟨0, ⟨false, true, false⟩⟩],
        .check 0, .check 0, .run] v ∧ v.loop.running = some 0 ∧ (v.logs 0).received = [] ∧
      LoggedStep objectPool v (.sysRead (.bytes [7])) v' := by
  have hfd : (6 : ℤ) ≠ kInvalidFd := by decide
  exact ⟨_, _, .cons ⟨EventLoop.withinBuffer_of_ne (by simp), .step (.newServer rfl rfl rfl rfl)⟩ <|
    .cons ⟨EventLoop.withinBuffer_of_ne (by simp), .step (.setPoller rfl rfl rfl rfl)⟩ <|
    .cons ⟨EventLoop.withinBuffer_of_ne (by simp), .step (.poll rfl rfl)⟩ <|
    .cons ⟨EventLoop.withinBuffer_of_ne (by simp),
      .step (.epollWait _ rfl rfl (Nat.le_refl _) (by decide))⟩ <|
    .cons ⟨EventLoop.withinBuffer_of_ne (by simp), .step (.checkError rfl rfl rfl hfd)⟩ <|
    .cons ⟨EventLoop.withinBuffer_of_ne (by simp), .step (.checkInput rfl rfl rfl hfd)⟩ <|
    .single ⟨EventLoop.withinBuffer_of_ne (by simp), .step (.inRun rfl rfl rfl)⟩, rfl, rfl,
    .step (.sysRead rfl rfl (by simp) (by decide) rfl)⟩

/-- `::write` takes one byte at one end, and at the other end `::read` brings it. -/
theorem connection_stream_one_byte : ∃ ls w,
    Run (Lts.restrict (PeersStep oneConnection) Peers.WithinBuffer) (fun _ => .twoBuffers) ls w ∧
    (true, .sysRead (.bytes [7])) ∈ ls ∧
    ∃ input wire output,
      ((w true).logs 0).read ++ input ++ wire ++ output = ((w false).logs 0).written ∧
      (∀ s, (w true).loop.sockets 0 = some s → Queued (w true).loop.mem s.readList input) ∧
      ∀ s, (w false).loop.sockets 0 = some s → Queued (w false).loop.mem s.writeList output := by
  obtain ⟨v₀, hrun₀, hsent⟩ := Logged.sends_one_byte
  obtain ⟨v₁, v₂, hrun₁, hrunning, hreceived, hstep⟩ := Logged.receives_one_byte
  have hsender := Peers.run_of_loop oneConnection hrun₀ (by simp)
    (fun _ => .twoBuffers) false
  rw [show Function.update (fun _ => Logged.twoBuffers) false Logged.twoBuffers = fun _ =>
    Logged.twoBuffers from Function.update_eq_self ..] at hsender
  have hreceiver := Peers.run_of_loop oneConnection hrun₁ (by simp)
    (Function.update (fun _ => .twoBuffers) false v₀) true
  rw [show Function.update (Function.update (fun _ => Logged.twoBuffers) false v₀) true
    Logged.twoBuffers = Function.update (fun _ => Logged.twoBuffers) false v₀ from
      Function.update_eq_self (a := true) _] at hreceiver
  have hread : Lts.restrict (PeersStep oneConnection) Peers.WithinBuffer
      (Function.update (Function.update (fun _ => Logged.twoBuffers) false v₀) true v₁)
      (true, .sysRead (.bytes [7])) _ :=
    ⟨EventLoop.withinBuffer_of_ne (by simp), .step (fun src k hsrc hk => ?_) (by simpa using hstep)⟩
  · have hrun := (hsender.append hreceiver).snoc hread
    exact ⟨_, _, hrun, by simp,
      connection_stream (fun _ => Logged.twoBuffers_start) hrun (i := true) (k := 0) rfl⟩
  · obtain rfl : [7] = src := ReadResult.bytes.inj (LoopEvent.sysRead.inj hsrc)
    obtain rfl : 0 = k := Option.some.inj (hrunning.symm.trans (by simpa using hk))
    exact ⟨false, 0, rfl, by simp [hsent, hreceived]⟩

end Peers

end ServerKit
