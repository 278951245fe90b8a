import ServerKit.Core.Verify.Statuses
import ServerKit.Base.ObjectPool

/-!
# No bytes behind an edge

Once `EPOLLIN` has been reported, `In` reads until there is nothing left, or closes the descriptor.
It returns at once while the Socket is `CONNECTING`, and the event is not reported again; so what
had arrived by then is left behind (`Net.NoEarlyInput`).
-/

namespace ServerKit

open Lib

variable {σ : Type} {P : ObjectPool σ}

/-! ## Room in `read_list_` -/

namespace BufferList

/-- `::read` is not asked for 0 bytes. -/
def HasRoom (l : BufferList) : Prop := l.writeInx < kBufferSize

variable {m m' : Memory σ} {l l' : BufferList}

theorem kBufferSize_pos : 0 < kBufferSize := by decide

theorem HasRoom.writeableSize (h : l.HasRoom) : l.writeableSize = kBufferSize - l.writeInx := by
  have hle : l.writeInx ≤ kBufferSize := Nat.le_of_lt h
  exact wordSub_eq_of_le hle (by decide)

theorem new_hasRoom (h : BufferList.new P m = .ok (m', l)) : l.HasRoom := by
  unfold BufferList.new at h
  cases hget : P.getObject m with
  | error f => rw [hget] at h; cases h
  | ok pm =>
    rw [hget] at h
    obtain ⟨-, rfl⟩ := Prod.mk.inj (Except.ok.inj h)
    exact kBufferSize_pos

/-- Bytes that there was room for leave room. -/
theorem fill_hasRoom (hroom : l.HasRoom) {src : List UInt8} (hle : src.length ≤ l.writeableSize)
    (h : BufferList.fill P m l src = .ok (m', l')) : l'.HasRoom := by
  have hinx : wordAdd l.writeInx src.length ≤ kBufferSize := by
    rw [hroom.writeableSize] at hle
    unfold HasRoom at hroom
    have hsum : l.writeInx + src.length ≤ kBufferSize := by omega
    rw [wordAdd_eq_of_lt (Nat.lt_of_le_of_lt hsum (by decide))]
    exact hsum
  unfold fill writeAdvance at h
  cases hcopy : copyToWritePoint m l src with
  | error f => rw [hcopy] at h; cases h
  | ok m₁ =>
    rw [hcopy, ok_bind] at h
    dsimp only at h
    split at h
    · cases hget : P.getObject m₁ with
      | error f => rw [hget] at h; cases h
      | ok pm =>
        rw [hget, ok_bind] at h
        cases hwrite : deref l.write with
        | error f => rw [hwrite] at h; cases h
        | ok p =>
          rw [hwrite] at h
          obtain ⟨-, rfl⟩ := Prod.mk.inj (Except.ok.inj h)
          exact kBufferSize_pos
    · next hne =>
      obtain ⟨-, rfl⟩ := Prod.mk.inj (Except.ok.inj h)
      exact Nat.lt_of_le_of_ne hinx hne

theorem readAdvance_writeInx (P : ObjectPool σ) (m : Memory σ) (l : BufferList) (n : ℕ) :
    Outcome (fun _ => True) (fun r => r.2.writeInx = l.writeInx) (readAdvance P m l n) := by
  unfold readAdvance
  dsimp only
  split
  · cases hread : deref l.read with
    | error f => trivial
    | ok p => rfl
  · rfl

theorem readLoop_writeInx (P : ObjectPool σ) (fuel : ℕ) : ∀ (m : Memory σ) (l : BufferList) (n : ℕ)
    (out : List UInt8),
    Outcome (fun _ => True) (fun r => r.2.2.writeInx = l.writeInx) (readLoop P fuel m l n out) := by
  induction fuel with
  | zero => exact fun _ _ _ _ => trivial
  | succ fuel ih =>
    intro m l n out
    have hcopy : ∀ size, Outcome (fun _ => True) (fun _ => True) (copyFromReadPoint m l size) := by
      intro size
      cases copyFromReadPoint m l size <;> trivial
    unfold readLoop
    split
    · split
      · rfl
      · dsimp only
        split
        · refine (hcopy _).bind fun bytes _ => (readAdvance_writeInx P m l _).bind fun r hr => ?_
          exact (ih _ _ _ _).mono fun r' hr' => hr'.trans hr
        · refine (hcopy _).bind fun bytes _ => (readAdvance_writeInx P m l _).bind fun r hr => ?_
          exact hr
    · rfl

theorem readBytes_hasRoom (hroom : l.HasRoom) {n : ℕ} {r : ℕ × List UInt8}
    (h : BufferList.readBytes P m l n = .ok (r, m', l')) : l'.HasRoom := by
  have hout : Outcome (fun _ => True) (fun r => r.2.2.writeInx = l.writeInx)
      (BufferList.readBytes P m l n) := by
    unfold readBytes
    refine (readLoop_writeInx P (n + 1) m l n []).bind fun r hr => ?_
    exact hr
  have hinx : l'.writeInx = l.writeInx := hout.of_eq_ok h
  unfold HasRoom
  rw [hinx]
  exact hroom

end BufferList

theorem Socket.outStep_readList {s s' : Socket} {pc : OutPc} {next : Option OutPc}
    (h : s.outStep pc = some (s', next)) : s'.readList = s.readList := by
  rcases outStep_eq h with rfl | rfl | ⟨n, -, -, rfl⟩ <;> rfl

/-- Every `read_list_` keeps room. -/
theorem LoopStep.hasRoom {w w' : EventLoop σ} {e : LoopEvent} (hs : LoopStep P w e w')
    (h : ∀ k s, w.sockets k = some s → s.readList.HasRoom) {k : SocketPtr} {s' : Socket}
    (hk : w'.sockets k = some s') : s'.readList.HasRoom := by
  have hat : ∀ {j : SocketPtr} {t' : Socket}, w'.sockets = Function.update w.sockets j (some t') →
      t'.readList.HasRoom → s'.readList.HasRoom := by
    intro j t' hsockets hroom
    rcases EventLoop.sockets_update hsockets hk with ⟨-, rfl⟩ | ⟨-, hk⟩
    · exact hroom
    · exact h k s' hk
  cases hs with
  | newClient _ _ hread | newServer _ _ hread => exact hat rfl (BufferList.new_hasRoom hread)
  | setPoller _ hj | connect _ hj | connectFails _ hj | sysWrite _ hj | sysWriteFails _ hj
  | outClose _ hj | inClose _ hj | connectReturn _ hj =>
    have hroom := h _ _ hj
    exact hat rfl hroom
  | @write _ j t _ _ _ writeList _ hj =>
    obtain ⟨isWritable, hsockets⟩ := EventLoop.afterWrite_sockets _ j (t.setWriteList writeList)
    have hroom := h _ _ hj
    exact hat hsockets hroom
  | read _ hj hread => exact hat rfl (BufferList.readBytes_hasRoom (h _ _ hj) hread)
  | outRun _ hj hstep =>
    refine hat rfl ?_
    rw [Socket.outStep_readList hstep]
    exact h _ _ hj
  | sysRead _ hj _ hle hfill => exact hat rfl (BufferList.fill_hasRoom (h _ _ hj) hle hfill)
  | connectAgain | poll | callOut | epollWait | checkRetired | checkError | checkInput | checkOutput
  | pollDone | outReturn | inRun | sysReadFails | inReturn => exact h k s' hk

/-! ## What is still to be read -/

/-- `In` reads on until there is nothing left, or closes the descriptor. -/
def InPc.Reads : InPc → Prop
  | start | recv _ | onError _ | close => True
  | received err => isIOTryAgain err = false
  | finish | onRead => False

namespace EventLoop

/-- The batch has an event of the Socket with `EPOLLIN` that has not come to its check. -/
def InputDue (w : EventLoop σ) (k : SocketPtr) : Prop :=
  ∃ p ∈ w.poll.batch, p.1 ≠ .output ∧ p.2.events.input = true ∧
    ∃ en, w.epoll.entries p.2.ptr = some en ∧ en.event = k

/-- `In` of the Socket is reading. -/
def Reading (w : EventLoop σ) (k : SocketPtr) : Prop := ∃ pc, .input k pc ∈ w.stack ∧ pc.Reads

variable {w w' : EventLoop σ} {k : SocketPtr} {f : Frame} {fs rest : List Frame}

/-- What is below the frame that a step is about stays there. -/
theorem Reading.top (h : w.Reading k) (hstack : w.stack = f :: rest)
    (hstack' : w'.stack = fs ++ rest) : w'.Reading k ∨ ∃ pc, f = .input k pc ∧ pc.Reads := by
  obtain ⟨pc, hmem, hpc⟩ := h
  rw [hstack] at hmem
  rcases List.mem_cons.mp hmem with heq | hmem
  · exact .inr ⟨pc, heq.symm, hpc⟩
  · refine .inl ⟨pc, ?_, hpc⟩
    rw [hstack']
    exact List.mem_append_right _ hmem

theorem not_reading_of_nil (h : w.stack = []) : ¬ w.Reading k := by
  rintro ⟨pc, hmem, -⟩
  rw [h] at hmem
  cases hmem

end EventLoop

theorem Socket.inStep_reads {s : Socket} {pc : InPc} {next : Option InPc}
    (h : s.inStep pc = some next) (hpc : pc.Reads) :
    (∃ pc', next = some pc' ∧ pc'.Reads) ∨ s.status ≠ .connected := by
  cases pc with
  | start =>
    obtain rfl := Option.some.inj h
    split
    · exact .inr ‹_›
    · exact .inl ⟨_, rfl, trivial⟩
  | received err =>
    have hagain : isIOTryAgain err = false := hpc
    rw [inStep] at h
    split at h
    · obtain rfl := Option.some.inj h
      refine .inl ⟨_, rfl, ?_⟩
      split <;> trivial
    · rw [hagain] at h
      obtain rfl := Option.some.inj h
      exact .inl ⟨_, rfl, trivial⟩
  | recv | onError | close => cases h
  | finish | onRead => exact hpc.elim

namespace LoopStep

variable {w w' : EventLoop σ} {e : LoopEvent} {k : SocketPtr}

/-- An entry is deleted at the end of a round, or stays that of its Socket. -/
theorem entry_event (hs : LoopStep P w e w') (h : w.Registered) {ee : EpollEntryPtr}
    {en : EpollEntry} (hen : w.epoll.entries ee = some en) :
    e = .pollDone ∨ ∃ en', w'.epoll.entries ee = some en' ∧ en'.event = en.event := by
  rcases hs.change.entry h hen with hen' | ⟨-, ⟨en', hen'⟩, -⟩ | ⟨he, -⟩
  · exact .inr ⟨en, hen', rfl⟩
  · obtain ⟨en₀, hen₀, heq⟩ := (h.ages hs.change).event ee (h.lt hen) en' hen'
    obtain rfl := Option.some.inj (hen.symm.trans hen₀)
    exact .inr ⟨en', hen', heq⟩
  · exact .inl he

/-- A Socket whose descriptor is open was there with an open descriptor, or is new. -/
theorem open_before (hs : LoopStep P w e w') {s' : Socket} (hk' : w'.sockets k = some s')
    (hopen : s'.fdClosed = false) :
    w.sockets k = none ∨ ∃ s, w.sockets k = some s ∧ s.fdClosed = false := by
  cases hk : w.sockets k with
  | none => exact .inl rfl
  | some s =>
    refine .inr ⟨s, rfl, eq_false_of_ne_true fun hclosed => ?_⟩
    obtain ⟨t, ht, himp⟩ := hs.change.keep hk
    obtain rfl := Option.some.inj (hk'.symm.trans ht)
    rw [himp hclosed] at hopen
    cases hopen

/-- A Socket that is not `CLOSED` was not, and stays `CONNECTED` if it was. -/
theorem status_before (hs : LoopStep P w e w') {s s' : Socket} (hk : w.sockets k = some s)
    (hk' : w'.sockets k = some s') (hstatus : s'.status ≠ .closed) :
    s.status ≠ .closed ∧ (s.status = .connected → s'.status = .connected) ∧
      (s.status = s'.status ∨ s.status = .init ∨ s.status = .connecting) := by
  cases hs.turned hk' with
  | same t ht _ heq =>
    obtain rfl := Option.some.inj (hk.symm.trans ht)
    rw [heq] at hstatus ⊢
    exact ⟨hstatus, id, .inl rfl⟩
  | new hnone =>
    rw [hk] at hnone
    cases hnone
  | connecting t _ _ ht _ hinit =>
    obtain rfl := Option.some.inj (hk.symm.trans ht)
    rw [hinit]
    exact ⟨nofun, nofun, .inr (.inl rfl)⟩
  | connected t _ _ ht _ hconnecting =>
    obtain rfl := Option.some.inj (hk.symm.trans ht)
    rw [hconnecting]
    exact ⟨nofun, nofun, .inr (.inr rfl)⟩
  | closed t _ _ hclosed => exact absurd hclosed hstatus

/-- An event with `EPOLLIN` comes to its check: `In` is called, or the entry has been retired. -/
theorem inputDue (hs : LoopStep P w e w') (h : w.Registered) (hdue : w.InputDue k) :
    w'.InputDue k ∨ .input k .start ∈ w'.stack ∨
      ∃ ee en, w.epoll.entries ee = some en ∧ en.event = k ∧ en.fd = kInvalidFd := by
  obtain ⟨⟨stage, ev⟩, hmem, hstage, hinput, en, hen, hevent⟩ := hdue
  have hentry := hs.entry_event h hen
  rw [hevent] at hentry
  -- the event is still there
  have hkeep : e ≠ .pollDone → ∀ {stage'}, (stage', ev) ∈ w'.poll.batch → stage' ≠ .output →
      w'.InputDue k := by
    intro hdone stage' hmem' hstage'
    exact ⟨(stage', ev), hmem', hstage', hinput, hentry.resolve_left hdone⟩
  have hpoll : e ≠ .pollDone → w'.poll = w.poll → w'.InputDue k := by
    intro hdone heq
    refine hkeep hdone ?_ hstage
    rw [heq]
    exact hmem
  have hrest : ∀ {rest : List EpollEvent}, w'.poll = .events .error rest → e ≠ .pollDone →
      (stage, ev) ∈ rest.map (Prod.mk EventStage.error) → w'.InputDue k := by
    intro rest heq hdone hmem
    refine hkeep hdone ?_ hstage
    rw [heq, PollPc.batch_error]
    exact hmem
  cases hs with
  | newClient | newServer | setPoller | connectAgain | connect | connectFails | read | outRun
  | sysWrite | sysWriteFails | outReturn | outClose | inRun | sysRead | sysReadFails | inReturn
  | inClose | connectReturn => exact .inl (hpoll nofun rfl)
  | write => exact .inl (hpoll nofun (EventLoop.afterWrite_poll ..))
  | poll _ heq | callOut _ _ heq | epollWait _ _ heq =>
    rw [heq] at hmem
    cases hmem
  | pollDone _ heq =>
    rw [heq] at hmem
    cases hmem
  | checkRetired _ heq hen' hfd =>
    rw [heq] at hmem
    rcases List.mem_cons.mp hmem with hev | hmem
    · obtain ⟨rfl, rfl⟩ := Prod.mk.inj hev
      obtain rfl := Option.some.inj (hen.symm.trans (Epoll.entry_eq_ok hen'))
      exact .inr (.inr ⟨_, _, hen, hevent, hfd⟩)
    · exact .inl (hrest rfl nofun hmem)
  | checkError _ heq =>
    rw [heq] at hmem
    rcases List.mem_cons.mp hmem with hev | hmem
    · obtain ⟨rfl, rfl⟩ := Prod.mk.inj hev
      exact .inl (hkeep nofun List.mem_cons_self nofun)
    · exact .inl (hkeep nofun (List.mem_cons_of_mem _ hmem) hstage)
  | checkInput _ heq hen' =>
    rw [heq] at hmem
    rcases List.mem_cons.mp hmem with hev | hmem
    · obtain ⟨rfl, rfl⟩ := Prod.mk.inj hev
      obtain rfl := Option.some.inj (hen.symm.trans (Epoll.entry_eq_ok hen'))
      refine .inr (.inl ?_)
      change _ ∈ if ev.events.input then _ else _
      rw [if_pos hinput, hevent]
      exact List.mem_cons_self
    · exact .inl (hkeep nofun (List.mem_cons_of_mem _ hmem) hstage)
  | checkOutput _ heq =>
    rw [heq] at hmem
    rcases List.mem_cons.mp hmem with hev | hmem
    · obtain ⟨rfl, -⟩ := Prod.mk.inj hev
      exact absurd rfl hstage
    · exact .inl (hrest rfl nofun hmem)

/-- An `In` that is reading goes on, unless it finds the Socket not `CONNECTED`, closes the
descriptor, or has read all. -/
theorem reading (hs : LoopStep P w e w') (hreading : w.Reading k) :
    w'.Reading k ∨ (∃ s, w.sockets k = some s ∧ s.status ≠ .connected) ∨
      (∃ s, w'.sockets k = some s ∧ s.fdClosed = true) ∨
      ∃ r ret rest, e = .sysRead r ∧ w.stack = .input k (.recv ret) :: rest ∧
        (∀ src, r ≠ .bytes src) ∧ ¬ (Socket.afterRead ret r).Reads := by
  have htop : ∀ {f : Frame} (fs : List Frame) {rest : List Frame}, w.stack = f :: rest →
      w'.stack = fs ++ rest → w'.Reading k ∨ ∃ pc, f = .input k pc ∧ pc.Reads :=
    fun _ _ hstack hstack' => hreading.top hstack hstack'
  have hout : ∀ {f : Frame} (fs : List Frame) {rest : List Frame}, w.stack = f :: rest →
      w'.stack = fs ++ rest → (∀ j pc, f ≠ .input j pc) → w'.Reading k := by
    intro f fs rest hstack hstack' hf
    rcases htop fs hstack hstack' with h | ⟨pc, heq, -⟩
    · exact h
    · exact absurd heq (hf k pc)
  have hsame : w'.stack = w.stack → w'.Reading k := by
    intro heq
    obtain ⟨pc, hmem, hpc⟩ := hreading
    rw [← heq] at hmem
    exact ⟨pc, hmem, hpc⟩
  cases hs with
  | newClient | newServer | setPoller | connectAgain | connect | read | poll | epollWait
  | checkRetired | pollDone => exact .inl (hsame rfl)
  | write => exact .inl (hsame (EventLoop.afterWrite_stack ..))
  | connectFails =>
    obtain ⟨pc, hmem, hpc⟩ := hreading
    exact .inl ⟨pc, List.mem_cons_of_mem _ hmem, hpc⟩
  | callOut _ hnil | checkError hnil | checkInput hnil | checkOutput hnil =>
    exact absurd hreading (EventLoop.not_reading_of_nil hnil)
  | outRun hstack | outReturn hstack => exact .inl (hout _ hstack rfl nofun)
  | sysWrite hstack | sysWriteFails hstack =>
    exact .inl (hout [_] hstack rfl nofun)
  | outClose hstack | connectReturn hstack => exact .inl (hout [] hstack rfl nofun)
  | @inRun _ j s pc next rest hstack hk hstep =>
    rcases htop _ hstack rfl with h | ⟨pc', heq, hpc⟩
    · exact .inl h
    · obtain ⟨rfl, rfl⟩ := Frame.input.inj heq
      rcases Socket.inStep_reads hstep hpc with ⟨pc', rfl, hpc'⟩ | hstatus
      · exact .inl ⟨pc', List.mem_cons_self, hpc'⟩
      · exact .inr (.inl ⟨s, hk, hstatus⟩)
  | sysRead hstack =>
    rcases htop [_] hstack rfl with h | ⟨pc', heq, -⟩
    · exact .inl h
    · obtain ⟨rfl, -⟩ := Frame.input.inj heq
      exact .inl ⟨_, List.mem_cons_self, trivial⟩
  | @sysReadFails _ j ret r rest hstack hr =>
    rcases htop [_] hstack rfl with h | ⟨pc', heq, -⟩
    · exact .inl h
    · obtain ⟨rfl, -⟩ := Frame.input.inj heq
      by_cases hreads : (Socket.afterRead ret r).Reads
      · exact .inl ⟨_, List.mem_cons_self, hreads⟩
      · exact .inr (.inr (.inr ⟨r, ret, rest, rfl, hstack, hr, hreads⟩))
  | @inReturn _ j pc next rest hstack hreturn =>
    rcases htop _ hstack rfl with h | ⟨pc', heq, hpc⟩
    · exact .inl h
    · obtain ⟨rfl, rfl⟩ := Frame.input.inj heq
      cases pc with
      | onError err =>
        obtain rfl := Option.some.inj hreturn
        exact .inl ⟨.close, List.mem_cons_self, trivial⟩
      | onRead => exact hpc.elim
      | _ => cases hreturn
  | inClose hstack hk =>
    rcases htop [] hstack rfl with h | ⟨pc', heq, -⟩
    · exact .inl h
    · obtain ⟨rfl, -⟩ := Frame.input.inj heq
      exact .inr (.inr (.inl ⟨_, Function.update_self .., rfl⟩))

end LoopStep

/-! ## The invariant -/

namespace Net

/-- The condition on a step: no event reports `EPOLLIN` for a Socket that is `CONNECTING` when bytes
have arrived for it. -/
def NoEarlyInput (w : Net σ) : NetEvent → Prop
  | .loop (.epollWait events) => ∀ ev ∈ events, ∀ k s, w.eventOf ev = some k →
      w.loop.sockets k = some s → s.status = .connecting → ev.events.input = true →
      (w.conns k).arrived.length ≤ (w.conns k).moved
  | _ => True

/-- What had arrived at the last `EPOLLIN` has been moved, or is about to be. -/
structure Edges (w : Net σ) : Prop where
  registered : w.loop.Registered
  bounded : ∀ k, (w.conns k).edge ≤ (w.conns k).arrived.length
  unborn : ∀ k, w.loop.sockets k = none → (w.conns k).edge ≤ (w.conns k).moved
  room : ∀ k s, w.loop.sockets k = some s → s.readList.HasRoom
  retired : ∀ ee en s, w.loop.epoll.entries ee = some en → en.fd = kInvalidFd →
    w.loop.sockets en.event = some s → s.fdClosed = true
  edge : ∀ k s, w.loop.sockets k = some s → s.fdClosed = false → s.status ≠ .closed →
    (w.conns k).edge ≤ (w.conns k).moved ∨
      s.status = .connected ∧ (w.loop.InputDue k ∨ w.loop.Reading k)

variable {w w' : Net σ} {e : LoopEvent} {loop : EventLoop σ} {k : SocketPtr} {s : Socket}

/-- The Socket of an event that is returned has been there. -/
theorem Edges.returned (h : w.Edges) {ev : EpollEvent} (hev : w.Returned k ev e) :
    ∃ s, w.loop.sockets k = some s ∧ s.status ≠ .init := by
  obtain ⟨en, hen, rfl⟩ := hev.entry
  obtain ⟨s, hk, hstatus, -⟩ := h.registered.entry _ en hen
  exact ⟨s, hk, hstatus⟩

theorem Edges.bounded_step (h : w.Edges) (k : SocketPtr) (e : LoopEvent) :
    (w.observe k e).edge ≤ (w.observe k e).arrived.length := by
  rw [w.observe_arrived k e]
  rcases w.observe_edge k e with ⟨hedge, -⟩ | ⟨hedge, -⟩
  · rw [hedge]
    exact h.bounded k
  · exact Nat.le_of_eq hedge

theorem Edges.unborn_step (h : w.Edges) (hnone : w.loop.sockets k = none) :
    (w.observe k e).edge ≤ (w.observe k e).moved := by
  rcases w.observe_edge k e with ⟨hedge, -⟩ | ⟨-, ev, hev, -⟩
  · rw [hedge]
    exact Nat.le_trans (h.unborn k hnone) (w.observe_moved k e)
  · obtain ⟨s, hk, -⟩ := h.returned hev
    rw [hnone] at hk
    cases hk

theorem Edges.retired_step (h : w.Edges) (hanswers : w.Answers e) (hs : LoopStep P w.loop e loop)
    {ee : EpollEntryPtr} {en' : EpollEntry} {s' : Socket} (hen' : loop.epoll.entries ee = some en')
    (hfd : en'.fd = kInvalidFd) (hk' : loop.sockets en'.event = some s') : s'.fdClosed = true := by
  -- the Socket was closed before the step
  have hbefore : ∀ {t}, w.loop.sockets en'.event = some t → t.fdClosed = true →
      s'.fdClosed = true := by
    intro t ht hclosed
    obtain ⟨t', ht', himp⟩ := hs.change.keep ht
    obtain rfl := Option.some.inj (hk'.symm.trans ht')
    exact himp hclosed
  rcases hs.change.new_entry h.registered hen' with ⟨en, hen, heq⟩ | ⟨t, ht, hfdt, hregisters⟩
  · rw [heq] at hbefore hk'
    obtain ⟨t, ht, -⟩ := h.registered.entry ee en hen
    rcases hs.change.entry h.registered hen with hsame | ⟨-, -, j, u, -, hj, hee, hj'⟩ | ⟨-, hmem⟩
    · obtain rfl := Option.some.inj (hsame.symm.trans hen')
      exact hbefore ht (h.retired ee _ t hen hfd ht)
    · rw [(h.registered.handle j u ee hj hee).2.2.2 en hen] at hk'
      rw [← Option.some.inj (hj'.symm.trans hk')]
    · obtain ⟨j, u, hj, hee, hclosed, -⟩ := h.registered.retired ee hmem
      rw [(h.registered.handle j u ee hj hee).2.2.2 en hen] at hbefore
      exact hbefore hj hclosed
  · -- the kernel does not register -1
    rw [hfdt] at hfd
    rcases hregisters with ⟨rfl, -⟩ | ⟨rfl, -⟩
    · exact absurd hfd (hanswers rfl t ht)
    · exact absurd hfd (hanswers rfl t ht)

/-- A `::read` that ends the reading has found nothing more. -/
theorem Edges.read_all (h : w.Edges) {r : ReadResult} {ret : ℤ} {rest : List Frame}
    (hanswers : w.Answers (.sysRead r)) (hk : w.loop.sockets k = some s)
    (hstack : w.loop.stack = .input k (.recv ret) :: rest) (hr : ∀ src, r ≠ .bytes src)
    (hends : ¬ (Socket.afterRead ret r).Reads) :
    (w.conns k).arrived.length ≤ (w.conns k).moved := by
  have hreadable := hanswers k _ rest s hstack hk
  cases r with
  | bytes src => exact absurd rfl (hr src)
  | zero errno =>
    rcases hreadable with hall | hfull
    · exact hall
    · -- `::read` has been asked for some
      have hroom := h.room k s hk
      rw [hroom.writeableSize] at hfull
      unfold BufferList.HasRoom at hroom
      omega
  | error errno =>
    cases hagain : isIOTryAgain errno with
    | true => exact hreadable hagain
    | false =>
      refine absurd ?_ hends
      rw [Socket.afterRead, hagain, if_neg Bool.false_ne_true]
      split
      · trivial
      · exact hagain

/-- An event with `EPOLLIN` that has just been reported comes to its check. -/
theorem inputDue_of_returned {events : List EpollEvent} {ev : EpollEvent}
    (hev : w.Returned k ev (.epollWait events)) (hinput : ev.events.input = true)
    (hs : LoopStep P w.loop (.epollWait events) loop) : loop.InputDue k := by
  obtain ⟨en, hen, hevent⟩ := hev.entry
  have hmem : ev ∈ events := hev.1
  have hne : events ≠ [] := List.ne_nil_of_mem hmem
  cases hs with
  | epollWait =>
    refine ⟨(.error, ev), ?_, nofun, hinput, en, hen, hevent⟩
    change _ ∈ (if events = [] then PollPc.idle else .events .error events).batch
    rw [if_neg hne, PollPc.batch_error]
    exact List.mem_map_of_mem hmem

theorem Edges.edge_step (h : w.Edges) (hanswers : w.Answers e) (hgood : w.NoEarlyInput (.loop e))
    (hs : LoopStep P w.loop e loop) {s' : Socket} (hk' : loop.sockets k = some s')
    (hopen : s'.fdClosed = false) (hstatus : s'.status ≠ .closed) :
    (w.observe k e).edge ≤ (w.observe k e).moved ∨
      s'.status = .connected ∧ (loop.InputDue k ∨ loop.Reading k) := by
  have hmoved := w.observe_moved k e
  rcases hs.open_before hk' hopen with hnone | ⟨s, hk, hopen'⟩
  · exact .inl (h.unborn_step hnone)
  obtain ⟨hstatus', hconnected, hkinds⟩ := hs.status_before hk hk' hstatus
  rcases w.observe_edge k e with ⟨hedge, -⟩ | ⟨hedge, ev, hev, hinput⟩
  · rw [hedge]
    rcases h.edge k s hk hopen' hstatus' with hle | ⟨hc, hpending⟩
    · exact .inl (Nat.le_trans hle hmoved)
    rcases hpending with hdue | hreading
    · rcases hs.inputDue h.registered hdue with hdue' | hstart | ⟨ee, en, hen, rfl, hfd⟩
      · exact .inr ⟨hconnected hc, .inl hdue'⟩
      · exact .inr ⟨hconnected hc, .inr ⟨.start, hstart, trivial⟩⟩
      · rw [h.retired ee en s hen hfd hk] at hopen'
        cases hopen'
    · rcases hs.reading hreading with hreading' | ⟨t, ht, hnot⟩ | ⟨t, ht, hclosed⟩ |
        ⟨r, ret, rest, rfl, hstack, hr, hends⟩
      · exact .inr ⟨hconnected hc, .inr hreading'⟩
      · obtain rfl := Option.some.inj (hk.symm.trans ht)
        exact absurd hc hnot
      · obtain rfl := Option.some.inj (hk'.symm.trans ht)
        rw [hclosed] at hopen
        cases hopen
      · exact .inl (Nat.le_trans (h.bounded k)
          (Nat.le_trans (h.read_all hanswers hk hstack hr hends) hmoved))
  · -- `EPOLLIN` has just been reported
    rw [hedge]
    cases e with
    | epollWait events =>
      by_cases hc : s'.status = .connected
      · exact .inr ⟨hc, .inl (inputDue_of_returned hev hinput hs)⟩
      -- the condition: a Socket that is `CONNECTING` has nothing to read
      refine .inl (Nat.le_trans (hgood ev hev.1 k s hev.2 hk ?_ hinput) hmoved)
      obtain ⟨t, ht, hinit⟩ := h.returned hev
      obtain rfl := Option.some.inj (hk.symm.trans ht)
      rcases hkinds with hsame | hi | hconnecting
      · cases hstat : s.status with
        | connecting => rfl
        | init => exact absurd hstat hinit
        | connected => exact absurd (hsame.symm.trans hstat) hc
        | closed => exact absurd hstat hstatus'
      · exact absurd hi hinit
      · exact hconnecting
    | _ => exact hev.elim

theorem Edges.step_loop (h : w.Edges) (hanswers : w.Answers e) (hgood : w.NoEarlyInput (.loop e))
    (hs : LoopStep P w.loop e loop) : (⟨loop, fun k => w.observe k e⟩ : Net σ).Edges where
  registered := h.registered.step hs.change
  bounded k := h.bounded_step k e
  unborn k hk' := by
    refine h.unborn_step ?_
    cases hk : w.loop.sockets k with
    | none => rfl
    | some s =>
      obtain ⟨s', hs', -⟩ := hs.change.keep hk
      have hk' : loop.sockets k = none := hk'
      rw [hs'] at hk'
      cases hk'
  room _ _ hk' := hs.hasRoom h.room hk'
  retired _ _ _ hen hfd hk' := h.retired_step hanswers hs hen hfd hk'
  edge _ _ hk' hopen hstatus := h.edge_step hanswers hgood hs hk' hopen hstatus

/-! ## Runs -/

/-- A step of the kernel, which reports nothing and moves nothing. -/
theorem Edges.setConn (h : w.Edges) {c : Connection} (hedge : c.edge = (w.conns k).edge)
    (hmoved : c.moved = (w.conns k).moved)
    (harrived : (w.conns k).arrived.length ≤ c.arrived.length) : (w.setConn k c).Edges := by
  have hconn : ∀ j, ((w.setConn k c).conns j).edge = (w.conns j).edge ∧
      ((w.setConn k c).conns j).moved = (w.conns j).moved ∧
      (w.conns j).arrived.length ≤ ((w.setConn k c).conns j).arrived.length :=
    setConn_conns (R := fun c₀ c₁ => c₁.edge = c₀.edge ∧ c₁.moved = c₀.moved ∧
      c₀.arrived.length ≤ c₁.arrived.length) ⟨hedge, hmoved, harrived⟩
      fun _ => ⟨rfl, rfl, Nat.le_refl _⟩
  refine ⟨h.registered, fun j => ?_, fun j hj => ?_, h.room, h.retired,
    fun j s hj hopen hstatus => ?_⟩
  · rw [(hconn j).1]
    exact Nat.le_trans (h.bounded j) (hconn j).2.2
  · rw [(hconn j).1, (hconn j).2.1]
    exact h.unborn j hj
  · rw [(hconn j).1, (hconn j).2.1]
    exact h.edge j s hj hopen hstatus

/-- **The step lemma.** -/
theorem Edges.step {e : NetEvent} (h : w.Edges) (hgood : w.NoEarlyInput e) (hs : NetStep P w e w') :
    w'.Edges := by
  cases hs with
  | loop hanswers hs => exact h.step_loop hanswers hgood hs
  | connectDone => exact h.setConn rfl rfl (Nat.le_refl _)
  | arrive bytes =>
    refine h.setConn rfl rfl ?_
    change _ ≤ (_ ++ bytes).length
    rw [List.length_append]
    exact Nat.le_add_right _ _

theorem new_edges {loop : EventLoop σ} (h : loop.Start) : (Net.new loop).Edges := by
  have hregistered := h.registered
  obtain ⟨hsockets, hepoll, -, -⟩ := h
  have hnone : ∀ {k s}, loop.sockets k ≠ some s := by
    intro k s hk
    rw [hsockets k] at hk
    cases hk
  exact ⟨hregistered, fun _ => Nat.le_refl _, fun _ _ => Nat.le_refl _,
    fun k s hk => absurd hk hnone, fun ee en s _ _ hk => absurd hk hnone,
    fun k s hk => absurd hk hnone⟩

end Net

/-- **No bytes are left behind an edge**, when no event reports `EPOLLIN` for a Socket that is
`CONNECTING` and has bytes to read: between two rounds, what had arrived when `EPOLLIN` was last
reported for a `CONNECTED` Socket has been moved. -/
theorem edge_moved {loop : EventLoop σ} {w : Net σ} {es : List NetEvent} {k : SocketPtr}
    {s : Socket} (h₀ : loop.Start)
    (hrun : Run (Lts.restrict (NetStep P) Net.NoEarlyInput) (.new loop) es w)
    (hpoll : w.loop.poll = .idle) (hstack : w.loop.stack = []) (hk : w.loop.sockets k = some s)
    (hconnected : s.status = .connected) (hopen : s.fdClosed = false) :
    (w.conns k).edge ≤ (w.conns k).moved := by
  have h : w.Edges := hrun.invariant Net.Edges (fun _ _ _ h hs => h.step hs.1 hs.2)
    (Net.new_edges h₀)
  have hstatus : s.status ≠ .closed := by
    rw [hconnected]
    exact SocketStatus.noConfusion
  rcases h.edge k s hk hopen hstatus with hle | ⟨-, ⟨p, hmem, -⟩ | hreading⟩
  · exact hle
  · rw [hpoll] at hmem
    cases hmem
  · exact absurd hreading (EventLoop.not_reading_of_nil hstack)

theorem Net.noEarlyInput_epollWait {w : Net σ} {ev : EpollEvent} {en : EpollEntry} {s : Socket}
    (hen : w.loop.epoll.entries ev.ptr = some en) (hk : w.loop.sockets en.event = some s)
    (h : s.status ≠ .connecting) : w.NoEarlyInput (.loop (.epollWait [ev])) := by
  intro ev' hmem k s' heq hk' hconnecting
  obtain rfl := List.mem_singleton.mp hmem
  unfold eventOf at heq
  rw [hen] at heq
  obtain rfl := Option.some.inj heq
  obtain rfl := Option.some.inj (hk.symm.trans hk')
  exact absurd hconnecting h

/-- A server Socket is attached, and reads the byte that an event reports. -/
theorem edge_moved_server : ∃ w s,
    Run (Lts.restrict (NetStep objectPool) Net.NoEarlyInput) (.new EventLoop.twoBuffers)
      [.loop (.newServer 0 5 true), .loop (.setPoller 0 true), .arrive 0 [7], .loop .poll,
        .loop (.epollWait [⟨0, ⟨false, true, false⟩⟩]), .loop (.check 0), .loop (.check 0),
        .loop .run, .loop (.sysRead (.bytes [7])), .loop (.sysRead (.error 11)), .loop .run,
        .loop .run, .loop .ret, .loop (.check 0), .loop .pollDone] w ∧
    w.loop.sockets 0 = some s ∧ s.status = .connected ∧ (w.conns 0).edge = 1 ∧
      (w.conns 0).edge ≤ (w.conns 0).moved := by
  obtain ⟨w, s, hrun, hpoll, hstack, hk, hconnected, hopen, hedge⟩ : ∃ w s,
      Run (Lts.restrict (NetStep objectPool) Net.NoEarlyInput) (.new EventLoop.twoBuffers)
        [.loop (.newServer 0 5 true), .loop (.setPoller 0 true), .arrive 0 [7], .loop .poll,
          .loop (.epollWait [⟨0, ⟨false, true, false⟩⟩]), .loop (.check 0), .loop (.check 0),
          .loop .run, .loop (.sysRead (.bytes [7])), .loop (.sysRead (.error 11)), .loop .run,
          .loop .run, .loop .ret, .loop (.check 0), .loop .pollDone] w ∧
      w.loop.poll = .idle ∧ w.loop.stack = [] ∧ w.loop.sockets 0 = some s ∧
        s.status = .connected ∧ s.fdClosed = false ∧ (w.conns 0).edge = 1 := by
    have hfd : (5 : ℤ) ≠ kInvalidFd := by decide
    exact ⟨_, _, .cons ⟨trivial, .loop trivial (.newServer rfl rfl rfl rfl)⟩ <|
      .cons ⟨trivial, .loop (Net.answers_setPoller rfl hfd true) (.setPoller rfl rfl rfl rfl)⟩ <|
      .cons ⟨trivial, .arrive [7]⟩ <|
      .cons ⟨trivial, .loop trivial (.poll rfl rfl)⟩ <|
      .cons ⟨Net.noEarlyInput_epollWait rfl rfl nofun,
        .loop (Net.answers_epollWait rfl hfd rfl rfl nofun)
        (.epollWait _ rfl rfl (Nat.le_refl _) (by decide))⟩ <|
      .cons ⟨trivial, .loop trivial (.checkError rfl rfl rfl hfd)⟩ <|
      .cons ⟨trivial, .loop trivial (.checkInput rfl rfl rfl hfd)⟩ <|
      .cons ⟨trivial, .loop trivial (.inRun rfl rfl rfl)⟩ <|
      .cons ⟨trivial, .loop (Net.answers_sysRead rfl rfl (List.prefix_refl _))
        (.sysRead rfl rfl nofun (by decide) rfl)⟩ <|
      .cons ⟨trivial, .loop (Net.answers_sysRead rfl rfl fun _ => Nat.le_refl _)
        (.sysReadFails rfl nofun)⟩ <|
      .cons ⟨trivial, .loop trivial (.inRun rfl rfl rfl)⟩ <|
      .cons ⟨trivial, .loop trivial (.inRun rfl rfl rfl)⟩ <|
      .cons ⟨trivial, .loop trivial (.inReturn rfl rfl)⟩ <|
      .cons ⟨trivial, .loop trivial (.checkOutput rfl rfl rfl hfd)⟩ <|
      .single ⟨trivial, .loop trivial (.pollDone rfl rfl rfl)⟩, rfl, rfl, rfl, rfl, rfl, rfl⟩
  exact ⟨w, s, hrun, hk, hconnected, hedge,
    edge_moved EventLoop.twoBuffers_start hrun hpoll hstack hk hconnected hopen⟩

/-- A byte arrives before the event that completes the connect, which reports `EPOLLIN` and
`EPOLLOUT` together: `In` returns, `Out` makes the Socket `CONNECTED`, and the byte is not read. -/
theorem edge_left_behind : ∃ w s,
    Run (NetStep objectPool) (.new EventLoop.twoBuffers)
      [.loop (.newClient 0 5 true), .loop (.connect 0 kOK true), .connectDone 0 true,
        .arrive 0 [7], .loop .poll, .loop (.epollWait [⟨0, ⟨false, true, true⟩⟩]),
        .loop (.check 0), .loop (.check 0), .loop .run, .loop (.check 0), .loop .run, .loop .ret,
        .loop .run, .loop .run, .loop .run, .loop .pollDone] w ∧
    w.loop.poll = .idle ∧ w.loop.stack = [] ∧ w.loop.sockets 0 = some s ∧
      s.status = .connected ∧ s.fdClosed = false ∧ (w.conns 0).arrived = [7] ∧
      ¬ (w.conns 0).edge ≤ (w.conns 0).moved := by
  have hfd : (5 : ℤ) ≠ kInvalidFd := by decide
  refine ⟨_, _, .cons (.loop trivial (.newClient rfl rfl rfl rfl)) <|
    .cons (.loop (Net.answers_connect rfl hfd kOK true) (.connect rfl rfl rfl rfl rfl)) <|
    .cons (.connectDone rfl rfl nofun rfl) <|
    .cons (.arrive [7]) <|
    .cons (.loop trivial (.poll rfl rfl)) <|
    .cons (.loop (Net.answers_epollWait rfl hfd rfl rfl fun _ => ⟨nofun, nofun⟩)
      (.epollWait _ rfl rfl (Nat.le_refl _) (by decide))) <|
    .cons (.loop trivial (.checkError rfl rfl rfl hfd)) <|
    .cons (.loop trivial (.checkInput rfl rfl rfl hfd)) <|
    .cons (.loop trivial (.inRun rfl rfl rfl)) <|
    .cons (.loop trivial (.checkOutput rfl rfl rfl hfd)) <|
    .cons (.loop trivial (.outRun rfl rfl rfl)) <|
    .cons (.loop trivial (.outReturn rfl rfl)) <|
    .cons (.loop trivial (.outRun rfl rfl rfl)) <|
    .cons (.loop trivial (.outRun rfl rfl rfl)) <|
    .cons (.loop trivial (.outRun rfl rfl rfl)) <|
    .single (.loop trivial (.pollDone rfl rfl rfl)), rfl, rfl, rfl, rfl, rfl, rfl, ?_⟩
  have hmoved : ¬ (1 ≤ 0) := by decide
  exact hmoved

end ServerKit
