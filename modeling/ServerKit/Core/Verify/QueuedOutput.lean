import ServerKit.Base.ObjectPool
import ServerKit.Core.EventLoop
import ServerKit.Core.Verify.Entries
import Mathlib.Tactic.Common

/-!
# When queued output is sent

A Socket with queued output is marked writable, and a connected Socket that is marked writable is in
`writeable_list_`, or its last `::write` has returned `EAGAIN`, or `Out` is about to send for it
(`SocketOk`). That needs a handle: `Socket::Connect` drops the one `Epoll::Add` returns, so what is
written to a client Socket once it is connected is queued and nobody is told.
-/

namespace ServerKit

open Lib

variable {σ : Type} {P : ObjectPool σ}

theorem BufferList.new_empty {m m' : Memory σ} {l : BufferList}
    (h : BufferList.new P m = .ok (m', l)) : l.empty = true := by
  rw [BufferList.new] at h
  cases hget : P.getObject m with
  | error f => rw [hget] at h; cases h
  | ok pm =>
    rw [hget] at h
    obtain ⟨-, rfl⟩ := Prod.mk.inj (Except.ok.inj h)
    simp [BufferList.empty, BufferList.readableSize, wordSub]

/-! ## What operations of the poller keep -/

/-- No entry of `e` is given to another Event in `e'`. -/
structure Epoll.Keeps (e e' : Epoll) : Prop where
  next : e.nextEntry ≤ e'.nextEntry
  event : ∀ ee, ee < e.nextEntry → ∀ en', e'.entries ee = some en' →
    ∃ en, e.entries ee = some en ∧ en'.event = en.event
  fresh : (∀ ee, e.nextEntry ≤ ee → e.entries ee = none) →
    ∀ ee, e'.nextEntry ≤ ee → e'.entries ee = none

namespace Epoll

variable {e e' : Epoll} {handle : Option EpollEntryPtr}

theorem Keeps.refl (e : Epoll) : e.Keeps e :=
  ⟨Nat.le_refl _, fun _ _ en h => ⟨en, h, rfl⟩, fun h => h⟩

/-- Writing an entry for the same Event. -/
theorem setEntry_keeps {ee : EpollEntryPtr} {en : EpollEntry} {en' : Option EpollEntry}
    (hen : e.entries ee = some en) (hevent : ∀ x, en' = some x → x.event = en.event) :
    e.Keeps (e.setEntry ee en') := by
  refine ⟨Nat.le_refl _, fun ee' _ x hx => ?_, fun hfresh ee' hle => ?_⟩
  · by_cases heq : ee' = ee
    · subst heq
      rw [setEntry_self] at hx
      exact ⟨en, hen, hevent x hx⟩
    · rw [setEntry_ne e en' heq] at hx
      exact ⟨x, hx, rfl⟩
  · rw [setEntry_nextEntry] at hle
    rw [setEntry_ne e en' (by rintro rfl; rw [hfresh _ hle] at hen; cases hen)]
    exact hfresh ee' hle

theorem add_keeps {fd : ℤ} {event : SocketPtr} {added : Bool}
    (h : e.add fd event added = (handle, e')) :
    e.Keeps e' ∧ e'.writeable = e.writeable ∧
      ∀ ee, handle = some ee → ee < e'.nextEntry ∧
        ∀ en, e'.entries ee = some en → en.event = event := by
  cases added with
  | false =>
    obtain ⟨rfl, rfl⟩ := Prod.mk.inj h
    exact ⟨.refl e, rfl, nofun⟩
  | true =>
    obtain ⟨rfl, rfl⟩ := Prod.mk.inj h
    refine ⟨⟨Nat.le_succ _, fun ee hlt en' hen' => ?_, fun hfresh ee hle => ?_⟩, rfl, ?_⟩
    · exact ⟨en', (setEntry_ne e _ (Nat.ne_of_lt hlt)).symm.trans hen', rfl⟩
    · have hlt : e.nextEntry < ee := hle
      exact (setEntry_ne e _ (Nat.ne_of_gt hlt)).trans (hfresh ee (Nat.le_of_lt hlt))
    · rintro ee heq
      obtain rfl := Option.some.inj heq
      refine ⟨Nat.lt_succ_self _, fun en hen => ?_⟩
      rw [← Option.some.inj ((setEntry_self e ..).symm.trans hen)]

theorem del_keeps (h : e.del handle = .ok e') : e.Keeps e' ∧ e'.writeable = e.writeable := by
  cases handle with
  | none =>
    obtain rfl := Except.ok.inj h
    exact ⟨.refl e, rfl⟩
  | some ee =>
    obtain ⟨en, hen, rfl⟩ := del_eq h
    have hkeeps : e.Keeps (e.setEntry ee (some { en with fd := kInvalidFd })) :=
      setEntry_keeps hen fun x hx => by rw [← Option.some.inj hx]
    exact ⟨⟨hkeeps.next, hkeeps.event, hkeeps.fresh⟩, rfl⟩

theorem processRetired_keeps (h : e.processRetired = .ok e') :
    e.Keeps e' ∧ e'.writeable = e.writeable := by
  obtain ⟨-, -, rfl⟩ := processRetired_eq h
  refine ⟨⟨Nat.le_refl _, fun ee _ en' hen' => ?_, fun hfresh ee hle => ?_⟩, rfl⟩
  · by_cases hmem : ee ∈ e.retired
    · cases (if_pos hmem).symm.trans hen'
    · exact ⟨en', (if_neg hmem).symm.trans hen', rfl⟩
  · have hnone := hfresh ee hle
    change (if ee ∈ e.retired then none else e.entries ee) = none
    rw [hnone, ite_self]

end Epoll

/-! ## The invariant -/

/-- `Out` will send what is queued, or close the Socket. -/
def OutPc.Sends : OutPc → Prop
  | start _ | onConnect _ | connected _ | loop _ | send _ | onError _ | close => True
  | sent _ err => isIOTryAgain err = false
  | finish _ | onWrite => False

/-- The last `::write` has returned `EAGAIN`. -/
def Socket.Blocked (s : Socket) : Prop :=
  ∃ errno, s.lastWrite = some (.error errno) ∧ isIOTryAgain errno = true

namespace EventLoop

/-- The number of entries of `writeable_list_` that this round has been through. -/
def visited (w : EventLoop σ) : ℕ :=
  match w.poll with
  | .writeable iter => iter
  | .idle | .events _ _ => 0

/-- The entries of `writeable_list_` still to come. -/
def pending (w : EventLoop σ) : List EpollEntryPtr := w.epoll.writeable.drop w.visited

/-- The entry of the handle of a Socket is still to come in `writeable_list_`. -/
def Queued (w : EventLoop σ) (s : Socket) : Prop := ∃ ee, s.handle = some ee ∧ ee ∈ w.pending

/-- `Out` of the Socket `k` is running and has not sent everything. -/
def Sending (w : EventLoop σ) (k : SocketPtr) : Prop :=
  ∃ pc, .out k pc ∈ w.stack ∧ pc.Sends

/-- What holds of the Socket `k`. -/
structure SocketOk (w : EventLoop σ) (k : SocketPtr) (s : Socket) : Prop where
  unattached : s.hasPoller = false → s.isWritable = false
  writable : s.writeList.empty = false → s.isWritable = true
  sent : s.status = .connected → s.fdClosed = false → s.isWritable = true →
    w.Queued s ∨ s.Blocked ∨ w.Sending k
  handle : ∀ ee, s.handle = some ee → ee < w.epoll.nextEntry ∧
    ∀ en, w.epoll.entries ee = some en → en.event = k

/-- What holds of the loop. -/
structure Ok (w : EventLoop σ) : Prop where
  sockets : ∀ k s, w.sockets k = some s → w.SocketOk k s
  fresh : ∀ ee, w.epoll.nextEntry ≤ ee → w.epoll.entries ee = none
  visited_le : w.visited ≤ w.epoll.writeable.length

/-- The condition on a step: a `Write` to a connected Socket without a handle happens while the
Socket is marked writable or in `OnConnect`, and `::write` does not return 0 while `errno` is
`EAGAIN`. -/
def Good (w : EventLoop σ) : LoopEvent → Prop
  | .write k _ => ∀ s, w.sockets k = some s → s.status = .connected → s.fdClosed = false →
      s.isWritable = false → s.handle = none → ∃ n, .out k (.onConnect n) ∈ w.stack
  | .sysWrite (.zero errno) => isIOTryAgain errno = false
  | _ => True

/-! ## What a step leaves alone -/

section Frame

variable {w w' : EventLoop σ} {k : SocketPtr} {s s' : Socket}

theorem handle_keeps (hkeeps : w.epoll.Keeps w'.epoll) {handle : Option EpollEntryPtr}
    (h : ∀ ee, handle = some ee → ee < w.epoll.nextEntry ∧
      ∀ en, w.epoll.entries ee = some en → en.event = k) :
    ∀ ee, handle = some ee → ee < w'.epoll.nextEntry ∧
      ∀ en, w'.epoll.entries ee = some en → en.event = k := by
  intro ee hee
  obtain ⟨hlt, hevent⟩ := h ee hee
  refine ⟨Nat.lt_of_lt_of_le hlt hkeeps.next, fun en' hen' => ?_⟩
  obtain ⟨en, hen, heq⟩ := hkeeps.event ee hlt en' hen'
  rw [heq]
  exact hevent en hen

/-- A Socket the step does not change. -/
theorem SocketOk.mono (h : w.SocketOk k s) (hkeeps : w.epoll.Keeps w'.epoll)
    (hqueued : w.Queued s → w'.Queued s ∨ w'.Sending k) (hsending : w.Sending k → w'.Sending k) :
    w'.SocketOk k s where
  unattached := h.unattached
  writable := h.writable
  sent hstatus hopen hwritable := by
    obtain hq | hb | hs := h.sent hstatus hopen hwritable
    · exact (hqueued hq).imp_right .inr
    · exact .inr (.inl hb)
    · exact .inr (.inr (hsending hs))
  handle := handle_keeps hkeeps h.handle

theorem Queued.mono (hpoll : w'.poll = w.poll)
    (hwriteable : w.epoll.writeable <+: w'.epoll.writeable) (h : w.Queued s) : w'.Queued s := by
  obtain ⟨ee, hee, hmem⟩ := h
  refine ⟨ee, hee, ?_⟩
  obtain ⟨more, hmore⟩ := hwriteable
  rw [pending, visited, hpoll, ← hmore, List.drop_append]
  exact List.mem_append_left _ hmem

/-- A step that changes no Socket. -/
theorem Ok.step_same (h : w.Ok) (hsockets : w'.sockets = w.sockets)
    (hkeeps : w.epoll.Keeps w'.epoll) (hvisited : w'.visited ≤ w'.epoll.writeable.length)
    (hqueued : ∀ k s, w.sockets k = some s → w.Queued s → w'.Queued s ∨ w'.Sending k)
    (hsending : ∀ k, w.Sending k → w'.Sending k) : w'.Ok where
  sockets k s hs := by
    rw [hsockets] at hs
    exact (h.sockets k s hs).mono hkeeps (hqueued k s hs) (hsending k)
  fresh := hkeeps.fresh h.fresh
  visited_le := hvisited

/-- The Sockets after a step that writes the Socket `k`. -/
theorem sockets_update (hsockets : w'.sockets = Function.update w.sockets k (some s'))
    {j : SocketPtr} {t : Socket} (hj : w'.sockets j = some t) :
    j = k ∧ t = s' ∨ j ≠ k ∧ w.sockets j = some t := by
  rw [hsockets] at hj
  by_cases heq : j = k
  · rw [heq, Function.update_self] at hj
    exact .inl ⟨heq, (Option.some.inj hj).symm⟩
  · rw [Function.update_of_ne heq] at hj
    exact .inr ⟨heq, hj⟩

/-- A step that changes the Socket `k`, and at most adds to `writeable_list_`. -/
theorem Ok.step_at (h : w.Ok) (hsockets : w'.sockets = Function.update w.sockets k (some s'))
    (hkeeps : w.epoll.Keeps w'.epoll) (hpoll : w'.poll = w.poll)
    (hwriteable : w.epoll.writeable <+: w'.epoll.writeable)
    (hsending : ∀ j, j ≠ k → w.Sending j → w'.Sending j) (hk : w'.SocketOk k s') : w'.Ok where
  sockets j s hs := by
    rcases sockets_update hsockets hs with ⟨rfl, rfl⟩ | ⟨hj, hs⟩
    · exact hk
    · exact (h.sockets j s hs).mono hkeeps (fun hq => .inl (hq.mono hpoll hwriteable))
        (hsending j hj)
  fresh := hkeeps.fresh h.fresh
  visited_le := by
    rw [visited, hpoll]
    exact Nat.le_trans h.visited_le hwriteable.length_le

/-- The functions below the top of the stack. -/
theorem Sending.of_tail {f : Frame} {stack : List Frame} (h : w.Sending k) (fs : List Frame)
    (hstack : w.stack = f :: stack) (hstack' : w'.stack = fs ++ stack)
    (hf : ∀ pc, f = .out k pc → ¬ pc.Sends) : w'.Sending k := by
  obtain ⟨pc, hmem, hpc⟩ := h
  rw [hstack] at hmem
  obtain rfl | hmem := List.mem_cons.mp hmem
  · exact absurd hpc (hf pc rfl)
  · exact ⟨pc, by rw [hstack']; exact List.mem_append_right _ hmem, hpc⟩

theorem not_sending_of_nil (h : w.stack = []) : ¬ w.Sending k := by
  rintro ⟨pc, hmem, -⟩
  rw [h] at hmem
  cases hmem

end Frame

/-! ## The steps -/

section Steps

variable {w w' : EventLoop σ} {k : SocketPtr} {s s' : Socket}

theorem Ok.newSocket (h : w.Ok) {m m' mem : Memory σ}
    (hnew : BufferList.new P m = .ok (m', s.writeList)) (hwritable : s.isWritable = false)
    (hhandle : s.handle = none) : ((w.setMem mem).setSocket k s).Ok := by
  refine h.step_at rfl (.refl _) rfl List.prefix_rfl (fun _ _ hs => hs) ⟨?_, ?_, ?_, ?_⟩
  · exact fun _ => hwritable
  · exact fun hne => absurd ((BufferList.new_empty hnew).symm.trans hne) (by decide)
  · exact fun _ _ ht => absurd (hwritable.symm.trans ht) (by decide)
  · exact fun ee hee => absurd (hhandle.symm.trans hee) nofun

theorem Ok.setPoller (h : w.Ok) {added : Bool} {handle : Option EpollEntryPtr} {epoll : Epoll}
    (hk : w.sockets k = some s) (hpoller : s.hasPoller = false)
    (hadd : w.epoll.add s.fd k added = (handle, epoll)) :
    ((w.setEpoll epoll).setSocket k { s with hasPoller := true, handle := handle }).Ok := by
  obtain ⟨hkeeps, hwriteable, hhandle⟩ := Epoll.add_keeps hadd
  have hs := h.sockets k s hk
  have hwritable := hs.unattached hpoller
  refine h.step_at rfl hkeeps rfl ?_ (fun _ _ hs => hs) ⟨nofun, hs.writable, ?_, hhandle⟩
  · change _ <+: epoll.writeable
    exact hwriteable.symm ▸ List.prefix_rfl
  · exact fun _ _ ht => absurd (hwritable.symm.trans ht) (by decide)

/-- A Socket that is not connected. -/
theorem Ok.setStatus (h : w.Ok) (hk : w.sockets k = some s) {status : SocketStatus}
    (hstatus : status ≠ .connected) (hsockets : w'.sockets =
      Function.update w.sockets k (some (s.setStatus status)))
    (hkeeps : w.epoll.Keeps w'.epoll) (hpoll : w'.poll = w.poll)
    (hwriteable : w.epoll.writeable <+: w'.epoll.writeable)
    (hsending : ∀ j, j ≠ k → w.Sending j → w'.Sending j) : w'.Ok := by
  have hs := h.sockets k s hk
  exact h.step_at hsockets hkeeps hpoll hwriteable hsending
    ⟨hs.unattached, hs.writable, fun hc => absurd hc hstatus, handle_keeps hkeeps hs.handle⟩

theorem Ok.write (h : w.Ok) (hk : w.sockets k = some s) (hpoller : s.hasPoller = true)
    {src : List UInt8} (hgood : w.Good (.write k src)) (mem : Memory σ) (writeList : BufferList) :
    ((w.setMem mem).afterWrite k (s.setWriteList writeList)).Ok := by
  have hs := h.sockets k s hk
  have hunattached : s.hasPoller = false → ∀ b : Bool, b = false := fun hf =>
    absurd (hpoller.symm.trans hf) (by decide)
  rw [afterWrite]
  cases hwritable : s.isWritable with
  | true =>
    rw [if_neg (by simp [Socket.setWriteList, hwritable])]
    exact h.step_at rfl (.refl _) rfl List.prefix_rfl (fun _ _ hs => hs)
      ⟨fun hf => hunattached hf _, fun _ => hwritable, hs.sent, hs.handle⟩
  | false =>
    rw [if_pos (by simp [Socket.setWriteList, hwritable])]
    cases hhandle : s.handle with
    | none =>
      rw [show (s.setWriteList writeList).handle = none from hhandle]
      refine h.step_at rfl (.refl _) rfl List.prefix_rfl (fun _ _ hs => hs)
        ⟨fun hf => hunattached hf _, fun _ => rfl, fun hstatus hopen _ => ?_, hs.handle⟩
      obtain ⟨n, hn⟩ := hgood s hk hstatus hopen hwritable hhandle
      exact .inr (.inr ⟨.onConnect n, hn, trivial⟩)
    | some ee =>
      rw [show (s.setWriteList writeList).handle = some ee from hhandle]
      refine h.step_at rfl ⟨Nat.le_refl _, fun _ _ en hen => ⟨en, hen, rfl⟩, fun hf => hf⟩ rfl
        (List.prefix_append _ _) (fun _ _ hs => hs)
        ⟨fun hf => hunattached hf _, fun _ => rfl, fun _ _ _ => .inl ⟨ee, hhandle, ?_⟩, hs.handle⟩
      change ee ∈ (w.epoll.writeable ++ [ee]).drop w.visited
      rw [List.drop_append_of_le_length h.visited_le]
      simp

/-- **The first loop of `Poll`** runs `Out` for the next entry. -/
theorem Ok.callOut (h : w.Ok) {iter : ℕ} {ee : EpollEntryPtr} {en : EpollEntry} (n : ℤ)
    (hstack : w.stack = []) (hpoll : w.poll = .writeable iter)
    (hee : w.epoll.writeable[iter]? = some ee) (hen : w.epoll.entry ee = .ok en) :
    ((w.setPoll (.writeable (iter + 1))).setStack [.out en.event (.start n)]).Ok := by
  obtain ⟨hlt, hget⟩ := List.getElem?_eq_some_iff.mp hee
  have hpending : w.pending = ee :: w.epoll.writeable.drop (iter + 1) := by
    rw [pending, visited, hpoll]
    change w.epoll.writeable.drop iter = _
    rw [List.drop_eq_getElem_cons hlt, hget]
  refine h.step_same rfl (.refl _) hlt (fun k s hk => ?_)
    fun _ hs => absurd hs (not_sending_of_nil hstack)
  rintro ⟨ee', hhandle, hmem⟩
  rw [hpending] at hmem
  obtain rfl | hmem := List.mem_cons.mp hmem
  · obtain rfl := ((h.sockets k s hk).handle _ hhandle).2 en (Epoll.entry_eq_ok hen)
    exact .inr ⟨.start n, List.mem_cons_self, trivial⟩
  · exact .inl ⟨ee', hhandle, hmem⟩

/-- The end of the first loop: no entry is left. -/
theorem Ok.epollWait (h : w.Ok) {iter : ℕ} (hstack : w.stack = [])
    (hpoll : w.poll = .writeable iter)
    (hle : w.epoll.writeable.length ≤ iter) {poll : PollPc} (hvisited : poll = .idle ∨
      ∃ stage rest, poll = .events stage rest) :
    ((w.setEpoll { w.epoll with writeable := [] }).setPoll poll).Ok := by
  refine h.step_same rfl ⟨Nat.le_refl _, fun _ _ en hen => ⟨en, hen, rfl⟩, fun hf => hf⟩ ?_ ?_
    fun _ hs => absurd hs (not_sending_of_nil hstack)
  · obtain rfl | ⟨stage, rest, rfl⟩ := hvisited <;> exact Nat.le_refl _
  · rintro k s - ⟨ee, -, hmem⟩
    rw [pending, visited, hpoll, List.drop_eq_nil_of_le hle] at hmem
    cases hmem

theorem visited_eq_zero (h : ∀ iter, w.poll ≠ .writeable iter) : w.visited = 0 := by
  rw [visited]
  cases hpoll : w.poll with
  | writeable iter => exact absurd hpoll (h iter)
  | idle => rfl
  | events stage rest => rfl

/-- A step between the events of a round, or at its end. -/
theorem Ok.setPoll (h : w.Ok) {epoll : Epoll} (poll : PollPc) (stack : List Frame)
    (hstack : w.stack = []) (hpoll : ∀ iter, w.poll ≠ .writeable iter)
    (hkeeps : w.epoll.Keeps epoll) (hwriteable : epoll.writeable = w.epoll.writeable)
    (hpoll' : ∀ iter, poll ≠ .writeable iter) :
    (((w.setEpoll epoll).setPoll poll).setStack stack).Ok := by
  have hvisited := visited_eq_zero (w := ((w.setEpoll epoll).setPoll poll).setStack stack) hpoll'
  refine h.step_same rfl hkeeps ?_ ?_ fun _ hs => absurd hs (not_sending_of_nil hstack)
  · rw [hvisited]; exact Nat.zero_le _
  · rintro k s - ⟨ee, hhandle, hmem⟩
    rw [pending, visited_eq_zero hpoll] at hmem
    refine .inl ⟨ee, hhandle, ?_⟩
    rw [pending, hvisited]
    change ee ∈ epoll.writeable.drop 0
    rw [hwriteable]
    exact hmem

/-! ### `Out` -/

/-- A step of `Out` of the Socket `k` that leaves it sending. -/
theorem Ok.out_sends (h : w.Ok) {pc next : OutPc} {stack : List Frame}
    (hstack : w.stack = .out k pc :: stack) (hsockets : w'.sockets =
      Function.update w.sockets k (some s')) (hepoll : w'.epoll = w.epoll)
    (hpoll : w'.poll = w.poll) (hstack' : w'.stack = .out k next :: stack) (hnext : next.Sends)
    (hunattached : s'.hasPoller = false → s'.isWritable = false)
    (hwritable : s'.writeList.empty = false → s'.isWritable = true)
    (hk : w.sockets k = some s) (hhandle : s'.handle = s.handle) : w'.Ok := by
  refine h.step_at hsockets (by rw [hepoll]; exact .refl _) hpoll
    (hepoll.symm ▸ List.prefix_rfl) (fun j hj hs => hs.of_tail [.out k next] hstack hstack' ?_)
    ⟨hunattached, hwritable, fun _ _ _ => .inr (.inr ⟨next, ?_, hnext⟩), ?_⟩
  · rintro pc' heq
    obtain ⟨rfl, -⟩ := Frame.out.inj heq
    exact absurd rfl hj
  · rw [hstack']; exact List.mem_cons_self
  · rw [hhandle]
    exact handle_keeps (by rw [hepoll]; exact .refl _) (h.sockets k s hk).handle

/-- A step of `Out` of the Socket `k` when it was not sending any more. -/
theorem Ok.out_tail (h : w.Ok) {pc : OutPc} {fs stack : List Frame}
    (hstack : w.stack = .out k pc :: stack) (hpc : ¬ pc.Sends) :
    (w.setStack (fs ++ stack)).Ok := by
  refine h.step_same rfl (.refl _) h.visited_le (fun _ _ _ hq => .inl hq)
    fun j hs => hs.of_tail fs hstack rfl ?_
  rintro pc' heq
  obtain ⟨-, rfl⟩ := Frame.out.inj heq
  exact hpc

/-- A step of `Out` that changes no Socket and leaves its own sending. -/
theorem Ok.out_goto (h : w.Ok) {pc next : OutPc} {stack : List Frame}
    (hstack : w.stack = .out k pc :: stack) (hnext : next.Sends) :
    (w.setStack (.out k next :: stack)).Ok := by
  refine h.step_same rfl (.refl _) h.visited_le (fun _ _ _ hq => .inl hq) ?_
  rintro j ⟨pc', hmem, hpc'⟩
  rw [hstack] at hmem
  obtain heq | hmem := List.mem_cons.mp hmem
  · obtain ⟨rfl, -⟩ := Frame.out.inj heq
    exact ⟨next, List.mem_cons_self, hnext⟩
  · exact ⟨pc', List.mem_cons_of_mem _ hmem, hpc'⟩

theorem setSocket_self (hk : w.sockets k = some s) : w.setSocket k s = w := by
  rw [setSocket, ← hk, Function.update_eq_self]

theorem Ok.outRun (h : w.Ok) {pc : OutPc} {next : Option OutPc} {stack : List Frame}
    (hstack : w.stack = .out k pc :: stack) (hk : w.sockets k = some s)
    (hstep : s.outStep pc = some (s', next)) :
    ((w.setSocket k s').setStack ((next.map (.out k)).toList ++ stack)).Ok := by
  have hs := h.sockets k s hk
  have hother : ∀ j, j ≠ k → ∀ pc', Frame.out k pc = .out j pc' → ¬ pc'.Sends := by
    rintro j hj pc' heq
    obtain ⟨rfl, -⟩ := Frame.out.inj heq
    exact absurd rfl hj
  cases pc with
  | start n =>
    rw [Socket.outStep] at hstep
    split at hstep
    · split at hstep
      · obtain ⟨rfl, rfl⟩ := Prod.mk.inj (Option.some.inj hstep)
        exact h.out_sends hstack rfl rfl rfl rfl trivial hs.unattached hs.writable hk rfl
      · cases hstep
    · obtain ⟨rfl, rfl⟩ := Prod.mk.inj (Option.some.inj hstep)
      rw [setSocket_self hk]
      exact h.out_goto hstack trivial
  | connected n =>
    obtain ⟨rfl, rfl⟩ := Prod.mk.inj (Option.some.inj hstep)
    split
    · rename_i hstatus
      exact h.step_at rfl (.refl _) rfl List.prefix_rfl
        (fun j hj hsj => hsj.of_tail _ hstack rfl (hother j hj))
        ⟨hs.unattached, hs.writable, fun hc => absurd hc hstatus, hs.handle⟩
    · rw [setSocket_self hk]
      exact h.out_goto hstack trivial
  | loop n =>
    rw [Socket.outStep] at hstep
    split at hstep
    · -- everything has been sent
      rename_i hempty
      obtain ⟨rfl, rfl⟩ := Prod.mk.inj (Option.some.inj hstep)
      exact h.step_at rfl (.refl _) rfl List.prefix_rfl
        (fun j hj hsj => hsj.of_tail _ hstack rfl (hother j hj))
        ⟨fun _ => rfl, fun hne => absurd (hempty.symm.trans hne) (by decide), nofun, hs.handle⟩
    · obtain ⟨rfl, rfl⟩ := Prod.mk.inj (Option.some.inj hstep)
      rw [setSocket_self hk]
      exact h.out_goto hstack trivial
  | send ret =>
    rw [Socket.outStep] at hstep
    split at hstep
    · obtain ⟨rfl, rfl⟩ := Prod.mk.inj (Option.some.inj hstep)
      rw [setSocket_self hk]
      exact h.out_goto hstack (show OutPc.Sends (.sent ret kOK) from rfl)
    · cases hstep
  | sent n err =>
    rw [Socket.outStep] at hstep
    split at hstep
    · obtain ⟨rfl, rfl⟩ := Prod.mk.inj (Option.some.inj hstep)
      rw [setSocket_self hk]
      split <;> exact h.out_goto hstack trivial
    · split at hstep
      · -- the last `::write` has returned `EAGAIN`
        rename_i htry
        obtain ⟨rfl, rfl⟩ := Prod.mk.inj (Option.some.inj hstep)
        rw [setSocket_self hk]
        exact h.out_tail hstack fun hsends => absurd (htry.symm.trans hsends) (by decide)
      · obtain ⟨rfl, rfl⟩ := Prod.mk.inj (Option.some.inj hstep)
        rw [setSocket_self hk]
        exact h.out_goto hstack trivial
  | finish n =>
    obtain ⟨rfl, -⟩ := Prod.mk.inj (Option.some.inj hstep)
    rw [setSocket_self hk]
    exact h.out_tail hstack id
  | onConnect n => cases hstep
  | onError err => cases hstep
  | close => cases hstep
  | onWrite => cases hstep

/-- `Send` is called with something to send only. -/
theorem SocketOk.writable_of_readable (h : w.SocketOk k s) (hne : s.writeList.readableSize ≠ 0) :
    s.isWritable = true :=
  h.writable (by rw [BufferList.empty]; simpa using hne)

theorem Ok.sysWrite (h : w.Ok) {ret : ℤ} {n : ℕ} {mem : Memory σ} {writeList : BufferList}
    {stack : List Frame} (hstack : w.stack = .out k (.send ret) :: stack)
    (hk : w.sockets k = some s) (hne : s.writeList.readableSize ≠ 0) :
    (((w.setMem mem).setSocket k ((s.setWriteList writeList).setLastWrite (.bytes n))).setStack
      (.out k (Socket.afterWrite ret (.bytes n)) :: stack)).Ok := by
  have hs := h.sockets k s hk
  exact h.out_sends hstack rfl rfl rfl rfl trivial hs.unattached
    (fun _ => hs.writable_of_readable hne) hk rfl

theorem Ok.sysWriteFails (h : w.Ok) {ret : ℤ} {r : WriteResult} {stack : List Frame}
    (hstack : w.stack = .out k (.send ret) :: stack) (hk : w.sockets k = some s)
    (hr : ∀ n, r ≠ .bytes n) (hgood : w.Good (.sysWrite r)) :
    ((w.setSocket k (s.setLastWrite r)).setStack
      (.out k (Socket.afterWrite ret r) :: stack)).Ok := by
  have hs := h.sockets k s hk
  cases r with
  | bytes n => exact absurd rfl (hr n)
  | zero errno =>
    exact h.out_sends hstack rfl rfl rfl rfl hgood hs.unattached hs.writable hk rfl
  | error errno =>
    rw [Socket.afterWrite]
    split
    · exact h.out_sends hstack rfl rfl rfl rfl trivial hs.unattached hs.writable hk rfl
    · split
      · rename_i htry
        refine h.step_at rfl (.refl _) rfl List.prefix_rfl
          (fun j hj hsj => hsj.of_tail [.out k (.sent ret errno)] hstack rfl ?_)
          ⟨hs.unattached, hs.writable, fun _ _ _ => .inr (.inl ⟨errno, rfl, htry⟩), hs.handle⟩
        rintro pc' heq
        obtain ⟨rfl, -⟩ := Frame.out.inj heq
        exact absurd rfl hj
      · rename_i htry
        have hsends : isIOTryAgain errno = false := by simpa using htry
        exact h.out_sends hstack rfl rfl rfl rfl hsends hs.unattached hs.writable hk rfl

theorem Ok.outReturn (h : w.Ok) {pc : OutPc} {next : Option OutPc} {stack : List Frame}
    (hstack : w.stack = .out k pc :: stack) (hreturn : Socket.outReturn pc = some next) :
    (w.setStack ((next.map (.out k)).toList ++ stack)).Ok := by
  cases pc with
  | onWrite => exact h.out_tail hstack id
  | onConnect n =>
    obtain rfl := Option.some.inj hreturn
    exact h.out_goto hstack trivial
  | onError err =>
    obtain rfl := Option.some.inj hreturn
    exact h.out_goto hstack trivial
  | _ => cases hreturn

/-- `Socket::close`, at the end of `Out` or `In`. -/
theorem Ok.close (h : w.Ok) {f : Frame} {epoll : Epoll} {stack : List Frame}
    (hstack : w.stack = f :: stack) (hf : ∀ j, j ≠ k → ∀ pc, f ≠ .out j pc)
    (hk : w.sockets k = some s) (hdel : w.epoll.del s.handle = .ok epoll) :
    (((w.setEpoll epoll).setSocket k { s with fdClosed := true }).setStack stack).Ok := by
  have hs := h.sockets k s hk
  obtain ⟨hkeeps, hwriteable⟩ := Epoll.del_keeps hdel
  refine h.step_at rfl hkeeps rfl ?_
    (fun j hj hsj => hsj.of_tail [] hstack rfl fun pc heq => absurd heq (hf j hj pc))
    ⟨hs.unattached, hs.writable, nofun, handle_keeps hkeeps hs.handle⟩
  change _ <+: epoll.writeable
  exact hwriteable.symm ▸ List.prefix_rfl

/-! ### `In` -/

/-- A step of a function other than `Out`, which changes no Socket. -/
theorem Ok.not_out (h : w.Ok) {f : Frame} {stack : List Frame} (hstack : w.stack = f :: stack)
    (hf : ∀ j pc, f ≠ .out j pc) (fs : List Frame) : (w.setStack (fs ++ stack)).Ok :=
  h.step_same rfl (.refl _) h.visited_le (fun _ _ _ hq => .inl hq)
    fun j hs => hs.of_tail fs hstack rfl fun pc heq => absurd heq (hf j pc)

/-- What is read does not matter. -/
theorem Ok.setReadList (h : w.Ok) (hk : w.sockets k = some s) {readList : BufferList}
    (hsockets : w'.sockets = Function.update w.sockets k (some (s.setReadList readList)))
    (hepoll : w'.epoll = w.epoll) (hpoll : w'.poll = w.poll)
    (hsending : ∀ j, w.Sending j → w'.Sending j) : w'.Ok := by
  have hs := h.sockets k s hk
  have hkeeps : w.epoll.Keeps w'.epoll := by rw [hepoll]; exact .refl _
  have hpre : w.epoll.writeable <+: w'.epoll.writeable := hepoll.symm ▸ List.prefix_rfl
  have hs' := hs.mono hkeeps (fun hq => .inl (hq.mono hpoll hpre)) (hsending k)
  exact h.step_at hsockets hkeeps hpoll hpre (fun j _ => hsending j)
    ⟨hs'.unattached, hs'.writable, hs'.sent, hs'.handle⟩

/-! ### Every step -/

/-- **The step lemma**. -/
theorem Ok.step {e : LoopEvent} (h : w.Ok) (hs : Lts.restrict (LoopStep P) Good w e w') :
    w'.Ok := by
  obtain ⟨hgood, hs⟩ := hs
  cases hs with
  | newClient huser hk hread hwrite => exact h.newSocket hwrite rfl rfl
  | newServer huser hk hread hwrite => exact h.newSocket hwrite rfl rfl
  | setPoller huser hk hpoller hadd => exact h.setPoller hk hpoller hadd
  | connectAgain => exact h
  | connect huser hk htype hstatus hadd =>
    obtain ⟨hkeeps, hwriteable, -⟩ := Epoll.add_keeps hadd
    exact h.setStatus hk (by decide) rfl hkeeps rfl (hwriteable.symm ▸ List.prefix_rfl)
      fun _ _ hs => hs
  | connectFails huser hk =>
    refine h.setStatus hk (by decide) rfl (.refl _) rfl List.prefix_rfl ?_
    rintro j - ⟨pc, hmem, hpc⟩
    exact ⟨pc, List.mem_cons_of_mem _ hmem, hpc⟩
  | write huser hk hpoller hrun => exact h.write hk hpoller hgood _ _
  | read huser hk hrun => exact h.setReadList hk rfl rfl rfl fun _ hs => hs
  | poll hstack hpoll =>
    refine h.step_same rfl (.refl _) (Nat.zero_le _) ?_ fun _ hs => hs
    rintro k s - ⟨ee, hhandle, hmem⟩
    rw [pending, visited, hpoll] at hmem
    exact .inl ⟨ee, hhandle, hmem⟩
  | callOut n hstack hpoll hee hen => exact h.callOut n hstack hpoll hee hen
  | epollWait events hstack hpoll hle hsize =>
    refine h.epollWait hstack hpoll hle ?_
    split
    · exact .inl rfl
    · exact .inr ⟨_, _, rfl⟩
  | checkRetired hstack hpoll =>
    exact h.setPoll (.events .error _) w.stack hstack (by rw [hpoll]; exact nofun) (.refl _) rfl
      nofun
  | checkError hstack hpoll =>
    exact h.setPoll _ _ hstack (by rw [hpoll]; exact nofun) (.refl _) rfl nofun
  | checkInput hstack hpoll =>
    exact h.setPoll _ _ hstack (by rw [hpoll]; exact nofun) (.refl _) rfl nofun
  | checkOutput hstack hpoll =>
    exact h.setPoll _ _ hstack (by rw [hpoll]; exact nofun) (.refl _) rfl nofun
  | pollDone hstack hpoll hretired =>
    obtain ⟨hkeeps, hwriteable⟩ := Epoll.processRetired_keeps hretired
    exact h.setPoll .idle w.stack hstack (by rw [hpoll]; exact nofun) hkeeps hwriteable nofun
  | outRun hstack hk hstep => exact h.outRun hstack hk hstep
  | sysWrite hstack hk hne => exact h.sysWrite hstack hk hne
  | sysWriteFails hstack hk hne hr => exact h.sysWriteFails hstack hk hr hgood
  | outReturn hstack hreturn => exact h.outReturn hstack hreturn
  | outClose hstack hk hdel =>
    refine h.close hstack ?_ hk hdel
    rintro j hj pc heq
    exact hj (Frame.out.inj heq).1.symm
  | inRun hstack hk hstep => exact h.not_out hstack nofun _
  | sysRead hstack hk hne hle hfill =>
    exact h.setReadList hk rfl rfl rfl fun j hs =>
      hs.of_tail [_] hstack rfl nofun
  | sysReadFails hstack hr => exact h.not_out hstack nofun [_]
  | inReturn hstack hreturn => exact h.not_out hstack nofun _
  | inClose hstack hk hdel => exact h.close hstack nofun hk hdel
  | connectReturn hstack hk =>
    exact h.setStatus hk (by decide) rfl (.refl _) rfl List.prefix_rfl fun j _ hs =>
      hs.of_tail [] hstack rfl nofun

end Steps

theorem Start.ok {w : EventLoop σ} (h : w.Start) : w.Ok := by
  obtain ⟨hsockets, ⟨size, hepoll⟩, hpoll, -⟩ := h
  refine ⟨fun k s hk => ?_, fun ee _ => ?_, ?_⟩
  · rw [hsockets k] at hk; cases hk
  · rw [hepoll]; rfl
  · rw [visited, hpoll]; exact Nat.zero_le _

end EventLoop

/-- **When queued output is not stranded.** In every run in which no `Write` finds a connected
Socket without a handle and not marked writable, unless it is in its `OnConnect`, and in which no
`::write` returns 0 with `errno` at `EAGAIN`: between two rounds of `Poll`, the output queued at a
connected Socket whose descriptor has not been closed is in `writeable_list_`, or its last
`::write` has returned `EAGAIN`. -/
theorem queued_output_not_stranded {w₀ w : EventLoop σ} {es : List LoopEvent} (h₀ : w₀.Start)
    (hrun : Run (Lts.restrict (LoopStep P) EventLoop.Good) w₀ es w) (hpoll : w.poll = .idle)
    (hstack : w.stack = []) {k : SocketPtr} {s : Socket} (hk : w.sockets k = some s)
    (hstatus : s.status = .connected) (hopen : s.fdClosed = false)
    (hqueued : s.writeList.empty = false) :
    (∃ ee, s.handle = some ee ∧ ee ∈ w.epoll.writeable) ∨
      ∃ errno, s.lastWrite = some (.error errno) ∧ isIOTryAgain errno = true := by
  have hok : w.Ok := hrun.invariant EventLoop.Ok (fun _ _ _ h hs => h.step hs) h₀.ok
  have hs := hok.sockets k s hk
  obtain ⟨ee, hhandle, hmem⟩ | hblocked | hsending :=
    hs.sent hstatus hopen (hs.writable hqueued)
  · rw [EventLoop.pending, EventLoop.visited, hpoll] at hmem
    exact .inl ⟨ee, hhandle, hmem⟩
  · exact .inr hblocked
  · exact absurd hsending (EventLoop.not_sending_of_nil hstack)

/-- A thread with two free Buffers. -/
def EventLoop.twoBuffers : EventLoop ObjectList where
  sockets := fun _ => none
  epoll := .init 8
  mem := ⟨fun _ => Buffer.new, ⟨[⟨0, by decide⟩, ⟨1, by decide⟩], 2⟩⟩
  poll := .idle
  stack := []

theorem EventLoop.twoBuffers_start : EventLoop.twoBuffers.Start :=
  ⟨fun _ => rfl, ⟨8, rfl⟩, rfl, rfl⟩

/-- A server Socket is attached and written to: its entry is in `writeable_list_`. -/
theorem queued_output_not_stranded_server :
    ∃ w s, Run (Lts.restrict (LoopStep objectPool) EventLoop.Good) EventLoop.twoBuffers
      [.newServer 0 5 true, .setPoller 0 true, .write 0 [7]] w ∧ w.sockets 0 = some s ∧
      s.writeList.empty = false ∧ ((∃ ee, s.handle = some ee ∧ ee ∈ w.epoll.writeable) ∨
        ∃ errno, s.lastWrite = some (.error errno) ∧ isIOTryAgain errno = true) := by
  obtain ⟨w, s, hrun, hpoll, hstack, hk, hstatus, hopen, hqueued⟩ : ∃ w s,
      Run (Lts.restrict (LoopStep objectPool) EventLoop.Good) EventLoop.twoBuffers
        [.newServer 0 5 true, .setPoller 0 true, .write 0 [7]] w ∧ w.poll = .idle ∧
      w.stack = [] ∧ w.sockets 0 = some s ∧ s.status = .connected ∧ s.fdClosed = false ∧
      s.writeList.empty = false := by
    refine ⟨_, _, .cons ⟨trivial, .newServer rfl rfl rfl rfl⟩ <|
      .cons ⟨trivial, .setPoller rfl rfl rfl rfl⟩ <|
      .single ⟨?_, .write rfl rfl rfl rfl⟩, rfl, rfl, rfl, rfl, rfl, ?_⟩
    · rintro s hs - - - hhandle
      cases hs
      cases hhandle
    · decide
  exact ⟨w, s, hrun, hk, hqueued, queued_output_not_stranded EventLoop.twoBuffers_start hrun hpoll
    hstack hk hstatus hopen hqueued⟩

/-- A client Socket connects, and is written to between two rounds: nothing is in `writeable_list_`
and there has been no `::write`. -/
theorem queued_output_stranded :
    ∃ w s, Run (LoopStep objectPool) EventLoop.twoBuffers
      [.newClient 0 5 true, .connect 0 kOK true, .poll, .epollWait [⟨0, ⟨false, false, true⟩⟩],
        .check 0, .check 0, .check 0, .run, .ret, .run, .run, .run, .pollDone, .write 0 [7]] w ∧
      w.poll = .idle ∧ w.stack = [] ∧ w.sockets 0 = some s ∧ s.status = .connected ∧
      s.fdClosed = false ∧ s.writeList.empty = false ∧ w.epoll.writeable = [] ∧
      s.lastWrite = none := by
  refine ⟨_, _, .cons (.newClient rfl rfl rfl rfl) <| .cons (.connect rfl rfl rfl rfl rfl) <|
    .cons (.poll rfl rfl) <| .cons (.epollWait _ rfl rfl (Nat.le_refl _) (by decide)) <|
    .cons (.checkError rfl rfl rfl (by decide)) <| .cons (.checkInput rfl rfl rfl (by decide)) <|
    .cons (.checkOutput rfl rfl rfl (by decide)) <| .cons (.outRun rfl rfl rfl) <|
    .cons (.outReturn rfl rfl) <| .cons (.outRun rfl rfl rfl) <| .cons (.outRun rfl rfl rfl) <|
    .cons (.outRun rfl rfl rfl) <| .cons (.pollDone rfl rfl rfl) <|
    .single (.write rfl rfl rfl rfl), rfl, rfl, rfl, rfl, rfl, ?_, rfl, rfl⟩
  decide

end ServerKit
