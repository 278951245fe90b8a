import ServerKit.Core.Verify.QueuedOutput

/-!
# What is registered

`EventLoop.Change` says what a step does to the Sockets and to the poller. `EventLoop.Registered` is
kept by every step: an entry is that of a Socket that is past `INIT`, and a handle is held by one
server Socket, since `Socket::Connect` drops the one it gets.
-/

namespace ServerKit

open Lib

variable {σ : Type} {P : ObjectPool σ}

/-! ## What a step does -/

/-- A Socket before and after a step that neither attaches nor closes it. -/
structure Socket.Same (s s' : Socket) : Prop where
  fd : s'.fd = s.fd
  hasPoller : s'.hasPoller = s.hasPoller
  type : s'.type = s.type
  handle : s'.handle = s.handle
  fdClosed : s'.fdClosed = s.fdClosed
  status : s'.status = .init → s.status = .init

namespace EventLoop

/-- What a step does to the Sockets and to the poller. -/
inductive Change (w : EventLoop σ) (e : LoopEvent) (w' : EventLoop σ) : Prop
  | newClient (k : SocketPtr) (s : Socket) : w.sockets k = none → s.type = .client →
      s.status = .init → s.hasPoller = true → s.handle = none → s.fdClosed = false →
      w'.sockets = Function.update w.sockets k (some s) → w'.epoll = w.epoll → Change w e w'
  | newServer (k : SocketPtr) (s : Socket) : w.sockets k = none → s.type = .server →
      s.status = .connected → s.hasPoller = false → s.handle = none → s.fdClosed = false →
      w'.sockets = Function.update w.sockets k (some s) → w'.epoll = w.epoll → Change w e w'
  | attach (k : SocketPtr) (s : Socket) (added : Bool) (handle : Option EpollEntryPtr) :
      e = .setPoller k added → w.sockets k = some s → s.hasPoller = false →
      w.epoll.add s.fd k added = (handle, w'.epoll) →
      w'.sockets = Function.update w.sockets k
        (some { s with hasPoller := true, handle := handle }) →
      Change w e w'
  | connect (k : SocketPtr) (s : Socket) (added : Bool) (handle : Option EpollEntryPtr) :
      e = .connect k kOK added → w.sockets k = some s → s.type = .client → s.status = .init →
      w.epoll.add s.fd k added = (handle, w'.epoll) →
      w'.sockets = Function.update w.sockets k (some (s.setStatus .connecting)) → Change w e w'
  | mark (k : SocketPtr) (s s' : Socket) : w.sockets k = some s →
      w'.sockets = Function.update w.sockets k (some s') → s.Same s' →
      w'.epoll = w.epoll.markWriteable s.handle → Change w e w'
  | socket (k : SocketPtr) (s s' : Socket) : w.sockets k = some s →
      w'.sockets = Function.update w.sockets k (some s') → s.Same s' → w'.epoll = w.epoll →
        Change w e w'
  | close (k : SocketPtr) (s : Socket) (f : Frame) (rest : List Frame) : e = .close →
      w.stack = f :: rest → w'.stack = rest → f = .out k .close ∨ f = .input k .close →
      w.sockets k = some s →
      w.epoll.del s.handle = .ok w'.epoll →
      w'.sockets = Function.update w.sockets k (some { s with fdClosed := true }) → Change w e w'
  | clear : w'.sockets = w.sockets → w'.epoll = { w.epoll with writeable := [] } → Change w e w'
  | retire : e = .pollDone → w'.sockets = w.sockets → w.epoll.processRetired = .ok w'.epoll →
      Change w e w'
  | none : w'.sockets = w.sockets → w'.epoll = w.epoll → Change w e w'

/-- The Socket `k`, which is `s'` after a step: it was there, with the same handle; or the step has
created it, attached it or closed its descriptor. -/
inductive Changed (w : EventLoop σ) (e : LoopEvent) (w' : EventLoop σ) (k : SocketPtr)
    (s' : Socket) :
    Prop
  | same (s : Socket) : w.sockets k = some s → s'.hasPoller = s.hasPoller → s'.handle = s.handle →
      s'.fdClosed = s.fdClosed → Changed w e w' k s'
  | new : w.sockets k = none → s'.handle = none → s'.fdClosed = false → Changed w e w' k s'
  | attach (s : Socket) (added : Bool) : e = .setPoller k added → w.sockets k = some s →
      s.hasPoller = false → w.epoll.add s.fd k added = (s'.handle, w'.epoll) →
      s'.hasPoller = true → s'.fdClosed = s.fdClosed → Changed w e w' k s'
  | close (s : Socket) (f : Frame) (rest : List Frame) : e = .close → w.stack = f :: rest →
      w'.stack = rest → f = .out k .close ∨ f = .input k .close → w.sockets k = some s →
      w.epoll.del s.handle = .ok w'.epoll → s' = { s with fdClosed := true } → Changed w e w' k s'

end EventLoop

/-- `Out` changes nothing of a Socket but `status_` and `is_writable_`. -/
theorem Socket.outStep_eq {s s' : Socket} {pc : OutPc} {next : Option OutPc}
    (h : s.outStep pc = some (s', next)) : s' = s ∨ s' = s.setWritable false ∨
      ∃ n, pc = .start n ∧ s.status = .connecting ∧ s' = s.setStatus .connected := by
  have hsame : ∀ {next' : Option OutPc}, some (s, next') = some (s', next) → s' = s := by
    intro next' heq
    exact (Prod.mk.inj (Option.some.inj heq)).1.symm
  cases pc with
  | start n =>
    rw [outStep] at h
    split at h
    · split at h
      · obtain ⟨rfl, -⟩ := Prod.mk.inj (Option.some.inj h)
        exact .inr (.inr ⟨n, rfl, ‹_›, rfl⟩)
      · cases h
    · exact .inl (hsame h)
  | loop n =>
    rw [outStep] at h
    split at h
    · obtain ⟨rfl, -⟩ := Prod.mk.inj (Option.some.inj h)
      exact .inr (.inl rfl)
    · exact .inl (hsame h)
  | send ret =>
    rw [outStep] at h
    split at h
    · exact .inl (hsame h)
    · cases h
  | sent n err =>
    rw [outStep] at h
    split at h
    · exact .inl (hsame h)
    · split at h
      · exact .inl (hsame h)
      · exact .inl (hsame h)
  | connected n | finish n => exact .inl (hsame h)
  | onConnect | onError | close | onWrite => cases h

theorem Socket.outStep_same {s s' : Socket} {pc : OutPc} {next : Option OutPc}
    (h : s.outStep pc = some (s', next)) : s.Same s' := by
  rcases outStep_eq h with rfl | rfl | ⟨n, -, -, rfl⟩
  · exact ⟨rfl, rfl, rfl, rfl, rfl, id⟩
  · exact ⟨rfl, rfl, rfl, rfl, rfl, id⟩
  · exact ⟨rfl, rfl, rfl, rfl, rfl, SocketStatus.noConfusion⟩

/-- What every step of the thread does. -/
theorem LoopStep.change {w w' : EventLoop σ} {e : LoopEvent} (hs : LoopStep P w e w') :
    w.Change e w' := by
  cases hs with
  | newClient _ hk => exact .newClient _ _ hk rfl rfl rfl rfl rfl rfl rfl
  | newServer _ hk => exact .newServer _ _ hk rfl rfl rfl rfl rfl rfl rfl
  | setPoller _ hk hpoller hadd => exact .attach _ _ _ _ rfl hk hpoller hadd rfl
  | connectAgain => exact .none rfl rfl
  | connect _ hk htype hstatus hadd => exact .connect _ _ _ _ rfl hk htype hstatus hadd rfl
  | connectFails _ hk =>
    exact .socket _ _ _ hk rfl ⟨rfl, rfl, rfl, rfl, rfl, SocketStatus.noConfusion⟩ rfl
  | @write _ k s src total m writeList _ hk =>
    cases hwritable : s.isWritable with
    | false =>
      refine .mark k s ((s.setWriteList writeList).setWritable true) hk ?_
        ⟨rfl, rfl, rfl, rfl, rfl, id⟩ ?_
      · rw [EventLoop.afterWrite, Socket.setWriteList, hwritable]
        rfl
      · rw [EventLoop.afterWrite, Socket.setWriteList, hwritable]
        rfl
    | true =>
      refine .socket k s (s.setWriteList writeList) hk ?_ ⟨rfl, rfl, rfl, rfl, rfl, id⟩ ?_
      · rw [EventLoop.afterWrite, Socket.setWriteList, hwritable]
        rfl
      · rw [EventLoop.afterWrite, Socket.setWriteList, hwritable]
        rfl
  | read _ hk => exact .socket _ _ _ hk rfl ⟨rfl, rfl, rfl, rfl, rfl, id⟩ rfl
  | poll | callOut | checkRetired | checkError | checkInput | checkOutput => exact .none rfl rfl
  | epollWait => exact .clear rfl rfl
  | pollDone _ _ hretired => exact .retire rfl rfl hretired
  | outRun _ hk hstep => exact .socket _ _ _ hk rfl (Socket.outStep_same hstep) rfl
  | sysWrite _ hk => exact .socket _ _ _ hk rfl ⟨rfl, rfl, rfl, rfl, rfl, id⟩ rfl
  | sysWriteFails _ hk => exact .socket _ _ _ hk rfl ⟨rfl, rfl, rfl, rfl, rfl, id⟩ rfl
  | outReturn | inRun | sysReadFails | inReturn => exact .none rfl rfl
  | outClose hstack hk hdel => exact .close _ _ _ _ rfl hstack rfl (.inl rfl) hk hdel rfl
  | inClose hstack hk hdel => exact .close _ _ _ _ rfl hstack rfl (.inr rfl) hk hdel rfl
  | sysRead _ hk => exact .socket _ _ _ hk rfl ⟨rfl, rfl, rfl, rfl, rfl, id⟩ rfl
  | connectReturn _ hk =>
    exact .socket _ _ _ hk rfl ⟨rfl, rfl, rfl, rfl, rfl, SocketStatus.noConfusion⟩ rfl

namespace EventLoop

variable {w w' : EventLoop σ} {e : LoopEvent} {k : SocketPtr} {s s' : Socket}

/-- A Socket stays, and its descriptor stays closed. -/
theorem Change.keep (h : w.Change e w') (hk : w.sockets k = some s) :
    ∃ s', w'.sockets k = some s' ∧ (s.fdClosed = true → s'.fdClosed = true) := by
  have hupdate : ∀ {j : SocketPtr} {t t' : Socket}, w.sockets j = some t →
      w'.sockets = Function.update w.sockets j (some t') →
      (t.fdClosed = true → t'.fdClosed = true) →
      ∃ s', w'.sockets k = some s' ∧ (s.fdClosed = true → s'.fdClosed = true) := by
    intro j t t' hj hsockets hclosed
    rw [hsockets]
    by_cases heq : k = j
    · subst heq
      obtain rfl := Option.some.inj (hk.symm.trans hj)
      exact ⟨t', Function.update_self .., hclosed⟩
    · exact ⟨s, (Function.update_of_ne heq ..).trans hk, id⟩
  have hnew : ∀ {j : SocketPtr} {t : Socket}, w.sockets j = Option.none →
      w'.sockets = Function.update w.sockets j (some t) →
      ∃ s', w'.sockets k = some s' ∧ (s.fdClosed = true → s'.fdClosed = true) := by
    intro j t hj hsockets
    have hne : k ≠ j := by
      rintro rfl
      rw [hj] at hk
      cases hk
    rw [hsockets]
    exact ⟨s, (Function.update_of_ne hne ..).trans hk, id⟩
  cases h with
  | newClient j t hj _ _ _ _ _ hsockets | newServer j t hj _ _ _ _ _ hsockets =>
    exact hnew hj hsockets
  | attach j t added handle _ hj _ _ hsockets => exact hupdate hj hsockets id
  | connect j t added handle _ hj _ _ _ hsockets => exact hupdate hj hsockets id
  | mark j t t' hj hsockets hsame | socket j t t' hj hsockets hsame =>
    exact hupdate hj hsockets fun hc => hsame.fdClosed.trans hc
  | close j t f rest _ _ _ _ hj _ hsockets => exact hupdate hj hsockets fun _ => rfl
  | clear hsockets | retire _ hsockets | none hsockets =>
    rw [hsockets]
    exact ⟨s, hk, id⟩

theorem Change.changed (h : w.Change e w') (hk : w'.sockets k = some s') :
    w.Changed e w' k s' := by
  -- the step writes the Socket `j`
  have hat : ∀ {j : SocketPtr} {t' : Socket}, w'.sockets = Function.update w.sockets j (some t') →
      (k = j → s' = t' → w.Changed e w' k s') → w.Changed e w' k s' := by
    intro j t' hsockets hself
    rcases sockets_update hsockets hk with ⟨heq, hst⟩ | ⟨-, hk⟩
    · exact hself heq hst
    · exact .same s' hk rfl rfl rfl
  cases h with
  | newClient j t hj _ _ _ hhandle hopen hsockets | newServer j t hj _ _ _ hhandle hopen hsockets =>
    refine hat hsockets fun hkj hst => ?_
    subst hkj hst
    exact .new hj hhandle hopen
  | attach j t added handle he hj hpoller hadd hsockets =>
    refine hat hsockets fun hkj hst => ?_
    subst hkj hst
    exact .attach t added he hj hpoller hadd rfl rfl
  | connect j t added handle _ hj _ _ _ hsockets =>
    refine hat hsockets fun hkj hst => ?_
    subst hkj hst
    exact .same t hj rfl rfl rfl
  | mark j t t' hj hsockets hsame | socket j t t' hj hsockets hsame =>
    refine hat hsockets fun hkj hst => ?_
    subst hkj hst
    exact .same t hj hsame.hasPoller hsame.handle hsame.fdClosed
  | close j t f rest he hstack hstack' hf hj hdel hsockets =>
    refine hat hsockets fun hkj hst => ?_
    subst hkj
    exact .close t f rest he hstack hstack' hf hj hdel hst
  | clear hsockets | retire _ hsockets | none hsockets =>
    rw [hsockets] at hk
    exact .same s' hk rfl rfl rfl

/-- A closed descriptor was closed before, or the step is the end of the `In` or `Out` that closes
it. -/
theorem Change.closed (h : w.Change e w') (hk : w'.sockets k = some s')
    (hclosed : s'.fdClosed = true) : (∃ s, w.sockets k = some s ∧ s.fdClosed = true) ∨
      e = .close ∧ ∃ s f rest, w.stack = f :: rest ∧ w'.stack = rest ∧
        (f = .out k .close ∨ f = .input k .close) ∧ w.sockets k = some s ∧
        w.epoll.del s.handle = .ok w'.epoll := by
  cases h.changed hk with
  | same s hj _ _ hsame => exact .inl ⟨s, hj, hsame.symm.trans hclosed⟩
  | new _ _ hopen =>
    rw [hopen] at hclosed
    cases hclosed
  | attach s added _ hj _ _ _ hsame => exact .inl ⟨s, hj, hsame.symm.trans hclosed⟩
  | close s f rest he hstack hstack' hf hj hdel =>
    exact .inr ⟨he, s, f, rest, hstack, hstack', hf, hj, hdel⟩

end EventLoop

/-! ## The invariant -/

namespace Epoll

variable {e e' : Epoll}

/-- No entry of `e` is given to another Event in `e'`, or another file descriptor. -/
structure Ages (e e' : Epoll) : Prop extends e.Keeps e' where
  fd : ∀ ee en en', e.entries ee = some en → e'.entries ee = some en' →
    en'.fd = en.fd ∨ en'.fd = kInvalidFd

theorem Ages.refl (e : Epoll) : e.Ages e :=
  ⟨.refl e, fun _ _ _ hen hen' => .inl (congrArg _ (Option.some.inj (hen'.symm.trans hen)))⟩

theorem markWriteable_ages (e : Epoll) (handle : Option EpollEntryPtr) :
    e.Ages (e.markWriteable handle) := by
  cases handle with
  | none => exact .refl e
  | some ee => exact ⟨⟨Nat.le_refl _, (Keeps.refl e).event, fun hfresh => hfresh⟩, (Ages.refl e).fd⟩

theorem markWriteable_entries (e : Epoll) (handle : Option EpollEntryPtr) :
    (e.markWriteable handle).entries = e.entries := by
  cases handle <;> rfl

theorem markWriteable_retired (e : Epoll) (handle : Option EpollEntryPtr) :
    (e.markWriteable handle).retired = e.retired := by
  cases handle <;> rfl

theorem markWriteable_nextEntry (e : Epoll) (handle : Option EpollEntryPtr) :
    (e.markWriteable handle).nextEntry = e.nextEntry := by
  cases handle <;> rfl

theorem del_nextEntry {handle : Option EpollEntryPtr} (h : e.del handle = .ok e') :
    e'.nextEntry = e.nextEntry := by
  cases handle with
  | none => rw [Except.ok.inj h]
  | some ee =>
    obtain ⟨en, -, rfl⟩ := del_eq h
    rfl

theorem mem_markWriteable {handle : Option EpollEntryPtr} {ee : EpollEntryPtr}
    (h : ee ∈ (e.markWriteable handle).writeable) : ee ∈ e.writeable ∨ handle = some ee := by
  cases handle with
  | none => exact .inl h
  | some ee' =>
    rcases List.mem_append.mp h with h | h
    · exact .inl h
    · exact .inr (congrArg _ (List.mem_singleton.mp h).symm)

theorem add_ages {fd : ℤ} {event : SocketPtr} {added : Bool} {handle : Option EpollEntryPtr}
    (hfresh : ∀ ee, e.nextEntry ≤ ee → e.entries ee = none)
    (h : e.add fd event added = (handle, e')) : e.Ages e' := by
  refine ⟨(add_keeps h).1, fun ee en en' hen hen' => ?_⟩
  obtain ⟨-, -, rfl⟩ | ⟨-, -, size, rfl⟩ := add_eq h
  · exact (Ages.refl _).fd ee en en' hen hen'
  · have hne : ee ≠ e.nextEntry := by
      rintro rfl
      rw [hfresh _ (Nat.le_refl _)] at hen
      cases hen
    exact (Ages.refl e).fd ee en en' hen ((setEntry_ne e _ hne).symm.trans hen')

theorem del_ages {handle : Option EpollEntryPtr} (h : e.del handle = .ok e') : e.Ages e' := by
  refine ⟨(del_keeps h).1, fun ee en en' hen hen' => ?_⟩
  cases handle with
  | none =>
    obtain rfl := Except.ok.inj h
    exact (Ages.refl _).fd ee en en' hen hen'
  | some ee₀ =>
    obtain ⟨en₀, hen₀, rfl⟩ := del_eq h
    by_cases heq : ee = ee₀
    · subst heq
      rw [← Option.some.inj ((setEntry_self e ..).symm.trans hen')]
      exact .inr rfl
    · exact (Ages.refl e).fd ee en en' hen ((setEntry_ne e _ heq).symm.trans hen')

theorem processRetired_ages (h : e.processRetired = .ok e') : e.Ages e' := by
  refine ⟨(processRetired_keeps h).1, fun ee en en' hen hen' => ?_⟩
  obtain ⟨-, -, rfl⟩ := processRetired_eq h
  by_cases hmem : ee ∈ e.retired
  · cases (if_pos hmem).symm.trans hen'
  · exact (Ages.refl e).fd ee en en' hen ((if_neg hmem).symm.trans hen')

end Epoll

namespace EventLoop

/-- What is registered with the poller, and what the handles and the lists of entries are. -/
structure Registered (w : EventLoop σ) : Prop where
  fresh : ∀ ee, w.epoll.nextEntry ≤ ee → w.epoll.entries ee = none
  entry : ∀ ee en, w.epoll.entries ee = some en → ∃ s, w.sockets en.event = some s ∧
    s.status ≠ .init ∧ (s.handle = some ee ∨ s.type = .client)
  handle : ∀ k s ee, w.sockets k = some s → s.handle = some ee →
    ee < w.epoll.nextEntry ∧ s.type = .server ∧ s.hasPoller = true ∧
      ∀ en, w.epoll.entries ee = some en → en.event = k
  unique : ∀ k k' s s' ee, w.sockets k = some s → w.sockets k' = some s' → s.handle = some ee →
    s'.handle = some ee → k = k'
  server : ∀ k s, w.sockets k = some s → s.type = .server → s.status ≠ .init
  client : ∀ k s, w.sockets k = some s → s.type = .client → s.hasPoller = true
  writeable : ∀ ee ∈ w.epoll.writeable, ∃ k s, w.sockets k = some s ∧ s.handle = some ee
  retired : ∀ ee ∈ w.epoll.retired, ∃ k s, w.sockets k = some s ∧ s.handle = some ee ∧
    s.fdClosed = true ∧ ∀ en, w.epoll.entries ee = some en → en.fd = kInvalidFd

variable {w w' : EventLoop σ} {k : SocketPtr} {s s' : Socket}

/-- A step that changes one Socket. It may register it under a new entry, and may give it that
entry as its handle. -/
theorem Registered.update (h : w.Registered) (hk : w.sockets k = some s)
    (hsockets : w'.sockets = Function.update w.sockets k (some s')) (htype : s'.type = s.type)
    (hpoller : s.hasPoller = true → s'.hasPoller = true)
    (hhandle : s'.handle = s.handle ∨ s.handle = none ∧ s.type = .server ∧ s'.hasPoller = true ∧
      ∀ ee, s'.handle = some ee → w.epoll.nextEntry ≤ ee ∧ ee < w'.epoll.nextEntry ∧
        ∀ en, w'.epoll.entries ee = some en → en.event = k)
    (hstatus : s'.status = .init → s.status = .init)
    (hclosed : s.fdClosed = true → s'.fdClosed = true)
    (hages : w.epoll.Ages w'.epoll)
    (hentries : ∀ ee en, w'.epoll.entries ee = some en → ee < w.epoll.nextEntry ∨
      en.event = k ∧ s'.status ≠ .init ∧ (s'.handle = some ee ∨ s'.type = .client))
    (hwriteable : ∀ ee ∈ w'.epoll.writeable, ee ∈ w.epoll.writeable ∨ s'.handle = some ee)
    (hretired : ∀ ee ∈ w'.epoll.retired, ee ∈ w.epoll.retired ∨ s'.handle = some ee ∧
      s'.fdClosed = true ∧ ∀ en, w'.epoll.entries ee = some en → en.fd = kInvalidFd) :
    w'.Registered := by
  have hself : w'.sockets k = some s' := by rw [hsockets, Function.update_self]
  have hother : ∀ {j}, j ≠ k → w'.sockets j = w.sockets j := by
    intro j hj
    rw [hsockets, Function.update_of_ne hj]
  -- a handle of before is one afterwards
  have hkeep : ∀ {j t ee}, w.sockets j = some t → t.handle = some ee →
      ∃ t', w'.sockets j = some t' ∧
      t'.handle = some ee ∧ (t.fdClosed = true → t'.fdClosed = true) := by
    intro j t ee hj hee
    by_cases heq : j = k
    · subst heq
      obtain rfl := Option.some.inj (hk.symm.trans hj)
      obtain hsame | ⟨hnone, -⟩ := hhandle
      · exact ⟨s', hself, hsame.trans hee, hclosed⟩
      · rw [hnone] at hee
        cases hee
    · exact ⟨t, (hother heq).trans hj, hee, id⟩
  have hback : ∀ {j t}, w'.sockets j = some t → j = k ∧ t = s' ∨ j ≠ k ∧ w.sockets j = some t :=
    fun hj => sockets_update hsockets hj
  -- a handle of the Socket is its old one, or a new entry
  have hhandle' : ∀ {ee}, s'.handle = some ee → s.handle = some ee ∨ w.epoll.nextEntry ≤ ee := by
    intro ee hee
    obtain hsame | ⟨-, -, -, hnew⟩ := hhandle
    · exact .inl (hsame.symm.trans hee)
    · exact .inr (hnew ee hee).1
  refine ⟨hages.fresh h.fresh, fun ee en' hen' => ?_, fun j t ee hj hee => ?_,
    fun j j' t t' ee hj hj' hee hee' => ?_, fun j t hj hserver => ?_, fun j t hj hclient => ?_,
    fun ee hmem => ?_, fun ee hmem => ?_⟩
  · rcases hentries ee en' hen' with hlt | ⟨hevent, hinit, hregistered⟩
    · obtain ⟨en, hen, hevent⟩ := hages.event ee hlt en' hen'
      obtain ⟨t, ht, hinit, hregistered⟩ := h.entry ee en hen
      rw [hevent]
      by_cases heq : en.event = k
      · rw [heq] at ht ⊢
        obtain rfl := Option.some.inj (hk.symm.trans ht)
        refine ⟨s', hself, fun h' => hinit (hstatus h'), ?_⟩
        rcases hregistered with hee | hclient
        · obtain ⟨t', ht', hee', -⟩ := hkeep hk hee
          obtain rfl := Option.some.inj (hself.symm.trans ht')
          exact .inl hee'
        · exact .inr (htype.trans hclient)
      · exact ⟨t, (hother heq).trans ht, hinit, hregistered⟩
    · rw [hevent]
      exact ⟨s', hself, hinit, hregistered⟩
  · rcases hback hj with ⟨rfl, rfl⟩ | ⟨-, hj⟩
    · obtain hsame | ⟨-, hserver, hattach, hnew⟩ := hhandle
      · rw [hsame] at hee
        obtain ⟨hlt, hserver, hattach, -⟩ := h.handle j s ee hk hee
        obtain ⟨hlt', hevent'⟩ := handle_keeps hages.toKeeps
          (fun ee hee => ⟨(h.handle j s ee hk hee).1, (h.handle j s ee hk hee).2.2.2⟩) ee hee
        exact ⟨hlt', htype.trans hserver, hpoller hattach, hevent'⟩
      · obtain ⟨-, hlt, hevent⟩ := hnew ee hee
        exact ⟨hlt, htype.trans hserver, hattach, hevent⟩
    · obtain ⟨hlt, hserver, hattach, -⟩ := h.handle j t ee hj hee
      obtain ⟨hlt', hevent'⟩ := handle_keeps hages.toKeeps
        (fun ee hee => ⟨(h.handle j t ee hj hee).1, (h.handle j t ee hj hee).2.2.2⟩) ee hee
      exact ⟨hlt', hserver, hattach, hevent'⟩
  · rcases hback hj with ⟨rfl, rfl⟩ | ⟨hne, hj⟩
    · rcases hback hj' with ⟨rfl, -⟩ | ⟨hne', hj'⟩
      · rfl
      · rcases hhandle' hee with hold | hle
        · exact h.unique j j' s t' ee hk hj' hold hee'
        · exact absurd (h.handle j' t' ee hj' hee').1 (Nat.not_lt_of_le hle)
    · rcases hback hj' with ⟨rfl, rfl⟩ | ⟨hne', hj'⟩
      · rcases hhandle' hee' with hold | hle
        · exact h.unique j j' t s ee hj hk hee hold
        · exact absurd (h.handle j t ee hj hee).1 (Nat.not_lt_of_le hle)
      · exact h.unique j j' t t' ee hj hj' hee hee'
  · rcases hback hj with ⟨rfl, rfl⟩ | ⟨-, hj⟩
    · exact fun hinit => h.server j s hk (htype.symm.trans hserver) (hstatus hinit)
    · exact h.server j t hj hserver
  · rcases hback hj with ⟨rfl, rfl⟩ | ⟨-, hj⟩
    · exact hpoller (h.client j s hk (htype.symm.trans hclient))
    · exact h.client j t hj hclient
  · rcases hwriteable ee hmem with hmem | hee
    · obtain ⟨j, t, hj, hee⟩ := h.writeable ee hmem
      obtain ⟨t', hj', hee', -⟩ := hkeep hj hee
      exact ⟨j, t', hj', hee'⟩
    · exact ⟨k, s', hself, hee⟩
  · rcases hretired ee hmem with hmem | ⟨hee, hclosed', hfd⟩
    · obtain ⟨j, t, hj, hee, hclosed', hfd⟩ := h.retired ee hmem
      obtain ⟨t', hj', hee', himp⟩ := hkeep hj hee
      refine ⟨j, t', hj', hee', himp hclosed', fun en' hen' => ?_⟩
      obtain ⟨en, hen, -⟩ := hages.event ee (h.handle j t ee hj hee).1 en' hen'
      rcases hages.fd ee en en' hen hen' with heq | heq
      · rw [heq]
        exact hfd en hen
      · exact heq
    · exact ⟨k, s', hself, hee, hclosed', hfd⟩

theorem Registered.lt (h : w.Registered) {ee : EpollEntryPtr} {en : EpollEntry}
    (hen : w.epoll.entries ee = some en) : ee < w.epoll.nextEntry := by
  refine Nat.lt_of_not_le fun hle => ?_
  rw [h.fresh ee hle] at hen
  cases hen

theorem Registered.ages {e : LoopEvent} (h : w.Registered) (hs : w.Change e w') :
    w.epoll.Ages w'.epoll := by
  have hsame : w'.epoll = w.epoll → w.epoll.Ages w'.epoll := by
    intro hepoll
    rw [hepoll]
    exact .refl _
  cases hs with
  | newClient _ _ _ _ _ _ _ _ _ hepoll | newServer _ _ _ _ _ _ _ _ _ hepoll => exact hsame hepoll
  | socket _ _ _ _ _ _ hepoll | none _ hepoll => exact hsame hepoll
  | attach _ _ _ _ _ _ _ hadd | connect _ _ _ _ _ _ _ _ hadd => exact Epoll.add_ages h.fresh hadd
  | mark _ _ _ _ _ _ hepoll =>
    rw [hepoll]
    exact Epoll.markWriteable_ages _ _
  | close _ _ _ _ _ _ _ _ _ hdel => exact Epoll.del_ages hdel
  | clear _ hepoll =>
    rw [hepoll]
    exact ⟨⟨Nat.le_refl _, (Epoll.Keeps.refl w.epoll).event, id⟩, (Epoll.Ages.refl w.epoll).fd⟩
  | retire _ _ hretired => exact Epoll.processRetired_ages hretired

/-- The step `e` registers the Socket `k`, which is `s`. -/
def Registers (k : SocketPtr) (s : Socket) (e : LoopEvent) : Prop :=
  e = .setPoller k true ∧ s.hasPoller = false ∨
    e = .connect k kOK true ∧ s.type = .client ∧ s.status = .init

/-- An entry was there, or is that of a Socket which the step registers. -/
theorem Change.new_entry {e : LoopEvent} {ee : EpollEntryPtr} {en' : EpollEntry}
    (hs : w.Change e w')
    (h : w.Registered) (hen' : w'.epoll.entries ee = some en') :
    (∃ en, w.epoll.entries ee = some en ∧ en'.event = en.event) ∨
      ∃ s, w.sockets en'.event = some s ∧ en'.fd = s.fd ∧ Registers en'.event s e := by
  rcases Nat.lt_or_ge ee w.epoll.nextEntry with hlt | hle
  · exact .inl ((h.ages hs).event ee hlt en' hen')
  -- the entry is new
  refine .inr ?_
  have hadd : ∀ {j t added handle}, w.sockets j = some t → (added = true → Registers j t e) →
      w.epoll.add t.fd j added = (handle, w'.epoll) →
      ∃ s, w.sockets en'.event = some s ∧ en'.fd = s.fd ∧ Registers en'.event s e := by
    intro j t added handle hj hregisters hadd
    rcases Epoll.add_entries hadd hen' with hen | ⟨hadded, -, rfl⟩
    · rw [h.fresh ee hle] at hen
      cases hen
    · exact ⟨t, hj, rfl, hregisters hadded⟩
  have hsame : w'.epoll.nextEntry = w.epoll.nextEntry →
      ∃ s, w.sockets en'.event = some s ∧ en'.fd = s.fd ∧ Registers en'.event s e := by
    intro hnext
    have hnone := (h.ages hs).fresh h.fresh ee (hnext ▸ hle)
    rw [hnone] at hen'
    cases hen'
  cases hs with
  | attach j t added handle he hj hpoller hadd' =>
    refine hadd hj (fun hadded => .inl ⟨?_, hpoller⟩) hadd'
    rw [he, hadded]
  | connect j t added handle he hj htype hstatus hadd' =>
    refine hadd hj (fun hadded => .inr ⟨?_, htype, hstatus⟩) hadd'
    rw [he, hadded]
  | newClient _ _ _ _ _ _ _ _ _ hepoll | newServer _ _ _ _ _ _ _ _ _ hepoll
  | socket _ _ _ _ _ _ hepoll | clear _ hepoll | none _ hepoll => exact hsame (by rw [hepoll])
  | mark _ _ _ _ _ _ hepoll =>
    refine hsame ?_
    rw [hepoll]
    exact Epoll.markWriteable_nextEntry ..
  | close _ _ _ _ _ _ _ _ _ hdel => exact hsame (Epoll.del_nextEntry hdel)
  | retire _ _ hretired =>
    obtain ⟨-, -, hepoll⟩ := Epoll.processRetired_eq hretired
    exact hsame (by rw [hepoll])

/-- A new Socket, which has no handle. -/
theorem Registered.new (h : w.Registered) (hk : w.sockets k = none)
    (hsockets : w'.sockets = Function.update w.sockets k (some s)) (hepoll : w'.epoll = w.epoll)
    (hhandle : s.handle = none) (hserver : s.type = .server → s.status ≠ .init)
    (hclient : s.type = .client → s.hasPoller = true) : w'.Registered := by
  have hother : ∀ {j t}, w.sockets j = some t → w'.sockets j = some t := by
    intro j t hj
    have hne : j ≠ k := by
      rintro rfl
      rw [hk] at hj
      cases hj
    rw [hsockets, Function.update_of_ne hne]
    exact hj
  have hback : ∀ {j t}, w'.sockets j = some t → t = s ∨ w.sockets j = some t := by
    intro j t hj
    rcases sockets_update hsockets hj with ⟨-, ht⟩ | ⟨-, hj⟩
    · exact .inl ht
    · exact .inr hj
  have hhandle' : ∀ {j t ee}, w'.sockets j = some t → t.handle = some ee →
      w.sockets j = some t := by
    intro j t ee hj hee
    rcases hback hj with rfl | hj
    · rw [hhandle] at hee
      cases hee
    · exact hj
  refine ⟨?_, fun ee en hen => ?_, fun j t ee hj hee => ?_, fun j j' t t' ee hj hj' hee hee' => ?_,
    fun j t hj hs => ?_, fun j t hj hc => ?_, fun ee hmem => ?_, fun ee hmem => ?_⟩
  · rw [hepoll]
    exact h.fresh
  · rw [hepoll] at hen
    obtain ⟨t, ht, hrest⟩ := h.entry ee en hen
    exact ⟨t, hother ht, hrest⟩
  · rw [hepoll]
    exact h.handle j t ee (hhandle' hj hee) hee
  · exact h.unique j j' t t' ee (hhandle' hj hee) (hhandle' hj' hee') hee hee'
  · rcases hback hj with rfl | hj
    · exact hserver hs
    · exact h.server j t hj hs
  · rcases hback hj with rfl | hj
    · exact hclient hc
    · exact h.client j t hj hc
  · rw [hepoll] at hmem
    obtain ⟨j, t, hj, hee⟩ := h.writeable ee hmem
    exact ⟨j, t, hother hj, hee⟩
  · rw [hepoll] at hmem ⊢
    obtain ⟨j, t, hj, hrest⟩ := h.retired ee hmem
    exact ⟨j, t, hother hj, hrest⟩

/-- A step that leaves the Sockets alone and registers nothing. -/
theorem Registered.poller (h : w.Registered) (hsockets : w'.sockets = w.sockets)
    (hnext : w'.epoll.nextEntry = w.epoll.nextEntry)
    (hentries : ∀ ee en, w'.epoll.entries ee = some en → w.epoll.entries ee = some en)
    (hwriteable : ∀ ee ∈ w'.epoll.writeable, ee ∈ w.epoll.writeable)
    (hretired : ∀ ee ∈ w'.epoll.retired, ee ∈ w.epoll.retired) : w'.Registered := by
  refine ⟨fun ee hle => ?_, fun ee en hen => ?_, fun j t ee hj hee => ?_, ?_, ?_, ?_,
    fun ee hmem => ?_, fun ee hmem => ?_⟩
  · rw [hnext] at hle
    refine Option.eq_none_iff_forall_ne_some.mpr fun en hen => ?_
    have hnone := h.fresh ee hle
    rw [hentries ee en hen] at hnone
    cases hnone
  · rw [hsockets]
    exact h.entry ee en (hentries ee en hen)
  · rw [hsockets] at hj
    obtain ⟨hlt, hserver, hattach, hevent⟩ := h.handle j t ee hj hee
    rw [hnext]
    exact ⟨hlt, hserver, hattach, fun en hen => hevent en (hentries ee en hen)⟩
  · rw [hsockets]
    exact h.unique
  · rw [hsockets]
    exact h.server
  · rw [hsockets]
    exact h.client
  · rw [hsockets]
    exact h.writeable ee (hwriteable ee hmem)
  · rw [hsockets]
    obtain ⟨j, t, hj, hee, hclosed, hfd⟩ := h.retired ee (hretired ee hmem)
    exact ⟨j, t, hj, hee, hclosed, fun en hen => hfd en (hentries ee en hen)⟩

/-- `SetPoller` registers a Socket and keeps the handle. -/
theorem Registered.attach (h : w.Registered) {added : Bool} {handle : Option EpollEntryPtr}
    (hk : w.sockets k = some s) (hpoller : s.hasPoller = false)
    (hadd : w.epoll.add s.fd k added = (handle, w'.epoll))
    (hsockets : w'.sockets =
      Function.update w.sockets k (some { s with hasPoller := true, handle := handle })) :
    w'.Registered := by
  have hserver : s.type = .server := by
    cases htype : s.type with
    | server => rfl
    | client =>
      rw [h.client k s hk htype] at hpoller
      cases hpoller
  have hnone : s.handle = none := by
    refine Option.eq_none_iff_forall_ne_some.mpr fun ee hee => ?_
    rw [(h.handle k s ee hk hee).2.2.1] at hpoller
    cases hpoller
  obtain ⟨-, hwriteable, hhandle⟩ := Epoll.add_keeps hadd
  refine h.update hk hsockets rfl (fun _ => rfl)
    (.inr ⟨hnone, hserver, rfl, fun ee hee => ?_⟩) id id
    (Epoll.add_ages h.fresh hadd) (fun ee en hen => ?_) (fun ee hmem => .inl (hwriteable ▸ hmem))
    (fun ee hmem => .inl (Epoll.add_retired hadd ▸ hmem))
  · exact ⟨Epoll.add_handle_le hadd hee, hhandle ee hee⟩
  · rcases Epoll.add_entries hadd hen with hold | ⟨-, hee, rfl⟩
    · exact .inl (h.lt hold)
    · exact .inr ⟨rfl, h.server k s hk hserver, .inl hee⟩

/-- `Del` of the handle of a Socket, whose descriptor is closed. -/
theorem Registered.close (h : w.Registered) (hk : w.sockets k = some s)
    (hdel : w.epoll.del s.handle = .ok w'.epoll)
    (hsockets : w'.sockets = Function.update w.sockets k (some { s with fdClosed := true })) :
    w'.Registered := by
  have hages := Epoll.del_ages hdel
  have hwriteable := (Epoll.del_keeps hdel).2
  cases hhandle : s.handle with
  | none =>
    rw [hhandle] at hdel
    have hepoll := Except.ok.inj hdel
    refine h.update hk hsockets rfl id (.inl rfl) id (fun _ => rfl) hages (fun ee en hen => ?_)
      (fun ee hmem => .inl (hwriteable ▸ hmem)) (fun ee hmem => ?_)
    · rw [← hepoll] at hen
      exact .inl (h.lt hen)
    · rw [← hepoll] at hmem
      exact .inl hmem
  | some ee₀ =>
    rw [hhandle] at hdel
    obtain ⟨en₀, hen₀, hepoll⟩ := Epoll.del_eq hdel
    refine h.update hk hsockets rfl id (.inl rfl) id (fun _ => rfl) hages (fun ee en hen => ?_)
      (fun ee hmem => .inl (hwriteable ▸ hmem)) (fun ee hmem => ?_)
    · rw [hepoll] at hen
      by_cases heq : ee = ee₀
      · subst heq
        exact .inl (h.lt hen₀)
      · exact .inl (h.lt ((Epoll.setEntry_ne w.epoll _ heq).symm.trans hen))
    · rw [hepoll] at hmem
      rcases List.mem_append.mp hmem with hmem | hmem
      · exact .inl hmem
      · obtain rfl := List.mem_singleton.mp hmem
        refine .inr ⟨hhandle, rfl, fun en hen => ?_⟩
        rw [hepoll] at hen
        rw [← Option.some.inj ((Epoll.setEntry_self w.epoll ..).symm.trans hen)]

/-- **The step lemma.** -/
theorem Registered.step {e : LoopEvent} (h : w.Registered) (hs : w.Change e w') :
    w'.Registered := by
  cases hs with
  | newClient k s hk htype hstatus hpoller hhandle hclosed hsockets hepoll =>
    refine h.new hk hsockets hepoll hhandle (fun hs => ?_) fun _ => hpoller
    rw [htype] at hs
    cases hs
  | newServer k s hk htype hstatus hpoller hhandle hclosed hsockets hepoll =>
    refine h.new hk hsockets hepoll hhandle (fun _ => ?_) fun hc => ?_
    · rw [hstatus]
      nofun
    · rw [htype] at hc
      cases hc
  | attach k s added handle _ hk hpoller hadd hsockets => exact h.attach hk hpoller hadd hsockets
  | connect k s added handle _ hk htype hstatus hadd hsockets =>
    refine h.update hk hsockets rfl id (.inl rfl) nofun id (Epoll.add_ages h.fresh hadd)
      (fun ee en hen => ?_) (fun ee hmem => .inl ((Epoll.add_keeps hadd).2.1 ▸ hmem))
      (fun ee hmem => .inl (Epoll.add_retired hadd ▸ hmem))
    rcases Epoll.add_entries hadd hen with hold | ⟨-, -, rfl⟩
    · exact .inl (h.lt hold)
    · exact .inr ⟨rfl, nofun, .inr htype⟩
  | mark k s s' hk hsockets hsame hepoll =>
    refine h.update hk hsockets hsame.type (fun hp => hsame.hasPoller.trans hp) (.inl hsame.handle)
      hsame.status (fun hc => hsame.fdClosed.trans hc) (hepoll ▸ Epoll.markWriteable_ages _ _)
      (fun ee en hen => ?_) (fun ee hmem => ?_) (fun ee hmem => ?_)
    · rw [hepoll, Epoll.markWriteable_entries] at hen
      exact .inl (h.lt hen)
    · rw [hepoll] at hmem
      exact (Epoll.mem_markWriteable hmem).imp_right hsame.handle.trans
    · rw [hepoll, Epoll.markWriteable_retired] at hmem
      exact .inl hmem
  | socket k s s' hk hsockets hsame hepoll =>
    refine h.update hk hsockets hsame.type (fun hp => hsame.hasPoller.trans hp) (.inl hsame.handle)
      hsame.status (fun hc => hsame.fdClosed.trans hc) (hepoll ▸ .refl _) (fun ee en hen => ?_)
      (fun ee hmem => ?_) (fun ee hmem => ?_)
    · rw [hepoll] at hen
      exact .inl (h.lt hen)
    · rw [hepoll] at hmem
      exact .inl hmem
    · rw [hepoll] at hmem
      exact .inl hmem
  | close k s f rest _ _ _ _ hk hdel hsockets => exact h.close hk hdel hsockets
  | clear hsockets hepoll =>
    refine h.poller hsockets (by rw [hepoll]) (fun ee en hen => ?_) (fun ee hmem => ?_)
      (fun ee hmem => ?_)
    · rwa [hepoll] at hen
    · rw [hepoll] at hmem
      cases hmem
    · rwa [hepoll] at hmem
  | retire _ hsockets hretired =>
    obtain ⟨-, -, hepoll⟩ := Epoll.processRetired_eq hretired
    refine h.poller hsockets (by rw [hepoll]) (fun ee en hen => ?_) (fun ee hmem => ?_)
      (fun ee hmem => ?_)
    · rw [hepoll] at hen
      by_cases hmem : ee ∈ w.epoll.retired
      · cases (if_pos hmem).symm.trans hen
      · exact (if_neg hmem).symm.trans hen
    · rwa [hepoll] at hmem
    · rw [hepoll] at hmem
      cases hmem
  | none hsockets hepoll =>
    refine h.poller hsockets (by rw [hepoll]) (fun ee en hen => ?_) (fun ee hmem => ?_)
      (fun ee hmem => ?_)
    · rwa [hepoll] at hen
    · rwa [hepoll] at hmem
    · rwa [hepoll] at hmem

theorem Start.registered (h : w.Start) : w.Registered := by
  obtain ⟨hsockets, ⟨size, hepoll⟩, -, -⟩ := h
  have hnone : ∀ {j t}, w.sockets j ≠ some t := by
    intro j t hj
    rw [hsockets j] at hj
    cases hj
  refine ⟨fun ee _ => ?_, fun ee en hen => ?_, fun j t ee hj => absurd hj hnone,
    fun j j' t t' ee hj => absurd hj hnone, fun j t hj => absurd hj hnone,
    fun j t hj => absurd hj hnone, fun ee hmem => ?_, fun ee hmem => ?_⟩
  · rw [hepoll]
    rfl
  · rw [hepoll] at hen
    cases hen
  · rw [hepoll] at hmem
    cases hmem
  · rw [hepoll] at hmem
    cases hmem

end EventLoop

end ServerKit
