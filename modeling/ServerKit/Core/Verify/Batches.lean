import ServerKit.Core.Verify.Frames
import ServerKit.Core.PollRounds

/-!
# What a round has still to come to

A round goes through `writeable_list_`, and then through the events of a batch, which it looks at up
to three times each. Only `Socket::Write` adds an entry to the first, and only `epoll_wait` events
to the second.
-/

namespace ServerKit

open Lib

variable {σ : Type} {P : ObjectPool σ}

/-- The checks of an event from here on find a bit that they look at. -/
def EventStage.wants : EventStage → EventMask → Bool
  | .error, m => m.errOrHup || m.input || m.output
  | .input, m => m.input || m.output
  | .output, m => m.output

theorem EventStage.wants_error {m : EventMask} (h : EventStage.input.wants m = true) :
    EventStage.error.wants m = true := by
  simp only [wants, Bool.or_eq_true] at h ⊢
  rcases h with h | h
  · exact .inl (.inr h)
  · exact .inr h

theorem EventStage.wants_input {m : EventMask} (h : EventStage.output.wants m = true) :
    EventStage.input.wants m = true := by
  simp only [wants, Bool.or_eq_true] at h ⊢
  exact .inr h

/-- The events of the batch still to come, each with its next check. -/
def PollPc.batch : PollPc → List (EventStage × EpollEvent)
  | .events stage (e :: rest) => (stage, e) :: rest.map (Prod.mk .error)
  | .idle | .writeable _ | .events _ [] => []

theorem PollPc.batch_error (events : List EpollEvent) :
    (PollPc.events .error events).batch = events.map (Prod.mk .error) := by
  cases events <;> rfl

namespace EventLoop

variable {w w' : EventLoop σ} {e : LoopEvent} {ee : EpollEntryPtr}

/-- The entry has an event in the batch in which the checks to come find a bit. -/
def Due (w : EventLoop σ) (ee : EpollEntryPtr) : Prop :=
  ∃ p ∈ w.poll.batch, p.2.ptr = ee ∧ p.1.wants p.2.events = true

/-- `MarkWriteable` of the entry `ee` in the step `e`. -/
def Marks (w : EventLoop σ) (ee : EpollEntryPtr) : LoopEvent → Prop
  | .write k _ => ∃ s, w.sockets k = some s ∧ s.isWritable = false ∧ s.handle = some ee
  | _ => False

/-- What `epoll_wait` gives in the step `e`. -/
def Reports (events : List EpollEvent) : LoopEvent → Prop
  | .epollWait events' => events' = events
  | _ => False

end EventLoop

namespace LoopStep

variable {w w' : EventLoop σ} {e : LoopEvent} {ee : EpollEntryPtr}

/-- An event of the batch was there before, with no fewer checks to come, or has just been
reported. -/
theorem batch (hs : LoopStep P w e w') {stage : EventStage} {ev : EpollEvent}
    (hmem : (stage, ev) ∈ w'.poll.batch) :
    (∃ stage', (stage', ev) ∈ w.poll.batch ∧
      (stage.wants ev.events = true → stage'.wants ev.events = true)) ∨
    ∃ events, EventLoop.Reports events e ∧ ev ∈ events := by
  have hsame : w'.poll = w.poll → ∃ stage', (stage', ev) ∈ w.poll.batch ∧
      (stage.wants ev.events = true → stage'.wants ev.events = true) := by
    intro hpoll
    rw [hpoll] at hmem
    exact ⟨stage, hmem, id⟩
  -- the rest of the batch, behind its first event
  have hrest : ∀ {stage₀ e₀ rest}, w.poll = .events stage₀ (e₀ :: rest) →
      (stage, ev) ∈ rest.map (Prod.mk EventStage.error) → ∃ stage', (stage', ev) ∈ w.poll.batch ∧
        (stage.wants ev.events = true → stage'.wants ev.events = true) := by
    intro stage₀ e₀ rest hpoll hmem
    rw [hpoll]
    exact ⟨stage, List.mem_cons_of_mem _ hmem, id⟩
  cases hs with
  | newClient | newServer | setPoller | connectAgain | connect | connectFails | read | outRun
  | sysWrite | sysWriteFails | outReturn | outClose | inRun | sysRead | sysReadFails | inReturn
  | inClose | connectReturn => exact .inl (hsame rfl)
  | write => exact .inl (hsame (EventLoop.afterWrite_poll ..))
  | poll | callOut | pollDone => cases hmem
  | epollWait events =>
    refine .inr ⟨events, rfl, ?_⟩
    have hmem : (stage, ev) ∈ (if events = [] then PollPc.idle else .events .error events).batch :=
      hmem
    split at hmem
    · cases hmem
    · rw [PollPc.batch_error] at hmem
      obtain ⟨ev', hev', heq⟩ := List.mem_map.mp hmem
      obtain ⟨-, rfl⟩ := Prod.mk.inj heq
      exact hev'
  | @checkRetired _ _ _ rest _ _ hpoll | @checkOutput _ _ rest _ _ _ hpoll =>
    have hmem : (stage, ev) ∈ (PollPc.events .error rest).batch := hmem
    rw [PollPc.batch_error] at hmem
    exact .inl (hrest ‹_› hmem)
  | @checkError _ e₀ rest _ _ _ hpoll =>
    have hmem : (stage, ev) ∈ (EventStage.input, e₀) :: rest.map (Prod.mk .error) := hmem
    rcases List.mem_cons.mp hmem with heq | hmem
    · obtain ⟨rfl, rfl⟩ := Prod.mk.inj heq
      rw [hpoll]
      exact .inl ⟨.error, List.mem_cons_self, EventStage.wants_error⟩
    · exact .inl (hrest hpoll hmem)
  | @checkInput _ e₀ rest _ _ _ hpoll =>
    have hmem : (stage, ev) ∈ (EventStage.output, e₀) :: rest.map (Prod.mk .error) := hmem
    rcases List.mem_cons.mp hmem with heq | hmem
    · obtain ⟨rfl, rfl⟩ := Prod.mk.inj heq
      rw [hpoll]
      exact .inl ⟨.input, List.mem_cons_self, EventStage.wants_input⟩
    · exact .inl (hrest hpoll hmem)

/-- An entry that is due was due before, or its event has just been reported. -/
theorem due (hs : LoopStep P w e w') (h : w'.Due ee) :
    w.Due ee ∨ ∃ events, EventLoop.Reports events e ∧ ∃ ev ∈ events, ev.ptr = ee := by
  obtain ⟨⟨stage, ev⟩, hmem, hptr, hwants⟩ := h
  rcases hs.batch hmem with ⟨stage', hmem', himp⟩ | ⟨events, hreports, hev⟩
  · exact .inl ⟨⟨stage', ev⟩, hmem', hptr, himp hwants⟩
  · exact .inr ⟨events, hreports, ev, hev, hptr⟩

/-- An entry of `writeable_list_` still to come was there before, or has just been marked. -/
theorem pending (hs : LoopStep P w e w') (h : ee ∈ w'.pending) : ee ∈ w.pending ∨ w.Marks ee e := by
  have hsub : ∀ {n : ℕ}, w'.epoll.writeable = w.epoll.writeable → w'.visited = w.visited + n →
      ee ∈ w.pending := by
    intro n hwriteable hvisited
    unfold EventLoop.pending at h ⊢
    rw [hwriteable, hvisited, ← List.drop_drop] at h
    exact List.mem_of_mem_drop h
  have hvisited : w'.poll = w.poll → w'.visited = w.visited + 0 := by
    intro hpoll
    unfold EventLoop.visited
    rw [hpoll]
    rfl
  cases hs with
  | newClient | newServer | connectAgain | connectFails | read | outRun | sysWrite | sysWriteFails
  | outReturn | inRun | sysRead | sysReadFails | inReturn | connectReturn =>
    exact .inl (hsub rfl (hvisited rfl))
  | setPoller _ _ _ hadd | connect _ _ _ _ hadd =>
    exact .inl (hsub (Epoll.add_keeps hadd).2.1 (hvisited rfl))
  | outClose _ _ hdel | inClose _ _ hdel =>
    exact .inl (hsub (Epoll.del_keeps hdel).2 (hvisited rfl))
  | @write _ k s src total m writeList _ hk =>
    cases hwritable : s.isWritable with
    | true =>
      refine .inl (hsub (n := 0) ?_ (hvisited (EventLoop.afterWrite_poll ..)))
      rw [EventLoop.afterWrite, Socket.setWriteList, hwritable]
      rfl
    | false =>
      unfold EventLoop.pending at h ⊢
      rw [hvisited (EventLoop.afterWrite_poll ..), EventLoop.afterWrite, Socket.setWriteList,
        hwritable] at h
      have h : ee ∈ ((w.epoll.markWriteable s.handle).writeable).drop w.visited := h
      cases hhandle : s.handle with
      | none =>
        rw [hhandle] at h
        exact .inl h
      | some ee' =>
        rw [hhandle] at h
        have h : ee ∈ (w.epoll.writeable ++ [ee']).drop w.visited := h
        rw [List.drop_append] at h
        rcases List.mem_append.mp h with h | h
        · exact .inl h
        · obtain rfl := List.mem_singleton.mp (List.mem_of_mem_drop h)
          exact .inr ⟨s, hk, hwritable, hhandle⟩
  | poll _ hpoll =>
    refine .inl (hsub (n := 0) rfl ?_)
    unfold EventLoop.visited
    rw [hpoll]
    rfl
  | callOut _ _ hpoll =>
    refine .inl (hsub (n := 1) rfl ?_)
    unfold EventLoop.visited
    rw [hpoll]
    rfl
  | epollWait events =>
    have hnil : ee ∈ ([] : List EpollEntryPtr) := List.mem_of_mem_drop h
    cases hnil
  | checkRetired _ hpoll | checkError _ hpoll | checkInput _ hpoll | checkOutput _ hpoll =>
    refine .inl (hsub (n := 0) rfl ?_)
    unfold EventLoop.visited
    rw [hpoll]
    rfl
  | pollDone _ hpoll hretired =>
    refine .inl (hsub (n := 0) (Epoll.processRetired_keeps hretired).2 ?_)
    unfold EventLoop.visited
    rw [hpoll]
    rfl

end LoopStep

namespace EventLoop

variable {w : EventLoop σ} {e : LoopEvent} {ee : EpollEntryPtr}

/-- What a round calls through is in the rest of `writeable_list_`, or due in the batch and not
retired. -/
theorem CallsThrough.pending_or_due (h : w.CallsThrough ee e) :
    ee ∈ w.pending ∨ w.Due ee ∧ w.epoll.Live ee := by
  cases e with
  | callOut n =>
    obtain ⟨iter, hpoll, hget⟩ := h
    refine .inl ?_
    unfold pending visited
    rw [hpoll]
    have hzero : (w.epoll.writeable.drop iter)[0]? = some ee := by
      rw [List.getElem?_drop]
      exact hget
    exact List.mem_of_getElem? hzero
  | check n =>
    obtain ⟨stage, ev, rest, en, hpoll, hptr, hen, hfd, hmask⟩ := h
    refine .inr ⟨⟨(stage, ev), ?_, hptr, ?_⟩, en, hen, hfd⟩
    · rw [hpoll]
      exact List.mem_cons_self
    · cases stage with
      | error | input =>
        simp only [EventStage.wants, hmask, Bool.true_or]
      | output => exact hmask
  | _ => exact h.elim

end EventLoop

end ServerKit
