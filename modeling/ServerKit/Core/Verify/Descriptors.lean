import ServerKit.Core.Verify.Batches
import ServerKit.Core.Lifetime

/-!
# No system call on a closed descriptor

`Socket::close` leaves `fd_` and `status_` as they are, so nothing in a Socket says that its
descriptor has been closed: an `In` or `Out` called afterwards reads and writes it, and may close it
again, and the destructor always does. What keeps `In` and `Out` from being called is that `Del`
clears the fd of the entry, which the pass over the batch looks at. That does not reach the rest of
`writeable_list_`, nor a client Socket, which has no handle; so a Socket is safe as long as it is
not closed while one of these is still to come (`EventLoop.Quiet`).
-/

namespace ServerKit

open Lib

variable {σ : Type} {P : ObjectPool σ}

theorem Epoll.del_fd {e e' : Epoll} {handle : Option EpollEntryPtr} {ee : EpollEntryPtr}
    {en : EpollEntry} (h : e.del handle = .ok e') (hhandle : handle = some ee)
    (hen : e'.entries ee = some en) : en.fd = kInvalidFd := by
  subst hhandle
  obtain ⟨en₀, -, rfl⟩ := del_eq h
  rw [← Option.some.inj ((setEntry_self e ..).symm.trans hen)]

namespace EventLoop

/-- `In` or `Out` of the Socket `k` runs, with system calls to come. -/
def Busy (w : EventLoop σ) (k : SocketPtr) : Prop := ∃ f ∈ w.stack, f.Busy k

/-- The descriptor of the Socket `k` has been closed. -/
def Closed (w : EventLoop σ) (k : SocketPtr) : Prop := ∃ s, w.sockets k = some s ∧ s.fdClosed = true

/-- `In` or `Out` of the Socket `k` makes a system call on its descriptor in the step `e`. -/
def Uses (w : EventLoop σ) (k : SocketPtr) : LoopEvent → Prop
  | .sysRead _ => ∃ ret rest, w.stack = .input k (.recv ret) :: rest
  | .sysWrite _ => ∃ ret rest, w.stack = .out k (.send ret) :: rest
  | e => w.Closing k e

/-- No entry of the Socket `k` is still to come in `writeable_list_`, nor due in the batch, unless
it has been retired or is `handle`. -/
def Quiet (w : EventLoop σ) (k : SocketPtr) (handle : Option EpollEntryPtr) : Prop :=
  ∀ ee en, w.epoll.entries ee = some en → en.event = k →
    ee ∉ w.pending ∧ (w.Due ee → en.fd = kInvalidFd ∨ handle = some ee)

variable {w w' : EventLoop σ} {e : LoopEvent} {k : SocketPtr}

theorem Busy.top {f : Frame} {rest : List Frame} (hstack : w.stack = f :: rest) (hf : f.Busy k) :
    w.Busy k := ⟨f, hstack ▸ List.mem_cons_self, hf⟩

theorem Closing.busy (h : w.Closing k e) : w.Busy k := by
  obtain ⟨-, f, rest, hstack, rfl | rfl⟩ := h
  · exact .top hstack ⟨rfl, trivial⟩
  · exact .top hstack ⟨rfl, trivial⟩

theorem Uses.busy (h : w.Uses k e) : w.Busy k := by
  cases e with
  | sysRead r | sysWrite r =>
    obtain ⟨ret, rest, hstack⟩ := h
    exact .top hstack ⟨rfl, trivial⟩
  | _ => exact Closing.busy h

/-- A Socket that is busy was busy before, or has just been called. -/
theorem Busy.of_moves (hm : w.Moves e w') (h : w'.Busy k) : w.Busy k ∨ w.Calls e k := by
  obtain ⟨f, hmem, hf⟩ := h
  cases hm with
  | same hstack' =>
    rw [hstack'] at hmem
    exact .inl ⟨f, hmem, hf⟩
  | connect j hstack' =>
    rw [hstack'] at hmem
    rcases List.mem_cons.mp hmem with rfl | hmem
    · exact hf.elim
    · exact .inl ⟨f, hmem, hf⟩
  | call j f' hstack hstack' hof hcalls =>
    rw [hstack'] at hmem
    obtain rfl := List.mem_singleton.mp hmem
    refine .inr ?_
    have hj : j = k := by
      cases f with
      | connect => exact hof.elim
      | out | input => exact hof.symm.trans hf.1
    rw [← hj]
    exact hcalls
  | run f₀ f' rest hstack hstack' hgoes hne =>
    rw [hstack'] at hmem
    rcases List.mem_cons.mp hmem with rfl | hmem
    · exact .inl ⟨f₀, hstack ▸ List.mem_cons_self, hgoes.busy k hf⟩
    · exact .inl ⟨f, hstack ▸ List.mem_cons_of_mem _ hmem, hf⟩
  | pop f₀ rest hstack hstack' =>
    rw [hstack'] at hmem
    exact .inl ⟨f, hstack ▸ List.mem_cons_of_mem _ hmem, hf⟩

/-- A Socket stays quiet when its entries become neither due nor pending, and `handle` is
retired. -/
theorem Quiet.mono {handle : Option EpollEntryPtr} (h : w.Quiet k handle)
    (hages : w.epoll.Ages w'.epoll)
    (hhandle : ∀ ee en, handle = some ee → w'.epoll.entries ee = some en → en.fd = kInvalidFd)
    (hlt : ∀ ee, ee ∈ w'.pending ∨ w'.Due ee → ee < w.epoll.nextEntry)
    (hpending : ∀ ee en, w.epoll.entries ee = some en → en.event = k → ee ∈ w'.pending →
      ee ∈ w.pending)
    (hdue : ∀ ee en, w.epoll.entries ee = some en → en.event = k → w'.Due ee → w.Due ee) :
    w'.Quiet k none := by
  intro ee en' hen' hevent
  refine ⟨fun hmem => ?_, fun hd => .inl ?_⟩
  · obtain ⟨en, hen, heq⟩ := hages.event ee (hlt ee (.inl hmem)) en' hen'
    have hevent := heq.symm.trans hevent
    exact (h ee en hen hevent).1 (hpending ee en hen hevent hmem)
  · obtain ⟨en, hen, heq⟩ := hages.event ee (hlt ee (.inr hd)) en' hen'
    have hevent := heq.symm.trans hevent
    rcases (h ee en hen hevent).2 (hdue ee en hen hevent hd) with hfd | hee
    · rcases hages.fd ee en en' hen hen' with heq | heq
      · exact heq.trans hfd
      · exact heq
    · exact hhandle ee en' hee hen'

/-- A Socket whose descriptor has been closed is not busy, and nothing calls it. -/
structure Descriptors (w : EventLoop σ) : Prop where
  registered : w.Registered
  stacked : Frame.Stacked w.stack
  allocated : ∀ ee, w.Due ee → ee < w.epoll.nextEntry
  busy : ∀ k, w.Closed k → ¬ w.Busy k
  quiet : ∀ k, w.Closed k → w.Quiet k none

theorem Registered.pending_lt (h : w.Registered) {ee : EpollEntryPtr} (hmem : ee ∈ w.pending) :
    ee < w.epoll.nextEntry := by
  obtain ⟨k, s, hk, hee⟩ := h.writeable ee (List.mem_of_mem_drop hmem)
  exact (h.handle k s ee hk hee).1

/-- `MarkWriteable` is called on an entry that has been given out. -/
theorem Marks.lt {ee : EpollEntryPtr} (h : w.Marks ee e) (hok : w.Registered) :
    ee < w.epoll.nextEntry := by
  cases e with
  | write j src =>
    obtain ⟨s, hj, -, hee⟩ := h
    exact (hok.handle j s ee hj hee).1
  | _ => exact h.elim

/-- `Del` of a handle, which may be that of the Socket. -/
theorem Quiet.del {handle handle' : Option EpollEntryPtr} (h : w.Quiet k handle)
    (hsub : ∀ ee, handle = some ee → handle' = some ee) (hok : w.Registered)
    (hallocated : ∀ ee, w.Due ee → ee < w.epoll.nextEntry)
    (hdel : w.epoll.del handle' = .ok w'.epoll) (hpoll : w'.poll = w.poll) : w'.Quiet k none := by
  have hpending : ∀ {ee}, ee ∈ w'.pending → ee ∈ w.pending := by
    intro ee hmem
    unfold pending visited at hmem ⊢
    rwa [(Epoll.del_keeps hdel).2, hpoll] at hmem
  have hdue : ∀ {ee}, w'.Due ee → w.Due ee := by
    intro ee hd
    unfold Due at hd ⊢
    rwa [hpoll] at hd
  refine h.mono (Epoll.del_ages hdel) (fun ee en hee hen => Epoll.del_fd hdel (hsub ee hee) hen) ?_
    (fun _ _ _ _ => hpending) (fun _ _ _ _ => hdue)
  rintro ee (hmem | hd)
  · exact hok.pending_lt (hpending hmem)
  · exact hallocated ee (hdue hd)

theorem Descriptors.calls (h : w.Descriptors) (hcalls : w.Calls e k) : ¬ w.Closed k := by
  obtain ⟨ee, en, hthrough, hen, hevent⟩ := hcalls
  intro hclosed
  obtain ⟨hpending, hdue⟩ := h.quiet k hclosed ee en hen hevent
  rcases hthrough.pending_or_due with hmem | ⟨hd, en', hen', hfd⟩
  · exact hpending hmem
  · obtain rfl := Option.some.inj (hen.symm.trans hen')
    rcases hdue hd with hinvalid | hnone
    · exact hfd hinvalid
    · cases hnone

end EventLoop

namespace Lifetime

/-- The step `e` closes the descriptor of the Socket `k`. -/
def Closes (w : Lifetime σ) (k : SocketPtr) : LifeEvent → Prop
  | .loop e => w.loop.Closing k e
  | .destroy j => j = k
  | .destroyPoller => False

/-- The step `e` is a `::read`, a `::write` or a `close` on the descriptor of the Socket `k`. -/
def Uses (w : Lifetime σ) (k : SocketPtr) : LifeEvent → Prop
  | .loop e => w.loop.Uses k e
  | .destroy j => j = k
  | .destroyPoller => False

variable {w w' : Lifetime σ} {e : LoopEvent} {k : SocketPtr}

theorem reported {events : List EpollEvent} {ev : EpollEvent} (hallowed : w.Allowed e)
    (hreports : EventLoop.Reports events e) (hev : ev ∈ events) : w.InKernel ev.ptr := by
  cases e with
  | epollWait events' =>
    rw [← show events' = events from hreports] at hev
    exact hallowed ev hev
  | _ => exact hreports.elim

/-! ## The steps of the thread -/

theorem registered_destroy {loop : EventLoop σ} {s : Socket} {epoll epoll' : Epoll}
    (h : loop.Registered) (hk : loop.sockets k = some s)
    (hdel : loop.epoll.del s.handle = .ok epoll)
    (hdel' : epoll.del s.handle = .ok epoll') :
    ((loop.setEpoll epoll').setSocket k { s with fdClosed := true }).Registered := by
  have h₁ : ((loop.setEpoll epoll).setSocket k { s with fdClosed := true }).Registered :=
    h.close hk hdel rfl
  refine h₁.close (s := { s with fdClosed := true }) (Function.update_self ..) hdel' ?_
  exact (Function.update_idem ..).symm

theorem Closes.closed {e : LifeEvent} (h : w.Closes k e) (hs : LifeStep P w e w') :
    w'.loop.Closed k := by
  cases hs with
  | loop _ _ hs =>
    obtain ⟨rfl, f, rest, hstack, hf⟩ := h
    cases hs with
    | outClose hstack' =>
      rcases hf with rfl | rfl
      · obtain ⟨hk, -⟩ := Frame.out.inj (List.cons.inj (hstack.symm.trans hstack')).1
        rw [hk]
        exact ⟨_, Function.update_self .., rfl⟩
      · cases (List.cons.inj (hstack.symm.trans hstack')).1
    | inClose hstack' =>
      rcases hf with rfl | rfl
      · cases (List.cons.inj (hstack.symm.trans hstack')).1
      · obtain ⟨hk, -⟩ := Frame.input.inj (List.cons.inj (hstack.symm.trans hstack')).1
        rw [hk]
        exact ⟨_, Function.update_self .., rfl⟩
  | destroy =>
    rw [← show _ = k from h]
    exact ⟨_, Function.update_self .., rfl⟩
  | destroyPoller => exact h.elim

end Lifetime

theorem EventLoop.Start.descriptors {w : EventLoop σ} (h : w.Start) : w.Descriptors := by
  have hregistered := h.registered
  obtain ⟨hsockets, -, hpoll, hstack⟩ := h
  have hclosed : ∀ k, ¬ w.Closed k := by
    rintro k ⟨s, hk, -⟩
    rw [hsockets k] at hk
    cases hk
  refine ⟨hregistered, ?_, fun ee hd => ?_, fun k hc => absurd hc (hclosed k),
    fun k hc => absurd hc (hclosed k)⟩
  · rw [hstack]
    trivial
  · obtain ⟨p, hmem, -⟩ := hd
    rw [hpoll] at hmem
    cases hmem

namespace Lifetime

variable {w : Lifetime σ} {k : SocketPtr} {s : Socket}

theorem allowed_setPoller (hdestroyed : k ∉ w.destroyed) (hk : w.loop.sockets k = some s)
    (hfd : s.fd ≠ kInvalidFd) (added : Bool) : w.Allowed (.setPoller k added) := by
  refine ⟨hdestroyed, fun _ s' hk' => ?_⟩
  obtain rfl := Option.some.inj (hk.symm.trans hk')
  exact hfd

theorem allowed_epollWait {e : EpollEvent} {en : EpollEntry}
    (hen : w.loop.epoll.entries e.ptr = some en) (hfd : en.fd ≠ kInvalidFd)
    (hk : w.loop.sockets en.event = some s) (hopen : s.fdClosed = false) :
    w.Allowed (.epollWait [e]) := by
  intro e' hmem
  obtain rfl := List.mem_singleton.mp hmem
  refine ⟨en, hen, hfd, fun s' hk' => ?_⟩
  obtain rfl := Option.some.inj (hk.symm.trans hk')
  exact hopen

end Lifetime

end ServerKit
