import ServerKit.Core.Verify.Registered

/-!
# What is on the stack

`In` and `Out` are called with nothing else on the stack, so at most one of them runs, below the
calls of `Connect` that its callbacks make (`Frame.Stacked`). A step calls `In` or `Out` of a Socket
from `Epoll::Poll` (`EventLoop.Calls`), or goes on with what is on the stack (`EventLoop.Moves`).
-/

namespace ServerKit

open Lib

variable {σ : Type} {P : ObjectPool σ}

/-- `Out` has system calls to come, or may have. -/
def OutPc.Continues : OutPc → Prop
  | start _ | onConnect _ | connected _ | loop _ | send _ | sent _ _ | onError _ | close => True
  | finish _ | onWrite => False

/-- `In` has system calls to come, or may have. -/
def InPc.Continues : InPc → Prop
  | start | recv _ | received _ | onError _ | close => True
  | finish | onRead => False

namespace Frame

/-- `In` or `Out` of the Socket `k`. -/
def Of (k : SocketPtr) : Frame → Prop
  | out j _ | input j _ => j = k
  | connect _ => False

/-- `In` or `Out` of the Socket `k`, with system calls to come. -/
def Busy (k : SocketPtr) : Frame → Prop
  | out j pc => j = k ∧ pc.Continues
  | input j pc => j = k ∧ pc.Continues
  | connect _ => False

/-- Only calls of `Connect` are above an `In` or `Out`. -/
def Stacked : List Frame → Prop
  | [] => True
  | .connect _ :: rest => Stacked rest
  | .out _ _ :: rest | .input _ _ :: rest => rest = []

/-- What becomes of a frame that goes on. -/
structure GoesTo (f f' : Frame) : Prop where
  of : ∀ k, f'.Of k → f.Of k
  busy : ∀ k, f'.Busy k → f.Busy k
  start : ∀ k n, f' ≠ .out k (.start n)

end Frame

namespace EventLoop

variable {w w' : EventLoop σ}

/-- `Epoll::Poll` takes up the entry `ee` in the step `e`, and calls `In` or `Out` through it. -/
def CallsThrough (w : EventLoop σ) (ee : EpollEntryPtr) : LoopEvent → Prop
  | .callOut _ => ∃ iter, w.poll = .writeable iter ∧ w.epoll.writeable[iter]? = some ee
  | .check _ => ∃ stage e rest en, w.poll = .events stage (e :: rest) ∧ e.ptr = ee ∧
      w.epoll.entries ee = some en ∧ en.fd ≠ kInvalidFd ∧
      (match stage with
        | .error => e.events.errOrHup
        | .input => e.events.input
        | .output => e.events.output) = true
  | _ => False

/-- `Epoll::Poll` calls `In` or `Out` of the Socket `k` in the step `e`. -/
def Calls (w : EventLoop σ) (e : LoopEvent) (k : SocketPtr) : Prop :=
  ∃ ee en, w.CallsThrough ee e ∧ w.epoll.entries ee = some en ∧ en.event = k

/-- What a step does to the stack. -/
inductive Moves (w : EventLoop σ) (e : LoopEvent) (w' : EventLoop σ) : Prop
  | same : w'.stack = w.stack → Moves w e w'
  | connect (k : SocketPtr) : w'.stack = .connect k :: w.stack → Moves w e w'
  | call (k : SocketPtr) (f : Frame) : w.stack = [] → w'.stack = [f] → f.Of k →
      w.Calls e k → Moves w e w'
  | run (f f' : Frame) (rest : List Frame) : w.stack = f :: rest → w'.stack = f' :: rest →
      f.GoesTo f' → (∀ k, f' ≠ .connect k) → Moves w e w'
  | pop (f : Frame) (rest : List Frame) : w.stack = f :: rest → w'.stack = rest → Moves w e w'

end EventLoop

theorem Socket.outStep_continues {s s' : Socket} {pc next : OutPc}
    (h : s.outStep pc = some (s', some next)) (hnext : next.Continues) : pc.Continues := by
  cases pc with
  | finish n =>
    obtain ⟨-, hn⟩ := Prod.mk.inj (Option.some.inj h)
    split at hn
    · obtain rfl := Option.some.inj hn
      exact hnext
    · cases hn
  | onWrite => cases h
  | _ => trivial

theorem Socket.outStep_start {s s' : Socket} {pc : OutPc} {next : Option OutPc} {n : ℤ}
    (h : s.outStep pc = some (s', next)) : next ≠ some (.start n) := by
  rintro rfl
  cases pc with
  | start =>
    rw [outStep] at h
    split at h
    · split at h <;> cases h
    · cases h
  | sent =>
    rw [outStep] at h
    split at h
    · split at h <;> cases h
    · split at h <;> cases h
  | loop | send =>
    rw [outStep] at h
    split at h <;> cases h
  | connected | finish =>
    obtain ⟨-, hn⟩ := Prod.mk.inj (Option.some.inj h)
    split at hn <;> cases hn
  | onConnect | onError | close | onWrite => cases h

theorem Socket.afterWrite_start {ret n : ℤ} {r : WriteResult} : afterWrite ret r ≠ .start n := by
  intro h
  unfold afterWrite at h
  cases r with
  | bytes | zero => cases h
  | error errno =>
    dsimp only at h
    split at h
    · cases h
    · split at h <;> cases h

theorem Socket.inStep_continues {s : Socket} {pc next : InPc} (h : s.inStep pc = some (some next))
    (hnext : next.Continues) : pc.Continues := by
  cases pc with
  | finish =>
    have hn := Option.some.inj h
    split at hn
    · obtain rfl := Option.some.inj hn
      exact hnext
    · cases hn
  | onRead => cases h
  | _ => trivial

theorem Socket.outReturn_continues {pc next : OutPc} (h : outReturn pc = some (some next)) :
    pc.Continues := by
  cases pc with
  | onConnect | onError => trivial
  | _ => cases h

theorem Socket.inReturn_continues {pc next : InPc} (h : inReturn pc = some (some next)) :
    pc.Continues := by
  cases pc with
  | onError => trivial
  | _ => cases h

namespace EventLoop

variable {w w' : EventLoop σ} {e : LoopEvent} {k : SocketPtr} {rest : List Frame}

/-- `Out` goes on, or returns. -/
theorem Moves.out {pc : OutPc} {next : Option OutPc} (hstack : w.stack = .out k pc :: rest)
    (hstack' : w'.stack = (next.map (.out k)).toList ++ rest)
    (hcontinues : ∀ pc', next = some pc' → pc'.Continues → pc.Continues)
    (hstart : ∀ n, next ≠ some (.start n)) : w.Moves e w' := by
  cases next with
  | none => exact .pop _ _ hstack hstack'
  | some pc' =>
    refine .run _ _ _ hstack hstack'
      ⟨fun _ h => h, fun _ h => ⟨h.1, hcontinues pc' rfl h.2⟩, fun j n heq => ?_⟩ nofun
    exact hstart n (congrArg some (Frame.out.inj heq).2)

/-- `In` goes on, or returns. -/
theorem Moves.input {pc : InPc} {next : Option InPc} (hstack : w.stack = .input k pc :: rest)
    (hstack' : w'.stack = (next.map (.input k)).toList ++ rest)
    (hcontinues : ∀ pc', next = some pc' → pc'.Continues → pc.Continues) : w.Moves e w' := by
  cases next with
  | none => exact .pop _ _ hstack hstack'
  | some pc' =>
    exact .run _ _ _ hstack hstack'
      ⟨fun _ h => h, fun _ h => ⟨h.1, hcontinues pc' rfl h.2⟩, nofun⟩ nofun

/-- A check of an event calls `f` if the event has the bits it looks at. -/
theorem Moves.check {mask : Bool} {f : Frame} (hstack : w.stack = [])
    (hstack' : w'.stack = if mask then [f] else []) (hof : f.Of k)
    (hcalls : mask = true → w.Calls e k) : w.Moves e w' := by
  cases mask with
  | false => exact .same (hstack'.trans hstack.symm)
  | true => exact .call k f hstack hstack' hof (hcalls rfl)

theorem afterWrite_stack (w : EventLoop σ) (k : SocketPtr) (s : Socket) :
    (w.afterWrite k s).stack = w.stack := by
  unfold afterWrite
  split <;> rfl

theorem afterWrite_poll (w : EventLoop σ) (k : SocketPtr) (s : Socket) :
    (w.afterWrite k s).poll = w.poll := by
  unfold afterWrite
  split <;> rfl

end EventLoop

/-- What every step does to the stack. -/
theorem LoopStep.moves {w w' : EventLoop σ} {e : LoopEvent} (hs : LoopStep P w e w') :
    w.Moves e w' := by
  cases hs with
  | newClient | newServer | setPoller | connectAgain | connect | read | poll | epollWait
  | checkRetired | pollDone => exact .same rfl
  | write => exact .same (EventLoop.afterWrite_stack ..)
  | connectFails => exact .connect _ rfl
  | callOut n hstack hpoll hget hen =>
    exact .call _ _ hstack rfl rfl ⟨_, _, ⟨_, hpoll, hget⟩, Epoll.entry_eq_ok hen, rfl⟩
  | checkError hstack hpoll hen hfd | checkInput hstack hpoll hen hfd
  | checkOutput hstack hpoll hen hfd =>
    have hen' := Epoll.entry_eq_ok hen
    exact .check hstack rfl rfl fun hmask =>
      ⟨_, _, ⟨_, _, _, _, hpoll, rfl, hen', hfd, hmask⟩, hen', rfl⟩
  | outRun hstack _ hstep =>
    refine .out hstack rfl (fun pc' hnext => ?_) fun n hnext => ?_
    · subst hnext
      exact Socket.outStep_continues hstep
    · exact Socket.outStep_start hstep hnext
  | @outReturn _ _ pc _ _ hstack hreturn =>
    refine .out hstack rfl (fun pc' hnext _ => ?_) fun n hnext => ?_
    · subst hnext
      exact Socket.outReturn_continues hreturn
    · subst hnext
      cases pc <;> cases hreturn
  | inRun hstack _ hstep =>
    refine .input hstack rfl fun pc' hnext => ?_
    subst hnext
    exact Socket.inStep_continues hstep
  | inReturn hstack hreturn =>
    refine .input hstack rfl fun pc' hnext _ => ?_
    subst hnext
    exact Socket.inReturn_continues hreturn
  | @sysWriteFails _ _ _ _ r _ hstack =>
    refine .run _ _ _ hstack rfl ⟨fun _ h => h, fun _ h => ⟨h.1, trivial⟩, fun j n heq => ?_⟩ nofun
    exact Socket.afterWrite_start (Frame.out.inj heq).2
  | sysWrite hstack | sysRead hstack | sysReadFails hstack =>
    exact .run _ _ _ hstack rfl ⟨fun _ h => h, fun _ h => ⟨h.1, trivial⟩, nofun⟩ nofun
  | outClose hstack | inClose hstack => exact .pop _ _ hstack rfl
  | connectReturn hstack => exact .pop _ _ hstack rfl

theorem Frame.Stacked.tail {f : Frame} {rest : List Frame} (h : Stacked (f :: rest)) :
    Stacked rest := by
  cases f with
  | connect => exact h
  | out | input =>
    have hnil : rest = [] := h
    rw [hnil]
    trivial

theorem Frame.Stacked.singleton {f : Frame} {k : SocketPtr} (hof : f.Of k) : Stacked [f] := by
  cases f with
  | connect => exact hof.elim
  | out | input => rfl

/-- Nothing is below an `In` or `Out`. -/
theorem Frame.Stacked.nil {f : Frame} {rest : List Frame} {k : SocketPtr} (h : Stacked (f :: rest))
    (hof : f.Of k) : rest = [] := by
  cases f with
  | connect => exact hof.elim
  | out | input => exact h

/-- Nothing is below the `In` or `Out` that closes a descriptor. -/
theorem Frame.Stacked.closing {f : Frame} {rest : List Frame} {k : SocketPtr}
    (h : Stacked (f :: rest)) (hf : f = .out k .close ∨ f = .input k .close) : rest = [] := by
  rcases hf with rfl | rfl
  · exact h
  · exact h

theorem Frame.Stacked.step {w w' : EventLoop σ} {e : LoopEvent} (h : Stacked w.stack)
    (hm : w.Moves e w') : Stacked w'.stack := by
  cases hm with
  | same hstack' =>
    rw [hstack']
    exact h
  | connect k hstack' =>
    rw [hstack']
    exact h
  | call k f hstack hstack' hof hcalls =>
    rw [hstack']
    exact .singleton hof
  | run f f' rest hstack hstack' hgoes hne =>
    rw [hstack] at h
    rw [hstack']
    cases f' with
    | connect k => exact absurd rfl (hne k)
    | out k pc => exact h.nil (hgoes.of k rfl)
    | input k pc => exact h.nil (hgoes.of k rfl)
  | pop f rest hstack hstack' =>
    rw [hstack] at h
    rw [hstack']
    exact h.tail

namespace EventLoop

variable {w w' : EventLoop σ} {e : LoopEvent} {ee : EpollEntryPtr} {en : EpollEntry}

/-- `In` or `Out` of the Socket `k` comes to the `close` of its descriptor in the step `e`. -/
def Closing (w : EventLoop σ) (k : SocketPtr) (e : LoopEvent) : Prop :=
  e = .close ∧ ∃ f rest, w.stack = f :: rest ∧ (f = .out k .close ∨ f = .input k .close)

/-- An entry is left alone, or is that of a Socket whose descriptor is being closed, or is one of
those deleted. -/
theorem Change.entry (hs : w.Change e w') (h : w.Registered) (hen : w.epoll.entries ee = some en) :
    w'.epoll.entries ee = some en ∨
      (e = .close ∧ (∃ en', w'.epoll.entries ee = some en') ∧
        ∃ k s, w.Closing k e ∧ w.sockets k = some s ∧ s.handle = some ee ∧
          w'.sockets k = some { s with fdClosed := true }) ∨
      e = .pollDone ∧ ee ∈ w.epoll.retired := by
  have hadd : ∀ {fd event added handle}, w.epoll.add fd event added = (handle, w'.epoll) →
      w'.epoll.entries ee = some en := by
    intro fd event added handle hadd
    obtain ⟨-, -, hepoll⟩ | ⟨-, -, size, hepoll⟩ := Epoll.add_eq hadd
    · rw [hepoll]
      exact hen
    · rw [hepoll]
      exact (Epoll.setEntry_ne w.epoll _ (Nat.ne_of_lt (h.lt hen))).trans hen
  cases hs with
  | newClient _ _ _ _ _ _ _ _ _ hepoll | newServer _ _ _ _ _ _ _ _ _ hepoll
  | socket _ _ _ _ _ _ hepoll | none _ hepoll =>
    rw [hepoll]
    exact .inl hen
  | attach _ _ _ _ _ _ _ hadd' | connect _ _ _ _ _ _ _ _ hadd' => exact .inl (hadd hadd')
  | mark _ _ _ _ _ _ hepoll =>
    rw [hepoll, Epoll.markWriteable_entries]
    exact .inl hen
  | close k s f rest he hstack _ hf hk hdel hsockets =>
    cases hhandle : s.handle with
    | none =>
      rw [hhandle] at hdel
      rw [← Except.ok.inj hdel]
      exact .inl hen
    | some ee' =>
      rw [hhandle] at hdel
      obtain ⟨en', -, hepoll⟩ := Epoll.del_eq hdel
      rw [hepoll]
      by_cases heq : ee = ee'
      · subst heq
        refine .inr (.inl ⟨he, ⟨_, Epoll.setEntry_self w.epoll ..⟩, k, s, ⟨he, f, rest, hstack, hf⟩,
          hk, hhandle, ?_⟩)
        rw [hsockets]
        exact Function.update_self ..
      · exact .inl ((Epoll.setEntry_ne w.epoll _ heq).trans hen)
  | clear _ hepoll =>
    rw [hepoll]
    exact .inl hen
  | retire he _ hretired =>
    obtain ⟨-, -, hepoll⟩ := Epoll.processRetired_eq hretired
    by_cases hmem : ee ∈ w.epoll.retired
    · exact .inr (.inr ⟨he, hmem⟩)
    · rw [hepoll]
      exact .inl ((if_neg hmem).trans hen)

end EventLoop

end ServerKit
