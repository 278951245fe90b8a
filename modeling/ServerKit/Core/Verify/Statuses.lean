import ServerKit.Core.Verify.Batches
import ServerKit.Core.Connections

/-!
# How statuses and connections change

A Socket becomes `CONNECTING` in `Socket::Connect` and `CONNECTED` at the start of `Socket::Out`
(`EventLoop.Turned`). The rest is what a step of the thread changes in a connection.
-/

namespace ServerKit

open Lib

variable {σ : Type} {P : ObjectPool σ}

/-- The status of the Socket `k`, which is `s'` after a step. -/
inductive EventLoop.Turned (w : EventLoop σ) (e : LoopEvent) (w' : EventLoop σ) (k : SocketPtr)
    (s' : Socket) : Prop
  | same (s : Socket) : w.sockets k = some s → s'.type = s.type → s'.status = s.status →
      Turned w e w' k s'
  | new : w.sockets k = none → (s'.type = .client → s'.status = .init) → Turned w e w' k s'
  | connecting (s : Socket) (err : ℤ) (added : Bool) : w.sockets k = some s → s'.type = s.type →
      s.status = .init → s'.status = .connecting → e = .connect k err added → Turned w e w' k s'
  | connected (s : Socket) (n : ℤ) (rest : List Frame) : w.sockets k = some s → s'.type = s.type →
      s.status = .connecting → s'.status = .connected → e = .run →
      w.stack = .out k (.start n) :: rest → Turned w e w' k s'
  | closed (s : Socket) : w.sockets k = some s → s'.type = s.type → s'.status = .closed →
      Turned w e w' k s'

theorem Socket.outStep_status {s s' : Socket} {pc : OutPc} {next : Option OutPc}
    (h : s.outStep pc = some (s', next)) : s'.status = s.status ∨
      ∃ n, pc = .start n ∧ s.status = .connecting ∧ s'.status = .connected := by
  rcases outStep_eq h with rfl | rfl | ⟨n, hpc, hconnecting, rfl⟩
  · exact .inl rfl
  · exact .inl rfl
  · exact .inr ⟨n, hpc, hconnecting, rfl⟩

theorem EventLoop.afterWrite_sockets (w : EventLoop σ) (k : SocketPtr) (s : Socket) :
    ∃ isWritable, (w.afterWrite k s).sockets =
      Function.update w.sockets k (some (s.setWritable isWritable)) := by
  unfold afterWrite
  split
  · exact ⟨true, rfl⟩
  · exact ⟨s.isWritable, rfl⟩

/-- The status of a Socket after a step. -/
theorem LoopStep.turned {w w' : EventLoop σ} {e : LoopEvent} {k : SocketPtr} {s' : Socket}
    (hs : LoopStep P w e w') (hk : w'.sockets k = some s') : w.Turned e w' k s' := by
  -- the step writes the Socket `j`
  have hat : ∀ {j : SocketPtr} {t' : Socket}, w'.sockets = Function.update w.sockets j (some t') →
      (k = j → s' = t' → w.Turned e w' k s') → w.Turned e w' k s' := by
    intro j t' hsockets hself
    rcases EventLoop.sockets_update hsockets hk with ⟨heq, hst⟩ | ⟨-, hk⟩
    · exact hself heq hst
    · exact .same s' hk rfl rfl
  cases hs with
  | newClient _ hj =>
    refine hat rfl fun hkj hst => ?_
    subst hkj hst
    exact .new hj fun _ => rfl
  | newServer _ hj =>
    refine hat rfl fun hkj hst => ?_
    subst hkj hst
    exact .new hj nofun
  | setPoller _ hj | read _ hj | sysWrite _ hj | sysWriteFails _ hj | outClose _ hj | inClose _ hj
  | sysRead _ hj =>
    refine hat rfl fun hkj hst => ?_
    subst hkj hst
    exact .same _ hj rfl rfl
  | @write _ j t _ _ _ writeList _ hj =>
    obtain ⟨isWritable, hsockets⟩ := EventLoop.afterWrite_sockets _ j (t.setWriteList writeList)
    refine hat hsockets fun hkj hst => ?_
    subst hkj hst
    exact .same _ hj rfl rfl
  | connect _ hj _ hstatus | connectFails _ hj _ hstatus =>
    refine hat rfl fun hkj hst => ?_
    subst hkj hst
    exact .connecting _ _ _ hj rfl hstatus rfl rfl
  | outRun hstack hj hstep =>
    refine hat rfl fun hkj hst => ?_
    subst hkj hst
    have htype := (Socket.outStep_same hstep).type
    rcases Socket.outStep_status hstep with hsame | ⟨n, rfl, hconnecting, hconnected⟩
    · exact .same _ hj htype hsame
    · exact .connected _ n _ hj htype hconnecting hconnected rfl hstack
  | connectReturn _ hj =>
    refine hat rfl fun hkj hst => ?_
    subst hkj hst
    exact .closed _ hj rfl rfl
  | connectAgain | poll | callOut | epollWait | checkRetired | checkError | checkInput | checkOutput
  | pollDone | outReturn | inRun | sysReadFails | inReturn => exact .same s' hk rfl rfl

theorem LoopStep.type_eq {w w' : EventLoop σ} {e : LoopEvent} {k : SocketPtr} {s s' : Socket}
    (hs : LoopStep P w e w') (hk : w.sockets k = some s) (hk' : w'.sockets k = some s') :
    s'.type = s.type := by
  cases hs.turned hk' with
  | new hnone =>
    rw [hk] at hnone
    cases hnone
  | same t ht htype | connecting t _ _ ht htype | connected t _ _ ht htype | closed t ht htype =>
    obtain rfl := Option.some.inj (hk.symm.trans ht)
    exact htype

/-! ## Connections -/

namespace Net

variable {w : Net σ} {e : LoopEvent} {k : SocketPtr}

/-- The events that are returned in the step `e` have one of the Socket `k` among them. -/
def Returned (w : Net σ) (k : SocketPtr) (ev : EpollEvent) : LoopEvent → Prop
  | .epollWait events => ev ∈ events ∧ w.eventOf ev = some k
  | _ => False

/-- The entry of an event of the Socket. -/
theorem Returned.entry {ev : EpollEvent} (h : w.Returned k ev e) :
    ∃ en, w.loop.epoll.entries ev.ptr = some en ∧ en.event = k := by
  cases e with
  | epollWait events =>
    have heq := h.2
    unfold eventOf at heq
    exact Option.map_eq_some_iff.mp heq
  | _ => exact h.elim

/-- The connection of the Socket `k`, which is `c'` after the step `e`. -/
inductive Observed (w : Net σ) (k : SocketPtr) (e : LoopEvent) (c' : Connection) : Prop
  | same : (∀ ev, ¬ w.Returned k ev e) → c' = w.conns k → Observed w k e c'
  | returned (masks : List EventMask) : c' = (w.conns k).report masks →
      (∀ m, m ∈ masks ↔ ∃ ev, w.Returned k ev e ∧ ev.events = m) → Observed w k e c'
  | moved (src : List UInt8) (pc : InPc) (rest : List Frame) : e = .sysRead (.bytes src) →
      w.loop.stack = .input k pc :: rest → c' = (w.conns k).move src.length → Observed w k e c'
  | failed (s : Socket) (err : ℤ) (added : Bool) : e = .connect k err added →
      w.loop.sockets k = some s → s.status = .init → err ≠ kOK →
      c' = (w.conns k).onConnect err → Observed w k e c'
  | connected (s : Socket) (n : ℤ) (rest : List Frame) : e = .run →
      w.loop.stack = .out k (.start n) :: rest → w.loop.sockets k = some s →
      s.status = .connecting → c' = (w.conns k).onConnect kOK → Observed w k e c'

theorem observed (w : Net σ) (k : SocketPtr) (e : LoopEvent) : w.Observed k e (w.observe k e) := by
  unfold observe
  split
  · next events =>
    refine .returned _ rfl fun m => ?_
    rw [List.mem_map]
    constructor
    · rintro ⟨ev, hmem, hm⟩
      obtain ⟨hev, heq⟩ := List.mem_filter.mp hmem
      exact ⟨ev, ⟨hev, eq_of_beq heq⟩, hm⟩
    · rintro ⟨ev, ⟨hev, heq⟩, hm⟩
      exact ⟨ev, List.mem_filter.mpr ⟨hev, beq_iff_eq.mpr heq⟩, hm⟩
  · next src =>
    split
    · next j pc rest hstack =>
      split
      · next heq =>
        rw [heq] at hstack
        exact .moved src pc rest rfl hstack rfl
      · exact .same (fun _ h => h) rfl
    · exact .same (fun _ h => h) rfl
  · next j err added =>
    split
    · next s hj =>
      split
      · next hcond =>
        obtain ⟨rfl, hinit, herr⟩ := hcond
        exact .failed s err added rfl hj hinit herr rfl
      · exact .same (fun _ h => h) rfl
    · exact .same (fun _ h => h) rfl
  · split
    · next j n rest s hstack hk =>
      split
      · next hcond =>
        obtain ⟨rfl, hconnecting⟩ := hcond
        exact .connected s n rest rfl hstack hk hconnecting rfl
      · exact .same (fun _ h => h) rfl
    · exact .same (fun _ h => h) rfl
  · next hwait _ _ _ =>
    refine .same (fun ev h => ?_) rfl
    cases e with
    | epollWait events => exact hwait events rfl
    | _ => exact h

theorem observe_outcome (w : Net σ) (k : SocketPtr) (e : LoopEvent) :
    (w.observe k e).outcome = (w.conns k).outcome := by
  cases w.observed k e with
  | same _ h => rw [h]
  | returned _ h | moved _ _ _ _ _ h | failed _ _ _ _ _ _ _ h | connected _ _ _ _ _ _ _ h =>
    rw [h]
    rfl

theorem observe_arrived (w : Net σ) (k : SocketPtr) (e : LoopEvent) :
    (w.observe k e).arrived = (w.conns k).arrived := by
  cases w.observed k e with
  | same _ h => rw [h]
  | returned _ h | moved _ _ _ _ _ h | failed _ _ _ _ _ _ _ h | connected _ _ _ _ _ _ _ h =>
    rw [h]
    rfl

theorem observe_moved (w : Net σ) (k : SocketPtr) (e : LoopEvent) :
    (w.conns k).moved ≤ (w.observe k e).moved := by
  cases w.observed k e with
  | moved src _ _ _ _ h =>
    rw [h]
    exact Nat.le_add_right _ _
  | same _ h | returned _ h | failed _ _ _ _ _ _ _ h | connected _ _ _ _ _ _ _ h =>
    exact Nat.le_of_eq (congrArg Connection.moved h).symm

theorem observe_failureReported (w : Net σ) (k : SocketPtr) (e : LoopEvent) :
    (w.observe k e).failureReported = true ↔ (w.conns k).failureReported = true ∨
      (w.conns k).outcome = some false ∧ ∃ ev, w.Returned k ev e := by
  have hquiet : (∀ ev, ¬ w.Returned k ev e) →
      ((w.conns k).failureReported = true ↔ (w.conns k).failureReported = true ∨
        (w.conns k).outcome = some false ∧ ∃ ev, w.Returned k ev e) := by
    intro hno
    constructor
    · exact .inl
    · rintro (h | ⟨-, ev, hev⟩)
      · exact h
      · exact absurd hev (hno ev)
  cases w.observed k e with
  | same hno h =>
    rw [h]
    exact hquiet hno
  | returned masks h hmasks =>
    rw [h]
    unfold Connection.report
    rw [Bool.or_eq_true, Bool.and_eq_true, beq_iff_eq, Bool.not_eq_true', List.isEmpty_eq_false_iff,
      and_comm]
    refine or_congr_right (and_congr_right fun _ => ?_)
    constructor
    · intro hne
      obtain ⟨m, hm⟩ := List.exists_mem_of_ne_nil masks hne
      obtain ⟨ev, hev, -⟩ := (hmasks m).mp hm
      exact ⟨ev, hev⟩
    · rintro ⟨ev, hev⟩
      exact List.ne_nil_of_mem ((hmasks _).mpr ⟨ev, hev, rfl⟩)
  | moved src pc rest he _ h | failed _ _ _ he _ _ _ h | connected _ _ _ he _ _ _ h =>
    rw [h]
    subst he
    exact hquiet fun _ h => h

theorem observe_edge (w : Net σ) (k : SocketPtr) (e : LoopEvent) :
    ((w.observe k e).edge = (w.conns k).edge ∧
        ∀ ev, w.Returned k ev e → ev.events.input = false) ∨
      ((w.observe k e).edge = (w.conns k).arrived.length ∧
        ∃ ev, w.Returned k ev e ∧ ev.events.input = true) := by
  cases w.observed k e with
  | same hno h =>
    rw [h]
    exact .inl ⟨rfl, fun ev hev => absurd hev (hno ev)⟩
  | returned masks h hmasks =>
    rw [h]
    unfold Connection.report
    cases hany : masks.any EventMask.input with
    | true =>
      obtain ⟨m, hm, hinput⟩ := List.any_eq_true.mp hany
      obtain ⟨ev, hev, rfl⟩ := (hmasks m).mp hm
      exact .inr ⟨rfl, ev, hev, hinput⟩
    | false =>
      refine .inl ⟨rfl, fun ev hev => ?_⟩
      exact eq_false_of_ne_true (List.any_eq_false.mp hany _ ((hmasks _).mpr ⟨ev, hev, rfl⟩))
  | moved src pc rest he _ h | failed _ _ _ he _ _ _ h | connected _ _ _ he _ _ _ h =>
    rw [h]
    subst he
    exact .inl ⟨rfl, fun _ h => h.elim⟩

/-- The calls of `OnConnect` in a step. -/
theorem observe_onConnects (w : Net σ) (k : SocketPtr) (e : LoopEvent) :
    (w.observe k e).onConnects = (w.conns k).onConnects ∨
      (∃ s err added, e = .connect k err added ∧ w.loop.sockets k = some s ∧ s.status = .init ∧
        err ≠ kOK ∧ (w.observe k e).onConnects = (w.conns k).onConnects ++ [err]) ∨
      ∃ s n rest, e = .run ∧ w.loop.stack = .out k (.start n) :: rest ∧ w.loop.sockets k = some s ∧
        s.status = .connecting ∧ (w.observe k e).onConnects = (w.conns k).onConnects ++ [kOK] := by
  cases w.observed k e with
  | same _ h | returned _ h | moved _ _ _ _ _ h => exact .inl (h ▸ rfl)
  | failed s err added he hk hinit herr h =>
    exact .inr (.inl ⟨s, err, added, he, hk, hinit, herr, congrArg Connection.onConnects h⟩)
  | connected s n rest he hstack hk hconnecting h =>
    exact .inr (.inr ⟨s, n, rest, he, hstack, hk, hconnecting, congrArg Connection.onConnects h⟩)

/-- The connections after a step of the kernel. -/
theorem setConn_conns {c : Connection} {R : Connection → Connection → Prop}
    (hself : R (w.conns k) c) (hrefl : ∀ c', R c' c') (j : SocketPtr) :
    R (w.conns j) ((w.setConn k c).conns j) := by
  by_cases heq : j = k
  · subst heq
    have hconn : (w.setConn j c).conns j = c := Function.update_self ..
    rw [hconn]
    exact hself
  · have hconn : (w.setConn k c).conns j = w.conns j := Function.update_of_ne heq ..
    rw [hconn]
    exact hrefl _

/-! ## Answers of the kernel -/

theorem answers_connect {s : Socket} (hk : w.loop.sockets k = some s) (hfd : s.fd ≠ kInvalidFd)
    (err : ℤ) (added : Bool) : w.Answers (.connect k err added) := by
  intro _ s' hk'
  obtain rfl := Option.some.inj (hk.symm.trans hk')
  exact hfd

theorem answers_setPoller {s : Socket} (hk : w.loop.sockets k = some s) (hfd : s.fd ≠ kInvalidFd)
    (added : Bool) : w.Answers (.setPoller k added) := by
  intro _ s' hk'
  obtain rfl := Option.some.inj (hk.symm.trans hk')
  exact hfd

theorem answers_epollWait {ev : EpollEvent} {en : EpollEntry} {s : Socket}
    (hen : w.loop.epoll.entries ev.ptr = some en) (hfd : en.fd ≠ kInvalidFd)
    (hk : w.loop.sockets en.event = some s) (hopen : s.fdClosed = false)
    (houtcome : s.type = .client → (w.conns en.event).outcome ≠ none ∧
      ((w.conns en.event).outcome = some false → ev.events.errOrHup = true)) :
    w.Answers (.epollWait [ev]) := by
  intro ev' hmem
  obtain rfl := List.mem_singleton.mp hmem
  exact ⟨en, s, hen, hfd, hk, hopen, houtcome⟩

theorem answers_sysRead {s : Socket} {pc : InPc} {rest : List Frame} {r : ReadResult}
    (hstack : w.loop.stack = .input k pc :: rest) (hk : w.loop.sockets k = some s)
    (h : Readable (w.conns k) s r) : w.Answers (.sysRead r) := by
  intro k' pc' rest' s' hstack' hk'
  obtain ⟨heq, -⟩ := List.cons.inj (hstack.symm.trans hstack')
  obtain ⟨rfl, -⟩ := Frame.input.inj heq
  obtain rfl := Option.some.inj (hk.symm.trans hk')
  exact h

end Net

end ServerKit
