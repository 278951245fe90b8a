import ServerKit.Core.Verify.Statuses
import ServerKit.Base.ObjectPool

/-!
# What a client Socket says of its connect

`Epoll::Poll` calls `In` for `EPOLLERR` and `EPOLLHUP`, which returns at once while the Socket is
`CONNECTING`, and `Out` for `EPOLLOUT`, which takes the connect for a success. So nothing tells a
failed connect: its `OnConnect` is called with `kOK`, or not at all. A connect whose failure has not
been reported is right (`Net.Connects`).
-/

namespace ServerKit

open Lib

variable {σ : Type} {P : ObjectPool σ}

namespace Net

/-- The connect of the Socket has succeeded, or an event has reported that it failed. -/
def Known (w : Net σ) (k : SocketPtr) : Prop :=
  (w.conns k).outcome = some true ∨ (w.conns k).failureReported = true

/-- What is said of the connects of client Sockets. -/
structure Connects (w : Net σ) : Prop where
  registered : w.loop.Registered
  unborn : ∀ k, w.loop.sockets k = none → (w.conns k).onConnects = []
  reported : ∀ k, (w.conns k).failureReported = true →
    ∃ s, w.loop.sockets k = some s ∧ s.status ≠ .init
  init : ∀ k s, w.loop.sockets k = some s → s.status = .init → (w.conns k).onConnects = []
  failed : ∀ k err, err ∈ (w.conns k).onConnects → err ≠ kOK →
    (∃ s, w.loop.sockets k = some s ∧ s.type = .client) ∧
      (w.conns k).failureReported = false ∧
      ∀ ee en, w.loop.epoll.entries ee = some en → en.event ≠ k
  known : ∀ k s, w.loop.sockets k = some s → s.type = .client →
    s.status = .connected ∨ kOK ∈ (w.conns k).onConnects → w.Known k
  allocated : ∀ p ∈ w.loop.poll.batch, p.2.ptr < w.loop.epoll.nextEntry
  batch : ∀ p ∈ w.loop.poll.batch, ∀ en s, w.loop.epoll.entries p.2.ptr = some en →
    w.loop.sockets en.event = some s → s.type = .client → w.Known en.event
  start : ∀ k n, .out k (.start n) ∈ w.loop.stack →
    ∃ s, w.loop.sockets k = some s ∧ (s.type = .client → w.Known k)

variable {w w' : Net σ} {e : LoopEvent} {loop : EventLoop σ} {k : SocketPtr} {s : Socket}

theorem Known.observe (h : w.Known k) (e : LoopEvent) (loop : EventLoop σ) :
    (⟨loop, fun k => w.observe k e⟩ : Net σ).Known k := by
  rcases h with h | h
  · exact .inl ((w.observe_outcome k e).trans h)
  · exact .inr ((w.observe_failureReported k e).mpr (.inl h))

/-- `Epoll::Poll` calls only Sockets whose connect is known to have ended. -/
theorem Connects.calls (h : w.Connects) (hcalls : w.loop.Calls e k) :
    ∃ s, w.loop.sockets k = some s ∧ (s.type = .client → w.Known k) := by
  obtain ⟨ee, en, hthrough, hen, rfl⟩ := hcalls
  obtain ⟨s, hk, -⟩ := h.registered.entry ee en hen
  refine ⟨s, hk, fun hclient => ?_⟩
  rcases hthrough.pending_or_due with hmem | ⟨⟨p, hmem, rfl, -⟩, -⟩
  · -- `writeable_list_` has entries of server Sockets only
    obtain ⟨j, t, hj, hee⟩ := h.registered.writeable ee (List.mem_of_mem_drop hmem)
    obtain ⟨-, hserver, -, hevent⟩ := h.registered.handle j t ee hj hee
    rw [hevent en hen, hj] at hk
    obtain rfl := Option.some.inj hk
    rw [hserver] at hclient
    cases hclient
  · exact h.batch p hmem en s hen hk hclient

/-- What was called before, or is called in the step. -/
theorem mem_onConnects {err : ℤ} (hmem : err ∈ (w.observe k e).onConnects) :
    err ∈ (w.conns k).onConnects ∨
      (err ≠ kOK ∧ ∃ s added, e = .connect k err added ∧ w.loop.sockets k = some s ∧
        s.status = .init) ∨
      err = kOK ∧ ∃ s n rest, e = .run ∧ w.loop.stack = .out k (.start n) :: rest ∧
        w.loop.sockets k = some s ∧ s.status = .connecting := by
  rcases w.observe_onConnects k e with hsame | ⟨s, err', added, he, hk, hinit, herr, happend⟩ |
    ⟨s, n, rest, he, hstack, hk, hconnecting, happend⟩
  · rw [hsame] at hmem
    exact .inl hmem
  · rw [happend] at hmem
    rcases List.mem_append.mp hmem with hmem | hmem
    · exact .inl hmem
    · obtain rfl := List.mem_singleton.mp hmem
      exact .inr (.inl ⟨herr, s, added, he, hk, hinit⟩)
  · rw [happend] at hmem
    rcases List.mem_append.mp hmem with hmem | hmem
    · exact .inl hmem
    · exact .inr (.inr ⟨List.mem_singleton.mp hmem, s, n, rest, he, hstack, hk, hconnecting⟩)

/-! ## The steps of the thread -/

theorem Connects.unborn_step (h : w.Connects) (hs : LoopStep P w.loop e loop)
    (hk : loop.sockets k = none) : (w.observe k e).onConnects = [] := by
  have hnone : w.loop.sockets k = none := by
    refine Option.eq_none_iff_forall_ne_some.mpr fun s hs' => ?_
    obtain ⟨s', hk', -⟩ := hs.change.keep hs'
    rw [hk] at hk'
    cases hk'
  rcases w.observe_onConnects k e with hsame | ⟨s, -, -, -, hk', -⟩ | ⟨s, -, -, -, -, hk', -⟩
  · exact hsame.trans (h.unborn k hnone)
  · rw [hnone] at hk'
    cases hk'
  · rw [hnone] at hk'
    cases hk'

theorem Connects.reported_step (h : w.Connects) (hs : LoopStep P w.loop e loop)
    (hreported : (w.observe k e).failureReported = true) :
    ∃ s, loop.sockets k = some s ∧ s.status ≠ .init := by
  have hbefore : ∃ s, w.loop.sockets k = some s ∧ s.status ≠ .init := by
    rcases (w.observe_failureReported k e).mp hreported with hold | ⟨-, ev, hev⟩
    · exact h.reported k hold
    · obtain ⟨en, hen, rfl⟩ := hev.entry
      obtain ⟨s, hk, hstatus, -⟩ := h.registered.entry _ en hen
      exact ⟨s, hk, hstatus⟩
  obtain ⟨s, hk, hstatus⟩ := hbefore
  obtain ⟨s', hk', -⟩ := hs.change.keep hk
  refine ⟨s', hk', fun hinit => ?_⟩
  cases hs.turned hk' with
  | same t ht _ hsame =>
    obtain rfl := Option.some.inj (hk.symm.trans ht)
    exact hstatus (hsame.symm.trans hinit)
  | new hnone =>
    rw [hk] at hnone
    cases hnone
  | connecting t _ _ _ _ _ hturned | connected t _ _ _ _ _ hturned | closed t _ _ hturned =>
    rw [hturned] at hinit
    cases hinit

/-- A `Connect` that calls `OnConnect` with an error. -/
theorem connect_fails {err : ℤ} {added : Bool} (hs : LoopStep P w.loop (.connect k err added) loop)
    (hk : w.loop.sockets k = some s) (hinit : s.status = .init) (herr : err ≠ kOK) :
    s.type = .client ∧ loop.epoll = w.loop.epoll ∧
      loop.sockets k = some (s.setStatus .connecting) := by
  cases hs with
  | connectAgain _ hk' _ hstatus =>
    obtain rfl := Option.some.inj (hk.symm.trans hk')
    exact absurd hinit hstatus
  | connect => exact absurd rfl herr
  | connectFails _ hk' htype =>
    obtain rfl := Option.some.inj (hk.symm.trans hk')
    exact ⟨htype, rfl, Function.update_self ..⟩

theorem Connects.init_step (h : w.Connects) (hs : LoopStep P w.loop e loop)
    (hk : loop.sockets k = some s) (hinit : s.status = .init) :
    (w.observe k e).onConnects = [] := by
  rcases w.observe_onConnects k e with hsame | ⟨t, err, added, rfl, ht, htinit, herr, -⟩ |
    ⟨t, n, rest, -, -, ht, hconnecting, -⟩
  · rw [hsame]
    cases hs.turned hk with
    | same t ht _ hturned => exact h.init k t ht (hturned.symm.trans hinit)
    | new hnone => exact h.unborn k hnone
    | connecting _ _ _ _ _ _ hturned | connected _ _ _ _ _ _ hturned | closed _ _ _ hturned =>
      rw [hturned] at hinit
      cases hinit
  · obtain ⟨-, -, hk'⟩ := connect_fails hs ht htinit herr
    obtain rfl := Option.some.inj (hk.symm.trans hk')
    cases hinit
  · cases hs.turned hk with
    | same t' ht' _ hturned =>
      obtain rfl := Option.some.inj (ht.symm.trans ht')
      rw [hturned, hconnecting] at hinit
      cases hinit
    | new hnone =>
      rw [ht] at hnone
      cases hnone
    | connecting _ _ _ _ _ _ hturned | connected _ _ _ _ _ _ hturned | closed _ _ _ hturned =>
      rw [hturned] at hinit
      cases hinit

theorem Connects.failed_step (h : w.Connects) (hs : LoopStep P w.loop e loop) {err : ℤ}
    (hmem : err ∈ (w.observe k e).onConnects) (herr : err ≠ kOK) :
    (∃ s, loop.sockets k = some s ∧ s.type = .client) ∧
      (w.observe k e).failureReported = false ∧
      ∀ ee en, loop.epoll.entries ee = some en → en.event ≠ k := by
  rcases mem_onConnects hmem with hmem | ⟨-, t, added, rfl, ht, hinit⟩ | ⟨hok, -⟩
  · obtain ⟨⟨t, ht, hclient⟩, hnot, hentries⟩ := h.failed k err hmem herr
    refine ⟨?_, ?_, fun ee en hen hevent => ?_⟩
    · obtain ⟨s', hk', -⟩ := hs.change.keep ht
      exact ⟨s', hk', (hs.type_eq ht hk').trans hclient⟩
    · refine eq_false_of_ne_true fun hreported => ?_
      rcases (w.observe_failureReported k e).mp hreported with hold | ⟨-, ev, hev⟩
      · rw [hnot] at hold
        cases hold
      · obtain ⟨en, hen, hevent⟩ := hev.entry
        exact hentries _ en hen hevent
    · rcases hs.change.new_entry h.registered hen with ⟨en', hen', heq⟩ | ⟨t', ht', -, hnew⟩
      · exact hentries ee en' hen' (heq.symm.trans hevent)
      · rw [hevent] at ht'
        obtain rfl := Option.some.inj (ht.symm.trans ht')
        rcases hnew with ⟨-, hpoller⟩ | ⟨-, -, hinit⟩
        · rw [h.registered.client k t ht hclient] at hpoller
          cases hpoller
        · rw [h.init k t ht hinit] at hmem
          cases hmem
  · obtain ⟨hclient, hepoll, hk'⟩ := connect_fails hs ht hinit herr
    refine ⟨⟨_, hk', hclient⟩, ?_, fun ee en hen hevent => ?_⟩
    · refine eq_false_of_ne_true fun hreported => ?_
      rcases (w.observe_failureReported k _).mp hreported with hold | ⟨-, ev, hev⟩
      · obtain ⟨t', ht', hstatus⟩ := h.reported k hold
        obtain rfl := Option.some.inj (ht.symm.trans ht')
        exact hstatus hinit
      · exact hev
    · rw [hepoll] at hen
      obtain ⟨t', ht', hstatus, -⟩ := h.registered.entry ee en hen
      rw [hevent] at ht'
      obtain rfl := Option.some.inj (ht.symm.trans ht')
      exact hstatus hinit
  · exact absurd hok herr

theorem Connects.known_step (h : w.Connects) (hs : LoopStep P w.loop e loop)
    (hk : loop.sockets k = some s) (hclient : s.type = .client)
    (hsaid : s.status = .connected ∨ kOK ∈ (w.observe k e).onConnects) : w.Known k := by
  have hstart : ∀ {t n rest}, w.loop.stack = .out k (.start n) :: rest →
      w.loop.sockets k = some t → t.type = .client → w.Known k := by
    intro t n rest hstack ht htype
    obtain ⟨t', ht', hknown⟩ := h.start k n (hstack ▸ List.mem_cons_self)
    obtain rfl := Option.some.inj (ht.symm.trans ht')
    exact hknown htype
  have hbefore : ∀ {t}, w.loop.sockets k = some t → s.type = t.type →
      (s.status = .connected → t.status = .connected ∨ ∃ n rest,
        w.loop.stack = .out k (.start n) :: rest) → w.Known k := by
    intro t ht htype hstatus
    have htclient := htype.symm.trans hclient
    rcases hsaid with hconnected | hmem
    · rcases hstatus hconnected with hconnected | ⟨n, rest, hstack⟩
      · exact h.known k t ht htclient (.inl hconnected)
      · exact hstart hstack ht htclient
    · rcases mem_onConnects hmem with hmem | ⟨herr, -⟩ | ⟨-, -, n, rest, -, hstack, -⟩
      · exact h.known k t ht htclient (.inr hmem)
      · exact absurd rfl herr
      · exact hstart hstack ht htclient
  cases hs.turned hk with
  | same t ht htype hturned => exact hbefore ht htype fun hc => .inl (hturned.symm.trans hc)
  | new hnone hnew =>
    rcases hsaid with hconnected | hmem
    · rw [hnew hclient] at hconnected
      cases hconnected
    · rcases mem_onConnects hmem with hmem | ⟨herr, -⟩ | ⟨-, t, -, -, -, -, ht, -⟩
      · rw [h.unborn k hnone] at hmem
        cases hmem
      · exact absurd rfl herr
      · rw [hnone] at ht
        cases ht
  | connecting t _ _ ht htype _ hturned | closed t ht htype hturned =>
    refine hbefore ht htype fun hc => ?_
    rw [hturned] at hc
    cases hc
  | connected t n rest ht htype _ _ _ hstack =>
    exact hbefore ht htype fun _ => .inr ⟨n, rest, hstack⟩

theorem Connects.batch_step (h : w.Connects) (hanswers : w.Answers e)
    (hs : LoopStep P w.loop e loop) {p : EventStage × EpollEvent} (hmem : p ∈ loop.poll.batch) :
    p.2.ptr < loop.epoll.nextEntry ∧ ∀ en s, loop.epoll.entries p.2.ptr = some en →
      loop.sockets en.event = some s → s.type = .client →
      (⟨loop, fun k => w.observe k e⟩ : Net σ).Known en.event := by
  have hages := h.registered.ages hs.change
  rcases hs.batch hmem with ⟨stage', hmem', -⟩ | ⟨events, hreports, hev⟩
  · have hlt := h.allocated _ hmem'
    refine ⟨Nat.lt_of_lt_of_le hlt hages.next, fun en s hen hk hclient => ?_⟩
    obtain ⟨en₀, hen₀, heq⟩ := hages.event _ hlt en hen
    rw [heq] at hk ⊢
    obtain ⟨t, ht, -⟩ := h.registered.entry _ en₀ hen₀
    exact (h.batch _ hmem' en₀ t hen₀ ht ((hs.type_eq ht hk).symm.trans hclient)).observe e loop
  · cases e with
    | epollWait events' =>
      rw [← show events' = events from hreports] at hev
      obtain ⟨en₀, t, hen₀, -, ht, -, houtcome⟩ := hanswers _ hev
      have hlt := h.registered.lt hen₀
      refine ⟨Nat.lt_of_lt_of_le hlt hages.next, fun en s hen hk hclient => ?_⟩
      obtain ⟨en₁, hen₁, heq⟩ := hages.event _ hlt en hen
      obtain rfl := Option.some.inj (hen₀.symm.trans hen₁)
      rw [heq] at hk ⊢
      have hended := (houtcome ((hs.type_eq ht hk).symm.trans hclient)).1
      cases ho : (w.conns en₀.event).outcome with
      | none => exact absurd ho hended
      | some ok =>
        cases ok with
        | true => exact .inl ((w.observe_outcome _ _).trans ho)
        | false =>
          have hof : w.eventOf p.2 = some en₀.event := by
            unfold eventOf
            rw [hen₀]
            rfl
          exact .inr ((w.observe_failureReported _ _).mpr (.inr ⟨ho, p.2, hev, hof⟩))
    | _ => exact hreports.elim

theorem Connects.start_step (h : w.Connects) (hs : LoopStep P w.loop e loop) {n : ℤ}
    (hmem : .out k (.start n) ∈ loop.stack) :
    ∃ s, loop.sockets k = some s ∧ (s.type = .client → w.Known k) := by
  have hbefore : ∃ s, w.loop.sockets k = some s ∧ (s.type = .client → w.Known k) := by
    cases hs.moves with
    | same hstack' =>
      rw [hstack'] at hmem
      exact h.start k n hmem
    | connect j hstack' =>
      rw [hstack'] at hmem
      rcases List.mem_cons.mp hmem with heq | hmem
      · cases heq
      · exact h.start k n hmem
    | call j f hstack hstack' hof hcalls =>
      rw [hstack'] at hmem
      obtain rfl := List.mem_singleton.mp hmem
      obtain rfl : k = j := hof
      exact h.calls hcalls
    | run f f' rest hstack hstack' hgoes hne =>
      rw [hstack'] at hmem
      rcases List.mem_cons.mp hmem with heq | hmem
      · exact absurd heq.symm (hgoes.start k n)
      · exact h.start k n (hstack ▸ List.mem_cons_of_mem _ hmem)
    | pop f rest hstack hstack' =>
      rw [hstack'] at hmem
      exact h.start k n (hstack ▸ List.mem_cons_of_mem _ hmem)
  obtain ⟨s, hk, hknown⟩ := hbefore
  obtain ⟨s', hk', -⟩ := hs.change.keep hk
  exact ⟨s', hk', fun hclient => hknown ((hs.type_eq hk hk').symm.trans hclient)⟩

theorem Connects.step_loop (h : w.Connects) (hanswers : w.Answers e)
    (hs : LoopStep P w.loop e loop) : (⟨loop, fun k => w.observe k e⟩ : Net σ).Connects where
  registered := h.registered.step hs.change
  unborn _ hk := h.unborn_step hs hk
  reported _ hreported := h.reported_step hs hreported
  init _ _ hk hinit := h.init_step hs hk hinit
  failed _ _ hmem herr := h.failed_step hs hmem herr
  known _ _ hk hclient hsaid := (h.known_step hs hk hclient hsaid).observe e loop
  allocated _ hmem := (h.batch_step hanswers hs hmem).1
  batch _ hmem := (h.batch_step hanswers hs hmem).2
  start _ _ hmem := by
    obtain ⟨s, hk, hknown⟩ := h.start_step hs hmem
    exact ⟨s, hk, fun hclient => (hknown hclient).observe e loop⟩

/-! ## Runs -/

/-- A step of the kernel, which makes no call. -/
theorem Connects.setConn (h : w.Connects) {c : Connection}
    (hsame : c.onConnects = (w.conns k).onConnects ∧
      c.failureReported = (w.conns k).failureReported)
    (houtcome : (w.conns k).outcome = some true → c.outcome = some true) :
    (w.setConn k c).Connects := by
  have hconn : ∀ j, ((w.setConn k c).conns j).onConnects = (w.conns j).onConnects ∧
      ((w.setConn k c).conns j).failureReported = (w.conns j).failureReported ∧
      ((w.conns j).outcome = some true → ((w.setConn k c).conns j).outcome = some true) :=
    setConn_conns (R := fun c₀ c₁ => c₁.onConnects = c₀.onConnects ∧
      c₁.failureReported = c₀.failureReported ∧
      (c₀.outcome = some true → c₁.outcome = some true))
      ⟨hsame.1, hsame.2, houtcome⟩ fun _ => ⟨rfl, rfl, id⟩
  have hknown : ∀ j, w.Known j → (w.setConn k c).Known j := by
    rintro j (ho | hr)
    · exact .inl ((hconn j).2.2 ho)
    · exact .inr ((hconn j).2.1.trans hr)
  refine ⟨h.registered, fun j hj => (hconn j).1.trans (h.unborn j hj),
    fun j hr => h.reported j ((hconn j).2.1.symm.trans hr),
    fun j s hj hinit => (hconn j).1.trans (h.init j s hj hinit), fun j err hmem herr => ?_,
    fun j s hj hclient hsaid => ?_, h.allocated,
    fun p hmem en s hen hj hclient => hknown _ (h.batch p hmem en s hen hj hclient),
    fun j n hmem => ?_⟩
  · rw [(hconn j).1] at hmem
    obtain ⟨hsocket, hnot, hentries⟩ := h.failed j err hmem herr
    exact ⟨hsocket, (hconn j).2.1.trans hnot, hentries⟩
  · rw [(hconn j).1] at hsaid
    exact hknown j (h.known j s hj hclient hsaid)
  · obtain ⟨s, hj, himp⟩ := h.start j n hmem
    exact ⟨s, hj, fun hclient => hknown j (himp hclient)⟩

/-- **The step lemma.** -/
theorem Connects.step {e : NetEvent} (h : w.Connects) (hs : NetStep P w e w') : w'.Connects := by
  cases hs with
  | loop hanswers hs => exact h.step_loop hanswers hs
  | connectDone _ _ _ hnone =>
    refine h.setConn ⟨rfl, rfl⟩ fun ho => ?_
    rw [hnone] at ho
    cases ho
  | arrive bytes => exact h.setConn ⟨rfl, rfl⟩ id

theorem new_connects {loop : EventLoop σ} (h : loop.Start) : (Net.new loop).Connects := by
  have hregistered := h.registered
  obtain ⟨hsockets, -, hpoll, hstack⟩ := h
  have hnone : ∀ {k s}, loop.sockets k ≠ some s := by
    intro k s hk
    rw [hsockets k] at hk
    cases hk
  have hbatch : ∀ {p}, p ∉ (Net.new loop).loop.poll.batch := by
    intro p hmem
    have hmem : p ∈ loop.poll.batch := hmem
    rw [hpoll] at hmem
    cases hmem
  refine ⟨hregistered, fun _ _ => rfl, nofun, fun k s hk => absurd hk hnone, nofun,
    fun k s hk => absurd hk hnone, fun p hmem => absurd hmem hbatch,
    fun p hmem => absurd hmem hbatch, fun k n hmem => ?_⟩
  have hmem : .out k (.start n) ∈ loop.stack := hmem
  rw [hstack] at hmem
  cases hmem

/-- What is to hold of the client Socket `k`: it is `CONNECTED`, and has said so, only when its
connect has succeeded; and between two rounds it has said that its connect failed if an event has
reported that. -/
def ConnectOk (w : Net σ) (k : SocketPtr) : Prop :=
  (∀ s, w.loop.sockets k = some s → s.status = .connected → (w.conns k).outcome = some true) ∧
  (kOK ∈ (w.conns k).onConnects → (w.conns k).outcome = some true) ∧
  (w.loop.poll = .idle → w.loop.stack = [] → (w.conns k).failureReported = true →
    (∃ err ∈ (w.conns k).onConnects, err ≠ kOK) ∧ kOK ∉ (w.conns k).onConnects)

end Net

/-- **When a client Socket is right about its connect.** In every run: as long as no event has
reported that the connect of a client Socket failed, it is right; and between two rounds it is right
only then. -/
theorem connect_ok_iff {loop : EventLoop σ} {w : Net σ} {es : List NetEvent} {k : SocketPtr}
    {s : Socket} (h₀ : loop.Start) (hrun : Run (NetStep P) (.new loop) es w)
    (hk : w.loop.sockets k = some s) (hclient : s.type = .client) :
    ((w.conns k).failureReported = false → w.ConnectOk k) ∧
      (w.loop.poll = .idle → w.loop.stack = [] →
        (w.ConnectOk k ↔ (w.conns k).failureReported = false)) := by
  have h : w.Connects := hrun.invariant Net.Connects (fun _ _ _ h hs => h.step hs)
    (Net.new_connects h₀)
  have hright : (w.conns k).failureReported = false → w.ConnectOk k := by
    intro hnot
    have houtcome : w.Known k → (w.conns k).outcome = some true := by
      rintro (ho | hr)
      · exact ho
      · rw [hnot] at hr
        cases hr
    refine ⟨fun t ht hconnected => ?_, fun hmem => ?_, fun _ _ hr => ?_⟩
    · obtain rfl := Option.some.inj (hk.symm.trans ht)
      exact houtcome (h.known k s hk hclient (.inl hconnected))
    · exact houtcome (h.known k s hk hclient (.inr hmem))
    · rw [hnot] at hr
      cases hr
  refine ⟨hright, fun hpoll hstack => ⟨fun hok => ?_, hright⟩⟩
  refine eq_false_of_ne_true fun hr => ?_
  obtain ⟨⟨err, hmem, herr⟩, -⟩ := hok.2.2 hpoll hstack hr
  obtain ⟨-, hnot, -⟩ := h.failed k err hmem herr
  rw [hnot] at hr
  cases hr

/-- A connect succeeds. -/
theorem connect_ok_succeeds : ∃ w s,
    Run (NetStep objectPool) (.new EventLoop.twoBuffers)
      [.loop (.newClient 0 5 true), .loop (.connect 0 kOK true), .connectDone 0 true, .loop .poll,
        .loop (.epollWait [⟨0, ⟨false, false, true⟩⟩]), .loop (.check 0), .loop (.check 0),
        .loop (.check 0), .loop .run, .loop .ret, .loop .run, .loop .run, .loop .run,
        .loop .pollDone] w ∧
    w.loop.sockets 0 = some s ∧ s.status = .connected ∧ (w.conns 0).onConnects = [kOK] ∧
      w.ConnectOk 0 := by
  obtain ⟨w, s, hrun, hk, hclient, hstatus, honConnects, hnot⟩ : ∃ w s,
      Run (NetStep objectPool) (.new EventLoop.twoBuffers)
        [.loop (.newClient 0 5 true), .loop (.connect 0 kOK true), .connectDone 0 true,
          .loop .poll, .loop (.epollWait [⟨0, ⟨false, false, true⟩⟩]), .loop (.check 0),
          .loop (.check 0), .loop (.check 0), .loop .run, .loop .ret, .loop .run, .loop .run,
          .loop .run, .loop .pollDone] w ∧
      w.loop.sockets 0 = some s ∧ s.type = .client ∧ s.status = .connected ∧
        (w.conns 0).onConnects = [kOK] ∧ (w.conns 0).failureReported = false := by
    have hfd : (5 : ℤ) ≠ kInvalidFd := by decide
    exact ⟨_, _, .cons (.loop trivial (.newClient rfl rfl rfl rfl)) <|
      .cons (.loop (Net.answers_connect rfl hfd kOK true) (.connect rfl rfl rfl rfl rfl)) <|
      .cons (.connectDone rfl rfl nofun rfl) <|
      .cons (.loop trivial (.poll rfl rfl)) <|
      .cons (.loop (Net.answers_epollWait rfl hfd rfl rfl fun _ => ⟨nofun, nofun⟩)
        (.epollWait _ rfl rfl (Nat.le_refl _) (by decide))) <|
      .cons (.loop trivial (.checkError rfl rfl rfl hfd)) <|
      .cons (.loop trivial (.checkInput rfl rfl rfl hfd)) <|
      .cons (.loop trivial (.checkOutput rfl rfl rfl hfd)) <|
      .cons (.loop trivial (.outRun rfl rfl rfl)) <|
      .cons (.loop trivial (.outReturn rfl rfl)) <|
      .cons (.loop trivial (.outRun rfl rfl rfl)) <|
      .cons (.loop trivial (.outRun rfl rfl rfl)) <|
      .cons (.loop trivial (.outRun rfl rfl rfl)) <|
      .single (.loop trivial (.pollDone rfl rfl rfl)), rfl, rfl, rfl, rfl, rfl⟩
  exact ⟨w, s, hrun, hk, hstatus, honConnects,
    (connect_ok_iff EventLoop.twoBuffers_start hrun hk hclient).1 hnot⟩

/-- A connect fails, and is reported with `EPOLLERR` and `EPOLLOUT`: the Socket becomes `CONNECTED`
and calls `OnConnect(kOK)`. -/
theorem connect_ok_fails : ∃ w s,
    Run (NetStep objectPool) (.new EventLoop.twoBuffers)
      [.loop (.newClient 0 5 true), .loop (.connect 0 kOK true), .connectDone 0 false, .loop .poll,
        .loop (.epollWait [⟨0, ⟨true, false, true⟩⟩]), .loop (.check 0), .loop .run,
        .loop (.check 0), .loop (.check 0), .loop .run, .loop .ret, .loop .run, .loop .run,
        .loop .run, .loop .pollDone] w ∧
    w.loop.poll = .idle ∧ w.loop.stack = [] ∧ w.loop.sockets 0 = some s ∧ s.type = .client ∧
      s.status = .connected ∧ (w.conns 0).outcome = some false ∧ (w.conns 0).onConnects = [kOK] ∧
      ¬ w.ConnectOk 0 := by
  have hfd : (5 : ℤ) ≠ kInvalidFd := by decide
  refine ⟨_, _, .cons (.loop trivial (.newClient rfl rfl rfl rfl)) <|
    .cons (.loop (Net.answers_connect rfl hfd kOK true) (.connect rfl rfl rfl rfl rfl)) <|
    .cons (.connectDone rfl rfl nofun rfl) <|
    .cons (.loop trivial (.poll rfl rfl)) <|
    .cons (.loop (Net.answers_epollWait rfl hfd rfl rfl fun _ => ⟨nofun, fun _ => rfl⟩)
      (.epollWait _ rfl rfl (Nat.le_refl _) (by decide))) <|
    .cons (.loop trivial (.checkError rfl rfl rfl hfd)) <|
    .cons (.loop trivial (.inRun rfl rfl rfl)) <|
    .cons (.loop trivial (.checkInput rfl rfl rfl hfd)) <|
    .cons (.loop trivial (.checkOutput rfl rfl rfl hfd)) <|
    .cons (.loop trivial (.outRun rfl rfl rfl)) <|
    .cons (.loop trivial (.outReturn rfl rfl)) <|
    .cons (.loop trivial (.outRun rfl rfl rfl)) <|
    .cons (.loop trivial (.outRun rfl rfl rfl)) <|
    .cons (.loop trivial (.outRun rfl rfl rfl)) <|
    .single (.loop trivial (.pollDone rfl rfl rfl)), rfl, rfl, rfl, rfl, rfl, rfl, rfl, ?_⟩
  rintro ⟨hstatus, -, -⟩
  cases hstatus _ rfl rfl

end ServerKit
