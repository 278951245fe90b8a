import ServerKit.Core.Workers
import ServerKit.Core.Verify.MailboxFifo

/-!
# Sessions handed over to the Workers

Every Session goes to one Worker, which binds it once, in the order in which they were handed to it;
so the assertion of `SetPoller` holds. The part of the argument that is about one mailbox is that it
delivers what it is sent, in order.
-/

namespace ServerKit

open Lib

/-! ## What goes to a Worker and what it does with it -/

/-- The Session of an `AcceptMessage`. -/
def Message.session? : Message → Option SessionPtr
  | accept session => some session
  | rpcChannel _ | other _ => none

@[simp] theorem Message.session?_accept (session : SessionPtr) :
    (Message.accept session).session? = some session := rfl
@[simp] theorem Message.session?_rpcChannel (request : ℕ) :
    (Message.rpcChannel request).session? = none := rfl
@[simp] theorem Message.session?_other (type : ℤ) : (Message.other type).session? = none := rfl

namespace WorkerEvent

/-- The step of the mailbox of `w`. -/
@[simp] def mailboxOf (w : WorkerPtr) : WorkerEvent → List (MailboxEvent Message)
  | main v e | other v e | recv v e _ => if v = w then [e] else []
  | _ => []

/-- The Session handed to `w`. -/
@[simp] def handed (w : WorkerPtr) : WorkerEvent → List SessionPtr
  | accept v session => if v = w then [session] else []
  | _ => []

/-- The message `w` has processed. -/
@[simp] def processed (w : WorkerPtr) : WorkerEvent → List Message
  | process v msg => if v = w then [msg] else []
  | _ => []

/-- The Session `w` has bound. -/
def taken (w : WorkerPtr) (e : WorkerEvent) : List SessionPtr :=
  (e.processed w).filterMap Message.session?

end WorkerEvent

/-- The Session the thread of the `Application` is about to send to `w`. -/
@[simp] def MainPc.pending (w : WorkerPtr) : MainPc → List SessionPtr
  | call v msg => if v = w then msg.session?.toList else []
  | idle | inSend _ => []

/-- The message a Worker is about to process. -/
@[simp] def WorkerPc.current : WorkerPc → List (Option Message)
  | process msg => [msg]
  | away | calling | receiving => []

/-- A step of `Recv` has got a message exactly when it delivers one. -/
theorem WorkerPc.current_after (interrupted : Bool) {e : MailboxEvent Message}
    (he : e.sender = none) : (WorkerPc.after interrupted e).current = e.delivered := by
  cases e with
  | recv => rfl
  | firstRead r =>
    cases r with
    | none => rfl
    | some msg => rfl
  | wait rc | recvSignal rc =>
    simp only [after]
    split
    · split <;> rfl
    · rfl
  | secondRead r => rfl
  | lock | write | flush | unLock | signal | signalInterrupted => cases he

theorem MailboxEvent.delivered_of_sender {M : Type} {e : MailboxEvent M} {i : ℕ}
    (he : e.sender = some i) : e.delivered = [] := by
  cases e with
  | lock | write | flush | unLock | signal | signalInterrupted => rfl
  | recv | firstRead | wait | recvSignal | secondRead => cases he

theorem MailboxEvent.sent_of_receiver {M : Type} {e : MailboxEvent M} (he : e.sender = none) :
    e.sent = [] := by
  cases e with
  | lock => cases he
  | write | flush | unLock | signal | signalInterrupted => rfl
  | recv | firstRead | wait | recvSignal | secondRead => rfl

/-- A step of a sender other than the thread of the `Application` sends no Session. -/
theorem MailboxEvent.sent_of_other {e : MailboxEvent Message} {i : ℕ} (he : e.sender = some i)
    (hlock : ∀ session, e ≠ .lock i (.accept session)) :
    e.sent.filterMap Message.session? = [] := by
  cases e with
  | lock j msg =>
    obtain rfl : j = i := Option.some.inj he
    cases msg with
    | accept session => exact absurd rfl (hlock session)
    | rpcChannel | other => rfl
  | write | flush | unLock | signal | signalInterrupted => rfl
  | recv | firstRead | wait | recvSignal | secondRead => cases he

/-- `Worker::Process` binds a Session that is not bound, or leaves the Sessions alone. -/
theorem WorkerPool.process_ok {s s' : WorkerPool} {w : WorkerPtr} {msg : Message}
    (h : s.process w msg = .ok s') :
    (∃ session, msg = .accept session ∧ s.bound session = none ∧
      s' = { s with bound := Function.update s.bound session (some w) }) ∨
    (msg.session? = none ∧ ∃ channels, s' = { s with channels := channels }) := by
  cases msg with
  | accept session =>
    simp only [process] at h
    split at h
    · exact .inl ⟨session, rfl, ‹_›, (Except.ok.inj h).symm⟩
    · cases h
  | rpcChannel request => exact .inr ⟨rfl, _, (Except.ok.inj h).symm⟩
  | other type => exact .inr ⟨rfl, s.channels, (Except.ok.inj h).symm⟩

/-! ## The mailboxes -/

section Mailboxes

variable {s₀ s s' : WorkerPool} {e : WorkerEvent} {ls : List WorkerEvent}

theorem WorkerStep.mailbox (hs : WorkerStep s e s') (w : WorkerPtr) :
    Run (MailboxStep YPipeStep) (s.mailbox w) (e.mailboxOf w) (s'.mailbox w) := by
  -- a step of the mailbox of `v`
  have hat : ∀ {v : WorkerPtr} {e : MailboxEvent Message}
      {mb : Mailbox (YPipeState Message 16) Message}, MailboxStep YPipeStep (s.mailbox v) e mb →
      Run (MailboxStep YPipeStep) (s.mailbox w) (if v = w then [e] else [])
        (Function.update s.mailbox v mb w) := by
    intro v e mb hmb
    by_cases hv : v = w
    · subst hv
      rw [if_pos rfl, Function.update_self]
      exact .single hmb
    · rw [if_neg hv, Function.update_of_ne (Ne.symm hv)]
      exact .nil _
  cases hs with
  | accept | createRpcChannel | in_ => exact .nil _
  | mainLock _ hmb | mainSend _ _ _ hmb | other _ _ hmb | recv _ hmb | receive _ _ _ _ hmb =>
    exact hat hmb
  | process _ hprocess =>
    rcases WorkerPool.process_ok hprocess with ⟨session, -, -, rfl⟩ | ⟨-, channels, rfl⟩
    · exact .nil _
    · exact .nil _

/-- The mailbox of a Worker takes a run of its own. -/
theorem run_mailbox (hrun : Run WorkerStep s₀ ls s) (w : WorkerPtr) :
    Run (MailboxStep YPipeStep) (s₀.mailbox w) (ls.flatMap (WorkerEvent.mailboxOf w))
      (s.mailbox w) :=
  hrun.project (fun s => s.mailbox w) _ fun _ _ _ hs => hs.mailbox w

end Mailboxes

/-- A mailbox delivers the first of the messages it is sent. -/
theorem delivered_prefix {M : Type} {s₀ s : Mailbox (YPipeState M 16) M}
    {es : List (MailboxEvent M)} (h₀ : s₀.Start) (hrun : Run (MailboxStep YPipeStep) s₀ es s) :
    ∃ ms, es.flatMap MailboxEvent.delivered = ms.map some ∧
      ms <+: es.flatMap MailboxEvent.sent := by
  obtain ⟨t, hrun', -⟩ := hrun.simulate (fun _ _ _ _ hR hs => hs.pipe hR) _ h₀.rep
  refine ⟨_, hrun'.delivered_eq, ?_⟩
  rw [hrun'.sent_eq]
  exact (List.take_prefix ..).trans (List.prefix_append ..)

/-! ## The histories -/

section Histories

variable {s₀ s s' : WorkerPool} {e : WorkerEvent} {ls : List WorkerEvent}

/-- What the thread of the `Application` has selected a Worker for, it sends. -/
theorem WorkerStep.pending (hs : WorkerStep s e s') (w : WorkerPtr) :
    s.main.pending w ++ e.handed w =
      ((e.mailboxOf w).flatMap MailboxEvent.sent).filterMap Message.session? ++
        s'.main.pending w := by
  cases hs with
  | accept hmain | createRpcChannel _ hmain => simp [hmain]
  | @mainLock _ v msg _ hmain _ =>
    by_cases hv : v = w
    · cases msg <;> simp [hmain, hv, MailboxEvent.sent]
    · simp [hmain, hv]
  | @mainSend _ v e' mb hmain he hlock _ =>
    have hsent := MailboxEvent.sent_of_other he fun session => hlock (.accept session)
    have hnone : MainPc.pending w (if mb.send 0 = .idle then .idle else .inSend v) = [] := by
      split <;> rfl
    by_cases hv : v = w
    · rw [WorkerPool.setMain_main, hnone]
      simp [hmain, hv, hsent]
    · rw [WorkerPool.setMain_main, hnone]
      simp [hmain, hv]
  | @other _ v i e' mb he hlock _ =>
    have hsent := MailboxEvent.sent_of_other he hlock
    by_cases hv : v = w
    · simp [hv, hsent]
    · simp [hv]
  | in_ => simp
  | @recv _ v =>
    by_cases hv : v = w
    · simp [hv, MailboxEvent.sent]
    · simp [hv]
  | @receive _ v e' mb interrupted _ he =>
    by_cases hv : v = w
    · simp [hv, MailboxEvent.sent_of_receiver he]
    · simp [hv]
  | process _ hprocess =>
    rcases WorkerPool.process_ok hprocess with ⟨session, -, -, rfl⟩ | ⟨-, channels, rfl⟩
    · simp
    · simp

/-- What a Worker has got from its mailbox, it processes. -/
theorem WorkerStep.received (hs : WorkerStep s e s') (w : WorkerPtr) :
    (s.pc w).current ++ (e.mailboxOf w).flatMap MailboxEvent.delivered =
      (e.processed w).map some ++ (s'.pc w).current := by
  cases hs with
  | accept | createRpcChannel => simp
  | @mainLock _ v =>
    by_cases hv : v = w
    · simp [hv, MailboxEvent.delivered]
    · simp [hv]
  | @mainSend _ v e' mb _ he | @other _ v i e' mb he =>
    by_cases hv : v = w
    · simp [hv, MailboxEvent.delivered_of_sender he]
    · simp [hv]
  | @in_ _ v hpc =>
    by_cases hv : v = w
    · subst hv
      simp [hpc]
    · simp [Ne.symm hv]
  | @recv _ v mb hpc =>
    by_cases hv : v = w
    · subst hv
      simp [hpc, MailboxEvent.delivered]
    · simp [hv, Ne.symm hv]
  | @receive _ v e' mb interrupted hpc he =>
    by_cases hv : v = w
    · subst hv
      simpa [hpc] using (WorkerPc.current_after interrupted he).symm
    · simp [hv, Ne.symm hv]
  | @process _ s₁ v msg hpc hprocess =>
    have hsame : s₁.pc = s.pc := by
      rcases WorkerPool.process_ok hprocess with ⟨session, -, -, rfl⟩ | ⟨-, channels, rfl⟩ <;> rfl
    by_cases hv : v = w
    · subst hv
      simp [hpc]
    · simp [hv, Ne.symm hv, hsame]

/-- The Sessions handed over so far are different ones, handed to one Worker each, and they are
bound where they have been taken. -/
structure WorkerPool.Sound (ls : List WorkerEvent) (s : WorkerPool) : Prop where
  handed_lt : ∀ w, ∀ session ∈ ls.flatMap (WorkerEvent.handed w), session < s.nextSession
  handed_nodup : ∀ w, (ls.flatMap (WorkerEvent.handed w)).Nodup
  handed_unique : ∀ v w, ∀ session ∈ ls.flatMap (WorkerEvent.handed v),
    session ∈ ls.flatMap (WorkerEvent.handed w) → v = w
  bound_iff : ∀ w session, s.bound session = some w ↔ session ∈ ls.flatMap (WorkerEvent.taken w)

/-- A step that hands nothing over and binds nothing. -/
theorem WorkerPool.Sound.same (h : s.Sound ls) (hhanded : ∀ w, e.handed w = [])
    (htaken : ∀ w, e.taken w = []) (hnext : s'.nextSession = s.nextSession)
    (hbound : s'.bound = s.bound) : s'.Sound (ls ++ [e]) := by
  have hh : ∀ w, (ls ++ [e]).flatMap (WorkerEvent.handed w) = ls.flatMap (WorkerEvent.handed w) :=
    fun w => by rw [List.flatMap_append, List.flatMap_singleton, hhanded, List.append_nil]
  have ht : ∀ w, (ls ++ [e]).flatMap (WorkerEvent.taken w) = ls.flatMap (WorkerEvent.taken w) :=
    fun w => by rw [List.flatMap_append, List.flatMap_singleton, htaken, List.append_nil]
  refine ⟨fun w => ?_, fun w => ?_, fun v w => ?_, fun w session => ?_⟩
  · rw [hh, hnext]
    exact h.handed_lt w
  · rw [hh]
    exact h.handed_nodup w
  · rw [hh, hh]
    exact h.handed_unique v w
  · rw [ht, hbound]
    exact h.bound_iff w session

/-- The next Session is handed to `w`. -/
theorem WorkerPool.Sound.accept (h : s.Sound ls) (w : WorkerPtr)
    (hnext : s'.nextSession = s.nextSession + 1) (hbound : s'.bound = s.bound) :
    s'.Sound (ls ++ [.accept w s.nextSession]) := by
  have hh : ∀ v, (ls ++ [WorkerEvent.accept w s.nextSession]).flatMap (WorkerEvent.handed v) =
      ls.flatMap (WorkerEvent.handed v) ++ (if w = v then [s.nextSession] else []) :=
    fun v => by simp
  have hmem : ∀ {v : WorkerPtr} {session : SessionPtr},
      session ∈ (ls ++ [WorkerEvent.accept w s.nextSession]).flatMap (WorkerEvent.handed v) →
      session ∈ ls.flatMap (WorkerEvent.handed v) ∨ w = v ∧ session = s.nextSession := by
    intro v session hsession
    rw [hh, List.mem_append] at hsession
    refine hsession.imp_right fun hsession => ?_
    split at hsession
    · exact ⟨‹_›, List.mem_singleton.mp hsession⟩
    · cases hsession
  refine ⟨fun v session hsession => ?_, fun v => ?_, fun v v' session hv hv' => ?_,
    fun v session => ?_⟩
  · rw [hnext]
    rcases hmem hsession with hold | ⟨-, rfl⟩
    · exact (h.handed_lt v session hold).trans (Nat.lt_succ_self _)
    · exact Nat.lt_succ_self _
  · rw [hh, List.nodup_append]
    refine ⟨h.handed_nodup v, by split <;> simp, fun session hold session' hnew heq => ?_⟩
    split at hnew
    · obtain rfl := List.mem_singleton.mp hnew
      exact absurd heq (h.handed_lt v session hold).ne
    · cases hnew
  · rcases hmem hv with hold | ⟨rfl, rfl⟩
    · rcases hmem hv' with hold' | ⟨-, rfl⟩
      · exact h.handed_unique v v' session hold hold'
      · exact absurd (h.handed_lt v _ hold) (lt_irrefl _)
    · rcases hmem hv' with hold' | ⟨rfl, -⟩
      · exact absurd (h.handed_lt v' _ hold') (lt_irrefl _)
      · rfl
  · rw [hbound, h.bound_iff]
    simp [WorkerEvent.taken]

/-- A Worker binds a Session that was not bound. -/
theorem WorkerPool.Sound.bind (h : s.Sound ls) (w : WorkerPtr) {session : SessionPtr}
    (hfree : s.bound session = none) (hnext : s'.nextSession = s.nextSession)
    (hbound : s'.bound = Function.update s.bound session (some w)) :
    s'.Sound (ls ++ [.process w (.accept session)]) := by
  refine ⟨fun v => ?_, fun v => ?_, fun v v' => ?_, fun v session' => ?_⟩
  · simpa [hnext] using h.handed_lt v
  · simpa using h.handed_nodup v
  · simpa using h.handed_unique v v'
  · have ht : (ls ++ [WorkerEvent.process w (.accept session)]).flatMap (WorkerEvent.taken v) =
        ls.flatMap (WorkerEvent.taken v) ++ (if w = v then [session] else []) := by
      by_cases hv : w = v
      · simp [WorkerEvent.taken, hv]
      · simp [WorkerEvent.taken, hv]
    rw [ht, hbound, List.mem_append, ← h.bound_iff]
    by_cases hs : session' = session
    · subst hs
      rw [Function.update_self, hfree]
      by_cases hv : w = v
      · simp [hv]
      · simp [hv]
    · rw [Function.update_of_ne hs]
      by_cases hv : w = v
      · simp [hv, hs]
      · simp [hv]

theorem WorkerStep.sound (h : s.Sound ls) (hs : WorkerStep s e s') : s'.Sound (ls ++ [e]) := by
  cases hs with
  | @accept _ w => exact h.accept w rfl rfl
  | createRpcChannel | mainLock | mainSend | other | in_ | recv | receive =>
    exact h.same (fun _ => rfl) (fun _ => rfl) rfl rfl
  | @process _ _ w msg _ hprocess =>
    rcases WorkerPool.process_ok hprocess with ⟨session, rfl, hfree, rfl⟩ | ⟨hmsg, channels, rfl⟩
    · exact h.bind w hfree rfl rfl
    · refine h.same (fun _ => rfl) (fun v => ?_) rfl rfl
      by_cases hv : w = v
      · simp [WorkerEvent.taken, hv, hmsg]
      · simp [WorkerEvent.taken, hv]

theorem run_sound (h₀ : s₀.Start) (hrun : Run WorkerStep s₀ ls s) : s.Sound ls :=
  Run.snoc_induction (P := fun ls s => s.Sound ls)
    ⟨by simp, by simp, by simp, by simp [h₀.2.2.2.2]⟩ (fun _ _ _ _ _ h hs => hs.sound h) hrun

end Histories

/-! ## The results -/

section Results

variable {s₀ s : WorkerPool} {ls : List WorkerEvent}

/-- What a Worker has processed and is about to process are the first of the messages sent to it. -/
theorem processed_prefix (h₀ : s₀.Start) (hrun : Run WorkerStep s₀ ls s) (w : WorkerPtr) :
    ∃ current : List Message, (s.pc w).current = current.map some ∧
      ls.flatMap (WorkerEvent.processed w) ++ current <+:
        (ls.flatMap (WorkerEvent.mailboxOf w)).flatMap MailboxEvent.sent := by
  have hbalance := hrun.balance (fun s => (s.pc w).current)
    (fun e => (e.mailboxOf w).flatMap MailboxEvent.delivered)
    (fun e => (e.processed w).map some) fun _ _ _ hs => hs.received w
  obtain ⟨ms, hms, hpre⟩ := delivered_prefix (h₀.2.2.1 w) (run_mailbox hrun w)
  rw [h₀.2.2.2.1 w] at hbalance
  have hsplit : ms.map some =
      (ls.flatMap (WorkerEvent.processed w)).map some ++ (s.pc w).current := by
    rw [← hms, List.flatMap_assoc, List.map_flatMap]
    exact hbalance
  obtain ⟨done, current, rfl, hdone, hcurrent⟩ := List.map_eq_append_iff.mp hsplit
  have hinj : done = ls.flatMap (WorkerEvent.processed w) :=
    List.map_injective_iff.mpr (Option.some_injective _) hdone
  exact ⟨current, hcurrent.symm, hinj ▸ hpre⟩

/-- A Worker whose mailbox is empty, and who is not about to process a message, has processed all
that was sent to it. -/
theorem processed_eq_sent (h₀ : s₀.Start) (hrun : Run WorkerStep s₀ ls s) {w : WorkerPtr}
    (hpc : ∀ m, s.pc w ≠ .process m)
    (hlen : ((ls.flatMap (WorkerEvent.mailboxOf w)).flatMap MailboxEvent.delivered).length =
      ((ls.flatMap (WorkerEvent.mailboxOf w)).flatMap MailboxEvent.sent).length) :
    ls.flatMap (WorkerEvent.processed w) =
      (ls.flatMap (WorkerEvent.mailboxOf w)).flatMap MailboxEvent.sent := by
  have hnone : (s.pc w).current = [] := by
    cases h : s.pc w with
    | away | calling | receiving => rfl
    | process m => exact absurd h (hpc m)
  obtain ⟨current, hcurrent, hpre⟩ := processed_prefix h₀ hrun w
  obtain rfl : current = [] := List.map_eq_nil_iff.mp (hcurrent.symm.trans hnone)
  rw [List.append_nil] at hpre
  have hbalance := hrun.balance (fun s => (s.pc w).current)
    (fun e => (e.mailboxOf w).flatMap MailboxEvent.delivered)
    (fun e => (e.processed w).map some) fun _ _ _ hs => hs.received w
  have hstart : (s₀.pc w).current = [] := by rw [h₀.2.2.2.1 w, WorkerPc.current]
  simp only [hstart, hnone, List.nil_append, List.append_nil] at hbalance
  refine hpre.eq_of_length ?_
  rw [← hlen, List.flatMap_assoc, hbalance, ← List.map_flatMap, List.length_map]

/-- The Sessions sent to a Worker, and the one about to be, are those handed to it. -/
theorem sent_pending (h₀ : s₀.Start) (hrun : Run WorkerStep s₀ ls s) (w : WorkerPtr) :
    ((ls.flatMap (WorkerEvent.mailboxOf w)).flatMap MailboxEvent.sent).filterMap
        Message.session? ++ s.main.pending w = ls.flatMap (WorkerEvent.handed w) := by
  have hbalance := hrun.balance (fun s => s.main.pending w) (WorkerEvent.handed w)
    (fun e => ((e.mailboxOf w).flatMap MailboxEvent.sent).filterMap Message.session?)
    fun _ _ _ hs => hs.pending w
  rw [h₀.2.1] at hbalance
  rw [List.flatMap_assoc, List.filterMap_flatMap]
  exact hbalance.symm

/-- What a Worker has taken, and the Session it is about to bind, are the first of those handed to
it. -/
theorem taken_prefix (h₀ : s₀.Start) (hrun : Run WorkerStep s₀ ls s) (w : WorkerPtr) :
    ∃ current : List Message, (s.pc w).current = current.map some ∧
      ls.flatMap (WorkerEvent.taken w) ++ current.filterMap Message.session? <+:
        ls.flatMap (WorkerEvent.handed w) := by
  obtain ⟨current, hcurrent, hpre⟩ := processed_prefix h₀ hrun w
  refine ⟨current, hcurrent, ?_⟩
  rw [← sent_pending h₀ hrun w]
  have hfilter := hpre.filterMap Message.session?
  rw [List.filterMap_append, List.filterMap_flatMap] at hfilter
  exact hfilter.trans (List.prefix_append _ _)

/-- A Worker about to process something has a message, and the assertion of `SetPoller` holds. -/
theorem process_enabled (h₀ : s₀.Start) (hrun : Run WorkerStep s₀ ls s) {w : WorkerPtr}
    {m : Option Message} (hpc : s.pc w = .process m) :
    ∃ msg, m = some msg ∧ ∃ s', s.process w msg = .ok s' := by
  obtain ⟨current, hcurrent, hpre⟩ := taken_prefix h₀ hrun w
  rw [hpc, WorkerPc.current] at hcurrent
  obtain ⟨msg, rfl, rfl⟩ := List.map_eq_singleton_iff.mp hcurrent.symm
  refine ⟨msg, rfl, ?_⟩
  have hsound := run_sound h₀ hrun
  cases msg with
  | accept session =>
    have hmem : session ∈ ls.flatMap (WorkerEvent.handed w) := hpre.mem (by simp)
    have hnodup := hpre.sublist.nodup (hsound.handed_nodup w)
    cases hbound : s.bound session with
    | none => exact ⟨_, if_pos hbound⟩
    | some v =>
      -- it has been taken before, by the Worker it was handed to
      have htaken := (hsound.bound_iff v session).mp hbound
      obtain ⟨_, _, hv⟩ := taken_prefix h₀ hrun v
      obtain rfl := hsound.handed_unique v w session (hv.mem (List.mem_append_left _ htaken)) hmem
      exact absurd rfl ((List.nodup_append.mp hnodup).2.2 session htaken session (by simp))
  | rpcChannel | other => exact ⟨_, rfl⟩

/-- **Sessions are handed over exactly once, in order.** Under every interleaving of the thread of
the `Application`, the Workers and other threads that send to them, each Worker has bound the first
of the Sessions handed to it, each once, and all of them once its mailbox is empty and nobody is in
the middle of handing one over; a Session is bound to one Worker at most; and a Worker that is about
to process a message has one, and does not fail the assertion of `SetPoller`. -/
theorem sessions_handed_over (h₀ : s₀.Start) (hrun : Run WorkerStep s₀ ls s) :
    (∀ w, ls.flatMap (WorkerEvent.taken w) <+: ls.flatMap (WorkerEvent.handed w) ∧
      (ls.flatMap (WorkerEvent.handed w)).Nodup) ∧
    (∀ w session, s.bound session = some w ↔ session ∈ ls.flatMap (WorkerEvent.taken w)) ∧
    (∀ w, s.main = .idle → (∀ m, s.pc w ≠ .process m) →
      ((ls.flatMap (WorkerEvent.mailboxOf w)).flatMap MailboxEvent.delivered).length =
        ((ls.flatMap (WorkerEvent.mailboxOf w)).flatMap MailboxEvent.sent).length →
      ls.flatMap (WorkerEvent.taken w) = ls.flatMap (WorkerEvent.handed w)) ∧
    ∀ w m, s.pc w = .process m → ∃ msg, m = some msg ∧ ∃ s', s.process w msg = .ok s' := by
  have hsound := run_sound h₀ hrun
  refine ⟨fun w => ⟨?_, hsound.handed_nodup w⟩, hsound.bound_iff, fun w hmain hpc hlen => ?_,
    fun w m hpc => process_enabled h₀ hrun hpc⟩
  · obtain ⟨current, -, hpre⟩ := taken_prefix h₀ hrun w
    exact (List.prefix_append _ _).trans hpre
  · have hsent := sent_pending h₀ hrun w
    rw [← processed_eq_sent h₀ hrun hpc hlen, hmain, MainPc.pending, List.append_nil,
      List.filterMap_flatMap] at hsent
    exact hsent

/-- Two Workers, with nothing sent to them. -/
def WorkerPool.two (mb : Mailbox (YPipeState Message 16) Message) : WorkerPool where
  application := ⟨[0, 1], ⟨0, by decide⟩⟩
  main := .idle
  nextSession := 7
  mailbox := fun _ => mb
  pc := fun _ => .away
  bound := fun _ => none
  channels := []

theorem WorkerPool.two_start {mb : Mailbox (YPipeState Message 16) Message} (hmb : mb.Start) :
    (WorkerPool.two mb).Start :=
  ⟨by simp [two], rfl, fun _ => hmb, fun _ => rfl, fun _ => rfl⟩

/-- The Sessions 7 and 8 are handed to the two Workers and the request 3 to the one whose turn it is
again; another thread sends a message of its own. Both Workers process what they get: first the
second one, and then the first one, up to its Session. -/
def WorkerEvent.twoSessions : List WorkerEvent :=
  [.accept 1 7, .main 1 (.lock 0 (.accept 7)), .main 1 (.write 0), .main 1 (.flush 0),
    .main 1 (.flush 0), .main 1 (.unLock 0 5), .main 1 (.signal 0),
    .accept 0 8, .main 0 (.lock 0 (.accept 8)), .main 0 (.write 0), .main 0 (.flush 0),
    .main 0 (.flush 0), .main 0 (.unLock 0 5), .main 0 (.signal 0),
    .createRpcChannel 1 3, .main 1 (.lock 0 (.rpcChannel 3)), .main 1 (.write 0),
    .main 1 (.flush 0), .main 1 (.unLock 0 5),
    .other 0 (.lock 1 (.other 2)), .other 0 (.write 1), .other 0 (.flush 1), .other 0 (.unLock 1 5),
    .in_ 1, .recv 1 .recv false, .recv 1 (.wait 1) false, .recv 1 (.recvSignal 8) false,
    .recv 1 (.secondRead (some (.accept 7))) false, .process 1 (.accept 7),
    .recv 1 .recv false, .recv 1 (.firstRead (some (.rpcChannel 3))) false,
    .process 1 (.rpcChannel 3), .recv 1 .recv false, .recv 1 (.firstRead none) false,
    .recv 1 (.wait (-1)) false,
    .in_ 0, .recv 0 .recv false, .recv 0 (.wait 1) false, .recv 0 (.recvSignal 8) false,
    .recv 0 (.secondRead (some (.accept 8))) false]

/-- The first Worker goes on. -/
def WorkerEvent.twoSessionsRest : List WorkerEvent :=
  [.process 0 (.accept 8), .recv 0 .recv false, .recv 0 (.firstRead (some (.other 2))) false,
    .process 0 (.other 2), .recv 0 .recv false, .recv 0 (.firstRead none) false,
    .recv 0 (.wait (-1)) false]

theorem two_workers_run : ∃ (mb : Mailbox (YPipeState Message 16) Message) (s s' : WorkerPool),
    mb.Start ∧ Run WorkerStep (.two mb) WorkerEvent.twoSessions s ∧
    Run WorkerStep s WorkerEvent.twoSessionsRest s' ∧
    s.main = .idle ∧ s.pc 0 = .process (some (.accept 8)) ∧ s.pc 1 = .away ∧
    s'.main = .idle ∧ s'.pc 0 = .away ∧ s'.pc 1 = .away := by
  exact ⟨_, _, _, ⟨0, 1, _, _, _, by decide, rfl, rfl, rfl⟩,
    -- the first call
    .cons (.accept rfl rfl) <| .cons (.mainLock rfl (.lock rfl rfl)) <|
    .cons (.mainSend rfl rfl (by simp) (.write rfl (.write (p := 2) rfl rfl))) <|
    .cons (.mainSend rfl rfl (by simp) (.flushTry rfl (.flushCas (by decide) rfl))) <|
    .cons (.mainSend rfl rfl (by simp) (.flushSet rfl .flushSet)) <|
    .cons (.mainSend rfl rfl (by simp) (.unLock 5 rfl)) <|
    .cons (.mainSend rfl rfl (by simp) (.signal rfl)) <|
    -- the second call
    .cons (.accept rfl rfl) <| .cons (.mainLock rfl (.lock rfl rfl)) <|
    .cons (.mainSend rfl rfl (by simp) (.write rfl (.write (p := 2) rfl rfl))) <|
    .cons (.mainSend rfl rfl (by simp) (.flushTry rfl (.flushCas (by decide) rfl))) <|
    .cons (.mainSend rfl rfl (by simp) (.flushSet rfl .flushSet)) <|
    .cons (.mainSend rfl rfl (by simp) (.unLock 5 rfl)) <|
    .cons (.mainSend rfl rfl (by simp) (.signal rfl)) <|
    -- the third call
    .cons (.createRpcChannel 3 rfl rfl) <| .cons (.mainLock rfl (.lock rfl rfl)) <|
    .cons (.mainSend rfl rfl (by simp) (.write rfl (.write (p := 3) rfl rfl))) <|
    .cons (.mainSend rfl rfl (by simp) (.flushTry rfl (.flushCas (by decide) rfl))) <|
    .cons (.mainSend rfl rfl (by simp) (.unLock 5 rfl)) <|
    -- the other thread
    .cons (.other rfl (by simp) (.lock rfl rfl)) <|
    .cons (.other rfl (by simp) (.write rfl (.write (p := 3) rfl rfl))) <|
    .cons (.other rfl (by simp) (.flushTry rfl (.flushCas (by decide) rfl))) <|
    .cons (.other rfl (by simp) (.unLock 5 rfl)) <|
    -- the second Worker
    .cons (.in_ rfl) <| .cons (.recv rfl (.recv rfl)) <|
    .cons (.receive false rfl rfl (by simp) (.wait rfl (.inr (.inr ⟨rfl, by decide⟩)))) <|
    .cons (.receive false rfl rfl (by simp) (.recvSignal rfl rfl)) <|
    .cons (.receive false rfl rfl (by simp) (.secondRead rfl (.read rfl))) <|
    .cons (.process rfl rfl) <| .cons (.recv rfl (.recv rfl)) <|
    .cons (.receive false rfl rfl (by simp) (.firstRead rfl (.read rfl))) <|
    .cons (.process rfl rfl) <| .cons (.recv rfl (.recv rfl)) <|
    .cons (.receive false rfl rfl (by simp) (.firstReadNone rfl (.read rfl))) <|
    .cons (.receive false rfl rfl (by simp) (.wait rfl (.inl rfl))) <|
    -- the first Worker
    .cons (.in_ rfl) <| .cons (.recv rfl (.recv rfl)) <|
    .cons (.receive false rfl rfl (by simp) (.wait rfl (.inr (.inr ⟨rfl, by decide⟩)))) <|
    .cons (.receive false rfl rfl (by simp) (.recvSignal rfl rfl)) <|
    .single (.receive false rfl rfl (by simp) (.secondRead rfl (.read rfl))),
    .cons (.process rfl rfl) <| .cons (.recv rfl (.recv rfl)) <|
    .cons (.receive false rfl rfl (by simp) (.firstRead rfl (.read rfl))) <|
    .cons (.process rfl rfl) <| .cons (.recv rfl (.recv rfl)) <|
    .cons (.receive false rfl rfl (by simp) (.firstReadNone rfl (.read rfl))) <|
    .single (.receive false rfl rfl (by simp) (.wait rfl (.inl rfl))),
    rfl, rfl, rfl, rfl, rfl, rfl⟩

theorem sessions_handed_over_two_sessions : ∃ s₀ s s', s₀.Start ∧
    Run WorkerStep s₀ WorkerEvent.twoSessions s ∧
    Run WorkerStep s₀ (WorkerEvent.twoSessions ++ WorkerEvent.twoSessionsRest) s' ∧
    -- the second Worker has bound its Session, and the first one is about to
    (∀ w, WorkerEvent.twoSessions.flatMap (WorkerEvent.taken w) <+:
      WorkerEvent.twoSessions.flatMap (WorkerEvent.handed w)) ∧
    WorkerEvent.twoSessions.flatMap (WorkerEvent.taken 0) = [] ∧
    WorkerEvent.twoSessions.flatMap (WorkerEvent.handed 0) = [8] ∧
    (WorkerEvent.twoSessions.flatMap (WorkerEvent.taken 1) =
      WorkerEvent.twoSessions.flatMap (WorkerEvent.handed 1)) ∧
    s.bound 7 = some 1 ∧ s.bound 8 ≠ some 0 ∧
    (∃ s'', s.process 0 (.accept 8) = .ok s'') ∧
    -- both have bound theirs
    s'.bound 7 = some 1 ∧ s'.bound 8 = some 0 ∧
    ∀ w ∈ [0, 1], (WorkerEvent.twoSessions ++ WorkerEvent.twoSessionsRest).flatMap
        (WorkerEvent.taken w) =
      (WorkerEvent.twoSessions ++ WorkerEvent.twoSessionsRest).flatMap (WorkerEvent.handed w) := by
  obtain ⟨mb, s, s', hmb, hrun, hrest, hmain, hpc₀, hpc₁, hmain', hpc₀', hpc₁'⟩ := two_workers_run
  have hstart := WorkerPool.two_start hmb
  have h := sessions_handed_over hstart hrun
  have h' := sessions_handed_over hstart (hrun.append hrest)
  obtain ⟨_, ⟨⟩, hprocess⟩ := h.2.2.2 0 _ hpc₀
  refine ⟨_, s, s', hstart, hrun, hrun.append hrest, fun w => (h.1 w).1, rfl, rfl,
    h.2.2.1 1 hmain (by simp [hpc₁]) rfl, (h.2.1 1 7).mpr (by decide),
    fun hbound => absurd ((h.2.1 0 8).mp hbound) (by decide), hprocess,
    (h'.2.1 1 7).mpr (by decide), (h'.2.1 0 8).mpr (by decide), fun w hw => ?_⟩
  rcases List.mem_pair.mp hw with rfl | rfl
  · exact h'.2.2.1 0 hmain' (by simp [hpc₀']) rfl
  · exact h'.2.2.1 1 hmain' (by simp [hpc₁']) rfl

end Results

end ServerKit
