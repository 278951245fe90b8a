import ServerKit.Core.Verify.Handovers
import ServerKit.Lib.RoundRobin

/-!
# The Workers take turns

What the thread of the `Application` puts into the mailboxes goes from Worker to Worker, so that
none is sent more than one message more than another. What other threads send does not count, but it
is in the same mailboxes; a Worker gets the messages in the order in which they came, so those of
the `Application` in the order of its calls.
-/

namespace ServerKit

open Lib

/-! ## Messages and whose they are -/

section Marked

variable {T X : Type} [DecidableEq T]

/-- The entries with the mark `t`. -/
def marked (t : T) (xs : List (T × X)) : List X := (xs.filter (·.1 = t)).map Prod.snd

theorem marked_append (t : T) (xs ys : List (T × X)) :
    marked t (xs ++ ys) = marked t xs ++ marked t ys := by
  rw [marked, List.filter_append, List.map_append, marked, marked]

theorem marked_isPrefix (t : T) {xs ys : List (T × X)} (h : xs <+: ys) :
    marked t xs <+: marked t ys := by
  obtain ⟨zs, rfl⟩ := h
  rw [marked_append]
  exact List.prefix_append _ _

theorem length_marked (t : T) (xs : List (T × X)) :
    (marked t xs).length = (xs.map Prod.fst).count t := by
  rw [marked, List.length_map, ← List.countP_eq_length_filter, List.count, List.countP_map]
  exact List.countP_congr fun _ _ => by simp

end Marked

/-- The message of a sender that gets hold of `sync_`, with the number of the sender. -/
def MailboxEvent.sentFrom {M : Type} : MailboxEvent M → List (ℕ × M)
  | lock i msg => [(i, msg)]
  | _ => []

theorem MailboxEvent.map_sentFrom {M : Type} (e : MailboxEvent M) :
    e.sentFrom.map Prod.snd = e.sent := by
  cases e with
  | lock | write | flush | unLock | signal | signalInterrupted => rfl
  | recv | firstRead | wait | recvSignal | secondRead => rfl

/-- All that a step of a sender sends is its own. -/
theorem MailboxEvent.sentFrom_of_sender {M : Type} {e : MailboxEvent M} {i : ℕ}
    (he : e.sender = some i) : e.sentFrom = e.sent.map (i, ·) := by
  cases e with
  | lock j msg =>
    obtain rfl : j = i := Option.some.inj he
    rfl
  | write | flush | unLock | signal | signalInterrupted => rfl
  | recv | firstRead | wait | recvSignal | secondRead => cases he

namespace WorkerEvent

/-- The Worker selected in a call of `AcceptNewSession` or `CreateRpcChannel`, and the message of
the call. -/
def called : WorkerEvent → List (WorkerPtr × Message)
  | accept w session => [(w, .accept session)]
  | createRpcChannel w request => [(w, .rpcChannel request)]
  | _ => []

/-- The message of a call. -/
def message (e : WorkerEvent) : List Message := e.called.map Prod.snd

/-- What the thread of the `Application` puts into a mailbox, and into whose. -/
def put : WorkerEvent → List (WorkerPtr × Message)
  | main w e => e.sent.map (w, ·)
  | _ => []

end WorkerEvent

/-- The call the thread of the `Application` is in, before it has put the message into the
mailbox. -/
def MainPc.call? : MainPc → List (WorkerPtr × Message)
  | call w msg => [(w, msg)]
  | idle | inSend _ => []

/-- The messages the thread of the `Application`, the sender 0, has put into the mailbox of `w`. -/
def sentTo (w : WorkerPtr) (ls : List WorkerEvent) : List Message :=
  marked 0 ((ls.flatMap (WorkerEvent.mailboxOf w)).flatMap MailboxEvent.sentFrom)

/-- Those of them among the messages `w` has processed, which are the first of those sent to it. -/
def gotBy (w : WorkerPtr) (ls : List WorkerEvent) : List Message :=
  marked 0 (((ls.flatMap (WorkerEvent.mailboxOf w)).flatMap MailboxEvent.sentFrom).take
    (ls.flatMap (WorkerEvent.processed w)).length)

section Turns

variable {s₀ s s' : WorkerPool} {e : WorkerEvent} {ls : List WorkerEvent}

/-! ## Calls -/

/-- What the thread of the `Application` has selected a Worker for, it puts into its mailbox. -/
theorem WorkerStep.call? (hs : WorkerStep s e s') :
    s.main.call? ++ e.called = e.put ++ s'.main.call? := by
  cases hs with
  | accept hmain => rw [hmain]; rfl
  | createRpcChannel _ hmain => rw [hmain]; rfl
  | mainLock hmain => rw [hmain]; rfl
  | @mainSend _ w e' mb hmain he hlock _ =>
    have hsent : e'.sent = [] := by
      cases e' with
      | lock i msg =>
        obtain rfl : i = 0 := Option.some.inj he
        exact absurd rfl (hlock msg)
      | write | flush | unLock | signal | signalInterrupted => rfl
      | recv | firstRead | wait | recvSignal | secondRead => rfl
    rw [hmain, WorkerPool.setMain_main, WorkerEvent.put, hsent]
    split <;> rfl
  | other | in_ | recv | receive => simp [WorkerEvent.called, WorkerEvent.put]
  | process _ hprocess =>
    rcases WorkerPool.process_ok hprocess with ⟨session, -, -, rfl⟩ | ⟨-, channels, rfl⟩
    · simp [WorkerEvent.called, WorkerEvent.put]
    · simp [WorkerEvent.called, WorkerEvent.put]

theorem called_eq (h₀ : s₀.Start) (hrun : Run WorkerStep s₀ ls s) :
    ls.flatMap WorkerEvent.called = ls.flatMap WorkerEvent.put ++ s.main.call? := by
  have hbalance := hrun.balance (fun s => s.main.call?) WorkerEvent.called WorkerEvent.put
    fun _ _ _ hs => hs.call?
  rw [h₀.2.1] at hbalance
  exact hbalance

/-- The messages of the sender 0 in the mailbox of `w` are those the thread of the `Application` has
put into it. -/
theorem WorkerStep.marked_put (hs : WorkerStep s e s') (w : WorkerPtr) :
    marked 0 ((e.mailboxOf w).flatMap MailboxEvent.sentFrom) = marked w e.put := by
  -- a step of the sender `i` at the mailbox of `v`
  have hfrom : ∀ {v : WorkerPtr} {e : MailboxEvent Message} {i : ℕ}, e.sender = some i →
      (if v = w then [e] else []).flatMap MailboxEvent.sentFrom =
        if v = w then e.sent.map (i, ·) else [] := by
    intro v e i he
    split
    · rw [List.flatMap_singleton, MailboxEvent.sentFrom_of_sender he]
    · rfl
  have hput : ∀ {v : WorkerPtr} {e : MailboxEvent Message}, e.sender = some 0 →
      marked 0 (((WorkerEvent.main v e).mailboxOf w).flatMap MailboxEvent.sentFrom) =
        marked w (WorkerEvent.main v e).put := by
    intro v e he
    rw [WorkerEvent.mailboxOf, hfrom he, WorkerEvent.put]
    by_cases hv : v = w
    · simp [hv, marked, List.filter_map, Function.comp_def]
    · simp [hv, marked, List.filter_map, Function.comp_def]
  cases hs with
  | accept | createRpcChannel | in_ | process => rfl
  | mainLock => exact hput rfl
  | mainSend _ he => exact hput he
  | @other _ v i e' mb he =>
    rw [WorkerEvent.mailboxOf, hfrom he]
    split
    · simp [WorkerEvent.put, marked, List.filter_map, Function.comp_def]
    · rfl
  | @recv _ v mb =>
    rw [WorkerEvent.mailboxOf]
    split <;> rfl
  | @receive _ v e' mb interrupted _ he =>
    rw [WorkerEvent.mailboxOf]
    split
    · have hsent : e'.sentFrom = [] :=
        List.map_eq_nil_iff.mp (e'.map_sentFrom.trans (MailboxEvent.sent_of_receiver he))
      rw [List.flatMap_singleton, hsent]
      rfl
    · rfl

theorem sentTo_eq (hrun : Run WorkerStep s₀ ls s) (w : WorkerPtr) :
    sentTo w ls = marked w (ls.flatMap WorkerEvent.put) := by
  rw [sentTo]
  induction hrun with
  | nil => rfl
  | cons hs _ ih =>
    rw [List.flatMap_cons, List.flatMap_append, marked_append, ih, hs.marked_put w,
      List.flatMap_cons, marked_append]

/-! ## Turns -/

theorem Application.selectWorker_eq {a a' : Application} {w : WorkerPtr}
    (h : a.selectWorker = (w, a')) : a'.workers = a.workers ∧
      (a'.index : ℕ) = (a.index + 1) % a.workers.length ∧
      a.workers[(a.index + 1) % a.workers.length]? = some w := by
  obtain ⟨rfl, rfl⟩ := Prod.mk.inj h
  exact ⟨rfl, rfl, List.getElem?_eq_getElem _⟩

/-- Where the index is and who has been selected so far, when it was `c` at first. -/
structure WorkerPool.Turns (ws : List WorkerPtr) (c : ℕ) (ls : List WorkerEvent) (s : WorkerPool) :
    Prop where
  workers : s.application.workers = ws
  index : (s.application.index : ℕ) = (c + (ls.flatMap WorkerEvent.called).length) % ws.length
  selected : GoesRound ws (c + 1) ((ls.flatMap WorkerEvent.called).map Prod.fst)

/-- A step selects the next Worker, or none. -/
theorem WorkerStep.turns {ws : List WorkerPtr} {c : ℕ} (h : s.Turns ws c ls)
    (hs : WorkerStep s e s') : s'.Turns ws c (ls ++ [e]) := by
  have hsame : ∀ {s' : WorkerPool} {e : WorkerEvent}, e.called = [] →
      s'.application = s.application → s'.Turns ws c (ls ++ [e]) := by
    intro s' e he happ
    have hls : (ls ++ [e]).flatMap WorkerEvent.called = ls.flatMap WorkerEvent.called := by
      rw [List.flatMap_append, List.flatMap_singleton, he, List.append_nil]
    exact ⟨happ ▸ h.workers, by rw [hls, happ, h.index], by rw [hls]; exact h.selected⟩
  have hnext : ∀ {s' : WorkerPool} {e : WorkerEvent} {w : WorkerPtr} {msg : Message}
      {a : Application}, e.called = [(w, msg)] → s.application.selectWorker = (w, a) →
      s'.application = a → s'.Turns ws c (ls ++ [e]) := by
    rintro s' e w msg a he hselect rfl
    obtain ⟨hworkers, hindex, hw⟩ := Application.selectWorker_eq hselect
    rw [h.index, h.workers, Nat.mod_add_mod] at hindex hw
    have hls : (ls ++ [e]).flatMap WorkerEvent.called =
        ls.flatMap WorkerEvent.called ++ [(w, msg)] := by
      rw [List.flatMap_append, List.flatMap_singleton, he]
    refine ⟨hworkers.trans h.workers, ?_, ?_⟩
    · rw [hls, hindex, List.length_append, List.length_singleton, Nat.add_assoc]
    · rw [hls, List.map_append, List.map_singleton]
      refine h.selected.snoc ?_
      rw [List.length_map, Nat.add_right_comm]
      exact hw
  cases hs with
  | accept _ hselect => exact hnext rfl hselect rfl
  | createRpcChannel _ _ hselect => exact hnext rfl hselect rfl
  | mainLock | mainSend | other | in_ | recv | receive => exact hsame rfl rfl
  | process _ hprocess =>
    rcases WorkerPool.process_ok hprocess with ⟨session, -, -, rfl⟩ | ⟨-, channels, rfl⟩
    · exact hsame rfl rfl
    · exact hsame rfl rfl

/-- The mailboxes the thread of the `Application` has put a message into go round. -/
theorem put_goesRound (h₀ : s₀.Start) (hrun : Run WorkerStep s₀ ls s) :
    GoesRound s₀.application.workers (s₀.application.index + 1)
      ((ls.flatMap WorkerEvent.put).map Prod.fst) := by
  have hturns : s.Turns s₀.application.workers s₀.application.index ls :=
    Run.snoc_induction
      (P := fun ls s => s.Turns s₀.application.workers s₀.application.index ls)
      ⟨rfl, by simp [Nat.mod_eq_of_lt s₀.application.index.isLt], .nil⟩
      (fun _ _ _ _ _ h hs => hs.turns h) hrun
  refine hturns.selected.of_isPrefix ?_
  rw [called_eq h₀ hrun, List.map_append]
  exact List.prefix_append _ _

/-! ## What a Worker gets -/

/-- A Worker processes the messages in the order in which they came. -/
theorem processed_eq_take (h₀ : s₀.Start) (hrun : Run WorkerStep s₀ ls s) (w : WorkerPtr) :
    ls.flatMap (WorkerEvent.processed w) =
      (((ls.flatMap (WorkerEvent.mailboxOf w)).flatMap MailboxEvent.sentFrom).take
        (ls.flatMap (WorkerEvent.processed w)).length).map Prod.snd := by
  obtain ⟨current, -, hpre⟩ := processed_prefix h₀ hrun w
  have hsent : ((ls.flatMap (WorkerEvent.mailboxOf w)).flatMap MailboxEvent.sentFrom).map Prod.snd =
      (ls.flatMap (WorkerEvent.mailboxOf w)).flatMap MailboxEvent.sent := by
    rw [List.map_flatMap]
    exact List.flatMap_congr fun e _ => e.map_sentFrom
  rw [List.map_take, hsent]
  exact List.prefix_iff_eq_take.mp ((List.prefix_append _ _).trans hpre)

theorem gotBy_isPrefix (w : WorkerPtr) (ls : List WorkerEvent) : gotBy w ls <+: sentTo w ls :=
  marked_isPrefix 0 (List.take_prefix ..)

/-- A Worker whose mailbox is empty, and who is not about to process a message, has got all messages
of the `Application`. -/
theorem gotBy_eq_sentTo (h₀ : s₀.Start) (hrun : Run WorkerStep s₀ ls s) {w : WorkerPtr}
    (hpc : ∀ m, s.pc w ≠ .process m)
    (hlen : ((ls.flatMap (WorkerEvent.mailboxOf w)).flatMap MailboxEvent.delivered).length =
      ((ls.flatMap (WorkerEvent.mailboxOf w)).flatMap MailboxEvent.sent).length) :
    gotBy w ls = sentTo w ls := by
  rw [gotBy, processed_eq_sent h₀ hrun hpc hlen, sentTo, List.take_of_length_le]
  rw [← List.length_map (f := Prod.snd), List.map_flatMap]
  exact (congrArg List.length (List.flatMap_congr fun e _ => e.map_sentFrom)).le

/-- **The Workers take turns**, under every interleaving. The `k`-th call of `AcceptNewSession` or
`CreateRpcChannel` puts its message into the mailbox of the Worker `k` places behind the first one,
going round, so that none is sent more than one of these messages more than another. Of those sent
to it a Worker has got the first ones, and once its mailbox is empty no other has got more than one
more. -/
theorem workers_take_turns (h₀ : s₀.Start) (hrun : Run WorkerStep s₀ ls s) :
    ls.flatMap WorkerEvent.message =
      (ls.flatMap WorkerEvent.put).map Prod.snd ++ s.main.call?.map Prod.snd ∧
    (∀ k w msg, (ls.flatMap WorkerEvent.put)[k]? = some (w, msg) →
      s₀.application.workers[(s₀.application.index + 1 + k) %
        s₀.application.workers.length]? = some w) ∧
    (∀ w, sentTo w ls = marked w (ls.flatMap WorkerEvent.put) ∧ gotBy w ls <+: sentTo w ls ∧
      ls.flatMap (WorkerEvent.processed w) =
        (((ls.flatMap (WorkerEvent.mailboxOf w)).flatMap MailboxEvent.sentFrom).take
          (ls.flatMap (WorkerEvent.processed w)).length).map Prod.snd) ∧
    ∀ v ∈ s₀.application.workers, ∀ w ∈ s₀.application.workers,
      (sentTo v ls).length ≤ (sentTo w ls).length + 1 ∧
      ((∀ m, s.pc w ≠ .process m) →
        ((ls.flatMap (WorkerEvent.mailboxOf w)).flatMap MailboxEvent.delivered).length =
          ((ls.flatMap (WorkerEvent.mailboxOf w)).flatMap MailboxEvent.sent).length →
        gotBy w ls = sentTo w ls ∧ (gotBy v ls).length ≤ (gotBy w ls).length + 1) := by
  have hround := put_goesRound h₀ hrun
  refine ⟨?_, fun k w msg hk => ?_,
    fun w => ⟨sentTo_eq hrun w, gotBy_isPrefix w ls, processed_eq_take h₀ hrun w⟩,
    fun v hv w hw => ?_⟩
  · rw [← List.map_append, ← called_eq h₀ hrun, List.map_flatMap]
    rfl
  · exact hround.getElem?_eq (by rw [List.getElem?_map, hk]; rfl)
  · have hsent : (sentTo v ls).length ≤ (sentTo w ls).length + 1 := by
      rw [sentTo_eq hrun, sentTo_eq hrun, length_marked, length_marked]
      exact hround.count_le h₀.1 hv hw
    refine ⟨hsent, fun hpc hlen => ?_⟩
    have hgot := gotBy_eq_sentTo h₀ hrun hpc hlen
    exact ⟨hgot, hgot ▸ (gotBy_isPrefix v ls).length_le.trans hsent⟩

theorem workers_take_turns_three_calls : ∃ s₀ s s', s₀.Start ∧
    Run WorkerStep s₀ WorkerEvent.twoSessions s ∧
    Run WorkerStep s₀ (WorkerEvent.twoSessions ++ WorkerEvent.twoSessionsRest) s' ∧
    s₀.application.workers = [0, 1] ∧
    WorkerEvent.twoSessions.flatMap WorkerEvent.put =
      [(1, .accept 7), (0, .accept 8), (1, .rpcChannel 3)] ∧
    (∀ k w msg, (WorkerEvent.twoSessions.flatMap WorkerEvent.put)[k]? = some (w, msg) →
      s₀.application.workers[(s₀.application.index + 1 + k) %
        s₀.application.workers.length]? = some w) ∧
    -- the second Worker has got both messages sent to it, the first one none
    (sentTo 1 WorkerEvent.twoSessions).length ≤ (sentTo 0 WorkerEvent.twoSessions).length + 1 ∧
    gotBy 1 WorkerEvent.twoSessions = [.accept 7, .rpcChannel 3] ∧
    gotBy 0 WorkerEvent.twoSessions = [] ∧
    -- then it has got its own, and the message of the other thread
    gotBy 0 (WorkerEvent.twoSessions ++ WorkerEvent.twoSessionsRest) = [.accept 8] ∧
    (WorkerEvent.twoSessions ++ WorkerEvent.twoSessionsRest).flatMap (WorkerEvent.processed 0) =
      [.accept 8, .other 2] ∧
    ∀ v ∈ s₀.application.workers,
      (gotBy v (WorkerEvent.twoSessions ++ WorkerEvent.twoSessionsRest)).length ≤
        (gotBy 0 (WorkerEvent.twoSessions ++ WorkerEvent.twoSessionsRest)).length + 1 := by
  obtain ⟨mb, s, s', hmb, hrun, hrest, -, -, -, -, hpc₀', -⟩ := two_workers_run
  have hstart := WorkerPool.two_start hmb
  have h := workers_take_turns hstart hrun
  have h' := workers_take_turns hstart (hrun.append hrest)
  have hmem₀ : (0 : WorkerPtr) ∈ (WorkerPool.two mb).application.workers := .head _
  have hmem₁ : (1 : WorkerPtr) ∈ (WorkerPool.two mb).application.workers := .tail _ (.head _)
  exact ⟨_, s, s', hstart, hrun, hrun.append hrest, rfl, rfl, h.2.1,
    (h.2.2.2 1 hmem₁ 0 hmem₀).1, rfl, rfl, rfl, rfl,
    fun v hv => ((h'.2.2.2 v hv 0 hmem₀).2 (by simp [hpc₀']) rfl).2⟩

end Turns

end ServerKit
