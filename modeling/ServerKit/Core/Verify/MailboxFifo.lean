import ServerKit.Core.Verify.MailboxInv
import ServerKit.Base.Verify.PipeFifo

/-!
# A mailbox delivers every message once, in order

The messages the receiver gets are the first of those the senders brought in, in the order in which
they held `sync_`; and a `Recv` that returns `kOK` has got one.
-/

namespace ServerKit

open Lib

variable {M : Type}

/-! ## What goes in and what comes out -/

namespace MailboxEvent

/-- The message of a sender that gets hold of `sync_`. -/
def sent : MailboxEvent M → List M
  | lock _ msg => [msg]
  | _ => []

/-- What a `Recv` that returns `kOK` has stored in its argument: nothing new if its second `Read`
has failed. -/
def delivered : MailboxEvent M → List (Option M)
  | firstRead (some msg) => [some msg]
  | secondRead r => [r]
  | _ => []

end MailboxEvent

/-- The messages the senders have brought in so far. -/
def Mailbox.messages (s : Mailbox (PipeLog M) M) : List M :=
  s.pipe.items ++ match s.sync with
    | some i => (s.send i).unwritten
    | none => []

/-- The messages the receiver has taken so far. -/
def Mailbox.receivedMessages (s : Mailbox (PipeLog M) M) : List M :=
  s.pipe.items.take s.pipe.taken

namespace MailboxOk

variable {s s' : Mailbox (PipeLog M) M} {e : MailboxEvent M}

theorem sync_eq (h : MailboxOk s) {i : ℕ} (hi : (s.send i).Holds) : s.sync = some i :=
  (h.holder i).mp hi

/-- The messages while a sender holds `sync_`. -/
theorem messages_eq (h : MailboxOk s) {i : ℕ} (hi : (s.send i).Holds) :
    s.messages = s.pipe.items ++ (s.send i).unwritten := by
  rw [Mailbox.messages, h.sync_eq hi]

/-- A step of the sender that holds `sync_`. -/
theorem messages_move (h : MailboxOk s) {i : ℕ} {pc : SendPc M} {t : PipeLog M}
    (h' : MailboxOk ((s.setPipe t).setSend i pc)) (hi : (s.send i).Holds) (hpc : pc.Holds)
    (heq : s.pipe.items ++ (s.send i).unwritten = t.items ++ pc.unwritten) :
    s.messages = ((s.setPipe t).setSend i pc).messages := by
  have hself : (Function.update s.send i pc) i = pc := Function.update_self ..
  rw [h.messages_eq hi, heq]
  refine Eq.trans ?_ (h'.messages_eq (i := i) ?_).symm
  · change _ = t.items ++ (Function.update s.send i pc i).unwritten
    rw [hself]
  · change (Function.update s.send i pc i).Holds
    rw [hself]
    exact hpc

theorem sent_step (h : MailboxOk s) (hs : MailboxStep PipeStep s e s') :
    s.messages ++ e.sent = s'.messages := by
  have h' := h.step hs
  cases hs with
  | lock hi hsync =>
    rename_i i msg
    rw [h'.messages_eq (i := i) (by simp [Mailbox.setSend, SendPc.Holds])]
    simp [Mailbox.messages, hsync, Mailbox.setSend, Mailbox.setSync, SendPc.unwritten,
      MailboxEvent.sent]
  | write hi hs =>
    rename_i i msg t
    refine (List.append_nil _).trans (h.messages_move h' (by rw [hi]; trivial) trivial ?_)
    rw [hi]
    cases hs with
    | write _ _ hf => exact (List.append_nil _).symm
  | flushNothing hi hs => exact absurd hs (h.not_flushNothing hi)
  | flushTry hi hs =>
    refine (List.append_nil _).trans (h.messages_move h' (by rw [hi]; trivial) ?_ ?_)
    · split <;> trivial
    · rw [hi]
      cases hs with
      | flushTry => rfl
      | flushTryAsleep => rfl
  | flushSet hi hs =>
    refine (List.append_nil _).trans (h.messages_move h' (by rw [hi]; trivial) trivial ?_)
    rw [hi]
    cases hs with
    | flushSet => rfl
  | unLock dummy hi =>
    rename_i i ok
    rw [h.messages_eq (i := i) (by rw [hi]; trivial), hi]
    simp [Mailbox.messages, Mailbox.setSend, Mailbox.setSync, SendPc.unwritten, MailboxEvent.sent]
  | signal hi =>
    rename_i i dummy
    refine (List.append_nil _).trans ?_
    cases hsync : s.sync with
    | none => simp [Mailbox.messages, Mailbox.setSend, Mailbox.setCounter, hsync]
    | some j =>
      have hj := (h.holder j).mpr hsync
      have hne : j ≠ i := by rintro rfl; rw [hi] at hj; exact hj
      simp [Mailbox.messages, Mailbox.setSend, Mailbox.setCounter, hsync,
        Function.update_of_ne hne]
  | signalInterrupted hi => exact List.append_nil _
  | recv hr => exact List.append_nil _
  | firstRead hr hs =>
    refine (List.append_nil _).trans ?_
    cases hs with
    | read => rfl
  | firstReadNone hr hs =>
    refine (List.append_nil _).trans ?_
    cases hs with
    | readNone => rfl
  | wait hr hw => exact List.append_nil _
  | recvSignal hr hrun =>
    refine (List.append_nil _).trans ?_
    split <;> rfl
  | secondRead hr hs =>
    refine (List.append_nil _).trans ?_
    cases hs with
    | read => rfl
    | readNone => rfl

/-- A `Read` of the pipe takes the message behind those received. -/
theorem received_read {msg : M} {t : PipeLog M} (hs : PipeStep s.pipe (.read (some msg)) t) :
    s.receivedMessages ++ [msg] = t.items.take t.taken := by
  cases hs with
  | read hlt hv =>
    change _ = s.pipe.items.take (s.pipe.taken + 1)
    rw [List.take_add_one, hv]
    rfl

theorem received_write (h : MailboxOk s) {msg : M} {t : PipeLog M}
    (hs : PipeStep s.pipe (.write msg false) t) :
    s.receivedMessages = t.items.take t.taken := by
  have hle := h.pipe.taken_le.trans (h.pipe.flushed_le.trans h.pipe.completed_le)
  cases hs with
  | write _ _ hf => exact (List.take_append_of_le_length hle).symm

theorem delivered_step (h : MailboxOk s) (hs : MailboxStep PipeStep s e s') :
    s.receivedMessages.map some ++ e.delivered = s'.receivedMessages.map some := by
  cases hs with
  | lock hi hsync => exact List.append_nil _
  | write hi hs =>
    refine (List.append_nil _).trans ?_
    rw [h.received_write hs]
    rfl
  | flushNothing hi hs => exact absurd hs (h.not_flushNothing hi)
  | flushTry hi hs =>
    refine (List.append_nil _).trans ?_
    cases hs with
    | flushTry => rfl
    | flushTryAsleep => rfl
  | flushSet hi hs =>
    refine (List.append_nil _).trans ?_
    cases hs with
    | flushSet => rfl
  | unLock dummy hi => exact List.append_nil _
  | signal hi => exact List.append_nil _
  | signalInterrupted hi => exact List.append_nil _
  | recv hr => exact List.append_nil _
  | firstRead hr hs =>
    rename_i t msg
    change _ ++ [msg].map some = (t.items.take t.taken).map some
    rw [← List.map_append, received_read hs]
  | firstReadNone hr hs =>
    refine (List.append_nil _).trans ?_
    cases hs with
    | readNone => rfl
  | wait hr hw => exact List.append_nil _
  | recvSignal hr hrun =>
    refine (List.append_nil _).trans ?_
    split <;> rfl
  | secondRead hr hs =>
    rename_i t r
    obtain ⟨⟨msg, rfl⟩, -⟩ := h.secondRead hr hs
    change _ ++ [msg].map some = (t.items.take t.taken).map some
    rw [← List.map_append, received_read hs]

end MailboxOk

/-! ## The mailbox of the repository -/

section Over

variable {S S' : Type} {PStep : Lts S (PipeEvent M)} {PStep' : Lts S' (PipeEvent M)}
  {R : S → S' → Prop}

/-- The mailbox with another pipe. -/
def Mailbox.over (s : Mailbox S M) (pipe : S') : Mailbox S' M where
  pipe := pipe
  counter := s.counter
  sync := s.sync
  active := s.active
  send := s.send
  recv := s.recv

/-- Two mailboxes that differ in their pipes, which are related. -/
def Mailbox.Related (R : S → S' → Prop) (s : Mailbox S M) (t : Mailbox S' M) : Prop :=
  R s.pipe t.pipe ∧ t = s.over t.pipe

/-- A mailbox over a pipe that simulates another simulates the mailbox over the other. -/
theorem MailboxStep.over (hsim : ∀ s e s' t, R s t → PStep s e s' → ∃ t', PStep' t e t' ∧ R s' t')
    {s s' : Mailbox S M} {e : MailboxEvent M} {t : Mailbox S' M} (hR : Mailbox.Related R s t)
    (hs : MailboxStep PStep s e s') :
    ∃ t', MailboxStep PStep' t e t' ∧ Mailbox.Related R s' t' := by
  obtain ⟨hpipe, heq⟩ := hR
  generalize t.pipe = p at hpipe heq
  subst heq
  cases hs with
  | lock hi hsync => exact ⟨_, .lock hi hsync, hpipe, rfl⟩
  | write hi hs =>
    obtain ⟨p', hs', hp'⟩ := hsim _ _ _ _ hpipe hs
    exact ⟨_, .write hi hs', hp', rfl⟩
  | flushNothing hi hs =>
    obtain ⟨p', hs', hp'⟩ := hsim _ _ _ _ hpipe hs
    exact ⟨_, .flushNothing hi hs', hp', rfl⟩
  | flushTry hi hs =>
    obtain ⟨p', hs', hp'⟩ := hsim _ _ _ _ hpipe hs
    exact ⟨_, .flushTry hi hs', hp', rfl⟩
  | flushSet hi hs =>
    obtain ⟨p', hs', hp'⟩ := hsim _ _ _ _ hpipe hs
    exact ⟨_, .flushSet hi hs', hp', rfl⟩
  | unLock dummy hi => exact ⟨_, .unLock dummy hi, hpipe, rfl⟩
  | signal hi => exact ⟨_, .signal hi, hpipe, rfl⟩
  | signalInterrupted hi => exact ⟨_, .signalInterrupted hi, hpipe, rfl⟩
  | recv hr => exact ⟨_, .recv hr, hpipe, rfl⟩
  | firstRead hr hs =>
    obtain ⟨p', hs', hp'⟩ := hsim _ _ _ _ hpipe hs
    exact ⟨_, .firstRead hr hs', hp', rfl⟩
  | firstReadNone hr hs =>
    obtain ⟨p', hs', hp'⟩ := hsim _ _ _ _ hpipe hs
    exact ⟨_, .firstReadNone hr hs', hp', rfl⟩
  | wait hr hw => exact ⟨_, .wait hr hw, hpipe, rfl⟩
  | recvSignal hr hrun =>
    refine ⟨_, .recvSignal hr hrun, ?_⟩
    split <;> exact ⟨hpipe, rfl⟩
  | secondRead hr hs =>
    obtain ⟨p', hs', hp'⟩ := hsim _ _ _ _ hpipe hs
    exact ⟨_, .secondRead hr hs', hp', rfl⟩

end Over

/-- The mailbox of the repository over a pipe in the state `t.pipe`. -/
abbrev MailboxRep (s : Mailbox (YPipeState M 16) M) (t : Mailbox (PipeLog M) M) : Prop :=
  Mailbox.Related PipeRep s t

theorem MailboxStep.pipe {s s' : Mailbox (YPipeState M 16) M} {e : MailboxEvent M}
    {t : Mailbox (PipeLog M) M} (hrep : MailboxRep s t) (hs : MailboxStep YPipeStep s e s') :
    ∃ t', MailboxStep PipeStep t e t' ∧ MailboxRep s' t' :=
  MailboxStep.over (fun _ _ _ _ hR hs => hs.pipe hR) hrep hs

/-- The reader of a new mailbox is asleep. -/
theorem Mailbox.Start.rep {s : Mailbox (YPipeState M 16) M} (h : s.Start) :
    MailboxRep s .start := by
  obtain ⟨p, p', y, y', found, hp, hnew, hcheck, rfl⟩ := h
  obtain ⟨y₁, hnew₁, hrep⟩ := YPipe.new_rep (T := M) (N := 16) (by decide) hp
  obtain rfl := Option.some.inj (hnew₁.symm.trans hnew)
  obtain ⟨t, hs, hrep'⟩ := (YPipeStep.checkRead hcheck).pipe hrep
  cases hs with
  | checkRead hlt => exact absurd hlt (lt_irrefl 0)
  | checkReadNone => exact ⟨hrep', rfl⟩

section Runs

variable {t : Mailbox (PipeLog M) M} {es : List (MailboxEvent M)}

theorem Lib.Run.mailboxOk (h : Run (MailboxStep PipeStep) Mailbox.start es t) : MailboxOk t :=
  h.invariant MailboxOk (fun _ _ _ h hs => h.step hs) .new

theorem Lib.Run.sent_eq (h : Run (MailboxStep PipeStep) Mailbox.start es t) :
    es.flatMap MailboxEvent.sent = t.messages :=
  h.conserve MailboxOk (fun _ _ _ h hs => h.step hs) Mailbox.messages MailboxEvent.sent
    (fun _ _ _ h hs => h.sent_step hs) .new

theorem Lib.Run.delivered_eq (h : Run (MailboxStep PipeStep) Mailbox.start es t) :
    es.flatMap MailboxEvent.delivered = t.receivedMessages.map some :=
  h.conserve MailboxOk (fun _ _ _ h hs => h.step hs) (fun s => s.receivedMessages.map some)
    MailboxEvent.delivered (fun _ _ _ h hs => h.delivered_step hs) .new

end Runs

/-- **A mailbox delivers every message exactly once, in order.** Over any interleaving of any number
of senders and the receiver, what the `Recv` calls that return `kOK` have stored is a message each
time, and these are the first of the messages in the order in which the senders held `sync_`. A
`Recv` at its second `Read` can go on, and gets a message there. -/
theorem mailbox_fifo {s₀ s : Mailbox (YPipeState M 16) M} {es : List (MailboxEvent M)}
    (h₀ : s₀.Start) (hrun : Run (MailboxStep YPipeStep) s₀ es s) :
    (∃ ms, es.flatMap MailboxEvent.delivered = ms.map some ∧
      ms <+: es.flatMap MailboxEvent.sent) ∧
    (s.recv = .secondRead → ∃ r s', MailboxStep YPipeStep s (.secondRead r) s') ∧
    ∀ r s', MailboxStep YPipeStep s (.secondRead r) s' → ∃ msg, r = some msg := by
  obtain ⟨t, hrun', hrep⟩ := hrun.simulate (fun _ _ _ _ hR hs => hs.pipe hR) _ h₀.rep
  have hok := hrun'.mailboxOk
  refine ⟨⟨_, hrun'.delivered_eq, ?_⟩, ?_, ?_⟩
  · rw [hrun'.sent_eq]
    exact (List.take_prefix ..).trans (List.prefix_append ..)
  · intro hr
    obtain ⟨r, pipe, hread⟩ := hrep.1.defined.2.2
    exact ⟨r, _, .secondRead hr hread⟩
  · intro r s' hs
    obtain ⟨t', hs', -⟩ := hs.pipe hrep
    cases hs' with
    | secondRead hr hread => exact (hok.secondRead hr hread).1

/-- One message is sent to the sleeping receiver, which gets the signal and then the message. -/
theorem mailbox_fifo_one_message :
    ∃ (s₀ s : Mailbox (YPipeState ℕ 16) ℕ) (es : List (MailboxEvent ℕ)), s₀.Start ∧
      Run (MailboxStep YPipeStep) s₀ es s ∧ es.flatMap MailboxEvent.delivered = [some 7] ∧
      ∃ ms : List ℕ, [some 7] = ms.map some ∧ ms <+: [7] := by
  obtain ⟨s₀, h₀, s, hrun⟩ : ∃ s₀ : Mailbox (YPipeState ℕ 16) ℕ, s₀.Start ∧
      ∃ s, Run (MailboxStep YPipeStep) s₀ [.lock 0 7, .write 0, .flush 0, .flush 0, .unLock 0 5,
        .signal 0, .recv, .wait 1, .recvSignal 8, .secondRead (some 7)] s := by
    exact ⟨_, ⟨0, 1, _, _, _, by decide, rfl, rfl, rfl⟩, _,
      .cons (.lock rfl rfl) <| .cons (.write rfl (.write (p := 2) rfl rfl)) <|
      .cons (.flushTry rfl (.flushCas (by decide) rfl)) <| .cons (.flushSet rfl .flushSet) <|
      .cons (.unLock 5 rfl) <| .cons (.signal rfl) <| .cons (.recv rfl) <|
      .cons (.wait rfl (.inr (.inr ⟨rfl, by decide⟩))) <| .cons (.recvSignal rfl rfl) <|
      .single (.secondRead rfl (.read rfl))⟩
  exact ⟨s₀, s, _, h₀, hrun, rfl, (mailbox_fifo h₀ hrun).1⟩

end ServerKit
