import ServerKit.Core.Verify.MailboxFifo

/-!
# When a mailbox wakes its receiver up

`Signaler::Send` writes a local variable that nothing initialises. When its value is 0 the counter
of the eventfd stays as it is, and when it is `2^64 - 1` the write fails: either way the signal is
lost, and with it every later message, since no sender finds the reader asleep again. With any other
value the receiver is woken up.
-/

namespace ServerKit

open Lib

variable {S M : Type}

/-! ## The condition and the property -/

/-- What `Signaler::Send` has to write for the counter of an eventfd at 0 to become positive. -/
def Signaler.Wakes (dummy : UInt64) : Prop := dummy ≠ 0 ∧ dummy.toNat ≤ maxEventfd

instance (dummy : UInt64) : Decidable (Signaler.Wakes dummy) :=
  inferInstanceAs (Decidable (_ ∧ _))

/-- The sender that is about to signal will write a value that wakes the receiver. -/
def Mailbox.SignalWakes (s : Mailbox S M) : MailboxEvent M → Prop
  | .unLock i dummy => s.send i = .flushed false → Signaler.Wakes dummy
  | _ => True

/-- When no sender is in `Send` and a message has not been received, the mailbox is active or its
eventfd readable. -/
def Mailbox.Awake (s : Mailbox S M) (es : List (MailboxEvent M)) : Prop :=
  (∀ i, s.send i = .idle) →
    (es.flatMap MailboxEvent.delivered).length < (es.flatMap MailboxEvent.sent).length →
    s.active = true ∨ 0 < s.counter

theorem Signaler.send_pos {dummy : UInt64} (h : Wakes dummy) : 0 < send 0 dummy := by
  have hne : dummy.toNat ≠ 0 := fun h0 => h.1 (UInt64.toNat_inj.mp h0)
  have hle := h.2
  simp only [send, eventfdWrite, Nat.zero_add]
  rw [if_neg (by omega), if_neg (by omega)]
  exact Nat.pos_of_ne_zero hne

theorem Signaler.send_zero {dummy : UInt64} (h : ¬ Wakes dummy) : send 0 dummy = 0 := by
  simp only [send, eventfdWrite, Nat.zero_add]
  by_cases hle : maxEventfd < dummy.toNat
  · rw [if_pos hle]; rfl
  · rw [if_neg hle, if_neg hle]
    by_contra hne
    exact h ⟨fun h0 => hne (by rw [h0]; rfl), by omega⟩

/-! ## What a step does to the signals -/

/-- What a step does to the sender `j`, unless it makes the sender owe a signal or is the signal:
nothing, or it goes on and owes none, or it has got the value it will write. -/
def SenderQuiet (s s' : Mailbox S M) (e : MailboxEvent M) (j : ℕ) : Prop :=
  s'.send j = s.send j ∨ ¬ (s.send j).Pending ∧ ¬ (s'.send j).Pending ∨
    ∃ dummy, e = .unLock j dummy ∧ s.send j = .flushed false ∧ s'.send j = .signalling dummy

/-- The steps of a mailbox, by what they mean for the signals. -/
inductive SignalMove (s s' : Mailbox (PipeLog M) M) (e : MailboxEvent M) : Prop
  /-- No change. -/
  | quiet (hactive : s'.active = s.active) (hasleep : s'.pipe.asleep = s.pipe.asleep)
      (hcounter : s'.counter = s.counter) (hsend : ∀ j, SenderQuiet s s' e j)
  /-- The reader of an active mailbox goes to sleep. -/
  | sleep (hactive : s.active = true) (hasleep : s'.pipe.asleep = true) (hsend : s'.send = s.send)
  /-- A sender finds the reader asleep. -/
  | owe (i : ℕ) (hasleep : s.pipe.asleep = true)
      (hsend : s'.send = Function.update s.send i (.flushed false))
  /-- A sender signals. -/
  | signal (i : ℕ) (dummy : UInt64) (hi : s.send i = .signalling dummy)
      (hactive : s'.active = s.active) (hasleep : s'.pipe.asleep = s.pipe.asleep)
      (hcounter : s'.counter = Signaler.send s.counter dummy)
      (hsend : s'.send = Function.update s.send i .idle)
  /-- The receiver gets a signal. -/
  | wake (hcounter : 0 < s.counter) (hactive : s'.active = true) (hsend : s'.send = s.send)

theorem SenderQuiet.update {s s' : Mailbox S M} {e : MailboxEvent M} {i : ℕ} {pc : SendPc M}
    (hsend : s'.send = Function.update s.send i pc) (hold : ¬ (s.send i).Pending)
    (hnew : ¬ pc.Pending) (j : ℕ) : SenderQuiet s s' e j := by
  by_cases hj : j = i
  · subst hj
    refine .inr (.inl ⟨hold, ?_⟩)
    rw [hsend, Function.update_self]
    exact hnew
  · refine .inl ?_
    rw [hsend, Function.update_of_ne hj]

/-- **The inversion lemma**. -/
theorem MailboxOk.signalMove {s s' : Mailbox (PipeLog M) M} {e : MailboxEvent M}
    (h : MailboxOk s) (hs : MailboxStep PipeStep s e s') : SignalMove s s' e := by
  cases hs with
  | lock hi hsync => exact .quiet rfl rfl rfl (.update rfl (by rw [hi]; exact id) id)
  | write hi hs =>
    cases hs with
    | write => exact .quiet rfl rfl rfl (.update rfl (by rw [hi]; exact id) id)
  | flushNothing hi hs => exact absurd hs (h.not_flushNothing hi)
  | flushTry hi hs =>
    cases hs with
    | flushTry hf hlt ha =>
      exact .quiet rfl ha.symm rfl (.update rfl (by rw [hi]; exact id) id)
    | flushTryAsleep => exact .quiet rfl rfl rfl (.update rfl (by rw [hi]; exact id) id)
  | flushSet hi hs =>
    cases hs with
    | flushSet hf => exact .owe _ (h.pipe.flushing hf).1 rfl
  | unLock dummy hi =>
    rename_i i ok
    cases ok with
    | true => exact .quiet rfl rfl rfl (.update rfl (by rw [hi]; exact id) id)
    | false =>
      refine .quiet rfl rfl rfl fun j => ?_
      by_cases hj : j = i
      · subst hj
        exact .inr (.inr ⟨dummy, rfl, hi, Function.update_self ..⟩)
      · exact .inl (Function.update_of_ne hj ..)
  | signal hi => exact .signal _ _ hi rfl rfl rfl rfl
  | signalInterrupted hi => exact .quiet rfl rfl rfl fun _ => .inl rfl
  | recv hr => exact .quiet rfl rfl rfl fun _ => .inl rfl
  | firstRead hr hs =>
    cases hs with
    | read => exact .quiet rfl rfl rfl fun _ => .inl rfl
  | firstReadNone hr hs =>
    have hrecv := h.recv
    rw [hr] at hrecv
    cases hs with
    | readNone => exact .sleep hrecv rfl rfl
  | wait hr hw => exact .quiet rfl rfl rfl fun _ => .inl rfl
  | recvSignal hr hrun =>
    by_cases hpos : 0 < s.counter
    · have hread : Signaler.recvFailable s.counter = (8, 0) := by
        rw [Signaler.recvFailable, eventfdRead, if_pos hpos]
      obtain ⟨rfl, rfl⟩ := Prod.mk.inj (hread.symm.trans hrun)
      exact .wake hpos rfl rfl
    · have hread : Signaler.recvFailable s.counter = (-1, s.counter) := by
        rw [Signaler.recvFailable, eventfdRead, if_neg hpos]
      obtain ⟨rfl, rfl⟩ := Prod.mk.inj (hread.symm.trans hrun)
      exact .quiet rfl rfl rfl fun _ => .inl rfl
  | secondRead hr hs =>
    cases hs with
    | read => exact .quiet rfl rfl rfl fun _ => .inl rfl
    | readNone heq =>
      have hrecv := h.recv
      rw [hr] at hrecv
      exact absurd heq hrecv.2.ne

theorem SenderQuiet.pending_iff {s s' : Mailbox S M} {e : MailboxEvent M} {j : ℕ}
    (h : SenderQuiet s s' e j) : (s'.send j).Pending ↔ (s.send j).Pending := by
  obtain heq | ⟨hold, hnew⟩ | ⟨dummy, -, hold, hnew⟩ := h
  · rw [heq]
  · exact iff_of_false hnew hold
  · rw [hold, hnew]; exact Iff.rfl

theorem SenderQuiet.signalling {s s' : Mailbox S M} {e : MailboxEvent M} {j : ℕ} {dummy : UInt64}
    (h : SenderQuiet s s' e j) (hj : s'.send j = .signalling dummy) :
    s.send j = .signalling dummy ∨ e = .unLock j dummy ∧ s.send j = .flushed false := by
  obtain heq | ⟨-, hnew⟩ | ⟨dummy', he, hold, hnew⟩ := h
  · exact .inl (heq.symm.trans hj)
  · rw [hj] at hnew; exact absurd trivial hnew
  · obtain rfl := SendPc.signalling.inj (hnew.symm.trans hj)
    exact .inr ⟨he, hold⟩

/-! ## Signals that wake -/

/-- The invariant while every signal wakes: a passive mailbox whose reader is not asleep is owed a
signal, or has got it. -/
structure MailboxWakes (s : Mailbox (PipeLog M) M) : Prop where
  ok : MailboxOk s
  owed : s.active = false → s.pipe.asleep = false → (∃ i, (s.send i).Pending) ∨ 0 < s.counter
  wakes : ∀ i dummy, s.send i = .signalling dummy → Signaler.Wakes dummy

theorem MailboxWakes.new : MailboxWakes (Mailbox.start : Mailbox (PipeLog M) M) where
  ok := .new
  owed _ h := by cases h
  wakes := nofun

theorem MailboxWakes.step {s s' : Mailbox (PipeLog M) M} {e : MailboxEvent M}
    (h : MailboxWakes s) (hs : Lts.restrict (MailboxStep PipeStep) Mailbox.SignalWakes s e s') :
    MailboxWakes s' := by
  obtain ⟨hgood, hs⟩ := hs
  have hok := h.ok.step hs
  obtain ⟨hactive, hasleep, hcounter, hsend⟩ | ⟨hactive, hasleep, hsend⟩ | ⟨i, hasleep, hsend⟩ |
    ⟨i, dummy, hi, hactive, hasleep, hcounter, hsend⟩ | ⟨hcounter, hactive, hsend⟩ :=
    h.ok.signalMove hs
  · refine ⟨hok, fun ha hsl => ?_, fun j dummy hj => ?_⟩
    · rw [hactive] at ha
      rw [hasleep] at hsl
      rw [hcounter]
      refine (h.owed ha hsl).imp_left ?_
      rintro ⟨j, hj⟩
      exact ⟨j, (hsend j).pending_iff.mpr hj⟩
    · obtain hold | ⟨rfl, hold⟩ := (hsend j).signalling hj
      · exact h.wakes j dummy hold
      · exact hgood hold
  · refine ⟨hok, fun _ hsl => absurd (hasleep.symm.trans hsl) (by decide), ?_⟩
    rw [hsend]
    exact h.wakes
  · refine ⟨hok, fun _ _ => .inl ⟨i, ?_⟩, fun j dummy hj => ?_⟩
    · rw [hsend, Function.update_self]; trivial
    · rw [hsend] at hj
      have hflushed : (.flushed false : SendPc M) ≠ .signalling dummy := by
        intro heq
        cases heq
      exact h.wakes j dummy (of_update (P := (· = .signalling dummy)) hflushed hj).2
  · have hzero : s.counter = 0 := h.ok.counter i (by rw [hi]; trivial)
    refine ⟨hok, fun _ _ => .inr ?_, fun j dummy' hj => ?_⟩
    · rw [hcounter, hzero]
      exact Signaler.send_pos (h.wakes i dummy hi)
    · rw [hsend] at hj
      have hidle : (.idle : SendPc M) ≠ .signalling dummy' := by
        intro heq
        cases heq
      exact h.wakes j dummy' (of_update (P := (· = .signalling dummy')) hidle hj).2
  · refine ⟨hok, fun ha => absurd (hactive.symm.trans ha) (by decide), ?_⟩
    rw [hsend]
    exact h.wakes

/-! ## A lost signal -/

/-- The state once a signal is bound to be lost: nothing will wake the receiver. -/
structure MailboxLost (s : Mailbox (PipeLog M) M) : Prop where
  ok : MailboxOk s
  passive : s.active = false
  awake : s.pipe.asleep = false
  counter : s.counter = 0
  lost : ∀ i, (s.send i).Pending → ∃ dummy, s.send i = .signalling dummy ∧ ¬ Signaler.Wakes dummy

theorem MailboxLost.step {s s' : Mailbox (PipeLog M) M} {e : MailboxEvent M}
    (h : MailboxLost s) (hs : MailboxStep PipeStep s e s') : MailboxLost s' := by
  have hok := h.ok.step hs
  obtain ⟨hactive, hasleep, hcounter, hsend⟩ | ⟨hactive, hasleep, hsend⟩ | ⟨i, hasleep, hsend⟩ |
    ⟨i, dummy, hi, hactive, hasleep, hcounter, hsend⟩ | ⟨hcounter, hactive, hsend⟩ :=
    h.ok.signalMove hs
  · refine ⟨hok, hactive.trans h.passive, hasleep.trans h.awake, hcounter.trans h.counter,
      fun j hj => ?_⟩
    obtain ⟨dummy, hold, hlost⟩ := h.lost j ((hsend j).pending_iff.mp hj)
    obtain heq | ⟨hno, -⟩ | ⟨-, -, hflushed, -⟩ := hsend j
    · exact ⟨dummy, heq.trans hold, hlost⟩
    · rw [hold] at hno; exact absurd trivial hno
    · rw [hold] at hflushed; cases hflushed
  · exact absurd (hactive.symm.trans h.passive) (by decide)
  · exact absurd (hasleep.symm.trans h.awake) (by decide)
  · have hpend : (s.send i).Pending := by rw [hi]; trivial
    obtain ⟨dummy', hold, hlost⟩ := h.lost i hpend
    obtain rfl := SendPc.signalling.inj (hi.symm.trans hold)
    refine ⟨hok, hactive.trans h.passive, hasleep.trans h.awake, ?_, fun j hj => ?_⟩
    · rw [hcounter, h.counter, Signaler.send_zero hlost]
    · rw [hsend] at hj
      obtain ⟨hne, hj⟩ := of_update (P := SendPc.Pending) id hj
      exact absurd (h.ok.one j i hj hpend) hne
  · exact absurd h.counter hcounter.ne'

/-- A value that does not wake the receiver loses the signal. -/
theorem MailboxOk.lost {s s' : Mailbox (PipeLog M) M} {e : MailboxEvent M}
    (h : MailboxOk s) (hs : MailboxStep PipeStep s e s') (hbad : ¬ s.SignalWakes e) :
    MailboxLost s' := by
  have hok := h.step hs
  cases hs with
  | unLock dummy hi =>
    rename_i i ok
    obtain ⟨hflushed, hlost⟩ := Classical.not_imp.mp hbad
    obtain rfl := SendPc.flushed.inj (hi.symm.trans hflushed)
    have hpend : (s.send i).Pending := by rw [hi]; trivial
    obtain ⟨hpassive, hawake⟩ := h.of_pending hpend
    refine ⟨hok, hpassive, hawake, h.counter i hpend, fun j hj => ?_⟩
    by_cases hne : j = i
    · subst hne
      exact ⟨dummy, Function.update_self .., hlost⟩
    · have hj : (Function.update s.send i (.signalling dummy) j).Pending := hj
      rw [Function.update_of_ne hne] at hj
      exact absurd (h.one j i hj hpend) hne
  | _ => exact absurd trivial hbad

/-! ## Runs -/

/-- With no sender in `Send`, every message is flushed. -/
theorem MailboxOk.flushed_of_idle {s : Mailbox (PipeLog M) M} (h : MailboxOk s)
    (hidle : ∀ i, s.send i = .idle) :
    s.messages = s.pipe.items ∧ s.pipe.flushed = s.pipe.items.length := by
  have hsync : s.sync = none := by
    cases hs : s.sync with
    | none => rfl
    | some i =>
      have hi := (h.holder i).mpr hs
      rw [hidle i] at hi
      exact hi.elim
  refine ⟨?_, (h.free hsync).1.trans h.complete⟩
  rw [Mailbox.messages, hsync, List.append_nil]

/-- With no sender in `Send`, a message has not been received when one is flushed and not taken. -/
theorem MailboxOk.unreceived_iff {t : Mailbox (PipeLog M) M} {es : List (MailboxEvent M)}
    (hok : MailboxOk t) (hrun : Run (MailboxStep PipeStep) .start es t)
    (hidle : ∀ i, t.send i = .idle) :
    (es.flatMap MailboxEvent.delivered).length < (es.flatMap MailboxEvent.sent).length ↔
      t.pipe.taken < t.pipe.flushed := by
  obtain ⟨hmessages, hflushed⟩ := hok.flushed_of_idle hidle
  rw [hrun.sent_eq, hrun.delivered_eq, hmessages, List.length_map, Mailbox.receivedMessages,
    List.length_take, hflushed]
  have := hok.pipe.taken_le
  omega

/-- **When a mailbox never loses a wake-up.** As long as every sender that signals happens to write
a value other than 0 and `2^64 - 1`, the receiver is awake, or its eventfd readable, whenever no
sender is in `Send` and a message has not been received. The first sender that writes 0 or
`2^64 - 1` ends this for good: from then on, whenever no sender is in `Send`, a message waits while
the mailbox is passive and its eventfd is not readable. -/
theorem mailbox_wakes_up {s₀ s : Mailbox (YPipeState M 16) M} {es : List (MailboxEvent M)}
    (h₀ : s₀.Start)
    (hrun : Run (Lts.restrict (MailboxStep YPipeStep) Mailbox.SignalWakes) s₀ es s) :
    s.Awake es ∧
    ∀ e s₁ es' s₂, MailboxStep YPipeStep s e s₁ → ¬ s.SignalWakes e →
      Run (MailboxStep YPipeStep) s₁ es' s₂ → (∀ i, s₂.send i = .idle) →
      ¬ s₂.Awake (es ++ e :: es') := by
  have hsim : ∀ s e s' t, MailboxRep s t →
      Lts.restrict (MailboxStep YPipeStep) Mailbox.SignalWakes s e s' →
      ∃ t', Lts.restrict (MailboxStep PipeStep) Mailbox.SignalWakes t e t' ∧
        MailboxRep (M := M) s' t' := by
    rintro s e s' t hrep ⟨hgood, hs⟩
    obtain ⟨t', hs', hrep'⟩ := hs.pipe hrep
    refine ⟨t', ⟨?_, hs'⟩, hrep'⟩
    rw [hrep.2]
    exact hgood
  obtain ⟨t, hrun', hrep⟩ := hrun.simulate hsim _ h₀.rep
  have hwakes : MailboxWakes t := hrun'.invariant MailboxWakes (fun _ _ _ h hs => h.step hs) .new
  refine ⟨fun hidle hlt => ?_, ?_⟩
  · have hidle' : ∀ i, t.send i = .idle := by rw [hrep.2]; exact hidle
    have htaken := (hwakes.ok.unreceived_iff hrun'.of_restrict hidle').mp hlt
    cases ha : s.active with
    | true => exact .inl rfl
    | false =>
      have hactive : t.active = false := by rw [hrep.2]; exact ha
      have hawake : t.pipe.asleep = false := by
        cases hsl : t.pipe.asleep with
        | false => rfl
        | true => exact absurd (hwakes.ok.pipe.asleep hsl) htaken.ne
      obtain ⟨i, hi⟩ | hpos := hwakes.owed hactive hawake
      · rw [hidle' i] at hi
        exact hi.elim
      · rw [hrep.2] at hpos
        exact .inr hpos
  · intro e s₁ es' s₂ hs hbad hrest hidle hawake
    obtain ⟨t₁, hs', hrep₁⟩ := hs.pipe hrep
    have hlost₁ : MailboxLost t₁ := hwakes.ok.lost hs' (by rw [hrep.2]; exact hbad)
    obtain ⟨t₂, hrest', hrep₂⟩ := hrest.simulate (fun _ _ _ _ hR hs => hs.pipe hR) _ hrep₁
    have hlost : MailboxLost t₂ := hrest'.invariant MailboxLost (fun _ _ _ h hs => h.step hs) hlost₁
    have hidle' : ∀ i, t₂.send i = .idle := by rw [hrep₂.2]; exact hidle
    have hall : Run (MailboxStep PipeStep) .start (es ++ e :: es') t₂ :=
      hrun'.of_restrict.append (.cons hs' hrest')
    have htaken := hlost.ok.waiting hlost.passive hlost.awake
    obtain hactive | hpos := hawake hidle ((hlost.ok.unreceived_iff hall hidle').mpr htaken)
    · have := hlost.passive
      rw [hrep₂.2] at this
      exact absurd (hactive.symm.trans this) (by decide)
    · have := hlost.counter
      rw [hrep₂.2] at this
      exact hpos.ne' this

/-- The value 5 wakes the receiver. -/
theorem mailbox_wakes_up_five :
    ∃ (s₀ s : Mailbox (YPipeState ℕ 16) ℕ) (es : List (MailboxEvent ℕ)), s₀.Start ∧
      Run (Lts.restrict (MailboxStep YPipeStep) Mailbox.SignalWakes) s₀ es s ∧
      es.flatMap MailboxEvent.sent = [7] ∧ s.Awake es := by
  obtain ⟨s₀, h₀, s, hrun⟩ : ∃ s₀ : Mailbox (YPipeState ℕ 16) ℕ, s₀.Start ∧
      ∃ s, Run (Lts.restrict (MailboxStep YPipeStep) Mailbox.SignalWakes) s₀
        [.lock 0 7, .write 0, .flush 0, .flush 0, .unLock 0 5, .signal 0] s :=
    ⟨_, ⟨0, 1, _, _, _, by decide, rfl, rfl, rfl⟩, _,
      .cons ⟨trivial, .lock rfl rfl⟩ <| .cons ⟨trivial, .write rfl (.write (p := 2) rfl rfl)⟩ <|
      .cons ⟨trivial, .flushTry rfl (.flushCas (by decide) rfl)⟩ <|
      .cons ⟨trivial, .flushSet rfl .flushSet⟩ <|
      .cons ⟨fun _ => by decide, .unLock 5 rfl⟩ <| .single ⟨trivial, .signal rfl⟩⟩
  exact ⟨s₀, s, _, h₀, hrun, rfl, (mailbox_wakes_up h₀ hrun).1⟩

/-- The value 0 does not: the message waits, and the receiver is not told. -/
theorem mailbox_lost_wake_up :
    ∃ (s₀ s : Mailbox (YPipeState ℕ 16) ℕ) (es : List (MailboxEvent ℕ)), s₀.Start ∧
      Run (MailboxStep YPipeStep) s₀ es s ∧ (∀ i, s.send i = .idle) ∧
      es.flatMap MailboxEvent.sent = [7] ∧ es.flatMap MailboxEvent.delivered = [] ∧
      s.active = false ∧ s.counter = 0 := by
  obtain ⟨s₀, h₀, s, hrun, hidle, hactive, hcounter⟩ : ∃ s₀ : Mailbox (YPipeState ℕ 16) ℕ,
      s₀.Start ∧ ∃ s, Run (MailboxStep YPipeStep) s₀
        [.lock 0 7, .write 0, .flush 0, .flush 0, .unLock 0 0, .signal 0] s ∧
        (∀ i, s.send i = .idle) ∧ s.active = false ∧ s.counter = 0 := by
    refine ⟨_, ⟨0, 1, _, _, _, by decide, rfl, rfl, rfl⟩, _,
      .cons (.lock rfl rfl) <| .cons (.write rfl (.write (p := 2) rfl rfl)) <|
      .cons (.flushTry rfl (.flushCas (by decide) rfl)) <| .cons (.flushSet rfl .flushSet) <|
      .cons (.unLock 0 rfl) <| .single (.signal rfl), fun i => ?_, rfl, rfl⟩
    cases i with
    | zero => rfl
    | succ i => rfl
  exact ⟨s₀, s, _, h₀, hrun, hidle, rfl, rfl, hactive, hcounter⟩

end ServerKit
