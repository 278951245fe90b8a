import ServerKit.Core.Mailbox
import Mathlib.Tactic.Common

/-!
# The invariant of a mailbox

Over the abstract pipe: a sender that has found the reader asleep owes it a signal, from the step
that passes the message on to the step that writes to the eventfd. At most one signal is owed or
waiting in the eventfd at a time, and none while the mailbox is active or its reader asleep
(`MailboxOk`). So the receiver that gets a signal finds a message.
-/

namespace ServerKit

open Lib

variable {M : Type}

/-! ## Senders -/

namespace SendPc

/-- The sender holds `sync_`. -/
def Holds : SendPc M → Prop
  | locked _ | written | flushing | flushed _ => True
  | idle | signalling _ => False

/-- The sender owes the receiver a signal. -/
def Pending : SendPc M → Prop
  | flushed false | signalling _ => True
  | flushed true | idle | locked _ | written | flushing => False

/-- What the sender that holds `sync_` has done to the pipe. -/
def Phase (t : PipeLog M) : SendPc M → Prop
  | written => t.flushed < t.completed ∧ t.flushing = false
  | flushing => t.flushing = true
  | idle | locked _ | flushed _ | signalling _ => t.flushed = t.completed ∧ t.flushing = false

/-- The message the sender has not written yet. -/
def unwritten : SendPc M → List M
  | locked msg => [msg]
  | idle | written | flushing | flushed _ | signalling _ => []

end SendPc

/-- A sender's move that changes a property of no sender. -/
theorem update_iff (P : SendPc M → Prop) {send : ℕ → SendPc M} {i : ℕ} {pc : SendPc M}
    (h : P pc ↔ P (send i)) (j : ℕ) : P (Function.update send i pc j) ↔ P (send j) := by
  by_cases hj : j = i
  · subst hj; rwa [Function.update_self]
  · rw [Function.update_of_ne hj]

/-- A sender with a property that the one that has moved has not is another, and had it before. -/
theorem of_update {P : SendPc M → Prop} {send : ℕ → SendPc M} {i j : ℕ} {pc : SendPc M}
    (hpc : ¬ P pc) (hj : P (Function.update send i pc j)) : j ≠ i ∧ P (send j) := by
  by_cases heq : j = i
  · rw [heq, Function.update_self] at hj
    exact absurd hj hpc
  · rw [Function.update_of_ne heq] at hj
    exact ⟨heq, hj⟩

/-! ## The invariant -/

/-- Where the receiver can be. -/
def RecvPc.Ok (active : Bool) (t : PipeLog M) : RecvPc → Prop
  | idle => True
  | firstRead => active = true
  | wait | recvSignal => active = false
  | secondRead => active = true ∧ t.taken < t.flushed

theorem RecvPc.Ok.mono {pc : RecvPc} {active : Bool} {t t' : PipeLog M} (h : pc.Ok active t)
    (hlt : t.taken < t.flushed → t'.taken < t'.flushed) : pc.Ok active t' := by
  cases pc with
  | idle => trivial
  | firstRead => exact h
  | wait => exact h
  | recvSignal => exact h
  | secondRead => exact ⟨h.1, hlt h.2⟩

/-- What holds of a mailbox in every state. -/
structure MailboxOk (s : Mailbox (PipeLog M) M) : Prop where
  pipe : s.pipe.Ok
  complete : s.pipe.completed = s.pipe.items.length
  holder : ∀ i, (s.send i).Holds ↔ s.sync = some i
  free : s.sync = none → s.pipe.flushed = s.pipe.completed ∧ s.pipe.flushing = false
  phase : ∀ i, (s.send i).Holds → (s.send i).Phase s.pipe
  one : ∀ i j, (s.send i).Pending → (s.send j).Pending → i = j
  counter : ∀ i, (s.send i).Pending → s.counter = 0
  quiet : s.active = true ∨ s.pipe.asleep = true →
    s.counter = 0 ∧ ∀ i, ¬ (s.send i).Pending
  awake : s.active = true → s.pipe.asleep = false
  waiting : s.active = false → s.pipe.asleep = false → s.pipe.taken < s.pipe.flushed
  recv : s.recv.Ok s.active s.pipe

/-- The mailbox before any step: the reader of its pipe is asleep. -/
abbrev Mailbox.start : Mailbox (PipeLog M) M := .new PipeLog.new.sleep

theorem MailboxOk.new : MailboxOk (Mailbox.start : Mailbox (PipeLog M) M) where
  pipe := (PipeStep.checkReadNone rfl).ok PipeLog.new_ok
  complete := rfl
  holder i := by simp [Mailbox.new, SendPc.Holds]
  free _ := ⟨rfl, rfl⟩
  phase i h := h.elim
  one i _ h := h.elim
  counter i h := h.elim
  quiet _ := ⟨rfl, fun _ h => h.elim⟩
  awake := nofun
  waiting _ h := by cases h
  recv := trivial

namespace MailboxOk

variable {s s' : Mailbox (PipeLog M) M} {i : ℕ} {e : MailboxEvent M}

/-- One sender holds `sync_`. -/
theorem eq_of_holds (h : MailboxOk s) {j : ℕ} (hi : (s.send i).Holds) (hj : (s.send j).Holds) :
    j = i := by
  have hi := (h.holder i).mp hi
  have hj := (h.holder j).mp hj
  rw [hi] at hj
  exact (Option.some.inj hj).symm

/-- A sender owes a signal only in a passive mailbox whose reader is awake. -/
theorem of_pending (h : MailboxOk s) (hi : (s.send i).Pending) :
    s.active = false ∧ s.pipe.asleep = false := by
  have hquiet : ¬ (s.active = true ∨ s.pipe.asleep = true) := fun hq => (h.quiet hq).2 i hi
  exact ⟨eq_false_of_ne_true fun ha => hquiet (.inl ha),
    eq_false_of_ne_true fun ha => hquiet (.inr ha)⟩

/-! ### Senders -/

theorem lock (h : MailboxOk s) {msg : M} (hi : s.send i = .idle) (hsync : s.sync = none) :
    MailboxOk ((s.setSync (some i)).setSend i (.locked msg)) := by
  have hpending : ∀ j, (Function.update s.send i (.locked msg) j).Pending ↔ (s.send j).Pending :=
    update_iff SendPc.Pending (by rw [hi]; exact Iff.rfl)
  have hnone : ∀ j, ¬ (s.send j).Holds := fun j hj => by
    have := (h.holder j).mp hj
    rw [hsync] at this
    cases this
  have hholds : ∀ j, (Function.update s.send i (.locked msg) j).Holds ↔ i = j := by
    intro j
    by_cases hj : j = i
    · subst hj; rw [Function.update_self]; exact ⟨fun _ => rfl, fun _ => trivial⟩
    · rw [Function.update_of_ne hj]
      exact ⟨fun hh => absurd hh (hnone j), fun heq => absurd heq.symm hj⟩
  exact
    { pipe := h.pipe
      complete := h.complete
      holder := fun j => (hholds j).trans Option.some_inj.symm
      free := nofun
      phase := fun j hj => by
        obtain rfl := (hholds j).mp hj
        change SendPc.Phase _ (Function.update s.send i (.locked msg) i)
        rw [Function.update_self]
        exact h.free hsync
      one := fun j k hj hk => h.one j k ((hpending j).mp hj) ((hpending k).mp hk)
      counter := fun j hj => h.counter j ((hpending j).mp hj)
      quiet := fun hq => ⟨(h.quiet hq).1, fun j hj => (h.quiet hq).2 j ((hpending j).mp hj)⟩
      awake := h.awake
      waiting := h.waiting
      recv := h.recv }

/-- A step of the sender that holds `sync_`, after which it still does and owes a signal only if it
did before. -/
theorem move (h : MailboxOk s) {pc : SendPc M} {t : PipeLog M} (hi : (s.send i).Holds)
    (hpc : pc.Holds) (hpend : pc.Pending ↔ (s.send i).Pending) (hphase : pc.Phase t) (hok : t.Ok)
    (hcomplete : t.completed = t.items.length) (hasleep : t.asleep = s.pipe.asleep)
    (htaken : t.taken = s.pipe.taken) (hflushed : s.pipe.flushed ≤ t.flushed) :
    MailboxOk ((s.setPipe t).setSend i pc) := by
  have hholds := update_iff SendPc.Holds (iff_of_true hpc hi)
  have hpending := update_iff SendPc.Pending hpend
  exact
    { pipe := hok
      complete := hcomplete
      holder := fun j => (hholds j).trans (h.holder j)
      free := fun hsync => by
        have hsync : s.sync = none := hsync
        have hholder := (h.holder i).mp hi
        rw [hsync] at hholder
        cases hholder
      phase := fun j hj => by
        obtain rfl := h.eq_of_holds hi ((hholds j).mp hj)
        change SendPc.Phase t (Function.update s.send j pc j)
        rw [Function.update_self]
        exact hphase
      one := fun j k hj hk => h.one j k ((hpending j).mp hj) ((hpending k).mp hk)
      counter := fun j hj => h.counter j ((hpending j).mp hj)
      quiet := fun hq => by
        have hq := h.quiet (hq.imp_right fun ha => hasleep.symm.trans ha)
        exact ⟨hq.1, fun j hj => hq.2 j ((hpending j).mp hj)⟩
      awake := fun ha => hasleep.trans (h.awake ha)
      waiting := fun ha hs => by
        have := h.waiting ha (hasleep.symm.trans hs)
        change t.taken < t.flushed
        omega
      recv := h.recv.mono fun hlt => by
        change t.taken < t.flushed
        omega }

theorem write (h : MailboxOk s) {msg : M} {t : PipeLog M} (hi : s.send i = .locked msg)
    (hs : PipeStep s.pipe (.write msg false) t) :
    MailboxOk ((s.setPipe t).setSend i .written) := by
  have hholds : (s.send i).Holds := by rw [hi]; trivial
  have hphase := h.phase i hholds
  rw [hi] at hphase
  have hok := hs.ok h.pipe
  cases hs with
  | write _ _ hf =>
    refine h.move hholds trivial (by rw [hi]; exact Iff.rfl) ⟨?_, hf⟩ hok (by simp [PipeLog.push])
      rfl rfl le_rfl
    change s.pipe.flushed < s.pipe.items.length + 1
    exact Nat.lt_succ_of_le (hphase.1.trans h.complete).le

/-- A sender that has written has something to flush. -/
theorem not_flushNothing (h : MailboxOk s) {t : PipeLog M} (hi : s.send i = .written) :
    ¬ PipeStep s.pipe .flushNothing t := by
  have hphase := h.phase i (by rw [hi]; trivial)
  rw [hi] at hphase
  intro hs
  cases hs with
  | flushNothing hf heq => exact hphase.1.ne heq

theorem flushTry (h : MailboxOk s) {awake : Bool} {t : PipeLog M} (hi : s.send i = .written)
    (hs : PipeStep s.pipe (.flushTry awake) t) :
    MailboxOk ((s.setPipe t).setSend i (if awake then .flushed true else .flushing)) := by
  have hholds : (s.send i).Holds := by rw [hi]; trivial
  have hok := hs.ok h.pipe
  cases hs with
  | flushTry hf hlt ha =>
    exact h.move hholds trivial (by rw [hi]; exact Iff.rfl) ⟨rfl, rfl⟩ hok h.complete ha.symm rfl
      hlt.le
  | flushTryAsleep hf hlt ha =>
    exact h.move hholds trivial (by rw [hi]; exact Iff.rfl) rfl hok h.complete rfl rfl le_rfl

/-- The sender that wakes the reader: from here it owes the signal. -/
theorem flushSet (h : MailboxOk s) {t : PipeLog M} (hi : s.send i = .flushing)
    (hs : PipeStep s.pipe .flushSet t) :
    MailboxOk ((s.setPipe t).setSend i (.flushed false)) := by
  have hholds : (s.send i).Holds := by rw [hi]; trivial
  have hok := hs.ok h.pipe
  cases hs with
  | flushSet hf =>
    obtain ⟨hasleep, hlt⟩ := h.pipe.flushing hf
    obtain ⟨hcounter, hnone⟩ := h.quiet (.inr hasleep)
    have hpassive : s.active = false := by
      cases ha : s.active with
      | false => rfl
      | true => exact absurd (hasleep.symm.trans (h.awake ha)) (by decide)
    have hupdate : ∀ j, (Function.update s.send i (.flushed false) j).Holds ↔ (s.send j).Holds :=
      update_iff SendPc.Holds (iff_of_true trivial hholds)
    have hpending : ∀ j, (Function.update s.send i (.flushed false) j).Pending → j = i := by
      intro j hj
      by_contra hne
      rw [Function.update_of_ne hne] at hj
      exact hnone j hj
    exact
      { pipe := hok
        complete := h.complete
        holder := fun j => (hupdate j).trans (h.holder j)
        free := fun _ => ⟨rfl, rfl⟩
        phase := fun j hj => by
          obtain rfl := h.eq_of_holds hholds ((hupdate j).mp hj)
          change SendPc.Phase s.pipe.flush (Function.update s.send j (.flushed false) j)
          rw [Function.update_self]
          exact ⟨rfl, rfl⟩
        one := fun j k hj hk => (hpending j hj).trans (hpending k hk).symm
        counter := fun _ _ => hcounter
        quiet := fun hq => hq.elim (fun ha => absurd (hpassive.symm.trans ha) (by decide)) nofun
        awake := fun _ => rfl
        waiting := fun _ _ => h.pipe.taken_le.trans_lt hlt
        recv := h.recv.mono fun hlt' => hlt'.trans hlt }

theorem unLock (h : MailboxOk s) {ok : Bool} (dummy : UInt64) (hi : s.send i = .flushed ok) :
    MailboxOk ((s.setSync none).setSend i (if !ok then .signalling dummy else .idle)) := by
  have hholds : (s.send i).Holds := by rw [hi]; trivial
  have hphase := h.phase i hholds
  rw [hi] at hphase
  have hpending : ∀ j, (Function.update s.send i (if !ok then .signalling dummy else .idle)
      j).Pending ↔ (s.send j).Pending :=
    update_iff SendPc.Pending (by rw [hi]; cases ok <;> exact Iff.rfl)
  have hnone : ∀ j, ¬ (Function.update s.send i (if !ok then .signalling dummy else .idle) j).Holds
      := by
    intro j hj
    obtain ⟨hne, hj⟩ := of_update (P := SendPc.Holds) (by cases ok <;> exact id) hj
    exact hne (h.eq_of_holds hholds hj)
  exact
    { pipe := h.pipe
      complete := h.complete
      holder := fun j => iff_of_false (hnone j) nofun
      free := fun _ => hphase
      phase := fun j hj => absurd hj (hnone j)
      one := fun j k hj hk => h.one j k ((hpending j).mp hj) ((hpending k).mp hk)
      counter := fun j hj => h.counter j ((hpending j).mp hj)
      quiet := fun hq => ⟨(h.quiet hq).1, fun j hj => (h.quiet hq).2 j ((hpending j).mp hj)⟩
      awake := h.awake
      waiting := h.waiting
      recv := h.recv }

/-- The signal: no other sender owes one. -/
theorem signal (h : MailboxOk s) {dummy : UInt64} (hi : s.send i = .signalling dummy) :
    MailboxOk ((s.setCounter (Signaler.send s.counter dummy)).setSend i .idle) := by
  have hpend : (s.send i).Pending := by rw [hi]; trivial
  have hholds : ∀ j, (Function.update s.send i .idle j).Holds ↔ (s.send j).Holds :=
    update_iff SendPc.Holds (by rw [hi]; exact Iff.rfl)
  have hnone : ∀ j, ¬ (Function.update s.send i .idle j).Pending := by
    intro j hj
    obtain ⟨hne, hj⟩ := of_update (P := SendPc.Pending) id hj
    exact hne (h.one j i hj hpend)
  exact
    { pipe := h.pipe
      complete := h.complete
      holder := fun j => (hholds j).trans (h.holder j)
      free := h.free
      phase := fun j hj => by
        have hj' := (hholds j).mp hj
        have hne : j ≠ i := by rintro rfl; rw [hi] at hj'; exact hj'
        change SendPc.Phase s.pipe (Function.update s.send i .idle j)
        rw [Function.update_of_ne hne]
        exact h.phase j hj'
      one := fun j _ hj => absurd hj (hnone j)
      counter := fun j hj => absurd hj (hnone j)
      quiet := fun hq => absurd hpend ((h.quiet hq).2 i)
      awake := h.awake
      waiting := h.waiting
      recv := h.recv }

/-! ### The receiver -/

/-- The receiver goes on, and nothing else changes. -/
theorem goOn (h : MailboxOk s) {pc : RecvPc} (hpc : pc.Ok s.active s.pipe) :
    MailboxOk (s.setRecv pc) := { h with recv := hpc }

/-- An item is taken while the mailbox is active. -/
theorem taken (h : MailboxOk s) (hactive : s.active = true) (hok : s.pipe.take.Ok) :
    MailboxOk ((s.setPipe s.pipe.take).setRecv .idle) :=
  { h with
    pipe := hok
    complete := h.complete
    free := h.free
    phase := h.phase
    quiet := h.quiet
    awake := h.awake
    waiting := fun ha => absurd (hactive.symm.trans ha) (by decide)
    recv := trivial }

theorem firstRead (h : MailboxOk s) {msg : M} {t : PipeLog M} (hr : s.recv = .firstRead)
    (hs : PipeStep s.pipe (.read (some msg)) t) :
    MailboxOk ((s.setPipe t).setRecv .idle) := by
  have hrecv := h.recv
  rw [hr] at hrecv
  have hok := hs.ok h.pipe
  cases hs with
  | read hlt hv => exact h.taken hrecv hok

/-- The mailbox goes passive, and its reader to sleep. -/
theorem firstReadNone (h : MailboxOk s) {t : PipeLog M} (hr : s.recv = .firstRead)
    (hs : PipeStep s.pipe (.read none) t) :
    MailboxOk (((s.setPipe t).setActive false).setRecv .wait) := by
  have hrecv := h.recv
  rw [hr] at hrecv
  have hok := hs.ok h.pipe
  cases hs with
  | readNone heq =>
    exact
      { h with
        pipe := hok
        complete := h.complete
        free := h.free
        phase := h.phase
        quiet := fun _ => h.quiet (.inl hrecv)
        awake := nofun
        waiting := fun _ hs => by cases hs
        recv := rfl }

/-- **A signal means a message**: the mailbox was passive and its reader not asleep. -/
theorem recvSignal (h : MailboxOk s) {rc : ℤ} {counter : ℕ} (hr : s.recv = .recvSignal)
    (hrun : Signaler.recvFailable s.counter = (rc, counter)) :
    MailboxOk (if rc = -1 then (s.setCounter counter).setRecv .idle
      else ((s.setCounter counter).setActive true).setRecv .secondRead) := by
  have hrecv := h.recv
  rw [hr] at hrecv
  by_cases hpos : 0 < s.counter
  · have hread : Signaler.recvFailable s.counter = (8, 0) := by
      rw [Signaler.recvFailable, eventfdRead, if_pos hpos]
    obtain ⟨rfl, rfl⟩ := Prod.mk.inj (hread.symm.trans hrun)
    have hnone : ∀ j, ¬ (s.send j).Pending := fun j hj => hpos.ne' (h.counter j hj)
    have hawake : s.pipe.asleep = false := by
      cases ha : s.pipe.asleep with
      | false => rfl
      | true => exact absurd (h.quiet (.inr ha)).1 hpos.ne'
    rw [if_neg (by decide)]
    exact
      { h with
        pipe := h.pipe
        complete := h.complete
        free := h.free
        phase := h.phase
        counter := fun _ _ => rfl
        quiet := fun _ => ⟨rfl, hnone⟩
        awake := fun _ => hawake
        waiting := nofun
        recv := ⟨rfl, h.waiting hrecv hawake⟩ }
  · have hread : Signaler.recvFailable s.counter = (-1, s.counter) := by
      rw [Signaler.recvFailable, eventfdRead, if_neg hpos]
    obtain ⟨rfl, rfl⟩ := Prod.mk.inj (hread.symm.trans hrun)
    rw [if_pos rfl]
    exact h.goOn trivial

/-- **The second `Read` of `Recv` succeeds**. -/
theorem secondRead (h : MailboxOk s) {r : Option M} {t : PipeLog M} (hr : s.recv = .secondRead)
    (hs : PipeStep s.pipe (.read r) t) :
    (∃ msg, r = some msg) ∧ MailboxOk ((s.setPipe t).setRecv .idle) := by
  have hrecv := h.recv
  rw [hr] at hrecv
  have hok := hs.ok h.pipe
  cases hs with
  | read hlt hv => exact ⟨⟨_, rfl⟩, h.taken hrecv.1 hok⟩
  | readNone heq => exact absurd heq hrecv.2.ne

/-- **The step lemma**. -/
theorem step (h : MailboxOk s) (hs : MailboxStep PipeStep s e s') : MailboxOk s' := by
  cases hs with
  | lock hi hsync => exact h.lock hi hsync
  | write hi hs => exact h.write hi hs
  | flushNothing hi hs => exact absurd hs (h.not_flushNothing hi)
  | flushTry hi hs => exact h.flushTry hi hs
  | flushSet hi hs => exact h.flushSet hi hs
  | unLock dummy hi => exact h.unLock dummy hi
  | signal hi => exact h.signal hi
  | signalInterrupted hi => exact h
  | recv hr =>
    apply h.goOn
    cases ha : s.active with
    | false => rfl
    | true => rfl
  | firstRead hr hs => exact h.firstRead hr hs
  | firstReadNone hr hs => exact h.firstReadNone hr hs
  | wait hr hw =>
    rename_i rc
    have hrecv := h.recv
    rw [hr] at hrecv
    apply h.goOn
    split
    · trivial
    · exact hrecv
  | recvSignal hr hrun => exact h.recvSignal hr hrun
  | secondRead hr hs => exact (h.secondRead hr hs).2

end MailboxOk

end ServerKit
