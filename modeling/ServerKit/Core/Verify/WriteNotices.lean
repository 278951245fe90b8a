import ServerKit.Core.Verify.QueuedOutput
import ServerKit.Lib.CInt

/-!
# When `Socket::Out` calls `OnWrite`

`Out` decides on `n`, which holds the count of the last `Send`. A `Send` that succeeds empties
`write_list_`, so there is at most one, and its count is that of the whole call. But when the list
is empty from the beginning there is none, and nothing has been assigned to `n`.
-/

namespace ServerKit

open Lib

variable {σ : Type} {P : ObjectPool σ}

namespace EventLoop

/-! ## Sockets with queued output are marked writable -/

/-- A Socket with queued output is marked writable. -/
def Marked (w : EventLoop σ) : Prop :=
  ∀ k s, w.sockets k = some s → s.writeList.empty = false → s.isWritable = true

variable {w w' : EventLoop σ} {k : SocketPtr} {s s' : Socket}

/-- A step that writes the Socket `k`. -/
theorem Marked.set (h : w.Marked) (hsockets : w'.sockets = Function.update w.sockets k (some s'))
    (hs : s'.writeList.empty = false → s'.isWritable = true) : w'.Marked := by
  intro j t hj
  rcases sockets_update hsockets hj with ⟨-, rfl⟩ | ⟨-, hj⟩
  · exact hs
  · exact h j t hj

/-- A step that writes the Socket `k`, but neither its list nor its flag. -/
theorem Marked.keep (h : w.Marked) (hk : w.sockets k = some s)
    (hsockets : w'.sockets = Function.update w.sockets k (some s'))
    (hlist : s'.writeList = s.writeList) (hflag : s'.isWritable = s.isWritable) : w'.Marked := by
  apply h.set hsockets
  rw [hlist, hflag]
  exact h k s hk

theorem Marked.outStep (h : s.writeList.empty = false → s.isWritable = true) {pc : OutPc}
    {next : Option OutPc} (hstep : s.outStep pc = some (s', next)) :
    s'.writeList.empty = false → s'.isWritable = true := by
  cases pc with
  | start n =>
    rw [Socket.outStep] at hstep
    split at hstep
    · split at hstep
      · cases hstep
        exact h
      · cases hstep
    · cases hstep
      exact h
  | connected n =>
    cases hstep
    exact h
  | loop n =>
    rw [Socket.outStep] at hstep
    split at hstep
    · rename_i hempty
      cases hstep
      exact fun hne => absurd (hempty.symm.trans hne) (by decide)
    · cases hstep
      exact h
  | send ret =>
    rw [Socket.outStep] at hstep
    split at hstep
    · cases hstep
      exact h
    · cases hstep
  | sent n err =>
    rw [Socket.outStep] at hstep
    split at hstep
    · cases hstep
      exact h
    · split at hstep
      · cases hstep
        exact h
      · cases hstep
        exact h
  | finish n =>
    cases hstep
    exact h
  | onConnect n => cases hstep
  | onError err => cases hstep
  | close => cases hstep
  | onWrite => cases hstep

theorem Marked.afterWrite (h : w.Marked) (mem : Memory σ) (writeList : BufferList) :
    ((w.setMem mem).afterWrite k (s.setWriteList writeList)).Marked := by
  unfold EventLoop.afterWrite
  cases hwritable : s.isWritable with
  | true =>
    rw [if_neg (by simp [Socket.setWriteList, hwritable])]
    exact h.set rfl fun _ => hwritable
  | false =>
    rw [if_pos (by simp [Socket.setWriteList, hwritable])]
    exact h.set rfl fun _ => rfl

theorem LoopStep.marked {l : LoopEvent} (h : w.Marked) (hstep : LoopStep P w l w') : w'.Marked := by
  cases hstep with
  | newClient _ _ _ hnew =>
    exact h.set rfl fun hne => absurd ((BufferList.new_empty hnew).symm.trans hne) (by decide)
  | newServer _ _ _ hnew =>
    exact h.set rfl fun hne => absurd ((BufferList.new_empty hnew).symm.trans hne) (by decide)
  | setPoller _ hk => exact h.keep hk rfl rfl rfl
  | connectAgain => exact h
  | connect _ hk => exact h.keep hk rfl rfl rfl
  | connectFails _ hk => exact h.keep hk rfl rfl rfl
  | write => exact h.afterWrite _ _
  | read _ hk => exact h.keep hk rfl rfl rfl
  | poll => exact h
  | callOut => exact h
  | epollWait => exact h
  | checkRetired => exact h
  | checkError => exact h
  | checkInput => exact h
  | checkOutput => exact h
  | pollDone => exact h
  | outRun _ hk hout => exact h.set rfl (Marked.outStep (h _ _ hk) hout)
  | sysWrite _ hk hne =>
    have hmarked := h _ _ hk (beq_eq_false_iff_ne.mpr hne)
    exact h.set rfl fun _ => hmarked
  | sysWriteFails _ hk => exact h.keep hk rfl rfl rfl
  | outReturn => exact h
  | outClose _ hk => exact h.keep hk rfl rfl rfl
  | inRun => exact h
  | sysRead _ hk => exact h.keep hk rfl rfl rfl
  | sysReadFails => exact h
  | inReturn => exact h
  | inClose _ hk => exact h.keep hk rfl rfl rfl
  | connectReturn _ hk => exact h.keep hk rfl rfl rfl

theorem start_marked (h : w.Start) : w.Marked := by
  intro k s hk
  rw [h.1 k] at hk
  cases hk

theorem marked_of_run {w₀ : EventLoop σ} {es : List LoopEvent} (hstart : w₀.Start)
    (hrun : Run (LoopStep P) w₀ es w) : w.Marked :=
  hrun.invariant Marked (fun _ _ _ h hstep => LoopStep.marked h hstep) (start_marked hstart)

/-! ## A call of `Out` -/

end EventLoop

namespace LoopEvent

/-- The bytes the kernel has accepted in a step. -/
def accepted : LoopEvent → ℕ
  | .sysWrite (.bytes n) => n
  | _ => 0

/-- A step of `Out` that is not a fatal error of `::write`. -/
def Harmless : LoopEvent → Prop
  | .run => True
  | .sysWrite (.bytes _) => True
  | .sysWrite (.error errno) => errno = eINTR ∨ isIOTryAgain errno = true
  | _ => False

end LoopEvent

/-- The bytes the kernel has accepted. -/
def acceptedBytes (es : List LoopEvent) : ℕ := (es.map LoopEvent.accepted).sum

/-- The steps of the call of `Out` of the Socket `k` that stands on the functions `stack`. -/
def OutStep (P : ObjectPool σ) (k : SocketPtr) (stack : List Frame) :
    Lts (EventLoop σ) LoopEvent :=
  Lts.restrict (LoopStep P) fun w l => (∃ pc, w.stack = .out k pc :: stack) ∧ l.Harmless

/-- A call that began with the Socket `s₀` is sending. -/
structure Counting (s₀ s : Socket) : Prop where
  queued : s₀.writeList.empty = false
  handler : s.hasHandler = s₀.hasHandler
  flag : s.isWritable = true

/-- The loop of such a call is over, with `m` in the variable `n`, and `t` bytes accepted. -/
structure Decides (s₀ : Socket) (n : ℤ) (t : ℕ) (s : Socket) (m : ℤ) : Prop where
  handler : s.hasHandler = s₀.hasHandler
  flag : s.isWritable = false ↔ s.writeList.empty = true
  unassigned : s₀.writeList.empty = true → m = n ∧ t = 0
  assigned : s₀.writeList.empty = false → m = t

/-- Where a call is that began with the Socket `s₀` and `n` in its variable, when `t` bytes have
been accepted. -/
inductive OutPhase (s₀ : Socket) (n : ℤ) : ℕ → Socket → Option OutPc → Prop
  | start : OutPhase s₀ n 0 s₀ (some (.start n))
  | connected : OutPhase s₀ n 0 s₀ (some (.connected n))
  | loop : OutPhase s₀ n 0 s₀ (some (.loop n))
  | send {t : ℕ} {s : Socket} : Counting s₀ s → OutPhase s₀ n t s (some (.send t))
  | sent {t : ℕ} {s : Socket} : Counting s₀ s → s.writeList.empty = true →
      OutPhase s₀ n t s (some (.sent t kOK))
  | emptied {t : ℕ} {s : Socket} : Counting s₀ s → s.writeList.empty = true →
      OutPhase s₀ n t s (some (.loop t))
  | again {t : ℕ} {s : Socket} {err : ℤ} : Counting s₀ s → s.writeList.empty = false →
      isIOTryAgain err = true → OutPhase s₀ n t s (some (.sent t err))
  | finish {t : ℕ} {s : Socket} {m : ℤ} : Decides s₀ n t s m → OutPhase s₀ n t s (some (.finish m))
  | onWrite {t : ℕ} {s : Socket} {m : ℤ} : Decides s₀ n t s m → 0 < m → s.hasHandler = true →
      OutPhase s₀ n t s (some .onWrite)
  | returned {t : ℕ} {s : Socket} {m : ℤ} : Decides s₀ n t s m → ¬ (0 < m ∧ s.hasHandler = true) →
      OutPhase s₀ n t s none

section Phases

variable {s₀ s s' : Socket} {n : ℤ} {t : ℕ} {pc : OutPc} {next : Option OutPc}

theorem Counting.decides (h : Counting s₀ s) (hflag : s.isWritable = false ↔
    s.writeList.empty = true) :
    Decides s₀ n t s t where
  handler := h.handler
  flag := hflag
  unassigned hempty := absurd (hempty.symm.trans h.queued) (by decide)
  assigned _ := rfl

/-- `Out` up to the next system call or callback, or its end. -/
theorem OutPhase.run (h : OutPhase s₀ n t s (some pc)) (hstatus : s₀.status = .connected)
    (hmarked : s₀.writeList.empty = false → s₀.isWritable = true)
    (hstep : s.outStep pc = some (s', next)) : OutPhase s₀ n t s' next := by
  cases h with
  | start =>
    have hne : s₀.status ≠ .connecting := by
      rw [hstatus]
      decide
    rw [Socket.outStep, if_neg hne] at hstep
    cases hstep
    exact .connected
  | connected =>
    have hc : ¬ s₀.status ≠ .connected := not_not.mpr hstatus
    rw [Socket.outStep, if_neg hc] at hstep
    cases hstep
    exact .loop
  | loop =>
    rw [Socket.outStep] at hstep
    split at hstep
    · rename_i hempty
      cases hstep
      exact .finish ⟨rfl, iff_of_true rfl hempty, fun _ => ⟨rfl, rfl⟩,
        fun hne => absurd (hempty.symm.trans hne) (by decide)⟩
    · rename_i hne
      have hqueued := Bool.eq_false_of_not_eq_true hne
      cases hstep
      exact .send ⟨hqueued, rfl, hmarked hqueued⟩
  | send hc =>
    rw [Socket.outStep] at hstep
    split at hstep
    · rename_i hzero
      cases hstep
      exact .sent hc (beq_iff_eq.mpr hzero)
    · cases hstep
  | sent hc hempty =>
    cases hstep
    exact .emptied hc hempty
  | emptied hc hempty =>
    rw [Socket.outStep, if_pos hempty] at hstep
    cases hstep
    exact .finish ⟨hc.handler, iff_of_true rfl hempty,
      fun h0 => absurd (h0.symm.trans hc.queued) (by decide), fun _ => rfl⟩
  | again hc hqueued htry =>
    rw [Socket.outStep, htry, if_neg (fun hfatal => absurd hfatal.2 (by decide)), if_pos rfl]
      at hstep
    cases hstep
    refine .finish (hc.decides ?_)
    rw [hc.flag, hqueued]
    decide
  | finish hd =>
    rw [Socket.outStep] at hstep
    split at hstep
    · rename_i hcall
      cases hstep
      exact .onWrite hd hcall.1 hcall.2
    · rename_i hcall
      cases hstep
      exact .returned hd hcall
  | onWrite => cases hstep

/-- `::write` has accepted `k` bytes. -/
theorem OutPhase.bytes {ret : ℤ} (h : OutPhase s₀ n t s (some (.send ret))) (k : ℕ)
    (writeList : BufferList) : OutPhase s₀ n (t + k)
      ((s.setWriteList writeList).setLastWrite (.bytes k))
      (some (Socket.afterWrite ret (.bytes k))) := by
  cases h with
  | send hc => exact .send ⟨hc.queued, hc.handler, hc.flag⟩

/-- `::write` has failed. -/
theorem OutPhase.error {ret errno : ℤ} (h : OutPhase s₀ n t s (some (.send ret)))
    (hne : s.writeList.readableSize ≠ 0) (herrno : errno = eINTR ∨ isIOTryAgain errno = true) :
    OutPhase s₀ n t (s.setLastWrite (.error errno))
      (some (Socket.afterWrite ret (.error errno))) := by
  cases h with
  | send hc =>
    have hc' : Counting s₀ (s.setLastWrite (.error errno)) := ⟨hc.queued, hc.handler, hc.flag⟩
    have hqueued : s.writeList.empty = false := beq_eq_false_iff_ne.mpr hne
    rw [Socket.afterWrite]
    split
    · exact .send hc'
    · rename_i hintr
      have htry := herrno.resolve_left hintr
      rw [if_pos htry]
      exact .again hc' hqueued htry

end Phases

/-! ## The whole call -/

section Call

variable {w w' : EventLoop σ} {k : SocketPtr} {stack : List Frame} {s₀ : Socket} {n : ℤ}

/-- The call stands on `stack`, in a phase of its own. -/
def InPhase (k : SocketPtr) (stack : List Frame) (s₀ : Socket) (n : ℤ) (t : ℕ)
    (w : EventLoop σ) : Prop :=
  ∃ s next, w.sockets k = some s ∧ w.stack = (next.map (Frame.out k)).toList ++ stack ∧
    OutPhase s₀ n t s next

theorem InPhase.top {t : ℕ} {pc : OutPc} (h : InPhase k stack s₀ n t w)
    (hstack : w.stack = .out k pc :: stack) :
    ∃ s, w.sockets k = some s ∧ OutPhase s₀ n t s (some pc) := by
  obtain ⟨s, next, hk, hnext, hphase⟩ := h
  rw [hstack] at hnext
  cases next with
  | none => exact absurd (congrArg List.length hnext) (Nat.succ_ne_self _)
  | some pc' =>
    obtain ⟨hframe, -⟩ := List.cons.inj hnext
    obtain ⟨-, rfl⟩ := Frame.out.inj hframe
    exact ⟨s, hk, hphase⟩

theorem InPhase.step {t : ℕ} {l : LoopEvent} (h : InPhase k stack s₀ n t w)
    (hstatus : s₀.status = .connected)
    (hmarked : s₀.writeList.empty = false → s₀.isWritable = true)
    (hstep : OutStep P k stack w l w') : InPhase k stack s₀ n (t + l.accepted) w' := by
  obtain ⟨⟨⟨pc, hstack⟩, hharmless⟩, hstep⟩ := hstep
  obtain ⟨s, hk, hphase⟩ := h.top hstack
  cases hstep with
  | outRun hframe hk' hout =>
    rw [hstack] at hframe
    obtain ⟨hf, rfl⟩ := List.cons.inj hframe
    obtain ⟨rfl, rfl⟩ := Frame.out.inj hf
    obtain rfl := Option.some.inj (hk.symm.trans hk')
    exact ⟨_, _, Function.update_self .., rfl, hphase.run hstatus hmarked hout⟩
  | sysWrite hframe hk' hne hpos hle hadvance =>
    rw [hstack] at hframe
    obtain ⟨hf, rfl⟩ := List.cons.inj hframe
    obtain ⟨rfl, rfl⟩ := Frame.out.inj hf
    obtain rfl := Option.some.inj (hk.symm.trans hk')
    exact ⟨_, some _, Function.update_self .., rfl, hphase.bytes _ _⟩
  | @sysWriteFails _ _ _ _ r _ hframe hk' hne hbytes =>
    rw [hstack] at hframe
    obtain ⟨hf, rfl⟩ := List.cons.inj hframe
    obtain ⟨rfl, rfl⟩ := Frame.out.inj hf
    obtain rfl := Option.some.inj (hk.symm.trans hk')
    cases r with
    | bytes m => exact absurd rfl (hbytes m)
    | zero errno => exact hharmless.elim
    | error errno =>
      exact ⟨_, some _, Function.update_self .., rfl, hphase.error hne hharmless⟩
  | inRun hframe => exact absurd (hstack.symm.trans hframe) (by simp)
  | newClient => exact hharmless.elim
  | newServer => exact hharmless.elim
  | setPoller => exact hharmless.elim
  | connectAgain => exact hharmless.elim
  | connect => exact hharmless.elim
  | connectFails => exact hharmless.elim
  | write => exact hharmless.elim
  | read => exact hharmless.elim
  | poll => exact hharmless.elim
  | callOut => exact hharmless.elim
  | epollWait => exact hharmless.elim
  | checkRetired => exact hharmless.elim
  | checkError => exact hharmless.elim
  | checkInput => exact hharmless.elim
  | checkOutput => exact hharmless.elim
  | pollDone => exact hharmless.elim
  | outReturn => exact hharmless.elim
  | outClose => exact hharmless.elim
  | sysRead => exact hharmless.elim
  | sysReadFails => exact hharmless.elim
  | inReturn => exact hharmless.elim
  | inClose => exact hharmless.elim
  | connectReturn => exact hharmless.elim

theorem inPhase_of_run {fs : List LoopEvent} (hstack : w.stack = .out k (.start n) :: stack)
    (hk : w.sockets k = some s₀) (hstatus : s₀.status = .connected)
    (hmarked : s₀.writeList.empty = false → s₀.isWritable = true)
    (hrun : Run (OutStep P k stack) w fs w') : InPhase k stack s₀ n (acceptedBytes fs) w' := by
  apply hrun.snoc_induction (P := fun fs w' => InPhase k stack s₀ n (acceptedBytes fs) w')
  · exact ⟨s₀, some (.start n), hk, hstack, .start⟩
  · intro fs w₁ l w₂ _ h hstep
    have hnext := h.step hstatus hmarked hstep
    rw [acceptedBytes, List.map_append, List.sum_append, List.map_singleton, List.sum_singleton]
    exact hnext

/-- `Out` has come to its end, or to the call of `OnWrite` there. -/
def OutEnds (k : SocketPtr) (stack : List Frame) (w : EventLoop σ) : Prop :=
  w.stack = .out k .onWrite :: stack ∨ w.stack = stack

/-- `OnWrite` is called exactly if bytes have been accepted, whose number is an `int`, and the
Socket is marked writable exactly if output is left. -/
structure NotifiesWrites (k : SocketPtr) (stack : List Frame) (s₀ : Socket) (fs : List LoopEvent)
    (w : EventLoop σ) : Prop where
  count : IsInt (acceptedBytes fs)
  onWrite : w.stack = .out k .onWrite :: stack ↔ s₀.hasHandler = true ∧ 0 < acceptedBytes fs
  flag : ∀ s, w.sockets k = some s → (s.isWritable = false ↔ s.writeList.empty = true)

/-- What the decision was taken on. -/
theorem InPhase.decided {t : ℕ} (h : InPhase k stack s₀ n t w) (hend : OutEnds k stack w) :
    ∃ s m, w.sockets k = some s ∧ Decides s₀ n t s m ∧
      (w.stack = .out k .onWrite :: stack ↔ 0 < m ∧ s₀.hasHandler = true) := by
  obtain ⟨s, next, hk, hnext, hphase⟩ := h
  rcases hend with hcall | hret
  · rw [hcall] at hnext
    cases next with
    | none => exact absurd (congrArg List.length hnext) (Nat.succ_ne_self _)
    | some pc =>
      obtain ⟨hframe, -⟩ := List.cons.inj hnext
      obtain ⟨-, rfl⟩ := Frame.out.inj hframe
      cases hphase with
      | @onWrite _ _ m hd hpos hhandler =>
        exact ⟨s, m, hk, hd, iff_of_true hcall ⟨hpos, hd.handler ▸ hhandler⟩⟩
  · rw [hret] at hnext
    cases next with
    | some pc => exact absurd (congrArg List.length hnext) (Nat.succ_ne_self _).symm
    | none =>
      cases hphase with
      | @returned _ _ m hd hcall =>
        rw [hd.handler] at hcall
        refine ⟨s, m, hk, hd, iff_of_false (fun hstack => ?_) hcall⟩
        rw [hret] at hstack
        exact absurd (congrArg List.length hstack) (Nat.succ_ne_self _).symm

theorem InPhase.notifies_iff {fs : List LoopEvent}
    (h : InPhase k stack s₀ n (acceptedBytes fs) w') (hend : OutEnds k stack w') :
    NotifiesWrites k stack s₀ fs w' ↔
      (s₀.writeList.empty = true → ¬ (0 < n ∧ s₀.hasHandler = true)) ∧
        (acceptedBytes fs : ℤ) ≤ intMax := by
  obtain ⟨s, m, hk, hd, hcall⟩ := h.decided hend
  have hint : IsInt (acceptedBytes fs) ↔ (acceptedBytes fs : ℤ) ≤ intMax := by
    unfold IsInt intMin
    omega
  have hflag : ∀ s', w'.sockets k = some s' →
      (s'.isWritable = false ↔ s'.writeList.empty = true) := by
    intro s' hk'
    obtain rfl := Option.some.inj (hk.symm.trans hk')
    exact hd.flag
  cases hempty : s₀.writeList.empty with
  | true =>
    obtain ⟨rfl, hnone⟩ := hd.unassigned hempty
    constructor
    · intro hn
      refine ⟨fun _ hcalls => ?_, hint.mp hn.count⟩
      have hpos := (hn.onWrite.mp (hcall.mpr hcalls)).2
      omega
    · rintro ⟨hnot, hmax⟩
      refine ⟨hint.mpr hmax, iff_of_false (fun hstack => hnot rfl (hcall.mp hstack)) ?_, hflag⟩
      rintro ⟨-, hpos⟩
      omega
  | false =>
    obtain rfl := hd.assigned hempty
    constructor
    · intro hn
      exact ⟨nofun, hint.mp hn.count⟩
    · rintro ⟨-, hmax⟩
      refine ⟨hint.mpr hmax, hcall.trans ?_, hflag⟩
      rw [Int.natCast_pos]
      exact and_comm

end Call

/-- **`OnWrite`** is called exactly if the kernel has accepted bytes in this call of `Out`, and
`is_writable_` is cleared exactly if no output is left, for a connected Socket in any state of the
loop and any results of `::write` without a fatal error: as long as the list was not empty when
`Out` was called or what `n` held is not positive, and the number of bytes is an `int`. -/
theorem out_onWrite_iff {w₀ w w' : EventLoop σ} {es fs : List LoopEvent} (hstart : w₀.Start)
    (hrun : Run (LoopStep P) w₀ es w) {k : SocketPtr} {stack : List Frame} {n : ℤ} {s₀ : Socket}
    (hstack : w.stack = .out k (.start n) :: stack) (hk : w.sockets k = some s₀)
    (hstatus : s₀.status = .connected) (hout : Run (OutStep P k stack) w fs w')
    (hend : OutEnds k stack w') :
    NotifiesWrites k stack s₀ fs w' ↔
      (s₀.writeList.empty = true → ¬ (0 < n ∧ s₀.hasHandler = true)) ∧
        (acceptedBytes fs : ℤ) ≤ intMax := by
  have hmarked := EventLoop.marked_of_run hstart hrun k s₀ hk
  exact (inPhase_of_run hstack hk hstatus hmarked hout).notifies_iff hend

/-- A byte is queued and sent: `OnWrite` is called. -/
theorem out_onWrite_one_byte :
    ∃ w w' s₀, Run (LoopStep objectPool) EventLoop.twoBuffers
        [.newServer 0 5 true, .setPoller 0 true, .write 0 [7], .poll, .callOut 1] w ∧
      Run (OutStep objectPool 0 []) w
        [.run, .run, .run, .sysWrite (.bytes 1), .run, .run, .run, .run] w' ∧
      NotifiesWrites 0 [] s₀
        [.run, .run, .run, .sysWrite (.bytes 1), .run, .run, .run, .run] w' := by
  obtain ⟨w, w', s₀, hrun, hout, hstack, hk, hstatus, hend, hqueued⟩ : ∃ w w' s₀,
      Run (LoopStep objectPool) EventLoop.twoBuffers
        [.newServer 0 5 true, .setPoller 0 true, .write 0 [7], .poll, .callOut 1] w ∧
      Run (OutStep objectPool 0 []) w
        [.run, .run, .run, .sysWrite (.bytes 1), .run, .run, .run, .run] w' ∧
      w.stack = [.out 0 (.start 1)] ∧ w.sockets 0 = some s₀ ∧ s₀.status = .connected ∧
      OutEnds 0 [] w' ∧ s₀.writeList.empty = false := by
    refine ⟨_, _, _, .cons (.newServer rfl rfl rfl rfl) <| .cons (.setPoller rfl rfl rfl rfl) <|
      .cons (.write rfl rfl rfl rfl) <| .cons (.poll rfl rfl) <|
      .single (.callOut 1 rfl rfl rfl rfl),
      .cons ⟨⟨⟨_, rfl⟩, trivial⟩, .outRun rfl rfl rfl⟩ <|
      .cons ⟨⟨⟨_, rfl⟩, trivial⟩, .outRun rfl rfl rfl⟩ <|
      .cons ⟨⟨⟨_, rfl⟩, trivial⟩, .outRun rfl rfl rfl⟩ <|
      .cons ⟨⟨⟨_, rfl⟩, trivial⟩, .sysWrite rfl rfl ?_ (by decide) ?_ rfl⟩ <|
      .cons ⟨⟨⟨_, rfl⟩, trivial⟩, .outRun rfl rfl rfl⟩ <|
      .cons ⟨⟨⟨_, rfl⟩, trivial⟩, .outRun rfl rfl rfl⟩ <|
      .cons ⟨⟨⟨_, rfl⟩, trivial⟩, .outRun rfl rfl rfl⟩ <|
      .single ⟨⟨⟨_, rfl⟩, trivial⟩, .outRun rfl rfl rfl⟩,
      rfl, rfl, rfl, .inl rfl, ?_⟩
    · decide
    · decide
    · decide
  refine ⟨w, w', s₀, hrun, hout, (out_onWrite_iff EventLoop.twoBuffers_start hrun hstack hk hstatus
    hout hend).mpr ⟨fun hempty => ?_, by decide⟩⟩
  exact absurd (hempty.symm.trans hqueued) (by decide)

/-- Nothing is queued at a connected Socket when `epoll_wait` reports it writable, and `n` happens
to hold 1: `OnWrite` is called. -/
theorem out_onWrite_nothing_sent :
    ∃ w w' s₀, Run (LoopStep objectPool) EventLoop.twoBuffers
        [.newServer 0 5 true, .setPoller 0 true, .poll, .epollWait [⟨0, ⟨false, false, true⟩⟩],
          .check 0, .check 0, .check 1] w ∧
      w.stack = [.out 0 (.start 1)] ∧ w.sockets 0 = some s₀ ∧ s₀.status = .connected ∧
      Run (OutStep objectPool 0 []) w [.run, .run, .run, .run] w' ∧ OutEnds 0 [] w' ∧
      ¬ NotifiesWrites 0 [] s₀ [.run, .run, .run, .run] w' := by
  refine ⟨_, _, _, .cons (.newServer rfl rfl rfl rfl) <| .cons (.setPoller rfl rfl rfl rfl) <|
    .cons (.poll rfl rfl) <| .cons (.epollWait _ rfl rfl (Nat.le_refl _) (by decide)) <|
    .cons (.checkError rfl rfl rfl (by decide)) <| .cons (.checkInput rfl rfl rfl (by decide)) <|
    .single (.checkOutput rfl rfl rfl (by decide)), rfl, rfl, rfl,
    .cons ⟨⟨⟨_, rfl⟩, trivial⟩, .outRun rfl rfl rfl⟩ <|
    .cons ⟨⟨⟨_, rfl⟩, trivial⟩, .outRun rfl rfl rfl⟩ <|
    .cons ⟨⟨⟨_, rfl⟩, trivial⟩, .outRun rfl rfl rfl⟩ <|
    .single ⟨⟨⟨_, rfl⟩, trivial⟩, .outRun rfl rfl rfl⟩, .inl rfl, ?_⟩
  intro h
  exact absurd (h.onWrite.mp rfl).2 (by decide)

end ServerKit
