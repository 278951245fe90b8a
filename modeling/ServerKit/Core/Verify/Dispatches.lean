import ServerKit.Core.PollRounds
import ServerKit.Core.Verify.Entries

/-!
# No dispatch through a retired entry

The pass over the events of a round looks at the entry before every call, and so calls nothing
through an entry on which `Del` has been called. The pass over `writeable_list_` does not look. It
is safe as long as `Del` is not called on an entry that this pass has still to come to
(`PollRounds.SafeDel`); otherwise it calls through that entry (`call_after_del`).
-/

namespace ServerKit

open Lib

/-! ## Live entries -/

namespace Epoll

variable {e e' : Epoll} {ee ee' : EpollEntryPtr}

theorem not_live_of_del (h : e.del (some ee) = .ok e') : ¬ e'.Live ee := by
  obtain ⟨en, -, rfl⟩ := del_eq h
  rintro ⟨en', hen', hfd⟩
  have hen' := (setEntry_self e ..).symm.trans hen'
  exact hfd (congrArg EpollEntry.fd (Option.some.inj hen')).symm

end Epoll

/-! ## The invariant -/

namespace PollRounds

variable {w w' : PollRounds}

/-- The condition on a step: `Del` is not called on an entry that the pass over `writeable_list_`
has still to come to. -/
def SafeDel (w : PollRounds) : PollEvent → Prop
  | .del ee => ee ∉ w.pending
  | _ => True

/-- What holds once `Del` has been called on the entries in `dels`. -/
structure CallOk (dels : EpollEntryPtr → Prop) (w : PollRounds) : Prop where
  fresh : ∀ ee, w.epoll.nextEntry ≤ ee → w.epoll.entries ee = none
  dead : ∀ ee, dels ee → ee < w.epoll.nextEntry ∧ ¬ w.epoll.Live ee
  retired : ∀ ee ∈ w.epoll.retired, dels ee
  pending : ∀ ee ∈ w.pending, w.epoll.Live ee
  destroyed : ∀ ee en, w.epoll.entries ee = some en → en.event ∈ w.destroyed → en.fd = kInvalidFd

variable {dels : EpollEntryPtr → Prop}

theorem CallOk.lt (h : w.CallOk dels) {ee : EpollEntryPtr} {en : EpollEntry}
    (hen : w.epoll.entries ee = some en) : ee < w.epoll.nextEntry := by
  refine Nat.lt_of_not_le fun hle => ?_
  rw [h.fresh ee hle] at hen
  cases hen

/-- A live entry may be called through. -/
theorem CallOk.safe (h : w.CallOk dels) {ee : EpollEntryPtr} (hlive : w.epoll.Live ee) :
    ¬ dels ee ∧ ∀ en, w.epoll.entries ee = some en → en.event ∉ w.destroyed := by
  refine ⟨fun hdel => (h.dead ee hdel).2 hlive, fun en hen hmem => ?_⟩
  obtain ⟨en', hen', hfd⟩ := hlive
  obtain rfl := Option.some.inj (hen.symm.trans hen')
  exact hfd (h.destroyed ee en hen hmem)

/-- A step that does not touch the entries. -/
theorem CallOk.keep (h : w.CallOk dels) (hentries : w'.epoll.entries = w.epoll.entries)
    (hnext : w'.epoll.nextEntry = w.epoll.nextEntry) (hretired : w'.epoll.retired = w.epoll.retired)
    (hdestroyed : w'.destroyed = w.destroyed)
    (hpending : ∀ ee ∈ w'.pending, w.epoll.Live ee) : w'.CallOk dels := by
  have hlive : ∀ {ee}, w'.epoll.Live ee ↔ w.epoll.Live ee := by
    intro ee
    rw [Epoll.Live, Epoll.Live, hentries]
  refine ⟨?_, fun ee hdel => ?_, ?_, fun ee hmem => hlive.mpr (hpending ee hmem), ?_⟩
  · rw [hnext, hentries]
    exact h.fresh
  · rw [hnext, hlive]
    exact h.dead ee hdel
  · rw [hretired]
    exact h.retired
  · rw [hentries, hdestroyed]
    exact h.destroyed

theorem CallOk.add (h : w.CallOk dels) {fd : ℤ} {event : SocketPtr} {added : Bool}
    {handle : Option EpollEntryPtr} {epoll : Epoll} (hevent : event ∉ w.destroyed)
    (hadd : w.epoll.add fd event added = (handle, epoll)) : (w.setEpoll epoll).CallOk dels := by
  obtain ⟨-, -, rfl⟩ | ⟨-, -, size, rfl⟩ := Epoll.add_eq hadd
  · exact h
  · have hold : ∀ {ee}, ee < w.epoll.nextEntry →
        (w.epoll.setEntry w.epoll.nextEntry (some ⟨fd, event⟩)).entries ee = w.epoll.entries ee :=
      fun hlt => Epoll.setEntry_ne _ _ (Nat.ne_of_lt hlt)
    refine ⟨fun ee hle => ?_, fun ee hdel => ?_, h.retired, fun ee hmem => ?_,
      fun ee en hen hmem => ?_⟩
    · have hlt : w.epoll.nextEntry < ee := hle
      exact (Epoll.setEntry_ne _ _ (Nat.ne_of_gt hlt)).trans (h.fresh ee (Nat.le_of_lt hlt))
    · obtain ⟨hlt, hdead⟩ := h.dead ee hdel
      refine ⟨Nat.lt_succ_of_lt hlt, ?_⟩
      rintro ⟨en, hen, hfd⟩
      exact hdead ⟨en, (hold hlt).symm.trans hen, hfd⟩
    · obtain ⟨en, hen, hfd⟩ := h.pending ee hmem
      exact ⟨en, (hold (h.lt hen)).trans hen, hfd⟩
    · by_cases heq : ee = w.epoll.nextEntry
      · subst heq
        have hen := (Epoll.setEntry_self _ _ _).symm.trans hen
        rw [← Option.some.inj hen] at hmem
        exact absurd hmem hevent
      · exact h.destroyed ee en ((Epoll.setEntry_ne _ _ heq).symm.trans hen) hmem

/-- `Del` of an entry that is not pending. -/
theorem CallOk.del (h : w.CallOk dels) {ee : EpollEntryPtr} {epoll : Epoll}
    (hsafe : ee ∉ w.pending) (hdel : w.epoll.del (some ee) = .ok epoll) :
    (w.setEpoll epoll).CallOk fun ee' => dels ee' ∨ ee' = ee := by
  have hdead := Epoll.not_live_of_del hdel
  obtain ⟨en, hen, rfl⟩ := Epoll.del_eq hdel
  have hother : ∀ {ee'}, ee' ≠ ee →
      (w.epoll.setEntry ee (some { en with fd := kInvalidFd })).entries ee' = w.epoll.entries ee' :=
    fun hne => Epoll.setEntry_ne _ _ hne
  refine ⟨fun ee' hle => ?_, fun ee' hdel => ?_, fun ee' hmem => ?_, fun ee' hmem => ?_,
    fun ee' en' hen' hmem => ?_⟩
  · have hne : ee' ≠ ee := by
      rintro rfl
      exact absurd hle (Nat.not_le_of_lt (h.lt hen))
    exact (hother hne).trans (h.fresh ee' hle)
  · by_cases heq : ee' = ee
    · subst heq
      exact ⟨h.lt hen, hdead⟩
    · obtain ⟨hlt, hdead'⟩ := h.dead ee' (hdel.resolve_right heq)
      refine ⟨hlt, ?_⟩
      rintro ⟨en', hen', hfd⟩
      exact hdead' ⟨en', (hother heq).symm.trans hen', hfd⟩
  · rcases List.mem_append.mp hmem with hmem | hmem
    · exact .inl (h.retired ee' hmem)
    · exact .inr (List.mem_singleton.mp hmem)
  · have hmem : ee' ∈ w.pending := hmem
    obtain ⟨en', hen', hfd⟩ := h.pending ee' hmem
    exact ⟨en', (hother fun heq => hsafe (heq ▸ hmem)).trans hen', hfd⟩
  · by_cases heq : ee' = ee
    · subst heq
      rw [← Option.some.inj ((Epoll.setEntry_self _ _ _).symm.trans hen')]
    · exact h.destroyed ee' en' ((hother heq).symm.trans hen') hmem

theorem CallOk.pollDone (h : w.CallOk dels) {stage : EventStage} {epoll : Epoll}
    (hpoll : w.poll = .events stage []) (hretired : w.epoll.processRetired = .ok epoll) :
    ((w.setEpoll epoll).setPoll .idle).CallOk dels := by
  obtain ⟨-, -, rfl⟩ := Epoll.processRetired_eq hretired
  refine ⟨fun ee hle => ?_, fun ee hdel => ?_, by simp [setEpoll, setPoll], fun ee hmem => ?_,
    fun ee en hen hmem => ?_⟩
  · change (if ee ∈ w.epoll.retired then none else w.epoll.entries ee) = none
    rw [h.fresh ee hle, ite_self]
  · obtain ⟨hlt, hdead⟩ := h.dead ee hdel
    refine ⟨hlt, ?_⟩
    rintro ⟨en, hen, hfd⟩
    have hen : (if ee ∈ w.epoll.retired then none else w.epoll.entries ee) = some en := hen
    by_cases hmem : ee ∈ w.epoll.retired
    · rw [if_pos hmem] at hen
      cases hen
    · rw [if_neg hmem] at hen
      exact hdead ⟨en, hen, hfd⟩
  · have hmem : ee ∈ w.pending := by
      rw [PollRounds.pending, hpoll]
      exact hmem
    obtain ⟨en, hen, hfd⟩ := h.pending ee hmem
    have hnot : ee ∉ w.epoll.retired := fun hr => (h.dead ee (h.retired ee hr)).2 ⟨en, hen, hfd⟩
    exact ⟨en, (if_neg hnot).trans hen, hfd⟩
  · have hen : (if ee ∈ w.epoll.retired then none else w.epoll.entries ee) = some en := hen
    by_cases hr : ee ∈ w.epoll.retired
    · rw [if_pos hr] at hen
      cases hen
    · rw [if_neg hr] at hen
      exact h.destroyed ee en hen hmem

/-- The poller calls through live entries only. -/
theorem CallOk.call_live (h : w.CallOk dels) {ee : EpollEntryPtr} (hs : PollStep w (.call ee) w') :
    w.epoll.Live ee := by
  generalize he : PollEvent.call ee = e at hs
  cases hs with
  | @callOut _ iter _ hrunning hpoll hget =>
    obtain rfl := PollEvent.call.inj he
    refine h.pending ee ?_
    rw [PollRounds.pending, hpoll]
    have hzero : (w.epoll.writeable.drop iter)[0]? = some ee := by
      rw [List.getElem?_drop]
      exact hget
    exact List.mem_of_getElem? hzero
  | @checkError _ e _ en hrunning hpoll hen hfd =>
    by_cases hmask : e.events.errOrHup
    · rw [if_pos hmask] at he
      obtain rfl := PollEvent.call.inj he
      exact ⟨en, Epoll.entry_eq_ok hen, hfd⟩
    · rw [if_neg hmask] at he
      cases he
  | @checkInput _ e _ en hrunning hpoll hen hfd =>
    by_cases hmask : e.events.input
    · rw [if_pos hmask] at he
      obtain rfl := PollEvent.call.inj he
      exact ⟨en, Epoll.entry_eq_ok hen, hfd⟩
    · rw [if_neg hmask] at he
      cases he
  | @checkOutput _ e _ en hrunning hpoll hen hfd =>
    by_cases hmask : e.events.output
    · rw [if_pos hmask] at he
      obtain rfl := PollEvent.call.inj he
      exact ⟨en, Epoll.entry_eq_ok hen, hfd⟩
    · rw [if_neg hmask] at he
      cases he
  | _ => cases he

theorem mem_pending_markWriteable {ee ee' : EpollEntryPtr}
    (hmem : ee' ∈ (w.setEpoll (w.epoll.markWriteable (some ee))).pending) :
    ee' ∈ w.pending ∨ ee' = ee := by
  rw [pending] at hmem ⊢
  cases hpoll : w.poll with
  | writeable iter =>
    have hmem : ee' ∈ (w.epoll.writeable ++ [ee]).drop iter := by
      rwa [setEpoll, hpoll] at hmem
    rw [List.drop_append] at hmem
    rcases List.mem_append.mp hmem with hmem | hmem
    · exact .inl hmem
    · exact .inr (List.mem_singleton.mp (List.mem_of_mem_drop hmem))
  | idle | events =>
    rw [setEpoll, hpoll] at hmem
    exact (List.mem_append.mp hmem).imp_right List.mem_singleton.mp

/-- **The step lemma.** `Del` adds an entry to those on which it has been called. -/
theorem CallOk.step (h : w.CallOk dels) {e : PollEvent} (hsafe : w.SafeDel e)
    (hs : PollStep w e w') : w'.CallOk fun ee => dels ee ∨ e = .del ee := by
  have hsame : ∀ {w'' : PollRounds}, w''.CallOk dels → (∀ ee, e ≠ .del ee) →
      w''.CallOk fun ee => dels ee ∨ e = .del ee := by
    intro w'' h'' hne
    have heq : (fun ee => dels ee ∨ e = .del ee) = dels := by
      funext ee
      simp [hne ee]
    rw [heq]
    exact h''
  have hevents : ∀ {stage rest} {w'' : PollRounds}, w.poll = .events stage rest →
      w''.epoll = w.epoll → w''.destroyed = w.destroyed → (∀ iter, w''.poll ≠ .writeable iter) →
      w''.CallOk dels := by
    intro stage rest w'' hpoll hepoll hdestroyed hne
    refine h.keep (congrArg _ hepoll) (congrArg _ hepoll) (congrArg _ hepoll) hdestroyed
      fun ee hmem => h.pending ee ?_
    rw [PollRounds.pending, hpoll]
    rw [PollRounds.pending] at hmem
    cases hpoll' : w''.poll with
    | writeable iter => exact absurd hpoll' (hne iter)
    | idle | events => rwa [hpoll', hepoll] at hmem
  cases hs with
  | add _ hevent _ hadd => exact hsame (h.add hevent hadd) nofun
  | @del _ ee epoll _ hdel =>
    have heq : (fun ee' => dels ee' ∨ PollEvent.del ee = .del ee') =
        fun ee' => dels ee' ∨ ee' = ee := by
      funext ee'
      rw [PollEvent.del.injEq, @eq_comm _ ee ee']
    rw [heq]
    exact h.del hsafe hdel
  | @markWriteable _ ee _ hlive =>
    refine hsame (h.keep rfl rfl rfl rfl fun ee' hmem => ?_) nofun
    rcases mem_pending_markWriteable hmem with hmem | rfl
    · exact h.pending ee' hmem
    · exact hlive
  | destroy _ hentries =>
    refine hsame ⟨h.fresh, h.dead, h.retired, h.pending, fun ee en hen hmem => ?_⟩ nofun
    rcases List.mem_cons.mp hmem with heq | hmem
    · exact hentries ee en hen heq
    · exact h.destroyed ee en hen hmem
  | poll _ hpoll =>
    refine hsame (h.keep rfl rfl rfl rfl fun ee hmem => h.pending ee ?_) nofun
    rw [PollRounds.pending, hpoll]
    exact hmem
  | @callOut _ iter _ _ hpoll _ =>
    refine hsame (h.keep rfl rfl rfl rfl fun ee hmem => h.pending ee ?_) nofun
    rw [PollRounds.pending, hpoll]
    have hmem : ee ∈ w.epoll.writeable.drop (iter + 1) := hmem
    rw [← List.tail_drop] at hmem
    exact List.mem_of_mem_tail hmem
  | epollWait events _ _ _ _ _ =>
    refine hsame (h.keep rfl rfl rfl rfl fun ee hmem => ?_) nofun
    by_cases hnil : events = []
    · rw [if_pos hnil] at hmem
      cases hmem
    · rw [if_neg hnil] at hmem
      cases hmem
  | checkRetired _ hpoll _ _ => exact hsame (hevents hpoll rfl rfl nofun) nofun
  | checkError _ hpoll _ _ | checkInput _ hpoll _ _ | checkOutput _ hpoll _ _ =>
    exact hsame (hevents hpoll rfl rfl nofun) fun ee => by split <;> nofun
  | ret _ => exact hsame (h.keep rfl rfl rfl rfl h.pending) nofun
  | pollDone _ hpoll hretired => exact hsame (h.pollDone hpoll hretired) nofun

theorem init_ok (size : ℤ) : (PollRounds.init size).CallOk fun ee => .del ee ∈ ([] : List PollEvent)
    where
  fresh := fun _ _ => rfl
  dead := nofun
  retired := nofun
  pending := nofun
  destroyed := nofun

theorem ok_of_run {size : ℤ} {es : List PollEvent}
    (hrun : Run (Lts.restrict PollStep SafeDel) (.init size) es w) :
    w.CallOk fun ee => .del ee ∈ es := by
  refine Run.snoc_induction (P := fun es w => w.CallOk fun ee => .del ee ∈ es)
    (init_ok size) ?_ hrun
  intro es w e w' _ h hs
  have heq : (fun ee => PollEvent.del ee ∈ es ++ [e]) = fun ee => .del ee ∈ es ∨ e = .del ee := by
    funext ee
    rw [List.mem_append, List.mem_singleton, @eq_comm _ e]
  rw [heq]
  exact h.step hs.1 hs.2

/-! ## The condition is needed -/

/-- From a pass over `writeable_list_`, `Poll` comes to the entry at place `n` behind `iter`. -/
theorem run_to {ee : EpollEntryPtr} (n : ℕ) : ∀ {w : PollRounds} {iter : ℕ}, w.running = false →
    w.poll = .writeable iter → w.epoll.writeable[iter + n]? = some ee →
    ∃ es w', Run PollStep w (es ++ [.call ee]) w' := by
  induction n with
  | zero =>
    intro w iter hrunning hpoll hget
    exact ⟨[], _, .single (.callOut hrunning hpoll hget)⟩
  | succ n ih =>
    intro w iter hrunning hpoll hget
    have hlt : iter < w.epoll.writeable.length := by
      have hlt := (List.getElem?_eq_some_iff.mp hget).1
      omega
    have hnext : w.epoll.writeable[iter + 1 + n]? = some ee := by
      rw [Nat.add_right_comm]
      exact hget
    obtain ⟨es, w', hrun⟩ :=
      ih (w := ((w.setPoll (.writeable (iter + 1))).setRunning true).setRunning false) rfl rfl hnext
    exact ⟨.call _ :: .ret :: es, w',
      .cons (.callOut hrunning hpoll (List.getElem?_eq_getElem hlt)) <| .cons (.ret rfl) hrun⟩

end PollRounds

/-- When `Del` is called between two rounds or in the pass over `writeable_list_` on an entry that
this pass has still to come to, `Poll` comes to it and calls through it. -/
theorem call_after_del {w : PollRounds} {ee : EpollEntryPtr} {epoll : Epoll} (huser : w.UserRuns)
    (hpoll : ∀ stage rest, w.poll ≠ .events stage rest) (hmem : ee ∈ w.pending)
    (hdel : w.epoll.del (some ee) = .ok epoll) :
    ∃ es w', Run PollStep w (.del ee :: (es ++ [.call ee])) w' := by
  have hwriteable : epoll.writeable = w.epoll.writeable := by
    obtain ⟨en, -, rfl⟩ := Epoll.del_eq hdel
    rfl
  obtain ⟨es, hreturn⟩ : ∃ es,
      Run PollStep (w.setEpoll epoll) es ((w.setEpoll epoll).setRunning false) := by
    by_cases hrunning : w.running = true
    · exact ⟨[.ret], .single (.ret hrunning)⟩
    · refine ⟨[], ?_⟩
      have hsame : (w.setEpoll epoll).setRunning false = w.setEpoll epoll := by
        rw [PollRounds.setRunning, ← eq_false_of_ne_true hrunning]
        rfl
      rw [hsame]
      exact .nil _
  rw [PollRounds.pending] at hmem
  cases hp : w.poll with
  | idle =>
    rw [hp] at hmem
    obtain ⟨n, hn⟩ := List.mem_iff_getElem?.mp hmem
    rw [← hwriteable, ← Nat.zero_add n] at hn
    obtain ⟨es', w', hrun⟩ := PollRounds.run_to n
      (w := ((w.setEpoll epoll).setRunning false).setPoll (.writeable 0)) rfl rfl hn
    refine ⟨es ++ .poll :: es', w', .cons (.del huser hdel) ?_⟩
    rw [List.append_assoc]
    exact hreturn.append (.cons (.poll rfl hp) hrun)
  | writeable iter =>
    rw [hp] at hmem
    obtain ⟨n, hn⟩ := List.mem_iff_getElem?.mp hmem
    rw [List.getElem?_drop, ← hwriteable] at hn
    obtain ⟨es', w', hrun⟩ := PollRounds.run_to n
      (w := (w.setEpoll epoll).setRunning false) rfl hp hn
    refine ⟨es ++ es', w', .cons (.del huser hdel) ?_⟩
    rw [List.append_assoc]
    exact hreturn.append hrun
  | events stage rest => exact absurd hp (hpoll stage rest)

/-- **No call after `Del`.** In every run, with any behaviour of the callbacks, in which `Del` is
called on no entry that the pass over `writeable_list_` has still to come to: `Poll` calls `In` or
`Out` through no entry on which `Del` has been called, nor of an Event that has been destroyed. -/
theorem no_call_after_del {size : ℤ} {es : List PollEvent} {w w' : PollRounds} {ee : EpollEntryPtr}
    (hrun : Run (Lts.restrict PollStep PollRounds.SafeDel) (.init size) es w)
    (hcall : PollStep w (.call ee) w') :
    .del ee ∉ es ∧ ∀ en, w.epoll.entries ee = some en → en.event ∉ w.destroyed := by
  have h := PollRounds.ok_of_run hrun
  exact h.safe (h.call_live hcall)

/-- A callback retires its entry in the pass over the events, and is not called again; the next
event is that of another entry. -/
theorem no_call_after_del_own : ∃ es w w',
    Run (Lts.restrict PollStep PollRounds.SafeDel) (.init 8) es w ∧ PollStep w (.call 1) w' ∧
      .del 0 ∈ es ∧ .del 1 ∉ es ∧ ∀ en, w.epoll.entries 1 = some en → en.event ∉ w.destroyed := by
  have hrun : ∃ w w', Run (Lts.restrict PollStep PollRounds.SafeDel) (.init 8)
      [.add 5 10 true, .add 6 11 true, .poll,
        .epollWait [⟨0, ⟨false, true, true⟩⟩, ⟨1, ⟨false, true, false⟩⟩], .check, .call 0, .del 0,
        .ret, .check, .check] w ∧ PollStep w (.call 1) w' := by
    refine ⟨_, _, .cons ⟨trivial, .add (.inr rfl) nofun (fun _ => by decide) rfl⟩ <|
      .cons ⟨trivial, .add (.inr rfl) nofun (fun _ => by decide) rfl⟩ <|
      .cons ⟨trivial, .poll rfl rfl⟩ <|
      .cons ⟨trivial, .epollWait _ rfl rfl (Nat.le_refl _) (by decide) ?_⟩ <|
      .cons ⟨trivial,
        @PollStep.checkError _ ⟨0, ⟨false, true, true⟩⟩ _ ⟨5, 10⟩ rfl rfl rfl (by decide)⟩ <|
      .cons ⟨trivial,
        @PollStep.checkInput _ ⟨0, ⟨false, true, true⟩⟩ _ ⟨5, 10⟩ rfl rfl rfl (by decide)⟩ <|
      .cons ⟨?_, .del (.inl rfl) rfl⟩ <| .cons ⟨trivial, .ret rfl⟩ <|
      .cons ⟨trivial, .checkRetired rfl rfl rfl rfl⟩ <|
      .single ⟨trivial,
        @PollStep.checkError _ ⟨1, ⟨false, true, false⟩⟩ _ ⟨6, 11⟩ rfl rfl rfl (by decide)⟩,
      @PollStep.checkInput _ ⟨1, ⟨false, true, false⟩⟩ _ ⟨6, 11⟩ rfl rfl rfl (by decide)⟩
    · intro e hmem
      rcases List.mem_cons.mp hmem with rfl | hmem
      · exact ⟨⟨5, 10⟩, rfl, by decide⟩
      · obtain rfl := List.mem_singleton.mp hmem
        exact ⟨⟨6, 11⟩, rfl, by decide⟩
    · exact List.not_mem_nil
  obtain ⟨w, w', hrun, hcall⟩ := hrun
  obtain ⟨hdel, hdestroyed⟩ := no_call_after_del hrun hcall
  exact ⟨_, w, w', hrun, hcall, by decide, hdel, hdestroyed⟩

/-- An `Out` called from `writeable_list_` retires the next entry there, and `Poll` calls through
it. -/
theorem call_after_del_next : ∃ w, Run PollStep (.init 8)
    [.add 5 10 true, .add 6 11 true, .markWriteable 0, .markWriteable 1, .poll, .call 0, .del 1,
      .ret, .call 1] w :=
  ⟨_, .cons (.add (.inr rfl) nofun (fun _ => by decide) rfl) <|
    .cons (.add (.inr rfl) nofun (fun _ => by decide) rfl) <|
    .cons (.markWriteable (.inr rfl) ⟨_, rfl, by decide⟩) <|
    .cons (.markWriteable (.inr rfl) ⟨_, rfl, by decide⟩) <| .cons (.poll rfl rfl) <|
    .cons (.callOut rfl rfl rfl) <| .cons (.del (.inl rfl) rfl) <| .cons (.ret rfl) <|
    .single (.callOut rfl rfl rfl)⟩

end ServerKit
