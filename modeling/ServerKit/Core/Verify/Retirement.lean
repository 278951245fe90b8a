import ServerKit.Core.Verify.Descriptors

/-!
# Entries are retired once

An entry lives as long as the descriptor of the Socket that holds it, and the batch and
`writeable_list_` hold allocated entries only (`Lifetime.Retirement`). That holds in every run in
which the condition `Lifetime.SafeRetire` is met: the destructor of a Socket calls `Del` twice, and
`Del` leaves in `writeable_list_` what it retires.
-/

namespace ServerKit

open Lib

variable {σ : Type} {P : ObjectPool σ}

/-! ## Entries -/

namespace Epoll

variable {e e' : Epoll} {ee : EpollEntryPtr}

theorem del_retired {handle : Option EpollEntryPtr} (h : e.del handle = .ok e') :
    e'.retired = e.retired ++ handle.toList := by
  cases handle with
  | none =>
    obtain rfl := Except.ok.inj h
    exact (List.append_nil _).symm
  | some ee =>
    obtain ⟨en, -, rfl⟩ := del_eq h
    rfl

theorem deleteAll_ok (l : List EpollEntryPtr) : ∀ {e : Epoll}, l.Nodup →
    (∀ ee ∈ l, e.entries ee ≠ none) → ∃ e', e.deleteAll l = .ok e' := by
  induction l with
  | nil =>
    intro e _ _
    exact ⟨e, rfl⟩
  | cons ee l ih =>
    intro e hnodup hsome
    obtain ⟨hnot, hnodup⟩ := List.nodup_cons.mp hnodup
    obtain ⟨en, hen⟩ := Option.ne_none_iff_exists'.mp (hsome ee List.mem_cons_self)
    obtain ⟨e', he'⟩ := ih (e := e.setEntry ee none) hnodup fun ee' hmem => by
      have hne : ee' ≠ ee := by
        rintro rfl
        exact hnot hmem
      rw [setEntry_ne _ _ hne]
      exact hsome ee' (List.mem_cons_of_mem _ hmem)
    refine ⟨e', ?_⟩
    unfold deleteAll delete entry
    rw [hen]
    exact he'

/-- Entries that are different and allocated can be deleted. -/
theorem processRetired_ok (hnodup : e.retired.Nodup)
    (hsome : ∀ ee ∈ e.retired, e.entries ee ≠ none) :
    ∃ e', e.processRetired = .ok e' := by
  obtain ⟨e', he'⟩ := deleteAll_ok _ hnodup hsome
  refine ⟨{ e' with retired := [] }, ?_⟩
  unfold processRetired
  rw [he']
  rfl

theorem Ages.not_live (h : e.Ages e') (hlt : ee < e.nextEntry) (hdead : ¬ e.Live ee) :
    ¬ e'.Live ee := by
  rintro ⟨en', hen', hfd'⟩
  obtain ⟨en, hen, -⟩ := h.event ee hlt en' hen'
  refine hdead ⟨en, hen, ?_⟩
  intro hfd
  rcases h.fd ee en en' hen hen' with heq | heq
  · exact hfd' (heq.trans hfd)
  · exact hfd' heq

end Epoll

namespace EventLoop

variable {w w' : EventLoop σ} {e : LoopEvent} {ee : EpollEntryPtr} {en : EpollEntry}

/-- What a step does to `retired_list_`. -/
theorem retired_eq (hs : LoopStep P w e w') :
    (e = .close ∧ ∃ k s f rest, w.stack = f :: rest ∧ (f = .out k .close ∨ f = .input k .close) ∧
        w.sockets k = some s ∧ w.epoll.del s.handle = .ok w'.epoll) ∨
      (e = .pollDone ∧ w'.epoll.retired = [] ∧
        ∀ ee ∈ w.epoll.retired, w'.epoll.entries ee = none) ∨
      e ≠ .close ∧ e ≠ .pollDone ∧ w'.epoll.retired = w.epoll.retired := by
  cases hs with
  | setPoller _ _ _ hadd | connect _ _ _ _ hadd =>
    exact .inr (.inr ⟨nofun, nofun, Epoll.add_retired hadd⟩)
  | write =>
    refine .inr (.inr ⟨nofun, nofun, ?_⟩)
    unfold afterWrite
    split
    · exact Epoll.markWriteable_retired ..
    · rfl
  | pollDone _ _ hretired =>
    obtain ⟨-, -, rfl⟩ := Epoll.processRetired_eq hretired
    exact .inr (.inl ⟨rfl, rfl, fun ee hmem => if_pos hmem⟩)
  | outClose hstack hk hdel =>
    exact .inl ⟨rfl, _, _, _, _, hstack, .inl rfl, hk, hdel⟩
  | inClose hstack hk hdel =>
    exact .inl ⟨rfl, _, _, _, _, hstack, .inr rfl, hk, hdel⟩
  | _ => exact .inr (.inr ⟨nofun, nofun, rfl⟩)

end EventLoop

/-! ## The invariant -/

namespace Lifetime

/-- The condition on a step: no Socket with a handle is destroyed; none is closed while its entry is
still to come in `writeable_list_`; and no `Write` marks a Socket whose descriptor has been
closed. -/
def SafeRetire (w : Lifetime σ) : LifeEvent → Prop
  | .loop .close => ∀ k ee, w.loop.Closing k .close → w.handle k = some ee → ee ∉ w.loop.pending
  | .loop (.write k _) => ∀ ee, w.loop.Marks ee (.write k []) → ¬ w.loop.Closed k
  | .loop _ => True
  | .destroy k => w.handle k = none
  | .destroyPoller => True

/-- The step `e` passes the entry `ee` to `Del`, `MarkWriteable` or a dispatch. -/
def Passes (w : Lifetime σ) (ee : EpollEntryPtr) : LifeEvent → Prop
  | .loop (.write k _) => w.loop.Marks ee (.write k [])
  | .loop .close => ∃ k, w.loop.Closing k .close ∧ w.handle k = some ee
  | .loop (.callOut _) =>
    ∃ iter, w.loop.poll = .writeable iter ∧ w.loop.epoll.writeable[iter]? = some ee
  | .loop (.check _) => ∃ stage e rest, w.loop.poll = .events stage (e :: rest) ∧ e.ptr = ee
  | .loop _ => False
  | .destroy k => w.handle k = some ee
  | .destroyPoller => False

/-- The entries and their history. -/
structure Retirement (w : Lifetime σ) : Prop where
  registered : w.loop.Registered
  stacked : Frame.Stacked w.loop.stack
  history : w.retirements = w.deletions ++ w.loop.epoll.retired
  once : w.retirements.Nodup
  dead : ∀ ee ∈ w.retirements, ee < w.loop.epoll.nextEntry ∧ ¬ w.loop.epoll.Live ee
  deleted : ∀ ee ∈ w.deletions, w.loop.epoll.entries ee = none
  retired : ∀ ee ∈ w.loop.epoll.retired, w.loop.epoll.entries ee ≠ none
  handle : ∀ k s ee, w.loop.sockets k = some s → s.handle = some ee →
    (w.loop.epoll.Live ee ↔ s.fdClosed = false)
  unattached : ∀ k s, w.loop.sockets k = some s → s.hasPoller = false → s.fdClosed = false
  pending : ∀ ee ∈ w.loop.pending, w.loop.epoll.Live ee
  batch : ∀ p ∈ w.loop.poll.batch, w.loop.epoll.entries p.2.ptr ≠ none
  busy : ∀ k, w.loop.Busy k → ∃ s, w.loop.sockets k = some s ∧ s.hasPoller = true ∧
    (s.handle ≠ none → s.fdClosed = false)

variable {w w' : Lifetime σ} {e : LoopEvent} {loop : EventLoop σ} {k : SocketPtr} {s : Socket}
  {ee : EpollEntryPtr}

/-- `In` and `Out` of a Socket with a handle are called through live entries only. -/
theorem Retirement.calls (h : w.Retirement) (hcalls : w.loop.Calls e k) :
    ∃ s, w.loop.sockets k = some s ∧ s.hasPoller = true ∧
      (s.handle ≠ none → s.fdClosed = false) := by
  obtain ⟨ee, en, hthrough, hen, rfl⟩ := hcalls
  obtain ⟨s, hk, -, hregistered⟩ := h.registered.entry ee en hen
  have hlive : w.loop.epoll.Live ee := by
    rcases hthrough.pending_or_due with hmem | ⟨-, hlive⟩
    · exact h.pending ee hmem
    · exact hlive
  refine ⟨s, hk, ?_, fun hne => ?_⟩
  · rcases hregistered with hee | hclient
    · exact (h.registered.handle _ s ee hk hee).2.2.1
    · exact h.registered.client _ s hk hclient
  · rcases hregistered with hee | hclient
    · exact (h.handle _ s ee hk hee).mp hlive
    · -- a client Socket has no handle
      obtain ⟨ee', hee'⟩ := Option.ne_none_iff_exists'.mp hne
      rw [(h.registered.handle _ s ee' hk hee').2.1] at hclient
      cases hclient

theorem Retirement.mem_retirements (h : w.Retirement) (hmem : ee ∈ w.loop.epoll.retired) :
    ee ∈ w.retirements := by
  rw [h.history]
  exact List.mem_append_right _ hmem

/-- The handle of a Socket that is being closed is live. -/
theorem Retirement.closing_live (h : w.Retirement) (hclosing : w.loop.Closing k e)
    (hk : w.loop.sockets k = some s) (hee : s.handle = some ee) : w.loop.epoll.Live ee := by
  obtain ⟨s', hk', -, hopen⟩ := h.busy k hclosing.busy
  obtain rfl := Option.some.inj (hk.symm.trans hk')
  refine (h.handle k s ee hk hee).mpr (hopen ?_)
  rw [hee]
  nofun

/-- A live entry stays live, unless it is that of a Socket that is being closed. -/
theorem Retirement.live_step (h : w.Retirement) (hs : w.loop.Change e loop)
    (hlive : w.loop.epoll.Live ee) : loop.epoll.Live ee ∨ e = .close ∧
      ∃ k s, w.loop.Closing k e ∧ w.loop.sockets k = some s ∧ s.handle = some ee ∧
        loop.sockets k = some { s with fdClosed := true } := by
  obtain ⟨en, hen, hfd⟩ := hlive
  rcases hs.entry h.registered hen with hen' | ⟨he, -, hclosing⟩ | ⟨-, hmem⟩
  · exact .inl ⟨en, hen', hfd⟩
  · exact .inr ⟨he, hclosing⟩
  · exact absurd ⟨en, hen, hfd⟩ (h.dead ee (h.mem_retirements hmem)).2

theorem retires_close {f : Frame} {rest : List Frame} (hstack : w.loop.stack = f :: rest)
    (hf : f = .out k .close ∨ f = .input k .close) (hk : w.loop.sockets k = some s) :
    w.retires (.loop .close) = s.handle.toList := by
  unfold retires
  rw [hstack, ← handle_eq hk]
  rcases hf with rfl | rfl <;> rfl

theorem retires_other (hne : e ≠ .close) : w.retires (.loop e) = [] := by
  cases e with
  | close => exact absurd rfl hne
  | _ => rfl

theorem deletes_other (hne : e ≠ .pollDone) : w.deletes (.loop e) = [] := by
  cases e with
  | pollDone => exact absurd rfl hne
  | _ => rfl

/-! ## The steps of the thread -/

/-- What a step adds to the history is what it adds to `retired_list_`. -/
theorem Retirement.history_step (h : w.Retirement) (hs : LoopStep P w.loop e loop) :
    (w.next (.loop e) loop).retirements = (w.next (.loop e) loop).deletions ++
    loop.epoll.retired := by
  change w.retirements ++ w.retires (.loop e) =
    w.deletions ++ w.deletes (.loop e) ++ loop.epoll.retired
  rw [h.history]
  rcases EventLoop.retired_eq hs with ⟨rfl, k, s, f, rest, hstack, hf, hk, hdel⟩ | ⟨rfl, hnil, -⟩ |
    ⟨hclose, hdone, hsame⟩
  · have hdeletes : w.deletes (.loop .close) = [] := rfl
    rw [retires_close hstack hf hk, Epoll.del_retired hdel, hdeletes, List.append_nil,
      List.append_assoc]
  · have hretires : w.retires (.loop .pollDone) = [] := rfl
    rw [hretires, hnil, List.append_nil, List.append_nil]
    rfl
  · rw [retires_other hclose, deletes_other hdone, hsame, List.append_nil, List.append_nil]

theorem Retirement.once_step (h : w.Retirement) (hs : LoopStep P w.loop e loop) :
    (w.next (.loop e) loop).retirements.Nodup := by
  change (w.retirements ++ w.retires (.loop e)).Nodup
  rcases EventLoop.retired_eq hs with ⟨rfl, k, s, f, rest, hstack, hf, hk, -⟩ | ⟨rfl, -⟩ |
    ⟨hclose, -⟩
  · rw [retires_close hstack hf hk]
    cases hhandle : s.handle with
    | none =>
      rw [Option.toList_none, List.append_nil]
      exact h.once
    | some ee =>
      have hlive := h.closing_live ⟨rfl, f, rest, hstack, hf⟩ hk hhandle
      rw [Option.toList_some, List.nodup_append]
      refine ⟨h.once, List.pairwise_singleton _ _, ?_⟩
      intro ee' hmem ee'' hmem'
      obtain rfl := List.mem_singleton.mp hmem'
      rintro rfl
      exact (h.dead _ hmem).2 hlive
  · have hretires : w.retires (.loop .pollDone) = [] := rfl
    rw [hretires, List.append_nil]
    exact h.once
  · rw [retires_other hclose, List.append_nil]
    exact h.once

theorem Retirement.dead_step (h : w.Retirement) (hs : LoopStep P w.loop e loop) :
    ∀ ee ∈ (w.next (.loop e) loop).retirements,
      ee < loop.epoll.nextEntry ∧ ¬ loop.epoll.Live ee := by
  have hages := h.registered.ages hs.change
  have hold : ∀ ee ∈ w.retirements, ee < loop.epoll.nextEntry ∧ ¬ loop.epoll.Live ee := by
    intro ee hmem
    obtain ⟨hlt, hdead⟩ := h.dead ee hmem
    exact ⟨Nat.lt_of_lt_of_le hlt hages.next, hages.not_live hlt hdead⟩
  intro ee hmem
  rcases List.mem_append.mp hmem with hmem | hmem
  · exact hold ee hmem
  · rcases EventLoop.retired_eq hs with ⟨rfl, k, s, f, rest, hstack, hf, hk, hdel⟩ | ⟨rfl, -⟩ |
      ⟨hclose, -⟩
    · rw [retires_close hstack hf hk, Option.mem_toList] at hmem
      refine ⟨Nat.lt_of_lt_of_le (h.registered.handle k s ee hk hmem).1 hages.next, ?_⟩
      rintro ⟨en, hen, hfd⟩
      exact hfd (Epoll.del_fd hdel hmem hen)
    · cases hmem
    · rw [retires_other hclose] at hmem
      cases hmem

theorem Retirement.deleted_step (h : w.Retirement) (hs : LoopStep P w.loop e loop) :
    ∀ ee ∈ (w.next (.loop e) loop).deletions, loop.epoll.entries ee = none := by
  have hages := h.registered.ages hs.change
  intro ee hmem
  rcases List.mem_append.mp hmem with hmem | hmem
  · have hmem' : ee ∈ w.retirements := by
      rw [h.history]
      exact List.mem_append_left _ hmem
    refine Option.eq_none_iff_forall_ne_some.mpr fun en' hen' => ?_
    obtain ⟨en, hen, -⟩ := hages.event ee (h.dead ee hmem').1 en' hen'
    rw [h.deleted ee hmem] at hen
    cases hen
  · rcases EventLoop.retired_eq hs with ⟨rfl, -⟩ | ⟨rfl, -, hnone⟩ | ⟨-, hdone, -⟩
    · cases hmem
    · exact hnone ee hmem
    · rw [deletes_other hdone] at hmem
      cases hmem

theorem Retirement.retired_step (h : w.Retirement) (hs : LoopStep P w.loop e loop) :
    ∀ ee ∈ loop.epoll.retired, loop.epoll.entries ee ≠ none := by
  have hkeep : e ≠ .pollDone → ∀ ee, w.loop.epoll.entries ee ≠ none →
      loop.epoll.entries ee ≠ none := by
    intro hdone ee hne
    obtain ⟨en, hen⟩ := Option.ne_none_iff_exists'.mp hne
    rcases hs.change.entry h.registered hen with hen' | ⟨-, ⟨en', hen'⟩, -⟩ | ⟨he, -⟩
    · rw [hen']
      nofun
    · rw [hen']
      nofun
    · exact absurd he hdone
  intro ee hmem
  rcases EventLoop.retired_eq hs with ⟨rfl, k, s, f, rest, hstack, hf, hk, hdel⟩ | ⟨rfl, hnil, -⟩ |
    ⟨-, hdone, hsame⟩
  · rw [Epoll.del_retired hdel] at hmem
    rcases List.mem_append.mp hmem with hmem | hmem
    · exact hkeep nofun ee (h.retired ee hmem)
    · rw [Option.mem_toList] at hmem
      obtain ⟨en, hen, -⟩ := h.closing_live ⟨rfl, f, rest, hstack, hf⟩ hk hmem
      refine hkeep nofun ee ?_
      rw [hen]
      nofun
  · rw [hnil] at hmem
    cases hmem
  · rw [hsame] at hmem
    exact hkeep hdone ee (h.retired ee hmem)

theorem Retirement.handle_step (h : w.Retirement) (hallowed : w.Allowed e)
    (hs : LoopStep P w.loop e loop) {s' : Socket} (hk : loop.sockets k = some s')
    (hee : s'.handle = some ee) : loop.epoll.Live ee ↔ s'.fdClosed = false := by
  have hages := h.registered.ages hs.change
  cases hs.change.changed hk with
  | same s hj _ hhandle hclosed =>
    have hee' := hhandle.symm.trans hee
    have hiff := h.handle k s ee hj hee'
    rw [hclosed, ← hiff]
    constructor
    · intro hlive
      refine Classical.byContradiction fun hdead => ?_
      exact hages.not_live (h.registered.handle k s ee hj hee').1 hdead hlive
    · intro hlive
      rcases h.live_step hs.change hlive with hlive | ⟨-, j, t, -, hj', htee, hk'⟩
      · exact hlive
      · -- the Socket would have been closed
        obtain rfl := h.registered.unique k j s t ee hj hj' hee' htee
        obtain rfl := Option.some.inj (hk.symm.trans hk')
        have hopen := hiff.mp hlive
        rw [← hclosed] at hopen
        cases hopen
  | new _ hnone =>
    rw [hnone] at hee
    cases hee
  | attach s added he hj hpoller hadd _ hclosed =>
    subst he
    rw [hclosed]
    have hopen := h.unattached k s hj hpoller
    obtain ⟨-, hnone, -⟩ | ⟨rfl, hsome, size, hepoll⟩ := Epoll.add_eq hadd
    · rw [hnone] at hee
      cases hee
    · rw [hsome] at hee
      obtain rfl := Option.some.inj hee
      refine iff_of_true ⟨⟨s.fd, k⟩, ?_, hallowed.2 rfl s hj⟩ hopen
      rw [hepoll]
      exact Epoll.setEntry_self w.loop.epoll ..
  | close s f rest _ _ _ _ hj hdel hs' =>
    subst hs'
    refine iff_of_false ?_ nofun
    rintro ⟨en, hen, hfd⟩
    exact hfd (Epoll.del_fd hdel hee hen)

theorem Retirement.pending_step (h : w.Retirement) (hsafe : w.SafeRetire (.loop e))
    (hs : LoopStep P w.loop e loop) : ∀ ee ∈ loop.pending, loop.epoll.Live ee := by
  intro ee hmem
  rcases hs.pending hmem with hmem | hmarks
  · rcases h.live_step hs.change (h.pending ee hmem) with hlive | ⟨rfl, k, s, hclosing, hk, hee, -⟩
    · exact hlive
    · exact absurd hmem (hsafe k ee hclosing ((handle_eq hk).trans hee))
  · cases e with
    | write k src =>
      obtain ⟨s, hk, hwritable, hee⟩ := hmarks
      have hopen : s.fdClosed = false := by
        cases hc : s.fdClosed with
        | false => rfl
        | true => exact absurd ⟨s, hk, hc⟩ (hsafe ee ⟨s, hk, hwritable, hee⟩)
      rcases h.live_step hs.change ((h.handle k s ee hk hee).mpr hopen) with hlive | ⟨he, -⟩
      · exact hlive
      · cases he
    | _ => exact hmarks.elim

theorem Retirement.batch_step (h : w.Retirement) (hallowed : w.Allowed e)
    (hs : LoopStep P w.loop e loop) : ∀ p ∈ loop.poll.batch, loop.epoll.entries p.2.ptr ≠ none := by
  rintro ⟨stage, ev⟩ hmem
  have hdone : e ≠ .pollDone := by
    rintro rfl
    cases hs
    cases hmem
  have hsome : w.loop.epoll.entries ev.ptr ≠ none := by
    rcases hs.batch hmem with ⟨stage', hmem', -⟩ | ⟨events, hreports, hev⟩
    · exact h.batch _ hmem'
    · obtain ⟨en, hen, -⟩ := reported hallowed hreports hev
      rw [hen]
      nofun
  obtain ⟨en, hen⟩ := Option.ne_none_iff_exists'.mp hsome
  rcases hs.change.entry h.registered hen with hen' | ⟨-, ⟨en', hen'⟩, -⟩ | ⟨he, -⟩
  · rw [hen']
    nofun
  · rw [hen']
    nofun
  · exact absurd he hdone

theorem Retirement.busy_step (h : w.Retirement) (hs : LoopStep P w.loop e loop)
    (hbusy : loop.Busy k) : ∃ s, loop.sockets k = some s ∧ s.hasPoller = true ∧
      (s.handle ≠ none → s.fdClosed = false) := by
  have hbefore : ∃ s, w.loop.sockets k = some s ∧ s.hasPoller = true ∧
      (s.handle ≠ none → s.fdClosed = false) := by
    rcases hbusy.of_moves hs.moves with hbusy | hcalls
    · exact h.busy k hbusy
    · exact h.calls hcalls
  obtain ⟨s, hk, hpoller, hopen⟩ := hbefore
  obtain ⟨s', hk', -⟩ := hs.change.keep hk
  refine ⟨s', hk', ?_⟩
  cases hs.change.changed hk' with
  | same t hj hpoller' hhandle hclosed =>
    obtain rfl := Option.some.inj (hk.symm.trans hj)
    rw [hpoller', hhandle, hclosed]
    exact ⟨hpoller, hopen⟩
  | new hnone =>
    rw [hk] at hnone
    cases hnone
  | attach t added _ hj hunattached =>
    obtain rfl := Option.some.inj (hk.symm.trans hj)
    rw [hpoller] at hunattached
    cases hunattached
  | close t f rest _ hstack hstack' hf =>
    have hstacked := h.stacked
    rw [hstack] at hstacked
    obtain ⟨f', hmem, -⟩ := hbusy
    rw [hstack', hstacked.closing hf] at hmem
    cases hmem

theorem Retirement.step_loop (h : w.Retirement) (hsafe : w.SafeRetire (.loop e))
    (hallowed : w.Allowed e) (hs : LoopStep P w.loop e loop) :
    (w.next (.loop e) loop).Retirement where
  registered := h.registered.step hs.change
  stacked := h.stacked.step hs.moves
  history := h.history_step hs
  once := h.once_step hs
  dead := h.dead_step hs
  deleted := h.deleted_step hs
  retired := h.retired_step hs
  handle _ _ _ hk hee := h.handle_step hallowed hs hk hee
  unattached := by
    intro k s' hk' hunattached
    cases hs.change.changed hk' with
    | same s hk hpoller _ hclosed =>
      rw [hclosed]
      exact h.unattached k s hk (hpoller.symm.trans hunattached)
    | new _ _ hopen => exact hopen
    | attach _ _ _ _ _ _ hpoller =>
      rw [hpoller] at hunattached
      cases hunattached
    | close s f rest he hstack _ hf hk _ hs' =>
      have hclosing : w.loop.Closing k e := ⟨he, f, rest, hstack, hf⟩
      obtain ⟨t, hk', hpoller, -⟩ := h.busy k hclosing.busy
      obtain rfl := Option.some.inj (hk.symm.trans hk')
      rw [hs'] at hunattached
      rw [hpoller] at hunattached
      cases hunattached
  pending := h.pending_step hsafe hs
  batch := h.batch_step hallowed hs
  busy _ hbusy := h.busy_step hs hbusy

/-! ## Destruction -/

/-- A Socket without a handle is destroyed. -/
theorem Retirement.destroy (h : w.Retirement) (hregistered : loop.Registered)
    (hk : w.loop.sockets k = some s) (hpoller : s.hasPoller = true) (hnone : s.handle = none)
    (hsockets : loop.sockets = Function.update w.loop.sockets k (some { s with fdClosed := true }))
    (hepoll : loop.epoll = w.loop.epoll) (hpoll : loop.poll = w.loop.poll)
    (hstack : loop.stack = w.loop.stack) : (w.next (.destroy k) loop).Retirement := by
  have hretirements : (w.next (.destroy k) loop).retirements = w.retirements := by
    change w.retirements ++ ((w.handle k).toList ++ (w.handle k).toList) = w.retirements
    rw [handle_eq hk, hnone]
    exact List.append_nil _
  have hdeletions : (w.next (.destroy k) loop).deletions = w.deletions := List.append_nil _
  have hback : ∀ {j t}, loop.sockets j = some t →
      { s with fdClosed := true } = t ∨ j ≠ k ∧ w.loop.sockets j = some t := by
    intro j t hj
    rcases EventLoop.sockets_update hsockets hj with ⟨-, ht⟩ | hother
    · exact .inl ht.symm
    · exact .inr hother
  refine ⟨hregistered, hstack ▸ h.stacked, ?_, ?_, ?_, ?_, hepoll ▸ h.retired,
    fun j t ee hj hee => ?_, fun j t hj hunattached => ?_, ?_, ?_, fun j hbusy => ?_⟩
  · rw [hretirements, hdeletions, h.history]
    exact congrArg _ (congrArg Epoll.retired hepoll.symm)
  · rw [hretirements]
    exact h.once
  · rw [hretirements]
    exact hepoll ▸ h.dead
  · rw [hdeletions]
    exact hepoll ▸ h.deleted
  · change loop.epoll.Live ee ↔ _
    rw [hepoll]
    rcases hback hj with rfl | ⟨-, hj⟩
    · rw [hnone] at hee
      cases hee
    · exact h.handle j t ee hj hee
  · rcases hback hj with rfl | ⟨-, hj⟩
    · rw [hpoller] at hunattached
      cases hunattached
    · exact h.unattached j t hj hunattached
  · change ∀ ee ∈ loop.epoll.writeable.drop loop.visited, loop.epoll.Live ee
    have hvisited : loop.visited = w.loop.visited := by
      unfold EventLoop.visited
      rw [hpoll]
    rw [hvisited, hepoll]
    exact h.pending
  · change ∀ p ∈ loop.poll.batch, loop.epoll.entries p.2.ptr ≠ none
    rw [hpoll, hepoll]
    exact h.batch
  · obtain ⟨f, hmem, hf⟩ := hbusy
    have hmem : f ∈ loop.stack := hmem
    rw [hstack] at hmem
    obtain ⟨t, hj, hattached, hopen⟩ := h.busy j ⟨f, hmem, hf⟩
    change ∃ s, loop.sockets j = some s ∧ _
    rw [hsockets]
    by_cases heq : j = k
    · subst heq
      exact ⟨_, Function.update_self .., hpoller, fun hne => absurd hnone hne⟩
    · exact ⟨t, (Function.update_of_ne heq ..).trans hj, hattached, hopen⟩

theorem Retirement.congr (h : w.Retirement) (hloop : w'.loop = w.loop)
    (hretirements : w'.retirements = w.retirements) (hdeletions : w'.deletions = w.deletions) :
    w'.Retirement := by
  cases w
  cases w'
  cases hloop
  cases hretirements
  cases hdeletions
  exact ⟨h.registered, h.stacked, h.history, h.once, h.dead, h.deleted, h.retired, h.handle,
    h.unattached, h.pending, h.batch, h.busy⟩

/-- `Epoll::~Epoll` does what the end of a round does. -/
theorem Retirement.destroyPoller (P : ObjectPool σ) (h : w.Retirement)
    (hstack : w.loop.stack = []) (hpoll : w.loop.poll = .idle) {epoll : Epoll}
    (hretired : w.loop.epoll.processRetired = .ok epoll) :
    (w.next .destroyPoller (w.loop.setEpoll epoll)).Retirement := by
  have hchange : w.loop.Change .poll (w.loop.setPoll (.events .error [])) := .none rfl rfl
  have hpending : ∀ ee ∈ (w.loop.setPoll (.events .error [])).pending, ee ∈ w.loop.pending := by
    intro ee hmem
    unfold EventLoop.pending EventLoop.visited
    rw [hpoll]
    exact hmem
  have hdone : { w with loop := w.loop.setPoll (.events .error []) }.Retirement :=
    ⟨h.registered.step hchange, h.stacked, h.history, h.once, h.dead, h.deleted, h.retired,
      h.handle, h.unattached, fun ee hmem => h.pending ee (hpending ee hmem), nofun, h.busy⟩
  have hs : LoopStep P (w.loop.setPoll (.events .error [])) .pollDone _ :=
    .pollDone hstack rfl hretired
  have hstep := hdone.step_loop (e := .pollDone) trivial trivial hs
  refine hstep.congr ?_ rfl rfl
  change w.loop.setEpoll epoll = (w.loop.setEpoll epoll).setPoll .idle
  rw [← hpoll]
  rfl

/-- **The step lemma.** -/
theorem Retirement.step {e : LifeEvent} (h : w.Retirement)
    (hs : Lts.restrict (LifeStep P) SafeRetire w e w') : w'.Retirement := by
  obtain ⟨hsafe, hs⟩ := hs
  cases hs with
  | loop _ hallowed hs => exact h.step_loop hsafe hallowed hs
  | destroy _ _ _ hk hpoller hdel hdel' =>
    have hregistered := registered_destroy h.registered hk hdel hdel'
    have hnone := (handle_eq hk).symm.trans hsafe
    rw [hnone] at hdel hdel'
    obtain rfl := Except.ok.inj hdel
    obtain rfl := Except.ok.inj hdel'
    exact (h.destroy hregistered hk hpoller hnone rfl rfl rfl rfl).congr rfl rfl rfl
  | destroyPoller _ hstack hpoll hretired =>
    exact (h.destroyPoller P hstack hpoll hretired).congr rfl rfl rfl

/-- What is passed to `Del`, `MarkWriteable` or a dispatch has not been deleted. -/
theorem Retirement.passes {e : LifeEvent} (h : w.Retirement) (hsafe : w.SafeRetire e)
    (hpasses : w.Passes ee e) : ee ∉ w.deletions := by
  have hlive : w.loop.epoll.Live ee → ee ∉ w.deletions := by
    rintro ⟨en, hen, -⟩ hmem
    rw [h.deleted ee hmem] at hen
    cases hen
  cases e with
  | loop e =>
    cases e with
    | write k src =>
      obtain ⟨s, hk, hwritable, hee⟩ := hpasses
      refine hlive ((h.handle k s ee hk hee).mpr ?_)
      cases hc : s.fdClosed with
      | false => rfl
      | true => exact absurd ⟨s, hk, hc⟩ (hsafe ee ⟨s, hk, hwritable, hee⟩)
    | close =>
      obtain ⟨k, hclosing, hee⟩ := hpasses
      obtain ⟨s, hk, -⟩ := h.busy k hclosing.busy
      exact hlive (h.closing_live hclosing hk ((handle_eq hk).symm.trans hee))
    | callOut n =>
      obtain ⟨iter, hpoll, hget⟩ := hpasses
      have hthrough : w.loop.CallsThrough ee (.callOut n) := ⟨iter, hpoll, hget⟩
      rcases hthrough.pending_or_due with hmem | ⟨-, hl⟩
      · exact hlive (h.pending ee hmem)
      · exact hlive hl
    | check n =>
      obtain ⟨stage, ev, rest, hpoll, rfl⟩ := hpasses
      have hmem : (stage, ev) ∈ w.loop.poll.batch := by
        rw [hpoll]
        exact List.mem_cons_self
      intro hdel
      exact h.batch _ hmem (h.deleted _ hdel)
    | _ => exact hpasses.elim
  | destroy k =>
    have hnone : w.handle k = none := hsafe
    have hee : w.handle k = some ee := hpasses
    rw [hnone] at hee
    cases hee
  | destroyPoller => exact hpasses.elim

end Lifetime

theorem EventLoop.Start.retirement {w : EventLoop σ} (h : w.Start) :
    (Lifetime.new w).Retirement := by
  have hregistered := h.registered
  have hdescriptors := h.descriptors
  obtain ⟨hsockets, ⟨size, hepoll⟩, hpoll, hstack⟩ := h
  have hnone : ∀ {k s}, w.sockets k ≠ some s := by
    intro k s hk
    rw [hsockets k] at hk
    cases hk
  refine ⟨hregistered, hdescriptors.stacked, ?_, .nil, nofun, nofun, ?_,
    fun k s ee hk => absurd hk hnone, fun k s hk => absurd hk hnone, ?_, ?_, ?_⟩
  · change [] = [] ++ w.epoll.retired
    rw [hepoll]
    rfl
  · change ∀ ee ∈ w.epoll.retired, _
    rw [hepoll]
    nofun
  · change ∀ ee ∈ w.epoll.writeable.drop w.visited, _
    rw [hepoll]
    intro ee hmem
    cases List.mem_of_mem_drop hmem
  · change ∀ p ∈ w.poll.batch, _
    rw [hpoll]
    nofun
  · rintro k ⟨f, hmem, -⟩
    have hmem : f ∈ w.stack := hmem
    rw [hstack] at hmem
    cases hmem

/-- **Entries are retired once.** In every run in which no Socket with a handle is destroyed, none
is closed while its entry is still to come in `writeable_list_`, and no `Write` marks a Socket whose
descriptor has been closed: no entry is put into `retired_list_` twice, none is deleted twice, and
none is passed to `Del`, `MarkWriteable` or a dispatch after it has been deleted. -/
theorem retired_once {w₀ : EventLoop σ} {w : Lifetime σ} {es : List LifeEvent} (h₀ : w₀.Start)
    (hrun : Run (Lts.restrict (LifeStep P) Lifetime.SafeRetire) (.new w₀) es w) :
    w.retirements.Nodup ∧ w.deletions.Nodup ∧ (∃ epoll, w.loop.epoll.processRetired = .ok epoll) ∧
      ∀ e ee, w.SafeRetire e → w.Passes ee e → ee ∉ w.deletions := by
  have h : w.Retirement := hrun.invariant Lifetime.Retirement (fun _ _ _ h hs => h.step hs)
    h₀.retirement
  have honce := h.once
  rw [h.history, List.nodup_append] at honce
  exact ⟨h.once, honce.1, Epoll.processRetired_ok honce.2.1 h.retired,
    fun e ee hsafe hpasses => h.passes hsafe hpasses⟩

/-- The entry of a server Socket that is closed after a failed `::read` is retired and deleted. -/
theorem retired_once_closed : ∃ w,
    Run (Lts.restrict (LifeStep objectPool) Lifetime.SafeRetire) (.new EventLoop.twoBuffers)
      [.loop (.newServer 0 5 false), .loop (.setPoller 0 true), .loop .poll,
        .loop (.epollWait [⟨0, ⟨false, true, true⟩⟩]), .loop (.check 0), .loop (.check 0),
        .loop .run, .loop (.sysRead (.error 104)), .loop .run, .loop .close, .loop (.check 0),
        .loop .pollDone] w ∧
    w.retirements = [0] ∧ w.deletions = [0] ∧ w.retirements.Nodup ∧ w.deletions.Nodup ∧
      (∃ epoll, w.loop.epoll.processRetired = .ok epoll) ∧
      ∀ e ee, w.SafeRetire e → w.Passes ee e → ee ∉ w.deletions := by
  obtain ⟨w, hrun, hretirements, hdeletions⟩ : ∃ w,
      Run (Lts.restrict (LifeStep objectPool) Lifetime.SafeRetire) (.new EventLoop.twoBuffers)
        [.loop (.newServer 0 5 false), .loop (.setPoller 0 true), .loop .poll,
          .loop (.epollWait [⟨0, ⟨false, true, true⟩⟩]), .loop (.check 0), .loop (.check 0),
          .loop .run, .loop (.sysRead (.error 104)), .loop .run, .loop .close, .loop (.check 0),
          .loop .pollDone] w ∧ w.retirements = [0] ∧ w.deletions = [0] := by
    have hfd : (5 : ℤ) ≠ kInvalidFd := by decide
    exact ⟨_,
      .cons ⟨trivial, .loop rfl trivial (.newServer rfl rfl rfl rfl)⟩ <|
      .cons ⟨trivial, .loop rfl (Lifetime.allowed_setPoller List.not_mem_nil rfl hfd true)
        (.setPoller rfl rfl rfl rfl)⟩ <|
      .cons ⟨trivial, .loop rfl trivial (.poll rfl rfl)⟩ <|
      .cons ⟨trivial, .loop rfl (Lifetime.allowed_epollWait rfl hfd rfl rfl)
        (.epollWait _ rfl rfl (Nat.le_refl _) (by decide))⟩ <|
      .cons ⟨trivial, .loop rfl trivial (.checkError rfl rfl rfl hfd)⟩ <|
      .cons ⟨trivial, .loop rfl trivial (.checkInput rfl rfl rfl hfd)⟩ <|
      .cons ⟨trivial, .loop rfl trivial (.inRun rfl rfl rfl)⟩ <|
      .cons ⟨trivial, .loop rfl trivial (.sysReadFails rfl nofun)⟩ <|
      .cons ⟨trivial, .loop rfl trivial (.inRun rfl rfl rfl)⟩ <|
      .cons ⟨fun _ _ _ _ => List.not_mem_nil, .loop rfl trivial (.inClose rfl rfl rfl)⟩ <|
      .cons ⟨trivial, .loop rfl trivial (.checkRetired rfl rfl rfl rfl)⟩ <|
      .single ⟨trivial, .loop rfl trivial (.pollDone rfl rfl rfl)⟩, rfl, rfl⟩
  exact ⟨w, hrun, hretirements, hdeletions, retired_once EventLoop.twoBuffers_start hrun⟩

/-- The destructor of a Socket with a handle retires its entry twice. -/
theorem retired_twice_of_destroy {w w' : Lifetime σ} {k : SocketPtr} {ee : EpollEntryPtr}
    (hs : LifeStep P w (.destroy k) w') (hee : w.handle k = some ee) : ¬ w'.retirements.Nodup := by
  have hretirements : w'.retirements = w.retirements ++ [ee, ee] := by
    cases hs
    change w.retirements ++ ((w.handle k).toList ++ (w.handle k).toList) = _
    rw [hee]
    rfl
  rw [hretirements, List.nodup_append]
  rintro ⟨-, hnodup, -⟩
  exact (List.nodup_cons.mp hnodup).1 List.mem_cons_self

/-- A server Socket is attached and destroyed: its entry is retired twice, and the next
`processRetired` deletes it twice. -/
theorem retired_twice : ∃ w, Run (LifeStep objectPool) (.new EventLoop.twoBuffers)
      [.loop (.newServer 0 5 true), .loop (.setPoller 0 true), .destroy 0] w ∧
    w.retirements = [0, 0] ∧ ¬ w.retirements.Nodup ∧
      w.loop.epoll.processRetired = .error .dangling := by
  have hfd : (5 : ℤ) ≠ kInvalidFd := by decide
  refine ⟨_, .cons (.loop rfl trivial (.newServer rfl rfl rfl rfl)) <|
    .cons (.loop rfl (Lifetime.allowed_setPoller List.not_mem_nil rfl hfd true)
      (.setPoller rfl rfl rfl rfl)) <|
    .single (.destroy rfl rfl List.not_mem_nil rfl rfl rfl rfl), rfl, ?_, rfl⟩
  decide

end ServerKit
