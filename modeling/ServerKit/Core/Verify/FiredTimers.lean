import ServerKit.Core.Verify.CancelTimer
import Mathlib.Data.List.Nodup

/-!
# The timers that fire

One call of `executeTimers` runs the `Timeout` of every timer that is due, once and in order, and of
no other; it removes the one-shot timers among them and gives the permanent ones a new key. The ids
of `timer_ids_` stay those of the elements of `timers_` as long as `max_timer_id_`, which wraps
round, does not come back to the id of a pending timer.
-/

namespace ServerKit

open Lib Multimap

/-- The ids of the timers in `timers_`. -/
def Poller.elementIds (s : Poller) : List (Option ℕ) :=
  s.timers.nodes.map fun n => (s.entries n.val).map TimerEntry.id

/-- What a pass from `s` to `s'` is to do. -/
structure Poller.Fires (s s' : Poller) (effects : List TimerEffect) : Prop where
  /-- `due` are the timers with a key that `now_ms_` has reached, in the order of their keys, and of
  their insertion for one key. -/
  due : ∀ n, n ∈ s.due ↔ n ∈ s.timers.nodes ∧ n.key ≤ s.nowMs
  inOrder : InOrder s.due
  /-- Each runs its `Timeout`, once and in this order, and no other timer does. -/
  entries : ∀ n ∈ s.due, ∃ e, s.entries n.val = some e
  timeouts : effects.filterMap TimerEffect.fired =
    s.due.filterMap fun n => (s.entries n.val).map TimerEntry.event
  /-- The one-shot timers among them are gone. -/
  once : ∀ n ∈ s.due, ∀ e, s.entries n.val = some e → e.t = .kTimerOnce →
    s'.timerIds e.id = none ∧ ∀ m ∈ s'.timers.nodes, m.val ≠ n.val
  /-- The permanent ones have one element, with a new key. -/
  permanent : ∀ n ∈ s.due, ∀ e, s.entries n.val = some e → e.t = .kTimerPermanent →
    s'.timerIds e.id = some n.val ∧ s'.entries n.val = some e ∧
      ∃ m ∈ s'.timers.nodes, m.val = n.val ∧ m.key = wordAdd s.nowMs e.timeout ∧
        ∀ c ∈ s'.timers.nodes, c.val = n.val → c = m
  /-- All other timers are as they were. -/
  others : ∀ n ∈ s.timers.nodes, n ∉ s.due → n ∈ s'.timers.nodes ∧
    ∀ e, s.entries n.val = some e → s'.timerIds e.id = some n.val ∧ s'.entries n.val = some e
  /-- The ids in `timers_` are those of `timer_ids_`, each once. -/
  ids : s'.elementIds.Nodup ∧ ∀ id, some id ∈ s'.elementIds ↔ (s'.timerIds id).isSome

namespace TimersOk

variable {s s' : Poller}

theorem elementIds (h : TimersOk s) :
    s.elementIds.Nodup ∧ ∀ id, some id ∈ s.elementIds ↔ (s.timerIds id).isSome := by
  constructor
  · refine List.pairwise_map.mpr (h.once.imp_of_mem ?_)
    intro a b ha hb hne heq
    obtain ⟨e, he, hid⟩ := h.entry_of_mem ha
    obtain ⟨e', he', hid'⟩ := h.entry_of_mem hb
    rw [he, he'] at heq
    have hids : e.id = e'.id := Option.some.inj heq
    rw [hids] at hid
    exact hne (Option.some.inj (hid.symm.trans hid'))
  · intro id
    constructor
    · intro hmem
      obtain ⟨n, hn, heq⟩ := List.mem_map.mp hmem
      obtain ⟨e, he, hid⟩ := h.entry_of_mem hn
      rw [he] at heq
      obtain rfl : e.id = id := Option.some.inj heq
      rw [hid]
      rfl
    · intro hsome
      obtain ⟨p, hp⟩ := Option.isSome_iff_exists.mp hsome
      obtain ⟨n, hn, rfl⟩ := h.node id p hp
      obtain ⟨e, he, rfl⟩ := h.entry id _ hp
      exact List.mem_map.mpr ⟨n, hn, by rw [he]; rfl⟩

theorem due_iff (s : Poller) (n : Node ℕ EntryPtr) :
    n ∈ s.due ↔ n ∈ s.timers.nodes ∧ n.key ≤ s.nowMs := by
  constructor
  · intro hn
    exact ⟨List.takeWhile_subset _ hn, le_of_mem_takeWhile_le hn⟩
  · rintro ⟨hn, hkey⟩
    rw [← List.takeWhile_append_dropWhile (p := fun n : Node ℕ EntryPtr => n.key ≤ s.nowMs)
      (l := s.timers.nodes)] at hn
    refine (List.mem_append.mp hn).resolve_right ?_
    intro hdrop
    exact absurd hkey (not_le_of_gt (lt_of_mem_dropWhile_le s.timers.sorted hdrop))

/-- `timeouts`, seen as the Events that fire. -/
theorem timeouts_fired (l : List (Node ℕ EntryPtr)) :
    (s.timeouts l).filterMap TimerEffect.fired =
      l.filterMap fun n => (s.entries n.val).map TimerEntry.event := by
  induction l with
  | nil => rfl
  | cons n l ih =>
    rw [Poller.timeouts, List.flatMap_cons, List.filterMap_append, List.filterMap_cons]
    rw [Poller.timeouts] at ih
    rw [ih]
    cases s.entries n.val with
    | none => rfl
    | some e => rfl

/-- **A pass**, when no callback calls the poller. -/
theorem fires (h : TimersOk s) (horder : InOrder s.timers.nodes) :
    ∃ res s' effects, s.executeTimers [] = .ok (res, s', effects) ∧ s.Fires s' effects := by
  have hsilent : ∀ c ∈ ([] : List (List TimerCall)), c = [] := nofun
  obtain ⟨s', effects, hrun, hx, hnone⟩ := h.executeTimers hsilent
  refine ⟨_, s', _, hrun, due_iff s, ?_, ?_, ?_, ?_, ?_, ?_, hx.ok.elementIds⟩
  · exact List.Pairwise.sublist (List.takeWhile_sublist _) horder
  · intro n hn
    obtain ⟨e, he, -⟩ := h.entry_of_mem ((due_iff s n).mp hn).1
    exact ⟨e, he⟩
  · rw [List.filterMap_append, hnone, List.append_nil, timeouts_fired]
  · intro n hn e he honce
    refine ⟨hx.once n hn e he honce, ?_⟩
    intro m hm hval
    rcases hx.origin m hm with ⟨hms, hmd⟩ | ⟨x, hxd, ex, hex, hperm, hv, -⟩
    · obtain ⟨a, b, hsplit⟩ := List.append_of_mem ((due_iff s n).mp hn).1
      exact hmd (h.node_unique hsplit hms hval ▸ hn)
    · rw [← hv, hval, he] at hex
      obtain rfl := Option.some.inj hex
      rw [honce] at hperm
      cases hperm
  · intro n hn e he hperm
    obtain ⟨e', he', hid⟩ := h.entry_of_mem ((due_iff s n).mp hn).1
    obtain rfl := Option.some.inj (he.symm.trans he')
    obtain ⟨hid', hent⟩ := hx.pending e.id n.val e hid he (.inl hperm)
    obtain ⟨m, hm, hval, hkey⟩ := hx.rearmed n hn e he hperm
    refine ⟨hid', hent, m, hm, hval, hkey, ?_⟩
    intro c hc hcval
    obtain ⟨a, b, hsplit⟩ := List.append_of_mem hm
    exact hx.ok.node_unique hsplit hc (hcval.trans hval.symm)
  · intro n hn hnd
    refine ⟨hx.kept n hn hnd, ?_⟩
    intro e he
    obtain ⟨e', he', hid⟩ := h.entry_of_mem hn
    obtain rfl := Option.some.inj (he.symm.trans he')
    refine hx.pending e.id n.val e hid he (.inr ?_)
    intro m hm hval
    obtain ⟨a, b, hsplit⟩ := List.append_of_mem hn
    exact hnd (h.node_unique hsplit ((due_iff s m).mp hm).1 hval ▸ hm)

end TimersOk

/-! ## Runs -/

theorem Poller.expireTimers_inOrder (l : List ℕ) : ∀ {s s' : Poller} {effects : List TimerEffect},
    s.expireTimers l = .ok (s', effects) → InOrder s.timers.nodes → InOrder s'.timers.nodes := by
  induction l with
  | nil =>
    intro s s' effects h horder
    obtain ⟨rfl, -⟩ := Prod.mk.inj (Except.ok.inj h)
    exact horder
  | cons i l ih =>
    intro s s' effects h horder
    unfold Poller.expireTimers at h
    obtain ⟨⟨s₁, effects₁⟩, hfirst, h⟩ := bind_eq_ok.mp h
    obtain ⟨⟨s₂, effects₂⟩, hrest, h⟩ := bind_eq_ok.mp h
    obtain ⟨rfl, -⟩ := Prod.mk.inj (Except.ok.inj h)
    obtain ⟨n, e, m, -, -, herase, hcases⟩ := Poller.expireTimer_ok hfirst
    have hm : InOrder m.nodes := horder.sublist (erase_sublist herase).1
    refine ih hrest ?_
    rcases hcases with ⟨rfl, -⟩ | ⟨rfl, -⟩
    · exact hm
    · exact insert_inOrder hm _ _

theorem Poller.Good.inOrder {s s' : Poller} {e : TimerEvent} (h : TimersOk s)
    (hs : Lts.restrict PollerStep Poller.Good s e s') (horder : InOrder s.timers.nodes) :
    InOrder s'.timers.nodes := by
  obtain ⟨hgood, hs⟩ := hs
  cases hs with
  | @addTimer s s' currentMs timeout event t id effects hrun =>
    have heq := (Prod.mk.inj (Prod.mk.inj hrun).2).1
    rw [← heq]
    exact insert_inOrder horder _ _
  | cancelTimer hrun =>
    rcases Poller.cancelTimer_ok hrun with ⟨rfl, -⟩ | ⟨p, e, i, m, -, -, herase, rfl, -⟩
    · exact horder
    · exact horder.sublist (erase_sublist herase).1
  | @executeTimers s s' now calls res effects hrun =>
    have hnow : TimersOk { s with nowMs := now } := ⟨h.entry, h.node, h.id, h.once, h.fresh⟩
    rw [hnow.executeTimers_eq hgood] at hrun
    obtain ⟨⟨s₁, more⟩, hexpire, hrun⟩ := bind_eq_ok.mp hrun
    obtain ⟨-, heq⟩ := Prod.mk.inj (Except.ok.inj hrun)
    obtain ⟨rfl, -⟩ := Prod.mk.inj heq
    exact Poller.expireTimers_inOrder _ hexpire horder

/-- **The timers that fire.** After any calls of `AddTimer`, `executeTimers` and `CancelTimer` in
which a new id never is that of a pending timer, callbacks do not call the poller, and the timers
cancelled were where `CancelTimer` looks for them, a pass does at any time what it is to do. -/
theorem executeTimers_fires {s : Poller} {nowMs : ℕ} {es : List TimerEvent}
    (hrun : Run (Lts.restrict PollerStep Poller.Good) (.new nowMs) es s) (now : ℕ) :
    ∃ res s' effects, Poller.executeTimers { s with nowMs := now } [] = .ok (res, s', effects) ∧
      Poller.Fires { s with nowMs := now } s' effects := by
  obtain ⟨h, horder⟩ := hrun.invariant (fun s => TimersOk s ∧ InOrder s.timers.nodes)
    (fun _ _ _ h hs => ⟨h.1.step hs, Poller.Good.inOrder h.1 hs h.2⟩)
    ⟨.new nowMs, List.Pairwise.nil⟩
  have hnow : TimersOk { s with nowMs := now } := ⟨h.entry, h.node, h.id, h.once, h.fresh⟩
  exact hnow.fires horder

/-- A permanent timer fires for the second time, behind a one-shot timer and before another one with
its key, and a fourth timer is not due yet. -/
theorem executeTimers_fires_shared_key :
    ∃ s, Run (Lts.restrict PollerStep Poller.Good) (.new 0)
      [.addTimer 0 10 7 .kTimerPermanent 1 [.setTimerId 7 1], .executeTimers 10 [] 100 [.timeout 7],
        .addTimer 10 10 8 .kTimerOnce 2 [.setTimerId 8 2],
        .addTimer 10 5 9 .kTimerOnce 3 [.setTimerId 9 3],
        .addTimer 10 90 6 .kTimerOnce 4 [.setTimerId 6 4]] s ∧
      s.timers.nodes.map (fun n => (n.key, n.val)) = [(15, 2), (20, 0), (20, 1), (100, 3)] ∧
      ∃ res s' effects, Poller.executeTimers { s with nowMs := 20 } [] = .ok (res, s', effects) ∧
        Poller.Fires { s with nowMs := 20 } s' effects ∧
        effects = [.timeout 9, .timeout 7, .timeout 8, .delete 9, .delete 8] := by
  obtain ⟨s, hrun, hnodes, heffects⟩ : ∃ s, Run (Lts.restrict PollerStep Poller.Good) (.new 0)
      [.addTimer 0 10 7 .kTimerPermanent 1 [.setTimerId 7 1], .executeTimers 10 [] 100 [.timeout 7],
        .addTimer 10 10 8 .kTimerOnce 2 [.setTimerId 8 2],
        .addTimer 10 5 9 .kTimerOnce 3 [.setTimerId 9 3],
        .addTimer 10 90 6 .kTimerOnce 4 [.setTimerId 6 4]] s ∧
      s.timers.nodes.map (fun n => (n.key, n.val)) = [(15, 2), (20, 0), (20, 1), (100, 3)] ∧
      (Poller.executeTimers { s with nowMs := 20 } []).toOption.map (fun r => r.2.2) =
        some [.timeout 9, .timeout 7, .timeout 8, .delete 9, .delete 8] :=
    ⟨_, .cons ⟨rfl, .addTimer rfl⟩ <| .cons ⟨nofun, .executeTimers rfl⟩ <|
      .cons ⟨rfl, .addTimer rfl⟩ <| .cons ⟨rfl, .addTimer rfl⟩ <| .single ⟨rfl, .addTimer rfl⟩,
      rfl, rfl⟩
  obtain ⟨res, s', effects, hpass, hfires⟩ := executeTimers_fires hrun 20
  rw [hpass] at heffects
  exact ⟨s, hrun, hnodes, res, s', effects, hpass, hfires, Option.some.inj heffects⟩

/-! ## When the ids wrap round -/

/-- A call of `AddTimer` with a timeout that is not negative and an Event of its own, or of
`executeTimers`, whose callbacks do not call the poller. -/
def Poller.Plain (s : Poller) : TimerEvent → Prop
  | .addTimer _ timeout event .. => 0 ≤ timeout ∧ ∀ p e, s.entries p = some e → e.event ≠ event
  | .executeTimers _ calls .. => ∀ c ∈ calls, c = []
  | .cancelTimer .. => False

/-- The entry of a permanent timer with the id 1, which is not due before 1000. -/
def oldTimer : TimerEntry :=
  { timeout := 1000, expire := 1000, event := 0, id := 1, t := .kTimerPermanent }

/-- That timer alone is pending, `k` others have come and gone, and their Events are numbered. -/
structure OldTimer (k : ℕ) (s : Poller) : Prop where
  ok : TimersOk s
  maxTimerId : s.maxTimerId = wordAdd 1 k
  nodes : s.timers.nodes = [⟨0, 1000, 0⟩]
  entry : s.entries 0 = some oldTimer
  timerId : s.timerIds 1 = some 0
  events : ∀ p e, s.entries p = some e → e.event ≤ k

namespace OldTimer

variable {k : ℕ} {s : Poller}

theorem start : ∃ es s, Run (Lts.restrict PollerStep Poller.Plain) (.new 0) es s ∧
    OldTimer 0 s := by
  have hok := (TimersOk.new 0).addTimer 0 1000 0 .kTimerPermanent rfl
  have hplain : Poller.Plain (.new 0)
      (.addTimer 0 1000 0 .kTimerPermanent 1 [.setTimerId 0 1]) := ⟨by decide, nofun⟩
  refine ⟨_, _, .single ⟨hplain, .addTimer rfl⟩, hok, rfl, rfl, rfl, rfl, ?_⟩
  intro p e he
  change Function.update (fun _ => none) 0 (some oldTimer) p = some e at he
  by_cases hp : p = 0
  · rw [hp, Function.update_self] at he
    obtain rfl := Option.some.inj he
    exact le_rfl
  · rw [Function.update_of_ne hp] at he
    cases he

/-- The old timer, and one more. -/
structure Added (k : ℕ) (timeout : ℕ) (t : TimerType) (s s₁ : Poller) : Prop where
  maxTimerId : s₁.maxTimerId = wordAdd s.maxTimerId 1
  timerIds : s₁.timerIds = Function.update s.timerIds (wordAdd s.maxTimerId 1) (some s.nextEntry)
  nodes : s₁.timers.nodes =
    insertNode ⟨s.timers.fresh, wordAdd 0 timeout, s.nextEntry⟩ s.timers.nodes
  entries : s₁.entries = Function.update s.entries s.nextEntry
    (some ⟨timeout, wordAdd 0 timeout, k + 1, wordAdd s.maxTimerId 1, t⟩)

theorem add (h : OldTimer k s) (timeout : ℕ) (htimeout : timeout < 2 ^ 64) (t : TimerType) :
    ∃ e, Lts.restrict PollerStep Poller.Plain s e (s.addTimer 0 timeout (k + 1) t).2.1 ∧
      Added k timeout t s (s.addTimer 0 timeout (k + 1) t).2.1 := by
  have hword : uint64OfInt timeout = timeout := by
    unfold uint64OfInt
    omega
  have hplain : s.Plain (.addTimer 0 timeout (k + 1) t (wordAdd s.maxTimerId 1)
      [.setTimerId (k + 1) (wordAdd s.maxTimerId 1)]) := by
    refine ⟨Int.natCast_nonneg _, ?_⟩
    intro p e he heq
    exact absurd (h.events p e he) (heq ▸ Nat.not_succ_le_self k)
  refine ⟨_, ⟨hplain, .addTimer rfl⟩, ?_⟩
  unfold Poller.addTimer
  rw [hword]
  exact ⟨rfl, rfl, rfl, rfl⟩

theorem nextEntry_ne (h : OldTimer k s) : s.nextEntry ≠ 0 := by
  intro hzero
  have hfree := h.ok.fresh 0 hzero.le
  rw [h.entry] at hfree
  cases hfree

/-- No pending timer has the next id. -/
theorem nextId (h : OldTimer k s) (hk : k + 1 < 2 ^ 64) :
    wordAdd s.maxTimerId 1 ≠ 1 ∧ s.timerIds (wordAdd s.maxTimerId 1) = none := by
  have hne : wordAdd s.maxTimerId 1 ≠ 1 := by
    rw [h.maxTimerId, wordAdd_assoc]
    unfold wordAdd
    omega
  refine ⟨hne, ?_⟩
  cases hp : s.timerIds (wordAdd s.maxTimerId 1) with
  | none => rfl
  | some p =>
    obtain ⟨n, hn, rfl⟩ := h.ok.node _ p hp
    rw [h.nodes, List.mem_singleton] at hn
    subst hn
    exact absurd (h.ok.id_unique h.timerId hp) hne

/-- A one-shot timer that is due comes and goes. -/
theorem next (h : OldTimer k s) (hk : k + 1 < 2 ^ 64) :
    ∃ es s', Run (Lts.restrict PollerStep Poller.Plain) s es s' ∧ OldTimer (k + 1) s' := by
  obtain ⟨hne, hnone⟩ := h.nextId hk
  have hok := h.ok.addTimer 0 (0 : ℕ) (k + 1) .kTimerOnce hnone
  obtain ⟨e₁, hadd, ha⟩ := h.add 0 (by decide) .kTimerOnce
  set s₁ := (s.addTimer 0 (0 : ℕ) (k + 1) .kTimerOnce).2.1
  have hnow : TimersOk { s₁ with nowMs := 0 } := ⟨hok.entry, hok.node, hok.id, hok.once, hok.fresh⟩
  have hsilent : ∀ c ∈ ([] : List (List TimerCall)), c = [] := nofun
  obtain ⟨s', effects, hrun, hx, -⟩ := hnow.executeTimers hsilent
  have hnodes : s₁.timers.nodes = [⟨s.timers.fresh, 0, s.nextEntry⟩, ⟨0, 1000, 0⟩] := by
    rw [ha.nodes, h.nodes]
    rfl
  have hdue : Poller.due { s₁ with nowMs := 0 } = [⟨s.timers.fresh, 0, s.nextEntry⟩] := by
    unfold Poller.due
    rw [hnodes]
    rfl
  have hpending := hx.pending 1 0 oldTimer
    (by rw [ha.timerIds, Function.update_of_ne hne.symm, h.timerId])
    (by rw [ha.entries, Function.update_of_ne h.nextEntry_ne.symm, h.entry]) (.inl rfl)
  have hpass : ∀ res effects, s₁.Plain (.executeTimers 0 [] res effects) := fun _ _ => hsilent
  refine ⟨_, s', .cons hadd (.single ⟨hpass _ _, .executeTimers hrun⟩), hx.ok, ?_, ?_,
    hpending.2, hpending.1, ?_⟩
  · rw [hx.maxTimerId, ha.maxTimerId, h.maxTimerId, wordAdd_assoc]
  · -- nothing but the old element is left
    have hkept : (⟨0, 1000, 0⟩ : Node ℕ EntryPtr) ∈ s'.timers.nodes := by
      apply hx.kept
      · rw [hnodes]
        exact List.mem_cons_of_mem _ List.mem_cons_self
      · rw [hdue, List.mem_singleton]
        intro heq
        cases congrArg Node.key heq
    have hall : ∀ m ∈ s'.timers.nodes, m = ⟨0, 1000, 0⟩ := by
      intro m hm
      rcases hx.origin m hm with ⟨hms, hmd⟩ | ⟨x, hxd, ex, hex, hperm, -, -⟩
      · rw [hnodes] at hms
        rw [hdue] at hmd
        rcases List.mem_cons.mp hms with rfl | hms
        · exact absurd List.mem_cons_self hmd
        · exact List.mem_singleton.mp hms
      · rw [hdue, List.mem_singleton] at hxd
        subst hxd
        rw [ha.entries, Function.update_self] at hex
        obtain rfl := Option.some.inj hex
        cases hperm
    exact s'.timers.eq_singleton hkept hall
  · intro p e he
    have hp := hx.entries_sub p e he
    rw [ha.entries] at hp
    by_cases heq : p = s.nextEntry
    · rw [heq, Function.update_self] at hp
      obtain rfl := Option.some.inj hp
      exact le_rfl
    · rw [Function.update_of_ne heq] at hp
      exact (h.events p e hp).trans (Nat.le_succ k)

theorem reachable (k : ℕ) : k < 2 ^ 64 →
    ∃ es s, Run (Lts.restrict PollerStep Poller.Plain) (.new 0) es s ∧ OldTimer k s := by
  induction k with
  | zero => exact fun _ => start
  | succ k ih =>
    intro hk
    obtain ⟨es, s, hrun, hold⟩ := ih (Nat.lt_of_succ_lt hk)
    obtain ⟨es', s', hrun', hold'⟩ := hold.next hk
    exact ⟨_, s', hrun.append hrun', hold'⟩

end OldTimer

/-- After `2 ^ 64` more timers another one gets the id of the permanent one: a pass in which none is
due leaves that id in `timers_` twice. -/
theorem executeTimers_ids_wrap : ¬ ∀ nowMs es s now,
    Run (Lts.restrict PollerStep Poller.Plain) (.new nowMs) es s →
    ∃ res s' effects, Poller.executeTimers { s with nowMs := now } [] = .ok (res, s', effects) ∧
      Poller.Fires { s with nowMs := now } s' effects := by
  intro hfires
  obtain ⟨es, s, hrun, hold⟩ := OldTimer.reachable (2 ^ 64 - 1) (by decide)
  have hmax : wordAdd s.maxTimerId 1 = 1 := by
    rw [hold.maxTimerId]
    rfl
  obtain ⟨e₁, hadd, ha⟩ := hold.add 2000 (by decide) .kTimerOnce
  set s₁ := (s.addTimer 0 (2000 : ℕ) (2 ^ 64 - 1 + 1) .kTimerOnce).2.1
  obtain ⟨res, s', effects, -, hpass⟩ := hfires 0 _ s₁ 0 (hrun.snoc hadd)
  have hnodes : s₁.timers.nodes = [⟨0, 1000, 0⟩, ⟨s.timers.fresh, 2000, s.nextEntry⟩] := by
    rw [ha.nodes, hold.nodes]
    rfl
  have hstays : ∀ n ∈ s₁.timers.nodes, ∀ e, s₁.entries n.val = some e →
      n ∈ s'.timers.nodes ∧ s'.entries n.val = some e := by
    intro n hn e he
    have hnd : n ∉ Poller.due { s₁ with nowMs := 0 } := by
      intro hdue
      have hkey := ((hpass.due n).mp hdue).2
      rw [hnodes] at hn
      rcases List.mem_cons.mp hn with rfl | hn
      · cases hkey
      · rw [List.mem_singleton.mp hn] at hkey
        cases hkey
    obtain ⟨hmem, hothers⟩ := hpass.others n hn hnd
    exact ⟨hmem, (hothers e he).2⟩
  obtain ⟨hmem, hentry⟩ := hstays ⟨0, 1000, 0⟩ (by rw [hnodes]; simp) oldTimer
    (by rw [ha.entries, Function.update_of_ne hold.nextEntry_ne.symm, hold.entry])
  obtain ⟨hmem', hentry'⟩ := hstays ⟨s.timers.fresh, 2000, s.nextEntry⟩ (by rw [hnodes]; simp) _
    (by rw [ha.entries, Function.update_self])
  have heq := List.inj_on_of_nodup_map hpass.ids.1 hmem hmem'
    (by rw [hentry, hentry', hmax]; rfl)
  cases congrArg Node.key heq

end ServerKit
