import ServerKit.Core.Verify.Timers

/-!
# A pass of `executeTimers`

The second loop of `executeTimers` works off the elements whose callbacks have run: `Expired` says
what it leaves. Together with the first loop, when callbacks do not call the poller, it is a whole
pass (`Passes`).
-/

namespace ServerKit

open Lib Multimap

/-! ## The calls of the callbacks -/

/-- The calls of the next callback, which are none once all have been made. -/
theorem headD_of_forall {α : Type} {P : List α → Prop} {ls : List (List α)} (hnil : P [])
    (h : ∀ l ∈ ls, P l) : P (ls.headD []) := by
  cases ls with
  | nil => exact hnil
  | cons l ls => exact h l List.mem_cons_self

theorem flatten_eq_headD {α : Type} (ls : List (List α)) :
    ls.flatten = ls.headD [] ++ ls.tail.flatten := by
  cases ls with
  | nil => rfl
  | cons l ls => rfl

/-! ## The second loop -/

/-- The Event whose `Timeout` an effect is. -/
def TimerEffect.fired : TimerEffect → Option EventPtr
  | .timeout event => some event
  | .setTimerId _ _ | .delete _ => none

/-- `s'` is `s` with the element `n` inserted again under another key. -/
structure Poller.Rearms (s s' : Poller) (n : Node ℕ EntryPtr) (key : ℕ) : Prop where
  timers : ∃ a b, s.timers.nodes = a ++ n :: b ∧
    s'.timers.nodes = insertNode ⟨s.timers.fresh, key, n.val⟩ (a ++ b)
  timerIds : s'.timerIds = s.timerIds
  entries : s'.entries = s.entries
  maxTimerId : s'.maxTimerId = s.maxTimerId
  nowMs : s'.nowMs = s.nowMs
  nextEntry : s'.nextEntry = s.nextEntry

theorem Poller.Rearms.mem_iff {s s' : Poller} {n m : Node ℕ EntryPtr} {key : ℕ}
    (h : s.Rearms s' n key) :
    m ∈ s'.timers.nodes ↔ m = ⟨s.timers.fresh, key, n.val⟩ ∨ m ∈ s.timers.nodes ∧ m ≠ n := by
  obtain ⟨a, b, hsplit, hnodes⟩ := h.timers
  rw [hnodes, mem_insertNode, Multimap.mem_rest_iff hsplit]

theorem Poller.Without.mem_iff {s s' : Poller} {m : Node ℕ EntryPtr} {id : ℕ} {p : EntryPtr}
    (h : s.Without s' id p) (hok : TimersOk s) :
    m ∈ s'.timers.nodes ↔ m ∈ s.timers.nodes ∧ m.val ≠ p := by
  obtain ⟨a, n, b, hsplit, rfl, hnodes⟩ := h.timers
  rw [hnodes, Multimap.mem_rest_iff hsplit]
  constructor
  · rintro ⟨hm, hne⟩
    exact ⟨hm, fun hval => hne (hok.node_unique hsplit hm hval)⟩
  · rintro ⟨hm, hne⟩
    exact ⟨hm, fun heq => hne (heq ▸ rfl)⟩

/-- The elements that are left are those of the other timers, in their order. -/
theorem Poller.Without.nodes_eq {s s' : Poller} {id : ℕ} {p : EntryPtr} (h : s.Without s' id p)
    (hok : TimersOk s) : s'.timers.nodes = s.timers.nodes.filter fun m => m.val ≠ p := by
  obtain ⟨a, n, b, hsplit, rfl, hnodes⟩ := h.timers
  have hall : ∀ m ∈ a ++ b, decide (m.val ≠ n.val) = true := fun m hm =>
    decide_eq_true (hok.val_ne hsplit hm)
  simp only [List.mem_append, or_imp, forall_and] at hall
  rw [hnodes, hsplit, List.filter_append, List.filter_cons_of_neg (by simp),
    List.filter_eq_self.mpr hall.1, List.filter_eq_self.mpr hall.2]

/-- The elements that are left when those of `d` have been worked off. -/
structure Poller.Leaves (s : Poller) (d : List (Node ℕ EntryPtr)) (s' : Poller) : Prop where
  /-- The other elements stay. -/
  kept : ∀ m ∈ s.timers.nodes, m ∉ d → m ∈ s'.timers.nodes
  /-- Permanent timers have an element again. -/
  rearmed : ∀ n ∈ d, ∀ e, s.entries n.val = some e → e.t = .kTimerPermanent →
    ∃ m ∈ s'.timers.nodes, m.val = n.val ∧ m.key = wordAdd s.nowMs e.timeout
  /-- There are no elements but these. -/
  origin : ∀ m ∈ s'.timers.nodes, m ∈ s.timers.nodes ∧ m ∉ d ∨
    ∃ n ∈ d, ∃ e, s.entries n.val = some e ∧ e.t = .kTimerPermanent ∧ m.val = n.val ∧
      m.key = wordAdd s.nowMs e.timeout

/-- What the second loop leaves of `s`, having worked off the elements `d`. -/
structure Poller.Expired (s : Poller) (d : List (Node ℕ EntryPtr)) (s' : Poller) : Prop
    extends s.Leaves d s' where
  ok : TimersOk s'
  nowMs : s'.nowMs = s.nowMs
  maxTimerId : s'.maxTimerId = s.maxTimerId
  /-- One-shot timers are gone. -/
  once : ∀ n ∈ d, ∀ e, s.entries n.val = some e → e.t = .kTimerOnce → s'.timerIds e.id = none
  /-- Permanent timers, and those not worked off, keep their ids and entries. -/
  pending : ∀ id p e, s.timerIds id = some p → s.entries p = some e →
    (e.t = .kTimerPermanent ∨ ∀ n ∈ d, n.val ≠ p) →
    s'.timerIds id = some p ∧ s'.entries p = some e
  /-- There are no ids and no entries but these. -/
  sub : ∀ id p, s'.timerIds id = some p → s.timerIds id = some p
  entries_sub : ∀ p e, s'.entries p = some e → s.entries p = some e

/-- `s₁` is `s` with the element `n` worked off. -/
structure Poller.WorksOff (s s₁ : Poller) (n : Node ℕ EntryPtr) : Prop where
  nowMs : s₁.nowMs = s.nowMs
  entries : ∀ p, p ≠ n.val → s₁.entries p = s.entries p
  nodes : ∀ m, m ∈ s₁.timers.nodes ↔ m ∈ s.timers.nodes ∧ m ≠ n ∨
    ∃ e, s.entries n.val = some e ∧ e.t = .kTimerPermanent ∧
      m = ⟨s.timers.fresh, wordAdd s.nowMs e.timeout, n.val⟩

namespace Poller.Leaves

variable {s s₁ s' : Poller} {n : Node ℕ EntryPtr} {d : List (Node ℕ EntryPtr)}

theorem nil (s : Poller) : s.Leaves [] s where
  kept _ hm _ := hm
  rearmed _ hn := nomatch hn
  origin _ hm := .inl ⟨hm, List.not_mem_nil⟩

/-- One element is worked off, and then others, which point to other entries. -/
theorem cons (hw : s.WorksOff s₁ n) (hd : ∀ m ∈ d, m ∈ s.timers.nodes ∧ m.val ≠ n.val)
    (hx : s₁.Leaves d s') : s.Leaves (n :: d) s' := by
  have hentry : ∀ m ∈ d, s₁.entries m.val = s.entries m.val := fun m hm =>
    hw.entries _ (hd m hm).2
  refine ⟨?_, ?_, ?_⟩
  · intro m hm hmd
    rw [List.mem_cons, not_or] at hmd
    exact hx.kept m ((hw.nodes m).mpr (.inl ⟨hm, hmd.1⟩)) hmd.2
  · intro m hm e he hperm
    obtain rfl | hm := List.mem_cons.mp hm
    · -- the new element is not one of `d`, all of which are older
      have hnew := (hw.nodes _).mpr (.inr ⟨e, he, hperm, rfl⟩)
      refine ⟨_, hx.kept _ hnew ?_, rfl, rfl⟩
      intro hold
      exact absurd (s.timers.below _ (hd _ hold).1) (Nat.lt_irrefl _)
    · obtain ⟨m', hm', hval, hkey⟩ := hx.rearmed m hm e (by rw [hentry m hm]; exact he) hperm
      exact ⟨m', hm', hval, by rw [hkey, hw.nowMs]⟩
  · intro m hm
    rcases hx.origin m hm with ⟨hm₁, hmd⟩ | ⟨x, hxd, e, he, hperm, hval, hkey⟩
    · rcases (hw.nodes m).mp hm₁ with ⟨hms, hne⟩ | ⟨e, he, hperm, rfl⟩
      · refine .inl ⟨hms, ?_⟩
        rw [List.mem_cons, not_or]
        exact ⟨hne, hmd⟩
      · exact .inr ⟨n, List.mem_cons_self, e, he, hperm, rfl, rfl⟩
    · rw [hentry x hxd] at he
      rw [hw.nowMs] at hkey
      exact .inr ⟨x, List.mem_cons_of_mem _ hxd, e, he, hperm, hval, hkey⟩

end Poller.Leaves

namespace TimersOk

variable {s s' : Poller}

/-- The timers stay well-formed when the elements are reordered and get other keys. -/
theorem of_perm (h : TimersOk s)
    (hperm : (s'.timers.nodes.map Node.val).Perm (s.timers.nodes.map Node.val))
    (htimerIds : s'.timerIds = s.timerIds) (hentries : s'.entries = s.entries)
    (hnext : s'.nextEntry = s.nextEntry) : TimersOk s' := by
  refine ⟨?_, fun id p hp => ?_, fun n hn => ?_, ?_, ?_⟩
  · rw [htimerIds, hentries]; exact h.entry
  · rw [htimerIds] at hp
    obtain ⟨n, hn, hval⟩ := h.node id p hp
    exact List.mem_map.mp (hperm.mem_iff.mpr (List.mem_map.mpr ⟨n, hn, hval⟩))
  · obtain ⟨m, hm, hval⟩ := List.mem_map.mp (hperm.mem_iff.mp (List.mem_map.mpr ⟨n, hn, rfl⟩))
    rw [htimerIds, ← hval]
    exact h.id m hm
  · have honce := List.pairwise_map.mpr h.once
    exact List.pairwise_map.mp ((hperm.pairwise_iff fun h => h.symm).mpr honce)
  · rw [hentries, hnext]; exact h.fresh

theorem rearms (h : TimersOk s) {n : Node ℕ EntryPtr} {key : ℕ} (hr : s.Rearms s' n key) :
    TimersOk s' := by
  obtain ⟨⟨a, b, hsplit, hnodes⟩, htimerIds, hentries, -, -, hnext⟩ := hr
  refine h.of_perm ?_ htimerIds hentries hnext
  rw [hnodes, hsplit]
  refine (insertNode_perm.map Node.val).trans ?_
  have hmiddle : (a ++ n :: b).Perm (n :: (a ++ b)) := List.perm_middle
  exact (hmiddle.map Node.val).symm

/-- **One iteration of the second loop**: a one-shot timer is removed, and a permanent one inserted
again. -/
theorem expireTimer (h : TimersOk s) {a b : List (Node ℕ EntryPtr)} {n : Node ℕ EntryPtr}
    (hsplit : s.timers.nodes = a ++ n :: b) :
    ∃ e s' effects, s.entries n.val = some e ∧ s.timerIds e.id = some n.val ∧
      s.expireTimer n.id = .ok (s', effects) ∧ TimersOk s' ∧
      (e.t = .kTimerOnce ∧ s.Without s' e.id n.val ∧ effects = [.delete e.event] ∨
        e.t = .kTimerPermanent ∧ s.Rearms s' n (wordAdd s.nowMs e.timeout) ∧ effects = []) := by
  obtain ⟨e, he, hid⟩ := h.entry_of_mem (n := n) (by rw [hsplit]; simp)
  obtain ⟨s₁, herase, hnodes, hfresh, hs₁⟩ := erase_eq hsplit
  have he₁ : s₁.entry n.val = .ok e := by rw [Poller.entry, hs₁, he]
  have hnow : s₁.nowMs = s.nowMs := by rw [hs₁]
  rw [Poller.expireTimer]
  simp only [Poller.node, Multimap.get_eq hsplit, herase, he₁, ok_bind]
  cases ht : e.t with
  | kTimerOnce =>
    have hwithout : s.Without ((s₁.eraseId e.id).deleteEntry n.val) e.id n.val := by
      rw [hs₁]
      exact ⟨⟨a, n, b, hsplit, rfl, hnodes⟩, rfl, rfl, rfl, rfl, rfl⟩
    exact ⟨e, _, _, he, hid, rfl, h.without hid hwithout, .inl ⟨ht, hwithout, rfl⟩⟩
  | kTimerPermanent =>
    have hrearms : s.Rearms (s₁.insertTimer (wordAdd s₁.nowMs e.timeout) n.val) n
        (wordAdd s.nowMs e.timeout) := by
      refine ⟨⟨a, b, hsplit, ?_⟩, ?_, ?_, ?_, ?_, ?_⟩
      · rw [← hnow, ← hnodes, ← hfresh]
        rfl
      all_goals
        rw [hs₁]
        rfl
    exact ⟨e, _, _, he, hid, rfl, h.rearms hrearms, .inr ⟨ht, hrearms, rfl⟩⟩

theorem expired_nil (h : TimersOk s) : s.Expired [] s where
  toLeaves := .nil s
  ok := h
  nowMs := rfl
  maxTimerId := rfl
  once _ hn := nomatch hn
  pending _ _ _ hp he _ := ⟨hp, he⟩
  sub _ _ hp := hp
  entries_sub _ _ he := he

section Cons

variable {n : Node ℕ EntryPtr} {d : List (Node ℕ EntryPtr)} {e : TimerEntry} {s₁ : Poller}

theorem worksOff_once (h : TimersOk s) (hn : n ∈ s.timers.nodes) (he : s.entries n.val = some e)
    (ht : e.t = .kTimerOnce) {id : ℕ} (hw : s.Without s₁ id n.val) : s.WorksOff s₁ n := by
  refine ⟨hw.nowMs, ?_, ?_⟩
  · intro p hp
    rw [hw.entries, Function.update_of_ne hp]
  · intro m
    rw [hw.mem_iff h]
    constructor
    · rintro ⟨hm, hne⟩
      exact .inl ⟨hm, fun heq => hne (heq ▸ rfl)⟩
    · rintro (⟨hm, hne⟩ | ⟨e', he', hperm, -⟩)
      · obtain ⟨a, b, hsplit⟩ := List.append_of_mem hn
        exact ⟨hm, fun hval => hne (h.node_unique hsplit hm hval)⟩
      · obtain rfl := Option.some.inj (he.symm.trans he')
        rw [ht] at hperm
        cases hperm

theorem worksOff_permanent (he : s.entries n.val = some e) (ht : e.t = .kTimerPermanent)
    (hr : s.Rearms s₁ n (wordAdd s.nowMs e.timeout)) : s.WorksOff s₁ n := by
  refine ⟨hr.nowMs, ?_, ?_⟩
  · intro p _
    rw [hr.entries]
  · intro m
    rw [hr.mem_iff]
    constructor
    · rintro (rfl | hm)
      · exact .inr ⟨e, he, ht, rfl⟩
      · exact .inl hm
    · rintro (hm | ⟨e', he', -, rfl⟩)
      · exact .inr hm
      · obtain rfl := Option.some.inj (he.symm.trans he')
        exact .inl rfl

/-- A one-shot timer is worked off, and then others. -/
theorem expired_once (h : TimersOk s) (hn : n ∈ s.timers.nodes) (he : s.entries n.val = some e)
    (hid : s.timerIds e.id = some n.val) (ht : e.t = .kTimerOnce)
    (hw : s.Without s₁ e.id n.val) (hd : ∀ m ∈ d, m ∈ s.timers.nodes ∧ m.val ≠ n.val)
    (hx : s₁.Expired d s') : s.Expired (n :: d) s' := by
  have hentry : ∀ p, p ≠ n.val → s₁.entries p = s.entries p := by
    intro p hp
    rw [hw.entries, Function.update_of_ne hp]
  have hids : ∀ id p, s.timerIds id = some p → p ≠ n.val → s₁.timerIds id = some p := by
    intro id p hp hne
    rw [hw.timerIds, Function.update_of_ne, hp]
    rintro rfl
    exact hne (Option.some.inj (hp.symm.trans hid))
  have hsub : ∀ id p, s₁.timerIds id = some p → s.timerIds id = some p := by
    intro id p hp
    rw [hw.timerIds] at hp
    by_cases heq : id = e.id
    · rw [heq, Function.update_self] at hp
      cases hp
    · rwa [Function.update_of_ne heq] at hp
  refine ⟨.cons (worksOff_once h hn he ht hw) hd hx.toLeaves, hx.ok,
    hx.nowMs.trans hw.nowMs, hx.maxTimerId.trans hw.maxTimerId, ?_, ?_, ?_, ?_⟩
  · intro m hm em hem honce
    obtain rfl | hm := List.mem_cons.mp hm
    · obtain rfl := Option.some.inj (he.symm.trans hem)
      cases hnone : s'.timerIds e.id with
      | none => rfl
      | some p =>
        have hp := hx.sub _ _ hnone
        rw [hw.timerIds, Function.update_self] at hp
        cases hp
    · exact hx.once m hm em (by rw [hentry _ (hd m hm).2]; exact hem) honce
  · intro id p ep hp hep hkeep
    have hne : p ≠ n.val := by
      rintro rfl
      obtain rfl := Option.some.inj (he.symm.trans hep)
      rcases hkeep with hperm | hother
      · rw [ht] at hperm
        cases hperm
      · exact hother n List.mem_cons_self rfl
    refine hx.pending id p ep (hids id p hp hne) (by rw [hentry p hne]; exact hep) ?_
    exact hkeep.imp_right fun hother m hm => hother m (List.mem_cons_of_mem _ hm)
  · intro id p hp
    exact hsub id p (hx.sub id p hp)
  · intro p ep hep
    have hep₁ := hx.entries_sub p ep hep
    rw [hw.entries] at hep₁
    by_cases heq : p = n.val
    · rw [heq, Function.update_self] at hep₁
      cases hep₁
    · rwa [Function.update_of_ne heq] at hep₁

/-- A permanent timer is worked off, and then others. -/
theorem expired_permanent (he : s.entries n.val = some e) (ht : e.t = .kTimerPermanent)
    (hr : s.Rearms s₁ n (wordAdd s.nowMs e.timeout))
    (hd : ∀ m ∈ d, m ∈ s.timers.nodes ∧ m.val ≠ n.val) (hx : s₁.Expired d s') :
    s.Expired (n :: d) s' := by
  refine ⟨.cons (worksOff_permanent he ht hr) hd hx.toLeaves, hx.ok,
    hx.nowMs.trans hr.nowMs, hx.maxTimerId.trans hr.maxTimerId, ?_, ?_, ?_, ?_⟩
  · intro m hm em hem honce
    obtain rfl | hm := List.mem_cons.mp hm
    · obtain rfl := Option.some.inj (he.symm.trans hem)
      rw [ht] at honce
      cases honce
    · exact hx.once m hm em (by rw [hr.entries]; exact hem) honce
  · intro id p ep hp hep hkeep
    refine hx.pending id p ep (by rw [hr.timerIds]; exact hp) (by rw [hr.entries]; exact hep) ?_
    exact hkeep.imp_right fun hother m hm => hother m (List.mem_cons_of_mem _ hm)
  · intro id p hp
    rw [← hr.timerIds]
    exact hx.sub id p hp
  · intro p ep hep
    rw [← hr.entries]
    exact hx.entries_sub p ep hep

end Cons

/-- The other elements are still there, and point to other entries. -/
theorem behind (h : TimersOk s) {a b d : List (Node ℕ EntryPtr)} {n : Node ℕ EntryPtr}
    {e : TimerEntry} {s₁ : Poller} {effects : List TimerEffect}
    (hsplit : s.timers.nodes = a ++ n :: b)
    (hcases : e.t = .kTimerOnce ∧ s.Without s₁ e.id n.val ∧ effects = [.delete e.event] ∨
      e.t = .kTimerPermanent ∧ s.Rearms s₁ n (wordAdd s.nowMs e.timeout) ∧ effects = [])
    (hne : ∀ m ∈ d, n.id ≠ m.id) (hmem : ∀ m ∈ d, m ∈ s.timers.nodes) :
    (∀ m ∈ d, m ∈ s.timers.nodes ∧ m.val ≠ n.val) ∧ ∀ m ∈ d, m ∈ s₁.timers.nodes := by
  have hd : ∀ m ∈ d, m ∈ s.timers.nodes ∧ m.val ≠ n.val := by
    intro m hm
    refine ⟨hmem m hm, ?_⟩
    intro hval
    obtain rfl := h.node_unique hsplit (hmem m hm) hval
    exact hne m hm rfl
  refine ⟨hd, ?_⟩
  intro m hm
  obtain ⟨hms, hval⟩ := hd m hm
  rcases hcases with ⟨-, hw, -⟩ | ⟨-, hr, -⟩
  · exact (hw.mem_iff h).mpr ⟨hms, hval⟩
  · exact hr.mem_iff.mpr (.inr ⟨hms, fun heq => hval (heq ▸ rfl)⟩)

/-- **The second loop**, over elements that are there. -/
theorem expireTimers_spec (d : List (Node ℕ EntryPtr)) :
    ∀ {s : Poller}, TimersOk s → d.Pairwise (fun a b => a.id ≠ b.id) →
      (∀ n ∈ d, n ∈ s.timers.nodes) →
      ∃ s' effects, s.expireTimers (d.map Node.id) = .ok (s', effects) ∧ s.Expired d s' ∧
        effects.filterMap TimerEffect.fired = [] := by
  induction d with
  | nil => exact fun {s} h _ _ => ⟨s, [], rfl, h.expired_nil, rfl⟩
  | cons n d ih =>
    intro s h hdistinct hmem
    obtain ⟨hn, hdistinct⟩ := List.pairwise_cons.mp hdistinct
    obtain ⟨a, b, hsplit⟩ := List.append_of_mem (hmem n List.mem_cons_self)
    obtain ⟨e, s₁, effects, he, hid, hrun, h₁, hcases⟩ := h.expireTimer hsplit
    obtain ⟨hd, hd₁⟩ := h.behind hsplit hcases hn fun m hm => hmem m (List.mem_cons_of_mem _ hm)
    obtain ⟨s', more, hmore, hx, hfired⟩ := ih h₁ hdistinct hd₁
    have hnone : effects.filterMap TimerEffect.fired = [] := by
      rcases hcases with ⟨-, -, rfl⟩ | ⟨-, -, rfl⟩
      · rfl
      · rfl
    refine ⟨s', effects ++ more, ?_, ?_, ?_⟩
    · rw [List.map_cons, Poller.expireTimers, hrun]
      simp only [ok_bind, hmore]
      rfl
    · rcases hcases with ⟨ht, hw, -⟩ | ⟨ht, hr, -⟩
      · exact h.expired_once (hmem n List.mem_cons_self) he hid ht hw hd hx
      · exact expired_permanent he ht hr hd hx
    · rw [List.filterMap_append, hnone, hfired]
      rfl

end TimersOk

/-! ## The first loop -/

/-- The elements that are due. -/
def Poller.due (s : Poller) : List (Node ℕ EntryPtr) :=
  s.timers.nodes.takeWhile fun n => n.key ≤ s.nowMs

/-- The elements behind those that are due. -/
def Poller.notDue (s : Poller) : List (Node ℕ EntryPtr) :=
  s.timers.nodes.dropWhile fun n => n.key ≤ s.nowMs

/-- The `Timeout`s of the Events of some elements. -/
def Poller.timeouts (s : Poller) (l : List (Node ℕ EntryPtr)) : List TimerEffect :=
  l.flatMap fun n => ((s.entries n.val).map fun e => TimerEffect.timeout e.event).toList

/-- `res`, when the elements behind those that are due are `l`. -/
def Poller.timeToNext (s : Poller) (l : List (Node ℕ EntryPtr)) : ℤ :=
  match l with
  | [] => kDefaultTimeout
  | n :: _ => intOfUint64 (wordSub n.key s.nowMs)

namespace TimersOk

variable {s s' : Poller}

/-- **The first loop**, when no callback calls the poller: it runs the `Timeout` of the elements
that are due, in their order, and changes nothing. -/
theorem fireTimers_eq (h : TimersOk s) (b : List (Node ℕ EntryPtr)) :
    ∀ a calls fuel, s.timers.nodes = a ++ b → (∀ c ∈ calls, c = []) → b.length < fuel →
      Poller.fireTimers fuel s (first b) calls =
        .ok ⟨s.timeToNext (b.dropWhile fun n => n.key ≤ s.nowMs),
          (b.takeWhile fun n => n.key ≤ s.nowMs).map Node.id, s,
          s.timeouts (b.takeWhile fun n => n.key ≤ s.nowMs)⟩ := by
  induction b with
  | nil =>
    intro a calls fuel _ _ hfuel
    obtain ⟨fuel, rfl⟩ := Nat.exists_eq_add_of_lt hfuel
    rfl
  | cons n b ih =>
    intro a calls fuel hsplit hcalls hfuel
    obtain ⟨fuel, rfl⟩ : ∃ k, fuel = k + 1 := ⟨fuel - 1, by omega⟩
    change Poller.fireTimers (fuel + 1) s (some n.id) calls = _
    obtain ⟨e, he, -⟩ := h.entry_of_mem (n := n) (by rw [hsplit]; simp)
    have hrun : s.run (calls.headD []) = .ok (s, []) :=
      headD_of_forall (P := fun l => s.run l = .ok (s, [])) rfl fun c hc => by
        rw [hcalls c hc]
        rfl
    have hrest := ih (a ++ [n]) calls.tail fuel (by rw [hsplit]; simp)
      (fun c hc => hcalls c (List.mem_of_mem_tail hc)) (by simpa using hfuel)
    rw [Poller.fireTimers]
    simp only [Poller.node, Multimap.get_eq hsplit, Poller.entry, he, ok_bind]
    by_cases hkey : s.nowMs < n.key
    · rw [if_pos hkey, List.dropWhile_cons_of_neg (by simpa using hkey),
        List.takeWhile_cons_of_neg (by simpa using hkey)]
      rfl
    · rw [if_neg hkey, List.dropWhile_cons_of_pos (by simpa using hkey),
        List.takeWhile_cons_of_pos (by simpa using hkey)]
      simp only [hrun, Poller.next, next_eq hsplit, hrest, ok_bind]
      simp [Poller.timeouts, he]
      rfl

/-! ## Both -/

/-- **`executeTimers`**, when no callback calls the poller. -/
theorem executeTimers_eq (h : TimersOk s) {calls : List (List TimerCall)}
    (hcalls : ∀ c ∈ calls, c = []) :
    s.executeTimers calls = (do
      let (s', effects) ← s.expireTimers (s.due.map Node.id)
      return (s.timeToNext s.notDue, s', s.timeouts s.due ++ effects)) := by
  by_cases hnil : s.timers.nodes = []
  · rw [Poller.executeTimers, if_pos hnil, Poller.due, Poller.notDue, hnil]
    rfl
  · rw [Poller.executeTimers, if_neg hnil, begin_,
      h.fireTimers_eq s.timers.nodes [] calls _ rfl hcalls (by omega)]
    rfl

theorem executeTimers (h : TimersOk s) {calls : List (List TimerCall)}
    (hcalls : ∀ c ∈ calls, c = []) :
    ∃ s' effects, s.executeTimers calls =
        .ok (s.timeToNext s.notDue, s', s.timeouts s.due ++ effects) ∧
      s.Expired s.due s' ∧ effects.filterMap TimerEffect.fired = [] := by
  obtain ⟨s', effects, hrun, hx, hnone⟩ := expireTimers_spec s.due h
    (s.timers.distinct.sublist (List.takeWhile_sublist _)) fun n hn => List.takeWhile_subset _ hn
  rw [h.executeTimers_eq hcalls, hrun]
  exact ⟨s', effects, rfl, hx, hnone⟩

end TimersOk

end ServerKit
