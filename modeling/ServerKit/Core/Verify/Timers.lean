import ServerKit.Core.Poller
import Mathlib.Tactic.Common

/-!
# The invariant of the timers

Every id stands for an entry that carries it, and the elements of `timers_` point to the entries of
the ids, each once (`TimersOk`). Nothing ties the key of an element to the field `expire` of its
entry: a permanent timer that has fired is inserted again with another key.
-/

namespace ServerKit

open Lib Multimap

/-! ## What the operations do -/

section Inversion

variable {s s' : Poller} {i : ℕ} {effects : List TimerEffect}

theorem Poller.eraseTimer_ok (h : s.eraseTimer i = .ok s') :
    ∃ m, s.timers.erase i = some m ∧ s' = { s with timers := m } := by
  unfold Poller.eraseTimer at h
  cases herase : s.timers.erase i with
  | none =>
    rw [herase] at h
    cases h
  | some m =>
    rw [herase] at h
    exact ⟨m, rfl, (Except.ok.inj h).symm⟩

theorem Poller.entry_ok {p : EntryPtr} {e : TimerEntry} : s.entry p = .ok e ↔
    s.entries p = some e := by
  unfold Poller.entry
  cases s.entries p <;> simp

theorem Poller.node_ok {n : Node ℕ EntryPtr} : s.node i = .ok n ↔ s.timers.get i = some n := by
  unfold Poller.node
  cases s.timers.get i <;> simp

theorem Poller.next_ok {pos : Option ℕ} : s.next i = .ok pos ↔ s.timers.next i = some pos := by
  unfold Poller.next
  cases s.timers.next i <;> simp

/-- All that `CancelTimer` can do. -/
theorem Poller.cancelTimer_ok {id : ℕ} (h : s.cancelTimer id = .ok (s', effects)) :
    s' = s ∧ effects = [] ∧ s.timerIds id = none ∨
      ∃ p e i m, s.timerIds id = some p ∧ s.entries p = some e ∧ s.timers.erase i = some m ∧
        s' = (({ s with timers := m } : Poller).eraseId id).deleteEntry p ∧
        effects = [.delete e.event] := by
  unfold Poller.cancelTimer at h
  cases hp : s.timerIds id with
  | none =>
    rw [hp] at h
    obtain ⟨rfl, rfl⟩ := Prod.mk.inj (Except.ok.inj h)
    exact .inl ⟨rfl, rfl, rfl⟩
  | some p =>
    rw [hp] at h
    obtain ⟨e, he, h⟩ := bind_eq_ok.mp h
    obtain ⟨pos, -, h⟩ := bind_eq_ok.mp h
    cases pos with
    | none => cases h
    | some i =>
      obtain ⟨s₁, herase, h⟩ := bind_eq_ok.mp h
      obtain ⟨m, hm, rfl⟩ := Poller.eraseTimer_ok herase
      obtain ⟨rfl, rfl⟩ := Prod.mk.inj (Except.ok.inj h)
      exact .inr ⟨p, e, i, m, rfl, Poller.entry_ok.mp he, hm, rfl, rfl⟩

/-- All that an iteration of the second loop of `executeTimers` can do. -/
theorem Poller.expireTimer_ok (h : s.expireTimer i = .ok (s', effects)) :
    ∃ n e m, s.timers.get i = some n ∧ s.entries n.val = some e ∧ s.timers.erase i = some m ∧
      (s' = (({ s with timers := m } : Poller).eraseId e.id).deleteEntry n.val ∧
          e.t = .kTimerOnce ∧ effects = [.delete e.event] ∨
        s' = ({ s with timers := m } : Poller).insertTimer (wordAdd s.nowMs e.timeout) n.val ∧
          e.t = .kTimerPermanent ∧ effects = []) := by
  unfold Poller.expireTimer at h
  obtain ⟨n, hn, h⟩ := bind_eq_ok.mp h
  obtain ⟨s₁, herase, h⟩ := bind_eq_ok.mp h
  obtain ⟨m, hm, rfl⟩ := Poller.eraseTimer_ok herase
  obtain ⟨e, he, h⟩ := bind_eq_ok.mp h
  refine ⟨n, e, m, Poller.node_ok.mp hn, Poller.entry_ok.mp he, hm, ?_⟩
  cases ht : e.t with
  | kTimerOnce =>
    rw [ht] at h
    obtain ⟨rfl, rfl⟩ := Prod.mk.inj (Except.ok.inj h)
    exact .inl ⟨rfl, rfl, rfl⟩
  | kTimerPermanent =>
    rw [ht] at h
    obtain ⟨rfl, rfl⟩ := Prod.mk.inj (Except.ok.inj h)
    exact .inr ⟨rfl, rfl, rfl⟩

end Inversion

/-! ## The invariant -/

/-- What holds of the timers between two calls. -/
structure TimersOk (s : Poller) : Prop where
  entry : ∀ id p, s.timerIds id = some p → ∃ e, s.entries p = some e ∧ e.id = id
  node : ∀ id p, s.timerIds id = some p → ∃ n ∈ s.timers.nodes, n.val = p
  id : ∀ n ∈ s.timers.nodes, ∃ id, s.timerIds id = some n.val
  once : s.timers.nodes.Pairwise fun a b => a.val ≠ b.val
  fresh : ∀ p, s.nextEntry ≤ p → s.entries p = none

/-- `s'` is `s` without the timer `id`, whose entry is `p`: its element, id and entry are gone, and
all other elements, ids and entries are as they were. -/
structure Poller.Without (s s' : Poller) (id : ℕ) (p : EntryPtr) : Prop where
  timers : ∃ a n b, s.timers.nodes = a ++ n :: b ∧ n.val = p ∧ s'.timers.nodes = a ++ b
  timerIds : s'.timerIds = Function.update s.timerIds id none
  entries : s'.entries = Function.update s.entries p none
  maxTimerId : s'.maxTimerId = s.maxTimerId
  nowMs : s'.nowMs = s.nowMs
  nextEntry : s'.nextEntry = s.nextEntry

namespace TimersOk

variable {s s' : Poller} {id : ℕ} {p : EntryPtr}

theorem new (nowMs : ℕ) : TimersOk (.new nowMs) where
  entry := nofun
  node := nofun
  id := nofun
  once := .nil
  fresh _ _ := rfl

/-- Two ids do not share an entry. -/
theorem id_unique (h : TimersOk s) {id' : ℕ} (hp : s.timerIds id = some p)
    (hp' : s.timerIds id' = some p) : id' = id := by
  obtain ⟨e, he, hid⟩ := h.entry id p hp
  obtain ⟨e', he', hid'⟩ := h.entry id' p hp'
  obtain rfl := Option.some.inj (he.symm.trans he')
  exact hid'.symm.trans hid

/-- The entry of an element, and its id. -/
theorem entry_of_mem (h : TimersOk s) {n : Node ℕ EntryPtr} (hn : n ∈ s.timers.nodes) :
    ∃ e, s.entries n.val = some e ∧ s.timerIds e.id = some n.val := by
  obtain ⟨id, hid⟩ := h.id n hn
  obtain ⟨e, he, rfl⟩ := h.entry id n.val hid
  exact ⟨e, he, hid⟩

/-- The other elements of the multimap point to other entries. -/
theorem val_ne (h : TimersOk s) {a b : List (Node ℕ EntryPtr)} {n c : Node ℕ EntryPtr}
    (hsplit : s.timers.nodes = a ++ n :: b) (hc : c ∈ a ++ b) : c.val ≠ n.val := by
  have honce := h.once
  rw [hsplit] at honce
  have hcons := (List.Perm.pairwise_iff (fun h => h.symm) List.perm_middle).mp honce
  exact ((List.pairwise_cons.mp hcons).1 c hc).symm

/-- A timer has one element. -/
theorem node_unique (h : TimersOk s) {a b : List (Node ℕ EntryPtr)} {n c : Node ℕ EntryPtr}
    (hsplit : s.timers.nodes = a ++ n :: b) (hc : c ∈ s.timers.nodes) (hval : c.val = n.val) :
    c = n := by
  rw [hsplit, List.mem_append, List.mem_cons] at hc
  obtain hc | rfl | hc := hc
  · exact absurd hval (h.val_ne hsplit (List.mem_append_left _ hc))
  · rfl
  · exact absurd hval (h.val_ne hsplit (List.mem_append_right _ hc))

/-! ## Removal -/

theorem without (h : TimersOk s) (hp : s.timerIds id = some p) (hw : s.Without s' id p) :
    TimersOk s' := by
  obtain ⟨⟨a, n, b, hsplit, rfl, hnodes⟩, htimerIds, hentries, -, -, hnext⟩ := hw
  have hrest : ∀ c ∈ a ++ b, c ∈ s.timers.nodes := fun c hc => by
    rw [hsplit]
    exact (List.perm_middle.mem_iff).mpr (List.mem_cons_of_mem _ hc)
  have hkeep : ∀ id' q, s'.timerIds id' = some q → s.timerIds id' = some q ∧ q ≠ n.val := by
    intro id' q hq
    rw [htimerIds] at hq
    by_cases hid : id' = id
    · subst hid; rw [Function.update_self] at hq; cases hq
    · rw [Function.update_of_ne hid] at hq
      refine ⟨hq, ?_⟩
      rintro rfl
      exact hid (h.id_unique hp hq)
  refine ⟨fun id' q hq => ?_, fun id' q hq => ?_, fun c hc => ?_, ?_, fun q hq => ?_⟩
  · obtain ⟨hq, hne⟩ := hkeep id' q hq
    rw [hentries, Function.update_of_ne hne]
    exact h.entry id' q hq
  · obtain ⟨hq, hne⟩ := hkeep id' q hq
    obtain ⟨c, hc, rfl⟩ := h.node id' q hq
    refine ⟨c, ?_, rfl⟩
    rw [hnodes]
    rw [hsplit] at hc
    obtain rfl | hc := List.mem_cons.mp (List.perm_middle.mem_iff.mp hc)
    · exact absurd rfl hne
    · exact hc
  · rw [hnodes] at hc
    obtain ⟨e, -, hid⟩ := h.entry_of_mem (hrest c hc)
    refine ⟨e.id, ?_⟩
    have hne : e.id ≠ id := by
      rintro rfl
      exact h.val_ne hsplit hc (Option.some.inj (hid.symm.trans hp))
    rw [htimerIds, Function.update_of_ne hne]
    exact hid
  · rw [hnodes]
    have honce := h.once
    rw [hsplit] at honce
    exact honce.sublist ((List.sublist_cons_self n b).append_left a)
  · rw [hentries]
    by_cases hqn : q = n.val
    · rw [hqn, Function.update_self]
    · rw [Function.update_of_ne hqn]
      exact h.fresh q (hnext ▸ hq)

/-! ## `CancelTimer` -/

/-- An entry carries the id `id` when it is the entry of the timer `id`. -/
theorem entry_id_iff (h : TimersOk s) (hp : s.timerIds id = some p) {n : Node ℕ EntryPtr}
    (hn : n ∈ s.timers.nodes) {e : TimerEntry} (he : s.entries n.val = some e) :
    e.id = id ↔ n.val = p := by
  obtain ⟨e', he', hid⟩ := h.entry_of_mem hn
  obtain rfl := Option.some.inj (he'.symm.trans he)
  refine ⟨?_, ?_⟩
  · rintro rfl
    exact Option.some.inj (hid.symm.trans hp)
  · rintro rfl
    exact h.id_unique hp hid

/-- The loop goes past the elements of other timers. -/
theorem findTimer_skip (h : TimersOk s) (hp : s.timerIds id = some p)
    {x u : List (Node ℕ EntryPtr)} (fuel : ℕ) (c : List (Node ℕ EntryPtr)) :
    ∀ a, s.timers.nodes = a ++ (c ++ (x ++ u)) → (∀ n ∈ c, n.val ≠ p) →
      s.findTimer id (first u) (fuel + c.length) (first (c ++ (x ++ u))) =
        s.findTimer id (first u) fuel (first (x ++ u)) := by
  induction c with
  | nil => exact fun _ _ _ => rfl
  | cons n c ih =>
    intro a hsplit hne
    have hnode : s.timers.nodes = a ++ n :: ((c ++ x) ++ u) := by rw [hsplit]; simp
    have hmem : n ∈ s.timers.nodes := by rw [hnode]; simp
    obtain ⟨e, he, -⟩ := h.entry_of_mem hmem
    have hid : e.id ≠ id := fun hid =>
      hne n List.mem_cons_self ((h.entry_id_iff hp hmem he).mp hid)
    have hnext : s.timers.next n.id = some (first (c ++ (x ++ u))) := by
      rw [next_eq hnode, List.append_assoc]
    change s.findTimer id (first u) (fuel + c.length + 1) (some n.id) = _
    rw [Poller.findTimer, if_neg (first_ne hnode).symm]
    simp only [Poller.node, Multimap.get_eq hnode, Poller.entry, he, Poller.next, hnext, ok_bind,
      if_neg hid]
    exact ih (a ++ [n]) (by rw [hsplit]; simp) fun m hm => hne m (List.mem_cons_of_mem _ hm)

/-- **The loop of `CancelTimer`** stops at the element of the timer if that has the key `expire`,
and at the upper bound otherwise. -/
theorem findTimer_eq (h : TimersOk s) (hp : s.timerIds id = some p) {n : Node ℕ EntryPtr}
    (hn : n ∈ s.timers.nodes) (hval : n.val = p) (expire : ℕ) :
    s.findTimer id (s.timers.upperBound expire) (s.timers.nodes.length + 1)
        (s.timers.lowerBound expire) =
      .ok (if n.key = expire then some n.id else s.timers.upperBound expire) := by
  obtain ⟨l, c, u, hsplit, hl, hc, hu, hlower, hupper⟩ := s.timers.equal_range expire
  have hlen : s.timers.nodes.length = l.length + (c.length + u.length) := by
    rw [hsplit, List.length_append, List.length_append]
  rw [hlower, hupper]
  by_cases hkey : n.key = expire
  · have hnc : n ∈ c := by
      rw [hsplit, List.mem_append, List.mem_append] at hn
      obtain hn | hn | hn := hn
      · exact absurd hkey (hl n hn).ne
      · exact hn
      · exact absurd hkey (hu n hn).ne'
    obtain ⟨c₁, c₂, rfl⟩ := List.append_of_mem hnc
    have hnode : s.timers.nodes = (l ++ c₁) ++ n :: (c₂ ++ u) := by rw [hsplit]; simp
    obtain ⟨e, he, -⟩ := h.entry_of_mem hn
    have hid := (h.entry_id_iff hp hn he).mpr hval
    have hother : ∀ m ∈ c₁, m.val ≠ p := fun m hm => by
      rw [← hval]
      exact h.val_ne hnode (by simp [hm])
    obtain ⟨fuel, hfuel⟩ : ∃ fuel, s.timers.nodes.length + 1 = fuel + 1 + c₁.length := by
      rw [hlen, List.length_append]
      exact ⟨l.length + (n :: c₂).length + u.length, by omega⟩
    rw [if_pos hkey, hfuel, List.append_assoc]
    rw [h.findTimer_skip hp (x := n :: c₂) (fuel + 1) c₁ l (by rw [hsplit]; simp) hother]
    change s.findTimer id (first u) (fuel + 1) (some n.id) = _
    rw [Poller.findTimer, if_neg (first_ne hnode).symm]
    simp [Poller.node, Multimap.get_eq hnode, Poller.entry, he, hid]
  · have hother : ∀ m ∈ c, m.val ≠ p := fun m hm hmp => by
      obtain ⟨a, b, hnode⟩ := List.append_of_mem hn
      have hms : m ∈ s.timers.nodes := by rw [hsplit]; simp [hm]
      obtain rfl := h.node_unique hnode hms (hmp.trans hval.symm)
      exact hkey (hc m hm)
    obtain ⟨fuel, hfuel⟩ : ∃ fuel, s.timers.nodes.length + 1 = fuel + 1 + c.length := by
      rw [hlen]
      exact ⟨l.length + u.length, by omega⟩
    rw [if_neg hkey, hfuel]
    have := h.findTimer_skip hp (x := []) (u := u) (fuel + 1) c l (by rw [hsplit]; simp) hother
    rw [List.nil_append] at this
    rw [this, Poller.findTimer.eq_def]
    exact if_pos rfl

/-- `CancelTimer` of a pending timer erases the element it stops at. -/
theorem cancelTimer_eq (h : TimersOk s) (hp : s.timerIds id = some p) {e : TimerEntry}
    (he : s.entries p = some e) {n : Node ℕ EntryPtr} (hn : n ∈ s.timers.nodes)
    (hval : n.val = p) :
    s.cancelTimer id =
      match if n.key = e.expire then some n.id else s.timers.upperBound e.expire with
      | none => .error .atEnd
      | some i => do
        let s ← s.eraseTimer i
        return ((s.eraseId id).deleteEntry p, [.delete e.event]) := by
  have hfind := h.findTimer_eq hp hn hval e.expire
  cases hpos : if n.key = e.expire then some n.id else s.timers.upperBound e.expire with
  | none => simp [Poller.cancelTimer, hp, Poller.entry, he, hfind, hpos]
  | some i => simp [Poller.cancelTimer, hp, Poller.entry, he, hfind, hpos]

/-- Erasing an element together with the id and the entry of a timer. -/
theorem erase_eq {a b : List (Node ℕ EntryPtr)} {n : Node ℕ EntryPtr}
    (hsplit : s.timers.nodes = a ++ n :: b) :
    ∃ s', s.eraseTimer n.id = .ok s' ∧ s'.timers.nodes = a ++ b ∧
      s'.timers.fresh = s.timers.fresh ∧ s' = { s with timers := s'.timers } := by
  obtain ⟨m, hm, hnodes, hfresh⟩ := Multimap.erase_eq hsplit
  refine ⟨{ s with timers := m }, ?_, hnodes, hfresh, rfl⟩
  rw [Poller.eraseTimer, hm]

end TimersOk

/-! ## When `CancelTimer` is right -/

/-- The element of the timer `id` is where `CancelTimer` will look for it: its key is the field
`expire` of its entry, or it is the first element with a greater key than that. -/
def Poller.Locates (s : Poller) (id : ℕ) : Prop :=
  ∀ p e, s.timerIds id = some p → s.entries p = some e →
    ∃ a n b, s.timers.nodes = a ++ n :: b ∧ n.val = p ∧
      (n.key = e.expire ∨ e.expire < n.key ∧ ∀ c ∈ a, c.key ≤ e.expire)

/-- `CancelTimer(id)` removes the timer `id`, and nothing else, if it is pending, and otherwise
changes nothing. -/
def Poller.Cancels (s : Poller) (id : ℕ) : Prop :=
  ∃ s' effects, s.cancelTimer id = .ok (s', effects) ∧
    match s.timerIds id with
    | some p => s.Without s' id p
    | none => s' = s

namespace TimersOk

variable {s s' : Poller} {id : ℕ} {p : EntryPtr}

theorem cancels_of_locates (h : TimersOk s) (hl : s.Locates id) : s.Cancels id := by
  cases hp : s.timerIds id with
  | none => exact ⟨s, [], by rw [Poller.cancelTimer, hp], by rw [hp]⟩
  | some p =>
    obtain ⟨e, he, -⟩ := h.entry id p hp
    obtain ⟨a, n, b, hsplit, hval, hkey⟩ := hl p e hp he
    have hn : n ∈ s.timers.nodes := by rw [hsplit]; simp
    have hstop : (if n.key = e.expire then some n.id else s.timers.upperBound e.expire) =
        some n.id := by
      split
      · rfl
      · rename_i hne
        obtain ⟨hlt, ha⟩ := hkey.resolve_left hne
        rw [upperBound, hsplit, List.dropWhile_append_of_pos fun c hc => by simpa using ha c hc,
          List.dropWhile_cons_of_neg (by simpa using hlt)]
        rfl
    obtain ⟨s₁, herase, hnodes, -, hs₁⟩ := erase_eq hsplit
    refine ⟨(s₁.eraseId id).deleteEntry p, [.delete e.event], ?_, ?_⟩
    · rw [h.cancelTimer_eq hp he hn hval, hstop]
      simp only [herase, ok_bind]
      rfl
    · rw [hp, hs₁]
      exact ⟨⟨a, n, b, hsplit, hval, hnodes⟩, rfl, rfl, rfl, rfl, rfl⟩

theorem locates_of_cancels (h : TimersOk s) (hc : s.Cancels id) : s.Locates id := by
  intro p e hp he
  obtain ⟨s', effects, hrun, hw⟩ := hc
  rw [hp] at hw
  obtain ⟨⟨a, n, b, hsplit, hval, hnodes⟩, -⟩ := hw
  have hn : n ∈ s.timers.nodes := by rw [hsplit]; simp
  refine ⟨a, n, b, hsplit, hval, ?_⟩
  by_cases hkey : n.key = e.expire
  · exact .inl hkey
  · rw [h.cancelTimer_eq hp he hn hval, if_neg hkey] at hrun
    obtain ⟨l, c, u, hrange, hl, hc, hu, -, hupper⟩ := s.timers.equal_range e.expire
    rw [hupper] at hrun
    cases u with
    | nil => cases hrun
    | cons m u =>
      -- the element erased is the first of those behind the upper bound
      have hsplit' : s.timers.nodes = (l ++ c) ++ m :: u := by rw [hrange]; simp
      obtain ⟨s₁, herase, hnodes₁, -, hs₁⟩ := erase_eq hsplit'
      have hrun : (do let s ← s.eraseTimer m.id
                      return ((s.eraseId id).deleteEntry p, [TimerEffect.delete e.event])) =
          Except.ok (s', effects) := hrun
      rw [herase] at hrun
      obtain ⟨rfl, -⟩ := Prod.mk.inj (Except.ok.inj hrun)
      have hrest : (l ++ c) ++ u = a ++ b := hnodes₁.symm.trans hnodes
      obtain rfl : n = m := by
        by_contra hne
        have hmem : n ∈ (l ++ c) ++ u := by
          rw [hsplit'] at hn
          exact (List.mem_cons.mp (List.perm_middle.mem_iff.mp hn)).resolve_left hne
        rw [hrest] at hmem
        exact h.val_ne hsplit hmem rfl
      have hlc : l ++ c = a := (split_unique hsplit' hsplit).1
      refine .inr ⟨hu n List.mem_cons_self, ?_⟩
      rw [← hlc]
      intro d hd
      obtain hd | hd := List.mem_append.mp hd
      · exact (hl d hd).le
      · exact (hc d hd).le

end TimersOk

end ServerKit
