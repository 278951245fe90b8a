import ServerKit.Core.Verify.CancelTimer
import ServerKit.Core.Verify.Passes

/-!
# The Events of timers

The destructor of a `TimerEntry` deletes its Event, so a timer that is removed takes the Event with
it, whoever else refers to that. Timers may share an Event, and a callback may register its own
again, as long as none of the timers that have it is removed while another is pending. `EventRuns`
has passes and runs.
-/

namespace ServerKit

open Lib Multimap

/-- The Event an effect is on. -/
def TimerEffect.event : TimerEffect → EventPtr
  | .setTimerId event _ | .timeout event | .delete event => event

/-- What a call does to Events. -/
def TimerEvent.effects : TimerEvent → List TimerEffect
  | .addTimer _ _ _ _ _ effects | .cancelTimer _ effects | .executeTimers _ _ _ effects => effects

/-- One call, with what has been done to Events before and after it. -/
def PastStep : Lts (List TimerEffect × Poller) TimerEvent := fun x e y =>
  PollerStep x.2 e y.2 ∧ y.1 = x.1 ++ e.effects

/-- Once an Event has been deleted, nothing is done to it: it is not deleted again, and its
`Timeout` is not run. -/
def LeavesDeleted (past : List TimerEffect) : Prop :=
  past.Pairwise fun a b => ∀ event, a = .delete event → b.event ≠ event

/-- Events are used as they should be: none is used once it has been deleted, and no timer that is
pending has a deleted one. -/
structure Poller.EventsSafe (past : List TimerEffect) (s : Poller) : Prop where
  deleted : LeavesDeleted past
  timers : ∀ n ∈ s.timers.nodes, ∃ e, s.entries n.val = some e ∧ .delete e.event ∉ past
  ids : ∀ id p, s.timerIds id = some p → ∃ e, s.entries p = some e ∧ .delete e.event ∉ past

/-! ## Conditions on a pass -/

section Along

variable (C : List EntryPtr → List TimerEffect → Poller → TimerCall → Prop)
  (E : Poller → EntryPtr → Prop)

/-- `C` holds of every call of a callback when it is made. `busy` are the timers that have fired in
the pass. -/
def Poller.AlongRun (busy : List EntryPtr) : List TimerEffect → Poller → List TimerCall → Prop
  | _, _, [] => True
  | past, s, c :: calls => C busy past s c ∧ ∀ s' effects, s.call c = .ok (s', effects) →
      AlongRun busy (past ++ effects) s' calls

/-- The element at `iter`, when there is one and it is due. -/
def Poller.dueAt (s : Poller) (iter : Option ℕ) : Option (Node ℕ EntryPtr) :=
  (iter.bind s.timers.get).filter fun n => n.key ≤ s.nowMs

/-- In the first loop of `executeTimers`, from the iterator `iter` on, `C` holds of every call of
the callbacks when it is made, and `E` of the timers that have fired when the loop is over. -/
def Poller.AlongPass : ℕ → List EntryPtr → List TimerEffect → Poller → Option ℕ →
    List (List TimerCall) → Prop
  | 0, _, _, _, _, _ => True
  | fuel + 1, busy, past, s, iter, calls =>
    (s.dueAt iter = none → ∀ p ∈ busy, E s p) ∧
      ∀ n e, s.dueAt iter = some n → s.entries n.val = some e →
        s.AlongRun C (n.val :: busy) (past ++ [.timeout e.event]) (calls.headD []) ∧
          ∀ s' effects pos, s.run (calls.headD []) = .ok (s', effects) →
            s'.timers.next n.id = some pos →
            AlongPass fuel (n.val :: busy) (past ++ .timeout e.event :: effects) s' pos calls.tail

/-- From the start. -/
def Poller.AlongTimers (past : List TimerEffect) (s : Poller) (calls : List (List TimerCall)) :
    Prop :=
  Poller.AlongPass C E (s.timers.nodes.length + calls.flatten.length + 1) [] past s s.timers.begin_
    calls

end Along

/-! ## The condition -/

/-- No pending timer but `p` has the Event of `p`. -/
def Poller.SoleOwner (s : Poller) (p : EntryPtr) : Prop :=
  ∀ e, s.entries p = some e → ∀ n ∈ s.timers.nodes, n.val ≠ p →
    ∀ f, s.entries n.val = some f → f.event ≠ e.event

instance (s : Poller) (p : EntryPtr) : Decidable (s.SoleOwner p) :=
  inferInstanceAs (Decidable (∀ e ∈ s.entries p, ∀ n ∈ s.timers.nodes, n.val ≠ p →
    ∀ f ∈ s.entries n.val, f.event ≠ e.event))

/-- If `p` is a one-shot timer, no other has its Event. -/
def Poller.Removable (s : Poller) (p : EntryPtr) : Prop :=
  ∀ e, s.entries p = some e → e.t = .kTimerOnce → s.SoleOwner p

instance (s : Poller) (p : EntryPtr) : Decidable (s.Removable p) :=
  inferInstanceAs (Decidable (∀ e ∈ s.entries p, e.t = .kTimerOnce → s.SoleOwner p))

/-- A new timer gets an id that no pending timer has. A timer to be cancelled is where `CancelTimer`
looks for it, and is not one of those that have fired in the pass. -/
def Poller.SoundCall (busy : List EntryPtr) (s : Poller) : TimerCall → Prop
  | .addTimer .. => s.timerIds (wordAdd s.maxTimerId 1) = none
  | .cancelTimer id => s.Locates id ∧ ∀ p, s.timerIds id = some p → p ∉ busy

/-- A new timer gets an Event that has not been deleted, and the Event of a timer to be cancelled is
that of no other. -/
def Poller.OwnsCall (past : List TimerEffect) (s : Poller) : TimerCall → Prop
  | .addTimer _ _ event _ => .delete event ∉ past
  | .cancelTimer id => ∀ p, s.timerIds id = some p → s.SoleOwner p

/-- The first condition, along a pass. -/
def Poller.SoundPass (s : Poller) (calls : List (List TimerCall)) : Prop :=
  s.AlongTimers (fun busy _ s c => s.SoundCall busy c) (fun _ _ => True) [] calls

/-- The second. The one-shot timers that have fired are removed once all callbacks have run. -/
def Poller.OwnsPass (past : List TimerEffect) (s : Poller) (calls : List (List TimerCall)) : Prop :=
  s.AlongTimers (fun _ past s c => s.OwnsCall past c) Poller.Removable past calls

/-- The timers themselves are used as they should be. -/
def Poller.Sound (s : Poller) : TimerEvent → Prop
  | .addTimer currentMs timeout event t .. => s.SoundCall [] (.addTimer currentMs timeout event t)
  | .cancelTimer id _ => s.SoundCall [] (.cancelTimer id)
  | .executeTimers now calls .. => Poller.SoundPass { s with nowMs := now } calls

/-- No Event of a timer that is removed is that of another, and no timer is given a deleted one. -/
def Poller.Owns (x : List TimerEffect × Poller) : TimerEvent → Prop
  | .addTimer currentMs timeout event t .. =>
      x.2.OwnsCall x.1 (.addTimer currentMs timeout event t)
  | .cancelTimer id _ => x.2.OwnsCall x.1 (.cancelTimer id)
  | .executeTimers now calls .. => Poller.OwnsPass x.1 { x.2 with nowMs := now } calls

/-! ## What is done to Events -/

theorem leavesDeleted_snoc {past : List TimerEffect} {x : TimerEffect} :
    LeavesDeleted (past ++ [x]) ↔ LeavesDeleted past ∧ .delete x.event ∉ past := by
  unfold LeavesDeleted
  rw [List.pairwise_append]
  constructor
  · rintro ⟨h, -, hx⟩
    exact ⟨h, fun hmem => hx _ hmem x (List.mem_singleton_self x) _ rfl rfl⟩
  · rintro ⟨h, hx⟩
    refine ⟨h, List.pairwise_singleton _ _, ?_⟩
    rintro a ha b hb event rfl heq
    rw [List.mem_singleton.mp hb] at heq
    exact hx (heq ▸ ha)

/-- The Events of the timers that are pending have not been deleted. -/
structure Poller.Clean (past : List TimerEffect) (s : Poller) : Prop where
  deleted : LeavesDeleted past
  alive : ∀ n ∈ s.timers.nodes, ∀ e, s.entries n.val = some e → .delete e.event ∉ past

namespace Poller

variable {past : List TimerEffect} {s s' : Poller} {effects : List TimerEffect}

theorem eventsSafe_iff (h : TimersOk s) : s.EventsSafe past ↔ s.Clean past := by
  constructor
  · intro hsafe
    refine ⟨hsafe.deleted, ?_⟩
    intro n hn e he
    obtain ⟨f, hf, hevent⟩ := hsafe.timers n hn
    obtain rfl := Option.some.inj (hf.symm.trans he)
    exact hevent
  · intro hclean
    refine ⟨hclean.deleted, ?_, ?_⟩
    · intro n hn
      obtain ⟨e, he, -⟩ := h.entry_of_mem hn
      exact ⟨e, he, hclean.alive n hn e he⟩
    · intro id p hp
      obtain ⟨e, he, -⟩ := h.entry id p hp
      obtain ⟨n, hn, rfl⟩ := h.node id p hp
      exact ⟨e, he, hclean.alive n hn e he⟩

theorem clean_timeout {n : Node ℕ EntryPtr} {e : TimerEntry} (hn : n ∈ s.timers.nodes)
    (he : s.entries n.val = some e) : s.Clean (past ++ [.timeout e.event]) ↔ s.Clean past := by
  constructor
  · rintro ⟨hdeleted, halive⟩
    refine ⟨(leavesDeleted_snoc.mp hdeleted).1, ?_⟩
    intro m hm f hf hmem
    exact halive m hm f hf (List.mem_append_left _ hmem)
  · rintro ⟨hdeleted, halive⟩
    refine ⟨leavesDeleted_snoc.mpr ⟨hdeleted, halive n hn e he⟩, ?_⟩
    intro m hm f hf hmem
    rcases List.mem_append.mp hmem with hmem | hmem
    · exact halive m hm f hf hmem
    · cases List.mem_singleton.mp hmem

/-- The timer of the entry `p` is removed, and its Event deleted. -/
theorem clean_remove {p : EntryPtr} {e : TimerEntry} (he : s.entries p = some e)
    (hp : ∃ n ∈ s.timers.nodes, n.val = p)
    (hnodes : ∀ m, m ∈ s'.timers.nodes ↔ m ∈ s.timers.nodes ∧ m.val ≠ p)
    (hentries : s'.entries = Function.update s.entries p none) :
    s'.Clean (past ++ [.delete e.event]) ↔ s.Clean past ∧ s.SoleOwner p := by
  have hothers : ∀ m : Node ℕ EntryPtr, m.val ≠ p → s'.entries m.val = s.entries m.val := by
    intro m hm
    rw [hentries, Function.update_of_ne hm]
  constructor
  · rintro ⟨hdeleted, halive⟩
    obtain ⟨hdeleted, hevent⟩ := leavesDeleted_snoc.mp hdeleted
    have hrest : ∀ m ∈ s.timers.nodes, m.val ≠ p → ∀ f, s.entries m.val = some f →
        .delete f.event ∉ past ++ [.delete e.event] := by
      intro m hm hne f hf
      exact halive m ((hnodes m).mpr ⟨hm, hne⟩) f ((hothers m hne).trans hf)
    refine ⟨⟨hdeleted, ?_⟩, ?_⟩
    · intro m hm f hf hmem
      by_cases hmp : m.val = p
      · rw [hmp] at hf
        obtain rfl := Option.some.inj (he.symm.trans hf)
        exact hevent hmem
      · exact hrest m hm hmp f hf (List.mem_append_left _ hmem)
    · intro e' he' m hm hne f hf hsame
      obtain rfl := Option.some.inj (he.symm.trans he')
      refine hrest m hm hne f hf ?_
      rw [hsame]
      exact List.mem_append_right _ (List.mem_singleton_self _)
  · rintro ⟨⟨hdeleted, halive⟩, howner⟩
    obtain ⟨n, hn, rfl⟩ := hp
    refine ⟨leavesDeleted_snoc.mpr ⟨hdeleted, halive n hn e he⟩, ?_⟩
    intro m hm f hf hmem
    obtain ⟨hm, hne⟩ := (hnodes m).mp hm
    rw [hothers m hne] at hf
    rcases List.mem_append.mp hmem with hmem | hmem
    · exact halive m hm f hf hmem
    · have hsame := congrArg TimerEffect.event (List.mem_singleton.mp hmem)
      exact howner e he m hm hne f hf hsame

theorem clean_addTimer (h : TimersOk s) (currentMs : ℕ) (timeout : ℤ) (event : EventPtr)
    (t : TimerType) :
    (s.addTimer currentMs timeout event t).2.1.Clean
        (past ++ (s.addTimer currentMs timeout event t).2.2) ↔
      s.Clean past ∧ .delete event ∉ past := by
  set s' := (s.addTimer currentMs timeout event t).2.1
  have hold : ∀ m ∈ s.timers.nodes, m ∈ s'.timers.nodes ∧ s'.entries m.val = s.entries m.val := by
    intro m hm
    refine ⟨mem_insertNode.mpr (.inr hm), Function.update_of_ne ?_ _ _⟩
    intro heq
    obtain ⟨e, he, -⟩ := h.entry_of_mem hm
    rw [h.fresh _ heq.ge] at he
    cases he
  change s'.Clean (past ++ [.setTimerId event _]) ↔ _
  constructor
  · rintro ⟨hdeleted, halive⟩
    obtain ⟨hdeleted, hevent⟩ := leavesDeleted_snoc.mp hdeleted
    refine ⟨⟨hdeleted, ?_⟩, hevent⟩
    intro m hm f hf hmem
    obtain ⟨hm, hentry⟩ := hold m hm
    exact halive m hm f (hentry.trans hf) (List.mem_append_left _ hmem)
  · rintro ⟨⟨hdeleted, halive⟩, hevent⟩
    refine ⟨leavesDeleted_snoc.mpr ⟨hdeleted, hevent⟩, ?_⟩
    intro m hm f hf hmem
    have hmem : TimerEffect.delete f.event ∈ past := by
      rcases List.mem_append.mp hmem with hmem | hmem
      · exact hmem
      · cases List.mem_singleton.mp hmem
    rcases mem_insertNode.mp hm with rfl | hm
    · -- the new timer has the Event it has been given
      change Function.update s.entries s.nextEntry (some _) s.nextEntry = some f at hf
      rw [Function.update_self] at hf
      obtain rfl := Option.some.inj hf
      exact hevent hmem
    · rw [(hold m hm).2] at hf
      exact halive m hm f hf hmem

/-! ## Calls -/

/-- The elements `d` are in front of `n`, in their order, and behind `n` are at most `k`. -/
def InFront (d : List (Node ℕ EntryPtr)) (n : Node ℕ EntryPtr) (k : ℕ)
    (l : List (Node ℕ EntryPtr)) : Prop :=
  ∃ a b, l = a ++ n :: b ∧ d.Sublist a ∧ b.length ≤ k

section InFront

variable {d l : List (Node ℕ EntryPtr)} {n x : Node ℕ EntryPtr} {k : ℕ}

theorem InFront.insert (h : InFront d n k l) (hsorted : l.Pairwise fun a b => a.key ≤ b.key) :
    InFront d n (k + 1) (insertNode x l) := by
  obtain ⟨a, b, rfl, hd, hk⟩ := h
  by_cases hkey : n.key ≤ x.key
  · have hfront : ∀ m ∈ a ++ [n], m.key ≤ x.key := by
      intro m hm
      rcases List.mem_append.mp hm with hm | hm
      · exact ((List.pairwise_append.mp hsorted).2.2 m hm n List.mem_cons_self).trans hkey
      · exact List.mem_singleton.mp hm ▸ hkey
    refine ⟨a, insertNode x b, ?_, hd, ?_⟩
    · rw [List.append_cons, insertNode_append hfront, ← List.append_cons]
    · rw [insertNode_perm.length_eq, List.length_cons]
      exact Nat.succ_le_succ hk
  · refine ⟨insertNode x a, b, ?_, hd.trans sublist_insertNode, Nat.le_succ_of_le hk⟩
    exact insertNode_append_of_lt (Nat.lt_of_not_le hkey)

/-- The elements of other entries stay. -/
theorem InFront.filter (h : InFront d n k l) {p : EntryPtr} (hn : n.val ≠ p)
    (hd : ∀ m ∈ d, m.val ≠ p) : InFront d n k (l.filter fun m => m.val ≠ p) := by
  obtain ⟨a, b, rfl, hsub, hk⟩ := h
  refine ⟨a.filter fun m => m.val ≠ p, b.filter fun m => m.val ≠ p, ?_, ?_, ?_⟩
  · rw [List.filter_append, List.filter_cons_of_pos (by simpa using hn)]
  · have hall : ∀ m ∈ d, decide (m.val ≠ p) = true := fun m hm => decide_eq_true (hd m hm)
    rw [← List.filter_eq_self.mpr hall]
    exact hsub.filter _
  · exact (List.length_filter_le _ _).trans hk

end InFront

/-- **A call** returns. Events are as they should be afterwards if and only if they were, and the
call was right by them. -/
theorem SoundCall.spec {busy : List EntryPtr} {c : TimerCall} (hc : s.SoundCall busy c)
    (h : TimersOk s) (past : List TimerEffect) :
    ∃ s' effects, s.call c = .ok (s', effects) ∧ TimersOk s' ∧ s'.nowMs = s.nowMs ∧
      (s'.Clean (past ++ effects) ↔ s.Clean past ∧ s.OwnsCall past c) ∧
      ∀ d n k, n.val ∈ busy → (∀ m ∈ d, m.val ∈ busy) → InFront d n k s.timers.nodes →
        InFront d n (k + 1) s'.timers.nodes := by
  cases c with
  | addTimer currentMs timeout event t =>
    refine ⟨_, _, rfl, h.addTimer currentMs timeout event t hc, rfl,
      clean_addTimer h currentMs timeout event t, ?_⟩
    intro d n k _ _ hfront
    exact hfront.insert s.timers.sorted
  | cancelTimer id =>
    obtain ⟨hl, hbusy⟩ := hc
    obtain ⟨s', effects, hrun, hw⟩ := h.cancels_of_locates hl
    refine ⟨s', effects, hrun, ?_⟩
    cases hp : s.timerIds id with
    | none =>
      rw [hp] at hw
      obtain rfl := hw
      obtain ⟨-, rfl, -⟩ | ⟨p, e, i, m, hp', -⟩ := cancelTimer_ok hrun
      · refine ⟨h, rfl, ?_, ?_⟩
        · rw [List.append_nil]
          refine (and_iff_left ?_).symm
          intro p hp'
          rw [hp] at hp'
          cases hp'
        · rintro d n k - - ⟨a, b, hnodes, hd, hk⟩
          exact ⟨a, b, hnodes, hd, Nat.le_succ_of_le hk⟩
      · rw [hp] at hp'
        cases hp'
    | some p =>
      rw [hp] at hw
      obtain ⟨e, he, -⟩ := h.entry id p hp
      obtain ⟨n, hn, rfl⟩ := h.node id p hp
      have heffects : effects = [.delete e.event] := by
        rcases cancelTimer_ok hrun with ⟨-, -, hnone⟩ | ⟨p, e', i, m, hp', he', -, -, rfl⟩
        · rw [hp] at hnone
          cases hnone
        · obtain rfl := Option.some.inj (hp.symm.trans hp')
          obtain rfl := Option.some.inj (he.symm.trans he')
          rfl
      refine ⟨h.without hp hw, hw.nowMs, ?_, ?_⟩
      · rw [heffects, clean_remove he ⟨n, hn, rfl⟩ (fun m => hw.mem_iff h) hw.entries]
        refine and_congr_right fun _ => ⟨?_, fun howns => howns _ hp⟩
        intro howner p hp'
        obtain rfl := Option.some.inj (hp.symm.trans hp')
        exact howner
      · intro d m k hm hd hfront
        have hfiltered := hfront.filter (p := n.val) (fun heq => hbusy _ hp (heq ▸ hm))
          fun x hx heq => hbusy _ hp (heq ▸ hd x hx)
        rw [hw.nodes_eq h]
        obtain ⟨a, b, hnodes, hsub, hk⟩ := hfiltered
        exact ⟨a, b, hnodes, hsub, Nat.le_succ_of_le hk⟩

/-- **The calls of a callback.** -/
theorem AlongRun.spec {busy : List EntryPtr} {n : Node ℕ EntryPtr} {d : List (Node ℕ EntryPtr)}
    (hn : n.val ∈ busy) (hd : ∀ m ∈ d, m.val ∈ busy) (calls : List TimerCall) :
    ∀ {s : Poller} {past' : List TimerEffect} {k : ℕ} (past : List TimerEffect),
      s.AlongRun (fun busy _ s c => s.SoundCall busy c) busy past' calls → TimersOk s →
      InFront d n k s.timers.nodes →
      ∃ s' effects, s.run calls = .ok (s', effects) ∧ TimersOk s' ∧ s'.nowMs = s.nowMs ∧
        (s'.Clean (past ++ effects) ↔
          s.Clean past ∧ s.AlongRun (fun _ past s c => s.OwnsCall past c) busy past calls) ∧
        InFront d n (k + calls.length) s'.timers.nodes := by
  induction calls with
  | nil =>
    intro s past' k past _ h hfront
    refine ⟨s, [], rfl, h, rfl, ?_, hfront⟩
    rw [List.append_nil]
    exact (and_iff_left trivial).symm
  | cons c calls ih =>
    intro s past' k past hsound h hfront
    obtain ⟨hc, hrest⟩ := hsound
    obtain ⟨s₁, effects₁, hcall, h₁, hnow₁, hclean₁, hkeep⟩ := hc.spec h past
    obtain ⟨s', effects₂, hrun, h', hnow', hclean', hfront'⟩ :=
      ih (past ++ effects₁) (hrest s₁ effects₁ hcall) h₁ (hkeep d n k hn hd hfront)
    refine ⟨s', effects₁ ++ effects₂, ?_, h', hnow'.trans hnow₁, ?_, ?_⟩
    · rw [run]
      simp only [hcall, ok_bind, hrun]
      rfl
    · rw [← List.append_assoc, hclean', hclean₁, and_assoc, AlongRun]
      refine and_congr_right fun _ => and_congr_right fun _ => ⟨?_, fun hall => hall _ _ hcall⟩
      intro hcalls s₂ effects hcall₂
      obtain ⟨rfl, rfl⟩ := Prod.mk.inj (Except.ok.inj (hcall.symm.trans hcall₂))
      exact hcalls
    · rw [List.length_cons, Nat.add_comm calls.length, ← Nat.add_assoc]
      exact hfront'

end Poller

end ServerKit
