import ServerKit.Core.Verify.CancelTimer
import ServerKit.Core.Verify.Passes

/-!
# Timers cancelled while a pass runs

A callback may cancel timers that the pass has not come to. One that has fired in the pass, and the
one that is firing, are still in `timers_`: their iterators are in `del_timers` or in the hands of
the loop, and `CancelTimer` erases what these point to.
-/

namespace ServerKit

open Lib Multimap

/-- The calls of callbacks that cancel timers. -/
def cancelCalls (ids : List (List ℕ)) : List (List TimerCall) :=
  ids.map fun l => l.map TimerCall.cancelTimer

/-- The entries of the timers with some ids. -/
def Poller.pointers (s : Poller) (ids : List ℕ) : List EntryPtr := ids.filterMap s.timerIds

/-- A pass whose callbacks cancel the timers `ids`: it returns without having used what has been
erased or deleted, and a timer that a callback has cancelled does not fire behind it and is gone
afterwards. -/
def Poller.CancelsInPass (s : Poller) (ids : List (List ℕ)) : Prop :=
  ∃ fired s' effects,
    Poller.fireTimers (s.timers.nodes.length + (cancelCalls ids).flatten.length + 1) s
      s.timers.begin_ (cancelCalls ids) = .ok fired ∧
    s.executeTimers (cancelCalls ids) = .ok (fired.res, s', effects) ∧
    ∀ j l, ids[j]? = some l → j < fired.delTimers.length → ∀ p ∈ s.pointers l,
      (∀ n ∈ s.timers.nodes, n.val = p → n.id ∉ fired.delTimers.drop (j + 1)) ∧
      (∀ id, s'.timerIds id ≠ some p) ∧ ∀ n ∈ s'.timers.nodes, n.val ≠ p

/-- The callbacks of the elements `due`, which cancel the timers `ids`, cancel neither the timer
that is firing nor one that has fired. `gone` are the timers that have been cancelled, which do not
fire, and `fired` those that have fired. -/
def Poller.SafeCancels (s : Poller) :
    List (Node ℕ EntryPtr) → List (List ℕ) → List EntryPtr → List EntryPtr → Prop
  | [], _, _, _ => True
  | n :: due, ids, gone, fired =>
    if n.val ∈ gone then s.SafeCancels due ids gone fired
    else
      (∀ p ∈ s.pointers (ids.headD []), p ∉ n.val :: fired) ∧
        s.SafeCancels due ids.tail (gone ++ s.pointers (ids.headD [])) (n.val :: fired)

/-! ## The timers without some -/

/-- `t` is `s` without the timers `gone`. -/
structure Poller.Gone (s : Poller) (gone : List EntryPtr) (t : Poller) : Prop where
  ok : TimersOk t
  nodes : t.timers.nodes = s.timers.nodes.filter fun n => n.val ∉ gone
  ids : ∀ id, t.timerIds id = (s.timerIds id).filter fun p => p ∉ gone
  entries : ∀ p, p ∉ gone → t.entries p = s.entries p
  nowMs : t.nowMs = s.nowMs

namespace Poller.Gone

variable {s t : Poller} {gone : List EntryPtr} {id : ℕ}

theorem refl (h : TimersOk s) : s.Gone [] s := by
  refine ⟨h, ?_, ?_, fun _ _ => rfl, rfl⟩
  · simp
  · intro id
    cases s.timerIds id with
    | none => rfl
    | some p => simp [Option.filter]

theorem notMem (h : s.Gone gone t) {n : Node ℕ EntryPtr} (hn : n ∈ t.timers.nodes) :
    n ∈ s.timers.nodes ∧ n.val ∉ gone := by
  rw [h.nodes, List.mem_filter, decide_eq_true_eq] at hn
  exact hn

theorem timerIds_eq (h : s.Gone gone t) {p : EntryPtr} :
    t.timerIds id = some p ↔ s.timerIds id = some p ∧ p ∉ gone := by
  rw [h.ids, Option.filter_eq_some_iff, decide_eq_true_eq]

theorem congr (h : s.Gone gone t) {gone' : List EntryPtr} (hsame : ∀ p, p ∈ gone' ↔ p ∈ gone) :
    s.Gone gone' t := by
  refine ⟨h.ok, ?_, ?_, ?_, h.nowMs⟩
  · simp only [hsame, h.nodes]
  · simp only [hsame, h.ids, implies_true]
  · simp only [hsame]
    exact h.entries

/-- The other timers are where they were. -/
theorem split (h : s.Gone gone t) {a b : List (Node ℕ EntryPtr)} {n : Node ℕ EntryPtr}
    (hsplit : s.timers.nodes = a ++ n :: b) (hn : n.val ∉ gone) :
    t.timers.nodes = a.filter (fun n => n.val ∉ gone) ++ n :: b.filter fun n => n.val ∉ gone := by
  rw [h.nodes, hsplit]
  simp [hn]

theorem locates (h : s.Gone gone t) (hl : s.Locates id) : t.Locates id := by
  intro p e hp he
  obtain ⟨hp, hgone⟩ := h.timerIds_eq.mp hp
  rw [h.entries p hgone] at he
  obtain ⟨a, n, b, hsplit, rfl, hkey⟩ := hl p e hp he
  refine ⟨_, n, _, h.split hsplit hgone, rfl, ?_⟩
  refine hkey.imp_right fun hlt => ⟨hlt.1, ?_⟩
  intro c hc
  exact hlt.2 c (List.mem_of_mem_filter hc)

/-- `CancelTimer`, when it finds its timer. -/
theorem cancelTimer (h : s.Gone gone t) (hl : s.Locates id) :
    ∃ t' effects, t.cancelTimer id = .ok (t', effects) ∧
      s.Gone (gone ++ s.pointers [id]) t' := by
  obtain ⟨t', effects, hrun, hw⟩ := h.ok.cancels_of_locates (h.locates hl)
  refine ⟨t', effects, hrun, ?_⟩
  cases hp : t.timerIds id with
  | none =>
    rw [hp] at hw
    obtain rfl := hw
    refine h.congr ?_
    intro p
    rw [List.mem_append, or_iff_left_iff_imp]
    intro hin
    obtain ⟨i, hi, hid⟩ := List.mem_filterMap.mp hin
    obtain rfl := List.mem_singleton.mp hi
    by_contra hgone
    rw [h.timerIds_eq.mpr ⟨hid, hgone⟩] at hp
    cases hp
  | some p =>
    rw [hp] at hw
    obtain ⟨hid, hgone⟩ := h.timerIds_eq.mp hp
    have hpointers : s.pointers [id] = [p] := by
      unfold pointers
      rw [List.filterMap_cons, hid]
      rfl
    have hne : ∀ id', id' ≠ id → s.timerIds id' ≠ some p := by
      intro id' hne hid'
      exact hne (h.ok.id_unique hp (h.timerIds_eq.mpr ⟨hid', hgone⟩))
    rw [hpointers]
    refine ⟨h.ok.without hp hw, ?_, ?_, ?_, hw.nowMs.trans h.nowMs⟩
    · rw [hw.nodes_eq h.ok, h.nodes, List.filter_filter]
      congr 1
      funext m
      simp [and_comm]
    · intro id'
      rw [hw.timerIds]
      by_cases heq : id' = id
      · rw [heq, Function.update_self, hid]
        simp [Option.filter]
      · rw [Function.update_of_ne heq, h.ids]
        cases hid' : s.timerIds id' with
        | none => rfl
        | some q =>
          have hq : q ≠ p := fun hq => hne id' heq (hq ▸ hid')
          simp [Option.filter, hq]
    · intro q hq
      rw [List.mem_append, List.mem_singleton, not_or] at hq
      rw [hw.entries, Function.update_of_ne hq.2, h.entries q hq.1]

/-- The calls of a callback. -/
theorem run (l : List ℕ) : ∀ {t : Poller} {gone : List EntryPtr}, s.Gone gone t →
    (∀ id ∈ l, s.Locates id) →
    ∃ t' effects, t.run (l.map TimerCall.cancelTimer) = .ok (t', effects) ∧
      s.Gone (gone ++ s.pointers l) t' := by
  induction l with
  | nil =>
    intro t gone h _
    exact ⟨t, [], rfl, by rwa [pointers, List.filterMap_nil, List.append_nil]⟩
  | cons id l ih =>
    intro t gone h hl
    obtain ⟨hid, hl⟩ := List.forall_mem_cons.mp hl
    obtain ⟨t₁, effects, hcancel, h₁⟩ := h.cancelTimer hid
    obtain ⟨t', more, hrun, h'⟩ := ih h₁ hl
    refine ⟨t', effects ++ more, ?_, ?_⟩
    · rw [List.map_cons, Poller.run]
      simp only [call, hcancel, ok_bind, hrun]
      rfl
    · have hcons : s.pointers (id :: l) = s.pointers [id] ++ s.pointers l := by
        unfold pointers
        rw [← List.filterMap_append]
        rfl
      rwa [hcons, ← List.append_assoc]

end Poller.Gone

/-! ## The first loop -/

theorem cancelCalls_headD (ids : List (List ℕ)) :
    (cancelCalls ids).headD [] = (ids.headD []).map TimerCall.cancelTimer := by
  cases ids with
  | nil => rfl
  | cons l ids => rfl

theorem cancelCalls_tail (ids : List (List ℕ)) : (cancelCalls ids).tail = cancelCalls ids.tail := by
  cases ids with
  | nil => rfl
  | cons l ids => rfl

/-- The first loop has fired the elements `d` out of `due`, and `gone` are then the timers that have
been cancelled. -/
structure Poller.FiredSafely (s : Poller) (due : List (Node ℕ EntryPtr)) (ids : List (List ℕ))
    (past fired : List EntryPtr) (loop : Poller.Fired) (d : List (Node ℕ EntryPtr))
    (gone : List EntryPtr) : Prop where
  delTimers : loop.delTimers = d.map Node.id
  sub : d.Sublist due
  kept : ∀ n ∈ d, n.val ∉ past ∧ n.val ∉ gone
  rest : s.Gone gone loop.poller
  grown : ∀ p ∈ past, p ∈ gone
  old : ∀ p ∈ fired, p ∈ gone → p ∈ past
  cancelled : ∀ j l, ids[j]? = some l → j < d.length → ∀ p ∈ s.pointers l,
    p ∈ gone ∧ ∀ n ∈ d.drop (j + 1), n.val ≠ p

section First

variable {s : Poller}

/-- **The first loop**, when no callback cancels a timer that has fired or is firing. -/
theorem Poller.SafeCancels.fires (due : List (Node ℕ EntryPtr)) : ∀ {t : Poller}
    {pre : List (Node ℕ EntryPtr)} {ids : List (List ℕ)} {gone fired : List EntryPtr} {fuel : ℕ},
    s.SafeCancels due ids gone fired → s.timers.nodes = pre ++ (due ++ s.notDue) →
    (∀ n ∈ due, n.key ≤ s.nowMs) → s.Gone gone t → (∀ l ∈ ids, ∀ id ∈ l, s.Locates id) →
    due.length < fuel →
    ∃ loop d gone', fireTimers fuel t
        (first ((due ++ s.notDue).filter (fun n => n.val ∉ gone))) (cancelCalls ids) = .ok loop ∧
      s.FiredSafely due ids gone fired loop d gone' := by
  induction due with
  | nil =>
    intro t pre ids gone fired fuel _ hsplit _ ht _ hfuel
    obtain ⟨fuel, rfl⟩ : ∃ k, fuel = k + 1 := ⟨fuel - 1, by omega⟩
    have hsplit' : t.timers.nodes = pre.filter (fun n => n.val ∉ gone) ++
        s.notDue.filter fun n => n.val ∉ gone := by
      rw [ht.nodes, hsplit, List.nil_append, List.filter_append]
    have hlater : ∀ n ∈ s.notDue.filter (fun n => n.val ∉ gone), t.nowMs < n.key := by
      intro n hn
      rw [ht.nowMs]
      exact lt_of_mem_dropWhile_le s.timers.sorted (List.mem_of_mem_filter hn)
    refine ⟨_, [], gone, fireTimers_stop fuel _ hsplit' hlater, rfl, List.nil_sublist _, ?_, ht,
      fun _ hp => hp, fun _ _ hp => hp, ?_⟩
    · intro n hn
      cases hn
    · intro j l _ hj
      cases hj
  | cons n due ih =>
    intro t pre ids gone fired fuel hsafe hsplit hdue ht hl hfuel
    obtain ⟨fuel, rfl⟩ : ∃ k, fuel = k + 1 := ⟨fuel - 1, by omega⟩
    obtain ⟨hn, hdue⟩ := List.forall_mem_cons.mp hdue
    have hpre : s.timers.nodes = (pre ++ [n]) ++ (due ++ s.notDue) := by rw [hsplit]; simp
    unfold SafeCancels at hsafe
    by_cases hgone : n.val ∈ gone
    · rw [if_pos hgone] at hsafe
      obtain ⟨loop, d, gone', hloop, hf⟩ := ih hsafe hpre hdue ht hl
        (Nat.lt_of_succ_lt hfuel)
      rw [List.cons_append, List.filter_cons_of_neg (by simpa using hgone)]
      exact ⟨loop, d, gone', hloop, { hf with sub := hf.sub.cons n }⟩
    · rw [if_neg hgone] at hsafe
      obtain ⟨hown, hsafe⟩ := hsafe
      have hsplit' := ht.split hsplit hgone
      obtain ⟨e, he, -⟩ := ht.ok.entry_of_mem (n := n) (by rw [hsplit']; simp)
      obtain ⟨t₁, effects, hrun, ht₁⟩ := ht.run (ids.headD [])
        (headD_of_forall (P := fun l => ∀ id ∈ l, s.Locates id) nofun hl)
      have hstays : n.val ∉ gone ++ s.pointers (ids.headD []) := by
        rw [List.mem_append, not_or]
        exact ⟨hgone, fun hp => hown _ hp List.mem_cons_self⟩
      obtain ⟨loop, d, gone', hloop, hf⟩ := ih hsafe hpre hdue ht₁
        (fun l hmem => hl l (List.mem_of_mem_tail hmem)) (Nat.lt_of_succ_lt_succ hfuel)
      rw [← cancelCalls_headD] at hrun
      rw [← cancelCalls_tail] at hloop
      have hfire := fireTimers_fire hsplit' (ht.nowMs ▸ hn) he hrun (ht₁.split hsplit hstays) hloop
      rw [List.cons_append, List.filter_cons_of_pos (by simpa using hgone)]
      refine ⟨_, n :: d, gone', hfire, ?_, hf.sub.cons_cons n, ?_, hf.rest, ?_, ?_, ?_⟩
      · rw [List.map_cons, ← hf.delTimers]
      · intro m hm
        rcases List.mem_cons.mp hm with rfl | hm
        · exact ⟨hgone, fun hin => hstays (hf.old _ List.mem_cons_self hin)⟩
        · obtain ⟨hpast, hlater⟩ := hf.kept m hm
          exact ⟨fun hin => hpast (List.mem_append_left _ hin), hlater⟩
      · intro p hp
        exact hf.grown p (List.mem_append_left _ hp)
      · intro p hp hin
        rcases List.mem_append.mp (hf.old p (List.mem_cons_of_mem _ hp) hin) with hold | hnew
        · exact hold
        · exact absurd (List.mem_cons_of_mem _ hp) (hown p hnew)
      · intro j l hj hlt p hp
        cases j with
        | zero =>
          have hhead : ids.headD [] = l := by
            cases ids with
            | nil => cases hj
            | cons l' ids => exact Option.some.inj hj
          have hin : p ∈ gone ++ s.pointers (ids.headD []) := by
            rw [hhead]
            exact List.mem_append_right _ hp
          refine ⟨hf.grown p hin, ?_⟩
          rintro m hm rfl
          exact (hf.kept m hm).1 hin
        | succ j =>
          have htail : ids.tail[j]? = some l := by
            rw [List.getElem?_tail]
            exact hj
          exact hf.cancelled j l htail (Nat.lt_of_succ_lt_succ hlt) p hp

/-- Callbacks that cancel timers leave no elements but those that were there. -/
theorem Poller.fireTimers_sub (fuel : ℕ) : ∀ {t : Poller} {pos : Option ℕ} {ids : List (List ℕ)}
    {loop : Fired}, fireTimers fuel t pos (cancelCalls ids) = .ok loop →
    loop.poller.timers.nodes.Sublist t.timers.nodes ∧
      loop.poller.timers.fresh = t.timers.fresh ∧ ∀ i ∈ loop.delTimers, i < t.timers.fresh := by
  have hruns : ∀ {t t' : Poller} {l : List ℕ} {effects},
      t.run (l.map TimerCall.cancelTimer) = .ok (t', effects) →
      t'.timers.nodes.Sublist t.timers.nodes ∧ t'.timers.fresh = t.timers.fresh := by
    intro t t' l effects hrun
    refine run_invariant (fun _ t' => t'.timers.nodes.Sublist t.timers.nodes ∧
      t'.timers.fresh = t.timers.fresh) ?_ [] ⟨List.Sublist.refl _, rfl⟩ hrun
    rintro past t₁ c t₂ effects hc ⟨hsub, hfresh⟩ hcall
    obtain ⟨id, -, rfl⟩ := List.mem_map.mp hc
    rcases cancelTimer_ok hcall with ⟨rfl, -⟩ | ⟨p, e, i, m, -, -, herase, rfl, -⟩
    · exact ⟨hsub, hfresh⟩
    · obtain ⟨hsub', hfresh'⟩ := erase_sublist herase
      exact ⟨hsub'.trans hsub, hfresh'.trans hfresh⟩
  induction fuel with
  | zero =>
    intro t pos ids loop h
    cases h
  | succ fuel ih =>
    intro t pos ids loop h
    rcases fireTimers_ok h with ⟨-, rfl⟩ | ⟨i, n, -, hget,
      ⟨-, rfl⟩ | ⟨-, e, t₁, effects, iter, rest, -, hrun, -, hrest, rfl⟩⟩
    · exact ⟨List.Sublist.refl _, rfl, nofun⟩
    · exact ⟨List.Sublist.refl _, rfl, nofun⟩
    · rw [cancelCalls_headD] at hrun
      rw [cancelCalls_tail] at hrest
      obtain ⟨hsub, hfresh⟩ := hruns hrun
      obtain ⟨hsub', hfresh', hids⟩ := ih hrest
      refine ⟨hsub'.trans hsub, hfresh'.trans hfresh, ?_⟩
      obtain ⟨a, b, hsplit, rfl⟩ := exists_of_get hget
      intro j hj
      rcases List.mem_cons.mp hj with rfl | hj
      · exact t.timers.below n (by rw [hsplit]; simp)
      · exact hfresh ▸ hids j hj

/-- **If all that has fired is still there**, no callback has cancelled a timer that had fired or
was firing. -/
theorem Poller.SafeCancels.of_fires (due : List (Node ℕ EntryPtr)) : ∀ {t : Poller}
    {pre : List (Node ℕ EntryPtr)} {ids : List (List ℕ)} {gone fired : List EntryPtr} {fuel : ℕ}
    {loop : Poller.Fired},
    fireTimers fuel t (first ((due ++ s.notDue).filter fun n => n.val ∉ gone)) (cancelCalls ids) =
      .ok loop → s.timers.nodes = pre ++ (due ++ s.notDue) → (∀ n ∈ due, n.key ≤ s.nowMs) →
    s.Gone gone t → (∀ l ∈ ids, ∀ id ∈ l, s.Locates id) →
    (∀ i ∈ loop.delTimers, ∃ m ∈ loop.poller.timers.nodes, m.id = i) →
    (∀ p ∈ fired, ∃ m ∈ loop.poller.timers.nodes, m.val = p) →
    s.SafeCancels due ids gone fired := by
  induction due with
  | nil => exact fun _ _ _ _ _ _ _ => trivial
  | cons n due ih =>
    intro t pre ids gone fired fuel loop h hsplit hdue ht hl hids hfired
    obtain ⟨hn, hdue⟩ := List.forall_mem_cons.mp hdue
    have hpre : s.timers.nodes = (pre ++ [n]) ++ (due ++ s.notDue) := by rw [hsplit]; simp
    rw [List.cons_append] at h
    unfold SafeCancels
    by_cases hgone : n.val ∈ gone
    · rw [if_pos hgone]
      rw [List.filter_cons_of_neg (by simpa using hgone)] at h
      exact ih h hpre hdue ht hl hids hfired
    · rw [if_neg hgone]
      rw [List.filter_cons_of_pos (by simpa using hgone)] at h
      have hsplit' := ht.split hsplit hgone
      have hmem : n ∈ t.timers.nodes := by rw [hsplit']; simp
      obtain ⟨fuel, e, t₁, effects, iter, rest, rfl, -, hrun, hiter, hrest, rfl⟩ :=
        fireTimers_due_ok hsplit' (ht.nowMs ▸ hn) h
      rw [cancelCalls_headD] at hrun
      rw [cancelCalls_tail] at hrest
      obtain ⟨t', effects', hrun', ht₁⟩ := ht.run (ids.headD [])
        (headD_of_forall (P := fun l => ∀ id ∈ l, s.Locates id) nofun hl)
      obtain ⟨rfl, -⟩ := Prod.mk.inj (Except.ok.inj (hrun'.symm.trans hrun))
      -- what the loop leaves has not been cancelled by this callback
      have hleft : ∀ m ∈ rest.poller.timers.nodes,
          m ∈ s.timers.nodes ∧ m.val ∉ gone ++ s.pointers (ids.headD []) := fun m hm =>
        ht₁.notMem ((fireTimers_sub fuel hrest).1.subset hm)
      obtain ⟨hown, hids⟩ := List.forall_mem_cons.mp hids
      have hnow : n ∈ rest.poller.timers.nodes := by
        obtain ⟨m, hm, hid⟩ := hown
        rwa [← Multimap.eq_of_id (ht.notMem hmem).1 (hleft m hm).1 hid]
      have hfired' : ∀ p ∈ n.val :: fired, ∃ m ∈ rest.poller.timers.nodes, m.val = p := by
        intro p hp
        rcases List.mem_cons.mp hp with rfl | hp
        · exact ⟨n, hnow, rfl⟩
        · exact hfired p hp
      refine ⟨?_, ?_⟩
      · intro p hp hin
        obtain ⟨m, hm, rfl⟩ := hfired' p hin
        exact (hleft m hm).2 (List.mem_append_right _ hp)
      · obtain rfl := Option.some.inj ((next_eq (ht₁.split hsplit (hleft n hnow).2)).symm.trans
          hiter)
        exact ih hrest hpre hdue ht₁ (fun l hmem => hl l (List.mem_of_mem_tail hmem)) hids hfired'

end First

/-! ## The pass -/

/-- The second loop has found all its elements, if it has not gone wrong. -/
theorem Poller.expireTimers_found (l : List ℕ) : ∀ {s s' : Poller} {effects : List TimerEffect},
    s.expireTimers l = .ok (s', effects) → (∀ i ∈ l, i < s.timers.fresh) →
    ∀ i ∈ l, ∃ m ∈ s.timers.nodes, m.id = i := by
  induction l with
  | nil => exact fun _ _ i hi => absurd hi List.not_mem_nil
  | cons i l ih =>
    intro s s' effects h hids
    obtain ⟨s₁, effects₁, effects₂, hone, hrest, rfl⟩ := expireTimers_cons_ok h
    obtain ⟨-, hlt⟩ := List.forall_mem_cons.mp hids
    obtain ⟨n, e, m, hget, -, herase, hcases⟩ := expireTimer_ok hone
    obtain ⟨a, b, hsplit, rfl⟩ := exists_of_get hget
    obtain ⟨hsub, hfresh⟩ := erase_sublist herase
    have hs₁ : s.timers.fresh ≤ s₁.timers.fresh ∧
        ∀ c ∈ s₁.timers.nodes, c ∈ s.timers.nodes ∨ c.id = s.timers.fresh := by
      rcases hcases with ⟨rfl, -⟩ | ⟨rfl, -⟩
      · exact ⟨hfresh.ge, fun c hc => .inl (hsub.subset hc)⟩
      · refine ⟨hfresh ▸ Nat.le_succ _, ?_⟩
        intro c hc
        rcases mem_insertNode.mp hc with rfl | hc
        · exact .inr hfresh
        · exact .inl (hsub.subset hc)
    intro j hj
    rcases List.mem_cons.mp hj with rfl | hj
    · exact ⟨n, by rw [hsplit]; simp, rfl⟩
    · obtain ⟨c, hc, rfl⟩ := ih hrest (fun k hk => (hlt k hk).trans_le hs₁.1) j hj
      refine ⟨c, (hs₁.2 c hc).resolve_right ?_, rfl⟩
      intro hnew
      exact absurd (hlt c.id hj) (hnew ▸ Nat.lt_irrefl _)

section Pass

variable {s : Poller} {ids : List (List ℕ)}

theorem Poller.nodes_eq (s : Poller) : s.timers.nodes = [] ++ (s.due ++ s.notDue) :=
  List.takeWhile_append_dropWhile.symm

/-- Where the first loop starts, no timer has been cancelled. -/
theorem Poller.begin_eq (s : Poller) :
    s.timers.begin_ = first ((s.due ++ s.notDue).filter fun n => n.val ∉ ([] : List EntryPtr)) := by
  have hall : ((s.due ++ s.notDue).filter fun n => n.val ∉ ([] : List EntryPtr)) =
      s.due ++ s.notDue := List.filter_eq_self.mpr fun n _ => decide_eq_true List.not_mem_nil
  rw [hall, begin_]
  exact congrArg first s.nodes_eq

theorem Poller.CancelsInPass.of_safe (h : TimersOk s) (hl : ∀ l ∈ ids, ∀ id ∈ l, s.Locates id)
    (hsafe : s.SafeCancels s.due ids [] []) : s.CancelsInPass ids := by
  have hfuel : s.due.length < s.timers.nodes.length + (cancelCalls ids).flatten.length + 1 := by
    have hlen : s.due.length ≤ s.timers.nodes.length := (List.takeWhile_sublist _).length_le
    omega
  obtain ⟨loop, d, gone, hloop, hf⟩ := hsafe.fires s.due s.nodes_eq
    (fun n hn => le_of_mem_takeWhile_le hn) (.refl h) hl hfuel
  rw [← s.begin_eq] at hloop
  have hmem : ∀ n ∈ d, n ∈ loop.poller.timers.nodes := by
    intro n hn
    rw [hf.rest.nodes, List.mem_filter, decide_eq_true_eq]
    exact ⟨(List.takeWhile_sublist _).subset (hf.sub.subset hn), (hf.kept n hn).2⟩
  have hdistinct : d.Pairwise fun a b => a.id ≠ b.id :=
    s.timers.distinct.sublist (hf.sub.trans (List.takeWhile_sublist _))
  obtain ⟨s', effects, hexpire, hx, -⟩ := TimersOk.expireTimers_spec d hf.rest.ok hdistinct hmem
  rw [← hf.delTimers] at hexpire
  refine ⟨loop, s', loop.effects ++ effects, hloop,
    executeTimers_ok.mpr ⟨loop, effects, hloop, hexpire, rfl, rfl⟩, ?_⟩
  intro j l hj hlt p hp
  rw [hf.delTimers, List.length_map] at hlt
  obtain ⟨hgone, hlater⟩ := hf.cancelled j l hj hlt p hp
  refine ⟨?_, ?_, ?_⟩
  · intro n hn hval hin
    rw [hf.delTimers, ← List.map_drop] at hin
    obtain ⟨m, hm, hid⟩ := List.mem_map.mp hin
    have hms := (hf.rest.notMem (hmem m (List.mem_of_mem_drop hm))).1
    obtain rfl := Multimap.eq_of_id hn hms hid
    exact hlater m hm hval
  · intro id hid
    exact (hf.rest.timerIds_eq.mp (hx.sub id p hid)).2 hgone
  · rintro m hm rfl
    rcases hx.origin m hm with ⟨hm, -⟩ | ⟨n, hn, -, -, -, hval, -⟩
    · exact (hf.rest.notMem hm).2 hgone
    · exact (hf.kept n hn).2 (hval ▸ hgone)

theorem Poller.CancelsInPass.safe (h : TimersOk s) (hl : ∀ l ∈ ids, ∀ id ∈ l, s.Locates id)
    (hc : s.CancelsInPass ids) : s.SafeCancels s.due ids [] [] := by
  obtain ⟨loop, s', effects, hloop, hrun, -⟩ := hc
  obtain ⟨loop', effects₂, hloop', hexpire, -, -⟩ := executeTimers_ok.mp hrun
  obtain rfl := Except.ok.inj (hloop.symm.trans hloop')
  obtain ⟨-, hfresh, hids⟩ := fireTimers_sub _ hloop
  rw [s.begin_eq] at hloop
  apply SafeCancels.of_fires s.due hloop s.nodes_eq (fun n hn => le_of_mem_takeWhile_le hn)
    (.refl h) hl
  · exact expireTimers_found loop.delTimers hexpire (hfresh ▸ hids)
  · exact fun p hp => absurd hp List.not_mem_nil

/-- **When callbacks may cancel timers.** The timers that they cancel are where `CancelTimer` looks
for them. Then a pass comes out right if and only if no callback cancels the timer that is firing or
one that has fired. -/
theorem cancelsInPass_iff (h : TimersOk s) (ids : List (List ℕ)) :
    ((∀ l ∈ ids, ∀ id ∈ l, s.Locates id) ∧ s.SafeCancels s.due ids [] [] → s.CancelsInPass ids) ∧
      ((∀ l ∈ ids, ∀ id ∈ l, s.Locates id) → s.CancelsInPass ids →
        s.SafeCancels s.due ids [] []) :=
  ⟨fun hsafe => .of_safe h hsafe.1 hsafe.2, Poller.CancelsInPass.safe h⟩

end Pass

/-- Two timers that are due at 10, and one that is not. -/
def threeTimers : Poller :=
  let s := ((Poller.new 0).addTimer 0 10 7 .kTimerOnce).2.1
  let s := (s.addTimer 0 10 8 .kTimerOnce).2.1
  { (s.addTimer 0 20 9 .kTimerOnce).2.1 with nowMs := 10 }

theorem threeTimers_ok : TimersOk threeTimers := by
  have h := (TimersOk.new 0).addTimer 0 10 7 .kTimerOnce rfl
  have h := h.addTimer 0 10 8 .kTimerOnce rfl
  have h := h.addTimer 0 20 9 .kTimerOnce rfl
  exact ⟨h.entry, h.node, h.id, h.once, h.fresh⟩

/-- The first of them cancels the other two. -/
theorem cancelsInPass_two : threeTimers.CancelsInPass [[2, 3]] := by
  refine (cancelsInPass_iff threeTimers_ok [[2, 3]]).1 ⟨?_, ?_⟩
  · intro l hl id hid p e hp he
    obtain rfl := List.mem_singleton.mp hl
    rcases List.mem_pair.mp hid with rfl | rfl
    · cases hp
      cases he
      exact ⟨[⟨0, 10, 0⟩], _, [⟨2, 20, 2⟩], rfl, rfl, .inl rfl⟩
    · cases hp
      cases he
      exact ⟨[⟨0, 10, 0⟩, ⟨1, 10, 1⟩], _, [], rfl, rfl, .inl rfl⟩
  · have hdue : threeTimers.due = [⟨0, 10, 0⟩, ⟨1, 10, 1⟩] := rfl
    have hpointers : threeTimers.pointers [2, 3] = [1, 2] := rfl
    rw [hdue]
    simp [Poller.SafeCancels, hpointers]

/-- The first of them cancels itself. -/
theorem cancelsInPass_own : ¬ threeTimers.CancelsInPass [[1]] := by
  rintro ⟨fired, s', effects, -, hrun, -⟩
  have herror : threeTimers.executeTimers (cancelCalls [[1]]) = .error .dangling := rfl
  cases herror.symm.trans hrun

end ServerKit
