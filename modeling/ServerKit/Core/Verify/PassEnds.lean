import ServerKit.Core.Verify.CancelTimer
import ServerKit.Core.Verify.Passes

/-!
# Timers added while a pass runs

The first loop of `executeTimers` walks on through whatever callbacks insert behind its iterator. A
timer with the timeout 0 has the key `now_ms_` as long as the clock stands still, so it is fired in
the same pass; and if its callback adds another one, the pass goes on for ever.
-/

namespace ServerKit

open Lib Multimap

/-- A timer a callback adds. -/
structure NewTimer where
  timeout : { timeout : ℤ // IsTimeout timeout }
  event : EventPtr
  t : TimerType

/-- The call that adds it at `now`. -/
def NewTimer.call (now : ℕ) (x : NewTimer) : TimerCall := .addTimer now x.timeout x.event x.t

/-- Its key. -/
def NewTimer.key (now : ℕ) (x : NewTimer) : ℕ := wordAdd now (uint64OfInt x.timeout)

/-- The elements of `timers_` point to entries of their own that have not been deleted. -/
structure Poller.Live (s : Poller) : Prop extends s.Apart where
  entry : ∀ n ∈ s.timers.nodes, ∃ e, s.entries n.val = some e

/-- The pass ends, and it fires no timers but some of those that were there when it began, once
each. Its `j`-th callback makes the calls `beh j`, and it runs no more than `n` of them. -/
def Poller.PassEnds (s : Poller) (beh : ℕ → List TimerCall) : Prop :=
  ∃ n fired s' effects,
    Poller.fireTimers (s.timers.nodes.length + ((List.range n).map beh).flatten.length + 1) s
      s.timers.begin_ ((List.range n).map beh) = .ok fired ∧ fired.delTimers.length ≤ n ∧
    s.executeTimers ((List.range n).map beh) = .ok (fired.res, s', fired.effects ++ effects) ∧
    fired.delTimers.Sublist (s.timers.nodes.map Node.id)

/-! ## Timers are added -/

section Add

variable {s : Poller} {a b c d : List (Node ℕ EntryPtr)} {n : Node ℕ EntryPtr}

theorem Poller.Live.addTimer (h : s.Live) (currentMs : ℕ) (timeout : ℤ) (event : EventPtr)
    (t : TimerType) : (s.addTimer currentMs timeout event t).2.1.Live := by
  refine ⟨h.toApart.addTimer currentMs timeout event t, ?_⟩
  intro n hn
  change ∃ e, Function.update s.entries s.nextEntry (some _) n.val = some e
  rcases mem_insertNode.mp hn with rfl | hn
  · exact ⟨_, Function.update_self ..⟩
  · rw [Function.update_of_ne (h.below n hn).ne]
    exact h.entry n hn

theorem TimersOk.live (h : TimersOk s) : s.Live := by
  refine ⟨⟨h.once, ?_⟩, ?_⟩
  · intro n hn
    obtain ⟨e, he, -⟩ := h.entry_of_mem hn
    by_contra hle
    rw [h.fresh _ (Nat.le_of_not_lt hle)] at he
    cases he
  · intro n hn
    obtain ⟨e, he, -⟩ := h.entry_of_mem hn
    exact ⟨e, he⟩

/-- One of several timers is added. -/
theorem Poller.run_add (s : Poller) (now : ℕ) (x : NewTimer) (calls : List TimerCall) {s' : Poller}
    {effects : List TimerEffect}
    (h : (s.addTimer now x.timeout x.event x.t).2.1.run calls = .ok (s', effects)) :
    ∃ effects', s.run (x.call now :: calls) = .ok (s', effects') := by
  refine ⟨(s.addTimer now x.timeout x.event x.t).2.2 ++ effects, ?_⟩
  rw [run]
  simp only [NewTimer.call, call, ok_bind, h]
  rfl

/-- The elements in front of another have keys that are not greater. -/
theorem Poller.key_le_of_split (hsplit : s.timers.nodes = a ++ n :: b) {m : Node ℕ EntryPtr}
    (hm : m ∈ a ++ [n]) : m.key ≤ n.key := by
  have hsorted := s.timers.sorted
  rw [hsplit] at hsorted
  rcases List.mem_append.mp hm with hm | hm
  · exact (List.pairwise_append.mp hsorted).2.2 m hm n List.mem_cons_self
  · exact (List.mem_singleton.mp hm ▸ le_rfl)

/-- Where a timer is inserted, seen from the iterator. -/
theorem Poller.addTimer_split (hsplit : s.timers.nodes = a ++ n :: b) (now : ℕ) (x : NewTimer) :
    x.key now < n.key ∧ (s.addTimer now x.timeout x.event x.t).2.1.timers.nodes =
        insertNode ⟨s.timers.fresh, x.key now, s.nextEntry⟩ a ++ n :: b ∨
      n.key ≤ x.key now ∧ (s.addTimer now x.timeout x.event x.t).2.1.timers.nodes =
        a ++ n :: insertNode ⟨s.timers.fresh, x.key now, s.nextEntry⟩ b := by
  set m : Node ℕ EntryPtr := ⟨s.timers.fresh, x.key now, s.nextEntry⟩ with hm
  have hnodes : (s.addTimer now x.timeout x.event x.t).2.1.timers.nodes =
      insertNode m (a ++ n :: b) := by
    rw [← hsplit]
    rfl
  rw [hnodes]
  rcases Nat.lt_or_ge (x.key now) n.key with hlt | hle
  · exact .inl ⟨hlt, insertNode_append_of_lt hlt⟩
  · refine .inr ⟨hle, ?_⟩
    have hfront : ∀ c ∈ a ++ [n], c.key ≤ m.key := fun c hc =>
      (key_le_of_split hsplit hc).trans hle
    rw [List.append_cons, insertNode_append hfront, List.append_assoc]
    rfl

/-- **Timers are added** while the iterator stands at `n`: those whose keys are not before that of
`n` are behind it. -/
theorem Poller.run_adds (now : ℕ) (xs : List NewTimer) : ∀ {s : Poller}
    {a b : List (Node ℕ EntryPtr)}, s.timers.nodes = a ++ n :: b →
    ∃ s' effects a' b', s.run (xs.map (NewTimer.call now)) = .ok (s', effects) ∧
      s'.timers.nodes = a' ++ n :: b' ∧ (∀ m ∈ b, m ∈ b') ∧
      ∀ x ∈ xs, n.key ≤ x.key now → ∃ m ∈ b', m.key = x.key now ∧ s.timers.fresh ≤ m.id := by
  induction xs with
  | nil =>
    intro s a b hsplit
    exact ⟨s, [], a, b, rfl, hsplit, fun _ hm => hm, fun x hx => absurd hx List.not_mem_nil⟩
  | cons x xs ih =>
    intro s a b hsplit
    set m : Node ℕ EntryPtr := ⟨s.timers.fresh, x.key now, s.nextEntry⟩ with hm
    obtain ⟨a₁, b₁, hnodes, hold, hnew⟩ : ∃ a₁ b₁,
        (s.addTimer now x.timeout x.event x.t).2.1.timers.nodes = a₁ ++ n :: b₁ ∧
        (∀ c ∈ b, c ∈ b₁) ∧ (n.key ≤ x.key now → m ∈ b₁) := by
      rcases addTimer_split hsplit now x with ⟨hlt, hnodes⟩ | ⟨-, hnodes⟩
      · exact ⟨_, b, hnodes, fun _ hc => hc, fun hle => absurd hlt (Nat.not_lt_of_le hle)⟩
      · exact ⟨a, _, hnodes, fun c hc => mem_insertNode.mpr (.inr hc),
          fun _ => mem_insertNode.mpr (.inl rfl)⟩
    obtain ⟨s', effects, a', b', hrun, hnodes', hkeep, hadded⟩ := ih hnodes
    obtain ⟨effects', hrun'⟩ := run_add s now x _ hrun
    refine ⟨s', effects', a', b', hrun', hnodes', fun c hc => hkeep c (hold c hc), ?_⟩
    intro y hy hle
    rcases List.mem_cons.mp hy with rfl | hy
    · exact ⟨m, hkeep m (hnew hle), congrArg Node.key hm, (congrArg Node.id hm).ge⟩
    · obtain ⟨c, hc, hkey, hid⟩ := hadded y hy hle
      exact ⟨c, hc, hkey, (Nat.le_succ _).trans hid⟩

end Add

/-! ## Timers outside the pass -/

/-- A timer a callback adds is not fired in the same pass: its key is after `now_ms_`, or in front
of the iterator. -/
def NewTimer.Outside (now : ℕ) (n : Node ℕ EntryPtr) (x : NewTimer) : Prop :=
  now < x.key now ∨ x.key now < n.key

section Outside

variable {n : Node ℕ EntryPtr} {d : List (Node ℕ EntryPtr)}

/-- Timers outside the pass are added: what is due behind the iterator stays as it is. -/
theorem Poller.run_outside (now : ℕ) (xs : List NewTimer) (hd : ∀ m ∈ d, m.key ≤ now)
    (hxs : ∀ x ∈ xs, x.Outside now n) : ∀ {s : Poller}
    {a c : List (Node ℕ EntryPtr)}, s.timers.nodes = a ++ n :: (d ++ c) → (∀ m ∈ c, now < m.key) →
    s.Live → ∃ s' effects a' c', s.run (xs.map (NewTimer.call now)) = .ok (s', effects) ∧
      s'.timers.nodes = a' ++ n :: (d ++ c') ∧ (∀ m ∈ c', now < m.key) ∧ s'.Live ∧
      ∀ m ∈ s.timers.nodes, m ∈ s'.timers.nodes := by
  induction xs with
  | nil =>
    intro s a c hsplit hc hs
    exact ⟨s, [], a, c, rfl, hsplit, hc, hs, fun _ hm => hm⟩
  | cons x xs ih =>
    intro s a c hsplit hc hs
    obtain ⟨hx, hxs⟩ := List.forall_mem_cons.mp hxs
    obtain ⟨a₁, c₁, hnodes, hc₁⟩ : ∃ a₁ c₁,
        (s.addTimer now x.timeout x.event x.t).2.1.timers.nodes = a₁ ++ n :: (d ++ c₁) ∧
        ∀ m ∈ c₁, now < m.key := by
      rcases addTimer_split hsplit now x with ⟨-, hnodes⟩ | ⟨hle, hnodes⟩
      · exact ⟨_, c, hnodes, hc⟩
      · have hlater : now < x.key now := hx.resolve_right (Nat.not_lt_of_le hle)
        have hfront : ∀ m ∈ d, m.key ≤ x.key now := fun m hm => (hd m hm).trans hlater.le
        rw [insertNode_append hfront] at hnodes
        refine ⟨a, _, hnodes, ?_⟩
        intro m hm
        rcases mem_insertNode.mp hm with rfl | hm
        · exact hlater
        · exact hc m hm
    obtain ⟨s', effects, a', c', hrun, hnodes', hc', hs', hkeep⟩ :=
      ih hxs hnodes hc₁ (hs.addTimer now x.timeout x.event x.t)
    obtain ⟨effects', hrun'⟩ := run_add s now x _ hrun
    exact ⟨s', effects', a', c', hrun', hnodes', hc', hs',
      fun m hm => hkeep m (mem_insertNode.mpr (.inr hm))⟩

/-- What `beh` is for the callbacks of the elements of `d`. -/
def BehavesAs (now : ℕ) (beh : ℕ → List NewTimer) (k : ℕ) : List (List TimerCall) :=
  (List.range k).map fun j => (beh j).map (NewTimer.call now)

theorem BehavesAs.succ (now : ℕ) (beh : ℕ → List NewTimer) (k : ℕ) :
    BehavesAs now beh (k + 1) =
      (beh 0).map (NewTimer.call now) :: BehavesAs now (fun j => beh (j + 1)) k := by
  unfold BehavesAs
  rw [List.range_succ_eq_map, List.map_cons, List.map_map]
  rfl

/-- **The first loop**, when timers are added outside the pass only: it fires what was due. -/
theorem Poller.fireTimers_outside (d : List (Node ℕ EntryPtr)) :
    ∀ {s : Poller} {a c : List (Node ℕ EntryPtr)} {beh : ℕ → List NewTimer} {k fuel : ℕ},
      s.timers.nodes = a ++ (d ++ c) → (∀ m ∈ d, m.key ≤ s.nowMs) → (∀ m ∈ c, s.nowMs < m.key) →
      (∀ j n, d[j]? = some n → ∀ x ∈ beh j, x.Outside s.nowMs n) → s.Live → d.length ≤ k →
      d.length < fuel →
      ∃ fired, fireTimers fuel s (first (d ++ c)) (BehavesAs s.nowMs beh k) = .ok fired ∧
        fired.delTimers = d.map Node.id ∧ fired.poller.Live ∧
        ∀ m ∈ s.timers.nodes, m ∈ fired.poller.timers.nodes := by
  induction d with
  | nil =>
    intro s a c beh k fuel hsplit _ hc _ hs _ hfuel
    obtain ⟨fuel, rfl⟩ : ∃ k, fuel = k + 1 := ⟨fuel - 1, by omega⟩
    exact ⟨_, fireTimers_stop fuel _ hsplit hc, rfl, hs, fun _ hm => hm⟩
  | cons n d ih =>
    intro s a c beh k fuel hsplit hd hc hout hs hk hfuel
    obtain ⟨fuel, rfl⟩ : ∃ k, fuel = k + 1 := ⟨fuel - 1, by omega⟩
    obtain ⟨k, rfl⟩ : ∃ j, k = j + 1 := ⟨k - 1, by rw [List.length_cons] at hk; omega⟩
    obtain ⟨hn, hd⟩ := List.forall_mem_cons.mp hd
    rw [List.cons_append] at hsplit
    obtain ⟨e, he⟩ := hs.entry n (by rw [hsplit]; simp)
    obtain ⟨s₁, effects, a₁, c₁, hrun, hnodes, hc₁, hs₁, hkeep⟩ :=
      run_outside s.nowMs (beh 0) hd (hout 0 n rfl) hsplit hc hs
    have hnow : s₁.nowMs = s.nowMs := (Later.run hrun).nowMs
    have hout₁ : ∀ j m, d[j]? = some m → ∀ x ∈ beh (j + 1), x.Outside s.nowMs m :=
      fun j m hm => hout (j + 1) m hm
    rw [← hnow] at hd hc₁ hout₁
    obtain ⟨fired, hfired, hids, hlive, hkeep'⟩ := ih (hnodes.trans (List.append_cons a₁ n _)) hd
      hc₁ hout₁ hs₁ (Nat.le_of_succ_le_succ hk) (Nat.lt_of_succ_lt_succ hfuel)
    rw [hnow] at hfired
    rw [BehavesAs.succ]
    refine ⟨_, fireTimers_fire hsplit hn he hrun hnodes hfired, ?_, hlive,
      fun m hm => hkeep' m (hkeep m hm)⟩
    rw [List.map_cons, ← hids]

end Outside

/-! ## The second loop -/

section Live

variable {s : Poller} {n : Node ℕ EntryPtr}

theorem Poller.Live.expireTimer (h : s.Live) (hn : n ∈ s.timers.nodes) :
    ∃ s' effects, s.expireTimer n.id = .ok (s', effects) ∧ s'.Live ∧
      ∀ m ∈ s.timers.nodes, m ≠ n → m ∈ s'.timers.nodes := by
  obtain ⟨e, he⟩ := h.entry n hn
  obtain ⟨a, b, hsplit⟩ := List.append_of_mem hn
  obtain ⟨m, herase, hnodes, -⟩ := Multimap.erase_eq hsplit
  have hrest : ∀ c, c ∈ m.nodes ↔ c ∈ s.timers.nodes ∧ c ≠ n := fun c => by
    rw [hnodes, mem_rest_iff hsplit]
  have he₁ : Poller.entry { s with timers := m } n.val = .ok e := entry_ok.mpr he
  cases ht : e.t with
  | kTimerOnce =>
    have hrun : s.expireTimer n.id =
        .ok ((({ s with timers := m } : Poller).eraseId e.id).deleteEntry n.val,
          [.delete e.event]) := by
      rw [Poller.expireTimer]
      simp only [node, Multimap.get_eq hsplit, eraseTimer, herase, he₁, ok_bind, ht]
      rfl
    refine ⟨_, _, hrun, ⟨h.toApart.expireTimer hrun, ?_⟩, fun c hc hne => (hrest c).mpr ⟨hc, hne⟩⟩
    intro c hc
    obtain ⟨hcs, hne⟩ := (hrest c).mp hc
    obtain ⟨e', he'⟩ := h.entry c hcs
    refine ⟨e', ?_⟩
    change Function.update s.entries n.val none c.val = some e'
    rw [Function.update_of_ne fun hval => hne (h.eq_of_val hn hcs hval), he']
  | kTimerPermanent =>
    have hrun : s.expireTimer n.id =
        .ok (({ s with timers := m } : Poller).insertTimer (wordAdd s.nowMs e.timeout) n.val,
          []) := by
      rw [Poller.expireTimer]
      simp only [node, Multimap.get_eq hsplit, eraseTimer, herase, he₁, ok_bind, ht]
      rfl
    refine ⟨_, _, hrun, ⟨h.toApart.expireTimer hrun, ?_⟩,
      fun c hc hne => mem_insertNode.mpr (.inr ((hrest c).mpr ⟨hc, hne⟩))⟩
    intro c hc
    rcases mem_insertNode.mp hc with rfl | hc
    · exact ⟨e, he⟩
    · exact h.entry c ((hrest c).mp hc).1

theorem Poller.Live.expireTimers (d : List (Node ℕ EntryPtr)) : ∀ {s : Poller}, s.Live →
    d.Pairwise (fun a b => a.id ≠ b.id) → (∀ n ∈ d, n ∈ s.timers.nodes) →
    ∃ s' effects, s.expireTimers (d.map Node.id) = .ok (s', effects) := by
  induction d with
  | nil => exact fun _ _ _ => ⟨_, [], rfl⟩
  | cons n d ih =>
    intro s h hdistinct hmem
    obtain ⟨hn, hdistinct⟩ := List.pairwise_cons.mp hdistinct
    obtain ⟨s₁, effects, hrun, h₁, hkeep⟩ := h.expireTimer (hmem n List.mem_cons_self)
    have hmem₁ : ∀ m ∈ d, m ∈ s₁.timers.nodes := by
      intro m hm
      apply hkeep m (hmem m (List.mem_cons_of_mem _ hm))
      rintro rfl
      exact hn m hm rfl
    obtain ⟨s', more, hmore⟩ := ih h₁ hdistinct hmem₁
    refine ⟨s', effects ++ more, ?_⟩
    rw [List.map_cons, Poller.expireTimers, hrun]
    simp only [ok_bind, hmore]
    rfl

end Live

/-! ## What is fired -/

/-- The elements behind the iterator that are due are fired, if the first loop ends. -/
theorem Poller.fired_of_mem (fuel : ℕ) : ∀ {s : Poller} {a b : List (Node ℕ EntryPtr)}
    {calls : List (List TimerCall)} {fired : Fired} {m : Node ℕ EntryPtr},
    fireTimers fuel s (first b) calls = .ok fired → s.timers.nodes = a ++ b →
    (∀ l ∈ calls, ∃ xs : List NewTimer, l = xs.map (NewTimer.call s.nowMs)) → m ∈ b →
    m.key ≤ s.nowMs → m.id ∈ fired.delTimers := by
  induction fuel with
  | zero =>
    intro s a b calls fired m h
    cases h
  | succ fuel ih =>
    intro s a b calls fired m h hsplit hcalls hm hkey
    cases b with
    | nil => cases hm
    | cons n b =>
      have hsorted := s.timers.sorted
      rw [hsplit] at hsorted
      have hle : n.key ≤ m.key := by
        rcases List.mem_cons.mp hm with rfl | hm
        · exact le_rfl
        · exact (List.pairwise_cons.mp (List.pairwise_append.mp hsorted).2.1).1 m hm
      obtain ⟨fuel', e, s₁, effects, iter, rest, hfuel, -, hrun, hiter, hrest, rfl⟩ :=
        fireTimers_due_ok hsplit (hle.trans hkey) h
      obtain rfl := Nat.succ.inj hfuel
      rcases List.mem_cons.mp hm with rfl | hm
      · exact List.mem_cons_self
      obtain ⟨xs, hxs⟩ : ∃ xs : List NewTimer, calls.headD [] = xs.map (NewTimer.call s.nowMs) :=
        headD_of_forall (P := fun l => ∃ xs : List NewTimer, l = xs.map (NewTimer.call s.nowMs))
          ⟨[], rfl⟩ hcalls
      obtain ⟨s', effects', a', b', hrun', hnodes, hkeep, -⟩ := run_adds s.nowMs xs hsplit
      rw [hxs, hrun'] at hrun
      obtain ⟨rfl, -⟩ := Prod.mk.inj (Except.ok.inj hrun)
      obtain rfl := Option.some.inj ((next_eq hnodes).symm.trans hiter)
      have hnow : s'.nowMs = s.nowMs := (Later.run hrun').nowMs
      refine List.mem_cons_of_mem _ (ih hrest (hnodes.trans (List.append_cons a' n b')) ?_
        (hkeep m hm) (hnow ▸ hkey))
      intro l hl
      rw [hnow]
      exact hcalls l (List.mem_of_mem_tail hl)

/-- **If nothing new is fired**, all timers have been added outside the pass. -/
theorem Poller.outside_of_fired (d : List (Node ℕ EntryPtr)) :
    ∀ {s : Poller} {a c : List (Node ℕ EntryPtr)} {beh : ℕ → List NewTimer} {k fuel : ℕ}
      {fired : Fired}, fireTimers fuel s (first (d ++ c)) (BehavesAs s.nowMs beh k) = .ok fired →
      s.timers.nodes = a ++ (d ++ c) → (∀ m ∈ d, m.key ≤ s.nowMs) → (∀ m ∈ c, s.nowMs < m.key) →
      s.Live → fired.delTimers.length ≤ k → (∀ i ∈ fired.delTimers, i < s.timers.fresh) →
      ∀ j n, d[j]? = some n → ∀ x ∈ beh j, x.Outside s.nowMs n := by
  induction d with
  | nil =>
    intro s a c beh k fuel fired _ _ _ _ _ _ _ j n hn
    cases hn
  | cons n d ih =>
    intro s a c beh k fuel fired h hsplit hd hc hs hk hold
    obtain ⟨hn, hd⟩ := List.forall_mem_cons.mp hd
    obtain ⟨fuel, e, s₁, effects, iter, rest, rfl, -, hrun, hiter, hrest, rfl⟩ :=
      fireTimers_due_ok hsplit hn h
    obtain ⟨k, rfl⟩ : ∃ j, k = j + 1 := ⟨k - 1, by rw [List.length_cons] at hk; omega⟩
    obtain ⟨-, hold⟩ := List.forall_mem_cons.mp hold
    rw [BehavesAs.succ] at hrun hrest
    have hout : ∀ x ∈ beh 0, x.Outside s.nowMs n := by
      intro x hx
      by_contra hin
      rw [NewTimer.Outside, not_or, Nat.not_lt, Nat.not_lt] at hin
      obtain ⟨s', effects', a', b', hrun', hnodes, -, hnew⟩ := run_adds s.nowMs (beh 0) hsplit
      obtain ⟨rfl, -⟩ := Prod.mk.inj (Except.ok.inj (hrun'.symm.trans hrun))
      obtain rfl := Option.some.inj ((next_eq hnodes).symm.trans hiter)
      obtain ⟨m, hm, hkey, hid⟩ := hnew x hx hin.2
      have hnow : s'.nowMs = s.nowMs := (Later.run hrun').nowMs
      have hfired := fired_of_mem fuel hrest (hnodes.trans (List.append_cons a' n b'))
        (by
          intro l hl
          obtain ⟨j, -, rfl⟩ := List.mem_map.mp hl
          exact ⟨_, by rw [hnow]⟩) hm (by rw [hnow, hkey]; exact hin.1)
      exact absurd (hold _ hfired) (Nat.not_lt_of_le hid)
    obtain ⟨s', effects', a₁, c₁, hrun', hnodes, hc₁, hs₁, -⟩ :=
      run_outside s.nowMs (beh 0) hd hout hsplit hc hs
    obtain ⟨rfl, -⟩ := Prod.mk.inj (Except.ok.inj (hrun'.symm.trans hrun))
    obtain rfl := Option.some.inj ((next_eq hnodes).symm.trans hiter)
    have hlater := Later.run hrun'
    have hnow := hlater.nowMs
    rw [List.tail_cons, ← hnow] at hrest
    rw [← hnow] at hd hc₁
    intro j m hm
    cases j with
    | zero =>
      obtain rfl := Option.some.inj hm
      exact hout
    | succ j =>
      rw [← hnow]
      exact ih hrest (hnodes.trans (List.append_cons a₁ n _)) hd hc₁ hs₁
        (Nat.le_of_succ_le_succ hk) (fun i hi => (hold i hi).trans_le hlater.fresh) j m hm

/-! ## The pass -/

theorem Poller.PassEnds.of_outside {s : Poller} (h : s.Live) (beh : ℕ → List NewTimer)
    (hout : ∀ j n, s.due[j]? = some n → ∀ x ∈ beh j, x.Outside s.nowMs n) :
    s.PassEnds fun j => (beh j).map (NewTimer.call s.nowMs) := by
  have hsplit : s.timers.nodes = [] ++ (s.due ++ s.notDue) :=
    (List.takeWhile_append_dropWhile).symm
  have hdue : ∀ m ∈ s.due, m.key ≤ s.nowMs := fun m hm => le_of_mem_takeWhile_le hm
  have hnotDue : ∀ m ∈ s.notDue, s.nowMs < m.key :=
    fun m hm => lt_of_mem_dropWhile_le s.timers.sorted hm
  have hsub : s.due.Sublist s.timers.nodes := List.takeWhile_sublist _
  have hfuel : s.due.length < s.timers.nodes.length +
      (BehavesAs s.nowMs beh s.due.length).flatten.length + 1 := by
    have hlen := hsub.length_le
    omega
  obtain ⟨fired, hfired, hids, hlive, hkeep⟩ :=
    fireTimers_outside s.due hsplit hdue hnotDue hout h le_rfl hfuel
  obtain ⟨s', effects, hexpire⟩ := hlive.expireTimers s.due (s.timers.distinct.sublist hsub)
    fun n hn => hkeep n (hsub.subset hn)
  rw [← List.nil_append (s.due ++ s.notDue), ← hsplit] at hfired
  refine ⟨s.due.length, fired, s', effects, hfired, ?_, ?_, ?_⟩
  · rw [hids, List.length_map]
  · exact executeTimers_ok.mpr ⟨fired, effects, hfired, hids ▸ hexpire, rfl, rfl⟩
  · rw [hids]
    exact hsub.map _

theorem Poller.PassEnds.outside {s : Poller} (h : s.Live) (beh : ℕ → List NewTimer)
    (hends : s.PassEnds fun j => (beh j).map (NewTimer.call s.nowMs)) :
    ∀ j n, s.due[j]? = some n → ∀ x ∈ beh j, x.Outside s.nowMs n := by
  obtain ⟨k, fired, s', effects, hfired, hk, -, hsub⟩ := hends
  have hsplit : s.timers.nodes = [] ++ (s.due ++ s.notDue) :=
    (List.takeWhile_append_dropWhile).symm
  rw [begin_, hsplit, List.nil_append] at hfired
  refine outside_of_fired s.due hfired hsplit (fun m hm => le_of_mem_takeWhile_le hm)
    (fun m hm => lt_of_mem_dropWhile_le s.timers.sorted hm) h hk ?_
  intro i hi
  obtain ⟨n, hn, rfl⟩ := List.mem_map.mp (hsub.subset hi)
  exact s.timers.below n hn

/-- **When a pass ends without firing new timers.** Whatever timers its callbacks add while the
clock stands still: exactly if each has a key after `now_ms_`, or in front of the timer that is
being fired. -/
theorem pass_ends_iff {s : Poller} (h : s.Live) (beh : ℕ → List NewTimer) :
    (s.PassEnds fun j => (beh j).map (NewTimer.call s.nowMs)) ↔
      ∀ j n, s.due[j]? = some n → ∀ x ∈ beh j, x.Outside s.nowMs n :=
  ⟨Poller.PassEnds.outside h beh, Poller.PassEnds.of_outside h beh⟩

/-- A timer that is due at 10. -/
def oneTimer : Poller :=
  { (Poller.new 0).addTimer 0 10 7 .kTimerOnce |>.2.1 with nowMs := 10 }

theorem oneTimer_live : oneTimer.Live := by
  have h := (TimersOk.new 0).addTimer 0 10 7 .kTimerOnce rfl
  exact TimersOk.live ⟨h.entry, h.node, h.id, h.once, h.fresh⟩

/-- Its callback adds a timer for later. -/
theorem pass_ends_one_timer :
    oneTimer.PassEnds fun _ => [NewTimer.call 10 ⟨⟨5, by decide, by decide⟩, 8, .kTimerOnce⟩] := by
  refine (pass_ends_iff oneTimer_live
    fun _ => [⟨⟨5, by decide, by decide⟩, 8, .kTimerOnce⟩]).mpr ?_
  intro j n _ x hx
  obtain rfl := List.mem_singleton.mp hx
  exact .inl (by decide)

/-- Its callback adds it again with the timeout 0, over and over. -/
theorem pass_never_ends :
    ¬ oneTimer.PassEnds fun _ =>
      [NewTimer.call 10 ⟨⟨0, by decide, by decide⟩, 7, .kTimerOnce⟩] := by
  intro hends
  have hout := Poller.PassEnds.outside oneTimer_live
    (fun _ => [⟨⟨0, by decide, by decide⟩, 7, .kTimerOnce⟩]) hends 0 ⟨0, 10, 0⟩ rfl _
    (List.mem_singleton_self _)
  rcases hout with hlater | hbefore
  · exact absurd hlater (by decide)
  · exact absurd hbefore (by decide)

end ServerKit
