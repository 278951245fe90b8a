import ServerKit.Core.Verify.EventOwners

/-!
# The Events of timers in passes and runs

What a pass does to Events, step by step: its callbacks run, with the calls they make, and the
timers that have fired are worked off. Events are used as they should be afterwards if and only if
each of these steps meets the condition.
-/

namespace ServerKit

open Lib Multimap

namespace Poller

variable {past : List TimerEffect} {s s' : Poller} {effects : List TimerEffect}

/-! ## The first loop -/

theorem dueAt_first {a b : List (Node ℕ EntryPtr)} {n : Node ℕ EntryPtr}
    (hsplit : s.timers.nodes = a ++ n :: b) (hn : n.key ≤ s.nowMs) :
    s.dueAt (some n.id) = some n := by
  rw [dueAt, Option.bind_some, Multimap.get_eq hsplit]
  simp [Option.filter, hn]

theorem dueAt_stop {a b : List (Node ℕ EntryPtr)} (hsplit : s.timers.nodes = a ++ b)
    (hb : ∀ n ∈ b, s.nowMs < n.key) : s.dueAt (first b) = none := by
  cases b with
  | nil => rfl
  | cons n b =>
    change s.dueAt (some n.id) = none
    rw [dueAt, Option.bind_some, Multimap.get_eq hsplit]
    simp [Option.filter, hb n List.mem_cons_self]

section Along

variable {C : List EntryPtr → List TimerEffect → Poller → TimerCall → Prop}
  {E : Poller → EntryPtr → Prop} {fuel : ℕ} {busy : List EntryPtr} {iter : Option ℕ}
  {calls : List (List TimerCall)}

theorem alongPass_stop (hiter : s.dueAt iter = none) :
    AlongPass C E (fuel + 1) busy past s iter calls ↔ ∀ p ∈ busy, E s p := by
  constructor
  · intro h
    exact h.1 hiter
  · intro h
    refine ⟨fun _ => h, ?_⟩
    intro n e hn
    rw [hiter] at hn
    cases hn

theorem alongPass_fire {n : Node ℕ EntryPtr} {e : TimerEntry} {pos : Option ℕ}
    (hiter : s.dueAt iter = some n) (he : s.entries n.val = some e)
    (hrun : s.run (calls.headD []) = .ok (s', effects)) (hpos : s'.timers.next n.id = some pos) :
    AlongPass C E (fuel + 1) busy past s iter calls ↔
      s.AlongRun C (n.val :: busy) (past ++ [.timeout e.event]) (calls.headD []) ∧
        AlongPass C E fuel (n.val :: busy) (past ++ .timeout e.event :: effects) s' pos
          calls.tail := by
  constructor
  · intro h
    obtain ⟨hcalls, hrest⟩ := h.2 n e hiter he
    exact ⟨hcalls, hrest s' effects pos hrun hpos⟩
  · rintro ⟨hcalls, hrest⟩
    refine ⟨?_, ?_⟩
    · intro hnone
      rw [hiter] at hnone
      cases hnone
    · intro n' e' hn' he'
      obtain rfl := Option.some.inj (hiter.symm.trans hn')
      obtain rfl := Option.some.inj (he.symm.trans he')
      refine ⟨hcalls, ?_⟩
      intro s₁ effects₁ pos₁ hrun₁ hpos₁
      obtain ⟨rfl, rfl⟩ := Prod.mk.inj (Except.ok.inj (hrun.symm.trans hrun₁))
      obtain rfl := Option.some.inj (hpos.symm.trans hpos₁)
      exact hrest

end Along

/-- **The first loop** is over when the elements `d` and then `d'` have fired. -/
theorem AlongPass.fires (fuel : ℕ) : ∀ {s : Poller} {past' : List TimerEffect}
    {busy : List EntryPtr} {a b d : List (Node ℕ EntryPtr)} {calls : List (List TimerCall)}
    (past : List TimerEffect),
    AlongPass (fun busy _ s c => s.SoundCall busy c) (fun _ _ => True) fuel busy past' s (first b)
      calls → TimersOk s → s.timers.nodes = a ++ b → d.Sublist a →
    (∀ p, p ∈ busy ↔ ∃ n ∈ d, n.val = p) → b.length + calls.flatten.length < fuel →
    ∃ fired d', fireTimers fuel s (first b) calls = .ok fired ∧ TimersOk fired.poller ∧
      fired.delTimers = d'.map Node.id ∧ (d ++ d').Sublist fired.poller.timers.nodes ∧
      (fired.poller.Clean (past ++ fired.effects) ∧
          (∀ n ∈ d ++ d', fired.poller.Removable n.val) ↔
        s.Clean past ∧ AlongPass (fun _ past s c => s.OwnsCall past c) Removable fuel busy past s
          (first b) calls) := by
  induction fuel with
  | zero =>
    intro s past' busy a b d calls past _ _ _ _ _ hfuel
    exact absurd hfuel (Nat.not_lt_zero _)
  | succ fuel ih =>
    intro s past' busy a b d calls past hsound h hsplit hd hbusy hfuel
    by_cases hb : ∀ n ∈ b, s.nowMs < n.key
    · have hstop := fireTimers_stop fuel calls hsplit hb
      refine ⟨_, [], hstop, h, rfl, ?_, ?_⟩
      · rw [List.append_nil, hsplit]
        exact hd.trans (List.sublist_append_left a b)
      · rw [alongPass_stop (dueAt_stop hsplit hb), List.append_nil, List.append_nil]
        refine and_congr_right fun _ => ⟨?_, ?_⟩
        · intro hall p hp
          obtain ⟨n, hn, rfl⟩ := (hbusy p).mp hp
          exact hall n hn
        · intro hall n hn
          exact hall _ ((hbusy _).mpr ⟨n, hn, rfl⟩)
    · cases b with
      | nil => exact absurd (fun n hn => absurd hn List.not_mem_nil) hb
      | cons n b =>
        have hkey : n.key ≤ s.nowMs := by
          by_contra hlt
          have hsorted := s.timers.sorted
          rw [hsplit] at hsorted
          obtain ⟨hle, -⟩ := List.pairwise_cons.mp (List.pairwise_append.mp hsorted).2.1
          refine hb fun m hm => ?_
          rcases List.mem_cons.mp hm with rfl | hm
          · exact Nat.lt_of_not_le hlt
          · exact (Nat.lt_of_not_le hlt).trans_le (hle m hm)
        have hn : n ∈ s.timers.nodes := by rw [hsplit]; simp
        obtain ⟨e, he, -⟩ := h.entry_of_mem hn
        have hdue := dueAt_first hsplit hkey
        obtain ⟨hcalls, hrest⟩ := hsound.2 n e hdue he
        have hin : ∀ m ∈ d, m.val ∈ n.val :: busy := fun m hm =>
          List.mem_cons_of_mem _ ((hbusy _).mpr ⟨m, hm, rfl⟩)
        obtain ⟨s₁, effects, hrun, h₁, -, hclean₁, a₁, b₁, hsplit₁, hd₁, hlen⟩ :=
          hcalls.spec List.mem_cons_self hin _ (past ++ [.timeout e.event]) h
            ⟨a, b, hsplit, hd, le_rfl⟩
        have hnext := next_eq hsplit₁
        have hfuel₁ : b₁.length + calls.tail.flatten.length < fuel := by
          rw [flatten_eq_headD calls, List.length_append, List.length_cons] at hfuel
          omega
        have hbusy₁ : ∀ p, p ∈ n.val :: busy ↔ ∃ m ∈ d ++ [n], m.val = p := by
          intro p
          rw [List.mem_cons, hbusy p]
          simp only [List.mem_append, List.mem_singleton]
          constructor
          · rintro (rfl | ⟨m, hm, rfl⟩)
            · exact ⟨n, .inr rfl, rfl⟩
            · exact ⟨m, .inl hm, rfl⟩
          · rintro ⟨m, hm | rfl, rfl⟩
            · exact .inr ⟨m, hm, rfl⟩
            · exact .inl rfl
        obtain ⟨fired, d', hfired, hok, hdel, hsub, hclean⟩ :=
          ih (past ++ .timeout e.event :: effects) (hrest s₁ effects _ hrun hnext) h₁
            (hsplit₁.trans (List.append_cons a₁ n b₁)) (hd₁.append_right [n]) hbusy₁ hfuel₁
        refine ⟨_, n :: d', fireTimers_fire hsplit hkey he hrun hsplit₁ hfired, hok, ?_, ?_, ?_⟩
        · rw [List.map_cons, ← hdel]
        · rwa [List.append_cons]
        · change fired.poller.Clean (past ++ (.timeout e.event :: effects ++ fired.effects)) ∧ _ ↔
            s.Clean past ∧ AlongPass _ _ _ _ _ _ (some n.id) _
          rw [List.append_assoc, List.singleton_append] at hclean₁
          rw [← List.append_assoc, List.append_cons d, hclean, hclean₁, clean_timeout hn he,
            and_assoc, ← alongPass_fire hdue he hrun hnext]

/-! ## The second loop -/

section Second

variable {n : Node ℕ EntryPtr} {d : List (Node ℕ EntryPtr)} {e : TimerEntry}

/-- A one-shot timer is removed in front of others. -/
theorem removable_once (h : TimersOk s) (he : s.entries n.val = some e) (ht : e.t = .kTimerOnce)
    {id : ℕ} (hw : s.Without s' id n.val) (hd : ∀ m ∈ d, m ∈ s.timers.nodes ∧ m.val ≠ n.val) :
    s.SoleOwner n.val ∧ (∀ m ∈ d, s'.Removable m.val) ↔ ∀ m ∈ n :: d, s.Removable m.val := by
  have hentry : ∀ p, p ≠ n.val → s'.entries p = s.entries p := by
    intro p hp
    rw [hw.entries, Function.update_of_ne hp]
  constructor
  · rintro ⟨howner, hall⟩ m hm
    rcases List.mem_cons.mp hm with rfl | hm
    · exact fun _ _ _ => howner
    · obtain ⟨hms, hne⟩ := hd m hm
      intro f hf honce g hg x hx hxm y hy
      obtain rfl := Option.some.inj (hf.symm.trans hg)
      by_cases hxn : x.val = n.val
      · rw [hxn] at hy
        obtain rfl := Option.some.inj (he.symm.trans hy)
        exact (howner _ he m hms hne _ hf).symm
      · have hxs : x ∈ s'.timers.nodes := (hw.mem_iff h).mpr ⟨hx, hxn⟩
        exact hall m hm _ ((hentry _ hne).trans hf) honce _ ((hentry _ hne).trans hf) x hxs hxm y
          ((hentry _ hxn).trans hy)
  · intro hall
    refine ⟨hall n List.mem_cons_self e he ht, ?_⟩
    intro m hm f hf honce g hg x hx hxm y hy
    obtain ⟨hxs, hxn⟩ := (hw.mem_iff h).mp hx
    rw [hentry _ (hd m hm).2] at hf hg
    rw [hentry _ hxn] at hy
    exact hall m (List.mem_cons_of_mem _ hm) f hf honce g hg x hxs hxm y hy

/-- The elements of `timers_` point to the same entries as before. -/
theorem rearms_forall (hn : n ∈ s.timers.nodes) {key : ℕ} (hr : s.Rearms s' n key)
    (P : EntryPtr → Prop) : (∀ x ∈ s'.timers.nodes, P x.val) ↔ ∀ x ∈ s.timers.nodes, P x.val := by
  constructor
  · intro hall x hx
    by_cases hxn : x = n
    · have hagain := hall _ (hr.mem_iff.mpr (.inl rfl))
      rwa [hxn]
    · exact hall x (hr.mem_iff.mpr (.inr ⟨hx, hxn⟩))
  · intro hall x hx
    rcases hr.mem_iff.mp hx with rfl | ⟨hx, -⟩
    · exact hall n hn
    · exact hall x hx

theorem clean_rearms (hn : n ∈ s.timers.nodes) {key : ℕ} (hr : s.Rearms s' n key) :
    s'.Clean past ↔ s.Clean past := by
  have halive := rearms_forall hn hr fun p =>
    ∀ e, s.entries p = some e → .delete e.event ∉ past
  constructor
  · intro h
    exact ⟨h.deleted, halive.mp (hr.entries ▸ h.alive)⟩
  · intro h
    refine ⟨h.deleted, ?_⟩
    rw [hr.entries]
    exact halive.mpr h.alive

/-- A permanent timer is inserted again in front of others. -/
theorem removable_permanent (hn : n ∈ s.timers.nodes) (he : s.entries n.val = some e)
    (ht : e.t = .kTimerPermanent) {key : ℕ} (hr : s.Rearms s' n key) :
    (∀ m ∈ d, s'.Removable m.val) ↔ ∀ m ∈ n :: d, s.Removable m.val := by
  have hsame : ∀ p, s'.Removable p ↔ s.Removable p := by
    intro p
    unfold Removable SoleOwner
    rw [hr.entries]
    refine forall_congr' fun e => imp_congr_right fun _ => imp_congr_right fun _ =>
      forall_congr' fun f => imp_congr_right fun _ => ?_
    exact rearms_forall hn hr fun q => q ≠ p → ∀ g, s.entries q = some g → g.event ≠ f.event
  rw [List.forall_mem_cons]
  simp only [hsame]
  refine (and_iff_right ?_).symm
  intro f hf honce
  obtain rfl := Option.some.inj (he.symm.trans hf)
  rw [ht] at honce
  cases honce

end Second

/-- **The second loop.** -/
theorem expireTimers_clean (d : List (Node ℕ EntryPtr)) : ∀ {s : Poller} (past : List TimerEffect),
    TimersOk s → d.Pairwise (fun a b => a.id ≠ b.id) → (∀ n ∈ d, n ∈ s.timers.nodes) →
    ∃ s' effects, s.expireTimers (d.map Node.id) = .ok (s', effects) ∧ TimersOk s' ∧
      (s'.Clean (past ++ effects) ↔ s.Clean past ∧ ∀ n ∈ d, s.Removable n.val) := by
  induction d with
  | nil =>
    intro s past h _ _
    refine ⟨s, [], rfl, h, ?_⟩
    rw [List.append_nil]
    exact (and_iff_left fun n hn => absurd hn List.not_mem_nil).symm
  | cons n d ih =>
    intro s past h hdistinct hmem
    obtain ⟨hne, hdistinct⟩ := List.pairwise_cons.mp hdistinct
    have hn := hmem n List.mem_cons_self
    obtain ⟨a, b, hsplit⟩ := List.append_of_mem hn
    obtain ⟨e, s₁, effects, he, hid, hrun, h₁, hcases⟩ := h.expireTimer hsplit
    obtain ⟨hd, hd₁⟩ := h.behind hsplit hcases hne fun m hm => hmem m (List.mem_cons_of_mem _ hm)
    obtain ⟨s', more, hmore, h', hclean⟩ := ih (past ++ effects) h₁ hdistinct hd₁
    refine ⟨s', effects ++ more, ?_, h', ?_⟩
    · rw [List.map_cons, Poller.expireTimers, hrun]
      simp only [ok_bind, hmore]
      rfl
    · rw [← List.append_assoc, hclean]
      rcases hcases with ⟨ht, hw, rfl⟩ | ⟨ht, hr, rfl⟩
      · rw [clean_remove he ⟨n, hn, rfl⟩ (fun m => hw.mem_iff h) hw.entries, and_assoc,
          removable_once h he ht hw hd]
      · rw [List.append_nil, removable_permanent hn he ht hr, clean_rearms hn hr]

/-! ## Passes and runs -/

theorem det {e : TimerEvent} {s₁ s₂ : Poller} (h₁ : PollerStep s e s₁) (h₂ : PollerStep s e s₂) :
    s₁ = s₂ := by
  cases h₁ with
  | addTimer h₁ =>
    cases h₂ with
    | addTimer h₂ => exact (Prod.mk.inj (Prod.mk.inj (h₁.symm.trans h₂)).2).1
  | cancelTimer h₁ =>
    cases h₂ with
    | cancelTimer h₂ => exact (Prod.mk.inj (Except.ok.inj (h₁.symm.trans h₂))).1
  | executeTimers h₁ =>
    cases h₂ with
    | executeTimers h₂ =>
      exact (Prod.mk.inj (Prod.mk.inj (Except.ok.inj (h₁.symm.trans h₂))).2).1

/-- **A pass** returns. -/
theorem SoundPass.spec {calls : List (List TimerCall)} (hsound : s.SoundPass calls) (h : TimersOk s)
    (past : List TimerEffect) :
    ∃ res s' effects, s.executeTimers calls = .ok (res, s', effects) ∧ TimersOk s' ∧
      (s'.Clean (past ++ effects) ↔ s.Clean past ∧ s.OwnsPass past calls) := by
  obtain ⟨fired, d, hfired, hok, hdel, hd, hclean⟩ :=
    AlongPass.fires (a := []) (b := s.timers.nodes) (d := []) _ past hsound h rfl
      (List.nil_sublist _) (by simp) (Nat.lt_succ_self _)
  rw [List.nil_append] at hd
  obtain ⟨s', effects, hexpire, h', hclean'⟩ := expireTimers_clean d (past ++ fired.effects)
    hok (fired.poller.timers.distinct.sublist hd) fun n hn => hd.subset hn
  rw [← hdel] at hexpire
  refine ⟨fired.res, s', fired.effects ++ effects,
    executeTimers_ok.mpr ⟨fired, effects, hfired, hexpire, rfl, rfl⟩, h', ?_⟩
  rw [← List.append_assoc, hclean']
  exact hclean

/-- **A step.** -/
theorem Sound.step {e : TimerEvent} (hs : Lts.restrict PollerStep Poller.Sound s e s')
    (h : TimersOk s) (past : List TimerEffect) :
    TimersOk s' ∧ (s'.Clean (past ++ e.effects) ↔ s.Clean past ∧ Poller.Owns (past, s) e) := by
  obtain ⟨hsound, hs⟩ := hs
  cases hs with
  | @addTimer _ _ currentMs timeout event t id effects hrun =>
    have hc : s.SoundCall [] (.addTimer currentMs timeout event t) := hsound
    obtain ⟨s₁, effects₁, hcall, h₁, -, hclean, -⟩ := hc.spec h past
    rw [call, hrun] at hcall
    obtain ⟨rfl, rfl⟩ := Prod.mk.inj (Except.ok.inj hcall)
    exact ⟨h₁, hclean⟩
  | @cancelTimer _ _ id effects hrun =>
    have hc : s.SoundCall [] (.cancelTimer id) := hsound
    obtain ⟨s₁, effects₁, hcall, h₁, -, hclean, -⟩ := hc.spec h past
    obtain ⟨rfl, rfl⟩ := Prod.mk.inj (Except.ok.inj (hrun.symm.trans hcall))
    exact ⟨h₁, hclean⟩
  | @executeTimers _ _ now calls res effects hrun =>
    have hnow : TimersOk { s with nowMs := now } := ⟨h.entry, h.node, h.id, h.once, h.fresh⟩
    obtain ⟨res₁, s₁, effects₁, hpass, h₁, hclean⟩ := SoundPass.spec hsound hnow past
    obtain ⟨-, heq⟩ := Prod.mk.inj (Except.ok.inj (hrun.symm.trans hpass))
    obtain ⟨rfl, rfl⟩ := Prod.mk.inj heq
    refine ⟨h₁, hclean.trans (and_congr_left fun _ => ?_)⟩
    exact ⟨fun hc => ⟨hc.deleted, hc.alive⟩, fun hc => ⟨hc.deleted, hc.alive⟩⟩

theorem Owns.cons {x y : List TimerEffect × Poller} {e : TimerEvent} {es : List TimerEvent}
    (howns : Poller.Owns x e) (hs : PollerStep x.2 e s')
    (hrest : Run (Lts.restrict PastStep Poller.Owns) (x.1 ++ e.effects, s') es y) :
    Run (Lts.restrict PastStep Poller.Owns) x (e :: es) y :=
  .cons ⟨howns, hs, rfl⟩ hrest

/-- **A run.** -/
theorem Sound.run {es : List TimerEvent} (hrun : Run (Lts.restrict PollerStep Poller.Sound) s es s')
    (h : TimersOk s) : ∀ past, TimersOk s' ∧ (s'.Clean (past ++ es.flatMap TimerEvent.effects) ↔
      s.Clean past ∧ Run (Lts.restrict PastStep Poller.Owns) (past, s) es
        (past ++ es.flatMap TimerEvent.effects, s')) := by
  induction hrun with
  | nil s =>
    intro past
    rw [List.flatMap_nil, List.append_nil]
    exact ⟨h, (and_iff_left (.nil _)).symm⟩
  | @cons s s₁ s' e es hs hrest ih =>
    intro past
    obtain ⟨h₁, hclean₁⟩ := Sound.step hs h past
    obtain ⟨h', hclean'⟩ := ih h₁ (past ++ e.effects)
    refine ⟨h', ?_⟩
    rw [List.flatMap_cons, ← List.append_assoc, hclean', hclean₁, and_assoc]
    refine and_congr_right fun _ => ⟨?_, ?_⟩
    · rintro ⟨howns, hmore⟩
      exact howns.cons hs.2 hmore
    · intro hmore
      cases hmore with
      | @cons _ y _ _ _ hfirst hmore =>
        obtain ⟨howns, hstep, hpast⟩ := hfirst
        obtain rfl : y = (past ++ e.effects, s₁) := Prod.ext hpast (det hstep hs.2)
        exact ⟨howns, hmore⟩

/-- A timer that is not where `CancelTimer` looks for it loses its entry and keeps its element, or
nothing is found. -/
theorem cancelTimer_unsafe (h : TimersOk s) {id : ℕ} (hl : ¬ s.Locates id)
    (hrun : s.cancelTimer id = .ok (s', effects)) : ¬ s'.EventsSafe (past ++ effects) := by
  intro hsafe
  refine hl fun p e hp he => ?_
  rcases cancelTimer_ok hrun with ⟨-, -, hnone⟩ | ⟨p', e', i, m, hp', he', herase, rfl, -⟩
  · rw [hp] at hnone
    cases hnone
  · obtain rfl := Option.some.inj (hp.symm.trans hp')
    obtain ⟨n, hn, rfl⟩ := h.node id p hp
    obtain ⟨a, n', b, hsplit, hid, hnodes, -⟩ := exists_of_erase herase
    by_cases hne : n' = n
    · -- it is the element of the timer that has been erased
      subst hne
      refine h.locates_of_cancels ⟨_, _, hrun, ?_⟩ n'.val e hp he
      rw [hp]
      exact ⟨⟨a, n', b, hsplit, rfl, hnodes⟩, rfl, rfl, rfl, rfl, rfl⟩
    · have hleft : n ∈ m.nodes := by
        rw [hnodes, mem_rest_iff hsplit]
        exact ⟨hn, fun heq => hne heq.symm⟩
      obtain ⟨f, hf, -⟩ := hsafe.timers n hleft
      change Function.update s.entries n.val none n.val = some f at hf
      rw [Function.update_self] at hf
      cases hf

end Poller

/-- **When Events are used as they should be.** Take a run of `AddTimer`, `CancelTimer` and
`executeTimers` in which no timer is given the id of a pending one, and every timer cancelled is
where `CancelTimer` looks for it and has not fired in the pass. Every further such call returns; and
Events are used as they should be if and only if no timer has been given an Event that had been
deleted, and none has been removed while another had its Event. Where `CancelTimer` does not find
its timer they are not. -/
theorem events_safe_iff {nowMs : ℕ} {es : List TimerEvent} {s : Poller}
    (hrun : Run (Lts.restrict PollerStep Poller.Sound) (.new nowMs) es s) :
    (s.EventsSafe (es.flatMap TimerEvent.effects) ↔
        Run (Lts.restrict PastStep Poller.Owns) ([], .new nowMs) es
          (es.flatMap TimerEvent.effects, s)) ∧
      (∀ c, s.SoundCall [] c → ∃ s' effects, s.call c = .ok (s', effects)) ∧
      (∀ now calls, Poller.SoundPass { s with nowMs := now } calls → ∃ res s' effects,
        Poller.executeTimers { s with nowMs := now } calls = .ok (res, s', effects)) ∧
      ∀ id s' effects, ¬ s.Locates id → s.cancelTimer id = .ok (s', effects) →
        ¬ s'.EventsSafe (es.flatMap TimerEvent.effects ++ effects) := by
  obtain ⟨h, hclean⟩ := Poller.Sound.run hrun (.new nowMs) []
  refine ⟨?_, ?_, ?_, ?_⟩
  · rw [Poller.eventsSafe_iff h]
    refine hclean.trans (and_iff_right ⟨.nil, ?_⟩)
    intro n hn
    cases hn
  · intro c hc
    obtain ⟨s', effects, hcall, -⟩ := hc.spec h []
    exact ⟨s', effects, hcall⟩
  · intro now calls hsound
    obtain ⟨res, s', effects, hpass, -⟩ :=
      hsound.spec ⟨h.entry, h.node, h.id, h.once, h.fresh⟩ []
    exact ⟨res, s', effects, hpass⟩
  · intro id s' effects hl hcancel
    exact Poller.cancelTimer_unsafe h hl hcancel

/-- Two permanent timers with one Event, and two one-shot timers with Events of their own; all but
the last are due at 10. -/
def sharedTimers : Poller :=
  let s := ((Poller.new 0).addTimer 0 10 7 .kTimerPermanent).2.1
  let s := (s.addTimer 0 10 7 .kTimerPermanent).2.1
  let s := (s.addTimer 0 10 8 .kTimerOnce).2.1
  (s.addTimer 0 20 9 .kTimerOnce).2.1

/-- The first callback registers its own Event again, and the second cancels the last timer. -/
theorem events_safe_iff_shared :
    ∃ s, Run PollerStep (.new 0)
      [.addTimer 0 10 7 .kTimerPermanent 1 [.setTimerId 7 1],
        .addTimer 0 10 7 .kTimerPermanent 2 [.setTimerId 7 2],
        .addTimer 0 10 8 .kTimerOnce 3 [.setTimerId 8 3],
        .addTimer 0 20 9 .kTimerOnce 4 [.setTimerId 9 4],
        .executeTimers 10 [[.addTimer 10 20 7 .kTimerPermanent], [.cancelTimer 4]] 20
          [.timeout 7, .setTimerId 7 5, .timeout 7, .delete 9, .timeout 8, .delete 8]] s ∧
      s.EventsSafe [.setTimerId 7 1, .setTimerId 7 2, .setTimerId 8 3, .setTimerId 9 4, .timeout 7,
        .setTimerId 7 5, .timeout 7, .delete 9, .timeout 8, .delete 8] := by
  set calls : List (List TimerCall) := [[.addTimer 10 20 7 .kTimerPermanent], [.cancelTimer 4]]
  have hfuel : sharedTimers.timers.nodes.length + calls.flatten.length + 1 = 7 := rfl
  have hsound : Poller.SoundPass { sharedTimers with nowMs := 10 } calls := by
    unfold Poller.SoundPass Poller.AlongTimers
    rw [hfuel]
    refine Iff.mpr (Poller.alongPass_fire (by rfl) (by rfl) (by rfl) (by rfl)) ⟨?_, ?_⟩
    · exact ⟨rfl, fun _ _ _ => trivial⟩
    refine Iff.mpr (Poller.alongPass_fire (by rfl) (by rfl) (by rfl) (by rfl)) ⟨?_, ?_⟩
    · refine ⟨⟨?_, ?_⟩, fun _ _ _ => trivial⟩
      · intro p e hp he
        cases hp
        cases he
        exact ⟨[⟨0, 10, 0⟩, ⟨1, 10, 1⟩, ⟨2, 10, 2⟩], ⟨3, 20, 3⟩, [⟨4, 30, 4⟩], rfl, rfl, .inl rfl⟩
      · intro p hp
        cases hp
        decide
    · refine Iff.mpr (Poller.alongPass_fire (by rfl) (by rfl) (by rfl) (by rfl)) ⟨trivial, ?_⟩
      exact Iff.mpr (Poller.alongPass_stop (by rfl)) fun _ _ => trivial
  have howns : Poller.OwnsPass [.setTimerId 7 1, .setTimerId 7 2, .setTimerId 8 3, .setTimerId 9 4]
      { sharedTimers with nowMs := 10 } calls := by
    unfold Poller.OwnsPass Poller.AlongTimers
    rw [hfuel]
    refine Iff.mpr (Poller.alongPass_fire (by rfl) (by rfl) (by rfl) (by rfl)) ⟨?_, ?_⟩
    · refine ⟨?_, fun _ _ _ => trivial⟩
      change TimerEffect.delete 7 ∉ _
      decide
    refine Iff.mpr (Poller.alongPass_fire (by rfl) (by rfl) (by rfl) (by rfl)) ⟨?_, ?_⟩
    · refine ⟨?_, fun _ _ _ => trivial⟩
      intro p hp
      cases hp
      decide
    · refine Iff.mpr (Poller.alongPass_fire (by rfl) (by rfl) (by rfl) (by rfl)) ⟨trivial, ?_⟩
      refine Iff.mpr (Poller.alongPass_stop (by rfl)) ?_
      decide
  obtain ⟨res, s, effects, hpass⟩ : ∃ res s effects,
      Poller.executeTimers { sharedTimers with nowMs := 10 } calls = .ok (res, s, effects) :=
    ⟨_, _, _, rfl⟩
  have hresult : ((Poller.executeTimers { sharedTimers with nowMs := 10 } calls).toOption.map
      fun r => (r.1, r.2.2)) =
        some (20, [.timeout 7, .setTimerId 7 5, .timeout 7, .delete 9, .timeout 8, .delete 8]) := by
    decide
  rw [hpass] at hresult
  obtain ⟨rfl, rfl⟩ := Prod.mk.inj (Option.some.inj hresult)
  have hrun : Run (Lts.restrict PollerStep Poller.Sound) (.new 0)
      [.addTimer 0 10 7 .kTimerPermanent 1 [.setTimerId 7 1],
        .addTimer 0 10 7 .kTimerPermanent 2 [.setTimerId 7 2],
        .addTimer 0 10 8 .kTimerOnce 3 [.setTimerId 8 3],
        .addTimer 0 20 9 .kTimerOnce 4 [.setTimerId 9 4],
        .executeTimers 10 calls 20
          [.timeout 7, .setTimerId 7 5, .timeout 7, .delete 9, .timeout 8, .delete 8]] s :=
    .cons ⟨rfl, .addTimer rfl⟩ (.cons ⟨rfl, .addTimer rfl⟩ (.cons ⟨rfl, .addTimer rfl⟩
      (.cons ⟨rfl, .addTimer rfl⟩ (.single ⟨hsound, .executeTimers hpass⟩))))
  refine ⟨s, hrun.of_restrict, (events_safe_iff hrun).1.mpr ?_⟩
  refine Poller.Owns.cons List.not_mem_nil (.addTimer rfl) ?_
  refine Poller.Owns.cons (show TimerEffect.delete 7 ∉ _ by decide) (.addTimer rfl) ?_
  refine Poller.Owns.cons (show TimerEffect.delete 8 ∉ _ by decide) (.addTimer rfl) ?_
  refine Poller.Owns.cons (show TimerEffect.delete 9 ∉ _ by decide) (.addTimer rfl) ?_
  exact Poller.Owns.cons howns (.executeTimers hpass) (.nil _)

/-- Two one-shot timers with one Event fire in the same pass: it is deleted twice. -/
theorem events_shared :
    ∃ s, Run PollerStep (.new 0)
      [.addTimer 0 10 7 .kTimerOnce 1 [.setTimerId 7 1],
        .addTimer 0 10 7 .kTimerOnce 2 [.setTimerId 7 2],
        .executeTimers 10 [] 100 [.timeout 7, .timeout 7, .delete 7, .delete 7]] s ∧
      ¬ s.EventsSafe [.setTimerId 7 1, .setTimerId 7 2, .timeout 7, .timeout 7, .delete 7,
        .delete 7] := by
  refine ⟨_, .cons (.addTimer rfl) (.cons (.addTimer rfl) (.single (.executeTimers rfl))), ?_⟩
  rintro ⟨hdeleted, -⟩
  have hsub : [TimerEffect.delete 7, .delete 7].Sublist
      [.setTimerId 7 1, .setTimerId 7 2, .timeout 7, .timeout 7, .delete 7, .delete 7] := by decide
  exact (List.pairwise_cons.mp (hdeleted.sublist hsub)).1 _ (List.mem_singleton_self _) 7 rfl rfl

end ServerKit
