import ServerKit.Core.Verify.TimerPass

/-!
# Passes whose callbacks add and cancel timers

What `executeTimers` has done when it returns. Callbacks may have made any calls, so nothing is
assumed here but that the elements of `timers_` point to entries of their own (`Apart`): a pass that
has returned has worked off the elements that were due once all its callbacks had run.
-/

namespace ServerKit

open Lib Multimap

/-! ## Sequences of calls -/

namespace Poller

variable {s s' : Poller} {effects : List TimerEffect}

theorem run_cons_ok {c : TimerCall} {calls : List TimerCall}
    (h : s.run (c :: calls) = .ok (s', effects)) :
    ∃ s₁ effects₁ effects₂, s.call c = .ok (s₁, effects₁) ∧
      s₁.run calls = .ok (s', effects₂) ∧ effects = effects₁ ++ effects₂ := by
  unfold run at h
  obtain ⟨⟨s₁, effects₁⟩, hcall, h⟩ := bind_eq_ok.mp h
  obtain ⟨⟨s₂, effects₂⟩, hrun, h⟩ := bind_eq_ok.mp h
  obtain ⟨rfl, rfl⟩ := Prod.mk.inj (Except.ok.inj h)
  exact ⟨s₁, effects₁, effects₂, hcall, hrun, rfl⟩

theorem run_append {calls calls' : List TimerCall} :
    ∀ {s : Poller} {s₁ s₂ : Poller} {effects₁ effects₂ : List TimerEffect},
      s.run calls = .ok (s₁, effects₁) → s₁.run calls' = .ok (s₂, effects₂) →
      s.run (calls ++ calls') = .ok (s₂, effects₁ ++ effects₂) := by
  induction calls with
  | nil =>
    intro s s₁ s₂ effects₁ effects₂ h h'
    obtain ⟨rfl, rfl⟩ := Prod.mk.inj (Except.ok.inj h)
    exact h'
  | cons c calls ih =>
    intro s s₁ s₂ effects₁ effects₂ h h'
    obtain ⟨s₃, first, rest, hcall, hrun, rfl⟩ := run_cons_ok h
    rw [List.cons_append, run]
    simp only [hcall, ok_bind, ih hrun h', List.append_assoc]
    rfl

/-- **The rule for the calls of a callback**: what every call keeps holds when they are over. -/
theorem run_invariant (Inv : List TimerEffect → Poller → Prop) {calls : List TimerCall} :
    (∀ past s c s' effects, c ∈ calls → Inv past s → s.call c = .ok (s', effects) →
      Inv (past ++ effects) s') → ∀ (past : List TimerEffect) {s s' : Poller} {effects},
    Inv past s → s.run calls = .ok (s', effects) → Inv (past ++ effects) s' := by
  induction calls with
  | nil =>
    intro _ past s s' effects hinv h
    obtain ⟨rfl, rfl⟩ := Prod.mk.inj (Except.ok.inj h)
    rwa [List.append_nil]
  | cons c calls ih =>
    intro hcall past s s' effects hinv h
    obtain ⟨s₁, effects₁, effects₂, hfirst, hrun, rfl⟩ := run_cons_ok h
    have hinv₁ := hcall past s c s₁ effects₁ List.mem_cons_self hinv hfirst
    rw [← List.append_assoc]
    exact ih (fun past s x s' effects hx => hcall past s x s' effects (List.mem_cons_of_mem _ hx))
      (past ++ effects₁) hinv₁ hrun

end Poller

/-! ## The loops -/

namespace Poller

variable {s s' : Poller} {fuel : ℕ} {pos : Option ℕ} {calls : List (List TimerCall)}
  {fired : Fired} {effects : List TimerEffect}

/-- All that an iteration of the first loop can do. -/
theorem fireTimers_ok (h : fireTimers (fuel + 1) s pos calls = .ok fired) :
    pos = none ∧ fired = ⟨kDefaultTimeout, [], s, []⟩ ∨
      ∃ i n, pos = some i ∧ s.timers.get i = some n ∧
        (s.nowMs < n.key ∧ fired = ⟨intOfUint64 (wordSub n.key s.nowMs), [], s, []⟩ ∨
          n.key ≤ s.nowMs ∧ ∃ e s₁ effects iter rest, s.entries n.val = some e ∧
            s.run (calls.headD []) = .ok (s₁, effects) ∧ s₁.timers.next i = some iter ∧
            fireTimers fuel s₁ iter calls.tail = .ok rest ∧
            fired = { rest with
              delTimers := i :: rest.delTimers
              effects := .timeout e.event :: effects ++ rest.effects }) := by
  cases pos with
  | none => exact .inl ⟨rfl, (Except.ok.inj h).symm⟩
  | some i =>
    unfold fireTimers at h
    obtain ⟨n, hn, h⟩ := bind_eq_ok.mp h
    refine .inr ⟨i, n, rfl, node_ok.mp hn, ?_⟩
    by_cases hkey : s.nowMs < n.key
    · rw [if_pos hkey] at h
      exact .inl ⟨hkey, (Except.ok.inj h).symm⟩
    · rw [if_neg hkey] at h
      obtain ⟨e, he, h⟩ := bind_eq_ok.mp h
      obtain ⟨⟨s₁, effects⟩, hrun, h⟩ := bind_eq_ok.mp h
      obtain ⟨iter, hiter, h⟩ := bind_eq_ok.mp h
      obtain ⟨rest, hrest, h⟩ := bind_eq_ok.mp h
      exact .inr ⟨Nat.le_of_not_lt hkey, e, s₁, effects, iter, rest, entry_ok.mp he, hrun,
        next_ok.mp hiter, hrest, (Except.ok.inj h).symm⟩

/-- All that an iteration can do at an element. -/
theorem fireTimers_at_ok {a b : List (Node ℕ EntryPtr)} {n : Node ℕ EntryPtr}
    (hsplit : s.timers.nodes = a ++ n :: b)
    (h : fireTimers (fuel + 1) s (first (n :: b)) calls = .ok fired) :
    s.nowMs < n.key ∧ fired = ⟨intOfUint64 (wordSub n.key s.nowMs), [], s, []⟩ ∨
      n.key ≤ s.nowMs ∧ ∃ e s₁ effects iter rest, s.entries n.val = some e ∧
        s.run (calls.headD []) = .ok (s₁, effects) ∧ s₁.timers.next n.id = some iter ∧
        fireTimers fuel s₁ iter calls.tail = .ok rest ∧
        fired = { rest with
          delTimers := n.id :: rest.delTimers
          effects := .timeout e.event :: effects ++ rest.effects } := by
  rcases fireTimers_ok h with ⟨hpos, -⟩ | ⟨i, n', hpos, hget, hcases⟩
  · cases hpos
  obtain rfl : n.id = i := Option.some.inj hpos
  obtain rfl := Option.some.inj ((Multimap.get_eq hsplit).symm.trans hget)
  exact hcases

/-- What an iteration does at an element that is due. -/
theorem fireTimers_due_ok {a b : List (Node ℕ EntryPtr)} {n : Node ℕ EntryPtr}
    (hsplit : s.timers.nodes = a ++ n :: b) (hn : n.key ≤ s.nowMs)
    (h : fireTimers fuel s (first (n :: b)) calls = .ok fired) :
    ∃ fuel' e s₁ effects iter rest, fuel = fuel' + 1 ∧ s.entries n.val = some e ∧
      s.run (calls.headD []) = .ok (s₁, effects) ∧ s₁.timers.next n.id = some iter ∧
      fireTimers fuel' s₁ iter calls.tail = .ok rest ∧
      fired = { rest with
        delTimers := n.id :: rest.delTimers
        effects := .timeout e.event :: effects ++ rest.effects } := by
  cases fuel with
  | zero => cases h
  | succ fuel =>
    rcases fireTimers_at_ok hsplit h with ⟨hlt, -⟩ | ⟨-, e, s₁, effects, iter, rest, hfire⟩
    · exact absurd hn (Nat.not_le_of_lt hlt)
    · exact ⟨fuel, e, s₁, effects, iter, rest, rfl, hfire⟩

/-- The first loop stops in front of an element that is not due. -/
theorem fireTimers_stop {a b : List (Node ℕ EntryPtr)} (fuel : ℕ) (calls : List (List TimerCall))
    (hsplit : s.timers.nodes = a ++ b) (hb : ∀ n ∈ b, s.nowMs < n.key) :
    fireTimers (fuel + 1) s (first b) calls = .ok ⟨s.timeToNext b, [], s, []⟩ := by
  cases b with
  | nil => rfl
  | cons n b =>
    change fireTimers (fuel + 1) s (some n.id) calls = _
    rw [fireTimers, timeToNext]
    simp only [node, Multimap.get_eq hsplit, ok_bind, if_pos (hb n List.mem_cons_self)]

/-- It fires an element that is due, and goes on behind it. -/
theorem fireTimers_fire {a b a₁ b₁ : List (Node ℕ EntryPtr)} {n : Node ℕ EntryPtr} {e : TimerEntry}
    {s₁ : Poller} (hsplit : s.timers.nodes = a ++ n :: b) (hn : n.key ≤ s.nowMs)
    (he : s.entries n.val = some e) (hrun : s.run (calls.headD []) = .ok (s₁, effects))
    (hsplit₁ : s₁.timers.nodes = a₁ ++ n :: b₁)
    (hfired : fireTimers fuel s₁ (first b₁) calls.tail = .ok fired) :
    fireTimers (fuel + 1) s (some n.id) calls = .ok { fired with
      delTimers := n.id :: fired.delTimers
      effects := .timeout e.event :: effects ++ fired.effects } := by
  rw [fireTimers]
  simp only [node, Multimap.get_eq hsplit, entry, he, ok_bind, if_neg (Nat.not_lt_of_le hn), hrun,
    next, next_eq hsplit₁, hfired]
  rfl

theorem expireTimers_cons_ok {i : ℕ} {l : List ℕ}
    (h : s.expireTimers (i :: l) = .ok (s', effects)) :
    ∃ s₁ effects₁ effects₂, s.expireTimer i = .ok (s₁, effects₁) ∧
      s₁.expireTimers l = .ok (s', effects₂) ∧ effects = effects₁ ++ effects₂ := by
  unfold expireTimers at h
  obtain ⟨⟨s₁, effects₁⟩, hfirst, h⟩ := bind_eq_ok.mp h
  obtain ⟨⟨s₂, effects₂⟩, hrest, h⟩ := bind_eq_ok.mp h
  obtain ⟨rfl, rfl⟩ := Prod.mk.inj (Except.ok.inj h)
  exact ⟨s₁, effects₁, effects₂, hfirst, hrest, rfl⟩

/-- The two loops of `executeTimers` run one after the other; with no timers they do nothing. -/
theorem executeTimers_ok {res : ℤ} : s.executeTimers calls = .ok (res, s', effects) ↔
    ∃ fired effects₂, fireTimers (s.timers.nodes.length + calls.flatten.length + 1) s
        s.timers.begin_ calls = .ok fired ∧
      fired.poller.expireTimers fired.delTimers = .ok (s', effects₂) ∧ fired.res = res ∧
      fired.effects ++ effects₂ = effects := by
  unfold executeTimers
  split
  · rename_i hnil
    have hbegin : s.timers.begin_ = none := by
      rw [begin_, hnil]
      rfl
    rw [hbegin]
    constructor
    · intro h
      obtain ⟨rfl, heq⟩ := Prod.mk.inj (Except.ok.inj h)
      obtain ⟨rfl, rfl⟩ := Prod.mk.inj heq
      exact ⟨⟨kDefaultTimeout, [], s, []⟩, [], rfl, rfl, rfl, rfl⟩
    · rintro ⟨fired, effects₂, hfired, hexpire, rfl, rfl⟩
      obtain rfl := Except.ok.inj hfired
      obtain ⟨rfl, rfl⟩ := Prod.mk.inj (Except.ok.inj hexpire)
      rfl
  · constructor
    · intro h
      obtain ⟨fired, hfired, h⟩ := bind_eq_ok.mp h
      obtain ⟨⟨s₁, effects₂⟩, hexpire, h⟩ := bind_eq_ok.mp h
      obtain ⟨rfl, heq⟩ := Prod.mk.inj (Except.ok.inj h)
      obtain ⟨rfl, rfl⟩ := Prod.mk.inj heq
      exact ⟨fired, effects₂, hfired, hexpire, rfl, rfl⟩
    · rintro ⟨fired, effects₂, hfired, hexpire, rfl, rfl⟩
      rw [hfired, ok_bind, hexpire]
      rfl

/-- **The rule for a pass**: what firing a timer, every call of a callback and every iteration of
the second loop keep holds when the pass is over. `past` is what has been done to Events. -/
theorem executeTimers_invariant {res : ℤ} (Inv : List TimerEffect → Poller → Prop)
    (hfire : ∀ past s p e, Inv past s → s.entries p = some e → Inv (past ++ [.timeout e.event]) s)
    (hcall : ∀ past s c s' effects, c ∈ calls.flatten → Inv past s →
      s.call c = .ok (s', effects) → Inv (past ++ effects) s')
    (hexpire : ∀ past s i s' effects, Inv past s → s.expireTimer i = .ok (s', effects) →
      Inv (past ++ effects) s')
    (past : List TimerEffect) (hinv : Inv past s)
    (h : s.executeTimers calls = .ok (res, s', effects)) : Inv (past ++ effects) s' := by
  have hfirst : ∀ fuel {past s pos rest fired}, (∀ c ∈ List.flatten rest, c ∈ calls.flatten) →
      Inv past s → fireTimers fuel s pos rest = .ok fired →
      Inv (past ++ fired.effects) fired.poller := by
    intro fuel
    induction fuel with
    | zero =>
      intro past s pos rest fired _ _ h
      cases h
    | succ fuel ih =>
      intro past s pos rest fired hall hinv h
      rcases fireTimers_ok h with ⟨-, rfl⟩ | ⟨i, n, -, -, ⟨-, rfl⟩ | ⟨-, e, s₁, effects₁, iter,
        last, he, hrun, -, hlast, rfl⟩⟩
      · rwa [List.append_nil]
      · rwa [List.append_nil]
      · rw [flatten_eq_headD rest] at hall
        have hinv₁ := run_invariant Inv (fun past s c s' effects hc =>
          hcall past s c s' effects (hall c (List.mem_append_left _ hc))) _
          (hfire past s n.val e hinv he) hrun
        have hinv₂ := ih (fun c hc => hall c (List.mem_append_right _ hc)) hinv₁ hlast
        simpa [List.append_assoc] using hinv₂
  have hsecond : ∀ (l : List ℕ) {past s s' effects}, Inv past s →
      s.expireTimers l = .ok (s', effects) → Inv (past ++ effects) s' := by
    intro l
    induction l with
    | nil =>
      intro past s s' effects hinv h
      obtain ⟨rfl, rfl⟩ := Prod.mk.inj (Except.ok.inj h)
      rwa [List.append_nil]
    | cons i l ih =>
      intro past s s' effects hinv h
      obtain ⟨s₁, effects₁, effects₂, hone, hrest, rfl⟩ := expireTimers_cons_ok h
      rw [← List.append_assoc]
      exact ih (hexpire _ _ _ _ _ hinv hone) hrest
  obtain ⟨fired, effects₂, hloop, hrest, -, rfl⟩ := executeTimers_ok.mp h
  rw [← List.append_assoc]
  exact hsecond _ (hfirst _ (fun _ hc => hc) hinv hloop) hrest

end Poller

/-! ## Elements with entries of their own -/

/-- The elements of `timers_` point to different entries, which have been allocated. -/
structure Poller.Apart (s : Poller) : Prop where
  once : s.timers.nodes.Pairwise fun a b => a.val ≠ b.val
  below : ∀ n ∈ s.timers.nodes, n.val < s.nextEntry

namespace Poller.Apart

variable {s s' : Poller} {effects : List TimerEffect}

theorem new (nowMs : ℕ) : (Poller.new nowMs).Apart := ⟨.nil, nofun⟩

theorem eq_of_val (h : s.Apart) {n m : Node ℕ EntryPtr} (hn : n ∈ s.timers.nodes)
    (hm : m ∈ s.timers.nodes) (hval : m.val = n.val) : m = n := by
  obtain ⟨a, b, hsplit⟩ := List.append_of_mem hn
  have honce := h.once
  rw [hsplit] at honce hm
  obtain ⟨-, hcons, ha⟩ := List.pairwise_append.mp honce
  rcases List.mem_append.mp hm with hm | hm
  · exact absurd hval (ha m hm n List.mem_cons_self)
  · rcases List.mem_cons.mp hm with rfl | hm
    · rfl
    · exact absurd hval.symm ((List.pairwise_cons.mp hcons).1 m hm)

/-- Some elements are gone. -/
theorem of_sublist (h : s.Apart) (hnodes : s'.timers.nodes.Sublist s.timers.nodes)
    (hnext : s'.nextEntry = s.nextEntry) : s'.Apart := by
  refine ⟨h.once.sublist hnodes, ?_⟩
  intro n hn
  rw [hnext]
  exact h.below n (hnodes.subset hn)

/-- An element is inserted. -/
theorem of_insert (h : s.Apart) {n : Node ℕ EntryPtr}
    (hnodes : s'.timers.nodes = insertNode n s.timers.nodes)
    (hval : ∀ m ∈ s.timers.nodes, m.val ≠ n.val) (hnext : s.nextEntry ≤ s'.nextEntry)
    (hn : n.val < s'.nextEntry) : s'.Apart := by
  refine ⟨?_, ?_⟩
  · rw [hnodes]
    refine (List.Perm.pairwise_iff (fun h => h.symm) insertNode_perm).mpr
      (List.pairwise_cons.mpr ⟨?_, h.once⟩)
    intro m hm
    exact (hval m hm).symm
  · intro m hm
    rw [hnodes] at hm
    rcases mem_insertNode.mp hm with rfl | hm
    · exact hn
    · exact (h.below m hm).trans_le hnext

theorem addTimer (h : s.Apart) (currentMs : ℕ) (timeout : ℤ) (event : EventPtr) (t : TimerType) :
    (s.addTimer currentMs timeout event t).2.1.Apart :=
  h.of_insert rfl (fun m hm => (h.below m hm).ne) (Nat.le_succ _) (Nat.lt_succ_self _)

theorem cancelTimer (h : s.Apart) {id : ℕ} (hrun : s.cancelTimer id = .ok (s', effects)) :
    s'.Apart := by
  rcases cancelTimer_ok hrun with ⟨rfl, -⟩ | ⟨p, e, i, m, -, -, herase, rfl, -⟩
  · exact h
  · exact h.of_sublist (erase_sublist herase).1 rfl

theorem call (h : s.Apart) {c : TimerCall} (hrun : s.call c = .ok (s', effects)) : s'.Apart := by
  cases c with
  | addTimer currentMs timeout event t =>
    have heq := (Prod.mk.inj (Except.ok.inj hrun)).1
    exact heq ▸ h.addTimer currentMs timeout event t
  | cancelTimer id => exact h.cancelTimer hrun

theorem run (h : s.Apart) {calls : List TimerCall} (hrun : s.run calls = .ok (s', effects)) :
    s'.Apart :=
  run_invariant (fun _ s => s.Apart) (fun _ _ _ _ _ _ hinv hc => hinv.call hc) [] h hrun

theorem expireTimer (h : s.Apart) {i : ℕ} (hrun : s.expireTimer i = .ok (s', effects)) :
    s'.Apart := by
  obtain ⟨n, e, m, hget, -, herase, hcases⟩ := expireTimer_ok hrun
  obtain ⟨a, b, hsplit, hid⟩ := exists_of_get hget
  obtain ⟨a', n', b', hsplit', hid', hnodes, -⟩ := exists_of_erase herase
  have hsub := (erase_sublist herase).1
  rcases hcases with ⟨rfl, -⟩ | ⟨rfl, -⟩
  · exact h.of_sublist hsub rfl
  · have herased : Poller.Apart { s with timers := m } := h.of_sublist hsub rfl
    refine herased.of_insert rfl ?_ le_rfl ?_
    · have hmem : n' ∈ s.timers.nodes := by rw [hsplit']; simp
      have hmem' : n ∈ s.timers.nodes := by rw [hsplit]; simp
      obtain rfl := eq_of_id hmem hmem' (hid.trans hid'.symm)
      intro c hc
      change c ∈ m.nodes at hc
      rw [hnodes, mem_rest_iff hsplit'] at hc
      exact fun hval => hc.2 (h.eq_of_val hmem hc.1 hval)
    · exact h.below n (by rw [hsplit]; simp)

end Poller.Apart

/-! ## What calls leave of the elements -/

/-- `s'` comes after `s`: it has no elements but those of `s` and new ones. -/
structure Poller.Later (s s' : Poller) : Prop where
  fresh : s.timers.fresh ≤ s'.timers.fresh
  origin : ∀ m ∈ s'.timers.nodes, m ∈ s.timers.nodes ∨ s.timers.fresh ≤ m.id
  nowMs : s'.nowMs = s.nowMs

namespace Poller.Later

variable {s s₁ s' : Poller} {effects : List TimerEffect}

theorem refl (s : Poller) : s.Later s := ⟨le_rfl, fun _ hm => .inl hm, rfl⟩

theorem trans (h : s.Later s₁) (h' : s₁.Later s') : s.Later s' := by
  refine ⟨h.fresh.trans h'.fresh, ?_, h'.nowMs.trans h.nowMs⟩
  intro m hm
  rcases h'.origin m hm with hm | hm
  · exact h.origin m hm
  · exact .inr (h.fresh.trans hm)

/-- An element of `s` is still itself. -/
theorem eq_of_id (h : s.Later s') {n m : Node ℕ EntryPtr} (hn : n ∈ s.timers.nodes)
    (hm : m ∈ s'.timers.nodes) (hid : m.id = n.id) : m = n := by
  rcases h.origin m hm with hm | hm
  · exact Multimap.eq_of_id hn hm hid
  · have hlt := s.timers.below n hn
    omega

theorem call {c : TimerCall} (h : s.call c = .ok (s', effects)) : s.Later s' := by
  cases c with
  | addTimer currentMs timeout event t =>
    obtain rfl := (Prod.mk.inj (Except.ok.inj h)).1
    refine ⟨Nat.le_succ _, ?_, rfl⟩
    intro m hm
    rcases mem_insertNode.mp hm with rfl | hm
    · exact .inr le_rfl
    · exact .inl hm
  | cancelTimer id =>
    rcases cancelTimer_ok h with ⟨rfl, -⟩ | ⟨p, e, i, m, -, -, herase, rfl, -⟩
    · exact refl _
    · obtain ⟨hsub, hfresh⟩ := erase_sublist herase
      exact ⟨hfresh.ge, fun c hc => .inl (hsub.subset hc), rfl⟩

theorem run {calls : List TimerCall} (h : s.run calls = .ok (s', effects)) : s.Later s' :=
  run_invariant (fun _ t => s.Later t) (fun _ _ _ _ _ _ hlater hc => hlater.trans (call hc)) []
    (refl s) h

end Poller.Later

/-- No callback is run by the calls of another. -/
theorem Poller.run_fired {s s' : Poller} {calls : List TimerCall} {effects : List TimerEffect}
    (h : s.run calls = .ok (s', effects)) : effects.filterMap TimerEffect.fired = [] := by
  refine run_invariant (fun past _ => past.filterMap TimerEffect.fired = []) ?_ [] rfl h
  intro past s c s' effects _ hpast hcall
  rw [List.filterMap_append, hpast]
  cases c with
  | addTimer currentMs timeout event t =>
    obtain rfl := (Prod.mk.inj (Except.ok.inj hcall)).2
    rfl
  | cancelTimer id =>
    rcases cancelTimer_ok hcall with ⟨-, rfl, -⟩ | ⟨p, e, i, m, -, -, -, -, rfl⟩
    · rfl
    · rfl

/-- An `int` that is not negative. -/
def IsTimeout (timeout : ℤ) : Prop := 0 ≤ timeout ∧ timeout < 2 ^ 31

/-- The key of a timer to be added is not before `now`. -/
def TimerCall.KeyFrom (now : ℕ) : TimerCall → Prop
  | .addTimer currentMs timeout .. => now ≤ wordAdd currentMs (uint64OfInt timeout)
  | .cancelTimer _ => True

/-- Elements whose keys are not after `now` stay in front: they may only be erased. -/
theorem Poller.run_split {s s' : Poller} {calls : List TimerCall} {effects : List TimerEffect}
    {now : ℕ} {a b : List (Node ℕ EntryPtr)} (h : s.run calls = .ok (s', effects))
    (hcalls : ∀ c ∈ calls, c.KeyFrom now) (hsplit : s.timers.nodes = a ++ b)
    (ha : ∀ n ∈ a, n.key ≤ now) :
    ∃ a' b', s'.timers.nodes = a' ++ b' ∧ a'.Sublist a ∧
      ∀ m ∈ b', m ∈ b ∨ s.timers.fresh ≤ m.id := by
  have hinv := run_invariant (fun _ t => s.timers.fresh ≤ t.timers.fresh ∧
    ∃ a' b', t.timers.nodes = a' ++ b' ∧ a'.Sublist a ∧ ∀ m ∈ b', m ∈ b ∨ s.timers.fresh ≤ m.id)
    ?_ [] ⟨le_rfl, a, b, hsplit, List.Sublist.refl a, fun m hm => .inl hm⟩ h
  · exact hinv.2
  rintro past t c t' effects hc ⟨hfresh, a', b', hnodes, hsub, hb⟩ hcall
  refine ⟨hfresh.trans (Later.call hcall).fresh, ?_⟩
  cases c with
  | addTimer currentMs timeout event t₁ =>
    obtain rfl := (Prod.mk.inj (Except.ok.inj hcall)).1
    set n : Node ℕ EntryPtr :=
      ⟨t.timers.fresh, wordAdd currentMs (uint64OfInt timeout), t.nextEntry⟩ with hn
    have hkey : ∀ m ∈ a', m.key ≤ n.key := fun m hm =>
      (ha m (hsub.subset hm)).trans (hcalls _ hc)
    refine ⟨a', insertNode n b', ?_, hsub, ?_⟩
    · rw [← insertNode_append hkey, ← hnodes]
      rfl
    · intro m hm
      rcases mem_insertNode.mp hm with rfl | hm
      · exact .inr hfresh
      · exact hb m hm
  | cancelTimer id =>
    rcases cancelTimer_ok hcall with ⟨rfl, -⟩ | ⟨p, e, i, m, -, -, herase, rfl, -⟩
    · exact ⟨a', b', hnodes, hsub, hb⟩
    · have hrest := (erase_sublist herase).1
      rw [hnodes] at hrest
      obtain ⟨a'', b'', hnodes', ha', hb'⟩ := List.sublist_append_iff.mp hrest
      exact ⟨a'', b'', hnodes', ha'.trans hsub, fun m hm => hb m (hb'.subset hm)⟩

/-! ## What a pass has done -/

/-- The first loop from `s`, with the elements of `a` behind it, has fired those of `d` and stopped
in front of `b'`. -/
structure Poller.FiredFrom (s : Poller) (a : List (Node ℕ EntryPtr)) (calls : List (List TimerCall))
    (fired : Poller.Fired) (d a' b' : List (Node ℕ EntryPtr)) : Prop where
  delTimers : fired.delTimers = d.map Node.id
  due : ∀ n ∈ d, n.key ≤ s.nowMs ∧ n.id < fired.poller.timers.fresh ∧
    ∀ m ∈ fired.poller.timers.nodes, m.id = n.id → m = n
  nodes : fired.poller.timers.nodes = a' ++ b'
  front : ∀ n ∈ a', n ∈ a ∨ n ∈ d
  back : ∀ n ∈ b', s.nowMs < n.key
  res : fired.res = fired.poller.timeToNext b'
  run : ∃ effects, s.run (calls.take d.length).flatten = .ok (fired.poller, effects)
  timeouts : (fired.effects.filterMap TimerEffect.fired).length = d.length

section First

variable {s s₁ : Poller} {n : Node ℕ EntryPtr} {a a₁ b : List (Node ℕ EntryPtr)}

/-- The iterator is still valid once the callback has run, so its element is still there. -/
theorem Poller.run_next {calls : List TimerCall} {effects : List TimerEffect} {iter : Option ℕ}
    (hrun : s.run calls = .ok (s₁, effects)) (hiter : s₁.timers.next n.id = some iter)
    (hcalls : ∀ c ∈ calls, c.KeyFrom s.nowMs) (hsplit : s.timers.nodes = a ++ n :: b)
    (hfront : ∀ m ∈ a ++ [n], m.key ≤ s.nowMs) :
    ∃ a₁ b₁, s₁.timers.nodes = a₁ ++ n :: b₁ ∧ a₁.Sublist a ∧ iter = first b₁ := by
  have hmem : n ∈ s.timers.nodes := by rw [hsplit]; simp
  obtain ⟨a₁, b₁, hnodes, hsub, hb₁⟩ :=
    run_split hrun hcalls (hsplit.trans (List.append_cons a n b)) hfront
  obtain ⟨c, n', d, hsplit', hid, rfl⟩ := exists_of_next hiter
  have hmem' : n' ∈ s₁.timers.nodes := by rw [hsplit']; simp
  obtain rfl : n' = n := (Later.run hrun).eq_of_id hmem hmem' hid
  have hna : n' ∉ a := fun hna => id_ne_of_mem hsplit hna rfl
  have hnb : n' ∉ b₁ := by
    intro hn
    have hdistinct := s.timers.distinct
    rw [hsplit] at hdistinct
    rcases hb₁ n' hn with hnb | hnew
    · exact (List.pairwise_cons.mp (List.pairwise_append.mp hdistinct).2.1).1 n' hnb rfl
    · exact absurd (s.timers.below n' hmem) (Nat.not_lt_of_le hnew)
  obtain ⟨a₂, l, rfl, ha₂, hl⟩ := List.sublist_append_iff.mp hsub
  obtain rfl : l = [n'] := by
    cases hl with
    | cons _ hnil =>
      obtain rfl := List.sublist_nil.mp hnil
      rw [hnodes, List.append_nil] at hmem'
      rcases List.mem_append.mp hmem' with hn | hn
      · exact absurd (ha₂.subset hn) hna
      · exact absurd hn hnb
    | cons_cons _ hnil => rw [List.sublist_nil.mp hnil]
  have hnodes' : s₁.timers.nodes = a₂ ++ n' :: b₁ := by rw [hnodes]; simp
  obtain ⟨-, rfl⟩ := split_unique hnodes' hsplit'
  exact ⟨a₂, b₁, hnodes', ha₂, rfl⟩

/-- The loop stops at once. -/
theorem Poller.FiredFrom.stop (calls : List (List TimerCall)) (hsplit : s.timers.nodes = a ++ b)
    (hback : ∀ n ∈ b, s.nowMs < n.key) : s.FiredFrom a calls ⟨s.timeToNext b, [], s, []⟩
    [] a b where
  delTimers := rfl
  due _ hn := nomatch hn
  nodes := hsplit
  front _ hn := .inl hn
  back := hback
  res := rfl
  run := ⟨[], rfl⟩
  timeouts := rfl

/-- The loop fires an element, and goes on. -/
theorem Poller.FiredFrom.cons {calls : List (List TimerCall)} {effects : List TimerEffect}
    {event : EventPtr} {rest : Poller.Fired} {d a' b' : List (Node ℕ EntryPtr)}
    (hn : n ∈ s.timers.nodes) (hkey : n.key ≤ s.nowMs)
    (hrun : s.run (calls.headD []) = .ok (s₁, effects)) (ha₁ : a₁.Sublist a)
    (hfired : s₁.FiredFrom (a₁ ++ [n]) calls.tail rest d a' b') :
    s.FiredFrom a calls { rest with
      delTimers := n.id :: rest.delTimers
      effects := .timeout event :: effects ++ rest.effects } (n :: d) a' b' := by
  obtain ⟨more, hmore⟩ := hfired.run
  have hlater := Later.run hrun
  have hlater' := hlater.trans (Later.run hmore)
  refine ⟨?_, ?_, hfired.nodes, ?_, ?_, hfired.res, ?_, ?_⟩
  · rw [List.map_cons, ← hfired.delTimers]
  · intro m hm
    rcases List.mem_cons.mp hm with rfl | hm
    · refine ⟨hkey, (s.timers.below _ hn).trans_le hlater'.fresh, ?_⟩
      intro m hm hid
      exact hlater'.eq_of_id hn hm hid
    · have hd := hfired.due m hm
      rwa [hlater.nowMs] at hd
  · intro m hm
    rcases hfired.front m hm with hm | hm
    · rcases List.mem_append.mp hm with hm | hm
      · exact .inl (ha₁.subset hm)
      · exact .inr (List.mem_singleton.mp hm ▸ List.mem_cons_self)
    · exact .inr (List.mem_cons_of_mem _ hm)
  · have hback := hfired.back
    rwa [hlater.nowMs] at hback
  · refine ⟨effects ++ more, ?_⟩
    have htake : (calls.take (n :: d).length).flatten =
        calls.headD [] ++ (calls.tail.take d.length).flatten := by
      cases calls with
      | nil => simp
      | cons c calls => rfl
    rw [htake]
    exact run_append hrun hmore
  · rw [List.filterMap_append, List.filterMap_cons, List.length_append, hfired.timeouts]
    simp only [TimerEffect.fired, run_fired hrun, List.length_cons, List.length_nil]
    exact Nat.add_comm 1 d.length

end First

/-- **The first loop**, when callbacks add no timer with a key before `now_ms_`. -/
theorem Poller.fireTimers_fired (fuel : ℕ) : ∀ {s : Poller} {calls : List (List TimerCall)}
    {fired : Fired} {a b : List (Node ℕ EntryPtr)}, fireTimers fuel s (first b) calls = .ok fired →
    s.timers.nodes = a ++ b → (∀ c ∈ calls.flatten, c.KeyFrom s.nowMs) →
    (∀ n ∈ a, n.key ≤ s.nowMs) → ∃ d a' b', s.FiredFrom a calls fired d a' b' := by
  induction fuel with
  | zero =>
    intro s calls fired a b h
    cases h
  | succ fuel ih =>
    intro s calls fired a b h hsplit hcalls ha
    cases b with
    | nil =>
      obtain rfl := Except.ok.inj h
      refine ⟨[], a, [], .stop calls hsplit ?_⟩
      intro n hn
      cases hn
    | cons n b =>
      rcases fireTimers_at_ok hsplit h with ⟨hkey, rfl⟩ | ⟨hkey, e, s₁, effects₁, iter, rest, -,
        hrun, hiter, hrest, rfl⟩
      · have hsorted := s.timers.sorted
        rw [hsplit] at hsorted
        obtain ⟨hn, -⟩ := List.pairwise_cons.mp (List.pairwise_append.mp hsorted).2.1
        have hstop := FiredFrom.stop calls hsplit fun m hm => by
          rcases List.mem_cons.mp hm with rfl | hm
          · exact hkey
          · exact hkey.trans_le (hn m hm)
        rw [timeToNext] at hstop
        exact ⟨[], a, n :: b, hstop⟩
      · rw [flatten_eq_headD calls] at hcalls
        obtain ⟨hfirst, hcalls₁⟩ := List.forall_mem_append.mp hcalls
        have hfront : ∀ m ∈ a ++ [n], m.key ≤ s.nowMs := by
          intro m hm
          rcases List.mem_append.mp hm with hm | hm
          · exact ha m hm
          · exact List.mem_singleton.mp hm ▸ hkey
        obtain ⟨a₁, b₁, hnodes, hsub, rfl⟩ := run_next hrun hiter hfirst hsplit hfront
        have hnow := (Later.run hrun).nowMs
        rw [← hnow] at hcalls₁ hfront
        obtain ⟨d, a', b', hfired⟩ := ih hrest (hnodes.trans (List.append_cons a₁ n b₁)) hcalls₁
          fun m hm => hfront m ((hsub.append_right [n]).subset hm)
        exact ⟨n :: d, a', b', .cons (by rw [hsplit]; simp) hkey hrun hsub hfired⟩

/-- One iteration of the second loop. -/
theorem Poller.worksOff {s s' : Poller} {n : Node ℕ EntryPtr} {effects : List TimerEffect}
    (hsame : ∀ m ∈ s.timers.nodes, m.id = n.id → m = n)
    (hrun : s.expireTimer n.id = .ok (s', effects)) :
    n ∈ s.timers.nodes ∧ s.WorksOff s' n ∧ s.timers.fresh ≤ s'.timers.fresh ∧
      effects.filterMap TimerEffect.fired = [] := by
  obtain ⟨n', e, m, hget, he, herase, hcases⟩ := expireTimer_ok hrun
  obtain ⟨a', b', hsplit', hid'⟩ := exists_of_get hget
  obtain rfl := hsame n' (by rw [hsplit']; simp) hid'
  obtain ⟨a, n₂, b, hsplit, hid, hnodes, hfresh⟩ := exists_of_erase herase
  obtain rfl := hsame n₂ (by rw [hsplit]; simp) hid
  have hmem : n₂ ∈ s.timers.nodes := by rw [hsplit]; simp
  have hrest : ∀ c, c ∈ m.nodes ↔ c ∈ s.timers.nodes ∧ c ≠ n₂ := fun c => by
    rw [hnodes, mem_rest_iff hsplit]
  rcases hcases with ⟨rfl, ht, rfl⟩ | ⟨rfl, ht, rfl⟩
  · refine ⟨hmem, ⟨rfl, fun p hp => Function.update_of_ne hp _ _, ?_⟩, hfresh.ge, rfl⟩
    intro c
    refine (hrest c).trans ⟨.inl, ?_⟩
    rintro (hc | ⟨e', he', hperm, -⟩)
    · exact hc
    · obtain rfl := Option.some.inj (he.symm.trans he')
      rw [ht] at hperm
      cases hperm
  · refine ⟨hmem, ⟨rfl, fun _ _ => rfl, ?_⟩, hfresh ▸ Nat.le_succ _, rfl⟩
    intro c
    change c ∈ insertNode ⟨m.fresh, _, _⟩ m.nodes ↔ _
    rw [mem_insertNode, hrest c, hfresh]
    constructor
    · rintro (rfl | hc)
      · exact .inr ⟨e, he, ht, rfl⟩
      · exact .inl hc
    · rintro (hc | ⟨e', he', -, rfl⟩)
      · exact .inr hc
      · obtain rfl := Option.some.inj (he.symm.trans he')
        exact .inl rfl

/-- **The second loop** has worked off its elements, if it has not gone wrong. -/
theorem Poller.Apart.expireTimers (d : List (Node ℕ EntryPtr)) :
    ∀ {s s' : Poller} {effects : List TimerEffect}, s.Apart →
      (∀ n ∈ d, n.id < s.timers.fresh ∧ ∀ m ∈ s.timers.nodes, m.id = n.id → m = n) →
      s.expireTimers (d.map Node.id) = .ok (s', effects) →
      (∀ n ∈ d, n ∈ s.timers.nodes) ∧ s.Leaves d s' ∧
        effects.filterMap TimerEffect.fired = [] := by
  induction d with
  | nil =>
    intro s s' effects _ _ h
    obtain ⟨rfl, rfl⟩ := Prod.mk.inj (Except.ok.inj h)
    exact ⟨nofun, .nil _, rfl⟩
  | cons n d ih =>
    intro s s' effects hs hd h
    obtain ⟨s₁, effects₁, effects₂, hone, hrest, rfl⟩ := expireTimers_cons_ok h
    obtain ⟨hmem, hw, hfresh, hnone⟩ := worksOff (hd n List.mem_cons_self).2 hone
    have hold : ∀ x ∈ d, ∀ m ∈ s₁.timers.nodes, m.id = x.id → m ∈ s.timers.nodes ∧ m ≠ n := by
      intro x hx m hm hid
      rcases (hw.nodes m).mp hm with hm | ⟨e, -, -, rfl⟩
      · exact hm
      · exact absurd (hd x (List.mem_cons_of_mem _ hx)).1 (Nat.not_lt_of_le hid.le)
    have hd₁ : ∀ x ∈ d, x.id < s₁.timers.fresh ∧ ∀ m ∈ s₁.timers.nodes, m.id = x.id → m = x := by
      intro x hx
      obtain ⟨hlt, hsame⟩ := hd x (List.mem_cons_of_mem _ hx)
      exact ⟨hlt.trans_le hfresh, fun m hm hid => hsame m (hold x hx m hm hid).1 hid⟩
    obtain ⟨hin, hleaves, hnone'⟩ := ih (hs.expireTimer hone) hd₁ hrest
    have hback : ∀ m ∈ d, m ∈ s.timers.nodes ∧ m.val ≠ n.val := by
      intro m hm
      obtain ⟨hms, hne⟩ := hold m hm m (hin m hm) rfl
      exact ⟨hms, fun hval => hne (hs.eq_of_val hmem hms hval)⟩
    refine ⟨?_, .cons hw hback hleaves, by rw [List.filterMap_append, hnone, hnone']; rfl⟩
    intro m hm
    rcases List.mem_cons.mp hm with rfl | hm
    · exact hmem
    · exact (hback m hm).1

/-- **A pass that has returned**, in which callbacks add no timer with a key before `now_ms_`, has
worked off the elements that were due when all the callbacks had run, and its result is the time to
the next element behind them. -/
theorem Poller.Apart.executeTimers {s s' : Poller} {calls : List (List TimerCall)} {res : ℤ}
    {effects : List TimerEffect} (h : s.Apart) (hcalls : ∀ c ∈ calls.flatten, c.KeyFrom s.nowMs)
    (hrun : s.executeTimers calls = .ok (res, s', effects)) :
    ∃ d s₁ more, s.run (calls.take d.length).flatten = .ok (s₁, more) ∧
      (effects.filterMap TimerEffect.fired).length = d.length ∧ (∀ n, n ∈ d ↔ n ∈ s₁.due) ∧
      res = s₁.timeToNext s₁.notDue ∧ s₁.Leaves d s' := by
  obtain ⟨fired, effects₂, hfired, hexpire, rfl, rfl⟩ := executeTimers_ok.mp hrun
  obtain ⟨d, a, b, hf⟩ := fireTimers_fired _ hfired (List.nil_append _).symm hcalls nofun
  obtain ⟨more, hmore⟩ := hf.run
  rw [hf.delTimers] at hexpire
  obtain ⟨hin, hleaves, hnone⟩ := (h.run hmore).expireTimers d (fun n hn => (hf.due n hn).2) hexpire
  have hnow := (Later.run hmore).nowMs
  have ha : ∀ n ∈ a, decide (n.key ≤ fired.poller.nowMs) = true := by
    intro n hn
    have hd := (hf.front n hn).resolve_left List.not_mem_nil
    rw [hnow]
    exact decide_eq_true (hf.due n hd).1
  have hb : ∀ n ∈ b.head?, decide (n.key ≤ fired.poller.nowMs) = false := by
    intro n hn
    rw [hnow]
    exact decide_eq_false (Nat.not_le_of_lt (hf.back n (List.mem_of_mem_head? hn)))
  have hdue : fired.poller.due = a := by
    rw [due, hf.nodes, List.takeWhile_append_of_pos ha]
    cases b with
    | nil => simp
    | cons n b => rw [List.takeWhile_cons_of_neg (by simpa using hb n rfl), List.append_nil]
  have hnotDue : fired.poller.notDue = b := by
    rw [notDue, hf.nodes, List.dropWhile_append_of_pos ha]
    cases b with
    | nil => rfl
    | cons n b => rw [List.dropWhile_cons_of_neg (by simpa using hb n rfl)]
  refine ⟨d, fired.poller, more, hmore, ?_, ?_, ?_, hleaves⟩
  · rw [List.filterMap_append, hnone, List.append_nil, hf.timeouts]
  · intro n
    rw [hdue]
    constructor
    · intro hn
      have hms := hin n hn
      rw [hf.nodes] at hms
      refine (List.mem_append.mp hms).resolve_right ?_
      intro hnb
      exact absurd (hf.due n hn).1 (Nat.not_le_of_lt (hf.back n hnb))
    · intro hn
      exact (hf.front n hn).resolve_left List.not_mem_nil
  · rw [hnotDue, hf.res]

end ServerKit
