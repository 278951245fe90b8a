import ServerKit.Core.Verify.Passes
import Mathlib.Algebra.Order.BigOperators.Group.List
import Mathlib.Algebra.Order.Group.Nat

/-!
# The time to the next timer

`executeTimers` computes the timeout of `Poll` while the elements that have fired are still in
`timers_`: from the first element that is not due, or as `kDefaultTimeout`. A permanent timer is
inserted again afterwards, and with a shorter timeout than that it is due while `Poll` still sleeps.
-/

namespace ServerKit

open Lib Multimap

/-! ## The labels of a run -/

/-- What `CurrentMs()` is for a call. -/
def TimerCall.reading? : TimerCall → Option ℕ
  | .addTimer currentMs .. => some currentMs
  | .cancelTimer _ => none

/-- The timeout of a timer that is added. -/
def TimerCall.timeout? : TimerCall → Option ℤ
  | .addTimer _ timeout .. => some timeout
  | .cancelTimer _ => none

/-- The times that are read from the clock. -/
def TimerEvent.readings : TimerEvent → List ℕ
  | .addTimer currentMs .. => [currentMs]
  | .cancelTimer .. => []
  | .executeTimers now calls .. => now :: calls.flatten.filterMap TimerCall.reading?

/-- The timeouts of the timers that are added. -/
def TimerEvent.timeouts : TimerEvent → List ℤ
  | .addTimer _ timeout .. => [timeout]
  | .cancelTimer .. => []
  | .executeTimers _ calls .. => calls.flatten.filterMap TimerCall.timeout?

/-! ## The keys -/

/-- No key is further than a timeout from `now`. -/
structure Poller.KeysBelow (s : Poller) (now : ℕ) : Prop where
  keys : ∀ n ∈ s.timers.nodes, n.key < 2 ^ 64 ∧ n.key < now + 2 ^ 31
  timeouts : ∀ p e, s.entries p = some e → e.timeout < 2 ^ 31

namespace Poller.KeysBelow

variable {s s' : Poller} {now : ℕ} {effects : List TimerEffect}

theorem new (nowMs : ℕ) : (Poller.new nowMs).KeysBelow now := ⟨nofun, nofun⟩

theorem key_lt {a b : ℕ} (ha : a ≤ now) (hb : b < 2 ^ 31) :
    wordAdd a b < 2 ^ 64 ∧ wordAdd a b < now + 2 ^ 31 := by
  unfold wordAdd
  omega

theorem addTimer (h : s.KeysBelow now) {currentMs : ℕ} (hclock : currentMs ≤ now) {timeout : ℤ}
    (htimeout : IsTimeout timeout) (event : EventPtr) (t : TimerType) :
    (s.addTimer currentMs timeout event t).2.1.KeysBelow now := by
  have hlt : uint64OfInt timeout < 2 ^ 31 := by
    unfold uint64OfInt
    unfold IsTimeout at htimeout
    omega
  refine ⟨?_, ?_⟩
  · intro n hn
    rcases mem_insertNode.mp hn with rfl | hn
    · exact key_lt hclock hlt
    · exact h.keys n hn
  · intro p e he
    change Function.update s.entries s.nextEntry (some _) p = some e at he
    by_cases hp : p = s.nextEntry
    · rw [hp, Function.update_self] at he
      exact Option.some.inj he ▸ hlt
    · rw [Function.update_of_ne hp] at he
      exact h.timeouts p e he

/-- Some elements, and some entries, are gone. -/
theorem of_sub (h : s.KeysBelow now) (hnodes : ∀ n ∈ s'.timers.nodes, n ∈ s.timers.nodes)
    (hentries : ∀ p e, s'.entries p = some e → s.entries p = some e) : s'.KeysBelow now :=
  ⟨fun n hn => h.keys n (hnodes n hn), fun p e he => h.timeouts p e (hentries p e he)⟩

theorem update_none {entries : EntryPtr → Option TimerEntry} {p q : EntryPtr} {e : TimerEntry}
    (h : Function.update entries p none q = some e) : entries q = some e := by
  by_cases hq : q = p
  · rw [hq, Function.update_self] at h
    cases h
  · rwa [Function.update_of_ne hq] at h

theorem cancelTimer (h : s.KeysBelow now) {id : ℕ} (hrun : s.cancelTimer id = .ok (s', effects)) :
    s'.KeysBelow now := by
  rcases cancelTimer_ok hrun with ⟨rfl, -⟩ | ⟨p, e, i, m, -, -, herase, rfl, -⟩
  · exact h
  · exact h.of_sub (fun n hn => (erase_sublist herase).1.subset hn) fun q e he => update_none he

theorem call (h : s.KeysBelow now) {c : TimerCall} (hclock : ∀ r, c.reading? = some r → r ≤ now)
    (htimeout : ∀ timeout, c.timeout? = some timeout → IsTimeout timeout)
    (hrun : s.call c = .ok (s', effects)) : s'.KeysBelow now := by
  cases c with
  | addTimer currentMs timeout event t =>
    have heq := (Prod.mk.inj (Except.ok.inj hrun)).1
    exact heq ▸ h.addTimer (hclock _ rfl) (htimeout _ rfl) event t
  | cancelTimer id => exact h.cancelTimer hrun

theorem expireTimer (h : s.KeysBelow now) (hclock : s.nowMs ≤ now) {i : ℕ}
    (hrun : s.expireTimer i = .ok (s', effects)) : s'.KeysBelow now ∧ s'.nowMs = s.nowMs := by
  obtain ⟨n, e, m, -, he, herase, hcases⟩ := expireTimer_ok hrun
  have hsub := (erase_sublist herase).1
  rcases hcases with ⟨rfl, -⟩ | ⟨rfl, -⟩
  · exact ⟨h.of_sub (fun n hn => hsub.subset hn) fun q e he => update_none he, rfl⟩
  · refine ⟨⟨?_, h.timeouts⟩, rfl⟩
    intro c hc
    rcases mem_insertNode.mp hc with rfl | hc
    · exact key_lt hclock (h.timeouts _ e he)
    · exact h.keys c (hsub.subset hc)

/-- **A step**, when the clock has read nothing later than `now`. -/
theorem step {e : TimerEvent} (h : s.Apart ∧ s.KeysBelow now) (hclock : ∀ r ∈ e.readings, r ≤ now)
    (htimeouts : ∀ timeout ∈ e.timeouts, IsTimeout timeout) (hs : PollerStep s e s') :
    s'.Apart ∧ s'.KeysBelow now := by
  cases hs with
  | @addTimer _ _ currentMs timeout event t id effects hrun =>
    have heq := (Prod.mk.inj (Prod.mk.inj hrun).2).1
    have hbelow := h.2.addTimer (hclock _ (List.mem_singleton_self _))
      (htimeouts _ (List.mem_singleton_self _)) event t
    exact heq ▸ ⟨h.1.addTimer currentMs timeout event t, hbelow⟩
  | cancelTimer hrun => exact ⟨h.1.cancelTimer hrun, h.2.cancelTimer hrun⟩
  | @executeTimers _ _ nowMs calls res effects hrun =>
    have hstart : (Apart { s with nowMs := nowMs } ∧ KeysBelow { s with nowMs := nowMs } now) ∧
        nowMs ≤ now :=
      ⟨⟨⟨h.1.once, h.1.below⟩, h.2.keys, h.2.timeouts⟩, hclock _ List.mem_cons_self⟩
    have hinv := executeTimers_invariant
      (fun _ t => (t.Apart ∧ t.KeysBelow now) ∧ t.nowMs ≤ now) (fun _ _ _ _ ht _ => ht) ?_ ?_ []
      hstart hrun
    · exact hinv.1
    · intro past t c t' effects hc ht hcall
      refine ⟨⟨ht.1.1.call hcall, ht.1.2.call ?_ ?_ hcall⟩, (Later.call hcall).nowMs ▸ ht.2⟩
      · intro r hr
        exact hclock r (List.mem_cons_of_mem _ (List.mem_filterMap.mpr ⟨c, hc, hr⟩))
      · intro timeout ht
        exact htimeouts timeout (List.mem_filterMap.mpr ⟨c, hc, ht⟩)
    · intro past t i t' effects ht hexpire
      obtain ⟨hbelow, hnow⟩ := ht.1.2.expireTimer ht.2 hexpire
      exact ⟨⟨ht.1.1.expireTimer hexpire, hbelow⟩, hnow ▸ ht.2⟩

/-- **A run**, when the clock has read nothing later than `now`. -/
theorem run {nowMs : ℕ} {es : List TimerEvent} (hrun : Run PollerStep (.new nowMs) es s)
    (hclock : ∀ r ∈ es.flatMap TimerEvent.readings, r ≤ now)
    (htimeouts : ∀ timeout ∈ es.flatMap TimerEvent.timeouts, IsTimeout timeout) :
    s.Apart ∧ s.KeysBelow now := by
  refine Run.snoc_induction (P := fun es s => (∀ r ∈ es.flatMap TimerEvent.readings, r ≤ now) →
    (∀ timeout ∈ es.flatMap TimerEvent.timeouts, IsTimeout timeout) → s.Apart ∧ s.KeysBelow now)
    ?_ ?_ hrun hclock htimeouts
  · intro _ _
    exact ⟨.new nowMs, new nowMs⟩
  · intro es s e s' _ ih hs hclock htimeouts
    simp only [List.flatMap_append, List.mem_append, List.flatMap_singleton] at hclock htimeouts
    exact step (ih (fun r hr => hclock r (.inl hr)) fun τ hτ => htimeouts τ (.inl hτ))
      (fun r hr => hclock r (.inr hr)) (fun τ hτ => htimeouts τ (.inr hτ)) hs

end Poller.KeysBelow

/-! ## The result of a pass -/

/-- `Poll` may sleep for `res`: no timer is due earlier. -/
def Poller.MaySleep (s : Poller) (now : ℕ) (res : ℤ) : Prop :=
  0 ≤ res ∧ ∀ n ∈ s.timers.nodes, (now : ℤ) + res ≤ n.key

/-- The time to the first element that is not due, cut to 32 bits, or `kDefaultTimeout`. -/
def Poller.untilNext (s : Poller) : ℕ :=
  match s.notDue with
  | [] => 100
  | n :: _ => (n.key - s.nowMs) % 2 ^ 32

/-- The time to the next element is not negative as an `int`, and no longer than the timeouts of
the permanent timers that are due. -/
structure Poller.WakesInTime (s : Poller) : Prop where
  next : s.untilNext < 2 ^ 31
  rearmed : ∀ n ∈ s.due, ∀ e, s.entries n.val = some e → e.t = .kTimerPermanent →
    s.nowMs + s.untilNext ≤ wordAdd s.nowMs e.timeout

namespace Poller.KeysBelow

variable {s : Poller} {now : ℕ}

theorem intOfUint64_eq {n : ℕ} :
    (n % 2 ^ 32 < 2 ^ 31 → intOfUint64 n = (n % 2 ^ 32 : ℕ)) ∧
      (2 ^ 31 ≤ n % 2 ^ 32 → intOfUint64 n < 0) := by
  unfold intOfUint64
  rw [Int.bmod_def]
  omega

theorem timeToNext_eq (h : s.KeysBelow now) :
    (s.untilNext < 2 ^ 31 → s.timeToNext s.notDue = s.untilNext) ∧
      (2 ^ 31 ≤ s.untilNext → s.timeToNext s.notDue < 0) := by
  cases hlist : s.notDue with
  | nil =>
    have hdefault : s.untilNext = 100 := by rw [untilNext, hlist]
    rw [hdefault]
    exact ⟨fun _ => rfl, fun hle => absurd hle (by decide)⟩
  | cons n l =>
    have hn : n ∈ s.notDue := by rw [hlist]; exact List.mem_cons_self
    have hlt : s.nowMs < n.key := lt_of_mem_dropWhile_le s.timers.sorted hn
    have hkey := (h.keys n ((List.dropWhile_sublist _).subset hn)).1
    rw [untilNext, hlist, timeToNext, wordSub_eq_of_le hlt.le hkey]
    exact intOfUint64_eq

theorem untilNext_lt (h : s.KeysBelow now) (hnow : now ≤ s.nowMs) : s.untilNext < 2 ^ 31 := by
  cases hlist : s.notDue with
  | nil =>
    have hdefault : s.untilNext = 100 := by rw [untilNext, hlist]
    omega
  | cons n l =>
    have hn : n ∈ s.notDue := by rw [hlist]; exact List.mem_cons_self
    have hkey := (h.keys n ((List.dropWhile_sublist _).subset hn)).2
    have hmod := Nat.mod_le (n.key - s.nowMs) (2 ^ 32)
    have hfirst : s.untilNext = (n.key - s.nowMs) % 2 ^ 32 := by rw [untilNext, hlist]
    omega

/-- The elements that are not due are not nearer than the first of them. -/
theorem untilNext_le {n : Node ℕ EntryPtr} (hn : n ∈ s.notDue) :
    s.nowMs + s.untilNext ≤ n.key := by
  cases hlist : s.notDue with
  | nil =>
    rw [hlist] at hn
    cases hn
  | cons m l =>
    have hlt : s.nowMs < m.key :=
      lt_of_mem_dropWhile_le s.timers.sorted (by rw [← notDue, hlist]; exact List.mem_cons_self)
    have hsorted := s.timers.sorted.sublist (List.dropWhile_sublist fun n => n.key ≤ s.nowMs)
    have hle : m.key ≤ n.key := by
      rw [← notDue, hlist] at hsorted
      rw [hlist] at hn
      rcases List.mem_cons.mp hn with rfl | hn
      · exact le_rfl
      · exact (List.pairwise_cons.mp hsorted).1 n hn
    have hmod := Nat.mod_le (m.key - s.nowMs) (2 ^ 32)
    have hfirst : s.untilNext = (m.key - s.nowMs) % 2 ^ 32 := by rw [untilNext, hlist]
    omega

/-- **When the result is right**, with what the second loop leaves. -/
theorem maySleep_iff (h : s.KeysBelow now) {d : List (Node ℕ EntryPtr)} {s' : Poller}
    (hd : ∀ n, n ∈ d ↔ n ∈ s.due) (hleaves : s.Leaves d s') :
    s'.MaySleep s.nowMs (s.timeToNext s.notDue) ↔ s.WakesInTime := by
  obtain ⟨hsmall, hlarge⟩ := h.timeToNext_eq
  constructor
  · rintro ⟨hnonneg, hall⟩
    have hnext : s.untilNext < 2 ^ 31 := by
      by_contra hle
      have := hlarge (Nat.le_of_not_lt hle)
      omega
    refine ⟨hnext, ?_⟩
    intro n hn e he hperm
    obtain ⟨m, hm, -, hkey⟩ := hleaves.rearmed n ((hd n).mpr hn) e he hperm
    have hle := hall m hm
    rw [hsmall hnext, hkey] at hle
    omega
  · rintro ⟨hnext, hrearmed⟩
    rw [hsmall hnext]
    refine ⟨Int.natCast_nonneg _, ?_⟩
    intro m hm
    rcases hleaves.origin m hm with ⟨hms, hmd⟩ | ⟨n, hn, e, he, hperm, -, hkey⟩
    · rw [hd] at hmd
      rw [← List.takeWhile_append_dropWhile (p := fun n : Node ℕ EntryPtr => n.key ≤ s.nowMs)
        (l := s.timers.nodes)] at hms
      have hle := untilNext_le ((List.mem_append.mp hms).resolve_left hmd)
      omega
    · have hle := hrearmed n ((hd n).mp hn) e he hperm
      rw [hkey]
      omega

end Poller.KeysBelow

/-- **When the event loop does not sleep past a timer.** After any calls of `AddTimer`,
`CancelTimer` and `executeTimers`, with timeouts that are not negative and a clock that does not go
back, a pass whose callbacks add no timer with a key before `now_ms_` gives `Poll` a timeout that
no timer comes before if and only if the timers are such once the callbacks have run; and the
timeout is not negative unless a callback reads a later time. -/
theorem executeTimers_timeout_iff {nowMs now : ℕ} {es : List TimerEvent} {s s' : Poller}
    {calls : List (List TimerCall)} {res : ℤ} {effects : List TimerEffect}
    (hrun : Run PollerStep (.new nowMs) es s)
    (hpass : PollerStep s (.executeTimers now calls res effects) s')
    (hclock : ((es ++ [TimerEvent.executeTimers now calls res effects]).flatMap
      TimerEvent.readings).Pairwise (· ≤ ·))
    (htimeouts : ∀ timeout ∈ (es ++ [TimerEvent.executeTimers now calls res effects]).flatMap
      TimerEvent.timeouts, IsTimeout timeout)
    (hcalls : ∀ c ∈ calls.flatten, c.KeyFrom now) :
    ∃ s₁ more, Poller.run { s with nowMs := now }
        (calls.take (effects.filterMap TimerEffect.fired).length).flatten = .ok (s₁, more) ∧
      (s'.MaySleep now res ↔ s₁.WakesInTime) ∧
      ((∀ r ∈ calls.flatten.filterMap TimerCall.reading?, r = now) → s₁.untilNext < 2 ^ 31) := by
  rw [List.flatMap_append, List.flatMap_singleton] at hclock htimeouts
  obtain ⟨-, -, hpast⟩ := List.pairwise_append.mp hclock
  cases hpass with
  | executeTimers hpass =>
    have hstart : ∀ c, now ≤ c → Poller.Apart { s with nowMs := now } ∧
        Poller.KeysBelow { s with nowMs := now } c := by
      intro c hc
      obtain ⟨hapart, hbelow⟩ := Poller.KeysBelow.run hrun
        (fun r hr => (hpast r hr now List.mem_cons_self).trans hc)
        fun τ hτ => htimeouts τ (List.mem_append_left _ hτ)
      exact ⟨⟨hapart.once, hapart.below⟩, hbelow.keys, hbelow.timeouts⟩
    obtain ⟨d, s₁, more, hcallbacks, hlen, hd, rfl, hleaves⟩ :=
      (hstart now le_rfl).1.executeTimers hcalls hpass
    have hafter : ∀ c, now ≤ c → (∀ r ∈ calls.flatten.filterMap TimerCall.reading?, r ≤ c) →
        s₁.KeysBelow c := by
      intro c hnow hread
      refine Poller.run_invariant (fun _ t => t.KeysBelow c) ?_ [] (hstart c hnow).2 hcallbacks
      intro past t x t' effects' hx ht hcall
      have hx : x ∈ calls.flatten := by
        obtain ⟨l, hl, hxl⟩ := List.mem_flatten.mp hx
        exact List.mem_flatten.mpr ⟨l, List.mem_of_mem_take hl, hxl⟩
      refine ht.call ?_ ?_ hcall
      · intro r hr
        exact hread r (List.mem_filterMap.mpr ⟨x, hx, hr⟩)
      · intro τ hτ
        exact htimeouts τ (List.mem_append_right _ (List.mem_filterMap.mpr ⟨x, hx, hτ⟩))
    have hnow : s₁.nowMs = now := (Poller.Later.run hcallbacks).nowMs
    refine ⟨s₁, more, hlen ▸ hcallbacks, ?_, ?_⟩
    · have hbelow := hafter (now + (calls.flatten.filterMap TimerCall.reading?).sum)
        (Nat.le_add_right _ _) fun r hr => (List.le_sum_of_mem hr).trans (Nat.le_add_left _ _)
      rw [← hbelow.maySleep_iff hd hleaves, hnow]
    · intro hread
      exact (hafter now le_rfl fun r hr => (hread r hr).le).untilNext_lt hnow.ge

/-- A permanent timer, which has fired at 20, a one-shot timer with the same key, and one more. -/
def rearmedTimer : Poller where
  timers := ⟨[⟨1, 40, 0⟩, ⟨2, 40, 1⟩, ⟨3, 50, 2⟩], 4, by decide, by decide, by decide⟩
  timerIds := Function.update (Function.update (Function.update (fun _ => none) 1 (some 0)) 2
    (some 1)) 3 (some 2)
  maxTimerId := 3
  nowMs := 20
  entries := Function.update (Function.update (Function.update (fun _ => none)
    0 (some ⟨20, 20, 7, 1, .kTimerPermanent⟩)) 1 (some ⟨20, 40, 8, 2, .kTimerOnce⟩))
    2 (some ⟨30, 50, 9, 3, .kTimerOnce⟩)
  nextEntry := 3

theorem rearmedTimer_run : Run PollerStep (.new 0)
    [.addTimer 0 20 7 .kTimerPermanent 1 [.setTimerId 7 1],
      .executeTimers 20 [] 100 [.timeout 7], .addTimer 20 20 8 .kTimerOnce 2 [.setTimerId 8 2],
      .addTimer 20 30 9 .kTimerOnce 3 [.setTimerId 9 3]] rearmedTimer :=
  .cons (.addTimer rfl) <| .cons (.executeTimers rfl) <| .cons (.addTimer rfl) <|
    .single (.addTimer rfl)

/-- It fires again with the one-shot timer, and its callback adds a timer. -/
theorem executeTimers_timeout_rearmed :
    ∃ s', PollerStep rearmedTimer (.executeTimers 40 [[.addTimer 40 15 6 .kTimerOnce]] 10
        [.timeout 7, .setTimerId 6 4, .timeout 8, .delete 8]) s' ∧
      s'.timers.nodes.map Node.key = [50, 55, 60] ∧ s'.MaySleep 40 10 := by
  obtain ⟨res, s', effects, hpass⟩ : ∃ res s' effects,
      Poller.executeTimers { rearmedTimer with nowMs := 40 } [[.addTimer 40 15 6 .kTimerOnce]] =
        .ok (res, s', effects) := ⟨_, _, _, rfl⟩
  have hresult : ((Poller.executeTimers { rearmedTimer with nowMs := 40 }
      [[.addTimer 40 15 6 .kTimerOnce]]).toOption.map
        fun r => (r.1, r.2.1.timers.nodes.map Node.key, r.2.2)) =
      some (10, [50, 55, 60], [.timeout 7, .setTimerId 6 4, .timeout 8, .delete 8]) := by
    decide
  rw [hpass] at hresult
  obtain ⟨rfl, hrest⟩ := Prod.mk.inj (Option.some.inj hresult)
  obtain ⟨hnodes, rfl⟩ := Prod.mk.inj hrest
  have hstep := PollerStep.executeTimers hpass
  have htimeouts : ∀ timeout ∈ [20, 20, 30, 15], IsTimeout timeout := by
    unfold IsTimeout
    decide
  have hcalls : ∀ c ∈ [[TimerCall.addTimer 40 15 6 .kTimerOnce]].flatten, c.KeyFrom 40 := by
    intro c hc
    obtain rfl := List.mem_singleton.mp hc
    exact show 40 ≤ 55 by decide
  obtain ⟨s₁, more, hcall, hiff, -⟩ :=
    executeTimers_timeout_iff rearmedTimer_run hstep (by decide) htimeouts hcalls
  obtain ⟨rfl, -⟩ := Prod.mk.inj (Except.ok.inj hcall)
  refine ⟨s', hstep, hnodes, hiff.mpr ⟨by decide, fun n hn e he ht => ?_⟩⟩
  have hdue : n ∈ [⟨1, 40, 0⟩, ⟨2, 40, 1⟩] := hn
  rcases List.mem_pair.mp hdue with rfl | rfl
  · cases he
    exact show 40 + 10 ≤ 60 by decide
  · cases he
    cases ht

/-- A permanent timer fires every 10 ms, and `Poll` may sleep for 100. -/
theorem executeTimers_oversleeps :
    ∃ s s', Run PollerStep (.new 0) [.addTimer 0 10 7 .kTimerPermanent 1 [.setTimerId 7 1]] s ∧
      PollerStep s (.executeTimers 10 [] 100 [.timeout 7]) s' ∧
      s'.timers.nodes.map Node.key = [20] ∧ ¬ s'.MaySleep 10 100 := by
  refine ⟨_, _, .single (.addTimer rfl), .executeTimers rfl, rfl, ?_⟩
  rintro ⟨-, hall⟩
  exact absurd (hall _ (List.mem_singleton_self _)) (by decide)

end ServerKit
