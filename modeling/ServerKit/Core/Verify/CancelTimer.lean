import ServerKit.Core.Verify.TimerPass

/-!
# Cancelling timers

`CancelTimer` finds the element of a timer by the field `expire` of its entry. That is the key of
the element as long as the timer has not fired; a permanent timer that has fired is inserted again
with a new key and the old `expire`, and `CancelTimer` then erases the first element behind the old
key, whosever that is.
-/

namespace ServerKit

open Lib Multimap

namespace TimersOk

variable {s s' : Poller}

/-! ## `AddTimer` -/

theorem addTimer (h : TimersOk s) (currentMs : ℕ) (timeout : ℤ) (event : EventPtr) (t : TimerType)
    (hid : s.timerIds (wordAdd s.maxTimerId 1) = none) :
    TimersOk (s.addTimer currentMs timeout event t).2.1 := by
  set id := wordAdd s.maxTimerId 1 with hdef
  set p := s.nextEntry with hp
  have hnew : ∀ id' q, s.timerIds id' = some q → q ≠ p := by
    rintro id' q hq rfl
    obtain ⟨e, he, -⟩ := h.entry id' _ hq
    rw [h.fresh _ le_rfl] at he
    cases he
  have hids : ∀ id' q, Function.update s.timerIds id (some p) id' = some q →
      id' = id ∧ q = p ∨ s.timerIds id' = some q ∧ q ≠ p := by
    intro id' q hq
    by_cases hne : id' = id
    · rw [hne, Function.update_self] at hq
      exact .inl ⟨hne, (Option.some.inj hq).symm⟩
    · rw [Function.update_of_ne hne] at hq
      exact .inr ⟨hq, hnew id' q hq⟩
  refine ⟨fun id' q hq => ?_, fun id' q hq => ?_, fun n hn => ?_, ?_, fun q hq => ?_⟩
  · change ∃ e, Function.update s.entries p (some _) q = some e ∧ e.id = id'
    obtain ⟨rfl, rfl⟩ | ⟨hq, hne⟩ := hids id' q hq
    · exact ⟨_, Function.update_self .., rfl⟩
    · rw [Function.update_of_ne hne]
      exact h.entry id' q hq
  · obtain ⟨-, rfl⟩ | ⟨hq, -⟩ := hids id' q hq
    · exact ⟨_, mem_insertNode.mpr (.inl rfl), rfl⟩
    · obtain ⟨n, hn, hval⟩ := h.node id' q hq
      exact ⟨n, mem_insertNode.mpr (.inr hn), hval⟩
  · change ∃ id', Function.update s.timerIds id (some p) id' = some n.val
    obtain rfl | hn := mem_insertNode.mp hn
    · exact ⟨id, Function.update_self ..⟩
    · obtain ⟨id', hid'⟩ := h.id n hn
      refine ⟨id', ?_⟩
      rw [Function.update_of_ne (by rintro rfl; rw [hid] at hid'; cases hid')]
      exact hid'
  · refine (List.Perm.pairwise_iff (fun h => h.symm) insertNode_perm).mpr
      (List.pairwise_cons.mpr ⟨fun n hn => ?_, h.once⟩)
    obtain ⟨id', hid'⟩ := h.id n hn
    exact (hnew id' _ hid').symm
  · change Function.update s.entries p (some _) q = none
    have hle : p + 1 ≤ q := hq
    rw [Function.update_of_ne (Nat.ne_of_gt hle)]
    exact h.fresh q (Nat.le_of_succ_le hle)

end TimersOk

/-! ## Runs -/

/-- The condition on a call: the next id is not that of a pending timer, callbacks do not call the
poller, and the element of a timer to be cancelled is where `CancelTimer` looks for it. -/
def Poller.Good (s : Poller) : TimerEvent → Prop
  | .addTimer .. => s.timerIds (wordAdd s.maxTimerId 1) = none
  | .executeTimers _ calls .. => ∀ c ∈ calls, c = []
  | .cancelTimer id _ => s.Locates id

theorem TimersOk.step {s s' : Poller} {e : TimerEvent} (h : TimersOk s)
    (hs : Lts.restrict PollerStep Poller.Good s e s') : TimersOk s' := by
  obtain ⟨hgood, hs⟩ := hs
  cases hs with
  | addTimer hrun =>
    rename_i currentMs timeout event t id effects
    have h' := h.addTimer currentMs timeout event t hgood
    rw [hrun] at h'
    exact h'
  | cancelTimer hrun =>
    rename_i id effects
    obtain ⟨s₁, effects₁, hrun₁, hw⟩ := h.cancels_of_locates hgood
    obtain ⟨rfl, -⟩ := Prod.mk.inj (Except.ok.inj (hrun₁.symm.trans hrun))
    cases hp : s.timerIds id with
    | none => rw [hp] at hw; exact hw ▸ h
    | some p => rw [hp] at hw; exact h.without hp hw
  | executeTimers hrun =>
    rename_i now calls res effects
    have hnow : TimersOk { s with nowMs := now } := ⟨h.entry, h.node, h.id, h.once, h.fresh⟩
    obtain ⟨s₁, effects₁, hrun₁, hx, -⟩ := hnow.executeTimers hgood
    obtain ⟨-, heq⟩ := Prod.mk.inj (Except.ok.inj (hrun₁.symm.trans hrun))
    obtain ⟨rfl, -⟩ := Prod.mk.inj heq
    exact hx.ok

/-- **When `CancelTimer` is right.** After any calls of `AddTimer`, `executeTimers` and
`CancelTimer` in which a new id never is that of a pending timer, callbacks do not call the poller,
and the timers cancelled were where `CancelTimer` looks for them: a `CancelTimer(id)` removes the
timer `id` and nothing else, or changes nothing if it is not pending, if and only if the timer is
where `CancelTimer` looks for it. -/
theorem cancelTimer_exact_iff {s : Poller} {nowMs : ℕ} {es : List TimerEvent}
    (hrun : Run (Lts.restrict PollerStep Poller.Good) (.new nowMs) es s) (id : ℕ) :
    s.Cancels id ↔ s.Locates id := by
  have h : TimersOk s := hrun.invariant TimersOk (fun _ _ _ h hs => h.step hs) (.new nowMs)
  exact ⟨h.locates_of_cancels, h.cancels_of_locates⟩

/-- A permanent timer has fired and is due again, before two others with one key: each of them can
be cancelled. -/
theorem cancelTimer_exact_shared_key :
    ∃ s, Run (Lts.restrict PollerStep Poller.Good) (.new 0)
      [.addTimer 0 10 7 .kTimerPermanent 1 [.setTimerId 7 1],
        .addTimer 0 30 8 .kTimerOnce 2 [.setTimerId 8 2],
        .addTimer 0 30 9 .kTimerOnce 3 [.setTimerId 9 3], .executeTimers 10 [] 20 [.timeout 7]] s ∧
      s.timers.nodes.map (fun n => (n.key, n.val)) = [(20, 0), (30, 1), (30, 2)] ∧
      (∀ id ∈ [1, 2, 3], (s.timerIds id).isSome) ∧ s.Cancels 1 ∧ s.Cancels 2 ∧ s.Cancels 3 := by
  obtain ⟨s, hrun, hnodes, hids, h₁, h₂, h₃⟩ : ∃ s, Run (Lts.restrict PollerStep Poller.Good)
      (.new 0) [.addTimer 0 10 7 .kTimerPermanent 1 [.setTimerId 7 1],
        .addTimer 0 30 8 .kTimerOnce 2 [.setTimerId 8 2],
        .addTimer 0 30 9 .kTimerOnce 3 [.setTimerId 9 3], .executeTimers 10 [] 20 [.timeout 7]] s ∧
      s.timers.nodes.map (fun n => (n.key, n.val)) = [(20, 0), (30, 1), (30, 2)] ∧
      (∀ id ∈ [1, 2, 3], (s.timerIds id).isSome) ∧ s.Locates 1 ∧ s.Locates 2 ∧ s.Locates 3 := by
    refine ⟨_, .cons ⟨rfl, .addTimer rfl⟩ <| .cons ⟨rfl, .addTimer rfl⟩ <|
      .cons ⟨rfl, .addTimer rfl⟩ <| .single ⟨nofun, .executeTimers rfl⟩, rfl, by decide, ?_, ?_, ?_⟩
    · -- its entry still says 10
      rintro p e hp he
      cases hp
      cases he
      exact ⟨[], _, [_, _], rfl, rfl, .inr ⟨by decide, nofun⟩⟩
    · rintro p e hp he
      cases hp
      cases he
      exact ⟨[_], _, [_], rfl, rfl, .inl rfl⟩
    · rintro p e hp he
      cases hp
      cases he
      exact ⟨[_, _], _, [], rfl, rfl, .inl rfl⟩
  exact ⟨s, hrun, hnodes, hids, (cancelTimer_exact_iff hrun 1).mpr h₁,
    (cancelTimer_exact_iff hrun 2).mpr h₂, (cancelTimer_exact_iff hrun 3).mpr h₃⟩

/-- A permanent timer that has fired once is cancelled: the other timer loses its element. -/
theorem cancelTimer_erases_other :
    ∃ s s' es effects, Run PollerStep (.new 0) es s ∧ s.timerIds 1 = some 0 ∧
      s.timerIds 2 = some 1 ∧ s.timers.nodes.map Node.val = [1, 0] ∧
      PollerStep s (.cancelTimer 1 effects) s' ∧ s'.timerIds 2 = some 1 ∧
      s'.timers.nodes.map Node.val = [0] := by
  refine ⟨_, _, [.addTimer 0 10 7 .kTimerPermanent 1 [.setTimerId 7 1],
    .addTimer 0 15 8 .kTimerOnce 2 [.setTimerId 8 2], .executeTimers 10 [] 5 [.timeout 7]], _,
    .cons (.addTimer rfl) (.cons (.addTimer rfl) (.single (.executeTimers rfl))), rfl, rfl, rfl,
    .cancelTimer rfl, rfl, rfl⟩

end ServerKit
