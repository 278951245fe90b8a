import ServerKit.Base.Thread
import ServerKit.Base.Verify.SpinLockExclusion

/-!
# Starting and joining a thread

The spin lock of `Start` is taken twice by the caller and released once by the new thread, so that
`Start` returns behind the `UnLock` of the thread. By then the thread has read its entry, named
itself and set the state, and a `Join` that follows has the last word on the state.
-/

namespace ServerKit

open Lib

namespace ThreadObject

/-- The thread is behind its `UnLock`. -/
def Behind (s : ThreadObject) (n : ℕ) : Prop :=
  (s.main n = some .run ∨ s.main n = some .ended) ∧ s.threadName n = s.name

/-- What the thread of a call has done when it is at `pc`, as long as the call waits for it. -/
structure Runs (s : ThreadObject) (n : ℕ) (pc : ThreadMain) : Prop where
  main : s.main n = some pc
  lock : s.lock n = if pc = .run ∨ pc = .ended then 0 else 1
  named : pc ≠ .entry → pc ≠ .setName → s.threadName n = s.name
  state : pc = .unLock ∨ pc = .run ∨ pc = .ended → s.state = .running

/-- The second `Lock` of call `n`, when `pthread_create` has returned `ret`. -/
inductive AtLock (s : ThreadObject) (n : ℕ) (ret : ℤ) (pc : SpinLock.Pc) : Prop
  | waits (m : ThreadMain) : ret = 0 → ¬ pc.Owns → s.tid = n + 1 → s.Runs n m → AtLock s n ret pc
  | acquired : ret = 0 → pc = .acquired → s.tid = n + 1 → s.Behind n → s.state = .running →
      AtLock s n ret pc
  /-- No thread will release the lock. -/
  | stuck : ret ≠ 0 → ¬ pc.Owns → s.main n = none → s.lock n = 1 → AtLock s n ret pc

/-- The caller is in neither `Start` nor `Join`, or in `Join`. -/
def Started (s : ThreadObject) : Prop := s.caller = .outside ∨ s.caller = .join

/-- What is where the caller is. -/
structure AtCaller (s : ThreadObject) : Prop where
  started : s.Started → (∀ n, s.starts = n + 1 → s.Behind n) ∧
    (s.tid = s.starts ∨ s.tid = 0 ∧ ∀ n, s.starts = n + 1 → s.main n = some .ended)
  first : ∀ n pc, s.caller = .lock n none pc → s.starts = n + 1 ∧ s.main n = none ∧
    (pc = .exchange ∧ s.lock n = 0 ∨ pc = .acquired ∧ s.lock n = 1)
  create : ∀ n, s.caller = .create n → s.starts = n + 1 ∧ s.main n = none ∧ s.lock n = 1
  creating : ∀ n, s.caller = .creating n → s.starts = n + 1 ∧ ∃ pc, s.Runs n pc
  second : ∀ n ret pc, s.caller = .lock n (some ret) pc → s.starts = n + 1 ∧ s.AtLock n ret pc

/-- **The invariant.** -/
structure Ok (s : ThreadObject) : Prop where
  none_of_ge : ∀ n, s.starts ≤ n → s.main n = none
  behind_of_lt : ∀ n, n + 1 < s.starts → s.Behind n
  atCaller : s.AtCaller

variable {s s' : ThreadObject} {n : ℕ}

theorem Behind.not_runs {pc : ThreadMain} (h : s.Behind n) (hpc : s.main n = some pc) :
    pc = .run ∨ pc = .ended := by
  rcases h.1 with hm | hm
  · rw [hm] at hpc
    exact .inl (Option.some.inj hpc).symm
  · rw [hm] at hpc
    exact .inr (Option.some.inj hpc).symm

theorem Runs.behind {pc : ThreadMain} (h : s.Runs n pc) (hpc : pc = .run ∨ pc = .ended) :
    s.Behind n := by
  refine ⟨?_, h.named ?_ ?_⟩
  · rcases hpc with rfl | rfl
    · exact .inl h.main
    · exact .inr h.main
  · rintro rfl
    simp at hpc
  · rintro rfl
    simp at hpc

/-- A thread that is not behind its `UnLock` is that of the call the caller is in, which waits for
it. -/
theorem Ok.waits (h : s.Ok) {pc : ThreadMain} (hmain : s.main n = some pc)
    (hpc : ¬ (pc = .run ∨ pc = .ended)) : s.starts = n + 1 ∧ s.Runs n pc ∧
      (s.caller = .creating n ∨ ∃ q, s.caller = .lock n (some 0) q ∧ ¬ q.Owns ∧ s.tid = n + 1) := by
  have hstarts : s.starts = n + 1 := by
    rcases Nat.lt_trichotomy s.starts (n + 1) with hlt | heq | hgt
    · rw [h.none_of_ge n (by omega)] at hmain
      cases hmain
    · exact heq
    · exact absurd ((h.behind_of_lt n hgt).not_runs hmain) hpc
  refine ⟨hstarts, ?_⟩
  cases hcaller : s.caller with
  | outside => exact absurd (((h.atCaller.started (.inl hcaller)).1 n hstarts).not_runs hmain) hpc
  | join => exact absurd (((h.atCaller.started (.inr hcaller)).1 n hstarts).not_runs hmain) hpc
  | create k =>
    obtain ⟨hk, hnone, -⟩ := h.atCaller.create k hcaller
    obtain rfl : k = n := by omega
    rw [hnone] at hmain
    cases hmain
  | creating k =>
    obtain ⟨hk, pc', hruns⟩ := h.atCaller.creating k hcaller
    obtain rfl : k = n := by omega
    obtain rfl : pc' = pc := Option.some.inj (hruns.main.symm.trans hmain)
    exact ⟨hruns, .inl rfl⟩
  | lock k ret q =>
    cases ret with
    | none =>
      obtain ⟨hk, hnone, -⟩ := h.atCaller.first k q hcaller
      obtain rfl : k = n := by omega
      rw [hnone] at hmain
      cases hmain
    | some ret =>
      obtain ⟨hk, hlock⟩ := h.atCaller.second k ret q hcaller
      obtain rfl : k = n := by omega
      cases hlock with
      | waits pc' hret hq htid hruns =>
        obtain rfl : pc' = pc := Option.some.inj (hruns.main.symm.trans hmain)
        exact ⟨hruns, .inr ⟨q, by rw [hret], hq, htid⟩⟩
      | acquired _ _ _ hbehind _ => exact absurd (hbehind.not_runs hmain) hpc
      | stuck _ _ hnone _ =>
        rw [hnone] at hmain
        cases hmain

/-! ## Where the caller is -/

theorem AtCaller.of_started (hcaller : s.Started) (hbehind : ∀ n, s.starts = n + 1 → s.Behind n)
    (htid : s.tid = s.starts ∨ s.tid = 0 ∧ ∀ n, s.starts = n + 1 → s.main n = some .ended) :
    s.AtCaller := by
  refine ⟨fun _ => ⟨hbehind, htid⟩, ?_, ?_, ?_, ?_⟩ <;> rcases hcaller with hc | hc <;> simp [hc]

theorem AtCaller.of_first {pc : SpinLock.Pc} (hcaller : s.caller = .lock n none pc)
    (hn : s.starts = n + 1) (hnone : s.main n = none)
    (hpc : pc = .exchange ∧ s.lock n = 0 ∨ pc = .acquired ∧ s.lock n = 1) : s.AtCaller := by
  refine ⟨fun hst => ?_, fun k q hk => ?_, ?_, ?_, ?_⟩
  · simp [Started, hcaller] at hst
  · simp only [hcaller, ThreadCaller.lock.injEq, true_and] at hk
    obtain ⟨rfl, rfl⟩ := hk
    exact ⟨hn, hnone, hpc⟩
  all_goals simp [hcaller]

theorem AtCaller.of_create (hcaller : s.caller = .create n) (hn : s.starts = n + 1)
    (hnone : s.main n = none) (hlock : s.lock n = 1) : s.AtCaller := by
  refine ⟨fun hst => ?_, ?_, fun k hk => ?_, ?_, ?_⟩
  · simp [Started, hcaller] at hst
  · simp [hcaller]
  · obtain rfl := ThreadCaller.create.inj (hcaller.symm.trans hk)
    exact ⟨hn, hnone, hlock⟩
  all_goals simp [hcaller]

theorem AtCaller.of_creating {pc : ThreadMain} (hcaller : s.caller = .creating n)
    (hn : s.starts = n + 1) (hruns : s.Runs n pc) : s.AtCaller := by
  refine ⟨fun hst => ?_, ?_, ?_, fun k hk => ?_, ?_⟩
  · simp [Started, hcaller] at hst
  · simp [hcaller]
  · simp [hcaller]
  · obtain rfl := ThreadCaller.creating.inj (hcaller.symm.trans hk)
    exact ⟨hn, pc, hruns⟩
  · simp [hcaller]

theorem AtCaller.of_second {ret : ℤ} {pc : SpinLock.Pc} (hcaller : s.caller = .lock n (some ret) pc)
    (hn : s.starts = n + 1) (hlock : s.AtLock n ret pc) : s.AtCaller := by
  refine ⟨fun hst => ?_, ?_, ?_, ?_, fun k ret' q hk => ?_⟩
  · simp [Started, hcaller] at hst
  · simp [hcaller]
  · simp [hcaller]
  · simp [hcaller]
  · simp only [hcaller, ThreadCaller.lock.injEq, Option.some.injEq] at hk
    obtain ⟨rfl, rfl, rfl⟩ := hk
    exact ⟨hn, hlock⟩

/-! ## The steps of a thread -/

/-- A step of a thread that the caller waits for. -/
theorem Ok.thread (h : s.Ok) {pc m : ThreadMain} (hmain : s.main n = some pc)
    (hpc : ¬ (pc = .run ∨ pc = .ended)) (hcaller : s'.caller = s.caller) (htid : s'.tid = s.tid)
    (hstarts : s'.starts = s.starts) (hname : s'.name = s.name)
    (hothers : ∀ k, k ≠ n → s'.main k = s.main k ∧ s'.threadName k = s.threadName k)
    (hruns : s.Runs n pc → s'.Runs n m) : s'.Ok := by
  obtain ⟨hn, hr, hwaits⟩ := h.waits hmain hpc
  refine ⟨fun k hk => ?_, fun k hk => ?_, ?_⟩
  · rw [(hothers k (by omega)).1]
    exact h.none_of_ge k (by omega)
  · obtain ⟨hm, ht⟩ := hothers k (by omega)
    have hb := h.behind_of_lt k (by omega)
    exact ⟨by rw [hm]; exact hb.1, by rw [ht, hname]; exact hb.2⟩
  · rcases hwaits with hw | ⟨q, hw, hq, ht⟩
    · exact .of_creating (hcaller.trans hw) (hstarts.trans hn) (hruns hr)
    · exact .of_second (hcaller.trans hw) (hstarts.trans hn)
        (.waits m rfl hq (htid.trans ht) (hruns hr))

/-- A thread ends. -/
theorem Ok.ended (h : s.Ok) (hmain : s.main n = some .run) : (s.setMain n .ended).Ok := by
  have hself : (s.setMain n .ended).main n = some .ended := Function.update_self ..
  have hne : ∀ k, k ≠ n → (s.setMain n .ended).main k = s.main k := fun k hk =>
    Function.update_of_ne hk ..
  have hbehind : ∀ k, s.Behind k → (s.setMain n .ended).Behind k := by
    intro k hk
    by_cases hkn : k = n
    · subst hkn
      exact ⟨.inr hself, hk.2⟩
    · exact ⟨by rw [hne k hkn]; exact hk.1, hk.2⟩
  have hnone : ∀ k, s.main k = none → (s.setMain n .ended).main k = none := by
    intro k hk
    rw [hne k (by rintro rfl; rw [hmain] at hk; cases hk)]
    exact hk
  have hruns : ∀ k pc, s.Runs k pc → ∃ pc', (s.setMain n .ended).Runs k pc' := by
    intro k pc hk
    by_cases hkn : k = n
    · subst hkn
      obtain rfl : pc = .run := Option.some.inj (hk.main.symm.trans hmain)
      exact ⟨.ended, hself, hk.lock, fun _ _ => hk.named (by simp) (by simp),
        fun _ => hk.state (by simp)⟩
    · exact ⟨pc, by rw [hne k hkn]; exact hk.main, hk.lock, hk.named, hk.state⟩
  refine ⟨fun k hk => hnone k (h.none_of_ge k hk), fun k hk => hbehind k (h.behind_of_lt k hk), ?_⟩
  refine ⟨fun hst => ?_, fun k q hk => ?_, fun k hk => ?_, fun k hk => ?_, fun k ret q hk => ?_⟩
  · obtain ⟨hb, ht⟩ := h.atCaller.started hst
    refine ⟨fun k hk => hbehind k (hb k hk), ht.imp_right fun ⟨h0, hall⟩ => ⟨h0, fun k hk => ?_⟩⟩
    by_cases hkn : k = n
    · rw [hkn, hself]
    · rw [hne k hkn]
      exact hall k hk
  · obtain ⟨hn, h0, hq⟩ := h.atCaller.first k q hk
    exact ⟨hn, hnone k h0, hq⟩
  · obtain ⟨hn, h0, hl⟩ := h.atCaller.create k hk
    exact ⟨hn, hnone k h0, hl⟩
  · obtain ⟨hn, pc, hr⟩ := h.atCaller.creating k hk
    exact ⟨hn, hruns k pc hr⟩
  · obtain ⟨hn, hl⟩ := h.atCaller.second k ret q hk
    refine ⟨hn, ?_⟩
    cases hl with
    | waits pc hret hq ht hr =>
      obtain ⟨pc', hr'⟩ := hruns k pc hr
      exact .waits pc' hret hq ht hr'
    | acquired hret hq ht hb hstate => exact .acquired hret hq ht (hbehind k hb) hstate
    | stuck hret hq h0 hl => exact .stuck hret hq (hnone k h0) hl

/-! ## The steps of the caller -/

/-- A step of the caller that starts no call. -/
theorem Ok.call (h : s.Ok) (hmain : s'.main = s.main) (hthread : s'.threadName = s.threadName)
    (hname : s'.name = s.name) (hstarts : s'.starts = s.starts) (hcaller : s'.AtCaller) :
    s'.Ok := by
  refine ⟨fun k hk => ?_, fun k hk => ?_, hcaller⟩
  · rw [hmain]
    exact h.none_of_ge k (hstarts ▸ hk)
  · have hb := h.behind_of_lt k (hstarts ▸ hk)
    exact ⟨by rw [hmain]; exact hb.1, by rw [hthread, hname]; exact hb.2⟩

/-- `Start` is called. -/
theorem Ok.start (h : s.Ok) (hcaller : s.caller = .outside) : Ok { s.setLock s.starts 0 with
    caller := .lock s.starts none .exchange
    starts := s.starts + 1 } := by
  refine ⟨fun k hk => h.none_of_ge k (Nat.le_of_succ_le hk), fun k hk => ?_, ?_⟩
  · have hk : k < s.starts := Nat.lt_of_succ_lt_succ hk
    rcases Nat.lt_or_eq_of_le (Nat.succ_le_of_lt hk) with hlt | heq
    · exact h.behind_of_lt k hlt
    · exact (h.atCaller.started (.inl hcaller)).1 k heq.symm
  · exact .of_first rfl rfl (h.none_of_ge _ (Nat.le_refl _)) (.inl ⟨rfl, Function.update_self ..⟩)

/-- The second `Lock`, between two exchanges. -/
theorem AtLock.next {ret : ℤ} {pc next : SpinLock.Pc} (h : s.AtLock n ret pc) (hpc : ¬ pc.Owns)
    (hnext : ¬ next.Owns) : (s.setCaller (.lock n (some ret) next)).AtLock n ret next := by
  cases h with
  | waits pc' hret _ htid hruns =>
    exact .waits pc' hret hnext htid ⟨hruns.main, hruns.lock, hruns.named, hruns.state⟩
  | acquired _ hq => exact absurd (.inl hq) hpc
  | stuck hret _ hnone hlock => exact .stuck hret hnext hnone hlock

/-- An exchange of the second `Lock`: it returns 0 exactly when the thread is behind its
`UnLock`. -/
theorem AtLock.exchange {ret : ℤ} {pc next : SpinLock.Pc} (h : s.AtLock n ret pc)
    (hnext : SpinLock.afterExchange (s.lock n) pc = some next) :
    ((s.setCaller (.lock n (some ret) next)).setLock n 1).AtLock n ret next := by
  have hpc := SpinLock.not_owns_of_afterExchange hnext
  have howns := SpinLock.owns_afterExchange hnext
  have hself : (Function.update s.lock n 1) n = 1 := Function.update_self ..
  cases h with
  | waits pc' hret _ htid hruns =>
    have hlock := hruns.lock
    by_cases hbehind : pc' = .run ∨ pc' = .ended
    · rw [if_pos hbehind] at hlock
      have hacquired : next = .acquired := by
        rw [hlock] at hnext
        cases pc <;> simp_all [SpinLock.afterExchange]
      exact .acquired hret hacquired htid (hruns.behind hbehind) (hruns.state (.inr hbehind))
    · rw [if_neg hbehind] at hlock
      have hnot : ¬ next.Owns := by
        rw [howns, hlock]
        simp
      refine .waits pc' hret hnot htid ⟨hruns.main, ?_, hruns.named, hruns.state⟩
      rw [if_neg hbehind]
      exact hself
  | acquired _ hq => exact absurd (.inl hq) hpc
  | stuck hret _ hnone hlock =>
    refine .stuck hret ?_ hnone hself
    rw [howns, hlock]
    simp

/-- **The invariant is kept.** -/
theorem Ok.step {e : ThreadEvent} (h : s.Ok) (hs : ThreadObjectStep s e s') : s'.Ok := by
  cases hs with
  | start hcaller => exact h.start hcaller
  | @exchange _ n ret pc next hcaller hnext =>
    refine h.call rfl rfl rfl rfl ?_
    cases ret with
    | none =>
      obtain ⟨hn, hnone, hpc⟩ := h.atCaller.first n pc hcaller
      rcases hpc with ⟨rfl, hlock⟩ | ⟨rfl, -⟩
      · obtain rfl : SpinLock.Pc.acquired = next := by
          simpa [SpinLock.afterExchange, hlock] using hnext
        exact .of_first rfl hn hnone (.inr ⟨rfl, Function.update_self ..⟩)
      · cases hnext
    | some ret =>
      obtain ⟨hn, hlock⟩ := h.atCaller.second n ret pc hcaller
      exact .of_second rfl hn (hlock.exchange hnext)
  | @load _ n ret v pc next hcaller hnext =>
    refine h.call rfl rfl rfl rfl ?_
    obtain ⟨hpc, hnot⟩ := SpinLock.owns_afterLoad hnext
    cases ret with
    | none =>
      rcases (h.atCaller.first n pc hcaller).2.2 with ⟨rfl, -⟩ | ⟨rfl, -⟩ <;> cases hnext
    | some ret =>
      obtain ⟨hn, hlock⟩ := h.atCaller.second n ret pc hcaller
      exact .of_second rfl hn (hlock.next hpc hnot)
  | @pause _ n ret pc next hcaller hnext =>
    refine h.call rfl rfl rfl rfl ?_
    obtain ⟨hpc, hnot⟩ := SpinLock.owns_pause hnext
    cases ret with
    | none =>
      rcases (h.atCaller.first n pc hcaller).2.2 with ⟨rfl, -⟩ | ⟨rfl, -⟩ <;> cases hnext
    | some ret =>
      obtain ⟨hn, hlock⟩ := h.atCaller.second n ret pc hcaller
      exact .of_second rfl hn (hlock.next hpc hnot)
  | @locked _ n hcaller =>
    obtain ⟨hn, hnone, hpc⟩ := h.atCaller.first n _ hcaller
    have hlock : s.lock n = 1 := by simpa using hpc
    exact h.call rfl rfl rfl rfl (.of_create rfl hn hnone hlock)
  | @create _ n hcaller =>
    obtain ⟨hn, hnone, hlock⟩ := h.atCaller.create n hcaller
    have hself : (Function.update s.main n (some ThreadMain.entry)) n = some .entry :=
      Function.update_self ..
    refine ⟨fun k hk => ?_, fun k hk => ?_, ?_⟩
    · have hk : s.starts ≤ k := hk
      change Function.update s.main n (some ThreadMain.entry) k = none
      rw [Function.update_of_ne (by omega)]
      exact h.none_of_ge k hk
    · have hk : k + 1 < s.starts := hk
      have hb := h.behind_of_lt k hk
      have hne : Function.update s.main n (some ThreadMain.entry) k = s.main k :=
        Function.update_of_ne (by omega) ..
      refine ⟨?_, hb.2⟩
      change Function.update s.main n (some ThreadMain.entry) k = some .run ∨
        Function.update s.main n (some ThreadMain.entry) k = some .ended
      rw [hne]
      exact hb.1
    · exact .of_creating rfl hn ⟨hself, hlock, fun hne => absurd rfl hne, by simp⟩
  | @created _ n hcaller =>
    obtain ⟨hn, pc, hruns⟩ := h.atCaller.creating n hcaller
    refine h.call rfl rfl rfl rfl (.of_second rfl hn
      (.waits pc rfl (by simp [SpinLock.Pc.Owns]) rfl ?_))
    exact ⟨hruns.main, hruns.lock, hruns.named, hruns.state⟩
  | @createFails _ n err tid hcaller herr =>
    obtain ⟨hn, hnone, hlock⟩ := h.atCaller.create n hcaller
    exact h.call rfl rfl rfl rfl
      (.of_second rfl hn (.stuck herr (by simp [SpinLock.Pc.Owns]) hnone hlock))
  | @started _ n ret hcaller =>
    obtain ⟨hn, hlock⟩ := h.atCaller.second n ret _ hcaller
    cases hlock with
    | waits _ _ hq => exact absurd (.inl rfl) hq
    | stuck _ hq => exact absurd (.inl rfl) hq
    | acquired _ _ htid hbehind _ =>
      refine h.call rfl rfl rfl rfl (.of_started (.inl rfl) (fun k hk => ?_) (.inl ?_))
      · have hk : s.starts = k + 1 := hk
        obtain rfl : k = n := by omega
        exact hbehind
      · exact htid.trans hn.symm
  | join hcaller =>
    obtain ⟨hb, ht⟩ := h.atCaller.started (.inl hcaller)
    exact h.call rfl rfl rfl rfl (.of_started (.inr rfl) hb ht)
  | joinedNone hcaller _ =>
    obtain ⟨hb, ht⟩ := h.atCaller.started (.inr hcaller)
    exact h.call rfl rfl rfl rfl (.of_started (.inl rfl) hb ht)
  | @joined _ n hcaller htid hended =>
    obtain ⟨hb, ht⟩ := h.atCaller.started (.inr hcaller)
    refine h.call rfl rfl rfl rfl (.of_started (.inl rfl) hb (.inr ⟨rfl, fun k hk => ?_⟩))
    have hk : s.starts = k + 1 := hk
    obtain rfl : k = n := by omega
    exact hended
  | @readEntry _ n hmain =>
    refine h.thread (m := .setName) hmain (by simp) rfl rfl rfl rfl
      (fun k hk => ⟨Function.update_of_ne hk .., rfl⟩) fun hr => ?_
    exact ⟨Function.update_self .., hr.lock, by simp, by simp⟩
  | @setName _ n hmain =>
    refine h.thread (m := .setState) hmain (by simp) rfl rfl rfl rfl
      (fun k hk => ⟨Function.update_of_ne hk .., Function.update_of_ne hk ..⟩) fun hr => ?_
    exact ⟨Function.update_self .., hr.lock, fun _ _ => Function.update_self .., by simp⟩
  | @setState _ n hmain =>
    refine h.thread (m := .unLock) hmain (by simp) rfl rfl rfl rfl
      (fun k hk => ⟨Function.update_of_ne hk .., rfl⟩) fun hr => ?_
    exact ⟨Function.update_self .., hr.lock, fun _ _ => hr.named (by simp) (by simp), fun _ => rfl⟩
  | @unLock _ n hmain =>
    refine h.thread (m := .run) hmain (by simp) rfl rfl rfl rfl
      (fun k hk => ⟨Function.update_of_ne hk .., rfl⟩) fun hr => ?_
    exact ⟨Function.update_self .., Function.update_self ..,
      fun _ _ => hr.named (by simp) (by simp), fun _ => hr.state (by simp)⟩
  | running _ => exact h
  | ended hmain => exact h.ended hmain

theorem ok_new (name : List UInt8) : (new name).Ok := by
  refine ⟨fun _ _ => rfl, fun k hk => absurd hk (Nat.not_lt_zero _), ?_⟩
  exact .of_started (.inl rfl) (fun k hk => absurd hk (Nat.succ_ne_zero k).symm) (.inl rfl)

/-! ## What stays so -/

theorem name_step {e : ThreadEvent} (hs : ThreadObjectStep s e s') : s'.name = s.name := by
  cases hs <;> rfl

/-- What a step from a state outside `Start` may change. -/
theorem Ok.started_step (h : s.Ok) (hst : s.Started) {e : ThreadEvent}
    (hs : ThreadObjectStep s e s') (he : e ≠ .start) :
    s'.Started ∧ (s.state = .stopped → s'.state = .stopped) ∧ (s.tid = 0 → s'.tid = 0) := by
  have hwaits : ∀ n pc, s.main n = some pc → ¬ (pc = .run ∨ pc = .ended) → False := by
    intro n pc hmain hpc
    obtain ⟨-, -, hw | ⟨q, hw, -⟩⟩ := h.waits hmain hpc <;> rcases hst with hc | hc <;>
      simp [hc] at hw
  cases hs with
  | start => exact absurd rfl he
  | exchange hc | load hc | pause hc | locked hc | create hc | created hc | createFails _ hc
  | started hc => rcases hst with hc' | hc' <;> simp [hc'] at hc
  | join => exact ⟨.inr rfl, fun _ => rfl, id⟩
  | joinedNone => exact ⟨.inl rfl, id, id⟩
  | joined => exact ⟨.inl rfl, id, fun _ => rfl⟩
  | readEntry hmain => exact (hwaits _ _ hmain (by simp)).elim
  | setName hmain => exact (hwaits _ _ hmain (by simp)).elim
  | setState hmain => exact (hwaits _ _ hmain (by simp)).elim
  | unLock hmain => exact (hwaits _ _ hmain (by simp)).elim
  | running => exact ⟨hst, id, id⟩
  | ended => exact ⟨hst, id, id⟩

/-- Where `pthread_create` has failed, `Start` stays in its second `Lock`. -/
theorem Ok.stuck_step (h : s.Ok) {ret : ℤ} {pc : SpinLock.Pc} (hret : ret ≠ 0)
    (hcaller : s.caller = .lock n (some ret) pc) {e : ThreadEvent} (hs : ThreadObjectStep s e s') :
    ∃ q, s'.caller = .lock n (some ret) q := by
  cases hs with
  | start hc | locked hc | create hc | created hc | createFails _ hc | join hc | joinedNone hc
  | joined hc => simp [hcaller] at hc
  | exchange hc | load hc | pause hc =>
    simp only [hcaller, ThreadCaller.lock.injEq] at hc
    obtain ⟨rfl, rfl, rfl⟩ := hc
    exact ⟨_, rfl⟩
  | started hc =>
    simp only [hcaller, ThreadCaller.lock.injEq, Option.some.injEq] at hc
    obtain ⟨rfl, rfl, rfl⟩ := hc
    cases (h.atCaller.second _ _ _ hcaller).2 with
    | waits _ hzero => exact absurd hzero hret
    | acquired hzero => exact absurd hzero hret
    | stuck _ hq => exact absurd (.inl rfl) hq
  | readEntry | setName | setState | unLock | running | ended => exact ⟨pc, hcaller⟩

/-- What the events so far tell about the state. -/
structure History (name : List UInt8) (es : List ThreadEvent) (s : ThreadObject) : Prop where
  ok : s.Ok
  name : s.name = name
  stopped : Open (· = .join) (· = .start) es → s.Started ∧ s.state = .stopped
  joined : Open (· = .joined) (· = .start) es → s.Started ∧ s.tid = 0
  failed : ∀ err tid, ThreadEvent.createFails err tid ∈ es →
    err ≠ 0 ∧ ∃ n pc, s.caller = .lock n (some err) pc

theorem History.step {name : List UInt8} {es : List ThreadEvent} {e : ThreadEvent}
    (h : History name es s) (hs : ThreadObjectStep s e s') : History name (es ++ [e]) s' := by
  refine ⟨h.ok.step hs, (name_step hs).trans h.name, fun hopen => ?_, fun hopen => ?_,
    fun err tid hmem => ?_⟩
  · rcases open_snoc.mp hopen with rfl | ⟨hopen, hne⟩
    · cases hs
      exact ⟨.inr rfl, rfl⟩
    · obtain ⟨hst, hstate⟩ := h.stopped hopen
      obtain ⟨hst', hstate', -⟩ := h.ok.started_step hst hs hne
      exact ⟨hst', hstate' hstate⟩
  · rcases open_snoc.mp hopen with rfl | ⟨hopen, hne⟩
    · cases hs with
      | joinedNone hcaller htid => exact ⟨.inl rfl, htid⟩
      | joined => exact ⟨.inl rfl, rfl⟩
    · obtain ⟨hst, htid⟩ := h.joined hopen
      obtain ⟨hst', -, htid'⟩ := h.ok.started_step hst hs hne
      exact ⟨hst', htid' htid⟩
  · rcases List.mem_append.mp hmem with hmem | hmem
    · obtain ⟨herr, n, pc, hcaller⟩ := h.failed err tid hmem
      obtain ⟨q, hq⟩ := h.ok.stuck_step herr hcaller hs
      exact ⟨herr, n, q, hq⟩
    · obtain rfl := List.mem_singleton.mp hmem
      cases hs with
      | createFails _ hcaller herr => exact ⟨herr, _, _, rfl⟩

theorem history {name : List UInt8} {es : List ThreadEvent}
    (hrun : Run ThreadObjectStep (.new name) es s) : History name es s := by
  refine Run.snoc_induction (P := History name) ?_ (fun _ _ _ _ _ h hs => h.step hs) hrun
  exact ⟨ok_new name, rfl, fun h => absurd h not_open_nil, fun h => absurd h not_open_nil, by simp⟩

end ThreadObject

/-- **The handshake of `Start`**, in every run, however the caller and the threads take turns. A
thread that has not made its `UnLock` finds the call that created it still waiting, in
`pthread_create` or in the second `Lock`, so it never touches the lock or the entry of a call that
has returned; once it has made its `UnLock`, the next exchange of the caller takes the lock; `Start`
returns only 0, to a state that is running, and with the thread it has created behind its `UnLock`
and named; when `pthread_create` fails, `Start` does not return. From a `Join` to the next `Start`
the state is stopped, and a `Join` returns behind the end of the last thread that has been
created. -/
theorem start_handshake {name : List UInt8} {s : ThreadObject} {es : List ThreadEvent}
    (hrun : Run ThreadObjectStep (.new name) es s) :
    (∀ n pc, s.main n = some pc → ¬ (pc = .run ∨ pc = .ended) →
      s.caller = .creating n ∨ ∃ q, s.caller = .lock n (some 0) q ∧ q ≠ .acquired) ∧
    (∀ n q pc old s', s.caller = .lock n (some 0) q → s.main n = some pc →
      (pc = .run ∨ pc = .ended) → ThreadObjectStep s (.exchange old) s' → old = 0) ∧
    (∀ ret s', ThreadObjectStep s (.started ret) s' → ret = 0 ∧ s.state = .running ∧
      ∃ n, s.starts = n + 1 ∧ (s.main n = some .run ∨ s.main n = some .ended) ∧
        s.threadName n = name) ∧
    (∀ err tid, ThreadEvent.createFails err tid ∈ es → ∃ n q, s.caller = .lock n (some err) q) ∧
    (Open (· = .join) (· = .start) es → s.state = .stopped) ∧
    (Open (· = .joined) (· = .start) es → ∀ n, s.starts = n + 1 → s.main n = some .ended) := by
  have h := ThreadObject.history hrun
  refine ⟨fun n pc hmain hpc => ?_, fun n q pc old s' hcaller hmain hpc hs => ?_,
    fun ret s' hs => ?_,
    fun err tid hmem => (h.failed err tid hmem).2, fun hopen => (h.stopped hopen).2,
    fun hopen n hn => ?_⟩
  · obtain ⟨-, -, hw | ⟨q, hw, hq, -⟩⟩ := h.ok.waits hmain hpc
    · exact .inl hw
    · exact .inr ⟨q, hw, fun heq => hq (.inl heq)⟩
  · cases hs with
    | exchange hc hnext =>
      rw [hcaller, ThreadCaller.lock.injEq] at hc
      obtain ⟨rfl, -, rfl⟩ := hc
      cases (h.ok.atCaller.second _ _ _ hcaller).2 with
      | waits m _ _ _ hruns =>
        obtain rfl : m = pc := Option.some.inj (hruns.main.symm.trans hmain)
        rw [hruns.lock, if_pos hpc]
      | acquired _ hq => exact absurd (.inl hq) (SpinLock.not_owns_of_afterExchange hnext)
      | stuck hret => exact absurd rfl hret
  · cases hs with
    | started hcaller =>
      obtain ⟨hn, hlock⟩ := h.ok.atCaller.second _ _ _ hcaller
      cases hlock with
      | waits _ _ hq => exact absurd (.inl rfl) hq
      | stuck _ hq => exact absurd (.inl rfl) hq
      | acquired hret _ _ hbehind hstate =>
        exact ⟨hret, hstate, _, hn, hbehind.1, hbehind.2.trans h.name⟩
  · obtain ⟨hst, htid⟩ := h.joined hopen
    rcases (h.ok.atCaller.started hst).2 with heq | ⟨-, hended⟩
    · omega
    · exact hended n hn

/-- The caller meets the lock before the thread has released it. -/
theorem start_handshake_one_thread : ∃ s, Run ThreadObjectStep (.new [0x74])
      ([.start, .exchange 0, .locked, .create, .readEntry 0, .created, .exchange 1, .setName 0,
        .setState 0, .unLock 0, .pause, .load 0, .exchange 0, .started 0, .join] ++
        [.running 0 false, .ended 0, .joined]) s ∧
    s.state = .stopped ∧ s.main 0 = some .ended := by
  have hrun : ∃ s, Run ThreadObjectStep (.new [0x74])
      ([.start, .exchange 0, .locked, .create, .readEntry 0, .created, .exchange 1, .setName 0,
        .setState 0, .unLock 0, .pause, .load 0, .exchange 0, .started 0, .join] ++
        [.running 0 false, .ended 0, .joined]) s ∧ s.starts = 1 := by
    refine ⟨_, .cons (.start rfl) <| .cons (.exchange (n := 0) rfl rfl) <| .cons (.locked rfl) <|
      .cons (.create rfl) <| .cons (.readEntry rfl) <| .cons (.created rfl) <|
      .cons (.exchange (n := 0) rfl rfl) <| .cons (.setName rfl) <| .cons (.setState rfl) <|
      .cons (.unLock rfl) <| .cons (.pause rfl rfl) <| .cons (.load rfl rfl) <|
      .cons (.exchange (n := 0) rfl rfl) <| .cons (.started rfl) <| .cons (.join rfl) <|
      .cons (.running rfl) <| .cons (.ended rfl) <| .single (.joined (n := 0) rfl rfl rfl), ?_⟩
    rfl
  obtain ⟨s, hrun, hstarts⟩ := hrun
  obtain ⟨-, -, -, -, hstopped, hjoined⟩ := start_handshake hrun
  refine ⟨s, hrun, hstopped ⟨[.start, .exchange 0, .locked, .create, .readEntry 0, .created,
    .exchange 1, .setName 0, .setState 0, .unLock 0, .pause, .load 0, .exchange 0, .started 0], _,
    _, rfl, rfl, by simp⟩, hjoined ?_ 0 hstarts⟩
  refine ⟨[.start, .exchange 0, .locked, .create, .readEntry 0, .created, .exchange 1, .setName 0,
    .setState 0, .unLock 0, .pause, .load 0, .exchange 0, .started 0, .join, .running 0 false,
    .ended 0], _, [], rfl, rfl, by simp⟩

end ServerKit
