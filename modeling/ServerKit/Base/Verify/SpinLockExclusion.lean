import ServerKit.Base.SpinLock
import Mathlib.Tactic.Common

/-!
# Mutual exclusion

A thread owns the lock from its successful exchange to its store. Every exchange writes 1 and only
the owner writes 0, so at most one thread owns the lock, whatever the loads return.
-/

namespace ServerKit

open Lib

namespace SpinLock

/-- The thread has made a successful exchange and not yet its store. -/
def Pc.Owns (pc : Pc) : Prop := pc = .acquired ∨ pc = .locked

/-- `lock_` is 0 exactly when no thread owns the lock, and at most one does. -/
structure Exclusive {ι : Type} (s : SpinLock ι) : Prop where
  free_iff : s.lock = 0 ↔ ∀ i, ¬ (s.pc i).Owns
  unique : ∀ i j, (s.pc i).Owns → (s.pc j).Owns → i = j

/-- An exchange of the thread has returned 0, and its store has not followed. -/
def Acquired {ι : Type} (es : List (SpinEvent ι)) (i : ι) : Prop :=
  Open (· = .exchange i 0) (· = .unLock i) es

section Pcs

variable {pc next : Pc}

theorem not_owns_of_afterExchange {old : ℤ} (h : afterExchange old pc = some next) :
    ¬ pc.Owns := by
  rintro (rfl | rfl) <;> cases h

/-- An exchange makes the thread the owner exactly when it has returned 0. -/
theorem owns_afterExchange {old : ℤ} (h : afterExchange old pc = some next) :
    next.Owns ↔ old = 0 := by
  cases pc
  case exchange | spinExchange | whileExchange =>
    obtain rfl := Option.some.inj h
    by_cases hold : old = 0
    · simp [hold, Pc.Owns]
    · simp [hold, Pc.Owns]
  all_goals cases h

theorem owns_afterLoad {v : ℤ} (h : afterLoad v pc = some next) : ¬ pc.Owns ∧ ¬ next.Owns := by
  cases pc
  case spinLoad | whileLoad =>
    obtain rfl := Option.some.inj h
    by_cases hv : v = 0
    · simp [hv, Pc.Owns]
    · simp [hv, Pc.Owns]
  all_goals cases h

theorem owns_pause (h : pause pc = some next) : ¬ pc.Owns ∧ ¬ next.Owns := by
  cases pc
  case spin count y =>
    obtain rfl := Option.some.inj h
    by_cases hcount : count < kYieldProcessorTries
    · simp [hcount, Pc.Owns]
    · simp [hcount, Pc.Owns]
  case yield y =>
    obtain rfl := Option.some.inj h
    by_cases hy : y < kYieldThreadTries
    · simp [hy, Pc.Owns]
    · simp [hy, Pc.Owns]
  all_goals cases h

end Pcs

variable {ι : Type} [DecidableEq ι] {s s' : SpinLock ι} {i : ι} {e : SpinEvent ι}

@[simp] theorem setPc_lock (pc : Pc) : (s.setPc i pc).lock = s.lock := rfl

@[simp] theorem setPc_self (pc : Pc) : (s.setPc i pc).pc i = pc := Function.update_self ..

theorem setPc_ne {j : ι} (pc : Pc) (h : j ≠ i) : (s.setPc i pc).pc j = s.pc j :=
  Function.update_of_ne h ..

/-- What a step does to the owners: an exchange that returns 0 adds its thread, a store removes its
thread, and nothing else adds or removes any. -/
theorem owns_step (hs : SpinStep s e s') (j : ι) :
    (s'.pc j).Owns ↔ e = .exchange j 0 ∨ (s.pc j).Owns ∧ e ≠ .unLock j := by
  cases hs with
  | @call _ i hpc =>
    by_cases hj : j = i
    · subst hj
      simp [hpc, Pc.Owns]
    · simp [setPc_ne _ hj]
  | @exchange _ i next hnext =>
    by_cases hj : j = i
    · subst hj
      have hold := owns_afterExchange hnext
      have hpc := not_owns_of_afterExchange hnext
      simp [setLock, hold, hpc]
    · have hne : ¬ i = j := fun h => hj h.symm
      simp [setLock, setPc_ne _ hj, hne]
  | @load _ i v next hnext =>
    by_cases hj : j = i
    · subst hj
      simp [owns_afterLoad hnext]
    · simp [setPc_ne _ hj]
  | @pause _ i next hnext =>
    by_cases hj : j = i
    · subst hj
      simp [owns_pause hnext]
    · simp [setPc_ne _ hj]
  | @ret _ i hpc =>
    by_cases hj : j = i
    · subst hj
      simp [hpc, Pc.Owns]
    · simp [setPc_ne _ hj]
  | @unLock _ i hpc =>
    by_cases hj : j = i
    · subst hj
      simp [setLock, Pc.Owns]
    · have hne : ¬ i = j := fun h => hj h.symm
      simp [setLock, setPc_ne _ hj, hne]

/-- What a step does to `lock_`. -/
theorem lock_step (hs : SpinStep s e s') :
    (s'.lock = s.lock ∧ (∀ j old, e ≠ .exchange j old) ∧ ∀ j, e ≠ .unLock j) ∨
      (∃ j, e = .exchange j s.lock ∧ s'.lock = 1) ∨
      ∃ j, e = .unLock j ∧ (s.pc j).Owns ∧ s'.lock = 0 := by
  cases hs with
  | call | load | pause | ret => exact .inl ⟨rfl, nofun, nofun⟩
  | exchange => exact .inr (.inl ⟨_, rfl, rfl⟩)
  | unLock hpc => exact .inr (.inr ⟨_, rfl, .inr hpc, rfl⟩)

/-- The step lemma. -/
theorem Exclusive.step (h : s.Exclusive) (hs : SpinStep s e s') : s'.Exclusive := by
  have howns := owns_step hs
  rcases lock_step hs with ⟨hlock, hexchange, hunlock⟩ | ⟨i, rfl, hlock⟩ | ⟨i, rfl, hi, hlock⟩
  · have hsame : ∀ j, (s'.pc j).Owns ↔ (s.pc j).Owns := by
      intro j
      rw [howns]
      simp [hexchange, hunlock]
    refine ⟨?_, fun j k hj hk => ?_⟩
    · rw [hlock, h.free_iff]
      simp [hsame]
    · exact h.unique j k ((hsame j).mp hj) ((hsame k).mp hk)
  · by_cases hzero : s.lock = 0
    · -- the lock was free: the thread is the only owner
      have hnone := h.free_iff.mp hzero
      have hsame : ∀ j, (s'.pc j).Owns ↔ i = j := by
        intro j
        rw [howns]
        simp [hzero, hnone]
      refine ⟨?_, fun j k hj hk => ?_⟩
      · simp [hlock, hsame]
      · exact ((hsame j).mp hj).symm.trans ((hsame k).mp hk)
    · have hsame : ∀ j, (s'.pc j).Owns ↔ (s.pc j).Owns := by
        intro j
        rw [howns]
        simp [hzero]
      refine ⟨?_, fun j k hj hk => ?_⟩
      · have hsome := mt h.free_iff.mpr hzero
        simpa [hlock, hsame] using hsome
      · exact h.unique j k ((hsame j).mp hj) ((hsame k).mp hk)
  · -- the owner leaves, and it was the only one
    have hnone : ∀ j, ¬ (s'.pc j).Owns := by
      intro j hj
      rw [howns] at hj
      rcases hj with hj | ⟨hj, hne⟩
      · cases hj
      · exact hne (by rw [h.unique i j hi hj])
    refine ⟨?_, fun j k hj => absurd hj (hnone j)⟩
    simp [hlock, hnone]

omit [DecidableEq ι] in
theorem exclusive_new : (SpinLock.new ι).Exclusive :=
  ⟨by simp [SpinLock.new, Pc.Owns], by simp [SpinLock.new, Pc.Owns]⟩

/-- The owners are the threads whose last successful exchange no store has followed. -/
theorem acquired_iff_owns {es : List (SpinEvent ι)} (hrun : Run SpinStep (.new ι) es s) :
    ∀ j, Acquired es j ↔ (s.pc j).Owns := by
  refine Run.snoc_induction (P := fun es s => ∀ j, Acquired es j ↔ (s.pc j).Owns) ?_ ?_ hrun
  · intro j
    simp [Acquired, not_open_nil, SpinLock.new, Pc.Owns]
  · intro es s e s' _ ih hs j
    rw [Acquired, open_snoc, owns_step hs, ← ih j]
    rfl

end SpinLock

variable {ι : Type} [DecidableEq ι]

/-- **Mutual exclusion**, in every run of any number of threads: at most one is between the return
of its `Lock` and its `UnLock`, and `lock_` is 0 exactly when no thread has made a successful
exchange that its store has not followed. -/
theorem spinLock_exclusion {s : SpinLock ι} {es : List (SpinEvent ι)}
    (hrun : Run SpinStep (.new ι) es s) :
    (∀ i j, s.pc i = .locked → s.pc j = .locked → i = j) ∧
      (s.lock = 0 ↔ ∀ i, ¬ SpinLock.Acquired es i) := by
  have h : s.Exclusive := hrun.invariant _ (fun _ _ _ h hs => h.step hs) SpinLock.exclusive_new
  refine ⟨fun i j hi hj => h.unique i j (.inr hi) (.inr hj), ?_⟩
  simp only [SpinLock.acquired_iff_owns hrun]
  exact h.free_iff

/-- The second of two threads waits in `lockSlow` while the first is in its critical section. -/
theorem spinLock_exclusion_two_threads :
    ∃ s : SpinLock Bool, Run SpinStep (.new Bool)
      [.call true, .exchange true 0, .call false, .ret true, .exchange false 1, .pause false,
        .load false 0, .exchange false 1] s ∧
      s.pc true = .locked ∧ s.pc false = .spin 1 0 ∧
      (∀ i j, s.pc i = .locked → s.pc j = .locked → i = j) := by
  have hrun : ∃ s : SpinLock Bool, Run SpinStep (.new Bool)
      [.call true, .exchange true 0, .call false, .ret true, .exchange false 1, .pause false,
        .load false 0, .exchange false 1] s ∧ s.pc true = .locked ∧ s.pc false = .spin 1 0 :=
    ⟨_, .cons (.call rfl) <| .cons (.exchange rfl) <| .cons (.call rfl) <| .cons (.ret rfl) <|
      .cons (.exchange rfl) <| .cons (.pause rfl) <| .cons (.load rfl) <| .single (.exchange rfl),
      rfl, rfl⟩
  obtain ⟨s, hrun, htrue, hfalse⟩ := hrun
  exact ⟨s, hrun, htrue, hfalse, (spinLock_exclusion hrun).1⟩

end ServerKit
