import ServerKit.Core.Listener
import ServerKit.Base.Verify.NetErrors
import Mathlib.Logic.Function.Iterate

/-!
# `Listener::In` and the connections that wait

Each iteration of the loop consumes results of `::accept` as long as there are any, and nothing ends
it: when no connection is left, `Accept` reports `EAGAIN` through `*err`, `In` takes that for an
error of the listening socket, and tries again.
-/

namespace ServerKit

/-- The descriptor of a connection that has been set up. -/
def AcceptResult.fd? : AcceptResult → Option ℤ
  | .error _ => none
  | .connection fd calls =>
    match calls.getfl, calls.setfl with
    | .ok _, .ok _ => some fd
    | _, _ => none

/-- The descriptor `OnAccept` gets. -/
def AcceptResult.given : AcceptResult → Option ℤ
  | .error _ => none
  | .connection fd calls => some (((AcceptResult.connection fd calls).fd?).getD kError)

/-- No connection waits. -/
def AcceptResult.again : AcceptResult → Bool
  | .error e => isIOTryAgain e
  | .connection _ _ => false

namespace ListenerEffect

/-- The descriptor given to `OnAccept`. -/
def acceptedFd : ListenerEffect → Option ℤ
  | .onAccept fd _ => some fd
  | .send _ _ | .onError _ => none

/-- The Session `OnAccept` returns. -/
def acceptedSession : ListenerEffect → Option SessionPtr
  | .onAccept _ session => some session
  | .send _ _ | .onError _ => none

/-- The Session given to a Worker. -/
def sentSession : ListenerEffect → Option SessionPtr
  | .send _ session => some session
  | .onAccept _ _ | .onError _ => none

end ListenerEffect

/-- What `In` is there for: the connections that were set up before `EAGAIN` have gone to
`OnAccept`, and their Sessions to Workers, once each and in order; `OnAccept` has got no invalid
descriptor, and `EAGAIN` has not been reported as an error. -/
def Listener.Drained (l l' : Listener) : Prop :=
  ∃ effects, l'.effects = l.effects ++ effects ∧
    effects.filterMap ListenerEffect.acceptedFd =
      (l.results.takeWhile fun r => !r.again).filterMap AcceptResult.fd? ∧
    effects.filterMap ListenerEffect.sentSession =
      effects.filterMap ListenerEffect.acceptedSession ∧
    (∀ fd session, .onAccept fd session ∈ effects → 0 ≤ fd) ∧ .onError eAGAIN ∉ effects

namespace Listener

/-- **No exit**: whatever waits, and however many iterations it makes, `In` does not return. -/
theorem in_eq (fuel : ℕ) : ∀ l : Listener, l.in_ fuel = .error .noReturn := by
  induction fuel with
  | zero => intro l; rfl
  | succ fuel ih =>
    intro l
    unfold in_
    exact ih l.inOnce

theorem accept_length (results : List AcceptResult) : ∀ p : Process, results ≠ [] →
    (accept p results).2.2.length < results.length := by
  induction results with
  | nil => exact fun _ h => absurd rfl h
  | cons r results ih =>
    intro p _
    cases r with
    | connection fd calls =>
      unfold accept
      rcases setNonBlocking (p.openFd fd) fd calls with ⟨ret, p'⟩
      by_cases hret : ret ≠ kOK
      · simp [hret]
      · simp [hret]
    | error e =>
      unfold accept
      by_cases hagain : isIOTryAgain e
      · simp [hagain]
      · rw [if_neg hagain]
        by_cases hintr : (e : ℤ) = eINTR
        · rw [if_pos hintr]
          by_cases hnil : results = []
          · subst hnil
            exact Nat.zero_lt_one
          · exact Nat.lt_succ_of_lt (ih (p.setErrno e) hnil)
        · simp [hintr]

theorem inOnce_results (l : Listener) : l.inOnce.results = (accept l.process l.results).2.2 := by
  unfold inOnce
  rcases accept l.process l.results with ⟨⟨fd, err⟩, process, results⟩
  by_cases herr : err = kOK
  · simp [herr]
  · simp [herr]

/-- After enough iterations no connection waits. -/
theorem exists_results_nil (n : ℕ) : ∀ l : Listener, l.results.length ≤ n →
    (inOnce^[n] l).results = [] := by
  induction n with
  | zero => exact fun l h => List.length_eq_zero_iff.mp (Nat.le_zero.mp h)
  | succ n ih =>
    intro l h
    rw [Function.iterate_succ_apply]
    apply ih
    rw [inOnce_results]
    by_cases hnil : l.results = []
    · rw [hnil]
      exact Nat.zero_le n
    · have hlt := accept_length l.results l.process hnil
      omega

/-- An iteration when no connection waits. -/
theorem inOnce_of_nil {l : Listener} (h : l.results = []) :
    l.inOnce.results = [] ∧ l.inOnce.effects = l.effects ++ [.onError eAGAIN] := by
  unfold inOnce
  rw [h]
  exact ⟨rfl, rfl⟩

theorem iterate_of_nil (n : ℕ) : ∀ l : Listener, l.results = [] →
    (inOnce^[n] l).effects = l.effects ++ List.replicate n (.onError eAGAIN) := by
  induction n with
  | zero => exact fun l _ => (List.append_nil l.effects).symm
  | succ n ih =>
    intro l h
    obtain ⟨hresults, heffects⟩ := inOnce_of_nil h
    rw [Function.iterate_succ_apply, ih l.inOnce hresults, heffects, List.append_assoc]
    rfl

/-- What `Accept` consumes, and what `OnAccept` is to get of it. -/
theorem accept_consumed (results : List AcceptResult) : ∀ p : Process,
    ∃ consumed, results = consumed ++ (accept p results).2.2 ∧
      consumed.filterMap AcceptResult.given =
        if (accept p results).1.2 = kOK then [(accept p results).1.1] else [] := by
  induction results with
  | nil => exact fun p => ⟨[], rfl, rfl⟩
  | cons r results ih =>
    intro p
    cases r with
    | connection fd calls =>
      refine ⟨[.connection fd calls], ?_⟩
      unfold accept
      by_cases hfcntl : calls.Succeed
      · rw [setNonBlocking_of_succeed hfcntl]
        have hgiven : (AcceptResult.connection fd calls).given = some (fd : ℤ) := by
          simp only [AcceptResult.given, AcceptResult.fd?, hfcntl.1, hfcntl.2]
          rfl
        exact ⟨rfl, by rw [List.filterMap_cons_some hgiven]; rfl⟩
      · obtain ⟨e, he⟩ := setNonBlocking_of_fail hfcntl (p.openFd fd) fd
        have hgiven : (AcceptResult.connection fd calls).given = some kError := by
          simp only [AcceptResult.given, AcceptResult.fd?]
          cases hget : calls.getfl with
          | error => rfl
          | ok =>
            cases hset : calls.setfl with
            | error => rfl
            | ok => exact absurd ⟨hget, hset⟩ hfcntl
        rw [he]
        simp only
        rw [if_pos e.2]
        exact ⟨rfl, by rw [List.filterMap_cons_some hgiven]; rfl⟩
    | error e =>
      unfold accept
      by_cases hagain : isIOTryAgain e
      · rw [if_pos hagain]
        exact ⟨[.error e], rfl, (if_neg e.2).symm⟩
      · rw [if_neg hagain]
        by_cases hintr : (e : ℤ) = eINTR
        · rw [if_pos hintr]
          obtain ⟨consumed, hsplit, hgiven⟩ := ih (p.setErrno e)
          exact ⟨.error e :: consumed, congrArg _ hsplit, hgiven⟩
        · rw [if_neg hintr]
          exact ⟨[.error e], rfl, (if_neg e.2).symm⟩

/-- `l'` is `l` some iterations later: `OnAccept` has got a descriptor for each connection consumed,
and a Worker the Session it returned, each once and in order. -/
def PassedOn (l l' : Listener) : Prop :=
  ∃ consumed effects, l.results = consumed ++ l'.results ∧ l'.effects = l.effects ++ effects ∧
    effects.filterMap ListenerEffect.acceptedFd = consumed.filterMap AcceptResult.given ∧
    effects.filterMap ListenerEffect.sentSession =
      effects.filterMap ListenerEffect.acceptedSession

theorem PassedOn.inOnce {l l' : Listener} (h : l.PassedOn l') : l.PassedOn l'.inOnce := by
  obtain ⟨consumed, effects, hresults, heffects, hfds, hsessions⟩ := h
  obtain ⟨consumed', hresults', hgiven⟩ := accept_consumed l'.results l'.process
  have hsplit : l.results = (consumed ++ consumed') ++ l'.inOnce.results := by
    rw [hresults, inOnce_results, List.append_assoc, ← hresults']
  by_cases herr : (accept l'.process l'.results).1.2 = kOK
  · rw [if_pos herr] at hgiven
    refine ⟨consumed ++ consumed', effects ++
      [.onAccept (accept l'.process l'.results).1.1 l'.nextSession,
        .send l'.application.selectWorker.1 l'.nextSession], hsplit, ?_, ?_, ?_⟩
    · rw [← List.append_assoc, ← heffects]
      unfold Listener.inOnce
      simp only [if_pos herr]
      rfl
    · rw [List.filterMap_append, List.filterMap_append, hfds, hgiven]
      rfl
    · rw [List.filterMap_append, List.filterMap_append, hsessions]
      rfl
  · rw [if_neg herr] at hgiven
    refine ⟨consumed ++ consumed', effects ++ [.onError (accept l'.process l'.results).1.2],
      hsplit, ?_, ?_, ?_⟩
    · rw [← List.append_assoc, ← heffects]
      unfold Listener.inOnce
      simp only [if_neg herr]
    · rw [List.filterMap_append, List.filterMap_append, hfds, hgiven]
      rfl
    · rw [List.filterMap_append, List.filterMap_append, hsessions]
      rfl

theorem passedOn_iterate (l : Listener) (k : ℕ) : l.PassedOn (inOnce^[k] l) := by
  induction k with
  | zero => exact ⟨[], [], rfl, (List.append_nil _).symm, rfl, rfl⟩
  | succ k ih =>
    rw [Function.iterate_succ_apply']
    exact ih.inOnce

end Listener

/-- **`Listener::In` never does what it is there for.** It does not return, whatever waits; once no
connection is left it reports `EAGAIN` as an error over and over. Until then it passes each
connection on, but those that could not be set up as the descriptor `-1`. -/
theorem listener_in_never_drains (l : Listener) :
    (¬ ∃ fuel l', l.in_ fuel = .ok l' ∧ l.Drained l') ∧
    (∀ n, ∃ k, List.replicate n (.onError eAGAIN) <:+ (Listener.inOnce^[k] l).effects) ∧
    ∀ k, l.PassedOn (Listener.inOnce^[k] l) := by
  refine ⟨?_, ?_, l.passedOn_iterate⟩
  · rintro ⟨fuel, l', hin, -⟩
    rw [Listener.in_eq] at hin
    cases hin
  · intro n
    have hdrained := Listener.exists_results_nil l.results.length l le_rfl
    refine ⟨n + l.results.length, ?_⟩
    rw [Function.iterate_add_apply, Listener.iterate_of_nil n _ hdrained]
    exact List.suffix_append _ _

/-- One connection waits: `In` has passed it on, has reported `EAGAIN` twice, and goes on. -/
theorem listener_in_one_connection :
    ∃ l : Listener, l.results.length = 1 ∧
      (Listener.inOnce^[3] l).effects = [.onAccept 5 0, .send 0 0, .onError eAGAIN,
        .onError eAGAIN] ∧
      ¬ ∃ fuel l', l.in_ fuel = .ok l' ∧ l.Drained l' := by
  refine ⟨⟨⟨0, fun _ => none⟩, [.connection 5 ⟨.ok (), .ok ()⟩], ⟨[0], ⟨0, Nat.one_pos⟩⟩, 0, []⟩,
    rfl, rfl, ?_⟩
  rintro ⟨fuel, l', hin, -⟩
  rw [Listener.in_eq] at hin
  cases hin

end ServerKit
