import ServerKit.Base.Net
import Mathlib.Tactic.Common

/-!
# What `Listen` and `Accept` promise

Both report through what they return and through `*err`, and their callers look at `*err` alone.
The two agree, and no descriptor is left behind, unless `setsockopt` or `fcntl` fails, or
`inet_aton` does while `errno` is `0`.
-/

namespace ServerKit

/-- `*err` is `kOK` exactly when the value returned is an open descriptor that does not block, and
when it is not, the descriptors created by the call are closed. -/
def NetContract (ret err : ℤ) (created : List ℕ) (files : ℕ → Option Bool) : Prop :=
  (err = kOK ↔ ∃ fd : ℕ, ret = fd ∧ files fd = some true) ∧
    (err ≠ kOK → ∀ fd ∈ created, files fd = none)

section Contract

variable {err : ℤ} {created : List ℕ} {files : ℕ → Option Bool}

theorem kError_ne (fd : ℕ) : kError ≠ fd := by
  unfold kError
  omega

/-- A descriptor is returned with `kOK`. -/
theorem netContract_fd {fd : ℕ} (h : files fd = some true) :
    NetContract fd kOK created files := by
  refine ⟨⟨fun _ => ⟨fd, rfl, h⟩, fun _ => rfl⟩, ?_⟩
  intro hne
  exact absurd rfl hne

/-- `kError` is returned with another error. -/
theorem netContract_error_iff (herr : err ≠ kOK) :
    NetContract kError err created files ↔ ∀ fd ∈ created, files fd = none := by
  constructor
  · intro h
    exact h.2 herr
  · intro h
    refine ⟨⟨fun hok => absurd hok herr, ?_⟩, fun _ => h⟩
    rintro ⟨fd, hret, -⟩
    exact absurd hret (kError_ne fd)

/-- `kError` is returned with `kOK`. -/
theorem not_netContract_kOK : ¬ NetContract kError kOK created files := by
  intro h
  obtain ⟨fd, hret, -⟩ := h.1.mp rfl
  exact kError_ne fd hret

end Contract

/-! ## `setNonBlocking` -/

/-- Both `fcntl` succeed. -/
def FcntlCalls.Succeed (calls : FcntlCalls) : Prop := calls.getfl = .ok () ∧ calls.setfl = .ok ()

theorem setNonBlocking_of_succeed {calls : FcntlCalls} (h : calls.Succeed) (p : Process) (fd : ℕ) :
    setNonBlocking p fd calls = (kOK, p.setFlag fd) := by
  unfold setNonBlocking
  rw [h.1, h.2]

theorem setNonBlocking_of_fail {calls : FcntlCalls} (h : ¬ calls.Succeed) (p : Process) (fd : ℕ) :
    ∃ e : Errno, setNonBlocking p fd calls = (e.val, p.setErrno e) := by
  unfold setNonBlocking
  cases hget : calls.getfl with
  | error e => exact ⟨e, rfl⟩
  | ok =>
    cases hset : calls.setfl with
    | error e => exact ⟨e, rfl⟩
    | ok => exact absurd ⟨hget, hset⟩ h

/-! ## `Listen` -/

/-- The descriptors `Listen` creates. -/
def ListenCalls.created (calls : ListenCalls) : List ℕ :=
  match calls.socket with
  | .error _ => []
  | .ok fd => [fd]

/-- Once there is a descriptor, `setsockopt` and `fcntl` succeed, and `errno` is not `0` if
`inet_aton` fails. -/
def ListenCalls.Sound (calls : ListenCalls) (errno : ℤ) : Prop :=
  ∀ fd, calls.socket = .ok fd → calls.setsockopt = .ok () ∧ calls.fcntl.Succeed ∧
    (calls.inetAton = false → errno ≠ kOK)

/-- `Listen` once `createListenSocket` has succeeded. -/
theorem listen_eq {p : Process} {calls : ListenCalls} {fd : ℕ} (hsocket : calls.socket = .ok fd)
    (hopt : calls.setsockopt = .ok ()) (hfcntl : calls.fcntl.Succeed) :
    listen p calls =
      if !calls.inetAton then ((kError, p.errno), ((p.openFd fd).setFlag fd).closeFd fd)
      else
        match calls.bind with
        | .error e => ((kError, e), (((p.openFd fd).setFlag fd).setErrno e).closeFd fd)
        | .ok _ =>
          match calls.listen with
          | .error e => ((kError, e), (((p.openFd fd).setFlag fd).setErrno e).closeFd fd)
          | .ok _ => ((fd, kOK), (p.openFd fd).setFlag fd) := by
  unfold listen createListenSocket
  rw [hsocket, hopt]
  simp only [setNonBlocking_of_succeed hfcntl]
  rfl

theorem listen_contract_iff (p : Process) (calls : ListenCalls) :
    NetContract (listen p calls).1.1 (listen p calls).1.2 calls.created (listen p calls).2.files ↔
      calls.Sound p.errno := by
  cases hsocket : calls.socket with
  | error e =>
    have hlisten : listen p calls = ((kError, e.val), p.setErrno e) := by
      unfold listen createListenSocket
      rw [hsocket]
    have hsound : calls.Sound p.errno := by
      intro fd hfd
      rw [hsocket] at hfd
      cases hfd
    rw [hlisten, netContract_error_iff e.2]
    refine iff_of_true ?_ hsound
    unfold ListenCalls.created
    rw [hsocket]
    exact fun fd hfd => nomatch hfd
  | ok fd =>
    have hcreated : calls.created = [fd] := by
      unfold ListenCalls.created
      rw [hsocket]
    rw [hcreated]
    cases hopt : calls.setsockopt with
    | error e =>
      have hlisten : listen p calls = ((kError, e.val), (p.openFd fd).setErrno e) := by
        unfold listen createListenSocket
        rw [hsocket, hopt]
      rw [hlisten, netContract_error_iff e.2]
      refine iff_of_false ?_ ?_
      · intro h
        have hclosed := h fd (List.mem_singleton_self fd)
        rw [Process.setErrno_files, Process.openFd_files_self] at hclosed
        cases hclosed
      · intro h
        have hok := (h fd hsocket).1
        rw [hopt] at hok
        cases hok
    | ok =>
      by_cases hfcntl : calls.fcntl.Succeed
      · rw [listen_eq hsocket hopt hfcntl]
        have hsound : calls.Sound p.errno ↔ (calls.inetAton = false → p.errno ≠ kOK) := by
          constructor
          · intro h
            exact (h fd hsocket).2.2
          · intro h fd' hfd'
            exact ⟨hopt, hfcntl, h⟩
        have hclosed : ∀ p : Process, ∀ fd' ∈ [fd], (p.closeFd fd).files fd' = none := by
          intro p fd' hfd'
          obtain rfl := List.mem_singleton.mp hfd'
          exact Process.closeFd_files_self p fd'
        rw [hsound]
        cases hinet : calls.inetAton with
        | false =>
          rw [if_pos (by rfl)]
          by_cases herrno : p.errno = kOK
          · rw [herrno]
            refine iff_of_false not_netContract_kOK ?_
            intro h
            exact h rfl rfl
          · rw [netContract_error_iff herrno]
            exact iff_of_true (hclosed _) fun _ => herrno
        | true =>
          rw [if_neg (by decide)]
          refine iff_of_true ?_ ?_
          · cases calls.bind with
            | error e => exact (netContract_error_iff e.2).mpr (hclosed _)
            | ok =>
              cases calls.listen with
              | error e => exact (netContract_error_iff e.2).mpr (hclosed _)
              | ok => exact netContract_fd (Process.setFlag_files_self _ fd)
          · intro h
            cases h
      · obtain ⟨e, he⟩ := setNonBlocking_of_fail hfcntl (p.openFd fd) fd
        have hlisten : listen p calls = ((kError, kOK), ((p.openFd fd).setErrno e).closeFd fd) := by
          unfold listen createListenSocket
          rw [hsocket, hopt]
          simp only [he]
          rw [if_pos e.2]
        rw [hlisten]
        refine iff_of_false not_netContract_kOK ?_
        intro h
        exact hfcntl (h fd hsocket).2.1

/-! ## `Accept` -/

/-- `::accept` is interrupted. -/
def AcceptResult.interrupted : AcceptResult := .error ⟨eINTR, by decide⟩

/-- The descriptors a result creates. -/
def AcceptResult.created : AcceptResult → List ℕ
  | .error _ => []
  | .connection fd _ => [fd]

/-- If no connection waits, the descriptor `0` is not one that does not block, and the `fcntl` for
a new connection succeed. -/
def AcceptResult.Sound (p : Process) : AcceptResult → Prop
  | .error e => isIOTryAgain e → p.files 0 ≠ some true
  | .connection _ calls => calls.Succeed

/-- `Accept` goes on when it is interrupted. -/
theorem accept_interrupted (n : ℕ) :
    ∀ (p : Process) (results : List AcceptResult), ∃ p', p'.files = p.files ∧
      accept p (List.replicate n .interrupted ++ results) = accept p' results := by
  induction n with
  | zero => exact fun p results => ⟨p, rfl, rfl⟩
  | succ n ih =>
    intro p results
    obtain ⟨p', hfiles, haccept⟩ := ih (p.setErrno eINTR) results
    exact ⟨p', hfiles, haccept⟩

theorem accept_contract_iff (p : Process) (n : ℕ) (r : { r : AcceptResult // r ≠ .interrupted })
    (rest : List AcceptResult) :
    NetContract (accept p (List.replicate n .interrupted ++ r.val :: rest)).1.1
        (accept p (List.replicate n .interrupted ++ r.val :: rest)).1.2 r.val.created
        (accept p (List.replicate n .interrupted ++ r.val :: rest)).2.1.files ↔
      r.val.Sound p := by
  obtain ⟨p', hfiles, haccept⟩ := accept_interrupted n p (r.val :: rest)
  rw [haccept]
  obtain ⟨r, hr⟩ := r
  cases r with
  | error e =>
    have hnone : ∀ fd ∈ (AcceptResult.error e).created, (p'.setErrno e).files fd = none :=
      fun fd hfd => nomatch hfd
    change NetContract _ _ _ _ ↔ (isIOTryAgain e → p.files 0 ≠ some true)
    unfold accept
    by_cases hagain : isIOTryAgain e
    · rw [if_pos hagain]
      constructor
      · intro h _ hfd
        refine e.2 (h.1.mpr ⟨0, rfl, ?_⟩)
        rw [Process.setErrno_files, hfiles]
        exact hfd
      · intro h
        refine ⟨⟨fun hok => absurd hok e.2, ?_⟩, fun _ => hnone⟩
        rintro ⟨fd, hret, hfd⟩
        have hzero : (0 : ℤ) = fd := hret
        obtain rfl : fd = 0 := by omega
        rw [Process.setErrno_files, hfiles] at hfd
        exact absurd hfd (h hagain)
    · have hintr : ¬ (e : ℤ) = eINTR := by
        intro he
        refine hr ?_
        unfold AcceptResult.interrupted
        congr
        exact Subtype.ext he
      rw [if_neg hagain, if_neg hintr]
      exact iff_of_true ((netContract_error_iff e.2).mpr hnone) fun h => absurd h hagain
  | connection fd calls =>
    change NetContract _ _ _ _ ↔ calls.Succeed
    unfold accept
    by_cases hfcntl : calls.Succeed
    · rw [setNonBlocking_of_succeed hfcntl]
      exact iff_of_true (netContract_fd (Process.setFlag_files_self _ fd)) hfcntl
    · obtain ⟨e, he⟩ := setNonBlocking_of_fail hfcntl (p'.openFd fd) fd
      rw [he]
      simp only
      rw [if_pos e.2]
      exact iff_of_false not_netContract_kOK hfcntl

/-- **When the two wrappers keep their contract.** -/
theorem net_contract_iff (p : Process) :
    (∀ calls : ListenCalls, NetContract (listen p calls).1.1 (listen p calls).1.2 calls.created
      (listen p calls).2.files ↔ calls.Sound p.errno) ∧
    ∀ (n : ℕ) (r : { r : AcceptResult // r ≠ .interrupted }) (rest : List AcceptResult),
      NetContract (accept p (List.replicate n .interrupted ++ r.val :: rest)).1.1
        (accept p (List.replicate n .interrupted ++ r.val :: rest)).1.2 r.val.created
        (accept p (List.replicate n .interrupted ++ r.val :: rest)).2.1.files ↔ r.val.Sound p :=
  ⟨listen_contract_iff p, accept_contract_iff p⟩

/-- `setsockopt` fails: the socket stays open. -/
theorem listen_leaks_socket :
    ∃ (p : Process) (calls : ListenCalls), (listen p calls).1 = (kError, 105) ∧
      calls.created = [3] ∧ (listen p calls).2.files 3 = some false ∧
      ¬ NetContract (listen p calls).1.1 (listen p calls).1.2 calls.created
        (listen p calls).2.files := by
  refine ⟨⟨0, fun _ => none⟩, ⟨.ok 3, .error ⟨105, by decide⟩, ⟨.ok (), .ok ()⟩, true, .ok (),
    .ok ()⟩, rfl, rfl, rfl, ?_⟩
  rintro ⟨-, hclosed⟩
  exact absurd (hclosed (by decide) 3 (by decide)) (by decide)

end ServerKit
