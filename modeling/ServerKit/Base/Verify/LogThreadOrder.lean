import ServerKit.Base.LogThread
import Mathlib.Tactic.Common

/-!
# The logger keeps its messages in order

`log_list_` holds two lists. Senders append to one under the mutex, and the log thread empties the
other; it exchanges them under the mutex, and only when its own is empty. So a message moves on from
`write_list_` to `read_list_` to the output, and never past another.
-/

namespace ServerKit

open Lib

/-- The message whose `Send` takes the mutex. -/
def LogEvent.sent {ι M : Type} : LogEvent ι M → List M
  | .lock _ data => [data]
  | _ => []

/-- The message that is put into `write_list_`. -/
def LogEvent.queued {ι M : Type} : LogEvent ι M → List M
  | .push _ data => [data]
  | _ => []

namespace LogThread

variable {ι M : Type}

/-- The part of `read_list_` that has not been output. -/
def unread (s : LogThread ι M) : List M :=
  match s.pc with
  | .iter iter => (s.logList s.readList).drop iter
  | _ => s.logList s.readList

/-- The messages that have been put into `write_list_`, behind those of `read_list_` and of the
output. -/
def messages (s : LogThread ι M) : List M :=
  s.outputs ++ (s.unread ++ s.logList s.writeList)

/-- The message of a `Send` that holds the mutex and has not appended it yet. -/
def inFlight (s : LogThread ι M) : List M :=
  match s.mutex with
  | some (.sender i) =>
    match s.sender i with
    | .locked data => [data]
    | _ => []
  | _ => []

/-- The two pointers are to the two lists. -/
structure ListsOk (s : LogThread ι M) : Prop where
  index : s.writeIndex = s.writeList
  distinct : s.writeList = 0 ∧ s.readList = 1 ∨ s.writeList = 1 ∧ s.readList = 0

/-- The mutex has one holder, which is where it says. -/
structure MutexOk (s : LogThread ι M) : Prop where
  sender : ∀ i, s.mutex = some (.sender i) ↔ s.sender i ≠ .outside
  logger : s.mutex = some .logger ↔ s.pc = .swap ∨ s.pc = .unlock

/-- The invariant. Outside the loop of `iterList`, and when the log thread exchanges the lists,
`read_list_` is empty. -/
structure Ok (s : LogThread ι M) : Prop where
  lists : s.ListsOk
  mutex : s.MutexOk
  empty : s.pc = .outside ∨ s.pc = .lock ∨ s.pc = .swap → s.logList s.readList = []

theorem ListsOk.ne {s : LogThread ι M} (h : s.ListsOk) : s.writeList ≠ s.readList := by
  rcases h.distinct with ⟨hw, hr⟩ | ⟨hw, hr⟩ <;> simp [hw, hr]

theorem ListsOk.swap {s : LogThread ι M} (h : s.ListsOk) :
    s.swapLists.ListsOk ∧ s.swapLists.readList = s.writeList ∧
      s.swapLists.writeList = s.readList := by
  obtain ⟨hindex, hdistinct⟩ := h
  rcases hdistinct with ⟨hw, hr⟩ | ⟨hw, hr⟩
  · refine ⟨⟨rfl, ?_⟩, ?_, ?_⟩ <;> simp [swapLists, hindex, hw, hr]
  · refine ⟨⟨rfl, ?_⟩, ?_, ?_⟩ <;> simp [swapLists, hindex, hw, hr]

theorem ok_new : (LogThread.new ι M).Ok where
  lists := ⟨rfl, .inl ⟨rfl, rfl⟩⟩
  mutex := ⟨by simp [LogThread.new], by simp [LogThread.new]⟩
  empty := fun _ => rfl

variable {s s' : LogThread ι M} {e : LogEvent ι M}

/-- While a sender is inside `Send`, the others are outside, and the log thread does not exchange
the lists. -/
theorem MutexOk.of_inside (h : s.MutexOk) {i : ι} (hi : s.sender i ≠ .outside) :
    s.mutex = some (.sender i) ∧ (∀ j, j ≠ i → s.sender j = .outside) ∧
      s.pc ≠ .swap ∧ s.pc ≠ .unlock := by
  have hmutex := (h.sender i).mpr hi
  have hlogger : ¬ (s.pc = .swap ∨ s.pc = .unlock) := by
    intro hpc
    rw [h.logger.mpr hpc] at hmutex
    cases hmutex
  refine ⟨hmutex, fun j hj => ?_, not_or.mp hlogger⟩
  by_contra hne
  rw [(h.sender j).mpr hne] at hmutex
  cases hmutex
  exact hj rfl

/-- While nobody holds the mutex, everybody is outside. -/
theorem MutexOk.of_free (h : s.MutexOk) (hmutex : s.mutex = none) :
    (∀ j, s.sender j = .outside) ∧ s.pc ≠ .swap ∧ s.pc ≠ .unlock := by
  refine ⟨fun j => ?_, ?_⟩
  · by_contra hne
    rw [(h.sender j).mpr hne] at hmutex
    cases hmutex
  · have hlogger : ¬ (s.pc = .swap ∨ s.pc = .unlock) := by
      intro hpc
      rw [h.logger.mpr hpc] at hmutex
      cases hmutex
    exact not_or.mp hlogger

/-- The log thread moves, and the mutex is its own exactly at the exchange. -/
theorem MutexOk.setPc (h : s.MutexOk) {pc : Pc} {mutex : Option (Holder ι)}
    (hmutex : s.mutex = mutex ∨
      (∀ j, s.sender j = .outside) ∧ (mutex = none ∨ mutex = some .logger))
    (hpc : mutex = some .logger ↔ pc = .swap ∨ pc = .unlock) :
    ((s.setMutex mutex).setPc pc).MutexOk := by
  refine ⟨fun j => ?_, hpc⟩
  change mutex = _ ↔ s.sender j ≠ _
  rcases hmutex with rfl | ⟨hsenders, rfl | rfl⟩
  · exact h.sender j
  · simp [hsenders j]
  · simp [hsenders j]

/-- The log thread holds the mutex at the exchange, so no sender is inside `Send`. -/
theorem MutexOk.of_logger (h : s.MutexOk) (hpc : s.pc = .swap ∨ s.pc = .unlock) :
    s.mutex = some .logger ∧ ∀ j, s.sender j = .outside := by
  have hmutex := h.logger.mpr hpc
  refine ⟨hmutex, fun j => ?_⟩
  by_contra hne
  rw [(h.sender j).mpr hne] at hmutex
  cases hmutex

variable [DecidableEq ι]

/-- A sender moves: it holds the mutex behind the step exactly when it is inside `Send` then. -/
theorem MutexOk.setSender {i : ι} {pc : SendPc M} {mutex : Option (Holder ι)}
    (hpc : s.pc ≠ .swap ∧ s.pc ≠ .unlock) (hothers : ∀ j, j ≠ i → s.sender j = .outside)
    (hi : mutex = some (.sender i) ∧ pc ≠ .outside ∨ mutex = none ∧ pc = .outside) :
    ((s.setMutex mutex).setSender i pc).MutexOk := by
  constructor
  · intro j
    change mutex = _ ↔ Function.update s.sender i pc j ≠ _
    by_cases hj : j = i
    · subst hj
      rw [Function.update_self]
      rcases hi with ⟨rfl, hpc'⟩ | ⟨rfl, rfl⟩
      · simp [hpc']
      · simp
    · rw [Function.update_of_ne hj, hothers j hj]
      rcases hi with ⟨rfl, -⟩ | ⟨rfl, -⟩
      · simp [Ne.symm hj]
      · simp
  · change mutex = _ ↔ s.pc = .swap ∨ s.pc = .unlock
    rcases hi with ⟨rfl, -⟩ | ⟨rfl, -⟩
    · simpa using hpc
    · simpa using hpc

/-- The step lemma. -/
theorem Ok.step (h : s.Ok) (hs : LogStep s e s') : s'.Ok := by
  cases hs with
  | lock hi hmutex =>
    obtain ⟨hsenders, hpc⟩ := h.mutex.of_free hmutex
    exact ⟨⟨h.lists.index, h.lists.distinct⟩,
      MutexOk.setSender hpc (fun j _ => hsenders j) (.inl ⟨rfl, nofun⟩), h.empty⟩
  | @push _ i data hi =>
    obtain ⟨hmutex, hsenders, hpc⟩ := h.mutex.of_inside (by rw [hi]; nofun)
    have hok : ((s.setMutex (some (.sender i))).setSender i .pushed).MutexOk :=
      MutexOk.setSender hpc hsenders (.inl ⟨rfl, nofun⟩)
    refine ⟨⟨h.lists.index, h.lists.distinct⟩, ⟨fun j => ?_, h.mutex.logger⟩, fun hpc' => ?_⟩
    · have := hok.sender j
      rwa [← hmutex] at this
    · change Function.update s.logList s.writeList _ s.readList = []
      rw [Function.update_of_ne h.lists.ne.symm]
      exact h.empty hpc'
  | unlock hi =>
    obtain ⟨-, hsenders, hpc⟩ := h.mutex.of_inside (by rw [hi]; nofun)
    exact ⟨⟨h.lists.index, h.lists.distinct⟩,
      MutexOk.setSender hpc hsenders (.inr ⟨rfl, rfl⟩), h.empty⟩
  | timeout hpc =>
    refine ⟨⟨h.lists.index, h.lists.distinct⟩, h.mutex.setPc (.inl rfl) ?_, nofun⟩
    simp [h.mutex.logger, hpc]
  | test hpc =>
    by_cases hempty : s.logList s.readList = []
    · simp only [hempty, List.isEmpty_nil, if_true]
      refine ⟨⟨h.lists.index, h.lists.distinct⟩, h.mutex.setPc (.inl rfl) ?_, fun _ => hempty⟩
      simp [h.mutex.logger, hpc]
    · simp only [List.isEmpty_iff, hempty, if_false]
      refine ⟨⟨h.lists.index, h.lists.distinct⟩, h.mutex.setPc (.inl rfl) ?_, nofun⟩
      simp [h.mutex.logger, hpc]
  | loggerLock hpc hmutex =>
    obtain ⟨hsenders, -⟩ := h.mutex.of_free hmutex
    exact ⟨⟨h.lists.index, h.lists.distinct⟩,
      h.mutex.setPc (.inr ⟨hsenders, .inr rfl⟩) (by simp), fun _ => h.empty (.inr (.inl hpc))⟩
  | swap hpc =>
    obtain ⟨hmutex, hsenders⟩ := h.mutex.of_logger (.inl hpc)
    obtain ⟨⟨hindex, hdistinct⟩, -⟩ := h.lists.swap
    refine ⟨⟨hindex, hdistinct⟩, ⟨fun j => ?_, ?_⟩, nofun⟩
    · change s.mutex = _ ↔ s.sender j ≠ _
      exact h.mutex.sender j
    · change s.mutex = _ ↔ _
      simp [hmutex, LogThread.setPc]
  | loggerUnlock hpc =>
    obtain ⟨-, hsenders⟩ := h.mutex.of_logger (.inr hpc)
    exact ⟨⟨h.lists.index, h.lists.distinct⟩,
      h.mutex.setPc (.inr ⟨hsenders, .inl rfl⟩) (by simp), nofun⟩
  | output hpc hdata =>
    refine ⟨⟨h.lists.index, h.lists.distinct⟩, ⟨h.mutex.sender, ?_⟩, nofun⟩
    change s.mutex = _ ↔ _
    rw [h.mutex.logger]
    simp [hpc, LogThread.setPc]
  | clear hpc hiter =>
    refine ⟨⟨h.lists.index, h.lists.distinct⟩, ⟨h.mutex.sender, ?_⟩, fun _ => ?_⟩
    · change s.mutex = _ ↔ _
      rw [h.mutex.logger]
      simp [hpc, LogThread.setPc]
    · exact Function.update_self ..

/-- A step appends to the messages what it puts into `write_list_`. -/
theorem messages_step (h : s.Ok) (hs : LogStep s e s') :
    s.messages ++ e.queued = s'.messages := by
  cases hs with
  | lock | unlock => exact List.append_nil _
  | @push _ i data hi =>
    have hread : Function.update s.logList s.writeList
        (s.logList s.writeList ++ [data]) s.readList =
        s.logList s.readList := Function.update_of_ne h.lists.ne.symm ..
    have hwrite : Function.update s.logList s.writeList (s.logList s.writeList ++ [data])
        s.writeList = s.logList s.writeList ++ [data] := Function.update_self ..
    simp only [messages, unread, LogThread.setSender, setList, hread, hwrite, LogEvent.queued,
      List.append_assoc]
  | timeout hpc => simp [messages, unread, LogThread.setPc, hpc, LogEvent.queued]
  | test hpc =>
    by_cases hempty : s.logList s.readList = []
    · simp [messages, unread, LogThread.setPc, hpc, hempty, LogEvent.queued]
    · simp [messages, unread, LogThread.setPc, hpc, hempty, LogEvent.queued]
  | loggerLock hpc => simp [messages, unread, LogThread.setPc, setMutex, hpc, LogEvent.queued]
  | swap hpc =>
    -- `read_list_` is empty, and `write_list_` takes its place
    have hempty := h.empty (.inr (.inr hpc))
    obtain ⟨-, hread, hwrite⟩ := h.lists.swap
    have hlists : s.swapLists.logList = s.logList := rfl
    have houtputs : s.swapLists.outputs = s.outputs := rfl
    simp [messages, unread, LogThread.setPc, hpc, hread, hwrite, hempty, hlists, houtputs,
      LogEvent.queued]
  | loggerUnlock hpc => simp [messages, unread, LogThread.setPc, setMutex, hpc, LogEvent.queued]
  | @output _ iter _ hpc hdata =>
    obtain ⟨hlt, rfl⟩ := List.getElem?_eq_some_iff.mp hdata
    have hunread : s.unread = (s.logList s.readList)[iter] ::
        (s.logList s.readList).drop (iter + 1) := by
      rw [unread, hpc]
      exact List.drop_eq_getElem_cons hlt
    have hafter : ((s.addOutput (s.logList s.readList)[iter]).setPc (.iter (iter + 1))).messages =
        s.outputs ++ [(s.logList s.readList)[iter]] ++
          ((s.logList s.readList).drop (iter + 1) ++ s.logList s.writeList) := rfl
    have hqueued : (LogEvent.output : LogEvent ι M).queued = [] := rfl
    rw [hafter, messages, hunread, hqueued, List.append_nil, List.append_assoc]
    rfl
  | clear hpc hiter =>
    have hwrite : Function.update s.logList s.readList [] s.writeList = s.logList s.writeList :=
      Function.update_of_ne h.lists.ne ..
    have hread : Function.update s.logList s.readList [] s.readList = [] := Function.update_self ..
    have hunread : s.unread = [] := by
      rw [unread, hpc]
      exact List.drop_eq_nil_of_le hiter
    have hafter : ((s.setList s.readList []).setPc .outside).messages =
        s.outputs ++ (Function.update s.logList s.readList [] s.readList ++
          Function.update s.logList s.readList [] s.writeList) := rfl
    rw [hafter, hread, hwrite, messages, hunread]
    exact List.append_nil _

/-- What is in flight is sent, and not yet in `write_list_`. -/
theorem inFlight_step (h : s.Ok) (hs : LogStep s e s') :
    s.inFlight ++ e.sent = e.queued ++ s'.inFlight := by
  cases hs with
  | lock hi hmutex =>
    simp [inFlight, hmutex, LogThread.setSender, setMutex, LogEvent.sent, LogEvent.queued]
  | push hi =>
    obtain ⟨hmutex, -⟩ := h.mutex.of_inside (by rw [hi]; nofun)
    simp [inFlight, hmutex, hi, LogThread.setSender, setList, LogEvent.sent, LogEvent.queued]
  | unlock hi =>
    obtain ⟨hmutex, -⟩ := h.mutex.of_inside (by rw [hi]; nofun)
    simp [inFlight, hmutex, hi, LogThread.setSender, setMutex, LogEvent.sent, LogEvent.queued]
  | timeout | test | output | clear | swap => exact List.append_nil _
  | loggerLock hpc hmutex =>
    simp [inFlight, hmutex, LogThread.setPc, setMutex, LogEvent.sent, LogEvent.queued]
  | loggerUnlock hpc =>
    obtain ⟨hmutex, -⟩ := h.mutex.of_logger (.inr hpc)
    simp [inFlight, hmutex, LogThread.setPc, setMutex, LogEvent.sent, LogEvent.queued]

end LogThread

variable {ι M : Type} [DecidableEq ι]

/-- **The logger neither loses, duplicates nor reorders messages.** In every run of any number of
sending threads and the log thread, `read_list_` and `write_list_` are the two lists of `log_list_`,
and the messages output, the rest of `read_list_` and `write_list_` are the messages put into
`write_list_`: those sent, in the order their `Send`s took the mutex, except for the message of a
`Send` that still holds the mutex and has not appended it. -/
theorem logThread_exactly_once {s : LogThread ι M} {es : List (LogEvent ι M)}
    (hrun : Run LogStep (.new ι M) es s) :
    (s.writeList < 2 ∧ s.readList < 2 ∧ s.writeList ≠ s.readList) ∧
      s.outputs ++ (s.unread ++ s.logList s.writeList) = es.flatMap LogEvent.queued ∧
      es.flatMap LogEvent.queued ++ s.inFlight = es.flatMap LogEvent.sent := by
  have hok : s.Ok := hrun.invariant _ (fun _ _ _ h hs => h.step hs) LogThread.ok_new
  have hqueued := hrun.conserve LogThread.Ok (fun _ _ _ h hs => h.step hs) LogThread.messages
    LogEvent.queued (fun _ _ _ h hs => LogThread.messages_step h hs) LogThread.ok_new
  have hsent := hrun.conserve LogThread.Ok (fun _ _ _ h hs => h.step hs)
    (fun s => s.messages ++ s.inFlight) LogEvent.sent (fun s e s' h hs => by
      rw [List.append_assoc, LogThread.inFlight_step h hs, ← List.append_assoc,
        LogThread.messages_step h hs]) LogThread.ok_new
  have hmessages : es.flatMap LogEvent.queued = s.messages := hqueued
  refine ⟨?_, hmessages.symm, ?_⟩
  · rcases hok.lists.distinct with ⟨hw, hr⟩ | ⟨hw, hr⟩ <;> simp [hw, hr]
  · rw [hmessages]
    exact hsent.symm

/-- One thread sends two messages: the log thread takes over the first, and outputs it while the
second is sent. -/
theorem logThread_exactly_once_two_messages :
    ∃ s : LogThread Unit ℕ, Run LogStep (.new Unit ℕ)
      [.lock () 7, .push () 7, .unlock (), .timeout, .test, .loggerLock, .swap, .loggerUnlock,
        .lock () 8, .output, .push () 8] s ∧ s.readList = 0 ∧ s.outputs = [7] ∧
      s.outputs ++ (s.unread ++ s.logList s.writeList) = [7, 8] := by
  have hrun : ∃ s : LogThread Unit ℕ, Run LogStep (.new Unit ℕ)
      [.lock () 7, .push () 7, .unlock (), .timeout, .test, .loggerLock, .swap, .loggerUnlock,
        .lock () 8, .output, .push () 8] s ∧ s.readList = 0 ∧ s.outputs = [7] :=
    ⟨_, .cons (.lock rfl rfl) <| .cons (.push rfl) <| .cons (.unlock rfl) <| .cons (.timeout rfl) <|
      .cons (.test rfl) <| .cons (.loggerLock rfl rfl) <| .cons (.swap rfl) <|
      .cons (.loggerUnlock rfl) <| .cons (.lock rfl rfl) <| .cons (.output rfl rfl) <|
      .single (.push rfl), rfl, rfl⟩
  obtain ⟨s, hrun, hread, houtputs⟩ := hrun
  exact ⟨s, hrun, hread, houtputs, (logThread_exactly_once hrun).2.1⟩

end ServerKit
