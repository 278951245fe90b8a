import ServerKit.Base.LogSystem
import ServerKit.Base.Verify.LogRecords
import ServerKit.Base.Verify.LogThreadOrder

/-!
# The invariant of the log system

As long as no other thread outputs the data of a FATAL message before its stack has been appended,
the stack fits into what is left of the put area, and `Flush(true)` has the lists for itself,
nothing that has been deleted is accessed. The invariant says of each number in the lists whether
its data is still allocated: the log thread has output a part of `read_list_`, and `Flush(true)` a
part of `write_list_`.
-/

namespace ServerKit

open Lib

namespace LogSystem

variable {ι : Type}

/-! ## The condition -/

/-- The data of the message the thread is with. -/
def Pc.data : Pc → Option ℕ
  | .outside => none
  | .streamed d _ | .sending d _ | .appending d | .flushing d _ _ | .aborted d _ => some d

/-- The thread runs `iterList` of `Flush(true)`, or is between its two calls. -/
def Pc.InFlush : Pc → Prop
  | .flushing _ _ (.call second) => second = true
  | .flushing _ _ (.iter ..) => True
  | _ => False

/-- No thread runs `Flush(true)`. -/
def NoFlush (s : LogSystem ι) : Prop := ∀ i, ¬ (s.pc i).InFlush

/-- The message `d` does not wait for its stack. -/
def NotAppending (s : LogSystem ι) (d : ℕ) : Prop := ∀ i, s.pc i ≠ .appending d

/-- The step does not disturb a FATAL message: nobody outputs a message whose stack has not been
appended; the stack fits into what is left of the put area; and `Flush(true)` does not run beside
`Timeout`, `Send` or another `Flush(true)`. -/
def Undisturbed (s : LogSystem ι) : LogSystemEvent ι → Prop
  | .log .output => ∀ iter d, s.thread.pc = .iter iter →
      (s.thread.logList s.thread.readList)[iter]? = some d → s.NotAppending d
  | .flushOutput i => ∀ d stack second k iter d',
      s.pc i = .flushing d stack (.iter second k iter) →
      (s.thread.logList k)[iter]? = some d' → s.NotAppending d'
  | .append i stack => ∀ d m, s.pc i = .appending d → s.data d = some m →
      m.stream.pcount + stack.length ≤ kMaxLogMessageLen - 2
  | .log .timeout => s.NoFlush
  | .log (.lock _ _) => s.NoFlush
  | .flushCall i => ∀ d stack, s.pc i = .flushing d stack (.call false) →
      s.NoFlush ∧ s.thread.pc = .outside ∧ s.thread.mutex = none
  | _ => True

/-! ## The invariant -/

/-- The numbers in `read_list_`. -/
def readItems (s : LogSystem ι) : List ℕ := s.thread.logList s.thread.readList

/-- The numbers in `write_list_`. -/
def writeItems (s : LogSystem ι) : List ℕ := s.thread.logList s.thread.writeList

def Queued (s : LogSystem ι) (d : ℕ) : Prop := d ∈ s.readItems ∨ d ∈ s.writeItems

/-- How many messages of `read_list_` the log thread has output. -/
def readIter (s : LogSystem ι) : ℕ :=
  match s.thread.pc with
  | .iter iter => iter
  | _ => 0

/-- `Flush(true)` has output the message at the place `n` of `write_list_`. -/
def Flushed (s : LogSystem ι) (n : ℕ) : Prop :=
  ∃ i d stack k iter, s.pc i = .flushing d stack (.iter true k iter) ∧ n < iter

/-- The data is well formed, numbers are used once, and records are those of deleted data. -/
structure DataOk (s : LogSystem ι) : Prop where
  formed : ∀ {d m}, s.data d = some m → m.Ok
  fresh : ∀ {d}, s.next ≤ d → s.data d = none
  filed : ∀ {d text}, (d, text) ∈ s.file → d < s.next ∧ s.data d = none
  queued : ∀ {d}, s.Queued d → d < s.next
  dangling : s.dangling = []

/-- What the lists hold is different, and allocated until it has been output. -/
structure ItemsOk (s : LogSystem ι) : Prop where
  nodup : (s.readItems ++ s.writeItems).Nodup
  read : ∀ {n d}, s.readItems[n]? = some d → (s.data d ≠ none ↔ s.readIter ≤ n)
  write : ∀ {n d}, s.writeItems[n]? = some d → (s.data d ≠ none ↔ ¬ s.Flushed n)

/-- Each thread has data of its own; who is inside `Send` sends its data; and `Flush(true)` has the
lists for itself. -/
structure ThreadsOk (s : LogSystem ι) : Prop where
  lt : ∀ {i d}, (s.pc i).data = some d → d < s.next
  distinct : ∀ {i j d}, (s.pc i).data = some d → (s.pc j).data = some d → i = j
  sender : ∀ {i}, s.thread.sender i ≠ .outside → ∃ d level, s.pc i = .sending d level ∧
    (s.thread.sender i = .locked d ∨ s.thread.sender i = .pushed)
  flush : ∀ {i}, (s.pc i).InFlush → s.thread.pc = .outside ∧ s.thread.mutex = none
  one : ∀ {i j}, (s.pc i).InFlush → (s.pc j).InFlush → i = j
  iter : ∀ {i d stack second k iter}, s.pc i = .flushing d stack (.iter second k iter) →
    k = s.flushList second

/-- The stack has been appended to the data `d`, or stands at the end of its record. -/
structure Stacked (s : LogSystem ι) (d : ℕ) (stack : List UInt8) : Prop where
  live : ∀ {m}, s.data d = some m → s.Queued d ∧ stack <:+ m.slice
  dead : s.data d = none → ∃ text, (d, text) ∈ s.file
  filed : ∀ {text}, (d, text) ∈ s.file → stack <:+ text

/-- What holds of the message of the thread `i`, by where the thread is. -/
def MessageOk (s : LogSystem ι) (i : ι) : Pc → Prop
  | .outside => True
  | .streamed d _ => s.data d ≠ none ∧ ¬ s.Queued d
  | .sending d _ => s.data d ≠ none ∧ (s.thread.sender i ≠ .pushed → ¬ s.Queued d) ∧
      (s.thread.sender i = .pushed → d ∈ s.writeItems)
  | .appending d => s.data d ≠ none ∧ s.Queued d
  | .flushing d stack pc => s.Stacked d stack ∧ (pc = .done → s.data d = none)
  | .aborted d stack => s.Stacked d stack ∧ s.data d = none

/-- The invariant. -/
structure Ok (s : LogSystem ι) : Prop where
  thread : s.thread.Ok
  data : s.DataOk
  items : s.ItemsOk
  threads : s.ThreadsOk
  message : ∀ i, s.MessageOk i (s.pc i)

variable {s s' : LogSystem ι} {i : ι} {d : ℕ} {pc : Pc}

theorem ok_new : (LogSystem.new ι).Ok where
  thread := LogThread.ok_new
  data := ⟨nofun, fun _ => rfl, nofun, by simp [Queued, readItems, writeItems, LogSystem.new,
    LogThread.new], rfl⟩
  items := ⟨List.nodup_nil, nofun, nofun⟩
  threads := ⟨nofun, nofun, fun h => absurd rfl h, fun h => absurd h id, fun h => absurd h id,
    nofun⟩
  message := fun _ => trivial

/-- The message of a thread sees its own data only. -/
theorem MessageOk.congr (h : s.MessageOk i pc)
    (hdata : ∀ d, pc.data = some d → s'.data d = s.data d)
    (hqueued : ∀ d, pc.data = some d → s.data d ≠ none → (s'.Queued d ↔ s.Queued d))
    (hfile : ∀ d, pc.data = some d → ∀ text, (d, text) ∈ s'.file ↔ (d, text) ∈ s.file)
    (hsender : s'.thread.sender i = .pushed ↔ s.thread.sender i = .pushed)
    (hwrite : s.thread.sender i = .pushed → ∀ d, d ∈ s.writeItems → d ∈ s'.writeItems) :
    s'.MessageOk i pc := by
  have hstacked : ∀ d stack, pc.data = some d → s.Stacked d stack → s'.Stacked d stack := by
    intro d stack hd hst
    refine ⟨fun {m} hm => ?_, fun hnone => ?_, fun {text} ht => hst.filed ((hfile d hd text).mp ht)⟩
    · rw [hdata d hd] at hm
      exact ⟨(hqueued d hd (by rw [hm]; nofun)).mpr (hst.live hm).1, (hst.live hm).2⟩
    · rw [hdata d hd] at hnone
      obtain ⟨text, ht⟩ := hst.dead hnone
      exact ⟨text, (hfile d hd text).mpr ht⟩
  cases pc with
  | outside => trivial
  | streamed d level =>
    obtain ⟨hlive, hnot⟩ := h
    exact ⟨by rwa [hdata d rfl], by rwa [hqueued d rfl hlive]⟩
  | sending d level =>
    obtain ⟨hlive, hnot, hpushed⟩ := h
    refine ⟨by rwa [hdata d rfl], fun hne => ?_, fun heq => ?_⟩
    · rw [hqueued d rfl hlive]
      exact hnot (mt hsender.mpr hne)
    · have hwas := hsender.mp heq
      exact hwrite hwas d (hpushed hwas)
  | appending d =>
    obtain ⟨hlive, hq⟩ := h
    exact ⟨by rwa [hdata d rfl], (hqueued d rfl hlive).mpr hq⟩
  | flushing d stack f =>
    obtain ⟨hst, hdone⟩ := h
    exact ⟨hstacked d stack rfl hst, fun hf => by rw [hdata d rfl]; exact hdone hf⟩
  | aborted d stack =>
    obtain ⟨hst, hnone⟩ := h
    exact ⟨hstacked d stack rfl hst, by rwa [hdata d rfl]⟩

/-- A step that leaves the data, the lists and the file alone. -/
theorem MessageOk.same (h : s.MessageOk i pc) (hthread : s'.thread = s.thread)
    (hdata : s'.data = s.data) (hfile : s'.file = s.file) : s'.MessageOk i pc := by
  have hread : s'.readItems = s.readItems := by rw [readItems, readItems, hthread]
  have hwrite : s'.writeItems = s.writeItems := by rw [writeItems, writeItems, hthread]
  refine h.congr (fun d _ => by rw [hdata]) (fun d _ _ => ?_) (fun d _ text => by rw [hfile])
    (by rw [hthread]) fun _ d hd => by rwa [hwrite]
  rw [Queued, Queued, hread, hwrite]

theorem DataOk.same (h : s.DataOk) (hqueued : ∀ d, s'.Queued d → s.Queued d)
    (hdata : s'.data = s.data) (hnext : s'.next = s.next) (hfile : s'.file = s.file)
    (hdangling : s'.dangling = s.dangling) : s'.DataOk where
  formed hd := by
    rw [hdata] at hd
    exact h.formed hd
  fresh hd := by
    rw [hnext] at hd
    rw [hdata]
    exact h.fresh hd
  filed hd := by
    rw [hfile] at hd
    rw [hdata, hnext]
    exact h.filed hd
  queued hd := by
    rw [hnext]
    exact h.queued (hqueued _ hd)
  dangling := hdangling.trans h.dangling

theorem ThreadsOk.same (h : s.ThreadsOk) (hpc : s'.pc = s.pc) (hthread : s'.thread = s.thread)
    (hnext : s.next ≤ s'.next) : s'.ThreadsOk where
  lt hd := by
    rw [hpc] at hd
    exact (h.lt hd).trans_le hnext
  distinct hi hj := by
    rw [hpc] at hi hj
    exact h.distinct hi hj
  sender hne := by
    rw [hthread] at hne ⊢
    rw [hpc]
    exact h.sender hne
  flush hin := by
    rw [hpc] at hin
    rw [hthread]
    exact h.flush hin
  one hi hj := by
    rw [hpc] at hi hj
    exact h.one hi hj
  iter hi := by
    rw [hpc] at hi
    rw [flushList, hthread]
    exact h.iter hi

theorem Ok.message_of (h : s.Ok) (hpc : s.pc i = pc) : s.MessageOk i pc := hpc ▸ h.message i

/-- Nobody is inside `Send` or runs `Flush(true)` while the log thread holds the mutex. -/
theorem Ok.noFlush_of_pc (h : s.Ok) (hpc : s.thread.pc ≠ .outside) : s.NoFlush :=
  fun _ hin => hpc (h.threads.flush hin).1

theorem Ok.noFlush_of_mutex (h : s.Ok) (hmutex : s.thread.mutex ≠ none) : s.NoFlush :=
  fun _ hin => hmutex (h.threads.flush hin).2

theorem inFlush_of_iter {i : ι} {d : ℕ} {stack : List UInt8} {second : Bool} {k iter : ℕ}
    (h : s.pc i = .flushing d stack (.iter second k iter)) : (s.pc i).InFlush := by
  rw [h]
  trivial

/-- Nothing has been flushed unless a thread runs `Flush(true)`. -/
theorem NoFlush.not_flushed (h : s.NoFlush) (n : ℕ) : ¬ s.Flushed n := by
  rintro ⟨i, d, stack, k, iter, hpc, -⟩
  exact h i (inFlush_of_iter hpc)

/-- What is in `read_list_` and still allocated stands behind what the log thread has output. -/
theorem Ok.read_place (h : s.Ok) (hlive : s.data d ≠ none) (hd : d ∈ s.readItems) :
    ∃ n, s.readItems[n]? = some d ∧ s.readIter ≤ n ∧ n < s.readItems.length := by
  obtain ⟨n, hn⟩ := List.mem_iff_getElem?.mp hd
  exact ⟨n, hn, (h.items.read hn).mp hlive, (List.getElem?_eq_some_iff.mp hn).1⟩

/-- A thread that is not the one of the step is inside `Send` as before. -/
theorem ThreadsOk.sender_of (h : s.ThreadsOk) {t : LogThread ι ℕ}
    (hother : ∀ j, j ≠ i → t.sender j = s.thread.sender j)
    (hself : t.sender i ≠ .outside → ∃ d level, s.pc i = .sending d level ∧
      (t.sender i = .locked d ∨ t.sender i = .pushed)) {j : ι} (hj : t.sender j ≠ .outside) :
    ∃ d level, s.pc j = .sending d level ∧ (t.sender j = .locked d ∨ t.sender j = .pushed) := by
  by_cases hji : j = i
  · subst hji
    exact hself hj
  · rw [hother j hji] at hj ⊢
    exact h.sender hj

/-- The data of `pc` is no other thread's. -/
def OwnData (s : LogSystem ι) (i : ι) (pc : Pc) : Prop :=
  ∀ d, pc.data = some d → d < s.next ∧ ∀ j, j ≠ i → (s.pc j).data ≠ some d

theorem ThreadsOk.ownData (h : s.ThreadsOk) (hpc : pc.data = none ∨ pc.data = (s.pc i).data) :
    s.OwnData i pc := by
  intro d hd
  have hown : (s.pc i).data = some d := by
    rcases hpc with hnone | hsame
    · rw [hnone] at hd; cases hd
    · rw [← hsame, hd]
  exact ⟨h.lt hown, fun j hji hj => hji (h.distinct hj hown)⟩

/-- A thread that is inside `Send` sends its message. -/
theorem Ok.sender_outside (h : s.Ok) (hpc : ∀ d level, s.pc i ≠ .sending d level) :
    s.thread.sender i = .outside := by
  by_contra hne
  obtain ⟨d, level, hs, -⟩ := h.threads.sender hne
  exact hpc d level hs

/-- What `Flush(true)` has output of `write_list_` is up to the thread that runs it. -/
theorem ThreadsOk.flushed_iff (h : s.ThreadsOk) (hin : (s.pc i).InFlush) {n : ℕ} :
    s.Flushed n ↔ ∃ d stack k iter, s.pc i = .flushing d stack (.iter true k iter) ∧ n < iter := by
  constructor
  · rintro ⟨j, d, stack, k, iter, hj, hlt⟩
    obtain rfl := h.one (inFlush_of_iter hj) hin
    exact ⟨d, stack, k, iter, hj, hlt⟩
  · rintro ⟨d, stack, k, iter, hi, hlt⟩
    exact ⟨i, d, stack, k, iter, hi, hlt⟩

/-- While a thread runs `Flush(true)`, the log thread is outside `Timeout` and nobody is inside
`Send`. -/
theorem Ok.in_flush (h : s.Ok) (hin : (s.pc i).InFlush) :
    s.readItems = [] ∧ s.thread.mutex = none ∧ ∀ j, s.thread.sender j = .outside := by
  obtain ⟨hpc, hmutex⟩ := h.threads.flush hin
  exact ⟨h.thread.empty (.inl hpc), hmutex, (h.thread.mutex.of_free hmutex).1⟩

/-- Everything in `write_list_` has been output. -/
theorem Ok.flushed_gone (h : s.Ok) {stack : List UInt8} {k iter : ℕ}
    (hpc : s.pc i = .flushing d stack (.iter true k iter)) (hiter : s.writeItems.length ≤ iter)
    {x : ℕ} (hx : s.Queued x) : s.data x = none := by
  rw [Queued, (h.in_flush (inFlush_of_iter hpc)).1] at hx
  obtain ⟨n, hn⟩ := List.mem_iff_getElem?.mp (hx.resolve_left List.not_mem_nil)
  have hlt : n < s.writeItems.length := (List.getElem?_eq_some_iff.mp hn).1
  by_contra hlive
  exact (h.items.write hn).mp hlive ⟨i, d, stack, _, iter, hpc, hlt.trans_le hiter⟩

/-- Nothing that has been deleted has been accessed, and the record of every FATAL message ends with
its stack: there is none before the stack has been appended, and one when the process aborts. -/
structure FatalLogged (s : LogSystem ι) : Prop where
  dangling : s.dangling = []
  before : ∀ i d, s.pc i = .sending d .fatal ∨ s.pc i = .appending d →
    ∀ text, (d, text) ∉ s.file
  record : ∀ i d stack f, s.pc i = .flushing d stack f →
    ∀ text, (d, text) ∈ s.file → stack <:+ text
  aborted : ∀ i d stack, s.pc i = .aborted d stack →
    (∃ text, (d, text) ∈ s.file) ∧ ∀ text, (d, text) ∈ s.file → stack <:+ text

theorem Ok.fatalLogged (h : s.Ok) : s.FatalLogged := by
  refine ⟨h.data.dangling, fun i d hpc text ht => ?_, fun i d stack f hpc text ht => ?_,
    fun i d stack hpc => ?_⟩
  · rcases hpc with hpc | hpc
    · exact (h.message_of hpc).1 (h.data.filed ht).2
    · exact (h.message_of hpc).1 (h.data.filed ht).2
  · exact (h.message_of hpc).1.filed ht
  · have hmsg := h.message_of hpc
    exact ⟨hmsg.1.dead hmsg.2, fun _ ht => hmsg.1.filed ht⟩

/-! ## Where a thread goes -/

variable [DecidableEq ι]

theorem setPc_self : (s.setPc i pc).pc i = pc := Function.update_self ..

theorem setPc_other {j : ι} (hji : j ≠ i) : (s.setPc i pc).pc j = s.pc j :=
  Function.update_of_ne hji ..

theorem flushed_setPc {n : ℕ} (hold : ¬ (s.pc i).InFlush) (hnew : ¬ pc.InFlush) :
    (s.setPc i pc).Flushed n ↔ s.Flushed n := by
  constructor
  · rintro ⟨j, d, stack, k, iter, hj, hlt⟩
    by_cases hji : j = i
    · subst hji
      rw [setPc_self] at hj
      rw [hj] at hnew
      exact absurd trivial hnew
    · rw [setPc_other hji] at hj
      exact ⟨j, d, stack, k, iter, hj, hlt⟩
  · rintro ⟨j, d, stack, k, iter, hj, hlt⟩
    have hji : j ≠ i := fun heq => hold (heq ▸ inFlush_of_iter hj)
    exact ⟨j, d, stack, k, iter, (setPc_other hji).trans hj, hlt⟩

/-- A thread that is not inside `Send` goes on. -/
theorem ThreadsOk.setPc (h : s.ThreadsOk) (hdata : s.OwnData i pc)
    (hsender : s.thread.sender i = .outside)
    (hflush : pc.InFlush → s.thread.pc = .outside ∧ s.thread.mutex = none ∧
      ∀ j, j ≠ i → ¬ (s.pc j).InFlush)
    (hiter : ∀ {d stack second k iter}, pc = .flushing d stack (.iter second k iter) →
      k = s.flushList second) :
    (s.setPc i pc).ThreadsOk := by
  have hpc : ∀ j, (s.setPc i pc).pc j = if j = i then pc else s.pc j := fun j =>
    Function.update_apply ..
  refine ⟨fun {j d} hj => ?_, fun {j k d} hj hk => ?_, fun {j} hj => ?_, fun {j} hj => ?_,
    fun {j k} hj hk => ?_, fun {j d stack second k iter} hj => ?_⟩
  · rw [hpc] at hj
    split at hj
    · exact (hdata d hj).1
    · exact h.lt hj
  · rw [hpc] at hj hk
    split at hj
    · next hji =>
      split at hk
      · next hki => rw [hji, hki]
      · next hki => exact absurd hk ((hdata d hj).2 k hki)
    · next hji =>
      split at hk
      · exact absurd hj ((hdata d hk).2 j hji)
      · exact h.distinct hj hk
  · have hji : j ≠ i := fun heq => hj (heq ▸ hsender)
    obtain ⟨d, level, hs, hrest⟩ := h.sender hj
    exact ⟨d, level, by rw [hpc, if_neg hji, hs], hrest⟩
  · rw [hpc] at hj
    split at hj
    · exact ⟨(hflush hj).1, (hflush hj).2.1⟩
    · exact h.flush hj
  · rw [hpc] at hj hk
    split at hj
    · next hji =>
      split at hk
      · next hki => rw [hji, hki]
      · next hki => exact absurd hk ((hflush hj).2.2 k hki)
    · next hji =>
      split at hk
      · exact absurd hj ((hflush hk).2.2 j hji)
      · exact h.one hj hk
  · rw [hpc] at hj
    split at hj
    · exact hiter hj
    · exact h.iter hj

/-- A thread that is not inside `Send` or `Flush(true)` goes on. -/
theorem Ok.of_setPc (hthread : s.thread.Ok) (hdata : s.DataOk) (hitems : s.ItemsOk)
    (hthreads : s.ThreadsOk) (hothers : ∀ j, j ≠ i → s.MessageOk j (s.pc j))
    (hsender : s.thread.sender i = .outside) (hold : ¬ (s.pc i).InFlush) (hnew : ¬ pc.InFlush)
    (hown : s.OwnData i pc) (hpc : s.MessageOk i pc) : (s.setPc i pc).Ok where
  thread := hthread
  data := hdata.same (fun _ hd => hd) rfl rfl rfl rfl
  items := ⟨hitems.nodup, hitems.read, fun {n d} hn => by
    rw [flushed_setPc hold hnew]
    exact hitems.write hn⟩
  threads := hthreads.setPc hown hsender (fun hin => absurd hin hnew) fun heq => by
    rw [heq] at hnew
    exact absurd trivial hnew
  message := fun j => by
    by_cases hji : j = i
    · subst hji
      rw [setPc_self]
      exact hpc.same rfl rfl rfl
    · rw [setPc_other hji]
      exact (hothers j hji).same rfl rfl rfl

/-- A thread goes on in `Flush(true)`, with the lists for itself; `hwrite` says which data of
`write_list_` is still allocated then. -/
theorem Ok.flush_setPc (hthread : s.thread.Ok) (hdata : s.DataOk) (hnodup : (s.readItems ++
      s.writeItems).Nodup) (hempty : s.readItems = []) (hthreads : s.ThreadsOk)
    (hmsg : ∀ j, j ≠ i → s.MessageOk j (s.pc j)) (hout : s.thread.pc = .outside)
    (hmutex : s.thread.mutex = none) (hone : ∀ j, j ≠ i → ¬ (s.pc j).InFlush)
    {stack : List UInt8} {f : FlushPc} (hown : (s.pc i).data = some d)
    (hiter : ∀ {second k iter}, f = .iter second k iter → k = s.flushList second)
    (hwrite : ∀ {n x}, s.writeItems[n]? = some x → (s.data x ≠ none ↔
      ¬ ∃ k iter, f = .iter true k iter ∧ n < iter))
    (hpc : s.MessageOk i (.flushing d stack f)) : (s.setPc i (.flushing d stack f)).Ok := by
  refine ⟨hthread, hdata.same (fun _ hd => hd) rfl rfl rfl rfl,
    ⟨hnodup, fun {n x} hn => ?_, fun {n x} hn => (hwrite hn).trans (not_congr ⟨?_, ?_⟩)⟩,
    hthreads.setPc (hthreads.ownData (.inr hown.symm))
      ((LogThread.MutexOk.of_free hthread.mutex hmutex).1 i) (fun _ => ⟨hout, hmutex, hone⟩)
      fun heq => hiter (by injection heq), fun j => ?_⟩
  · change s.readItems[n]? = some x at hn
    rw [hempty] at hn
    cases hn
  · rintro ⟨k, iter, rfl, hlt⟩
    exact ⟨i, d, stack, k, iter, setPc_self, hlt⟩
  · rintro ⟨j, d', stack', k, iter, hj, hlt⟩
    by_cases hji : j = i
    · rw [hji, setPc_self] at hj
      injection hj with _ _ hf
      exact ⟨k, iter, hf, hlt⟩
    · rw [setPc_other hji] at hj
      exact absurd (inFlush_of_iter hj) (hone j hji)
  · by_cases hji : j = i
    · rw [hji, setPc_self]
      exact hpc.same rfl rfl rfl
    · rw [setPc_other hji]
      exact (hmsg j hji).same rfl rfl rfl

end LogSystem

end ServerKit
