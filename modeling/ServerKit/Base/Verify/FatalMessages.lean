import ServerKit.Base.Verify.LogSystemInv

/-!
# FATAL messages and the log thread

The data of a FATAL message is handed over before the call stack is appended to it. Each step that
does not disturb a FATAL message keeps the invariant, so no data is accessed behind its `delete`,
and the record of the message ends with the stack.
-/

namespace ServerKit

open Lib

namespace LogSystem

variable {ι : Type} {s s' : LogSystem ι} {i : ι} {d : ℕ} {pc : Pc}

/-! ### Writing and output -/

/-- The system with other data at a number. -/
def setData (s : LogSystem ι) (d : ℕ) (m : LogMessageData) : LogSystem ι :=
  { s with data := Function.update s.data d (some m) }

theorem writeData_ok {m m' : LogMessageData} {write : LogMessageData → Except Fault LogMessageData}
    (hm : s.data d = some m) (hw : write m = .ok m') :
    s.writeData i d write = .ok (s.setData d m') := by
  rw [writeData, hm]
  simp only [hw, ok_bind]
  rfl

theorem writeData_eq {m : LogMessageData} {write : LogMessageData → Except Fault LogMessageData}
    (hm : s.data d = some m) (h : s.writeData i d write = .ok s') :
    ∃ m', write m = .ok m' ∧ s' = s.setData d m' := by
  rw [writeData, hm] at h
  cases hw : write m with
  | error f =>
    simp only [hw] at h
    cases h
  | ok m' =>
    simp only [hw, ok_bind] at h
    exact ⟨m', rfl, (Except.ok.inj h).symm⟩

/-- The data `d` is output and deleted: its record goes to the file. -/
theorem outputData_eq {m : LogMessageData} (who : Option ι) (hm : s.data d = some m) :
    s.outputData who d =
      { s with data := Function.update s.data d none, file := s.file ++ [(d, m.slice)] } := by
  rw [outputData, hm]

/-- Deleting the data at the next place of a list. -/
theorem delete_iff {l : List ℕ} (hnodup : l.Nodup) {iter n x : ℕ} (hd : l[iter]? = some d)
    (hx : l[n]? = some x) (hplace : s.data x ≠ none ↔ iter ≤ n) :
    Function.update s.data d none x ≠ none ↔ iter + 1 ≤ n := by
  by_cases hxd : x = d
  · subst hxd
    obtain rfl : iter = n :=
      (List.getElem?_inj (List.getElem?_eq_some_iff.mp hd).1 hnodup).mp (hd.trans hx.symm)
    rw [Function.update_self]
    exact ⟨fun hne => absurd rfl hne, fun hle => absurd hle (Nat.not_succ_le_self _)⟩
  · have hne : n ≠ iter := by
      rintro rfl
      exact hxd (Option.some.inj (hx.symm.trans hd))
    rw [Function.update_of_ne hxd, hplace]
    omega

/-- What the output of data in the lists leaves of what holds of a message, when it does not wait
for its stack and is not inside `Send`. -/
theorem Ok.output_message (h : s.Ok) {m : LogMessageData} (who : Option ι) (hm : s.data d = some m)
    (hq : s.Queued d) (happ : s.NotAppending d)
    (hsend : ∀ j level, s.pc j = .sending d level → s.thread.sender j ≠ .pushed) (j : ι) :
    (s.outputData who d).MessageOk j (s.pc j) := by
  rw [outputData_eq who hm]
  have hself : Function.update s.data d none d = none := Function.update_self ..
  have hmsg := h.message j
  by_cases hown : (s.pc j).data = some d
  · cases hpc : s.pc j with
    | outside => trivial
    | streamed d' level =>
      rw [hpc] at hmsg hown
      obtain rfl : d' = d := Option.some.inj hown
      exact absurd hq hmsg.2
    | sending d' level =>
      rw [hpc] at hmsg hown
      obtain rfl : d' = d := Option.some.inj hown
      exact absurd hq (hmsg.2.1 (hsend j level hpc))
    | appending d' =>
      rw [hpc] at hown
      obtain rfl : d' = d := Option.some.inj hown
      exact absurd hpc (happ j)
    | flushing d' stack f =>
      rw [hpc] at hmsg hown
      obtain rfl : d' = d := Option.some.inj hown
      refine ⟨⟨fun hx => (by cases hself.symm.trans hx), fun _ => ⟨m.slice, by simp⟩,
        fun {text} ht => ?_⟩, fun _ => hself⟩
      rcases List.mem_append.mp ht with ht | ht
      · rw [(h.data.filed ht).2] at hm
        cases hm
      · obtain rfl : text = m.slice := (Prod.mk.inj (List.mem_singleton.mp ht)).2
        exact (hmsg.1.live hm).2
    | aborted d' stack =>
      rw [hpc] at hmsg hown
      obtain rfl : d' = d := Option.some.inj hown
      rw [hmsg.2] at hm
      cases hm
  · have hne : ∀ x, (s.pc j).data = some x → x ≠ d := fun x hx heq => hown (heq ▸ hx)
    exact hmsg.congr (fun x hx => Function.update_of_ne (hne x hx) ..) (fun _ _ _ => Iff.rfl)
      (fun x hx text => by simp [hne x hx]) Iff.rfl fun _ _ hd => hd

theorem Ok.output_data (h : s.Ok) {m : LogMessageData} (who : Option ι) (hm : s.data d = some m)
    (hq : s.Queued d) : (s.outputData who d).DataOk := by
  rw [outputData_eq who hm]
  have hother : ∀ x, x ≠ d → Function.update s.data d none x = s.data x := fun x hx =>
    Function.update_of_ne hx ..
  have hself : Function.update s.data d none d = none := Function.update_self ..
  refine ⟨fun {x y} hx => ?_, fun {x} hx => ?_, fun {x text} hx => ?_, h.data.queued,
    h.data.dangling⟩
  · by_cases hxd : x = d
    · subst hxd
      cases hself.symm.trans hx
    · exact h.data.formed ((hother x hxd).symm.trans hx)
  · by_cases hxd : x = d
    · rw [hxd]; exact hself
    · exact (hother x hxd).trans (h.data.fresh hx)
  · by_cases hxd : x = d
    · rw [hxd]; exact ⟨h.data.queued hq, hself⟩
    · have hfile : (x, text) ∈ s.file := by
        refine (List.mem_append.mp hx).resolve_right fun hlast => hxd ?_
        exact (Prod.mk.inj (List.mem_singleton.mp hlast)).1
      obtain ⟨hlt, hgone⟩ := h.data.filed hfile
      exact ⟨hlt, (hother x hxd).trans hgone⟩

/-! ### The log thread -/

/-- A step of the log thread or of `Send` that leaves the two lists as they are. -/
theorem Ok.withThread (h : s.Ok) {t : LogThread ι ℕ} (hok : t.Ok)
    (hlists : t.readList = s.thread.readList ∧ t.writeList = s.thread.writeList ∧
      t.logList = s.thread.logList)
    (hiter : (s.setThread t).readIter = s.readIter)
    (hsender : ∀ {j}, t.sender j ≠ .outside → ∃ d level, s.pc j = .sending d level ∧
      (t.sender j = .locked d ∨ t.sender j = .pushed))
    (hpushed : ∀ j, t.sender j = .pushed ↔ s.thread.sender j = .pushed)
    (hflush : ∀ {j}, (s.pc j).InFlush → t.pc = .outside ∧ t.mutex = none) :
    (s.setThread t).Ok := by
  obtain ⟨hr, hw, hl⟩ := hlists
  have hread : (s.setThread t).readItems = s.readItems := by
    change t.logList t.readList = _
    rw [hl, hr, readItems]
  have hwrite : (s.setThread t).writeItems = s.writeItems := by
    change t.logList t.writeList = _
    rw [hl, hw, writeItems]
  have hqueued : ∀ d, (s.setThread t).Queued d ↔ s.Queued d := fun d => by
    rw [Queued, Queued, hread, hwrite]
  refine
    { thread := hok
      data := h.data.same (fun d => (hqueued d).mp) rfl rfl rfl rfl
      items := ⟨by rw [hread, hwrite]; exact h.items.nodup, fun {n d} hn => ?_, fun {n d} hn => ?_⟩
      threads := ⟨h.threads.lt, h.threads.distinct, hsender, hflush, h.threads.one, fun hpc => ?_⟩
      message := fun j => (h.message j).congr (fun _ _ => rfl) (fun d _ _ => hqueued d)
        (fun _ _ _ => Iff.rfl) (hpushed j) fun _ d hd => by rwa [hwrite] }
  · rw [hread] at hn
    rw [hiter]
    exact h.items.read hn
  · rw [hwrite] at hn
    exact h.items.write hn
  · rw [h.threads.iter hpc, flushList, flushList]
    change _ = if _ then t.writeList else t.readList
    rw [hr, hw]

/-- The log thread exchanges the lists. -/
theorem Ok.swap (h : s.Ok) (hpc : s.thread.pc = .swap)
    (hok : (s.thread.swapLists.setPc .unlock).Ok) :
    (s.setThread (s.thread.swapLists.setPc .unlock)).Ok := by
  obtain ⟨-, hr, hw⟩ := h.thread.lists.swap
  have hno : s.NoFlush := h.noFlush_of_pc (by simp [hpc])
  have hempty : s.readItems = [] := h.thread.empty (.inr (.inr hpc))
  have hsenders := (h.thread.mutex.of_logger (.inl hpc)).2
  have hread : (s.setThread (s.thread.swapLists.setPc .unlock)).readItems = s.writeItems := by
    change s.thread.logList s.thread.swapLists.readList = _
    rw [hr, writeItems]
  have hwrite : (s.setThread (s.thread.swapLists.setPc .unlock)).writeItems = s.readItems := by
    change s.thread.logList s.thread.swapLists.writeList = _
    rw [hw, readItems]
  have hqueued : ∀ d, (s.setThread (s.thread.swapLists.setPc .unlock)).Queued d ↔ s.Queued d :=
    fun d => by
      rw [Queued, Queued, hread, hwrite]
      exact Or.comm
  refine
    { thread := hok
      data := h.data.same (fun d => (hqueued d).mp) rfl rfl rfl rfl
      items := ⟨?_, fun {n d} hn => ?_, fun {n d} hn => ?_⟩
      threads := ⟨h.threads.lt, h.threads.distinct, h.threads.sender,
        fun hin => absurd hin (hno _), h.threads.one,
        fun hi => absurd (inFlush_of_iter hi) (hno _)⟩
      message := fun j => (h.message j).congr (fun _ _ => rfl) (fun d _ _ => hqueued d)
        (fun _ _ _ => Iff.rfl) Iff.rfl fun hp => by rw [hsenders j] at hp; cases hp }
  · rw [hread, hwrite, hempty, List.append_nil]
    exact (List.nodup_append.mp h.items.nodup).2.1
  · rw [hread] at hn
    exact ⟨fun _ => Nat.zero_le _, fun _ => (h.items.write hn).mpr (hno.not_flushed n)⟩
  · rw [hwrite, hempty] at hn
    cases hn

/-- A list that has been worked off is cleared: what is still allocated is in the other one. -/
theorem Ok.clear (h : s.Ok) {iter : ℕ} (hpc : s.thread.pc = .iter iter)
    (hiter : s.readItems.length ≤ iter)
    (hok : ((s.thread.setList s.thread.readList []).setPc .outside).Ok) :
    (s.setThread ((s.thread.setList s.thread.readList []).setPc .outside)).Ok := by
  have hread : (s.setThread ((s.thread.setList s.thread.readList []).setPc .outside)).readItems =
      [] := Function.update_self ..
  have hwrite : (s.setThread ((s.thread.setList s.thread.readList []).setPc .outside)).writeItems =
      s.writeItems := Function.update_of_ne h.thread.lists.ne ..
  have hqueued : ∀ d, s.data d ≠ none →
      ((s.setThread ((s.thread.setList s.thread.readList []).setPc .outside)).Queued d ↔
        s.Queued d) := by
    intro d hlive
    rw [Queued, Queued, hread, hwrite]
    refine ⟨fun hd => .inr (hd.resolve_left List.not_mem_nil), fun hd => .inr ?_⟩
    refine hd.resolve_left fun hd => ?_
    obtain ⟨n, -, hle, hlt⟩ := h.read_place hlive hd
    rw [readIter, hpc] at hle
    exact absurd (hlt.trans_le hiter) (Nat.not_lt.mpr hle)
  refine
    { thread := hok
      data := ⟨h.data.formed, h.data.fresh, h.data.filed, fun {d} hd => ?_, h.data.dangling⟩
      items := ⟨?_, fun {n d} hn => ?_, fun {n d} hn => ?_⟩
      threads := ⟨h.threads.lt, h.threads.distinct, h.threads.sender,
        fun hin => absurd hin (h.noFlush_of_pc (by simp [hpc]) _), h.threads.one,
        h.threads.iter⟩
      message := fun j => (h.message j).congr (fun _ _ => rfl) (fun d _ => hqueued d)
        (fun _ _ _ => Iff.rfl) Iff.rfl fun _ d hd => by rwa [hwrite] }
  · rw [Queued, hread, hwrite] at hd
    exact h.data.queued (.inr (hd.resolve_left List.not_mem_nil))
  · rw [hread, hwrite, List.nil_append]
    exact (List.nodup_append.mp h.items.nodup).2.1
  · rw [hread] at hn
    cases hn
  · rw [hwrite] at hn
    exact h.items.write hn

variable [DecidableEq ι]

/-- The steps of the log thread but `output`. -/
theorem Ok.logger (h : s.Ok) {e : LogEvent ι ℕ} {t : LogThread ι ℕ} (he : e.ofLogger = true)
    (hstep : LogStep s.thread e t) (hcond : s.Undisturbed (.log e)) : (s.setThread t).Ok := by
  have hok : t.Ok := h.thread.step hstep
  -- a step from a place in front of the loop to another
  have hkeep : ∀ pc mutex, (∀ n, s.thread.pc = .iter n → n = 0) → (∀ n, pc = .iter n → n = 0) →
      s.NoFlush → ((s.thread.setMutex mutex).setPc pc).Ok →
      (s.setThread ((s.thread.setMutex mutex).setPc pc)).Ok := by
    intro pc mutex hbefore hafter hno hok
    refine h.withThread hok ⟨rfl, rfl, rfl⟩ ?_ h.threads.sender (fun _ => Iff.rfl)
      fun hin => absurd hin (hno _)
    have hzero : ∀ (u : LogSystem ι), (∀ n, u.thread.pc = .iter n → n = 0) → u.readIter = 0 := by
      intro u hu
      rw [readIter]
      split
      · next n hn => exact hu n hn
      · rfl
    rw [hzero s hbefore, hzero _ hafter]
  cases hstep with
  | timeout hpc => exact hkeep .test s.thread.mutex (by simp [hpc]) nofun hcond hok
  | test hpc =>
    refine hkeep _ s.thread.mutex (by simp [hpc]) ?_ (h.noFlush_of_pc (by simp [hpc])) hok
    split
    · exact nofun
    · exact fun n hn => (LogThread.Pc.iter.inj hn).symm
  | loggerLock hpc hmutex =>
    exact hkeep .swap (some .logger) (by simp [hpc]) nofun (h.noFlush_of_pc (by simp [hpc])) hok
  | loggerUnlock hpc =>
    exact hkeep (.iter 0) none (by simp [hpc]) (fun n hn => (LogThread.Pc.iter.inj hn).symm)
      (h.noFlush_of_pc (by simp [hpc])) hok
  | swap hpc => exact h.swap hpc hok
  | clear hpc hiter => exact h.clear hpc hiter hok
  | lock | push | unlock | output => cases he

/-! ### Steps of the threads -/

theorem Ok.lock (h : s.Ok) {level : LogLevel} {t : LogThread ι ℕ} (hpc : s.pc i = .sending d level)
    (hstep : LogStep s.thread (.lock i d) t) (hcond : s.NoFlush) : (s.setThread t).Ok := by
  have hok : t.Ok := h.thread.step hstep
  cases hstep with
  | lock hout hmutex =>
    refine h.withThread hok ⟨rfl, rfl, rfl⟩ rfl (h.threads.sender_of (i := i)
      (fun j hji => Function.update_of_ne hji ..)
      fun _ => ⟨d, level, hpc, .inl (Function.update_self ..)⟩) (fun j => ?_)
      fun hin => absurd hin (hcond _)
    · change Function.update s.thread.sender i _ j = _ ↔ _
      by_cases hji : j = i
      · subst hji
        rw [Function.update_self, hout]
        exact ⟨nofun, nofun⟩
      · rw [Function.update_of_ne hji]

theorem Ok.push (h : s.Ok) {level : LogLevel} {t : LogThread ι ℕ} (hpc : s.pc i = .sending d level)
    (hstep : LogStep s.thread (.push i d) t) : (s.setThread t).Ok := by
  have hok : t.Ok := h.thread.step hstep
  cases hstep with
  | push hlocked =>
    obtain ⟨hmutex, -⟩ := h.thread.mutex.of_inside (i := i) (by rw [hlocked]; nofun)
    have hno : s.NoFlush := h.noFlush_of_mutex (by rw [hmutex]; nofun)
    obtain ⟨hlive, hnot, -⟩ := h.message_of hpc
    have hnew : ¬ s.Queued d := hnot (by rw [hlocked]; nofun)
    have hown : (s.pc i).data = some d := congrArg Pc.data hpc
    set t := (s.thread.setList s.thread.writeList
      (s.thread.logList s.thread.writeList ++ [d])).setSender i .pushed with ht
    have hread : (s.setThread t).readItems = s.readItems :=
      Function.update_of_ne h.thread.lists.ne.symm ..
    have hwrite : (s.setThread t).writeItems = s.writeItems ++ [d] := Function.update_self ..
    have hqueued : ∀ x, (s.setThread t).Queued x ↔ s.Queued x ∨ x = d := fun x => by
      rw [Queued, Queued, hread, hwrite, List.mem_append, List.mem_singleton, or_assoc]
    have hsender : ∀ j, j ≠ i → t.sender j = s.thread.sender j := fun j hji =>
      Function.update_of_ne hji ..
    have hself : t.sender i = .pushed := Function.update_self ..
    refine
      { thread := hok
        data := ⟨h.data.formed, h.data.fresh, h.data.filed, fun {x} hx => ?_, h.data.dangling⟩
        items := ⟨?_, fun {n x} hn => ?_, fun {n x} hn => ?_⟩
        threads := ⟨h.threads.lt, h.threads.distinct,
          h.threads.sender_of hsender fun _ => ⟨d, level, hpc, .inr hself⟩,
          fun hin => absurd hin (hno _), h.threads.one,
          fun hi => absurd (inFlush_of_iter hi) (hno _)⟩
        message := fun j => ?_ }
    · rcases (hqueued x).mp hx with hx | rfl
      · exact h.data.queued hx
      · exact h.threads.lt hown
    · rw [hread, hwrite, ← List.append_assoc]
      refine List.nodup_append.mpr ⟨h.items.nodup, by simp, fun x hx y hy heq => hnew ?_⟩
      obtain rfl : y = d := by simpa using hy
      rw [← heq]
      exact List.mem_append.mp hx
    · rw [hread] at hn
      exact h.items.read hn
    · rw [hwrite] at hn
      by_cases hlt : n < s.writeItems.length
      · rw [List.getElem?_append_left hlt] at hn
        exact h.items.write hn
      · rw [List.getElem?_append_right (Nat.le_of_not_lt hlt)] at hn
        obtain rfl : d = x := (List.mem_singleton.mp (List.mem_of_getElem? hn)).symm
        exact ⟨fun _ => hno.not_flushed n, fun _ => hlive⟩
    · change MessageOk _ j (s.pc j)
      by_cases hji : j = i
      · subst hji
        rw [hpc]
        exact ⟨hlive, fun hne => absurd hself hne, fun _ => by rw [hwrite]; simp⟩
      · refine (h.message j).congr (fun _ _ => rfl) (fun x hx _ => ?_) (fun _ _ _ => Iff.rfl)
          (by rw [← hsender j hji]; rfl) fun _ x hx => by rw [hwrite]; simp [hx]
        rw [hqueued]
        refine or_iff_left fun heq => hji ?_
        rw [heq] at hx
        exact h.threads.distinct hx hown

theorem Ok.unlock (h : s.Ok) {level : LogLevel} {t : LogThread ι ℕ}
    (hpc : s.pc i = .sending d level)
    (hstep : LogStep s.thread (.unlock i) t) :
    ((s.setThread t).setPc i (afterSend d level)).Ok := by
  have hok : t.Ok := h.thread.step hstep
  cases hstep with
  | unlock hpushed =>
    obtain ⟨hmutex, -⟩ := h.thread.mutex.of_inside (i := i) (by rw [hpushed]; nofun)
    have hno : s.NoFlush := h.noFlush_of_mutex (by rw [hmutex]; nofun)
    obtain ⟨hlive, -, hwrite⟩ := h.message_of hpc
    set t := (s.thread.setMutex none).setSender i .outside with ht
    have hsender : ∀ j, j ≠ i → t.sender j = s.thread.sender j := fun j hji =>
      Function.update_of_ne hji ..
    have hself : t.sender i = .outside := Function.update_self ..
    have hthreads : (s.setThread t).ThreadsOk :=
      ⟨h.threads.lt, h.threads.distinct, h.threads.sender_of hsender (absurd hself),
        fun hin => absurd hin (hno _), h.threads.one, h.threads.iter⟩
    refine Ok.of_setPc hok (h.data.same (fun _ hd => hd) rfl rfl rfl rfl)
      ⟨h.items.nodup, h.items.read, h.items.write⟩ hthreads
      (fun j hji => (h.message j).congr (fun _ _ => rfl) (fun _ _ _ => Iff.rfl)
        (fun _ _ _ => Iff.rfl) (by rw [← hsender j hji]; rfl) fun _ _ hd => hd)
      hself (hno i) ?_ (hthreads.ownData ?_) ?_
    · rw [afterSend]
      split <;> exact id
    · rw [afterSend]
      split
      · exact .inr (by change _ = (s.pc i).data; rw [hpc]; rfl)
      · exact .inl rfl
    · rw [afterSend]
      split
      · exact ⟨hlive, .inr (hwrite hpushed)⟩
      · trivial

theorem Ok.streamed (h : s.Ok) {text : ℕ → UInt8} {header : List UInt8}
    {strings : List (List UInt8)} {level : LogLevel} {m : LogMessageData} (hpc : s.pc i = .outside)
    (hm : LogMessage.streamed text header strings = .ok m) :
    ((s.addData m).setPc i (.streamed s.next level)).Ok := by
  obtain ⟨m', hm', hmok, -⟩ := LogMessage.streamed_ok text header strings
  obtain rfl : m = m' := Except.ok.inj (hm.symm.trans hm')
  have hother : ∀ d, d ≠ s.next → (s.addData m).data d = s.data d := fun d hd =>
    Function.update_of_ne hd ..
  have hself : (s.addData m).data s.next = some m := Function.update_self ..
  have hold : ∀ {d}, d < s.next → (s.addData m).data d = s.data d := fun hd =>
    hother _ (Nat.ne_of_lt hd)
  have hdata : (s.addData m).DataOk := by
    refine ⟨fun {d m'} hd => ?_, fun {d} hd => ?_, fun {d text} hd => ?_,
      fun {d} hd => Nat.lt_succ_of_lt (h.data.queued hd), h.data.dangling⟩
    · by_cases heq : d = s.next
      · rw [heq, hself] at hd
        rwa [← Option.some.inj hd]
      · rw [hother d heq] at hd
        exact h.data.formed hd
    · change s.next + 1 ≤ d at hd
      rw [hother d (by omega)]
      exact h.data.fresh (by omega)
    · obtain ⟨hlt, hnone⟩ := h.data.filed hd
      exact ⟨Nat.lt_succ_of_lt hlt, by rw [hold hlt]; exact hnone⟩
  have hitems : (s.addData m).ItemsOk := by
    refine ⟨h.items.nodup, fun {n d} hn => ?_, fun {n d} hn => ?_⟩
    · rw [hold (h.data.queued (.inl (List.mem_of_getElem? hn)))]
      exact h.items.read hn
    · rw [hold (h.data.queued (.inr (List.mem_of_getElem? hn)))]
      exact h.items.write hn
  have hthreads : (s.addData m).ThreadsOk := h.threads.same rfl rfl (Nat.le_succ _)
  have hown : (s.addData m).OwnData i (.streamed s.next level) := by
    intro d hd
    obtain rfl : s.next = d := Option.some.inj hd
    exact ⟨Nat.lt_succ_self _, fun j _ hj => Nat.lt_irrefl _ (h.threads.lt hj)⟩
  refine Ok.of_setPc h.thread hdata hitems hthreads (fun j _ => ?_)
    (h.sender_outside (by simp [hpc])) (by change ¬ (s.pc i).InFlush; rw [hpc]; exact id) id hown ?_
  · refine (h.message j).congr (fun d hd => hold (h.threads.lt hd)) (fun _ _ _ => Iff.rfl)
      (fun _ _ _ => Iff.rfl) Iff.rfl fun _ _ hd => hd
  · refine ⟨by rw [hself]; nofun, fun hq => Nat.lt_irrefl _ (h.data.queued hq)⟩

/-- The thread `i` has written into the data of its message, and goes on. -/
theorem Ok.written (h : s.Ok) {m m' : LogMessageData} (hown : (s.pc i).data = some d)
    (hm : s.data d = some m) (hm' : m'.Ok) (hsender : s.thread.sender i = .outside)
    (hold : ¬ (s.pc i).InFlush) (hnew : ¬ pc.InFlush) (hpc : pc.data = some d)
    (hmsg : (s.setData d m').MessageOk i pc) : ((s.setData d m').setPc i pc).Ok := by
  have hself : (s.setData d m').data d = some m' := Function.update_self ..
  have hother : ∀ x, x ≠ d → (s.setData d m').data x = s.data x := fun x hx =>
    Function.update_of_ne hx ..
  have hlive : ∀ x, (s.setData d m').data x ≠ none ↔ s.data x ≠ none := by
    intro x
    by_cases hx : x = d
    · rw [hx, hself, hm]
      exact ⟨fun _ => nofun, fun _ => nofun⟩
    · rw [hother x hx]
  have hnone : ∀ x, (s.setData d m').data x = none ↔ s.data x = none := fun x =>
    not_iff_not.mp (hlive x)
  refine Ok.of_setPc h.thread ⟨fun {x y} hx => ?_, fun {x} hx => (hnone x).mpr (h.data.fresh hx),
      fun {x text} hx => ?_, h.data.queued, h.data.dangling⟩
    ⟨h.items.nodup, fun hn => (hlive _).trans (h.items.read hn),
      fun hn => (hlive _).trans (h.items.write hn)⟩
    (h.threads.same rfl rfl le_rfl)
    (fun j hji => (h.message j).congr (fun x hx => hother x ?_) (fun _ _ _ => Iff.rfl)
      (fun _ _ _ => Iff.rfl) Iff.rfl fun _ _ hd => hd)
    hsender hold hnew (h.threads.ownData (.inr (hpc.trans hown.symm))) hmsg
  · by_cases hxd : x = d
    · rw [hxd, hself] at hx
      rwa [← Option.some.inj hx]
    · rw [hother x hxd] at hx
      exact h.data.formed hx
  · obtain ⟨hlt, hgone⟩ := h.data.filed hx
    exact ⟨hlt, (hnone x).mpr hgone⟩
  · rintro rfl
    exact hji (h.threads.distinct hx hown)

theorem Ok.finish (h : s.Ok) {level : LogLevel} (hpc : s.pc i = .streamed d level)
    (hw : s.writeData i d LogMessage.finish = .ok s') : (s'.setPc i (.sending d level)).Ok := by
  obtain ⟨hlive, hnot⟩ := h.message_of hpc
  obtain ⟨m, hm⟩ := Option.ne_none_iff_exists'.mp hlive
  obtain ⟨m', hfinish, rfl⟩ := writeData_eq hm hw
  obtain ⟨e, he, hok, -⟩ := LogMessage.finish_ok (h.data.formed hm)
  obtain rfl : m' = e := Except.ok.inj (hfinish.symm.trans he)
  have hsender := h.sender_outside (i := i) (by simp [hpc])
  refine h.written (by rw [hpc]; rfl) hm hok hsender (by rw [hpc]; exact id) id rfl
    ⟨?_, fun _ => hnot, fun hp => ?_⟩
  · change Function.update s.data d (some m') d ≠ none
    rw [Function.update_self]
    exact nofun
  · exact absurd (hsender.symm.trans hp) nofun

theorem Ok.append (h : s.Ok) {stack : List UInt8} (hpc : s.pc i = .appending d)
    (hw : s.writeData i d (·.put stack) = .ok s') (hcond : s.Undisturbed (.append i stack)) :
    (s'.setPc i (.flushing d stack (.call false))).Ok := by
  obtain ⟨hlive, hq⟩ := h.message_of hpc
  obtain ⟨m, hm⟩ := Option.ne_none_iff_exists'.mp hlive
  obtain ⟨m', hput, rfl⟩ := writeData_eq hm hw
  obtain ⟨e, he, hok, hslice⟩ := (h.data.formed hm).put stack
  obtain rfl : m' = e := Except.ok.inj (hput.symm.trans he)
  -- the stack fits
  have hroom : (m.slice ++ stack).length ≤ kMaxLogMessageLen - 2 := by
    rw [List.length_append, LogMessageData.slice_length]
    exact hcond d m hpc hm
  rw [List.take_of_length_le hroom] at hslice
  have hself : (s.setData d m').data d = some m' := Function.update_self ..
  refine h.written (by rw [hpc]; rfl) hm hok (h.sender_outside (by simp [hpc]))
    (by rw [hpc]; exact id) nofun rfl ⟨⟨fun {x} hx => ?_, fun hnone => ?_, fun {text} ht => ?_⟩,
    nofun⟩
  · obtain rfl : m' = x := Option.some.inj (hself.symm.trans hx)
    exact ⟨hq, hslice ▸ List.suffix_append ..⟩
  · rw [hself] at hnone
    cases hnone
  · exact absurd (h.data.filed ht).2 hlive

theorem Ok.output (h : s.Ok) {iter : ℕ} {t : LogThread ι ℕ} (hpc : s.thread.pc = .iter iter)
    (hd : s.readItems[iter]? = some d) (hstep : LogStep s.thread .output t)
    (happ : s.NotAppending d) : ((s.outputData none d).setThread t).Ok := by
  have hok : t.Ok := h.thread.step hstep
  have hiter : s.readIter = iter := by rw [readIter, hpc]
  obtain ⟨m, hm⟩ := Option.ne_none_iff_exists'.mp ((h.items.read hd).mpr hiter.le)
  have hmem : d ∈ s.readItems := List.mem_of_getElem? hd
  obtain ⟨hndRead, -, hdisjoint⟩ := List.nodup_append.mp h.items.nodup
  have hnotWrite : d ∉ s.writeItems := fun hw => hdisjoint d hmem d hw rfl
  have hsend : ∀ j level, s.pc j = .sending d level → s.thread.sender j ≠ .pushed := by
    intro j level hj hp
    exact hnotWrite ((h.message_of hj).2.2 hp)
  have hdata := h.output_data none hm (.inl hmem)
  have hmsg := h.output_message none hm (.inl hmem) happ hsend
  rw [outputData_eq none hm] at hdata hmsg ⊢
  cases hstep with
  | @output _ iter' _ hpc' hdata' =>
    obtain rfl : iter = iter' := LogThread.Pc.iter.inj (hpc.symm.trans hpc')
    refine ⟨hok, hdata.same (fun _ hd => hd) rfl rfl rfl rfl,
      ⟨h.items.nodup, fun {n x} hn => ?_, fun {n x} hn => ?_⟩,
      ⟨h.threads.lt, h.threads.distinct, h.threads.sender,
        fun hin => absurd hin (h.noFlush_of_pc (by simp [hpc]) _), h.threads.one,
        h.threads.iter⟩,
      fun j => (hmsg j).congr (fun _ _ => rfl) (fun _ _ _ => Iff.rfl) (fun _ _ _ => Iff.rfl)
        Iff.rfl fun _ _ hd => hd⟩
    · have hplace := h.items.read hn
      rw [hiter] at hplace
      exact delete_iff hndRead hd hn hplace
    · have hxd : x ≠ d := by
        rintro rfl
        exact hnotWrite (List.mem_of_getElem? hn)
      change Function.update s.data d none x ≠ none ↔ _
      rw [Function.update_of_ne hxd]
      exact h.items.write hn

/-! ### `Flush(true)` -/

theorem Ok.flushCall (h : s.Ok) {stack : List UInt8} {second : Bool}
    (hpc : s.pc i = .flushing d stack (.call second)) (hcond : s.Undisturbed (.flushCall i)) :
    (s.setPc i (.flushing d stack (.iter second (s.flushList second) 0))).Ok := by
  have hmsg := h.message_of hpc
  -- nobody else runs `Flush(true)`, and nothing has been output yet
  have halone : s.thread.pc = .outside ∧ s.thread.mutex = none ∧
      (∀ j, j ≠ i → ¬ (s.pc j).InFlush) ∧ ∀ n, ¬ s.Flushed n := by
    cases second with
    | false =>
      obtain ⟨hno, hout, hmutex⟩ := hcond d stack hpc
      exact ⟨hout, hmutex, fun j _ => hno j, hno.not_flushed⟩
    | true =>
      have hin : (s.pc i).InFlush := by rw [hpc]; exact rfl
      obtain ⟨hout, hmutex⟩ := h.threads.flush hin
      refine ⟨hout, hmutex, fun j hji hj => hji (h.threads.one hj hin), fun n hf => ?_⟩
      obtain ⟨d', stack', k, iter, hi, -⟩ := (h.threads.flushed_iff hin).mp hf
      rw [hpc] at hi
      cases hi
  obtain ⟨hout, hmutex, hone, hnot⟩ := halone
  refine Ok.flush_setPc h.thread h.data h.items.nodup (h.thread.empty (.inl hout)) h.threads
    (fun j _ => h.message j) hout hmutex hone (by rw [hpc]; rfl) (fun heq => ?_)
    (fun {n x} hn => ?_)
    ⟨hmsg.1, nofun⟩
  · injection heq with hs hk _
    rw [← hs, ← hk]
  · rw [h.items.write hn]
    refine iff_of_true (hnot n) ?_
    rintro ⟨k, iter, heq, hlt⟩
    injection heq with _ _ hzero
    omega

theorem Ok.flushOutput (h : s.Ok) {stack : List UInt8} {second : Bool} {k iter d' : ℕ}
    (hpc : s.pc i = .flushing d stack (.iter second k iter))
    (hd : (s.thread.logList k)[iter]? = some d') (hcond : s.Undisturbed (.flushOutput i)) :
    ((s.outputData (some i) d').setPc i (.flushing d stack (.iter second k (iter + 1)))).Ok := by
  have hin := inFlush_of_iter hpc
  obtain ⟨hempty, hmutex, hsenders⟩ := h.in_flush hin
  have hone : ∀ j, j ≠ i → ¬ (s.pc j).InFlush := fun j hji hj => hji (h.threads.one hj hin)
  have hk := h.threads.iter hpc
  cases second with
  | false =>
    -- `read_list_` is empty
    subst hk
    change s.readItems[iter]? = some d' at hd
    rw [hempty] at hd
    cases hd
  | true =>
    have hplace : s.writeItems[iter]? = some d' := by rw [hk] at hd; exact hd
    have hflushed : ∀ {n}, s.Flushed n ↔ n < iter := by
      intro n
      rw [h.threads.flushed_iff hin]
      refine ⟨?_, fun hlt => ⟨d, stack, k, iter, hpc, hlt⟩⟩
      rintro ⟨d₁, stack₁, k₁, iter₁, hi, hlt⟩
      rw [hpc] at hi
      injection hi with _ _ hf
      injection hf with _ _ heq
      rwa [heq]
    obtain ⟨m, hm⟩ := Option.ne_none_iff_exists'.mp ((h.items.write hplace).mpr
      (mt hflushed.mp (Nat.lt_irrefl _)))
    have hndWrite := (List.nodup_append.mp h.items.nodup).2.1
    have hsend : ∀ j level, s.pc j = .sending d' level → s.thread.sender j ≠ .pushed :=
      fun j _ _ hp => by rw [hsenders j] at hp; cases hp
    have hq : s.Queued d' := .inr (List.mem_of_getElem? hplace)
    have hdata := h.output_data (some i) hm hq
    have hmsg := h.output_message (some i) hm hq (hcond _ _ _ _ _ _ hpc hd) hsend
    have hown : (s.pc i).data = some d := congrArg Pc.data hpc
    have hself := hmsg i
    rw [hpc] at hself
    rw [outputData_eq (some i) hm] at hdata hmsg hself ⊢
    refine Ok.flush_setPc (s := { s with data := Function.update s.data d' none,
                                         file := s.file ++ [(d', m.slice)] })
      h.thread hdata h.items.nodup hempty (h.threads.same rfl rfl le_rfl) (fun j _ => hmsg j)
      (h.threads.flush hin).1 hmutex hone hown (fun heq => ?_) (fun {n x} hn => ?_)
      ⟨hself.1, nofun⟩
    · injection heq with hs hk' _
      rw [← hs, ← hk']
      exact hk
    · have hafter : (∃ k₁ iter₁, FlushPc.iter true k (iter + 1) = .iter true k₁ iter₁ ∧ n < iter₁) ↔
          n < iter + 1 := by
        refine ⟨?_, fun hlt => ⟨k, iter + 1, rfl, hlt⟩⟩
        rintro ⟨k₁, iter₁, heq, hlt⟩
        injection heq with _ _ heq
        omega
      have hbefore := h.items.write hn
      rw [hflushed, Nat.not_lt] at hbefore
      rw [hafter, Nat.not_lt]
      exact delete_iff hndWrite hplace hn hbefore

/-- `read_list_` was empty before. -/
theorem Ok.flushClear_read (h : s.Ok) {stack : List UInt8} {k iter : ℕ}
    (hpc : s.pc i = .flushing d stack (.iter false k iter)) :
    ((s.setThread (s.thread.setList k [])).setPc i (.flushing d stack (.call true))).Ok := by
  have hin := inFlush_of_iter hpc
  obtain ⟨hempty, hmutex, -⟩ := h.in_flush hin
  have hlist : s.thread.logList k = [] := by
    rw [h.threads.iter hpc]
    exact hempty
  have hsame : s.thread.setList k [] = s.thread := by
    rw [LogThread.setList, ← hlist, Function.update_eq_self]
  rw [hsame]
  refine Ok.flush_setPc (s := s.setThread s.thread) h.thread h.data h.items.nodup hempty h.threads
    (fun j _ => h.message j) (h.threads.flush hin).1 hmutex
    (fun j hji hj => hji (h.threads.one hj hin)) (congrArg Pc.data hpc) (fun hi => by cases hi)
    (fun {n x} hn => ?_) ⟨(h.message_of hpc).1, fun hi => by cases hi⟩
  refine (h.items.write hn).trans (iff_of_true ?_ ?_)
  · rw [h.threads.flushed_iff hin]
    rintro ⟨d', stack', k', iter', hi, -⟩
    rw [hpc] at hi
    cases hi
  · rintro ⟨k', iter', heq, -⟩
    cases heq

theorem Ok.flushClear_write (h : s.Ok) {stack : List UInt8} {iter : ℕ}
    (hpc : s.pc i = .flushing d stack (.iter true s.thread.writeList iter))
    (hiter : s.writeItems.length ≤ iter) :
    ((s.setThread (s.thread.setList s.thread.writeList [])).setPc i
      (.flushing d stack .done)).Ok := by
  have hin := inFlush_of_iter hpc
  obtain ⟨hempty, hmutex, hsenders⟩ := h.in_flush hin
  have hmsg := h.message_of hpc
  set t := s.thread.setList s.thread.writeList [] with ht
  have hread : (s.setThread t).readItems = s.readItems :=
    Function.update_of_ne h.thread.lists.ne.symm ..
  have hwrite : (s.setThread t).writeItems = [] := Function.update_self ..
  have hnone : ∀ x, ¬ (s.setThread t).Queued x := by
    intro x hx
    rw [Queued, hread, hwrite, hempty] at hx
    simp at hx
  have hdead : s.data d = none := by
    by_contra hlive
    obtain ⟨m, hm⟩ := Option.ne_none_iff_exists'.mp hlive
    exact hlive (h.flushed_gone hpc hiter (hmsg.1.live hm).1)
  have hok : t.Ok := ⟨⟨h.thread.lists.index, h.thread.lists.distinct⟩, ⟨h.thread.mutex.sender,
    h.thread.mutex.logger⟩, fun _ => hread.trans hempty⟩
  have hothers : ∀ j, (s.setThread t).MessageOk j (s.pc j) := fun j =>
    (h.message j).congr (fun _ _ => rfl)
      (fun x _ hlive => iff_of_false (hnone x) fun hx => hlive (h.flushed_gone hpc hiter hx))
      (fun _ _ _ => Iff.rfl) Iff.rfl fun hp => by rw [hsenders j] at hp; cases hp
  have hself := hothers i
  rw [hpc] at hself
  refine Ok.flush_setPc hok (h.data.same (fun x hx => absurd hx (hnone x)) rfl rfl rfl rfl)
    (by rw [hread, hwrite, hempty]; exact List.nodup_nil) (hread.trans hempty)
    ⟨h.threads.lt, h.threads.distinct, h.threads.sender, h.threads.flush, h.threads.one,
      h.threads.iter⟩
    (fun j _ => hothers j) (h.threads.flush hin).1 hmutex
    (fun j hji hj => hji (h.threads.one hj hin)) (congrArg Pc.data hpc) (fun hi => by cases hi)
    (fun {n x} hn => ?_) ⟨hself.1, fun _ => hdead⟩
  rw [hwrite] at hn
  cases hn

theorem Ok.flushClear (h : s.Ok) {stack : List UInt8} {second : Bool} {k iter : ℕ}
    (hpc : s.pc i = .flushing d stack (.iter second k iter))
    (hiter : (s.thread.logList k).length ≤ iter) :
    ((s.setThread (s.thread.setList k [])).setPc i
      (.flushing d stack (if second then .done else .call true))).Ok := by
  cases second with
  | false => exact h.flushClear_read hpc
  | true =>
    obtain rfl : k = s.thread.writeList := h.threads.iter hpc
    exact h.flushClear_write hpc hiter

theorem Ok.abort (h : s.Ok) {stack : List UInt8} (hpc : s.pc i = .flushing d stack .done) :
    ({ s.setPc i (.aborted d stack) with exited := true } : LogSystem ι).Ok := by
  have hmsg := h.message_of hpc
  have hok : (s.setPc i (.aborted d stack)).Ok :=
    Ok.of_setPc h.thread h.data h.items h.threads (fun j _ => h.message j)
      (h.sender_outside (by simp [hpc])) (by rw [hpc]; exact id) id
      (h.threads.ownData (.inr (by rw [hpc]; rfl))) ⟨hmsg.1, hmsg.2 rfl⟩
  exact
    { thread := hok.thread
      data := hok.data.same (fun _ hd => hd) rfl rfl rfl rfl
      items := ⟨hok.items.nodup, hok.items.read, hok.items.write⟩
      threads := hok.threads.same rfl rfl le_rfl
      message := fun j => (hok.message j).same rfl rfl rfl }

/-- The step lemma. -/
theorem Ok.step (h : s.Ok) {e : LogSystemEvent ι} (hcond : s.Undisturbed e) (hs : Move s e s') :
    s'.Ok := by
  cases hs with
  | streamed hpc hm => exact h.streamed hpc hm
  | finish hpc hw => exact h.finish hpc hw
  | lock hpc hstep => exact h.lock hpc hstep hcond
  | push hpc hstep => exact h.push hpc hstep
  | unlock hpc hstep => exact h.unlock hpc hstep
  | logger he hstep => exact h.logger he hstep hcond
  | output hpc hd hstep => exact h.output hpc hd hstep (hcond _ _ hpc hd)
  | append hpc hw => exact h.append hpc hw hcond
  | flushCall hpc => exact h.flushCall hpc hcond
  | flushOutput hpc hd => exact h.flushOutput hpc hd hcond
  | flushClear hpc hiter => exact h.flushClear hpc hiter
  | abort hpc => exact h.abort hpc

end LogSystem

variable {ι : Type} [DecidableEq ι]

/-- **FATAL messages.** In every run of any number of threads and the log thread whose steps do not
disturb a FATAL message: no thread accesses data that has been deleted, and the record of every
FATAL message ends with the call stack, which the destructor appends behind the hand-over. -/
theorem fatal_message_logged {es : List (LogSystemEvent ι)} {s : LogSystem ι}
    (hrun : Run (LogSystemStep.restrict LogSystem.Undisturbed) (.new ι) es s) : s.FatalLogged :=
  LogSystem.Ok.fatalLogged <| hrun.invariant LogSystem.Ok
    (fun _ _ _ h hs => h.step hs.1 hs.2.2) LogSystem.ok_new

/-- A FATAL message with the stack `[1, 2]`, which `Flush(true)` outputs. -/
theorem fatal_message_logged_flushed :
    ∃ s : LogSystem Unit, Run (LogSystemStep.restrict LogSystem.Undisturbed) (.new Unit)
        [.streamed () (fun _ => 0) [70] [] .fatal, .finish (), .log (.lock () 0),
          .log (.push () 0), .log (.unlock ()), .append () [1, 2], .flushCall (), .flushClear (),
          .flushCall (), .flushOutput (), .flushClear (), .abort ()] s ∧
      s.file = [(0, [70, 10, 1, 2])] ∧ s.FatalLogged := by
  obtain ⟨m, hm, hok, hslice⟩ := LogMessage.streamed_ok (fun _ => 0) [70] []
  obtain ⟨m₁, hm₁, hok₁, hslice₁⟩ := LogMessage.finish_ok hok
  obtain ⟨m₂, hm₂, hok₂, hslice₂⟩ := hok₁.put [1, 2]
  have hlen : m₁.stream.pcount = 2 := by
    rw [← LogMessageData.slice_length, hslice₁, hslice]
    rfl
  have hfile : m₂.slice = [70, 10, 1, 2] := by
    rw [hslice₂, hslice₁, hslice]
    rfl
  have hrun : ∃ s : LogSystem Unit,
      Run (LogSystemStep.restrict LogSystem.Undisturbed) (.new Unit)
        [.streamed () (fun _ => 0) [70] [] .fatal, .finish (), .log (.lock () 0),
          .log (.push () 0), .log (.unlock ()), .append () [1, 2], .flushCall (), .flushClear (),
          .flushCall (), .flushOutput (), .flushClear (), .abort ()] s ∧
      s.file = [(0, m₂.slice)] := by
    refine ⟨_, .cons ⟨trivial, rfl, .streamed rfl hm⟩ <|
      .cons ⟨trivial, rfl, .finish rfl (LogSystem.writeData_ok rfl hm₁)⟩ <|
      .cons ⟨?_, rfl, .lock rfl (.lock rfl rfl)⟩ <|
      .cons ⟨trivial, rfl, .push rfl (.push rfl)⟩ <|
      .cons ⟨trivial, rfl, .unlock rfl (.unlock rfl)⟩ <|
      .cons ⟨?_, rfl, .append rfl (LogSystem.writeData_ok rfl hm₂)⟩ <|
      .cons ⟨?_, rfl, .flushCall rfl⟩ <|
      .cons ⟨trivial, rfl, .flushClear rfl (Nat.le_refl 0)⟩ <|
      .cons ⟨?_, rfl, .flushCall rfl⟩ <|
      .cons ⟨?_, rfl, .flushOutput rfl rfl⟩ <|
      .cons ⟨trivial, rfl, .flushClear rfl (Nat.le_refl 1)⟩ <|
      .single ⟨trivial, rfl, .abort rfl⟩, rfl⟩
    · rintro ⟨⟩ hin
      exact hin
    · intro d m' hpc hd
      obtain rfl : 0 = d := LogSystem.Pc.appending.inj hpc
      obtain rfl : m₁ = m' := Option.some.inj hd
      rw [hlen]
      decide
    · refine fun d stack _ => ⟨?_, rfl, rfl⟩
      rintro ⟨⟩ hin
      exact absurd hin nofun
    · intro d stack hpc
      injection hpc with _ _ hpc
      injection hpc with hpc
      cases hpc
    · rintro d stack second k iter d' - - ⟨⟩ hpc
      cases hpc
  obtain ⟨s, hrun, hs⟩ := hrun
  exact ⟨s, hrun, by rw [hs, hfile], fatal_message_logged hrun⟩

/-- The log thread outputs and deletes a FATAL message in front of the call stack: the stack goes
into deleted data, and not into the file. -/
theorem fatal_message_disturbed :
    ∃ s : LogSystem Unit, Run LogSystemStep (.new Unit)
        [.streamed () (fun _ => 0) [70] [] .fatal, .finish (), .log (.lock () 0),
          .log (.push () 0), .log (.unlock ()), .log .timeout, .log .test, .log .loggerLock,
          .log .swap, .log .loggerUnlock, .log .output, .append () [1, 2], .log .clear,
          .flushCall (), .flushClear (), .flushCall (), .flushClear (), .abort ()] s ∧
      s.dangling = [(some (), 0)] ∧ s.file = [(0, [70, 10])] ∧ s.pc () = .aborted 0 [1, 2] := by
  obtain ⟨m, hm, hok, hslice⟩ := LogMessage.streamed_ok (fun _ => 0) [70] []
  obtain ⟨m₁, hm₁, -, hslice₁⟩ := LogMessage.finish_ok hok
  have hfile : m₁.slice = [70, 10] := by
    rw [hslice₁, hslice]
    rfl
  rw [← hfile]
  exact ⟨_, .cons ⟨rfl, .streamed rfl hm⟩ <|
    .cons ⟨rfl, .finish rfl (LogSystem.writeData_ok rfl hm₁)⟩ <|
    .cons ⟨rfl, .lock rfl (.lock rfl rfl)⟩ <| .cons ⟨rfl, .push rfl (.push rfl)⟩ <|
    .cons ⟨rfl, .unlock rfl (.unlock rfl)⟩ <| .cons ⟨rfl, .logger rfl (.timeout rfl)⟩ <|
    .cons ⟨rfl, .logger rfl (.test rfl)⟩ <| .cons ⟨rfl, .logger rfl (.loggerLock rfl rfl)⟩ <|
    .cons ⟨rfl, .logger rfl (.swap rfl)⟩ <| .cons ⟨rfl, .logger rfl (.loggerUnlock rfl)⟩ <|
    .cons ⟨rfl, .output rfl rfl (.output rfl rfl)⟩ <| .cons ⟨rfl, .append rfl rfl⟩ <|
    .cons ⟨rfl, .logger rfl (.clear rfl (Nat.le_refl 1))⟩ <| .cons ⟨rfl, .flushCall rfl⟩ <|
    .cons ⟨rfl, .flushClear rfl (Nat.le_refl 0)⟩ <| .cons ⟨rfl, .flushCall rfl⟩ <|
    .cons ⟨rfl, .flushClear rfl (Nat.le_refl 0)⟩ <| .single ⟨rfl, .abort rfl⟩, rfl, rfl, rfl⟩

end ServerKit
