import ServerKit.Base.YPipe
import ServerKit.Base.Verify.QueueRep

/-!
# `YPipe` is a pipe

Every step of a `YPipe` is a step of the abstract pipe with the same results (`YPipeStep.pipe`): its
four pointers are the addresses of the counts of `PipeLog`, and `c_` is NULL exactly while the
reader is asleep. The addresses of the counts differ as long as the counts do, so the comparisons
of addresses the code makes decide what they are meant to decide.
-/

namespace ServerKit

open Lib

variable {T : Type} {N : ℕ}

/-- The pipe `y` in the layout `L` is in the state `t`. -/
structure PipeAt (y : YPipe T N) (L : Layout) (t : PipeLog T) : Prop where
  queue : QueueRep y.queue L t.taken t.items.length t.items
  w : y.w = L.slot N t.flushed
  f : y.f = L.slot N t.completed
  r : y.r = none ∨ ∃ i, t.taken ≤ i ∧ i ≤ t.flushed ∧ y.r = L.slot N i
  c : y.c = if t.asleep then none else L.slot N t.flushed
  ok : t.Ok

/-- The pipe and its writer are in the state `t`. -/
def PipeRep (s : YPipeState T N) (t : PipeLog T) : Prop :=
  s.flushing = t.flushing ∧ ∃ L, PipeAt s.pipe L t

namespace PipeAt

variable {y y' : YPipe T N} {L : Layout} {t : PipeLog T}

/-- Counts of the pipe that share an address are equal. -/
theorem count_eq (h : PipeAt y L t) {i j : ℕ} (hi : t.taken ≤ i) (hil : i ≤ t.items.length)
    (hj : t.taken ≤ j) (hjl : j ≤ t.items.length) (heq : L.slot N i = L.slot N j) : i = j :=
  h.queue.slot_inj hi (Nat.le_succ_of_le hil) hj (Nat.le_succ_of_le hjl) heq

theorem slot_ne_none (h : PipeAt y L t) {i : ℕ} (hi : t.taken ≤ i) (hil : i ≤ t.items.length) :
    L.slot N i ≠ none :=
  Layout.slot_ne_none h.queue.pos (h.queue.inRange hi (Nat.le_succ_of_le hil))

theorem flushed_le_length (h : PipeAt y L t) : t.flushed ≤ t.items.length :=
  h.ok.flushed_le.trans h.ok.completed_le

theorem taken_le_completed (h : PipeAt y L t) : t.taken ≤ t.completed :=
  h.ok.taken_le.trans h.ok.flushed_le

/-- The writer's comparison of `w_` and `f_`. -/
theorem w_eq_f_iff (h : PipeAt y L t) : y.w = y.f ↔ t.flushed = t.completed := by
  rw [h.w, h.f]
  refine ⟨fun heq => ?_, fun heq => by rw [heq]⟩
  exact h.count_eq h.ok.taken_le h.flushed_le_length h.taken_le_completed h.ok.completed_le heq

/-- The writer's comparison of `f_` and `&Back()`. -/
theorem f_eq_back_iff (h : PipeAt y L t) :
    y.f = y.queue.backAddr ↔ t.completed = t.items.length := by
  rw [h.f, h.queue.back]
  refine ⟨fun heq => ?_, fun heq => by rw [heq]⟩
  exact h.count_eq h.taken_le_completed h.ok.completed_le h.queue.le le_rfl heq

/-! ## The writer -/

/-- **`Write`**. -/
theorem write (h : PipeAt y L t) (v : T) (incomplete : Bool) {p : ChunkPtr}
    (hp : y.queue.mem p = none) (hstep : PipeStep t (.write v incomplete) (t.push v incomplete)) :
    ∃ y' L', y.write v incomplete p = some y' ∧ PipeAt y' L' (t.push v incomplete) := by
  obtain ⟨q₁, hset, hq₁, hfresh⟩ := h.queue.setBack_spec rfl v
  obtain ⟨q₂, L', hpush, hq₂, hslot⟩ := hq₁.push_spec (hfresh p hp)
  have hlen : (t.items ++ [v]).length = t.items.length + 1 := by simp
  have hkeep : ∀ i, t.taken ≤ i → i ≤ t.items.length → L'.slot N i = L.slot N i :=
    fun i hi hil => hslot i hi (Nat.le_succ_of_le hil)
  have hq₂' : QueueRep q₂ L' t.taken (t.items ++ [v]).length (t.items ++ [v]) := by
    rw [hlen]; exact hq₂
  have hw : y.w = L'.slot N t.flushed := by
    rw [h.w, hkeep _ h.ok.taken_le h.flushed_le_length]
  have hr : y.r = none ∨ ∃ i, t.taken ≤ i ∧ i ≤ t.flushed ∧ y.r = L'.slot N i := by
    refine h.r.imp_right ?_
    rintro ⟨i, hi, hil, hri⟩
    exact ⟨i, hi, hil, by rw [hri, hkeep i hi (hil.trans h.flushed_le_length)]⟩
  have hc : y.c = if t.asleep then none else L'.slot N t.flushed := by
    rw [h.c, hkeep _ h.ok.taken_le h.flushed_le_length]
  have hok : (t.push v incomplete).Ok := hstep.ok h.ok
  cases incomplete with
  | true =>
    refine ⟨{ y with queue := q₂ }, L', by simp [YPipe.write, hset, hpush], ?_⟩
    exact ⟨hq₂', hw, h.f.trans (hkeep _ h.taken_le_completed h.ok.completed_le).symm, hr, hc, hok⟩
  | false =>
    refine ⟨{ y with queue := q₂, f := q₂.backAddr }, L', by simp [YPipe.write, hset, hpush], ?_⟩
    exact ⟨hq₂', hw, hq₂.back, hr, hc, hok⟩

/-- **`UnWrite`** with nothing to take back. -/
theorem unWrite_none (h : PipeAt y L t) (heq : t.completed = t.items.length) :
    y.unWrite = some (none, y) := if_pos (h.f_eq_back_iff.mpr heq)

/-- **`UnWrite`** of an item that is not complete. -/
theorem unWrite_some (h : PipeAt y L t) (hlt : t.completed < t.items.length) :
    ∃ items v y' L', t.items = items ++ [v] ∧ y.unWrite = some (some v, y') ∧
      PipeAt y' L' (t.takeBack items) := by
  obtain ⟨items, v, hitems⟩ : ∃ items v, t.items = items ++ [v] := by
    rcases List.eq_nil_or_concat t.items with hnil | ⟨items, v, hitems⟩
    · rw [hnil] at hlt; cases hlt
    · exact ⟨items, v, by simpa using hitems⟩
  have hlen : t.items.length = items.length + 1 := by rw [hitems]; simp
  have hq := h.queue
  rw [hlen] at hq
  have hcl : t.completed ≤ items.length := by omega
  obtain ⟨q', L', hrun, hq', hslot⟩ :=
    hq.unPush_spec (h.taken_le_completed.trans hcl) (by omega)
  have hback : q'.back = some v := hq'.back_value_eq (by rw [hitems]; simp)
  have htake : t.items.take items.length = items := by rw [hitems]; simp
  have hfl : t.flushed ≤ items.length := h.ok.flushed_le.trans hcl
  refine ⟨items, v, { y with queue := q' }, L', hitems, ?_, ?_⟩
  · rw [YPipe.unWrite, if_neg (fun heq => hlt.ne (h.f_eq_back_iff.mp heq))]
    simp [hrun, hback]
  · refine ⟨?_, ?_, ?_, ?_, ?_, ?_⟩
    · have := hq'.take items.length
      rwa [htake] at this
    · change y.w = _
      rw [h.w, ← hslot _ h.ok.taken_le hfl]; rfl
    · change y.f = _
      rw [h.f, ← hslot _ h.taken_le_completed hcl]; rfl
    · refine h.r.imp_right ?_
      rintro ⟨i, hi, hil, hri⟩
      exact ⟨i, hi, hil, hri.trans (hslot i hi (hil.trans hfl)).symm⟩
    · change y.c = _
      rw [h.c, ← hslot _ h.ok.taken_le hfl]; rfl
    · exact ⟨h.ok.taken_le, h.ok.flushed_le, hcl, h.ok.asleep, h.ok.flushing⟩

/-- The compare-and-swap of **`Flush`** while the reader is awake. -/
theorem flushCas_awake (h : PipeAt y L t) (hstep : PipeStep t (.flushTry true) t.flush)
    (ha : t.asleep = false) : ∃ y', y.flushCas = (true, y') ∧ PipeAt y' L t.flush := by
  have hc : y.c = y.w := by rw [h.c, h.w, ha]; rfl
  refine ⟨{ y with c := y.f, w := y.f }, ?_, ?_⟩
  · simp [YPipe.flushCas, AtomicPointer.cas, hc]
  · refine ⟨h.queue, h.f, h.f, h.r.imp_right ?_, h.f, hstep.ok h.ok⟩
    rintro ⟨i, hi, hil, hri⟩
    exact ⟨i, hi, hil.trans h.ok.flushed_le, hri⟩

/-- The compare-and-swap of **`Flush`** while the reader is asleep. -/
theorem flushCas_asleep (h : PipeAt y L t) (hstep : PipeStep t (.flushTry false) t.meetSleeper)
    (ha : t.asleep = true) : ∃ y', y.flushCas = (false, y') ∧ PipeAt y' L t.meetSleeper := by
  have hc : y.c = none := by rw [h.c, ha]; rfl
  have hw : none ≠ y.w := by
    rw [h.w]; exact (h.slot_ne_none h.ok.taken_le h.flushed_le_length).symm
  refine ⟨y, ?_, ⟨h.queue, h.w, h.f, h.r, h.c, hstep.ok h.ok⟩⟩
  simp [YPipe.flushCas, AtomicPointer.cas, hc, hw]
  rw [← hc]

/-- The second step of **`Flush`**. -/
theorem flushSet (h : PipeAt y L t) (hstep : PipeStep t .flushSet t.flush) :
    PipeAt y.flushSet L t.flush := by
  refine ⟨h.queue, h.f, h.f, h.r.imp_right ?_, h.f, hstep.ok h.ok⟩
  rintro ⟨i, hi, hil, hri⟩
  exact ⟨i, hi, hil.trans h.ok.flushed_le, hri⟩

/-! ## The reader -/

/-- **`CheckRead`** that finds an item: the items before `r_` are there to be read. -/
theorem checkRead_found (h : PipeAt y L t) (hlt : t.taken < t.flushed) :
    ∃ y' i, y.checkRead = (true, y') ∧ PipeAt y' L t ∧ t.taken < i ∧ i ≤ t.flushed ∧
      y'.r = L.slot N i := by
  have hfront := h.queue.frontAddr_eq
  have hawake : t.asleep = false := by
    cases ha : t.asleep with
    | false => rfl
    | true => exact absurd (h.ok.asleep ha) hlt.ne
  have hc : y.c = L.slot N t.flushed := by rw [h.c, hawake]; rfl
  have hsome := h.slot_ne_none h.ok.taken_le h.flushed_le_length
  have hne : L.slot N t.taken ≠ L.slot N t.flushed := fun heq => hlt.ne
    (h.count_eq le_rfl h.queue.le h.ok.taken_le h.flushed_le_length heq)
  by_cases hpre : y.queue.frontAddr ≠ y.r ∧ y.r ≠ none
  · -- prefetched already
    obtain ⟨i, hi, hil, hri⟩ := h.r.resolve_left hpre.2
    refine ⟨y, i, if_pos hpre, h, lt_of_le_of_ne hi fun heq => hpre.1 ?_, hil, hri⟩
    rw [hfront, hri, heq]
  · refine ⟨{ y with r := y.c, c := y.c }, t.flushed, ?_,
      ⟨h.queue, h.w, h.f, Or.inr ⟨_, h.ok.taken_le, le_rfl, hc⟩, h.c, h.ok⟩, hlt, le_rfl, hc⟩
    rw [YPipe.checkRead, if_neg hpre, AtomicPointer.cas,
      if_neg (by rw [hc, hfront]; exact hne.symm)]
    exact if_neg (by rw [hc, hfront]; exact not_or.mpr ⟨hne, hsome⟩)

/-- **`CheckRead`** that finds nothing. -/
theorem checkRead_nothing (h : PipeAt y L t) (heq : t.taken = t.flushed)
    (hstep : PipeStep t (.checkRead false) t.sleep) :
    ∃ y', y.checkRead = (false, y') ∧ PipeAt y' L t.sleep := by
  have hfront := h.queue.frontAddr_eq
  have hpre : ¬ (y.queue.frontAddr ≠ y.r ∧ y.r ≠ none) := by
    rintro ⟨hne, hsome⟩
    obtain ⟨i, hi, hil, hri⟩ := h.r.resolve_left hsome
    exact hne (by rw [hfront, hri, le_antisymm hi (hil.trans heq.ge)])
  cases ha : t.asleep with
  | true =>
    have hc : y.c = none := by rw [h.c, ha]; rfl
    have hsome : none ≠ y.queue.frontAddr := by
      rw [hfront]; exact (h.slot_ne_none le_rfl h.queue.le).symm
    refine ⟨{ y with r := none, c := none }, ?_,
      ⟨h.queue, h.w, h.f, Or.inl rfl, rfl, hstep.ok h.ok⟩⟩
    rw [YPipe.checkRead, if_neg hpre, AtomicPointer.cas, hc, if_neg hsome]
    exact if_pos (Or.inr rfl)
  | false =>
    have hc : y.c = y.queue.frontAddr := by rw [h.c, ha, hfront, heq]; rfl
    refine ⟨{ y with r := y.c, c := none }, ?_,
      ⟨h.queue, h.w, h.f, Or.inr ⟨_, le_rfl, heq.le, hc.trans hfront⟩, rfl, hstep.ok h.ok⟩⟩
    rw [YPipe.checkRead, if_neg hpre, AtomicPointer.cas, if_pos hc]
    exact if_pos (Or.inl hc.symm)

/-- **`Read`** of an item. -/
theorem read_some (h : PipeAt y L t) (hlt : t.taken < t.flushed) :
    ∃ v y' L', t.items[t.taken]? = some v ∧ y.read = some (some v, y') ∧ PipeAt y' L' t.take := by
  obtain ⟨y₁, i, hcheck, h₁, hi, hil, hri⟩ := h.checkRead_found hlt
  have hlen : t.taken < t.items.length := hlt.trans_le h.flushed_le_length
  have hv : t.items[t.taken]? = some (t.items.get ⟨t.taken, hlen⟩) :=
    List.getElem?_eq_getElem hlen
  obtain ⟨q', L', hpop, hq', hslot⟩ := h₁.queue.pop_spec hlen
  refine ⟨_, { y₁ with queue := q' }, L', hv, ?_, ?_⟩
  · rw [YPipe.read, hcheck]
    simp [h₁.queue.front_eq hv, hpop]
  · refine ⟨hq', ?_, ?_, Or.inr ⟨i, hi, hil, ?_⟩, ?_, ?_⟩
    · exact h₁.w.trans (hslot _ hlt).symm
    · exact h₁.f.trans (hslot _ (hlt.trans_le h.ok.flushed_le)).symm
    · exact hri.trans (hslot _ hi).symm
    · change y₁.c = if t.asleep then none else L'.slot N t.flushed
      rw [h₁.c, hslot _ hlt]
    · exact (PipeStep.read hlt hv).ok h.ok

/-- **`Read`** that finds nothing. -/
theorem read_none (h : PipeAt y L t) (heq : t.taken = t.flushed) :
    ∃ y', y.read = some (none, y') ∧ PipeAt y' L t.sleep := by
  obtain ⟨y', hcheck, h'⟩ := h.checkRead_nothing heq (.checkReadNone heq)
  exact ⟨y', by rw [YPipe.read, hcheck]; rfl, h'⟩

end PipeAt

/-! ## Runs -/

/-- **Every step of the code is a step of the pipe**, with the same results. -/
theorem YPipeStep.pipe {s s' : YPipeState T N} {e : PipeEvent T} {t : PipeLog T}
    (hrep : PipeRep s t) (hs : YPipeStep s e s') : ∃ t', PipeStep t e t' ∧ PipeRep s' t' := by
  obtain ⟨hflushing, L, h⟩ := hrep
  cases hs with
  | write hp hrun =>
    rename_i y y' v incomplete p
    have hstep := PipeStep.write v incomplete hflushing.symm
    obtain ⟨y₁, L', hrun', h'⟩ := h.write v incomplete hp hstep
    obtain rfl := Option.some.inj (hrun'.symm.trans hrun)
    exact ⟨_, hstep, hflushing, L', h'⟩
  | unWrite hrun =>
    rename_i y y' r
    by_cases heq : t.completed = t.items.length
    · obtain ⟨rfl, rfl⟩ := Prod.mk.inj (Option.some.inj ((h.unWrite_none heq).symm.trans hrun))
      exact ⟨t, .unWriteNone hflushing.symm heq, hflushing, L, h⟩
    · have hlt := lt_of_le_of_ne h.ok.completed_le heq
      obtain ⟨items, v, y₁, L', hitems, hrun', h'⟩ := h.unWrite_some hlt
      obtain ⟨rfl, rfl⟩ := Prod.mk.inj (Option.some.inj (hrun'.symm.trans hrun))
      exact ⟨_, .unWrite hflushing.symm hlt hitems, hflushing, L', h'⟩
  | flushNothing heq =>
    exact ⟨t, .flushNothing hflushing.symm (h.w_eq_f_iff.mp heq), hflushing, L, h⟩
  | flushCas hne hrun =>
    rename_i y y' ok
    have hlt := lt_of_le_of_ne h.ok.flushed_le fun heq => hne (h.w_eq_f_iff.mpr heq)
    cases ha : t.asleep with
    | false =>
      have hstep := PipeStep.flushTry hflushing.symm hlt ha
      obtain ⟨y₁, hrun', h'⟩ := h.flushCas_awake hstep ha
      obtain ⟨rfl, rfl⟩ := Prod.mk.inj (hrun'.symm.trans hrun)
      exact ⟨_, hstep, rfl, L, h'⟩
    | true =>
      have hstep := PipeStep.flushTryAsleep hflushing.symm hlt ha
      obtain ⟨y₁, hrun', h'⟩ := h.flushCas_asleep hstep ha
      obtain ⟨rfl, rfl⟩ := Prod.mk.inj (hrun'.symm.trans hrun)
      exact ⟨_, hstep, rfl, L, h'⟩
  | flushSet =>
    have hstep := PipeStep.flushSet hflushing.symm
    exact ⟨_, hstep, rfl, L, h.flushSet hstep⟩
  | checkRead hrun =>
    rename_i y y' found flushing
    by_cases heq : t.taken = t.flushed
    · have hstep := PipeStep.checkReadNone heq
      obtain ⟨y₁, hrun', h'⟩ := h.checkRead_nothing heq hstep
      obtain ⟨rfl, rfl⟩ := Prod.mk.inj (hrun'.symm.trans hrun)
      exact ⟨_, hstep, hflushing, L, h'⟩
    · have hlt := lt_of_le_of_ne h.ok.taken_le heq
      obtain ⟨y₁, i, hrun', h', -⟩ := h.checkRead_found hlt
      obtain ⟨rfl, rfl⟩ := Prod.mk.inj (hrun'.symm.trans hrun)
      exact ⟨t, .checkRead hlt, hflushing, L, h'⟩
  | read hrun =>
    rename_i y y' r flushing
    by_cases heq : t.taken = t.flushed
    · obtain ⟨y₁, hrun', h'⟩ := h.read_none heq
      obtain ⟨rfl, rfl⟩ := Prod.mk.inj (Option.some.inj (hrun'.symm.trans hrun))
      exact ⟨_, .readNone heq, hflushing, L, h'⟩
    · have hlt := lt_of_le_of_ne h.ok.taken_le heq
      obtain ⟨v, y₁, L', hv, hrun', h'⟩ := h.read_some hlt
      obtain ⟨rfl, rfl⟩ := Prod.mk.inj (Option.some.inj (hrun'.symm.trans hrun))
      exact ⟨_, .read hlt hv, hflushing, L', h'⟩

/-- A new pipe. -/
theorem YPipe.new_rep (hN : 0 < N) {p p' : ChunkPtr} (hne : p' ≠ p) :
    ∃ y : YPipe T N, YPipe.new p p' = some y ∧ PipeRep ⟨y, false⟩ PipeLog.new := by
  obtain ⟨q, L, hpush, hq⟩ := QueueRep.new_spec (T := T) hN hne
  have hback : q.backAddr = L.slot N 0 := hq.back
  refine ⟨{ queue := q, w := q.backAddr, f := q.backAddr, r := q.backAddr, c := q.backAddr }, ?_,
    rfl, L, hq, hback, hback, Or.inr ⟨0, le_rfl, le_rfl, hback⟩, hback, PipeLog.new_ok⟩
  simp [YPipe.new, hpush]

/-- No operation follows a dangling pointer. -/
theorem PipeRep.defined {s : YPipeState T N} {t : PipeLog T} (hrep : PipeRep s t) :
    (∀ v incomplete p, s.flushing = false → s.pipe.queue.mem p = none →
      ∃ s', YPipeStep s (.write v incomplete) s') ∧
    (s.flushing = false → ∃ r s', YPipeStep s (.unWrite r) s') ∧
    ∃ r s', YPipeStep s (.read r) s' := by
  obtain ⟨hflushing, L, h⟩ := hrep
  obtain ⟨y, flushing⟩ := s
  simp only at hflushing h ⊢
  refine ⟨?_, ?_, ?_⟩
  · rintro v incomplete p rfl hp
    obtain ⟨y', L', hrun, -⟩ := h.write v incomplete hp (.write v incomplete hflushing.symm)
    exact ⟨_, .write hp hrun⟩
  · rintro rfl
    by_cases heq : t.completed = t.items.length
    · exact ⟨_, _, .unWrite (h.unWrite_none heq)⟩
    · obtain ⟨items, v, y', L', -, hrun, -⟩ :=
        h.unWrite_some (lt_of_le_of_ne h.ok.completed_le heq)
      exact ⟨_, _, .unWrite hrun⟩
  · by_cases heq : t.taken = t.flushed
    · obtain ⟨y', hrun, -⟩ := h.read_none heq
      exact ⟨_, _, .read hrun⟩
    · obtain ⟨v, y', L', -, hrun, -⟩ := h.read_some (lt_of_le_of_ne h.ok.taken_le heq)
      exact ⟨_, _, .read hrun⟩

/-- **`YPipe` is a FIFO between one writer and one reader.** After any interleaving of their steps
the abstract pipe has made the same steps with the same results. The values read are, in order, the
first of the flushed items, which are complete. `UnWrite` takes back the last item if it is not
complete, and nothing else. A `Flush` that has something to flush finds the reader asleep exactly
when a `CheckRead` or `Read` has found nothing since `c_` was last set. Every operation the code
could go on with is defined. -/
theorem ypipe_fifo {p p' : ChunkPtr} {y : YPipe T N} {es : List (PipeEvent T)}
    {s : YPipeState T N} (hN : 0 < N) (hp : p' ≠ p) (hnew : YPipe.new p p' = some y)
    (hrun : Run YPipeStep ⟨y, false⟩ es s) :
    ∃ t, Run PipeStep PipeLog.new es t ∧
      PipeEvent.received es <+: t.flushedItems ∧
      t.flushed ≤ t.completed ∧ t.completed ≤ t.items.length ∧
      (∀ v s', YPipeStep s (.read (some v)) s' →
        t.taken < t.flushed ∧ t.items[t.taken]? = some v) ∧
      (∀ r s', YPipeStep s (.unWrite r) s' →
        r = if t.completed < t.items.length then t.items.getLast? else none) ∧
      (∀ awake s', YPipeStep s (.flushTry awake) s' →
        (awake = false ↔ PipeEvent.foundNothing false es = true)) ∧
      (∀ v incomplete p, s.flushing = false → s.pipe.queue.mem p = none →
        ∃ s', YPipeStep s (.write v incomplete) s') ∧
      (s.flushing = false → ∃ r s', YPipeStep s (.unWrite r) s') ∧
      ∃ r s', YPipeStep s (.read r) s' := by
  obtain ⟨y', hnew', hrep₀⟩ := YPipe.new_rep (T := T) hN hp
  obtain rfl := Option.some.inj (hnew'.symm.trans hnew)
  obtain ⟨t, hpipe, hrep⟩ := hrun.simulate (fun _ _ _ _ hR hs => hs.pipe hR) _ hrep₀
  have hok := hpipe.pipeLog_ok PipeLog.new_ok
  have hasleep : t.asleep = PipeEvent.foundNothing false es := hpipe.asleep_eq PipeLog.new_ok
  refine ⟨t, hpipe, ?_, hok.flushed_le, hok.completed_le, ?_, ?_, ?_, hrep.defined⟩
  · have hreceived := hpipe.received_eq PipeLog.new_ok
    rw [show (PipeLog.new : PipeLog T).items = [] from rfl, List.take_nil, List.nil_append]
      at hreceived
    rw [hreceived]
    exact (List.take_prefix_take_left hok.taken_le)
  · intro v s' hs
    obtain ⟨t', hstep, -⟩ := hs.pipe hrep
    cases hstep with
    | read hlt hv => exact ⟨hlt, hv⟩
  · intro r s' hs
    obtain ⟨t', hstep, -⟩ := hs.pipe hrep
    cases hstep with
    | unWrite _ hlt hitems => rw [if_pos hlt, hitems]; simp
    | unWriteNone _ heq => rw [if_neg heq.not_lt]
  · intro awake s' hs
    obtain ⟨t', hstep, -⟩ := hs.pipe hrep
    rw [← hasleep]
    cases hstep with
    | flushTry _ _ ha => simp [ha]
    | flushTryAsleep _ _ ha => simp [ha]

/-- One item written, flushed and read. -/
theorem ypipe_fifo_one_item :
    ∃ (y : YPipe ℕ 2) (s : YPipeState ℕ 2), YPipe.new 0 1 = some y ∧
      Run YPipeStep ⟨y, false⟩ [.write 5 false, .flushTry true, .read (some 5)] s ∧
      ∃ t : PipeLog ℕ, [5] <+: t.flushedItems := by
  obtain ⟨y, hnew, s, hrun⟩ : ∃ y : YPipe ℕ 2, YPipe.new 0 1 = some y ∧ ∃ s,
      Run YPipeStep ⟨y, false⟩ [.write 5 false, .flushTry true, .read (some 5)] s :=
    ⟨_, rfl, _, .cons (.write (p := 2) rfl rfl) (.cons (.flushCas (by decide) rfl)
      (.single (.read rfl)))⟩
  obtain ⟨t, -, hpre, -⟩ := ypipe_fifo (by decide) (by decide) hnew hrun
  exact ⟨y, s, hnew, hrun, t, hpre⟩

end ServerKit
