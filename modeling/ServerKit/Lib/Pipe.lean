import ServerKit.Lib.Lts
import Mathlib.Data.List.Basic
import Mathlib.Data.Nat.Basic
import Mathlib.Order.Basic

/-!
# A pipe between one writer and one reader that may fall asleep

The abstract pipe. The writer appends items, which count as complete or as to be continued, takes
back what is not complete, and flushes what is: the reader sees flushed items only. A reader that
finds nothing is asleep until the next flush, and that flush has to tell the writer so, because the
reader must be woken. A flush that meets a sleeping reader takes two steps, and the items are
flushed by the second.
-/

namespace ServerKit.Lib

universe u

/-- What the two sides do, with the results. -/
inductive PipeEvent (T : Type u)
  /-- An item is written. -/
  | write (v : T) (incomplete : Bool)
  /-- The last item is taken back, or there is none to take back. -/
  | unWrite (r : Option T)
  /-- A flush finds nothing to flush. -/
  | flushNothing
  /-- A flush tries to pass the complete items on to a reader that is awake. -/
  | flushTry (awake : Bool)
  /-- A flush that met a sleeping reader passes the complete items on. -/
  | flushSet
  /-- The reader looks for an item. -/
  | checkRead (found : Bool)
  /-- The reader takes an item, or finds none. -/
  | read (r : Option T)
deriving DecidableEq, Repr

/-- The pipe: the items written and not taken back, how many of them are complete, flushed and
taken; whether the reader has found nothing since the last flush; and whether a flush is between
its two steps. -/
structure PipeLog (T : Type u) where
  items : List T
  completed : ℕ
  flushed : ℕ
  taken : ℕ
  asleep : Bool
  flushing : Bool

namespace PipeLog

variable {T : Type u}

/-- Nothing written, and the reader awake. -/
def new : PipeLog T where
  items := []
  completed := 0
  flushed := 0
  taken := 0
  asleep := false
  flushing := false

/-- The items the reader may see. -/
def flushedItems (t : PipeLog T) : List T := t.items.take t.flushed

/-- The log after an item has been written. -/
def push (t : PipeLog T) (v : T) (incomplete : Bool) : PipeLog T :=
  { t with items := t.items ++ [v],
           completed := if incomplete then t.completed else t.items.length + 1 }

/-- The log after the complete items have been flushed. -/
def flush (t : PipeLog T) : PipeLog T :=
  { t with flushed := t.completed, asleep := false, flushing := false }

/-- The log after the reader has found nothing. -/
def sleep (t : PipeLog T) : PipeLog T := { t with asleep := true }

/-- The log after a flush has met a sleeping reader. -/
def meetSleeper (t : PipeLog T) : PipeLog T := { t with flushing := true }

/-- The log after an item has been taken. -/
def take (t : PipeLog T) : PipeLog T := { t with taken := t.taken + 1 }

/-- The log after the items have been cut down to `items`. -/
def takeBack (t : PipeLog T) (items : List T) : PipeLog T := { t with items := items }

end PipeLog

/-- One step of the pipe. -/
inductive PipeStep {T : Type u} : Lts (PipeLog T) (PipeEvent T)
  | write {t : PipeLog T} (v : T) (incomplete : Bool) : t.flushing = false →
      PipeStep t (.write v incomplete) (t.push v incomplete)
  | unWrite {t : PipeLog T} {items : List T} {v : T} : t.flushing = false →
      t.completed < t.items.length → t.items = items ++ [v] →
      PipeStep t (.unWrite (some v)) (t.takeBack items)
  | unWriteNone {t : PipeLog T} : t.flushing = false → t.completed = t.items.length →
      PipeStep t (.unWrite none) t
  | flushNothing {t : PipeLog T} : t.flushing = false → t.flushed = t.completed →
      PipeStep t .flushNothing t
  | flushTry {t : PipeLog T} : t.flushing = false → t.flushed < t.completed → t.asleep = false →
      PipeStep t (.flushTry true) t.flush
  | flushTryAsleep {t : PipeLog T} : t.flushing = false → t.flushed < t.completed →
      t.asleep = true → PipeStep t (.flushTry false) t.meetSleeper
  | flushSet {t : PipeLog T} : t.flushing = true → PipeStep t .flushSet t.flush
  | checkRead {t : PipeLog T} : t.taken < t.flushed → PipeStep t (.checkRead true) t
  | checkReadNone {t : PipeLog T} : t.taken = t.flushed → PipeStep t (.checkRead false) t.sleep
  | read {t : PipeLog T} {v : T} : t.taken < t.flushed → t.items[t.taken]? = some v →
      PipeStep t (.read (some v)) t.take
  | readNone {t : PipeLog T} : t.taken = t.flushed → PipeStep t (.read none) t.sleep

/-! ## What holds of the pipe -/

/-- What the reader has taken was flushed, and what was flushed was complete; a reader is asleep
only when it has taken everything; a flush between its steps has met a sleeping reader. -/
structure PipeLog.Ok {T : Type u} (t : PipeLog T) : Prop where
  taken_le : t.taken ≤ t.flushed
  flushed_le : t.flushed ≤ t.completed
  completed_le : t.completed ≤ t.items.length
  asleep : t.asleep = true → t.taken = t.flushed
  flushing : t.flushing = true → t.asleep = true ∧ t.flushed < t.completed

namespace PipeEvent

variable {T : Type u}

/-- The items the reader has got, in order. -/
def received : List (PipeEvent T) → List T
  | [] => []
  | .read (some v) :: es => v :: received es
  | _ :: es => received es

/-- Whether the reader has found nothing since the last flush that flushed something, given
whether it had before. -/
def foundNothing : Bool → List (PipeEvent T) → Bool
  | b, [] => b
  | _, .checkRead false :: es => foundNothing true es
  | _, .read none :: es => foundNothing true es
  | _, .flushTry true :: es => foundNothing false es
  | _, .flushSet :: es => foundNothing false es
  | b, _ :: es => foundNothing b es

end PipeEvent

section

variable {T : Type u} {t t' : PipeLog T} {e : PipeEvent T} {es : List (PipeEvent T)}

theorem PipeLog.new_ok : (PipeLog.new : PipeLog T).Ok where
  taken_le := le_rfl
  flushed_le := le_rfl
  completed_le := le_rfl
  asleep := nofun
  flushing := nofun

theorem PipeStep.ok (hs : PipeStep t e t') (h : t.Ok) : t'.Ok := by
  obtain ⟨htaken, hflushed, hcompleted, hasleep, hflushing⟩ := h
  cases hs with
  | write v incomplete hf =>
    refine ⟨htaken, ?_, ?_, hasleep, fun h => absurd (hf.symm.trans h) (by decide)⟩
    · cases incomplete
      · exact hflushed.trans (hcompleted.trans (Nat.le_succ _))
      · exact hflushed
    · cases incomplete <;> simp [PipeLog.push]
      omega
  | unWrite hf hlt heq =>
    rename_i items v
    refine ⟨htaken, hflushed, ?_, hasleep, hflushing⟩
    have := congrArg List.length heq
    rw [List.length_append, List.length_singleton] at this
    change t.completed ≤ items.length
    omega
  | unWriteNone hf heq => exact ⟨htaken, hflushed, hcompleted, hasleep, hflushing⟩
  | flushNothing hf heq => exact ⟨htaken, hflushed, hcompleted, hasleep, hflushing⟩
  | flushTry hf hlt ha => exact ⟨htaken.trans hflushed, le_rfl, hcompleted, nofun, nofun⟩
  | flushTryAsleep hf hlt ha =>
    exact ⟨htaken, hflushed, hcompleted, hasleep, fun _ => ⟨ha, hlt⟩⟩
  | flushSet hf => exact ⟨htaken.trans hflushed, le_rfl, hcompleted, nofun, nofun⟩
  | checkRead hlt => exact ⟨htaken, hflushed, hcompleted, hasleep, hflushing⟩
  | checkReadNone heq =>
    exact ⟨htaken, hflushed, hcompleted, fun _ => heq, fun h => ⟨rfl, (hflushing h).2⟩⟩
  | read hlt hv =>
    refine ⟨hlt, hflushed, hcompleted, fun h => ?_, hflushing⟩
    exact absurd (hasleep h) hlt.ne
  | readNone heq =>
    exact ⟨htaken, hflushed, hcompleted, fun _ => heq, fun h => ⟨rfl, (hflushing h).2⟩⟩

theorem Run.pipeLog_ok (h : Run PipeStep t es t') (ht : t.Ok) : t'.Ok :=
  h.invariant PipeLog.Ok (fun _ _ _ hok hs => hs.ok hok) ht

/-- **Nothing is lost or duplicated**: what was taken before, and then what a run delivers, are
the first items. -/
theorem Run.received_eq (h : Run PipeStep t es t') (ht : t.Ok) :
    t.items.take t.taken ++ PipeEvent.received es = t'.items.take t'.taken := by
  induction h with
  | nil => simp [PipeEvent.received]
  | @cons t t₁ t' e es hs _ ih =>
    rw [← ih (hs.ok ht)]
    have htaken := ht.taken_le.trans (ht.flushed_le.trans ht.completed_le)
    cases hs with
    | write v incomplete hf =>
      change _ = (t.items ++ [v]).take t.taken ++ _
      rw [List.take_append_of_le_length htaken]
      rfl
    | unWrite hf hlt heq =>
      have hle := ht.taken_le.trans ht.flushed_le
      have := congrArg List.length heq
      rw [List.length_append, List.length_singleton] at this
      rw [heq, List.take_append_of_le_length (by omega)]
      rfl
    | read hlt hv =>
      rename_i v
      rw [PipeEvent.received]
      change _ = t.items.take (t.taken + 1) ++ _
      rw [List.take_add_one, hv]
      simp
    | unWriteNone => rfl
    | flushNothing => rfl
    | flushTry => rfl
    | flushTryAsleep => rfl
    | flushSet => rfl
    | checkRead => rfl
    | checkReadNone => rfl
    | readNone => rfl

/-- The reader is asleep when it has found nothing since the last flush. -/
theorem Run.asleep_eq (h : Run PipeStep t es t') (ht : t.Ok) :
    t'.asleep = PipeEvent.foundNothing t.asleep es := by
  induction h with
  | nil => rfl
  | @cons t t₁ t' e es hs _ ih =>
    rw [ih (hs.ok ht)]
    cases hs <;> rfl

end

end ServerKit.Lib
