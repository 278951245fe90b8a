import ServerKit.Core.Verify.LogTimes
import ServerKit.Lib.SlotRing

/-!
# Reading the cached time

The slots of the timer thread are a ring: `updateTime` stores the cells of one slot and only then
lets the pointers go there. A reader may be slow; what it reads is whole as long as the slot has not
come round again.
-/

namespace ServerKit

open Lib

/-! ## The ring -/

/-- What is stored in a slot: the milliseconds, and the bytes of the string. -/
inductive TimeCell
  | msec
  | char (k : Fin kLogTimeStringLength)
deriving DecidableEq

abbrev TimeCell.Val : TimeCell → Type
  | msec => ℕ
  | char _ => UInt8

namespace Timeval

/-- The string of an update. -/
def text (tv : Timeval) : List UInt8 := stampText tv.localMs ++ [0]

theorem length_text (tv : Timeval) : tv.text.length = kLogTimeStringLength := by
  rw [text, List.length_append, tv.length_stampText]
  rfl

theorem logTime_eq_text (tv : Timeval) : tv.logTime = .ok tv.text := tv.logTime_eq

/-- The record of an update. -/
def record (tv : Timeval) : (c : TimeCell) → c.Val
  | .msec => tv.ms
  | .char k => tv.text.get (k.cast tv.length_text.symm)

theorem record_char (tv : Timeval) (k : Fin kLogTimeStringLength) :
    tv.text[k.val]? = some (tv.record (.char k)) := by
  rw [List.getElem?_eq_getElem (by rw [length_text]; exact k.isLt)]
  rfl

end Timeval

/-- The cells of the last update that have still to be stored. -/
def UpdatePc.pending : UpdatePc → Set TimeCell
  | idle | indexed | published => ∅
  | stamped _ => Set.univ
  | writing _ k => { c | ∃ j, c = .char j ∧ k ≤ j.val }

namespace TimerThread

/-- The slots as a ring. -/
def ring (s : TimerThread) : SlotRing TimeCell TimeCell.Val where
  slots := fun slot c =>
    match c with
    | .msec => s.cachedMsecs slot
    | .char k => s.cachedLogTimeStrs slot k
  records := s.updates.map Timeval.record
  pending := s.pc.pending

/-- The slot of the update `u`. -/
abbrev slot (u : ℕ) : ℕ := slotOf kTimeSlots 1 u

/-- The update `u` is complete. -/
def Done (s : TimerThread) (u : ℕ) : Prop :=
  u < s.updates.length ∧ (u + 1 = s.updates.length → s.pc.pending = ∅)

/-- What is between two steps of `updateTime`. -/
structure AtPc (s : TimerThread) : Prop where
  index : s.index = slot (if s.pc = .indexed then s.updates.length else s.updates.length - 1)
  stamped : ∀ tv, s.pc = .stamped tv → s.updates.getLast? = some tv
  writing : ∀ text k, s.pc = .writing text k → ∃ tv, s.updates.getLast? = some tv ∧ text = tv.text ∧
    k ≤ kLogTimeStringLength

/-- A pointer that is at the last update, or, while `behind` holds, at the one before. -/
def Points (s : TimerThread) (pointer : ℕ) (behind : Prop) : Prop :=
  ∃ u, pointer = slot u ∧ s.Done u ∧ s.updates.length ≤ u + 2 ∧
    (¬ behind → u + 1 = s.updates.length)

/-- A reader that has loaded a pointer has an update that was complete, the last one begun then or
the one before. -/
def Has (s : TimerThread) (pointer begun u : ℕ) : Prop :=
  pointer = slot u ∧ s.Done u ∧ u < begun ∧ begun ≤ u + 2

/-- **The invariant.** -/
structure Ok (s : TimerThread) : Prop where
  current : s.ring.Current kTimeSlots 1
  pos : 0 < s.updates.length
  atPc : s.AtPc
  cachedMsec : s.Points s.cachedMsec (s.pc ≠ .idle ∧ s.pc ≠ .indexed ∧ s.pc ≠ .published)
  cachedLogTimeStr : s.Points s.cachedLogTimeStr (s.pc ≠ .idle ∧ s.pc ≠ .indexed)
  msec : ∀ i pointer begun, s.reader i = .msec pointer begun → ∃ u, s.Has pointer begun u
  str : ∀ i pointer begun bytes, s.reader i = .str pointer begun bytes →
    ∃ u, s.Has pointer begun u ∧
    ∀ tv, s.updates[u]? = some tv → s.updates.length ≤ u + kTimeSlots → bytes <+: tv.text

/-! ## The steps -/

section Steps

variable {s s' : TimerThread}

/-- What is complete stays complete when nothing becomes pending. -/
theorem Done.mono {u : ℕ} (h : s.Done u) (hupd : s'.updates = s.updates)
    (hpending : s'.pc.pending ⊆ s.pc.pending) : s'.Done u := by
  refine ⟨hupd ▸ h.1, fun hlast => ?_⟩
  have hnone := h.2 (hupd ▸ hlast)
  exact Set.subset_eq_empty (hnone ▸ hpending) rfl

theorem Points.mono {pointer : ℕ} {behind behind' : Prop} (h : s.Points pointer behind)
    (hupd : s'.updates = s.updates) (hpending : s'.pc.pending ⊆ s.pc.pending)
    (hbehind : behind → behind') : s'.Points pointer behind' := by
  obtain ⟨u, hu, hdone, hle, hlast⟩ := h
  exact ⟨u, hu, hdone.mono hupd hpending, hupd ▸ hle,
    fun hn => hupd ▸ hlast fun hb => hn (hbehind hb)⟩

/-- A pointer stays where it is when the next update begins. -/
theorem Points.begin {pointer : ℕ} {behind behind' : Prop} {tv : Timeval}
    (h : s.Points pointer behind) (hupd : s'.updates = s.updates ++ [tv]) (hnot : ¬ behind)
    (hbehind : behind') : s'.Points pointer behind' := by
  obtain ⟨u, hu, -, -, hlast⟩ := h
  have hlen : s'.updates.length = s.updates.length + 1 := by rw [hupd, List.length_append]; rfl
  have hu' := hlast hnot
  exact ⟨u, hu, ⟨by omega, fun h => by omega⟩, by omega, fun hn => absurd hbehind hn⟩

/-- A pointer is set to the last update. -/
theorem Points.last {pointer : ℕ} {behind : Prop} (hpos : 0 < s.updates.length)
    (hpointer : pointer = slot (s.updates.length - 1)) (hpending : s.pc.pending = ∅) :
    s.Points pointer behind :=
  ⟨s.updates.length - 1, hpointer, ⟨by omega, fun _ => hpending⟩, by omega, fun _ => by omega⟩

/-- The readers, when the timer thread moves. -/
theorem Ok.readers (h : s.Ok) (hdone : ∀ u, s.Done u → s'.Done u)
    (hupd : s.updates <+: s'.updates) (hreader : s'.reader = s.reader) :
    (∀ i pointer begun, s'.reader i = .msec pointer begun → ∃ u, s'.Has pointer begun u) ∧
    ∀ i pointer begun bytes, s'.reader i = .str pointer begun bytes → ∃ u, s'.Has pointer begun u ∧
      ∀ tv, s'.updates[u]? = some tv → s'.updates.length ≤ u + kTimeSlots → bytes <+: tv.text := by
  refine ⟨fun i pointer begun hi => ?_, fun i pointer begun bytes hi => ?_⟩
  · obtain ⟨u, hu, hd, hrest⟩ := h.msec i pointer begun (hreader ▸ hi)
    exact ⟨u, hu, hdone u hd, hrest⟩
  · obtain ⟨u, ⟨hu, hd, hrest⟩, hbytes⟩ := h.str i pointer begun bytes (hreader ▸ hi)
    refine ⟨u, ⟨hu, hdone u hd, hrest⟩, fun tv htv hle => hbytes tv ?_ (hupd.length_le.trans hle)⟩
    rw [← htv]
    obtain ⟨rest, hrest⟩ := hupd
    rw [← hrest, List.getElem?_append_left hd.1]

/-- A step of the timer thread that begins no update. -/
theorem Ok.move (h : s.Ok) (hcurrent : s'.ring.Current kTimeSlots 1) (hupd : s'.updates = s.updates)
    (hpending : s'.pc.pending ⊆ s.pc.pending) (hreader : s'.reader = s.reader) (hpc : s'.AtPc)
    (hmsec : s'.Points s'.cachedMsec (s'.pc ≠ .idle ∧ s'.pc ≠ .indexed ∧ s'.pc ≠ .published))
    (hstr : s'.Points s'.cachedLogTimeStr (s'.pc ≠ .idle ∧ s'.pc ≠ .indexed)) : s'.Ok := by
  have hreaders := h.readers (fun u hd => hd.mono hupd hpending) (hupd ▸ List.prefix_refl _) hreader
  exact ⟨hcurrent, hupd ▸ h.pos, hpc, hmsec, hstr, hreaders.1, hreaders.2⟩

/-- A step of a reader. -/
theorem Ok.reader (h : s.Ok) (i : ℕ) (pc : ReaderPc)
    (hmsec : ∀ pointer begun, pc = .msec pointer begun → ∃ u, s.Has pointer begun u)
    (hstr : ∀ pointer begun bytes, pc = .str pointer begun bytes → ∃ u, s.Has pointer begun u ∧
      ∀ tv, s.updates[u]? = some tv → s.updates.length ≤ u + kTimeSlots → bytes <+: tv.text) :
    (s.setReader i pc).Ok := by
  refine ⟨h.current, h.pos, ⟨h.atPc.index, h.atPc.stamped, h.atPc.writing⟩, h.cachedMsec,
    h.cachedLogTimeStr, fun j pointer begun hj => ?_, fun j pointer begun bytes hj => ?_⟩
  · by_cases hji : j = i
    · subst hji
      exact hmsec pointer begun (by simpa [setReader] using hj)
    · exact h.msec j pointer begun (by simpa [setReader, hji] using hj)
  · by_cases hji : j = i
    · subst hji
      exact hstr pointer begun bytes (by simpa [setReader] using hj)
    · exact h.str j pointer begun bytes (by simpa [setReader, hji] using hj)

/-- A pointer that is loaded. -/
theorem Points.has {pointer : ℕ} {behind : Prop} (h : s.Points pointer behind) :
    ∃ u, s.Has pointer s.updates.length u := by
  obtain ⟨u, hu, hdone, hle, -⟩ := h
  exact ⟨u, hu, hdone, hdone.1, hle⟩

/-- The last record. -/
theorem getLast?_record {tv : Timeval} (h : s.updates.getLast? = some tv) :
    s.ring.records[s.updates.length - 1]? = some tv.record := by
  change (s.updates.map Timeval.record)[_]? = _
  rw [List.getElem?_map, ← List.getLast?_eq_getElem?, h]
  rfl

theorem ring_storeMsec (msec : ℕ) : (s.storeMsec msec).ring.slots =
    Function.update s.ring.slots s.index
      (Function.update (s.ring.slots s.index) .msec msec) := by
  funext slot c
  by_cases hslot : slot = s.index
  · subst hslot
    cases c <;> simp [ring, storeMsec]
  · cases c <;> simp [ring, storeMsec, hslot]

theorem ring_storeByte (k : Fin kLogTimeStringLength) (b : UInt8) :
    (s.storeByte k b).ring.slots =
      Function.update s.ring.slots s.index
        (Function.update (s.ring.slots s.index) (.char k) b) := by
  funext slot c
  by_cases hslot : slot = s.index
  · subst hslot
    cases c with
    | msec => simp [ring, storeByte]
    | char j =>
      by_cases hj : j = k
      · subst hj
        simp [ring, storeByte]
      · simp [ring, storeByte, hj]
  · cases c <;> simp [ring, storeByte, hslot]

/-- What is pending once a byte has been written. -/
theorem pending_storeByte (text : List UInt8) (k : Fin kLogTimeStringLength) :
    (UpdatePc.writing text (k + 1)).pending = (UpdatePc.writing text k).pending \ {.char k} := by
  ext c
  constructor
  · rintro ⟨j, rfl, hj⟩
    refine ⟨⟨j, rfl, by omega⟩, fun h => ?_⟩
    rw [Set.mem_singleton_iff, TimeCell.char.injEq] at h
    omega
  · rintro ⟨⟨j, rfl, hj⟩, hne⟩
    refine ⟨j, rfl, ?_⟩
    rcases Nat.lt_or_eq_of_le hj with hlt | heq
    · exact hlt
    · exact absurd (congrArg TimeCell.char (Fin.ext heq.symm)) hne

/-- Nothing is pending once the whole string has been written. -/
theorem pending_written (text : List UInt8) :
    (UpdatePc.writing text kLogTimeStringLength).pending = ∅ := by
  ext c
  constructor
  · rintro ⟨j, rfl, hj⟩
    exact absurd j.isLt (Nat.not_lt.mpr hj)
  · rintro ⟨⟩

/-- A cell of the last update is stored. -/
theorem Ok.store (h : s.Ok) {tv : Timeval} (htv : s.updates.getLast? = some tv)
    (hindex : s.index = slot (s.updates.length - 1)) (c : TimeCell)
    (hslots : s'.ring.slots = Function.update s.ring.slots s.index
      (Function.update (s.ring.slots s.index) c (tv.record c)))
    (hupd : s'.updates = s.updates) (hpending : s'.pc.pending = s.pc.pending \ {c}) :
    s'.ring.Current kTimeSlots 1 := by
  have hpos := h.pos
  have hlen : s.ring.records.length = s.updates.length - 1 + 1 := by
    change (s.updates.map _).length = _
    rw [List.length_map]
    omega
  refine h.current.store hlen (getLast?_record htv) c ?_
  rw [hindex] at hslots
  change SlotRing.mk s'.ring.slots (s'.updates.map Timeval.record) s'.pc.pending = _
  rw [hslots, hupd, hpending]
  rfl

/-- The next update begins. -/
theorem Ok.begin (h : s.Ok) (hpc : s.pc = .indexed) (tv : Timeval) :
    TimerThread.Ok { s with updates := s.updates ++ [tv], pc := .stamped tv } := by
  have hlen : (s.updates ++ [tv]).length = s.updates.length + 1 := by simp
  have hnone : s.pc.pending = ∅ := by rw [hpc, UpdatePc.pending]
  have hdone : ∀ u, s.Done u →
      TimerThread.Done { s with updates := s.updates ++ [tv], pc := .stamped tv } u := by
    rintro u ⟨hlt, -⟩
    refine ⟨?_, fun hlast => ?_⟩
    · change u < (s.updates ++ [tv]).length
      omega
    · change u + 1 = (s.updates ++ [tv]).length at hlast
      omega
  have hreaders := h.readers hdone (List.prefix_append _ _) rfl
  refine ⟨?_, ?_, ⟨?_, ?_, ?_⟩, ?_, ?_, hreaders.1, hreaders.2⟩
  · refine h.current.begin hnone tv.record ?_
    simp only [ring, List.map_append, List.map_cons, List.map_nil, UpdatePc.pending]
  · change 0 < (s.updates ++ [tv]).length
    omega
  · have hindex := h.atPc.index
    rw [if_pos hpc] at hindex
    simpa using hindex
  · intro tv' htv'
    obtain rfl := UpdatePc.stamped.inj htv'
    exact List.getLast?_concat
  · intro text k hk
    cases hk
  · exact h.cachedMsec.begin rfl (by simp [hpc]) (by simp)
  · exact h.cachedLogTimeStr.begin rfl (by simp [hpc]) (by simp)

/-- **The invariant is kept.** -/
theorem Ok.step {e : TimerThreadEvent} (h : s.Ok) (hstep : TimerThreadStep s e s') : s'.Ok := by
  cases hstep with
  | nextIndex hpc =>
    have hnone : s.pc.pending = ∅ := by rw [hpc, UpdatePc.pending]
    have hindex := h.atPc.index
    rw [if_neg (by simp [hpc])] at hindex
    have hpos := h.pos
    refine h.move ?_ rfl ?_ rfl ⟨?_, ?_, ?_⟩ ?_ ?_
    · change SlotRing.Current _ _ ⟨s.ring.slots, s.ring.records, UpdatePc.indexed.pending⟩
      rw [UpdatePc.pending, ← hnone]
      exact h.current
    · simp [UpdatePc.pending]
    · rw [if_pos rfl]
      change (s.index + 1) % kTimeSlots = slot s.updates.length
      rw [hindex]
      change ((1 + (s.updates.length - 1)) % kTimeSlots + 1) % kTimeSlots = _ % kTimeSlots
      rw [Nat.mod_add_mod]
      congr 1
      omega
    · intro tv htv
      cases htv
    · intro text k hk
      cases hk
    · exact h.cachedMsec.mono rfl (by simp [UpdatePc.pending]) (by simp [hpc])
    · exact h.cachedLogTimeStr.mono rfl (by simp [UpdatePc.pending]) (by simp [hpc])
  | getTimeOfDay tv hpc => exact h.begin hpc tv
  | @storeMsec _ tv text hpc htext =>
    have htv := h.atPc.stamped tv hpc
    obtain rfl : tv.text = text := by
      rw [tv.logTime_eq_text] at htext
      exact Except.ok.inj htext
    have hindex := h.atPc.index
    rw [if_neg (by simp [hpc])] at hindex
    have hpending : (UpdatePc.writing tv.text 0).pending = s.pc.pending \ {.msec} := by
      rw [hpc]
      ext c
      cases c <;> simp [UpdatePc.pending]
    refine h.move (h.store htv hindex .msec (ring_storeMsec (s := s) tv.ms) rfl hpending) rfl
      (hpending.le.trans Set.sdiff_subset) rfl ⟨?_, ?_, ?_⟩ ?_ ?_
    · simpa [setPc, storeMsec] using hindex
    · intro tv' htv'
      cases htv'
    · intro text k hk
      obtain ⟨rfl, rfl⟩ := UpdatePc.writing.inj hk
      exact ⟨tv, htv, rfl, Nat.zero_le _⟩
    · exact h.cachedMsec.mono rfl (hpending.le.trans Set.sdiff_subset) (by simp [setPc])
    · exact h.cachedLogTimeStr.mono rfl (hpending.le.trans Set.sdiff_subset) (by simp [setPc])
  | @storeByte _ text k b hpc hb =>
    obtain ⟨tv, htv, rfl, -⟩ := h.atPc.writing text k hpc
    have hindex := h.atPc.index
    rw [if_neg (by simp [hpc])] at hindex
    obtain rfl : tv.record (.char k) = b := by
      rw [tv.record_char] at hb
      exact Option.some.inj hb
    have hpending : (UpdatePc.writing tv.text (k + 1)).pending = s.pc.pending \ {.char k} := by
      rw [hpc, pending_storeByte]
    refine h.move (h.store htv hindex (.char k) (ring_storeByte (s := s) k _) rfl hpending) rfl
      (hpending.le.trans Set.sdiff_subset) rfl ⟨?_, ?_, ?_⟩ ?_ ?_
    · simpa [setPc, storeByte] using hindex
    · intro tv' htv'
      cases htv'
    · intro text k' hk
      obtain ⟨rfl, rfl⟩ := UpdatePc.writing.inj hk
      exact ⟨tv, htv, rfl, k.isLt⟩
    · exact h.cachedMsec.mono rfl (hpending.le.trans Set.sdiff_subset) (by simp [setPc])
    · exact h.cachedLogTimeStr.mono rfl (hpending.le.trans Set.sdiff_subset) (by simp [setPc])
  | @publishMsec _ text hpc =>
    obtain ⟨tv, htv, rfl, -⟩ := h.atPc.writing text _ hpc
    have hnone : s.pc.pending = ∅ := by rw [hpc, tv.length_text, pending_written]
    have hindex := h.atPc.index
    rw [if_neg (by simp [hpc])] at hindex
    refine h.move ?_ rfl ?_ rfl ⟨?_, ?_, ?_⟩ ?_ ?_
    · change SlotRing.Current _ _ ⟨s.ring.slots, s.ring.records, UpdatePc.published.pending⟩
      rw [UpdatePc.pending, ← hnone]
      exact h.current
    · simp [UpdatePc.pending]
    · simpa using hindex
    · intro tv' htv'
      cases htv'
    · intro text k hk
      cases hk
    · exact .last h.pos hindex rfl
    · exact h.cachedLogTimeStr.mono rfl (by simp [UpdatePc.pending]) (by simp)
  | publishStr hpc =>
    have hnone : s.pc.pending = ∅ := by rw [hpc, UpdatePc.pending]
    have hindex := h.atPc.index
    rw [if_neg (by simp [hpc])] at hindex
    refine h.move ?_ rfl ?_ rfl ⟨?_, ?_, ?_⟩ ?_ ?_
    · change SlotRing.Current _ _ ⟨s.ring.slots, s.ring.records, UpdatePc.idle.pending⟩
      rw [UpdatePc.pending, ← hnone]
      exact h.current
    · simp [UpdatePc.pending]
    · simpa using hindex
    · intro tv' htv'
      cases htv'
    · intro text k hk
      cases hk
    · exact h.cachedMsec.mono rfl (by simp [UpdatePc.pending]) (by simp [hpc])
    · exact .last h.pos hindex rfl
  | @loadMsec _ i _ =>
    refine h.reader i _ (fun pointer begun heq => ?_) (fun pointer begun bytes heq => by cases heq)
    obtain ⟨rfl, rfl⟩ := ReaderPc.msec.inj heq
    exact h.cachedMsec.has
  | readMsec _ => exact h.reader _ _ (fun _ _ heq => by cases heq) (fun _ _ _ heq => by cases heq)
  | @loadStr _ i _ =>
    refine h.reader i _ (fun pointer begun heq => by cases heq) (fun pointer begun bytes heq => ?_)
    obtain ⟨rfl, rfl, rfl⟩ := ReaderPc.str.inj heq
    obtain ⟨u, hu⟩ := h.cachedLogTimeStr.has
    exact ⟨u, hu, fun tv _ _ => List.nil_prefix⟩
  | @readByte _ i pointer begun bytes k hi hk =>
    refine h.reader i _ (fun _ _ heq => by cases heq) (fun pointer' begun' bytes' heq => ?_)
    obtain ⟨rfl, rfl, rfl⟩ := ReaderPc.str.inj heq
    obtain ⟨u, hu, hbytes⟩ := h.str i pointer begun bytes hi
    refine ⟨u, hu, fun tv htv hle => ?_⟩
    -- the byte is that of the update, whose slot has not come round
    have hwhole := h.current.whole (u := u) (by simpa [ring] using hu.2.1.1)
      (by simpa [ring] using hu.2.1.2) (by simpa [ring] using hle)
    have hrecord : tv.record = s.ring.slots (slot u) := by
      have hget : s.ring.records[u]? = some tv.record := by
        change (s.updates.map Timeval.record)[u]? = _
        rw [List.getElem?_map, htv]
        rfl
      rw [hwhole] at hget
      exact (Option.some.inj hget).symm
    obtain ⟨rest, hrest⟩ := hbytes tv htv hle
    have hbyte : tv.text[bytes.length]? = some (s.cachedLogTimeStrs pointer k) := by
      rw [← hk, tv.record_char, hrecord, hu.1]
      rfl
    rw [← hrest, List.getElem?_append_right (Nat.le_refl _), Nat.sub_self] at hbyte
    -- `bytes` is a prefix of the text, and the byte comes next in it
    obtain ⟨rest', rfl⟩ : ∃ rest', rest = s.cachedLogTimeStrs pointer k :: rest' := by
      cases rest with
      | nil => simp at hbyte
      | cons b rest' => exact ⟨rest', by simpa using hbyte⟩
    exact ⟨rest', by rw [← hrest, List.append_assoc, List.singleton_append]⟩
  | done _ => exact h.reader _ _ (fun _ _ heq => by cases heq) (fun _ _ _ heq => by cases heq)

/-- Behind the constructor. -/
theorem Constructed.ok {tv : Timeval} {text : List UInt8} (h : s.Constructed tv text) : s.Ok := by
  obtain ⟨htext, hindex, hmsec, hstr, hcachedMsec, hcachedStr, hpc, hupd, hreader⟩ := h
  obtain rfl : tv.text = text := by
    rw [tv.logTime_eq_text] at htext
    exact Except.ok.inj htext
  have hpending : s.pc.pending = ∅ := by rw [hpc, UpdatePc.pending]
  have hlen : s.updates.length = 1 := by rw [hupd, List.length_singleton]
  refine ⟨?_, by omega, ⟨?_, ?_, ?_⟩, .last (by omega)
    (by simp [hcachedMsec, hlen, slotOf, kTimeSlots])
    hpending, .last (by omega) (by simp [hcachedStr, hlen, slotOf, kTimeSlots]) hpending, ?_, ?_⟩
  · rintro u c ⟨hlt, -⟩
    change u < (s.updates.map _).length at hlt
    rw [List.length_map, hlen, Nat.lt_one_iff] at hlt
    subst hlt
    refine ⟨0, tv.record, Nat.le_refl _, by simp [ring, hupd], ?_, fun _ => rfl⟩
    cases c with
    | msec => exact hmsec
    | char k =>
      refine Option.some.inj ?_
      rw [← tv.record_char, ← hstr]
      rfl
  · simp [hindex, hlen, hpc, slotOf, kTimeSlots]
  · simp [hpc]
  · simp [hpc]
  · simp [hreader]
  · simp [hreader]

end Steps

end TimerThread

/-- **The cached time.** Whatever the timer thread does in between, a reader that has loaded
`cached_msec_` reads the milliseconds of an update, the last one that had been begun when it loaded
the pointer, the one before, or a later one; and what a reader has read of the string is the front
of the string of the last update begun when it loaded the pointer, or of the one before, as long as
the timer thread has not begun the 64th update after that one. -/
theorem cached_time_whole {s₀ s : TimerThread} {tv₀ : Timeval} {text₀ : List UInt8}
    {es : List TimerThreadEvent} (h₀ : s₀.Constructed tv₀ text₀)
    (h : Run TimerThreadStep s₀ es s) :
    (∀ i pointer begun, s.reader i = .msec pointer begun → ∃ u v tv, u < begun ∧ begun ≤ u + 2 ∧
      u ≤ v ∧ s.updates[v]? = some tv ∧ s.cachedMsecs pointer = tv.ms ∧
      (s.updates.length ≤ u + kTimeSlots → v = u)) ∧
    ∀ i pointer begun bytes, s.reader i = .str pointer begun bytes → ∃ u tv text, u < begun ∧
      begun ≤ u + 2 ∧ s.updates[u]? = some tv ∧ tv.logTime = .ok text ∧
      (s.updates.length ≤ u + kTimeSlots → bytes <+: text) := by
  have hok : s.Ok := h.invariant TimerThread.Ok (fun _ _ _ hok hstep => hok.step hstep) h₀.ok
  refine ⟨fun i pointer begun hi => ?_, fun i pointer begun bytes hi => ?_⟩
  · obtain ⟨u, hpointer, hdone, hlt, hle⟩ := hok.msec i pointer begun hi
    obtain ⟨v, r, huv, hr, hcell, hwindow⟩ := hok.current u .msec
      ⟨by simpa [TimerThread.ring] using hdone.1, fun hlast => by
        have hnone := hdone.2 (by simpa [TimerThread.ring] using hlast)
        simp [TimerThread.ring, hnone]⟩
    rw [TimerThread.ring, List.getElem?_map, Option.map_eq_some_iff] at hr
    obtain ⟨tv, htv, rfl⟩ := hr
    refine ⟨u, v, tv, hlt, hle, huv, htv, ?_, fun hslots => hwindow ?_⟩
    · rw [hpointer]
      exact hcell
    · simpa [TimerThread.ring] using hslots
  · obtain ⟨u, ⟨-, hdone, hlt, hle⟩, hbytes⟩ := hok.str i pointer begun bytes hi
    have htv := List.getElem?_eq_getElem hdone.1
    exact ⟨u, _, _, hlt, hle, htv, Timeval.logTime_eq_text _, hbytes _ htv⟩

/-- A timer thread that has been constructed, with `tv` in all its slots. -/
def TimerThread.constructed (tv : Timeval) : TimerThread where
  index := 1
  cachedMsecs := fun _ => tv.record .msec
  cachedLogTimeStrs := fun _ k => tv.record (.char k)
  cachedMsec := 1
  cachedLogTimeStr := 1
  pc := .idle
  updates := [tv]
  reader := fun _ => .idle

theorem TimerThread.constructed_constructed (tv : Timeval) :
    (constructed tv).Constructed tv tv.text :=
  ⟨tv.logTime_eq_text, rfl, rfl, fun k => (tv.record_char k).symm, rfl, rfl, rfl, rfl, fun _ => rfl⟩

theorem TimerThread.setReader_setReader (s : TimerThread) (i : ℕ) (pc pc' : ReaderPc) :
    (s.setReader i pc).setReader i pc' = s.setReader i pc' := by
  rw [setReader, setReader, setReader, Function.update_idem]

theorem TimerThread.setReader_cachedLogTimeStrs (s : TimerThread) (i : ℕ) (pc : ReaderPc) :
    (s.setReader i pc).cachedLogTimeStrs = s.cachedLogTimeStrs := rfl

theorem TimerThread.setReader_reader (s : TimerThread) (i : ℕ) (pc : ReaderPc) :
    (s.setReader i pc).reader i = pc := Function.update_self ..

/-- A reader reads on in its slot. -/
theorem TimerThread.read_run {s : TimerThread} {i slot begun j : ℕ} {text : List UInt8}
    (hi : s.reader i = .str slot begun (text.take j))
    (htext : ∀ k, text[k.val]? = some (s.cachedLogTimeStrs slot k))
    (hlen : text.length = kLogTimeStringLength) (n : ℕ) : j + n ≤ kLogTimeStringLength →
    ∃ es, Run TimerThreadStep s es (s.setReader i (.str slot begun (text.take (j + n)))) := by
  induction n with
  | zero =>
    intro _
    refine ⟨[], ?_⟩
    rw [Nat.add_zero, ← hi, setReader, Function.update_eq_self]
    exact .nil s
  | succ n ih =>
    intro hn
    obtain ⟨es, hrun⟩ := ih (Nat.le_of_succ_le hn)
    have hreader := s.setReader_reader i (.str slot begun (text.take (j + n)))
    have hk : j + n = (text.take (j + n)).length := by
      rw [List.length_take, hlen]
      omega
    have hstep := TimerThreadStep.readByte (k := ⟨j + n, hn⟩) hreader hk
    have hnext : text.take (j + n) ++ [s.cachedLogTimeStrs slot ⟨j + n, hn⟩] =
        text.take (j + (n + 1)) := by
      rw [← Nat.add_assoc, List.take_add_one, htext ⟨j + n, hn⟩]
      rfl
    rw [setReader_setReader, setReader_cachedLogTimeStrs, hnext] at hstep
    exact ⟨_, hrun.snoc hstep⟩

/-- The timer thread writes a string, and leaves the other slots and the readers alone. -/
theorem TimerThread.store_run {s : TimerThread} {text : List UInt8} (hpc : s.pc = .writing text 0)
    (hlen : text.length = kLogTimeStringLength) (n : ℕ) : n ≤ kLogTimeStringLength →
    ∃ es t, Run TimerThreadStep s es t ∧ t.pc = .writing text n ∧ t.index = s.index ∧
      t.updates = s.updates ∧ t.reader = s.reader ∧
      ∀ slot, slot ≠ s.index → t.cachedLogTimeStrs slot = s.cachedLogTimeStrs slot := by
  induction n with
  | zero => exact fun _ => ⟨[], s, .nil s, hpc, rfl, rfl, rfl, fun _ _ => rfl⟩
  | succ n ih =>
    intro hn
    obtain ⟨es, t, hrun, hpc, hindex, hupdates, hreader, hslots⟩ := ih (Nat.le_of_succ_le hn)
    have hbyte : text[n]? = some text[n] := List.getElem?_eq_getElem (hlen ▸ hn)
    refine ⟨_, _, hrun.snoc (.storeByte (k := ⟨n, hn⟩) hpc hbyte), rfl, hindex, hupdates, hreader,
      fun slot hslot => ?_⟩
    rw [← hslots slot hslot]
    exact Function.update_of_ne (hindex ▸ hslot) ..

/-- A whole `updateTime`. -/
theorem TimerThread.update_run {s : TimerThread} (hpc : s.pc = .idle) (tv : Timeval) :
    ∃ es t, Run TimerThreadStep s es t ∧ t.pc = .idle ∧ t.updates = s.updates ++ [tv] ∧
      t.cachedLogTimeStr = (s.index + 1) % kTimeSlots ∧ t.reader = s.reader ∧
      ∀ slot, slot ≠ (s.index + 1) % kTimeSlots →
        t.cachedLogTimeStrs slot = s.cachedLogTimeStrs slot := by
  have hbegin : ∃ es t, Run TimerThreadStep s es t ∧ t.pc = .writing tv.text 0 ∧
      t.index = (s.index + 1) % kTimeSlots ∧ t.updates = s.updates ++ [tv] ∧
      t.reader = s.reader ∧ t.cachedLogTimeStrs = s.cachedLogTimeStrs :=
    ⟨_, _, .cons (.nextIndex hpc) <| .cons (.getTimeOfDay tv rfl) <|
      .single (.storeMsec rfl tv.logTime_eq_text), rfl, rfl, rfl, rfl, rfl⟩
  obtain ⟨es, t, hbegin, hwriting, hindex, hupdates, hreader, hslots⟩ := hbegin
  obtain ⟨es', t', hwrite, hwritten, hindex', hupdates', hreader', hslots'⟩ :=
    store_run hwriting tv.length_text kLogTimeStringLength le_rfl
  have hpublish : TimerThreadStep t' .publishMsec _ := .publishMsec (tv.length_text ▸ hwritten)
  refine ⟨_, _, hbegin.append <| hwrite.append <| .cons hpublish <| .single (.publishStr rfl), rfl,
    hupdates'.trans hupdates, hindex'.trans hindex, hreader'.trans hreader, fun slot hslot => ?_⟩
  rw [← hslots]
  exact hslots' slot (hindex ▸ hslot)

/-- A reader reads the first ten bytes of the string and, behind the next update, the others. -/
theorem cached_time_whole_across_update : ∃ s es bytes,
    Run TimerThreadStep (.constructed ⟨0, 0, by decide, by decide⟩) es s ∧ s.updates.length = 2 ∧
      s.pc = .idle ∧ s.cachedLogTimeStr = 2 ∧ s.reader 0 = .str 1 1 bytes ∧
      bytes.length = kLogTimeStringLength ∧
      Timeval.logTime ⟨0, 0, by decide, by decide⟩ = .ok bytes := by
  let tv : Timeval := ⟨0, 0, by decide, by decide⟩
  have hchars : ∀ k, tv.text[k.val]? = some ((TimerThread.constructed tv).cachedLogTimeStrs 1 k) :=
    tv.record_char
  let s₀ := (TimerThread.constructed tv).setReader 0 (.str 1 1 (tv.text.take 0))
  have hload : TimerThreadStep (.constructed tv) (.loadStr 0) s₀ := .loadStr rfl
  obtain ⟨es₁, hread⟩ := TimerThread.read_run (s := s₀) (j := 0)
    (TimerThread.setReader_reader ..) hchars tv.length_text 10 (by decide)
  obtain ⟨es₂, t, hupdate, hpc, hupdates, hcached, hreader, hslots⟩ :=
    TimerThread.update_run (s := s₀.setReader 0 (.str 1 1 (tv.text.take (0 + 10)))) rfl
      ⟨0, 50000, by decide, by decide⟩
  have hfront : t.reader 0 = .str 1 1 (tv.text.take 10) := by
    rw [hreader, TimerThread.setReader_reader]
  obtain ⟨es₃, hrest⟩ := TimerThread.read_run hfront
    (by rw [hslots 1 (by decide)]; exact hchars) tv.length_text 14 (by decide)
  have hall : tv.text.take (10 + 14) = tv.text := List.take_of_length_le tv.length_text.le
  rw [hall] at hrest
  have hrun := Run.cons hload (hread.append (hupdate.append hrest))
  have hlast := TimerThread.setReader_reader t 0 (.str 1 1 tv.text)
  obtain ⟨u, tvu, text, hu, -, htvu, htext, hbytes⟩ :=
    (cached_time_whole (TimerThread.constructed_constructed tv) hrun).2 0 1 1 tv.text hlast
  obtain rfl : u = 0 := Nat.lt_one_iff.mp hu
  -- the update that the reader has read is the first one
  change t.updates[0]? = some tvu at htvu
  rw [hupdates] at htvu
  obtain rfl : tv = tvu := Option.some.inj htvu
  have hwindow : t.updates.length ≤ 0 + kTimeSlots := by
    rw [hupdates]
    decide
  obtain rfl : tv.text = text := (hbytes hwindow).eq_of_length
    (congrArg List.length (Except.ok.inj (tv.logTime_eq_text.symm.trans htext)))
  exact ⟨_, _, tv.text, hrun, congrArg List.length hupdates, hpc, hcached, hlast, tv.length_text,
    htext⟩

end ServerKit
