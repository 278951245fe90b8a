import ServerKit.Core.EpollEvents
import ServerKit.Core.Verify.Entries
import Mathlib.Data.Int.Order.Basic
import Mathlib.Data.List.Basic

/-!
# The events that a round handles

`epoll_wait` writes behind the last element of `ep_events_` as long as only `Init` has reserved room
for events. A callback that registers a file descriptor above `size_` makes `Epoll::Add` resize the
vector: what stands behind its last element is lost, and `epev` dangles if the vector moves.
-/

namespace ServerKit

open Lib StdVector

/-! ## What callbacks do to the poller -/

/-- The vector has at most `size_` elements, and room for `size_`. -/
structure Sized (s : EventPoller) : Prop where
  size_le : (s.epEvents.size : ℤ) ≤ s.epoll.size
  le_capacity : s.epoll.size ≤ s.epEvents.capacity

/-- What calls leave: the vector as it was, or grown together with `size_`. -/
structure Called (s s' : EventPoller) : Prop where
  sized : Sized s'
  allocated : ∀ ee, s.epoll.entries ee ≠ none → s'.epoll.entries ee ≠ none
  vector : s'.epoll.size = s.epoll.size ∧ s'.epEvents = s.epEvents ∨
    s.epoll.size < s'.epoll.size ∧ (s'.epEvents.size : ℤ) = s'.epoll.size ∧
      Grows .zero s.epEvents s'.epEvents

/-- The element at index `j` has been value-initialised. -/
def EventPoller.Lost (s : EventPoller) (j : ℕ) : Prop :=
  j < s.epEvents.size ∧ s.epEvents.data j = some .zero

/-- The events from index `i` on stand where the kernel has written them. -/
def EventPoller.Intact (s : EventPoller) (events : List EpollEvent) (i : ℕ) : Prop :=
  ∀ j e, i ≤ j → events[j]? = some e → s.epEvents.data j = some e.raw

theorem Epoll.setEntry_ne_none (e : Epoll) {ee ee' : EpollEntryPtr} (en : EpollEntry)
    (h : e.entries ee' ≠ none) : (e.setEntry ee (some en)).entries ee' ≠ none := by
  by_cases heq : ee' = ee
  · rw [heq, setEntry_self]
    exact Option.some_ne_none en
  · rw [setEntry_ne e _ heq]
    exact h

theorem Epoll.add_allocated (e : Epoll) (fd : ℤ) (event : SocketPtr) (added : Bool)
    {ee : EpollEntryPtr} (h : e.entries ee ≠ none) :
    (e.add fd event added).2.entries ee ≠ none := by
  cases added with
  | false => exact h
  | true => exact e.setEntry_ne_none ⟨fd, event⟩ h

/-- What `Epoll::Add` does to `size_` and the vector. -/
theorem EventPoller.add_ok {g : VectorAlloc} {s s' : EventPoller} {fd : ℤ} {event : SocketPtr}
    {added : Bool} {handle : Option EpollEntryPtr}
    (h : s.add g fd event added = .ok (handle, s')) :
    s'.epoll = (s.epoll.add fd event added).2 ∧
      (s'.epoll.size = s.epoll.size ∧ s'.epEvents = s.epEvents ∨
        s.epoll.size < s'.epoll.size ∧
          s'.epEvents = s.epEvents.resize g .zero s'.epoll.size.toNat) := by
  cases added with
  | false =>
    obtain ⟨-, rfl⟩ := Prod.mk.inj (Except.ok.inj h)
    exact ⟨rfl, .inl ⟨rfl, rfl⟩⟩
  | true =>
    change (if true = true ∧ s.epoll.size < fd then _ else _) = _ at h
    have hsize : (s.epoll.add fd event true).2.size =
        if s.epoll.size < fd then fd + kIncrPollSize else s.epoll.size := rfl
    by_cases hfd : s.epoll.size < fd
    · rw [if_pos ⟨rfl, hfd⟩] at h
      split at h
      · cases h
      obtain ⟨-, rfl⟩ := Prod.mk.inj (Except.ok.inj h)
      refine ⟨rfl, .inr ⟨?_, rfl⟩⟩
      change s.epoll.size < (s.epoll.add fd event true).2.size
      rw [hsize, if_pos hfd]
      unfold kIncrPollSize
      omega
    · rw [if_neg fun hgrow => hfd hgrow.2] at h
      obtain ⟨-, rfl⟩ := Prod.mk.inj (Except.ok.inj h)
      refine ⟨rfl, .inl ⟨?_, rfl⟩⟩
      change (s.epoll.add fd event true).2.size = s.epoll.size
      rw [hsize, if_neg hfd]

namespace Called

variable {g : VectorAlloc} {s s' s'' : EventPoller}

theorem refl (h : Sized s) : Called s s := ⟨h, fun _ hee => hee, .inl ⟨rfl, rfl⟩⟩

theorem trans (h : Called s s') (h' : Called s' s'') : Called s s'' := by
  refine ⟨h'.sized, fun ee hee => h'.allocated ee (h.allocated ee hee), ?_⟩
  rcases h.vector with ⟨hsize, hvec⟩ | ⟨hlt, hsize, hgrows⟩
  · rw [← hsize, ← hvec]
    exact h'.vector
  · rcases h'.vector with ⟨hsize', hvec'⟩ | ⟨hlt', hsize', hgrows'⟩
    · rw [hsize', hvec']
      exact .inr ⟨hlt, hsize, hgrows⟩
    · exact .inr ⟨hlt.trans hlt', hsize', hgrows.trans hgrows'⟩

theorem size_le (h : Called s s') : s.epoll.size ≤ s'.epoll.size := by
  rcases h.vector with ⟨hsize, -⟩ | ⟨hlt, -⟩
  · exact hsize.ge
  · exact hlt.le

theorem lost {j : ℕ} (h : Called s s') (hlost : s.Lost j) : s'.Lost j := by
  rcases h.vector with ⟨-, hvec⟩ | ⟨-, -, hgrows⟩
  · unfold EventPoller.Lost
    rw [hvec]
    exact hlost
  · exact hgrows.lost_of_lost hlost.1 hlost.2

theorem intact {events : List EpollEvent} {i : ℕ} (h : Called s s') (hin : s.Intact events i)
    (hkept : s'.epoll.size = s.epoll.size ∨ events.length ≤ i ∨
      events.length ≤ s.epEvents.size) : s'.Intact events i := by
  intro j e hij hj
  have hlt : j < events.length := (List.getElem?_eq_some_iff.mp hj).1
  rcases h.vector with ⟨-, hvec⟩ | ⟨hgrown, -, hgrows⟩
  · rw [hvec]
    exact hin j e hij hj
  · rcases hkept with hsame | hlast | hsize
    · exact absurd hsame hgrown.ne'
    · exact absurd (hij.trans_lt hlt) (Nat.not_lt_of_le hlast)
    · rw [hgrows.kept j (hlt.trans_le hsize)]
      exact hin j e hij hj

theorem add (h : Sized s) {fd : ℤ} {event : SocketPtr} {added : Bool}
    {handle : Option EpollEntryPtr} (hadd : s.add g fd event added = .ok (handle, s')) :
    Called s s' := by
  obtain ⟨hepoll, hvec⟩ := EventPoller.add_ok hadd
  have hallocated : ∀ ee, s.epoll.entries ee ≠ none → s'.epoll.entries ee ≠ none := by
    intro ee hee
    rw [hepoll]
    exact s.epoll.add_allocated fd event added hee
  have hbelow := h.size_le
  rcases hvec with ⟨hsize, hvec⟩ | ⟨hlt, hvec⟩
  · refine ⟨⟨?_, ?_⟩, hallocated, .inl ⟨hsize, hvec⟩⟩
    · rw [hsize, hvec]
      exact hbelow
    · rw [hsize, hvec]
      exact h.le_capacity
  · have hgrows := Grows.resize s.epEvents g RawEvent.zero
      (n := s'.epoll.size.toNat) (by omega)
    rw [← hvec] at hgrows
    have hsize : s'.epEvents.size = s'.epoll.size.toNat := by
      rw [hvec, resize_size]
    have hroom := s'.epEvents.size_le
    exact ⟨⟨by omega, by omega⟩, hallocated, .inr ⟨hlt, by omega, hgrows⟩⟩

/-- One call of a callback. -/
theorem call (h : Sized s) {c : PollerCall} (hcall : s.call g c = .ok s') : Called s s' := by
  cases c with
  | add fd event added =>
    obtain ⟨⟨handle, s₁⟩, hadd, hret⟩ := bind_eq_ok.mp hcall
    obtain rfl := Except.ok.inj hret
    exact .add h hadd
  | del handle =>
    obtain ⟨epoll, hdel, hret⟩ := bind_eq_ok.mp hcall
    obtain rfl := Except.ok.inj hret
    cases handle with
    | none =>
      obtain rfl := Except.ok.inj hdel
      exact .refl h
    | some ee =>
      obtain ⟨en, -, hret⟩ := bind_eq_ok.mp hdel
      obtain rfl := Except.ok.inj hret
      refine ⟨⟨h.size_le, h.le_capacity⟩, ?_, .inl ⟨rfl, rfl⟩⟩
      intro ee' hee
      exact s.epoll.setEntry_ne_none { en with fd := kInvalidFd } hee
  | markWriteable handle =>
    obtain rfl := Except.ok.inj hcall
    cases handle with
    | none => exact .refl h
    | some ee => exact ⟨⟨h.size_le, h.le_capacity⟩, fun _ hee => hee, .inl ⟨rfl, rfl⟩⟩

/-- The calls of a callback. -/
theorem run (calls : List PollerCall) : ∀ {s : EventPoller}, Sized s → s.run g calls = .ok s' →
    Called s s' := by
  induction calls with
  | nil =>
    intro s h hrun
    obtain rfl := Except.ok.inj hrun
    exact .refl h
  | cons c calls ih =>
    intro s h hrun
    obtain ⟨s₁, hcall, hrest⟩ := bind_eq_ok.mp hrun
    have h₁ := Called.call h hcall
    exact h₁.trans (ih h₁.sized hrest)

/-- The checks of an element, wherever they read it. -/
theorem checks {epev : EventPoller → Except Fault RawEvent} {ee : EpollEntryPtr}
    {event : SocketPtr} (stages : List EventStage) : ∀ {s : EventPoller}
    {calls : List (List PollerCall)} {r}, Sized s →
    EventPoller.checks g epev ee event stages s calls = .ok r → Called s r.poller := by
  induction stages with
  | nil =>
    intro s calls r h hchecks
    obtain rfl := Except.ok.inj hchecks
    exact .refl h
  | cons stage stages ih =>
    intro s calls r h hchecks
    obtain ⟨en, -, hchecks⟩ := bind_eq_ok.mp hchecks
    split at hchecks
    · obtain rfl := Except.ok.inj hchecks
      exact .refl h
    obtain ⟨raw, -, hchecks⟩ := bind_eq_ok.mp hchecks
    split at hchecks
    · obtain ⟨s₁, hrun, hchecks⟩ := bind_eq_ok.mp hchecks
      obtain ⟨rest, hrest, hret⟩ := bind_eq_ok.mp hchecks
      obtain rfl := Except.ok.inj hret
      have h₁ := Called.run _ h hrun
      have h₂ : Called s₁ rest.poller := ih h₁.sized hrest
      exact h₁.trans h₂
    · exact ih h hchecks

theorem handle {epev : EventPoller → Except Fault RawEvent} {calls : List (List PollerCall)} {r}
    (h : Sized s) (hhandle : s.handle g epev calls = .ok r) : Called s r.poller := by
  obtain ⟨raw, -, hhandle⟩ := bind_eq_ok.mp hhandle
  split at hhandle
  · cases hhandle
  · obtain ⟨en, -, hchecks⟩ := bind_eq_ok.mp hhandle
    exact .checks _ h hchecks

theorem pollEvents {elem : EventPoller → ℕ → EventPoller → Except Fault RawEvent} (num : ℕ) :
    ∀ {s : EventPoller} {i : ℕ} {calls : List (List PollerCall)} {r}, Sized s →
    EventPoller.pollEvents g elem num i s calls = .ok r → Called s r.poller := by
  induction num with
  | zero =>
    intro s i calls r h hpoll
    obtain rfl := Except.ok.inj hpoll
    exact .refl h
  | succ num ih =>
    intro s i calls r h hpoll
    obtain ⟨first, hfirst, hpoll⟩ := bind_eq_ok.mp hpoll
    obtain ⟨rest, hrest, hret⟩ := bind_eq_ok.mp hpoll
    obtain rfl := Except.ok.inj hret
    have h₁ := Called.handle h hfirst
    have h₂ : Called first.poller rest.poller := ih h₁.sized hrest
    exact h₁.trans h₂

end Called

/-! ## When the events of a batch survive -/

/-- The loop of `Poll` goes through the events that the kernel has reported: with the same calls of
Events at each index, and to the same end, as if it read them where nothing changes them. -/
def EventPoller.HandlesReported (g : VectorAlloc) (s : EventPoller) (events : List EpollEvent)
    (calls : List (List PollerCall)) : Prop :=
  ∃ r, pollEvents g inVector events.length 0 (s.epollWait events) calls = .ok r ∧
    pollEvents g (reported events) events.length 0 (s.epollWait events) calls = .ok r

def EventPoller.Retired (s : EventPoller) (ee : EpollEntryPtr) : Prop :=
  ∃ en, s.epoll.entries ee = some en ∧ en.fd = kInvalidFd

/-- What the callback of a check of the event `e`, at index `i` of `num`, does between `s` and `s'`.
If it registers a file descriptor above `size_`, then the vector has an element for each event to
come; and `e` is not read again in the checks `stages`, or it is an element of a vector that does
not move, or its bits that are still to be read are as in a value-initialised event. -/
def EventPoller.Keeps (s s' : EventPoller) (e : EpollEvent) (i num : ℕ)
    (stages : List EventStage) : Prop :=
  s'.epoll.size = s.epoll.size ∨
    (num ≤ i + 1 ∨ num ≤ s.epEvents.size) ∧
      (stages = [] ∨ s'.Retired e.ptr ∨ s'.epoll.size ≤ s.epEvents.capacity ∧
        (i < s.epEvents.size ∨ ∀ stage ∈ stages, stage.bit e.events = false))

/-- The callbacks of the checks of the event `e` keep the vector as it must be, and so do those
`later` on. -/
def EventPoller.KeepsChecks (g : VectorAlloc) (e : EpollEvent) (i num : ℕ)
    (later : EventPoller → List (List PollerCall) → Prop) :
    List EventStage → EventPoller → List (List PollerCall) → Prop
  | [], s, calls => later s calls
  | stage :: stages, s, calls =>
    match s.epoll.entries e.ptr with
    | none => False
    | some en =>
      if en.fd = kInvalidFd then later s calls
      else if stage.bit e.events then
        ∃ s', s.run g (calls.headD []) = .ok s' ∧ s.Keeps s' e i num stages ∧
          KeepsChecks g e i num later stages s' calls.tail
      else KeepsChecks g e i num later stages s calls

/-- The callbacks of the events from index `i` on keep the vector as it must be. -/
def EventPoller.KeepsEvents (g : VectorAlloc) (num : ℕ) :
    List EpollEvent → ℕ → EventPoller → List (List PollerCall) → Prop
  | [], _, _, _ => True
  | e :: rest, i, s, calls =>
    KeepsChecks g e i num (KeepsEvents g num rest (i + 1)) [.error, .input, .output] s calls

/-- `epev`, set in `s₀` for the event `e` at index `i`, reads in `s` the bits of `e` that the checks
`stages` look at. -/
def EventPoller.Reads (s₀ s : EventPoller) (e : EpollEvent) (i : ℕ) (stages : List EventStage) :
    Prop :=
  stages = [] ∨ s.Retired e.ptr ∨ ∃ raw, inVector s₀ i s = .ok raw ∧
    ∀ stage ∈ stages, stage.bit raw.events = stage.bit e.events

section Checks

variable {g : VectorAlloc} {s₀ s s' : EventPoller} {e : EpollEvent} {i num : ℕ}
  {stage : EventStage} {stages : List EventStage} {event : SocketPtr}
  {calls : List (List PollerCall)}

theorem EventPoller.deref_eq_ok {epev : VectorPtr} {raw : RawEvent} :
    s.deref epev = .ok raw ↔ s.epEvents.deref epev = some raw := by
  unfold deref
  cases s.epEvents.deref epev with
  | none => exact ⟨nofun, nofun⟩
  | some raw' =>
    exact ⟨fun h => congrArg some (Except.ok.inj h),
      fun h => congrArg Except.ok (Option.some.inj h)⟩

theorem RawEvent.zero_bit (stage : EventStage) : stage.bit RawEvent.zero.events = false := by
  cases stage <;> rfl

theorem EventPoller.reported_eq {events : List EpollEvent} (he : events[i]? = some e)
    (s₀ s : EventPoller) : reported events s₀ i s = .ok e.raw := by
  unfold reported
  rw [he]

theorem Epoll.entry_eq {epoll : Epoll} {ee : EpollEntryPtr} {en : EpollEntry}
    (h : epoll.entries ee = some en) : epoll.entry ee = .ok en := by
  unfold entry
  rw [h]

theorem EventPoller.handle_eq {epev : EventPoller → Except Fault RawEvent} {en : EpollEntry}
    (hraw : epev s = .ok e.raw) (hen : s.epoll.entries e.ptr = some en) :
    s.handle g epev calls = checks g epev e.ptr en.event [.error, .input, .output] s calls := by
  unfold handle
  rw [hraw, ok_bind]
  change (s.epoll.entry e.ptr >>= _) = _
  rw [Epoll.entry_eq hen, ok_bind]

/-- A callback leaves what `epev` reads, or `epev` is not read again. -/
theorem EventPoller.Reads.called {raw : RawEvent} (hraw : inVector s₀ i s = .ok raw)
    (hbits : ∀ stage ∈ stages, stage.bit raw.events = stage.bit e.events) (h : Called s s')
    (hnum : (num : ℤ) ≤ s.epoll.size) (hi : i < num) (hkeeps : s.Keeps s' e i num stages) :
    s₀.Reads s' e i stages := by
  have hderef := deref_eq_ok.mp hraw
  rcases h.vector with ⟨-, hvec⟩ | ⟨hlt, hsize, hgrows⟩
  · refine .inr (.inr ⟨raw, ?_, hbits⟩)
    apply deref_eq_ok.mpr
    rw [hvec]
    exact hderef
  rcases hkeeps with hsame | ⟨-, hdone | hretired | ⟨hroom, hkept⟩⟩
  · exact absurd hsame hlt.ne'
  · exact .inl hdone
  · exact .inr (.inl hretired)
  -- the vector has grown where it stands
  obtain ⟨⟨hblock, -⟩, hdata⟩ := deref_eq_some.mp hderef
  have hinPlace := hgrows.deref_inPlace (by omega) hblock (by
    rw [pointer_index]
    omega)
  rw [pointer_index] at hinPlace hdata
  by_cases hold : i < s.epEvents.size
  · rw [if_pos hold, hdata] at hinPlace
    exact .inr (.inr ⟨raw, deref_eq_ok.mpr hinPlace, hbits⟩)
  · rw [if_neg hold] at hinPlace
    refine .inr (.inr ⟨.zero, deref_eq_ok.mpr hinPlace, ?_⟩)
    intro stage hstage
    rw [RawEvent.zero_bit, hkept.resolve_left hold stage hstage]

/-- The events to come stand where they did. -/
theorem EventPoller.Keeps.intact {events : List EpollEvent} (hkeeps : s.Keeps s' e i events.length
    stages) (h : Called s s') (hin : s.Intact events (i + 1)) : s'.Intact events (i + 1) := by
  apply h.intact hin
  rcases hkeeps with hsame | ⟨hlater, -⟩
  · exact .inl hsame
  · exact .inr hlater

/-- **One element**, when its callbacks keep the vector as it must be. -/
theorem EventPoller.KeepsChecks.checks (s₀ : EventPoller) (event : SocketPtr)
    {events : List EpollEvent} (he : events[i]? = some e)
    {later : EventPoller → List (List PollerCall) → Prop} (stages : List EventStage) :
    ∀ {s : EventPoller} {calls : List (List PollerCall)},
    KeepsChecks g e i events.length later stages s calls → Sized s →
    (events.length : ℤ) ≤ s.epoll.size → s.Intact events (i + 1) → s₀.Reads s e i stages →
    ∃ r, EventPoller.checks g (inVector s₀ i) e.ptr event stages s calls = .ok r ∧
      EventPoller.checks g (reported events s₀ i) e.ptr event stages s calls = .ok r ∧
      Called s r.poller ∧ r.poller.Intact events (i + 1) ∧ later r.poller r.calls := by
  have hi : i < events.length := (List.getElem?_eq_some_iff.mp he).1
  induction stages with
  | nil => exact fun hkeeps h _ hin _ => ⟨_, rfl, rfl, .refl h, hin, hkeeps⟩
  | cons stage stages ih =>
    intro s calls hkeeps h hnum hin hreads
    unfold KeepsChecks at hkeeps
    cases hen : s.epoll.entries e.ptr with
    | none =>
      rw [hen] at hkeeps
      cases hkeeps
    | some en =>
      rw [hen] at hkeeps
      unfold EventPoller.checks
      rw [Epoll.entry_eq hen, ok_bind, ok_bind]
      by_cases hfd : en.fd = kInvalidFd
      · rw [if_pos hfd, if_pos hfd]
        simp only [hfd, if_true] at hkeeps
        exact ⟨_, rfl, rfl, .refl h, hin, hkeeps⟩
      simp only [hfd, if_false] at hkeeps
      rw [if_neg hfd, if_neg hfd]
      rcases hreads with hdone | ⟨en', hen', hfd'⟩ | ⟨raw, hraw, hbits⟩
      · cases hdone
      · obtain rfl := Option.some.inj (hen.symm.trans hen')
        exact absurd hfd' hfd
      obtain ⟨hbit, hbits⟩ := List.forall_mem_cons.mp hbits
      rw [hraw, reported_eq he, ok_bind, ok_bind, hbit]
      change ∃ r, (if stage.bit e.events = true then _ else _) = _ ∧
        (if stage.bit e.events = true then _ else _) = _ ∧ _
      by_cases hset : stage.bit e.events = true
      · rw [if_pos hset, if_pos hset]
        rw [if_pos hset] at hkeeps
        obtain ⟨s', hrun, hkept, hkeeps⟩ := hkeeps
        have hcalled := Called.run _ h hrun
        obtain ⟨r, hcode, hideal, hr, hin', hlater⟩ := ih hkeeps hcalled.sized
          (hnum.trans hcalled.size_le) (hkept.intact hcalled hin)
          (Reads.called hraw hbits hcalled hnum hi hkept)
        rw [hrun, ok_bind, ok_bind, hcode, hideal]
        exact ⟨_, rfl, rfl, hcalled.trans hr, hin', hlater⟩
      · rw [if_neg hset, if_neg hset]
        rw [if_neg hset] at hkeeps
        exact ih hkeeps h hnum hin (.inr (.inr ⟨raw, hraw, hbits⟩))

/-- What `epev` reads when it is set. -/
theorem EventPoller.Intact.inVector {events : List EpollEvent} (hin : s.Intact events i)
    (he : events[i]? = some e) (h : Sized s) (hnum : (events.length : ℤ) ≤ s.epoll.size) :
    inVector s i s = .ok e.raw := by
  have hi : i < events.length := (List.getElem?_eq_some_iff.mp he).1
  have hroom := h.le_capacity
  apply deref_eq_ok.mpr
  rw [deref_pointer rfl (by omega)]
  exact hin i e le_rfl he

theorem of_drop_eq_cons {events rest : List EpollEvent} (h : events.drop i = e :: rest) :
    events[i]? = some e ∧ events.drop (i + 1) = rest := by
  constructor
  · rw [← List.head?_drop, h]
    rfl
  · rw [← List.tail_drop, h]
    rfl

/-- **The loop of `Poll`**, when the callbacks keep the vector as it must be. -/
theorem EventPoller.KeepsEvents.pollEvents {events : List EpollEvent} (rest : List EpollEvent) :
    ∀ {i : ℕ} {s : EventPoller} {calls : List (List PollerCall)},
    KeepsEvents g events.length rest i s calls → events.drop i = rest → Sized s →
    (events.length : ℤ) ≤ s.epoll.size → s.Intact events i →
    (∀ e ∈ rest, s.epoll.entries e.ptr ≠ none) →
    ∃ r, EventPoller.pollEvents g EventPoller.inVector rest.length i s calls = .ok r ∧
      EventPoller.pollEvents g (reported events) rest.length i s calls = .ok r := by
  induction rest with
  | nil => exact fun _ _ _ _ _ _ => ⟨_, rfl, rfl⟩
  | cons e rest ih =>
    intro i s calls hkeeps hdrop h hnum hin hallocated
    obtain ⟨he, hrest⟩ := of_drop_eq_cons hdrop
    obtain ⟨hentry, hallocated⟩ := List.forall_mem_cons.mp hallocated
    obtain ⟨en, hen⟩ := Option.ne_none_iff_exists'.mp hentry
    have hraw := hin.inVector he h hnum
    obtain ⟨r, hcode, hideal, hcalled, hin', hlater⟩ := KeepsChecks.checks s en.event he _ hkeeps
      h hnum (fun j e' hj => hin j e' (Nat.le_of_succ_le hj))
      (.inr (.inr ⟨e.raw, hraw, fun _ _ => rfl⟩))
    obtain ⟨r', hcode', hideal'⟩ := ih hlater hrest hcalled.sized
      (hnum.trans hcalled.size_le) hin' fun e' he' => hcalled.allocated _ (hallocated e' he')
    refine ⟨{ r' with handled := r.handled :: r'.handled }, ?_, ?_⟩
    · change (s.handle g (EventPoller.inVector s i) calls >>= _) = _
      rw [handle_eq hraw hen, hcode, ok_bind, hcode', ok_bind]
      rfl
    · change (s.handle g (reported events s i) calls >>= _) = _
      rw [handle_eq (reported_eq he s s) hen, hideal, ok_bind, hideal', ok_bind]
      rfl

/-! ## When they do not -/

/-- Checks that find no bit set. -/
theorem EventPoller.checks_idle {epev : EventPoller → Except Fault RawEvent} {raw : RawEvent}
    (hraw : epev s = .ok raw) (stages : List EventStage)
    (hbits : ∀ stage ∈ stages, stage.bit raw.events = false) {ee : EpollEntryPtr} {r}
    (h : checks g epev ee event stages s calls = .ok r) : r = ⟨s, calls, []⟩ := by
  induction stages with
  | nil => exact (Except.ok.inj h).symm
  | cons stage stages ih =>
    obtain ⟨hbit, hbits⟩ := List.forall_mem_cons.mp hbits
    obtain ⟨en, -, h⟩ := bind_eq_ok.mp h
    split at h
    · exact (Except.ok.inj h).symm
    · rw [hraw, ok_bind, hbit] at h
      exact ih hbits h

/-- Checks of an entry that is not retired that call nothing. -/
theorem EventPoller.bits_of_checks {epev : EventPoller → Except Fault RawEvent} {raw : RawEvent}
    (hraw : epev s = .ok raw) {ee : EpollEntryPtr} (hlive : ¬ s.Retired ee)
    (stages : List EventStage) {r} (h : checks g epev ee event stages s calls = .ok r)
    (hnil : r.handled = []) : ∀ stage ∈ stages, stage.bit raw.events = false := by
  induction stages with
  | nil => exact fun _ hstage => absurd hstage List.not_mem_nil
  | cons stage stages ih =>
    obtain ⟨en, hen, h⟩ := bind_eq_ok.mp h
    split at h
    · rename_i hfd
      exact absurd ⟨en, Epoll.entry_eq_ok hen, hfd⟩ hlive
    rw [hraw, ok_bind] at h
    by_cases hbit : stage.bit raw.events = true
    · rw [if_pos hbit] at h
      obtain ⟨s', -, h⟩ := bind_eq_ok.mp h
      obtain ⟨rest, -, hret⟩ := bind_eq_ok.mp h
      obtain rfl := Except.ok.inj hret
      cases hnil
    · rw [if_neg hbit] at h
      exact List.forall_mem_cons.mpr ⟨Bool.eq_false_iff.mpr hbit, ih h⟩

/-- `Poll` does not get past an element that has been value-initialised. -/
theorem EventPoller.Lost.stops (num : ℕ) : ∀ {i j : ℕ} {s : EventPoller}
    {calls : List (List PollerCall)} {r}, s.Lost j → Sized s → i ≤ j → j < i + num →
    pollEvents g EventPoller.inVector num i s calls ≠ .ok r := by
  induction num with
  | zero =>
    intro i j s calls r _ _ hij hj
    omega
  | succ num ih =>
    intro i j s calls r hlost h hij hj hpoll
    obtain ⟨first, hfirst, hpoll⟩ := bind_eq_ok.mp hpoll
    obtain ⟨rest, hrest, -⟩ := bind_eq_ok.mp hpoll
    rcases Nat.lt_or_eq_of_le hij with hlt | rfl
    · have hcalled := Called.handle h hfirst
      exact ih (hcalled.lost hlost) hcalled.sized hlt (by omega) hrest
    · have hraw : EventPoller.inVector s i s = .ok .zero := by
        apply deref_eq_ok.mpr
        rw [deref_pointer rfl (hlost.1.trans_le s.epEvents.size_le)]
        exact hlost.2
      obtain ⟨raw, hraw', hfirst⟩ := bind_eq_ok.mp hfirst
      obtain rfl := Except.ok.inj (hraw.symm.trans hraw')
      cases hfirst

/-- What a callback has done, when the checks behind it, and the events to come, have come out as
reported. -/
theorem EventPoller.Keeps.of_checks {events : List EpollEvent} (he : events[i]? = some e)
    {raw : RawEvent} (hraw : inVector s₀ i s = .ok raw) (hcalled : Called s s')
    (hnum : (events.length : ℤ) ≤ s.epoll.size) {rc ri}
    (hcode : checks g (inVector s₀ i) e.ptr event stages s' calls = .ok rc)
    (hideal : checks g (reported events s₀ i) e.ptr event stages s' calls = .ok ri)
    (hsame : rc.handled = ri.handled)
    (hlost : ∀ j, i < j → j < events.length → ¬ rc.poller.Lost j) :
    s.Keeps s' e i events.length stages := by
  rcases hcalled.vector with ⟨hsize, -⟩ | ⟨hlt, hsize, hgrows⟩
  · exact .inl hsize
  refine .inr ⟨?_, ?_⟩
  · by_contra hlater
    rw [not_or, Nat.not_le, Nat.not_le] at hlater
    have hbelow : events.length - 1 < s'.epEvents.size := by omega
    have hlast : s'.Lost (events.length - 1) :=
      ⟨hbelow, hgrows.lost _ (by omega) hbelow⟩
    exact hlost _ (by omega) (by omega) ((Called.checks _ hcalled.sized hcode).lost hlast)
  · cases stages with
    | nil => exact .inl rfl
    | cons stage stages =>
    by_cases hretired : s'.Retired e.ptr
    · exact .inr (.inl hretired)
    refine .inr (.inr ?_)
    -- the next check reads `epev`
    obtain ⟨en, hen, hnext⟩ := bind_eq_ok.mp hcode
    split at hnext
    · rename_i hfd
      exact absurd ⟨en, Epoll.entry_eq_ok hen, hfd⟩ hretired
    obtain ⟨raw', hraw', -⟩ := bind_eq_ok.mp hnext
    obtain ⟨⟨hblock, -⟩, -⟩ := deref_eq_some.mp (deref_eq_ok.mp hraw)
    have hderef := deref_eq_ok.mp hraw'
    have hroom : s'.epEvents.size ≤ s.epEvents.capacity := by
      by_contra hmoved
      rw [hgrows.deref_moved (Nat.lt_of_not_le hmoved) hblock.le] at hderef
      cases hderef
    refine ⟨by omega, ?_⟩
    by_contra hkept
    rw [not_or] at hkept
    have hi : i < events.length := (List.getElem?_eq_some_iff.mp he).1
    rw [hgrows.deref_inPlace hroom hblock (by rw [pointer_index]; omega), pointer_index,
      if_neg hkept.1] at hderef
    obtain rfl := Option.some.inj hderef
    obtain rfl := checks_idle hraw' _ (fun stage _ => RawEvent.zero_bit stage) hcode
    exact hkept.2 (bits_of_checks (reported_eq he s₀ s') hretired _ hideal hsame.symm)

/-- **One element**, when it has been handled as reported: its callbacks have kept the vector as it
must be. -/
theorem EventPoller.KeepsChecks.of_checks {events : List EpollEvent} (he : events[i]? = some e)
    {later : EventPoller → List (List PollerCall) → Prop} (stages : List EventStage) :
    ∀ {s : EventPoller} {calls : List (List PollerCall)} {rc ri},
    EventPoller.checks g (inVector s₀ i) e.ptr event stages s calls = .ok rc →
    EventPoller.checks g (reported events s₀ i) e.ptr event stages s calls = .ok ri →
    rc.handled = ri.handled → (∀ j, i < j → j < events.length → ¬ rc.poller.Lost j) → Sized s →
    (events.length : ℤ) ≤ s.epoll.size → s.Intact events (i + 1) → s₀.Reads s e i stages →
    (Called s rc.poller → rc.poller.Intact events (i + 1) → rc = ri → later rc.poller rc.calls) →
    KeepsChecks g e i events.length later stages s calls := by
  induction stages with
  | nil =>
    intro s calls rc ri hcode hideal _ _ h _ hin _ hlater
    obtain rfl := Except.ok.inj hcode
    obtain rfl := Except.ok.inj hideal
    exact hlater (.refl h) hin rfl
  | cons stage stages ih =>
    intro s calls rc ri hcode hideal hsame hlost h hnum hin hreads hlater
    obtain ⟨en, hen, hcode⟩ := bind_eq_ok.mp hcode
    obtain ⟨en', hen', hideal⟩ := bind_eq_ok.mp hideal
    obtain rfl := Except.ok.inj (hen.symm.trans hen')
    unfold KeepsChecks
    rw [Epoll.entry_eq_ok hen]
    change if en.fd = kInvalidFd then _ else _
    by_cases hfd : en.fd = kInvalidFd
    · rw [if_pos hfd] at hcode hideal ⊢
      obtain rfl := Except.ok.inj hcode
      obtain rfl := Except.ok.inj hideal
      exact hlater (.refl h) hin rfl
    rw [if_neg hfd] at hcode hideal ⊢
    rcases hreads with hdone | ⟨en', hen', hfd'⟩ | ⟨raw, hraw, hbits⟩
    · cases hdone
    · obtain rfl := Option.some.inj ((Epoll.entry_eq_ok hen).symm.trans hen')
      exact absurd hfd' hfd
    obtain ⟨hbit, hbits⟩ := List.forall_mem_cons.mp hbits
    rw [hraw, ok_bind, hbit] at hcode
    rw [reported_eq he, ok_bind] at hideal
    change (if stage.bit e.events = true then _ else _) = _ at hideal
    by_cases hset : stage.bit e.events = true
    · rw [if_pos hset] at hcode hideal ⊢
      obtain ⟨s', hrun, hcode⟩ := bind_eq_ok.mp hcode
      rw [hrun, ok_bind] at hideal
      obtain ⟨rc', hrestc, hretc⟩ := bind_eq_ok.mp hcode
      obtain ⟨ri', hresti, hreti⟩ := bind_eq_ok.mp hideal
      obtain rfl := Except.ok.inj hretc
      obtain rfl := Except.ok.inj hreti
      have hsame' : rc'.handled = ri'.handled := (List.cons.inj hsame).2
      have hcalled := Called.run _ h hrun
      have hkeeps : s.Keeps s' e i events.length stages :=
        Keeps.of_checks he hraw hcalled hnum hrestc hresti hsame' hlost
      refine ⟨s', hrun, hkeeps, ?_⟩
      apply ih hrestc hresti hsame' hlost hcalled.sized (hnum.trans hcalled.size_le)
        (hkeeps.intact hcalled hin)
        (Reads.called hraw hbits hcalled hnum (List.getElem?_eq_some_iff.mp he).1 hkeeps)
      rintro hrest hin' rfl
      exact hlater (hcalled.trans hrest) hin' rfl
    · rw [if_neg hset] at hcode hideal ⊢
      exact ih hcode hideal hsame hlost h hnum hin (.inr (.inr ⟨raw, hraw, hbits⟩)) hlater

/-- **The loop of `Poll`**, when it has handled the events as reported. -/
theorem EventPoller.KeepsEvents.of_pollEvents {events : List EpollEvent} (rest : List EpollEvent) :
    ∀ {i : ℕ} {s : EventPoller} {calls : List (List PollerCall)} {r},
    EventPoller.pollEvents g EventPoller.inVector rest.length i s calls = .ok r →
    EventPoller.pollEvents g (reported events) rest.length i s calls = .ok r →
    events.drop i = rest → Sized s → (events.length : ℤ) ≤ s.epoll.size → s.Intact events i →
    (∀ e ∈ rest, s.epoll.entries e.ptr ≠ none) →
    KeepsEvents g events.length rest i s calls := by
  induction rest with
  | nil => exact fun _ _ _ _ _ _ _ => trivial
  | cons e rest ih =>
    intro i s calls r hcode hideal hdrop h hnum hin hallocated
    obtain ⟨he, hrest⟩ := of_drop_eq_cons hdrop
    have hlen : events.length - i = rest.length + 1 := by
      rw [← List.length_drop, hdrop]
      rfl
    obtain ⟨hentry, hallocated⟩ := List.forall_mem_cons.mp hallocated
    obtain ⟨en, hen⟩ := Option.ne_none_iff_exists'.mp hentry
    have hraw := hin.inVector he h hnum
    obtain ⟨first, hfirst, hcode⟩ := bind_eq_ok.mp hcode
    obtain ⟨⟨t, calls', handled⟩, hcode, hret⟩ := bind_eq_ok.mp hcode
    obtain ⟨first', hfirst', hideal⟩ := bind_eq_ok.mp hideal
    obtain ⟨⟨t', calls'', handled'⟩, hideal, hret'⟩ := bind_eq_ok.mp hideal
    obtain ⟨rfl, rfl, hhandled⟩ := Handled.mk.inj (Except.ok.inj (hret'.trans hret.symm))
    obtain ⟨hsame, rfl⟩ := List.cons.inj hhandled
    rw [handle_eq hraw hen] at hfirst
    rw [handle_eq (reported_eq he s s) hen] at hfirst'
    have hcalled := Called.checks _ h hfirst
    apply KeepsChecks.of_checks he _ hfirst hfirst' hsame.symm
    · intro j hij hj hlost
      exact hlost.stops _ hcalled.sized hij (by omega) hcode
    · exact h
    · exact hnum
    · exact fun j e' hj => hin j e' (Nat.le_of_succ_le hj)
    · exact .inr (.inr ⟨e.raw, hraw, fun _ _ => rfl⟩)
    · rintro - hin' rfl
      exact ih hcode hideal hrest hcalled.sized (hnum.trans hcalled.size_le) hin' fun e' he' =>
        hcalled.allocated _ (hallocated e' he')

end Checks

/-! ## Every batch -/

namespace Sized

variable {g : VectorAlloc} {s s' : EventPoller} {c : EpollCall}

theorem init (g : VectorAlloc) (size : ℕ) : Sized (.init g size) := by
  refine ⟨?_, ?_⟩
  · change (((StdVector.empty : StdVector RawEvent).reserve g size).size : ℤ) ≤ size
    rw [reserve_size]
    exact Int.natCast_nonneg size
  · exact Int.ofNat_le.mpr (le_capacity_reserve StdVector.empty g size)

theorem epollWait (h : Sized s) (events : List EpollEvent) : Sized (s.epollWait events) :=
  ⟨h.size_le, h.le_capacity⟩

theorem step (h : Sized s) (hs : EventPollerStep g s c s') : Sized s' := by
  cases hs with
  | call hcall => exact (Called.call h hcall).sized
  | @poll _ _ events calls handled _ _ hpoll =>
    unfold EventPoller.poll at hpoll
    split at hpoll
    · obtain ⟨rfl, -⟩ := Prod.mk.inj (Except.ok.inj hpoll)
      exact h.epollWait events
    · obtain ⟨r, hr, hpoll⟩ := bind_eq_ok.mp hpoll
      obtain ⟨epoll, hretired, hret⟩ := bind_eq_ok.mp hpoll
      obtain ⟨rfl, -⟩ := Prod.mk.inj (Except.ok.inj hret)
      have hsized := (Called.pollEvents _ (h.epollWait events) hr).sized
      obtain ⟨-, -, rfl⟩ := Epoll.processRetired_eq hretired
      exact ⟨hsized.size_le, hsized.le_capacity⟩

end Sized

/-- **When a batch is handled as reported.** After any history of the poller, whatever a batch and
whatever its callbacks do: `Poll` handles at each index the event that the kernel has reported there
if and only if the callbacks, wherever they make `Epoll::Add` resize `ep_events_`, leave what is
still to be read of it. -/
theorem pollEvents_reported_iff {g : VectorAlloc} {size : ℕ} {cs : List EpollCall}
    {s : EventPoller} (hrun : Run (EventPollerStep g) (.init g size) cs s)
    (events : List EpollEvent) (hnum : (events.length : ℤ) ≤ s.epoll.size)
    (hallocated : ∀ e ∈ events, s.epoll.entries e.ptr ≠ none) (calls : List (List PollerCall)) :
    s.HandlesReported g events calls ↔
      EventPoller.KeepsEvents g events.length events 0 (s.epollWait events) calls := by
  have hsized : Sized s := hrun.invariant Sized (fun _ _ _ h hs => h.step hs) (.init g size)
  have hin : (s.epollWait events).Intact events 0 := by
    intro j e _ hj
    apply store_data
    rw [List.getElem?_map, hj]
    rfl
  constructor
  · rintro ⟨r, hcode, hideal⟩
    exact .of_pollEvents events hcode hideal rfl (hsized.epollWait events) hnum hin hallocated
  · intro hkeeps
    exact hkeeps.pollEvents events rfl (hsized.epollWait events) hnum hin hallocated

/-- A vector that has been resized has elements for both events of a batch: the callback of the
first one registers a file descriptor above `size_`, and the second one moves with the vector. -/
theorem pollEvents_reported_resized :
    ∃ s, Run (EventPollerStep .doubling) (.init .doubling 1024)
        [.call (.add 5 50 true), .call (.add 1030 60 true)] s ∧ s.epoll.size < 3000 ∧
      s.HandlesReported .doubling [⟨0, ⟨false, false, true⟩⟩, ⟨1, ⟨false, true, true⟩⟩]
        [[.add 3000 70 true], [.del (some 0)], [.add 9000 80 true]] := by
  obtain ⟨s, hrun, hsize, hnum, hfirst, hsecond, hkeeps⟩ : ∃ s,
      Run (EventPollerStep .doubling) (.init .doubling 1024)
        [.call (.add 5 50 true), .call (.add 1030 60 true)] s ∧ s.epoll.size < 3000 ∧
      2 ≤ s.epoll.size ∧ s.epoll.entries 0 = some ⟨5, 50⟩ ∧ s.epoll.entries 1 = some ⟨1030, 60⟩ ∧
      EventPoller.KeepsEvents .doubling 2
        [⟨0, ⟨false, false, true⟩⟩, ⟨1, ⟨false, true, true⟩⟩] 0
        (s.epollWait [⟨0, ⟨false, false, true⟩⟩, ⟨1, ⟨false, true, true⟩⟩])
        [[.add 3000 70 true], [.del (some 0)], [.add 9000 80 true]] := by
    refine ⟨_, .cons (.call rfl) (.single (.call rfl)), by decide, by decide, rfl, rfl, ?_⟩
    refine ⟨_, rfl, .inr ⟨.inr (by decide), .inl rfl⟩, ?_⟩
    refine ⟨_, rfl, .inl rfl, ?_⟩
    exact ⟨_, rfl, .inr ⟨.inl (by decide), .inl rfl⟩, trivial⟩
  refine ⟨s, hrun, hsize, (pollEvents_reported_iff hrun
    [⟨0, ⟨false, false, true⟩⟩, ⟨1, ⟨false, true, true⟩⟩] hnum ?_ _).mpr hkeeps⟩
  intro e he
  rcases List.mem_pair.mp he with rfl | rfl
  · rw [hfirst]
    exact Option.some_ne_none _
  · rw [hsecond]
    exact Option.some_ne_none _

/-- The callback of the first of two events registers the file descriptor 1025, and the second event
is gone. -/
theorem pollEvents_loses_event :
    ∃ s, Run (EventPollerStep .doubling) (.init .doubling 1024)
      [.call (.add 5 50 true), .call (.add 6 60 true)] s ∧
      s.epoll.entries 0 = some ⟨5, 50⟩ ∧ s.epoll.entries 1 = some ⟨6, 60⟩ ∧
      ¬ s.HandlesReported .doubling [⟨0, ⟨false, true, false⟩⟩, ⟨1, ⟨false, true, false⟩⟩]
        [[.add 1025 70 true]] := by
  refine ⟨_, .cons (.call rfl) (.single (.call rfl)), rfl, rfl, ?_⟩
  rintro ⟨r, hcode, -⟩
  cases hcode

end ServerKit
