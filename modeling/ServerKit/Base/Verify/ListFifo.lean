import ServerKit.Base.Verify.ListOps
import ServerKit.Lib.Fifo

/-!
# A `BufferList` is a byte queue

One list among whatever else the thread does: between two of its operations the rest of memory may
change at will, and `GetObject` answers with any Buffer that is not in the list already. Under every
sequence of `Write`, `Read`, the zero-copy fill of `Recv` and the zero-copy drain of `Send` the list
is the unbounded queue of `ServerKit.Lib.Fifo`.
-/

namespace ServerKit

open Lib

/-- One list and the memory of its thread. -/
structure ListState where
  heap : Heap
  list : BufferList

/-- The Buffers of a list: those met from `head_` along `next_` up to `write_`. -/
inductive InList (h : Heap) (l : BufferList) : BufferPtr → Prop
  | head {p : BufferPtr} : l.head = some p → InList h l p
  | next {p p' : BufferPtr} : InList h l p → l.write ≠ some p → (h p).next = some p' →
      InList h l p'

/-- A pool whose `GetObject` answers as written down in advance. -/
def scriptPool : ObjectPool (List BufferPtr) where
  getObject m :=
    match m.pool with
    | [] => .error .badAlloc
    | p :: ps => .ok (p, { m with pool := ps })
  freeObject m p := { m with heap := Function.update m.heap p (m.heap p).reset }

namespace ListState

/-- A list just constructed, `GetObject` having answered `p`. -/
def start (h : Heap) (p : BufferPtr) : ListState where
  heap := h
  list := { readInx := 0, writeInx := 0, head := some p, read := some p, write := some p,
            writeSize := 0, readSize := 0 }

/-- `start` is what the constructor leaves. -/
example (h : Heap) (p : BufferPtr) :
    BufferList.new scriptPool ⟨h, [p]⟩ = .ok (⟨h, []⟩, (start h p).list) := rfl

/-- The answers of `GetObject` during one operation are not in the list already. -/
def Fresh (s : ListState) (gets : List BufferPtr) : Prop :=
  gets.Nodup ∧ ∀ p ∈ gets, ¬ InList s.heap s.list p

/-- The rest of the thread has left the Buffers of the list alone. -/
def SameList (s : ListState) (h : Heap) : Prop :=
  ∀ p, InList s.heap s.list p → h p = s.heap p

end ListState

/-- The operations on one list. Each starts from a memory `h` in which the rest of the thread has
run, and with the answers `gets` of `GetObject`. -/
inductive ListStep : ListState → FifoEvent UInt8 → ListState → Prop
  | write {s : ListState} {h : Heap} {gets : List BufferPtr} {src : List UInt8} {k : ℕ}
      {m : Memory (List BufferPtr)} {l : BufferList} : s.SameList h → s.Fresh gets →
      BufferList.writeBytes scriptPool ⟨h, gets⟩ s.list src = .ok (k, m, l) →
      ListStep s (.put src k) ⟨m.heap, l⟩
  | fill {s : ListState} {h : Heap} {gets : List BufferPtr} {src : List UInt8}
      {m : Memory (List BufferPtr)} {l : BufferList} : s.SameList h → s.Fresh gets →
      src.length ≤ s.list.writeableSize →
      BufferList.fill scriptPool ⟨h, gets⟩ s.list src = .ok (m, l) →
      ListStep s (.put src src.length) ⟨m.heap, l⟩
  | read {s : ListState} {h : Heap} {gets : List BufferPtr} {n k : ℕ} {bytes : List UInt8}
      {m : Memory (List BufferPtr)} {l : BufferList} : s.SameList h → s.Fresh gets →
      BufferList.readBytes scriptPool ⟨h, gets⟩ s.list n = .ok ((k, bytes), m, l) →
      ListStep s (.take n k bytes) ⟨m.heap, l⟩
  | drain {s : ListState} {h : Heap} {gets : List BufferPtr} {k : ℕ} {bytes : List UInt8}
      {m : Memory (List BufferPtr)} {l : BufferList} : s.SameList h → s.Fresh gets →
      k ≤ s.list.currentBufferReadSize →
      BufferList.drain scriptPool ⟨h, gets⟩ s.list k = .ok (bytes, m, l) →
      ListStep s (.take k k bytes) ⟨m.heap, l⟩

/-! ## The Buffers of a list are its chain -/

section InList

variable {h : Heap} {l : BufferList} {c : List BufferPtr} {q : List UInt8}

theorem Chained.inList_of_mem (hr : Chained h l c q) {p : BufferPtr} (hp : p ∈ c) :
    InList h l p := by
  -- by the position in the chain; only the last position is `write_`'s
  have key : ∀ i, (hi : i < c.length) → InList h l (c)[i] := by
    intro i
    induction i with
    | zero =>
      intro hi
      refine .head ?_
      rw [hr.head, List.head?_eq_getElem?, List.getElem?_eq_getElem hi]
    | succ i ih =>
      intro hi
      refine .next (ih (by omega)) (fun hlast => ?_) (List.isChain_iff_getElem.mp hr.linked i hi)
      rw [hr.write, List.getLast?_eq_getElem?, List.getElem?_eq_getElem (by omega)] at hlast
      have := (List.Nodup.getElem_inj_iff hr.nodup).mp (Option.some.inj hlast)
      omega
  obtain ⟨i, hi, rfl⟩ := List.getElem_of_mem hp
  exact key i hi

theorem Chained.mem_of_inList (hr : Chained h l c q) {p : BufferPtr} (hp : InList h l p) :
    p ∈ c := by
  induction hp with
  | head hhead => exact List.mem_of_head? (hr.head ▸ hhead)
  | @next p p' _ hlast hnext ih =>
    obtain ⟨i, hi, rfl⟩ := List.getElem_of_mem ih
    have hi' : i + 1 < c.length := by
      by_contra hge
      refine hlast ?_
      rw [hr.write, List.getLast?_eq_getElem?, List.getElem?_eq_getElem (by omega)]
      congr 2
      omega
    have hlink := List.isChain_iff_getElem.mp hr.linked i hi'
    rw [hnext] at hlink
    obtain rfl := Option.some.inj hlink
    exact List.getElem_mem hi'

theorem Chained.inList_iff (hr : Chained h l c q) {p : BufferPtr} : InList h l p ↔ p ∈ c :=
  ⟨hr.mem_of_inList, hr.inList_of_mem⟩

end InList

/-! ## The queue -/

/-- The answers still to come are new to the list. -/
def ScriptOwn (gets c : List BufferPtr) : Prop := gets.Nodup ∧ ∀ p ∈ gets, p ∉ c

theorem scriptPool_safe : PoolSafe scriptPool ScriptOwn ∅ where
  disjoint _ _ := Set.notMem_empty _
  getObject := by
    intro ⟨heap, pool⟩ c hown
    obtain ⟨hnd, hdis⟩ := hown
    cases pool with
    | nil => simp [scriptPool]
    | cons p ps =>
      simp only [scriptPool, Outcome.ok_iff]
      refine ⟨hdis p (by simp), fun _ _ => trivial, (List.nodup_cons.mp hnd).2, fun r hr hmem => ?_⟩
      rcases List.mem_append.mp hmem with hc | he
      · exact hdis r (List.mem_cons_of_mem _ hr) hc
      · obtain rfl : r = p := by simpa using he
        exact (List.nodup_cons.mp hnd).1 hr
  freeObject := by
    intro m p c hown hp
    refine ⟨fun r hr => Function.update_of_ne (fun he => hp ?_) _ _, hown.1,
      fun r hr hc => hown.2 r hr (List.mem_cons_of_mem _ hc)⟩
    rw [← he]
    simpa using hr

/-- A fill takes a Buffer only when it fills the last one, and throws only when there is none. -/
theorem fill_scriptPool {m : Memory (List BufferPtr)} {l : BufferList} {src : List UInt8}
    (hpool : m.pool ≠ [] ∨ wordAdd l.writeInx src.length ≠ kBufferSize) :
    BufferList.fill scriptPool m l src ≠ .error .badAlloc ∧
      ∀ r, BufferList.fill scriptPool m l src = .ok r →
        m.pool.length ≤ r.1.pool.length + 1 ∧
        r.2.writeInx = if wordAdd l.writeInx src.length = kBufferSize then 0
          else wordAdd l.writeInx src.length := by
  obtain ⟨heap, pool⟩ := m
  unfold BufferList.fill BufferList.copyToWritePoint BufferList.writeAdvance Memory.copyIn
  cases hwrite : l.write with
  | none =>
    constructor
    · intro h
      cases h
    · intro r h
      cases h
  | some w =>
    simp only [deref, ok_bind]
    by_cases hfit : l.writeInx + src.length ≤ kBufferSize
    · simp only [if_pos hfit, ok_bind]
      by_cases hfull : wordAdd l.writeInx src.length = kBufferSize
      · obtain ⟨p, ps, rfl⟩ := List.exists_cons_of_ne_nil (hpool.resolve_right (not_not.mpr hfull))
        simp only [if_pos hfull, scriptPool, ok_bind]
        constructor
        · intro h
          cases h
        · intro r h
          cases h
          exact ⟨Nat.le_refl _, rfl⟩
      · simp only [if_neg hfull]
        constructor
        · intro h
          cases h
        · intro r h
          cases h
          exact ⟨Nat.le_succ _, rfl⟩
    · simp only [if_neg hfit]
      constructor
      · intro h
        cases h
      · intro r h
        cases h

/-- **One pass of `Recv`**, when `GetObject` has a Buffer to give if it is asked. -/
theorem fill_ok {m : Memory (List BufferPtr)} {l : BufferList} {c : List BufferPtr}
    {q src : List UInt8} (hr : ListRep m.heap l c q) (hown : ScriptOwn m.pool c)
    (hfit : src.length ≤ l.writeableSize) (hpool : m.pool ≠ [] ∨ src.length ≠ l.writeableSize) :
    ∃ m' l' c', BufferList.fill scriptPool m l src = .ok (m', l') ∧
      ListRep m'.heap l' c' (q ++ src) ∧ ScriptOwn m'.pool c' ∧
      m.pool.length ≤ m'.pool.length + 1 ∧
      l'.writeableSize =
        if src.length = l.writeableSize then kBufferSize else l.writeableSize - src.length := by
  have hlt := hr.writeInx_lt
  have hroom := hr.writeableSize_eq
  have hcount : wordAdd l.writeInx src.length = l.writeInx + src.length :=
    wordAdd_eq_of_lt (by unfold kBufferSize at *; omega)
  have hask : wordAdd l.writeInx src.length = kBufferSize ↔ src.length = l.writeableSize := by
    rw [hcount, hroom]
    omega
  obtain ⟨hthrow, hlast⟩ := fill_scriptPool (hpool.imp_right fun hne => mt hask.mp hne)
  have hspec := fill_spec scriptPool_safe hr hown hfit
  cases hrun : BufferList.fill scriptPool m l src with
  | error e =>
    rw [hrun] at hspec hthrow
    exact absurd (congrArg Except.error hspec) hthrow
  | ok r =>
    obtain ⟨⟨c', hr', hown'⟩, -⟩ := hspec.of_eq_ok hrun
    obtain ⟨hlen, hinx⟩ := hlast r hrun
    refine ⟨r.1, r.2, c', rfl, hr', hown', hlen, ?_⟩
    rw [hr'.writeableSize_eq, hinx]
    by_cases hfull : src.length = l.writeableSize
    · rw [if_pos (hask.mpr hfull), if_pos hfull, Nat.sub_zero]
    · rw [if_neg (mt hask.mp hfull), if_neg hfull, hcount, hroom]
      omega

/-- The state represents the queue content `q`. -/
def ListState.Holds (s : ListState) (q : List UInt8) : Prop := ∃ c, ListRep s.heap s.list c q

theorem ListState.start_holds (h : Heap) (p : BufferPtr) : (ListState.start h p).Holds [] :=
  ⟨[p], listRep_new h p⟩

section Holds

variable {s : ListState} {h : Heap} {gets : List BufferPtr} {q : List UInt8}

/-- What the other code of the thread leaves to an operation. -/
theorem ListState.Holds.enter (hs : s.Holds q) (hsame : s.SameList h) (hfresh : s.Fresh gets) :
    ∃ c, ListRep h s.list c q ∧ ScriptOwn gets c := by
  obtain ⟨c, hr⟩ := hs
  exact ⟨c, hr.congr fun p hp => hsame p (hr.inList_of_mem hp), hfresh.1,
    fun p hp hc => hfresh.2 p hp (hr.inList_of_mem hc)⟩

theorem ListState.Holds.write (hs : s.Holds q) (hsame : s.SameList h) (hfresh : s.Fresh gets)
    (src : List UInt8) :
    Outcome (· = Fault.badAlloc)
      (fun r => r.1 = src.length ∧ ListState.Holds ⟨r.2.1.heap, r.2.2⟩ (q ++ src))
      (BufferList.writeBytes scriptPool ⟨h, gets⟩ s.list src) := by
  obtain ⟨c, hr, hown⟩ := hs.enter hsame hfresh
  refine (writeBytes_spec scriptPool_safe (m := ⟨h, gets⟩) hr hown src).mono fun r hl => ?_
  obtain ⟨hk, ⟨c', hr', _⟩, _⟩ := hl
  exact ⟨hk, c', hr'⟩

theorem ListState.Holds.read (hs : s.Holds q) (hsame : s.SameList h) (hfresh : s.Fresh gets)
    (n : ℕ) :
    Outcome (fun _ => False)
      (fun r => r.1 = (min n q.length, q.take n) ∧
        ListState.Holds ⟨r.2.1.heap, r.2.2⟩ (q.drop n))
      (BufferList.readBytes scriptPool ⟨h, gets⟩ s.list n) := by
  obtain ⟨c, hr, hown⟩ := hs.enter hsame hfresh
  refine (readBytes_spec scriptPool_safe (m := ⟨h, gets⟩) hr hown n).mono fun r hl => ?_
  obtain ⟨hk, ⟨c', hr', _⟩, _⟩ := hl
  exact ⟨hk, c', hr'⟩

end Holds

/-- Every operation on the list is the queue's. -/
theorem ListStep.fifo {s s' : ListState} {e : FifoEvent UInt8} {q : List UInt8} (hs : s.Holds q)
    (hstep : ListStep s e s') : ∃ q', FifoStep q e q' ∧ s'.Holds q' := by
  cases hstep with
  | write hsame hfresh hrun =>
    obtain ⟨rfl, hs'⟩ := (hs.write hsame hfresh _).of_eq_ok hrun
    exact ⟨_, .put _ _, hs'⟩
  | @fill h gets src m l hsame hfresh hfit hrun =>
    obtain ⟨c, hr, hown⟩ := hs.enter hsame hfresh
    obtain ⟨⟨c', hr', _⟩, _⟩ :=
      (fill_spec scriptPool_safe (m := ⟨h, gets⟩) hr hown hfit).of_eq_ok hrun
    exact ⟨_, .put _ _, c', hr'⟩
  | read hsame hfresh hrun =>
    obtain ⟨hret, hs'⟩ := (hs.read hsame hfresh _).of_eq_ok hrun
    obtain ⟨rfl, rfl⟩ := Prod.mk.inj hret
    exact ⟨_, .take _ _, hs'⟩
  | @drain h gets k bytes m l hsame hfresh hle hrun =>
    obtain ⟨c, hr, hown⟩ := hs.enter hsame hfresh
    obtain ⟨rfl, ⟨c', hr', _⟩, _⟩ :=
      (drain_spec scriptPool_safe (m := ⟨h, gets⟩) hr hown hle).of_eq_ok hrun
    have hk : k ≤ q.length := hle.trans hr.currentBufferReadSize_le
    refine ⟨q.drop k, ?_, c', hr'⟩
    simpa only [Nat.min_eq_left hk] using FifoStep.take q k

/-- The bytes put and not taken. -/
def unreadOf (es : List (FifoEvent UInt8)) : List UInt8 :=
  (FifoEvent.written es).drop (FifoEvent.taken es).length

theorem ListState.holds_unread {s : ListState} {h₀ : Heap} {p₀ : BufferPtr}
    {es : List (FifoEvent UInt8)} (hrun : Run ListStep (ListState.start h₀ p₀) es s) :
    s.Holds (unreadOf es) := by
  obtain ⟨q, hfifo, hs⟩ := hrun.simulate (R := ListState.Holds)
    (fun _ _ _ _ hR hstep => hstep.fifo hR) [] (ListState.start_holds h₀ p₀)
  have hsplit : FifoEvent.taken es ++ q = FifoEvent.written es := FifoStep.conservation hfifo
  have hq : unreadOf es = q := by
    unfold unreadOf
    rw [← hsplit, List.drop_left]
  rw [hq]
  exact hs

end ServerKit
