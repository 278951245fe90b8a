import ServerKit.Core.Streams
import ServerKit.Base.Verify.ThreadLists

/-!
# The Buffers of all the Sockets of a thread

The Sockets of an event loop keep their bytes in `BufferList`s that share the pool of the thread.
Seen from the lists, a step of the loop is one operation on one list, or makes the two lists of a
new Socket, or is nothing (`TrafficStep`). An operation changes the queue its list represents and no
other (`Holds.leaves`).
-/

namespace ServerKit

open Lib

/-! ## Lists that represent queues -/

/-- Each live list represents its queue. -/
structure Holds (t : Thread) (chain : ℕ → List BufferPtr) (queue : ℕ → List UInt8) : Prop where
  shared : Shared t chain
  rep : ∀ i l, t.lists i = some l → ListRep t.mem.heap l (chain i) (queue i)

namespace Holds

variable {t : Thread} {chain : ℕ → List BufferPtr} {queue : ℕ → List UInt8} {i : ℕ}
  {l : BufferList}

/-- An operation on one list leaves the queues of the others. -/
theorem leaves (h : Holds t chain queue) {m : Memory ObjectList} {q : List UInt8}
    (hl : Leaves (Shares (elsewhere chain i)) (elsewhere chain i) t.mem q m l) :
    ∃ chain', Holds ⟨m, Function.update t.lists i (some l)⟩ chain' (Function.update queue i q) := by
  obtain ⟨⟨c, hr, hshares⟩, hframe⟩ := hl
  have hup := h.shared.update (o := some l) (fun l' hl' => ⟨q, Option.some.inj hl' ▸ hr⟩)
    (by simp) hshares hframe
  refine ⟨Function.update chain i c, hup.1, fun j l' hj => ?_⟩
  by_cases hji : j = i
  · subst hji
    simp only [Function.update_self, Option.some.injEq] at hj ⊢
    subst hj
    exact hr
  · simp only [Function.update_of_ne hji] at hj ⊢
    exact (h.rep j l' hj).congr fun p hp => hframe p ⟨j, hji, hp⟩

/-- The pool serves each list. -/
theorem shares (h : Holds t chain queue) (i : ℕ) :
    Shares (elsewhere chain i) t.mem.pool (chain i) := h.shared.shares i

/-- `BufferList::BufferList`. -/
theorem new (h : Holds t chain queue) (hi : t.lists i = none) {m : Memory ObjectList}
    (hnew : BufferList.new objectPool t.mem = .ok (m, l)) :
    ∃ chain', Holds ⟨m, Function.update t.lists i (some l)⟩ chain'
      (Function.update queue i []) := by
  have hown := h.shares i
  rw [h.shared.dead i hi] at hown
  exact h.leaves ((new_spec (objectPool_safe _) hown).of_eq_ok hnew)

/-- `BufferList::Write`. -/
theorem write (h : Holds t chain queue) (hi : t.lists i = some l) {src : List UInt8} {total : ℕ}
    {m : Memory ObjectList} {l' : BufferList}
    (hwrite : BufferList.writeBytes objectPool t.mem l src = .ok (total, m, l')) :
    ∃ chain', Holds ⟨m, Function.update t.lists i (some l')⟩ chain'
      (Function.update queue i (queue i ++ src)) :=
  h.leaves ((writeBytes_spec (objectPool_safe _) (h.rep i l hi) (h.shares i) src).of_eq_ok
    hwrite).2

/-- `BufferList::Read`, which delivers the first bytes of the queue. -/
theorem read (h : Holds t chain queue) (hi : t.lists i = some l) {n total : ℕ}
    {bytes : List UInt8} {m : Memory ObjectList} {l' : BufferList}
    (hread : BufferList.readBytes objectPool t.mem l n = .ok ((total, bytes), m, l')) :
    bytes = (queue i).take n ∧ ∃ chain', Holds ⟨m, Function.update t.lists i (some l')⟩ chain'
      (Function.update queue i ((queue i).drop n)) := by
  obtain ⟨hret, hl⟩ := (readBytes_spec (objectPool_safe _) (h.rep i l hi) (h.shares i) n).of_eq_ok
    hread
  exact ⟨(Prod.mk.inj hret).2, h.leaves hl⟩

/-- What `Recv` does with the bytes of one `::read`. -/
theorem fill (h : Holds t chain queue) (hi : t.lists i = some l) {src : List UInt8}
    {m : Memory ObjectList} {l' : BufferList} (hfit : src.length ≤ l.writeableSize)
    (hfill : BufferList.fill objectPool t.mem l src = .ok (m, l')) :
    ∃ chain', Holds ⟨m, Function.update t.lists i (some l')⟩ chain'
      (Function.update queue i (queue i ++ src)) :=
  h.leaves ((fill_spec (objectPool_safe _) (h.rep i l hi) (h.shares i) hfit).of_eq_ok hfill)

/-- What `Send` does with the result of one `::write`. -/
theorem drain (h : Holds t chain queue) (hi : t.lists i = some l) {n : ℕ} {bytes : List UInt8}
    {m : Memory ObjectList} {l' : BufferList} (hn : n ≤ l.currentBufferReadSize)
    (hdrain : BufferList.drain objectPool t.mem l n = .ok (bytes, m, l')) :
    bytes = (queue i).take n ∧ ∃ chain', Holds ⟨m, Function.update t.lists i (some l')⟩ chain'
      (Function.update queue i ((queue i).drop n)) := by
  obtain ⟨hbytes, hl⟩ := (drain_spec (objectPool_safe _) (h.rep i l hi) (h.shares i) hn).of_eq_ok
    hdrain
  exact ⟨hbytes, h.leaves hl⟩

end Holds

/-! ## The lists of the Sockets -/

/-- The name of `read_list_` of the Socket `k`. -/
def readIx (k : ℕ) : ℕ := 2 * k

/-- The name of `write_list_` of the Socket `k`. -/
def writeIx (k : ℕ) : ℕ := 2 * k + 1

@[simp] theorem readIx_inj {j k : ℕ} : readIx j = readIx k ↔ j = k := by
  unfold readIx
  omega

@[simp] theorem writeIx_inj {j k : ℕ} : writeIx j = writeIx k ↔ j = k := by
  unfold writeIx
  omega

@[simp] theorem readIx_ne_writeIx (j k : ℕ) : readIx j ≠ writeIx k := by
  unfold readIx writeIx
  omega

@[simp] theorem writeIx_ne_readIx (j k : ℕ) : writeIx j ≠ readIx k :=
  (readIx_ne_writeIx k j).symm

/-- Every name is that of a list of a Socket. -/
theorem readIx_or_writeIx (i : ℕ) : (∃ k, i = readIx k) ∨ ∃ k, i = writeIx k := by
  unfold readIx writeIx
  rcases Nat.mod_two_eq_zero_or_one i with h | h
  · exact .inl ⟨i / 2, by omega⟩
  · exact .inr ⟨i / 2, by omega⟩

namespace EventLoop

variable {w w' : EventLoop ObjectList} {k : SocketPtr} {s s' : Socket} {e : LoopEvent}

/-- The lists of the Sockets, by name. -/
def lists (w : EventLoop ObjectList) (i : ℕ) : Option BufferList :=
  (w.sockets (i / 2)).map fun s => if i % 2 = 0 then s.readList else s.writeList

/-- The thread as far as its lists go. -/
def thread (w : EventLoop ObjectList) : Thread := ⟨w.mem, w.lists⟩

theorem lists_readIx (w : EventLoop ObjectList) (k : ℕ) :
    w.lists (readIx k) = (w.sockets k).map Socket.readList := by
  have hdiv : 2 * k / 2 = k := by omega
  simp [lists, readIx, hdiv]

theorem lists_writeIx (w : EventLoop ObjectList) (k : ℕ) :
    w.lists (writeIx k) = (w.sockets k).map Socket.writeList := by
  have hdiv : (2 * k + 1) / 2 = k := by omega
  have hmod : (2 * k + 1) % 2 = 1 := by omega
  simp [lists, writeIx, hdiv, hmod]

/-- Writing a Socket writes its two lists. -/
theorem lists_setSocket (w : EventLoop ObjectList) (k : SocketPtr) (s : Socket) :
    (w.setSocket k s).lists = Function.update (Function.update w.lists (readIx k)
      (some s.readList)) (writeIx k) (some s.writeList) := by
  funext i
  rcases readIx_or_writeIx i with ⟨j, rfl⟩ | ⟨j, rfl⟩
  · by_cases hj : j = k
    · subst hj
      simp [lists_readIx, setSocket]
    · simp [lists_readIx, setSocket, hj]
  · by_cases hj : j = k
    · subst hj
      simp [lists_writeIx, setSocket]
    · simp [lists_writeIx, setSocket, hj]

/-- Writing a Socket without its lists. -/
theorem lists_setSocket_same (hk : w.sockets k = some s) (hread : s'.readList = s.readList)
    (hwrite : s'.writeList = s.writeList) : (w.setSocket k s').lists = w.lists := by
  rw [lists_setSocket, hread, hwrite]
  have hr : w.lists (readIx k) = some s.readList := by rw [lists_readIx, hk]; rfl
  have hw : w.lists (writeIx k) = some s.writeList := by rw [lists_writeIx, hk]; rfl
  rw [← hr, Function.update_eq_self, ← hw, Function.update_eq_self]

theorem lists_setReadList (hk : w.sockets k = some s) (l : BufferList) :
    (w.setSocket k (s.setReadList l)).lists = Function.update w.lists (readIx k) (some l) := by
  have hw : w.lists (writeIx k) = some s.writeList := by rw [lists_writeIx, hk]; rfl
  have hother : Function.update w.lists (readIx k) (some l) (writeIx k) = some s.writeList := by
    simp [hw]
  rw [lists_setSocket]
  change Function.update (Function.update w.lists (readIx k) (some l)) (writeIx k)
    (some s.writeList) = _
  rw [← hother, Function.update_eq_self]

/-- Writing `write_list_`, with whatever else but `read_list_`. -/
theorem lists_setWriteList (hk : w.sockets k = some s) (hread : s'.readList = s.readList) :
    (w.setSocket k s').lists = Function.update w.lists (writeIx k) (some s'.writeList) := by
  have hr : w.lists (readIx k) = some s.readList := by rw [lists_readIx, hk]; rfl
  rw [lists_setSocket, hread, ← hr, Function.update_eq_self]

end EventLoop

/-! ## The steps, seen from the lists -/

/-- What a step is for the bytes. -/
inductive Traffic
  | quiet
  | made (k : SocketPtr)
  | written (k : SocketPtr) (src : List UInt8)
  | sent (k : SocketPtr) (bytes : List UInt8)
  | received (k : SocketPtr) (src : List UInt8)
  | read (k : SocketPtr) (bytes : List UInt8)

/-- What it adds to the history of the Socket `k`. -/
def Traffic.record (k : SocketPtr) (log : StreamLog) : Traffic → StreamLog
  | quiet | made _ => log
  | written j src => if j = k then log.write src else log
  | sent j bytes => if j = k then log.send bytes else log
  | received j src => if j = k then log.receive src else log
  | read j bytes => if j = k then log.take bytes else log

/-- The operations on the lists of a thread. -/
inductive TrafficStep : Lts Thread Traffic
  | quiet {t : Thread} : TrafficStep t .quiet t
  | made {t : Thread} {k : SocketPtr} {m m' : Memory ObjectList} {r w : BufferList} :
      t.lists (readIx k) = none → t.lists (writeIx k) = none →
      BufferList.new objectPool t.mem = .ok (m, r) → BufferList.new objectPool m = .ok (m', w) →
      TrafficStep t (.made k)
        ⟨m', Function.update (Function.update t.lists (readIx k) (some r)) (writeIx k) (some w)⟩
  | written {t : Thread} {k : SocketPtr} {l l' : BufferList} {src : List UInt8} {total : ℕ}
      {m : Memory ObjectList} : t.lists (writeIx k) = some l →
      BufferList.writeBytes objectPool t.mem l src = .ok (total, m, l') →
      TrafficStep t (.written k src) ⟨m, Function.update t.lists (writeIx k) (some l')⟩
  | sent {t : Thread} {k : SocketPtr} {l l' : BufferList} {n : ℕ} {bytes : List UInt8}
      {m : Memory ObjectList} : t.lists (writeIx k) = some l → n ≤ l.currentBufferReadSize →
      BufferList.drain objectPool t.mem l n = .ok (bytes, m, l') →
      TrafficStep t (.sent k bytes) ⟨m, Function.update t.lists (writeIx k) (some l')⟩
  | received {t : Thread} {k : SocketPtr} {l l' : BufferList} {src : List UInt8}
      {m : Memory ObjectList} : t.lists (readIx k) = some l → src.length ≤ l.writeableSize →
      BufferList.fill objectPool t.mem l src = .ok (m, l') →
      TrafficStep t (.received k src) ⟨m, Function.update t.lists (readIx k) (some l')⟩
  | read {t : Thread} {k : SocketPtr} {l l' : BufferList} {n total : ℕ} {bytes : List UInt8}
      {m : Memory ObjectList} : t.lists (readIx k) = some l →
      BufferList.readBytes objectPool t.mem l n = .ok ((total, bytes), m, l') →
      TrafficStep t (.read k bytes) ⟨m, Function.update t.lists (readIx k) (some l')⟩

end ServerKit
