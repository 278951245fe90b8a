import ServerKit.Lib.Lts
import ServerKit.Base.Verify.QueueRep
import Mathlib.Data.List.Chain
import Mathlib.Data.List.TakeDrop

/-!
# `YQueue` is a deque

A caller pushes elements (and assigns each through `Back()`), and pops and takes back elements while
there are some. The abstract deque is a list; beside it the run keeps a ledger of what `malloc` and
`free` have done at each address, an address that is freed being open to be returned again. In every
state the queue shows the ends of the list, and every allocation that has not been freed is one
chunk of the chain or the spare chunk, so none is freed twice, and none is lost.
-/

namespace ServerKit

open Lib

variable {T : Type} {N : ℕ}

/-! ## The caller -/

/-- What a caller of a `YQueue` does; for `Push` with what `malloc` would return, and the value
assigned to `Back()`. -/
inductive QueueOp (T : Type) where
  | push (p : ChunkPtr) (v : T)
  | pop
  | unPush

/-- The operation on the queue. -/
def QueueOp.exec (q : YQueue T N) : QueueOp T → Option (YQueue T N)
  | .push p v => q.push p >>= (·.setBack v)
  | .pop => q.pop
  | .unPush => q.unPush

/-- The operation on the elements. -/
def QueueOp.apply (items : List T) : QueueOp T → List T
  | .push _ v => items ++ [v]
  | .pop => items.tail
  | .unPush => items.dropLast

/-- How often `malloc` has returned each address, and how often `free` has been called with it. -/
structure Ledger where
  mallocs : ChunkPtr → ℕ
  frees : ChunkPtr → ℕ

/-- The ledger after an operation that took the memory from `mem` to `mem'`. An operation calls
`malloc` with the result `p` when `p` is not allocated before and is after, and `free(p)` in the
opposite case. -/
def Ledger.record (l : Ledger) (mem mem' : ChunkPtr → Option (Chunk T)) : Ledger where
  mallocs p := if (mem p).isNone && (mem' p).isSome then l.mallocs p + 1 else l.mallocs p
  frees p := if (mem p).isSome && (mem' p).isNone then l.frees p + 1 else l.frees p

/-- A queue, the elements it should hold, and the ledger. -/
structure DequeState (T : Type) (N : ℕ) where
  queue : YQueue T N
  items : List T
  ledger : Ledger

namespace DequeState

/-- A new queue, when `malloc` returns `p`. -/
def new (p : ChunkPtr) : DequeState T N where
  queue := YQueue.new p
  items := []
  ledger := { mallocs := fun x => if x = p then 1 else 0, frees := fun _ => 0 }

/-- When the operation may be issued. `malloc` returns only what is not allocated. -/
def Enabled (s : DequeState T N) : QueueOp T → Prop
  | .push p _ => s.queue.mem p = none
  | .pop => s.items ≠ []
  | .unPush => s.items ≠ []

/-- The state after an operation. -/
def step (s : DequeState T N) (op : QueueOp T) : Option (DequeState T N) := do
  let q ← op.exec s.queue
  return { queue := q, items := op.apply s.items, ledger := s.ledger.record s.queue.mem q.mem }

end DequeState

/-- The steps of a queue and its caller. -/
def DequeStep : Lts (DequeState T N) (QueueOp T) :=
  fun s op s' => s.Enabled op ∧ s.step op = some s'

/-! ## The chunks -/

/-- The chunks from the begin chunk along `next` to the end chunk, with the links back. -/
structure YQueue.Chain (q : YQueue T N) (chunks : List ChunkPtr) : Prop where
  beginChunk : q.beginChunk = chunks.head?
  endChunk : q.endChunk = chunks.getLast?
  allocated : ∀ p ∈ chunks, ∃ c, q.mem p = some c
  nodup : chunks.Nodup
  ne_nil : chunks ≠ []
  linked : chunks.IsChain fun a b => q.nextOf a = some b ∧ q.prevOf b = some a

namespace YQueue.Chain

variable {q : YQueue T N} {p p' : ChunkPtr} {rest : List ChunkPtr}

/-- **The loop of the destructor** frees every chunk of the chain, and no other. -/
theorem destroyLoop {chunks : List ChunkPtr} (h : q.Chain chunks) {fuel : ℕ}
    (hfuel : chunks.length ≤ fuel) :
    ∃ q', q.destroyLoop fuel = some q' ∧ q'.spareChunk = q.spareChunk ∧
      (∀ x ∈ chunks, q'.mem x = none) ∧ ∀ x ∉ chunks, q'.mem x = q.mem x := by
  induction chunks generalizing q fuel with
  | nil => exact absurd rfl h.ne_nil
  | cons p rest ih =>
    obtain ⟨fuel, rfl⟩ : ∃ n, fuel = n + 1 := ⟨fuel - 1, by simp at hfuel; omega⟩
    obtain ⟨c, hc⟩ := h.allocated p (by simp)
    have hbegin : q.beginChunk = some p := h.beginChunk
    cases rest with
    | nil =>
      have hend : q.beginChunk = q.endChunk := hbegin.trans h.endChunk.symm
      refine ⟨{ q with mem := Function.update q.mem p none }, ?_, rfl, ?_, ?_⟩
      · rw [YQueue.destroyLoop, if_pos hend, hbegin]
        simp [freeChunk, hc, hbegin]
      · intro x hx
        obtain rfl : x = p := by simpa using hx
        exact Function.update_self ..
      · exact fun x hx => Function.update_of_ne (by simpa using hx) _ _
    | cons p' rest =>
      have hnd := List.nodup_cons.mp h.nodup
      have hlink := List.isChain_cons_cons.mp h.linked
      have hnext : c.next = some p' := by
        have := hlink.1.1
        rwa [nextOf, hc] at this
      have hne : q.beginChunk ≠ q.endChunk := by
        rw [hbegin, h.endChunk, List.getLast?_cons_cons]
        intro heq
        exact hnd.1 (List.mem_of_getLast? heq.symm)
      let q₁ : YQueue T N :=
        { q with mem := Function.update q.mem p none, beginChunk := some p' }
      have hkeep : ∀ x ∈ p' :: rest, q₁.mem x = q.mem x := fun x hx =>
        Function.update_of_ne (fun heq => hnd.1 (by rwa [← heq])) _ _
      have hrest : q₁.Chain (p' :: rest) := by
        refine
          { beginChunk := rfl, endChunk := ?_, allocated := ?_, nodup := hnd.2, ne_nil := by simp,
            linked := ?_ }
        · exact h.endChunk.trans List.getLast?_cons_cons
        · intro x hx
          obtain ⟨cx, hcx⟩ := h.allocated x (List.mem_cons_of_mem _ hx)
          exact ⟨cx, (hkeep x hx).trans hcx⟩
        · refine hlink.2.imp_of_mem_imp fun a b ha hb hab => ?_
          rw [nextOf, prevOf, hkeep a ha, hkeep b hb]
          exact hab
      have hlen : (p' :: rest).length ≤ fuel := by simpa using hfuel
      obtain ⟨q', hrun, hspare, hfreed, hother⟩ := ih hrest hlen
      refine ⟨q', ?_, hspare, ?_, ?_⟩
      · rw [YQueue.destroyLoop, if_neg hne, hbegin]
        simp only [deref, freeChunk, hc, hnext, Option.bind_some, Option.bind_eq_bind,
          Option.isSome_some, if_true]
        exact hrun
      · intro x hx
        by_cases hxr : x ∈ p' :: rest
        · exact hfreed x hxr
        · obtain rfl : x = p := (List.mem_cons.mp hx).resolve_right hxr
          exact (hother x hxr).trans (Function.update_self ..)
      · intro x hx
        obtain ⟨hxp, hxr⟩ := not_or.mp (fun h => hx (List.mem_cons.mpr h))
        exact (hother x hxr).trans (Function.update_of_ne hxp _ _)

/-- **The destructor** frees every chunk that is left. -/
theorem destroy {chunks : List ChunkPtr} (h : q.Chain chunks)
    (hspare : ∀ s, q.spareChunk = some s → s ∉ chunks ∧ ∃ c, q.mem s = some c)
    (howned : ∀ p, q.mem p ≠ none → p ∈ chunks ∨ q.spareChunk = some p) {fuel : ℕ}
    (hfuel : chunks.length ≤ fuel) : ∃ q', q.destroy fuel = some q' ∧ ∀ p, q'.mem p = none := by
  obtain ⟨q₁, hrun, hspare₁, hfreed, hother⟩ := h.destroyLoop hfuel
  have hgone : ∀ x, q.spareChunk ≠ some x → q₁.mem x = none := by
    intro x hx
    by_cases hxc : x ∈ chunks
    · exact hfreed x hxc
    · rw [hother x hxc]
      by_contra hlive
      rcases howned x hlive with hxc' | hxs
      · exact hxc hxc'
      · exact hx hxs
  cases hs : q.spareChunk with
  | none =>
    refine ⟨{ q₁ with spareChunk := none }, ?_, fun p => hgone p (by rw [hs]; simp)⟩
    simp [YQueue.destroy, hrun, xchgSpare, hspare₁, hs, freeChunk]
  | some s =>
    obtain ⟨hmem, c, hc⟩ := hspare s hs
    have hc₁ : q₁.mem s = some c := (hother s hmem).trans hc
    refine ⟨{ q₁ with spareChunk := none, mem := Function.update q₁.mem s none }, ?_, fun p => ?_⟩
    · simp [YQueue.destroy, hrun, xchgSpare, hspare₁, hs, freeChunk, hc₁]
    · by_cases hp : p = s
      · rw [hp]; exact Function.update_self ..
      · exact (Function.update_of_ne hp _ _).trans
          (hgone p fun heq => hp (Option.some.inj (heq.symm.trans hs)))

end YQueue.Chain

/-! ## The invariant -/

/-- The queue has the layout `L`; `all` are the elements pushed and not taken back, and the deque
starts at the number `first`. -/
structure DequeRep (q : YQueue T N) (L : Layout) (first : ℕ) (all : List T) : Prop where
  chain : ChunkChain q L first all.length all
  back : ∀ {last}, first ≤ last → all.length = last + 1 → q.backAddr = L.slot N last
  owned : q.Owned L

namespace DequeRep

variable {q : YQueue T N} {L : Layout} {first last : ℕ} {all : List T} {v : T}

/-- While there are elements, the queue represents them from the front to the back. -/
theorem queueRep (h : DequeRep q L first all) (hle : first ≤ last)
    (hlen : all.length = last + 1) : QueueRep q L first last all := by
  refine .of_chain ?_ hle (h.back hle hlen)
  rw [← hlen]
  exact h.chain

theorem new (hN : 0 < N) (p : ChunkPtr) :
    DequeRep (YQueue.new p : YQueue T N) ⟨[p], 0⟩ 0 [] where
  chain :=
    { nodup := by simp, length_pos := by simp
      allocated := fun x hx => by
        obtain rfl : x = p := by simpa using hx
        exact ⟨_, Function.update_self ..⟩
      linked := fun {m a b} ha hb => by simp at hb
      spare := nofun, beginChunk := rfl, beginPos := rfl, beginPos_lt := hN, endChunk := rfl
      endPos := rfl, endPos_lt := hN, le := le_rfl, length_le := le_rfl, values := nofun }
  back := nofun
  owned := fun x hx => by
    by_cases hxp : x = p
    · exact Or.inl (by simp [hxp])
    · exact absurd (Function.update_of_ne hxp _ _) hx

/-- `Push()`, with the value assigned to `Back()`. -/
theorem push (h : DequeRep q L first all) {p : ChunkPtr} (hp : q.mem p = none) :
    ∃ q' L', QueueOp.exec q (.push p v) = some q' ∧ DequeRep q' L' first (all ++ [v]) := by
  obtain ⟨q₁, L₁, hrun₁, hchain₁, hback₁, -, howned₁⟩ := h.chain.push_spec hp
  have hrep₁ : QueueRep q₁ L₁ first all.length all := .of_chain hchain₁ h.chain.le hback₁
  obtain ⟨q₂, hrun₂, hrep₂, hfresh⟩ := hrep₁.setBack_spec rfl v
  have hlen : (all ++ [v]).length = all.length + 1 := by simp
  have hspare : q₂.spareChunk = q₁.spareChunk := QueueRep.setBack_spareChunk hrun₂
  refine ⟨q₂, L₁, ?_, ?_, ?_, ?_⟩
  · rw [QueueOp.exec, hrun₁]
    exact hrun₂
  · rw [hlen]
    exact hrep₂.chain
  · intro last hle hlast
    obtain rfl : all.length = last := by omega
    exact hrep₂.back
  · intro x hx
    rw [hspare]
    exact howned₁ h.owned fun h₀ => hx (hfresh x h₀)

/-- `Pop()`. -/
theorem pop (h : DequeRep q L first all) (hlt : first < all.length) :
    ∃ q' L', QueueOp.exec q .pop = some q' ∧ DequeRep q' L' (first + 1) all := by
  obtain ⟨q', L', hrun, hchain, hback, hslot, howned⟩ := h.chain.pop_spec hlt
  refine ⟨q', L', hrun, hchain, fun hle hlen => ?_, howned h.owned⟩
  rw [hback, h.back (Nat.le_of_succ_le hle) hlen, hslot _ hle]

/-- `UnPush()`. -/
theorem unPush (h : DequeRep q L first all) (hlt : first < all.length) :
    ∃ q' L', QueueOp.exec q .unPush = some q' ∧ DequeRep q' L' first all.dropLast := by
  obtain ⟨last, hlen⟩ : ∃ last, all.length = last + 1 := ⟨all.length - 1, by omega⟩
  have hle : first ≤ last := by omega
  have hinit : all.dropLast.length = last := by simp [hlen]
  have hchain : ChunkChain q L first (last + 1) all.dropLast := by
    rw [List.dropLast_eq_take, ← hlen]
    exact h.chain.take _
  obtain ⟨q₁, hrun₁, hq₁, hback₁⟩ := (h.queueRep hle hlen).unPushBack_run
  have hchain₁ : ChunkChain q₁ L first (last + 1) all.dropLast := by
    rw [hq₁]
    exact { hchain with }
  obtain ⟨q', L', hrun₂, hchain₂, hback, hslot, howned⟩ :=
    hchain₁.unPushEnd_spec hle hinit.le
  refine ⟨q', L', ?_, ?_, ?_, ?_⟩
  · rw [QueueOp.exec, YQueue.unPush, hrun₁]
    exact hrun₂
  · rwa [hinit]
  · intro last' hle' hlast'
    obtain rfl : last = last' + 1 := by omega
    rw [hback, hback₁ hle' rfl, hslot last' hle' (Nat.le_succ _)]
  · refine howned fun x hx => ?_
    rw [hq₁] at hx ⊢
    exact h.owned hx

end DequeRep

/-- The chunks of a layout are the chain of the queue. -/
theorem ChunkChain.toChain {q : YQueue T N} {L : Layout} {first stop : ℕ} {items : List T}
    (h : ChunkChain q L first stop items) : q.Chain L.chunks where
  beginChunk := h.beginChunk.trans List.head?_eq_getElem?.symm
  endChunk := h.endChunk.trans List.getLast?_eq_getElem?.symm
  allocated := h.allocated
  nodup := h.nodup
  ne_nil := List.ne_nil_of_length_pos h.length_pos
  linked := List.isChain_iff_getElem.mpr fun i hi =>
    h.linked (List.getElem?_eq_getElem (by omega)) (List.getElem?_eq_getElem hi)

/-- Each address has been returned by `malloc` as often as it has been freed, and once more while
it is allocated. -/
def Ledger.Balanced (l : Ledger) (mem : ChunkPtr → Option (Chunk T)) : Prop :=
  ∀ p, l.mallocs p = l.frees p + if (mem p).isSome then 1 else 0

theorem Ledger.Balanced.record {l : Ledger} {mem mem' : ChunkPtr → Option (Chunk T)}
    (h : l.Balanced mem) : (l.record mem mem').Balanced mem' := by
  intro p
  have := h p
  rw [Ledger.record]
  cases hm : mem p <;> cases hm' : mem' p <;> simp_all

namespace DequeState

/-- The queue holds the elements, and the ledger is balanced. -/
def Ok (s : DequeState T N) : Prop :=
  (∃ L first all, s.items = all.drop first ∧ DequeRep s.queue L first all) ∧
    s.ledger.Balanced s.queue.mem

variable {s s' : DequeState T N} {op : QueueOp T}

theorem new_ok (hN : 0 < N) (p : ChunkPtr) : (new p : DequeState T N).Ok := by
  refine ⟨⟨_, 0, [], rfl, DequeRep.new hN p⟩, fun x => ?_⟩
  by_cases hx : x = p
  · subst hx
    simp [new, YQueue.new, YQueue.allocateChunk]
  · simp [new, YQueue.new, YQueue.allocateChunk, hx]

/-- An operation that may be issued runs, and the queue holds the elements behind it. -/
theorem exec_of_enabled (h : s.Ok) (hen : s.Enabled op) :
    ∃ q', op.exec s.queue = some q' ∧
      ∃ L first all, op.apply s.items = all.drop first ∧ DequeRep q' L first all := by
  obtain ⟨⟨L, first, all, hitems, hrep⟩, -⟩ := h
  have hlt : s.items ≠ [] → first < all.length := by
    intro hne
    by_contra hge
    exact hne (hitems.trans (List.drop_eq_nil_of_le (Nat.le_of_not_lt hge)))
  cases op with
  | push p v =>
    obtain ⟨q', L', hrun, hrep'⟩ := hrep.push (v := v) hen
    refine ⟨q', hrun, L', first, all ++ [v], ?_, hrep'⟩
    rw [QueueOp.apply, hitems, List.drop_append_of_le_length hrep.chain.le]
  | pop =>
    obtain ⟨q', L', hrun, hrep'⟩ := hrep.pop (hlt hen)
    refine ⟨q', hrun, L', first + 1, all, ?_, hrep'⟩
    rw [QueueOp.apply, hitems, List.tail_drop]
  | unPush =>
    obtain ⟨q', L', hrun, hrep'⟩ := hrep.unPush (hlt hen)
    refine ⟨q', hrun, L', first, all.dropLast, ?_, hrep'⟩
    rw [QueueOp.apply, hitems, List.dropLast_drop_eq_drop_dropLast]

theorem ok_of_step (h : s.Ok) (hstep : DequeStep s op s') : s'.Ok := by
  obtain ⟨q', hrun, hrep⟩ := exec_of_enabled h hstep.1
  have heq := hstep.2
  rw [step, hrun] at heq
  obtain rfl := Option.some.inj heq
  exact ⟨hrep, h.2.record⟩

/-- The ends of the queue are the ends of the list. -/
theorem front_back (h : s.Ok) (hne : s.items ≠ []) :
    s.queue.front = s.items.head? ∧ s.queue.back = s.items.getLast? := by
  obtain ⟨⟨L, first, all, hitems, hrep⟩, -⟩ := h
  have hlt : first < all.length := by
    by_contra hge
    exact hne (hitems.trans (List.drop_eq_nil_of_le (Nat.le_of_not_lt hge)))
  obtain ⟨last, hlen⟩ : ∃ last, all.length = last + 1 := ⟨all.length - 1, by omega⟩
  have hq := hrep.queueRep (by omega) hlen
  rw [hitems]
  constructor
  · rw [List.head?_drop, List.getElem?_eq_getElem hlt]
    exact hq.front_eq (List.getElem?_eq_getElem hlt)
  · have hlast : last < all.length := by omega
    rw [List.getLast?_drop, if_neg (by omega), List.getLast?_eq_getElem?, hlen,
      Nat.add_sub_cancel, List.getElem?_eq_getElem hlast]
    exact hq.back_value_eq (List.getElem?_eq_getElem hlast)

end DequeState

/-- **A `YQueue` is a deque over recycled chunks.** Whatever sequence of operations a caller issues
on a new queue, popping and taking back only while it holds an element: the next operation never
fails; `Front()` and `Back()` are the ends of the sequence; the chunks form a chain linked both
ways; the allocations not freed are, one for one, the chunks of the chain and the spare chunk; and
the destructor frees each of them, once. -/
theorem yqueue_deque {p₀ : ChunkPtr} {ops : List (QueueOp T)} {s : DequeState T N} (hN : 0 < N)
    (h : Run DequeStep (DequeState.new p₀) ops s) :
    (∀ op, s.Enabled op → ∃ s', DequeStep s op s') ∧
    (s.items ≠ [] → s.queue.front = s.items.head? ∧ s.queue.back = s.items.getLast?) ∧
    ∃ chunks, s.queue.Chain chunks ∧ (chunks ++ s.queue.spareChunk.toList).Nodup ∧
      (∀ p, s.ledger.mallocs p =
        s.ledger.frees p + (chunks ++ s.queue.spareChunk.toList).count p) ∧
      ∃ fuel₀, ∀ fuel, fuel₀ ≤ fuel → ∃ q', s.queue.destroy fuel = some q' ∧
        ∀ p, (s.ledger.record s.queue.mem q'.mem).mallocs p = s.ledger.mallocs p ∧
          (s.ledger.record s.queue.mem q'.mem).frees p = s.ledger.mallocs p := by
  have hok : s.Ok :=
    h.invariant DequeState.Ok (fun _ _ _ hs hstep => DequeState.ok_of_step hs hstep)
      (DequeState.new_ok hN p₀)
  refine ⟨fun op hen => ?_, DequeState.front_back hok, ?_⟩
  · obtain ⟨q', hrun, -⟩ := DequeState.exec_of_enabled hok hen
    exact ⟨_, hen, by rw [DequeState.step, hrun]; rfl⟩
  · obtain ⟨⟨L, first, all, -, hrep⟩, hbal⟩ := hok
    have hchain := hrep.chain.toChain
    have hspare : ∀ x, s.queue.spareChunk = some x → x ∉ L.chunks ∧ ∃ c, s.queue.mem x = some c :=
      fun _ => hrep.chain.spare
    have hnd : (L.chunks ++ s.queue.spareChunk.toList).Nodup := by
      refine List.nodup_append.mpr ⟨hchain.nodup, by cases s.queue.spareChunk <;> simp, ?_⟩
      rintro a ha b hb rfl
      exact (hspare a (Option.mem_toList.mp hb)).1 ha
    have hlive : ∀ p, (s.queue.mem p).isSome ↔ p ∈ L.chunks ++ s.queue.spareChunk.toList := by
      intro p
      rw [List.mem_append, Option.mem_toList]
      refine ⟨fun hp => hrep.owned (Option.isSome_iff_ne_none.mp hp), ?_⟩
      rintro (hp | hp)
      · obtain ⟨c, hc⟩ := hchain.allocated p hp
        rw [hc]; rfl
      · obtain ⟨-, c, hc⟩ := hspare p hp
        rw [hc]; rfl
    refine ⟨L.chunks, hchain, hnd, fun p => ?_, L.chunks.length, fun fuel hfuel => ?_⟩
    · rw [hbal p, hnd.count]
      simp only [hlive]
    · obtain ⟨q', hrun, hgone⟩ := hchain.destroy hspare (fun p hp => hrep.owned hp) hfuel
      refine ⟨q', hrun, fun p => ?_⟩
      have hbal' : (s.ledger.record s.queue.mem q'.mem).Balanced q'.mem := hbal.record
      have hp := hbal' p
      simp only [hgone p, Option.isSome_none, Bool.false_eq_true, if_false, Nat.add_zero] at hp
      have hm : (s.ledger.record s.queue.mem q'.mem).mallocs p = s.ledger.mallocs p := by
        simp [Ledger.record, hgone p]
      exact ⟨hm, hp.symm.trans hm⟩

/-- With chunks of one element: a chunk that was read out is linked in again, and freed by
`UnPush()`. -/
theorem yqueue_deque_one :
    ∃ s : DequeState ℕ 1,
      Run DequeStep (DequeState.new 0) [.push 1 7, .push 2 8, .pop, .push 3 9, .unPush] s ∧
        s.items = [8] ∧ s.queue.front = some 8 ∧ s.queue.back = some 8 := by
  have hrun : ∃ s : DequeState ℕ 1,
      Run DequeStep (DequeState.new 0) [.push 1 7, .push 2 8, .pop, .push 3 9, .unPush] s ∧
        s.items = [8] :=
    ⟨_, .cons ⟨rfl, rfl⟩ (.cons ⟨rfl, rfl⟩ (.cons ⟨List.cons_ne_nil _ _, rfl⟩
      (.cons ⟨rfl, rfl⟩ (.cons ⟨List.cons_ne_nil _ _, rfl⟩ (.nil _))))), rfl⟩
  obtain ⟨s, hrun, hitems⟩ := hrun
  obtain ⟨-, hends, -⟩ := yqueue_deque Nat.one_pos hrun
  have hval := hends (by rw [hitems]; exact List.cons_ne_nil _ _)
  rw [hitems] at hval
  exact ⟨s, hrun, hitems, hval.1, hval.2⟩

end ServerKit
