import ServerKit.Base.Net
import ServerKit.Base.Verify.ListFifo

/-!
# The ranges `Send` hands to `::write`

`Send` points `::write` into one Buffer, at `ReadPoint()`, and asks for all the unread bytes of the
list. That is a range of unread bytes exactly as long as these all lie in that Buffer.
-/

namespace ServerKit

open Lib

variable {σ : Type} {P : ObjectPool σ} {Own : σ → List BufferPtr → Prop} {ctx : Set BufferPtr}
  {m : Memory σ} {l : BufferList} {c : List BufferPtr} {q : List UInt8}

/-! ## One result of `::write` -/

/-- The unread bytes lie in one Buffer. -/
theorem ListRep.contiguous_iff {h : Heap} (hr : ListRep h l c q) :
    q.length ≤ l.currentBufferReadSize ↔ l.readInx + q.length ≤ kBufferSize := by
  have hext := hr.extent
  have hw := hr.writeInx_lt
  have hrd := hr.readInx_lt
  rw [hr.currentBufferReadSize_eq]
  split
  · rename_i hone
    rw [hone] at hext
    omega
  · omega

theorem drain_readInx {n : ℕ} {r : List UInt8 × Memory σ × BufferList}
    (h : BufferList.drain P m l n = .ok r) :
    r.2.2.readInx = if wordAdd l.readInx n = kBufferSize then 0 else wordAdd l.readInx n := by
  unfold BufferList.drain BufferList.readAdvance at h
  cases hcopy : BufferList.copyFromReadPoint m l n with
  | error e =>
    rw [hcopy] at h
    cases h
  | ok bytes =>
    rw [hcopy] at h
    by_cases hend : wordAdd l.readInx n = kBufferSize
    · cases hread : l.read with
      | none =>
        simp only [ok_bind, hend, hread, deref] at h
        cases h
      | some p =>
        simp only [ok_bind, hend, hread, deref] at h
        cases h
        rw [if_pos hend]
    · simp only [ok_bind, hend] at h
      cases h
      rw [if_neg hend]

/-- Bytes drained from one Buffer leave bytes that lie in one Buffer. -/
theorem drain_contiguous (hP : PoolSafe P Own ctx) (hr : ListRep m.heap l c q)
    (hown : Own m.pool c) (hone : q.length ≤ l.currentBufferReadSize) {n : ℕ} (hn : n ≤ q.length) :
    ∃ m' l' c', BufferList.drain P m l n = .ok (q.take n, m', l') ∧
      ListRep m'.heap l' c' (q.drop n) ∧ Own m'.pool c' ∧
      (q.drop n).length ≤ l'.currentBufferReadSize := by
  obtain ⟨⟨bytes, m', l'⟩, hrun, hbytes, ⟨c', hr', hown'⟩, -⟩ :=
    (drain_spec hP hr hown (hn.trans hone)).exists_ok
  obtain rfl : bytes = q.take n := hbytes
  refine ⟨m', l', c', hrun, hr', hown', ?_⟩
  have hinx := drain_readInx hrun
  have hfit := hr.contiguous_iff.mp hone
  have hcount : wordAdd l.readInx n = l.readInx + n :=
    wordAdd_eq_of_lt (by unfold kBufferSize at *; omega)
  rw [hr'.contiguous_iff, List.length_drop]
  change l'.readInx + _ ≤ _
  rw [hinx, hcount]
  split <;> omega

/-! ## The loop -/

/-- Results `::write` may give when `n` bytes are unread: each short count is at least one and at
most what is asked for, and there are results until `Send` returns. -/
def LegalWrites : ℕ → List WriteResult → Prop
  | 0, _ => True
  | _ + 1, [] => False
  | n + 1, .bytes k :: results => 1 ≤ k ∧ k ≤ n + 1 ∧ LegalWrites (n + 1 - k) results
  | n + 1, .error errno :: results => errno = eINTR → LegalWrites (n + 1) results
  | _ + 1, .zero _ :: _ => False

theorem sendLoop_of_empty (h : l.readableSize = 0) (ret : ℤ) (results : List WriteResult) :
    sendLoop P m l ret results = .ok ⟨ret, kOK, [], [], m, l⟩ := by
  cases results with
  | nil => exact if_pos h
  | cons r results => exact if_pos h

section Equations

variable {p : BufferPtr} {ret : ℤ} {results : List WriteResult}

theorem sendLoop_bytes (hne : l.readableSize ≠ 0) (hread : l.read = some p) (n : ℕ) :
    sendLoop P m l ret (.bytes n :: results) = (do
      let (bytes, m', l') ← BufferList.drain P m l n
      let sent ← sendLoop P m' l' (ret + n) results
      return sent.after (writeCall m l ret p) bytes) := by
  rw [sendLoop, if_neg hne, hread]
  rfl

theorem sendLoop_intr (hne : l.readableSize ≠ 0) (hread : l.read = some p) :
    sendLoop P m l ret (.error eINTR :: results) = (do
      let sent ← sendLoop P m l ret results
      return sent.after (writeCall m l ret p) []) := by
  rw [sendLoop, if_neg hne, hread]
  rfl

/-- `Send` goes on behind bytes written and behind `EINTR`. -/
theorem WriteResult.goes_on (r : WriteResult) :
    (∃ n, r = .bytes n) ∨ r = .error eINTR ∨ (∀ n, r ≠ .bytes n) ∧ r ≠ .error eINTR := by
  by_cases hintr : r = .error eINTR
  · exact .inr (.inl hintr)
  · by_cases hbytes : ∃ n, r = .bytes n
    · exact .inl hbytes
    · exact .inr (.inr ⟨not_exists.mp hbytes, hintr⟩)

variable (ret results) in
/-- `Send` returns behind any other result. -/
theorem sendLoop_failed (hne : l.readableSize ≠ 0) (hread : l.read = some p) {r : WriteResult}
    (hbytes : ∀ n, r ≠ .bytes n) (hintr : r ≠ .error eINTR) :
    ∃ ret' err, sendLoop P m l ret (r :: results) =
      .ok (.failed ret' err (writeCall m l ret p) m l) := by
  rw [sendLoop, if_neg hne, hread]
  cases r with
  | bytes n => exact absurd rfl (hbytes n)
  | zero errno => exact ⟨kError, errno, rfl⟩
  | error errno =>
    have herr : errno ≠ eINTR := fun h => hintr (h ▸ rfl)
    by_cases hagain : isIOTryAgain errno
    · exact ⟨ret, errno, by simp [deref, herr, hagain, pure, Except.pure]⟩
    · exact ⟨kError, errno, by simp [deref, herr, hagain, pure, Except.pure]⟩

end Equations

/-- What `Send` does, having sent `done`, when the bytes `q` are unread and lie in one Buffer. -/
theorem sendLoop_spec (hP : PoolSafe P Own ctx) (results : List WriteResult) :
    ∀ {m : Memory σ} {l : BufferList} {c : List BufferPtr} {q : List UInt8} (done : List UInt8),
      ListRep m.heap l c q → Own m.pool c → q.length ≤ l.currentBufferReadSize →
      LegalWrites q.length results →
      ∃ sent rest c', sendLoop P m l done.length results = .ok sent ∧
        (∀ call ∈ sent.calls, call.bytes = .ok ((done ++ q).drop call.ret.toNat)) ∧
        sent.accepted ++ rest = q ∧ ListRep sent.mem.heap sent.list c' rest := by
  induction results with
  | nil =>
    intro m l c q done hr _ _ hlegal
    cases q with
    | nil =>
      have hempty : l.readableSize = 0 := hr.readableSize_eq
      exact ⟨_, [], c, sendLoop_of_empty hempty _ _, fun _ h => (nomatch h), rfl, hr⟩
    | cons b q => exact hlegal.elim
  | cons r results ih =>
    intro m l c q done hr hown hone hlegal
    cases hq : q with
    | nil =>
      subst hq
      have hempty : l.readableSize = 0 := hr.readableSize_eq
      exact ⟨_, [], c, sendLoop_of_empty hempty _ _, fun _ h => (nomatch h), rfl, hr⟩
    | cons b tail =>
      rw [← hq]
      have hsize : l.readableSize = q.length := hr.readableSize_eq
      have hpos : q.length = tail.length + 1 := by rw [hq]; rfl
      have hne : l.readableSize ≠ 0 := by omega
      rw [hpos] at hlegal
      -- the call hands over all the unread bytes
      have hcopy := copyFromReadPoint_eq hr hone
      rw [List.take_length] at hcopy
      obtain ⟨p, hread⟩ : ∃ p, l.read = some p := by
        cases hl : l.read with
        | none => simp [BufferList.copyFromReadPoint, hl, deref, bind, Except.bind] at hcopy
        | some p => exact ⟨p, rfl⟩
      have hview : m.copyOut p l.readInx q.length = .ok q := by
        simpa [BufferList.copyFromReadPoint, hread, deref] using hcopy
      have hcall : (writeCall m l done.length p).bytes =
          .ok ((done ++ q).drop (done.length : ℤ).toNat) := by
        rw [Int.toNat_natCast, List.drop_left]
        change m.copyOut p l.readInx l.readableSize = _
        rw [hsize]
        exact hview
      obtain ⟨n, rfl⟩ | rfl | ⟨hbytes, hintr⟩ := r.goes_on
      · obtain ⟨hn, hle, hlegal⟩ := hlegal
        rw [← hpos] at hle hlegal
        obtain ⟨m', l', c', hdrain, hr', hown', hone'⟩ := drain_contiguous hP hr hown hone hle
        obtain ⟨sent, rest, c'', hrun, hcalls, hsplit, hr''⟩ :=
          ih (done ++ q.take n) hr' hown' hone' (by rw [List.length_drop]; exact hlegal)
        have hret : ((done ++ q.take n).length : ℤ) = done.length + n := by
          rw [List.length_append, List.length_take, Nat.min_eq_left hle, Int.natCast_add]
        rw [hret] at hrun
        rw [List.append_assoc, List.take_append_drop] at hcalls
        refine ⟨sent.after (writeCall m l done.length p) (q.take n), rest, c'', ?_, ?_, ?_, hr''⟩
        · rw [sendLoop_bytes hne hread, hdrain]
          simp only [ok_bind, hrun]
          rfl
        · intro call hmem
          obtain rfl | hmem := List.mem_cons.mp hmem
          · exact hcall
          · exact hcalls call hmem
        · change q.take n ++ sent.accepted ++ rest = q
          rw [List.append_assoc, hsplit, List.take_append_drop]
      · have hlegal := hlegal rfl
        rw [← hpos] at hlegal
        obtain ⟨sent, rest, c', hrun, hcalls, hsplit, hr'⟩ := ih done hr hown hone hlegal
        refine ⟨sent.after (writeCall m l done.length p) [], rest, c', ?_, ?_, hsplit, hr'⟩
        · rw [sendLoop_intr hne hread, hrun]
          rfl
        · intro call hmem
          obtain rfl | hmem := List.mem_cons.mp hmem
          · exact hcall
          · exact hcalls call hmem
      · obtain ⟨ret', err, hrun⟩ := sendLoop_failed (P := P) (m := m) done.length results
          hne hread hbytes hintr
        refine ⟨_, q, c, hrun, ?_, rfl, hr⟩
        intro call hmem
        obtain rfl := List.mem_singleton.mp hmem
        exact hcall

/-! ## `Send` -/

/-- `Send` hands `::write` only ranges that lie in the current Buffer and hold the bytes unread
then; the kernel has got the first of the unread bytes, and the others are still in the list. -/
def SendsUnread (P : ObjectPool σ) (m : Memory σ) (l : BufferList) (unread : List UInt8)
    (results : List WriteResult) : Prop :=
  ∃ sent rest, send P m l results = .ok sent ∧
    (∀ call ∈ sent.calls, call.bytes = .ok (unread.drop call.ret.toNat)) ∧
    sent.accepted ++ rest = unread ∧ ListState.Holds ⟨sent.mem.heap, sent.list⟩ rest ∧
    sent.list.readInx < kBufferSize ∧
    sent.list.readableSize = l.readableSize - sent.accepted.length

/-- The first call of `Send` is among its calls. -/
theorem writeCall_mem {p : BufferPtr} {ret : ℤ} {r : WriteResult} {results : List WriteResult}
    {sent : Sent σ} (hne : l.readableSize ≠ 0) (hread : l.read = some p)
    (hrun : sendLoop P m l ret (r :: results) = .ok sent) :
    writeCall m l ret p ∈ sent.calls := by
  obtain ⟨n, rfl⟩ | rfl | ⟨hbytes, hintr⟩ := r.goes_on
  · rw [sendLoop_bytes hne hread] at hrun
    cases hdrain : BufferList.drain P m l n with
    | error e =>
      rw [hdrain] at hrun
      cases hrun
    | ok d =>
      simp only [hdrain, ok_bind] at hrun
      cases hloop : sendLoop P d.2.1 d.2.2 (ret + n) results with
      | error e =>
        rw [hloop] at hrun
        cases hrun
      | ok sent' =>
        rw [hloop] at hrun
        obtain rfl := Except.ok.inj hrun
        exact List.mem_cons_self
  · rw [sendLoop_intr hne hread] at hrun
    cases hloop : sendLoop P m l ret results with
    | error e =>
      rw [hloop] at hrun
      cases hrun
    | ok sent' =>
      rw [hloop] at hrun
      obtain rfl := Except.ok.inj hrun
      exact List.mem_cons_self
  · obtain ⟨ret', err, hfailed⟩ := sendLoop_failed (P := P) (m := m) ret results hne
      hread hbytes hintr
    obtain rfl := Except.ok.inj (hfailed.symm.trans hrun)
    exact List.mem_singleton_self _

/-- If `Send` keeps to the current Buffer, all the unread bytes lie in it: the first call alone
tells. -/
theorem SendsUnread.contiguous (hr : ListRep m.heap l c q) {results : List WriteResult}
    (hs : SendsUnread P m l q results) (hlegal : LegalWrites q.length results) :
    q.length ≤ l.currentBufferReadSize := by
  obtain ⟨sent, rest, hrun, hcalls, -⟩ := hs
  have hsize : l.readableSize = q.length := hr.readableSize_eq
  have hrd := hr.readInx_lt
  rw [hr.contiguous_iff]
  cases q with
  | nil => exact hrd.le
  | cons b tail =>
    cases results with
    | nil => exact hlegal.elim
    | cons r results =>
      obtain ⟨p, hread⟩ : ∃ p, l.read = some p := by
        rw [hr.read]
        exact ⟨_, List.head?_eq_some_head hr.ne_nil⟩
      have hview := hcalls _ (writeCall_mem (by rw [hsize]; exact Nat.succ_ne_zero _) hread hrun)
      change m.copyOut p l.readInx l.readableSize = _ at hview
      unfold Memory.copyOut at hview
      by_contra hout
      rw [hsize, if_neg hout] at hview
      cases hview

/-- More bytes are unread than a Buffer holds. -/
theorem not_sendsUnread {h₀ : Heap} {p₀ : BufferPtr} {es : List (FifoEvent UInt8)} {s : ListState}
    (hrun : Run ListStep (ListState.start h₀ p₀) es s) (hlen : kBufferSize < (unreadOf es).length)
    {results : List WriteResult} (hlegal : LegalWrites s.list.readableSize results) :
    ¬ SendsUnread scriptPool ⟨s.heap, []⟩ s.list (unreadOf es) results := by
  intro hs
  obtain ⟨c, hr⟩ := ListState.holds_unread hrun
  rw [hr.readableSize_eq] at hlegal
  have hone := hs.contiguous hr hlegal
  rw [hr.contiguous_iff] at hone
  omega

/-- **When `Send` keeps to the current Buffer.** For every list that operations can lead to, and
all results of `::write`: exactly if `ReadableSize()` is at most `currentBufferReadSize()`. -/
theorem send_ranges_iff {h₀ : Heap} {p₀ : BufferPtr} {es : List (FifoEvent UInt8)} {s : ListState}
    (hrun : Run ListStep (ListState.start h₀ p₀) es s) {h : Heap} {gets : List BufferPtr}
    (hsame : s.SameList h) (hfresh : s.Fresh gets) {results : List WriteResult}
    (hlegal : LegalWrites s.list.readableSize results) :
    SendsUnread scriptPool ⟨h, gets⟩ s.list (unreadOf es) results ↔
      s.list.readableSize ≤ s.list.currentBufferReadSize := by
  obtain ⟨c, hr, hown⟩ := (ListState.holds_unread hrun).enter hsame hfresh
  have hsize : s.list.readableSize = (unreadOf es).length := hr.readableSize_eq
  rw [hsize] at hlegal ⊢
  constructor
  · intro hs
    exact hs.contiguous hr hlegal
  · intro hone
    obtain ⟨sent, rest, c', hsend, hcalls, hsplit, hr'⟩ :=
      sendLoop_spec scriptPool_safe (m := ⟨h, gets⟩) results [] hr hown hone hlegal
    refine ⟨sent, rest, hsend, hcalls, hsplit, ⟨c', hr'⟩, hr'.readInx_lt, ?_⟩
    rw [hr'.readableSize_eq, hsize, ← hsplit, List.length_append, Nat.add_sub_cancel_left]

/-- Two unread bytes are sent one at a time, with an interruption. -/
theorem send_ranges_two_bytes :
    ∃ s, Run ListStep (ListState.start (fun _ => Buffer.new) ⟨0, by decide⟩) [.put [7, 8] 2] s ∧
      SendsUnread scriptPool ⟨s.heap, []⟩ s.list [7, 8] [.bytes 1, .error eINTR, .bytes 1] := by
  have hfresh : ∀ s : ListState, s.Fresh [] := fun s => ⟨by simp, by simp⟩
  obtain ⟨s, hrun, hsize, hone⟩ : ∃ s,
      Run ListStep (ListState.start (fun _ => Buffer.new) ⟨0, by decide⟩) [.put [7, 8] 2] s ∧
      s.list.readableSize = 2 ∧ s.list.readableSize ≤ s.list.currentBufferReadSize :=
    ⟨_, .single (.write (fun _ _ => rfl) (hfresh _) rfl), rfl, le_rfl⟩
  have hlegal : LegalWrites s.list.readableSize [.bytes 1, .error eINTR, .bytes 1] := by
    rw [hsize]
    exact ⟨le_rfl, Nat.le_succ 1, fun _ => ⟨le_rfl, le_rfl, trivial⟩⟩
  exact ⟨s, hrun, (send_ranges_iff hrun (fun _ _ => rfl) (hfresh s) hlegal).mpr hone⟩

/-- One byte more than a Buffer holds is unread: the first call reaches behind the Buffer. -/
theorem send_reaches_out :
    ∃ es s, Run ListStep (ListState.start (fun _ => Buffer.new) ⟨0, by decide⟩) es s ∧
      (unreadOf es).length = kBufferSize + 1 ∧
      LegalWrites s.list.readableSize [.error eAGAIN] ∧
      ¬ SendsUnread scriptPool ⟨s.heap, []⟩ s.list (unreadOf es) [.error eAGAIN] := by
  set start := ListState.start (fun _ => Buffer.new) ⟨0, by decide⟩ with hstart
  set src : List UInt8 := List.replicate kBufferSize 0 with hsrc
  have hlen : src.length = kBufferSize := List.length_replicate
  -- a Buffer is filled, and one byte goes to the next
  have hr₀ : ListRep start.heap start.list [⟨0, by decide⟩] [] := listRep_new _ _
  have hfresh₀ : start.Fresh [⟨1, by decide⟩] := by
    refine ⟨List.nodup_singleton _, ?_⟩
    intro p hp hin
    obtain rfl := List.mem_singleton.mp hp
    exact absurd (List.mem_singleton.mp (hr₀.mem_of_inList hin)) (by decide)
  have hroom : start.list.writeableSize = kBufferSize :=
    hr₀.writeableSize_eq.trans (Nat.sub_zero _)
  have hfit₀ : src.length ≤ start.list.writeableSize := by rw [hlen, hroom]
  obtain ⟨m₁, l₁, c₁, hfill₁, hr₁, -, -, hroom₁⟩ :=
    fill_ok (m := ⟨start.heap, [⟨1, by decide⟩]⟩) hr₀
      ⟨hfresh₀.1, fun p hp hc => hfresh₀.2 p hp (hr₀.inList_of_mem hc)⟩ hfit₀
      (.inl (List.cons_ne_nil _ _))
  rw [if_pos (by rw [hlen, hroom])] at hroom₁
  have hfit₁ : [(0 : UInt8)].length ≤ l₁.writeableSize := by
    rw [hroom₁]
    decide
  obtain ⟨m₂, l₂, c₂, hfill₂, hr₂, -⟩ :=
    fill_ok (m := ⟨m₁.heap, []⟩) hr₁ ⟨List.nodup_nil, fun p hp => nomatch hp⟩ hfit₁
      (.inr (by rw [hroom₁]; decide))
  have hrun : Run ListStep start [.put src src.length, .put [0] [(0 : UInt8)].length]
      ⟨m₂.heap, l₂⟩ :=
    .cons (.fill (fun _ _ => rfl) hfresh₀ (by rw [hlen, hroom]) hfill₁)
      (.single (.fill (fun _ _ => rfl) ⟨List.nodup_nil, fun p hp => nomatch hp⟩
        (by rw [hroom₁]; decide) hfill₂))
  have hunread : (unreadOf [.put src src.length, .put [0] [(0 : UInt8)].length]).length =
      kBufferSize + 1 := by
    simp [unreadOf, FifoEvent.written, FifoEvent.taken, hlen]
  have hlegal : ∀ n, LegalWrites n [.error eAGAIN] := by
    intro n
    cases n with
    | zero => exact trivial
    | succ n => exact fun h => absurd h (by decide)
  exact ⟨_, _, hrun, hunread, hlegal _,
    not_sendsUnread hrun (by rw [hunread]; exact Nat.lt_succ_self _) (hlegal _)⟩

end ServerKit
