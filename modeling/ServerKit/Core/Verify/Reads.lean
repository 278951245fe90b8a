import ServerKit.Core.SocketReads
import ServerKit.Base.Verify.ListFifo

/-!
# What `Socket::In` makes of the results of `::read`

`Recv` gives the reason it has stopped in `*err`, which it copies from `errno`. An end of file does
not set `errno`, so what `In` makes of it depends on what `errno` was: a connection that has been
closed is taken for one on which nothing waits when that was `EAGAIN`, and read again for ever when
it was `0`.
-/

namespace ServerKit

open Lib

namespace Reading

variable {σ : Type} {P : ObjectPool σ} {w w' w₁ : Reading σ} {pc : InPc}

/-! ## `In` as a relation -/

/-- `In` returns from `pc`, with `w'`. -/
inductive Returns (P : ObjectPool σ) : Reading σ → InPc → Reading σ → Prop
  | done {w w' : Reading σ} {pc : InPc} : w.next P pc = .ok (w', none) → Returns P w pc w'
  | step {w w₁ w' : Reading σ} {pc pc₁ : InPc} : w.next P pc = .ok (w₁, some pc₁) →
      Returns P w₁ pc₁ w' → Returns P w pc w'

theorem Returns.exists_fuel (h : Returns P w pc w') : ∃ fuel, in_ P w fuel pc = .ok w' := by
  induction h with
  | done hnext => exact ⟨1, by rw [in_, hnext]; rfl⟩
  | step hnext _ ih =>
    obtain ⟨fuel, hin⟩ := ih
    refine ⟨fuel + 1, ?_⟩
    rw [in_, hnext]
    exact hin

theorem returns_of_in (fuel : ℕ) : ∀ {w : Reading σ} {pc : InPc}, in_ P w fuel pc = .ok w' →
    Returns P w pc w' := by
  induction fuel with
  | zero =>
    intro w pc h
    cases h
  | succ fuel ih =>
    intro w pc h
    rw [in_] at h
    cases hnext : w.next P pc with
    | error e =>
      rw [hnext] at h
      cases h
    | ok r =>
      obtain ⟨w₁, pc₁⟩ := r
      rw [hnext] at h
      cases pc₁ with
      | none =>
        obtain rfl : w₁ = w' := Except.ok.inj h
        exact .done hnext
      | some pc₁ => exact .step hnext (ih h)

theorem Returns.unique (h : Returns P w pc w') (h' : Returns P w pc w₁) : w' = w₁ := by
  induction h with
  | done hnext =>
    cases h' with
    | done hnext' => exact (Prod.mk.inj (Except.ok.inj (hnext.symm.trans hnext'))).1
    | step hnext' _ => cases (Prod.mk.inj (Except.ok.inj (hnext.symm.trans hnext'))).2
  | step hnext _ ih =>
    cases h' with
    | done hnext' => cases (Prod.mk.inj (Except.ok.inj (hnext.symm.trans hnext'))).2
    | step hnext' h' =>
      obtain ⟨rfl, hpc⟩ := Prod.mk.inj (Except.ok.inj (hnext.symm.trans hnext'))
      obtain rfl := Option.some.inj hpc
      exact ih h'

/-! ## The script -/

/-- The bytes of a script. -/
def received : List ReadAnswer → List UInt8
  | [] => []
  | .data src :: answers => src ++ received answers
  | .interrupted :: answers => received answers

/-- `errno` behind a script, if it was `errno` before. -/
def errnoAfter (errno : ℤ) : List ReadAnswer → ℤ
  | [] => errno
  | .data _ :: answers => errnoAfter errno answers
  | .interrupted :: answers => errnoAfter eINTR answers

/-- `::read` may answer so when there is room for `room` bytes at `WritePoint()`. -/
def LegalReads : ℕ → List ReadAnswer → Prop
  | _, [] => True
  | room, .data src :: answers => src ≠ [] ∧ src.length ≤ room ∧
      LegalReads (if src.length = room then kBufferSize else room - src.length) answers
  | room, .interrupted :: answers => LegalReads room answers

/-- `w` at the end of its script. -/
def atEnd (w : Reading σ) (mem : Memory σ) (readList : BufferList) : Reading σ :=
  { w with
    mem := mem
    sock := w.sock.setReadList readList
    errno := errnoAfter w.errno w.answers
    answers := [] }

/-- What `*err` is at the end of the script. -/
def endErr (w : Reading σ) : ℤ :=
  match w.last with
  | .again => eAGAIN
  | .eof => w.errno
  | .fatal e => e

/-- The script has nothing left but its end. -/
theorem next_recv_of_nil (h : w.answers = []) (ret : ℤ) :
    ∃ errno, w.next P (.recv ret) = .ok ({ w with errno := errno }, some (.received w.endErr)) := by
  obtain ⟨mem, sock, errno, answers, last, effects⟩ := w
  obtain rfl : answers = [] := h
  cases last with
  | again => exact ⟨eAGAIN, rfl⟩
  | eof => exact ⟨errno, rfl⟩
  | fatal e =>
    refine ⟨e, ?_⟩
    simp [next, read, endErr, Socket.afterRead, e.2.2.2, e.2.2.1, pure, Except.pure]

/-- **The data**: from the loop of `Recv`, `In` gets to the end of the script, with the bytes of the
script appended. -/
theorem returns_of_answers (answers : List ReadAnswer) :
    ∀ {w : Reading (List BufferPtr)} {c : List BufferPtr} {q : List UInt8} (ret : ℤ),
      w.answers = answers → ListRep w.mem.heap w.sock.readList c q → ScriptOwn w.mem.pool c →
      answers.length ≤ w.mem.pool.length → LegalReads w.sock.readList.writeableSize answers →
      ∃ mem readList ret' c', ListRep mem.heap readList c' (q ++ received answers) ∧
        ∀ w', Returns scriptPool (w.atEnd mem readList) (.recv ret') w' →
          Returns scriptPool w (.recv ret) w' := by
  induction answers with
  | nil =>
    intro w c q ret hanswers hr _ _ _
    refine ⟨w.mem, w.sock.readList, ret, c, ?_, ?_⟩
    · rw [received, List.append_nil]
      exact hr
    · intro w' h
      have heq : w.atEnd w.mem w.sock.readList = w := by
        obtain ⟨mem, sock, errno, answers, last, effects⟩ := w
        obtain rfl : answers = [] := hanswers
        rfl
      rw [heq] at h
      exact h
  | cons a answers ih =>
    intro w c q ret hanswers hr hown hpool hlegal
    cases a with
    | interrupted =>
      have hnext : w.next scriptPool (.recv ret) =
          .ok ({ w with errno := eINTR, answers := answers }, some (.recv ret)) := by
        unfold next read
        rw [hanswers]
        rfl
      obtain ⟨mem, readList, ret', c', hr', hrest⟩ :=
        ih (w := { w with errno := eINTR, answers := answers }) ret rfl hr hown
          (Nat.le_of_succ_le hpool) hlegal
      refine ⟨mem, readList, ret', c', hr', ?_⟩
      intro w' h
      refine .step hnext (hrest w' ?_)
      unfold atEnd at h
      rw [hanswers] at h
      exact h
    | data src =>
      obtain ⟨-, hfit, hlegal⟩ := hlegal
      have hne : w.mem.pool ≠ [] := by
        intro hnil
        rw [hnil] at hpool
        exact absurd hpool (Nat.not_succ_le_zero _)
      obtain ⟨m, l, c₁, hfill, hr₁, hown₁, hlen, hroom⟩ := fill_ok hr hown hfit (.inl hne)
      have hnext : w.next scriptPool (.recv ret) =
          .ok ({ w with mem := m, sock := w.sock.setReadList l, answers := answers },
            some (.recv (ret + src.length))) := by
        unfold next read
        rw [hanswers]
        simp only [hfill, ok_bind]
        rfl
      have hpool' : answers.length ≤ m.pool.length := by
        have hle : answers.length + 1 ≤ w.mem.pool.length := hpool
        exact Nat.le_of_succ_le_succ (hle.trans hlen)
      rw [← hroom] at hlegal
      obtain ⟨mem, readList, ret', c', hr', hrest⟩ :=
        ih (w := { w with mem := m, sock := w.sock.setReadList l, answers := answers })
          (ret + src.length) rfl hr₁ hown₁ hpool' hlegal
      refine ⟨mem, readList, ret', c', ?_, ?_⟩
      · rw [received, ← List.append_assoc]
        exact hr'
      · intro w' h
        refine .step hnext (hrest w' ?_)
        unfold atEnd at h
        rw [hanswers] at h
        exact h

/-! ## Behind `Recv` -/

/-- An error of the connection is reported, and the Socket closed. -/
theorem returns_of_error {err : ℤ} (hne : err ≠ kOK) (hagain : isIOTryAgain err = false) :
    Returns P w (.received err)
      (if w.sock.hasHandler then (w.did (.onError err)).did .close else w.did .close) := by
  have hnext : w.next P (.received err) =
      .ok (w, some (if w.sock.hasHandler then .onError err else .close)) := by
    unfold next Socket.inStep
    simp [hne, hagain]
  cases hhandler : w.sock.hasHandler with
  | true =>
    rw [hhandler] at hnext
    exact .step hnext (.step rfl (.done rfl))
  | false =>
    rw [hhandler] at hnext
    exact .step hnext (.done rfl)

/-- Nothing waits: `In` goes on to `OnRead`, if anything is unread. -/
theorem returns_of_again {err : ℤ} (hagain : isIOTryAgain err = true) :
    Returns P w (.received err)
      (if !w.sock.readList.empty ∧ w.sock.hasHandler then w.did .onRead else w) := by
  have hnext : w.next P (.received err) = .ok (w, some .finish) := by
    unfold next Socket.inStep
    simp [hagain]
  refine .step hnext ?_
  have hfinish : w.next P .finish =
      .ok (w, if !w.sock.readList.empty ∧ w.sock.hasHandler then some .onRead else none) := rfl
  by_cases hread : !w.sock.readList.empty ∧ w.sock.hasHandler
  · rw [if_pos hread] at hfinish ⊢
    exact .step hfinish (.done rfl)
  · rw [if_neg hread] at hfinish ⊢
    exact .done hfinish

/-- What an end of file with `errno` `0` leads to: `Recv`, again. -/
theorem next_of_eof {r : Reading σ × Option InPc}
    (hpc : (∃ ret, pc = .recv ret) ∨ pc = .received kOK) (hlast : w.last = .eof)
    (herrno : errnoAfter w.errno w.answers = kOK) (hnext : w.next P pc = .ok r) :
    ∃ pc', r.2 = some pc' ∧ ((∃ ret, pc' = .recv ret) ∨ pc' = .received kOK) ∧
      r.1.last = .eof ∧ errnoAfter r.1.errno r.1.answers = kOK := by
  rcases hpc with ⟨ret, rfl⟩ | rfl
  · cases hanswers : w.answers with
    | nil =>
      rw [hanswers] at herrno
      have herrno : w.errno = kOK := herrno
      have hread : w.next P (.recv ret) = .ok (w, some (.received w.errno)) := by
        unfold next read
        rw [hanswers, hlast]
        rfl
      obtain rfl := Except.ok.inj (hread.symm.trans hnext)
      refine ⟨_, rfl, .inr (by rw [herrno]), hlast, ?_⟩
      rw [hanswers]
      exact herrno
    | cons a answers =>
      rw [hanswers] at herrno
      unfold next read at hnext
      rw [hanswers] at hnext
      cases a with
      | interrupted =>
        have herr : errnoAfter eINTR answers = kOK := herrno
        obtain rfl := Except.ok.inj hnext
        exact ⟨_, rfl, .inl ⟨ret, rfl⟩, hlast, herr⟩
      | data src =>
        cases hfill : BufferList.fill P w.mem w.sock.readList src with
        | error e =>
          simp only [hfill] at hnext
          cases hnext
        | ok f =>
          simp only [hfill, ok_bind] at hnext
          obtain rfl := Except.ok.inj hnext
          exact ⟨_, rfl, .inl ⟨_, rfl⟩, hlast, herrno⟩
  · have hagain : w.next P (.received kOK) = .ok (w, some (.recv 0)) := rfl
    obtain rfl := Except.ok.inj (hagain.symm.trans hnext)
    exact ⟨_, rfl, .inl ⟨0, rfl⟩, hlast, herrno⟩

/-- **An end of file with `errno` `0`** is read again for ever. -/
theorem Returns.not_eof (h : Returns P w pc w')
    (hpc : (∃ ret, pc = .recv ret) ∨ pc = .received kOK) (hlast : w.last = .eof)
    (herrno : errnoAfter w.errno w.answers = kOK) : False := by
  induction h with
  | done hnext =>
    obtain ⟨pc', hpc', -⟩ := next_of_eof hpc hlast herrno hnext
    cases hpc'
  | step hnext _ ih =>
    obtain ⟨pc', hpc', hagain, hlast', herrno'⟩ := next_of_eof hpc hlast herrno hnext
    obtain rfl := Option.some.inj hpc'
    exact ih hagain hlast' herrno'

end Reading

/-! ## `Socket::In` -/

/-- The script ends in an end of file or a fatal error. -/
def ReadEnd.Fails : ReadEnd → Prop
  | .again => False
  | .eof | .fatal _ => True

namespace Reading

/-- `Socket::In` does what it should with the script: it returns, the bytes received are appended to
`read_list_` in order, and the Socket is closed, and its handler told, exactly if the script ends in
an end of file or a fatal error. -/
def Settles (w : Reading (List BufferPtr)) (unread : List UInt8) : Prop :=
  ∃ fuel w', w.in_ scriptPool fuel .start = .ok w' ∧
    ListState.Holds ⟨w'.mem.heap, w'.sock.readList⟩ (unread ++ received w.answers) ∧
    (.close ∈ w'.effects ↔ w.last.Fails) ∧
    ((∃ err, .onError err ∈ w'.effects) ↔ w.last.Fails ∧ w.sock.hasHandler)

/-- `errno` shows an end of file as an error. -/
def Sound {σ : Type} (w : Reading σ) : Prop :=
  w.last = .eof →
    errnoAfter w.errno w.answers ≠ kOK ∧ isIOTryAgain (errnoAfter w.errno w.answers) = false

section In

variable {w : Reading (List BufferPtr)} {c : List BufferPtr} {q : List UInt8}

/-- What `Socket::In` comes to behind `Recv`, with all the bytes received. -/
theorem exists_received (hstatus : w.sock.status = .connected) (heffects : w.effects = [])
    (hr : ListRep w.mem.heap w.sock.readList c q) (hown : ScriptOwn w.mem.pool c)
    (hpool : w.answers.length ≤ w.mem.pool.length)
    (hlegal : LegalReads w.sock.readList.writeableSize w.answers) :
    ∃ (w₁ : Reading (List BufferPtr)) (c' : List BufferPtr) (err : ℤ),
      ListRep w₁.mem.heap w₁.sock.readList c' (q ++ received w.answers) ∧ w₁.effects = [] ∧
      w₁.sock.hasHandler = w.sock.hasHandler ∧
      (err = match w.last with
        | .again => eAGAIN
        | .eof => errnoAfter w.errno w.answers
        | .fatal e => e) ∧
      ∀ w', Returns scriptPool w₁ (.received err) w' → Returns scriptPool w .start w' := by
  have hstart : w.next scriptPool .start = .ok (w, some (.recv 0)) := by
    unfold next Socket.inStep
    simp [hstatus]
  obtain ⟨mem, readList, ret, c', hr', hrest⟩ :=
    returns_of_answers w.answers 0 rfl hr hown hpool hlegal
  obtain ⟨errno, hend⟩ := next_recv_of_nil (P := scriptPool) (w := w.atEnd mem readList) rfl ret
  refine ⟨{ w.atEnd mem readList with errno := errno }, c', _, hr', heffects, rfl, rfl, ?_⟩
  intro w' h
  refine .step hstart (hrest w' (.step hend ?_))
  unfold endErr
  cases hlast : w.last with
  | again =>
    rw [hlast] at h
    simpa [atEnd, hlast] using h
  | eof =>
    rw [hlast] at h
    simpa [atEnd, hlast] using h
  | fatal e =>
    rw [hlast] at h
    simpa [atEnd, hlast] using h

theorem Settles.sound {unread : List UInt8} (hs : w.Settles unread)
    (hstatus : w.sock.status = .connected) (heffects : w.effects = [])
    (hr : ListRep w.mem.heap w.sock.readList c q) (hown : ScriptOwn w.mem.pool c)
    (hpool : w.answers.length ≤ w.mem.pool.length)
    (hlegal : LegalReads w.sock.readList.writeableSize w.answers) : w.Sound := by
  obtain ⟨fuel, w', hin, -, hclose, -⟩ := hs
  have hreturns := returns_of_in fuel hin
  intro hlast
  constructor
  · intro herrno
    cases hreturns with
    | done hnext =>
      unfold next Socket.inStep at hnext
      simp [hstatus] at hnext
    | step hnext hrest =>
      unfold next Socket.inStep at hnext
      rw [if_neg (not_not.mpr hstatus)] at hnext
      obtain ⟨rfl, hpc⟩ := Prod.mk.inj (Except.ok.inj hnext)
      obtain rfl := Option.some.inj hpc
      exact hrest.not_eof (.inl ⟨0, rfl⟩) hlast herrno
  · obtain ⟨w₁, c', err, -, hnone, -, herr, hrest⟩ :=
      exists_received hstatus heffects hr hown hpool hlegal
    rw [hlast] at herr
    have herr : err = errnoAfter w.errno w.answers := herr
    rw [← herr]
    by_contra hagain
    have hw' := hreturns.unique (hrest _ (returns_of_again (Bool.not_eq_false _ ▸ hagain)))
    rw [hlast] at hclose
    have hmem := hclose.mpr trivial
    rw [hw'] at hmem
    split at hmem
    · simp [did, hnone] at hmem
    · rw [hnone] at hmem
      cases hmem

theorem Sound.settles (hs : w.Sound) (hstatus : w.sock.status = .connected)
    (heffects : w.effects = []) (hr : ListRep w.mem.heap w.sock.readList c q)
    (hown : ScriptOwn w.mem.pool c) (hpool : w.answers.length ≤ w.mem.pool.length)
    (hlegal : LegalReads w.sock.readList.writeableSize w.answers) : w.Settles q := by
  obtain ⟨w₁, c', err, hr', hnone, hhandler, herr, hrest⟩ :=
    exists_received hstatus heffects hr hown hpool hlegal
  by_cases hagain : w.last = .again
  · rw [hagain] at herr
    have herr : err = eAGAIN := herr
    subst herr
    obtain ⟨fuel, hin⟩ := (hrest _ (returns_of_again rfl)).exists_fuel
    refine ⟨fuel, _, hin, ?_, ?_, ?_⟩
    · split
      · exact ⟨c', hr'⟩
      · exact ⟨c', hr'⟩
    · rw [hagain]
      split
      · simp [did, hnone, ReadEnd.Fails]
      · simp [hnone, ReadEnd.Fails]
    · rw [hagain]
      split
      · simp [did, hnone, ReadEnd.Fails]
      · simp [hnone, ReadEnd.Fails]
  · have hfails : w.last.Fails := by
      cases hlast : w.last with
      | again => exact absurd hlast hagain
      | eof => exact trivial
      | fatal e => exact trivial
    have hfatal : err ≠ kOK ∧ isIOTryAgain err = false := by
      cases hlast : w.last with
      | again => exact absurd hlast hagain
      | eof =>
        rw [hlast] at herr
        have herr : err = errnoAfter w.errno w.answers := herr
        rw [herr]
        exact hs hlast
      | fatal e =>
        rw [hlast] at herr
        have herr : err = e := herr
        rw [herr]
        exact ⟨e.2.1, e.2.2.2⟩
    obtain ⟨fuel, hin⟩ := (hrest _ (returns_of_error hfatal.1 hfatal.2)).exists_fuel
    refine ⟨fuel, _, hin, ?_, ?_, ?_⟩
    · split
      · exact ⟨c', hr'⟩
      · exact ⟨c', hr'⟩
    · refine iff_of_true ?_ hfails
      split
      · simp [did]
      · simp [did]
    · rw [← hhandler]
      cases w₁.sock.hasHandler with
      | true => simp [did, hnone, hfails]
      | false => simp [did, hnone]

end In

end Reading

/-- **When `Socket::In` settles a script.** For every connected Socket, every script and every
earlier value of `errno`, as long as `new` does not throw: exactly if the script does not end in an
end of file behind which `errno` is `0` or `EAGAIN`. -/
theorem socket_in_iff {h₀ : Heap} {p₀ : BufferPtr} {es : List (FifoEvent UInt8)} {s : ListState}
    (hrun : Run ListStep (ListState.start h₀ p₀) es s) {mem : Memory (List BufferPtr)}
    {sock : Socket} (hlist : sock.readList = s.list) (hstatus : sock.status = .connected)
    (hsame : s.SameList mem.heap) (hfresh : s.Fresh mem.pool) (errno : ℤ)
    {answers : List ReadAnswer} (last : ReadEnd) (hpool : answers.length ≤ mem.pool.length)
    (hlegal : Reading.LegalReads s.list.writeableSize answers) :
    (Reading.start mem sock errno answers last).Settles (unreadOf es) ↔
      (last = .eof → Reading.errnoAfter errno answers ≠ kOK ∧
        isIOTryAgain (Reading.errnoAfter errno answers) = false) := by
  obtain ⟨c, hr, hown⟩ := (ListState.holds_unread hrun).enter hsame hfresh
  rw [← hlist] at hr hlegal
  constructor
  · intro hs
    exact hs.sound hstatus rfl hr hown hpool hlegal
  · intro hs
    exact Reading.Sound.settles hs hstatus rfl hr hown hpool hlegal

theorem four_le_numBuffers : 4 ≤ numBuffers := by decide

/-- One of the first four Buffers. -/
def bufferAt (i : Fin 4) : BufferPtr := i.castLE four_le_numBuffers

/-- A connected Socket with a new read list. -/
def connectedSocket : Socket :=
  .newServer 5 true (ListState.start (fun _ => Buffer.new) (bufferAt 0)).list
    (ListState.start (fun _ => Buffer.new) (bufferAt 1)).list

/-- Two Buffers for it to read into. -/
def connectedMemory : Memory (List BufferPtr) where
  heap := fun _ => Buffer.new
  pool := [bufferAt 2, bufferAt 3]

theorem start_fresh :
    (ListState.start (fun _ => Buffer.new) (bufferAt 0)).Fresh connectedMemory.pool := by
  have hr : ListRep (fun _ => Buffer.new)
      (ListState.start (fun _ => Buffer.new) (bufferAt 0)).list [bufferAt 0] [] :=
    listRep_new _ _
  refine ⟨by decide, ?_⟩
  intro p hp hin
  obtain rfl := List.mem_singleton.mp (hr.mem_of_inList hin)
  revert hp
  decide

/-- A byte is received, and then, behind an interruption, the connection is closed. -/
theorem socket_in_one_byte :
    (Reading.start connectedMemory connectedSocket 0 [.data [7], .interrupted]
      .eof).Settles [] := by
  have hlegal : Reading.LegalReads
      (ListState.start (fun _ => Buffer.new) (bufferAt 0)).list.writeableSize
      [.data [7], .interrupted] := ⟨List.cons_ne_nil _ _, by decide, trivial⟩
  have hpool : [ReadAnswer.data [7], .interrupted].length ≤ connectedMemory.pool.length :=
    Nat.le_refl 2
  exact (socket_in_iff (.nil _) (rfl : connectedSocket.readList = _) rfl (fun _ _ => rfl)
    start_fresh 0 .eof hpool hlegal).mpr fun _ => ⟨by decide, by decide⟩

/-- The connection is closed while `errno` is `0`: `In` does not return. -/
theorem socket_in_eof_again :
    ¬ (Reading.start connectedMemory connectedSocket 0 [] .eof).Settles [] := by
  rintro ⟨fuel, w', hin, -⟩
  cases Reading.returns_of_in fuel hin with
  | done hnext => cases hnext
  | step hnext hrest =>
    cases hnext
    exact hrest.not_eof (.inl ⟨0, rfl⟩) rfl rfl

end ServerKit
