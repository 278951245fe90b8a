import ServerKit.Base.Log
import ServerKit.Lib.Outcome
import Mathlib.Data.List.Infix

/-!
# The records of the log

The put area is 29998 bytes long. What is streamed behind its end is swallowed, the newline of
`finish` as well.
-/

namespace ServerKit

open Lib

namespace LogMessageData

/-- The put area is that of a message, and the next byte stands in it or at its end. -/
structure Ok (d : LogMessageData) : Prop where
  pbase : d.stream.pbase = 0
  epptr : d.stream.epptr = kMaxLogMessageLen - 2
  pptr_le : d.stream.pptr ≤ kMaxLogMessageLen - 2

theorem ok_new (text : ℕ → UInt8) : (new text).Ok := ⟨rfl, rfl, Nat.zero_le _⟩

theorem slice_new (text : ℕ → UInt8) : (new text).slice = [] := rfl

theorem slice_length (d : LogMessageData) : d.slice.length = d.stream.pcount := by
  unfold slice
  rw [List.length_map, List.length_range]

theorem Ok.pcount_eq {d : LogMessageData} (h : d.Ok) : d.stream.pcount = d.stream.pptr := by
  rw [LogStreamBuf.pcount, h.pbase, Nat.sub_zero]

theorem Ok.slice_eq {d : LogMessageData} (h : d.Ok) :
    d.slice = (List.range d.stream.pptr).map d.text := by
  unfold slice
  simp only [h.pcount_eq, h.pbase, Nat.zero_add]

theorem Ok.slice_length_le {d : LogMessageData} (h : d.Ok) :
    d.slice.length ≤ kMaxLogMessageLen - 2 := by
  rw [slice_length, h.pcount_eq]
  exact h.pptr_le

/-- The bytes in front of the one that is written stay. -/
theorem map_update_range (text : ℕ → UInt8) (n : ℕ) (c : UInt8) :
    (List.range n).map (Function.update text n c) = (List.range n).map text := by
  apply List.map_congr_left
  intro i hi
  exact Function.update_of_ne (Nat.ne_of_lt (List.mem_range.mp hi)) c text

theorem Ok.sputc {d : LogMessageData} (h : d.Ok) (c : UInt8) :
    ∃ d', d.sputc c = .ok d' ∧ d'.Ok ∧ d'.slice =
      (d.slice ++ [c]).take (kMaxLogMessageLen - 2) := by
  have hlen := h.slice_length_le
  by_cases hroom : d.stream.pptr < d.stream.epptr
  · have hlt : d.stream.pptr < kMaxLogMessageLen - 2 := h.epptr ▸ hroom
    have hwrite : d.write d.stream.pptr c =
        .ok { d with text := Function.update d.text d.stream.pptr c } :=
      if_pos (by omega)
    have hok : Ok ⟨Function.update d.text d.stream.pptr c,
        { d.stream with pptr := d.stream.pptr + 1 }⟩ := ⟨h.pbase, h.epptr, hlt⟩
    refine ⟨_, ?_, hok, ?_⟩
    · rw [LogMessageData.sputc, if_pos hroom, hwrite, ok_bind]
      rfl
    · have hfit : (d.slice ++ [c]).length ≤ kMaxLogMessageLen - 2 := by
        rw [List.length_append, slice_length, h.pcount_eq]
        exact hlt
      rw [hok.slice_eq, List.take_of_length_le hfit, h.slice_eq]
      change (List.range (d.stream.pptr + 1)).map (Function.update d.text d.stream.pptr c) = _
      rw [List.range_succ, List.map_append, map_update_range, List.map_singleton,
        Function.update_self]
  · have hfull : d.slice.length = kMaxLogMessageLen - 2 := by
      have hepptr := h.epptr
      have hle := h.pptr_le
      rw [slice_length, h.pcount_eq]
      omega
    refine ⟨d, ?_, h, ?_⟩
    · rw [LogMessageData.sputc, if_neg hroom]
      rfl
    · rw [← hfull, List.take_left]

theorem take_take_append {α : Type} (n : ℕ) (xs ys : List α) :
    (xs.take n ++ ys).take n = (xs ++ ys).take n := by
  rcases Nat.le_total xs.length n with h | h
  · rw [List.take_of_length_le h]
  · have hlen : (xs.take n).length = n := List.length_take_of_le h
    rw [List.take_append_of_le_length h, List.take_append_of_le_length hlen.ge, List.take_take,
      Nat.min_self]

theorem Ok.put {d : LogMessageData} (h : d.Ok) (s : List UInt8) :
    ∃ d', d.put s = .ok d' ∧ d'.Ok ∧ d'.slice = (d.slice ++ s).take (kMaxLogMessageLen - 2) := by
  induction s generalizing d with
  | nil =>
    refine ⟨d, rfl, h, ?_⟩
    rw [List.append_nil, List.take_of_length_le h.slice_length_le]
  | cons c s ih =>
    obtain ⟨d₁, hc, hok₁, hslice₁⟩ := h.sputc c
    obtain ⟨d₂, hs, hok₂, hslice₂⟩ := ih hok₁
    refine ⟨d₂, ?_, hok₂, ?_⟩
    · rw [LogMessageData.put, List.foldlM_cons, hc, ok_bind]
      exact hs
    · rw [hslice₂, hslice₁, take_take_append, List.append_assoc]
      rfl

/-- The byte behind the record does not belong to it. -/
theorem Ok.write_end {d : LogMessageData} (h : d.Ok) (c : UInt8) :
    ∃ d', d.write d.stream.pcount c = .ok d' ∧ d'.Ok ∧ d'.slice = d.slice := by
  have hle := h.pptr_le
  have hlt : d.stream.pcount < kMaxLogMessageLen + 1 := by
    rw [h.pcount_eq]
    omega
  have hok : Ok ⟨Function.update d.text d.stream.pcount c, d.stream⟩ := ⟨h.pbase, h.epptr, hle⟩
  refine ⟨_, if_pos hlt, hok, ?_⟩
  rw [hok.slice_eq, h.slice_eq, h.pcount_eq]
  exact map_update_range d.text d.stream.pptr c

end LogMessageData

namespace LogMessage

open LogMessageData

theorem finish_ok {d : LogMessageData} (h : d.Ok) :
    ∃ d', finish d = .ok d' ∧ d'.Ok ∧ d'.slice =
      (d.slice ++ [10]).take (kMaxLogMessageLen - 2) := by
  obtain ⟨d₁, hput, hok₁, hslice₁⟩ := h.put [10]
  obtain ⟨d₂, hwrite, hok₂, hslice₂⟩ := hok₁.write_end 0
  refine ⟨d₂, ?_, hok₂, hslice₂.trans hslice₁⟩
  rw [finish, hput, ok_bind, hwrite]

/-- A message into which strings are streamed, before `finish` and after it. -/
theorem streamed_ok (text : ℕ → UInt8) (header : List UInt8) (strings : List (List UInt8)) :
    ∃ d, streamed text header strings = .ok d ∧ d.Ok ∧
      d.slice = (header ++ strings.flatten).take (kMaxLogMessageLen - 2) := by
  obtain ⟨d, hnew, hok, hslice⟩ := (ok_new text).put header
  rw [slice_new, List.nil_append] at hslice
  have hrest : ∀ (d : LogMessageData) (before : List UInt8), d.Ok →
      d.slice = before.take (kMaxLogMessageLen - 2) → ∃ d', strings.foldlM put d = .ok d' ∧ d'.Ok ∧
        d'.slice = (before ++ strings.flatten).take (kMaxLogMessageLen - 2) := by
    induction strings with
    | nil =>
      intro d before hok hslice
      refine ⟨d, rfl, hok, ?_⟩
      rw [hslice, List.flatten_nil, List.append_nil]
    | cons s strings ih =>
      intro d before hok hslice
      obtain ⟨d₁, hput, hok₁, hslice₁⟩ := hok.put s
      rw [hslice, take_take_append] at hslice₁
      obtain ⟨d₂, hrest, hok₂, hslice₂⟩ := ih d₁ (before ++ s) hok₁ hslice₁
      refine ⟨d₂, ?_, hok₂, ?_⟩
      · rw [List.foldlM_cons, hput, ok_bind, hrest]
      · rw [hslice₂, List.flatten_cons, List.append_assoc]
  obtain ⟨d', hstrings, hok', hslice'⟩ := hrest d header hok hslice
  refine ⟨d', ?_, hok', hslice'⟩
  rw [streamed, new, hnew, ok_bind, hstrings]

/-- The record is a prefix of what has been streamed, the whole of it when it fits beside the
newline and the NUL, with one newline behind it that `finish` has written. -/
def LineDelimited (text : ℕ → UInt8) (header : List UInt8) (strings : List (List UInt8)) : Prop :=
  ∃ d d', streamed text header strings = .ok d ∧ finish d = .ok d' ∧
    d.slice <+: header ++ strings.flatten ∧
    ((header ++ strings.flatten).length + 2 ≤ kMaxLogMessageLen →
      d.slice = header ++ strings.flatten) ∧
    d'.slice = d.slice ++ [10] ∧ d'.slice.length ≤ kMaxLogMessageLen

variable {text : ℕ → UInt8} {header : List UInt8} {strings : List (List UInt8)}

theorem lineDelimited_of_lt
    (h : (header ++ strings.flatten).length + 2 < kMaxLogMessageLen) :
    LineDelimited text header strings := by
  obtain ⟨d, hstreamed, hok, hslice⟩ := streamed_ok text header strings
  obtain ⟨d', hfinish, hok', hslice'⟩ := finish_ok hok
  rw [List.take_of_length_le (by omega)] at hslice
  have hlen := congrArg List.length hslice
  have hfit : (d.slice ++ [10]).length ≤ kMaxLogMessageLen - 2 := by
    rw [List.length_append, List.length_singleton]
    omega
  rw [List.take_of_length_le hfit] at hslice'
  refine ⟨d, d', hstreamed, hfinish, ?_, fun _ => hslice, hslice', ?_⟩
  · rw [hslice]
  · exact hok'.slice_length_le.trans (Nat.sub_le _ _)

/-- The newline is swallowed. -/
theorem not_lineDelimited_of_le
    (h : kMaxLogMessageLen ≤ (header ++ strings.flatten).length + 2) :
    ¬ LineDelimited text header strings := by
  rintro ⟨d, d', hstreamed, hfinish, -, -, hnewline, -⟩
  obtain ⟨e, hstreamed', hok, hslice⟩ := streamed_ok text header strings
  obtain rfl : d = e := Except.ok.inj (hstreamed.symm.trans hstreamed')
  obtain ⟨e', hfinish', hok', -⟩ := finish_ok hok
  obtain rfl : d' = e' := Except.ok.inj (hfinish.symm.trans hfinish')
  have hlen := congrArg List.length hslice
  have hle := hok'.slice_length_le
  rw [List.length_take] at hlen
  rw [hnewline, List.length_append, List.length_singleton] at hle
  omega

/-- Whatever is streamed, nothing is written outside `text_`, and the record is a prefix of it with
the newline, of 29998 bytes at most. -/
theorem record_eq (text : ℕ → UInt8) (header : List UInt8) (strings : List (List UInt8)) :
    ∃ d d', streamed text header strings = .ok d ∧ finish d = .ok d' ∧
      d'.slice = (header ++ strings.flatten ++ [10]).take (kMaxLogMessageLen - 2) := by
  obtain ⟨d, hstreamed, hok, hslice⟩ := streamed_ok text header strings
  obtain ⟨d', hfinish, -, hslice'⟩ := finish_ok hok
  refine ⟨d, d', hstreamed, hfinish, ?_⟩
  rw [hslice', hslice, take_take_append]

end LogMessage

open LogMessage

/-- **Log records** end with the newline of `finish` if and only if what is streamed leaves room
for it in the put area. -/
theorem logRecord_iff (text : ℕ → UInt8) (header : List UInt8) (strings : List (List UInt8)) :
    LineDelimited text header strings ↔
      (header ++ strings.flatten).length + 2 < kMaxLogMessageLen := by
  constructor
  · intro h
    by_contra hle
    exact not_lineDelimited_of_le (Nat.le_of_not_lt hle) h
  · exact lineDelimited_of_lt

theorem logRecord_no_newline :
    ¬ LineDelimited (fun _ => 0) [91, 73, 32] [List.replicate 29995 97] := by
  apply not_lineDelimited_of_le
  rw [List.flatten_cons, List.flatten_nil, List.append_nil, List.length_append,
    List.length_replicate]
  decide

end ServerKit
