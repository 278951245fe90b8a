import ServerKit.Core.Epoll
import ServerKit.Lib.Outcome
import Mathlib.Logic.Function.Basic
import Mathlib.Tactic.Common

/-!
# What the functions of `Epoll` do to its entries
-/

namespace ServerKit

open Lib

namespace Epoll

variable {e e' : Epoll} {ee : EpollEntryPtr}

theorem entry_eq_ok {en : EpollEntry} (h : e.entry ee = .ok en) : e.entries ee = some en := by
  cases hen : e.entries ee with
  | none => rw [entry, hen] at h; cases h
  | some en' => rw [entry, hen] at h; rw [Except.ok.inj h]

/-- `Add` fails, or allocates the next entry. -/
theorem add_eq {fd : ℤ} {event : SocketPtr} {added : Bool} {handle : Option EpollEntryPtr}
    (h : e.add fd event added = (handle, e')) :
    (added = false ∧ handle = none ∧ e' = e) ∨
      (added = true ∧ handle = some e.nextEntry ∧ ∃ size, e' =
        { e.setEntry e.nextEntry (some ⟨fd, event⟩) with
          size := size
          nextEntry := e.nextEntry + 1 }) := by
  cases added with
  | false =>
    obtain ⟨rfl, rfl⟩ := Prod.mk.inj h
    exact .inl ⟨rfl, rfl, rfl⟩
  | true =>
    obtain ⟨rfl, rfl⟩ := Prod.mk.inj h
    exact .inr ⟨rfl, rfl, _, rfl⟩

/-- An entry after `Add` was there before, or is the one that `Add` has allocated. -/
theorem add_entries {fd : ℤ} {event : SocketPtr} {added : Bool} {handle : Option EpollEntryPtr}
    {en : EpollEntry} (h : e.add fd event added = (handle, e')) (hen : e'.entries ee = some en) :
    e.entries ee = some en ∨ added = true ∧ handle = some ee ∧ en = ⟨fd, event⟩ := by
  rcases add_eq h with ⟨-, -, rfl⟩ | ⟨hadded, hhandle, size, rfl⟩
  · exact .inl hen
  · have hen : (e.setEntry e.nextEntry (some ⟨fd, event⟩)).entries ee = some en := hen
    by_cases heq : ee = e.nextEntry
    · subst heq
      rw [setEntry_self] at hen
      exact .inr ⟨hadded, hhandle, (Option.some.inj hen).symm⟩
    · rw [setEntry_ne e _ heq] at hen
      exact .inl hen

theorem add_handle_le {fd : ℤ} {event : SocketPtr} {added : Bool} {handle : Option EpollEntryPtr}
    (h : e.add fd event added = (handle, e')) (hee : handle = some ee) : e.nextEntry ≤ ee := by
  rcases add_eq h with ⟨-, rfl, -⟩ | ⟨-, rfl, -⟩
  · cases hee
  · exact Nat.le_of_eq (Option.some.inj hee)

theorem add_retired {fd : ℤ} {event : SocketPtr} {added : Bool} {handle : Option EpollEntryPtr}
    (h : e.add fd event added = (handle, e')) : e'.retired = e.retired := by
  rcases add_eq h with ⟨-, -, rfl⟩ | ⟨-, -, size, rfl⟩
  · rfl
  · rfl

/-- `Del` clears the fd of the entry and puts it into `retired_list_`. -/
theorem del_eq (h : e.del (some ee) = .ok e') : ∃ en, e.entries ee = some en ∧
    e' = { e.setEntry ee (some { en with fd := kInvalidFd }) with
      retired := e.retired ++ [ee] } := by
  rw [del] at h
  cases hen : e.entry ee with
  | error f => rw [hen] at h; cases h
  | ok en =>
    rw [hen, ok_bind] at h
    exact ⟨en, entry_eq_ok hen, (Except.ok.inj h).symm⟩

theorem deleteAll_eq (l : List EpollEntryPtr) : ∀ {e e' : Epoll}, e.deleteAll l = .ok e' →
    l.Nodup ∧ (∀ ee ∈ l, e.entries ee ≠ none) ∧
      e' = { e with entries := fun ee => if ee ∈ l then none else e.entries ee } := by
  induction l with
  | nil =>
    intro e e' h
    obtain rfl := Except.ok.inj h
    exact ⟨.nil, by simp, by simp⟩
  | cons ee l ih =>
    intro e e' h
    rw [deleteAll, delete] at h
    cases hen : e.entry ee with
    | error f => rw [hen] at h; cases h
    | ok en =>
      rw [hen, ok_bind] at h
      obtain ⟨hnodup, hsome, rfl⟩ := ih h
      have hne : ee ∉ l := fun hmem => hsome ee hmem (setEntry_self ..)
      refine ⟨List.nodup_cons.mpr ⟨hne, hnodup⟩, fun ee' hmem => ?_, ?_⟩
      · rcases List.mem_cons.mp hmem with rfl | htail
        · rw [entry_eq_ok hen]
          nofun
        · have hsome' := hsome ee' htail
          have heq : ee' ≠ ee := by
            rintro rfl
            exact hne htail
          rwa [setEntry_ne _ _ heq] at hsome'
      · have hentries : (fun ee' => if ee' ∈ l then none else (e.setEntry ee none).entries ee') =
            fun ee' => if ee' ∈ ee :: l then none else e.entries ee' := by
          funext ee'
          by_cases heq : ee' = ee
          · subst heq
            rw [setEntry_self, ite_self, if_pos List.mem_cons_self]
          · rw [setEntry_ne _ _ heq]
            simp only [List.mem_cons, heq, false_or]
        rw [hentries]
        rfl

/-- `processRetired` deletes the entries of `retired_list_`, which are different and allocated. -/
theorem processRetired_eq (h : e.processRetired = .ok e') :
    e.retired.Nodup ∧ (∀ ee ∈ e.retired, e.entries ee ≠ none) ∧
      e' = { e with
        entries := fun ee => if ee ∈ e.retired then none else e.entries ee
        retired := [] } := by
  rw [processRetired] at h
  cases hdelete : e.deleteAll e.retired with
  | error f => rw [hdelete] at h; cases h
  | ok e₁ =>
    rw [hdelete] at h
    obtain rfl := Except.ok.inj h
    obtain ⟨hnodup, hsome, rfl⟩ := deleteAll_eq _ hdelete
    exact ⟨hnodup, hsome, rfl⟩

end Epoll

end ServerKit
