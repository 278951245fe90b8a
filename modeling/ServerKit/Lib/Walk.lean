import Mathlib.Data.List.Chain

/-!
# Walks along a partial successor

`Walk next start w`: following `next` from `start` until there is no successor visits `w`. This is
what a loop over a NULL-terminated linked list visits; a list that is not terminated, because it
runs into a cycle, has no walk.
-/

namespace ServerKit.Lib

universe u

/-- The elements visited from `start` to the end. -/
inductive Walk {α : Type u} (next : α → Option α) : Option α → List α → Prop
  | nil : Walk next none []
  | cons {p : α} {w : List α} : Walk next (next p) w → Walk next (some p) (p :: w)

namespace Walk

variable {α : Type u} {next next' : α → Option α} {start : Option α} {w c : List α}

theorem congr (h : Walk next start w) (hag : ∀ p, next' p = next p) : Walk next' start w := by
  induction h with
  | nil => exact .nil
  | cons _ ih => exact .cons (by rw [hag]; exact ih)

/-- A chain of successors followed by the walk from its last element. -/
theorem of_isChain {p : α} (hc : (c ++ [p]).IsChain fun a b => next a = some b)
    (hw : Walk next (next p) w) : Walk next (c ++ [p]).head? (c ++ [p] ++ w) := by
  induction c with
  | nil => exact .cons hw
  | cons a c ih =>
    have hrest := List.isChain_cons.mp hc
    refine .cons ?_
    have hnext : next a = (c ++ [p]).head? := by
      obtain ⟨b, hb⟩ : ∃ b, (c ++ [p]).head? = some b := by
        cases c <;> simp
      rw [hb]
      exact hrest.1 b hb
    rw [hnext]
    exact ih hrest.2

/-- A walk that starts along a chain of successors goes on behind its last element. -/
theorem exists_append {p : α} (hc : (c ++ [p]).IsChain fun a b => next a = some b)
    (hw : Walk next (c ++ [p]).head? w) : ∃ w', w = c ++ [p] ++ w' ∧ Walk next (next p) w' := by
  induction c generalizing w with
  | nil =>
    cases hw with
    | cons hw => exact ⟨_, rfl, hw⟩
  | cons a c ih =>
    have hrest := List.isChain_cons.mp hc
    cases hw with
    | @cons _ w hw =>
      have hnext : next a = (c ++ [p]).head? := by
        obtain ⟨b, hb⟩ : ∃ b, (c ++ [p]).head? = some b := by
          cases c <;> simp
        rw [hb]
        exact hrest.1 b hb
      rw [hnext] at hw
      obtain ⟨w', rfl, hw'⟩ := ih hrest.2 hw
      exact ⟨w', rfl, hw'⟩

end Walk

end ServerKit.Lib
