/-!
# Outcomes of computations that may fault

`Outcome E Q r` reads a computation `r : Except ε α` as a triple's conclusion: when it returns, the
value satisfies `Q`, and when it faults, the fault is one of those `E` admits. The rules compose
along `bind`, so a specification of each operation is enough to verify a loop that calls it.
-/

namespace ServerKit.Lib

universe u v w

@[simp] theorem ok_bind {ε : Type u} {α β : Type v} (a : α) (f : α → Except ε β) :
    (Except.ok a >>= f) = f a := rfl

/-- What has returned when a composition has. -/
theorem bind_eq_ok {ε : Type u} {α β : Type v} {r : Except ε α} {f : α → Except ε β} {b : β} :
    (r >>= f) = .ok b ↔ ∃ a, r = .ok a ∧ f a = .ok b := by
  cases r with
  | ok a =>
    constructor
    · intro h
      exact ⟨a, rfl, h⟩
    · rintro ⟨a', ha, h⟩
      obtain rfl := Except.ok.inj ha
      exact h
  | error e =>
    constructor
    · intro h
      cases h
    · rintro ⟨a, ha, -⟩
      cases ha

/-- The value satisfies `Q`, or the fault satisfies `E`. -/
def Outcome {ε : Type u} {α : Type v} (E : ε → Prop) (Q : α → Prop) : Except ε α → Prop
  | .ok a => Q a
  | .error e => E e

namespace Outcome

variable {ε : Type u} {α : Type v} {E : ε → Prop} {Q : α → Prop}

@[simp] theorem ok_iff {a : α} : Outcome E Q (.ok a) ↔ Q a := Iff.rfl

@[simp] theorem pure_iff {a : α} : Outcome E Q (pure a : Except ε α) ↔ Q a := Iff.rfl

@[simp] theorem error_iff {e : ε} : Outcome E Q (.error e : Except ε α) ↔ E e := Iff.rfl

theorem mono {Q' : α → Prop} {r : Except ε α} (h : Outcome E Q r) (hQ : ∀ a, Q a → Q' a) :
    Outcome E Q' r := by
  cases r with
  | ok a => exact hQ a h
  | error e => exact h

/-- **The bind rule**: the continuation is verified under the first computation's
postcondition. -/
theorem bind {β : Type v} {Q' : β → Prop} {r : Except ε α} {f : α → Except ε β}
    (h : Outcome E Q r) (hf : ∀ a, Q a → Outcome E Q' (f a)) : Outcome E Q' (r >>= f) := by
  cases r with
  | ok a => exact hf a h
  | error e => exact h

theorem mono_fault {E' : ε → Prop} {r : Except ε α} (h : Outcome E Q r) (hE : ∀ e, E e → E' e) :
    Outcome E' Q r := by
  cases r with
  | ok a => exact h
  | error e => exact hE e h

/-- A computation with no fault to admit returns. -/
theorem exists_ok {r : Except ε α} (h : Outcome (fun _ => False) Q r) : ∃ a, r = .ok a ∧ Q a := by
  cases r with
  | ok a => exact ⟨a, rfl, h⟩
  | error e => exact h.elim

/-- What a returned value satisfies. -/
theorem of_eq_ok {r : Except ε α} {a : α} (h : Outcome E Q r) (hr : r = .ok a) : Q a := by
  subst hr
  exact h

end Outcome

section Refines

variable {ε : Type u} {α α' : Type v} {E : ε → Prop} {R : α → α' → Prop}

/-- The first computation does what the second does: it returns a related value, or faults as the
second does, or with one of the faults `E` admits. -/
def Refines (E : ε → Prop) (R : α → α' → Prop) (r : Except ε α) (r' : Except ε α') : Prop :=
  Outcome (fun e => E e ∨ r' = .error e) (fun a => ∃ a', r' = .ok a' ∧ R a a') r

namespace Refines

theorem ok {a : α} {a' : α'} (h : R a a') : Refines E R (.ok a) (.ok a') := ⟨a', rfl, h⟩

theorem error {e : ε} : Refines E R (.error e) (.error e) := Or.inr rfl

theorem of_outcome {a' : α'} {r : Except ε α} (h : Outcome E (fun a => R a a') r) :
    Refines E R r (.ok a') := by
  cases r with
  | ok a => exact ⟨a', rfl, h⟩
  | error e => exact Or.inl h

/-- **The bind rule**: related continuations of related computations are related. -/
theorem bind {γ γ' : Type v} {S : γ → γ' → Prop} {r : Except ε α} {r' : Except ε α'}
    {f : α → Except ε γ} {f' : α' → Except ε γ'} (h : Refines E R r r')
    (hf : ∀ a a', R a a' → Refines E S (f a) (f' a')) : Refines E S (r >>= f) (r' >>= f') := by
  cases r with
  | ok a =>
    obtain ⟨a', rfl, hR⟩ := h
    exact hf a a' hR
  | error e =>
    rcases h with h | rfl
    · exact Or.inl h
    · exact Or.inr rfl

/-- Against a computation that returns. -/
theorem outcome {r : Except ε α} {a' : α'} (h : Refines E R r (.ok a')) :
    Outcome E (fun a => R a a') r := by
  cases r with
  | ok a =>
    obtain ⟨a'', heq, hR⟩ := h
    obtain rfl := Except.ok.inj heq
    exact hR
  | error e =>
    rcases h with h | h
    · exact h
    · cases h

end Refines

end Refines

section ReturnsIff

variable {ε : Type u} {α : Type v} {P : Prop} {Q : α → Prop}

/-- The computation returns exactly when `P` holds, and then with a value that satisfies `Q`. -/
def ReturnsIff (P : Prop) (Q : α → Prop) (r : Except ε α) : Prop :=
  ((∃ a, r = .ok a) ↔ P) ∧ ∀ a, r = .ok a → Q a

namespace ReturnsIff

theorem ok {a : α} (hP : P) (hQ : Q a) : ReturnsIff P Q (.ok a : Except ε α) := by
  refine ⟨⟨fun _ => hP, fun _ => ⟨a, rfl⟩⟩, fun a' h => ?_⟩
  obtain rfl := Except.ok.inj h
  exact hQ

theorem error {e : ε} (hP : ¬ P) : ReturnsIff P Q (.error e : Except ε α) := by
  refine ⟨⟨?_, fun h => absurd h hP⟩, ?_⟩
  · rintro ⟨a, h⟩
    cases h
  · intro a h
    cases h

theorem congr {P' : Prop} {Q' : α → Prop} {r : Except ε α} (h : ReturnsIff P Q r) (hP : P ↔ P')
    (hQ : ∀ a, Q a → Q' a) : ReturnsIff P' Q' r :=
  ⟨h.1.trans hP, fun a ha => hQ a (h.2 a ha)⟩

/-- **The bind rule**: the continuation may use that the first computation has returned. -/
theorem bind {β : Type v} {P' : Prop} {Q' : β → Prop} {r : Except ε α} {f : α → Except ε β}
    (h : ReturnsIff P Q r) (hf : ∀ a, P → Q a → ReturnsIff P' Q' (f a)) :
    ReturnsIff (P ∧ P') Q' (r >>= f) := by
  cases r with
  | ok a =>
    have hP : P := h.1.mp ⟨a, rfl⟩
    exact (hf a hP (h.2 a rfl)).congr (by simp [hP]) fun _ => id
  | error e =>
    have hP : ¬ P := fun hP => by
      obtain ⟨a, ha⟩ := h.1.mpr hP
      cases ha
    exact .error fun h => hP h.1

end ReturnsIff

end ReturnsIff

end ServerKit.Lib
