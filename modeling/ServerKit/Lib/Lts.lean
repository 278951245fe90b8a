/-!
# Labelled transition systems

A system is a relation `Step s l s'`: in state `s` the labelled event `l` may take the system to
`s'`. The label carries what the environment chooses (which party moves, with which arguments,
what a system call answers) and what the step returns, so a run is a list of labels.
-/

namespace ServerKit.Lib

universe u v w x

/-- A step relation with labels. -/
abbrev Lts (S : Type u) (L : Type v) := S → L → S → Prop

/-- A finite run: its labels in order, from the first state to the last. -/
inductive Run {S : Type u} {L : Type v} (Step : Lts S L) : S → List L → S → Prop
  | nil (s : S) : Run Step s [] s
  | cons {s s' s'' : S} {l : L} {ls : List L} : Step s l s' → Run Step s' ls s'' →
      Run Step s (l :: ls) s''

/-- A step relation cut down to the steps that meet `P`. -/
def Lts.restrict {S : Type u} {L : Type v} (Step : Lts S L) (P : S → L → Prop) : Lts S L :=
  fun s l s' => P s l ∧ Step s l s'

section Runs

variable {S : Type u} {L : Type v} {Step : Lts S L}

theorem Run.single {s s' : S} {l : L} (h : Step s l s') : Run Step s [l] s' :=
  .cons h (.nil s')

theorem Run.append {s s' s'' : S} {ls ms : List L} (h₁ : Run Step s ls s')
    (h₂ : Run Step s' ms s'') : Run Step s (ls ++ ms) s'' := by
  induction h₁ with
  | nil => exact h₂
  | cons hstep _ ih => exact .cons hstep (ih h₂)

/-- A run ends with its last step. -/
theorem Run.snoc {s s' s'' : S} {ls : List L} {l : L} (h : Run Step s ls s')
    (hstep : Step s' l s'') : Run Step s (ls ++ [l]) s'' :=
  h.append (.single hstep)

/-- Induction from the end of a run, for facts about all the labels so far. -/
theorem Run.snoc_induction {s₀ : S} {P : List L → S → Prop} (hnil : P [] s₀)
    (hsnoc : ∀ ls s l s', Run Step s₀ ls s → P ls s → Step s l s' → P (ls ++ [l]) s') :
    ∀ {ls s}, Run Step s₀ ls s → P ls s := by
  have key : ∀ {s s' : S} {ms : List L}, Run Step s ms s' → ∀ ls, Run Step s₀ ls s → P ls s →
      P (ls ++ ms) s' := by
    intro s s' ms h
    induction h with
    | nil => intro ls _ hp; simpa using hp
    | @cons s s' s'' l ms hstep _ ih =>
      intro ls hrun hp
      have := ih (ls ++ [l]) (hrun.snoc hstep) (hsnoc _ _ _ _ hrun hp hstep)
      simpa [List.append_assoc] using this
  intro ls s h
  exact key h [] (.nil s₀) hnil

/-- **The invariant rule**: what the first state has and every step keeps holds after any run. -/
theorem Run.invariant (Inv : S → Prop) (hstep : ∀ s l s', Inv s → Step s l s' → Inv s')
    {s s' : S} {ls : List L} (h : Run Step s ls s') (h₀ : Inv s) : Inv s' := by
  induction h with
  | nil => exact h₀
  | cons hs _ ih => exact ih (hstep _ _ _ h₀ hs)

/-- **The conservation rule**: when every step appends what it puts out to a list kept in the
state, a run appends all that it puts out. -/
theorem Run.conserve {X : Type w} (Inv : S → Prop)
    (hstep : ∀ s l s', Inv s → Step s l s' → Inv s') (f : S → List X) (out : L → List X)
    (hout : ∀ s l s', Inv s → Step s l s' → f s ++ out l = f s')
    {s s' : S} {ls : List L} (h : Run Step s ls s') (h₀ : Inv s) :
    f s ++ ls.flatMap out = f s' := by
  induction h with
  | nil => simp
  | cons hs _ ih =>
    rw [List.flatMap_cons, ← List.append_assoc, hout _ _ _ h₀ hs]
    exact ih (hstep _ _ _ h₀ hs)

/-- **The balance rule**: when every step takes what it puts out from the front of a list kept in
the state, to whose end it adds what it takes in, what a run puts out and what is then in the list
is what was in the list and what the run has taken in. -/
theorem Run.balance {X : Type w} (f : S → List X) (ins outs : L → List X)
    (hstep : ∀ s l s', Step s l s' → f s ++ ins l = outs l ++ f s') {s s' : S} {ls : List L}
    (h : Run Step s ls s') : f s ++ ls.flatMap ins = ls.flatMap outs ++ f s' := by
  induction h with
  | nil => simp
  | cons hs _ ih =>
    rw [List.flatMap_cons, List.flatMap_cons, ← List.append_assoc, hstep _ _ _ hs,
      List.append_assoc, ih, List.append_assoc]

/-- **The projection rule**: when every step is a run of a component, or nothing to it, a run is a
run of the component. -/
theorem Run.project {T : Type w} {M : Type x} {Step' : Lts T M} (f : S → T) (proj : L → List M)
    (hstep : ∀ s l s', Step s l s' → Run Step' (f s) (proj l) (f s')) {s s' : S} {ls : List L}
    (h : Run Step s ls s') : Run Step' (f s) (ls.flatMap proj) (f s') := by
  induction h with
  | nil s => exact .nil (f s)
  | cons hs _ ih =>
    rw [List.flatMap_cons]
    exact (hstep _ _ _ hs).append ih

theorem Run.of_restrict {P : S → L → Prop} {s s' : S} {ls : List L}
    (h : Run (Lts.restrict Step P) s ls s') : Run Step s ls s' := by
  induction h with
  | nil s => exact .nil s
  | cons hs _ ih => exact .cons hs.2 ih

end Runs

section Open

variable {L : Type v} {opens closes : L → Prop} {ls : List L}

/-- An event of the run opens, and none behind it closes. -/
def Open (opens closes : L → Prop) (ls : List L) : Prop :=
  ∃ ls₁ l ls₂, ls = ls₁ ++ l :: ls₂ ∧ opens l ∧ ∀ m ∈ ls₂, ¬ closes m

theorem not_open_nil : ¬ Open opens closes [] := by
  rintro ⟨ls₁, l, ls₂, h, -⟩
  simp at h

theorem open_snoc {l : L} :
    Open opens closes (ls ++ [l]) ↔ opens l ∨ Open opens closes ls ∧ ¬ closes l := by
  constructor
  · rintro ⟨ls₁, x, ls₂, h, hx, hclosed⟩
    rcases List.eq_nil_or_concat ls₂ with rfl | ⟨ls₂, y, rfl⟩
    · obtain ⟨-, heq⟩ := List.append_inj' h rfl
      obtain rfl := List.singleton_inj.mp heq
      exact .inl hx
    · rw [List.concat_eq_append, ← List.cons_append, ← List.append_assoc] at h
      obtain ⟨hls, heq⟩ := List.append_inj' h rfl
      obtain rfl := List.singleton_inj.mp heq
      refine .inr ⟨⟨ls₁, x, ls₂, hls, hx, fun m hm => ?_⟩, ?_⟩
      · exact hclosed m (by simp [hm])
      · exact hclosed l (by simp)
  · rintro (hl | ⟨⟨ls₁, x, ls₂, rfl, hx, hclosed⟩, hl⟩)
    · exact ⟨ls, l, [], rfl, hl, by simp⟩
    · refine ⟨ls₁, x, ls₂ ++ [l], by simp, hx, fun m hm => ?_⟩
      rcases List.mem_append.mp hm with hm | hm
      · exact hclosed m hm
      · rwa [List.mem_singleton.mp hm]

end Open

/-- The entries of a history that has grown by one. -/
theorem getElem?_snoc {X : Type u} {xs : List X} {x y : X} {i : Nat} :
    (xs ++ [x])[i]? = some y ↔ xs[i]? = some y ∨ i = xs.length ∧ x = y := by
  rcases Nat.lt_trichotomy i xs.length with hlt | rfl | hgt
  · rw [List.getElem?_append_left hlt]
    constructor
    · exact .inl
    · rintro (h | ⟨rfl, -⟩)
      · exact h
      · exact absurd hlt (Nat.lt_irrefl _)
  · rw [List.getElem?_concat_length]
    simp
  · have hlen : (xs ++ [x]).length ≤ i := by
      rw [List.length_append]
      exact hgt
    rw [List.getElem?_eq_none hlen]
    constructor
    · nofun
    · rintro (h | ⟨rfl, -⟩)
      · exact absurd (List.getElem?_eq_some_iff.mp h).1 (Nat.lt_asymm hgt)
      · exact absurd hgt (Nat.lt_irrefl _)

section Simulation

variable {S : Type u} {T : Type w} {L : Type v} {Step : Lts S L} {Spec : Lts T L}

/-- **Forward simulation**: when every step from a related pair is matched by a step of the
specification with the same label, every run is matched by a run with the same labels. -/
theorem Run.simulate {R : S → T → Prop}
    (hsim : ∀ s l s' t, R s t → Step s l s' → ∃ t', Spec t l t' ∧ R s' t')
    {s s' : S} {ls : List L} (h : Run Step s ls s') :
    ∀ t, R s t → ∃ t', Run Spec t ls t' ∧ R s' t' := by
  induction h with
  | nil s => intro t hr; exact ⟨t, .nil t, hr⟩
  | cons hs _ ih =>
    intro t hr
    obtain ⟨t₁, hspec, hr₁⟩ := hsim _ _ _ _ hr hs
    obtain ⟨t₂, hrun, hr₂⟩ := ih t₁ hr₁
    exact ⟨t₂, .cons hspec hrun, hr₂⟩

end Simulation

end ServerKit.Lib
