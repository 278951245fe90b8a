import Mathlib.Data.Nat.Digits.Lemmas

/-!
# Decimal numerals as bytes

What `printf` makes of a number, and numerals of a fixed width, which compare as the numbers do.
`Ascending f n` says that `f` keeps the order below `n`; such texts compose (`Ascending.append`),
the more significant part first.
-/

namespace ServerKit.Lib

/-- The character of a digit. -/
def digit (d : ℕ) : UInt8 := UInt8.ofNat (48 + d)

/-- `%d` of a number that is not negative. -/
def decimal (n : ℕ) : List UInt8 :=
  if n = 0 then [digit 0] else (Nat.digits 10 n).reverse.map digit

/-- `%wd`, padded on the left with `c`. -/
def padded (c : UInt8) (w n : ℕ) : List UInt8 :=
  List.replicate (w - (decimal n).length) c ++ decimal n

/-- The last `w` digits of a number. -/
def fixed : ℕ → ℕ → List UInt8
  | 0, _ => []
  | w + 1, n => fixed w (n / 10) ++ [digit (n % 10)]

theorem decimal_of_lt {n : ℕ} (h : n < 10) : decimal n = [digit n] := by
  unfold decimal
  split
  · next h0 => rw [h0]
  · next h0 => rw [Nat.digits_of_lt 10 n h0 h]; rfl

theorem decimal_of_le {n : ℕ} (h : 10 ≤ n) : decimal n = decimal (n / 10) ++ [digit (n % 10)] := by
  have hdiv : n / 10 ≠ 0 := by omega
  unfold decimal
  rw [if_neg (by omega), if_neg hdiv, Nat.digits_def' (by decide) (by omega)]
  simp

theorem length_decimal_pos (n : ℕ) : 0 < (decimal n).length := by
  rcases Nat.lt_or_ge n 10 with h | h
  · simp [decimal_of_lt h]
  · simp [decimal_of_le h]

/-- A number from `10 ^ k` on has more than `k` digits. -/
theorem lt_length_decimal {k n : ℕ} (h : 10 ^ k ≤ n) : k < (decimal n).length := by
  induction k generalizing n with
  | zero => exact length_decimal_pos n
  | succ k ih =>
    have hpow : 10 ^ (k + 1) = 10 * 10 ^ k := Nat.pow_succ'
    have hpos : 0 < 10 ^ k := Nat.pow_pos (by decide)
    rw [decimal_of_le (by omega), List.length_append, List.length_singleton]
    exact Nat.succ_lt_succ (ih ((Nat.le_div_iff_mul_le (by decide)).mpr (by omega)))

theorem digit_injective {d e : ℕ} (hd : d < 10) (he : e < 10) (h : digit d = digit e) : d = e := by
  have hnat := congrArg UInt8.toNat h
  simp only [digit, UInt8.toNat_ofNat'] at hnat
  omega

/-- Numbers from 10 on have more than one digit. -/
theorem decimal_ne_of_lt_of_le {m n : ℕ} (hm : m < 10) (hn : 10 ≤ n) : decimal m ≠ decimal n := by
  intro h
  have hlen := congrArg List.length h
  have hlong := lt_length_decimal (k := 1) hn
  rw [decimal_of_lt hm, List.length_singleton] at hlen
  omega

theorem decimal_injective {m n : ℕ} (h : decimal m = decimal n) : m = n := by
  induction m using Nat.strong_induction_on generalizing n with
  | _ m ih =>
    rcases Nat.lt_or_ge m 10 with hm | hm
    · rcases Nat.lt_or_ge n 10 with hn | hn
      · rw [decimal_of_lt hm, decimal_of_lt hn] at h
        exact digit_injective hm hn (List.singleton_inj.mp h)
      · exact absurd h (decimal_ne_of_lt_of_le hm hn)
    · rcases Nat.lt_or_ge n 10 with hn | hn
      · exact absurd h.symm (decimal_ne_of_lt_of_le hn hm)
      · rw [decimal_of_le hm, decimal_of_le hn] at h
        obtain ⟨hdiv, hmod⟩ := List.append_inj' h rfl
        have hq := ih (m / 10) (by omega) hdiv
        have hr := digit_injective (Nat.mod_lt _ (by omega)) (Nat.mod_lt _ (by omega))
          (List.singleton_inj.mp hmod)
        omega

/-- A numeral has digits only. -/
theorem mem_decimal {n : ℕ} {c : UInt8} (h : c ∈ decimal n) : ∃ d, d < 10 ∧ c = digit d := by
  induction n using Nat.strong_induction_on with
  | _ n ih =>
    rcases Nat.lt_or_ge n 10 with hn | hn
    · rw [decimal_of_lt hn, List.mem_singleton] at h
      exact ⟨n, hn, h⟩
    · rw [decimal_of_le hn, List.mem_append, List.mem_singleton] at h
      rcases h with h | h
      · exact ih (n / 10) (by omega) h
      · exact ⟨n % 10, Nat.mod_lt _ (by omega), h⟩

@[simp] theorem length_fixed (w n : ℕ) : (fixed w n).length = w := by
  induction w generalizing n with
  | zero => rfl
  | succ w ih => simp [fixed, ih]

/-- A numeral has no NUL. -/
theorem zero_notMem_fixed (w n : ℕ) : (0 : UInt8) ∉ fixed w n := by
  induction w generalizing n with
  | zero => exact List.not_mem_nil
  | succ w ih =>
    have hd : n % 10 < 10 := Nat.mod_lt _ (by decide)
    have hne : (0 : UInt8) ≠ digit (n % 10) := by
      intro h
      have hnat := congrArg UInt8.toNat h
      simp only [digit, UInt8.toNat_ofNat', UInt8.toNat_zero] at hnat
      omega
    rw [fixed, List.mem_append, List.mem_singleton]
    exact fun h => h.elim (ih _) hne

theorem fixed_zero (w : ℕ) : fixed w 0 = List.replicate w (digit 0) := by
  induction w with
  | zero => rfl
  | succ w ih => rw [fixed, Nat.zero_div, ih, ← List.replicate_succ']

/-- `%0wd` of a number with at most `w` digits. -/
theorem padded_zero {w n : ℕ} (h : n < 10 ^ (w + 1)) :
    padded (digit 0) (w + 1) n = fixed (w + 1) n := by
  induction w generalizing n with
  | zero =>
    have h10 : n < 10 := by omega
    simp [padded, decimal_of_lt h10, fixed, Nat.mod_eq_of_lt h10]
  | succ w ih =>
    rcases Nat.lt_or_ge n 10 with h10 | h10
    · rw [fixed, Nat.div_eq_of_lt h10, fixed_zero, Nat.mod_eq_of_lt h10, padded, decimal_of_lt h10]
      rfl
    · have hdiv : n / 10 < 10 ^ (w + 1) := Nat.div_lt_of_lt_mul (by rwa [← Nat.pow_succ'])
      rw [fixed, ← ih hdiv, padded, decimal_of_le h10, padded, List.length_append,
        List.length_singleton, Nat.add_sub_add_right, List.append_assoc]

/-- The padding is not seen when the number fills the field. -/
theorem padded_full {c c' : UInt8} {w n : ℕ} (h : 10 ^ w ≤ n) :
    padded c (w + 1) n = padded c' (w + 1) n := by
  have hlen := lt_length_decimal h
  have hzero : w + 1 - (decimal n).length = 0 := by omega
  rw [padded, padded, hzero]
  rfl

/-! ## Order -/

section Order

variable {α : Type} [LT α]

/-- Texts of the same length in front decide first. -/
theorem append_lt_append {x₁ x₂ y₁ y₂ : List α} (hlen : x₁.length = x₂.length)
    (h : x₁ < x₂ ∨ x₁ = x₂ ∧ y₁ < y₂) : x₁ ++ y₁ < x₂ ++ y₂ := by
  induction x₁ generalizing x₂ with
  | nil =>
    obtain rfl := List.length_eq_zero_iff.mp hlen.symm
    rcases h with h | ⟨-, h⟩
    · cases h
    · exact h
  | cons a x₁ ih =>
    cases x₂ with
    | nil => cases hlen
    | cons b x₂ =>
      have hlen' : x₁.length = x₂.length := Nat.succ.inj hlen
      rw [List.cons_append, List.cons_append, List.cons_lt_cons_iff]
      rcases h with h | ⟨h, hy⟩
      · rcases List.cons_lt_cons_iff.mp h with hab | ⟨hab, hx⟩
        · exact .inl hab
        · exact .inr ⟨hab, ih hlen' (.inl hx)⟩
      · obtain ⟨hab, hx⟩ := List.cons.inj h
        exact .inr ⟨hab, ih hlen' (.inr ⟨hx, hy⟩)⟩

end Order

/-- Below `n`, the texts have one length and are in the order of the numbers. -/
structure Ascending (f : ℕ → List UInt8) (len n : ℕ) : Prop where
  length_eq : ∀ i, i < n → (f i).length = len
  lt : ∀ i j, i < j → j < n → f i < f j

namespace Ascending

variable {f g : ℕ → List UInt8} {len len' n k : ℕ}

/-- It is enough that each text is before the next. -/
theorem of_succ (hlen : ∀ i, i < n → (f i).length = len) (h : ∀ i, i + 1 < n → f i < f (i + 1)) :
    Ascending f len n := by
  refine ⟨hlen, fun i j hij hj => ?_⟩
  induction j with
  | zero => omega
  | succ j ih =>
    rcases Nat.lt_or_eq_of_le (Nat.lt_succ_iff.mp hij) with hlt | rfl
    · exact List.lt_trans (ih hlt (by omega)) (h j hj)
    · exact h i hj

/-- The order of the texts is that of the numbers. -/
theorem lt_iff (h : Ascending f len n) {i j : ℕ} (hi : i < n) (hj : j < n) : f i < f j ↔ i < j := by
  refine ⟨fun hlt => ?_, fun hlt => h.lt i j hlt hj⟩
  rcases Nat.lt_trichotomy i j with hij | rfl | hij
  · exact hij
  · exact absurd hlt (List.lt_irrefl _)
  · exact absurd (h.lt j i hij hi) (List.lt_asymm hlt)

/-- Different numbers have different texts. -/
theorem inj (h : Ascending f len n) {i j : ℕ} (hi : i < n) (hj : j < n) (heq : f i = f j) :
    i = j := by
  rcases Nat.lt_trichotomy i j with hij | rfl | hij
  · exact absurd (heq ▸ h.lt i j hij hj) (List.lt_irrefl _)
  · rfl
  · exact absurd (heq ▸ h.lt j i hij hi) (List.lt_irrefl _)

/-- **Composition**: the quotient, a separator, the remainder. -/
theorem append (hf : Ascending f len n) (hg : Ascending g len' k) (hk : 0 < k) (sep : List UInt8) :
    Ascending (fun i => f (i / k) ++ (sep ++ g (i % k))) (len + (sep.length + len')) (n * k) := by
  have hdiv : ∀ {i}, i < n * k → i / k < n := fun hi => (Nat.div_lt_iff_lt_mul hk).mpr hi
  have hmod : ∀ i, i % k < k := fun i => Nat.mod_lt i hk
  refine ⟨fun i hi => ?_, fun i j hij hj => ?_⟩
  · rw [List.length_append, List.length_append, hf.length_eq _ (hdiv hi), hg.length_eq _ (hmod i)]
  · have hi : i < n * k := hij.trans hj
    refine append_lt_append ?_ ?_
    · rw [hf.length_eq _ (hdiv hi), hf.length_eq _ (hdiv hj)]
    · rcases Nat.lt_or_ge (i / k) (j / k) with hq | hq
      · exact .inl (hf.lt _ _ hq (hdiv hj))
      · have heq : i / k = j / k := Nat.le_antisymm (Nat.div_le_div_right hij.le) hq
        have hr : i % k < j % k := by
          have hi' := Nat.div_add_mod i k
          have hj' := Nat.div_add_mod j k
          rw [heq] at hi'
          omega
        exact .inr ⟨by rw [heq], append_lt_append rfl (.inr ⟨rfl, hg.lt _ _ hr (hmod j)⟩)⟩

theorem mono (h : Ascending f len n) (hkn : k ≤ n) : Ascending f len k :=
  ⟨fun i hi => h.length_eq i (hi.trans_le hkn), fun i j hij hj => h.lt i j hij (hj.trans_le hkn)⟩

theorem congr (h : Ascending f len n) (hfg : ∀ i, i < n → g i = f i) : Ascending g len n :=
  ⟨fun i hi => (hfg i hi).symm ▸ h.length_eq i hi, fun i j hij hj => by
    rw [hfg i (hij.trans hj), hfg j hj]
    exact h.lt i j hij hj⟩

end Ascending

theorem digit_lt {i j : ℕ} (hij : i < j) (hj : j < 10) : digit i < digit j := by
  rw [UInt8.lt_iff_toNat_lt]
  simp only [digit, UInt8.toNat_ofNat']
  omega

/-- **Numerals of a fixed width compare as the numbers.** -/
theorem ascending_fixed (w : ℕ) : Ascending (fixed w) w (10 ^ w) := by
  induction w with
  | zero =>
    exact ⟨fun _ _ => rfl, fun i j hij hj => absurd hj (by omega)⟩
  | succ w ih =>
    have hdigit : Ascending (fun d => [digit d]) 1 10 :=
      ⟨fun _ _ => rfl, fun i j hij hj => List.cons_lt_cons_iff.mpr (.inl (digit_lt hij hj))⟩
    exact ih.append hdigit (by decide) []

end ServerKit.Lib
