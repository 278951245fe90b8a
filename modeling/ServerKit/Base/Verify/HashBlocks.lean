import ServerKit.Base.Hash
import ServerKit.Lib.Mixing

/-!
# Names that cannot share a hash

`MurmurHash64A` keeps one word and mixes every block into it reversibly. Two keys of the same length
that differ in one aligned block only, or only behind the last block, never have the same hash.
-/

namespace ServerKit

open Lib

theorem murmurM_inverse : murmurM * 0x5f7a0ea7e59b19bd = 1 := by decide

theorem mul_murmurM_injective : Function.Injective fun x : UInt64 => x * murmurM :=
  mul_injective_of_inverse murmurM_inverse

/-! ## The blocks -/

theorem murmurBlock_injective : Function.Injective murmurBlock := fun x y h => by
  have hxor : x * murmurM ^^^ (x * murmurM) >>> 47 = y * murmurM ^^^ (y * murmurM) >>> 47 :=
    mul_murmurM_injective h
  exact mul_murmurM_injective (xorShift_injective (r := 47) (by decide) hxor)

theorem murmurFinish_injective : Function.Injective murmurFinish := fun x y h => by
  have hmul : (x ^^^ x >>> 47) * murmurM = (y ^^^ y >>> 47) * murmurM :=
    xorShift_injective (r := 47) (by decide) h
  exact xorShift_injective (r := 47) (by decide) (mul_murmurM_injective hmul)

theorem murmurBlocks_snd (n : ℕ) (h : UInt64) (data : List UInt8) :
    (murmurBlocks n h data).2 = data.drop (8 * n) := by
  induction n generalizing h data with
  | zero => rfl
  | succ n ih =>
    rw [murmurBlocks, ih, List.drop_drop, Nat.mul_succ, Nat.add_comm]

/-- The loop over two stretches of the key. -/
theorem murmurBlocks_append {n : ℕ} {p : List UInt8} (hp : p.length = 8 * n) (m : ℕ) (h : UInt64)
    (q : List UInt8) : murmurBlocks (n + m) h (p ++ q) =
    murmurBlocks m (murmurBlocks n h p).1 q := by
  induction n generalizing h p with
  | zero =>
    obtain rfl := List.length_eq_zero_iff.mp hp
    rw [Nat.zero_add]
    rfl
  | succ n ih =>
    have hle : 8 ≤ p.length := by omega
    have hdrop : (p.drop 8).length = 8 * n := by
      rw [List.length_drop]
      omega
    rw [Nat.add_right_comm, murmurBlocks, List.take_append_of_le_length hle,
      List.drop_append_of_le_length hle, ih hdrop]
    rfl

/-- The word keeps what came before the blocks. -/
theorem murmurBlocks_injective (n : ℕ) (data : List UInt8) :
    Function.Injective fun h => (murmurBlocks n h data).1 := by
  induction n generalizing data with
  | zero => exact fun _ _ h => h
  | succ n ih =>
    intro h h' heq
    exact (UInt64.xor_left_inj _).mp (mul_murmurM_injective (ih (data.drop 8) heq))

/-! ## The tail -/

/-- The `switch` folds what is behind the last block into one word. -/
theorem murmurTail_eq {data : List UInt8} (n : ℕ) (hn : n < 8) (hlen : n < data.length)
    (h : UInt64) :
    murmurTail data (n + 1) h = (h ^^^ bytesWord (data.take (n + 1))) * murmurM := by
  induction n generalizing h with
  | zero =>
    rw [bytesWord_take_succ_xor hlen hn]
    simp [murmurTail, bytesWord, leNat]
  | succ n ih =>
    rw [murmurTail, ih (by omega) (by omega), bytesWord_take_succ_xor hlen hn]
    congr 1
    rw [UInt64.xor_assoc, UInt64.xor_comm (bytesWord _)]

/-- The word keeps what came before the tail. -/
theorem murmurTail_word_injective {data : List UInt8} (h8 : data.length < 8) :
    Function.Injective (murmurTail data data.length) := by
  intro h h' heq
  cases hn : data.length with
  | zero =>
    rw [hn] at heq
    exact heq
  | succ n =>
    rw [hn, murmurTail_eq n (by omega) (by omega), murmurTail_eq n (by omega) (by omega)] at heq
    exact (UInt64.xor_left_inj _).mp (mul_murmurM_injective heq)

theorem murmurTail_injective {x y : List UInt8} (hxy : x.length = y.length) (h8 : x.length < 8)
    {h : UInt64} (heq : murmurTail x x.length h = murmurTail y y.length h) : x = y := by
  cases hn : x.length with
  | zero =>
    rw [List.length_eq_zero_iff.mp hn, List.length_eq_zero_iff.mp (hxy.symm.trans hn)]
  | succ n =>
    have hy : y.length = n + 1 := by omega
    rw [hn, hy, murmurTail_eq n (by omega) (by omega), murmurTail_eq n (by omega) (by omega)] at heq
    have hword := (UInt64.xor_right_inj h).mp (mul_murmurM_injective heq)
    rw [← hn, List.take_length, hn, ← hy, List.take_length] at hword
    exact bytesWord_injective hxy (by omega) hword

/-! ## The whole key -/

/-- The word in front of the loop. -/
def murmurStart (seed : UInt64) (length : ℕ) : UInt64 :=
  seed ^^^ (UInt64.ofNat ((length : ℤ) % 2 ^ 64).toNat * murmurM)

theorem murmurHash64A_eq (key : List UInt8) (seed : UInt64) :
    murmurHash64A key key.length seed = .ok (murmurFinish (murmurTail
      (key.drop (8 * (key.length / 8))) (key.length % 8)
      (murmurBlocks (key.length / 8) (murmurStart seed key.length) key).1)) := by
  have hdiv : ((key.length : ℤ).tdiv 8) = ((key.length / 8 : ℕ) : ℤ) := by
    rw [Int.tdiv_eq_ediv_of_nonneg (Int.natCast_nonneg _)]
    rfl
  have hmod : ((key.length : ℤ) % 8).toNat = key.length % 8 := by omega
  unfold murmurHash64A
  rw [if_neg (by omega), hdiv, Int.toNat_natCast, hmod, ← murmurBlocks_snd]
  rfl

/-- The hash of a key, as a function of one of its blocks. -/
theorem murmurHash64A_block {n : ℕ} {p x : List UInt8} (hp : p.length = 8 * n) (hx : x.length = 8)
    (q : List UInt8) (seed : UInt64) :
    murmurHash64A (p ++ (x ++ q)) (p ++ (x ++ q)).length seed =
      .ok (murmurFinish (murmurTail (q.drop (8 * (q.length / 8)))
        (q.drop (8 * (q.length / 8))).length (murmurBlocks (q.length / 8)
          (((murmurBlocks n (murmurStart seed (8 * n + 8 + q.length)) p).1 ^^^
            murmurBlock (bytesWord x)) * murmurM) q).1)) := by
  have hlen : (p ++ (x ++ q)).length = 8 * n + 8 + q.length := by
    rw [List.length_append, List.length_append, hp, hx, Nat.add_assoc]
  have hcount : (8 * n + 8 + q.length) / 8 = n + (1 + q.length / 8) := by omega
  have hmod : (8 * n + 8 + q.length) % 8 = (q.drop (8 * (q.length / 8))).length := by
    rw [List.length_drop]
    omega
  have hcut : 8 * (n + (1 + q.length / 8)) = (p ++ x).length + 8 * (q.length / 8) := by
    rw [List.length_append, hp, hx]
    omega
  have hdrop : (p ++ (x ++ q)).drop (8 * (n + (1 + q.length / 8))) =
      q.drop (8 * (q.length / 8)) := by
    rw [hcut, ← List.append_assoc, List.drop_length_add_append]
  have htake : x.take 8 = x := List.take_of_length_le hx.le
  rw [murmurHash64A_eq, hlen, hcount, hdrop, hmod, murmurBlocks_append hp,
    murmurBlocks_append (n := 1) hx, murmurBlocks, htake]
  rfl

/-- The hash of a key, as a function of what is behind its last block. -/
theorem murmurHash64A_tail {n : ℕ} {p x : List UInt8} (hp : p.length = 8 * n) (hx : x.length < 8)
    (seed : UInt64) :
    murmurHash64A (p ++ x) (p ++ x).length seed =
      .ok (murmurFinish (murmurTail x x.length
        (murmurBlocks n (murmurStart seed (8 * n + x.length)) p).1)) := by
  have hlen : (p ++ x).length = 8 * n + x.length := by rw [List.length_append, hp]
  have hcount : (8 * n + x.length) / 8 = n + 0 := by omega
  have hmod : (8 * n + x.length) % 8 = x.length := by omega
  have hdrop : (p ++ x).drop (8 * (n + 0)) = x := by
    rw [Nat.add_zero, ← hp, List.drop_left]
  rw [murmurHash64A_eq, hlen, hcount, hdrop, hmod, murmurBlocks_append hp]
  rfl

theorem hashString_eq {str : List UInt8} (h : str.length < 2 ^ 31) :
    hashString str = murmurHash64A str str.length kServerKitHashSeed := by
  have hlen : Int.bmod str.length (2 ^ 32) = str.length := by
    rw [Int.bmod_eq_of_le]
    · omega
    · omega
  rw [hashString, hlen]
  rfl

/-- **Names that differ in one place have different hashes**: in one aligned block of eight bytes,
or in what is behind the last block, when the rest and the length are the same. -/
theorem hashString_neighbours {p x y q : List UInt8} (hp : p.length % 8 = 0)
    (hxy : x.length = y.length) (hx : x.length = 8 ∨ x.length < 8 ∧ q = [])
    (hlen : (p ++ (x ++ q)).length < 2 ^ 31) :
    hashString (p ++ (x ++ q)) = hashString (p ++ (y ++ q)) ↔ x = y := by
  refine ⟨fun h => ?_, fun h => by rw [h]⟩
  obtain ⟨n, hn⟩ : ∃ n, p.length = 8 * n := ⟨p.length / 8, by omega⟩
  have hlength : (p ++ (x ++ q)).length = (p ++ (y ++ q)).length := by simp [hxy]
  rw [hashString_eq hlen, hashString_eq (hlength ▸ hlen)] at h
  rcases hx with hx | ⟨hx, rfl⟩
  · rw [murmurHash64A_block hn hx, murmurHash64A_block hn (hxy ▸ hx)] at h
    -- what follows the block keeps the difference
    have htail := murmurFinish_injective (Except.ok.inj h)
    have hrest : (q.drop (8 * (q.length / 8))).length < 8 := by
      rw [List.length_drop]
      omega
    have hword := murmurBlocks_injective _ _ (murmurTail_word_injective hrest htail)
    have hblock := murmurBlock_injective ((UInt64.xor_right_inj _).mp (mul_murmurM_injective hword))
    exact bytesWord_injective hxy hx.le hblock
  · rw [List.append_nil, List.append_nil, murmurHash64A_tail hn hx,
      murmurHash64A_tail hn (hxy ▸ hx), ← hxy] at h
    have htail := murmurFinish_injective (Except.ok.inj h)
    exact murmurTail_injective hxy hx (by rw [htail, hxy])

/-- Two methods of one service. -/
theorem hashString_neighbours_echo :
    hashString [0x45, 0x63, 0x68, 0x6f, 0x2e, 0x65, 0x63, 0x68, 0x6f, 0x31] ≠
      hashString [0x45, 0x63, 0x68, 0x6f, 0x2e, 0x65, 0x63, 0x68, 0x6f, 0x32] :=
  mt (hashString_neighbours (p := [0x45, 0x63, 0x68, 0x6f, 0x2e, 0x65, 0x63, 0x68])
    (x := [0x6f, 0x31]) (y := [0x6f, 0x32]) (q := []) rfl rfl (.inr ⟨by simp, rfl⟩) (by simp)).mp
    (by simp)

end ServerKit
