import ServerKit.Util.Lookup8
import ServerKit.Lib.Mixing

/-!
# One hash in three ways, and what it keeps apart

A word put together from bytes is the word in memory, so `hash2` and the aligned loop of `hash3` are
`hash`. Every round mixes the three words of the state reversibly, and the last one adds the rest of
the key and its length to separate bytes of them.
-/

namespace ServerKit

open Lib

namespace Lookup8

/-! ## Words -/

theorem wordAt_eq_byteWord {k : List UInt8} {i : ℕ} (h : i + 8 ≤ k.length) :
    wordAt k i = byteWord k i := by
  have hlen : 8 ≤ (k.drop i).length := by
    rw [List.length_drop]
    omega
  rw [wordAt, bytesWord_take_succ (by omega) (by omega), bytesWord_take_succ (by omega) (by omega),
    bytesWord_take_succ (by omega) (by omega), bytesWord_take_succ (by omega) (by omega),
    bytesWord_take_succ (by omega) (by omega), bytesWord_take_succ (by omega) (by omega),
    bytesWord_take_succ (by omega) (by omega), bytesWord_take_succ (by omega) (by omega)]
  simp [byteWord, bytesWord, leNat]

theorem blocks_word {n : ℕ} (s : State) {k : List UInt8} (h : 24 * n ≤ k.length) :
    blocks wordAt n s k = blocks byteWord n s k := by
  induction n generalizing s k with
  | zero => rw [blocks, blocks]
  | succ n ih =>
    rw [blocks, blocks, wordAt_eq_byteWord (by omega), wordAt_eq_byteWord (by omega),
      wordAt_eq_byteWord (by omega)]
    exact ih _ (by rw [List.length_drop]; omega)

theorem finish_word (k : List UInt8) (level : UInt64) :
    finish wordAt k level = finish byteWord k level := by
  rw [finish, finish, blocks_word _ (by omega)]

/-! ## Keys of words -/

/-- The bytes of a key of words. -/
def keyBytes (k : List UInt64) : List UInt8 := k.flatMap wordBytes

theorem keyBytes_cons (w : UInt64) (k : List UInt64) :
    keyBytes (w :: k) = wordBytes w ++ keyBytes k := List.flatMap_cons

theorem length_keyBytes (k : List UInt64) : (keyBytes k).length = 8 * k.length := by
  induction k with
  | nil => rfl
  | cons w k ih =>
    rw [keyBytes_cons, List.length_append, wordBytes_length, ih, List.length_cons]
    omega

theorem drop_keyBytes (n : ℕ) (k : List UInt64) :
    (keyBytes k).drop (8 * n) = keyBytes (k.drop n) := by
  induction n generalizing k with
  | zero => rfl
  | succ n ih =>
    cases k with
    | nil => rw [keyBytes, List.flatMap_nil, List.drop_nil, List.drop_nil]; rfl
    | cons w k =>
      have hcut : 8 * (n + 1) = (wordBytes w).length + 8 * n := by
        rw [wordBytes_length]
        omega
      rw [keyBytes_cons, hcut, List.drop_length_add_append, ih, List.drop_succ_cons]

theorem wordAt_keyBytes {n : ℕ} {k : List UInt64} (h : n < k.length) :
    wordAt (keyBytes k) (8 * n) = k.getD n 0 := by
  have hcons : k.drop n = k[n] :: k.drop (n + 1) := List.drop_eq_getElem_cons h
  have htake : (keyBytes (k.drop n)).take 8 = wordBytes k[n] := by
    rw [hcons, keyBytes_cons, ← wordBytes_length k[n], List.take_left]
  rw [wordAt, drop_keyBytes, htake, bytesWord_wordBytes]
  simp [h]

theorem blocks_keyBytes {n : ℕ} (s : State) {k : List UInt64} (h : 3 * n ≤ k.length) :
    blocks wordAt n s (keyBytes k) = ((blocks2 n s k).1, keyBytes (blocks2 n s k).2) := by
  induction n generalizing s k with
  | zero => rfl
  | succ n ih =>
    rw [blocks, blocks2, ← wordAt_keyBytes (by omega : 0 < k.length),
      ← wordAt_keyBytes (by omega : 1 < k.length), ← wordAt_keyBytes (by omega : 2 < k.length),
      drop_keyBytes 3, ih _ (by rw [List.length_drop]; omega)]

theorem length_blocks2 (n : ℕ) (s : State) (k : List UInt64) :
    (blocks2 n s k).2.length = k.length - 3 * n := by
  induction n generalizing s k with
  | zero => rfl
  | succ n ih =>
    rw [blocks2, ih, List.length_drop]
    omega

/-! ## The last bytes -/

/-- What the `switch` adds to the state. -/
theorem tail_eq {k : List UInt8} {n : ℕ} (hn : n ≤ 23) (hlen : n ≤ k.length) (s : State) :
    tail k n s = ⟨s.a + bytesWord (k.take (min n 8)),
      s.b + bytesWord ((k.drop 8).take (min (n - 8) 8)),
      s.c + UInt64.ofNat (256 * leNat ((k.drop 16).take (n - 16)))⟩ := by
  have hget : ∀ i j, (k.drop i).getD j 0 = k.getD (i + j) 0 := fun i j => by
    simp [List.getD_eq_getElem?_getD]
  induction n generalizing s with
  | zero => simp [tail, bytesWord, leNat]
  | succ n ih =>
    rw [tail, ih (by omega) (by omega)]
    by_cases h8 : n < 8
    · have hmin : min n 8 = n := by omega
      have hmin' : min (n + 1) 8 = n + 1 := by omega
      have hb : n - 8 = n + 1 - 8 := by omega
      have hc : n - 16 = n + 1 - 16 := by omega
      rw [if_pos h8, hmin, hmin', hb, hc, bytesWord_take_succ (by omega) h8]
      congr 1
      rw [UInt64.add_assoc, UInt64.add_comm (_ <<< _)]
    · rw [if_neg h8]
      by_cases h16 : n < 16
      · have hmin : min n 8 = min (n + 1) 8 := by omega
        have hb : min (n - 8) 8 = n - 8 := by omega
        have hb' : min (n + 1 - 8) 8 = n - 8 + 1 := by omega
        have hc : n - 16 = n + 1 - 16 := by omega
        have hk : k.getD n 0 = (k.drop 8).getD (n - 8) 0 := by
          rw [hget]
          congr 1
          omega
        rw [if_pos h16, hmin, hb, hb', hc, hk,
          bytesWord_take_succ (by rw [List.length_drop]; omega) (by omega)]
        congr 1
        rw [UInt64.add_assoc, UInt64.add_comm (_ <<< _)]
      · have hmin : min n 8 = min (n + 1) 8 := by omega
        have hb : min (n - 8) 8 = min (n + 1 - 8) 8 := by omega
        have hc : n + 1 - 16 = n - 16 + 1 := by omega
        have hk : k.getD n 0 = (k.drop 16).getD (n - 16) 0 := by
          rw [hget]
          congr 1
          omega
        have hplace : n - 15 = n - 16 + 1 := by omega
        rw [if_neg h16, hmin, hb, hc, hk, byte_shiftLeft (by omega),
          leNat_take_succ (by rw [List.length_drop]; omega), hplace, Nat.mul_add, UInt64.ofNat_add]
        congr 1
        rw [UInt64.add_assoc, UInt64.add_comm (UInt64.ofNat _) (UInt64.ofNat _)]
        congr 3
        ring

/-- The `switch` over a key of words. -/
theorem tail_keyBytes {k : List UInt64} (h : k.length < 3) (s : State) :
    tail (keyBytes k) (8 * k.length) s = tail2 k k.length s := by
  have hbytes := length_keyBytes k
  have hnil : bytesWord [] = 0 := rfl
  have htake : ∀ w, (wordBytes w).take 8 = wordBytes w := fun w =>
    List.take_of_length_le (wordBytes_length w).le
  rw [tail_eq (by omega) (by omega)]
  rcases k with _ | ⟨w, _ | ⟨w', _ | ⟨w'', k⟩⟩⟩
  · simp [tail2, keyBytes, hnil, leNat]
  · simp [tail2, keyBytes, hnil, leNat, htake]
  · simp [tail2, keyBytes, leNat, htake]
  · simp only [List.length_cons] at h
    omega

theorem finish_keyBytes (k : List UInt64) (level : UInt64) :
    (finish byteWord (keyBytes k) level).c = hash2 k level := by
  have hbytes := length_keyBytes k
  have hcount : (keyBytes k).length / 24 = k.length / 3 := by omega
  have hlen : UInt64.ofNat (keyBytes k).length = UInt64.ofNat k.length <<< 3 := by
    rw [hbytes]
    refine UInt64.toNat_inj.mp ?_
    rw [UInt64.toNat_shiftLeft, UInt64.toNat_ofNat', UInt64.toNat_ofNat']
    simp [Nat.shiftLeft_eq]
    omega
  have hrest := length_blocks2 (k.length / 3) (start level) k
  rw [← finish_word, finish, hcount, blocks_keyBytes _ (by omega), hlen, hash2]
  generalize blocks2 (k.length / 3) (start level) k = r at hrest
  obtain ⟨s, rest⟩ := r
  have hmod : k.length % 3 = rest.length := by
    change rest.length = _ at hrest
    omega
  have hmod' : (keyBytes k).length % 24 = 8 * rest.length := by omega
  dsimp only
  rw [hmod', hmod, tail_keyBytes (by omega)]

/-! ## Mixing is reversible -/

/-- A line of `mix64`, which changes the first of the words and puts it last. -/
def line (f : UInt64 → UInt64) (s : State) : State :=
  ⟨s.b, s.c, s.a - s.b - s.c ^^^ f s.c⟩

theorem line_injective (f : UInt64 → UInt64) : Function.Injective (line f) := by
  rintro ⟨a, b, c⟩ ⟨a', b', c'⟩ h
  obtain ⟨rfl, rfl, ha⟩ := State.mk.inj h
  exact congrArg (State.mk · b c) (sub_xor_injective b c (f c) ha)

theorem mix64_eq_lines (s : State) :
    mix64 s = line (· >>> 22) (line (· <<< 18) (line (· >>> 12) (line (· >>> 11) (line (· <<< 49)
      (line (· >>> 35) (line (· >>> 5) (line (· <<< 23) (line (· >>> 38) (line (· >>> 8)
        (line (· <<< 9) (line (· >>> 43) s))))))))))) := rfl

theorem mix64_injective : Function.Injective mix64 := fun s s' h => by
  rw [mix64_eq_lines, mix64_eq_lines] at h
  iterate 12 replace h := line_injective _ h
  exact h

/-! ## The key in stretches -/

/-- A block goes into the state. -/
def absorb (s : State) (x : List UInt8) : State :=
  ⟨s.a + wordAt x 0, s.b + wordAt x 8, s.c + wordAt x 16⟩

theorem absorb_state_injective (x : List UInt8) : Function.Injective fun s => absorb s x := by
  rintro ⟨a, b, c⟩ ⟨a', b', c'⟩ h
  obtain ⟨ha, hb, hc⟩ := State.mk.inj h
  rw [UInt64.add_left_inj] at ha hb hc
  exact State.mk.injEq .. ▸ ⟨ha, hb, hc⟩

theorem absorb_injective {s : State} {x y : List UInt8} (hx : x.length = 24) (hy : y.length = 24)
    (h : absorb s x = absorb s y) : x = y := by
  obtain ⟨ha, hb, hc⟩ := State.mk.inj h
  rw [UInt64.add_right_inj] at ha hb hc
  have hword : ∀ i, i + 8 ≤ 24 → wordAt x i = wordAt y i →
      (x.drop i).take 8 = (y.drop i).take 8 := by
    intro i hi hw
    refine bytesWord_injective ?_ ?_ hw
    · simp [hx, hy]
    · simp
  have hsplit : ∀ z : List UInt8, z.length = 24 →
      z = (z.drop 0).take 8 ++ ((z.drop 8).take 8 ++ (z.drop 16).take 8) := by
    intro z hz
    have hlast : (z.drop 16).take 8 = z.drop 16 := List.take_of_length_le (by simp [hz])
    have hdrop : z.drop 16 = (z.drop 8).drop 8 := by rw [List.drop_drop]
    rw [hlast, hdrop, List.take_append_drop, List.drop_zero, List.take_append_drop]
  rw [hsplit x hx, hsplit y hy, hword 0 (by omega) ha, hword 8 (by omega) hb,
    hword 16 (by omega) hc]

theorem wordAt_append {i : ℕ} {p : List UInt8} (h : i + 8 ≤ p.length) (q : List UInt8) :
    wordAt (p ++ q) i = wordAt p i := by
  have hdrop : 8 ≤ (p.drop i).length := by
    rw [List.length_drop]
    omega
  rw [wordAt, wordAt, List.drop_append_of_le_length (by omega),
    List.take_append_of_le_length hdrop]

/-- The loop over two stretches of the key. -/
theorem blocks_append {n : ℕ} {p : List UInt8} (hp : p.length = 24 * n) (m : ℕ) (s : State)
    (q : List UInt8) :
    blocks wordAt (n + m) s (p ++ q) = blocks wordAt m (blocks wordAt n s p).1 q := by
  induction n generalizing s p with
  | zero =>
    obtain rfl := List.length_eq_zero_iff.mp hp
    rw [Nat.zero_add, List.nil_append, blocks]
  | succ n ih =>
    have hdrop : (p.drop 24).length = 24 * n := by
      rw [List.length_drop]
      omega
    rw [Nat.add_right_comm, blocks, List.drop_append_of_le_length (by omega), ih hdrop,
      wordAt_append (by omega), wordAt_append (by omega), wordAt_append (by omega), ← blocks]

theorem blocks_snd (n : ℕ) (s : State) (k : List UInt8) :
    (blocks wordAt n s k).2 = k.drop (24 * n) := by
  induction n generalizing s k with
  | zero => rfl
  | succ n ih => rw [blocks, ih, List.drop_drop, Nat.mul_succ, Nat.add_comm]

/-- The state keeps what came before the blocks. -/
theorem blocks_injective (n : ℕ) (k : List UInt8) :
    Function.Injective fun s => (blocks wordAt n s k).1 := by
  induction n generalizing k with
  | zero => exact fun _ _ h => h
  | succ n ih => exact fun s s' h => absorb_state_injective k (mix64_injective (ih (k.drop 24) h))

/-! ## The end of the key -/

/-- The state at the report, from that behind the blocks: the rest of the key and the length of all
of it are added. -/
def report (s : State) (rest : List UInt8) (length : ℕ) : State :=
  mix64 ⟨s.a + bytesWord (rest.take 8), s.b + bytesWord ((rest.drop 8).take 8),
    s.c + UInt64.ofNat (length + 256 * leNat (rest.drop 16))⟩

theorem finish_eq (k : List UInt8) (level : UInt64) :
    finish byteWord k level = report (blocks wordAt (k.length / 24) (start level) k).1
      (k.drop (24 * (k.length / 24))) k.length := by
  have hrest : k.length % 24 = (k.drop (24 * (k.length / 24))).length := by
    rw [List.length_drop]
    omega
  have hsnd := blocks_snd (k.length / 24) (start level) k
  rw [← finish_word, finish]
  generalize blocks wordAt (k.length / 24) (start level) k = r at hsnd
  obtain ⟨s, rest⟩ := r
  change rest = _ at hsnd
  subst hsnd
  dsimp only
  rw [hrest]
  generalize k.drop (24 * (k.length / 24)) = rest at hrest
  have h23 : rest.length < 24 := by omega
  have hmin : rest.take (min rest.length 8) = rest.take 8 := by
    rw [Nat.min_comm, ← List.take_take, List.take_length]
  have hmin' : (rest.drop 8).take (min (rest.length - 8) 8) = (rest.drop 8).take 8 := by
    rw [← List.length_drop, Nat.min_comm, ← List.take_take, List.take_length]
  have hlast : (rest.drop 16).take (rest.length - 16) = rest.drop 16 := by
    rw [← List.length_drop, List.take_length]
  rw [tail_eq (by omega) (by omega), hmin, hmin', hlast, report, UInt64.ofNat_add, UInt64.add_assoc]

theorem report_state_injective (rest : List UInt8) (length : ℕ) :
    Function.Injective fun s => report s rest length := by
  rintro ⟨a, b, c⟩ ⟨a', b', c'⟩ h
  obtain ⟨ha, hb, hc⟩ := State.mk.inj (mix64_injective h)
  rw [UInt64.add_left_inj] at ha hb hc
  exact State.mk.injEq .. ▸ ⟨ha, hb, hc⟩

/-- The lowest byte of what is added to `c` tells how long the rest is. -/
theorem report_injective {s : State} {x y : List UInt8} {n : ℕ} (hx : x.length < 24)
    (hy : y.length < 24) (h : report s x (n + x.length) = report s y (n + y.length)) : x = y := by
  obtain ⟨ha, hb, hc⟩ := State.mk.inj (mix64_injective h)
  rw [UInt64.add_right_inj] at ha hb hc
  have hc' := congrArg UInt64.toNat hc
  rw [UInt64.toNat_ofNat', UInt64.toNat_ofNat'] at hc'
  have hlen : x.length = y.length := by omega
  have hlt : ∀ z : List UInt8, z.length < 24 → leNat (z.drop 16) < 256 ^ 7 := by
    intro z hz
    refine (leNat_lt _).trans_le (Nat.pow_le_pow_right (by omega) ?_)
    rw [List.length_drop]
    omega
  have hnat : leNat (x.drop 16) = leNat (y.drop 16) := by
    have hx' := hlt x hx
    have hy' := hlt y hy
    omega
  have hlast : x.drop 16 = y.drop 16 := by
    rw [← leBytes_leNat (x.drop 16), hnat, List.length_drop, hlen, ← List.length_drop,
      leBytes_leNat]
  have hfirst : x.take 8 = y.take 8 :=
    bytesWord_injective (by simp [hlen]) (by simp) ha
  have hsecond : (x.drop 8).take 8 = (y.drop 8).take 8 :=
    bytesWord_injective (by simp [hlen]) (by simp) hb
  have hsplit : ∀ z : List UInt8, z = z.take 8 ++ ((z.drop 8).take 8 ++ z.drop 16) := by
    intro z
    have hdrop : z.drop 16 = (z.drop 8).drop 8 := by rw [List.drop_drop]
    rw [hdrop, List.take_append_drop, List.take_append_drop]
  rw [hsplit x, hsplit y, hfirst, hsecond, hlast]

/-- The state at the report, as a function of one block. -/
theorem finish_block {n : ℕ} {p x : List UInt8} (hp : p.length = 24 * n) (hx : x.length = 24)
    (q : List UInt8) (level : UInt64) :
    finish byteWord (p ++ (x ++ q)) level =
      report (blocks wordAt (q.length / 24)
        (mix64 (absorb (blocks wordAt n (start level) p).1 x)) q).1
        (q.drop (24 * (q.length / 24))) (24 * n + 24 + q.length) := by
  have hlen : (p ++ (x ++ q)).length = 24 * n + 24 + q.length := by
    rw [List.length_append, List.length_append, hp, hx, Nat.add_assoc]
  have hcount : (24 * n + 24 + q.length) / 24 = n + (1 + q.length / 24) := by omega
  have hcut : 24 * (n + (1 + q.length / 24)) = (p ++ x).length + 24 * (q.length / 24) := by
    rw [List.length_append, hp, hx]
    omega
  have hdrop : (p ++ (x ++ q)).drop (24 * (n + (1 + q.length / 24))) =
      q.drop (24 * (q.length / 24)) := by
    rw [hcut, ← List.append_assoc, List.drop_length_add_append]
  rw [finish_eq, hlen, hcount, hdrop, blocks_append hp, blocks_append (n := 1) hx, blocks, blocks]
  rfl

/-- The state at the report, as a function of what is behind the last block. -/
theorem finish_tail {n : ℕ} {p x : List UInt8} (hp : p.length = 24 * n) (hx : x.length < 24)
    (level : UInt64) : finish byteWord (p ++ x) level =
      report (blocks wordAt n (start level) p).1 x (24 * n + x.length) := by
  have hlen : (p ++ x).length = 24 * n + x.length := by rw [List.length_append, hp]
  have hcount : (24 * n + x.length) / 24 = n + 0 := by omega
  have hdrop : (p ++ x).drop (24 * (n + 0)) = x := by
    rw [Nat.add_zero, ← hp, List.drop_left]
  rw [finish_eq, hlen, hcount, hdrop, blocks_append hp, blocks]

end Lookup8

/-- **The three hashes agree**: `hash3`, at any address, is `hash`, and `hash2` of words is `hash`
of their bytes. -/
theorem lookup8_agree (level : UInt64) :
    (∀ address k, Lookup8.hash3 address k level = Lookup8.hash k level) ∧
      ∀ k, Lookup8.hash2 k level = Lookup8.hash (k.flatMap wordBytes) level := by
  refine ⟨fun address k => ?_, fun k => (Lookup8.finish_keyBytes k level).symm⟩
  unfold Lookup8.hash3
  split
  · rfl
  · rw [Lookup8.finish_word]
    rfl

/-- **No funnels**: where `hash` reports its result, its state tells apart two keys that differ in
one block, two keys that differ behind their common blocks, of whatever length, and two levels. -/
theorem lookup8_reversible (level : UInt64) :
    (∀ p x y q : List UInt8, p.length % 24 = 0 → x.length = 24 → y.length = 24 →
      (Lookup8.finish Lookup8.byteWord (p ++ (x ++ q)) level =
        Lookup8.finish Lookup8.byteWord (p ++ (y ++ q)) level ↔ x = y)) ∧
    (∀ p x y : List UInt8, p.length % 24 = 0 → x.length < 24 → y.length < 24 →
      (Lookup8.finish Lookup8.byteWord (p ++ x) level =
        Lookup8.finish Lookup8.byteWord (p ++ y) level ↔ x = y)) ∧
    ∀ k level', Lookup8.finish Lookup8.byteWord k level =
      Lookup8.finish Lookup8.byteWord k level' ↔ level = level' := by
  refine ⟨fun p x y q hp hx hy => ⟨fun h => ?_, fun h => by rw [h]⟩,
    fun p x y hp hx hy => ⟨fun h => ?_, fun h => by rw [h]⟩,
    fun k level' => ⟨fun h => ?_, fun h => by rw [h]⟩⟩
  · obtain ⟨n, hn⟩ : ∃ n, p.length = 24 * n := ⟨p.length / 24, by omega⟩
    rw [Lookup8.finish_block hn hx, Lookup8.finish_block hn hy] at h
    have hstate := Lookup8.blocks_injective _ _ (Lookup8.report_state_injective _ _ h)
    exact Lookup8.absorb_injective hx hy (Lookup8.mix64_injective hstate)
  · obtain ⟨n, hn⟩ : ∃ n, p.length = 24 * n := ⟨p.length / 24, by omega⟩
    rw [Lookup8.finish_tail hn hx, Lookup8.finish_tail hn hy] at h
    exact Lookup8.report_injective hx hy h
  · rw [Lookup8.finish_eq, Lookup8.finish_eq] at h
    have hstart := Lookup8.blocks_injective _ _ (Lookup8.report_state_injective _ _ h)
    exact (Lookup8.State.mk.inj hstart).1

/-- A key that ends in a zero byte. -/
theorem lookup8_reversible_two_keys :
    Lookup8.finish Lookup8.byteWord [1] 0 ≠ Lookup8.finish Lookup8.byteWord [1, 0] 0 :=
  mt ((lookup8_reversible 0).2.1 [] [1] [1, 0] rfl (by simp) (by simp)).mp (by simp)

end ServerKit
