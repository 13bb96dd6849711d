import Mathlib

/-!
Bytes, little-endian words and stores made of fixed-size blocks.

* `u32`: unsigned 32-bit wrap-around, and `u32_of_lt`, its absence;
* `le16`, `le32`: words assembled from bytes as `b₀ | b₁ << 8 | ⋯`, with
  `le32_eq` turning the bit operations into arithmetic;
* `store32`: four bytes of a buffer overwritten by a word, `le32_store32`
  (what was stored is read back) and `le32_store32_of_disjoint`;
* `land_mask`, `splice_mask`: a low mask is a remainder, and splicing the low
  bits of one word under the high bits of another is addition;
* `leNat`, `storeAt`: little-endian numbers of any width, and runs of bytes
  written to a flat store;
* `setBlock`: one block of a flat store replaced, `setBlock_in` and
  `setBlock_out`, and `setBlock_patch`: writing a block back after changing
  some bytes of it changes just those bytes of the store.
-/

namespace Bytes

/-! ### Machine words -/

/-- Unsigned 32-bit arithmetic: the value kept of a sum or product. -/
def u32 (n : ℕ) : ℕ := n % 2 ^ 32

lemma u32_of_lt {n : ℕ} (h : n < 2 ^ 32) : u32 n = n := Nat.mod_eq_of_lt h

lemma u32_lt (n : ℕ) : u32 n < 2 ^ 32 := Nat.mod_lt _ (by norm_num)

/-- `a - b` on unsigned 32-bit words. -/
def sub32 (a b : ℕ) : ℕ := u32 (a + (2 ^ 32 - b))

lemma sub32_of_le {a b : ℕ} (ha : a < 2 ^ 32) (h : b ≤ a) : sub32 a b = a - b := by
  rw [sub32, u32, show a + (2 ^ 32 - b) = a - b + 2 ^ 32 from by omega, Nat.add_mod_right,
    Nat.mod_eq_of_lt (by omega)]

/-- The 16-bit little-endian word at offset `o`. -/
def le16 (b : ℕ → UInt8) (o : ℕ) : ℕ :=
  (b o).toNat ||| (b (o + 1)).toNat <<< 8

/-- The 32-bit little-endian word at offset `o`. -/
def le32 (b : ℕ → UInt8) (o : ℕ) : ℕ :=
  (b o).toNat ||| (b (o + 1)).toNat <<< 8 ||| (b (o + 2)).toNat <<< 16 |||
    (b (o + 3)).toNat <<< 24

/-- The `k`-th byte of a word, `(v >> 8k) & 0xFF`. -/
def byteOf (v k : ℕ) : UInt8 := UInt8.ofNat ((v >>> (8 * k)) &&& 0xFF)

/-- The buffer with the four bytes at `o` replaced by the word `v`. -/
def store32 (b : ℕ → UInt8) (o v : ℕ) : ℕ → UInt8 := fun i =>
  if i = o then byteOf v 0
  else if i = o + 1 then byteOf v 1
  else if i = o + 2 then byteOf v 2
  else if i = o + 3 then byteOf v 3
  else b i

/-- The little-endian number in the `n` bytes at offset `o`. -/
def leNat (b : ℕ → UInt8) (o : ℕ) : ℕ → ℕ
  | 0 => 0
  | n + 1 => (b o).toNat + 256 * leNat b (o + 1) n

/-- The store with the bytes of a list written from address `a` on. -/
def storeAt (m : ℕ → UInt8) (a : ℕ) (bs : List UInt8) : ℕ → UInt8 := fun i =>
  if a ≤ i then bs.getD (i - a) (m i) else m i

lemma storeAt_outside {m : ℕ → UInt8} {a i : ℕ} {bs : List UInt8} (h : i < a ∨ a + bs.length ≤ i) :
    storeAt m a bs i = m i := by
  rw [storeAt]
  split_ifs with hle
  · rw [List.getD_eq_getElem?_getD, List.getElem?_eq_none (by omega), Option.getD_none]
  · rfl

lemma storeAt_inside {m : ℕ → UInt8} {a i : ℕ} {bs : List UInt8} {b : UInt8}
    (h : bs[i]? = some b) : storeAt m a bs (a + i) = b := by
  rw [storeAt, if_pos (Nat.le_add_right a i), Nat.add_sub_cancel_left,
    List.getD_eq_getElem?_getD, h, Option.getD_some]

lemma or_shiftLeft {a b i : ℕ} (h : a < 2 ^ i) : a ||| b <<< i = a + b * 2 ^ i := by
  rw [Nat.or_comm, ← Nat.shiftLeft_add_eq_or_of_lt h, Nat.shiftLeft_eq, Nat.add_comm]

lemma le16_eq (b : ℕ → UInt8) (o : ℕ) :
    le16 b o = (b o).toNat + (b (o + 1)).toNat * 2 ^ 8 :=
  or_shiftLeft (b o).toNat_lt

lemma le32_eq (b : ℕ → UInt8) (o : ℕ) :
    le32 b o = (b o).toNat + (b (o + 1)).toNat * 2 ^ 8 + (b (o + 2)).toNat * 2 ^ 16 +
      (b (o + 3)).toNat * 2 ^ 24 := by
  have h0 := (b o).toNat_lt
  have h1 := (b (o + 1)).toNat_lt
  have h2 := (b (o + 2)).toNat_lt
  have e1 : (b o).toNat ||| (b (o + 1)).toNat <<< 8 = (b o).toNat + (b (o + 1)).toNat * 2 ^ 8 :=
    or_shiftLeft h0
  rw [le32, e1, or_shiftLeft (i := 16) (by omega), or_shiftLeft (i := 24) (by omega)]

lemma le32_lt (b : ℕ → UInt8) (o : ℕ) : le32 b o < 2 ^ 32 := by
  have h0 := (b o).toNat_lt
  have h1 := (b (o + 1)).toNat_lt
  have h2 := (b (o + 2)).toNat_lt
  have h3 := (b (o + 3)).toNat_lt
  rw [le32_eq]
  omega

lemma le16_lt (b : ℕ → UInt8) (o : ℕ) : le16 b o < 2 ^ 16 := by
  have h0 := (b o).toNat_lt
  have h1 := (b (o + 1)).toNat_lt
  rw [le16_eq]
  omega

lemma byteOf_toNat (v k : ℕ) : (byteOf v k).toNat = v / 2 ^ (8 * k) % 2 ^ 8 := by
  have h : (v >>> (8 * k)) &&& 0xFF = v / 2 ^ (8 * k) % 2 ^ 8 := by
    rw [Nat.shiftRight_eq_div_pow]
    exact Nat.and_two_pow_sub_one_eq_mod _ 8
  rw [byteOf, h, UInt8.toNat_ofNat']
  omega

/-- The word at an offset depends on its four bytes only. -/
lemma le32_congr {b b' : ℕ → UInt8} {o o' : ℕ} (h : ∀ k < 4, b (o + k) = b' (o' + k)) :
    le32 b o = le32 b' o' := by
  have h0 := h 0 (by omega)
  have h1 := h 1 (by omega)
  have h2 := h 2 (by omega)
  have h3 := h 3 (by omega)
  rw [Nat.add_zero, Nat.add_zero] at h0
  rw [le32, le32, h0, h1, h2, h3]

/-- A word determines its bytes. -/
lemma byte_eq_of_le32_eq {b b' : ℕ → UInt8} {o k : ℕ} (h : le32 b o = le32 b' o) (hk : k < 4) :
    b (o + k) = b' (o + k) := by
  have hlt : ∀ (f : ℕ → UInt8) i, (f i).toNat < 256 := fun f i => (f i).toNat_lt
  have h0 := hlt b o
  have h1 := hlt b (o + 1)
  have h2 := hlt b (o + 2)
  have h3 := hlt b (o + 3)
  have h0' := hlt b' o
  have h1' := hlt b' (o + 1)
  have h2' := hlt b' (o + 2)
  have h3' := hlt b' (o + 3)
  rw [le32_eq, le32_eq] at h
  refine UInt8.toNat_inj.mp ?_
  interval_cases k
  · show (b o).toNat = (b' o).toNat
    omega
  · omega
  · omega
  · omega

lemma store32_of_ne {b : ℕ → UInt8} {o v i : ℕ} (h : i < o ∨ o + 4 ≤ i) :
    store32 b o v i = b i := by
  rw [store32, if_neg (by omega), if_neg (by omega), if_neg (by omega), if_neg (by omega)]

lemma store32_at (b : ℕ → UInt8) (o v : ℕ) {k : ℕ} (hk : k < 4) :
    store32 b o v (o + k) = byteOf v k := by
  rw [store32]
  interval_cases k <;> simp

/-- What was stored is read back. -/
lemma le32_store32 (b : ℕ → UInt8) (o : ℕ) {v : ℕ} (hv : v < 2 ^ 32) :
    le32 (store32 b o v) o = v := by
  have h0 := store32_at b o v (k := 0) (by omega)
  have h1 := store32_at b o v (k := 1) (by omega)
  have h2 := store32_at b o v (k := 2) (by omega)
  have h3 := store32_at b o v (k := 3) (by omega)
  rw [Nat.add_zero] at h0
  rw [le32_eq, h0, h1, h2, h3, byteOf_toNat, byteOf_toNat, byteOf_toNat, byteOf_toNat]
  omega

lemma le32_store32_of_disjoint {b : ℕ → UInt8} {o o' v : ℕ} (h : o' + 4 ≤ o ∨ o + 4 ≤ o') :
    le32 (store32 b o v) o' = le32 b o' :=
  le32_congr fun k hk => store32_of_ne (by omega)

/-! ### Masks -/

lemma land_mask (v : ℕ) : v &&& 0x0FFFFFFF = v % 2 ^ 28 := Nat.and_two_pow_sub_one_eq_mod v 28

/-- The high bits of one word over the low 28 of another. -/
lemma splice_mask {old : ℕ} (h : old < 2 ^ 32) (v : ℕ) :
    (old &&& 0xF0000000) ||| (v &&& 0x0FFFFFFF) = old / 2 ^ 28 * 2 ^ 28 + v % 2 ^ 28 := by
  have hhi : old &&& 0xF0000000 = old / 2 ^ 28 * 2 ^ 28 := by
    refine Nat.eq_of_testBit_eq fun i => ?_
    rw [Nat.testBit_and, ← Nat.shiftLeft_eq, Nat.testBit_shiftLeft,
      ← Nat.shiftRight_eq_div_pow, Nat.testBit_shiftRight]
    by_cases hi : i < 28
    · have : Nat.testBit 0xF0000000 i = false := by interval_cases i <;> decide
      simp [this, Nat.not_le.mpr hi]
    · by_cases hi2 : i < 32
      · have : Nat.testBit 0xF0000000 i = true := by interval_cases i <;> decide
        have hle : 28 ≤ i := by omega
        simp [this, hle]
      · have : Nat.testBit old i = false :=
          Nat.testBit_lt_two_pow (lt_of_lt_of_le h (Nat.pow_le_pow_right (by norm_num) (by omega)))
        have h2 : 28 + (i - 28) = i := by omega
        simp [this, h2]
  rw [hhi, land_mask, ← Nat.shiftLeft_eq,
    Nat.shiftLeft_add_eq_or_of_lt (Nat.mod_lt _ (by norm_num))]

/-! ### Stores made of blocks -/

/-- The flat store with block `b` (of `B` cells) replaced by `f`. -/
def setBlock {β : Type*} (B : ℕ) (d : ℕ → β) (b : ℕ) (f : ℕ → β) : ℕ → β := fun a =>
  if a / B = b then f (a % B) else d a

section Block

variable {β : Type*} {B : ℕ} {d : ℕ → β} {b : ℕ}

lemma setBlock_in (f : ℕ → β) {i : ℕ} (hi : i < B) : setBlock B d b f (b * B + i) = f i := by
  have hB : 0 < B := by omega
  have h1 : (b * B + i) / B = b := by
    rw [Nat.add_comm, Nat.add_mul_div_right _ _ hB, Nat.div_eq_of_lt hi, Nat.zero_add]
  have h2 : (b * B + i) % B = i := by
    rw [Nat.add_comm, Nat.add_mul_mod_self_right, Nat.mod_eq_of_lt hi]
  rw [setBlock, if_pos h1, h2]

lemma setBlock_out (f : ℕ → β) {a : ℕ} (hB : 0 < B) (ha : a < b * B ∨ b * B + B ≤ a) :
    setBlock B d b f a = d a := by
  refine if_neg fun h => ?_
  have h1 := Nat.div_add_mod a B
  have h2 := Nat.mod_lt a hB
  rw [h, Nat.mul_comm] at h1
  omega

/-- Writing a block back after changing the cells `l ≤ i < u` of it changes
exactly those cells of the store. -/
lemma setBlock_patch {f : ℕ → β} {l u : ℕ} (hB : 0 < B)
    (hf : ∀ i, i < B → i < l ∨ u ≤ i → f i = d (b * B + i)) (a : ℕ)
    (ha : a < b * B + l ∨ b * B + u ≤ a) : setBlock B d b f a = d a := by
  by_cases hin : b * B ≤ a ∧ a < b * B + B
  · obtain ⟨i, rfl⟩ := Nat.exists_eq_add_of_le hin.1
    rw [setBlock_in f (by omega), hf i (by omega) (by omega)]
  · exact setBlock_out f hB (by omega)

end Block

/-- A word stored in a block that is then written back is a word stored in the
flat store. -/
lemma setBlock_store32 {B : ℕ} {d buf : ℕ → UInt8} {b o v : ℕ} (ho : o + 4 ≤ B)
    (hbuf : ∀ i, i < B → buf i = d (b * B + i)) :
    setBlock B d b (store32 buf o v) = store32 d (b * B + o) v := by
  funext a
  by_cases hin : b * B + o ≤ a ∧ a < b * B + o + 4
  · obtain ⟨k, rfl⟩ := Nat.exists_eq_add_of_le hin.1
    rw [store32_at d _ v (by omega), Nat.add_assoc, setBlock_in _ (by omega),
      store32_at buf o v (by omega)]
  · rw [store32_of_ne (b := d) (by omega)]
    refine setBlock_patch (l := o) (u := o + 4) (by omega) (fun i hi hne => ?_) a (by omega)
    rw [store32_of_ne hne, hbuf i hi]

end Bytes
