import TownOS.Foundations.Bytes

/-!
Words in a flat store of bytes.

* `word`, `setWord`: the 64-bit little-endian word at an address, read and
  written; `word_setWord`: what was written is read back;
* `setWord_outside`, `word_setWord_of_disjoint`, `word_setByte`: the rest of
  the store;
* `fill`: a run of bytes set to one value, and `word_fill_zero`;
* `Only`: two stores differ in a given region at most, with `Only.trans` and
  the rules for the writes above.
-/

namespace Bytes

variable {m m' m'' : ℕ → UInt8} {a b i n v : ℕ}

/-! ### Numbers of any width -/

/-- The bytes of a number, the low one first. -/
def leBytes (v n : ℕ) : List UInt8 := (List.range n).map (byteOf v)

@[simp]
lemma leBytes_length (v n : ℕ) : (leBytes v n).length = n := by
  rw [leBytes, List.length_map, List.length_range]

lemma leNat_congr (h : ∀ j < n, m (a + j) = m' (b + j)) : leNat m a n = leNat m' b n := by
  induction n generalizing a b with
  | zero => rfl
  | succ n ih =>
    have h0 : m a = m' b := h 0 (Nat.succ_pos n)
    have hs : leNat m (a + 1) n = leNat m' (b + 1) n := by
      refine ih fun j hj => ?_
      have := h (j + 1) (by omega)
      rwa [Nat.add_comm j 1, ← Nat.add_assoc, ← Nat.add_assoc] at this
    rw [leNat, leNat, h0, hs]

lemma leNat_lt (m : ℕ → UInt8) (a n : ℕ) : leNat m a n < 256 ^ n := by
  induction n generalizing a with
  | zero => exact Nat.one_pos
  | succ n ih =>
    have h0 : (m a).toNat < 256 := (m a).toNat_lt
    have hs := ih (a + 1)
    rw [leNat, Nat.pow_succ]
    omega

lemma byteOf_succ (v k : ℕ) : byteOf v (k + 1) = byteOf (v / 256) k := by
  rw [← UInt8.toNat_inj, byteOf_toNat, byteOf_toNat, Nat.div_div_eq_div_mul]
  congr 2
  rw [show (256 : ℕ) = 2 ^ 8 from rfl, ← Nat.pow_add]
  congr 1
  omega

/-- A number is read off its bytes. -/
lemma leNat_of_bytes (h : ∀ j < n, m (a + j) = byteOf v j) : leNat m a n = v % 256 ^ n := by
  induction n generalizing a v with
  | zero => rw [leNat, Nat.pow_zero, Nat.mod_one]
  | succ n ih =>
    have h0 : (m a).toNat = v % 256 := by
      have := h 0 (Nat.succ_pos n)
      rw [Nat.add_zero] at this
      rw [this, byteOf_toNat, Nat.mul_zero, Nat.pow_zero, Nat.div_one]
      rfl
    have hs : leNat m (a + 1) n = v / 256 % 256 ^ n := by
      refine ih fun j hj => ?_
      have := h (j + 1) (by omega)
      rwa [Nat.add_comm j 1, ← Nat.add_assoc, Nat.add_comm 1 j, byteOf_succ] at this
    rw [leNat, h0, hs, Nat.pow_succ, Nat.mul_comm (256 ^ n) 256, Nat.mod_mul]

lemma storeAt_leBytes {j : ℕ} (hj : j < n) : storeAt m a (leBytes v n) (a + j) = byteOf v j := by
  refine storeAt_inside ?_
  rw [leBytes, List.getElem?_map, List.getElem?_range hj]
  rfl

/-! ### Words -/

/-- The 64-bit word at an address. -/
def word (m : ℕ → UInt8) (a : ℕ) : ℕ := leNat m a 8

/-- The store with a 64-bit word written at an address. -/
def setWord (m : ℕ → UInt8) (a v : ℕ) : ℕ → UInt8 := storeAt m a (leBytes v 8)

/-- The store with one byte written. -/
def setByte (m : ℕ → UInt8) (a : ℕ) (x : UInt8) : ℕ → UInt8 := fun i => if i = a then x else m i

lemma word_congr (h : ∀ j < 8, m (a + j) = m' (b + j)) : word m a = word m' b := leNat_congr h

lemma word_setWord (m : ℕ → UInt8) (a : ℕ) (hv : v < 2 ^ 64) : word (setWord m a v) a = v := by
  rw [word, setWord, leNat_of_bytes (v := v) fun j hj => storeAt_leBytes hj]
  exact Nat.mod_eq_of_lt hv

lemma setWord_outside (h : i < a ∨ a + 8 ≤ i) : setWord m a v i = m i :=
  storeAt_outside (by rwa [leBytes_length])

lemma word_setWord_of_disjoint (h : b + 8 ≤ a ∨ a + 8 ≤ b) : word (setWord m a v) b = word m b :=
  word_congr fun j hj => setWord_outside (by omega)

lemma setByte_self (m : ℕ → UInt8) (a : ℕ) (x : UInt8) : setByte m a x a = x :=
  if_pos rfl

lemma setByte_of_ne {x : UInt8} (h : i ≠ a) : setByte m a x i = m i :=
  if_neg h

lemma word_setByte {x : UInt8} (h : b + 8 ≤ a ∨ a < b) : word (setByte m a x) b = word m b :=
  word_congr fun j hj => setByte_of_ne (by omega)

/-! ### Runs of one byte -/

/-- The store with `n` bytes from an address on set to one value, `memset`. -/
def fill (m : ℕ → UInt8) (a n : ℕ) (x : UInt8) : ℕ → UInt8 := fun i =>
  if a ≤ i ∧ i < a + n then x else m i

lemma fill_inside {x : UInt8} (h : a ≤ i) (h' : i < a + n) : fill m a n x i = x := if_pos ⟨h, h'⟩

lemma fill_outside {x : UInt8} (h : i < a ∨ a + n ≤ i) : fill m a n x i = m i :=
  if_neg (by omega)

lemma word_fill_zero (h : a ≤ b) (h' : b + 8 ≤ a + n) : word (fill m a n 0) b = 0 := by
  have hz : word (fill m a n 0) b = 0 % 256 ^ 8 := by
    refine leNat_of_bytes (v := 0) fun j hj => ?_
    rw [fill_inside (by omega) (by omega), ← UInt8.toNat_inj, byteOf_toNat, Nat.zero_div]
    rfl
  rw [hz, Nat.zero_mod]

/-! ### Changes confined to a region -/

/-- Two stores differ in a region at most. -/
def Only (P : ℕ → Prop) (m m' : ℕ → UInt8) : Prop := ∀ i, ¬ P i → m' i = m i

variable {P Q : ℕ → Prop}

lemma Only.refl (P : ℕ → Prop) (m : ℕ → UInt8) : Only P m m := fun _ _ => rfl

lemma Only.trans (h : Only P m m') (h' : Only P m' m'') : Only P m m'' := fun i hi =>
  (h' i hi).trans (h i hi)

lemma Only.mono (h : Only P m m') (hPQ : ∀ i, P i → Q i) : Only Q m m' := fun i hi =>
  h i fun hp => hi (hPQ i hp)

lemma Only.word (h : Only P m m') (hb : ∀ j < 8, ¬ P (b + j)) : word m' b = word m b :=
  word_congr fun j hj => h (b + j) (hb j hj)

lemma only_setWord (h : ∀ j < 8, P (a + j)) : Only P m (setWord m a v) := by
  intro i hi
  refine setWord_outside ?_
  by_contra hin
  obtain ⟨j, rfl⟩ := Nat.exists_eq_add_of_le (show a ≤ i by omega)
  exact hi (h j (by omega))

lemma only_setByte {x : UInt8} (h : P a) : Only P m (setByte m a x) := by
  intro i hi
  refine setByte_of_ne ?_
  rintro rfl
  exact hi h

lemma only_fill {x : UInt8} (h : ∀ j < n, P (a + j)) : Only P m (fill m a n x) := by
  intro i hi
  refine fill_outside ?_
  by_contra hin
  obtain ⟨j, rfl⟩ := Nat.exists_eq_add_of_le (show a ≤ i by omega)
  exact hi (h j (by omega))

end Bytes
