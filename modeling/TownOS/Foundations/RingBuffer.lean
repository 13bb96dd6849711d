import Mathlib

/-!
Ring buffers with one slot left unused, so that equal cursors mean empty.

* `RingBuffer.used`, `RingBuffer.space`: how many slots hold something and how many can
  still be filled, for a ring of `size` slots;
* `RingBuffer.get`, `RingBuffer.put`: take the oldest, store the newest;
* `RingBuffer.take`, `RingBuffer.fill`: the loops that do so several times;
* `RingBuffer.contents_get`, `RingBuffer.contents_put`: the ring is a queue;
* `RingBuffer.contents_take`, `RingBuffer.contents_fill`: so it is for the loops.
-/

/-- A buffer of slots and the two cursors that chase each other around it. -/
structure RingBuffer (α : Type*) where
  buf : ℕ → α
  readIndex : ℕ
  writeIndex : ℕ

namespace RingBuffer

variable {α : Type*} (size : ℕ)

/-- The number of filled slots. -/
def used (r : RingBuffer α) : ℕ := (r.writeIndex + size - r.readIndex) % size

/-- The number of slots that can be filled: one stays unused. -/
def space (r : RingBuffer α) : ℕ := size - 1 - r.used size

/-- The oldest entry, and the ring without it. -/
def get (r : RingBuffer α) : α × RingBuffer α :=
  (r.buf r.readIndex, { r with readIndex := (r.readIndex + 1) % size })

/-- The ring with one more entry. -/
def put (r : RingBuffer α) (a : α) : RingBuffer α :=
  { r with
    buf := Function.update r.buf r.writeIndex a
    writeIndex := (r.writeIndex + 1) % size }

/-- The `n` oldest entries, and the ring without them. -/
def take : ℕ → RingBuffer α → List α × RingBuffer α
  | 0, r => ([], r)
  | n + 1, r =>
    let (a, r) := r.get size
    let (l, r) := take n r
    (a :: l, r)

/-- The ring with the entries of a list added. -/
def fill : List α → RingBuffer α → RingBuffer α
  | [], r => r
  | a :: l, r => fill l (r.put size a)

/-! ### The ring as a queue -/

/-- Both cursors are on slots of the ring. -/
structure Valid (r : RingBuffer α) : Prop where
  read : r.readIndex < size
  write : r.writeIndex < size

/-- The entries, the oldest first. -/
def contents (r : RingBuffer α) : List α :=
  (List.range (r.used size)).map fun i => r.buf ((r.readIndex + i) % size)

variable {size} {r : RingBuffer α}

/-- An index runs past the end at most once. -/
lemma mod_eq_ite {n : ℕ} (h : n < 2 * size) : n % size = if n < size then n else n - size := by
  split_ifs with hn
  · exact Nat.mod_eq_of_lt hn
  · rw [Nat.mod_eq_sub_mod (Nat.not_lt.mp hn), Nat.mod_eq_of_lt (by omega)]

lemma length_take (n : ℕ) (r : RingBuffer α) : (r.take size n).1.length = n := by
  induction n generalizing r with
  | zero => rfl
  | succ n ih => exact congrArg (· + 1) (ih (r.get size).2)

lemma Valid.used_eq (h : r.Valid size) : r.used size =
    if r.readIndex ≤ r.writeIndex then r.writeIndex - r.readIndex
    else r.writeIndex + size - r.readIndex := by
  have hr := h.read
  have hw := h.write
  rw [used, mod_eq_ite (by omega)]
  split_ifs <;> omega

lemma Valid.used_lt (h : r.Valid size) : r.used size < size :=
  Nat.mod_lt _ (Nat.zero_lt_of_lt h.read)

lemma Valid.used_eq_zero_iff (h : r.Valid size) :
    r.used size = 0 ↔ r.readIndex = r.writeIndex := by
  have hr := h.read
  have hw := h.write
  rw [h.used_eq]
  split_ifs <;> omega

lemma Valid.get (h : r.Valid size) : (r.get size).2.Valid size :=
  ⟨Nat.mod_lt _ (Nat.zero_lt_of_lt h.read), h.write⟩

lemma Valid.put (h : r.Valid size) (a : α) : (r.put size a).Valid size :=
  ⟨h.read, Nat.mod_lt _ (Nat.zero_lt_of_lt h.read)⟩

lemma Valid.used_get (h : r.Valid size) (hne : r.readIndex ≠ r.writeIndex) :
    (r.get size).2.used size + 1 = r.used size := by
  have hr := h.read
  have hw := h.write
  rw [h.get.used_eq, h.used_eq, RingBuffer.get]
  dsimp only
  rw [mod_eq_ite (by omega)]
  split_ifs <;> omega

lemma Valid.used_put (h : r.Valid size) (hfree : (r.writeIndex + 1) % size ≠ r.readIndex) (a : α) :
    (r.put size a).used size = r.used size + 1 := by
  have hr := h.read
  have hw := h.write
  rw [mod_eq_ite (by omega)] at hfree
  rw [(h.put a).used_eq, h.used_eq, RingBuffer.put]
  dsimp only
  rw [mod_eq_ite (by omega)]
  split_ifs at hfree ⊢ <;> omega

/-- The oldest entry is the first. -/
lemma contents_get (h : r.Valid size) (hne : r.readIndex ≠ r.writeIndex) :
    r.contents size = (r.get size).1 :: (r.get size).2.contents size := by
  rw [contents, ← h.used_get hne, List.range_succ_eq_map, List.map_cons, List.map_map,
    Nat.add_zero, Nat.mod_eq_of_lt h.read]
  refine congrArg (List.cons _) (List.map_congr_left fun i _ => ?_)
  rw [Function.comp_apply, get]
  dsimp only
  rw [Nat.mod_add_mod, Nat.succ_eq_add_one, Nat.add_assoc, Nat.add_comm 1 i]

/-- The newest entry is the last. -/
lemma contents_put (h : r.Valid size) (hfree : (r.writeIndex + 1) % size ≠ r.readIndex) (a : α) :
    (r.put size a).contents size = r.contents size ++ [a] := by
  have hr := h.read
  have hw := h.write
  have hused := h.used_eq
  have hlt := h.used_lt
  have hend : (r.readIndex + r.used size) % size = r.writeIndex := by
    rw [mod_eq_ite (by omega), hused]
    split_ifs <;> omega
  rw [contents, h.used_put hfree, List.range_succ, List.map_append, contents]
  congr 1
  · refine List.map_congr_left fun i hi => Function.update_of_ne ?_ _ _
    rw [List.mem_range] at hi
    -- an entry in between is not on the slot that is filled
    have hne : (r.readIndex + i) % size ≠ (r.readIndex + r.used size) % size := by
      rw [mod_eq_ite (by omega), mod_eq_ite (by omega)]
      split_ifs <;> omega
    exact hend ▸ hne
  · rw [List.map_singleton]
    refine congrArg (fun x => [x]) ?_
    rw [put]
    dsimp only
    rw [hend, Function.update_self]

/-! ### The loops -/

lemma Valid.take (h : r.Valid size) (n : ℕ) : (r.take size n).2.Valid size := by
  induction n generalizing r with
  | zero => exact h
  | succ n ih => exact ih h.get

/-- The entries that are taken are the first ones. -/
lemma contents_take (h : r.Valid size) {n : ℕ} (hn : n ≤ r.used size) :
    (r.take size n).1 ++ (r.take size n).2.contents size = r.contents size := by
  induction n generalizing r with
  | zero => rfl
  | succ n ih =>
    have hne : r.readIndex ≠ r.writeIndex := fun heq => by
      rw [h.used_eq_zero_iff.mpr heq] at hn
      cases hn
    have hused := h.used_get hne
    rw [contents_get h hne, ← ih h.get (by omega)]
    rfl

lemma Valid.fill (h : r.Valid size) (l : List α) : (r.fill size l).Valid size := by
  induction l generalizing r with
  | nil => exact h
  | cons a l ih => exact ih (h.put a)

/-- With a slot to fill, the cursors are not next to each other. -/
lemma Valid.free_of_space (h : r.Valid size) (hs : 0 < r.space size) :
    (r.writeIndex + 1) % size ≠ r.readIndex := by
  have hr := h.read
  have hw := h.write
  have hused := h.used_eq
  rw [space] at hs
  rw [mod_eq_ite (by omega)]
  split_ifs at hused ⊢ <;> omega

/-- The entries that are added are the last ones. -/
lemma contents_fill (h : r.Valid size) {l : List α} (hl : l.length ≤ r.space size) :
    (r.fill size l).contents size = r.contents size ++ l := by
  induction l generalizing r with
  | nil => exact (List.append_nil _).symm
  | cons a l ih =>
    rw [List.length_cons] at hl
    have hfree := h.free_of_space (by omega)
    have hput := h.used_put hfree a
    have hspace : l.length ≤ (r.put size a).space size := by
      rw [space] at hl ⊢
      omega
    rw [RingBuffer.fill, ih (h.put a) hspace, contents_put h hfree, List.append_assoc,
      List.singleton_append]

end RingBuffer
