import Mathlib

/-!
Cells that are allocated and freed, and the places that own them.

A store of cells is a list; a cell is named by its index, for good, and holds nothing
once it is freed. A place holds at most one name.

* `held`, `held_change`: the names in a set of places, when one place changes;
* `countP_held`: the number of places with a given name;
* `Owned`: the names that are about are those of the cells in use, each once;
* `Owned.alloc`, `Owned.free`: allocating a cell, and freeing one;
* `values`, `values_alloc`, `values_free`: what is in the cells that are about.
-/

namespace Cells

variable {α β ι : Type*}

/-! ### Places -/

/-- What is in a set of places. -/
def held (place : ι → Option β) (s : Finset ι) : Multiset β :=
  ∑ i ∈ s, (↑(place i).toList : Multiset β)

/-- One place of a sum changes. -/
lemma sum_change {M : Type*} [AddCommMonoid M] [DecidableEq ι] {s : Finset ι} {f g : ι → M} {i : ι}
    (hi : i ∈ s) (hothers : ∀ j ∈ s, j ≠ i → g j = f j) :
    ∑ j ∈ s, g j + f i = ∑ j ∈ s, f j + g i := by
  have hrest : ∑ j ∈ s.erase i, g j = ∑ j ∈ s.erase i, f j :=
    Finset.sum_congr rfl fun j hj =>
      hothers j (Finset.mem_of_mem_erase hj) (Finset.ne_of_mem_erase hj)
  calc ∑ j ∈ s, g j + f i
      = ∑ j ∈ s.erase i, g j + g i + f i := by rw [Finset.sum_erase_add _ _ hi]
    _ = ∑ j ∈ s.erase i, f j + f i + g i := by rw [hrest, add_right_comm]
    _ = ∑ j ∈ s, f j + g i := by rw [Finset.sum_erase_add _ _ hi]

/-- One place changes. -/
lemma held_change [DecidableEq ι] {s : Finset ι} (place place' : ι → Option β) {i : ι} (hi : i ∈ s)
    (hothers : ∀ j ∈ s, j ≠ i → place' j = place j) :
    held place' s + ↑(place i).toList = held place s + ↑(place' i).toList := by
  rw [held, held]
  refine sum_change (f := fun j => (↑(place j).toList : Multiset β)) hi fun j hj hne => ?_
  rw [hothers j hj hne]

lemma held_congr {s : Finset ι} {place place' : ι → Option β} (h : ∀ i ∈ s, place' i = place i) :
    held place' s = held place s :=
  Finset.sum_congr rfl fun i hi => by rw [h i hi]

/-- Empty places do not matter. -/
lemma held_subset {s s' : Finset ι} {place : ι → Option β} (hs : s ⊆ s')
    (h : ∀ i ∈ s', i ∉ s → place i = none) : held place s' = held place s := by
  refine (Finset.sum_subset hs fun i hi hn => ?_).symm
  rw [h i hi hn]
  rfl

lemma mem_held {s : Finset ι} {place : ι → Option β} {b : β} :
    b ∈ held place s ↔ ∃ i ∈ s, place i = some b := by
  simp [held, Multiset.mem_sum]

/-- The number of places whose content is marked. -/
lemma countP_held (place : ι → Option β) (P : β → Bool) (s : Finset ι) :
    (held place s).countP (P ·) = (s.filter fun i => (place i).any P).card := by
  classical
  induction s using Finset.induction_on with
  | empty => simp [held]
  | insert i s hi ih =>
    have hsum : held place (insert i s) = ↑(place i).toList + held place s := Finset.sum_insert hi
    rw [hsum, Multiset.countP_add, ih, Finset.filter_insert]
    cases hp : place i with
    | none => simp
    | some b =>
      have hone : (↑(some b).toList : Multiset β) = b ::ₘ 0 := rfl
      rw [hone, add_comm]
      by_cases hb : P b = true
      · rw [Multiset.countP_cons_of_pos (p := fun x => P x = true) _ hb, if_pos (by simpa using hb),
          Finset.card_insert_of_notMem (by simp [hi]), Multiset.countP_zero]
      · rw [Multiset.countP_cons_of_neg (p := fun x => P x = true) _ hb, if_neg (by simpa using hb),
          Multiset.countP_zero, add_zero]

/-! ### Cells -/

/-- What is in a cell, if it is in use. -/
def get (m : List (Option α)) (a : ℕ) : Option α := (m[a]?).join

variable {m : List (Option α)} {o : Multiset ℕ} {a b : ℕ} {x : α}

lemma get_concat (v : Option α) :
    get (m ++ [v]) a = if a = m.length then v else get m a := by
  rw [get, get]
  rcases lt_trichotomy a m.length with hlt | rfl | hgt
  · rw [if_neg hlt.ne, List.getElem?_append_left hlt]
  · simp
  · rw [if_neg hgt.ne', List.getElem?_eq_none (by simp; omega), List.getElem?_eq_none hgt.le]

lemma lt_length_of_get (h : get m a = some x) : a < m.length := by
  by_contra hlt
  rw [get, List.getElem?_eq_none (Nat.not_lt.mp hlt)] at h
  simp at h

lemma get_length : get m m.length = none := by simp [get]

lemma get_set (h : get m a = some x) (v : Option α) :
    get (m.set a v) b = if b = a then v else get m b := by
  rw [get, get, List.getElem?_set]
  rcases eq_or_ne b a with rfl | hne
  · rw [if_pos rfl, if_pos (lt_length_of_get h), if_pos rfl]
    rfl
  · rw [if_neg hne.symm, if_neg hne]

/-- The names that are about are those of the cells in use, each once. -/
def Owned (m : List (Option α)) (o : Multiset ℕ) : Prop :=
  ∀ a, o.count a = if (get m a).isSome then 1 else 0

lemma Owned.mem_iff (h : Owned m o) : a ∈ o ↔ ∃ x, get m a = some x := by
  rw [← Multiset.count_pos, h a, ← Option.isSome_iff_exists]
  split_ifs with hs <;> simp [hs]

lemma Owned.get (h : Owned m o) (ha : a ∈ o) : ∃ x, get m a = some x := h.mem_iff.mp ha

lemma Owned.not_mem_of_cons (h : Owned m (a ::ₘ o)) : a ∉ o := by
  obtain ⟨x, hx⟩ := h.get (Multiset.mem_cons_self a o)
  have hcount := h a
  rw [Multiset.count_cons_self, hx, Option.isSome_some, if_pos rfl] at hcount
  exact Multiset.count_eq_zero.mp (by omega)

lemma Owned.length_notMem (h : Owned m o) : m.length ∉ o := by
  intro hmem
  obtain ⟨x, hx⟩ := h.get hmem
  rw [get_length] at hx
  cases hx

/-- A cell is allocated. -/
lemma Owned.alloc (h : Owned m o) (x : α) : Owned (m ++ [some x]) (m.length ::ₘ o) := by
  intro a
  rw [get_concat]
  rcases eq_or_ne a m.length with rfl | hne
  · have hnew : o.count m.length = 0 := Multiset.count_eq_zero.mpr h.length_notMem
    rw [Multiset.count_cons_self, hnew, if_pos rfl]
    rfl
  · rw [Multiset.count_cons_of_ne hne, if_neg hne, h a]

/-- A cell is freed. -/
lemma Owned.free (h : Owned m (a ::ₘ o)) : Owned (m.set a none) o := by
  obtain ⟨x, hx⟩ := h.get (Multiset.mem_cons_self a o)
  intro b
  rw [get_set hx]
  rcases eq_or_ne b a with rfl | hne
  · rw [Multiset.count_eq_zero.mpr h.not_mem_of_cons, if_pos rfl]
    rfl
  · rw [if_neg hne, ← h b, Multiset.count_cons_of_ne hne]

/-- What is in the cells that are about. -/
def values (m : List (Option α)) (o : Multiset ℕ) : Multiset (Option α) := o.map (get m)

lemma values_cons : values m (a ::ₘ o) = get m a ::ₘ values m o := Multiset.map_cons ..

lemma values_alloc (h : Owned m o) (x : α) :
    values (m ++ [some x]) (m.length ::ₘ o) = some x ::ₘ values m o := by
  rw [values_cons, get_concat, if_pos rfl]
  refine congrArg _ (Multiset.map_congr rfl fun a ha => ?_)
  have hne : a ≠ m.length := fun heq => h.length_notMem (heq ▸ ha)
  rw [get_concat, if_neg hne]

lemma values_free (h : Owned m (a ::ₘ o)) : values (m.set a none) o = values m o := by
  obtain ⟨x, hx⟩ := h.get (Multiset.mem_cons_self a o)
  refine Multiset.map_congr rfl fun b hb => ?_
  have hne : b ≠ a := fun heq => h.not_mem_of_cons (heq ▸ hb)
  rw [get_set hx, if_neg hne]

end Cells
