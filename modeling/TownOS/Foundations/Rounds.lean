import Mathlib

/-!
Going round a circle of places.

A pick goes from one place to a place further on. If a place waits, and every pick passes
over none that waits, then no place can be picked twice before the one that waits is picked:
between the two picks the circle would have been gone round.

* `Before`, `Before.pick`: how far the picks have come;
* `sbtw_of_find?`: the search for the first ready place after a given one passes over none.
-/

namespace Rounds

section Picks

variable {α : Type*} [CircularOrder α] {a b c p : α}

/-- Going round from `a` one has come to `c`, and not to `b`. -/
def Before (b a c : α) : Prop := c = a ∨ sbtw a c b

/-- One more pick that does not pass over `b`. -/
lemma Before.pick (h : Before b a c) (hp : sbtw c p b) : sbtw a p b := by
  rcases h with rfl | h
  · exact hp
  · exact h.trans_left hp

/-- The place that waits is not reached. -/
lemma Before.ne (h : Before b a c) (hab : b ≠ a) : b ≠ c := by
  rintro rfl
  rcases h with h | h
  · exact hab h
  · exact sbtw_irrefl_right h

/-- The picks do not come back to where they started. -/
lemma ne_of_sbtw (h : sbtw a p b) : p ≠ a := by
  rintro rfl
  exact sbtw_irrefl_left h

end Picks

/-! ### Places in an array -/

/-- The natural numbers, with a step from the last one to the first. -/
instance natCircularOrder : CircularOrder ℕ := LinearOrder.toCircularOrder ℕ

lemma sbtw_nat_iff {a b c : ℕ} : sbtw a b c ↔ a < b ∧ b < c ∨ b < c ∧ c < a ∨ c < a ∧ a < b :=
  Iff.rfl

/-- A place is some way ahead of another. -/
lemma exists_ahead {n b c : ℕ} (hb : b < n) (hc : c < n) : ∃ j < n, (c + (j + 1)) % n = b := by
  by_cases h : c < b
  · refine ⟨b - c - 1, by omega, ?_⟩
    rw [show c + (b - c - 1 + 1) = b by omega, Nat.mod_eq_of_lt hb]
  · refine ⟨n + b - c - 1, by omega, ?_⟩
    rw [show c + (n + b - c - 1 + 1) = b + n by omega, Nat.add_mod_right, Nat.mod_eq_of_lt hb]

/-- **The search for the first ready place after `c`, round to `c` itself, passes over none.** -/
theorem sbtw_of_find? {ready : ℕ → Bool} {n b c p : ℕ} (hb : b < n) (hc : c < n) (hbc : b ≠ c)
    (hready : ready b = true)
    (hp : ((List.range n).map fun i => (c + (i + 1)) % n).find? ready = some p) :
    p = b ∨ sbtw c p b := by
  rw [List.find?_map, Option.map_eq_some_iff] at hp
  obtain ⟨i, hi, rfl⟩ := hp
  obtain ⟨-, hin, hfirst⟩ := List.find?_range_eq_some.mp hi
  obtain ⟨j, hj, rfl⟩ := exists_ahead hb hc
  have hij : i ≤ j := by
    by_contra h
    have hnot := hfirst j (by omega)
    rw [Function.comp_apply, hready] at hnot
    cases hnot
  have hin : i < n := List.mem_range.mp hin
  have hmod :
      ∀ m < n, (c + (m + 1)) % n = if c + (m + 1) < n then c + (m + 1) else c + (m + 1) - n := by
    intro m hm
    split_ifs with h
    · exact Nat.mod_eq_of_lt h
    · rw [Nat.mod_eq_sub_mod (by omega), Nat.mod_eq_of_lt (by omega)]
  rw [sbtw_nat_iff]
  rw [hmod i hin, hmod j hj] at *
  split_ifs at * <;> omega

end Rounds
