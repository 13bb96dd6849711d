import Mathlib

/-!
Tables of slots that end at a marker.

A table is a list of slots. A slot may end the table (`ends`), and one that does
not may be in use (`used`). The `live` slots are those in use before the first
end; a scan for a slot (`probe`) finds the first live one that fits, stops at an
end, or runs out of slots.

* `live_append`, `live_split`: the live slots around one slot of the table;
* `Tailed`, `Tailed.replace`: nothing but ends follows an end, which a slot put
  in the place of another keeps true;
* `probe_append`, `probe_join`: a scan piece by piece, and what it finds;
* `find?_live_split`: where a live slot sits in the table.
-/

namespace Slots

variable {α : Type*} {ends used hit ends' used' : α → Bool} {a : α} {P Q E : List α}

/-- The slots in use, up to the first one that ends the table. -/
def live (ends used : α → Bool) (E : List α) : List α := (E.takeWhile fun a => !ends a).filter used

@[simp] lemma live_nil : live ends used [] = [] := rfl

lemma live_cons : live ends used (a :: E) =
    if ends a then [] else if used a then a :: live ends used E else live ends used E := by
  cases h : ends a <;> cases h' : used a <;> simp [live, h, h']

lemma live_append (h : ∀ p ∈ P, ends p = false) :
    live ends used (P ++ E) = P.filter used ++ live ends used E := by
  induction P with
  | nil => rfl
  | cons p P ih =>
    have hp := h p (by simp)
    rw [List.cons_append, live_cons, hp, ih fun q hq => h q (by simp [hq]), List.filter_cons]
    split_ifs <;> simp_all

/-- Nothing is live after an end. -/
lemma live_append_of_ends (h : P.any ends = true) : live ends used (P ++ E) = live ends used P := by
  induction P with
  | nil => simp at h
  | cons p P ih =>
    rw [List.cons_append, live_cons, live_cons]
    rw [List.any_cons, Bool.or_eq_true] at h
    by_cases hp : ends p = true
    · rw [if_pos hp, if_pos hp]
    · rw [if_neg hp, if_neg hp, ih (h.resolve_left hp)]

lemma live_of_not_ends (h : ∀ p ∈ P, ends p = false) : live ends used P = P.filter used := by
  rw [← List.append_nil P, live_append h, live_nil, List.append_nil, List.append_nil]

lemma live_congr (h : ∀ b ∈ E, ends' b = ends b ∧ used' b = used b) :
    live ends' used' E = live ends used E := by
  induction E with
  | nil => rfl
  | cons b E ih =>
    obtain ⟨h1, h2⟩ := h b (by simp)
    rw [live_cons, live_cons, h1, h2, ih fun c hc => h c (by simp [hc])]

lemma mem_live (h : a ∈ live ends used E) : a ∈ E ∧ ends a = false ∧ used a = true := by
  obtain ⟨h1, h2⟩ := List.mem_filter.mp h
  exact ⟨List.takeWhile_subset _ h1, by simpa using List.mem_takeWhile_imp h1, h2⟩

lemma live_eq_nil (h : ∀ b ∈ E, ends b = true) : live ends used E = [] := by
  cases E with
  | nil => rfl
  | cons b E => rw [live_cons, if_pos (h b (by simp))]

/-- Nothing but ends follows an end. -/
def Tailed (ends : α → Bool) (E : List α) : Prop :=
  ∀ b ∈ E.dropWhile fun a => !ends a, ends b = true

lemma dropWhile_of_not_ends (h : ∀ p ∈ P, ends p = false) :
    (P ++ E).dropWhile (fun a => !ends a) = E.dropWhile fun a => !ends a := by
  induction P with
  | nil => rfl
  | cons p P ih =>
    rw [List.cons_append, List.dropWhile_cons_of_pos (by simp [h p]),
      ih fun q hq => h q (by simp [hq])]

lemma Tailed.of_split (h : Tailed ends (P ++ a :: Q)) (hP : ∀ p ∈ P, ends p = false)
    (ha : ends a = true) : ∀ q ∈ Q, ends q = true := by
  rw [Tailed, dropWhile_of_not_ends hP, List.dropWhile_cons_of_neg (by simp [ha])] at h
  exact fun q hq => h q (by simp [hq])

lemma dropWhile_congr (h : ∀ b ∈ E, ends' b = ends b) :
    (E.dropWhile fun a => !ends' a) = E.dropWhile fun a => !ends a := by
  induction E with
  | nil => rfl
  | cons b E ih =>
    rw [List.dropWhile_cons, List.dropWhile_cons, h b (by simp),
      ih fun c hc => h c (by simp [hc])]

lemma Tailed.congr (ht : Tailed ends E) (h : ∀ b ∈ E, ends' b = ends b) : Tailed ends' E := by
  rw [Tailed, dropWhile_congr h]
  intro b hb
  rw [h b ((List.dropWhile_suffix _).subset hb)]
  exact ht b hb

/-- A slot that does not end the table, put in the place of another. -/
lemma Tailed.replace (h : Tailed ends (P ++ a :: Q)) (hP : ∀ p ∈ P, ends p = false)
    (hP' : ∀ p ∈ P, ends' p = false) (hQ : ∀ q ∈ Q, ends' q = ends q) (ha' : ends' a = false) :
    Tailed ends' (P ++ a :: Q) := by
  rw [Tailed, dropWhile_of_not_ends hP', List.dropWhile_cons_of_pos (by simp [ha']),
    dropWhile_congr hQ]
  intro b hb
  have hbQ : b ∈ Q := (List.dropWhile_suffix _).subset hb
  rw [hQ b hbQ]
  cases ha : ends a with
  | true => exact h.of_split hP ha b hbQ
  | false =>
    rw [Tailed, dropWhile_of_not_ends hP, List.dropWhile_cons_of_pos (by simp [ha])] at h
    exact h b hb

lemma tailed_append_of_ends (hP : ∀ p ∈ P, ends p = false) (hE : ∀ b ∈ E, ends b = true) :
    Tailed ends (P ++ E) := by
  rw [Tailed, dropWhile_of_not_ends hP]
  exact fun b hb => hE b ((List.dropWhile_suffix _).subset hb)

/-- The live slots around one slot of a table. -/
lemma live_split (hP : ∀ p ∈ P, ends p = false) (ht : ends a = true → ∀ q ∈ Q, ends q = true) :
    live ends used (P ++ a :: Q) =
      P.filter used ++ (if !ends a && used a then [a] else []) ++ live ends used Q := by
  rw [live_append hP, live_cons, List.append_assoc]
  cases ha : ends a with
  | true => simp [live_eq_nil (ht ha)]
  | false => cases hu : used a <;> simp

/-! ### Scanning a table -/

/-- A scan for a live slot that fits: `none` when the slots run out, `some none`
at an end. -/
def probe (ends used hit : α → Bool) : List α → Option (Option α)
  | [] => none
  | a :: E =>
    if ends a then some none
    else if used a && hit a then some (some a)
    else probe ends used hit E

lemma probe_append :
    probe ends used hit (P ++ E) = (probe ends used hit P).or (probe ends used hit E) := by
  induction P with
  | nil => rfl
  | cons p P ih =>
    rw [List.cons_append, probe, probe]
    split_ifs
    · rfl
    · rfl
    · exact ih

/-- A scan finds the first live slot that fits. -/
lemma probe_join (ends used hit : α → Bool) (E : List α) :
    (probe ends used hit E).join = (live ends used E).find? hit := by
  induction E with
  | nil => rfl
  | cons b E ih =>
    rw [probe, live_cons]
    cases h1 : ends b <;> cases h2 : used b <;> cases h3 : hit b <;> simp [h3, ih]

lemma mem_of_probe (h : probe ends used hit E = some (some a)) : a ∈ E := by
  have hj := probe_join ends used hit E
  rw [h] at hj
  exact (mem_live (List.mem_of_find?_eq_some hj.symm)).1

lemma probe_ne_none (used hit : α → Bool) (h : a ∈ E) (ha : ends a = true) :
    probe ends used hit E ≠ none := by
  induction E with
  | nil => simp at h
  | cons b E ih =>
    rw [probe]
    rcases List.mem_cons.mp h with rfl | h
    · simp [ha]
    · split_ifs
      · simp
      · simp
      · exact ih h

/-- Where the first live slot that fits sits in the table. -/
lemma find?_live_split (h : (live ends used E).find? hit = some a) :
    ∃ P Q, E = P ++ a :: Q ∧ (∀ p ∈ P, ends p = false) ∧
      (∀ p ∈ P, used p = true → hit p = false) ∧ ends a = false ∧ used a = true ∧ hit a = true := by
  induction E with
  | nil => simp at h
  | cons b E ih =>
    rw [live_cons] at h
    cases hb : ends b with
    | true => simp [hb] at h
    | false =>
      by_cases hfit : used b = true ∧ hit b = true
      · obtain rfl : b = a := by simpa [hb, hfit.1, hfit.2] using h
        exact ⟨[], E, rfl, by simp, by simp, hb, hfit.1, hfit.2⟩
      · have hE : (live ends used E).find? hit = some a := by
          cases hu : used b with
          | false => simpa [hb, hu] using h
          | true =>
            have hh : hit b = false := by simpa [hu] using hfit
            simpa [hb, hu, hh] using h
        obtain ⟨P, Q, rfl, h1, h2, h3⟩ := ih hE
        refine ⟨b :: P, Q, rfl, ?_, ?_, h3⟩
        · intro p hp
          rcases List.mem_cons.mp hp with rfl | hp
          · exact hb
          · exact h1 p hp
        · intro p hp hu
          rcases List.mem_cons.mp hp with rfl | hp
          · simpa [hu] using hfit
          · exact h2 p hp hu

end Slots
