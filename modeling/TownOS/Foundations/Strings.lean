import Mathlib

/-!
Strings in memory, and the pieces between separators.

A string is a run of characters that ends with the character 0 (`Text`). A loop that looks for a
character goes from one address to the next (`scan`); the number of rounds is bounded, and a bound
that is large enough does not show.

A separator cuts a list into pieces. A `Piece` is a stretch without separators that cannot be
extended: on each side of it there is a separator or an end of the list.

* `scan_eq`: where a scan stops;
* `Text.right`, `Text.cut`: the two parts of a string in which a character is overwritten by 0;
* `Text.congr`: a string depends on its own addresses only;
* `exists_piece`, `piece_cons_iff`, `piece_append_iff`: the pieces, from left to right;
* `Pieces`: a list of all the pieces in order, with `Pieces.replicate_append` and `Pieces.append`.
-/

namespace Strings

variable {α : Type*}

/-! ### Strings in memory -/

section Text

variable [Zero α] {m m' : ℕ → α} {a : ℕ} {c : α} {s t : List α}

/-- At the address there is the string `s`: its characters, none of them 0, and then a 0. -/
def Text (m : ℕ → α) : ℕ → List α → Prop
  | a, [] => m a = 0
  | a, c :: s => m a = c ∧ c ≠ 0 ∧ Text m (a + 1) s

instance decidableText [DecidableEq α] (m : ℕ → α) : ∀ (a : ℕ) (s : List α), Decidable (Text m a s)
  | a, [] => inferInstanceAs (Decidable (m a = 0))
  | a, c :: s =>
    have := decidableText m (a + 1) s
    inferInstanceAs (Decidable (m a = c ∧ c ≠ 0 ∧ Text m (a + 1) s))

@[simp]
lemma text_nil : Text m a [] ↔ m a = 0 := Iff.rfl

/-- The rest of a string is a string. -/
lemma Text.right (h : Text m a (s ++ t)) : Text m (a + s.length) t := by
  induction s generalizing a with
  | nil => exact h
  | cons c s ih =>
    rw [List.length_cons, Nat.add_comm s.length, ← Nat.add_assoc]
    exact ih h.2.2

lemma Text.behind {n : ℕ} (h : Text m a (List.replicate n c ++ t)) : Text m (a + n) t := by
  have hright := h.right
  rwa [List.length_replicate] at hright

lemma Text.stop (h : Text m a s) : m (a + s.length) = 0 := by
  rw [← List.append_nil s] at h
  exact h.right

/-- What holds of the first characters holds of what is in memory. -/
lemma Text.forall_left {P : α → Prop} (h : Text m a (s ++ t)) (hs : ∀ c ∈ s, P c) {j : ℕ}
    (hj : j < s.length) : P (m (a + j)) := by
  induction s generalizing a j with
  | nil => exact absurd hj (Nat.not_lt_zero j)
  | cons c s ih =>
    obtain ⟨hc, -, h⟩ := h
    cases j with
    | zero =>
      rw [Nat.add_zero, hc]
      exact hs c List.mem_cons_self
    | succ j =>
      have hrest := ih h (fun d hd => hs d (List.mem_cons_of_mem c hd)) (Nat.lt_of_succ_lt_succ hj)
      rwa [Nat.add_assoc, Nat.add_comm 1] at hrest

lemma Text.ne_zero (h : Text m a s) : ∀ c ∈ s, c ≠ 0 := by
  induction s generalizing a with
  | nil => exact fun c hc => absurd hc List.not_mem_nil
  | cons d s ih => exact List.forall_mem_cons.2 ⟨h.2.1, ih h.2.2⟩

/-- A string is cut off by a 0 in the place of one of its characters, or of its end. -/
lemma Text.cut (h : Text m a (s ++ t)) (hsame : ∀ i, a ≤ i → i < a + s.length → m' i = m i)
    (hstop : m' (a + s.length) = 0) : Text m' a s := by
  induction s generalizing a with
  | nil => exact hstop
  | cons c s ih =>
    obtain ⟨hc, h0, h⟩ := h
    rw [List.length_cons] at hsame hstop
    refine ⟨(hsame a le_rfl (by omega)).trans hc, h0, ih h (fun i hi hlt => ?_) ?_⟩
    · exact hsame i (by omega) (by omega)
    · rwa [Nat.add_assoc, Nat.add_comm 1]

/-- A string depends on its own addresses only. -/
lemma Text.congr (h : Text m a s) (hsame : ∀ i, a ≤ i → i ≤ a + s.length → m' i = m i) :
    Text m' a s := by
  refine Text.cut (t := []) (by rwa [List.append_nil]) (fun i hi hlt => hsame i hi hlt.le) ?_
  exact (hsame _ (Nat.le_add_right a _) le_rfl).trans h.stop

end Text

/-! ### Scanning -/

/-- A loop that stops at a character, with a bound on its rounds. -/
def scan (stop : α → Bool) (m : ℕ → α) : ℕ → ℕ → Option ℕ
  | 0, _ => none
  | fuel + 1, a => if stop (m a) then some a else scan stop m fuel (a + 1)

/-- Where a scan stops. -/
lemma scan_eq {stop : α → Bool} {m : ℕ → α} {fuel a n : ℕ} (hfuel : n < fuel)
    (hgo : ∀ j < n, stop (m (a + j)) = false) (hstop : stop (m (a + n)) = true) :
    scan stop m fuel a = some (a + n) := by
  induction n generalizing a fuel with
  | zero =>
    obtain ⟨fuel, rfl⟩ := Nat.exists_eq_succ_of_ne_zero hfuel.ne'
    rw [Nat.add_zero] at hstop ⊢
    rw [scan, if_pos hstop]
  | succ n ih =>
    obtain ⟨fuel, rfl⟩ := Nat.exists_eq_succ_of_ne_zero (Nat.zero_lt_of_lt hfuel).ne'
    have hnext : ∀ j, a + 1 + j = a + (j + 1) := fun j => by omega
    have hfirst : stop (m a) = false := hgo 0 n.succ_pos
    rw [scan, if_neg (by simp [hfirst]), ih (Nat.lt_of_succ_lt_succ hfuel), hnext]
    · exact fun j hj => hnext j ▸ hgo (j + 1) (Nat.succ_lt_succ hj)
    · rwa [hnext]

/-! ### Pieces -/

variable {sep : α} {s t tok tail : List α} {i d n : ℕ} {l : List (ℕ × List α)}

/-- From the place `i` on, `s` has the stretch `t`, which is not empty and has no separator; before
it and after it there is a separator or nothing. -/
def Piece (sep : α) (s : List α) (i : ℕ) (t : List α) : Prop :=
  t ≠ [] ∧ sep ∉ t ∧ ∃ pre post, s = pre ++ (t ++ post) ∧ pre.length = i ∧
    (∀ c ∈ pre.getLast?, c = sep) ∧ ∀ c ∈ post.head?, c = sep

lemma not_piece_nil : ¬ Piece sep [] i t := by
  rintro ⟨hne, -, pre, post, hs, -⟩
  have ht := (List.append_eq_nil_iff.1 (List.append_eq_nil_iff.1 hs.symm).2).1
  exact hne ht

/-- No piece begins at a separator. -/
lemma Piece.pos (h : Piece sep s i t) (hs : ∀ c ∈ s.head?, c = sep) : 0 < i := by
  obtain ⟨hne, hsep, pre, post, rfl, rfl, -⟩ := h
  obtain ⟨c, t, rfl⟩ := List.exists_cons_of_ne_nil hne
  cases pre with
  | nil => exact absurd (hs c rfl ▸ List.mem_cons_self) hsep
  | cons x pre => exact Nat.succ_pos _

/-- A separator in front moves the pieces by one. -/
lemma piece_cons_iff : Piece sep (sep :: s) i t ↔ ∃ j, i = 1 + j ∧ Piece sep s j t := by
  constructor
  · intro h
    have hpos := h.pos (by simp)
    obtain ⟨hne, hsep, pre, post, hs, rfl, hpre, hpost⟩ := h
    obtain ⟨x, pre, rfl⟩ := List.exists_cons_of_ne_nil (List.ne_nil_of_length_pos hpos)
    refine ⟨pre.length, Nat.add_comm _ _, hne, hsep, pre, post,
      (List.cons.inj hs).2, rfl, ?_, hpost⟩
    intro c hc
    exact hpre c (by rw [List.getLast?_cons, Option.mem_def.1 hc]; rfl)
  · rintro ⟨_, rfl, hne, hsep, pre, post, rfl, rfl, hpre, hpost⟩
    refine ⟨hne, hsep, sep :: pre, post, rfl, Nat.add_comm _ _, fun c hc => ?_, hpost⟩
    rw [List.getLast?_cons, Option.mem_some_iff] at hc
    cases hlast : pre.getLast? with
    | none =>
      rw [hlast] at hc
      exact hc.symm
    | some x =>
      rw [hlast] at hc
      exact hc ▸ hpre x hlast

/-- The first piece ends where the first separator is. -/
lemma piece_append_iff (hne : tok ≠ []) (hsep : sep ∉ tok) (htail : ∀ c ∈ tail.head?, c = sep) :
    Piece sep (tok ++ tail) i t ↔
      (i = 0 ∧ t = tok) ∨ ∃ j, i = tok.length + j ∧ Piece sep tail j t := by
  constructor
  · rintro ⟨htne, htsep, pre, post, hs, rfl, hpre, hpost⟩
    rcases List.append_eq_append_iff.1 hs with ⟨a, rfl, hrest⟩ | ⟨b, rfl, hrest⟩
    · -- the piece begins behind the first one
      refine .inr
        ⟨a.length, List.length_append, htne, htsep, a, post, hrest, rfl, fun c hc => ?_, hpost⟩
      exact hpre c (by rw [List.getLast?_append, Option.mem_def.1 hc]; rfl)
    · -- it begins inside the first one, and so at its beginning
      obtain rfl : pre = [] := by
        by_contra hpne
        have hlast := hpre _ (List.getLast?_eq_getLast_of_ne_nil hpne)
        exact hsep (List.mem_append_left b (hlast ▸ List.getLast_mem hpne))
      refine .inl ⟨rfl, ?_⟩
      rw [List.nil_append] at hsep ⊢
      rcases List.append_eq_append_iff.1 hrest with ⟨x, rfl, hx⟩ | ⟨x, rfl, hx⟩
      · cases x with
        | nil => rw [List.append_nil]
        | cons y x => exact absurd (by simp [hpost y (by rw [hx]; rfl)]) hsep
      · cases x with
        | nil => rw [List.append_nil]
        | cons y x => exact absurd (by simp [htail y (by rw [hx]; rfl)]) htsep
  · rintro (⟨rfl, rfl⟩ | ⟨_, rfl, h⟩)
    · exact ⟨hne, hsep, [], tail, rfl, rfl, by simp, htail⟩
    · have hpos := h.pos htail
      obtain ⟨htne, htsep, pre, post, rfl, rfl, hpre, hpost⟩ := h
      have hpne := List.ne_nil_of_length_pos hpos
      refine ⟨htne, htsep, tok ++ pre, post, (List.append_assoc ..).symm, List.length_append,
        fun c hc => hpre c ?_, hpost⟩
      rw [List.getLast?_append] at hc
      rw [List.getLast?_eq_getLast_of_ne_nil hpne] at hc ⊢
      exact hc

/-- A list is made of separators, or of separators, a piece and what comes after it. -/
lemma exists_piece [DecidableEq α] (sep : α) (s : List α) : (∃ n, s = List.replicate n sep) ∨
    ∃ n tok tail, s = List.replicate n sep ++ (tok ++ tail) ∧ tok ≠ [] ∧ sep ∉ tok ∧
      ∀ c ∈ tail.head?, c = sep := by
  induction s with
  | nil => exact .inl ⟨0, rfl⟩
  | cons x s ih =>
    by_cases hx : x = sep
    · subst hx
      rcases ih with ⟨n, rfl⟩ | ⟨n, tok, tail, rfl, htok⟩
      · exact .inl ⟨n + 1, rfl⟩
      · exact .inr ⟨n + 1, tok, tail, rfl, htok⟩
    · refine .inr ⟨0, (x :: s).takeWhile (· ≠ sep), (x :: s).dropWhile (· ≠ sep), ?_, ?_, ?_, ?_⟩
      · exact List.takeWhile_append_dropWhile.symm
      · simp [hx]
      · exact fun hmem => by simpa using List.mem_takeWhile_imp hmem
      · intro c hc
        have hstop := List.head?_dropWhile_not (· ≠ sep) (x :: s)
        rw [Option.mem_def.1 hc] at hstop
        simpa using hstop

/-- The same pieces further up. -/
def shift (d : ℕ) (l : List (ℕ × List α)) : List (ℕ × List α) := l.map fun x => (d + x.1, x.2)

lemma mem_shift : (i, t) ∈ shift d l ↔ ∃ j, i = d + j ∧ (j, t) ∈ l := by
  simp only [shift, List.mem_map, Prod.mk.injEq, Prod.exists]
  constructor
  · rintro ⟨j, u, hmem, rfl, rfl⟩
    exact ⟨j, rfl, hmem⟩
  · rintro ⟨j, rfl, hmem⟩
    exact ⟨j, t, hmem, rfl, rfl⟩

lemma shift_zero (l : List (ℕ × List α)) : shift 0 l = l := by simp [shift]

lemma shift_shift (d e : ℕ) (l : List (ℕ × List α)) : shift d (shift e l) = shift (d + e) l := by
  simp [shift, Nat.add_assoc]

/-- The list has all the pieces of `s`, from left to right. -/
structure Pieces (sep : α) (s : List α) (l : List (ℕ × List α)) : Prop where
  ordered : l.Pairwise fun x y => x.1 + x.2.length < y.1
  mem_iff : ∀ i t, (i, t) ∈ l ↔ Piece sep s i t

lemma pairwise_shift (h : l.Pairwise fun x y => x.1 + x.2.length < y.1) :
    (shift d l).Pairwise fun x y => x.1 + x.2.length < y.1 := by
  rw [shift, List.pairwise_map]
  exact h.imp fun hlt => by dsimp only; omega

lemma pieces_nil : Pieces sep [] [] := by
  refine ⟨List.Pairwise.nil, fun i t => iff_of_false List.not_mem_nil not_piece_nil⟩

/-- Separators in front. -/
lemma Pieces.replicate_append (h : Pieces sep s l) (n : ℕ) :
    Pieces sep (List.replicate n sep ++ s) (shift n l) := by
  induction n with
  | zero =>
    rw [shift_zero]
    exact h
  | succ n ih =>
    rw [List.replicate_succ, List.cons_append, Nat.add_comm, ← shift_shift]
    refine ⟨pairwise_shift ih.ordered, fun i t => ?_⟩
    rw [piece_cons_iff, mem_shift]
    exact exists_congr fun j => and_congr_right fun _ => ih.mem_iff j t

/-- A piece in front of a separator or of the end. -/
lemma Pieces.append (h : Pieces sep tail l) (hne : tok ≠ []) (hsep : sep ∉ tok)
    (htail : ∀ c ∈ tail.head?, c = sep) :
    Pieces sep (tok ++ tail) ((0, tok) :: shift tok.length l) := by
  refine ⟨List.pairwise_cons.2 ⟨fun x hx => ?_, pairwise_shift h.ordered⟩, fun i t => ?_⟩
  · obtain ⟨j, hj, hmem⟩ := mem_shift.1 hx
    have hpos := ((h.mem_iff j x.2).1 hmem).pos htail
    dsimp only
    omega
  · rw [piece_append_iff hne hsep htail, List.mem_cons, Prod.mk.injEq, mem_shift]
    exact or_congr_right (exists_congr fun j => and_congr_right fun _ => h.mem_iff j t)

/-- There is one such list. -/
lemma Pieces.unique {l' : List (ℕ × List α)} (h : Pieces sep s l) (h' : Pieces sep s l') :
    l = l' := by
  have hnodup : ∀ {l : List (ℕ × List α)}, Pieces sep s l → l.Nodup := fun h =>
    h.ordered.imp fun hlt heq => by
      rw [heq] at hlt
      omega
  have hperm : l.Perm l' := (List.perm_ext_iff_of_nodup (hnodup h) (hnodup h')).2 fun x =>
    (h.mem_iff x.1 x.2).trans (h'.mem_iff x.1 x.2).symm
  refine hperm.eq_of_pairwise (fun x y _ _ hxy hyx => ?_) h.ordered h'.ordered
  omega

end Strings
