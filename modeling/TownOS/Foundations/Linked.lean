import Mathlib

/-!
Chains of nodes that name their successor.

Each node of a linked structure either ends its chain, names the next node, or
holds something that is neither (`Link`). `visit` is the list of nodes met by
following the links for a bounded number of steps, whatever they hold;
`Chain nx a l` says that the nodes from `a` on are exactly `l` and that the
last of them ends the chain.

* `Chain.visit_eq`: a chain is what `visit` meets;
* `Chain.eq`, `Chain.nodup`: a chain is determined by its start, and meets no
  node twice;
* `Chain.congr`: links off the chain do not matter;
* `Chain.last`, `Chain.path`, `Chain.append`: a chain extended at its last node;
* `Follows`, `Loops.follows`: links followed as far as one likes, along a loop.
-/

namespace Linked

variable {α : Type*}

/-- What a node says about its successor. -/
inductive Link (α : Type*) where
  | stop
  | next (b : α)
  | broken
  deriving DecidableEq

/-- The nodes met from `a` on by following at most `n` nodes. -/
def visit (nx : α → Link α) : ℕ → α → List α
  | 0, _ => []
  | n + 1, a => a :: match nx a with
      | .next b => visit nx n b
      | _ => []

/-- The nodes from `a` on are `l`, and the last ends the chain. -/
inductive Chain (nx : α → Link α) : α → List α → Prop where
  | stop {a : α} : nx a = .stop → Chain nx a [a]
  | next {a b : α} {l : List α} : nx a = .next b → Chain nx b l → Chain nx a (a :: l)

/-- The nodes from `a` on are `l`, and the last names `b`. -/
inductive Path (nx : α → Link α) : α → List α → α → Prop where
  | here {a : α} : Path nx a [] a
  | next {a b c : α} {l : List α} : nx a = .next b → Path nx b l c → Path nx a (a :: l) c

variable {nx nx' : α → Link α} {a b : α} {l l' : List α}

lemma chain_cons_iff : Chain nx a (b :: l) ↔
    b = a ∧ (nx a = .stop ∧ l = [] ∨ ∃ c, nx a = .next c ∧ Chain nx c l) := by
  constructor
  · rintro (hs | ⟨hc, h⟩)
    · exact ⟨rfl, .inl ⟨hs, rfl⟩⟩
    · exact ⟨rfl, .inr ⟨_, hc, h⟩⟩
  · rintro ⟨rfl, ⟨hs, rfl⟩ | ⟨c, hc, h⟩⟩
    · exact .stop hs
    · exact .next hc h

instance decidableChain [DecidableEq α] (nx : α → Link α) :
    (a : α) → (l : List α) → Decidable (Chain nx a l)
  | _, [] => .isFalse nofun
  | a, b :: l =>
    match hx : nx a with
    | .stop => decidable_of_iff (b = a ∧ l = []) (by rw [chain_cons_iff, hx]; simp)
    | .next c =>
      have := decidableChain nx c l
      decidable_of_iff (b = a ∧ Chain nx c l) (by rw [chain_cons_iff, hx]; simp)
    | .broken => .isFalse (by rw [chain_cons_iff, hx]; simp)

/-- A path to the start of a chain. -/
lemma Path.chain (h : Path nx a l b) (h' : Chain nx b l') : Chain nx a (l ++ l') := by
  induction h with
  | here => exact h'
  | next hb _ ih => exact .next hb (ih h')

/-- Following the links leads to the end of a path. -/
lemma Path.mem_visit {n : ℕ} (h : Path nx a l b) (hn : l.length < n) : b ∈ visit nx n a := by
  induction h generalizing n with
  | here =>
    obtain ⟨m, rfl⟩ : ∃ m, n = m + 1 := ⟨n - 1, by simp at hn; omega⟩
    exact List.mem_cons_self
  | next hb _ ih =>
    obtain ⟨m, rfl⟩ : ∃ m, n = m + 1 := ⟨n - 1, by simp at hn; omega⟩
    rw [visit, hb]
    exact List.mem_cons_of_mem _ (ih (by simp at hn; omega))

namespace Chain

lemma eq_cons (h : Chain nx a l) : ∃ t, l = a :: t := by
  cases h with
  | stop _ => exact ⟨[], rfl⟩
  | next _ _ => exact ⟨_, rfl⟩

lemma head_eq {t : List α} (h : Chain nx a (b :: t)) : b = a := by
  obtain ⟨_, he⟩ := h.eq_cons
  exact (List.cons.inj he).1

lemma mem_head (h : Chain nx a l) : a ∈ l := by
  obtain ⟨t, rfl⟩ := h.eq_cons
  simp

lemma ne_nil (h : Chain nx a l) : l ≠ [] := by
  obtain ⟨t, rfl⟩ := h.eq_cons
  simp

/-- A chain is what following the links meets. -/
lemma visit_eq (h : Chain nx a l) {n : ℕ} (hn : l.length ≤ n) : visit nx n a = l := by
  induction h generalizing n with
  | stop hs =>
    obtain ⟨m, rfl⟩ : ∃ m, n = m + 1 := ⟨n - 1, by simp at hn; omega⟩
    simp [visit, hs]
  | next hb _ ih =>
    obtain ⟨m, rfl⟩ : ∃ m, n = m + 1 := ⟨n - 1, by simp at hn; omega⟩
    rw [visit, hb]
    exact congrArg _ (ih (by simpa using hn))

/-- A chain is determined by its start. -/
lemma eq (h : Chain nx a l) (h' : Chain nx a l') : l = l' := by
  induction h generalizing l' with
  | stop hs =>
    cases h' with
    | stop _ => rfl
    | next hb _ => rw [hs] at hb; exact absurd hb (by simp)
  | next hb _ ih =>
    cases h' with
    | stop hs => rw [hs] at hb; exact absurd hb (by simp)
    | next hb' hl' =>
      rw [hb] at hb'
      injection hb' with hbb
      subst hbb
      rw [ih hl']

/-- Every node of a chain starts the rest of it. -/
lemma suffix (h : Chain nx a l) {c : α} (hc : c ∈ l) : ∃ t, Chain nx c t ∧ t <:+ l := by
  induction h with
  | stop hs =>
    rw [List.mem_singleton.mp hc]
    exact ⟨_, .stop hs, List.suffix_refl _⟩
  | next hb hl ih =>
    rcases List.mem_cons.mp hc with rfl | hc
    · exact ⟨_, .next hb hl, List.suffix_refl _⟩
    · obtain ⟨t, ht, hs⟩ := ih hc
      exact ⟨t, ht, hs.trans (List.suffix_cons _ _)⟩

/-- A chain meets no node twice: the rest of the chain would have to contain
itself. -/
lemma nodup (h : Chain nx a l) : l.Nodup := by
  induction h with
  | stop _ => simp
  | next hb hl ih =>
    refine List.nodup_cons.mpr ⟨fun hmem => ?_, ih⟩
    obtain ⟨t, ht, hs⟩ := hl.suffix hmem
    have hlen := hs.length_le
    rw [ht.eq (.next hb hl), List.length_cons] at hlen
    omega

lemma congr (h : Chain nx a l) (hnx : ∀ c ∈ l, nx c = nx' c) : Chain nx' a l := by
  induction h with
  | stop hs => exact .stop (by rw [← hnx _ (by simp)]; exact hs)
  | next hb _ ih =>
    exact .next (by rw [← hnx _ (by simp)]; exact hb)
      (ih fun c hc => hnx c (List.mem_cons_of_mem _ hc))

/-- A chain whose last node is made to name another node. -/
lemma path (h : Chain nx a l) (hl : ∀ c ∈ l, c ≠ l.getLast h.ne_nil → nx' c = nx c)
    (hlast : nx' (l.getLast h.ne_nil) = .next b) : Path nx' a l b := by
  induction h with
  | stop hs => exact .next (by simpa using hlast) .here
  | @next a c t hb ht ih =>
    have hlast' : (a :: t).getLast (by simp) = t.getLast ht.ne_nil := List.getLast_cons ht.ne_nil
    have hnd := (Chain.next hb ht).nodup
    have hane : a ≠ t.getLast ht.ne_nil := fun he =>
      (List.nodup_cons.mp hnd).1 (he ▸ List.getLast_mem ht.ne_nil)
    refine .next ?_ (ih (fun x hx hxne => hl x (by simp [hx]) (by rw [hlast']; exact hxne)) ?_)
    · rw [hl a (by simp) (by rw [hlast']; exact hane)]; exact hb
    · rw [← hlast']; exact hlast

/-- A chain whose last node is made to name the start of another. -/
lemma append (h : Chain nx a l) (hl : ∀ c ∈ l, c ≠ l.getLast h.ne_nil → nx' c = nx c)
    (hlast : nx' (l.getLast h.ne_nil) = .next b) (h' : Chain nx' b l') :
    Chain nx' a (l ++ l') := (h.path hl hlast).chain h'

end Chain

/-! ### Links that lead back -/

/-- The nodes of `l` are met one after the other from `a` on, whatever the last of them
holds. -/
inductive Follows (nx : α → Link α) : α → List α → Prop where
  | nil {a : α} : Follows nx a []
  | one {a : α} : Follows nx a [a]
  | next {a b : α} {l : List α} : nx a = .next b → Follows nx b l → Follows nx a (a :: l)

lemma follows_cons_iff {t : List α} : Follows nx a (b :: t) ↔
    b = a ∧ (t = [] ∨ ∃ c, nx a = .next c ∧ Follows nx c t) := by
  constructor
  · intro h
    cases h with
    | one => exact ⟨rfl, .inl rfl⟩
    | next hc ht => exact ⟨rfl, .inr ⟨_, hc, ht⟩⟩
  · rintro ⟨rfl, rfl | ⟨c, hc, ht⟩⟩
    · exact .one
    · exact .next hc ht

/-- Following the links from `a` meets a node again. -/
def Loops (nx : α → Link α) (a : α) : Prop :=
  ∃ c, Relation.ReflTransGen (fun x y => nx x = .next y) a c ∧
    Relation.TransGen (fun x y => nx x = .next y) c c

/-- A node from which the links lead back has a successor with that property. -/
lemma Loops.next (h : Loops nx a) : ∃ b, nx a = .next b ∧ Loops nx b := by
  obtain ⟨c, hreach, hloop⟩ := h
  rcases Relation.ReflTransGen.cases_head hreach with rfl | ⟨b, hb, hrest⟩
  · obtain ⟨b, hb, hrest⟩ := Relation.TransGen.head'_iff.mp hloop
    exact ⟨b, hb, a, hrest, hloop⟩
  · exact ⟨b, hb, c, hrest, hloop⟩

/-- Along a loop the links can be followed as far as one likes. -/
lemma Loops.follows (h : Loops nx a) (n : ℕ) : ∃ l, Follows nx a l ∧ l.length = n := by
  induction n generalizing a with
  | zero => exact ⟨[], .nil, rfl⟩
  | succ n ih =>
    obtain ⟨b, hb, hloop⟩ := h.next
    obtain ⟨l, hl, hlen⟩ := ih hloop
    exact ⟨a :: l, .next hb hl, by rw [List.length_cons, hlen]⟩

end Linked
