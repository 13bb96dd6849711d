import Mathlib

/-!
Doubly linked lists.

Every node names a successor and a predecessor (`Links`); `Linked L l` says that
the nodes of `l`, taken in order, name one another.

* `Linked.congr`: the pointers of other nodes do not matter;
* `Linked.push`, `Linked.remove`: the two relinkings, a node put in behind the
  first one and a node taken out between two others, given by the pointers they
  leave behind;
* `Linked.split`: the neighbours of a node, read off its pointers;
* `search`: the nodes are followed until one ends the list or is wanted, and
  `search_eq`: this is a search of the list itself.
-/

namespace DoublyLinked

variable {α : Type*}

/-- The two pointers of every node. -/
structure Links (α : Type*) where
  next : α → α
  prev : α → α

/-- Neighbours name one another. -/
def Linked (L : Links α) (l : List α) : Prop := l.IsChain fun a b => L.next a = b ∧ L.prev b = a

variable {L L' : Links α} {l l₁ l₂ : List α} {b e f n p x : α}

lemma Linked.congr (h : Linked L l) (hn : ∀ a ∈ l, L'.next a = L.next a)
    (hp : ∀ a ∈ l.tail, L'.prev a = L.prev a) : Linked L' l :=
  List.IsChain.imp_of_mem_tail_imp
    (fun a c ha hc hr => ⟨(hn a ha).trans hr.1, (hp c hc).trans hr.2⟩)
    h

/-- A node is put in behind the first one. -/
lemma Linked.push (h : Linked L (b :: f :: l)) (hbx : L'.next b = x) (hxb : L'.prev x = b)
    (hxf : L'.next x = f) (hfx : L'.prev f = x) (hn : ∀ a ∈ f :: l, L'.next a = L.next a)
    (hp : ∀ a ∈ l, L'.prev a = L.prev a) : Linked L' (b :: x :: f :: l) := by
  have hrest : Linked L (f :: l) := (List.isChain_cons_cons.mp h).2
  exact List.isChain_cons_cons.mpr
    ⟨⟨hbx, hxb⟩, List.isChain_cons_cons.mpr ⟨⟨hxf, hfx⟩, hrest.congr hn hp⟩⟩

/-- The neighbours of a node, and the two halves of the list. -/
lemma Linked.split (h : Linked L (l₁ ++ p :: x :: n :: l₂)) :
    Linked L (l₁ ++ [p]) ∧ (L.next p = x ∧ L.prev x = p) ∧ (L.next x = n ∧ L.prev n = x) ∧
      Linked L (n :: l₂) := by
  obtain ⟨h₁, hpx, h₂⟩ := List.isChain_append_cons_cons.mp h
  obtain ⟨hxn, h₃⟩ := List.isChain_cons_cons.mp h₂
  exact ⟨h₁, hpx, hxn, h₃⟩

/-- A node is taken out between two others. -/
lemma Linked.remove (h : Linked L (l₁ ++ p :: x :: n :: l₂)) (hpn : L'.next p = n)
    (hnp : L'.prev n = p) (hn₁ : ∀ a ∈ l₁, L'.next a = L.next a)
    (hn₂ : ∀ a ∈ n :: l₂, L'.next a = L.next a) (hp₁ : ∀ a ∈ (l₁ ++ [p]).tail, L'.prev a = L.prev a)
    (hp₂ : ∀ a ∈ l₂, L'.prev a = L.prev a) : Linked L' (l₁ ++ p :: n :: l₂) := by
  obtain ⟨h₁, -, -, h₂⟩ := h.split
  refine List.isChain_append_cons_cons.mpr ⟨?_, ⟨hpn, hnp⟩, h₂.congr hn₂ hp₂⟩
  -- the successor of `p` has changed, but `p` is the last node of this half
  refine List.isChain_iff_forall_rel_of_append_cons_cons.mpr fun a c l₃ l₄ hl => ?_
  obtain ⟨hac, hca⟩ := List.isChain_iff_forall_rel_of_append_cons_cons.mp h₁ hl
  have ha : a ∈ l₁ := by
    have hd : (l₁ ++ [p]).dropLast = (l₃ ++ a :: c :: l₄).dropLast := by rw [hl]
    rw [List.dropLast_concat, List.dropLast_append_of_ne_nil (by simp)] at hd
    rw [hd, List.dropLast_cons_of_ne_nil (by simp)]
    simp
  have hc : c ∈ (l₁ ++ [p]).tail := by
    rw [hl]
    cases l₃ with
    | nil => exact List.mem_cons_self
    | cons d l₃ => simp
  exact ⟨(hn₁ a ha).trans hac, (hp₁ c hc).trans hca⟩

/-! ### Searching -/

/-- Follow the successors from a node on, for a bounded number of nodes: stop at a node that
ends the list, or at one that is wanted. -/
def search (L : Links α) (ends wanted : α → Bool) : ℕ → α → Option α
  | 0, _ => none
  | k + 1, a => if ends a then none else if wanted a then some a
      else search L ends wanted k (L.next a)

/-- A bound beyond the length of the list does not matter: the list is searched. -/
lemma search_eq {ends wanted : α → Bool} {k : ℕ} (h : Linked L (b :: (l ++ [e])))
    (he : ends e = true) (hl : ∀ a ∈ l, ends a = false) (hk : l.length < k) :
    search L ends wanted k (L.next b) = l.find? wanted := by
  induction l generalizing b k with
  | nil =>
    obtain ⟨k, rfl⟩ : ∃ j, k = j + 1 := ⟨k - 1, by simp at hk; omega⟩
    have hb : L.next b = e := (List.isChain_cons_cons.mp h).1.1
    rw [hb, search, if_pos he, List.find?_nil]
  | cons x l ih =>
    obtain ⟨k, rfl⟩ : ∃ j, k = j + 1 := ⟨k - 1, by simp at hk; omega⟩
    obtain ⟨⟨hb, -⟩, hrest⟩ := List.isChain_cons_cons.mp h
    rw [hb, search, hl x List.mem_cons_self, if_neg Bool.false_ne_true]
    cases hw : wanted x with
    | true => rw [if_pos rfl, List.find?_cons_of_pos hw]
    | false =>
      rw [if_neg Bool.false_ne_true, List.find?_cons_of_neg (by simp [hw])]
      exact ih hrest (fun a ha => hl a (List.mem_cons_of_mem x ha)) (by simp at hk; omega)

end DoublyLinked
