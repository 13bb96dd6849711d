import TownOS.Memory.Layout

/-!
What the allocator does to the blocks of a heap.

While `el_malloc`, `el_free` and the growth of the heap work, a few neighbouring
blocks are on neither list (`Held`). Between calls every block is on the list its
state names (`Sorted`), and no two neighbours are both available (`Calm`): that is
`Rep`.

* `Held.hold`, `Held.put`: a block is taken off its list, or put on the one its
  state names;
* `Rep.take`, `Rep.malloc`: `el_malloc` turns the first available block that is
  large enough into a used one, and an available one if it is split;
* `Rep.free`: `el_free` merges the block with its available neighbours;
* `Rep.extend`: the heap grows.
-/

namespace TownOS.Memory

open Bytes Tiling

/-- The state of the blocks on a list. -/
def Side.state : Side → UInt8
  | avail => elAvailable
  | used => elUsed

lemma Side.state_inj {s t : Side} (h : s.state = t.state) : s = t := by
  cases s <;> cases t <;> first | rfl | exact absurd h (by decide)

/-- The blocks `old`, between `l` and `r`, are on neither list; the others are on the list
their state names. -/
structure Held (h : Heap) (l old r : List Block) (ls : Side → List Block) : Prop where
  shape : Shape h (l ++ (old ++ r)) ls
  states : ∀ b ∈ l ++ r, ∃ s : Side, b.state = s.state
  sides : ∀ (s : Side) (b : Block), b ∈ ls s ↔ b ∈ l ++ r ∧ b.state = s.state

/-- Every block is on the list its state names. -/
def Sorted (h : Heap) (bs : List Block) (ls : Side → List Block) : Prop := Held h bs [] [] ls

namespace Held

variable {h h' : Heap} {l l' old new r r' : List Block} {ls : Side → List Block} {x : Block}
  {s : Side}

lemma of_shape (hh : Held h l old r ls) (hs : Shape h' (l ++ (new ++ r)) ls) :
    Held h' l new r ls := ⟨hs, hh.states, hh.sides⟩

lemma resplit (hh : Held h l [] r ls) (heq : l ++ r = l' ++ r') : Held h l' [] r' ls := by
  refine ⟨?_, ?_, ?_⟩
  · rw [List.nil_append, ← heq]
    exact hh.shape
  · rw [← heq]
    exact hh.states
  · rw [← heq]
    exact hh.sides

lemma sorted (hh : Held h l [] r ls) : Sorted h (l ++ r) ls := hh.resplit (List.append_nil _).symm

/-- A block that is held is not among the others. -/
lemma not_mem (hh : Held h l old r ls) (hx : x ∈ old) : x ∉ l ++ r := by
  have hnd := hh.shape.tiles.nodup Block.addr_lt_fin
  rw [List.nodup_append, List.nodup_append] at hnd
  obtain ⟨-, ⟨-, -, hor⟩, hlo⟩ := hnd
  intro hmem
  obtain hl | hr := List.mem_append.mp hmem
  · exact hlo x hl x (List.mem_append_left _ hx) rfl
  · exact hor x hx x hr rfl

lemma not_listed (hh : Held h l old r ls) (hx : x ∈ old) (s : Side) : x ∉ ls s := fun hs =>
  hh.not_mem hx ((hh.sides s x).mp hs).1

/-- A block is taken off its list. -/
lemma hold (hh : Held h l old (x :: r) ls) (hx : x.state = s.state) :
    ∃ ls', Held (h.remove s x.addr) l (old ++ [x]) r ls' ∧
      Only (Tags h (l ++ (old ++ x :: r))) h.mem (h.remove s x.addr).mem := by
  have hmem : x ∈ ls s := (hh.sides s x).mpr ⟨by simp, hx⟩
  obtain ⟨xs, ys, hl⟩ := List.append_of_mem hmem
  obtain ⟨hshape, honly⟩ := hh.shape.remove hl
  have hnd := hh.shape.nodup s
  rw [hl, List.nodup_middle, List.nodup_cons] at hnd
  have hne : x ∉ l ++ r := by
    have hblocks := hh.shape.tiles.nodup Block.addr_lt_fin
    rw [← List.append_assoc, List.nodup_middle, List.nodup_cons] at hblocks
    intro hx'
    refine hblocks.1 ?_
    simp only [List.mem_append] at hx' ⊢
    tauto
  have hsub : ∀ b, b ∈ l ++ r → b ∈ l ++ x :: r := by
    intro b hb
    simp only [List.mem_append, List.mem_cons] at hb ⊢
    tauto
  have hback : ∀ b, b ∈ l ++ x :: r → b ≠ x → b ∈ l ++ r := by
    intro b hb hbx
    simp only [List.mem_append, List.mem_cons] at hb ⊢
    tauto
  refine ⟨_, ⟨by simpa using hshape, fun b hb => hh.states b (hsub b hb), fun t b => ?_⟩, honly⟩
  obtain rfl | ht := eq_or_ne t s
  · have hiff : b ∈ xs ++ ys ↔ b ∈ ls t ∧ b ≠ x := by
      rw [hl]
      simp only [List.mem_append, List.mem_cons]
      constructor
      · intro hb
        refine ⟨by tauto, ?_⟩
        rintro rfl
        exact hnd.1 (List.mem_append.mpr hb)
      · tauto
    rw [Function.update_self, hiff, hh.sides]
    constructor
    · rintro ⟨⟨hb, hst⟩, hbx⟩
      exact ⟨hback b hb hbx, hst⟩
    · rintro ⟨hb, hst⟩
      exact ⟨⟨hsub b hb, hst⟩, fun heq => hne (heq ▸ hb)⟩
  · rw [Function.update_of_ne ht, hh.sides]
    constructor
    · rintro ⟨hb, hst⟩
      refine ⟨hback b hb ?_, hst⟩
      rintro rfl
      exact ht (Side.state_inj (hst.symm.trans hx))
    · rintro ⟨hb, hst⟩
      exact ⟨hsub b hb, hst⟩

/-- A block is put on the list its state names. -/
lemma put (hh : Held h l (x :: old) r ls) (hx : x.state = s.state) :
    ∃ ls', Held (h.addFront s x.addr) (l ++ [x]) old r ls' ∧
      Only (Tags h (l ++ (x :: old ++ r))) h.mem (h.addFront s x.addr).mem := by
  obtain ⟨hshape, honly⟩ := hh.shape.addFront (s := s) (x := x) (by simp)
    (hh.not_listed List.mem_cons_self)
  have hiff : ∀ b, b ∈ (l ++ [x]) ++ r ↔ b = x ∨ b ∈ l ++ r := by
    intro b
    simp only [List.mem_append, List.mem_singleton]
    tauto
  refine ⟨_, ⟨by simpa using hshape, fun b hb => ?_, fun t b => ?_⟩, honly⟩
  · obtain rfl | hb := (hiff b).mp hb
    · exact ⟨s, hx⟩
    · exact hh.states b hb
  · rw [hiff]
    obtain rfl | ht := eq_or_ne t s
    · rw [Function.update_self, List.mem_cons, hh.sides]
      constructor
      · rintro (rfl | ⟨hb, hst⟩)
        · exact ⟨.inl rfl, hx⟩
        · exact ⟨.inr hb, hst⟩
      · rintro ⟨rfl | hb, hst⟩
        · exact .inl rfl
        · exact .inr ⟨hb, hst⟩
    · rw [Function.update_of_ne ht, hh.sides]
      constructor
      · rintro ⟨hb, hst⟩
        exact ⟨.inr hb, hst⟩
      · rintro ⟨rfl | hb, hst⟩
        · exact absurd (Side.state_inj (hst.symm.trans hx)) ht
        · exact ⟨hb, hst⟩

end Held

/-! ### The bytes that change -/

/-- The heap keeps its place, and memory changes in a region at most. -/
structure Stays (P : ℕ → Prop) (h h' : Heap) : Prop where
  ctl : h'.ctl = h.ctl
  start : h'.heapStart = h.heapStart
  fin : h'.heapEnd = h.heapEnd
  bytes : h'.heapBytes = h.heapBytes
  only : Only P h.mem h'.mem

section Stays

variable {P Q : ℕ → Prop} {h h' h'' : Heap} {l old new r : List Block} {i : ℕ}

lemma Stays.refl (P : ℕ → Prop) (h : Heap) : Stays P h h := ⟨rfl, rfl, rfl, rfl, Only.refl P _⟩

lemma Stays.trans (h₁ : Stays P h h') (h₂ : Stays P h' h'') : Stays P h h'' :=
  ⟨h₂.ctl.trans h₁.ctl, h₂.start.trans h₁.start, h₂.fin.trans h₁.fin, h₂.bytes.trans h₁.bytes,
    h₁.only.trans h₂.only⟩

lemma Stays.mono (h₁ : Stays P h h') (hPQ : ∀ i, P i → Q i) : Stays Q h h' :=
  ⟨h₁.ctl, h₁.start, h₁.fin, h₁.bytes, h₁.only.mono hPQ⟩

lemma stays_setList {s : Side} {y : (ℕ → UInt8) × BlockList}
    (ho : Only P h.mem (h.setList s y).mem) : Stays P h (h.setList s y) :=
  ⟨by simp, by simp, by simp, by simp, ho⟩

lemma stays_setMem {m : ℕ → UInt8} (ho : Only P h.mem m) : Stays P h (h.setMem m) :=
  ⟨rfl, rfl, rfl, rfl, ho⟩

lemma tags_setMem {bs : List Block} {m : ℕ → UInt8} : Tags (h.setMem m) bs i ↔ Tags h bs i := .rfl

lemma Stays.tags {bs : List Block} (hh : Stays P h h') (hi : Tags h' bs i) : Tags h bs i := by
  rw [Tags, hh.ctl] at hi
  exact hi

lemma tags_congr (old new : List Block) (hsub : ∀ b ∈ old, b.Tag i → ∃ c ∈ new, c.Tag i)
    (hi : Tags h (l ++ (old ++ r)) i) : Tags h (l ++ (new ++ r)) i := by
  obtain hctl | ⟨b, hb, hi⟩ := hi
  · exact .inl hctl
  · simp only [List.mem_append] at hb
    obtain hb | hb | hb := hb
    · exact .inr ⟨b, by simp [hb], hi⟩
    · obtain ⟨c, hc, hi⟩ := hsub b hb hi
      exact .inr ⟨c, by simp [hc], hi⟩
    · exact .inr ⟨b, by simp [hb], hi⟩

end Stays

namespace Held

variable {P : ℕ → Prop} {h h₀ : Heap} {l old r : List Block} {ls : Side → List Block} {x : Block}
  {s : Side}

/-- A block is taken off its list, and a region that holds the tags is all that has changed. -/
lemma hold_stays (hh : Held h l old (x :: r) ls) (hx : x.state = s.state) (h₀h : Stays P h₀ h)
    (hP : ∀ i, Tags h (l ++ (old ++ x :: r)) i → P i) :
    ∃ ls', Held (h.remove s x.addr) l (old ++ [x]) r ls' ∧ Stays P h₀ (h.remove s x.addr) := by
  obtain ⟨ls', hh', honly⟩ := hh.hold hx
  exact ⟨ls', hh', h₀h.trans (stays_setList (honly.mono hP))⟩

/-- A block is put on its list, and a region that holds the tags is all that has changed. -/
lemma put_stays (hh : Held h l (x :: old) r ls) (hx : x.state = s.state) (h₀h : Stays P h₀ h)
    (hP : ∀ i, Tags h (l ++ (x :: old ++ r)) i → P i) :
    ∃ ls', Held (h.addFront s x.addr) (l ++ [x]) old r ls' ∧ Stays P h₀ (h.addFront s x.addr) := by
  obtain ⟨ls', hh', honly⟩ := hh.put hx
  exact ⟨ls', hh', h₀h.trans (stays_setList (honly.mono hP))⟩

/-- A held block changes its state. -/
lemma setState_stays (hh : Held h l (x :: old) r ls) (v : UInt8) (h₀h : Stays P h₀ h)
    (hP : ∀ i, Tags h (l ++ (x :: old ++ r)) i → P i) :
    Held (h.setMem (Memory.setState h.mem x.addr v)) l ({ x with state := v } :: old) r ls ∧
      Stays P h₀ (h.setMem (Memory.setState h.mem x.addr v)) := by
  obtain ⟨hshape, honly⟩ := hh.shape.setState (r := old ++ r) (hh.not_listed List.mem_cons_self) v
  exact ⟨hh.of_shape hshape, h₀h.trans (stays_setMem (honly.mono hP))⟩

end Held

/-! ### Allocation -/

/-- What `el_malloc` makes of the block it has found. -/
def taken (x : Block) (n : ℕ) : List Block :=
  if x.size < n + elBlockOverhead then [{ x with state := elUsed }]
  else [{ x.lower n with state := elUsed }, x.upper n elAvailable]

section Take

variable {h : Heap} {l r : List Block} {ls : Side → List Block} {x : Block} {n i : ℕ}

lemma tags_taken (hi : Tags h (l ++ x :: r) i) : Tags h (l ++ (taken x n ++ r)) i := by
  refine tags_congr [x] _ (fun b hb htag => ?_) hi
  obtain rfl := List.mem_singleton.mp hb
  rw [taken]
  split_ifs with hn
  · exact ⟨_, List.mem_singleton_self _, htag⟩
  · have : (b.lower n).Tag i ∨ (b.upper n elAvailable).Tag i := by
      simp only [Block.Tag, Block.lower, Block.upper, Block.foot, Block.fin, sizeofHead,
        elBlockOverhead] at htag hn ⊢
      omega
    obtain hlow | hup := this
    · exact ⟨_, List.mem_cons_self, hlow⟩
    · exact ⟨_, by simp, hup⟩

/-- `el_malloc` takes the block it has found. -/
lemma Sorted.take (hs : Sorted h (l ++ x :: r) ls) (hx : x.state = elAvailable)
    (hle : n ≤ x.size) :
    ∃ ls', Sorted (elTake h x.addr n) (l ++ (taken x n ++ r)) ls' ∧
      Stays (Tags h (l ++ (taken x n ++ r))) h (elTake h x.addr n) := by
  set P := Tags h (l ++ (taken x n ++ r)) with hPdef
  have hP₀ : ∀ i, Tags h (l ++ x :: r) i → P i := fun i hi => tags_taken hi
  have hh₀ : Held h l [] (x :: r) ls := hs.resplit (List.append_nil _)
  obtain ⟨ls₁, hh₁, hst₁⟩ := hh₀.hold_stays (s := .avail) hx (Stays.refl P h) hP₀
  set h₁ := h.remove .avail x.addr with hh₁def
  have hsize : headSize h₁.mem x.addr = x.size := (hh₁.shape.tagged x (by simp)).size
  by_cases hn : x.size < n + elBlockOverhead
  · -- the block is taken whole
    have hlt : n + elBlockOverhead < 2 ^ 64 := by
      have hfin := (hh₁.shape.bounds (b := x) (by simp)).2
      have := hh₁.shape.bound
      rw [Block.fin] at hfin
      omega
    have htake : elTake h x.addr n
        = (h₁.setMem (setState h₁.mem x.addr elUsed)).addFront .used x.addr := by
      rw [elTake, ← hh₁def, elSplitBlock, hsize, Nat.mod_eq_of_lt hlt, if_pos hn]
    obtain ⟨hh₂, hst₂⟩ := hh₁.setState_stays elUsed hst₁ fun i hi => hP₀ i (hst₁.tags hi)
    obtain ⟨ls₃, hh₃, hst₃⟩ := hh₂.put_stays (s := .used) rfl hst₂ fun i hi => by
      rw [hPdef, taken, if_pos hn]
      exact hst₂.tags hi
    rw [htake, taken, if_pos hn]
    refine ⟨ls₃, ?_, hst₃⟩
    have := hh₃.sorted
    rwa [List.append_assoc] at this
  · -- the block is split
    obtain ⟨v, m', hsplit, hshape, honly⟩ := hh₁.shape.split (r := r)
      (hh₁.not_listed (by simp)) (Nat.not_lt.mp hn)
    -- the states of the two halves change, their tags stay where they are
    have hP₁ : ∀ u i, Tags h (l ++ { x.lower n with state := u } :: x.upper n v :: r) i → P i := by
      intro u i hi
      rw [hPdef, taken, if_neg hn]
      refine tags_congr [{ x.lower n with state := u }, x.upper n v] _
        (fun b hb htag => ?_) hi
      simp only [List.mem_cons, List.not_mem_nil, or_false] at hb
      obtain rfl | rfl := hb
      · exact ⟨_, List.mem_cons_self, htag⟩
      · exact ⟨x.upper n elAvailable, by simp, htag⟩
    have htake : elTake h x.addr n =
        let h₂ := (h₁.setMem (setState m' x.addr elUsed)).addFront .used x.addr
        (h₂.setMem (setState h₂.mem (x.upper n v).addr elAvailable)).addFront .avail
          (x.upper n v).addr := by
      rw [elTake, ← hh₁def, hsplit]
    have hh₂ : Held (h₁.setMem m') l [x.lower n, x.upper n v] r ls₁ := hh₁.of_shape hshape
    have hst₂ : Stays P h (h₁.setMem m') :=
      hst₁.trans (stays_setMem (honly.mono fun i hi => hP₁ x.state i (hst₁.tags hi)))
    obtain ⟨hh₃, hst₃⟩ := hh₂.setState_stays elUsed hst₂ fun i hi =>
      hP₁ x.state i (hst₂.tags hi)
    obtain ⟨ls₄, hh₄, hst₄⟩ := hh₃.put_stays (s := .used) rfl hst₃ fun i hi =>
      hP₁ elUsed i (hst₃.tags hi)
    obtain ⟨hh₅, hst₅⟩ := hh₄.setState_stays elAvailable hst₄ fun i hi => hP₁ elUsed i (by
      have := hst₄.tags hi
      rwa [List.append_assoc] at this)
    obtain ⟨ls₆, hh₆, hst₆⟩ := hh₅.put_stays (s := .avail) rfl hst₅ fun i hi => by
      rw [hPdef, taken, if_neg hn]
      have := hst₅.tags hi
      rwa [List.append_assoc] at this
    rw [htake, taken, if_neg hn]
    refine ⟨ls₆, ?_, hst₆⟩
    have := hh₆.sorted
    rwa [List.append_assoc, List.append_assoc] at this

end Take

lemma Sorted.shape' {h : Heap} {bs : List Block} {ls : Side → List Block} (hs : Sorted h bs ls) :
    Shape h bs ls := by
  have := hs.shape
  rwa [List.append_nil, List.append_nil] at this

/-! ### Headers of freed blocks -/

/-- The header of a block that was freed: the block is there and available, or its header has been
swallowed by an available block and still says so. -/
structure Stale (h : Heap) (bs : List Block) (a : ℕ) : Prop where
  state : headState h.mem a = elAvailable
  within : ∃ b ∈ bs, b.state = elAvailable ∧
    (b.addr = a ∨ b.payload ≤ a + 8 ∧ a + 8 < b.payload + b.size)

section Stale

variable {h h' : Heap} {bs bs' : List Block} {ls : Side → List Block} {b x y : Block} {a : ℕ}

lemma Shape.stale_self (hs : Shape h bs ls) (hb : b ∈ bs) (hst : b.state = elAvailable) :
    Stale h bs b.addr := ⟨(hs.tagged b hb).state.trans hst, b, hb, hst, .inl rfl⟩

/-- A header that is swallowed is not written to, and one that is not is known from its block. -/
lemma Stale.of_stays (h₀ : Stale h bs a) (hs : Shape h bs ls) {ls' : Side → List Block}
    (hs' : Shape h' bs' ls') (hst : Stays (Tags h bs) h h')
    (hsub : ∀ b ∈ bs, b.state = elAvailable → b ∈ bs') : Stale h' bs' a := by
  obtain ⟨hstate, b, hb, hav, rfl | hin⟩ := h₀
  · exact hs'.stale_self (hsub b hb hav) hav
  · have hkept := hst.only _ (hs.payload_untagged hb hin.1 hin.2)
    exact ⟨hkept.trans hstate, b, hsub b hb hav, hav, .inr hin⟩

/-- Two available neighbours become one. -/
lemma Stale.merge {l r : List Block} (h₀ : Stale h (l ++ x :: y :: r) a)
    (hs : Shape h (l ++ x :: y :: r) ls) {ls' : Side → List Block}
    (hs' : Shape h' (l ++ x.merge y :: r) ls') (hst : Stays (Tags h (l ++ x :: y :: r)) h h')
    (hx : x.state = elAvailable) (hy : headState h'.mem y.addr = elAvailable) :
    Stale h' (l ++ x.merge y :: r) a := by
  have hxy : x.fin = y.addr := (tiles_append_cons.mp hs.tiles).2.1.symm
  have hmem : x.merge y ∈ l ++ x.merge y :: r := by simp
  obtain ⟨hstate, b, hb, hav, hin⟩ := h₀
  have hkept : b.payload ≤ a + 8 ∧ a + 8 < b.payload + b.size →
      headState h'.mem a = elAvailable := fun hin =>
    (hst.only _ (hs.payload_untagged hb hin.1 hin.2)).trans hstate
  simp only [List.mem_append, List.mem_cons] at hb
  have hother : b ∈ l ∨ b ∈ r → Stale h' (l ++ x.merge y :: r) a := by
    intro hb'
    have hb' : b ∈ l ++ x.merge y :: r := by
      simp only [List.mem_append, List.mem_cons]
      exact hb'.imp_right .inr
    obtain rfl | hin := hin
    · exact hs'.stale_self hb' hav
    · exact ⟨hkept hin, b, hb', hav, .inr hin⟩
  obtain hb | rfl | rfl | hb := hb
  · exact hother (.inl hb)
  · obtain rfl | hin := hin
    · exact hs'.stale_self (b := b.merge y) hmem hx
    · refine ⟨hkept hin, _, hmem, hx, .inr ?_⟩
      simp only [Block.merge, Block.payload] at hin ⊢
      omega
  · have hbounds : x.addr ≤ b.addr := by
      rw [← hxy]
      exact (Block.addr_lt_fin x).le
    simp only [Block.fin, elBlockOverhead] at hxy
    obtain rfl | hin := hin
    · refine ⟨hy, _, hmem, hx, .inr ?_⟩
      simp only [Block.merge, Block.payload, sizeofHead, elBlockOverhead]
      omega
    · refine ⟨hkept hin, _, hmem, hx, .inr ?_⟩
      simp only [Block.merge, Block.payload, sizeofHead, elBlockOverhead] at hin ⊢
      omega
  · exact hother (.inr hb)

end Stale

/-! ### Merging -/

/-- What `el_merge_block_with_above` makes of a block and those above it. -/
def mergeAbove (x : Block) : List Block → List Block
  | [] => [x]
  | y :: r =>
    if x.state = elAvailable ∧ y.state = elAvailable then x.merge y :: r else x :: y :: r

section Merge

variable {h : Heap} {l r : List Block} {ls : Side → List Block} {x y : Block} {i : ℕ}

/-- The tags that remain were there before. -/
lemma tags_merge (hxy : x.fin = y.addr) (hi : Tags h (l ++ x.merge y :: r) i) :
    Tags h (l ++ x :: y :: r) i := by
  refine tags_congr [x.merge y] [x, y] (fun b hb htag => ?_) hi
  obtain rfl := List.mem_singleton.mp hb
  have : x.Tag i ∨ y.Tag i := by
    simp only [Block.Tag, Block.merge, Block.foot, Block.fin, sizeofHead, elBlockOverhead]
      at htag hxy ⊢
    omega
  obtain hx | hy := this
  · exact ⟨x, by simp, hx⟩
  · exact ⟨y, by simp, hy⟩

lemma Sorted.merge (hs : Sorted h (l ++ x :: y :: r) ls) (hx : x.state = elAvailable)
    (hy : y.state = elAvailable) :
    ∃ ls', Sorted (elMerge h x.addr y.addr) (l ++ x.merge y :: r) ls' ∧
      Stays (Tags h (l ++ x :: y :: r)) h (elMerge h x.addr y.addr) ∧
      headState (elMerge h x.addr y.addr).mem y.addr = elAvailable := by
  set P := Tags h (l ++ x :: y :: r)
  have hh₀ : Held h l [] (x :: y :: r) ls := hs.resplit (List.append_nil _)
  have hxy : x.fin = y.addr := (tiles_append_cons.mp hh₀.shape.tiles).2.1.symm
  obtain ⟨ls₁, hh₁, hst₁⟩ := hh₀.hold_stays (s := .avail) hx (Stays.refl P h) fun i hi => hi
  obtain ⟨ls₂, hh₂, hst₂⟩ := hh₁.hold_stays (s := .avail) hy hst₁ fun i hi => hst₁.tags hi
  obtain ⟨hshape, honly⟩ := hh₂.shape.merge (l := l) (x := x) (y := y) (r := r)
    (hh₂.not_listed (by simp)) (hh₂.not_listed (by simp))
  have hst₃ := hst₂.trans (stays_setMem (honly.mono fun i hi => tags_merge hxy (hst₂.tags hi)))
  have hh₃ : Held _ l [x.merge y] _ _ := hh₂.of_shape hshape
  obtain ⟨ls₄, hh₄, honly₄⟩ := hh₃.put (s := .avail) hx
  have hst₄ := hst₃.trans (stays_setList (honly₄.mono fun i hi => tags_merge hxy (hst₃.tags hi)))
  refine ⟨ls₄, ?_, hst₄, ?_⟩
  · have := hh₄.sorted
    rwa [List.append_assoc] at this
  · -- the upper header is now in the middle of the payload
    have hin : (x.merge y).payload ≤ y.addr + 8 ∧
        y.addr + 8 < (x.merge y).payload + (x.merge y).size := by
      simp only [Block.fin, elBlockOverhead] at hxy
      simp only [Block.merge, Block.payload, sizeofHead, elBlockOverhead]
      omega
    have hfree := hshape.payload_untagged (b := x.merge y) (by simp) hin.1 hin.2
    have hput := honly₄ (y.addr + 8) hfree
    have hmid := (stays_setMem honly).only (y.addr + 8) (mt tags_setMem.mpr hfree)
    exact hput.trans (hmid.trans ((hh₂.shape.tagged y (by simp)).state.trans hy))

/-- The block above, as the tags give it. -/
lemma Sorted.blockAbove (hs : Sorted h (l ++ x :: r) ls) :
    elBlockAbove h x.addr = r.head?.map Block.addr := by
  have hshape := hs.shape
  rw [List.append_nil, List.append_nil] at hshape
  obtain ⟨-, hr⟩ := tiles_append_cons.mp hshape.tiles
  have hfin : x.addr + (headSize h.mem x.addr + elBlockOverhead) = x.fin := by
    rw [(hshape.tagged x (by simp)).size, Block.fin, Nat.add_assoc]
  rw [elBlockAbove, hfin]
  cases r with
  | nil => exact if_pos hr.ge
  | cons y r =>
    have hle : y.fin ≤ h.heapEnd := hr.2.le Block.addr_lt_fin
    have := y.addr_lt_fin
    have hlt : ¬ h.heapEnd ≤ x.fin := by
      rw [← hr.1]
      omega
    rw [if_neg hlt, ← hr.1]
    rfl

/-- `el_merge_block_with_above`. -/
lemma Sorted.mergeWithAbove (hs : Sorted h (l ++ x :: r) ls) :
    ∃ ls', Sorted (elMergeBlockWithAbove h (some x.addr)) (l ++ mergeAbove x r) ls' ∧
      Stays (Tags h (l ++ x :: r)) h (elMergeBlockWithAbove h (some x.addr)) ∧
      ∀ a, Stale h (l ++ x :: r) a →
        Stale (elMergeBlockWithAbove h (some x.addr)) (l ++ mergeAbove x r) a := by
  have htag : ∀ b ∈ l ++ x :: r, headState h.mem b.addr = b.state := fun b hb =>
    (hs.shape.tagged b (by simpa using hb)).state
  rw [elMergeBlockWithAbove, htag x (by simp), hs.blockAbove]
  cases r with
  | nil =>
    refine ⟨ls, ?_, ?_, ?_⟩
    · simpa [mergeAbove] using hs
    · simpa using Stays.refl _ h
    · simp [mergeAbove]
  | cons y r =>
    rw [List.head?_cons, Option.map_some]
    by_cases hx : x.state = elAvailable
    · by_cases hy : y.state = elAvailable
      · rw [if_neg (not_not.mpr hx)]
        simp only [htag y (by simp), hy, mergeAbove, hx, and_self, if_true, ne_eq,
          not_true_eq_false, if_false]
        obtain ⟨ls', hs', hst, hup⟩ := hs.merge hx hy
        exact ⟨ls', hs', hst, fun a ha => ha.merge hs.shape' hs'.shape' hst hx hup⟩
      · rw [if_neg (not_not.mpr hx)]
        simp only [htag y (by simp), mergeAbove, hy, and_false, if_false, ne_eq,
          not_false_eq_true, if_true]
        exact ⟨ls, hs, Stays.refl _ h, fun _ ha => ha⟩
    · rw [if_pos hx, mergeAbove, if_neg (fun hxy => hx hxy.1)]
      exact ⟨ls, hs, Stays.refl _ h, fun _ ha => ha⟩

/-- The block below, as the tags give it. -/
lemma Sorted.blockBelow (hs : Sorted h (l ++ x :: r) ls) :
    elBlockBelow h x.addr = l.getLast?.map Block.addr := by
  have hshape := hs.shape
  rw [List.append_nil, List.append_nil] at hshape
  obtain ⟨hl, -⟩ := tiles_append_cons.mp hshape.tiles
  obtain rfl | ⟨l, y, rfl⟩ := List.eq_nil_or_concat l
  · rw [elBlockBelow, if_pos hl.ge]
    rfl
  · rw [List.concat_eq_append] at hl hshape ⊢
    have hy : y.fin = x.addr := (tiles_append_cons.mp hl).2
    have hfoot : x.addr - sizeofFoot = y.foot := by
      rw [← hy]
      simp only [Block.fin, Block.foot, sizeofHead, sizeofFoot, elBlockOverhead]
      omega
    have hstart := (hl.bounds Block.addr_lt_fin (a := y) (by simp)).1
    have := y.addr_lt_fin
    rw [elBlockBelow, if_neg (by omega), hfoot, elGetHeader, (hshape.tagged y (by simp)).foot,
      List.getLast?_concat]
    simp only [Block.foot, Option.map_some]
    rw [Nat.add_sub_cancel]

/-- A block that becomes available. -/
def Block.released (x : Block) : Block := { x with state := elAvailable }

lemma tags_release (hi : Tags h (l ++ x.released :: r) i) : Tags h (l ++ x :: r) i := by
  refine tags_congr [x.released] [x] (fun b hb htag => ?_) hi
  obtain rfl := List.mem_singleton.mp hb
  exact ⟨x, List.mem_singleton_self x, htag⟩

lemma tags_mergeAbove {c d : ℕ} (ht : Tiles Block.addr Block.fin c (l ++ x :: r) d)
    (hi : Tags h (l ++ mergeAbove x r) i) : Tags h (l ++ x :: r) i := by
  cases r with
  | nil => exact hi
  | cons y r =>
    rw [mergeAbove] at hi
    split_ifs at hi with hxy
    · exact tags_merge (tiles_append_cons.mp ht).2.1.symm hi
    · exact hi

/-- A used block changes lists. -/
lemma Sorted.release (hs : Sorted h (l ++ x :: r) ls) (hx : x.state = elUsed) :
    ∃ ls', Sorted (elRelease h x.addr) (l ++ x.released :: r) ls' ∧
      Stays (Tags h (l ++ x :: r)) h (elRelease h x.addr) ∧
      ∀ a, Stale h (l ++ x :: r) a → Stale (elRelease h x.addr) (l ++ x.released :: r) a := by
  have hh₀ : Held h l [] (x :: r) ls := hs.resplit (List.append_nil _)
  obtain ⟨ls₁, hh₁, hst₁⟩ := hh₀.hold_stays (s := .used) hx (Stays.refl _ h) fun i hi => hi
  obtain ⟨hh₂, hst₂⟩ := hh₁.setState_stays elAvailable hst₁ fun i hi => hst₁.tags hi
  obtain ⟨ls₃, hh₃, hst₃⟩ := hh₂.put_stays (s := .avail) rfl hst₂ fun i hi =>
    tags_release (hst₂.tags hi)
  have hs₃ := hh₃.sorted
  rw [List.append_assoc] at hs₃
  refine ⟨ls₃, hs₃, hst₃, fun a ha => ha.of_stays hs.shape' hs₃.shape' hst₃ fun b hb hav => ?_⟩
  have hne : b ≠ x := by
    rintro rfl
    exact absurd (hx.symm.trans hav) (by decide)
  simp only [List.mem_append, List.mem_cons] at hb ⊢
  tauto

/-- `el_free` finds the header in front of the pointer it was given. -/
lemma Shape.elFree_eq (hs : Shape h (l ++ x :: r) ls) (hx : x.state = elUsed) :
    elFree h x.payload = elCoalesce (elRelease h x.addr) x.addr := by
  have hstate : headState h.mem x.addr = elUsed := by
    rw [(hs.tagged x (by simp)).state, hx]
  have hpay : x.payload - sizeofHead = x.addr := Nat.add_sub_cancel ..
  have hpos : x.payload ≠ 0 := by
    rw [Block.payload, sizeofHead]
    omega
  rw [elFree, if_neg hpos, hpay, elFreeBlock, hstate, if_neg (by decide)]

end Merge

/-! ### Blocks between two calls -/

/-- No two neighbours are both available. -/
def Calm (bs : List Block) : Prop :=
  bs.IsChain fun a b => ¬ (a.state = elAvailable ∧ b.state = elAvailable)

/-- The used blocks, in the order of their addresses. -/
def usedIn (bs : List Block) : List Block := bs.filter fun b => b.state = elUsed

/-- The heap between two calls. -/
structure Rep (h : Heap) (bs : List Block) : Prop where
  sorted : ∃ ls, Sorted h bs ls
  calm : Calm bs

section Lists

variable {l r bs : List Block} {x y z : Block} {n : ℕ}

lemma usedIn_append : usedIn (l ++ r) = usedIn l ++ usedIn r := List.filter_append l r

lemma usedIn_cons_of_avail (hx : x.state = elAvailable) : usedIn (x :: l) = usedIn l :=
  List.filter_cons_of_neg (by rw [hx]; decide)

lemma usedIn_cons_of_used (hx : x.state = elUsed) : usedIn (x :: l) = x :: usedIn l :=
  List.filter_cons_of_pos (by simpa using hx)

lemma mem_usedIn : x ∈ usedIn bs ↔ x ∈ bs ∧ x.state = elUsed := by
  rw [usedIn, List.mem_filter, decide_eq_true_iff]

/-- Merging leaves the used blocks alone. -/
lemma usedIn_mergeAbove : usedIn (mergeAbove x r) = usedIn (x :: r) := by
  cases r with
  | nil => rfl
  | cons y r =>
    rw [mergeAbove]
    split_ifs with hxy
    · have hm : (x.merge y).state = elAvailable := hxy.1
      rw [usedIn_cons_of_avail hm, usedIn_cons_of_avail hxy.1, usedIn_cons_of_avail hxy.2]
    · rfl

/-- The block that was merged upwards has no available block above it any more. -/
lemma mergeAbove_cons (hx : x.state = elAvailable) (hr : Calm r) :
    ∃ z r', mergeAbove x r = z :: r' ∧ z.addr = x.addr ∧ z.state = elAvailable ∧
      Calm (z :: r') := by
  cases r with
  | nil => exact ⟨x, [], rfl, rfl, hx, List.isChain_singleton x⟩
  | cons y r =>
    rw [mergeAbove]
    split_ifs with hxy
    · refine ⟨x.merge y, r, rfl, rfl, hx, hr.tail.cons fun w hw => ?_⟩
      rintro ⟨-, hw'⟩
      exact hr.rel_head? hw ⟨hxy.2, hw'⟩
    · refine ⟨x, y :: r, rfl, rfl, hx, List.isChain_cons_cons.mpr ⟨hxy, hr⟩⟩

/-- Two lists of blocks that meet at an available block. -/
lemma calm_mergeAbove (hl : Calm (l ++ [y])) (hz : z.state = elAvailable) (hr : Calm (z :: r)) :
    Calm (l ++ mergeAbove y (z :: r)) := by
  rw [mergeAbove]
  split_ifs with hyz
  · obtain ⟨hl₁, -, hly⟩ := List.isChain_append.mp hl
    refine List.isChain_append.mpr ⟨hl₁, hr.tail.cons fun w hw => ?_, fun a ha b hb => ?_⟩
    · rintro ⟨-, hw'⟩
      exact hr.rel_head? hw ⟨hz, hw'⟩
    · rintro ⟨ha', -⟩
      exact hly a ha y (by simp) ⟨ha', hyz.1⟩
  · refine List.isChain_append_cons_cons.mpr ⟨hl, hyz, hr⟩

/-- The address and the size of a block are multiples of 8. -/
def Block.Aligned (b : Block) : Prop := b.addr % 8 = 0 ∧ b.size % 8 = 0

lemma aligned_mergeAbove (h : ∀ b ∈ x :: r, b.Aligned) : ∀ b ∈ mergeAbove x r, b.Aligned := by
  cases r with
  | nil => exact h
  | cons y r =>
    rw [mergeAbove]
    split_ifs with hxy
    · intro b hb
      obtain rfl | hb := List.mem_cons.mp hb
      · have hx := h x (by simp)
        have hy := h y (by simp)
        simp only [Block.Aligned, Block.merge, elBlockOverhead] at hx hy ⊢
        omega
      · exact h b (by simp [hb])
    · exact h

lemma aligned_taken (hx : x.Aligned) (hn : n % 8 = 0) : ∀ b ∈ taken x n, b.Aligned := by
  rw [taken]
  split_ifs with hlt
  · intro b hb
    obtain rfl := List.mem_singleton.mp hb
    exact hx
  · intro b hb
    simp only [List.mem_cons, List.not_mem_nil, or_false] at hb
    simp only [Block.Aligned, elBlockOverhead] at hx hlt ⊢
    obtain rfl | rfl := hb
    · exact ⟨hx.1, hn⟩
    · simp only [Block.upper, elBlockOverhead]
      omega

/-- A block that goes from available to used, or the other way with nothing available around
it, leaves its neighbours calm. -/
lemma Calm.replace {new : List Block} (h : Calm (l ++ x :: r)) (hnew : Calm new)
    (hl : ∀ a ∈ l.getLast?, ∀ b ∈ new.head?,
      ¬ (a.state = elAvailable ∧ x.state = elAvailable) →
        ¬ (a.state = elAvailable ∧ b.state = elAvailable))
    (hr : ∀ a ∈ new.getLast?, ∀ b ∈ r.head?,
      ¬ (x.state = elAvailable ∧ b.state = elAvailable) →
        ¬ (a.state = elAvailable ∧ b.state = elAvailable))
    (hne : new ≠ []) : Calm (l ++ (new ++ r)) := by
  obtain ⟨hl₁, hxr, hlx⟩ := List.isChain_append.mp h
  refine List.isChain_append.mpr ⟨hl₁, List.isChain_append.mpr ⟨hnew, hxr.tail, ?_⟩, ?_⟩
  · exact fun a ha b hb => hr a ha b hb (hxr.rel_head? hb)
  · intro a ha b hb
    rw [List.head?_append_of_ne_nil _ hne] at hb
    exact hl a ha b hb (hlx a ha x (by simp))

/-- The used block `el_malloc` returns. -/
def takenBlock (x : Block) (n : ℕ) : Block :=
  ⟨x.addr, if x.size < n + elBlockOverhead then x.size else n, elUsed⟩

lemma usedIn_taken : usedIn (taken x n) = [takenBlock x n] := by
  rw [taken, takenBlock]
  split_ifs with hn
  · exact usedIn_cons_of_used rfl
  · exact (usedIn_cons_of_used rfl).trans (congrArg _ (usedIn_cons_of_avail rfl))

lemma le_takenBlock_size (hn : n ≤ x.size) : n ≤ (takenBlock x n).size := by
  rw [takenBlock]
  split_ifs
  · exact hn
  · exact le_rfl

lemma Calm.taken (h : Calm (l ++ x :: r)) (hx : x.state = elAvailable) :
    Calm (l ++ (taken x n ++ r)) := by
  have hused : ∀ {b : Block}, b.state = elUsed → ¬ b.state = elAvailable := by
    intro b hb
    rw [hb]
    decide
  rw [Memory.taken]
  split_ifs with hn
  · refine h.replace (List.isChain_singleton _) ?_ ?_ (by simp)
    · rintro a - b hb - ⟨-, hb'⟩
      obtain rfl : _ = b := by simpa using hb
      exact hused rfl hb'
    · rintro a ha b - - ⟨ha', -⟩
      obtain rfl : _ = a := by simpa using ha
      exact hused rfl ha'
  · refine h.replace (List.isChain_pair.mpr fun hab => hused rfl hab.1) ?_ ?_ (by simp)
    · rintro a - b hb - ⟨-, hb'⟩
      obtain rfl : _ = b := by simpa using hb
      exact hused rfl hb'
    · rintro a - b - hxb ⟨-, hb'⟩
      exact hxb ⟨hx, hb'⟩

end Lists

/-! ### The calls -/

namespace Rep

variable {h : Heap} {l r bs : List Block} {x : Block} {n : ℕ}

lemma shape (hr : Rep h bs) : ∃ ls, Shape h bs ls := hr.sorted.imp fun _ hs => hs.shape'

/-- Memory may change where the allocator keeps nothing. -/
lemma setMem {m : ℕ → UInt8} (hr : Rep h bs) (hm : ∀ i, Tags h bs i → m i = h.mem i) :
    Rep (h.setMem m) bs := by
  obtain ⟨⟨ls, hs⟩, hcalm⟩ := hr
  have hshape : Shape (h.setMem m) (bs ++ ([] ++ [])) ls := by
    rw [List.append_nil, List.append_nil]
    exact hs.shape'.setMem hm
  exact ⟨⟨ls, hshape, hs.states, hs.sides⟩, hcalm⟩

/-- **Allocation**: the first available block that is large enough, or NULL if there is none. -/
theorem malloc (hr : Rep h bs) (n : ℕ) :
    (elMalloc h n = (none, h) ∧ ∀ b ∈ bs, b.state = elAvailable → b.size < n) ∨
    ∃ l x r, bs = l ++ x :: r ∧ x.state = elAvailable ∧ n ≤ x.size ∧
      elMalloc h n = (some (takenBlock x n).payload, elTake h x.addr n) ∧
      Rep (elTake h x.addr n) (l ++ (taken x n ++ r)) ∧
      Stays (Tags h (l ++ (taken x n ++ r))) h (elTake h x.addr n) := by
  obtain ⟨⟨ls, hs⟩, hcalm⟩ := hr
  have hside : ∀ b, b ∈ ls .avail ↔ b ∈ bs ∧ b.state = elAvailable := by
    intro b
    rw [hs.sides, List.append_nil]
    rfl
  have hfind := hs.shape'.find (fun b hb => ((hside b).mp hb).2) n
  cases hf : (ls .avail).find? fun b => n ≤ b.size with
  | none =>
    refine .inl ⟨by rw [elMalloc, hfind, hf, Option.map_none], fun b hb hst => ?_⟩
    simpa using List.find?_eq_none.mp hf b ((hside b).mpr ⟨hb, hst⟩)
  | some x =>
    obtain ⟨hx, hst⟩ := (hside x).mp (List.mem_of_find?_eq_some hf)
    have hn : n ≤ x.size := by simpa using List.find?_some hf
    have heq : elMalloc h n = (some (takenBlock x n).payload, elTake h x.addr n) := by
      rw [elMalloc, hfind, hf, Option.map_some]
      rfl
    obtain ⟨l, r, rfl⟩ := List.append_of_mem hx
    obtain ⟨ls', hs', hstays⟩ := hs.take hst hn
    exact .inr ⟨l, x, r, rfl, hst, hn, heq, ⟨⟨ls', hs'⟩, hcalm.taken hst⟩, hstays⟩

/-- **Freeing**: the block is merged with its available neighbours, the other used blocks stay,
and the headers of the blocks freed so far still say so. -/
theorem free (hr : Rep h (l ++ x :: r)) (hx : x.state = elUsed) :
    ∃ bs', Rep (elFree h x.payload) bs' ∧ usedIn bs' = usedIn (l ++ r) ∧
      ((∀ b ∈ l ++ x :: r, b.Aligned) → ∀ b ∈ bs', b.Aligned) ∧
      Stays (Tags h (l ++ x :: r)) h (elFree h x.payload) ∧
      ∀ a, Stale h (l ++ x :: r) a ∨ a = x.addr → Stale (elFree h x.payload) bs' a := by
  obtain ⟨⟨ls, hs⟩, hcalm⟩ := hr
  obtain ⟨hl, hxr, -⟩ := List.isChain_append.mp hcalm
  have hr : Calm r := hxr.tail
  -- the block changes lists, and is merged with the one above
  obtain ⟨ls₁, hs₁, hst₁, hstale₁⟩ := hs.release hx
  obtain ⟨ls₂, hs₂, hst₂, hstale₂⟩ := hs₁.mergeWithAbove
  have hstale : ∀ a, Stale h (l ++ x :: r) a ∨ a = x.addr →
      Stale (elMergeBlockWithAbove (elRelease h x.addr) (some x.addr))
        (l ++ mergeAbove x.released r) a := by
    rintro a (ha | rfl)
    · exact hstale₂ a (hstale₁ a ha)
    · exact hstale₂ _ (hs₁.shape'.stale_self (b := x.released) (by simp) rfl)
  have hst₂ := hst₁.trans (hst₂.mono fun i hi => tags_release (hst₁.tags hi))
  obtain ⟨z, r', hz, hzaddr, hzst, hzcalm⟩ := mergeAbove_cons (x := x.released) rfl hr
  have hused : usedIn (z :: r') = usedIn r := by
    rw [← hz, usedIn_mergeAbove, usedIn_cons_of_avail rfl]
  have htags : ∀ i, Tags h (l ++ z :: r') i → Tags h (l ++ x :: r) i := fun i hi => by
    rw [← hz] at hi
    exact tags_release (tags_mergeAbove hs₁.shape'.tiles hi)
  have halign : (∀ b ∈ l ++ x :: r, b.Aligned) → ∀ b ∈ z :: r', b.Aligned := by
    intro h
    rw [← hz]
    refine aligned_mergeAbove fun b hb => ?_
    obtain rfl | hb := List.mem_cons.mp hb
    · exact h x (by simp)
    · exact h b (by simp [hb])
  rw [hz] at hs₂ hstale
  rw [hs.shape'.elFree_eq hx, elCoalesce]
  set h₂ := elMergeBlockWithAbove (elRelease h x.addr) (some x.addr)
  have hbelow : elBlockBelow h₂ x.addr = l.getLast?.map Block.addr := hzaddr ▸ hs₂.blockBelow
  simp only [hbelow]
  obtain rfl | ⟨l, y, rfl⟩ := List.eq_nil_or_concat l
  · exact ⟨z :: r', ⟨⟨ls₂, hs₂⟩, hzcalm⟩, hused, halign, hst₂, hstale⟩
  · -- and the one below is merged with it
    rw [List.concat_eq_append] at hs₂ hl htags halign hst₂ hstale ⊢
    rw [List.getLast?_concat, Option.map_some]
    rw [List.append_assoc] at hs₂
    obtain ⟨ls₃, hs₃, hst₃, hstale₃⟩ := hs₂.mergeWithAbove (x := y) (r := z :: r')
    refine ⟨_, ⟨⟨ls₃, hs₃⟩, ?_⟩, ?_, fun h => ?_, hst₂.trans (hst₃.mono fun i hi => htags i ?_),
      fun a ha => hstale₃ a ?_⟩
    · exact calm_mergeAbove hl hzst hzcalm
    · rw [usedIn_append, usedIn_mergeAbove, usedIn_append, usedIn_append, ← hused,
        List.append_assoc, ← usedIn_append (l := [y])]
      rfl
    · intro b hb
      obtain hb | hb := List.mem_append.mp hb
      · exact h b (by simp [hb])
      · refine aligned_mergeAbove (fun c hc => ?_) b hb
        obtain rfl | hc := List.mem_cons.mp hc
        · exact h c (by simp)
        · exact halign h c hc
    · rw [List.append_assoc]
      exact hst₂.tags hi
    · have := hstale a ha
      rwa [List.append_assoc] at this

end Rep

/-! ### The slab -/

section Slab

variable {b size beg fin : ℕ}

lemma freshTags_spec (m : ℕ → UInt8) (hlt : b + size + elBlockOverhead < 2 ^ 64) :
    Tagged (freshTags m b size) ⟨b, size, elAvailable⟩ ∧
      Only (fun i => b ≤ i ∧ i < b + size + elBlockOverhead) m (freshTags m b size) := by
  simp only [freshTags, setSize, setState, setNext, setPrev, elBlockOverhead, sizeofHead] at hlt ⊢
  refine ⟨⟨?_, ?_, ?_⟩, ?_⟩
  · show word _ b = size
    rw [word_setWord_of_disjoint (by omega), word_setWord_of_disjoint (by omega),
      word_setByte (by omega), word_setWord_of_disjoint (by omega), word_setWord _ _ (by omega)]
  · show setWord _ _ _ (b + 8) = elAvailable
    rw [setWord_outside (by omega), setWord_outside (by omega), setByte_self]
  · show word _ (b + (32 + size)) = size
    rw [word_setWord_of_disjoint (by omega), word_setWord_of_disjoint (by omega),
      word_setByte (by omega), word_setWord _ _ (by omega)]
  · refine ((((only_setWord fun j hj => ?_).trans (only_setWord fun j hj => ?_)).trans
      (only_setByte ?_)).trans (only_setWord fun j hj => ?_)).trans
        (only_setWord fun j hj => ?_) <;>
      omega

lemma writeBlock_spec (m : ℕ → UInt8) (hlt : b + size + elBlockOverhead < 2 ^ 64) :
    Tagged (writeBlock m b size elAvailable) ⟨b, size, elAvailable⟩ ∧
      Only (fun i => b ≤ i ∧ i < b + size + elBlockOverhead) m
        (writeBlock m b size elAvailable) := by
  have hfoot : elGetFooter (setState (setSize m b size) b elAvailable) b = b + (32 + size) := by
    rw [elGetFooter, headSize, setState, word_setByte (by omega), setSize,
      word_setWord _ _ (by omega), sizeofHead]
  rw [writeBlock, hfoot]
  simp only [setSize, setState, elBlockOverhead] at hlt ⊢
  refine ⟨⟨?_, ?_, word_setWord _ _ (by omega)⟩, ?_⟩
  · show word _ b = size
    rw [word_setWord_of_disjoint (by omega), word_setByte (by omega), word_setWord _ _ (by omega)]
  · show setWord _ _ _ (b + 8) = elAvailable
    rw [setWord_outside (by omega), setByte_self]
  · refine ((only_setWord fun j hj => ?_).trans (only_setByte ?_)).trans
      (only_setWord fun j hj => ?_) <;> omega

/-- `el_init_blocklist` makes an empty list. -/
lemma elInitBlocklist_spec (m : ℕ → UInt8) (hap : Apart beg fin) (hb : beg < 2 ^ 64)
    (hf : fin < 2 ^ 64) :
    Listed (elInitBlocklist m beg fin).1 (elInitBlocklist m beg fin).2 [] ∧
      Only (fun i => beg ≤ i ∧ i < beg + sizeofHead ∨ fin ≤ i ∧ i < fin + sizeofHead) m
        (elInitBlocklist m beg fin).1 := by
  simp only [elInitBlocklist, setSize, setState, setNext, setPrev, Apart, sizeofHead] at hap ⊢
  refine ⟨⟨List.isChain_pair.mpr ⟨?_, ?_⟩, ?_, ?_, rfl, rfl⟩, ?_⟩
  · show word _ (beg + 16) = fin
    rw [word_setWord_of_disjoint (by omega), word_setWord_of_disjoint (by omega),
      word_setWord_of_disjoint (by omega), word_setWord _ _ hf]
  · exact word_setWord _ _ hb
  · show setWord _ _ _ (beg + 8) = elBeginBlock
    rw [setWord_outside (by omega), setWord_outside (by omega), setWord_outside (by omega),
      setWord_outside (by omega), setWord_outside (by omega), setByte_of_ne (by omega),
      setWord_outside (by omega), setByte_self]
  · show setWord _ _ _ (fin + 8) = elEndBlock
    rw [setWord_outside (by omega), setWord_outside (by omega), setWord_outside (by omega),
      setWord_outside (by omega), setWord_outside (by omega), setByte_self]
  · refine (((((((only_setByte ?_).trans (only_setWord fun j hj => ?_)).trans
      (only_setByte ?_)).trans (only_setWord fun j hj => ?_)).trans
      (only_setWord fun j hj => ?_)).trans (only_setWord fun j hj => ?_)).trans
      (only_setWord fun j hj => ?_)).trans (only_setWord fun j hj => ?_) <;> omega

end Slab

/-- The two fixed nodes of a list do not overlap. -/
lemma apart_actual (ctl : ℕ) (s : Side) : Apart (begActual ctl s) (endActual ctl s) := by
  cases s <;> simp only [Apart, begActual, endActual, sizeofHead] <;> omega

/-- The heap with the two empty lists. -/
lemma elInitLists_shape {m : ℕ → UInt8} {ctl heap : ℕ} (hout : ctl + sizeofCtl ≤ heap)
    (hlt : heap < 2 ^ 64) : Shape (elInitLists m ctl heap) [] fun _ => [] := by
  rw [sizeofCtl] at hout
  obtain ⟨ha, -⟩ := elInitBlocklist_spec m (apart_actual ctl .avail)
    (by rw [begActual]; omega) (by rw [endActual]; omega)
  obtain ⟨hu, honly⟩ := elInitBlocklist_spec
    (elInitBlocklist m (begActual ctl .avail) (endActual ctl .avail)).1 (apart_actual ctl .used)
    (by rw [begActual]; omega) (by rw [endActual]; omega)
  refine ⟨rfl, rfl, hlt, ⟨fun s => by cases s <;> rfl, fun s => by cases s <;> rfl, hout⟩, by simp,
    fun s => ?_, by simp, by simp, by simp⟩
  cases s with
  | avail =>
    -- the second list is written elsewhere
    refine ha.of_words fun a ha' j hj => honly _ ?_
    have hnode : a = begActual ctl .avail ∨ a = endActual ctl .avail := by
      simpa [BlockList.nodes, elInitBlocklist] using ha'
    simp only [begActual, endActual, sizeofHead] at hnode hj ⊢
    omega
  | used => exact hu

namespace Rep

variable {h : Heap} {bs : List Block} {nbytes : ℕ}

/-- **The first slab** is one available block. -/
theorem init (m : ℕ → UInt8) {ctl heap initial : ℕ} (hinit : elBlockOverhead ≤ initial)
    (hout : ctl + sizeofCtl ≤ heap) (hlt : heap + initial < 2 ^ 64) :
    Rep (elInit m ctl heap initial) [⟨heap, initial - elBlockOverhead, elAvailable⟩] := by
  set x : Block := ⟨heap, initial - elBlockOverhead, elAvailable⟩
  set h₀ := elInitLists m ctl heap
  have hfin : heap + (initial - elBlockOverhead) + elBlockOverhead = heap + initial := by omega
  obtain ⟨htag, honly⟩ := writeBlock_spec h₀.mem (hfin.trans_lt hlt)
  rw [hfin] at honly
  have hshape :=
    (elInitLists_shape (m := m) hout (by omega)).extend (x := x) htag rfl hfin hlt honly
  have hheld :
      Held (h₀.grow (writeBlock h₀.mem heap (initial - elBlockOverhead) elAvailable) initial)
      [] [x] [] fun _ => [] := ⟨hshape, by simp, by simp⟩
  obtain ⟨ls, hh, -⟩ := hheld.put (s := .avail) rfl
  exact ⟨⟨ls, hh.sorted⟩, List.isChain_singleton x⟩

/-- **Growth**: the new memory becomes a block, and is merged with the last one if that is
available. -/
theorem extend (hr : Rep h bs) (hn : elBlockOverhead ≤ nbytes) (hlt : h.heapEnd + nbytes < 2 ^ 64) :
    ∃ bs', Rep (elExtend h nbytes) bs' ∧ usedIn bs' = usedIn bs ∧
      (∃ b ∈ bs', b.state = elAvailable ∧ nbytes - elBlockOverhead ≤ b.size) ∧
      ((∀ b ∈ bs, b.Aligned) → h.heapEnd % 8 = 0 → nbytes % 8 = 0 → ∀ b ∈ bs', b.Aligned) ∧
      Stays (fun i => Tags h bs i ∨ h.heapEnd ≤ i ∧ i < h.heapEnd + nbytes) (h.grow h.mem nbytes)
        (elExtend h nbytes) := by
  obtain ⟨⟨ls, hs⟩, hcalm⟩ := hr
  set P : ℕ → Prop := fun i => Tags h bs i ∨ h.heapEnd ≤ i ∧ i < h.heapEnd + nbytes with hP
  set x : Block := ⟨h.heapEnd, nbytes - elBlockOverhead, elAvailable⟩ with hx
  have hfin : h.heapEnd + (nbytes - elBlockOverhead) + elBlockOverhead = h.heapEnd + nbytes := by
    omega
  obtain ⟨htag, honly⟩ := freshTags_spec h.mem (hfin.trans_lt hlt)
  rw [hfin] at honly
  set g := h.grow (freshTags h.mem h.heapEnd (nbytes - elBlockOverhead)) nbytes with hg
  have hshape : Shape g (bs ++ [x]) ls := hs.shape'.extend htag rfl hfin hlt honly
  have hheld : Held g bs [x] [] ls := by
    refine ⟨hshape, hs.states, hs.sides⟩
  have htags : ∀ i, Tags g (bs ++ [x]) i → P i := by
    rintro i (hctl | ⟨b, hb, hi⟩)
    · exact .inl (.inl hctl)
    · obtain hb | hb := List.mem_append.mp hb
      · exact .inl (.inr ⟨b, hb, hi⟩)
      · obtain rfl := List.mem_singleton.mp hb
        have := hi.bounds
        rw [Block.fin, hfin] at this
        exact .inr this
  have hst₀ : Stays P (h.grow h.mem nbytes) g :=
    ⟨rfl, rfl, rfl, rfl, honly.mono fun i hi => .inr hi⟩
  obtain ⟨ls₁, hh₁, hst₁⟩ := hheld.put_stays (s := .avail) rfl hst₀ htags
  have hs₁ := hh₁.sorted
  rw [List.append_nil] at hs₁
  have hbelow := hs₁.blockBelow
  have hext : elExtend h nbytes = elMergeBlockWithAbove (g.addFront .avail x.addr)
      (bs.getLast?.map Block.addr) := by
    rw [← hbelow]
    rfl
  rw [hext]
  have hxalign : h.heapEnd % 8 = 0 → nbytes % 8 = 0 → x.Aligned := by
    intro h₁ h₂
    rw [elBlockOverhead] at hn
    simp only [Block.Aligned, hx, elBlockOverhead]
    omega
  obtain rfl | ⟨l, y, rfl⟩ := List.eq_nil_or_concat bs
  · exact ⟨[x], ⟨⟨ls₁, hs₁⟩, List.isChain_singleton x⟩, usedIn_cons_of_avail rfl,
      ⟨x, List.mem_singleton_self x, rfl, le_rfl⟩,
      fun _ h₁ h₂ b hb => List.mem_singleton.mp hb ▸ hxalign h₁ h₂, hst₁⟩
  · rw [List.concat_eq_append] at *
    rw [List.append_assoc] at hs₁
    obtain ⟨ls₂, hs₂, hst₂, -⟩ := hs₁.mergeWithAbove (x := y) (r := [x])
    rw [List.getLast?_concat, Option.map_some]
    refine ⟨_, ⟨⟨ls₂, hs₂⟩, calm_mergeAbove hcalm rfl (List.isChain_singleton x)⟩, ?_, ?_,
      fun h₀ h₁ h₂ b hb => ?_, hst₁.trans (hst₂.mono fun i hi => htags i ?_)⟩
    · rw [usedIn_append, usedIn_mergeAbove, usedIn_append]
      refine congrArg _ ?_
      rw [show [y, x] = [y] ++ [x] from rfl, usedIn_append, usedIn_cons_of_avail (x := x) rfl]
      exact List.append_nil _
    · rw [mergeAbove]
      split_ifs with hyx
      · refine ⟨y.merge x, by simp, hyx.1, ?_⟩
        simp only [Block.merge, hx]
        omega
      · exact ⟨x, by simp, rfl, le_rfl⟩
    · obtain hb | hb := List.mem_append.mp hb
      · exact h₀ b (by simp [hb])
      · refine aligned_mergeAbove (fun c hc => ?_) b hb
        obtain rfl | hc := List.mem_cons.mp hc
        · exact h₀ c (by simp)
        · exact List.mem_singleton.mp hc ▸ hxalign h₁ h₂
    · rw [List.append_assoc]
      exact hst₁.tags hi

end Rep

end TownOS.Memory
