import TownOS.Foundations.Tiling
import TownOS.Memory.Heap

/-!
What the memory of a heap holds.

A `Block` is what a header and its footer say. `Shape h bs ls` says that the
blocks `bs` tile the heap, that memory holds their tags, and that the two lists
link the blocks `ls`, in both directions and with exact counters. It says nothing
about which block is on which list: that is so while the allocator works, when a
block is taken off one list, changed, and put on another.

* `Shape.addFront`, `Shape.remove`: the list surgery;
* `Shape.setState`, `Shape.split`, `Shape.merge`, `Shape.extend`: the blocks
  change, while they are on neither list;
* `Shape.find`: `el_find_first_avail` searches the list of the available blocks.

Each of them also says which bytes change (`Tags`): headers, footers and the
fixed nodes of the lists, and no byte of a payload.
-/

namespace TownOS.Memory

open Bytes DoublyLinked Tiling

/-! ### Blocks -/

/-- A block, as its header describes it. -/
structure Block where
  addr : ℕ
  size : ℕ
  state : UInt8
  deriving DecidableEq

namespace Block

/-- The address after the block. -/
def fin (b : Block) : ℕ := b.addr + b.size + elBlockOverhead

/-- The address of the footer. -/
def foot (b : Block) : ℕ := b.addr + (sizeofHead + b.size)

/-- The address of the payload. -/
def payload (b : Block) : ℕ := b.addr + sizeofHead

lemma addr_lt_fin (b : Block) : b.addr < b.fin := by
  rw [fin, elBlockOverhead]
  omega

/-- An address in the header or in the footer. -/
def Tag (b : Block) (i : ℕ) : Prop :=
  b.addr ≤ i ∧ i < b.addr + sizeofHead ∨ b.foot ≤ i ∧ i < b.fin

lemma Tag.bounds {b : Block} {i : ℕ} (h : b.Tag i) : b.addr ≤ i ∧ i < b.fin := by
  simp only [Tag, foot, fin, sizeofHead, elBlockOverhead] at h ⊢
  omega

end Block

/-- The header and the footer of a block are in memory. -/
structure Tagged (m : ℕ → UInt8) (b : Block) : Prop where
  size : headSize m b.addr = b.size
  state : headState m b.addr = b.state
  foot : headSize m b.foot = b.size

/-- The nodes of a list, the fixed ones included. -/
def BlockList.nodes (L : BlockList) (xs : List Block) : List ℕ :=
  L.beg :: (xs.map Block.addr ++ [L.fin])

/-- A list in memory links the blocks `xs`. -/
structure Listed (m : ℕ → UInt8) (L : BlockList) (xs : List Block) : Prop where
  linked : Linked (headLinks m) (L.nodes xs)
  begins : headState m L.beg = elBeginBlock
  ends : headState m L.fin = elEndBlock
  length : L.length = xs.length
  bytes : L.bytes = (xs.map fun b => b.size + elBlockOverhead).sum

/-- The fixed nodes are in `el_ctl_actual`, a static variable below the heap. -/
structure Fixed (h : Heap) : Prop where
  beg : ∀ s, (h.list s).beg = begActual h.ctl s
  fin : ∀ s, (h.list s).fin = endActual h.ctl s
  out : h.ctl + sizeofCtl ≤ h.heapStart

/-- The blocks tile the heap, their tags are in memory, and the lists link some of them. -/
structure Shape (h : Heap) (bs : List Block) (ls : Side → List Block) : Prop where
  tiles : Tiles Block.addr Block.fin h.heapStart bs h.heapEnd
  bytes : h.heapStart + h.heapBytes = h.heapEnd
  bound : h.heapEnd < 2 ^ 64
  fixed : Fixed h
  tagged : ∀ b ∈ bs, Tagged h.mem b
  listed : ∀ s, Listed h.mem (h.list s) (ls s)
  mem : ∀ s, ∀ b ∈ ls s, b ∈ bs
  nodup : ∀ s, (ls s).Nodup
  disjoint : ∀ b, b ∈ ls .avail → b ∉ ls .used

/-- The other list. -/
def Side.other : Side → Side
  | avail => used
  | used => avail

@[simp]
lemma Side.other_ne (s : Side) : s.other ≠ s := by cases s <;> exact Side.noConfusion

/-- A node of the heap: a fixed one, or the header of a block. -/
def Node (h : Heap) (bs : List Block) (a : ℕ) : Prop :=
  (∃ s, a = (h.list s).beg ∨ a = (h.list s).fin) ∨ ∃ b ∈ bs, a = b.addr

/-- The bytes the allocator keeps for itself. -/
def Tags (h : Heap) (bs : List Block) (i : ℕ) : Prop :=
  h.ctl ≤ i ∧ i < h.ctl + sizeofCtl ∨ ∃ b ∈ bs, b.Tag i

/-! ### Reading and writing the fields of headers -/

/-- Two headers do not overlap. -/
def Apart (a c : ℕ) : Prop := a + sizeofHead ≤ c ∨ c + sizeofHead ≤ a

lemma Apart.symm {a c : ℕ} (h : Apart a c) : Apart c a := Or.symm h

section Fields

variable {m : ℕ → UInt8} {a c v : ℕ}

lemma headNext_setNext_self (hv : v < 2 ^ 64) : headNext (setNext m a v) a = v :=
  word_setWord m _ hv

lemma headPrev_setPrev_self (hv : v < 2 ^ 64) : headPrev (setPrev m a v) a = v :=
  word_setWord m _ hv

lemma headNext_setNext_of_apart (h : Apart a c) :
    headNext (setNext m a v) c = headNext m c := by
  refine word_setWord_of_disjoint ?_
  simp only [Apart, sizeofHead] at h
  omega

lemma headPrev_setPrev_of_apart (h : Apart a c) :
    headPrev (setPrev m a v) c = headPrev m c := by
  refine word_setWord_of_disjoint ?_
  simp only [Apart, sizeofHead] at h
  omega

lemma headNext_setPrev (h : a = c ∨ Apart a c) : headNext (setPrev m a v) c = headNext m c := by
  refine word_setWord_of_disjoint ?_
  simp only [Apart, sizeofHead] at h
  omega

lemma headPrev_setNext (h : a = c ∨ Apart a c) : headPrev (setNext m a v) c = headPrev m c := by
  refine word_setWord_of_disjoint ?_
  simp only [Apart, sizeofHead] at h
  omega

end Fields

/-- The two pointers of some nodes. -/
def LinkBytes (S : ℕ → Prop) (i : ℕ) : Prop := ∃ a, S a ∧ a + 16 ≤ i ∧ i < a + sizeofHead

section Links

variable {m m' : ℕ → UInt8} {S : ℕ → Prop} {c : ℕ}

lemma only_setNext {a v : ℕ} (ha : S a) : Only (LinkBytes S) m (setNext m a v) :=
  only_setWord fun j hj => ⟨a, ha, by omega, by rw [sizeofHead]; omega⟩

lemma only_setPrev {a v : ℕ} (ha : S a) : Only (LinkBytes S) m (setPrev m a v) :=
  only_setWord fun j hj => ⟨a, ha, by omega, by rw [sizeofHead]; omega⟩

lemma headState_of_only (hm : Only (LinkBytes S) m m') (hS : ∀ a, S a → a = c ∨ Apart a c) :
    headState m' c = headState m c := by
  refine hm _ ?_
  rintro ⟨a, ha, hle, hlt⟩
  have := hS a ha
  simp only [Apart, sizeofHead] at this hlt
  omega

lemma headNext_of_only (hm : Only (LinkBytes S) m m') (hS : ∀ a, S a → Apart a c) :
    headNext m' c = headNext m c := by
  refine hm.word fun j hj => ?_
  rintro ⟨a, ha, hle, hlt⟩
  have := hS a ha
  simp only [Apart, sizeofHead] at this hlt
  omega

lemma headPrev_of_only (hm : Only (LinkBytes S) m m') (hS : ∀ a, S a → Apart a c) :
    headPrev m' c = headPrev m c := by
  refine hm.word fun j hj => ?_
  rintro ⟨a, ha, hle, hlt⟩
  have := hS a ha
  simp only [Apart, sizeofHead] at this hlt
  omega

lemma Listed.of_links {L : BlockList} {xs : List Block} (h : Listed m L xs)
    (hm : Only (LinkBytes S) m m') (hS : ∀ a, S a → ∀ c ∈ L.nodes xs, Apart a c) :
    Listed m' L xs where
  linked := h.linked.congr (fun c hc => headNext_of_only hm fun a ha => hS a ha c hc)
    (fun c hc => headPrev_of_only hm fun a ha => hS a ha c (List.mem_of_mem_tail hc))
  begins := by
    rw [← h.begins]
    exact headState_of_only hm fun a ha => .inr (hS a ha _ (by simp [BlockList.nodes]))
  ends := by
    rw [← h.ends]
    exact headState_of_only hm fun a ha => .inr (hS a ha _ (by simp [BlockList.nodes]))
  length := h.length
  bytes := h.bytes

/-- A list stays what it is if the headers of its nodes do. -/
lemma Listed.of_words {L : BlockList} {xs : List Block} (h : Listed m L xs)
    (hm : ∀ a ∈ L.nodes xs, ∀ j < sizeofHead, m' (a + j) = m (a + j)) : Listed m' L xs where
  linked := by
    refine h.linked.congr (fun a ha => word_congr fun j hj => ?_) fun a ha =>
      word_congr fun j hj => ?_
    · have := hm a ha (16 + j) (by rw [sizeofHead]; omega)
      rwa [← Nat.add_assoc] at this
    · have := hm a (List.mem_of_mem_tail ha) (24 + j) (by rw [sizeofHead]; omega)
      rwa [← Nat.add_assoc] at this
  begins := (hm _ List.mem_cons_self 8 (by rw [sizeofHead]; omega)).trans h.begins
  ends := (hm _ (by simp [BlockList.nodes]) 8 (by rw [sizeofHead]; omega)).trans h.ends
  length := h.length
  bytes := h.bytes

/-- `el_add_block_front` links a header in behind the first node. -/
lemma linkFront_linked {beg f x : ℕ} {rest : List ℕ} (h : Linked (headLinks m) (beg :: f :: rest))
    (hap : (x :: beg :: f :: rest).Pairwise Apart) (hlt : ∀ a ∈ x :: beg :: f :: rest, a < 2 ^ 64) :
    Linked (headLinks (linkFront m beg f x)) (beg :: x :: f :: rest) := by
  rw [List.pairwise_cons, List.pairwise_cons, List.pairwise_cons] at hap
  obtain ⟨hx, hb, hf, -⟩ := hap
  have hxb := hx beg (by simp)
  have hxf := hx f (by simp)
  have hbf := hb f (by simp)
  refine h.push (headNext_setNext_self (hlt x (by simp))) ?_ ?_ ?_ (fun a ha => ?_) fun a ha => ?_
  · show headPrev (linkFront m beg f x) x = beg
    rw [linkFront, headPrev_setNext (.inr hxb.symm), headPrev_setPrev_self (hlt beg (by simp))]
  · show headNext (linkFront m beg f x) x = f
    rw [linkFront, headNext_setNext_of_apart hxb.symm, headNext_setPrev (.inl rfl),
      headNext_setPrev (.inr hxf.symm), headNext_setNext_self (hlt f (by simp))]
  · show headPrev (linkFront m beg f x) f = x
    rw [linkFront, headPrev_setNext (.inr hbf), headPrev_setPrev_of_apart hxf,
      headPrev_setPrev_self (hlt x (by simp))]
  · have hxa := hx a (List.mem_cons_of_mem _ ha)
    have hfa : f = a ∨ Apart f a := (List.mem_cons.mp ha).imp Eq.symm (hf a)
    show headNext (linkFront m beg f x) a = headNext m a
    rw [linkFront, headNext_setNext_of_apart (hb a ha), headNext_setPrev (.inr hxa),
      headNext_setPrev hfa, headNext_setNext_of_apart hxa]
  · have hxa := hx a (by simp [ha])
    show headPrev (linkFront m beg f x) a = headPrev m a
    rw [linkFront, headPrev_setNext (.inr (hb a (by simp [ha]))), headPrev_setPrev_of_apart hxa,
      headPrev_setPrev_of_apart (hf a ha), headPrev_setNext (.inr hxa)]

/-- `el_remove_block` joins the two neighbours of a header. -/
lemma unlink_linked {p x n : ℕ} {l₁ l₂ : List ℕ}
    (h : Linked (headLinks m) (l₁ ++ p :: x :: n :: l₂))
    (hap : (l₁ ++ p :: x :: n :: l₂).Pairwise Apart) (hp : p < 2 ^ 64) (hn : n < 2 ^ 64) :
    Linked (headLinks (unlink m p n x)) (l₁ ++ p :: n :: l₂) := by
  rw [List.pairwise_append, List.pairwise_cons, List.pairwise_cons, List.pairwise_cons] at hap
  obtain ⟨-, ⟨hpa, hxa, hna, -⟩, hla⟩ := hap
  have hpx := hpa x (by simp)
  have hpn := hpa n (by simp)
  have hxn := hxa n (by simp)
  refine h.remove ?_ ?_ (fun a ha => ?_) (fun a ha => ?_) (fun a ha => ?_) fun a ha => ?_
  · show headNext (unlink m p n x) p = n
    rw [unlink, headNext_setPrev (.inr hpx.symm), headNext_setNext_of_apart hpx.symm,
      headNext_setPrev (.inr hpn.symm), headNext_setNext_self hn]
  · show headPrev (unlink m p n x) n = p
    rw [unlink, headPrev_setPrev_of_apart hxn, headPrev_setNext (.inr hxn),
      headPrev_setPrev_self hp]
  · have hax := (hla a ha x (by simp)).symm
    show headNext (unlink m p n x) a = headNext m a
    rw [unlink, headNext_setPrev (.inr hax), headNext_setNext_of_apart hax,
      headNext_setPrev (.inr (hla a ha n (by simp)).symm),
      headNext_setNext_of_apart (hla a ha p (by simp)).symm]
  · have hax := hxa a ha
    have han : n = a ∨ Apart n a := (List.mem_cons.mp ha).imp Eq.symm (hna a)
    show headNext (unlink m p n x) a = headNext m a
    rw [unlink, headNext_setPrev (.inr hax), headNext_setNext_of_apart hax, headNext_setPrev han,
      headNext_setNext_of_apart (hpa a (List.mem_cons_of_mem _ ha))]
  · have ha' : a ∈ l₁ ∨ a = p := by simpa using List.mem_of_mem_tail ha
    have hax : Apart x a ∧ Apart n a ∧ (p = a ∨ Apart p a) := by
      obtain hl | rfl := ha'
      · exact ⟨(hla a hl x (by simp)).symm, (hla a hl n (by simp)).symm,
          .inr (hla a hl p (by simp)).symm⟩
      · exact ⟨hpx.symm, hpn.symm, .inl rfl⟩
    show headPrev (unlink m p n x) a = headPrev m a
    rw [unlink, headPrev_setPrev_of_apart hax.1, headPrev_setNext (.inr hax.1),
      headPrev_setPrev_of_apart hax.2.1, headPrev_setNext hax.2.2]
  · have hax := hxa a (by simp [ha])
    show headPrev (unlink m p n x) a = headPrev m a
    rw [unlink, headPrev_setPrev_of_apart hax, headPrev_setNext (.inr hax),
      headPrev_setPrev_of_apart (hna a ha), headPrev_setNext (.inr (hpa a (by simp [ha])))]

end Links

/-! ### Nodes -/

namespace Shape

variable {h : Heap} {bs : List Block} {ls : Side → List Block} {a c : ℕ} {b x : Block} {s : Side}

lemma bounds (hs : Shape h bs ls) (hb : b ∈ bs) : h.heapStart ≤ b.addr ∧ b.fin ≤ h.heapEnd :=
  hs.tiles.bounds Block.addr_lt_fin hb

/-- A block and a node are the same header or do not overlap. -/
lemma node_apart_block (hs : Shape h bs ls) (ha : Node h bs a) (hb : b ∈ bs) :
    a = b.addr ∨ a + sizeofHead ≤ b.addr ∨ b.fin ≤ a := by
  have hbounds := hs.bounds hb
  obtain ⟨s, hs'⟩ | ⟨b', hb', rfl⟩ := ha
  · have hout := hs.fixed.out
    rw [hs.fixed.beg, hs.fixed.fin] at hs'
    cases s <;> simp only [begActual, endActual, sizeofCtl, sizeofHead] at hs' hout ⊢ <;> omega
  · obtain rfl | hle | hle := hs.tiles.apart Block.addr_lt_fin hb' hb
    · exact .inl rfl
    · simp only [Block.fin, sizeofHead, elBlockOverhead] at hle ⊢
      omega
    · exact .inr (.inr hle)

/-- Two nodes are the same or do not overlap. -/
lemma node_apart (hs : Shape h bs ls) (ha : Node h bs a) (hc : Node h bs c) :
    a = c ∨ Apart a c := by
  obtain ⟨s, hs'⟩ | ⟨b, hb, rfl⟩ := hc
  · obtain ⟨t, ht⟩ | ⟨b, hb, rfl⟩ := ha
    · rw [hs.fixed.beg, hs.fixed.fin] at hs' ht
      cases s <;> cases t <;>
        simp only [begActual, endActual, Apart, sizeofHead] at hs' ht ⊢ <;> omega
    · have := hs.node_apart_block (.inl ⟨s, hs'⟩) hb
      simp only [Apart, Block.fin, sizeofHead, elBlockOverhead] at this ⊢
      omega
  · have := hs.node_apart_block ha hb
    simp only [Apart, Block.fin, sizeofHead, elBlockOverhead] at this ⊢
    omega

lemma node_lt (hs : Shape h bs ls) (ha : Node h bs a) : a < 2 ^ 64 := by
  obtain ⟨s, hs'⟩ | ⟨b, hb, rfl⟩ := ha
  · have hout := hs.fixed.out
    have := hs.bound
    have := hs.tiles.le Block.addr_lt_fin
    rw [hs.fixed.beg, hs.fixed.fin] at hs'
    cases s <;> simp only [begActual, endActual, sizeofCtl] at hs' hout <;> omega
  · have := hs.bounds hb
    have := hs.bound
    have := b.addr_lt_fin
    omega

lemma node_block (hb : b ∈ bs) : Node h bs b.addr := .inr ⟨b, hb, rfl⟩

lemma node_of_mem (hs : Shape h bs ls) (ha : a ∈ (h.list s).nodes (ls s)) : Node h bs a := by
  simp only [BlockList.nodes, List.mem_cons, List.mem_append, List.mem_map, List.not_mem_nil,
    or_false] at ha
  obtain rfl | ⟨b, hb, rfl⟩ | rfl := ha
  · exact .inl ⟨s, .inl rfl⟩
  · exact node_block (hs.mem s b hb)
  · exact .inl ⟨s, .inr rfl⟩

/-- The nodes of a list are pairwise different. -/
lemma nodes_nodup (hs : Shape h bs ls) (s : Side) : ((h.list s).nodes (ls s)).Nodup := by
  have hne : ∀ b ∈ ls s, b.addr ≠ (h.list s).beg ∧ b.addr ≠ (h.list s).fin := by
    intro b hb
    have hbounds := hs.bounds (hs.mem s b hb)
    have hout := hs.fixed.out
    have := b.addr_lt_fin
    rw [hs.fixed.beg, hs.fixed.fin]
    cases s <;> simp only [begActual, endActual, sizeofCtl] at hout ⊢ <;> omega
  have hends : (h.list s).beg ≠ (h.list s).fin := by
    rw [hs.fixed.beg, hs.fixed.fin]
    cases s <;> simp only [begActual, endActual] <;> omega
  have haddr : ((ls s).map Block.addr).Nodup :=
    (hs.nodup s).map_on fun b hb c hc hbc =>
      hs.tiles.eq_of_lo Block.addr_lt_fin (hs.mem s b hb) (hs.mem s c hc) hbc
  refine List.nodup_cons.mpr ⟨?_, ?_⟩
  · simp only [List.mem_append, List.mem_map, List.mem_singleton, not_or, not_exists, not_and]
    exact ⟨fun b hb heq => (hne b hb).1 heq, hends⟩
  · refine List.nodup_append.mpr ⟨haddr, List.nodup_singleton _, ?_⟩
    intro c hc d hd
    obtain ⟨b, hb, rfl⟩ := List.mem_map.mp hc
    obtain rfl := List.mem_singleton.mp hd
    exact (hne b hb).2

lemma nodes_pairwise (hs : Shape h bs ls) (s : Side) :
    ((h.list s).nodes (ls s)).Pairwise Apart :=
  (hs.nodes_nodup s).pairwise_of_forall_ne fun _ ha _ hc =>
    (hs.node_apart (hs.node_of_mem ha) (hs.node_of_mem hc)).resolve_left

/-- A block that is not on a list is not one of its nodes. -/
lemma ne_node (hs : Shape h bs ls) (hb : b ∈ bs) (hnot : b ∉ ls s)
    (ha : a ∈ (h.list s).nodes (ls s)) : b.addr ≠ a := by
  have hbounds := hs.bounds hb
  have hout := hs.fixed.out
  have := b.addr_lt_fin
  simp only [BlockList.nodes, List.mem_cons, List.mem_append, List.mem_map, List.not_mem_nil,
    or_false] at ha
  obtain rfl | ⟨c, hc, rfl⟩ | rfl := ha
  · rw [hs.fixed.beg]
    cases s <;> simp only [begActual, sizeofCtl] at hout ⊢ <;> omega
  · intro heq
    exact hnot (hs.tiles.eq_of_lo Block.addr_lt_fin hb (hs.mem s c hc) heq ▸ hc)
  · rw [hs.fixed.fin]
    cases s <;> simp only [endActual, sizeofCtl] at hout ⊢ <;> omega

/-- No block is on both lists. -/
lemma not_other (hs : Shape h bs ls) (hb : b ∈ ls s) : b ∉ ls s.other := by
  cases s with
  | avail => exact hs.disjoint b hb
  | used => exact fun hb' => hs.disjoint b hb' hb

/-- The nodes of the two lists are different. -/
lemma nodes_other (hs : Shape h bs ls) (ha : a ∈ (h.list s).nodes (ls s))
    (hc : c ∈ (h.list s.other).nodes (ls s.other)) : a ≠ c := by
  by_cases hblock : ∃ b ∈ ls s, b.addr = a
  · obtain ⟨b, hb, rfl⟩ := hblock
    exact hs.ne_node (hs.mem s b hb) (hs.not_other hb) hc
  by_cases hblock' : ∃ b ∈ ls s.other, b.addr = c
  · obtain ⟨b, hb, rfl⟩ := hblock'
    exact (hs.ne_node (hs.mem _ b hb) (fun hb' => hs.not_other hb' hb) ha).symm
  simp only [BlockList.nodes, List.mem_cons, List.mem_append, List.mem_map, List.not_mem_nil,
    or_false] at ha hc
  have ha' : a = begActual h.ctl s ∨ a = endActual h.ctl s := by
    rw [← hs.fixed.beg, ← hs.fixed.fin]
    obtain ha | ha | ha := ha
    · exact .inl ha
    · exact absurd ha hblock
    · exact .inr ha
  have hc' : c = begActual h.ctl s.other ∨ c = endActual h.ctl s.other := by
    rw [← hs.fixed.beg, ← hs.fixed.fin]
    obtain hc | hc | hc := hc
    · exact .inl hc
    · exact absurd hc hblock'
    · exact .inr hc
  cases s <;> simp only [begActual, endActual, Side.other] at ha' hc' <;> omega

/-- Pointers that change leave the tags of the blocks alone. -/
lemma tagged_of_links (hs : Shape h bs ls) {S : ℕ → Prop} {m' : ℕ → UInt8}
    (hS : ∀ a, S a → Node h bs a) (hm : Only (LinkBytes S) h.mem m') (hb : b ∈ bs) :
    Tagged m' b := by
  have htag := hs.tagged b hb
  have hout : ∀ a, S a → a = b.addr ∨ a + sizeofHead ≤ b.addr ∨ b.fin ≤ a :=
    fun a ha => hs.node_apart_block (hS a ha) hb
  refine ⟨?_, ?_, ?_⟩
  · rw [← htag.size]
    refine hm.word fun j hj => ?_
    rintro ⟨a, ha, hle, hlt⟩
    have := hout a ha
    have := b.addr_lt_fin
    simp only [sizeofHead, Block.fin, elBlockOverhead] at *
    omega
  · rw [← htag.state]
    refine hm _ ?_
    rintro ⟨a, ha, hle, hlt⟩
    have := hout a ha
    simp only [sizeofHead, Block.fin, elBlockOverhead] at *
    omega
  · rw [← htag.foot]
    refine hm.word fun j hj => ?_
    rintro ⟨a, ha, hle, hlt⟩
    have := hout a ha
    simp only [Block.foot, sizeofHead, Block.fin, elBlockOverhead] at *
    omega

end Shape

/-! ### List surgery -/

namespace Heap

variable (h : Heap) (s : Side) (y : (ℕ → UInt8) × BlockList)

@[simp]
lemma setList_mem : (h.setList s y).mem = y.1 := by cases s <;> rfl

@[simp]
lemma setList_ctl : (h.setList s y).ctl = h.ctl := by cases s <;> rfl

@[simp]
lemma setList_heapStart : (h.setList s y).heapStart = h.heapStart := by cases s <;> rfl

@[simp]
lemma setList_heapEnd : (h.setList s y).heapEnd = h.heapEnd := by cases s <;> rfl

@[simp]
lemma setList_heapBytes : (h.setList s y).heapBytes = h.heapBytes := by cases s <;> rfl

@[simp]
lemma list_setMem (m : ℕ → UInt8) : (h.setMem m).list s = h.list s := by cases s <;> rfl

@[simp]
lemma list_grow (m : ℕ → UInt8) (n : ℕ) : (h.grow m n).list s = h.list s := by cases s <;> rfl

lemma list_setList_self : (h.setList s y).list s = y.2 := by cases s <;> rfl

lemma list_setList_other : (h.setList s y).list s.other = h.list s.other := by cases s <;> rfl

end Heap

lemma Side.eq_or_other (s t : Side) : t = s ∨ t = s.other := by
  cases s <;> cases t <;> simp [Side.other]

namespace Shape

variable {h : Heap} {bs : List Block} {ls : Side → List Block} {a c : ℕ} {b x : Block} {s : Side}

lemma linkBytes_tags (hs : Shape h bs ls) {S : ℕ → Prop} (hS : ∀ a, S a → Node h bs a) (i : ℕ)
    (hi : LinkBytes S i) : Tags h bs i := by
  obtain ⟨a, ha, hle, hlt⟩ := hi
  obtain ⟨s, hs'⟩ | ⟨b, hb, rfl⟩ := hS a ha
  · refine .inl ?_
    rw [hs.fixed.beg, hs.fixed.fin] at hs'
    cases s <;> simp only [begActual, endActual, sizeofCtl, sizeofHead] at hs' hlt ⊢ <;> omega
  · exact .inr ⟨b, hb, .inl ⟨by omega, hlt⟩⟩

/-- One of the lists is relinked. -/
lemma relink (hs : Shape h bs ls) {S : ℕ → Prop} {m' : ℕ → UInt8} {L' : BlockList}
    {xs : List Block} (hS : ∀ a, S a → Node h bs a)
    (hother : ∀ a, S a → ∀ c ∈ (h.list s.other).nodes (ls s.other), a ≠ c)
    (hm : Only (LinkBytes S) h.mem m') (hbeg : L'.beg = (h.list s).beg)
    (hfin : L'.fin = (h.list s).fin) (hlist : Listed m' L' xs) (hmem : ∀ b ∈ xs, b ∈ bs)
    (hnd : xs.Nodup) (hdis : ∀ b ∈ xs, b ∉ ls s.other) :
    Shape (h.setList s (m', L')) bs (Function.update ls s xs) where
  tiles := by simpa using hs.tiles
  bytes := by simpa using hs.bytes
  bound := by simpa using hs.bound
  fixed := by
    refine ⟨fun t => ?_, fun t => ?_, by simpa using hs.fixed.out⟩
    · obtain rfl | rfl := s.eq_or_other t
      · rw [Heap.list_setList_self, hbeg, hs.fixed.beg, Heap.setList_ctl]
      · rw [Heap.list_setList_other, hs.fixed.beg, Heap.setList_ctl]
    · obtain rfl | rfl := s.eq_or_other t
      · rw [Heap.list_setList_self, hfin, hs.fixed.fin, Heap.setList_ctl]
      · rw [Heap.list_setList_other, hs.fixed.fin, Heap.setList_ctl]
  tagged := by
    intro b hb
    rw [Heap.setList_mem]
    exact hs.tagged_of_links hS hm hb
  listed := by
    intro t
    obtain rfl | rfl := s.eq_or_other t
    · rw [Heap.setList_mem, Heap.list_setList_self, Function.update_self]
      exact hlist
    · rw [Heap.setList_mem, Heap.list_setList_other, Function.update_of_ne s.other_ne]
      refine (hs.listed s.other).of_links hm fun a ha c hc => ?_
      exact (hs.node_apart (hS a ha) (hs.node_of_mem hc)).resolve_left (hother a ha c hc)
  mem := by
    intro t b hb
    obtain rfl | rfl := s.eq_or_other t
    · rw [Function.update_self] at hb
      exact hmem b hb
    · rw [Function.update_of_ne s.other_ne] at hb
      exact hs.mem _ b hb
  nodup := by
    intro t
    obtain rfl | rfl := s.eq_or_other t
    · rwa [Function.update_self]
    · rw [Function.update_of_ne s.other_ne]
      exact hs.nodup _
  disjoint := by
    intro b
    cases s with
    | avail =>
      rw [Function.update_self, Function.update_of_ne (by simp)]
      exact hdis b
    | used =>
      rw [Function.update_self, Function.update_of_ne (by simp)]
      exact fun hb hb' => hdis b hb' hb

/-- The states of the nodes of a list do not change with the pointers. -/
lemma headState_nodes (hs : Shape h bs ls) {S : ℕ → Prop} {m' : ℕ → UInt8}
    (hS : ∀ a, S a → Node h bs a) (hm : Only (LinkBytes S) h.mem m')
    (ha : a ∈ (h.list s).nodes (ls s)) : headState m' a = headState h.mem a :=
  headState_of_only hm fun c hc => hs.node_apart (hS c hc) (hs.node_of_mem ha)

/-- `el_add_block_front` puts a block on a list. -/
lemma addFront (hs : Shape h bs ls) (hx : x ∈ bs) (hnot : ∀ t, x ∉ ls t) :
    Shape (h.addFront s x.addr) bs (Function.update ls s (x :: ls s)) ∧
      Only (Tags h bs) h.mem (h.addFront s x.addr).mem := by
  have hlist := hs.listed s
  obtain ⟨f, rest, hf⟩ : ∃ f rest, (ls s).map Block.addr ++ [(h.list s).fin] = f :: rest :=
    List.exists_cons_of_ne_nil (by simp)
  have hnodes : (h.list s).nodes (ls s) = (h.list s).beg :: f :: rest := by
    rw [BlockList.nodes, hf]
  have hnode : ∀ a ∈ x.addr :: (h.list s).nodes (ls s), Node h bs a := by
    intro a ha
    obtain rfl | ha := List.mem_cons.mp ha
    · exact node_block hx
    · exact hs.node_of_mem ha
  have hap : (x.addr :: (h.list s).nodes (ls s)).Pairwise Apart :=
    List.pairwise_cons.mpr ⟨fun a ha => (hs.node_apart (node_block hx)
      (hs.node_of_mem ha)).resolve_left (hs.ne_node hx (hnot s) ha), hs.nodes_pairwise s⟩
  have hlinked := hlist.linked
  have hmem : (h.list s).beg ∈ (h.list s).nodes (ls s) ∧ f ∈ (h.list s).nodes (ls s) ∧
      (h.list s).fin ∈ (h.list s).nodes (ls s) :=
    ⟨List.mem_cons_self, by simp [hnodes], by simp [BlockList.nodes]⟩
  let S : ℕ → Prop := fun a => a = (h.list s).beg ∨ a = f ∨ a = x.addr
  have hS : ∀ a, S a → Node h bs a := by
    rintro a (rfl | rfl | rfl)
    · exact hs.node_of_mem hmem.1
    · exact hs.node_of_mem hmem.2.1
    · exact node_block hx
  set m' := linkFront h.mem (h.list s).beg f x.addr with hm'
  have honly : Only (LinkBytes S) h.mem m' :=
    (((only_setNext (.inr (.inr rfl))).trans (only_setPrev (.inr (.inl rfl)))).trans
      (only_setPrev (.inr (.inr rfl)))).trans (only_setNext (.inl rfl))
  have hadd : h.addFront s x.addr = h.setList s (m', { h.list s with
      length := (h.list s).length + 1
      bytes := (h.list s).bytes + (headSize m' x.addr + elBlockOverhead) }) := by
    rw [hnodes] at hlinked
    have hfirst : headNext h.mem (h.list s).beg = f := (List.isChain_cons_cons.mp hlinked).1.1
    rw [Heap.addFront, elAddBlockFront, hfirst]
  have hpush : Linked (headLinks m') ((h.list s).beg :: x.addr :: f :: rest) := by
    rw [hnodes] at hlinked hap hnode
    exact linkFront_linked hlinked hap fun a ha => hs.node_lt (hnode a ha)
  have hsize : headSize m' x.addr = x.size := (hs.tagged_of_links hS honly hx).size
  rw [hadd]
  refine ⟨hs.relink hS ?_ honly rfl rfl ⟨?_, ?_, ?_, ?_, ?_⟩ ?_ ?_ ?_, ?_⟩
  · rintro a (rfl | rfl | rfl) c hc
    · exact hs.nodes_other hmem.1 hc
    · exact hs.nodes_other hmem.2.1 hc
    · exact hs.ne_node hx (hnot _) hc
  · rw [BlockList.nodes, List.map_cons, List.cons_append, hf]
    exact hpush
  · exact (hs.headState_nodes hS honly hmem.1).trans hlist.begins
  · exact (hs.headState_nodes hS honly hmem.2.2).trans hlist.ends
  · rw [List.length_cons, ← hlist.length]
  · rw [List.map_cons, List.sum_cons, ← hlist.bytes, hsize]
    exact Nat.add_comm _ _
  · intro b hb
    obtain rfl | hb := List.mem_cons.mp hb
    · exact hx
    · exact hs.mem s b hb
  · exact List.nodup_cons.mpr ⟨hnot s, hs.nodup s⟩
  · intro b hb
    obtain rfl | hb := List.mem_cons.mp hb
    · exact hnot _
    · exact hs.not_other hb
  · rw [Heap.setList_mem]
    exact honly.mono (hs.linkBytes_tags hS)

/-- `el_remove_block` takes a block off its list. -/
lemma remove {xs ys : List Block} (hs : Shape h bs ls) (hl : ls s = xs ++ x :: ys) :
    Shape (h.remove s x.addr) bs (Function.update ls s (xs ++ ys)) ∧
      Only (Tags h bs) h.mem (h.remove s x.addr).mem := by
  have hlist := hs.listed s
  have hx : x ∈ ls s := by simp [hl]
  have hsub : ∀ b ∈ xs ++ ys, b ∈ ls s := by
    intro b hb
    rw [hl]
    simp only [List.mem_append, List.mem_cons] at hb ⊢
    tauto
  -- the two neighbours of the block, fixed nodes included
  obtain ⟨l₁, p, hp⟩ : ∃ l₁ p, (h.list s).beg :: xs.map Block.addr = l₁ ++ [p] :=
    ⟨_, _, (List.dropLast_append_getLast (List.cons_ne_nil _ _)).symm⟩
  obtain ⟨n, l₂, hn⟩ : ∃ n l₂, ys.map Block.addr ++ [(h.list s).fin] = n :: l₂ :=
    List.exists_cons_of_ne_nil (by simp)
  have hnodes : (h.list s).nodes (ls s) = l₁ ++ p :: x.addr :: n :: l₂ := by
    rw [BlockList.nodes, hl, List.map_append, List.map_cons, List.append_assoc, List.cons_append,
      hn, ← List.cons_append, hp]
    simp
  have hnodes' : (h.list s).nodes (xs ++ ys) = l₁ ++ p :: n :: l₂ := by
    rw [BlockList.nodes, List.map_append, List.append_assoc, hn, ← List.cons_append, hp]
    simp
  have hmem : p ∈ (h.list s).nodes (ls s) ∧ n ∈ (h.list s).nodes (ls s) ∧
      x.addr ∈ (h.list s).nodes (ls s) := by simp [hnodes]
  have hlinked := hlist.linked
  have hap := hs.nodes_pairwise s
  rw [hnodes] at hlinked hap
  let S : ℕ → Prop := fun a => a = p ∨ a = n ∨ a = x.addr
  have hS : ∀ a, S a → a ∈ (h.list s).nodes (ls s) := by
    rintro a (rfl | rfl | rfl)
    · exact hmem.1
    · exact hmem.2.1
    · exact hmem.2.2
  have hSn : ∀ a, S a → Node h bs a := fun a ha => hs.node_of_mem (hS a ha)
  set m' := unlink h.mem p n x.addr with hm'
  have honly : Only (LinkBytes S) h.mem m' :=
    (((only_setNext (.inl rfl)).trans (only_setPrev (.inr (.inl rfl)))).trans
      (only_setNext (.inr (.inr rfl)))).trans (only_setPrev (.inr (.inr rfl)))
  have hrem : h.remove s x.addr = h.setList s (m', { h.list s with
      length := (h.list s).length - 1
      bytes := (h.list s).bytes - (x.size + elBlockOverhead) }) := by
    obtain ⟨-, ⟨-, hprev⟩, ⟨hnext, -⟩, -⟩ := hlinked.split
    have hprev : headPrev h.mem x.addr = p := hprev
    have hnext : headNext h.mem x.addr = n := hnext
    rw [Heap.remove, elRemoveBlock, hprev, hnext, (hs.tagged x (hs.mem s x hx)).size]
  rw [hrem]
  refine ⟨hs.relink hSn (fun a ha c hc => hs.nodes_other (hS a ha) hc) honly rfl rfl
    ⟨?_, ?_, ?_, ?_, ?_⟩ ?_ ?_ ?_, ?_⟩
  · have hunlink := unlink_linked hlinked hap (hs.node_lt (hs.node_of_mem hmem.1))
      (hs.node_lt (hs.node_of_mem hmem.2.1))
    rwa [← hnodes'] at hunlink
  · exact (hs.headState_nodes hSn honly List.mem_cons_self).trans hlist.begins
  · have hfin : (h.list s).fin ∈ (h.list s).nodes (ls s) := by simp [BlockList.nodes]
    exact (hs.headState_nodes hSn honly hfin).trans hlist.ends
  · have := hlist.length
    rw [hl] at this
    simp only [List.length_append, List.length_cons] at this ⊢
    omega
  · have := hlist.bytes
    rw [hl] at this
    simp only [List.map_append, List.map_cons, List.sum_append, List.sum_cons] at this ⊢
    omega
  · exact fun b hb => hs.mem s b (hsub b hb)
  · have hnd := hs.nodup s
    rw [hl, List.nodup_middle, List.nodup_cons] at hnd
    exact hnd.2
  · exact fun b hb => hs.not_other (hsub b hb)
  · rw [Heap.setList_mem]
    exact honly.mono (hs.linkBytes_tags hSn)

end Shape

/-! ### Blocks that change -/

section Blocks

variable {m m' : ℕ → UInt8} {b x : Block} {n : ℕ}

lemma Tagged.congr (h : Tagged m b) (hm : ∀ i, b.addr ≤ i → i < b.fin → m' i = m i) :
    Tagged m' b := by
  simp only [Block.fin, elBlockOverhead] at hm
  refine ⟨?_, ?_, ?_⟩
  · rw [← h.size]
    exact word_congr fun j hj => hm _ (by omega) (by omega)
  · rw [← h.state]
    exact hm _ (by omega) (by omega)
  · rw [← h.foot]
    refine word_congr fun j hj => hm _ ?_ ?_
    · rw [Block.foot]; omega
    · rw [Block.foot, sizeofHead]; omega

/-- The lower part of a block that is split. -/
def Block.lower (x : Block) (n : ℕ) : Block := ⟨x.addr, n, x.state⟩

/-- Its upper part; the state is whatever its byte says. -/
def Block.upper (x : Block) (n : ℕ) (state : UInt8) : Block :=
  ⟨x.addr + n + elBlockOverhead, x.size - n - elBlockOverhead, state⟩

/-- The addresses `el_split_block` computes. -/
lemma splitTags_eq (hn : n + elBlockOverhead ≤ x.size) (hx : x.fin < 2 ^ 64) :
    splitTags m x.addr x.foot n (x.upper n 0).size = ((x.upper n 0).addr,
      setSize (setSize (setSize (setSize m x.addr n) (x.lower n).foot n) x.foot (x.upper n 0).size)
        (x.upper n 0).addr (x.upper n 0).size) := by
  simp only [Block.fin, elBlockOverhead] at hn hx
  have hfoot : ∀ m', elGetFooter (setSize m' x.addr n) x.addr = (x.lower n).foot := by
    intro m'
    rw [elGetFooter, headSize, setSize, word_setWord _ _ (by omega)]
    rfl
  have hhead : ∀ m', elGetHeader (setSize m' x.foot (x.upper n 0).size) x.foot
      = (x.upper n 0).addr := by
    intro m'
    simp only [elGetHeader, headSize, setSize, Block.upper, elBlockOverhead]
    rw [word_setWord _ _ (by omega), Block.foot, sizeofHead]
    omega
  rw [splitTags, hfoot, hhead]

/-- What `el_split_block` does to a block that is large enough. -/
lemma elSplitBlock_spec (h : Tagged m x) (hn : n + elBlockOverhead ≤ x.size)
    (hx : x.fin < 2 ^ 64) :
    ∃ v m', elSplitBlock m x.addr n = some ((x.upper n v).addr, m') ∧ Tagged m' (x.lower n) ∧
      Tagged m' (x.upper n v) ∧
      Only (fun i => (x.lower n).Tag i ∨ (x.upper n v).Tag i) m m' := by
  set m' := setSize (setSize (setSize (setSize m x.addr n) (x.lower n).foot n) x.foot
    (x.upper n 0).size) (x.upper n 0).addr (x.upper n 0).size with hm'
  have hsplit : elSplitBlock m x.addr n = some ((x.upper n 0).addr, m') := by
    have hfoot : elGetFooter m x.addr = x.foot := by rw [elGetFooter, h.size]; rfl
    have hlt : n + elBlockOverhead < 2 ^ 64 := by
      rw [Block.fin] at hx
      omega
    rw [elSplitBlock, hfoot, h.size, Nat.mod_eq_of_lt hlt, if_neg (by omega)]
    exact congrArg some (splitTags_eq hn hx)
  simp only [Block.fin, elBlockOverhead] at hn hx
  simp only [setSize, Block.upper, Block.foot, Block.lower, sizeofHead, elBlockOverhead] at hm'
  refine ⟨headState m' (x.upper n 0).addr, m', hsplit, ⟨?_, ?_, ?_⟩, ⟨?_, rfl, ?_⟩, ?_⟩
  · show word m' x.addr = n
    rw [hm', word_setWord_of_disjoint (by omega), word_setWord_of_disjoint (by omega),
      word_setWord_of_disjoint (by omega), word_setWord m _ (by omega)]
  · show m' (x.addr + 8) = x.state
    rw [hm', setWord_outside (by omega), setWord_outside (by omega), setWord_outside (by omega),
      setWord_outside (by omega)]
    exact h.state
  · show word m' (x.addr + (32 + n)) = n
    rw [hm', word_setWord_of_disjoint (by omega), word_setWord_of_disjoint (by omega),
      word_setWord _ _ (by omega)]
  · show word m' (x.addr + n + 40) = x.size - n - 40
    rw [hm', word_setWord _ _ (by omega)]
  · show word m' (x.addr + n + 40 + (32 + (x.size - n - 40))) = x.size - n - 40
    rw [show x.addr + n + 40 + (32 + (x.size - n - 40)) = x.addr + (32 + x.size) from by omega, hm',
      word_setWord_of_disjoint (by omega), word_setWord _ _ (by omega)]
  · rw [hm']
    simp only [Block.Tag, Block.fin, Block.upper, Block.foot, Block.lower, sizeofHead,
      elBlockOverhead]
    refine (((only_setWord fun j hj => ?_).trans (only_setWord fun j hj => ?_)).trans
      (only_setWord fun j hj => ?_)).trans (only_setWord fun j hj => ?_) <;> omega

/-- The block two neighbours are merged into. -/
def Block.merge (x y : Block) : Block := ⟨x.addr, x.size + elBlockOverhead + y.size, x.state⟩

/-- The tags `el_merge_block_with_above` writes. -/
lemma mergeTags_spec {y : Block} (hx : Tagged m x) (hy : Tagged m y) (hxy : x.fin = y.addr)
    (hlt : y.fin < 2 ^ 64) :
    Tagged (mergeTags m x.addr y.addr) (x.merge y) ∧
      Only (x.merge y).Tag m (mergeTags m x.addr y.addr) := by
  simp only [Block.fin, elBlockOverhead] at hxy hlt
  have hsize : ∀ m', headSize (setSize m' x.addr (x.merge y).size) x.addr = (x.merge y).size := by
    intro m'
    refine word_setWord m' _ ?_
    simp only [Block.merge, elBlockOverhead]
    omega
  have heq : mergeTags m x.addr y.addr =
      setSize (setSize m x.addr (x.merge y).size) (x.merge y).foot (x.merge y).size := by
    have hsum : headSize m x.addr + elBlockOverhead + headSize m y.addr = (x.merge y).size := by
      rw [hx.size, hy.size, Block.merge]
    rw [mergeTags, hsum, elGetFooter, hsize]
    rfl
  rw [heq]
  simp only [setSize, Block.merge, Block.foot, sizeofHead, elBlockOverhead]
  refine ⟨⟨?_, ?_, ?_⟩, (only_setWord fun j hj => ?_).trans (only_setWord fun j hj => ?_)⟩
  · show word _ x.addr = _
    rw [word_setWord_of_disjoint (by omega), word_setWord m _ (by omega)]
  · show setWord _ _ _ (x.addr + 8) = x.state
    rw [setWord_outside (by omega), setWord_outside (by omega)]
    exact hx.state
  · exact word_setWord _ _ (by omega)
  · simp only [Block.Tag, sizeofHead]
    omega
  · simp only [Block.Tag, Block.foot, Block.fin, sizeofHead, elBlockOverhead]
    omega

lemma setState_spec (hx : Tagged m x) (v : UInt8) :
    Tagged (setState m x.addr v) { x with state := v } ∧ Only x.Tag m (setState m x.addr v) := by
  refine ⟨⟨(word_setByte ?_).trans hx.size, setByte_self m _ v, (word_setByte ?_).trans hx.foot⟩,
    only_setByte (.inl ⟨by omega, by rw [sizeofHead]; omega⟩)⟩
  · show x.addr + 8 ≤ x.addr + 8 ∨ x.addr + 8 < x.addr
    exact .inl le_rfl
  · show x.addr + (sizeofHead + x.size) + 8 ≤ x.addr + 8 ∨
      x.addr + 8 < x.addr + (sizeofHead + x.size)
    rw [sizeofHead]
    omega

end Blocks

namespace Shape

variable {h : Heap} {l r : List Block} {ls : Side → List Block} {x y : Block} {n : ℕ}

/-- Neighbouring blocks that are on neither list are rewritten, in the space they take. -/
lemma rewrite {m' : ℕ → UInt8} {c d : ℕ} (old new : List Block)
    (hs : Shape h (l ++ (old ++ r)) ls) (hold : ∀ b ∈ old, ∀ s, b ∉ ls s)
    (hl : Tiles Block.addr Block.fin h.heapStart l c) (hn : Tiles Block.addr Block.fin c new d)
    (hr : Tiles Block.addr Block.fin d r h.heapEnd) (hm : Only (fun i => c ≤ i ∧ i < d) h.mem m')
    (htag : ∀ b ∈ new, Tagged m' b) : Shape (h.setMem m') (l ++ (new ++ r)) ls := by
  have hkeep : ∀ b, b ∈ l ∨ b ∈ r → b.fin ≤ c ∨ d ≤ b.addr := by
    rintro b (hb | hb)
    · exact .inl (hl.bounds Block.addr_lt_fin hb).2
    · exact .inr (hr.bounds Block.addr_lt_fin hb).1
  have hmem : ∀ s, ∀ b ∈ ls s, b ∈ l ∨ b ∈ r := by
    intro s b hb
    have := hs.mem s b hb
    simp only [List.mem_append] at this
    obtain hb' | hb' | hb' := this
    · exact .inl hb'
    · exact absurd hb (hold b hb' s)
    · exact .inr hb'
  have hcd := (hl.le Block.addr_lt_fin).trans (hn.le Block.addr_lt_fin)
  have hc := hl.le Block.addr_lt_fin
  have hd := hr.le Block.addr_lt_fin
  have hout := hs.fixed.out
  -- every node of a list is outside the space that is rewritten
  have hnode : ∀ s, ∀ a ∈ (h.list s).nodes (ls s), a + sizeofHead ≤ c ∨ d ≤ a := by
    intro s a ha
    simp only [BlockList.nodes, List.mem_cons, List.mem_append, List.mem_map, List.not_mem_nil,
      or_false] at ha
    obtain rfl | ⟨b, hb, rfl⟩ | rfl := ha
    · rw [hs.fixed.beg]
      cases s <;> simp only [begActual, sizeofCtl, sizeofHead] at hout ⊢ <;> omega
    · have := hkeep b (hmem s b hb)
      simp only [Block.fin, sizeofHead, elBlockOverhead] at this ⊢
      omega
    · rw [hs.fixed.fin]
      cases s <;> simp only [endActual, sizeofCtl, sizeofHead] at hout ⊢ <;> omega
  have hword :
      ∀ s, ∀ a ∈ (h.list s).nodes (ls s), ∀ j < sizeofHead, m' (a + j) = h.mem (a + j) := by
    intro s a ha j hj
    have := hnode s a ha
    exact hm _ (by omega)
  refine ⟨?_, hs.bytes, hs.bound, ?_, ?_, ?_, ?_, hs.nodup, hs.disjoint⟩
  · exact tiles_append.mpr ⟨c, hl, tiles_append.mpr ⟨d, hn, hr⟩⟩
  · refine ⟨fun s => ?_, fun s => ?_, hs.fixed.out⟩
    · rw [Heap.list_setMem]
      exact hs.fixed.beg s
    · rw [Heap.list_setMem]
      exact hs.fixed.fin s
  · intro b hb
    simp only [List.mem_append] at hb
    have hother : b ∈ l ∨ b ∈ r → Tagged m' b := by
      intro hb
      have htag := hs.tagged b (by simp only [List.mem_append]; tauto)
      refine htag.congr fun i hle hlt => hm i ?_
      have := hkeep b hb
      omega
    obtain hb | hb | hb := hb
    · exact hother (.inl hb)
    · exact htag b hb
    · exact hother (.inr hb)
  · intro s
    rw [Heap.list_setMem]
    exact (hs.listed s).of_words (hword s)
  · intro s b hb
    have := hmem s b hb
    simp only [List.mem_append]
    tauto

/-- A block that is on neither list changes its state. -/
lemma setState (hs : Shape h (l ++ x :: r) ls) (hx : ∀ s, x ∉ ls s) (v : UInt8) :
    Shape (h.setMem (Memory.setState h.mem x.addr v)) (l ++ { x with state := v } :: r) ls ∧
      Only (Tags h (l ++ x :: r)) h.mem (Memory.setState h.mem x.addr v) := by
  have hmem : x ∈ l ++ x :: r := by simp
  obtain ⟨htag, honly⟩ := setState_spec (hs.tagged x hmem) v
  obtain ⟨hl, hr⟩ := tiles_append_cons.mp hs.tiles
  refine ⟨rewrite [x] [{ x with state := v }] hs (by simpa using hx) hl
    (tiles_singleton.mpr ⟨rfl, rfl⟩) hr (honly.mono fun i hi => hi.bounds) (by simpa using htag),
    ?_⟩
  exact honly.mono fun i hi => .inr ⟨x, hmem, hi⟩

/-- A block that is on neither list is split. -/
lemma split (hs : Shape h (l ++ x :: r) ls) (hx : ∀ s, x ∉ ls s)
    (hn : n + elBlockOverhead ≤ x.size) :
    ∃ v m', elSplitBlock h.mem x.addr n = some ((x.upper n v).addr, m') ∧
      Shape (h.setMem m') (l ++ x.lower n :: x.upper n v :: r) ls ∧
      Only (Tags h (l ++ x.lower n :: x.upper n v :: r)) h.mem m' := by
  have hmem : x ∈ l ++ x :: r := by simp
  have hlt : x.fin < 2 ^ 64 := lt_of_le_of_lt (hs.bounds hmem).2 hs.bound
  obtain ⟨v, m', hsplit, hlow, hup, honly⟩ := elSplitBlock_spec (hs.tagged x hmem) hn hlt
  obtain ⟨hl, hr⟩ := tiles_append_cons.mp hs.tiles
  have hnew : Tiles Block.addr Block.fin x.addr [x.lower n, x.upper n v] x.fin := by
    refine ⟨rfl, rfl, ?_⟩
    simp only [Tiles, Block.fin, Block.upper, elBlockOverhead] at hn ⊢
    omega
  refine ⟨v, m', hsplit, rewrite [x] [x.lower n, x.upper n v] hs (by simpa using hx)
    hl hnew hr (honly.mono fun i hi => ?_) (by simpa using ⟨hlow, hup⟩), honly.mono fun i hi => ?_⟩
  · have hb : ∀ b ∈ [x.lower n, x.upper n v], x.addr ≤ b.addr ∧ b.fin ≤ x.fin := fun b hb =>
      hnew.bounds Block.addr_lt_fin hb
    obtain hi | hi := hi
    · have := hb (x.lower n) (by simp)
      have := hi.bounds
      omega
    · have := hb (x.upper n v) (by simp)
      have := hi.bounds
      omega
  · obtain hi | hi := hi
    · exact .inr ⟨_, by simp, hi⟩
    · exact .inr ⟨_, by simp, hi⟩

/-- Two neighbours that are on neither list are merged. -/
lemma merge (hs : Shape h (l ++ x :: y :: r) ls) (hx : ∀ s, x ∉ ls s) (hy : ∀ s, y ∉ ls s) :
    Shape (h.setMem (mergeTags h.mem x.addr y.addr)) (l ++ x.merge y :: r) ls ∧
      Only (Tags h (l ++ x.merge y :: r)) h.mem (mergeTags h.mem x.addr y.addr) := by
  obtain ⟨hl, hxr⟩ := tiles_append_cons.mp hs.tiles
  obtain ⟨hxy, hr⟩ := hxr
  have hlt : y.fin < 2 ^ 64 := lt_of_le_of_lt (hs.bounds (by simp)).2 hs.bound
  obtain ⟨htag, honly⟩ :=
    mergeTags_spec (hs.tagged x (by simp)) (hs.tagged y (by simp)) hxy.symm hlt
  have hfin : (x.merge y).fin = y.fin := by
    simp only [Block.fin, Block.merge, elBlockOverhead] at hxy ⊢
    omega
  refine ⟨rewrite [x, y] [x.merge y] hs (by simpa using ⟨hx, hy⟩) hl
    (tiles_singleton.mpr ⟨rfl, hfin⟩) hr (honly.mono fun i hi => ?_) (by simpa using htag),
    honly.mono fun i hi => .inr ⟨_, by simp, hi⟩⟩
  rw [← hfin]
  exact hi.bounds

/-- Memory may change where the allocator keeps nothing. -/
lemma setMem {bs : List Block} {m' : ℕ → UInt8} (hs : Shape h bs ls)
    (hm : ∀ i, Tags h bs i → m' i = h.mem i) : Shape (h.setMem m') bs ls := by
  refine ⟨hs.tiles, hs.bytes, hs.bound, ?_, fun b hb => ?_, fun s => ?_, hs.mem, hs.nodup,
    hs.disjoint⟩
  · refine ⟨fun s => ?_, fun s => ?_, hs.fixed.out⟩
    · rw [Heap.list_setMem]
      exact hs.fixed.beg s
    · rw [Heap.list_setMem]
      exact hs.fixed.fin s
  · have htag := hs.tagged b hb
    have hhead : ∀ j < sizeofHead, m' (b.addr + j) = h.mem (b.addr + j) := fun j hj =>
      hm _ (.inr ⟨b, hb, .inl ⟨by omega, by omega⟩⟩)
    rw [sizeofHead] at hhead
    refine ⟨?_, ?_, ?_⟩
    · rw [← htag.size]
      exact word_congr fun j hj => hhead j (by omega)
    · rw [← htag.state]
      exact hhead 8 (by omega)
    · rw [← htag.foot]
      refine word_congr fun j hj => hm _ (.inr ⟨b, hb, .inr ⟨by omega, ?_⟩⟩)
      simp only [Block.foot, Block.fin, sizeofHead, elBlockOverhead]
      omega
  · rw [Heap.list_setMem]
    refine (hs.listed s).of_words fun a ha j hj => hm _ ?_
    obtain ⟨t, ht⟩ | ⟨b, hb, rfl⟩ := hs.node_of_mem ha
    · refine .inl ?_
      rw [hs.fixed.beg, hs.fixed.fin] at ht
      cases t <;> simp only [begActual, endActual, sizeofCtl, sizeofHead] at ht hj ⊢ <;> omega
    · exact .inr ⟨b, hb, .inl ⟨by omega, by omega⟩⟩

/-- No byte of a payload is a tag. -/
lemma payload_untagged {bs : List Block} {b : Block} {i : ℕ} (hs : Shape h bs ls) (hb : b ∈ bs)
    (hle : b.payload ≤ i) (hlt : i < b.payload + b.size) : ¬ Tags h bs i := by
  have hbounds := hs.bounds hb
  have hout := hs.fixed.out
  simp only [Block.payload, sizeofHead] at hle hlt
  rintro (hctl | ⟨c, hc, htag⟩)
  · omega
  · obtain rfl | hle' | hle' := hs.tiles.apart Block.addr_lt_fin hb hc
    · simp only [Block.Tag, Block.foot, Block.fin, sizeofHead, elBlockOverhead] at htag
      omega
    · have := htag.bounds
      simp only [Block.fin, elBlockOverhead] at hle' this
      omega
    · have := htag.bounds
      omega

/-- Memory that is new to the heap becomes a block. -/
lemma extend {bs : List Block} {m' : ℕ → UInt8} {nbytes : ℕ} (hs : Shape h bs ls) (hx : Tagged m' x)
    (haddr : x.addr = h.heapEnd) (hfin : x.fin = h.heapEnd + nbytes)
    (hlt : h.heapEnd + nbytes < 2 ^ 64)
    (hm : Only (fun i => h.heapEnd ≤ i ∧ i < h.heapEnd + nbytes) h.mem m') :
    Shape (h.grow m' nbytes) (bs ++ [x]) ls := by
  have hend := hs.tiles.le Block.addr_lt_fin
  have hout := hs.fixed.out
  have hword :
      ∀ s, ∀ a ∈ (h.list s).nodes (ls s), ∀ j < sizeofHead, m' (a + j) = h.mem (a + j) := by
    intro s a ha j hj
    refine hm _ ?_
    simp only [BlockList.nodes, List.mem_cons, List.mem_append, List.mem_map, List.not_mem_nil,
      or_false] at ha
    obtain rfl | ⟨b, hb, rfl⟩ | rfl := ha
    · rw [hs.fixed.beg]
      cases s <;> simp only [begActual, sizeofCtl, sizeofHead] at hout hj ⊢ <;> omega
    · have := hs.bounds (hs.mem s b hb)
      simp only [Block.fin, sizeofHead, elBlockOverhead] at this hj ⊢
      omega
    · rw [hs.fixed.fin]
      cases s <;> simp only [endActual, sizeofCtl, sizeofHead] at hout hj ⊢ <;> omega
  refine ⟨?_, ?_, hlt, ?_, ?_, ?_, ?_, hs.nodup, hs.disjoint⟩
  · exact tiles_append.mpr ⟨h.heapEnd, hs.tiles, haddr, hfin⟩
  · have := hs.bytes
    show h.heapStart + (h.heapBytes + nbytes) = h.heapEnd + nbytes
    omega
  · refine ⟨fun s => ?_, fun s => ?_, hout⟩
    · rw [Heap.list_grow]
      exact hs.fixed.beg s
    · rw [Heap.list_grow]
      exact hs.fixed.fin s
  · intro b hb
    obtain hb | hb := List.mem_append.mp hb
    · refine (hs.tagged b hb).congr fun i hle hlt' => hm i ?_
      have := hs.bounds hb
      omega
    · rwa [List.mem_singleton.mp hb]
  · intro s
    rw [Heap.list_grow]
    exact (hs.listed s).of_words (hword s)
  · exact fun s b hb => List.mem_append_left _ (hs.mem s b hb)

/-! ### Searching -/

/-- A list is no longer than the heap has room for. -/
lemma length_le {bs : List Block} (hs : Shape h bs ls) (s : Side) :
    (ls s).length ≤ h.heapBytes / elBlockOverhead := by
  have htiles : ∀ {c d : ℕ} {l : List Block}, Tiles Block.addr Block.fin c l d →
      c + l.length * elBlockOverhead ≤ d := by
    intro c d l
    induction l generalizing c with
    | nil => rintro rfl; simp
    | cons b l ih =>
      rintro ⟨rfl, hl⟩
      have := ih hl
      simp only [Block.fin, elBlockOverhead, List.length_cons] at this ⊢
      omega
  have hsub : (ls s).length ≤ bs.length :=
    ((hs.nodup s).subperm fun b hb => hs.mem s b hb).length_le
  have := htiles hs.tiles
  have := hs.bytes
  rw [Nat.le_div_iff_mul_le (by simp [elBlockOverhead])]
  simp only [elBlockOverhead] at *
  omega

/-- `el_find_first_avail` searches the list of the available blocks. -/
lemma find {bs : List Block} (hs : Shape h bs ls) (hstate : ∀ b ∈ ls .avail, b.state = elAvailable)
    (n : ℕ) :
    elFindFirstAvail h n = ((ls .avail).find? fun b => n ≤ b.size).map Block.addr := by
  have hlist := hs.listed .avail
  have htag : ∀ b ∈ ls .avail, Tagged h.mem b := fun b hb => hs.tagged b (hs.mem _ b hb)
  have hends : ∀ a ∈ (ls .avail).map Block.addr,
      decide (headState h.mem a = elEndBlock) = false := by
    intro a ha
    obtain ⟨b, hb, rfl⟩ := List.mem_map.mp ha
    rw [(htag b hb).state, hstate b hb]
    rfl
  have hlen : ((ls .avail).map Block.addr).length < h.heapBytes / elBlockOverhead + 1 := by
    rw [List.length_map]
    exact Nat.lt_succ_of_le (hs.length_le .avail)
  refine (search_eq (L := headLinks h.mem) hlist.linked (decide_eq_true hlist.ends) hends
    hlen).trans ?_
  rw [List.find?_map]
  refine congrArg _ (List.find?_congr fun b hb => ?_)
  rw [Function.comp, (htag b hb).state, (htag b hb).size, hstate b hb]
  simp

end Shape

end TownOS.Memory
