import TownOS.Memory.Paging

/-!
The page tree of an address space.

A `Space` is an address space as a map: a frame and flags for some pages, and the frames the
tables are in. `Tree` says that physical memory holds it. Every place of the tree has a frame
of its own, which is taken from the pool; so writing to one of them, or to a frame that is in
no tree, leaves the others alone.

* `Tree.tableWalk_eq`: a walk of the tables finds the pages of the space;
* `Tree.mapPage`: `paging_map_page` puts a frame into it, or needs a table that is not to be
  had;
* `Tree.unmapPage`: the round of `paging_unmap_user_range` takes a page out of it and returns
  its frame.
-/

namespace TownOS.Memory

open Bytes

/-! ### Entries -/

lemma land_pteAddrMask (e : ℕ) : e &&& pteAddrMask = e / 2 ^ 12 % 2 ^ 40 * 2 ^ 12 := by
  refine Nat.eq_of_testBit_eq fun i => ?_
  have hmask : pteAddrMask = (2 ^ 40 - 1) <<< 12 := by decide
  rw [Nat.testBit_and, hmask, Nat.testBit_shiftLeft, Nat.testBit_two_pow_sub_one,
    ← Nat.shiftLeft_eq,
    Nat.testBit_shiftLeft, Nat.testBit_mod_two_pow, ← Nat.shiftRight_eq_div_pow,
    Nat.testBit_shiftRight]
  by_cases hi : 12 ≤ i
  · rw [Nat.add_sub_cancel' hi]
    simp [hi, Bool.and_comm]
  · simp [hi]

/-- The address of a frame: whole pages, below the bits above the address in an entry. -/
def IsFrame (f : ℕ) : Prop := f % 2 ^ 12 = 0 ∧ f < 2 ^ 52

/-- Flags of an entry: the bits below the address. -/
def IsFlags (w : ℕ) : Prop := w < 2 ^ 12

lemma or_flags {f w : ℕ} (hf : IsFrame f) (hw : IsFlags w) : f ||| w = f + w := by
  obtain ⟨q, rfl⟩ : ∃ q, f = q * 2 ^ 12 := ⟨f / 2 ^ 12, by have := hf.1; omega⟩
  rw [Nat.or_comm, ← Nat.shiftLeft_eq, or_shiftLeft hw, Nat.shiftLeft_eq, Nat.add_comm]

lemma land_mask_of_isFrame {f : ℕ} (hf : IsFrame f) : f &&& pteAddrMask = f := by
  obtain ⟨hmod, hlt⟩ := hf
  rw [land_pteAddrMask]
  omega

lemma pteAddr_or_of_land {f w : ℕ} (hf : IsFrame f) (hw : w &&& pteAddrMask = 0) :
    pteAddr (f ||| w) = f := by
  rw [pteAddr, Nat.and_or_distrib_right, hw, Nat.or_zero, land_mask_of_isFrame hf]

lemma pteAddr_or {f w : ℕ} (hf : IsFrame f) (hw : IsFlags w) : pteAddr (f ||| w) = f := by
  refine pteAddr_or_of_land hf ?_
  rw [land_pteAddrMask, Nat.div_eq_of_lt hw, Nat.zero_mod, Nat.zero_mul]

/-- `entry & ~PTE_ADDR_MASK`. -/
def pteFlags (e : ℕ) : ℕ := e &&& (2 ^ 64 - 1 - pteAddrMask)

lemma pteFlags_or {f w : ℕ} (hf : IsFrame f) (hlt : w < 2 ^ 64) (hw : w &&& pteAddrMask = 0) :
    pteFlags (f ||| w) = w := by
  have hcompl : 2 ^ 64 - 1 - pteAddrMask = pteAddrMask ^^^ (2 ^ 64 - 1) := by decide
  have hflt : f < 2 ^ 64 := lt_trans hf.2 (by norm_num)
  rw [pteFlags, Nat.and_or_distrib_right, hcompl, Nat.and_xor_distrib_left,
    Nat.and_xor_distrib_left, land_mask_of_isFrame hf, hw,
    Nat.and_two_pow_sub_one_of_lt_two_pow hflt,
    Nat.and_two_pow_sub_one_of_lt_two_pow hlt, Nat.xor_self, Nat.zero_xor, Nat.zero_or]

/-- A flag of an entry does not depend on its address. -/
lemma or_land {f w b : ℕ} (hf : IsFrame f) (hb : IsFlags b) : (f ||| w) &&& b = w &&& b := by
  have hzero : f &&& b = 0 := by
    refine Nat.eq_of_testBit_eq fun i => ?_
    rw [Nat.testBit_and, Nat.zero_testBit]
    by_cases hi : i < 12
    · have hmod := Nat.testBit_mod_two_pow f 12 i
      rw [hf.1, Nat.zero_testBit, decide_eq_true hi, Bool.true_and] at hmod
      rw [← hmod, Bool.false_and]
    · have hlt : b < 2 ^ i := lt_of_lt_of_le hb (Nat.pow_le_pow_right (by norm_num) (by omega))
      rw [Nat.testBit_lt_two_pow hlt, Bool.and_false]
  rw [Nat.and_or_distrib_right, hzero, Nat.zero_or]

lemma isFlags_of_lt {w : ℕ} (h : w < 8) : IsFlags w := lt_trans h (by norm_num)

lemma isFlags_pgHuge : IsFlags pgHuge := by norm_num [IsFlags, pgHuge]

lemma or_flags_lt {f w : ℕ} (hf : IsFrame f) (hw : IsFlags w) : f ||| w < 2 ^ 64 := by
  rw [or_flags hf hw]
  simp only [IsFrame, IsFlags] at hf hw
  omega

section TableEntry

variable {t : ℕ} (ht : IsFrame t)
include ht

lemma pteAddr_tableEntry : pteAddr (tableEntry t) = t := pteAddr_or ht (isFlags_of_lt (by decide))

lemma tableEntry_lt : tableEntry t < 2 ^ 64 := or_flags_lt ht (isFlags_of_lt (by decide))

lemma tableEntry_land_pgPresent : tableEntry t &&& pgPresent = pgPresent :=
  or_land ht (isFlags_of_lt (by decide))

lemma tableEntry_land_pgHuge : tableEntry t &&& pgHuge = 0 := or_land ht isFlags_pgHuge

lemma tableEntry_land_openFlags : tableEntry t &&& openFlags = openFlags :=
  (or_land ht (isFlags_of_lt (by decide))).trans (by decide)

end TableEntry

/-! ### Indices -/

lemma pml4Index_eq (v : ℕ) : pml4Index v = v / 2 ^ 39 % 512 := by
  rw [pml4Index, Nat.shiftRight_eq_div_pow]
  exact Nat.and_two_pow_sub_one_eq_mod _ 9

lemma pdptIndex_eq (v : ℕ) : pdptIndex v = v / 2 ^ 30 % 512 := by
  rw [pdptIndex, Nat.shiftRight_eq_div_pow]
  exact Nat.and_two_pow_sub_one_eq_mod _ 9

lemma pdIndex_eq (v : ℕ) : pdIndex v = v / 2 ^ 21 % 512 := by
  rw [pdIndex, Nat.shiftRight_eq_div_pow]
  exact Nat.and_two_pow_sub_one_eq_mod _ 9

lemma ptIndex_eq (v : ℕ) : ptIndex v = v / 2 ^ 12 % 512 := by
  rw [ptIndex, Nat.shiftRight_eq_div_pow]
  exact Nat.and_two_pow_sub_one_eq_mod _ 9

lemma lt_of_mem_userPdSlots {i : ℕ} (h : i ∈ userPdSlots) : i < tableEntries := by
  revert i
  decide

/-- An address of the code, stack or heap slot. -/
def UserSlot (va : ℕ) : Prop := va / twoMb ∈ userPdSlots

instance decidableUserSlot (va : ℕ) : Decidable (UserSlot va) :=
  inferInstanceAs (Decidable (va / twoMb ∈ userPdSlots))

lemma UserSlot.lt {va : ℕ} (h : UserSlot va) : va < 2 ^ 30 := by
  have hlt := lt_of_mem_userPdSlots h
  simp only [twoMb, tableEntries] at hlt
  omega

section UserSlot

variable {va : ℕ} (h : va < 2 ^ 30)
include h

lemma pml4Index_of_lt : pml4Index va = 0 := by rw [pml4Index_eq]; omega

lemma pdptIndex_of_lt : pdptIndex va = 0 := by rw [pdptIndex_eq]; omega

lemma pdIndex_of_lt : pdIndex va = va / twoMb := by rw [pdIndex_eq, twoMb]; omega

end UserSlot

lemma slot_page (va : ℕ) : va / twoMb * tableEntries + ptIndex va = va / frameSize := by
  rw [ptIndex_eq, twoMb, tableEntries, frameSize]
  omega

/-! ### Frames -/

/-- A frame of the pool that is not free. -/
def FramePool.Taken (p : FramePool) (f : ℕ) : Prop :=
  ∃ i < p.numFrames, f = frameAddr i ∧ p.bitmap i = true

lemma isFrame_frameAddr {i : ℕ} (hi : i < maxFrames) : IsFrame (frameAddr i) := by
  simp only [IsFrame, frameAddr, maxFrames, memoryStart, frameSize, oneGb] at *
  omega

lemma FramePool.Taken.isFrame {p : FramePool} {f : ℕ} (h : p.Taken f)
    (hp : p.numFrames ≤ maxFrames) : IsFrame f := by
  obtain ⟨i, hi, rfl, -⟩ := h
  exact isFrame_frameAddr (lt_of_lt_of_le hi hp)

/-- Different frames have no address in common. -/
lemma IsFrame.apart {f g : ℕ} (hf : IsFrame f) (hg : IsFrame g) (hne : f ≠ g) :
    f + frameSize ≤ g ∨ g + frameSize ≤ f := by
  simp only [IsFrame, frameSize] at *
  omega

/-- A frame holds in one memory what it holds in another. -/
def SameFrame (f : ℕ) (m m' : ℕ → UInt8) : Prop := ∀ i < frameSize, m' (f + i) = m (f + i)

variable {f g t i j e : ℕ} {m m' m'' : ℕ → UInt8} {s s' : Phys}

lemma SameFrame.refl (f : ℕ) (m : ℕ → UInt8) : SameFrame f m m := fun _ _ => rfl

lemma SameFrame.trans (h : SameFrame f m m') (h' : SameFrame f m' m'') : SameFrame f m m'' :=
  fun i hi => (h' i hi).trans (h i hi)

/-- The change is confined to another frame. -/
lemma SameFrame.of_only (hf : IsFrame f) (hg : IsFrame g) (hne : f ≠ g)
    (h : Only (fun a => g ≤ a ∧ a < g + frameSize) m m') : SameFrame f m m' := by
  intro i hi
  refine h _ fun hin => ?_
  have happart := hf.apart hg hne
  simp only at hin
  omega

lemma only_setEntry (hi : i < tableEntries) (s : Phys) (t e : ℕ) :
    Only (fun a => t ≤ a ∧ a < t + frameSize) s.mem (s.setEntry t i e).mem := by
  refine only_setWord fun k hk => ?_
  simp only [tableEntries, frameSize] at *
  omega

lemma only_zeroFrame (s : Phys) (t : ℕ) :
    Only (fun a => t ≤ a ∧ a < t + frameSize) s.mem (s.zeroFrame t).mem :=
  only_fill fun _ hk => ⟨Nat.le_add_right _ _, Nat.add_lt_add_left hk _⟩

lemma only_copyTo (s : Phys) (t : ℕ) {bytes : List UInt8} (hlen : bytes.length ≤ frameSize) :
    Only (fun a => t ≤ a ∧ a < t + frameSize) s.mem (s.copyTo t bytes).mem := by
  intro a ha
  exact storeAt_outside (by omega)

lemma entry_congr (h : SameFrame t s.mem s'.mem) (hi : i < tableEntries) :
    s'.entry t i = s.entry t i := by
  refine word_congr fun k hk => ?_
  rw [Nat.add_assoc]
  refine h _ ?_
  simp only [tableEntries, frameSize] at *
  omega

lemma entry_setEntry_self (s : Phys) (t i : ℕ) (he : e < 2 ^ 64) :
    (s.setEntry t i e).entry t i = e := word_setWord _ _ he

lemma entry_setEntry_of_ne (s : Phys) (t e : ℕ) (hij : j ≠ i) :
    (s.setEntry t i e).entry t j = s.entry t j :=
  word_setWord_of_disjoint (by omega)

lemma entry_zeroFrame (s : Phys) (f : ℕ) (hi : i < tableEntries) :
    (s.zeroFrame f).entry f i = 0 := by
  refine word_fill_zero (Nat.le_add_right _ _) ?_
  simp only [tableEntries, frameSize] at *
  omega

/-! ### Taking a frame -/

/-- Every frame of the pool is taken. -/
def FramePool.Full (p : FramePool) : Prop := ∀ i < p.numFrames, p.bitmap i = true

/-- A frame is taken from the pool, and the other frames hold what they held. -/
structure Took (s : Phys) (f : ℕ) (s' : Phys) : Prop where
  num : s'.pool.numFrames = s.pool.numFrames
  fresh : ¬ s.pool.Taken f
  taken : ∀ g, s'.pool.Taken g ↔ s.pool.Taken g ∨ g = f
  same : ∀ g, IsFrame g → g ≠ f → SameFrame g s.mem s'.mem

lemma Took.ne (h : Took s f s') (hg : s.pool.Taken g) : g ≠ f := by
  rintro rfl
  exact h.fresh hg

lemma Took.self (h : Took s f s') : s'.pool.Taken f := (h.taken f).2 (.inr rfl)

lemma Took.isFrame (h : Took s f s') (hp : s.pool.numFrames ≤ maxFrames) : IsFrame f :=
  h.self.isFrame (h.num.trans_le hp)

/-- The frame is written to. -/
lemma Took.write (h : Took s f s') (hf : IsFrame f)
    (hm : Only (fun a => f ≤ a ∧ a < f + frameSize) s'.mem m) : Took s f { s' with mem := m } where
  num := h.num
  fresh := h.fresh
  taken := h.taken
  same := fun g hg hne => (h.same g hg hne).trans (.of_only hg hf hne hm)

lemma taken_setBit {p : FramePool} (hi : i < p.numFrames) :
    (p.setBit i).Taken g ↔ p.Taken g ∨ g = frameAddr i := by
  simp only [FramePool.Taken, FramePool.setBit]
  constructor
  · rintro ⟨j, hj, rfl, hbit⟩
    by_cases hji : j = i
    · exact .inr (by rw [hji])
    · exact .inl ⟨j, hj, rfl, by rwa [if_neg hji] at hbit⟩
  · rintro (⟨j, hj, rfl, hbit⟩ | rfl)
    · exact ⟨j, hj, rfl, by rw [hbit, ite_self]⟩
    · exact ⟨i, hi, rfl, if_pos rfl⟩

lemma taken_freeFrame {p : FramePool} (hf : p.Taken f) :
    (p.freeFrame f).Taken g ↔ p.Taken g ∧ g ≠ f := by
  obtain ⟨i, hi, rfl, hbit⟩ := hf
  rw [FramePool.freeFrame_frameAddr hi]
  simp only [FramePool.Taken, FramePool.clearBit]
  constructor
  · rintro ⟨j, hj, rfl, hjbit⟩
    split_ifs at hjbit with hji
    exact ⟨⟨j, hj, rfl, hjbit⟩, fun heq => hji (frameAddr_inj heq)⟩
  · rintro ⟨⟨j, hj, rfl, hjbit⟩, hne⟩
    exact ⟨j, hj, rfl, by rwa [if_neg fun heq => hne (congrArg frameAddr heq)]⟩

lemma not_taken_frameAddr {p : FramePool} (hbit : p.bitmap i = false) :
    ¬ p.Taken (frameAddr i) := by
  rintro ⟨j, -, hij, hj⟩
  rw [← frameAddr_inj hij, hbit] at hj
  cases hj

/-- `alloc_frame` takes a frame, or there is none. -/
lemma allocFrame_cases (s : Phys) :
    s.allocFrame = (none, s) ∧ s.pool.Full ∨
      ∃ f s', s.allocFrame = (some f, s') ∧ Took s f s' ∧ s'.mem = s.mem := by
  cases halloc : s.pool.allocFrame with
  | mk r p' =>
    cases r with
    | none =>
      obtain ⟨rfl, hfull⟩ := FramePool.allocFrame_none halloc
      exact .inl ⟨by rw [Phys.allocFrame, halloc], hfull⟩
    | some f =>
      obtain ⟨i, hi, hbit, -, rfl, rfl⟩ := FramePool.allocFrame_some halloc
      refine .inr ⟨frameAddr i, ⟨s.pool.setBit i, s.mem⟩, by rw [Phys.allocFrame, halloc], ?_, rfl⟩
      exact ⟨rfl, not_taken_frameAddr hbit, fun g => taken_setBit hi, fun g _ _ => .refl g s.mem⟩

lemma took_of_allocFrame (h : s.allocFrame = (some f, s')) : Took s f s' ∧ s'.mem = s.mem := by
  obtain ⟨hnone, -⟩ | ⟨f', s'', hsome, htook⟩ := allocFrame_cases s
  · rw [hnone] at h
    cases h
  · rw [hsome] at h
    cases h
    exact htook

/-- `alloc_table` takes a frame without entries, or there is none. -/
lemma allocTable_cases (hp : s.pool.numFrames ≤ maxFrames) :
    allocTable s = (none, s) ∧ s.pool.Full ∨
      ∃ f s', allocTable s = (some f, s') ∧ Took s f s' ∧ ∀ i < tableEntries, s'.entry f i = 0 := by
  obtain ⟨halloc, hfull⟩ | ⟨f, s', halloc, htook, -⟩ := allocFrame_cases s
  · exact .inl ⟨by rw [allocTable, halloc], hfull⟩
  · refine .inr
      ⟨f, s'.zeroFrame f, by rw [allocTable, halloc], ?_, fun i hi => entry_zeroFrame s' f hi⟩
    exact htook.write (htook.isFrame hp) (only_zeroFrame s' f)

/-! ### Spaces -/

/-- What is in a leaf entry. -/
structure Page where
  frame : ℕ
  flags : ℕ
  deriving DecidableEq, Repr

/-- The flags a page of ring 3 can have: it may be written, or it may not. -/
def Page.Proper (x : Page) : Prop := x.flags = pgPresent ||| pgUser ∨ x.flags = userPageFlags

/-- What the CPU makes of it. -/
def Page.leaf (x : Page) : Leaf := ⟨x.frame, x.flags &&& pgWritable ≠ 0⟩

/-- The leaf entry. -/
def Page.entry (x : Page) : ℕ := x.frame ||| x.flags

/-- The tables of an address space, by slot of the page directory, and its pages, by number. -/
structure Space where
  pml4 : ℕ
  pdpt : ℕ
  pd : ℕ
  table : ℕ → Option ℕ
  page : ℕ → Option Page

/-- Where a tree has a frame. -/
inductive Place where
  | pml4
  | pdpt
  | pd
  | table (slot : ℕ)
  | page (n : ℕ)
  deriving DecidableEq

/-- A place of a table. -/
def Place.IsTable : Place → Prop
  | page _ => False
  | _ => True

lemma Place.isTable_or_page (a : Place) : a.IsTable ∨ ∃ n, a = .page n := by
  cases a with
  | page n => exact .inr ⟨n, rfl⟩
  | pml4 | pdpt | pd | table => exact .inl trivial

namespace Space

/-- The frame at a place. -/
def frameAt (V : Space) : Place → Option ℕ
  | .pml4 => some V.pml4
  | .pdpt => some V.pdpt
  | .pd => some V.pd
  | .table slot => V.table slot
  | .page n => (V.page n).map Page.frame

/-- A frame is nowhere in the tree. -/
def Free (V : Space) (f : ℕ) : Prop := ∀ a, V.frameAt a ≠ some f

/-- A new table. -/
def addTable (V : Space) (slot t : ℕ) : Space :=
  { V with table := Function.update V.table slot (some t) }

/-- A page is put into the space, or taken out of it. -/
def setPage (V : Space) (n : ℕ) (x : Option Page) : Space :=
  { V with page := Function.update V.page n x }

/-- A space without pages. -/
def empty (pml4 pdpt pd : ℕ) : Space := ⟨pml4, pdpt, pd, fun _ => none, fun _ => none⟩

variable {V : Space} {a : Place} {x : Option Page}

lemma frameAt_addTable {slot : ℕ} :
    (V.addTable slot t).frameAt a = if a = .table slot then some t else V.frameAt a := by
  cases a with
  | table i =>
    simp only [frameAt, addTable, Function.update_apply, Place.table.injEq]
  | pml4 | pdpt | pd | page => exact (if_neg (by simp)).symm

lemma frameAt_setPage {n : ℕ} :
    (V.setPage n x).frameAt a = if a = .page n then x.map Page.frame else V.frameAt a := by
  cases a with
  | page i =>
    simp only [frameAt, setPage, Function.update_apply, Place.page.injEq]
    split_ifs <;> rfl
  | pml4 | pdpt | pd | table => exact (if_neg (by simp)).symm

lemma free_addTable {slot : ℕ} (hnone : V.table slot = none) :
    (V.addTable slot t).Free g ↔ V.Free g ∧ g ≠ t := by
  simp only [Free, frameAt_addTable]
  constructor
  · intro h
    refine ⟨fun a ha => h a ?_, fun heq => h (.table slot) (by rw [if_pos rfl, heq])⟩
    rwa [if_neg]
    rintro rfl
    rw [frameAt, hnone] at ha
    cases ha
  · rintro ⟨h, hne⟩ a ha
    split_ifs at ha
    · exact hne (Option.some.inj ha).symm
    · exact h a ha

lemma free_setPage {n : ℕ} : (V.setPage n x).Free g ↔
    x.map Page.frame ≠ some g ∧ ∀ a, a ≠ .page n → V.frameAt a ≠ some g := by
  simp only [Free, frameAt_setPage]
  constructor
  · intro h
    refine ⟨fun hx => h (.page n) (by rw [if_pos rfl, hx]), fun a hne ha => h a ?_⟩
    rwa [if_neg hne]
  · rintro ⟨hx, h⟩ a ha
    split_ifs at ha with hn
    · exact hx ha
    · exact h a hn ha

end Space

/-- What is in the leaf entry of a page that is present: the flags are none of the bits of the
address. -/
structure Page.Valid (x : Page) : Prop where
  lt : x.flags < 2 ^ 64
  outside : x.flags &&& pteAddrMask = 0
  present : x.flags &&& pgPresent ≠ 0

lemma Page.Proper.valid {x : Page} (h : x.Proper) : x.Valid := by
  obtain hfl | hfl := h <;> constructor <;> rw [hfl] <;> decide

namespace Page.Valid

variable {x : Page} (hx : x.Valid) (hf : IsFrame x.frame)
include hx hf

lemma entry_lt : x.entry < 2 ^ 64 := Nat.or_lt_two_pow (lt_trans hf.2 (by norm_num)) hx.lt

lemma entry_present : x.entry &&& pgPresent ≠ 0 := by
  rw [Page.entry, or_land hf (isFlags_of_lt (by decide))]
  exact hx.present

lemma pteAddr_entry : pteAddr x.entry = x.frame := pteAddr_or_of_land hf hx.outside

lemma pteFlags_entry : pteFlags x.entry = x.flags := pteFlags_or hf hx.lt hx.outside

end Page.Valid

/-- The page that an address names to a walk of the tables: bits 12 to 47. -/
def pageNo (va : ℕ) : ℕ := va % 2 ^ 48 / frameSize

/-- What a walk of the tables finds at an address. -/
def tableWalk (s : Phys) (pml4 va : ℕ) : Option Page :=
  match lookupPte s pml4 va with
  | none => none
  | some (pt, i) =>
    if s.entry pt i &&& pgPresent = 0 then none
    else some ⟨pteAddr (s.entry pt i), pteFlags (s.entry pt i)⟩

/-- What the page directory has for the kernel are huge pages. -/
def KernelHuge (s : Phys) (V : Space) : Prop :=
  ∀ i < tableEntries, i ∉ userPdSlots →
    s.entry V.pd i &&& pgPresent = 0 ∨ s.entry V.pd i &&& pgHuge ≠ 0

/-- The entries that memory has for a space; what the page directory has for the kernel is left
open. -/
structure Tree (s : Phys) (V : Space) : Prop where
  sized : s.pool.numFrames ≤ maxFrames
  taken : ∀ a f, V.frameAt a = some f → s.pool.Taken f
  apart : ∀ a b f, V.frameAt a = some f → V.frameAt b = some f → a = b
  pml4 : ∀ i < tableEntries, s.entry V.pml4 i = if i = 0 then tableEntry V.pdpt else 0
  pdpt : ∀ i < tableEntries, s.entry V.pdpt i = if i = 0 then tableEntry V.pd else 0
  slots : ∀ i, i ∈ userPdSlots → s.entry V.pd i = ((V.table i).map tableEntry).getD 0
  tables : ∀ slot t, V.table slot = some t → slot ∈ userPdSlots ∧
    ∀ i < tableEntries, s.entry t i = ((V.page (slot * tableEntries + i)).map Page.entry).getD 0
  pages : ∀ n x, V.page n = some x → (V.table (n / tableEntries)).isSome ∧ x.Valid

namespace Tree

variable {V : Space} {a : Place}

lemma isFrame (h : Tree s V) (ha : V.frameAt a = some f) : IsFrame f :=
  (h.taken a f ha).isFrame h.sized

/-- The tree is left alone. -/
lemma frame (h : Tree s V) (hn : s'.pool.numFrames = s.pool.numFrames)
    (htaken : ∀ a f, V.frameAt a = some f → s'.pool.Taken f)
    (hsame : ∀ a f, a.IsTable → V.frameAt a = some f → SameFrame f s.mem s'.mem) : Tree s' V where
  sized := hn ▸ h.sized
  taken := htaken
  apart := h.apart
  pml4 := fun i hi => (entry_congr (hsame .pml4 _ trivial rfl) hi).trans (h.pml4 i hi)
  pdpt := fun i hi => (entry_congr (hsame .pdpt _ trivial rfl) hi).trans (h.pdpt i hi)
  slots := fun i hi =>
    (entry_congr (hsame .pd _ trivial rfl) (lt_of_mem_userPdSlots hi)).trans (h.slots i hi)
  tables := fun slot t ht => by
    obtain ⟨hslot, hentries⟩ := h.tables slot t ht
    exact ⟨hslot, fun i hi =>
      (entry_congr (hsame (.table slot) t trivial ht) hi).trans (hentries i hi)⟩
  pages := h.pages

/-- A frame that is taken now is none of the tree. -/
lemma free_of_took (h : Tree s V) (htook : Took s f s') : V.Free f :=
  fun a ha => htook.fresh (h.taken a f ha)

/-- Taking a frame leaves the frames of the tree alone. -/
lemma same_of_took (h : Tree s V) (htook : Took s f s') (ha : V.frameAt a = some g) :
    SameFrame g s.mem s'.mem := htook.same g (h.isFrame ha) (htook.ne (h.taken a g ha))

/-- Taking a frame leaves the tree alone. -/
lemma took (h : Tree s V) (htook : Took s f s') : Tree s' V :=
  h.frame htook.num (fun a g ha => (htook.taken g).2 (.inl (h.taken a g ha)))
    fun _ _ _ ha => h.same_of_took htook ha

/-! ### The page walk -/

lemma isFrame_pdpt (h : Tree s V) : IsFrame V.pdpt := h.isFrame (a := .pdpt) rfl

lemma isFrame_pd (h : Tree s V) : IsFrame V.pd := h.isFrame (a := .pd) rfl

lemma isFrame_table (h : Tree s V) {slot : ℕ} (ht : V.table slot = some t) : IsFrame t :=
  h.isFrame (a := .table slot) ht

lemma isFrame_page (h : Tree s V) {n : ℕ} {x : Page} (hx : V.page n = some x) : IsFrame x.frame :=
  h.isFrame (a := .page n) (congrArg (Option.map Page.frame) hx)

lemma page_eq_none (h : Tree s V) {n : ℕ} (ht : V.table (n / tableEntries) = none) :
    V.page n = none := by
  cases hx : V.page n with
  | none => rfl
  | some x =>
    obtain ⟨hsome, -⟩ := h.pages n x hx
    rw [ht] at hsome
    cases hsome

/-- Tables are in the slots of ring 3. -/
lemma table_eq_none (h : Tree s V) {slot : ℕ} (hu : slot ∉ userPdSlots) : V.table slot = none := by
  by_contra hne
  obtain ⟨t, ht⟩ := Option.ne_none_iff_exists'.1 hne
  exact hu (h.tables slot t ht).1

/-- Pages are in the slots of ring 3. -/
lemma userSlot_of_page (h : Tree s V) {va : ℕ} {x : Page} (hx : V.page (va / frameSize) = some x) :
    UserSlot va := by
  obtain ⟨t, ht⟩ := Option.isSome_iff_exists.1 (h.pages _ x hx).1
  have hslot := (h.tables _ t ht).1
  rwa [Nat.div_div_eq_div_mul] at hslot

/-- The page walk below 1 GB, from the page directory on. -/
lemma translate_of_lt (h : Tree s V) {va : ℕ} (hva : va < 2 ^ 30) :
    translate s V.pml4 va =
      let e₄ := tableEntry V.pdpt
      let e₃ := tableEntry V.pd
      let e₂ := s.entry V.pd (va / twoMb)
      if e₂ &&& pgPresent = 0 then none
      else if e₂ &&& pgHuge ≠ 0 then
        some (pteAddr e₂ + ptIndex va * frameSize, e₄ &&& e₃ &&& e₂)
      else
        let e₁ := s.entry (pteAddr e₂) (ptIndex va)
        if e₁ &&& pgPresent = 0 then none else some (pteAddr e₁, e₄ &&& e₃ &&& e₂ &&& e₁) := by
  have hcanon : Canonical va := .inl (lt_trans hva (by norm_num))
  have h₄ : s.entry V.pml4 (pml4Index va) = tableEntry V.pdpt := by
    rw [pml4Index_of_lt hva]
    exact h.pml4 0 (by decide)
  have h₃ : s.entry V.pdpt (pdptIndex va) = tableEntry V.pd := by
    rw [pdptIndex_of_lt hva]
    exact h.pdpt 0 (by decide)
  rw [translate, if_neg (not_not_intro hcanon)]
  simp only [h₄, pteAddr_tableEntry h.isFrame_pdpt, h₃, pteAddr_tableEntry h.isFrame_pd,
    tableEntry_land_pgPresent h.isFrame_pdpt, tableEntry_land_pgPresent h.isFrame_pd,
    pdIndex_of_lt hva]
  rfl

/-- The page walk finds nothing from 1 GB on. -/
lemma translate_of_ge (h : Tree s V) {va : ℕ} (hva : 2 ^ 30 ≤ va) :
    translate s V.pml4 va = none := by
  rw [translate]
  by_cases hcanon : Canonical va
  case neg => rw [if_pos hcanon]
  rw [if_neg (not_not_intro hcanon)]
  have h₄ := h.pml4 (pml4Index va) (by rw [pml4Index_eq]; exact Nat.mod_lt _ (by norm_num))
  by_cases hzero : pml4Index va = 0
  · rw [if_pos hzero] at h₄
    have h₃ := h.pdpt (pdptIndex va) (by rw [pdptIndex_eq]; exact Nat.mod_lt _ (by norm_num))
    have hne : pdptIndex va ≠ 0 := by
      rw [pml4Index_eq] at hzero
      rw [Canonical] at hcanon
      rw [pdptIndex_eq]
      omega
    rw [if_neg hne] at h₃
    simp only [h₄, pteAddr_tableEntry h.isFrame_pdpt, h₃, Nat.zero_and, if_true, ite_self]
  · rw [if_neg hzero] at h₄
    simp only [h₄, Nat.zero_and, if_true]

/-- Flags of a leaf, on every level of the walk: the levels above it are open. -/
lemma walk_flags {f₄ f₃ f₂ : ℕ} {x : Page} (h₄ : IsFrame f₄) (h₃ : IsFrame f₃) (h₂ : IsFrame f₂)
    (hx : IsFrame x.frame) :
    tableEntry f₄ &&& tableEntry f₃ &&& tableEntry f₂ &&& x.entry &&& openFlags =
      x.flags &&& openFlags := by
  have hand :
      ∀ {g}, IsFrame g → tableEntry g &&& (x.flags &&& openFlags) = x.flags &&& openFlags := by
    intro g hg
    rw [Nat.and_comm x.flags, ← Nat.and_assoc, tableEntry_land_openFlags hg]
  rw [Nat.and_assoc, Nat.and_assoc, Nat.and_assoc, Page.entry,
    or_land hx (isFlags_of_lt (by decide)), hand h₂, hand h₃, hand h₄]

/-- What the CPU finds in the slots of ring 3 is what the space has. -/
lemma translate_user (h : Tree s V) {va : ℕ} (hslot : UserSlot va) :
    (translate s V.pml4 va).map (fun r => (r.1, r.2 &&& openFlags)) =
      (V.page (va / frameSize)).map fun x => (x.frame, x.flags &&& openFlags) := by
  have hn : va / frameSize / tableEntries = va / twoMb := by rw [Nat.div_div_eq_div_mul]; rfl
  rw [h.translate_of_lt hslot.lt, h.slots _ hslot]
  cases ht : V.table (va / twoMb) with
  | none => rw [h.page_eq_none (hn ▸ ht)]; rfl
  | some t =>
    have htf := h.isFrame_table ht
    have hentry := (h.tables _ t ht).2 (ptIndex va)
      (by rw [ptIndex_eq]; exact Nat.mod_lt _ (by norm_num))
    rw [slot_page] at hentry
    simp only [Option.map_some, Option.getD_some, tableEntry_land_pgPresent htf,
      tableEntry_land_pgHuge htf, pteAddr_tableEntry htf, hentry]
    rw [if_neg (by decide), if_neg (by decide)]
    cases hx : V.page (va / frameSize) with
    | none => rfl
    | some x =>
      have hxf := h.isFrame_page hx
      have hvalid := (h.pages _ x hx).2
      simp only [Option.map_some, Option.getD_some, if_neg (hvalid.entry_present hxf),
        hvalid.pteAddr_entry hxf, walk_flags h.isFrame_pdpt h.isFrame_pd htf hxf]

/-- `lookup_pte` finds the entry of a page in the table for it. -/
lemma lookupPte_eq (h : Tree s V) (hk : KernelHuge s V) (va : ℕ) :
    lookupPte s V.pml4 va =
      (V.table (pageNo va / tableEntries)).map fun t => (t, pageNo va % tableEntries) := by
  have hi₄ : pml4Index va < tableEntries := by rw [pml4Index_eq]; exact Nat.mod_lt _ (by norm_num)
  have hi₃ : pdptIndex va < tableEntries := by rw [pdptIndex_eq]; exact Nat.mod_lt _ (by norm_num)
  have hi₂ : pdIndex va < tableEntries := by rw [pdIndex_eq]; exact Nat.mod_lt _ (by norm_num)
  have hpt : ptIndex va = pageNo va % tableEntries := by
    rw [ptIndex_eq, pageNo, tableEntries, frameSize]
    omega
  have h₄ := h.pml4 _ hi₄
  have h₃ := h.pdpt _ hi₃
  by_cases hzero : pml4Index va = 0 ∧ pdptIndex va = 0
  · have hpd : pdIndex va = pageNo va / tableEntries := by
      rw [pml4Index_eq, pdptIndex_eq] at hzero
      rw [pdIndex_eq, pageNo, tableEntries, frameSize]
      omega
    rw [if_pos hzero.1] at h₄
    rw [if_pos hzero.2] at h₃
    simp only [lookupPte, h₄, pteAddr_tableEntry h.isFrame_pdpt, h₃,
      pteAddr_tableEntry h.isFrame_pd, tableEntry_land_pgPresent h.isFrame_pdpt,
      tableEntry_land_pgPresent h.isFrame_pd, if_neg (by decide : ¬ pgPresent = 0), ← hpd, ← hpt]
    by_cases hu : pdIndex va ∈ userPdSlots
    · rw [h.slots _ hu]
      cases ht : V.table (pdIndex va) with
      | none => rfl
      | some t =>
        have htf := h.isFrame_table ht
        simp only [Option.map_some, Option.getD_some, tableEntry_land_pgPresent htf,
          tableEntry_land_pgHuge htf, pteAddr_tableEntry htf]
        exact if_neg (by decide)
    · rw [if_pos (hk _ hi₂ hu), h.table_eq_none hu, Option.map_none]
  · have hu : pageNo va / tableEntries ∉ userPdSlots := by
      intro hmem
      have hlt := lt_of_mem_userPdSlots hmem
      refine hzero ⟨?_, ?_⟩
      · rw [pml4Index_eq]
        simp only [pageNo, tableEntries, frameSize] at hlt
        omega
      · rw [pdptIndex_eq]
        simp only [pageNo, tableEntries, frameSize] at hlt
        omega
    rw [h.table_eq_none hu, Option.map_none]
    by_cases hzero₄ : pml4Index va = 0
    · rw [if_pos hzero₄] at h₄
      rw [if_neg fun hzero₃ => hzero ⟨hzero₄, hzero₃⟩] at h₃
      simp only [lookupPte, h₄, pteAddr_tableEntry h.isFrame_pdpt, h₃, Nat.zero_and, if_true,
        ite_self]
    · rw [if_neg hzero₄] at h₄
      simp only [lookupPte, h₄, Nat.zero_and, if_true]

/-- The entry of a page in its table. -/
lemma entry_page (h : Tree s V) {n : ℕ} (ht : V.table (n / tableEntries) = some t) :
    s.entry t (n % tableEntries) = ((V.page n).map Page.entry).getD 0 := by
  rw [(h.tables _ t ht).2 _ (Nat.mod_lt _ (by decide)), Nat.mul_comm, Nat.div_add_mod]

/-- **A walk of the tables finds the pages of the space.** -/
theorem tableWalk_eq (h : Tree s V) (hk : KernelHuge s V) (va : ℕ) :
    tableWalk s V.pml4 va = V.page (pageNo va) := by
  rw [tableWalk, h.lookupPte_eq hk]
  cases ht : V.table (pageNo va / tableEntries) with
  | none => rw [h.page_eq_none ht]; rfl
  | some t =>
    simp only [Option.map_some, h.entry_page ht]
    cases hx : V.page (pageNo va) with
    | none => rfl
    | some x =>
      have hxf := h.isFrame_page hx
      have hvalid := (h.pages _ x hx).2
      simp only [Option.map_some, Option.getD_some, if_neg (hvalid.entry_present hxf),
        hvalid.pteAddr_entry hxf, hvalid.pteFlags_entry hxf]

/-! ### New tables and pages -/

variable {slot n : ℕ}

/-- Writing an entry of one table leaves the other tables alone. -/
lemma same_of_ne (h : Tree s V) {b : Place} (ha : V.frameAt a = some f) (hb : V.frameAt b = some t)
    (hab : a ≠ b) (hi : i < tableEntries) (e : ℕ) : SameFrame f s.mem (s.setEntry t i e).mem := by
  refine .of_only (h.isFrame ha) (h.isFrame hb) ?_ (only_setEntry hi s t e)
  rintro rfl
  exact hab (h.apart a b f ha hb)

/-- A new table. -/
lemma addTable (h : Tree s V) (hslot : slot ∈ userPdSlots) (hnone : V.table slot = none)
    (ht : s.pool.Taken t) (hfree : V.Free t) (hzero : ∀ i < tableEntries, s.entry t i = 0) :
    Tree (s.setEntry V.pd slot (tableEntry t)) (V.addTable slot t) := by
  have htf : IsFrame t := ht.isFrame h.sized
  have hlt := lt_of_mem_userPdSlots hslot
  have hsame : ∀ {a g}, a ≠ .pd → V.frameAt a = some g →
      SameFrame g s.mem (s.setEntry V.pd slot (tableEntry t)).mem :=
    fun ha hg => h.same_of_ne hg (b := .pd) rfl ha hlt _
  refine ⟨h.sized, ?_, ?_, ?_, ?_, ?_, ?_, ?_⟩
  · intro a g ha
    rw [Space.frameAt_addTable] at ha
    split_ifs at ha
    · cases ha
      exact ht
    · exact h.taken a g ha
  · intro a b g ha hb
    rw [Space.frameAt_addTable] at ha hb
    split_ifs at ha hb with h₁ h₂ h₂
    · rw [h₁, h₂]
    · cases ha
      exact absurd hb (hfree b)
    · cases hb
      exact absurd ha (hfree a)
    · exact h.apart a b g ha hb
  · intro i hi
    exact (entry_congr (hsame (a := .pml4) (by simp) rfl) hi).trans (h.pml4 i hi)
  · intro i hi
    exact (entry_congr (hsame (a := .pdpt) (by simp) rfl) hi).trans (h.pdpt i hi)
  · intro i hi
    change (s.setEntry V.pd slot (tableEntry t)).entry V.pd i = _
    by_cases hi' : i = slot
    · subst hi'
      rw [entry_setEntry_self _ _ _ (tableEntry_lt htf)]
      simp [Space.addTable]
    · rw [entry_setEntry_of_ne _ _ _ hi', h.slots i hi]
      simp [Space.addTable, hi']
  · intro slot' t' ht'
    by_cases hs : slot' = slot
    · subst hs
      obtain rfl : t' = t := by simpa [Space.addTable, eq_comm] using ht'
      refine ⟨hslot, fun i hi => ?_⟩
      have hpage : V.page (slot' * tableEntries + i) = none := by
        refine h.page_eq_none ?_
        rw [Nat.mul_comm, Nat.mul_add_div (by decide), Nat.div_eq_of_lt hi, Nat.add_zero, hnone]
      have hne : SameFrame t' s.mem (s.setEntry V.pd slot' (tableEntry t')).mem :=
        .of_only htf h.isFrame_pd (fun heq => hfree .pd (congrArg some heq.symm))
          (only_setEntry hlt s _ _)
      change _ = ((V.page _).map _).getD _
      rw [entry_congr hne hi, hzero i hi, hpage]
      rfl
    · have ht : V.table slot' = some t' := by simpa [Space.addTable, hs] using ht'
      obtain ⟨hslot', hentries⟩ := h.tables slot' t' ht
      exact ⟨hslot', fun i hi =>
        (entry_congr (hsame (a := .table slot') (by simp) ht) hi).trans (hentries i hi)⟩
  · intro n x hx
    obtain ⟨htable, hvalid⟩ := h.pages n x hx
    refine ⟨?_, hvalid⟩
    simp only [Space.addTable, Function.update_apply]
    split_ifs
    · rfl
    · exact htable

/-- A page, or none, in a table that is there. -/
lemma setPage (h : Tree s V) {x : Option Page} (ht : V.table (n / tableEntries) = some t)
    (hx : ∀ p, x = some p → p.Valid ∧ s.pool.Taken p.frame ∧
      ∀ a, a ≠ .page n → V.frameAt a ≠ some p.frame) :
    Tree (s.setEntry t (n % tableEntries) ((x.map Page.entry).getD 0)) (V.setPage n x) := by
  have hlt : n % tableEntries < tableEntries := Nat.mod_lt _ (by decide)
  have hsame : ∀ {a g}, a ≠ .table (n / tableEntries) → V.frameAt a = some g →
      SameFrame g s.mem (s.setEntry t (n % tableEntries) ((x.map Page.entry).getD 0)).mem :=
    fun ha hg => h.same_of_ne hg (b := .table (n / tableEntries)) ht ha hlt _
  refine ⟨h.sized, ?_, ?_, ?_, ?_, ?_, ?_, ?_⟩
  · intro a g ha
    rw [Space.frameAt_setPage] at ha
    split_ifs at ha
    · obtain ⟨p, hp, rfl⟩ := Option.map_eq_some_iff.1 ha
      exact (hx p hp).2.1
    · exact h.taken a g ha
  · intro a b g ha hb
    rw [Space.frameAt_setPage] at ha hb
    split_ifs at ha hb with h₁ h₂ h₂
    · rw [h₁, h₂]
    · obtain ⟨p, hp, rfl⟩ := Option.map_eq_some_iff.1 ha
      exact absurd hb ((hx p hp).2.2 b h₂)
    · obtain ⟨p, hp, rfl⟩ := Option.map_eq_some_iff.1 hb
      exact absurd ha ((hx p hp).2.2 a h₁)
    · exact h.apart a b g ha hb
  · intro i hi
    exact (entry_congr (hsame (a := .pml4) (by simp) rfl) hi).trans (h.pml4 i hi)
  · intro i hi
    exact (entry_congr (hsame (a := .pdpt) (by simp) rfl) hi).trans (h.pdpt i hi)
  · intro i hi
    exact (entry_congr (hsame (a := .pd) (by simp) rfl) (lt_of_mem_userPdSlots hi)).trans
      (h.slots i hi)
  · intro slot t' ht'
    obtain ⟨hslot, hentries⟩ := h.tables slot t' ht'
    refine ⟨hslot, fun i hi => ?_⟩
    have hdiv : (slot * tableEntries + i) / tableEntries = slot := by
      rw [Nat.mul_comm, Nat.mul_add_div (by decide), Nat.div_eq_of_lt hi, Nat.add_zero]
    have hmod : (slot * tableEntries + i) % tableEntries = i := by
      rw [Nat.mul_comm, Nat.mul_add_mod, Nat.mod_eq_of_lt hi]
    by_cases hn : slot * tableEntries + i = n
    · subst hn
      rw [hdiv] at ht
      obtain rfl : t' = t := Option.some.inj (ht'.symm.trans ht)
      rw [hmod, entry_setEntry_self]
      · simp [Space.setPage]
      · cases x with
        | none => exact Nat.two_pow_pos 64
        | some p => exact (hx p rfl).1.entry_lt ((hx p rfl).2.1.isFrame h.sized)
    · have hpage :
          (V.setPage n x).page (slot * tableEntries + i) = V.page (slot * tableEntries + i) :=
        Function.update_of_ne hn _ _
      rw [hpage, ← hentries i hi]
      by_cases hs : slot = n / tableEntries
      · subst hs
        obtain rfl : t' = t := Option.some.inj (ht'.symm.trans ht)
        refine entry_setEntry_of_ne _ _ _ fun heq => hn ?_
        rw [heq, Nat.mul_comm, Nat.div_add_mod]
      · exact entry_congr (hsame (a := .table slot) (by simp [hs]) ht') hi
  · intro i p hp
    by_cases hi : i = n
    · subst hi
      have hp' : x = some p := by simpa [Space.setPage] using hp
      exact ⟨Option.isSome_iff_exists.2 ⟨t, ht⟩, (hx p hp').1⟩
    · exact h.pages i p (by simpa [Space.setPage, hi] using hp)

end Tree

/-! ### `paging_map_page` -/

/-- A frame in use that is not in the tree. -/
def Phys.Outside (s : Phys) (V : Space) (g : ℕ) : Prop := s.pool.Taken g ∧ V.Free g

/-- What a change of an address space leaves alone: the size of the pool, and what is in the frames
that are not its tables. New tables are in new frames. -/
structure Within (s : Phys) (V : Space) (s' : Phys) (V' : Space) : Prop where
  num : s'.pool.numFrames = s.pool.numFrames
  root : V'.pml4 = V.pml4
  tables : ∀ a g, a.IsTable → V'.frameAt a = some g → V.frameAt a = some g ∨ ¬ s.pool.Taken g
  same : ∀ g, s.pool.Taken g → (∀ a, a.IsTable → V.frameAt a ≠ some g) → SameFrame g s.mem s'.mem

/-- The tables of an address space are kept, and what its page directory has for the kernel. -/
structure Grows (s : Phys) (V : Space) (s' : Phys) (V' : Space) : Prop where
  pdpt : V'.pdpt = V.pdpt
  pd : V'.pd = V.pd
  table : ∀ slot t, V.table slot = some t → V'.table slot = some t
  kernel : ∀ i < tableEntries, i ∉ userPdSlots → s'.entry V.pd i = s.entry V.pd i

variable {V V' V'' : Space} {slot n : ℕ} {x : Page} {s'' : Phys}

lemma Grows.refl (s : Phys) (V : Space) : Grows s V s V :=
  ⟨rfl, rfl, fun _ _ => id, fun _ _ _ => rfl⟩

lemma Grows.trans (h : Grows s V s' V') (h' : Grows s' V' s'' V'') : Grows s V s'' V'' where
  pdpt := h'.pdpt.trans h.pdpt
  pd := h'.pd.trans h.pd
  table := fun slot t ht => h'.table slot t (h.table slot t ht)
  kernel := fun i hi hu => by
    have hk := h'.kernel i hi hu
    rw [h.pd] at hk
    exact hk.trans (h.kernel i hi hu)

lemma Grows.kernelHuge (h : Grows s V s' V') (hk : KernelHuge s V) : KernelHuge s' V' := by
  intro i hi hu
  rw [h.pd, h.kernel i hi hu]
  exact hk i hi hu

/-- An entry of a slot of ring 3 is none of the kernel. -/
lemma kernel_setEntry_pd (s : Phys) (pd e : ℕ) (hslot : slot ∈ userPdSlots) (hi : i ∉ userPdSlots) :
    (s.setEntry pd slot e).entry pd i = s.entry pd i := by
  refine entry_setEntry_of_ne _ _ _ ?_
  rintro rfl
  exact hi hslot

/-- The table for a slot: it is there, or a new frame is, or there is none. -/
lemma Tree.nextTable (h : Tree s V) (hslot : slot ∈ userPdSlots) :
    nextTable s V.pd slot = (none, s) ∧ s.pool.Full ∨
      ∃ t s' V', nextTable s V.pd slot = (some t, s') ∧ Tree s' V' ∧ Within s V s' V' ∧
        Grows s V s' V' ∧ V'.table slot = some t ∧ V'.page = V.page ∧
        (∀ g, s'.Outside V' g ↔ s.Outside V g) ∧
          ∀ slot' ≠ slot, V'.table slot' = V.table slot' := by
  rw [Memory.nextTable, h.slots slot hslot]
  cases ht : V.table slot with
  | some t =>
    have htf := h.isFrame_table ht
    refine .inr
      ⟨t, s, V, ?_, h, ⟨rfl, rfl, fun _ _ _ => .inl, fun g _ _ => .refl g s.mem⟩, .refl s V,
      ht, rfl, fun g => .rfl, fun _ _ => rfl⟩
    rw [Option.map_some, Option.getD_some, tableEntry_land_pgPresent htf, if_neg (by decide),
      pteAddr_tableEntry htf]
  | none =>
    rw [Option.map_none, Option.getD_none, Nat.zero_and, if_pos rfl]
    obtain ⟨halloc, hfull⟩ | ⟨t, s₁, halloc, htook, hzero⟩ := allocTable_cases h.sized
    · exact .inl ⟨by rw [halloc], hfull⟩
    · have htf := htook.isFrame h.sized
      have hfree := h.free_of_took htook
      refine .inr ⟨t, s₁.setEntry V.pd slot (tableEntry t), V.addTable slot t, ?_,
        (h.took htook).addTable hslot ht htook.self hfree hzero, ⟨htook.num, rfl, ?_, ?_⟩,
        ⟨rfl, rfl, ?_, ?_⟩, Function.update_self .., rfl, ?_,
        fun _ hne => Function.update_of_ne hne _ _⟩
      · rw [halloc]
        dsimp only
        rw [entry_setEntry_self _ _ _ (tableEntry_lt htf), pteAddr_tableEntry htf]
      · intro a g _ ha
        rw [Space.frameAt_addTable] at ha
        split_ifs at ha
        · cases ha
          exact .inr htook.fresh
        · exact .inl ha
      · intro g hg hno
        have hgf := hg.isFrame h.sized
        refine (htook.same g hgf (htook.ne hg)).trans (.of_only hgf h.isFrame_pd ?_
          (only_setEntry (lt_of_mem_userPdSlots hslot) s₁ _ _))
        rintro rfl
        exact hno .pd trivial rfl
      · intro slot' t' ht'
        refine (Function.update_of_ne ?_ _ _).trans ht'
        rintro rfl
        rw [ht] at ht'
        cases ht'
      · intro i hi hu
        rw [kernel_setEntry_pd _ _ _ hslot hu]
        exact entry_congr (h.same_of_took htook (a := .pd) rfl) hi
      · intro g
        rw [Phys.Outside, Phys.Outside, Space.free_addTable ht]
        refine ⟨fun ⟨hg, hf, hne⟩ => ⟨((htook.taken g).1 hg).resolve_right hne, hf⟩,
          fun ⟨hg, hf⟩ => ⟨(htook.taken g).2 (.inl hg), hf, htook.ne hg⟩⟩

/-- A leaf entry is none of the page directory. -/
lemma Tree.grows_setPage (h : Tree s V) {y : Option Page} {e : ℕ}
    (ht : V.table (n / tableEntries) = some t) :
    Grows s V (s.setEntry t (n % tableEntries) e) (V.setPage n y) where
  pdpt := rfl
  pd := rfl
  table := fun _ _ => id
  kernel := fun _ hi _ => entry_congr
    (h.same_of_ne (a := .pd) (b := .table (n / tableEntries)) rfl ht (by simp)
      (Nat.mod_lt _ (by decide)) e) hi

/-- A frame in use is put into a tree. -/
structure Tree.Maps (s : Phys) (V : Space) (n : ℕ) (x : Page) (s' : Phys) (V' : Space) : Prop
    extends Within s V s' V', Grows s V s' V' where
  tree : Tree s' V'
  page : V'.page = Function.update V.page n (some x)
  outside : ∀ g, s'.Outside V' g ↔
    s.Outside V g ∧ g ≠ x.frame ∨ (V.page n).map Page.frame = some g

/-- **`paging_map_page` puts a frame into the space, or it finds no frame for a table and changes
nothing.** -/
theorem Tree.mapPage (h : Tree s V) {va : ℕ} (hva : UserSlot va) (hx : x.Valid)
    (hout : s.Outside V x.frame) :
    pagingMapPage s V.pml4 va x.frame x.flags = (false, s) ∧ s.pool.Full ∨
      ∃ s' V', pagingMapPage s V.pml4 va x.frame x.flags = (true, s') ∧
        Maps s V (va / frameSize) x s' V' ∧ ∀ slot ≠ va / twoMb, V'.table slot = V.table slot := by
  have hpml4 : Memory.nextTable s V.pml4 (pml4Index va) = (some V.pdpt, s) := by
    rw [Memory.nextTable, pml4Index_of_lt hva.lt, h.pml4 0 (by decide), if_pos rfl,
      tableEntry_land_pgPresent h.isFrame_pdpt, if_neg (by decide),
      pteAddr_tableEntry h.isFrame_pdpt]
  have hpdpt : Memory.nextTable s V.pdpt (pdptIndex va) = (some V.pd, s) := by
    rw [Memory.nextTable, pdptIndex_of_lt hva.lt, h.pdpt 0 (by decide), if_pos rfl,
      tableEntry_land_pgPresent h.isFrame_pd, if_neg (by decide), pteAddr_tableEntry h.isFrame_pd]
  have hmask : x.frame &&& pteAddrMask = x.frame := land_mask_of_isFrame (hout.1.isFrame h.sized)
  rw [pagingMapPage, hpml4]
  dsimp only
  rw [hpdpt]
  dsimp only
  rw [pdIndex_of_lt hva.lt, hmask]
  obtain ⟨hfail, hfull⟩ | ⟨t, s₁, V₁, hnext, htree, hwithin, hgrows, ht, hpage, hrest, hothers⟩ :=
    h.nextTable hva
  · exact .inl ⟨by rw [hfail], hfull⟩
  · rw [hnext]
    have hn : va / frameSize / tableEntries = va / twoMb := by rw [Nat.div_div_eq_div_mul]; rfl
    have hmod : ptIndex va = va / frameSize % tableEntries := ptIndex_eq va
    have hout₁ : s₁.Outside V₁ x.frame := (hrest _).2 hout
    rw [← hn] at ht
    refine .inr ⟨_, V₁.setPage (va / frameSize) (some x), rfl,
      ⟨⟨hwithin.num, hwithin.root, ?_, ?_⟩, hgrows.trans (hmod ▸ htree.grows_setPage ht), ?_, ?_,
        ?_⟩,
      hothers⟩
    · intro a g hta ha
      refine hwithin.tables a g hta ?_
      rwa [Space.frameAt_setPage, if_neg (by rintro rfl; exact hta)] at ha
    · intro g hg hno
      have htf := htree.isFrame_table ht
      refine (hwithin.same g hg hno).trans (.of_only (hg.isFrame h.sized) htf ?_
        (only_setEntry (hmod ▸ Nat.mod_lt _ (by decide)) s₁ _ _))
      rintro rfl
      obtain hold | hnew := hwithin.tables (.table _) g trivial ht
      · exact hno (.table _) trivial hold
      · exact hnew hg
    · rw [hmod]
      refine htree.setPage (x := some x) ht ?_
      rintro p hp
      cases hp
      exact ⟨hx, hout₁.1, fun a _ => hout₁.2 a⟩
    · rw [Space.setPage, hpage]
    · intro g
      rw [← hrest, ← hpage, Phys.Outside, Space.free_setPage]
      constructor
      · rintro ⟨hg, hne, hno⟩
        by_cases hold : (V₁.page (va / frameSize)).map Page.frame = some g
        · exact .inr hold
        · refine .inl ⟨⟨hg, fun a ha => ?_⟩, fun heq => hne (congrArg some heq.symm)⟩
          by_cases han : a = .page (va / frameSize)
          · subst han
            exact hold ha
          · exact hno a han ha
      · rintro (⟨⟨hg, hfree⟩, hne⟩ | hold)
        · exact ⟨hg, fun heq => hne (Option.some.inj heq).symm, fun a _ => hfree a⟩
        · refine ⟨htree.taken (.page _) g hold, ?_, fun a hne ha => hne (htree.apart _ _ g ha hold)⟩
          intro heq
          cases heq
          exact hout₁.2 (.page _) hold

/-! ### `paging_unmap_user_range` -/

/-- A page that is not there is taken out. -/
lemma Space.setPage_none (hx : V.page n = none) : V.setPage n none = V := by
  rw [Space.setPage, ← hx, Function.update_eq_self]

/-- A frame that is in no tree is returned. -/
lemma Tree.freeFrame (h : Tree s V) (hf : s.pool.Taken f) (hfree : V.Free f) :
    Tree (s.freeFrame f) V := by
  refine h.frame (FramePool.freeFrame_numFrames ..) (fun a g ha => (taken_freeFrame hf).2 ?_)
    fun _ g _ _ => .refl g s.mem
  refine ⟨h.taken a g ha, ?_⟩
  rintro rfl
  exact hfree a ha

/-- **The round of `paging_unmap_user_range` for a page takes it out of the space and returns its
frame.** It writes to tables of the space only. -/
theorem Tree.unmapPage (h : Tree s V) (hk : KernelHuge s V) (va : ℕ) :
    Tree (unmapPage V.pml4 s va) (V.setPage (pageNo va) none) ∧
      Grows s V (unmapPage V.pml4 s va) (V.setPage (pageNo va) none) ∧
      (∀ g, (unmapPage V.pml4 s va).pool.Taken g ↔
        s.pool.Taken g ∧ (V.page (pageNo va)).map Page.frame ≠ some g) ∧
      (unmapPage V.pml4 s va).pool.numFrames = s.pool.numFrames ∧
      ∀ g, IsFrame g → (∀ a, a.IsTable → V.frameAt a ≠ some g) →
        SameFrame g s.mem (unmapPage V.pml4 s va).mem := by
  rw [Memory.unmapPage, h.lookupPte_eq hk]
  cases ht : V.table (pageNo va / tableEntries) with
  | none =>
    have hx := h.page_eq_none ht
    rw [Space.setPage_none hx, hx]
    exact ⟨h, .refl s V, by simp, rfl, fun g _ _ => .refl g s.mem⟩
  | some t =>
    simp only [Option.map_some, h.entry_page ht]
    cases hx : V.page (pageNo va) with
    | none =>
      rw [Space.setPage_none hx]
      exact ⟨h, .refl s V, by simp, rfl, fun g _ _ => .refl g s.mem⟩
    | some x =>
      have hxf := h.isFrame_page hx
      have hvalid := (h.pages _ x hx).2
      have hplace : V.frameAt (.page (pageNo va)) = some x.frame :=
        congrArg (Option.map Page.frame) hx
      have htaken := h.taken _ _ hplace
      simp only [Option.map_some, Option.getD_some, if_neg (hvalid.entry_present hxf),
        hvalid.pteAddr_entry hxf]
      have hgrows := h.grows_setPage (y := none) (e := 0) ht
      refine ⟨?_, ⟨hgrows.pdpt, hgrows.pd, hgrows.table, hgrows.kernel⟩, fun g => ?_,
        FramePool.freeFrame_numFrames .., fun g hg hno => ?_⟩
      · have hset := h.setPage (x := none) ht (by simp)
        refine hset.freeFrame htaken ?_
        rw [Space.free_setPage]
        exact ⟨by simp, fun a hne ha => hne (h.apart a _ _ ha hplace)⟩
      · rw [Ne, Option.some.injEq, eq_comm (a := x.frame)]
        exact taken_freeFrame htaken
      · have hne : g ≠ t := by
          rintro rfl
          exact hno (.table _) trivial ht
        exact .of_only hg (h.isFrame_table ht) hne (only_setEntry (Nat.mod_lt _ (by decide)) _ _ _)

end TownOS.Memory
