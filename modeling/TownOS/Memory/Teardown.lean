import TownOS.Memory.Spaces
import Mathlib.Logic.Relation

/-!
What an address space is built from, and what its teardown returns.

An address space is made, pages are mapped into it and unmapped again, and the rest of the
kernel goes on in between. `Tended` is one step of that, on a `Growth`: physical memory, together
with a record of what was mapped last at each page and of the frames that the calls took for
tables. `paging_destroy_address_space` then calls `free_frame` for the frames in `spaceFrees`.

* `unmaps_iff`: which pages `paging_unmap_user_range` visits, for every range it returns for;
* `pool_destroy`: the teardown returns the frames in `spaceFrees`, in that order;
* `Tree.spaceFrees_eq`: these are the frames of the tree, place by place;
* `page_trees_exact`: after every run a walk of the tables finds what was mapped last, kernel
  translations are as they were, and the teardown returns the frames of the record, each once.
-/

namespace TownOS.Memory

variable {s s' s₀ s₁ : Phys} {V : Space} {pml4 pd base length f g n : ℕ}

/-! ### The pages of a range -/

/-- The addresses that `paging_unmap_user_range` visits: `base + length` is in 64 bits, so
a range that wraps around has none. -/
def unmapRange (base length : ℕ) : List ℕ :=
  if base + length < 2 ^ 64 then pagesOf base length else []

lemma pagesOf_zero (base : ℕ) : pagesOf base 0 = [] := rfl

lemma pagesOf_of_pos (base : ℕ) (h : 0 < length) :
    pagesOf base length = base :: pagesOf (base + frameSize) (length - frameSize) := by
  have hcount : (length + (frameSize - 1)) / frameSize =
      (length - frameSize + (frameSize - 1)) / frameSize + 1 := by
    simp only [frameSize]
    omega
  rw [pagesOf, pagesOf, hcount, List.range_succ_eq_map, List.map_cons, List.map_map, Nat.zero_mul,
    Nat.add_zero]
  congr 1
  refine List.map_congr_left fun i _ => ?_
  simp only [Function.comp_apply, Nat.succ_mul]
  omega

/-- No address of a round is at the end of the range: the loop goes on for ever. -/
lemma unmapLoop_endless {stop fuel va : ℕ} (hva : va < 2 ^ 64)
    (hstop : 2 ^ 64 - frameSize + va % frameSize < stop) :
    unmapLoop pml4 stop fuel va s = none := by
  induction fuel generalizing va s with
  | zero => rfl
  | succ fuel ih =>
    have hlt : va < stop := by
      simp only [frameSize] at hstop
      omega
    have hmod : (va + frameSize) % 2 ^ 64 % frameSize = va % frameSize := by
      simp only [frameSize]
      omega
    rw [unmapLoop, if_pos hlt]
    refine ih (Nat.mod_lt _ (Nat.two_pow_pos 64)) ?_
    rw [hmod]
    exact hstop

/-- If the loop returns, it has visited the pages that were left. -/
lemma unmapLoop_some {stop fuel va : ℕ} (hva : va < 2 ^ 64)
    (h : unmapLoop pml4 stop fuel va s = some s') :
    s' = (pagesOf va (stop - va)).foldl (unmapPage pml4) s := by
  induction fuel generalizing va s with
  | zero => cases h
  | succ fuel ih =>
    rw [unmapLoop] at h
    by_cases hlt : va < stop
    · rw [if_pos hlt] at h
      by_cases hwrap : va + frameSize < 2 ^ 64
      · rw [Nat.mod_eq_of_lt hwrap] at h
        rw [ih hwrap h, pagesOf_of_pos va (Nat.sub_pos_of_lt hlt), List.foldl_cons, Nat.sub_sub]
      · -- the last page below 2^64 is before the end, and it comes round again
        rw [unmapLoop_endless (Nat.mod_lt _ (Nat.two_pow_pos 64))] at h
        · cases h
        · simp only [frameSize] at hwrap ⊢
          omega
    · rw [if_neg hlt] at h
      rw [Nat.sub_eq_zero_of_le (Nat.not_lt.1 hlt), pagesOf_zero]
      exact (Option.some.inj h).symm

/-- **What `paging_unmap_user_range` does if it returns.** -/
lemma Unmaps.eq (hbase : base < 2 ^ 64) (hlength : length < 2 ^ 64)
    (h : Unmaps pml4 base length s s') :
    s' = (unmapRange base length).foldl (unmapPage pml4) s := by
  obtain ⟨fuel, h⟩ := h
  rw [unmapRange]
  by_cases hwrap : base + length < 2 ^ 64
  · rw [if_pos hwrap]
    rw [Nat.mod_eq_of_lt hwrap] at h
    rw [unmapLoop_some hbase h, Nat.add_sub_cancel_left]
  · rw [if_neg hwrap]
    have hstop : (base + length) % 2 ^ 64 - base = 0 := by omega
    have hs := unmapLoop_some hbase h
    rwa [hstop, pagesOf_zero] at hs

/-! ### What the teardown returns -/

/-- The frame of a leaf entry that is present. -/
def leafFrame (s : Phys) (pt i : ℕ) : Option ℕ :=
  if s.entry pt i &&& pgPresent ≠ 0 then some (pteAddr (s.entry pt i)) else none

/-- What `destroy_page_table` calls `free_frame` for. -/
def tableFrees (s : Phys) (pt : ℕ) : List ℕ :=
  (List.range tableEntries).filterMap (leafFrame s pt) ++ [pt]

/-- What the round of `paging_destroy_address_space` for a slot calls `free_frame` for. -/
def slotFrees (pd : ℕ) (s : Phys) (slot : ℕ) : List ℕ :=
  if s.entry pd slot &&& pgPresent = 0 ∨ s.entry pd slot &&& pgHuge ≠ 0 then []
  else tableFrees s (pteAddr (s.entry pd slot))

/-- The same for the rounds for some slots, one after the other. -/
def slotsFrees (pd : ℕ) : List ℕ → Phys → List ℕ
  | [], _ => []
  | slot :: slots, s => slotFrees pd s slot ++ slotsFrees pd slots (destroySlot pd s slot)

/-- What `paging_destroy_address_space` calls `free_frame` for, in its order. -/
def spaceFrees (s : Phys) (pml4 : ℕ) : List ℕ :=
  let pdpt := pteAddr (s.entry pml4 0)
  let pd := pteAddr (s.entry pdpt 0)
  (if s.entry pml4 0 &&& pgPresent ≠ 0 then
    (if s.entry pdpt 0 &&& pgPresent ≠ 0 then slotsFrees pd userPdSlots s ++ [pd] else []) ++ [pdpt]
  else []) ++ [pml4]

/-- Frames are returned one after the other. -/
def FramePool.freeAll (p : FramePool) (fs : List ℕ) : FramePool := fs.foldl FramePool.freeFrame p

lemma FramePool.freeAll_append (p : FramePool) (fs gs : List ℕ) :
    p.freeAll (fs ++ gs) = (p.freeAll fs).freeAll gs := List.foldl_append

lemma FramePool.freeAll_singleton (p : FramePool) (f : ℕ) : p.freeAll [f] = p.freeFrame f := rfl

/-- The loop of `destroy_page_table`: returning a frame changes no entry. -/
lemma foldl_freeLeaf (pt : ℕ) (is : List ℕ) (s : Phys) :
    is.foldl (fun s i => if s.entry pt i &&& pgPresent ≠ 0 then s.freeFrame (pteAddr (s.entry pt i))
      else s) s = { s with pool := s.pool.freeAll (is.filterMap (leafFrame s pt)) } := by
  induction is generalizing s with
  | nil => rfl
  | cons i is ih =>
    rw [List.foldl_cons, ih, List.filterMap_cons, leafFrame]
    split_ifs
    · rfl
    · rfl

lemma destroyPageTable_eq (s : Phys) (pt : ℕ) :
    destroyPageTable s pt = { s with pool := s.pool.freeAll (tableFrees s pt) } := by
  rw [destroyPageTable, foldl_freeLeaf, tableFrees, FramePool.freeAll_append,
    FramePool.freeAll_singleton, Phys.freeFrame]

lemma destroySlot_pool (pd : ℕ) (s : Phys) (slot : ℕ) :
    (destroySlot pd s slot).pool = s.pool.freeAll (slotFrees pd s slot) := by
  rw [destroySlot, slotFrees]
  split_ifs
  · rfl
  · rw [destroyPageTable_eq, Phys.setEntry]

/-- A round writes at most the entry of its slot. -/
lemma destroySlot_mem (pd : ℕ) (s : Phys) (slot : ℕ) :
    (destroySlot pd s slot).mem = s.mem ∨
      (destroySlot pd s slot).mem = (s.setEntry pd slot 0).mem := by
  rw [destroySlot]
  split_ifs
  · exact .inl rfl
  · rw [destroyPageTable_eq, Phys.setEntry, Phys.setEntry]
    exact .inr rfl

lemma destroySlots_pool (pd : ℕ) (slots : List ℕ) (s : Phys) :
    (slots.foldl (destroySlot pd) s).pool = s.pool.freeAll (slotsFrees pd slots s) := by
  induction slots generalizing s with
  | nil => rfl
  | cons slot slots ih =>
    rw [List.foldl_cons, ih, destroySlot_pool, slotsFrees, FramePool.freeAll_append]

/-- **`paging_destroy_address_space` returns the frames of `spaceFrees`, one after the other.** -/
theorem pool_destroy (s : Phys) (pml4 : ℕ) :
    (pagingDestroyAddressSpace s pml4).pool = s.pool.freeAll (spaceFrees s pml4) := by
  simp only [pagingDestroyAddressSpace, spaceFrees, FramePool.freeAll_append]
  by_cases h₄ : s.entry pml4 0 &&& pgPresent ≠ 0
  · rw [if_pos h₄, if_pos h₄, FramePool.freeAll_append]
    by_cases h₃ : s.entry (pteAddr (s.entry pml4 0)) 0 &&& pgPresent ≠ 0
    · rw [if_pos h₃, if_pos h₃, FramePool.freeAll_append, ← destroySlots_pool]
      rfl
    · rw [if_neg h₃, if_neg h₃]
      rfl
  · rw [if_neg h₄, if_neg h₄]
    rfl

lemma taken_freeAll {p : FramePool} {fs : List ℕ} (hnodup : fs.Nodup)
    (htaken : ∀ f ∈ fs, p.Taken f) :
    (p.freeAll fs).Taken g ↔ p.Taken g ∧ g ∉ fs := by
  induction fs generalizing p with
  | nil => exact (and_iff_left List.not_mem_nil).symm
  | cons f fs ih =>
    obtain ⟨hf, hnodup⟩ := List.nodup_cons.1 hnodup
    have hself := htaken f List.mem_cons_self
    have hrest : ∀ f' ∈ fs, (p.freeFrame f).Taken f' := by
      intro f' hf'
      refine (taken_freeFrame hself).2 ⟨htaken f' (List.mem_cons_of_mem f hf'), ?_⟩
      rintro rfl
      exact hf hf'
    rw [FramePool.freeAll, List.foldl_cons]
    refine (ih hnodup hrest).trans ?_
    rw [taken_freeFrame hself, List.mem_cons, not_or, and_assoc]

/-! ### The places of a tree -/

/-- The places of a slot, in the order of the teardown. -/
def Place.ofSlot (slot : ℕ) : List Place :=
  (List.range tableEntries).map (fun i => .page (slot * tableEntries + i)) ++ [.table slot]

/-- The places of a tree, in the order of the teardown. -/
def Place.all : List Place := userPdSlots.flatMap Place.ofSlot ++ [.pd, .pdpt, .pml4]

lemma Place.mem_ofSlot {slot : ℕ} {a : Place} : a ∈ Place.ofSlot slot ↔
    (∃ i < tableEntries, a = .page (slot * tableEntries + i)) ∨ a = .table slot := by
  simp only [ofSlot, List.mem_append, List.mem_map, List.mem_range, List.mem_singleton,
    eq_comm (b := a)]

lemma Place.nodup_ofSlot (slot : ℕ) : (Place.ofSlot slot).Nodup := by
  refine List.Nodup.append (List.Nodup.map ?_ List.nodup_range) (List.nodup_singleton _) ?_
  · intro i j hij
    simpa using hij
  · rw [List.disjoint_singleton]
    simp

lemma Place.nodup_all : Place.all.Nodup := by
  have hslots : (userPdSlots.flatMap Place.ofSlot).Nodup := by
    refine List.nodup_flatMap.2 ⟨fun slot _ => nodup_ofSlot slot, ?_⟩
    refine List.Pairwise.imp ?_ (by decide : userPdSlots.Nodup)
    intro slot slot' hne a ha ha'
    rw [mem_ofSlot] at ha ha'
    obtain ⟨i, hi, rfl⟩ | rfl := ha
    · obtain ⟨j, hj, heq⟩ | heq := ha'
      · rw [Place.page.injEq] at heq
        simp only [tableEntries] at *
        omega
      · cases heq
    · obtain ⟨j, hj, heq⟩ | heq := ha'
      · cases heq
      · exact hne (Place.table.inj heq)
  refine List.Nodup.append hslots (by decide) fun a ha ha' => ?_
  obtain ⟨slot, -, hslot⟩ := List.mem_flatMap.1 ha
  rw [mem_ofSlot] at hslot
  obtain ⟨i, -, rfl⟩ | rfl := hslot <;> simp at ha'

namespace Tree

lemma mem_all (h : Tree s V) {a : Place} (ha : V.frameAt a = some f) : a ∈ Place.all := by
  have huser : ∀ {slot}, (V.table slot).isSome → ∀ b ∈ Place.ofSlot slot, b ∈ Place.all := by
    intro slot hsome b hb
    obtain ⟨t, ht⟩ := Option.isSome_iff_exists.1 hsome
    exact List.mem_append_left _ (List.mem_flatMap.2 ⟨slot, (h.tables slot t ht).1, hb⟩)
  cases a with
  | pml4 | pdpt | pd => simp [Place.all]
  | table slot =>
    exact huser (Option.isSome_of_eq_some ha) _ (Place.mem_ofSlot.2 (.inr rfl))
  | page n =>
    obtain ⟨x, hx, -⟩ := Option.map_eq_some_iff.1 ha
    refine huser (h.pages n x hx).1 _ (Place.mem_ofSlot.2 (.inl ⟨n % tableEntries, ?_, ?_⟩))
    · exact Nat.mod_lt _ (by decide)
    · rw [Nat.mul_comm, Nat.div_add_mod]

/-- A leaf entry that is present has the frame of its page. -/
lemma leafFrame_eq {t i : ℕ} (x : Option Page)
    (hx : ∀ p, x = some p → p.Valid ∧ IsFrame p.frame)
    (hentry : s'.entry t i = (x.map Page.entry).getD 0) : leafFrame s' t i = x.map Page.frame := by
  rw [leafFrame, hentry]
  cases x with
  | none => rfl
  | some p =>
    obtain ⟨hvalid, hp⟩ := hx p rfl
    simp only [Option.map_some, Option.getD_some]
    rw [if_pos (hvalid.entry_present hp), hvalid.pteAddr_entry hp]

/-- The round for a slot returns the frames of its places; some rounds may have come before. -/
lemma slotFrees_eq (h : Tree s V) {slot : ℕ}
    (hpd : s'.entry V.pd slot = ((V.table slot).map tableEntry).getD 0)
    (hsame : ∀ t, V.table slot = some t → SameFrame t s.mem s'.mem) :
    slotFrees V.pd s' slot = (Place.ofSlot slot).filterMap V.frameAt := by
  have hdiv : ∀ {i}, i < tableEntries → (slot * tableEntries + i) / tableEntries = slot := by
    intro i hi
    rw [Nat.mul_comm, Nat.mul_add_div (by decide), Nat.div_eq_of_lt hi, Nat.add_zero]
  rw [slotFrees, hpd, Place.ofSlot, List.filterMap_append, List.filterMap_map]
  cases ht : V.table slot with
  | none =>
    have hpages : (List.range tableEntries).filterMap
        (V.frameAt ∘ fun i => .page (slot * tableEntries + i)) = [] := by
      refine List.filterMap_eq_nil_iff.2 fun i hi => ?_
      have hnone := h.page_eq_none (n := slot * tableEntries + i)
        (by rw [hdiv (List.mem_range.1 hi), ht])
      exact congrArg (Option.map Page.frame) hnone
    rw [hpages, if_pos (.inl rfl)]
    simp [Space.frameAt, ht]
  | some t =>
    have htf := h.isFrame_table ht
    simp only [Option.map_some, Option.getD_some, tableEntry_land_pgPresent htf,
      tableEntry_land_pgHuge htf, pteAddr_tableEntry htf]
    rw [if_neg (by decide), tableFrees]
    refine congrArg₂ (· ++ ·) (List.filterMap_congr fun i hi => ?_) ?_
    · have hi := List.mem_range.1 hi
      refine leafFrame_eq (V.page (slot * tableEntries + i)) ?_ ?_
      · exact fun p hp => ⟨(h.pages _ p hp).2, h.isFrame_page hp⟩
      · rw [entry_congr (hsame t ht) hi, (h.tables slot t ht).2 i hi]
    · simp [Space.frameAt, ht]

/-- The rounds for some slots, after some for others. -/
lemma slotsFrees_eq (h : Tree s V) {slots : List ℕ} (hnodup : slots.Nodup)
    (huser : ∀ slot ∈ slots, slot ∈ userPdSlots)
    (hpd : ∀ slot ∈ slots, s'.entry V.pd slot = ((V.table slot).map tableEntry).getD 0)
    (hsame : ∀ slot t, V.table slot = some t → SameFrame t s.mem s'.mem) :
    slotsFrees V.pd slots s' = (slots.flatMap Place.ofSlot).filterMap V.frameAt := by
  induction slots generalizing s' with
  | nil => rfl
  | cons slot slots ih =>
    obtain ⟨hslot, hnodup⟩ := List.nodup_cons.1 hnodup
    rw [slotsFrees, List.flatMap_cons, List.filterMap_append,
      h.slotFrees_eq (hpd slot List.mem_cons_self) (hsame slot)]
    congr 1
    have hlt := lt_of_mem_userPdSlots (huser slot List.mem_cons_self)
    refine ih hnodup (fun x hx => huser x (List.mem_cons_of_mem slot hx)) (fun x hx => ?_) ?_
    · -- the entry that the round clears is that of its own slot
      rw [← hpd x (List.mem_cons_of_mem slot hx)]
      have hne : x ≠ slot := by
        rintro rfl
        exact hslot hx
      obtain hmem | hmem := destroySlot_mem V.pd s' slot
      · rw [Phys.entry, hmem, Phys.entry]
      · rw [Phys.entry, hmem]
        exact entry_setEntry_of_ne _ _ _ hne
    · intro slot' t ht
      refine (hsame slot' t ht).trans ?_
      obtain hmem | hmem := destroySlot_mem V.pd s' slot
      · rw [hmem]
        exact .refl t _
      · rw [hmem]
        refine .of_only (h.isFrame_table ht) h.isFrame_pd ?_ (only_setEntry hlt s' _ _)
        rintro rfl
        exact absurd (h.apart (.table slot') .pd _ ht rfl) (by simp)

/-- **The teardown returns the frames of the tree, place by place.** -/
theorem spaceFrees_eq (h : Tree s V) : spaceFrees s V.pml4 = Place.all.filterMap V.frameAt := by
  have h₄ := h.pml4 0 (by decide)
  have h₃ := h.pdpt 0 (by decide)
  rw [if_pos rfl] at h₄ h₃
  have hslots := h.slotsFrees_eq (by decide : userPdSlots.Nodup) (fun _ => id) h.slots
    fun _ t _ => .refl t s.mem
  simp only [spaceFrees, h₄, pteAddr_tableEntry h.isFrame_pdpt, h₃, pteAddr_tableEntry h.isFrame_pd,
    tableEntry_land_pgPresent h.isFrame_pdpt, tableEntry_land_pgPresent h.isFrame_pd,
    if_pos (by decide : pgPresent ≠ 0), hslots, Place.all, List.filterMap_append, List.append_assoc]
  rfl

lemma nodup_spaceFrees (h : Tree s V) : (spaceFrees s V.pml4).Nodup := by
  rw [h.spaceFrees_eq]
  exact List.Nodup.filterMap (fun a b f ha hb => h.apart a b f ha hb) Place.nodup_all

lemma mem_spaceFrees (h : Tree s V) : f ∈ spaceFrees s V.pml4 ↔ ∃ a, V.frameAt a = some f := by
  rw [h.spaceFrees_eq, List.mem_filterMap]
  exact ⟨fun ⟨a, _, ha⟩ => ⟨a, ha⟩, fun ⟨a, ha⟩ => ⟨a, h.mem_all ha, ha⟩⟩

end Tree

/-! ### Runs -/

/-- Physical memory, what was mapped last at each page and not unmapped since, and the frames that
the calls took for tables. -/
structure Growth where
  phys : Phys
  last : ℕ → Option Page
  built : Set ℕ

/-- The frames that a call takes from the pool. -/
def newly (s s' : Phys) : Set ℕ := {f | s'.pool.Taken f ∧ ¬ s.pool.Taken f}

/-- What was mapped last, without the pages of some addresses. -/
def forget (last : ℕ → Option Page) (vas : List ℕ) : ℕ → Option Page := fun n =>
  if n ∈ vas.map pageNo then none else last n

lemma forget_nil (last : ℕ → Option Page) : forget last [] = last := rfl

lemma forget_cons (last : ℕ → Option Page) (va : ℕ) (vas : List ℕ) :
    forget last (va :: vas) = forget (Function.update last (pageNo va) none) vas := by
  funext n
  by_cases hn : n = pageNo va
  · simp [forget, hn]
  · simp [forget, hn]

namespace Growth

/-- A frame in use that is not in the tree. -/
structure Fresh (w : Growth) (f : ℕ) : Prop where
  taken : w.phys.pool.Taken f
  built : f ∉ w.built
  leaf : ∀ n x, w.last n = some x → x.frame ≠ f

/-- The rest of the kernel takes and returns frames and writes to memory, and so do programs; but
the frames of the tree stay in use, and nobody else writes to its tables. -/
structure Elsewhere (w : Growth) (s' : Phys) : Prop where
  num : s'.pool.numFrames = w.phys.pool.numFrames
  built : ∀ f ∈ w.built, s'.pool.Taken f ∧ SameFrame f w.phys.mem s'.mem
  leaf : ∀ n x, w.last n = some x → s'.pool.Taken x.frame

end Growth

/-- A step in the life of an address space. -/
inductive Tended (pml4 : ℕ) : Growth → Growth → Prop
  | mapped {w : Growth} {va f flags : ℕ} {s' : Phys} (haligned : va % frameSize = 0)
      (hslot : UserSlot va) (hnone : w.last (va / frameSize) = none) (hfresh : w.Fresh f)
      (hflags : (Page.mk f flags).Valid)
      (hmap : pagingMapPage w.phys pml4 va f flags = (true, s')) :
      Tended pml4 w ⟨s', Function.update w.last (va / frameSize) (some ⟨f, flags⟩),
        w.built ∪ newly w.phys s'⟩
  | exhausted {w : Growth} {va f flags : ℕ} {s' : Phys} (haligned : va % frameSize = 0)
      (hslot : UserSlot va) (hnone : w.last (va / frameSize) = none) (hfresh : w.Fresh f)
      (hflags : (Page.mk f flags).Valid)
      (hmap : pagingMapPage w.phys pml4 va f flags = (false, s')) :
      Tended pml4 w ⟨s', w.last, w.built ∪ newly w.phys s'⟩
  | unmapped {w : Growth} {base length : ℕ} {s' : Phys} (hbase : base < 2 ^ 64)
      (hlength : length < 2 ^ 64) (hunmap : Unmaps pml4 base length w.phys s') :
      Tended pml4 w ⟨s', forget w.last (unmapRange base length), w.built⟩
  | elsewhere {w : Growth} {s' : Phys} (h : w.Elsewhere s') : Tended pml4 w ⟨s', w.last, w.built⟩

/-- The tree of a growth, which was another one at first. -/
structure Growth.Records (w : Growth) (s₁ : Phys) (V₁ V : Space) : Prop where
  tree : Tree w.phys V
  grows : Grows s₁ V₁ w.phys V
  root : V.pml4 = V₁.pml4
  page : V.page = w.last
  built : ∀ f, f ∈ w.built ↔ ∃ a, a.IsTable ∧ V.frameAt a = some f

variable {w w' : Growth} {V₁ V' : Space} {x : Page}

/-- The tables of a tree into which a page was mapped. -/
lemma Tree.Maps.tables_iff (h : Tree s V) (hmaps : Tree.Maps s V n x s' V')
    (hx : s.pool.Taken x.frame) :
    (∃ a, a.IsTable ∧ V'.frameAt a = some g) ↔
      (∃ a, a.IsTable ∧ V.frameAt a = some g) ∨ g ∈ newly s s' := by
  constructor
  · rintro ⟨a, hta, ha⟩
    obtain hold | hnew := hmaps.tables a g hta ha
    · exact .inl ⟨a, hta, hold⟩
    · exact .inr ⟨hmaps.tree.taken a g ha, hnew⟩
  · rintro (⟨a, hta, ha⟩ | ⟨hg, hnew⟩)
    · refine ⟨a, hta, ?_⟩
      cases a with
      | pml4 => exact (congrArg some hmaps.root).trans ha
      | pdpt => exact (congrArg some hmaps.pdpt).trans ha
      | pd => exact (congrArg some hmaps.pd).trans ha
      | table slot => exact hmaps.table slot g ha
      | page n => exact hta.elim
    · -- the frame was free: it is neither outside the tree nor in a leaf
      have hpage : ∀ m, V'.frameAt (.page m) ≠ some g := by
        intro m hm
        obtain ⟨y, hy, rfl⟩ := Option.map_eq_some_iff.1 hm
        rw [hmaps.page, Function.update_apply] at hy
        split_ifs at hy
        · cases hy
          exact hnew hx
        · exact hnew (h.taken (.page m) _ (congrArg (Option.map Page.frame) hy))
      by_contra hno
      have hfree : V'.Free g := by
        intro a ha
        obtain hta | ⟨m, rfl⟩ := a.isTable_or_page
        · exact hno ⟨a, hta, ha⟩
        · exact hpage m ha
      obtain hout | hout := (hmaps.outside g).1 ⟨hg, hfree⟩
      · exact hnew hout.1.1
      · exact hnew (h.taken (.page n) g hout)

namespace Growth.Records

lemma page_eq (h : w.Records s₁ V₁ V) : V.page n = w.last n := congrFun h.page n

lemma outside (h : w.Records s₁ V₁ V) (hf : w.Fresh f) : w.phys.Outside V f := by
  refine ⟨hf.taken, fun a ha => ?_⟩
  obtain hta | ⟨n, rfl⟩ := a.isTable_or_page
  · exact hf.built ((h.built f).2 ⟨a, hta, ha⟩)
  · obtain ⟨x, hx, hxf⟩ := Option.map_eq_some_iff.1 ha
    exact hf.leaf n x (h.page_eq ▸ hx) hxf

lemma unmapPage (h : w.Records s₁ V₁ V) (hk : KernelHuge s₁ V₁) (va : ℕ) :
    Growth.Records ⟨unmapPage V₁.pml4 w.phys va, Function.update w.last (pageNo va) none, w.built⟩
      s₁ V₁ (V.setPage (pageNo va) none) := by
  obtain ⟨htree, hgrows, -⟩ := h.tree.unmapPage (h.grows.kernelHuge hk) va
  rw [← h.root]
  refine ⟨htree, h.grows.trans hgrows, h.root, ?_, fun f => ?_⟩
  · rw [Space.setPage, h.page]
  · rw [h.built]
    refine exists_congr fun a => and_congr_right fun hta => ?_
    rw [Space.frameAt_setPage, if_neg]
    rintro rfl
    exact hta

lemma unmapPages (h : w.Records s₁ V₁ V) (hk : KernelHuge s₁ V₁) (vas : List ℕ) :
    ∃ V', Growth.Records
      ⟨vas.foldl (Memory.unmapPage V₁.pml4) w.phys, forget w.last vas, w.built⟩ s₁ V₁ V' := by
  induction vas generalizing w V with
  | nil => exact ⟨V, forget_nil w.last ▸ h⟩
  | cons va vas ih =>
    rw [List.foldl_cons, forget_cons]
    exact ih (h.unmapPage hk va)

/-- **A step keeps the record.** -/
lemma step (h : w.Records s₁ V₁ V) (hk : KernelHuge s₁ V₁) (hstep : Tended V₁.pml4 w w') :
    ∃ V', w'.Records s₁ V₁ V' := by
  cases hstep with
  | mapped _ hslot hnone hfresh hflags hmap =>
    obtain ⟨hfail, -⟩ | ⟨s'', V', hok, hmaps, -⟩ := h.tree.mapPage hslot hflags (h.outside hfresh)
    · rw [← h.root, hfail] at hmap
      cases hmap
    · rw [← h.root, hok] at hmap
      cases hmap
      refine ⟨V', hmaps.tree, h.grows.trans hmaps.toGrows, hmaps.root.trans h.root, ?_, fun g => ?_⟩
      · rw [hmaps.page, h.page]
      · rw [hmaps.tables_iff h.tree hfresh.taken, ← h.built]
        rfl
  | exhausted _ hslot hnone hfresh hflags hmap =>
    obtain ⟨hfail, -⟩ | ⟨s'', V', hok, -⟩ := h.tree.mapPage hslot hflags (h.outside hfresh)
    · rw [← h.root, hfail] at hmap
      cases hmap
      refine ⟨V, h.tree, h.grows, h.root, h.page, fun g => ?_⟩
      rw [← h.built]
      exact ⟨fun hg => hg.resolve_right fun hnew => hnew.2 hnew.1, .inl⟩
    · rw [← h.root, hok] at hmap
      cases hmap
  | unmapped hbase hlength hunmap =>
    rw [hunmap.eq hbase hlength]
    exact h.unmapPages hk _
  | elsewhere hother =>
    have hbuilt : ∀ {a f}, a.IsTable → V.frameAt a = some f → _ := fun hta ha =>
      hother.built _ ((h.built _).2 ⟨_, hta, ha⟩)
    refine ⟨V, h.tree.frame hother.num (fun a f ha => ?_) fun a f hta ha => (hbuilt hta ha).2,
      h.grows.trans ⟨rfl, rfl, fun _ _ => id, fun i hi _ => ?_⟩, h.root, h.page, h.built⟩
    · obtain hta | ⟨n, rfl⟩ := a.isTable_or_page
      · exact (hbuilt hta ha).1
      · obtain ⟨x, hx, rfl⟩ := Option.map_eq_some_iff.1 ha
        exact hother.leaf n x (h.page_eq ▸ hx)
    · exact entry_congr (hbuilt (a := .pd) trivial rfl).2 hi

/-- A run keeps the record. -/
lemma run (h : w.Records s₁ V₁ V) (hk : KernelHuge s₁ V₁)
    (hrun : Relation.ReflTransGen (Tended V₁.pml4) w w') : ∃ V', w'.Records s₁ V₁ V' := by
  induction hrun with
  | refl => exact ⟨V, h⟩
  | tail _ hstep ih =>
    obtain ⟨V', hV'⟩ := ih
    exact hV'.step hk hstep

/-- Outside the slots of ring 3 the page walk of the CPU finds what it found at first. -/
lemma translate_eq (h : w.Records s₁ V₁ V) (h₁ : Tree s₁ V₁) (hk : KernelHuge s₁ V₁) {va : ℕ}
    (hslot : ¬ UserSlot va) : translate w.phys V₁.pml4 va = translate s₁ V₁.pml4 va := by
  have hroot := h.root
  obtain hva | hva := Nat.lt_or_ge va (2 ^ 30)
  · have hlt : va / twoMb < tableEntries := by
      simp only [twoMb, tableEntries]
      omega
    have hwalk := h.tree.translate_of_lt hva
    rw [hroot, h.grows.pdpt, h.grows.pd, h.grows.kernel _ hlt hslot] at hwalk
    rw [hwalk, h₁.translate_of_lt hva]
    obtain habsent | hhuge := hk _ hlt hslot
    · simp only [habsent, if_true]
    · simp only [hhuge, ne_eq, not_false_eq_true, if_true]
  · rw [← hroot, h.tree.translate_of_ge hva, hroot, h₁.translate_of_ge hva]

/-- The frames of the tree are those of the record. -/
lemma frames_iff (h : w.Records s₁ V₁ V) :
    (∃ a, V.frameAt a = some f) ↔ f ∈ w.built ∨ ∃ n x, w.last n = some x ∧ x.frame = f := by
  rw [h.built]
  constructor
  · rintro ⟨a, ha⟩
    obtain hta | ⟨n, rfl⟩ := a.isTable_or_page
    · exact .inl ⟨a, hta, ha⟩
    · obtain ⟨x, hx, hxf⟩ := Option.map_eq_some_iff.1 ha
      exact .inr ⟨n, x, h.page_eq ▸ hx, hxf⟩
  · rintro (⟨a, -, ha⟩ | ⟨n, x, hx, rfl⟩)
    · exact ⟨a, ha⟩
    · exact ⟨.page n, congrArg (Option.map Page.frame) (h.page_eq.trans hx)⟩

end Growth.Records

/-- What the boot page directory has for the kernel are huge pages. -/
lemma Copied.kernelHuge {mapTop : ℕ} (h : Copied s V (pdTable mapTop)) : KernelHuge s V := by
  intro i hi hu
  have hslot : ¬(i = userPdIndexCode ∨ i = userPdIndexStack) := by
    rintro (rfl | rfl) <;> exact hu (by decide)
  have hhuge : hugeEntry i 0 &&& pgHuge ≠ 0 := by
    rw [hugeEntry, or_land (isFrame_twoMb hi) isFlags_pgHuge]
    decide
  rw [h i hi hu, pdTable, if_neg hslot]
  split_ifs
  · exact .inr hhuge
  · exact .inr hhuge
  · exact .inl (Nat.zero_and _)

/-- A new address space is built from the frames that its creation took. -/
lemma Created.records (h : Created s₀ s₁ V) :
    Growth.Records ⟨s₁, fun _ => none, newly s₀ s₁⟩ s₁ V V where
  tree := h.shows.toTree
  grows := .refl s₁ V
  root := rfl
  page := funext h.blank
  built := fun f => by
    constructor
    · rintro ⟨hf, hnew⟩
      by_contra hno
      refine hnew ((h.outside f).1 ⟨hf, fun a ha => ?_⟩)
      obtain hta | ⟨n, rfl⟩ := a.isTable_or_page
      · exact hno ⟨a, hta, ha⟩
      · rw [Space.frameAt, h.blank] at ha
        cases ha
    · rintro ⟨a, -, ha⟩
      exact ⟨h.shows.taken a f ha, fun hold => ((h.outside f).2 hold).2 a ha⟩

/-- **Page trees are maps, and their teardown is exact.** An address space is created, and then
tended in any way. A walk of its tables finds the frame and the flags that were mapped last at an
address; the CPU finds them too. Translations of the kernel are as they were. And
`paging_destroy_address_space` returns the frames that the tree was built from and the leaves that
are still mapped, each once, and no other frame. -/
theorem page_trees_exact {mapTop : ℕ} {room : Bool} (hp : s₀.pool.numFrames ≤ maxFrames)
    (hcreate : pagingCreateAddressSpace s₀ (pdTable mapTop) room = (some pml4, s₁))
    (hrun : Relation.ReflTransGen (Tended pml4) ⟨s₁, fun _ => none, newly s₀ s₁⟩ w) :
    (∀ va, tableWalk w.phys pml4 va = w.last (pageNo va)) ∧
      (∀ va, UserSlot va → (translate w.phys pml4 va).map (fun r => (r.1, r.2 &&& openFlags)) =
        (w.last (va / frameSize)).map fun x => (x.frame, x.flags &&& openFlags)) ∧
      (∀ va, ¬ UserSlot va → translate w.phys pml4 va = translate s₁ pml4 va) ∧
      (pagingDestroyAddressSpace w.phys pml4).pool = w.phys.pool.freeAll (spaceFrees w.phys pml4) ∧
      (spaceFrees w.phys pml4).Nodup ∧
      (∀ f, f ∈ spaceFrees w.phys pml4 ↔ f ∈ w.built ∨ ∃ n x, w.last n = some x ∧ x.frame = f) ∧
      ∀ f, (pagingDestroyAddressSpace w.phys pml4).pool.Taken f ↔
        w.phys.pool.Taken f ∧ f ∉ w.built ∧ ∀ n x, w.last n = some x → x.frame ≠ f := by
  obtain ⟨V₁, rfl, hcreated, hcopied⟩ := Created.of_create (kernelEntries_pdTable mapTop) hp hcreate
  have hk := hcopied.kernelHuge
  obtain ⟨V, h⟩ := hcreated.records.run hk hrun
  have hmem : ∀ f, f ∈ spaceFrees w.phys V₁.pml4 ↔
      f ∈ w.built ∨ ∃ n x, w.last n = some x ∧ x.frame = f := by
    intro f
    rw [← h.root, h.tree.mem_spaceFrees, h.frames_iff]
  have hnodup : (spaceFrees w.phys V₁.pml4).Nodup := h.root ▸ h.tree.nodup_spaceFrees
  refine ⟨fun va => ?_, fun va hslot => ?_, fun va => h.translate_eq hcreated.shows.toTree hk,
    pool_destroy _ _, hnodup, hmem, fun f => ?_⟩
  · rw [← h.root, h.tree.tableWalk_eq (h.grows.kernelHuge hk), h.page]
  · rw [← h.root, h.tree.translate_user hslot, h.page]
  · have htaken : ∀ f ∈ spaceFrees w.phys V₁.pml4, w.phys.pool.Taken f := by
      intro f hf
      rw [← h.root] at hf
      obtain ⟨a, ha⟩ := h.tree.mem_spaceFrees.1 hf
      exact h.tree.taken a f ha
    rw [pool_destroy, taken_freeAll hnodup htaken, hmem]
    push Not
    rfl

/-- A space in eight frames. -/
def newSpace : Phys := (pagingCreateAddressSpace eightFrames (pdTable 0) true).2

set_option maxRecDepth 100000 in
/-- A page is mapped into it and unmapped again. -/
theorem page_trees_exact_onePage :
    ∃ w w', Relation.ReflTransGen (Tended (frameAddr 0))
        ⟨newSpace, fun _ => none, newly eightFrames newSpace⟩ w ∧
      w.last 1024 = some ⟨frameAddr 3, userPageFlags⟩ ∧
      tableWalk w.phys (frameAddr 0) 0x400123 = some ⟨frameAddr 3, userPageFlags⟩ ∧
      Tended (frameAddr 0) w w' ∧ w'.last 1024 = none ∧
      tableWalk w'.phys (frameAddr 0) 0x400123 = none := by
  have halloc : newSpace.allocFrame = (some (frameAddr 3), newSpace.allocFrame.2) :=
    Prod.ext (by decide +kernel) rfl
  have hmap :
      pagingMapPage newSpace.allocFrame.2 (frameAddr 0) 0x400000 (frameAddr 3) userPageFlags =
      (true, (pagingMapPage newSpace.allocFrame.2 (frameAddr 0) 0x400000 (frameAddr 3)
        userPageFlags).2) := Prod.ext (by decide +kernel) rfl
  obtain ⟨htook, hmem⟩ := took_of_allocFrame halloc
  have hother : Tended (frameAddr 0) ⟨newSpace, fun _ => none, newly eightFrames newSpace⟩
      ⟨newSpace.allocFrame.2, fun _ => none, newly eightFrames newSpace⟩ := by
    refine .elsewhere ⟨htook.num, fun f hf => ⟨(htook.taken f).2 (.inl hf.1), ?_⟩, by simp⟩
    rw [hmem]
    exact .refl f _
  have hmapped := (Relation.ReflTransGen.single hother).tail
    (.mapped (by decide) (by decide) rfl ⟨htook.self, fun hf => htook.fresh hf.1, by simp⟩
      (Page.Proper.valid (.inr rfl)) hmap)
  obtain ⟨w, hrun, hlast⟩ : ∃ w, Relation.ReflTransGen (Tended (frameAddr 0)) _ w ∧
      w.last 1024 = some ⟨frameAddr 3, userPageFlags⟩ := ⟨_, hmapped, rfl⟩
  have hunmap : Tended (frameAddr 0) w ⟨unmapPage (frameAddr 0) w.phys 0x400000,
      forget w.last (unmapRange 0x400000 frameSize), w.built⟩ :=
    .unmapped (by decide) (by decide) ⟨2, rfl⟩
  have hnone : forget w.last (unmapRange 0x400000 frameSize) 1024 = none := if_pos (by decide)
  exact ⟨w, _, hrun, hlast,
    ((page_trees_exact (by decide) create_eightFrames hrun).1 0x400123).trans hlast, hunmap, hnone,
    ((page_trees_exact (by decide) create_eightFrames (hrun.tail hunmap)).1 0x400123).trans hnone⟩

end TownOS.Memory
