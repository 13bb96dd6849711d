import TownOS.Memory.Teardown

/-!
One address space among others.

`Changes` is what a piece of the kernel may do to an address space while others are there: the
frames in use that are not in its tree stay in use, are not written to, and do not get into the
tree. `Keeps` says in addition that no frame is lost. `paging_map_user_range` takes frames and puts
them into the tree page by page, and takes them out again when it fails.

* `Backed.next`, `Backed.unwind`: a round of the loop, and the way back;
* `Tree.mapUserRange`: what `paging_map_user_range` does to a range that is not mapped;
* `mapUserRange_unwinds`: when it fails, the pages are as they were, and so are the free frames, up
  to a table that the teardown returns.
-/

namespace TownOS.Memory

open Bytes

variable {s s' s'' : Phys} {V V' V'' : Space} {f g n pml4 : ℕ}

/-! ### What leaves the others alone -/

/-- An address space changes: the other frames in use stay in use, are not written to, and do not
get into its tree. -/
structure Changes (s : Phys) (V : Space) (s' : Phys) (V' : Space) : Prop
    extends Grows s V s' V' where
  tree : Tree s' V'
  num : s'.pool.numFrames = s.pool.numFrames
  root : V'.pml4 = V.pml4
  outside : ∀ g, s.Outside V g → s'.Outside V' g
  same : ∀ g, s.Outside V g → SameFrame g s.mem s'.mem

/-- It changes, and no frame gets out of its tree but back to the pool. -/
structure Keeps (s : Phys) (V : Space) (s' : Phys) (V' : Space) : Prop
    extends Changes s V s' V' where
  back : ∀ g, s'.Outside V' g → s.Outside V g

lemma Changes.refl (h : Tree s V) : Changes s V s V :=
  ⟨.refl s V, h, rfl, rfl, fun _ => id, fun g _ => .refl g s.mem⟩

lemma Changes.trans (h : Changes s V s' V') (h' : Changes s' V' s'' V'') : Changes s V s'' V'' where
  toGrows := h.toGrows.trans h'.toGrows
  tree := h'.tree
  num := h'.num.trans h.num
  root := h'.root.trans h.root
  outside := fun g hg => h'.outside g (h.outside g hg)
  same := fun g hg => (h.same g hg).trans (h'.same g (h.outside g hg))

lemma Keeps.refl (h : Tree s V) : Keeps s V s V := ⟨.refl h, fun _ => id⟩

lemma Keeps.trans (h : Keeps s V s' V') (h' : Keeps s' V' s'' V'') : Keeps s V s'' V'' :=
  ⟨h.toChanges.trans h'.toChanges, fun g hg => h.back g (h'.back g hg)⟩

/-! ### One frame -/

lemma Changes.took (h : Tree s V) (htook : Took s f s') : Changes s V s' V := by
  have hsame : ∀ g, s.pool.Taken g → SameFrame g s.mem s'.mem := fun g hg =>
    htook.same g (hg.isFrame h.sized) (htook.ne hg)
  refine ⟨⟨rfl, rfl, fun _ _ => id, fun i hi _ => ?_⟩, h.took htook, htook.num, rfl, fun g hg => ?_,
    fun g hg => hsame g hg.1⟩
  · exact entry_congr (hsame _ (h.taken .pd _ rfl)) hi
  · exact ⟨(htook.taken g).2 (.inl hg.1), hg.2⟩

lemma Keeps.returned (h : Tree s V) (htook : Took s f s') : Keeps s V (s'.freeFrame f) V := by
  have hchange := Changes.took h htook
  have hfree := h.free_of_took htook
  have htaken : ∀ g, (s'.freeFrame f).pool.Taken g ↔ s.pool.Taken g := by
    intro g
    refine (taken_freeFrame htook.self).trans ?_
    rw [htook.taken]
    exact ⟨fun hg => hg.1.resolve_right hg.2, fun hg => ⟨.inl hg, htook.ne hg⟩⟩
  refine ⟨⟨⟨hchange.pdpt, hchange.pd, hchange.table, hchange.kernel⟩,
    hchange.tree.freeFrame htook.self hfree,
    (FramePool.freeFrame_numFrames ..).trans htook.num, rfl, fun g hg => ?_, hchange.same⟩,
    fun g hg => ?_⟩
  · exact ⟨(htaken g).2 hg.1, hg.2⟩
  · exact ⟨(htaken g).1 hg.1, hg.2⟩

/-- It is put into the tree, in the place of another one or of none. -/
lemma Changes.mapped {x : Page} (h : Tree s V) (htook : Took s x.frame s')
    (hmaps : Tree.Maps s' V n x s'' V') : Changes s V s'' V' ∧
      ∀ g, s''.Outside V' g → s.Outside V g ∨ (V.page n).map Page.frame = some g := by
  have hchange := Changes.took h htook
  have hout : ∀ g, s.Outside V g → s'.Outside V g := hchange.outside
  refine ⟨⟨hchange.toGrows.trans hmaps.toGrows, hmaps.tree, hmaps.num.trans hchange.num, hmaps.root,
    fun g hg => ?_, fun g hg => ?_⟩, fun g hg => ?_⟩
  · exact (hmaps.outside g).2 (.inl ⟨hout g hg, htook.ne hg.1⟩)
  · exact (hchange.same g hg).trans (hmaps.same g (hout g hg).1 fun a _ ha => (hout g hg).2 a ha)
  · refine ((hmaps.outside g).1 hg).imp_left ?_
    rintro ⟨⟨htaken, hfree⟩, hne⟩
    exact ⟨((htook.taken g).1 htaken).resolve_right hne, hfree⟩

lemma Keeps.unmapPage (h : Tree s V) (hk : KernelHuge s V) (va : ℕ) :
    Keeps s V (unmapPage V.pml4 s va) (V.setPage (pageNo va) none) := by
  obtain ⟨htree, hgrows, htaken, hnum, hsame⟩ := h.unmapPage hk va
  refine ⟨⟨hgrows, htree, hnum, rfl, fun g hg => ⟨(htaken g).2 ⟨hg.1, hg.2 (.page _)⟩, ?_⟩,
    fun g hg => hsame g (hg.1.isFrame h.sized) fun a _ => hg.2 a⟩, fun g hg => ?_⟩
  · rw [Space.free_setPage]
    exact ⟨by simp, fun a _ => hg.2 a⟩
  · obtain ⟨htaken', hne⟩ := (htaken g).1 hg.1
    obtain ⟨-, hothers⟩ := Space.free_setPage.1 hg.2
    refine ⟨htaken', fun a ha => ?_⟩
    by_cases hpage : a = .page (pageNo va)
    · subst hpage
      exact hne ha
    · exact hothers a hpage ha

/-- Some pages are taken out of the tree. -/
lemma Keeps.unmapPages (h : Tree s V) (hk : KernelHuge s V) (vas : List ℕ) :
    ∃ V', Keeps s V (vas.foldl (Memory.unmapPage V.pml4) s) V' ∧ V'.page = forget V.page vas ∧
      V'.table = V.table := by
  induction vas generalizing s V with
  | nil => exact ⟨V, .refl h, rfl, rfl⟩
  | cons va vas ih =>
    have hone := Keeps.unmapPage h hk va
    obtain ⟨V', hrest, hpage, htable⟩ := ih hone.tree (hone.toGrows.kernelHuge hk)
    refine ⟨V', hone.trans hrest, ?_, htable⟩
    rw [hpage, forget_cons]
    rfl

/-! ### `paging_map_user_range` -/

/-- The first `k` pages from page `m` on. -/
def InPages (m k n : ℕ) : Prop := m ≤ n ∧ n < m + k

lemma pagesOf_pages (m k : ℕ) :
    pagesOf (m * frameSize) (k * frameSize) = (List.range k).map fun i => (m + i) * frameSize := by
  have hcount : (k * frameSize + (frameSize - 1)) / frameSize = k := by
    simp only [frameSize]
    omega
  rw [pagesOf, hcount]
  exact List.map_congr_left fun i _ => (Nat.add_mul m i frameSize).symm

lemma pageNo_mul {n : ℕ} (hn : n < 2 ^ 36) : pageNo (n * frameSize) = n := by
  simp only [pageNo, frameSize]
  omega

lemma mem_pagesOf_iff {m k : ℕ} (hk : m + k ≤ 2 ^ 36) :
    n ∈ (pagesOf (m * frameSize) (k * frameSize)).map pageNo ↔ InPages m k n := by
  rw [pagesOf_pages, List.map_map, List.mem_map]
  constructor
  · rintro ⟨i, hi, rfl⟩
    have hlt := List.mem_range.1 hi
    rw [Function.comp_apply, pageNo_mul (by omega)]
    exact ⟨Nat.le_add_right m i, Nat.add_lt_add_left hlt m⟩
  · rintro ⟨hle, hlt⟩
    refine ⟨n - m, List.mem_range.2 (by omega), ?_⟩
    rw [Function.comp_apply, Nat.add_sub_cancel' hle, pageNo_mul (by omega)]

/-- The first `k` pages of a range are there, without contents, and nothing else has changed. Only
the table of the heap slot may be new. -/
structure Backed (m k : ℕ) (s₀ : Phys) (V₀ : Space) (s : Phys) (V : Space) : Prop
    extends Keeps s₀ V₀ s V where
  others : ∀ n, ¬ InPages m k n → V.page n = V₀.page n
  fresh : ∀ n, InPages m k n → ∃ x, V.page n = some x ∧ x.flags = userPageFlags ∧
    ∀ i < frameSize, s.mem (x.frame + i) = 0
  tables : ∀ slot ≠ userPdIndexHeap, V.table slot = V₀.table slot

section Backed

variable {m k j : ℕ} {s₀ : Phys} {V₀ : Space}

lemma Backed.refl (h : Tree s V) (m : ℕ) : Backed m 0 s V s V where
  toKeeps := .refl h
  others := fun _ _ => rfl
  fresh := fun _ hn => absurd hn.2 (Nat.not_lt.2 hn.1)
  tables := fun _ _ => rfl

lemma userSlot_of_heap {n : ℕ} (hn : n / tableEntries = userPdIndexHeap) :
    UserSlot (n * frameSize) ∧ n * frameSize / frameSize = n ∧
      n * frameSize / twoMb = userPdIndexHeap := by
  have hslot : n * frameSize / twoMb = userPdIndexHeap := by
    simp only [tableEntries, userPdIndexHeap, frameSize, twoMb] at hn ⊢
    omega
  refine ⟨?_, Nat.mul_div_cancel n (by decide), hslot⟩
  rw [UserSlot, hslot]
  decide

/-- **One round**: a frame is taken and cleared, and it is mapped as the next page or there is no
table. -/
lemma Backed.next (h : Backed m k s₀ V₀ s V) (hslot : (m + k) / tableEntries = userPdIndexHeap)
    (hnone : V₀.page (m + k) = none) (halloc : s.allocFrame = (some f, s')) :
    pagingMapPage (s'.zeroFrame f) V.pml4 ((m + k) * frameSize) f userPageFlags =
        (false, s'.zeroFrame f) ∨
      ∃ s'' V', pagingMapPage (s'.zeroFrame f) V.pml4 ((m + k) * frameSize) f userPageFlags =
        (true, s'') ∧ Backed m (k + 1) s₀ V₀ s'' V' := by
  obtain ⟨htook, -⟩ := took_of_allocFrame halloc
  have hf := htook.isFrame h.tree.sized
  have hzero : Took s f (s'.zeroFrame f) := htook.write hf (only_zeroFrame s' f)
  obtain ⟨huser, hpage, hheap⟩ := userSlot_of_heap hslot
  have hfree := h.tree.free_of_took hzero
  obtain ⟨hfail, -⟩ | ⟨s'', V', hok, hmaps, hothers⟩ :=
    (h.tree.took hzero).mapPage (x := ⟨f, userPageFlags⟩)
    huser (Page.Proper.valid (.inr rfl)) ⟨hzero.self, hfree⟩
  · exact .inl hfail
  rw [hpage] at hmaps
  rw [hheap] at hothers
  have hempty : V.page (m + k) = none := by
    rw [h.others _ fun hin => absurd hin.2 (lt_irrefl _), hnone]
  obtain ⟨hchange, hback⟩ := Changes.mapped h.tree hzero hmaps
  have hkeeps : Keeps s V s'' V' := by
    refine ⟨hchange, fun g hg => (hback g hg).resolve_right ?_⟩
    rw [hempty, Option.map_none]
    exact (Option.some_ne_none g).symm
  refine .inr
    ⟨s'', V', hok, h.toKeeps.trans hkeeps, fun n hn => ?_, fun n hn => ?_, fun slot hne => ?_⟩
  · have hne : n ≠ m + k := by
      rintro rfl
      exact hn ⟨Nat.le_add_right m k, Nat.lt_succ_self _⟩
    rw [hmaps.page, Function.update_of_ne hne]
    exact h.others n fun hin => hn ⟨hin.1, Nat.lt_succ_of_lt hin.2⟩
  · by_cases heq : n = m + k
    · -- the new page: its frame was cleared, and is no table
      refine ⟨⟨f, userPageFlags⟩, by rw [hmaps.page, heq, Function.update_self], rfl,
        fun i hi => ?_⟩
      rw [hmaps.same f hzero.self (fun a _ => hfree a) i hi]
      exact fill_inside (Nat.le_add_right f i) (Nat.add_lt_add_left hi f)
    · obtain ⟨x, hx, hflags, hclear⟩ := h.fresh n ⟨hn.1, by have := hn.2; omega⟩
      have hplace : V.frameAt (.page n) = some x.frame := congrArg (Option.map Page.frame) hx
      have htaken := h.tree.taken _ _ hplace
      refine ⟨x, by rw [hmaps.page, Function.update_of_ne heq, hx], hflags, fun i hi => ?_⟩
      have hnotable : ∀ a : Place, a.IsTable → V.frameAt a ≠ some x.frame := by
        intro a hta ha
        rw [h.tree.apart a _ _ ha hplace] at hta
        exact hta
      rw [hmaps.same _ (hzero.taken _ |>.2 (.inl htaken)) hnotable i hi,
        hzero.same _ (htaken.isFrame h.tree.sized) (hzero.ne htaken) i hi, hclear i hi]
  · rw [hothers slot hne, h.tables slot hne]

/-- **The way back**: what was mapped is unmapped. -/
lemma Backed.unwind (h : Backed m k s₀ V₀ s V) (hk : KernelHuge s₀ V₀) (hlt : m + k ≤ 2 ^ 36)
    (hnone : ∀ n, InPages m k n → V₀.page n = none) :
    ∃ V', Backed m 0 s₀ V₀
      (pagingUnmapUserRange s V.pml4 (m * frameSize) (k * frameSize)) V' := by
  obtain ⟨V', hkeeps, hpage, htable⟩ :=
    Keeps.unmapPages h.tree (h.toGrows.kernelHuge hk) (pagesOf (m * frameSize) (k * frameSize))
  refine ⟨V', h.toKeeps.trans hkeeps, fun n _ => ?_, fun n hn => absurd hn.2 (Nat.not_lt.2 hn.1),
    fun slot hne => by rw [htable, h.tables slot hne]⟩
  rw [hpage, forget]
  by_cases hin : InPages m k n
  · rw [if_pos ((mem_pagesOf_iff hlt).2 hin), hnone n hin]
  · rw [if_neg fun hmem => hin ((mem_pagesOf_iff hlt).1 hmem), h.others n hin]

/-- The loop, from page `k` of the range on. -/
lemma Backed.mapUserPages (h : Backed m k s₀ V₀ s V) (hk : KernelHuge s₀ V₀)
    (hslot : ∀ n, InPages m (k + j) n → n / tableEntries = userPdIndexHeap)
    (hnone : ∀ n, InPages m (k + j) n → V₀.page n = none) :
    (∃ s' V', Memory.mapUserPages V.pml4 (m * frameSize) (k * frameSize)
        ((List.range' k j).map fun i => (m + i) * frameSize) s = (true, s') ∧
          Backed m (k + j) s₀ V₀ s' V') ∨
      ∃ s' V', Memory.mapUserPages V.pml4 (m * frameSize) (k * frameSize)
        ((List.range' k j).map fun i => (m + i) * frameSize) s = (false, s') ∧
          Backed m 0 s₀ V₀ s' V' := by
  induction j generalizing k s V with
  | zero => exact .inl ⟨s, V, rfl, h⟩
  | succ j ih =>
    have hlast : InPages m (k + (j + 1)) (m + k) := ⟨Nat.le_add_right m k, by omega⟩
    have hlt : m + k ≤ 2 ^ 36 := by
      have := hslot _ hlast
      simp only [tableEntries, userPdIndexHeap] at this
      omega
    have hbefore : ∀ n, InPages m k n → V₀.page n = none :=
      fun n hn => hnone n ⟨hn.1, by have := hn.2; omega⟩
    rw [List.range'_succ, List.map_cons, Memory.mapUserPages]
    obtain ⟨halloc, -⟩ | ⟨f, s₁, halloc, htook, -⟩ := allocFrame_cases s
    · obtain ⟨V', hback⟩ := h.unwind hk hlt hbefore
      rw [halloc]
      exact .inr ⟨_, V', rfl, hback⟩
    · rw [halloc]
      dsimp only
      obtain hfail | ⟨s₂, V₂, hok, hnext⟩ := h.next (hslot _ hlast) (hnone _ hlast) halloc
      · -- no table: the frame goes back first
        have hzero : Took s f (s₁.zeroFrame f) :=
          htook.write (htook.isFrame h.tree.sized) (only_zeroFrame s₁ f)
        have hreturned := Keeps.returned h.tree hzero
        have hstill : Backed m k s₀ V₀ ((s₁.zeroFrame f).freeFrame f) V := by
          refine ⟨h.toKeeps.trans hreturned, h.others, fun n hn => ?_, h.tables⟩
          obtain ⟨x, hx, hflags, hclear⟩ := h.fresh n hn
          have htaken := h.tree.taken (.page n) _ (congrArg (Option.map Page.frame) hx)
          refine ⟨x, hx, hflags, fun i hi => ?_⟩
          exact (hzero.same _ (htaken.isFrame h.tree.sized) (hzero.ne htaken) i hi).trans
            (hclear i hi)
        obtain ⟨V', hback⟩ := hstill.unwind hk hlt hbefore
        rw [hfail]
        exact .inr ⟨_, V', rfl, hback⟩
      · rw [hok]
        dsimp only
        have hroot : V₂.pml4 = V.pml4 := hnext.root.trans h.root.symm
        have hrange : k + 1 + j = k + (j + 1) := by omega
        rw [← hroot, ← Nat.succ_mul]
        have hrest := ih hnext (hrange ▸ hslot) (hrange ▸ hnone)
        rwa [hrange] at hrest

end Backed

/-- **`paging_map_user_range`** fills a range of the heap slot that was empty, or it
leaves the pages as they were. -/
theorem Tree.mapUserRange {m k : ℕ} (h : Tree s V) (hk : KernelHuge s V)
    (hslot : ∀ n, InPages m k n → n / tableEntries = userPdIndexHeap)
    (hnone : ∀ n, InPages m k n → V.page n = none) :
    (∃ s' V', pagingMapUserRange s V.pml4 (m * frameSize) (k * frameSize) = (true, s') ∧
        Backed m k s V s' V') ∨
      ∃ s' V', pagingMapUserRange s V.pml4 (m * frameSize) (k * frameSize) = (false, s') ∧
        Backed m 0 s V s' V' := by
  rw [pagingMapUserRange, pagesOf_pages, List.range_eq_range']
  have hloop := (Backed.refl h m).mapUserPages (j := k) hk
    (by rwa [Nat.zero_add]) (by rwa [Nat.zero_add])
  rwa [Nat.zero_mul, Nat.zero_add] at hloop

/-- A frame in use is in the tree or outside of it. -/
lemma Tree.taken_iff (h : Tree s V) (g : ℕ) :
    s.pool.Taken g ↔ s.Outside V g ∨ ∃ a, V.frameAt a = some g := by
  constructor
  · intro hg
    by_cases hin : ∃ a, V.frameAt a = some g
    · exact .inr hin
    · exact .inl ⟨hg, fun a ha => hin ⟨a, ha⟩⟩
  · rintro (hg | ⟨a, ha⟩)
    · exact hg.1
    · exact h.taken a g ha

/-- After a failure the tree is the one before, up to the table of the heap slot. -/
lemma Backed.frameAt_eq {m : ℕ} (h : Backed m 0 s V s' V') {a : Place}
    (ha : a ≠ .table userPdIndexHeap) : V'.frameAt a = V.frameAt a := by
  cases a with
  | pml4 => exact congrArg some h.root
  | pdpt => exact congrArg some h.pdpt
  | pd => exact congrArg some h.pd
  | table slot => exact h.tables slot fun heq => ha (congrArg Place.table heq)
  | page n =>
    have hpage := h.others n fun hin => absurd hin.2 (Nat.not_lt.2 hin.1)
    exact congrArg (Option.map Page.frame) hpage

/-- What is in use after a failure: one table may be new. -/
lemma Backed.taken_iff {m : ℕ} (h : Tree s V) (hback : Backed m 0 s V s' V') :
    (∀ g, s'.pool.Taken g ↔ s.pool.Taken g) ∨
      ∃ t, ¬ s.pool.Taken t ∧ V'.table userPdIndexHeap = some t ∧
        ∀ g, s'.pool.Taken g ↔ s.pool.Taken g ∨ g = t := by
  have hout : ∀ g, s'.Outside V' g ↔ s.Outside V g := fun g => ⟨hback.back g, hback.outside g⟩
  by_cases hsame : V'.table userPdIndexHeap = V.table userPdIndexHeap
  · refine .inl fun g => ?_
    rw [hback.tree.taken_iff, h.taken_iff, hout]
    refine or_congr_right (exists_congr fun a => ?_)
    by_cases ha : a = .table userPdIndexHeap
    · subst ha
      rw [Space.frameAt, Space.frameAt, hsame]
    · rw [hback.frameAt_eq ha]
  · -- there was no table, since a table stays
    have hnone : V.table userPdIndexHeap = none := by
      by_contra hsome
      obtain ⟨t, ht⟩ := Option.ne_none_iff_exists'.1 hsome
      exact hsame (by rw [hback.table _ t ht, ht])
    obtain ⟨t, ht⟩ := Option.ne_none_iff_exists'.1 (fun hno => hsame (hno.trans hnone.symm))
    have hplace : V'.frameAt (.table userPdIndexHeap) = some t := ht
    have hfree : V.Free t := by
      intro a ha
      have hne : a ≠ .table userPdIndexHeap := by
        rintro rfl
        rw [Space.frameAt, hnone] at ha
        cases ha
      exact hne (hback.tree.apart a _ t ((hback.frameAt_eq hne).trans ha) hplace)
    refine .inr ⟨t, fun htaken => ?_, ht, fun g => ?_⟩
    · exact (hback.outside t ⟨htaken, hfree⟩).2 _ hplace
    · rw [hback.tree.taken_iff, h.taken_iff, hout, or_assoc]
      refine or_congr_right ⟨?_, ?_⟩
      · rintro ⟨a, ha⟩
        by_cases hne : a = .table userPdIndexHeap
        · subst hne
          exact .inr (Option.some.inj (ha.symm.trans hplace))
        · exact .inl ⟨a, (hback.frameAt_eq hne).symm.trans ha⟩
      · rintro (⟨a, ha⟩ | rfl)
        · refine ⟨a, (hback.frameAt_eq ?_).trans ha⟩
          rintro rfl
          rw [Space.frameAt, hnone] at ha
          cases ha
        · exact ⟨_, hplace⟩

/-- **A range that cannot be mapped is unmapped again.** In every address space, for every range of
whole pages of the heap slot that is not mapped: if `paging_map_user_range` fails, a walk of the
tables finds what it found before, and the same frames are in use, or one more; that one is the
table of the heap slot, and the teardown returns it. -/
theorem mapUserRange_unwinds {base length : ℕ} (h : Tree s V) (hk : KernelHuge s V)
    (hbase : base % frameSize = 0) (hlength : length % frameSize = 0)
    (hlow : userPdIndexHeap * twoMb ≤ base) (hhigh : base + length ≤ (userPdIndexHeap + 1) * twoMb)
    (hunmapped : ∀ va, base ≤ va → va < base + length → tableWalk s V.pml4 va = none)
    (hfail : pagingMapUserRange s V.pml4 base length = (false, s')) :
    (∀ va, tableWalk s' V.pml4 va = tableWalk s V.pml4 va) ∧
      ((∀ g, s'.pool.Taken g ↔ s.pool.Taken g) ∨
        ∃ t, ¬ s.pool.Taken t ∧ (∀ g, s'.pool.Taken g ↔ s.pool.Taken g ∨ g = t) ∧
          s'.entry V.pd userPdIndexHeap = tableEntry t ∧ t ∈ spaceFrees s' V.pml4 ∧
          ¬ (pagingDestroyAddressSpace s' V.pml4).pool.Taken t) := by
  obtain ⟨m, rfl⟩ : ∃ m, base = m * frameSize := ⟨base / frameSize, by
    rw [Nat.div_mul_cancel (Nat.dvd_of_mod_eq_zero hbase)]⟩
  obtain ⟨k, rfl⟩ : ∃ k, length = k * frameSize := ⟨length / frameSize, by
    rw [Nat.div_mul_cancel (Nat.dvd_of_mod_eq_zero hlength)]⟩
  simp only [userPdIndexHeap, twoMb, frameSize] at hlow hhigh
  have hslot : ∀ n, InPages m k n → n / tableEntries = userPdIndexHeap := by
    rintro n ⟨hle, hlt⟩
    simp only [tableEntries, userPdIndexHeap]
    omega
  have hnone : ∀ n, InPages m k n → V.page n = none := by
    rintro n ⟨hle, hlt⟩
    have hwalk := hunmapped (n * frameSize) (Nat.mul_le_mul_right _ hle) (by
      rw [← Nat.add_mul]
      exact Nat.mul_lt_mul_of_pos_right hlt (by decide))
    rwa [h.tableWalk_eq hk, pageNo_mul (by omega)] at hwalk
  obtain ⟨s'', V', hok, -⟩ | ⟨s'', V', hno, hback⟩ := h.mapUserRange hk hslot hnone
  · rw [hok] at hfail
    cases hfail
  rw [hno] at hfail
  cases hfail
  have hroot := hback.root
  have hpage : V'.page = V.page :=
    funext fun n => hback.others n fun hin => absurd hin.2 (Nat.not_lt.2 hin.1)
  refine ⟨fun va => ?_, hback.taken_iff h |>.imp_right ?_⟩
  · rw [← hroot, hback.tree.tableWalk_eq (hback.toGrows.kernelHuge hk), hpage, hroot,
      h.tableWalk_eq hk]
  · rintro ⟨t, hnew, ht, htaken⟩
    have hfrees : t ∈ spaceFrees s' V.pml4 := by
      rw [← hroot, hback.tree.mem_spaceFrees]
      exact ⟨.table userPdIndexHeap, ht⟩
    refine ⟨t, hnew, htaken, ?_, hfrees, ?_⟩
    · rw [← hback.pd, hback.tree.slots _ (by decide), ht]
      rfl
    · rw [← hroot] at hfrees ⊢
      rw [pool_destroy, taken_freeAll hback.tree.nodup_spaceFrees fun f hf => ?_]
      · exact fun hin => hin.2 hfrees
      · obtain ⟨a, ha⟩ := hback.tree.mem_spaceFrees.1 hf
        exact hback.tree.taken a f ha

/-- A new space, and two frames that are free. -/
def tightSpace : Phys :=
  (pagingCreateAddressSpace ⟨⟨fun _ => false, 5, 0⟩, fun _ => 0⟩ (pdTable 0) true).2

set_option maxRecDepth 100000 in
/-- Two pages of the heap slot need three frames. -/
theorem mapUserRange_unwinds_twoPages :
    ∃ s', pagingMapUserRange tightSpace (frameAddr 0) 0x800000 0x2000 = (false, s') ∧
      ∀ va, tableWalk s' (frameAddr 0) va = tableWalk tightSpace (frameAddr 0) va := by
  have hcreate : pagingCreateAddressSpace ⟨⟨fun _ => false, 5, 0⟩, fun _ => 0⟩ (pdTable 0) true =
      (some (frameAddr 0), tightSpace) := Prod.ext (by decide) rfl
  have hfail : pagingMapUserRange tightSpace (frameAddr 0) 0x800000 0x2000 =
      (false, (pagingMapUserRange tightSpace (frameAddr 0) 0x800000 0x2000).2) :=
    Prod.ext (by decide +kernel) rfl
  obtain ⟨V, hroot, hcreated, hcopied⟩ :=
    Created.of_create (kernelEntries_pdTable 0) (by decide) hcreate
  have hk := hcopied.kernelHuge
  rw [← hroot] at hfail ⊢
  refine ⟨_, hfail, (mapUserRange_unwinds hcreated.shows.toTree hk (by decide) (by decide)
    (by decide) (by decide) (fun va _ _ => ?_) hfail).1⟩
  rw [hcreated.shows.tableWalk_eq hk, hcreated.blank]

end TownOS.Memory
