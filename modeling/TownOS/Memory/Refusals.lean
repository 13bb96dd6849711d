import TownOS.Memory.Clients

/-!
What an allocation that fails costs.

When no block is large enough, `kmalloc` and `malloc` grow the heap and try once more. The number
of pages comes from the request through additions that wrap around and a cast to `int`; so for
the largest requests the heap grows by pages that have nothing to do with them, and the second
try fails too. The pages stay.

* `covers_of_lt`: requests below 2⁴² bytes get enough pages;
* `Rep.malloc_extended`: after the heap has grown, the second try fails exactly when there are not
  enough;
* `kmalloc_free_iff`, `growAndRetry_free_iff`: when a call that fails leaves everything as it was;
* `failure_free_iff`: the same for every heap in use, and `failure_costs_pages` for the request
  that costs pages;
* `malloc_honours_iff`: when `malloc` and `calloc` honour a request.
-/

namespace TownOS.Memory

open Bytes Runs

/-! ### Pages for a request -/

/-- The pages by which the heap grows are enough for the request. -/
def Covers (size : ℕ) : Prop := size + elBlockOverhead ≤ growPages size * elPageBytes

instance decidableCovers (size : ℕ) : Decidable (Covers size) := inferInstanceAs (Decidable (_ ≤ _))

/-- The number of pages from a count before the cast to `int`. -/
def castPages (k : ℕ) : ℕ :=
  if (k : ℤ).bmod (2 ^ 32) < heapGrowPages then heapGrowPages else ((k : ℤ).bmod (2 ^ 32)).toNat

lemma growPages_eq (size : ℕ) : growPages size =
    castPages (((size + elBlockOverhead) % 2 ^ 64 + elPageBytes - 1) % 2 ^ 64 / elPageBytes) := rfl

lemma le_castPages {k : ℕ} (hk : k < 2 ^ 31) : k ≤ castPages k := by
  have hcast : (k : ℤ).bmod (2 ^ 32) = k :=
    Int.bmod_eq_of_le (by norm_num) (by norm_num; omega)
  have heq : castPages k = if (k : ℤ) < heapGrowPages then heapGrowPages else k := by
    unfold castPages
    rw [hcast, Int.toNat_natCast]
  by_cases hsmall : (k : ℤ) < heapGrowPages
  · exact (Nat.cast_lt.1 hsmall).le.trans (heq.trans (if_pos hsmall)).ge
  · exact (heq.trans (if_neg hsmall)).ge

/-- Nothing wraps around, and nothing is cut off, below 2⁴² bytes. -/
lemma covers_of_lt {size : ℕ} (h : size < 2 ^ 42) : Covers size := by
  obtain ⟨k, hk⟩ : ∃ k, k = (size + elBlockOverhead + elPageBytes - 1) / elPageBytes := ⟨_, rfl⟩
  have hpages :
      ((size + elBlockOverhead) % 2 ^ 64 + elPageBytes - 1) % 2 ^ 64 / elPageBytes = k := by
    simp only [elBlockOverhead, elPageBytes] at hk ⊢
    omega
  have hgrow : k ≤ growPages size := by
    rw [growPages_eq, hpages]
    refine le_castPages ?_
    simp only [elBlockOverhead, elPageBytes] at hk
    omega
  calc size + elBlockOverhead ≤ k * elPageBytes := by
        simp only [elBlockOverhead, elPageBytes] at hk ⊢
        omega
    _ ≤ growPages size * elPageBytes := Nat.mul_le_mul_right _ hgrow

lemma le_of_not_covers {size : ℕ} (h : ¬ Covers size) : 2 ^ 42 ≤ size := by
  by_contra hlt
  exact h (covers_of_lt (Nat.not_le.1 hlt))

/-! ### The second try -/

section Heaps

variable {h : Heap} {bs : List Block} {b : Block} {n nbytes : ℕ}

lemma Rep.size_lt (hr : Rep h bs) (hb : b ∈ bs) : b.size < h.heapEnd := by
  obtain ⟨ls, hs⟩ := hr.shape
  have hbounds := hs.bounds hb
  simp only [Block.fin, elBlockOverhead] at hbounds
  omega

lemma Rep.extend_heapEnd (hr : Rep h bs) (hn : elBlockOverhead ≤ nbytes)
    (hlt : h.heapEnd + nbytes ≤ oneGb) : (elExtend h nbytes).heapEnd = h.heapEnd + nbytes := by
  obtain ⟨-, -, -, -, -, hst⟩ := hr.extend hn (hlt.trans_lt oneGb_lt)
  exact hst.fin

lemma Rep.malloc_heapEnd (hr : Rep h bs) (n : ℕ) : (elMalloc h n).2.heapEnd = h.heapEnd := by
  obtain ⟨hnone, -⟩ | ⟨l, x, r, rfl, -, -, hsome, -, hstays⟩ := hr.malloc n
  · rw [hnone]
  · rw [hsome]
    exact hstays.fin

/-- No block is as long as a request that gets too few pages. -/
lemma Rep.malloc_none (hr : Rep h bs) (hcov : ¬ Covers n) (hlt : h.heapEnd ≤ oneGb) :
    elMalloc h n = (none, h) := by
  obtain ⟨hnone, -⟩ | ⟨l, x, r, rfl, -, hn, -⟩ := hr.malloc n
  · exact hnone
  · have hx := hr.size_lt (b := x) (by simp)
    have := le_of_not_covers hcov
    simp only [oneGb] at hlt
    omega

lemma heapEnd_ne_growth (a size : ℕ) : a ≠ a + growPages size * elPageBytes := by
  have := overhead_le_growth size
  simp only [elBlockOverhead] at this
  omega

/-- **The second try fails exactly when there are not enough pages**; then it changes nothing. -/
theorem Rep.malloc_extended (hr : Rep h bs)
    (hlt : h.heapEnd + growPages n * elPageBytes ≤ oneGb) :
    ((elMalloc (elExtend h (growPages n * elPageBytes)) n).1 = none ↔ ¬ Covers n) ∧
      ((elMalloc (elExtend h (growPages n * elPageBytes)) n).1 = none →
        (elMalloc (elExtend h (growPages n * elPageBytes)) n).2 =
          elExtend h (growPages n * elPageBytes)) := by
  have hend := hr.extend_heapEnd (overhead_le_growth n) hlt
  obtain ⟨bs', hr', -, ⟨b, hb, hst, hsize⟩, -⟩ :=
    hr.extend (overhead_le_growth n) (hlt.trans_lt oneGb_lt)
  by_cases hcov : Covers n
  · obtain ⟨-, hsmall⟩ | ⟨l, x, r, rfl, -, -, hsome, -⟩ := hr'.malloc n
    · have := hsmall b hb hst
      rw [Covers] at hcov
      omega
    · rw [hsome]
      exact ⟨⟨fun hno => absurd hno (by simp), fun hno => absurd hcov hno⟩,
        fun hno => absurd hno (by simp)⟩
  · rw [hr'.malloc_none hcov (hend ▸ hlt)]
    exact ⟨⟨fun _ => hcov, fun _ => rfl⟩, fun _ => rfl⟩

end Heaps

/-! ### `kmalloc` -/

section Kernel

variable {p : FramePool} {s n : ℕ}

lemma FramePool.freeFrames_eq (p : FramePool) (hle : s + n ≤ p.numFrames) :
    p.freeFrames (frameAddr s) n =
      { p with bitmap := fun i => if s ≤ i ∧ i < s + n then false else p.bitmap i } := by
  induction n with
  | zero =>
    have hno : ∀ i, ¬ (s ≤ i ∧ i < s + 0) := by omega
    simp only [if_neg (hno _)]
    rfl
  | succ n ih =>
    have haddr : frameAddr s + n * elPageBytes = frameAddr (s + n) := (frameAddr_add s n).symm
    rw [FramePool.freeFrames, List.range_succ, List.foldl_append, List.foldl_cons, List.foldl_nil,
      haddr]
    change (p.freeFrames (frameAddr s) n).freeFrame _ = _
    rw [ih (by omega), FramePool.freeFrame_frameAddr (by simp only; omega), FramePool.clearBit]
    congr 1
    funext i
    by_cases hi : i = s + n
    · rw [if_pos hi, if_pos (by omega)]
    · rw [if_neg hi]
      exact if_congr (by omega) rfl rfl

/-- The pool is what it was when a run that was taken is returned. -/
lemma FramePool.freeFrames_setBits (hrun : p.Run s n) (hle : s + n ≤ p.numFrames) :
    (p.setBits s n).freeFrames (frameAddr s) n = p := by
  rw [FramePool.freeFrames_eq _ (by rwa [FramePool.setBits_numFrames]), FramePool.setBits_numFrames,
    FramePool.setBits_poolTop]
  obtain ⟨bitmap, numFrames, poolTop⟩ := p
  congr 1
  funext i
  rw [FramePool.setBits_bitmap]
  by_cases hi : s ≤ i ∧ i < s + n
  · have hfree := hrun (i - s) (by omega)
    rw [Nat.add_sub_cancel' hi.1] at hfree
    rw [if_pos hi]
    exact hfree.symm
  · rw [if_neg hi, decide_eq_false hi, Bool.false_or]

variable {h : Heap} {bs : List Block} {live : List ℕ} {size npages : ℕ}

/-- `el_append_pages_to_heap` of the kernel changes nothing, unless the lowest run of frames that is
long enough begins at the end of the heap. -/
lemma elAppendPagesToHeap_of_ne (hrun : (p.allocFramesContiguous npages).1 ≠ some h.heapEnd) :
    elAppendPagesToHeap h p npages = (false, h, p) := by
  rw [elAppendPagesToHeap]
  cases ha : p.allocFramesContiguous npages with
  | mk f p' =>
    cases f with
    | none =>
      obtain ⟨rfl, -⟩ := FramePool.allocFramesContiguous_none ha
      rfl
    | some f =>
      rw [ha] at hrun
      obtain ⟨t, hle, hfree, -, rfl, rfl, -⟩ := FramePool.allocFramesContiguous_some ha
      simp only [if_pos (show frameAddr t ≠ h.heapEnd from fun heq => hrun (congrArg some heq)),
        FramePool.freeFrames_setBits hfree hle]

lemma kmallocGrow_of_ne (hrun : (p.allocFramesContiguous npages).1 ≠ some h.heapEnd) :
    kmallocGrow h p size npages = (none, h, p) := by
  rw [kmallocGrow, elAppendPagesToHeap_of_ne hrun]

lemma kmallocGrow_of_eq (size : ℕ) (hrun : (p.allocFramesContiguous npages).1 = some h.heapEnd) :
    (kmallocGrow h p size npages).1 = (elMalloc (elExtend h (npages * elPageBytes)) size).1 ∧
      (kmallocGrow h p size npages).2.1 = (elMalloc (elExtend h (npages * elPageBytes)) size).2 ∧
      (kmallocGrow h p size npages).2.2 = (p.allocFramesContiguous npages).2 := by
  rw [kmallocGrow, elAppendPagesToHeap]
  cases ha : p.allocFramesContiguous npages with
  | mk f p' =>
    rw [ha] at hrun
    obtain rfl : f = some h.heapEnd := hrun
    dsimp only
    rw [if_neg (not_not_intro rfl)]
    exact ⟨rfl, rfl, rfl⟩

lemma kmalloc_of_none (hnone : elMalloc h size = (none, h)) :
    kmalloc h p size = kmallocGrow h p size (growPages size) := by
  rw [kmalloc, hnone]

lemma contiguous_le_oneGb (hp : p.numFrames ≤ maxFrames)
    (hrun : (p.allocFramesContiguous npages).1 = some h.heapEnd) :
    h.heapEnd + npages * elPageBytes ≤ oneGb := by
  cases ha : p.allocFramesContiguous npages with
  | mk f p' =>
    rw [ha] at hrun
    obtain rfl : f = some h.heapEnd := hrun
    exact (FramePool.contiguous_lt ha hp).2.1

/-- A request that gets too few pages fails, and costs them. -/
lemma kmalloc_costs (hr : Rep h bs) (hp : p.numFrames ≤ maxFrames) (hcov : ¬ Covers size)
    (hrun : (p.allocFramesContiguous (growPages size)).1 = some h.heapEnd) :
    (kmalloc h p size).1 = none ∧
      (kmalloc h p size).2.1.heapEnd = h.heapEnd + growPages size * elPageBytes := by
  have hlt := contiguous_le_oneGb hp hrun
  obtain ⟨hiff, hsame⟩ := hr.malloc_extended hlt
  obtain ⟨hres, hheap, -⟩ := kmallocGrow_of_eq size hrun
  rw [kmalloc_of_none (hr.malloc_none hcov (le_of_add_le_left hlt)), hres, hheap,
    hsame (hiff.2 hcov)]
  exact ⟨hiff.2 hcov, hr.extend_heapEnd (overhead_le_growth size) hlt⟩

/-- A request that gets enough pages does not fail. -/
lemma kmalloc_ne_none (hr : Rep h bs) (hp : p.numFrames ≤ maxFrames) (hcov : Covers size)
    (hrun : (p.allocFramesContiguous (growPages size)).1 = some h.heapEnd) :
    (kmalloc h p size).1 ≠ none := by
  intro hnull
  obtain ⟨hnone, -⟩ | ⟨l, x, r, rfl, -, -, hsome, -⟩ := hr.malloc size
  · rw [kmalloc_of_none hnone, (kmallocGrow_of_eq size hrun).1,
      (hr.malloc_extended (contiguous_le_oneGb hp hrun)).1] at hnull
    exact absurd hcov hnull
  · rw [kmalloc, hsome] at hnull
    cases hnull

/-- **A `kmalloc` that fails leaves everything as it was, unless it gets too few pages.** -/
theorem kmalloc_free_iff (hr : Rep h bs) (hp : p.numFrames ≤ maxFrames) (size : ℕ) :
    ((kmalloc h p size).1 = none → (kmalloc h p size).2 = (h, p)) ↔
      Covers size ∨ (p.allocFramesContiguous (growPages size)).1 ≠ some h.heapEnd := by
  by_cases hrun : (p.allocFramesContiguous (growPages size)).1 = some h.heapEnd
  · rw [or_iff_left (not_not_intro hrun)]
    constructor
    · intro hfree
      by_contra hcov
      obtain ⟨hnull, hend⟩ := kmalloc_costs hr hp hcov hrun
      rw [hfree hnull] at hend
      exact absurd hend (heapEnd_ne_growth h.heapEnd size)
    · intro hcov hnull
      exact absurd hnull (kmalloc_ne_none hr hp hcov hrun)
  · refine ⟨fun _ => .inr hrun, fun _ hnull => ?_⟩
    obtain ⟨hnone, -⟩ | ⟨l, x, r, rfl, -, -, hsome, -⟩ := hr.malloc size
    · rw [kmalloc_of_none hnone, kmallocGrow_of_ne hrun]
    · rw [kmalloc, hsome] at hnull
      cases hnull

end Kernel

/-! ### `malloc` -/

/-- The regions of a program, with their lengths, after `el_append_pages_to_heap`: a new one that is
not adjacent goes back with `SYS_MUNMAP`. -/
def growRegions (h : Heap) (regions : Finset (ℕ × ℕ)) (mapped : Option ℕ) (nbytes : ℕ) :
    Finset (ℕ × ℕ) :=
  match mapped with
  | none => regions
  | some a =>
    if a ≠ h.heapEnd then (insert (a, nbytes) regions).erase (a, nbytes)
    else insert (a, nbytes) regions

/-- The regions of a program after `malloc`, on a heap that is there. -/
def mallocRegions (h : Heap) (regions : Finset (ℕ × ℕ)) (mapped : Option ℕ) (size : ℕ) :
    Finset (ℕ × ℕ) :=
  match elMalloc h size with
  | (some _, _) => regions
  | (none, h) => growRegions h regions mapped (growPages size * elPageBytes)

/-- What `SYS_MMAP` returns is not mapped yet. -/
def NewRegion (regions : Finset (ℕ × ℕ)) (mapped : Option ℕ) : Prop :=
  ∀ a ∈ mapped, ∀ len, (a, len) ∉ regions

section Ring3

variable {h : Heap} {live : List ℕ} {regions : Finset (ℕ × ℕ)} {mapped : Option ℕ} {n npages : ℕ}

lemma growAndRetry_of_none (mapped : Option ℕ) (regions : Finset (ℕ × ℕ))
    (hnone : elMalloc h n = (none, h)) :
    growAndRetry h mapped n = mallocGrow h mapped n (growPages n) ∧
      mallocRegions h regions mapped n =
        growRegions h regions mapped (growPages n * elPageBytes) := by
  rw [growAndRetry, mallocRegions, hnone]
  exact ⟨rfl, rfl⟩

lemma mallocGrow_of_ne (n npages : ℕ) (hne : mapped ≠ some h.heapEnd)
    (hnew : NewRegion regions mapped) :
    mallocGrow h mapped n npages = (none, h) ∧
      growRegions h regions mapped (npages * elPageBytes) = regions := by
  cases mapped with
  | none => exact ⟨rfl, rfl⟩
  | some a =>
    have ha : a ≠ h.heapEnd := fun heq => hne (congrArg some heq)
    rw [mallocGrow, elAppendPagesToUserHeap, if_pos ha, growRegions, if_pos ha,
      Finset.erase_insert (hnew a rfl _)]
    exact ⟨rfl, rfl⟩

lemma granted_le_oneGb {a len : ℕ} (hg : Granted len (some a)) : a + len ≤ oneGb :=
  (hg a rfl).2.2.trans (by decide)

lemma mallocGrow_of_eq : mallocGrow h (some h.heapEnd) n npages =
    elMalloc
      (elExtend (h.mapZeroed h.heapEnd (npages * elPageBytes)) (npages * elPageBytes)) n := by
  rw [mallocGrow, elAppendPagesToUserHeap, if_neg (not_not_intro rfl)]

/-- A call that fails has found nothing the first time. -/
lemma elMalloc_of_growAndRetry (hup : Up h live) (hnull : (growAndRetry h mapped n).1 = none) :
    elMalloc h n = (none, h) := by
  obtain ⟨bs, hs, -⟩ := hup.serves
  obtain ⟨hnone, -⟩ | ⟨l, x, r, rfl, -, -, hsome, -⟩ := hs.rep.malloc n
  · exact hnone
  · rw [growAndRetry, hsome] at hnull
    cases hnull

lemma growAndRetry_costs (hup : Up h live) (hcov : ¬ Covers n)
    (hg : Granted (growPages n * elPageBytes) (some h.heapEnd)) :
    (growAndRetry h (some h.heapEnd) n).1 = none ∧
      (growAndRetry h (some h.heapEnd) n).2.heapEnd = h.heapEnd + growPages n * elPageBytes := by
  obtain ⟨bs, hs, -⟩ := hup.serves
  obtain ⟨hup', -⟩ := hup.mapZeroed (growPages n * elPageBytes)
  obtain ⟨bs', hs', -⟩ := hup'.serves
  have hlt := granted_le_oneGb hg
  have hnone := hs.rep.malloc_none hcov (le_of_add_le_left hlt)
  obtain ⟨hiff, hsame⟩ := hs'.rep.malloc_extended hlt
  rw [(growAndRetry_of_none _ ∅ hnone).1, mallocGrow_of_eq, hsame (hiff.2 hcov)]
  exact ⟨hiff.2 hcov, hs'.rep.extend_heapEnd (overhead_le_growth n) hlt⟩

/-- **A `malloc` that fails leaves everything as it was, unless it gets too few pages.** -/
theorem growAndRetry_free_iff (hup : Up h live) (hg : Granted (growPages n * elPageBytes) mapped)
    (hnew : NewRegion regions mapped) :
    ((growAndRetry h mapped n).1 = none →
        (growAndRetry h mapped n).2 = h ∧ mallocRegions h regions mapped n = regions) ↔
      Covers n ∨ mapped ≠ some h.heapEnd := by
  by_cases hrun : mapped = some h.heapEnd
  · subst hrun
    rw [or_iff_left (not_not_intro rfl)]
    constructor
    · intro hfree
      by_contra hcov
      obtain ⟨hnull, hend⟩ := growAndRetry_costs hup hcov hg
      rw [(hfree hnull).1] at hend
      exact absurd hend (heapEnd_ne_growth h.heapEnd n)
    · -- with enough pages the second try does not fail
      intro hcov hnull
      have hnone := elMalloc_of_growAndRetry hup hnull
      obtain ⟨hup', -⟩ := hup.mapZeroed (growPages n * elPageBytes)
      obtain ⟨bs', hs', -⟩ := hup'.serves
      rw [(growAndRetry_of_none _ regions hnone).1, mallocGrow_of_eq,
        (hs'.rep.malloc_extended (granted_le_oneGb hg)).1] at hnull
      exact absurd hcov hnull
  · refine ⟨fun _ => .inr hrun, fun _ hnull => ?_⟩
    obtain ⟨heq, hregions⟩ :=
      growAndRetry_of_none mapped regions (elMalloc_of_growAndRetry hup hnull)
    obtain ⟨hrefused, hback⟩ := mallocGrow_of_ne n (growPages n) hrun hnew
    rw [heq, hrefused, hregions]
    exact ⟨rfl, hback⟩

end Ring3

/-! ### Heaps in use -/

lemma malloc_of_initialised (h : Heap) (slab mapped : Option ℕ) (size : ℕ) :
    malloc ⟨true, h⟩ slab mapped size =
      ((growAndRetry h mapped (roundUp8 size)).1,
        ⟨true, (growAndRetry h mapped (roundUp8 size)).2⟩) :=
  rfl

/-- **When a failed allocation costs nothing**: in every kernel heap and in every heap of a program
that is in use, and for every request, a call that returns NULL leaves the heap and the pool of
frames, or the regions of the program, as they were, unless the heap grows by too few pages. -/
theorem failure_free_iff (size : ℕ) (_ : size < 2 ^ 64) :
    (∀ s : KernelClients, s.Reachable →
      (((kmalloc s.heap s.pool size).1 = none →
          (kmalloc s.heap s.pool size).2 = (s.heap, s.pool)) ↔
        Covers size ∨ (s.pool.allocFramesContiguous (growPages size)).1 ≠ some s.heap.heapEnd)) ∧
    ∀ s : Program, s.Reachable → s.heap.initialised = true →
      ∀ slab mapped regions, Program.Answers slab mapped size → NewRegion regions mapped →
        (((malloc s.heap slab mapped size).1 = none → (malloc s.heap slab mapped size).2 = s.heap ∧
            mallocRegions s.heap.heap regions mapped (roundUp8 size) = regions) ↔
          Covers (roundUp8 size) ∨ mapped ≠ some s.heap.heap.heapEnd) := by
  refine ⟨fun s hs => ?_, fun s hs hinit slab mapped regions ha hnew => ?_⟩
  · obtain ⟨⟨bs, hserves⟩, hframes, -⟩ := hs.sound
    exact kmalloc_free_iff hserves.rep hframes size
  · have hup := hs.sound.up hinit
    obtain ⟨⟨initialised, h⟩, live⟩ := s
    obtain rfl : initialised = true := hinit
    rw [← growAndRetry_free_iff hup ha.2 hnew]
    simp only [malloc_of_initialised, UserHeap.mk.injEq, true_and]

/-- Neither kind of heap loses anything to a request for a megabyte that fails. -/
theorem failure_free_megabyte :
    (∃ s : KernelClients, s.Reachable ∧ ((kmalloc s.heap s.pool (2 ^ 20)).1 = none →
      (kmalloc s.heap s.pool (2 ^ 20)).2 = (s.heap, s.pool))) ∧
    ∃ s : Program, s.Reachable ∧ ((malloc s.heap none none (2 ^ 20)).1 = none →
      (malloc s.heap none none (2 ^ 20)).2 = s.heap ∧
        mallocRegions s.heap.heap ∅ none (roundUp8 (2 ^ 20)) = ∅) := by
  obtain ⟨s, -, hs, -⟩ := exists_reachable_kernel
  obtain ⟨t, -, ht, hinit, -⟩ := exists_reachable_program
  have hnew : NewRegion ∅ none := by simp [NewRegion]
  have hanswers : Program.Answers none none (2 ^ 20) := ⟨by simp [Granted], by simp [Granted]⟩
  refine ⟨⟨s, hs, ?_⟩, t, ht, ?_⟩
  · exact ((failure_free_iff (2 ^ 20) (by norm_num)).1 s hs).mpr
      (.inl (covers_of_lt (by norm_num)))
  · exact ((failure_free_iff (2 ^ 20) (by norm_num)).2 t ht hinit none none ∅ hanswers hnew).mpr
      (.inr (Option.some_ne_none _).symm)

lemma growPages_huge : growPages (2 ^ 44) = heapGrowPages := by decide +kernel

lemma not_covers_huge : ¬ Covers (2 ^ 44) := by
  rw [Covers, growPages_huge]
  decide

/-- A request for 2⁴⁴ bytes fails and costs sixteen pages, in a kernel of 32 frames and in a program
after its first `malloc`. -/
theorem failure_costs_pages :
    (∃ s : KernelClients, s.Reachable ∧ (kmalloc s.heap s.pool (2 ^ 44)).1 = none ∧
      (kmalloc s.heap s.pool (2 ^ 44)).2.1.heapEnd =
        s.heap.heapEnd + heapGrowPages * elPageBytes) ∧
    ∃ s : Program, s.Reachable ∧ s.heap.initialised = true ∧
      Program.Answers none (some s.heap.heap.heapEnd) (2 ^ 44) ∧
      (malloc s.heap none (some s.heap.heap.heapEnd) (2 ^ 44)).1 = none ∧
      (malloc s.heap none (some s.heap.heap.heapEnd) (2 ^ 44)).2.heap.heapEnd =
        s.heap.heap.heapEnd + heapGrowPages * elPageBytes := by
  refine ⟨?_, ?_⟩
  · have hs : KernelClients.Reachable ⟨_, _, _⟩ :=
      ⟨fun _ => 0, 0x100000, ⟨fun _ => false, 32, 0⟩, _, _, [], by decide, by decide, rfl, rfl⟩
    refine ⟨_, hs, ?_⟩
    obtain ⟨⟨bs, hserves⟩, hframes, -⟩ := hs.sound
    rw [← growPages_huge]
    refine kmalloc_costs hserves.rep hframes not_covers_huge ?_
    rw [growPages_huge]
    decide
  · obtain ⟨s, -, hs, hinit, -, hend, -⟩ := exists_reachable_program
    have hround : roundUp8 (2 ^ 44) = 2 ^ 44 := by decide
    have hanswers : Program.Answers none (some s.heap.heap.heapEnd) (2 ^ 44) := by
      refine ⟨by simp [Granted], ?_⟩
      rw [hround, growPages_huge, hend]
      decide
    obtain ⟨hnull, hgrown⟩ := growAndRetry_costs (hs.sound.up hinit) not_covers_huge
      (by rw [← hround]; exact hanswers.2)
    rw [growPages_huge] at hgrown
    obtain ⟨⟨initialised, h⟩, live⟩ := s
    obtain rfl : initialised = true := hinit
    refine ⟨_, hs, rfl, hanswers, ?_⟩
    rw [malloc_of_initialised, hround]
    exact ⟨hnull, hgrown⟩

/-! ### Requests that wrap around -/

/-- What a request for `n` bytes returns is NULL or an aligned payload that is long enough. -/
def Honoured (r : Option ℕ × UserHeap) (n : ℕ) : Prop :=
  ∀ p ∈ r.1, p % 8 = 0 ∧ n ≤ payloadSize r.2.heap p

/-- What `calloc` returns reads as zero. -/
def Cleared (r : Option ℕ × UserHeap) (n : ℕ) : Prop :=
  ∀ p ∈ r.1, ∀ i < n, r.2.heap.mem (p + i) = 0

/-- A payload of `malloc` is in the heap slot, however much was asked for. -/
lemma Program.Sound.malloc_short {s : Program} {slab mapped : Option ℕ} {n p : ℕ} (hs : s.Sound)
    (ha : Program.Answers slab mapped n) (hp : p ∈ (malloc s.heap slab mapped n).1) :
    heapSlotBase ≤ p ∧ payloadSize (malloc s.heap slab mapped n).2.heap p ≤ heapSlotEnd := by
  have hserved := Program.served_malloc hs ha
  have hbuilt := hserved.built (by rw [Option.mem_def.mp hp]; exact Option.some_ne_none p)
  have hlive : p ∈ (malloc s.heap slab mapped n).1.toList ++ s.live := by
    rw [Option.mem_def.mp hp]
    exact List.mem_cons_self
  obtain ⟨hbase, hlimit⟩ := (hserved.sound.up hbuilt).in_slot hlive
  exact ⟨hbase, (Nat.le_add_left _ p).trans hlimit⟩

lemma payloadSize_clear {h : Heap} {p k : ℕ} (hp : sizeofHead ≤ p) :
    payloadSize (h.setMem (fill h.mem p k 0)) p = payloadSize h p := by
  simp only [sizeofHead] at hp
  refine word_congr fun j hj => fill_outside (.inl ?_)
  simp only [sizeofHead]
  omega

/-- The list of the available blocks is empty when there is none. -/
lemma Rep.avail_length_eq_zero_iff {h : Heap} {bs : List Block} (hr : Rep h bs) :
    h.avail.length = 0 ↔ ∀ b ∈ bs, b.state ≠ elAvailable := by
  obtain ⟨ls, hs⟩ := hr.sorted
  have hside : ∀ b, b ∈ ls .avail ↔ b ∈ bs ∧ b.state = elAvailable := by
    intro b
    rw [hs.sides, List.append_nil]
    rfl
  have hlen : h.avail.length = (ls .avail).length := (hs.shape'.listed .avail).length
  rw [hlen, List.length_eq_zero_iff, List.eq_nil_iff_forall_not_mem]
  exact ⟨fun hnone b hb hst => hnone b ((hside b).mpr ⟨hb, hst⟩),
    fun hnone b hb => hnone b ((hside b).mp hb).1 ((hside b).mp hb).2⟩

/-- A request for nothing takes any block; without one it is refused unless the heap can grow. -/
lemma Up.growAndRetry_zero_iff {h : Heap} {live : List ℕ} {mapped : Option ℕ} (hup : Up h live)
    (hg : Granted (growPages 0 * elPageBytes) mapped) :
    (TownOS.Memory.growAndRetry h mapped 0).1 = none ↔
      h.avail.length = 0 ∧ mapped ≠ some h.heapEnd := by
  obtain ⟨bs, hs, -⟩ := hup.serves
  rw [hs.rep.avail_length_eq_zero_iff]
  obtain ⟨hnone, hsmall⟩ | ⟨l, x, r, rfl, hx, -, hsome, -⟩ := hs.rep.malloc 0
  · rw [(growAndRetry_of_none mapped ∅ hnone).1,
      and_iff_right fun b hb hst => absurd (hsmall b hb hst) (Nat.not_lt_zero _)]
    by_cases hrun : mapped = some h.heapEnd
    · subst hrun
      obtain ⟨hup', -⟩ := hup.mapZeroed (growPages 0 * elPageBytes)
      obtain ⟨bs', hs', -⟩ := hup'.serves
      rw [mallocGrow_of_eq, (hs'.rep.malloc_extended (granted_le_oneGb hg)).1]
      exact iff_of_false (not_not_intro (covers_of_lt (by norm_num))) (not_not_intro rfl)
    · refine iff_of_true ?_ hrun
      cases mapped with
      | none => rfl
      | some a =>
        have ha : a ≠ h.heapEnd := fun heq => hrun (congrArg some heq)
        rw [TownOS.Memory.mallocGrow, elAppendPagesToUserHeap, if_pos ha]
  · refine iff_of_false ?_ fun hno => hno.1 x (by simp) hx
    rw [TownOS.Memory.growAndRetry, hsome]
    exact Option.some_ne_none _

/-- There is no block to be had: the heap cannot be built, or none of its blocks is available and
it cannot grow. -/
def Exhausted (u : UserHeap) (slab mapped : Option ℕ) : Prop :=
  if u.initialised then u.heap.avail.length = 0 ∧ mapped ≠ some u.heap.heapEnd else slab = none

/-- A request that is rounded to nothing is refused when there is no block to be had. -/
lemma Program.Sound.malloc_wraps_iff {s : Program} {slab mapped : Option ℕ} {n : ℕ} (hs : s.Sound)
    (ha : Program.Answers slab mapped n) (hwrap : roundUp8 n = 0) :
    (malloc s.heap slab mapped n).1 = none ↔ Exhausted s.heap slab mapped := by
  obtain ⟨hslab, hmapped⟩ := ha
  rw [hwrap] at hmapped
  obtain ⟨⟨initialised, h⟩, live⟩ := s
  cases initialised with
  | true =>
    rw [malloc_of_initialised, hwrap]
    exact (hs.up rfl).growAndRetry_zero_iff hmapped
  | false =>
    cases slab with
    | none => exact iff_of_true rfl rfl
    | some a =>
      refine iff_of_false ?_ (Option.some_ne_none a)
      -- the block of the first slab is available
      obtain ⟨hup, hrep⟩ := up_elInitUser hs.ctl hslab
      rw [Program.malloc_first, hwrap, hup.growAndRetry_zero_iff hmapped,
        hrep.avail_length_eq_zero_iff]
      exact fun hno => hno.1 _ (List.mem_singleton_self _) rfl

/-- **`malloc` honours a request unless rounding it up to a multiple of 8 wraps around**: then any
block will do, and the call returns one that is too short unless there is none to be had. `calloc`
likewise for the product; it refuses one that does not fit 64 bits. -/
theorem malloc_honours_iff {s : Program} (hs : s.Reachable) (slab mapped : Option ℕ) :
    (∀ n < 2 ^ 64, Program.Answers slab mapped n →
      (Honoured (malloc s.heap slab mapped n) n ↔
        n ≤ 2 ^ 64 - 8 ∨ Exhausted s.heap slab mapped)) ∧
    ∀ count < 2 ^ 64, ∀ size < 2 ^ 64, Program.Answers slab mapped (count * size % 2 ^ 64) →
      (Honoured (calloc s.heap slab mapped count size) (count * size) ∧
          Cleared (calloc s.heap slab mapped count size) (count * size) ↔
        count * size ≤ 2 ^ 64 - 8 ∨ 2 ^ 64 ≤ count * size ∨ Exhausted s.heap slab mapped) := by
  have hsound := hs.sound
  refine ⟨fun n hn ha => ?_, fun count hcount size hsize ha => ?_⟩
  · by_cases hle : n ≤ 2 ^ 64 - 8
    · refine iff_of_true (fun p hp => ?_) (.inl hle)
      have hhand := (Program.served_malloc hsound ha).handed p hp
      exact ⟨hhand.2, (Program.le_roundUp8 hle).trans hhand.1.long⟩
    · have hwrap := Program.roundUp8_wraps (Nat.lt_of_not_le hle) hn
      rw [or_iff_right hle, ← hsound.malloc_wraps_iff ha hwrap]
      refine ⟨fun hhon => ?_, fun hnone p hp => ?_⟩
      · by_contra hsome
        obtain ⟨p, hp⟩ := Option.ne_none_iff_exists'.mp hsome
        have := hsound.malloc_short ha hp
        have := (hhon p hp).2
        simp only [heapSlotEnd] at *
        omega
      · rw [hnone] at hp
        cases hp
  · by_cases hle : count * size ≤ 2 ^ 64 - 8
    · obtain ⟨hserved, hzero⟩ := Program.served_calloc hsound hcount ha fun _ _ => hle
      exact iff_of_true
        ⟨fun p hp => ⟨(hserved.handed p hp).2, (hserved.handed p hp).1.long⟩, hzero⟩ (.inl hle)
    rw [or_iff_right hle]
    have hrefused : ∀ u, calloc s.heap slab mapped count size = (none, u) →
        Honoured (calloc s.heap slab mapped count size) (count * size) ∧
          Cleared (calloc s.heap slab mapped count size) (count * size) := by
      intro u heq
      rw [heq]
      refine ⟨fun p hp => ?_, fun p hp => ?_⟩
      · cases hp
      · cases hp
    by_cases hover : 2 ^ 64 ≤ count * size
    · refine iff_of_true ?_ (.inl hover)
      obtain ⟨-, heq⟩ | ⟨hlt, -⟩ | ⟨hlt, -⟩ := Program.calloc_cases s.heap slab mapped size hcount
      · exact hrefused _ heq
      · exact absurd hover (Nat.not_le.mpr hlt)
      · exact absurd hover (Nat.not_le.mpr hlt)
    · have hlt : count * size < 2 ^ 64 := Nat.lt_of_not_le hover
      rw [Nat.mod_eq_of_lt hlt] at ha
      have hwrap := Program.roundUp8_wraps (Nat.lt_of_not_le hle) hlt
      have hiff := hsound.malloc_wraps_iff ha hwrap
      rw [or_iff_right hover, ← hiff]
      obtain ⟨hbeyond, -⟩ | ⟨-, u', hm, heq⟩ | ⟨-, p, u', hm, heq⟩ :=
        Program.calloc_cases s.heap slab mapped size hcount
      · exact absurd hbeyond hover
      · exact iff_of_true (hrefused _ heq) (by rw [hm])
      · refine iff_of_false (fun hhon => ?_) (by rw [hm]; exact Option.some_ne_none p)
        have hshort := hsound.malloc_short ha (p := p) (by rw [hm]; rfl)
        have hlong := (hhon.1 p (by rw [heq]; rfl)).2
        rw [hm] at hshort
        simp only [heq] at hlong
        rw [payloadSize_clear (by simp only [heapSlotBase, sizeofHead] at *; omega)] at hlong
        simp only [heapSlotEnd] at hshort
        omega

/-- A first request of 100 bytes. -/
theorem malloc_honours_hundred :
    freshProgram.Reachable ∧ Honoured (malloc freshProgram.heap (some heapSlotBase) none 100) 100 :=
  ⟨freshProgram_reachable, ((malloc_honours_iff freshProgram_reachable _ _).1 100 (by norm_num)
    (answers_first 100)).mpr (.inl (by norm_num))⟩

/-- The largest request a program can make returns a block of the heap slot. -/
theorem malloc_huge_short :
    freshProgram.Reachable ∧ ∃ p,
      (malloc freshProgram.heap (some heapSlotBase) none (2 ^ 64 - 1)).1 = some p ∧
      payloadSize (malloc freshProgram.heap (some heapSlotBase) none (2 ^ 64 - 1)).2.heap p <
        2 ^ 64 - 1 :=
  ⟨freshProgram_reachable, 0x800020, by decide +kernel, by decide +kernel⟩

end TownOS.Memory
