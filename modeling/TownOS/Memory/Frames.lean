import TownOS.Foundations.Words

/-!
The pool of physical frames (`kernel/memory.c`).

One bit per frame, from `MEMORY_START` up to the top of the memory the boot
loader reports. `memoryInit` sizes the pool and marks the frames that are never
handed out: those below the ring-3 slots, and the holes of the map.

* `allocFrame_some`, `allocFrame_none`: `alloc_frame` takes the lowest free frame;
* `allocFramesContiguous_some`, `allocFramesContiguous_none`: the single pass of
  `alloc_frames_contiguous` with its running counter finds the lowest run of free
  frames, and fails only if there is none;
* `allocFramesContiguous_lowest`: both together, with what it does to the bitmap;
* `memoryInit_reserves`: physical 4-10 MB is out of the pool.
-/

namespace TownOS.Memory

/-- `FRAME_SIZE`. -/
def frameSize : ℕ := 4096

/-- `MEMORY_START`. -/
def memoryStart : ℕ := 0x400000

/-- `ONE_GB`. -/
def oneGb : ℕ := 0x40000000

/-- `BOOT_MAP_TOP`. -/
def bootMapTop : ℕ := 0x2000000

/-- `MAX_FRAMES`. -/
def maxFrames : ℕ := (oneGb - memoryStart) / frameSize

/-- The variables of `kernel/memory.c`. -/
structure FramePool where
  bitmap : ℕ → Bool
  numFrames : ℕ
  poolTop : ℕ

/-- The address of a frame. -/
def frameAddr (i : ℕ) : ℕ := memoryStart + i * frameSize

lemma frameAddr_inj {i j : ℕ} (h : frameAddr i = frameAddr j) : i = j := by
  simp only [frameAddr, frameSize] at h
  omega

lemma frameAddr_add (i n : ℕ) : frameAddr (i + n) = frameAddr i + n * frameSize := by
  rw [frameAddr, frameAddr, Nat.add_mul, Nat.add_assoc]

namespace FramePool

variable {p p' : FramePool} {i j s f count : ℕ}

/-- `set_bit`. -/
def setBit (p : FramePool) (frame : ℕ) : FramePool :=
  { p with bitmap := fun i => if i = frame then true else p.bitmap i }

/-- `clear_bit`. -/
def clearBit (p : FramePool) (frame : ℕ) : FramePool :=
  { p with bitmap := fun i => if i = frame then false else p.bitmap i }

/-! ### Taking and returning frames -/

/-- `alloc_frame`; `none` for 0. -/
def allocFrame (p : FramePool) : Option ℕ × FramePool :=
  match (List.range p.numFrames).find? fun i => !p.bitmap i with
  | some i => (some (frameAddr i), p.setBit i)
  | none => (none, p)

/-- The loop of `alloc_frames_contiguous`: `k` frames are left from frame `i` on, and the last
`run` before it are free. The first frame of the run, once it is long enough. -/
def scanRun (p : FramePool) (count : ℕ) : ℕ → ℕ → ℕ → Option ℕ
  | 0, _, _ => none
  | k + 1, i, run =>
    if p.bitmap i then scanRun p count k (i + 1) 0
    else if run + 1 = count then some (i + 1 - count)
    else scanRun p count k (i + 1) (run + 1)

/-- Mark `n` frames from frame `s` on as used. -/
def setBits (p : FramePool) (s n : ℕ) : FramePool := (List.range' s n).foldl setBit p

/-- `alloc_frames_contiguous`; `none` for 0. -/
def allocFramesContiguous (p : FramePool) (count : ℕ) : Option ℕ × FramePool :=
  if count = 0 then (none, p)
  else
    match scanRun p count p.numFrames 0 0 with
    | some start => (some (frameAddr start), p.setBits start count)
    | none => (none, p)

/-- `free_frame`. -/
def freeFrame (p : FramePool) (addr : ℕ) : FramePool :=
  if addr < memoryStart then p
  else
    let frame := (addr - memoryStart) / frameSize
    if frame < p.numFrames then p.clearBit frame else p

/-! ### What they do to the bitmap -/

lemma setBits_bitmap (p : FramePool) (s n i : ℕ) :
    (p.setBits s n).bitmap i = (decide (s ≤ i ∧ i < s + n) || p.bitmap i) := by
  induction n generalizing p s with
  | zero =>
    have hno : ¬ (s ≤ i ∧ i < s + 0) := by omega
    rw [decide_eq_false hno, Bool.false_or]
    rfl
  | succ n ih =>
    have hstep : p.setBits s (n + 1) = (p.setBit s).setBits (s + 1) n := rfl
    rw [hstep, ih]
    by_cases hi : i = s
    · subst hi
      simp [setBit]
    · have hiff : (s + 1 ≤ i ∧ i < s + 1 + n) ↔ (s ≤ i ∧ i < s + (n + 1)) := by omega
      rw [decide_eq_decide.mpr hiff]
      exact congrArg (_ || ·) (if_neg hi)

@[simp]
lemma setBits_numFrames (p : FramePool) (s n : ℕ) : (p.setBits s n).numFrames = p.numFrames := by
  induction n generalizing p s with
  | zero => rfl
  | succ n ih => exact ih (p.setBit s) (s + 1)

@[simp]
lemma setBits_poolTop (p : FramePool) (s n : ℕ) : (p.setBits s n).poolTop = p.poolTop := by
  induction n generalizing p s with
  | zero => rfl
  | succ n ih => exact ih (p.setBit s) (s + 1)

/-- `alloc_frame` takes the lowest free frame. -/
lemma allocFrame_some (h : p.allocFrame = (some f, p')) :
    ∃ i < p.numFrames, p.bitmap i = false ∧ (∀ j < i, p.bitmap j = true) ∧ f = frameAddr i ∧
      p' = p.setBit i := by
  rw [allocFrame] at h
  split at h
  case h_2 => cases h
  case h_1 i hi =>
      obtain ⟨hf, rfl⟩ := Prod.mk.inj h
      obtain ⟨hfree, hlow⟩ := List.find?_range_eq_some.mp hi
      exact ⟨i, List.mem_range.mp hlow.1, by simpa using hfree,
        fun j hj => by simpa using hlow.2 j hj,
        (Option.some.inj hf).symm, rfl⟩

lemma allocFrame_numFrames (p : FramePool) : p.allocFrame.2.numFrames = p.numFrames := by
  rw [allocFrame]
  split <;> rfl

/-- `alloc_frame` fails only on a full pool. -/
lemma allocFrame_none (h : p.allocFrame = (none, p')) :
    p' = p ∧ ∀ i < p.numFrames, p.bitmap i = true := by
  rw [allocFrame] at h
  split at h
  case h_1 => cases h
  case h_2 hi =>
      refine ⟨(Prod.mk.inj h).2.symm, fun i hlt => ?_⟩
      simpa using List.find?_eq_none.mp hi i (List.mem_range.mpr hlt)

/-- A frame that is handed back is free, and no other changes. -/
lemma freeFrame_frameAddr (h : i < p.numFrames) : p.freeFrame (frameAddr i) = p.clearBit i := by
  have hidx : (frameAddr i - memoryStart) / frameSize = i := by
    simp only [frameAddr, frameSize]
    omega
  rw [freeFrame, if_neg (by simp [frameAddr]), hidx, if_pos h]

/-- `free_frame` clears a bit of the bitmap, or does nothing. -/
lemma freeFrame_cases (p : FramePool) (a : ℕ) :
    p.freeFrame a = p ∨ ∃ i < p.numFrames, p.freeFrame a = p.clearBit i := by
  obtain hlow | hlow := Nat.lt_or_ge a memoryStart
  · left
    rw [freeFrame, if_pos hlow]
  obtain hin | hin := Nat.lt_or_ge ((a - memoryStart) / frameSize) p.numFrames
  · refine .inr ⟨_, hin, ?_⟩
    rw [freeFrame, if_neg hlow.not_gt, if_pos hin]
  · left
    rw [freeFrame, if_neg hlow.not_gt, if_neg hin.not_gt]

@[simp]
lemma freeFrame_numFrames (p : FramePool) (a : ℕ) : (p.freeFrame a).numFrames = p.numFrames := by
  obtain h | ⟨i, -, h⟩ := p.freeFrame_cases a
  · rw [h]
  · rw [h]
    rfl

/-! ### The lowest run -/

/-- `count` frames from frame `s` on are free. -/
def Run (p : FramePool) (s count : ℕ) : Prop := ∀ j < count, p.bitmap (s + j) = false

/-- What the loop knows at frame `i`: the `run` frames before it are free, the one before those
is not, and no run of the wanted length ends before `i`. -/
structure Scanned (p : FramePool) (count i run : ℕ) : Prop where
  le : run ≤ i
  short : run < count
  free : p.Run (i - run) run
  edge : run = i ∨ p.bitmap (i - run - 1) = true
  above : ∀ s, s + count ≤ i → ¬ p.Run s count

lemma Scanned.used {run : ℕ} (h : Scanned p count i run) (hi : p.bitmap i = true) :
    Scanned p count (i + 1) 0 where
  le := Nat.zero_le _
  short := by have := h.short; omega
  free := fun j hj => absurd hj (Nat.not_lt_zero j)
  edge := .inr (by simpa using hi)
  above := by
    intro s hs hrun
    have hshort := h.short
    by_cases hle : s + count ≤ i
    · exact h.above s hle hrun
    · have := hrun (i - s) (by omega)
      rw [show s + (i - s) = i from by omega, hi] at this
      cases this

lemma Scanned.free_succ {run : ℕ} (h : Scanned p count i run) (hi : p.bitmap i = false) :
    p.Run (i + 1 - (run + 1)) (run + 1) := by
  intro j hj
  have hle := h.le
  by_cases hlast : j = run
  · rw [hlast, show i + 1 - (run + 1) + run = i from by omega, hi]
  · have := h.free j (by omega)
    rwa [show i + 1 - (run + 1) + j = i - run + j from by omega]

lemma Scanned.longer {run : ℕ} (h : Scanned p count i run) (hi : p.bitmap i = false)
    (hrun : run + 1 ≠ count) : Scanned p count (i + 1) (run + 1) where
  le := Nat.succ_le_succ h.le
  short := by have := h.short; omega
  free := h.free_succ hi
  edge := by
    obtain he | he := h.edge
    · exact .inl (by omega)
    · refine .inr ?_
      rwa [show i + 1 - (run + 1) - 1 = i - run - 1 from by omega]
  above := by
    intro s hs hfree
    have hle := h.le
    have hshort := h.short
    by_cases hlow : s + count ≤ i
    · exact h.above s hlow hfree
    -- a run that ends with `i` would reach over the used frame before the counted ones
    · obtain he | he := h.edge
      · omega
      · have := hfree (i - run - 1 - s) (by omega)
        rw [show s + (i - run - 1 - s) = i - run - 1 from by omega, he] at this
        cases this

/-- The loop finds the lowest run. -/
lemma scanRun_some {k run : ℕ} (h : Scanned p count i run) (hs : p.scanRun count k i run = some s) :
    s + count ≤ i + k ∧ p.Run s count ∧ ∀ t < s, ¬ p.Run t count := by
  induction k generalizing i run with
  | zero => cases hs
  | succ k ih =>
    rw [scanRun] at hs
    split_ifs at hs with hi hrun
    · obtain ⟨hle, hrest⟩ := ih (h.used hi) hs
      exact ⟨by omega, hrest⟩
    · have hi' : p.bitmap i = false := by simpa using hi
      have hle := h.le
      obtain rfl : i + 1 - count = s := Option.some.inj hs
      refine ⟨by omega, ?_, fun t ht => h.above t (by omega)⟩
      rw [← hrun]
      exact h.free_succ hi'
    · obtain ⟨hle, hrest⟩ := ih (h.longer (by simpa using hi) hrun) hs
      exact ⟨by omega, hrest⟩

/-- The loop misses no run. -/
lemma scanRun_none {k run : ℕ} (h : Scanned p count i run) (hs : p.scanRun count k i run = none) :
    ∀ s, s + count ≤ i + k → ¬ p.Run s count := by
  induction k generalizing i run with
  | zero => exact fun s hle => h.above s hle
  | succ k ih =>
    rw [scanRun] at hs
    split_ifs at hs with hi hrun
    · intro s hle
      exact ih (h.used hi) hs s (by omega)
    · intro s hle
      exact ih (h.longer (by simpa using hi) hrun) hs s (by omega)

lemma scanned_zero (hc : count ≠ 0) : Scanned p count 0 0 where
  le := le_rfl
  short := Nat.pos_of_ne_zero hc
  free := fun j hj => absurd hj (Nat.not_lt_zero j)
  edge := .inl rfl
  above := fun s hs => by omega

/-- `alloc_frames_contiguous` takes the lowest run. -/
lemma allocFramesContiguous_some (h : p.allocFramesContiguous count = (some f, p')) :
    ∃ s, s + count ≤ p.numFrames ∧ p.Run s count ∧ (∀ t < s, ¬ p.Run t count) ∧
      f = frameAddr s ∧ p' = p.setBits s count ∧ count ≠ 0 := by
  rw [allocFramesContiguous] at h
  by_cases hc : count = 0
  · rw [if_pos hc] at h
    cases h
  rw [if_neg hc] at h
  split at h
  case h_2 => cases h
  case h_1 s hs =>
      obtain ⟨hf, rfl⟩ := Prod.mk.inj h
      obtain ⟨hle, hrun, hlow⟩ := scanRun_some (scanned_zero hc) hs
      exact ⟨s, by omega, hrun, hlow, (Option.some.inj hf).symm, rfl, hc⟩

/-- `alloc_frames_contiguous` fails only if there is no run. -/
lemma allocFramesContiguous_none (h : p.allocFramesContiguous count = (none, p')) :
    p' = p ∧ (count ≠ 0 → ∀ s, s + count ≤ p.numFrames → ¬ p.Run s count) := by
  rw [allocFramesContiguous] at h
  split_ifs at h with hc
  · exact ⟨(Prod.mk.inj h).2.symm, fun hne => absurd hc hne⟩
  · split at h
    case h_1 => cases h
    case h_2 hs =>
        refine ⟨(Prod.mk.inj h).2.symm, fun _ s hle => ?_⟩
        exact scanRun_none (scanned_zero hc) hs s (by omega)

/-- Frame `s` is the first of the lowest run of `count` free frames of the pool. -/
structure LowestRun (p : FramePool) (s count : ℕ) : Prop where
  fits : s + count ≤ p.numFrames
  free : p.Run s count
  lowest : ∀ t < s, ¬ p.Run t count

lemma LowestRun.unique {t : ℕ} (h : p.LowestRun s count) (h' : p.LowestRun t count) : s = t := by
  by_contra hne
  rcases Nat.lt_or_gt_of_ne hne with hlt | hlt
  · exact h'.lowest s hlt h.free
  · exact h.lowest t hlt h'.free

/-- **`alloc_frames_contiguous` finds the lowest run**: it returns its address and marks its frames,
and no others; and it fails exactly when there is no run, and then leaves the bitmap. -/
theorem allocFramesContiguous_lowest (p : FramePool) (hcount : 1 ≤ count) :
    (∀ s, p.LowestRun s count ↔ (p.allocFramesContiguous count).1 = some (frameAddr s)) ∧
      (∀ f, (p.allocFramesContiguous count).1 = some f → f ≠ 0 ∧ ∃ s, f = frameAddr s ∧
        ∀ i, (p.allocFramesContiguous count).2.bitmap i = true ↔
          p.bitmap i = true ∨ s ≤ i ∧ i < s + count) ∧
      ((p.allocFramesContiguous count).1 = none ↔
        ∀ s, s + count ≤ p.numFrames → ¬ p.Run s count) ∧
      ((p.allocFramesContiguous count).1 = none → (p.allocFramesContiguous count).2 = p) ∧
      (p.allocFramesContiguous count).2.numFrames = p.numFrames := by
  rcases ha : p.allocFramesContiguous count with ⟨_ | f, p'⟩
  · obtain ⟨rfl, hnone⟩ := allocFramesContiguous_none ha
    have hno := hnone (Nat.one_le_iff_ne_zero.mp hcount)
    refine ⟨fun s => ⟨fun h => absurd h.free (hno s h.fits), fun h => ?_⟩, fun f h => ?_,
      ⟨fun _ => hno, fun _ => rfl⟩, fun _ => rfl, rfl⟩
    · cases h
    · cases h
  · obtain ⟨s, hfits, hfree, hlowest, rfl, rfl, -⟩ := allocFramesContiguous_some ha
    have hrun : p.LowestRun s count := ⟨hfits, hfree, hlowest⟩
    refine ⟨fun t => ⟨fun h => ?_, fun h => ?_⟩, fun f h => ?_, ⟨fun h => ?_, fun h => ?_⟩,
      fun h => ?_, setBits_numFrames p s count⟩
    · rw [h.unique hrun]
    · rwa [← frameAddr_inj (Option.some.inj h)]
    · obtain rfl := Option.some.inj h
      refine ⟨by simp only [frameAddr, memoryStart]; omega, s, rfl, fun i => ?_⟩
      rw [setBits_bitmap, Bool.or_eq_true_iff, decide_eq_true_eq, or_comm]
    · cases h
    · exact absurd hfree (h s hfits)
    · cases h

/-- Of six frames, the second is in use: the lowest run of three begins after it. -/
theorem allocFramesContiguous_lowest_three :
    (allocFramesContiguous ⟨fun i => decide (i = 1), 6, 0⟩ 3).1 = some (frameAddr 2) := by
  refine ((allocFramesContiguous_lowest _ (by decide)).1 2).mp ⟨by decide, ?_, ?_⟩
  · intro j hj
    simp only [decide_eq_false_iff_not]
    omega
  · intro t ht hrun
    have hused := hrun (1 - t) (by omega)
    simp only [decide_eq_false_iff_not] at hused
    omega

end FramePool

/-! ### Sizing the pool -/

/-- `multiboot_mmap_entry_t`, `size` apart: it is the stride of the walk. -/
structure MmapEntry where
  baseAddr : ℕ
  length : ℕ
  type : ℕ

/-- `e->base_addr + e->length`. -/
def MmapEntry.top (e : MmapEntry) : ℕ := (e.baseAddr + e.length) % 2 ^ 64

/-- `MULTIBOOT_MEMORY_AVAILABLE`. -/
def multibootMemoryAvailable : ℕ := 1

/-- `mmap_top_of_ram`. -/
def mmapTopOfRam (map : List MmapEntry) : ℕ :=
  map.foldl (fun top e =>
    if e.type = multibootMemoryAvailable then if top < e.top then e.top else top else top) 0

/-- `pool_top`, as `memory_detect_and_map` leaves it. There may be no map. -/
def detectedTop (map : Option (List MmapEntry)) : ℕ :=
  let top := (map.map mmapTopOfRam).getD bootMapTop
  if oneGb < top then oneGb else top

namespace FramePool

/-- The first frame of a range, which is clamped to the pool from below. -/
def firstFrame (start : ℕ) : ℕ := (max start memoryStart - memoryStart) / frameSize

/-- The frame after a range, rounded up. -/
def lastFrame (fin : ℕ) : ℕ := (fin - memoryStart + frameSize - 1) / frameSize

/-- `reserve_range`. -/
def reserveRange (p : FramePool) (start fin : ℕ) : FramePool :=
  if fin ≤ memoryStart ∨ p.poolTop ≤ start then p
  else p.setBits (firstFrame start)
    (min (lastFrame (min fin p.poolTop)) p.numFrames - firstFrame start)

/-- `reserve_map_holes`. -/
def reserveMapHoles (p : FramePool) (map : List MmapEntry) : FramePool :=
  map.foldl (fun p e =>
    if e.type ≠ multibootMemoryAvailable then p.reserveRange e.baseAddr e.top else p) p

/-- The pool before anything is reserved. -/
def sized (top : ℕ) : FramePool where
  bitmap := fun _ => false
  numFrames := min (if memoryStart < top then (top - memoryStart) / frameSize else 0) maxFrames
  poolTop := top

/-- `memory_detect_and_map` and `memory_init`. The ring-3 slots are those of
`include/usermem.h`, from `USER_REGION_START` to `USER_HEAP_LIMIT`. -/
def memoryInit (map : Option (List MmapEntry)) : FramePool :=
  ((sized (detectedTop map)).reserveRange 0x400000 0xA00000).reserveMapHoles (map.getD [])

variable {p : FramePool}

@[simp]
lemma reserveRange_numFrames (s e : ℕ) : (p.reserveRange s e).numFrames = p.numFrames := by
  rw [reserveRange]
  by_cases h : e ≤ memoryStart ∨ p.poolTop ≤ s
  · rw [if_pos h]
  · rw [if_neg h]
    exact setBits_numFrames p _ _

@[simp]
lemma reserveRange_poolTop (s e : ℕ) : (p.reserveRange s e).poolTop = p.poolTop := by
  rw [reserveRange]
  by_cases h : e ≤ memoryStart ∨ p.poolTop ≤ s
  · rw [if_pos h]
  · rw [if_neg h]
    exact setBits_poolTop p _ _

lemma reserveRange_mono (s e : ℕ) {i : ℕ} (hi : p.bitmap i = true) :
    (p.reserveRange s e).bitmap i = true := by
  rw [reserveRange]
  by_cases h : e ≤ memoryStart ∨ p.poolTop ≤ s
  · rw [if_pos h, hi]
  · rw [if_neg h, setBits_bitmap, hi, Bool.or_true]

lemma reserveMapHoles_numFrames (map : List MmapEntry) :
    (p.reserveMapHoles map).numFrames = p.numFrames := by
  induction map generalizing p with
  | nil => rfl
  | cons e map ih =>
    rw [reserveMapHoles, List.foldl_cons]
    refine ih.trans ?_
    by_cases he : e.type ≠ multibootMemoryAvailable
    · rw [if_pos he, reserveRange_numFrames]
    · rw [if_neg he]

lemma reserveMapHoles_mono (map : List MmapEntry) {i : ℕ} (hi : p.bitmap i = true) :
    (p.reserveMapHoles map).bitmap i = true := by
  induction map generalizing p with
  | nil => exact hi
  | cons e map ih =>
    rw [reserveMapHoles, List.foldl_cons]
    refine ih ?_
    by_cases he : e.type ≠ multibootMemoryAvailable
    · rw [if_pos he]
      exact reserveRange_mono _ _ hi
    · rw [if_neg he]
      exact hi

lemma memoryInit_numFrames (map : Option (List MmapEntry)) :
    (memoryInit map).numFrames = (sized (detectedTop map)).numFrames := by
  rw [memoryInit, reserveMapHoles_numFrames, reserveRange_numFrames]

lemma memoryInit_le_maxFrames (map : Option (List MmapEntry)) :
    (memoryInit map).numFrames ≤ maxFrames := by
  rw [memoryInit_numFrames]
  exact min_le_right _ _

lemma sized_lt {top i : ℕ} (hi : i < (sized top).numFrames) :
    memoryStart < top ∧ i < (top - memoryStart) / frameSize := by
  have hmin := lt_of_lt_of_le hi (min_le_left _ _)
  by_cases htop : memoryStart < top
  · rw [if_pos htop] at hmin
    exact ⟨htop, hmin⟩
  · rw [if_neg htop] at hmin
    exact absurd hmin (Nat.not_lt_zero i)

/-- No frame of physical 4-10 MB is ever free. -/
lemma memoryInit_reserves (map : Option (List MmapEntry)) {i : ℕ}
    (hi : i < (memoryInit map).numFrames) (haddr : frameAddr i < 0xA00000) :
    (memoryInit map).bitmap i = true := by
  rw [memoryInit_numFrames] at hi
  obtain ⟨htop, hidx⟩ := sized_lt hi
  refine reserveMapHoles_mono _ ?_
  have hout : ¬ (0xA00000 ≤ memoryStart ∨ (sized (detectedTop map)).poolTop ≤ 0x400000) := by
    simp only [memoryStart, sized] at htop ⊢
    omega
  rw [reserveRange, if_neg hout, setBits_bitmap]
  refine Bool.or_eq_true_iff.mpr (.inl (decide_eq_true ?_))
  have hfirst : firstFrame 0x400000 = 0 := by simp [firstFrame, memoryStart]
  have hlast : i < lastFrame (min 0xA00000 (detectedTop map)) := by
    simp only [frameAddr, lastFrame, memoryStart, frameSize] at haddr htop hidx ⊢
    omega
  have hmin : i < min (lastFrame (min 0xA00000 (detectedTop map)))
      (sized (detectedTop map)).numFrames := lt_min hlast hi
  rw [hfirst]
  exact ⟨Nat.zero_le i, by rwa [Nat.sub_zero, Nat.zero_add]⟩

end FramePool

end TownOS.Memory
