import TownOS.Memory.Frames
import TownOS.Foundations.Runs

/-!
The frames that are ever handed out, and the memory the boot loader reports.

The pool is one span from `MEMORY_START` to the highest available address, from which
the regions of other types are taken out. The callers of `kernel/memory.c` return
only frames they were given, so what is ever handed out is what `memory_init` leaves
free (`returned_iff`).

* `memoryInit_free_iff`: the frames it leaves free, in terms of the map;
* `only_usable_iff`: every frame ever handed out lies inside available regions and off
  all others exactly if the map has no gap that it does not report.
-/

namespace TownOS.Memory

open Runs

/-! ### Runs of the frame pool -/

/-- The calls of `kernel/memory.c`. -/
inductive FrameCall where
  | allocFrame
  | allocFramesContiguous (count : ℕ)
  | freeFrame (addr : ℕ)

/-- The pool, and the frames that are out. -/
structure Lent where
  pool : FramePool
  held : List ℕ

/-- The frames of a run of `count` from address `f` on. -/
def runFrames (f count : ℕ) : List ℕ := (List.range count).map fun j => f + j * frameSize

/-- One call, with the frames it hands out. A frame is returned by a caller that holds it. -/
def Lent.step : FrameCall → Lent → List ℕ × Lent
  | .allocFrame, s =>
    match s.pool.allocFrame with
    | (some f, p) => ([f], ⟨p, f :: s.held⟩)
    | (none, p) => ([], ⟨p, s.held⟩)
  | .allocFramesContiguous count, s =>
    match s.pool.allocFramesContiguous count with
    | (some f, p) => (runFrames f count, ⟨p, runFrames f count ++ s.held⟩)
    | (none, p) => ([], ⟨p, s.held⟩)
  | .freeFrame addr, s =>
    if addr ∈ s.held then ([], ⟨s.pool.freeFrame addr, s.held.erase addr⟩) else ([], s)

/-- The frames that a run of calls hands out. -/
def returned (calls : List FrameCall) (p : FramePool) : List ℕ :=
  (run Lent.step calls ⟨p, []⟩).1.flatten

/-- The address is that of a frame which is free in the pool `p`. -/
def FramePool.FreeAt (p : FramePool) (f : ℕ) : Prop :=
  ∃ i < p.numFrames, f = frameAddr i ∧ p.bitmap i = false

/-- What holds along a run from the pool `p`: only frames free in `p` are free or out. -/
structure Lent.Within (p : FramePool) (s : Lent) : Prop where
  numFrames : s.pool.numFrames = p.numFrames
  free : ∀ i < p.numFrames, s.pool.bitmap i = false → p.bitmap i = false
  held : ∀ f ∈ s.held, p.FreeAt f

section Runs

variable {p : FramePool} {s : Lent}

lemma runFrames_frameAddr (i count : ℕ) :
    runFrames (frameAddr i) count = (List.range count).map fun j => frameAddr (i + j) := by
  exact List.map_congr_left fun j _ => (frameAddr_add i j).symm

lemma freeAt_of_run {q : FramePool} {i count : ℕ} (h : s.Within p) (hq : s.pool = q)
    (hle : i + count ≤ q.numFrames) (hrun : q.Run i count) :
    ∀ f ∈ runFrames (frameAddr i) count, p.FreeAt f := by
  subst hq
  intro f hf
  rw [runFrames_frameAddr] at hf
  obtain ⟨j, hj, rfl⟩ := List.mem_map.mp hf
  rw [List.mem_range] at hj
  rw [h.numFrames] at hle
  exact ⟨i + j, by omega, rfl, h.free _ (by omega) (hrun j hj)⟩

/-- One call hands out frames that were free at the start, and keeps the invariant. -/
lemma Lent.Within.step (h : s.Within p) (c : FrameCall) :
    (∀ f ∈ (Lent.step c s).1, p.FreeAt f) ∧ (Lent.step c s).2.Within p := by
  cases c with
  | allocFrame =>
    rw [Lent.step]
    rcases hp : s.pool.allocFrame with ⟨_ | f, q⟩
    · obtain ⟨rfl, -⟩ := FramePool.allocFrame_none hp
      exact ⟨by simp, h⟩
    · obtain ⟨i, hi, hfree, -, rfl, rfl⟩ := FramePool.allocFrame_some hp
      have hf : p.FreeAt (frameAddr i) :=
        ⟨i, h.numFrames ▸ hi, rfl, h.free i (h.numFrames ▸ hi) hfree⟩
      refine ⟨by simpa using hf, h.numFrames, fun j hj hfree' => ?_, ?_⟩
      · refine h.free j hj ?_
        by_contra hne
        exact absurd hfree' (by simp [FramePool.setBit, hne])
      · exact List.forall_mem_cons.mpr ⟨hf, h.held⟩
  | allocFramesContiguous count =>
    rw [Lent.step]
    rcases hp : s.pool.allocFramesContiguous count with ⟨_ | f, q⟩
    · obtain ⟨rfl, -⟩ := FramePool.allocFramesContiguous_none hp
      exact ⟨by simp, h⟩
    · obtain ⟨i, hle, hrun, -, rfl, rfl, -⟩ := FramePool.allocFramesContiguous_some hp
      have hf := freeAt_of_run h rfl hle hrun
      refine ⟨hf, by simpa using h.numFrames, fun j hj hfree => ?_, ?_⟩
      · rw [FramePool.setBits_bitmap, Bool.or_eq_false_iff] at hfree
        exact h.free j hj hfree.2
      · intro f hmem
        exact (List.mem_append.mp hmem).elim (hf f) (h.held f)
  | freeFrame addr =>
    rw [Lent.step]
    split_ifs with hmem
    · obtain ⟨i, hi, rfl, hfree⟩ := h.held addr hmem
      rw [FramePool.freeFrame_frameAddr (h.numFrames.symm ▸ hi)]
      refine ⟨by simp, h.numFrames, fun j hj hfree' => ?_, fun f hf =>
        h.held f (List.mem_of_mem_erase hf)⟩
      by_cases hji : j = i
      · rw [hji]
        exact hfree
      · exact h.free j hj (by simpa [FramePool.clearBit, hji] using hfree')
    · exact ⟨by simp, h⟩

lemma Lent.Within.run (h : s.Within p) (calls : List FrameCall) :
    ∀ f ∈ (Runs.run Lent.step calls s).1.flatten, p.FreeAt f := by
  induction calls generalizing s with
  | nil => simp [Runs.run]
  | cons c calls ih =>
    intro f hf
    rw [Runs.run, List.flatten_cons, List.mem_append] at hf
    exact hf.elim ((h.step c).1 f) (ih (h.step c).2 f)

/-- The free frames below frame `i`. -/
def freeBelow (p : FramePool) (i : ℕ) : Finset ℕ :=
  (Finset.range i).filter fun j => p.bitmap j = false

lemma card_freeBelow_setBit {i j : ℕ} (hj : j < i) (hfree : p.bitmap j = false) :
    (freeBelow (p.setBit j) i).card < (freeBelow p i).card := by
  refine Finset.card_lt_card (Finset.ssubset_iff_of_subset ?_ |>.mpr ⟨j, ?_, ?_⟩)
  · intro k hk
    obtain ⟨hki, hkfree⟩ := Finset.mem_filter.mp hk
    refine Finset.mem_filter.mpr ⟨hki, ?_⟩
    by_contra hne
    exact absurd hkfree (by simp [FramePool.setBit, hne])
  · exact Finset.mem_filter.mpr ⟨Finset.mem_range.mpr hj, hfree⟩
  · simp [freeBelow, FramePool.setBit]

/-- `alloc_frame`, called often enough, hands out every free frame. -/
lemma exists_returned {i : ℕ} (hi : i < s.pool.numFrames) (hfree : s.pool.bitmap i = false) :
    ∃ calls, frameAddr i ∈ (Runs.run Lent.step calls s).1.flatten := by
  induction hn : (freeBelow s.pool i).card using Nat.strong_induction_on generalizing s with
  | _ n ih =>
    rcases hp : s.pool.allocFrame with ⟨_ | f, q⟩
    · exact absurd ((FramePool.allocFrame_none hp).2 i hi) (by simp [hfree])
    · have hstep : Lent.step .allocFrame s = ([f], ⟨q, f :: s.held⟩) := by
        rw [Lent.step, hp]
      obtain ⟨j, hj, hjfree, hlow, rfl, rfl⟩ := FramePool.allocFrame_some hp
      rcases Nat.lt_trichotomy i j with hlt | rfl | hgt
      · exact absurd (hlow i hlt) (by simp [hfree])
      · exact ⟨[.allocFrame], by rw [Runs.run, hstep]; simp⟩
      · have hlt := hn ▸ card_freeBelow_setBit hgt hjfree
        have hfree' : (s.pool.setBit j).bitmap i = false := by
          simpa [FramePool.setBit, hgt.ne'] using hfree
        obtain ⟨calls, hcalls⟩ := ih _ hlt (s := ⟨s.pool.setBit j, frameAddr j :: s.held⟩) hi hfree'
          rfl
        refine ⟨.allocFrame :: calls, ?_⟩
        rw [Runs.run, hstep, List.flatten_cons]
        exact List.mem_append_right _ hcalls

/-- What is ever handed out is what is free at the start. -/
lemma returned_iff {f : ℕ} : (∃ calls, f ∈ returned calls p) ↔ p.FreeAt f := by
  constructor
  · rintro ⟨calls, hf⟩
    exact Lent.Within.run ⟨rfl, fun _ _ h => h, by simp⟩ calls f hf
  · rintro ⟨i, hi, rfl, hfree⟩
    exact exists_returned (s := ⟨p, []⟩) hi hfree

end Runs

/-! ### The map -/

/-- A byte of memory belongs to a region of the map. -/
def MmapEntry.Covers (e : MmapEntry) (a : ℕ) : Prop := e.baseAddr ≤ a ∧ a < e.baseAddr + e.length

/-- The frame lies wholly inside regions that the map reports as available, and overlaps no
region of another type. -/
def Usable (map : List MmapEntry) (f : ℕ) : Prop :=
  (∀ a, f ≤ a → a < f + frameSize → ∃ e ∈ map, e.type = multibootMemoryAvailable ∧ e.Covers a) ∧
    ∀ a, f ≤ a → a < f + frameSize → ∀ e ∈ map, e.type ≠ multibootMemoryAvailable → ¬e.Covers a

/-- The range that `reserve_map_holes` computes for an entry meets the frame. -/
def MmapEntry.Meets (e : MmapEntry) (f : ℕ) : Prop := e.baseAddr < f + frameSize ∧ f < e.top

namespace FramePool

variable {p : FramePool} {i : ℕ}

/-- `reserve_range` marks the frames of the pool that the range meets. -/
lemma reserveRange_bitmap {s e : ℕ} (hi : i < p.numFrames)
    (htop : frameAddr i + frameSize ≤ p.poolTop) :
    (p.reserveRange s e).bitmap i = true ↔
      p.bitmap i = true ∨ (s < frameAddr i + frameSize ∧ frameAddr i < e) := by
  rw [reserveRange]
  split_ifs with hout
  · simp only [frameAddr, frameSize, memoryStart] at *
    constructor
    · exact .inl
    · rintro (h | h)
      · exact h
      · omega
  · rw [setBits_bitmap, Bool.or_eq_true_iff, decide_eq_true_eq, or_comm]
    refine or_congr_right ?_
    simp only [firstFrame, lastFrame, frameAddr, frameSize, memoryStart] at *
    omega

lemma reserveMapHoles_bitmap (map : List MmapEntry) (hi : i < p.numFrames)
    (htop : frameAddr i + frameSize ≤ p.poolTop) :
    (p.reserveMapHoles map).bitmap i = true ↔ p.bitmap i = true ∨
      ∃ e ∈ map, e.type ≠ multibootMemoryAvailable ∧ e.Meets (frameAddr i) := by
  induction map generalizing p with
  | nil => simp [reserveMapHoles]
  | cons e map ih =>
    rw [reserveMapHoles, List.foldl_cons]
    by_cases he : e.type ≠ multibootMemoryAvailable
    · rw [if_pos he]
      refine (ih (by simpa using hi) (by simpa using htop)).trans ?_
      rw [reserveRange_bitmap hi htop, List.exists_mem_cons_iff, or_assoc]
      simp only [he, ne_eq, not_false_eq_true, true_and, MmapEntry.Meets]
    · rw [if_neg he]
      refine (ih hi htop).trans ?_
      rw [List.exists_mem_cons_iff]
      simp only [he, false_and, false_or]

/-- A frame number is in the pool if its frame ends below the top of available memory and
below 1 GB. -/
lemma lt_numFrames_memoryInit (map : List MmapEntry) :
    i < (memoryInit (some map)).numFrames ↔
      frameAddr i + frameSize ≤ min (mmapTopOfRam map) oneGb := by
  rw [memoryInit_numFrames]
  have htop : detectedTop (some map) = min (mmapTopOfRam map) oneGb := by
    simp only [detectedTop, Option.map_some, Option.getD_some]
    split_ifs <;> omega
  rw [htop]
  simp only [sized]
  by_cases hlow : memoryStart < min (mmapTopOfRam map) oneGb
  · rw [if_pos hlow]
    simp only [maxFrames, frameAddr, frameSize, memoryStart, oneGb] at hlow ⊢
    omega
  · rw [if_neg hlow]
    simp only [maxFrames, frameAddr, frameSize, memoryStart, oneGb] at hlow ⊢
    omega

/-- The frames that `memory_init` leaves free: above the ring-3 slots, below the top of
available memory, and off the holes as they are computed. -/
lemma memoryInit_free_iff (map : List MmapEntry) (f : ℕ) :
    (memoryInit (some map)).FreeAt f ↔ frameSize ∣ f ∧ 0xA00000 ≤ f ∧
      f + frameSize ≤ min (mmapTopOfRam map) oneGb ∧
      ∀ e ∈ map, e.type ≠ multibootMemoryAvailable → ¬e.Meets f := by
  have hbit : ∀ i < (memoryInit (some map)).numFrames,
      (memoryInit (some map)).bitmap i = false ↔ 0xA00000 ≤ frameAddr i ∧
        ∀ e ∈ map, e.type ≠ multibootMemoryAvailable → ¬e.Meets (frameAddr i) := by
    intro i hi
    have htop := (lt_numFrames_memoryInit map).mp hi
    have hpool : frameAddr i + frameSize ≤ (sized (detectedTop (some map))).poolTop := by
      simp only [sized, detectedTop, Option.map_some, Option.getD_some]
      split_ifs <;> omega
    rw [memoryInit_numFrames] at hi
    rw [← Bool.not_eq_true, memoryInit, reserveMapHoles_bitmap _ (by simpa using hi)
      (by simpa using hpool), reserveRange_bitmap hi hpool]
    simp only [sized, Option.getD_some, Bool.false_eq_true, false_or, not_or, not_and, not_exists]
    refine and_congr_left fun _ => ?_
    simp only [frameAddr, frameSize, memoryStart]
    omega
  constructor
  · rintro ⟨i, hi, rfl, hfree⟩
    obtain ⟨hlow, hholes⟩ := (hbit i hi).mp hfree
    refine ⟨⟨0x400 + i, ?_⟩, hlow, (lt_numFrames_memoryInit map).mp hi, hholes⟩
    rw [frameAddr, memoryStart, frameSize]
    omega
  · rintro ⟨⟨k, rfl⟩, hlow, htop, hholes⟩
    have haddr : frameAddr (k - 0x400) = frameSize * k := by
      rw [frameAddr, memoryStart, frameSize] at *
      omega
    rw [← haddr] at hlow htop hholes ⊢
    have hi := (lt_numFrames_memoryInit map).mpr htop
    exact ⟨_, hi, rfl, (hbit _ hi).mpr ⟨hlow, hholes⟩⟩

end FramePool

/-! ### Only usable memory -/

/-- The map has no gap that it does not report: every byte of a frame above the ring-3 slots and
below the top of available memory, and of 1 GB, is in an available region and in no other, unless
the frame meets a hole as the code computes it. -/
def NoGap (map : List MmapEntry) : Prop :=
  ∀ a, 0xA00000 ≤ a → (a / frameSize + 1) * frameSize ≤ min (mmapTopOfRam map) oneGb →
    (∀ e ∈ map, e.type ≠ multibootMemoryAvailable → ¬e.Meets (a / frameSize * frameSize)) →
    (∃ e ∈ map, e.type = multibootMemoryAvailable ∧ e.Covers a) ∧
      ∀ e ∈ map, e.type ≠ multibootMemoryAvailable → ¬e.Covers a

/-- Frame by frame: without a gap, a frame that meets no hole is usable. -/
lemma noGap_iff {map : List MmapEntry} : NoGap map ↔
    ∀ f, frameSize ∣ f → 0xA00000 ≤ f → f + frameSize ≤ min (mmapTopOfRam map) oneGb →
      (∀ e ∈ map, e.type ≠ multibootMemoryAvailable → ¬e.Meets f) → Usable map f := by
  constructor
  · rintro h f ⟨n, rfl⟩ hlow htop hholes
    have hbyte : ∀ a, frameSize * n ≤ a → a < frameSize * n + frameSize → _ := fun a hlo hhi => by
      have hn : a / frameSize = n := by
        simp only [frameSize] at *
        omega
      refine h a (hlow.trans hlo) ?_ ?_
      · rwa [hn, Nat.add_one_mul, Nat.mul_comm]
      · rwa [hn, Nat.mul_comm]
    exact ⟨fun a hlo hhi => (hbyte a hlo hhi).1, fun a hlo hhi => (hbyte a hlo hhi).2⟩
  · intro h a hlow htop hholes
    rw [Nat.add_one_mul] at htop
    have hframe := h _ (Nat.dvd_mul_left _ _) (by simp only [frameSize] at *; omega) htop hholes
    have hlo : a / frameSize * frameSize ≤ a := Nat.div_mul_le_self a frameSize
    have hhi : a < a / frameSize * frameSize + frameSize := Nat.lt_div_mul_add (by decide)
    exact ⟨hframe.1 a hlo hhi, hframe.2 a hlo hhi⟩

/-- A region that does not wrap around is computed as it is. -/
lemma MmapEntry.Covers.meets {e : MmapEntry} {f a : ℕ} (h : e.Covers a)
    (hwrap : e.baseAddr + e.length < 2 ^ 64) (hlo : f ≤ a) (hhi : a < f + frameSize) :
    e.Meets f := by
  obtain ⟨h1, h2⟩ := h
  rw [MmapEntry.Meets, MmapEntry.top, Nat.mod_eq_of_lt hwrap]
  omega

/-- **What is handed out is usable exactly if the map reports its gaps.** For every map, every
frame ever handed out lies inside available regions and off the others if and only if the map
has no unreported gap. If no region wraps around the end of the address space, frames of other
regions at least are never handed out. -/
theorem only_usable_iff (map : List MmapEntry) :
    ((∀ calls, ∀ f ∈ returned calls (FramePool.memoryInit (some map)), Usable map f) ↔
      NoGap map) ∧
    ((∀ e ∈ map, e.baseAddr + e.length < 2 ^ 64) →
      ∀ calls, ∀ f ∈ returned calls (FramePool.memoryInit (some map)),
        ∀ a, f ≤ a → a < f + frameSize → ∀ e ∈ map, e.type ≠ multibootMemoryAvailable →
          ¬e.Covers a) := by
  rw [noGap_iff]
  refine ⟨⟨fun h f hdvd hlow htop hholes => ?_, fun h calls f hf => ?_⟩, ?_⟩
  · obtain ⟨calls, hf⟩ :=
      returned_iff.mpr ((FramePool.memoryInit_free_iff map f).mpr ⟨hdvd, hlow, htop, hholes⟩)
    exact h calls f hf
  · obtain ⟨hdvd, hlow, htop, hholes⟩ :=
      (FramePool.memoryInit_free_iff map f).mp (returned_iff.mp ⟨calls, hf⟩)
    exact h f hdvd hlow htop hholes
  · intro hwrap calls f hf a hlo hhi e he htype hcovers
    obtain ⟨-, -, -, hholes⟩ :=
      (FramePool.memoryInit_free_iff map f).mp (returned_iff.mp ⟨calls, hf⟩)
    exact hholes e he htype (hcovers.meets (hwrap e he) hlo hhi)

/-- One available region from 0 to 16 MB: all that is handed out is usable. -/
theorem only_usable_oneRegion :
    NoGap [⟨0, 0x1000000, 1⟩] ∧
      ∀ calls, ∀ f ∈ returned calls (FramePool.memoryInit (some [⟨0, 0x1000000, 1⟩])),
        Usable [⟨0, 0x1000000, 1⟩] f := by
  suffices hgap : NoGap [⟨0, 0x1000000, 1⟩] from ⟨hgap, (only_usable_iff _).1.mpr hgap⟩
  refine fun a _ htop _ => ⟨⟨_, List.mem_singleton_self _, rfl, Nat.zero_le a, ?_⟩, ?_⟩
  · have hmax : mmapTopOfRam [⟨0, 0x1000000, 1⟩] = 0x1000000 := by decide
    rw [hmax] at htop
    change a < 0 + 0x1000000
    simp only [frameSize] at htop
    omega
  · intro e he htype
    rw [List.mem_singleton.mp he] at htype
    exact absurd rfl htype

/-- A map with a gap between 10 and 11 MB that it does not report. -/
def gapMap : List MmapEntry := [⟨0, 0xA00000, 1⟩, ⟨0xB00000, 0x100000, 1⟩]

lemma returned_allocFrame {p q : FramePool} {f : ℕ} (h : p.allocFrame = (some f, q)) :
    returned [.allocFrame] p = [f] := by
  simp [returned, run, Lent.step, h]

/-- The first frame handed out lies in the gap. -/
theorem gap_handed_out :
    returned [.allocFrame] (FramePool.memoryInit (some gapMap)) = [0xA00000] ∧
      (∀ e ∈ gapMap, e.baseAddr + e.length < 2 ^ 64) ∧ ¬Usable gapMap 0xA00000 := by
  have hfree : (FramePool.memoryInit (some gapMap)).FreeAt 0xA00000 :=
    (FramePool.memoryInit_free_iff gapMap 0xA00000).mpr
      ⟨by decide, le_rfl, by decide, by simp [gapMap, multibootMemoryAvailable]⟩
  refine ⟨?_, by simp [gapMap], ?_⟩
  · obtain ⟨i, hi, haddr, hbit⟩ := hfree
    rcases hp : (FramePool.memoryInit (some gapMap)).allocFrame with ⟨_ | f, q⟩
    · exact absurd ((FramePool.allocFrame_none hp).2 i hi) (by simp [hbit])
    · obtain ⟨j, hj, hjbit, hlow, rfl, rfl⟩ := FramePool.allocFrame_some hp
      -- below 10 MB everything is reserved, and `i` is the first frame above
      have hge : 0xA00000 ≤ frameAddr j := by
        by_contra hlt
        exact absurd (FramePool.memoryInit_reserves _ hj (Nat.lt_of_not_le hlt)) (by simp [hjbit])
      have hle : j ≤ i := by
        by_contra hlt
        exact absurd (hlow i (Nat.lt_of_not_le hlt)) (by simp [hbit])
      have heq : frameAddr j = 0xA00000 := by
        simp only [frameAddr, frameSize, memoryStart] at *
        omega
      rw [returned_allocFrame hp, heq]
  · rintro ⟨hin, -⟩
    obtain ⟨e, he, -, hcovers⟩ := hin 0xA00000 le_rfl (by decide)
    simp only [gapMap, List.mem_cons, List.not_mem_nil, or_false] at he
    rcases he with rfl | rfl
    · exact absurd hcovers.2 (by decide)
    · exact absurd hcovers.1 (by decide)

end TownOS.Memory
