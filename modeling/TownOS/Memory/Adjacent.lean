import TownOS.Memory.Refusals
import TownOS.Memory.Usable

/-!
Where the kernel heap grows.

`el_append_pages_to_heap` takes the lowest run of free frames that is long enough, and refuses it
unless it begins at the end of the heap. The comment there says that the heap is the only consumer
of the frame allocator. It is not: page tables, loaded programs and `SYS_MMAP` take frames too, one
at a time and the lowest first, which is the frame at the end of the heap.

* `Owners`, `owners_step`: the slab of the heap and the frames of the others stay apart,
  and below the heap there is never a run that is long enough;
* `growth_adjacent_iff`: the heap grows exactly if the frames at its end are free;
* `growth_refused`: after one frame was taken, a request fails though there is memory for it.
-/

namespace TownOS.Memory

open Runs

/-! ### The users of the frames -/

/-- The kernel heap with the pool, and the frames the rest of the kernel holds. -/
structure FrameUsers where
  clients : KernelClients
  held : List ℕ

/-- A use of the heap proper. -/
def KernelUse.isHeap : KernelUse → Bool
  | .frames _ => false
  | _ => true

/-- What happens to the heap and to the frames. Tasks are created, programs are loaded and memory is
mapped by way of `alloc_frame`; exits, reaps and failures return frames with `free_frame`. -/
inductive FrameUse where
  | heap (u : KernelUse)
  | allocFrame
  | freeFrame (f : ℕ)

namespace FrameUsers

/-- One use. A frame is returned by the one who holds it. -/
def step (s : FrameUsers) : FrameUse → Option FrameUsers
  | .heap u => if u.isHeap then (s.clients.step u).map fun c => { s with clients := c } else none
  | .allocFrame =>
    let r := s.clients.pool.allocFrame
    some ⟨{ s.clients with pool := r.2 }, r.1.toList ++ s.held⟩
  | .freeFrame f =>
    if f ∈ s.held then
      some ⟨{ s.clients with pool := s.clients.pool.freeFrame f }, s.held.erase f⟩
    else none

/-- A kernel after `memory_init`, `heap_init` and some uses. -/
def Reachable (s : FrameUsers) : Prop :=
  ∃ map m ctl h pool us, ctl + sizeofCtl ≤ memoryStart ∧
    heapInit m ctl (FramePool.memoryInit map) = some (h, pool) ∧
    Runs.exec step ⟨⟨h, pool, []⟩, []⟩ us = some s

end FrameUsers

/-! ### Who has which frame -/

/-- The heap has the frames from `a` up to `b`, the others have other frames, and what is free was
free in the pool `p₀` at first. -/
structure Owners (p₀ : FramePool) (a b : ℕ) (s : FrameUsers) : Prop where
  start : s.clients.heap.heapStart = frameAddr a
  fin : s.clients.heap.heapEnd = frameAddr b
  slab : ∀ i, a ≤ i → i < b → s.clients.pool.bitmap i = true
  free : ∀ i, s.clients.pool.bitmap i = false → p₀.bitmap i = false
  nodup : s.held.Nodup
  held : ∀ f ∈ s.held, ∃ i < s.clients.pool.numFrames, f = frameAddr i ∧
    p₀.bitmap i = false ∧ s.clients.pool.bitmap i = true ∧ (i < a ∨ b ≤ i)

section Owners

variable {p₀ : FramePool} {a b : ℕ} {s s' : FrameUsers}

lemma Owners.congr (h : Owners p₀ a b s) {c : KernelClients} (hpool : c.pool = s.clients.pool)
    (hstart : c.heap.heapStart = s.clients.heap.heapStart)
    (hend : c.heap.heapEnd = s.clients.heap.heapEnd) : Owners p₀ a b { s with clients := c } where
  start := hstart.trans h.start
  fin := hend.trans h.fin
  slab := hpool ▸ h.slab
  free := hpool ▸ h.free
  nodup := h.nodup
  held := hpool ▸ h.held

/-- The heap grows at its end. -/
lemma Owners.grow (h : Owners p₀ a b s) {c : KernelClients} {n : ℕ}
    (hrun : s.clients.pool.Run b n) (hpool : c.pool = s.clients.pool.setBits b n)
    (hstart : c.heap.heapStart = s.clients.heap.heapStart)
    (hend : c.heap.heapEnd = frameAddr (b + n)) :
    Owners p₀ a (b + n) { s with clients := c } where
  start := hstart.trans h.start
  fin := hend
  slab := by
    intro i ha hb
    rw [hpool, FramePool.setBits_bitmap]
    by_cases hi : i < b
    · rw [h.slab i ha hi, Bool.or_true]
    · rw [decide_eq_true ⟨Nat.not_lt.mp hi, hb⟩, Bool.true_or]
  free := by
    intro i hi
    rw [hpool, FramePool.setBits_bitmap, Bool.or_eq_false_iff] at hi
    exact h.free i hi.2
  nodup := h.nodup
  held := by
    intro f hf
    obtain ⟨i, hlt, rfl, hfirst, htaken, hout⟩ := h.held f hf
    refine ⟨i, ?_, rfl, hfirst, ?_, hout.imp_right fun hle => ?_⟩
    · rwa [hpool, FramePool.setBits_numFrames]
    · rw [hpool, FramePool.setBits_bitmap, htaken, Bool.or_true]
    · -- the new frames were free, this one was not
      by_contra hin
      have hfree := hrun (i - b) (by omega)
      rw [Nat.add_sub_cancel' hle, htaken] at hfree
      cases hfree

lemma Owners.allocFrame (h : Owners p₀ a b s) (hstep : s.step .allocFrame = some s') :
    Owners p₀ a b s' := by
  obtain rfl := Option.some.inj hstep
  rcases hp : s.clients.pool.allocFrame with ⟨_ | f, p⟩
  · obtain ⟨rfl, -⟩ := FramePool.allocFrame_none hp
    exact h
  · obtain ⟨i, hi, hfree, -, rfl, rfl⟩ := FramePool.allocFrame_some hp
    have hbit : ∀ j, (s.clients.pool.setBit i).bitmap j = if j = i then true else
        s.clients.pool.bitmap j := fun _ => rfl
    have hkept : ∀ j, s.clients.pool.bitmap j = true →
        (s.clients.pool.setBit i).bitmap j = true := by
      intro j hj
      rw [hbit, hj, ite_self]
    refine ⟨h.start, h.fin, fun j ha hb => hkept j (h.slab j ha hb), fun j hj => ?_, ?_, ?_⟩
    · have hne : j ≠ i := by
        rintro rfl
        rw [hbit, if_pos rfl] at hj
        cases hj
      exact h.free j (by rwa [hbit, if_neg hne] at hj)
    · refine List.nodup_cons.mpr ⟨fun hmem => ?_, h.nodup⟩
      obtain ⟨j, -, heq, -, htaken, -⟩ := h.held _ hmem
      rw [← frameAddr_inj heq, hfree] at htaken
      cases htaken
    · intro f hf
      obtain rfl | hf := List.mem_cons.mp hf
      · refine ⟨i, hi, rfl, h.free i hfree, by rw [hbit, if_pos rfl], ?_⟩
        by_contra hin
        rw [h.slab i (by omega) (by omega)] at hfree
        cases hfree
      · obtain ⟨j, hj, rfl, hfirst, htaken, hout⟩ := h.held f hf
        exact ⟨j, hj, rfl, hfirst, hkept j htaken, hout⟩

lemma Owners.freeFrame {f : ℕ} (h : Owners p₀ a b s) (hstep : s.step (.freeFrame f) = some s') :
    Owners p₀ a b s' := by
  obtain ⟨hf, rfl⟩ := guarded hstep
  obtain ⟨i, hi, rfl, hfirst, -, hout⟩ := h.held f hf
  have hbit : ∀ j, j ≠ i → (s.clients.pool.freeFrame (frameAddr i)).bitmap j =
      s.clients.pool.bitmap j := by
    intro j hj
    rw [FramePool.freeFrame_frameAddr hi]
    exact if_neg hj
  refine ⟨h.start, h.fin, fun j ha hb => ?_, fun j hj => ?_, h.nodup.erase _, fun g hg => ?_⟩
  · rw [hbit j (by omega)]
    exact h.slab j ha hb
  · by_cases hji : j = i
    · rwa [hji]
    · exact h.free j (by rwa [hbit j hji] at hj)
  · obtain ⟨hne, hg⟩ := h.nodup.mem_erase_iff.mp hg
    obtain ⟨j, hj, rfl, hgfirst, htaken, hgout⟩ := h.held g hg
    refine ⟨j, ?_, rfl, hgfirst, ?_, hgout⟩
    · rwa [FramePool.freeFrame_numFrames]
    · rwa [hbit j fun hji => hne (congrArg frameAddr hji)]

/-- The heap and the pool stay, or the heap grows by a run at its end. -/
lemma kmallocGrow_grown {h : Heap} {p : FramePool} {bs : List Block} {npages : ℕ} (hr : Rep h bs)
    (hp : p.numFrames ≤ maxFrames) (hn : elBlockOverhead ≤ npages * elPageBytes) (size : ℕ) :
    ((kmallocGrow h p size npages).2.2 = p ∧
        (kmallocGrow h p size npages).2.1.heapEnd = h.heapEnd) ∨
      (p.allocFramesContiguous npages = (some h.heapEnd, (kmallocGrow h p size npages).2.2) ∧
        (kmallocGrow h p size npages).2.1.heapEnd = h.heapEnd + npages * elPageBytes) := by
  by_cases hrun : (p.allocFramesContiguous npages).1 = some h.heapEnd
  · obtain ⟨-, hheap, hpool⟩ := kmallocGrow_of_eq size hrun
    refine .inr ⟨Prod.ext hrun hpool.symm, ?_⟩
    have hlt := contiguous_le_oneGb hp hrun
    obtain ⟨bs', hr', -⟩ := hr.extend hn (hlt.trans_lt oneGb_lt)
    rw [hheap, hr'.malloc_heapEnd size, hr.extend_heapEnd hn hlt]
  · rw [kmallocGrow_of_ne hrun]
    exact .inl ⟨rfl, rfl⟩

lemma kmalloc_grown {h : Heap} {p : FramePool} {bs : List Block} (hr : Rep h bs)
    (hp : p.numFrames ≤ maxFrames) (size : ℕ) :
    ((kmalloc h p size).2.2 = p ∧ (kmalloc h p size).2.1.heapEnd = h.heapEnd) ∨
      (p.allocFramesContiguous (growPages size) = (some h.heapEnd, (kmalloc h p size).2.2) ∧
        (kmalloc h p size).2.1.heapEnd = h.heapEnd + growPages size * elPageBytes) := by
  obtain ⟨hnone, -⟩ | ⟨l, x, r, rfl, -, -, hsome, -, hstays⟩ := hr.malloc size
  · rw [kmalloc_of_none hnone]
    exact kmallocGrow_grown hr hp (overhead_le_growth size) size
  · refine .inl ?_
    rw [kmalloc, hsome]
    exact ⟨rfl, hstays.fin⟩

/-- **The heap and the others keep to their frames.** -/
theorem owners_step {u : FrameUse} (hs : s.clients.Sound) (h : Owners p₀ a b s)
    (hstep : s.step u = some s') : s'.clients.Sound ∧ ∃ b', Owners p₀ a b' s' := by
  cases u with
  | allocFrame =>
    refine ⟨?_, b, h.allocFrame hstep⟩
    obtain rfl := Option.some.inj hstep
    exact ⟨hs.serves, (FramePool.allocFrame_numFrames _).le.trans hs.frames, hs.nonempty⟩
  | freeFrame f =>
    refine ⟨?_, b, h.freeFrame hstep⟩
    obtain ⟨-, rfl⟩ := guarded hstep
    exact ⟨hs.serves, (FramePool.freeFrame_numFrames _ _).le.trans hs.frames, hs.nonempty⟩
  | heap u =>
    simp only [FrameUsers.step] at hstep
    split_ifs at hstep with hu
    obtain ⟨c, hc, rfl⟩ := Option.map_eq_some_iff.mp hstep
    refine ⟨KernelClients.sound_step hs hc, ?_⟩
    obtain ⟨⟨bs, hserves⟩, hframes, -⟩ := hs
    cases u with
    | kmalloc size =>
      obtain ⟨-, rfl⟩ := guarded hc
      obtain ⟨ha, -⟩ := hserves.kmalloc hframes size
      obtain ⟨-, hstart, -⟩ := ha.place
      obtain ⟨hpool, hend⟩ | ⟨hrun, hend⟩ := kmalloc_grown hserves.rep hframes size
      · exact ⟨b, h.congr hpool hstart hend⟩
      · obtain ⟨t, -, hfree, -, haddr, hpool, -⟩ := FramePool.allocFramesContiguous_some hrun
        obtain rfl := frameAddr_inj (h.fin.symm.trans haddr)
        refine ⟨_, h.grow hfree hpool hstart ?_⟩
        rw [hend, h.fin, frameAddr_add]
        rfl
    | kfree ptr =>
      obtain ⟨hptr, rfl⟩ := guarded hc
      obtain ⟨bs', hs', -, -, hstart, hend, -⟩ := hserves.free hptr
      exact ⟨b, h.congr rfl hstart hend⟩
    | write addr v =>
      obtain ⟨-, rfl⟩ := guarded hc
      exact ⟨b, h.congr rfl rfl rfl⟩
    | elsewhere addr v =>
      obtain ⟨-, rfl⟩ := guarded hc
      exact ⟨b, h.congr rfl rfl rfl⟩
    | frames pool => cases hu

/-- What `heap_init` leaves: no run as long as the slab begins below it. -/
lemma owners_init {m : ℕ → UInt8} {ctl : ℕ} {p pool : FramePool} {h : Heap}
    (hinit : heapInit m ctl p = some (h, pool)) :
    ∃ a, (∀ t < a, ¬ p.Run t heapInitialPages) ∧
      Owners p a (a + heapInitialPages) ⟨⟨h, pool, []⟩, []⟩ := by
  rw [heapInit] at hinit
  split at hinit
  · cases hinit
  · rename_i heap q ha
    obtain ⟨rfl, rfl⟩ := Prod.mk.inj (Option.some.inj hinit)
    obtain ⟨a, -, -, hlow, rfl, rfl, -⟩ := FramePool.allocFramesContiguous_some ha
    refine ⟨a, hlow, rfl, ?_, fun i hi hlt => ?_, fun i hi => ?_, List.nodup_nil, by simp⟩
    · rw [elInit_heapEnd, frameAddr_add]
      rfl
    · rw [FramePool.setBits_bitmap, decide_eq_true ⟨hi, hlt⟩, Bool.true_or]
    · rw [FramePool.setBits_bitmap, Bool.or_eq_false_iff] at hi
      exact hi.2

/-- Every kernel that is reached has the heap in one piece, and no run below it in which it could
grow. -/
lemma FrameUsers.Reachable.owners (hs : s.Reachable) :
    s.clients.Sound ∧ ∃ p₀ a b, (∀ t < a, ¬ p₀.Run t heapInitialPages) ∧ Owners p₀ a b s := by
  obtain ⟨map, m, ctl, h, pool, us, hctl, hinit, hrun⟩ := hs
  obtain ⟨a, hlow, howners⟩ := owners_init hinit
  have hsound := KernelClients.sound_init hctl (FramePool.memoryInit_le_maxFrames map) hinit
  have hkeep := exec_preserves (I := fun s => s.clients.Sound ∧ ∃ b, Owners _ a b s)
    (fun _ _ _ hs hstep => let ⟨hs, b, h⟩ := hs; owners_step hs h hstep) hrun ⟨hsound, _, howners⟩
  obtain ⟨hsound, b, howners⟩ := hkeep
  exact ⟨hsound, _, a, b, hlow, howners⟩

end Owners

/-! ### Growth -/

section Growth

variable {s : FrameUsers} {size : ℕ}

/-- The frames of `n` pages from an address on are free. -/
def FramePool.FreeFrom (p : FramePool) (addr n : ℕ) : Prop :=
  ∀ j < n, p.FreeAt (addr + j * frameSize)

/-- A run that is long enough for the heap to grow begins at its end or above. -/
lemma Owners.le_run {p₀ : FramePool} {a b t n : ℕ} (h : Owners p₀ a b s)
    (hlow : ∀ t < a, ¬ p₀.Run t heapInitialPages) (hn : heapGrowPages ≤ n)
    (hrun : s.clients.pool.Run t n) : b ≤ t := by
  have hge : a ≤ t := by
    by_contra hlt
    exact hlow t (Nat.not_le.mp hlt) fun j hj => h.free _ (hrun j (hj.trans_le hn))
  by_contra hlt
  have hfree := hrun 0 (Nat.lt_of_lt_of_le (by decide) hn)
  rw [Nat.add_zero, h.slab t hge (Nat.not_le.mp hlt)] at hfree
  cases hfree

/-- **When the heap can grow.** In every kernel that is reached, and for every request for which the
heap has to grow: a run of frames that is found begins at the end of the heap, and the request fails
only for want of such a run, exactly if there is no run at all or the frames at the end of the heap
are free and as many as the request needs. -/
theorem growth_adjacent_iff (hs : s.Reachable) (_ : size < 2 ^ 64)
    (_ : (elMalloc s.clients.heap size).1 = none) :
    ((∀ f, (s.clients.pool.allocFramesContiguous (growPages size)).1 = some f →
        f = s.clients.heap.heapEnd) ∧
      ((kmalloc s.clients.heap s.clients.pool size).1 = none →
        (s.clients.pool.allocFramesContiguous (growPages size)).1 = none)) ↔
      (s.clients.pool.allocFramesContiguous (growPages size)).1 = none ∨
        s.clients.pool.FreeFrom s.clients.heap.heapEnd (growPages size) ∧ Covers size := by
  obtain ⟨⟨⟨bs, hserves⟩, hframes, -⟩, p₀, a, b, hlow, howners⟩ := hs.owners
  have hrep := hserves.rep
  rcases ha : s.clients.pool.allocFramesContiguous (growPages size) with ⟨_ | f, p⟩
  · exact ⟨fun _ => .inl rfl, fun _ => ⟨nofun, fun _ => rfl⟩⟩
  · obtain ⟨t, hle, hrun, hfirst, rfl, -, -⟩ := FramePool.allocFramesContiguous_some ha
    have hbt := howners.le_run hlow (heapGrowPages_le_growPages size) hrun
    have hfin := howners.fin
    have hat : frameAddr t = s.clients.heap.heapEnd →
        (s.clients.pool.allocFramesContiguous (growPages size)).1 = some s.clients.heap.heapEnd :=
      fun heq => by rw [ha, heq]
    simp only [reduceCtorEq, false_or, Option.some.injEq, imp_false, forall_eq']
    constructor
    · rintro ⟨heq, hserved⟩
      refine ⟨fun j hj => ?_, ?_⟩
      · refine ⟨t + j, by omega, ?_, hrun j hj⟩
        rw [← heq, frameAddr_add]
      · by_contra hcov
        exact hserved (kmalloc_costs hrep hframes hcov (hat heq)).1
    · rintro ⟨hfree, hcov⟩
      -- the frames at the end of the heap are the lowest run
      have hend : s.clients.pool.Run b (growPages size) := by
        intro j hj
        obtain ⟨i, -, haddr, hbit⟩ := hfree j hj
        rw [hfin, ← frameAddr_add] at haddr
        rwa [frameAddr_inj haddr]
      have hle : t ≤ b := by
        by_contra hlt
        exact hfirst b (Nat.not_le.mp hlt) hend
      have heq : frameAddr t = s.clients.heap.heapEnd := by rw [hfin, Nat.le_antisymm hle hbt]
      exact ⟨heq, kmalloc_ne_none hrep hframes hcov (hat heq)⟩

end Growth

/-! ### A kernel with 16 MB -/

/-- Of `n` frames the first `k` are taken. -/
def FramePool.Filled (p : FramePool) (k n : ℕ) : Prop :=
  p.numFrames = n ∧ ∀ i < n, p.bitmap i = decide (i < k)

section Filled

variable {p : FramePool} {k n count : ℕ}

/-- The next frame is the one after those that are taken. -/
lemma FramePool.Filled.allocFrame (h : p.Filled k n) (hk : k < n) :
    ∃ q, p.allocFrame = (some (frameAddr k), q) ∧ q.Filled (k + 1) n := by
  rcases hp : p.allocFrame with ⟨_ | f, q⟩
  · have hfull := (allocFrame_none hp).2 k (h.1.symm ▸ hk)
    rw [h.2 k hk, decide_eq_false (lt_irrefl k)] at hfull
    cases hfull
  · obtain ⟨i, hi, hfree, hlow, rfl, rfl⟩ := allocFrame_some hp
    rw [h.1] at hi
    have hik : i = k := by
      have hge : ¬ i < k := by simpa [h.2 i hi] using hfree
      by_contra hne
      have hlt := hlow k (by omega)
      rw [h.2 k hk, decide_eq_false (lt_irrefl k)] at hlt
      cases hlt
    subst hik
    refine ⟨_, rfl, h.1, fun j hj => ?_⟩
    by_cases hji : j = i
    · rw [decide_eq_true (by omega)]
      exact if_pos hji
    · rw [decide_eq_decide.mpr (show j < i + 1 ↔ j < i by omega), ← h.2 j hj]
      exact if_neg hji

lemma FramePool.Filled.allocFramesContiguous (h : p.Filled k n) (hcount : 0 < count)
    (hk : k + count ≤ n) :
    ∃ q, p.allocFramesContiguous count = (some (frameAddr k), q) ∧ q.Filled (k + count) n := by
  have hrun : p.Run k count := by
    intro j hj
    rw [h.2 _ (by omega), decide_eq_false (by omega)]
  rcases hp : p.allocFramesContiguous count with ⟨_ | f, q⟩
  · exact absurd hrun ((allocFramesContiguous_none hp).2 hcount.ne' k (h.1.symm ▸ hk))
  · obtain ⟨t, ht, hfree, hlow, rfl, rfl, -⟩ := allocFramesContiguous_some hp
    have htk : t = k := by
      rw [h.1] at ht
      have hge : ¬ t < k := by simpa [h.2 t (by omega)] using hfree 0 hcount
      by_contra hne
      exact hlow k (by omega) hrun
    subst htk
    refine ⟨_, rfl, (setBits_numFrames p t count).trans h.1, fun j hj => ?_⟩
    rw [setBits_bitmap, h.2 j hj, ← Bool.decide_or, decide_eq_decide]
    omega

end Filled

/-- A memory map with 16 MB. -/
def smallMap : List MmapEntry := [⟨0, 0x1000000, multibootMemoryAvailable⟩]

/-- The pool of 16 MB: the frames below 10 MB are reserved. -/
lemma filled_smallMap : (FramePool.memoryInit (some smallMap)).Filled 1536 3072 := by
  have htop : min (mmapTopOfRam smallMap) oneGb = 0x1000000 := by decide
  have hnum : (FramePool.memoryInit (some smallMap)).numFrames = 3072 := by
    rw [FramePool.memoryInit_numFrames]
    decide
  refine ⟨hnum, fun i hi => ?_⟩
  have hfree : (FramePool.memoryInit (some smallMap)).bitmap i = false ↔
      (FramePool.memoryInit (some smallMap)).FreeAt (frameAddr i) := by
    refine ⟨fun hbit => ⟨i, hnum.symm ▸ hi, rfl, hbit⟩, ?_⟩
    rintro ⟨j, -, heq, hbit⟩
    rwa [frameAddr_inj heq]
  have hlow : (FramePool.memoryInit (some smallMap)).FreeAt (frameAddr i) ↔ 1536 ≤ i := by
    rw [FramePool.memoryInit_free_iff, htop]
    simp only [smallMap, List.mem_singleton, forall_eq, ne_eq, not_true_eq_false, false_imp_iff,
      and_true, frameAddr, frameSize, memoryStart]
    omega
  rw [hlow] at hfree
  by_cases hk : i < 1536
  · rw [decide_eq_true hk]
    exact Bool.eq_true_of_not_eq_false fun hbit => absurd (hfree.mp hbit) (by omega)
  · rw [decide_eq_false hk]
    exact hfree.mpr (by omega)

lemma Rep.malloc_none_of_lt {h : Heap} {bs : List Block} {n : ℕ} (hr : Rep h bs)
    (hn : h.heapEnd < h.heapStart + n) : elMalloc h n = (none, h) := by
  obtain ⟨hnone, -⟩ | ⟨l, x, r, rfl, -, hle, -⟩ := hr.malloc n
  · exact hnone
  · obtain ⟨ls, hs⟩ := hr.shape
    have hbounds := hs.bounds (show x ∈ l ++ x :: r by simp)
    simp only [Block.fin, elBlockOverhead] at hbounds
    omega

/-- `heap_init` with 16 MB: the heap is right above 10 MB. -/
lemma exists_smallKernel : ∃ s : FrameUsers, s.Reachable ∧
    s.clients.heap.heapStart = frameAddr 1536 ∧ s.clients.heap.heapEnd = frameAddr 1552 ∧
    s.clients.pool.Filled 1552 3072 := by
  obtain ⟨q, ha, hfilled⟩ := filled_smallMap.allocFramesContiguous
    (show 0 < heapInitialPages by decide) (by decide)
  refine ⟨⟨⟨elInit (fun _ => 0) 0x100000 (frameAddr 1536) (heapInitialPages * elPageBytes), q, []⟩,
    []⟩, ⟨some smallMap, fun _ => 0, 0x100000, _, _, [], by decide, ?_, rfl⟩, rfl, rfl, hfilled⟩
  rw [heapInit, ha]

/-- Right after `heap_init` the heap can grow for a request of 100000 bytes. -/
theorem growth_adjacent_smallKernel : ∃ s : FrameUsers, s.Reachable ∧
    (elMalloc s.clients.heap 100000).1 = none ∧
    (∀ f, (s.clients.pool.allocFramesContiguous (growPages 100000)).1 = some f →
      f = s.clients.heap.heapEnd) ∧
    ((kmalloc s.clients.heap s.clients.pool 100000).1 = none →
      (s.clients.pool.allocFramesContiguous (growPages 100000)).1 = none) := by
  obtain ⟨s, hs, hstart, hend, hnum, hbit⟩ := exists_smallKernel
  have hpages : growPages 100000 = 25 := by decide +kernel
  obtain ⟨⟨⟨bs, hserves⟩, -⟩, -⟩ := hs.owners
  have hnone : elMalloc s.clients.heap 100000 = (none, s.clients.heap) :=
    hserves.rep.malloc_none_of_lt (by rw [hstart, hend]; decide)
  refine ⟨s, hs, by rw [hnone], (growth_adjacent_iff hs (by norm_num) (by rw [hnone])).mpr
    (.inr ⟨fun j hj => ⟨1552 + j, ?_, ?_, ?_⟩, covers_of_lt (by norm_num)⟩)⟩
  · omega
  · rw [hend, frameAddr_add]
  · rw [hbit _ (by omega), decide_eq_false (by omega)]

/-- One frame is taken, as the first page table of the first task would be. From then on the heap
cannot grow, though 1519 frames are free: `kmalloc` of 100000 bytes returns NULL. -/
theorem growth_refused : ∃ s : FrameUsers, s.Reachable ∧
    (elMalloc s.clients.heap 100000).1 = none ∧
    (s.clients.pool.allocFramesContiguous (growPages 100000)).1 =
      some (s.clients.heap.heapEnd + frameSize) ∧
    (kmalloc s.clients.heap s.clients.pool 100000).1 = none := by
  obtain ⟨s, hs, hstart, hend, hfilled⟩ := exists_smallKernel
  obtain ⟨q, ha, hfilled⟩ := hfilled.allocFrame (by norm_num)
  have hpages : growPages 100000 = 25 := by decide +kernel
  obtain ⟨q', hrun, -⟩ := hfilled.allocFramesContiguous (show 0 < 25 by norm_num) (by norm_num)
  obtain ⟨⟨⟨bs, hserves⟩, -⟩, -⟩ := hs.owners
  have hnone : elMalloc s.clients.heap 100000 = (none, s.clients.heap) :=
    hserves.rep.malloc_none_of_lt (by rw [hstart, hend]; decide)
  obtain ⟨map, m, ctl, h, pool, us, hctl, hinit, hexec⟩ := hs
  have hs' : FrameUsers.Reachable ⟨{ s.clients with pool := q }, frameAddr 1552 :: s.held⟩ := by
    refine ⟨map, m, ctl, h, pool, us ++ [.allocFrame], hctl, hinit, ?_⟩
    rw [exec_concat, hexec, Option.bind_some, FrameUsers.step, ha]
    rfl
  refine ⟨_, hs', by rw [hnone], ?_, ?_⟩
  · rw [hpages, hrun, hend]
    rfl
  · rw [kmalloc_of_none hnone, hpages, kmallocGrow_of_ne]
    rw [hrun, hend]
    intro heq
    have := frameAddr_inj (Option.some.inj heq)
    omega

end TownOS.Memory
