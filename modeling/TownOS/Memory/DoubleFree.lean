import TownOS.Memory.Clients

/-!
A pointer that is freed twice.

`el_free` looks at the header in front of the pointer and goes on only if it says that the block
is used. After the first `free` the header may be gone: the block has been merged with one below
it, and the header is a part of that block's payload. Nobody writes there as long as nothing is
allocated: the merges write the tags of the blocks that remain, and clients write to the payloads
of used blocks. So the header still says that the block is available.

* `Marked`: the header of a block that was freed, in a heap that serves some pointers;
* `Marked.free`, `Marked.setByte`: what happens between two allocations leaves the mark;
* `double_free_caught`: freeing the pointer once more changes nothing.
-/

namespace TownOS.Memory

open Bytes Runs

/-- The block with its header at `a` has been freed, and the heap serves the pointers that are
still live. -/
def Marked (h : Heap) (live : List ℕ) (a : ℕ) : Prop := ∃ bs, Serves h bs live ∧ Stale h bs a

section Marked

variable {h : Heap} {bs : List Block} {live : List ℕ} {a p i : ℕ}

/-- `el_free` does not take a block whose header says that it is available. -/
lemma Marked.caught (hm : Marked h live a) : elFree h (a + sizeofHead) = h := by
  obtain ⟨bs, -, hstale⟩ := hm
  have hne : a + sizeofHead ≠ 0 := by
    rw [sizeofHead]
    omega
  rw [elFree, if_neg hne, Nat.add_sub_cancel, elFreeBlock, hstale.state, if_pos (by decide)]

/-- Freeing a live pointer marks its block and leaves the marks that are there. -/
lemma Marked.free (hm : Marked h live a) (hp : p ∈ live) :
    Marked (elFree h p) (live.erase p) a := by
  obtain ⟨bs, hserves, hstale⟩ := hm
  obtain ⟨bs', hserves', -, -, -, -, -, hkeep⟩ := hserves.free hp
  exact ⟨bs', hserves', hkeep a (.inl hstale)⟩

lemma Serves.marked (hs : Serves h bs live) (hp : p ∈ live) :
    Marked (elFree h p) (live.erase p) (p - sizeofHead) := by
  obtain ⟨b, hb, -, rfl⟩ := hs.block hp
  obtain ⟨bs', hserves', -, -, -, -, -, hkeep⟩ := hs.free hp
  exact ⟨bs', hserves', hkeep _ (.inr (Nat.sub_add_cancel (Nat.le_add_left ..)))⟩

/-- A byte that is neither a tag nor in an available block. -/
lemma Stale.setByte (hstale : Stale h bs a) (hs : Serves h bs live) (hi : ¬ Tags h bs i)
    (hout : ∀ b ∈ bs, b.state = elAvailable → ¬ (b.payload ≤ i ∧ i < b.payload + b.size))
    (v : UInt8) : Marked (h.setMem (setByte h.mem i v)) live a := by
  have hs' := hs.setMem (setByte_untagged hi v)
  obtain ⟨ls, hshape⟩ := hs'.rep.shape
  obtain ⟨hstate, b, hb, hav, rfl | hin⟩ := hstale
  · exact ⟨bs, hs', hshape.stale_self hb hav⟩
  · refine ⟨bs, hs', ?_, b, hb, hav, .inr hin⟩
    have hne : a + 8 ≠ i := by
      rintro rfl
      exact hout b hb hav hin
    exact (setByte_of_ne hne).trans hstate

lemma Marked.write (hm : Marked h live a) (hp : p ∈ live) (hi : InPayload h p i) (v : UInt8) :
    Marked (h.setMem (setByte h.mem i v)) live a := by
  obtain ⟨bs, hs, hstale⟩ := hm
  refine hstale.setByte hs (hs.untagged hp hi) (fun b hb hav hin => ?_) v
  obtain ⟨c, hc, hused, rfl⟩ := hs.block hp
  obtain ⟨ls, hshape⟩ := hs.rep.shape
  rw [InPayload, hs.rep.payloadSize_eq hc] at hi
  -- the two blocks are apart, one being used and the other available
  obtain rfl | hle | hle := hshape.tiles.apart Block.addr_lt_fin hb hc
  · exact absurd (hav.symm.trans hused) (by decide)
  · simp only [Block.payload, Block.fin, sizeofHead, elBlockOverhead] at hle hi hin
    omega
  · simp only [Block.payload, Block.fin, sizeofHead, elBlockOverhead] at hle hi hin
    omega

lemma Marked.elsewhere (hm : Marked h live a) (hi : h.Outside i) (v : UInt8) :
    Marked (h.setMem (setByte h.mem i v)) live a := by
  obtain ⟨bs, hs, hstale⟩ := hm
  refine hstale.setByte hs (hs.untagged_outside hi) (fun b hb _ hin => ?_) v
  obtain ⟨ls, hshape⟩ := hs.rep.shape
  have hbounds := hshape.bounds hb
  obtain ⟨-, hout⟩ := hi
  simp only [Block.payload, Block.fin, sizeofHead, elBlockOverhead] at hbounds hin
  omega

end Marked

/-! ### Uses without an allocation -/

/-- A use of the kernel heap that asks for memory. -/
def KernelUse.allocates : KernelUse → Bool
  | .kmalloc _ => true
  | _ => false

/-- A use of a program's heap that asks for memory. -/
def ProgramUse.allocates : ProgramUse → Bool
  | .malloc .. => true
  | .calloc .. => true
  | _ => false

/-- One use of the kernel heap that is no allocation leaves the mark. -/
lemma KernelClients.marked_step {s s' : KernelClients} {u : KernelUse} {a : ℕ}
    (hm : Marked s.heap s.live a) (hu : u.allocates = false) (hstep : s.step u = some s') :
    Marked s'.heap s'.live a := by
  cases u with
  | kmalloc size => cases hu
  | kfree ptr =>
    obtain ⟨hptr, rfl⟩ := guarded hstep
    exact hm.free hptr
  | write addr v =>
    obtain ⟨hin, rfl⟩ := guarded hstep
    obtain ⟨p, hp, hin⟩ := hin
    exact hm.write hp hin v
  | elsewhere addr v =>
    obtain ⟨hout, rfl⟩ := guarded hstep
    exact hm.elsewhere hout v
  | frames pool =>
    obtain ⟨-, rfl⟩ := guarded hstep
    exact hm

/-- What is carried along in a program: its heap is there, nobody holds NULL, and the block is
marked. -/
structure Program.Marks (s : Program) (a : ℕ) : Prop where
  sound : s.Sound
  built : s.heap.initialised = true
  marked : Marked s.heap.heap s.live a

lemma free_of_ne_zero {u : UserHeap} {p : ℕ} (hp : p ≠ 0) :
    free u p = { u with heap := elFree u.heap p } := if_neg hp

/-- One use of a program's heap that is no allocation leaves the mark. -/
lemma Program.marks_step {s s' : Program} {u : ProgramUse} {a : ℕ} (hm : s.Marks a)
    (hu : u.allocates = false) (hstep : s.step u = some s') : s'.Marks a := by
  have hsound := sound_step hm.sound hstep
  cases u with
  | malloc slab mapped size => cases hu
  | calloc slab mapped count size => cases hu
  | free ptr =>
    obtain ⟨hc, rfl⟩ := guarded hstep
    by_cases hp : ptr ∈ s.live
    · have heq := free_of_ne_zero (u := s.heap) (hm.sound.live_ne_zero hp)
      rw [heq] at hsound ⊢
      exact ⟨hsound, hm.built, hm.marked.free hp⟩
    · obtain rfl := hc.resolve_right hp
      rw [Memory.free, if_pos rfl, List.erase_of_not_mem hp]
      exact hm
  | write addr v =>
    obtain ⟨hc, rfl⟩ := guarded hstep
    obtain ⟨p, hp, hin⟩ := hc
    exact ⟨hsound, hm.built, hm.marked.write hp hin v⟩
  | elsewhere addr v =>
    obtain ⟨hc, rfl⟩ := guarded hstep
    have hout := hc.resolve_left (by simp [hm.built])
    exact ⟨hsound, hm.built, hm.marked.elsewhere hout v⟩

/-! ### Main result -/

/-- **A second `free` is caught**, in the kernel and in ring 3: whatever is freed and written after
the first one, as long as nothing is allocated, the heap stays as it is. -/
theorem double_free_caught :
    (∀ (s s₁ s₂ : KernelClients) (p : ℕ) (us : List KernelUse), s.Reachable → p ∈ s.live →
      s.step (.kfree p) = some s₁ → Runs.exec KernelClients.step s₁ us = some s₂ →
      (∀ u ∈ us, u.allocates = false) → kfree s₂.heap p = s₂.heap) ∧
    ∀ (s s₁ s₂ : Program) (p : ℕ) (us : List ProgramUse), s.Reachable → p ∈ s.live →
      s.step (.free p) = some s₁ → Runs.exec Program.step s₁ us = some s₂ →
      (∀ u ∈ us, u.allocates = false) → free s₂.heap p = s₂.heap := by
  constructor
  · intro s s₁ s₂ p us hs hp hfree hrun hus
    obtain ⟨bs, hserves⟩ := hs.sound.serves
    obtain ⟨b, -, -, rfl⟩ := hserves.block hp
    have hm₁ : Marked s₁.heap s₁.live b.addr := by
      rw [KernelClients.step, if_pos hp] at hfree
      obtain rfl := Option.some.inj hfree
      have := hserves.marked hp
      rwa [Block.payload, Nat.add_sub_cancel] at this
    have hm₂ : Marked s₂.heap s₂.live b.addr :=
      exec_invariant (I := fun s => Marked s.heap s.live b.addr)
        (fun _ _ _ hm hu hstep => KernelClients.marked_step hm hu hstep) hrun
        (along_of_mem (fun u hu _ => hus u hu) s₁) hm₁
    exact hm₂.caught
  · intro s s₁ s₂ p us hs hp hfree hrun hus
    have hsound₁ := Program.sound_step hs.sound hfree
    obtain ⟨bs, hserves, -⟩ := (hs.sound.up_of_live hp).serves
    have hne := hs.sound.live_ne_zero hp
    obtain ⟨b, -, -, rfl⟩ := hserves.block hp
    have hbuilt : s.heap.initialised = true := by
      by_contra hinit
      rw [hs.sound.live_nil hinit] at hp
      cases hp
    have hm₁ : s₁.Marks b.addr := by
      rw [Program.step, if_pos (.inr hp)] at hfree
      obtain rfl := Option.some.inj hfree
      rw [free_of_ne_zero hne] at hsound₁ ⊢
      refine ⟨hsound₁, hbuilt, ?_⟩
      have := hserves.marked hp
      rwa [Block.payload, Nat.add_sub_cancel] at this
    have hm₂ : s₂.Marks b.addr :=
      exec_invariant (I := fun s => s.Marks b.addr)
        (fun _ _ _ hm hu hstep => Program.marks_step hm hu hstep) hrun
        (along_of_mem (fun u hu _ => hus u hu) s₁) hm₁
    rw [free_of_ne_zero hne]
    exact congrArg (UserHeap.mk s₂.heap.initialised) hm₂.marked.caught

/-- A kernel of sixteen frames, and its heap before the first request. -/
def sixteenFrames : Option (Heap × FramePool) :=
  heapInit (fun _ => 0) 0x100000 ⟨fun _ => false, 16, 0⟩

/-- Two requests of a hundred bytes are served one after the other. -/
lemma exists_kernel_pair :
    ∃ s : KernelClients, s.Reachable ∧ s.live = [memoryStart + 172, memoryStart + 32] := by
  have hlive : (sixteenFrames.bind fun r => (Runs.exec KernelClients.step ⟨r.1, r.2, []⟩
      [.kmalloc 100, .kmalloc 100]).map KernelClients.live) =
        some [memoryStart + 172, memoryStart + 32] := by
    decide +kernel
  obtain ⟨r, hr, hlive⟩ := Option.bind_eq_some_iff.mp hlive
  obtain ⟨s, hs, hlive⟩ := Option.map_eq_some_iff.mp hlive
  exact ⟨s, ⟨_, _, _, r.1, r.2, _, by decide, by decide, hr, hs⟩, hlive⟩

lemma exists_program_pair :
    ∃ s : Program, s.Reachable ∧ s.live = [heapSlotBase + 176, heapSlotBase + 32] := by
  have hlive : (Runs.exec Program.step freshProgram [.malloc (some heapSlotBase) none 100,
      .malloc none none 100]).map Program.live = some [heapSlotBase + 176, heapSlotBase + 32] := by
    decide +kernel
  obtain ⟨s, hs, hlive⟩ := Option.map_eq_some_iff.mp hlive
  exact ⟨s, ⟨_, _, by decide, hs⟩, hlive⟩

/-- The upper of two neighbours is freed, then the lower one with which it is merged, then the
upper one again. -/
theorem double_free_caught_neighbours :
    (∃ s s₁ s₂ : KernelClients, s.Reachable ∧ memoryStart + 172 ∈ s.live ∧
      s.step (.kfree (memoryStart + 172)) = some s₁ ∧
      Runs.exec KernelClients.step s₁ [.kfree (memoryStart + 32)] = some s₂ ∧
      kfree s₂.heap (memoryStart + 172) = s₂.heap) ∧
    ∃ s s₁ s₂ : Program, s.Reachable ∧ heapSlotBase + 176 ∈ s.live ∧
      s.step (.free (heapSlotBase + 176)) = some s₁ ∧
      Runs.exec Program.step s₁ [.free (heapSlotBase + 32)] = some s₂ ∧
      free s₂.heap (heapSlotBase + 176) = s₂.heap := by
  constructor
  · obtain ⟨s, hs, hlive⟩ := exists_kernel_pair
    have hp : memoryStart + 172 ∈ s.live := by simp [hlive]
    obtain ⟨s₁, h₁, hlive₁⟩ : ∃ s₁, s.step (.kfree (memoryStart + 172)) = some s₁ ∧
        s₁.live = s.live.erase (memoryStart + 172) := ⟨_, if_pos hp, rfl⟩
    have hq : memoryStart + 32 ∈ s₁.live := by simp [hlive₁, hlive]
    obtain ⟨s₂, h₂⟩ : ∃ s₂, Runs.exec KernelClients.step s₁ [.kfree (memoryStart + 32)] = some s₂ :=
      ⟨_, Option.bind_eq_some_iff.mpr ⟨_, if_pos hq, rfl⟩⟩
    exact ⟨s, s₁, s₂, hs, hp, h₁, h₂, double_free_caught.1 _ _ _ _ _ hs hp h₁ h₂ (by decide)⟩
  · obtain ⟨s, hs, hlive⟩ := exists_program_pair
    have hp : heapSlotBase + 176 ∈ s.live := by simp [hlive]
    obtain ⟨s₁, h₁, hlive₁⟩ : ∃ s₁, s.step (.free (heapSlotBase + 176)) = some s₁ ∧
        s₁.live = s.live.erase (heapSlotBase + 176) := ⟨_, if_pos (.inr hp), rfl⟩
    have hq : heapSlotBase + 32 ∈ s₁.live := by simp [hlive₁, hlive]
    obtain ⟨s₂, h₂⟩ : ∃ s₂, Runs.exec Program.step s₁ [.free (heapSlotBase + 32)] = some s₂ :=
      ⟨_, Option.bind_eq_some_iff.mpr ⟨_, if_pos (.inr hq), rfl⟩⟩
    exact ⟨s, s₁, s₂, hs, hp, h₁, h₂, double_free_caught.2 _ _ _ _ _ hs hp h₁ h₂ (by decide)⟩

end TownOS.Memory
