import TownOS.Foundations.Runs
import TownOS.Memory.Allocator

/-!
The heaps and those who use them.

A client asks for memory, writes to what it was given, and frees it again. The
pointers that have been handed out and not been freed are `live`; they are the
payloads of the used blocks of the heap (`Serves`). Besides, memory outside the
heap changes as it likes, and in the kernel so does the pool of frames; what
`SYS_MMAP` returns to a program is only known to lie in the heap slot (`granted`).

* `Serves.malloc`, `Serves.free`, `Serves.extend`, `Serves.setMem`: one lemma for
  each way in which a heap changes;
* `KernelClients.step`, `Program.step`: the kernel heap and the heap of a program in
  use, and `KernelClients.sound_step`, `Program.sound_step`: what one step keeps;
* `heap_representation`: the blocks, the tags and the lists after any run;
* `allocator_client_safe`: what a client may rely on in any step of any run;
-/

namespace TownOS.Memory

open Bytes Tiling Runs

/-- The size of a payload, as the header in front of it gives it. -/
def payloadSize (h : Heap) (p : ℕ) : ℕ := headSize h.mem (p - sizeofHead)

/-- An address in a payload. -/
def InPayload (h : Heap) (p i : ℕ) : Prop := p ≤ i ∧ i < p + payloadSize h p

instance (h : Heap) (p i : ℕ) : Decidable (InPayload h p i) :=
  inferInstanceAs (Decidable (p ≤ i ∧ i < p + payloadSize h p))

/-- The live pointers are the payloads of the used blocks. -/
structure Serves (h : Heap) (bs : List Block) (live : List ℕ) : Prop where
  rep : Rep h bs
  live : live.Perm ((usedIn bs).map Block.payload)

/-- What a client gets with a pointer: a payload of the length it asked for, in the heap and
away from the payloads of the others. -/
structure Handed (h : Heap) (live : List ℕ) (p n : ℕ) : Prop where
  long : n ≤ payloadSize h p
  inside : h.heapStart ≤ p ∧ p + payloadSize h p ≤ h.heapEnd
  apart : ∀ q ∈ live, p + payloadSize h p ≤ q ∨ q + payloadSize h q ≤ p

/-- The payloads of the live pointers are what they were. -/
structure Kept (h h' : Heap) (live : List ℕ) : Prop where
  size : ∀ q ∈ live, payloadSize h' q = payloadSize h q
  bytes : ∀ q ∈ live, ∀ i, InPayload h q i → h'.mem i = h.mem i

lemma Kept.refl (h : Heap) (live : List ℕ) : Kept h h live := ⟨fun _ _ => rfl, fun _ _ _ _ => rfl⟩

lemma Kept.trans {h h' h'' : Heap} {live : List ℕ} (h₁ : Kept h h' live) (h₂ : Kept h' h'' live) :
    Kept h h'' live := by
  refine ⟨fun q hq => (h₂.size q hq).trans (h₁.size q hq), fun q hq i hi => ?_⟩
  have hi' : InPayload h' q i := by
    rw [InPayload, h₁.size q hq]
    exact hi
  exact (h₂.bytes q hq i hi').trans (h₁.bytes q hq i hi)

/-! ### Used blocks -/

section Used

variable {h h' : Heap} {bs bs' : List Block} {live live' : List ℕ} {b : Block} {p q : ℕ}
  {P : ℕ → Prop}

lemma Rep.payloadSize_eq (hr : Rep h bs) (hb : b ∈ bs) : payloadSize h b.payload = b.size := by
  obtain ⟨ls, hs⟩ := hr.shape
  have hpay : b.payload - sizeofHead = b.addr := Nat.add_sub_cancel ..
  rw [payloadSize, hpay, (hs.tagged b hb).size]

lemma Serves.block (hs : Serves h bs live) (hp : p ∈ live) :
    ∃ b ∈ bs, b.state = elUsed ∧ b.payload = p := by
  obtain ⟨b, hb, rfl⟩ := List.mem_map.mp (hs.live.mem_iff.mp hp)
  obtain ⟨hb, hst⟩ := mem_usedIn.mp hb
  exact ⟨b, hb, hst, rfl⟩

lemma payload_inj {b c : Block} (hb : b ∈ bs) (hc : c ∈ bs) (hr : Rep h bs)
    (hbc : b.payload = c.payload) : b = c := by
  obtain ⟨ls, hs⟩ := hr.shape
  refine hs.tiles.eq_of_lo Block.addr_lt_fin hb hc ?_
  exact Nat.add_right_cancel hbc

/-- The bytes of a payload are no tags. -/
lemma Serves.untagged (hs : Serves h bs live) (hp : p ∈ live) {i : ℕ} (hi : InPayload h p i) :
    ¬ Tags h bs i := by
  obtain ⟨b, hb, -, rfl⟩ := hs.block hp
  obtain ⟨ls, hshape⟩ := hs.rep.shape
  rw [InPayload, hs.rep.payloadSize_eq hb] at hi
  exact hshape.payload_untagged hb hi.1 hi.2

/-- Used blocks that stay keep their payloads, if only tags change. -/
lemma kept_of_stays (hs : Serves h bs live) (hr' : Rep h' bs') (hst : Only P h.mem h'.mem)
    (hsub : ∀ q ∈ live', q ∈ live)
    (hblock : ∀ b ∈ bs, b.state = elUsed → b.payload ∈ live' → b ∈ bs')
    (hP : ∀ b ∈ bs, b.state = elUsed → b.payload ∈ live' →
      ∀ i, b.payload ≤ i → i < b.payload + b.size → ¬ P i) : Kept h h' live' := by
  refine ⟨fun q hq => ?_, fun q hq i hi => ?_⟩
  · obtain ⟨b, hb, hused, rfl⟩ := hs.block (hsub q hq)
    rw [hr'.payloadSize_eq (hblock b hb hused hq), hs.rep.payloadSize_eq hb]
  · obtain ⟨b, hb, hused, rfl⟩ := hs.block (hsub q hq)
    rw [InPayload, hs.rep.payloadSize_eq hb] at hi
    exact hst i (hP b hb hused hq i hi.1 hi.2)

end Used

/-! ### The ways in which a heap changes -/

namespace Serves

variable {h : Heap} {bs : List Block} {live : List ℕ} {p n nbytes : ℕ}

lemma nodup (hs : Serves h bs live) : live.Nodup := by
  obtain ⟨ls, hshape⟩ := hs.rep.shape
  refine hs.live.nodup_iff.mpr ?_
  refine ((hshape.tiles.nodup Block.addr_lt_fin).filter _).map_on fun b hb c hc hbc => ?_
  exact payload_inj (mem_usedIn.mp hb).1 (mem_usedIn.mp hc).1 hs.rep hbc

/-- `el_malloc` refuses, or hands out a payload. -/
lemma malloc (hs : Serves h bs live) (n : ℕ) :
    elMalloc h n = (none, h) ∨
    ∃ p h' bs', elMalloc h n = (some p, h') ∧ Serves h' bs' (p :: live) ∧ Handed h' live p n ∧
      Kept h h' live ∧ h'.ctl = h.ctl ∧ h'.heapStart = h.heapStart ∧ h'.heapEnd = h.heapEnd ∧
      ((∀ b ∈ bs, b.Aligned) → n % 8 = 0 → ∀ b ∈ bs', b.Aligned) := by
  obtain ⟨hnone, -⟩ | ⟨l, x, r, rfl, hx, hn, heq, hrep, hst⟩ := hs.rep.malloc n
  · exact .inl hnone
  set h' := elTake h x.addr n
  set bs' := l ++ (taken x n ++ r) with hbs'
  set y := takenBlock x n with hy
  have hused : usedIn bs' = usedIn l ++ y :: usedIn r := by
    rw [hbs', usedIn_append, usedIn_append, usedIn_taken]
    rfl
  have hold : usedIn (l ++ x :: r) = usedIn l ++ usedIn r := by
    rw [usedIn_append, usedIn_cons_of_avail hx]
  have hlive' : (y.payload :: live).Perm ((usedIn bs').map Block.payload) := by
    rw [hused, List.map_append, List.map_cons]
    refine ((hs.live.trans ?_).cons _).trans List.perm_middle.symm
    rw [hold, List.map_append]
  have hs' : Serves h' bs' (y.payload :: live) := ⟨hrep, hlive'⟩
  have hymem : y ∈ bs' := (mem_usedIn.mp (by rw [hused]; simp)).1
  have hkeep : ∀ b ∈ l ++ x :: r, b.state = elUsed → b ∈ bs' := by
    intro b hb hbu
    have hb' : b ∈ usedIn bs' := by
      have : b ∈ usedIn (l ++ x :: r) := mem_usedIn.mpr ⟨hb, hbu⟩
      rw [hold] at this
      rw [hused]
      simp only [List.mem_append, List.mem_cons] at this ⊢
      tauto
    exact (mem_usedIn.mp hb').1
  obtain ⟨ls', hshape'⟩ := hrep.shape
  have htags : ∀ i, Tags h bs' i → Tags h' bs' i := by
    intro i hi
    rw [Tags, hst.ctl]
    exact hi
  have hysize : payloadSize h' y.payload = y.size := hrep.payloadSize_eq hymem
  refine .inr ⟨y.payload, h', bs', heq, hs', ⟨?_, ?_, ?_⟩, ?_, hst.ctl, hst.start, hst.fin, ?_⟩
  · rw [hysize]
    exact le_takenBlock_size hn
  · have hb := hshape'.bounds hymem
    rw [hysize]
    simp only [Block.payload, Block.fin, sizeofHead, elBlockOverhead] at hb ⊢
    omega
  · -- two used blocks do not overlap
    intro q hq
    obtain ⟨b, hb, hbu, rfl⟩ := hs.block hq
    have hb' := hkeep b hb hbu
    rw [hysize, hrep.payloadSize_eq hb']
    obtain heq | hle | hle := hshape'.tiles.apart Block.addr_lt_fin hymem hb'
    · have hnd := hs'.nodup
      rw [List.nodup_cons, heq] at hnd
      exact absurd hq hnd.1
    · simp only [Block.payload, Block.fin, sizeofHead, elBlockOverhead] at hle ⊢
      omega
    · simp only [Block.payload, Block.fin, sizeofHead, elBlockOverhead] at hle ⊢
      omega
  · refine kept_of_stays hs hrep hst.only (fun q hq => hq) (fun b hb hbu _ => hkeep b hb hbu) ?_
    intro b hb hbu _ i hle hlt hi
    exact hshape'.payload_untagged (hkeep b hb hbu) hle hlt (htags i hi)
  · intro halign hn8 b hb
    rw [hbs', List.mem_append, List.mem_append] at hb
    obtain hb | hb | hb := hb
    · exact halign b (by simp [hb])
    · exact aligned_taken (halign x (by simp)) hn8 b hb
    · exact halign b (by simp [hb])

/-- `el_free` of a live pointer. -/
lemma free (hs : Serves h bs live) (hp : p ∈ live) :
    ∃ bs', Serves (elFree h p) bs' (live.erase p) ∧ Kept h (elFree h p) (live.erase p) ∧
      (elFree h p).ctl = h.ctl ∧ (elFree h p).heapStart = h.heapStart ∧
      (elFree h p).heapEnd = h.heapEnd ∧ ((∀ b ∈ bs, b.Aligned) → ∀ b ∈ bs', b.Aligned) ∧
      ∀ a, Stale h bs a ∨ a + sizeofHead = p → Stale (elFree h p) bs' a := by
  obtain ⟨x, hx, hxu, rfl⟩ := hs.block hp
  obtain ⟨l, r, rfl⟩ := List.append_of_mem hx
  obtain ⟨bs', hrep, hused, halign, hst, hstale⟩ := hs.rep.free hxu
  have hold : usedIn (l ++ x :: r) = usedIn l ++ x :: usedIn r := by
    rw [usedIn_append, usedIn_cons_of_used hxu]
  have hlive : (live.erase x.payload).Perm ((usedIn bs').map Block.payload) := by
    have hperm := hs.live
    rw [hold, List.map_append, List.map_cons] at hperm
    rw [hused, usedIn_append, List.map_append]
    refine ((hperm.trans List.perm_middle).erase x.payload).trans ?_
    rw [List.erase_cons_head]
  have hne : ∀ q ∈ live.erase x.payload, q ≠ x.payload := fun q hq =>
    (hs.nodup.mem_erase_iff.mp hq).1
  refine ⟨bs', ⟨hrep, hlive⟩, kept_of_stays hs hrep hst.only (fun q hq => List.mem_of_mem_erase hq)
    ?_ ?_, hst.ctl, hst.start, hst.fin, halign, fun a ha =>
      hstale a (ha.imp_right Nat.add_right_cancel)⟩
  · intro b hb hbu hq
    have hb' : b ∈ usedIn bs' := by
      have : b ∈ usedIn (l ++ x :: r) := mem_usedIn.mpr ⟨hb, hbu⟩
      rw [hold] at this
      rw [hused, usedIn_append]
      simp only [List.mem_append, List.mem_cons] at this ⊢
      obtain hb' | rfl | hb' := this
      · exact .inl hb'
      · exact absurd rfl (hne _ hq)
      · exact .inr hb'
    exact (mem_usedIn.mp hb').1
  · intro b hb hbu _ i hle hlt
    obtain ⟨ls, hshape⟩ := hs.rep.shape
    exact hshape.payload_untagged hb hle hlt

/-- The heap takes in memory above its end. -/
lemma extend (hs : Serves h bs live) (hn : elBlockOverhead ≤ nbytes)
    (hlt : h.heapEnd + nbytes < 2 ^ 64) :
    ∃ bs', Serves (elExtend h nbytes) bs' live ∧ Kept h (elExtend h nbytes) live ∧
      (elExtend h nbytes).ctl = h.ctl ∧ (elExtend h nbytes).heapStart = h.heapStart ∧
      (elExtend h nbytes).heapEnd = h.heapEnd + nbytes ∧
      ((∀ b ∈ bs, b.Aligned) → h.heapEnd % 8 = 0 → nbytes % 8 = 0 → ∀ b ∈ bs', b.Aligned) := by
  obtain ⟨bs', hrep, hused, -, halign, hst⟩ := hs.rep.extend hn hlt
  refine ⟨bs', ⟨hrep, by rw [hused]; exact hs.live⟩, ?_, hst.ctl, hst.start, hst.fin, halign⟩
  refine kept_of_stays hs hrep hst.only (fun q hq => hq) ?_ ?_
  · intro b hb hbu _
    have hb' : b ∈ usedIn bs' := by
      rw [hused]
      exact mem_usedIn.mpr ⟨hb, hbu⟩
    exact (mem_usedIn.mp hb').1
  · intro b hb hbu _ i hle hlt'
    obtain ⟨ls, hshape⟩ := hs.rep.shape
    have hbounds := hshape.bounds hb
    rintro (htag | habove)
    · exact hshape.payload_untagged hb hle hlt' htag
    · simp only [Block.payload, Block.fin, sizeofHead, elBlockOverhead] at hbounds hlt'
      omega

/-- Memory changes where the allocator keeps nothing. -/
lemma setMem {m : ℕ → UInt8} (hs : Serves h bs live) (hm : ∀ i, Tags h bs i → m i = h.mem i) :
    Serves (h.setMem m) bs live := ⟨hs.rep.setMem hm, hs.live⟩

/-- The sizes of the payloads are tags. -/
lemma payloadSize_setMem {m : ℕ → UInt8} (hs : Serves h bs live)
    (hm : ∀ i, Tags h bs i → m i = h.mem i) (hp : p ∈ live) :
    payloadSize (h.setMem m) p = payloadSize h p := by
  obtain ⟨b, hb, -, rfl⟩ := hs.block hp
  rw [(hs.rep.setMem hm).payloadSize_eq hb, hs.rep.payloadSize_eq hb]

/-- A heap of which nothing is used is one available block. -/
lemma single (hs : Serves h bs []) (hne : h.heapStart < h.heapEnd) :
    ∃ b, bs = [b] ∧ b.state = elAvailable := by
  obtain ⟨⟨ls, hsort⟩, hcalm⟩ := hs.rep
  have hnone : usedIn bs = [] := List.map_eq_nil_iff.mp (List.nil_perm.mp hs.live)
  have hall : ∀ b ∈ bs, b.state = elAvailable := by
    intro b hb
    obtain ⟨s, hst⟩ := hsort.states b (by simpa using hb)
    cases s with
    | avail => exact hst
    | used =>
      have : b ∈ usedIn bs := mem_usedIn.mpr ⟨hb, hst⟩
      rw [hnone] at this
      cases this
  cases bs with
  | nil => exact absurd hsort.shape'.tiles hne.ne
  | cons b r =>
    cases r with
    | nil => exact ⟨b, rfl, hall b (by simp)⟩
    | cons c r =>
      have := (List.isChain_cons_cons.mp hcalm).1
      exact absurd ⟨hall b (by simp), hall c (by simp)⟩ this

end Serves

/-! ### The kernel heap in use -/

/-- The kernel heap with the pool of frames, and the pointers that are live. -/
structure KernelClients where
  heap : Heap
  pool : FramePool
  live : List ℕ

/-- What happens to the kernel heap. -/
inductive KernelUse where
  | kmalloc (size : ℕ)
  | kfree (ptr : ℕ)
  /-- A client writes to its payload. -/
  | write (addr : ℕ) (v : UInt8)
  /-- A byte outside the heap changes. -/
  | elsewhere (addr : ℕ) (v : UInt8)
  /-- Others take and return frames. -/
  | frames (pool : FramePool)

/-- The bytes that are neither in the heap nor in `el_ctl_actual`. -/
def Heap.Outside (h : Heap) (i : ℕ) : Prop :=
  (i < h.ctl ∨ h.ctl + sizeofCtl ≤ i) ∧ (i < h.heapStart ∨ h.heapEnd ≤ i)

instance (h : Heap) (i : ℕ) : Decidable (h.Outside i) := inferInstanceAs (Decidable (_ ∧ _))

namespace KernelClients

/-- One use of the kernel heap: a request is any `size_t`, only live pointers are freed, and clients
write to their own payloads only. -/
def step (s : KernelClients) : KernelUse → Option KernelClients
  | .kmalloc size =>
    if size < 2 ^ 64 then
      let r := kmalloc s.heap s.pool size
      some ⟨r.2.1, r.2.2, r.1.toList ++ s.live⟩
    else none
  | .kfree ptr =>
    if ptr ∈ s.live then some { s with heap := kfree s.heap ptr, live := s.live.erase ptr }
    else none
  | .write addr v =>
    if ∃ p ∈ s.live, InPayload s.heap p addr then
      some { s with heap := s.heap.setMem (setByte s.heap.mem addr v) }
    else none
  | .elsewhere addr v =>
    if s.heap.Outside addr then some { s with heap := s.heap.setMem (setByte s.heap.mem addr v) }
    else none
  | .frames pool => if pool.numFrames ≤ maxFrames then some { s with pool := pool } else none

/-- What holds between two uses. -/
structure Sound (s : KernelClients) : Prop where
  serves : ∃ bs, Serves s.heap bs s.live
  frames : s.pool.numFrames ≤ maxFrames
  nonempty : s.heap.heapStart < s.heap.heapEnd

end KernelClients

private lemma le_ite_toNat (n : ℤ) (m : ℕ) : m ≤ if n < m then m else n.toNat := by
  split_ifs with h
  · exact le_rfl
  · omega

lemma heapGrowPages_le_growPages (size : ℕ) : heapGrowPages ≤ growPages size := by
  unfold growPages
  exact le_ite_toNat _ _

lemma overhead_le_growth (size : ℕ) : elBlockOverhead ≤ growPages size * elPageBytes := by
  have := heapGrowPages_le_growPages size
  simp only [heapGrowPages, elBlockOverhead, elPageBytes] at this ⊢
  omega

lemma overhead_le_slab : elBlockOverhead ≤ heapInitialPages * elPageBytes := by decide

lemma oneGb_lt : oneGb < 2 ^ 64 := by norm_num [oneGb]

section Frames

variable {p p' : FramePool} {count f : ℕ}

lemma FramePool.freeFrames_numFrames (p : FramePool) (base n : ℕ) :
    (p.freeFrames base n).numFrames = p.numFrames := by
  rw [freeFrames]
  induction List.range n generalizing p with
  | nil => rfl
  | cons i l ih => exact (ih _).trans (freeFrame_numFrames _ _)

/-- A run of frames is below 1 GB. -/
lemma FramePool.contiguous_lt (h : p.allocFramesContiguous count = (some f, p'))
    (hp : p.numFrames ≤ maxFrames) :
    memoryStart ≤ f ∧ f + count * elPageBytes ≤ oneGb ∧ f % 8 = 0 ∧ p'.numFrames = p.numFrames := by
  obtain ⟨s, hs, -, -, rfl, rfl, -⟩ := FramePool.allocFramesContiguous_some h
  simp only [maxFrames, frameAddr, memoryStart, oneGb, frameSize, elPageBytes] at hp ⊢
  exact ⟨by omega, by omega, by omega, setBits_numFrames p s count⟩

end Frames

/-- What an allocation may do to a heap that serves some pointers. -/
structure Allocated (h : Heap) (live : List ℕ) (r : Option ℕ) (h' : Heap) (n : ℕ) : Prop where
  serves : ∃ bs', Serves h' bs' (r.toList ++ live)
  kept : Kept h h' live
  handed : ∀ p ∈ r, Handed h' live p n
  place : h'.ctl = h.ctl ∧ h'.heapStart = h.heapStart ∧ h.heapEnd ≤ h'.heapEnd

section Allocation

variable {h h' : Heap} {bs : List Block} {live : List ℕ} {n : ℕ}

lemma Serves.refused (hs : Serves h bs live) (n : ℕ) : Allocated h live none h n :=
  ⟨⟨bs, hs⟩, Kept.refl h live, nofun, rfl, rfl, le_rfl⟩

lemma Serves.allocated (hs : Serves h bs live) (n : ℕ) :
    Allocated h live (elMalloc h n).1 (elMalloc h n).2 n := by
  obtain heq | ⟨p, h', bs', heq, hs', hhand, hkept, hctl, hstart, hend, -⟩ := hs.malloc n
  · rw [heq]
    exact hs.refused n
  · rw [heq]
    refine ⟨⟨bs', hs'⟩, hkept, fun q hq => ?_, hctl, hstart, hend.ge⟩
    obtain rfl := Option.some.inj hq
    exact hhand

/-- An allocation in a heap that has just grown. -/
lemma Allocated.after {nbytes : ℕ} {r : Option ℕ} {h'' : Heap} (hk : Kept h h' live)
    (hctl : h'.ctl = h.ctl) (hstart : h'.heapStart = h.heapStart)
    (hend : h'.heapEnd = h.heapEnd + nbytes) (ha : Allocated h' live r h'' n) :
    Allocated h live r h'' n :=
  ⟨ha.serves, hk.trans ha.kept, ha.handed, ha.place.1.trans hctl, ha.place.2.1.trans hstart, by
    have := ha.place.2.2
    omega⟩

/-- `el_append_pages_to_heap` of the kernel changes nothing, or takes in the frames above the
heap. -/
lemma elAppendPagesToHeap_cases {p : FramePool} (hp : p.numFrames ≤ maxFrames) (npages : ℕ) :
    (∃ p', elAppendPagesToHeap h p npages = (false, h, p') ∧ p'.numFrames = p.numFrames) ∨
    ∃ p', elAppendPagesToHeap h p npages = (true, elExtend h (npages * elPageBytes), p') ∧
      p'.numFrames = p.numFrames ∧ h.heapEnd + npages * elPageBytes ≤ oneGb := by
  cases ha : p.allocFramesContiguous npages with
  | mk f p₁ =>
  cases f with
  | none =>
    obtain ⟨rfl, -⟩ := FramePool.allocFramesContiguous_none ha
    refine .inl ⟨_, ?_, rfl⟩
    rw [elAppendPagesToHeap, ha]
  | some f =>
    obtain ⟨-, hlt, -, hnum⟩ := FramePool.contiguous_lt ha hp
    by_cases hf : f = h.heapEnd
    · refine .inr ⟨p₁, ?_, hnum, hf ▸ hlt⟩
      rw [elAppendPagesToHeap, ha]
      exact if_neg (not_not_intro hf)
    · refine .inl ⟨p₁.freeFrames f npages, ?_, (FramePool.freeFrames_numFrames _ _ _).trans hnum⟩
      rw [elAppendPagesToHeap, ha]
      exact if_pos hf

lemma Serves.kmallocGrow {p : FramePool} {npages : ℕ} (hs : Serves h bs live)
    (hp : p.numFrames ≤ maxFrames) (hgrow : elBlockOverhead ≤ npages * elPageBytes) (size : ℕ) :
    Allocated h live (kmallocGrow h p size npages).1 (kmallocGrow h p size npages).2.1 size ∧
      (kmallocGrow h p size npages).2.2.numFrames = p.numFrames := by
  obtain ⟨p', happ, hnum⟩ | ⟨p', happ, hnum, hlt⟩ := elAppendPagesToHeap_cases (h := h) hp npages
  · rw [Memory.kmallocGrow, happ]
    exact ⟨hs.refused size, hnum⟩
  · obtain ⟨bs', hs', hk, hctl, hstart, hend, -⟩ := hs.extend hgrow (hlt.trans_lt oneGb_lt)
    rw [Memory.kmallocGrow, happ]
    exact ⟨Allocated.after hk hctl hstart hend (hs'.allocated size), hnum⟩

lemma Serves.kmalloc {p : FramePool} (hs : Serves h bs live) (hp : p.numFrames ≤ maxFrames)
    (size : ℕ) :
    Allocated h live (kmalloc h p size).1 (kmalloc h p size).2.1 size ∧
      (kmalloc h p size).2.2.numFrames = p.numFrames := by
  have hfirst := hs.allocated size
  obtain hnone | ⟨q, h', bs', hsome, -⟩ := hs.malloc size
  · have heq : Memory.kmalloc h p size = Memory.kmallocGrow h p size (growPages size) := by
      rw [Memory.kmalloc, hnone]
    rw [heq]
    exact hs.kmallocGrow hp (overhead_le_growth size) size
  · rw [hsome] at hfirst
    rw [Memory.kmalloc, hsome]
    exact ⟨hfirst, rfl⟩

/-- A byte of a payload, or one outside the heap, is no tag. -/
lemma Serves.untagged_outside (hs : Serves h bs live) {i : ℕ} (hi : h.Outside i) :
    ¬ Tags h bs i := by
  obtain ⟨ls, hshape⟩ := hs.rep.shape
  rintro (hctl | ⟨b, hb, htag⟩)
  · obtain ⟨hc, -⟩ := hi
    omega
  · have := hshape.bounds hb
    have := htag.bounds
    obtain ⟨-, hh⟩ := hi
    omega

lemma setByte_untagged {i : ℕ} (hi : ¬ Tags h bs i) (v : UInt8) :
    ∀ j, Tags h bs j → setByte h.mem i v j = h.mem j := by
  intro j hj
  refine setByte_of_ne ?_
  rintro rfl
  exact hi hj

end Allocation

namespace KernelClients

variable {s s' : KernelClients} {u : KernelUse}

/-- **One use of the kernel heap.** -/
theorem sound_step (hs : Sound s) (hstep : s.step u = some s') : Sound s' := by
  obtain ⟨⟨bs, hserves⟩, hframes, hne⟩ := hs
  cases u with
  | kmalloc size =>
    obtain ⟨-, rfl⟩ := guarded hstep
    obtain ⟨ha, hnum⟩ := hserves.kmalloc hframes size
    have := ha.place
    exact ⟨ha.serves, hnum.le.trans hframes, by simp only; omega⟩
  | kfree ptr =>
    obtain ⟨hptr, rfl⟩ := guarded hstep
    obtain ⟨bs', hs', -, -, hstart, hend, -⟩ := hserves.free hptr
    refine ⟨⟨bs', hs'⟩, hframes, ?_⟩
    simp only [kfree, hstart, hend]
    exact hne
  | write addr v =>
    obtain ⟨hin, rfl⟩ := guarded hstep
    obtain ⟨p, hp, hin⟩ := hin
    exact ⟨⟨bs, hserves.setMem (setByte_untagged (hserves.untagged hp hin) v)⟩, hframes, hne⟩
  | elsewhere addr v =>
    obtain ⟨hout, rfl⟩ := guarded hstep
    exact ⟨⟨bs, hserves.setMem (setByte_untagged (hserves.untagged_outside hout) v)⟩, hframes,
      hne⟩
  | frames pool =>
    obtain ⟨hpool, rfl⟩ := guarded hstep
    exact ⟨⟨bs, hserves⟩, hpool, hne⟩

/-- The kernel heap once `heap_init` has built it. -/
lemma sound_init {m : ℕ → UInt8} {ctl : ℕ} {pool pool' : FramePool} {h : Heap}
    (hctl : ctl + sizeofCtl ≤ memoryStart) (hpool : pool.numFrames ≤ maxFrames)
    (hinit : heapInit m ctl pool = some (h, pool')) : Sound ⟨h, pool', []⟩ := by
  rw [heapInit] at hinit
  split at hinit
  · cases hinit
  · rename_i heap p ha
    obtain ⟨rfl, rfl⟩ := Prod.mk.inj (Option.some.inj hinit)
    obtain ⟨hlow, hlt, -, hnum⟩ := FramePool.contiguous_lt ha hpool
    simp only [heapInitialPages, elPageBytes, oneGb] at hlt
    have hrep := Rep.init m overhead_le_slab (hctl.trans hlow) (by
      simp only [heapInitialPages, elPageBytes]
      omega)
    obtain ⟨ls, hshape⟩ := hrep.shape
    refine ⟨⟨_, hrep, List.Perm.nil⟩, hnum.le.trans hpool, ?_⟩
    have hb := hshape.bounds (List.mem_singleton_self _)
    exact hb.1.trans_lt ((Block.addr_lt_fin _).trans_le hb.2)

/-- A kernel heap after `heap_init` and some uses. The allocator's own variables are in the kernel
image, below the first frame. -/
def Reachable (s : KernelClients) : Prop :=
  ∃ m ctl pool h pool' us, ctl + sizeofCtl ≤ memoryStart ∧ pool.numFrames ≤ maxFrames ∧
    heapInit m ctl pool = some (h, pool') ∧ Runs.exec step ⟨h, pool', []⟩ us = some s

/-- **Every kernel heap in use is sound.** -/
theorem Reachable.sound (hs : Reachable s) : Sound s := by
  obtain ⟨m, ctl, pool, h, pool', us, hctl, hpool, hinit, hrun⟩ := hs
  exact exec_preserves (fun _ _ _ => sound_step) hrun (sound_init hctl hpool hinit)

end KernelClients

/-! ### The heap of a program in use -/

/-- `USER_HEAP_BASE`. -/
def heapSlotBase : ℕ := 0x800000

/-- `USER_HEAP_LIMIT`, which is `USER_SPACE_END` too. -/
def heapSlotEnd : ℕ := 0xA00000

/-- What `SYS_MMAP` may answer for `len` bytes: nothing, or pages in the heap slot. -/
def Granted (len : ℕ) (answer : Option ℕ) : Prop :=
  ∀ b ∈ answer, heapSlotBase ≤ b ∧ b % elPageBytes = 0 ∧ b + len ≤ heapSlotEnd

instance (len : ℕ) (answer : Option ℕ) : Decidable (Granted len answer) :=
  inferInstanceAs (Decidable (∀ b ∈ answer, _))

/-- A program: its heap and the pointers that are live. -/
structure Program where
  heap : UserHeap
  live : List ℕ

/-- What a program does with its heap; `slab` and `mapped` are the answers of `SYS_MMAP` for the
first slab and for a further one. -/
inductive ProgramUse where
  | malloc (slab mapped : Option ℕ) (size : ℕ)
  | calloc (slab mapped : Option ℕ) (count size : ℕ)
  | free (ptr : ℕ)
  /-- A write to a payload. -/
  | write (addr : ℕ) (v : UInt8)
  /-- A byte outside the heap changes. -/
  | elsewhere (addr : ℕ) (v : UInt8)

namespace Program

/-- The answers `SYS_MMAP` may give while `malloc` serves a request. -/
def Answers (slab mapped : Option ℕ) (size : ℕ) : Prop :=
  Granted (heapInitialPages * elPageBytes) slab ∧
    Granted (growPages (roundUp8 size) * elPageBytes) mapped

instance (slab mapped : Option ℕ) (size : ℕ) : Decidable (Answers slab mapped size) :=
  inferInstanceAs (Decidable (_ ∧ _))

/-- One use of the heap of a program. The `memset` of `calloc` faults at the end of user space,
which is the end of the program. -/
def step (s : Program) : ProgramUse → Option Program
  | .malloc slab mapped size =>
    if size < 2 ^ 64 ∧ Answers slab mapped size then
      let r := malloc s.heap slab mapped size
      some ⟨r.2, r.1.toList ++ s.live⟩
    else none
  | .calloc slab mapped count size =>
    let total := count * size % 2 ^ 64
    let r := calloc s.heap slab mapped count size
    if (count < 2 ^ 64 ∧ size < 2 ^ 64 ∧ Answers slab mapped total) ∧
        ∀ p ∈ r.1, p + total ≤ heapSlotEnd then
      some ⟨r.2, r.1.toList ++ s.live⟩
    else none
  | .free ptr =>
    if ptr = 0 ∨ ptr ∈ s.live then some ⟨free s.heap ptr, s.live.erase ptr⟩ else none
  | .write addr v =>
    if ∃ p ∈ s.live, InPayload s.heap.heap p addr then
      some { s with heap.heap := s.heap.heap.setMem (setByte s.heap.heap.mem addr v) }
    else none
  | .elsewhere addr v =>
    if s.heap.initialised = false ∨ s.heap.heap.Outside addr then
      some { s with heap.heap := s.heap.heap.setMem (setByte s.heap.heap.mem addr v) }
    else none

end Program

/-- A heap that is there: it serves the live pointers, in whole pages of the heap slot, and its
blocks are aligned. -/
structure Up (h : Heap) (live : List ℕ) : Prop where
  serves : ∃ bs, Serves h bs live ∧ ∀ b ∈ bs, b.Aligned
  base : heapSlotBase ≤ h.heapStart
  nonempty : h.heapStart < h.heapEnd
  limit : h.heapEnd ≤ heapSlotEnd
  pages : h.heapEnd % elPageBytes = 0

section Up

variable {h h' : Heap} {bs : List Block} {live : List ℕ} {n p npages : ℕ} {mapped slab : Option ℕ}

lemma Up.aligned (hup : Up h live) (hp : p ∈ live) : p % 8 = 0 := by
  obtain ⟨bs, hs, halign⟩ := hup.serves
  obtain ⟨b, hb, -, rfl⟩ := hs.block hp
  have := (halign b hb).1
  simp only [Block.payload, sizeofHead]
  omega

lemma Up.in_slot (hup : Up h live) (hp : p ∈ live) :
    heapSlotBase ≤ p ∧ p + payloadSize h p ≤ heapSlotEnd := by
  obtain ⟨bs, hs, -⟩ := hup.serves
  obtain ⟨b, hb, -, rfl⟩ := hs.block hp
  obtain ⟨ls, hshape⟩ := hs.rep.shape
  have hbounds := hshape.bounds hb
  have := hup.base
  have := hup.limit
  rw [hs.rep.payloadSize_eq hb]
  simp only [Block.payload, Block.fin, sizeofHead, elBlockOverhead] at hbounds ⊢
  omega

/-- What the allocator knows is below the end of the heap. -/
lemma Serves.tags_below (hs : Serves h bs live) {i : ℕ} (hi : Tags h bs i)
    (hne : h.heapStart ≤ h.heapEnd) :
    i < h.heapEnd := by
  obtain ⟨ls, hshape⟩ := hs.rep.shape
  obtain ⟨-, hlt⟩ | ⟨b, hb, htag⟩ := hi
  · have := hshape.fixed.out
    omega
  · have := hshape.bounds hb
    have := htag.bounds
    omega

/-- Memory above the heap is mapped. -/
lemma Up.mapZeroed (hup : Up h live) (len : ℕ) :
    Up (h.mapZeroed h.heapEnd len) live ∧ Kept h (h.mapZeroed h.heapEnd len) live := by
  obtain ⟨bs, hs, halign⟩ := hup.serves
  have hm : ∀ i < h.heapEnd, fill h.mem h.heapEnd len 0 i = h.mem i :=
    fun i hi => fill_outside (.inl hi)
  have htags : ∀ i, Tags h bs i → fill h.mem h.heapEnd len 0 i = h.mem i :=
    fun i hi => hm i (hs.tags_below hi hup.nonempty.le)
  refine ⟨⟨⟨bs, hs.setMem htags, halign⟩, hup.base, hup.nonempty, hup.limit, hup.pages⟩,
    fun q hq => hs.payloadSize_setMem htags hq, fun q hq i hi => hm i ?_⟩
  obtain ⟨b, hb, -, rfl⟩ := hs.block hq
  obtain ⟨ls, hshape⟩ := hs.rep.shape
  have hbounds := hshape.bounds hb
  rw [InPayload, hs.rep.payloadSize_eq hb] at hi
  simp only [Block.payload, Block.fin, sizeofHead, elBlockOverhead] at hbounds hi
  omega

lemma Up.refused (hup : Up h live) (n : ℕ) : Allocated h live none h n := by
  obtain ⟨bs, hs, -⟩ := hup.serves
  exact hs.refused n

lemma Up.allocated (hup : Up h live) (n : ℕ) :
    Allocated h live (elMalloc h n).1 (elMalloc h n).2 n := by
  obtain ⟨bs, hs, -⟩ := hup.serves
  exact hs.allocated n

lemma Up.elMalloc (hup : Up h live) (hn : n % 8 = 0) :
    Up (elMalloc h n).2 ((elMalloc h n).1.toList ++ live) := by
  obtain ⟨bs, hs, halign⟩ := hup.serves
  obtain heq | ⟨p, h', bs', heq, hs', -, -, -, hstart, hend, halign'⟩ := hs.malloc n
  · rw [heq]
    exact hup
  · rw [heq]
    exact ⟨⟨bs', hs', halign' halign hn⟩, hstart ▸ hup.base, by
      simp only [hstart, hend]
      exact hup.nonempty, hend ▸ hup.limit, hend ▸ hup.pages⟩

/-- The heap takes in pages above its end. -/
lemma Up.extend (hup : Up h live) (hgrow : elBlockOverhead ≤ npages * elPageBytes)
    (hlimit : h.heapEnd + npages * elPageBytes ≤ heapSlotEnd) :
    Up (elExtend h (npages * elPageBytes)) live ∧
      Kept h (elExtend h (npages * elPageBytes)) live ∧
      (elExtend h (npages * elPageBytes)).ctl = h.ctl ∧
      (elExtend h (npages * elPageBytes)).heapStart = h.heapStart ∧
      (elExtend h (npages * elPageBytes)).heapEnd = h.heapEnd + npages * elPageBytes := by
  obtain ⟨bs, hs, halign⟩ := hup.serves
  have hpages := hup.pages
  have hne := hup.nonempty
  have hlt : h.heapEnd + npages * elPageBytes < 2 ^ 64 := by
    simp only [heapSlotEnd] at hlimit
    omega
  obtain ⟨bs', hs', hk, hctl, hstart, hend, halign'⟩ := hs.extend hgrow hlt
  refine ⟨⟨⟨bs', hs', halign' halign ?_ ?_⟩, hstart ▸ hup.base, ?_, hend ▸ hlimit, ?_⟩, hk, hctl,
    hstart, hend⟩
  · simp only [elPageBytes] at hpages
    omega
  · simp only [elPageBytes]
    omega
  · rw [hstart, hend]
    omega
  · rw [hend, Nat.add_mul_mod_self_right, hpages]

lemma Up.mallocGrow (hup : Up h live) (hn : n % 8 = 0)
    (hgrow : elBlockOverhead ≤ npages * elPageBytes) (hg : Granted (npages * elPageBytes) mapped) :
    Allocated h live (mallocGrow h mapped n npages).1 (mallocGrow h mapped n npages).2 n ∧
      Up (mallocGrow h mapped n npages).2 ((mallocGrow h mapped n npages).1.toList ++ live) := by
  cases mapped with
  | none => exact ⟨hup.refused n, hup⟩
  | some a =>
    by_cases ha : a = h.heapEnd
    · subst ha
      obtain ⟨hup₁, hk₁⟩ := hup.mapZeroed (npages * elPageBytes)
      obtain ⟨hup₂, hk₂, hctl, hstart, hend⟩ := hup₁.extend hgrow (hg _ rfl).2.2
      have heq : Memory.mallocGrow h (some h.heapEnd) n npages =
          Memory.elMalloc (elExtend (h.mapZeroed h.heapEnd (npages * elPageBytes))
            (npages * elPageBytes)) n := by
        rw [Memory.mallocGrow, elAppendPagesToUserHeap, if_neg (not_not_intro rfl)]
      rw [heq]
      exact ⟨Allocated.after (hk₁.trans hk₂) hctl hstart hend (hup₂.allocated n),
        hup₂.elMalloc hn⟩
    · have heq : Memory.mallocGrow h (some a) n npages = (none, h) := by
        rw [Memory.mallocGrow, elAppendPagesToUserHeap, if_pos ha]
      rw [heq]
      exact ⟨hup.refused n, hup⟩

lemma Up.growAndRetry (hup : Up h live) (hn : n % 8 = 0)
    (hg : Granted (growPages n * elPageBytes) mapped) :
    Allocated h live (growAndRetry h mapped n).1 (growAndRetry h mapped n).2 n ∧
      Up (growAndRetry h mapped n).2 ((growAndRetry h mapped n).1.toList ++ live) := by
  have hfirst := hup.allocated n
  have hup' := hup.elMalloc hn
  obtain ⟨bs, hs, -⟩ := hup.serves
  obtain hnone | ⟨q, h', bs', hsome, -⟩ := hs.malloc n
  · have heq : Memory.growAndRetry h mapped n = Memory.mallocGrow h mapped n (growPages n) := by
      rw [Memory.growAndRetry, hnone]
    rw [heq]
    exact hup.mallocGrow hn (overhead_le_growth n) hg
  · rw [hsome] at hfirst hup'
    rw [Memory.growAndRetry, hsome]
    exact ⟨hfirst, hup'⟩

lemma elInit_heapStart (m : ℕ → UInt8) (ctl heap initial : ℕ) :
    (elInit m ctl heap initial).heapStart = heap := rfl

lemma elInit_heapEnd (m : ℕ → UInt8) (ctl heap initial : ℕ) :
    (elInit m ctl heap initial).heapEnd = heap + initial := rfl

lemma elInit_ctl (m : ℕ → UInt8) (ctl heap initial : ℕ) :
    (elInit m ctl heap initial).ctl = ctl := rfl

lemma up_elInitUser {a : ℕ} (hctl : h.ctl + sizeofCtl ≤ heapSlotBase)
    (hg : Granted (heapInitialPages * elPageBytes) (some a)) :
    Up (elInitUser h a) [] ∧
      Rep (elInitUser h a)
        [⟨a, heapInitialPages * elPageBytes - elBlockOverhead, elAvailable⟩] := by
  obtain ⟨hbase, hpage, hlimit⟩ := hg a rfl
  simp only [heapInitialPages, elPageBytes, heapSlotEnd] at hlimit hpage
  have hrep := Rep.init (h.mapZeroed a (heapInitialPages * elPageBytes)).mem overhead_le_slab
    (hctl.trans hbase) (by
      simp only [heapInitialPages, elPageBytes]
      omega)
  refine ⟨⟨⟨_, ⟨hrep, List.Perm.nil⟩, ?_⟩, hbase, ?_, ?_, ?_⟩, hrep⟩
  · intro b hb
    obtain rfl := List.mem_singleton.mp hb
    refine ⟨?_, ?_⟩
    · simp only
      omega
    · simp [heapInitialPages, elPageBytes, elBlockOverhead]
  · simp only [elInitUser, elInit_heapStart, elInit_heapEnd, heapInitialPages, elPageBytes]
    omega
  · simp only [elInitUser, elInit_heapEnd, heapInitialPages, elPageBytes, heapSlotEnd]
    omega
  · simp only [elInitUser, elInit_heapEnd, heapInitialPages, elPageBytes]
    omega

end Up

namespace Program

variable {s s' : Program} {u : ProgramUse} {slab mapped : Option ℕ} {n p : ℕ}

/-- What holds between two uses: nothing is live before the first slab is there. -/
structure Sound (s : Program) : Prop where
  ctl : s.heap.heap.ctl + sizeofCtl ≤ heapSlotBase
  fresh : s.heap.initialised = false → s.live = []
  up : s.heap.initialised = true → Up s.heap.heap s.live

/-- What `malloc` does to a sound program. -/
structure Served (s : Program) (r : Option ℕ × UserHeap) (n : ℕ) : Prop where
  sound : Sound ⟨r.2, r.1.toList ++ s.live⟩
  kept : Kept s.heap.heap r.2.heap s.live
  handed : ∀ p ∈ r.1, Handed r.2.heap s.live p n ∧ p % 8 = 0
  built : r.1 ≠ none → r.2.initialised = true

lemma Sound.live_nil (hs : Sound s) (h : ¬ s.heap.initialised = true) : s.live = [] :=
  hs.fresh (Bool.eq_false_iff.mpr h)

/-- `malloc` on a heap that is there. -/
lemma served_of_up {h : Heap} {live : List ℕ} (hctl : h.ctl + sizeofCtl ≤ heapSlotBase)
    (hup : Up h live) (hn : n % 8 = 0) (hg : Granted (growPages n * elPageBytes) mapped) :
    Served ⟨⟨true, h⟩, live⟩
      ((growAndRetry h mapped n).1, ⟨true, (growAndRetry h mapped n).2⟩) n := by
  obtain ⟨ha, hup'⟩ := hup.growAndRetry hn hg
  refine ⟨⟨?_, nofun, fun _ => hup'⟩, ha.kept, fun p hp => ⟨ha.handed p hp, ?_⟩, fun _ => rfl⟩
  · simp only [ha.place.1]
    exact hctl
  · refine hup'.aligned ?_
    rw [Option.mem_def.mp hp]
    exact List.mem_cons_self

lemma roundUp8_mod (n : ℕ) : roundUp8 n % 8 = 0 := Nat.mul_mod_left _ _

lemma le_roundUp8 (h : n ≤ 2 ^ 64 - 8) : n ≤ roundUp8 n := by
  rw [roundUp8, Nat.mod_eq_of_lt (by omega)]
  omega

lemma roundUp8_wraps (h : 2 ^ 64 - 8 < n) (hn : n < 2 ^ 64) : roundUp8 n = 0 := by
  obtain ⟨k, rfl⟩ : ∃ k, n = 2 ^ 64 - 7 + k := ⟨n - (2 ^ 64 - 7), by omega⟩
  have hk : k < 7 := by omega
  have heq : 2 ^ 64 - 7 + k + 7 = k + 2 ^ 64 := by omega
  rw [roundUp8, heq, Nat.add_mod_right, Nat.mod_eq_of_lt (by omega)]
  omega

lemma malloc_first (h : Heap) (a n : ℕ) (mapped : Option ℕ) :
    malloc ⟨false, h⟩ (some a) mapped n =
      ((growAndRetry (elInitUser h a) mapped (roundUp8 n)).1,
        ⟨true, (growAndRetry (elInitUser h a) mapped (roundUp8 n)).2⟩) := rfl

/-- **`malloc`** hands out an aligned payload of the rounded length, or nothing. -/
theorem served_malloc (hs : Sound s) (ha : Answers slab mapped n) :
    Served s (malloc s.heap slab mapped n) (roundUp8 n) := by
  obtain ⟨⟨initialised, h⟩, live⟩ := s
  cases initialised with
  | true => exact served_of_up hs.ctl (hs.up rfl) (roundUp8_mod n) ha.2
  | false =>
    obtain rfl : live = [] := hs.fresh rfl
    cases slab with
    | none =>
      refine ⟨hs, Kept.refl _ _, fun p hp => ?_, fun h => absurd rfl h⟩
      cases hp
    | some a =>
      have hctl : (elInitUser h a).ctl + sizeofCtl ≤ heapSlotBase := by
        rw [elInitUser, elInit_ctl]
        exact hs.ctl
      obtain ⟨hslab, hmapped⟩ := ha
      have hup : Up (elInitUser h a) [] := (up_elInitUser hs.ctl hslab).1
      have hfirst := served_of_up hctl hup (roundUp8_mod n) hmapped
      rw [malloc_first]
      exact ⟨hfirst.sound, ⟨nofun, nofun⟩, hfirst.handed, hfirst.built⟩

/-- A payload that was just handed out may be cleared. -/
lemma Served.clear {u : UserHeap} {k : ℕ} (h : Served s (some p, u) n)
    (hk : k ≤ payloadSize u.heap p) :
    Served s (some p, { u with heap := u.heap.setMem (fill u.heap.mem p k 0) }) n := by
  have hbuilt : u.initialised = true := h.built (Option.some_ne_none p)
  have hup : Up u.heap (p :: s.live) := h.sound.up hbuilt
  obtain ⟨bs, hs, halign⟩ := hup.serves
  obtain ⟨hhand, h8⟩ : Handed u.heap s.live p n ∧ p % 8 = 0 := h.handed p rfl
  have hp : p ∈ p :: s.live := List.mem_cons_self
  have htags : ∀ i, Tags u.heap bs i → fill u.heap.mem p k 0 i = u.heap.mem i := by
    intro i hi
    refine fill_outside ?_
    by_contra hin
    exact hs.untagged hp ⟨by omega, by omega⟩ hi
  have hsize : ∀ q ∈ p :: s.live, payloadSize (u.heap.setMem (fill u.heap.mem p k 0)) q =
      payloadSize u.heap q := fun q hq => hs.payloadSize_setMem htags hq
  have hmore : ∀ q ∈ s.live, q ∈ p :: s.live := fun q hq => List.mem_cons_of_mem _ hq
  have hclear : Kept u.heap (u.heap.setMem (fill u.heap.mem p k 0)) s.live := by
    refine ⟨fun q hq => hsize q (hmore q hq), fun q hq i hi => fill_outside ?_⟩
    have := hhand.apart q hq
    obtain ⟨hlo, hhi⟩ := hi
    omega
  refine ⟨⟨h.sound.ctl, fun hf => ?_, fun _ => ⟨⟨bs, hs.setMem htags, halign⟩, hup.base,
    hup.nonempty, hup.limit, hup.pages⟩⟩, h.kept.trans hclear, fun q hq => ?_, fun _ => hbuilt⟩
  · simp only [hbuilt, Bool.true_eq_false] at hf
  · obtain rfl := Option.some.inj hq
    refine ⟨⟨?_, ?_, fun q hq => ?_⟩, h8⟩
    · rw [hsize p hp]
      exact hhand.long
    · rw [hsize p hp]
      exact hhand.inside
    · rw [hsize p hp, hsize q (hmore q hq)]
      exact hhand.apart q hq

lemma Served.shorten {r : Option ℕ × UserHeap} {k : ℕ} (h : Served s r n) (hk : k ≤ n) :
    Served s r k :=
  ⟨h.sound, h.kept, fun p hp => ⟨⟨hk.trans (h.handed p hp).1.long, (h.handed p hp).1.inside,
    (h.handed p hp).1.apart⟩, (h.handed p hp).2⟩, h.built⟩

/-- The overflow check of `calloc`. -/
lemma mul_lt_of_check {count size : ℕ} (hcount : count < 2 ^ 64)
    (h : ¬ (count ≠ 0 ∧ (2 ^ 64 - 1) / count < size)) : count * size < 2 ^ 64 := by
  obtain rfl | hpos := Nat.eq_zero_or_pos count
  · simp
  · have hle : size ≤ (2 ^ 64 - 1) / count := by
      by_contra hlt
      exact h ⟨hpos.ne', by omega⟩
    have := (Nat.le_div_iff_mul_le hpos).mp hle
    rw [Nat.mul_comm]
    omega

/-- `calloc` returns nothing, or it clears what `malloc` hands out for the product. -/
lemma calloc_cases {count : ℕ} (u : UserHeap) (slab mapped : Option ℕ) (size : ℕ)
    (hcount : count < 2 ^ 64) :
    2 ^ 64 ≤ count * size ∧ calloc u slab mapped count size = (none, u) ∨
    count * size < 2 ^ 64 ∧
      (∃ u', malloc u slab mapped (count * size) = (none, u') ∧
        calloc u slab mapped count size = (none, u')) ∨
    count * size < 2 ^ 64 ∧
      ∃ p u', malloc u slab mapped (count * size) = (some p, u') ∧
        calloc u slab mapped count size = (some p,
          { u' with heap := u'.heap.setMem (fill u'.heap.mem p (count * size) 0) }) := by
  by_cases hover : count ≠ 0 ∧ (2 ^ 64 - 1) / count < size
  · have hbeyond := (Nat.div_lt_iff_lt_mul (Nat.pos_of_ne_zero hover.1)).mp hover.2
    rw [Nat.mul_comm] at hbeyond
    exact .inl ⟨by omega, by rw [calloc, if_pos hover]⟩
  have hlt := mul_lt_of_check hcount hover
  cases hm : malloc u slab mapped (count * size) with
  | mk r u' =>
  cases r with
  | none =>
    refine .inr (.inl ⟨hlt, u', rfl, ?_⟩)
    simp only [calloc, if_neg hover, Nat.mod_eq_of_lt hlt, hm]
  | some p =>
    refine .inr (.inr ⟨hlt, p, u', rfl, ?_⟩)
    simp only [calloc, if_neg hover, Nat.mod_eq_of_lt hlt, hm]

/-- **`calloc`** of a product that does not wrap around when it is rounded. -/
theorem served_calloc {count size : ℕ} (hs : Sound s) (hcount : count < 2 ^ 64)
    (ha : Answers slab mapped (count * size % 2 ^ 64))
    (hround : count * size < 2 ^ 64 → (calloc s.heap slab mapped count size).1 ≠ none →
      count * size ≤ 2 ^ 64 - 8) :
    Served s (calloc s.heap slab mapped count size) (count * size) ∧
      ∀ p ∈ (calloc s.heap slab mapped count size).1,
        ∀ i < count * size, (calloc s.heap slab mapped count size).2.heap.mem (p + i) = 0 := by
  obtain ⟨-, heq⟩ | ⟨hlt, u', hm, heq⟩ | ⟨hlt, p, u', hm, heq⟩ :=
    calloc_cases s.heap slab mapped size hcount
  · rw [heq]
    exact ⟨⟨hs, Kept.refl _ _, nofun, fun h => absurd rfl h⟩, nofun⟩
  · rw [Nat.mod_eq_of_lt hlt] at ha
    have hserved := served_malloc hs ha
    rw [hm] at hserved
    rw [heq]
    exact ⟨⟨hserved.sound, hserved.kept, nofun, fun h => absurd rfl h⟩, nofun⟩
  · rw [Nat.mod_eq_of_lt hlt] at ha
    have hserved := served_malloc hs ha
    rw [hm] at hserved
    rw [heq] at hround ⊢
    have hlong := le_roundUp8 (hround hlt (Option.some_ne_none p))
    have hshort := hserved.shorten hlong
    refine ⟨hshort.clear ((hshort.handed p rfl).1.long), fun q hq i hi => ?_⟩
    obtain rfl := Option.some.inj hq
    exact fill_inside (by omega) (by omega)

/-- A request that `memset` can clear does not wrap around when it is rounded. -/
lemma round_of_fit {count size : ℕ} {r : Option ℕ}
    (hfit : ∀ p ∈ r, p + count * size % 2 ^ 64 ≤ heapSlotEnd) (hlt : count * size < 2 ^ 64)
    (hr : r ≠ none) : count * size ≤ 2 ^ 64 - 8 := by
  obtain ⟨p, rfl⟩ := Option.ne_none_iff_exists'.mp hr
  have := hfit p rfl
  rw [Nat.mod_eq_of_lt hlt] at this
  simp only [heapSlotEnd] at this
  omega

/-- A write where the allocator keeps nothing. -/
lemma Sound.write {addr : ℕ} (hs : Sound s) (v : UInt8)
    (haddr : s.heap.initialised = true → ∀ bs, Serves s.heap.heap bs s.live →
      ¬ Tags s.heap.heap bs addr) :
    Sound { s with heap.heap := s.heap.heap.setMem (setByte s.heap.heap.mem addr v) } := by
  refine ⟨hs.ctl, hs.fresh, fun hinit => ?_⟩
  have hup := hs.up hinit
  obtain ⟨bs, hserves, halign⟩ := hup.serves
  exact ⟨⟨bs, hserves.setMem (setByte_untagged (haddr hinit bs hserves) v), halign⟩, hup.base,
    hup.nonempty, hup.limit, hup.pages⟩

/-- A pointer is live only when the heap is there. -/
lemma Sound.up_of_live (hs : Sound s) (hp : p ∈ s.live) : Up s.heap.heap s.live := by
  refine hs.up ?_
  by_contra hinit
  rw [hs.live_nil hinit] at hp
  cases hp

lemma Sound.live_ne_zero (hs : Sound s) (hp : p ∈ s.live) : p ≠ 0 := by
  have := ((hs.up_of_live hp).in_slot hp).1
  simp only [heapSlotBase] at this
  omega

/-- `free` of a live pointer. -/
lemma Sound.free (hs : Sound s) (hp : p ∈ s.live) :
    Sound ⟨free s.heap p, s.live.erase p⟩ ∧
      Kept s.heap.heap (free s.heap p).heap (s.live.erase p) := by
  have hup := hs.up_of_live hp
  obtain ⟨bs, hserves, halign⟩ := hup.serves
  obtain ⟨bs', hserves', hkept, hctl, hstart, hend, halign', -⟩ := hserves.free hp
  rw [Memory.free, if_neg (hs.live_ne_zero hp)]
  refine ⟨⟨?_, ?_, fun _ => ⟨⟨bs', hserves', halign' halign⟩, hstart ▸ hup.base, ?_,
    hend ▸ hup.limit, hend ▸ hup.pages⟩⟩, hkept⟩
  · simp only [hctl]
    exact hs.ctl
  · intro hf
    rw [hs.fresh hf] at hp
    cases hp
  · simp only [hstart, hend]
    exact hup.nonempty

/-- **One use of the heap of a program.** -/
theorem sound_step (hs : Sound s) (hstep : s.step u = some s') : Sound s' := by
  cases u with
  | malloc slab mapped size =>
    obtain ⟨hc, rfl⟩ := guarded hstep
    exact (served_malloc hs hc.2).sound
  | calloc slab mapped count size =>
    obtain ⟨hc, rfl⟩ := guarded hstep
    obtain ⟨⟨hcount, -, ha⟩, hfit⟩ := hc
    exact (served_calloc hs hcount ha (round_of_fit hfit)).1.sound
  | free ptr =>
    obtain ⟨hc, rfl⟩ := guarded hstep
    by_cases hp : ptr ∈ s.live
    · exact (hs.free hp).1
    · obtain rfl := hc.resolve_right hp
      rw [Memory.free, if_pos rfl, List.erase_of_not_mem hp]
      exact hs
  | write addr v =>
    obtain ⟨hc, rfl⟩ := guarded hstep
    obtain ⟨p, hp, hin⟩ := hc
    exact hs.write v fun _ bs hserves => hserves.untagged hp hin
  | elsewhere addr v =>
    obtain ⟨hc, rfl⟩ := guarded hstep
    refine hs.write v fun hinit bs hserves => hserves.untagged_outside ?_
    exact hc.resolve_left (by simp [hinit])

/-- A program after some uses of its heap, which was not there at first. The allocator's own
variables are in the program's image, below the heap slot. -/
def Reachable (s : Program) : Prop :=
  ∃ h us, h.ctl + sizeofCtl ≤ heapSlotBase ∧ Runs.exec step ⟨⟨false, h⟩, []⟩ us = some s

/-- **Every heap of a program in use is sound.** -/
theorem Reachable.sound (hs : Reachable s) : Sound s := by
  obtain ⟨h, us, hctl, hrun⟩ := hs
  exact exec_preserves (fun _ _ _ => sound_step) hrun ⟨hctl, fun _ => rfl, nofun⟩

end Program

/-! ### Main results -/

/-- A program that has not called `malloc` yet. -/
def freshProgram : Program :=
  ⟨⟨false, ⟨fun _ => 0, 0x400000, 0, 0, 0, ⟨0, 0, 0, 0⟩, ⟨0, 0, 0, 0⟩⟩⟩, []⟩

lemma freshProgram_reachable : freshProgram.Reachable := ⟨_, [], by decide, rfl⟩

lemma answers_first (n : ℕ) : Program.Answers (some heapSlotBase) none n := ⟨by decide, nofun⟩

/-- A kernel of sixteen frames that has served a request of 100 bytes, and can serve another. -/
lemma exists_reachable_kernel : ∃ s s' : KernelClients, s.Reachable ∧ s.live.length = 1 ∧
    s.step (.kmalloc 50) = some s' ∧ s'.live.length = 2 := by
  have hrun : ((heapInit (fun _ => 0) 0x100000 ⟨fun _ => false, 16, 0⟩).bind fun x =>
      Runs.exec KernelClients.step ⟨x.1, x.2, []⟩ [.kmalloc 100]).any (fun s => s.live.length = 1 ∧
        (s.step (.kmalloc 50)).any fun s' => s'.live.length = 2) = true := by
    decide +kernel
  obtain ⟨s, hs, h⟩ := Option.any_eq_true _ _ |>.mp hrun
  obtain ⟨⟨h₀, pool⟩, hinit, hs⟩ := Option.bind_eq_some_iff.mp hs
  obtain ⟨hone, h⟩ := of_decide_eq_true h
  obtain ⟨s', hs', h⟩ := Option.any_eq_true _ _ |>.mp h
  exact ⟨s, s', ⟨_, _, _, h₀, pool, _, by decide, by decide, hinit, hs⟩, hone, hs',
    of_decide_eq_true h⟩

/-- A program that has been given 100 bytes of its first slab, and can be given more. -/
lemma exists_reachable_program : ∃ s s' : Program, s.Reachable ∧ s.heap.initialised = true ∧
    s.live.length = 1 ∧ s.heap.heap.heapEnd = heapSlotBase + heapInitialPages * elPageBytes ∧
    s.step (.malloc none none 50) = some s' ∧ s'.live.length = 2 := by
  have hrun : (Runs.exec Program.step freshProgram
      [.malloc (some heapSlotBase) none 100]).any (fun s =>
        s.heap.initialised = true ∧ s.live.length = 1 ∧
        s.heap.heap.heapEnd = heapSlotBase + heapInitialPages * elPageBytes ∧
        (s.step (.malloc none none 50)).any fun s' => s'.live.length = 2) = true := by
    decide +kernel
  obtain ⟨s, hs, h⟩ := Option.any_eq_true _ _ |>.mp hrun
  obtain ⟨hinit, hone, hend, h⟩ := of_decide_eq_true h
  obtain ⟨s', hs', h⟩ := Option.any_eq_true _ _ |>.mp h
  exact ⟨s, s', ⟨_, _, by decide, hs⟩, hinit, hone, hend, hs', of_decide_eq_true h⟩

/-- The blocks of the heap and the lists are as they should be, and a heap of which nothing is
live is one available block. -/
def Represented (h : Heap) (live : List ℕ) : Prop :=
  (∃ bs, Rep h bs ∧ live.Perm ((usedIn bs).map Block.payload)) ∧
    (live = [] → ∃ b, Rep h [b] ∧ b.state = elAvailable)

lemma Serves.represented {h : Heap} {bs : List Block} {live : List ℕ} (hs : Serves h bs live)
    (hne : h.heapStart < h.heapEnd) : Represented h live := by
  refine ⟨⟨bs, hs.rep, hs.live⟩, ?_⟩
  rintro rfl
  obtain ⟨b, rfl, hb⟩ := hs.single hne
  exact ⟨b, hs.rep, hb⟩

/-- **The heap is well formed after any use**, in the kernel and in ring 3. -/
theorem heap_representation :
    (∀ s, KernelClients.Reachable s → Represented s.heap s.live) ∧
      ∀ s, Program.Reachable s → s.heap.initialised = true → Represented s.heap.heap s.live := by
  refine ⟨fun s hs => ?_, fun s hs hinit => ?_⟩
  · obtain ⟨⟨bs, hserves⟩, -, hne⟩ := hs.sound
    exact hserves.represented hne
  · have hup := hs.sound.up hinit
    obtain ⟨bs, hserves, -⟩ := hup.serves
    exact hserves.represented hup.nonempty

/-- A kernel and a program that have served a request of 100 bytes. -/
theorem heap_representation_hundred :
    (∃ s, KernelClients.Reachable s ∧ s.live.length = 1 ∧ Represented s.heap s.live) ∧
      ∃ s, Program.Reachable s ∧ s.live.length = 1 ∧ Represented s.heap.heap s.live := by
  obtain ⟨s, -, hs, hone, -⟩ := exists_reachable_kernel
  obtain ⟨t, -, ht, hinit, hone', -⟩ := exists_reachable_program
  exact ⟨⟨s, hs, hone, heap_representation.1 s hs⟩, t, ht, hone', heap_representation.2 t ht hinit⟩

/-- The tags of a heap, its headers, footers and lists, are what they were. -/
def TagsKept (h h' : Heap) : Prop := ∃ bs, Rep h bs ∧ ∀ i, Tags h bs i → h'.mem i = h.mem i

/-- What a client of the kernel heap relies on in one step. -/
def KernelClients.Safe (s : KernelClients) (u : KernelUse) (s' : KernelClients) : Prop :=
  match u with
  | .kmalloc size =>
    (∀ p ∈ (kmalloc s.heap s.pool size).1, Handed s'.heap s.live p size) ∧
      Kept s.heap s'.heap s.live
  | .kfree _ => Kept s.heap s'.heap s'.live
  | .write _ _ => TagsKept s.heap s'.heap
  | .elsewhere _ _ => TagsKept s.heap s'.heap
  | .frames _ => s'.heap = s.heap

/-- What a program relies on in one step, for requests below 2³¹ bytes. -/
def Program.Safe (s : Program) (u : ProgramUse) (s' : Program) : Prop :=
  match u with
  | .malloc slab mapped size =>
    (size < 2 ^ 31 → ∀ p ∈ (malloc s.heap slab mapped size).1,
      Handed s'.heap.heap s.live p size ∧ p % 8 = 0) ∧
      Kept s.heap.heap s'.heap.heap s.live
  | .calloc slab mapped count size =>
    (∀ p ∈ (calloc s.heap slab mapped count size).1,
      Handed s'.heap.heap s.live p (count * size) ∧ p % 8 = 0 ∧
        ∀ i < count * size, s'.heap.heap.mem (p + i) = 0) ∧
      Kept s.heap.heap s'.heap.heap s.live
  | .free _ => Kept s.heap.heap s'.heap.heap s'.live
  | .write _ _ => TagsKept s.heap.heap s'.heap.heap
  | .elsewhere _ _ => s.heap.initialised = true → TagsKept s.heap.heap s'.heap.heap

lemma KernelClients.Sound.safe {s s' : KernelClients} {u : KernelUse} (hs : s.Sound)
    (hstep : s.step u = some s') : s.Safe u s' := by
  obtain ⟨⟨bs, hserves⟩, hframes, -⟩ := hs
  cases u with
  | kmalloc size =>
    obtain ⟨-, rfl⟩ := guarded hstep
    have ha := (hserves.kmalloc hframes size).1
    exact ⟨ha.handed, ha.kept⟩
  | kfree ptr =>
    obtain ⟨hptr, rfl⟩ := guarded hstep
    obtain ⟨bs', -, hkept, -⟩ := hserves.free hptr
    exact hkept
  | write addr v =>
    obtain ⟨hin, rfl⟩ := guarded hstep
    obtain ⟨p, hp, hin⟩ := hin
    exact ⟨bs, hserves.rep, setByte_untagged (hserves.untagged hp hin) v⟩
  | elsewhere addr v =>
    obtain ⟨hout, rfl⟩ := guarded hstep
    exact ⟨bs, hserves.rep, setByte_untagged (hserves.untagged_outside hout) v⟩
  | frames pool =>
    obtain ⟨-, rfl⟩ := guarded hstep
    rfl

lemma Program.Sound.safe {s s' : Program} {u : ProgramUse} (hs : s.Sound)
    (hstep : s.step u = some s') : s.Safe u s' := by
  cases u with
  | malloc slab mapped size =>
    obtain ⟨hc, rfl⟩ := guarded hstep
    have hserved := Program.served_malloc hs hc.2
    refine ⟨fun hsize => ?_, hserved.kept⟩
    exact (hserved.shorten (Program.le_roundUp8 (by omega))).handed
  | calloc slab mapped count size =>
    obtain ⟨hc, rfl⟩ := guarded hstep
    obtain ⟨⟨hcount, -, ha⟩, hfit⟩ := hc
    obtain ⟨hserved, hzero⟩ := Program.served_calloc hs hcount ha (Program.round_of_fit hfit)
    exact ⟨fun p hp => ⟨(hserved.handed p hp).1, (hserved.handed p hp).2, hzero p hp⟩,
      hserved.kept⟩
  | free ptr =>
    obtain ⟨hc, rfl⟩ := guarded hstep
    by_cases hp : ptr ∈ s.live
    · exact (hs.free hp).2
    · obtain rfl := hc.resolve_right hp
      exact Kept.refl _ _
  | write addr v =>
    obtain ⟨hc, rfl⟩ := guarded hstep
    obtain ⟨p, hp, hin⟩ := hc
    obtain ⟨bs, hserves, -⟩ := (hs.up_of_live hp).serves
    exact ⟨bs, hserves.rep, setByte_untagged (hserves.untagged hp hin) v⟩
  | elsewhere addr v =>
    obtain ⟨hc, rfl⟩ := guarded hstep
    intro hinit
    obtain ⟨bs, hserves, -⟩ := (hs.up hinit).serves
    have hout := hc.resolve_left (by simp [hinit])
    exact ⟨bs, hserves.rep, setByte_untagged (hserves.untagged_outside hout) v⟩

/-- The `memset` of `calloc` stays in the heap if the product does not wrap around. -/
lemma Program.Sound.calloc_fits {s : Program} {slab mapped : Option ℕ} {count size : ℕ}
    (hs : s.Sound) (hcount : count < 2 ^ 64) (hround : count * size ≤ 2 ^ 64 - 8)
    (ha : Program.Answers slab mapped (count * size % 2 ^ 64)) :
    ∀ p ∈ (calloc s.heap slab mapped count size).1, p + count * size ≤ heapSlotEnd := by
  intro p hp
  obtain ⟨hserved, -⟩ := Program.served_calloc hs hcount ha fun _ _ => hround
  have hhand := (hserved.handed p hp).1
  have hbuilt := hserved.built (by rw [Option.mem_def.mp hp]; exact Option.some_ne_none p)
  have hlimit : (calloc s.heap slab mapped count size).2.heap.heapEnd ≤ heapSlotEnd :=
    (hserved.sound.up hbuilt).limit
  have := hhand.long
  have := hhand.inside
  omega

/-- **Clients of the allocators are safe**: in every step of every use of the kernel heap and of the
heap of a program a payload that is handed out is as long as was asked for (and aligned, in
ring 3), in the heap and apart from the live ones, no live payload is changed, and a client's
write changes no tag. `calloc` of fewer than 2³¹ bytes never faults. -/
theorem allocator_client_safe :
    (∀ s u s', KernelClients.Reachable s → s.step u = some s' → s.Safe u s') ∧
    (∀ s u s', Program.Reachable s → s.step u = some s' → s.Safe u s') ∧
    ∀ (s : Program) slab mapped count size, s.Reachable → count < 2 ^ 64 → size < 2 ^ 64 →
      count * size < 2 ^ 31 → Program.Answers slab mapped (count * size) →
      (s.step (.calloc slab mapped count size)).isSome := by
  refine ⟨fun s u s' hs hstep => hs.sound.safe hstep, fun s u s' hs hstep => hs.sound.safe hstep,
    fun s slab mapped count size hs hcount hsize hlt ha => ?_⟩
  have hmod : count * size % 2 ^ 64 = count * size := Nat.mod_eq_of_lt (by omega)
  rw [← hmod] at ha
  have hfit := hs.sound.calloc_fits hcount (by omega) ha
  rw [← hmod] at hfit
  simp only [Program.step]
  rw [if_pos ⟨⟨hcount, hsize, ha⟩, hfit⟩]
  rfl

/-- A request of 50 bytes while 100 others are in use, in the kernel and in a program. -/
theorem allocator_client_safe_hundred :
    (∃ s s', KernelClients.Reachable s ∧ s.live.length = 1 ∧ s.step (.kmalloc 50) = some s' ∧
      s'.live.length = 2 ∧ s.Safe (.kmalloc 50) s') ∧
    ∃ s s', Program.Reachable s ∧ s.live.length = 1 ∧ s.step (.malloc none none 50) = some s' ∧
      s'.live.length = 2 ∧ s.Safe (.malloc none none 50) s' := by
  obtain ⟨s, s', hs, hone, hstep, htwo⟩ := exists_reachable_kernel
  obtain ⟨t, t', ht, -, hone', -, hstep', htwo'⟩ := exists_reachable_program
  exact ⟨⟨s, s', hs, hone, hstep, htwo, allocator_client_safe.1 s _ s' hs hstep⟩,
    t, t', ht, hone', hstep', htwo', allocator_client_safe.2.1 t _ t' ht hstep'⟩

end TownOS.Memory
