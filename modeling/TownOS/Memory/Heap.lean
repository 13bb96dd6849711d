import TownOS.Foundations.DoublyLinked
import TownOS.Memory.Frames

/-!
The heap with boundary tags (`kernel/heap.c`, `libc/malloc.c`).

The two files are one allocator twice: the block layout, the two lists, the
search, the split and the merge are the same, and are written here once, over a
flat memory of bytes. What differs is where the slab comes from and how requests
are rounded: `kmalloc` takes frames, `malloc` asks the kernel with `SYS_MMAP`.

A block is a header, the payload and a footer. The header holds the size of the
payload, a state and the two pointers of the list the block is on; the footer
holds the size again, so that the block below can be found. The fixed nodes of
the two lists are in memory too, inside `el_ctl_actual`.
-/

namespace TownOS.Memory

open Bytes DoublyLinked

/-! ### Block format -/

/-- `EL_AVAILABLE`, the character `a`. -/
def elAvailable : UInt8 := 97

/-- `EL_USED`, the character `u`. -/
def elUsed : UInt8 := 117

/-- `EL_BEGIN_BLOCK`, the character `B`. -/
def elBeginBlock : UInt8 := 66

/-- `EL_END_BLOCK`, the character `E`. -/
def elEndBlock : UInt8 := 69

/-- `sizeof(el_blockhead_t)`. -/
def sizeofHead : ℕ := 32

/-- `sizeof(el_blockfoot_t)`. -/
def sizeofFoot : ℕ := 8

/-- `EL_BLOCK_OVERHEAD`. -/
def elBlockOverhead : ℕ := 40

section Fields

variable (m : ℕ → UInt8) (b v : ℕ)

/-- `b->size`, for a header; `f->size`, for a footer. -/
def headSize : ℕ := word m b

/-- `b->state`. -/
def headState : UInt8 := m (b + 8)

/-- `b->next`. -/
def headNext : ℕ := word m (b + 16)

/-- `b->prev`. -/
def headPrev : ℕ := word m (b + 24)

/-- `b->size = v`. -/
def setSize : ℕ → UInt8 := setWord m b v

/-- `b->state = x`. -/
def setState (x : UInt8) : ℕ → UInt8 := setByte m (b + 8) x

/-- `b->next = v`. -/
def setNext : ℕ → UInt8 := setWord m (b + 16) v

/-- `b->prev = v`. -/
def setPrev : ℕ → UInt8 := setWord m (b + 24) v

/-- The pointers of the nodes. -/
def headLinks : Links ℕ := ⟨headNext m, headPrev m⟩

end Fields

/-- The two lists. -/
inductive Side where
  | avail
  | used
  deriving DecidableEq

/-- `el_blocklist_t`: `beg` and `fin` are the addresses of its fixed nodes. -/
structure BlockList where
  beg : ℕ
  fin : ℕ
  length : ℕ
  bytes : ℕ

/-- A memory with the variables of the allocator; `ctl` is the address of `el_ctl_actual`. -/
structure Heap where
  mem : ℕ → UInt8
  ctl : ℕ
  heapStart : ℕ
  heapEnd : ℕ
  heapBytes : ℕ
  avail : BlockList
  used : BlockList

namespace Heap

/-- `el_ctl->avail` or `el_ctl->used`. -/
def list (h : Heap) : Side → BlockList
  | .avail => h.avail
  | .used => h.used

/-- Change the memory and one of the lists. -/
def setList (h : Heap) (s : Side) (x : (ℕ → UInt8) × BlockList) : Heap :=
  match s with
  | .avail => { h with mem := x.1, avail := x.2 }
  | .used => { h with mem := x.1, used := x.2 }

/-- Change the memory. -/
def setMem (h : Heap) (m : ℕ → UInt8) : Heap := { h with mem := m }

/-- Change the memory, of which the heap takes in more. -/
def grow (h : Heap) (m : ℕ → UInt8) (nbytes : ℕ) : Heap :=
  { h with mem := m, heapBytes := h.heapBytes + nbytes, heapEnd := h.heapEnd + nbytes }

end Heap

/-! ### Boundary tags -/

/-- `el_get_footer`. -/
def elGetFooter (m : ℕ → UInt8) (head : ℕ) : ℕ := head + (sizeofHead + headSize m head)

/-- `el_get_header`. -/
def elGetHeader (m : ℕ → UInt8) (foot : ℕ) : ℕ := foot - (sizeofHead + headSize m foot)

/-- `el_block_above`. -/
def elBlockAbove (h : Heap) (block : ℕ) : Option ℕ :=
  if h.heapEnd ≤ block + (headSize h.mem block + elBlockOverhead) then none
  else some (block + (headSize h.mem block + elBlockOverhead))

/-- `el_block_below`. -/
def elBlockBelow (h : Heap) (block : ℕ) : Option ℕ :=
  if block ≤ h.heapStart then none else some (elGetHeader h.mem (block - sizeofFoot))

/-! ### List surgery -/

/-- `&list->beg_actual`, for the list of a side. -/
def begActual (ctl : ℕ) : Side → ℕ
  | .avail => ctl + 24
  | .used => ctl + 120

/-- `&list->end_actual`. -/
def endActual (ctl : ℕ) : Side → ℕ
  | .avail => ctl + 56
  | .used => ctl + 152

/-- `sizeof(el_ctl_t)`. -/
def sizeofCtl : ℕ := 232

/-- `el_init_blocklist`. -/
def elInitBlocklist (m : ℕ → UInt8) (beg fin : ℕ) : (ℕ → UInt8) × BlockList :=
  let m := setState m beg elBeginBlock
  let m := setSize m beg 0
  let m := setState m fin elEndBlock
  let m := setSize m fin 0
  let m := setNext m beg fin
  let m := setPrev m beg 0
  let m := setNext m fin 0
  let m := setPrev m fin beg
  (m, ⟨beg, fin, 0, 0⟩)

/-- The pointers `el_add_block_front` writes. -/
def linkFront (m : ℕ → UInt8) (start first block : ℕ) : ℕ → UInt8 :=
  setNext (setPrev (setPrev (setNext m block first) first block) block start) start block

/-- `el_add_block_front`. -/
def elAddBlockFront (m : ℕ → UInt8) (list : BlockList) (block : ℕ) : (ℕ → UInt8) × BlockList :=
  let m := linkFront m list.beg (headNext m list.beg) block
  (m, { list with
    length := list.length + 1
    bytes := list.bytes + (headSize m block + elBlockOverhead) })

/-- The pointers `el_remove_block` writes. -/
def unlink (m : ℕ → UInt8) (prev next block : ℕ) : ℕ → UInt8 :=
  setPrev (setNext (setPrev (setNext m prev next) next prev) block 0) block 0

/-- `el_remove_block`. -/
def elRemoveBlock (m : ℕ → UInt8) (list : BlockList) (block : ℕ) : (ℕ → UInt8) × BlockList :=
  (unlink m (headPrev m block) (headNext m block) block,
    { list with
      length := list.length - 1
      bytes := list.bytes - (headSize m block + elBlockOverhead) })

namespace Heap

/-- `el_add_block_front` on a list of the heap. -/
def addFront (h : Heap) (s : Side) (block : ℕ) : Heap :=
  h.setList s (elAddBlockFront h.mem (h.list s) block)

/-- `el_remove_block` on a list of the heap. -/
def remove (h : Heap) (s : Side) (block : ℕ) : Heap :=
  h.setList s (elRemoveBlock h.mem (h.list s) block)

end Heap

/-! ### Allocation -/

/-- `el_find_first_avail`. The bound on the walk is the one of `heap_used_bytes`, the most
blocks the heap could hold. -/
def elFindFirstAvail (h : Heap) (size : ℕ) : Option ℕ :=
  search (headLinks h.mem) (fun f => headState h.mem f = elEndBlock)
    (fun f => headState h.mem f = elAvailable ∧ size ≤ headSize h.mem f)
    (h.heapBytes / elBlockOverhead + 1) (headNext h.mem h.avail.beg)

/-- The tags `el_split_block` writes, and the header of the new block. -/
def splitTags (m : ℕ → UInt8) (block oldf newSize left : ℕ) : ℕ × (ℕ → UInt8) :=
  let m := setSize m block newSize
  let m := setSize m (elGetFooter m block) newSize
  let m := setSize m oldf left
  let newb := elGetHeader m oldf
  (newb, setSize m newb left)

/-- `el_split_block`; `none` for NULL. -/
def elSplitBlock (m : ℕ → UInt8) (block newSize : ℕ) : Option (ℕ × (ℕ → UInt8)) :=
  if headSize m block < (newSize + elBlockOverhead) % 2 ^ 64 then none
  else some (splitTags m block (elGetFooter m block) newSize
    (headSize m block - newSize - elBlockOverhead))

/-- `el_malloc`, from the block the search has found. -/
def elTake (h : Heap) (b nbytes : ℕ) : Heap :=
  let h := h.remove .avail b
  match elSplitBlock h.mem b nbytes with
  | none => (h.setMem (setState h.mem b elUsed)).addFront .used b
  | some (newb, m) =>
    let h := (h.setMem (setState m b elUsed)).addFront .used b
    (h.setMem (setState h.mem newb elAvailable)).addFront .avail newb

/-- `el_malloc`; `none` for NULL. -/
def elMalloc (h : Heap) (nbytes : ℕ) : Option ℕ × Heap :=
  match elFindFirstAvail h nbytes with
  | none => (none, h)
  | some b => (some (b + sizeofHead), elTake h b nbytes)

/-! ### Freeing -/

/-- The tags `el_merge_block_with_above` writes. -/
def mergeTags (m : ℕ → UInt8) (lower up : ℕ) : ℕ → UInt8 :=
  let m := setSize m lower (headSize m lower + elBlockOverhead + headSize m up)
  setSize m (elGetFooter m lower) (headSize m lower)

/-- `el_merge_block_with_above`, once both blocks are known to be available. -/
def elMerge (h : Heap) (lower up : ℕ) : Heap :=
  let h := (h.remove .avail lower).remove .avail up
  (h.setMem (mergeTags h.mem lower up)).addFront .avail lower

/-- `el_merge_block_with_above`. -/
def elMergeBlockWithAbove (h : Heap) (lower : Option ℕ) : Heap :=
  match lower with
  | none => h
  | some lower =>
    if headState h.mem lower ≠ elAvailable then h
    else
      match elBlockAbove h lower with
      | none => h
      | some up => if headState h.mem up ≠ elAvailable then h else elMerge h lower up

/-- `el_free` puts a used block on the list of the available ones. -/
def elRelease (h : Heap) (block : ℕ) : Heap :=
  let h := h.remove .used block
  (h.setMem (setState h.mem block elAvailable)).addFront .avail block

/-- The two merges of `el_free`, of a block with the one above and of the one below with it. -/
def elCoalesce (h : Heap) (block : ℕ) : Heap :=
  let h := elMergeBlockWithAbove h (some block)
  elMergeBlockWithAbove h (elBlockBelow h block)

/-- `el_free`, from the header on. -/
def elFreeBlock (h : Heap) (block : ℕ) : Heap :=
  if headState h.mem block ≠ elUsed ∨ headState h.mem block = 0 then h
  else elCoalesce (elRelease h block) block

/-- `el_free`; 0 is NULL. -/
def elFree (h : Heap) (ptr : ℕ) : Heap := if ptr = 0 then h else elFreeBlock h (ptr - sizeofHead)

/-! ### The slab -/

/-- `EL_PAGE_BYTES`, in either file. -/
def elPageBytes : ℕ := 4096

/-- `HEAP_INITIAL_PAGES`. -/
def heapInitialPages : ℕ := 16

/-- `HEAP_GROW_PAGES`. -/
def heapGrowPages : ℕ := 16

/-- The lists of `el_init`, with nothing in the heap yet. -/
def elInitLists (m : ℕ → UInt8) (ctl heap : ℕ) : Heap :=
  let avail := elInitBlocklist m (begActual ctl .avail) (endActual ctl .avail)
  let used := elInitBlocklist avail.1 (begActual ctl .used) (endActual ctl .used)
  { mem := used.1, ctl := ctl, heapStart := heap, heapEnd := heap, heapBytes := 0,
    avail := avail.2, used := used.2 }

/-- A block is written at an address, header and footer. -/
def writeBlock (m : ℕ → UInt8) (b size : ℕ) (state : UInt8) : ℕ → UInt8 :=
  let m := setState (setSize m b size) b state
  setSize m (elGetFooter m b) size

/-- `el_init`, on a slab it was given. The list is written by hand, with the pointers of
`el_add_block_front`. -/
def elInit (m : ℕ → UInt8) (ctl heap initial : ℕ) : Heap :=
  let h := elInitLists m ctl heap
  (h.grow (writeBlock h.mem heap (initial - elBlockOverhead) elAvailable) initial).addFront .avail
    heap

/-- The header and the footer of the block `el_append_pages_to_heap` makes. -/
def freshTags (m : ℕ → UInt8) (b size : ℕ) : ℕ → UInt8 :=
  let m := setSize m b size
  let m := setSize m (b + (sizeofHead + size)) size
  setNext (setPrev (setState m b elAvailable) b 0) b 0

/-- `el_append_pages_to_heap`, once the new pages are known to begin at `heap_end`. -/
def elExtend (h : Heap) (nbytes : ℕ) : Heap :=
  let b := h.heapEnd
  let h := (h.grow (freshTags h.mem b (nbytes - elBlockOverhead)) nbytes).addFront .avail b
  elMergeBlockWithAbove h (elBlockBelow h b)

/-- The number of pages by which `kmalloc` and `malloc` grow the heap for a request. -/
def growPages (size : ℕ) : ℕ :=
  let need := (size + elBlockOverhead) % 2 ^ 64
  let npages := (((need + elPageBytes - 1) % 2 ^ 64 / elPageBytes : ℕ) : ℤ).bmod (2 ^ 32)
  if npages < heapGrowPages then heapGrowPages else npages.toNat

/-! ### The kernel heap -/

/-- `free_frame` for each of a run of frames. -/
def FramePool.freeFrames (p : FramePool) (base npages : ℕ) : FramePool :=
  (List.range npages).foldl (fun p i => p.freeFrame (base + i * elPageBytes)) p

/-- `el_append_pages_to_heap` of the kernel; the first component is whether it returns 0. -/
def elAppendPagesToHeap (h : Heap) (p : FramePool) (npages : ℕ) : Bool × Heap × FramePool :=
  match p.allocFramesContiguous npages with
  | (none, p) => (false, h, p)
  | (some mapped, p) =>
    if mapped ≠ h.heapEnd then (false, h, p.freeFrames mapped npages)
    else (true, elExtend h (npages * elPageBytes), p)

/-- `heap_init`; `none` if there is no slab. -/
def heapInit (m : ℕ → UInt8) (ctl : ℕ) (p : FramePool) : Option (Heap × FramePool) :=
  match p.allocFramesContiguous heapInitialPages with
  | (none, _) => none
  | (some heap, p) => some (elInit m ctl heap (heapInitialPages * elPageBytes), p)

/-- The second half of `kmalloc`: grow the heap, then try once more. -/
def kmallocGrow (h : Heap) (p : FramePool) (size npages : ℕ) : Option ℕ × Heap × FramePool :=
  match elAppendPagesToHeap h p npages with
  | (false, h, p) => (none, h, p)
  | (true, h, p) =>
    let r := elMalloc h size
    (r.1, r.2, p)

/-- `kmalloc`; `none` for NULL. -/
def kmalloc (h : Heap) (p : FramePool) (size : ℕ) : Option ℕ × Heap × FramePool :=
  match elMalloc h size with
  | (some ptr, h) => (some ptr, h, p)
  | (none, h) => kmallocGrow h p size (growPages size)

/-- `kfree`. -/
def kfree (h : Heap) (ptr : ℕ) : Heap := elFree h ptr

/-! ### The ring-3 heap -/

/-- The variables of `libc/malloc.c`: the heap is there once `initialised` is set. -/
structure UserHeap where
  initialised : Bool
  heap : Heap

/-- `SYS_MMAP` hands out zeroed pages. -/
def Heap.mapZeroed (h : Heap) (base len : ℕ) : Heap := h.setMem (fill h.mem base len 0)

/-- `el_append_pages_to_heap` of a program, with the address `SYS_MMAP` returns, if any. A slab
that is not adjacent goes back to the kernel with `SYS_MUNMAP`. -/
def elAppendPagesToUserHeap (h : Heap) (mapped : Option ℕ) (npages : ℕ) : Bool × Heap :=
  match mapped with
  | none => (false, h)
  | some mapped =>
    if mapped ≠ h.heapEnd then (false, h)
    else (true, elExtend (h.mapZeroed mapped (npages * elPageBytes)) (npages * elPageBytes))

/-- The first slab of a program. -/
def elInitUser (h : Heap) (heap : ℕ) : Heap :=
  elInit (h.mapZeroed heap (heapInitialPages * elPageBytes)).mem h.ctl heap
    (heapInitialPages * elPageBytes)

/-- The first call of `malloc` builds the heap, with the address `SYS_MMAP` returns, if any. -/
def UserHeap.build (u : UserHeap) (slab : Option ℕ) : Option UserHeap :=
  if u.initialised then some u else slab.map fun heap => ⟨true, elInitUser u.heap heap⟩

/-- `(size + 7) & ~7`. -/
def roundUp8 (size : ℕ) : ℕ := (size + 7) % 2 ^ 64 / 8 * 8

/-- The last part of `malloc`: grow the heap, then try once more. -/
def mallocGrow (h : Heap) (mapped : Option ℕ) (size npages : ℕ) : Option ℕ × Heap :=
  match elAppendPagesToUserHeap h mapped npages with
  | (false, h) => (none, h)
  | (true, h) => elMalloc h size

/-- `malloc` on a heap that is there, with a rounded request and the address `SYS_MMAP` returns
for a further slab, if any. -/
def growAndRetry (h : Heap) (mapped : Option ℕ) (size : ℕ) : Option ℕ × Heap :=
  match elMalloc h size with
  | (some ptr, h) => (some ptr, h)
  | (none, h) => mallocGrow h mapped size (growPages size)

/-- `malloc`; `none` for NULL. The two addresses are what `SYS_MMAP` returns for the first
slab and for a further one. -/
def malloc (u : UserHeap) (slab mapped : Option ℕ) (size : ℕ) : Option ℕ × UserHeap :=
  match u.build slab with
  | none => (none, u)
  | some u =>
    let r := growAndRetry u.heap mapped (roundUp8 size)
    (r.1, { u with heap := r.2 })

/-- `free`. -/
def free (u : UserHeap) (ptr : ℕ) : UserHeap :=
  if ptr = 0 then u else { u with heap := elFree u.heap ptr }

/-- `calloc`; `none` for NULL. -/
def calloc (u : UserHeap) (slab mapped : Option ℕ) (count size : ℕ) : Option ℕ × UserHeap :=
  if count ≠ 0 ∧ (2 ^ 64 - 1) / count < size then (none, u)
  else
    let total := count * size % 2 ^ 64
    match malloc u slab mapped total with
    | (none, u) => (none, u)
    | (some p, u) => (some p, { u with heap := u.heap.setMem (fill u.heap.mem p total 0) })

end TownOS.Memory
