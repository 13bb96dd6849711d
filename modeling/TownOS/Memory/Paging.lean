import TownOS.Memory.Frames

/-!
Address spaces (`kernel/paging.c`, `map_user_stack` of `kernel/scheduler.c`).

Page tables are frames of physical memory. The kernel reaches them at their physical
addresses, so a table is its address, and an entry of it is a 64-bit word of memory. An
address space is the address of its PML4.

`translate` is the page walk of the CPU: it is not part of the kernel, but what the
kernel's page tables are for.
-/

namespace TownOS.Memory

open Bytes

/-! ### Constants -/

/-- `PG_PRESENT`. -/
def pgPresent : ℕ := 1

/-- `PG_WRITABLE`. -/
def pgWritable : ℕ := 2

/-- `PG_USER`. -/
def pgUser : ℕ := 4

/-- `PG_HUGE`. -/
def pgHuge : ℕ := 0x80

/-- `PTE_ADDR_MASK`. -/
def pteAddrMask : ℕ := 0x000FFFFFFFFFF000

/-- `PD_ENTRIES` and `PT_ENTRIES`. -/
def tableEntries : ℕ := 512

/-- `USER_PD_INDEX_CODE`. -/
def userPdIndexCode : ℕ := 2

/-- `USER_PD_INDEX_STACK`. -/
def userPdIndexStack : ℕ := 3

/-- `USER_PD_INDEX_HEAP`. -/
def userPdIndexHeap : ℕ := 4

/-- `user_pd_slots`. -/
def userPdSlots : List ℕ := [userPdIndexCode, userPdIndexStack, userPdIndexHeap]

/-- `is_user_pd_slot`. -/
def isUserPdSlot (index : ℕ) : Bool := userPdSlots.contains index

/-- The flags of the entries above a leaf. -/
def openFlags : ℕ := pgPresent ||| pgWritable ||| pgUser

/-- `USER_HEAP_PAGE_FLAGS` and `USER_PAGE_FLAGS`. -/
def userPageFlags : ℕ := pgPresent ||| pgWritable ||| pgUser

/-- `PML4_INDEX`. -/
def pml4Index (v : ℕ) : ℕ := (v >>> 39) &&& 0x1FF

/-- `PDPT_INDEX`. -/
def pdptIndex (v : ℕ) : ℕ := (v >>> 30) &&& 0x1FF

/-- `PD_INDEX`. -/
def pdIndex (v : ℕ) : ℕ := (v >>> 21) &&& 0x1FF

/-- `PT_INDEX`. -/
def ptIndex (v : ℕ) : ℕ := (v >>> 12) &&& 0x1FF

/-- `TWO_MB`. -/
def twoMb : ℕ := 0x200000

/-- The entry of a huge page of the identity map. -/
def hugeEntry (i flags : ℕ) : ℕ := (i * twoMb) ||| (pgPresent ||| pgWritable ||| pgHuge ||| flags)

/-- `pd_table`, as `boot/boot.asm` and `extend_identity_map` leave it: the first 32 MB, and the
rest of the pool, which ends at `map_top`. -/
def pdTable (mapTop i : ℕ) : ℕ :=
  if i = userPdIndexCode ∨ i = userPdIndexStack then hugeEntry i pgUser
  else if i < bootMapTop / twoMb then hugeEntry i 0
  else if i < min ((mapTop + (twoMb - 1)) / twoMb * twoMb) oneGb / twoMb then hugeEntry i 0
  else 0

/-! ### Physical memory -/

/-- The pool of frames, and physical memory. -/
structure Phys where
  pool : FramePool
  mem : ℕ → UInt8

namespace Phys

/-- An entry of a table. -/
def entry (s : Phys) (table i : ℕ) : ℕ := word s.mem (table + 8 * i)

/-- Write an entry of a table. -/
def setEntry (s : Phys) (table i e : ℕ) : Phys := { s with mem := setWord s.mem (table + 8 * i) e }

/-- `memset(frame, 0, FRAME_SIZE)`. -/
def zeroFrame (s : Phys) (frame : ℕ) : Phys := { s with mem := fill s.mem frame frameSize 0 }

/-- `memcpy` of some bytes to a frame. -/
def copyTo (s : Phys) (frame : ℕ) (bytes : List UInt8) : Phys :=
  { s with mem := storeAt s.mem frame bytes }

/-- `alloc_frame`. -/
def allocFrame (s : Phys) : Option ℕ × Phys :=
  (s.pool.allocFrame.1, { s with pool := s.pool.allocFrame.2 })

/-- `free_frame`. -/
def freeFrame (s : Phys) (addr : ℕ) : Phys := { s with pool := s.pool.freeFrame addr }

/-- `free_frame`, for a frame that may not have been found. -/
def freeFound (s : Phys) (addr : Option ℕ) : Phys := addr.elim s s.freeFrame

end Phys

/-! ### The functions of `paging.c` -/

/-- `entry & PTE_ADDR_MASK`. -/
def pteAddr (e : ℕ) : ℕ := e &&& pteAddrMask

/-- The entry that points to a table. -/
def tableEntry (t : ℕ) : ℕ := t ||| openFlags

/-- `alloc_table`. -/
def allocTable (s : Phys) : Option ℕ × Phys :=
  match s.allocFrame with
  | (none, s) => (none, s)
  | (some frame, s) => (some frame, s.zeroFrame frame)

/-- `next_table`, for an entry of a table. -/
def nextTable (s : Phys) (table i : ℕ) : Option ℕ × Phys :=
  if s.entry table i &&& pgPresent = 0 then
    match allocTable s with
    | (none, s) => (none, s)
    | (some t, s) =>
      let s := s.setEntry table i (tableEntry t)
      (some (pteAddr (s.entry table i)), s)
  else (some (pteAddr (s.entry table i)), s)

/-- The loop that clones the kernel half of the boot page directory. -/
def cloneKernel (s : Phys) (pdTable : ℕ → ℕ) (pd : ℕ) : Phys :=
  (List.range tableEntries).foldl
    (fun s i => if isUserPdSlot i then s else s.setEntry pd i (pdTable i)) s

/-- `paging_create_address_space`; `room` is whether `kmalloc` finds room for the handle, and
`pdTable` the boot page directory. -/
def pagingCreateAddressSpace (s : Phys) (pdTable : ℕ → ℕ) (room : Bool) : Option ℕ × Phys :=
  if !room then (none, s)
  else
    let (pml4, s) := allocTable s
    let (pdpt, s) := allocTable s
    let (pd, s) := allocTable s
    match pml4, pdpt, pd with
    | some pml4, some pdpt, some pd =>
      let s := cloneKernel s pdTable pd
      let s := s.setEntry pdpt 0 (tableEntry pd)
      let s := s.setEntry pml4 0 (tableEntry pdpt)
      (some pml4, s)
    | _, _, _ => (none, ((s.freeFound pml4).freeFound pdpt).freeFound pd)

/-- `paging_map_page`; `true` for 0. -/
def pagingMapPage (s : Phys) (pml4 virt phys flags : ℕ) : Bool × Phys :=
  match nextTable s pml4 (pml4Index virt) with
  | (none, s) => (false, s)
  | (some pdpt, s) =>
    match nextTable s pdpt (pdptIndex virt) with
    | (none, s) => (false, s)
    | (some pd, s) =>
      match nextTable s pd (pdIndex virt) with
      | (none, s) => (false, s)
      | (some pt, s) => (true, s.setEntry pt (ptIndex virt) (phys &&& pteAddrMask ||| flags))

/-- `destroy_page_table`. -/
def destroyPageTable (s : Phys) (pt : ℕ) : Phys :=
  ((List.range tableEntries).foldl
    (fun s i => if s.entry pt i &&& pgPresent ≠ 0 then s.freeFrame (pteAddr (s.entry pt i)) else s)
    s).freeFrame pt

/-- The round of `paging_destroy_address_space` for one slot of the page directory. -/
def destroySlot (pd : ℕ) (s : Phys) (slot : ℕ) : Phys :=
  if s.entry pd slot &&& pgPresent = 0 ∨ s.entry pd slot &&& pgHuge ≠ 0 then s
  else (destroyPageTable s (pteAddr (s.entry pd slot))).setEntry pd slot 0

/-- `paging_destroy_address_space`. -/
def pagingDestroyAddressSpace (s : Phys) (pml4 : ℕ) : Phys :=
  let s :=
    if s.entry pml4 0 &&& pgPresent ≠ 0 then
      let pdpt := pteAddr (s.entry pml4 0)
      let s :=
        if s.entry pdpt 0 &&& pgPresent ≠ 0 then
          let pd := pteAddr (s.entry pdpt 0)
          (userPdSlots.foldl (destroySlot pd) s).freeFrame pd
        else s
      s.freeFrame pdpt
    else s
  s.freeFrame pml4

/-- `lookup_pte`: a table and an index in it. -/
def lookupPte (s : Phys) (pml4 virt : ℕ) : Option (ℕ × ℕ) :=
  let e := s.entry pml4 (pml4Index virt)
  if e &&& pgPresent = 0 then none
  else
    let e := s.entry (pteAddr e) (pdptIndex virt)
    if e &&& pgPresent = 0 then none
    else
      let e := s.entry (pteAddr e) (pdIndex virt)
      if e &&& pgPresent = 0 ∨ e &&& pgHuge ≠ 0 then none
      else some (pteAddr e, ptIndex virt)

/-- The round of `paging_unmap_user_range` for one page. -/
def unmapPage (pml4 : ℕ) (s : Phys) (va : ℕ) : Phys :=
  match lookupPte s pml4 va with
  | none => s
  | some (pt, i) =>
    if s.entry pt i &&& pgPresent = 0 then s
    else (s.freeFrame (pteAddr (s.entry pt i))).setEntry pt i 0

/-- The addresses of the pages of a range. -/
def pagesOf (base length : ℕ) : List ℕ :=
  (List.range ((length + (frameSize - 1)) / frameSize)).map fun i => base + i * frameSize

/-- `paging_unmap_user_range`, for a range that does not wrap around. -/
def pagingUnmapUserRange (s : Phys) (pml4 base length : ℕ) : Phys :=
  (pagesOf base length).foldl (unmapPage pml4) s

/-- The loop of `paging_unmap_user_range`, for every range: its arithmetic is that of 64
bits. `stop` is `base + length`; there is nothing if the loop is not at its end after
`fuel` rounds. -/
def unmapLoop (pml4 stop : ℕ) : ℕ → ℕ → Phys → Option Phys
  | 0, _, _ => none
  | fuel + 1, va, s =>
    if va < stop then unmapLoop pml4 stop fuel ((va + frameSize) % 2 ^ 64) (unmapPage pml4 s va)
    else some s

/-- `paging_unmap_user_range` returns. -/
def Unmaps (pml4 base length : ℕ) (s s' : Phys) : Prop :=
  ∃ fuel, unmapLoop pml4 ((base + length) % 2 ^ 64) fuel base s = some s'

/-- The loop of `paging_map_user_range`, with the pages that are left; `done` bytes are mapped. -/
def mapUserPages (pml4 base : ℕ) : ℕ → List ℕ → Phys → Bool × Phys
  | _, [], s => (true, s)
  | done, va :: vas, s =>
    match s.allocFrame with
    | (none, s) => (false, pagingUnmapUserRange s pml4 base done)
    | (some frame, s) =>
      match pagingMapPage (s.zeroFrame frame) pml4 va frame userPageFlags with
      | (false, s) => (false, pagingUnmapUserRange (s.freeFrame frame) pml4 base done)
      | (true, s) => mapUserPages pml4 base (done + frameSize) vas s

/-- `paging_map_user_range`, for a range that does not wrap around; `true` for 0. -/
def pagingMapUserRange (s : Phys) (pml4 base length : ℕ) : Bool × Phys :=
  mapUserPages pml4 base 0 (pagesOf base length) s

/-- `USER_STACK_BASE`. -/
def userStackBase : ℕ := 0x7C0000

/-! ### What the CPU makes of it -/

/-- Bit 47 and those above it are equal. -/
def Canonical (va : ℕ) : Prop := va < 2 ^ 47 ∨ 2 ^ 64 - 2 ^ 47 ≤ va ∧ va < 2 ^ 64

instance (va : ℕ) : Decidable (Canonical va) := inferInstanceAs (Decidable (_ ∨ _))

/-- Where a page is in physical memory, and what ring 3 may do with it. -/
structure Leaf where
  frame : ℕ
  writable : Bool
  deriving DecidableEq, Repr

/-- The page walk of the CPU: the frame behind an address, and the flags that are set on every
level. -/
def translate (s : Phys) (pml4 va : ℕ) : Option (ℕ × ℕ) :=
  if ¬Canonical va then none
  else
    let e₄ := s.entry pml4 (pml4Index va)
    if e₄ &&& pgPresent = 0 then none
    else
      let e₃ := s.entry (pteAddr e₄) (pdptIndex va)
      if e₃ &&& pgPresent = 0 then none
      else
        let e₂ := s.entry (pteAddr e₃) (pdIndex va)
        if e₂ &&& pgPresent = 0 then none
        else if e₂ &&& pgHuge ≠ 0 then
          some (pteAddr e₂ + ptIndex va * frameSize, e₄ &&& e₃ &&& e₂)
        else
          let e₁ := s.entry (pteAddr e₂) (ptIndex va)
          if e₁ &&& pgPresent = 0 then none else some (pteAddr e₁, e₄ &&& e₃ &&& e₂ &&& e₁)

/-- The page of ring 3 at an address. -/
def userPage (s : Phys) (pml4 va : ℕ) : Option Leaf :=
  match translate s pml4 va with
  | none => none
  | some (frame, flags) =>
    if flags &&& pgUser = 0 then none else some ⟨frame, flags &&& pgWritable ≠ 0⟩

end TownOS.Memory
