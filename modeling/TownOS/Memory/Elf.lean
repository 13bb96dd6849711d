import TownOS.Memory.Paging

/-!
The program loader (`kernel/elf.c`).

A file is a list of bytes. The loader gets a pointer to them, and nothing but its own checks
keeps it inside; so a read outside of the file is an outcome of the model, as is a loop that
does not end.
-/

namespace TownOS.Memory

open Bytes

/-! ### Constants -/

/-- `ELF64_EHDR_SIZE`. -/
def elf64EhdrSize : ℕ := 64

/-- `ELF64_PHDR_SIZE`. -/
def elf64PhdrSize : ℕ := 56

/-- `ELF_MAG0` to `ELF_MAG3`. -/
def elfMag : List UInt8 := [0x7F, 0x45, 0x4C, 0x46]

/-- `ELFCLASS64`. -/
def elfClass64 : ℕ := 2

/-- `ELFDATA2LSB`. -/
def elfData2Lsb : ℕ := 1

/-- `EV_CURRENT`. -/
def evCurrent : ℕ := 1

/-- `ET_EXEC`. -/
def etExec : ℕ := 2

/-- `EM_X86_64`. -/
def emX8664 : ℕ := 62

/-- `PT_LOAD`. -/
def ptLoad : ℕ := 1

/-- `PF_W`. -/
def pfW : ℕ := 2

/-- `ELF_MAX_PHNUM`. -/
def elfMaxPhnum : ℕ := 32

/-- `ELF_LOAD_MIN_VADDR`. -/
def elfLoadMinVaddr : ℕ := 0x400000

/-- `ELF_LOAD_MAX_VADDR`. -/
def elfLoadMaxVaddr : ℕ := userStackBase

/-! ### Reading the file -/

/-- Why a file is rejected. -/
inductive Reason where
  | tooSmall | badMagic | notElf64 | notLittleEndian | unknownVersion | notX8664 | notExec
  | phentsize | noHeaders | tooManyHeaders | tableOutside | contentsOutside | memszTooSmall
  | notAligned | noLoadable | wraps | outsideWindow | noFrames | noTableFrames
  deriving DecidableEq, Repr

/-- How the loader can fail: it returns -1, it reads a byte that is not the file's, or a loop goes
on past the number of rounds it has. -/
inductive Failure where
  | reject (reason : Reason)
  | outside
  | endless
  deriving DecidableEq, Repr

/-- The bytes from an offset on, as `memcpy` reads them. -/
def readBytes (file : List UInt8) (offset length : ℕ) : Except Failure (List UInt8) :=
  if offset + length ≤ file.length then .ok ((file.drop offset).take length) else .error .outside

/-- A field of a packed structure. -/
def readField (file : List UInt8) (offset size : ℕ) : Except Failure ℕ :=
  if offset + size ≤ file.length then .ok (leNat (fun i => file.getD i 0) offset size)
  else .error .outside

/-- The fields of `struct elf64_ehdr` that the loader reads. -/
structure Ehdr where
  eIdent : List UInt8
  eType : ℕ
  eMachine : ℕ
  eEntry : ℕ
  ePhoff : ℕ
  ePhentsize : ℕ
  ePhnum : ℕ
  deriving DecidableEq, Repr

/-- The header at the start of a file. -/
def readEhdr (file : List UInt8) : Except Failure Ehdr := do
  let eIdent ← readBytes file 0 16
  let eType ← readField file 16 2
  let eMachine ← readField file 18 2
  let eEntry ← readField file 24 8
  let ePhoff ← readField file 32 8
  let ePhentsize ← readField file 54 2
  let ePhnum ← readField file 56 2
  return ⟨eIdent, eType, eMachine, eEntry, ePhoff, ePhentsize, ePhnum⟩

/-- The fields of `struct elf64_phdr` that the loader reads. -/
structure Phdr where
  pType : ℕ
  pFlags : ℕ
  pOffset : ℕ
  pVaddr : ℕ
  pFilesz : ℕ
  pMemsz : ℕ
  deriving DecidableEq, Repr

/-- `phdrs[i]`, for a table at an offset. -/
def readPhdr (file : List UInt8) (phoff i : ℕ) : Except Failure Phdr := do
  let pType ← readField file (phoff + i * elf64PhdrSize) 4
  let pFlags ← readField file (phoff + i * elf64PhdrSize + 4) 4
  let pOffset ← readField file (phoff + i * elf64PhdrSize + 8) 8
  let pVaddr ← readField file (phoff + i * elf64PhdrSize + 16) 8
  let pFilesz ← readField file (phoff + i * elf64PhdrSize + 32) 8
  let pMemsz ← readField file (phoff + i * elf64PhdrSize + 40) 8
  return ⟨pType, pFlags, pOffset, pVaddr, pFilesz, pMemsz⟩

/-! ### Validation -/

/-- `range_in_file`. -/
def rangeInFile (offset length fileSize : ℕ) : Bool :=
  if fileSize < offset then false else length ≤ fileSize - offset

/-- `is_page_aligned`. -/
def isPageAligned (value : ℕ) : Bool := value &&& (frameSize - 1) = 0

/-- `reject`, unless a check is passed. -/
def require (check : Bool) (reason : Reason) : Except Failure Unit :=
  if check then .ok () else .error (.reject reason)

/-- The checks of `elf_validate` on a header of type `PT_LOAD`. -/
def checkSegment (file : List UInt8) (ph : Phdr) : Except Failure Unit := do
  require (rangeInFile ph.pOffset ph.pFilesz file.length) .contentsOutside
  require (ph.pFilesz ≤ ph.pMemsz) .memszTooSmall
  require (isPageAligned ph.pVaddr && isPageAligned ph.pMemsz) .notAligned

/-- The loop of `elf_validate` over the program headers, with those that are left; it counts the
ones of type `PT_LOAD`. -/
def checkSegments (file : List UInt8) (phoff : ℕ) : List ℕ → ℕ → Except Failure ℕ
  | [], loadable => .ok loadable
  | i :: is, loadable => do
      let ph ← readPhdr file phoff i
      if ph.pType ≠ ptLoad then checkSegments file phoff is loadable
      else
        checkSegment file ph
        checkSegments file phoff is (loadable + 1)

/-- `elf_validate`. -/
def elfValidate (file : List UInt8) : Except Failure Ehdr := do
  require (elf64EhdrSize ≤ file.length) .tooSmall
  let header ← readEhdr file
  require (header.eIdent.take 4 = elfMag) .badMagic
  require ((header.eIdent.getD 4 0).toNat = elfClass64) .notElf64
  require ((header.eIdent.getD 5 0).toNat = elfData2Lsb) .notLittleEndian
  require ((header.eIdent.getD 6 0).toNat = evCurrent) .unknownVersion
  require (header.eMachine = emX8664) .notX8664
  require (header.eType = etExec) .notExec
  require (header.ePhentsize = elf64PhdrSize) .phentsize
  require (header.ePhnum ≠ 0) .noHeaders
  require (header.ePhnum ≤ elfMaxPhnum) .tooManyHeaders
  require (rangeInFile header.ePhoff (header.ePhnum * header.ePhentsize) file.length) .tableOutside
  let loadable ← checkSegments file header.ePhoff (List.range header.ePhnum) 0
  require (loadable ≠ 0) .noLoadable
  return header

/-! ### Loading -/

/-- The flags of the pages of a segment. -/
def Phdr.pageFlags (ph : Phdr) : ℕ :=
  if ph.pFlags &&& pfW ≠ 0 then pgPresent ||| pgUser ||| pgWritable else pgPresent ||| pgUser

/-- The bytes of the file that go into the page `page` bytes into a segment. -/
def Phdr.chunk (ph : Phdr) (file : List UInt8) (page : ℕ) : Except Failure (List UInt8) :=
  if page < ph.pFilesz then
    readBytes file (ph.pOffset + page) (min (ph.pFilesz - page) frameSize)
  else .ok []

/-- The loop of `load_segment`; `page` is its variable, and the first argument the rounds that are
left. -/
def loadPages (ph : Phdr) (file : List UInt8) (pml4 : ℕ) : ℕ → ℕ → Phys → Except Failure Unit × Phys
  | 0, _, s => (.error .endless, s)
  | rounds + 1, page, s =>
    if ph.pMemsz ≤ page then (.ok (), s)
    else
      match s.allocFrame with
      | (none, s) => (.error (.reject .noFrames), s)
      | (some frame, s) =>
        let s := s.zeroFrame frame
        match ph.chunk file page with
        | .error e => (.error e, s)
        | .ok bytes =>
          match pagingMapPage (s.copyTo frame bytes) pml4 ((ph.pVaddr + page) % 2 ^ 64) frame
              ph.pageFlags with
          | (false, s) => (.error (.reject .noTableFrames), s)
          | (true, s) => loadPages ph file pml4 rounds ((page + frameSize) % 2 ^ 64) s

/-- `load_segment`. -/
def loadSegment (ph : Phdr) (file : List UInt8) (pml4 : ℕ) (s : Phys) :
    Except Failure Unit × Phys :=
  let start := ph.pVaddr
  let stop := (ph.pVaddr + ph.pMemsz) % 2 ^ 64
  if stop < start then (.error (.reject .wraps), s)
  else if start < elfLoadMinVaddr ∨ elfLoadMaxVaddr < stop then (.error (.reject .outsideWindow), s)
  else loadPages ph file pml4 (ph.pMemsz / frameSize + 1) 0 s

/-- The loop of `elf_load` over the program headers, with those that are left. -/
def loadSegments (file : List UInt8) (phoff pml4 : ℕ) :
    List ℕ → Phys → Except Failure Unit × Phys
  | [], s => (.ok (), s)
  | i :: is, s =>
    match readPhdr file phoff i with
    | .error e => (.error e, s)
    | .ok ph =>
      if ph.pType ≠ ptLoad then loadSegments file phoff pml4 is s
      else
        match loadSegment ph file pml4 s with
        | (.error e, s) => (.error e, s)
        | (.ok _, s) => loadSegments file phoff pml4 is s

/-- `elf_load`: the entry point. -/
def elfLoad (file : List UInt8) (pml4 : ℕ) (s : Phys) : Except Failure ℕ × Phys :=
  match elfValidate file with
  | .error e => (.error e, s)
  | .ok header =>
    match loadSegments file header.ePhoff pml4 (List.range header.ePhnum) s with
    | (.error e, s) => (.error e, s)
    | (.ok _, s) => (.ok header.eEntry, s)

end TownOS.Memory
