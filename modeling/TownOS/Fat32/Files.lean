import TownOS.Fat32.Directory

/-!
Whole files of the root directory (`fs/fat32.c`: `lookup_root_file`,
`fat32_stat`, `fat32_read_file`, `fat32_delete`, `fat32_write_file`).

The contents of a file are a list of bytes; a buffer handed to
`fat32_write_file` is the list of its `len` bytes.
-/

namespace TownOS

open Durable Bytes

section

variable (fs : Fs)

/-! ### Reading -/

/-- `lookup_root_file`: the entry of a file, not of a directory. -/
def lookupRootFile (name : List UInt8) : Act Vol Dirent :=
  match nameTo83 name with
  | none => .fail
  | some wanted => do
      match ← walkDirectory fs fs.rootCluster (some wanted) ⟨[], 0, 0⟩ with
      | (none, _) => .fail
      | (some entry, _) => if entry.isDirectory then .fail else pure entry

/-- `fat32_stat`. -/
def fat32Stat (name : List UInt8) : Act Vol ℕ := do
  let entry ← lookupRootFile fs name
  pure entry.size

/-- The bytes `memcpy` takes from a cluster buffer. -/
def takeBytes (clusterBuf : Buf) (chunk : ℕ) : List UInt8 :=
  (List.range chunk).map clusterBuf

/-- The loop of `fat32_read_file`, with the bytes delivered so far. -/
def readFileLoop : ℕ → ℕ → ℕ → List UInt8 → Act Vol (List UInt8)
  | 0, _, remaining, out => if 0 < remaining then .fail else pure out
  | n + 1, cluster, remaining, out =>
    if remaining = 0 then pure out
    else do
      let clusterBuf ← readCluster fs cluster
      let chunk := if remaining < fs.bytesPerCluster then remaining else fs.bytesPerCluster
      let out := out ++ takeBytes clusterBuf chunk
      if remaining - chunk = 0 then pure out
      else
        match ← fat32NextCluster fs cluster with
        | none => .fail
        | some next => readFileLoop n next (remaining - chunk) out

/-- `fat32_read_file`: the bytes it puts into the buffer, whose number it
reports. -/
def fat32ReadFile (name : List UInt8) (bufsize : ℕ) : Act Vol (List UInt8) := do
  let entry ← lookupRootFile fs name
  if bufsize < entry.size then .fail
  else if entry.size = 0 then pure []
  else if !clusterInRange fs (direntFirstCluster entry) then .fail
  else do
    kmalloc
    readFileLoop fs (fs.totalClusters + 1) (direntFirstCluster entry) entry.size []

/-! ### Deleting -/

/-- `fat32_delete`: the chain is freed before the name is unpublished. -/
def fat32Delete (name : List UInt8) : Act Vol Unit :=
  match nameTo83 name with
  | none => .fail
  | some wanted => do
      match ← locateRootEntry fs wanted with
      | none => .fail
      | some (entry, block, offset) =>
        if entry.isDirectory then .fail
        else do
          if direntFirstCluster entry ≠ 0 then
            freeChain fs (direntFirstCluster entry)
          writeDirentAt block offset (markDeleted entry)
          fat32FsinfoInvalidate fs

/-! ### Writing -/

/-- Step 4 of `fat32_write_file`: the data, one cluster at a time, the last one
filled up with zeros. -/
def writeDataLoop : ℕ → ℕ → List UInt8 → Act Vol Unit
  | 0, _, _ => pure ()
  | n + 1, cluster, src =>
    if src.length = 0 then pure ()
    else do
      let chunk := if src.length < fs.bytesPerCluster then src.length else fs.bytesPerCluster
      let clusterBuf : Buf := fun i => if i < chunk then src.getD i 0 else 0
      diskWrite (clusterToBlock fs cluster) (fs.sectorsPerCluster % 2 ^ 8) clusterBuf
      if src.length - chunk = 0 then pure ()
      else
        match ← fat32NextCluster fs cluster with
        | none => .fail
        | some next => writeDataLoop n next (src.drop chunk)

/-- Steps 3 and 4: a fresh chain holding the data, `0` for an empty file. -/
def writeNewChain (buf : List UInt8) : Act Vol ℕ :=
  if 0 < buf.length then do
    let newStart ← allocChain fs buf.length
    (do kmalloc; writeDataLoop fs buf.length newStart buf).onFail (freeChain fs newStart)
    pure newStart
  else pure 0

/-- Step 7: the chain a replaced entry named is freed, whatever comes of it. -/
def freeReplaced (existing : Option (Dirent × ℕ × ℕ)) : Act Vol Unit :=
  match existing with
  | some (old, _) =>
    if direntFirstCluster old ≠ 0 then do
      let _ ← (freeChain fs (direntFirstCluster old)).attempt
      pure ()
    else pure ()
  | none => pure ()

/-- Step 6, its first half: the slot of the old entry, or a free one. -/
def chooseSlot (existing : Option (Dirent × ℕ × ℕ)) (newStart : ℕ) : Act Vol (ℕ × ℕ) :=
  match existing with
  | some (_, location) => pure location
  | none => (findFreeDirent fs).onFail (undoAlloc fs newStart)

/-- Step 6, its second half, and step 7: the entry is written to its slot, and the
replaced chain is freed. -/
def publishAt (existing : Option (Dirent × ℕ × ℕ)) (newStart : ℕ) (entry : Dirent)
    (location : ℕ × ℕ) : Act Vol Unit := do
  (writeDirentAt location.1 location.2 entry).onFail (undoAlloc fs newStart)
  freeReplaced fs existing
  fat32FsinfoInvalidate fs

/-- Steps 5 to 7, for a name found at `existing` (its entry, block and offset) or
absent: build the entry, publish it, free the replaced chain. -/
def publish (name83 : Name83) (existing : Option (Dirent × ℕ × ℕ)) (newStart len : ℕ) :
    Act Vol Unit := do
  let entry := newDirent name83 newStart len
  let location ← chooseSlot fs existing newStart
  publishAt fs existing newStart entry location

/-- `fat32_write_file`. -/
def fat32WriteFile (name buf : List UInt8) : Act Vol Unit :=
  match nameTo83 name with
  | none => .fail
  | some name83 => do
      let existing ← locateRootEntry fs name83
      if existing.any fun found => found.1.isDirectory then .fail
      else do
        let newStart ← writeNewChain fs buf
        publish fs name83 existing newStart buf.length

end

end TownOS
