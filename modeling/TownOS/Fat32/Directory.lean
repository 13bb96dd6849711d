import TownOS.Fat32.Clusters

/-!
8.3 names, directory entries and the walks of the root directory
(`fs/fat32.c`, from `to_upper` to `fat32_fsinfo_invalidate`).

A directory entry is its 32 bytes; the fields of `struct fat32_dirent` are read
off them, as the packed structure of the source does. A C string is the list of
its bytes up to the terminator.

The loop over the entries of one cluster is a function of the cluster buffer
(`walkEntries`, `locateEntries`, `freeSlot`); the loop over the clusters of the
directory is bounded by `fs_total_clusters`, as in the source.
-/

namespace TownOS

open Durable Bytes

/-! ### 8.3 names -/

/-- The 11 bytes of an 8.3 name, as stored. -/
abbrev Name83 : Type := Fin 11 → UInt8

/-- A name has a first byte. -/
instance neZero_name83 : NeZero 11 := ⟨by decide⟩

/-- `to_upper`. -/
def toUpper (c : UInt8) : UInt8 :=
  if 0x61 ≤ c ∧ c ≤ 0x7A then c - 0x61 + 0x41 else c

/-- The base-name loop of `name_to_83`: the bytes written, and the name from the
dot or the terminator on. -/
def baseTo83 : List UInt8 → List UInt8 → Option (List UInt8 × List UInt8)
  | [], out => some (out, [])
  | c :: cs, out =>
    if c = 0 ∨ c = 0x2E then some (out, c :: cs)
    else if 8 ≤ out.length then none
    else baseTo83 cs (out ++ [toUpper c])

/-- The extension loop of `name_to_83`. -/
def extTo83 : List UInt8 → List UInt8 → Option (List UInt8)
  | [], out => some out
  | c :: cs, out =>
    if c = 0 then some out
    else if 3 ≤ out.length then none
    else extTo83 cs (out ++ [toUpper c])

/-- The part after the dot, if the name has one. -/
def dotTo83 : List UInt8 → Option (List UInt8)
  | [] => some []
  | c :: cs => if c = 0x2E then extTo83 cs [] else some []

/-- Base and extension, each padded with spaces. -/
def pad83 (base ext : List UInt8) : Name83 := fun k =>
  if k.val < 8 then base.getD k.val 0x20 else ext.getD (k.val - 8) 0x20

/-- `name_to_83`. -/
def nameTo83 (name : List UInt8) : Option Name83 :=
  match baseTo83 name [] with
  | none => none
  | some (base, rest) =>
    if base.length = 0 then none
    else (dotTo83 rest).map (pad83 base)

/-- `name_from_83`: the padding of each half dropped and the dot put back. -/
def nameFrom83 (raw : Name83) : List UInt8 :=
  let bytes := List.ofFn raw
  let base := (bytes.take 8).takeWhile (· ≠ 0x20)
  if raw 8 ≠ 0x20 then base ++ 0x2E :: (bytes.drop 8).takeWhile (· ≠ 0x20) else base

/-! ### Directory entries -/

/-- `FAT32_DIRENT_FREE`: no entry here and none after it. -/
def direntFree : UInt8 := 0x00

/-- `FAT32_DIRENT_DELETED`. -/
def direntDeleted : UInt8 := 0xE5

/-- `FAT32_ATTR_LONG_NAME`. -/
def attrLongName : UInt8 := 0x0F

/-- `FAT32_ATTR_VOLUME_ID`. -/
def attrVolumeId : UInt8 := 0x08

/-- `FAT32_ATTR_DIRECTORY`. -/
def attrDirectory : UInt8 := 0x10

/-- `FAT32_ATTR_ARCHIVE`. -/
def attrArchive : UInt8 := 0x20

/-- `FAT32_DIRENT_BYTES`. -/
def direntBytes : ℕ := 32

/-- `struct fat32_dirent`: its 32 bytes. -/
abbrev Dirent : Type := Fin 32 → UInt8

/-- An entry has a first byte. -/
instance neZero_dirent : NeZero 32 := ⟨by decide⟩

namespace Dirent

/-- The bytes of the structure by offset. -/
def byte (e : Dirent) : Buf := fun i => if h : i < 32 then e ⟨i, h⟩ else 0

/-- `name`. -/
def name (e : Dirent) : Name83 := fun k => e (k.castLE (by decide))

/-- `attr`. -/
def attr (e : Dirent) : UInt8 := e 11

/-- `size`. -/
def size (e : Dirent) : ℕ := le32 e.byte 28

/-- `attr & FAT32_ATTR_DIRECTORY`. -/
def isDirectory (e : Dirent) : Bool := e.attr &&& attrDirectory != 0

end Dirent

/-- `name_equals_83`. -/
def nameEquals83 (raw wanted : Name83) : Bool := raw = wanted

/-- `dirent_first_cluster`: the two halves recombined. -/
def direntFirstCluster (e : Dirent) : ℕ := le16 e.byte 20 <<< 16 ||| le16 e.byte 26

/-- `dirent_is_usable`: not a long-name fragment and not the volume label. -/
def direntIsUsable (e : Dirent) : Bool :=
  if e.attr = attrLongName then false
  else if e.attr &&& attrVolumeId ≠ 0 then false
  else true

/-- Entry `i` of a directory cluster. -/
def direntAt (clusterBuf : Buf) (i : ℕ) : Dirent := fun k => clusterBuf (i * direntBytes + k.val)

/-- The entry of step 5 of `fat32_write_file`: archive attribute, the start
cluster split in two halves, the size, and zero elsewhere. -/
def newDirent (name83 : Name83) (start len : ℕ) : Dirent := fun k =>
  if h : k.val < 11 then name83 ⟨k.val, h⟩
  else if k.val = 11 then attrArchive
  else if k.val = 20 then byteOf (start >>> 16) 0
  else if k.val = 21 then byteOf (start >>> 16) 1
  else if k.val = 26 then byteOf start 0
  else if k.val = 27 then byteOf start 1
  else if 28 ≤ k.val then byteOf len (k.val - 28)
  else 0

/-- The entry with `name[0]` set to the deleted marker. -/
def markDeleted (e : Dirent) : Dirent := fun k => if k.val = 0 then direntDeleted else e k

/-! ### Walking a directory -/

/-- `struct fat32_name_sink`: the bytes written before the terminator, the
capacity of the buffer, and the names written. -/
structure NameSink where
  text : List UInt8
  size : ℕ
  count : ℕ
  deriving DecidableEq, Repr

/-- `fat32_name_sink_add`; a stored name may hold a NUL, which ends the string. -/
def fat32NameSinkAdd (sink : NameSink) (display : List UInt8) : NameSink :=
  let name := display.takeWhile (· ≠ 0)
  if sink.size < u32 (sink.text.length + name.length + 2) then sink
  else { sink with text := sink.text ++ name ++ [0x0A], count := sink.count + 1 }

section

variable (fs : Fs)

/-- `fs_bytes_per_cluster / FAT32_DIRENT_BYTES`. -/
def entriesPerCluster : ℕ := fs.bytesPerCluster / direntBytes

/-- The entry loop of `walk_directory`: whether it is `done`, the entry found,
and the sink. -/
def walkEntries (clusterBuf : Buf) (wanted : Option Name83) :
    ℕ → ℕ → NameSink → Bool × Option Dirent × NameSink
  | 0, _, sink => (false, none, sink)
  | n + 1, i, sink =>
    let entry := direntAt clusterBuf i
    if entry 0 = direntFree then (true, none, sink)
    else if entry 0 = direntDeleted then walkEntries clusterBuf wanted n (i + 1) sink
    else if !direntIsUsable entry then walkEntries clusterBuf wanted n (i + 1) sink
    else match wanted with
      | some w =>
        if nameEquals83 entry.name w then (true, some entry, sink)
        else walkEntries clusterBuf wanted n (i + 1) sink
      | none =>
        walkEntries clusterBuf wanted n (i + 1)
          (fat32NameSinkAdd sink (nameFrom83 entry.name))

/-- The cluster loop of `walk_directory`; running out of rounds is a looping
chain. -/
def walkLoop (wanted : Option Name83) : ℕ → ℕ → NameSink → Act Vol (Option Dirent × NameSink)
  | 0, _, _ => .fail
  | n + 1, cluster, sink => do
      let clusterBuf ← readCluster fs cluster
      match walkEntries clusterBuf wanted (entriesPerCluster fs) 0 sink with
      | (true, found, sink) => pure (found, sink)
      | (false, _, sink) =>
        match ← fat32NextCluster fs cluster with
        | none => pure (none, sink)
        | some next => walkLoop wanted n next sink

/-- `walk_directory`, looking `wanted` up or collecting every name in a sink. The
value of a lookup is the entry, `none` for `FAT32_DIR_NOT_FOUND`. -/
def walkDirectory (dirCluster : ℕ) (wanted : Option Name83) (sink : NameSink) :
    Act Vol (Option Dirent × NameSink) := do
  kmalloc
  walkLoop fs wanted (fs.totalClusters + 1) dirCluster sink

/-- `fat32_list_names`: the text written and the number of names. -/
def fat32ListNames (bufsize : ℕ) : Act Vol (List UInt8 × ℕ) :=
  if bufsize = 0 then .fail
  else do
    let (_, sink) ← walkDirectory fs fs.rootCluster none ⟨[], bufsize, 0⟩
    pure (sink.text, sink.count)

/-- The entry loop of `locate_root_entry`: whether it is `done`, and the entry
found with its index. -/
def locateEntries (clusterBuf : Buf) (wanted : Name83) : ℕ → ℕ → Bool × Option (Dirent × ℕ)
  | 0, _ => (false, none)
  | n + 1, i =>
    let entry := direntAt clusterBuf i
    if entry 0 = direntFree then (true, none)
    else if entry 0 = direntDeleted ∨ !direntIsUsable entry then
      locateEntries clusterBuf wanted n (i + 1)
    else if nameEquals83 entry.name wanted then (true, some (entry, i))
    else locateEntries clusterBuf wanted n (i + 1)

/-- Where entry `i` of a directory cluster is stored: its block, and its offset
in the block. -/
def slotLocation (cluster i : ℕ) : ℕ × ℕ :=
  (u32 (clusterToBlock fs cluster + i * direntBytes / fs.bytesPerSector),
    i * direntBytes % fs.bytesPerSector)

/-- The cluster loop of `locate_root_entry`. -/
def locateLoop (wanted : Name83) : ℕ → ℕ → Act Vol (Option (Dirent × ℕ × ℕ))
  | 0, _ => .fail
  | n + 1, cluster => do
      let clusterBuf ← readCluster fs cluster
      match locateEntries clusterBuf wanted (entriesPerCluster fs) 0 with
      | (true, some (entry, i)) => pure (some (entry, slotLocation fs cluster i))
      | (true, none) => pure none
      | (false, _) =>
        match ← fat32NextCluster fs cluster with
        | none => pure none
        | some next => locateLoop wanted n next

/-- `locate_root_entry`: the entry with its block and offset, `none` for
`FAT32_DIR_NOT_FOUND`. -/
def locateRootEntry (wanted : Name83) : Act Vol (Option (Dirent × ℕ × ℕ)) := do
  kmalloc
  locateLoop fs wanted (fs.totalClusters + 1) fs.rootCluster

/-! ### Writing directory entries -/

/-- The entry loop of `find_free_dirent`: the first slot never used or deleted. -/
def freeSlot (clusterBuf : Buf) : ℕ → ℕ → Option ℕ
  | 0, _ => none
  | n + 1, i =>
    let first := clusterBuf (i * direntBytes)
    if first = direntFree ∨ first = direntDeleted then some i
    else freeSlot clusterBuf n (i + 1)

/-- The cluster loop of `find_free_dirent`: the location of a slot, or the last
cluster of a full directory. -/
def freeSlotLoop : ℕ → ℕ → Act Vol ((ℕ × ℕ) ⊕ ℕ)
  | 0, _ => .fail
  | n + 1, cluster => do
      let clusterBuf ← readCluster fs cluster
      match freeSlot clusterBuf (entriesPerCluster fs) 0 with
      | some i => pure (.inl (slotLocation fs cluster i))
      | none =>
        match ← fat32NextCluster fs cluster with
        | none => pure (.inr cluster)
        | some next => freeSlotLoop n next

/-- The growing half of `find_free_dirent`, up to the link: one new cluster,
zero-filled. -/
def newDirCluster : Act Vol ℕ := do
  let newCluster ← allocChain fs fs.bytesPerCluster
  kmalloc.onFail (freeChain fs newCluster)
  (diskWrite (clusterToBlock fs newCluster) (fs.sectorsPerCluster % 2 ^ 8) fun _ => 0).onFail
    (freeChain fs newCluster)
  pure newCluster

/-- The growing half of `find_free_dirent`: the new cluster is linked onto the last
one. -/
def growDirectory (lastCluster : ℕ) : Act Vol (ℕ × ℕ) := do
  let newCluster ← newDirCluster fs
  (fat32SetEntry fs lastCluster newCluster).onFail (freeChain fs newCluster)
  pure (clusterToBlock fs newCluster, 0)

/-- `find_free_dirent`: the block and the offset of a slot for a new entry. -/
def findFreeDirent : Act Vol (ℕ × ℕ) := do
  kmalloc
  match ← freeSlotLoop fs (fs.totalClusters + 1) fs.rootCluster with
  | .inl location => pure location
  | .inr lastCluster => growDirectory fs lastCluster

/-- The block with an entry spliced in at an offset (the `memcpy` of
`write_dirent_at`). -/
def spliceDirent (blockBuf : Buf) (offset : ℕ) (entry : Dirent) : Buf := fun i =>
  if h : offset ≤ i ∧ i < offset + 32 then entry ⟨i - offset, by omega⟩ else blockBuf i

/-- `write_dirent_at`. -/
def writeDirentAt (block offset : ℕ) (entry : Dirent) : Act Vol Unit := do
  let blockBuf ← diskRead block 1
  diskWrite block 1 (spliceDirent blockBuf offset entry)

/-- `fat32_fsinfo_invalidate`, which never reports a failure: both cached fields
set to "unknown", if the sector carries its three signatures. -/
def fat32FsinfoInvalidate : Act Vol Unit :=
  if fs.fsinfoBlock = 0 ∨ fs.fsinfoBlock = 0xFFFF then pure ()
  else do
    match ← (diskRead fs.fsinfoBlock 1).attempt with
    | none => pure ()
    | some blockBuf =>
      if le32 blockBuf 0 ≠ 0x41615252 ∨ le32 blockBuf 484 ≠ 0x61417272 ∨
          le32 blockBuf 508 ≠ 0xAA550000 then
        pure ()
      else do
        let cleared : Buf := fun i => if 488 ≤ i ∧ i < 496 then 0xFF else blockBuf i
        let _ ← (diskWrite fs.fsinfoBlock 1 cleared).attempt
        pure ()

end

end TownOS
