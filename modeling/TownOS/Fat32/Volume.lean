import TownOS.Foundations.Durable
import TownOS.Foundations.Bytes

/-!
The block device and the mounted volume (`drivers/disk.c`, `fs/fat32.c`).

A disk is a flat array of bytes, moved in 512-byte blocks. `diskRead` and
`diskWrite` may fail, and then leave the disk unchanged; a write that does not
fail stores its blocks one after the other, each of them an atomic durable
write, so a crash can fall between any two. `ata_prepare` hands the drive 28
bits of the block number, which is the remainder taken here.

`parseBoot` is the validation and the geometry computation of `fat32_init`, in
the 32-bit arithmetic the source uses, and `Fs` is the geometry it caches. The
other operations check `fs_ready` first; here they take an `Fs`, which exists
only once a mount has succeeded.
-/

namespace TownOS

open Durable Bytes

/-- A buffer in memory, read by offset. -/
abbrev Buf : Type := ℕ → UInt8

/-- The disk, and the one variable of the file system that changes after the
mount: `fs_next_free_hint`. -/
structure Vol where
  disk : ℕ → UInt8
  hint : ℕ

/-! ### The block device -/

/-- `DISK_SECTOR_SIZE`. -/
def diskSectorSize : ℕ := 512

/-- The blocks an LBA28 command can name; `ata_prepare` drops the bits above. -/
def lbaLimit : ℕ := 2 ^ 28

/-- `disk_read`: `count` blocks from `lba` on. -/
def diskRead (lba count : ℕ) : Act Vol Buf := do
  Act.guard
  .get fun v => pure fun i =>
    if i < count * diskSectorSize then v.disk (lba % lbaLimit * diskSectorSize + i) else 0

/-- The blocks `k, k + 1, …` of a buffer stored from block `lba` on, one durable
write each. -/
def storeBlocks (lba : ℕ) (buf : Buf) : ℕ → ℕ → Act Vol Unit
  | 0, _ => pure ()
  | n + 1, k => .get fun v =>
    let block : Buf := fun i => buf (k * diskSectorSize + i)
    .commit { v with disk := setBlock diskSectorSize v.disk (lba + k) block }
      (storeBlocks lba buf n (k + 1))

/-- `disk_write`. -/
def diskWrite (lba count : ℕ) (buf : Buf) : Act Vol Unit := do
  Act.guard
  storeBlocks (lba % lbaLimit) buf count 0

/-- `kmalloc`, as far as the file system sees it: it may return `NULL`. -/
def kmalloc : Act Vol Unit := Act.guard

/-- Assignment to `fs_next_free_hint`. -/
def setHint (h : ℕ) : Act Vol Unit :=
  .get fun v => .put { v with hint := h } (pure ())

/-! ### The mount -/

/-- `FAT32_FIRST_DATA_CLUSTER`. -/
def firstDataCluster : ℕ := 2

/-- The cached geometry (the `fs_…` variables). -/
structure Fs where
  bytesPerSector : ℕ
  sectorsPerCluster : ℕ
  bytesPerCluster : ℕ
  firstFatBlock : ℕ
  sectorsPerFat : ℕ
  numFats : ℕ
  firstDataBlock : ℕ
  rootCluster : ℕ
  totalClusters : ℕ
  fsinfoBlock : ℕ
  deriving DecidableEq, Repr

/-- The fields of `struct fat32_bpb` that the mount reads. -/
structure Bpb where
  bytesPerSector : ℕ
  sectorsPerCluster : ℕ
  reservedSectorCount : ℕ
  numFats : ℕ
  totalSectors32 : ℕ
  sectorsPerFat32 : ℕ
  rootCluster : ℕ
  fsInfo : ℕ
  deriving DecidableEq, Repr

/-- The packed structure laid over the boot sector. -/
def bpbOf (block : Buf) : Bpb where
  bytesPerSector := le16 block 11
  sectorsPerCluster := (block 13).toNat
  reservedSectorCount := le16 block 14
  numFats := (block 16).toNat
  totalSectors32 := le32 block 32
  sectorsPerFat32 := le32 block 36
  rootCluster := le32 block 44
  fsInfo := le16 block 48

/-- `is_power_of_two`. -/
def isPowerOfTwo (n : ℕ) : Bool := n != 0 && (n &&& (n - 1)) == 0

/-- `fs_first_data_block`, in 32-bit arithmetic. -/
def Bpb.firstDataBlock (bpb : Bpb) : ℕ :=
  u32 (bpb.reservedSectorCount + u32 (bpb.numFats * bpb.sectorsPerFat32))

/-- The geometry `fat32_init` computes from a boot sector it has accepted. -/
def Bpb.geometry (bpb : Bpb) : Fs where
  bytesPerSector := bpb.bytesPerSector
  sectorsPerCluster := bpb.sectorsPerCluster
  bytesPerCluster := u32 (bpb.bytesPerSector * bpb.sectorsPerCluster)
  firstFatBlock := bpb.reservedSectorCount
  sectorsPerFat := bpb.sectorsPerFat32
  numFats := bpb.numFats
  firstDataBlock := bpb.firstDataBlock
  rootCluster := bpb.rootCluster
  totalClusters := (bpb.totalSectors32 - bpb.firstDataBlock) / bpb.sectorsPerCluster
  fsinfoBlock := bpb.fsInfo

/-- The checks of `fat32_init`, with the line it prints for each. -/
def parseBoot (block : Buf) : Except String Fs :=
  let bpb := bpbOf block
  if le16 block 510 ≠ 0xAA55 then
    .error "FAT32: no 0xAA55 boot signature, not a FAT volume\n"
  else if bpb.bytesPerSector ≠ diskSectorSize then
    .error "FAT32: bytes per sector is not 512\n"
  else if !isPowerOfTwo bpb.sectorsPerCluster then
    .error "FAT32: sectors per cluster is not a power of two\n"
  else if bpb.numFats = 0 ∨ bpb.reservedSectorCount = 0 then
    .error "FAT32: no FAT copies or no reserved area\n"
  else if bpb.sectorsPerFat32 = 0 then
    .error "FAT32: FAT length is zero, volume is not FAT32\n"
  else if bpb.rootCluster < firstDataCluster then
    .error "FAT32: root cluster below 2\n"
  else if bpb.totalSectors32 ≤ bpb.firstDataBlock then
    .error "FAT32: volume smaller than its own metadata\n"
  else .ok bpb.geometry

/-- `fat32_init`. -/
def fat32Init : Act Vol Fs := do
  let block ← diskRead 0 1
  match parseBoot block with
  | .ok fs => pure fs
  | .error _ => .fail

end TownOS
