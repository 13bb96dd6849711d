import TownOS.Fat32.Volume

/-!
Clusters, FAT entries and cluster chains (`fs/fat32.c`, from `cluster_to_block`
to `alloc_chain`).

A C function that returns `-1` gives up here (`Act.fail`), and its output
parameters are its value. The loops of the source are structural recursions on
the number of rounds left; for the loops bounded by `fs_total_clusters` that is
the source's own bound, for the two scans it is the length of the span.
-/

namespace TownOS

open Durable Bytes

/-- `FAT32_ENTRY_MASK`. -/
def fat32EntryMask : ℕ := 0x0FFFFFFF

/-- `FAT32_CLUSTER_FREE`. -/
def fat32ClusterFree : ℕ := 0

/-- `FAT32_CLUSTER_BAD`. -/
def fat32ClusterBad : ℕ := 0x0FFFFFF7

/-- `FAT32_CLUSTER_END`. -/
def fat32ClusterEnd : ℕ := 0x0FFFFFF8

/-- `FAT32_ENTRY_BYTES`. -/
def fat32EntryBytes : ℕ := 4

section

variable (fs : Fs)

/-- `fs_bytes_per_sector / FAT32_ENTRY_BYTES`. -/
def entriesPerBlock : ℕ := fs.bytesPerSector / fat32EntryBytes

/-- One past the last cluster number, `fs_total_clusters + 2`. -/
def clusterLimit : ℕ := u32 (fs.totalClusters + firstDataCluster)

/-- `cluster_to_block`. -/
def clusterToBlock (cluster : ℕ) : ℕ :=
  u32 (fs.firstDataBlock + sub32 cluster firstDataCluster * fs.sectorsPerCluster)

/-- `cluster_in_range`. -/
def clusterInRange (cluster : ℕ) : Bool :=
  firstDataCluster ≤ cluster && cluster < clusterLimit fs

/-! ### FAT entries -/

/-- The block `fat32_get_entry` reads. -/
def getEntryBlock (cluster : ℕ) : ℕ := u32 (fs.firstFatBlock + cluster / entriesPerBlock fs)

/-- The block `fat32_set_entry` reads and writes in a FAT copy. -/
def setEntryBlock (cluster copy : ℕ) : ℕ :=
  u32 (fs.firstFatBlock + copy * fs.sectorsPerFat + cluster / entriesPerBlock fs)

/-- `fat32_get_entry`: the entry of the first FAT copy, masked. -/
def fat32GetEntry (cluster : ℕ) : Act Vol ℕ := do
  let block := getEntryBlock fs cluster
  let offset := cluster % entriesPerBlock fs * fat32EntryBytes
  let blockBuf ← diskRead block 1
  pure (le32 blockBuf offset &&& fat32EntryMask)

/-- `fat32_next_cluster`: the next cluster, `none` at the end of the chain; a
failed read and a corrupt entry give up. -/
def fat32NextCluster (cluster : ℕ) : Act Vol (Option ℕ) := do
  let entry ← fat32GetEntry fs cluster
  if fat32ClusterEnd ≤ entry then
    pure none
  else if entry = fat32ClusterFree ∨ entry = fat32ClusterBad ∨ !clusterInRange fs entry then
    .fail
  else
    pure (some entry)

/-- One round of the loop of `fat32_set_entry`, for one FAT copy: read the block,
keep the top four bits of the old entry, write the block back. -/
def setEntryCopy (cluster value copy : ℕ) : Act Vol Unit := do
  let block := setEntryBlock fs cluster copy
  let offset := cluster % entriesPerBlock fs * fat32EntryBytes
  let blockBuf ← diskRead block 1
  let old := le32 blockBuf offset
  let merged := (old &&& (0xFFFFFFFF - fat32EntryMask)) ||| (value &&& fat32EntryMask)
  diskWrite block 1 (store32 blockBuf offset merged)

/-- The loop of `fat32_set_entry` over the FAT copies, `copy` the next of them. -/
def setEntryLoop (cluster value : ℕ) : ℕ → ℕ → Act Vol Unit
  | 0, _ => pure ()
  | n + 1, copy => do
      setEntryCopy fs cluster value copy
      setEntryLoop cluster value n (copy + 1)

/-- `fat32_set_entry`. -/
def fat32SetEntry (cluster value : ℕ) : Act Vol Unit :=
  setEntryLoop fs cluster value fs.numFats 0

/-- `read_cluster`. -/
def readCluster (cluster : ℕ) : Act Vol Buf :=
  if clusterInRange fs cluster then
    diskRead (clusterToBlock fs cluster) (fs.sectorsPerCluster % 2 ^ 8)
  else .fail

/-! ### Free space -/

/-- The scan of one FAT block in memory: a free cluster, or the cluster the
scan goes on from. -/
def scanBlock (blockBuf : Buf) (hi : ℕ) : ℕ → ℕ → ℕ → ℕ ⊕ ℕ
  | 0, _, cluster => .inr cluster
  | n + 1, idx, cluster =>
    if cluster < hi then
      if le32 blockBuf (idx * fat32EntryBytes) &&& fat32EntryMask = fat32ClusterFree then
        .inl cluster
      else scanBlock blockBuf hi n (idx + 1) (cluster + 1)
    else .inr cluster

/-- One pass of `find_free_cluster`, over `[cluster, hi)`. -/
def scanSpan (hi : ℕ) : ℕ → ℕ → Act Vol (Option ℕ)
  | 0, _ => pure none
  | n + 1, cluster =>
    if cluster < hi then do
      let idx := cluster % entriesPerBlock fs
      let blockBuf ← diskRead (u32 (fs.firstFatBlock + cluster / entriesPerBlock fs)) 1
      match scanBlock blockBuf hi (entriesPerBlock fs - idx) idx cluster with
      | .inl found => pure (some found)
      | .inr next => scanSpan hi n next
    else pure none

/-- The cluster the scan starts at: the hint, if it is in range. -/
def scanStart (hint : ℕ) : ℕ :=
  if hint < firstDataCluster ∨ clusterLimit fs ≤ hint then firstDataCluster else hint

/-- Hand out a cluster: advance the hint past it, wrapping at the end. -/
def claimHint (cluster : ℕ) : Act Vol ℕ := do
  setHint (if cluster + 1 < clusterLimit fs then cluster + 1 else firstDataCluster)
  pure cluster

/-- `find_free_cluster`: the span from the hint to the end, then the span from
the front to the hint. -/
def findFreeCluster : Act Vol ℕ :=
  .get fun v => do
    let start := scanStart fs v.hint
    match ← scanSpan fs (clusterLimit fs) (clusterLimit fs - start) start with
    | some cluster => claimHint fs cluster
    | none =>
      match ← scanSpan fs start (start - firstDataCluster) firstDataCluster with
      | some cluster => claimHint fs cluster
      | none => .fail

/-- The count over one FAT block in memory: the cluster the count goes on from
and the free entries so far. -/
def countBlock (blockBuf : Buf) (limit : ℕ) : ℕ → ℕ → ℕ → ℕ → ℕ × ℕ
  | 0, _, cluster, free => (cluster, free)
  | n + 1, idx, cluster, free =>
    if cluster < limit then
      countBlock blockBuf limit n (idx + 1) (cluster + 1)
        (if le32 blockBuf (idx * fat32EntryBytes) &&& fat32EntryMask = fat32ClusterFree then
          free + 1 else free)
    else (cluster, free)

/-- The loop of `fat32_free_count`; a failed read ends the count. -/
def freeCountLoop (limit : ℕ) : ℕ → ℕ → ℕ → Act Vol ℕ
  | 0, _, free => pure free
  | n + 1, cluster, free =>
    if cluster < limit then do
      let idx := cluster % entriesPerBlock fs
      match ← (diskRead (u32 (fs.firstFatBlock + cluster / entriesPerBlock fs)) 1).attempt with
      | none => pure free
      | some blockBuf =>
        let (next, free) := countBlock blockBuf limit (entriesPerBlock fs - idx) idx cluster free
        freeCountLoop limit n next free
    else pure free

/-- `fat32_free_count`. -/
def fat32FreeCount : Act Vol ℕ :=
  freeCountLoop fs (clusterLimit fs) (clusterLimit fs - firstDataCluster) firstDataCluster 0

/-! ### Allocating and freeing chains -/

/-- `lowest` and `found_lowest` of `free_chain` after one more cluster. -/
def lowestWith (lowest : Option ℕ) (cluster : ℕ) : Option ℕ :=
  match lowest with
  | some low => some (if cluster < low then cluster else low)
  | none => some cluster

/-- The loop of `free_chain`, with the lowest cluster freed so far: the next
pointer is read before the entry is zeroed. Running out of rounds is a cycle. -/
def freeChainLoop : ℕ → ℕ → Option ℕ → Act Vol (Option ℕ)
  | 0, _, _ => .fail
  | n + 1, cluster, lowest =>
    if clusterInRange fs cluster then do
      let next ← fat32GetEntry fs cluster
      fat32SetEntry fs cluster fat32ClusterFree
      freeChainLoop n next (lowestWith lowest cluster)
    else pure lowest

/-- `free_chain`. -/
def freeChain (firstCluster : ℕ) : Act Vol Unit := do
  match ← freeChainLoop fs (fs.totalClusters + 1) firstCluster none with
  | some lowest => setHint lowest
  | none => pure ()

/-- The clean-up of `alloc_chain`: free the partial chain, if there is one. -/
def undoAlloc (first : ℕ) : Act Vol Unit :=
  if first ≠ 0 then freeChain fs first else pure ()

/-- The loop of `alloc_chain`: `n` clusters still to take, `first` and `prev` as
in the source (`0` before the first cluster). -/
def allocChainLoop : ℕ → ℕ → ℕ → Act Vol ℕ
  | 0, first, _ => pure first
  | n + 1, first, prev => do
      let cluster ← (findFreeCluster fs).onFail (undoAlloc fs first)
      (fat32SetEntry fs cluster fat32ClusterEnd).onFail (undoAlloc fs first)
      if prev ≠ 0 then
        (fat32SetEntry fs prev cluster).onFail (freeChain fs first)
        allocChainLoop n first cluster
      else
        allocChainLoop n cluster cluster

/-- The clusters that hold `bytes` bytes, in 32-bit arithmetic. -/
def clustersNeeded (bytes : ℕ) : ℕ :=
  u32 (bytes + fs.bytesPerCluster - 1) / fs.bytesPerCluster

/-- `alloc_chain`. -/
def allocChain (bytes : ℕ) : Act Vol ℕ :=
  if bytes = 0 then .fail else allocChainLoop fs (clustersNeeded fs bytes) 0 0

end

end TownOS
