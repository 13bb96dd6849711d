import TownOS.Fat32.Layout

/-!
What a boot sector that `fat32_init` accepts says about the volume.

`fat32_init` checks the fields of the boot sector one by one, and only one
relation between them: the volume is larger than its metadata. `SaneMount` is
what the rest of the file system takes for granted of the cached geometry: the
areas lie apart and inside the volume, each FAT copy has room for every cluster,
and every block addressed for a cluster lies where it should, within reach of
the disk driver.

* `accepted_of_fat32Init`: a mount succeeds only on an accepted boot sector;
* `mount_sane_iff`: the geometry of an accepted boot sector is sane exactly if
  its fields meet `Bpb.Sound`, which `fat32_init` does not check;
* `geometry_of_mount`: such a volume, if its root cluster is one of its clusters,
  has the `Geometry` the other modules start from.
-/

namespace TownOS

open Durable Bytes

/-! ### The accepted boot sectors -/

/-- The boot sector `fat32_init` reads. -/
def bootSector (d : ℕ → UInt8) : Buf := fun i => if i < 512 then d i else 0

/-- The checks of `fat32_init`, and the ranges of the fields. -/
structure Bpb.Accepted (b : Bpb) : Prop where
  bytesPerSector : b.bytesPerSector = 512
  cluster_pos : 0 < b.sectorsPerCluster
  cluster_le : b.sectorsPerCluster ≤ 128
  fats_pos : 0 < b.numFats
  reserved_pos : 0 < b.reservedSectorCount
  fat_pos : 0 < b.sectorsPerFat32
  root_ge : 2 ≤ b.rootCluster
  total_lt : b.totalSectors32 < 2 ^ 32
  data_lt : b.firstDataBlock < b.totalSectors32

/-- A power of two that is a byte is at most 128. -/
lemma isPowerOfTwo_byte : ∀ n < 256, isPowerOfTwo n = true → 0 < n ∧ n ≤ 128 := by
  decide +kernel

lemma accepted_of_parseBoot {block : Buf} {fs : Fs} (h : parseBoot block = .ok fs) :
    (bpbOf block).Accepted ∧ fs = (bpbOf block).geometry := by
  rw [parseBoot] at h
  split_ifs at h with h1 h2 h3 h4 h5 h6 h7
  have hp :=
    isPowerOfTwo_byte (bpbOf block).sectorsPerCluster (block 13).toNat_lt (by simpa using h3)
  push Not at h2 h4 h6 h7
  refine ⟨⟨h2, hp.1, hp.2, ?_, ?_, ?_, h6, le32_lt _ _, h7⟩, (Except.ok.inj h).symm⟩ <;> omega

/-- A mount succeeds only on an accepted boot sector. -/
lemma accepted_of_fat32Init {v : Vol} {fl : List Bool} {fs : Fs}
    (h : (fat32Init.run v fl).value = some fs) :
    (bpbOf (bootSector v.disk)).Accepted ∧ fs = (bpbOf (bootSector v.disk)).geometry := by
  have hr : Act.Reads fat32Init v (parseBoot (bootSector v.disk)).toOption := by
    refine (reads_diskRead 0 1 v).bind ?_
    have hb : (fun i => if i < 1 * 512 then v.disk (0 % lbaLimit * 512 + i) else 0) =
        bootSector v.disk := by
      funext i
      simp [bootSector]
    rw [hb]
    cases parseBoot (bootSector v.disk) with
    | error e => exact Act.Reads.fail _
    | ok fs' => exact Act.Reads.pure _ _
  have hok := hr.eq_of_value h
  cases hp : parseBoot (bootSector v.disk) with
  | error e =>
    rw [hp] at hok
    simp [Except.toOption] at hok
  | ok fs' =>
    rw [hp] at hok
    obtain rfl : fs' = fs := Option.some.inj hok
    exact accepted_of_parseBoot hp

/-! ### A sane geometry -/

/-- The blocks before the first FAT copy. -/
def reservedArea (fs : Fs) : Set ℕ := Set.Ico 0 fs.firstFatBlock

/-- The blocks of one FAT copy. -/
def fatArea (fs : Fs) (n : ℕ) : Set ℕ :=
  Set.Ico (fs.firstFatBlock + n * fs.sectorsPerFat)
    (fs.firstFatBlock + n * fs.sectorsPerFat + fs.sectorsPerFat)

/-- The blocks of the data clusters. -/
def dataArea (fs : Fs) : Set ℕ :=
  Set.Ico fs.firstDataBlock (fs.firstDataBlock + fs.totalClusters * fs.sectorsPerCluster)

/-- What the file system takes for granted of a mounted volume of `total` sectors. -/
structure SaneMount (fs : Fs) (total : ℕ) : Prop where
  /-- The first data block is the sum it is meant to be: nothing has wrapped. -/
  no_wrap : fs.firstDataBlock = fs.firstFatBlock + fs.numFats * fs.sectorsPerFat
  reserved_fat : ∀ n < fs.numFats, Disjoint (reservedArea fs) (fatArea fs n)
  reserved_data : Disjoint (reservedArea fs) (dataArea fs)
  fat_fat : ∀ n < fs.numFats, ∀ m < fs.numFats, n ≠ m → Disjoint (fatArea fs n) (fatArea fs m)
  fat_data : ∀ n < fs.numFats, Disjoint (fatArea fs n) (dataArea fs)
  reserved_inside : reservedArea fs ⊆ Set.Ico 0 total
  fat_inside : ∀ n < fs.numFats, fatArea fs n ⊆ Set.Ico 0 total
  data_inside : dataArea fs ⊆ Set.Ico 0 total
  /-- The four bytes of an entry lie within a FAT copy. -/
  slot : ∀ c, clusterInRange fs c → c * fat32EntryBytes + fat32EntryBytes ≤ fs.sectorsPerFat * 512
  /-- A cluster number is no marker. -/
  marker : ∀ c, clusterInRange fs c → c < fat32ClusterBad
  /-- An FSInfo sector, if there is one, is in the reserved area. -/
  fsinfo : fs.fsinfoBlock ≠ 0 → fs.fsinfoBlock ≠ 0xFFFF → fs.fsinfoBlock ∈ reservedArea fs
  data_block : ∀ c, clusterInRange fs c → ∀ i < fs.sectorsPerCluster,
    clusterToBlock fs c + i ∈ dataArea fs ∧ clusterToBlock fs c + i < lbaLimit
  get_block : ∀ c, clusterInRange fs c →
    getEntryBlock fs c ∈ fatArea fs 0 ∧ getEntryBlock fs c < lbaLimit
  set_block : ∀ c, clusterInRange fs c → ∀ n < fs.numFats,
    setEntryBlock fs c n ∈ fatArea fs n ∧ setEntryBlock fs c n < lbaLimit

/-- The clusters of the volume, had nothing wrapped. -/
def Bpb.clusters (b : Bpb) : ℕ :=
  (b.totalSectors32 - (b.reservedSectorCount + b.numFats * b.sectorsPerFat32)) / b.sectorsPerCluster

/-- What `fat32_init` would have to check besides: the metadata area does not wrap
around, a FAT copy has a slot for every cluster, the last cluster is within reach of the
disk driver, and the FSInfo sector is in the reserved area. -/
def Bpb.Sound (b : Bpb) : Prop :=
  b.reservedSectorCount + b.numFats * b.sectorsPerFat32 < 2 ^ 32 ∧
  (b.clusters = 0 ∨ (b.clusters + 2 ≤ 128 * b.sectorsPerFat32 ∧
    b.reservedSectorCount + b.numFats * b.sectorsPerFat32 + b.clusters * b.sectorsPerCluster
      ≤ lbaLimit)) ∧
  (b.fsInfo = 0 ∨ b.fsInfo = 0xFFFF ∨ b.fsInfo < b.reservedSectorCount)

instance (b : Bpb) : Decidable b.Sound := inferInstanceAs (Decidable (_ ∧ _ ∧ _))

/-! ### The computed geometry -/

lemma getEntryBlock_eq (fs : Fs) (c : ℕ) : getEntryBlock fs c = setEntryBlock fs c 0 := by
  rw [getEntryBlock, setEntryBlock, Nat.zero_mul, Nat.add_zero]

section Accepted

variable {b : Bpb} (ha : b.Accepted) {c i n : ℕ}

lemma firstDataBlock_eq (hw : b.reservedSectorCount + b.numFats * b.sectorsPerFat32 < 2 ^ 32) :
    b.firstDataBlock = b.reservedSectorCount + b.numFats * b.sectorsPerFat32 := by
  rw [Bpb.firstDataBlock, u32_of_lt (n := b.numFats * _) (by omega), u32_of_lt hw]

/-- A copy of the FAT ends within the metadata area. -/
lemma fat_end_le (hn : n < b.numFats) :
    n * b.sectorsPerFat32 + b.sectorsPerFat32 ≤ b.numFats * b.sectorsPerFat32 := by
  rw [← Nat.succ_mul]
  exact Nat.mul_le_mul_right _ hn

/-- The blocks of a cluster lie within the clusters. -/
lemma cluster_block_lt (hc : 2 ≤ c) (hlt : c < b.clusters + 2) (hi : i < b.sectorsPerCluster) :
    (c - 2) * b.sectorsPerCluster + i < b.clusters * b.sectorsPerCluster :=
  calc (c - 2) * b.sectorsPerCluster + i
      < (c - 2) * b.sectorsPerCluster + b.sectorsPerCluster := by omega
    _ = (c - 1) * b.sectorsPerCluster := by
        rw [← Nat.succ_mul, show c - 1 = (c - 2).succ from by omega]
    _ ≤ b.clusters * b.sectorsPerCluster := Nat.mul_le_mul_right _ (by omega)

variable (hw : b.reservedSectorCount + b.numFats * b.sectorsPerFat32 < 2 ^ 32)

include hw

lemma geometry_totalClusters : b.geometry.totalClusters = b.clusters := by
  rw [Bpb.geometry, firstDataBlock_eq hw, Bpb.clusters]

include ha

/-- The clusters end within the volume. -/
lemma clusters_end_le : b.reservedSectorCount + b.numFats * b.sectorsPerFat32 +
    b.clusters * b.sectorsPerCluster ≤ b.totalSectors32 := by
  have hlt := ha.data_lt
  rw [firstDataBlock_eq hw] at hlt
  have hdiv : b.clusters * b.sectorsPerCluster ≤
      b.totalSectors32 - (b.reservedSectorCount + b.numFats * b.sectorsPerFat32) :=
    Nat.div_mul_le_self _ _
  omega

/-- `fs_total_clusters + 2` does not wrap around: there are two blocks of metadata. -/
lemma clusterInRange_geometry :
    clusterInRange b.geometry c = true ↔ 2 ≤ c ∧ c < b.clusters + 2 := by
  have hend := clusters_end_le ha hw
  have hle : b.clusters ≤ b.clusters * b.sectorsPerCluster :=
    Nat.le_mul_of_pos_right _ ha.cluster_pos
  have hfat : b.sectorsPerFat32 ≤ b.numFats * b.sectorsPerFat32 :=
    Nat.le_mul_of_pos_left _ ha.fats_pos
  have := ha.reserved_pos
  have := ha.fat_pos
  have := ha.total_lt
  rw [clusterInRange, clusterLimit, geometry_totalClusters hw, firstDataCluster,
    u32_of_lt (by omega)]
  simp

lemma clusterToBlock_geometry (hc : 2 ≤ c) (hlt : c < b.clusters + 2) :
    clusterToBlock b.geometry c = b.reservedSectorCount + b.numFats * b.sectorsPerFat32 +
      (c - 2) * b.sectorsPerCluster := by
  have hend := clusters_end_le ha hw
  have hle : b.clusters ≤ b.clusters * b.sectorsPerCluster :=
    Nat.le_mul_of_pos_right _ ha.cluster_pos
  have hblock := cluster_block_lt hc hlt ha.cluster_pos
  have htotal := ha.total_lt
  have hspc : b.geometry.sectorsPerCluster = b.sectorsPerCluster := rfl
  have hdata : b.geometry.firstDataBlock = b.firstDataBlock := rfl
  have hfat : b.sectorsPerFat32 ≤ b.numFats * b.sectorsPerFat32 :=
    Nat.le_mul_of_pos_left _ ha.fats_pos
  have := ha.reserved_pos
  have := ha.fat_pos
  rw [clusterToBlock, firstDataCluster, sub32_of_le (by omega) hc, hspc, hdata,
    firstDataBlock_eq hw, u32_of_lt (by omega)]

omit hw

lemma entriesPerBlock_geometry : entriesPerBlock b.geometry = 128 := by
  have hb : b.geometry.bytesPerSector = 512 := ha.bytesPerSector
  rw [entriesPerBlock, hb, fat32EntryBytes]

/-- The FAT block of a cluster, if a copy covers the clusters and the metadata does not
wrap around. -/
lemma setEntryBlock_geometry (hw : b.reservedSectorCount + b.numFats * b.sectorsPerFat32 < 2 ^ 32)
    (hc : c < 128 * b.sectorsPerFat32) (hn : n < b.numFats) :
    setEntryBlock b.geometry c n ∈ fatArea b.geometry n ∧ setEntryBlock b.geometry c n <
      b.reservedSectorCount + b.numFats * b.sectorsPerFat32 := by
  have hend := fat_end_le hn
  have hfat : b.geometry.firstFatBlock = b.reservedSectorCount := rfl
  have hspf : b.geometry.sectorsPerFat = b.sectorsPerFat32 := rfl
  rw [setEntryBlock, entriesPerBlock_geometry ha, fatArea, hfat, hspf, u32_of_lt (by omega),
    Set.mem_Ico]
  omega

/-! ### Which accepted boot sectors are sane -/

lemma saneMount_of_sound (hs : b.Sound) : SaneMount b.geometry b.totalSectors32 := by
  obtain ⟨hw, hclusters, hfsinfo⟩ := hs
  have hlimit : lbaLimit = 2 ^ 28 := rfl
  have hend := clusters_end_le ha hw
  have hpos : 0 < b.numFats := ha.fats_pos
  have hcover : ∀ c, clusterInRange b.geometry c → 2 ≤ c ∧ c < b.clusters + 2 ∧
      b.clusters + 2 ≤ 128 * b.sectorsPerFat32 ∧ b.reservedSectorCount +
        b.numFats * b.sectorsPerFat32 + b.clusters * b.sectorsPerCluster ≤ lbaLimit := by
    intro c hc
    obtain ⟨h2, hlt⟩ := (clusterInRange_geometry ha hw).mp hc
    rcases hclusters with h0 | ⟨h1, h1'⟩
    · omega
    · exact ⟨h2, hlt, h1, h1'⟩
  have hfirst : b.geometry.firstDataBlock =
      b.reservedSectorCount + b.numFats * b.sectorsPerFat32 := firstDataBlock_eq hw
  have hdata : dataArea b.geometry = Set.Ico (b.reservedSectorCount +
      b.numFats * b.sectorsPerFat32) (b.reservedSectorCount + b.numFats * b.sectorsPerFat32 +
        b.clusters * b.sectorsPerCluster) := by
    rw [dataArea, hfirst, geometry_totalClusters hw]
    rfl
  have hfat : ∀ n, fatArea b.geometry n = Set.Ico (b.reservedSectorCount + n * b.sectorsPerFat32)
      (b.reservedSectorCount + n * b.sectorsPerFat32 + b.sectorsPerFat32) := fun n => rfl
  have hres : reservedArea b.geometry = Set.Ico 0 b.reservedSectorCount := rfl
  refine
    { no_wrap := hfirst
      reserved_fat := fun n hn => ?_
      reserved_data := ?_
      fat_fat := fun n hn m hm hne => ?_
      fat_data := fun n hn => ?_
      reserved_inside := ?_
      fat_inside := fun n hn => ?_
      data_inside := ?_
      slot := fun c hc => ?_
      marker := fun c hc => ?_
      fsinfo := fun h0 hF => ?_
      data_block := fun c hc i hi => ?_
      get_block := fun c hc => ?_
      set_block := fun c hc n hn => ?_ }
  · rw [hres, hfat, Set.Ico_disjoint_Ico]
    omega
  · rw [hres, hdata, Set.Ico_disjoint_Ico]
    omega
  · rw [hfat, hfat, Set.Ico_disjoint_Ico]
    rcases Nat.lt_or_gt_of_ne hne with h | h
    · have := Nat.mul_le_mul_right b.sectorsPerFat32 (Nat.succ_le_of_lt h)
      rw [Nat.succ_mul] at this
      omega
    · have := Nat.mul_le_mul_right b.sectorsPerFat32 (Nat.succ_le_of_lt h)
      rw [Nat.succ_mul] at this
      omega
  · have := fat_end_le hn
    rw [hfat, hdata, Set.Ico_disjoint_Ico]
    omega
  · rw [hres]
    exact Set.Ico_subset_Ico le_rfl (by omega)
  · have := fat_end_le hn
    rw [hfat]
    exact Set.Ico_subset_Ico (by omega) (by omega)
  · rw [hdata]
    exact Set.Ico_subset_Ico (by omega) hend
  · obtain ⟨-, hlt, hle, -⟩ := hcover c hc
    have hspf : b.geometry.sectorsPerFat = b.sectorsPerFat32 := rfl
    rw [fat32EntryBytes, hspf]
    omega
  · -- a volume of so many clusters would need more FAT blocks than there are below `2 ^ 28`
    obtain ⟨-, hlt, hle, hreach⟩ := hcover c hc
    have hc1 : b.clusters ≤ b.clusters * b.sectorsPerCluster :=
      Nat.le_mul_of_pos_right _ ha.cluster_pos
    have hf1 : b.sectorsPerFat32 ≤ b.numFats * b.sectorsPerFat32 :=
      Nat.le_mul_of_pos_left _ hpos
    rw [fat32ClusterBad]
    omega
  · rcases hfsinfo with h | h | h
    · exact absurd h h0
    · exact absurd h hF
    · exact ⟨Nat.zero_le _, h⟩
  · obtain ⟨h2, hlt, -, hreach⟩ := hcover c hc
    have hblock := cluster_block_lt h2 hlt hi
    rw [clusterToBlock_geometry ha hw h2 hlt, hdata, Set.mem_Ico]
    omega
  · obtain ⟨-, hlt, hle, hreach⟩ := hcover c hc
    have hset := setEntryBlock_geometry ha hw (hlt.trans_le hle) hpos
    rw [getEntryBlock_eq]
    exact ⟨hset.1, by omega⟩
  · obtain ⟨-, hlt, hle, hreach⟩ := hcover c hc
    have hset := setEntryBlock_geometry ha hw (hlt.trans_le hle) hn
    exact ⟨hset.1, by omega⟩

/-- The last cluster shows what a sane geometry needs. -/
lemma sound_of_saneMount (h : SaneMount b.geometry b.totalSectors32) : b.Sound := by
  have hwrap : b.firstDataBlock = b.reservedSectorCount + b.numFats * b.sectorsPerFat32 :=
    h.no_wrap
  have hw : b.reservedSectorCount + b.numFats * b.sectorsPerFat32 < 2 ^ 32 := by
    rw [← hwrap]
    exact u32_lt _
  refine ⟨hw, ?_, ?_⟩
  · rcases Nat.eq_zero_or_pos b.clusters with h0 | hpos
    · exact .inl h0
    · right
      have hlast : clusterInRange b.geometry (b.clusters + 1) = true :=
        (clusterInRange_geometry ha hw).mpr ⟨by omega, by omega⟩
      have hslot := h.slot _ hlast
      have hspf : b.geometry.sectorsPerFat = b.sectorsPerFat32 := rfl
      have hspc : b.geometry.sectorsPerCluster = b.sectorsPerCluster := rfl
      have hcpos := ha.cluster_pos
      have hblock := (h.data_block _ hlast (b.sectorsPerCluster - 1) (by omega)).2
      rw [fat32EntryBytes, hspf] at hslot
      rw [clusterToBlock_geometry ha hw (by omega) (by omega)] at hblock
      have hmul : b.clusters * b.sectorsPerCluster =
          (b.clusters + 1 - 2) * b.sectorsPerCluster + b.sectorsPerCluster := by
        rw [← Nat.succ_mul, show (b.clusters + 1 - 2).succ = b.clusters from by omega]
      omega
  · have hin : b.fsInfo ≠ 0 → b.fsInfo ≠ 0xFFFF → b.fsInfo < b.reservedSectorCount :=
      fun h0 hF => (h.fsinfo h0 hF).2
    omega

end Accepted

/-- **Sane mounts.** The geometry of a volume that `fat32_init` has mounted is sane if
and only if the fields of its boot sector meet `Bpb.Sound`. -/
theorem mount_sane_iff {v : Vol} {fl : List Bool} {fs : Fs}
    (h : (fat32Init.run v fl).value = some fs) :
    SaneMount fs (bpbOf (bootSector v.disk)).totalSectors32 ↔
      (bpbOf (bootSector v.disk)).Sound := by
  obtain ⟨ha, rfl⟩ := accepted_of_fat32Init h
  exact ⟨sound_of_saneMount ha, saneMount_of_sound ha⟩

/-- A boot sector with one reserved sector, one FAT copy of one sector and clusters of one
sector, on a volume of `total` sectors. -/
def bootVolume (total : ℕ) : Vol where
  disk := fun a =>
    if a = 12 then 2 else if a = 13 ∨ a = 14 ∨ a = 16 ∨ a = 36 then 1
    else if 32 ≤ a ∧ a < 36 then byteOf total (a - 32)
    else if a = 44 then 2 else if a = 510 then 0x55 else if a = 511 then 0xAA else 0
  hint := 2

/-- The geometry of such a volume. -/
def bootFs (total : ℕ) : Fs where
  bytesPerSector := 512
  sectorsPerCluster := 1
  bytesPerCluster := 512
  firstFatBlock := 1
  sectorsPerFat := 1
  numFats := 1
  firstDataBlock := 2
  rootCluster := 2
  totalClusters := total - 2
  fsinfoBlock := 0

/-- A volume for which one block of the FAT is enough. -/
theorem mount_sane_iff_bootVolume :
    (fat32Init.run (bootVolume 100) []).value = some (bootFs 100) ∧
      SaneMount (bootFs 100) (bpbOf (bootSector (bootVolume 100).disk)).totalSectors32 := by
  have hm : (fat32Init.run (bootVolume 100) []).value = some (bootFs 100) := by decide
  exact ⟨hm, (mount_sane_iff hm).mpr (by decide)⟩

/-- A mounted volume of 200 sectors whose FAT copy has no slot for cluster 128: the block
that `fat32_set_entry` writes for it is the first block of the root directory. -/
theorem mount_not_sane :
    (fat32Init.run (bootVolume 200) []).value = some (bootFs 200) ∧
      clusterInRange (bootFs 200) 128 = true ∧
      setEntryBlock (bootFs 200) 128 0 ∉ fatArea (bootFs 200) 0 ∧
      setEntryBlock (bootFs 200) 128 0 = clusterToBlock (bootFs 200) 2 ∧
      ¬ SaneMount (bootFs 200) 200 := by
  have hset : setEntryBlock (bootFs 200) 128 0 = 2 := by decide
  have hin : clusterInRange (bootFs 200) 128 = true := by decide
  have hout : setEntryBlock (bootFs 200) 128 0 ∉ fatArea (bootFs 200) 0 := by
    rw [hset]
    exact fun h => absurd h.2 (by decide)
  exact ⟨by decide, hin, hout, by decide, fun h => hout (h.set_block 128 hin 0 (by decide)).1⟩

/-- A sane mount with a root cluster among its clusters has the geometry the file system
is verified over. -/
theorem geometry_of_mount {v : Vol} {fl : List Bool} {fs : Fs}
    (h : (fat32Init.run v fl).value = some fs)
    (hs : SaneMount fs (bpbOf (bootSector v.disk)).totalSectors32)
    (hroot : clusterInRange fs fs.rootCluster = true) : Geometry fs := by
  obtain ⟨ha, rfl⟩ := accepted_of_fat32Init h
  obtain ⟨hw, hclusters, hfsinfo⟩ := sound_of_saneMount ha hs
  have hr := (clusterInRange_geometry ha hw).mp hroot
  have hcover := hclusters.resolve_left (by omega)
  have hbpc : (bpbOf (bootSector v.disk)).geometry.bytesPerCluster =
      (bpbOf (bootSector v.disk)).sectorsPerCluster * 512 := by
    have hle := ha.cluster_le
    rw [Bpb.geometry, ha.bytesPerSector, u32_of_lt (by omega), Nat.mul_comm]
  have hfirst := firstDataBlock_eq hw
  have htotal := geometry_totalClusters hw
  exact
    { bytesPerSector := ha.bytesPerSector
      cluster_pos := ha.cluster_pos
      cluster_le := ha.cluster_le
      bytesPerCluster := hbpc
      fats_pos := ha.fats_pos
      reserved_pos := ha.reserved_pos
      fats_le := hfirst.ge
      covers := by
        rw [htotal]
        have hspf : (bpbOf (bootSector v.disk)).geometry.sectorsPerFat =
          (bpbOf (bootSector v.disk)).sectorsPerFat32 := rfl
        omega
      data_le := by
        rw [htotal]
        exact (congrArg (· + _) hfirst).le.trans hcover.2
      fsinfo := hfsinfo }

/-- And their regions lie apart. -/
theorem geometry_of_mount_bootVolume :
    (fat32Init.run (bootVolume 100) []).value = some (bootFs 100) ∧ Geometry (bootFs 100) := by
  have hm : (fat32Init.run (bootVolume 100) []).value = some (bootFs 100) := by decide
  obtain ⟨ha, hfs⟩ := accepted_of_fat32Init hm
  have hs := saneMount_of_sound ha (by decide)
  rw [← hfs] at hs
  exact ⟨hm, geometry_of_mount hm hs (by decide)⟩

end TownOS
