import TownOS.Fat32.Files
import TownOS.Foundations.Linked

/-!
The volume seen through its geometry: FAT entries and cluster contents.

`Geometry` is what a sane mount gives: the reserved area, the FAT copies and the
data area lie one after the other below block `2 ^ 28`, and every copy has a slot
for every cluster. Over it a disk is seen as a `View`: for each data cluster the
masked entry of the first FAT copy, and the bytes of the cluster. Each write of the
file system is one of three updates of this view, or none:

* `does_fat32SetEntry`: an entry of the FAT is replaced, in one atomic step;
* `does_writeCluster`: the contents of one cluster are replaced, block by block;
* `does_writeDirentAt`: a directory entry is replaced, in one atomic step;
* `does_fat32FsinfoInvalidate`: the FSInfo sector is not in the view.
-/

namespace TownOS

open Durable Bytes Linked

/-- The regions of a volume are disjoint, in order and within reach of the disk
driver, and each FAT copy covers every cluster. -/
structure Geometry (fs : Fs) : Prop where
  bytesPerSector : fs.bytesPerSector = 512
  cluster_pos : 0 < fs.sectorsPerCluster
  cluster_le : fs.sectorsPerCluster ≤ 128
  bytesPerCluster : fs.bytesPerCluster = fs.sectorsPerCluster * 512
  fats_pos : 0 < fs.numFats
  reserved_pos : 0 < fs.firstFatBlock
  fats_le : fs.firstFatBlock + fs.numFats * fs.sectorsPerFat ≤ fs.firstDataBlock
  covers : (fs.totalClusters + 2) * 4 ≤ fs.sectorsPerFat * 512
  data_le : fs.firstDataBlock + fs.totalClusters * fs.sectorsPerCluster ≤ 2 ^ 28
  fsinfo : fs.fsinfoBlock = 0 ∨ fs.fsinfoBlock = 0xFFFF ∨ fs.fsinfoBlock < fs.firstFatBlock

instance (fs : Fs) : Decidable (Geometry fs) :=
  decidable_of_iff (fs.bytesPerSector = 512 ∧ 0 < fs.sectorsPerCluster ∧
    fs.sectorsPerCluster ≤ 128 ∧ fs.bytesPerCluster = fs.sectorsPerCluster * 512 ∧
    0 < fs.numFats ∧ 0 < fs.firstFatBlock ∧
    fs.firstFatBlock + fs.numFats * fs.sectorsPerFat ≤ fs.firstDataBlock ∧
    (fs.totalClusters + 2) * 4 ≤ fs.sectorsPerFat * 512 ∧
    fs.firstDataBlock + fs.totalClusters * fs.sectorsPerCluster ≤ 2 ^ 28 ∧
    (fs.fsinfoBlock = 0 ∨ fs.fsinfoBlock = 0xFFFF ∨ fs.fsinfoBlock < fs.firstFatBlock))
    ⟨fun ⟨h1, h2, h3, h4, h5, h6, h7, h8, h9, h10⟩ => ⟨h1, h2, h3, h4, h5, h6, h7, h8, h9, h10⟩,
      fun h => ⟨h.bytesPerSector, h.cluster_pos, h.cluster_le, h.bytesPerCluster, h.fats_pos,
        h.reserved_pos, h.fats_le, h.covers, h.data_le, h.fsinfo⟩⟩

/-- The data clusters of the volume. -/
def InRange (fs : Fs) (c : ℕ) : Prop := 2 ≤ c ∧ c < fs.totalClusters + 2

instance (fs : Fs) : DecidablePred (InRange fs) := fun _ => inferInstanceAs (Decidable (_ ∧ _))

/-- Where the entry of cluster `c` is stored in FAT copy `n`. -/
def fatAddr (fs : Fs) (n c : ℕ) : ℕ := (fs.firstFatBlock + n * fs.sectorsPerFat) * 512 + 4 * c

/-- Where the contents of cluster `c` are stored. -/
def dataAddr (fs : Fs) (c : ℕ) : ℕ := (fs.firstDataBlock + (c - 2) * fs.sectorsPerCluster) * 512

/-- The masked entry of cluster `c` in FAT copy `n`. -/
def entryOf (fs : Fs) (d : ℕ → UInt8) (n c : ℕ) : ℕ := le32 d (fatAddr fs n c) % 2 ^ 28

/-! ### The view -/

/-- A volume as the file system reads it: the first FAT copy and the contents of
the clusters. -/
@[ext]
structure View where
  fat : ℕ → ℕ
  data : ℕ → ℕ → UInt8

namespace View

/-- The view with one FAT entry replaced. -/
def setFat (V : View) (c x : ℕ) : View := { V with fat := Function.update V.fat c x }

/-- The view with the contents of one cluster replaced. -/
def setData (V : View) (c : ℕ) (f : Buf) : View := { V with data := Function.update V.data c f }

/-- The view with one directory slot, entry `i` of cluster `c`, replaced. -/
def setSlot (V : View) (c i : ℕ) (e : Dirent) : View :=
  V.setData c fun j => if i * 32 ≤ j ∧ j < i * 32 + 32 then e.byte (j - i * 32) else V.data c j

@[simp] lemma setFat_data (V : View) (c x : ℕ) : (V.setFat c x).data = V.data := rfl

@[simp] lemma setFat_fat (V : View) (c x : ℕ) :
    (V.setFat c x).fat = Function.update V.fat c x := rfl

@[simp] lemma setData_fat (V : View) (c : ℕ) (f : Buf) : (V.setData c f).fat = V.fat := rfl

@[simp] lemma setData_data (V : View) (c : ℕ) (f : Buf) :
    (V.setData c f).data = Function.update V.data c f := rfl

/-- What the FAT says follows a cluster. -/
def link (fs : Fs) (V : View) (c : ℕ) : Link ℕ :=
  if fat32ClusterEnd ≤ V.fat c then .stop
  else if InRange fs (V.fat c) then .next (V.fat c)
  else .broken

end View

/-- The view of a disk. -/
def view (fs : Fs) (d : ℕ → UInt8) : View where
  fat c := if InRange fs c then entryOf fs d 0 c else 0
  data c i := if InRange fs c ∧ i < fs.bytesPerCluster then d (dataAddr fs c + i) else 0

/-! ### Arithmetic of the regions -/

namespace Geometry

variable {fs : Fs} (g : Geometry fs) {c c' n n' : ℕ}

include g

lemma total_le : fs.totalClusters ≤ fs.totalClusters * fs.sectorsPerCluster :=
  Nat.le_mul_of_pos_right _ g.cluster_pos

/-- Cluster numbers stay below the markers of the format. -/
lemma total_lt : fs.totalClusters + 2 ≤ fat32ClusterBad := by
  have h1 := g.total_le
  have h2 := g.covers
  have h3 := g.fats_le
  have h4 := g.data_le
  have h5 := g.reserved_pos
  have h6 : fs.sectorsPerFat ≤ fs.numFats * fs.sectorsPerFat :=
    Nat.le_mul_of_pos_left _ g.fats_pos
  rw [fat32ClusterBad]
  omega

lemma clusterLimit_eq : clusterLimit fs = fs.totalClusters + 2 := by
  have h := g.total_lt
  rw [fat32ClusterBad] at h
  exact u32_of_lt (by rw [firstDataCluster]; omega)

lemma clusterInRange_iff : clusterInRange fs c = true ↔ InRange fs c := by
  rw [clusterInRange, Bool.and_eq_true, decide_eq_true_iff, decide_eq_true_iff,
    g.clusterLimit_eq]
  rfl

lemma entriesPerBlock_eq : entriesPerBlock fs = 128 := by
  rw [entriesPerBlock, g.bytesPerSector, fat32EntryBytes]

omit g in
/-- The FAT copies follow one another. -/
lemma copy_le (fs : Fs) (hn : n < n') :
    n * fs.sectorsPerFat + fs.sectorsPerFat ≤ n' * fs.sectorsPerFat := by
  rw [← Nat.succ_mul]
  exact Nat.mul_le_mul_right _ hn

lemma slot_le (hc : InRange fs c) : 4 * c + 4 ≤ fs.sectorsPerFat * 512 := by
  have h := g.covers
  have h' := hc.2
  omega

omit g in
lemma cluster_fits (hc : InRange fs c) :
    (c - 2) * fs.sectorsPerCluster + fs.sectorsPerCluster ≤
      fs.totalClusters * fs.sectorsPerCluster := by
  rw [← Nat.succ_mul]
  exact Nat.mul_le_mul_right _ (by have := hc.1; have := hc.2; omega)

/-- The block of a FAT entry lies in its copy. -/
lemma fatBlock_lt (hn : n < fs.numFats) (hc : InRange fs c) :
    fs.firstFatBlock + n * fs.sectorsPerFat + c / 128 < fs.firstDataBlock := by
  have h1 := copy_le fs hn
  have h2 := g.slot_le hc
  have h3 := g.fats_le
  omega

lemma firstData_le : fs.firstDataBlock ≤ 2 ^ 28 := le_trans (Nat.le_add_right _ _) g.data_le

lemma clusterToBlock_eq (hc : InRange fs c) :
    clusterToBlock fs c = fs.firstDataBlock + (c - 2) * fs.sectorsPerCluster := by
  have h1 := cluster_fits hc
  have h2 := g.data_le
  have h3 := g.total_lt
  have h4 := hc.2
  rw [fat32ClusterBad] at h3
  rw [clusterToBlock, firstDataCluster, sub32_of_le (by omega) hc.1, u32_of_lt (by omega)]

/-- Different FAT slots do not overlap. -/
lemma fatAddr_disjoint (hc : InRange fs c) (hc' : InRange fs c') (h : n ≠ n' ∨ c ≠ c') :
    fatAddr fs n' c' + 4 ≤ fatAddr fs n c ∨ fatAddr fs n c + 4 ≤ fatAddr fs n' c' := by
  have h1 := g.slot_le hc
  have h2 := g.slot_le hc'
  rw [fatAddr, fatAddr]
  rcases Nat.lt_trichotomy n n' with hn | rfl | hn
  · have h3 := copy_le fs hn
    omega
  · have hcc : c ≠ c' := h.resolve_left (by simp)
    omega
  · have h3 := copy_le fs hn
    omega

/-- The FAT copies end before the data. -/
lemma fatAddr_lt_data (hn : n < fs.numFats) (hc : InRange fs c) :
    fatAddr fs n c + 4 ≤ fs.firstDataBlock * 512 := by
  have h1 := copy_le fs hn
  have h2 := g.slot_le hc
  have h3 := g.fats_le
  rw [fatAddr]
  omega

omit g in
lemma dataAddr_ge : fs.firstDataBlock * 512 ≤ dataAddr fs c := by
  rw [dataAddr, Nat.add_mul]
  exact Nat.le_add_right _ _

/-- Different clusters do not overlap. -/
lemma dataAddr_disjoint (hc : InRange fs c) (hc' : InRange fs c') (h : c ≠ c') :
    dataAddr fs c' + fs.bytesPerCluster ≤ dataAddr fs c ∨
      dataAddr fs c + fs.bytesPerCluster ≤ dataAddr fs c' := by
  have key : ∀ {x y : ℕ}, InRange fs x → x < y →
      dataAddr fs x + fs.bytesPerCluster ≤ dataAddr fs y := by
    intro x y hx hxy
    have h1 : (x - 2 + 1) * fs.sectorsPerCluster ≤ (y - 2) * fs.sectorsPerCluster :=
      Nat.mul_le_mul_right _ (by have := hx.1; omega)
    rw [Nat.succ_mul] at h1
    rw [dataAddr, dataAddr, g.bytesPerCluster]
    omega
  rcases Nat.lt_or_gt_of_ne h with hlt | hgt
  · exact .inr (key hc hlt)
  · exact .inl (key hc' hgt)

end Geometry

/-! ### What a write changes in the view -/

section Writes

variable {fs : Fs} (g : Geometry fs) {d : ℕ → UInt8} {c c' n n' x : ℕ}

lemma entryOf_store32_self {m : ℕ} (hm : m < 2 ^ 32) :
    entryOf fs (store32 d (fatAddr fs n c) m) n c = m % 2 ^ 28 := by
  rw [entryOf, le32_store32 _ _ hm]

include g

lemma entryOf_store32_of_ne {m : ℕ} (hc : InRange fs c) (hc' : InRange fs c')
    (h : n ≠ n' ∨ c ≠ c') :
    entryOf fs (store32 d (fatAddr fs n c) m) n' c' = entryOf fs d n' c' := by
  rw [entryOf, entryOf, le32_store32_of_disjoint (g.fatAddr_disjoint hc hc' h)]

/-- A word stored in a FAT slot: of the first copy it is an entry of the view, of
the others nothing. -/
lemma view_store32 {m : ℕ} (hn : n < fs.numFats) (hc : InRange fs c) (hm : m < 2 ^ 32) :
    view fs (store32 d (fatAddr fs n c) m) =
      if n = 0 then (view fs d).setFat c (m % 2 ^ 28) else view fs d := by
  have hdata : (view fs (store32 d (fatAddr fs n c) m)).data = (view fs d).data := by
    funext b i
    have h1 := g.fatAddr_lt_data hn hc
    have h2 : fs.firstDataBlock * 512 ≤ dataAddr fs b := Geometry.dataAddr_ge
    simp only [view]
    rw [store32_of_ne (b := d) (by omega)]
  have hfat : (view fs (store32 d (fatAddr fs n c) m)).fat =
      if n = 0 then Function.update (view fs d).fat c (m % 2 ^ 28) else (view fs d).fat := by
    funext b
    by_cases hb : InRange fs b
    · by_cases hcb : c = b
      · subst hcb
        by_cases hn0 : n = 0
        · subst hn0
          simp [view, hc, entryOf_store32_self hm]
        · simp [view, hc, hn0, entryOf_store32_of_ne g hc hc (.inl hn0)]
      · have hne : b ≠ c := fun h => hcb h.symm
        split_ifs <;> simp [view, hb, hne, entryOf_store32_of_ne g hc hb (.inr hcb)]
    · have hne : b ≠ c := fun h => hb (h ▸ hc)
      split_ifs <;> simp [view, hb, hne]
  split_ifs with hn0
  · rw [if_pos hn0] at hfat
    exact View.ext hfat hdata
  · rw [if_neg hn0] at hfat
    exact View.ext hfat hdata

/-- Bytes replaced inside one cluster are bytes of its contents. -/
lemma view_patch {d' : ℕ → UInt8} {f : Buf} (hc : InRange fs c)
    (hin : ∀ i < fs.bytesPerCluster, d' (dataAddr fs c + i) = f i)
    (hout : ∀ a, a < dataAddr fs c ∨ dataAddr fs c + fs.bytesPerCluster ≤ a → d' a = d a) :
    view fs d' = (view fs d).setData c fun i => if i < fs.bytesPerCluster then f i else 0 := by
  have h0 : fs.firstDataBlock * 512 ≤ dataAddr fs c := Geometry.dataAddr_ge
  refine View.ext (funext fun b => ?_) (funext fun b => funext fun i => ?_)
  · by_cases hb : InRange fs b
    · have h1 := g.fatAddr_lt_data g.fats_pos hb
      simp only [view, View.setData_fat, if_pos hb, entryOf]
      rw [le32_congr fun k hk => hout (fatAddr fs 0 b + k) (.inl (by omega))]
    · simp [view, hb]
  · by_cases hbc : b = c
    · subst hbc
      by_cases hi : i < fs.bytesPerCluster
      · simp [view, hc, hi, hin i hi]
      · simp [view, hi]
    · by_cases hb : InRange fs b ∧ i < fs.bytesPerCluster
      · have h1 := g.dataAddr_disjoint hc hb.1 (fun h => hbc h.symm)
        simp only [view, if_pos hb, View.setData_data, Function.update_of_ne hbc]
        exact hout _ (by omega)
      · simp [view, hb, hbc]

/-- Bytes of the reserved area are not in the view. -/
lemma view_reserved {d' : ℕ → UInt8} (h : ∀ a, fs.firstFatBlock * 512 ≤ a → d' a = d a) :
    view fs d' = view fs d := by
  have h1 := g.fats_le
  refine View.ext (funext fun b => ?_) (funext fun b => funext fun i => ?_)
  · have hk : le32 d' (fatAddr fs 0 b) = le32 d (fatAddr fs 0 b) :=
      le32_congr fun k _ => h _ (by rw [fatAddr]; omega)
    simp only [view, entryOf, hk]
  · have h2 : fs.firstFatBlock * 512 ≤ fs.firstDataBlock * 512 :=
      Nat.mul_le_mul_right _ (le_trans (Nat.le_add_right _ _) h1)
    have h3 := (h2.trans Geometry.dataAddr_ge).trans (Nat.le_add_right (dataAddr fs b) i)
    simp only [view, h _ h3]

end Writes

/-! ### Reading blocks -/

lemma reads_diskRead (lba count : ℕ) (v : Vol) :
    Act.Reads (diskRead lba count) v (some fun i =>
      if i < count * 512 then v.disk (lba % lbaLimit * 512 + i) else 0) :=
  (Act.reads_guard v).bind (Act.reads_get (Act.Reads.pure _ _))

/-! ### Writing blocks -/

/-- The volume with the disk replaced. -/
def Vol.withDisk (v : Vol) (d : ℕ → UInt8) : Vol := { v with disk := d }

@[simp] lemma Vol.withDisk_disk (v : Vol) (d : ℕ → UInt8) : (v.withDisk d).disk = d := rfl

lemma does_guard (calm : Prop) (v : Vol) {I : Vol → Prop} :
    Act.Does calm (Act.guard : Act Vol Unit) v I (fun _ w => w = v) fun w => ¬calm ∧ w = v :=
  (Act.reads_guard v).does.mono (fun _ h => h) (fun _ _ h => h.1)
    fun _ h => ⟨fun hcalm => absurd (h.2 hcalm) (by simp), h.1⟩

/-- A block write happens, or fails and changes nothing. -/
lemma does_diskWrite_one (calm : Prop) (v : Vol) (b : ℕ) (buf : Buf) :
    Act.Does calm (diskWrite b 1 buf) v
      (fun w => w = v.withDisk (setBlock 512 v.disk (b % lbaLimit) buf))
      (fun _ w => w = v.withDisk (setBlock 512 v.disk (b % lbaLimit) buf))
      fun w => ¬calm ∧ w = v := by
  refine (does_guard calm v).bind ?_
  · rintro _ w rfl
    refine Act.does_get (Act.does_commit ?_ (Act.does_pure ?_)) <;>
      simp [Vol.withDisk, diskSectorSize]

/-- The entry as `fat32_set_entry` leaves it: the top four bits of the old one. -/
def mergeEntry (old x : ℕ) : ℕ := old / 2 ^ 28 * 2 ^ 28 + x % 2 ^ 28

lemma mergeEntry_lt {old : ℕ} (h : old < 2 ^ 32) (x : ℕ) : mergeEntry old x < 2 ^ 32 := by
  have := Nat.mod_lt x (show 0 < 2 ^ 28 by norm_num)
  rw [mergeEntry]
  omega

lemma mergeEntry_mod (old x : ℕ) : mergeEntry old x % 2 ^ 28 = x % 2 ^ 28 := by
  rw [mergeEntry]
  omega

/-- The disk after `fat32_set_entry` has patched the first `k` copies. -/
def setEntries (fs : Fs) (d : ℕ → UInt8) (c x : ℕ) : ℕ → ℕ → UInt8
  | 0 => d
  | k + 1 =>
    store32 (setEntries fs d c x k) (fatAddr fs k c)
      (mergeEntry (le32 (setEntries fs d c x k) (fatAddr fs k c)) x)

/-- The disk with the first `j` blocks of a buffer stored from block `lba` on. -/
def putBlocks (d buf : Buf) (lba j : ℕ) : Buf := fun a =>
  if lba * 512 ≤ a ∧ a < (lba + j) * 512 then buf (a - lba * 512) else d a

lemma putBlocks_in {d buf : Buf} {lba j a : ℕ} (h1 : lba * 512 ≤ a) (h2 : a < (lba + j) * 512) :
    putBlocks d buf lba j a = buf (a - lba * 512) := if_pos ⟨h1, h2⟩

lemma putBlocks_out {d buf : Buf} {lba j a : ℕ} (h : a < lba * 512 ∨ (lba + j) * 512 ≤ a) :
    putBlocks d buf lba j a = d a := if_neg (by omega)

lemma spliceDirent_in (buf : Buf) (e : Dirent) {o k : ℕ} (hk : k < 32) :
    spliceDirent buf o e (o + k) = e.byte k := by
  rw [spliceDirent, dif_pos (by omega), Dirent.byte, dif_pos hk]
  exact congrArg e (Fin.ext (Nat.add_sub_cancel_left o k))

lemma spliceDirent_out {buf : Buf} {e : Dirent} {o j : ℕ} (h : j < o ∨ o + 32 ≤ j) :
    spliceDirent buf o e j = buf j := dif_neg (by omega)

section Writing

variable {fs : Fs} (g : Geometry fs) {calm : Prop} {c : ℕ}

include g

/-- Once the first copy is patched, the entry has changed in the view. -/
lemma view_setEntries {d : ℕ → UInt8} {x k : ℕ} (hc : InRange fs c) (hx : x < 2 ^ 28)
    (hk : k ≤ fs.numFats) :
    view fs (setEntries fs d c x k) = if k = 0 then view fs d else (view fs d).setFat c x := by
  induction k with
  | zero => rfl
  | succ k ih =>
    rw [setEntries, view_store32 g (by omega) hc (mergeEntry_lt (le32_lt _ _) x),
      mergeEntry_mod, Nat.mod_eq_of_lt hx, ih (by omega), if_neg (Nat.succ_ne_zero k)]
    by_cases hk0 : k = 0
    · rw [if_pos hk0, if_pos hk0]
    · rw [if_neg hk0, if_neg hk0]

omit g in
/-- One round of `fat32_set_entry`: an entry is patched in the block it was read with. -/
lemma setBlock_merge {d : ℕ → UInt8} {x block : ℕ} {blockBuf : Buf}
    (hbuf : ∀ i < 512, blockBuf i = d (block * 512 + i)) :
    setBlock 512 d block
        (store32 blockBuf (c % 128 * 4)
          ((le32 blockBuf (c % 128 * 4) &&& (0xFFFFFFFF - fat32EntryMask)) |||
            (x &&& fat32EntryMask))) =
      store32 d (block * 512 + c % 128 * 4)
        (mergeEntry (le32 d (block * 512 + c % 128 * 4)) x) := by
  have hold : le32 blockBuf (c % 128 * 4) = le32 d (block * 512 + c % 128 * 4) := by
    refine le32_congr fun i hi => ?_
    rw [hbuf _ (by omega), ← Nat.add_assoc]
  have hmask : 0xFFFFFFFF - fat32EntryMask = 0xF0000000 := rfl
  rw [hmask, fat32EntryMask, splice_mask (le32_lt _ _), setBlock_store32 (by omega) hbuf, hold,
    mergeEntry]

omit g in
/-- One round of `fat32_set_entry`: copy `k` is patched. -/
lemma setBlock_entry {d : ℕ → UInt8} {x k : ℕ} {blockBuf : Buf} (hbuf : ∀ i < 512,
      blockBuf i = d ((fs.firstFatBlock + k * fs.sectorsPerFat + c / 128) * 512 + i)) :
    setBlock 512 d (fs.firstFatBlock + k * fs.sectorsPerFat + c / 128)
        (store32 blockBuf (c % 128 * 4)
          ((le32 blockBuf (c % 128 * 4) &&& (0xFFFFFFFF - fat32EntryMask)) |||
            (x &&& fat32EntryMask))) =
      store32 d (fatAddr fs k c) (mergeEntry (le32 d (fatAddr fs k c)) x) := by
  have haddr : (fs.firstFatBlock + k * fs.sectorsPerFat + c / 128) * 512 + c % 128 * 4 =
      fatAddr fs k c := by
    rw [fatAddr]
    omega
  rw [setBlock_merge hbuf, haddr]

/-- One copy is patched, in one atomic step. -/
lemma does_setEntryCopy (v : Vol) {x k : ℕ} (hc : InRange fs c) (hk : k < fs.numFats) :
    Act.Does calm (setEntryCopy fs c x k) (v.withDisk (setEntries fs v.disk c x k))
      (fun w => w = v.withDisk (setEntries fs v.disk c x (k + 1)))
      (fun _ w => w = v.withDisk (setEntries fs v.disk c x (k + 1)))
      fun w => ¬calm ∧ w = v.withDisk (setEntries fs v.disk c x k) := by
  have hb := g.fatBlock_lt hk hc
  have hd := g.firstData_le
  have hblock : u32 (fs.firstFatBlock + k * fs.sectorsPerFat + c / 128) % lbaLimit =
      fs.firstFatBlock + k * fs.sectorsPerFat + c / 128 := by
    rw [u32_of_lt (by omega), lbaLimit, Nat.mod_eq_of_lt (by omega)]
  have hbuf : ∀ i < 512, (if i < 1 * 512 then setEntries fs v.disk c x k
      ((fs.firstFatBlock + k * fs.sectorsPerFat + c / 128) * 512 + i) else 0) =
      setEntries fs v.disk c x k
        ((fs.firstFatBlock + k * fs.sectorsPerFat + c / 128) * 512 + i) :=
    fun i hi => if_pos (by omega)
  have hread := reads_diskRead (u32 (fs.firstFatBlock + k * fs.sectorsPerFat + c / 128)) 1
    (v.withDisk (setEntries fs v.disk c x k))
  rw [hblock, Vol.withDisk_disk] at hread
  have hwrite := does_diskWrite_one calm (v.withDisk (setEntries fs v.disk c x k))
    (u32 (fs.firstFatBlock + k * fs.sectorsPerFat + c / 128))
  simp only [hblock, Vol.withDisk_disk] at hwrite
  rw [setEntryCopy, setEntryBlock]
  simp only [g.entriesPerBlock_eq, fat32EntryBytes]
  refine hread.bind_does ((hwrite _).mono (fun w h => ?_) (fun _ w h => ?_) fun w h => h)
    fun hcalm => ⟨hcalm, rfl⟩
  · rw [h, setBlock_entry hbuf]
    rfl
  · rw [h, setBlock_entry hbuf]
    rfl

/-- The copies are patched one after the other. -/
lemma does_setEntryLoop (v : Vol) {x : ℕ} (hc : InRange fs c) {n k : ℕ}
    (hn : k + n = fs.numFats) :
    Act.Does calm (setEntryLoop fs c x n k) (v.withDisk (setEntries fs v.disk c x k))
      (fun w => ∃ j, 0 < j ∧ j ≤ fs.numFats ∧ w = v.withDisk (setEntries fs v.disk c x j))
      (fun _ w => w = v.withDisk (setEntries fs v.disk c x fs.numFats))
      fun w => ¬calm ∧ ∃ j < fs.numFats, w = v.withDisk (setEntries fs v.disk c x j) := by
  induction n generalizing k with
  | zero =>
    obtain rfl : k = fs.numFats := hn
    exact Act.does_pure rfl
  | succ n ih =>
    have hk : k < fs.numFats := by omega
    refine Act.Does.bind ((does_setEntryCopy g v hc hk).mono
      (fun w h => ⟨k + 1, by omega, hk, h⟩) (fun _ _ h => h) fun w h => ⟨h.1, k, hk, h.2⟩) ?_
    rintro - w rfl
    exact ih (by omega)

/-- `fat32_set_entry`: the entry changes when its first copy is written. A
failure between two copies leaves it changed in the view. -/
lemma does_fat32SetEntry (calm : Prop) (v : Vol) {x : ℕ} (hc : InRange fs c) (hx : x < 2 ^ 28) :
    Act.Does calm (fat32SetEntry fs c x) v
      (fun w => view fs w.disk = (view fs v.disk).setFat c x)
      (fun _ w => view fs w.disk = (view fs v.disk).setFat c x)
      fun w => ¬calm ∧ (view fs w.disk = view fs v.disk ∨
        1 < fs.numFats ∧ view fs w.disk = (view fs v.disk).setFat c x) := by
  have hv : ∀ {j}, 0 < j → j ≤ fs.numFats →
      view fs (setEntries fs v.disk c x j) = (view fs v.disk).setFat c x := by
    intro j hj hle
    rw [view_setEntries g hc hx hle, if_neg (by omega)]
  refine (does_setEntryLoop g v hc (Nat.zero_add _)).mono ?_ ?_ ?_
  · rintro w ⟨j, hj, hle, rfl⟩
    exact hv hj hle
  · rintro _ w rfl
    exact hv g.fats_pos le_rfl
  · rintro w ⟨hcalm, j, hlt, rfl⟩
    refine ⟨hcalm, ?_⟩
    rcases Nat.eq_zero_or_pos j with rfl | hj
    · exact .inl rfl
    · exact .inr ⟨by omega, hv hj hlt.le⟩

omit g in
/-- The blocks of a buffer are stored one after the other: `j` of them give the
store below. -/
lemma does_storeBlocks (calm : Prop) (v : Vol) (lba : ℕ) (buf : Buf) {n k : ℕ} {stored : ℕ → Buf}
    (h0 : stored k = v.disk)
    (hs : ∀ j, stored (j + 1) =
      setBlock 512 (stored j) (lba + j) fun i => buf (j * 512 + i)) :
    Act.Does calm (storeBlocks lba buf n k) v
      (fun w => ∃ j, k < j ∧ j ≤ k + n ∧ w = v.withDisk (stored j))
      (fun _ w => w = v.withDisk (stored (k + n))) fun _ => False := by
  induction n generalizing k v with
  | zero =>
    refine Act.does_pure ?_
    rw [Nat.add_zero, h0]
    rfl
  | succ n ih =>
    have hw : v.withDisk (setBlock 512 v.disk (lba + k) fun i => buf (k * 512 + i)) =
        v.withDisk (stored (k + 1)) := by
      rw [hs k, h0]
    refine Act.does_get (Act.does_commit ⟨k + 1, by omega, by omega, hw⟩ ?_)
    show Act.Does calm _ (v.withDisk _) _ _ _
    rw [diskSectorSize, hw]
    refine (ih (v.withDisk (stored (k + 1))) rfl).mono ?_ ?_ fun _ h => h
    · rintro w ⟨j, hj, hle, rfl⟩
      exact ⟨j, by omega, by omega, rfl⟩
    · rintro _ w rfl
      rw [show k + 1 + n = k + (n + 1) by omega]
      rfl

omit g in
lemma putBlocks_succ (d buf : Buf) (lba j : ℕ) :
    putBlocks d buf lba (j + 1) =
      setBlock 512 (putBlocks d buf lba j) (lba + j) fun i => buf (j * 512 + i) := by
  funext a
  by_cases hin : (lba + j) * 512 ≤ a ∧ a < (lba + j) * 512 + 512
  · obtain ⟨i, rfl⟩ := Nat.exists_eq_add_of_le hin.1
    have hi : i < 512 := by omega
    have hoff : (lba + j) * 512 + i - lba * 512 = j * 512 + i := by omega
    rw [setBlock_in _ hi, putBlocks_in (by omega) (by omega), hoff]
  · rw [setBlock_out _ (by omega) (by omega)]
    by_cases h : lba * 512 ≤ a ∧ a < (lba + j) * 512
    · rw [putBlocks_in h.1 h.2, putBlocks_in h.1 (by omega)]
    · rw [putBlocks_out (by omega), putBlocks_out (by omega)]

/-- A cluster write replaces the contents of the cluster, a block at a time. -/
lemma does_writeCluster (calm : Prop) (v : Vol) (buf : Buf) (hc : InRange fs c) :
    Act.Does calm (diskWrite (clusterToBlock fs c) (fs.sectorsPerCluster % 2 ^ 8) buf) v
      (fun w => ∃ f, view fs w.disk = (view fs v.disk).setData c f)
      (fun _ w => view fs w.disk = (view fs v.disk).setData c
        fun i => if i < fs.bytesPerCluster then buf i else 0)
      fun w => ¬calm ∧ w = v := by
  have h1 := Geometry.cluster_fits hc
  have h2 := g.data_le
  have h3 := g.cluster_le
  have h4 := g.cluster_pos
  have hbpc := g.bytesPerCluster
  have hb := g.clusterToBlock_eq hc
  have hlba : clusterToBlock fs c % lbaLimit = clusterToBlock fs c := by
    rw [hb, lbaLimit, Nat.mod_eq_of_lt (by omega)]
  have haddr : clusterToBlock fs c * 512 = dataAddr fs c := by
    rw [hb, dataAddr]
  have hview : ∀ j ≤ fs.sectorsPerCluster,
      view fs (putBlocks v.disk buf (clusterToBlock fs c) j) =
        (view fs v.disk).setData c fun i => if i < fs.bytesPerCluster then
          (if i < j * 512 then buf i else v.disk (dataAddr fs c + i)) else 0 := by
    intro j hj
    refine view_patch g hc (fun i hi => ?_) fun a ha => putBlocks_out (by omega)
    split_ifs with hij
    · rw [putBlocks_in (by omega) (by omega), haddr, Nat.add_sub_cancel_left]
    · exact putBlocks_out (by omega)
  have hnone : putBlocks v.disk buf (clusterToBlock fs c) 0 = v.disk :=
    funext fun a => putBlocks_out (by omega)
  refine (does_guard calm v).bind ?_
  · rintro _ w rfl
    rw [hlba, Nat.mod_eq_of_lt (by omega)]
    refine (does_storeBlocks calm w (clusterToBlock fs c) buf hnone
      (putBlocks_succ w.disk buf (clusterToBlock fs c))).mono ?_ ?_ fun _ h => h.elim
    · rintro x ⟨j, -, hj, rfl⟩
      exact ⟨_, hview j (by omega)⟩
    · rintro _ x rfl
      rw [Vol.withDisk_disk, Nat.zero_add, hview _ le_rfl, ← hbpc]
      refine congrArg _ (funext fun i => ?_)
      split_ifs <;> rfl

/-- The byte address of a directory slot. -/
lemma slot_addr {i : ℕ} (hc : InRange fs c) (hi : i < entriesPerCluster fs) :
    (slotLocation fs c i).1 % lbaLimit * 512 + (slotLocation fs c i).2 = dataAddr fs c + i * 32 ∧
      (slotLocation fs c i).2 + 32 ≤ 512 ∧ i * 32 + 32 ≤ fs.bytesPerCluster := by
  have h1 := Geometry.cluster_fits hc
  have h2 := g.data_le
  have hb := g.bytesPerCluster
  rw [entriesPerCluster, direntBytes, hb] at hi
  rw [slotLocation, direntBytes, g.bytesPerSector, g.clusterToBlock_eq hc, dataAddr, lbaLimit, hb]
  refine ⟨?_, ?_, by omega⟩
  · rw [u32_of_lt (by omega), Nat.mod_eq_of_lt (by omega)]
    omega
  · show i * 32 % 512 + 32 ≤ 512
    omega

/-- `write_dirent_at` replaces the bytes of one slot, in one atomic step. -/
lemma does_writeDirentAt (calm : Prop) (v : Vol) {i : ℕ} (e : Dirent) (hc : InRange fs c)
    (hi : i < entriesPerCluster fs) :
    Act.Does calm (writeDirentAt (slotLocation fs c i).1 (slotLocation fs c i).2 e) v
      (fun w => view fs w.disk = (view fs v.disk).setSlot c i e)
      (fun _ w => view fs w.disk = (view fs v.disk).setSlot c i e)
      fun w => ¬calm ∧ w = v := by
  obtain ⟨haddr, hoff, hlen⟩ := slot_addr g hc hi
  generalize (slotLocation fs c i).1 = b at haddr ⊢
  generalize (slotLocation fs c i).2 = o at haddr hoff ⊢
  refine Act.Does.bind ((reads_diskRead b 1 v).does.mono (fun _ h => h) (fun _ _ h => h)
    fun w h => ⟨fun hcalm => absurd (h.2 hcalm) (by simp), h.1⟩) ?_
  rintro buf w ⟨rfl, hbuf⟩
  obtain rfl := Option.some.inj hbuf
  have hview : view fs (setBlock 512 w.disk (b % lbaLimit) (spliceDirent (fun j =>
      if j < 1 * 512 then w.disk (b % lbaLimit * 512 + j) else 0) o e)) =
      (view fs w.disk).setSlot c i e := by
    have hout : ∀ a, a < dataAddr fs c + i * 32 ∨ dataAddr fs c + (i * 32 + 32) ≤ a →
        setBlock 512 w.disk (b % lbaLimit) (spliceDirent (fun j =>
          if j < 1 * 512 then w.disk (b % lbaLimit * 512 + j) else 0) o e) a = w.disk a := by
      intro a ha
      refine setBlock_patch (l := o) (u := o + 32) (by omega) (fun j hj hne => ?_) a (by omega)
      rw [spliceDirent_out hne, if_pos (by omega)]
    rw [view_patch g hc (fun j _ => rfl) fun a ha => hout a (by omega)]
    refine congrArg _ (funext fun j => ?_)
    by_cases hin : i * 32 ≤ j ∧ j < i * 32 + 32
    · obtain ⟨k, rfl⟩ := Nat.exists_eq_add_of_le hin.1
      have ha : dataAddr fs c + (i * 32 + k) = b % lbaLimit * 512 + (o + k) := by omega
      rw [if_pos (by omega), if_pos hin, ha, setBlock_in _ (by omega),
        spliceDirent_in _ _ (by omega), Nat.add_sub_cancel_left]
    · rw [if_neg hin]
      by_cases hj : j < fs.bytesPerCluster
      · rw [if_pos hj, hout _ (by omega)]
        exact (if_pos ⟨hc, hj⟩).symm
      · rw [if_neg hj]
        exact (if_neg fun h => hj h.2).symm
  refine (does_diskWrite_one calm w b _).mono ?_ ?_ fun _ h => h
  · rintro x rfl
    exact hview
  · rintro _ x rfl
    exact hview

/-- `fat32_fsinfo_invalidate` never gives up, and changes nothing in the view. -/
lemma does_fat32FsinfoInvalidate (calm : Prop) (v : Vol) :
    Act.Does calm (fat32FsinfoInvalidate fs) v
      (fun w => view fs w.disk = view fs v.disk) (fun _ w => view fs w.disk = view fs v.disk)
      fun _ => False := by
  rw [fat32FsinfoInvalidate]
  split_ifs with hnone
  · exact Act.does_pure rfl
  have hlt : fs.fsinfoBlock < fs.firstFatBlock := by
    rcases g.fsinfo with h | h | h
    · exact absurd (.inl h) hnone
    · exact absurd (.inr h) hnone
    · exact h
  have hview : ∀ f, view fs (setBlock 512 v.disk (fs.fsinfoBlock % lbaLimit) f) =
      view fs v.disk := by
    intro f
    have h1 := g.fats_le
    have h2 := g.firstData_le
    rw [lbaLimit, Nat.mod_eq_of_lt (by omega)]
    have h3 : fs.fsinfoBlock * 512 + 512 ≤ fs.firstFatBlock * 512 := by
      rw [← Nat.succ_mul]
      exact Nat.mul_le_mul_right _ hlt
    exact view_reserved g fun a ha => setBlock_out _ (by omega) (.inr (h3.trans ha))
  refine Act.Does.bind (Q := fun _ w => w = v) ?_ ?_
  · refine (reads_diskRead fs.fsinfoBlock 1 v).does.attempt.mono (fun _ h => h) ?_ fun _ h => h
    rintro (_ | buf) w h
    · exact h.1
    · exact h.1
  · rintro (_ | buf) w rfl
    · exact Act.does_pure rfl
    · dsimp only
      split_ifs
      · exact Act.does_pure rfl
      · refine Act.Does.bind (Q := fun _ x => view fs x.disk = view fs w.disk)
          ((does_diskWrite_one calm w _ _).attempt.mono ?_ ?_ fun _ h => h) fun _ x hx =>
          Act.does_pure hx
        · rintro x rfl
          exact hview _
        · rintro (_ | _) x hx
          · rw [hx.2]
          · rw [show x = _ from hx]
            exact hview _

end Writing

end TownOS
