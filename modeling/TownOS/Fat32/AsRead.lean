import TownOS.Fat32.Mount

/-!
The volume as the file system reads it, whatever its geometry.

The `view` of a volume is where a sane mount keeps its FAT and its clusters. Here
nothing is assumed of the mount: `asRead` shows what the code finds at the blocks
it computes, in 32-bit arithmetic and within the 28 bits the drive takes, so that
a volume of any size with any content has one.

* `Mounted`: what `fat32_init` does check (`mounted_of_fat32Init`);
* `Mounted.reads_fat32GetEntry`, `Mounted.reads_fat32NextCluster`,
  `reads_readCluster_asRead`: what is read is what `asRead` shows;
* `Mounted.reads_scanSpan`, `Mounted.does_freeCountLoop`: the two scans that go
  through the FAT a block at a time;
* `reads_fat32GetEntry`, `reads_fat32NextCluster`, `reads_readCluster`: over a sane
  geometry, what is read is what the `view` shows.
-/

namespace TownOS

open Durable Bytes Linked

/-- What a successful `fat32_init` says about the cached geometry. -/
structure Mounted (fs : Fs) : Prop where
  bytesPerSector : fs.bytesPerSector = 512
  cluster_pos : 0 < fs.sectorsPerCluster
  cluster_le : fs.sectorsPerCluster ≤ 128
  bytesPerCluster : fs.bytesPerCluster = fs.sectorsPerCluster * 512
  fats_pos : 0 < fs.numFats
  total_lt : fs.totalClusters < 2 ^ 32

instance (fs : Fs) : Decidable (Mounted fs) :=
  decidable_of_iff (fs.bytesPerSector = 512 ∧ 0 < fs.sectorsPerCluster ∧
    fs.sectorsPerCluster ≤ 128 ∧ fs.bytesPerCluster = fs.sectorsPerCluster * 512 ∧
    0 < fs.numFats ∧ fs.totalClusters < 2 ^ 32)
    ⟨fun ⟨h1, h2, h3, h4, h5, h6⟩ => ⟨h1, h2, h3, h4, h5, h6⟩,
      fun h => ⟨h.bytesPerSector, h.cluster_pos, h.cluster_le, h.bytesPerCluster, h.fats_pos,
        h.total_lt⟩⟩

lemma Geometry.mounted {fs : Fs} (g : Geometry fs) : Mounted fs :=
  ⟨g.bytesPerSector, g.cluster_pos, g.cluster_le, g.bytesPerCluster, g.fats_pos, by
    have h1 := g.total_le
    have h2 := g.data_le
    omega⟩

/-- The byte of the disk at which the code looks for the entry of cluster `c` in FAT
copy `n`. -/
def entryAddr (fs : Fs) (n c : ℕ) : ℕ :=
  setEntryBlock fs c n % lbaLimit * 512 + c % entriesPerBlock fs * fat32EntryBytes

/-- The FAT entries and the clusters as the code reads them off the disk. -/
def asRead (fs : Fs) (d : ℕ → UInt8) : View where
  fat c := le32 d (entryAddr fs 0 c) % 2 ^ 28
  data c i := if i < fs.bytesPerCluster then d (clusterToBlock fs c % lbaLimit * 512 + i) else 0

/-- What `fat32_next_cluster` makes of an entry. -/
def View.nextLink (fs : Fs) (V : View) (c : ℕ) : Link ℕ :=
  if fat32ClusterEnd ≤ V.fat c then .stop
  else if V.fat c = fat32ClusterFree ∨ V.fat c = fat32ClusterBad ∨
    !clusterInRange fs (V.fat c) then .broken
  else .next (V.fat c)

lemma View.nextLink_next {fs : Fs} {V : View} {c b : ℕ} (h : V.nextLink fs c = .next b) :
    V.fat c = b ∧ clusterInRange fs b = true := by
  rw [View.nextLink] at h
  split_ifs at h with h1 h2
  injection h with hb
  subst hb
  push Not at h2
  exact ⟨rfl, by simpa using h2.2.2⟩

/-! ### Scans of a block in memory -/

section Scans

variable {V W : View} {c : ℕ}

/-- The first free cluster of a span. -/
def firstFree (V : View) (c n : ℕ) : Option ℕ := (List.range' c n).find? fun b => V.fat b = 0

lemma firstFree_add (V : View) (c m n : ℕ) :
    firstFree V c (m + n) = (firstFree V c m).or (firstFree V (c + m) n) := by
  rw [firstFree, ← List.range'_append_1, List.find?_append]
  rfl

lemma firstFree_some {n b : ℕ} (h : firstFree V c n = some b) :
    c ≤ b ∧ b < c + n ∧ V.fat b = 0 := by
  have h1 := List.mem_of_find?_eq_some h
  have h2 := List.find?_some h
  rw [List.mem_range'_1] at h1
  exact ⟨h1.1, h1.2, by simpa using h2⟩

lemma firstFree_none {n b : ℕ} (h : firstFree V c n = none) (hb : c ≤ b ∧ b < c + n) :
    V.fat b ≠ 0 := by
  have h1 := List.find?_eq_none.mp h b (List.mem_range'_1.mpr hb)
  simpa using h1

lemma firstFree_congr {n : ℕ} (h : ∀ b, c ≤ b → b < c + n → V.fat b = W.fat b) :
    firstFree V c n = firstFree W c n := by
  refine List.find?_congr fun b hb => ?_
  rw [List.mem_range'_1] at hb
  rw [h b hb.1 hb.2]

/-- The entries counted in a span, as a set. -/
lemma countP_range' (p : ℕ → Prop) [DecidablePred p] (a n : ℕ) :
    (List.range' a n).countP (fun b => decide (p b)) = ((Finset.Ico a (a + n)).filter p).card := by
  have hval : (Finset.Ico a (a + n)).val = ↑(List.range' a n) := by
    change ((List.range' a (a + n - a) : List ℕ) : Multiset ℕ) = _
    rw [Nat.add_sub_cancel_left]
  rw [Finset.card_def, Finset.filter_val, hval, Multiset.filter_coe, Multiset.coe_card,
    List.countP_eq_length_filter]

/-- The scan of a block in memory, for a block that holds the entries of the
clusters from `c` on. -/
lemma scanBlock_eq {blockBuf : Buf} {hi n idx : ℕ}
    (hbuf : ∀ k < n, c + k < hi →
      le32 blockBuf ((idx + k) * fat32EntryBytes) &&& fat32EntryMask = V.fat (c + k)) :
    scanBlock blockBuf hi n idx c =
      match firstFree V c (min n (hi - c)) with
      | some found => .inl found
      | none => .inr (c + min n (hi - c)) := by
  induction n generalizing idx c with
  | zero => simp [scanBlock, firstFree]
  | succ n ih =>
    rw [scanBlock]
    by_cases hlt : c < hi
    · have h0 := hbuf 0 (by omega) (by omega)
      have hmin : min (n + 1) (hi - c) = 1 + min n (hi - (c + 1)) := by omega
      rw [if_pos hlt, hmin, firstFree_add]
      rw [Nat.add_zero, Nat.add_zero] at h0
      rw [h0]
      by_cases hfree : V.fat c = fat32ClusterFree
      · rw [fat32ClusterFree] at hfree
        simp [firstFree, fat32ClusterFree, hfree]
      · have hnone : firstFree V c 1 = none := by
          rw [fat32ClusterFree] at hfree
          simp [firstFree, hfree]
        rw [if_neg hfree, hnone, Option.none_or, ih fun k hk hk2 => ?_]
        · rw [Nat.add_assoc]
        · have := hbuf (k + 1) (by omega) (by omega)
          rwa [show idx + 1 + k = idx + (k + 1) by omega, show c + 1 + k = c + (k + 1) by omega]
    · have hmin : min (n + 1) (hi - c) = 0 := by omega
      rw [if_neg hlt, hmin]
      simp [firstFree]

/-- The count over a block in memory, for a block that holds the entries of the
clusters from `c` on. -/
lemma countBlock_eq {blockBuf : Buf} {limit n idx free : ℕ}
    (hbuf : ∀ k < n, c + k < limit →
      le32 blockBuf ((idx + k) * fat32EntryBytes) &&& fat32EntryMask = V.fat (c + k)) :
    countBlock blockBuf limit n idx c free =
      (c + min n (limit - c),
        free + (List.range' c (min n (limit - c))).countP fun b => V.fat b = 0) := by
  induction n generalizing idx c free with
  | zero => simp [countBlock]
  | succ n ih =>
    rw [countBlock]
    by_cases hlt : c < limit
    · have h0 := hbuf 0 (by omega) (by omega)
      rw [Nat.add_zero, Nat.add_zero] at h0
      have hmin : min (n + 1) (limit - c) = min n (limit - (c + 1)) + 1 := by omega
      rw [if_pos hlt, hmin, ih fun k hk hk2 => ?_, List.range'_succ, List.countP_cons, h0,
        fat32ClusterFree]
      · refine Prod.ext (show c + 1 + _ = c + (_ + 1) by omega) ?_
        by_cases hfree : V.fat c = 0
        · simp only [hfree, if_true, decide_true]
          omega
        · simp only [hfree, if_false, decide_false, Bool.false_eq_true]
          omega
      · have := hbuf (k + 1) (by omega) (by omega)
        rwa [show idx + 1 + k = idx + (k + 1) by omega, show c + 1 + k = c + (k + 1) by omega]
    · have hmin : min (n + 1) (limit - c) = 0 := by omega
      rw [if_neg hlt, hmin]
      simp

end Scans

/-! ### Reading -/

lemma reads_readCluster_asRead {fs : Fs} (h : Mounted fs) {c : ℕ} (v : Vol) :
    Act.Reads (readCluster fs c) v
      (if clusterInRange fs c then some ((asRead fs v.disk).data c) else none) := by
  have h1 := h.cluster_le
  rw [readCluster]
  split_ifs with hc
  · have hbuf := reads_diskRead (clusterToBlock fs c) (fs.sectorsPerCluster % 2 ^ 8) v
    rw [Nat.mod_eq_of_lt (by omega), ← h.bytesPerCluster] at hbuf
    rw [Nat.mod_eq_of_lt (by omega)]
    exact hbuf
  · exact Act.Reads.fail _

namespace Mounted

variable {fs : Fs} (h : Mounted fs) {c : ℕ} (v : Vol)

include h

lemma entriesPerBlock_eq : entriesPerBlock fs = 128 := by
  rw [entriesPerBlock, h.bytesPerSector, fat32EntryBytes]

lemma bytesPerCluster_pos : 0 < fs.bytesPerCluster := by
  have := h.cluster_pos
  rw [h.bytesPerCluster]
  omega

/-- A FAT block read from the disk holds the entries of its clusters. -/
lemma fatBlock_entry {k : ℕ} (hk : c % 128 + k < 128) :
    le32 (fun i => if i < 1 * 512 then
        v.disk (u32 (fs.firstFatBlock + c / 128) % lbaLimit * 512 + i) else 0)
      ((c % 128 + k) * fat32EntryBytes) &&& fat32EntryMask = (asRead fs v.disk).fat (c + k) := by
  have hdiv : (c + k) / 128 = c / 128 := by omega
  have hmod : (c + k) % 128 = c % 128 + k := by omega
  rw [fat32EntryMask, land_mask, fat32EntryBytes]
  simp only [asRead, entryAddr, setEntryBlock, h.entriesPerBlock_eq, fat32EntryBytes, hdiv, hmod,
    Nat.zero_mul, Nat.add_zero]
  rw [le32_congr fun j hj => ?_]
  rw [if_pos (by omega), Nat.add_assoc]

/-- `fat32_get_entry`. -/
lemma reads_fat32GetEntry :
    Act.Reads (fat32GetEntry fs c) v (some ((asRead fs v.disk).fat c)) := by
  refine (reads_diskRead _ 1 v).bind ?_
  rw [getEntryBlock, h.entriesPerBlock_eq]
  have hentry := h.fatBlock_entry v (c := c) (k := 0) (Nat.mod_lt _ (by norm_num))
  rw [Nat.add_zero, Nat.add_zero] at hentry
  rw [hentry]
  exact Act.Reads.pure _ _

/-- `fat32_next_cluster`. -/
lemma reads_fat32NextCluster :
    Act.Reads (fat32NextCluster fs c) v
      (match (asRead fs v.disk).nextLink fs c with
      | .stop => some none
      | .next b => some (some b)
      | .broken => none) := by
  refine (h.reads_fat32GetEntry v).bind ?_
  rw [View.nextLink]
  split_ifs with h1 h2
  · exact Act.Reads.pure _ _
  · exact Act.Reads.fail _
  · exact Act.Reads.pure _ _

/-- One pass of `find_free_cluster` finds the first free cluster of its span. -/
lemma reads_scanSpan {hi n : ℕ} (hn : hi - c ≤ n) :
    Act.Reads (scanSpan fs hi n c) v (some (firstFree (asRead fs v.disk) c (hi - c))) := by
  induction n generalizing c with
  | zero =>
    have h0 : hi - c = 0 := by omega
    rw [h0]
    exact Act.Reads.pure _ _
  | succ n ih =>
    rw [scanSpan]
    by_cases hlt : c < hi
    · rw [if_pos hlt]
      have hm : 0 < 128 - c % 128 := by omega
      have hsplit : hi - c = min (128 - c % 128) (hi - c) +
          (hi - (c + min (128 - c % 128) (hi - c))) := by omega
      simp only [h.entriesPerBlock_eq]
      refine (reads_diskRead _ 1 v).bind ?_
      rw [scanBlock_eq fun k hk _ => h.fatBlock_entry v (by omega), hsplit, firstFree_add,
        ← hsplit]
      cases firstFree (asRead fs v.disk) c (min (128 - c % 128) (hi - c)) with
      | some found => exact Act.Reads.pure _ _
      | none => exact ih (by omega)
    · have h0 : hi - c = 0 := by omega
      rw [if_neg hlt, h0]
      exact Act.Reads.pure _ _

/-- The loop of `fat32_free_count`, without failures. -/
lemma does_freeCountLoop {limit n free : ℕ} {I : Vol → Prop} (hn : limit - c ≤ n) :
    Act.Does True (freeCountLoop fs limit n c free) v I
      (fun a w => w = v ∧ a = free + (List.range' c (limit - c)).countP
        fun b => (asRead fs v.disk).fat b = 0)
      fun _ => False := by
  induction n generalizing c free with
  | zero =>
    have h0 : limit - c = 0 := by omega
    refine Act.does_pure ⟨rfl, ?_⟩
    rw [h0]
    simp
  | succ n ih =>
    rw [freeCountLoop]
    by_cases hlt : c < limit
    · have hsplit : limit - c = min (128 - c % 128) (limit - c) +
          (limit - (c + min (128 - c % 128) (limit - c))) := by
        omega
      rw [if_pos hlt]
      simp only [h.entriesPerBlock_eq]
      refine Act.Does.bind (reads_diskRead _ 1 v).does.attempt ?_
      rintro (_ | buf) w hbuf
      · exact absurd (hbuf.2 trivial) (by simp)
      · obtain ⟨rfl, hbuf⟩ := hbuf
        obtain rfl := Option.some.inj hbuf
        simp only
        rw [countBlock_eq fun k hk _ => h.fatBlock_entry w (by omega)]
        refine (ih (by omega)).mono (fun _ h => h) ?_ fun _ h => h
        rintro a x ⟨rfl, ha⟩
        refine ⟨rfl, ?_⟩
        rw [ha, hsplit, ← List.range'_append_1, List.countP_append, ← hsplit, Nat.add_assoc]
    · have h0 : limit - c = 0 := by omega
      rw [if_neg hlt, h0]
      exact Act.does_pure ⟨rfl, by simp⟩

end Mounted

/-! ### Over a sane geometry -/

namespace Geometry

variable {fs : Fs} (g : Geometry fs) {c : ℕ} (hc : InRange fs c) (d : ℕ → UInt8)

include g hc

/-- Over a sane geometry, the code finds the entries where they are kept. -/
lemma asRead_fat : (asRead fs d).fat c = (view fs d).fat c := by
  have hb := g.fatBlock_lt g.fats_pos hc
  have hd := g.firstData_le
  have haddr : entryAddr fs 0 c = fatAddr fs 0 c := by
    rw [entryAddr, setEntryBlock, g.entriesPerBlock_eq, u32_of_lt (by omega), lbaLimit,
      Nat.mod_eq_of_lt (by omega), fatAddr, fat32EntryBytes]
    omega
  simp only [asRead, view, haddr, if_pos hc, entryOf]

/-- So it does the clusters. -/
lemma asRead_data : (asRead fs d).data c = (view fs d).data c := by
  have h1 := cluster_fits hc
  have h2 := g.data_le
  have h3 := g.cluster_pos
  funext i
  simp only [asRead, view, hc, true_and, dataAddr]
  rw [g.clusterToBlock_eq hc, lbaLimit, Nat.mod_eq_of_lt (a := _ + _) (by omega)]

/-- No cluster of a sane volume is numbered like a mark. -/
lemma asRead_link : (asRead fs d).nextLink fs c = (view fs d).link fs c := by
  have ht := g.total_lt
  have hmark : ∀ b, (b = fat32ClusterFree ∨ b = fat32ClusterBad ∨ !clusterInRange fs b) ↔
      ¬InRange fs b := by
    intro b
    rw [Bool.not_eq_true', Bool.eq_false_iff, ne_eq, g.clusterInRange_iff, InRange,
      fat32ClusterFree]
    omega
  simp only [View.nextLink, View.link, g.asRead_fat hc d, hmark, ite_not]

end Geometry

section Reading

variable {fs : Fs} (g : Geometry fs) {c : ℕ} (v : Vol) (hc : InRange fs c)

include g hc

/-- `fat32_get_entry` returns the entry of the view. -/
lemma reads_fat32GetEntry :
    Act.Reads (fat32GetEntry fs c) v (some ((view fs v.disk).fat c)) := by
  rw [← g.asRead_fat hc]
  exact g.mounted.reads_fat32GetEntry v

/-- `fat32_next_cluster` follows the links of the view. -/
lemma reads_fat32NextCluster :
    Act.Reads (fat32NextCluster fs c) v
      (match (view fs v.disk).link fs c with
      | .stop => some none
      | .next b => some (some b)
      | .broken => none) := by
  rw [← g.asRead_link hc]
  exact g.mounted.reads_fat32NextCluster v

/-- `read_cluster` returns the contents in the view. -/
lemma reads_readCluster :
    Act.Reads (readCluster fs c) v (some ((view fs v.disk).data c)) := by
  have hread := reads_readCluster_asRead g.mounted (c := c) v
  rwa [if_pos (g.clusterInRange_iff.mpr hc), g.asRead_data hc] at hread

end Reading

end TownOS
