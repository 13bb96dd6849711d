import TownOS.Fat32.WellFormed

/-!
Searches that are written twice (`fs/fat32.c`).

The file system looks a name up in two ways: `walk_directory`, for reading, and
`locate_root_entry`, for writing, which also says where the entry is stored. And it
looks at FAT entries in two ways: one by one with `fat32_get_entry`, and a block at a
time in `find_free_cluster` and `fat32_free_count`. On every disk, the two ways agree.

* `searches_agree`: the two directory searches give the same answer, and the place
  reported is where the entry is;
* `scans_entrywise`: the two scans find and count what `fat32_get_entry` says.
-/

namespace TownOS

open Durable Bytes Linked

/-! ### The two directory searches -/

/-- A directory entry found in memory is one of those looked at. -/
lemma locateEntries_found {buf : Buf} {wanted : Name83} {n i : ℕ} {done : Bool} {e : Dirent} {j : ℕ}
    (h : locateEntries buf wanted n i = (done, some (e, j))) :
    j < i + n ∧ e = direntAt buf j := by
  induction n generalizing i with
  | zero => exact absurd h (by simp [locateEntries])
  | succ n ih =>
    rw [locateEntries] at h
    split_ifs at h with h1 h2 h3
    · exact absurd h (by simp)
    · have := ih h
      exact ⟨by omega, this.2⟩
    · simp only [Prod.mk.injEq, Option.some.injEq] at h
      obtain ⟨-, rfl, rfl⟩ := h
      exact ⟨by omega, rfl⟩
    · have := ih h
      exact ⟨by omega, this.2⟩

/-- What the loop of `locate_root_entry` finds is an entry of a cluster it has read. -/
lemma exists_reads_locateLoop {fs : Fs} (h : Mounted fs) (v : Vol) (wanted : Name83) (n a : ℕ) :
    ∃ found, Act.Reads (locateLoop fs wanted n a) v found ∧
      ∀ e loc, found = some (some (e, loc)) → ∃ c i, clusterInRange fs c = true ∧
        i < entriesPerCluster fs ∧ e = direntAt ((asRead fs v.disk).data c) i ∧
        loc = slotLocation fs c i := by
  induction n generalizing a with
  | zero => exact ⟨none, Act.Reads.fail _, fun _ _ hf => absurd hf (by simp)⟩
  | succ n ih =>
    rw [locateLoop]
    have hread := reads_readCluster_asRead h (c := a) v
    by_cases ha : clusterInRange fs a = true
    · rw [if_pos ha] at hread
      rcases hloc : locateEntries ((asRead fs v.disk).data a) wanted (entriesPerCluster fs) 0 with
        ⟨done, r⟩
      cases done with
      | false =>
        have hlink := h.reads_fat32NextCluster v (c := a)
        cases hb : (asRead fs v.disk).nextLink fs a with
        | stop =>
          rw [hb] at hlink
          exact ⟨some none, hread.bind (by rw [hloc]; exact hlink.bind (Act.Reads.pure _ _)),
            fun _ _ hf => absurd hf (by simp)⟩
        | next b =>
          rw [hb] at hlink
          obtain ⟨found, hfound, hplace⟩ := ih b
          exact ⟨found, hread.bind (by rw [hloc]; exact hlink.bind hfound), hplace⟩
        | broken =>
          rw [hb] at hlink
          exact ⟨none, hread.bind (by rw [hloc]; exact hlink.bind_none),
            fun _ _ hf => absurd hf (by simp)⟩
      | true =>
        rcases r with _ | ⟨e, i⟩
        · exact ⟨some none, hread.bind (by rw [hloc]; exact Act.Reads.pure _ _),
            fun _ _ hf => absurd hf (by simp)⟩
        · obtain ⟨hi, rfl⟩ := locateEntries_found hloc
          refine ⟨_, hread.bind (by rw [hloc]; exact Act.Reads.pure _ _), fun e loc hf => ?_⟩
          simp only [Option.some.injEq, Prod.mk.injEq] at hf
          obtain ⟨rfl, rfl⟩ := hf
          exact ⟨a, i, ha, by omega, rfl, rfl⟩
    · rw [if_neg ha] at hread
      exact ⟨none, hread.bind_none, fun _ _ hf => absurd hf (by simp)⟩

lemma exists_reads_lookupRootFile {fs : Fs} (h : Mounted fs) (v : Vol) (name : List UInt8) :
    ∃ found, Act.Reads (lookupRootFile fs name) v found := by
  rw [lookupRootFile]
  cases nameTo83 name with
  | none => exact ⟨none, Act.Reads.fail _⟩
  | some wanted =>
    dsimp only
    rw [walkDirectory_some, locateRootEntry]
    obtain ⟨found, hfound, -⟩ := exists_reads_locateLoop h v wanted (fs.totalClusters + 1)
      fs.rootCluster
    refine Act.Reads.exists_bind (Act.Reads.exists_bind (Act.Reads.exists_bind
      ⟨_, Act.reads_guard v⟩ fun _ => ⟨found, hfound⟩) fun _ => ⟨_, Act.Reads.pure _ _⟩) ?_
    rintro ⟨_ | entry, sink⟩
    · exact ⟨none, Act.Reads.fail _⟩
    · dsimp only
      split_ifs
      · exact ⟨none, Act.Reads.fail _⟩
      · exact ⟨_, Act.Reads.pure _ _⟩

/-- The blocks of every cluster lie below the end of what the drive can address: a
transfer that runs past it is one the drive refuses. -/
def Addressable (fs : Fs) : Prop :=
  ∀ c, clusterInRange fs c = true →
    clusterToBlock fs c % lbaLimit + fs.sectorsPerCluster ≤ lbaLimit

/-- The 32 bytes of `e` are stored at an offset of a block. -/
def StoredAt (d : ℕ → UInt8) (e : Dirent) (block offset : ℕ) : Prop :=
  offset + 32 ≤ 512 ∧ ∀ k : Fin 32, d (block % lbaLimit * 512 + (offset + k.val)) = e k

section Locating

variable {fs : Fs} (h : Mounted fs) {c i : ℕ}

include h

/-- The place computed for an entry of a cluster buffer is where it was read. -/
lemma storedAt_slotLocation (hadd : Addressable fs) (d : ℕ → UInt8)
    (hc : clusterInRange fs c = true)
    (hi : i < entriesPerCluster fs) :
    StoredAt d (direntAt ((asRead fs d).data c) i) (slotLocation fs c i).1
      (slotLocation fs c i).2 := by
  have hfit := hadd c hc
  have hbpc := h.bytesPerCluster
  rw [entriesPerCluster, direntBytes] at hi
  rw [slotLocation, direntBytes, h.bytesPerSector]
  have hblock : u32 (clusterToBlock fs c + i * 32 / 512) % lbaLimit =
      clusterToBlock fs c % lbaLimit + i * 32 / 512 := by
    rw [u32, lbaLimit] at *
    omega
  refine ⟨by omega, fun k => ?_⟩
  simp only [direntAt, asRead, hblock, direntBytes]
  have hk := k.isLt
  rw [if_pos (by omega)]
  exact congrArg d (by omega)

/-- **The two directory searches agree.** On every disk, the lookup of `walk_directory`
and `locate_root_entry` both find an entry, both find none or both give up; the entry is
the same, and on a disk that has all the blocks it is stored at the block and the offset
reported. Neither changes anything. -/
theorem searches_agree (v : Vol) (wanted : Name83) (sink : NameSink) (fl : List Bool) :
    ((walkDirectory fs fs.rootCluster (some wanted) sink).run v fl).value.map Prod.fst =
        ((locateRootEntry fs wanted).run v fl).value.map (Option.map Prod.fst) ∧
      (Addressable fs → ∀ e block offset,
        ((locateRootEntry fs wanted).run v fl).value = some (some (e, block, offset)) →
          StoredAt v.disk e block offset) ∧
      ((walkDirectory fs fs.rootCluster (some wanted) sink).run v fl).state = v ∧
      ((locateRootEntry fs wanted).run v fl).state = v := by
  obtain ⟨found, hloop, hplace⟩ := exists_reads_locateLoop h v wanted (fs.totalClusters + 1)
    fs.rootCluster
  have hread : Act.Reads (locateRootEntry fs wanted) v found := (Act.reads_guard v).bind hloop
  rw [walkDirectory_some]
  cases hv : ((locateRootEntry fs wanted).run v fl).value with
  | none =>
    rw [Act.run_bind_none hv]
    exact ⟨rfl, fun _ _ _ _ hf => absurd hf (by simp), hread.state fl, hread.state fl⟩
  | some r =>
    rw [Act.run_bind_some hv]
    refine ⟨rfl, fun hadd e block offset hf => ?_, hread.state fl, hread.state fl⟩
    obtain ⟨c, i, hc, hi, rfl, hloc⟩ := hplace e (block, offset) ((hread.eq_of_value hv).trans hf)
    obtain ⟨rfl, rfl⟩ := Prod.ext_iff.mp hloc
    exact storedAt_slotLocation h hadd v.disk hc hi

end Locating

/-- Both searches find the file `A` of a small volume, in the first slot of block 3. -/
theorem searches_agree_oneFileVolume :
    ((locateRootEntry smallFs nameA).run oneFileVolume []).value =
        some (some (newDirent nameA 3 5, 3, 0)) ∧
      ((walkDirectory smallFs smallFs.rootCluster (some nameA) ⟨[], 0, 0⟩).run
        oneFileVolume []).value.map Prod.fst = some (some (newDirent nameA 3 5)) ∧
      StoredAt oneFileVolume.disk (newDirent nameA 3 5) 3 0 := by
  have hadd : Addressable smallFs := by
    intro c hc
    have hlt : c < 6 := by
      rw [clusterInRange, Bool.and_eq_true, decide_eq_true_eq, decide_eq_true_eq] at hc
      exact hc.2
    interval_cases c <;> revert hc <;> decide
  have hfound : ((locateRootEntry smallFs nameA).run oneFileVolume []).value =
      some (some (newDirent nameA 3 5, 3, 0)) := by decide +kernel
  have hmounted : Mounted smallFs := by decide
  obtain ⟨h1, h2, -, -⟩ := searches_agree hmounted oneFileVolume nameA ⟨[], 0, 0⟩ []
  refine ⟨hfound, ?_, h2 hadd _ _ _ hfound⟩
  rw [h1, hfound]
  rfl

/-! ### The two scans of the FAT -/

/-- What `fat32_get_entry` says about a cluster: its entry is free. -/
def entryFree (fs : Fs) (v : Vol) (c : ℕ) : Bool :=
  ((fat32GetEntry fs c).run v []).value = some fat32ClusterFree

/-- All data clusters in cyclic order from `start` on. -/
def cyclicFrom (fs : Fs) (start : ℕ) : List ℕ :=
  (List.range (clusterLimit fs - firstDataCluster)).map fun k =>
    firstDataCluster + (start - firstDataCluster + k) % (clusterLimit fs - firstDataCluster)

/-- The cyclic order is the span up to the end, then the span before the start. -/
lemma cyclicFrom_eq {fs : Fs} {start : ℕ} (hs : clusterInRange fs start = true) :
    cyclicFrom fs start = List.range' start (clusterLimit fs - start) ++
      List.range' firstDataCluster (start - firstDataCluster) := by
  rw [clusterInRange, Bool.and_eq_true, decide_eq_true_eq, decide_eq_true_eq] at hs
  obtain ⟨hlo, hhi⟩ := hs
  refine List.ext_getElem (by simp [cyclicFrom]; omega) fun k hk hk' => ?_
  simp only [cyclicFrom, List.length_map, List.length_range] at hk
  simp only [cyclicFrom, List.getElem_map, List.getElem_range, List.getElem_append,
    List.length_range', List.getElem_range']
  split_ifs with hlt
  · rw [Nat.mod_eq_of_lt (by omega)]
    omega
  · rw [Nat.mod_eq_sub_mod (by omega), Nat.mod_eq_of_lt (by omega)]
    omega

lemma clusterInRange_cyclicFrom {fs : Fs} {start c : ℕ} (hc : c ∈ cyclicFrom fs start) :
    clusterInRange fs c = true := by
  obtain ⟨k, hk, rfl⟩ := List.mem_map.mp hc
  rw [List.mem_range] at hk
  have := Nat.mod_lt (start - firstDataCluster + k)
    (show 0 < clusterLimit fs - firstDataCluster by omega)
  rw [clusterInRange, Bool.and_eq_true, decide_eq_true_eq, decide_eq_true_eq]
  omega

section Scanning

variable {fs : Fs} (h : Mounted fs) (v : Vol)

include h

lemma entryFree_eq (c : ℕ) : entryFree fs v c = ((asRead fs v.disk).fat c = 0 : Bool) := by
  rw [entryFree, (h.reads_fat32GetEntry v).value_nil, fat32ClusterFree]
  exact decide_eq_decide.2 (by simp)

lemma find?_cyclicFrom (hs : clusterInRange fs v.hint = true) :
    (cyclicFrom fs v.hint).find? (entryFree fs v) =
      (firstFree (asRead fs v.disk) v.hint (clusterLimit fs - v.hint)).or
        (firstFree (asRead fs v.disk) firstDataCluster (v.hint - firstDataCluster)) := by
  have hfree : entryFree fs v = fun c => ((asRead fs v.disk).fat c = 0 : Bool) :=
    funext (entryFree_eq h v)
  rw [cyclicFrom_eq hs, hfree, List.find?_append]
  rfl

omit h in
lemma run_claimHint {c : ℕ} (hc : clusterInRange fs c = true) :
    ((claimHint fs c).run v []).value = some c ∧
      ((claimHint fs c).run v []).state.disk = v.disk ∧
      clusterInRange fs ((claimHint fs c).run v []).state.hint = true := by
  refine ⟨rfl, rfl, ?_⟩
  change clusterInRange fs (if c + 1 < clusterLimit fs then c + 1 else firstDataCluster) = true
  rw [clusterInRange, Bool.and_eq_true, decide_eq_true_eq, decide_eq_true_eq] at hc ⊢
  split_ifs with hlt
  · exact ⟨by omega, hlt⟩
  · exact ⟨le_rfl, by omega⟩

/-- A run of `find_free_cluster`: it claims the first free cluster, or fails. -/
lemma run_findFreeCluster (hs : clusterInRange fs v.hint = true) :
    (findFreeCluster fs).run v [] =
      match (cyclicFrom fs v.hint).find? (entryFree fs v) with
      | some b => (claimHint fs b).run v []
      | none => (Act.fail : Act Vol ℕ).run v [] := by
  have hstart : scanStart fs v.hint = v.hint := by
    rw [clusterInRange, Bool.and_eq_true, decide_eq_true_eq, decide_eq_true_eq] at hs
    exact if_neg (by omega)
  have hget : (findFreeCluster fs).run v [] = ((do
      match ← scanSpan fs (clusterLimit fs) (clusterLimit fs - scanStart fs v.hint)
          (scanStart fs v.hint) with
      | some cluster => claimHint fs cluster
      | none =>
        match ← scanSpan fs (scanStart fs v.hint) (scanStart fs v.hint - firstDataCluster)
            firstDataCluster with
        | some cluster => claimHint fs cluster
        | none => Act.fail : Act Vol ℕ).run v []) := rfl
  rw [hget, hstart, (h.reads_scanSpan v le_rfl).run_bind, find?_cyclicFrom h v hs]
  cases firstFree (asRead fs v.disk) v.hint (clusterLimit fs - v.hint) with
  | some b => rfl
  | none =>
    dsimp only
    rw [(h.reads_scanSpan v le_rfl).run_bind, Option.none_or]
    cases firstFree (asRead fs v.disk) firstDataCluster (v.hint - firstDataCluster) with
    | some b => rfl
    | none => rfl

/-- **The block-wise scans match the entry-wise definition.** Whatever the FAT holds and
however large the volume, `find_free_cluster` returns the first cluster in cyclic order from
the hint whose `fat32_get_entry` is free, fails if there is none, and leaves the hint in
range; `fat32_free_count` counts the clusters whose `fat32_get_entry` is free. -/
theorem scans_entrywise :
    (clusterInRange fs v.hint = true →
      ((findFreeCluster fs).run v []).value = (cyclicFrom fs v.hint).find? (entryFree fs v) ∧
      ((findFreeCluster fs).run v []).state.disk = v.disk ∧
      clusterInRange fs ((findFreeCluster fs).run v []).state.hint = true) ∧
    ((fat32FreeCount fs).run v []).value =
      some ((Finset.Ico firstDataCluster (clusterLimit fs)).filter
        fun c => entryFree fs v c = true).card := by
  refine ⟨fun hs => ?_, ?_⟩
  · rw [run_findFreeCluster h v hs]
    cases hb : (cyclicFrom fs v.hint).find? (entryFree fs v) with
    | none => exact ⟨rfl, rfl, hs⟩
    | some b => exact run_claimHint v (clusterInRange_cyclicFrom (List.mem_of_find?_eq_some hb))
  · obtain ⟨a, ha, -, rfl⟩ := Act.Does.exists_value
      (h.does_freeCountLoop v (c := firstDataCluster) (I := fun _ => True)
        (le_refl (clusterLimit fs - firstDataCluster)))
    have hspan : Finset.Ico firstDataCluster (firstDataCluster +
        (clusterLimit fs - firstDataCluster)) = Finset.Ico firstDataCluster (clusterLimit fs) := by
      ext c
      rw [Finset.mem_Ico, Finset.mem_Ico]
      omega
    rw [fat32FreeCount, ha, Nat.zero_add, countP_range', hspan]
    refine congrArg (fun s => some (Finset.card s)) (Finset.filter_congr fun c _ => ?_)
    rw [entryFree_eq h v, decide_eq_true_eq]

end Scanning

/-- On a small volume with one file, the search from the hint passes the root directory and
the file, and two clusters are counted. -/
theorem scans_entrywise_oneFileVolume :
    ((findFreeCluster smallFs).run oneFileVolume []).value = some 4 ∧
      ((fat32FreeCount smallFs).run oneFileVolume []).value = some 2 := by
  have hmounted : Mounted smallFs := by decide
  obtain ⟨hfind, hcount⟩ := scans_entrywise hmounted oneFileVolume
  refine ⟨?_, ?_⟩
  · rw [(hfind (by decide)).1]
    decide +kernel
  · rw [hcount]
    decide +kernel

end TownOS
