import TownOS.Fat32.Searches

/-!
Reading and freeing on a FAT of any content (`fs/fat32.c`).

Nothing is assumed of the links here: they may loop, run into other chains, or leave
the volume. What the code follows is what it reads (`asRead`), and both loops are
bounded by the number of clusters of the volume.

* `fat32ReadFile_exact`: a file is delivered exactly if enough clusters can be followed
  within the bound, and then as the first bytes of those clusters;
* `freeChain_exact`: `free_chain` frees the clusters that can be reached, in every FAT
  copy, and changes nothing else;
* `looping_refused_iff`: on a chain that loops, `fat32_read_file` gives up exactly if the
  file would need more steps than the bound allows, and `free_chain` exactly if the loop
  covers the whole volume.
-/

namespace TownOS

open Durable Bytes Linked

/-! ### Reading -/

section Reading

variable {fs : Fs} (h : Mounted fs)

include h

/-- **Reading is exact on any FAT.** Whatever the FAT and the root directory hold,
`fat32_read_file` changes nothing and returns bytes exactly if the name finds a file entry
that fits the buffer and as many clusters as its size takes can be followed from its start
cluster, by valid links and within the step bound; the bytes are then the first `size` bytes
of those clusters, in order. -/
theorem fat32ReadFile_exact (v : Vol) (name : List UInt8) (bufsize : ℕ) :
    (∀ bytes, ((fat32ReadFile fs name bufsize).run v []).value = some bytes ↔
      ∃ entry, ((lookupRootFile fs name).run v []).value = some entry ∧ entry.size ≤ bufsize ∧
        Delivers fs (asRead fs v.disk) (direntFirstCluster entry) (fs.totalClusters + 1)
          entry.size bytes ∧ bytes.length = entry.size) ∧
      ((fat32ReadFile fs name bufsize).run v []).state = v := by
  obtain ⟨found, hlook⟩ := exists_reads_lookupRootFile h v name
  obtain ⟨res, hres, hiff⟩ := exists_reads_fat32ReadFile h hlook bufsize
  refine ⟨fun bytes => ?_, hres.state []⟩
  rw [hres.value_nil, hlook.value_nil, hiff]
  constructor
  · rintro ⟨entry, hentry, hfit, hd⟩
    exact ⟨entry, hentry, hfit, hd, hd.length h⟩
  · rintro ⟨entry, hentry, hfit, hd, -⟩
    exact ⟨entry, hentry, hfit, hd⟩

end Reading

/-- The file of a small volume is delivered: five bytes, from one cluster. -/
theorem fat32ReadFile_exact_oneFileVolume :
    ∃ entry, ((lookupRootFile smallFs [0x41]).run oneFileVolume []).value = some entry ∧
      entry.size ≤ 5 ∧ Delivers smallFs (asRead smallFs oneFileVolume.disk)
        (direntFirstCluster entry) (smallFs.totalClusters + 1) entry.size [0, 0, 0, 0, 0] ∧
      [0, 0, 0, 0, (0 : UInt8)].length = entry.size := by
  have hmounted : Mounted smallFs := by decide
  have hread : ((fat32ReadFile smallFs [0x41] 5).run oneFileVolume []).value =
      some [0, 0, 0, 0, 0] := by decide +kernel
  exact ((fat32ReadFile_exact hmounted oneFileVolume [0x41] 5).1 _).mp hread

/-! ### Freeing -/

/-- The FAT copies lie apart on the disk, and each has an entry for every cluster. -/
structure Tables (fs : Fs) : Prop where
  covers : clusterLimit fs ≤ fs.sectorsPerFat * 128
  apart : ∀ n < fs.numFats, ∀ m < fs.numFats, ∀ i < fs.sectorsPerFat, ∀ j < fs.sectorsPerFat,
    u32 (fs.firstFatBlock + n * fs.sectorsPerFat + i) % lbaLimit =
      u32 (fs.firstFatBlock + m * fs.sectorsPerFat + j) % lbaLimit → n = m ∧ i = j

lemma Geometry.tables {fs : Fs} (g : Geometry fs) : Tables fs := by
  have hcov := g.covers
  have hfats := g.fats_le
  have hdata := g.firstData_le
  refine ⟨by rw [g.clusterLimit_eq]; omega, fun n hn m hm i hi j hj heq => ?_⟩
  have hn' := Geometry.copy_le fs hn
  have hm' := Geometry.copy_le fs hm
  rw [u32_of_lt (by omega), u32_of_lt (by omega), lbaLimit, Nat.mod_eq_of_lt (by omega),
    Nat.mod_eq_of_lt (by omega)] at heq
  have hsum : fs.sectorsPerFat * n + i = fs.sectorsPerFat * m + j := by
    rw [Nat.mul_comm _ n, Nat.mul_comm _ m]
    omega
  have hdiv := congrArg (· / fs.sectorsPerFat) hsum
  simp only [Nat.mul_add_div (show 0 < fs.sectorsPerFat by omega), Nat.div_eq_of_lt hi,
    Nat.div_eq_of_lt hj, Nat.add_zero] at hdiv
  subst hdiv
  exact ⟨rfl, by omega⟩

/-- The disk with the entry of cluster `c` set to `x` in the first `k` FAT copies. -/
structure Patched (fs : Fs) (c x k : ℕ) (d d' : ℕ → UInt8) : Prop where
  entry : ∀ n < k, le32 d' (entryAddr fs n c) = mergeEntry (le32 d (entryAddr fs n c)) x
  other : ∀ p, (∀ n < k, p < entryAddr fs n c ∨ entryAddr fs n c + 4 ≤ p) → d' p = d p

/-- The disk with the entries of the clusters in `S` freed in every FAT copy, their reserved
bits kept. -/
structure Freed (fs : Fs) (S : Finset ℕ) (d d' : ℕ → UInt8) : Prop where
  entry : ∀ n < fs.numFats, ∀ c ∈ S,
    le32 d' (entryAddr fs n c) = le32 d (entryAddr fs n c) / 2 ^ 28 * 2 ^ 28
  other : ∀ p, (∀ n < fs.numFats, ∀ c ∈ S, p < entryAddr fs n c ∨ entryAddr fs n c + 4 ≤ p) →
    d' p = d p

lemma clusterInRange_iff {fs : Fs} {c : ℕ} :
    clusterInRange fs c = true ↔ 2 ≤ c ∧ c < clusterLimit fs := by
  rw [clusterInRange, Bool.and_eq_true, decide_eq_true_eq, decide_eq_true_eq, firstDataCluster]

section Freeing

variable {fs : Fs} (h : Mounted fs) (ht : Tables fs) {b c n m x k : ℕ} {d d' d'' : ℕ → UInt8}
  {S : Finset ℕ}

include h

lemma entryAddr_eq : entryAddr fs n c =
    u32 (fs.firstFatBlock + n * fs.sectorsPerFat + c / 128) % lbaLimit * 512 + c % 128 * 4 := by
  rw [entryAddr, setEntryBlock, h.entriesPerBlock_eq, fat32EntryBytes]

include ht

lemma entryAddr_apart (hn : n < fs.numFats) (hm : m < fs.numFats)
    (hc : clusterInRange fs c = true) (hb : clusterInRange fs b = true) (hne : n ≠ m ∨ c ≠ b) :
    entryAddr fs n c + 4 ≤ entryAddr fs m b ∨ entryAddr fs m b + 4 ≤ entryAddr fs n c := by
  have hcov := ht.covers
  rw [clusterInRange_iff] at hc hb
  have hap := ht.apart n hn m hm (c / 128) (by omega) (b / 128) (by omega)
  rw [entryAddr_eq h, entryAddr_eq h]
  by_cases heq : u32 (fs.firstFatBlock + n * fs.sectorsPerFat + c / 128) % lbaLimit =
      u32 (fs.firstFatBlock + m * fs.sectorsPerFat + b / 128) % lbaLimit
  · obtain ⟨rfl, hdiv⟩ := hap heq
    rw [heq]
    omega
  · omega

omit ht in
lemma does_setEntryCopy_asRead (v : Vol) :
    Act.Does True (setEntryCopy fs c x k) v (fun _ => True)
      (fun _ w => w = v.withDisk (store32 v.disk (entryAddr fs k c)
        (mergeEntry (le32 v.disk (entryAddr fs k c)) x)))
      fun _ => False := by
  rw [setEntryCopy, setEntryBlock, entryAddr_eq h]
  simp only [h.entriesPerBlock_eq, fat32EntryBytes]
  refine (reads_diskRead _ 1 v).bind_does ((does_diskWrite_one True v _ _).mono (fun _ _ => trivial)
    (fun _ w hw => ?_) fun _ hw => hw.1 trivial) fun hno => absurd trivial hno
  rw [hw, setBlock_merge fun i hi => if_pos (by omega)]

/-- The copies are patched one after the other. -/
lemma does_setEntryLoop_asRead (v : Vol) (hc : clusterInRange fs c = true) (hk : k + n = fs.numFats)
    (hp : Patched fs c x k d v.disk) :
    Act.Does True (setEntryLoop fs c x n k) v (fun _ => True)
      (fun _ w => w.hint = v.hint ∧ Patched fs c x fs.numFats d w.disk) fun _ => False := by
  induction n generalizing k v with
  | zero =>
    obtain rfl : k = fs.numFats := hk
    exact Act.does_pure ⟨rfl, hp⟩
  | succ n ih =>
    rw [setEntryLoop]
    refine (does_setEntryCopy_asRead h v).bind ?_
    rintro - w rfl
    have hapart : ∀ j < k, entryAddr fs j c + 4 ≤ entryAddr fs k c ∨
        entryAddr fs k c + 4 ≤ entryAddr fs j c := fun j hj =>
      entryAddr_apart h ht (by omega) (by omega) hc hc (.inl (by omega))
    refine (ih _ (by omega) ⟨fun j hj => ?_, fun p hp' => ?_⟩).mono (fun _ h => h)
      (fun _ _ h => h) fun _ h => h
    · rw [Vol.withDisk_disk]
      rcases Nat.lt_succ_iff_lt_or_eq.mp hj with hlt | rfl
      · rw [le32_store32_of_disjoint (hapart j hlt), hp.entry j hlt]
      · rw [le32_store32 _ _ (mergeEntry_lt (le32_lt _ _) x), le32_congr fun i hi => ?_]
        refine hp.other _ fun i' hi' => ?_
        have := hapart i' hi'
        omega
    · rw [Vol.withDisk_disk, store32_of_ne (hp' k (by omega))]
      exact hp.other p fun j hj => hp' j (by omega)

omit h ht in
lemma Freed.refl (fs : Fs) (d : ℕ → UInt8) : Freed fs ∅ d d :=
  ⟨fun _ _ _ hc => absurd hc (by simp), fun _ _ => rfl⟩

lemma Freed.le32_eq (hf : Freed fs S d d') (hS : ∀ b ∈ S, clusterInRange fs b = true)
    (hn : n < fs.numFats) (hc : clusterInRange fs c = true) (hcS : c ∉ S) :
    le32 d' (entryAddr fs n c) = le32 d (entryAddr fs n c) := by
  refine le32_congr fun i hi => hf.other _ fun m hm b hb => ?_
  have := entryAddr_apart h ht hn hm hc (hS b hb) (.inr (ne_of_mem_of_not_mem hb hcS).symm)
  omega

lemma Freed.insert (hf : Freed fs S d d') (hS : ∀ b ∈ S, clusterInRange fs b = true)
    (hc : clusterInRange fs c = true) (hp : Patched fs c fat32ClusterFree fs.numFats d' d'') :
    Freed fs (insert c S) d d'' := by
  refine ⟨fun n hn b hb => ?_, fun p hp' => ?_⟩
  · by_cases hbc : b = c
    · subst hbc
      rw [hp.entry n hn, mergeEntry, fat32ClusterFree]
      by_cases hbS : b ∈ S
      · rw [hf.entry n hn b hbS]
        omega
      · rw [hf.le32_eq h ht hS hn hc hbS]
        omega
    · have hbS : b ∈ S := (Finset.mem_insert.mp hb).resolve_left hbc
      rw [← hf.entry n hn b hbS]
      refine le32_congr fun i hi => hp.other _ fun m hm => ?_
      have := entryAddr_apart h ht hn hm (hS b hbS) hc (.inr hbc)
      omega
  · rw [hp.other p fun n hn => hp' n hn c (Finset.mem_insert_self c S)]
    exact hf.other p fun n hn b hb => hp' n hn b (Finset.mem_insert_of_mem hb)

/-- The entry read from the first copy is zero once it is freed. -/
lemma Freed.fat (hf : Freed fs S d d') (hS : ∀ b ∈ S, clusterInRange fs b = true)
    (hc : clusterInRange fs c = true) :
    (asRead fs d').fat c = if c ∈ S then 0 else (asRead fs d).fat c := by
  simp only [asRead]
  split_ifs with hcS
  · rw [hf.entry 0 h.fats_pos c hcS]
    omega
  · rw [hf.le32_eq h ht hS h.fats_pos hc hcS]

/-- One round of `free_chain`: the entry is read, then freed. -/
lemma does_freeRound_asRead {v : Vol} {α : Type} {rest : ℕ → Act Vol α} {Q : α → Vol → Prop}
    {N : Vol → Prop} (hf : Freed fs S d v.disk) (hS : ∀ b ∈ S, clusterInRange fs b = true)
    (hc : clusterInRange fs c = true)
    (hrest : ∀ w : Vol, Freed fs (insert c S) d w.disk →
      Act.Does True (rest (if c ∈ S then 0 else (asRead fs d).fat c)) w (fun _ => True) Q N) :
    Act.Does True (do
      let next ← fat32GetEntry fs c
      fat32SetEntry fs c fat32ClusterFree
      rest next) v (fun _ => True) Q N := by
  refine (h.reads_fat32GetEntry v).bind_does ?_ fun hno => absurd trivial hno
  rw [hf.fat h ht hS hc]
  refine Act.Does.bind ((does_setEntryLoop_asRead h ht v hc (Nat.zero_add _)
    ⟨fun _ hj => absurd hj (Nat.not_lt_zero _), fun _ _ => rfl⟩).mono (fun _ h => h)
    (fun _ _ h => h) fun _ h => h.elim) ?_
  rintro - w ⟨-, hp⟩
  exact hrest w (hf.insert h ht hS hc hp)

end Freeing

/-- Cluster `c` is met from cluster `a` on by following the entries as long as they name
clusters of the volume. -/
def Reached (fs : Fs) (V : View) (a c : ℕ) : Prop :=
  clusterInRange fs a = true ∧
    Relation.ReflTransGen (fun x y => V.fat x = y ∧ clusterInRange fs y = true) a c

section Reaching

variable {fs : Fs} {V : View} {a c : ℕ} {S : Finset ℕ}

lemma Reached.inRange (hr : Reached fs V a c) : clusterInRange fs c = true := by
  rcases Relation.ReflTransGen.cases_tail hr.2 with rfl | ⟨b, -, hb⟩
  · exact hr.1
  · exact hb.2

/-- From a cluster one meets the cluster itself and what its entry leads to. -/
lemma reached_iff (ha : clusterInRange fs a = true) :
    Reached fs V a c ↔ c = a ∨ Reached fs V (V.fat a) c := by
  constructor
  · rintro ⟨-, hr⟩
    rcases Relation.ReflTransGen.cases_head hr with rfl | ⟨b, ⟨rfl, hb⟩, hrest⟩
    · exact .inl rfl
    · exact .inr ⟨hb, hrest⟩
  · rintro (rfl | ⟨hb, hrest⟩)
    · exact ⟨ha, .refl⟩
    · exact ⟨ha, .head ⟨rfl, hb⟩ hrest⟩

/-- A set that the links do not leave holds all that is met from one of its clusters. -/
lemma Reached.mem (hr : Reached fs V a c) (ha : a ∈ S) (hS : ∀ s ∈ S, V.fat s ∈ S ∨ V.fat s = a) :
    c ∈ S := by
  obtain ⟨-, hr⟩ := hr
  induction hr with
  | refl => exact ha
  | tail _ hstep ih =>
    obtain ⟨rfl, -⟩ := hstep
    rcases hS _ ih with hmem | heq
    · exact hmem
    · rw [heq]
      exact ha

lemma card_le_total (hS : ∀ b ∈ S, clusterInRange fs b = true) : S.card ≤ fs.totalClusters := by
  have hsub : S ⊆ Finset.Ico 2 (clusterLimit fs) := fun b hb =>
    Finset.mem_Ico.mpr (clusterInRange_iff.mp (hS b hb))
  have hcard := Finset.card_le_card hsub
  have hlimit : clusterLimit fs ≤ fs.totalClusters + firstDataCluster := Nat.mod_le _ _
  rw [Nat.card_Ico] at hcard
  rw [firstDataCluster] at hlimit
  omega

end Reaching

section FreeChain

variable {fs : Fs} (h : Mounted fs) (ht : Tables fs) {a n : ℕ} {d : ℕ → UInt8} {S : Finset ℕ}

include h ht

/-- The loop of `free_chain`, with the clusters of `S` freed so far: whatever the links are,
it frees what they lead to, and it runs out of rounds only on the last cluster of the
volume. -/
lemma does_freeChainLoop_asRead {v : Vol} (low : Option ℕ) (hf : Freed fs S d v.disk)
    (hS : ∀ b ∈ S, clusterInRange fs b = true)
    (hclosed : ∀ s ∈ S, (asRead fs d).fat s ∈ S ∨ (asRead fs d).fat s = a)
    (hn : n + S.card = fs.totalClusters + 1) :
    Act.Does True (freeChainLoop fs n a low) v (fun _ => True)
      (fun _ w => ∃ T : Finset ℕ, (∀ c, c ∈ T ↔ c ∈ S ∨ Reached fs (asRead fs d) a c) ∧
        Freed fs T d w.disk ∧ (clusterInRange fs a = true →
          Loops ((asRead fs d).nextLink fs) a → T.card < fs.totalClusters))
      fun w => ∃ T : Finset ℕ, (∀ c, c ∈ T ↔ c ∈ S ∨ Reached fs (asRead fs d) a c) ∧
        Freed fs T d w.disk ∧ T.card = fs.totalClusters := by
  induction n generalizing a S v low with
  | zero =>
    have := card_le_total hS
    omega
  | succ n ih =>
    rw [freeChainLoop]
    by_cases ha : clusterInRange fs a = true
    · rw [if_pos ha]
      refine does_freeRound_asRead h ht hf hS ha fun w hw => ?_
      by_cases haS : a ∈ S
      · -- the loop is back at a cluster it has freed: its entry now reads as free
        rw [if_pos haS]
        rw [Finset.insert_eq_of_mem haS] at hw
        have hmem : ∀ c, c ∈ S ↔ c ∈ S ∨ Reached fs (asRead fs d) a c := fun c =>
          ⟨.inl, fun hc => hc.elim id fun hr => hr.mem haS hclosed⟩
        cases n with
        | zero => exact Act.does_fail ⟨S, hmem, hw, by omega⟩
        | succ n =>
          have h0 : ¬clusterInRange fs 0 = true := fun h0 =>
            absurd (clusterInRange_iff.mp h0).1 (by omega)
          rw [freeChainLoop, if_neg h0]
          exact Act.does_pure ⟨S, hmem, hw, fun _ _ => by omega⟩
      · rw [if_neg haS]
        have hmem : ∀ T : Finset ℕ,
            (∀ c, c ∈ T ↔ c ∈ insert a S ∨ Reached fs (asRead fs d) ((asRead fs d).fat a) c) →
            ∀ c, c ∈ T ↔ c ∈ S ∨ Reached fs (asRead fs d) a c := by
          intro T hT c
          rw [hT c, reached_iff ha, Finset.mem_insert]
          tauto
        refine (ih (S := insert a S) (lowestWith low a) hw ?_ ?_ ?_).mono (fun _ h => h) ?_ ?_
        · intro b hb
          rcases Finset.mem_insert.mp hb with rfl | hb
          · exact ha
          · exact hS b hb
        · intro s hs
          rcases Finset.mem_insert.mp hs with rfl | hs
          · exact .inr rfl
          · refine .inl ?_
            rcases hclosed s hs with hmem | heq
            · exact Finset.mem_insert_of_mem hmem
            · rw [heq]
              exact Finset.mem_insert_self a S
        · rw [Finset.card_insert_of_notMem haS]
          omega
        · rintro - x ⟨T, hT, hfT, hcard⟩
          refine ⟨T, hmem T hT, hfT, fun _ hloop => ?_⟩
          obtain ⟨b, hb, hloop'⟩ := hloop.next
          obtain ⟨rfl, hb'⟩ := View.nextLink_next hb
          exact hcard hb' hloop'
        · rintro x ⟨T, hT, hfT, hcard⟩
          exact ⟨T, hmem T hT, hfT, hcard⟩
    · rw [if_neg ha]
      exact Act.does_pure ⟨S, fun c => ⟨.inl, fun hc => hc.elim id fun hr => absurd hr.1 ha⟩, hf,
        fun ha' => absurd ha' ha⟩

lemma does_freeChain_asRead (v : Vol) (a : ℕ) :
    Act.Does True (freeChain fs a) v (fun _ => True)
      (fun _ w => ∃ T : Finset ℕ, (∀ c, c ∈ T ↔ Reached fs (asRead fs v.disk) a c) ∧
        Freed fs T v.disk w.disk ∧ (clusterInRange fs a = true →
          Loops ((asRead fs v.disk).nextLink fs) a → T.card < fs.totalClusters))
      fun w => ∃ T : Finset ℕ, (∀ c, c ∈ T ↔ Reached fs (asRead fs v.disk) a c) ∧
        Freed fs T v.disk w.disk ∧ T.card = fs.totalClusters := by
  have hloop := does_freeChainLoop_asRead h ht (a := a) none (Freed.refl fs v.disk) (by simp)
    (by simp) (Nat.add_zero _)
  simp only [Finset.notMem_empty, false_or] at hloop
  refine hloop.bind ?_
  rintro (_ | low) w hw
  · exact Act.does_pure hw
  · exact (does_setHint True w low).mono (fun _ h => h) (fun _ x hx => by rw [hx]; exact hw)
      fun _ h => h

/-- **Freeing is exact on any FAT.** On a volume whose FAT copies lie apart and have an entry
for every cluster, `free_chain` frees in every copy the entries of the clusters that can be
reached from its start by the links as they were, keeping the reserved bits, and no other
byte of the disk changes. -/
theorem freeChain_exact (v : Vol) (start : ℕ) :
    (∀ n < fs.numFats, ∀ c, Reached fs (asRead fs v.disk) start c →
      le32 ((freeChain fs start).run v []).state.disk (entryAddr fs n c) % 2 ^ 28 =
          fat32ClusterFree ∧
        le32 ((freeChain fs start).run v []).state.disk (entryAddr fs n c) / 2 ^ 28 =
          le32 v.disk (entryAddr fs n c) / 2 ^ 28) ∧
    (∀ n < fs.numFats, ∀ c, clusterInRange fs c = true → ¬Reached fs (asRead fs v.disk) start c →
      le32 ((freeChain fs start).run v []).state.disk (entryAddr fs n c) =
        le32 v.disk (entryAddr fs n c)) ∧
    ∀ p, (∀ n < fs.numFats, ∀ c, Reached fs (asRead fs v.disk) start c →
        p < entryAddr fs n c ∨ entryAddr fs n c + 4 ≤ p) →
      ((freeChain fs start).run v []).state.disk p = v.disk p := by
  have hrun := does_freeChain_asRead h ht v start [] fun _ => rfl
  obtain ⟨T, hT, hf⟩ : ∃ T : Finset ℕ, (∀ c, c ∈ T ↔ Reached fs (asRead fs v.disk) start c) ∧
      Freed fs T v.disk ((freeChain fs start).run v []).state.disk := by
    cases hv : ((freeChain fs start).run v []).value with
    | none =>
      obtain ⟨T, hT, hf, -⟩ := hrun.none hv
      exact ⟨T, hT, hf⟩
    | some u =>
      obtain ⟨T, hT, hf, -⟩ := hrun.value u hv
      exact ⟨T, hT, hf⟩
  have hrange : ∀ b ∈ T, clusterInRange fs b = true := fun b hb => ((hT b).mp hb).inRange
  refine ⟨fun n hn c hc => ?_, fun n hn c hc hno => ?_, fun p hp => ?_⟩
  · rw [hf.entry n hn c ((hT c).mpr hc), fat32ClusterFree]
    omega
  · exact hf.le32_eq h ht hrange hn hc fun hmem => hno ((hT c).mp hmem)
  · exact hf.other p fun n hn c hc => hp n hn c ((hT c).mp hc)

/-! ### Chains that loop -/

omit h ht in
/-- The clusters followed from a cluster of the volume are clusters of the volume. -/
lemma follows_inRange {V : View} {l : List ℕ} (hl : Follows (V.nextLink fs) a l)
    (ha : clusterInRange fs a = true) : ∀ c ∈ l, clusterInRange fs c = true := by
  induction hl with
  | nil => simp
  | one => simpa using ha
  | next hb _ ih =>
    intro c hc
    rcases List.mem_cons.mp hc with rfl | hc
    · exact ha
    · exact ih (View.nextLink_next hb).2 c hc

omit ht in
/-- **When a looping chain is refused.** The links from cluster `a` lead back to a cluster.
`fat32_read_file` of a file that starts there gives up exactly if the file does not fit the
buffer, or takes more than `fs_total_clusters + 1` clusters; `free_chain` reports the cycle
exactly if the clusters on the way are all those of the volume. -/
theorem looping_refused_iff (v : Vol) (ha : clusterInRange fs a = true)
    (hloop : Loops ((asRead fs v.disk).nextLink fs) a) :
    (∀ name bufsize entry, ((lookupRootFile fs name).run v []).value = some entry →
      direntFirstCluster entry = a →
      (((fat32ReadFile fs name bufsize).run v []).value = none ↔
        bufsize < entry.size ∨ fs.totalClusters + 1 < clustersFor fs entry.size)) ∧
    (Tables fs → (((freeChain fs a).run v []).value = none ↔
      {c | Reached fs (asRead fs v.disk) a c}.ncard = fs.totalClusters)) := by
  refine ⟨?_, fun ht => ?_⟩
  · rintro name bufsize entry hentry rfl
    obtain ⟨found, hlook⟩ := exists_reads_lookupRootFile h v name
    obtain rfl : found = some entry := hlook.value_nil.symm.trans hentry
    obtain ⟨res, hres, hiff⟩ := exists_reads_fat32ReadFile h hlook bufsize
    simp only [Option.some.injEq, exists_eq_left'] at hiff
    rw [hres.value_nil, Option.eq_none_iff_forall_ne_some]
    constructor
    · intro hnone
      by_contra hfit
      push Not at hfit
      obtain ⟨l, hl, hlen⟩ := hloop.follows (clustersFor fs entry.size)
      exact hnone _ ((hiff _).mpr ⟨hfit.1, l, hl, follows_inRange hl ha, hlen, hlen ▸ hfit.2, rfl⟩)
    · rintro hbad bytes hbytes
      obtain ⟨hfit, l, -, -, hlen, hle, -⟩ := (hiff bytes).mp hbytes
      omega
  · have hrun := does_freeChain_asRead h ht v a [] fun _ => rfl
    have hcard : ∀ T : Finset ℕ, (∀ c, c ∈ T ↔ Reached fs (asRead fs v.disk) a c) →
        {c | Reached fs (asRead fs v.disk) a c}.ncard = T.card := by
      intro T hT
      rw [← Set.ncard_coe_finset]
      exact congrArg Set.ncard (Set.ext fun c => (hT c).symm)
    cases hv : ((freeChain fs a).run v []).value with
    | none =>
      obtain ⟨T, hT, -, htotal⟩ := hrun.none hv
      rw [hcard T hT]
      simpa using htotal
    | some u =>
      obtain ⟨T, hT, -, hlt⟩ := hrun.value u hv
      rw [hcard T hT]
      have := hlt ha hloop
      simp
      omega

end FreeChain

/-- A volume whose file `A`, of three clusters by its size, has a chain that goes back and
forth between clusters 3 and 4. -/
def loopVolume : Vol :=
  smallVolume (fun c => if c = 2 then 0x0FFFFFFF else if c = 3 then 4 else if c = 4 then 3 else 0)
    (newDirent nameA 3 1536).byte

lemma loopVolume_loops : Loops ((asRead smallFs loopVolume.disk).nextLink smallFs) 3 := by
  have h34 : (asRead smallFs loopVolume.disk).nextLink smallFs 3 = .next 4 := by decide +kernel
  have h43 : (asRead smallFs loopVolume.disk).nextLink smallFs 4 = .next 3 := by decide +kernel
  exact ⟨3, .refl, .tail (.single h34) h43⟩

lemma loopVolume_reached :
    {c | Reached smallFs (asRead smallFs loopVolume.disk) 3 c} = {3, 4} := by
  have h3 : (asRead smallFs loopVolume.disk).fat 3 = 4 := by decide +kernel
  have h4 : (asRead smallFs loopVolume.disk).fat 4 = 3 := by decide +kernel
  refine Set.ext fun c => ⟨fun hr => ?_, ?_⟩
  · have hmem := Reached.mem hr (S := {3, 4}) (by simp) (by simp [h3, h4])
    simpa using hmem
  · rintro (rfl | rfl)
    · exact ⟨by decide, .refl⟩
    · exact ⟨by decide, .single ⟨h3, by decide⟩⟩

/-- Freeing the looping chain frees its two clusters, in both FAT copies, and the entry of the
root directory stays. -/
theorem freeChain_exact_loopVolume :
    (∀ n < 2, le32 ((freeChain smallFs 3).run loopVolume []).state.disk (entryAddr smallFs n 4) %
        2 ^ 28 = fat32ClusterFree) ∧
      le32 ((freeChain smallFs 3).run loopVolume []).state.disk (entryAddr smallFs 1 2) =
        le32 loopVolume.disk (entryAddr smallFs 1 2) := by
  have hmounted : Mounted smallFs := by decide
  have htables : Tables smallFs := Geometry.tables (by decide)
  have hreached :
      ∀ c, Reached smallFs (asRead smallFs loopVolume.disk) 3 c ↔ c ∈ ({3, 4} : Set ℕ) :=
    fun c => Set.ext_iff.mp loopVolume_reached c
  obtain ⟨hfree, hkept, -⟩ := freeChain_exact hmounted htables loopVolume 3
  exact ⟨fun n hn => (hfree n hn 4 ((hreached 4).mpr (by simp))).1,
    hkept 1 (by decide) 2 (by decide) fun hr => absurd ((hreached 2).mp hr) (by simp)⟩

/-- On the looping volume the clusters on the way are two of four, and the file takes three:
neither `fat32_read_file` nor `free_chain` refuses. -/
theorem looping_refused_iff_loopVolume :
    (¬((fat32ReadFile smallFs [0x41] 1536).run loopVolume []).value = none) ∧
      ¬((freeChain smallFs 3).run loopVolume []).value = none := by
  have hmounted : Mounted smallFs := by decide
  have htables : Tables smallFs := Geometry.tables (by decide)
  obtain ⟨hread, hfree⟩ := looping_refused_iff hmounted loopVolume (by decide) loopVolume_loops
  have hlook : ((lookupRootFile smallFs [0x41]).run loopVolume []).value =
      some (newDirent nameA 3 1536) := by decide +kernel
  refine ⟨?_, ?_⟩
  · rw [hread [0x41] 1536 _ hlook (by decide +kernel)]
    decide +kernel
  · rw [hfree htables, loopVolume_reached, Set.ncard_pair (by decide)]
    decide

/-- A looping chain that is taken for a good one: the file takes more clusters than there are
on its chain, and `fat32_read_file` delivers them all the same; `free_chain` reports
success. -/
theorem looping_not_refused :
    clusterInRange smallFs 3 = true ∧
      Loops ((asRead smallFs loopVolume.disk).nextLink smallFs) 3 ∧
      {c | Reached smallFs (asRead smallFs loopVolume.disk) 3 c}.ncard < clustersFor smallFs 1536 ∧
      (((fat32ReadFile smallFs [0x41] 1536).run loopVolume []).value.map List.length = some 1536) ∧
      ((freeChain smallFs 3).run loopVolume []).value = some () := by
  refine ⟨by decide, loopVolume_loops, ?_, by decide +kernel, by decide +kernel⟩
  rw [loopVolume_reached, Set.ncard_pair (by decide)]
  decide

end TownOS
