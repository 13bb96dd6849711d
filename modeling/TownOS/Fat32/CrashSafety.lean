import TownOS.Fat32.Calls

/-!
What a crash leaves on the disk.

A run records the disk after each single-block write (`images`); together with the
disk before the call these are the disks a crash can leave.

* `write_crash_consistent`: whatever the crash, `fat32_write_file` leaves the named
  file with its old or its new contents, the other files with theirs, and no chain
  with a free cluster;
* `delete_crash_clean_iff`: `fat32_delete` frees the chain before it unpublishes the
  entry, so a crash can leave a live entry that points at free clusters, unless
  the file has no clusters at all.
-/

namespace TownOS

open Durable Bytes Linked

/-- No live entry starts or continues a chain through a free cluster. -/
def Clean (fs : Fs) (V : View) : Prop :=
  ∀ s ∈ V.liveSlots fs (V.rootClusters fs), ∀ c ∈ V.slotClusters fs s, V.fat c ≠ 0

/-- The chain of the root directory has no free cluster. -/
def RootInUse (fs : Fs) (V : View) : Prop := ∀ c ∈ V.rootClusters fs, V.fat c ≠ 0

instance (fs : Fs) (V : View) : Decidable (Clean fs V) :=
  inferInstanceAs (Decidable (∀ s ∈ V.liveSlots fs (V.rootClusters fs), _))

instance (fs : Fs) (V : View) : Decidable (RootInUse fs V) :=
  inferInstanceAs (Decidable (∀ c ∈ V.rootClusters fs, _))

section Chains

variable {fs : Fs} {V : View} {l : List ℕ}

lemma Formed.clean (h : Formed fs V l) : Clean fs V := by
  intro s hs c hc
  rw [h.rootClusters_eq] at hs
  exact h.fat_ne_zero (Formed.mem_owned_slot hs hc)

lemma Formed.rootInUse (h : Formed fs V l) : RootInUse fs V := by
  intro c hc
  rw [h.rootClusters_eq] at hc
  exact h.fat_ne_zero (Formed.mem_owned_root hc)

/-- Following a chain meets its first cluster, whatever its entry. -/
lemma mem_clustersFrom {a : ℕ} (h : InRange fs a) : a ∈ V.clustersFrom fs a := by
  obtain ⟨n, hn⟩ : ∃ n, fs.totalClusters = n + 1 :=
    ⟨fs.totalClusters - 1, by have := h.1; have := h.2; omega⟩
  rw [View.clustersFrom, if_pos h, hn, visit]
  exact List.mem_cons_self

/-- A live entry whose first cluster has been freed. -/
lemma Formed.not_clean_freed (h : Formed fs V l) {s : Slot} (hs : s ∈ V.liveSlots fs l)
    {l₁ : List ℕ} (hne : l₁ ≠ []) (hl₁ : l₁ <+: V.slotClusters fs s) :
    ¬Clean fs (V.freed l₁) := by
  have hroot : (V.freed l₁).rootClusters fs = l := by
    refine Owns.clustersFrom_eq (.inr ⟨h.start, h.root.congr fun c hc => View.link_congr ?_⟩)
    refine (View.freed_fat_of_notMem fun hcl => ?_).symm
    exact (List.nodup_append.mp h.disjoint).2.2 c hc c
      (List.mem_flatMap.mpr ⟨s, hs, hl₁.subset hcl⟩) rfl
  rcases h.chains s hs with ⟨-, hnil⟩ | ⟨hr, hch⟩
  · rw [hnil] at hl₁
    exact absurd (List.prefix_nil.mp hl₁) hne
  · obtain ⟨t, ht⟩ := hch.eq_cons
    have hmem : direntFirstCluster (V.entry s) ∈ l₁ := by
      obtain ⟨b, l₂, rfl⟩ := List.exists_cons_of_ne_nil hne
      rw [ht] at hl₁
      rw [(List.cons_prefix_cons.mp hl₁).1]
      exact List.mem_cons_self
    intro hclean
    rw [Clean, hroot] at hclean
    exact hclean s hs _ (mem_clustersFrom hr) (View.freed_fat_of_mem hmem)

end Chains

/-! ### Deleting -/

section Deleting

variable {fs : Fs} (g : Geometry fs) {V : View} {l : List ℕ} {a : ℕ} {v : Vol}

include g

lemma emits_freeChain (ha : InRange fs a) : Act.Emits (freeChain fs a) v fun _ => True := by
  obtain ⟨n, hn⟩ : ∃ n, fs.numFats = n + 1 := ⟨fs.numFats - 1, by have := g.fats_pos; omega⟩
  rw [freeChain, freeChainLoop, if_pos (g.clusterInRange_iff.mpr ha)]
  refine Act.Emits.bind ((reads_fat32GetEntry g v ha).bind_emits (Act.Emits.bind ?_))
  rw [fat32SetEntry, hn, setEntryLoop, setEntryCopy]
  refine Act.Emits.bind ((reads_diskRead _ 1 v).bind_emits ?_)
  exact (Act.reads_guard v).bind_emits (Act.emits_get (Act.emits_commit trivial))

/-- Deleting a file with clusters passes through a disk on which its entry is live
and part of its chain is free. -/
lemma emits_fat32Delete (h : Formed fs V l) (hV : view fs v.disk = V) {name : List UInt8}
    {w : Name83} (hname : nameTo83 name = some w) {s : Slot} (hs : V.fileSlot fs l w = some s)
    (h0 : direntFirstCluster (V.entry s) ≠ 0) :
    Act.Emits (fat32Delete fs name) v fun x =>
      ∃ l₁, l₁ ≠ [] ∧ l₁ <+: V.slotClusters fs s ∧ view fs x.disk = V.freed l₁ := by
  obtain ⟨hfind, hd⟩ := Option.filter_eq_some_iff.mp hs
  have hd : (V.entry s).isDirectory = false := by simpa using hd
  have hchain := h.chains s (mem_of_fileSlot hs).1
  rcases hchain with ⟨h0', -⟩ | ⟨hr, hch⟩
  · exact absurd h0' h0
  rw [fat32Delete, hname]
  refine (reads_locateRootEntry g h.readable.walk h.start hV h.length_le).bind_emits ?_
  simp only [hfind, Option.map_some, hd, Bool.false_eq_true, if_false, if_pos h0]
  exact Act.Emits.bind ((emits_freeChain g hr).of_does (does_freeChain g True hch hr hV))

end Deleting

/-- **Deleting is crash-safe exactly for files without clusters.** -/
theorem delete_crash_clean_iff {fs : Fs} {v : Vol} (h : WellFormed fs v) {name : List UInt8}
    {w : Name83} (hname : nameTo83 name = some w) {s : Slot}
    (hs : (view fs v.disk).fileSlot fs ((view fs v.disk).rootClusters fs) w = some s) :
    (∀ x ∈ v :: ((fat32Delete fs name).run v []).images, Clean fs (view fs x.disk)) ↔
      direntFirstCluster ((view fs v.disk).entry s) = 0 := by
  obtain ⟨g, hf⟩ := h
  obtain ⟨hfind, -⟩ := Option.filter_eq_some_iff.mp hs
  have hlive := (mem_of_fileSlot hs).1
  constructor
  · intro hclean
    by_contra h0
    obtain ⟨x, hx, l₁, hne, hl₁, hview⟩ := emits_fat32Delete g hf rfl hname hs h0
    have hx := hclean x (List.mem_cons_of_mem _ hx)
    rw [hview] at hx
    exact hf.not_clean_freed hlive hne hl₁ hx
  · intro h0 x hx
    rcases List.mem_cons.mp hx with rfl | hx
    · exact hf.clean
    -- the chain is empty, so the first write is the one that deletes the entry
    obtain ⟨w', s', hw', hs', hvan⟩ :=
      (does_fat32Delete g True hf rfl name [] fun _ => rfl).images x hx
    obtain rfl : w = w' := Option.some.inj (hname.symm.trans hw')
    obtain rfl : s = s' := Option.some.inj (hs.symm.trans hs')
    have hnil : (view fs v.disk).slotClusters fs s = [] := by
      rcases hf.chains s hlive with ⟨-, hnil⟩ | ⟨hr, -⟩
      · exact hnil
      · have := hr.1
        omega
    rcases hvan with ⟨l₁, hne, hl₁, -⟩ | hview
    · rw [hnil] at hl₁
      exact absurd (List.prefix_nil.mp hl₁) hne
    · obtain ⟨k, hk, -⟩ := hf.keeps_deleted hfind
      rw [← hview] at hk
      exact hk.clean

set_option maxRecDepth 100000 in
/-- The file `A` is deleted from a volume that has nothing else. -/
theorem delete_crash_clean_iff_oneFileVolume :
    (∀ x ∈ oneFileVolume :: ((fat32Delete smallFs [0x41]).run oneFileVolume []).images,
        Clean smallFs (view smallFs x.disk)) ↔
      direntFirstCluster ((view smallFs oneFileVolume.disk).entry (2, 0)) = 0 :=
  delete_crash_clean_iff (w := nameA) (by decide) (by decide) (by decide)

set_option maxRecDepth 100000 in
/-- A crash after the first write of `fat32_delete("A")`: the FAT entry of the first
cluster is free in the first copy, and the entry is still live. -/
theorem delete_crash_not_clean :
    WellFormed smallFs oneFileVolume ∧
      (view smallFs oneFileVolume.disk).fileSlot smallFs [2] nameA = some (2, 0) ∧
      ∃ x ∈ ((fat32Delete smallFs [0x41]).run oneFileVolume []).images,
        (2, 0) ∈ (view smallFs x.disk).liveSlots smallFs
          ((view smallFs x.disk).rootClusters smallFs) ∧
          3 ∈ (view smallFs x.disk).slotClusters smallFs (2, 0) ∧
          (view smallFs x.disk).fat 3 = 0 := by
  decide +kernel

/-! ### Writing -/

section Writing

variable {fs : Fs} {v : Vol}

/-- What `fat32_read_file` delivers, without failures. -/
def readBack (fs : Fs) (v : Vol) (name : List UInt8) (bufsize : ℕ) : Option (List UInt8) :=
  ((fat32ReadFile fs name bufsize).run v []).value

lemma readBack_of_looks (g : Geometry fs) {M : Name83 → Option Node}
    (h : Looks fs (view fs v.disk) M) (name : List UInt8) (bufsize : ℕ) :
    readBack fs v name bufsize =
      ((nameTo83 name).bind fun w => (M w).bind Node.bytes).filter fun bytes =>
        bytes.length ≤ bufsize := by
  obtain ⟨l, hl, rfl⟩ := h
  rw [readBack, (reads_fat32ReadFile g hl rfl name bufsize).value_nil]
  simp only [contents_eq]

end Writing

/-- **Writing is crash-safe**: on every disk a crash of `fat32_write_file` can leave,
the named file reads as before or as after the call, every other file reads as
before, and neither the root directory nor a live entry has a chain through a free
cluster. -/
theorem write_crash_consistent {fs : Fs} {v : Vol} (h : WellFormed fs v) {name buf : List UInt8}
    {w : Name83} (hname : nameTo83 name = some w) (hascii : ∀ c ∈ name, c < 0x80)
    (hlen : buf.length + fs.bytesPerCluster ≤ 2 ^ 32) :
    ∀ x ∈ v :: ((fat32WriteFile fs name buf).run v []).images,
      ((∀ name' bufsize, nameTo83 name' = some w →
          readBack fs x name' bufsize = readBack fs v name' bufsize) ∨
        ∀ name' bufsize, nameTo83 name' = some w →
          readBack fs x name' bufsize = if buf.length ≤ bufsize then some buf else none) ∧
      (∀ name' bufsize, nameTo83 name' ≠ some w →
          readBack fs x name' bufsize = readBack fs v name' bufsize) ∧
      RootInUse fs (view fs x.disk) ∧ Clean fs (view fs x.disk) := by
  obtain ⟨g, hf⟩ := h
  have hlive := nameTo83_ne_deleted hname hascii
  have hstart : Shows fs (view fs v.disk) _ := ⟨_, hf, rfl⟩
  have hold := readBack_of_looks g hstart.looks
  intro x hx
  have hx : Shows fs (view fs x.disk)
        ((view fs v.disk).node fs ((view fs v.disk).rootClusters fs)) ∨
      Shows fs (view fs x.disk)
        (published ((view fs v.disk).node fs ((view fs v.disk).rootClusters fs)) w buf) := by
    rcases List.mem_cons.mp hx with rfl | hx
    · exact .inl hstart
    · obtain ⟨w', hw', hunder⟩ :=
        (does_fat32WriteFile g True hf rfl hlen name [] fun _ => rfl).images x hx
      obtain rfl : w = w' := Option.some.inj (hname.symm.trans hw')
      exact hunder trivial
  rcases hx with hx | hx
  · have hsame := readBack_of_looks g hx.looks
    obtain ⟨k, hk, -⟩ := hx
    refine ⟨.inl fun name' bufsize _ => ?_, fun name' bufsize _ => ?_, hk.rootInUse, hk.clean⟩
    · rw [hsame, hold]
    · rw [hsame, hold]
  · have hnew := readBack_of_looks g hx.looks
    obtain ⟨k, hk, -⟩ := hx
    rw [published, if_neg hlive] at hnew
    refine ⟨.inr fun name' bufsize hw' => ?_, fun name' bufsize hw' => ?_, hk.rootInUse, hk.clean⟩
    · rw [hnew, hw', Option.bind_some, Function.update_self]
      simp [Node.bytes, Option.filter]
    · rw [hnew, hold]
      cases hn : nameTo83 name' with
      | none => rfl
      | some w' =>
        have hne : w' ≠ w := fun he => hw' (by rw [hn, he])
        rw [Option.bind_some, Option.bind_some, Function.update_of_ne hne]

set_option maxRecDepth 100000 in
/-- The file `A` is replaced by ten other bytes. -/
theorem write_crash_consistent_oneFileVolume :
    WellFormed smallFs oneFileVolume ∧ nameTo83 [0x41] = some nameA ∧
      ∀ x ∈ oneFileVolume ::
          ((fat32WriteFile smallFs [0x41] (List.replicate 10 7)).run oneFileVolume []).images,
        RootInUse smallFs (view smallFs x.disk) ∧ Clean smallFs (view smallFs x.disk) := by
  have hwf : WellFormed smallFs oneFileVolume := by decide
  have hname : nameTo83 [0x41] = some nameA := by decide
  refine ⟨hwf, hname, fun x hx => ?_⟩
  exact (write_crash_consistent hwf hname (by decide) (by decide) x hx).2.2

end TownOS
