import TownOS.Fat32.CrashSafety

/-!
What failing disk operations can do to a volume in a `fat32_write_file` call.

* `failed_write_readable`: a call that fails leaves every file readable as before,
  whatever failed;
* `write_faults_unshared_iff`: every pattern of failures leaves the clusters of the
  root directory and of the live entries in use and unshared, unless the call makes
  the directory grow on a volume with several FAT copies. There `fat32_set_entry`
  can fail after the first copy names the new cluster; the clean-up then frees that
  cluster, and the directory still reaches it.
-/

namespace TownOS

open Durable Bytes Linked

/-- The clusters of the root directory and of the live entries are in use, and each
belongs to one of them only. -/
def Unshared (fs : Fs) (V : View) : Prop :=
  (V.ownedBy fs (V.rootClusters fs)).Nodup ∧
    ∀ c ∈ V.ownedBy fs (V.rootClusters fs), V.fat c ≠ 0

instance (fs : Fs) (V : View) : Decidable (Unshared fs V) := inferInstanceAs (Decidable (_ ∧ _))

lemma Shows.unshared {fs : Fs} {X : View} {M : Name83 → Option Node} (h : Shows fs X M) :
    Unshared fs X := by
  obtain ⟨l, hl, -⟩ := h
  rw [Unshared, hl.rootClusters_eq]
  exact ⟨hl.disjoint, fun c hc => hl.fat_ne_zero hc⟩

/-! ### Reading after a failure -/

/-- **A failed write damages nothing that can be read**, under every pattern of disk
and heap failures. -/
theorem failed_write_readable {fs : Fs} {v : Vol} (h : WellFormed fs v) {name buf : List UInt8}
    (hlen : buf.length + fs.bytesPerCluster ≤ 2 ^ 32) {fl : List Bool}
    (hfail : ((fat32WriteFile fs name buf).run v fl).value = none) (name' : List UInt8)
    (bufsize : ℕ) :
    readBack fs ((fat32WriteFile fs name buf).run v fl).state name' bufsize =
      readBack fs v name' bufsize := by
  obtain ⟨g, hf⟩ := h
  have hstart : Shows fs (view fs v.disk) _ := ⟨_, hf, rfl⟩
  rcases (does_fat32WriteFile g False hf rfl hlen name fl False.elim).none hfail with
    ⟨hx, -⟩ | ⟨w, -, -, hun⟩
  · rw [hx]
  · rw [readBack_of_looks g hun.looks, readBack_of_looks g hstart.looks]

set_option maxRecDepth 100000 in
/-- The write that publishes new contents of `A` fails. -/
theorem failed_write_readable_oneFileVolume :
    readBack smallFs ((fat32WriteFile smallFs [0x41] [7]).run oneFileVolume
        (List.replicate 10 false ++ [true])).state [0x41] 5 =
      readBack smallFs oneFileVolume [0x41] 5 :=
  failed_write_readable (by decide) (by decide) (by decide +kernel) [0x41] 5

/-! ### The failure that matters -/

section Breaking

variable {fs : Fs} (g : Geometry fs) {V W : View} {l : List ℕ} {v : Vol} {c x : ℕ}

/-- The directory reaches a cluster that is free. -/
lemma Grown.not_unshared {X : View} {z : ℕ} (g : Geometry fs) (h : Formed fs V l)
    (hx : Grown fs V X l z) (hz : X.fat z = 0) : ¬Unshared fs X := by
  have hlen := hx.length_le h
  rw [List.length_append, List.length_singleton] at hlen
  have hmem : z ∈ X.rootClusters fs := by
    rw [View.rootClusters, View.clustersFrom, if_pos h.start]
    exact (hx.path h g).mem_visit (by omega)
  exact fun hun => hun.2 z (Formed.mem_owned_root hmem) hz

include g

/-- `fat32_set_entry` can fail after the first copy. -/
lemma breaks_fat32SetEntry (hn : 1 < fs.numFats) (hc : InRange fs c) (hx : x < 2 ^ 28) :
    Act.Breaks (fat32SetEntry fs c x) v fun u =>
      view fs u.disk = (view fs v.disk).setFat c x := by
  obtain ⟨n, hn'⟩ : ∃ n, fs.numFats = n + 2 := ⟨fs.numFats - 2, by omega⟩
  rw [fat32SetEntry, hn', setEntryLoop]
  refine ((does_setEntryCopy g v hc (k := 0) (by omega)).mono (fun _ h => h) (fun _ _ h => h)
    fun _ h => h.1 trivial).bind_breaks ?_
  rintro - u rfl
  rw [setEntryLoop, setEntryCopy]
  refine Act.Breaks.bind (Act.Breaks.bind (Act.Breaks.bind (Act.breaks_guard ?_)))
  exact (view_setEntries g hc hx (by omega)).trans (if_neg (by omega))

/-- Growing the directory can fail and leave its last cluster naming a free one. -/
lemma breaks_growDirectory (hn : 1 < fs.numFats) (hW : view fs v.disk = W)
    (h : Chain (W.link fs) fs.rootCluster l) (hs : InRange fs fs.rootCluster)
    (hroom : (W.freeClusters fs).card ≠ 0) :
    Act.Breaks (growDirectory fs (l.getLast h.ne_nil)) v fun u =>
      ∃ z, Grown fs W (view fs u.disk) l z ∧ (view fs u.disk).fat z = 0 := by
  refine ((does_newDirCluster g True hW).mono (fun _ h => h) (fun _ _ h => h) fun u hu =>
    hroom (hu.2 trivial).2).bind_breaks ?_
  rintro z u ⟨X, f, ht, hstop, hf, hu⟩
  obtain ⟨hr, hz⟩ := ht.free z (by simp)
  have hl : ∀ c ∈ l, W.fat c ≠ 0 := fun c hc => chain_fat_ne_zero h hc
  have hlast := List.getLast_mem h.ne_nil
  have hne : z ≠ l.getLast h.ne_nil := fun he => hl _ hlast (he ▸ hz)
  refine Act.Breaks.bind (Act.Breaks.onFail (breaks_fat32SetEntry g hn (chain_inRange h hs _ hlast)
    (show z < 2 ^ 28 by have := inRange_lt g hr; rw [fat32ClusterEnd] at this; omega))
    fun y hy => ?_)
  rw [hu] at hy
  have hend : (view fs y.disk).link fs z = .stop := by
    rw [hy, View.link_setFat_of_ne hne]
    exact hstop
  have hbad : ∀ p, Released fs True (view fs y.disk) [z] p →
      ∃ z, Grown fs W (view fs p.disk) l z ∧ (view fs p.disk).fat z = 0 := by
    rintro p ⟨l₁, -, hl₁, hview⟩
    rw [hl₁ trivial] at hview
    rw [hview]
    refine ⟨z, ?_, View.freed_fat_of_mem (by simp)⟩
    rw [hy]
    exact (grown_setFat ht h.ne_nil hf).freed (by simpa using hz) hl
  exact (does_freeOwned g True hr (.stop hend) rfl).mono (fun _ _ => trivial)
    (fun _ p hp => hbad p hp) fun p hp => hbad p hp

/-- A write that makes the directory grow can fail and leave the directory naming a
free cluster. -/
lemma breaks_fat32WriteFile (h : Formed fs V l) (hV : view fs v.disk = V) {name buf : List UInt8}
    {w : Name83} (hname : nameTo83 name = some w)
    (hlen : buf.length + fs.bytesPerCluster ≤ 2 ^ 32) (hcan : CanGrow fs V l w buf.length) :
    Act.Breaks (fat32WriteFile fs name buf) v fun u =>
      ∃ z, Grown fs V (view fs u.disk) l z ∧ (view fs u.disk).fat z = 0 := by
  obtain ⟨hn, hgrowth, hroom⟩ := hcan
  rw [NoRoom, hgrowth, Nat.not_lt] at hroom
  obtain ⟨hfind, hfull⟩ : V.findSlot fs l w = none ∧ (slotsOf fs l).find? V.reusable = none := by
    by_contra hno
    rw [growth, if_neg hno] at hgrowth
    exact absurd hgrowth (by norm_num)
  have hl : ∀ c ∈ l, V.fat c ≠ 0 := fun c hc => h.fat_ne_zero (Formed.mem_owned_root hc)
  rw [fat32WriteFile, hname]
  refine (reads_locateRootEntry g h.readable.walk h.start hV h.length_le).bind_breaks ?_
  rw [hfind]
  refine ((does_writeNewChain g True hV hlen).mono (fun _ h => h) (fun _ _ h => h) fun u hu =>
    absurd (hu.2 trivial).2 (by omega)).bind_breaks ?_
  rintro a x ⟨m, hf⟩
  have ha := h.agree hf.spares
  have hform : Formed fs (view fs x.disk) l := h.congr ha
  have hfullX : (slotsOf fs l).find? (view fs x.disk).reusable = none :=
    (find?_reusable_congr fun _ => Formed.entry_eq ha).trans hfull
  have hloop := reads_freeSlotLoop g (n := fs.totalClusters + 1) hform.root hform.start rfl
    (by have := hform.length_le; omega)
  rw [hfullX] at hloop
  have hroomX : ((view fs x.disk).freeClusters fs).card ≠ 0 := fun h0 => by
    have := hf.card_ge h0
    omega
  refine Act.Breaks.bind (Act.Breaks.onFail ((Act.reads_guard x).bind_breaks (hloop.bind_breaks
    (breaks_growDirectory g hn rfl hform.root hform.start hroomX))) ?_)
  rintro y ⟨z, hy, hz⟩
  have hyV : Grown fs V (view fs y.disk) l z := hy.of_spares hf.spares
  have hown : Owns fs (view fs y.disk) a m := hf.owns.congr fun c hc =>
    hy.fat c (hf.owns.fat_ne_zero hc) fun hlast => hl c (List.mem_of_getLast? hlast) (hf.free c hc)
  have hbad : ∀ p, Released fs True (view fs y.disk) m p →
      ∃ z, Grown fs V (view fs p.disk) l z ∧ (view fs p.disk).fat z = 0 := by
    rintro p ⟨l₁, hsub, -, hview⟩
    rw [hview]
    refine ⟨z, hyV.freed (fun c hc => hf.free c (hsub hc)) hl, ?_⟩
    by_cases hzl : z ∈ l₁
    · exact View.freed_fat_of_mem hzl
    · rw [View.freed_fat_of_notMem hzl, hz]
  exact (does_undoOwned g True hown rfl).mono (fun _ _ => trivial) (fun _ p hp => hbad p hp)
    fun p hp => hbad p hp

end Breaking

/-- **Failures cross-link nothing exactly when the directory need not grow**, or has
to on a volume with a single FAT copy, or there is no room for it. -/
theorem write_faults_unshared_iff {fs : Fs} {v : Vol} (h : WellFormed fs v)
    {name buf : List UInt8} (hlen : buf.length + fs.bytesPerCluster ≤ 2 ^ 32) :
    (∀ fl, Unshared fs (view fs ((fat32WriteFile fs name buf).run v fl).state.disk)) ↔
      ∀ w, nameTo83 name = some w →
        ¬CanGrow fs (view fs v.disk) ((view fs v.disk).rootClusters fs) w buf.length := by
  obtain ⟨g, hf⟩ := h
  constructor
  · intro hall w hname hcan
    obtain ⟨fl, -, -, z, hz, hz0⟩ := breaks_fat32WriteFile g hf rfl hname hlen hcan
    exact hz.not_unshared g hf hz0 (hall fl)
  · intro hno fl
    have hspec := does_fat32WriteFile g False hf rfl hlen name fl False.elim
    cases hval : ((fat32WriteFile fs name buf).run v fl).value with
    | some u =>
      obtain ⟨w, -, -, hwritten⟩ := hspec.value u hval
      exact hwritten.shows.unshared
    | none =>
      rcases hspec.none hval with ⟨hx, -⟩ | ⟨w, hw, -, hun⟩
      · rw [hx]
        exact Shows.unshared ⟨_, hf, rfl⟩
      · rcases hun.shows with hshow | ⟨-, hcan⟩
        · exact hshow.unshared
        · exact absurd hcan (hno w hw)

set_option maxRecDepth 100000 in
/-- An empty file `B` is created in a full directory. -/
theorem write_faults_unshared_iff_fullVolume :
    (∀ fl, Unshared smallFs
        (view smallFs ((fat32WriteFile smallFs [0x42] []).run fullVolume fl).state.disk)) ↔
      ∀ w, nameTo83 [0x42] = some w →
        ¬CanGrow smallFs (view smallFs fullVolume.disk)
          ((view smallFs fullVolume.disk).rootClusters smallFs) w 0 :=
  write_faults_unshared_iff (by decide) (by decide)

set_option maxRecDepth 100000 in
/-- The read of the second FAT copy fails while the new directory cluster `3` is
linked: the directory ends in a free cluster, which the next allocation hands out
again. -/
theorem write_faults_not_unshared :
    WellFormed smallFs fullVolume ∧
      let o := (fat32WriteFile smallFs [0x42] []).run fullVolume (List.replicate 15 false ++ [true])
      o.value = none ∧ (view smallFs o.state.disk).rootClusters smallFs = [2, 3] ∧
        (view smallFs o.state.disk).fat 3 = 0 ∧ ¬Unshared smallFs (view smallFs o.state.disk) := by
  decide +kernel

end TownOS
