import TownOS.Fat32.Commit

/-!
What `fat32_delete` and `fat32_write_file` do to a well-formed volume, under any
pattern of disk and heap failures.

Up to the one directory write that publishes a change, everything written lands
in clusters that were free (`Spares`) or extends the directory by an empty
cluster (`Grown`). After it, what is still written lands in clusters that nobody
owns any more.

* `does_writeNewChain`: the contents written to a chain of free clusters;
* `does_findFreeDirent`: a slot for a new entry;
* `does_publishAt`: the entry published in its slot, and the old chain freed.
-/

namespace TownOS

open Durable Bytes Linked

/-! ### A fresh chain -/

/-- The chain `m` from `a` on, made of clusters that were free, holds the bytes
`buf`; nothing else has changed. -/
structure Fresh (fs : Fs) (V W : View) (a : ℕ) (m : List ℕ) (buf : List UInt8) : Prop where
  fat : ∀ c, c ∉ m → W.fat c = V.fat c
  data : ∀ c, c ∉ m → W.data c = V.data c
  free : ∀ c ∈ m, V.fat c = 0
  owns : Owns fs W a m
  length : m.length = clustersFor fs buf.length
  bytes : (chainBytes fs W m).take buf.length = buf

lemma Fresh.spares {fs : Fs} {V W : View} {a : ℕ} {m : List ℕ} {buf : List UInt8}
    (h : Fresh fs V W a m buf) : Spares V W := fun c hc =>
  have hcm : c ∉ m := fun hcm => hc (h.free c hcm)
  ⟨h.fat c hcm, h.data c hcm⟩

/-- Some of the clusters `m` have been freed, all of them without failures. -/
def Released (fs : Fs) (calm : Prop) (X : View) (m : List ℕ) (v : Vol) : Prop :=
  ∃ l, l ⊆ m ∧ (calm → l = m) ∧ view fs v.disk = X.freed l

/-- The directory has grown; the new cluster ends the chain, at least without
failures. -/
def Extended (fs : Fs) (calm : Prop) (V X : View) (l : List ℕ) : Prop :=
  ∃ z, Grown fs V X l z ∧ (calm → X.link fs z = .stop)

/-- What is on the disk while a slot is looked for. -/
def Searching (fs : Fs) (calm : Prop) (W : View) (l : List ℕ) (v : Vol) : Prop :=
  Spares W (view fs v.disk) ∨ Extended fs calm W (view fs v.disk) l

/-- What is on the disk when no slot was found: nothing in use has changed, or the
directory was left with a cluster whose link could not be completed in all FAT
copies. -/
def NoSlot (fs : Fs) (calm : Prop) (W : View) (l : List ℕ) (v : Vol) : Prop :=
  Spares W (view fs v.disk) ∧ (calm → view fs v.disk = W ∧ (W.freeClusters fs).card = 0) ∨
    ¬calm ∧ 1 < fs.numFats ∧ Extended fs False W (view fs v.disk) l

section Geometric

variable {fs : Fs} (g : Geometry fs) {V W : View} {a : ℕ} {l m : List ℕ} {v : Vol}
  {buf : List UInt8}

include g

lemma clustersFor_bounds (hpos : 0 < buf.length) :
    buf.length ≤ clustersFor fs buf.length * fs.bytesPerCluster ∧
      (clustersFor fs buf.length - 1) * fs.bytesPerCluster < buf.length ∧
      0 < clustersFor fs buf.length := by
  have hb := bytesPerCluster_pos g
  have hdiv := Nat.div_add_mod (buf.length + fs.bytesPerCluster - 1) fs.bytesPerCluster
  have hmod := Nat.mod_lt (buf.length + fs.bytesPerCluster - 1) hb
  have hk : 0 < clustersFor fs buf.length := Nat.div_pos (by omega) hb
  rw [clustersFor] at hk ⊢
  obtain ⟨k, hk'⟩ : ∃ k, (buf.length + fs.bytesPerCluster - 1) / fs.bytesPerCluster = k + 1 :=
    ⟨_, (Nat.succ_pred_eq_of_pos hk).symm⟩
  rw [hk', Nat.mul_succ, Nat.mul_comm] at hdiv
  rw [hk', Nat.succ_mul, Nat.add_sub_cancel]
  omega

lemma clustersNeeded_eq (hlen : buf.length + fs.bytesPerCluster ≤ 2 ^ 32) :
    clustersNeeded fs buf.length = clustersFor fs buf.length := by
  have hb := bytesPerCluster_pos g
  rw [clustersNeeded, clustersFor, u32_of_lt (by omega)]

lemma does_freeOwned (calm : Prop) (hr : InRange fs a) (hch : Chain (W.link fs) a m)
    (hW : view fs v.disk = W) :
    Act.Does calm (freeChain fs a) v (Released fs False W m) (fun _ => Released fs calm W m)
      (Released fs calm W m) := by
  refine (does_freeChain g calm hch hr hW).mono ?_ ?_ ?_
  · rintro x ⟨l₁, -, hp, hx⟩
    exact ⟨l₁, hp.subset, False.elim, hx⟩
  · exact fun _ x hx => ⟨m, List.Subset.refl m, fun _ => rfl, hx⟩
  · rintro x ⟨hc, l₁, hp, hx⟩
    exact ⟨l₁, hp.subset, fun h => absurd h hc, hx⟩

lemma does_undoOwned (calm : Prop) (h : Owns fs W a m) (hW : view fs v.disk = W) :
    Act.Does calm (undoAlloc fs a) v (Released fs False W m) (fun _ => Released fs calm W m)
      (Released fs calm W m) := by
  rw [undoAlloc]
  rcases h with ⟨rfl, rfl⟩ | ⟨hr, hch⟩
  · exact Act.does_pure ⟨[], by simp, fun _ => rfl, by rw [hW, View.freed_nil]⟩
  · rw [if_pos (by have := hr.1; omega)]
    exact does_freeOwned g calm hr hch hW

omit g in
/-- Freeing fresh clusters leaves what was in use alone. -/
lemma Released.spares {calm : Prop} (h : Released fs calm W m v) (hs : Spares V W)
    (hm : ∀ c ∈ m, V.fat c = 0) : Spares V (view fs v.disk) := by
  obtain ⟨l, hl, -, hx⟩ := h
  rw [hx]
  exact hs.freed fun c hc => hm c (hl hc)

lemma does_dropFresh {calm : Prop} {I N : Vol → Prop} (hr : InRange fs a)
    (hch : Chain ((view fs v.disk).link fs) a m) (hs : Spares V (view fs v.disk))
    (hm : ∀ c ∈ m, V.fat c = 0) (hI : ∀ x : Vol, Spares V (view fs x.disk) → I x)
    (hN : ∀ x : Vol, Spares V (view fs x.disk) → N x) :
    Act.Does calm (freeChain fs a) v I (fun _ => N) N :=
  (does_freeOwned g calm hr hch rfl).mono (fun x hx => hI x (hx.spares hs hm))
    (fun _ x hx => hN x (hx.spares hs hm)) fun x hx => hN x (hx.spares hs hm)

/-- Steps 3 and 4 of `fat32_write_file` put the bytes in a fresh chain. -/
lemma does_writeNewChain (calm : Prop) (hV : view fs v.disk = V)
    (hlen : buf.length + fs.bytesPerCluster ≤ 2 ^ 32) :
    Act.Does calm (writeNewChain fs buf) v (fun x => Spares V (view fs x.disk))
      (fun a x => ∃ m, Fresh fs V (view fs x.disk) a m buf)
      fun x => Spares V (view fs x.disk) ∧ (calm → (view fs x.disk).fat = V.fat ∧
        (V.freeClusters fs).card < clustersFor fs buf.length) := by
  have hbpc := bytesPerCluster_pos g
  rw [writeNewChain]
  split_ifs with hpos
  · obtain ⟨hle, hlt, hk⟩ := clustersFor_bounds g hpos
    have hneed := clustersNeeded_eq g hlen
    have halloc := does_allocChain g calm v
      (show 0 < clustersNeeded fs buf.length by rw [hneed]; exact hk)
    rw [hV, hneed] at halloc
    refine Act.Does.bind (halloc.mono ?_ (fun _ _ h => h) ?_) ?_
    · rintro x ⟨l, ht⟩
      exact ht.spares
    · rintro x ⟨⟨l, ht⟩, hc⟩
      exact ⟨ht.spares, fun h => ⟨by rw [(hc h).1], (hc h).2 (by omega)⟩⟩
    rintro a x ⟨m, hm, ht, hch⟩
    have hr : InRange fs a := (ht.free a hch.mem_head).1
    have hfree : ∀ c ∈ m, V.fat c = 0 := fun c hc => (ht.free c hc).2
    have hdata := does_writeDataLoop g calm hch hr rfl (by rw [hm]; exact hle)
      (by rw [hm]; exact hlt) (le_refl buf.length)
    have hfill := (Act.reads_guard x).bind_does (f := fun _ => writeDataLoop fs buf.length a buf)
      hdata fun hc => ⟨hc, rfl, fun _ _ => rfl⟩
    refine Act.Does.bind (Act.Does.onFail (hfill.mono (fun y hy => hy.spares ht.spares hfree)
      (fun _ _ h => h) fun _ h => h) ?_) ?_
    · rintro y ⟨hc, hy⟩
      have hch' : Chain ((view fs y.disk).link fs) a m := hch.congr fun c _ =>
        View.link_congr (by rw [hy.fat])
      exact does_dropFresh g hr hch' (hy.spares ht.spares hfree) hfree (fun _ h => h)
        fun _ h => ⟨h, fun hcalm => absurd hcalm hc⟩
    · rintro - y ⟨hy, hbytes⟩
      refine Act.does_pure ⟨m, fun c hc => by rw [hy.fat, ht.fat c hc],
        fun c hc => by rw [hy.data c hc, ht.data], hfree, .inr ⟨hr, ?_⟩, hm, ?_⟩
      · exact hch.congr fun c _ => View.link_congr (by rw [hy.fat])
      · rw [hbytes, List.take_left]
  · have hnil : buf = [] := List.length_eq_zero_iff.mp (by omega)
    subst hnil
    refine Act.does_pure ⟨[], ?_, ?_, by simp, .inl ⟨rfl, rfl⟩, ?_, rfl⟩
    · rw [hV]; exact fun _ _ => rfl
    · rw [hV]; exact fun _ _ => rfl
    · exact (Nat.div_eq_of_lt (by simp; omega)).symm

/-! ### A slot for a new entry -/

lemma slotLocation_zero {z : ℕ} (hz : InRange fs z) :
    slotLocation fs z 0 = (clusterToBlock fs z, 0) := by
  have h1 := Geometry.cluster_fits hz
  have h2 := g.data_le
  have hb := g.clusterToBlock_eq hz
  rw [slotLocation, Nat.zero_mul, Nat.zero_div, Nat.add_zero, Nat.zero_mod, u32_of_lt (by omega)]

omit g in
/-- A free cluster that has been emptied, then linked behind the last one. -/
lemma grown_setFat {X : View} {z : ℕ} (ht : Taken fs W X [z]) (hne : l ≠ []) {f : Buf}
    (hf : ∀ i < fs.bytesPerCluster, f i = 0) :
    Grown fs W ((X.setData z f).setFat (l.getLast hne) z) l z := by
  obtain ⟨hr, hz⟩ := ht.free z (by simp)
  have hcz : ∀ {c}, W.fat c ≠ 0 → c ≠ z := fun hc he => hc (he ▸ hz)
  refine ⟨hz, hr, fun a ha => ?_, fun c hc hlast => ?_, fun c hc => ?_, fun i hi => ?_⟩
  · rw [List.getLast?_eq_some_getLast hne] at ha
    rw [Option.some.inj ha, View.setFat_fat, Function.update_self]
  · rw [List.getLast?_eq_some_getLast hne] at hlast
    rw [View.setFat_fat, Function.update_of_ne fun he => hlast (by rw [he])]
    exact ht.fat c (by simpa using hcz hc)
  · have hdata : (X.setData z f).data c = X.data c := Function.update_of_ne (hcz hc) _ _
    rw [View.setFat_data, hdata, ht.data]
  · have hdata : (X.setData z f).data z = f := Function.update_self _ _ _
    rw [View.setFat_data, hdata]
    exact hf i hi

/-- The new cluster is linked behind the last one. If that fails it is freed again,
and the directory may still name it. -/
lemma does_linkDirectory {calm : Prop} {X : View} {z : ℕ} {f : Buf} (ht : Taken fs W X [z])
    (hz : X.link fs z = .stop) (hf : ∀ i < fs.bytesPerCluster, f i = 0)
    (hv : view fs v.disk = X.setData z f)
    (h : Chain (W.link fs) fs.rootCluster l) (hs : InRange fs fs.rootCluster) :
    Act.Does calm ((fat32SetEntry fs (l.getLast h.ne_nil) z).onFail (freeChain fs z)) v
      (Searching fs calm W l)
      (fun _ x => view fs x.disk = (X.setData z f).setFat (l.getLast h.ne_nil) z ∧
        (view fs x.disk).link fs z = .stop)
      (NoSlot fs calm W l) := by
  obtain ⟨hr, hz0⟩ := ht.free z (by simp)
  have hmem : ∀ c ∈ [z], W.fat c = 0 := by simpa using hz0
  have hl : ∀ c ∈ l, W.fat c ≠ 0 := fun c hc => chain_fat_ne_zero h hc
  have hlast := List.getLast_mem h.ne_nil
  have hgrown : Grown fs W ((X.setData z f).setFat (l.getLast h.ne_nil) z) l z :=
    grown_setFat ht h.ne_nil hf
  have hstop : ((X.setData z f).setFat (l.getLast h.ne_nil) z).link fs z = .stop := by
    have hne : z ≠ l.getLast h.ne_nil := fun he => hl _ hlast (he ▸ hz0)
    rw [View.link_setFat_of_ne hne]
    exact hz
  have hset := does_fat32SetEntry g calm v (chain_inRange h hs _ hlast)
    (show z < 2 ^ 28 by have := inRange_lt g hr; rw [fat32ClusterEnd] at this; omega)
  rw [hv] at hset
  refine Act.Does.onFail
    (hset.mono (fun x hx => .inr ⟨z, by rw [hx]; exact ⟨hgrown, fun _ => hstop⟩⟩)
    (fun _ x hx => ⟨hx, by rw [hx]; exact hstop⟩) fun _ h => h) ?_
  rintro x ⟨hc, hx | ⟨hn, hx⟩⟩
  · refine does_dropFresh g hr (.stop ?_) ?_ hmem (fun _ h => .inl h)
      fun _ h => .inl ⟨h, fun hcalm => absurd hcalm hc⟩
    · rw [hx]; exact hz
    · rw [hx]; exact (filled_setData X f []).spares ht.spares hmem
  · -- the first FAT copy names the new cluster, which is freed nevertheless
    have hext : ∀ {b : Prop} {y : Vol}, Released fs b (view fs x.disk) [z] y →
        Grown fs W (view fs y.disk) l z := by
      rintro b y ⟨l₁, hl₁, -, hy⟩
      rw [hy, hx]
      exact hgrown.freed (fun c hc => hmem c (hl₁ hc)) hl
    refine (does_freeOwned g calm hr (.stop (by rw [hx]; exact hstop)) rfl).mono
      (fun y hy => .inr ⟨z, hext hy, fun hcalm => absurd hcalm hc⟩) ?_ ?_
    · exact fun _ y hy => .inr ⟨hc, hn, z, hext hy, False.elim⟩
    · exact fun y hy => .inr ⟨hc, hn, z, hext hy, False.elim⟩

/-- A new cluster for the directory, empty and named by nothing yet. -/
lemma does_newDirCluster (calm : Prop) (hW : view fs v.disk = W) :
    Act.Does calm (newDirCluster fs) v (fun x => Spares W (view fs x.disk))
      (fun z x => ∃ X f, Taken fs W X [z] ∧ X.link fs z = .stop ∧
        (∀ i < fs.bytesPerCluster, f i = 0) ∧ view fs x.disk = X.setData z f)
      fun x => Spares W (view fs x.disk) ∧
        (calm → view fs x.disk = W ∧ (W.freeClusters fs).card = 0) := by
  have hbpc := bytesPerCluster_pos g
  have hone : clustersNeeded fs fs.bytesPerCluster = 1 := by
    have hle := g.cluster_le
    have hb := g.bytesPerCluster
    rw [clustersNeeded, u32_of_lt (by omega)]
    exact Nat.div_eq_of_lt_le (by omega) (by omega)
  have halloc := does_allocChain g calm v
    (show 0 < clustersNeeded fs fs.bytesPerCluster by rw [hone]; norm_num)
  rw [hW, hone] at halloc
  refine Act.Does.bind (halloc.mono (fun x hx => hx.choose_spec.spares) (fun _ _ h => h) ?_) ?_
  · rintro x ⟨⟨l', ht⟩, hc⟩
    exact ⟨ht.spares, fun hcalm => ⟨(hc hcalm).1, by have := (hc hcalm).2 (by omega); omega⟩⟩
  rintro z x ⟨m, hm, ht, hch⟩
  obtain rfl : m = [z] := by
    obtain ⟨t, rfl⟩ := hch.eq_cons
    rw [List.length_eq_zero_iff.mp (by simpa using hm : t.length = 0)]
  obtain ⟨hr, hz⟩ := ht.free z (by simp)
  have hmem : ∀ c ∈ [z], W.fat c = 0 := by simpa using hz
  have hstop : (view fs x.disk).link fs z = .stop := by
    cases hch with
    | stop hs => exact hs
    | next _ ht => exact absurd rfl ht.ne_nil
  have hundo : ¬calm → Act.Does calm (freeChain fs z) x (fun x => Spares W (view fs x.disk))
      (fun _ x => Spares W (view fs x.disk) ∧
        (calm → view fs x.disk = W ∧ (W.freeClusters fs).card = 0))
      fun x => Spares W (view fs x.disk) ∧
        (calm → view fs x.disk = W ∧ (W.freeClusters fs).card = 0) := fun hc =>
    does_dropFresh g hr hch ht.spares hmem (fun _ h => h) fun _ h =>
      ⟨h, fun hcalm => absurd hcalm hc⟩
  refine Act.Does.bind (Act.Does.onFail (does_guard calm x) ?_) ?_
  · rintro y ⟨hc, rfl⟩
    exact hundo hc
  rintro - y rfl
  refine Act.Does.bind (Act.Does.onFail ((does_writeCluster g calm y _ hr).mono ?_ (fun _ _ h => h)
    fun _ h => h) ?_) ?_
  · rintro u ⟨f, hu⟩
    rw [hu]
    exact (filled_setData _ f []).spares ht.spares hmem
  · rintro u ⟨hc, rfl⟩
    exact hundo hc
  · intro _ u hu
    exact Act.does_pure ⟨_, _, ht, hstop, fun _ _ => ite_self 0, hu⟩

/-- The growing half of `find_free_dirent`. -/
lemma does_growDirectory (calm : Prop) (hW : view fs v.disk = W)
    (h : Chain (W.link fs) fs.rootCluster l) (hs : InRange fs fs.rootCluster) :
    Act.Does calm (growDirectory fs (l.getLast h.ne_nil)) v (Searching fs calm W l)
      (fun loc x => ∃ z, Grown fs W (view fs x.disk) l z ∧ (view fs x.disk).link fs z = .stop ∧
        (∀ c, W.fat c = 0 → c ≠ z → (view fs x.disk).fat c = 0) ∧ loc = slotLocation fs z 0)
      (NoSlot fs calm W l) := by
  refine Act.Does.bind ((does_newDirCluster g calm hW).mono (fun _ h => .inl h) (fun _ _ h => h)
    fun _ h => .inl h) ?_
  rintro z x ⟨X, f, ht, hstop, hf, hx⟩
  refine Act.Does.bind (does_linkDirectory g ht hstop hf hx h hs) ?_
  rintro - y ⟨hy, hend⟩
  refine Act.does_pure ⟨z, ?_, hend, fun c hc hcz => ?_,
    (slotLocation_zero g (ht.free z (by simp)).1).symm⟩
  · rw [hy]
    exact grown_setFat ht h.ne_nil hf
  · have hlast : c ≠ l.getLast h.ne_nil := fun he =>
      chain_fat_ne_zero h (List.getLast_mem h.ne_nil) (he ▸ hc)
    rw [hy, View.setFat_fat, Function.update_of_ne hlast]
    exact (ht.fat c (by simpa using hcz)).trans hc

lemma reads_findFreeDirent (h : Formed fs W l) (hW : view fs v.disk = W) {s : Slot}
    (hs : (slotsOf fs l).find? W.reusable = some s) :
    Act.Reads (findFreeDirent fs) v (some (slotLocation fs s.1 s.2)) := by
  have hloop := reads_freeSlotLoop g (n := fs.totalClusters + 1) h.root h.start hW
    (by have := h.length_le; omega)
  rw [hs] at hloop
  exact (Act.reads_guard v).bind (hloop.bind (Act.Reads.pure _ _))

lemma does_findFreeDirent (calm : Prop) (h : Formed fs W l) (hW : view fs v.disk = W)
    (hs : (slotsOf fs l).find? W.reusable = none) :
    Act.Does calm (findFreeDirent fs) v (Searching fs calm W l)
      (fun loc x => ∃ z, Grown fs W (view fs x.disk) l z ∧ (view fs x.disk).link fs z = .stop ∧
        (∀ c, W.fat c = 0 → c ≠ z → (view fs x.disk).fat c = 0) ∧ loc = slotLocation fs z 0)
      (NoSlot fs calm W l) := by
  have hloop := reads_freeSlotLoop g (n := fs.totalClusters + 1) h.root h.start hW
    (by have := h.length_le; omega)
  rw [hs] at hloop
  have hno : ¬calm → NoSlot fs calm W l v := fun hc =>
    .inl ⟨by rw [hW]; exact Spares.refl W, fun hcalm => absurd hcalm hc⟩
  exact (Act.reads_guard v).bind_does
    (hloop.bind_does (does_growDirectory g calm hW h.root h.start) hno) hno

/-! ### The commit -/

/-- The volume is well formed and its names stand for `M`. -/
def Shows (fs : Fs) (X : View) (M : Name83 → Option Node) : Prop :=
  ∃ l, Formed fs X l ∧ X.node fs l = M

omit g in
lemma Formed.shows_of_agree {X : View} (h : Formed fs V l) (ha : Agree fs V X l) :
    Shows fs X (V.node fs l) :=
  ⟨l, h.congr ha, h.node_congr ha⟩

/-- The chain of a replaced entry is freed, as far as possible. -/
lemma does_freeReplaced (calm : Prop) {e : Dirent} {loc : ℕ × ℕ} (hW : view fs v.disk = W)
    (ho : Owns fs W (direntFirstCluster e) m) {N : Vol → Prop} :
    Act.Does calm (freeReplaced fs (some (e, loc))) v (Released fs False W m)
      (fun _ => Released fs calm W m) N := by
  rw [freeReplaced]
  rcases ho with ⟨h0, rfl⟩ | ⟨hr, hch⟩
  · rw [if_neg (by simpa using h0)]
    exact Act.does_pure ⟨[], by simp, fun _ => rfl, by rw [hW, View.freed_nil]⟩
  · rw [if_pos (by have := hr.1; omega)]
    refine Act.Does.bind (does_freeOwned g calm hr hch hW).attempt ?_
    rintro (_ | _) x hx
    · exact Act.does_pure hx
    · exact Act.does_pure hx

omit g in
/-- Freeing a chain that nobody owns changes no name. -/
lemma Loaded.shows_released {w : Name83} {b : Prop} (h : Loaded fs W l w a m buf)
    (hv : Released fs b W m v) : Shows fs (view fs v.disk) (W.node fs l) := by
  obtain ⟨l₁, hl₁, -, hx⟩ := hv
  rw [hx]
  exact h.formed.shows_of_agree (agree_freed_of_notMem fun c hc => h.apart c (hl₁ hc))

omit g in
lemma Ready.shows_released {s : Slot} {R : List Slot} {w : Name83} {b : Prop}
    (h : Ready fs W l s R w a m buf)
    (hv : Released fs b (W.put s (newDirent w a buf.length)) (W.oldClusters fs s) v) :
    Shows fs (view fs v.disk) (published (W.node fs l) w buf) := by
  obtain ⟨l₁, hl₁, -, hx⟩ := hv
  rw [hx, ← h.node_put]
  exact h.formed_put.shows_of_agree (h.agree_freed hl₁)

/-- From the write of the entry on: before it the volume shows the old names,
from it on the new ones. -/
lemma does_publishAt (calm : Prop) {s : Slot} {R : List Slot} {w : Name83}
    {existing : Option (Dirent × ℕ × ℕ)} (h : Ready fs W l s R w a m buf)
    (hW : view fs v.disk = W)
    (hex : existing = none ∧ W.occupied s = false ∨
      ∃ loc, existing = some (W.entry s, loc) ∧ W.occupied s = true) :
    Act.Does calm
      (publishAt fs existing a (newDirent w a buf.length) (slotLocation fs s.1 s.2)) v
      (fun x => Shows fs (view fs x.disk) (W.node fs l) ∨
        Shows fs (view fs x.disk) (published (W.node fs l) w buf))
      (fun _ => Released fs calm (W.put s (newDirent w a buf.length)) (W.oldClusters fs s))
      fun x => ¬calm ∧ Shows fs (view fs x.disk) (W.node fs l) := by
  obtain ⟨hsl, hsi⟩ := mem_slotsOf.mp h.slot.mem
  have hshow : Shows fs (W.put s (newDirent w a buf.length)) (published (W.node fs l) w buf) :=
    ⟨l, h.formed_put, h.node_put⟩
  rw [publishAt]
  refine Act.Does.bind (Act.Does.onFail ((does_writeDirentAt g calm v _
    (chain_inRange h.formed.root h.formed.start _ hsl) hsi).mono ?_ (fun _ _ h => h) fun _ h => h)
    ?_) ?_
  · intro x hx
    rw [hW, ← View.put] at hx
    exact .inr (hx ▸ hshow)
  · rintro x ⟨hc, rfl⟩
    have hl := h.toLoaded
    exact (does_undoOwned g calm hl.owns hW).mono (fun y hy => .inl (hl.shows_released hy))
      (fun _ y hy => ⟨hc, hl.shows_released hy⟩) fun y hy => ⟨hc, hl.shows_released hy⟩
  intro _ x hx
  rw [hW, ← View.put] at hx
  refine Act.Does.bind (Q := fun _ => Released fs calm (W.put s (newDirent w a buf.length))
    (W.oldClusters fs s)) ?_ ?_
  · rcases hex with ⟨rfl, hocc⟩ | ⟨loc, rfl, hocc⟩
    · refine Act.does_pure ⟨[], by simp, fun _ => ?_, by rw [hx, View.freed_nil]⟩
      rw [View.oldClusters, hocc]
      rfl
    · have hold : W.oldClusters fs s = W.slotClusters fs s := by
        rw [View.oldClusters, if_pos hocc]
      have hown : Owns fs (W.put s (newDirent w a buf.length)) (direntFirstCluster (W.entry s))
          (W.oldClusters fs s) := by
        rw [hold]
        exact h.formed.chains s (h.slot.mem_live_self.mpr hocc)
      exact (does_freeReplaced g calm hx hown).mono (fun y hy => .inr (h.shows_released hy))
        (fun _ _ h => h) fun _ h => h
  · intro _ y hy
    refine (does_fat32FsinfoInvalidate g calm y).mono (fun p hp => .inr ?_) (fun _ p hp => ?_)
      fun _ h => h.elim
    · rw [hp]
      exact h.shows_released hy
    · obtain ⟨l₁, h1, h2, h3⟩ := hy
      exact ⟨l₁, h1, h2, by rw [hp, h3]⟩

end Geometric

end TownOS
