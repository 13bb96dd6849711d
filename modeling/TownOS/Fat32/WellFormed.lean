import TownOS.Fat32.Catalog

/-!
Well-formed volumes.

`Formed fs V l` says that the root directory has the chain `l`, that its live
entries own finite chains with an end marker, large enough for their files, that
no cluster is owned twice, that no name is live twice, and that nothing follows
the end of the directory. A well-formed volume can be read (`Formed.readable`),
and what is done to clusters that nobody owns does not matter (`Formed.congr`,
`Formed.sameFile`).
-/

namespace TownOS

open Durable Bytes Linked

/-- `m` is the chain that starts at `a`; start cluster `0` is an empty chain. -/
def Owns (fs : Fs) (V : View) (a : ℕ) (m : List ℕ) : Prop :=
  a = 0 ∧ m = [] ∨ InRange fs a ∧ Chain (V.link fs) a m

/-- The clusters owned by the root directory `l` and its live entries. -/
def View.ownedBy (fs : Fs) (V : View) (l : List ℕ) : List ℕ :=
  l ++ (V.liveSlots fs l).flatMap (V.slotClusters fs)

/-- A volume whose root directory has the chain `l` is well formed. -/
structure Formed (fs : Fs) (V : View) (l : List ℕ) : Prop where
  start : InRange fs fs.rootCluster
  root : Chain (V.link fs) fs.rootCluster l
  tail : Slots.Tailed V.ends (slotsOf fs l)
  names : ((V.liveSlots fs l).map fun s => (V.entry s).name).Nodup
  chains : ∀ s ∈ V.liveSlots fs l,
    Owns fs V (direntFirstCluster (V.entry s)) (V.slotClusters fs s)
  sizes : ∀ s ∈ V.liveSlots fs l, (V.entry s).isDirectory = false →
    (V.entry s).size ≤ (V.slotClusters fs s).length * fs.bytesPerCluster
  disjoint : (V.ownedBy fs l).Nodup

/-- A well-formed volume. The FAT copies after the first do not matter here: they
are written and never read. -/
def WellFormed (fs : Fs) (v : Vol) : Prop :=
  Geometry fs ∧ Formed fs (view fs v.disk) ((view fs v.disk).rootClusters fs)

instance (fs : Fs) (V : View) (a : ℕ) (m : List ℕ) : Decidable (Owns fs V a m) :=
  inferInstanceAs (Decidable (_ ∨ _))

instance (fs : Fs) (V : View) (l : List ℕ) : Decidable (Formed fs V l) :=
  decidable_of_iff (InRange fs fs.rootCluster ∧ Chain (V.link fs) fs.rootCluster l ∧
    (∀ b ∈ (slotsOf fs l).dropWhile fun a => !V.ends a, V.ends b = true) ∧
    ((V.liveSlots fs l).map fun s => (V.entry s).name).Nodup ∧
    (∀ s ∈ V.liveSlots fs l, Owns fs V (direntFirstCluster (V.entry s)) (V.slotClusters fs s)) ∧
    (∀ s ∈ V.liveSlots fs l, (V.entry s).isDirectory = false →
      (V.entry s).size ≤ (V.slotClusters fs s).length * fs.bytesPerCluster) ∧
    (V.ownedBy fs l).Nodup)
    ⟨fun ⟨h1, h2, h3, h4, h5, h6, h7⟩ => ⟨h1, h2, h3, h4, h5, h6, h7⟩,
      fun h => ⟨h.start, h.root, h.tail, h.names, h.chains, h.sizes, h.disjoint⟩⟩

instance (fs : Fs) (v : Vol) : Decidable (WellFormed fs v) := inferInstanceAs (Decidable (_ ∧ _))

/-! ### A small volume -/

/-- One block a cluster, two FAT copies of one block, four clusters. -/
def smallFs : Fs where
  bytesPerSector := 512
  sectorsPerCluster := 1
  bytesPerCluster := 512
  firstFatBlock := 1
  sectorsPerFat := 1
  numFats := 2
  firstDataBlock := 3
  rootCluster := 2
  totalClusters := 4
  fsinfoBlock := 0

/-- A volume with the given FAT and the given root cluster, zero elsewhere. -/
def smallVolume (fat : ℕ → ℕ) (root : Buf) : Vol where
  disk := fun a =>
    if 512 ≤ a ∧ a < 1536 then byteOf (fat (a % 512 / 4)) (a % 4)
    else if 1536 ≤ a ∧ a < 2048 then root (a - 1536)
    else 0
  hint := 2

/-- A volume with an empty root directory. -/
def emptyVolume : Vol := smallVolume (fun c => if c = 2 then 0x0FFFFFFF else 0) fun _ => 0

/-- The name `A`, as stored. -/
def nameA : Name83 := fun k => if k = 0 then 0x41 else 0x20

/-- A volume with one file, `A`, of five bytes in cluster 3. -/
def oneFileVolume : Vol :=
  smallVolume (fun c => if c = 2 ∨ c = 3 then 0x0FFFFFFF else 0) (newDirent nameA 3 5).byte

/-- A volume whose root cluster is full of long-name fragments: no live entry, and no
slot that can be reused. -/
def fullVolume : Vol :=
  smallVolume (fun c => if c = 2 then 0x0FFFFFFF else 0) fun i => if i % 32 = 11 then 0x0F else 0x41

section Owning

variable {fs : Fs} {V X : View} {a c : ℕ} {l m : List ℕ} {s : Slot}

lemma Owns.inRange (h : Owns fs V a m) (hc : c ∈ m) : InRange fs c := by
  rcases h with ⟨-, rfl⟩ | ⟨hr, hch⟩
  · simp at hc
  · exact chain_inRange hch hr c hc

lemma Owns.fat_ne_zero (h : Owns fs V a m) (hc : c ∈ m) : V.fat c ≠ 0 := by
  rcases h with ⟨-, rfl⟩ | ⟨-, hch⟩
  · simp at hc
  · exact chain_fat_ne_zero hch hc

lemma Owns.nodup (h : Owns fs V a m) : m.Nodup := by
  rcases h with ⟨-, rfl⟩ | ⟨-, hch⟩
  · simp
  · exact hch.nodup

/-- The chain owned is what following the links meets. -/
lemma Owns.clustersFrom_eq (h : Owns fs V a m) : V.clustersFrom fs a = m := by
  rcases h with ⟨rfl, rfl⟩ | ⟨hr, hch⟩
  · exact if_neg fun h => by have := h.1; omega
  · rw [View.clustersFrom, if_pos hr,
      hch.visit_eq (length_le_total hch.nodup (chain_inRange hch hr))]

lemma Owns.congr (h : Owns fs V a m) (hf : ∀ c ∈ m, X.fat c = V.fat c) : Owns fs X a m :=
  h.imp id fun ⟨hr, hch⟩ => ⟨hr, hch.congr fun c hc => View.link_congr (hf c hc).symm⟩

lemma entry_congr (h : X.data s.1 = V.data s.1) : X.entry s = V.entry s := by
  rw [View.entry, View.entry, h]

/-- The live slots depend on the contents of the directory only. -/
lemma find?_reusable_congr (h : ∀ s ∈ slotsOf fs l, X.entry s = V.entry s) :
    (slotsOf fs l).find? X.reusable = (slotsOf fs l).find? V.reusable :=
  List.find?_congr fun s hs => by rw [View.reusable, View.reusable, h s hs]

lemma liveSlots_congr (h : ∀ s ∈ slotsOf fs l, X.entry s = V.entry s) :
    X.liveSlots fs l = V.liveSlots fs l :=
  Slots.live_congr fun s hs => by
    simp only [View.ends, View.used, h s hs, and_self]

lemma mem_slotsOf_of_live (h : s ∈ V.liveSlots fs l) : s ∈ slotsOf fs l := (Slots.mem_live h).1

lemma findSlot_congr {w : Name83} (h : ∀ s ∈ slotsOf fs l, X.entry s = V.entry s) :
    X.findSlot fs l w = V.findSlot fs l w := by
  rw [View.findSlot, View.findSlot, liveSlots_congr h]
  refine List.find?_congr fun s hs => ?_
  rw [View.named, View.named, h s (mem_slotsOf_of_live hs)]

end Owning

/-- The name `w` has the same slot in both volumes, with the same entry, the same
chain and the same bytes. -/
structure SameFile (fs : Fs) (V : View) (l : List ℕ) (X : View) (k : List ℕ) (w : Name83) :
    Prop where
  slot : X.findSlot fs k w = V.findSlot fs l w
  entry : ∀ s, V.findSlot fs l w = some s → X.entry s = V.entry s
  clusters : ∀ s, V.findSlot fs l w = some s → X.slotClusters fs s = V.slotClusters fs s
  bytes : ∀ s, V.findSlot fs l w = some s → X.fileBytes fs s = V.fileBytes fs s

namespace SameFile

variable {fs : Fs} {V X Y : View} {l k m : List ℕ} {w : Name83}

lemma trans (h : SameFile fs V l X k w) (h' : SameFile fs X k Y m w) :
    SameFile fs V l Y m w where
  slot := h'.slot.trans h.slot
  entry := fun s hs => (h'.entry s (h.slot.trans hs)).trans (h.entry s hs)
  clusters := fun s hs => (h'.clusters s (h.slot.trans hs)).trans (h.clusters s hs)
  bytes := fun s hs => (h'.bytes s (h.slot.trans hs)).trans (h.bytes s hs)

/-- The name stands for the same. -/
lemma node_eq (h : SameFile fs V l X k w) : X.node fs k w = V.node fs l w := by
  rw [View.node, View.node, h.slot]
  cases hs : V.findSlot fs l w with
  | none => rfl
  | some s => rw [Option.map_some, Option.map_some, h.entry s hs, h.bytes s hs]

end SameFile

/-! ### Clusters nobody owns -/

/-- The clusters in use in `V` are the same in `X`. -/
def Spares (V X : View) : Prop :=
  ∀ c, V.fat c ≠ 0 → X.fat c = V.fat c ∧ X.data c = V.data c

namespace Spares

variable {fs : Fs} {V X Y : View} {l : List ℕ}

lemma refl (V : View) : Spares V V := fun _ _ => ⟨rfl, rfl⟩

lemma trans (h : Spares V X) (h' : Spares X Y) : Spares V Y := fun c hc => by
  obtain ⟨h1, h2⟩ := h c hc
  obtain ⟨h3, h4⟩ := h' c (by rwa [h1])
  exact ⟨h3.trans h1, h4.trans h2⟩

/-- Clusters that were free in `V` are freed. -/
lemma freed (h : Spares V X) (hl : ∀ c ∈ l, V.fat c = 0) : Spares V (X.freed l) := fun c hc => by
  rw [View.freed_fat_of_notMem fun hcl => hc (hl c hcl), View.freed_data]
  exact h c hc

end Spares

lemma Taken.spares {fs : Fs} {V X : View} {l : List ℕ} (h : Taken fs V X l) : Spares V X :=
  fun c hc => ⟨h.fat c fun hcl => hc (h.free c hcl).2, by rw [h.data]⟩

lemma Filled.spares {V X : View} {l : List ℕ} (h : Filled V X l) {V₀ : View}
    (hs : Spares V₀ V) (hl : ∀ c ∈ l, V₀.fat c = 0) : Spares V₀ X := fun c hc => by
  rw [h.fat, h.data c fun hcl => hc (hl c hcl)]
  exact hs c hc

/-- Two volumes agree on the clusters owned in the first. -/
def Agree (fs : Fs) (V X : View) (l : List ℕ) : Prop :=
  ∀ c ∈ V.ownedBy fs l, X.fat c = V.fat c ∧ X.data c = V.data c

namespace Formed

variable {fs : Fs} {V X : View} {c : ℕ} {l : List ℕ} {s : Slot} {w : Name83}

lemma mem_owned_root (hc : c ∈ l) : c ∈ V.ownedBy fs l := List.mem_append_left _ hc

lemma mem_owned_slot (hs : s ∈ V.liveSlots fs l) (hc : c ∈ V.slotClusters fs s) :
    c ∈ V.ownedBy fs l :=
  List.mem_append_right _ (List.mem_flatMap.mpr ⟨s, hs, hc⟩)

lemma inRange (h : Formed fs V l) (hc : c ∈ V.ownedBy fs l) : InRange fs c := by
  rcases List.mem_append.mp hc with hc | hc
  · exact chain_inRange h.root h.start c hc
  · obtain ⟨s, hs, hc⟩ := List.mem_flatMap.mp hc
    exact (h.chains s hs).inRange hc

/-- What is owned is in use. -/
lemma fat_ne_zero (h : Formed fs V l) (hc : c ∈ V.ownedBy fs l) : V.fat c ≠ 0 := by
  rcases List.mem_append.mp hc with hc | hc
  · exact chain_fat_ne_zero h.root hc
  · obtain ⟨s, hs, hc⟩ := List.mem_flatMap.mp hc
    exact (h.chains s hs).fat_ne_zero hc

/-- The root chain is the one found by following the links. -/
lemma rootClusters_eq (h : Formed fs V l) : V.rootClusters fs = l :=
  Owns.clustersFrom_eq (.inr ⟨h.start, h.root⟩)

lemma length_le (h : Formed fs V l) : l.length ≤ fs.totalClusters :=
  length_le_total h.root.nodup (chain_inRange h.root h.start)

lemma agree (h : Formed fs V l) (hs : Spares V X) : Agree fs V X l := fun c hc =>
  hs c (h.fat_ne_zero hc)

lemma entry_eq (ha : Agree fs V X l) (hs : s ∈ slotsOf fs l) : X.entry s = V.entry s :=
  entry_congr (ha _ (mem_owned_root (mem_slotsOf.mp hs).1)).2

lemma liveSlots_eq (ha : Agree fs V X l) : X.liveSlots fs l = V.liveSlots fs l :=
  liveSlots_congr fun _ hs => entry_eq ha hs

lemma owns_congr (h : Formed fs V l) (ha : Agree fs V X l) (hs : s ∈ V.liveSlots fs l) :
    Owns fs X (direntFirstCluster (X.entry s)) (V.slotClusters fs s) := by
  rw [entry_eq ha (mem_slotsOf_of_live hs)]
  exact (h.chains s hs).congr fun c hc => (ha c (mem_owned_slot hs hc)).1

lemma slotClusters_eq (h : Formed fs V l) (ha : Agree fs V X l) (hs : s ∈ V.liveSlots fs l) :
    X.slotClusters fs s = V.slotClusters fs s := (h.owns_congr ha hs).clustersFrom_eq

lemma ownedBy_eq (h : Formed fs V l) (ha : Agree fs V X l) :
    X.ownedBy fs l = V.ownedBy fs l := by
  rw [View.ownedBy, View.ownedBy, liveSlots_eq ha]
  exact congrArg _ (List.flatMap_congr fun s hs => h.slotClusters_eq ha hs)

/-- **What nobody owns does not matter**: a volume that agrees with a well-formed
one on the clusters owned there is well formed. -/
theorem congr (h : Formed fs V l) (ha : Agree fs V X l) : Formed fs X l where
  start := h.start
  root := h.root.congr fun c hc => View.link_congr (ha c (mem_owned_root hc)).1.symm
  tail := h.tail.congr fun s hs => by rw [View.ends, View.ends, entry_eq ha hs]
  names := by
    rw [liveSlots_eq ha, List.map_congr_left fun s hs => by
      rw [entry_eq ha (mem_slotsOf_of_live hs)]]
    exact h.names
  chains := fun s hs => by
    rw [liveSlots_eq ha] at hs
    rw [h.slotClusters_eq ha hs]
    exact h.owns_congr ha hs
  sizes := fun s hs => by
    rw [liveSlots_eq ha] at hs
    rw [h.slotClusters_eq ha hs, entry_eq ha (mem_slotsOf_of_live hs)]
    exact h.sizes s hs
  disjoint := by
    rw [h.ownedBy_eq ha]
    exact h.disjoint

/-- Every name has the same file. -/
lemma sameFile (h : Formed fs V l) (ha : Agree fs V X l) (w : Name83) : SameFile fs V l X l w := by
  have hlive : ∀ s, V.findSlot fs l w = some s → s ∈ V.liveSlots fs l := fun s hs =>
    List.mem_of_find?_eq_some hs
  have hentry : ∀ s, V.findSlot fs l w = some s → X.entry s = V.entry s := fun s hs =>
    entry_eq ha (mem_slotsOf_of_live (hlive s hs))
  refine ⟨findSlot_congr fun s hs => entry_eq ha hs, hentry,
    fun s hs => h.slotClusters_eq ha (hlive s hs), fun s hs => ?_⟩
  rw [View.fileBytes, View.fileBytes, h.slotClusters_eq ha (hlive s hs), hentry s hs,
    chainBytes_congr fun c hc => (ha c (mem_owned_slot (hlive s hs) hc)).2]

/-- Every name stands for the same. -/
lemma node_congr (h : Formed fs V l) (ha : Agree fs V X l) : X.node fs l = V.node fs l :=
  funext fun w => (h.sameFile ha w).node_eq

/-- A name is live in one slot at most. -/
lemma findSlot_eq_some (h : Formed fs V l) :
    V.findSlot fs l w = some s ↔ s ∈ V.liveSlots fs l ∧ (V.entry s).name = w := by
  constructor
  · intro hs
    refine ⟨List.mem_of_find?_eq_some hs, ?_⟩
    simpa [View.named, nameEquals83] using List.find?_some hs
  · rintro ⟨hs, rfl⟩
    have hsome : (V.findSlot fs l (V.entry s).name).isSome := by
      rw [View.findSlot, List.find?_isSome]
      exact ⟨s, hs, by simp [View.named, nameEquals83]⟩
    obtain ⟨t, ht⟩ := Option.isSome_iff_exists.mp hsome
    have htn : (V.entry t).name = (V.entry s).name := by
      simpa [View.named, nameEquals83] using List.find?_some ht
    rw [ht, List.inj_on_of_nodup_map h.names (List.mem_of_find?_eq_some ht) hs htn]

/-- A well-formed volume can be read. -/
lemma readable (h : Formed fs V l) : Readable fs V l where
  walk := Walk.of_chain h.root
  root := h.start
  short := h.length_le
  file := fun s hs hd h0 => by
    have hsize := h.sizes s hs hd
    rcases h.chains s hs with ⟨-, hnil⟩ | ⟨hr, hch⟩
    · rw [hnil] at hsize
      simp at hsize
      omega
    · exact ⟨hr, hch, hsize⟩

end Formed

end TownOS
