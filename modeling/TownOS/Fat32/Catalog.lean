import TownOS.Fat32.Contents
import TownOS.Foundations.Slots

/-!
The root directory as a table of slots, and what the lookups find in it.

The slots of a directory are the 32-byte windows of its clusters, in order; the
live ones are those before the first `0x00` that are neither deleted nor format
bookkeeping. A directory can be walked along a list of clusters that ends with
an end marker, or with a cluster in which the table ends (`Walk`).

* `reads_locateRootEntry`, `reads_walkDirectory`: both searches find the first
  live slot with the name;
* `reads_freeSlotLoop`: the search for a reusable slot;
* `Readable`, `contents`, `reads_fat32ReadFile`, `reads_fat32Stat`: what a file
  holds, and that reading delivers it.
-/

namespace TownOS

open Durable Bytes Linked

/-- A directory slot: entry `i` of cluster `c`. -/
abbrev Slot : Type := ℕ × ℕ

/-- The slots of one cluster. -/
def clusterSlots (fs : Fs) (c : ℕ) : List Slot :=
  (List.range' 0 (entriesPerCluster fs)).map fun i => (c, i)

/-- The slots of a directory. -/
def slotsOf (fs : Fs) (l : List ℕ) : List Slot := l.flatMap (clusterSlots fs)

@[simp] lemma slotsOf_cons (fs : Fs) (c : ℕ) (l : List ℕ) :
    slotsOf fs (c :: l) = clusterSlots fs c ++ slotsOf fs l := rfl

@[simp] lemma slotsOf_append (fs : Fs) (l l' : List ℕ) :
    slotsOf fs (l ++ l') = slotsOf fs l ++ slotsOf fs l' := List.flatMap_append

lemma mem_slotsOf {fs : Fs} {l : List ℕ} {s : Slot} :
    s ∈ slotsOf fs l ↔ s.1 ∈ l ∧ s.2 < entriesPerCluster fs := by
  obtain ⟨c, i⟩ := s
  simp only [slotsOf, clusterSlots, List.mem_flatMap, List.mem_map, List.mem_range'_1,
    Prod.mk.injEq]
  constructor
  · rintro ⟨b, hb, j, hj, rfl, rfl⟩
    exact ⟨hb, by omega⟩
  · rintro ⟨hc, hi⟩
    exact ⟨c, hc, i, by omega, rfl, rfl⟩

lemma fst_of_mem_clusterSlots {fs : Fs} {c : ℕ} {s : Slot} (h : s ∈ clusterSlots fs c) :
    s.1 = c := by
  obtain ⟨i, -, rfl⟩ := List.mem_map.mp h
  rfl

namespace View

variable (fs : Fs) (V : View)

/-- The entry in a slot. -/
def entry (s : Slot) : Dirent := direntAt (V.data s.1) s.2

/-- The slot ends the directory. -/
def ends (s : Slot) : Bool := V.entry s 0 == direntFree

/-- The slot holds a file or a directory, if it is not past the end. -/
def used (s : Slot) : Bool := V.entry s 0 != direntDeleted && direntIsUsable (V.entry s)

/-- The slot can take a new entry. -/
def reusable (s : Slot) : Bool := V.entry s 0 == direntFree || V.entry s 0 == direntDeleted

/-- The slot holds the name. -/
def named (w : Name83) (s : Slot) : Bool := nameEquals83 (V.entry s).name w

/-- The live slots of the directory in the clusters `l`. -/
def liveSlots (l : List ℕ) : List Slot := Slots.live V.ends V.used (slotsOf fs l)

/-- The live slot with a name. -/
def findSlot (l : List ℕ) (w : Name83) : Option Slot := (V.liveSlots fs l).find? (V.named w)

/-- The clusters met from a start cluster on. -/
def clustersFrom (a : ℕ) : List ℕ :=
  if InRange fs a then visit (V.link fs) fs.totalClusters a else []

/-- The clusters of the root directory. -/
def rootClusters : List ℕ := V.clustersFrom fs fs.rootCluster

/-- The clusters of the file or directory in a slot. -/
def slotClusters (s : Slot) : List ℕ := V.clustersFrom fs (direntFirstCluster (V.entry s))

end View

/-- The directory from cluster `a` on can be walked along `l`: the last cluster
ends the chain, or the table ends in it. -/
inductive Walk (fs : Fs) (V : View) : ℕ → List ℕ → Prop where
  | stop {a : ℕ} : V.link fs a = .stop → Walk fs V a [a]
  | done {a : ℕ} {s : Slot} : s ∈ clusterSlots fs a → V.ends s = true → Walk fs V a [a]
  | next {a b : ℕ} {l : List ℕ} : V.link fs a = .next b → Walk fs V b l → Walk fs V a (a :: l)

lemma Walk.of_chain {fs : Fs} {V : View} {a : ℕ} {l : List ℕ} (h : Chain (V.link fs) a l) :
    Walk fs V a l := by
  induction h with
  | stop hs => exact .stop hs
  | next hb _ ih => exact .next hb ih

lemma Walk.of_path {fs : Fs} {V : View} {a b : ℕ} {l l' : List ℕ} (h : Path (V.link fs) a l b)
    (h' : Walk fs V b l') : Walk fs V a (l ++ l') := by
  induction h with
  | here => exact h'
  | next hb _ ih => exact .next hb (ih h')

section Searches

variable {fs : Fs} {V : View} {a c : ℕ} {l : List ℕ} {w : Name83}

lemma ends_iff {s : Slot} : V.ends s = true ↔ V.entry s 0 = direntFree := by
  simp [View.ends]

lemma used_iff {s : Slot} :
    V.used s = true ↔ V.entry s 0 ≠ direntDeleted ∧ direntIsUsable (V.entry s) = true := by
  simp [View.used]

/-- One entry of the loop of `locate_root_entry`. -/
lemma locateEntries_succ {n i : ℕ} :
    locateEntries (V.data c) w (n + 1) i =
      if V.ends (c, i) then (true, none)
      else if V.used (c, i) && V.named w (c, i) then (true, some (V.entry (c, i), i))
      else locateEntries (V.data c) w n (i + 1) := by
  have hentry : direntAt (V.data c) i = V.entry (c, i) := rfl
  rw [locateEntries, hentry]
  simp only [ends_iff, Bool.and_eq_true, used_iff, View.named]
  split_ifs <;> first | rfl | (exfalso; simp_all)

/-- The entry loop of `locate_root_entry`. -/
lemma locateEntries_eq {n i : ℕ} :
    locateEntries (V.data c) w n i =
      match Slots.probe V.ends V.used (V.named w) ((List.range' i n).map fun j => (c, j)) with
      | none => (false, none)
      | some none => (true, none)
      | some (some s) => (true, some (V.entry s, s.2)) := by
  induction n generalizing i with
  | zero => rfl
  | succ n ih =>
    rw [List.range'_succ, List.map_cons, Slots.probe, locateEntries_succ, ih]
    split_ifs <;> rfl

/-- The entry loops of the two searches agree, on every cluster. -/
lemma walkEntries_eq (buf : Buf) (w : Name83) (n i : ℕ) (sink : NameSink) :
    walkEntries buf (some w) n i sink =
      ((locateEntries buf w n i).1, (locateEntries buf w n i).2.map Prod.fst, sink) := by
  induction n generalizing i with
  | zero => rfl
  | succ n ih =>
    rw [walkEntries, locateEntries, ih]
    split_ifs <;> first | rfl | (exfalso; simp_all)

/-- `walk_directory`, looking for a name, does what `locate_root_entry` does and
drops the location. -/
lemma walkLoop_eq (fs : Fs) (w : Name83) (n a : ℕ) (sink : NameSink) :
    walkLoop fs (some w) n a sink =
      locateLoop fs w n a >>= fun r => pure (r.map Prod.fst, sink) := by
  induction n generalizing a with
  | zero => rfl
  | succ n ih =>
    rw [walkLoop, locateLoop, bind_assoc]
    refine congrArg _ (funext fun buf => ?_)
    rw [walkEntries_eq]
    rcases locateEntries buf w (entriesPerCluster fs) 0 with ⟨_ | _, found⟩
    · -- the directory goes on in the next cluster
      dsimp only
      rw [bind_assoc]
      refine congrArg _ (funext fun r => ?_)
      cases r with
      | none => rfl
      | some next => exact ih next
    · rcases found with _ | ⟨e, i⟩
      · rfl
      · rfl

/-- The lookup of `walk_directory` is `locate_root_entry` without the place. -/
lemma walkDirectory_some (fs : Fs) (wanted : Name83) (sink : NameSink) :
    walkDirectory fs fs.rootCluster (some wanted) sink =
      locateRootEntry fs wanted >>= fun found => pure (found.map Prod.fst, sink) := by
  rw [walkDirectory, locateRootEntry, bind_assoc]
  refine congrArg _ (funext fun _ => ?_)
  exact walkLoop_eq fs wanted _ _ sink

lemma reusable_iff {s : Slot} :
    V.reusable s = true ↔ V.entry s 0 = direntFree ∨ V.entry s 0 = direntDeleted := by
  simp [View.reusable]

/-- The entry loop of `find_free_dirent`. -/
lemma freeSlot_eq {n i : ℕ} :
    (freeSlot (V.data c) n i).map (fun j => (c, j)) =
      ((List.range' i n).map fun j => ((c, j) : Slot)).find? V.reusable := by
  induction n generalizing i with
  | zero => rfl
  | succ n ih =>
    have hfirst : V.data c (i * direntBytes) = V.entry (c, i) 0 := rfl
    rw [List.range'_succ, List.map_cons, freeSlot, hfirst]
    by_cases h : V.reusable (c, i) = true
    · rw [List.find?_cons_of_pos h, if_pos (reusable_iff.mp h), Option.map_some]
    · rw [List.find?_cons_of_neg h, if_neg fun h' => h (reusable_iff.mpr h'), ih]

end Searches

section Geometric

variable {fs : Fs} (g : Geometry fs) {V : View} {a : ℕ} {l : List ℕ} {w : Name83}

include g

/-! ### The walks -/

omit g in
/-- The entry loop on a whole cluster. -/
lemma locateEntries_cluster :
    locateEntries (V.data a) w (entriesPerCluster fs) 0 =
      match Slots.probe V.ends V.used (V.named w) (clusterSlots fs a) with
      | none => (false, none)
      | some none => (true, none)
      | some (some s) => (true, some (V.entry s, s.2)) := locateEntries_eq

/-- The slots of a cluster settle the search. -/
lemma reads_locateLoop_found {v : Vol} {m : ℕ} {r : Option Slot} (ha : InRange fs a)
    (hV : view fs v.disk = V)
    (hr : Slots.probe V.ends V.used (V.named w) (clusterSlots fs a) = some r) :
    Act.Reads (locateLoop fs w (m + 1) a) v
      (some (r.map fun s => (V.entry s, slotLocation fs s.1 s.2))) := by
  rw [locateLoop]
  refine (reads_readCluster g v ha).bind ?_
  rw [hV, locateEntries_cluster, hr]
  cases r with
  | none => exact Act.Reads.pure _ _
  | some s =>
    have hs : s.1 = a := fst_of_mem_clusterSlots (Slots.mem_of_probe hr)
    rw [Option.map_some, hs]
    exact Act.Reads.pure _ _

/-- The slots of a cluster do not settle the search, which goes on. -/
lemma reads_locateLoop_next {v : Vol} {m : ℕ} {r : Option (Option (Dirent × ℕ × ℕ))}
    (ha : InRange fs a) (hV : view fs v.disk = V)
    (hp : Slots.probe V.ends V.used (V.named w) (clusterSlots fs a) = none)
    (hnext : Act.Reads (fat32NextCluster fs a >>= fun
      | none => pure none
      | some next => locateLoop fs w m next) v r) :
    Act.Reads (locateLoop fs w (m + 1) a) v r := by
  rw [locateLoop]
  refine (reads_readCluster g v ha).bind ?_
  rw [hV, locateEntries_cluster, hp]
  exact hnext

/-- The cluster loop of `locate_root_entry`. -/
lemma reads_locateLoop {v : Vol} {n : ℕ} (h : Walk fs V a l) (ha : InRange fs a)
    (hV : view fs v.disk = V) (hn : l.length ≤ n) :
    Act.Reads (locateLoop fs w n a) v
      (some ((V.findSlot fs l w).map fun s => (V.entry s, slotLocation fs s.1 s.2))) := by
  rw [View.findSlot, View.liveSlots, ← Slots.probe_join]
  induction h generalizing n with
  | @stop a hs =>
    obtain ⟨m, rfl⟩ : ∃ m, n = m + 1 := ⟨n - 1, by simp at hn; omega⟩
    have hone : slotsOf fs [a] = clusterSlots fs a := by simp [slotsOf]
    rw [hone]
    cases hp : Slots.probe V.ends V.used (V.named w) (clusterSlots fs a) with
    | some r => exact reads_locateLoop_found g ha hV hp
    | none =>
      have hnext := reads_fat32NextCluster g v ha
      rw [hV, hs] at hnext
      exact reads_locateLoop_next g ha hV hp (hnext.bind (Act.Reads.pure _ _))
  | @done a s hmem hend =>
    obtain ⟨m, rfl⟩ : ∃ m, n = m + 1 := ⟨n - 1, by simp at hn; omega⟩
    have hone : slotsOf fs [a] = clusterSlots fs a := by simp [slotsOf]
    rw [hone]
    obtain ⟨r, hp⟩ := Option.ne_none_iff_exists'.mp
      (Slots.probe_ne_none V.used (V.named w) hmem hend)
    rw [hp]
    exact reads_locateLoop_found g ha hV hp
  | @next a b l hb hl ih =>
    obtain ⟨m, rfl⟩ : ∃ m, n = m + 1 := ⟨n - 1, by simp at hn; omega⟩
    rw [slotsOf_cons, Slots.probe_append]
    cases hp : Slots.probe V.ends V.used (V.named w) (clusterSlots fs a) with
    | some r => exact reads_locateLoop_found g ha hV hp
    | none =>
      have hnext := reads_fat32NextCluster g v ha
      rw [hV, hb] at hnext
      exact reads_locateLoop_next g ha hV hp
        (hnext.bind (ih (View.fat_of_link_next hb).2 (by simp at hn; omega)))

/-- The cluster loop of `find_free_dirent`, along a whole chain. -/
lemma reads_freeSlotLoop {v : Vol} {n : ℕ} (h : Chain (V.link fs) a l) (ha : InRange fs a)
    (hV : view fs v.disk = V) (hn : l.length ≤ n) :
    Act.Reads (freeSlotLoop fs n a) v
      (some (match (slotsOf fs l).find? V.reusable with
        | some s => .inl (slotLocation fs s.1 s.2)
        | none => .inr (l.getLast h.ne_nil))) := by
  induction l generalizing a n with
  | nil => exact absurd rfl h.ne_nil
  | cons b t ih =>
    obtain rfl := h.head_eq
    obtain ⟨m, rfl⟩ : ∃ m, n = m + 1 := ⟨n - 1, by simp at hn; omega⟩
    have hslot : (freeSlot (V.data b) (entriesPerCluster fs) 0).map (fun j => (b, j)) =
        (clusterSlots fs b).find? V.reusable := freeSlot_eq
    rw [freeSlotLoop]
    refine (reads_readCluster g v ha).bind ?_
    rw [hV, slotsOf_cons, List.find?_append, ← hslot]
    cases freeSlot (V.data b) (entriesPerCluster fs) 0 with
    | some i => exact Act.Reads.pure _ _
    | none =>
      have hnext := reads_fat32NextCluster g v ha
      cases h with
      | stop hs =>
        rw [hV, hs] at hnext
        exact hnext.bind (Act.Reads.pure _ _)
      | next hb ht =>
        rw [hV, hb] at hnext
        simp only [List.getLast_cons ht.ne_nil]
        exact hnext.bind (ih ht (View.fat_of_link_next hb).2 (by simp at hn; omega))

/-- `locate_root_entry` finds the first live slot with the name. -/
lemma reads_locateRootEntry {v : Vol} (h : Walk fs V fs.rootCluster l)
    (ha : InRange fs fs.rootCluster) (hV : view fs v.disk = V) (hn : l.length ≤ fs.totalClusters) :
    Act.Reads (locateRootEntry fs w) v
      (some ((V.findSlot fs l w).map fun s => (V.entry s, slotLocation fs s.1 s.2))) :=
  (Act.reads_guard v).bind (reads_locateLoop g h ha hV (by omega))

/-- `walk_directory` finds the same entry. -/
lemma reads_walkDirectory {v : Vol} {sink : NameSink} (h : Walk fs V fs.rootCluster l)
    (ha : InRange fs fs.rootCluster) (hV : view fs v.disk = V) (hn : l.length ≤ fs.totalClusters) :
    Act.Reads (walkDirectory fs fs.rootCluster (some w) sink) v
      (some ((V.findSlot fs l w).map V.entry, sink)) := by
  rw [walkDirectory_some]
  refine (reads_locateRootEntry g h ha hV hn).bind ?_
  rw [Option.map_map]
  exact Act.Reads.pure _ _

end Geometric

/-! ### The contents of a file -/

/-- The bytes of the file in a slot. -/
def View.fileBytes (fs : Fs) (V : View) (s : Slot) : List UInt8 :=
  (chainBytes fs V (V.slotClusters fs s)).take (V.entry s).size

/-- The live slot of the file with a name. -/
def View.fileSlot (fs : Fs) (V : View) (l : List ℕ) (w : Name83) : Option Slot :=
  (V.findSlot fs l w).filter fun s => !(V.entry s).isDirectory

/-- What the file with a name holds, `none` if there is no such file. -/
def View.contents (fs : Fs) (V : View) (l : List ℕ) (w : Name83) : Option (List UInt8) :=
  (V.fileSlot fs l w).map (V.fileBytes fs)

/-- What a name of the root directory stands for. -/
inductive Node where
  | directory
  | file (bytes : List UInt8)
  deriving DecidableEq, Repr

/-- The bytes of a file; a directory has none. -/
def Node.bytes : Node → Option (List UInt8)
  | .directory => none
  | .file bytes => some bytes

/-- What a name stands for, `none` if it is absent. -/
def View.node (fs : Fs) (V : View) (l : List ℕ) (w : Name83) : Option Node :=
  (V.findSlot fs l w).map fun s =>
    if (V.entry s).isDirectory then .directory else .file (V.fileBytes fs s)

lemma contents_eq {fs : Fs} {V : View} {l : List ℕ} {w : Name83} :
    V.contents fs l w = (V.node fs l w).bind Node.bytes := by
  rw [View.contents, View.fileSlot, View.node]
  cases V.findSlot fs l w with
  | none => rfl
  | some s => cases hd : (V.entry s).isDirectory <;> simp [hd, Node.bytes, Option.filter]

lemma mem_of_fileSlot {fs : Fs} {V : View} {l : List ℕ} {w : Name83} {s : Slot}
    (h : V.fileSlot fs l w = some s) :
    s ∈ V.liveSlots fs l ∧ (V.entry s).isDirectory = false := by
  obtain ⟨h1, h2⟩ := Option.filter_eq_some_iff.mp h
  exact ⟨List.mem_of_find?_eq_some h1, by simpa using h2⟩

/-- The root directory can be walked along `l`, and the files in it have chains
that hold their bytes. -/
structure Readable (fs : Fs) (V : View) (l : List ℕ) : Prop where
  walk : Walk fs V fs.rootCluster l
  root : InRange fs fs.rootCluster
  short : l.length ≤ fs.totalClusters
  file : ∀ s ∈ V.liveSlots fs l, (V.entry s).isDirectory = false → (V.entry s).size ≠ 0 →
    InRange fs (direntFirstCluster (V.entry s)) ∧
      Chain (V.link fs) (direntFirstCluster (V.entry s)) (V.slotClusters fs s) ∧
      (V.entry s).size ≤ (V.slotClusters fs s).length * fs.bytesPerCluster

lemma Readable.fileBytes_length {fs : Fs} {V : View} {l : List ℕ} {s : Slot}
    (h : Readable fs V l) (hs : s ∈ V.liveSlots fs l) (hd : (V.entry s).isDirectory = false) :
    (V.fileBytes fs s).length = (V.entry s).size := by
  rw [View.fileBytes, List.length_take, chainBytes_length]
  by_cases h0 : (V.entry s).size = 0
  · rw [h0, Nat.zero_min]
  · exact Nat.min_eq_left (h.file s hs hd h0).2.2

section Reading

variable {fs : Fs} (g : Geometry fs) {V : View} {l : List ℕ} {v : Vol}

include g

/-- `lookup_root_file` finds the entry of a file. -/
lemma reads_lookupRootFile (h : Readable fs V l) (hV : view fs v.disk = V) (name : List UInt8) :
    Act.Reads (lookupRootFile fs name) v
      (((nameTo83 name).bind (V.fileSlot fs l)).map V.entry) := by
  rw [lookupRootFile]
  cases nameTo83 name with
  | none => exact Act.Reads.fail _
  | some w =>
    refine (reads_walkDirectory g h.walk h.root hV h.short).bind ?_
    rw [Option.bind_some, View.fileSlot]
    cases V.findSlot fs l w with
    | none => exact Act.Reads.fail _
    | some s =>
      rw [Option.filter_some]
      cases hd : (V.entry s).isDirectory with
      | true => simpa [hd] using Act.Reads.fail v
      | false => simpa [hd] using Act.Reads.pure (V.entry s) v

/-- A lookup fails, or finds the entry of a file that the directory has. -/
lemma reads_lookup_or (h : Readable fs V l) (hV : view fs v.disk = V) (name : List UInt8) :
    Act.Reads (lookupRootFile fs name) v none ∧ (nameTo83 name).bind (V.contents fs l) = none ∨
      ∃ s ∈ V.liveSlots fs l, (V.entry s).isDirectory = false ∧
        Act.Reads (lookupRootFile fs name) v (some (V.entry s)) ∧
        (nameTo83 name).bind (V.contents fs l) = some (V.fileBytes fs s) := by
  have hlook := reads_lookupRootFile g h hV name
  have hcont : (nameTo83 name).bind (V.contents fs l) =
      ((nameTo83 name).bind (V.fileSlot fs l)).map (V.fileBytes fs) := Option.map_bind.symm
  rw [hcont]
  cases hs : (nameTo83 name).bind (V.fileSlot fs l) with
  | none =>
    rw [hs] at hlook
    exact .inl ⟨hlook, rfl⟩
  | some s =>
    rw [hs] at hlook
    obtain ⟨w, -, hw⟩ := Option.bind_eq_some_iff.mp hs
    obtain ⟨hlive, hd⟩ := mem_of_fileSlot hw
    exact .inr ⟨s, hlive, hd, hlook, rfl⟩

/-- `fat32_stat` reports the length of the contents. -/
theorem reads_fat32Stat (h : Readable fs V l) (hV : view fs v.disk = V) (name : List UInt8) :
    Act.Reads (fat32Stat fs name) v
      (((nameTo83 name).bind (V.contents fs l)).map List.length) := by
  obtain ⟨hlook, hcont⟩ | ⟨s, hlive, hd, hlook, hcont⟩ := reads_lookup_or g h hV name
  · rw [hcont]
    exact hlook.bind_none
  · rw [hcont, Option.map_some, h.fileBytes_length hlive hd]
    exact hlook.bind (Act.Reads.pure _ _)

/-- The clusters of a file deliver its bytes. -/
lemma Readable.delivers (h : Readable fs V l) (hV : view fs v.disk = V) {s : Slot}
    (hs : s ∈ V.liveSlots fs l) (hd : (V.entry s).isDirectory = false) :
    Delivers fs (asRead fs v.disk) (direntFirstCluster (V.entry s)) (fs.totalClusters + 1)
      (V.entry s).size (V.fileBytes fs s) := by
  subst hV
  by_cases h0 : ((view fs v.disk).entry s).size = 0
  · rw [View.fileBytes, h0, List.take_zero]
    exact (delivers_zero g.mounted).mpr rfl
  · obtain ⟨hr, hch, hsize⟩ := h.file s hs hd h0
    have hshort := length_le_total hch.nodup (chain_inRange hch hr)
    exact .of_chain g hch hr hsize (by omega)

/-- `fat32_read_file` delivers the contents, if they fit the buffer. -/
theorem reads_fat32ReadFile (h : Readable fs V l) (hV : view fs v.disk = V) (name : List UInt8)
    (bufsize : ℕ) :
    Act.Reads (fat32ReadFile fs name bufsize) v
      (((nameTo83 name).bind (V.contents fs l)).filter fun bytes => bytes.length ≤ bufsize) := by
  obtain ⟨hlook, hcont⟩ | ⟨s, hlive, hd, hlook, hcont⟩ := reads_lookup_or g h hV name
  · rw [hcont]
    exact hlook.bind_none
  · obtain ⟨res, hres, hiff⟩ := exists_reads_fat32ReadFile g.mounted hlook bufsize
    rw [hcont, Option.filter_some, h.fileBytes_length hlive hd]
    by_cases hfits : (V.entry s).size ≤ bufsize
    · rw [if_pos (by simpa using hfits),
        ← (hiff _).mpr ⟨_, rfl, hfits, h.delivers g hV hlive hd⟩]
      exact hres
    · have hnone : res = none := by
        refine Option.eq_none_iff_forall_ne_some.mpr fun bytes hb => ?_
        obtain ⟨entry, hentry, hle, -⟩ := (hiff bytes).mp hb
        exact hfits (Option.some.inj hentry ▸ hle)
      rw [if_neg (by simpa using hfits), ← hnone]
      exact hres

end Reading

end TownOS
