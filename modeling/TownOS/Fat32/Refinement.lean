import TownOS.Fat32.Calls
import TownOS.Foundations.Runs

/-!
The FAT32 layer as a finite map from 8.3 names to byte strings.

The abstract file system is a `Finmap`; a name may also stand for a directory,
which no call reads or replaces. Its calls are steps of a machine that knows
nothing of clusters; the one thing it is told is whether a write runs out of room.

* `fileMap`: the map a volume stands for;
* `exec_refines`: without disk or heap failures each call on a well-formed volume
  answers as the map does, and leaves a volume that stands for the map after it;
* `exec_run_refines`: so does every sequence of calls.
-/

namespace TownOS

open Durable Bytes Linked

/-- The abstract file system. -/
abbrev FileMap : Type := Finmap fun _ : Name83 => Node

/-- The calls of the FAT32 layer. -/
inductive Call where
  | write (name buf : List UInt8)
  | delete (name : List UInt8)
  | read (name : List UInt8) (bufsize : ℕ)
  | stat (name : List UInt8)
  deriving DecidableEq, Repr

/-- What a call returns: `-1`, `0`, the bytes read, or a size. -/
inductive Reply where
  | failed
  | done
  | bytes (bytes : List UInt8)
  | size (n : ℕ)
  deriving DecidableEq, Repr

/-! ### The map -/

namespace FileMap

/-- The bytes of the file with a name as the user writes it. -/
def contents (M : FileMap) (name : List UInt8) : Option (List UInt8) :=
  (nameTo83 name).bind fun w => (M.lookup w).bind Node.bytes

/-- A write: refused for a name that is not 8.3 or names a directory, and when
there is no room. -/
def write (M : FileMap) (name buf : List UInt8) (noRoom : Bool) : Reply × FileMap :=
  match nameTo83 name with
  | none => (.failed, M)
  | some w =>
    if M.lookup w = some .directory then (.failed, M)
    else if noRoom then (.failed, M)
    else (.done, M.insert w (.file buf))

/-- A deletion: refused unless the name names a file. -/
def delete (M : FileMap) (name : List UInt8) : Reply × FileMap :=
  match nameTo83 name with
  | none => (.failed, M)
  | some w => if ((M.lookup w).bind Node.bytes).isSome then (.done, M.erase w) else (.failed, M)

/-- One call, with the answer to whether a write runs out of room. -/
def step : Call × Bool → FileMap → Reply × FileMap
  | (.write name buf, noRoom), M => M.write name buf noRoom
  | (.delete name, _), M => M.delete name
  | (.read name bufsize, _), M =>
    (((M.contents name).filter fun bytes => bytes.length ≤ bufsize).elim .failed .bytes, M)
  | (.stat name, _), M => ((M.contents name).elim .failed fun bytes => .size bytes.length, M)

end FileMap

/-! ### The calls on a volume -/

/-- A call of the FAT32 layer without failures. -/
def exec (fs : Fs) : Call → Vol → Reply × Vol
  | .write name buf, v =>
    let o := (fat32WriteFile fs name buf).run v []
    (o.value.elim .failed fun _ => .done, o.state)
  | .delete name, v =>
    let o := (fat32Delete fs name).run v []
    (o.value.elim .failed fun _ => .done, o.state)
  | .read name bufsize, v =>
    let o := (fat32ReadFile fs name bufsize).run v []
    (o.value.elim .failed .bytes, o.state)
  | .stat name, v =>
    let o := (fat32Stat fs name).run v []
    (o.value.elim .failed .size, o.state)

/-- The entries of a directory, by name. -/
def View.fileMap (fs : Fs) (V : View) (l : List ℕ) : FileMap :=
  ((V.liveSlots fs l).map fun s => (⟨(V.entry s).name,
    if (V.entry s).isDirectory then Node.directory else Node.file (V.fileBytes fs s)⟩ :
      Sigma fun _ : Name83 => Node)).toFinmap

/-- The map a volume stands for. -/
def fileMap (fs : Fs) (v : Vol) : FileMap :=
  (view fs v.disk).fileMap fs ((view fs v.disk).rootClusters fs)

/-- Too few clusters are free for a write: for its data, and for the cluster the
root directory has to grow by when the name is new and no slot can be reused. -/
def outOfRoom (fs : Fs) (c : Call) (v : Vol) : Bool :=
  match c with
  | .write name buf => (nameTo83 name).any fun w =>
    decide (NoRoom fs (view fs v.disk) ((view fs v.disk).rootClusters fs) w buf.length)
  | _ => false

/-- A write of a name of 7-bit characters, with `len` far enough from `2³²` for the
rounding in `alloc_chain`; any other call. -/
def Call.Fits (fs : Fs) : Call → Prop
  | .write name buf => (∀ c ∈ name, c < 0x80) ∧ buf.length + fs.bytesPerCluster ≤ 2 ^ 32
  | _ => True

/-- A write of a name that is not stored with the deleted marker in front, with `len` far
enough from `2³²`; any other call. -/
def Call.Seen (fs : Fs) : Call → Prop
  | .write name buf =>
    (∀ w, nameTo83 name = some w → w 0 ≠ direntDeleted) ∧
      buf.length + fs.bytesPerCluster ≤ 2 ^ 32
  | _ => True

/-- A write with `len` far enough from `2³²`; any other call. -/
def Call.Short (fs : Fs) : Call → Prop
  | .write _ buf => buf.length + fs.bytesPerCluster ≤ 2 ^ 32
  | _ => True

/-- `6 MB`, the size of the ring-3 region a caller's buffer lies in. -/
def userBytes : ℕ := 6 * 2 ^ 20

/-- A call as the callers make it: file names of 7-bit characters, and a buffer
inside the ring-3 region. -/
def Call.Legal : Call → Prop
  | .write name buf => (∀ c ∈ name, c < 0x80) ∧ buf.length ≤ userBytes
  | _ => True

/-! ### Refinement -/

section Lookup

variable {fs : Fs} {V X : View} {l k : List ℕ} {w : Name83} {v x : Vol}

/-- The map has under each name what the name stands for. -/
lemma lookup_fileMap : (V.fileMap fs l).lookup w = V.node fs l w := by
  rw [View.fileMap, Finmap.dlookup_list_toFinmap, View.node, View.findSlot]
  induction V.liveSlots fs l with
  | nil => rfl
  | cons s t ih =>
    rw [List.map_cons]
    by_cases hs : (V.entry s).name = w
    · have hn : V.named w s = true := by simp [View.named, nameEquals83, hs]
      subst hs
      rw [List.find?_cons_of_pos hn, Option.map_some, List.dlookup_cons_eq]
    · have hn : ¬V.named w s = true := by simpa [View.named, nameEquals83] using hs
      rw [List.find?_cons_of_neg hn, List.dlookup_cons_ne _ _ fun he => hs he.symm, ih]

/-- The map of a well-formed volume, by any name of its root chain. -/
lemma lookup_of_formed (hx : Formed fs (view fs x.disk) k) :
    (fileMap fs x).lookup w = (view fs x.disk).node fs k w := by
  rw [fileMap, hx.rootClusters_eq, lookup_fileMap]

lemma fileMap_eq (hx : Formed fs (view fs x.disk) k) {M : FileMap}
    (hM : ∀ w, (view fs x.disk).node fs k w = M.lookup w) : fileMap fs x = M :=
  Finmap.ext_lookup fun w => by rw [lookup_of_formed hx, hM]

end Lookup

section Steps

variable {fs : Fs} {v : Vol} {name buf : List UInt8}

/-- A buffer of the ring-3 region is far enough from `2³²`. -/
lemma Call.Legal.fits (g : Geometry fs) {c : Call} (h : c.Legal) : c.Fits fs := by
  cases c with
  | write name buf =>
    refine ⟨h.1, ?_⟩
    have h1 := g.cluster_le
    have h2 := g.bytesPerCluster
    have h3 := h.2
    rw [userBytes] at h3
    omega
  | _ => trivial

lemma Call.Fits.seen {c : Call} (h : c.Fits fs) : c.Seen fs := by
  cases c with
  | write name buf => exact ⟨fun w hw => nameTo83_ne_deleted hw h.1, h.2⟩
  | _ => trivial

lemma Call.Seen.short {c : Call} (h : c.Seen fs) : c.Short fs := by
  cases c with
  | write name buf => exact h.2
  | _ => trivial

/-- A write leaves a well-formed volume, whatever the name. -/
lemma exec_write_wellFormed (h : WellFormed fs v)
    (hlen : buf.length + fs.bytesPerCluster ≤ 2 ^ 32) :
    WellFormed fs (exec fs (.write name buf) v).2 := by
  obtain ⟨g, hf⟩ := h
  have hspec := does_fat32WriteFile g True hf rfl hlen name [] fun _ => rfl
  rw [exec]
  cases hval : ((fat32WriteFile fs name buf).run v []).value with
  | some u =>
    obtain ⟨w, hw, hdir, hwritten⟩ := hspec.value u hval
    obtain ⟨k, hk, -⟩ := hwritten.shows
    exact ⟨g, hk.rootClusters_eq ▸ hk⟩
  | none =>
    rcases hspec.none hval with ⟨hx, -⟩ | ⟨w, hw, hdir, hun⟩
    · rw [hx]
      exact ⟨g, hf⟩
    · obtain ⟨-, k, hk, -⟩ := hun.calm trivial
      exact ⟨g, hk.rootClusters_eq ▸ hk⟩

/-- A write answers as the map does. -/
lemma exec_write_refines (h : WellFormed fs v)
    (hseen : ∀ w, nameTo83 name = some w → w 0 ≠ direntDeleted)
    (hlen : buf.length + fs.bytesPerCluster ≤ 2 ^ 32) :
    WellFormed fs (exec fs (.write name buf) v).2 ∧
      (fileMap fs v).write name buf (outOfRoom fs (.write name buf) v) =
        ((exec fs (.write name buf) v).1, fileMap fs (exec fs (.write name buf) v).2) := by
  refine ⟨exec_write_wellFormed h hlen, ?_⟩
  obtain ⟨g, hf⟩ := h
  have hlook : ∀ w, (fileMap fs v).lookup w = (view fs v.disk).node fs _ w := fun w =>
    lookup_of_formed hf
  have hspec := does_fat32WriteFile g True hf rfl hlen name [] fun _ => rfl
  rw [exec]
  cases hval : ((fat32WriteFile fs name buf).run v []).value with
  | some u =>
    obtain ⟨w, hw, hdir, hwritten⟩ := hspec.value u hval
    obtain ⟨k, hk, hnode⟩ := hwritten.shows
    have hlive := hseen w hw
    have hroom : outOfRoom fs (.write name buf) v = false := by
      simpa [outOfRoom, hw] using hwritten.room
    rw [FileMap.write, hw, hroom]
    simp only [hlook, if_neg hdir, Bool.false_eq_true, if_false]
    refine Prod.ext rfl (fileMap_eq hk fun w' => ?_).symm
    rw [hnode, published, if_neg hlive]
    by_cases hww : w' = w
    · rw [hww, Function.update_self, Finmap.lookup_insert]
    · rw [Function.update_of_ne hww, Finmap.lookup_insert_of_ne _ hww, hlook]
  | none =>
    rcases hspec.none hval with ⟨hx, hd⟩ | ⟨w, hw, hdir, hun⟩
    · rw [hx, FileMap.write]
      cases hname : nameTo83 name with
      | none => rfl
      | some w => simp only [hlook, if_pos (hd trivial w hname)]; rfl
    · obtain ⟨hno, k, hk, hnode, -, -⟩ := hun.calm trivial
      have hroom : outOfRoom fs (.write name buf) v = true := by
        simpa [outOfRoom, hw] using hno
      rw [FileMap.write, hw, hroom]
      simp only [hlook, if_neg hdir, if_true]
      refine Prod.ext rfl (fileMap_eq hk fun w' => ?_).symm
      rw [hnode, hlook]

lemma exec_delete_refines (h : WellFormed fs v) :
    WellFormed fs (exec fs (.delete name) v).2 ∧
      (fileMap fs v).delete name =
        ((exec fs (.delete name) v).1, fileMap fs (exec fs (.delete name) v).2) := by
  obtain ⟨g, hf⟩ := h
  have hlook : ∀ w, ((fileMap fs v).lookup w).bind Node.bytes =
      (view fs v.disk).contents fs _ w := fun w => by rw [lookup_of_formed hf, contents_eq]
  have hspec := does_fat32Delete g True hf rfl name [] fun _ => rfl
  rw [exec]
  cases hval : ((fat32Delete fs name).run v []).value with
  | some u =>
    obtain ⟨w, s, hw, hs, hview⟩ := hspec.value u hval
    obtain ⟨k, hk, hnode, -, -⟩ := hf.keeps_deleted (Option.filter_eq_some_iff.mp hs).1
    rw [← hview] at hk hnode
    refine ⟨⟨g, hk.rootClusters_eq ▸ hk⟩, ?_⟩
    rw [FileMap.delete, hw]
    simp only [hlook, View.contents, hs, Option.map_some, Option.isSome_some, if_true]
    refine Prod.ext rfl (fileMap_eq hk fun w' => ?_).symm
    rw [hnode]
    by_cases hww : w' = w
    · rw [hww, Function.update_self, Finmap.lookup_erase]
    · rw [Function.update_of_ne hww, Finmap.lookup_erase_ne hww, lookup_of_formed hf]
  | none =>
    obtain ⟨hx, hno⟩ := hspec.none hval trivial
    refine ⟨by rw [hx]; exact ⟨g, hf⟩, ?_⟩
    rw [hx, FileMap.delete]
    cases hname : nameTo83 name with
    | none => rfl
    | some w => simp [hlook, View.contents, hno w hname]

lemma contents_fileMap (h : WellFormed fs v) :
    (nameTo83 name).bind ((view fs v.disk).contents fs ((view fs v.disk).rootClusters fs)) =
      (fileMap fs v).contents name := by
  rw [FileMap.contents]
  refine congrArg (nameTo83 name).bind (funext fun w => ?_)
  rw [contents_eq, lookup_of_formed h.2]

/-- Reading answers as the map does and changes nothing. -/
lemma exec_read_eq (h : WellFormed fs v) {bufsize : ℕ} :
    exec fs (.read name bufsize) v =
      ((((fileMap fs v).contents name).filter fun bytes => bytes.length ≤ bufsize).elim
        .failed .bytes, v) := by
  have hread := reads_fat32ReadFile h.1 h.2.readable rfl name bufsize
  rw [contents_fileMap h] at hread
  rw [exec, hread.value_nil, hread.state]

lemma exec_stat_eq (h : WellFormed fs v) :
    exec fs (.stat name) v =
      (((fileMap fs v).contents name).elim .failed fun bytes => .size bytes.length, v) := by
  have hstat := reads_fat32Stat h.1 h.2.readable rfl name
  rw [contents_fileMap h] at hstat
  rw [exec, hstat.value_nil, hstat.state]
  cases (fileMap fs v).contents name <;> rfl

/-- Each call on a well-formed volume answers as the map does, and leaves a
well-formed volume that stands for the map after the call. -/
lemma exec_refines {c : Call} (hc : c.Seen fs) (h : WellFormed fs v) :
    WellFormed fs (exec fs c v).2 ∧
      FileMap.step (c, outOfRoom fs c v) (fileMap fs v) =
        ((exec fs c v).1, fileMap fs (exec fs c v).2) := by
  cases c with
  | write name buf => exact exec_write_refines h hc.1 hc.2
  | delete name => exact exec_delete_refines h
  | read name bufsize =>
    rw [exec_read_eq h]
    exact ⟨h, rfl⟩
  | stat name =>
    rw [exec_stat_eq h]
    exact ⟨h, rfl⟩

/-- **The FAT32 layer refines the finite map**: without disk or heap failures every
sequence of calls on a well-formed volume gets the answers the map gives, and
leaves a well-formed volume that stands for the map after the sequence. A write
that the map accepts fails exactly when too few clusters are free. -/
theorem exec_run_refines {calls : List Call} (h : WellFormed fs v) (hcalls : ∀ c ∈ calls, c.Legal) :
    WellFormed fs (Runs.run (exec fs) calls v).2 ∧
      Runs.run FileMap.step (Runs.labelled (exec fs) (outOfRoom fs) calls v) (fileMap fs v) =
        ((Runs.run (exec fs) calls v).1, fileMap fs (Runs.run (exec fs) calls v).2) :=
  have hstep : ∀ c v, Call.Seen fs c → WellFormed fs v → WellFormed fs (exec fs c v).2 :=
    fun _ _ hc hv => (exec_refines hc hv).1
  have hseen : ∀ c ∈ calls, c.Seen fs := fun c hc => ((hcalls c hc).fits h.1).seen
  ⟨Runs.run_invariant hstep hseen h,
    Runs.run_simulation hstep (fun _ _ hc hv => (exec_refines hc hv).2) hseen h⟩

end Steps

set_option maxRecDepth 100000 in
/-- A file is written to an empty volume, read back, and deleted. -/
theorem exec_run_refines_emptyVolume :
    WellFormed smallFs emptyVolume ∧
      Runs.run FileMap.step (Runs.labelled (exec smallFs) (outOfRoom smallFs)
          [.write [0x61] [1, 2, 3], .read [0x41] 3, .delete [0x41]] emptyVolume)
          (fileMap smallFs emptyVolume) =
        ((Runs.run (exec smallFs) [.write [0x61] [1, 2, 3], .read [0x41] 3, .delete [0x41]]
            emptyVolume).1,
          fileMap smallFs (Runs.run (exec smallFs)
            [.write [0x61] [1, 2, 3], .read [0x41] 3, .delete [0x41]] emptyVolume).2) :=
  ⟨by decide, (exec_run_refines (by decide) (by simp [Call.Legal, userBytes])).2⟩

end TownOS
