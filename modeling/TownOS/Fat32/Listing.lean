import TownOS.Fat32.Names

/-!
Listing the root directory (`fat32_list_names`, `fat32_name_sink_add`).

The walk visits the entries of the directory in order and appends each name to the buffer if
it fits. A name that does not fit is skipped, and the walk goes on: a shorter name after it
may still fit, and then the buffer does not hold the first names of the directory.

* `rootNames`: the names the walk visits, in directory order;
* `fat32ListNames_eq`: the listing puts those names into the sink, one after the other;
* `reads_rootNames`: on a readable volume they are the names of the live slots;
* `leadingCount`: the largest number of leading names that fits;
* `listing_leading_iff`: the buffer holds that many leading names exactly if none of the others
  fits into the room that is left.
-/

namespace TownOS

open Durable Bytes

/-! ### The names the walk visits -/

/-- The entry loop of `walk_directory` without a buffer: whether it is `done`, and the names
of the entries it visits. -/
def entryNames (clusterBuf : Buf) : ℕ → ℕ → Bool × List (List UInt8)
  | 0, _ => (false, [])
  | n + 1, i =>
    let entry := direntAt clusterBuf i
    if entry 0 = direntFree then (true, [])
    else if entry 0 = direntDeleted ∨ !direntIsUsable entry then entryNames clusterBuf n (i + 1)
    else
      ((entryNames clusterBuf n (i + 1)).1,
        nameFrom83 entry.name :: (entryNames clusterBuf n (i + 1)).2)

/-- The cluster loop of `walk_directory` without a buffer. -/
def namesLoop (fs : Fs) : ℕ → ℕ → Act Vol (List (List UInt8))
  | 0, _ => .fail
  | n + 1, cluster => do
      let clusterBuf ← readCluster fs cluster
      match entryNames clusterBuf (entriesPerCluster fs) 0 with
      | (true, names) => pure names
      | (false, names) =>
        match ← fat32NextCluster fs cluster with
        | none => pure names
        | some next => do
            let more ← namesLoop fs n next
            pure (names ++ more)

/-- The display names of the root directory, in directory order. -/
def rootNames (fs : Fs) : Act Vol (List (List UInt8)) := do
  kmalloc
  namesLoop fs (fs.totalClusters + 1) fs.rootCluster

/-- Names put into an empty buffer, one after the other. -/
def collectNames (bufsize : ℕ) (names : List (List UInt8)) : NameSink :=
  names.foldl fat32NameSinkAdd ⟨[], bufsize, 0⟩

lemma walkEntries_none (buf : Buf) (n i : ℕ) (sink : NameSink) :
    walkEntries buf none n i sink = ((entryNames buf n i).1, none,
      (entryNames buf n i).2.foldl fat32NameSinkAdd sink) := by
  induction n generalizing i sink with
  | zero => rfl
  | succ n ih =>
    rw [walkEntries, entryNames, ih, ih]
    split_ifs <;> first | rfl | (exfalso; simp_all)

lemma walkLoop_none (fs : Fs) (n a : ℕ) (sink : NameSink) :
    walkLoop fs none n a sink =
      namesLoop fs n a >>= fun names => pure (none, names.foldl fat32NameSinkAdd sink) := by
  induction n generalizing a sink with
  | zero => rfl
  | succ n ih =>
    rw [walkLoop, namesLoop, bind_assoc]
    refine congrArg _ (funext fun buf => ?_)
    rw [walkEntries_none]
    rcases entryNames buf (entriesPerCluster fs) 0 with ⟨_ | _, names⟩
    · dsimp only
      rw [bind_assoc]
      refine congrArg _ (funext fun r => ?_)
      cases r with
      | none => rfl
      | some next =>
        dsimp only
        rw [ih, bind_assoc]
        refine congrArg _ (funext fun more => ?_)
        rw [pure_bind, List.foldl_append]
    · rfl

/-- A listing puts the names it visits into the buffer. -/
lemma fat32ListNames_eq (fs : Fs) {bufsize : ℕ} (h : bufsize ≠ 0) :
    fat32ListNames fs bufsize = rootNames fs >>= fun names =>
      pure ((collectNames bufsize names).text, (collectNames bufsize names).count) := by
  rw [fat32ListNames, if_neg h, walkDirectory, rootNames, bind_assoc, bind_assoc]
  refine congrArg _ (funext fun _ => ?_)
  rw [walkLoop_none, bind_assoc]
  rfl

section Walking

variable {fs : Fs} (g : Geometry fs) {V : View} {a : ℕ} {l : List ℕ}

/-- The name of the entry in a slot, for display. -/
def View.display (V : View) (s : Slot) : List UInt8 := nameFrom83 (V.entry s).name

lemma entryNames_eq (V : View) (c n i : ℕ) :
    entryNames (V.data c) n i =
      (((List.range' i n).map fun j => ((c, j) : Slot)).any V.ends,
        (Slots.live V.ends V.used ((List.range' i n).map fun j => (c, j))).map V.display) := by
  induction n generalizing i with
  | zero => rfl
  | succ n ih =>
    have hentry : direntAt (V.data c) i = V.entry (c, i) := rfl
    rw [entryNames, List.range'_succ, List.map_cons, Slots.live_cons, List.any_cons, hentry, ih]
    by_cases hends : V.ends (c, i) = true
    · rw [if_pos (ends_iff.mp hends), if_pos hends, hends]
      rfl
    · have hfree := mt ends_iff.mpr hends
      have hfalse : V.ends (c, i) = false := Bool.eq_false_iff.mpr hends
      rw [if_neg hfree, if_neg hends, hfalse, Bool.false_or]
      by_cases hused : V.used (c, i) = true
      · obtain ⟨hdel, hok⟩ := used_iff.mp hused
        rw [if_neg (by simp [hdel, hok]), if_pos hused]
        rfl
      · have hskip :
            V.entry (c, i) 0 = direntDeleted ∨ (!direntIsUsable (V.entry (c, i))) = true := by
          by_contra hno
          exact hused (used_iff.mpr (by simpa using hno))
        rw [if_pos hskip, if_neg hused]

include g in
/-- The cluster loop, along a directory that can be walked. -/
lemma reads_namesLoop {v : Vol} {n : ℕ} (h : Walk fs V a l) (ha : InRange fs a)
    (hV : view fs v.disk = V) (hn : l.length ≤ n) :
    Act.Reads (namesLoop fs n a) v (some ((V.liveSlots fs l).map V.display)) := by
  have hone : ∀ c, slotsOf fs [c] = clusterSlots fs c := fun c => by simp [slotsOf]
  have hcluster : ∀ c, entryNames (V.data c) (entriesPerCluster fs) 0 =
      ((clusterSlots fs c).any V.ends,
        (Slots.live V.ends V.used (clusterSlots fs c)).map V.display) :=
    fun c => entryNames_eq V c _ 0
  induction h generalizing n with
  | @stop a hs =>
    obtain ⟨m, rfl⟩ : ∃ m, n = m + 1 := ⟨n - 1, by simp at hn; omega⟩
    rw [namesLoop, View.liveSlots, hone]
    refine (reads_readCluster g v ha).bind ?_
    rw [hV, hcluster]
    cases (clusterSlots fs a).any V.ends with
    | true => exact Act.Reads.pure _ _
    | false =>
      have hnext := reads_fat32NextCluster g v ha
      rw [hV, hs] at hnext
      exact hnext.bind (Act.Reads.pure _ _)
  | @done a s hmem hend =>
    obtain ⟨m, rfl⟩ : ∃ m, n = m + 1 := ⟨n - 1, by simp at hn; omega⟩
    have hany : (clusterSlots fs a).any V.ends = true := List.any_eq_true.mpr ⟨s, hmem, hend⟩
    rw [namesLoop, View.liveSlots, hone]
    refine (reads_readCluster g v ha).bind ?_
    rw [hV, hcluster, hany]
    exact Act.Reads.pure _ _
  | @next a b l hb hl ih =>
    obtain ⟨m, rfl⟩ : ∃ m, n = m + 1 := ⟨n - 1, by simp at hn; omega⟩
    rw [namesLoop, View.liveSlots, slotsOf_cons]
    refine (reads_readCluster g v ha).bind ?_
    rw [hV, hcluster]
    cases hany : (clusterSlots fs a).any V.ends with
    | true =>
      rw [Slots.live_append_of_ends hany]
      exact Act.Reads.pure _ _
    | false =>
      have hno : ∀ s ∈ clusterSlots fs a, V.ends s = false := by simpa using hany
      have hnext := reads_fat32NextCluster g v ha
      rw [hV, hb] at hnext
      rw [Slots.live_append hno, ← Slots.live_of_not_ends hno, List.map_append]
      exact hnext.bind ((ih (View.fat_of_link_next hb).2 (by simp at hn; omega)).bind
        (Act.Reads.pure _ _))

include g in
/-- The names of a directory that can be walked are those of its live slots. -/
theorem reads_rootNames {v : Vol} (h : Readable fs V l) (hV : view fs v.disk = V) :
    Act.Reads (rootNames fs) v (some ((V.liveSlots fs l).map V.display)) :=
  (Act.reads_guard v).bind (reads_namesLoop g h.walk h.root hV (by have := h.short; omega))

end Walking

set_option maxRecDepth 100000 in
/-- A volume with one file. -/
theorem reads_rootNames_oneFileVolume : WellFormed smallFs oneFileVolume ∧
    Act.Reads (rootNames smallFs) oneFileVolume
      (some (((view smallFs oneFileVolume.disk).liveSlots smallFs
        ((view smallFs oneFileVolume.disk).rootClusters smallFs)).map
          (view smallFs oneFileVolume.disk).display)) := by
  have hwf : WellFormed smallFs oneFileVolume := by decide
  exact ⟨hwf, reads_rootNames hwf.1 hwf.2.readable rfl⟩

/-! ### What fits -/

/-- A name as it is put into the buffer: up to a NUL, with a newline. -/
def line (display : List UInt8) : List UInt8 := display.takeWhile (· ≠ 0) ++ [0x0A]

/-- Names as they are put into the buffer. -/
def linesOf (names : List (List UInt8)) : List UInt8 := (names.map line).flatten

/-- The first `k` names fit, with a terminator. -/
def Fits (bufsize : ℕ) (names : List (List UInt8)) (k : ℕ) : Prop :=
  (linesOf (names.take k)).length < bufsize

instance (bufsize : ℕ) (names : List (List UInt8)) : DecidablePred (Fits bufsize names) :=
  fun _ => inferInstanceAs (Decidable (_ < _))

/-- The largest number of leading names that fits. -/
def leadingCount (bufsize : ℕ) (names : List (List UInt8)) : ℕ :=
  Nat.findGreatest (Fits bufsize names) names.length

/-- The listing is the longest prefix of the names that fits: the text, with room for a
terminator, and the number of names. -/
structure IsLeading (bufsize : ℕ) (names : List (List UInt8)) (text : List UInt8) (count : ℕ) :
    Prop where
  holds : text = linesOf (names.take count)
  bounded : count ≤ names.length
  terminated : text.length < bufsize
  longest : ∀ k ≤ names.length, Fits bufsize names k → k ≤ count

/-- No name after the leading ones fits into the room they leave, in the 32-bit arithmetic of
the sink. -/
def TailTooLong (bufsize : ℕ) (names : List (List UInt8)) : Prop :=
  ∀ name ∈ names.drop (leadingCount bufsize names),
    bufsize < u32 ((linesOf (names.take (leadingCount bufsize names))).length +
      (name.takeWhile (· ≠ 0)).length + 2)

instance (bufsize : ℕ) (names : List (List UInt8)) : Decidable (TailTooLong bufsize names) :=
  inferInstanceAs (Decidable (∀ _ ∈ _, _ < _))

section Leading

variable {bufsize k : ℕ} {names : List (List UInt8)} {sink : NameSink}

/-- Names that fit are put into the buffer. -/
lemma foldl_sink_fits (hsize : sink.size < 2 ^ 32)
    (hfit : sink.text.length + (linesOf names).length < sink.size) :
    names.foldl fat32NameSinkAdd sink =
      { sink with text := sink.text ++ linesOf names, count := sink.count + names.length } := by
  induction names generalizing sink with
  | nil => simp [linesOf]
  | cons name names ih =>
    have hlines : linesOf (name :: names) = line name ++ linesOf names := rfl
    have hline : (line name).length = (name.takeWhile (· ≠ 0)).length + 1 := by simp [line]
    rw [hlines, List.length_append] at hfit
    have hadd : fat32NameSinkAdd sink name =
        { sink with text := sink.text ++ line name, count := sink.count + 1 } := by
      rw [fat32NameSinkAdd, u32_of_lt (by omega), if_neg (by omega), line, List.append_assoc]
    rw [List.foldl_cons, hadd]
    generalize hs : (⟨sink.text ++ line name, sink.size, sink.count + 1⟩ : NameSink) = s
    have hsize' : s.size < 2 ^ 32 := hs ▸ hsize
    refine (ih hsize' ?_).trans ?_
    · rw [← hs, List.length_append]
      dsimp only
      omega
    · rw [← hs, hlines, List.append_assoc, List.length_cons, Nat.add_assoc, Nat.add_comm 1]

/-- The names that are dropped leave the buffer as it is. -/
lemma foldl_sink_dropped (h : ∀ name ∈ names,
    sink.size < u32 (sink.text.length + (name.takeWhile (· ≠ 0)).length + 2)) :
    names.foldl fat32NameSinkAdd sink = sink := by
  induction names with
  | nil => rfl
  | cons name names ih =>
    rw [List.foldl_cons, fat32NameSinkAdd, if_pos (h name (by simp))]
    exact ih fun n hn => h n (by simp [hn])

lemma count_le_foldl (names : List (List UInt8)) (sink : NameSink) :
    sink.count ≤ (names.foldl fat32NameSinkAdd sink).count := by
  induction names generalizing sink with
  | nil => exact le_rfl
  | cons name names ih =>
    refine le_trans ?_ (ih _)
    rw [fat32NameSinkAdd]
    split_ifs
    · exact le_rfl
    · exact Nat.le_succ _

lemma count_lt_foldl (sink : NameSink) (h : ¬ ∀ name ∈ names,
    sink.size < u32 (sink.text.length + (name.takeWhile (· ≠ 0)).length + 2)) :
    sink.count < (names.foldl fat32NameSinkAdd sink).count := by
  induction names with
  | nil => simp at h
  | cons name names ih =>
    rw [List.foldl_cons]
    by_cases hdrop : sink.size < u32 (sink.text.length + (name.takeWhile (· ≠ 0)).length + 2)
    · rw [fat32NameSinkAdd, if_pos hdrop]
      refine ih fun hrest => h fun n hn => ?_
      rcases List.mem_cons.mp hn with rfl | hn
      · exact hdrop
      · exact hrest n hn
    · refine lt_of_lt_of_le ?_ (count_le_foldl names _)
      rw [fat32NameSinkAdd, if_neg hdrop]
      exact Nat.lt_succ_self _

lemma collectNames_eq (hsize : bufsize < 2 ^ 32) (hpos : 0 < bufsize) :
    Fits bufsize names (leadingCount bufsize names) ∧
    leadingCount bufsize names ≤ names.length ∧
    collectNames bufsize names = (names.drop (leadingCount bufsize names)).foldl fat32NameSinkAdd
      ⟨linesOf (names.take (leadingCount bufsize names)), bufsize, leadingCount bufsize names⟩ := by
  have hfit : Fits bufsize names (leadingCount bufsize names) :=
    Nat.findGreatest_spec (Nat.zero_le _) (by simpa [Fits, linesOf] using hpos)
  have hle : leadingCount bufsize names ≤ names.length := Nat.findGreatest_le _
  refine ⟨hfit, hle, ?_⟩
  generalize leadingCount bufsize names = k at hfit hle
  have hsplit : names.foldl fat32NameSinkAdd ⟨[], bufsize, 0⟩ = (names.drop k).foldl
      fat32NameSinkAdd ((names.take k).foldl fat32NameSinkAdd ⟨[], bufsize, 0⟩) := by
    rw [← List.foldl_append, List.take_append_drop]
  have hfirst : (names.take k).foldl fat32NameSinkAdd ⟨[], bufsize, 0⟩ =
      ⟨linesOf (names.take k), bufsize, k⟩ := by
    refine (foldl_sink_fits hsize ?_).trans ?_
    · rw [List.length_nil, Nat.zero_add]
      exact hfit
    · rw [List.nil_append, Nat.zero_add, List.length_take_of_le hle]
  rw [collectNames, hsplit, hfirst]

/-- **The buffer holds the longest prefix of the names that fits**, exactly if no name after
it fits into the room that is left: whatever the directory, when `fat32_list_names` returns 0
for a buffer. -/
theorem listing_leading_iff {fs : Fs} {v : Vol} {fl : List Bool} (hsize : bufsize < 2 ^ 32)
    (hpos : 0 < bufsize) {text : List UInt8} {count : ℕ}
    (hlist : ((fat32ListNames fs bufsize).run v fl).value = some (text, count)) :
    ∃ names, ((rootNames fs).run v fl).value = some names ∧
      (IsLeading bufsize names text count ↔ TailTooLong bufsize names) := by
  rw [fat32ListNames_eq fs hpos.ne', Act.run_bind] at hlist
  cases hnames : ((rootNames fs).run v fl).value with
  | none =>
    rw [hnames] at hlist
    cases hlist
  | some names =>
    rw [hnames] at hlist
    have hpair := Option.some.inj hlist
    obtain ⟨rfl, rfl⟩ := Prod.mk.inj hpair
    obtain ⟨hfit, hle, heq⟩ : Fits bufsize names _ ∧ _ := collectNames_eq hsize hpos
    refine ⟨names, rfl, fun h => ?_, fun h => ?_⟩
    · by_contra hshort
      rw [TailTooLong] at hshort
      have hlt := count_lt_foldl
        ⟨linesOf (names.take (leadingCount bufsize names)), bufsize, leadingCount bufsize names⟩
        hshort
      have hk := h.longest _ hle hfit
      have hmax : (collectNames bufsize names).count ≤ leadingCount bufsize names := by
        refine Nat.le_findGreatest h.bounded ?_
        have hterm := h.terminated
        rw [h.holds] at hterm
        exact hterm
      rw [heq] at hmax
      exact absurd hlt (not_lt.mpr hmax)
    · have hdrop : (names.drop (leadingCount bufsize names)).foldl fat32NameSinkAdd
          ⟨linesOf (names.take (leadingCount bufsize names)), bufsize, leadingCount bufsize names⟩ =
          _ := foldl_sink_dropped h
      rw [heq, hdrop]
      exact ⟨rfl, hle, hfit, fun k hk hkfit => Nat.le_findGreatest hk hkfit⟩

end Leading

/-- A root directory with the names `LONGNAME.TXT` and `A`, both empty files. -/
def twoNamesVolume : Vol :=
  smallVolume (fun c => if c = 2 then 0x0FFFFFFF else 0) fun i =>
    if i < 32 then (newDirent (fun k => [0x4C, 0x4F, 0x4E, 0x47, 0x4E, 0x41, 0x4D, 0x45, 0x54, 0x58,
      0x54].getD k.val 0) 0 0).byte i
    else (newDirent nameA 0 0).byte (i - 32)

set_option maxRecDepth 100000 in
/-- A large buffer holds both names. -/
theorem listing_leading_iff_twoNamesVolume :
    ∃ names, ((rootNames smallFs).run twoNamesVolume []).value = some names ∧ names.length = 2 ∧
      IsLeading 64 names (linesOf names) 2 := by
  have hlist : ((fat32ListNames smallFs 64).run twoNamesVolume []).value =
      some ([0x4C, 0x4F, 0x4E, 0x47, 0x4E, 0x41, 0x4D, 0x45, 0x2E, 0x54, 0x58, 0x54, 0x0A, 0x41,
        0x0A], 2) := by decide +kernel
  have hroot : ((rootNames smallFs).run twoNamesVolume []).value =
      some [[0x4C, 0x4F, 0x4E, 0x47, 0x4E, 0x41, 0x4D, 0x45, 0x2E, 0x54, 0x58, 0x54], [0x41]] := by
    decide +kernel
  obtain ⟨names, hnames, hiff⟩ := listing_leading_iff (by decide) (by decide) hlist
  obtain rfl := Option.some.inj (hnames.symm.trans hroot)
  exact ⟨_, hroot, rfl, hiff.mpr (by decide)⟩

set_option maxRecDepth 100000 in
/-- In a buffer of eight bytes `LONGNAME.TXT` does not fit, but `A` after it does: the buffer
holds a name that is not the first one. -/
theorem listing_not_leading :
    ∃ names, ((rootNames smallFs).run twoNamesVolume []).value = some names ∧
      ((fat32ListNames smallFs 8).run twoNamesVolume []).value = some ([0x41, 0x0A], 1) ∧
      ¬ IsLeading 8 names [0x41, 0x0A] 1 := by
  refine ⟨[[0x4C, 0x4F, 0x4E, 0x47, 0x4E, 0x41, 0x4D, 0x45, 0x2E, 0x54, 0x58, 0x54], [0x41]],
    by decide +kernel, by decide +kernel, fun h => ?_⟩
  exact absurd h.holds (by decide)

end TownOS
