import TownOS.Fat32.Refinement

/-!
Cluster accounting over sequences of calls.

What is conserved is the set of lost clusters, in use but owned by nobody: each
call, also one that runs out of space half way, gives back every cluster it took
and did not publish (`exec_keeps`). So the free clusters and the clusters of all
chains add up to the same number throughout (`run_accounting`).
-/

namespace TownOS

open Durable Bytes Linked

/-- The clusters of the root directory and of all live entries. -/
def owned (fs : Fs) (v : Vol) : List ℕ :=
  (view fs v.disk).ownedBy fs ((view fs v.disk).rootClusters fs)

/-- The clusters in use that nobody owns. -/
def lost (fs : Fs) (v : Vol) : Finset ℕ :=
  (view fs v.disk).lostBy fs ((view fs v.disk).rootClusters fs)

/-- What `fat32_free_count` reports, without failures. -/
def freeCount (fs : Fs) (v : Vol) : Option ℕ := ((fat32FreeCount fs).run v []).value

/-- The name a call may change. -/
def Call.target : Call → Option Name83
  | .write name _ => nameTo83 name
  | .delete name => nameTo83 name
  | _ => none

/-- The name `w` has the same file on both volumes. -/
def Untouched (fs : Fs) (v u : Vol) (w : Name83) : Prop :=
  SameFile fs (view fs v.disk) ((view fs v.disk).rootClusters fs) (view fs u.disk)
    ((view fs u.disk).rootClusters fs) w

section Steps

variable {fs : Fs} {v u : Vol} {c : Call}

/-- A name with the deleted marker in front is never found. -/
lemma Formed.ne_deleted {V : View} {l : List ℕ} {w : Name83} {s : Slot} (h : Formed fs V l)
    (hs : V.findSlot fs l w = some s) : w 0 ≠ direntDeleted := by
  obtain ⟨hlive, hname⟩ := h.findSlot_eq_some.mp hs
  have hused := (Slots.mem_live hlive).2.2
  rw [View.used, Bool.and_eq_true, bne_iff_ne] at hused
  have hfirst : V.entry s 0 = w 0 := congrFun hname 0
  exact hfirst ▸ hused.1

lemma Keeps.volume {w : Name83} {M : Name83 → Option Node}
    (h : Keeps fs (view fs v.disk) ((view fs v.disk).rootClusters fs) w (view fs u.disk) M) :
    (w 0 ≠ direntDeleted → lost fs u = lost fs v) ∧ ∀ w', w' ≠ w → Untouched fs v u w' := by
  obtain ⟨k, hk⟩ := h
  rw [lost, lost, hk.formed.rootClusters_eq]
  refine ⟨hk.lost, fun w' hw' => ?_⟩
  rw [Untouched, hk.formed.rootClusters_eq]
  exact hk.others w' hw'

lemma untouched_refl (fs : Fs) (v : Vol) (w : Name83) : Untouched fs v v w :=
  ⟨rfl, fun _ _ => rfl, fun _ _ => rfl, fun _ _ => rfl⟩

/-- A call touches no file but the one it names. It loses no cluster, except that a write may
store a name with the deleted marker in front. -/
lemma exec_keeps (hc : c.Short fs) (h : WellFormed fs v) :
    WellFormed fs (exec fs c v).2 ∧ (c.Seen fs → lost fs (exec fs c v).2 = lost fs v) ∧
      ∀ w, c.target ≠ some w → Untouched fs v (exec fs c v).2 w := by
  have hsame : (c.Seen fs → lost fs v = lost fs v) ∧ ∀ w, c.target ≠ some w → Untouched fs v v w :=
    ⟨fun _ => rfl, fun w _ => untouched_refl fs v w⟩
  cases c with
  | write name buf =>
    refine ⟨exec_write_wellFormed h hc, ?_⟩
    obtain ⟨g, hf⟩ := h
    have hspec := does_fat32WriteFile g True hf rfl hc name [] fun _ => rfl
    have hkept : ∀ {u w M}, nameTo83 name = some w → Keeps fs _ _ w (view fs u.disk) M →
        ((Call.write name buf).Seen fs → lost fs u = lost fs v) ∧
          ∀ w', (Call.write name buf).target ≠ some w' → Untouched fs v u w' := fun hw hk =>
      ⟨fun hseen => hk.volume.1 (hseen.1 _ hw), fun w' hw' => hk.volume.2 w' fun he =>
        hw' (by rw [Call.target, hw, he])⟩
    rw [exec]
    cases hval : ((fat32WriteFile fs name buf).run v []).value with
    | some r =>
      obtain ⟨w, hw, -, hwritten⟩ := hspec.value r hval
      exact hkept hw (hwritten.calm trivial)
    | none =>
      rcases hspec.none hval with ⟨hx, -⟩ | ⟨w, hw, -, hun⟩
      · rw [hx]
        exact hsame
      · exact hkept hw (hun.calm trivial).2
  | delete name =>
    refine ⟨(exec_delete_refines h).1, ?_⟩
    obtain ⟨g, hf⟩ := h
    have hspec := does_fat32Delete g True hf rfl name [] fun _ => rfl
    rw [exec]
    cases hval : ((fat32Delete fs name).run v []).value with
    | some r =>
      obtain ⟨w, s, hw, hs, hview⟩ := hspec.value r hval
      have hfound := (Option.filter_eq_some_iff.mp hs).1
      have hkeep := hf.keeps_deleted hfound
      rw [← hview] at hkeep
      exact ⟨fun _ => hkeep.volume.1 (hf.ne_deleted hfound), fun w' hw' =>
        hkeep.volume.2 w' fun he =>
        hw' (by rw [Call.target, hw, he])⟩
    | none =>
      rw [(hspec.none hval trivial).1]
      exact hsame
  | read name bufsize =>
    rw [exec_read_eq h]
    exact ⟨h, hsame⟩
  | stat name =>
    rw [exec_stat_eq h]
    exact ⟨h, hsame⟩

/-- A sequence of calls touches no file but those it names, and loses no cluster if no name has the
deleted marker in front. -/
lemma run_keeps {calls : List Call} (h : WellFormed fs v) (hcalls : ∀ c ∈ calls, c.Short fs) :
    WellFormed fs (Runs.run (exec fs) calls v).2 ∧
      ((∀ c ∈ calls, c.Seen fs) → lost fs (Runs.run (exec fs) calls v).2 = lost fs v) ∧
      ∀ w, (∀ c ∈ calls, c.target ≠ some w) → Untouched fs v (Runs.run (exec fs) calls v).2 w := by
  let I : Vol → Prop :=
    fun u => WellFormed fs u ∧ ((∀ c ∈ calls, c.Seen fs) → lost fs u = lost fs v) ∧
    ∀ w, (∀ c ∈ calls, c.target ≠ some w) → Untouched fs v u w
  refine Runs.run_invariant (I := I) (P := fun c => c.Short fs ∧ c ∈ calls) ?_
    (fun c hc => ⟨hcalls c hc, hc⟩) ⟨h, fun _ => rfl, fun w _ => untouched_refl fs v w⟩
  rintro c u ⟨hc, hmem⟩ ⟨hu, hlost, htouch⟩
  obtain ⟨hwf, hkept, hothers⟩ := exec_keeps hc hu
  exact ⟨hwf, fun hseen => (hkept (hseen c hmem)).trans (hlost hseen), fun w hw =>
    (htouch w hw).trans (hothers w (hw c hmem))⟩

end Steps

/-! ### Counting -/

section Counting

variable {fs : Fs} {v u : Vol} {V X : View} {l k : List ℕ}

/-- `fat32_free_count` reports the free clusters. -/
lemma freeCount_eq (g : Geometry fs) :
    freeCount fs v = some ((view fs v.disk).freeClusters fs).card := by
  obtain ⟨n, hn, -, rfl⟩ := (does_fat32FreeCount g v (I := fun _ => True)).exists_value
  exact hn

/-- The same files take the same number of clusters. -/
lemma Formed.owned_length (hV : Formed fs V l) (hX : Formed fs X k)
    (h : ∀ w, SameFile fs V l X k w) :
    (X.ownedBy fs k).length + l.length = (V.ownedBy fs l).length + k.length := by
  have hentry : ∀ s, s ∈ V.liveSlots fs l → X.entry s = V.entry s := fun s hs =>
    (h (V.entry s).name).entry s (hV.findSlot_eq_some.mpr ⟨hs, rfl⟩)
  have hmem : ∀ s, s ∈ X.liveSlots fs k ↔ s ∈ V.liveSlots fs l := by
    intro s
    constructor
    · intro hs
      have hfind := (h (X.entry s).name).slot
      rw [hX.findSlot_eq_some.mpr ⟨hs, rfl⟩] at hfind
      exact (hV.findSlot_eq_some.mp hfind.symm).1
    · intro hs
      have hfind := (h (V.entry s).name).slot
      rw [hV.findSlot_eq_some.mpr ⟨hs, rfl⟩] at hfind
      exact (hX.findSlot_eq_some.mp hfind).1
  have hperm : (X.liveSlots fs k).Perm (V.liveSlots fs l) :=
    (List.perm_ext_iff_of_nodup hX.names.of_map hV.names.of_map).mpr hmem
  have hclusters : (V.liveSlots fs l).flatMap (X.slotClusters fs) =
      (V.liveSlots fs l).flatMap (V.slotClusters fs) := List.flatMap_congr fun s hs =>
    (h (V.entry s).name).clusters s (hV.findSlot_eq_some.mpr ⟨hs, rfl⟩)
  have hlen := (hperm.flatMap_right (X.slotClusters fs)).length_eq
  rw [hclusters] at hlen
  rw [View.ownedBy, View.ownedBy, List.length_append, List.length_append, hlen]
  omega

end Counting

/-- **Cluster accounting**: after every sequence of calls without disk or heap
failures the chains of the root directory and of the live entries end, share no
cluster and consist of clusters in range and in use, and the free count and their
total length add up to what they did before. If the files that were created are
gone again and the root directory has not grown, the free count is the same. -/
theorem run_accounting {fs : Fs} {v : Vol} {calls : List Call} (h : WellFormed fs v)
    (hcalls : ∀ c ∈ calls, c.Fits fs) :
    let u := (Runs.run (exec fs) calls v).2
    WellFormed fs u ∧ (owned fs u).Nodup ∧
      (∀ c ∈ owned fs u, InRange fs c ∧ (view fs u.disk).fat c ≠ 0) ∧
      (∃ m n, freeCount fs u = some m ∧ freeCount fs v = some n ∧
        m + (owned fs u).length = n + (owned fs v).length) ∧
      ((∀ c ∈ calls, ∀ w, c.target = some w →
          (fileMap fs v).lookup w = none ∧ (fileMap fs u).lookup w = none) →
        ((view fs u.disk).rootClusters fs).length = ((view fs v.disk).rootClusters fs).length →
        freeCount fs u = freeCount fs v) := by
  intro u
  obtain ⟨hu, hlost, hsame⟩ := run_keeps h fun c hc => (hcalls c hc).seen.short
  have hcardu : ((view fs u.disk).freeClusters fs).card + (owned fs u).length + (lost fs u).card =
      fs.totalClusters := hu.2.card_add_lost
  have hcardv : ((view fs v.disk).freeClusters fs).card + (owned fs v).length + (lost fs v).card =
      fs.totalClusters := h.2.card_add_lost
  have hlost : (lost fs u).card = (lost fs v).card := by rw [hlost fun c hc => (hcalls c hc).seen]
  refine ⟨hu, hu.2.disjoint, fun c hc => ⟨hu.2.inRange hc, hu.2.fat_ne_zero hc⟩,
    ⟨_, _, freeCount_eq h.1, freeCount_eq h.1, by omega⟩, fun hgone hroot => ?_⟩
  have hall : ∀ w, Untouched fs v u w := by
    intro w
    by_cases hw : ∀ c ∈ calls, c.target ≠ some w
    · exact hsame w hw
    · push Not at hw
      obtain ⟨c, hc, hcw⟩ := hw
      obtain ⟨hv0, hu0⟩ := hgone c hc w hcw
      rw [lookup_of_formed h.2, View.node, Option.map_eq_none_iff] at hv0
      rw [lookup_of_formed hu.2, View.node, Option.map_eq_none_iff] at hu0
      exact ⟨hu0.trans hv0.symm, by simp [hv0], by simp [hv0], by simp [hv0]⟩
  have hlen : (owned fs u).length + ((view fs v.disk).rootClusters fs).length =
      (owned fs v).length + ((view fs u.disk).rootClusters fs).length :=
    h.2.owned_length hu.2 hall
  rw [freeCount_eq h.1, freeCount_eq h.1]
  exact congrArg some (by omega)

set_option maxRecDepth 100000 in
/-- The file `B` is created next to `A` and deleted again. -/
theorem run_accounting_oneFileVolume :
    freeCount smallFs (Runs.run (exec smallFs) [.write [0x42] [1, 2, 3], .delete [0x42]]
      oneFileVolume).2 = freeCount smallFs oneFileVolume := by
  refine (run_accounting (by decide) (by simp [Call.Fits, smallFs])).2.2.2.2 (fun c hc w hw => ?_)
    (by decide +kernel)
  have htarget : c.target = nameTo83 [0x42] := by
    rcases List.mem_cons.mp hc with rfl | hc
    · rfl
    · rw [List.mem_singleton.mp hc]
      rfl
  obtain rfl : (fun k : Fin 11 => if k = 0 then 0x42 else 0x20) = w := by
    rw [htarget] at hw
    exact Option.some.inj (Eq.trans (by decide) hw)
  decide +kernel

end TownOS
