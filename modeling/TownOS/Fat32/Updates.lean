import TownOS.Fat32.WellFormed

/-!
The two updates of a root directory: a slot gets a new entry, and the chain gets
a new cluster.

* `Formed.put`: an entry put in the place of another keeps the volume well
  formed, and `Formed.sameFile_put` leaves the other names alone;
* `Formed.grow`: so does an empty cluster linked to the end of the directory.
  `Grown.readable` needs less: the FAT entry of the new cluster may be anything.
-/

namespace TownOS

open Durable Bytes Linked

/-! ### One slot replaced -/

/-- The entry is a file or a directory. -/
def direntLive (e : Dirent) : Bool := e 0 != direntDeleted && direntIsUsable e

/-- The slot holds a live entry, if it is not past the end of the directory. -/
def View.occupied (V : View) (s : Slot) : Bool := !V.ends s && V.used s

/-- The clusters that the entry in a slot owns. -/
def View.oldClusters (fs : Fs) (V : View) (s : Slot) : List ℕ :=
  if V.occupied s then V.slotClusters fs s else []

/-- The view with the entry of a slot replaced. -/
def View.put (V : View) (s : Slot) (e : Dirent) : View := V.setSlot s.1 s.2 e

section Put

variable {fs : Fs} {V : View} {l : List ℕ} {s t : Slot} {e : Dirent}

@[simp] lemma put_fat : (V.put s e).fat = V.fat := rfl

lemma put_data_of_ne {c : ℕ} (h : c ≠ s.1) : (V.put s e).data c = V.data c :=
  Function.update_of_ne h _ _

lemma entry_put_self : (V.put s e).entry s = e := by
  funext k
  have hk : s.2 * 32 ≤ s.2 * 32 + k.val ∧ s.2 * 32 + k.val < s.2 * 32 + 32 := by omega
  simp only [View.entry, View.put, View.setSlot, View.setData_data, Function.update_self, direntAt,
    direntBytes, if_pos hk, Nat.add_sub_cancel_left, Dirent.byte, dif_pos k.isLt]

lemma entry_put_of_ne (h : t ≠ s) : (V.put s e).entry t = V.entry t := by
  by_cases hc : t.1 = s.1
  · have hi : t.2 ≠ s.2 := fun hi => h (Prod.ext hc hi)
    funext k
    have hk : ¬(s.2 * 32 ≤ t.2 * 32 + k.val ∧ t.2 * 32 + k.val < s.2 * 32 + 32) := by omega
    simp only [View.entry, View.put, View.setSlot, View.setData_data, hc, Function.update_self,
      direntAt, direntBytes, if_neg hk]
  · exact entry_congr (put_data_of_ne hc)

lemma slotsOf_nodup (hl : l.Nodup) : (slotsOf fs l).Nodup := by
  induction l with
  | nil => simp [slotsOf]
  | cons c l ih =>
    rw [slotsOf_cons, List.nodup_append]
    refine ⟨?_, ih (List.nodup_cons.mp hl).2, fun x hx y hy hxy => ?_⟩
    · have hnd : (List.range' 0 (entriesPerCluster fs)).Nodup := List.nodup_range'
      exact hnd.map fun i j hij => (Prod.mk.inj hij).2
    · have h1 := fst_of_mem_clusterSlots hx
      have h2 := (mem_slotsOf.mp hy).1
      rw [← hxy, h1] at h2
      exact (List.nodup_cons.mp hl).1 h2

end Put

/-- The slot `s` comes before the end of the directory or is its end; the other
live slots are `R`. -/
structure SlotAt (fs : Fs) (V : View) (l : List ℕ) (s : Slot) (R : List Slot) : Prop where
  mem : s ∈ slotsOf fs l
  before : (V.liveSlots fs l).Perm ((if V.occupied s then [s] else []) ++ R)
  after : ∀ e : Dirent, e 0 ≠ direntFree →
    ((V.put s e).liveSlots fs l).Perm ((if direntLive e then [s] else []) ++ R)
  tail : ∀ e : Dirent, e 0 ≠ direntFree → Slots.Tailed (V.put s e).ends (slotsOf fs l)
  notMem : s ∉ R

/-- A slot with no end of the directory before it. -/
lemma Formed.slotAt {fs : Fs} {V : View} {l : List ℕ} {s : Slot} {P Q : List Slot}
    (h : Formed fs V l) (hs : slotsOf fs l = P ++ s :: Q) (hP : ∀ p ∈ P, V.ends p = false) :
    SlotAt fs V l s (P.filter V.used ++ Slots.live V.ends V.used Q) := by
  have hnd : (P ++ s :: Q).Nodup := hs ▸ slotsOf_nodup h.root.nodup
  have hsP : s ∉ P := fun hp => (List.nodup_append.mp hnd).2.2 s hp s (by simp) rfl
  have hsQ : s ∉ Q := (List.nodup_cons.mp (List.nodup_append.mp hnd).2.1).1
  have htail := h.tail
  rw [hs] at htail
  have hentry : ∀ (e : Dirent) (t : Slot), t ∈ P ∨ t ∈ Q →
      (V.put s e).ends t = V.ends t ∧ (V.put s e).used t = V.used t := by
    intro e t ht
    have hne : t ≠ s := by
      rintro rfl
      exact ht.elim hsP hsQ
    simp only [View.ends, View.used, entry_put_of_ne hne, and_self]
  have hends : ∀ e : Dirent, e 0 ≠ direntFree → (V.put s e).ends s = false := by
    intro e he
    simpa [View.ends, entry_put_self] using he
  have hperm : ∀ A M B : List Slot, (A ++ M ++ B).Perm (M ++ (A ++ B)) := fun A M B => by
    rw [← List.append_assoc]
    exact (List.perm_append_comm).append_right B
  refine ⟨by rw [hs]; simp, ?_, fun e he => ?_, fun e he => ?_, fun hR => ?_⟩
  · rw [View.liveSlots, hs, Slots.live_split hP (htail.of_split hP)]
    exact hperm _ _ _
  · have hused : (V.put s e).used s = direntLive e := by
      rw [View.used, entry_put_self, direntLive]
    rw [View.liveSlots, hs,
      Slots.live_split (fun p hp => by rw [(hentry e p (.inl hp)).1, hP p hp])
        (fun h0 => absurd h0 (by simp [hends e he])),
      List.filter_congr fun p hp => (hentry e p (.inl hp)).2,
      Slots.live_congr fun q hq => hentry e q (.inr hq), hends e he, hused]
    exact hperm _ _ _
  · rw [hs]
    exact htail.replace hP (fun p hp => by rw [(hentry e p (.inl hp)).1, hP p hp])
      (fun q hq => (hentry e q (.inr hq)).1) (hends e he)
  · rcases List.mem_append.mp hR with hR | hR
    · exact hsP (List.mem_filter.mp hR).1
    · exact hsQ (Slots.mem_live hR).1

/-- What an entry put in the directory has to meet, if it is live: its chain `m`
holds its bytes, and neither its name nor its chain is taken. -/
structure Admits (fs : Fs) (V : View) (l : List ℕ) (R : List Slot) (e : Dirent)
    (m : List ℕ) : Prop where
  owns : Owns fs V (direntFirstCluster e) m
  size : e.isDirectory = false → e.size ≤ m.length * fs.bytesPerCluster
  name : ∀ t ∈ R, (V.entry t).name ≠ e.name
  root : ∀ c ∈ m, c ∉ l
  apart : ∀ c ∈ m, ∀ t ∈ R, c ∉ V.slotClusters fs t

namespace SlotAt

variable {fs : Fs} {V : View} {l m : List ℕ} {s t : Slot} {e : Dirent} {R : List Slot}

lemma mem_live (hs : SlotAt fs V l s R) (ht : t ∈ R) : t ∈ V.liveSlots fs l :=
  hs.before.mem_iff.mpr (List.mem_append_right _ ht)

lemma entry_put (hs : SlotAt fs V l s R) (ht : t ∈ R) : (V.put s e).entry t = V.entry t :=
  entry_put_of_ne fun h => hs.notMem (h ▸ ht)

lemma slotClusters_put (hs : SlotAt fs V l s R) (ht : t ∈ R) :
    (V.put s e).slotClusters fs t = V.slotClusters fs t := by
  rw [View.slotClusters, View.slotClusters, hs.entry_put ht]
  rfl

/-- The live slots after the update are the entry, if live, and the others. -/
lemma mem_put (hs : SlotAt fs V l s R) (he : e 0 ≠ direntFree) :
    t ∈ (V.put s e).liveSlots fs l ↔ direntLive e = true ∧ t = s ∨ t ∈ R := by
  rw [(hs.after e he).mem_iff, List.mem_append]
  split_ifs with hl <;> simp [hl]

lemma ownedBy_put (hs : SlotAt fs V l s R) (he : e 0 ≠ direntFree) :
    ((V.put s e).ownedBy fs l).Perm
      ((if direntLive e then V.clustersFrom fs (direntFirstCluster e) else []) ++
        (l ++ R.flatMap (V.slotClusters fs))) := by
  have hmid : (if direntLive e then [s] else []).flatMap ((V.put s e).slotClusters fs) =
      if direntLive e then V.clustersFrom fs (direntFirstCluster e) else [] := by
    split_ifs
    · rw [List.flatMap_singleton, View.slotClusters, entry_put_self]
      rfl
    · rfl
  have hrest : R.flatMap ((V.put s e).slotClusters fs) = R.flatMap (V.slotClusters fs) :=
    List.flatMap_congr fun t ht => hs.slotClusters_put ht
  have hperm := ((hs.after e he).flatMap_right ((V.put s e).slotClusters fs)).append_left l
  rw [List.flatMap_append, hmid, hrest] at hperm
  exact hperm.trans (by
    rw [← List.append_assoc, ← List.append_assoc]
    exact List.perm_append_comm.append_right _)

lemma mem_live_self (hs : SlotAt fs V l s R) : s ∈ V.liveSlots fs l ↔ V.occupied s = true := by
  rw [hs.before.mem_iff, List.mem_append]
  split_ifs with h <;> simp [h, hs.notMem]

lemma ownedBy_perm (hs : SlotAt fs V l s R) :
    (V.ownedBy fs l).Perm (V.oldClusters fs s ++ (l ++ R.flatMap (V.slotClusters fs))) := by
  have hperm := (hs.before.flatMap_right (V.slotClusters fs)).append_left l
  have hmid : (if V.occupied s then [s] else []).flatMap (V.slotClusters fs) =
      V.oldClusters fs s := by
    rw [View.oldClusters]
    split_ifs <;> simp
  rw [List.flatMap_append, hmid] at hperm
  exact hperm.trans (by
    rw [← List.append_assoc, ← List.append_assoc]
    exact List.perm_append_comm.append_right _)

/-- Without the entry that was in the slot nothing is owned twice. -/
lemma rest_nodup (hs : SlotAt fs V l s R) (h : Formed fs V l) :
    (l ++ R.flatMap (V.slotClusters fs)).Nodup :=
  (List.nodup_append.mp (hs.ownedBy_perm.nodup_iff.mp h.disjoint)).2.1

/-- The clusters owned after the update are those of the new entry and those that
the old one did not own. -/
lemma mem_ownedBy_put (hs : SlotAt fs V l s R) (h : Formed fs V l) (he : e 0 ≠ direntFree) {c : ℕ} :
    c ∈ (V.put s e).ownedBy fs l ↔
      direntLive e = true ∧ c ∈ V.clustersFrom fs (direntFirstCluster e) ∨
        c ∈ V.ownedBy fs l ∧ c ∉ V.oldClusters fs s := by
  have hold : c ∈ V.oldClusters fs s → c ∉ l ++ R.flatMap (V.slotClusters fs) := fun h1 h2 =>
    (List.nodup_append.mp (hs.ownedBy_perm.nodup_iff.mp h.disjoint)).2.2 c h1 c h2 rfl
  rw [(hs.ownedBy_put he).mem_iff, hs.ownedBy_perm.mem_iff, List.mem_append,
    List.mem_append (s := V.oldClusters fs s)]
  split_ifs with hl <;> simp only [hl, List.not_mem_nil] <;> tauto

/-- The clusters of the other files are not in the directory. -/
lemma ne_of_mem (hs : SlotAt fs V l s R) (h : Formed fs V l) (ht : t ∈ R) {c : ℕ}
    (hc : c ∈ V.slotClusters fs t) : c ∉ l := fun hl =>
  (List.nodup_append.mp (hs.rest_nodup h)).2.2 c hl c (List.mem_flatMap.mpr ⟨t, ht, hc⟩) rfl

/-- The bytes of the other files are the same. -/
lemma fileBytes_put (hs : SlotAt fs V l s R) (h : Formed fs V l) (ht : t ∈ R) :
    (V.put s e).fileBytes fs t = V.fileBytes fs t := by
  have hl : s.1 ∈ l := (mem_slotsOf.mp hs.mem).1
  rw [View.fileBytes, View.fileBytes, hs.slotClusters_put ht, hs.entry_put ht,
    chainBytes_congr fun c hc => put_data_of_ne fun hcs => hs.ne_of_mem h ht hc (hcs ▸ hl)]

end SlotAt

namespace Formed

variable {fs : Fs} {V : View} {l m : List ℕ} {s t : Slot} {e : Dirent} {R : List Slot} {w : Name83}

/-- **An entry put in the place of another**, with a name and a chain that nobody
else has, keeps the volume well formed. -/
theorem put (h : Formed fs V l) (hs : SlotAt fs V l s R) (he : e 0 ≠ direntFree)
    (ha : direntLive e = true → Admits fs V l R e m) : Formed fs (V.put s e) l where
  start := h.start
  root := h.root
  tail := hs.tail e he
  names := by
    have hold := ((hs.before.map fun s => (V.entry s).name).nodup_iff.mp h.names)
    rw [List.map_append] at hold
    have hrest : R.map (fun t => ((V.put s e).entry t).name) = R.map fun t => (V.entry t).name :=
      List.map_congr_left fun t ht => by rw [hs.entry_put ht]
    rw [((hs.after e he).map _).nodup_iff, List.map_append, hrest]
    by_cases hl : direntLive e = true
    · rw [if_pos hl, List.map_singleton, List.singleton_append, List.nodup_cons, entry_put_self]
      refine ⟨fun hmem => ?_, (List.nodup_append.mp hold).2.1⟩
      obtain ⟨t, ht, hn⟩ := List.mem_map.mp hmem
      exact (ha hl).name t ht hn
    · rw [if_neg hl]
      exact (List.nodup_append.mp hold).2.1
  chains := fun t ht => by
    rcases (hs.mem_put he).mp ht with ⟨hl, rfl⟩ | ht
    · have howns : Owns fs (V.put t e) (direntFirstCluster e) m := (ha hl).owns
      rw [View.slotClusters, entry_put_self, howns.clustersFrom_eq]
      exact howns
    · rw [hs.slotClusters_put ht, hs.entry_put ht]
      exact h.chains t (hs.mem_live ht)
  sizes := fun t ht => by
    rcases (hs.mem_put he).mp ht with ⟨hl, rfl⟩ | ht
    · have howns : Owns fs (V.put t e) (direntFirstCluster e) m := (ha hl).owns
      rw [View.slotClusters, entry_put_self, howns.clustersFrom_eq]
      exact (ha hl).size
    · rw [hs.slotClusters_put ht, hs.entry_put ht]
      exact h.sizes t (hs.mem_live ht)
  disjoint := by
    rw [(hs.ownedBy_put he).nodup_iff]
    by_cases hl : direntLive e = true
    · rw [if_pos hl, (ha hl).owns.clustersFrom_eq]
      refine List.nodup_append.mpr ⟨(ha hl).owns.nodup, hs.rest_nodup h, fun c hc b hb hcb => ?_⟩
      subst hcb
      rcases List.mem_append.mp hb with hb | hb
      · exact (ha hl).root c hc hb
      · obtain ⟨t, ht, hb⟩ := List.mem_flatMap.mp hb
        exact (ha hl).apart c hc t ht hb
    · rw [if_neg hl]
      exact hs.rest_nodup h

lemma sameFile_put (h : Formed fs V l) (hs : SlotAt fs V l s R) (he : e 0 ≠ direntFree)
    (hf : Formed fs (V.put s e) l) (hold : s ∈ V.liveSlots fs l → (V.entry s).name ≠ w)
    (hnew : direntLive e = true → e.name ≠ w) : SameFile fs V l (V.put s e) l w := by
  have hmem : ∀ t, t ∈ V.liveSlots fs l → (V.entry t).name = w → t ∈ R := by
    intro t ht hn
    rcases List.mem_append.mp (hs.before.mem_iff.mp ht) with hm | hm
    · obtain rfl : t = s := by
        split_ifs at hm
        · exact List.mem_singleton.mp hm
        · simp at hm
      exact absurd hn (hold ht)
    · exact hm
  have hR : ∀ t, V.findSlot fs l w = some t → t ∈ R := fun t ht =>
    have h' := h.findSlot_eq_some.mp ht
    hmem t h'.1 h'.2
  refine ⟨Option.ext fun t => ?_, fun t ht => hs.entry_put (hR t ht),
    fun t ht => hs.slotClusters_put (hR t ht), fun t ht => hs.fileBytes_put h (hR t ht)⟩
  rw [hf.findSlot_eq_some, h.findSlot_eq_some, hs.mem_put he]
  constructor
  · rintro ⟨⟨hl, rfl⟩ | ht, hn⟩
    · rw [entry_put_self] at hn
      exact absurd hn (hnew hl)
    · rw [hs.entry_put ht] at hn
      exact ⟨hs.mem_live ht, hn⟩
  · rintro ⟨ht, hn⟩
    exact ⟨.inr (hmem t ht hn), by rw [hs.entry_put (hmem t ht hn), hn]⟩

/-- The slot of a live entry just put in. -/
lemma findSlot_put_self (hs : SlotAt fs V l s R) (he : e 0 ≠ direntFree)
    (hf : Formed fs (V.put s e) l) (hl : direntLive e = true) :
    (V.put s e).findSlot fs l e.name = some s :=
  hf.findSlot_eq_some.mpr ⟨(hs.mem_put he).mpr (.inl ⟨hl, rfl⟩), by rw [entry_put_self]⟩

/-- A name nobody else has is gone with its entry. -/
lemma findSlot_put_dead (hs : SlotAt fs V l s R) (he : e 0 ≠ direntFree)
    (hf : Formed fs (V.put s e) l) (hl : direntLive e = false)
    (hn : ∀ t ∈ R, (V.entry t).name ≠ w) : (V.put s e).findSlot fs l w = none := by
  refine Option.eq_none_iff_forall_ne_some.mpr fun t ht => ?_
  obtain ⟨ht, htn⟩ := hf.findSlot_eq_some.mp ht
  rcases (hs.mem_put he).mp ht with ⟨hl', -⟩ | hR
  · simp [hl] at hl'
  · rw [hs.entry_put hR] at htn
    exact hn t hR htn

end Formed

/-! ### The directory grown by a cluster -/

/-- The cluster `z`, free in `V`, has been emptied and linked behind the last
cluster of `l`; nothing else that was in use has changed. Nothing is said of the
FAT entry of `z`. -/
structure Grown (fs : Fs) (V X : View) (l : List ℕ) (z : ℕ) : Prop where
  free : V.fat z = 0
  range : InRange fs z
  last : ∀ a, l.getLast? = some a → X.fat a = z
  fat : ∀ c, V.fat c ≠ 0 → l.getLast? ≠ some c → X.fat c = V.fat c
  data : ∀ c, V.fat c ≠ 0 → X.data c = V.data c
  empty : ∀ i < fs.bytesPerCluster, X.data z i = 0

namespace Grown

variable {fs : Fs} {V X : View} {l : List ℕ} {z : ℕ} {s : Slot}

/-- Freeing other clusters that were free before changes nothing. -/
lemma freed (hx : Grown fs V X l z) {l₁ : List ℕ} (hfree : ∀ c ∈ l₁, V.fat c = 0)
    (hl : ∀ a ∈ l, V.fat a ≠ 0) : Grown fs V (X.freed l₁) l z where
  free := hx.free
  range := hx.range
  last := fun a ha => by
    have hal : a ∉ l₁ := fun hm => hl a (List.mem_of_getLast? ha) (hfree a hm)
    rw [View.freed_fat_of_notMem hal, hx.last a ha]
  fat := fun c hc hne => by
    rw [View.freed_fat_of_notMem fun hm => hc (hfree c hm), hx.fat c hc hne]
  data := hx.data
  empty := hx.empty

lemma of_spares {V₀ : View} (hx : Grown fs V X l z) (hs : Spares V₀ V) : Grown fs V₀ X l z where
  free := by
    by_contra h0
    exact h0 (by rw [← (hs z h0).1, hx.free])
  range := hx.range
  last := hx.last
  fat := fun c hc hne => by
    rw [hx.fat c (by rwa [(hs c hc).1]) hne, (hs c hc).1]
  data := fun c hc => by
    rw [hx.data c (by rwa [(hs c hc).1]), (hs c hc).2]
  empty := hx.empty

lemma ends_new (hx : Grown fs V X l z) (hs : s ∈ clusterSlots fs z) : X.ends s = true := by
  obtain ⟨i, hi, rfl⟩ := List.mem_map.mp hs
  have hi' := (List.mem_range'_1.mp hi).2
  have hin : i * 32 < fs.bytesPerCluster := by
    rw [entriesPerCluster, direntBytes] at hi'
    omega
  rw [ends_iff]
  exact hx.empty _ hin

variable (h : Formed fs V l) (hx : Grown fs V X l z) (hfull : ∀ s ∈ slotsOf fs l, V.ends s = false)

include h hx

lemma notMem_owned : z ∉ V.ownedBy fs l := fun hz => h.fat_ne_zero hz hx.free

lemma entry_eq (hs : s ∈ slotsOf fs l) : X.entry s = V.entry s :=
  entry_congr (hx.data _ (h.fat_ne_zero (Formed.mem_owned_root (mem_slotsOf.mp hs).1)))

include hfull

lemma liveSlots_eq : X.liveSlots fs (l ++ [z]) = V.liveSlots fs l := by
  have hsame : ∀ s ∈ slotsOf fs l, X.entry s = V.entry s := fun s hs => hx.entry_eq h hs
  have hends : ∀ s ∈ slotsOf fs l, X.ends s = false := fun s hs => by
    rw [View.ends, hsame s hs]
    exact hfull s hs
  have hnew : Slots.live X.ends X.used (slotsOf fs [z]) = [] :=
    Slots.live_eq_nil fun s hs => hx.ends_new (by simpa [slotsOf] using hs)
  rw [View.liveSlots, slotsOf_append, Slots.live_append hends, hnew, List.append_nil,
    ← Slots.live_of_not_ends hends]
  exact liveSlots_congr hsame

omit hfull in
/-- The clusters of the live entries keep their links. -/
lemma fat_eq {c : ℕ} (hs : s ∈ V.liveSlots fs l) (hc : c ∈ V.slotClusters fs s) :
    X.fat c = V.fat c := by
  refine hx.fat c (h.fat_ne_zero (Formed.mem_owned_slot hs hc)) fun hlast => ?_
  exact (List.nodup_append.mp h.disjoint).2.2 c (List.mem_of_getLast? hlast) c
    (List.mem_flatMap.mpr ⟨s, hs, hc⟩) rfl

omit hfull in
lemma owns_eq (hs : s ∈ V.liveSlots fs l) :
    Owns fs X (direntFirstCluster (X.entry s)) (V.slotClusters fs s) := by
  rw [hx.entry_eq h (mem_slotsOf_of_live hs)]
  exact (h.chains s hs).congr fun c hc => hx.fat_eq h hs hc

omit hfull in
lemma slotClusters_eq (hs : s ∈ V.liveSlots fs l) :
    X.slotClusters fs s = V.slotClusters fs s := (hx.owns_eq h hs).clustersFrom_eq

lemma sameFile (w : Name83) : SameFile fs V l X (l ++ [z]) w := by
  have hlive : ∀ s, V.findSlot fs l w = some s → s ∈ V.liveSlots fs l := fun s hs =>
    List.mem_of_find?_eq_some hs
  have hentry : ∀ s ∈ V.liveSlots fs l, X.entry s = V.entry s := fun s hs =>
    hx.entry_eq h (mem_slotsOf_of_live hs)
  refine ⟨?_, fun s hs => hentry s (hlive s hs), fun s hs => hx.slotClusters_eq h (hlive s hs),
    fun s hs => ?_⟩
  · rw [View.findSlot, View.findSlot, hx.liveSlots_eq h hfull]
    exact List.find?_congr fun s hs => by rw [View.named, View.named, hentry s hs]
  · rw [View.fileBytes, View.fileBytes, hx.slotClusters_eq h (hlive s hs), hentry s (hlive s hs),
      chainBytes_congr fun c hc => hx.data c
        (h.fat_ne_zero (Formed.mem_owned_slot (hlive s hs) hc))]

lemma node_eq : X.node fs (l ++ [z]) = V.node fs l :=
  funext fun w => (hx.sameFile h hfull w).node_eq

lemma ownedBy_perm : (X.ownedBy fs (l ++ [z])).Perm (z :: V.ownedBy fs l) := by
  have howned : X.ownedBy fs (l ++ [z]) =
      l ++ z :: (V.liveSlots fs l).flatMap (V.slotClusters fs) := by
    rw [View.ownedBy, hx.liveSlots_eq h hfull,
      List.flatMap_congr fun s hs => hx.slotClusters_eq h hs, List.append_assoc,
      List.singleton_append]
  rw [howned]
  exact List.perm_middle

omit hfull in
/-- Following the links leads through the old directory to the new cluster. -/
lemma path (g : Geometry fs) : Path (X.link fs) fs.rootCluster l z := by
  have hget : l.getLast? = some (l.getLast h.root.ne_nil) := List.getLast?_eq_some_getLast _
  refine h.root.path (fun c hc hne => View.link_congr (hx.fat c ?_ ?_)) (link_eq_next g hx.range ?_)
  · exact h.fat_ne_zero (Formed.mem_owned_root hc)
  · rw [hget]
    exact fun he => hne (Option.some.inj he).symm
  · exact hx.last _ hget

omit hfull in
lemma length_le : (l ++ [z]).length ≤ fs.totalClusters := by
  have hz : z ∉ l := fun hz => hx.notMem_owned h (Formed.mem_owned_root hz)
  refine length_le_total ?_ fun c hc => ?_
  · exact List.nodup_append.mpr ⟨h.root.nodup, by simp, fun a ha b hb hab => hz (by
      rwa [← List.mem_singleton.mp hb, ← hab])⟩
  · rcases List.mem_append.mp hc with hc | hc
    · exact chain_inRange h.root h.start c hc
    · rw [List.mem_singleton.mp hc]
      exact hx.range

/-- **A grown directory can be read**, whatever the FAT entry of its new
cluster. -/
theorem readable (g : Geometry fs) : Readable fs X (l ++ [z]) where
  walk := by
    have hpos : 0 < entriesPerCluster fs := by
      have := g.cluster_pos
      rw [entriesPerCluster, direntBytes, g.bytesPerCluster]
      omega
    have hmem : (z, 0) ∈ clusterSlots fs z :=
      List.mem_map.mpr ⟨0, List.mem_range'_1.mpr (by omega), rfl⟩
    exact Walk.of_path (hx.path h g) (.done hmem (hx.ends_new hmem))
  root := h.start
  short := hx.length_le h
  file := fun s hs hd h0 => by
    rw [hx.liveSlots_eq h hfull] at hs
    have hfile := h.readable.file s hs
    rw [← hx.entry_eq h (mem_slotsOf_of_live hs)] at hfile
    obtain ⟨hr, -, hsize⟩ := hfile hd h0
    rw [hx.slotClusters_eq h hs]
    refine ⟨hr, ?_, hsize⟩
    rcases hx.owns_eq h hs with ⟨h1, -⟩ | ⟨-, hch⟩
    · have := hr.1
      omega
    · exact hch

end Grown

/-- **A directory grown by an empty cluster** that ends the chain is well formed. -/
theorem Formed.grow {fs : Fs} {V X : View} {l : List ℕ} {z : ℕ} (g : Geometry fs)
    (h : Formed fs V l) (hx : Grown fs V X l z) (hfull : ∀ s ∈ slotsOf fs l, V.ends s = false)
    (hz : X.link fs z = .stop) : Formed fs X (l ++ [z]) := by
  have hlive := hx.liveSlots_eq h hfull
  have hentry : ∀ s ∈ V.liveSlots fs l, X.entry s = V.entry s := fun s hs =>
    hx.entry_eq h (mem_slotsOf_of_live hs)
  refine ⟨h.start, (hx.path h g).chain (.stop hz), ?_, ?_, fun s hs => ?_, fun s hs => ?_, ?_⟩
  · rw [slotsOf_append]
    refine Slots.tailed_append_of_ends (fun s hs => ?_) fun s hs => hx.ends_new (by
      simpa [slotsOf] using hs)
    rw [View.ends, hx.entry_eq h hs]
    exact hfull s hs
  · rw [hlive, List.map_congr_left fun s hs => by rw [hentry s hs]]
    exact h.names
  · rw [hlive] at hs
    rw [hx.slotClusters_eq h hs]
    exact hx.owns_eq h hs
  · rw [hlive] at hs
    rw [hx.slotClusters_eq h hs, hentry s hs]
    exact h.sizes s hs
  · rw [(hx.ownedBy_perm h hfull).nodup_iff]
    exact List.nodup_cons.mpr ⟨hx.notMem_owned h, h.disjoint⟩

end TownOS
