import TownOS.Fat32.Updates

/-!
The one directory write that publishes a new file, and the one that unpublishes a
deleted one.

* `Ready`: the state just before a new entry is published, with the bytes in a
  chain that nobody owns;
* `Ready.formed_put`, `Ready.node_put`: publishing keeps the volume well formed
  and gives the name its new contents, and nothing else changes;
* `Ready.agree_freed`: after it nobody owns the replaced chain;
* `View.lostBy`, `Formed.card_add_lost`: the clusters in use that nobody owns, and
  what they have to do with the number of free ones.
-/

namespace TownOS

open Durable Bytes Linked

/-! ### The entries written -/

section Entries

variable {w : Name83} {start len : ℕ}

lemma newDirent_name : (newDirent w start len).name = w := by
  funext k
  have hk : (k.castLE (by decide : 11 ≤ 32)).val < 11 := k.isLt
  rw [Dirent.name, newDirent, dif_pos hk]
  rfl

lemma newDirent_zero : newDirent w start len 0 = w 0 := rfl

lemma newDirent_isDirectory : (newDirent w start len).isDirectory = false := by
  have hattr : (newDirent w start len).attr = attrArchive := rfl
  rw [Dirent.isDirectory, hattr]
  decide

lemma newDirent_live : direntLive (newDirent w start len) = true ↔ w 0 ≠ direntDeleted := by
  have hattr : (newDirent w start len).attr = attrArchive := rfl
  have husable : direntIsUsable (newDirent w start len) = true := by
    rw [direntIsUsable, hattr]
    decide
  simp [direntLive, newDirent_zero, husable]

lemma newDirent_size (h : len < 2 ^ 32) : (newDirent w start len).size = len := by
  have hbyte : ∀ k < 4, (newDirent w start len).byte (28 + k) = byteOf len k := by
    intro k hk
    interval_cases k <;> rfl
  rw [Dirent.size, le32_eq, ← Nat.add_zero 28, hbyte 0 (by omega), Nat.add_zero, hbyte 1 (by omega),
    hbyte 2 (by omega), hbyte 3 (by omega)]
  simp only [byteOf_toNat]
  omega

lemma newDirent_firstCluster (h : start < 2 ^ 32) :
    direntFirstCluster (newDirent w start len) = start := by
  have h20 : (newDirent w start len).byte 20 = byteOf (start >>> 16) 0 := rfl
  have h21 : (newDirent w start len).byte (20 + 1) = byteOf (start >>> 16) 1 := rfl
  have h26 : (newDirent w start len).byte 26 = byteOf start 0 := rfl
  have h27 : (newDirent w start len).byte (26 + 1) = byteOf start 1 := rfl
  have hlow : le16 (newDirent w start len).byte 26 < 2 ^ 16 := le16_lt _ _
  rw [direntFirstCluster, Nat.or_comm, or_shiftLeft hlow, le16_eq, le16_eq, h20, h21, h26, h27]
  simp only [byteOf_toNat, Nat.shiftRight_eq_div_pow]
  omega

lemma markDeleted_zero (e : Dirent) : markDeleted e 0 = direntDeleted := rfl

lemma markDeleted_live (e : Dirent) : direntLive (markDeleted e) = false := by
  simp [direntLive, markDeleted_zero]

end Entries

section Names

variable {name out base rest : List UInt8} {w : Name83}

lemma toUpper_toNat (c : UInt8) : (toUpper c).toNat =
    if 97 ≤ c.toNat ∧ c.toNat ≤ 122 then c.toNat - 32 else c.toNat := by
  have hiff : (0x61 ≤ c ∧ c ≤ 0x7A) ↔ 97 ≤ c.toNat ∧ c.toNat ≤ 122 := by
    rw [UInt8.le_iff_toNat_le, UInt8.le_iff_toNat_le]
    rfl
  rw [toUpper]
  by_cases hc : 97 ≤ c.toNat ∧ c.toNat ≤ 122
  · rw [if_pos (hiff.mpr hc), if_pos hc, UInt8.toNat_add, UInt8.toNat_sub_of_le _ _ (hiff.mpr hc).1]
    simp
    omega
  · rw [if_neg (mt hiff.mp hc), if_neg hc]

/-- The base-name loop writes upper-case letters of the name, none of them NUL. -/
lemma mem_of_baseTo83 (h : baseTo83 name out = some (base, rest)) {b : UInt8} (hb : b ∈ base) :
    b ∈ out ∨ ∃ c ∈ name, c ≠ 0 ∧ b = toUpper c := by
  induction name generalizing out with
  | nil =>
    obtain ⟨rfl, -⟩ := Prod.mk.inj (Option.some.inj h)
    exact .inl hb
  | cons c cs ih =>
    rw [baseTo83] at h
    split_ifs at h with h1 h2
    · obtain ⟨rfl, -⟩ := Prod.mk.inj (Option.some.inj h)
      exact .inl hb
    · rcases ih h with hout | ⟨d, hd, h0, rfl⟩
      · rcases List.mem_append.mp hout with hout | hout
        · exact .inl hout
        · exact .inr ⟨c, by simp, fun h0 => h1 (.inl h0), List.mem_singleton.mp hout⟩
      · exact .inr ⟨d, by simp [hd], h0, rfl⟩

/-- The first byte of an 8.3 name is an upper-case letter of the name. -/
lemma nameTo83_zero (h : nameTo83 name = some w) : ∃ c ∈ name, c ≠ 0 ∧ w 0 = toUpper c := by
  rw [nameTo83] at h
  split at h
  · cases h
  · rename_i base rest hbase
    split_ifs at h with h0
    obtain ⟨ext, -, rfl⟩ := Option.map_eq_some_iff.mp h
    obtain ⟨b, t, rfl⟩ : ∃ b t, base = b :: t := List.exists_cons_of_length_pos (by omega)
    rcases mem_of_baseTo83 hbase (List.mem_cons_self) with hm | hm
    · simp at hm
    · exact hm

lemma nameTo83_ne_free (h : nameTo83 name = some w) : w 0 ≠ direntFree := by
  obtain ⟨c, -, hc, hw⟩ := nameTo83_zero h
  have hpos : c.toNat ≠ 0 := fun h0 => hc (UInt8.toNat_inj.mp h0)
  rw [hw]
  intro h0
  have hnat := toUpper_toNat c
  rw [h0, direntFree] at hnat
  split_ifs at hnat
  · simp at hnat
    omega
  · exact hpos (by simpa using hnat.symm)

/-- A name of 7-bit characters cannot start with the deleted marker. -/
lemma nameTo83_ne_deleted (h : nameTo83 name = some w) (hascii : ∀ c ∈ name, c < 0x80) :
    w 0 ≠ direntDeleted := by
  obtain ⟨c, hc, -, hw⟩ := nameTo83_zero h
  have hlt : c.toNat < 128 := UInt8.lt_iff_toNat_lt.mp (hascii c hc)
  rw [hw]
  intro h0
  have hnat := toUpper_toNat c
  rw [h0, direntDeleted] at hnat
  split_ifs at hnat
  · simp at hnat
    omega
  · simp at hnat
    omega

end Names

lemma agree_freed_of_notMem {fs : Fs} {X : View} {l l₁ : List ℕ}
    (h : ∀ c ∈ l₁, c ∉ X.ownedBy fs l) : Agree fs X (X.freed l₁) l := fun c hc =>
  ⟨View.freed_fat_of_notMem fun hl => h c hl hc, rfl⟩

/-! ### Publishing an entry -/

/-- What the names stand for once the file `w` is published with the contents
`buf`. A stored name that starts with the deleted marker is not seen by anyone. -/
def published (M : Name83 → Option Node) (w : Name83) (buf : List UInt8) :
    Name83 → Option Node :=
  if w 0 = direntDeleted then M else Function.update M w (some (.file buf))

/-- The bytes `buf` for the file `w` are in the chain `m` from `a` on, which nobody
owns. -/
structure Loaded (fs : Fs) (Y : View) (l : List ℕ) (w : Name83) (a : ℕ) (m : List ℕ)
    (buf : List UInt8) : Prop where
  formed : Formed fs Y l
  owns : Owns fs Y a m
  apart : ∀ c ∈ m, c ∉ Y.ownedBy fs l
  bytes : (chainBytes fs Y m).take buf.length = buf
  start_lt : a < 2 ^ 32
  length_lt : buf.length < 2 ^ 32
  name_ne : w 0 ≠ direntFree

/-- The slot `s` is free or holds the entry to replace; `R` are the other live
slots. -/
structure Ready (fs : Fs) (Y : View) (l : List ℕ) (s : Slot) (R : List Slot) (w : Name83) (a : ℕ)
    (m : List ℕ) (buf : List UInt8) : Prop extends Loaded fs Y l w a m buf where
  slot : SlotAt fs Y l s R
  replaces : s ∈ Y.liveSlots fs l → (Y.entry s).name = w
  names : ∀ t ∈ R, (Y.entry t).name ≠ w

namespace Ready

variable {fs : Fs} {Y : View} {l : List ℕ} {s : Slot} {R : List Slot} {w : Name83} {a : ℕ}
  {m : List ℕ} {buf : List UInt8} (h : Ready fs Y l s R w a m buf)

include h

lemma length_le : buf.length ≤ m.length * fs.bytesPerCluster := by
  have hlen := congrArg List.length h.bytes
  rw [List.length_take, chainBytes_length] at hlen
  omega

lemma admits : Admits fs Y l R (newDirent w a buf.length) m where
  owns := by
    rw [newDirent_firstCluster h.start_lt]
    exact h.owns
  size := fun _ => by
    rw [newDirent_size h.length_lt]
    exact h.length_le
  name := fun t ht => by
    rw [newDirent_name]
    exact h.names t ht
  root := fun c hc hl => h.apart c hc (Formed.mem_owned_root hl)
  apart := fun c hc t ht hct => h.apart c hc (Formed.mem_owned_slot (h.slot.mem_live ht) hct)

lemma formed_put : Formed fs (Y.put s (newDirent w a buf.length)) l :=
  h.formed.put h.slot (by rw [newDirent_zero]; exact h.name_ne) fun _ => h.admits

lemma sameFile_put {w' : Name83} (hw : w' ≠ w ∨ w 0 = direntDeleted) :
    SameFile fs Y l (Y.put s (newDirent w a buf.length)) l w' := by
  have he : newDirent w a buf.length 0 ≠ direntFree := by rw [newDirent_zero]; exact h.name_ne
  refine h.formed.sameFile_put h.slot he h.formed_put (fun hs hn => ?_) fun hl hn => ?_
  · rw [h.replaces hs] at hn
    rcases hw with hw | hdel
    · exact hw hn.symm
    · -- a live slot does not hold a name that starts with the deleted marker
      have hused := (used_iff.mp (Slots.mem_live hs).2.2).1
      rw [← h.replaces hs] at hdel
      exact hused hdel
  · rw [newDirent_name] at hn
    exact hw.elim (fun hw => hw hn.symm) (newDirent_live.mp hl)

lemma node_put :
    (Y.put s (newDirent w a buf.length)).node fs l = published (Y.node fs l) w buf := by
  have he : newDirent w a buf.length 0 ≠ direntFree := by rw [newDirent_zero]; exact h.name_ne
  funext w'
  rw [published]
  split_ifs with hdel
  · exact (h.sameFile_put (.inr hdel)).node_eq
  · by_cases hw : w' = w
    · subst hw
      have hfind := Formed.findSlot_put_self h.slot he h.formed_put (newDirent_live.mpr hdel)
      have hcl : Owns fs (Y.put s (newDirent w' a buf.length)) a m := h.owns
      have hdata : chainBytes fs (Y.put s (newDirent w' a buf.length)) m = chainBytes fs Y m :=
        chainBytes_congr fun c hc => put_data_of_ne fun hcs => h.apart c hc
          (Formed.mem_owned_root (hcs ▸ (mem_slotsOf.mp h.slot.mem).1))
      rw [newDirent_name] at hfind
      rw [Function.update_self, View.node, hfind, Option.map_some, entry_put_self,
        newDirent_isDirectory, View.fileBytes, View.slotClusters, entry_put_self,
        newDirent_firstCluster h.start_lt, newDirent_size h.length_lt, hcl.clustersFrom_eq, hdata,
        h.bytes]
      rfl
    · rw [Function.update_of_ne hw]
      exact (h.sameFile_put (.inl hw)).node_eq

/-- After publishing nobody owns the replaced chain. -/
lemma agree_freed {l₁ : List ℕ} (hl : l₁ ⊆ Y.oldClusters fs s) :
    Agree fs (Y.put s (newDirent w a buf.length))
      ((Y.put s (newDirent w a buf.length)).freed l₁) l := by
  have he : newDirent w a buf.length 0 ≠ direntFree := by rw [newDirent_zero]; exact h.name_ne
  refine agree_freed_of_notMem fun c hc hown => ?_
  rcases (h.slot.mem_ownedBy_put h.formed he).mp hown with ⟨-, hnew⟩ | ⟨-, hnot⟩
  · rw [newDirent_firstCluster h.start_lt, h.owns.clustersFrom_eq] at hnew
    exact h.apart c hnew (h.slot.ownedBy_perm.mem_iff.mpr (List.mem_append_left _ (hl hc)))
  · exact hnot (hl hc)

end Ready

section Choices

variable {fs : Fs} {Y X : View} {l : List ℕ} {s : Slot} {w : Name83} {a z : ℕ} {m : List ℕ}
  {buf : List UInt8}

/-- The slot in which a name is found, with the other live slots. -/
lemma Formed.slotAt_find (h : Formed fs Y l) (hs : Y.findSlot fs l w = some s) :
    ∃ R, SlotAt fs Y l s R ∧ Y.occupied s = true ∧ (Y.entry s).name = w ∧
      ∀ t ∈ R, (Y.entry t).name ≠ w := by
  obtain ⟨P, Q, hPQ, hP, -, hend, hused, -⟩ := Slots.find?_live_split hs
  obtain ⟨hlive, hname⟩ := h.findSlot_eq_some.mp hs
  have hat := h.slotAt hPQ hP
  refine ⟨_, hat, by rw [View.occupied, hend, hused]; rfl, hname, fun t ht hn => ?_⟩
  have hts := h.findSlot_eq_some.mpr ⟨hat.mem_live ht, hn⟩
  rw [hs] at hts
  exact hat.notMem (Option.some.inj hts ▸ ht)

/-- The first reusable slot, with the live slots. -/
lemma Formed.slotAt_reusable (h : Formed fs Y l)
    (hs : (slotsOf fs l).find? Y.reusable = some s) :
    ∃ R, SlotAt fs Y l s R ∧ Y.occupied s = false := by
  obtain ⟨hre, P, Q, hPQ, hP⟩ := List.find?_eq_some_iff_append.mp hs
  have hends : ∀ p ∈ P, Y.ends p = false := by
    intro p hp
    have hnot := hP p hp
    simp only [View.reusable, Bool.not_eq_true', Bool.or_eq_false_iff] at hnot
    exact hnot.1
  refine ⟨_, h.slotAt hPQ hends, ?_⟩
  rcases reusable_iff.mp hre with h0 | h0
  · simp [View.occupied, View.ends, h0]
  · simp [View.occupied, View.used, h0]

lemma Loaded.replace (h : Loaded fs Y l w a m buf) (hs : Y.findSlot fs l w = some s) :
    ∃ R, Ready fs Y l s R w a m buf ∧ Y.occupied s = true := by
  obtain ⟨R, hat, hocc, hname, hR⟩ := h.formed.slotAt_find hs
  exact ⟨R, ⟨h, hat, fun _ => hname, hR⟩, hocc⟩

lemma Loaded.reuse (h : Loaded fs Y l w a m buf) (hnone : Y.findSlot fs l w = none)
    (hs : (slotsOf fs l).find? Y.reusable = some s) :
    ∃ R, Ready fs Y l s R w a m buf ∧ Y.occupied s = false := by
  obtain ⟨R, hat, hocc⟩ := h.formed.slotAt_reusable hs
  refine ⟨R, ⟨h, hat, fun hlive => ?_, fun t ht hn => ?_⟩, hocc⟩
  · rw [hat.mem_live_self, hocc] at hlive
    exact absurd hlive (by simp)
  · have hts := h.formed.findSlot_eq_some.mpr ⟨hat.mem_live ht, hn⟩
    rw [hnone] at hts
    exact absurd hts (by simp)

/-- Growing the directory does not touch the chain that is to be published. -/
lemma Loaded.grow (g : Geometry fs) (h : Loaded fs Y l w a m buf) (hx : Grown fs Y X l z)
    (hfull : ∀ s ∈ slotsOf fs l, Y.ends s = false) (hz : X.link fs z = .stop) :
    Loaded fs X (l ++ [z]) w a m buf := by
  have hm : ∀ c ∈ m, Y.fat c ≠ 0 := fun c hc => h.owns.fat_ne_zero hc
  refine ⟨h.formed.grow g hx hfull hz, h.owns.congr fun c hc => hx.fat c (hm c hc) fun hlast => ?_,
    fun c hc hown => ?_, ?_, h.start_lt, h.length_lt, h.name_ne⟩
  · exact h.apart c hc (Formed.mem_owned_root (List.mem_of_getLast? hlast))
  · rcases List.mem_cons.mp ((hx.ownedBy_perm h.formed hfull).mem_iff.mp hown) with rfl | hown
    · exact hm c hc hx.free
    · exact h.apart c hc hown
  · rw [chainBytes_congr fun c hc => hx.data c (hm c hc)]
    exact h.bytes

/-- The first slot of the new cluster is the first reusable one. -/
lemma Grown.find?_reusable (g : Geometry fs) (h : Formed fs Y l) (hx : Grown fs Y X l z)
    (hnone : (slotsOf fs l).find? Y.reusable = none) :
    (slotsOf fs (l ++ [z])).find? X.reusable = some (z, 0) := by
  have hold : (slotsOf fs l).find? X.reusable = none :=
    (find?_reusable_congr fun _ => hx.entry_eq h).trans hnone
  obtain ⟨n, hn⟩ : ∃ n, entriesPerCluster fs = n + 1 := by
    refine ⟨entriesPerCluster fs - 1, ?_⟩
    have := g.cluster_pos
    rw [entriesPerCluster, direntBytes, g.bytesPerCluster]
    omega
  have hslots : slotsOf fs [z] = (z, 0) :: (List.range' 1 n).map fun i => (z, i) := by
    rw [slotsOf, List.flatMap_singleton, clusterSlots, hn, List.range'_succ, List.map_cons]
  have hends : X.ends (z, 0) = true :=
    hx.ends_new (List.mem_map.mpr ⟨0, List.mem_range'_1.mpr (by omega), rfl⟩)
  rw [slotsOf_append, List.find?_append, hold, hslots, List.find?_cons_of_pos]
  · rfl
  · exact reusable_iff.mpr (.inl (ends_iff.mp hends))

end Choices

/-! ### Unpublishing an entry -/

section Unpublish

variable {fs : Fs} {V : View} {l : List ℕ} {s : Slot} {R : List Slot} {w : Name83} {e : Dirent}

/-- A deleted entry keeps the volume well formed. -/
lemma Formed.put_deleted (h : Formed fs V l) (hs : SlotAt fs V l s R) :
    Formed fs (V.put s (markDeleted e)) l :=
  h.put (m := []) hs (by rw [markDeleted_zero]; decide) fun hl => by simp [markDeleted_live] at hl

lemma Formed.sameFile_put_deleted (h : Formed fs V l) (hs : SlotAt fs V l s R)
    (hw : (V.entry s).name ≠ w) : SameFile fs V l (V.put s (markDeleted e)) l w :=
  h.sameFile_put hs (by rw [markDeleted_zero]; decide) (h.put_deleted hs) (fun _ => hw) fun hl => by
    simp [markDeleted_live] at hl

/-- The name of a deleted entry is gone, and nothing else. -/
lemma Formed.node_put_deleted (h : Formed fs V l) (hs : SlotAt fs V l s R)
    (hw : (V.entry s).name = w) (hR : ∀ t ∈ R, (V.entry t).name ≠ w) :
    (V.put s (markDeleted e)).node fs l = Function.update (V.node fs l) w none := by
  have he : markDeleted e 0 ≠ direntFree := by rw [markDeleted_zero]; decide
  have hf : Formed fs (V.put s (markDeleted e)) l := h.put_deleted hs
  funext w'
  by_cases hne : w' = w
  · subst hne
    rw [Function.update_self, View.node,
      Formed.findSlot_put_dead hs he hf (markDeleted_live e) hR, Option.map_none]
  · rw [Function.update_of_ne hne]
    exact (h.sameFile_put_deleted hs fun hn => hne (by rw [← hn, hw])).node_eq

/-- After it nobody owns the chain of the deleted file. -/
lemma Formed.agree_freed_deleted (h : Formed fs V l) (hs : SlotAt fs V l s R) {l₁ : List ℕ}
    (hl : l₁ ⊆ V.oldClusters fs s) :
    Agree fs (V.put s (markDeleted e)) ((V.put s (markDeleted e)).freed l₁) l := by
  have he : markDeleted e 0 ≠ direntFree := by rw [markDeleted_zero]; decide
  refine agree_freed_of_notMem fun c hc hown => ?_
  rcases (hs.mem_ownedBy_put h he).mp hown with ⟨hlive, -⟩ | ⟨-, hnot⟩
  · simp [markDeleted_live] at hlive
  · exact hnot (hl hc)

end Unpublish

/-! ### Lost clusters -/

/-- The clusters in use that neither the directory `l` nor a live entry owns. -/
def View.lostBy (fs : Fs) (V : View) (l : List ℕ) : Finset ℕ :=
  (Finset.Ico 2 (fs.totalClusters + 2)).filter fun c => V.fat c ≠ 0 ∧ c ∉ V.ownedBy fs l

section Lost

variable {fs : Fs} {V X : View} {l m : List ℕ} {s : Slot} {R : List Slot} {e : Dirent} {c : ℕ}

lemma mem_lostBy : c ∈ V.lostBy fs l ↔ InRange fs c ∧ V.fat c ≠ 0 ∧ c ∉ V.ownedBy fs l := by
  simp [View.lostBy, InRange]

/-- Every cluster is free, owned or lost. -/
lemma Formed.card_add_lost (h : Formed fs V l) :
    (V.freeClusters fs).card + (V.ownedBy fs l).length + (V.lostBy fs l).card =
      fs.totalClusters := by
  have hused : (Finset.Ico 2 (fs.totalClusters + 2)).filter (fun c => V.fat c ≠ 0) =
      (V.ownedBy fs l).toFinset ∪ V.lostBy fs l := by
    ext c
    rw [Finset.mem_union, List.mem_toFinset, mem_lostBy, Finset.mem_filter, Finset.mem_Ico]
    constructor
    · rintro ⟨hr, h0⟩
      by_cases hc : c ∈ V.ownedBy fs l
      · exact .inl hc
      · exact .inr ⟨hr, h0, hc⟩
    · rintro (hc | ⟨hr, h0, -⟩)
      · exact ⟨h.inRange hc, h.fat_ne_zero hc⟩
      · exact ⟨hr, h0⟩
  have hdisj : Disjoint (V.ownedBy fs l).toFinset (V.lostBy fs l) :=
    Finset.disjoint_left.mpr fun c hc hlost => (mem_lostBy.mp hlost).2.2 (List.mem_toFinset.mp hc)
  have hsplit := Finset.card_filter_add_card_filter_not (s := Finset.Ico 2 (fs.totalClusters + 2))
    fun c => V.fat c = 0
  rw [hused, Finset.card_union_of_disjoint hdisj, List.toFinset_card_of_nodup h.disjoint,
    Nat.card_Ico] at hsplit
  rw [View.freeClusters]
  omega

/-- An entry replaced and its chain freed: what the new entry owns is not lost any
more, and nothing new is. -/
lemma mem_lostBy_replaced (h : Formed fs V l) (hs : SlotAt fs V l s R) (he : e 0 ≠ direntFree)
    (ha : Agree fs (V.put s e) ((V.put s e).freed (V.oldClusters fs s)) l)
    (hf : Formed fs (V.put s e) l) :
    c ∈ ((V.put s e).freed (V.oldClusters fs s)).lostBy fs l ↔ c ∈ V.lostBy fs l ∧
      ¬(direntLive e = true ∧ c ∈ V.clustersFrom fs (direntFirstCluster e)) := by
  have hfat : ((V.put s e).freed (V.oldClusters fs s)).fat c =
      if c ∈ V.oldClusters fs s then 0 else V.fat c := rfl
  have hold : c ∈ V.oldClusters fs s → c ∈ V.ownedBy fs l := fun hc =>
    hs.ownedBy_perm.mem_iff.mpr (List.mem_append_left _ hc)
  rw [mem_lostBy, mem_lostBy, hf.ownedBy_eq ha, hs.mem_ownedBy_put h he, hfat]
  split_ifs with hc
  · tauto
  · tauto

end Lost

end TownOS
