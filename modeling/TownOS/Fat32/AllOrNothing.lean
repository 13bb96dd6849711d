import TownOS.Fat32.Corrupt

/-!
`alloc_chain` on a FAT of any content (`fs/fat32.c`).

The chain is built by turns: a search for a free cluster from the hint on, and the update of the
link that leads to it. When the search finds nothing, what has been built is undone by following
the links. Nothing is assumed of the entries or of the hint, only that the FAT copies lie apart
and agree.

* `picks`: the clusters that the searches find, from the free entries and the hint alone;
* `Took`: some clusters that were free have been given entries, in every copy, and no other byte
  of the disk has changed; `Took.undone`: freeing them restores the disk;
* `Progress`: what the loop has built; `does_allocChainLoop_asRead`: every turn keeps it;
* `allocChain_all_or_nothing_iff`: all or nothing, exactly if the clusters that are found can be
  linked to (`Linkable`); `linkable_of_limit`: always so where cluster numbers stay below the marks
  for bad clusters and ends of chains; `allocChain_loses_link`: a larger volume.
-/

namespace TownOS

open Durable Bytes Linked

/-- The FAT copies hold the same entries, up to the reserved bits. -/
def CopiesAgree (fs : Fs) (d : ℕ → UInt8) : Prop :=
  ∀ n < fs.numFats, ∀ c, clusterInRange fs c = true →
    le32 d (entryAddr fs n c) % 2 ^ 28 = (asRead fs d).fat c

/-- The clusters whose entries read as free. -/
def freeEntries (fs : Fs) (d : ℕ → UInt8) : Finset ℕ :=
  (Finset.Ico 2 (clusterLimit fs)).filter fun c => (asRead fs d).fat c = 0

/-- The clusters `l`, free on the disk `d`, have been given entries in all FAT copies; their
reserved bits, and every other byte of the disk, are as before. -/
structure Took (fs : Fs) (d d' : ℕ → UInt8) (l : List ℕ) : Prop where
  free : ∀ c ∈ l, c ∈ freeEntries fs d
  reserved : ∀ n < fs.numFats, ∀ c, clusterInRange fs c = true →
    le32 d' (entryAddr fs n c) / 2 ^ 28 = le32 d (entryAddr fs n c) / 2 ^ 28
  agree : CopiesAgree fs d'
  other : ∀ p, (∀ n < fs.numFats, ∀ c ∈ l, p < entryAddr fs n c ∨ entryAddr fs n c + 4 ≤ p) →
    d' p = d p

/-- From `d` to `d'` a chain of `n` clusters that starts at `a` has been allocated: they were
free, each names the next, and the last has an end marker. -/
def NewChain (fs : Fs) (d d' : ℕ → UInt8) (a n : ℕ) : Prop :=
  ∃ l, l.length = n ∧ Chain ((asRead fs d').nextLink fs) a l ∧ Took fs d d' l

/-- `alloc_chain` without disk failures allocates all that is needed, or returns `-1` and leaves
the disk as it was. -/
def AllOrNothing (fs : Fs) (v : Vol) (bytes : ℕ) : Prop :=
  let o := (allocChain fs bytes).run v []
  if clustersFor fs bytes ≤ (freeEntries fs v.disk).card then
    ∃ a, o.value = some a ∧ NewChain fs v.disk o.state.disk a (clustersFor fs bytes)
  else o.value = none ∧ o.state.disk = v.disk

/-- The most a system call can pass, 6 MB. -/
def maxTransfer : ℕ := 6 * 2 ^ 20

/-- The order in which `find_free_cluster` looks at the clusters. -/
def searchOrder (fs : Fs) (hint : ℕ) : List ℕ :=
  List.range' (scanStart fs hint) (clusterLimit fs - scanStart fs hint) ++
    List.range' firstDataCluster (scanStart fs hint - firstDataCluster)

/-- The hint once cluster `c` has been handed out. -/
def hintAfter (fs : Fs) (c : ℕ) : ℕ := if c + 1 < clusterLimit fs then c + 1 else firstDataCluster

/-- The clusters that up to `n` searches find one after the other when the clusters of `free` are
free and each search takes what it finds. -/
def picks (fs : Fs) : ℕ → Finset ℕ → ℕ → List ℕ
  | 0, _, _ => []
  | n + 1, free, hint =>
    match (searchOrder fs hint).find? (· ∈ free) with
    | none => []
    | some c => c :: picks fs n (free.erase c) (hintAfter fs c)

/-- The clusters that `bytes` bytes take can be linked to: every one after the first has a number
below the mark for bad clusters. If there are too few, it is enough that `free_chain` finds its way
back along them: their numbers have 28 bits, and the end marker is not the number of a cluster in
use. -/
def Linkable (fs : Fs) (v : Vol) (bytes : ℕ) : Prop :=
  let free := freeEntries fs v.disk
  let taken := picks fs (clustersFor fs bytes) free v.hint
  if clustersFor fs bytes ≤ free.card then ∀ c ∈ taken.tail, c < fat32ClusterBad
  else (∀ c ∈ taken.tail, c < 2 ^ 28) ∧
    (taken = [] ∨ (clusterInRange fs fat32ClusterEnd = true → fat32ClusterEnd ∈ free))

section Entries

variable {fs : Fs} {V W : View} {d d' d'' : ℕ → UInt8} {a b c x n : ℕ} {l : List ℕ}

lemma mem_freeEntries :
    c ∈ freeEntries fs d ↔ clusterInRange fs c = true ∧ (asRead fs d).fat c = 0 := by
  rw [freeEntries, Finset.mem_filter, Finset.mem_Ico, clusterInRange_iff]

/-! ### Chains as they are read -/

lemma entry_ne_zero_of_chain (h : Chain (V.nextLink fs) a l) (hc : c ∈ l) : V.fat c ≠ 0 := by
  obtain ⟨t, ht, -⟩ := h.suffix hc
  intro h0
  have hbroken : V.nextLink fs c = .broken := by
    rw [View.nextLink, h0, if_neg (by decide), if_pos (.inl rfl)]
  cases ht with
  | stop hs => exact absurd (hbroken.symm.trans hs) (by simp)
  | next hb _ => exact absurd (hbroken.symm.trans hb) (by simp)

/-- A cluster number below the marks is read back as a link. -/
lemma nextLink_eq_next (hb : clusterInRange fs b = true) (hlt : b < fat32ClusterBad)
    (h : V.fat c = b) : V.nextLink fs c = .next b := by
  have hlo := (clusterInRange_iff.mp hb).1
  rw [fat32ClusterBad] at hlt
  rw [View.nextLink, h, fat32ClusterEnd, fat32ClusterFree, fat32ClusterBad, if_neg (by omega),
    if_neg]
  rintro (h0 | hbad | hrange)
  · omega
  · omega
  · simp [hb] at hrange

/-- Entries that name one cluster after the other, up to an end marker, are a chain. -/
lemma chain_of_isChain (hl : (a :: l).IsChain fun x y => V.fat x = y)
    (hlast : ∀ c, (a :: l).getLast? = some c → V.fat c = fat32ClusterEnd)
    (hin : ∀ c ∈ l, clusterInRange fs c = true ∧ c < fat32ClusterBad) :
    Chain (V.nextLink fs) a (a :: l) := by
  induction l generalizing a with
  | nil =>
    refine .stop ?_
    rw [View.nextLink, hlast a rfl, if_pos le_rfl]
  | cons b l ih =>
    obtain ⟨hab, hl⟩ := List.isChain_cons_cons.mp hl
    obtain ⟨hb, hlt⟩ := hin b List.mem_cons_self
    refine .next (nextLink_eq_next hb hlt hab) (ih hl (fun c hc => hlast c ?_) fun c hc => ?_)
    · rwa [List.getLast?_cons_cons]
    · exact hin c (List.mem_cons_of_mem b hc)

/-- The clusters of a chain after its first are below the marks. -/
lemma lt_bad_of_chain (h : Chain (V.nextLink fs) a l) (hc : c ∈ l) (hne : c ≠ a) :
    c < fat32ClusterBad := by
  induction h with
  | stop => exact absurd (List.mem_singleton.mp hc) hne
  | @next a b l hb _ ih =>
    have hmem := (List.mem_cons.mp hc).resolve_left hne
    by_cases hcb : c = b
    · obtain ⟨hfat, -⟩ := View.nextLink_next hb
      rw [View.nextLink, hfat] at hb
      split_ifs at hb with hend hbad
      rw [fat32ClusterEnd] at hend
      rw [fat32ClusterBad] at hbad ⊢
      omega
    · exact ih hmem hcb

lemma Reached.lt (hr : Reached fs (asRead fs d) a c) (hne : c ≠ a) : c < 2 ^ 28 := by
  rcases Relation.ReflTransGen.cases_tail hr.2 with rfl | ⟨b, -, rfl, -⟩
  · exact absurd rfl hne
  · exact Nat.mod_lt _ (by decide)

lemma reached_of_isChain (hl : (a :: l).IsChain fun x y => V.fat x = y)
    (hin : ∀ c ∈ a :: l, clusterInRange fs c = true) (hc : c ∈ a :: l) : Reached fs V a c := by
  induction l generalizing a with
  | nil =>
    obtain rfl := List.mem_singleton.mp hc
    exact ⟨hin c hc, .refl⟩
  | cons b l ih =>
    obtain ⟨rfl, hl⟩ := List.isChain_cons_cons.mp hl
    rw [reached_iff (hin a List.mem_cons_self)]
    exact (List.mem_cons.mp hc).imp_right (ih hl fun e he => hin e (List.mem_cons_of_mem a he))

/-! ### Entries that are set -/

variable (h : Mounted fs) (ht : Tables fs)

include h ht

lemma Patched.le32_eq (hp : Patched fs c x fs.numFats d d') (hc : clusterInRange fs c = true)
    (hb : clusterInRange fs b = true) (hne : b ≠ c) (hn : n < fs.numFats) :
    le32 d' (entryAddr fs n b) = le32 d (entryAddr fs n b) := by
  refine le32_congr fun i hi => hp.other _ fun m hm => ?_
  have := entryAddr_apart h ht hn hm hb hc (.inr hne)
  omega

lemma Patched.fat_of_ne (hp : Patched fs c x fs.numFats d d') (hc : clusterInRange fs c = true)
    (hb : clusterInRange fs b = true) (hne : b ≠ c) :
    (asRead fs d').fat b = (asRead fs d).fat b :=
  congrArg (· % 2 ^ 28) (hp.le32_eq h ht hc hb hne h.fats_pos)

omit ht in
lemma Patched.fat_self (hp : Patched fs c x fs.numFats d d') :
    (asRead fs d').fat c = x % 2 ^ 28 :=
  (congrArg (· % 2 ^ 28) (hp.entry 0 h.fats_pos)).trans (mergeEntry_mod _ _)

lemma Patched.copiesAgree (hp : Patched fs c x fs.numFats d d') (hc : clusterInRange fs c = true)
    (hd : CopiesAgree fs d) : CopiesAgree fs d' := by
  intro n hn b hb
  by_cases hne : b = c
  · subst hne
    rw [hp.fat_self h, hp.entry n hn, mergeEntry_mod]
  · rw [hp.fat_of_ne h ht hc hb hne, hp.le32_eq h ht hc hb hne hn, hd n hn b hb]

omit h ht in
lemma Took.refl (hd : CopiesAgree fs d) : Took fs d d [] :=
  ⟨by simp, fun _ _ _ _ => rfl, hd, fun _ _ => rfl⟩

/-- The clusters that have not been taken have their old entries. -/
lemma Took.fat_of_notMem (hT : Took fs d d' l) (hc : clusterInRange fs c = true) (hcl : c ∉ l) :
    (asRead fs d').fat c = (asRead fs d).fat c := by
  refine congrArg (· % 2 ^ 28) (le32_congr fun i hi => hT.other _ fun n hn b hb => ?_)
  have := entryAddr_apart h ht h.fats_pos hn hc (mem_freeEntries.mp (hT.free b hb)).1
    (.inr (ne_of_mem_of_not_mem hb hcl).symm)
  omega

/-- One more entry is set, of a cluster that is or is to be among those taken. -/
lemma Took.patched {l' : List ℕ} (hT : Took fs d d' l) (hp : Patched fs c x fs.numFats d' d'')
    (hc : c ∈ freeEntries fs d) (hl : ∀ b, b ∈ l' ↔ b ∈ l ∨ b = c) : Took fs d d'' l' := by
  have hrange := (mem_freeEntries.mp hc).1
  refine ⟨fun b hb => ?_, fun n hn b hb => ?_, hp.copiesAgree h ht hrange hT.agree, fun p hp' => ?_⟩
  · obtain hb | rfl := (hl b).mp hb
    · exact hT.free b hb
    · exact hc
  · rw [← hT.reserved n hn b hb]
    by_cases hne : b = c
    · subst hne
      rw [hp.entry n hn, mergeEntry]
      omega
    · rw [hp.le32_eq h ht hrange hb hne hn]
  · rw [hp.other p fun n hn => hp' n hn c ((hl c).mpr (.inr rfl))]
    exact hT.other p fun n hn b hb => hp' n hn b ((hl b).mpr (.inl hb))

omit h ht in
/-- **Freeing what was taken restores the disk**, to the last byte: the entries were zero up to
their reserved bits, in every copy. -/
lemma Took.undone {T : Finset ℕ} (hT : Took fs d d' l) (hd : CopiesAgree fs d)
    (hf : Freed fs T d' d'') (hl : ∀ c, c ∈ T ↔ c ∈ l) : d'' = d := by
  funext p
  by_cases hp : ∀ n < fs.numFats, ∀ c ∈ l, p < entryAddr fs n c ∨ entryAddr fs n c + 4 ≤ p
  · rw [hf.other p fun n hn c hc => hp n hn c ((hl c).mp hc), hT.other p hp]
  · push Not at hp
    obtain ⟨n, hn, c, hc, hlo, hhi⟩ := hp
    obtain ⟨hrange, hzero⟩ := mem_freeEntries.mp (hT.free c hc)
    have hfree : le32 d (entryAddr fs n c) % 2 ^ 28 = 0 := (hd n hn c hrange).trans hzero
    have heq : le32 d'' (entryAddr fs n c) = le32 d (entryAddr fs n c) := by
      rw [hf.entry n hn c ((hl c).mpr hc), hT.reserved n hn c hrange]
      omega
    obtain ⟨k, rfl⟩ : ∃ k, p = entryAddr fs n c + k := ⟨p - entryAddr fs n c, by omega⟩
    exact byte_eq_of_le32_eq heq (by omega)

/-- A chain of as many clusters as were taken consists of them. -/
lemma Took.lt_bad_of_newChain (hT : Took fs d d' l) (hnew : NewChain fs d d' a l.length)
    (hc : c ∈ l) (hne : c ≠ a) : c < fat32ClusterBad := by
  obtain ⟨l', hlen, hch, hT'⟩ := hnew
  have hsub : l'.toFinset ⊆ l.toFinset := by
    intro b hb
    rw [List.mem_toFinset] at hb ⊢
    obtain ⟨hrange, hzero⟩ := mem_freeEntries.mp (hT'.free b hb)
    by_contra hbl
    exact entry_ne_zero_of_chain hch hb ((hT.fat_of_notMem h ht hrange hbl).trans hzero)
  have hcard : l.toFinset.card ≤ l'.toFinset.card := by
    rw [List.toFinset_card_of_nodup hch.nodup, hlen]
    exact l.toFinset_card_le
  have hmem : c ∈ l'.toFinset := by
    rw [Finset.eq_of_subset_of_card_le hsub hcard]
    exact List.mem_toFinset.mpr hc
  exact lt_bad_of_chain hch (List.mem_toFinset.mp hmem) hne

/-- When no entry is free any more, all that were free have been taken. -/
lemma Took.card_le (hT : Took fs d d' l) (hfull : freeEntries fs d' = ∅) :
    (freeEntries fs d).card ≤ l.length := by
  have hsub : freeEntries fs d ⊆ l.toFinset := by
    intro c hc
    by_contra hcl
    rw [List.mem_toFinset] at hcl
    obtain ⟨hrange, hzero⟩ := mem_freeEntries.mp hc
    have hmem : c ∈ freeEntries fs d' :=
      mem_freeEntries.mpr ⟨hrange, (hT.fat_of_notMem h ht hrange hcl).trans hzero⟩
    rw [hfull] at hmem
    exact absurd hmem (Finset.notMem_empty c)
  exact (Finset.card_le_card hsub).trans l.toFinset_card_le

omit h ht in
lemma Took.le_card (hT : Took fs d d' l) (hl : l.Nodup) : l.length ≤ (freeEntries fs d).card := by
  rw [← List.toFinset_card_of_nodup hl]
  exact Finset.card_le_card fun c hc => hT.free c (List.mem_toFinset.mp hc)

end Entries

/-! ### Searching -/

section Searching

variable {fs : Fs} {free : Finset ℕ} {c n hint : ℕ}

lemma mem_searchOrder : c ∈ searchOrder fs hint ↔ clusterInRange fs c = true := by
  have hstart : 2 ≤ scanStart fs hint ∧
      (scanStart fs hint ≤ clusterLimit fs ∨ scanStart fs hint = 2) := by
    rw [scanStart, firstDataCluster]
    split_ifs <;> omega
  rw [searchOrder, List.mem_append, List.mem_range'_1, List.mem_range'_1, clusterInRange_iff,
    firstDataCluster]
  omega

lemma mem_of_mem_picks (hc : c ∈ picks fs n free hint) : c ∈ free := by
  induction n generalizing free hint with
  | zero => cases hc
  | succ n ih =>
    rw [picks] at hc
    cases hfind : (searchOrder fs hint).find? (· ∈ free) with
    | none =>
      rw [hfind] at hc
      cases hc
    | some b =>
      rw [hfind] at hc
      rcases List.mem_cons.mp hc with rfl | hc
      · simpa using List.find?_some hfind
      · exact Finset.mem_of_mem_erase (ih hc)

lemma picks_empty : picks fs n ∅ hint = [] := by
  cases n with
  | zero => rfl
  | succ n =>
    have hfind : (searchOrder fs hint).find? (· ∈ (∅ : Finset ℕ)) = none :=
      List.find?_eq_none.mpr fun _ _ => by simp
    rw [picks, hfind]

/-- On a volume whose cluster numbers are below the marks all clusters can be linked to. -/
lemma linkable_of_limit (hlim : clusterLimit fs ≤ fat32ClusterBad) (v : Vol) (bytes : ℕ) :
    Linkable fs v bytes := by
  have hlt : ∀ c ∈ (picks fs (clustersFor fs bytes) (freeEntries fs v.disk) v.hint).tail,
      c < fat32ClusterBad := fun c hc =>
    (clusterInRange_iff.mp (mem_freeEntries.mp
      (mem_of_mem_picks (List.mem_of_mem_tail hc))).1).2.trans_le hlim
  have hend : ¬ clusterInRange fs fat32ClusterEnd = true := fun hin =>
    absurd ((clusterInRange_iff.mp hin).2.trans_le hlim) (by decide)
  rw [Linkable]
  split_ifs
  · exact hlt
  · exact ⟨fun c hc => (hlt c hc).trans_le (by decide), .inr fun hin => absurd hin hend⟩

/-- `find_free_cluster` takes the first free cluster in the order of the search. -/
lemma does_findFreeCluster_asRead (h : Mounted fs) (v : Vol) :
    Act.Does True (findFreeCluster fs) v (fun _ => True)
      (fun b w => w = { v with hint := hintAfter fs b } ∧
        (searchOrder fs v.hint).find? (· ∈ freeEntries fs v.disk) = some b)
      fun w => w = v ∧ (searchOrder fs v.hint).find? (· ∈ freeEntries fs v.disk) = none := by
  have hfind : (searchOrder fs v.hint).find? (· ∈ freeEntries fs v.disk) =
      (firstFree (asRead fs v.disk) (scanStart fs v.hint)
        (clusterLimit fs - scanStart fs v.hint)).or
      (firstFree (asRead fs v.disk) firstDataCluster (scanStart fs v.hint - firstDataCluster)) := by
    have hcongr : ∀ c ∈ searchOrder fs v.hint,
        decide (c ∈ freeEntries fs v.disk) = decide ((asRead fs v.disk).fat c = 0) := fun c hc =>
      decide_eq_decide.mpr (mem_freeEntries.trans (and_iff_right (mem_searchOrder.mp hc)))
    rw [List.find?_congr hcongr, searchOrder, List.find?_append]
    rfl
  have hspan : ∀ (r : Option ℕ) {p : Act Vol (Option ℕ)}, Act.Reads p v (some r) →
      Act.Does True p v (fun _ => True) (fun b w => w = v ∧ r = b)
        fun w => w = v ∧ (searchOrder fs v.hint).find? (· ∈ freeEntries fs v.disk) = none :=
    fun r p hp => hp.does.mono (fun _ h => h) (fun _ _ h => ⟨h.1, Option.some.inj h.2⟩)
      fun _ h => absurd (h.2 trivial) (by simp)
  have hclaim : ∀ {b}, (searchOrder fs v.hint).find? (· ∈ freeEntries fs v.disk) = some b →
      Act.Does True (claimHint fs b) v (fun _ => True)
        (fun b w => w = { v with hint := hintAfter fs b } ∧
          (searchOrder fs v.hint).find? (· ∈ freeEntries fs v.disk) = some b)
        fun w => w = v ∧ (searchOrder fs v.hint).find? (· ∈ freeEntries fs v.disk) = none :=
    fun {b} hb => Act.Does.bind (Q := fun _ w => w = { v with hint := hintAfter fs b })
      (Act.does_get (Act.does_put (Act.does_pure rfl))) fun _ _ hw => Act.does_pure ⟨hw, hb⟩
  refine Act.does_get ((hspan _ (h.reads_scanSpan v le_rfl)).bind ?_)
  rintro (_ | b) w ⟨rfl, h1⟩
  · refine (hspan _ (h.reads_scanSpan w le_rfl)).bind ?_
    rintro (_ | b) x ⟨rfl, h2⟩
    · exact Act.does_fail ⟨rfl, by rw [hfind, h1, h2]; rfl⟩
    · exact hclaim (by rw [hfind, h1, h2]; rfl)
  · exact hclaim (by rw [hfind, h1]; rfl)

end Searching

/-! ### What the loop has built -/

/-- The clusters `l` taken from the volume `v₀` are those the searches find, and each names the
next. -/
structure Trail (fs : Fs) (v₀ v : Vol) (l : List ℕ) : Prop where
  nodup : l.Nodup
  below : ∀ c ∈ l.tail, c < 2 ^ 28
  links : l.IsChain fun x y => (asRead fs v.disk).fat x = y
  last : ∀ c, l.getLast? = some c → (asRead fs v.disk).fat c = fat32ClusterEnd
  rest : ∀ m, picks fs (l.length + m) (freeEntries fs v₀.disk) v₀.hint =
    l ++ picks fs m (freeEntries fs v.disk) v.hint

/-- Among the clusters `l` taken from the volume `v₀`, and among those the searches find, is one
that no entry can name. -/
def Astray (fs : Fs) (v₀ : Vol) (l : List ℕ) : Prop :=
  ∃ z ∈ l, z ≠ l.headD 0 ∧ 2 ^ 28 ≤ z ∧
    ∀ m, z ∈ (picks fs (l.length + m) (freeEntries fs v₀.disk) v₀.hint).tail

/-- The loop of `alloc_chain` has taken the clusters `l` from the volume `v₀`. Once a cluster is
lost, so is track of the rest: an entry that should name it may read as free, and be found again. -/
structure Progress (fs : Fs) (v₀ v : Vol) (l : List ℕ) : Prop where
  took : Took fs v₀.disk v.disk l
  course : Trail fs v₀ v l ∨ Astray fs v₀ l

section Building

variable {fs : Fs} {v₀ v w : Vol} {b c n : ℕ} {l : List ℕ}

lemma Progress.refl (hd : CopiesAgree fs v.disk) : Progress fs v v [] where
  took := .refl hd
  course := .inl ⟨.nil, by simp, .nil, by simp, fun m => by rw [List.length_nil, Nat.zero_add]; rfl⟩

lemma Took.inRange {d d' : ℕ → UInt8} (hT : Took fs d d' l) (hc : c ∈ l) :
    clusterInRange fs c = true :=
  (mem_freeEntries.mp (hT.free c hc)).1

/-- The entry of a cluster of the trail names another one or marks the end. -/
lemma Trail.fat_mem (hr : Trail fs v₀ v l) (hc : c ∈ l) :
    (asRead fs v.disk).fat c ∈ l ∨ (asRead fs v.disk).fat c = fat32ClusterEnd := by
  obtain ⟨s, t, rfl⟩ := List.append_of_mem hc
  cases t with
  | nil => exact .inr (hr.last c (by simp))
  | cons e t =>
    have hlink := (List.isChain_cons_cons.mp (List.isChain_append.mp hr.links).2.1).1
    rw [hlink]
    exact .inl (by simp)

lemma Trail.fat_ne_zero (hr : Trail fs v₀ v l) (hin : ∀ c ∈ l, clusterInRange fs c = true)
    (hc : c ∈ l) : (asRead fs v.disk).fat c ≠ 0 := by
  intro h0
  rcases hr.fat_mem hc with hmem | hend
  · have := (clusterInRange_iff.mp (hin _ hmem)).1
    omega
  · exact absurd (h0.symm.trans hend) (by decide)

/-- A cluster that the search finds is put at the end of the trail. -/
lemma Trail.concat (hr : Trail fs v₀ v l) (hin : ∀ c ∈ l, clusterInRange fs c = true)
    (hfind : (searchOrder fs v.hint).find? (· ∈ freeEntries fs v.disk) = some b)
    (hhint : w.hint = hintAfter fs b)
    (hfat : ∀ c, clusterInRange fs c = true → (asRead fs w.disk).fat c =
      if c = b then fat32ClusterEnd
      else if l.getLast? = some c then b % 2 ^ 28 else (asRead fs v.disk).fat c)
    (hb : l = [] ∨ b < 2 ^ 28) : Trail fs v₀ w (l ++ [b]) := by
  have hfree : b ∈ freeEntries fs v.disk := by simpa using List.find?_some hfind
  obtain ⟨hrange, hzero⟩ := mem_freeEntries.mp hfree
  have hbl : b ∉ l := fun hmem => hr.fat_ne_zero hin hmem hzero
  -- the entry that names `b` does not read as free
  have hleft : freeEntries fs w.disk = (freeEntries fs v.disk).erase b := by
    ext c
    rw [Finset.mem_erase, mem_freeEntries, mem_freeEntries, and_left_comm]
    refine and_congr_right fun hc => ?_
    rw [hfat c hc]
    split_ifs with hcb hcl
    · simp [hcb, fat32ClusterEnd]
    · have hmem := List.mem_of_getLast? hcl
      have hlt := hb.resolve_left (List.ne_nil_of_mem hmem)
      have hlo := (clusterInRange_iff.mp hrange).1
      rw [Nat.mod_eq_of_lt hlt]
      exact ⟨fun h0 => by omega, fun h0 => absurd h0.2 (hr.fat_ne_zero hin hmem)⟩
    · exact ⟨fun h0 => ⟨hcb, h0⟩, And.right⟩
  refine ⟨?_, fun c hc => ?_, List.isChain_append.mpr ⟨?_, .singleton b, ?_⟩, fun c hc => ?_,
    fun m => ?_⟩
  · rw [List.nodup_append]
    refine ⟨hr.nodup, List.nodup_singleton b, fun a ha c hc => ?_⟩
    rw [List.mem_singleton.mp hc]
    exact ne_of_mem_of_not_mem ha hbl
  · rcases hb with rfl | hb
    · simp at hc
    · by_cases hl : l = []
      · simp [hl] at hc
      · rw [List.tail_append_of_ne_nil hl, List.mem_append, List.mem_singleton] at hc
        rcases hc with hc | rfl
        · exact hr.below c hc
        · exact hb
  · -- inside `l` only the last entry has changed
    rw [List.isChain_iff_getElem]
    intro i hi
    have hmem : l[i] ∈ l := List.getElem_mem _
    rw [hfat _ (hin _ hmem), if_neg (ne_of_mem_of_not_mem hmem hbl), if_neg,
      List.isChain_iff_getElem.mp hr.links i hi]
    intro hlast
    rw [List.getLast?_eq_getElem?, List.getElem?_eq_getElem (by omega), Option.some.injEq,
      hr.nodup.getElem_inj_iff] at hlast
    omega
  · intro x hx y hy
    obtain rfl : b = y := by simpa using hy
    have hx : l.getLast? = some x := hx
    have hmem := List.mem_of_getLast? hx
    rw [hfat x (hin x hmem), if_neg (ne_of_mem_of_not_mem hmem hbl), if_pos hx,
      Nat.mod_eq_of_lt (hb.resolve_left (List.ne_nil_of_mem hmem))]
  · obtain rfl : b = c := by simpa using hc
    rw [hfat b hrange, if_pos rfl]
  · have hrest := hr.rest (m + 1)
    rw [picks, hfind] at hrest
    rw [hleft, hhint, List.length_append, List.length_singleton, Nat.add_assoc, Nat.add_comm 1,
      hrest, List.append_assoc]
    rfl

/-- A cluster that no entry can name is taken. -/
lemma Trail.astray (hr : Trail fs v₀ v l) (hin : ∀ c ∈ l, clusterInRange fs c = true)
    (hfind : (searchOrder fs v.hint).find? (· ∈ freeEntries fs v.disk) = some b)
    (hl : l ≠ []) (hb : 2 ^ 28 ≤ b) : Astray fs v₀ (l ++ [b]) := by
  have hzero := (mem_freeEntries.mp (show b ∈ freeEntries fs v.disk by
    simpa using List.find?_some hfind)).2
  refine ⟨b, by simp, ?_, hb, fun m => ?_⟩
  · obtain ⟨a, t, rfl⟩ := List.exists_cons_of_ne_nil hl
    rintro rfl
    exact hr.fat_ne_zero hin (by simp) hzero
  · have hrest := hr.rest (m + 1)
    rw [picks, hfind] at hrest
    rw [List.length_append, List.length_singleton, Nat.add_assoc, Nat.add_comm 1, hrest,
      List.tail_append_of_ne_nil hl]
    simp

lemma Astray.concat (hs : Astray fs v₀ l) (b : ℕ) : Astray fs v₀ (l ++ [b]) := by
  obtain ⟨z, hz, hne, hbig, hpick⟩ := hs
  refine ⟨z, List.mem_append_left _ hz, ?_, hbig, fun m => ?_⟩
  · obtain ⟨a, t, rfl⟩ := List.exists_cons_of_ne_nil (List.ne_nil_of_mem hz)
    exact hne
  · rw [List.length_append, List.length_singleton, Nat.add_assoc]
    exact hpick (1 + m)

/-- A chain has been built if the clusters are below the marks. -/
lemma Trail.chain (hr : Trail fs v₀ v l) (hin : ∀ c ∈ l, clusterInRange fs c = true) (hl : l ≠ [])
    (hbad : ∀ c ∈ l.tail, c < fat32ClusterBad) :
    Chain ((asRead fs v.disk).nextLink fs) (l.headD 0) l := by
  obtain ⟨a, t, rfl⟩ := List.exists_cons_of_ne_nil hl
  exact chain_of_isChain hr.links hr.last fun c hc => ⟨hin c (List.mem_cons_of_mem a hc), hbad c hc⟩

/-- What `free_chain` meets is the trail, if the end marker leads to no other cluster. -/
lemma Trail.reached_iff_mem (hr : Trail fs v₀ v l) (hin : ∀ c ∈ l, clusterInRange fs c = true)
    (hend : clusterInRange fs fat32ClusterEnd = true → l = [] ∨ fat32ClusterEnd ∈ l) :
    Reached fs (asRead fs v.disk) (l.headD 0) c ↔ c ∈ l := by
  cases l with
  | nil => exact ⟨fun hc => absurd (clusterInRange_iff.mp hc.1).1 (by simp), by simp⟩
  | cons a t =>
    refine ⟨fun hc => ?_, reached_of_isChain hr.links hin⟩
    obtain ⟨-, hc⟩ := hc
    induction hc with
    | refl => exact List.mem_cons_self
    | tail _ hstep ih =>
      obtain ⟨rfl, hrange⟩ := hstep
      rcases hr.fat_mem ih with hmem | hmark
      · exact hmem
      · rw [hmark] at hrange ⊢
        exact (hend hrange).resolve_left (by simp)

/-- When nothing is free any more the trail is all that the searches find. -/
lemma Trail.picks_eq (hr : Trail fs v₀ v l) (hfull : freeEntries fs v.disk = ∅)
    (hn : l.length ≤ n) : picks fs n (freeEntries fs v₀.disk) v₀.hint = l := by
  have hrest := hr.rest (n - l.length)
  rwa [hfull, picks_empty, List.append_nil, Nat.add_sub_cancel' hn] at hrest

end Building

/-! ### The loop -/

section Allocating

variable {fs : Fs} (h : Mounted fs) (ht : Tables fs) {v₀ v : Vol} {c x n bytes : ℕ} {l : List ℕ}

include h ht

lemma does_fat32SetEntry_asRead (v : Vol) (hc : clusterInRange fs c = true) :
    Act.Does True (fat32SetEntry fs c x) v (fun _ => True)
      (fun _ w => w.hint = v.hint ∧ Patched fs c x fs.numFats v.disk w.disk) fun _ => False :=
  does_setEntryLoop_asRead h ht v hc (Nat.zero_add _)
    ⟨fun _ hj => absurd hj (Nat.not_lt_zero _), fun _ _ => rfl⟩

/-- From `v` to `w`, `free_chain` has freed what it met from `a` on. -/
def Unwound (fs : Fs) (v w : Vol) (a : ℕ) : Prop :=
  ∃ T : Finset ℕ, (∀ c, c ∈ T ↔ Reached fs (asRead fs v.disk) a c) ∧ Freed fs T v.disk w.disk

lemma does_undoAlloc_asRead (v : Vol) (first : ℕ) :
    Act.Does True (undoAlloc fs first) v (fun _ => True) (fun _ w => Unwound fs v w first)
      fun w => Unwound fs v w first := by
  rw [undoAlloc]
  split_ifs with hne
  · refine (does_freeChain_asRead h ht v first).mono (fun _ h => h) ?_ ?_
    · rintro _ w ⟨T, hmem, hf, -⟩
      exact ⟨T, hmem, hf⟩
    · rintro w ⟨T, hmem, hf, -⟩
      exact ⟨T, hmem, hf⟩
  · refine Act.does_pure ⟨∅, fun c => ?_, .refl fs v.disk⟩
    rw [not_not.mp hne]
    exact ⟨fun hc => absurd hc (by simp), fun hc => absurd (clusterInRange_iff.mp hc.1).1 (by simp)⟩

/-- One turn of the loop: `b` has been found, given the end marker (`x`) and linked to (`y`). -/
lemma Progress.concat {b : ℕ} {x y : Vol} (hP : Progress fs v₀ v l)
    (hfind : (searchOrder fs v.hint).find? (· ∈ freeEntries fs v.disk) = some b)
    (hp : Patched fs b fat32ClusterEnd fs.numFats v.disk x.disk) (hhint : y.hint = hintAfter fs b)
    (hq : l = [] ∧ y.disk = x.disk ∨
      ∃ p, l.getLast? = some p ∧ Patched fs p b fs.numFats x.disk y.disk) :
    Progress fs v₀ y (l ++ [b]) := by
  obtain ⟨hrange, hzero⟩ := mem_freeEntries.mp (show b ∈ freeEntries fs v.disk by
    simpa using List.find?_some hfind)
  have hin : ∀ c ∈ l, clusterInRange fs c = true := fun c => hP.took.inRange
  have hbd : b ∈ freeEntries fs v₀.disk := by
    by_cases hbl : b ∈ l
    · exact hP.took.free b hbl
    · exact mem_freeEntries.mpr ⟨hrange, (hP.took.fat_of_notMem h ht hrange hbl).symm.trans hzero⟩
  have hTx : Took fs v₀.disk x.disk (l ++ [b]) := hP.took.patched h ht hp hbd (by simp)
  refine ⟨?_, ?_⟩
  · obtain ⟨-, hy⟩ | ⟨p, hlast, hq⟩ := hq
    · rwa [hy]
    · have hpl := List.mem_of_getLast? hlast
      refine hTx.patched h ht hq (hP.took.free p hpl) fun c => ⟨.inl, fun hc => hc.elim id ?_⟩
      rintro rfl
      exact List.mem_append_left _ hpl
  · obtain hr | hs := hP.course
    · by_cases hbig : l = [] ∨ b < 2 ^ 28
      · refine .inl (hr.concat hin hfind hhint (fun c hc => ?_) hbig)
        have hx : (asRead fs x.disk).fat c =
            if c = b then fat32ClusterEnd else (asRead fs v.disk).fat c := by
          split_ifs with hcb
          · subst hcb
            exact (hp.fat_self h).trans (by decide)
          · exact hp.fat_of_ne h ht hrange hc hcb
        obtain ⟨rfl, hy⟩ | ⟨p, hlast, hq⟩ := hq
        · rw [hy, hx]
          simp
        · have hpl := List.mem_of_getLast? hlast
          have hpb : p ≠ b := by
            rintro rfl
            exact hr.fat_ne_zero hin hpl hzero
          by_cases hcp : c = p
          · subst hcp
            rw [hq.fat_self h, if_neg hpb, if_pos hlast]
          · have hcl : l.getLast? ≠ some c := fun hl => hcp (Option.some.inj (hl.symm.trans hlast))
            rw [hq.fat_of_ne h ht (hin p hpl) hc hcp, hx, if_neg hcl]
      · push Not at hbig
        exact .inr (hr.astray hin hfind hbig.1 hbig.2)
    · exact .inr (hs.concat b)

/-- The loop of `alloc_chain`, with `l` taken so far: it goes on to take as many as it is asked
for, or until nothing is free. -/
lemma does_allocChainLoop_asRead (hP : Progress fs v₀ v l) :
    Act.Does True (allocChainLoop fs n (l.headD 0) (l.getLastD 0)) v (fun _ => True)
      (fun a w => ∃ l', l'.length = l.length + n ∧ a = l'.headD 0 ∧ Progress fs v₀ w l')
      fun w => ∃ x l', l'.length < l.length + n ∧ Progress fs v₀ x l' ∧
        freeEntries fs x.disk = ∅ ∧ Unwound fs x w (l'.headD 0) := by
  induction n generalizing l v with
  | zero => exact Act.does_pure ⟨l, rfl, rfl, hP⟩
  | succ n ih =>
    rw [allocChainLoop]
    refine Act.Does.bind (Act.Does.onFail (does_findFreeCluster_asRead h v) ?_) ?_
    · -- nothing is free any more: what was taken is given back
      rintro v ⟨rfl, hnone⟩
      have hfull : freeEntries fs v.disk = ∅ := by
        refine Finset.eq_empty_of_forall_notMem fun c hc => ?_
        have hno := List.find?_eq_none.mp hnone c (mem_searchOrder.mpr (mem_freeEntries.mp hc).1)
        exact hno (decide_eq_true hc)
      exact (does_undoAlloc_asRead h ht v _).mono (fun _ h => h)
        (fun _ w hw => ⟨v, l, by omega, hP, hfull, hw⟩) fun w hw => ⟨v, l, by omega, hP, hfull, hw⟩
    · rintro b _ ⟨rfl, hfind⟩
      have hrange := (mem_freeEntries.mp (show b ∈ freeEntries fs v.disk by
        simpa using List.find?_some hfind)).1
      refine Act.Does.bind ((does_fat32SetEntry_asRead h ht _ hrange).onFail
        fun _ hno => hno.elim) ?_
      rintro - x ⟨hhint, hp⟩
      have hlen : (l ++ [b]).length + n = l.length + (n + 1) := by
        rw [List.length_append, List.length_singleton]
        omega
      rcases List.eq_nil_or_concat' l with rfl | ⟨t, p, rfl⟩
      · rw [if_neg (by simp)]
        have hrest := ih (hP.concat h ht hfind hp hhint (.inl ⟨rfl, rfl⟩))
        rwa [hlen] at hrest
      · have hpr : clusterInRange fs p = true := hP.took.inRange (by simp)
        have hne : (t ++ [p]).getLastD 0 ≠ 0 := by
          have := (clusterInRange_iff.mp hpr).1
          rw [List.getLastD_concat]
          omega
        rw [if_pos hne, List.getLastD_concat]
        refine Act.Does.bind ((does_fat32SetEntry_asRead h ht x hpr).onFail
          fun _ hno => hno.elim) ?_
        rintro - y ⟨hhint', hq⟩
        have hrest := ih (hP.concat h ht hfind hp (hhint'.trans hhint) (.inr ⟨p, by simp, hq⟩))
        rw [hlen, List.getLastD_concat] at hrest
        cases t <;> exact hrest

lemma Progress.disk_ne {w : Vol} (hP : Progress fs v₀ v l) (hs : Astray fs v₀ l)
    (hfull : freeEntries fs v.disk = ∅) (hu : Unwound fs v w (l.headD 0)) : w.disk ≠ v₀.disk := by
  obtain ⟨z, hz, hne, hbig, -⟩ := hs
  obtain ⟨T, hmem, hf⟩ := hu
  obtain ⟨hrange, hzero⟩ := mem_freeEntries.mp (hP.took.free z hz)
  have hzT : z ∉ T := fun hin => absurd (((hmem z).mp hin).lt hne) (by omega)
  intro hdisk
  have hfat := hf.fat h ht (fun c hc => ((hmem c).mp hc).inRange) hrange
  rw [if_neg hzT, hdisk, hzero] at hfat
  have hfree : z ∈ freeEntries fs v.disk := mem_freeEntries.mpr ⟨hrange, hfat.symm⟩
  rw [hfull] at hfree
  exact absurd hfree (Finset.notMem_empty z)

/-- Giving back what was taken restores the disk exactly if the end marker leads to no cluster in
use. -/
lemma Trail.unwound_iff {w : Vol} (hr : Trail fs v₀ v l) (hd : CopiesAgree fs v₀.disk)
    (hT : Took fs v₀.disk v.disk l) (hfull : freeEntries fs v.disk = ∅)
    (hu : Unwound fs v w (l.headD 0)) : w.disk = v₀.disk ↔ l = [] ∨
      (clusterInRange fs fat32ClusterEnd = true → fat32ClusterEnd ∈ freeEntries fs v₀.disk) := by
  obtain ⟨T, hmem, hf⟩ := hu
  have hin : ∀ c ∈ l, clusterInRange fs c = true := fun c => hT.inRange
  constructor
  · intro hdisk
    refine or_iff_not_imp_left.mpr fun hl hrange => ?_
    have hp := List.getLast?_eq_some_getLast hl
    set p := l.getLast hl
    have hpl : Reached fs (asRead fs v.disk) (l.headD 0) p := by
      obtain ⟨a, t, rfl⟩ := List.exists_cons_of_ne_nil hl
      exact reached_of_isChain hr.links hin (List.mem_of_getLast? hp)
    have hend : fat32ClusterEnd ∈ T :=
      (hmem _).mpr ⟨hpl.1, hpl.2.tail ⟨hr.last p hp, hrange⟩⟩
    have hfat := hf.fat h ht (fun c hc => ((hmem c).mp hc).inRange) hrange
    rw [if_pos hend, hdisk] at hfat
    exact mem_freeEntries.mpr ⟨hrange, hfat⟩
  · intro hend
    refine hT.undone hd hf fun c => (hmem c).trans (hr.reached_iff_mem hin fun hrange => ?_)
    refine hend.imp_right fun hfree => ?_
    obtain ⟨-, hzero⟩ := mem_freeEntries.mp (hfree hrange)
    by_contra hnl
    have hleft : fat32ClusterEnd ∈ freeEntries fs v.disk :=
      mem_freeEntries.mpr ⟨hrange, (hT.fat_of_notMem h ht hrange hnl).trans hzero⟩
    rw [hfull] at hleft
    exact absurd hleft (Finset.notMem_empty _)

omit ht in
lemma allocChain_eq_loop (hpos : 0 < bytes) (hle : bytes ≤ maxTransfer) :
    allocChain fs bytes = allocChainLoop fs (clustersFor fs bytes) 0 0 := by
  have := h.cluster_le
  rw [maxTransfer] at hle
  rw [allocChain, if_neg hpos.ne', clustersNeeded, clustersFor, u32_of_lt]
  rw [h.bytesPerCluster]
  omega

/-- **All or nothing.** On a volume whose FAT copies lie apart, have an entry for every cluster and
agree, `alloc_chain` allocates all it needs or leaves the disk as it was, exactly if the clusters
that its searches find can be linked to. -/
theorem allocChain_all_or_nothing_iff (hd : CopiesAgree fs v.disk) (hpos : 0 < bytes)
    (hle : bytes ≤ maxTransfer) : AllOrNothing fs v bytes ↔ Linkable fs v bytes := by
  have hcount : 0 < clustersFor fs bytes := by
    rw [clustersFor_pos h hpos]
    exact Nat.succ_pos _
  have hrun := does_allocChainLoop_asRead (n := clustersFor fs bytes) h ht (Progress.refl hd) []
    fun _ => rfl
  simp only [List.length_nil, Nat.zero_add] at hrun
  rw [AllOrNothing, Linkable, allocChain_eq_loop h hpos hle]
  cases hv : ((allocChainLoop fs (clustersFor fs bytes) 0 0).run v []).value with
  | none =>
    -- too few are free
    obtain ⟨x, l, hlen, hP, hfull, hu⟩ := hrun.none hv
    have hcard := hP.took.card_le h ht hfull
    rw [if_neg (by omega), if_neg (by omega), and_iff_right rfl]
    obtain hr | hs := hP.course
    · rw [hr.picks_eq hfull hlen.le, and_iff_right hr.below]
      exact hr.unwound_iff h ht hd hP.took hfull hu
    · refine iff_of_false (hP.disk_ne h ht hs hfull hu) fun hlink => ?_
      obtain ⟨z, -, -, hbig, hpick⟩ := hs
      have hz := hpick (clustersFor fs bytes - l.length)
      rw [Nat.add_sub_cancel' hlen.le] at hz
      exact absurd (hlink.1 z hz) (by omega)
  | some a =>
    obtain ⟨l, hlen, rfl, hP⟩ := hrun.value a hv
    have hl : l ≠ [] := List.ne_nil_of_length_pos (hlen ▸ hcount)
    have hlow : ∀ {d'}, Took fs v.disk d' l → NewChain fs v.disk d' (l.headD 0)
        (clustersFor fs bytes) → ∀ c ∈ l, c ≠ l.headD 0 → c < fat32ClusterBad :=
      fun hT hnew c hc hne => hT.lt_bad_of_newChain h ht (hlen ▸ hnew) hc hne
    obtain hr | hs := hP.course
    · have hfit := hP.took.le_card hr.nodup
      have hpicks : picks fs (clustersFor fs bytes) (freeEntries fs v.disk) v.hint = l := by
        have hrest := hr.rest 0
        rwa [Nat.add_zero, hlen, picks, List.append_nil] at hrest
      rw [if_pos (by omega), if_pos (by omega), hpicks]
      constructor
      · rintro ⟨a, ha, hnew⟩ c hc
        obtain rfl := Option.some.inj ha
        refine hlow hP.took hnew c (List.mem_of_mem_tail hc) ?_
        obtain ⟨a, t, rfl⟩ := List.exists_cons_of_ne_nil hl
        rintro rfl
        exact (List.nodup_cons.mp hr.nodup).1 hc
      · intro hbad
        exact ⟨_, rfl, l, hlen, hr.chain (fun c => hP.took.inRange) hl hbad, hP.took⟩
    · obtain ⟨z, hz, hne, hbig, hpick⟩ := hs
      have hzpick := hpick 0
      rw [Nat.add_zero, hlen] at hzpick
      have hzbad : ¬ z < fat32ClusterBad := by
        rw [fat32ClusterBad]
        omega
      split_ifs
      · refine iff_of_false ?_ fun hlink => hzbad (hlink z hzpick)
        rintro ⟨a, ha, hnew⟩
        obtain rfl := Option.some.inj ha
        exact hzbad (hlow hP.took hnew z hz hne)
      · exact iff_of_false (by simp) fun hlink => absurd (hlink.1 z hzpick) (by omega)

end Allocating

/-- One FAT copy, clusters of one sector, and more of them than an entry has numbers for. -/
def hugeFs : Fs where
  bytesPerSector := 512
  sectorsPerCluster := 1
  bytesPerCluster := 512
  firstFatBlock := 1
  sectorsPerFat := 0x200001
  numFats := 1
  firstDataBlock := 0x200002
  rootCluster := 2
  totalClusters := 0x0FFFFFFF
  fsinfoBlock := 0

lemma hugeFs_tables : Tables hugeFs := by
  refine ⟨by decide, fun n hn m hm i hi j hj heq => ?_⟩
  simp only [hugeFs, u32, lbaLimit] at hn hm hi hj heq
  omega

/-- A volume on which only the two clusters `b` and `c` are free, with the hint at `b`. -/
def pairVolume (fs : Fs) (b c : ℕ) : Vol where
  disk := fun p =>
    if ∃ n < fs.numFats, ∃ a ∈ [b, c], entryAddr fs n a ≤ p ∧ p < entryAddr fs n a + 4 then 0 else 1
  hint := b

lemma copiesAgree_of_one {fs : Fs} (hone : fs.numFats = 1) (d : ℕ → UInt8) : CopiesAgree fs d := by
  intro n hn c _
  obtain rfl : n = 0 := by omega
  rfl

/-- On a small volume with one file two clusters are free: a thousand bytes are served, two
thousand leave the disk as it was. On the volume that is too large, two clusters are allocated
while those that are found have small numbers. -/
theorem allocChain_all_or_nothing_iff_oneFileVolume :
    AllOrNothing smallFs oneFileVolume 1000 ∧ AllOrNothing smallFs oneFileVolume 2000 ∧
      (freeEntries smallFs oneFileVolume.disk).card = 2 ∧
      AllOrNothing hugeFs (pairVolume hugeFs 3 4) 513 := by
  have hmounted : Mounted smallFs := by decide
  have htables : Tables smallFs := Geometry.tables (by decide)
  have hagree : CopiesAgree smallFs oneFileVolume.disk := by
    intro n hn c hc
    have hlt : c < 6 := (clusterInRange_iff.mp hc).2
    have hn : n < 2 := hn
    interval_cases n <;> interval_cases c <;> decide +kernel
  have hall : ∀ bytes, 0 < bytes → bytes ≤ maxTransfer → AllOrNothing smallFs oneFileVolume bytes :=
    fun bytes hpos hle => (allocChain_all_or_nothing_iff hmounted htables hagree hpos hle).mpr
      (linkable_of_limit (by decide) _ _)
  refine ⟨hall 1000 (by decide) (by decide), hall 2000 (by decide) (by decide), by decide +kernel,
    ?_⟩
  have hhuge : Mounted hugeFs := by decide
  have hone : CopiesAgree hugeFs (pairVolume hugeFs 3 4).disk := copiesAgree_of_one rfl _
  have hpos : 0 < 513 := by decide
  have hle : 513 ≤ maxTransfer := by decide
  have hneeded : clustersFor hugeFs 513 = 2 := by decide
  have htwo : 1 < (freeEntries hugeFs (pairVolume hugeFs 3 4).disk).card :=
    Finset.one_lt_card.mpr ⟨3, mem_freeEntries.mpr ⟨by decide, by decide +kernel⟩,
      4, mem_freeEntries.mpr ⟨by decide, by decide +kernel⟩, by decide⟩
  rw [allocChain_all_or_nothing_iff hhuge hugeFs_tables hone hpos hle, Linkable,
    if_pos (hneeded.le.trans htwo)]
  decide +kernel

/-- A volume of that geometry with its last two clusters free, behind its boot sector. -/
def hugeVolume : Vol where
  disk := fun p =>
    if p = 12 then 2 else if p = 13 ∨ p = 14 ∨ p = 16 then 1
    else if 32 ≤ p ∧ p < 36 then byteOf 0x10200001 (p - 32)
    else if 36 ≤ p ∧ p < 40 then byteOf 0x200001 (p - 36)
    else if p = 44 then 2 else if p = 510 then 0x55 else if p = 511 then 0xAA
    else if p < 512 then 0 else (pairVolume hugeFs 0x0FFFFFFF 0x10000000).disk p
  hint := 0x0FFFFFFF

/-- A chain whose first cluster reads as free is none. -/
lemma not_allOrNothing_of_lost {fs : Fs} {v : Vol} {bytes a : ℕ}
    (hfit : clustersFor fs bytes ≤ (freeEntries fs v.disk).card)
    (hvalue : ((allocChain fs bytes).run v []).value = some a)
    (hlost : (asRead fs ((allocChain fs bytes).run v []).state.disk).fat a = fat32ClusterFree) :
    ¬ AllOrNothing fs v bytes := by
  intro hall
  rw [AllOrNothing, if_pos hfit] at hall
  obtain ⟨b, hv, l, -, hch, -⟩ := hall
  obtain rfl := Option.some.inj (hvalue.symm.trans hv)
  exact entry_ne_zero_of_chain hch hch.mem_head hlost

/-- A volume that `fat32_init` mounts, with cluster numbers up to 2²⁸: two clusters are free and two
are needed, `alloc_chain` reports success, and the entry of the first cluster, which should name
cluster 2²⁸, says that it is free. -/
theorem allocChain_loses_link :
    (fat32Init.run hugeVolume []).value = some hugeFs ∧ Tables hugeFs ∧
      CopiesAgree hugeFs hugeVolume.disk ∧ clustersFor hugeFs 513 = 2 ∧
      2 ≤ (freeEntries hugeFs hugeVolume.disk).card ∧
      ((allocChain hugeFs 513).run hugeVolume []).value = some 0x0FFFFFFF ∧
      (asRead hugeFs ((allocChain hugeFs 513).run hugeVolume []).state.disk).fat 0x0FFFFFFF =
        fat32ClusterFree ∧
      ¬ AllOrNothing hugeFs hugeVolume 513 := by
  have htwo : 1 < (freeEntries hugeFs hugeVolume.disk).card :=
    Finset.one_lt_card.mpr ⟨0x0FFFFFFF, mem_freeEntries.mpr ⟨by decide, by decide +kernel⟩,
      0x10000000, mem_freeEntries.mpr ⟨by decide, by decide +kernel⟩, by decide⟩
  have hvalue : ((allocChain hugeFs 513).run hugeVolume []).value = some 0x0FFFFFFF := by
    decide +kernel
  have hlost : (asRead hugeFs ((allocChain hugeFs 513).run hugeVolume []).state.disk).fat
      0x0FFFFFFF = fat32ClusterFree := by
    decide +kernel
  have hneeded : clustersFor hugeFs 513 = 2 := by decide
  exact ⟨by decide +kernel, hugeFs_tables, copiesAgree_of_one rfl _, hneeded, htwo, hvalue, hlost,
    not_allOrNothing_of_lost (hneeded.le.trans htwo) hvalue hlost⟩

end TownOS
