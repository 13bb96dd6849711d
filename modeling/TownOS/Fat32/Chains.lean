import TownOS.Fat32.AsRead

/-!
Cluster chains: freeing, finding free clusters, allocating.

All statements are about the `View` of the volume, and hold for every pattern of
disk failures; `calm` marks what is added when there are none.

* `does_freeChain`: a chain is freed from the front, one entry at a time;
* `does_findFreeCluster`: the first free cluster in cyclic order from the hint,
  and none only when no cluster is free;
* `does_allocChain`: a chain of fresh clusters, of the length asked for. When it
  gives up, no entry that was in use has changed, and without failures the FAT
  is as before and too few clusters were free;
* `does_fat32FreeCount`: the number of free clusters.
-/

namespace TownOS

open Durable Bytes Linked

namespace View

variable {fs : Fs}

/-- The view with the entries of some clusters freed. -/
def freed (V : View) (l : List ℕ) : View := { V with fat := fun c => if c ∈ l then 0 else V.fat c }

@[simp] lemma freed_data (V : View) (l : List ℕ) : (V.freed l).data = V.data := rfl

lemma freed_fat_of_mem {V : View} {l : List ℕ} {c : ℕ} (h : c ∈ l) : (V.freed l).fat c = 0 :=
  if_pos h

lemma freed_fat_of_notMem {V : View} {l : List ℕ} {c : ℕ} (h : c ∉ l) :
    (V.freed l).fat c = V.fat c := if_neg h

@[simp] lemma freed_nil (V : View) : V.freed [] = V := by
  simp [freed]

lemma setFat_zero_freed (V : View) (c : ℕ) (l : List ℕ) :
    (V.setFat c 0).freed l = V.freed (c :: l) := by
  refine View.ext (funext fun b => ?_) rfl
  by_cases hb : b = c
  · simp [freed, hb]
  · simp [freed, hb]

lemma setFat_zero (V : View) (c : ℕ) : V.setFat c 0 = V.freed [c] := by
  rw [← setFat_zero_freed, freed_nil]

/-- The clusters that are free. -/
def freeClusters (fs : Fs) (V : View) : Finset ℕ :=
  (Finset.Ico 2 (fs.totalClusters + 2)).filter fun c => V.fat c = 0

lemma mem_freeClusters {V : View} {c : ℕ} :
    c ∈ V.freeClusters fs ↔ InRange fs c ∧ V.fat c = 0 := by
  simp [freeClusters, InRange]

/-- The link of a cluster depends on its entry only. -/
lemma link_congr {V W : View} {c : ℕ} (h : V.fat c = W.fat c) : V.link fs c = W.link fs c := by
  rw [link, link, h]

lemma link_setFat_of_ne {V : View} {c b x : ℕ} (h : b ≠ c) :
    (V.setFat c x).link fs b = V.link fs b :=
  link_congr (Function.update_of_ne h _ _)

lemma link_setFat_end (V : View) (c : ℕ) : (V.setFat c fat32ClusterEnd).link fs c = .stop := by
  simp [link]

lemma fat_of_link_stop {V : View} {c : ℕ} (h : V.link fs c = .stop) :
    fat32ClusterEnd ≤ V.fat c := by
  rw [link] at h
  split_ifs at h
  assumption

lemma fat_of_link_next {V : View} {c b : ℕ} (h : V.link fs c = .next b) :
    V.fat c = b ∧ InRange fs b := by
  rw [link] at h
  split_ifs at h with h1 h2
  injection h with h
  exact ⟨h, h ▸ h2⟩

end View

/-- The FAT entries of some clusters `l`, free in `V`, have been written; nothing
else has changed. -/
structure Taken (fs : Fs) (V W : View) (l : List ℕ) : Prop where
  data : W.data = V.data
  fat : ∀ c, c ∉ l → W.fat c = V.fat c
  free : ∀ c ∈ l, InRange fs c ∧ V.fat c = 0

namespace Taken

variable {fs : Fs} {V W : View} {l : List ℕ} {c x : ℕ}

lemma refl (fs : Fs) (V : View) : Taken fs V V [] :=
  ⟨rfl, fun _ _ => rfl, fun _ h => absurd h (by simp)⟩

/-- A cluster that is free after the writes was free before. -/
lemma free_before (h : Taken fs V W l) (hc : W.fat c = 0) : V.fat c = 0 := by
  by_cases hl : c ∈ l
  · exact (h.free c hl).2
  · rw [← h.fat c hl, hc]

lemma setFat_new (h : Taken fs V W l) (hr : InRange fs c) (hc : W.fat c = 0) :
    Taken fs V (W.setFat c x) (l ++ [c]) := by
  refine ⟨h.data, fun b hb => ?_, fun b hb => ?_⟩
  · rw [List.mem_append, List.mem_singleton, not_or] at hb
    rw [View.setFat_fat, Function.update_of_ne hb.2, h.fat b hb.1]
  · rcases List.mem_append.mp hb with hb | hb
    · exact h.free b hb
    · rw [List.mem_singleton.mp hb]
      exact ⟨hr, h.free_before hc⟩

lemma setFat_old (h : Taken fs V W l) (hc : c ∈ l) : Taken fs V (W.setFat c x) l :=
  ⟨h.data, fun b hb => by
    rw [View.setFat_fat, Function.update_of_ne (ne_of_mem_of_not_mem hc hb).symm, h.fat b hb],
    h.free⟩

lemma freed (h : Taken fs V W l) {l₁ : List ℕ} (hl : l₁ ⊆ l) : Taken fs V (W.freed l₁) l :=
  ⟨h.data, fun b hb => by
    rw [View.freed_fat_of_notMem fun hb' => hb (hl hb'), h.fat b hb], h.free⟩

/-- Freeing what was taken restores the volume. -/
lemma freed_self (h : Taken fs V W l) : W.freed l = V := by
  refine View.ext (funext fun c => ?_) h.data
  by_cases hc : c ∈ l
  · rw [View.freed_fat_of_mem hc, (h.free c hc).2]
  · rw [View.freed_fat_of_notMem hc, h.fat c hc]

/-- When no cluster is free any more, all that were free have been taken. -/
lemma card_free_le (h : Taken fs V W l) (hfull : ∀ c, InRange fs c → W.fat c ≠ 0) :
    (V.freeClusters fs).card ≤ l.length := by
  have hsub : V.freeClusters fs ⊆ l.toFinset := by
    intro c hc
    obtain ⟨hr, h0⟩ := View.mem_freeClusters.mp hc
    by_contra hl
    exact hfull c hr (by rw [h.fat c fun hcl => hl (List.mem_toFinset.mpr hcl), h0])
  exact (Finset.card_le_card hsub).trans l.toFinset_card_le

end Taken

section Geometric

variable {fs : Fs} (g : Geometry fs) {V : View} {a c : ℕ} {l : List ℕ}

include g

lemma not_inRange_of_end {x : ℕ} (h : fat32ClusterEnd ≤ x) : ¬InRange fs x := fun hr => by
  have h1 := g.total_lt
  have h2 := hr.2
  rw [fat32ClusterBad] at h1
  rw [fat32ClusterEnd] at h
  omega

lemma inRange_lt (h : InRange fs c) : c < fat32ClusterEnd := by
  by_contra hc
  exact not_inRange_of_end g (Nat.le_of_not_lt hc) h

lemma link_eq_next {b : ℕ} (hb : InRange fs b) (h : V.fat c = b) : V.link fs c = .next b := by
  have hlt := inRange_lt g hb
  rw [View.link, h, if_neg (Nat.not_le.mpr hlt), if_pos hb]

omit g in
/-- A chain that starts in range stays in range. -/
lemma chain_inRange (h : Chain (V.link fs) a l) (ha : InRange fs a) : ∀ c ∈ l, InRange fs c := by
  induction h with
  | stop _ =>
    intro c hc
    rw [List.mem_singleton.mp hc]
    exact ha
  | next hb _ ih =>
    intro c hc
    rcases List.mem_cons.mp hc with rfl | hc
    · exact ha
    · exact ih (View.fat_of_link_next hb).2 c hc

omit g in
/-- A list of different clusters is no longer than the volume. -/
lemma length_le_total (hl : l.Nodup) (hr : ∀ c ∈ l, InRange fs c) :
    l.length ≤ fs.totalClusters := by
  have hsub : l.toFinset ⊆ Finset.Ico 2 (fs.totalClusters + 2) := by
    intro c hc
    exact Finset.mem_Ico.mpr (hr c (List.mem_toFinset.mp hc))
  have h := Finset.card_le_card hsub
  rw [List.toFinset_card_of_nodup hl, Nat.card_Ico] at h
  omega

omit g in
/-- The clusters of a chain are in use. -/
lemma chain_fat_ne_zero (h : Chain (V.link fs) a l) (hc : c ∈ l) : V.fat c ≠ 0 := by
  obtain ⟨t, ht, -⟩ := h.suffix hc
  intro h0
  cases ht with
  | stop hs =>
    have := View.fat_of_link_stop hs
    rw [fat32ClusterEnd] at this
    omega
  | next hb _ =>
    obtain ⟨h1, h2⟩ := View.fat_of_link_next hb
    have := h2.1
    omega

/-! ### Freeing a chain -/

/-- One round of `free_chain`: the next pointer is read, the entry zeroed. -/
lemma does_freeRound {calm : Prop} {v : Vol} {β : Type} {k : ℕ → Act Vol β} {I : Vol → Prop}
    {Q : β → Vol → Prop} {N : Vol → Prop} (hV : view fs v.disk = V) (ha : InRange fs a)
    (hI : ∀ w, view fs w.disk = V.setFat a 0 → I w)
    (hN : ¬calm → ∀ w, view fs w.disk = V ∨ view fs w.disk = V.setFat a 0 → N w)
    (hk : ∀ w, view fs w.disk = V.setFat a 0 → Act.Does calm (k (V.fat a)) w I Q N) :
    Act.Does calm (do
      let next ← fat32GetEntry fs a
      fat32SetEntry fs a fat32ClusterFree
      k next) v I Q N := by
  refine Act.Does.bind ((reads_fat32GetEntry g v ha).does.mono (fun _ h => h) (fun _ _ h => h)
    fun w h => hN (fun hc => absurd (h.2 hc) (by simp)) w (.inl (by rw [h.1, hV]))) ?_
  rintro next w ⟨rfl, hnext⟩
  obtain rfl := Option.some.inj hnext
  rw [hV]
  refine Act.Does.bind ((does_fat32SetEntry g calm w ha (by decide)).mono ?_ (fun _ _ h => h) ?_) ?_
  · intro x hx
    exact hI x (by rw [hx, hV]; rfl)
  · rintro x ⟨hc, hx | ⟨-, hx⟩⟩
    · exact hN hc x (.inl (by rw [hx, hV]))
    · exact hN hc x (.inr (by rw [hx, hV]; rfl))
  · intro _ x hx
    exact hk x (by rw [hx, hV]; rfl)

/-- The loop of `free_chain` on a chain. -/
lemma does_freeChainLoop (calm : Prop) {v : Vol} {n : ℕ} {low : Option ℕ}
    (h : Chain (V.link fs) a l) (ha : InRange fs a) (hV : view fs v.disk = V)
    (hn : l.length < n) :
    Act.Does calm (freeChainLoop fs n a low) v
      (fun w => ∃ l₁, l₁ ≠ [] ∧ l₁ <+: l ∧ view fs w.disk = V.freed l₁)
      (fun _ w => view fs w.disk = V.freed l)
      fun w => ¬calm ∧ ∃ l₁, l₁ <+: l ∧ view fs w.disk = V.freed l₁ := by
  induction l generalizing V a v n low with
  | nil => exact absurd rfl h.ne_nil
  | cons b t ih =>
    obtain rfl := h.head_eq
    obtain ⟨m, rfl⟩ : ∃ m, n = m + 1 := ⟨n - 1, by omega⟩
    rw [freeChainLoop, if_pos (g.clusterInRange_iff.mpr ha)]
    have hone : [b] <+: b :: t := ⟨t, rfl⟩
    refine does_freeRound g hV ha
      (fun w hw => ⟨[b], by simp, hone, by rw [hw, View.setFat_zero]⟩)
      (fun hc w hw => ⟨hc, ?_⟩) fun w hw => ?_
    · rcases hw with hw | hw
      · exact ⟨[], List.nil_prefix, by rw [hw, View.freed_nil]⟩
      · exact ⟨[b], hone, by rw [hw, View.setFat_zero]⟩
    · cases h with
      | stop hs =>
        -- the entry is an end marker, so the next round leaves the loop
        obtain ⟨k, rfl⟩ : ∃ k, m = k + 1 := ⟨m - 1, by simp at hn; omega⟩
        have hout := not_inRange_of_end g (View.fat_of_link_stop hs)
        rw [freeChainLoop, if_neg fun hr => hout (g.clusterInRange_iff.mp hr)]
        exact Act.does_pure (by rw [hw, View.setFat_zero])
      | next hb ht =>
        obtain ⟨hfat, hr⟩ := View.fat_of_link_next hb
        have hnot := (List.nodup_cons.mp (Chain.next hb ht).nodup).1
        have ht' : Chain ((V.setFat b 0).link fs) (V.fat b) t := by
          rw [hfat]
          exact ht.congr fun x hx =>
            (View.link_setFat_of_ne (ne_of_mem_of_not_mem hx hnot)).symm
        refine (ih ht' (hfat ▸ hr) hw (by simp at hn; omega)).mono ?_ ?_ ?_
        · rintro x ⟨l₁, -, hp, hx⟩
          exact ⟨b :: l₁, by simp, List.cons_prefix_cons.mpr ⟨rfl, hp⟩,
            by rw [hx, View.setFat_zero_freed]⟩
        · intro _ x hx
          rw [hx, View.setFat_zero_freed]
        · rintro x ⟨hc, l₁, hp, hx⟩
          exact ⟨hc, b :: l₁, List.cons_prefix_cons.mpr ⟨rfl, hp⟩,
            by rw [hx, View.setFat_zero_freed]⟩

omit g in
lemma does_setHint (calm : Prop) (v : Vol) (h : ℕ) {I : Vol → Prop} {N : Vol → Prop} :
    Act.Does calm (setHint h) v I (fun _ w => w.disk = v.disk) N :=
  Act.does_get (Act.does_put (Act.does_pure rfl))

/-- `free_chain` on a chain frees it from the front. -/
lemma does_freeChain (calm : Prop) {v : Vol} (h : Chain (V.link fs) a l) (ha : InRange fs a)
    (hV : view fs v.disk = V) :
    Act.Does calm (freeChain fs a) v
      (fun w => ∃ l₁, l₁ ≠ [] ∧ l₁ <+: l ∧ view fs w.disk = V.freed l₁)
      (fun _ w => view fs w.disk = V.freed l)
      fun w => ¬calm ∧ ∃ l₁, l₁ <+: l ∧ view fs w.disk = V.freed l₁ := by
  have hlen := length_le_total h.nodup (chain_inRange h ha)
  refine Act.Does.bind (does_freeChainLoop g calm h ha hV (by omega)) ?_
  rintro (_ | low) w hw
  · exact Act.does_pure hw
  · exact (does_setHint calm w low).mono (fun _ h => h) (fun _ x hx => by rw [hx, hw]) fun _ h => h

/-! ### Finding free clusters -/

/-- One pass of `find_free_cluster` finds the first free cluster of its span. -/
lemma reads_scanSpan (v : Vol) {hi n : ℕ} (hlo : 2 ≤ c) (hhi : hi ≤ fs.totalClusters + 2)
    (hn : hi - c ≤ n) :
    Act.Reads (scanSpan fs hi n c) v (some (firstFree (view fs v.disk) c (hi - c))) := by
  have hread := g.mounted.reads_scanSpan v hn
  rwa [firstFree_congr fun b hb hb' => g.asRead_fat ⟨by omega, by omega⟩ v.disk] at hread

omit g in
/-- The first free cluster in cyclic order from the hint. -/
def nextFree (fs : Fs) (V : View) (hint : ℕ) : Option ℕ :=
  (firstFree V (scanStart fs hint) (fs.totalClusters + 2 - scanStart fs hint)).or
    (firstFree V 2 (scanStart fs hint - 2))

lemma scanStart_bounds (hint : ℕ) :
    2 ≤ scanStart fs hint ∧ scanStart fs hint ≤ fs.totalClusters + 2 := by
  rw [scanStart, g.clusterLimit_eq, firstDataCluster]
  split_ifs <;> omega

lemma nextFree_some {hint : ℕ} (h : nextFree fs V hint = some c) :
    InRange fs c ∧ V.fat c = 0 := by
  have hs := scanStart_bounds g hint
  rw [nextFree, Option.or_eq_some_iff] at h
  rcases h with h | ⟨-, h⟩
  · obtain ⟨h1, h2, h3⟩ := firstFree_some h
    exact ⟨⟨by omega, by omega⟩, h3⟩
  · obtain ⟨h1, h2, h3⟩ := firstFree_some h
    exact ⟨⟨by omega, by omega⟩, h3⟩

lemma nextFree_none {hint : ℕ} (h : nextFree fs V hint = none) (hc : InRange fs c) :
    V.fat c ≠ 0 := by
  have hs := scanStart_bounds g hint
  obtain ⟨h1, h2⟩ := hc
  rw [nextFree, Option.or_eq_none_iff] at h
  by_cases hlt : c < scanStart fs hint
  · exact firstFree_none h.2 (by omega)
  · exact firstFree_none h.1 (by omega)

omit g in
lemma does_claimHint (calm : Prop) (v : Vol) {I N : Vol → Prop} :
    Act.Does calm (claimHint fs c) v I (fun b w => w.disk = v.disk ∧ b = c) N :=
  Act.Does.bind (does_setHint calm v _) fun _ _ hw => Act.does_pure ⟨hw, rfl⟩

/-- `find_free_cluster` hands out the first free cluster from the hint on, and
marks nothing. -/
lemma does_findFreeCluster (calm : Prop) (v : Vol) {I : Vol → Prop} :
    Act.Does calm (findFreeCluster fs) v I
      (fun b w => w.disk = v.disk ∧ nextFree fs (view fs v.disk) v.hint = some b)
      fun w => w.disk = v.disk ∧ (calm → nextFree fs (view fs v.disk) v.hint = none) := by
  have hs := scanStart_bounds g v.hint
  have hclaim : ∀ {b}, nextFree fs (view fs v.disk) v.hint = some b →
      Act.Does calm (claimHint fs b) v I
        (fun b w => w.disk = v.disk ∧ nextFree fs (view fs v.disk) v.hint = some b)
        fun w => w.disk = v.disk ∧ (calm → nextFree fs (view fs v.disk) v.hint = none) :=
    fun hb => (does_claimHint calm v).mono (fun _ h => h)
      (fun _ _ h => ⟨h.1, by rw [h.2]; exact hb⟩) fun _ h => h
  have hspan : ∀ (r : Option ℕ) {p : Act Vol (Option ℕ)}, Act.Reads p v (some r) →
      Act.Does calm p v I (fun b w => w = v ∧ r = b)
        fun w => w.disk = v.disk ∧ (calm → nextFree fs (view fs v.disk) v.hint = none) :=
    fun r p hp => hp.does.mono (fun _ h => h) (fun _ _ h => ⟨h.1, Option.some.inj h.2⟩)
      fun _ h => ⟨by rw [h.1], fun hcalm => absurd (h.2 hcalm) (by simp)⟩
  refine Act.does_get ?_
  rw [g.clusterLimit_eq]
  refine (hspan _ (reads_scanSpan g v hs.1 le_rfl le_rfl)).bind ?_
  rintro (_ | b) w ⟨rfl, h1⟩
  · refine (hspan _ (reads_scanSpan g w le_rfl hs.2 le_rfl)).bind ?_
    rintro (_ | b) x ⟨rfl, h2⟩
    · exact Act.does_fail ⟨rfl, fun _ => by rw [nextFree, h1, h2]; rfl⟩
    · exact hclaim (by rw [nextFree, h1, h2]; rfl)
  · exact hclaim (by rw [nextFree, h1]; rfl)

/-! ### Allocating a chain -/

/-- `first` starts the chain `l` built so far, or nothing has been built. -/
def Built (fs : Fs) (W : View) (first : ℕ) (l : List ℕ) : Prop :=
  l = [] ∧ first = 0 ∨ Chain (W.link fs) first l

/-- Freeing a chain of taken clusters touches no other. -/
lemma does_freeTaken (calm : Prop) {v : Vol} {W : View} {L : List ℕ} {first : ℕ}
    (hv : view fs v.disk = W) (ht : Taken fs V W L) (hch : Chain (W.link fs) first l)
    (hl : l ⊆ L) :
    Act.Does calm (freeChain fs first) v (fun w => Taken fs V (view fs w.disk) L)
      (fun _ w => Taken fs V (view fs w.disk) L ∧ view fs w.disk = W.freed l)
      fun w => ¬calm ∧ Taken fs V (view fs w.disk) L := by
  refine (does_freeChain g calm hch (ht.free first (hl hch.mem_head)).1 hv).mono ?_ ?_ ?_
  · rintro w ⟨l₁, -, hp, hw⟩
    rw [hw]
    exact ht.freed fun c hc => hl (hp.subset hc)
  · intro _ w hw
    rw [hw]
    exact ⟨ht.freed hl, rfl⟩
  · rintro w ⟨hc, l₁, hp, hw⟩
    rw [hw]
    exact ⟨hc, ht.freed fun c hc => hl (hp.subset hc)⟩

/-- Undoing an allocation frees the chain built so far. -/
lemma does_undoAlloc (calm : Prop) {v : Vol} {W : View} {L : List ℕ} {first : ℕ}
    (hv : view fs v.disk = W) (ht : Taken fs V W L) (hb : Built fs W first l) (hl : l ⊆ L) :
    Act.Does calm (undoAlloc fs first) v (fun w => Taken fs V (view fs w.disk) L)
      (fun _ w => Taken fs V (view fs w.disk) L ∧ view fs w.disk = W.freed l)
      fun w => ¬calm ∧ Taken fs V (view fs w.disk) L := by
  rcases hb with ⟨rfl, rfl⟩ | hch
  · refine Act.does_pure ?_
    rw [hv, View.freed_nil]
    exact ⟨ht, rfl⟩
  · have hr := (ht.free first (hl hch.mem_head)).1.1
    rw [undoAlloc, if_pos (by omega)]
    exact does_freeTaken g calm hv ht hch hl

omit g in
/-- A fresh cluster, marked as the end of a chain, extends the chain built so
far once the old tail points at it. -/
lemma built_extend {W : View} {first b : ℕ} (hch : Chain (W.link fs) first l) (hb : b ∉ l)
    (hend : InRange fs b → b < fat32ClusterEnd) (hr : InRange fs b) :
    Chain (((W.setFat b fat32ClusterEnd).setFat (l.getLast hch.ne_nil) b).link fs) first
      (l ++ [b]) := by
  have hlast := List.getLast_mem hch.ne_nil
  have hne : b ≠ l.getLast hch.ne_nil := (ne_of_mem_of_not_mem hlast hb).symm
  refine hch.append (fun c hc hcl => ?_) ?_ (.stop ?_)
  · rw [View.link_setFat_of_ne hcl, View.link_setFat_of_ne (ne_of_mem_of_not_mem hc hb)]
  · simp [View.link, hr, Nat.not_le.mpr (hend hr)]
  · rw [View.link_setFat_of_ne hne, View.link_setFat_end]

/-- A fresh cluster is marked as the end of a chain; a failure undoes the chain
built so far. -/
lemma does_markTail (calm : Prop) {v : Vol} {W : View} {first b : ℕ} (hv : view fs v.disk = W)
    (ht : Taken fs V W l) (hb : Built fs W first l) (hr : InRange fs b) (h0 : W.fat b = 0)
    (hbl : b ∉ l) :
    Act.Does calm ((fat32SetEntry fs b fat32ClusterEnd).onFail (undoAlloc fs first)) v
      (fun w => ∃ l', Taken fs V (view fs w.disk) l')
      (fun _ w => view fs w.disk = W.setFat b fat32ClusterEnd)
      fun w => ¬calm ∧ ∃ l', Taken fs V (view fs w.disk) l' := by
  have ht' : Taken fs V (W.setFat b fat32ClusterEnd) (l ++ [b]) := ht.setFat_new hr h0
  have hb' : Built fs (W.setFat b fat32ClusterEnd) first l := hb.imp id fun hch =>
    hch.congr fun c hc => (View.link_setFat_of_ne (ne_of_mem_of_not_mem hc hbl)).symm
  subst hv
  refine Act.Does.onFail ((does_fat32SetEntry g calm v hr (by decide)).mono
    (fun w hw => ⟨l ++ [b], by rw [hw]; exact ht'⟩) (fun _ _ h => h) fun _ h => h) ?_
  rintro w ⟨hc, hw | ⟨-, hw⟩⟩
  · exact (does_undoAlloc g calm hw ht hb (List.Subset.refl l)).mono (fun x hx => ⟨l, hx⟩)
      (fun _ x hx => ⟨hc, l, hx.1⟩) fun x hx => ⟨hc, l, hx.2⟩
  · exact (does_undoAlloc g calm hw ht' hb' (List.subset_append_left l [b])).mono
      (fun x hx => ⟨_, hx⟩) (fun _ x hx => ⟨hc, _, hx.1⟩) fun x hx => ⟨hc, _, hx.2⟩

/-- The old tail is pointed at the fresh cluster; a failure undoes the chain, as
far as it reaches by then. -/
lemma does_linkTail (calm : Prop) {v : Vol} {W : View} {first b : ℕ}
    (hv : view fs v.disk = W.setFat b fat32ClusterEnd) (ht : Taken fs V W l)
    (hch : Chain (W.link fs) first l) (hr : InRange fs b) (h0 : W.fat b = 0) (hbl : b ∉ l) :
    Act.Does calm ((fat32SetEntry fs (l.getLast hch.ne_nil) b).onFail (freeChain fs first)) v
      (fun w => ∃ l', Taken fs V (view fs w.disk) l')
      (fun _ w => view fs w.disk =
        (W.setFat b fat32ClusterEnd).setFat (l.getLast hch.ne_nil) b)
      fun w => ¬calm ∧ ∃ l', Taken fs V (view fs w.disk) l' := by
  have hlast := List.getLast_mem hch.ne_nil
  have hlt := inRange_lt g hr
  have ht₁ : Taken fs V (W.setFat b fat32ClusterEnd) (l ++ [b]) := ht.setFat_new hr h0
  have ht₂ : Taken fs V ((W.setFat b fat32ClusterEnd).setFat (l.getLast hch.ne_nil) b) (l ++ [b]) :=
    ht₁.setFat_old (List.mem_append_left _ hlast)
  have hch₁ : Chain ((W.setFat b fat32ClusterEnd).link fs) first l :=
    hch.congr fun c hc => (View.link_setFat_of_ne (ne_of_mem_of_not_mem hc hbl)).symm
  have hch₂ := built_extend hch hbl (inRange_lt g) hr
  refine Act.Does.onFail ((does_fat32SetEntry g calm v (ht.free _ hlast).1
    (by rw [fat32ClusterEnd] at hlt; omega)).mono
    (fun w hw => ⟨l ++ [b], by rw [hw, hv]; exact ht₂⟩) (fun _ w hw => by rw [hw, hv])
    fun _ h => h) ?_
  rintro w ⟨hc, hw | ⟨-, hw⟩⟩
  · exact (does_freeTaken g calm (hw.trans hv) ht₁ hch₁ (List.subset_append_left l [b])).mono
      (fun x hx => ⟨_, hx⟩) (fun _ x hx => ⟨hc, _, hx.1⟩) fun x hx => ⟨hc, _, hx.2⟩
  · rw [hv] at hw
    exact (does_freeTaken g calm hw ht₂ hch₂ (List.Subset.refl _)).mono
      (fun x hx => ⟨_, hx⟩) (fun _ x hx => ⟨hc, _, hx.1⟩) fun x hx => ⟨hc, _, hx.2⟩

/-- The loop of `alloc_chain`, with `l` taken so far. -/
lemma does_allocChainLoop (calm : Prop) {v : Vol} {n first prev : ℕ}
    (ht : Taken fs V (view fs v.disk) l)
    (hb : l = [] ∧ first = 0 ∧ prev = 0 ∨
      ∃ h : Chain ((view fs v.disk).link fs) first l, l.getLast h.ne_nil = prev) :
    Act.Does calm (allocChainLoop fs n first prev) v
      (fun w => ∃ l', Taken fs V (view fs w.disk) l')
      (fun a w => ∃ l', l'.length = n ∧ Taken fs V (view fs w.disk) (l ++ l') ∧
        Built fs (view fs w.disk) a (l ++ l'))
      fun w => (∃ l', Taken fs V (view fs w.disk) l') ∧
        (calm → view fs w.disk = V ∧ (V.freeClusters fs).card < l.length + n) := by
  induction n generalizing l v first prev with
  | zero =>
    refine Act.does_pure ⟨[], rfl, by rwa [List.append_nil], ?_⟩
    rw [List.append_nil]
    rcases hb with ⟨h1, h2, -⟩ | ⟨h, -⟩
    · exact .inl ⟨h1, h2⟩
    · exact .inr h
  | succ n ih =>
    have hbuilt : Built fs (view fs v.disk) first l := by
      rcases hb with ⟨h1, h2, -⟩ | ⟨h, -⟩
      · exact .inl ⟨h1, h2⟩
      · exact .inr h
    rw [allocChainLoop]
    refine Act.Does.bind (Act.Does.onFail (does_findFreeCluster g calm v) fun w hw => ?_) ?_
    · -- no free cluster is left, or a read failed: everything taken is given back
      refine (does_undoAlloc g calm (by rw [hw.1]) ht hbuilt (List.Subset.refl l)).mono
        (fun x hx => ⟨l, hx⟩) (fun _ x hx => ⟨⟨l, hx.1⟩, fun hc => ⟨?_, ?_⟩⟩)
        fun x hx => ⟨⟨l, hx.2⟩, fun hc => absurd hc hx.1⟩
      · rw [hx.2, ht.freed_self]
      · have := ht.card_free_le fun c hr => nextFree_none g (hw.2 hc) hr
        omega
    · rintro b w ⟨hwd, hnext⟩
      obtain ⟨hr, h0⟩ := nextFree_some g hnext
      have hbl : b ∉ l := by
        rcases hbuilt with ⟨rfl, -⟩ | hch
        · simp
        · exact fun hbl => chain_fat_ne_zero hch hbl h0
      have hfail : ∀ x : Vol, (¬calm ∧ ∃ l', Taken fs V (view fs x.disk) l') →
          (∃ l', Taken fs V (view fs x.disk) l') ∧
            (calm → view fs x.disk = V ∧ (V.freeClusters fs).card < l.length + (n + 1)) :=
        fun x hx => ⟨hx.2, fun hc => absurd hc hx.1⟩
      refine Act.Does.bind ((does_markTail g calm (by rw [hwd]) ht hbuilt hr h0 hbl).mono
        (fun _ h => h) (fun _ _ h => h) hfail) fun _ x hx => ?_
      -- what the rest of the loop does after `b`, in terms of the whole loop
      have hrest : ∀ {y : Vol} {f : ℕ}, Taken fs V (view fs y.disk) (l ++ [b]) →
          Chain ((view fs y.disk).link fs) f (l ++ [b]) →
          Act.Does calm (allocChainLoop fs n f b) y
            (fun w => ∃ l', Taken fs V (view fs w.disk) l')
            (fun a w => ∃ l', l'.length = n + 1 ∧ Taken fs V (view fs w.disk) (l ++ l') ∧
              Built fs (view fs w.disk) a (l ++ l'))
            fun w => (∃ l', Taken fs V (view fs w.disk) l') ∧
              (calm → view fs w.disk = V ∧
                (V.freeClusters fs).card < l.length + (n + 1)) := by
        intro y f hty hchy
        refine (ih hty (.inr ⟨hchy, by simp⟩)).mono (fun _ h => h) ?_ ?_
        · rintro a z ⟨l', hlen, h1, h2⟩
          rw [List.append_assoc] at h1 h2
          exact ⟨b :: l', by simp [hlen], h1, h2⟩
        · rintro z ⟨h1, h2⟩
          refine ⟨h1, fun hc => ⟨(h2 hc).1, ?_⟩⟩
          have := (h2 hc).2
          simp only [List.length_append, List.length_singleton] at this
          omega
      rcases hb with ⟨rfl, rfl, rfl⟩ | ⟨hch, rfl⟩
      · rw [if_neg (by simp)]
        refine hrest ?_ ?_
        · rw [hx]
          exact ht.setFat_new hr h0
        · rw [hx]
          exact .stop (View.link_setFat_end _ _)
      · have hlast := List.getLast_mem hch.ne_nil
        have hpos := (ht.free _ hlast).1.1
        rw [if_pos (by omega)]
        refine Act.Does.bind ((does_linkTail g calm hx ht hch hr h0 hbl).mono (fun _ h => h)
          (fun _ _ h => h) hfail) fun _ y hy => hrest ?_ ?_
        · rw [hy]
          exact (ht.setFat_new hr h0).setFat_old (List.mem_append_left _ hlast)
        · rw [hy]
          exact built_extend hch hbl (inRange_lt g) hr

/-- `alloc_chain`: a chain of fresh clusters of the length asked for. When it
gives up, only entries of free clusters have been written, and without failures
the volume is as before and too few clusters were free. -/
lemma does_allocChain (calm : Prop) (v : Vol) {bytes : ℕ} (hpos : 0 < clustersNeeded fs bytes) :
    Act.Does calm (allocChain fs bytes) v
      (fun w => ∃ l, Taken fs (view fs v.disk) (view fs w.disk) l)
      (fun a w => ∃ l, l.length = clustersNeeded fs bytes ∧
        Taken fs (view fs v.disk) (view fs w.disk) l ∧ Chain ((view fs w.disk).link fs) a l)
      fun w => (∃ l, Taken fs (view fs v.disk) (view fs w.disk) l) ∧
        (calm → view fs w.disk = view fs v.disk ∧
          (bytes ≠ 0 → ((view fs v.disk).freeClusters fs).card < clustersNeeded fs bytes)) := by
  rw [allocChain]
  split_ifs with h0
  · exact Act.does_fail ⟨⟨[], Taken.refl fs _⟩, fun _ => ⟨rfl, fun h => absurd h0 h⟩⟩
  · refine (does_allocChainLoop g calm (Taken.refl fs _) (.inl ⟨rfl, rfl, rfl⟩)).mono
      (fun _ h => h) ?_ ?_
    · rintro a w ⟨l, hlen, ht, hb⟩
      rw [List.nil_append] at ht hb
      refine ⟨l, hlen, ht, hb.resolve_left fun h => ?_⟩
      rw [h.1, List.length_nil] at hlen
      omega
    · rintro w ⟨h1, h2⟩
      refine ⟨h1, fun hc => ⟨(h2 hc).1, fun _ => ?_⟩⟩
      simpa using (h2 hc).2

/-! ### Counting free clusters -/

/-- `fat32_free_count` counts the free clusters. -/
lemma does_fat32FreeCount (v : Vol) {I : Vol → Prop} :
    Act.Does True (fat32FreeCount fs) v I
      (fun a w => w = v ∧ a = ((view fs v.disk).freeClusters fs).card) fun _ => False := by
  rw [fat32FreeCount, g.clusterLimit_eq, firstDataCluster]
  refine (g.mounted.does_freeCountLoop v le_rfl).mono (fun _ h => h) ?_ fun _ h => h
  rintro a w ⟨rfl, ha⟩
  refine ⟨rfl, ?_⟩
  rw [ha, Nat.zero_add, countP_range', View.freeClusters, Nat.add_sub_cancel, Nat.add_comm 2]
  refine congrArg Finset.card (Finset.filter_congr fun b hb => ?_)
  rw [g.asRead_fat (Finset.mem_Ico.mp hb)]

end Geometric

end TownOS
