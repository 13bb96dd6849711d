import TownOS.Fat32.Operations

/-!
What whole calls of `fat32_write_file` and `fat32_delete` do to a well-formed
volume, under any pattern of disk and heap failures.

* `does_fat32WriteFile`: at every moment the names stand for what they did before
  the call or for what they do after it. A call that fails leaves every name
  readable as before; without failures it fails only when there is no room
  (`NoRoom`), and gives back every cluster it took (`Keeps`);
* `does_fat32Delete`: the same for a deletion that ends.

With failures there is one way to end in a volume that is not well formed
(`CanGrow`): the directory grows, and the link to its new cluster reaches the
first FAT copy and not the others.
-/

namespace TownOS

open Durable Bytes Linked

/-- The clusters by which the directory has to grow for the name `w`. -/
def growth (fs : Fs) (V : View) (l : List ℕ) (w : Name83) : ℕ :=
  if V.findSlot fs l w = none ∧ (slotsOf fs l).find? V.reusable = none then 1 else 0

/-- Too few clusters are free for a file `w` of `n` bytes. -/
def NoRoom (fs : Fs) (V : View) (l : List ℕ) (w : Name83) (n : ℕ) : Prop :=
  (V.freeClusters fs).card < clustersFor fs n + growth fs V l w

instance (fs : Fs) (V : View) (l : List ℕ) (w : Name83) (n : ℕ) : Decidable (NoRoom fs V l w n) :=
  inferInstanceAs (Decidable (_ < _))

/-- A file `w` of `n` bytes makes the directory grow, on a volume with several FAT
copies. -/
def CanGrow (fs : Fs) (V : View) (l : List ℕ) (w : Name83) (n : ℕ) : Prop :=
  1 < fs.numFats ∧ growth fs V l w = 1 ∧ ¬NoRoom fs V l w n

/-- The names can be read and stand for `M`. -/
def Looks (fs : Fs) (X : View) (M : Name83 → Option Node) : Prop :=
  ∃ l, Readable fs X l ∧ X.node fs l = M

lemma Shows.looks {fs : Fs} {X : View} {M : Name83 → Option Node} (h : Shows fs X M) :
    Looks fs X M := h.imp fun _ h => ⟨h.1.readable, h.2⟩

/-- The volume is well formed, its names stand for `M`, and names other than `w` keep
their files. The same clusters are lost as before, unless `w` has the deleted marker in
front. -/
structure Kept (fs : Fs) (V : View) (l : List ℕ) (w : Name83) (X : View) (k : List ℕ)
    (M : Name83 → Option Node) : Prop where
  formed : Formed fs X k
  node : X.node fs k = M
  lost : w 0 ≠ direntDeleted → X.lostBy fs k = V.lostBy fs l
  others : ∀ w', w' ≠ w → SameFile fs V l X k w'

/-- So it is with some root chain. -/
def Keeps (fs : Fs) (V : View) (l : List ℕ) (w : Name83) (X : View) (M : Name83 → Option Node) :
    Prop := ∃ k, Kept fs V l w X k M

/-! ### Accounting -/

section Accounting

variable {fs : Fs} {V W X Y : View} {a z : ℕ} {l k m : List ℕ} {buf : List UInt8} {w : Name83}
  {s : Slot} {R : List Slot}

/-- The clusters of a fresh chain are lost until it is published. -/
lemma Fresh.mem_lostBy_iff (h : Formed fs V l) (hf : Fresh fs V W a m buf) {c : ℕ} :
    c ∈ W.lostBy fs l ↔ c ∈ V.lostBy fs l ∨ c ∈ m := by
  have hown : c ∈ m → c ∉ V.ownedBy fs l := fun hc ho => h.fat_ne_zero ho (hf.free c hc)
  rw [mem_lostBy, mem_lostBy, h.ownedBy_eq (h.agree hf.spares)]
  by_cases hc : c ∈ m
  · have h1 := hf.owns.inRange hc
    have h2 := hf.owns.fat_ne_zero hc
    have h3 := hown hc
    tauto
  · rw [hf.fat c hc]
    tauto

/-- Growing the directory loses nothing. -/
lemma Grown.mem_lostBy_iff (h : Formed fs W l) (hx : Grown fs W X l z)
    (hfull : ∀ s ∈ slotsOf fs l, W.ends s = false)
    (hframe : ∀ c, W.fat c = 0 → c ≠ z → X.fat c = 0) {c : ℕ} :
    c ∈ X.lostBy fs (l ++ [z]) ↔ c ∈ W.lostBy fs l := by
  rw [mem_lostBy, mem_lostBy, (hx.ownedBy_perm h hfull).mem_iff, List.mem_cons, not_or]
  constructor
  · rintro ⟨hr, hfat, hcz, hown⟩
    exact ⟨hr, fun h0 => hfat (hframe c h0 hcz), hown⟩
  · rintro ⟨hr, hfat, hown⟩
    refine ⟨hr, ?_, fun hcz => hfat (hcz ▸ hx.free), hown⟩
    rw [hx.fat c hfat fun hlast => hown (Formed.mem_owned_root (List.mem_of_getLast? hlast))]
    exact hfat

/-- Publishing the chain and freeing the replaced one loses nothing. -/
lemma Ready.keeps (h : Ready fs Y k s R w a m buf) (hm : ∀ c ∈ m, V.fat c = 0)
    (hlost : ∀ c, c ∈ Y.lostBy fs k ↔ c ∈ V.lostBy fs l ∨ c ∈ m)
    (hsame : ∀ w', SameFile fs V l Y k w') :
    Keeps fs V l w ((Y.put s (newDirent w a buf.length)).freed (Y.oldClusters fs s))
      (published (Y.node fs k) w buf) := by
  have he : newDirent w a buf.length 0 ≠ direntFree := by rw [newDirent_zero]; exact h.name_ne
  have ha := h.agree_freed (List.Subset.refl (Y.oldClusters fs s))
  refine ⟨k, h.formed_put.congr ha, ?_, fun hw => Finset.ext fun c => ?_, fun w' hw' => ?_⟩
  · rw [← h.node_put]
    exact h.formed_put.node_congr ha
  · rw [mem_lostBy_replaced h.formed h.slot he ha h.formed_put, hlost,
      newDirent_firstCluster h.start_lt, h.owns.clustersFrom_eq]
    have hnew : direntLive (newDirent w a buf.length) = true := newDirent_live.mpr hw
    have hmV : c ∈ m → c ∉ V.lostBy fs l := fun hc hl => (mem_lostBy.mp hl).2.1 (hm c hc)
    tauto
  · exact ((hsame w').trans (h.sameFile_put (.inl hw'))).trans (h.formed_put.sameFile ha w')

lemma Formed.keeps (h : Formed fs V l) (hs : Spares V X) (hfat : X.fat = V.fat) :
    Keeps fs V l w X (V.node fs l) := by
  have ha := h.agree hs
  refine ⟨l, h.congr ha, h.node_congr ha, fun _ => Finset.ext fun c => ?_, fun w' _ =>
    h.sameFile ha w'⟩
  rw [mem_lostBy, mem_lostBy, h.ownedBy_eq ha, hfat]

/-- A fresh chain that is freed again leaves the clusters as they were. -/
lemma Fresh.keeps_freed (h : Formed fs V l) (hf : Fresh fs V W a m buf) :
    Keeps fs V l w (W.freed m) (V.node fs l) := by
  refine h.keeps (hf.spares.freed hf.free) (funext fun c => ?_)
  by_cases hc : c ∈ m
  · rw [View.freed_fat_of_mem hc, hf.free c hc]
  · rw [View.freed_fat_of_notMem hc, hf.fat c hc]

/-- The clusters of a fresh chain were free. -/
lemma Fresh.card_le (hf : Fresh fs V W a m buf) :
    clustersFor fs buf.length ≤ (V.freeClusters fs).card := by
  rw [← hf.length, ← List.toFinset_card_of_nodup hf.owns.nodup]
  refine Finset.card_le_card fun c hc => ?_
  have hc := List.mem_toFinset.mp hc
  exact View.mem_freeClusters.mpr ⟨hf.owns.inRange hc, hf.free c hc⟩

/-- Where the directory need not grow, there was room. -/
lemma Fresh.not_noRoom (hf : Fresh fs V W a m buf) (hgrowth : growth fs V l w = 0) :
    ¬NoRoom fs V l w buf.length := by
  have hle := hf.card_le
  rw [NoRoom, hgrowth]
  omega

lemma Fresh.card_lt (hf : Fresh fs V W a m buf) (hr : InRange fs z) (hz : W.fat z = 0) :
    clustersFor fs buf.length + 1 ≤ (V.freeClusters fs).card := by
  have hzm : z ∉ m := fun hc => hf.owns.fat_ne_zero hc hz
  rw [← hf.length, ← List.length_cons (a := z),
    ← List.toFinset_card_of_nodup (List.nodup_cons.mpr ⟨hzm, hf.owns.nodup⟩)]
  refine Finset.card_le_card fun c hc => View.mem_freeClusters.mpr ?_
  rcases List.mem_cons.mp (List.mem_toFinset.mp hc) with rfl | hc
  · exact ⟨hr, by rw [← hf.fat c hzm, hz]⟩
  · exact ⟨hf.owns.inRange hc, hf.free c hc⟩

/-- When none is left, all that were free are in the chain. -/
lemma Fresh.card_ge (hf : Fresh fs V W a m buf) (hfull : (W.freeClusters fs).card = 0) :
    (V.freeClusters fs).card ≤ clustersFor fs buf.length := by
  rw [← hf.length]
  refine (Finset.card_le_card fun c hc => ?_).trans m.toFinset_card_le
  obtain ⟨hr, h0⟩ := View.mem_freeClusters.mp hc
  by_contra hcm
  have hcW : c ∈ W.freeClusters fs := View.mem_freeClusters.mpr
    ⟨hr, by rw [hf.fat c fun hm => hcm (List.mem_toFinset.mpr hm), h0]⟩
  rw [Finset.card_eq_zero.mp hfull] at hcW
  simp at hcW

end Accounting

/-! ### Writing a file -/

section Writing

variable {fs : Fs} (g : Geometry fs) {V W : View} {a : ℕ} {l m : List ℕ} {buf : List UInt8}
  {w : Name83} {v : Vol}

/-- What is on the disk after the publishing half of a write has failed. -/
structure Unwritten (fs : Fs) (calm : Prop) (V : View) (l : List ℕ) (w : Name83) (n : ℕ)
    (v : Vol) : Prop where
  looks : Looks fs (view fs v.disk) (V.node fs l)
  shows : Shows fs (view fs v.disk) (V.node fs l) ∨ ¬calm ∧ CanGrow fs V l w n
  calm : calm → NoRoom fs V l w n ∧ Keeps fs V l w (view fs v.disk) (V.node fs l)

/-- What is on the disk after a write. -/
structure Written (fs : Fs) (calm : Prop) (V : View) (l : List ℕ) (w : Name83) (buf : List UInt8)
    (v : Vol) : Prop where
  shows : Shows fs (view fs v.disk) (published (V.node fs l) w buf)
  room : ¬NoRoom fs V l w buf.length
  calm : calm → Keeps fs V l w (view fs v.disk) (published (V.node fs l) w buf)

/-- What is on the disk in the course of a write. -/
def Underway (fs : Fs) (calm : Prop) (V : View) (l : List ℕ) (w : Name83) (buf : List UInt8)
    (v : Vol) : Prop :=
  calm → Shows fs (view fs v.disk) (V.node fs l) ∨
    Shows fs (view fs v.disk) (published (V.node fs l) w buf)

lemma Unwritten.of_shows {calm : Prop} {n : ℕ} (hc : ¬calm)
    (h : Shows fs (view fs v.disk) (V.node fs l)) : Unwritten fs calm V l w n v :=
  ⟨h.looks, .inl h, fun hcalm => absurd hcalm hc⟩

lemma any_isDirectory_iff :
    (((V.findSlot fs l w).map fun s => (V.entry s, slotLocation fs s.1 s.2)).any
      fun found => found.1.isDirectory) = true ↔ V.node fs l w = some .directory := by
  rw [View.node]
  cases V.findSlot fs l w with
  | none => simp
  | some s => cases hd : (V.entry s).isDirectory <;> simp [hd]

lemma ends_of_full (h : (slotsOf fs l).find? V.reusable = none) :
    ∀ s ∈ slotsOf fs l, V.ends s = false := by
  intro s hs
  have hnot := List.find?_eq_none.mp h s hs
  rw [reusable_iff, not_or] at hnot
  simpa [View.ends] using hnot.1

/-- A fresh chain, from the point of view of the volume that holds it. -/
lemma Fresh.loaded (g : Geometry fs) (h : Formed fs V l) (hf : Fresh fs V W a m buf)
    (hw : w 0 ≠ direntFree) (hlen : buf.length < 2 ^ 32) : Loaded fs W l w a m buf := by
  refine ⟨h.congr (h.agree hf.spares), hf.owns, fun c hc hown => ?_, hf.bytes, ?_, hlen, hw⟩
  · rw [h.ownedBy_eq (h.agree hf.spares)] at hown
    exact h.fat_ne_zero hown (hf.free c hc)
  · rcases hf.owns with ⟨rfl, -⟩ | ⟨hr, -⟩
    · norm_num
    · have := inRange_lt g hr
      rw [fat32ClusterEnd] at this
      omega

include g

lemma does_publishAt_of_ready (calm : Prop) {Y : View} {k : List ℕ} {s : Slot} {R : List Slot}
    {existing : Option (Dirent × ℕ × ℕ)} (h : Ready fs Y k s R w a m buf)
    (hY : view fs v.disk = Y) (hsame : ∀ w', SameFile fs V l Y k w')
    (hm : ∀ c ∈ m, V.fat c = 0) (hlost : ∀ c, c ∈ Y.lostBy fs k ↔ c ∈ V.lostBy fs l ∨ c ∈ m)
    (hroom : ¬NoRoom fs V l w buf.length)
    (hex : existing = none ∧ Y.occupied s = false ∨
      ∃ loc, existing = some (Y.entry s, loc) ∧ Y.occupied s = true) :
    Act.Does calm
      (publishAt fs existing a (newDirent w a buf.length) (slotLocation fs s.1 s.2)) v
      (Underway fs calm V l w buf) (fun _ => Written fs calm V l w buf)
      (Unwritten fs calm V l w buf.length) := by
  have hnode : Y.node fs k = V.node fs l := funext fun w' => (hsame w').node_eq
  refine (does_publishAt g calm h hY hex).mono ?_ ?_ ?_
  · intro x hx _
    rwa [hnode] at hx
  · intro _ x hx
    have hshow := h.shows_released hx
    rw [hnode] at hshow
    refine ⟨hshow, hroom, fun hc => ?_⟩
    obtain ⟨l₁, -, hl₁, hview⟩ := hx
    rw [hview, hl₁ hc, ← hnode]
    exact h.keeps hm hlost hsame
  · rintro x ⟨hc, hx⟩
    rw [hnode] at hx
    exact .of_shows hc hx

/-- No slot was found, and the fresh chain is freed. -/
lemma does_undo_noSlot (calm : Prop) (h : Formed fs V l) (hf : Fresh fs V W a m buf)
    (hfind : V.findSlot fs l w = none) (hfull : (slotsOf fs l).find? V.reusable = none)
    (hv : NoSlot fs calm W l v) :
    Act.Does calm (undoAlloc fs a) v (Underway fs calm V l w buf)
      (fun _ => Unwritten fs calm V l w buf.length) (Unwritten fs calm V l w buf.length) := by
  have hgrowth : growth fs V l w = 1 := if_pos ⟨hfind, hfull⟩
  have hends : ∀ s ∈ slotsOf fs l, V.ends s = false := ends_of_full hfull
  have hm : ∀ c ∈ m, W.fat c ≠ 0 := fun c hc => hf.owns.fat_ne_zero hc
  rcases hv with ⟨hs, hcalm⟩ | ⟨hc, hn, z, hx, -⟩
  · -- nothing in use has changed, so freeing the chain leads back
    have hown : Owns fs (view fs v.disk) a m := hf.owns.congr fun c hc => (hs c (hm c hc)).1
    have hshow : ∀ {b : Prop} {x : Vol}, Released fs b (view fs v.disk) m x →
        Shows fs (view fs x.disk) (V.node fs l) := fun hx =>
      h.shows_of_agree (h.agree (hx.spares (hf.spares.trans hs) hf.free))
    have hend : ∀ {x : Vol}, Released fs calm (view fs v.disk) m x →
        Unwritten fs calm V l w buf.length x := by
      intro x hx
      refine ⟨(hshow hx).looks, .inl (hshow hx), fun hc => ?_⟩
      obtain ⟨hW, hcard⟩ := hcalm hc
      obtain ⟨l₁, -, hl₁, hview⟩ := hx
      have hle := hf.card_ge hcard
      rw [NoRoom, hgrowth, hview, hl₁ hc, hW]
      exact ⟨by omega, hf.keeps_freed h⟩
    exact (does_undoOwned g calm hown rfl).mono (fun x hx _ => .inl (hshow hx))
      (fun _ x hx => hend hx) fun x hx => hend hx
  · -- the directory names a cluster that may be free; it can be read all the same
    have hxV : Grown fs V (view fs v.disk) l z := hx.of_spares hf.spares
    have hl : ∀ c ∈ l, V.fat c ≠ 0 := fun c hc => h.fat_ne_zero (Formed.mem_owned_root hc)
    have hown : Owns fs (view fs v.disk) a m := hf.owns.congr fun c hcm =>
      hx.fat c (hm c hcm) fun hlast => hl c (List.mem_of_getLast? hlast) (hf.free c hcm)
    have hcan : CanGrow fs V l w buf.length := by
      refine ⟨hn, hgrowth, ?_⟩
      have := hf.card_lt hx.range hx.free
      rw [NoRoom, hgrowth]
      omega
    have hend : ∀ {x : Vol}, Released fs calm (view fs v.disk) m x →
        Unwritten fs calm V l w buf.length x := by
      rintro x ⟨l₁, hl₁, -, hview⟩
      have hgrown : Grown fs V (view fs x.disk) l z := by
        rw [hview]
        exact hxV.freed (fun c hcl => hf.free c (hl₁ hcl)) hl
      exact ⟨⟨l ++ [z], hgrown.readable h hends g, hgrown.node_eq h hends⟩,
        .inr ⟨hc, hcan⟩, fun hcalm => absurd hcalm hc⟩
    exact (does_undoOwned g calm hown rfl).mono (fun x _ hcalm => absurd hcalm hc)
      (fun _ x hx => hend hx) fun x hx => hend hx

/-- A new entry for which a reusable slot exists. -/
lemma does_publish_reuse (calm : Prop) (h : Formed fs V l) (hf : Fresh fs V W a m buf)
    (hw : w 0 ≠ direntFree) (hlen : buf.length < 2 ^ 32) (hW : view fs v.disk = W)
    (hfind : V.findSlot fs l w = none) {s : Slot}
    (hs : (slotsOf fs l).find? V.reusable = some s) :
    Act.Does calm (publish fs w none a buf.length) v (Underway fs calm V l w buf)
      (fun _ => Written fs calm V l w buf) (Unwritten fs calm V l w buf.length) := by
  have ha := h.agree hf.spares
  have hload : Loaded fs W l w a m buf := hf.loaded g h hw hlen
  have hnode : W.node fs l = V.node fs l := h.node_congr ha
  have hsW : (slotsOf fs l).find? W.reusable = some s :=
    (find?_reusable_congr fun _ => Formed.entry_eq ha).trans hs
  have hfindW : W.findSlot fs l w = none := (h.sameFile ha w).slot.trans hfind
  obtain ⟨R, hready, hocc⟩ := hload.reuse hfindW hsW
  have hroom : ¬NoRoom fs V l w buf.length :=
    hf.not_noRoom (if_neg fun hno => by simp [hs] at hno)
  have hundo : ¬calm → Act.Does calm (undoAlloc fs a) v (Underway fs calm V l w buf)
      (fun _ => Unwritten fs calm V l w buf.length) (Unwritten fs calm V l w buf.length) := by
    intro hc
    refine (does_undoOwned g calm hload.owns hW).mono (fun x _ hcalm => absurd hcalm hc) ?_ ?_
    · exact fun _ x hx => .of_shows hc (hnode ▸ hload.shows_released hx)
    · exact fun x hx => .of_shows hc (hnode ▸ hload.shows_released hx)
  refine Act.Does.bind (Act.Does.onFail (reads_findFreeDirent g hload.formed hW hsW).does ?_) ?_
  · rintro x ⟨rfl, hx⟩
    exact hundo fun hcalm => absurd (hx hcalm) (by simp)
  · rintro loc x ⟨rfl, hloc⟩
    obtain rfl := Option.some.inj hloc
    exact does_publishAt_of_ready g calm hready hW (h.sameFile ha) hf.free
      (fun c => hf.mem_lostBy_iff h) hroom (.inl ⟨rfl, hocc⟩)

/-- A new entry for which the directory has to grow. -/
lemma does_publish_grow (calm : Prop) (h : Formed fs V l) (hf : Fresh fs V W a m buf)
    (hw : w 0 ≠ direntFree) (hlen : buf.length < 2 ^ 32) (hW : view fs v.disk = W)
    (hfind : V.findSlot fs l w = none) (hs : (slotsOf fs l).find? V.reusable = none) :
    Act.Does calm (publish fs w none a buf.length) v (Underway fs calm V l w buf)
      (fun _ => Written fs calm V l w buf) (Unwritten fs calm V l w buf.length) := by
  have ha := h.agree hf.spares
  have hload : Loaded fs W l w a m buf := hf.loaded g h hw hlen
  have hnode : W.node fs l = V.node fs l := h.node_congr ha
  have hsW : (slotsOf fs l).find? W.reusable = none :=
    (find?_reusable_congr fun _ => Formed.entry_eq ha).trans hs
  have hends := ends_of_full hsW
  have hshow : ∀ x, Searching fs calm W l x → Underway fs calm V l w buf x := by
    rintro x (hx | ⟨z, hx, hz⟩) hcalm
    · exact .inl (h.shows_of_agree (h.agree (hf.spares.trans hx)))
    · refine .inl ⟨l ++ [z], hload.formed.grow g hx hends (hz hcalm), ?_⟩
      rw [← hnode]
      exact hx.node_eq hload.formed hends
  refine Act.Does.bind (Act.Does.onFail ((does_findFreeDirent g calm hload.formed hW hsW).mono
    hshow (fun _ _ h => h) fun _ h => h) fun x hx => does_undo_noSlot g calm h hf hfind hs hx) ?_
  rintro loc x ⟨z, hx, hz, hframe, rfl⟩
  have hgrown : Loaded fs (view fs x.disk) (l ++ [z]) w a m buf := hload.grow g hx hends hz
  have hsame : ∀ w', SameFile fs V l (view fs x.disk) (l ++ [z]) w' := fun w' =>
    (h.sameFile ha w').trans (hx.sameFile hload.formed hends w')
  have hfindX : (view fs x.disk).findSlot fs (l ++ [z]) w = none := (hsame w).slot.trans hfind
  obtain ⟨R, hready, hocc⟩ := hgrown.reuse hfindX (hx.find?_reusable g hload.formed hsW)
  have hroom : ¬NoRoom fs V l w buf.length := by
    have hgrowth : growth fs V l w = 1 := if_pos ⟨hfind, hs⟩
    have hle := hf.card_lt hx.range hx.free
    rw [NoRoom, hgrowth]
    omega
  have hlost : ∀ c, c ∈ (view fs x.disk).lostBy fs (l ++ [z]) ↔ c ∈ V.lostBy fs l ∨ c ∈ m := by
    intro c
    rw [hx.mem_lostBy_iff hload.formed hends hframe, hf.mem_lostBy_iff h]
  have hpub := does_publishAt_of_ready g calm (v := x) hready rfl hsame hf.free hlost hroom
    (.inl ⟨rfl, hocc⟩)
  exact hpub

lemma does_publish_replace (calm : Prop) (h : Formed fs V l) (hf : Fresh fs V W a m buf)
    (hw : w 0 ≠ direntFree) (hlen : buf.length < 2 ^ 32) (hW : view fs v.disk = W) {s : Slot}
    (hs : V.findSlot fs l w = some s) :
    Act.Does calm (publish fs w (some (V.entry s, slotLocation fs s.1 s.2)) a buf.length) v
      (Underway fs calm V l w buf) (fun _ => Written fs calm V l w buf)
      (Unwritten fs calm V l w buf.length) := by
  have ha := h.agree hf.spares
  have hload : Loaded fs W l w a m buf := hf.loaded g h hw hlen
  have hsW : W.findSlot fs l w = some s := (h.sameFile ha w).slot.trans hs
  obtain ⟨R, hready, hocc⟩ := hload.replace hsW
  have hroom : ¬NoRoom fs V l w buf.length :=
    hf.not_noRoom (if_neg fun hno => by simp [hs] at hno)
  refine does_publishAt_of_ready g calm hready hW (h.sameFile ha) hf.free
    (fun c => hf.mem_lostBy_iff h) hroom (.inr ⟨slotLocation fs s.1 s.2, ?_, hocc⟩)
  rw [Formed.entry_eq ha hready.slot.mem]

/-- Steps 5 to 7 of `fat32_write_file`. -/
lemma does_publish (calm : Prop) (h : Formed fs V l) (hf : Fresh fs V W a m buf)
    (hw : w 0 ≠ direntFree) (hlen : buf.length < 2 ^ 32) (hW : view fs v.disk = W) :
    Act.Does calm (publish fs w ((V.findSlot fs l w).map fun s =>
        (V.entry s, slotLocation fs s.1 s.2)) a buf.length) v
      (Underway fs calm V l w buf) (fun _ => Written fs calm V l w buf)
      (Unwritten fs calm V l w buf.length) := by
  cases hfind : V.findSlot fs l w with
  | some s => exact does_publish_replace g calm h hf hw hlen hW hfind
  | none =>
    cases hs : (slotsOf fs l).find? V.reusable with
    | some s => exact does_publish_reuse g calm h hf hw hlen hW hfind hs
    | none => exact does_publish_grow g calm h hf hw hlen hW hfind hs

/-- **`fat32_write_file`** on a well-formed volume, when `len` is far enough from
`2³²` for the rounding in `alloc_chain`. A name that is not 8.3 or names a
directory is refused before anything is written. -/
theorem does_fat32WriteFile (calm : Prop) (h : Formed fs V l) (hV : view fs v.disk = V)
    (hlen : buf.length + fs.bytesPerCluster ≤ 2 ^ 32) (name : List UInt8) :
    Act.Does calm (fat32WriteFile fs name buf) v
      (fun x => ∃ w, nameTo83 name = some w ∧ Underway fs calm V l w buf x)
      (fun _ x => ∃ w, nameTo83 name = some w ∧ V.node fs l w ≠ some .directory ∧
        Written fs calm V l w buf x)
      fun x => (x = v ∧ (calm → ∀ w, nameTo83 name = some w → V.node fs l w = some .directory)) ∨
        ∃ w, nameTo83 name = some w ∧ V.node fs l w ≠ some .directory ∧
          Unwritten fs calm V l w buf.length x := by
  have hbpc := bytesPerCluster_pos g
  rw [fat32WriteFile]
  cases hname : nameTo83 name with
  | none => exact Act.does_fail (.inl ⟨rfl, by simp⟩)
  | some w =>
    have hw := nameTo83_ne_free hname
    refine (reads_locateRootEntry g h.readable.walk h.start hV h.length_le).bind_does ?_
      fun hc => .inl ⟨rfl, fun hcalm => absurd hcalm hc⟩
    by_cases hdir : V.node fs l w = some .directory
    · rw [if_pos (any_isDirectory_iff.mpr hdir)]
      exact Act.does_fail (.inl ⟨rfl, fun _ w' hw' => by rw [← Option.some.inj hw', hdir]⟩)
    rw [if_neg (mt any_isDirectory_iff.mp hdir)]
    refine Act.Does.bind ((does_writeNewChain g calm hV hlen).mono ?_ (fun _ _ h => h) ?_) ?_
    · exact fun x hx => ⟨w, rfl, fun _ => .inl (h.shows_of_agree (h.agree hx))⟩
    · rintro x ⟨hs, hcalm⟩
      have hshow := h.shows_of_agree (h.agree hs)
      refine .inr ⟨w, rfl, hdir, hshow.looks, .inl hshow, fun hc => ⟨?_, ?_⟩⟩
      · exact Nat.lt_add_right _ (hcalm hc).2
      · exact h.keeps hs (hcalm hc).1
    · rintro a x ⟨m, hf⟩
      exact (does_publish g calm h hf hw (by omega) rfl).mono (fun y hy => ⟨w, rfl, hy⟩)
        (fun _ y hy => ⟨w, rfl, hdir, hy⟩) fun y hy => .inr ⟨w, rfl, hdir, hy⟩

end Writing

/-! ### Deleting a file -/

section Deleting

variable {fs : Fs} (g : Geometry fs) {V : View} {l : List ℕ} {w : Name83} {v : Vol} {s : Slot}

/-- What is on the disk in the course of the deletion of the file in slot `s`: its
entry is live and part of its chain is freed, or its entry is deleted. -/
def Vanishing (fs : Fs) (V : View) (s : Slot) (v : Vol) : Prop :=
  (∃ l₁, l₁ ≠ [] ∧ l₁ <+: V.slotClusters fs s ∧ view fs v.disk = V.freed l₁) ∨
    view fs v.disk = (V.put s (markDeleted (V.entry s))).freed (V.slotClusters fs s)

/-- Deleting a file and freeing its chain loses nothing. -/
lemma Formed.keeps_deleted (h : Formed fs V l) (hs : V.findSlot fs l w = some s) :
    Keeps fs V l w ((V.put s (markDeleted (V.entry s))).freed (V.slotClusters fs s))
      (Function.update (V.node fs l) w none) := by
  obtain ⟨R, hat, hocc, hname, hR⟩ := h.slotAt_find hs
  have he : markDeleted (V.entry s) 0 ≠ direntFree := by rw [markDeleted_zero]; decide
  have hf : Formed fs (V.put s (markDeleted (V.entry s))) l := h.put_deleted hat
  have hold : V.oldClusters fs s = V.slotClusters fs s := by rw [View.oldClusters, if_pos hocc]
  have ha : Agree fs _ _ l := h.agree_freed_deleted (e := V.entry s) hat
    (List.Subset.refl (V.oldClusters fs s))
  rw [← hold]
  refine ⟨l, hf.congr ha, ?_, fun _ => Finset.ext fun c => ?_, fun w' hw' => ?_⟩
  · rw [← h.node_put_deleted hat hname hR]
    exact hf.node_congr ha
  · rw [mem_lostBy_replaced h hat he ha hf, markDeleted_live]
    simp
  · exact (h.sameFile_put_deleted hat fun hn => hw' (by rw [← hn, hname])).trans
      (hf.sameFile ha w')

include g

/-- The deletion of a file that exists, from its lookup on. -/
lemma does_deleteFound (calm : Prop) (h : Formed fs V l) (hV : view fs v.disk = V)
    (hs : V.findSlot fs l w = some s) {N : Vol → Prop} (hN : ∀ x, ¬calm → N x) :
    Act.Does calm (do
        if direntFirstCluster (V.entry s) ≠ 0 then freeChain fs (direntFirstCluster (V.entry s))
        writeDirentAt (slotLocation fs s.1 s.2).1 (slotLocation fs s.1 s.2).2
          (markDeleted (V.entry s))
        fat32FsinfoInvalidate fs) v (Vanishing fs V s)
      (fun _ x => view fs x.disk =
        (V.put s (markDeleted (V.entry s))).freed (V.slotClusters fs s)) N := by
  obtain ⟨hlive, -⟩ := h.findSlot_eq_some.mp hs
  obtain ⟨hsl, hsi⟩ := mem_slotsOf.mp (mem_slotsOf_of_live hlive)
  have hrest : ∀ x : Vol, view fs x.disk = V.freed (V.slotClusters fs s) →
      Act.Does calm (do
        writeDirentAt (slotLocation fs s.1 s.2).1 (slotLocation fs s.1 s.2).2
          (markDeleted (V.entry s))
        fat32FsinfoInvalidate fs) x (Vanishing fs V s)
      (fun _ x => view fs x.disk =
        (V.put s (markDeleted (V.entry s))).freed (V.slotClusters fs s)) N := by
    intro x hx
    have hput : (view fs x.disk).setSlot s.1 s.2 (markDeleted (V.entry s)) =
        (V.put s (markDeleted (V.entry s))).freed (V.slotClusters fs s) := by
      rw [hx]
      rfl
    refine Act.Does.bind ((does_writeDirentAt g calm x _ (chain_inRange h.root h.start _ hsl)
      hsi).mono (fun y hy => .inr (hy.trans hput)) (fun _ y hy => hy.trans hput)
      fun y hy => hN y hy.1) fun _ y hy => ?_
    exact (does_fat32FsinfoInvalidate g calm y).mono (fun p hp => .inr (hp.trans hy))
      (fun _ p hp => hp.trans hy) fun _ hp => hp.elim
  rcases h.chains s hlive with ⟨h0, hnil⟩ | ⟨hr, hch⟩
  · rw [if_neg (by simpa using h0)]
    exact hrest v (by rw [hnil, View.freed_nil, hV])
  · rw [if_pos (by have := hr.1; omega)]
    refine Act.Does.bind ((does_freeChain g calm hch hr hV).mono (fun x hx => .inl hx)
      (fun _ _ h => h) fun x hx => hN x hx.1) fun _ x hx => hrest x hx

/-- **`fat32_delete`** on a well-formed volume. -/
theorem does_fat32Delete (calm : Prop) (h : Formed fs V l) (hV : view fs v.disk = V)
    (name : List UInt8) :
    Act.Does calm (fat32Delete fs name) v
      (fun x => ∃ w s, nameTo83 name = some w ∧ V.fileSlot fs l w = some s ∧ Vanishing fs V s x)
      (fun _ x => ∃ w s, nameTo83 name = some w ∧ V.fileSlot fs l w = some s ∧
        view fs x.disk = (V.put s (markDeleted (V.entry s))).freed (V.slotClusters fs s))
      fun x => calm → x = v ∧ ∀ w, nameTo83 name = some w → V.fileSlot fs l w = none := by
  rw [fat32Delete]
  cases hname : nameTo83 name with
  | none => exact Act.does_fail fun _ => ⟨rfl, by simp⟩
  | some w =>
    refine (reads_locateRootEntry g h.readable.walk h.start hV h.length_le).bind_does ?_
      fun hc hcalm => absurd hcalm hc
    cases hs : V.findSlot fs l w with
    | none =>
      refine Act.does_fail fun _ => ⟨rfl, fun w' hw' => ?_⟩
      rw [← Option.some.inj hw', View.fileSlot, hs]
      rfl
    | some s =>
      by_cases hd : (V.entry s).isDirectory = true
      · have hno : V.fileSlot fs l w = none := by simp [View.fileSlot, hs, hd]
        simp only [Option.map_some, hd, if_true]
        exact Act.does_fail fun _ => ⟨rfl, fun w' hw' => by rw [← Option.some.inj hw', hno]⟩
      · have hsome : V.fileSlot fs l w = some s := by simp [View.fileSlot, hs, hd]
        simp only [Option.map_some, hd]
        refine (does_deleteFound g calm h hV hs fun _ hc hcalm => absurd hcalm hc).mono
          (fun x hx => ⟨w, s, rfl, hsome, hx⟩) (fun _ x hx => ⟨w, s, rfl, hsome, hx⟩)
          fun _ hx => hx

end Deleting

end TownOS
