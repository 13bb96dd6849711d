import TownOS.Memory.Trees

/-!
What ring 3 finds in an address space.

`Shows` is a `Tree` whose page directory has nothing for ring 3 outside its slots, and whose
pages are those that the loader and the stack mapper make.

* `Shows.userPage_eq`: what the page walk of the CPU finds for ring 3 are the pages of the space;
* `created_or_restored`: `paging_create_address_space` makes a space without pages;
* `Shows.mapPage`: `paging_map_page` puts a frame into it, or needs a table that is not to
  be had.
-/

namespace TownOS.Memory

open Bytes

variable {f g t i : ℕ} {m : ℕ → UInt8} {s s' : Phys}

/-- What ring 3 has in a tree is in its slots, and the pages are proper. -/
structure Shows (s : Phys) (V : Space) : Prop extends Tree s V where
  kernel : ∀ i < tableEntries, i ∉ userPdSlots → s.entry V.pd i &&& pgUser = 0
  proper : ∀ n x, V.page n = some x → x.Proper

namespace Shows

variable {V : Space} {a : Place}

lemma took (h : Shows s V) (htook : Took s f s') : Shows s' V where
  toTree := h.toTree.took htook
  kernel := fun i hi hu =>
    (congrArg (· &&& pgUser) (entry_congr (h.same_of_took htook (a := .pd) rfl) hi)).trans
      (h.kernel i hi hu)
  proper := h.proper

/-! ### The page walk -/

/-- Outside its slots the walk finds nothing for ring 3. -/
lemma translate_kernel (h : Shows s V) {va fl : ℕ} (hslot : ¬ UserSlot va)
    (ht : translate s V.pml4 va = some (f, fl)) : fl &&& pgUser = 0 := by
  obtain hva | hva := Nat.lt_or_ge va (2 ^ 30)
  · have hlt : va / twoMb < tableEntries := by
      simp only [twoMb, tableEntries]
      omega
    have hkernel := h.kernel _ hlt hslot
    rw [h.translate_of_lt hva] at ht
    dsimp only at ht
    split_ifs at ht
    · obtain ⟨-, rfl⟩ := Prod.mk.inj (Option.some.inj ht)
      rw [Nat.and_assoc, hkernel, Nat.and_zero]
    · obtain ⟨-, rfl⟩ := Prod.mk.inj (Option.some.inj ht)
      rw [Nat.and_right_comm, Nat.and_assoc _ _ pgUser, hkernel, Nat.and_zero, Nat.zero_and]
  · rw [h.translate_of_ge hva] at ht
    cases ht

lemma land_openFlags (w : ℕ) {b : ℕ} (hb : openFlags &&& b = b) :
    w &&& openFlags &&& b = w &&& b := by
  rw [Nat.and_assoc, hb]

/-- **What the CPU finds for ring 3 is what the space has.** -/
theorem userPage_eq (h : Shows s V) (va : ℕ) :
    userPage s V.pml4 va = (V.page (va / frameSize)).map Page.leaf := by
  rw [userPage]
  by_cases hslot : UserSlot va
  · have hwalk := h.translate_user hslot
    cases ht : translate s V.pml4 va with
    | none =>
      rw [ht, Option.map_none, eq_comm, Option.map_eq_none_iff] at hwalk
      rw [hwalk, Option.map_none]
    | some r =>
      obtain ⟨frame, fl⟩ := r
      rw [ht, Option.map_some, eq_comm, Option.map_eq_some_iff] at hwalk
      obtain ⟨x, hx, heq⟩ := hwalk
      obtain ⟨hframe, hfl⟩ := Prod.mk.inj heq
      have huser : fl &&& pgUser ≠ 0 := by
        rw [← land_openFlags fl (by decide), ← hfl]
        obtain hp | hp := h.proper _ _ hx <;> rw [hp] <;> decide
      have hwritable : fl &&& pgWritable = x.flags &&& pgWritable := by
        rw [← land_openFlags fl (by decide), ← hfl, land_openFlags _ (by decide)]
      simp only [hx, Option.map_some, Page.leaf, if_neg huser, hwritable, hframe]
  · have hnone : V.page (va / frameSize) = none := by
      by_contra hne
      obtain ⟨x, hx⟩ := Option.ne_none_iff_exists'.1 hne
      exact hslot (h.userSlot_of_page hx)
    rw [hnone]
    cases ht : translate s V.pml4 va with
    | none => rfl
    | some r => exact if_pos (h.translate_kernel hslot ht)

end Shows

/-! ### `paging_map_page` -/

variable {V V' : Space} {n : ℕ} {x : Page}

/-- A frame in use is put into a space. -/
structure Mapped (s : Phys) (V : Space) (n : ℕ) (x : Page) (s' : Phys) (V' : Space) : Prop
    extends Tree.Maps s V n x s' V' where
  shows : Shows s' V'

/-- **`paging_map_page` puts a frame into the space, or it finds no frame for a table and changes
nothing.** -/
theorem Shows.mapPage (h : Shows s V) {va : ℕ} (hva : UserSlot va) (hx : x.Proper)
    (hout : s.Outside V x.frame) :
    pagingMapPage s V.pml4 va x.frame x.flags = (false, s) ∧ s.pool.Full ∨
      ∃ s' V', pagingMapPage s V.pml4 va x.frame x.flags = (true, s') ∧
        Mapped s V (va / frameSize) x s' V' := by
  obtain hfail | ⟨s', V', hmap, hmaps, -⟩ := h.toTree.mapPage hva hx.valid hout
  · exact .inl hfail
  · refine .inr ⟨s', V', hmap, hmaps, hmaps.tree, fun i hi hu => ?_, fun n y hy => ?_⟩
    · rw [hmaps.pd, hmaps.kernel i hi hu, h.kernel i hi hu]
    · rw [hmaps.page, Function.update_apply] at hy
      split_ifs at hy
      · cases hy
        exact hx
      · exact h.proper n y hy

/-! ### `paging_create_address_space` -/

/-- The entries of a page directory that the kernel has for itself. -/
def KernelEntries (T : ℕ → ℕ) : Prop :=
  ∀ i < tableEntries, i ∉ userPdSlots → T i < 2 ^ 64 ∧ T i &&& pgUser = 0

lemma isFrame_twoMb {i : ℕ} (hi : i < tableEntries) : IsFrame (i * twoMb) := by
  simp only [IsFrame, twoMb, tableEntries] at *
  omega

/-- The boot page directory gives ring 3 nothing outside its slots. -/
lemma kernelEntries_pdTable (mapTop : ℕ) : KernelEntries (pdTable mapTop) := by
  intro i hi hu
  have hframe := isFrame_twoMb hi
  have hhuge : hugeEntry i 0 < 2 ^ 64 ∧ hugeEntry i 0 &&& pgUser = 0 :=
    ⟨or_flags_lt hframe (by rw [IsFlags]; decide),
      (or_land hframe (isFlags_of_lt (by decide))).trans (by decide)⟩
  have hslot : ¬(i = userPdIndexCode ∨ i = userPdIndexStack) := by
    rintro (rfl | rfl) <;> exact hu (by decide)
  rw [pdTable, if_neg hslot]
  split_ifs
  · exact hhuge
  · exact hhuge
  · exact ⟨Nat.two_pow_pos 64, Nat.zero_and _⟩

/-- The loop over the entries, up to one of them. -/
lemma cloneKernel_upTo {T : ℕ → ℕ} (hT : KernelEntries T) (s : Phys) (pd : ℕ) {n : ℕ}
    (hn : n ≤ tableEntries) (s' : Phys) (hs' : s' = (List.range n).foldl
      (fun s i => if isUserPdSlot i then s else s.setEntry pd i (T i)) s) :
    s'.pool = s.pool ∧ Only (fun a => pd ≤ a ∧ a < pd + frameSize) s.mem s'.mem ∧
      ∀ i, s'.entry pd i = if i < n ∧ i ∉ userPdSlots then T i else s.entry pd i := by
  induction n generalizing s' with
  | zero =>
    obtain rfl : s' = s := hs'
    exact ⟨rfl, .refl _ _, fun i => (if_neg fun h => absurd h.1 (Nat.not_lt_zero i)).symm⟩
  | succ n ih =>
    obtain ⟨hpool, honly, hentry⟩ := ih (Nat.le_of_succ_le hn) _ rfl
    rw [List.range_succ, List.foldl_append, List.foldl_cons, List.foldl_nil] at hs'
    generalize (List.range n).foldl
      (fun s i => if isUserPdSlot i then s else s.setEntry pd i (T i)) s = s₁ at *
    by_cases hu : n ∈ userPdSlots
    · rw [if_pos (by simpa [isUserPdSlot] using hu)] at hs'
      subst hs'
      refine ⟨hpool, honly, fun i => (hentry i).trans (if_congr ?_ rfl rfl)⟩
      refine ⟨fun h => ⟨h.1.trans (Nat.lt_succ_self n), h.2⟩, fun h => ⟨?_, h.2⟩⟩
      refine lt_of_le_of_ne (Nat.le_of_lt_succ h.1) ?_
      rintro rfl
      exact h.2 hu
    · rw [if_neg (by simpa [isUserPdSlot] using hu)] at hs'
      subst hs'
      refine ⟨hpool, honly.trans (only_setEntry hn s₁ pd _), fun i => ?_⟩
      by_cases hi : i = n
      · subst hi
        rw [entry_setEntry_self _ _ _ (hT i hn hu).1, if_pos ⟨Nat.lt_succ_self i, hu⟩]
      · rw [entry_setEntry_of_ne _ _ _ hi, hentry i]
        exact if_congr (and_congr_left' (by omega)) rfl rfl

lemma cloneKernel_entries {T : ℕ → ℕ} (hT : KernelEntries T) (s : Phys) (pd : ℕ) :
    (cloneKernel s T pd).pool = s.pool ∧
      Only (fun a => pd ≤ a ∧ a < pd + frameSize) s.mem (cloneKernel s T pd).mem ∧
      ∀ i < tableEntries,
        (cloneKernel s T pd).entry pd i = if i ∈ userPdSlots then s.entry pd i else T i := by
  obtain ⟨hpool, honly, hentry⟩ := cloneKernel_upTo hT s pd le_rfl (cloneKernel s T pd)
    (by rw [cloneKernel])
  refine ⟨hpool, honly, fun i hi => ?_⟩
  rw [hentry]
  split_ifs with h₁ h₂ h₂
  · exact absurd h₂ h₁.2
  · rfl
  · rfl
  · exact absurd ⟨hi, h₂⟩ h₁

/-- A space is built from new frames. -/
structure Created (s s' : Phys) (V : Space) : Prop where
  shows : Shows s' V
  num : s'.pool.numFrames = s.pool.numFrames
  blank : ∀ n, V.page n = none
  outside : ∀ g, s'.Outside V g ↔ s.pool.Taken g
  same : ∀ g, s.pool.Taken g → SameFrame g s.mem s'.mem

/-- The page directory has the kernel's entries of another one. -/
def Copied (s : Phys) (V : Space) (T : ℕ → ℕ) : Prop :=
  ∀ i < tableEntries, i ∉ userPdSlots → s.entry V.pd i = T i

/-- The pool is as it was. -/
structure Restored (s s' : Phys) : Prop where
  num : s'.pool.numFrames = s.pool.numFrames
  taken : ∀ g, s'.pool.Taken g ↔ s.pool.Taken g
  same : ∀ g, IsFrame g → s.pool.Taken g → SameFrame g s.mem s'.mem

lemma Restored.refl (s : Phys) : Restored s s := ⟨rfl, fun _ => .rfl, fun g _ _ => .refl g s.mem⟩

lemma Took.back {s'' : Phys} (h : Took s f s') (h' : Restored s' s'') :
    Restored s (s''.freeFrame f) where
  num := (FramePool.freeFrame_numFrames ..).trans (h'.num.trans h.num)
  taken := fun g => by
    refine (taken_freeFrame ((h'.taken f).2 h.self)).trans ?_
    rw [h'.taken, h.taken]
    exact ⟨fun hg => hg.1.resolve_right hg.2, fun hg => ⟨.inl hg, h.ne hg⟩⟩
  same := fun g hgf hg =>
    (h.same g hgf (h.ne hg)).trans (h'.same g hgf ((h.taken g).2 (.inl hg)))

lemma Took.back_two {s₁ s₂ : Phys} (h₁ : Took s f s₁) (h₂ : Took s₁ g s₂) :
    Restored s ((s₂.freeFrame f).freeFrame g) where
  num := (FramePool.freeFrame_numFrames ..).trans
    ((FramePool.freeFrame_numFrames ..).trans (h₂.num.trans h₁.num))
  taken := fun j => by
    have hf : s₂.pool.Taken f := (h₂.taken f).2 (.inl h₁.self)
    have hg : (s₂.freeFrame f).pool.Taken g :=
      (taken_freeFrame hf).2 ⟨h₂.self, (h₂.ne h₁.self).symm⟩
    refine (taken_freeFrame hg).trans ?_
    refine (and_congr_left' (taken_freeFrame hf)).trans ?_
    rw [h₂.taken, h₁.taken]
    constructor
    · rintro ⟨⟨(hj | hj) | hj, hne⟩, hne'⟩
      · exact hj
      all_goals contradiction
    · exact fun hj => ⟨⟨.inl (.inl hj), h₁.ne hj⟩, h₂.ne ((h₁.taken j).2 (.inl hj))⟩
  same := fun j hjf hj => (h₁.same j hjf (h₁.ne hj)).trans
    (h₂.same j hjf (h₂.ne ((h₁.taken j).2 (.inl hj))))

/-- Three tables are enough for a space without pages. -/
lemma shows_empty {pml4 pdpt pd : ℕ} (hp : s.pool.numFrames ≤ maxFrames)
    (htaken : s.pool.Taken pml4 ∧ s.pool.Taken pdpt ∧ s.pool.Taken pd)
    (hne : pml4 ≠ pdpt ∧ pml4 ≠ pd ∧ pdpt ≠ pd)
    (hpml4 : ∀ i < tableEntries, s.entry pml4 i = if i = 0 then tableEntry pdpt else 0)
    (hpdpt : ∀ i < tableEntries, s.entry pdpt i = if i = 0 then tableEntry pd else 0)
    (hslots : ∀ i, i ∈ userPdSlots → s.entry pd i = 0)
    (hkernel : ∀ i < tableEntries, i ∉ userPdSlots → s.entry pd i &&& pgUser = 0) :
    Shows s (.empty pml4 pdpt pd) where
  sized := hp
  taken := fun a g ha => by
    cases a with
    | pml4 => exact Option.some.inj ha ▸ htaken.1
    | pdpt => exact Option.some.inj ha ▸ htaken.2.1
    | pd => exact Option.some.inj ha ▸ htaken.2.2
    | table | page => cases ha
  apart := fun a b g ha hb => by
    have hab := ha.trans hb.symm
    obtain ⟨h₁₂, h₁₃, h₂₃⟩ := hne
    cases a <;> cases b <;>
      simp [Space.frameAt, Space.empty, h₁₂, h₁₂.symm, h₁₃, h₁₃.symm, h₂₃, h₂₃.symm] at hab hb ⊢
  pml4 := hpml4
  pdpt := hpdpt
  slots := hslots
  kernel := hkernel
  tables := fun _ _ ht => nomatch ht
  pages := fun _ _ hx => nomatch hx
  proper := fun _ _ hx => nomatch hx

/-- The entries that `paging_create_address_space` writes into three new tables. -/
lemma created {pml4 pdpt pd : ℕ} {s₁ s₂ s₃ : Phys} {T : ℕ → ℕ} (hT : KernelEntries T)
    (hp : s.pool.numFrames ≤ maxFrames) (h₁ : Took s pml4 s₁) (h₂ : Took s₁ pdpt s₂)
    (h₃ : Took s₂ pd s₃) (hz₁ : ∀ i < tableEntries, s₁.entry pml4 i = 0)
    (hz₂ : ∀ i < tableEntries, s₂.entry pdpt i = 0) (hz₃ : ∀ i < tableEntries, s₃.entry pd i = 0) :
    Created s (((cloneKernel s₃ T pd).setEntry pdpt 0 (tableEntry pd)).setEntry pml4 0
        (tableEntry pdpt)) (.empty pml4 pdpt pd) ∧
      Copied (((cloneKernel s₃ T pd).setEntry pdpt 0 (tableEntry pd)).setEntry pml4 0
        (tableEntry pdpt)) (.empty pml4 pdpt pd) T := by
  have hp₁ := h₁.num.trans_le hp
  have hp₂ := h₂.num.trans_le hp₁
  have hf₁ := h₁.isFrame hp
  have hf₂ := h₂.isFrame hp₁
  have hf₃ := h₃.isFrame hp₂
  have hne₁₂ : pml4 ≠ pdpt := h₂.ne h₁.self
  have hne₂₃ : pdpt ≠ pd := h₃.ne h₂.self
  have hne₁₃ : pml4 ≠ pd := h₃.ne ((h₂.taken _).2 (.inl h₁.self))
  have hlt : 0 < tableEntries := by decide
  obtain ⟨hpool, honly, hentry⟩ := cloneKernel_entries hT s₃ pd
  generalize cloneKernel s₃ T pd = s₄ at *
  generalize hs₅ : s₄.setEntry pdpt 0 (tableEntry pd) = s₅
  generalize hs₆ : s₅.setEntry pml4 0 (tableEntry pdpt) = s₆
  have hpool₆ : s₆.pool = s₃.pool := by
    rw [← hpool, ← hs₆, ← hs₅, Phys.setEntry, Phys.setEntry]
  have htaken : ∀ g, s₆.pool.Taken g ↔ ((s.pool.Taken g ∨ g = pml4) ∨ g = pdpt) ∨ g = pd := by
    intro g
    rw [hpool₆, h₃.taken, h₂.taken, h₁.taken]
  -- what each write leaves alone
  have hsame₄ : ∀ {g}, IsFrame g → g ≠ pd → SameFrame g s₃.mem s₄.mem :=
    fun hg hne => .of_only hg hf₃ hne honly
  have hsame₅ : ∀ {g}, IsFrame g → g ≠ pdpt → SameFrame g s₄.mem s₅.mem := by
    rw [← hs₅]
    exact fun hg hne => .of_only hg hf₂ hne (only_setEntry hlt s₄ _ _)
  have hsame₆ : ∀ {g}, IsFrame g → g ≠ pml4 → SameFrame g s₅.mem s₆.mem := by
    rw [← hs₆]
    exact fun hg hne => .of_only hg hf₁ hne (only_setEntry hlt s₅ _ _)
  have hpd : ∀ i < tableEntries, s₆.entry pd i = s₄.entry pd i := fun i hi =>
    entry_congr ((hsame₅ hf₃ hne₂₃.symm).trans (hsame₆ hf₃ hne₁₃.symm)) hi
  have hpml4 : ∀ i < tableEntries, s₆.entry pml4 i = if i = 0 then tableEntry pdpt else 0 := by
    intro i hi
    rw [← hs₆]
    split_ifs with h0
    · rw [h0, entry_setEntry_self _ _ _ (tableEntry_lt hf₂)]
    · have hz : SameFrame pml4 s₁.mem s₅.mem := (h₂.same _ hf₁ hne₁₂).trans
        ((h₃.same _ hf₁ hne₁₃).trans ((hsame₄ hf₁ hne₁₃).trans (hsame₅ hf₁ hne₁₂)))
      rw [entry_setEntry_of_ne _ _ _ h0, entry_congr hz hi, hz₁ i hi]
  have hpdpt : ∀ i < tableEntries, s₆.entry pdpt i = if i = 0 then tableEntry pd else 0 := by
    intro i hi
    rw [entry_congr (hsame₆ hf₂ hne₁₂.symm) hi, ← hs₅]
    split_ifs with h0
    · rw [h0, entry_setEntry_self _ _ _ (tableEntry_lt hf₃)]
    · have hz : SameFrame pdpt s₂.mem s₄.mem := (h₃.same _ hf₂ hne₂₃).trans (hsame₄ hf₂ hne₂₃)
      rw [entry_setEntry_of_ne _ _ _ h0, entry_congr hz hi, hz₂ i hi]
  have hcopied : ∀ i < tableEntries, i ∉ userPdSlots → s₆.entry pd i = T i := by
    intro i hi hu
    rw [hpd i hi, hentry i hi, if_neg hu]
  refine ⟨⟨shows_empty ?_ ⟨?_, ?_, ?_⟩ ⟨hne₁₂, hne₁₃, hne₂₃⟩ hpml4 hpdpt ?_ ?_, ?_,
    fun _ => rfl, ?_,
    ?_⟩, hcopied⟩
  · rw [hpool₆, h₃.num]
    exact hp₂
  · exact (htaken _).2 (.inl (.inl (.inr rfl)))
  · exact (htaken _).2 (.inl (.inr rfl))
  · exact (htaken _).2 (.inr rfl)
  · intro i hi
    have hi' := lt_of_mem_userPdSlots hi
    rw [hpd i hi', hentry i hi', if_pos hi, hz₃ i hi']
  · intro i hi hu
    rw [hcopied i hi hu, (hT i hi hu).2]
  · rw [hpool₆, h₃.num, h₂.num, h₁.num]
  · intro g
    have hfree : (Space.empty pml4 pdpt pd).Free g ↔ g ≠ pml4 ∧ g ≠ pdpt ∧ g ≠ pd := by
      refine ⟨fun h => ⟨?_, ?_, ?_⟩, fun ⟨h₁, h₂, h₃⟩ a ha => ?_⟩
      · exact fun heq => h .pml4 (congrArg some heq.symm)
      · exact fun heq => h .pdpt (congrArg some heq.symm)
      · exact fun heq => h .pd (congrArg some heq.symm)
      · cases a with
        | pml4 => exact h₁ (Option.some.inj ha).symm
        | pdpt => exact h₂ (Option.some.inj ha).symm
        | pd => exact h₃ (Option.some.inj ha).symm
        | table | page => cases ha
    rw [Phys.Outside, htaken, hfree]
    constructor
    · rintro ⟨((hg | hg) | hg) | hg, h₁, h₂, h₃⟩
      · exact hg
      all_goals contradiction
    · intro hg
      have hg₁ : s₁.pool.Taken g := (h₁.taken g).2 (.inl hg)
      exact ⟨.inl (.inl (.inl hg)), h₁.ne hg, h₂.ne hg₁, h₃.ne ((h₂.taken g).2 (.inl hg₁))⟩
  · intro g hg
    have hgf := hg.isFrame hp
    have hg₁ : s₁.pool.Taken g := (h₁.taken g).2 (.inl hg)
    have hg₂ : s₂.pool.Taken g := (h₂.taken g).2 (.inl hg₁)
    refine (h₁.same g hgf (h₁.ne hg)).trans ((h₂.same g hgf (h₂.ne hg₁)).trans
      ((h₃.same g hgf (h₃.ne hg₂)).trans ((hsame₄ hgf (h₃.ne hg₂)).trans
        ((hsame₅ hgf (h₂.ne hg₁)).trans (hsame₆ hgf (h₁.ne hg))))))

/-- **`paging_create_address_space` makes a space without pages, with the kernel's entries, or it
returns what it took.** -/
theorem created_or_restored {T : ℕ → ℕ} (hT : KernelEntries T) (hp : s.pool.numFrames ≤ maxFrames)
    (room : Bool) :
    (∃ s', pagingCreateAddressSpace s T room = (none, s') ∧ Restored s s') ∨
      ∃ s' V, pagingCreateAddressSpace s T room = (some V.pml4, s') ∧ Created s s' V ∧
        Copied s' V T := by
  rw [pagingCreateAddressSpace]
  cases room with
  | false => exact .inl ⟨s, rfl, .refl s⟩
  | true =>
    rw [if_neg (by decide)]
    obtain ⟨ha₁, -⟩ | ⟨pml4, s₁, ha₁, h₁, hz₁⟩ := allocTable_cases hp
    · refine .inl ⟨s, ?_, .refl s⟩
      simp only [ha₁, Phys.freeFound, Option.elim]
    have hp₁ := h₁.num.trans_le hp
    obtain ⟨ha₂, -⟩ | ⟨pdpt, s₂, ha₂, h₂, hz₂⟩ := allocTable_cases hp₁
    · refine .inl ⟨s₁.freeFrame pml4, ?_, h₁.back (.refl s₁)⟩
      simp only [ha₁, ha₂, Phys.freeFound, Option.elim]
    have hp₂ := h₂.num.trans_le hp₁
    obtain ⟨ha₃, -⟩ | ⟨pd, s₃, ha₃, h₃, hz₃⟩ := allocTable_cases hp₂
    · refine .inl ⟨(s₂.freeFrame pml4).freeFrame pdpt, ?_, h₁.back_two h₂⟩
      simp only [ha₁, ha₂, ha₃, Phys.freeFound, Option.elim]
    · refine .inr ⟨_, .empty pml4 pdpt pd, ?_, created hT hp h₁ h₂ h₃ hz₁ hz₂ hz₃⟩
      simp only [ha₁, ha₂, ha₃]
      rfl

lemma Created.of_create {s₀ : Phys} {T : ℕ → ℕ} {room : Bool} {root : ℕ} (hT : KernelEntries T)
    (hp : s₀.pool.numFrames ≤ maxFrames)
    (hcreate : pagingCreateAddressSpace s₀ T room = (some root, s)) :
    ∃ V : Space, V.pml4 = root ∧ Created s₀ s V ∧ Copied s V T := by
  obtain ⟨s', hfail, -⟩ | ⟨s', V, hok, hcreated⟩ := created_or_restored hT hp room
  · rw [hfail] at hcreate
    cases hcreate
  · rw [hok] at hcreate
    cases hcreate
    exact ⟨V, rfl, hcreated⟩

/-- A pool of eight frames, and memory without contents. -/
def eightFrames : Phys := ⟨⟨fun _ => false, 8, 0⟩, fun _ => 0⟩

lemma create_eightFrames : pagingCreateAddressSpace eightFrames (pdTable 0) true =
    (some (frameAddr 0), (pagingCreateAddressSpace eightFrames (pdTable 0) true).2) :=
  Prod.ext (by decide) rfl

end TownOS.Memory
