import TownOS.Kernel.Actions
import TownOS.Kernel.Delivery
import TownOS.Fat32.Contents

/-!
Where system calls read and write.

Every address a system call uses comes from ring 3. What the kernel touches through it is in
the history `touched`, and a byte of user memory that has changed lies in one of the spans
written there; only `SYS_MMAP` changes more, by replacing pages of the heap slot with fresh
ones. All the spans are inside the region of ring 3. Two of the buffers are filled by the file
system, which is handed their length and delivers no more.

* `slotted_of_run`: the regions that `SYS_MMAP` maps are in the heap slot;
* `Traced`: what has been touched since a state, and that nothing else has changed;
* `Deeds.confined`, `exits_confined`: the pieces of a system call;
* `fat32ReadFileWithin_eq`, `fat32ListNamesWithin_eq`: checking the bounds of a buffer at every
  write would make no difference to the file system;
* `syscall_confined`: the spans of a system call.
-/

namespace TownOS

open Durable

/-- The address is among those written. -/
def Span.Covers (s : Span) (a : ℕ) : Prop := s.write = true ∧ s.addr ≤ a ∧ a < s.addr + s.len

namespace Kernel

open Relation Runs

variable {k k' k₁ k₂ : Kernel} {P : ℕ → Prop} {spans spans' : List Span}

/-- From one state to another the kernel has touched some spans, and memory has changed where it
has written and at addresses with `P` only. -/
structure Traced (P : ℕ → Prop) (k : Kernel) (spans : List Span) (k' : Kernel) : Prop where
  touched : k'.touched = k.touched ++ spans
  grows : k.tasks.length ≤ k'.tasks.length
  mem : ∀ i < k.tasks.length, ∀ t', k'.task i = some t' → ∃ t, k.task i = some t ∧
    ∀ a, t'.mem a ≠ t.mem a → (∃ s ∈ spans, s.Covers a) ∨ P a

/-- The spans add up. -/
lemma Traced.trans (h : Traced P k spans k₁) (h' : Traced P k₁ spans' k₂) :
    Traced P k (spans ++ spans') k₂ := by
  refine ⟨?_, h.grows.trans h'.grows, fun i hi t₂ ht₂ => ?_⟩
  · rw [h'.touched, h.touched, List.append_assoc]
  · obtain ⟨t₁, ht₁, h₂⟩ := h'.mem i (hi.trans_le h.grows) t₂ ht₂
    obtain ⟨t, ht, h₁⟩ := h.mem i hi t₁ ht₁
    refine ⟨t, ht, fun a ha => ?_⟩
    by_cases hsame : t₂.mem a = t₁.mem a
    · rw [hsame] at ha
      obtain ⟨s, hs, hcov⟩ | hP := h₁ a ha
      · exact .inl ⟨s, List.mem_append_left _ hs, hcov⟩
      · exact .inr hP
    · obtain ⟨s, hs, hcov⟩ | hP := h₂ a hsame
      · exact .inl ⟨s, List.mem_append_right _ hs, hcov⟩
      · exact .inr hP

lemma Traced.after (h : Traced P k [] k₁) (h' : Traced P k₁ spans k₂) : Traced P k spans k₂ :=
  h.trans h'

lemma Traced.before (h : Traced P k spans k₁) (h' : Traced P k₁ [] k₂) : Traced P k spans k₂ := by
  have := h.trans h'
  rwa [List.append_nil] at this

lemma Traced.mono {Q : ℕ → Prop} (h : Traced P k spans k') (hPQ : ∀ a, P a → Q a) :
    Traced Q k spans k' := by
  refine ⟨h.touched, h.grows, fun i hi t' ht' => ?_⟩
  obtain ⟨t, ht, hmem⟩ := h.mem i hi t' ht'
  exact ⟨t, ht, fun a ha => (hmem a ha).imp_right (hPQ a)⟩

/-- The tasks keep their memories. -/
lemma Traced.of_mem (htouched : k'.touched = k.touched) (hgrows : k.tasks.length ≤ k'.tasks.length)
    (hmem : ∀ i < k.tasks.length, ∀ t', k'.task i = some t' →
      ∃ t, k.task i = some t ∧ t'.mem = t.mem) : Traced P k [] k' := by
  refine ⟨by rw [htouched, List.append_nil], hgrows, fun i hi t' ht' => ?_⟩
  obtain ⟨t, ht, heq⟩ := hmem i hi t' ht'
  exact ⟨t, ht, fun a ha => absurd (congrFun heq a) ha⟩

lemma Traced.refl (P : ℕ → Prop) (k : Kernel) : Traced P k [] k :=
  .of_mem rfl le_rfl fun _ _ t ht => ⟨t, ht, rfl⟩

lemma Calm.traced (hc : Calm k k') (htouched : k'.touched = k.touched) : Traced P k [] k' := by
  refine .of_mem htouched hc.length.ge fun i _ t' ht' => ?_
  obtain ⟨t, ht, hd⟩ := hc.drift ht'
  refine ⟨t, ht, ?_⟩
  cases hd <;> rfl

lemma traced_modifyTask {i : ℕ} {f : Task → Task} (hf : ∀ t, (f t).mem = t.mem) :
    Traced P k [] (k.modifyTask i f) := by
  refine .of_mem rfl (List.length_modify ..).ge fun j _ t' ht' => ?_
  rw [task_modifyTask] at ht'
  obtain ⟨t, ht, ⟨-, rfl⟩ | rfl⟩ := task_of_ite ht'
  · exact ⟨t, ht, hf t⟩
  · exact ⟨t', ht, rfl⟩

/-- Only other parts of the state change. -/
lemma Traced.of_tasks (htouched : k'.touched = k.touched) (htasks : k'.tasks = k.tasks) :
    Traced P k [] k' := by
  refine .of_mem htouched (congrArg _ htasks).ge fun i _ t' ht' => ⟨t', ?_, rfl⟩
  rw [task, ← htasks]
  exact ht'

/-! ### The heap slot -/

/-- The regions of all tasks end below `USER_HEAP_LIMIT`. -/
def Slotted (k : Kernel) : Prop :=
  ∀ i t, k.task i = some t → ∀ j,
    (t.regions j).base.toNat + (t.regions j).length.toNat ≤ userHeapLimit.toNat

/-- What `SYS_MMAP` may replace with fresh pages. -/
def Mapping (k : Kernel) (a : ℕ) : Prop :=
  SysCall.ofWord k.pile.rax = some .mmap ∧ userHeapBase.toNat ≤ a ∧
    (Slotted k → a < userHeapLimit.toNat)

/-- A new region lies above the base of the heap slot. -/
lemma userHeapBase_le_scanRegions (regions : ℕ → Region) :
    userHeapBase.toNat ≤ (scanRegions regions).1.toNat := by
  rw [scanRegions]
  refine List.foldlRecOn (motive := fun x : Word × Word => userHeapBase.toNat ≤ x.1.toNat) _ _
    le_rfl ?_
  rintro ⟨next, total⟩ hle i -
  dsimp only at hle ⊢
  split_ifs with hfree hlast
  · exact hle
  · exact hle.trans (BitVec.lt_def.mp hlast).le
  · exact hle

/-- The search for the end of the last region stays below the limit. -/
lemma scanRegions_le {regions : ℕ → Region}
    (h : ∀ j, (regions j).base.toNat + (regions j).length.toNat ≤ userHeapLimit.toNat) :
    (scanRegions regions).1.toNat ≤ userHeapLimit.toNat := by
  rw [scanRegions]
  refine List.foldlRecOn (motive := fun x : Word × Word => x.1.toNat ≤ userHeapLimit.toNat) _ _
    (by decide) ?_
  rintro ⟨next, total⟩ hle i -
  dsimp only at hle ⊢
  split_ifs with hfree hlast
  · exact hle
  · rw [BitVec.toNat_add]
    exact (Nat.mod_le _ _).trans (h i)
  · exact hle

/-- So `SYS_MMAP` maps below the limit. -/
lemma Maps.le_limit {t : Task} {slot : ℕ} {r : Region} (hm : Maps k t slot r) (h : Slotted k) :
    r.base.toNat + r.length.toNat ≤ userHeapLimit.toNat := by
  have hbase : r.base.toNat ≤ userHeapLimit.toNat := by
    rw [hm.base]
    exact scanRegions_le (h _ t hm.current)
  have hfits := hm.fits
  rw [BitVec.not_lt, BitVec.le_def, BitVec.toNat_sub_of_le (BitVec.le_def.mpr hbase)] at hfits
  omega

lemma Slotted.of_task (h : Slotted k)
    (hk : ∀ i t', k'.task i = some t' → ∃ t, k.task i = some t ∧ t'.regions = t.regions) :
    Slotted k' := by
  intro i t' ht' j
  obtain ⟨t, ht, hreg⟩ := hk i t' ht'
  rw [hreg]
  exact h i t ht j

lemma Slotted.of_tasks {j : Kernel} (h : Slotted k) (hk : j.tasks = k.tasks) : Slotted j :=
  h.of_task fun i t' ht' => ⟨t', by rwa [task, ← hk], rfl⟩

lemma Slotted.modifyTask (h : Slotted k) {i : ℕ} {f : Task → Task}
    (hf : ∀ t, k.task i = some t → ∀ j, ((f t).regions j).base.toNat +
      ((f t).regions j).length.toNat ≤ userHeapLimit.toNat) : Slotted (k.modifyTask i f) := by
  intro j t' ht'
  rw [task_modifyTask] at ht'
  obtain ⟨t, ht, ⟨hj, rfl⟩ | rfl⟩ := task_of_ite ht'
  · exact hf t (hj ▸ ht)
  · exact h j t' ht

lemma Slotted.keep (h : Slotted k) {i : ℕ} {f : Task → Task} (hf : ∀ t, (f t).regions = t.regions) :
    Slotted (k.modifyTask i f) :=
  h.modifyTask fun t ht => by
    rw [hf]
    exact h i t ht

lemma Slotted.store (h : Slotted k) (addr : ℕ) (bytes : List UInt8) :
    Slotted (k.store addr bytes) :=
  (h.of_tasks (j := k.touch true addr bytes.length) rfl).keep fun _ => rfl

lemma Slotted.calm (h : Slotted k) (hc : Calm k k') : Slotted k' := by
  refine h.of_task fun i t' ht' => ?_
  obtain ⟨t, ht, hd⟩ := hc.drift ht'
  refine ⟨t, ht, ?_⟩
  cases hd <;> rfl

lemma Slotted.press (h : Slotted k) (hp : Press k k') : Slotted k' := by
  rcases hp.calm_or_cut with hc | ⟨i, t, sig, ht, hb, rfl⟩
  · exact h.calm hc
  · exact (h.of_tasks (j := k.note (.cut i t.regs.cpu)) rfl).keep fun _ => rfl

/-- A deed leaves the regions below the limit. -/
lemma Deed.slotted {s s' : Multiset File × Kernel} (hd : Deed s s') (h : Slotted s.2) :
    Slotted s'.2 := by
  cases hd with
  | raise _ k id sig => exact h.press (.raise k id sig)
  | getKey | eofTaken | newPipe | dropPipe | foreground | read => exact h.of_tasks rfl
  | took | gave => exact (h.of_tasks (j := setPipe ..) rfl).calm (calm_schedulerWake ..)
  | collect _ k i hcall ht hz hp => exact h.calm (calm_collect ht hz)
  | store => exact h.store _ _
  | install => exact h.keep fun _ => rfl
  | map _ k slot r hm =>
    refine h.modifyTask fun t ht j => ?_
    simp only [mapRegion, Function.update_apply]
    split_ifs
    · exact hm.le_limit h
    · exact h _ t ht j
  | unmap _ k slot =>
    refine h.modifyTask fun t ht j => ?_
    simp only [unmapRegion, Function.update_apply]
    split_ifs
    · exact Nat.zero_le _
    · exact h _ t ht j
  | dup _ k fd f hf => exact h.calm (calm_countEnd k f)
  | openEnd _ k p writable hp => exact h.calm (calm_countEnd k ⟨.pipe p, writable⟩)
  | put | take => exact h.keep fun _ => rfl
  | close => exact h.calm (calm_fileClose ..)
  | spawn _ k image pgid inSrc outSrc =>
    intro i t' ht'
    rw [task_live, task_addTask] at ht'
    split_ifs at ht' with hi
    · obtain rfl := Option.some.inj ht'
      exact fun _ => Nat.zero_le _
    · exact h i t' ht'

lemma Action.slotted {C : Kernel → Prop} {s s' : Stage × Kernel} (ha : Action C s s')
    (h : Slotted s.2) : Slotted s'.2 := by
  cases ha with
  | deed hd => exact hd.slotted h
  | press hs hp => exact h.press hp
  | enter | reply | checked | exits | condemned | lost | rest | stir => exact h.of_tasks rfl
  | user k r mem => exact (h.of_tasks (j := k.setPile r) rfl).keep fun _ => rfl
  | interrupt k => exact (h.of_tasks (j := k.note _) rfl).keep fun _ => rfl
  | @goBack k t ht hact hok =>
    refine h.of_task fun i t' ht' => ?_
    rw [(goBack_goesBack k t).task] at ht'
    obtain ⟨t₁, ht₁, ⟨-, rfl⟩ | rfl⟩ := task_of_ite ht'
    · exact ⟨t₁, ht₁, rfl⟩
    · exact ⟨t', ht₁, rfl⟩
  | @enterHandler k t sig hC ht hact hsig hh hok =>
    have hstores := ((h.of_tasks (j := k.note (.entered k.current k.pile.cpu)) rfl).store
      (signalFrame k.pile.userRsp).toNat k.pile.bytes).store
      (signalFrame k.pile.userRsp - 8).toNat (wordBytes t.sigTrampoline)
    exact (hstores.of_tasks (j := setPile _ _) rfl).keep fun _ => rfl
  | @killed k t sig =>
    exact (h.keep (f := fun t => clearPending t sig) fun _ => rfl).of_tasks rfl
  | shut k fd =>
    have hheld := HeldDeeds.invariant (deeds_closeFd k fd) (fun _ _ hd h => hd.slotted h) h
    exact hheld
  | @bury status k =>
    exact (h.keep (i := k.current) (f := fun t =>
      { t with exitStatus := status % 256, state := .zombie, waitReason := .none })
      fun _ => rfl).of_tasks rfl
  | rouse k =>
    exact ReflTransGen.head_induction_on (motive := fun x _ => Slotted x → Slotted _)
      (calms_wakeParent k _) id (fun hc _ ih h => ih (h.calm hc)) h
  | @park k reason kb =>
    exact (h.keep (i := k.current)
      (f := fun t => { t with state := .blocked, waitReason := reason }) fun _ => rfl).of_tasks rfl
  | sweep hp hs => exact h.calm hs.calm
  | save hp k => exact h.keep fun _ => rfl
  | @dispatch k next hr =>
    obtain ⟨t, ht, -⟩ := exists_of_isReady hr
    refine h.of_task fun i t' ht' => ?_
    rw [(dispatch_dispatched ht).task] at ht'
    split_ifs at ht' with hi
    · obtain rfl := Option.some.inj ht'
      exact ⟨t, hi ▸ ht, rfl⟩
    · exact ⟨t', ht', rfl⟩

/-- From boot on, the regions of all tasks are below the limit. -/
lemma slotted_of_run {image : Image} {r : Regs} {es : List Event}
    (hrun : Runs.exec step (boot image r) es = some k) : Slotted k := by
  have hboot : Slotted (boot image r) := by
    intro i t ht
    cases i with
    | zero =>
      obtain rfl := Option.some.inj ht
      exact fun _ => Nat.zero_le _
    | succ i => cases ht
  exact Actions.invariant (I := fun s => Slotted s.2) (run_actions (C := fun _ => True)
    (along_of_forall (fun _ _ _ _ => trivial) es _) hrun) (fun _ _ ha h => ha.slotted h) hboot

/-! ### Deeds -/

lemma Press.traced (hp : Press k k') : Traced P k [] k' := by
  rcases hp.calm_or_cut with hc | ⟨i, t, sig, ht, hb, rfl⟩
  · exact hc.traced hp.frame.touched
  · have hcut : Traced P (k.note (.cut i t.regs.cpu)) [] _ :=
      traced_modifyTask (i := i) (f := cutTask sig) fun _ => rfl
    have hnote : Traced P k [] (k.note (.cut i t.regs.cpu)) := .of_tasks rfl rfl
    exact hnote.after hcut

/-- The kernel writes to the memory of the running task. -/
lemma traced_store (k : Kernel) (addr : ℕ) (bytes : List UInt8) :
    Traced P k [⟨true, addr, bytes.length⟩] (k.store addr bytes) := by
  refine ⟨rfl, (List.length_modify ..).ge, fun i _ t' ht' => ?_⟩
  rw [store, modifyCurrent, task_modifyTask] at ht'
  obtain ⟨t, ht, ⟨-, rfl⟩ | rfl⟩ := task_of_ite ht'
  · refine ⟨t, ht, fun a ha => .inl ⟨_, List.mem_singleton_self _, rfl, ?_⟩⟩
    by_contra hout
    exact ha (Bytes.storeAt_outside (by simp only at hout; omega))
  · exact ⟨t', ht, fun a ha => absurd rfl ha⟩

lemma traced_touch (k : Kernel) (write : Bool) (addr len : ℕ) :
    Traced P k [⟨write, addr, len⟩] (k.touch write addr len) :=
  ⟨rfl, le_rfl, fun _ _ t ht => ⟨t, ht, fun _ ha => absurd rfl ha⟩⟩

/-- What `SYS_MMAP` replaces lies in the heap slot. -/
lemma traced_mapRegion {t₀ : Task} {slot : ℕ} {r : Region} (hm : Maps k t₀ slot r) :
    Traced (Mapping k) k [] (k.modifyCurrent (mapRegion slot r)) := by
  refine ⟨by rw [List.append_nil]; rfl, (List.length_modify ..).ge, fun i _ t' ht' => ?_⟩
  rw [modifyCurrent, task_modifyTask] at ht'
  obtain ⟨t, ht, ⟨-, rfl⟩ | rfl⟩ := task_of_ite ht'
  · have hbase : userHeapBase.toNat ≤ r.base.toNat := by
      rw [hm.base]
      exact userHeapBase_le_scanRegions _
    refine ⟨t, ht, fun a ha => .inr ?_⟩
    have hin : r.base.toNat ≤ a ∧ a < r.base.toNat + r.length.toNat := by
      by_contra hout
      exact ha (if_neg hout)
    exact ⟨hm.call, hbase.trans hin.1, fun h => hin.2.trans_le (hm.le_limit h)⟩
  · exact ⟨t', ht, fun a ha => absurd rfl ha⟩

/-- From one state to another the kernel has touched user memory inside its region only. -/
def Confined (P : ℕ → Prop) (k k' : Kernel) : Prop :=
  ∃ spans, (∀ x ∈ spans, x.Inside) ∧ Traced P k spans k'

lemma Confined.of_traced (h : Traced P k [] k') : Confined P k k' := ⟨[], nofun, h⟩

lemma Confined.of_span {x : Span} (hx : x.Inside) (h : Traced P k [x] k') : Confined P k k' := by
  refine ⟨[x], fun y hy => ?_, h⟩
  rw [List.mem_singleton.mp hy]
  exact hx

lemma Confined.trans (h : Confined P k k₁) (h' : Confined P k₁ k₂) : Confined P k k₂ := by
  obtain ⟨spans, hin, htr⟩ := h
  obtain ⟨spans', hin', htr'⟩ := h'
  refine ⟨spans ++ spans', fun x hx => ?_, htr.trans htr'⟩
  rcases List.mem_append.mp hx with hx | hx
  · exact hin x hx
  · exact hin' x hx

/-- A deed touches user memory inside its region only. -/
lemma Deed.confined {s s' : Multiset File × Kernel} (hd : Deed s s') :
    Confined (Mapping s.2) s.2 s'.2 := by
  have hwake : ∀ {k : Kernel} (p : ℕ) (x : Option Pipe) (reason : WaitReason),
      Traced (Mapping k) k [] (schedulerWake (k.setPipe p x) reason) := by
    intro k p x reason
    have hset : Traced (Mapping k) k [] (k.setPipe p x) := .of_tasks rfl rfl
    exact hset.after ((calm_schedulerWake _ reason).traced rfl)
  cases hd with
  | raise h k id sig => exact .of_traced (Press.raise k id sig).traced
  | getKey | eofTaken | newPipe | dropPipe | foreground => exact .of_traced (.of_tasks rfl rfl)
  | took h k p n hcall hf hpos hn => exact .of_traced (hwake p _ _)
  | gave h k p l hcall hf hr hl => exact .of_traced (hwake p _ _)
  | collect h k i hcall ht hz hp =>
    exact .of_traced ((calm_collect ht hz).traced (switchFrame_collect k i _).touched)
  | read h k addr len hin => exact .of_span hin (traced_touch k false addr len)
  | store h k addr bytes hin => exact .of_span hin (traced_store k addr bytes)
  | install h k sig handler trampoline => exact .of_traced (traced_modifyTask fun _ => rfl)
  | map h k slot r hm => exact .of_traced (traced_mapRegion hm)
  | unmap h k slot => exact .of_traced (traced_modifyTask fun _ => rfl)
  | dup h k fd f hf =>
    exact .of_traced ((calm_countEnd k f).traced (quietFrame_countEnd k f).touched)
  | openEnd h k p writable hp =>
    exact .of_traced
      ((calm_countEnd k ⟨.pipe p, writable⟩).traced (quietFrame_countEnd k _).touched)
  | put h k fd f hfd hfree => exact .of_traced (traced_modifyTask fun _ => rfl)
  | take h k fd f hf => exact .of_traced (traced_modifyTask fun _ => rfl)
  | close h k f => exact .of_traced ((calm_fileClose k f).traced (quietFrame_fileClose k f).touched)
  | spawn h k image pgid inSrc outSrc =>
    refine .of_traced (.of_mem rfl ?_ fun i hi t' ht' => ⟨t', ?_, rfl⟩)
    · exact (Nat.le_add_right k.tasks.length _).trans (List.length_append ..).ge
    · have hadd := (task_addTask (k := k) (i := i)).symm.trans ht'
      rwa [if_neg hi.ne] at hadd

/-- So do several. -/
lemma Deeds.confined (hd : Deeds k k') : Confined (Mapping k) k k' := by
  have hheld : ∀ s s' : Multiset File × Kernel, HeldDeeds s s' →
      Confined (Mapping s.2) s.2 s'.2 := by
    intro s s' hd
    induction hd with
    | refl => exact .of_traced (.refl _ _)
    | tail hds hd ih =>
      obtain ⟨spans, hin, htr⟩ := hd.confined
      have hpile := (HeldEffects.frame (HeldDeeds.effects hds)).1
      exact ih.trans ⟨spans, hin, htr.mono fun a ha => ⟨hpile ▸ ha.1, ha.2.1, fun h => ha.2.2
        (HeldDeeds.invariant hds (fun _ _ hd h => hd.slotted h) h)⟩⟩
  exact hheld _ _ hd

/-! ### The ends of a system call -/

lemma traced_dispatch {next : ℕ} (hr : k.isReady next) : Traced P k [] (dispatch k next) := by
  obtain ⟨t, ht, -⟩ := exists_of_isReady hr
  have hd := dispatch_dispatched ht
  refine .of_mem (switchFrame_dispatch k next).touched hd.length.ge fun i _ t' ht' => ?_
  rw [hd.task] at ht'
  split_ifs at ht' with hi
  · obtain rfl := Option.some.inj ht'
    exact ⟨t, hi ▸ ht, rfl⟩
  · exact ⟨t', ht', rfl⟩

lemma traced_park (k : Kernel) (reason : WaitReason) : Traced P k [] (park k reason) := by
  have hblock : Traced P k [] (k.modifyCurrent fun t =>
      { t with state := .blocked, waitReason := reason }) := traced_modifyTask fun _ => rfl
  exact hblock.after (.of_tasks rfl rfl)

lemma traced_interrupt (k : Kernel) : Traced P k [] (interrupt k) := by
  have hnote : Traced P k [] (k.note (.interrupted k.current k.pile.issued)) := .of_tasks rfl rfl
  exact hnote.after (traced_modifyTask fun _ => rfl)

lemma traced_closeFd (k : Kernel) (fd : ℕ) : Traced P k [] (closeFd k fd) := by
  rw [closeFd]
  cases k.currentFile fd with
  | none => exact .refl P k
  | some f =>
    have hset : Traced P k [] (k.setFd fd none) := traced_modifyTask fun _ => rfl
    exact hset.after ((calm_fileClose _ f).traced (quietFrame_fileClose _ f).touched)

lemma traced_bury (k : Kernel) (status : ℕ) : Traced P k [] (bury k status) := by
  have hdie : Traced P k [] (k.modifyCurrent fun t =>
      { t with exitStatus := status % 256, state := .zombie, waitReason := .none }) :=
    traced_modifyTask fun _ => rfl
  exact hdie.after (.of_tasks rfl rfl)

lemma traced_wakeParent (k : Kernel) (p : Option ℕ) : Traced P k [] (wakeParent k p) := by
  cases p with
  | none => exact .refl P k
  | some p =>
    rw [wakeParent]
    refine iteInduction (fun _ => traced_modifyTask fun t => ?_) fun _ => .refl P k
    split_ifs <;> rfl

/-- `signal_sigreturn` reads the saved registers. -/
lemma traced_goBack (k : Kernel) (t : Task) :
    Traced P k [⟨false, t.sigCtx.toNat, sizeofRegs⟩] (goBack k t) := by
  have htouch : Traced P k _ (k.touch false t.sigCtx.toNat sizeofRegs) := traced_touch ..
  obtain ⟨r, -, hr⟩ := goBack_eq k t
  rw [hr]
  have hback : Traced P (k.touch false t.sigCtx.toNat sizeofRegs) []
      (((k.touch false t.sigCtx.toNat sizeofRegs).note (.returned k.current r.cpu)).setPile r) :=
    .of_tasks rfl rfl
  exact (htouch.before hback).before (traced_modifyTask fun _ => rfl)

/-- The pieces touch nothing outside. -/
lemma exits_confined : Exits (Confined P) (Confined P) where
  refl k := .of_traced (.refl P k)
  trans := .trans
  last := .trans
  weaken := id
  sweep hs := .of_traced (hs.calm.traced hs.spared.touched)
  save k := .of_traced (traced_modifyTask fun _ => rfl)
  dispatch hr := .of_traced (traced_dispatch hr)
  idle _ _ := .of_traced (.of_tasks rfl rfl)
  close k fd := .of_traced (traced_closeFd k fd)
  bury k status := .of_traced (traced_bury k status)
  rouse k p := .of_traced (traced_wakeParent k p)
  condemn _ _ := .of_traced (.of_tasks rfl rfl)
  reply _ _ := .of_traced (.of_tasks rfl rfl)
  cut k := .of_traced (traced_interrupt k)

/-- However a system call ends, it has touched user memory inside its region only. -/
lemma Ends.confined {w : Bool} (he : Ends k w k') : Confined (Mapping k) k k' := by
  refine exits_confined.ends he Deeds.confined (fun hr hb => ?_) fun _ _ hok _ => ?_
  · exact (Deeds.confined (hr.deeds.trans hb.deeds)).trans (.of_traced (traced_park _ _))
  · exact .of_span (Span.inside_of_ok hok (by decide) false) (traced_goBack k _)

end Kernel

/-! ### The file system -/

section

variable (fs : Fs)

/-- The loop of `fat32_read_file`, with the size of the buffer checked before each `memcpy`:
`none` if it would be overrun. -/
def readFileLoopWithin (bufsize : ℕ) : ℕ → ℕ → ℕ → List UInt8 → Act Vol (Option (List UInt8))
  | 0, _, remaining, out => if 0 < remaining then .fail else pure (some out)
  | n + 1, cluster, remaining, out =>
    if remaining = 0 then pure (some out)
    else do
      let clusterBuf ← readCluster fs cluster
      let chunk := if remaining < fs.bytesPerCluster then remaining else fs.bytesPerCluster
      if bufsize < out.length + chunk then pure none
      else
        let out := out ++ takeBytes clusterBuf chunk
        if remaining - chunk = 0 then pure (some out)
        else
          match ← fat32NextCluster fs cluster with
          | none => .fail
          | some next => readFileLoopWithin bufsize n next (remaining - chunk) out

/-- `fat32_read_file`, with the size of the buffer checked before each `memcpy`. -/
def fat32ReadFileWithin (name : List UInt8) (bufsize : ℕ) : Act Vol (Option (List UInt8)) := do
  let entry ← lookupRootFile fs name
  if bufsize < entry.size then .fail
  else if entry.size = 0 then pure (some [])
  else if !clusterInRange fs (direntFirstCluster entry) then .fail
  else do
    kmalloc
    readFileLoopWithin fs bufsize (fs.totalClusters + 1) (direntFirstCluster entry) entry.size []

/-- The text of a sink and its terminator fit the buffer. -/
def NameSink.Fits (sink : NameSink) : Prop := sink.text.length < sink.size

instance (sink : NameSink) : Decidable sink.Fits := inferInstanceAs (Decidable (_ < _))

/-- The cluster loop of `walk_directory`, with the sink checked after each cluster: `none` if
its buffer has been overrun. What is written to it is never taken back. -/
def walkLoopWithin (wanted : Option Name83) :
    ℕ → ℕ → NameSink → Act Vol (Option (Option Dirent × NameSink))
  | 0, _, _ => .fail
  | n + 1, cluster, sink => do
      let clusterBuf ← readCluster fs cluster
      match walkEntries clusterBuf wanted (entriesPerCluster fs) 0 sink with
      | (done, found, sink) =>
        if ¬sink.Fits then pure none
        else if done then pure (some (found, sink))
        else
          match ← fat32NextCluster fs cluster with
          | none => pure (some (none, sink))
          | some next => walkLoopWithin wanted n next sink

/-- `fat32_list_names`, with the sink checked after each cluster. -/
def fat32ListNamesWithin (bufsize : ℕ) : Act Vol (Option (List UInt8 × ℕ)) :=
  if bufsize = 0 then .fail
  else do
    kmalloc
    let sink? ← walkLoopWithin fs none (fs.totalClusters + 1) fs.rootCluster ⟨[], bufsize, 0⟩
    pure (sink?.map fun (_, sink) => (sink.text, sink.count))

variable {fs}

lemma readFileLoopWithin_eq {bufsize remaining : ℕ} {out : List UInt8} (n cluster : ℕ)
    (h : out.length + remaining ≤ bufsize) :
    readFileLoopWithin fs bufsize n cluster remaining out =
      some <$> readFileLoop fs n cluster remaining out := by
  induction n generalizing cluster remaining out with
  | zero =>
    rw [readFileLoopWithin, readFileLoop]
    split_ifs <;> rfl
  | succ n ih =>
    rw [readFileLoopWithin, readFileLoop]
    by_cases hzero : remaining = 0
    · rw [if_pos hzero, if_pos hzero]
      rfl
    rw [if_neg hzero, if_neg hzero]
    simp only [map_bind]
    refine congrArg _ (funext fun clusterBuf => ?_)
    generalize hchunk : (if remaining < fs.bytesPerCluster then remaining
      else fs.bytesPerCluster) = chunk
    have hle : chunk ≤ remaining := by
      rw [← hchunk]
      split_ifs <;> omega
    rw [if_neg (by omega)]
    split_ifs with hdone
    · rfl
    simp only [map_bind]
    refine congrArg _ (funext fun next => ?_)
    cases next with
    | none => rfl
    | some next =>
      refine ih next ?_
      rw [List.length_append, takeBytes_length]
      omega

/-- `fat32_read_file` never writes beyond the buffer. -/
lemma fat32ReadFileWithin_eq (name : List UInt8) (bufsize : ℕ) :
    fat32ReadFileWithin fs name bufsize = some <$> fat32ReadFile fs name bufsize := by
  rw [fat32ReadFileWithin, fat32ReadFile, map_bind]
  refine congrArg _ (funext fun entry => ?_)
  split_ifs with hsize hzero hrange
  · rfl
  · rfl
  · rfl
  · rw [map_bind]
    refine congrArg _ (funext fun _ => readFileLoopWithin_eq _ _ ?_)
    rw [List.length_nil]
    omega

/-- Eight characters, a dot and three. -/
lemma length_nameFrom83_le (raw : Name83) : (nameFrom83 raw).length ≤ 12 := by
  have hbase := (List.takeWhile_sublist (p := (· ≠ 0x20)) (l := (List.ofFn raw).take 8)).length_le
  have hext := (List.takeWhile_sublist (p := (· ≠ 0x20)) (l := (List.ofFn raw).drop 8)).length_le
  rw [List.length_take, List.length_ofFn] at hbase
  rw [List.length_drop, List.length_ofFn] at hext
  rw [nameFrom83]
  split_ifs
  · rw [List.length_append, List.length_cons]
    omega
  · omega

/-- A name is put into a sink only if there is room for it, unless the size is close to the
limit of a `uint32_t`. -/
lemma NameSink.Fits.add {sink : NameSink} (h : sink.Fits) (hsize : sink.size < 2 ^ 31)
    (raw : Name83) :
    (fat32NameSinkAdd sink (nameFrom83 raw)).Fits ∧
      (fat32NameSinkAdd sink (nameFrom83 raw)).size = sink.size := by
  have hname := (List.takeWhile_sublist (p := (· ≠ 0)) (l := nameFrom83 raw)).length_le.trans
    (length_nameFrom83_le raw)
  rw [Fits] at *
  rw [fat32NameSinkAdd]
  split_ifs with hfull
  · exact ⟨h, rfl⟩
  · rw [Bytes.u32, Nat.mod_eq_of_lt (by omega)] at hfull
    refine ⟨?_, rfl⟩
    simp only [List.length_append, List.length_singleton]
    omega

lemma NameSink.Fits.walkEntries {sink : NameSink} (h : sink.Fits) (hsize : sink.size < 2 ^ 31)
    (clusterBuf : Buf) (wanted : Option Name83) (n i : ℕ) :
    (TownOS.walkEntries clusterBuf wanted n i sink).2.2.Fits ∧
      (TownOS.walkEntries clusterBuf wanted n i sink).2.2.size = sink.size := by
  induction n generalizing i sink with
  | zero => exact ⟨h, rfl⟩
  | succ n ih =>
    have hnext := ih h hsize (i + 1)
    cases wanted with
    | some w =>
      rw [TownOS.walkEntries]
      split_ifs
      · exact ⟨h, rfl⟩
      · exact hnext
      · exact hnext
      · exact ⟨h, rfl⟩
      · exact hnext
    | none =>
      rw [TownOS.walkEntries]
      split_ifs
      · exact ⟨h, rfl⟩
      · exact hnext
      · exact hnext
      · obtain ⟨hfits, hsame⟩ := h.add hsize (direntAt clusterBuf i).name
        rw [← hsame] at hsize ⊢
        exact ih hfits hsize (i + 1)

lemma walkLoopWithin_eq {sink : NameSink} (h : sink.Fits) (hsize : sink.size < 2 ^ 31)
    (wanted : Option Name83) (n cluster : ℕ) :
    walkLoopWithin fs wanted n cluster sink = some <$> walkLoop fs wanted n cluster sink := by
  induction n generalizing cluster sink with
  | zero => rfl
  | succ n ih =>
    rw [walkLoopWithin, walkLoop, map_bind]
    refine congrArg _ (funext fun clusterBuf => ?_)
    obtain ⟨hfits, hsame⟩ := h.walkEntries hsize clusterBuf wanted (entriesPerCluster fs) 0
    generalize walkEntries clusterBuf wanted (entriesPerCluster fs) 0 sink = r at hfits hsame ⊢
    obtain ⟨done, found, sink'⟩ := r
    dsimp only at hfits hsame ⊢
    rw [if_neg (not_not.mpr hfits)]
    cases done with
    | true => rfl
    | false =>
      simp only [Bool.false_eq_true, if_false, map_bind]
      refine congrArg _ (funext fun next => ?_)
      cases next with
      | none => rfl
      | some next => exact ih hfits (hsame ▸ hsize) next

/-- `fat32_list_names` never writes beyond the buffer. -/
lemma fat32ListNamesWithin_eq {bufsize : ℕ} (hsize : bufsize < 2 ^ 31) :
    fat32ListNamesWithin fs bufsize = some <$> fat32ListNames fs bufsize := by
  rw [fat32ListNamesWithin, fat32ListNames]
  split_ifs with hzero
  · rfl
  · have hfits : NameSink.Fits ⟨[], bufsize, 0⟩ := Nat.pos_of_ne_zero hzero
    rw [walkDirectory, walkLoopWithin_eq hfits hsize]
    simp only [map_bind, bind_assoc, bind_map_left, map_pure]
    rfl

end

/-- Whatever buffer `user_range_ok` lets through, its size is the `uint32_t` the file system is
handed, and what that writes stays within it. -/
def FileSystemConfined : Prop :=
  ∀ buf size : Word, userRangeOk buf size = true → Bytes.u32 size.toNat = size.toNat ∧
    ∀ fs : Fs, (∀ name, fat32ReadFileWithin fs name size.toNat =
        some <$> fat32ReadFile fs name size.toNat) ∧
      fat32ListNamesWithin fs size.toNat = some <$> fat32ListNames fs size.toNat

lemma fileSystemConfined : FileSystemConfined := by
  intro buf size hok
  have hsize : size.toNat < 2 ^ 31 := by
    obtain ⟨-, hend, -⟩ := (userRangeOk_iff buf size).mp hok
    rw [userSpaceEnd] at hend
    omega
  refine ⟨Nat.mod_eq_of_lt (by omega), fun fs => ⟨fun name => ?_, ?_⟩⟩
  · exact fat32ReadFileWithin_eq name _
  · exact fat32ListNamesWithin_eq hsize

namespace Kernel

/-- **System calls stay in user memory.** Whatever the state, the number of the call and its
arguments, every span of user addresses a system call reads or writes is inside the region of
ring 3, a byte of memory changes only where one of these spans is written or where `SYS_MMAP`
maps fresh pages, and the buffers filled by the file system are not overrun. In every run the
fresh pages are below `USER_HEAP_LIMIT`. -/
theorem syscall_confined {k k' : Kernel} {a : Answers} (hk : k.handled (.syscall a) = some k') :
    (∃ spans, (∀ s ∈ spans, s.Inside) ∧ Traced (Mapping k) k spans k') ∧
      FileSystemConfined ∧
      ∀ image r es, Runs.exec step (boot image r) es = some k → Slotted k := by
  obtain ⟨-, rfl⟩ := Runs.guarded hk
  obtain ⟨spans, hin, htr⟩ :=
    (syscallBody_ends (k.enter 0x50 (k.pile.rip + intInstrLen)) a).confined
  have henter : Traced (Mapping k) k [] (k.enter 0x50 (k.pile.rip + intInstrLen)) :=
    .of_tasks rfl rfl
  exact ⟨⟨spans, hin, henter.after htr⟩, fileSystemConfined, fun _ _ _ => slotted_of_run⟩

end Kernel

/-- A program has `SYS_TASKS` report to it. -/
theorem syscall_confined_tasks :
    ∃ k k', Runs.exec Kernel.step (boot intImage {}) [loadCall 18 0x500000 20 0 0x800000 intMem] =
        some k ∧ k.handled (.syscall noAnswers) = some k' ∧
      k'.touched = k.touched ++ [⟨true, 0x500000, 20⟩] ∧
      ∃ spans, (∀ s ∈ spans, s.Inside) ∧ Kernel.Traced (Kernel.Mapping k) k spans k' := by
  have hrun : (Runs.exec Kernel.step (boot intImage {})
      [loadCall 18 0x500000 20 0 0x800000 intMem]).any (fun k =>
        (k.handled (.syscall noAnswers)).any fun k' =>
          k'.touched = k.touched ++ [⟨true, 0x500000, 20⟩]) = true := by
    decide +kernel
  obtain ⟨k, hk, h⟩ := Option.any_eq_true _ _ |>.mp hrun
  obtain ⟨k', hk', h⟩ := Option.any_eq_true _ _ |>.mp h
  exact ⟨k, k', hk, hk', of_decide_eq_true h, (Kernel.syscall_confined hk').1⟩

end TownOS
