import TownOS.Kernel.Rotation

/-!
Open files and the counts of pipes (`kernel/file.c`, `kernel/pipe.c`).

A `file_t` is in a descriptor table, or on its way into one or out of one. The counts of a
pipe are the numbers of its ends among all of these, in every mode of the kernel; a zombie
has no open files, so nothing is lost when its record is freed.

* `files`, `files_update`: the open files in all tables;
* `Counted.move`: the moves keep the counts.
-/

namespace TownOS

/-- The number of ends of a kind that a pipe counts. -/
def Pipe.ends (x : Pipe) (writable : Bool) : ℤ := if writable then x.writers else x.readers

namespace Kernel

open Relation Runs

variable {k k' : Kernel} {h h' : Multiset File}

/-! ### Tables -/

/-- The open files of a table. -/
def tableFiles (fds : ℕ → Option File) : Multiset File :=
  ∑ fd ∈ Finset.range maxFds, (↑(fds fd).toList : Multiset File)

/-- Two sums that differ in one summand. -/
lemma sum_range_exchange {M : Type*} [AddCommMonoid M] {f g : ℕ → M} {n i : ℕ} (hi : i < n)
    (hothers : ∀ j, j ≠ i → g j = f j) :
    ∑ j ∈ Finset.range n, g j + f i = ∑ j ∈ Finset.range n, f j + g i := by
  have hmem := Finset.mem_range.mpr hi
  rw [← Finset.sum_erase_add _ g hmem, ← Finset.sum_erase_add _ f hmem,
    Finset.sum_congr rfl fun j hj => hothers j (Finset.ne_of_mem_erase hj)]
  exact add_right_comm _ _ _

/-- A slot of a table is set. -/
lemma tableFiles_update (fds : ℕ → Option File) {fd : ℕ} (hfd : fd < maxFds) (o : Option File) :
    tableFiles (Function.update fds fd o) + ↑(fds fd).toList = tableFiles fds + ↑o.toList := by
  have h := sum_range_exchange (f := fun x => (↑(fds x).toList : Multiset File))
    (g := fun x => ↑(Function.update fds fd o x).toList) hfd fun x hx => by
      rw [Function.update_of_ne hx]
  rwa [Function.update_self] at h

lemma tableFiles_eq_zero {fds : ℕ → Option File} (hnone : ∀ fd, fd < maxFds → fds fd = none) :
    tableFiles fds = 0 :=
  Finset.sum_eq_zero fun fd hfd => by rw [hnone fd (Finset.mem_range.mp hfd)]; rfl

lemma mem_tableFiles {fds : ℕ → Option File} {fd : ℕ} {f : File} (hfd : fd < maxFds)
    (hf : fds fd = some f) : f ∈ tableFiles fds := by
  refine Multiset.mem_sum.mpr ⟨fd, Finset.mem_range.mpr hfd, ?_⟩
  rw [hf]
  exact Multiset.mem_singleton_self f

/-- The table of the task in a slot, if there is one. -/
def fdsAt (k : Kernel) (i : ℕ) : Option (ℕ → Option File) := (k.task i).map Task.fds

/-- The open files of the task in a slot. -/
def filesAt (k : Kernel) (i : ℕ) : Multiset File := (k.fdsAt i).elim 0 tableFiles

/-- The open files in all tables. -/
def files (k : Kernel) : Multiset File := ∑ i ∈ Finset.range k.tasks.length, k.filesAt i

lemma files_congr (hlen : k'.tasks.length = k.tasks.length) (hfds : ∀ i, k'.fdsAt i = k.fdsAt i) :
    k'.files = k.files := by
  rw [files, files, hlen]
  exact Finset.sum_congr rfl fun i _ => by rw [filesAt, hfds, filesAt]

/-- One table changes. -/
lemma files_update {i : ℕ} (hi : i < k.tasks.length) (hlen : k'.tasks.length = k.tasks.length)
    (hothers : ∀ j, j ≠ i → k'.filesAt j = k.filesAt j) :
    k'.files + k.filesAt i = k.files + k'.filesAt i := by
  rw [files, files, hlen]
  exact sum_range_exchange hi hothers

/-- The files of one task are among all files. -/
lemma filesAt_le_files {i : ℕ} (hi : i < k.tasks.length) : k.filesAt i ≤ k.files := by
  rw [files, ← Finset.add_sum_erase _ _ (Finset.mem_range.mpr hi)]
  exact Multiset.le_add_right _ _

lemma mem_files {i fd : ℕ} {t : Task} {f : File} (ht : k.task i = some t) (hfd : fd < maxFds)
    (hf : t.fds fd = some f) : f ∈ k.files := by
  refine Multiset.mem_of_le (filesAt_le_files (lt_length_of_task ht)) ?_
  rw [filesAt, fdsAt, ht]
  exact mem_tableFiles hfd hf

lemma exists_of_currentFile {fd : ℕ} {f : File} (hf : k.currentFile fd = some f) :
    ∃ t, k.currentTask = some t ∧ fd < maxFds ∧ t.fds fd = some f := by
  rw [currentFile] at hf
  split_ifs at hf with hfd
  obtain ⟨t, ht, hf⟩ := Option.bind_eq_some_iff.mp hf
  exact ⟨t, ht, hfd, hf⟩

lemma mem_files_of_currentFile {fd : ℕ} {f : File} (hf : k.currentFile fd = some f) :
    f ∈ k.files := by
  obtain ⟨t, ht, hfd, hf⟩ := exists_of_currentFile hf
  exact mem_files ht hfd hf

lemma fdsAt_modifyTask {i j : ℕ} {f : Task → Task} (hf : ∀ t, (f t).fds = t.fds) :
    (k.modifyTask i f).fdsAt j = k.fdsAt j := by
  rw [fdsAt, task_modifyTask, fdsAt]
  split_ifs
  · rw [Option.map_map]
    exact congrArg (Option.map · _) (funext hf)
  · rfl

lemma Mild.fdsAt (hk : Mild k k') (i : ℕ) : k'.fdsAt i = k.fdsAt i := by
  have hi := hk.tasks i
  rw [Kernel.fdsAt, Kernel.fdsAt]
  generalize k.task i = o, k'.task i = o' at hi
  cases hi with
  | none => rfl
  | some hkin => exact congrArg some hkin.fds

/-! ### Counts -/

lemma pipe_setPipe {p q : ℕ} {o : Option Pipe} : (k.setPipe q o).pipe p =
    if q = p ∧ q < k.pipes.length then o.getD Pipe.create else k.pipe p := by
  rw [pipe, setPipe, List.getElem?_set, pipe]
  by_cases hq : q = p
  · by_cases hlt : q < k.pipes.length
    · simp [hq, hq ▸ hlt]
    · simp [hq, hq ▸ hlt]
  · simp [hq]

/-- Ends that are counted belong to a pipe that is there. -/
lemma lt_length_of_ends {p : ℕ} {w : Bool} (he : (k.pipe p).ends w ≠ 0) : p < k.pipes.length := by
  by_contra hp
  rw [pipe, List.getElem?_eq_none (Nat.not_lt.mp hp)] at he
  cases w <;> exact he rfl

/-- The contribution of a file to the count of an end. -/
def endOf (f : File) (p : ℕ) (w : Bool) : ℤ := if f = ⟨.pipe p, w⟩ then 1 else 0

lemma endOf_pipe {q p : ℕ} {v w : Bool} :
    endOf ⟨.pipe q, v⟩ p w = if q = p ∧ v = w then 1 else 0 := by
  simp [endOf]

lemma endOf_console {p : ℕ} {v w : Bool} : endOf ⟨.console, v⟩ p w = 0 := by
  simp [endOf]

lemma count_endOf (f : File) (l : Multiset File) (p : ℕ) (w : Bool) :
    ((f ::ₘ l).count ⟨.pipe p, w⟩ : ℤ) = l.count ⟨.pipe p, w⟩ + endOf f p w := by
  rw [Multiset.count_cons, endOf]
  split_ifs <;> simp_all

/-- The count of the end goes up by one. -/
lemma ends_countEnd {f : File} (hf : ∀ q, f.kind = .pipe q → q < k.pipes.length) (p : ℕ)
    (w : Bool) :
    ((countEnd k f).pipe p).ends w = (k.pipe p).ends w + endOf f p w := by
  obtain ⟨kind, v⟩ := f
  cases kind with
  | console => rw [endOf_console, add_zero, countEnd]
  | pipe q =>
    rw [endOf_pipe, countEnd]
    dsimp only
    rw [pipe_setPipe]
    by_cases hq : q = p
    · subst hq
      rw [if_pos ⟨rfl, hf q rfl⟩]
      cases v <;> cases w <;> simp [Pipe.ends]
    · rw [if_neg fun h => hq h.1, if_neg fun h => hq h.1, add_zero]

/-- What `file_close` leaves of a pipe: the same as if it was not freed, as far as ends go. -/
lemma ends_fileClose {f : File} (hf : ∀ q, f.kind = .pipe q → q < k.pipes.length) (p : ℕ)
    (w : Bool) :
    ((fileClose k f).pipe p).ends w = (k.pipe p).ends w - endOf f p w := by
  obtain ⟨kind, v⟩ := f
  cases kind with
  | console => rw [endOf_console, sub_zero, fileClose]
  | pipe q =>
    rw [endOf_pipe, fileClose]
    dsimp only
    generalize hx : (if v = true then _ else _ : Pipe) = x
    generalize hk₁ : (if v = true then _ else _ : Kernel) = k₁
    have hlen : k₁.pipes = k.pipes.set q (some x) := by
      rw [← hk₁]
      split_ifs <;> rfl
    have hpipe : ∀ p, k₁.pipe p = (k.setPipe q (some x)).pipe p := fun p => by
      rw [pipe, hlen]
      rfl
    have hends : (k₁.pipe p).ends w = (k.pipe p).ends w - if q = p ∧ v = w then 1 else 0 := by
      rw [hpipe, pipe_setPipe]
      by_cases hq : q = p
      · subst hq
        rw [if_pos ⟨rfl, hf q rfl⟩, ← hx]
        cases v <;> cases w <;> simp [Pipe.ends]
      · rw [if_neg fun h => hq h.1, if_neg fun h => hq h.1, sub_zero]
    rw [← hends]
    refine iteInduction (motive := fun k₂ : Kernel => (k₂.pipe p).ends w = _) (fun hzero => ?_)
      fun _ => rfl
    -- a pipe that is freed has no ends
    rw [pipe_setPipe, hlen, List.length_set]
    by_cases hq : q = p
    · subst hq
      rw [if_pos ⟨rfl, hf q rfl⟩, hpipe, pipe_setPipe, if_pos ⟨rfl, hf q rfl⟩]
      cases w
      · exact hzero.1.symm
      · exact hzero.2.symm
    · rw [if_neg fun h => hq h.1]

/-- The files that are in no table. -/
def Mode.held : Mode → Multiset File
  | .busy h => h
  | _ => 0

/-- Every pipe counts its ends, and zombies have no open files. -/
structure Counted (m : Mode) (k : Kernel) : Prop where
  ends : ∀ p w, (k.pipe p).ends w = ((m.held + k.files).count ⟨.pipe p, w⟩ : ℤ)
  zombies : ∀ i t, k.task i = some t → t.state = .zombie → tableFiles t.fds = 0

/-- A file that is open somewhere is an end of a pipe that is there. -/
lemma Counted.lt_length {m : Mode} (hc : Counted m k) {f : File} (hf : f ∈ m.held + k.files)
    {q : ℕ} (hq : f.kind = .pipe q) : q < k.pipes.length := by
  obtain ⟨kind, w⟩ := f
  obtain rfl : kind = .pipe q := hq
  refine lt_length_of_ends (w := w) ?_
  rw [hc.ends]
  exact_mod_cast (Multiset.count_pos.mpr hf).ne'

/-- Nothing happens to the tables or the pipes. -/
lemma Counted.kept {m m' : Mode} (hc : Counted m k) (hm : m'.held = m.held)
    (hends : ∀ p w, (k'.pipe p).ends w = (k.pipe p).ends w)
    (hlen : k'.tasks.length = k.tasks.length) (hfds : ∀ i, k'.fdsAt i = k.fdsAt i)
    (hz : ∀ i t t', k.task i = some t → k'.task i = some t' → t'.state = .zombie →
      t.state ≠ .zombie → tableFiles t.fds = 0) : Counted m' k' := by
  refine ⟨fun p w => ?_, fun i t' ht' hz' => ?_⟩
  · rw [hends, hc.ends, hm, files_congr hlen hfds]
  · have hi := hfds i
    rw [fdsAt, ht', fdsAt] at hi
    obtain ⟨t, ht, hfds⟩ := Option.map_eq_some_iff.mp hi.symm
    rw [← hfds]
    by_cases hzt : t.state = .zombie
    · exact hc.zombies i t ht hzt
    · exact hz i t t' ht ht' hz' hzt

lemma Counted.mild {m m' : Mode} (hc : Counted m k) (hm : m'.held = m.held)
    (hends : ∀ p w, (k'.pipe p).ends w = (k.pipe p).ends w) (hk : Mild k k') : Counted m' k' := by
  refine hc.kept hm hends hk.length hk.fdsAt fun i t t' ht ht' hz' hz => ?_
  obtain ⟨t₁, ht₁, hkin⟩ := hk.kin ht'
  obtain rfl := Option.some.inj (ht.symm.trans ht₁)
  exact absurd (hkin.zombie_iff.mp hz') hz

/-- The running task changes, but not its table. -/
lemma Counted.own (hc : Counted (.busy h) k) (hends : ∀ p w, (k'.pipe p).ends w = (k.pipe p).ends w)
    (hk : Aimed k k') (hfds : ∀ i, k'.fdsAt i = k.fdsAt i) : Counted (.busy h) k' := by
  refine hc.kept rfl hends hk.length hfds fun i t t' ht ht' hz' hz => ?_
  rcases eq_or_ne i k.current with rfl | hi
  · have hself := hk.self
    rw [currentTask, currentTask, hk.current, ht, ht'] at hself
    cases hself with
    | some hs => exact absurd (hs.state ▸ hz') hz
  · rw [hk.others i hi] at ht'
    obtain rfl := Option.some.inj (ht.symm.trans ht')
    exact absurd hz' hz

/-! ### Effects -/

/-- A slot of the running task is set; the files on their way change with it. -/
lemma Counted.setFd (hc : Counted (.busy h) k) (hr : Rotation (.busy h) k) {fd : ℕ}
    (hfd : fd < maxFds) {o : Option File}
    (hh : h' + ↑o.toList = h + ↑(k.currentFile fd).toList) : Counted (.busy h') (k.setFd fd o) := by
  obtain ⟨t, ht, hs, -⟩ := hr.current
  have htask : ∀ i, (k.setFd fd o).task i = if i = k.current then
      some { t with fds := Function.update t.fds fd o } else k.task i := by
    intro i
    rw [Kernel.setFd, modifyCurrent, task_modifyTask]
    split_ifs with hi
    · rw [hi, show k.task k.current = some t from ht]
      rfl
    · rfl
  have hfile : k.currentFile fd = t.fds fd := by
    rw [currentFile, if_pos hfd, ht]
    rfl
  have hupdate : (k.setFd fd o).files + k.filesAt k.current =
      k.files + (k.setFd fd o).filesAt k.current := by
    refine files_update (lt_length_of_task (i := k.current) ht) (List.length_modify ..)
      fun j hj => ?_
    rw [filesAt, fdsAt, htask, if_neg hj]
    rfl
  have hself : k.filesAt k.current = tableFiles t.fds := by
    rw [filesAt, fdsAt, show k.task k.current = some t from ht]
    rfl
  have hself' : (k.setFd fd o).filesAt k.current = tableFiles (Function.update t.fds fd o) := by
    rw [filesAt, fdsAt, htask, if_pos rfl]
    rfl
  have htotal : h' + (k.setFd fd o).files = h + k.files := by
    have htable := tableFiles_update t.fds hfd o
    rw [hfile] at hh
    rw [hself, hself'] at hupdate
    -- both sides after adding what the slot held and what it holds now
    refine add_right_cancel (b := ↑o.toList + tableFiles t.fds) ?_
    calc h' + (k.setFd fd o).files + (↑o.toList + tableFiles t.fds)
        = (h' + ↑o.toList) + ((k.setFd fd o).files + tableFiles t.fds) := by abel
      _ = h + ↑(t.fds fd).toList + (k.files + tableFiles (Function.update t.fds fd o)) := by
          rw [hh, hupdate]
      _ = h + k.files + (tableFiles (Function.update t.fds fd o) + ↑(t.fds fd).toList) := by abel
      _ = h + k.files + (↑o.toList + tableFiles t.fds) := by
        rw [htable, add_comm (tableFiles t.fds)]
  refine ⟨fun p w => (hc.ends p w).trans ?_, fun i t' ht' hz => ?_⟩
  · exact congrArg (fun l : Multiset File => (l.count ⟨.pipe p, w⟩ : ℤ)) htotal.symm
  · rw [htask] at ht'
    split_ifs at ht'
    · obtain rfl := Option.some.inj ht'
      rw [show t.state = .running from hs] at hz
      cases hz
    · exact hc.zombies i t' ht' hz

lemma ends_ring {p : ℕ} (ring : RingBuffer UInt8) (q : ℕ) (w : Bool) :
    ((k.setPipe p (some { k.pipe p with ring := ring })).pipe q).ends w = (k.pipe q).ends w := by
  rw [pipe_setPipe]
  split_ifs with hp
  · rw [← hp.1]
    rfl
  · rfl

lemma Counted.collect (hc : Counted (.busy h) k) {i : ℕ} {t : Task} (ht : k.task i = some t)
    (hz : t.state = .zombie) : Counted (.busy h) (collect k i t) := by
  have hpipes : (Kernel.collect k i t).pipes = k.pipes := by
    rw [Kernel.collect]
    split_ifs <;> rfl
  have hlen : (Kernel.collect k i t).tasks.length = k.tasks.length := by
    rw [Kernel.collect]
    split_ifs <;> exact List.length_set ..
  have hfiles : (Kernel.collect k i t).files = k.files := by
    have hupdate : (Kernel.collect k i t).files + k.filesAt i =
        k.files + (Kernel.collect k i t).filesAt i :=
      files_update (lt_length_of_task ht) hlen fun j hj => by
        rw [filesAt, fdsAt, task_collect, if_neg hj, filesAt, fdsAt]
    have hold : k.filesAt i = 0 := by
      rw [filesAt, fdsAt, ht]
      exact hc.zombies i t ht hz
    have hnew : (Kernel.collect k i t).filesAt i = 0 := by
      rw [filesAt, fdsAt, task_collect, if_pos rfl]
      rfl
    rwa [hold, hnew, add_zero, add_zero] at hupdate
  refine ⟨fun p w => ?_, fun j t' ht' hz' => ?_⟩
  · rw [pipe, hpipes, hfiles]
    exact hc.ends p w
  · rw [task_collect] at ht'
    split_ifs at ht'
    exact hc.zombies j t' ht' hz'

lemma Press.pipes (hp : Press k k') : k'.pipes = k.pipes := by
  cases hp with
  | typed | ended | modifiers => rfl
  | raise id sig =>
    rw [signalRaise]
    refine iteInduction (motive := fun x : Kernel => x.pipes = _) (fun _ => rfl) fun _ => ?_
    split
    · rfl
    · split_ifs <;> rfl

lemma Counted.aside (hc : Counted (.busy h) k) (ha : Aside k k') : Counted (.busy h) k' := by
  have hsame : ∀ {k₁ : Kernel}, k₁.pipes = k.pipes → ∀ p w,
      (k₁.pipe p).ends w = (k.pipe p).ends w := fun hp p w => by rw [pipe, hp, pipe]
  cases ha with
  | press hp => exact hc.mild rfl (hsame hp.pipes) hp.mild
  | getKey | eofTaken | foreground | touch =>
    exact hc.mild rfl (hsame rfl) ((Mild.refl _).of_tasks rfl rfl rfl rfl rfl)
  | took p n hpos hn =>
    exact hc.mild rfl (ends_ring _) ((mild_schedulerWake _ _).of_tasks rfl rfl rfl rfl rfl)
  | gave p l hr hl =>
    exact hc.mild rfl (ends_ring _) ((mild_schedulerWake _ _).of_tasks rfl rfl rfl rfl rfl)
  | newPipe =>
    refine hc.mild rfl (fun p w => ?_) ((Mild.refl _).of_tasks rfl rfl rfl rfl rfl)
    -- a new pipe counts as one that is not there
    rw [pipe, pipe, List.getElem?_append]
    split_ifs with hp
    · rfl
    · rw [List.getElem?_eq_none (Nat.not_lt.mp hp)]
      cases p - k.pipes.length <;> rfl
  | dropPipe p hr hw =>
    refine hc.mild rfl (fun q w => ?_) ((Mild.refl _).of_tasks rfl rfl rfl rfl rfl)
    rw [pipe_setPipe]
    split_ifs with hp
    · rw [← hp.1]
      cases w
      · exact hr.symm
      · exact hw.symm
    · rfl
  | collect i ht hz hp => exact hc.collect ht hz

lemma files_mild (hk : Mild k k') : k'.files = k.files := files_congr hk.length hk.fdsAt

/-- One more end. -/
lemma Counted.countEnd (hc : Counted (.busy h) k) {f : File}
    (hf : ∀ q, f.kind = .pipe q → q < k.pipes.length) :
    Counted (.busy (f ::ₘ h)) (countEnd k f) := by
  have hk := mild_countEnd k f
  refine ⟨fun p w => ?_, ?_⟩
  · rw [ends_countEnd hf, hc.ends, files_mild hk, Mode.held, Mode.held, Multiset.cons_add,
      count_endOf]
  · have hold : Counted (.busy h) { Kernel.countEnd k f with pipes := k.pipes } :=
      hc.mild rfl (fun _ _ => rfl)
        ⟨hk.current, hk.cr3, hk.loaded, hk.lives, hk.length, hk.tasks⟩
    exact hold.zombies

/-- One end less. -/
lemma Counted.fileClose {f : File} (hc : Counted (.busy (f ::ₘ h)) k) :
    Counted (.busy h) (fileClose k f) := by
  have hk := mild_fileClose k f
  have hf : ∀ q, f.kind = .pipe q → q < k.pipes.length := fun q hq =>
    hc.lt_length (Multiset.mem_add.mpr (.inl (Multiset.mem_cons_self f h))) hq
  refine ⟨fun p w => ?_, ?_⟩
  · rw [ends_fileClose hf, hc.ends, files_mild hk, Mode.held, Mode.held, Multiset.cons_add,
      count_endOf,
      add_sub_cancel_right]
  · have hold : Counted (.busy (f ::ₘ h)) { Kernel.fileClose k f with pipes := k.pipes } :=
      hc.mild rfl (fun _ _ => rfl)
        ⟨hk.current, hk.cr3, hk.loaded, hk.lives, hk.length, hk.tasks⟩
    exact hold.zombies

/-- The files a new task starts with are those it inherits, as far as pipes go. -/
lemma count_childFds (inSrc outSrc : Option File) (p : ℕ) (w : Bool) :
    (tableFiles (childFds inSrc outSrc)).count ⟨.pipe p, w⟩ =
      (inherited inSrc outSrc).count ⟨.pipe p, w⟩ := by
  have hconsole : ∀ fd, (↑(consoleFds fd).toList : Multiset File).count ⟨.pipe p, w⟩ = 0 := by
    intro fd
    rw [consoleFds]
    split_ifs <;> simp
  have htable : tableFiles (childFds inSrc outSrc) =
      ↑(inSrc.or (consoleFds 0)).toList + ↑(outSrc.or (consoleFds 1)).toList := by
    simp [tableFiles, maxFds, Finset.sum_range_succ, childFds]
  rw [htable, inherited, Multiset.count_add, Multiset.count_add]
  have hor : ∀ (o : Option File) fd, (↑(o.or (consoleFds fd)).toList : Multiset File).count
      ⟨.pipe p, w⟩ = (↑o.toList : Multiset File).count ⟨.pipe p, w⟩ := by
    intro o fd
    cases o with
    | none => simpa using hconsole fd
    | some f => rfl
  rw [hor, hor]

lemma Counted.spawn {inSrc outSrc : Option File}
    (hc : Counted (.busy (inherited inSrc outSrc + h)) k)
    {t : Task} (hready : t.state = .ready) (hfds : t.fds = childFds inSrc outSrc) (x : Life) :
    Counted (.busy h) ((k.addTask t).live x) := by
  have hfiles : ((k.addTask t).live x).files = k.files + tableFiles (childFds inSrc outSrc) := by
    have hlen : ((k.addTask t).live x).tasks.length = k.tasks.length + 1 := List.length_append ..
    rw [files, hlen, Finset.sum_range_succ]
    congr 1
    · refine Finset.sum_congr rfl fun i hi => ?_
      rw [filesAt, fdsAt, task_live, task_addTask, if_neg (Finset.mem_range.mp hi).ne]
      rfl
    · rw [filesAt, fdsAt, task_live, task_addTask, if_pos rfl, ← hfds]
      rfl
  refine ⟨fun p w => ?_, fun i t' ht' hz => ?_⟩
  · have hends := hc.ends p w
    rw [Mode.held] at hends ⊢
    rw [hfiles, show ((k.addTask t).live x).pipe p = k.pipe p from rfl, hends]
    push_cast [Multiset.count_add, count_childFds]
    ring
  · rw [task_live, task_addTask] at ht'
    split_ifs at ht'
    · obtain rfl := Option.some.inj ht'
      rw [hready] at hz
      cases hz
    · exact hc.zombies i t' ht' hz

lemma Counted.effect (hc : Counted (.busy h) k) (hr : Rotation (.busy h) k)
    (he : Effect (h, k) (h', k')) : Counted (.busy h') k' := by
  cases he with
  | aside h ha => exact hc.aside ha
  | own h k f hf hfds =>
    exact hc.own (fun _ _ => rfl) (aimed_modifyCurrent fun t => (hf t).same)
      fun i => fdsAt_modifyTask hfds
  | dup h k fd f hf =>
    have hmem : f ∈ h + k.files := Multiset.mem_add.mpr (.inr (mem_files_of_currentFile hf))
    exact hc.countEnd fun q hq => hc.lt_length hmem hq
  | openEnd h k p writable hp =>
    obtain ⟨x, hx⟩ := hp
    refine hc.countEnd fun q hq => ?_
    obtain rfl := FdKind.pipe.inj hq
    exact (List.getElem?_eq_some_iff.mp hx).1
  | put h k fd f hfd hfree =>
    refine hc.setFd hr hfd ?_
    rw [hfree, Option.toList_none, Multiset.coe_nil, add_zero]
    exact (add_comm _ _).trans (Multiset.singleton_add f h')
  | take h k fd f hf =>
    have hfd : fd < maxFds := by
      by_contra hlt
      rw [currentFile, if_neg hlt] at hf
      cases hf
    refine hc.setFd hr hfd ?_
    rw [hf, Option.toList_none, Multiset.coe_nil, add_zero]
    exact (Multiset.singleton_add f h).symm.trans (add_comm _ _)
  | close h k f => exact hc.fileClose
  | spawn h k image pgid inSrc outSrc => exact hc.spawn rfl rfl _

/-! ### Moves -/

lemma fdsAt_store (k : Kernel) (addr : ℕ) (bytes : List UInt8) (i : ℕ) :
    (k.store addr bytes).fdsAt i = k.fdsAt i := by
  refine (fdsAt_modifyTask (k := k.touch true addr bytes.length) ?_).trans rfl
  exact fun _ => rfl

lemma fdsAt_enterHandler (k : Kernel) (t : Task) (sig i : ℕ) :
    (enterHandler k t sig).fdsAt i = k.fdsAt i := by
  rw [enterHandler]
  refine (fdsAt_modifyTask ?_).trans ((fdsAt_store _ _ _ i).trans (fdsAt_store _ _ _ i))
  exact fun _ => rfl

lemma fdsAt_goBack (k : Kernel) (t : Task) (i : ℕ) : (goBack k t).fdsAt i = k.fdsAt i := by
  obtain ⟨r, -, hr⟩ := goBack_eq k t
  rw [hr]
  exact fdsAt_modifyTask fun _ => rfl

/-- Zombies have no open files. -/
lemma Counted.sweep {m : Mode} (hc : Counted m k) (hs : Sweep k k') : Counted m k' := by
  cases hs with
  | strip i ht hz hi has =>
    refine hc.kept rfl (fun _ _ => rfl) (List.length_modify ..)
      (fun j => fdsAt_modifyTask (k := k) fun _ => rfl) fun j t₁ t' ht₁ ht' hz' hz₁ => ?_
    rw [task_live, task_modifyTask] at ht'
    split_ifs at ht'
    · rw [ht₁] at ht'
      obtain rfl := Option.some.inj ht'
      exact absurd hz' hz₁
    · obtain rfl := Option.some.inj (ht₁.symm.trans ht')
      exact absurd hz' hz₁
  | drop i ht hz hi has hp =>
    have hfiles : ((k.dropTask i).live (.swept i)).files = k.files := by
      have hupdate : ((k.dropTask i).live (.swept i)).files + k.filesAt i =
          k.files + ((k.dropTask i).live (.swept i)).filesAt i :=
        files_update (lt_length_of_task ht) (List.length_set ..) fun j hj => by
          rw [filesAt, fdsAt, task_live, task_dropTask, if_neg hj, filesAt, fdsAt]
      have hold : k.filesAt i = 0 := by
        rw [filesAt, fdsAt, ht]
        exact hc.zombies i _ ht hz
      have hnew : ((k.dropTask i).live (.swept i)).filesAt i = 0 := by
        rw [filesAt, fdsAt, task_live, task_dropTask, if_pos rfl]
        rfl
      rwa [hold, hnew, add_zero, add_zero] at hupdate
    refine ⟨fun p w => ?_, fun j t' ht' hz' => ?_⟩
    · rw [hfiles]
      exact hc.ends p w
    · rw [task_live, task_dropTask] at ht'
      split_ifs at ht'
      exact hc.zombies j t' ht' hz'

lemma Counted.dispatch (hc : Counted .saved k) {next : ℕ} (hr : k.isReady next) :
    Counted (.busy 0) (dispatch k next) := by
  obtain ⟨t, ht, hready⟩ := exists_of_isReady hr
  have hd := dispatch_dispatched ht
  refine hc.kept rfl (fun p w => by rw [pipe, hd.pipes, pipe]) hd.length (fun i => ?_)
    fun i t₁ t' ht₁ ht' hz' hz => ?_
  · rw [fdsAt, hd.task, fdsAt]
    split_ifs with hi
    · rw [hi, ht]
      rfl
    · rfl
  · rw [hd.task] at ht'
    split_ifs at ht'
    · obtain rfl := Option.some.inj ht'
      cases hz'
    · obtain rfl := Option.some.inj (ht₁.symm.trans ht')
      exact absurd hz' hz

/-- The running task changes its state; it becomes a zombie only without open files. -/
lemma Counted.modifyCurrent {m m' : Mode} (hc : Counted m k) (hm : m'.held = m.held)
    {f : Task → Task} (hfds : ∀ t, (f t).fds = t.fds)
    (hz : ∀ t, k.currentTask = some t → (f t).state = .zombie → t.state ≠ .zombie →
      tableFiles t.fds = 0) : Counted m' (k.modifyCurrent f) := by
  refine hc.kept hm (fun _ _ => rfl) (List.length_modify ..) (fun i => fdsAt_modifyTask hfds)
    fun i t t' ht ht' hz' hne => ?_
  rw [Kernel.modifyCurrent, task_modifyTask] at ht'
  split_ifs at ht' with hi
  · rw [ht] at ht'
    obtain rfl := Option.some.inj ht'
    exact hz t (by rw [currentTask, ← hi, ht]) hz' hne
  · obtain rfl := Option.some.inj (ht.symm.trans ht')
    exact absurd hz' hne

/-- **The moves keep the counts.** -/
theorem Counted.move {s s' : Mode × Kernel} (hm : Move s s') (hr : Rotation s.1 s.2)
    (hc : Counted s.1 s.2) : Counted s'.1 s'.2 := by
  cases hm with
  | effect he => exact hc.effect hr he
  | press hp => exact hc.mild rfl (fun p w => by rw [pipe, hp.pipes, pipe]) hp.mild
  | enter | reply | checked | condemn | lost | rest | stir => exact ⟨hc.ends, hc.zombies⟩
  | user k r mem hstep hat =>
    refine hc.own (fun _ _ => rfl) (aimed_userStep k r mem) fun i => ?_
    exact fdsAt_modifyTask (k := k.setPile r) fun _ => rfl
  | interrupt k hcut =>
    refine hc.own (fun _ _ => rfl) (aimed_interrupt k) fun i => ?_
    exact fdsAt_modifyTask (k := k.note _) fun _ => rfl
  | goBack k ht hact =>
    refine hc.own (fun p w => ?_) (aimed_goBack k _) (fdsAt_goBack k _)
    rw [pipe, (goBack_goesBack k _).pipes, pipe]
  | enterHandler k ht hact hsig =>
    exact hc.own (fun _ _ => rfl) (aimed_enterHandler k _ _) (fdsAt_enterHandler k _ _)
  | bury k status hcause hclosed =>
    have hbury : Counted .dying (k.modifyCurrent fun t =>
        { t with exitStatus := status % 256, state := .zombie, waitReason := .none }) := by
      refine hc.modifyCurrent (by rfl) (by exact fun _ => rfl) fun t ht _ _ => ?_
      refine tableFiles_eq_zero fun fd hfd => ?_
      have hf := hclosed fd
      rwa [currentFile, if_pos hfd, ht] at hf
    exact ⟨hbury.ends, hbury.zombies⟩
  | rouse k =>
    refine hc.mild rfl (fun p w => ?_) (mild_wakeParent k _)
    generalize k.currentTask.bind Task.parentId = o
    cases o with
    | none => rfl
    | some q =>
      rw [wakeParent]
      split_ifs <;> rfl
  | @park k reason kb hb hcut =>
    have hpark : Counted .leaving (k.modifyCurrent fun t =>
        { t with state := .blocked, waitReason := reason }) :=
      hc.modifyCurrent (by rfl) (by exact fun _ => rfl) (by intro _ _ hz; cases hz)
    exact ⟨hpark.ends, hpark.zombies⟩
  | sweep hm hs => exact hc.sweep hs
  | save hm k =>
    refine hc.modifyCurrent ?_ (fun _ => rfl) fun t _ hz hne => ?_
    · rcases hm with rfl | rfl <;> rfl
    · dsimp only at hz
      split_ifs at hz
      exact absurd hz hne
  | dispatch k hready => exact hc.dispatch hready

/-- At boot only the console is open. -/
lemma counted_boot (image : Image) (r : Regs) : Counted (modeOf (boot image r)) (boot image r) := by
  have htask : ∀ i t, (boot image r).task i = some t → t.state = .running := by
    intro i t ht
    obtain rfl : i = 0 := Nat.lt_one_iff.mp (lt_length_of_task ht)
    obtain rfl := Option.some.inj ht
    rfl
  refine ⟨fun p w => ?_, fun i t ht hz => ?_⟩
  · have hfiles : (boot image r).files = {⟨.console, false⟩, ⟨.console, true⟩} := rfl
    have hpipe : (boot image r).pipe p = Pipe.create := by
      rw [pipe, boot]
      cases p <;> rfl
    rw [hpipe, hfiles, show (modeOf (boot image r)).held = 0 from rfl]
    cases w <;> simp [Pipe.create, Pipe.ends]
  · rw [htask i t ht] at hz
    cases hz

end Kernel

end TownOS
