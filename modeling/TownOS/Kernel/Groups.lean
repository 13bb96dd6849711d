import TownOS.Kernel.Ledger

/-!
Process groups (`may_use_group`, `task_register` of `kernel/scheduler.c`, `sys_run` and `sys_setfg`
of `kernel/syscall.c`).

A group is a number that its members have in common. `task_register` numbers the tasks one after
the other, and a task that founds a group gives it its own number, so a group is known if it is
below the number of tasks so far.

* `SameGroups`, `switches_sameGroups`: most of what the kernel does leaves the groups alone;
* `Starts`, `sameGroups_or_starts_sysRun`: what `sys_run` does to them;
* `GroupStep`, `groupStep_step`: what a step does to the groups;
* `Known`, `known_run`: every group in use is a number that has been given to a task;
* `Closed`, `GroupStep.closed`: how a step may change the groups;
* `groups_fresh_and_closed`: the two along every run.
-/

namespace TownOS

namespace Kernel

open Runs

variable {k k' k'' : Kernel} {e : Event} {pgid : ℕ}

/-- No task has been added, none has changed its group, and the foreground group is what it
was. -/
structure SameGroups (k k' : Kernel) : Prop where
  length : k'.tasks.length = k.tasks.length
  task : ∀ i t', k'.task i = some t' → ∃ t, k.task i = some t ∧ t'.pgid = t.pgid
  foreground : k'.foregroundPgid = k.foregroundPgid

/-! ### What leaves the groups alone -/

lemma SameGroups.of_eq (htasks : k'.tasks = k.tasks) (hfg : k'.foregroundPgid = k.foregroundPgid) :
    SameGroups k k' := by
  have htask : ∀ i, k'.task i = k.task i := fun i => by rw [Kernel.task, Kernel.task, htasks]
  exact ⟨congrArg List.length htasks, fun i t' ht' => ⟨t', (htask i).symm.trans ht', rfl⟩, hfg⟩

lemma SameGroups.refl (k : Kernel) : SameGroups k k := .of_eq rfl rfl

lemma SameGroups.trans (h : SameGroups k k') (h' : SameGroups k' k'') : SameGroups k k'' := by
  refine ⟨h'.length.trans h.length, fun i t'' ht'' => ?_, h'.foreground.trans h.foreground⟩
  obtain ⟨t', ht', hp'⟩ := h'.task i t'' ht''
  obtain ⟨t, ht, hp⟩ := h.task i t' ht'
  exact ⟨t, ht, hp'.trans hp⟩

/-- A task changes, but not its group. -/
lemma SameGroups.of_modify {i : ℕ} {f : Task → Task} (htasks : k'.tasks = (k.modifyTask i f).tasks)
    (hfg : k'.foregroundPgid = k.foregroundPgid) (hf : ∀ t, (f t).pgid = t.pgid) :
    SameGroups k k' := by
  refine ⟨htasks ▸ List.length_modify .., fun j t' ht' => ?_, hfg⟩
  rw [Kernel.task, htasks] at ht'
  change (k.modifyTask i f).task j = some t' at ht'
  rw [task_modifyTask] at ht'
  obtain ⟨t, ht, ⟨-, rfl⟩ | rfl⟩ := task_of_ite ht'
  · exact ⟨t, ht, hf t⟩
  · exact ⟨t', ht, rfl⟩

/-- Drifting tasks keep their groups. -/
lemma Calm.sameGroups (hc : Calm k k') (hf : Frame k k') : SameGroups k k' := by
  refine ⟨hc.length, fun i t' ht' => ?_, hf.foreground⟩
  obtain ⟨t, ht, hd⟩ := hc.drift ht'
  cases hd with
  | same | woken | pending | destroyed => exact ⟨_, ht, rfl⟩

lemma sameGroups_countEnd (k : Kernel) (f : File) : SameGroups k (countEnd k f) :=
  (calm_countEnd k f).sameGroups (quietFrame_countEnd k f).toFrame

lemma sameGroups_fileClose (k : Kernel) (f : File) : SameGroups k (fileClose k f) :=
  (calm_fileClose k f).sameGroups (quietFrame_fileClose k f).toFrame

lemma Press.sameGroups (hp : Press k k') : SameGroups k k' := by
  rcases hp.calm_or_cut with hc | ⟨i, t, sig, -, -, rfl⟩
  · exact hc.sameGroups hp.frame
  · exact .of_modify rfl rfl fun _ => rfl

lemma sameGroups_closeFd (k : Kernel) (fd : ℕ) : SameGroups k (closeFd k fd) := by
  rw [closeFd]
  cases k.currentFile fd with
  | none => exact .refl k
  | some f =>
    have hset : SameGroups k (k.setFd fd none) := .of_modify rfl rfl fun _ => rfl
    exact hset.trans (sameGroups_fileClose _ f)

lemma sameGroups_wakeParent (k : Kernel) (p : Option ℕ) : SameGroups k (wakeParent k p) := by
  cases p with
  | none => exact .refl k
  | some p =>
    refine iteInduction (fun _ => ?_) fun _ => .refl k
    exact (calm_rouse k p).sameGroups ⟨rfl, rfl, rfl⟩

lemma sameGroups_dispatch (k : Kernel) (next : ℕ) : SameGroups k (dispatch k next) := by
  have hrun : SameGroups k (k.modifyTask next fun t => { t with state := .running }) :=
    .of_modify rfl rfl fun _ => rfl
  rw [dispatch]
  split_ifs
  · exact hrun
  · split
    · exact hrun
    · exact hrun.trans (.of_eq rfl rfl)

lemma switches_sameGroups : Switches SameGroups SameGroups where
  refl := .refl
  trans := .trans
  last := .trans
  weaken h := h
  sweep hs := hs.calm.sameGroups (Sweeps.switchFrame (.single hs)).toFrame
  save k := .of_modify rfl rfl fun _ => rfl
  dispatch _ := sameGroups_dispatch _ _
  idle _ _ := .of_eq rfl rfl
  close := sameGroups_closeFd
  bury k _ := .of_modify rfl rfl fun _ => rfl
  rouse := sameGroups_wakeParent
  condemn _ _ := .of_eq rfl rfl
  clear k _ := .of_modify rfl rfl fun _ => rfl
  checked _ := .of_eq rfl rfl
  handler k t sig := by
    refine ⟨length_enterHandler k t sig, fun i t' ht' => ?_, rfl⟩
    rw [task_enterHandler] at ht'
    obtain ⟨t, ht, ⟨-, rfl⟩ | rfl⟩ := task_of_ite ht'
    · exact ⟨t, ht, rfl⟩
    · exact ⟨t', ht, rfl⟩
  reply _ _ := .of_eq rfl rfl
  cut k := .of_modify rfl rfl fun _ => rfl

/-- Only `sys_run` and `sys_setfg` do anything to the groups. -/
lemma Deed.sameGroups {s s' : Multiset File × Kernel} (hd : Deed s s')
    (hcall : SysCall.ofWord s.2.pile.rax ≠ some .run ∧ SysCall.ofWord s.2.pile.rax ≠ some .setfg) :
    SameGroups s.2 s'.2 := by
  cases hd with
  | raise h k id sig => exact (Press.raise k id sig).sameGroups
  | getKey | eofTaken | newPipe | dropPipe | read => exact .of_eq rfl rfl
  | took h k p | gave h k p =>
    have hpipe : ∀ x, SameGroups k (k.setPipe p x) := fun _ => .of_eq rfl rfl
    exact (hpipe _).trans ((calm_schedulerWake _ _).sameGroups ⟨rfl, rfl, rfl⟩)
  | collect h k i _ ht hz =>
    exact (calm_collect ht hz).sameGroups (switchFrame_collect k i _).toFrame
  | store | install | map | unmap | put | take =>
    exact .of_modify rfl rfl fun _ => rfl
  | dup h k fd f => exact sameGroups_countEnd k f
  | openEnd h k p writable => exact sameGroups_countEnd k ⟨.pipe p, writable⟩
  | close h k f => exact sameGroups_fileClose k f
  | foreground h k pgid hset => exact absurd hset hcall.2
  | spawn h k image pgid inSrc outSrc hrun => exact absurd hrun hcall.1

/-! ### Starting a task -/

/-- A task is started in a group; the other groups are as before. -/
structure Starts (k : Kernel) (pgid : ℕ) (k' : Kernel) : Prop where
  length : k'.tasks.length = k.tasks.length + 1
  task : ∀ i t', k'.task i = some t' →
    (∃ t, k.task i = some t ∧ t'.pgid = t.pgid) ∨ i = k.tasks.length ∧ t'.pgid = pgid
  foreground : k'.foregroundPgid = k.foregroundPgid

lemma SameGroups.starts (h : SameGroups k k') (h' : Starts k' pgid k'') : Starts k pgid k'' := by
  refine ⟨h'.length.trans (by rw [h.length]), fun i t'' ht'' => ?_,
    h'.foreground.trans h.foreground⟩
  rcases h'.task i t'' ht'' with ⟨t', ht', hp'⟩ | ⟨hi, hp⟩
  · obtain ⟨t, ht, hp⟩ := h.task i t' ht'
    exact .inl ⟨t, ht, hp'.trans hp⟩
  · exact .inr ⟨hi.trans h.length, hp⟩

lemma Starts.sameGroups (h : Starts k pgid k') (h' : SameGroups k' k'') : Starts k pgid k'' := by
  refine ⟨h'.length.trans h.length, fun i t'' ht'' => ?_, h'.foreground.trans h.foreground⟩
  obtain ⟨t', ht', hp'⟩ := h'.task i t'' ht''
  rcases h.task i t' ht' with ⟨t, ht, hp⟩ | ⟨hi, hp⟩
  · exact .inl ⟨t, ht, hp'.trans hp⟩
  · exact .inr ⟨hi, hp'.trans hp⟩

lemma starts_addTask (k : Kernel) (t : Task) : Starts k t.pgid (k.addTask t) := by
  refine ⟨by rw [addTask, List.length_append, List.length_singleton], fun i t' ht' => ?_, rfl⟩
  rw [task_addTask] at ht'
  split_ifs at ht' with hi
  · obtain rfl := Option.some.inj ht'
    exact .inr ⟨hi, rfl⟩
  · exact .inl ⟨t', ht', rfl⟩

/-- The group that `task_register` gives to a new task. -/
def givenPgid (k : Kernel) (parentId pgidReq : ℕ) : ℕ :=
  if pgidReq = taskPgidNew then k.tasks.length
  else if pgidReq = taskPgidInherit then ((k.task parentId).map Task.pgid).getD 0
  else pgidReq

lemma sameGroups_undoDup (k : Kernel) (f : Option File) : SameGroups k (undoDup k f) := by
  cases f with
  | none => exact .refl k
  | some f => exact sameGroups_fileClose k f

lemma sameGroups_dupFile {f : Option File} {room : Bool} (h : dupFile k f room = some k') :
    k'.tasks = k.tasks ∧ SameGroups k k' := by
  cases f with
  | none =>
    obtain rfl := Option.some.inj h
    exact ⟨rfl, .refl k⟩
  | some f =>
    obtain ⟨-, rfl⟩ := guarded h
    exact ⟨(tasks_countEnd k f).1, sameGroups_countEnd k f⟩

/-- Where the program is loaded, the task is started unless a file or the heap is missing. -/
lemma sameGroups_or_starts_startTask (k : Kernel) (a : Answers) (image : Image)
    (inSrc outSrc : Option File) (parentId pgidReq : ℕ) :
    SameGroups k (startTask k a image inSrc outSrc parentId pgidReq).2 ∨
      Starts k (givenPgid k parentId pgidReq)
        (startTask k a image inSrc outSrc parentId pgidReq).2 := by
  rw [startTask]
  cases h₁ : dupFile k inSrc (a.heap 0) with
  | none => exact .inl (.refl k)
  | some k₁ =>
    dsimp only
    obtain ⟨ht₁, hk₁⟩ := sameGroups_dupFile h₁
    cases h₂ : dupFile k₁ outSrc (a.heap 1) with
    | none => exact .inl (hk₁.trans (sameGroups_undoDup k₁ inSrc))
    | some k₂ =>
      dsimp only
      obtain ⟨ht₂, hk₂⟩ := sameGroups_dupFile h₂
      have hk := hk₁.trans hk₂
      cases h₃ : taskRegister k₂ a image parentId pgidReq (childFds inSrc outSrc) with
      | none =>
        exact .inl (hk.trans ((sameGroups_undoDup k₂ inSrc).trans (sameGroups_undoDup _ outSrc)))
      | some k₃ =>
        obtain ⟨-, h₃⟩ := Option.ite_none_left_eq_some.mp h₃
        obtain ⟨-, h₃⟩ := Option.ite_none_left_eq_some.mp h₃
        obtain rfl := Option.some.inj h₃
        have hgiven : givenPgid k₂ parentId pgidReq = givenPgid k parentId pgidReq := by
          simp only [givenPgid, Kernel.task, ht₂, ht₁]
        rw [← hgiven]
        refine .inr (hk.starts ?_)
        exact Starts.sameGroups (starts_addTask k₂ (freshTask image k₂.tasks.length (some parentId)
          (givenPgid k₂ parentId pgidReq) (childFds inSrc outSrc))) (.of_eq rfl rfl)

/-- A group that is named has to be one that the parent may use. -/
lemma sameGroups_or_starts_taskCreateFromFile (k : Kernel) (a : Answers) (parentId : ℕ)
    (inFd outFd : ℤ)
    (pgidReq : ℕ) :
    SameGroups k (taskCreateFromFile k a parentId inFd outFd pgidReq).2 ∨
      Starts k (givenPgid k parentId pgidReq)
          (taskCreateFromFile k a parentId inFd outFd pgidReq).2 ∧
        (pgidReq = taskPgidInherit ∨ pgidReq = taskPgidNew ∨
          mayUseGroup k parentId pgidReq = true) := by
  rw [taskCreateFromFile]
  by_cases hmay :
      pgidReq ≠ taskPgidInherit ∧ pgidReq ≠ taskPgidNew ∧ !mayUseGroup k parentId pgidReq
  · rw [if_pos hmay]
    exact .inl (.refl k)
  · rw [if_neg hmay]
    split
    · rename_i image _ _ _
      refine (sameGroups_or_starts_startTask k a image _ _ parentId pgidReq).imp_right fun hs =>
        ⟨hs, ?_⟩
      by_contra hnone
      push Not at hnone
      exact hmay ⟨hnone.1, hnone.2.1, by simpa using hnone.2.2⟩
    · exact .inl (.refl k)

lemma sameGroups_copyUserString (k : Kernel) (ptr : Word) :
    ∃ (name : Option (List UInt8)) (k₁ : Kernel), copyUserString k ptr = (name, k₁) ∧
      k₁.tasks = k.tasks ∧ k₁.current = k.current ∧ k₁.pile = k.pile ∧ SameGroups k k₁ := by
  obtain ⟨spans, -, hk₁⟩ := reads_copyUserString k ptr
  exact ⟨(copyUserString k ptr).1, { k with touched := k.touched ++ spans }, Prod.ext rfl hk₁, rfl,
    rfl, rfl, .of_eq rfl rfl⟩

/-- **What `sys_run` does.** It starts no task, or one in a group that the caller may use. -/
lemma sameGroups_or_starts_sysRun (k : Kernel) (a : Answers) :
    SameGroups k (sysRun k a) ∨
      Starts k (givenPgid k k.current (asUint32 k.pile.rcx)) (sysRun k a) ∧
        (asUint32 k.pile.rcx = taskPgidInherit ∨ asUint32 k.pile.rcx = taskPgidNew ∨
          mayUseGroup k k.current (asUint32 k.pile.rcx) = true) := by
  obtain ⟨_ | name, k₁, hcopy, htasks, hcur, hpile, hk₁⟩ := sameGroups_copyUserString k k.pile.rdi
  · rw [sysRun, hcopy]
    exact .inl (hk₁.trans (.of_eq rfl rfl))
  · have hgiven : givenPgid k = givenPgid k₁ := by
      funext id pgid
      simp only [givenPgid, Kernel.task, htasks]
    have hmay : mayUseGroup k = mayUseGroup k₁ := by
      funext id pgid
      simp only [mayUseGroup, Kernel.task, htasks]
    have hcreate := sameGroups_or_starts_taskCreateFromFile k₁ a k₁.current (asInt k₁.pile.rsi)
      (asInt k₁.pile.rdx) (asUint32 k₁.pile.rcx)
    rw [sysRun, hcopy, hgiven, hmay, ← hcur, ← hpile]
    dsimp only
    generalize taskCreateFromFile k₁ a _ _ _ _ = s at hcreate
    rcases hcreate with hsame | ⟨hstarts, hmay⟩
    · exact .inl (by obtain ⟨_ | id, k₂⟩ := s <;> exact (hk₁.trans hsame).trans (.of_eq rfl rfl))
    · refine .inr ⟨?_, hmay⟩
      obtain ⟨_ | id, k₂⟩ := s <;> exact hk₁.starts (hstarts.sameGroups (.of_eq rfl rfl))

/-! ### Steps -/

/-- The running task, or a child of it that has not exited, is in the group. -/
def Holds (k : Kernel) (pgid : ℕ) : Prop :=
  (∃ t, k.currentTask = some t ∧ t.pgid = pgid) ∨
    ∃ i t, k.task i = some t ∧ t.state ≠ .zombie ∧ t.parentId = some k.current ∧ t.pgid = pgid

/-- The event is a certain system call. -/
def Calls (k : Kernel) (e : Event) (call : SysCall) : Prop :=
  (∃ a, e = .syscall a) ∧ SysCall.ofWord k.pile.rax = some call

/-- What a step does to the groups. -/
inductive GroupStep (k : Kernel) (e : Event) (k' : Kernel) : Prop
  | same (h : SameGroups k k')
  /-- A task is started in a group of its own. -/
  | founded (hcall : Calls k e .run) (hreq : asUint32 k.pile.rcx = taskPgidNew)
      (h : Starts k k.tasks.length k')
  /-- A task is started in a group of the caller or one of its children. -/
  | joined (pgid : ℕ) (hcall : Calls k e .run) (hreq : asUint32 k.pile.rcx ≠ taskPgidNew)
      (hholds : Holds k pgid) (h : Starts k pgid k')
  /-- Such a group is made the one that the keyboard addresses. -/
  | addressed (pgid : ℕ) (hcall : Calls k e .setfg) (hholds : Holds k pgid)
      (h : SameGroups { k with foregroundPgid := pgid } k')

/-! ### What a step does -/

/-- `may_use_group`. -/
lemma holds_of_mayUseGroup (h : mayUseGroup k k.current pgid = true) : Holds k pgid := by
  rw [mayUseGroup] at h
  cases hcur : k.task k.current with
  | none =>
    rw [hcur] at h
    cases h
  | some caller =>
    rw [hcur] at h
    simp only [Bool.or_eq_true, decide_eq_true_eq, List.any_eq_true, Option.any_eq_true] at h
    rcases h with hp | ⟨i, -, t, ht, hz, hpar, hp⟩
    · exact .inl ⟨caller, hcur, hp⟩
    · exact .inr ⟨i, t, ht, hz, hpar, hp⟩

/-- The way out of the kernel. -/
lemma GroupStep.trans (h : GroupStep k e k') (h' : SameGroups k' k'') : GroupStep k e k'' := by
  cases h with
  | same h => exact .same (h.trans h')
  | founded hcall hreq h => exact .founded hcall hreq (h.sameGroups h')
  | joined pgid hcall hreq hholds h => exact .joined pgid hcall hreq hholds (h.sameGroups h')
  | addressed pgid hcall hholds h => exact .addressed pgid hcall hholds (h.trans h')

/-- The way into it. -/
lemma GroupStep.of_enter {vector rip : Word} (h : GroupStep (k.enter vector rip) e k') :
    GroupStep k e k' := by
  have henter : SameGroups k (k.enter vector rip) := .of_eq rfl rfl
  cases h with
  | same h => exact .same (henter.trans h)
  | founded hcall hreq h => exact .founded hcall hreq (henter.starts h)
  | joined pgid hcall hreq hholds h => exact .joined pgid hcall hreq hholds (henter.starts h)
  | addressed pgid hcall hholds h =>
    have hfg : SameGroups { k with foregroundPgid := pgid }
        { k.enter vector rip with foregroundPgid := pgid } := .of_eq rfl rfl
    exact .addressed pgid hcall hholds (hfg.trans h)

/-- `sys_run`, of a task that is there. -/
lemma groupStep_sysRun {t : Task} (hcur : k.currentTask = some t) (a : Answers)
    (hcall : Calls k e .run) : GroupStep k e (sysRun k a) := by
  rcases sameGroups_or_starts_sysRun k a with h | ⟨h, hmay⟩
  · exact .same h
  rw [givenPgid] at h
  by_cases hnew : asUint32 k.pile.rcx = taskPgidNew
  · rw [if_pos hnew] at h
    exact .founded hcall hnew h
  rw [if_neg hnew] at h
  by_cases hinherit : asUint32 k.pile.rcx = taskPgidInherit
  · have hparent : k.task k.current = some t := hcur
    rw [if_pos hinherit, hparent, Option.map_some, Option.getD_some] at h
    exact .joined t.pgid hcall hnew (.inl ⟨t, hcur, rfl⟩) h
  · rw [if_neg hinherit] at h
    have hholds := holds_of_mayUseGroup ((hmay.resolve_left hinherit).resolve_left hnew)
    exact .joined _ hcall hnew hholds h

/-- `sys_setfg`. -/
lemma groupStep_sysSetfg (k : Kernel) (hcall : Calls k e .setfg) : GroupStep k e (sysSetfg k) := by
  rw [sysSetfg]
  by_cases hmay : mayUseGroup k k.current (asUint32 k.pile.rdi) = true
  · rw [if_pos hmay]
    exact .addressed _ hcall (holds_of_mayUseGroup hmay) (.of_eq rfl rfl)
  · rw [if_neg hmay]
    exact .same (.of_eq rfl rfl)

/-- Only `SYS_RUN` and `SYS_SETFG` touch the groups. -/
lemma groupStep_syscallBody {t : Task} (hcur : k.currentTask = some t) (a : Answers) :
    GroupStep k (.syscall a) (syscallBody k a) := by
  have hcalls : ∀ call, SysCall.ofWord k.pile.rax = some call → Calls k (.syscall a) call :=
    fun call h => ⟨⟨a, rfl⟩, h⟩
  by_cases hrun : SysCall.ofWord k.pile.rax = some .run
  · have hbody : syscallBody k a = sysRun k a := by rw [syscallBody, hrun]
    rw [hbody]
    exact groupStep_sysRun hcur a (hcalls _ hrun)
  by_cases hsetfg : SysCall.ofWord k.pile.rax = some .setfg
  · have hbody : syscallBody k a = sysSetfg k := by rw [syscallBody, hsetfg]
    rw [hbody]
    exact groupStep_sysSetfg k (hcalls _ hsetfg)
  · refine .same (switches_sameGroups.calls (fun c => c ≠ some .run ∧ c ≠ some .setfg)
      (syscallBody_ends k a) ⟨hrun, hsetfg⟩ Deed.sameGroups
      (fun _ _ => .of_modify rfl rfl fun _ => rfl) fun {t} _ _ _ _ => ?_)
    obtain ⟨r, -, hr⟩ := goBack_eq k t
    rw [hr]
    exact .of_modify rfl rfl fun _ => rfl

/-- **What a step does to the groups**, if there is a task for the CPU to run. -/
lemma groupStep_step (hcur : k.idling = false → ∃ t, k.currentTask = some t)
    (hk : k.step e = some k') : GroupStep k e k' := by
  obtain ⟨k₁, hk₁, rfl⟩ := Option.map_eq_some_iff.mp hk
  refine GroupStep.trans ?_ (switches_sameGroups.leave k₁)
  by_cases hcall : ∃ a, e = .syscall a
  · obtain ⟨a, rfl⟩ := hcall
    cases handling_of_handled hk₁ with
    | syscall a hi hat =>
      obtain ⟨t, ht⟩ := hcur hi
      exact .of_enter (groupStep_syscallBody (k := k.enter 0x50 (k.pile.rip + intInstrLen)) ht a)
    | parked hi hirq => exact absurd rfl (hirq a)
  · refine .same (switches_sameGroups.handled hk₁ (fun _ _ => .of_eq rfl rfl) (fun _ _ => ?_)
      Press.sameGroups fun he _ => absurd ⟨_, he⟩ hcall)
    exact .of_modify rfl rfl fun _ => rfl

/-! ### Known groups -/

/-- The groups of the tasks and the one that the keyboard addresses are numbers of tasks that have
been started. -/
structure Known (k : Kernel) : Prop where
  task : ∀ i t, k.task i = some t → t.pgid < k.tasks.length
  foreground : k.foregroundPgid < k.tasks.length

lemma known_boot (image : Image) (r : Regs) : Known (boot image r) := by
  refine ⟨fun i t ht => ?_, Nat.one_pos⟩
  cases i with
  | zero =>
    obtain rfl := Option.some.inj ht
    exact Nat.one_pos
  | succ i => cases ht

lemma Known.of_holds (h : Known k) (hholds : Holds k pgid) : pgid < k.tasks.length := by
  rcases hholds with ⟨t, ht, rfl⟩ | ⟨i, t, ht, -, -, rfl⟩
  · exact h.task k.current t ht
  · exact h.task i t ht

lemma Known.sameGroups (h : Known k) (hs : SameGroups k k') : Known k' := by
  refine ⟨fun i t' ht' => ?_, ?_⟩
  · obtain ⟨t, ht, hp⟩ := hs.task i t' ht'
    rw [hp, hs.length]
    exact h.task i t ht
  · rw [hs.foreground, hs.length]
    exact h.foreground

/-- A group is known once the task that is started in it has a number. -/
lemma Known.starts (h : Known k) (hpgid : pgid ≤ k.tasks.length) (hs : Starts k pgid k') :
    Known k' := by
  refine ⟨fun i t' ht' => ?_, ?_⟩
  · rw [hs.length]
    rcases hs.task i t' ht' with ⟨t, ht, hp⟩ | ⟨-, hp⟩
    · rw [hp]
      exact Nat.lt_succ_of_lt (h.task i t ht)
    · rw [hp]
      exact Nat.lt_succ_of_le hpgid
  · rw [hs.foreground, hs.length]
    exact Nat.lt_succ_of_lt h.foreground

/-- A step keeps the groups known. -/
lemma Known.groupStep (h : Known k) (hs : GroupStep k e k') : Known k' := by
  cases hs with
  | same hs => exact h.sameGroups hs
  | founded _ _ hs => exact h.starts le_rfl hs
  | joined pgid _ _ hholds hs => exact h.starts (h.of_holds hholds).le hs
  | addressed pgid _ hholds hs =>
    have hknown : Known { k with foregroundPgid := pgid } := ⟨h.task, h.of_holds hholds⟩
    exact hknown.sameGroups hs

/-! ### Changes of the groups -/

/-- How the groups may change. -/
structure Closed (k : Kernel) (e : Event) (k' : Kernel) : Prop where
  /-- No task changes its group. -/
  stays : ∀ i t t', k.task i = some t → k'.task i = some t' → t'.pgid = t.pgid
  /-- A new task has been started by `sys_run`. -/
  started : ∀ i t', k.task i = none → k'.task i = some t' → Calls k e .run
  /-- If a new group was asked for, no other task is in it, and the keyboard does not address it. -/
  fresh : ∀ i t', k.task i = none → k'.task i = some t' → asUint32 k.pile.rcx = taskPgidNew →
    (∀ j u, k.task j = some u → t'.pgid ≠ u.pgid) ∧
      (∀ j u, k'.task j = some u → j ≠ i → t'.pgid ≠ u.pgid) ∧
        t'.pgid ≠ k.foregroundPgid ∧ t'.pgid ≠ k'.foregroundPgid
  /-- Otherwise the caller or a live child of it is in the group that the new task joins. -/
  joins : ∀ i t', k.task i = none → k'.task i = some t' → asUint32 k.pile.rcx ≠ taskPgidNew →
    Holds k t'.pgid
  /-- So it is in a group that the keyboard is made to address. -/
  addresses : k'.foregroundPgid = k.foregroundPgid ∨ Calls k e .setfg ∧ Holds k k'.foregroundPgid

/-- Where no task is started. -/
lemma Closed.of_task
    (htask : ∀ i t', k'.task i = some t' → ∃ t, k.task i = some t ∧ t'.pgid = t.pgid)
    (hfg : k'.foregroundPgid = k.foregroundPgid ∨ Calls k e .setfg ∧ Holds k k'.foregroundPgid) :
    Closed k e k' := by
  have hold : ∀ i t', k.task i = none → k'.task i = some t' → False := by
    intro i t' hnone ht'
    obtain ⟨t, ht, -⟩ := htask i t' ht'
    rw [hnone] at ht
    cases ht
  refine ⟨fun i t t' ht ht' => ?_, fun i t' h h' => (hold i t' h h').elim,
    fun i t' h h' => (hold i t' h h').elim, fun i t' h h' => (hold i t' h h').elim, hfg⟩
  obtain ⟨t₀, ht₀, hp⟩ := htask i t' ht'
  obtain rfl := Option.some.inj (ht.symm.trans ht₀)
  exact hp

lemma Starts.stays (h : Starts k pgid k') {i : ℕ} {t t' : Task} (ht : k.task i = some t)
    (ht' : k'.task i = some t') : t'.pgid = t.pgid := by
  rcases h.task i t' ht' with ⟨t₀, ht₀, hp⟩ | ⟨rfl, -⟩
  · obtain rfl := Option.some.inj (ht.symm.trans ht₀)
    exact hp
  · exact absurd (lt_length_of_task ht) (Nat.lt_irrefl _)

/-- The task that is new is the one that has been started. -/
lemma Starts.new (h : Starts k pgid k') {i : ℕ} {t' : Task} (hnone : k.task i = none)
    (ht' : k'.task i = some t') : i = k.tasks.length ∧ t'.pgid = pgid := by
  rcases h.task i t' ht' with ⟨t, ht, -⟩ | hnew
  · rw [hnone] at ht
    cases ht
  · exact hnew

/-- No other task is in a group that is founded. -/
lemma Starts.fresh (hk : Known k) (h : Starts k k.tasks.length k') {i : ℕ} {t' : Task}
    (hnone : k.task i = none) (ht' : k'.task i = some t') :
    (∀ j u, k.task j = some u → t'.pgid ≠ u.pgid) ∧
      (∀ j u, k'.task j = some u → j ≠ i → t'.pgid ≠ u.pgid) ∧
        t'.pgid ≠ k.foregroundPgid ∧ t'.pgid ≠ k'.foregroundPgid := by
  obtain ⟨hi, hp⟩ := h.new hnone ht'
  rw [hp, h.foreground]
  refine ⟨fun j u hu => (hk.task j u hu).ne', fun j u hu hne => ?_, hk.foreground.ne',
    hk.foreground.ne'⟩
  rcases h.task j u hu with ⟨t, ht, hpu⟩ | ⟨hj, -⟩
  · rw [hpu]
    exact (hk.task j t ht).ne'
  · exact absurd (hj.trans hi.symm) hne

/-- **A step changes the groups as it may.** -/
lemma GroupStep.closed (hk : Known k) (h : GroupStep k e k') : Closed k e k' := by
  cases h with
  | same h => exact .of_task h.task (.inl h.foreground)
  | founded hcall hreq h =>
    exact ⟨fun i t t' => h.stays, fun _ _ _ _ => hcall, fun i t' hnone ht' _ =>
      h.fresh hk hnone ht',
      fun _ _ _ _ hne => absurd hreq hne, .inl h.foreground⟩
  | joined pgid hcall hreq hholds h =>
    refine ⟨fun i t t' => h.stays, fun _ _ _ _ => hcall, fun _ _ _ _ heq => absurd heq hreq,
      fun i t' hnone ht' _ => ?_, .inl h.foreground⟩
    rw [(h.new hnone ht').2]
    exact hholds
  | addressed pgid hcall hholds h =>
    refine .of_task h.task (.inr ⟨hcall, ?_⟩)
    rw [h.foreground]
    exact hholds

/-! ### Along a run -/

/-- From boot on, there is a task for the CPU to run. -/
lemma currentTask_of_run {image : Image} {r : Regs} {es : List Event}
    (hrun : Runs.exec step (boot image r) es = some k) : ∃ t, k.currentTask = some t := by
  obtain ⟨t, ht, -⟩ := (moves_sound (run_moves hrun)).1.current
  exact ⟨t, ht⟩

lemma known_run {image : Image} {r : Regs} {es : List Event}
    (hrun : Runs.exec step (boot image r) es = some k) : Known k := by
  induction es using List.reverseRecOn generalizing k with
  | nil =>
    obtain rfl := Option.some.inj hrun
    exact known_boot image r
  | append_singleton es e ih =>
    rw [exec_concat] at hrun
    obtain ⟨k₁, hrun, hk⟩ := Option.bind_eq_some_iff.mp hrun
    exact (ih hrun).groupStep (groupStep_step (fun _ => currentTask_of_run hrun) hk)

/-- **Process groups are fresh and closed.** From boot on, for every interleaving: every group in
use is a number that has been given to a task; a new group is nobody else's; and no call makes a
task join a group, or the keyboard address one, that held neither the caller nor a live child of
the caller. -/
theorem groups_fresh_and_closed {image : Image} {r : Regs} {es : List Event} {k : Kernel}
    (hrun : Runs.exec step (boot image r) es = some k) :
    Known k ∧ ∀ e k', k.step e = some k' → Closed k e k' := by
  have hknown := known_run hrun
  exact ⟨hknown, fun e k' hk =>
    (groupStep_step (fun _ => currentTask_of_run hrun) hk).closed hknown⟩

end Kernel

/-! ### A job -/

/-- Ring 3 loads the registers of a `SYS_RUN` that names a group. -/
def loadRun (group : Word) : Event :=
  .user { forgedFrame 0x400100 with
    rax := 4, rdi := 0x400000, rsi := -1, rdx := -1, rcx := group, userRsp := 0x800000 } intMem

/-- A program starts a child in a new group, makes that group the foreground one and is about to
start a second child in it. -/
def jobRun : List Event :=
  [loadRun 0xFFFFFFFF, .syscall { noAnswers with image := some intImage },
    loadCall 17 1 0 0 0x800000 intMem, .syscall noAnswers, loadRun 1]

/-- The second child joins the group of the first. -/
theorem groups_fresh_and_closed_jobRun :
    ∃ k k', Runs.exec Kernel.step (boot intImage {}) jobRun = some k ∧
      k.step (.syscall { noAnswers with image := some intImage }) = some k' ∧
      k.foregroundPgid = 1 ∧ (k'.task 2).map Task.pgid = some 1 ∧ k.Known ∧
      k.Closed (.syscall { noAnswers with image := some intImage }) k' := by
  have hrun : (Runs.exec Kernel.step (boot intImage {}) jobRun).any (fun k =>
      k.foregroundPgid = 1 ∧ (k.step (.syscall { noAnswers with image := some intImage })).any
        fun k' => (k'.task 2).map Task.pgid = some 1) = true := by
    decide +kernel
  obtain ⟨k, hk, h⟩ := Option.any_eq_true _ _ |>.mp hrun
  obtain ⟨hfg, h⟩ := of_decide_eq_true h
  obtain ⟨k', hk', h⟩ := Option.any_eq_true _ _ |>.mp h
  obtain ⟨hknown, hclosed⟩ := Kernel.groups_fresh_and_closed hk
  exact ⟨k, k', hk, hk', hfg, of_decide_eq_true h, hknown, hclosed _ k' hk'⟩

end TownOS
