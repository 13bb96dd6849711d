import TownOS.Kernel.Handling

/-!
The steps of the machine, action by action.

A step runs through a few stages: the kernel works for the running task, the task is going to
exit, it exits or falls asleep, its registers are saved, and another one is put on the CPU or
the CPU is parked. An `Action` is one thing the kernel does in one of these stages, with all
the data and the condition under which it does it.

* `step_actions`: every step is a sequence of actions;
* `run_actions`: so is every run;
* `Actions.invariant`: what every action preserves, a sequence of actions preserves.
-/

namespace TownOS

namespace Kernel

open Relation Runs

/-- Where the kernel is between two actions. -/
inductive Stage where
  /-- It works for the running task, and some open files are in no table. -/
  | busy (held : Multiset File)
  /-- The running task is going to exit with a status. -/
  | doomed (status : ℕ)
  /-- The running task has exited, and its parent has not been told. -/
  | dying
  /-- The running task has exited or fallen asleep. -/
  | leaving
  /-- The registers of the task that was running are saved. -/
  | saved
  /-- The CPU is parked in `idle_until_runnable`. -/
  | idle

/-- The stage between two steps. -/
def stageOf (k : Kernel) : Stage := if k.idling then .idle else .busy 0

/-- The stages in which `schedule` is called. -/
def Stage.Yields (p : Stage) : Prop := p = .busy 0 ∨ p = .leaving

/-- Why the running task exits with a status: it has asked for it, or a signal ends it. -/
def Cause (lives : List Life) (id : ℕ) (frame : Regs) (status : ℕ) : Prop :=
  (SysCall.ofWord frame.rax = some .exit ∧ status = frame.rdi.toNat) ∨
    ∃ sig, lives.getLast? = some (.condemned id sig) ∧ status = sigExitStatus sig

/-- What the kernel does, stage by stage, if a handler is entered only in states with `C`. -/
inductive Action (C : Kernel → Prop) : Stage × Kernel → Stage × Kernel → Prop
  | deed {h h' : Multiset File} {k k' : Kernel} (hd : Deed (h, k) (h', k')) :
      Action C (.busy h, k) (.busy h', k')
  /-- A key is pressed. -/
  | press {p : Stage} {k k' : Kernel} (hs : p = .busy 0 ∨ p = .idle) (hp : Press k k') :
      Action C (p, k) (p, k')
  | enter (k : Kernel) (vector rip : Word) : Action C (.busy 0, k) (.busy 0, k.enter vector rip)
  | user (k : Kernel) (r : Regs) (mem : ℕ → UInt8) (hstep : k.pile.UserStep r)
      (hat : ¬AtInt k.mem k.pile.rip) : Action C (.busy 0, k) (.busy 0, k.userStep r mem)
  | reply (k : Kernel) (v : Word) : Action C (.busy 0, k) (.busy 0, k.reply v)
  | interrupt (k : Kernel) (hc : k.cutShort = true) : Action C (.busy 0, k) (.busy 0, interrupt k)
  | goBack (k : Kernel) {t : Task} (ht : k.currentTask = some t) (hact : t.sigActive = true)
      (hok : userRangeOk t.sigCtx (BitVec.ofNat 64 sizeofRegs) = true) :
      Action C (.busy 0, k) (.busy 0, goBack k t)
  | enterHandler (k : Kernel) {t : Task} {sig : ℕ} (hC : C k) (ht : k.currentTask = some t)
      (hact : t.sigActive = false) (hsig : lowestPending t = some sig)
      (hh : ¬ (t.sigHandlers sig = 0 ∨ sig = sigKill))
      (hok : userRangeOk (signalFrame k.pile.userRsp) (BitVec.ofNat 64 (sizeofRegs + 8)) = true) :
      Action C (.busy 0, k) (.busy 0, enterHandler k t sig)
  /-- `check_signals` is called. -/
  | checked (k : Kernel) : Action C (.busy 0, k) (.busy 0, { k with checkDue := false })
  /-- The running task asks for its end. -/
  | exits (k : Kernel) (hcall : SysCall.ofWord k.pile.rax = some .exit) :
      Action C (.busy 0, k) (.doomed k.pile.rdi.toNat, k)
  /-- `SIG_SEGV` is going to end it. -/
  | condemned (k : Kernel) :
      Action C (.busy 0, k) (.doomed (sigExitStatus sigSegv), k.live (.condemned k.current sigSegv))
  /-- A pending signal is going to end it. -/
  | killed (k : Kernel) {t : Task} {sig : ℕ} (ht : k.currentTask = some t)
      (hact : t.sigActive = false) (hsig : lowestPending t = some sig)
      (hh : t.sigHandlers sig = 0 ∨ sig = sigKill) :
      Action C (.busy 0, k) (.doomed (sigExitStatus sig),
        (k.modifyCurrent fun t => clearPending t sig).live (.condemned k.current sig))
  /-- One of its descriptors is closed. -/
  | shut {status : ℕ} (k : Kernel) (fd : ℕ) :
      Action C (.doomed status, k) (.doomed status, closeFd k fd)
  /-- It becomes a zombie, with all its files closed. -/
  | bury {status : ℕ} (k : Kernel) (hcause : Cause k.lives k.current k.pile status)
      (hclosed : ∀ fd, k.currentFile fd = none) :
        Action C (.doomed status, k) (.dying, bury k status)
  /-- Its parent is told. -/
  | rouse (k : Kernel) :
      Action C (.dying, k) (.leaving, wakeParent k (k.currentTask.bind Task.parentId))
  | park (k : Kernel) {reason : WaitReason} {kb : Keyboard} (hb : Blocks k reason kb)
      (hc : cutShort { k with keyboard := kb } = false) :
      Action C (.busy 0, k) (.leaving, park { k with keyboard := kb } reason)
  | sweep {p : Stage} {k k' : Kernel} (hp : p.Yields) (hs : Sweep k k') : Action C (p, k) (p, k')
  /-- There is no running task to switch from. -/
  | lost (k : Kernel) (hn : k.currentTask = none) : Action C (.leaving, k) (.busy 0, k)
  | save {p : Stage} (hp : p.Yields) (k : Kernel) : Action C (p, k) (.saved, saveCurrent k)
  | dispatch (k : Kernel) {next : ℕ} (hr : k.isReady next) :
      Action C (.saved, k) (.busy 0, dispatch k next)
  /-- The CPU is parked. -/
  | rest (k : Kernel) : Action C (.saved, k) (.idle, { k with idling := true })
  /-- It is woken. -/
  | stir (k : Kernel) : Action C (.idle, k) (.saved, { k with idling := false })

/-- A sequence of actions. -/
abbrev Actions (C : Kernel → Prop) : Stage × Kernel → Stage × Kernel → Prop :=
  ReflTransGen (Action C)

variable {C : Kernel → Prop} {k k' : Kernel} {p : Stage}

/-- What every action preserves, a sequence of actions preserves. -/
theorem Actions.invariant {I : Stage × Kernel → Prop} {s s' : Stage × Kernel} (ha : Actions C s s')
    (haction : ∀ s s', Action C s s' → I s → I s') (hs : I s) : I s' := by
  induction ha with
  | refl => exact hs
  | tail _ ha ih => exact haction _ _ ha ih

lemma Action.one {s s' : Stage × Kernel} (ha : Action C s s') : Actions C s s' :=
  ReflTransGen.single ha

/-- Some actions lead to the end of a step. -/
def Leads (C : Kernel → Prop) (s : Stage × Kernel) (k : Kernel) : Prop := Actions C s (stageOf k, k)

lemma Leads.of_busy (hi : k.idling = false) : Leads C (.busy 0, k) k := by
  rw [Leads, stageOf, hi]
  exact .refl

lemma Leads.of_idle (hi : k.idling = true) : Leads C (.idle, k) k := by
  rw [Leads, stageOf, hi]
  exact .refl

/-- What some actions end in may lead on. -/
lemma Leads.after {s s' : Stage × Kernel} (hl : Leads C s' k) (ha : Actions C s s') : Leads C s k :=
  ha.trans hl

/-! ### Deeds -/

/-- The deeds of a call are actions. -/
lemma HeldDeeds.actions {s s' : Multiset File × Kernel} (hd : HeldDeeds s s') :
    Actions C (.busy s.1, s.2) (.busy s'.1, s'.2) := by
  induction hd with
  | refl => exact .refl
  | tail _ hd ih => exact ih.tail (.deed hd)

/-- Keys are pressed during a call, and while the CPU is parked. -/
lemma Presses.actions (hp : Presses k k') (hs : p = .busy 0 ∨ p = .idle) :
    Actions C (p, k) (p, k') := by
  induction hp with
  | refl => exact .refl
  | tail _ hp ih => exact ih.tail (.press hs hp)

lemma Presses.idling (hp : Presses k k') : k'.idling = k.idling :=
  (Effects.frame hp.asides.effects).2.1

/-! ### The switch -/

/-- `schedule` begins with a sweep. -/
lemma Sweeps.actions (hs : Sweeps k k') (hp : p.Yields) : Actions C (p, k) (p, k') := by
  induction hs with
  | refl => exact .refl
  | tail _ hs ih => exact ih.tail (.sweep hp hs)

/-- `schedule` leads to another task, or parks the CPU. -/
lemma schedule_leads (hp : p.Yields) (hi : k.idling = false) : Leads C (p, k) (schedule k) := by
  have hsched := schedule_scheduled k
  generalize schedule k = k' at hsched ⊢
  cases hsched with
  | idle hi' =>
    rw [hi] at hi'
    cases hi'
  | gone hs hn =>
    have hend := Leads.of_busy (C := C) (hs.calms.idling.trans hi)
    refine hend.after ((Sweeps.actions hs hp).trans ?_)
    rcases hp with rfl | rfl
    · exact .refl
    · exact (Action.lost _ hn).one
  | @switched k₁ next hs hr =>
    obtain ⟨t, ht, -⟩ := exists_of_isReady hr
    have hidle := (dispatch_dispatched ht).idling.trans (hs.calms.idling.trans hi)
    exact (Leads.of_busy hidle).after (((Sweeps.actions hs hp).tail (.save hp _)).tail
      (.dispatch _ hr))
  | @parked k₁ hs =>
    have hend : Leads C (.idle, { saveCurrent k₁ with idling := true }) _ := Leads.of_idle rfl
    exact hend.after (((Sweeps.actions hs hp).tail (.save hp _)).tail (.rest _))

lemma resume_leads (hi : k.idling = true) : Leads C (.idle, k) (resume k) := by
  have hresumed := resume_resumed k
  generalize resume k = k' at hresumed ⊢
  cases hresumed with
  | stays => exact .of_idle hi
  | switched hn =>
    have hr := isReady_of_findNextReady hn
    obtain ⟨t, ht, -⟩ := exists_of_isReady hr
    exact (Leads.of_busy (dispatch_dispatched ht).idling).after
      ((Action.stir k).one.tail (.dispatch _ hr))

/-! ### Exiting -/

lemma currentFile_schedulerWake (reason : WaitReason) (fd : ℕ) :
    (schedulerWake k reason).currentFile fd = k.currentFile fd := by
  rw [currentFile, currentFile, currentTask, task_schedulerWake, currentTask,
    show (schedulerWake k reason).current = k.current from rfl]
  cases k.task k.current with
  | none => rfl
  | some t =>
    rw [Option.map_some]
    split_ifs <;> rfl

lemma currentFile_fileClose (f : File) (fd : ℕ) :
    (fileClose k f).currentFile fd = k.currentFile fd :=
  fileClose_rel (R := fun k k' => k'.currentFile fd = k.currentFile fd) (fun _ => rfl)
    (fun _ _ _ h h' => h'.trans h) (fun _ _ _ => rfl) (fun _ _ => currentFile_schedulerWake ..) k f

lemma currentFile_closeFd (fd fd' : ℕ) :
    (closeFd k fd).currentFile fd' = if fd' = fd then none else k.currentFile fd' := by
  rw [closeFd]
  cases hf : k.currentFile fd with
  | none =>
    split_ifs with h
    · rw [h, hf]
    · rfl
  | some f =>
    dsimp only
    rw [currentFile_fileClose, currentFile, currentFile, setFd, modifyCurrent, currentTask,
      show (k.modifyTask k.current _).current = k.current from rfl, task_modifyTask_self,
      currentTask]
    cases k.task k.current with
    | none => simp
    | some t =>
      rcases eq_or_ne fd' fd with rfl | h
      · simp
      · simp [h]

/-- All files are closed in the end. -/
lemma currentFile_closeAll (fd : ℕ) : (closeAll k).currentFile fd = none := by
  have hfold : ∀ (fds : List ℕ) (k : Kernel), (fds.foldl closeFd k).currentFile fd =
      if fd ∈ fds then none else k.currentFile fd := by
    intro fds
    induction fds with
    | nil => simp
    | cons a fds ih =>
      intro k
      rw [List.foldl_cons, ih, currentFile_closeFd]
      by_cases h : fd ∈ fds <;> by_cases ha : fd = a <;> simp [h, ha]
  rw [closeAll, hfold]
  split_ifs with h
  · rfl
  · rw [currentFile, if_neg fun hlt => h (List.mem_range.mpr hlt)]

lemma lives_closeFd (k : Kernel) (fd : ℕ) : (closeFd k fd).lives = k.lives := by
  rw [closeFd]
  cases k.currentFile fd with
  | none => rfl
  | some f =>
    dsimp only [fileClose]
    cases f.kind with
    | console => rfl
    | pipe p =>
      dsimp only
      split_ifs <;> rfl

lemma lives_closeAll : (closeAll k).lives = k.lives := by
  rw [closeAll]
  generalize List.range maxFds = fds
  induction fds generalizing k with
  | nil => rfl
  | cons fd fds ih => rw [List.foldl_cons, ih, lives_closeFd]

/-- The loop of `task_exit` closes one descriptor after the other. -/
lemma closeAll_actions (status : ℕ) (k : Kernel) :
    Actions C (.doomed status, k) (.doomed status, closeAll k) := by
  rw [closeAll]
  generalize List.range maxFds = fds
  induction fds generalizing k with
  | nil => exact .refl
  | cons fd fds ih => exact (Action.shut k fd).one.trans (ih (closeFd k fd))

/-- `task_exit` closes the descriptors, buries the task and calls `schedule`. -/
lemma taskExit_leads {status : ℕ} (hi : k.idling = false)
    (hcause : Cause k.lives k.current k.pile status) :
    Leads C (.doomed status, k) (taskExit k status) := by
  have ha := closeAll_actions (C := C) status k
  obtain ⟨hpile, hidle, hcur⟩ := Effects.frame (effects_closeAll k)
  rw [← lives_closeAll, ← hpile, ← hcur] at hcause
  have hclosed := fun fd => currentFile_closeAll (k := k) fd
  rw [taskExit]
  generalize closeAll k = k₀ at ha hclosed hcause hidle ⊢
  have hbury := ha.tail (.bury k₀ hcause hclosed)
  have hi₁ : (bury k₀ status).idling = false := hidle.trans hi
  generalize bury k₀ status = k₁ at hbury hi₁ ⊢
  refine Leads.after (schedule_leads (.inr rfl) ?_) (hbury.tail (.rouse k₁))
  exact (calms_wakeParent _ _).idling.trans hi₁

lemma endBySignal_leads (hi : k.idling = false) (sig : ℕ) :
    Leads C (.doomed (sigExitStatus sig), k.live (.condemned k.current sig)) (endBySignal k sig) :=
  taskExit_leads hi (.inr ⟨sig, List.getLast?_concat, rfl⟩)

/-! ### Steps -/

/-- However a system call ends, it leads to the end of the step. -/
lemma Ends.leads {w : Bool} (he : Ends k w k') (hi : k.idling = false) :
    Leads C (.busy 0, k) k' := by
  cases he with
  | served v hd =>
    refine (Leads.of_busy ?_).after ((HeldDeeds.actions hd).tail (.reply _ v))
    exact (Deeds.idling hd).trans hi
  | @interrupted k₁ reason kb hr hb hc =>
    have hd : Deeds k { k₁ with keyboard := kb } := hr.deeds.trans hb.deeds
    refine (Leads.of_busy ?_).after
      (((HeldDeeds.actions hd).tail (.interrupt _ hc)).tail (.reply _ syscallError))
    exact (Deeds.idling hd).trans hi
  | parked hr hb hc =>
    refine Leads.after (schedule_leads (.inr rfl) ?_)
      ((HeldDeeds.actions hr.deeds).tail (.park _ hb hc))
    exact (Deeds.idling hr.deeds).trans hi
  | exited hcall => exact (taskExit_leads hi (.inl ⟨hcall, rfl⟩)).after (Action.exits k hcall).one
  | ended => exact (endBySignal_leads hi _).after (Action.condemned k).one
  | wentBack ht hact hok hcall =>
    exact (Leads.of_busy ((goBack_goesBack k _).idling.trans hi)).after
      (Action.goBack k ht hact hok).one
  | gone hn => exact .of_busy hi

/-- So does `check_signals`. -/
lemma Checked.leads (hc : Checked k k') (hi : k.idling = false) (hC : C k) :
    Leads C (.busy 0, k) k' := by
  cases hc with
  | stays => exact .of_busy hi
  | @killed t sig ht hact hsig hh =>
    have hend :=
      endBySignal_leads (C := C) (k := k.modifyCurrent fun t => clearPending t sig) hi sig
    exact Leads.after hend (Action.killed k ht hact hsig hh).one
  | unfit => exact (endBySignal_leads hi _).after (Action.condemned k).one
  | enters ht hact hsig hh hok =>
    exact Leads.after (Leads.of_busy hi) (Action.enterHandler k hC ht hact hsig hh hok).one

lemma Leads.of_enter {vector rip : Word} (hl : Leads C (.busy 0, k.enter vector rip) k') :
    Leads C (.busy 0, k) k' :=
  hl.after (Action.enter k vector rip).one

/-- And so does every event. -/
lemma handled_leads {e : Event} (hk : k.handled e = some k') : Leads C (stageOf k, k) k' := by
  rw [stageOf]
  cases handling_of_handled hk with
  | @user r mem hi hstep hat =>
    rw [if_neg (by simp [hi])]
    exact Leads.after (Leads.of_busy hi) (Action.user k r mem hstep hat).one
  | syscall a hi hat =>
    rw [if_neg (by simp [hi])]
    exact Leads.of_enter ((syscallBody_ends _ a).leads hi)
  | timer hi =>
    rw [if_neg (by simp [hi])]
    exact Leads.of_enter (schedule_leads (.inl rfl) hi)
  | key c hi =>
    rw [if_neg (by simp [hi])]
    have hp := presses_keyboardCallback (k.enter 0x41 k.pile.rip) c
    exact Leads.of_enter ((Leads.of_busy (hp.idling.trans hi)).after (hp.actions (.inl rfl)))
  | irq v hi =>
    rw [if_neg (by simp [hi])]
    exact Leads.of_enter (.of_busy hi)
  | parked hi hirq =>
    have hp := presses_pressed k e
    rw [if_pos hi]
    exact (resume_leads (hp.idling.trans hi)).after (hp.actions (.inr rfl))

lemma leave_leads {s : Stage × Kernel} (hl : Leads C s k) (hC : C { k with checkDue := false }) :
    Leads C s (leave k) := by
  obtain hstay | ⟨hi, hchecked⟩ := leave_cases k
  · rwa [hstay]
  rw [Leads, show stageOf k = .busy 0 from if_neg (by simp [hi])] at hl
  exact (hchecked.leads hi hC).after (hl.tail (.checked k))

/-- The state in which a step calls `check_signals` satisfies `C`. -/
def ChecksIn (C : Kernel → Prop) (k : Kernel) (e : Event) : Prop :=
  ∀ k₁, k.handled e = some k₁ → C { k₁ with checkDue := false }

/-- **Every step of the machine is a sequence of actions.** -/
theorem step_actions {e : Event} (hC : ChecksIn C k e) (hk : k.step e = some k') :
    Actions C (stageOf k, k) (stageOf k', k') := by
  obtain ⟨k₁, h₁, rfl⟩ := Option.map_eq_some_iff.mp hk
  exact leave_leads (handled_leads h₁) (hC k₁ h₁)

/-- **Every run is a sequence of actions.** -/
theorem run_actions {es : List Event} (hC : Along step (ChecksIn C) k es)
    (hrun : Runs.exec step k es = some k') : Actions C (stageOf k, k) (stageOf k', k') := by
  induction es generalizing k with
  | nil =>
    obtain rfl := Option.some.inj hrun
    exact .refl
  | cons e es ih =>
    obtain ⟨k₁, h₁, hrun⟩ := Option.bind_eq_some_iff.mp hrun
    exact (step_actions hC.1 h₁).trans (ih (hC.2 k₁ h₁) hrun)

end Kernel

end TownOS
