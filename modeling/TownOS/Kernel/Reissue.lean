import TownOS.Kernel.Handlers
import TownOS.Kernel.Wakeups

/-!
Calls that are issued again (`kernel/scheduler.c`, `kernel/syscall.c`).

`task_block` sets the instruction pointer of the saved frame back onto the `int 0x50`, so a
task that is woken issues its call once more. That this is the same call needs two things:
nobody touches the frame or the memory of the task until it runs again, and the attempt that
was put to sleep has left everything as it was.

* `Untouched`, `untouched_schedule`: a call that is put to sleep has done nothing;
* `Rests.step`: a task that does not run keeps its registers and its memory;
* `blocked_calls_reissued`: the result for all runs.
-/

namespace TownOS

namespace Kernel

open Relation Runs

variable {k k' k₁ : Kernel} {i c : ℕ} {t t' : Task} {fr : Regs} {m : ℕ → UInt8}

/-! ### The attempt that blocks -/

/-- What others may see of a task, and what is its own, is as it was. -/
structure Record (t t' : Task) : Prop where
  fds : t'.fds = t.fds
  mem : t'.mem = t.mem
  id : t'.id = t.id
  parentId : t'.parentId = t.parentId
  exitStatus : t'.exitStatus = t.exitStatus
  zombie : t'.state = .zombie ↔ t.state = .zombie

lemma Record.refl (t : Task) : Record t t := ⟨rfl, rfl, rfl, rfl, rfl, .rfl⟩

lemma Record.trans {t₁ : Task} (h : Record t t₁) (h' : Record t₁ t') : Record t t' :=
  ⟨h'.fds.trans h.fds, h'.mem.trans h.mem, h'.id.trans h.id, h'.parentId.trans h.parentId,
    h'.exitStatus.trans h.exitStatus, h'.zombie.trans h.zombie⟩

/-- No pipe, no key, no descriptor and no user memory has changed, and the children of a task
are all there, with what they have left for it. -/
structure Untouched (c : ℕ) (k k' : Kernel) : Prop where
  pipes : k'.pipes = k.pipes
  keyboard : k'.keyboard = k.keyboard
  tasks : ∀ j t', k'.task j = some t' → ∃ t, k.task j = some t ∧ Record t t'
  children : ∀ j t, k.task j = some t → t.parentId = some c → ∃ t', k'.task j = some t'

lemma Untouched.trans (h : Untouched c k k₁) (h' : Untouched c k₁ k') : Untouched c k k' := by
  refine ⟨h'.pipes.trans h.pipes, h'.keyboard.trans h.keyboard, fun j t' ht' => ?_,
    fun j t ht hp => ?_⟩
  · obtain ⟨t₁, ht₁, hrec'⟩ := h'.tasks j t' ht'
    obtain ⟨t, ht, hrec⟩ := h.tasks j t₁ ht₁
    exact ⟨t, ht, hrec.trans hrec'⟩
  · obtain ⟨t₁, ht₁⟩ := h.children j t ht hp
    obtain ⟨t, ht', hrec⟩ := h.tasks j t₁ ht₁
    obtain rfl := Option.some.inj (ht.symm.trans ht')
    exact h'.children j t₁ ht₁ (hrec.parentId.trans hp)

lemma Untouched.of_tasks (hpipes : k'.pipes = k.pipes) (hkb : k'.keyboard = k.keyboard)
    (htasks : k'.tasks = k.tasks) : Untouched c k k' := by
  have htask : ∀ j, k'.task j = k.task j := fun j => by rw [task, htasks, task]
  exact ⟨hpipes, hkb, fun j t' ht' => ⟨t', (htask j).symm.trans ht', .refl t'⟩,
    fun j t ht _ => ⟨t, (htask j).trans ht⟩⟩

lemma untouched_modifyTask {f : Task → Task} (hf : ∀ t, k.task i = some t → Record t (f t)) :
    Untouched c k (k.modifyTask i f) := by
  refine ⟨rfl, rfl, fun j t' ht' => ?_, fun j t ht _ => ?_⟩
  · rw [task_modifyTask] at ht'
    obtain ⟨t, ht, ⟨hj, rfl⟩ | rfl⟩ := task_of_ite ht'
    · exact ⟨t, ht, hf t (hj ▸ ht)⟩
    · exact ⟨t', ht, .refl t'⟩
  · rw [task_modifyTask]
    split_ifs
    · exact ⟨f t, congrArg _ ht⟩
    · exact ⟨t, ht⟩

/-- Falling asleep changes nothing else. -/
lemma untouched_park (reason : WaitReason) (ht : k.currentTask = some t)
    (hs : t.state = .running) : Untouched c k (park k reason) := by
  have hmodify := untouched_modifyTask (c := c) (k := k) (i := k.current)
    (f := fun t => { t with state := .blocked, waitReason := reason }) fun t' ht' => by
      obtain rfl := Option.some.inj (ht.symm.trans ht')
      exact ⟨rfl, rfl, rfl, rfl, rfl, by simp [hs]⟩
  exact hmodify.trans (.of_tasks rfl rfl rfl)

lemma untouched_saveCurrent (k : Kernel) : Untouched c k (saveCurrent k) := by
  refine untouched_modifyTask fun t _ => ⟨rfl, rfl, rfl, rfl, rfl, ?_⟩
  dsimp only
  split_ifs with hs
  · simp [hs]
  · rfl

lemma untouched_dispatch {next : ℕ} (hr : k.isReady next) : Untouched c k (dispatch k next) := by
  obtain ⟨t, ht, hs⟩ := exists_of_isReady hr
  have hd := dispatch_dispatched ht
  refine ⟨hd.pipes, hd.keyboard, fun j t' ht' => ?_, fun j t₁ ht₁ _ => ?_⟩
  · rw [hd.task] at ht'
    split_ifs at ht' with hj
    · obtain rfl := Option.some.inj ht'
      exact ⟨t, hj ▸ ht, rfl, rfl, rfl, rfl, rfl, by simp [hs]⟩
    · exact ⟨t', ht', .refl t'⟩
  · rw [hd.task]
    split_ifs
    · exact ⟨_, rfl⟩
    · exact ⟨t₁, ht₁⟩

/-- The sweep takes no child from a task that is no zombie. -/
lemma untouched_sweep (hs : Sweep k k') (halive : parentAlive k (some c) = true) :
    Untouched c k k' := by
  cases hs with
  | strip j ht hz hj has =>
    have hstrip := untouched_modifyTask (c := c) (k := k) (i := j) (f := destroyAspace)
      fun t _ => ⟨rfl, rfl, rfl, rfl, rfl, .rfl⟩
    exact hstrip.trans (.of_tasks rfl rfl rfl)
  | @drop i ti hti hz hi has hp =>
    refine ⟨rfl, rfl, fun j t' ht' => ?_, fun j t ht hpar => ⟨t, ?_⟩⟩
    · rw [task_live, task_dropTask] at ht'
      split_ifs at ht'
      exact ⟨t', ht', .refl t'⟩
    · rw [task_live, task_dropTask, if_neg, ht]
      rintro rfl
      obtain rfl := Option.some.inj (ht.symm.trans hti)
      rw [hpar, halive] at hp
      cases hp

lemma untouched_sweeps (hs : Sweeps k k') (halive : parentAlive k (some k.current) = true) :
    Untouched k.current k k' := by
  have hpair : Untouched k.current k k' ∧ Spared k k' := by
    induction hs with
    | refl => exact ⟨.of_tasks rfl rfl rfl, rfl, rfl, rfl⟩
    | @tail k₁ k₂ _ hs ih =>
      have halive₁ : parentAlive k₁ (some k.current) = true := by
        rw [parentAlive, ih.2.task]
        exact halive
      exact ⟨ih.1.trans (untouched_sweep hs halive₁), ih.2.trans hs.spared⟩
  exact hpair.1

/-- Nor does the switch that follows. -/
lemma untouched_schedule (halive : parentAlive k (some k.current) = true) :
    Untouched k.current k (schedule k) := by
  have hsched := schedule_scheduled k
  generalize schedule k = k' at hsched ⊢
  cases hsched with
  | idle hi => exact .of_tasks rfl rfl rfl
  | gone hs hn => exact untouched_sweeps hs halive
  | switched hs hr =>
    exact (untouched_sweeps hs halive).trans
      ((untouched_saveCurrent _).trans (untouched_dispatch hr))
  | parked hs =>
    exact (untouched_sweeps hs halive).trans
      ((untouched_saveCurrent _).trans (.of_tasks rfl rfl rfl))

lemma parentAlive_park {reason : WaitReason} (ht : k.currentTask = some t) :
    parentAlive (park k reason) (some k.current) = true := by
  have hself : (park k reason).task k.current =
      (k.task k.current).map fun t => { t with state := .blocked, waitReason := reason } :=
    task_modifyTask_self
  rw [parentAlive, hself, show k.task k.current = some t from ht]
  rfl

/-! ### A task that does not run -/

/-- A task sleeps or waits for its turn, with given registers and memory. If it was the last one
to run and the CPU is parked, the registers are still on the pile. -/
structure Rests (i : ℕ) (fr : Regs) (m : ℕ → UInt8) (k : Kernel) : Prop where
  task : ∃ t, k.task i = some t ∧ (t.state = .blocked ∨ t.state = .ready) ∧ t.regs = fr ∧ t.mem = m
  pile : k.current = i → k.pile = fr

/-- A task is on the CPU. -/
def OnCpu (i : ℕ) (k : Kernel) : Prop :=
  k.current = i ∧ ∃ t, k.task i = some t ∧ t.state = .running

/-- Something happens to others. -/
lemma Rests.of_other (h : Rests i fr m k) (hcur : k'.current = k.current) (hi : k.current ≠ i)
    (htask : k'.task i = k.task i) : Rests i fr m k' := by
  obtain ⟨t, ht, hrest⟩ := h.task
  exact ⟨⟨t, htask.trans ht, hrest⟩, fun hc => absurd (hcur.symm.trans hc) hi⟩

lemma Rests.calm (h : Rests i fr m k) (hc : Calm k k') : Rests i fr m k' := by
  obtain ⟨t, ht, hs, hregs, hmem⟩ := h.task
  refine ⟨?_, fun hcur => ?_⟩
  · have hd := hc.tasks i
    rw [ht] at hd
    generalize k'.task i = o at hd ⊢
    cases hd with
    | same => exact ⟨t, rfl, hs, hregs, hmem⟩
    | woken t hb => exact ⟨_, rfl, .inr rfl, hregs, hmem⟩
    | pending t sig hb => exact ⟨_, rfl, hs, hregs, hmem⟩
    | destroyed t hz | reaped t hz =>
      rw [hz] at hs
      rcases hs with hs | hs <;> cases hs
  · rw [hc.pile]
    exact h.pile (hc.current.symm.trans hcur)

lemma Rests.calms (h : Rests i fr m k) (hc : Calms k k') : Rests i fr m k' := by
  induction hc with
  | refl => exact h
  | tail _ hc ih => exact ih.calm hc

/-- A signal that wakes a task leaves its registers alone. -/
lemma Rests.cut (h : Rests i fr m k) (j : ℕ) (sig : ℕ) (x : Note) :
    Rests i fr m ((k.note x).modifyTask j (cutTask sig)) := by
  obtain ⟨t, ht, hs, hregs, hmem⟩ := h.task
  refine ⟨?_, h.pile⟩
  rw [task_modifyTask, show (k.note x).task i = some t from ht]
  split_ifs
  · exact ⟨cutTask sig t, rfl, .inr rfl, hregs, hmem⟩
  · exact ⟨t, rfl, hs, hregs, hmem⟩

lemma Rests.press (h : Rests i fr m k) (hp : Press k k') : Rests i fr m k' := by
  rcases hp.calm_or_cut with hc | ⟨j, t, sig, -, -, rfl⟩
  · exact h.calm hc
  · exact h.cut j sig _

lemma Rests.presses (h : Rests i fr m k) (hp : Presses k k') : Rests i fr m k' := by
  induction hp with
  | refl => exact h
  | tail _ hp ih => exact ih.press hp

/-- A task at rest is put on the CPU, or stays at rest. -/
lemma Rests.dispatch (h : Rests i fr m k) {next : ℕ} (hr : k.isReady next) :
    Rests i fr m (dispatch k next) ∨ OnCpu i (dispatch k next) := by
  obtain ⟨t, ht, -⟩ := exists_of_isReady hr
  have hd := dispatch_dispatched ht
  rcases eq_or_ne i next with rfl | hne
  · exact .inr ⟨hd.current, _, (hd.task i).trans (if_pos rfl), rfl⟩
  · obtain ⟨t₁, ht₁, hrest⟩ := h.task
    refine .inl ⟨⟨t₁, ?_, hrest⟩, fun hcur => absurd (hcur.symm.trans hd.current) hne⟩
    rw [hd.task, if_neg hne, ht₁]

lemma Rests.idle (h : Rests i fr m k) (b : Bool) : Rests i fr m { k with idling := b } :=
  ⟨h.task, h.pile⟩

lemma Rests.resume (h : Rests i fr m k) : Rests i fr m (resume k) ∨ OnCpu i (resume k) := by
  have hresumed := resume_resumed k
  generalize Kernel.resume k = k' at hresumed ⊢
  cases hresumed with
  | stays => exact .inl h
  | switched hn => exact (h.idle false).dispatch (isReady_of_findNextReady hn)

/-- A task that does not run while another one does. -/
structure Apart (i : ℕ) (fr : Regs) (m : ℕ → UInt8) (k : Kernel) : Prop where
  rests : Rests i fr m k
  ne : k.current ≠ i

lemma Apart.of_other (h : Apart i fr m k) (hcur : k'.current = k.current)
    (htask : k'.task i = k.task i) : Apart i fr m k' :=
  ⟨h.rests.of_other hcur h.ne htask, hcur.symm ▸ h.ne⟩

lemma Apart.modifyCurrent (h : Apart i fr m k) (f : Task → Task) :
    Apart i fr m (k.modifyCurrent f) :=
  h.of_other rfl (task_modifyTask_of_ne h.ne.symm)

lemma Apart.calms (h : Apart i fr m k) (hc : Calms k k') (hcur : k'.current = k.current) :
    Apart i fr m k' :=
  ⟨h.rests.calms hc, hcur.symm ▸ h.ne⟩

/-- The deeds of another task. -/
lemma Apart.deeds (h : Apart i fr m k) (hd : Deeds k k') : Apart i fr m k' := by
  refine HeldDeeds.invariant (P := Apart i fr m) hd (fun s s' hs h => ?_) h
  obtain ⟨f, k⟩ := s
  obtain ⟨f', k'⟩ := s'
  obtain ⟨-, -, hcur⟩ := HeldEffects.frame hs.effects
  cases hs.kind with
  | calm hc => exact h.calms (.single hc) hcur
  | cut j t sig ht hb => exact ⟨h.rests.cut j sig _, h.ne⟩
  | plain f hf hpile hcur hcalls htasks =>
    refine h.of_other hcur ?_
    rw [Kernel.task, htasks]
    exact task_modifyTask_of_ne (k := k) h.ne.symm
  | spawn image pgid fds =>
    obtain ⟨t, ht, -⟩ := h.rests.task
    exact h.of_other rfl (task_addTask.trans (if_neg (lt_length_of_task ht).ne))

/-- A switch may be one to the task. -/
lemma switches_apart : Switches (fun k k' => Apart i fr m k → Apart i fr m k')
    (fun k k' => Apart i fr m k → Rests i fr m k' ∨ OnCpu i k') where
  refl _ h := h
  trans h h' hk := h' (h hk)
  last h h' hk := h' (h hk)
  weaken h hk := .inl (h hk).rests
  sweep hs h := h.calms (.single hs.calm) hs.spared.current
  save _ h := h.modifyCurrent _
  dispatch hr h := h.rests.dispatch hr
  idle _ b h := ⟨h.rests.idle b, h.ne⟩
  close k fd h := h.deeds (deeds_closeFd k fd)
  bury _ _ h := (h.modifyCurrent _).of_other rfl rfl
  rouse k p h := h.calms (calms_wakeParent k p) (mild_wakeParent k p).current
  condemn _ _ h := h.of_other rfl rfl
  clear _ _ h := h.modifyCurrent _
  checked _ h := h.of_other rfl rfl
  handler _ _ _ h := h.of_other rfl (by rw [task_enterHandler, if_neg h.ne.symm])
  reply _ _ h := h.of_other rfl rfl
  cut k h := h.of_other rfl (task_modifyTask_of_ne (k := k.note _) h.ne.symm)

/-- What a system call of another task makes of a task that does not run. -/
lemma Apart.ends {w : Bool} (h : Apart i fr m k) (he : Ends k w k') :
    Rests i fr m k' ∨ OnCpu i k' := by
  refine switches_apart.ends he (fun hd h => h.deeds hd) (fun hr hb h => ?_)
    (fun _ _ _ _ h => ?_) h
  · exact ((h.deeds (hr.deeds.trans hb.deeds)).modifyCurrent _).of_other rfl rfl
  · refine h.of_other (goBack_goesBack k _).current ?_
    rw [(goBack_goesBack k _).task, if_neg h.ne.symm]

/-- The running task is another one. -/
lemma Rests.ne_current (h : Rests i fr m k) (hr : Rotation (modeOf k) k) (hi : k.idling = false) :
    k.current ≠ i := by
  rintro rfl
  rw [modeOf, if_neg (by simp [hi])] at hr
  obtain ⟨t, ht, hs, -⟩ := hr.current
  obtain ⟨t', ht', hrest, -⟩ := h.task
  obtain rfl := Option.some.inj (ht.symm.trans ht')
  rw [show t.state = .running from hs] at hrest
  rcases hrest with h | h <;> cases h

/-- An event leaves it at rest, or puts it on the CPU. -/
lemma Rests.handled {e : Event} (h : Rests i fr m k) (hr : Rotation (modeOf k) k)
    (hk : k.handled e = some k') : Rests i fr m k' ∨ OnCpu i k' := by
  cases hi : k.idling with
  | true =>
    rw [handled_of_idling hi hk]
    exact (h.presses (presses_pressed k e)).resume
  | false =>
    refine switches_apart.handled hk (fun _ _ h => h.of_other rfl rfl) (fun _ _ h => ?_)
      (fun hp h => ⟨h.rests.press hp, ?_⟩) (fun _ he h => h.ends he) ⟨h, h.ne_current hr hi⟩
    · exact h.of_other rfl (task_modifyTask_of_ne h.ne.symm)
    · rw [hp.mild.current]
      exact h.ne

lemma Rests.leave (h : Rests i fr m k) (hr : Rotation (modeOf k) k) :
    Rests i fr m (leave k) ∨ OnCpu i (leave k) := by
  cases hi : k.idling with
  | true => exact .inl (by rwa [Kernel.leave, if_pos (.inl hi)])
  | false => exact switches_apart.leave k ⟨h, h.ne_current hr hi⟩

/-- There is a task in a slot that sleeps or waits for its turn. -/
def Still (i : ℕ) (k : Kernel) : Prop :=
  ∃ t, k.task i = some t ∧ (t.state = .blocked ∨ t.state = .ready)

lemma OnCpu.not_still (h : OnCpu i k) : ¬Still i k := by
  rintro ⟨t, ht, hs⟩
  obtain ⟨-, t', ht', hrun⟩ := h
  obtain rfl := Option.some.inj (ht.symm.trans ht')
  rw [hrun] at hs
  rcases hs with h | h <;> cases h

lemma Dead.not_still {status : ℕ} (h : Dead k i status m) : ¬Still i k := by
  rintro ⟨t, ht, hs⟩
  obtain ⟨t', ht', hz, -⟩ := h
  obtain rfl := Option.some.inj (ht.symm.trans ht')
  rw [hz] at hs
  rcases hs with h | h <;> cases h

/-- A task that is on the CPU stays there, or exits. -/
lemma OnCpu.checkSignals (h : OnCpu i k) : ¬Still i (checkSignals k) := by
  obtain ⟨rfl, t, ht, hrun⟩ := id h
  have hchecked := checkSignals_checked k
  generalize Kernel.checkSignals k = k' at hchecked ⊢
  cases hchecked with
  | stays => exact h.not_still
  | @killed t₀ sig =>
    have hclear : ((k.modifyCurrent fun t => clearPending t sig).live
        (.condemned k.current sig)).currentTask = some (clearPending t sig) :=
      (task_modifyTask_self (k := k)).trans (congrArg _ ht)
    exact (taskExit_dead hclear _).1.not_still
  | unfit => exact (taskExit_dead (k := k.live _) ht _).1.not_still
  | enters =>
    refine OnCpu.not_still ⟨rfl, ?_⟩
    rw [task_enterHandler, if_pos rfl, ht]
    exact ⟨_, rfl, hrun⟩

lemma OnCpu.leave (h : OnCpu i k) : ¬Still i (leave k) := by
  rw [Kernel.leave]
  exact iteInduction (motive := fun x => ¬Still i x) (fun _ => h.not_still)
    fun _ => OnCpu.checkSignals (k := { k with checkDue := false }) h

lemma rotation_handled {e : Event} (hr : Rotation (modeOf k) k) (hk : k.handled e = some k') :
    Rotation (modeOf k') k' := by
  rw [← mode_stageOf] at hr ⊢
  exact Moves.invariant (I := fun s => Rotation s.1 s.2)
    (Actions.moves (handled_leads (C := fun _ => True) hk)) (fun _ _ hm h => h.turn hm.turn) hr

/-- **A task that does not run keeps its registers and its memory.** -/
theorem Rests.step {e : Event} (h : Rests i fr m k) (hr : Rotation (modeOf k) k)
    (hk : k.step e = some k') (hstill : Still i k') : Rests i fr m k' := by
  obtain ⟨k₁, h₁, rfl⟩ := Option.map_eq_some_iff.mp hk
  rcases h.handled hr h₁ with hrest | hcpu
  · exact (hrest.leave (rotation_handled hr h₁)).resolve_right fun hcpu => hcpu.not_still hstill
  · exact absurd hstill hcpu.leave

/-! ### Falling asleep -/

/-- The task in a slot, if there is one, does not sleep. -/
def Up (i : ℕ) (k : Kernel) : Prop := ∀ t, k.task i = some t → t.state ≠ .blocked

lemma Up.of_states (h : Up i k)
    (hstate : ∀ t', k'.task i = some t' → ∃ t, k.task i = some t ∧ t'.state = t.state) :
    Up i k' := by
  intro t' ht'
  obtain ⟨t, ht, hs⟩ := hstate t' ht'
  rw [hs]
  exact h t ht

lemma Up.modifyTask (h : Up i k) (j : ℕ) {f : Task → Task}
    (hf : ∀ t, t.state ≠ .blocked → (f t).state ≠ .blocked) : Up i (k.modifyTask j f) := by
  intro t' ht'
  rw [task_modifyTask] at ht'
  obtain ⟨t, ht, ⟨-, rfl⟩ | rfl⟩ := task_of_ite ht'
  · exact hf t (h t ht)
  · exact h t' ht

lemma Up.calm (h : Up i k) (hc : Calm k k') : Up i k' := by
  intro t' ht'
  obtain ⟨t, ht, hd⟩ := hc.drift ht'
  cases hd with
  | same => exact h _ ht
  | woken t hb => exact absurd hb (h t ht)
  | pending t sig hb => exact hb
  | destroyed t hz => exact h t ht

lemma Up.calms (h : Up i k) (hc : Calms k k') : Up i k' := by
  induction hc with
  | refl => exact h
  | tail _ hc ih => exact ih.calm hc

/-- No deed puts a task to sleep. -/
lemma Up.kind (h : Up i k) (hd : Deed.Kind k k') : Up i k' := by
  cases hd with
  | calm hc => exact h.calm hc
  | cut j t sig ht hb =>
    exact Up.modifyTask (k := k.note _) h j fun _ _ => by simp [cutTask, wakeTask]
  | plain f hf hpile hcur hcalls htasks =>
    have hmodify := h.modifyTask k.current (f := f) fun t hs => by rwa [(hf t).state]
    refine hmodify.of_states fun t' ht' => ⟨t', ?_, rfl⟩
    rwa [task, htasks] at ht'
  | spawn image pgid fds =>
    intro t' ht'
    rw [task_live, task_addTask] at ht'
    split_ifs at ht'
    · obtain rfl := Option.some.inj ht'
      simp [freshTask]
    · exact h t' ht'

lemma Up.deeds (h : Up i k) (hd : Deeds k k') : Up i k' :=
  HeldDeeds.invariant (P := Up i) hd (fun _ _ hd h => h.kind hd.kind) h

lemma Up.saveCurrent (h : Up i k) : Up i (saveCurrent k) := by
  refine h.modifyTask k.current fun t hs => ?_
  dsimp only
  split_ifs
  · simp
  · exact hs

lemma Up.dispatch (h : Up i k) {next : ℕ} (hr : k.isReady next) : Up i (dispatch k next) := by
  obtain ⟨t, ht, -⟩ := exists_of_isReady hr
  intro t' ht'
  rw [(dispatch_dispatched ht).task] at ht'
  split_ifs at ht'
  · obtain rfl := Option.some.inj ht'
    simp
  · exact h t' ht'

lemma switches_up : Switches (fun k k' => Up i k → Up i k') (fun k k' => Up i k → Up i k') where
  refl _ h := h
  trans h h' hk := h' (h hk)
  last h h' hk := h' (h hk)
  weaken h := h
  sweep hs h := h.calm hs.calm
  save _ h := h.saveCurrent
  dispatch hr h := h.dispatch hr
  idle _ _ h := h
  close k fd h := h.deeds (deeds_closeFd k fd)
  bury k _ h := h.modifyTask k.current fun _ _ => by simp
  rouse k p h := h.calms (calms_wakeParent k p)
  condemn _ _ h := h
  clear k _ h := h.modifyTask k.current fun _ hs => hs
  checked _ h := h
  handler k t sig h := by
    refine h.of_states fun t' ht' => ?_
    rw [task_enterHandler] at ht'
    obtain ⟨t, ht, ⟨-, rfl⟩ | rfl⟩ := task_of_ite ht'
    · exact ⟨t, ht, rfl⟩
    · exact ⟨t', ht, rfl⟩
  reply _ _ h := h
  cut k h := Up.modifyTask (k := k.note _) h _ fun _ hs => hs

/-- Only a call that has to wait makes a task fall asleep, and only its own. -/
lemma Up.ends {w : Bool} (h : Up i k) (he : Ends k w k') :
    Up i k' ∨ k.current = i ∧ ∃ k₁ reason kb, Reads k k₁ ∧ Blocks k₁ reason kb ∧
      k' = Kernel.schedule (park { k₁ with keyboard := kb } reason) := by
  have hback : ∀ t, Up i k → Up i (goBack k t) := by
    refine fun t h => h.of_states fun t' ht' => ?_
    rw [(goBack_goesBack k _).task] at ht'
    obtain ⟨t, ht, ⟨-, rfl⟩ | rfl⟩ := task_of_ite ht'
    · exact ⟨t, ht, rfl⟩
    · exact ⟨t', ht, rfl⟩
  obtain hup | ⟨k₁, reason, kb, hr, hb, rfl⟩ :=
    switches_up.ends_or_parked he (fun hd h => h.deeds hd) fun _ _ _ _ => hback _
  · exact .inl (hup h)
  obtain ⟨-, -, hcur⟩ := Effects.frame hr.deeds.effects
  rcases eq_or_ne k.current i with hi | hi
  · exact .inr ⟨hi, k₁, reason, kb, hr, hb, rfl⟩
  · have hd := h.deeds (hr.deeds.trans hb.deeds)
    refine .inl (switches_up.schedule _ (hd.of_states fun t' ht' => ⟨t', ?_, rfl⟩))
    rw [← ht']
    exact (task_modifyTask_of_ne (k := { k₁ with keyboard := kb }) (hcur ▸ hi.symm)).symm

/-- A task falls asleep in a system call of its own. -/
lemma Up.handled {e : Event} (h : Up i k) (hk : k.handled e = some k') (hb : ¬Up i k') :
    k.current = i ∧ ∃ a, e = .syscall a := by
  by_contra hno
  refine hb (switches_up.handled hk (fun _ _ h => h) (fun _ _ h => ?_) (fun hp h => ?_)
    (fun {a w k₁} he hends h => ?_) h)
  · exact Up.modifyTask (k := k.setPile _) h k.current fun _ hs => hs
  · exact h.kind hp.kind
  · exact (h.ends hends).resolve_right fun hcur => hno ⟨hcur.1, a, he⟩

/-- A task that falls asleep is left with the registers of its call. -/
lemma rests_park (reason : WaitReason) (ht : k.currentTask = some t) (hi : k.idling = false) :
    Rests k.current { k.pile with rip := k.pile.rip - intInstrLen } t.mem
      (schedule (park k reason)) := by
  have hself : (park k reason).task k.current =
      some { t with state := .blocked, waitReason := reason } :=
    task_modifyTask_self.trans (congrArg _ ht)
  have hcur : (park k reason).current = k.current := rfl
  have hidle : (park k reason).idling = false := hi
  have hpile : (park k reason).pile = { k.pile with rip := k.pile.rip - intInstrLen } := rfl
  have hsched := schedule_scheduled (park k reason)
  rw [← hpile]
  generalize park k reason = k₀ at *
  -- the sweep spares the task, and then its registers are saved
  have hsaved : ∀ k₁, Sweeps k₀ k₁ →
      (saveCurrent k₁).current = k.current ∧ (saveCurrent k₁).pile = k₀.pile ∧
        ∃ t', (saveCurrent k₁).task k.current = some t' ∧ t'.state = .blocked ∧
          t'.regs = k₀.pile ∧ t'.mem = t.mem := by
    intro k₁ hs
    have hcur₁ : k₁.current = k.current := hs.spared.current.trans hcur
    refine ⟨hcur₁, hs.calms.pile,
      savedTask k₁.pile { t with state := .blocked, waitReason := reason },
      ?_, rfl, hs.calms.pile, rfl⟩
    rw [task_saveCurrent, if_pos hcur₁.symm, ← hcur, hs.spared.task, hcur, hself, Option.map_some]
  generalize schedule k₀ = k' at hsched ⊢
  cases hsched with
  | idle hi' =>
    rw [hidle] at hi'
    cases hi'
  | gone hs hn =>
    rw [currentTask, hs.spared.current, hs.spared.task, hcur, hself] at hn
    cases hn
  | @switched k₁ next hs hr =>
    obtain ⟨-, -, t', ht', hb, hregs, hmem⟩ := hsaved k₁ hs
    obtain ⟨t₁, ht₁, hready⟩ := exists_of_isReady hr
    have hd := dispatch_dispatched ht₁
    have hne : k.current ≠ next := by
      rintro rfl
      obtain rfl := Option.some.inj (ht'.symm.trans ht₁)
      rw [hb] at hready
      cases hready
    refine ⟨⟨t', ?_, .inl hb, hregs, hmem⟩, fun hc => absurd (hc.symm.trans hd.current) hne⟩
    rw [hd.task, if_neg hne, ht']
  | @parked k₁ hs =>
    obtain ⟨-, hpile₁, t', ht', hb, hregs, hmem⟩ := hsaved k₁ hs
    exact ⟨⟨t', ht', .inl hb, hregs, hmem⟩, fun _ => hpile₁⟩

/-- What is left behind if the running task is put to sleep and nothing has happened before. -/
lemma parked_attempt {reason : WaitReason} (ht : k.currentTask = some t) (hrun : t.state = .running)
    (hi : k.idling = false) (htasks : k₁.tasks = k.tasks) (hcur : k₁.current = k.current)
    (hpipes : k₁.pipes = k.pipes) (hkb : k₁.keyboard = k.keyboard) (hidle : k₁.idling = k.idling)
    (hissued : k₁.pile.issued = k.pile.cpu) :
    Untouched k.current k (schedule (park k₁ reason)) ∧
      ∃ fr, fr.cpu = k.pile.cpu ∧ Rests k.current fr t.mem (schedule (park k₁ reason)) := by
  have ht₁ : k₁.currentTask = some t := by
    rw [currentTask, task, htasks, hcur]
    exact ht
  rw [← hcur]
  refine ⟨?_, { k₁.pile with rip := k₁.pile.rip - intInstrLen }, hissued,
    rests_park reason ht₁ (hidle.trans hi)⟩
  exact ((Untouched.of_tasks hpipes hkb htasks).trans (untouched_park reason ht₁ hrun)).trans
    (untouched_schedule (parentAlive_park ht₁))

/-- What a system call that puts its task to sleep leaves behind. -/
lemma asleep_of_handled {a : Answers} (hr : Rotation (modeOf k) k) (hc : Counted (modeOf k) k)
    (hkeys : KeysReal k.keyboard) (hk : k.handled (.syscall a) = some k')
    (hb : ¬Up k.current k') :
    AtInt k.mem k.pile.rip ∧ Untouched k.current k k' ∧
      ∃ fr, fr.cpu = k.pile.cpu ∧ Rests k.current fr k.mem k' := by
  obtain ⟨⟨hi, hat⟩, rfl⟩ := guarded hk
  have hi : k.idling = false := by simpa using hi
  rw [modeOf, if_neg (by simp [hi])] at hr hc
  obtain ⟨t, ht, hrun, -⟩ := hr.current
  have hrun : t.state = .running := hrun
  have hmem : k.mem = t.mem := by rw [mem, ht]; rfl
  have hup : Up k.current (k.enter 0x50 (k.pile.rip + intInstrLen)) := by
    intro t' ht'
    obtain rfl := Option.some.inj (ht.symm.trans ht')
    simp [hrun]
  obtain ⟨-, k₁, reason, kb, ⟨spans, -, rfl⟩, hblocks, heq⟩ :=
    (hup.ends (syscallBody_ends _ a)).resolve_left hb
  -- the keyboard is as it was, because there was nothing in the ring
  obtain rfl : kb = k.keyboard :=
    (hblocks.stuck (t := t) hkeys ⟨hc.ends, hc.zombies⟩ ht _ rfl rfl).1
  rw [heq]
  exact ⟨hat, hmem ▸ parked_attempt ht hrun hi rfl rfl rfl rfl rfl (issued_enter k 0x50)⟩

/-! ### Runs -/

/-- In a run, a task sleeps, or has been woken and has not run yet, since it entered the kernel
with a system call. -/
inductive Sleeping (image : Image) (r : Regs) (i : ℕ) : List Event → Kernel → Kernel → Prop
  /-- The call has put it to sleep. -/
  | fell {es : List Event} {a : Answers} {k₀ k₁ : Kernel}
      (hrun : Runs.exec step (boot image r) es = some k₀) (hcur : k₀.current = i)
      (hk : k₀.handled (.syscall a) = some k₁) (hb : ∃ t, k₁.task i = some t ∧ t.state = .blocked)
      (hstill : Still i (leave k₁)) : Sleeping image r i (es ++ [.syscall a]) k₀ (leave k₁)
  /-- It has not run since. -/
  | goesOn {es : List Event} {e : Event} {k₀ k k' : Kernel} (h : Sleeping image r i es k₀ k)
      (hk : k.step e = some k') (hstill : Still i k') : Sleeping image r i (es ++ [e]) k₀ k'

variable {image : Image} {r : Regs} {es : List Event} {k₀ : Kernel}

lemma Sleeping.run (h : Sleeping image r i es k₀ k) :
    Runs.exec step (boot image r) es = some k := by
  induction h with
  | fell hrun hcur hk hb hstill =>
    rw [exec_concat, hrun]
    exact congrArg (Option.map leave) hk
  | goesOn _ hk hstill ih =>
    rw [exec_concat, ih]
    exact hk

/-- The call a task sleeps in is armed: whoever puts the task on the CPU makes it issue the call it
entered with. All registers of the CPU are as they were, the instruction pointer, the number
of the call and its arguments among them, and so is the memory. -/
structure Armed (i : ℕ) (k₀ k : Kernel) (t : Task) : Prop where
  regs : t.regs.cpu = k₀.pile.cpu
  mem : t.mem = k₀.mem
  call : AtInt t.mem t.regs.rip
  dispatched : (dispatch k i).pile.cpu = k₀.pile.cpu
  issued : AtInt (dispatch k i).mem (dispatch k i).pile.rip

lemma armed_of_rests (hfr : fr.cpu = k₀.pile.cpu) (hat : AtInt k₀.mem k₀.pile.rip)
    (h : Rests i fr k₀.mem k) : ∃ t, k.task i = some t ∧ Armed i k₀ k t := by
  obtain ⟨t, ht, -, hregs, hmem⟩ := h.task
  have hrip : fr.rip = k₀.pile.rip := by
    change fr.cpu.rip = k₀.pile.cpu.rip
    rw [hfr]
  have hd := dispatch_dispatched ht
  have hpile : (dispatch k i).pile = fr := by
    rw [hd.pile]
    split_ifs with hc
    · exact h.pile hc.symm
    · exact hregs
  have hmem' : (dispatch k i).mem = k₀.mem := by
    rw [Kernel.mem, currentTask, hd.current, hd.task, if_pos rfl]
    exact hmem
  refine ⟨t, ht, ?_, hmem, ?_, ?_, ?_⟩
  · rw [hregs, hfr]
  · rw [hmem, hregs, hrip]
    exact hat
  · rw [hpile, hfr]
  · rw [hmem', hpile, hrip]
    exact hat

/-- A sleeping task stands before its call. -/
lemma Sleeping.rests (h : Sleeping image r i es k₀ k) :
    AtInt k₀.mem k₀.pile.rip ∧ ∃ fr, fr.cpu = k₀.pile.cpu ∧ Rests i fr k₀.mem k := by
  induction h with
  | @fell es a k₀ k₁ hrun hcur hk hb hstill =>
    obtain ⟨hr, hc, hw⟩ := run_wakeful hrun
    obtain ⟨t, ht, hb⟩ := hb
    subst hcur
    obtain ⟨hat, -, fr, hfr, hrests⟩ := asleep_of_handled hr hc hw.keys hk fun hup => hup t ht hb
    have hr₁ : Rotation (modeOf k₁) k₁ := rotation_handled hr hk
    refine ⟨hat, fr, hfr, ?_⟩
    exact (hrests.leave hr₁).resolve_right fun hcpu => hcpu.not_still hstill
  | goesOn h hk hstill ih =>
    obtain ⟨hat, fr, hfr, hrests⟩ := ih
    exact ⟨hat, fr, hfr, hrests.step (run_wakeful h.run).1 hk hstill⟩

/-- Whoever sleeps has been put to sleep by a system call of its own, and has not run since. -/
lemma sleeping_of_blocked (hrun : Runs.exec step (boot image r) es = some k)
    (ht : k.task i = some t) (hb : t.state = .blocked) : ∃ k₀, Sleeping image r i es k₀ k := by
  induction es using List.reverseRecOn generalizing k t with
  | nil =>
    obtain rfl := Option.some.inj hrun
    obtain rfl : i = 0 := Nat.lt_one_iff.mp (lt_length_of_task ht)
    obtain rfl := Option.some.inj ht
    cases hb
  | append_singleton es e ih =>
    rw [exec_concat, Option.bind_eq_some_iff] at hrun
    obtain ⟨k₁, hrun, hstep⟩ := hrun
    have hstill : Still i k := ⟨t, ht, .inl hb⟩
    by_cases hup : Up i k₁
    · -- it was awake before this step
      obtain ⟨k₂, hk₂, rfl⟩ := Option.map_eq_some_iff.mp hstep
      have hasleep : ¬Up i k₂ := fun h => switches_up.leave _ h t ht hb
      obtain ⟨hcur, a, rfl⟩ := hup.handled hk₂ hasleep
      rw [Up] at hasleep
      push Not at hasleep
      exact ⟨k₁, .fell hrun hcur hk₂ hasleep hstill⟩
    · rw [Up] at hup
      push Not at hup
      obtain ⟨t₁, ht₁, hb₁⟩ := hup
      obtain ⟨k₀, h⟩ := ih hrun ht₁ hb₁
      exact ⟨k₀, h.goesOn hstep hstill⟩

/-- **Calls are issued again.** In every reachable state, for every interleaving: a task that
sleeps has been put to sleep by its last system call; as long as it sleeps, and after it is
woken until it runs, it is armed with that call. And a system call that puts its task to
sleep has changed no pipe, key, descriptor, child or user memory. -/
theorem blocked_calls_reissued (hrun : Runs.exec step (boot image r) es = some k) :
    (∀ i t, k.task i = some t → t.state = .blocked → ∃ k₀, Sleeping image r i es k₀ k) ∧
      (∀ i k₀, Sleeping image r i es k₀ k → ∃ t, k.task i = some t ∧ Armed i k₀ k t) ∧
      ∀ a k' t, k.handled (.syscall a) = some k' → k'.task k.current = some t →
        t.state = .blocked → Untouched k.current k k' := by
  refine ⟨fun i t ht hb => sleeping_of_blocked hrun ht hb, fun i k₀ h => ?_, ?_⟩
  · obtain ⟨hat, fr, hfr, hrests⟩ := h.rests
    exact armed_of_rests hfr hat hrests
  · intro a k' t hk ht hb
    obtain ⟨hr, hc, hw⟩ := run_wakeful hrun
    exact (asleep_of_handled hr hc hw.keys hk fun hup => hup t ht hb).2.1

end Kernel

/-- A program waits for its child. -/
theorem blocked_calls_reissued_childRun :
    ∃ k t k₀, Runs.exec Kernel.step (boot intImage {}) (childRun.take 4) = some k ∧
      k.task 0 = some t ∧ t.state = .blocked ∧
      Kernel.Sleeping intImage {} 0 (childRun.take 4) k₀ k ∧ Kernel.Armed 0 k₀ k t := by
  have hrun : (Runs.exec Kernel.step (boot intImage {}) (childRun.take 4)).any (fun k =>
      (k.task 0).any fun t => t.state = .blocked) = true := by
    decide +kernel
  obtain ⟨k, hk, h⟩ := Option.any_eq_true _ _ |>.mp hrun
  obtain ⟨t, ht, h⟩ := Option.any_eq_true _ _ |>.mp h
  have hb := of_decide_eq_true h
  obtain ⟨hasleep, harmed, -⟩ := Kernel.blocked_calls_reissued hk
  obtain ⟨k₀, hs⟩ := hasleep 0 t ht hb
  obtain ⟨t', ht', ha⟩ := harmed 0 k₀ hs
  obtain rfl := Option.some.inj (ht.symm.trans ht')
  exact ⟨k, t, k₀, hk, ht, hb, hs, ha⟩

end TownOS
