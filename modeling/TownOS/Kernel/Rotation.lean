import TownOS.Kernel.Moves

/-!
The rotation of the scheduler (`kernel/scheduler.c`).

For the rotation most moves are alike: every task keeps its state, or a sleeping one wakes
up (`Mild`), or the running task changes in other respects (`Aimed`). What is left are the
moves by which tasks come and go and by which the CPU passes from one to the next (`Turn`).
The invariant says, for every mode, how the current task stands.

* `Move.turn`: every move is a turn;
* `Rotation.turn`: the turns keep the invariant;
* `Buried.turn`: a zombie stays one until it is freed.
-/

namespace TownOS

namespace Kernel

open Relation Runs

variable {k k' k₁ : Kernel} {m m' : Mode}

/-! ### Turns -/

/-- A task keeps its place, or wakes up. One that goes on sleeping is left alone. -/
structure Kin (t t' : Task) : Prop where
  id : t'.id = t.id
  parentId : t'.parentId = t.parentId
  exitStatus : t'.exitStatus = t.exitStatus
  aspace : t'.aspace = t.aspace
  cr3 : t'.cr3 = t.cr3
  fds : t'.fds = t.fds
  state : t' = t ∨ (t.state ≠ .blocked ∧ t'.state = t.state ∧ t'.waitReason = t.waitReason) ∨
    (t.state = .blocked ∧ t'.state = .ready ∧ t'.waitReason = .none)

lemma Kin.refl (t : Task) : Kin t t := ⟨rfl, rfl, rfl, rfl, rfl, rfl, .inl rfl⟩

lemma Kin.trans {t t₁ t' : Task} (h : Kin t t₁) (h' : Kin t₁ t') : Kin t t' := by
  refine ⟨h'.id.trans h.id, h'.parentId.trans h.parentId, h'.exitStatus.trans h.exitStatus,
    h'.aspace.trans h.aspace, h'.cr3.trans h.cr3, h'.fds.trans h.fds, ?_⟩
  rcases h.state with rfl | ⟨hb, hs, hw⟩ | ⟨hb, hs, hw⟩
  · exact h'.state
  · rcases h'.state with rfl | ⟨-, hs', hw'⟩ | ⟨hb', -⟩
    · exact .inr (.inl ⟨hb, hs, hw⟩)
    · exact .inr (.inl ⟨hb, hs'.trans hs, hw'.trans hw⟩)
    · exact absurd (hs ▸ hb') hb
  · rcases h'.state with rfl | ⟨-, hs', hw'⟩ | ⟨hb', -⟩
    · exact .inr (.inr ⟨hb, hs, hw⟩)
    · exact .inr (.inr ⟨hb, hs'.trans hs, hw'.trans hw⟩)
    · rw [hs] at hb'
      cases hb'

lemma kin_wakeTask {t : Task} (hb : t.state = .blocked) : Kin t (wakeTask t) :=
  ⟨rfl, rfl, rfl, rfl, rfl, rfl, .inr (.inr ⟨hb, rfl, rfl⟩)⟩

/-- Nobody dies of it. -/
lemma Kin.zombie_iff {t t' : Task} (h : Kin t t') : t'.state = .zombie ↔ t.state = .zombie := by
  rcases h.state with rfl | ⟨-, hs, -⟩ | ⟨hb, hs, -⟩
  · rfl
  · rw [hs]
  · simp [hb, hs]

lemma Kin.running_iff {t t' : Task} (h : Kin t t') : t'.state = .running ↔ t.state = .running := by
  rcases h.state with rfl | ⟨-, hs, -⟩ | ⟨hb, hs, -⟩
  · rfl
  · rw [hs]
  · simp [hb, hs]

/-- Nobody falls asleep. -/
lemma Kin.eq_of_blocked {t t' : Task} (h : Kin t t') (hb : t'.state = .blocked) : t' = t := by
  rcases h.state with rfl | ⟨hne, hs, -⟩ | ⟨-, hs, -⟩
  · rfl
  · exact absurd (hs ▸ hb) hne
  · rw [hs] at hb
    cases hb

/-- All tasks keep their places, or wake up. -/
structure Mild (k k' : Kernel) : Prop where
  current : k'.current = k.current
  cr3 : k'.cr3 = k.cr3
  loaded : k'.loaded = k.loaded
  lives : k'.lives = k.lives
  length : k'.tasks.length = k.tasks.length
  tasks : ∀ i, Option.Rel Kin (k.task i) (k'.task i)

lemma Mild.trans (h : Mild k k₁) (h' : Mild k₁ k') : Mild k k' := by
  refine ⟨h'.current.trans h.current, h'.cr3.trans h.cr3, h'.loaded.trans h.loaded,
    h'.lives.trans h.lives, h'.length.trans h.length, fun i => ?_⟩
  have hi := h.tasks i
  have hi' := h'.tasks i
  generalize k.task i = o, k₁.task i = o₁, k'.task i = o' at hi hi'
  cases hi with
  | none => exact hi'
  | some hk =>
    cases hi' with
    | some hk' => exact .some (hk.trans hk')

/-- Where a task comes from. -/
lemma Mild.kin {i : ℕ} {t' : Task} (h : Mild k k') (ht' : k'.task i = some t') :
    ∃ t, k.task i = some t ∧ Kin t t' := by
  have hi := h.tasks i
  rw [ht'] at hi
  generalize ho : k.task i = o at hi
  cases hi with
  | some hk => exact ⟨_, rfl, hk⟩

/-- What becomes of a task. -/
lemma Mild.kin' {i : ℕ} {t : Task} (h : Mild k k') (ht : k.task i = some t) :
    ∃ t', k'.task i = some t' ∧ Kin t t' := by
  have hi := h.tasks i
  rw [ht] at hi
  generalize ho : k'.task i = o at hi
  cases hi with
  | some hk => exact ⟨_, rfl, hk⟩

lemma rel_kin_refl (o : Option Task) : Option.Rel Kin o o := by
  cases o with
  | none => exact .none
  | some t => exact .some (.refl t)

lemma Mild.refl (k : Kernel) : Mild k k := ⟨rfl, rfl, rfl, rfl, rfl, fun _ => rel_kin_refl _⟩

/-- What is not about the tasks may change under a mild change. -/
lemma Mild.of_tasks {k₀ : Kernel} (h : Mild k₀ k') (htasks : k₀.tasks = k.tasks)
    (hcur : k₀.current = k.current) (hcr3 : k₀.cr3 = k.cr3) (hload : k₀.loaded = k.loaded)
    (hlives : k₀.lives = k.lives) : Mild k k' := by
  refine ⟨h.current.trans hcur, h.cr3.trans hcr3, h.loaded.trans hload, h.lives.trans hlives,
    h.length.trans (by rw [htasks]), fun i => ?_⟩
  have hi := h.tasks i
  rwa [show k₀.task i = k.task i by rw [task, htasks, task]] at hi

lemma mild_modifyTask {i : ℕ} {f : Task → Task} (hf : ∀ t, k.task i = some t → Kin t (f t)) :
    Mild k (k.modifyTask i f) := by
  refine ⟨rfl, rfl, rfl, rfl, List.length_modify .., fun j => ?_⟩
  rw [task_modifyTask]
  split_ifs with hj
  · subst hj
    cases ht : k.task j with
    | none => exact .none
    | some t => exact .some (hf t ht)
  · exact rel_kin_refl _

/-- `scheduler_wake` wakes up, and nothing more. -/
lemma mild_schedulerWake (k : Kernel) (reason : WaitReason) : Mild k (schedulerWake k reason) := by
  refine ⟨rfl, rfl, rfl, rfl, List.length_map .., fun i => ?_⟩
  rw [task_schedulerWake]
  cases k.task i with
  | none => exact .none
  | some t =>
    rw [Option.map_some]
    split_ifs with hb
    · exact .some (kin_wakeTask hb.1)
    · exact .some (.refl t)

lemma mild_countEnd (k : Kernel) (f : File) : Mild k (countEnd k f) := by
  rw [countEnd]
  cases f.kind <;> exact (Mild.refl _).of_tasks rfl rfl rfl rfl rfl

lemma mild_fileClose (k : Kernel) (f : File) : Mild k (fileClose k f) :=
  fileClose_rel Mild.refl (fun _ _ _ => Mild.trans)
    (fun _ _ _ => (Mild.refl _).of_tasks rfl rfl rfl rfl rfl) mild_schedulerWake k f

lemma mild_wakeParent (k : Kernel) (p : Option ℕ) : Mild k (wakeParent k p) := by
  cases p with
  | none => exact (Mild.refl _).of_tasks rfl rfl rfl rfl rfl
  | some p =>
    rw [wakeParent]
    refine iteInduction (fun _ => mild_modifyTask fun t _ => ?_) fun _ =>
      (Mild.refl _).of_tasks rfl rfl rfl rfl rfl
    split_ifs with hb
    · exact kin_wakeTask hb.1
    · exact .refl t

lemma Press.mild (hp : Press k k') : Mild k k' := by
  cases hp with
  | typed c hc =>
    exact (mild_schedulerWake _ _).of_tasks rfl rfl rfl rfl rfl
  | ended => exact (mild_schedulerWake _ _).of_tasks rfl rfl rfl rfl rfl
  | modifiers kb hring heof => exact (Mild.refl _).of_tasks rfl rfl rfl rfl rfl
  | raise id sig =>
    have hsame : Mild k k := (Mild.refl _).of_tasks rfl rfl rfl rfl rfl
    rw [signalRaise]
    refine iteInduction (fun _ => hsame) fun _ => ?_
    cases ht : k.task id with
    | none => exact hsame
    | some t =>
      refine iteInduction (fun _ => hsame) fun _ => iteInduction (fun hb => ?_) fun hb => ?_
      · have hnote : Mild k (k.note (.cut id t.regs.cpu)) :=
          (Mild.refl _).of_tasks rfl rfl rfl rfl rfl
        refine hnote.trans (mild_modifyTask fun t' ht' => ?_)
        obtain rfl := Option.some.inj (ht.symm.trans ht')
        exact ⟨rfl, rfl, rfl, rfl, rfl, rfl, .inr (.inr ⟨hb, rfl, rfl⟩)⟩
      · refine mild_modifyTask fun t' ht' => ?_
        obtain rfl := Option.some.inj (ht.symm.trans ht')
        exact ⟨rfl, rfl, rfl, rfl, rfl, rfl, .inr (.inl ⟨hb, rfl, rfl⟩)⟩

/-- A change of the running task outside its place in the rotation. -/
structure Same (t t' : Task) : Prop where
  id : t'.id = t.id
  parentId : t'.parentId = t.parentId
  exitStatus : t'.exitStatus = t.exitStatus
  aspace : t'.aspace = t.aspace
  cr3 : t'.cr3 = t.cr3
  state : t'.state = t.state
  waitReason : t'.waitReason = t.waitReason

lemma Own.same {t t' : Task} (h : Own t t') : Same t t' :=
  ⟨h.id, h.parentId, h.exitStatus, h.aspace, h.cr3, h.state, h.waitReason⟩

/-- Of the tasks only the running one changes, and not its place in the rotation. -/
structure Aimed (k k' : Kernel) : Prop where
  current : k'.current = k.current
  cr3 : k'.cr3 = k.cr3
  loaded : k'.loaded = k.loaded
  lives : k'.lives = k.lives
  length : k'.tasks.length = k.tasks.length
  others : ∀ i, i ≠ k.current → k'.task i = k.task i
  self : Option.Rel Same k.currentTask k'.currentTask

lemma aimed_modifyCurrent {f : Task → Task} (hf : ∀ t, Same t (f t)) :
    Aimed k (k.modifyCurrent f) := by
  refine ⟨rfl, rfl, rfl, rfl, List.length_modify .., fun i hi => task_modifyTask_of_ne hi, ?_⟩
  have hself : (k.modifyCurrent f).currentTask = k.currentTask.map f := task_modifyTask_self
  rw [hself]
  cases k.currentTask with
  | none => exact .none
  | some t => exact .some (hf t)

lemma Aimed.trans (h : Aimed k k₁) (h' : Aimed k₁ k') : Aimed k k' := by
  refine ⟨h'.current.trans h.current, h'.cr3.trans h.cr3, h'.loaded.trans h.loaded,
    h'.lives.trans h.lives, h'.length.trans h.length,
    fun i hi => (h'.others i (h.current ▸ hi)).trans (h.others i hi), ?_⟩
  have hs := h.self
  have hs' := h'.self
  generalize k.currentTask = o, k₁.currentTask = o₁, k'.currentTask = o' at hs hs'
  cases hs with
  | none => exact hs'
  | some hk =>
    cases hs' with
    | some hk' =>
      exact .some ⟨hk'.id.trans hk.id, hk'.parentId.trans hk.parentId,
        hk'.exitStatus.trans hk.exitStatus, hk'.aspace.trans hk.aspace, hk'.cr3.trans hk.cr3,
        hk'.state.trans hk.state, hk'.waitReason.trans hk.waitReason⟩

/-- What is not about the tasks may change as well. -/
lemma Aimed.of_tasks {k₀ : Kernel} (h : Aimed k₀ k') (htasks : k₀.tasks = k.tasks)
    (hcur : k₀.current = k.current) (hcr3 : k₀.cr3 = k.cr3) (hload : k₀.loaded = k.loaded)
    (hlives : k₀.lives = k.lives) : Aimed k k' := by
  have htask : ∀ i, k₀.task i = k.task i := fun i => by rw [task, htasks, task]
  have hself : k₀.currentTask = k.currentTask := by rw [currentTask, htask, hcur, currentTask]
  exact ⟨h.current.trans hcur, h.cr3.trans hcr3, h.loaded.trans hload, h.lives.trans hlives,
    h.length.trans (by rw [htasks]), fun i hi => (h.others i (hcur ▸ hi)).trans (htask i),
    hself ▸ h.self⟩

/-- The changes of mode by mild moves. -/
inductive Mode.Passes : Mode → Mode → Prop
  | busy (h h' : Multiset File) : Passes (.busy h) (.busy h')
  | told : Passes .dying .leaving
  | rest : Passes .saved .idle
  | stir : Passes .idle .saved
  | idle : Passes .idle .idle

/-- What the kernel does to the rotation. -/
inductive Turn : Mode × Kernel → Mode × Kernel → Prop
  | mild {m m' : Mode} {k k' : Kernel} (hm : m.Passes m') (hk : Mild k k') : Turn (m, k) (m', k')
  | own {h h' : Multiset File} {k k' : Kernel} (hk : Aimed k k') : Turn (.busy h, k) (.busy h', k')
  | condemn (h : Multiset File) (k : Kernel) (sig : ℕ) :
      Turn (.busy h, k) (.busy h, k.live (.condemned k.current sig))
  | spawn (h h' : Multiset File) (k : Kernel) (image : Image) (pgid : ℕ) (fds : ℕ → Option File) :
      Turn (.busy h, k) (.busy h', (k.addTask (freshTask image k.tasks.length (some k.current) pgid
        fds)).live (.registered k.tasks.length (some k.current)))
  | collect (h : Multiset File) (k : Kernel) {i : ℕ} {t : Task} (ht : k.task i = some t)
      (hz : t.state = .zombie) (hp : t.parentId = some k.current) :
      Turn (.busy h, k) (.busy h, collect k i t)
  | bury (k : Kernel) (status : ℕ) (hcause : Cause k.lives k.current k.pile status) :
      Turn (.busy 0, k) (.dying, bury k status)
  | park (k : Kernel) (kb : Keyboard) (reason : WaitReason) :
      Turn (.busy 0, k) (.leaving, park { k with keyboard := kb } reason)
  | sweep {m : Mode} {k k' : Kernel} (hm : m.Yields) (hs : Sweep k k') : Turn (m, k) (m, k')
  | lost (k : Kernel) (hn : k.currentTask = none) : Turn (.leaving, k) (.busy 0, k)
  | save {m : Mode} (hm : m.Yields) (k : Kernel) : Turn (m, k) (.saved, saveCurrent k)
  | dispatch (k : Kernel) {next : ℕ} (hr : k.isReady next) :
      Turn (.saved, k) (.busy 0, dispatch k next)

lemma Aside.turn (h : Multiset File) (ha : Aside k k') : Turn (.busy h, k) (.busy h, k') := by
  have hpass := Mode.Passes.busy h h
  cases ha with
  | press hp => exact .mild hpass hp.mild
  | collect i ht hz hp => exact .collect h k ht hz hp
  | took p n hpos hn =>
    exact .mild hpass ((mild_schedulerWake _ _).of_tasks rfl rfl rfl rfl rfl)
  | gave p l hr hl =>
    exact .mild hpass ((mild_schedulerWake _ _).of_tasks rfl rfl rfl rfl rfl)
  | getKey | eofTaken | newPipe | dropPipe | foreground | touch =>
    exact .mild hpass ((Mild.refl _).of_tasks rfl rfl rfl rfl rfl)

lemma Effect.turn {s s' : Multiset File × Kernel} (he : Effect s s') :
    Turn (.busy s.1, s.2) (.busy s'.1, s'.2) := by
  cases he with
  | aside h ha => exact ha.turn h
  | own h k f hf hfds => exact .own (aimed_modifyCurrent fun t => (hf t).same)
  | dup h k fd f hf => exact .mild (.busy _ _) (mild_countEnd k f)
  | openEnd h k p writable hp => exact .mild (.busy _ _) (mild_countEnd k ⟨.pipe p, writable⟩)
  | put h k fd f hfd hfree =>
    exact .own (aimed_modifyCurrent fun t => (own_setFd fd (some f) t).same)
  | take h k fd f hf => exact .own (aimed_modifyCurrent fun t => (own_setFd fd none t).same)
  | close h k f => exact .mild (.busy _ _) (mild_fileClose k f)
  | spawn h k image pgid inSrc outSrc => exact .spawn _ _ k image pgid _

lemma aimed_userStep (k : Kernel) (r : Regs) (mem : ℕ → UInt8) : Aimed k (k.userStep r mem) := by
  refine (aimed_modifyCurrent (k := k.setPile r) ?_).of_tasks rfl rfl rfl rfl rfl
  exact fun _ => by constructor <;> rfl

lemma aimed_interrupt (k : Kernel) : Aimed k (interrupt k) := by
  refine (aimed_modifyCurrent (k := k.note _) ?_).of_tasks rfl rfl rfl rfl rfl
  exact fun _ => by constructor <;> rfl

lemma aimed_store (k : Kernel) (addr : ℕ) (bytes : List UInt8) : Aimed k (k.store addr bytes) := by
  refine (aimed_modifyCurrent (k := k.touch true addr bytes.length) ?_).of_tasks rfl rfl rfl rfl rfl
  exact fun _ => by constructor <;> rfl

lemma aimed_enterHandler (k : Kernel) (t : Task) (sig : ℕ) : Aimed k (enterHandler k t sig) := by
  rw [enterHandler]
  dsimp only
  have hregs := (aimed_store (k.note (.entered k.current k.pile.cpu))
    (signalFrame k.pile.userRsp).toNat
    (k.note (.entered k.current k.pile.cpu)).pile.bytes).of_tasks (k := k) rfl rfl rfl rfl rfl
  have hstores := hregs.trans
    (aimed_store _ (signalFrame k.pile.userRsp - 8).toNat (wordBytes t.sigTrampoline))
  generalize store _ _ (wordBytes t.sigTrampoline) = k₁ at hstores ⊢
  refine hstores.trans ((aimed_modifyCurrent (k := k₁.setPile _) ?_).of_tasks rfl rfl rfl rfl rfl)
  exact fun _ => by constructor <;> rfl

/-- Going back concerns the running task only. -/
lemma aimed_goBack (k : Kernel) (t : Task) : Aimed k (goBack k t) := by
  obtain ⟨r, -, hr⟩ := goBack_eq k t
  rw [hr]
  refine Aimed.of_tasks (aimed_modifyCurrent ?_) rfl rfl rfl rfl rfl
  exact fun _ => by constructor <;> rfl

/-- **Every move is a turn.** -/
theorem Move.turn {s s' : Mode × Kernel} (hm : Move s s') : Turn s s' := by
  cases hm with
  | effect he => exact he.turn
  | press hp => exact .mild .idle hp.mild
  | enter | reply | checked => exact .mild (.busy _ _) ((Mild.refl _).of_tasks rfl rfl rfl rfl rfl)
  | user k r mem hstep hat => exact .own (aimed_userStep k r mem)
  | interrupt k hc => exact .own (aimed_interrupt k)
  | goBack k ht hact => exact .own (aimed_goBack k _)
  | enterHandler k ht hact hsig => exact .own (aimed_enterHandler k _ _)
  | condemn k sig => exact .condemn _ k sig
  | bury k status hcause hclosed => exact .bury k status hcause
  | rouse k => exact .mild .told (mild_wakeParent k _)
  | park k hb hc => exact .park k _ _
  | sweep hm hs => exact .sweep hm hs
  | lost k hn => exact .lost k hn
  | save hm k => exact .save hm k
  | dispatch k hr => exact .dispatch k hr
  | rest k => exact .mild .rest ((Mild.refl _).of_tasks rfl rfl rfl rfl rfl)
  | stir k => exact .mild .stir ((Mild.refl _).of_tasks rfl rfl rfl rfl rfl)

/-! ### The invariant -/

/-- How the current task stands in a mode. -/
def Mode.Stands : Mode → TaskState → Prop
  | .busy _, s => s = .running
  | .dying, s => s = .zombie
  | .leaving, s => s = .zombie ∨ s = .blocked
  | .saved, s => s ≠ .running
  | .idle, s => s ≠ .running

/-- The tree of the current task is loaded and complete, nobody else runs, and only those who
sleep wait for something. -/
structure Rotation (m : Mode) (k : Kernel) : Prop where
  current : ∃ t, k.currentTask = some t ∧ m.Stands t.state ∧ t.aspace = true ∧ k.cr3 = t.cr3
  loaded : k.loaded = k.current
  running : ∀ i t, k.task i = some t → t.state = .running → i = k.current
  waits : ∀ i t, k.task i = some t → t.waitReason ≠ .none → t.state = .blocked
  alive : ∀ i t, k.task i = some t → t.state ≠ .zombie → t.aspace = true

lemma Mode.Stands.passes {t t' : Task} (hs : m.Stands t.state) (hm : m.Passes m') (hk : Kin t t') :
    m'.Stands t'.state := by
  cases hm with
  | busy => exact hk.running_iff.mpr hs
  | told => exact .inl (hk.zombie_iff.mpr hs)
  | rest | stir | idle => exact fun h => hs (hk.running_iff.mp h)

lemma Rotation.mild (h : Rotation m k) (hm : m.Passes m') (hk : Mild k k') : Rotation m' k' := by
  refine ⟨?_, by rw [hk.loaded, hk.current, h.loaded], fun i t' ht' hr => ?_,
    fun i t' ht' hw => ?_, fun i t' ht' hz => ?_⟩
  · obtain ⟨t, ht, hs, has, hcr3⟩ := h.current
    obtain ⟨t', ht', hkin⟩ := hk.kin' (i := k.current) ht
    refine ⟨t', ?_, hs.passes hm hkin, hkin.aspace.trans has, ?_⟩
    · rw [currentTask, hk.current, ht']
    · rw [hk.cr3, hcr3, hkin.cr3]
  · obtain ⟨t, ht, hkin⟩ := hk.kin ht'
    rw [hk.current]
    exact h.running i t ht (hkin.running_iff.mp hr)
  · obtain ⟨t, ht, hkin⟩ := hk.kin ht'
    rcases hkin.state with rfl | ⟨-, hs, hw'⟩ | ⟨-, -, hw'⟩
    · exact h.waits i t' ht hw
    · rw [hs]
      exact h.waits i t ht (hw' ▸ hw)
    · exact absurd hw' hw
  · obtain ⟨t, ht, hkin⟩ := hk.kin ht'
    rw [hkin.aspace]
    exact h.alive i t ht fun hz' => hz (hkin.zombie_iff.mpr hz')

lemma Rotation.own {h h' : Multiset File} (hr : Rotation (.busy h) k) (hk : Aimed k k') :
    Rotation (.busy h') k' := by
  obtain ⟨t, ht, hs, has, hcr3⟩ := hr.current
  obtain ⟨t', ht', hsame⟩ : ∃ t', k'.currentTask = some t' ∧ Same t t' := by
    have hself := hk.self
    rw [ht] at hself
    generalize k'.currentTask = o at hself
    cases hself with
    | some hsame => exact ⟨_, rfl, hsame⟩
  have hcur : ∀ t₁, k'.task k.current = some t₁ → t₁ = t' := by
    intro t₁ ht₁
    rw [currentTask, hk.current, ht₁] at ht'
    exact Option.some.inj ht'
  refine ⟨⟨t', ht', hsame.state.trans hs, hsame.aspace.trans has, ?_⟩, ?_, fun i t₁ ht₁ hrun => ?_,
    fun i t₁ ht₁ hw => ?_, fun i t₁ ht₁ hz => ?_⟩
  · rw [hk.cr3, hcr3, hsame.cr3]
  · rw [hk.loaded, hk.current, hr.loaded]
  all_goals
    rcases eq_or_ne i k.current with rfl | hi
  · exact hk.current.symm
  · rw [hk.others i hi] at ht₁
    rw [hk.current]
    exact hr.running i t₁ ht₁ hrun
  · obtain rfl := hcur t₁ ht₁
    rw [hsame.state]
    exact hr.waits _ t ht (hsame.waitReason ▸ hw)
  · rw [hk.others i hi] at ht₁
    exact hr.waits i t₁ ht₁ hw
  · obtain rfl := hcur t₁ ht₁
    exact hsame.aspace.trans has
  · rw [hk.others i hi] at ht₁
    exact hr.alive i t₁ ht₁ hz

/-- Only the current task changes. -/
lemma Rotation.modifyCurrent (h : Rotation m k) {f : Task → Task}
    (hstands : ∀ t, m.Stands t.state → m'.Stands (f t).state)
    (hwait : ∀ t, m.Stands t.state → (t.waitReason ≠ .none → t.state = .blocked) →
      (f t).waitReason ≠ .none → (f t).state = .blocked)
    (haspace : ∀ t, (f t).aspace = t.aspace) (hcr3 : ∀ t, (f t).cr3 = t.cr3) :
    Rotation m' (k.modifyCurrent f) := by
  obtain ⟨t, ht, hs, has, hc⟩ := h.current
  have htask :
      ∀ i, (k.modifyCurrent f).task i = if i = k.current then some (f t) else k.task i := by
    intro i
    rw [Kernel.modifyCurrent, task_modifyTask]
    split_ifs with hi
    · rw [hi, show k.task k.current = some t from ht]
      rfl
    · rfl
  refine ⟨⟨f t, (htask _).trans (if_pos rfl), hstands t hs, (haspace t).trans has,
      hc.trans (hcr3 t).symm⟩, h.loaded, fun i t' ht' => ?_, fun i t' ht' => ?_,
    fun i t' ht' => ?_⟩
  all_goals
    rw [htask] at ht'
    split_ifs at ht' with hi
  · exact fun _ => hi
  · exact h.running i t' ht'
  · obtain rfl := Option.some.inj ht'
    exact hwait t hs (h.waits k.current t ht)
  · exact h.waits i t' ht'
  · obtain rfl := Option.some.inj ht'
    exact fun _ => (haspace t).trans has
  · exact h.alive i t' ht'

/-- The current task is left alone, and of the others some go or lose their trees. -/
lemma Rotation.shrink (h : Rotation m k) (hcur : k'.current = k.current) (hcr3 : k'.cr3 = k.cr3)
    (hload : k'.loaded = k.loaded) (htask : k'.task k.current = k.task k.current)
    (hothers : ∀ i t', k'.task i = some t' → ∃ t, k.task i = some t ∧ t'.state = t.state ∧
      t'.waitReason = t.waitReason ∧ (t.state ≠ .zombie → t'.aspace = t.aspace)) :
    Rotation m k' := by
  refine ⟨?_, by rw [hload, hcur, h.loaded], fun i t' ht' hr => ?_, fun i t' ht' hw => ?_,
    fun i t' ht' hz => ?_⟩
  · obtain ⟨t, ht, hs, has, hc⟩ := h.current
    refine ⟨t, ?_, hs, has, hcr3.trans hc⟩
    rw [currentTask, hcur, htask]
    exact ht
  · obtain ⟨t, ht, hs, -⟩ := hothers i t' ht'
    rw [hcur]
    exact h.running i t ht (hs ▸ hr)
  · obtain ⟨t, ht, hs, hw', -⟩ := hothers i t' ht'
    rw [hs]
    exact h.waits i t ht (hw' ▸ hw)
  · obtain ⟨t, ht, hs, -, has⟩ := hothers i t' ht'
    rw [hs] at hz
    rw [has hz]
    exact h.alive i t ht hz

/-- The current task is not swept. -/
lemma Rotation.sweep (h : Rotation m k) (hs : Sweep k k') : Rotation m k' := by
  have hspared := hs.spared
  cases hs with
  | strip i ht hz hi has =>
    refine h.shrink rfl rfl rfl hspared.task fun j t' ht' => ?_
    rw [task_live, task_modifyTask] at ht'
    obtain ⟨t₁, ht₁, ⟨hj, rfl⟩ | rfl⟩ := task_of_ite ht'
    · refine ⟨t₁, ht₁, rfl, rfl, fun hz₁ => absurd ?_ hz₁⟩
      rw [hj, ht] at ht₁
      exact Option.some.inj ht₁ ▸ hz
    · exact ⟨t', ht₁, rfl, rfl, fun _ => rfl⟩
  | drop i ht hz hi has hp =>
    refine h.shrink rfl rfl rfl hspared.task fun j t' ht' => ?_
    rw [task_live, task_dropTask] at ht'
    split_ifs at ht'
    exact ⟨t', ht', rfl, rfl, fun _ => rfl⟩

lemma task_collect {i j : ℕ} {t : Task} :
    (collect k i t).task j = if j = i then none else k.task j := by
  rw [collect, task_live, task_dropTask]
  split_ifs <;> rfl

/-- A zombie is not the running task. -/
lemma Rotation.ne_current {h : Multiset File} (hr : Rotation (.busy h) k) {i : ℕ} {t : Task}
    (ht : k.task i = some t) (hz : t.state = .zombie) : i ≠ k.current := by
  rintro rfl
  obtain ⟨t', ht', hs, -⟩ := hr.current
  obtain rfl := Option.some.inj (ht.symm.trans ht')
  rw [show t.state = .running from hs] at hz
  cases hz

lemma Rotation.collect {h : Multiset File} (hr : Rotation (.busy h) k) {i : ℕ} {t : Task}
    (ht : k.task i = some t) (hz : t.state = .zombie) : Rotation (.busy h) (collect k i t) := by
  have hne := hr.ne_current ht hz
  refine hr.shrink ?_ ?_ ?_ ?_ fun j t' ht' => ?_
  · rw [Kernel.collect]
    split_ifs <;> rfl
  · rw [Kernel.collect]
    split_ifs <;> rfl
  · rw [Kernel.collect]
    split_ifs <;> rfl
  · rw [task_collect, if_neg hne.symm]
  · rw [task_collect] at ht'
    split_ifs at ht'
    exact ⟨t', ht', rfl, rfl, fun _ => rfl⟩

lemma Rotation.live (h : Rotation m k) (x : Life) : Rotation m (k.live x) :=
  ⟨h.current, h.loaded, h.running, h.waits, h.alive⟩

/-- A new task waits for its turn. -/
lemma Rotation.addTask {t : Task} (h : Rotation m k) (hs : t.state = .ready)
    (hw : t.waitReason = .none) (has : t.aspace = true) : Rotation m (k.addTask t) := by
  obtain ⟨t₁, ht₁, hs₁, has₁, hc₁⟩ := h.current
  refine ⟨⟨t₁, ?_, hs₁, has₁, hc₁⟩, h.loaded, fun i t' ht' => ?_, fun i t' ht' => ?_,
    fun i t' ht' => ?_⟩
  · rw [currentTask, task_addTask, if_neg]
    · exact ht₁
    · exact (lt_length_of_task (k := k) ht₁).ne
  all_goals
    rw [task_addTask] at ht'
    split_ifs at ht' with hi
  · obtain rfl := Option.some.inj ht'
    rw [hs]
    rintro ⟨⟩
  · exact h.running i t' ht'
  · obtain rfl := Option.some.inj ht'
    exact fun hne => absurd hw hne
  · exact h.waits i t' ht'
  · obtain rfl := Option.some.inj ht'
    exact fun _ => has
  · exact h.alive i t' ht'

/-- The task put on the CPU runs, on its own tree. -/
lemma Rotation.dispatch (h : Rotation .saved k) {next : ℕ} (hr : k.isReady next) :
    Rotation (.busy 0) (dispatch k next) := by
  obtain ⟨t, ht, hready⟩ := exists_of_isReady hr
  have hd := dispatch_dispatched ht
  generalize Kernel.dispatch k next = k' at hd
  have hnone : ∀ i t, k.task i = some t → t.state ≠ .running := by
    intro i t₁ ht₁ hrun
    obtain ⟨t₂, ht₂, hs, -⟩ := h.current
    obtain rfl := h.running i t₁ ht₁ hrun
    obtain rfl := Option.some.inj (ht₁.symm.trans ht₂)
    exact hs hrun
  refine ⟨⟨{ t with state := .running }, ?_, rfl, ?_, ?_⟩, ?_, fun i t' ht' hrun => ?_,
    fun i t' ht' hw => ?_, fun i t' ht' hz => ?_⟩
  · rw [currentTask, hd.task, if_pos hd.current]
  · exact h.alive next t ht (by simp [hready])
  · rw [hd.cr3]
    split_ifs with hc
    · obtain ⟨t₂, ht₂, -, -, hc₂⟩ := h.current
      rw [hc] at ht
      obtain rfl := Option.some.inj (ht.symm.trans ht₂)
      exact hc₂
    · rfl
  · rw [hd.loaded, hd.current]
    split_ifs with hc
    · rw [h.loaded, hc]
    · rfl
  all_goals
    rw [hd.task] at ht'
    split_ifs at ht' with hi
  · rw [hi, hd.current]
  · exact absurd hrun (hnone i t' ht')
  · obtain rfl := Option.some.inj ht'
    have hb := h.waits next t ht hw
    rw [hready] at hb
    cases hb
  · exact h.waits i t' ht' hw
  · obtain rfl := Option.some.inj ht'
    exact h.alive next t ht (by simp [hready])
  · exact h.alive i t' ht' hz

/-- **The turns keep the invariant.** -/
theorem Rotation.turn {s s' : Mode × Kernel} (ht : Turn s s') (h : Rotation s.1 s.2) :
    Rotation s'.1 s'.2 := by
  cases ht with
  | mild hm hk => exact h.mild hm hk
  | own hk => exact h.own hk
  | condemn f k sig => exact h.live _
  | spawn f f' k image pgid fds =>
    exact (h.mild (.busy f f') (.refl k)).addTask rfl rfl rfl |>.live _
  | collect f k ht hz hp => exact h.collect ht hz
  | bury k status hcause =>
    refine Rotation.live ?_ _
    exact h.modifyCurrent (fun _ _ => rfl) (fun _ _ _ hw => absurd rfl hw) (fun _ => rfl)
      fun _ => rfl
  | park k kb reason =>
    have h' : Rotation (.busy 0) { k with keyboard := kb } :=
      h.mild (.busy 0 0) ((Mild.refl _).of_tasks rfl rfl rfl rfl rfl)
    have hpark : Rotation .leaving (({ k with keyboard := kb } : Kernel).modifyCurrent fun t =>
        { t with state := .blocked, waitReason := reason }) :=
      h'.modifyCurrent (fun _ _ => .inr rfl) (fun _ _ _ _ => rfl) (fun _ => rfl) fun _ => rfl
    exact ⟨hpark.current, hpark.loaded, hpark.running, hpark.waits, hpark.alive⟩
  | sweep hm hs => exact h.sweep hs
  | lost k hn =>
    obtain ⟨t, ht, -⟩ := h.current
    rw [hn] at ht
    cases ht
  | @save m hm k =>
    -- a sleeper keeps its reason, a zombie has none
    refine h.modifyCurrent (fun t _ => ?_) (fun t _ hw hne => ?_) (fun _ => rfl) fun _ => rfl
    · change (if t.state = .running then TaskState.ready else t.state) ≠ .running
      split_ifs with hr
      · simp
      · exact hr
    · have hb := hw hne
      exact (if_neg (by simp [hb])).trans hb
  | dispatch k hr => exact h.dispatch hr

lemma Rotation.boot (image : Image) (r : Regs) :
    Rotation (modeOf (boot image r)) (boot image r) := by
  have htask : ∀ i t, (TownOS.boot image r).task i = some t →
      i = 0 ∧ t = { freshTask image 0 none 0 consoleFds with state := .running } := by
    intro i t ht
    have hi := lt_length_of_task ht
    obtain rfl : i = 0 := Nat.lt_one_iff.mp hi
    exact ⟨rfl, (Option.some.inj ht).symm⟩
  refine ⟨⟨_, rfl, rfl, rfl, rfl⟩, rfl, fun i t ht _ => (htask i t ht).1, fun i t ht hw => ?_,
    fun i t ht _ => ?_⟩
  · obtain ⟨-, rfl⟩ := htask i t ht
    exact absurd rfl hw
  · obtain ⟨-, rfl⟩ := htask i t ht
    rfl

/-! ### Zombies -/

/-- A slot holds a zombie, or nothing any more. -/
def Buried (i : ℕ) (k : Kernel) : Prop :=
  i < k.tasks.length ∧ ∀ t, k.task i = some t → t.state = .zombie

/-- A change of a task that is no zombie. -/
lemma Buried.modifyTask {i j : ℕ} {f : Task → Task} (h : Buried i k)
    (hf : ∀ t, k.task j = some t → t.state = .zombie → (f t).state = .zombie) :
    Buried i (k.modifyTask j f) := by
  refine ⟨h.1.trans_eq (List.length_modify ..).symm, fun t' ht' => ?_⟩
  rw [task_modifyTask] at ht'
  obtain ⟨t, ht, ⟨hi, rfl⟩ | rfl⟩ := task_of_ite ht'
  · exact hf t (hi ▸ ht) (h.2 t ht)
  · exact h.2 t' ht

lemma Buried.dropTask {i j : ℕ} (h : Buried i k) : Buried i (k.dropTask j) := by
  refine ⟨h.1.trans_eq (List.length_set ..).symm, fun t' ht' => ?_⟩
  rw [task_dropTask] at ht'
  split_ifs at ht'
  exact h.2 t' ht'

lemma Buried.sweep {i : ℕ} (h : Buried i k) (hs : Sweep k k') : Buried i k' := by
  cases hs with
  | strip j ht hz hj has => exact h.modifyTask fun _ _ hz => hz
  | drop j ht hz hj has hp => exact h.dropTask

/-- **A zombie stays a zombie until it is freed.** -/
theorem Buried.turn {i : ℕ} {s s' : Mode × Kernel} (ht : Turn s s') (hr : Rotation s.1 s.2)
    (h : Buried i s.2) : Buried i s'.2 := by
  cases ht with
  | mild hm hk =>
    refine ⟨hk.length ▸ h.1, fun t' ht' => ?_⟩
    obtain ⟨t, ht, hkin⟩ := hk.kin ht'
    exact hkin.zombie_iff.mpr (h.2 t ht)
  | @own f f' k k' hk =>
    refine ⟨hk.length ▸ h.1, fun t' ht' => ?_⟩
    have hi : i ≠ k.current := by
      rintro rfl
      obtain ⟨t, ht, hs, -⟩ := hr.current
      have hz := h.2 t ht
      rw [show t.state = .running from hs] at hz
      cases hz
    rw [hk.others i hi] at ht'
    exact h.2 t' ht'
  | condemn f k sig => exact h
  | spawn f f' k image pgid fds =>
    refine ⟨h.1.trans_le ?_, fun t' ht' => ?_⟩
    · exact (List.length_append ..).symm ▸ Nat.le_add_right _ _
    · rw [task_live, task_addTask, if_neg h.1.ne] at ht'
      exact h.2 t' ht'
  | collect f k ht hz hp =>
    rw [collect]
    split_ifs
    · exact Buried.dropTask (k := k.live _) h
    · exact h.dropTask
  | bury k status hcause => exact h.modifyTask fun _ _ _ => rfl
  | park k kb reason =>
    -- the task that falls asleep is running
    refine Buried.modifyTask (k := { k with keyboard := kb }) h fun t ht hz => ?_
    exact absurd rfl (hr.ne_current (i := k.current) ht hz)
  | sweep hm hs => exact h.sweep hs
  | lost k hn => exact h
  | save hm k =>
    refine h.modifyTask fun t _ hz => ?_
    exact (if_neg (by simp [hz])).trans hz
  | @dispatch k next hready =>
    obtain ⟨t, ht, hs⟩ := exists_of_isReady hready
    have hd := dispatch_dispatched ht
    refine ⟨hd.length.symm ▸ h.1, fun t' ht' => ?_⟩
    rw [hd.task] at ht'
    split_ifs at ht' with hi
    · have hz := h.2 t (hi ▸ ht)
      rw [hs] at hz
      cases hz
    · exact h.2 t' ht'

end Kernel

end TownOS
