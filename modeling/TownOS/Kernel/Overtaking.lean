import TownOS.Kernel.Kill
import TownOS.Foundations.Rounds

/-!
No task overtakes another twice (`find_next_ready`, `schedule`).

`schedule` goes round the table of tasks from the current one and takes the first that is
ready. The table has holes, and it grows while a round is in progress; but the places in it
keep their order, so a ready task is passed over by no selection, and the round is not
complete before it has been selected itself.

* `beat`: a run, cut at the calls of `check_signals`;
* `Selects`: `schedule` puts a task on the CPU;
* `beat_round`: what is selected does not lie beyond a task that is ready;
* `overtaken_once`: between two selections of a task no other one is ready all the time.
-/

namespace TownOS

/-- `task_block` put the caller to sleep. -/
def Note.isParked : Note → Bool
  | .parked _ _ => true
  | _ => false

/-- `task_exit` was called. -/
def Life.isExited : Life → Bool
  | .exited _ _ _ => true
  | _ => false

namespace Kernel

open Relation Runs Rounds

/-! ### Beats -/

/-- One half of a step: an event is handled, or the kernel is left. -/
inductive Beat where
  | handle (e : Event)
  | leave

/-- What the machine does in a beat. -/
def beat (k : Kernel) : Beat → Option Kernel
  | .handle e => k.handled e
  | .leave => some k.leave

/-- The beats of a run. -/
def beats (es : List Event) : List Beat := es.flatMap fun e => [.handle e, .leave]

/-! ### Selections -/

/-- How often `task_block` and `task_exit` have called `schedule`. -/
def yields (k : Kernel) : ℕ := k.calls.countP Note.isParked + k.lives.countP Life.isExited

/-- The timer calls `schedule`. -/
def Beat.isTick : Beat → Bool
  | handle .timer => true
  | _ => false

/-- In a beat `schedule` is called, by the timer, by `task_block` or by `task_exit`, or it goes
on after the CPU was parked; and it selects a task, which is the current one from then on. -/
def Selects (k : Kernel) (x : Beat) (k' : Kernel) : Prop :=
  k'.idling = false ∧ (k.idling = true ∨ x.isTick = true ∨ k.yields < k'.yields)

instance (k : Kernel) (x : Beat) (k' : Kernel) : Decidable (Selects k x k') :=
  inferInstanceAs (Decidable (_ ∧ _))

variable {k k' k₁ : Kernel} {b i : ℕ}

/-! ### Between the selections -/

/-- Nobody is selected, and who is ready stays so. -/
structure Passive (k k' : Kernel) : Prop where
  current : k'.current = k.current
  idling : k'.idling = k.idling
  yields : k'.yields = k.yields
  ready : ∀ i, i ≠ k.current → k.isReady i = true → k'.isReady i = true

lemma Passive.refl (k : Kernel) : Passive k k := ⟨rfl, rfl, rfl, fun _ _ h => h⟩

lemma Passive.trans (h : Passive k k₁) (h' : Passive k₁ k') : Passive k k' := by
  refine ⟨h'.current.trans h.current, h'.idling.trans h.idling, h'.yields.trans h.yields,
    fun i hi hready => h'.ready i ?_ (h.ready i hi hready)⟩
  rwa [h.current]

lemma isReady_iff : k.isReady i = true ↔ ∃ t, k.task i = some t ∧ t.state = .ready := by
  refine ⟨exists_of_isReady, ?_⟩
  rintro ⟨t, ht, hs⟩
  rw [isReady, ht, Option.any_some]
  exact decide_eq_true hs

lemma lt_length_of_isReady (h : k.isReady i = true) : i < k.tasks.length := by
  obtain ⟨t, ht, -⟩ := exists_of_isReady h
  exact lt_length_of_task ht

lemma isReady_congr (h : k'.task i = k.task i) : k'.isReady i = k.isReady i := by
  rw [isReady, h, isReady]

/-- Everything but the tables of the tasks may change. -/
lemma Passive.of_tasks (htasks : k'.tasks = k.tasks) (hcur : k'.current = k.current)
    (hidle : k'.idling = k.idling) (hyields : k'.yields = k.yields) : Passive k k' := by
  refine ⟨hcur, hidle, hyields, fun i _ hready => ?_⟩
  rwa [isReady_congr (k := k) (by rw [task, htasks, task])]

/-- Only the current task changes. -/
lemma Passive.of_other (hcur : k'.current = k.current) (hidle : k'.idling = k.idling)
    (hyields : k'.yields = k.yields) (htask : ∀ i, i ≠ k.current → k'.task i = k.task i) :
    Passive k k' := by
  refine ⟨hcur, hidle, hyields, fun i hi hready => ?_⟩
  rwa [isReady_congr (htask i hi)]

lemma passive_modifyCurrent (k : Kernel) (f : Task → Task) : Passive k (k.modifyCurrent f) :=
  .of_other rfl rfl rfl fun _ hi => task_modifyTask_of_ne hi

/-- Who is ready stays ready. -/
lemma Calm.isReady (hc : Calm k k') (h : k.isReady i = true) : k'.isReady i = true := by
  obtain ⟨t, ht, hs⟩ := exists_of_isReady h
  have hd := hc.tasks i
  rw [ht] at hd
  generalize ho : k'.task i = o at hd
  cases hd with
  | same => exact isReady_iff.mpr ⟨t, ho, hs⟩
  | woken t hb => exact isReady_iff.mpr ⟨_, ho, rfl⟩
  | pending t sig hb => exact isReady_iff.mpr ⟨_, ho, hs⟩
  | destroyed t hz | reaped t hz =>
    rw [hz] at hs
    cases hs

lemma Calms.isReady (hc : Calms k k') (h : k.isReady i = true) : k'.isReady i = true := by
  induction hc with
  | refl => exact h
  | tail _ hc ih => exact hc.isReady ih

lemma Effect.Kind.isReady (hk : Effect.Kind k k') (hi : i ≠ k.current) (h : k.isReady i = true) :
    k'.isReady i = true := by
  cases hk with
  | calm hc => exact hc.isReady h
  | cut j t sig ht hb =>
    have hij : i ≠ j := by
      rintro rfl
      obtain ⟨t', ht', hs⟩ := exists_of_isReady h
      rw [← Option.some.inj (ht.symm.trans ht'), hb] at hs
      cases hs
    rw [isReady_congr (task_modifyTask_of_ne hij)]
    exact h
  | own f hf => exact (passive_modifyCurrent k f).ready i hi h
  | spawn image pgid fds =>
    rwa [isReady_congr (k := k)]
    rw [task_live, task_addTask, if_neg (lt_length_of_isReady h).ne]

lemma yields_congr (hcalls : k'.calls = k.calls) (hlives : k'.lives = k.lives) :
    k'.yields = k.yields := by
  rw [yields, yields, hcalls, hlives]

lemma yields_live (k : Kernel) {x : Life} (hx : x.isExited = false) :
    (k.live x).yields = k.yields := by
  rw [yields, live, yields, List.countP_append, List.countP_singleton, hx]
  rfl

lemma yields_note (k : Kernel) {x : Note} (hx : x.isParked = false) :
    (k.note x).yields = k.yields := by
  rw [yields, note, yields, List.countP_append, List.countP_singleton, hx]
  rfl

lemma yields_collect (k : Kernel) (i : ℕ) (t : Task) : (collect k i t).yields = k.yields := by
  rw [collect]
  refine (yields_live _ rfl).trans ?_
  split_ifs
  · exact yields_live k rfl
  · rfl

lemma Aside.yields (ha : Aside k k') : k'.yields = k.yields := by
  cases ha with
  | press hp =>
    rcases hp.calm_or_cut with hc | ⟨i, t, sig, -, -, rfl⟩
    · exact yields_congr hc.calls hp.mild.lives
    · exact yields_note k rfl
  | collect i ht hz hp => exact yields_collect k i _
  | _ => rfl

lemma Effect.yields {s s' : Multiset File × Kernel} (he : Effect s s') :
    s'.2.yields = s.2.yields := by
  cases he with
  | aside h ha => exact ha.yields
  | dup h k fd f hf => exact yields_congr (quietFrame_countEnd k f).calls (mild_countEnd k f).lives
  | openEnd h k p writable hp =>
    exact yields_congr (quietFrame_countEnd k _).calls (mild_countEnd k _).lives
  | close h k f => exact yields_congr (quietFrame_fileClose k f).calls (mild_fileClose k f).lives
  | spawn h k image pgid inSrc outSrc => exact yields_live _ rfl
  | _ => rfl

/-- Effects select nobody. -/
lemma HeldEffects.passive {s s' : Multiset File × Kernel} (he : HeldEffects s s') :
    Passive s.2 s'.2 := by
  induction he with
  | refl => exact .refl _
  | tail _ he ih =>
    obtain ⟨-, hidle, hcur⟩ := he.kind.frame
    exact ih.trans ⟨hcur, hidle, he.yields, fun i hi h => he.kind.isReady hi h⟩

lemma Deeds.passive (hd : Deeds k k') : Passive k k' := HeldEffects.passive hd.effects

lemma Presses.passive (hp : Presses k k') : Passive k k' := HeldEffects.passive hp.asides.effects

lemma passive_reply (k : Kernel) (v : Word) : Passive k (k.reply v) :=
  .of_tasks rfl rfl rfl (yields_note k rfl)

lemma passive_enter (k : Kernel) (vector rip : Word) : Passive k (k.enter vector rip) :=
  .of_tasks rfl rfl rfl rfl

lemma passive_interrupt (k : Kernel) : Passive k (interrupt k) :=
  .of_other rfl rfl (yields_note k rfl) fun _ hi => task_modifyTask_of_ne hi

lemma passive_enterHandler (k : Kernel) (t : Task) (sig : ℕ) :
    Passive k (enterHandler k t sig) := by
  refine .of_other rfl rfl (yields_note k rfl) fun i hi => ?_
  rw [task_enterHandler, if_neg hi]

lemma passive_goBack (k : Kernel) (t : Task) : Passive k (goBack k t) := by
  have hback := goBack_goesBack k t
  refine .of_other hback.current hback.idling ?_ fun i hi => ?_
  · obtain ⟨r, -, hr⟩ := goBack_eq k t
    rw [hr]
    exact yields_note _ rfl
  · rw [hback.task, if_neg hi]

/-! ### The current task is there -/

/-- There is a current task. -/
def Present (k : Kernel) : Prop := ∃ t, k.currentTask = some t

lemma Present.modifyCurrent (h : Present k) (f : Task → Task) : Present (k.modifyCurrent f) := by
  obtain ⟨t, ht⟩ := h
  refine ⟨f t, ?_⟩
  rw [currentTask, Kernel.modifyCurrent,
    show (k.modifyTask k.current f).current = k.current from rfl,
    task_modifyTask_self, show k.task k.current = some t from ht, Option.map_some]

lemma Present.mild (h : Present k) (hm : Mild k k') : Present k' := by
  obtain ⟨t, ht⟩ := h
  obtain ⟨t', ht', -⟩ := hm.kin' (i := k.current) ht
  exact ⟨t', by rwa [currentTask, hm.current]⟩

lemma Present.closeAll (h : Present k) : Present (closeAll k) := by
  refine List.foldlRecOn (motive := Present) _ closeFd h fun k h fd _ => ?_
  rw [closeFd]
  cases k.currentFile fd with
  | none => exact h
  | some f => exact (Present.modifyCurrent h _).mild (mild_fileClose _ f)

lemma Presses.mild (hp : Presses k k') : Mild k k' := by
  induction hp with
  | refl => exact .refl k
  | tail _ hp ih => exact ih.trans hp.mild

/-! ### Going round -/

/-- The task put on the CPU is the ready one, or lies before it. -/
def Onward (b : ℕ) (k k' : Kernel) : Prop :=
  k'.idling = false ∧ (k'.current = b ∨ sbtw k.current k'.current b)

lemma Onward.of_current (h : Onward b k₁ k') (hcur : k₁.current = k.current) : Onward b k k' := by
  rwa [Onward, hcur] at h

/-- `find_next_ready` passes over none that is ready. -/
lemma onward_dispatch {p : ℕ} (hi : k.idling = false) (hp : Present k) (hb : k.isReady b = true)
    (hne : b ≠ k.current) (hfind : findNextReady k k.current = some p) :
    Onward b k (dispatch k p) := by
  obtain ⟨t, ht⟩ := hp
  obtain ⟨t', ht', -⟩ := exists_of_isReady (isReady_of_findNextReady hfind)
  rw [Onward, (dispatch_dispatched ht').current]
  refine ⟨(dispatch_dispatched ht').idling.trans hi, ?_⟩
  exact sbtw_of_find? (lt_length_of_isReady hb) (lt_length_of_task ht) hne hb hfind

lemma anyTaskReady_of_isReady (hb : k.isReady b = true) : anyTaskReady k = true :=
  List.any_eq_true.mpr ⟨b, List.mem_range.mpr (lt_length_of_isReady hb), hb⟩

/-- `schedule` selects nobody beyond a task that is ready. -/
lemma schedule_onward (hi : k.idling = false) (hp : Present k) (hb : k.isReady b = true)
    (hne : b ≠ k.current) : Onward b k (schedule k) := by
  have hsweep := sweeps_reapSweep k
  have hspared := hsweep.spared
  have hready := hsweep.calms.isReady hb
  rw [schedule, if_neg (by simp [hi])]
  generalize reapSweep k = k₁ at hsweep hspared hready ⊢
  obtain ⟨t, ht⟩ := hp
  have hcur : k₁.currentTask = some t := by
    rw [currentTask, hspared.current, hspared.task]
    exact ht
  rw [← hspared.current] at hne
  have hsaved := (passive_modifyCurrent k₁ (savedTask k₁.pile)).ready b hne hready
  have hpresent := Present.modifyCurrent ⟨t, hcur⟩ (savedTask k₁.pile)
  have hidle : (saveCurrent k₁).idling = false := hsweep.calms.idling.trans hi
  have hany := anyTaskReady_of_isReady hsaved
  simp only [hcur]
  rw [Onward, ← hspared.current]
  rw [show k₁.modifyCurrent (savedTask k₁.pile) = saveCurrent k₁ from rfl] at *
  cases hfind : findNextReady (saveCurrent k₁) (saveCurrent k₁).current with
  | none => exact absurd hfind (findNextReady_ne_none hany _)
  | some p => exact onward_dispatch hidle hpresent hsaved hne hfind

/-- Nor does the loop of the idle CPU. -/
lemma resume_onward (hp : Present k) (hb : k.isReady b = true) (hne : b ≠ k.current) :
    Onward b k (resume k) := by
  have hany := anyTaskReady_of_isReady hb
  have hpresent : Present { k with idling := false } := hp
  have hready : ({ k with idling := false } : Kernel).isReady b = true := hb
  rw [resume, if_pos hany]
  dsimp only
  cases hfind : findNextReady { k with idling := false } k.current with
  | none => exact absurd hfind (findNextReady_ne_none hany _)
  | some p =>
    have honward := onward_dispatch rfl hpresent hready hne hfind
    exact honward

/-- Nor does an exit. -/
lemma taskExit_onward (status : ℕ) (hi : k.idling = false) (hp : Present k)
    (hb : k.isReady b = true) (hne : b ≠ k.current) : Onward b k (taskExit k status) := by
  have hclosed := (deeds_closeAll k).passive
  have hpclosed := hp.closeAll
  rw [taskExit]
  generalize closeAll k = k₁ at hclosed hpclosed ⊢
  have hcur : (bury k₁ status).current = k.current := hclosed.current
  have hidle : (bury k₁ status).idling = false := hclosed.idling.trans hi
  have hburied : Present (bury k₁ status) := hpclosed.modifyCurrent _
  have hready : (bury k₁ status).isReady b = true :=
    (passive_modifyCurrent k₁ _).ready b (hclosed.current ▸ hne) (hclosed.ready b hne hb)
  generalize bury k₁ status = k₂ at hcur hidle hburied hready ⊢
  have hmild := mild_wakeParent k₂ (k₂.currentTask.bind Task.parentId)
  have hcalms := calms_wakeParent k₂ (k₂.currentTask.bind Task.parentId)
  generalize wakeParent k₂ (k₂.currentTask.bind Task.parentId) = k₃ at hmild hcalms ⊢
  have hready₃ := hcalms.isReady hready
  have hcur₃ : k₃.current = k.current := hmild.current.trans hcur
  have honward := schedule_onward (hcalms.idling.trans hidle) (hburied.mild hmild) hready₃
    (hcur₃ ▸ hne)
  exact honward.of_current hcur₃

lemma endBySignal_onward (sig : ℕ) (hi : k.idling = false) (hp : Present k)
    (hb : k.isReady b = true) (hne : b ≠ k.current) : Onward b k (endBySignal k sig) := by
  have hexit :=
    taskExit_onward (k := k.live (.condemned k.current sig)) (sigExitStatus sig) hi hp hb
    hne
  exact hexit

/-- A task that falls asleep hands the CPU over. -/
lemma park_onward (reason : WaitReason) (hi : k.idling = false) (hp : Present k)
    (hb : k.isReady b = true) (hne : b ≠ k.current) : Onward b k (schedule (park k reason)) := by
  have hparked : Present (park k reason) := hp.modifyCurrent _
  have hready : (park k reason).isReady b = true := (passive_modifyCurrent k _).ready b hne hb
  have honward := schedule_onward (k := park k reason) hi hparked hready hne
  exact honward.of_current rfl

/-! ### Beat by beat -/

/-- What a beat does while `b` is ready: nobody is selected, or someone who is not beyond `b`. -/
def Round (b : ℕ) (k : Kernel) (x : Beat) (k' : Kernel) : Prop :=
  (k'.current = k.current ∧ ¬Selects k x k') ∨ Onward b k k'

/-- A beat without a selection. -/
lemma Passive.round {x : Beat} (h : Passive k k') (hx : x.isTick = false)
    (hi : k.idling = false) : Round b k x k' := by
  refine .inl ⟨h.current, ?_⟩
  rintro ⟨-, hidle | htick | hlt⟩
  · rw [hi] at hidle
    cases hidle
  · rw [hx] at htick
    cases htick
  · rw [h.yields] at hlt
    exact lt_irrefl _ hlt

/-- A system call. -/
lemma Ends.round {w : Bool} {a : Answers} (he : Ends k w k') (hi : k.idling = false)
    (hp : Present k) (hb : k.isReady b = true) (hne : b ≠ k.current) :
    Round b k (.handle (.syscall a)) k' := by
  cases he with
  | served v hd => exact (hd.passive.trans (passive_reply _ v)).round rfl hi
  | @interrupted k₁ reason kb hr hblock hc =>
    have hd : Deeds k { k₁ with keyboard := kb } := hr.deeds.trans hblock.deeds
    exact ((hd.passive.trans (passive_interrupt _)).trans (passive_reply _ _)).round rfl hi
  | @parked k₁ reason kb hr hblock hc =>
    obtain ⟨spans, -, rfl⟩ := hr
    have honward := park_onward (k := { k with touched := k.touched ++ spans, keyboard := kb })
      reason hi hp hb hne
    exact .inr honward
  | exited hcall => exact .inr (taskExit_onward _ hi hp hb hne)
  | ended => exact .inr (endBySignal_onward _ hi hp hb hne)
  | wentBack ht hact hok hcall => exact (passive_goBack k _).round rfl hi
  | gone hn =>
    obtain ⟨t, ht⟩ := hp
    rw [hn] at ht
    cases ht

/-- The way out of the kernel. -/
lemma leave_round (hp : Present k) (hb : k.isReady b = true) (hne : b ≠ k.current) :
    Round b k .leave (leave k) := by
  obtain hstay | ⟨hi, hchecked⟩ := leave_cases k
  · rw [hstay]
    refine .inl ⟨rfl, ?_⟩
    rintro ⟨hi, hidle | htick | hlt⟩
    · rw [hi] at hidle
      cases hidle
    · cases htick
    · exact lt_irrefl _ hlt
  · have hpass : Passive k { k with checkDue := false } := .of_tasks rfl rfl rfl rfl
    generalize leave k = k' at hchecked ⊢
    cases hchecked with
    | stays => exact hpass.round rfl hi
    | @killed t sig ht hact hsig hh =>
      have honward := endBySignal_onward
        (k := modifyCurrent { k with checkDue := false } fun t => clearPending t sig) sig hi
        (Present.modifyCurrent hp _) ((passive_modifyCurrent k _).ready b hne hb) hne
      exact .inr honward
    | unfit =>
      have honward := endBySignal_onward (k := { k with checkDue := false }) sigSegv hi hp hb hne
      exact .inr honward
    | enters ht hact hsig hh hok => exact (hpass.trans (passive_enterHandler _ _ _)).round rfl hi

/-- **One beat.** As long as a task is ready, what is selected does not lie beyond it. -/
theorem beat_round {x : Beat} (hr : Rotation (modeOf k) k) (hk : k.beat x = some k')
    (hb : k.isReady b = true) (hne : b ≠ k.current) : Round b k x k' := by
  have hp : Present k := by
    obtain ⟨t, ht, -⟩ := hr.current
    exact ⟨t, ht⟩
  cases x with
  | leave =>
    obtain rfl := Option.some.inj hk
    exact leave_round hp hb hne
  | handle e =>
    cases handling_of_handled hk with
    | user r mem hi hstep hat =>
      have hpass : Passive k (k.userStep r mem) :=
        .of_other rfl rfl rfl fun _ hj => task_modifyTask_of_ne hj
      exact hpass.round rfl hi
    | syscall a hi hat =>
      have hround := (syscallBody_ends (k.enter 0x50 (k.pile.rip + intInstrLen)) a).round
        (a := a) (b := b) hi hp hb hne
      exact hround
    | timer hi =>
      have honward := schedule_onward (k := k.enter 0x40 k.pile.rip) hi hp hb hne
      exact .inr honward
    | key c hi =>
      have hpass := (presses_keyboardCallback (k.enter 0x41 k.pile.rip) c).passive
      have hround : Round b (k.enter 0x41 k.pile.rip) _ _ :=
        hpass.round (x := .handle (.key c)) rfl hi
      exact hround
    | irq v hi => exact (passive_enter k v k.pile.rip).round rfl hi
    | parked hi hirq =>
      have hpress := presses_pressed k e
      have hpass := hpress.passive
      have honward := resume_onward (hp.mild hpress.mild) (hpass.ready b hne hb)
        (hpass.current ▸ hne)
      exact .inr (honward.of_current hpass.current)

/-- The rotation is sound in the middle of a step, too. -/
lemma beats_rotation {image : Image} {r : Regs} {xs : List Beat}
    (hrun : Runs.exec beat (boot image r) xs = some k) : Rotation (modeOf k) k := by
  refine exec_preserves (I := fun k => Rotation (modeOf k) k) (fun k x k' hr hk => ?_) hrun
    (Rotation.boot image r)
  have hleads : Leads (fun _ => True) (stageOf k, k) k' := by
    cases x with
    | handle e => exact handled_leads hk
    | leave =>
      obtain rfl := Option.some.inj hk
      exact leave_leads .refl trivial
  rw [← mode_stageOf] at hr ⊢
  exact Actions.invariant (I := fun s => Rotation s.1.mode s.2) hleads
    (fun _ _ ha h => Rotation.action ha h) hr

/-- The task on the CPU is running, and not ready. -/
lemma ne_of_isReady (hr : Rotation (modeOf k) k) (hi : k.idling = false) (hb : k.isReady b = true) :
    b ≠ k.current := by
  rintro rfl
  obtain ⟨t, ht, hs, -⟩ := hr.current
  obtain ⟨t', ht', hready⟩ := exists_of_isReady hb
  rw [modeOf, if_neg (by simp [hi])] at hs
  rw [← Option.some.inj (ht.symm.trans ht'), show t.state = .running from hs] at hready
  cases hready

/-! ### Runs -/

section Runs

variable {image : Image} {r : Regs} {es : List Event} {a m n : ℕ}

/-- The state of a run after some of its beats. -/
def stateAfter (image : Image) (r : Regs) (es : List Event) (n : ℕ) : Option Kernel :=
  Runs.exec beat (boot image r) ((beats es).take n)

/-- In the beat with a number `schedule` selects a task. -/
def SelectsAt (image : Image) (r : Regs) (es : List Event) (n a : ℕ) : Prop :=
  ∃ x k k', (beats es)[n]? = some x ∧ stateAfter image r es n = some k ∧
    stateAfter image r es (n + 1) = some k' ∧ Selects k x k' ∧ k'.current = a

/-- For runs that are evaluated. -/
lemma selectsAt_of_eval {x : Beat} (hx : (beats es)[n]? = some x)
    (h : (stateAfter image r es n).any (fun k => (stateAfter image r es (n + 1)).any fun k' =>
      Selects k x k' ∧ k'.current = a) = true) : SelectsAt image r es n a := by
  obtain ⟨k, hk, h⟩ := Option.any_eq_true _ _ |>.mp h
  obtain ⟨k', hk', h⟩ := Option.any_eq_true _ _ |>.mp h
  exact ⟨x, k, k', hx, hk, hk', of_decide_eq_true h⟩

/-- One beat more. -/
lemma stateAfter_succ {x : Beat} (hx : (beats es)[n]? = some x) :
    stateAfter image r es (n + 1) = (stateAfter image r es n).bind fun k => k.beat x := by
  rw [stateAfter, List.take_add_one, hx]
  exact exec_concat beat _ _ x

/-- The beat between two states of a run. -/
lemma exists_beat (h : stateAfter image r es (n + 1) = some k') (hn : n < (beats es).length) :
    ∃ k x, (beats es)[n]? = some x ∧ stateAfter image r es n = some k ∧ k.beat x = some k' := by
  have hx : (beats es)[n]? = some (beats es)[n] := List.getElem?_eq_getElem hn
  rw [stateAfter_succ hx] at h
  obtain ⟨k, hk, hbeat⟩ := Option.bind_eq_some_iff.mp h
  exact ⟨k, _, hx, hk, hbeat⟩

/-- While a task stays ready, the selections go from where they are towards it. -/
lemma before_of_ready (hsel : SelectsAt image r es m a) (hab : b ≠ a) (hmn : m < n)
    (hn : n ≤ (beats es).length)
    (hready : ∀ i k, m < i → i ≤ n → stateAfter image r es i = some k → k.isReady b = true) :
    ∀ k, stateAfter image r es n = some k → Before b a k.current := by
  induction n, hmn using Nat.le_induction with
  | base =>
    intro k hk
    obtain ⟨x, k₀, k₁, -, -, hk₁, -, hcur⟩ := hsel
    rw [hk₁] at hk
    obtain rfl := Option.some.inj hk
    exact .inl hcur
  | succ n hmn ih =>
    intro k' hk'
    obtain ⟨k, x, -, hk, hbeat⟩ := exists_beat hk' (by omega)
    have hbefore := ih (by omega) (fun i k h₁ h₂ => hready i k h₁ (by omega)) k hk
    have hb := hready n k (by omega) (by omega) hk
    have hb' := hready (n + 1) k' (by omega) le_rfl hk'
    rcases beat_round (beats_rotation hk) hbeat hb (hbefore.ne hab) with
      ⟨hcur, -⟩ | ⟨hi, hcur | hbtw⟩
    · rwa [hcur]
    · exact absurd hcur.symm (ne_of_isReady (beats_rotation hk') hi hb')
    · exact .inr (hbefore.pick hbtw)

/-- **No task overtakes another twice.** In every run, between two selections of a task every
other task is at some moment not ready, whatever tasks are created, block, wake, exit or are
reaped meanwhile. -/
theorem overtaken_once (hmn : m < n) (hm : SelectsAt image r es m a) (hn : SelectsAt image r es n a)
    (hab : b ≠ a) :
    ∃ i k, m < i ∧ i ≤ n ∧ stateAfter image r es i = some k ∧ k.isReady b = false := by
  by_contra hnone
  have hready : ∀ i k, m < i → i ≤ n → stateAfter image r es i = some k → k.isReady b = true := by
    intro i k h₁ h₂ hk
    by_contra hb
    exact hnone ⟨i, k, h₁, h₂, hk, Bool.eq_false_iff.mpr hb⟩
  obtain ⟨x, k, k', hx, hk, hk', hsel, hcur⟩ := hn
  have hlen : n < (beats es).length := (List.getElem?_eq_some_iff.mp hx).1
  have hbefore := before_of_ready hm hab hmn hlen.le hready k hk
  rw [stateAfter_succ hx, hk] at hk'
  rcases beat_round (beats_rotation hk) hk' (hready n k hmn le_rfl hk) (hbefore.ne hab) with
    ⟨-, hnot⟩ | ⟨-, heq | hbtw⟩
  · exact hnot hsel
  · exact hab (heq.symm.trans hcur)
  · exact ne_of_sbtw (hbefore.pick hbtw) hcur

end Runs

end Kernel

/-- A program starts another, and the timer ticks. -/
def tickRun : List Event :=
  [loadCall 4 0x400000 (-1) (-1) 0x800000 intMem,
    .syscall { noAnswers with image := some intImage },
    .timer, .timer, .timer]

/-- Between its two turns the program it has started lets the first one run. -/
theorem overtaken_once_tickRun :
    Kernel.SelectsAt intImage {} tickRun 4 1 ∧ Kernel.SelectsAt intImage {} tickRun 8 1 ∧
      ∃ i k, 4 < i ∧ i ≤ 8 ∧ Kernel.stateAfter intImage {} tickRun i = some k ∧
        k.isReady 0 = false := by
  have hfirst : Kernel.SelectsAt intImage {} tickRun 4 1 :=
    Kernel.selectsAt_of_eval (x := .handle .timer) rfl (by decide +kernel)
  have hsecond : Kernel.SelectsAt intImage {} tickRun 8 1 :=
    Kernel.selectsAt_of_eval (x := .handle .timer) rfl (by decide +kernel)
  exact ⟨hfirst, hsecond, Kernel.overtaken_once (by decide) hfirst hsecond (by decide)⟩

end TownOS
