import TownOS.Kernel.Overtaking

/-!
What is pending when the kernel returns to ring 3 (`check_signals`).

`check_signals` is the last thing on every way out of the kernel, and delivers a signal to the
task it finds on the CPU. But it may end that task, and then `task_exit` calls `schedule`,
which puts another one on the CPU, or parks it until there is one. Nothing looks at the
pending signals of that task before it runs in ring 3.

* `Chooses`: the CPU goes to the task that `find_next_ready` chooses;
* `lateSwitch`: the states in which it chooses after the last call of `check_signals`;
* `returns_quiet_iff`: in a run every return to ring 3 is to a task without a deliverable signal
  if and only if the task chosen in every such state is;
* `signal_left`: a run in which one is not.
-/

namespace TownOS

/-- `check_signals` would have nothing to deliver to the task: a handler runs, or none of the
signals 1 to 31 is pending. -/
def Task.Quiet (t : Task) : Prop :=
  t.sigActive = true ∨ ∀ sig, 1 ≤ sig → sig < maxSigs → t.sigPending.getLsbD sig = false

namespace Kernel

open Relation Runs

variable {k k' k₁ : Kernel} {i : ℕ}

lemma lowestPending_eq_none_iff {t : Task} :
    lowestPending t = none ↔ ∀ sig, 1 ≤ sig → sig < maxSigs → t.sigPending.getLsbD sig = false := by
  rw [lowestPending, List.find?_eq_none]
  constructor
  · intro h sig hlow hhigh
    exact Bool.eq_false_iff.mpr (h sig (List.mem_range'_1.mpr ⟨hlow, by omega⟩))
  · intro h sig hsig
    obtain ⟨hlow, hhigh⟩ := List.mem_range'_1.mp hsig
    rw [h sig hlow (by rw [maxSigs] at *; omega)]
    exact Bool.false_ne_true

instance (t : Task) : Decidable t.Quiet :=
  decidable_of_iff (t.sigActive = true ∨ lowestPending t = none)
    (or_congr_right lowestPending_eq_none_iff)

/-! ### The selectors of ring 3 -/

/-- All frames go to ring 3. -/
structure Selectors (k : Kernel) : Prop where
  pile : k.pile.cs = userCode
  regs : ∀ i t, k.task i = some t → t.regs.cs = userCode

/-- One task changes, but not in its selectors. -/
lemma Selectors.change (h : Selectors k) {f : Task → Task}
    (htask : ∀ j, k'.task j = if j = i then (k.task j).map f else k.task j)
    (hf : ∀ t, (f t).regs.cs = t.regs.cs) (hcs : k'.pile.cs = userCode) : Selectors k' := by
  refine ⟨hcs, fun j t' ht' => ?_⟩
  rw [htask] at ht'
  obtain ⟨t, ht, ⟨-, rfl⟩ | rfl⟩ := task_of_ite ht'
  · exact (hf t).trans (h.regs j t ht)
  · exact h.regs j t' ht

lemma Selectors.of_tasks (h : Selectors k) (htasks : k'.tasks = k.tasks)
    (hcs : k'.pile.cs = userCode) : Selectors k' := by
  refine ⟨hcs, fun i t ht => h.regs i t ?_⟩
  rwa [task, htasks] at ht

lemma Selectors.calm (h : Selectors k) (hc : Calm k k') : Selectors k' := by
  refine ⟨hc.pile ▸ h.pile, fun i t' ht' => ?_⟩
  obtain ⟨t, ht, hd⟩ := hc.drift ht'
  rw [drift_regs hd]
  exact h.regs i t ht

lemma Selectors.calms (h : Selectors k) (hc : Calms k k') : Selectors k' := by
  induction hc with
  | refl => exact h
  | tail _ hc ih => exact ih.calm hc

lemma Selectors.kind (h : Selectors k) (hk : Effect.Kind k k') : Selectors k' := by
  cases hk with
  | calm hc => exact h.calm hc
  | cut i t sig ht hb =>
    exact h.change (f := cutTask sig) (fun _ => task_modifyTask) (fun _ => rfl) h.pile
  | own f hf =>
    exact h.change (fun _ => task_modifyTask) (fun t => congrArg _ (hf t).regs) h.pile
  | spawn image pgid fds =>
    refine ⟨h.pile, fun i t ht => ?_⟩
    rw [task_live, task_addTask] at ht
    split_ifs at ht
    · obtain rfl := Option.some.inj ht
      rfl
    · exact h.regs i t ht

lemma Selectors.dispatch (h : Selectors k) {next : ℕ} (hr : k.isReady next = true) :
    Selectors (dispatch k next) := by
  obtain ⟨t, ht, -⟩ := exists_of_isReady hr
  have hd := dispatch_dispatched ht
  refine ⟨?_, fun i t' ht' => ?_⟩
  · rw [hd.pile]
    split_ifs
    · exact h.pile
    · exact h.regs next t ht
  · rw [hd.task] at ht'
    split_ifs at ht'
    · obtain rfl := Option.some.inj ht'
      exact h.regs next t ht
    · exact h.regs i t' ht'

/-- Every move keeps the selectors. -/
theorem Selectors.move {s s' : Mode × Kernel} (hm : Move s s') (h : Selectors s.2) :
    Selectors s'.2 := by
  cases hm with
  | effect he => exact h.kind he.kind
  | press hp => exact h.kind (Aside.kind (.press hp))
  | enter k vector rip => exact h.of_tasks rfl h.pile
  | user k r mem hstep hat =>
    exact h.change (f := fun t => { t with mem := mem }) (fun _ => task_modifyTask) (fun _ => rfl)
      (hstep.1.trans h.pile)
  | reply k v => exact h.of_tasks rfl h.pile
  | interrupt k hc =>
    exact h.change (f := fun t => { t with sigInterrupted := false }) (fun _ => task_modifyTask)
      (fun _ => rfl) h.pile
  | goBack k ht hact =>
    refine h.change (goBack_goesBack k _).task (fun _ => rfl) ?_
    rw [pile_goBack ht]
    rfl
  | enterHandler k ht hact hsig =>
    refine h.change (task_enterHandler k _ _) (fun _ => rfl) ?_
    rw [pile_enterHandler]
    exact h.pile
  | checked k | condemn k sig => exact h.of_tasks rfl h.pile
  | bury k status hcause hclosed =>
    exact h.change (f := fun t =>
      { t with exitStatus := status % 256, state := .zombie, waitReason := .none })
      (fun _ => task_modifyTask) (fun _ => rfl) h.pile
  | rouse k => exact h.calms (calms_wakeParent k _)
  | @park k reason kb hb hc =>
    exact h.change (f := fun t => { t with state := .blocked, waitReason := reason })
      (fun _ => task_modifyTask) (fun _ => rfl) h.pile
  | sweep hm hs => exact h.calm hs.calm
  | lost k hn => exact h
  | save hm k =>
    refine ⟨h.pile, fun i t' ht' => ?_⟩
    rw [task_saveCurrent] at ht'
    obtain ⟨t, ht, ⟨-, rfl⟩ | rfl⟩ := task_of_ite ht'
    · exact h.pile
    · exact h.regs i t' ht
  | dispatch k hr => exact h.dispatch hr
  | rest k | stir k => exact h.of_tasks rfl h.pile

/-! ### Switches leave the signals alone -/

/-- Nothing happens to the signals of any task. -/
def Unsignalled (k k' : Kernel) : Prop :=
  ∀ i t', k'.task i = some t' →
    ∃ t, k.task i = some t ∧ t'.sigPending = t.sigPending ∧ t'.sigActive = t.sigActive

lemma Unsignalled.refl (k : Kernel) : Unsignalled k k := fun _ t ht => ⟨t, ht, rfl, rfl⟩

lemma Unsignalled.trans (h : Unsignalled k k₁) (h' : Unsignalled k₁ k') : Unsignalled k k' := by
  intro i t' ht'
  obtain ⟨t₁, ht₁, hp', ha'⟩ := h' i t' ht'
  obtain ⟨t, ht, hp, ha⟩ := h i t₁ ht₁
  exact ⟨t, ht, hp'.trans hp, ha'.trans ha⟩

lemma Unsignalled.of_tasks (h : k'.tasks = k.tasks) : Unsignalled k k' := by
  intro i t ht
  exact ⟨t, by rwa [task, h] at ht, rfl, rfl⟩

lemma unsignalled_modifyTask {f : Task → Task}
    (hf : ∀ t, (f t).sigPending = t.sigPending ∧ (f t).sigActive = t.sigActive) :
    Unsignalled k (k.modifyTask i f) := by
  intro j t' ht'
  rw [task_modifyTask] at ht'
  obtain ⟨t, ht, ⟨-, rfl⟩ | rfl⟩ := task_of_ite ht'
  · exact ⟨t, ht, hf t⟩
  · exact ⟨t', ht, rfl, rfl⟩

lemma Sweeps.unsignalled (hs : Sweeps k k') : Unsignalled k k' := by
  induction hs with
  | refl => exact .refl k
  | tail _ hs ih =>
    refine ih.trans ?_
    cases hs with
    | strip i ht hz hi has =>
      exact unsignalled_modifyTask (f := destroyAspace) fun _ => ⟨rfl, rfl⟩
    | drop i ht hz hi has hp =>
      intro j t' ht'
      rw [task_live, task_dropTask] at ht'
      split_ifs at ht'
      exact ⟨t', ht', rfl, rfl⟩

/-- The switch itself. -/
lemma unsignalled_dispatch {next : ℕ} (hr : k.isReady next = true) :
    Unsignalled k (dispatch k next) := by
  obtain ⟨t, ht, -⟩ := exists_of_isReady hr
  intro i t' ht'
  rw [(dispatch_dispatched ht).task] at ht'
  split_ifs at ht' with hi
  · obtain rfl := Option.some.inj ht'
    exact ⟨t, hi ▸ ht, rfl, rfl⟩
  · exact ⟨t', ht', rfl, rfl⟩

lemma unsignalled_saveCurrent (k : Kernel) : Unsignalled k (saveCurrent k) :=
  unsignalled_modifyTask fun _ => ⟨rfl, rfl⟩

/-! ### Who is chosen -/

/-- A sweep makes nobody ready, and takes nobody out of the rotation. -/
lemma Sweep.isReady_eq (hs : Sweep k k') (i : ℕ) : k'.isReady i = k.isReady i := by
  cases hs with
  | strip j ht hz hi has =>
    rw [isReady, isReady, task_live, task_modifyTask]
    split_ifs
    · cases k.task i <;> rfl
    · rfl
  | drop j ht hz hi has hp =>
    rw [isReady, isReady, task_live, task_dropTask]
    split_ifs with hij
    · rw [hij, ht, Option.any_none, Option.any_some, hz]
      rfl
    · rfl

lemma Sweep.length_tasks (hs : Sweep k k') : k'.tasks.length = k.tasks.length := by
  cases hs with
  | strip => exact List.length_modify ..
  | drop => exact List.length_set ..

/-- The search looks only at who is ready. -/
lemma findNextReady_congr (hlen : k'.tasks.length = k.tasks.length)
    (hready : ∀ i, k'.isReady i = k.isReady i) (start : ℕ) :
    findNextReady k' start = findNextReady k start := by
  rw [findNextReady, findNextReady, hlen, funext hready]

/-- Sweeping does not change who is next. -/
lemma Sweeps.findNextReady (hs : Sweeps k k') (start : ℕ) :
    findNextReady k' start = findNextReady k start := by
  induction hs with
  | refl => rfl
  | tail _ hs ih => exact (findNextReady_congr hs.length_tasks hs.isReady_eq start).trans ih

/-- The CPU goes to the task that `find_next_ready` chooses, or is parked if there is none, and
nothing happens to any signal. -/
structure Chooses (k k' : Kernel) : Prop where
  unsignalled : Unsignalled k k'
  next : k'.idling = true ∧ findNextReady k k.current = none ∨
    k'.idling = false ∧ findNextReady k k.current = some k'.current

/-- `schedule`, called by a task that has exited. -/
lemma chooses_schedule {t : Task} (hi : k.idling = false) (ht : k.currentTask = some t)
    (hz : t.state = .zombie) : Chooses k (schedule k) := by
  have hs := sweeps_reapSweep k
  have hcur : (reapSweep k).currentTask = some t := by
    rw [currentTask, hs.spared.current, hs.spared.task]
    exact ht
  have hsaved : ∀ i, (saveCurrent (reapSweep k)).isReady i = (reapSweep k).isReady i := by
    intro i
    rw [isReady, isReady, task_saveCurrent]
    split_ifs with hi
    · rw [hi, show (reapSweep k).task (reapSweep k).current = some t from hcur, Option.map_some,
        Option.any_some, Option.any_some, savedTask, hz]
      rfl
    · rfl
  have hfind : findNextReady (saveCurrent (reapSweep k)) (reapSweep k).current =
      findNextReady k k.current := by
    rw [findNextReady_congr (List.length_modify ..) hsaved, hs.spared.current, hs.findNextReady]
  have hsame := hs.unsignalled.trans (unsignalled_saveCurrent _)
  rw [schedule, if_neg (by simp [hi])]
  dsimp only
  rw [hcur]
  dsimp only
  rw [show (saveCurrent (reapSweep k)).current = (reapSweep k).current from rfl, hfind]
  cases hn : findNextReady k k.current with
  | none => exact ⟨hsame.trans (.of_tasks rfl), .inl ⟨rfl, hn⟩⟩
  | some next =>
    have hready := isReady_of_findNextReady (hfind.trans hn)
    obtain ⟨t', ht', -⟩ := exists_of_isReady hready
    have hd := dispatch_dispatched ht'
    refine ⟨hsame.trans (unsignalled_dispatch hready), .inr ⟨?_, ?_⟩⟩
    · exact hd.idling.trans (hs.calms.idling.trans hi)
    · rw [hn, hd.current]

/-- The parked CPU is woken. -/
lemma chooses_resume (hi : k.idling = true) : Chooses k (resume k) := by
  have hidle : Unsignalled k { k with idling := false } := .of_tasks rfl
  have hresumed := resume_resumed k
  generalize resume k = k' at hresumed ⊢
  cases hresumed with
  | stays hany =>
    refine ⟨.refl k, .inl ⟨hi, ?_⟩⟩
    by_contra hsome
    obtain ⟨next, hn⟩ := Option.ne_none_iff_exists'.mp hsome
    exact hany (anyTaskReady_of_isReady (isReady_of_findNextReady hn))
  | switched hn =>
    have hready := isReady_of_findNextReady hn
    obtain ⟨t', ht', -⟩ := exists_of_isReady hready
    have hd := dispatch_dispatched ht'
    exact ⟨hidle.trans (unsignalled_dispatch hready),
      .inr ⟨hd.idling, hn.trans (congrArg some hd.current.symm)⟩⟩

/-- What `task_exit` does before it calls `schedule`: the descriptors are closed, which may wake
others, and the parent is woken. -/
def exiting (k : Kernel) (status : ℕ) : Kernel :=
  let k := bury (closeAll k) status
  wakeParent k (k.currentTask.bind Task.parentId)

/-- `task_exit` hands the CPU over. -/
lemma chooses_taskExit (hi : k.idling = false) (hp : Present k) (status : ℕ) :
    Chooses (exiting k status) (taskExit k status) := by
  have hclosed := (deeds_closeAll k).passive
  obtain ⟨t, ht⟩ := hp.closeAll
  rw [show taskExit k status = schedule (exiting k status) from rfl, exiting]
  generalize closeAll k = k₁ at hclosed ht ⊢
  have hidle : (bury k₁ status).idling = false := hclosed.idling.trans hi
  obtain ⟨t', ht', hz⟩ : ∃ t', (bury k₁ status).currentTask = some t' ∧ t'.state = .zombie :=
    ⟨_, (task_modifyTask_self (k := k₁)).trans (congrArg _ ht), rfl⟩
  generalize bury k₁ status = k₂ at hidle ht' ⊢
  have hmild := mild_wakeParent k₂ (k₂.currentTask.bind Task.parentId)
  have hcalms := calms_wakeParent k₂ (k₂.currentTask.bind Task.parentId)
  generalize wakeParent k₂ (k₂.currentTask.bind Task.parentId) = k₃ at hmild hcalms ⊢
  obtain ⟨t₃, ht₃, hkin⟩ := hmild.kin' (i := k₂.current) ht'
  have hcur₃ : k₃.currentTask = some t₃ := by rwa [currentTask, hmild.current]
  exact chooses_schedule (hcalms.idling.trans hidle) hcur₃ (hkin.zombie_iff.mpr hz)

/-! ### When `check_signals` is due -/

lemma HeldEffects.checkDue {s s' : Multiset File × Kernel} (he : HeldEffects s s') :
    s'.2.checkDue = s.2.checkDue := by
  refine HeldEffects.invariant (P := fun x => x.checkDue = s.2.checkDue) he
    (fun s s' he h => ?_) rfl
  have hkind := he.kind
  generalize s'.2 = x at hkind ⊢
  cases hkind with
  | calm hc => exact hc.checkDue.trans h
  | cut | own | spawn => exact h

lemma Ends.checkDue {w : Bool} (he : Ends k w k') : k'.checkDue = k.checkDue := by
  cases he with
  | served v hd => exact HeldEffects.checkDue hd.effects
  | interrupted hr hb hc =>
    have hread := HeldEffects.checkDue hr.deeds.effects
    exact hread
  | parked hr hb hc =>
    have hread := HeldEffects.checkDue hr.deeds.effects
    exact (switchFrame_schedule _).checkDue.trans hread
  | exited hcall => exact (quietFrame_taskExit k _).checkDue
  | ended => exact (quietFrame_taskExit (k.live _) _).checkDue
  | wentBack ht hact hok hcall => exact (goBack_goesBack k _).checkDue
  | gone hn => rfl

lemma Checked.checkDue (hc : Checked k k') : k'.checkDue = k.checkDue := by
  cases hc with
  | stays => rfl
  | killed ht hact hsig hh => exact (quietFrame_taskExit _ _).checkDue
  | unfit => exact (quietFrame_taskExit _ _).checkDue
  | enters ht hact hsig hh hok => rfl

/-- Once the kernel is left, no call of `check_signals` is due. -/
lemma checkDue_leave (hi : (leave k).idling = false) : (leave k).checkDue = false := by
  rw [leave] at hi ⊢
  split_ifs at hi ⊢ with hstay
  · rcases hstay with h | h
    · rw [hi] at h
      cases h
    · simpa using h
  · exact (checkSignals_checked _).checkDue

/-- Every way into the kernel from ring 3 ends with a call of `check_signals`. -/
lemma handled_checkDue {e : Event} (hi : k.idling = false) (hk : k.handled e = some k') :
    k'.checkDue = true ∨ ∃ r mem, e = .user r mem ∧ k' = k.userStep r mem := by
  cases handling_of_handled hk with
  | user => exact .inr ⟨_, _, rfl, rfl⟩
  | syscall a => exact .inl (syscallBody_ends _ a).checkDue
  | timer => exact .inl (switchFrame_schedule _).checkDue
  | key c => exact .inl (HeldEffects.checkDue (presses_keyboardCallback _ c).asides.effects)
  | irq v => exact .inl rfl
  | parked hi' => cases hi'.symm.trans hi

/-- The parked CPU stays parked or goes on with the call of `check_signals` that was due. -/
lemma checkDue_resume_pressed (k : Kernel) (e : Event) :
    (resume (k.pressed e)).checkDue = k.checkDue :=
  (switchFrame_resume _).checkDue.trans
    (HeldEffects.checkDue (presses_pressed k e).asides.effects)

/-! ### Returns to ring 3 -/

/-- `check_signals` ends the running task: the state in which it calls `task_exit`, and the
status. It does so for the default action, for `SIG_KILL`, and if the stack cannot take the signal
frame. -/
def doom (k : Kernel) : Option (Kernel × ℕ) :=
  k.currentTask.bind fun t =>
    if t.sigActive then none
    else (lowestPending t).bind fun sig =>
      if t.sigHandlers sig = 0 ∨ sig = sigKill then
        some ((k.modifyCurrent fun t => clearPending t sig).live (.condemned k.current sig),
          sigExitStatus sig)
      else if !userRangeOk (signalFrame k.pile.userRsp) (BitVec.ofNat 64 (sizeofRegs + 8)) then
        some (k.live (.condemned k.current sigSegv), sigExitStatus sigSegv)
      else none

/-- The state in which `find_next_ready` chooses a task that goes to ring 3 without another call
of `check_signals`: the CPU was parked when that call ended the running task, or it ends it now. -/
def lateSwitch (k : Kernel) (e : Event) : Option Kernel :=
  (k.handled e).bind fun k₁ =>
    if k.idling ∧ !k.checkDue then some (k.pressed e)
    else if !k₁.idling ∧ k₁.checkDue then
      ({ k₁ with checkDue := false } : Kernel).doom.map fun x => exiting x.1 x.2
    else none

/-- The running task has nothing to be delivered. -/
def AtRest (k : Kernel) : Prop := ∃ t, k.currentTask = some t ∧ t.Quiet

/-- If the step returns to ring 3, it is to a task that has nothing to be delivered. -/
def ReturnsQuiet (k : Kernel) (e : Event) : Prop :=
  ∀ k', k.step e = some k' → k'.idling = false → k'.AtRest

/-- The task that `find_next_ready` would choose has nothing to be delivered. -/
def NextQuiet (k : Kernel) : Prop :=
  ∀ next ∈ findNextReady k k.current, ∀ t ∈ k.task next, t.Quiet

/-- If a task is to go to ring 3 that `check_signals` does not look at any more, there is nothing
to be delivered to it when it is chosen. -/
def LateQuiet (k : Kernel) (e : Event) : Prop := ∀ k₀ ∈ k.lateSwitch e, k₀.NextQuiet

instance (k : Kernel) (e : Event) : Decidable (LateQuiet k e) :=
  inferInstanceAs (Decidable (∀ k₀ ∈ k.lateSwitch e, ∀ next ∈ findNextReady k₀ k₀.current,
    ∀ t ∈ k₀.task next, t.Quiet))

lemma Task.quiet_congr {t t' : Task} (hp : t'.sigPending = t.sigPending)
    (ha : t'.sigActive = t.sigActive) : t'.Quiet ↔ t.Quiet := by
  rw [Task.Quiet, Task.Quiet, hp, ha]

/-- The task that is chosen has the signals it had before. -/
lemma Chooses.atRest_iff (h : Chooses k k') (hp : Present k') :
    (k'.idling = false → k'.AtRest) ↔ k.NextQuiet := by
  obtain ⟨hsame, ⟨hi, hnone⟩ | ⟨hi, hnext⟩⟩ := h
  · refine iff_of_true (fun hi' => ?_) fun next hmem => ?_
    · rw [hi] at hi'
      cases hi'
    · rw [hnone] at hmem
      cases hmem
  · obtain ⟨t', ht'⟩ := hp
    obtain ⟨t, ht, hpend, hact⟩ := hsame _ t' ht'
    have hquiet := Task.quiet_congr hpend hact
    rw [NextQuiet, hnext]
    constructor
    · intro hrest next hmem t₁ ht₁
      obtain rfl := Option.some.inj hmem
      obtain ⟨t₂, ht₂, hq⟩ := hrest hi
      obtain rfl := Option.some.inj (ht'.symm.trans ht₂)
      obtain rfl := Option.some.inj (ht.symm.trans ht₁)
      exact hquiet.mp hq
    · exact fun hnext _ => ⟨t', ht', hquiet.mpr (hnext _ rfl t ht)⟩

/-- `check_signals` ends the running task, or leaves nothing to be delivered to it. -/
lemma checkSignals_doom {t : Task} (hcs : k.pile.cs = userCode) (ht : k.currentTask = some t)
    (hrun : t.state = .running) :
    (∃ k₁ status, k.doom = some (k₁, status) ∧ checkSignals k = taskExit k₁ status ∧
      k₁.idling = k.idling ∧ Present k₁) ∨
    k.doom = none ∧ (checkSignals k).AtRest := by
  rw [checkSignals, if_neg (by rw [hcs]; decide), ht, doom, ht, Option.bind_some]
  dsimp only
  rw [if_neg (show ¬t.state = .zombie by rw [hrun]; decide)]
  cases hact : t.sigActive with
  | true => exact .inr ⟨rfl, t, ht, .inl hact⟩
  | false =>
    rw [if_neg Bool.false_ne_true, if_neg Bool.false_ne_true]
    cases hsig : lowestPending t with
    | none => exact .inr ⟨rfl, t, ht, .inr (lowestPending_eq_none_iff.mp hsig)⟩
    | some sig =>
      rw [Option.bind_some]
      dsimp only
      by_cases hh : t.sigHandlers sig = 0 ∨ sig = sigKill
      · rw [if_pos hh, if_pos hh]
        exact .inl ⟨_, _, rfl, rfl, rfl, Present.modifyCurrent ⟨t, ht⟩ _⟩
      rw [if_neg hh, if_neg hh, deliverToHandler]
      split_ifs with hfit
      · exact .inl ⟨_, _, rfl, rfl, rfl, t, ht⟩
      · have hentered : (enterHandler k t sig).currentTask =
            some (intoHandler k.pile t.sigTrampoline sig t) := by
          refine (task_enterHandler k t sig k.current).trans ?_
          rw [if_pos rfl, show k.task k.current = some t from ht, Option.map_some]
        exact .inr ⟨rfl, _, hentered, .inl rfl⟩

/-! ### Runs -/

/-- What holds between two steps, as far as signals go. -/
structure Standing (k : Kernel) : Prop where
  rotation : Rotation (modeOf k) k
  selectors : Selectors k
  notDue : k.idling = false → k.checkDue = false

lemma standing_boot (image : Image) (r : Regs) : Standing (boot image r) := by
  refine ⟨Rotation.boot image r, ⟨rfl, fun i t ht => ?_⟩, fun _ => rfl⟩
  cases i with
  | zero =>
    obtain rfl := Option.some.inj ht
    rfl
  | succ i => cases ht

lemma Standing.step {e : Event} (h : Standing k) (hk : k.step e = some k') : Standing k' := by
  have hmoves := step_moves hk
  refine ⟨?_, ?_, ?_⟩
  · exact Moves.invariant (I := fun s => Rotation s.1 s.2) hmoves (fun _ _ hm h => h.turn hm.turn)
      h.rotation
  · exact Moves.invariant (I := fun s => Selectors s.2) hmoves (fun _ _ hm h => h.move hm)
      h.selectors
  · obtain ⟨k₁, -, rfl⟩ := Option.map_eq_some_iff.mp hk
    exact checkDue_leave

lemma Standing.handled {e : Event} (h : Standing k) (hk : k.handled e = some k') :
    Rotation (modeOf k') k' ∧ Selectors k' := by
  have hleads : Leads (fun _ => True) (stageOf k, k) k' := handled_leads hk
  have hmoves := Actions.moves hleads
  rw [mode_stageOf, mode_stageOf] at hmoves
  exact ⟨Moves.invariant (I := fun s => Rotation s.1 s.2) hmoves (fun _ _ hm h => h.turn hm.turn)
    h.rotation, Moves.invariant (I := fun s => Selectors s.2) hmoves (fun _ _ hm h => h.move hm)
    h.selectors⟩

/-- **One step.** A return to ring 3 leaves nothing to be delivered if and only if the task was
looked at, or there was nothing when it was chosen. -/
theorem Standing.returnsQuiet_iff {e : Event} (h : Standing k)
    (hrest : k.idling = false → k.AtRest) :
    ReturnsQuiet k e ↔ LateQuiet k e := by
  cases hk₁ : k.handled e with
  | none =>
    refine iff_of_true (fun k' hk => ?_) fun k₀ hk₀ => ?_
    · rw [Kernel.step, hk₁] at hk
      cases hk
    · rw [lateSwitch, hk₁] at hk₀
      cases hk₀
  | some k₁ =>
  have hstep : k.step e = some (leave k₁) := congrArg (Option.map leave) hk₁
  have hpresent : Present (leave k₁) := by
    obtain ⟨t, ht, -⟩ := (h.step hstep).rotation.current
    exact ⟨t, ht⟩
  obtain ⟨hrot₁, hsel₁⟩ := h.handled hk₁
  have hret : ReturnsQuiet k e ↔ ((leave k₁).idling = false → (leave k₁).AtRest) := by
    rw [ReturnsQuiet, hstep]
    simp
  rw [hret, LateQuiet, lateSwitch, hk₁, Option.bind_some]
  by_cases hparked : k.idling ∧ !k.checkDue
  · -- the CPU was parked by a call of `check_signals`
    obtain rfl := handled_of_idling hparked.1 hk₁
    have hleave : leave (resume (k.pressed e)) = resume (k.pressed e) :=
      if_pos (.inr (by rw [checkDue_resume_pressed]; exact hparked.2))
    have hidle : (k.pressed e).idling = true := (presses_pressed k e).idling.trans hparked.1
    rw [hleave] at hpresent ⊢
    rw [if_pos hparked, (chooses_resume hidle).atRest_iff hpresent]
    simp
  rw [if_neg hparked]
  by_cases hdue : !k₁.idling ∧ k₁.checkDue
  · have hi₁ : k₁.idling = false := by simpa using hdue.1
    have hleave : leave k₁ = checkSignals { k₁ with checkDue := false } :=
      if_neg (by simp [hi₁, hdue.2])
    obtain ⟨t, ht, hrun, -⟩ := hrot₁.current
    rw [modeOf, hi₁] at hrun
    rw [if_pos hdue]
    rw [hleave] at hpresent ⊢
    obtain ⟨k₂, status, hdoom, hexit, hidle, hp⟩ | ⟨hnone, hquiet⟩ :=
      checkSignals_doom (k := { k₁ with checkDue := false }) hsel₁.pile ht hrun
    · rw [hexit] at hpresent ⊢
      rw [hdoom, (chooses_taskExit (hidle.trans hi₁) hp status).atRest_iff hpresent]
      simp
    · rw [hnone]
      exact iff_of_true (fun _ => hquiet) (by simp)
  · -- the CPU is parked, or this is a step of ring 3
    rw [if_neg hdue]
    refine iff_of_true (fun hi' => ?_) (by simp)
    have hstay : leave k₁ = k₁ := by
      refine if_pos ?_
      by_contra hno
      rw [not_or] at hno
      exact hdue (by simpa using hno)
    rw [hstay] at hi' ⊢
    have hdue₁ : k₁.checkDue = false := by simpa [hi'] using hdue
    have hi : k.idling = false := by
      by_contra hidle
      rw [Bool.not_eq_false] at hidle
      obtain rfl := handled_of_idling hidle hk₁
      rw [checkDue_resume_pressed] at hdue₁
      exact hparked ⟨hidle, by rw [hdue₁]; rfl⟩
    obtain hdue' | ⟨r, mem, rfl, rfl⟩ := handled_checkDue hi hk₁
    · rw [hdue₁] at hdue'
      cases hdue'
    · obtain ⟨t, ht, hquiet⟩ := hrest hi
      exact ⟨_, (task_modifyTask_self (k := k.setPile r)).trans (congrArg _ ht), hquiet⟩

/-- Along a whole run. -/
lemma Standing.along_iff {es : List Event} (h : Standing k) (hrest : k.idling = false → k.AtRest) :
    Along Kernel.step ReturnsQuiet k es ↔ Along Kernel.step LateQuiet k es := by
  induction es generalizing k with
  | nil => rfl
  | cons e es ih =>
    have hone := h.returnsQuiet_iff (e := e) hrest
    constructor
    · rintro ⟨hret, hrest'⟩
      exact ⟨hone.mp hret, fun k' hk => (ih (h.step hk) (hret k' hk)).mp (hrest' k' hk)⟩
    · rintro ⟨hlate, hrest'⟩
      have hret := hone.mpr hlate
      exact ⟨hret, fun k' hk => (ih (h.step hk) (hret k' hk)).mpr (hrest' k' hk)⟩

/-- **No deliverable signal is left behind.** In a run every return to ring 3 is to a task that
runs a handler or has no pending signal, if and only if this is so of every task that
`find_next_ready` chooses when `check_signals` has ended the running one. -/
theorem returns_quiet_iff (image : Image) (r : Regs) (es : List Event) :
    Along step ReturnsQuiet (boot image r) es ↔ Along step LateQuiet (boot image r) es := by
  have hnone : ∀ sig, (0 : BitVec 32).getLsbD sig = false := fun _ => BitVec.getLsbD_zero
  exact (standing_boot image r).along_iff fun _ => ⟨_, rfl, .inr fun sig _ _ => hnone sig⟩

end Kernel

/-- A program starts another, and sends a signal to itself. -/
def oneSignal : List Event :=
  [loadCall 4 0x400010 (-1) (-1) 0x800000 nameMem,
    .syscall { noAnswers with image := some intImage },
    loadCall 15 0 2 0 0x800000 nameMem]

/-- The program is ended by its signal, and the other one goes to ring 3 with nothing pending. -/
theorem returns_quiet_iff_oneSignal :
    (Runs.exec Kernel.step (boot intImage {}) oneSignal).any (fun k =>
        (k.lateSwitch (.syscall noAnswers)).isSome) = true ∧
      Runs.Along Kernel.step Kernel.ReturnsQuiet (boot intImage {})
        (oneSignal ++ [.syscall noAnswers]) := by
  refine ⟨by decide +kernel, (Kernel.returns_quiet_iff intImage {} _).mpr ?_⟩
  decide +kernel

/-- A program starts another, and sends a signal to it and to itself. -/
def twoSignals : List Event :=
  [loadCall 4 0x400010 (-1) (-1) 0x800000 nameMem,
    .syscall { noAnswers with image := some intImage },
    loadCall 15 1 2 0 0x800000 nameMem, .syscall noAnswers,
    loadCall 15 0 2 0 0x800000 nameMem]

/-- The program is ended by its signal on the way out of the kernel, and the other one goes to
ring 3 with `SIG_INT` pending and no handler. -/
theorem signal_left :
    ∃ k k' t, Runs.exec Kernel.step (boot intImage {}) twoSignals = some k ∧
      k.step (.syscall noAnswers) = some k' ∧ k'.idling = false ∧ k'.current = 1 ∧
      k'.currentTask = some t ∧ t.sigActive = false ∧ t.sigPending.getLsbD 2 = true ∧
      ¬Runs.Along Kernel.step Kernel.ReturnsQuiet (boot intImage {})
        (twoSignals ++ [.syscall noAnswers]) := by
  have hrun : (Runs.exec Kernel.step (boot intImage {}) twoSignals).any (fun k =>
      (k.step (.syscall noAnswers)).any fun k' => k'.idling = false ∧ k'.current = 1 ∧
        k'.currentTask.any fun t => t.sigActive = false ∧ t.sigPending.getLsbD 2 = true) =
          true := by
    decide +kernel
  obtain ⟨k, hk, h⟩ := Option.any_eq_true _ _ |>.mp hrun
  obtain ⟨k', hk', h⟩ := Option.any_eq_true _ _ |>.mp h
  obtain ⟨hi, hcur, h⟩ := of_decide_eq_true h
  obtain ⟨t, ht, h⟩ := Option.any_eq_true _ _ |>.mp h
  obtain ⟨hact, hpend⟩ := of_decide_eq_true h
  refine ⟨k, k', t, hk, hk', hi, hcur, ht, hact, hpend, fun halong => ?_⟩
  obtain ⟨t', ht', hquiet⟩ := halong.last hk k' hk' hi
  obtain rfl := Option.some.inj (ht.symm.trans ht')
  rcases hquiet with hactive | hnone
  · rw [hact] at hactive
    cases hactive
  · rw [hnone 2 (by decide) (by decide)] at hpend
    cases hpend

end TownOS
