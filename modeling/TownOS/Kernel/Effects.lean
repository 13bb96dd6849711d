import TownOS.Kernel.Step

/-!
What the kernel does to its state, once and for all.

Whatever a system call or an interrupt does short of switching tasks is a sequence of
a few kinds of effects. An `Aside` concerns other tasks and devices: keys are typed and
read, signals raised, bytes put into pipes and taken out, children collected. An `Effect`
may also change the running task, but not its registers, its state or how it stands with
signals (`Own`), or add a new task. It keeps count of the open files that are in no table
at the moment, because they are on their way into one or out of one. Invariants need be
checked on these few constructors only, and on the switch (`Scheduled`).

* `Aside.calm_or_cut`: what an aside does to the tasks;
* `presses_keyboardCallback`, `sweeps_reapSweep`: interrupts and the sweep;
* `schedule_scheduled`: how the switch ends.
-/

namespace TownOS

namespace Kernel

open Relation Runs

/-! ### Effects -/

/-- What a key press does. -/
inductive Press : Kernel → Kernel → Prop
  /-- A character is stored, and the readers are woken. -/
  | typed (k : Kernel) (c : UInt8) (hc : c ≠ 0) :
      Press k (schedulerWake { k with keyboard := kbdBufferPush k.keyboard c } .key)
  /-- The end of the input is noted, and the readers are woken. -/
  | ended (k : Kernel) :
      Press k (schedulerWake { k with keyboard := { k.keyboard with consoleEof := true } } .key)
  /-- A modifier is held or released. -/
  | modifiers (k : Kernel) (kb : Keyboard) (hring : kb.ring = k.keyboard.ring)
      (heof : kb.consoleEof = k.keyboard.consoleEof) : Press k { k with keyboard := kb }
  | raise (k : Kernel) (id : ℕ) (sig : ℤ) : Press k (signalRaise k id sig)

/-- What the kernel does beside the running task. -/
inductive Aside : Kernel → Kernel → Prop
  | press {k k' : Kernel} (h : Press k k') : Aside k k'
  /-- A character is taken from the keyboard, if there is one. -/
  | getKey (k : Kernel) : Aside k { k with keyboard := (keyboardGetchar k.keyboard).2 }
  /-- The end of the input is reported. -/
  | eofTaken (k : Kernel) : Aside k { k with keyboard := { k.keyboard with consoleEof := false } }
  /-- Bytes are taken from a pipe, and the writers are woken. -/
  | took (k : Kernel) (p n : ℕ) (hpos : 0 < pipeUsed (k.pipe p)) (hn : n ≤ pipeUsed (k.pipe p)) :
      Aside k (schedulerWake (k.setPipe p
        (some { k.pipe p with ring := ((k.pipe p).ring.take pipeSize n).2 })) .pipeWrite)
  /-- Bytes are put into a pipe, and the readers are woken. -/
  | gave (k : Kernel) (p : ℕ) (l : List UInt8) (hr : (k.pipe p).readers ≠ 0)
      (hl : l.length ≤ pipeSpace (k.pipe p)) :
      Aside k (schedulerWake (k.setPipe p
        (some { k.pipe p with ring := (k.pipe p).ring.fill pipeSize l })) .pipeRead)
  | newPipe (k : Kernel) : Aside k { k with pipes := k.pipes ++ [some Pipe.create] }
  /-- A pipe without ends is freed. -/
  | dropPipe (k : Kernel) (p : ℕ) (hr : (k.pipe p).readers = 0) (hw : (k.pipe p).writers = 0) :
      Aside k (k.setPipe p none)
  | collect (k : Kernel) (i : ℕ) {t : Task} (ht : k.task i = some t) (hz : t.state = .zombie)
      (hp : t.parentId = some k.current) : Aside k (collect k i t)
  | foreground (k : Kernel) (pgid : ℕ) : Aside k { k with foregroundPgid := pgid }
  | touch (k : Kernel) (write : Bool) (addr len : ℕ) : Aside k (k.touch write addr len)

/-- A change of the running task that leaves its place in the rotation alone. -/
structure Own (t t' : Task) : Prop where
  regs : t'.regs = t.regs
  state : t'.state = t.state
  waitReason : t'.waitReason = t.waitReason
  sigInterrupted : t'.sigInterrupted = t.sigInterrupted
  sigActive : t'.sigActive = t.sigActive
  id : t'.id = t.id
  parentId : t'.parentId = t.parentId
  pgid : t'.pgid = t.pgid
  exitStatus : t'.exitStatus = t.exitStatus
  aspace : t'.aspace = t.aspace
  cr3 : t'.cr3 = t.cr3

lemma own_setFd (fd : ℕ) (f : Option File) (t : Task) :
    Own t { t with fds := Function.update t.fds fd f } := by constructor <;> rfl

/-- The open files among two that may be inherited. -/
def inherited (inSrc outSrc : Option File) : Multiset File := ↑inSrc.toList + ↑outSrc.toList

/-- What the kernel does short of a switch, with the open files that are in no table. -/
inductive Effect : Multiset File × Kernel → Multiset File × Kernel → Prop
  | aside (h : Multiset File) {k k' : Kernel} (ha : Aside k k') : Effect (h, k) (h, k')
  | own (h : Multiset File) (k : Kernel) (f : Task → Task) (hf : ∀ t, Own t (f t))
      (hfds : ∀ t, (f t).fds = t.fds) : Effect (h, k) (h, k.modifyCurrent f)
  /-- A file of the running task is duplicated. -/
  | dup (h : Multiset File) (k : Kernel) (fd : ℕ) (f : File) (hf : k.currentFile fd = some f) :
      Effect (h, k) (f ::ₘ h, countEnd k f)
  /-- An end of a pipe is opened. -/
  | openEnd (h : Multiset File) (k : Kernel) (p : ℕ) (writable : Bool)
      (hp : ∃ x, k.pipes[p]? = some (some x)) :
      Effect (h, k) (⟨.pipe p, writable⟩ ::ₘ h, countEnd k ⟨.pipe p, writable⟩)
  /-- A file is put into the table of the running task. -/
  | put (h : Multiset File) (k : Kernel) (fd : ℕ) (f : File) (hfd : fd < maxFds)
      (hfree : k.currentFile fd = none) :
      Effect (f ::ₘ h, k) (h, k.setFd fd (some f))
  /-- A file is taken out of it. -/
  | take (h : Multiset File) (k : Kernel) (fd : ℕ) (f : File) (hf : k.currentFile fd = some f) :
      Effect (h, k) (f ::ₘ h, k.setFd fd none)
  | close (h : Multiset File) (k : Kernel) (f : File) : Effect (f ::ₘ h, k) (h, fileClose k f)
  /-- A task is started, with the files it inherits. -/
  | spawn (h : Multiset File) (k : Kernel) (image : Image) (pgid : ℕ) (inSrc outSrc : Option File) :
      Effect (inherited inSrc outSrc + h, k)
        (h, (k.addTask (freshTask image k.tasks.length (some k.current) pgid
          (childFds inSrc outSrc))).live (.registered k.tasks.length (some k.current)))

/-- A sequence of key presses. -/
abbrev Presses : Kernel → Kernel → Prop := ReflTransGen Press

/-- A sequence of effects beside the running task. -/
abbrev Asides : Kernel → Kernel → Prop := ReflTransGen Aside

/-- A sequence of effects, with the files that are in no table before and after. -/
abbrev HeldEffects : Multiset File × Kernel → Multiset File × Kernel → Prop := ReflTransGen Effect

/-- A sequence of effects that leaves no file outside the tables. -/
abbrev Effects (k k' : Kernel) : Prop := HeldEffects (0, k) (0, k')

variable {k k' : Kernel} {h h' : Multiset File}

lemma Presses.asides (hp : Presses k k') : Asides k k' :=
  ReflTransGen.mono (fun _ _ => Aside.press) _ _ hp

lemma Asides.held (ha : Asides k k') (h : Multiset File) : HeldEffects (h, k) (h, k') := by
  induction ha with
  | refl => exact .refl
  | tail _ ha ih => exact ih.tail (.aside h ha)

lemma Asides.effects (ha : Asides k k') : Effects k k' := ha.held 0

lemma Press.one (hp : Press k k') : Presses k k' := ReflTransGen.single hp

lemma Aside.one (ha : Aside k k') : Asides k k' := ReflTransGen.single ha

lemma Effect.one {s s' : Multiset File × Kernel} (he : Effect s s') : HeldEffects s s' :=
  ReflTransGen.single he

/-- What every effect preserves, a sequence of effects preserves. -/
lemma HeldEffects.invariant {P : Kernel → Prop} {s s' : Multiset File × Kernel}
    (he : HeldEffects s s') (hstep : ∀ s s', Effect s s' → P s.2 → P s'.2) (hs : P s.2) :
    P s'.2 := by
  induction he with
  | refl => exact hs
  | tail _ he ih => exact hstep _ _ he ih

/-! ### What an aside does to the tasks -/

/-- What happens to a task that does not run, a cut aside. -/
inductive Drift : Option Task → Option Task → Prop
  | same (o : Option Task) : Drift o o
  | woken (t : Task) (h : t.state = .blocked) : Drift (some t) (some (wakeTask t))
  | pending (t : Task) (sig : ℕ) (h : t.state ≠ .blocked) : Drift (some t) (some (setPending t sig))
  | destroyed (t : Task) (h : t.state = .zombie) : Drift (some t) (some (destroyAspace t))
  | reaped (t : Task) (h : t.state = .zombie) : Drift (some t) none

/-- The tasks drift, and nothing is recorded of their calls. -/
structure Calm (k k' : Kernel) : Prop where
  pile : k'.pile = k.pile
  current : k'.current = k.current
  idling : k'.idling = k.idling
  checkDue : k'.checkDue = k.checkDue
  length : k'.tasks.length = k.tasks.length
  calls : k'.calls = k.calls
  tasks : ∀ i, Drift (k.task i) (k'.task i)

lemma drift_regs {t t' : Task} (hd : Drift (some t) (some t')) : t'.regs = t.regs := by
  cases hd <;> rfl

/-- A task that is there after a calm change was there before. -/
lemma Calm.drift {i : ℕ} {t' : Task} (hc : Calm k k') (ht' : k'.task i = some t') :
    ∃ t, k.task i = some t ∧ Drift (some t) (some t') := by
  have hd := hc.tasks i
  rw [ht'] at hd
  generalize ho : k.task i = o at hd
  cases o with
  | none => cases hd
  | some t => exact ⟨t, rfl, hd⟩

/-- A sequence of calm changes. -/
abbrev Calms : Kernel → Kernel → Prop := ReflTransGen Calm

/-- A change of one task. -/
lemma calm_modifyTask {i : ℕ} {f : Task → Task}
    (h : ∀ t, k.task i = some t → Drift (some t) (some (f t))) : Calm k (k.modifyTask i f) := by
  refine ⟨rfl, rfl, rfl, rfl, List.length_modify .., rfl, fun j => ?_⟩
  rcases eq_or_ne j i with rfl | hj
  · rw [task_modifyTask_self]
    cases ht : k.task j with
    | none => exact .same _
    | some t => exact h t ht
  · rw [task_modifyTask_of_ne hj]
    exact .same _

/-- Who sleeps for the reason is woken, and nobody else. -/
lemma task_schedulerWake (reason : WaitReason) (i : ℕ) :
    (schedulerWake k reason).task i = (k.task i).map fun t =>
      if t.state = .blocked ∧ t.waitReason = reason then wakeTask t else t := by
  rw [task, schedulerWake, List.getElem?_map, task]
  cases k.tasks[i]? with
  | none => rfl
  | some o => cases o <;> rfl

lemma calm_schedulerWake (k : Kernel) (reason : WaitReason) : Calm k (schedulerWake k reason) := by
  refine ⟨rfl, rfl, rfl, rfl, List.length_map .., rfl, fun i => ?_⟩
  rw [task_schedulerWake]
  cases k.task i with
  | none => exact .same _
  | some t =>
    rw [Option.map_some]
    split_ifs with hb
    · exact .woken t hb.1
    · exact .same _

/-- Devices may change under a calm change. -/
lemma Calm.of_devices {k₀ : Kernel} (hc : Calm k₀ k') (htasks : k₀.tasks = k.tasks)
    (hpile : k₀.pile = k.pile) (hcur : k₀.current = k.current) (hidle : k₀.idling = k.idling)
    (hdue : k₀.checkDue = k.checkDue) (hcalls : k₀.calls = k.calls) : Calm k k' := by
  have htask : ∀ i, k₀.task i = k.task i := fun i => by rw [task, htasks, task]
  exact ⟨hc.pile.trans hpile, hc.current.trans hcur, hc.idling.trans hidle,
    hc.checkDue.trans hdue, hc.length.trans (congrArg _ htasks), hc.calls.trans hcalls,
    fun i => htask i ▸ hc.tasks i⟩

lemma Calm.refl (k : Kernel) : Calm k k := ⟨rfl, rfl, rfl, rfl, rfl, rfl, fun _ => .same _⟩

/-- Calm changes leave the pile alone. -/
lemma Calms.pile (hc : Calms k k') : k'.pile = k.pile := by
  induction hc with
  | refl => rfl
  | tail _ hc ih => exact hc.pile.trans ih

lemma Calms.idling (hc : Calms k k') : k'.idling = k.idling := by
  induction hc with
  | refl => rfl
  | tail _ hc ih => exact hc.idling.trans ih

lemma Calms.calls (hc : Calms k k') : k'.calls = k.calls := by
  induction hc with
  | refl => rfl
  | tail _ hc ih => exact hc.calls.trans ih

lemma calm_destroyAspace {i : ℕ} {t : Task} (ht : k.task i = some t) (hz : t.state = .zombie) :
    Calm k (k.modifyTask i destroyAspace) := by
  refine calm_modifyTask fun t' ht' => ?_
  obtain rfl := Option.some.inj (ht.symm.trans ht')
  exact .destroyed _ hz

/-- Only the record of a zombie is freed. -/
lemma calm_dropTask {i : ℕ} {t : Task} (ht : k.task i = some t) (hz : t.state = .zombie) :
    Calm k (k.dropTask i) := by
  refine ⟨rfl, rfl, rfl, rfl, List.length_set .., rfl, fun j => ?_⟩
  rw [task_dropTask]
  split_ifs with hj
  · subst hj
    rw [ht]
    exact .reaped _ hz
  · exact .same _

lemma Calm.live (hc : Calm k k') (x : Life) : Calm k (k'.live x) :=
  ⟨hc.pile, hc.current, hc.idling, hc.checkDue, hc.length, hc.calls, hc.tasks⟩

/-- Closing a file changes its pipe, wakes who waits for it, and may free the pipe: what these
do to the kernel, `file_close` does. -/
lemma fileClose_rel {R : Kernel → Kernel → Prop} (hrefl : ∀ k, R k k)
    (htrans : ∀ k₁ k₂ k₃, R k₁ k₂ → R k₂ k₃ → R k₁ k₃) (hset : ∀ k p x, R k (k.setPipe p x))
    (hwake : ∀ k reason, R k (schedulerWake k reason)) (k : Kernel) (f : File) :
    R k (fileClose k f) := by
  rw [fileClose]
  cases f.kind with
  | console => exact hrefl k
  | pipe p =>
    dsimp only
    have hwoken := fun x reason => htrans k _ _ (hset k p x) (hwake (k.setPipe p x) reason)
    refine iteInduction (fun _ => htrans _ _ _ ?_ (hset _ p none)) fun _ => ?_ <;> split_ifs <;>
      first
        | exact hset k p _
        | exact hwoken _ _

lemma calm_countEnd (k : Kernel) (f : File) : Calm k (countEnd k f) := by
  rw [countEnd]
  cases f.kind with
  | console => exact .refl k
  | pipe p => exact (Calm.refl _).of_devices rfl rfl rfl rfl rfl rfl

lemma calm_fileClose (k : Kernel) (f : File) : Calm k (fileClose k f) := by
  rw [fileClose]
  cases f.kind with
  | console => exact .refl k
  | pipe p =>
    dsimp only
    have hset : ∀ k₁ x, Calm k k₁ → Calm k (k₁.setPipe p x) := fun k₁ x hc =>
      ⟨hc.pile, hc.current, hc.idling, hc.checkDue, hc.length, hc.calls, hc.tasks⟩
    have hone := fun x => hset k x (.refl k)
    have hwake := fun x reason => (calm_schedulerWake (k.setPipe p x) reason).of_devices
      (k := k) rfl rfl rfl rfl rfl rfl
    refine iteInduction (fun _ => hset _ _ ?_) fun _ => ?_ <;> split_ifs <;>
      first
        | exact hone _
        | exact hwake _ _

/-- A key press is calm, or a signal cuts a sleeping task's call short. -/
lemma Press.calm_or_cut (hp : Press k k') :
    Calm k k' ∨ ∃ i t sig, k.task i = some t ∧ t.state = .blocked ∧
      k' = (k.note (.cut i t.regs.cpu)).modifyTask i (cutTask sig) := by
  cases hp with
  | typed c hc => exact .inl ((calm_schedulerWake _ _).of_devices rfl rfl rfl rfl rfl rfl)
  | ended => exact .inl ((calm_schedulerWake _ _).of_devices rfl rfl rfl rfl rfl rfl)
  | modifiers kb hring heof => exact .inl ((Calm.refl _).of_devices rfl rfl rfl rfl rfl rfl)
  | raise id sig =>
    rw [signalRaise]
    split_ifs
    · exact .inl (.refl k)
    cases ht : k.task id with
    | none => exact .inl (.refl k)
    | some t =>
      dsimp only
      split_ifs with hz hb
      · exact .inl (.refl k)
      · exact .inr ⟨id, t, sig.toNat, ht, hb, rfl⟩
      · refine .inl (calm_modifyTask fun t' ht' => ?_)
        obtain rfl := Option.some.inj (ht.symm.trans ht')
        exact .pending t _ hb

/-- So it is when `task_wait` collects a child. -/
lemma calm_collect {i : ℕ} {t : Task} (ht : k.task i = some t) (hz : t.state = .zombie) :
    Calm k (collect k i t) := by
  rw [collect]
  refine Calm.live ?_ _
  split_ifs
  · exact (calm_dropTask (k := k.live _) ht hz).of_devices rfl rfl rfl rfl rfl rfl
  · exact calm_dropTask ht hz

/-- An aside is calm, or a signal cuts a sleeping task's call short. -/
lemma Aside.calm_or_cut (ha : Aside k k') :
    Calm k k' ∨ ∃ i t sig, k.task i = some t ∧ t.state = .blocked ∧
      k' = (k.note (.cut i t.regs.cpu)).modifyTask i (cutTask sig) := by
  cases ha with
  | press hp => exact hp.calm_or_cut
  | getKey => exact .inl ((Calm.refl _).of_devices rfl rfl rfl rfl rfl rfl)
  | eofTaken => exact .inl ((Calm.refl _).of_devices rfl rfl rfl rfl rfl rfl)
  | took p n hpos hn => exact .inl ((calm_schedulerWake _ _).of_devices rfl rfl rfl rfl rfl rfl)
  | gave p l hr hl => exact .inl ((calm_schedulerWake _ _).of_devices rfl rfl rfl rfl rfl rfl)
  | newPipe => exact .inl ((Calm.refl _).of_devices rfl rfl rfl rfl rfl rfl)
  | dropPipe p hr hw => exact .inl ((Calm.refl _).of_devices rfl rfl rfl rfl rfl rfl)
  | collect i ht hz hp => exact .inl (calm_collect ht hz)
  | foreground pgid => exact .inl ((Calm.refl _).of_devices rfl rfl rfl rfl rfl rfl)
  | touch write addr len => exact .inl ((Calm.refl _).of_devices rfl rfl rfl rfl rfl rfl)

lemma Aside.pile (ha : Aside k k') : k'.pile = k.pile := by
  rcases ha.calm_or_cut with hc | ⟨i, t, sig, -, -, rfl⟩
  · exact hc.pile
  · rfl

lemma Asides.pile (ha : Asides k k') : k'.pile = k.pile := by
  induction ha with
  | refl => rfl
  | tail _ ha ih => exact ha.pile.trans ih

/-- An effect is calm, or cuts a call short, or changes the running task, or starts one. -/
inductive Effect.Kind (k : Kernel) : Kernel → Prop
  | calm {k' : Kernel} (hc : Calm k k') : Kind k k'
  | cut (i : ℕ) (t : Task) (sig : ℕ) (ht : k.task i = some t) (hb : t.state = .blocked) :
      Kind k ((k.note (.cut i t.regs.cpu)).modifyTask i (cutTask sig))
  | own (f : Task → Task) (hf : ∀ t, Own t (f t)) : Kind k (k.modifyCurrent f)
  | spawn (image : Image) (pgid : ℕ) (fds : ℕ → Option File) :
      Kind k ((k.addTask (freshTask image k.tasks.length (some k.current) pgid fds)).live
        (.registered k.tasks.length (some k.current)))

/-- What happens beside the running task is calm, or cuts a call short. -/
lemma Aside.kind (ha : Aside k k') : Effect.Kind k k' := by
  rcases ha.calm_or_cut with hc | ⟨i, t, sig, ht, hb, rfl⟩
  · exact .calm hc
  · exact .cut i t sig ht hb

/-- An effect is of one of the four kinds. -/
lemma Effect.kind {s s' : Multiset File × Kernel} (he : Effect s s') : Effect.Kind s.2 s'.2 := by
  cases he with
  | aside h ha => exact ha.kind
  | own h k f hf hfds => exact .own f hf
  | dup h k fd f hf => exact .calm (calm_countEnd k f)
  | openEnd h k p writable hp => exact .calm (calm_countEnd k ⟨.pipe p, writable⟩)
  | put h k fd f hfd hfree => exact .own _ fun t => own_setFd fd (some f) t
  | take h k fd f hf => exact .own _ fun t => own_setFd fd none t
  | close h k f => exact .calm (calm_fileClose k f)
  | spawn h k image pgid inSrc outSrc => exact .spawn image pgid _

/-! ### Beside the running task -/

/-- A signal to a group is raised on one member after the other. -/
lemma presses_signalRaiseGroup (k : Kernel) (pgid : ℕ) (sig : ℤ) :
    Presses k (signalRaiseGroup k pgid sig) := by
  refine foldl_reflTransGen (fun k id => ?_) _ k
  cases k.task id with
  | none => exact .refl
  | some t =>
    dsimp only
    split_ifs
    · exact .refl
    · exact (Press.raise k id sig).one

/-- The interrupt of a key. -/
lemma presses_keyboardCallback (k : Kernel) (c : UInt8) : Presses k (keyboardCallback k c) := by
  rw [keyboardCallback]
  dsimp only
  refine iteInduction (fun _ => (Press.modifiers k _ (by rfl) (by rfl)).one) fun _ =>
    iteInduction (fun _ => (Press.modifiers k _ (by rfl) (by rfl)).one) fun _ =>
    iteInduction (fun _ => (Press.modifiers k _ (by rfl) (by rfl)).one) fun _ =>
    iteInduction (fun _ => (Press.modifiers k _ (by rfl) (by rfl)).one) fun _ => ?_
  split_ifs with hctrl hc hd hchar
  · exact presses_signalRaiseGroup k _ _
  · exact (Press.ended k).one
  · exact .refl
  · exact (Press.typed k _ hchar).one
  · exact .refl

/-- Draining the keyboard takes one character after the other: what this does to the kernel,
draining does. -/
lemma drain_rel {R : Kernel → Kernel → Prop} (hrefl : ∀ k, R k k)
    (htrans : ∀ k₁ k₂ k₃, R k₁ k₂ → R k₂ k₃ → R k₁ k₃)
    (hget : ∀ k, R k { k with keyboard := (keyboardGetchar k.keyboard).2 }) (n : ℕ) (k : Kernel) :
    R k { k with keyboard := (drain k.keyboard n).2 } := by
  induction n generalizing k with
  | zero => exact hrefl k
  | succ n ih =>
    rw [drain]
    dsimp only
    split_ifs
    · exact hget k
    · exact htrans _ _ _ (hget k) (ih { k with keyboard := (keyboardGetchar k.keyboard).2 })

/-- The keys are taken out of the ring one by one. -/
lemma asides_drain (n : ℕ) (k : Kernel) : Asides k { k with keyboard := (drain k.keyboard n).2 } :=
  drain_rel (fun _ => .refl) (fun _ _ _ => .trans) (fun k => (Aside.getKey k).one) n k

lemma calm_rouse (k : Kernel) (p : ℕ) :
    Calm k (k.modifyTask p fun t =>
      if t.state = .blocked ∧ t.waitReason = .child then wakeTask t else t) := by
  refine calm_modifyTask fun t _ => ?_
  split_ifs with hb
  · exact .woken t hb.1
  · exact .same _

/-- The parent is woken if it waits for a child. -/
lemma calms_wakeParent (k : Kernel) (p : Option ℕ) : Calms k (wakeParent k p) := by
  cases p with
  | none => exact .refl
  | some p =>
    rw [wakeParent]
    split_ifs
    · exact .single (calm_rouse k p)
    · exact .refl

/-! ### The switch -/

/-- One thing `reap_sweep` does: the address space of a zombie is destroyed, or the `task_t` of
one that nobody can wait for is freed. -/
inductive Sweep : Kernel → Kernel → Prop
  | strip (k : Kernel) (i : ℕ) {t : Task} (ht : k.task i = some t) (hz : t.state = .zombie)
      (hi : i ≠ k.current) (has : t.aspace = true) :
      Sweep k ((k.modifyTask i destroyAspace).live (.destroyed i k.loaded))
  | drop (k : Kernel) (i : ℕ) {t : Task} (ht : k.task i = some t) (hz : t.state = .zombie)
      (hi : i ≠ k.current) (has : t.aspace = false) (hp : parentAlive k t.parentId = false) :
      Sweep k ((k.dropTask i).live (.swept i))

/-- A sequence of such things. -/
abbrev Sweeps : Kernel → Kernel → Prop := ReflTransGen Sweep

lemma sweeps_sweepTask (k : Kernel) (i : ℕ) : Sweeps k (sweepTask k i) := by
  rw [sweepTask]
  cases ht : k.task i with
  | none => exact .refl
  | some t =>
    dsimp only
    by_cases hz : t.state ≠ .zombie ∨ i = k.current
    · rw [if_pos hz]
    · rw [if_neg hz]
      push Not at hz
      obtain ⟨k₁, hk₁⟩ : ∃ k₁, k₁ = if t.aspace = true then
        (k.modifyTask i destroyAspace).live (.destroyed i k.loaded) else k := ⟨_, rfl⟩
      have h₁ : Sweeps k k₁ ∧ k₁.current = k.current ∧ ∃ t₁, k₁.task i = some t₁ ∧
          t₁.state = .zombie ∧ t₁.aspace = false ∧ t₁.parentId = t.parentId := by
        rw [hk₁]
        split_ifs with has
        · refine ⟨.single (.strip k i ht hz.1 hz.2 has), rfl, destroyAspace t, ?_, hz.1, rfl, rfl⟩
          exact (task_modifyTask_self (k := k)).trans (congrArg _ ht)
        · exact ⟨.refl, rfl, t, ht, hz.1, Bool.eq_false_iff.mpr has, rfl⟩
      obtain ⟨h₁, hcur, t₁, ht₁, hz₁, has₁, hp₁⟩ := h₁
      rw [← hk₁]
      split_ifs with hp
      · exact h₁
      · refine h₁.tail (.drop k₁ i ht₁ hz₁ (hcur ▸ hz.2) has₁ ?_)
        rw [hp₁]
        exact Bool.eq_false_iff.mpr hp

/-- The sweep goes through the table. -/
lemma sweeps_reapSweep (k : Kernel) : Sweeps k (reapSweep k) :=
  foldl_reflTransGen sweeps_sweepTask _ k

/-- Sweeping is calm: it is about zombies. -/
lemma Sweep.calm (hs : Sweep k k') : Calm k k' := by
  cases hs with
  | strip i ht hz hi has => exact (calm_destroyAspace ht hz).live _
  | drop i ht hz hi has hp => exact (calm_dropTask ht hz).live _

lemma Sweeps.calms (hs : Sweeps k k') : Calms k k' :=
  ReflTransGen.mono (fun _ _ => Sweep.calm) _ _ hs

/-- The running task is left alone, and no user memory is touched. -/
structure Spared (k k' : Kernel) : Prop where
  current : k'.current = k.current
  touched : k'.touched = k.touched
  task : k'.task k.current = k.task k.current

lemma Spared.trans {k₁ k₂ : Kernel} (h : Spared k k₁) (h' : Spared k₁ k₂) : Spared k k₂ := by
  refine ⟨h'.current.trans h.current, h'.touched.trans h.touched, ?_⟩
  rw [← h.task, ← h.current]
  exact h'.task

/-- The running task is no zombie. -/
lemma Sweep.spared (hs : Sweep k k') : Spared k k' := by
  cases hs with
  | strip i ht hz hi has => exact ⟨rfl, rfl, task_modifyTask_of_ne (k := k) hi.symm⟩
  | drop i ht hz hi has hp =>
    refine ⟨rfl, rfl, (task_dropTask (k := k)).trans ?_⟩
    rw [if_neg hi.symm]

lemma Sweeps.spared (hs : Sweeps k k') : Spared k k' := by
  induction hs with
  | refl => exact ⟨rfl, rfl, rfl⟩
  | tail _ hs ih => exact ih.trans hs.spared

/-- What `saveCurrent` makes of the running task. -/
def savedTask (r : Regs) (t : Task) : Task :=
  { t with
    regs := r
    state := if t.state = .running then .ready else t.state }

/-- Only the current task is saved. -/
lemma task_saveCurrent (i : ℕ) :
    (saveCurrent k).task i =
      if i = k.current then (k.task i).map (savedTask k.pile) else k.task i :=
  task_modifyTask

/-- What `dispatch` makes of the kernel. -/
structure Dispatched (k : Kernel) (next : ℕ) (t : Task) (k' : Kernel) : Prop where
  current : k'.current = next
  pile : k'.pile = if next = k.current then k.pile else t.regs
  cr3 : k'.cr3 = if next = k.current then k.cr3 else t.cr3
  loaded : k'.loaded = if next = k.current then k.loaded else next
  task : ∀ i, k'.task i = if i = next then some { t with state := .running } else k.task i
  length : k'.tasks.length = k.tasks.length
  pipes : k'.pipes = k.pipes
  keyboard : k'.keyboard = k.keyboard
  idling : k'.idling = k.idling
  calls : k'.calls = k.calls
  lives : k'.lives = k.lives

lemma dispatch_dispatched {next : ℕ} {t : Task} (ht : k.task next = some t) :
    Dispatched k next t (dispatch k next) := by
  have htask : ∀ i, (k.modifyTask next fun t => { t with state := .running }).task i =
      if i = next then some { t with state := .running } else k.task i := by
    intro i
    rw [task_modifyTask]
    split_ifs with hi
    · rw [hi, ht]
      rfl
    · rfl
  have hlen : (k.modifyTask next fun t => { t with state := .running }).tasks.length =
      k.tasks.length := List.length_modify ..
  rw [dispatch]
  by_cases hcur : next = k.current
  · rw [if_pos (by exact hcur)]
    exact ⟨hcur.symm, (if_pos hcur).symm, (if_pos hcur).symm, (if_pos hcur).symm, htask, hlen,
      rfl, rfl, rfl, rfl, rfl⟩
  · rw [if_neg (by exact hcur), htask, if_pos rfl]
    exact ⟨rfl, (if_neg hcur).symm, (if_neg hcur).symm, (if_neg hcur).symm, htask, hlen,
      rfl, rfl, rfl, rfl, rfl⟩

lemma exists_of_isReady {i : ℕ} (h : k.isReady i = true) :
    ∃ t, k.task i = some t ∧ t.state = .ready := by
  obtain ⟨t, ht, hready⟩ := Option.any_eq_true _ _ |>.mp h
  exact ⟨t, ht, of_decide_eq_true hready⟩

/-- A task that is not asleep is not woken by its own exit. -/
lemma spared_wakeParent {t : Task} (ht : k.currentTask = some t) (hb : t.state ≠ .blocked)
    (p : Option ℕ) : Spared k (wakeParent k p) := by
  cases p with
  | none => exact ⟨rfl, rfl, rfl⟩
  | some p =>
    rw [wakeParent]
    refine iteInduction (fun _ => ⟨rfl, rfl, ?_⟩) fun _ => ⟨rfl, rfl, rfl⟩
    rw [task_modifyTask, show k.task k.current = some t from ht]
    split_ifs
    · rw [Option.map_some, if_neg fun h => hb h.1]
    · rfl

/-- How `schedule` ends. -/
inductive Scheduled (k : Kernel) : Kernel → Prop
  | idle (h : k.idling = true) : Scheduled k k
  | gone {k₁ : Kernel} (hs : Sweeps k k₁) (hn : k₁.currentTask = none) : Scheduled k k₁
  | switched {k₁ : Kernel} {next : ℕ} (hs : Sweeps k k₁) (hr : (saveCurrent k₁).isReady next) :
      Scheduled k (dispatch (saveCurrent k₁) next)
  | parked {k₁ : Kernel} (hs : Sweeps k k₁) : Scheduled k { saveCurrent k₁ with idling := true }

/-- `find_next_ready` finds a task that is ready. -/
lemma isReady_of_findNextReady {start next : ℕ} (h : findNextReady k start = some next) :
    k.isReady next = true :=
  List.find?_some h

/-- The search goes all the way round. -/
lemma findNextReady_ne_none (h : anyTaskReady k = true) (start : ℕ) :
    findNextReady k start ≠ none := by
  obtain ⟨j, hj, hready⟩ := List.any_eq_true.mp h
  rw [List.mem_range] at hj
  intro hnone
  rw [findNextReady, List.find?_eq_none] at hnone
  refine hnone j (List.mem_map.mpr ?_) hready
  have hpos : 0 < k.tasks.length := by omega
  have hlt := Nat.mod_lt (start + 1) hpos
  refine ⟨(j + (k.tasks.length - (start + 1) % k.tasks.length)) % k.tasks.length,
    List.mem_range.mpr (Nat.mod_lt _ hpos), ?_⟩
  calc (start + ((j + (k.tasks.length - (start + 1) % k.tasks.length)) % k.tasks.length + 1)) %
        k.tasks.length
      = ((start + 1) % k.tasks.length + (j + (k.tasks.length - (start + 1) % k.tasks.length))) %
        k.tasks.length := by
        rw [show ∀ a, start + (a + 1) = start + 1 + a by omega, Nat.add_mod_mod, Nat.mod_add_mod]
    _ = (j + k.tasks.length) % k.tasks.length := by
        congr 1
        omega
    _ = j := by rw [Nat.add_mod_right, Nat.mod_eq_of_lt hj]

/-- `schedule` sweeps, and then goes on with a task or parks the CPU. -/
lemma schedule_scheduled (k : Kernel) : Scheduled k (schedule k) := by
  rw [schedule]
  by_cases hi : k.idling = true
  · rw [if_pos hi]
    exact .idle hi
  · rw [if_neg hi]
    have hs := sweeps_reapSweep k
    dsimp only
    cases hc : (reapSweep k).currentTask with
    | none => exact .gone hs hc
    | some t =>
      dsimp only
      cases hn : findNextReady (saveCurrent (reapSweep k)) (saveCurrent (reapSweep k)).current with
      | none => exact .parked hs
      | some next => exact .switched hs (isReady_of_findNextReady hn)

/-! ### Frames -/

/-- Short of a switch, the pile and the current task stay. -/
lemma Effect.Kind.frame (hk : Effect.Kind k k') :
    k'.pile = k.pile ∧ k'.idling = k.idling ∧ k'.current = k.current := by
  cases hk with
  | calm hc => exact ⟨hc.pile, hc.idling, hc.current⟩
  | cut | own | spawn => exact ⟨rfl, rfl, rfl⟩

/-- Effects leave the pile, the parking flag and the choice of the running task alone. -/
lemma HeldEffects.frame {s s' : Multiset File × Kernel} (he : HeldEffects s s') :
    s'.2.pile = s.2.pile ∧ s'.2.idling = s.2.idling ∧ s'.2.current = s.2.current := by
  refine he.invariant (P := fun x => x.pile = s.2.pile ∧ x.idling = s.2.idling ∧
    x.current = s.2.current) (fun s s' hs h => ?_) ⟨rfl, rfl, rfl⟩
  obtain ⟨hp, hi, hc⟩ := hs.kind.frame
  exact ⟨hp.trans h.1, hi.trans h.2.1, hc.trans h.2.2⟩

lemma Effects.frame (he : Effects k k') :
    k'.pile = k.pile ∧ k'.idling = k.idling ∧ k'.current = k.current :=
  HeldEffects.frame he

/-- No user memory is touched, and `check_signals` is due if it was. -/
structure Frame (k k' : Kernel) : Prop where
  touched : k'.touched = k.touched
  checkDue : k'.checkDue = k.checkDue
  foreground : k'.foregroundPgid = k.foregroundPgid

/-- And nothing happens to a system call or to the keyboard. -/
structure QuietFrame (k k' : Kernel) : Prop extends Frame k k' where
  calls : k'.calls = k.calls
  keyboard : k'.keyboard = k.keyboard

/-- And nothing happens to a pipe. -/
structure SwitchFrame (k k' : Kernel) : Prop extends QuietFrame k k' where
  pipes : k'.pipes = k.pipes

lemma Press.frame (hp : Press k k') : Frame k k' := by
  cases hp with
  | typed | ended | modifiers => exact ⟨rfl, rfl, rfl⟩
  | raise id sig =>
    rw [signalRaise]
    refine iteInduction (fun _ => ⟨rfl, rfl, rfl⟩) fun _ => ?_
    cases k.task id with
    | none => exact ⟨rfl, rfl, rfl⟩
    | some t =>
      refine iteInduction (fun _ => ⟨rfl, rfl, rfl⟩) fun _ => ?_
      exact iteInduction (fun _ => ⟨rfl, rfl, rfl⟩) fun _ => ⟨rfl, rfl, rfl⟩

lemma QuietFrame.refl (k : Kernel) : QuietFrame k k := ⟨⟨rfl, rfl, rfl⟩, rfl, rfl⟩

lemma QuietFrame.trans {k₁ : Kernel} (h : QuietFrame k k₁) (h' : QuietFrame k₁ k') :
    QuietFrame k k' :=
  ⟨⟨h'.touched.trans h.touched, h'.checkDue.trans h.checkDue, h'.foreground.trans h.foreground⟩,
    h'.calls.trans h.calls, h'.keyboard.trans h.keyboard⟩

lemma SwitchFrame.refl (k : Kernel) : SwitchFrame k k := ⟨.refl k, rfl⟩

lemma SwitchFrame.trans {k₁ : Kernel} (h : SwitchFrame k k₁) (h' : SwitchFrame k₁ k') :
    SwitchFrame k k' :=
  ⟨h.toQuietFrame.trans h'.toQuietFrame, h'.pipes.trans h.pipes⟩

lemma quietFrame_countEnd (k : Kernel) (f : File) : QuietFrame k (countEnd k f) := by
  rw [countEnd]
  cases f.kind <;> exact ⟨⟨rfl, rfl, rfl⟩, rfl, rfl⟩

lemma quietFrame_fileClose (k : Kernel) (f : File) : QuietFrame k (fileClose k f) :=
  fileClose_rel .refl (fun _ _ _ => .trans) (fun _ _ _ => ⟨⟨rfl, rfl, rfl⟩, rfl, rfl⟩)
    (fun _ _ => ⟨⟨rfl, rfl, rfl⟩, rfl, rfl⟩) k f

lemma quietFrame_closeFd (k : Kernel) (fd : ℕ) : QuietFrame k (closeFd k fd) := by
  have hset : QuietFrame k (k.setFd fd none) := ⟨⟨rfl, rfl, rfl⟩, rfl, rfl⟩
  rw [closeFd]
  cases k.currentFile fd with
  | none => exact .refl k
  | some f => exact hset.trans (quietFrame_fileClose _ f)

lemma quietFrame_closeAll (k : Kernel) : QuietFrame k (closeAll k) :=
  List.foldlRecOn _ closeFd (QuietFrame.refl k) fun k₁ h fd _ => h.trans (quietFrame_closeFd k₁ fd)

lemma switchFrame_collect (k : Kernel) (i : ℕ) (t : Task) : SwitchFrame k (collect k i t) := by
  rw [collect]
  split_ifs <;> exact ⟨⟨⟨rfl, rfl, rfl⟩, rfl, rfl⟩, rfl⟩

lemma switchFrame_wakeParent (k : Kernel) (p : Option ℕ) : SwitchFrame k (wakeParent k p) := by
  cases p with
  | none => exact .refl k
  | some p => exact iteInduction (fun _ => ⟨⟨⟨rfl, rfl, rfl⟩, rfl, rfl⟩, rfl⟩) fun _ => .refl k

lemma Sweeps.switchFrame (hs : Sweeps k k') : SwitchFrame k k' := by
  induction hs with
  | refl => exact .refl k
  | tail _ hs ih =>
    refine ih.trans ?_
    cases hs <;> exact ⟨⟨⟨rfl, rfl, rfl⟩, rfl, rfl⟩, rfl⟩

lemma switchFrame_dispatch (k : Kernel) (next : ℕ) : SwitchFrame k (dispatch k next) := by
  have hmod : SwitchFrame k (k.modifyTask next fun t => { t with state := .running }) :=
    ⟨⟨⟨rfl, rfl, rfl⟩, rfl, rfl⟩, rfl⟩
  rw [dispatch]
  refine iteInduction (fun _ => hmod) fun _ => ?_
  split
  · exact hmod
  · exact hmod.trans ⟨⟨⟨rfl, rfl, rfl⟩, rfl, rfl⟩, rfl⟩

/-- A switch touches no user memory, no key and no pipe. -/
lemma switchFrame_schedule (k : Kernel) : SwitchFrame k (schedule k) := by
  have hsave : ∀ k₁, SwitchFrame k₁ (saveCurrent k₁) := fun _ => ⟨⟨⟨rfl, rfl, rfl⟩, rfl, rfl⟩, rfl⟩
  have hsched := schedule_scheduled k
  generalize schedule k = k' at hsched ⊢
  cases hsched with
  | idle hi => exact .refl k
  | gone hs hn => exact hs.switchFrame
  | switched hs hr => exact (hs.switchFrame.trans (hsave _)).trans (switchFrame_dispatch _ _)
  | parked hs => exact (hs.switchFrame.trans (hsave _)).trans ⟨⟨⟨rfl, rfl, rfl⟩, rfl, rfl⟩, rfl⟩

lemma switchFrame_resume (k : Kernel) : SwitchFrame k (resume k) := by
  have hstir : SwitchFrame k { k with idling := false } := ⟨⟨⟨rfl, rfl, rfl⟩, rfl, rfl⟩, rfl⟩
  rw [resume]
  refine iteInduction (fun _ => ?_) fun _ => .refl k
  dsimp only
  split
  · exact hstir.trans (switchFrame_dispatch _ _)
  · exact hstir

/-- A task that exits closes its files and wakes its parent, and `schedule` is called. -/
lemma quietFrame_taskExit (k : Kernel) (status : ℕ) : QuietFrame k (taskExit k status) := by
  have hbury : ∀ k₁ : Kernel, QuietFrame k₁ (bury k₁ status) := fun _ => ⟨⟨rfl, rfl, rfl⟩, rfl, rfl⟩
  have hclosed := (quietFrame_closeAll k).trans (hbury _)
  rw [taskExit]
  generalize bury (closeAll k) status = k₁ at hclosed ⊢
  have hwoken := (switchFrame_wakeParent k₁ (k₁.currentTask.bind Task.parentId)).toQuietFrame
  exact (hclosed.trans hwoken).trans (switchFrame_schedule _).toQuietFrame

/-! ### Changing the running task -/

lemma held_store (h : Multiset File) (k : Kernel) (addr : ℕ) (bytes : List UInt8) :
    HeldEffects (h, k) (h, k.store addr bytes) :=
  ((Aside.touch k true addr bytes.length).one.held h).tail
    (.own h _ _ (fun _ => by constructor <;> rfl) (by intro _; rfl))

end Kernel

end TownOS
