import TownOS.Kernel.Actions

/-!
The steps of the machine as sequences of moves.

A `Move` is what an action does to the rotation, to the open files and to the signals, without
the rest of its data; a task that is going to exit is still running. An invariant may say
something else in every mode, and needs to be checked on the moves only.

* `step_moves`: every step is a sequence of moves;
* `run_moves`: so is every run;
* `Moves.invariant`: what every move preserves, a sequence of moves preserves.
-/

namespace TownOS

namespace Kernel

open Relation Runs

/-- Where the kernel is between two moves. -/
inductive Mode where
  /-- It works for the running task, and some open files are in no table. -/
  | busy (held : Multiset File)
  /-- The running task has exited, and its parent has not been told. -/
  | dying
  /-- The running task has exited or fallen asleep. -/
  | leaving
  /-- The registers of the task that was running are saved. -/
  | saved
  /-- The CPU is parked in `idle_until_runnable`. -/
  | idle

/-- The mode between two steps. -/
def modeOf (k : Kernel) : Mode := if k.idling then .idle else .busy 0

/-- The modes in which `schedule` is called. -/
def Mode.Yields (m : Mode) : Prop := m = .busy 0 ∨ m = .leaving

/-- What the kernel does, mode by mode. -/
inductive Move : Mode × Kernel → Mode × Kernel → Prop
  | effect {h h' : Multiset File} {k k' : Kernel} (he : Effect (h, k) (h', k')) :
      Move (.busy h, k) (.busy h', k')
  /-- A key is pressed while the CPU is parked. -/
  | press {k k' : Kernel} (hp : Press k k') : Move (.idle, k) (.idle, k')
  | enter (k : Kernel) (vector rip : Word) : Move (.busy 0, k) (.busy 0, k.enter vector rip)
  | user (k : Kernel) (r : Regs) (mem : ℕ → UInt8) (hstep : k.pile.UserStep r)
      (hat : ¬AtInt k.mem k.pile.rip) : Move (.busy 0, k) (.busy 0, k.userStep r mem)
  | reply (k : Kernel) (v : Word) : Move (.busy 0, k) (.busy 0, k.reply v)
  | interrupt (k : Kernel) (hc : k.cutShort = true) : Move (.busy 0, k) (.busy 0, interrupt k)
  | goBack (k : Kernel) {t : Task} (ht : k.currentTask = some t) (hact : t.sigActive = true) :
      Move (.busy 0, k) (.busy 0, goBack k t)
  | enterHandler (k : Kernel) {t : Task} {sig : ℕ} (ht : k.currentTask = some t)
      (hact : t.sigActive = false) (hsig : lowestPending t = some sig) :
      Move (.busy 0, k) (.busy 0, enterHandler k t sig)
  /-- `check_signals` is called. -/
  | checked (k : Kernel) : Move (.busy 0, k) (.busy 0, { k with checkDue := false })
  /-- A signal is going to end the running task. -/
  | condemn (k : Kernel) (sig : ℕ) : Move (.busy 0, k) (.busy 0, k.live (.condemned k.current sig))
  /-- The running task becomes a zombie, with all its files closed. -/
  | bury (k : Kernel) (status : ℕ) (hcause : Cause k.lives k.current k.pile status)
      (hclosed : ∀ fd, k.currentFile fd = none) : Move (.busy 0, k) (.dying, bury k status)
  /-- Its parent is told. -/
  | rouse (k : Kernel) :
      Move (.dying, k) (.leaving, wakeParent k (k.currentTask.bind Task.parentId))
  | park (k : Kernel) {reason : WaitReason} {kb : Keyboard} (hb : Blocks k reason kb)
      (hc : cutShort { k with keyboard := kb } = false) :
      Move (.busy 0, k) (.leaving, park { k with keyboard := kb } reason)
  | sweep {m : Mode} {k k' : Kernel} (hm : m.Yields) (hs : Sweep k k') : Move (m, k) (m, k')
  /-- There is no running task to switch from. -/
  | lost (k : Kernel) (hn : k.currentTask = none) : Move (.leaving, k) (.busy 0, k)
  | save {m : Mode} (hm : m.Yields) (k : Kernel) : Move (m, k) (.saved, saveCurrent k)
  | dispatch (k : Kernel) {next : ℕ} (hr : k.isReady next) :
      Move (.saved, k) (.busy 0, dispatch k next)
  /-- The CPU is parked. -/
  | rest (k : Kernel) : Move (.saved, k) (.idle, { k with idling := true })
  /-- It is woken. -/
  | stir (k : Kernel) : Move (.idle, k) (.saved, { k with idling := false })

/-- A sequence of moves. -/
abbrev Moves : Mode × Kernel → Mode × Kernel → Prop := ReflTransGen Move

variable {k k' : Kernel} {m : Mode}

/-- What every move preserves, a sequence of moves preserves. -/
theorem Moves.invariant {I : Mode × Kernel → Prop} {s s' : Mode × Kernel} (hm : Moves s s')
    (hmove : ∀ s s', Move s s' → I s → I s') (hs : I s) : I s' := by
  induction hm with
  | refl => exact hs
  | tail _ hm ih => exact hmove _ _ hm ih

lemma Move.one {s s' : Mode × Kernel} (hm : Move s s') : Moves s s' := ReflTransGen.single hm

/-! ### Actions -/

/-- The mode a stage belongs to. -/
def Stage.mode : Stage → Mode
  | busy held => .busy held
  | doomed _ => .busy 0
  | dying => .dying
  | leaving => .leaving
  | saved => .saved
  | idle => .idle

lemma mode_stageOf (k : Kernel) : (stageOf k).mode = modeOf k := by
  rw [stageOf, modeOf]
  split_ifs <;> rfl

lemma Stage.Yields.mode {p : Stage} (hp : p.Yields) : p.mode.Yields := by
  rcases hp with rfl | rfl
  · exact .inl rfl
  · exact .inr rfl

lemma HeldEffects.moves {s s' : Multiset File × Kernel} (he : HeldEffects s s') :
    Moves (.busy s.1, s.2) (.busy s'.1, s'.2) := by
  induction he with
  | refl => exact .refl
  | tail _ he ih => exact ih.tail (.effect he)

/-- Every action is a sequence of moves. -/
lemma Action.moves {C : Kernel → Prop} {s s' : Stage × Kernel} (ha : Action C s s') :
    Moves (s.1.mode, s.2) (s'.1.mode, s'.2) := by
  cases ha with
  | deed hd => exact HeldEffects.moves hd.effects
  | press hs hp =>
    rcases hs with rfl | rfl
    · exact (Move.effect (.aside 0 (.press hp))).one
    · exact (Move.press hp).one
  | enter k vector rip => exact (Move.enter k vector rip).one
  | user k r mem hstep hat => exact (Move.user k r mem hstep hat).one
  | reply k v => exact (Move.reply k v).one
  | interrupt k hc => exact (Move.interrupt k hc).one
  | goBack k ht hact hok => exact (Move.goBack k ht hact).one
  | enterHandler k hC ht hact hsig hh hok => exact (Move.enterHandler k ht hact hsig).one
  | checked k => exact (Move.checked k).one
  | exits k hcall => exact .refl
  | condemned k => exact (Move.condemn k _).one
  | @killed k t sig ht hact hsig hh =>
    have hclear := (Effect.own 0 k (fun t => clearPending t sig)
      (fun _ => by constructor <;> rfl) (by intro _; rfl)).one
    exact (HeldEffects.moves hclear).tail (.condemn _ sig)
  | shut k fd => exact HeldEffects.moves (deeds_closeFd k fd).effects
  | bury k hcause hclosed => exact (Move.bury k _ hcause hclosed).one
  | rouse k => exact (Move.rouse k).one
  | park k hb hc => exact (Move.park k hb hc).one
  | sweep hp hs => exact (Move.sweep hp.mode hs).one
  | lost k hn => exact (Move.lost k hn).one
  | save hp k => exact (Move.save hp.mode k).one
  | dispatch k hr => exact (Move.dispatch k hr).one
  | rest k => exact (Move.rest k).one
  | stir k => exact (Move.stir k).one

lemma Actions.moves {C : Kernel → Prop} {s s' : Stage × Kernel} (ha : Actions C s s') :
    Moves (s.1.mode, s.2) (s'.1.mode, s'.2) := by
  induction ha with
  | refl => exact .refl
  | tail _ ha ih => exact ih.trans ha.moves

/-- **Every step of the machine is a sequence of moves.** -/
theorem step_moves {e : Event} (hk : k.step e = some k') :
    Moves (modeOf k, k) (modeOf k', k') := by
  rw [← mode_stageOf, ← mode_stageOf]
  exact (step_actions (C := fun _ => True) (fun _ _ => trivial) hk).moves

/-- **Every run is a sequence of moves.** -/
theorem run_moves {es : List Event} (hrun : Runs.exec step k es = some k') :
    Moves (modeOf k, k) (modeOf k', k') := by
  rw [← mode_stageOf, ← mode_stageOf]
  exact (run_actions (C := fun _ => True)
    (along_of_forall (fun _ _ _ _ => trivial) es k) hrun).moves

end Kernel

end TownOS
