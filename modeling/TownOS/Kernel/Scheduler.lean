import TownOS.Kernel.Machine

/-!
Waking, raising signals, and the switch (`kernel/scheduler.c`, the raising half of
`kernel/signal.c`).

`schedule` is cut at the place where it may wait: `saveCurrent` is what it does
before it looks for a task to run, and `dispatch` what it does once it has found
one. If it finds none the CPU is parked, and `resume` is the rest of it, run when
an interrupt has made a task ready.
-/

namespace TownOS

namespace Kernel

/-! ### Waking -/

/-- A sleeping task is put back into the rotation. -/
def wakeTask (t : Task) : Task := { t with state := .ready, waitReason := .none }

/-- `scheduler_wake`. -/
def schedulerWake (k : Kernel) (reason : WaitReason) : Kernel :=
  { k with
    tasks := k.tasks.map <| Option.map fun t =>
      if t.state = .blocked ∧ t.waitReason = reason then wakeTask t else t }

/-- The pending set with one more signal. -/
def setPending (t : Task) (sig : ℕ) : Task :=
  { t with sigPending := t.sigPending ||| 1#32 <<< sig }

/-- The pending set without a signal. -/
def clearPending (t : Task) (sig : ℕ) : Task :=
  { t with sigPending := t.sigPending &&& ~~~(1#32 <<< sig) }

/-- A sleeping task is woken to receive a signal. -/
def cutTask (sig : ℕ) (t : Task) : Task :=
  { wakeTask (setPending t sig) with sigInterrupted := true }

/-- `signal_raise`. -/
def signalRaise (k : Kernel) (id : ℕ) (sig : ℤ) : Kernel :=
  if sig ≤ 0 ∨ maxSigs ≤ sig then k
  else
    match k.task id with
    | none => k
    | some t =>
      if t.state = .zombie then k
      else if t.state = .blocked then
        (k.note (.cut id t.regs.cpu)).modifyTask id (cutTask sig.toNat)
      else k.modifyTask id fun t => setPending t sig.toNat

/-- `signal_raise_group`. -/
def signalRaiseGroup (k : Kernel) (pgid : ℕ) (sig : ℤ) : Kernel :=
  (List.range k.tasks.length).foldl (fun k id =>
    match k.task id with
    | none => k
    | some t => if t.pgid ≠ pgid then k else signalRaise k id sig) k

/-! ### Reaping -/

/-- `parent_alive`. -/
def parentAlive (k : Kernel) (parentId : Option ℕ) : Bool :=
  match parentId with
  | none => false
  | some p =>
    match k.task p with
    | none => false
    | some t => t.state != .zombie

/-- The address space of a task is destroyed. -/
def destroyAspace (t : Task) : Task := { t with aspace := false, cr3 := 0 }

/-- One round of the loop of `reap_sweep`. -/
def sweepTask (k : Kernel) (i : ℕ) : Kernel :=
  match k.task i with
  | none => k
  | some t =>
    if t.state ≠ .zombie ∨ i = k.current then k
    else
      let k :=
        if t.aspace then (k.modifyTask i destroyAspace).live (.destroyed i k.loaded) else k
      if parentAlive k t.parentId then k else (k.dropTask i).live (.swept i)

/-- `reap_sweep`. -/
def reapSweep (k : Kernel) : Kernel := (List.range k.tasks.length).foldl sweepTask k

/-! ### The switch -/

/-- Whether a slot holds a task that can run. -/
def isReady (k : Kernel) (i : ℕ) : Bool := (k.task i).any fun t => t.state = .ready

/-- `any_task_ready`. -/
def anyTaskReady (k : Kernel) : Bool := (List.range k.tasks.length).any k.isReady

/-- `find_next_ready`. -/
def findNextReady (k : Kernel) (start : ℕ) : Option ℕ :=
  ((List.range k.tasks.length).map fun i => (start + (i + 1)) % k.tasks.length).find? k.isReady

/-- The pile is saved, and a task that was running goes back into the rotation. -/
def saveCurrent (k : Kernel) : Kernel :=
  k.modifyCurrent fun t =>
    { t with
      regs := k.pile
      state := if t.state = .running then .ready else t.state }

/-- The task chosen is put on the CPU. If it is the one that was interrupted the pile
stays as it is. -/
def dispatch (k : Kernel) (next : ℕ) : Kernel :=
  let k := k.modifyTask next fun t => { t with state := .running }
  if next = k.current then k
  else
    match k.task next with
    | none => k
    | some t => { k with current := next, pile := t.regs, cr3 := t.cr3, loaded := next }

/-- `schedule`, up to the point where it may park the CPU. -/
def schedule (k : Kernel) : Kernel :=
  if k.idling then k
  else
    let k := reapSweep k
    match k.currentTask with
    | none => k
    | some _ =>
      let k := saveCurrent k
      match findNextReady k k.current with
      | some next => dispatch k next
      | none => { k with idling := true }

/-- The loop of `idle_until_runnable` looks again, and the rest of `schedule` follows once
there is a task to run. -/
def resume (k : Kernel) : Kernel :=
  if anyTaskReady k then
    let k := { k with idling := false }
    match findNextReady k k.current with
    | some next => dispatch k next
    | none => k
  else k

/-! ### Sleeping -/

/-- The current task is taken out of the rotation, and its system call is armed again. -/
def park (k : Kernel) (reason : WaitReason) : Kernel :=
  let k := k.modifyCurrent fun t => { t with state := .blocked, waitReason := reason }
  let k := k.note (.parked k.current k.pile.issued)
  k.setPile { k.pile with rip := k.pile.rip - intInstrLen }

/-- The signal that woke the current task is reported to its system call. -/
def interrupt (k : Kernel) : Kernel :=
  (k.note (.interrupted k.current k.pile.issued)).modifyCurrent fun t =>
    { t with sigInterrupted := false }

/-- Whether the running task was woken to receive a signal. -/
def cutShort (k : Kernel) : Bool := k.currentTask.any Task.sigInterrupted

/-- `task_block`; the first component is whether it returns `TASK_BLOCK_INTERRUPTED`. -/
def taskBlock (k : Kernel) (reason : WaitReason) : Bool × Kernel :=
  if k.cutShort then (true, interrupt k)
  else (false, schedule (park k reason))

end Kernel

end TownOS
