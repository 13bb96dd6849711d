import TownOS.Kernel.Lifecycle

/-!
Delivering signals and returning from handlers (`kernel/signal.c`).

`checkSignals` is called on every way out of the kernel. It kills the running task,
or makes it enter a handler by `deliverToHandler`, which saves the pile on the user
stack; `signalSigreturn` copies it back.
-/

namespace TownOS

/-- `SIG_KILL`. -/
def sigKill : ℕ := 9

/-- `SIG_SEGV`. -/
def sigSegv : ℕ := 11

/-- `SIG_EXIT_STATUS`. -/
def sigExitStatus (sig : ℕ) : ℕ := 128 + sig

/-- `RED_ZONE_BYTES`. -/
def redZoneBytes : Word := 128

/-- Where `deliver_to_handler` puts the saved registers. -/
def signalFrame (userRsp : Word) : Word :=
  ((userRsp - redZoneBytes) &&& ~~~0xF#64) - BitVec.ofNat 64 sizeofRegs

namespace Kernel

/-- A signal ends the current task. -/
def endBySignal (k : Kernel) (sig : ℕ) : Kernel :=
  taskExit (k.live (.condemned k.current sig)) (sigExitStatus sig)

/-- The lowest pending signal. -/
def lowestPending (t : Task) : Option ℕ := (List.range' 1 (maxSigs - 1)).find? t.sigPending.getLsbD

/-- The second half of `deliver_to_handler`: the registers and a return address are pushed
on the user stack, and the task goes on in the handler. -/
def enterHandler (k : Kernel) (t : Task) (sig : ℕ) : Kernel :=
  let ctx := signalFrame k.pile.userRsp
  let k := k.note (.entered k.current k.pile.cpu)
  let k := k.store ctx.toNat k.pile.bytes
  let sp := ctx - 8
  let k := k.store sp.toNat (wordBytes t.sigTrampoline)
  let k := k.setPile
    { k.pile with rip := t.sigHandlers sig, rdi := BitVec.ofNat 64 sig, userRsp := sp }
  k.modifyCurrent fun t => { clearPending t sig with sigActive := true, sigCtx := ctx }

/-- What entering a handler makes of the running task. -/
def intoHandler (r : Regs) (trampoline : Word) (sig : ℕ) (t : Task) : Task :=
  { clearPending t sig with
    sigActive := true
    sigCtx := signalFrame r.userRsp
    mem := Bytes.storeAt (Bytes.storeAt t.mem (signalFrame r.userRsp).toNat r.bytes)
      (signalFrame r.userRsp - 8).toNat (wordBytes trampoline) }

lemma task_store (k : Kernel) (addr : ℕ) (bytes : List UInt8) (j : ℕ) :
    (k.store addr bytes).task j = if j = k.current then
      (k.task j).map fun t => { t with mem := Bytes.storeAt t.mem addr bytes } else k.task j :=
  task_modifyTask

/-- Only the running task changes. -/
lemma task_enterHandler (k : Kernel) (t : Task) (sig j : ℕ) :
    (enterHandler k t sig).task j = if j = k.current then
      (k.task j).map (intoHandler k.pile t.sigTrampoline sig) else k.task j := by
  rw [enterHandler, modifyCurrent, task_modifyTask]
  dsimp only [setPile]
  change (if j = k.current then Option.map _ (Kernel.task (store _ _ _) j) else
    Kernel.task (store _ _ _) j) = _
  rw [task_store, task_store]
  by_cases hj : j = k.current
  · rw [if_pos hj, if_pos (by exact hj), if_pos (by exact hj), if_pos hj, Option.map_map,
      Option.map_map]
    rfl
  · rw [if_neg hj, if_neg (by exact hj), if_neg (by exact hj), if_neg hj]
    rfl

lemma pile_enterHandler (k : Kernel) (t : Task) (sig : ℕ) : (enterHandler k t sig).pile =
    { k.pile with
      rip := t.sigHandlers sig
      rdi := BitVec.ofNat 64 sig
      userRsp := signalFrame k.pile.userRsp - 8 } := rfl

lemma length_enterHandler (k : Kernel) (t : Task) (sig : ℕ) :
    (enterHandler k t sig).tasks.length = k.tasks.length := by
  rw [enterHandler]
  simp only [modifyCurrent, modifyTask, setPile, store, List.length_modify, touch, note]

/-- `deliver_to_handler`. -/
def deliverToHandler (k : Kernel) (t : Task) (sig : ℕ) : Kernel :=
  if !userRangeOk (signalFrame k.pile.userRsp) (BitVec.ofNat 64 (sizeofRegs + 8)) then
    endBySignal k sigSegv
  else enterHandler k t sig

/-- `check_signals`. -/
def checkSignals (k : Kernel) : Kernel :=
  if k.pile.cs &&& 3 ≠ 3 then k
  else
    match k.currentTask with
    | none => k
    | some t =>
      if t.state = .zombie then k
      else if t.sigActive then k
      else
        match lowestPending t with
        | none => k
        | some sig =>
          if t.sigHandlers sig = 0 ∨ sig = sigKill then
            endBySignal (k.modifyCurrent fun t => clearPending t sig) sig
          else deliverToHandler k t sig

/-- A 64-bit argument read as an `int`. -/
def asInt (w : Word) : ℤ := (w.truncate 32).toInt

/-- A 64-bit argument read as a `uint32_t`. -/
def asUint32 (w : Word) : ℕ := w.toNat % 2 ^ 32

/-- `signal_install_handler`. -/
def signalInstallHandler (k : Kernel) (sig : ℤ) (handler trampoline : Word) : Option Kernel :=
  if sig ≤ 0 ∨ maxSigs ≤ sig ∨ sig = sigKill then none
  else if handler ≠ 0 ∧ !userRangeOk handler 1 then none
  else if !userRangeOk trampoline 1 then none
  else
    some <| k.modifyCurrent fun t =>
      { t with
        sigHandlers := Function.update t.sigHandlers sig.toNat handler
        sigTrampoline := trampoline }

/-- The frame `signal_sigreturn` goes back to: what is found in user memory, with the
selectors and the interrupt flag forced. -/
def restoredFrame (m : ℕ → UInt8) (ctx : Word) : Regs :=
  let r := Regs.load m ctx.toNat
  { r with cs := userCode, ss := userData, rflags := r.rflags ||| userModeRflags }

/-- What going back from a handler makes of the running task. -/
def outOfHandler (t : Task) : Task := { t with sigActive := false, sigCtx := 0 }

/-- The last part of `signal_sigreturn`: the task goes back to the restored frame. -/
def goBack (k : Kernel) (t : Task) : Kernel :=
  let (bytes, k) := k.load t.sigCtx.toNat sizeofRegs
  let r := restoredFrame (fun i => bytes.getD i 0) 0
  let k := k.note (.returned k.current r.cpu)
  let k := k.setPile r
  k.modifyCurrent outOfHandler

/-- The restored frame is the one at the address of the context. -/
lemma restoredFrame_load {k : Kernel} {t : Task} (ht : k.currentTask = some t) :
    restoredFrame (fun i => (k.load t.sigCtx.toNat sizeofRegs).1.getD i 0) 0 =
      restoredFrame t.mem t.sigCtx := by
  have hmem : k.mem = t.mem := by
    rw [mem, ht]
    rfl
  rw [restoredFrame, restoredFrame, load_congr (n := t.mem) (b := t.sigCtx.toNat)]
  intro i hi
  rw [show (0 : Word).toNat + i = i from Nat.zero_add i, load, List.getD_eq_getElem?_getD,
    getElem?_userBytes hi, hmem,
    Option.getD_some]

/-- Going back, with a variable for the frame, which is a long expression. -/
lemma goBack_eq (k : Kernel) (t : Task) :
    ∃ r, (k.currentTask = some t → r = restoredFrame t.mem t.sigCtx) ∧
      goBack k t = (((k.touch false t.sigCtx.toNat sizeofRegs).note
        (.returned k.current r.cpu)).setPile r).modifyCurrent outOfHandler :=
  ⟨_, restoredFrame_load, rfl⟩

/-- What is the same after going back, and what happens to the tasks. -/
structure GoesBack (k k' : Kernel) : Prop where
  current : k'.current = k.current
  idling : k'.idling = k.idling
  checkDue : k'.checkDue = k.checkDue
  pipes : k'.pipes = k.pipes
  keyboard : k'.keyboard = k.keyboard
  length : k'.tasks.length = k.tasks.length
  task : ∀ j, k'.task j = if j = k.current then (k.task j).map outOfHandler else k.task j
  calls : ∃ f, k'.calls = k.calls ++ [.returned k.current f]

lemma goBack_goesBack (k : Kernel) (t : Task) : GoesBack k (goBack k t) := by
  obtain ⟨r, -, hr⟩ := goBack_eq k t
  rw [hr]
  exact ⟨rfl, rfl, rfl, rfl, rfl, List.length_modify .., fun _ => task_modifyTask, r.cpu, rfl⟩

/-- The registers of the context, as far as it may set them. -/
lemma pile_goBack {k : Kernel} {t : Task} (ht : k.currentTask = some t) :
    (goBack k t).pile = restoredFrame t.mem t.sigCtx :=
  restoredFrame_load ht

/-- `signal_sigreturn`. -/
def signalSigreturn (k : Kernel) : Kernel :=
  match k.currentTask with
  | none => k
  | some t =>
    if !t.sigActive then endBySignal k sigSegv
    else if !userRangeOk t.sigCtx (BitVec.ofNat 64 sizeofRegs) then endBySignal k sigSegv
    else goBack k t

end Kernel

end TownOS
