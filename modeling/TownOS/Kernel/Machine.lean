import TownOS.Foundations.Words
import TownOS.Foundations.RingBuffer

/-!
The state of the machine as the kernel keeps it (`kernel/isr.h`,
`kernel/scheduler.h`, `kernel/file.h`, `kernel/pipe.h`, `drivers/keyboard.c`).

There is one CPU. What it runs in ring 3 is described by the live pile, the
`registers_t` that the interrupt stub pushes and pops again; every other task is
its saved `regs`. The kernel runs with interrupts off, so one entry into it is
one step, except where `schedule` finds nothing to run and waits in
`idle_until_runnable`.

A task owns its user memory: the addresses of ring 3 mean a different memory in
each address space. The two lists `calls` and `touched` are history, and no
modelled function reads them: the first records how system calls end, the second
which user addresses the kernel reads and writes.
-/

namespace TownOS

open Bytes

/-- `uint64_t`. -/
abbrev Word : Type := BitVec 64

/-! ### Registers -/

/-- `registers_t`. -/
structure Regs where
  rdi : Word := 0
  rsi : Word := 0
  rbp : Word := 0
  rbx : Word := 0
  rdx : Word := 0
  rcx : Word := 0
  rax : Word := 0
  r8 : Word := 0
  r9 : Word := 0
  r10 : Word := 0
  r11 : Word := 0
  r12 : Word := 0
  r13 : Word := 0
  r14 : Word := 0
  r15 : Word := 0
  intNo : Word := 0
  errCode : Word := 0
  rip : Word := 0
  cs : Word := 0
  rflags : Word := 0
  userRsp : Word := 0
  ss : Word := 0
  deriving DecidableEq, Repr

/-- `INT_INSTR_LEN`. -/
def intInstrLen : Word := 2

namespace Regs

/-- The words of the structure, in the order of its fields. -/
def words (r : Regs) : List Word :=
  [r.rdi, r.rsi, r.rbp, r.rbx, r.rdx, r.rcx, r.rax, r.r8, r.r9, r.r10, r.r11, r.r12, r.r13,
    r.r14, r.r15, r.intNo, r.errCode, r.rip, r.cs, r.rflags, r.userRsp, r.ss]

/-- The structure whose words are given by their index. -/
def ofWords (w : ℕ → Word) : Regs where
  rdi := w 0
  rsi := w 1
  rbp := w 2
  rbx := w 3
  rdx := w 4
  rcx := w 5
  rax := w 6
  r8 := w 7
  r9 := w 8
  r10 := w 9
  r11 := w 10
  r12 := w 11
  r13 := w 12
  r14 := w 13
  r15 := w 14
  intNo := w 15
  errCode := w 16
  rip := w 17
  cs := w 18
  rflags := w 19
  userRsp := w 20
  ss := w 21

/-- The registers of the CPU: the two words the stub pushes on its own are dropped. -/
def cpu (r : Regs) : Regs := { r with intNo := 0, errCode := 0 }

/-- The registers with which a system call was issued, read off its frame: the
instruction pointer is back on the `int`. -/
def issued (r : Regs) : Regs := { r.cpu with rip := r.rip - intInstrLen }

/-- The I/O privilege level, bits 12 and 13 of the flags. -/
def iopl (r : Regs) : ℕ := r.rflags.toNat / 2 ^ 12 % 4

/-- The interrupt flag, bit 9. -/
def interrupts (r : Regs) : Bool := r.rflags.getLsbD 9

end Regs

/-- `sizeof(registers_t)`. -/
def sizeofRegs : ℕ := 176

/-! ### User memory -/

/-- `USER_REGION_START`. -/
def userRegionStart : ℕ := 0x400000

/-- `USER_SPACE_END`. -/
def userSpaceEnd : ℕ := 0xA00000

/-- `user_range_ok`. -/
def userRangeOk (ptr len : Word) : Bool :=
  if ptr.toNat < userRegionStart ∨ userSpaceEnd ≤ ptr.toNat then false
  else len.toNat ≤ userSpaceEnd - ptr.toNat

/-- The eight bytes of a word. -/
def wordBytes (w : Word) : List UInt8 := (List.range 8).map (byteOf w.toNat)

/-- The word stored at an address. -/
def loadWord (m : ℕ → UInt8) (a : ℕ) : Word := BitVec.ofNat 64 (leNat m a 8)

/-- The bytes of a register frame. -/
def Regs.bytes (r : Regs) : List UInt8 := r.words.flatMap wordBytes

/-- The register frame stored at an address. -/
def Regs.load (m : ℕ → UInt8) (a : ℕ) : Regs := Regs.ofWords fun i => loadWord m (a + 8 * i)

lemma ofWords_congr {w w' : ℕ → Word} (h : ∀ i < 22, w i = w' i) :
    Regs.ofWords w = Regs.ofWords w' := by
  simp [Regs.ofWords, h]

/-- A register frame depends on its bytes only. -/
lemma load_congr {m n : ℕ → UInt8} {a b : ℕ} (h : ∀ i < sizeofRegs, m (a + i) = n (b + i)) :
    Regs.load m a = Regs.load n b := by
  refine ofWords_congr fun i hi => ?_
  rw [loadWord, loadWord]
  refine congrArg (BitVec.ofNat 64) (leNat_congr fun j hj => ?_)
  rw [Nat.add_assoc, Nat.add_assoc]
  refine h _ ?_
  rw [sizeofRegs]
  omega

/-! ### Files, pipes, the keyboard -/

/-- `fd_kind_t`, with the pipe of an `FD_PIPE`. -/
inductive FdKind where
  | console
  | pipe (p : ℕ)
  deriving DecidableEq, Repr

/-- `file_t`. -/
structure File where
  kind : FdKind
  writable : Bool
  deriving DecidableEq, Repr

/-- `pipe_t`. -/
structure Pipe where
  ring : RingBuffer UInt8
  readers : ℤ
  writers : ℤ

/-- The pipe `pipe_create` makes. -/
def Pipe.create : Pipe := ⟨⟨fun _ => 0, 0, 0⟩, 0, 0⟩

/-- The variables of the keyboard driver. -/
structure Keyboard where
  ring : RingBuffer UInt8
  shiftHeld : Bool
  capsOn : Bool
  ctrlHeld : Bool
  consoleEof : Bool

/-! ### Tasks -/

/-- `task_state_t`; `TASK_UNUSED` is the state of no task. -/
inductive TaskState where
  | ready
  | running
  | blocked
  | zombie
  deriving DecidableEq, Repr

/-- `wait_reason_t`. -/
inductive WaitReason where
  | none
  | key
  | child
  | pipeRead
  | pipeWrite
  deriving DecidableEq, Repr

/-- `region_t`. -/
structure Region where
  base : Word
  length : Word
  deriving DecidableEq, Repr

/-- `MAX_FDS`. -/
def maxFds : ℕ := 8

/-- `MAX_REGIONS`. -/
def maxRegions : ℕ := 8

/-- `MAX_SIGS`. -/
def maxSigs : ℕ := 32

/-- `MAX_TASKS_LIMIT`. -/
def maxTasksLimit : ℕ := 64

/-- `task_t`, with the memory of its address space. `parentId` is `none` for
`TASK_NO_PARENT`, and `aspace` says whether the address space is still there. -/
structure Task where
  regs : Regs
  aspace : Bool
  cr3 : ℕ
  state : TaskState
  waitReason : WaitReason
  id : ℕ
  parentId : Option ℕ
  exitStatus : ℕ
  pgid : ℕ
  sigPending : BitVec 32
  sigHandlers : ℕ → Word
  sigTrampoline : Word
  sigActive : Bool
  sigInterrupted : Bool
  sigCtx : Word
  fds : ℕ → Option File
  regions : ℕ → Region
  mem : ℕ → UInt8

/-! ### The kernel -/

/-- How the system calls and the handlers of a task go. The frame of a call is what it was
issued with. -/
inductive Note where
  /-- A call returned a value. -/
  | served (id : ℕ) (frame : Regs) (value : Word)
  /-- `task_block` put the caller to sleep. -/
  | parked (id : ℕ) (frame : Regs)
  /-- `signal_raise` woke a sleeping task. -/
  | cut (id : ℕ) (frame : Regs)
  /-- `task_block` returned `TASK_BLOCK_INTERRUPTED`. -/
  | interrupted (id : ℕ) (frame : Regs)
  /-- `deliver_to_handler` saved a frame and entered a handler. -/
  | entered (id : ℕ) (frame : Regs)
  /-- `signal_sigreturn` restored a frame. -/
  | returned (id : ℕ) (frame : Regs)
  deriving DecidableEq, Repr

/-- The task a note is about. -/
def Note.task : Note → ℕ
  | served id _ _ => id
  | parked id _ => id
  | cut id _ => id
  | interrupted id _ => id
  | entered id _ => id
  | returned id _ => id

/-- User addresses the kernel has read or written. -/
structure Span where
  write : Bool
  addr : ℕ
  len : ℕ
  deriving DecidableEq, Repr

/-- What happens to the tasks. -/
inductive Life where
  /-- `task_register` put a task of a parent into the table. -/
  | registered (id : ℕ) (parent : Option ℕ)
  /-- A signal is going to end a task. -/
  | condemned (id sig : ℕ)
  /-- `task_exit` was called with a status, while a task had some registers. -/
  | exited (id status : ℕ) (frame : Regs)
  /-- `paging_destroy_address_space` freed the address space of a task, while that of another
  was in CR3. -/
  | destroyed (id loaded : ℕ)
  /-- `reap_sweep` freed the `task_t`. -/
  | swept (id : ℕ)
  /-- `task_wait` freed the `task_t` and returned a value to the caller. -/
  | collected (caller id : ℕ) (value : Word)
  deriving DecidableEq

/-- The variables of the kernel, the live pile and the loaded page tables. The length of
`tasks` is `num_tasks`; a reaped task leaves a hole. `idling` is `scheduler_idling`: the
CPU is parked in `idle_until_runnable`, and `checkDue` says whether `check_signals` is
still to be called on the way out. `loaded` is the task whose `cr3` was last put into CR3.
It, `calls`, `touched` and `lives` are not read by the kernel: they are what is claimed
about it. -/
structure Kernel where
  tasks : List (Option Task)
  current : ℕ
  cr3 : ℕ
  pile : Regs
  foregroundPgid : ℕ
  pipes : List (Option Pipe)
  keyboard : Keyboard
  idling : Bool
  checkDue : Bool
  loaded : ℕ
  calls : List Note
  touched : List Span
  lives : List Life

namespace Kernel

variable (k : Kernel)

/-- `scheduler_task_by_id`. -/
def task (i : ℕ) : Option Task := k.tasks[i]?.join

/-- `scheduler_current_task`. -/
def currentTask : Option Task := k.task k.current

/-- Change a task, if there is one in that slot. -/
def modifyTask (i : ℕ) (f : Task → Task) : Kernel :=
  { k with tasks := k.tasks.modify i (Option.map f) }

/-- Change the current task. -/
def modifyCurrent (f : Task → Task) : Kernel := k.modifyTask k.current f

/-- Free a `task_t`: its slot stays empty. -/
def dropTask (i : ℕ) : Kernel := { k with tasks := k.tasks.set i none }

/-- Add a task in a new slot. -/
def addTask (t : Task) : Kernel := { k with tasks := k.tasks ++ [some t] }

/-- The memory behind the loaded page tables. -/
def mem : ℕ → UInt8 := (k.currentTask.map Task.mem).getD fun _ => 0

/-- Change the live pile. -/
def setPile (r : Regs) : Kernel := { k with pile := r }

/-- Record how a call goes. -/
def note (x : Note) : Kernel := { k with calls := k.calls ++ [x] }

/-- Record what happens to a task. -/
def live (x : Life) : Kernel := { k with lives := k.lives ++ [x] }

/-- Record that the kernel reads or writes user addresses. -/
def touch (write : Bool) (addr len : ℕ) : Kernel :=
  { k with touched := k.touched ++ [⟨write, addr, len⟩] }

/-- Write to user memory. -/
def store (addr : ℕ) (bytes : List UInt8) : Kernel :=
  (k.touch true addr bytes.length).modifyCurrent fun t =>
    { t with mem := storeAt t.mem addr bytes }

/-- The bytes of user memory from an address on. -/
def userBytes (addr len : ℕ) : List UInt8 := (List.range len).map fun i => k.mem (addr + i)

/-- Read user memory. -/
def load (addr len : ℕ) : List UInt8 × Kernel := (k.userBytes addr len, k.touch false addr len)

/-- A system call returns: `regs->rax = v`. -/
def reply (v : Word) : Kernel :=
  (k.note (.served k.current k.pile.issued v)).setPile { k.pile with rax := v }

/-- The pipe a descriptor refers to. -/
def pipe (p : ℕ) : Pipe := (k.pipes[p]?.join).getD Pipe.create

/-- Change a pipe. -/
def setPipe (p : ℕ) (x : Option Pipe) : Kernel := { k with pipes := k.pipes.set p x }

/-! ### Reading a changed state -/

variable {k} {i j : ℕ} {f : Task → Task}

lemma task_modifyTask :
    (k.modifyTask i f).task j = if j = i then (k.task j).map f else k.task j := by
  rw [task, modifyTask, List.getElem?_modify]
  by_cases h : i = j
  · subst h
    cases hj : k.tasks[i]? with
    | none => simp [task, hj]
    | some o => cases o <;> simp [task, hj]
  · rw [if_neg (Ne.symm h)]
    cases hj : k.tasks[j]? <;> simp [task, hj, h]

/-- A task that is there after one of them has been changed was there before. -/
lemma task_of_ite {c : Prop} [Decidable c] {o : Option Task} {t' : Task}
    (ht' : (if c then o.map f else o) = some t') : ∃ t, o = some t ∧ (c ∧ t' = f t ∨ t' = t) := by
  split_ifs at ht' with hc
  · obtain ⟨t, ht, rfl⟩ := Option.map_eq_some_iff.mp ht'
    exact ⟨t, ht, .inl ⟨hc, rfl⟩⟩
  · exact ⟨t', ht', .inr rfl⟩

lemma task_modifyTask_self : (k.modifyTask i f).task i = (k.task i).map f := by
  rw [task_modifyTask, if_pos rfl]

lemma task_modifyTask_of_ne (h : j ≠ i) : (k.modifyTask i f).task j = k.task j := by
  rw [task_modifyTask, if_neg h]

@[simp]
lemma task_live {x : Life} : (k.live x).task i = k.task i := rfl

lemma task_dropTask : (k.dropTask i).task j = if j = i then none else k.task j := by
  rw [task, dropTask, List.getElem?_set]
  by_cases h : i = j
  · subst h
    by_cases hl : i < k.tasks.length <;> simp [hl]
  · simp [task, h, Ne.symm h]

/-- A new task takes the next slot. -/
lemma task_addTask {t : Task} :
    (k.addTask t).task i = if i = k.tasks.length then some t else k.task i := by
  rw [task, addTask, List.getElem?_append]
  split_ifs with hlt heq heq
  · exact absurd heq hlt.ne
  · rfl
  · rw [heq, Nat.sub_self]
    rfl
  · rw [task, List.getElem?_eq_none (Nat.not_lt.mp hlt), List.getElem?_eq_none]
    rw [List.length_singleton]
    omega

lemma lt_length_of_task {t : Task} (ht : k.task i = some t) : i < k.tasks.length := by
  by_contra hi
  rw [task, List.getElem?_eq_none (Nat.not_lt.mp hi)] at ht
  cases ht

/-! ### User memory -/

lemma length_userBytes (a n : ℕ) : (k.userBytes a n).length = n := by
  rw [userBytes, List.length_map, List.length_range]

lemma getElem?_userBytes {a n : ℕ} (hi : i < n) : (k.userBytes a n)[i]? = some (k.mem (a + i)) := by
  rw [userBytes, List.getElem?_map, List.getElem?_range hi]
  rfl

/-- What is stored can be read back. -/
lemma userBytes_store {t : Task} (ht : k.currentTask = some t) (a : ℕ) (bytes : List UInt8) :
    (k.store a bytes).userBytes a bytes.length = bytes := by
  have htask : (k.store a bytes).currentTask = some { t with mem := storeAt t.mem a bytes } :=
    (task_modifyTask_self (k := k.touch true a bytes.length)).trans (congrArg _ ht)
  have hmem : (k.store a bytes).mem = storeAt t.mem a bytes := by
    rw [mem, htask]
    rfl
  refine List.ext_getElem? fun i => ?_
  rw [userBytes, List.getElem?_map, hmem]
  by_cases hi : i < bytes.length
  · rw [List.getElem?_range hi, Option.map_some, List.getElem?_eq_getElem hi]
    exact congrArg some (storeAt_inside (List.getElem?_eq_getElem hi))
  · have hi := Nat.not_lt.mp hi
    rw [List.getElem?_eq_none (by simpa using hi), List.getElem?_eq_none hi]
    rfl

end Kernel

end TownOS
