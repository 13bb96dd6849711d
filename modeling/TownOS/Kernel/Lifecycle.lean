import TownOS.Kernel.Files

/-!
Starting, ending and collecting tasks (`kernel/scheduler.c`).

What a call needs from the parts of the kernel that are not modelled here comes
with the call, in `Answers`: whether `kmalloc` finds room, the program the loader
makes of a file, whether there are frames for a mapping, and what the file system
says.
-/

namespace TownOS

/-- A program in a new address space: `paging_create_address_space`, `elf_load_file` and
`map_user_stack`. -/
structure Image where
  entry : Word
  cr3 : ℕ
  mem : ℕ → UInt8

/-- What the file system answers: whether it succeeds, a number, and the bytes it puts into
the caller's buffer, which it may do before it fails. -/
structure FileReply where
  ok : Bool
  value : ℕ
  bytes : List UInt8

/-- What one system call gets from outside. `heap n` is whether its `n`-th `kmalloc`
succeeds. -/
structure Answers where
  heap : ℕ → Bool
  image : Option Image
  frames : Bool
  file : FileReply

/-- `USER_STACK_TOP`. -/
def userStackTop : Word := 0x800000

/-- `GDT_SELECTOR_USER_CODE`. -/
def userCode : Word := 0x1B

/-- `GDT_SELECTOR_USER_DATA`. -/
def userData : Word := 0x23

/-- `USER_MODE_RFLAGS`. -/
def userModeRflags : Word := 0x202

/-- `SYSCALL_ERROR`. -/
def syscallError : Word := BitVec.allOnes 64

/-- The frame a new task starts with. -/
def forgedFrame (entry : Word) : Regs :=
  { rip := entry, userRsp := userStackTop, cs := userCode, ss := userData,
    rflags := userModeRflags }

/-- The console descriptors every task starts with. -/
def consoleFds : ℕ → Option File := fun fd =>
  if fd = 0 then some ⟨.console, false⟩
  else if fd = 1 then some ⟨.console, true⟩
  else none

/-- The task `task_register` sets up. -/
def freshTask (image : Image) (id : ℕ) (parentId : Option ℕ) (pgid : ℕ)
    (fds : ℕ → Option File) : Task where
  regs := forgedFrame image.entry
  aspace := true
  cr3 := image.cr3
  state := .ready
  waitReason := .none
  id := id
  parentId := parentId
  exitStatus := 0
  pgid := pgid
  sigPending := 0
  sigHandlers := fun _ => 0
  sigTrampoline := 0
  sigActive := false
  sigInterrupted := false
  sigCtx := 0
  fds := fds
  regions := fun _ => ⟨0, 0⟩
  mem := image.mem

namespace Kernel

/-! ### Process groups -/

/-- `TASK_PGID_INHERIT`. -/
def taskPgidInherit : ℕ := 0

/-- `TASK_PGID_NEW`. -/
def taskPgidNew : ℕ := 0xFFFFFFFF

/-- `may_use_group`. -/
def mayUseGroup (k : Kernel) (callerId pgid : ℕ) : Bool :=
  match k.task callerId with
  | none => false
  | some caller =>
    caller.pgid = pgid ||
      (List.range k.tasks.length).any fun i =>
        (k.task i).any fun t =>
          t.state ≠ .zombie ∧ t.parentId = some callerId ∧ t.pgid = pgid

/-! ### Starting a task -/

/-- `task_register`, with the descriptors that `task_create_from_file` swaps in. -/
def taskRegister (k : Kernel) (a : Answers) (image : Image) (parentId pgidReq : ℕ)
    (fds : ℕ → Option File) : Option Kernel :=
  if maxTasksLimit ≤ k.tasks.length then none
  else if !(a.heap 2 && a.heap 3 && a.heap 4) then none
  else
    let id := k.tasks.length
    let pgid :=
      if pgidReq = taskPgidNew then id
      else if pgidReq = taskPgidInherit then ((k.task parentId).map Task.pgid).getD 0
      else pgidReq
    some <| (k.addTask (freshTask image id (some parentId) pgid fds)).live
      (.registered id (some parentId))

/-- The descriptor of the caller that a new task is to inherit; the outer `none` is a
refusal. -/
def inheritedFile (k : Kernel) (fd : ℤ) (writable : Bool) : Option (Option File) :=
  if fd = -1 then some none
  else if fd < 0 then none
  else
    match k.currentFile fd.toNat with
    | none => none
    | some f => if f.writable = writable then some (some f) else none

/-- `file_dup` of a descriptor to inherit, if there is one. -/
def dupFile (k : Kernel) (f : Option File) (room : Bool) : Option Kernel :=
  match f with
  | none => some k
  | some f => if room then some (countEnd k f) else none

/-- `file_close` of a duplicate that is not going to be used. -/
def undoDup (k : Kernel) (f : Option File) : Kernel :=
  match f with
  | none => k
  | some f => fileClose k f

/-- The descriptors of a new task: inherited ones take the place of the console. -/
def childFds (inSrc outSrc : Option File) : ℕ → Option File := fun fd =>
  if fd = 0 then inSrc.or (consoleFds 0)
  else if fd = 1 then outSrc.or (consoleFds 1)
  else none

/-- The second half of `task_create_from_file`, once the program is loaded; `none` for -1. -/
def startTask (k : Kernel) (a : Answers) (image : Image) (inSrc outSrc : Option File)
    (parentId pgidReq : ℕ) : Option ℕ × Kernel :=
  match dupFile k inSrc (a.heap 0) with
  | none => (none, k)
  | some k₁ =>
    match dupFile k₁ outSrc (a.heap 1) with
    | none => (none, undoDup k₁ inSrc)
    | some k₂ =>
      match taskRegister k₂ a image parentId pgidReq (childFds inSrc outSrc) with
      | none => (none, undoDup (undoDup k₂ inSrc) outSrc)
      | some k₃ => (some k.tasks.length, k₃)

/-- `task_create_from_file`; `none` for -1. -/
def taskCreateFromFile (k : Kernel) (a : Answers) (parentId : ℕ) (inFd outFd : ℤ)
    (pgidReq : ℕ) : Option ℕ × Kernel :=
  if pgidReq ≠ taskPgidInherit ∧ pgidReq ≠ taskPgidNew ∧ !mayUseGroup k parentId pgidReq then
    (none, k)
  else
    match inheritedFile k inFd false, inheritedFile k outFd true, a.image with
    | some inSrc, some outSrc, some image => startTask k a image inSrc outSrc parentId pgidReq
    | _, _, _ => (none, k)

/-! ### Ending a task -/

/-- The parent of an exiting task is woken, if it is asleep in `task_wait`. -/
def wakeParent (k : Kernel) (parentId : Option ℕ) : Kernel :=
  match parentId with
  | none => k
  | some p =>
    if parentAlive k parentId then
      k.modifyTask p fun t =>
        if t.state = .blocked ∧ t.waitReason = .child then wakeTask t else t
    else k

/-- The current task becomes a zombie. -/
def bury (k : Kernel) (status : ℕ) : Kernel :=
  (k.modifyCurrent fun t =>
    { t with exitStatus := status % 256, state := .zombie, waitReason := .none }).live
      (.exited k.current status k.pile)

/-- The loop with which `task_exit` begins. -/
def closeAll (k : Kernel) : Kernel := (List.range maxFds).foldl closeFd k

/-- `task_exit`. -/
def taskExit (k : Kernel) (status : ℕ) : Kernel :=
  let k := bury (closeAll k) status
  let k := wakeParent k (k.currentTask.bind Task.parentId)
  schedule k

/-! ### Waiting for a child -/

/-- Whether a slot holds a child of the current task. -/
def isChild (k : Kernel) (i : ℕ) : Bool := (k.task i).any fun t => t.parentId = some k.current

/-- Whether it holds one that has exited. -/
def isDeadChild (k : Kernel) (i : ℕ) : Bool :=
  (k.task i).any fun t => t.parentId = some k.current ∧ t.state = .zombie

/-- `task_wait` takes a child that has exited apart. -/
def collect (k : Kernel) (i : ℕ) (t : Task) : Kernel :=
  let k := if t.aspace then k.live (.destroyed i k.loaded) else k
  (k.dropTask i).live (.collected k.current i (BitVec.ofNat 64 t.exitStatus))

/-- `task_wait`. -/
def taskWait (k : Kernel) : Kernel :=
  match (List.range k.tasks.length).find? k.isDeadChild with
  | some i =>
    match k.task i with
    | none => k
    | some t =>
      let k := collect k i t
      let k :=
        if k.pile.rdi ≠ 0 then k.store k.pile.rdi.toNat (wordBytes (BitVec.ofNat 64 t.id)) else k
      k.reply (BitVec.ofNat 64 t.exitStatus)
  | none =>
    if (List.range k.tasks.length).any k.isChild then
      match taskBlock k .child with
      | (true, k) => k.reply syscallError
      | (false, k) => k
    else k.reply syscallError

end Kernel

end TownOS
