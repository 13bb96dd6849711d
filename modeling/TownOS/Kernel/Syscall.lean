import TownOS.Kernel.Signal

/-!
The system calls (`kernel/syscall.c`).

Arguments are taken from the live pile, and `reply` is the assignment to `rax` that
ends a call; a call that sleeps does not make it. What the kernel prints on the
screen is not modelled.
-/

namespace TownOS

/-- The numbers of `include/syscalls.h`. -/
inductive SysCall where
  | exit | write | readkey | list | run | readfile | wait | writefile | delete | freecount
  | stat | read | close | pipe | signal | kill | sigreturn | setfg | tasks | mmap | munmap
  deriving DecidableEq, Repr

namespace SysCall

/-- All calls, in the order of their numbers. -/
def all : List SysCall :=
  [exit, write, readkey, list, run, readfile, wait, writefile, delete, freecount, stat, read,
    close, pipe, signal, kill, sigreturn, setfg, tasks, mmap, munmap]

/-- The call with a given number. -/
def ofWord (w : Word) : Option SysCall := all[w.toNat]?

end SysCall

namespace Kernel

/-- `SYSCALL_IO_MAX`. -/
def syscallIoMax : ℕ := 4096

/-- `SYSCALL_NAME_MAX`. -/
def syscallNameMax : ℕ := 16

/-! ### User strings -/

/-- The loop of `copy_user_string`. -/
def copyString : ℕ → ℕ → Kernel → Option (List UInt8) × Kernel
  | 0, _, k => (none, k)
  | n + 1, addr, k =>
    if userSpaceEnd ≤ addr then (none, k)
    else
      let (c, k) := k.load addr 1
      if c = [0] then (some [], k)
      else
        let (s, k) := copyString n (addr + 1) k
        (s.map (c ++ ·), k)

/-- `copy_user_string` into a buffer of `SYSCALL_NAME_MAX` bytes. -/
def copyUserString (k : Kernel) (ptr : Word) : Option (List UInt8) × Kernel :=
  if ptr.toNat < userRegionStart ∨ userSpaceEnd ≤ ptr.toNat then (none, k)
  else copyString syscallNameMax ptr.toNat k

/-! ### Descriptors -/

/-- `sys_write`. -/
def sysWrite (k : Kernel) : Kernel :=
  let len := k.pile.rdx.toNat
  match k.currentFile k.pile.rdi.toNat with
  | none => k.reply syscallError
  | some f =>
    if !f.writable then k.reply syscallError
    else if len = 0 then k.reply 0
    else
      let n := min len syscallIoMax
      if !userRangeOk k.pile.rsi (BitVec.ofNat 64 n) then k.reply syscallError
      else
        let (staging, k) := k.load k.pile.rsi.toNat n
        match fileWrite k f staging with
        | (.blocked, k) => k
        | (.err, k) => k.reply syscallError
        | (.ok w, k) => k.reply (BitVec.ofNat 64 w)

/-- `sys_read`. -/
def sysRead (k : Kernel) : Kernel :=
  let len := k.pile.rdx.toNat
  let userBuf := k.pile.rsi
  match k.currentFile k.pile.rdi.toNat with
  | none => k.reply syscallError
  | some f =>
    if f.writable then k.reply syscallError
    else if len = 0 then k.reply 0
    else
      let n := min len syscallIoMax
      if !userRangeOk userBuf (BitVec.ofNat 64 n) then k.reply syscallError
      else
        match fileRead k f n with
        | (.blocked, k) => k
        | (.err, k) => k.reply syscallError
        | (.ok bytes, k) =>
          let k := if bytes ≠ [] then k.store userBuf.toNat bytes else k
          k.reply (BitVec.ofNat 64 bytes.length)

/-- `sys_close`. -/
def sysClose (k : Kernel) : Kernel :=
  match k.currentFile k.pile.rdi.toNat with
  | none => k.reply syscallError
  | some _ => (k.closeFd k.pile.rdi.toNat).reply 0

/-- The bytes of an `int` or a `uint32_t`. -/
def wordBytes32 (n : ℕ) : List UInt8 := (List.range 4).map (Bytes.byteOf n)

/-- The second half of `sys_pipe`, from the write end on. -/
def sysPipeWriteEnd (k : Kernel) (a : Answers) (p rfd : ℕ) : Kernel :=
  match k.allocFd with
  | none => (k.closeFd rfd).reply syscallError
  | some wfd =>
    if !a.heap 2 then (k.closeFd rfd).reply syscallError
    else
      let k := (countEnd k ⟨.pipe p, true⟩).setFd wfd (some ⟨.pipe p, true⟩)
      let k := k.store k.pile.rdi.toNat (wordBytes32 rfd ++ wordBytes32 wfd)
      k.reply 0

/-- `sys_pipe`. -/
def sysPipe (k : Kernel) (a : Answers) : Kernel :=
  if !userRangeOk k.pile.rdi 8 then k.reply syscallError
  else if !a.heap 0 then k.reply syscallError
  else
    let p := k.pipes.length
    let k := { k with pipes := k.pipes ++ [some Pipe.create] }
    match k.allocFd with
    | none => (k.setPipe p none).reply syscallError
    | some rfd =>
      if !a.heap 1 then (k.setPipe p none).reply syscallError
      else
        let k := (countEnd k ⟨.pipe p, false⟩).setFd rfd (some ⟨.pipe p, false⟩)
        sysPipeWriteEnd k a p rfd

/-- `sys_readkey`. -/
def sysReadkey (k : Kernel) : Kernel :=
  let (c, kb) := keyboardGetchar k.keyboard
  let k := { k with keyboard := kb }
  if c ≠ 0 then k.reply (BitVec.ofNat 64 c.toNat)
  else
    match taskBlock k .key with
    | (true, k) => k.reply syscallError
    | (false, k) => k

/-! ### The file system -/

/-- `sys_list`. -/
def sysList (k : Kernel) (a : Answers) : Kernel :=
  if !userRangeOk k.pile.rdi k.pile.rsi then k.reply syscallError
  else
    let k := k.store k.pile.rdi.toNat (a.file.bytes.take k.pile.rsi.toNat)
    k.reply (if a.file.ok then BitVec.ofNat 64 a.file.value else syscallError)

/-- `sys_readfile`. -/
def sysReadfile (k : Kernel) (a : Answers) : Kernel :=
  match copyUserString k k.pile.rdi with
  | (none, k) => k.reply syscallError
  | (some _, k) =>
    if !userRangeOk k.pile.rsi k.pile.rdx then k.reply syscallError
    else
      let k := k.store k.pile.rsi.toNat (a.file.bytes.take k.pile.rdx.toNat)
      k.reply (if a.file.ok then BitVec.ofNat 64 a.file.value else syscallError)

/-- `sys_writefile`. -/
def sysWritefile (k : Kernel) (a : Answers) : Kernel :=
  match copyUserString k k.pile.rdi with
  | (none, k) => k.reply syscallError
  | (some _, k) =>
    if !userRangeOk k.pile.rsi k.pile.rdx then k.reply syscallError
    else
      let (_, k) := k.load k.pile.rsi.toNat k.pile.rdx.toNat
      k.reply (if a.file.ok then 0 else syscallError)

/-- `sys_delete`. -/
def sysDelete (k : Kernel) (a : Answers) : Kernel :=
  match copyUserString k k.pile.rdi with
  | (none, k) => k.reply syscallError
  | (some _, k) => k.reply (if a.file.ok then 0 else syscallError)

/-- `sys_freecount`. -/
def sysFreecount (k : Kernel) (a : Answers) : Kernel := k.reply (BitVec.ofNat 64 a.file.value)

/-- `sys_stat`. -/
def sysStat (k : Kernel) (a : Answers) : Kernel :=
  match copyUserString k k.pile.rdi with
  | (none, k) => k.reply syscallError
  | (some _, k) =>
    if !userRangeOk k.pile.rsi 8 then k.reply syscallError
    else if !a.file.ok then k.reply syscallError
    else (k.store k.pile.rsi.toNat (wordBytes (BitVec.ofNat 64 a.file.value))).reply 0

/-! ### Tasks -/

/-- `sys_run`. -/
def sysRun (k : Kernel) (a : Answers) : Kernel :=
  match copyUserString k k.pile.rdi with
  | (none, k) => k.reply syscallError
  | (some _, k) =>
    match taskCreateFromFile k a k.current (asInt k.pile.rsi) (asInt k.pile.rdx)
        (asUint32 k.pile.rcx) with
    | (none, k) => k.reply syscallError
    | (some id, k) => k.reply (BitVec.ofNat 64 id)

/-- `sys_exit`. -/
def sysExit (k : Kernel) : Kernel := taskExit k k.pile.rdi.toNat

/-- `sys_wait`. -/
def sysWait (k : Kernel) : Kernel :=
  if k.pile.rdi ≠ 0 ∧ !userRangeOk k.pile.rdi 8 then k.reply syscallError
  else taskWait k

/-- `sys_setfg`. -/
def sysSetfg (k : Kernel) : Kernel :=
  if mayUseGroup k k.current (asUint32 k.pile.rdi) then
    ({ k with foregroundPgid := asUint32 k.pile.rdi } : Kernel).reply 0
  else k.reply syscallError

/-- `sys_signal`. -/
def sysSignal (k : Kernel) : Kernel :=
  match signalInstallHandler k (asInt k.pile.rdi) k.pile.rsi k.pile.rdx with
  | none => k.reply syscallError
  | some k => k.reply 0

/-- `sys_kill`. -/
def sysKill (k : Kernel) : Kernel :=
  match k.task (asUint32 k.pile.rdi) with
  | none => k.reply syscallError
  | some t =>
    if t.state = .zombie then k.reply syscallError
    else if asInt k.pile.rsi ≤ 0 ∨ maxSigs ≤ asInt k.pile.rsi then k.reply syscallError
    else (signalRaise k (asUint32 k.pile.rdi) (asInt k.pile.rsi)).reply 0

/-- `task_state_for_ring3`. -/
def taskStateForRing3 : TaskState → ℕ
  | .ready => 1
  | .running => 2
  | .blocked => 3
  | .zombie => 4

/-- The `task_info_t` of a task. -/
def taskInfo (t : Task) : List UInt8 :=
  wordBytes32 t.id ++ wordBytes32 (t.parentId.getD 0xFFFFFFFF) ++ wordBytes32 t.pgid ++
    wordBytes32 (taskStateForRing3 t.state) ++
    wordBytes32 (if t.state = .zombie then t.exitStatus else 0)

/-- `sys_tasks`. -/
def sysTasks (k : Kernel) : Kernel :=
  if !userRangeOk k.pile.rdi k.pile.rsi then k.reply syscallError
  else
    let infos := (k.tasks.filterMap id).take (k.pile.rsi.toNat / 20)
    (k.store k.pile.rdi.toNat (infos.flatMap taskInfo)).reply (BitVec.ofNat 64 infos.length)

/-! ### Memory -/

/-- `USER_HEAP_BASE`. -/
def userHeapBase : Word := 0x800000

/-- `USER_HEAP_LIMIT`. -/
def userHeapLimit : Word := 0xA00000

/-- `USER_PAGE_SIZE`. -/
def userPageSize : Word := 4096

/-- `round_up_to_page`. -/
def roundUpToPage (n : Word) : Word := (n + userPageSize - 1) &&& ~~~(userPageSize - 1)

/-- The loop of `sys_mmap` over the regions in use: the end of the last one, and their
total length. -/
def scanRegions (regions : ℕ → Region) : Word × Word :=
  (List.range maxRegions).foldl (fun (next, total) i =>
    if (regions i).length = 0 then (next, total)
    else
      let last := (regions i).base + (regions i).length
      (if next < last then last else next, total + (regions i).length)) (userHeapBase, 0)

/-- `sys_mmap`. Fresh pages are zero. -/
def sysMmap (k : Kernel) (a : Answers) : Kernel :=
  let slotBytes := userHeapLimit - userHeapBase
  if k.pile.rdi = 0 ∨ slotBytes < k.pile.rdi then k.reply syscallError
  else
    match k.currentTask with
    | none => k
    | some t =>
      let length := roundUpToPage k.pile.rdi
      let (next, total) := scanRegions t.regions
      match (List.range maxRegions).find? fun i => (t.regions i).length = 0 with
      | none => k.reply syscallError
      | some slot =>
        if userHeapLimit - next < length then k.reply syscallError
        else if slotBytes < total + length then k.reply syscallError
        else if !a.frames then k.reply syscallError
        else
          let k := k.modifyCurrent fun t =>
            { t with
              regions := Function.update t.regions slot ⟨next, length⟩
              mem := fun i =>
                if next.toNat ≤ i ∧ i < next.toNat + length.toNat then 0 else t.mem i }
          k.reply next

/-- `sys_munmap`. -/
def sysMunmap (k : Kernel) : Kernel :=
  if k.pile.rsi = 0 ∨ userHeapLimit - userHeapBase < k.pile.rsi then k.reply syscallError
  else
    match k.currentTask with
    | none => k
    | some t =>
      let length := roundUpToPage k.pile.rsi
      match (List.range maxRegions).find? fun i =>
          (t.regions i).length ≠ 0 ∧ (t.regions i).base = k.pile.rdi ∧
            (t.regions i).length = length with
      | none => k.reply syscallError
      | some i =>
        let k := k.modifyCurrent fun t =>
          { t with regions := Function.update t.regions i ⟨0, 0⟩ }
        k.reply 0

/-! ### The dispatcher -/

/-- The `switch` of `syscall_handler`. -/
def syscallBody (k : Kernel) (a : Answers) : Kernel :=
  match SysCall.ofWord k.pile.rax with
  | none => k.reply syscallError
  | some .exit => sysExit k
  | some .write => sysWrite k
  | some .readkey => sysReadkey k
  | some .list => sysList k a
  | some .run => sysRun k a
  | some .readfile => sysReadfile k a
  | some .wait => sysWait k
  | some .writefile => sysWritefile k a
  | some .delete => sysDelete k a
  | some .freecount => sysFreecount k a
  | some .stat => sysStat k a
  | some .read => sysRead k
  | some .close => sysClose k
  | some .pipe => sysPipe k a
  | some .signal => sysSignal k
  | some .kill => sysKill k
  | some .sigreturn => signalSigreturn k
  | some .setfg => sysSetfg k
  | some .tasks => sysTasks k
  | some .mmap => sysMmap k a
  | some .munmap => sysMunmap k

end Kernel

end TownOS
