import TownOS.Kernel.Scheduler

/-!
Descriptors, pipes and the keyboard (`kernel/file.c`, `kernel/pipe.c`,
`drivers/keyboard.c`).

A `file_t` belongs to one descriptor slot, so it is kept in the slot; a pipe is
shared by its ends and lives in the table `pipes`, from which it is freed with its
last end. The calls that may put the caller to sleep answer with a `Transfer`.
-/

namespace TownOS

namespace Kernel

/-- What `file_read` and `file_write` return: `FILE_BLOCKED`, `FILE_ERR`, or a result. -/
inductive Transfer (α : Type) where
  | blocked
  | err
  | ok (a : α)

/-- `task_block` as the last thing a transfer does. -/
def blockTransfer {α : Type} (k : Kernel) (reason : WaitReason) : Transfer α × Kernel :=
  match taskBlock k reason with
  | (true, k) => (.err, k)
  | (false, k) => (.blocked, k)

/-! ### Pipes -/

/-- `PIPE_SIZE`. -/
def pipeSize : ℕ := 4096

/-- `SIG_PIPE`. -/
def sigPipe : ℤ := 13

/-- `pipe_used`. -/
def pipeUsed (p : Pipe) : ℕ := p.ring.used pipeSize

/-- `pipe_space`. -/
def pipeSpace (p : Pipe) : ℕ := p.ring.space pipeSize

/-- `pipe_read`. -/
def pipeRead (k : Kernel) (p len : ℕ) : Transfer (List UInt8) × Kernel :=
  if 0 < pipeUsed (k.pipe p) then
    let (bytes, ring) := (k.pipe p).ring.take pipeSize (min (pipeUsed (k.pipe p)) len)
    (.ok bytes, schedulerWake (k.setPipe p (some { k.pipe p with ring := ring })) .pipeWrite)
  else if 0 < (k.pipe p).writers then
    blockTransfer k .pipeRead
  else (.ok [], k)

/-- `pipe_write`. -/
def pipeWrite (k : Kernel) (p : ℕ) (buf : List UInt8) : Transfer ℕ × Kernel :=
  if (k.pipe p).readers = 0 then
    (.err, signalRaise k k.current sigPipe)
  else if pipeSpace (k.pipe p) = 0 then
    blockTransfer k .pipeWrite
  else
    let n := min (pipeSpace (k.pipe p)) buf.length
    let ring := (k.pipe p).ring.fill pipeSize (buf.take n)
    (.ok n, schedulerWake (k.setPipe p (some { k.pipe p with ring := ring })) .pipeRead)

/-! ### The keyboard -/

/-- `KBD_BUFFER_SIZE`. -/
def kbdBufferSize : ℕ := 128

/-- `SIG_INT`. -/
def sigInt : ℤ := 2

/-- `kbd_buffer_push`. -/
def kbdBufferPush (kb : Keyboard) (c : UInt8) : Keyboard :=
  if (kb.ring.writeIndex + 1) % kbdBufferSize = kb.ring.readIndex then kb
  else { kb with ring := kb.ring.put kbdBufferSize c }

/-- `keyboard_getchar`; 0 stands for nothing. -/
def keyboardGetchar (kb : Keyboard) : UInt8 × Keyboard :=
  if kb.ring.readIndex = kb.ring.writeIndex then (0, kb)
  else
    let (c, ring) := kb.ring.get kbdBufferSize
    (c, { kb with ring := ring })

/-- The loop of `file_read` that drains the keyboard. -/
def drain (kb : Keyboard) : ℕ → List UInt8 × Keyboard
  | 0 => ([], kb)
  | n + 1 =>
    let (c, kb') := keyboardGetchar kb
    if c = 0 then ([], kb')
    else
      let (l, kb') := drain kb' n
      (c :: l, kb')

/-- `scancode_to_ascii`, as far as it is not zero. -/
def scancodeToAscii : List UInt8 :=
  [0, 0, 49, 50, 51, 52, 53, 54, 55, 56, 57, 48, 45, 61, 8, 9,
    113, 119, 101, 114, 116, 121, 117, 105, 111, 112, 91, 93, 10, 0, 97, 115,
    100, 102, 103, 104, 106, 107, 108, 59, 39, 96, 0, 92, 122, 120, 99, 118,
    98, 110, 109, 44, 46, 47, 0, 42, 0, 32]

/-- `scancode_to_ascii_shift`, as far as it is not zero. -/
def scancodeToAsciiShift : List UInt8 :=
  [0, 0, 33, 64, 35, 36, 37, 94, 38, 42, 40, 41, 95, 43, 8, 9,
    81, 87, 69, 82, 84, 89, 85, 73, 79, 80, 123, 125, 10, 0, 65, 83,
    68, 70, 71, 72, 74, 75, 76, 58, 34, 126, 0, 124, 90, 88, 67, 86,
    66, 78, 77, 60, 62, 63, 0, 42, 0, 32]

/-- `table_for`, and the lookup in the table it returns. -/
def tableFor (kb : Keyboard) (scancode : ℕ) : UInt8 :=
  let plain := scancodeToAscii.getD scancode 0
  let isLetter := 97 ≤ plain ∧ plain ≤ 122
  let useShifted := if isLetter then kb.shiftHeld != kb.capsOn else kb.shiftHeld
  if useShifted then scancodeToAsciiShift.getD scancode 0 else plain

/-- `keyboard_callback`, with the scancode it reads from the port. -/
def keyboardCallback (k : Kernel) (scancode : UInt8) : Kernel :=
  let kb := k.keyboard
  if scancode &&& 0x80 ≠ 0 then
    let released := scancode &&& 0x7F
    { k with
      keyboard :=
        { kb with
          shiftHeld := if released = 0x2A ∨ released = 0x36 then false else kb.shiftHeld
          ctrlHeld := if released = 0x1D then false else kb.ctrlHeld } }
  else if scancode = 0x2A ∨ scancode = 0x36 then
    { k with keyboard := { kb with shiftHeld := true } }
  else if scancode = 0x3A then
    { k with keyboard := { kb with capsOn := !kb.capsOn } }
  else if scancode = 0x1D then
    { k with keyboard := { kb with ctrlHeld := true } }
  else if kb.ctrlHeld then
    if scancode = 0x2E then signalRaiseGroup k k.foregroundPgid sigInt
    else if scancode = 0x20 then
      schedulerWake { k with keyboard := { kb with consoleEof := true } } .key
    else k
  else
    let c := tableFor kb scancode.toNat
    if c ≠ 0 then
      schedulerWake { k with keyboard := kbdBufferPush kb c } .key
    else k

/-! ### Descriptors -/

/-- `file_read`. -/
def fileRead (k : Kernel) (f : File) (len : ℕ) : Transfer (List UInt8) × Kernel :=
  match f.kind with
  | .console =>
    let (bytes, kb) := drain k.keyboard len
    let k := { k with keyboard := kb }
    if bytes ≠ [] then (.ok bytes, k)
    else if kb.consoleEof then
      (.ok [], { k with keyboard := { kb with consoleEof := false } })
    else blockTransfer k .key
  | .pipe p => pipeRead k p len

/-- `file_write`. -/
def fileWrite (k : Kernel) (f : File) (buf : List UInt8) : Transfer ℕ × Kernel :=
  match f.kind with
  | .console => (.ok buf.length, k)
  | .pipe p => pipeWrite k p buf

/-- One more end of a pipe: `file_alloc_pipe` and `file_dup`. -/
def countEnd (k : Kernel) (f : File) : Kernel :=
  match f.kind with
  | .console => k
  | .pipe p =>
    k.setPipe p <| some <|
      if f.writable then { k.pipe p with writers := (k.pipe p).writers + 1 }
      else { k.pipe p with readers := (k.pipe p).readers + 1 }

/-- `file_close`. -/
def fileClose (k : Kernel) (f : File) : Kernel :=
  match f.kind with
  | .console => k
  | .pipe p =>
    let pipe :=
      if f.writable then { k.pipe p with writers := (k.pipe p).writers - 1 }
      else { k.pipe p with readers := (k.pipe p).readers - 1 }
    let k := k.setPipe p (some pipe)
    let k :=
      if f.writable then if pipe.writers = 0 then schedulerWake k .pipeRead else k
      else if pipe.readers = 0 then schedulerWake k .pipeWrite else k
    if pipe.readers = 0 ∧ pipe.writers = 0 then k.setPipe p none else k

/-- The file in a slot of the current task. -/
def currentFile (k : Kernel) (fd : ℕ) : Option File :=
  if fd < maxFds then k.currentTask.bind fun t => t.fds fd else none

/-- Change a slot of the current task. -/
def setFd (k : Kernel) (fd : ℕ) (f : Option File) : Kernel :=
  k.modifyCurrent fun t => { t with fds := Function.update t.fds fd f }

/-- `close_fd`. -/
def closeFd (k : Kernel) (fd : ℕ) : Kernel :=
  match k.currentFile fd with
  | none => k
  | some f => fileClose (k.setFd fd none) f

/-- `alloc_fd`. -/
def allocFd (k : Kernel) : Option ℕ := (List.range maxFds).find? fun fd => (k.currentFile fd).isNone

end Kernel

end TownOS
