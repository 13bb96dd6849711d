import TownOS.Foundations.Requests

/-!
The shell (`user/shell.c`, `next_token` of `user/userlib.h`).

The shell is a program in ring 3: what it does to the machine it does through system calls,
and here these are its requests. Strings are lists of characters without the final NUL;
`next_token` cuts them where the shell writes a NUL.
-/

namespace TownOS.Shell

open Requests

/-! ### Tokens -/

/-- `next_token`: the token, and what is left of the string after it. -/
def nextToken (pos : List Char) (sep : Char) : Option (List Char × List Char) :=
  match pos.dropWhile (· = sep) with
  | [] => none
  | p => some (p.takeWhile (· ≠ sep), (p.dropWhile (· ≠ sep)).tail)

/-- `SHELL_MAX_SEGS`. -/
def shellMaxSegs : ℕ := 4

/-- The loop of `run_pipeline` that splits the line, with the stages it has; `none` when there are
too many. The first argument bounds the rounds: each takes a character off the string. -/
def splitLine : ℕ → List Char → List (List Char) → Option (List (List Char))
  | 0, _, seg => some seg
  | rounds + 1, pos, seg =>
    match nextToken pos '|' with
    | none => some seg
    | some (s, pos) =>
      if shellMaxSegs ≤ seg.length then none else splitLine rounds pos (seg ++ [s])

/-! ### System calls -/

/-- `SYS_RUN_GROUP_NEW`. -/
def sysRunGroupNew : ℕ := 0xFFFFFFFF

/-- `SHELL_PGID`. -/
def shellPgid : ℕ := 0

/-- The system calls that the commands below make. -/
inductive Request where
  | pipe
  | close (fd : ℤ)
  | run (name : List Char) (inFd outFd : ℤ) (pgid : ℕ)
  | setfg (pgid : ℕ)
  | wait
  | print (text : List Char)

/-- What they return: the two descriptors, the id of the new task, the status and the id of a
task that has exited; `none` for -1. -/
def Request.Answer : Request → Type
  | pipe => Option (ℕ × ℕ)
  | close _ => Unit
  | run .. => Option ℕ
  | setfg _ => Bool
  | wait => Option (ℕ × ℕ)
  | print _ => Unit

/-- What the shell computes with them. -/
abbrev Sh (α : Type) : Type := Prog Request Request.Answer α

/-- `sys_pipe`. -/
def sysPipe : Sh (Option (ℕ × ℕ)) := Prog.call (A := Request.Answer) .pipe

/-- `sys_close`. -/
def sysClose (fd : ℤ) : Sh Unit := Prog.call (A := Request.Answer) (.close fd)

/-- `sys_run_group`. -/
def sysRunGroup (name : List Char) (inFd outFd : ℤ) (pgid : ℕ) : Sh (Option ℕ) :=
  Prog.call (A := Request.Answer) (.run name inFd outFd pgid)

/-- `sys_setfg`; what it returns is not looked at. -/
def sysSetfg (pgid : ℕ) : Sh Unit := Prog.ask (.setfg pgid) fun _ => .done ()

/-- `sys_wait` and `sys_wait_id`. -/
def sysWait : Sh (Option (ℕ × ℕ)) := Prog.call (A := Request.Answer) .wait

/-- `sys_print`, and `printf`. -/
def sysPrint (text : List Char) : Sh Unit := Prog.call (A := Request.Answer) (.print text)

/-- A descriptor is closed, unless it is -1. -/
def closeUnless (fd : ℤ) : Sh Unit := if fd ≠ -1 then sysClose fd else pure ()

/-! ### Pipelines -/

/-- `start_segment`: the id of the stage, `none` for -1. -/
def startSegment (seg : List Char) (inFd outFd : ℤ) (pgid : ℕ) : Sh (Option ℕ) :=
  match nextToken seg ' ' with
  | none => do
      sysPrint "pipe: each stage must be 'run <file>'\n".toList
      return none
  | some (cmd, pos) =>
    if cmd ≠ "run".toList then do
      sysPrint "pipe: each stage must be 'run <file>'\n".toList
      return none
    else
      match nextToken pos ' ' with
      | none => do
          sysPrint "pipe: run needs a filename\n".toList
          return none
      | some (name, _) => do
          match ← sysRunGroup name inFd outFd pgid with
          | none => do
              sysPrint ("pipe: could not start ".toList ++ name ++ "\n".toList)
              return none
          | some id => return some id

/-- The variables of `run_pipeline` that are read after its loop. -/
structure Job where
  pgid : ℕ
  started : ℕ
  lastId : Option ℕ
  deriving DecidableEq, Repr

/-- What a round of the loop does after it has its descriptors: `nextIn` is for the next stage. The
result is the read end to go on with, or `none` to go to `drain`. -/
def startStage (seg : List Char) (last : Bool) (inFd outFd nextIn : ℤ) (job : Job) :
    Sh (Option ℤ × Job) := do
  let id ← startSegment seg inFd outFd (if job.pgid = 0 then sysRunGroupNew else job.pgid)
  closeUnless inFd
  closeUnless outFd
  match id with
  | none => do
      closeUnless nextIn
      return (none, job)
  | some id =>
    return (some nextIn,
      { pgid := if job.pgid = 0 then id else job.pgid
        started := job.started + 1
        lastId := if last then some id else job.lastId })

/-- The loop of `run_pipeline`, with the stages that are left. -/
def startStages : List (List Char) → ℤ → Job → Sh Job
  | [], _, job => return job
  | [seg], inFd, job => do
      let (_, job) ← startStage seg true inFd (-1) (-1) job
      return job
  | seg :: next :: rest, inFd, job => do
      match ← sysPipe with
      | none => do
          sysPrint "pipe: could not create a pipe\n".toList
          closeUnless inFd
          return job
      | some (readEnd, writeEnd) => do
          match ← startStage seg false inFd writeEnd readEnd job with
          | (none, job) => return job
          | (some inFd, job) => startStages (next :: rest) inFd job

/-- The loop over the stages that were started; the status of the last one. -/
def reapStages (lastId : Option ℕ) : ℕ → Option ℕ → Sh (Option ℕ)
  | 0, lastStatus => return lastStatus
  | n + 1, lastStatus => do
      match ← sysWait with
      | none => reapStages lastId n lastStatus
      | some (st, who) => reapStages lastId n (if some who = lastId then some st else lastStatus)

/-- The status of the pipeline is printed, if the last stage was started and has one. -/
def reportStatus (lastId lastStatus : Option ℕ) : Sh Unit :=
  match lastId, lastStatus with
  | some _, some status =>
    sysPrint ("pipeline exited with status ".toList ++ (toString status).toList ++ "\n".toList)
  | _, _ => pure ()

/-- The job is put in the foreground, if there is one. -/
def giveKeyboard (pgid : ℕ) : Sh Unit := if pgid ≠ 0 then sysSetfg pgid else pure ()

/-- The part of `run_pipeline` from `drain` on. -/
def drain (job : Job) : Sh Unit := do
  giveKeyboard job.pgid
  let lastStatus ← reapStages job.lastId job.started none
  reportStatus job.lastId lastStatus
  sysSetfg shellPgid

/-- `run_pipeline`. -/
def runPipeline (line : List Char) : Sh Unit :=
  match splitLine (line.length + 1) line [] with
  | none => sysPrint "pipe: too many stages (max 4)\n".toList
  | some seg =>
    if seg.length < 2 then sysPrint "pipe: each side of | needs a command\n".toList
    else do
      let job ← startStages seg (-1) ⟨0, 0, none⟩
      drain job

/-! ### Single programs -/

end TownOS.Shell
