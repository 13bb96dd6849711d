import TownOS.Kernel.Descriptors
import TownOS.Foundations.Cells

/-!
Descriptors as pointers (`kernel/file.c`, `sys_pipe`, `task_create_from_file`).

In the kernel a slot of a descriptor table is a pointer to a `file_t`, and a `file_t` of a
pipe points to its `pipe_t`. Here both live in stores of cells that `kmalloc` and `kfree`
fill and empty; an access to a cell that is not in use is a fault. What happens to the ends
of pipes is noted in a log.

* `FileStore.step`: the system calls and the ends of tasks, with all ways they can fail;
* `Sound`: no fault so far, every `file_t` is in one place, and the pipes count their ends
  and are freed with the last one;
* `pipe_reference_counts`: all this after any calls of any tasks.
-/

namespace TownOS

/-- The counts of a `pipe_t`. -/
structure EndCounts where
  readers : ℤ
  writers : ℤ
  deriving DecidableEq

namespace EndCounts

/-- The count of one kind of ends. -/
def ends (x : EndCounts) (writable : Bool) : ℤ := if writable then x.writers else x.readers

/-- One kind of ends is counted up or down. -/
def add (x : EndCounts) (writable : Bool) (n : ℤ) : EndCounts :=
  if writable then { x with writers := x.writers + n } else { x with readers := x.readers + n }

end EndCounts

/-- What happens to the ends of pipes, and to pipes. -/
inductive PipeNote where
  /-- An end is counted. -/
  | opened (p : ℕ)
  /-- An end is closed, and these counts are left. -/
  | closed (p : ℕ) (left : EndCounts)
  /-- The `pipe_t` is freed. -/
  | freed (p : ℕ)
  deriving DecidableEq

/-- The descriptor table of a task, and whether the task has exited. -/
structure FdTable where
  fds : ℕ → Option ℕ
  exited : Bool

/-- The memory behind the descriptors. -/
structure FileStore where
  files : List (Option File)
  pipes : List (Option EndCounts)
  tables : List (Option FdTable)
  log : List PipeNote
  fault : Bool

namespace FileStore

/-- An access to memory that is not in use. -/
def fail (d : FileStore) : FileStore := { d with fault := true }

/-- The `file_t` at an address. -/
def file (d : FileStore) (a : ℕ) : Option File := Cells.get d.files a

/-- The `pipe_t` at an address. -/
def pipe (d : FileStore) (p : ℕ) : Option EndCounts := Cells.get d.pipes p

/-- The table of a task. -/
def table (d : FileStore) (i : ℕ) : Option FdTable := Cells.get d.tables i

/-- A slot of the table of a task. -/
def slot (d : FileStore) (i fd : ℕ) : Option ℕ := (d.table i).bind fun t => t.fds fd

/-- A slot is set. -/
def setSlot (d : FileStore) (i fd : ℕ) (o : Option ℕ) : FileStore :=
  match d.table i with
  | none => d.fail
  | some t =>
    { d with tables := d.tables.set i (some { t with fds := Function.update t.fds fd o }) }

/-- A `pipe_t` is written, or freed. -/
def setPipe (d : FileStore) (p : ℕ) (v : Option EndCounts) : FileStore :=
  { d with pipes := d.pipes.set p v }

/-- Something is noted in the log. -/
def note (d : FileStore) (n : PipeNote) : FileStore := { d with log := d.log ++ [n] }

/-- `kmalloc` of a `file_t`, filled in. -/
def newFile (d : FileStore) (f : File) : ℕ × FileStore :=
  (d.files.length, { d with files := d.files ++ [some f] })

/-- `kfree` of a `file_t`. -/
def kfreeFile (d : FileStore) (a : ℕ) : FileStore :=
  match d.file a with
  | none => d.fail
  | some _ => { d with files := d.files.set a none }

/-- `pipe_create`, when there is memory. -/
def pipeCreate (d : FileStore) : ℕ × FileStore :=
  (d.pipes.length, { d with pipes := d.pipes ++ [some ⟨0, 0⟩] })

/-- `kfree` of a `pipe_t`. -/
def kfreePipe (d : FileStore) (p : ℕ) : FileStore :=
  match d.pipe p with
  | none => d.fail
  | some _ => (d.setPipe p none).note (.freed p)

/-- An end of a pipe is counted. -/
def countEnd (d : FileStore) (p : ℕ) (writable : Bool) : FileStore :=
  match d.pipe p with
  | none => d.fail
  | some x => (d.setPipe p (some (x.add writable 1))).note (.opened p)

/-! ### Files -/

/-- `file_alloc_console`; `room` says whether `kmalloc` finds memory. -/
def fileAllocConsole (d : FileStore) (writable room : Bool) : Option ℕ × FileStore :=
  if !room then (none, d)
  else
    let (a, d) := d.newFile ⟨.console, writable⟩
    (some a, d)

/-- `file_alloc_pipe`. -/
def fileAllocPipe (d : FileStore) (p : ℕ) (writable room : Bool) : Option ℕ × FileStore :=
  if !room then (none, d)
  else
    let (a, d) := d.newFile ⟨.pipe p, writable⟩
    (some a, d.countEnd p writable)

/-- `file_dup`. -/
def fileDup (d : FileStore) (src : ℕ) (room : Bool) : Option ℕ × FileStore :=
  if !room then (none, d)
  else
    match d.file src with
    | none => (none, d.fail)
    | some f =>
      let (a, d) := d.newFile f
      match f.kind with
      | .console => (some a, d)
      | .pipe p => (some a, d.countEnd p f.writable)

/-- The part of `file_close` for an end of a pipe. -/
def closeEnd (d : FileStore) (p : ℕ) (writable : Bool) : FileStore :=
  match d.pipe p with
  | none => d.fail
  | some x =>
    let x := x.add writable (-1)
    let d := (d.setPipe p (some x)).note (.closed p x)
    if x.readers = 0 ∧ x.writers = 0 then d.kfreePipe p else d

/-- `file_close`. -/
def fileClose (d : FileStore) (a : ℕ) : FileStore :=
  match d.file a with
  | none => d.fail
  | some f =>
    match f.kind with
    | .console => d.kfreeFile a
    | .pipe p => (d.closeEnd p f.writable).kfreeFile a

/-- `close_fd`. -/
def closeFd (d : FileStore) (i fd : ℕ) : FileStore :=
  match d.slot i fd with
  | none => d
  | some a => (d.setSlot i fd none).fileClose a

/-- `alloc_fd`. -/
def allocFd (d : FileStore) (i : ℕ) : Option ℕ :=
  (List.range maxFds).find? fun fd => (d.slot i fd).isNone

/-! ### System calls -/

/-- `sys_close`. -/
def sysClose (d : FileStore) (i fd : ℕ) : FileStore :=
  if maxFds ≤ fd ∨ d.slot i fd = none then d else d.closeFd i fd

/-- The part of `sys_pipe` after the read end is in its slot. -/
def sysPipeWriteEnd (d : FileStore) (i p rfd : ℕ) (heap : ℕ → Bool) : FileStore :=
  match d.allocFd i with
  | none => d.closeFd i rfd
  | some wfd =>
    match d.fileAllocPipe p true (heap 2) with
    | (none, d) => d.closeFd i rfd
    | (some wend, d) => d.setSlot i wfd (some wend)

/-- The part of `sys_pipe` after `pipe_create`. -/
def sysPipeReadEnd (d : FileStore) (i p : ℕ) (heap : ℕ → Bool) : FileStore :=
  match d.allocFd i with
  | none => d.kfreePipe p
  | some rfd =>
    match d.fileAllocPipe p false (heap 1) with
    | (none, d) => d.kfreePipe p
    | (some rend, d) => (d.setSlot i rfd (some rend)).sysPipeWriteEnd i p rfd heap

/-- `sys_pipe`; `rangeOk` is the answer of `user_range_ok`, `heap` those of `kmalloc`. -/
def sysPipe (d : FileStore) (i : ℕ) (rangeOk : Bool) (heap : ℕ → Bool) : FileStore :=
  if !rangeOk then d
  else if !heap 0 then d
  else
    let (p, d) := d.pipeCreate
    d.sysPipeReadEnd i p heap

/-- A `file_t` that was allocated is freed again. -/
def kfreeIf (d : FileStore) : Option ℕ → FileStore
  | none => d
  | some a => d.kfreeFile a

/-- `task_register`, as far as descriptors go. -/
def taskRegister (d : FileStore) (heap : ℕ → Bool) : Option ℕ × FileStore :=
  if maxTasksLimit ≤ d.tables.length then (none, d)
  else if !heap 2 then (none, d)
  else
    let (fdIn, d) := d.fileAllocConsole false (heap 3)
    let (fdOut, d) := d.fileAllocConsole true (heap 4)
    match fdIn, fdOut with
    | some a, some b =>
      let fds := Function.update (Function.update (fun _ => none) 0 (some a)) 1 (some b)
      (some d.tables.length, { d with tables := d.tables ++ [some ⟨fds, false⟩] })
    | fdIn, fdOut => (none, (d.kfreeIf fdIn).kfreeIf fdOut)

/-- A descriptor that `task_create_from_file` is told to inherit: `some none` for a fresh
console, `none` for a refusal. -/
def inheritedFile (d : FileStore) (i : ℕ) (fd : ℤ) (writable : Bool) :
    Option (Option ℕ) × FileStore :=
  if fd = -1 then (some none, d)
  else if fd < 0 ∨ maxFds ≤ fd then (none, d)
  else
    match d.slot i fd.toNat with
    | none => (none, d)
    | some a =>
      match d.file a with
      | none => (none, d.fail)
      | some f => if f.writable = writable then (some (some a), d) else (none, d)

/-- `file_dup` of a descriptor to inherit, if there is one; `none` for a failure. -/
def dupFile (d : FileStore) (src : Option ℕ) (room : Bool) : Option (Option ℕ) × FileStore :=
  match src with
  | none => (some none, d)
  | some a =>
    match d.fileDup a room with
    | (none, d) => (none, d)
    | (some b, d) => (some (some b), d)

/-- `file_close` of a duplicate that is not going to be used. -/
def undoDup (d : FileStore) : Option ℕ → FileStore
  | none => d
  | some a => d.fileClose a

/-- A duplicate takes the place of a console. -/
def swapIn (d : FileStore) (i fd : ℕ) : Option ℕ → FileStore
  | none => d
  | some a => (d.closeFd i fd).setSlot i fd (some a)

/-- The part of `task_create_from_file` after the address space is there. -/
def startTask (d : FileStore) (inSrc outSrc : Option ℕ) (heap : ℕ → Bool) : FileStore :=
  match d.dupFile inSrc (heap 0) with
  | (none, d) => d
  | (some inDup, d) =>
    match d.dupFile outSrc (heap 1) with
    | (none, d) => d.undoDup inDup
    | (some outDup, d) =>
      match d.taskRegister heap with
      | (none, d) => (d.undoDup inDup).undoDup outDup
      | (some id, d) => (d.swapIn id 0 inDup).swapIn id 1 outDup

/-- `task_create_from_file`, as far as descriptors go; `allowed` is the answer of
`may_use_group`, `loaded` says whether the address space, the program and the stack are
there. -/
def taskCreateFromFile (d : FileStore) (i : ℕ) (inFd outFd : ℤ) (allowed loaded : Bool)
    (heap : ℕ → Bool) : FileStore :=
  if !allowed then d
  else
    match d.inheritedFile i inFd false with
    | (none, d) => d
    | (some inSrc, d) =>
      match d.inheritedFile i outFd true with
      | (none, d) => d
      | (some outSrc, d) => if !loaded then d else d.startTask inSrc outSrc heap

/-- The loop of `task_exit` over the descriptors. -/
def closeAll (d : FileStore) (i : ℕ) : FileStore :=
  (List.range maxFds).foldl (fun d fd => d.closeFd i fd) d

/-- The task is a zombie from here on. -/
def markExited (d : FileStore) (i : ℕ) : FileStore :=
  match d.table i with
  | none => d.fail
  | some t => { d with tables := d.tables.set i (some { t with exited := true }) }

/-- `task_exit`, as far as descriptors go. -/
def taskExit (d : FileStore) (i : ℕ) : FileStore := (d.closeAll i).markExited i

/-- `kfree` of the `task_t` of a zombie. -/
def reap (d : FileStore) (i : ℕ) : FileStore := { d with tables := d.tables.set i none }

/-- What tasks do to descriptors. -/
inductive Op where
  | pipe (i : ℕ) (rangeOk : Bool) (heap : ℕ → Bool)
  | close (i fd : ℕ)
  | run (i : ℕ) (inFd outFd : ℤ) (allowed loaded : Bool) (heap : ℕ → Bool)
  | exit (i : ℕ)
  | reap (i : ℕ)

/-- The task is there and has not exited. -/
def Alive (d : FileStore) (i : ℕ) : Prop := ((d.table i).map FdTable.exited) = some false

instance (d : FileStore) (i : ℕ) : Decidable (d.Alive i) :=
  inferInstanceAs (Decidable (_ = some false))

/-- The task has exited and its `task_t` is still there. -/
def Gone (d : FileStore) (i : ℕ) : Prop := ((d.table i).map FdTable.exited) = some true

instance (d : FileStore) (i : ℕ) : Decidable (d.Gone i) :=
  inferInstanceAs (Decidable (_ = some true))

/-- One call of a task, or the end of one. Only tasks that are there make calls, and only
those that have exited are freed. -/
def step (d : FileStore) : Op → Option FileStore
  | .pipe i rangeOk heap => if d.Alive i then some (d.sysPipe i rangeOk heap) else none
  | .close i fd => if d.Alive i then some (d.sysClose i fd) else none
  | .run i inFd outFd allowed loaded heap =>
    if d.Alive i then some (d.taskCreateFromFile i inFd outFd allowed loaded heap) else none
  | .exit i => if d.Alive i then some (d.taskExit i) else none
  | .reap i => if d.Gone i then some (d.reap i) else none

/-- Nothing is allocated. -/
def empty : FileStore := ⟨[], [], [], [], false⟩

/-- The first task is registered by `kernel_main`. -/
def boot : FileStore := (empty.taskRegister fun _ => true).2

/-! ### The invariant -/

open Runs Kernel

variable {d d' : FileStore} {o o' : Multiset ℕ} {i fd p a : ℕ} {t : FdTable} {x : EndCounts}
  {f : File}
  {due : Option ℕ} {bare bare' : Set ℕ}

/-- The slots of all tables. -/
def places (d : FileStore) : Finset (ℕ × ℕ) :=
  Finset.range d.tables.length ×ˢ Finset.range maxFds

/-- The addresses in the slots of all tables. -/
def refs (d : FileStore) : Multiset ℕ := Cells.held (fun x => d.slot x.1 x.2) d.places

/-- The ends a pipe counts; a pipe that is freed counts none. -/
def ends (d : FileStore) (p : ℕ) (w : Bool) : ℤ := (d.pipe p).elim 0 fun x => x.ends w

/-- The ends of a pipe among files. -/
def endsAmong (d : FileStore) (o : Multiset ℕ) (p : ℕ) (w : Bool) : ℕ :=
  (Cells.values d.files o).count (some ⟨.pipe p, w⟩)

/-- What may be noted, after what is noted: nothing happens to a pipe that is freed, and a
pipe is freed right after the close that left no ends of it, or before it has any. -/
def Licit (pre : List PipeNote) : PipeNote → Prop
  | .opened p => .freed p ∉ pre
  | .closed p _ => .freed p ∉ pre
  | .freed p => .freed p ∉ pre ∧ (pre.getLast? = some (.closed p ⟨0, 0⟩) ∨ .opened p ∉ pre)

/-- The log says what is freed; the pipe that is `due` has just lost its last end. -/
structure Recorded (due : Option ℕ) (d : FileStore) : Prop where
  licit : Each Licit d.log
  freed : ∀ p, .freed p ∈ d.log ↔ p < d.pipes.length ∧ d.pipe p = none
  opened : ∀ p, .opened p ∈ d.log → p < d.pipes.length
  emptied : ∀ p, .closed p ⟨0, 0⟩ ∈ d.log → .freed p ∈ d.log ∨ due = some p

/-- No access was a fault; every `file_t` is in one slot or on its way (`o`), the pipes count
their ends and have some, but for those that are being made (`bare`), and tasks that have
exited have no open files. -/
structure Sound (bare : Set ℕ) (o : Multiset ℕ) (d : FileStore) : Prop where
  unfaulted : d.fault = false
  owned : Cells.Owned d.files (o + d.refs)
  counts : ∀ p w, d.ends p w = d.endsAmong (o + d.refs) p w
  exited : ∀ i t, d.table i = some t → t.exited = true → ∀ fd < maxFds, t.fds fd = none
  used : ∀ p, d.pipe p = some ⟨0, 0⟩ → p ∈ bare
  recorded : Recorded none d

/-! ### Logs -/

lemma pipe_setPipe (hx : d.pipe p = some x) (v : Option EndCounts) (q : ℕ) :
    (d.setPipe p v).pipe q = if q = p then v else d.pipe q :=
  Cells.get_set hx v

lemma length_setPipe (v : Option EndCounts) : (d.setPipe p v).pipes.length = d.pipes.length :=
  List.length_set ..

lemma mem_note {n n' : PipeNote} : n' ∈ (d.note n).log ↔ n' ∈ d.log ∨ n' = n := by
  rw [note, List.mem_append, List.mem_singleton]

lemma Recorded.freed_notMem (h : Recorded due d) (hx : d.pipe p = some x) : .freed p ∉ d.log := by
  intro hmem
  rw [((h.freed p).mp hmem).2] at hx
  cases hx

lemma Recorded.congr (h : Recorded due d) (hlog : d'.log = d.log) (hpipes : d'.pipes = d.pipes) :
    Recorded due d' := by
  refine ⟨hlog ▸ h.licit, fun p => ?_, fun p => ?_, fun p => ?_⟩
  · rw [hlog, hpipes, pipe, hpipes]
    exact h.freed p
  · rw [hlog, hpipes]
    exact h.opened p
  · rw [hlog]
    exact h.emptied p

lemma Recorded.pipeCreate (h : Recorded due d) : Recorded due d.pipeCreate.2 := by
  have hpipe : ∀ q, d.pipeCreate.2.pipe q = if q = d.pipes.length then some ⟨0, 0⟩ else d.pipe q :=
    fun q => Cells.get_concat _
  have hlen : d.pipeCreate.2.pipes.length = d.pipes.length + 1 := List.length_append ..
  refine ⟨h.licit, fun q => (h.freed q).trans ?_, fun q hq => ?_, h.emptied⟩
  · rw [hpipe, hlen]
    rcases eq_or_ne q d.pipes.length with rfl | hne
    · simp
    · rw [if_neg hne]
      refine and_congr_left fun _ => ?_
      omega
  · have := h.opened q hq
    omega

/-- The counts of a pipe change. -/
lemma Recorded.setPipe (h : Recorded due d) (hx : d.pipe p = some x) (y : EndCounts) :
    Recorded due (d.setPipe p (some y)) := by
  refine ⟨h.licit, fun q => (h.freed q).trans ?_, fun q hq => ?_, h.emptied⟩
  · rw [pipe_setPipe hx, length_setPipe]
    rcases eq_or_ne q p with rfl | hne
    · simp [hx]
    · rw [if_neg hne]
  · rw [length_setPipe]
    exact h.opened q hq

lemma Recorded.note_opened (h : Recorded due d) (hx : d.pipe p = some x) :
    Recorded due (d.note (.opened p)) := by
  refine ⟨each_concat.mpr ⟨h.licit, h.freed_notMem hx⟩, fun q => ?_, fun q hq => ?_, fun q hq => ?_⟩
  · rw [mem_note, or_iff_left (by simp)]
    exact h.freed q
  · rcases mem_note.mp hq with hq | hq
    · exact h.opened q hq
    · obtain rfl := PipeNote.opened.inj hq
      exact Cells.lt_length_of_get hx
  · rw [mem_note, or_iff_left (by simp)] at hq
    exact (h.emptied q hq).imp_left fun hq => mem_note.mpr (.inl hq)

lemma Recorded.note_closed (h : Recorded none d) (hx : d.pipe p = some x) :
    Recorded (if x = ⟨0, 0⟩ then some p else none) (d.note (.closed p x)) := by
  refine ⟨each_concat.mpr ⟨h.licit, h.freed_notMem hx⟩, fun q => ?_, fun q hq => ?_, fun q hq => ?_⟩
  · rw [mem_note, or_iff_left (by simp)]
    exact h.freed q
  · rw [mem_note, or_iff_left (by simp)] at hq
    exact h.opened q hq
  · rcases mem_note.mp hq with hq | hq
    · exact .inl (mem_note.mpr (.inl ((h.emptied q hq).resolve_right (by simp))))
    · obtain ⟨rfl, rfl⟩ := PipeNote.closed.inj hq
      exact .inr (if_pos rfl)

/-- A pipe is freed: the one that has just lost its last end, or one that never had any. -/
lemma Recorded.free (h : Recorded due d) (hx : d.pipe p = some x) (hdue : ∀ q, due = some q → q = p)
    (hlast : d.log.getLast? = some (.closed p ⟨0, 0⟩) ∨ .opened p ∉ d.log) :
    Recorded none ((d.setPipe p none).note (.freed p)) := by
  have hlt := Cells.lt_length_of_get hx
  refine ⟨each_concat.mpr ⟨h.licit, h.freed_notMem hx, hlast⟩, fun q => ?_, fun q hq => ?_,
    fun q hq => .inl ?_⟩
  · have hpipe : ((d.setPipe p none).note (.freed p)).pipe q = if q = p then none else d.pipe q :=
      pipe_setPipe hx none q
    have hfreed : .freed q ∈ (d.setPipe p none).log ↔ q < d.pipes.length ∧ d.pipe q = none :=
      h.freed q
    rw [mem_note, hfreed, hpipe,
      show ((d.setPipe p none).note (.freed p)).pipes.length = d.pipes.length from length_setPipe _]
    rcases eq_or_ne q p with rfl | hne
    · simpa using hlt
    · simp [hne]
  · rw [mem_note, or_iff_left (by simp)] at hq
    exact (h.opened q hq).trans_eq (length_setPipe none).symm
  · rw [mem_note, or_iff_left (by simp)] at hq
    rcases h.emptied q hq with hq | hq
    · exact mem_note.mpr (.inl hq)
    · exact mem_note.mpr (.inr (congrArg _ (hdue q hq)))

/-! ### Counts -/

lemma EndCounts.ends_add (x : EndCounts) (w v : Bool) (n : ℤ) :
    (x.add w n).ends v = x.ends v + if w = v then n else 0 := by
  cases w <;> cases v <;> simp [EndCounts.add, EndCounts.ends]

/-- The counts of a pipe change by one file. -/
lemma ends_setPipe (hx : d.pipe p = some x) (w : Bool) (n : ℤ) (q : ℕ) (v : Bool) :
    (d.setPipe p (some (x.add w n))).ends q v = d.ends q v + n * endOf ⟨.pipe p, w⟩ q v := by
  rw [ends, pipe_setPipe hx, ends, endOf_pipe]
  rcases eq_or_ne q p with rfl | hne
  · rw [if_pos rfl, hx]
    simp [EndCounts.ends_add]
  · rw [if_neg hne, if_neg fun h => hne h.1.symm, mul_zero, add_zero]

lemma count_value (f : File) (l : Multiset (Option File)) (p : ℕ) (w : Bool) :
    ((some f ::ₘ l).count (some ⟨.pipe p, w⟩) : ℤ) = l.count (some ⟨.pipe p, w⟩) + endOf f p w := by
  rw [Multiset.count_cons, endOf]
  split_ifs <;> simp_all

/-- A file that is about is an end of a pipe in use. -/
lemma Sound.pipe_of_file (h : Sound bare o d) (hf : d.file a = some f) (hp : f.kind = .pipe p) :
    ∃ x, d.pipe p = some x := by
  obtain ⟨kind, w⟩ := f
  obtain rfl : kind = .pipe p := hp
  have hmem : some ⟨.pipe p, w⟩ ∈ Cells.values d.files (o + d.refs) :=
    Multiset.mem_map.mpr ⟨a, h.owned.mem_iff.mpr ⟨_, hf⟩, hf⟩
  have hpos : d.ends p w ≠ 0 := by
    rw [h.counts]
    exact_mod_cast (Multiset.count_pos.mpr hmem).ne'
  rw [ends] at hpos
  cases hx : d.pipe p with
  | none => simp [hx] at hpos
  | some x => exact ⟨x, rfl⟩

/-- What is in a slot is a file in use. -/
lemma Sound.file_of_slot (h : Sound bare o d) (hfd : fd < maxFds) (hs : d.slot i fd = some a) :
    ∃ f, d.file a = some f := by
  have hi : i < d.tables.length := by
    rw [slot] at hs
    obtain ⟨t, ht, -⟩ := Option.bind_eq_some_iff.mp hs
    exact Cells.lt_length_of_get ht
  have hplace : (i, fd) ∈ d.places :=
    Finset.mem_product.mpr ⟨Finset.mem_range.mpr hi, Finset.mem_range.mpr hfd⟩
  have hmem : a ∈ d.refs := Cells.mem_held.mpr ⟨(i, fd), hplace, hs⟩
  exact h.owned.get (Multiset.mem_add.mpr (.inr hmem))

/-! ### Files -/

lemma Sound.newConsole (h : Sound bare o d) (w : Bool) :
    Sound bare (d.files.length ::ₘ o) (d.newFile ⟨.console, w⟩).2 := by
  refine ⟨h.unfaulted, ?_, fun p v => ?_, h.exited, h.used, h.recorded.congr rfl rfl⟩
  · rw [Multiset.cons_add]
    exact h.owned.alloc _
  · have hvalues := Cells.values_alloc h.owned (⟨.console, w⟩ : File)
    rw [endsAmong, Multiset.cons_add]
    refine (h.counts p v).trans ?_
    rw [endsAmong,
      show (d.newFile ⟨.console, w⟩).2.files = d.files ++ [some ⟨.console, w⟩] from rfl,
      show (d.newFile ⟨.console, w⟩).2.refs = d.refs from rfl, hvalues, count_value, endOf_console,
      add_zero]

/-- An end of a pipe is made. -/
lemma Sound.newEnd (h : Sound bare o d) (hx : d.pipe p = some x) (w : Bool)
    (hbare : bare ⊆ insert p bare') :
    Sound bare' (d.files.length ::ₘ o) ((d.newFile ⟨.pipe p, w⟩).2.countEnd p w) := by
  have hcount : (d.newFile ⟨.pipe p, w⟩).2.countEnd p w =
      ((d.newFile ⟨.pipe p, w⟩).2.setPipe p (some (x.add w 1))).note (.opened p) := by
    rw [countEnd, show (d.newFile ⟨.pipe p, w⟩).2.pipe p = some x from hx]
  rw [hcount]
  refine ⟨h.unfaulted, ?_, fun q v => ?_, h.exited, fun q hq => ?_, ?_⟩
  · rw [Multiset.cons_add]
    exact h.owned.alloc _
  · have hvalues := Cells.values_alloc h.owned (⟨.pipe p, w⟩ : File)
    have hends := ends_setPipe (d := (d.newFile ⟨.pipe p, w⟩).2) hx w 1 q v
    rw [endsAmong, Multiset.cons_add]
    refine hends.trans ?_
    rw [one_mul, show (d.newFile ⟨.pipe p, w⟩).2.ends q v = d.ends q v from rfl, h.counts]
    rw [endsAmong, ← count_value, ← hvalues]
    rfl
  · have hpipe :
        (((d.newFile ⟨.pipe p, w⟩).2.setPipe p (some (x.add w 1))).note (.opened p)).pipe q =
        if q = p then some (x.add w 1) else d.pipe q :=
      pipe_setPipe (d := (d.newFile ⟨.pipe p, w⟩).2) hx _ q
    rw [hpipe] at hq
    split_ifs at hq with hqp
    · -- an end more than before is at least one end
      have hends := h.counts p w
      rw [ends, hx] at hends
      have hzero := congrArg (EndCounts.ends · w) (Option.some.inj hq)
      simp only [EndCounts.ends_add, if_true, Option.elim_some] at hzero hends
      have hz : (⟨0, 0⟩ : EndCounts).ends w = 0 := by cases w <;> rfl
      omega
    · exact (hbare (h.used q hq)).resolve_left hqp
  · have hnew : Recorded none (d.newFile ⟨.pipe p, w⟩).2 := h.recorded.congr rfl rfl
    refine (hnew.setPipe hx _).note_opened (x := x.add w 1) ?_
    rw [pipe_setPipe (d := (d.newFile ⟨.pipe p, w⟩).2) hx, if_pos rfl]

/-- What closing an end of a pipe comes to. -/
lemma closeEnd_cases (hx : d.pipe p = some x) (w : Bool) :
    (x.add w (-1) = ⟨0, 0⟩ ∧ d.closeEnd p w =
      (((d.setPipe p (some (x.add w (-1)))).note (.closed p ⟨0, 0⟩)).setPipe p none).note
        (.freed p)) ∨
    (x.add w (-1) ≠ ⟨0, 0⟩ ∧ d.closeEnd p w =
      (d.setPipe p (some (x.add w (-1)))).note (.closed p (x.add w (-1)))) := by
  have hpipe : (d.setPipe p (some (x.add w (-1)))).pipe p = some (x.add w (-1)) := by
    rw [pipe_setPipe hx, if_pos rfl]
  rw [closeEnd, hx]
  dsimp only
  generalize x.add w (-1) = y at hpipe ⊢
  by_cases hzero : y.readers = 0 ∧ y.writers = 0
  · obtain rfl : y = ⟨0, 0⟩ := by
      obtain ⟨r, v⟩ := y
      exact congrArg₂ EndCounts.mk hzero.1 hzero.2
    refine .inl ⟨rfl, ?_⟩
    rw [if_pos ⟨rfl, rfl⟩, kfreePipe,
      show ((d.setPipe p (some ⟨0, 0⟩)).note (.closed p ⟨0, 0⟩)).pipe p = some ⟨0, 0⟩ from hpipe]
  · exact .inr ⟨fun heq => hzero (heq ▸ ⟨rfl, rfl⟩), if_neg hzero⟩

lemma closeEnd_frame (hx : d.pipe p = some x) (w : Bool) : (d.closeEnd p w).files = d.files ∧
    (d.closeEnd p w).tables = d.tables ∧ (d.closeEnd p w).fault = d.fault := by
  obtain ⟨-, heq⟩ | ⟨-, heq⟩ := closeEnd_cases hx w <;> rw [heq] <;> exact ⟨rfl, rfl, rfl⟩

lemma ends_closeEnd (hx : d.pipe p = some x) (w : Bool) (q : ℕ) (v : Bool) :
    (d.closeEnd p w).ends q v = d.ends q v - endOf ⟨.pipe p, w⟩ q v := by
  have hends := ends_setPipe hx w (-1) q v
  rw [neg_one_mul, ← sub_eq_add_neg] at hends
  rw [← hends]
  obtain ⟨hzero, heq⟩ | ⟨-, heq⟩ := closeEnd_cases hx w
  · -- a pipe without ends counts as many as one that is freed
    have hpipe : (d.setPipe p (some (x.add w (-1)))).pipe p = some (x.add w (-1)) := by
      rw [pipe_setPipe hx, if_pos rfl]
    rw [heq]
    generalize x.add w (-1) = y at hzero hpipe ⊢
    subst hzero
    have hfreed : ((((d.setPipe p (some ⟨0, 0⟩)).note (.closed p ⟨0, 0⟩)).setPipe p none).note
        (.freed p)).pipe q = if q = p then none else (d.setPipe p (some ⟨0, 0⟩)).pipe q :=
      pipe_setPipe (d := (d.setPipe p (some ⟨0, 0⟩)).note (.closed p ⟨0, 0⟩)) hpipe none q
    rw [ends, hfreed, ends]
    rcases eq_or_ne q p with rfl | hne
    · rw [if_pos rfl, hpipe]
      cases v <;> rfl
    · rw [if_neg hne]
  · rw [heq]
    rfl

/-- A pipe that stays has ends. -/
lemma used_closeEnd (hx : d.pipe p = some x) (w : Bool) (q : ℕ)
    (hq : (d.closeEnd p w).pipe q = some ⟨0, 0⟩) : d.pipe q = some ⟨0, 0⟩ := by
  have hpipe := pipe_setPipe hx (some (x.add w (-1)))
  obtain ⟨-, heq⟩ | ⟨hne, heq⟩ := closeEnd_cases hx w
  · have hself : ((d.setPipe p (some (x.add w (-1)))).note (.closed p ⟨0, 0⟩)).pipe p =
        some (x.add w (-1)) := (hpipe p).trans (if_pos rfl)
    have hfreed := pipe_setPipe hself none q
    rw [heq] at hq
    have hq := hfreed.symm.trans hq
    split_ifs at hq with hqp
    exact ((hpipe q).trans (if_neg hqp)).symm.trans hq
  · rw [heq] at hq
    have hq := (hpipe q).symm.trans hq
    split_ifs at hq with hqp
    · exact absurd (Option.some.inj hq) hne
    · exact hq

lemma Recorded.closeEnd (h : Recorded none d) (hx : d.pipe p = some x) (w : Bool) :
    Recorded none (d.closeEnd p w) := by
  have hpipe : (d.setPipe p (some (x.add w (-1)))).pipe p = some (x.add w (-1)) := by
    rw [pipe_setPipe hx, if_pos rfl]
  have hnoted := (h.setPipe hx (x.add w (-1))).note_closed hpipe
  obtain ⟨hzero, heq⟩ | ⟨hne, heq⟩ := closeEnd_cases hx w
  · rw [heq]
    rw [if_pos hzero] at hnoted
    generalize x.add w (-1) = y at hzero hpipe hnoted ⊢
    subst hzero
    refine hnoted.free hpipe (fun q hq => (Option.some.inj hq).symm) (.inl ?_)
    exact List.getLast?_concat
  · rw [heq]
    rwa [if_neg hne] at hnoted

/-- A file is freed, and if it was an end its pipe counts one less. -/
lemma Sound.freeFile (h : Sound bare (a ::ₘ o) d) (hf : d.file a = some f)
    (hfiles : d'.files = d.files.set a none) (htables : d'.tables = d.tables)
    (hfault : d'.fault = d.fault) (hends : ∀ q v, d'.ends q v = d.ends q v - endOf f q v)
    (hused : ∀ q, d'.pipe q = some ⟨0, 0⟩ → d.pipe q = some ⟨0, 0⟩) (hrec : Recorded none d') :
    Sound bare o d' := by
  have howned := h.owned
  rw [Multiset.cons_add] at howned
  have hrefs : d'.refs = d.refs := by
    rw [refs, refs, places, places, htables]
    exact Cells.held_congr fun x _ => by rw [slot, slot, table, table, htables]
  refine ⟨hfault.trans h.unfaulted, ?_, fun q v => ?_, fun i t ht => ?_,
    fun q hq => h.used q (hused q hq), hrec⟩
  · rw [hfiles, hrefs]
    exact howned.free
  · rw [hends, h.counts, endsAmong, endsAmong, hrefs, hfiles, Multiset.cons_add, Cells.values_cons,
      Cells.values_free howned, show Cells.get d.files a = some f from hf, count_value,
      add_sub_cancel_right]
  · rw [table, htables] at ht
    exact h.exited i t ht

/-- `file_close` of a file that is on its way. -/
lemma Sound.fileClose (h : Sound bare (a ::ₘ o) d) : Sound bare o (d.fileClose a) := by
  obtain ⟨f, hf⟩ := h.owned.get (Multiset.mem_add.mpr (.inl (Multiset.mem_cons_self a o)))
  change d.file a = some f at hf
  rw [FileStore.fileClose, hf]
  dsimp only
  obtain ⟨kind, w⟩ := f
  cases kind with
  | console =>
    dsimp only
    rw [kfreeFile, hf]
    refine h.freeFile hf rfl rfl rfl (fun q v => ?_) (fun _ hq => hq) (h.recorded.congr rfl rfl)
    rw [endOf_console, sub_zero]
    rfl
  | pipe p =>
    obtain ⟨x, hx⟩ := h.pipe_of_file hf rfl
    obtain ⟨hfiles, htables, hfault⟩ := closeEnd_frame hx w
    have hends := ends_closeEnd hx w
    have hused := used_closeEnd hx w
    have hrec := h.recorded.closeEnd hx w
    dsimp only
    generalize d.closeEnd p w = d₁ at hfiles htables hfault hends hused hrec ⊢
    rw [kfreeFile, show d₁.file a = some ⟨.pipe p, w⟩ by rwa [file, hfiles]]
    exact h.freeFile hf (by rw [hfiles]) htables hfault hends hused (hrec.congr rfl rfl)

/-! ### Slots -/

lemma setSlot_eq (ht : d.table i = some t) (v : Option ℕ) : d.setSlot i fd v =
    { d with tables := d.tables.set i (some { t with fds := Function.update t.fds fd v }) } := by
  rw [setSlot, ht]

lemma table_setSlot (ht : d.table i = some t) (v : Option ℕ) (j : ℕ) : (d.setSlot i fd v).table j =
    if j = i then some { t with fds := Function.update t.fds fd v } else d.table j := by
  rw [setSlot_eq ht]
  exact Cells.get_set ht _

lemma slot_setSlot (ht : d.table i = some t) (v : Option ℕ) (j e : ℕ) :
    (d.setSlot i fd v).slot j e = if j = i ∧ e = fd then v else d.slot j e := by
  rw [slot, table_setSlot ht, slot]
  rcases eq_or_ne j i with rfl | hj
  · rw [if_pos rfl, Option.bind_some, ht, Option.bind_some]
    rcases eq_or_ne e fd with rfl | he
    · dsimp only
      rw [Function.update_self, if_pos ⟨rfl, rfl⟩]
    · dsimp only
      rw [Function.update_of_ne he, if_neg fun h => he h.2]
  · rw [if_neg hj, if_neg fun h => hj h.1]

lemma refs_setSlot (ht : d.table i = some t) (hfd : fd < maxFds) (v : Option ℕ) :
    (d.setSlot i fd v).refs + ↑(d.slot i fd).toList = d.refs + ↑v.toList := by
  have hplaces : (d.setSlot i fd v).places = d.places := by
    rw [setSlot_eq ht, places, places, List.length_set]
  have hmem : (i, fd) ∈ d.places := Finset.mem_product.mpr
    ⟨Finset.mem_range.mpr (Cells.lt_length_of_get ht), Finset.mem_range.mpr hfd⟩
  have hchange := Cells.held_change (fun x : ℕ × ℕ => d.slot x.1 x.2)
    (fun x => (d.setSlot i fd v).slot x.1 x.2) hmem fun y _ hne => by
      rw [slot_setSlot ht, if_neg fun h => hne (Prod.ext h.1 h.2)]
  rw [slot_setSlot ht, if_pos ⟨rfl, rfl⟩] at hchange
  rwa [refs, hplaces]

/-- A slot is set; what was in it is on its way then, and what is in it no longer is. -/
lemma Sound.setSlot (h : Sound bare o d) (ht : d.table i = some t) (hlive : t.exited = false)
    (hfd : fd < maxFds) {v : Option ℕ} (ho : o' + ↑v.toList = o + ↑(d.slot i fd).toList) :
    Sound bare o' (d.setSlot i fd v) := by
  have htotal : o' + (d.setSlot i fd v).refs = o + d.refs := by
    have hrefs := refs_setSlot ht hfd v
    refine add_right_cancel (b := (↑v.toList : Multiset ℕ) + ↑(d.slot i fd).toList) ?_
    calc o' + (d.setSlot i fd v).refs + (↑v.toList + ↑(d.slot i fd).toList)
        = (o' + ↑v.toList) + ((d.setSlot i fd v).refs + ↑(d.slot i fd).toList) := by abel
      _ = (o + ↑(d.slot i fd).toList) + (d.refs + ↑v.toList) := by rw [ho, hrefs]
      _ = o + d.refs + (↑v.toList + ↑(d.slot i fd).toList) := by abel
  refine ⟨?_, ?_, fun p w => ?_, fun j t' ht' hex => ?_, ?_, ?_⟩
  · rw [setSlot_eq ht]
    exact h.unfaulted
  · rw [htotal, setSlot_eq ht]
    exact h.owned
  · rw [htotal, setSlot_eq ht]
    exact h.counts p w
  · rw [table_setSlot ht] at ht'
    split_ifs at ht'
    · obtain rfl := Option.some.inj ht'
      exact absurd (hlive.symm.trans hex) Bool.false_ne_true
    · exact h.exited j t' ht' hex
  · rw [setSlot_eq ht]
    exact h.used
  · rw [setSlot_eq ht]
    exact h.recorded.congr rfl rfl

lemma alive_iff : d.Alive i ↔ ∃ t, d.table i = some t ∧ t.exited = false := by
  rw [Alive, Option.map_eq_some_iff]

lemma alive_congr (h : d'.tables = d.tables) : d'.Alive i ↔ d.Alive i := by
  rw [Alive, table, h, Alive, table]

lemma slot_congr (h : d'.tables = d.tables) (j e : ℕ) : d'.slot j e = d.slot j e := by
  rw [slot, table, h, slot, table]

lemma alive_setSlot {j : ℕ} (ht : d.table j = some t) (v : Option ℕ) :
    (d.setSlot j fd v).Alive i ↔ d.Alive i := by
  rw [Alive, table_setSlot ht, Alive]
  rcases eq_or_ne i j with rfl | hne
  · rw [if_pos rfl, ht]
    rfl
  · rw [if_neg hne]

/-- A file on its way is put into a free slot. -/
lemma Sound.put (h : Sound bare (a ::ₘ o) d) (hi : d.Alive i) (hfd : fd < maxFds)
    (hfree : d.slot i fd = none) : Sound bare o (d.setSlot i fd (some a)) := by
  obtain ⟨t, ht, hlive⟩ := alive_iff.mp hi
  refine h.setSlot ht hlive hfd ?_
  rw [hfree, ← Multiset.singleton_add, add_comm o]
  exact (add_zero _).symm

/-- A file is taken out of a slot. -/
lemma Sound.take (h : Sound bare o d) (hi : d.Alive i) (hfd : fd < maxFds)
    (hs : d.slot i fd = some a) : Sound bare (a ::ₘ o) (d.setSlot i fd none) := by
  obtain ⟨t, ht, hlive⟩ := alive_iff.mp hi
  refine h.setSlot ht hlive hfd ?_
  rw [hs, ← Multiset.singleton_add, add_comm o]
  exact add_zero _

lemma tables_kfreeFile (d : FileStore) (a : ℕ) : (d.kfreeFile a).tables = d.tables := by
  rw [kfreeFile]
  cases d.file a <;> rfl

lemma tables_kfreePipe (d : FileStore) (p : ℕ) : (d.kfreePipe p).tables = d.tables := by
  rw [kfreePipe]
  cases d.pipe p <;> rfl

lemma tables_countEnd (d : FileStore) (p : ℕ) (w : Bool) : (d.countEnd p w).tables = d.tables := by
  rw [countEnd]
  cases d.pipe p <;> rfl

lemma tables_closeEnd (d : FileStore) (p : ℕ) (w : Bool) : (d.closeEnd p w).tables = d.tables := by
  rw [closeEnd]
  cases hx : d.pipe p with
  | none => rfl
  | some x =>
    dsimp only
    split_ifs
    · exact tables_kfreePipe _ p
    · rfl

lemma tables_fileClose (d : FileStore) (a : ℕ) : (d.fileClose a).tables = d.tables := by
  rw [fileClose]
  cases d.file a with
  | none => rfl
  | some f =>
    dsimp only
    cases f.kind with
    | console => exact tables_kfreeFile d a
    | pipe p => exact (tables_kfreeFile _ a).trans (tables_closeEnd d p f.writable)

/-- `close_fd` of a slot of a task that runs. -/
lemma Sound.closeFd (h : Sound bare o d) (hi : d.Alive i) (hfd : fd < maxFds) :
    Sound bare o (d.closeFd i fd) := by
  rw [FileStore.closeFd]
  cases hs : d.slot i fd with
  | none => exact h
  | some a => exact (h.take hi hfd hs).fileClose

lemma alive_closeFd {j : ℕ} (hj : d.Alive j) : (d.closeFd j fd).Alive i ↔ d.Alive i := by
  obtain ⟨t, ht, -⟩ := alive_iff.mp hj
  rw [closeFd]
  cases d.slot j fd with
  | none => rfl
  | some a => exact (alive_congr (tables_fileClose _ a)).trans (alive_setSlot ht none)

lemma slot_closeFd (hi : d.Alive i) (j e : ℕ) :
    (d.closeFd i fd).slot j e = if j = i ∧ e = fd then none else d.slot j e := by
  obtain ⟨t, ht, -⟩ := alive_iff.mp hi
  rw [closeFd]
  cases hs : d.slot i fd with
  | none =>
    dsimp only
    split_ifs with h
    · rw [h.1, h.2, hs]
    · rfl
  | some a => exact (slot_congr (tables_fileClose _ a) j e).trans (slot_setSlot ht none j e)

lemma allocFd_some (h : d.allocFd i = some fd) : fd < maxFds ∧ d.slot i fd = none := by
  have hmem := List.mem_of_find?_eq_some h
  have hfree := List.find?_some h
  exact ⟨List.mem_range.mp hmem, by simpa using hfree⟩

/-! ### Pipes -/

lemma pipe_pipeCreate (q : ℕ) :
    d.pipeCreate.2.pipe q = if q = d.pipes.length then some ⟨0, 0⟩ else d.pipe q :=
  Cells.get_concat _

lemma ends_pipeCreate (q : ℕ) (v : Bool) : d.pipeCreate.2.ends q v = d.ends q v := by
  rw [ends, pipe_pipeCreate, ends]
  rcases eq_or_ne q d.pipes.length with rfl | hne
  · rw [if_pos rfl, show d.pipe d.pipes.length = none from Cells.get_length]
    cases v <;> rfl
  · rw [if_neg hne]

lemma Sound.pipeCreate (h : Sound bare o d) :
    Sound (insert d.pipes.length bare) o d.pipeCreate.2 := by
  refine ⟨h.unfaulted, h.owned, fun q v => ?_, h.exited, fun q hq => ?_, h.recorded.pipeCreate⟩
  · rw [ends_pipeCreate]
    exact h.counts q v
  · rw [pipe_pipeCreate] at hq
    split_ifs at hq with hqp
    · exact .inl hqp
    · exact .inr (h.used q hq)

/-- A pipe that never had ends is freed. -/
lemma Sound.dropPipe (h : Sound (insert p bare) o d) (hx : d.pipe p = some ⟨0, 0⟩)
    (hnew : .opened p ∉ d.log) : Sound bare o (d.kfreePipe p) := by
  rw [kfreePipe, hx]
  have hpipe :
      ∀ q, ((d.setPipe p none).note (.freed p)).pipe q = if q = p then none else d.pipe q :=
    pipe_setPipe hx none
  refine ⟨h.unfaulted, h.owned, fun q v => ?_, h.exited, fun q hq => ?_,
    h.recorded.free hx (by simp) (.inr hnew)⟩
  · refine Eq.trans ?_ (h.counts q v)
    rw [ends, hpipe, ends]
    rcases eq_or_ne q p with rfl | hne
    · rw [if_pos rfl, hx]
      cases v <;> rfl
    · rw [if_neg hne]
  · rw [hpipe] at hq
    split_ifs at hq with hqp
    exact (h.used q hq).resolve_left hqp

/-- `sys_pipe`, when the read end is in its slot. -/
lemma Sound.sysPipeWriteEnd (h : Sound bare 0 d) (hi : d.Alive i) {rfd : ℕ} (hr : rfd < maxFds)
    (hx : d.pipe p = some x) (heap : ℕ → Bool) : Sound bare 0 (d.sysPipeWriteEnd i p rfd heap) := by
  rw [FileStore.sysPipeWriteEnd]
  cases hw : d.allocFd i with
  | none => exact h.closeFd hi hr
  | some wfd =>
    obtain ⟨hwfd, hfree⟩ := allocFd_some hw
    cases hroom : heap 2 with
    | false => exact h.closeFd hi hr
    | true =>
      have hnew := h.newEnd hx true (Set.subset_insert p bare)
      have htables : ((d.newFile ⟨.pipe p, true⟩).2.countEnd p true).tables = d.tables :=
        tables_countEnd _ p true
      exact hnew.put ((alive_congr htables).mpr hi) hwfd ((slot_congr htables i wfd).trans hfree)

lemma Sound.sysPipeReadEnd (h : Sound {p} 0 d) (hi : d.Alive i) (hx : d.pipe p = some ⟨0, 0⟩)
    (hnew : .opened p ∉ d.log) (heap : ℕ → Bool) : Sound ∅ 0 (d.sysPipeReadEnd i p heap) := by
  have hbare : Sound (insert p ∅) 0 d := by rwa [insert_empty_eq]
  rw [FileStore.sysPipeReadEnd]
  cases hr : d.allocFd i with
  | none => exact hbare.dropPipe hx hnew
  | some rfd =>
    obtain ⟨hrfd, hfree⟩ := allocFd_some hr
    cases hroom : heap 1 with
    | false => exact hbare.dropPipe hx hnew
    | true =>
      have hend := hbare.newEnd hx false subset_rfl
      have htables : ((d.newFile ⟨.pipe p, false⟩).2.countEnd p false).tables = d.tables :=
        tables_countEnd _ p false
      have hpipe : ((d.newFile ⟨.pipe p, false⟩).2.countEnd p false).pipe p =
          some ((⟨0, 0⟩ : EndCounts).add false 1) := by
        rw [countEnd, show (d.newFile ⟨.pipe p, false⟩).2.pipe p = some ⟨0, 0⟩ from hx]
        exact (pipe_setPipe (d := (d.newFile ⟨.pipe p, false⟩).2) hx _ p).trans (if_pos rfl)
      have halive := (alive_congr (i := i) htables).mpr hi
      have hslot := (slot_congr htables i rfd).trans hfree
      change Sound ∅ 0 ((((d.newFile ⟨.pipe p, false⟩).2.countEnd p false).setSlot i rfd
        (some d.files.length)).sysPipeWriteEnd i p rfd heap)
      generalize (d.newFile ⟨.pipe p, false⟩).2.countEnd p false = d₁ at hend hpipe halive hslot ⊢
      obtain ⟨t, ht, -⟩ := alive_iff.mp halive
      refine (hend.put halive hrfd hslot).sysPipeWriteEnd ((alive_setSlot ht _).mpr halive) hrfd
        (x := (⟨0, 0⟩ : EndCounts).add false 1) ?_ heap
      rw [setSlot_eq ht]
      exact hpipe

/-- `sys_pipe`. -/
lemma Sound.sysPipe (h : Sound ∅ 0 d) (hi : d.Alive i) (rangeOk : Bool) (heap : ℕ → Bool) :
    Sound ∅ 0 (d.sysPipe i rangeOk heap) := by
  rw [FileStore.sysPipe]
  refine iteInduction (fun _ => h) fun _ => iteInduction (fun _ => h) fun _ => ?_
  have hmade := h.pipeCreate
  rw [insert_empty_eq] at hmade
  refine hmade.sysPipeReadEnd hi (by rw [pipe_pipeCreate, if_pos rfl]) (fun hmem => ?_) heap
  exact absurd (h.recorded.opened _ hmem) (lt_irrefl _)

/-! ### Tasks -/

/-- The tables change, but not what is in their slots. -/
lemma Sound.retable (h : Sound bare o d) {l : List (Option FdTable)}
    (hrefs : { d with tables := l }.refs = d.refs)
    (hex : ∀ i t, Cells.get l i = some t → t.exited = true → ∀ fd < maxFds, t.fds fd = none) :
    Sound bare o { d with tables := l } := by
  refine ⟨h.unfaulted, ?_, fun p w => ?_, hex, h.used, h.recorded.congr rfl rfl⟩
  · rw [hrefs]
    exact h.owned
  · rw [hrefs]
    exact h.counts p w

/-- A task without open files is registered. -/
lemma Sound.addTable (h : Sound bare o d) :
    Sound bare o { d with tables := d.tables ++ [some ⟨fun _ => none, false⟩] } := by
  have hget : ∀ j, Cells.get (d.tables ++ [some ⟨fun _ => none, false⟩]) j =
      if j = d.tables.length then some ⟨fun _ => none, false⟩ else d.table j :=
    fun j => Cells.get_concat _
  refine h.retable ?_ fun j t ht hex => ?_
  · have hslot : ∀ j e, ({ d with tables := d.tables ++ [some ⟨fun _ => none, false⟩] } :
        FileStore).slot j e = d.slot j e := fun j e => by
      rw [slot, table, hget, slot]
      rcases eq_or_ne j d.tables.length with rfl | hne
      · rw [if_pos rfl, show d.table d.tables.length = none from Cells.get_length]
        rfl
      · rw [if_neg hne]
    rw [refs, refs, Cells.held_congr fun x _ => hslot x.1 x.2]
    refine Cells.held_subset (fun x hx => ?_) fun x hx hnew => ?_
    · simp only [places, Finset.mem_product, Finset.mem_range, List.length_append] at hx ⊢
      exact ⟨hx.1.trans_le (Nat.le_add_right ..), hx.2⟩
    · simp only [places, Finset.mem_product, Finset.mem_range] at hx hnew
      rw [slot, table, Cells.get, List.getElem?_eq_none (by omega)]
      rfl
  · rw [hget] at ht
    split_ifs at ht
    · obtain rfl := Option.some.inj ht
      exact absurd hex Bool.false_ne_true
    · exact h.exited j t ht hex

/-- The consoles of a new task are put into its table. -/
lemma registered_eq (d : FileStore) (a b : ℕ) :
    { d with tables := d.tables ++
      [some ⟨Function.update (Function.update (fun _ => none) 0 (some a)) 1 (some b), false⟩] } =
    (({ d with tables := d.tables ++ [some ⟨fun _ => none, false⟩] } : FileStore).setSlot
      d.tables.length 0 (some a)).setSlot d.tables.length 1 (some b) := by
  have hnew : ({ d with tables := d.tables ++ [some ⟨fun _ => none, false⟩] } : FileStore).table
      d.tables.length = some ⟨fun _ => none, false⟩ :=
    (Cells.get_concat _).trans (if_pos rfl)
  rw [setSlot_eq ((table_setSlot hnew (some a) d.tables.length).trans (if_pos rfl)),
    setSlot_eq hnew]
  simp

/-- A task is registered with two files. -/
lemma Sound.registered {b : ℕ} (h : Sound bare (b ::ₘ a ::ₘ o) d) :
    Sound bare o { d with tables := d.tables ++
      [some
        ⟨Function.update (Function.update (fun _ => none) 0 (some a)) 1 (some b), false⟩] } := by
  have hnew : ({ d with tables := d.tables ++ [some ⟨fun _ => none, false⟩] } : FileStore).table
      d.tables.length = some ⟨fun _ => none, false⟩ :=
    (Cells.get_concat _).trans (if_pos rfl)
  have hadd := h.addTable
  rw [Multiset.cons_swap] at hadd
  rw [registered_eq]
  generalize ({ d with tables := d.tables ++ [some ⟨fun _ => none, false⟩] } : FileStore) = d₁,
    d.tables.length = i at hnew hadd ⊢
  have halive : d₁.Alive i := alive_iff.mpr ⟨_, hnew, rfl⟩
  have hfree : ∀ fd, d₁.slot i fd = none := fun fd => by rw [slot, hnew, Option.bind_some]
  refine (hadd.put halive (by decide) (hfree 0)).put ((alive_setSlot hnew _).mpr halive)
    (by decide) ?_
  rw [slot_setSlot hnew, if_neg (by simp)]
  exact hfree 1

lemma alive_registered {fds : ℕ → Option ℕ} :
    ({ d with tables := d.tables ++ [some ⟨fds, false⟩] } : FileStore).Alive d.tables.length :=
  alive_iff.mpr ⟨_, (Cells.get_concat _).trans (if_pos rfl), rfl⟩

/-- A console is freed without `file_close`. -/
lemma Sound.kfreeConsole {w : Bool} (h : Sound bare (a ::ₘ o) d)
    (hf : d.file a = some ⟨.console, w⟩) : Sound bare o (d.kfreeFile a) := by
  have hclose := h.fileClose
  rwa [FileStore.fileClose, hf] at hclose

lemma file_newFile (f : File) (b : ℕ) :
    (d.newFile f).2.file b = if b = d.files.length then some f else d.file b :=
  Cells.get_concat _

/-- What `task_register` does: it leaves nothing behind, or there is a new task. -/
lemma taskRegister_spec (h : Sound bare o d) (heap : ℕ → Bool) :
    (∃ d', d.taskRegister heap = (none, d') ∧ Sound bare o d') ∨
    (∃ d' id, d.taskRegister heap = (some id, d') ∧ Sound bare o d' ∧ d'.Alive id) := by
  rw [taskRegister]
  by_cases hlimit : maxTasksLimit ≤ d.tables.length
  · rw [if_pos hlimit]
    exact .inl ⟨d, rfl, h⟩
  rw [if_neg hlimit]
  cases heap 2 with
  | false => exact .inl ⟨d, rfl, h⟩
  | true =>
    have hin := h.newConsole false
    have hfile : ∀ w, (d.newFile ⟨.console, w⟩).2.file d.files.length = some ⟨.console, w⟩ :=
      fun w => by rw [file_newFile, if_pos rfl]
    cases heap 3 with
    | false =>
      cases heap 4 with
      | false => exact .inl ⟨d, rfl, h⟩
      | true =>
        exact .inl ⟨_, rfl, (h.newConsole true).kfreeConsole (hfile true)⟩
    | true =>
      cases heap 4 with
      | false => exact .inl ⟨_, rfl, hin.kfreeConsole (hfile false)⟩
      | true => exact .inr ⟨_, _, rfl, (hin.newConsole true).registered, alive_registered⟩

/-- A file of the store is duplicated, if one is to be inherited. -/
lemma dupFile_spec (h : Sound bare o d) {src : Option ℕ} (hsrc : ∀ a ∈ src, ∃ f, d.file a = some f)
    (room : Bool) :
    (∃ d', d.dupFile src room = (none, d') ∧ Sound bare o d') ∨
    (∃ d' dup, d.dupFile src room = (some dup, d') ∧ Sound bare (↑dup.toList + o) d' ∧
      ∀ a f, d.file a = some f → d'.file a = some f) := by
  cases src with
  | none => exact .inr ⟨d, none, rfl, by simpa using h, fun _ _ hf => hf⟩
  | some a =>
    cases room with
    | false => exact .inl ⟨d, rfl, h⟩
    | true =>
      obtain ⟨f, hf⟩ := hsrc a rfl
      refine .inr ?_
      rw [dupFile, fileDup, hf]
      obtain ⟨kind, w⟩ := f
      have hkept : ∀ (g : File) b f, d.file b = some f → (d.newFile g).2.file b = some f := by
        intro g b f hb
        have hne : b ≠ d.files.length := (Cells.lt_length_of_get hb).ne
        rw [file_newFile, if_neg hne, hb]
      cases kind with
      | console => exact ⟨_, _, rfl, h.newConsole w, hkept _⟩
      | pipe p =>
        obtain ⟨x, hx⟩ := h.pipe_of_file hf rfl
        refine ⟨_, _, rfl, h.newEnd hx w (Set.subset_insert p bare), fun b f hb => ?_⟩
        have hfiles : ((d.newFile ⟨.pipe p, w⟩).2.countEnd p w).files =
            (d.newFile ⟨.pipe p, w⟩).2.files := by
          rw [countEnd]
          cases (d.newFile ⟨.pipe p, w⟩).2.pipe p <;> rfl
        exact (congrArg (Cells.get · b) hfiles).trans (hkept ⟨.pipe p, w⟩ b f hb)

lemma Sound.undoDup {dup : Option ℕ} (h : Sound bare (↑dup.toList + o) d) :
    Sound bare o (d.undoDup dup) := by
  cases dup with
  | none => exact (zero_add o) ▸ h
  | some a => exact Sound.fileClose h

/-- A duplicate takes the place of a console in the table of a new task. -/
lemma Sound.swapIn {dup : Option ℕ} (h : Sound bare (↑dup.toList + o) d) (hi : d.Alive i)
    (hfd : fd < maxFds) : Sound bare o (d.swapIn i fd dup) ∧ (d.swapIn i fd dup).Alive i := by
  cases dup with
  | none => exact ⟨(zero_add o) ▸ h, hi⟩
  | some a =>
    have hclosed := h.closeFd hi hfd
    have halive : (d.closeFd i fd).Alive i := (alive_closeFd hi).mpr hi
    have hfree : (d.closeFd i fd).slot i fd = none := by
      rw [slot_closeFd hi, if_pos ⟨rfl, rfl⟩]
    obtain ⟨t, ht, -⟩ := alive_iff.mp halive
    exact ⟨Sound.put hclosed halive hfd hfree, (alive_setSlot ht _).mpr halive⟩

lemma Sound.startTask (h : Sound bare 0 d) {inSrc outSrc : Option ℕ}
    (hin : ∀ a ∈ inSrc, ∃ f, d.file a = some f) (hout : ∀ a ∈ outSrc, ∃ f, d.file a = some f)
    (heap : ℕ → Bool) : Sound bare 0 (d.startTask inSrc outSrc heap) := by
  rw [FileStore.startTask]
  obtain ⟨d₁, heq, h₁⟩ | ⟨d₁, inDup, heq, h₁, hkept⟩ := dupFile_spec h hin (heap 0)
  · rw [heq]
    exact h₁
  rw [heq]
  dsimp only
  have hout₁ : ∀ a ∈ outSrc, ∃ f, d₁.file a = some f := fun a ha =>
    (hout a ha).imp fun f hf => hkept a f hf
  obtain ⟨d₂, heq, h₂⟩ | ⟨d₂, outDup, heq, h₂, -⟩ := dupFile_spec h₁ hout₁ (heap 1)
  · rw [heq]
    exact h₂.undoDup
  rw [heq]
  dsimp only
  rw [add_left_comm] at h₂
  obtain ⟨d₃, heq, h₃⟩ | ⟨d₃, id, heq, h₃, halive⟩ := taskRegister_spec h₂ heap
  · rw [heq]
    exact h₃.undoDup.undoDup
  · rw [heq]
    obtain ⟨hfirst, halive⟩ := h₃.swapIn halive (by decide : 0 < maxFds)
    exact (hfirst.swapIn halive (by decide)).1

/-- The descriptor to inherit is one of the caller's. -/
lemma inheritedFile_spec (h : Sound bare o d) (i : ℕ) (e : ℤ) (w : Bool) :
    ∃ r, d.inheritedFile i e w = (r, d) ∧
      ∀ src, r = some src → ∀ a ∈ src, ∃ f, d.file a = some f := by
  rw [inheritedFile]
  by_cases hfresh : e = -1
  · rw [if_pos hfresh]
    refine ⟨_, rfl, fun src hsrc a ha => ?_⟩
    obtain rfl := Option.some.inj hsrc
    cases ha
  rw [if_neg hfresh]
  by_cases hrange : e < 0 ∨ maxFds ≤ e
  · rw [if_pos hrange]
    exact ⟨_, rfl, by simp⟩
  rw [if_neg hrange]
  cases hs : d.slot i e.toNat with
  | none => exact ⟨_, rfl, by simp⟩
  | some a =>
    obtain ⟨f, hf⟩ := h.file_of_slot (by omega) hs
    dsimp only
    rw [hf]
    dsimp only
    split_ifs
    · refine ⟨_, rfl, fun src hsrc b hb => ?_⟩
      obtain rfl := Option.some.inj hsrc
      obtain rfl := Option.some.inj hb
      exact ⟨f, hf⟩
    · exact ⟨_, rfl, by simp⟩

/-- `task_create_from_file`. -/
lemma Sound.taskCreateFromFile (h : Sound bare 0 d) (i : ℕ) (inFd outFd : ℤ)
    (allowed loaded : Bool) (heap : ℕ → Bool) :
    Sound bare 0 (d.taskCreateFromFile i inFd outFd allowed loaded heap) := by
  rw [FileStore.taskCreateFromFile]
  refine iteInduction (fun _ => h) fun _ => ?_
  obtain ⟨r, heq, hin⟩ := inheritedFile_spec h i inFd false
  rw [heq]
  cases r with
  | none => exact h
  | some inSrc =>
    obtain ⟨r, heq, hout⟩ := inheritedFile_spec h i outFd true
    dsimp only
    rw [heq]
    cases r with
    | none => exact h
    | some outSrc =>
      refine iteInduction (fun _ => h) fun _ => ?_
      exact h.startTask (hin inSrc rfl) (hout outSrc rfl) heap

/-- The loop of `task_exit`: the slots it has passed are empty. -/
lemma Sound.closeFds (h : Sound bare o d) (hi : d.Alive i) (n : ℕ) (hn : n ≤ maxFds) :
    Sound bare o ((List.range n).foldl (fun d fd => d.closeFd i fd) d) ∧
      ((List.range n).foldl (fun d fd => d.closeFd i fd) d).Alive i ∧
      ∀ fd < n, ((List.range n).foldl (fun d fd => d.closeFd i fd) d).slot i fd = none := by
  induction n with
  | zero => exact ⟨h, hi, fun fd hfd => absurd hfd (Nat.not_lt_zero fd)⟩
  | succ n ih =>
    obtain ⟨hsound, halive, hnone⟩ := ih (by omega)
    rw [List.range_succ, List.foldl_append, List.foldl_cons, List.foldl_nil]
    generalize (List.range n).foldl (fun d fd => d.closeFd i fd) d = d₁ at hsound halive hnone ⊢
    refine ⟨hsound.closeFd halive hn, (alive_closeFd halive).mpr halive, fun fd hfd => ?_⟩
    rw [slot_closeFd halive]
    split_ifs with hlast
    · rfl
    · exact hnone fd (by omega)

/-- A task whose slots are empty becomes a zombie. -/
lemma Sound.markExited (h : Sound bare o d) (hi : d.Alive i)
    (hnone : ∀ fd < maxFds, d.slot i fd = none) : Sound bare o (d.markExited i) := by
  obtain ⟨t, ht, -⟩ := alive_iff.mp hi
  rw [FileStore.markExited, ht]
  have hget : ∀ j, Cells.get (d.tables.set i (some { t with exited := true })) j =
      if j = i then some { t with exited := true } else d.table j := fun j => Cells.get_set ht _
  refine h.retable ?_ fun j t' ht' hex fd hfd => ?_
  · rw [refs, refs, places, List.length_set]
    refine Cells.held_congr fun x _ => ?_
    rw [slot, table, hget, slot]
    rcases eq_or_ne x.1 i with hx | hx
    · rw [if_pos hx, hx, ht]
      rfl
    · rw [if_neg hx]
  · rw [hget] at ht'
    split_ifs at ht'
    · obtain rfl := Option.some.inj ht'
      have hfree := hnone fd hfd
      rwa [slot, ht, Option.bind_some] at hfree
    · exact h.exited j t' ht' hex fd hfd

/-- `task_exit`. -/
lemma Sound.taskExit (h : Sound bare o d) (hi : d.Alive i) : Sound bare o (d.taskExit i) := by
  obtain ⟨hsound, halive, hnone⟩ := h.closeFds hi maxFds le_rfl
  exact Sound.markExited hsound halive hnone

/-- A task that has exited is freed. -/
lemma Sound.reap (h : Sound bare o d) (hi : d.Gone i) : Sound bare o (d.reap i) := by
  obtain ⟨t, ht, hex⟩ := Option.map_eq_some_iff.mp hi
  have hget : ∀ j, Cells.get (d.tables.set i none) j = if j = i then none else d.table j :=
    fun j => Cells.get_set ht _
  refine h.retable ?_ fun j t' ht' => ?_
  · rw [refs, refs, places, List.length_set]
    refine Cells.held_congr fun x hx => ?_
    rw [slot, table, hget, slot]
    rcases eq_or_ne x.1 i with hi | hi
    · rw [if_pos hi, hi, ht, Option.bind_some, Option.bind_none]
      exact (h.exited i t ht hex x.2 (Finset.mem_range.mp (Finset.mem_product.mp hx).2)).symm
    · rw [if_neg hi]
  · rw [hget] at ht'
    split_ifs at ht'
    exact h.exited j t' ht'

/-! ### Runs -/

/-- Every call keeps the store sound. -/
theorem Sound.step {op : Op} (h : Sound ∅ 0 d) (hstep : d.step op = some d') : Sound ∅ 0 d' := by
  cases op with
  | pipe i rangeOk heap =>
    obtain ⟨hi, rfl⟩ := guarded hstep
    exact h.sysPipe hi rangeOk heap
  | close i fd =>
    obtain ⟨hi, rfl⟩ := guarded hstep
    refine iteInduction (fun _ => h) fun hfd => ?_
    exact h.closeFd hi (Nat.not_le.mp fun hle => hfd (.inl hle))
  | run i inFd outFd allowed loaded heap =>
    obtain ⟨hi, rfl⟩ := guarded hstep
    exact h.taskCreateFromFile i inFd outFd allowed loaded heap
  | exit i =>
    obtain ⟨hi, rfl⟩ := guarded hstep
    exact h.taskExit hi
  | reap i =>
    obtain ⟨hi, rfl⟩ := guarded hstep
    exact h.reap hi

lemma sound_empty : Sound ∅ 0 empty := by
  refine ⟨rfl, fun a => rfl, fun p w => rfl, fun i t ht => ?_, fun p hp => ?_, ?_⟩
  · cases ht
  · cases hp
  · exact ⟨each_nil, by simp [empty], by simp [empty], by simp [empty]⟩

lemma sound_boot : Sound ∅ 0 boot := by
  obtain ⟨d', heq, h⟩ | ⟨d', id, heq, h, -⟩ := taskRegister_spec sound_empty fun _ => true
  · rw [boot, heq]
    exact h
  · rw [boot, heq]
    exact h

/-- The number of slots, over all tasks, with a given address in them. -/
def slotsOf (d : FileStore) (a : ℕ) : ℕ :=
  (d.places.filter fun x => d.slot x.1 x.2 = some a).card

/-- The number of slots, over all tasks, that hold an end of a pipe. -/
def slotsHolding (d : FileStore) (p : ℕ) (w : Bool) : ℕ :=
  (d.places.filter fun x => (d.slot x.1 x.2).bind d.file = some ⟨.pipe p, w⟩).card

lemma count_refs (d : FileStore) (a : ℕ) : d.refs.count a = d.slotsOf a := by
  have hcount : d.refs.countP (fun b => decide (a = b) = true) = _ :=
    Cells.countP_held (fun x : ℕ × ℕ => d.slot x.1 x.2) (fun b => decide (a = b)) d.places
  simp only [decide_eq_true_eq] at hcount
  rw [Multiset.count, hcount, slotsOf]
  congr 2
  funext x
  cases d.slot x.1 x.2 <;> simp [eq_comm]

lemma endsAmong_refs (d : FileStore) (p : ℕ) (w : Bool) :
    d.endsAmong d.refs p w = d.slotsHolding p w := by
  have hcount : d.refs.countP (fun b => decide (d.file b = some ⟨.pipe p, w⟩) = true) = _ :=
    Cells.countP_held (fun x : ℕ × ℕ => d.slot x.1 x.2)
      (fun b => decide (d.file b = some ⟨.pipe p, w⟩)) d.places
  simp only [decide_eq_true_eq] at hcount
  rw [endsAmong, Multiset.count, Cells.values, Multiset.countP_map, slotsHolding,
    ← Multiset.countP_eq_card_filter]
  refine Eq.trans ?_ (hcount.trans ?_)
  · refine Multiset.countP_congr rfl fun b _ => ?_
    exact propext eq_comm
  · congr 2
    funext x
    cases d.slot x.1 x.2 <;> simp

/-- **Pipes count their ends.** After any calls of any tasks, with any failures, no access was
to memory that is not in use; a pipe in use counts as many readers and writers as there are
slots that hold its ends, and has at least one; every `file_t` in use is in one slot, and
every slot refers to a `file_t` in use whose pipe is in use; and the log shows that nothing
happens to a pipe once it is freed, that it is freed once, right after the close that left no
ends of it (or by the `sys_pipe` that could not give it any), and that no such close is
without that. -/
theorem pipe_reference_counts {ops : List Op} (hrun : Runs.exec step boot ops = some d) :
    d.fault = false ∧
    (∀ p x, d.pipe p = some x → x.writers = d.slotsHolding p true ∧
      x.readers = d.slotsHolding p false ∧ x ≠ ⟨0, 0⟩) ∧
    (∀ a f, d.file a = some f → d.slotsOf a = 1) ∧
    (∀ i fd a, fd < maxFds → d.slot i fd = some a → ∃ f, d.file a = some f ∧
      ∀ p, f.kind = .pipe p → ∃ x, d.pipe p = some x) ∧
    Each Licit d.log ∧
    (∀ p, p < d.pipes.length → (.freed p ∈ d.log ↔ d.pipe p = none)) ∧
    (∀ p, .closed p ⟨0, 0⟩ ∈ d.log → .freed p ∈ d.log) := by
  have h : Sound ∅ 0 d :=
    exec_preserves (fun _ _ _ h hstep => Sound.step h hstep) hrun sound_boot
  have hcounts := h.counts
  have howned := h.owned
  rw [zero_add] at hcounts howned
  refine ⟨h.unfaulted, fun p x hx => ?_, fun a f hf => ?_, fun i fd a hfd hs => ?_,
    h.recorded.licit, fun p hp => ?_, fun p hp => ?_⟩
  · have hends : ∀ w, x.ends w = d.slotsHolding p w := fun w => by
      rw [← endsAmong_refs, ← hcounts, ends, hx]
      rfl
    refine ⟨hends true, hends false, fun hzero => ?_⟩
    exact h.used p (hzero ▸ hx)
  · rw [← count_refs, howned a, show Cells.get d.files a = some f from hf]
    rfl
  · obtain ⟨f, hf⟩ := h.file_of_slot hfd hs
    exact ⟨f, hf, fun p hp => h.pipe_of_file hf hp⟩
  · rw [h.recorded.freed p]
    exact and_iff_right hp
  · exact (h.recorded.emptied p hp).resolve_right (by simp)

/-- A pipe is made and both ends are given to a new task; then everything is closed. -/
def fileRun : List Op :=
  [.pipe 0 true fun _ => true, .run 0 2 3 true true fun _ => true, .close 0 2, .close 0 3, .exit 1,
    .reap 1]

/-- A pipe that is freed. -/
theorem pipe_reference_counts_fileRun :
    ∃ d, Runs.exec step boot fileRun = some d ∧ .freed 0 ∈ d.log ∧ d.fault = false ∧
      Each Licit d.log := by
  have hrun : Runs.exec step boot fileRun = some _ := rfl
  obtain ⟨hfault, -, -, -, hlog, -⟩ := pipe_reference_counts hrun
  exact ⟨_, hrun, by decide, hfault, hlog⟩

end FileStore

end TownOS
