import TownOS.Kernel.Deeds

/-!
How a system call ends.

Whether a call has to wait can be told from the state it is issued in (`mustWait`). If it
has to, it is put to sleep or cut short, with nothing done to its own task before. If not,
it returns a value after some deeds, or its task exits, or it goes back from a handler.

* `mustWait`: the awaited event has not happened yet;
* `Blocks`: why a call is put to sleep;
* `syscallBody_ends`: how each system call ends.
-/

namespace TownOS

namespace Kernel

open Relation Runs

variable {k : Kernel}

/-- The frame of a call gives the registers it was issued with. -/
lemma issued_enter (k : Kernel) (vector : Word) :
    (k.enter vector (k.pile.rip + intInstrLen)).pile.issued = k.pile.cpu := by
  rw [Regs.issued, enter, Regs.cpu, Regs.cpu]
  simp only [BitVec.add_sub_cancel]

/-! ### Having to wait -/

/-- `pipe_read` finds nothing to read, and someone who may still write. -/
def pipeReadWaits (k : Kernel) (p : ℕ) : Bool :=
  decide (pipeUsed (k.pipe p) = 0 ∧ 0 < (k.pipe p).writers)

/-- `pipe_write` finds no room, and someone who may still read. -/
def pipeWriteWaits (k : Kernel) (p : ℕ) : Bool :=
  decide ((k.pipe p).readers ≠ 0 ∧ pipeSpace (k.pipe p) = 0)

/-- `file_read` has to wait. -/
def fileReadWaits (k : Kernel) (f : File) (len : ℕ) : Bool :=
  match f.kind with
  | .console =>
    decide ((drain k.keyboard len).1 = [] ∧ (drain k.keyboard len).2.consoleEof = false)
  | .pipe p => pipeReadWaits k p

/-- `file_write` has to wait. -/
def fileWriteWaits (k : Kernel) (f : File) : Bool :=
  match f.kind with
  | .console => false
  | .pipe p => pipeWriteWaits k p

/-- `sys_write` passes its checks and has to wait. -/
def writeWaits (k : Kernel) : Bool :=
  match k.currentFile k.pile.rdi.toNat with
  | none => false
  | some f =>
    if !f.writable then false
    else if k.pile.rdx.toNat = 0 then false
    else if !userRangeOk k.pile.rsi (BitVec.ofNat 64 (min k.pile.rdx.toNat syscallIoMax)) then
      false
    else fileWriteWaits k f

/-- `sys_read` passes its checks and has to wait. -/
def readWaits (k : Kernel) : Bool :=
  match k.currentFile k.pile.rdi.toNat with
  | none => false
  | some f =>
    if f.writable then false
    else if k.pile.rdx.toNat = 0 then false
    else if !userRangeOk k.pile.rsi (BitVec.ofNat 64 (min k.pile.rdx.toNat syscallIoMax)) then
      false
    else fileReadWaits k f (min k.pile.rdx.toNat syscallIoMax)

/-- `sys_readkey` has to wait. -/
def readkeyWaits (k : Kernel) : Bool := decide ((keyboardGetchar k.keyboard).1 = 0)

/-- `task_wait` finds a child, but none that has exited. -/
def childWaits (k : Kernel) : Bool :=
  match (List.range k.tasks.length).find? k.isDeadChild with
  | some _ => false
  | none => (List.range k.tasks.length).any k.isChild

/-- `sys_wait` passes its check and has to wait. -/
def waitWaits (k : Kernel) : Bool :=
  if k.pile.rdi ≠ 0 ∧ !userRangeOk k.pile.rdi 8 then false else childWaits k

/-- The system call issued has to wait. -/
def mustWait (k : Kernel) : Bool :=
  match SysCall.ofWord k.pile.rax with
  | some .write => writeWaits k
  | some .read => readWaits k
  | some .readkey => readkeyWaits k
  | some .wait => waitWaits k
  | _ => false

/-- Why the running task is put to sleep, and what the call has left of the keyboard by
then. -/
inductive Blocks (k : Kernel) : WaitReason → Keyboard → Prop
  | readkey (hcall : SysCall.ofWord k.pile.rax = some .readkey)
      (hc : (keyboardGetchar k.keyboard).1 = 0) : Blocks k .key (keyboardGetchar k.keyboard).2
  | console (hcall : SysCall.ofWord k.pile.rax = some .read) (n : ℕ) (hn : 0 < n)
      (hd : (drain k.keyboard n).1 = []) (he : (drain k.keyboard n).2.consoleEof = false) :
      Blocks k .key (drain k.keyboard n).2
  | pipeRead (hcall : SysCall.ofWord k.pile.rax = some .read) (p : ℕ)
      (hf : k.currentFile k.pile.rdi.toNat = some ⟨.pipe p, false⟩)
      (hw : pipeReadWaits k p = true) : Blocks k .pipeRead k.keyboard
  | pipeWrite (hcall : SysCall.ofWord k.pile.rax = some .write) (p : ℕ)
      (hf : k.currentFile k.pile.rdi.toNat = some ⟨.pipe p, true⟩)
      (hw : pipeWriteWaits k p = true) : Blocks k .pipeWrite k.keyboard
  | child (hcall : SysCall.ofWord k.pile.rax = some .wait) (hw : childWaits k = true) :
      Blocks k .child k.keyboard

/-- Keys may have been taken before the task is put to sleep. -/
lemma Blocks.deeds {reason : WaitReason} {kb : Keyboard} (hb : Blocks k reason kb) :
    Deeds k { k with keyboard := kb } := by
  cases hb with
  | readkey hcall hc => exact (Deed.getKey 0 k (.inl hcall)).one
  | console hcall n hn hd he => exact deeds_drain n (.inr hcall)
  | pipeRead | pipeWrite | child => exact .refl

lemma Blocks.asides {reason : WaitReason} {kb : Keyboard} (hb : Blocks k reason kb) :
    Asides k { k with keyboard := kb } := by
  cases hb with
  | readkey hcall hc => exact (Aside.getKey k).one
  | console hcall n hn hd he => exact asides_drain n k
  | pipeRead | pipeWrite | child => exact .refl

/-! ### Transfers -/

/-- How `file_read` and `file_write` end, by whether they have to wait. -/
inductive TransferEnds (k : Kernel) {α : Type} : Bool → Transfer α × Kernel → Prop
  | ok {k₁ : Kernel} (a : α) (h : Deeds k k₁) : TransferEnds k false (.ok a, k₁)
  | failed {k₁ : Kernel} (h : Deeds k k₁) : TransferEnds k false (.err, k₁)
  | interrupted {reason : WaitReason} {kb : Keyboard} (hb : Blocks k reason kb)
      (hc : cutShort { k with keyboard := kb } = true) :
      TransferEnds k true (.err, interrupt { k with keyboard := kb })
  | blocked {reason : WaitReason} {kb : Keyboard} (hb : Blocks k reason kb)
      (hc : cutShort { k with keyboard := kb } = false) :
      TransferEnds k true (.blocked, schedule (park { k with keyboard := kb } reason))

/-- A transfer that has to wait. -/
lemma blockTransfer_ends {α : Type} {reason : WaitReason} {kb : Keyboard}
    (hb : Blocks k reason kb) :
    TransferEnds (α := α) k true (blockTransfer { k with keyboard := kb } reason) := by
  rw [blockTransfer, taskBlock]
  by_cases hc : cutShort { k with keyboard := kb }
  · rw [if_pos hc]
    exact .interrupted hb hc
  · rw [if_neg hc]
    exact .blocked hb (Bool.eq_false_iff.mpr hc)

/-- `pipe_read` waits exactly if there is nothing to read and a writer is left. -/
lemma pipeRead_ends (hcall : SysCall.ofWord k.pile.rax = some .read) {p : ℕ}
    (hf : k.currentFile k.pile.rdi.toNat = some ⟨.pipe p, false⟩) (len : ℕ) :
    TransferEnds k (pipeReadWaits k p) (pipeRead k p len) := by
  have hblocks := Blocks.pipeRead hcall p hf
  rw [pipeRead, pipeReadWaits] at *
  by_cases hu : 0 < pipeUsed (k.pipe p)
  · rw [if_pos hu, decide_eq_false fun h => hu.ne' h.1]
    exact .ok _ (Deed.took 0 k p _ hcall hf hu (min_le_left _ _)).one
  · rw [if_neg hu]
    by_cases hw : 0 < (k.pipe p).writers
    · have hwait := decide_eq_true (show pipeUsed (k.pipe p) = 0 ∧ 0 < (k.pipe p).writers from
        ⟨Nat.eq_zero_of_not_pos hu, hw⟩)
      rw [if_pos hw, hwait]
      exact blockTransfer_ends (hblocks hwait)
    · rw [if_neg hw, decide_eq_false fun h => hw h.2]
      exact .ok _ .refl

/-- `pipe_write` waits exactly if there is no room and a reader is left. -/
lemma pipeWrite_ends (hcall : SysCall.ofWord k.pile.rax = some .write) {p : ℕ}
    (hf : k.currentFile k.pile.rdi.toNat = some ⟨.pipe p, true⟩) (buf : List UInt8) :
    TransferEnds k (pipeWriteWaits k p) (pipeWrite k p buf) := by
  have hblocks := Blocks.pipeWrite hcall p hf
  rw [pipeWrite, pipeWriteWaits] at *
  by_cases hr : (k.pipe p).readers = 0
  · rw [if_pos hr, decide_eq_false fun h => h.1 hr]
    exact .failed (Deed.raise 0 k _ _).one
  · rw [if_neg hr]
    by_cases hs : pipeSpace (k.pipe p) = 0
    · have hwait := decide_eq_true (show (k.pipe p).readers ≠ 0 ∧ pipeSpace (k.pipe p) = 0 from
        ⟨hr, hs⟩)
      rw [if_pos hs, hwait]
      exact blockTransfer_ends (hblocks hwait)
    · rw [if_neg hs, decide_eq_false fun h => hs h.2]
      refine .ok _ (Deed.gave 0 k p _ hcall hf hr ?_).one
      rw [List.length_take]
      exact (min_le_left _ _).trans (min_le_left _ _)

/-- `file_read`, on the console or on a pipe. -/
lemma fileRead_ends (hcall : SysCall.ofWord k.pile.rax = some .read) {f : File}
    (hf : k.currentFile k.pile.rdi.toNat = some f) (hdir : f.writable = false) {len : ℕ}
    (hlen : 0 < len) : TransferEnds k (fileReadWaits k f len) (fileRead k f len) := by
  obtain ⟨kind, writable⟩ := f
  obtain rfl : writable = false := hdir
  rw [fileRead, fileReadWaits]
  cases kind with
  | console =>
    dsimp only
    have hdrain := deeds_drain len (.inr hcall)
    by_cases hb : (drain k.keyboard len).1 ≠ []
    · rw [if_pos hb, decide_eq_false fun h => hb h.1]
      exact .ok _ hdrain
    · rw [if_neg hb]
      by_cases he : (drain k.keyboard len).2.consoleEof = true
      · rw [if_pos he, decide_eq_false fun h => by simp [he] at h]
        exact .ok _ (hdrain.tail (Deed.eofTaken 0 _ (.inr hcall)))
      · have he : (drain k.keyboard len).2.consoleEof = false := Bool.eq_false_iff.mpr he
        rw [if_neg (by simp [he]), decide_eq_true ⟨not_not.mp hb, he⟩]
        exact blockTransfer_ends (.console hcall len hlen (not_not.mp hb) he)
  | pipe p => exact pipeRead_ends hcall hf len

/-- `file_write`, on the console or on a pipe. -/
lemma fileWrite_ends (hcall : SysCall.ofWord k.pile.rax = some .write) {f : File}
    (hf : k.currentFile k.pile.rdi.toNat = some f) (hdir : f.writable = true) (buf : List UInt8) :
    TransferEnds k (fileWriteWaits k f) (fileWrite k f buf) := by
  obtain ⟨kind, writable⟩ := f
  obtain rfl : writable = true := hdir
  rw [fileWrite, fileWriteWaits]
  cases kind with
  | console => exact .ok _ .refl
  | pipe p => exact pipeWrite_ends hcall hf buf

/-! ### Lengths -/

lemma toNat_ofNat_min (n : ℕ) : (BitVec.ofNat 64 (min n syscallIoMax)).toNat =
    min n syscallIoMax := by
  rw [BitVec.toNat_ofNat, Nat.mod_eq_of_lt]
  simp only [syscallIoMax]
  omega

/-- No more keys are taken than were asked for. -/
lemma length_drain_le (kb : Keyboard) (n : ℕ) : (drain kb n).1.length ≤ n := by
  induction n generalizing kb with
  | zero => exact le_rfl
  | succ n ih =>
    rw [drain]
    dsimp only
    split_ifs
    · exact Nat.zero_le _
    · exact Nat.succ_le_succ (ih _)

/-- `file_read` delivers no more than it was asked for. -/
lemma length_fileRead_le {f : File} {len : ℕ} {bytes : List UInt8} {k₁ : Kernel}
    (hr : fileRead k f len = (.ok bytes, k₁)) : bytes.length ≤ len := by
  have hblock : ∀ (k : Kernel) reason, blockTransfer k reason ≠ (.ok bytes, k₁) := by
    intro k reason heq
    rw [blockTransfer] at heq
    split at heq <;> cases heq
  rw [fileRead] at hr
  cases hkind : f.kind with
  | console =>
    simp only [hkind] at hr
    have hdrain := length_drain_le k.keyboard len
    split_ifs at hr
    · obtain ⟨hr, -⟩ := Prod.mk.inj hr
      obtain rfl := Transfer.ok.inj hr
      exact hdrain
    · obtain ⟨hr, -⟩ := Prod.mk.inj hr
      obtain rfl := Transfer.ok.inj hr
      exact Nat.zero_le _
    · exact absurd hr (hblock _ _)
  | pipe p =>
    simp only [hkind, pipeRead] at hr
    split_ifs at hr
    · obtain ⟨hr, -⟩ := Prod.mk.inj hr
      obtain rfl := Transfer.ok.inj hr
      rw [RingBuffer.length_take]
      exact min_le_right _ _
    · exact absurd hr (hblock _ _)
    · obtain ⟨hr, -⟩ := Prod.mk.inj hr
      obtain rfl := Transfer.ok.inj hr
      exact Nat.zero_le _

lemma length_taskInfo (t : Task) : (taskInfo t).length = 20 := by
  simp [taskInfo, wordBytes32]

/-- `sys_tasks` fills no more than the buffer. -/
lemma length_taskInfos_le (l : List Task) (n : ℕ) :
    ((l.take (n / 20)).flatMap taskInfo).length ≤ n := by
  have hlen : ∀ l : List Task, (l.flatMap taskInfo).length = l.length * 20 := by
    intro l
    rw [List.length_flatMap, List.map_congr_left fun t _ => length_taskInfo t, List.map_const',
      List.sum_replicate, smul_eq_mul]
  rw [hlen, List.length_take]
  have := min_le_left (n / 20) l.length
  omega

/-! ### What a call returns -/

/-- What a call of the running task has returned in RAX, unless the task is asleep. -/
def answer (k k' : Kernel) : Option Word :=
  if k'.current = k.current ∧ k'.idling = false then some k'.pile.rax else none

/-- A call has returned when its caller runs. -/
lemma answer_eq_some_iff {k' : Kernel} {v : Word} :
    answer k k' = some v ↔ k'.current = k.current ∧ k'.idling = false ∧ k'.pile.rax = v := by
  rw [answer, Option.ite_none_right_eq_some, Option.some_inj, and_assoc]

lemma answer_reply {k₁ : Kernel} (hcur : k₁.current = k.current) (hi : k₁.idling = false)
    (v : Word) :
    answer k (k₁.reply v) = some v :=
  if_pos ⟨hcur, hi⟩

/-- A task that falls asleep is not put back on the CPU. -/
lemma answer_park {t : Task} (hi : k.idling = false) (ht : k.currentTask = some t)
    (reason : WaitReason) : answer k (schedule (park k reason)) = none := by
  have hasleep : (park k reason).task k.current =
      some { t with state := .blocked, waitReason := reason } :=
    (task_modifyTask_self (k := k)).trans (congrArg _ ht)
  have hsched := schedule_scheduled (park k reason)
  generalize schedule (park k reason) = k' at hsched ⊢
  refine if_neg ?_
  rintro ⟨hcur, hidle⟩
  cases hsched with
  | idle hi' => exact absurd (hi.symm.trans hi') (by decide)
  | gone hs hn =>
    rw [currentTask, hs.spared.current, hs.spared.task] at hn
    exact absurd (hn.symm.trans hasleep) (by simp)
  | @switched k₁ next hs hr =>
    obtain ⟨t', ht', hready⟩ := exists_of_isReady hr
    rw [(dispatch_dispatched ht').current] at hcur
    have hsaved : k₁.task k.current = _ := hs.spared.task.trans hasleep
    rw [hcur, task_saveCurrent, if_pos (show k.current = k₁.current from hs.spared.current.symm),
      hsaved, Option.map_some] at ht'
    obtain rfl := Option.some.inj ht'
    cases hready
  | parked hs => cases hidle

/-! ### System calls that may wait -/

/-- How a system call ends, by whether it has to wait. -/
inductive Ends (k : Kernel) : Bool → Kernel → Prop
  /-- It returns a value. -/
  | served {k₁ : Kernel} (v : Word) (h : Deeds k k₁) : Ends k false (k₁.reply v)
  /-- It has to wait, but its task was woken to receive a signal. -/
  | interrupted {k₁ : Kernel} {reason : WaitReason} {kb : Keyboard} (h : Reads k k₁)
      (hb : Blocks k₁ reason kb) (hc : cutShort { k₁ with keyboard := kb } = true) :
      Ends k true ((interrupt { k₁ with keyboard := kb }).reply syscallError)
  /-- It has to wait. -/
  | parked {k₁ : Kernel} {reason : WaitReason} {kb : Keyboard} (h : Reads k k₁)
      (hb : Blocks k₁ reason kb) (hc : cutShort { k₁ with keyboard := kb } = false) :
      Ends k true (schedule (park { k₁ with keyboard := kb } reason))
  /-- Its task exits. -/
  | exited (hcall : SysCall.ofWord k.pile.rax = some .exit) :
      Ends k false (taskExit k k.pile.rdi.toNat)
  /-- It is the end of its task. -/
  | ended : Ends k false (endBySignal k sigSegv)
  /-- It goes back from a handler. -/
  | wentBack {t : Task} (ht : k.currentTask = some t) (hact : t.sigActive = true)
      (hok : userRangeOk t.sigCtx (BitVec.ofNat 64 sizeofRegs) = true)
      (hcall : SysCall.ofWord k.pile.rax = some .sigreturn) : Ends k false (goBack k t)
  /-- There is no running task. -/
  | gone (h : k.currentTask = none) : Ends k false k

lemma Ends.error {k₁ : Kernel} (h : Deeds k k₁) : Ends k false (k₁.reply syscallError) :=
  .served _ h

/-- A check that decides whether the call has to wait, too. -/
lemma Ends.ite {c : Prop} [Decidable c] {w w' : Bool} {k₁ k₂ : Kernel} (h : c → Ends k w k₁)
    (h' : ¬c → Ends k w' k₂) : Ends k (if c then w else w') (if c then k₁ else k₂) := by
  split_ifs with hc
  · exact h hc
  · exact h' hc

/-- A call that puts its caller to sleep. -/
lemma Ends.of_taskBlock {reason : WaitReason} {kb : Keyboard} (hb : Blocks k reason kb) :
    Ends k true (match taskBlock { k with keyboard := kb } reason with
      | (true, k) => k.reply syscallError
      | (false, k) => k) := by
  rw [taskBlock]
  by_cases hc : cutShort { k with keyboard := kb }
  · rw [if_pos hc]
    exact .interrupted (.refl k) hb hc
  · rw [if_neg hc]
    exact .parked (.refl k) hb (Bool.eq_false_iff.mpr hc)

lemma sysWrite_ends (hcall : SysCall.ofWord k.pile.rax = some .write) :
    Ends k (writeWaits k) (sysWrite k) := by
  rw [sysWrite, writeWaits]
  cases hfile : k.currentFile k.pile.rdi.toNat with
  | none => exact .error .refl
  | some f =>
    refine .ite (fun _ => .error .refl) fun hf => .ite (fun _ => .served _ .refl) fun _ =>
      .ite (fun _ => .error .refl) fun hok => ?_
    dsimp only
    have hlen64 : (BitVec.ofNat 64 (min k.pile.rdx.toNat syscallIoMax)).toNat =
        min k.pile.rdx.toNat syscallIoMax := toNat_ofNat_min _
    have hr : Reads k (k.load k.pile.rsi.toNat (min k.pile.rdx.toNat syscallIoMax)).2 :=
      .load (Span.inside_of_ok (by simpa using hok) hlen64.ge false)
    have hends := fileWrite_ends (k := (k.load k.pile.rsi.toNat
      (min k.pile.rdx.toNat syscallIoMax)).2) hcall hfile (by simpa using hf)
      (k.load k.pile.rsi.toNat (min k.pile.rdx.toNat syscallIoMax)).1
    -- reading user memory does not change what the pipe says
    change TransferEnds _ (fileWriteWaits k f) _ at hends
    generalize fileWrite _ f _ = w at hends ⊢
    generalize fileWriteWaits k f = b at hends ⊢
    cases hends with
    | ok n h => exact .served _ (hr.deeds.trans h)
    | failed h => exact .error (hr.deeds.trans h)
    | interrupted hb hc => exact .interrupted hr hb hc
    | blocked hb hc => exact .parked hr hb hc

lemma sysRead_ends (hcall : SysCall.ofWord k.pile.rax = some .read) :
    Ends k (readWaits k) (sysRead k) := by
  rw [sysRead, readWaits]
  cases hfile : k.currentFile k.pile.rdi.toNat with
  | none => exact .error .refl
  | some f =>
    refine .ite (fun _ => .error .refl) fun hf => .ite (fun _ => .served _ .refl) fun hlen =>
      .ite (fun _ => .error .refl) fun hok => ?_
    have hpos : 0 < min k.pile.rdx.toNat syscallIoMax :=
      lt_min (Nat.pos_of_ne_zero hlen) (by decide)
    have hends := fileRead_ends hcall hfile (Bool.eq_false_iff.mpr hf) hpos
    have hlength : ∀ bytes k₁, fileRead k f (min k.pile.rdx.toNat syscallIoMax) =
        (.ok bytes, k₁) → bytes.length ≤ min k.pile.rdx.toNat syscallIoMax :=
      fun _ _ => length_fileRead_le
    generalize fileRead k f _ = r at hends hlength ⊢
    generalize fileReadWaits k f _ = b at hends ⊢
    cases hends with
    | ok bytes h =>
      refine .served _ (h.trans ?_)
      split_ifs
      · refine (Deed.store 0 _ _ _ (Span.inside_of_ok (by simpa using hok) ?_ true)).one
        rw [toNat_ofNat_min]
        exact hlength bytes _ rfl
      · exact .refl
    | failed h => exact .error h
    | interrupted hb hc => exact .interrupted (.refl k) hb hc
    | blocked hb hc => exact .parked (.refl k) hb hc

lemma sysReadkey_ends (hcall : SysCall.ofWord k.pile.rax = some .readkey) :
    Ends k (readkeyWaits k) (sysReadkey k) := by
  rw [sysReadkey, readkeyWaits]
  dsimp only
  by_cases hc : (keyboardGetchar k.keyboard).1 = 0
  · rw [if_neg (not_not.mpr hc), decide_eq_true hc]
    exact .of_taskBlock (.readkey hcall hc)
  · rw [if_pos hc, decide_eq_false hc]
    exact .served _ (Deed.getKey 0 k (.inl hcall)).one

/-- `task_wait` collects a child, or waits for one, or finds none. -/
lemma taskWait_ends (hcall : SysCall.ofWord k.pile.rax = some .wait)
    (hok : k.pile.rdi ≠ 0 → userRangeOk k.pile.rdi 8 = true) :
    Ends k (childWaits k) (taskWait k) := by
  have hblocks := Blocks.child hcall
  rw [taskWait, childWaits] at *
  cases hfind : (List.range k.tasks.length).find? k.isDeadChild with
  | none =>
    rw [hfind] at hblocks
    dsimp only at hblocks ⊢
    by_cases hany : (List.range k.tasks.length).any k.isChild = true
    · rw [if_pos hany, hany]
      exact .of_taskBlock (hblocks hany)
    · rw [if_neg hany, Bool.eq_false_iff.mpr hany]
      exact .error .refl
  | some i =>
    have hdead : k.isDeadChild i = true := List.find?_some hfind
    obtain ⟨t, ht, hz⟩ := Option.any_eq_true _ _ |>.mp hdead
    obtain ⟨hp, hz⟩ := of_decide_eq_true hz
    dsimp only
    rw [ht]
    refine .served _ ((Deed.collect 0 k i hcall ht hz hp).one.trans ?_)
    have hpile : (collect k i t).pile = k.pile := (calm_collect ht hz).pile
    rw [hpile]
    split_ifs with hrdi
    · exact (Deed.store 0 _ _ _ (Span.inside_of_ok (hok hrdi) (length_wordBytes _).le true)).one
    · exact .refl

lemma sysWait_ends (hcall : SysCall.ofWord k.pile.rax = some .wait) :
    Ends k (waitWaits k) (sysWait k) := by
  rw [sysWait, waitWaits]
  refine .ite (fun _ => .error .refl) fun hok => taskWait_ends hcall fun hrdi => ?_
  by_contra hbad
  exact hok ⟨hrdi, by simpa using hbad⟩

/-- `signal_sigreturn` goes back, or ends the task. -/
lemma signalSigreturn_ends (hcall : SysCall.ofWord k.pile.rax = some .sigreturn) :
    Ends k false (signalSigreturn k) := by
  rw [signalSigreturn]
  cases ht : k.currentTask with
  | none => exact .gone ht
  | some t =>
    dsimp only
    by_cases hact : t.sigActive = true
    · rw [if_neg (by simp [hact])]
      split_ifs with hok
      · exact .ended
      · exact .wentBack ht hact (by simpa using hok) hcall
    · rw [if_pos (by simp [hact])]
      exact .ended

/-! ### Calls that return -/

/-- The calls that begin with a file name. -/
lemma copyUserString_ends {ptr : Word} {bad good : Kernel → Kernel}
    (hbad : ∀ k₁, Deeds k k₁ → Ends k false (bad k₁))
    (hgood : ∀ k₁, Deeds k k₁ → Ends k false (good k₁)) :
    Ends k false (match copyUserString k ptr with
      | (none, k) => bad k
      | (some _, k) => good k) := by
  have h := (reads_copyUserString k ptr).deeds
  cases hcopy : copyUserString k ptr with
  | mk s k₁ =>
    rw [hcopy] at h
    cases s with
    | none => exact hbad k₁ h
    | some s => exact hgood k₁ h

lemma sysPipe_ends (k : Kernel) (a : Answers) : Ends k false (sysPipe k a) := by
  rw [sysPipe]
  refine iteInduction (fun _ => .error .refl) fun hok => iteInduction (fun _ => .error .refl)
    fun _ => ?_
  have hnew := (Deed.newPipe 0 k).one
  have hpipe : ({ k with pipes := k.pipes ++ [some Pipe.create] } : Kernel).pipes[k.pipes.length]? =
      some (some Pipe.create) := List.getElem?_concat_length ..
  have hundo : Deeds k ({ k with pipes := k.pipes ++ [some Pipe.create] }.setPipe
      k.pipes.length none) := by
    refine hnew.tail (.dropPipe _ _ _ ?_ ?_) <;> rw [pipe, hpipe] <;> rfl
  dsimp only
  cases hrfd : allocFd { k with pipes := k.pipes ++ [some Pipe.create] } with
  | none => exact .error hundo
  | some rfd =>
    refine iteInduction (fun _ => .error hundo) fun _ => ?_
    have hread := hnew.trans (deeds_openEnd ⟨_, hpipe⟩ false hrfd)
    rw [sysPipeWriteEnd]
    split
    · exact .served _ (hread.trans (deeds_closeFd _ _))
    · rename_i wfd hwfd
      refine iteInduction (fun _ => .served _ (hread.trans (deeds_closeFd _ _))) fun _ => ?_
      have hwrite := deeds_openEnd (p := k.pipes.length)
        (by exact pipes_countEnd ⟨_, hpipe⟩ ⟨.pipe k.pipes.length, false⟩) true hwfd
      refine .served _ ((hread.trans hwrite).tail (.store 0 _ _ _ ?_))
      have hrange : userRangeOk k.pile.rdi 8 = true := by simpa using hok
      exact Span.inside_of_ok hrange (by simp [wordBytes32]) true

lemma sysClose_ends (k : Kernel) : Ends k false (sysClose k) := by
  rw [sysClose]
  cases k.currentFile k.pile.rdi.toNat with
  | none => exact .error .refl
  | some f => exact .served _ (deeds_closeFd k _)

lemma sysList_ends (k : Kernel) (a : Answers) : Ends k false (sysList k a) := by
  rw [sysList]
  refine iteInduction (fun _ => .error .refl) fun hok => .served _ (Deed.store 0 k _ _ ?_).one
  exact Span.inside_of_ok (by simpa using hok) (List.length_take_le _ _) true

lemma sysReadfile_ends (k : Kernel) (a : Answers) : Ends k false (sysReadfile k a) := by
  refine copyUserString_ends (fun _ h => .error h) fun _ h =>
    iteInduction (fun _ => .error h) fun hok => .served _ (h.tail (.store 0 _ _ _ ?_))
  exact Span.inside_of_ok (by simpa using hok) (List.length_take_le _ _) true

lemma sysWritefile_ends (k : Kernel) (a : Answers) : Ends k false (sysWritefile k a) := by
  refine copyUserString_ends (fun _ h => .error h) fun _ h =>
    iteInduction (fun _ => .error h) fun hok => .served _ (h.tail (.read 0 _ _ _ ?_))
  exact Span.inside_of_ok (by simpa using hok) le_rfl false

lemma sysDelete_ends (k : Kernel) (a : Answers) : Ends k false (sysDelete k a) :=
  copyUserString_ends (fun _ h => .error h) fun _ h => .served _ h

lemma sysStat_ends (k : Kernel) (a : Answers) : Ends k false (sysStat k a) := by
  refine copyUserString_ends (fun _ h => .error h) fun _ h =>
    iteInduction (fun _ => .error h) fun hok => iteInduction (fun _ => .error h) fun _ =>
      .served _ (h.tail (.store 0 _ _ _ ?_))
  exact Span.inside_of_ok (by simpa using hok) (length_wordBytes _).le true

/-- `sys_run` never waits: what it cannot do, it refuses. -/
lemma sysRun_ends (hcall : SysCall.ofWord k.pile.rax = some .run) (a : Answers) :
    Ends k false (sysRun k a) := by
  refine copyUserString_ends (fun _ h => .error h) fun k₁ h => ?_
  have hcreate := h.trans (deeds_taskCreateFromFile (by rwa [(Effects.frame h.effects).1]) a
    (asInt k₁.pile.rsi) (asInt k₁.pile.rdx) (asUint32 k₁.pile.rcx))
  split
  · rename_i k₂ hk₂
    rw [hk₂] at hcreate
    exact .served _ hcreate
  · rename_i id k₂ hk₂
    rw [hk₂] at hcreate
    exact .served _ hcreate

lemma sysSetfg_ends (hcall : SysCall.ofWord k.pile.rax = some .setfg) :
    Ends k false (sysSetfg k) := by
  rw [sysSetfg]
  exact iteInduction (fun _ => .served _ (Deed.foreground 0 k _ hcall).one) fun _ => .error .refl

lemma sysSignal_ends (k : Kernel) : Ends k false (sysSignal k) := by
  rw [sysSignal]
  cases h : signalInstallHandler k (asInt k.pile.rdi) k.pile.rsi k.pile.rdx with
  | none => exact .error .refl
  | some k₁ =>
    rw [signalInstallHandler] at h
    split_ifs at h
    obtain rfl := Option.some.inj h
    exact .served _ (Deed.install 0 k _ _ _).one

lemma sysKill_ends (k : Kernel) : Ends k false (sysKill k) := by
  rw [sysKill]
  cases k.task (asUint32 k.pile.rdi) with
  | none => exact .error .refl
  | some t =>
    exact iteInduction (fun _ => .error .refl) fun _ => iteInduction (fun _ => .error .refl)
      fun _ => .served _ (Deed.raise 0 k _ _).one

lemma sysTasks_ends (k : Kernel) : Ends k false (sysTasks k) := by
  rw [sysTasks]
  refine iteInduction (fun _ => .error .refl) fun hok => .served _ (Deed.store 0 k _ _ ?_).one
  exact Span.inside_of_ok (by simpa using hok) (length_taskInfos_le _ _) true

lemma sysMmap_ends (hcall : SysCall.ofWord k.pile.rax = some .mmap) (a : Answers) :
    Ends k false (sysMmap k a) := by
  rw [sysMmap]
  refine iteInduction (fun _ => .error .refl) fun hasked => ?_
  cases ht : k.currentTask with
  | none => exact .gone ht
  | some t =>
    dsimp only
    split
    · exact .error .refl
    · rename_i slot hslot
      refine iteInduction (fun _ => .error .refl) fun hfits => iteInduction (fun _ => .error .refl)
        fun htotal => iteInduction (fun _ => .error .refl) fun _ => ?_
      have hmaps : Maps k t slot ⟨(scanRegions t.regions).1, roundUpToPage k.pile.rdi⟩ :=
        ⟨hcall, ht, hslot, hasked, rfl, rfl, hfits, htotal⟩
      exact .served _ (Deed.map 0 k slot _ hmaps).one

lemma sysMunmap_ends (k : Kernel) : Ends k false (sysMunmap k) := by
  rw [sysMunmap]
  refine iteInduction (fun _ => .error .refl) fun _ => ?_
  cases ht : k.currentTask with
  | none => exact .gone ht
  | some t =>
    dsimp only
    split
    · exact .error .refl
    · exact .served _ (Deed.unmap 0 k _).one

/-- **System calls.** Every system call ends in one of the ways of `Ends`. -/
theorem syscallBody_ends (k : Kernel) (a : Answers) : Ends k (mustWait k) (syscallBody k a) := by
  rw [syscallBody, mustWait]
  cases hcall : SysCall.ofWord k.pile.rax with
  | none => exact .error .refl
  | some c =>
    cases c with
    | exit => exact .exited hcall
    | write => exact sysWrite_ends hcall
    | readkey => exact sysReadkey_ends hcall
    | list => exact sysList_ends k a
    | run => exact sysRun_ends hcall a
    | readfile => exact sysReadfile_ends k a
    | wait => exact sysWait_ends hcall
    | writefile => exact sysWritefile_ends k a
    | delete => exact sysDelete_ends k a
    | freecount => exact .served _ .refl
    | stat => exact sysStat_ends k a
    | read => exact sysRead_ends hcall
    | close => exact sysClose_ends k
    | pipe => exact sysPipe_ends k a
    | signal => exact sysSignal_ends k
    | kill => exact sysKill_ends k
    | sigreturn => exact signalSigreturn_ends hcall
    | setfg => exact sysSetfg_ends hcall
    | tasks => exact sysTasks_ends k
    | mmap => exact sysMmap_ends hcall a
    | munmap => exact sysMunmap_ends k

end Kernel

end TownOS
