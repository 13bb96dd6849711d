import TownOS.Kernel.Effects

/-!
What a system call does, with all the data.

An `Effect` says what a piece of a system call may do to the rotation and to the open
files. A `Deed` says more: which user addresses the kernel reads and writes, that they
have passed `user_range_ok`, which bytes go into a pipe and for which call, which handler
is installed and which region is mapped. Every deed is a sequence of effects.

* `Deed`, `Deeds.effects`: the deeds, and what they are as effects;
* `deeds_closeAll`, `deeds_taskCreateFromFile`: the longer pieces of system calls.
-/

namespace TownOS

/-- `user_range_ok` compares both ends of a range: nothing wraps around. -/
lemma userRangeOk_iff (ptr len : Word) :
    userRangeOk ptr len = true ↔
      userRegionStart ≤ ptr.toNat ∧ ptr.toNat + len.toNat ≤ userSpaceEnd ∧
        ptr.toNat < userSpaceEnd := by
  rw [userRangeOk]
  split_ifs with h
  · simp only [false_iff]
    omega
  · simp only [decide_eq_true_eq]
    omega

/-- The addresses are in the region `user_range_ok` lets through. -/
def Span.Inside (s : Span) : Prop := userRegionStart ≤ s.addr ∧ s.addr + s.len ≤ userSpaceEnd

/-- What is not longer than a checked range is in the region. -/
lemma Span.inside_of_ok {ptr len : Word} (hok : userRangeOk ptr len = true) {n : ℕ}
    (hn : n ≤ len.toNat) (write : Bool) : Span.Inside ⟨write, ptr.toNat, n⟩ := by
  obtain ⟨hlow, hhigh, -⟩ := (userRangeOk_iff ptr len).mp hok
  exact ⟨hlow, by simp only; omega⟩

lemma length_wordBytes (w : Word) : (wordBytes w).length = 8 := by
  rw [wordBytes, List.length_map, List.length_range]

namespace Kernel

open Relation Runs

/-- The length the slot of the heap has in ring 3. -/
def heapSlotBytes : Word := userHeapLimit - userHeapBase

/-- `sys_mmap` finds a free entry of the table of regions and room for a region. -/
structure Maps (k : Kernel) (t : Task) (slot : ℕ) (r : Region) : Prop where
  call : SysCall.ofWord k.pile.rax = some .mmap
  current : k.currentTask = some t
  free : ((List.range maxRegions).find? fun i => (t.regions i).length = 0) = some slot
  asked : ¬ (k.pile.rdi = 0 ∨ heapSlotBytes < k.pile.rdi)
  length : r.length = roundUpToPage k.pile.rdi
  base : r.base = (scanRegions t.regions).1
  fits : ¬ userHeapLimit - r.base < r.length
  total : ¬ heapSlotBytes < (scanRegions t.regions).2 + r.length

/-- A region is entered into the table, and its pages are zero. -/
def mapRegion (slot : ℕ) (r : Region) (t : Task) : Task :=
  { t with
    regions := Function.update t.regions slot r
    mem := fun i => if r.base.toNat ≤ i ∧ i < r.base.toNat + r.length.toNat then 0 else t.mem i }

/-- A region is taken out of the table. -/
def unmapRegion (slot : ℕ) (t : Task) : Task :=
  { t with regions := Function.update t.regions slot ⟨0, 0⟩ }

/-- A handler is entered into the table of the task. -/
def installHandler (sig : ℕ) (handler trampoline : Word) (t : Task) : Task :=
  { t with
    sigHandlers := Function.update t.sigHandlers sig handler
    sigTrampoline := trampoline }

/-- A call that reads keys. -/
def ReadsKeys (k : Kernel) : Prop :=
  SysCall.ofWord k.pile.rax = some .readkey ∨ SysCall.ofWord k.pile.rax = some .read

/-- What a system call does short of a switch, with the open files that are in no table. -/
inductive Deed : Multiset File × Kernel → Multiset File × Kernel → Prop
  | raise (h : Multiset File) (k : Kernel) (id : ℕ) (sig : ℤ) :
      Deed (h, k) (h, signalRaise k id sig)
  /-- A character is taken from the keyboard, if there is one. -/
  | getKey (h : Multiset File) (k : Kernel) (hcall : ReadsKeys k) :
      Deed (h, k) (h, { k with keyboard := (keyboardGetchar k.keyboard).2 })
  /-- The end of the input is reported. -/
  | eofTaken (h : Multiset File) (k : Kernel) (hcall : ReadsKeys k) :
      Deed (h, k) (h, { k with keyboard := { k.keyboard with consoleEof := false } })
  /-- `SYS_READ` takes bytes from a pipe, and the writers are woken. -/
  | took (h : Multiset File) (k : Kernel) (p n : ℕ)
      (hcall : SysCall.ofWord k.pile.rax = some .read)
      (hf : k.currentFile k.pile.rdi.toNat = some ⟨.pipe p, false⟩)
      (hpos : 0 < pipeUsed (k.pipe p)) (hn : n ≤ pipeUsed (k.pipe p)) :
      Deed (h, k) (h, schedulerWake (k.setPipe p
        (some { k.pipe p with ring := ((k.pipe p).ring.take pipeSize n).2 })) .pipeWrite)
  /-- `SYS_WRITE` puts bytes into a pipe, and the readers are woken. -/
  | gave (h : Multiset File) (k : Kernel) (p : ℕ) (l : List UInt8)
      (hcall : SysCall.ofWord k.pile.rax = some .write)
      (hf : k.currentFile k.pile.rdi.toNat = some ⟨.pipe p, true⟩)
      (hr : (k.pipe p).readers ≠ 0) (hl : l.length ≤ pipeSpace (k.pipe p)) :
      Deed (h, k) (h, schedulerWake (k.setPipe p
        (some { k.pipe p with ring := (k.pipe p).ring.fill pipeSize l })) .pipeRead)
  | newPipe (h : Multiset File) (k : Kernel) :
      Deed (h, k) (h, { k with pipes := k.pipes ++ [some Pipe.create] })
  /-- A pipe without ends is freed. -/
  | dropPipe (h : Multiset File) (k : Kernel) (p : ℕ) (hr : (k.pipe p).readers = 0)
      (hw : (k.pipe p).writers = 0) : Deed (h, k) (h, k.setPipe p none)
  /-- `SYS_WAIT` takes a child that has exited apart. -/
  | collect (h : Multiset File) (k : Kernel) (i : ℕ) {t : Task}
      (hcall : SysCall.ofWord k.pile.rax = some .wait) (ht : k.task i = some t)
      (hz : t.state = .zombie) (hp : t.parentId = some k.current) :
      Deed (h, k) (h, collect k i t)
  | foreground (h : Multiset File) (k : Kernel) (pgid : ℕ)
      (hcall : SysCall.ofWord k.pile.rax = some .setfg) :
      Deed (h, k) (h, { k with foregroundPgid := pgid })
  /-- The kernel reads user memory. -/
  | read (h : Multiset File) (k : Kernel) (addr len : ℕ) (hin : Span.Inside ⟨false, addr, len⟩) :
      Deed (h, k) (h, (k.load addr len).2)
  /-- It writes to user memory. -/
  | store (h : Multiset File) (k : Kernel) (addr : ℕ) (bytes : List UInt8)
      (hin : Span.Inside ⟨true, addr, bytes.length⟩) : Deed (h, k) (h, k.store addr bytes)
  | install (h : Multiset File) (k : Kernel) (sig : ℕ) (handler trampoline : Word) :
      Deed (h, k) (h, k.modifyCurrent (installHandler sig handler trampoline))
  | map (h : Multiset File) (k : Kernel) {t : Task} (slot : ℕ) (r : Region) (hm : Maps k t slot r) :
      Deed (h, k) (h, k.modifyCurrent (mapRegion slot r))
  | unmap (h : Multiset File) (k : Kernel) (slot : ℕ) :
      Deed (h, k) (h, k.modifyCurrent (unmapRegion slot))
  /-- A file of the running task is duplicated. -/
  | dup (h : Multiset File) (k : Kernel) (fd : ℕ) (f : File) (hf : k.currentFile fd = some f) :
      Deed (h, k) (f ::ₘ h, countEnd k f)
  /-- An end of a pipe is opened. -/
  | openEnd (h : Multiset File) (k : Kernel) (p : ℕ) (writable : Bool)
      (hp : ∃ x, k.pipes[p]? = some (some x)) :
      Deed (h, k) (⟨.pipe p, writable⟩ ::ₘ h, countEnd k ⟨.pipe p, writable⟩)
  /-- A file is put into the table of the running task. -/
  | put (h : Multiset File) (k : Kernel) (fd : ℕ) (f : File) (hfd : fd < maxFds)
      (hfree : k.currentFile fd = none) : Deed (f ::ₘ h, k) (h, k.setFd fd (some f))
  /-- A file is taken out of it. -/
  | take (h : Multiset File) (k : Kernel) (fd : ℕ) (f : File) (hf : k.currentFile fd = some f) :
      Deed (h, k) (f ::ₘ h, k.setFd fd none)
  | close (h : Multiset File) (k : Kernel) (f : File) : Deed (f ::ₘ h, k) (h, fileClose k f)
  /-- A task is started, with the files it inherits. -/
  | spawn (h : Multiset File) (k : Kernel) (image : Image) (pgid : ℕ) (inSrc outSrc : Option File)
      (hcall : SysCall.ofWord k.pile.rax = some .run) :
      Deed (inherited inSrc outSrc + h, k)
        (h, (k.addTask (freshTask image k.tasks.length (some k.current) pgid
          (childFds inSrc outSrc))).live (.registered k.tasks.length (some k.current)))

/-- A sequence of deeds, with the files that are in no table before and after. -/
abbrev HeldDeeds : Multiset File × Kernel → Multiset File × Kernel → Prop := ReflTransGen Deed

/-- A sequence of deeds that leaves no file outside the tables. -/
abbrev Deeds (k k' : Kernel) : Prop := HeldDeeds (0, k) (0, k')

variable {k k' : Kernel} {h h' : Multiset File}

lemma Deed.one {s s' : Multiset File × Kernel} (hd : Deed s s') : HeldDeeds s s' :=
  ReflTransGen.single hd

/-- Every deed is a sequence of effects. -/
lemma Deed.effects {s s' : Multiset File × Kernel} (hd : Deed s s') : HeldEffects s s' := by
  have haside : ∀ {k k' : Kernel} (h : Multiset File), Aside k k' → HeldEffects (h, k) (h, k') :=
    fun h ha => (Effect.aside h ha).one
  have hown : ∀ (h : Multiset File) (k : Kernel) (f : Task → Task), (∀ t, Own t (f t)) →
      (∀ t, (f t).fds = t.fds) → HeldEffects (h, k) (h, k.modifyCurrent f) :=
    fun h k f hf hfds => (Effect.own h k f hf hfds).one
  cases hd with
  | raise h k id sig => exact haside h (.press (.raise k id sig))
  | getKey h k hcall => exact haside h (.getKey k)
  | eofTaken h k hcall => exact haside h (.eofTaken k)
  | took h k p n hcall hf hpos hn => exact haside h (.took k p n hpos hn)
  | gave h k p l hcall hf hr hl => exact haside h (.gave k p l hr hl)
  | newPipe h k => exact haside h (.newPipe k)
  | dropPipe h k p hr hw => exact haside h (.dropPipe k p hr hw)
  | collect h k i hcall ht hz hp => exact haside h (.collect k i ht hz hp)
  | foreground h k pgid hcall => exact haside h (.foreground k pgid)
  | read h k addr len hin => exact haside h (.touch k false addr len)
  | store h k addr bytes hin => exact held_store h k addr bytes
  | install h k | map h k | unmap h k =>
    exact hown h k _ (fun _ => by constructor <;> rfl) (by intro _; rfl)
  | dup h k fd f hf => exact (Effect.dup h k fd f hf).one
  | openEnd h k p writable hp => exact (Effect.openEnd h k p writable hp).one
  | put h k fd f hfd hfree => exact (Effect.put h k fd f hfd hfree).one
  | take h k fd f hf => exact (Effect.take h k fd f hf).one
  | close h k f => exact (Effect.close h k f).one
  | spawn h k image pgid inSrc outSrc hcall => exact (Effect.spawn h k image pgid inSrc outSrc).one

/-- Deeds are effects. -/
lemma HeldDeeds.effects {s s' : Multiset File × Kernel} (hd : HeldDeeds s s') :
    HeldEffects s s' := by
  induction hd with
  | refl => exact .refl
  | tail _ hd ih => exact ih.trans hd.effects

lemma Deeds.effects (hd : Deeds k k') : Effects k k' := HeldDeeds.effects hd

lemma Deeds.idling (hd : Deeds k k') : k'.idling = k.idling := (Effects.frame hd.effects).2.1

/-- What every deed preserves, a sequence of deeds preserves. -/
lemma HeldDeeds.invariant {P : Kernel → Prop} {s s' : Multiset File × Kernel}
    (hd : HeldDeeds s s') (hstep : ∀ s s', Deed s s' → P s.2 → P s'.2) (hs : P s.2) : P s'.2 := by
  induction hd with
  | refl => exact hs
  | tail _ hd ih => exact hstep _ _ hd ih

lemma deeds_drain (n : ℕ) (hcall : ReadsKeys k) :
    Deeds k { k with keyboard := (drain k.keyboard n).2 } :=
  (drain_rel (R := fun k k' => ReadsKeys k → Deeds k k' ∧ ReadsKeys k') (fun _ h => ⟨.refl, h⟩)
    (fun _ _ _ h h' hk => ⟨(h hk).1.trans (h' (h hk).2).1, (h' (h hk).2).2⟩)
    (fun k hk => ⟨(Deed.getKey 0 k hk).one, hk⟩) n k hcall).1

/-! ### User strings -/

/-- Nothing has happened but that the kernel has read user memory. -/
def Reads (k k' : Kernel) : Prop :=
  ∃ spans : List Span, (∀ s ∈ spans, s.write = false ∧ s.Inside) ∧
    k' = { k with touched := k.touched ++ spans }

lemma Reads.refl (k : Kernel) : Reads k k := ⟨[], nofun, by rw [List.append_nil]⟩

lemma Reads.load {addr len : ℕ} (hin : Span.Inside ⟨false, addr, len⟩) :
    Reads k (k.load addr len).2 := by
  refine ⟨[⟨false, addr, len⟩], fun s hs => ?_, rfl⟩
  obtain rfl := List.mem_singleton.mp hs
  exact ⟨rfl, hin⟩

lemma Reads.trans {k₁ : Kernel} (h : Reads k k₁) (h' : Reads k₁ k') : Reads k k' := by
  obtain ⟨spans, hspans, rfl⟩ := h
  obtain ⟨spans', hspans', rfl⟩ := h'
  refine ⟨spans ++ spans', fun s hs => ?_, by rw [List.append_assoc]⟩
  rcases List.mem_append.mp hs with hs | hs
  · exact hspans s hs
  · exact hspans' s hs

/-- What reading user memory keeps. -/
lemma Reads.induct {P : Kernel → Prop} (hr : Reads k k') (hk : P k)
    (hstep : ∀ (k₁ : Kernel) (s : Span), P k₁ → Span.Inside ⟨false, s.addr, s.len⟩ →
      P (k₁.load s.addr s.len).2) : P k' := by
  obtain ⟨spans, hspans, rfl⟩ := hr
  induction spans using List.reverseRecOn with
  | nil =>
    rw [List.append_nil]
    exact hk
  | append_singleton spans s ih =>
    obtain ⟨hread, hin⟩ := hspans s (by simp)
    have h := hstep _ s (ih fun s' hs' => hspans s' (by simp [hs'])) hin
    rw [← List.append_assoc, show s = ⟨false, s.addr, s.len⟩ by rw [← hread]]
    exact h

lemma Reads.deeds (hr : Reads k k') : Deeds k k' :=
  hr.induct .refl fun _ _ h hin => h.tail (.read 0 _ _ _ hin)

lemma Reads.asides (hr : Reads k k') : Asides k k' :=
  hr.induct .refl fun _ _ h _ => h.tail (.touch _ _ _ _)

/-- `copy_user_string` reads no further than the end of user space. -/
lemma reads_copyString (n addr : ℕ) (k : Kernel) (hlow : userRegionStart ≤ addr) :
    Reads k (copyString n addr k).2 := by
  induction n generalizing addr k with
  | zero => exact .refl k
  | succ n ih =>
    rw [copyString]
    split_ifs with hend
    · exact .refl k
    have hload : Reads k (k.load addr 1).2 := .load ⟨hlow, Nat.lt_of_not_le hend⟩
    dsimp only
    split_ifs
    · exact hload
    · exact hload.trans (ih (addr + 1) _ (hlow.trans (Nat.le_succ _)))

lemma reads_copyUserString (k : Kernel) (ptr : Word) : Reads k (copyUserString k ptr).2 := by
  rw [copyUserString]
  split_ifs with hout
  · exact .refl k
  · exact reads_copyString _ _ k (by omega)

/-! ### Closing descriptors -/

lemma deeds_closeFd (k : Kernel) (fd : ℕ) : Deeds k (closeFd k fd) := by
  rw [closeFd]
  cases hf : k.currentFile fd with
  | none => exact .refl
  | some f => exact (Deed.take 0 k fd f hf).one.tail (.close 0 _ f)

/-- The descriptors are closed one by one. -/
lemma deeds_closeAll (k : Kernel) : Deeds k (closeAll k) := by
  rw [closeAll]
  generalize List.range maxFds = fds
  induction fds generalizing k with
  | nil => exact .refl
  | cons fd fds ih => exact (deeds_closeFd k fd).trans (ih (closeFd k fd))

lemma effects_closeAll (k : Kernel) : Effects k (closeAll k) := (deeds_closeAll k).effects

/-! ### Opening descriptors -/

lemma currentFile_countEnd (k : Kernel) (f : File) (fd : ℕ) :
    (countEnd k f).currentFile fd = k.currentFile fd := by
  rw [countEnd]
  cases f.kind <;> rfl

lemma tasks_countEnd (k : Kernel) (f : File) :
    (countEnd k f).tasks = k.tasks ∧ (countEnd k f).current = k.current := by
  rw [countEnd]
  cases f.kind <;> exact ⟨rfl, rfl⟩

/-- Counting an end leaves the pipes that are there. -/
lemma pipes_countEnd {p : ℕ} (hp : ∃ x, k.pipes[p]? = some (some x)) (f : File) :
    ∃ x, (countEnd k f).pipes[p]? = some (some x) := by
  obtain ⟨x, hx⟩ := hp
  rw [countEnd]
  cases f.kind with
  | console => exact ⟨x, hx⟩
  | pipe q =>
    dsimp only [setPipe]
    rw [List.getElem?_set]
    by_cases hq : q = p
    · have hlt : q < k.pipes.length := by
        rw [hq]
        exact (List.getElem?_eq_some_iff.mp hx).1
      rw [if_pos hq, if_pos hlt]
      exact ⟨_, rfl⟩
    · rw [if_neg hq]
      exact ⟨x, hx⟩

lemma free_of_allocFd {fd : ℕ} (ha : k.allocFd = some fd) :
    fd < maxFds ∧ k.currentFile fd = none :=
  ⟨List.mem_range.mp (List.mem_of_find?_eq_some ha), by simpa using List.find?_some ha⟩

/-- An end of a pipe is opened and put into a free slot of the running task. -/
lemma deeds_openEnd {p fd : ℕ} (hp : ∃ x, k.pipes[p]? = some (some x)) (writable : Bool)
    (ha : k.allocFd = some fd) :
    Deeds k ((countEnd k ⟨.pipe p, writable⟩).setFd fd (some ⟨.pipe p, writable⟩)) := by
  obtain ⟨hfd, hfree⟩ := free_of_allocFd ha
  refine (Deed.openEnd 0 k p writable hp).one.tail (.put 0 _ fd _ hfd ?_)
  rw [currentFile_countEnd, hfree]

/-! ### Starting a task -/

/-- A file to inherit, if there is one, is a file of the running task. -/
def Inheritable (k : Kernel) (f : Option File) : Prop := ∀ x ∈ f, ∃ fd, k.currentFile fd = some x

lemma inheritable_of_inheritedFile {fd : ℤ} {writable : Bool} {f : Option File}
    (hf : inheritedFile k fd writable = some f) : Inheritable k f := by
  rw [inheritedFile] at hf
  intro x hx
  split_ifs at hf
  · obtain rfl := Option.some.inj hf
    cases hx
  · cases hc : k.currentFile fd.toNat with
    | none => simp [hc] at hf
    | some y =>
      simp only [hc] at hf
      split_ifs at hf
      obtain rfl := Option.some.inj hf
      exact ⟨fd.toNat, hc.trans hx⟩

/-- A file to inherit is counted before it is in a table. -/
lemma held_dupFile {f : Option File} {room : Bool} (hf : Inheritable k f)
    (hdup : dupFile k f room = some k') :
    HeldDeeds (h, k) (↑f.toList + h, k') ∧ k'.tasks = k.tasks ∧ k'.current = k.current ∧
      ∀ fd, k'.currentFile fd = k.currentFile fd := by
  cases f with
  | none =>
    obtain rfl := Option.some.inj hdup
    refine ⟨?_, rfl, rfl, fun _ => rfl⟩
    simpa using ReflTransGen.refl
  | some f =>
    rw [dupFile] at hdup
    split_ifs at hdup
    obtain rfl := Option.some.inj hdup
    obtain ⟨fd, hfd⟩ := hf f rfl
    refine ⟨?_, (tasks_countEnd k f).1, (tasks_countEnd k f).2, currentFile_countEnd k f⟩
    simpa using (Deed.dup h k fd f hfd).one

/-- It is uncounted again if the task cannot be started. -/
lemma held_undoDup (h : Multiset File) (k : Kernel) (f : Option File) :
    HeldDeeds (↑f.toList + h, k) (h, undoDup k f) := by
  cases f with
  | none => simpa [undoDup] using ReflTransGen.refl
  | some f => simpa [undoDup] using (Deed.close h k f).one

/-- The files go into the table of the new task. -/
lemma held_taskRegister {a : Answers} {image : Image} {pgidReq : ℕ} {inSrc outSrc : Option File}
    (hr : taskRegister k a image k.current pgidReq (childFds inSrc outSrc) = some k')
    (hcall : SysCall.ofWord k.pile.rax = some .run) :
    HeldDeeds (inherited inSrc outSrc + h, k) (h, k') := by
  rw [taskRegister] at hr
  split_ifs at hr
  all_goals
    obtain rfl := Option.some.inj hr
    exact (Deed.spawn h k image _ inSrc outSrc hcall).one

/-- A task is started with two files to inherit, or both are given back. -/
lemma deeds_startTask (hcall : SysCall.ofWord k.pile.rax = some .run) (a : Answers)
    (image : Image) {inSrc outSrc : Option File}
    (hin : Inheritable k inSrc) (hout : Inheritable k outSrc) (pgidReq : ℕ) :
    Deeds k (startTask k a image inSrc outSrc k.current pgidReq).2 := by
  rw [startTask]
  cases hdup : dupFile k inSrc (a.heap 0) with
  | none => exact .refl
  | some k₁ =>
    obtain ⟨he₁, -, hcur₁, hfd₁⟩ := held_dupFile (h := 0) hin hdup
    have hout₁ : Inheritable k₁ outSrc := by
      intro x hx
      obtain ⟨fd, hfd⟩ := hout x hx
      exact ⟨fd, (hfd₁ fd).trans hfd⟩
    dsimp only
    cases hdup₂ : dupFile k₁ outSrc (a.heap 1) with
    | none => exact he₁.trans (held_undoDup 0 k₁ inSrc)
    | some k₂ =>
      obtain ⟨he₂, -, hcur₂, -⟩ := held_dupFile (h := ↑inSrc.toList + 0) hout₁ hdup₂
      have he := he₁.trans he₂
      dsimp only
      rw [← hcur₁, ← hcur₂]
      cases hreg : taskRegister k₂ a image k₂.current pgidReq (childFds inSrc outSrc) with
      | none =>
        rw [add_left_comm] at he
        exact he.trans ((held_undoDup _ k₂ inSrc).trans (held_undoDup 0 _ outSrc))
      | some k₃ =>
        rw [add_left_comm, ← add_assoc] at he
        refine he.trans (held_taskRegister hreg ?_)
        rwa [(HeldEffects.frame (HeldDeeds.effects he)).1]

lemma deeds_taskCreateFromFile (hcall : SysCall.ofWord k.pile.rax = some .run) (a : Answers)
    (inFd outFd : ℤ) (pgidReq : ℕ) :
    Deeds k (taskCreateFromFile k a k.current inFd outFd pgidReq).2 := by
  rw [taskCreateFromFile]
  refine iteInduction (motive := fun x : Option ℕ × Kernel => Deeds k x.2) (fun _ => .refl)
    fun _ => ?_
  split
  · rename_i inSrc outSrc image hin hout himage
    exact deeds_startTask hcall a _ (inheritable_of_inheritedFile hin)
      (inheritable_of_inheritedFile hout) pgidReq
  · exact .refl

end Kernel

end TownOS
