import TownOS.Kernel.Descriptors
import TownOS.Kernel.Ledger

/-!
No lost wakeup (`kernel/scheduler.c`, `kernel/pipe.c`, `kernel/file.c`).

A task that sleeps has nothing to go on with (`Stuck`): what it waits for was not there when
it fell asleep, and whatever brings it about wakes it. That a pipe has readers at all, when
it has any count of them, is known from the counts of open files.

* `Watched`: what a move does to the keyboard and the pipes leaves those who go on sleeping
  with nothing;
* `Wakeful.move`: the moves keep it so;
* `no_lost_wakeup`: the result for all runs.
-/

namespace TownOS

namespace Kernel

open Relation Runs

variable {k k' : Kernel} {m m' : Mode} {i : ℕ} {t : Task} {r : Regs}

/-! ### The keyboard -/

/-- The characters in the ring are none of them zero. -/
structure KeysReal (kb : Keyboard) : Prop where
  valid : kb.ring.Valid kbdBufferSize
  nonzero : ∀ c ∈ kb.ring.contents kbdBufferSize, c ≠ 0

/-- The keyboard ring is empty. -/
def KeysGone (kb : Keyboard) : Prop := kb.ring.readIndex = kb.ring.writeIndex

variable {kb : Keyboard}

lemma keyboardGetchar_of_gone (h : KeysGone kb) : keyboardGetchar kb = (0, kb) := by
  rw [KeysGone] at h
  rw [keyboardGetchar, if_pos h]

/-- Nothing is read from the ring only if it is empty. -/
lemma KeysReal.gone_of_getchar (h : KeysReal kb) (hc : (keyboardGetchar kb).1 = 0) :
    KeysGone kb := by
  by_contra hne
  rw [KeysGone] at hne
  rw [keyboardGetchar, if_neg hne] at hc
  refine h.nonzero _ ?_ hc
  rw [RingBuffer.contents_get h.valid hne]
  exact List.mem_cons_self

lemma KeysReal.getchar (h : KeysReal kb) : KeysReal (keyboardGetchar kb).2 := by
  rw [keyboardGetchar]
  split_ifs with hne
  · exact h
  · refine ⟨h.valid.get, fun c hc => h.nonzero c ?_⟩
    rw [RingBuffer.contents_get h.valid hne]
    exact List.mem_cons_of_mem _ hc

lemma KeysReal.push (h : KeysReal kb) {c : UInt8} (hc : c ≠ 0) : KeysReal (kbdBufferPush kb c) := by
  rw [kbdBufferPush]
  split_ifs with hfull
  · exact h
  · refine ⟨h.valid.put c, fun d hd => ?_⟩
    rw [RingBuffer.contents_put h.valid hfull] at hd
    rcases List.mem_append.mp hd with hd | hd
    · exact h.nonzero d hd
    · rw [List.mem_singleton.mp hd]
      exact hc

lemma KeysReal.drained (h : KeysReal kb) {n : ℕ} (hn : 0 < n) (hd : (drain kb n).1 = []) :
    KeysGone kb ∧ (drain kb n).2 = kb := by
  obtain ⟨n, rfl⟩ := Nat.exists_eq_succ_of_ne_zero hn.ne'
  have hgone : KeysGone kb := by
    refine h.gone_of_getchar ?_
    by_contra hc
    rw [drain] at hd
    dsimp only at hd
    rw [if_neg hc] at hd
    cases hd
  refine ⟨hgone, ?_⟩
  rw [drain, keyboardGetchar_of_gone hgone]
  rfl

/-! ### Having nothing to go on with -/

/-- There is no key, and no end of the input for a `SYS_READ`. -/
def KeyDry (kb : Keyboard) (r : Regs) : Prop :=
  KeysGone kb ∧ (SysCall.ofWord r.rax = some .read → kb.consoleEof = false)

/-- The pipe is empty and somebody may still write. -/
def PipeDry (k : Kernel) (p : ℕ) : Prop :=
  ∃ x, k.pipes[p]? = some (some x) ∧ pipeUsed x = 0 ∧ 0 < x.writers

/-- The pipe is full and somebody may still read. -/
def PipeFull (k : Kernel) (p : ℕ) : Prop :=
  ∃ x, k.pipes[p]? = some (some x) ∧ pipeUsed x = pipeSize - 1 ∧ 0 < x.readers

/-- There is a child in the table, and no child is a zombie. -/
def ChildrenLive (k : Kernel) (i : ℕ) : Prop :=
  (∃ j t, k.task j = some t ∧ t.parentId = some i) ∧
    ∀ j t, k.task j = some t → t.parentId = some i → t.state ≠ .zombie

/-- The descriptor that a call is about is an end of a pipe. -/
def OnPipe (t : Task) (r : Regs) (p : ℕ) (writable : Bool) : Prop :=
  r.rdi.toNat < maxFds ∧ t.fds r.rdi.toNat = some ⟨.pipe p, writable⟩

/-- A sleeping task has nothing to go on with, given the registers of its call. -/
def Stuck (k : Kernel) (i : ℕ) (t : Task) (r : Regs) : Prop :=
  match t.waitReason with
  | .none => False
  | .key => KeyDry k.keyboard r
  | .child => ChildrenLive k i
  | .pipeRead => ∃ p, OnPipe t r p false ∧ PipeDry k p
  | .pipeWrite => ∃ p, OnPipe t r p true ∧ PipeFull k p

/-! ### What is watched -/

/-- Nobody sleeps for a reason. -/
def NoneWaits (k : Kernel) (reason : WaitReason) : Prop :=
  ∀ i t, k.task i = some t → t.state = .blocked → t.waitReason ≠ reason

/-- Who waits for a key or a pipe is woken, or has nothing to go on with still. -/
structure Watched (k k' : Kernel) : Prop where
  keys : KeysReal k.keyboard → KeysReal k'.keyboard
  key : NoneWaits k' .key ∨ ∀ r, KeyDry k.keyboard r → KeyDry k'.keyboard r
  dry : NoneWaits k' .pipeRead ∨ ∀ p, PipeDry k p → PipeDry k' p
  full : NoneWaits k' .pipeWrite ∨ ∀ p, PipeFull k p → PipeFull k' p

lemma watched_of_eq (hkb : k'.keyboard = k.keyboard) (hpipes : k'.pipes = k.pipes) :
    Watched k k' := by
  refine ⟨fun h => hkb ▸ h, .inr fun r h => hkb ▸ h, .inr fun p h => ?_, .inr fun p h => ?_⟩
  · rw [PipeDry, hpipes]
    exact h
  · rw [PipeFull, hpipes]
    exact h

/-- Only the keyboard changes. -/
lemma watched_of_pipes (hpipes : k'.pipes = k.pipes)
    (hkeys : KeysReal k.keyboard → KeysReal k'.keyboard)
    (hkey : NoneWaits k' .key ∨ ∀ r, KeyDry k.keyboard r → KeyDry k'.keyboard r) :
    Watched k k' := by
  have h : Watched k { k' with keyboard := k.keyboard } := watched_of_eq rfl hpipes
  exact ⟨hkeys, hkey, h.dry, h.full⟩

/-- Only the pipes change. -/
lemma watched_of_keyboard (hkb : k'.keyboard = k.keyboard)
    (hdry : NoneWaits k' .pipeRead ∨ ∀ p, PipeDry k p → PipeDry k' p)
    (hfull : NoneWaits k' .pipeWrite ∨ ∀ p, PipeFull k p → PipeFull k' p) : Watched k k' :=
  ⟨fun h => hkb ▸ h, .inr fun _ h => hkb ▸ h, hdry, hfull⟩

lemma noneWaits_schedulerWake (k : Kernel) (reason : WaitReason) :
    NoneWaits (schedulerWake k reason) reason := by
  intro i t ht hb hr
  rw [task_schedulerWake] at ht
  obtain ⟨t₀, -, rfl⟩ := Option.map_eq_some_iff.mp ht
  split_ifs at hb hr with h
  · cases hb
  · exact h ⟨hb, hr⟩

lemma pipe_of_getElem {p : ℕ} {x : Pipe} (hx : k.pipes[p]? = some (some x)) : k.pipe p = x := by
  rw [pipe, hx]
  rfl

/-- A pipe with ends is there. -/
lemma getElem_of_ends {p : ℕ} {w : Bool} (he : (k.pipe p).ends w ≠ 0) :
    k.pipes[p]? = some (some (k.pipe p)) := by
  have hcreate : Pipe.create.ends w = 0 := by cases w <;> rfl
  rw [pipe] at he ⊢
  rcases hp : k.pipes[p]? with _ | _ | x
  · exact absurd (by rw [hp]; exact hcreate) he
  · exact absurd (by rw [hp]; exact hcreate) he
  · rfl

/-- A pipe is replaced; the others stay. -/
lemma getElem_setPipe {p q : ℕ} {x : Pipe} {o : Option Pipe} (hx : k.pipes[q]? = some (some x))
    (ho : p = q → o = some x) : (k.setPipe p o).pipes[q]? = some (some x) := by
  rw [setPipe, List.getElem?_set]
  split_ifs with hpq hlt
  · rw [ho hpq]
  · rw [← hpq, List.getElem?_eq_none (Nat.not_lt.mp hlt)] at hx
    cases hx
  · exact hx

lemma getElem_setPipe_self {p : ℕ} {x y : Pipe} (hx : k.pipes[p]? = some (some x)) :
    (k.setPipe p (some y)).pipes[p]? = some (some y) := by
  rw [setPipe, List.getElem?_set, if_pos rfl, if_pos (List.getElem?_eq_some_iff.mp hx).1]

/-- What holds of a pipe goes on if it holds of what replaces the pipe. -/
lemma exists_setPipe {P : Pipe → Prop} {p q : ℕ} {y : Option Pipe}
    (h : ∃ x, k.pipes[q]? = some (some x) ∧ P x) (hy : p = q → ∃ x, y = some x ∧ P x) :
    ∃ x, (k.setPipe p y).pipes[q]? = some (some x) ∧ P x := by
  obtain ⟨x, hx, hP⟩ := h
  rcases eq_or_ne p q with rfl | hpq
  · obtain ⟨x', rfl, hP'⟩ := hy rfl
    exact ⟨x', getElem_setPipe_self hx, hP'⟩
  · exact ⟨x, getElem_setPipe hx fun h => absurd h hpq, hP⟩

/-- A pipe that goes on being dry. -/
lemma PipeDry.setPipe {p q : ℕ} {y : Option Pipe} (h : PipeDry k q)
    (hy : p = q → ∃ x, y = some x ∧ pipeUsed x = 0 ∧ 0 < x.writers) : PipeDry (k.setPipe p y) q :=
  exists_setPipe h hy

/-- A pipe that goes on being full. -/
lemma PipeFull.setPipe {p q : ℕ} {y : Option Pipe} (h : PipeFull k q)
    (hy : p = q → ∃ x, y = some x ∧ pipeUsed x = pipeSize - 1 ∧ 0 < x.readers) :
    PipeFull (k.setPipe p y) q :=
  exists_setPipe h hy

lemma PipeDry.pipe {p : ℕ} (h : PipeDry k p) :
    pipeUsed (k.pipe p) = 0 ∧ 0 < (k.pipe p).writers := by
  obtain ⟨x, hx, hu, hw⟩ := h
  rw [pipe_of_getElem hx]
  exact ⟨hu, hw⟩

lemma PipeFull.pipe {p : ℕ} (h : PipeFull k p) :
    pipeUsed (k.pipe p) = pipeSize - 1 ∧ 0 < (k.pipe p).readers := by
  obtain ⟨x, hx, hu, hw⟩ := h
  rw [pipe_of_getElem hx]
  exact ⟨hu, hw⟩

lemma Press.watched (hp : Press k k') : Watched k k' := by
  cases hp with
  | typed c hc =>
    exact watched_of_pipes rfl (fun h => h.push hc) (.inl (noneWaits_schedulerWake _ _))
  | ended =>
    exact watched_of_pipes rfl (fun h => ⟨h.valid, h.nonzero⟩) (.inl (noneWaits_schedulerWake _ _))
  | modifiers kb hring heof =>
    refine watched_of_pipes rfl (fun h => ?_) (.inr fun r h => ?_)
    · exact ⟨hring ▸ h.valid, hring ▸ h.nonzero⟩
    · rw [KeyDry, KeysGone, hring, heof]
      exact h
  | raise id sig =>
    rw [signalRaise]
    refine iteInduction (fun _ => watched_of_eq rfl rfl) fun _ => ?_
    cases k.task id with
    | none => exact watched_of_eq rfl rfl
    | some t =>
      dsimp only
      split_ifs <;> exact watched_of_eq rfl rfl

lemma Aside.watched (ha : Aside k k') : Watched k k' := by
  cases ha with
  | press hp => exact hp.watched
  | getKey =>
    refine watched_of_pipes rfl (fun h => h.getchar) (.inr fun r h => ?_)
    rw [keyboardGetchar_of_gone h.1]
    exact h
  | eofTaken =>
    exact watched_of_pipes rfl (fun h => ⟨h.valid, h.nonzero⟩) (.inr fun r h => ⟨h.1, fun _ => rfl⟩)
  | took p n hpos hn =>
    refine watched_of_keyboard rfl (.inr fun q h => h.setPipe ?_)
      (.inl (noneWaits_schedulerWake _ _))
    rintro rfl
    exact absurd h.pipe.1 hpos.ne'
  | gave p l hr hl =>
    refine watched_of_keyboard rfl (.inl (noneWaits_schedulerWake _ _))
      (.inr fun q h => h.setPipe ?_)
    rintro rfl
    -- a full pipe takes nothing
    have hspace : pipeSpace (k.pipe p) = 0 := by
      rw [pipeSpace, RingBuffer.space, ← pipeUsed, h.pipe.1, Nat.sub_self]
    obtain rfl := List.length_eq_zero_iff.mp (Nat.le_zero.mp (hspace ▸ hl))
    exact ⟨k.pipe p, rfl, h.pipe⟩
  | newPipe =>
    have hold : ∀ {q : ℕ} {x : Pipe}, k.pipes[q]? = some (some x) →
        (k.pipes ++ [some Pipe.create])[q]? = some (some x) := fun hx =>
      (List.getElem?_append_left (List.getElem?_eq_some_iff.mp hx).1).trans hx
    refine watched_of_keyboard rfl (.inr fun q h => ?_) (.inr fun q h => ?_)
    · obtain ⟨x, hx, hs⟩ := h
      exact ⟨x, hold hx, hs⟩
    · obtain ⟨x, hx, hs⟩ := h
      exact ⟨x, hold hx, hs⟩
  | dropPipe p hr hw =>
    refine watched_of_keyboard rfl (.inr fun q h => h.setPipe ?_) (.inr fun q h => h.setPipe ?_)
    · rintro rfl
      exact absurd hw h.pipe.2.ne'
    · rintro rfl
      exact absurd hr h.pipe.2.ne'
  | collect i ht hz hp =>
    refine watched_of_eq ?_ ?_ <;> rw [Kernel.collect] <;> split_ifs <;> rfl
  | foreground | touch => exact watched_of_eq rfl rfl

lemma watched_countEnd (k : Kernel) (f : File) : Watched k (countEnd k f) := by
  rw [countEnd]
  cases f.kind with
  | console => exact watched_of_eq rfl rfl
  | pipe p =>
    refine watched_of_keyboard rfl (.inr fun q h => h.setPipe ?_) (.inr fun q h => h.setPipe ?_)
    all_goals
      rintro rfl
      refine ⟨_, rfl, ?_⟩
      have hpipe := h.pipe
      split_ifs
      · exact ⟨hpipe.1, by dsimp only; omega⟩
      · exact ⟨hpipe.1, by dsimp only; omega⟩

/-- The last writer wakes those who read, the last reader those who write. -/
lemma watched_fileClose (k : Kernel) (f : File) : Watched k (fileClose k f) := by
  obtain ⟨kind, v⟩ := f
  rw [fileClose]
  cases kind with
  | console => exact watched_of_eq rfl rfl
  | pipe p =>
    dsimp only
    cases v with
    | true =>
      simp only [if_true]
      generalize hx : some ({ k.pipe p with writers := (k.pipe p).writers - 1 } : Pipe) = x
      have hfull : ∀ q, PipeFull k q → PipeFull (k.setPipe p x) q := fun q h =>
        h.setPipe fun hpq => ⟨_, hx.symm, hpq ▸ h.pipe⟩
      by_cases hw : (k.pipe p).writers - 1 = 0
      · rw [if_pos hw]
        have hwoken := noneWaits_schedulerWake (k.setPipe p x) .pipeRead
        refine watched_of_keyboard (by split_ifs <;> rfl) (.inl ?_) (.inr fun q h => ?_)
        · exact iteInduction (motive := fun k : Kernel => NoneWaits k _) (fun _ => hwoken)
            fun _ => hwoken
        · refine iteInduction (motive := fun k : Kernel => PipeFull k q) (fun hzero => ?_)
            fun _ => hfull q h
          refine PipeFull.setPipe (k := schedulerWake (k.setPipe p x) _) (hfull q h) ?_
          rintro rfl
          exact absurd hzero.1 h.pipe.2.ne'
      · rw [if_neg hw, if_neg fun h => hw h.2]
        refine watched_of_keyboard rfl (.inr fun q h => h.setPipe ?_) (.inr hfull)
        rintro rfl
        have hpipe := h.pipe
        exact ⟨_, hx.symm, hpipe.1, by dsimp only; omega⟩
    | false =>
      simp only [Bool.false_eq_true, if_false]
      generalize hx : some ({ k.pipe p with readers := (k.pipe p).readers - 1 } : Pipe) = x
      have hdry : ∀ q, PipeDry k q → PipeDry (k.setPipe p x) q := fun q h =>
        h.setPipe fun hpq => ⟨_, hx.symm, hpq ▸ h.pipe⟩
      by_cases hr : (k.pipe p).readers - 1 = 0
      · rw [if_pos hr]
        have hwoken := noneWaits_schedulerWake (k.setPipe p x) .pipeWrite
        refine watched_of_keyboard (by split_ifs <;> rfl) (.inr fun q h => ?_) (.inl ?_)
        · refine iteInduction (motive := fun k : Kernel => PipeDry k q) (fun hzero => ?_)
            fun _ => hdry q h
          refine PipeDry.setPipe (k := schedulerWake (k.setPipe p x) _) (hdry q h) ?_
          rintro rfl
          exact absurd hzero.2 h.pipe.2.ne'
        · exact iteInduction (motive := fun k : Kernel => NoneWaits k _) (fun _ => hwoken)
            fun _ => hwoken
      · rw [if_neg hr, if_neg fun h => hr h.1]
        refine watched_of_keyboard rfl (.inr hdry) (.inr fun q h => h.setPipe ?_)
        rintro rfl
        have hpipe := h.pipe
        exact ⟨_, hx.symm, hpipe.1, by dsimp only; omega⟩

lemma Effect.watched {s s' : Multiset File × Kernel} (he : Effect s s') : Watched s.2 s'.2 := by
  cases he with
  | aside h ha => exact ha.watched
  | own | put | take | spawn => exact watched_of_eq rfl rfl
  | dup h k fd f hf => exact watched_countEnd k f
  | openEnd h k p writable hp => exact watched_countEnd k ⟨.pipe p, writable⟩
  | close h k f => exact watched_fileClose k f

/-! ### The invariant -/

/-- The registers of the call in which a task sleeps. They are in the pile until they are saved. -/
def callOf (m : Mode) (k : Kernel) (i : ℕ) (t : Task) : Regs :=
  match m with
  | .leaving => if i = k.current then k.pile else t.regs
  | _ => t.regs

lemma callOf_current (k : Kernel) (t : Task) : callOf .leaving k k.current t = k.pile := if_pos rfl

lemma callOf_of_ne (hi : i ≠ k.current) (m : Mode) : callOf m k i t = t.regs := by
  cases m with
  | leaving => exact if_neg hi
  | busy | dying | saved | idle => rfl

/-- A task waits for a child that has just exited, and has not been told. -/
def Untold (m : Mode) (k : Kernel) (i : ℕ) (t : Task) : Prop :=
  m = .dying ∧ t.waitReason = .child ∧ k.currentTask.bind Task.parentId = some i

/-- Whoever sleeps has nothing to go on with. -/
structure Wakeful (m : Mode) (k : Kernel) : Prop where
  keys : KeysReal k.keyboard
  stuck : ∀ i t, k.task i = some t → t.state = .blocked → ¬Untold m k i t →
    Stuck k i t (callOf m k i t)

/-- Those who sleep have slept before, and their children are as they were. -/
structure Sleepers (k k' : Kernel) : Prop where
  before : ∀ i t, k'.task i = some t → t.state = .blocked → k.task i = some t
  children : ∀ i t, k'.task i = some t → t.state = .blocked → ChildrenLive k i → ChildrenLive k' i

lemma Stuck.watched (h : Stuck k i t r) (hw : Watched k k') (ht : k'.task i = some t)
    (hb : t.state = .blocked) (hchild : ChildrenLive k i → ChildrenLive k' i) : Stuck k' i t r := by
  rw [Stuck] at h ⊢
  cases hreason : t.waitReason with
  | none =>
    rw [hreason] at h
    exact h
  | key =>
    rw [hreason] at h
    exact (hw.key.resolve_left fun hn => hn i t ht hb hreason) r h
  | child =>
    rw [hreason] at h
    exact hchild h
  | pipeRead =>
    rw [hreason] at h
    obtain ⟨p, hp, hdry⟩ := h
    exact ⟨p, hp, (hw.dry.resolve_left fun hn => hn i t ht hb hreason) p hdry⟩
  | pipeWrite =>
    rw [hreason] at h
    obtain ⟨p, hp, hfull⟩ := h
    exact ⟨p, hp, (hw.full.resolve_left fun hn => hn i t ht hb hreason) p hfull⟩

/-- Nobody falls asleep. -/
lemma Wakeful.keep (h : Wakeful m k) (hw : Watched k k') (hs : Sleepers k k') (hm : m ≠ .dying)
    (hcall : ∀ i t, k'.task i = some t → t.state = .blocked → callOf m' k' i t = callOf m k i t) :
    Wakeful m' k' := by
  refine ⟨hw.keys h.keys, fun i t ht hb _ => ?_⟩
  rw [hcall i t ht hb]
  exact (h.stuck i t (hs.before i t ht hb) hb fun hu => hm hu.1).watched hw ht hb
    (hs.children i t ht hb)

lemma Mild.sleepers (hk : Mild k k') : Sleepers k k' := by
  refine ⟨fun i t ht hb => ?_, fun i t _ _ h => ⟨?_, fun j t' ht' hp => ?_⟩⟩
  · obtain ⟨t₀, ht₀, hkin⟩ := hk.kin ht
    rw [hkin.eq_of_blocked hb]
    exact ht₀
  · obtain ⟨⟨j, t₀, ht₀, hp⟩, -⟩ := h
    obtain ⟨t', ht', hkin⟩ := hk.kin' ht₀
    exact ⟨j, t', ht', hkin.parentId.trans hp⟩
  · obtain ⟨t₀, ht₀, hkin⟩ := hk.kin ht'
    exact fun hz => h.2 j t₀ ht₀ (hkin.parentId ▸ hp) (hkin.zombie_iff.mp hz)

/-- The running task does not sleep. -/
lemma Rotation.ne_current_of_blocked {h : Multiset File} (hr : Rotation (.busy h) k)
    (ht : k.task i = some t) (hb : t.state = .blocked) : i ≠ k.current := by
  rintro rfl
  obtain ⟨t', ht', hs, -⟩ := hr.current
  obtain rfl := Option.some.inj (ht.symm.trans ht')
  rw [show t.state = .running from hs] at hb
  cases hb

lemma Aimed.sleepers {h : Multiset File} (hk : Aimed k k') (hr : Rotation (.busy h) k) :
    Sleepers k k' := by
  obtain ⟨t₀, ht₀, hs₀, -⟩ := hr.current
  obtain ⟨t₁, ht₁, hsame⟩ : ∃ t₁, k'.task k.current = some t₁ ∧ Same t₀ t₁ := by
    have hself := hk.self
    rw [ht₀, currentTask, hk.current] at hself
    generalize k'.task k.current = o at hself
    cases hself with
    | some hsame => exact ⟨_, rfl, hsame⟩
  refine ⟨fun i t ht hb => ?_, fun i t _ _ h => ⟨?_, fun j t' ht' hp => ?_⟩⟩
  · rcases eq_or_ne i k.current with rfl | hi
    · obtain rfl := Option.some.inj (ht.symm.trans ht₁)
      rw [hsame.state, show t₀.state = .running from hs₀] at hb
      cases hb
    · rw [← hk.others i hi]
      exact ht
  · obtain ⟨⟨j, t₂, ht₂, hp⟩, -⟩ := h
    rcases eq_or_ne j k.current with rfl | hj
    · obtain rfl := Option.some.inj (ht₂.symm.trans ht₀)
      exact ⟨_, t₁, ht₁, hsame.parentId.trans hp⟩
    · exact ⟨j, t₂, (hk.others j hj).trans ht₂, hp⟩
  · rcases eq_or_ne j k.current with rfl | hj
    · obtain rfl := Option.some.inj (ht'.symm.trans ht₁)
      rw [hsame.state]
      exact h.2 _ t₀ ht₀ (hsame.parentId ▸ hp)
    · exact h.2 j t' (hk.others j hj ▸ ht') hp

/-- A task is freed that is no child of a sleeping one. -/
lemma sleepers_of_dropped {j : ℕ} {t₀ : Task} (ht₀ : k.task j = some t₀)
    (htask : ∀ i, k'.task i = if i = j then none else k.task i)
    (hparent : ∀ i t, k.task i = some t → t.state = .blocked → t₀.parentId ≠ some i) :
    Sleepers k k' := by
  have hold : ∀ {i t}, k'.task i = some t → k.task i = some t := by
    intro i t ht
    rw [htask] at ht
    split_ifs at ht
    exact ht
  refine ⟨fun _ _ ht _ => hold ht, fun i t ht hb h =>
    ⟨?_, fun j' t' ht' hp => h.2 j' t' (hold ht') hp⟩⟩
  obtain ⟨⟨j', t', ht', hp⟩, -⟩ := h
  refine ⟨j', t', ?_, hp⟩
  rw [htask, if_neg]
  · exact ht'
  · rintro rfl
    obtain rfl := Option.some.inj (ht'.symm.trans ht₀)
    exact hparent i t (hold ht) hb hp

lemma sleepers_collect {h : Multiset File} (hr : Rotation (.busy h) k) {j : ℕ} {t₀ : Task}
    (ht₀ : k.task j = some t₀) (hp : t₀.parentId = some k.current) : Sleepers k (collect k j t₀) :=
  sleepers_of_dropped ht₀ (fun _ => task_collect) fun _ _ ht hb hpi =>
    hr.ne_current_of_blocked ht hb (Option.some.inj (hpi.symm.trans hp))

lemma Sweep.sleepers (hs : Sweep k k') : Sleepers k k' := by
  cases hs with
  | @strip j t₀ ht₀ hz hj has =>
    have htask : ∀ i, ((k.modifyTask j destroyAspace).live (.destroyed j k.loaded)).task i =
        if i = j then some (destroyAspace t₀) else k.task i := by
      intro i
      rw [task_live, task_modifyTask]
      split_ifs with hi
      · rw [hi, ht₀]
        rfl
      · rfl
    refine ⟨fun i t ht hb => ?_, fun i t _ _ h => ⟨?_, fun j' t' ht' hp => ?_⟩⟩
    · rw [htask] at ht
      split_ifs at ht
      · obtain rfl := Option.some.inj ht
        rw [show (destroyAspace t₀).state = .zombie from hz] at hb
        cases hb
      · exact ht
    · obtain ⟨⟨j', t', ht', hp⟩, -⟩ := h
      rcases eq_or_ne j' j with rfl | hne
      · obtain rfl := Option.some.inj (ht'.symm.trans ht₀)
        exact ⟨j', _, (htask j').trans (if_pos rfl), hp⟩
      · exact ⟨j', t', (htask j').trans ((if_neg hne).trans ht'), hp⟩
    · rw [htask] at ht'
      split_ifs at ht' with hj'
      · obtain rfl := Option.some.inj ht'
        exact h.2 j t₀ ht₀ hp
      · exact h.2 j' t' ht' hp
  | @drop j t₀ ht₀ hz hj has hp =>
    refine sleepers_of_dropped ht₀ (fun i => task_dropTask (k := k)) fun i t ht hb hpi => ?_
    -- a sleeping parent is alive
    rw [hpi, parentAlive, ht] at hp
    simp [hb] at hp

lemma sleepers_spawn {t₀ : Task} (hready : t₀.state = .ready) (x : Life) :
    Sleepers k ((k.addTask t₀).live x) := by
  have hold : ∀ {i t}, ((k.addTask t₀).live x).task i = some t → t.state ≠ .ready →
      k.task i = some t := by
    intro i t ht hne
    rw [task_live, task_addTask] at ht
    split_ifs at ht
    · obtain rfl := Option.some.inj ht
      exact absurd hready hne
    · exact ht
  refine ⟨fun i t ht hb => hold ht (by simp [hb]), fun i t _ _ h => ⟨?_, fun j t' ht' hp => ?_⟩⟩
  · obtain ⟨⟨j, t', ht', hp⟩, -⟩ := h
    refine ⟨j, t', ?_, hp⟩
    rw [task_live, task_addTask, if_neg (lt_length_of_task ht').ne]
    exact ht'
  · exact fun hz => h.2 j t' (hold ht' (by simp [hz])) hp hz

lemma Turn.sleepers {h h' : Multiset File} (ht : Turn (.busy h, k) (.busy h', k'))
    (hr : Rotation (.busy h) k) : Sleepers k k' := by
  cases ht with
  | mild hm hk => exact hk.sleepers
  | own hk => exact hk.sleepers hr
  | condemn => exact ⟨fun _ _ ht _ => ht, fun _ _ _ _ h => h⟩
  | spawn h h' k image pgid fds => exact sleepers_spawn rfl _
  | collect f k ht hz hp => exact sleepers_collect hr ht hp
  | sweep hm hs => exact hs.sleepers

/-! ### Falling asleep and exiting -/

/-- What is awaited is not there when a task falls asleep. -/
lemma Blocks.stuck {reason : WaitReason} (hb : Blocks k reason kb) (hkeys : KeysReal k.keyboard)
    (hc : Counted (.busy 0) k) (ht : k.currentTask = some t) (r : Regs)
    (hrax : r.rax = k.pile.rax) (hrdi : r.rdi = k.pile.rdi) :
    kb = k.keyboard ∧ Stuck k k.current { t with waitReason := reason, state := .blocked } r := by
  have honpipe : ∀ p w, k.currentFile k.pile.rdi.toNat = some ⟨.pipe p, w⟩ →
      OnPipe { t with waitReason := reason, state := .blocked } r p w := by
    intro p w hf
    rw [currentFile, ht] at hf
    split_ifs at hf with hlt
    rw [OnPipe, hrdi]
    exact ⟨hlt, hf⟩
  cases hb with
  | readkey hcall hchar =>
    have hgone := hkeys.gone_of_getchar hchar
    refine ⟨by rw [keyboardGetchar_of_gone hgone], hgone, fun hread => ?_⟩
    rw [hrax, hcall] at hread
    cases hread
  | console hcall n hn hd he =>
    obtain ⟨hgone, hsame⟩ := hkeys.drained hn hd
    rw [hsame] at he
    exact ⟨hsame, hgone, fun _ => he⟩
  | pipeRead hcall p hf hw =>
    obtain ⟨hused, hwriters⟩ := of_decide_eq_true hw
    exact ⟨rfl, p, honpipe p false hf, _, getElem_of_ends (w := true) hwriters.ne', hused, hwriters⟩
  | pipeWrite hcall p hf hw =>
    obtain ⟨hreaders, hspace⟩ := of_decide_eq_true hw
    refine ⟨rfl, p, honpipe p true hf, _, getElem_of_ends (w := false) hreaders, ?_, ?_⟩
    · have hlt : pipeUsed (k.pipe p) < pipeSize := Nat.mod_lt _ (by decide)
      rw [pipeSpace, RingBuffer.space, ← pipeUsed] at hspace
      omega
    · have hends := hc.ends p false
      rw [show (k.pipe p).ends false = (k.pipe p).readers from rfl] at hends
      omega
  | child hcall hw =>
    rw [childWaits] at hw
    cases hfind : (List.range k.tasks.length).find? k.isDeadChild with
    | some j => simp [hfind] at hw
    | none =>
      rw [hfind] at hw
      refine ⟨rfl, ?_, fun j t' ht' hp hz => ?_⟩
      · obtain ⟨j, -, hj⟩ := List.any_eq_true.mp hw
        obtain ⟨t', ht', hp⟩ := Option.any_eq_true _ _ |>.mp hj
        exact ⟨j, t', ht', of_decide_eq_true hp⟩
      · have hdead := List.find?_eq_none.mp hfind j (List.mem_range.mpr (lt_length_of_task ht'))
        rw [isDeadChild, ht', Option.any_some] at hdead
        exact hdead (decide_eq_true ⟨hp, hz⟩)

/-- Children are seen alike by a kernel that differs in states that are no zombies. -/
lemma ChildrenLive.modifyCurrent {f : Task → Task} (h : ChildrenLive k i)
    (hp : ∀ t, (f t).parentId = t.parentId) (hz : ∀ t, (f t).state = .zombie → t.state = .zombie) :
    ChildrenLive (k.modifyCurrent f) i := by
  refine ⟨?_, fun j t' ht' hpar hzom => ?_⟩
  · obtain ⟨⟨j, t, ht, hpar⟩, -⟩ := h
    rcases eq_or_ne j k.current with rfl | hj
    · exact ⟨k.current, f t, (task_modifyTask_self).trans (congrArg _ ht), (hp t).trans hpar⟩
    · exact ⟨j, t, (task_modifyTask_of_ne hj).trans ht, hpar⟩
  · rw [Kernel.modifyCurrent, task_modifyTask] at ht'
    obtain ⟨t, ht, ⟨-, rfl⟩ | rfl⟩ := task_of_ite ht'
    · exact h.2 j t ht ((hp t).symm.trans hpar) (hz t hzom)
    · exact h.2 j t' ht hpar hzom

lemma Wakeful.park {reason : WaitReason} (h : Wakeful (.busy 0) k) (hr : Rotation (.busy 0) k)
    (hc : Counted (.busy 0) k) (hb : Blocks k reason kb) :
    Wakeful .leaving (park { k with keyboard := kb } reason) := by
  obtain ⟨t, ht, hs, -⟩ := hr.current
  have hstuck := fun r => hb.stuck (r := r) h.keys hc ht
  obtain rfl : kb = k.keyboard := (hstuck k.pile rfl rfl).1
  change Wakeful .leaving (Kernel.park k reason)
  have hchildren : ∀ {i}, ChildrenLive k i → ChildrenLive (Kernel.park k reason) i := fun hl =>
    hl.modifyCurrent (f := fun t => { t with state := .blocked, waitReason := reason })
      (fun _ => rfl)
      fun _ hz => by cases hz
  have hwatch : Watched k (Kernel.park k reason) := watched_of_eq rfl rfl
  refine ⟨h.keys, fun i t' ht' hb' _ => ?_⟩
  rcases eq_or_ne i k.current with rfl | hi
  · have hself : (Kernel.park k reason).task k.current =
        some { t with state := .blocked, waitReason := reason } :=
      (task_modifyTask_self (k := k)).trans (congrArg _ ht)
    obtain rfl := Option.some.inj (hself.symm.trans ht')
    rw [show callOf .leaving (Kernel.park k reason) k.current _ = (Kernel.park k reason).pile from
      callOf_current _ _]
    exact (hstuck _ rfl rfl).2.watched hwatch ht' rfl hchildren
  · have hold : k.task i = some t' := by
      rw [← ht']
      exact (task_modifyTask_of_ne (k := k) hi).symm
    have hcall : callOf .leaving (Kernel.park k reason) i t' = t'.regs :=
      callOf_of_ne (k := Kernel.park k reason) hi _
    rw [hcall]
    exact (h.stuck i t' hold hb' fun hu => by cases hu.1).watched hwatch ht' hb' hchildren

lemma Wakeful.bury (h : Wakeful (.busy 0) k) (hr : Rotation (.busy 0) k) (status : ℕ) :
    Wakeful .dying (bury k status) := by
  obtain ⟨t, ht, hs, -⟩ := hr.current
  have hself : (Kernel.bury k status).task k.current =
      some { t with exitStatus := status % 256, state := .zombie, waitReason := .none } :=
    (task_modifyTask_self (k := k)).trans (congrArg _ ht)
  have hothers : ∀ j, j ≠ k.current → (Kernel.bury k status).task j = k.task j := fun j hj =>
    task_modifyTask_of_ne (k := k) hj
  refine ⟨h.keys, fun i t' ht' hb hu => ?_⟩
  have hi : i ≠ k.current := by
    rintro rfl
    obtain rfl := Option.some.inj (hself.symm.trans ht')
    cases hb
  have hold : k.task i = some t' := hothers i hi ▸ ht'
  have hbefore := h.stuck i t' hold hb fun hu => by cases hu.1
  refine Stuck.watched ?_ (watched_of_eq (k := { k with tasks := (Kernel.bury k status).tasks })
    rfl rfl) ht' hb id
  -- only a parent waiting for a child can tell the difference
  rw [Stuck] at hbefore ⊢
  cases hreason : t'.waitReason with
  | child =>
    rw [hreason] at hbefore
    refine ⟨?_, fun j t₁ ht₁ hp hz => ?_⟩
    · obtain ⟨⟨j, t₁, ht₁, hp⟩, -⟩ := hbefore
      rcases eq_or_ne j k.current with rfl | hj
      · obtain rfl := Option.some.inj (ht₁.symm.trans ht)
        exact ⟨_, _, hself, hp⟩
      · exact ⟨j, t₁, (hothers j hj).trans ht₁, hp⟩
    · rcases eq_or_ne j k.current with rfl | hj
      · obtain rfl := Option.some.inj (ht₁.symm.trans hself)
        refine hu ⟨rfl, hreason, ?_⟩
        rw [currentTask, show (Kernel.bury k status).current = k.current from rfl, hself]
        exact hp
      · exact hbefore.2 j t₁ ((hothers j hj).symm.trans ht₁) hp hz
  | none | key | pipeRead | pipeWrite =>
    rw [hreason] at hbefore
    exact hbefore

/-- The parent that was not told is woken. -/
lemma Wakeful.rouse (h : Wakeful .dying k) (hr : Rotation .dying k) :
    Wakeful .leaving (wakeParent k (k.currentTask.bind Task.parentId)) := by
  obtain ⟨t₀, ht₀, hz₀, -⟩ := hr.current
  have hk := mild_wakeParent k (k.currentTask.bind Task.parentId)
  have hsleep := hk.sleepers
  have hwatch : Watched k (wakeParent k (k.currentTask.bind Task.parentId)) := by
    generalize k.currentTask.bind Task.parentId = o
    cases o with
    | none => exact watched_of_eq rfl rfl
    | some p =>
      rw [wakeParent]
      split_ifs <;> exact watched_of_eq rfl rfl
  refine ⟨hwatch.keys h.keys, fun i t ht hb _ => ?_⟩
  have hold := hsleep.before i t ht hb
  have hi : i ≠ k.current := by
    rintro rfl
    obtain rfl := Option.some.inj (hold.symm.trans ht₀)
    rw [show t.state = .zombie from hz₀] at hb
    cases hb
  have htold : ¬Untold .dying k i t := by
    rintro ⟨-, hreason, hparent⟩
    have halive : parentAlive k (some i) = true := by simp [parentAlive, hold, hb]
    rw [hparent, wakeParent, if_pos halive, task_modifyTask_self, hold, Option.map_some,
      if_pos ⟨hb, hreason⟩] at ht
    rw [← Option.some.inj ht] at hb
    cases hb
  have hcall := callOf_of_ne (t := t) hi .dying
  rw [callOf_of_ne (hk.current ▸ hi), ← hcall]
  exact (h.stuck i t hold hb htold).watched hwatch ht hb (hsleep.children i t ht hb)

/-! ### Moves -/

/-- The registers are saved where the call is found from then on. -/
lemma Wakeful.save (h : Wakeful m k) (hr : Rotation m k) (hm : m.Yields) :
    Wakeful .saved (saveCurrent k) := by
  obtain ⟨t₀, ht₀, hs₀, -⟩ := hr.current
  have htask : ∀ i, (saveCurrent k).task i =
      if i = k.current then some (savedTask k.pile t₀) else k.task i := by
    intro i
    rw [task_saveCurrent]
    split_ifs with hi
    · rw [hi, show k.task k.current = some t₀ from ht₀]
      rfl
    · rfl
  have hzombie : ∀ t r, (savedTask r t).state = .zombie → t.state = .zombie := by
    intro t r hz
    rw [savedTask] at hz
    dsimp only at hz
    split_ifs at hz
    exact hz
  have hchildren : ∀ {i}, ChildrenLive k i → ChildrenLive (saveCurrent k) i := fun hl =>
    hl.modifyCurrent (f := savedTask k.pile) (fun _ => rfl) fun t => hzombie t _
  have hwatch : Watched k (saveCurrent k) := watched_of_eq rfl rfl
  have hdying : m ≠ .dying := by rcases hm with rfl | rfl <;> simp
  refine ⟨h.keys, fun i t ht hb _ => ?_⟩
  have ht' := ht
  rw [htask] at ht'
  split_ifs at ht' with hi
  · obtain rfl := Option.some.inj ht'
    -- the task that is saved asleep was on its way out
    have hb₀ : t₀.state = .blocked := by
      rw [savedTask] at hb
      dsimp only at hb
      split_ifs at hb
      exact hb
    rcases hm with rfl | rfl
    · rw [show t₀.state = .running from hs₀] at hb₀
      cases hb₀
    · have hstuck := h.stuck k.current t₀ ht₀ hb₀ fun hu => hdying hu.1
      rw [callOf_current] at hstuck
      subst hi
      have hsame : Stuck k k.current (savedTask k.pile t₀) k.pile := hstuck
      exact hsame.watched hwatch ht hb hchildren
  · have hstuck := h.stuck i t ht' hb fun hu => hdying hu.1
    rw [callOf_of_ne hi] at hstuck
    exact hstuck.watched hwatch ht hb hchildren

lemma Wakeful.dispatch (h : Wakeful .saved k) {next : ℕ} (hready : k.isReady next) :
    Wakeful (.busy 0) (dispatch k next) := by
  obtain ⟨t₀, ht₀, hs₀⟩ := exists_of_isReady hready
  have hd := dispatch_dispatched ht₀
  refine h.keep (watched_of_eq hd.keyboard hd.pipes) ⟨fun i t ht hb => ?_, fun i t _ _ hl => ?_⟩
    (by simp) fun _ _ _ _ => rfl
  · rw [hd.task] at ht
    split_ifs at ht
    · obtain rfl := Option.some.inj ht
      cases hb
    · exact ht
  · refine ⟨?_, fun j t' ht' hp => ?_⟩
    · obtain ⟨⟨j, t', ht', hp⟩, -⟩ := hl
      rcases eq_or_ne j next with rfl | hj
      · obtain rfl := Option.some.inj (ht'.symm.trans ht₀)
        exact ⟨j, _, (hd.task j).trans (if_pos rfl), hp⟩
      · exact ⟨j, t', (hd.task j).trans ((if_neg hj).trans ht'), hp⟩
    · rw [hd.task] at ht'
      split_ifs at ht'
      · obtain rfl := Option.some.inj ht'
        rintro ⟨⟩
      · exact hl.2 j t' ht' hp

/-- Between two states in which the kernel works for the running task. -/
lemma Wakeful.busy {h h' : Multiset File} (hw : Wakeful (.busy h) k) (hr : Rotation (.busy h) k)
    (ht : Turn (.busy h, k) (.busy h', k')) (hwatch : Watched k k') : Wakeful (.busy h') k' :=
  hw.keep hwatch (ht.sleepers hr) (by simp) fun _ _ _ _ => rfl

/-- **The moves leave those who sleep with nothing to go on with.** -/
theorem Wakeful.move {s s' : Mode × Kernel} (hm : Move s s') (hr : Rotation s.1 s.2)
    (hc : Counted s.1 s.2) (h : Wakeful s.1 s.2) : Wakeful s'.1 s'.2 := by
  have hturn := hm.turn
  cases hm with
  | effect he => exact h.busy hr hturn he.watched
  | press hp => exact h.keep hp.watched hp.mild.sleepers (by simp) fun _ _ _ _ => rfl
  | @goBack k t ht hact =>
    have hback := goBack_goesBack k t
    exact h.busy hr hturn (watched_of_eq hback.keyboard hback.pipes)
  | enter | user | reply | interrupt | enterHandler | checked | condemn =>
    exact h.busy hr hturn (watched_of_eq rfl rfl)
  | bury k status hcause hclosed => exact h.bury hr status
  | rouse k => exact h.rouse hr
  | park k hb hcut => exact h.park hr hc hb
  | @sweep m k k' hm hs =>
    have hspared := hs.spared
    have hpile := hs.calm.pile
    refine h.keep ?_ hs.sleepers (by rcases hm with rfl | rfl <;> simp) fun i t _ _ => ?_
    · cases hs <;> exact watched_of_eq rfl rfl
    · rcases hm with rfl | rfl
      · rfl
      · rw [callOf, callOf, hspared.current, hpile]
  | lost k hn =>
    obtain ⟨t, ht, -⟩ := hr.current
    rw [hn] at ht
    cases ht
  | save hm k => exact h.save hr hm
  | dispatch k hready => exact h.dispatch hready
  | rest | stir => exact ⟨h.keys, fun i t ht hb _ => h.stuck i t ht hb fun hu => by cases hu.1⟩

lemma wakeful_boot (image : Image) (r : Regs) : Wakeful (modeOf (boot image r)) (boot image r) := by
  have hsize : 0 < kbdBufferSize := by decide
  refine ⟨⟨⟨hsize, hsize⟩, fun c hc => ?_⟩, fun i t ht hb _ => ?_⟩
  · rw [RingBuffer.contents, show (boot image r).keyboard.ring.used kbdBufferSize = 0 from
      Nat.mod_self _] at hc
    cases hc
  · obtain rfl : i = 0 := Nat.lt_one_iff.mp (lt_length_of_task ht)
    obtain rfl := Option.some.inj ht
    cases hb

/-- The three invariants hold from boot on. -/
lemma run_wakeful {image : Image} {r : Regs} {es : List Event}
    (hrun : Runs.exec step (boot image r) es = some k) :
    Rotation (modeOf k) k ∧ Counted (modeOf k) k ∧ Wakeful (modeOf k) k :=
  Moves.invariant (I := fun s => Rotation s.1 s.2 ∧ Counted s.1 s.2 ∧ Wakeful s.1 s.2)
    (run_moves hrun)
    (fun _ _ hm h => ⟨h.1.turn hm.turn, h.2.1.move hm h.1, h.2.2.move hm h.1 h.2.1⟩)
    ⟨.boot image r, counted_boot image r, wakeful_boot image r⟩

/-- The last step of a run. -/
lemma exists_handled_of_concat {k₀ : Kernel} {es : List Event} {e : Event}
    (hrun : Runs.exec step k₀ (es ++ [e]) = some k) :
    ∃ k₁ k₂, Runs.exec step k₀ es = some k₁ ∧ k₁.handled e = some k₂ ∧ k = k₂.leave := by
  rw [exec_concat, Option.bind_eq_some_iff] at hrun
  obtain ⟨k₁, hrun, hstep⟩ := hrun
  obtain ⟨k₂, hk₂, rfl⟩ := Option.map_eq_some_iff.mp hstep
  exact ⟨k₁, k₂, hrun, hk₂, rfl⟩

/-- **No lost wakeup.** From boot on, for every interleaving: a task that sleeps has nothing to go
on with. The pipe it reads is empty and has writers, the pipe it writes is full and has
readers, the keyboard ring is empty and a `SYS_READ` has no end of the input, or there are
children and none of them is a zombie. -/
theorem no_lost_wakeup {image : Image} {r : Regs} {es : List Event} {k : Kernel}
    (hrun : Runs.exec step (boot image r) es = some k) :
    ∀ i t, k.task i = some t → t.state = .blocked → Stuck k i t t.regs := by
  obtain ⟨-, -, hwake⟩ := run_wakeful hrun
  intro i t ht hb
  rw [modeOf] at hwake
  split_ifs at hwake
  · exact hwake.stuck i t ht hb fun hu => by cases hu.1
  · exact hwake.stuck i t ht hb fun hu => by cases hu.1

end Kernel

/-- A program waits for its child. -/
theorem no_lost_wakeup_childRun :
    ∃ k t, Runs.exec Kernel.step (boot intImage {}) (childRun.take 4) = some k ∧
      k.task 0 = some t ∧ t.state = .blocked ∧ t.waitReason = .child ∧
      k.Stuck 0 t t.regs := by
  have hrun : (Runs.exec Kernel.step (boot intImage {}) (childRun.take 4)).any (fun k =>
      (k.task 0).any fun t => t.state = .blocked ∧ t.waitReason = .child) = true := by
    decide +kernel
  obtain ⟨k, hk, h⟩ := Option.any_eq_true _ _ |>.mp hrun
  obtain ⟨t, ht, h⟩ := Option.any_eq_true _ _ |>.mp h
  obtain ⟨hb, hreason⟩ := of_decide_eq_true h
  exact ⟨k, t, hk, ht, hb, hreason, Kernel.no_lost_wakeup hk 0 t ht hb⟩

end TownOS
