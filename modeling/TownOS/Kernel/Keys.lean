import TownOS.Kernel.Pipes

/-!
From the keys to ring 3 (`drivers/keyboard.c`, `sys_readkey` of `kernel/syscall.c`, the console
half of `file_read`).

What the user and ring 3 see of the console are the characters that the driver produces, the
Ctrl-Ds, the characters that calls return and the reads that return 0 (`ConsoleNote`). The ring
is a queue between the characters that are produced and those that are returned.

* `Keyboard.press`, `keyboard_keyboardCallback`: what a scancode does to the driver;
* `keyboard_syscallBody`: only `sys_readkey` and `sys_read` touch the driver;
* `KeyFlow`, `keyboard_handled`: what an event does to the ring, and what is seen of it.
-/

namespace TownOS

/-- Something that is seen of the console. -/
inductive ConsoleNote where
  /-- The driver produces a character. -/
  | typed (c : UInt8)
  /-- Ctrl-D. -/
  | ended
  /-- A call returns characters. -/
  | got (bytes : List UInt8)
  /-- A `SYS_READ` of a length that is not zero returns 0. -/
  | reported
  deriving DecidableEq

/-- The scancode that an event brings. -/
def Event.scancodes : Event → List UInt8
  | .key c => [c]
  | _ => []

/-! ### The driver -/

namespace Keyboard

variable (kb : Keyboard) (c : UInt8)

/-- The scancode is that of a release, or that of one of the modifiers. -/
def IsModifier (c : UInt8) : Prop :=
  c &&& 0x80 ≠ 0 ∨ c = 0x2A ∨ c = 0x36 ∨ c = 0x3A ∨ c = 0x1D

instance decidableIsModifier (c : UInt8) : Decidable (IsModifier c) :=
  inferInstanceAs (Decidable (_ ∨ _ ∨ _ ∨ _ ∨ _))

/-- The character that `keyboard_callback` gives to `kbd_buffer_push`, if it gets there. -/
def produced : Option UInt8 :=
  if IsModifier c ∨ kb.ctrlHeld = true then none
  else if Kernel.tableFor kb c.toNat = 0 then none
  else some (Kernel.tableFor kb c.toNat)

/-- The scancode is that of Ctrl-D. -/
def endsInput : Bool := kb.ctrlHeld && decide (c = 0x20)

/-- Whether some of the keys is held, as one flag for all of them has it. -/
def heldAfter (keys : List UInt8) (held : Bool) (c : UInt8) : Bool :=
  if c &&& 0x7F ∈ keys then decide (c &&& 0x80 = 0) else held

/-- What `keyboard_callback` does to the variables of the driver. -/
def press : Keyboard where
  ring := (kb.produced c).elim kb.ring fun ch => (Kernel.kbdBufferPush kb ch).ring
  shiftHeld := heldAfter [0x2A, 0x36] kb.shiftHeld c
  capsOn := if c = 0x3A then !kb.capsOn else kb.capsOn
  ctrlHeld := heldAfter [0x1D] kb.ctrlHeld c
  consoleEof := kb.consoleEof || kb.endsInput c

/-- What the user does with it. -/
def strokes : List ConsoleNote :=
  if kb.endsInput c = true then [.ended] else ((kb.produced c).map .typed).toList

/-- The characters in the ring. -/
def pending : List UInt8 := kb.ring.contents Kernel.kbdBufferSize

/-- The modifiers. -/
def modifiers : Bool × Bool × Bool := (kb.shiftHeld, kb.capsOn, kb.ctrlHeld)

end Keyboard

namespace Kernel

open Relation Runs

variable {k k' : Kernel} {t : Task} {kb kb' : Keyboard} {c : UInt8}

lemma kbdBufferPush_eq (kb : Keyboard) (c : UInt8) :
    kbdBufferPush kb c = { kb with ring := (kbdBufferPush kb c).ring } := by
  rw [kbdBufferPush]
  split_ifs <;> rfl

/-- A press has the code of its key. -/
lemma and_mask_of_make (h : c &&& 0x80 = 0) : c &&& 0x7F = c := by
  have hall : ∀ c : UInt8, c &&& 0x80 = 0 → c &&& 0x7F = c := by decide +kernel
  exact hall c h

lemma keyboard_signalRaise (k : Kernel) (id : ℕ) (sig : ℤ) :
    (signalRaise k id sig).keyboard = k.keyboard := by
  rw [signalRaise]
  split_ifs
  · rfl
  · cases k.task id with
    | none => rfl
    | some t =>
      dsimp only
      split_ifs <;> rfl

lemma keyboard_signalRaiseGroup (k : Kernel) (pgid : ℕ) (sig : ℤ) :
    (signalRaiseGroup k pgid sig).keyboard = k.keyboard := by
  rw [signalRaiseGroup]
  refine List.foldlRecOn
    (motive := fun x : Kernel => x.keyboard = k.keyboard) _ _ rfl fun k₁ h id _ => ?_
  cases k₁.task id with
  | none => exact h
  | some t =>
    dsimp only
    split_ifs
    · exact h
    · exact (keyboard_signalRaise k₁ id sig).trans h

lemma keyboard_taskBlock (k : Kernel) (reason : WaitReason) :
    (taskBlock k reason).2.keyboard = k.keyboard := by
  rw [taskBlock]
  split_ifs
  · rfl
  · exact (switchFrame_schedule _).keyboard

lemma keyboard_pipeRead (k : Kernel) (p len : ℕ) : (pipeRead k p len).2.keyboard = k.keyboard := by
  rw [pipeRead]
  split_ifs
  · rfl
  · have hblock := keyboard_taskBlock k (.pipeRead)
    rw [blockTransfer]
    generalize taskBlock k .pipeRead = s at hblock
    obtain ⟨_ | _, k₁⟩ := s <;> exact hblock
  · rfl

/-- **What a scancode does to the driver.** -/
lemma keyboard_keyboardCallback (k : Kernel) (c : UInt8) :
    (keyboardCallback k c).keyboard = k.keyboard.press c := by
  obtain ⟨kb, hkb⟩ : ∃ kb, kb = k.keyboard := ⟨_, rfl⟩
  rw [keyboardCallback, ← hkb, Keyboard.press]
  dsimp only
  by_cases hrelease : c &&& 0x80 = 0
  swap
  · have hcode : ∀ d : UInt8, d &&& 0x80 = 0 → c ≠ d := by
      rintro d hd rfl
      exact hrelease hd
    have hprod : kb.produced c = none := if_pos (.inl (.inl hrelease))
    simp [hrelease, hprod, Keyboard.heldAfter, Keyboard.endsInput, hcode 0x3A rfl, hcode 0x20 rfl]
  have hmask := and_mask_of_make hrelease
  rw [if_neg (not_not_intro hrelease)]
  by_cases hmod : Keyboard.IsModifier c
  · have hprod : kb.produced c = none := if_pos (.inl hmod)
    rw [hprod]
    obtain h | rfl | rfl | rfl | rfl := hmod
    · exact absurd hrelease h
    all_goals simp [Keyboard.heldAfter, Keyboard.endsInput, hmask, hrelease]
  -- the flags stay as they are from here on
  have hflags := hmod
  rw [Keyboard.IsModifier, not_or, not_or, not_or, not_or] at hflags
  obtain ⟨-, hleft, hright, hcaps, hctrl⟩ := hflags
  rw [if_neg (not_or.2 ⟨hleft, hright⟩), if_neg hcaps, if_neg hctrl]
  have hshift : Keyboard.heldAfter [0x2A, 0x36] kb.shiftHeld c = kb.shiftHeld := by
    simp [Keyboard.heldAfter, hmask, hleft, hright]
  have hheld : Keyboard.heldAfter [0x1D] kb.ctrlHeld c = kb.ctrlHeld := by
    simp [Keyboard.heldAfter, hmask, hctrl]
  rw [hshift, hheld, if_neg hcaps]
  by_cases hdown : kb.ctrlHeld = true
  · have hprod : kb.produced c = none := if_pos (.inr hdown)
    rw [if_pos hdown, hprod, Keyboard.endsInput, hdown, Bool.true_and]
    by_cases hint : c = 0x2E
    · rw [if_pos hint, keyboard_signalRaiseGroup, ← hkb, hint, ← hdown]
      simp
    · rw [if_neg hint, ← hdown]
      by_cases hend : c = 0x20
      · rw [if_pos hend]
        simp [schedulerWake, hend, hdown]
      · rw [if_neg hend, ← hkb]
        simp [hend]
  · have hprod : kb.produced c = if tableFor kb c.toNat = 0 then none
        else some (tableFor kb c.toNat) := if_neg (not_or.2 ⟨hmod, hdown⟩)
    have hno : kb.endsInput c = false := by
      rw [Keyboard.endsInput, Bool.eq_false_of_not_eq_true hdown, Bool.false_and]
    rw [if_neg hdown, hprod, hno, Bool.or_false]
    by_cases hzero : tableFor kb c.toNat = 0
    · rw [if_pos hzero, if_neg (not_not_intro hzero), ← hkb]
      rfl
    · rw [if_neg hzero, if_pos hzero]
      exact kbdBufferPush_eq kb _

/-! ### What leaves the driver alone -/

/-- **Only `sys_readkey` and `sys_read` touch the driver.** -/
lemma Deed.keyboard {s s' : Multiset File × Kernel} (hd : Deed s s')
    (hcall : SysCall.ofWord s.2.pile.rax ≠ some .readkey ∧
      SysCall.ofWord s.2.pile.rax ≠ some .read) :
    s'.2.keyboard = s.2.keyboard := by
  cases hd with
  | raise h k id sig => exact keyboard_signalRaise k id sig
  | getKey h k hkey | eofTaken h k hkey => exact absurd hkey (not_or.mpr hcall)
  | collect h k i => exact (switchFrame_collect k i _).keyboard
  | dup h k fd f => exact (quietFrame_countEnd k f).keyboard
  | openEnd h k p writable => exact (quietFrame_countEnd k _).keyboard
  | close h k f => exact (quietFrame_fileClose k f).keyboard
  | _ => rfl

lemma switches_keyboard : Switches (fun k k' => k'.keyboard = k.keyboard)
    (fun k k' => k'.keyboard = k.keyboard) where
  refl _ := rfl
  trans h h' := h'.trans h
  last h h' := h'.trans h
  weaken h := h
  sweep hs := (Sweeps.switchFrame (.single hs)).keyboard
  save _ := rfl
  dispatch _ := (switchFrame_dispatch _ _).keyboard
  idle _ _ := rfl
  close k fd := (quietFrame_closeFd k fd).keyboard
  bury _ _ := rfl
  rouse k p := (switchFrame_wakeParent k p).keyboard
  condemn _ _ := rfl
  clear _ _ := rfl
  checked _ := rfl
  handler _ _ _ := rfl
  reply _ _ := rfl
  cut _ := rfl

lemma keyboard_syscallBody (k : Kernel) (a : Answers)
    (hkey : SysCall.ofWord k.pile.rax ≠ some .readkey)
    (hread : SysCall.ofWord k.pile.rax ≠ some .read) :
    (syscallBody k a).keyboard = k.keyboard :=
  switches_keyboard.calls (fun c => c ≠ some .readkey ∧ c ≠ some .read) (syscallBody_ends k a)
    ⟨hkey, hread⟩ Deed.keyboard (fun _ _ => rfl) fun _ _ _ _ => (goBack_goesBack k _).keyboard

/-- `sys_read` does not, where the file that is read is not the console. -/
lemma keyboard_sysRead (hf : k.currentFile k.pile.rdi.toNat ≠ some ⟨.console, false⟩) :
    (sysRead k).keyboard = k.keyboard := by
  rw [sysRead]
  cases hfile : k.currentFile k.pile.rdi.toNat with
  | none => rfl
  | some f =>
    refine iteInduction (motive := fun x : Kernel => x.keyboard = k.keyboard) (fun _ => rfl)
      fun hw => iteInduction (motive := fun x : Kernel => x.keyboard = k.keyboard) (fun _ => rfl)
      fun _ => iteInduction (motive := fun x : Kernel => x.keyboard = k.keyboard) (fun _ => rfl)
      fun _ => ?_
    obtain ⟨kind, w⟩ := f
    obtain rfl : w = false := by simpa using hw
    cases kind with
    | console => exact absurd hfile hf
    | pipe p =>
      have hread := keyboard_pipeRead k p (min k.pile.rdx.toNat syscallIoMax)
      dsimp only [fileRead]
      generalize pipeRead k p _ = s at hread
      obtain ⟨_ | _ | bytes, k₁⟩ := s
      · exact hread
      · exact hread
      · dsimp only
        split_ifs <;> exact hread

/-! ### The ring -/

/-- What becomes of the ring, with what is seen of it. -/
inductive KeyFlow (kb kb' : Keyboard) : List ConsoleNote → Prop
  | still (h : kb'.pending = kb.pending) : KeyFlow kb kb' []
  | typed (c : UInt8)
      (h : kb'.pending =
        if kb.pending.length = kbdBufferSize - 1 then kb.pending else kb.pending ++ [c]) :
      KeyFlow kb kb' [.typed c]
  | ended (h : kb'.pending = kb.pending) : KeyFlow kb kb' [.ended]
  | got (bytes : List UInt8) (h : kb.pending = bytes ++ kb'.pending) : KeyFlow kb kb' [.got bytes]
  | reported (hempty : kb.pending = []) (h : kb'.pending = []) : KeyFlow kb kb' [.reported]

lemma length_pending (kb : Keyboard) : kb.pending.length = kb.ring.used kbdBufferSize := by
  rw [Keyboard.pending, RingBuffer.contents, List.length_map, List.length_range]

lemma pending_of_gone (hkeys : KeysReal kb) (h : KeysGone kb) : kb.pending = [] := by
  rw [← List.length_eq_zero_iff, length_pending]
  exact hkeys.valid.used_eq_zero_iff.2 h

/-- The ring is full with one slot left. -/
lemma full_iff (h : kb.ring.Valid kbdBufferSize) :
    (kb.ring.writeIndex + 1) % kbdBufferSize = kb.ring.readIndex ↔
      kb.pending.length = kbdBufferSize - 1 := by
  have hr := h.read
  have hw := h.write
  rw [length_pending, h.used_eq, RingBuffer.mod_eq_ite (by omega)]
  split_ifs <;> omega

lemma pending_kbdBufferPush (h : kb.ring.Valid kbdBufferSize) (c : UInt8) :
    (kbdBufferPush kb c).pending =
      if kb.pending.length = kbdBufferSize - 1 then kb.pending else kb.pending ++ [c] := by
  rw [kbdBufferPush]
  by_cases hfull : (kb.ring.writeIndex + 1) % kbdBufferSize = kb.ring.readIndex
  · rw [if_pos hfull, if_pos ((full_iff h).1 hfull)]
  · rw [if_neg hfull, if_neg (mt (full_iff h).2 hfull)]
    exact RingBuffer.contents_put h hfull c

/-- A scancode. -/
lemma keyFlow_press (h : kb.ring.Valid kbdBufferSize) (c : UInt8) :
    KeyFlow kb (kb.press c) (kb.strokes c) := by
  rw [Keyboard.strokes]
  by_cases hend : kb.endsInput c = true
  · have hprod : kb.produced c = none := by
      rw [Keyboard.endsInput, Bool.and_eq_true] at hend
      exact if_pos (.inr hend.1)
    rw [if_pos hend]
    refine .ended ?_
    rw [Keyboard.pending, Keyboard.press, hprod]
    rfl
  · rw [if_neg hend]
    cases hprod : kb.produced c with
    | none =>
      refine .still ?_
      rw [Keyboard.pending, Keyboard.press, hprod]
      rfl
    | some ch =>
      refine .typed ch ?_
      rw [← pending_kbdBufferPush h ch, Keyboard.pending, Keyboard.press, hprod]
      rfl

/-- A character is taken. -/
lemma pending_getchar (h : KeysReal kb) (hc : (keyboardGetchar kb).1 ≠ 0) :
    kb.pending = (keyboardGetchar kb).1 :: (keyboardGetchar kb).2.pending := by
  have hne : ¬ kb.ring.readIndex = kb.ring.writeIndex := by
    intro hgone
    rw [keyboardGetchar_of_gone hgone] at hc
    exact hc rfl
  rw [keyboardGetchar, if_neg hne]
  exact RingBuffer.contents_get h.valid hne

lemma modifiers_getchar (kb : Keyboard) : (keyboardGetchar kb).2.modifiers = kb.modifiers := by
  rw [keyboardGetchar]
  split_ifs <;> rfl

/-- Some characters are taken. -/
lemma pending_drain (h : KeysReal kb) (n : ℕ) :
    kb.pending = (drain kb n).1 ++ (drain kb n).2.pending := by
  induction n generalizing kb with
  | zero => rfl
  | succ n ih =>
    rw [drain]
    dsimp only
    by_cases hc : (keyboardGetchar kb).1 = 0
    · rw [if_pos hc, keyboardGetchar_of_gone (h.gone_of_getchar hc)]
      rfl
    · rw [if_neg hc, pending_getchar h hc, ih h.getchar]
      rfl

lemma modifiers_drain (kb : Keyboard) (n : ℕ) : (drain kb n).2.modifiers = kb.modifiers := by
  induction n generalizing kb with
  | zero => rfl
  | succ n ih =>
    rw [drain]
    dsimp only
    split_ifs
    · exact modifiers_getchar kb
    · exact (ih _).trans (modifiers_getchar kb)

/-! ### System calls -/

/-- What is seen of a system call that reads the console. -/
def readings (k k' : Kernel) : List ConsoleNote :=
  if SysCall.ofWord k.pile.rax = some .readkey then
    match answer k k' with
    | none => []
    | some v => if v = syscallError then [] else [.got [UInt8.ofNat v.toNat]]
  else if SysCall.ofWord k.pile.rax = some .read ∧
      k.currentFile k.pile.rdi.toNat = some ⟨.console, false⟩ then
    if reported k k' ≠ 0 then [.got (k'.userBytes k.pile.rsi.toNat (reported k k'))]
    else if answer k k' = some 0 ∧ k.pile.rdx ≠ 0 then [.reported]
    else []
  else []

/-- What is seen of an event. -/
def observed (k : Kernel) (e : Event) : List ConsoleNote :=
  match e, k.handled e with
  | .key c, _ => k.keyboard.strokes c
  | .syscall _, some k' => readings k k'
  | _, _ => []

lemma Failed.no_reading (h : Failed k k') : readings k k' = [] := by
  have hzero : answer k k' ≠ some 0 := by
    rcases h with h | h <;> rw [h]
    · exact nofun
    · exact fun h => absurd (Option.some.inj h) (by decide)
  rw [readings, h.reported, if_neg (not_not_intro rfl), if_neg (not_and_of_not_left _ hzero),
    ite_self]
  rcases h with h | h <;> rw [h]
  · exact ite_self _
  · dsimp only
    rw [if_pos rfl]
    exact ite_self _

/-- `sys_readkey` with nothing in the ring: it waits or is cut short. -/
lemma sysReadkey_of_gone (hi : k.idling = false) (ht : k.currentTask = some t)
    (hgone : KeysGone k.keyboard) :
    Failed k (sysReadkey k) ∧ (sysReadkey k).keyboard = k.keyboard := by
  rw [sysReadkey, keyboardGetchar_of_gone hgone]
  dsimp only
  rw [if_neg (not_not_intro rfl), taskBlock]
  split_ifs
  · exact ⟨failed_reply, rfl⟩
  · exact ⟨.inl (answer_park hi ht .key), (switchFrame_schedule _).keyboard⟩

/-- `sys_readkey`. -/
lemma keyFlow_sysReadkey (hi : k.idling = false) (ht : k.currentTask = some t)
    (hkeys : KeysReal k.keyboard) (hcall : SysCall.ofWord k.pile.rax = some .readkey) :
    KeyFlow k.keyboard (sysReadkey k).keyboard (readings k (sysReadkey k)) ∧
      (sysReadkey k).keyboard.modifiers = k.keyboard.modifiers := by
  by_cases hc : (keyboardGetchar k.keyboard).1 = 0
  · obtain ⟨hfail, hkb⟩ := sysReadkey_of_gone hi ht (hkeys.gone_of_getchar hc)
    rw [hfail.no_reading, hkb]
    exact ⟨.still rfl, rfl⟩
  · have hlt : (keyboardGetchar k.keyboard).1.toNat < 2 ^ 8 := UInt8.toNat_lt _
    have hnat : (BitVec.ofNat 64 (keyboardGetchar k.keyboard).1.toNat).toNat =
        (keyboardGetchar k.keyboard).1.toNat := by
      rw [BitVec.toNat_ofNat, Nat.mod_eq_of_lt (by omega)]
    have hne : BitVec.ofNat 64 (keyboardGetchar k.keyboard).1.toNat ≠ syscallError := by
      intro heq
      have hbad := congrArg BitVec.toNat heq
      rw [hnat, show syscallError.toNat = 2 ^ 64 - 1 from rfl] at hbad
      omega
    have hans : answer k (({ k with keyboard := (keyboardGetchar k.keyboard).2 } : Kernel).reply
        (BitVec.ofNat 64 (keyboardGetchar k.keyboard).1.toNat)) = _ := answer_reply rfl hi _
    rw [sysReadkey]
    dsimp only
    rw [if_pos hc, readings, if_pos hcall, hans]
    dsimp only
    rw [if_neg hne, hnat, UInt8.ofNat_toNat]
    exact ⟨.got _ (pending_getchar hkeys hc), modifiers_getchar _⟩

/-- How a `SYS_READ` on the console ends. -/
inductive ConsoleEnds (k : Kernel) : Kernel → Prop
  /-- It fails or has to wait. -/
  | failed {k' : Kernel} (hkb : k'.keyboard = k.keyboard) (hf : Failed k k') : ConsoleEnds k k'
  /-- Nothing was asked for. -/
  | nothing (hlen : k.pile.rdx = 0) : ConsoleEnds k (k.reply 0)
  /-- Some characters are read. -/
  | took {k' : Kernel} (n : ℕ) (hne : (drain k.keyboard n).1 ≠ [])
      (hmax : (drain k.keyboard n).1.length ≤ syscallIoMax)
      (hrep : answer k k' = some (BitVec.ofNat 64 (drain k.keyboard n).1.length))
      (hbytes :
        k'.userBytes k.pile.rsi.toNat (drain k.keyboard n).1.length = (drain k.keyboard n).1)
      (hkb : k'.keyboard = (drain k.keyboard n).2) : ConsoleEnds k k'
  /-- The end of the input is reported. -/
  | ended {k' : Kernel} (hlen : k.pile.rdx ≠ 0) (hgone : KeysGone k.keyboard)
      (hrep : answer k k' = some 0)
      (hkb : k'.keyboard = { k.keyboard with consoleEof := false }) : ConsoleEnds k k'

lemma sysRead_console (hi : k.idling = false) (hkeys : KeysReal k.keyboard)
    (hf : k.currentFile k.pile.rdi.toNat = some ⟨.console, false⟩) : ConsoleEnds k (sysRead k) := by
  obtain ⟨t, ht, -⟩ := exists_of_currentFile hf
  rw [sysRead, hf]
  refine iteInduction (fun hw => ?_) fun _ => iteInduction (fun hlen => ?_) fun hlen => ?_
  · cases hw
  · exact .nothing (BitVec.eq_of_toNat_eq hlen)
  refine iteInduction (fun _ => .failed rfl failed_reply) fun _ => ?_
  have hpos : 0 < min k.pile.rdx.toNat syscallIoMax :=
    lt_min (Nat.pos_of_ne_zero hlen) (by decide)
  have hmax : min k.pile.rdx.toNat syscallIoMax ≤ syscallIoMax := min_le_right _ _
  have hlen : k.pile.rdx ≠ 0 := fun h => hlen (congrArg BitVec.toNat h)
  generalize min k.pile.rdx.toNat syscallIoMax = n at hpos hmax ⊢
  dsimp only [fileRead]
  by_cases hb : (drain k.keyboard n).1 = []
  · obtain ⟨hgone, hsame⟩ := hkeys.drained hpos hb
    rw [if_neg (not_not_intro hb), hsame]
    by_cases heof : k.keyboard.consoleEof = true
    · rw [if_pos heof]
      exact .ended hlen hgone (answer_reply rfl hi _) rfl
    · rw [if_neg heof, blockTransfer, taskBlock]
      split_ifs
      · exact .failed rfl failed_reply
      · exact .failed ((switchFrame_schedule _).keyboard) (.inl (answer_park hi ht .key))
  · rw [if_pos hb]
    dsimp only
    rw [if_pos hb]
    exact .took n hb ((length_drain_le _ _).trans hmax) (answer_reply rfl hi _)
      (userBytes_store (k := { k with keyboard := (drain k.keyboard n).2 }) ht _ _) rfl

lemma ConsoleEnds.keyFlow (h : ConsoleEnds k k') (hkeys : KeysReal k.keyboard)
    (hcall : SysCall.ofWord k.pile.rax = some .read)
    (hf : k.currentFile k.pile.rdi.toNat = some ⟨.console, false⟩) :
    KeyFlow k.keyboard k'.keyboard (readings k k') ∧
      k'.keyboard.modifiers = k.keyboard.modifiers := by
  have hreadings : readings k k' =
      if reported k k' ≠ 0 then [.got (k'.userBytes k.pile.rsi.toNat (reported k k'))]
      else if answer k k' = some 0 ∧ k.pile.rdx ≠ 0 then [.reported] else [] := by
    rw [readings, if_neg (by simp [hcall]), if_pos ⟨hcall, hf⟩]
  cases h with
  | failed hkb hfail =>
    rw [hfail.no_reading, hkb]
    exact ⟨.still rfl, rfl⟩
  | nothing hlen =>
    rw [hreadings, reported_zero, if_neg (not_not_intro rfl), if_neg fun h => h.2 hlen]
    exact ⟨.still rfl, rfl⟩
  | took n hne hmax hrep hbytes hkb =>
    have hpos : (drain k.keyboard n).1.length ≠ 0 := mt List.length_eq_zero_iff.1 hne
    rw [hreadings, reported_of_answer hmax hrep, if_pos hpos, hbytes, hkb]
    exact ⟨.got _ (pending_drain hkeys n), modifiers_drain _ n⟩
  | ended hlen hgone hrep hkb =>
    have hempty := pending_of_gone hkeys hgone
    have hzero : reported k k' = 0 := reported_of_answer (Nat.zero_le _) hrep
    rw [hreadings, hzero, if_neg (not_not_intro rfl), if_pos ⟨hrep, hlen⟩, hkb]
    exact ⟨.reported hempty hempty, rfl⟩

lemma keyFlow_syscallBody (hi : k.idling = false) (ht : k.currentTask = some t)
    (hkeys : KeysReal k.keyboard) (a : Answers) :
    KeyFlow k.keyboard (syscallBody k a).keyboard (readings k (syscallBody k a)) ∧
      (syscallBody k a).keyboard.modifiers = k.keyboard.modifiers := by
  by_cases hkey : SysCall.ofWord k.pile.rax = some .readkey
  · have hbody : syscallBody k a = sysReadkey k := by rw [syscallBody, hkey]
    rw [hbody]
    exact keyFlow_sysReadkey hi ht hkeys hkey
  by_cases hread : SysCall.ofWord k.pile.rax = some .read
  · have hbody : syscallBody k a = sysRead k := by rw [syscallBody, hread]
    rw [hbody]
    by_cases hf : k.currentFile k.pile.rdi.toNat = some ⟨.console, false⟩
    · exact (sysRead_console hi hkeys hf).keyFlow hkeys hread hf
    · rw [readings, if_neg hkey, if_neg fun h => hf h.2, keyboard_sysRead hf]
      exact ⟨.still rfl, rfl⟩
  · rw [readings, if_neg hkey, if_neg fun h => hread h.1, keyboard_syscallBody k a hkey hread]
    exact ⟨.still rfl, rfl⟩

/-- **Every event is a flow**, and only scancodes change the modifiers. -/
theorem keyboard_handled {e : Event} (ht : k.currentTask = some t) (hkeys : KeysReal k.keyboard)
    (hk : k.handled e = some k') :
    KeyFlow k.keyboard k'.keyboard (observed k e) ∧
      k'.keyboard.modifiers = (e.scancodes.foldl Keyboard.press k.keyboard).modifiers := by
  have hsame : k'.keyboard = k.keyboard → KeyFlow k.keyboard k'.keyboard [] ∧
      k'.keyboard.modifiers = k.keyboard.modifiers := by
    intro h
    rw [h]
    exact ⟨.still rfl, rfl⟩
  have hpress : ∀ c, k'.keyboard = k.keyboard.press c →
      KeyFlow k.keyboard k'.keyboard (observed k (.key c)) ∧
        k'.keyboard.modifiers = (k.keyboard.press c).modifiers := by
    intro c h
    rw [h]
    exact ⟨keyFlow_press hkeys.valid c, rfl⟩
  cases handling_of_handled hk with
  | user | irq => exact hsame rfl
  | syscall a hi hat =>
    simp only [observed, hk]
    exact keyFlow_syscallBody (k := k.enter 0x50 (k.pile.rip + intInstrLen)) hi ht hkeys a
  | timer hi => exact hsame (switches_keyboard.schedule _)
  | key c hi => exact hpress c (keyboard_keyboardCallback _ c)
  | parked hi hirq =>
    have hresume := switches_keyboard.resume (k.pressed e)
    cases e with
    | key c => exact hpress c (hresume.trans (keyboard_keyboardCallback k c))
    | syscall a => exact absurd rfl (hirq a)
    | user | timer | irq => exact hsame hresume

end Kernel

end TownOS
