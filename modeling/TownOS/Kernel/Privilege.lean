import TownOS.Kernel.Handling

/-!
The frames ring 3 is entered with.

Every frame the kernel keeps for a task was forged by `task_register`, saved from the
live pile, or read back from user memory by `signal_sigreturn`. The first two kinds
have the selectors of ring 3, interrupts on and I/O privilege level 0. The third has
whatever privilege level stands in user memory: `signal_sigreturn` forces the selectors
and the interrupt flag, but not that.

* `restoredFrame_userFrame_iff`: when a restored frame is unprivileged;
* `frames_unprivileged`: if every `SYS_SIGRETURN` of a run finds privilege level 0 in the
  saved flags, every frame is unprivileged all along;
* `sigreturn_raises_iopl`: a run in which one does not.
-/

namespace TownOS

open Kernel Runs

/-- A frame that enters ring 3 with interrupts on and without I/O privileges. -/
def Regs.UserFrame (r : Regs) : Prop :=
  r.cs = userCode ∧ r.ss = userData ∧ r.interrupts = true ∧ r.iopl = 0

instance (r : Regs) : Decidable r.UserFrame := inferInstanceAs (Decidable (_ ∧ _ ∧ _ ∧ _))

/-- The flags that `signal_sigreturn` forces leave the privilege level alone. -/
lemma or_userModeRflags_div (w : Word) :
    (w ||| userModeRflags).toNat / 2 ^ 12 = w.toNat / 2 ^ 12 := by
  rw [← Nat.shiftRight_eq_div_pow, ← Nat.shiftRight_eq_div_pow, BitVec.toNat_or,
    Nat.shiftRight_or_distrib, show userModeRflags.toNat >>> 12 = 0 from rfl, Nat.or_zero]

lemma userFrame_forgedFrame (entry : Word) : (forgedFrame entry).UserFrame :=
  ⟨rfl, rfl, show userModeRflags.getLsbD 9 = true by decide,
    show userModeRflags.toNat / 2 ^ 12 % 4 = 0 by decide⟩

/-- Only the privilege level of a restored frame comes from user memory. -/
lemma restoredFrame_userFrame_iff (m : ℕ → UInt8) (ctx : Word) :
    (restoredFrame m ctx).UserFrame ↔ (Regs.load m ctx.toNat).iopl = 0 := by
  unfold restoredFrame
  generalize Regs.load m ctx.toNat = r
  have hif : ({ r with rflags := r.rflags ||| userModeRflags } : Regs).interrupts = true := by
    simp [Regs.interrupts, userModeRflags]
  have hiopl : ({ r with rflags := r.rflags ||| userModeRflags } : Regs).iopl = r.iopl := by
    rw [Regs.iopl, or_userModeRflags_div, Regs.iopl]
  exact ⟨fun h => hiopl ▸ h.2.2.2, fun h => ⟨rfl, rfl, hif, hiopl.trans h⟩⟩

namespace Kernel

/-- All frames of the kernel are unprivileged. -/
structure Unprivileged (k : Kernel) : Prop where
  pile : k.pile.UserFrame
  regs : ∀ i t, k.task i = some t → t.regs.UserFrame

variable {k k' : Kernel}

/-! ### One step -/

lemma Unprivileged.modifyTask (h : Unprivileged k) {i : ℕ} {f : Task → Task}
    (hf : ∀ t, (f t).regs = t.regs) : Unprivileged (k.modifyTask i f) := by
  refine ⟨h.pile, fun j t' ht' => ?_⟩
  rw [task_modifyTask] at ht'
  obtain ⟨t, ht, ⟨-, rfl⟩ | rfl⟩ := task_of_ite ht'
  · rw [hf]
    exact h.regs j t ht
  · exact h.regs j t' ht

lemma Unprivileged.modifyCurrent {f : Task → Task} (h : Unprivileged k)
    (hf : ∀ t, (f t).regs = t.regs) : Unprivileged (k.modifyCurrent f) := h.modifyTask hf

lemma Unprivileged.note (h : Unprivileged k) (x : Note) : Unprivileged (k.note x) :=
  ⟨h.pile, h.regs⟩

lemma Unprivileged.live (h : Unprivileged k) (x : Life) : Unprivileged (k.live x) :=
  ⟨h.pile, h.regs⟩

lemma Unprivileged.calm (h : Unprivileged k) (hc : Calm k k') : Unprivileged k' := by
  refine ⟨hc.pile ▸ h.pile, fun i t' ht' => ?_⟩
  have hd := hc.tasks i
  rw [ht'] at hd
  generalize ho : k.task i = o at hd
  cases hd with
  | same => exact h.regs i t' ho
  | woken t hb => exact h.regs i t ho
  | pending t sig hb => exact h.regs i t ho
  | destroyed t hz => exact h.regs i t ho

lemma Unprivileged.calms (h : Unprivileged k) (hc : Calms k k') : Unprivileged k' := by
  induction hc with
  | refl => exact h
  | tail _ hc ih => exact ih.calm hc

/-- Effects leave the frames alone. -/
lemma Unprivileged.kind (h : Unprivileged k) (hk : Effect.Kind k k') : Unprivileged k' := by
  cases hk with
  | calm hc => exact h.calm hc
  | cut i t sig ht hb => exact (h.note _).modifyTask fun _ => rfl
  | own f hf => exact h.modifyTask fun t => (hf t).regs
  | spawn image pgid fds =>
    refine ⟨h.pile, fun i t ht => ?_⟩
    rw [task_live, task_addTask] at ht
    split_ifs at ht
    · obtain rfl := Option.some.inj ht
      exact userFrame_forgedFrame _
    · exact h.regs i t ht

lemma Unprivileged.effects (h : Unprivileged k) (he : Effects k k') : Unprivileged k' :=
  he.invariant (fun _ _ he h => h.kind he.kind) h

/-- The pile may change outside the selectors and the flags. -/
lemma Unprivileged.setPile (h : Unprivileged k) {r : Regs} (hr : r.UserFrame) :
    Unprivileged (k.setPile r) := ⟨hr, h.regs⟩

lemma Unprivileged.saveCurrent (h : Unprivileged k) : Unprivileged (saveCurrent k) := by
  refine ⟨h.pile, fun j t' ht' => ?_⟩
  rw [Kernel.saveCurrent, Kernel.modifyCurrent, task_modifyTask] at ht'
  obtain ⟨t, ht, ⟨-, rfl⟩ | rfl⟩ := task_of_ite ht'
  · exact h.pile
  · exact h.regs j t' ht

lemma Unprivileged.dispatch (h : Unprivileged k) (next : ℕ) : Unprivileged (dispatch k next) := by
  have h₁ : Unprivileged (k.modifyTask next fun t => { t with state := .running }) :=
    h.modifyTask fun _ => rfl
  rw [Kernel.dispatch]
  refine iteInduction (fun _ => h₁) fun _ => ?_
  split
  · exact h₁
  · exact ⟨h₁.regs next _ ‹_›, h₁.regs⟩

/-- A handler is entered at the same privilege. -/
lemma Unprivileged.enterHandler (h : Unprivileged k) (t : Task) (sig : ℕ) :
    Unprivileged (enterHandler k t sig) := by
  refine ⟨h.pile, fun j t' ht' => ?_⟩
  rw [task_enterHandler] at ht'
  obtain ⟨t, ht, ⟨-, rfl⟩ | rfl⟩ := task_of_ite ht'
  · exact h.regs j t ht
  · exact h.regs j t' ht

lemma switches_unprivileged : Switches (fun k k' => Unprivileged k → Unprivileged k')
    (fun k k' => Unprivileged k → Unprivileged k') where
  refl _ h := h
  trans h h' hk := h' (h hk)
  last h h' hk := h' (h hk)
  weaken h := h
  sweep hs h := h.calm hs.calm
  save _ h := h.saveCurrent
  dispatch _ h := h.dispatch _
  idle _ _ h := ⟨h.pile, h.regs⟩
  close k fd h := h.effects (deeds_closeFd k fd).effects
  bury _ _ h := (h.modifyCurrent fun _ => by rfl).live _
  rouse k p h := h.calms (calms_wakeParent k p)
  condemn _ _ h := h.live _
  clear _ _ h := h.modifyCurrent fun _ => rfl
  checked _ h := ⟨h.pile, h.regs⟩
  handler _ t sig h := h.enterHandler t sig
  reply _ _ h := ⟨h.pile, h.regs⟩
  cut _ h := (h.note _).modifyCurrent fun _ => rfl

/-- A `SYS_SIGRETURN` that finds privilege level 0 in the saved flags. -/
def CleanSigreturn (k : Kernel) : Event → Prop
  | .syscall _ => SysCall.ofWord k.pile.rax = some .sigreturn →
      ∀ t ∈ k.currentTask, t.sigActive = true → (Regs.load t.mem t.sigCtx.toNat).iopl = 0
  | _ => True

instance (k : Kernel) : ∀ e, Decidable (CleanSigreturn k e)
  | .syscall _ => by unfold CleanSigreturn; infer_instance
  | .user _ _ => isTrue trivial
  | .timer => isTrue trivial
  | .key _ => isTrue trivial
  | .irq _ => isTrue trivial

/-- Going back restores what was saved. -/
lemma Unprivileged.goBack (h : Unprivileged k) {t : Task} (ht : k.currentTask = some t)
    (hiopl : (Regs.load t.mem t.sigCtx.toNat).iopl = 0) : Unprivileged (goBack k t) := by
  obtain ⟨r, hr, hgo⟩ := goBack_eq k t
  have hframe : r.UserFrame := hr ht ▸ (restoredFrame_userFrame_iff t.mem t.sigCtx).mpr hiopl
  rw [hgo]
  exact Unprivileged.modifyCurrent ⟨hframe, h.regs⟩ fun _ => rfl

/-- **A step keeps all frames unprivileged**, but for `SYS_SIGRETURN`. -/
lemma Unprivileged.step (h : Unprivileged k) {e : Event} (hclean : CleanSigreturn k e)
    (hk : k.step e = some k') : Unprivileged k' := by
  obtain ⟨k₁, h₁, rfl⟩ := Option.map_eq_some_iff.mp hk
  refine switches_unprivileged.leave k₁ (switches_unprivileged.handled h₁ ?_ ?_ ?_ ?_ h)
  · exact fun _ _ h => ⟨h.pile, h.regs⟩
  · intro r mem hstep h
    obtain ⟨hcs, hss, hiopl, hif⟩ := hstep
    have hr : r.UserFrame :=
      ⟨hcs.trans h.pile.1, hss.trans h.pile.2.1, (hif h.pile.2.2.2).trans h.pile.2.2.1,
        hiopl.trans h.pile.2.2.2⟩
    exact Unprivileged.modifyCurrent ⟨hr, h.regs⟩ fun _ => rfl
  · exact fun hp h => h.effects hp.one.asides.effects
  · rintro a w k₂ rfl hends
    refine switches_unprivileged.ends hends (fun hd h => h.effects hd.effects) ?_ ?_
    · intro k₃ reason kb hr hb h
      have h₃ := h.effects (Asides.effects (hr.asides.trans hb.asides))
      exact Unprivileged.setPile ((h₃.modifyCurrent fun _ => by rfl).note _) h₃.pile
    · exact fun ht hact _ hcall h => h.goBack ht (hclean hcall _ ht hact)

/-! ### Runs -/

lemma unprivileged_boot (image : Image) (r : Regs) : Unprivileged (boot image r) := by
  have hframe := userFrame_forgedFrame image.entry
  refine ⟨hframe, fun i t ht => ?_⟩
  cases i with
  | zero =>
    obtain rfl := Option.some.inj ht
    exact hframe
  | succ i => simp [task, boot] at ht

/-- **Privileges.** From boot on, whatever programs do and however the events are
interleaved: as long as every `SYS_SIGRETURN` finds privilege level 0 in the saved flags, the
live pile and the saved frames of all tasks enter ring 3 without privileges. -/
theorem frames_unprivileged (image : Image) (r : Regs) {es : List Event} {k : Kernel}
    (hrun : Runs.exec Kernel.step (boot image r) es = some k)
    (hclean : Along Kernel.step CleanSigreturn (boot image r) es) :
    k.pile.UserFrame ∧
      ∀ i t, k.task i = some t → t.state = .ready ∨ t.state = .blocked → t.regs.UserFrame := by
  have h : Unprivileged k :=
    exec_invariant (fun _ _ _ hs hC hstep => hs.step hC hstep) hrun hclean (unprivileged_boot _ _)
  exact ⟨h.pile, fun i t ht _ => h.regs i t ht⟩

end Kernel

/-! ### A handler that raises its privilege level -/

/-- A program with `int 0x50` at one address. -/
def intMem : ℕ → UInt8 := fun a => if a = 0x400100 then 0xCD else if a = 0x400101 then 0x50 else 0

/-- The program a machine is booted with. -/
def intImage : Image := ⟨0x400000, 0, intMem⟩

/-- Nothing is asked of the file system or the allocators. -/
def noAnswers : Answers := ⟨fun _ => true, none, true, ⟨false, 0, []⟩⟩

/-- Ring 3 loads the registers of a system call and jumps to the `int`. -/
def loadCall (rax rdi rsi rdx userRsp : Word) (mem : ℕ → UInt8) : Event :=
  .user { forgedFrame 0x400100 with
    rax := rax, rdi := rdi, rsi := rsi, rdx := rdx, userRsp := userRsp } mem

/-- A program installs a handler for `SIG_INT` and raises the signal on itself; the handler
rewrites the saved registers, with `scribble` as the second byte of the flags, and returns. -/
def handlerRun (scribble : UInt8) : List Event :=
  [loadCall 14 2 0x400010 0x400020 0x800000 intMem, .syscall noAnswers,
    loadCall 15 0 2 0 0x800000 intMem, .syscall noAnswers,
    loadCall 16 0 0 0 0x7FFEC8 fun a => if a = 0x7FFED0 + 153 then scribble else intMem a,
    .syscall noAnswers]

/-- A handler that leaves the privilege level alone. -/
theorem frames_unprivileged_handlerRun :
    ∃ k, Runs.exec Kernel.step (boot intImage {}) (handlerRun 0x02) = some k ∧
      k.pile.UserFrame := by
  have hrun : (Runs.exec Kernel.step (boot intImage {}) (handlerRun 0x02)).isSome = true := by
    decide +kernel
  obtain ⟨k, hk⟩ := Option.isSome_iff_exists.mp hrun
  exact ⟨k, hk, (frames_unprivileged intImage {} hk (by decide +kernel)).1⟩

/-- The handler has set the bits: the program goes on with I/O privilege level 3. -/
theorem sigreturn_raises_iopl :
    ∃ k, Runs.exec Kernel.step (boot intImage {}) (handlerRun 0x32) = some k ∧ k.idling = false ∧
      k.pile.cs = userCode ∧ k.pile.iopl = 3 := by
  have hrun : (Runs.exec Kernel.step (boot intImage {}) (handlerRun 0x32)).any (fun k =>
      k.idling = false ∧ k.pile.cs = userCode ∧ k.pile.iopl = 3) = true := by
    decide +kernel
  obtain ⟨k, hk, h⟩ := Option.any_eq_true _ _ |>.mp hrun
  exact ⟨k, hk, of_decide_eq_true h⟩

end TownOS
