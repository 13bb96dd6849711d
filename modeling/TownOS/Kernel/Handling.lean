import TownOS.Kernel.Endings

/-!
The ways through the kernel.

There are only a few ways through the functions that handle an event: `Handling`, `Resumed` and
`Checked` say which. A relation between the states of the kernel that the pieces of these functions
respect is one that the whole functions respect. `Exits R S` and `Switches R S` are the lists of the
pieces: `R` holds from the state before a piece to the state after it, and `S`, which may say less,
still holds once another task has been put on the CPU.

* `handling_of_handled`, `resume_resumed`, `checkSignals_checked`, `leave_cases`: the ways;
* `Exits.schedule`, `Exits.taskExit`, `Switches.leave`: the switch, exits and the way out;
* `Exits.ends`, `Exits.calls`, `Switches.handled`: system calls, and all events.
-/

namespace TownOS

namespace Kernel

open Relation Runs

variable {k k' : Kernel} {e : Event}

/-! ### The ways -/

/-- What a key press does while the CPU is parked, before the loop of `idle_until_runnable`
looks again. -/
def pressed (k : Kernel) : Event → Kernel
  | .key c => keyboardCallback k c
  | _ => k

lemma presses_pressed (k : Kernel) (e : Event) : Presses k (k.pressed e) := by
  cases e with
  | key c => exact presses_keyboardCallback k c
  | user | syscall | timer | irq => exact .refl

/-- How an event is handled, in ring 3 and while the CPU is parked. -/
inductive Handling (k : Kernel) : Event → Kernel → Prop
  | user (r : Regs) (mem : ℕ → UInt8) (hi : k.idling = false) (hstep : k.pile.UserStep r)
      (hat : ¬AtInt k.mem k.pile.rip) : Handling k (.user r mem) (k.userStep r mem)
  | syscall (a : Answers) (hi : k.idling = false) (hat : AtInt k.mem k.pile.rip) :
      Handling k (.syscall a) (syscallBody (k.enter 0x50 (k.pile.rip + intInstrLen)) a)
  | timer (hi : k.idling = false) : Handling k .timer (schedule (k.enter 0x40 k.pile.rip))
  | key (c : UInt8) (hi : k.idling = false) :
      Handling k (.key c) (keyboardCallback (k.enter 0x41 k.pile.rip) c)
  | irq (v : Word) (hi : k.idling = false) : Handling k (.irq v) (k.enter v k.pile.rip)
  | parked {e : Event} (hi : k.idling = true) (hirq : ∀ a, e ≠ .syscall a) :
      Handling k e (resume (k.pressed e))

lemma handling_of_handled (hk : k.handled e = some k') : Handling k e k' := by
  cases e with
  | user r mem =>
    obtain ⟨⟨hi, hstep, hat⟩, hk⟩ := Option.ite_none_right_eq_some.mp hk
    exact Option.some.inj hk ▸ .user r mem (by simpa using hi) hstep hat
  | syscall a =>
    obtain ⟨⟨hi, hat⟩, hk⟩ := Option.ite_none_right_eq_some.mp hk
    exact Option.some.inj hk ▸ .syscall a (by simpa using hi) hat
  | timer | key | irq =>
    obtain rfl := Option.some.inj hk
    cases hi : k.idling with
    | true => exact .parked hi nofun
    | false => constructor; exact hi

/-- While the CPU is parked, the loop looks again. -/
lemma handled_of_idling (hi : k.idling = true) (hk : k.handled e = some k') :
    k' = resume (k.pressed e) := by
  cases handling_of_handled hk with
  | parked => rfl
  | user r mem hi' | syscall a hi' | timer hi' | key c hi' | irq v hi' => cases hi'.symm.trans hi

/-- How the loop of `idle_until_runnable` goes on. -/
inductive Resumed (k : Kernel) : Kernel → Prop
  | stays (hn : ¬anyTaskReady k = true) : Resumed k k
  | switched {next : ℕ} (hn : findNextReady { k with idling := false } k.current = some next) :
      Resumed k (dispatch { k with idling := false } next)

lemma resume_resumed (k : Kernel) : Resumed k (resume k) := by
  rw [resume]
  by_cases hany : anyTaskReady k = true
  · rw [if_pos hany]
    dsimp only
    cases hn : findNextReady { k with idling := false } k.current with
    | none => exact absurd hn (findNextReady_ne_none (k := { k with idling := false }) hany _)
    | some next => exact .switched hn
  · rw [if_neg hany]
    exact .stays hany

/-- How `check_signals` ends. -/
inductive Checked (k : Kernel) : Kernel → Prop
  | stays : Checked k k
  /-- A pending signal ends the running task. -/
  | killed {t : Task} {sig : ℕ} (ht : k.currentTask = some t) (hact : t.sigActive = false)
      (hsig : lowestPending t = some sig) (hh : t.sigHandlers sig = 0 ∨ sig = sigKill) :
      Checked k (endBySignal (k.modifyCurrent fun t => clearPending t sig) sig)
  /-- There is no room for the signal frame. -/
  | unfit : Checked k (endBySignal k sigSegv)
  | enters {t : Task} {sig : ℕ} (ht : k.currentTask = some t) (hact : t.sigActive = false)
      (hsig : lowestPending t = some sig) (hh : ¬ (t.sigHandlers sig = 0 ∨ sig = sigKill))
      (hok : userRangeOk (signalFrame k.pile.userRsp) (BitVec.ofNat 64 (sizeofRegs + 8)) = true) :
      Checked k (enterHandler k t sig)

lemma checkSignals_checked (k : Kernel) : Checked k (checkSignals k) := by
  rw [checkSignals]
  refine iteInduction (fun _ => .stays) fun _ => ?_
  cases ht : k.currentTask with
  | none => exact .stays
  | some t =>
    refine iteInduction (fun _ => .stays) fun _ => iteInduction (fun _ => .stays) fun hact => ?_
    have hact : t.sigActive = false := Bool.eq_false_iff.mpr hact
    cases hsig : lowestPending t with
    | none => exact .stays
    | some sig =>
      refine iteInduction (fun hh => .killed ht hact hsig hh) fun hh => ?_
      rw [deliverToHandler]
      exact iteInduction (fun _ => .unfit) fun hok =>
        .enters ht hact hsig hh (by simpa using hok)

/-- The way out of the kernel leads through `check_signals`, if a call of it is due. -/
lemma leave_cases (k : Kernel) : leave k = k ∨
    k.idling = false ∧ Checked { k with checkDue := false } (leave k) := by
  rw [leave]
  by_cases hstay : k.idling = true ∨ (!k.checkDue) = true
  · exact .inl (if_pos hstay)
  · rw [if_neg hstay]
    exact .inr ⟨by simpa using fun h => hstay (.inl h), checkSignals_checked _⟩

/-! ### The rule -/

/-- The pieces of a switch and of the ends of a system call. -/
structure Exits (R S : Kernel → Kernel → Prop) : Prop where
  refl : ∀ k, R k k
  trans : ∀ {k k₁ k'}, R k k₁ → R k₁ k' → R k k'
  last : ∀ {k k₁ k'}, R k k₁ → S k₁ k' → S k k'
  weaken : ∀ {k k'}, R k k' → S k k'
  sweep : ∀ {k k'}, Sweep k k' → R k k'
  save : ∀ k, R k (saveCurrent k)
  dispatch : ∀ {k next}, k.isReady next → S k (dispatch k next)
  idle : ∀ k b, R k { k with idling := b }
  close : ∀ k fd, R k (closeFd k fd)
  bury : ∀ k status, R k (bury k status)
  rouse : ∀ k p, R k (wakeParent k p)
  condemn : ∀ k sig, R k (k.live (.condemned k.current sig))
  reply : ∀ k v, R k (k.reply v)
  cut : ∀ k, R k (interrupt k)

namespace Exits

variable {R S : Kernel → Kernel → Prop} (h : Exits R S)

include h

lemma sweeps (hs : Sweeps k k') : R k k' := by
  induction hs with
  | refl => exact h.refl _
  | tail _ hs ih => exact h.trans ih (h.sweep hs)

theorem schedule (k : Kernel) : S k (schedule k) := by
  have hsched := schedule_scheduled k
  generalize Kernel.schedule k = k' at hsched ⊢
  cases hsched with
  | idle => exact h.weaken (h.refl k)
  | gone hs => exact h.weaken (h.sweeps hs)
  | switched hs hr => exact h.last (h.trans (h.sweeps hs) (h.save _)) (h.dispatch hr)
  | parked hs => exact h.weaken (h.trans (h.trans (h.sweeps hs) (h.save _)) (h.idle _ true))

theorem resume (k : Kernel) : S k (resume k) := by
  have hresumed := resume_resumed k
  generalize Kernel.resume k = k' at hresumed ⊢
  cases hresumed with
  | stays => exact h.weaken (h.refl k)
  | switched hn => exact h.last (h.idle k false) (h.dispatch (isReady_of_findNextReady hn))

theorem taskExit (k : Kernel) (status : ℕ) : S k (taskExit k status) := by
  have hclosed : R k (closeAll k) :=
    List.foldlRecOn _ closeFd (h.refl k) fun k₁ hk fd _ => h.trans hk (h.close k₁ fd)
  rw [Kernel.taskExit]
  exact h.last (h.trans (h.trans hclosed (h.bury _ status)) (h.rouse _ _)) (h.schedule _)

theorem endBySignal (k : Kernel) (sig : ℕ) : S k (endBySignal k sig) :=
  h.last (h.condemn k sig) (h.taskExit _ _)

/-- Deeds for one call, which is the same all the time. -/
lemma deeds {Q : Option SysCall → Prop}
    (hdeed : ∀ {s s'}, Deed s s' → Q (SysCall.ofWord s.2.pile.rax) → R s.2 s'.2)
    (hQ : Q (SysCall.ofWord k.pile.rax)) (hd : Deeds k k') : R k k' := by
  refine (HeldDeeds.invariant (P := fun x => x.pile = k.pile ∧ R k x) hd (fun s s' hs hk => ?_)
    ⟨rfl, h.refl k⟩).2
  exact ⟨(HeldEffects.frame hs.effects).1.trans hk.1, h.trans hk.2 (hdeed hs (hk.1 ▸ hQ))⟩

/-- System calls that do not put the caller to sleep. -/
theorem ends_or_parked {w : Bool} (he : Ends k w k') (hdeeds : ∀ {k₁}, Deeds k k₁ → R k k₁)
    (hback : ∀ {t}, k.currentTask = some t → t.sigActive = true →
      userRangeOk t.sigCtx (BitVec.ofNat 64 sizeofRegs) = true →
      SysCall.ofWord k.pile.rax = some .sigreturn → R k (goBack k t)) :
    S k k' ∨ ∃ k₁ reason kb, Reads k k₁ ∧ Blocks k₁ reason kb ∧
      k' = Kernel.schedule (park { k₁ with keyboard := kb } reason) := by
  cases he with
  | served v hd => exact .inl (h.weaken (h.trans (hdeeds hd) (h.reply _ v)))
  | interrupted hr hb hc =>
    have hcut := h.trans (hdeeds (hr.deeds.trans hb.deeds)) (h.cut _)
    exact .inl (h.weaken (h.trans hcut (h.reply _ _)))
  | parked hr hb hc => exact .inr ⟨_, _, _, hr, hb, rfl⟩
  | exited hcall => exact .inl (h.taskExit k _)
  | ended => exact .inl (h.endBySignal k _)
  | wentBack ht hact hok hcall => exact .inl (h.weaken (hback ht hact hok hcall))
  | gone hn => exact .inl (h.weaken (h.refl k))

/-- System calls. -/
theorem ends {w : Bool} (he : Ends k w k') (hdeeds : ∀ {k₁}, Deeds k k₁ → R k k₁)
    (hpark : ∀ {k₁ reason kb}, Reads k k₁ → Blocks k₁ reason kb →
      R k (park { k₁ with keyboard := kb } reason))
    (hback : ∀ {t}, k.currentTask = some t → t.sigActive = true →
      userRangeOk t.sigCtx (BitVec.ofNat 64 sizeofRegs) = true →
      SysCall.ofWord k.pile.rax = some .sigreturn → R k (goBack k t)) : S k k' := by
  obtain hs | ⟨k₁, reason, kb, hr, hb, rfl⟩ := h.ends_or_parked he hdeeds hback
  · exact hs
  · exact h.last (hpark hr hb) (h.schedule _)

/-- System calls, if it suffices to look at one deed at a time. -/
theorem calls (Q : Option SysCall → Prop) {w : Bool} (he : Ends k w k')
    (hQ : Q (SysCall.ofWord k.pile.rax))
    (hdeed : ∀ {s s'}, Deed s s' → Q (SysCall.ofWord s.2.pile.rax) → R s.2 s'.2)
    (hpark : ∀ k reason, R k (park k reason))
    (hback : ∀ {t}, k.currentTask = some t → t.sigActive = true →
      userRangeOk t.sigCtx (BitVec.ofNat 64 sizeofRegs) = true →
      SysCall.ofWord k.pile.rax = some .sigreturn → R k (goBack k t)) : S k k' :=
  h.ends he (h.deeds hdeed hQ)
    (fun hr hb => h.trans (h.deeds hdeed hQ (hr.deeds.trans hb.deeds)) (hpark _ _)) hback

end Exits

/-- With those of a delivery. -/
structure Switches (R S : Kernel → Kernel → Prop) : Prop extends Exits R S where
  clear : ∀ k sig, R k (k.modifyCurrent fun t => clearPending t sig)
  checked : ∀ k, R k { k with checkDue := false }
  handler : ∀ k t sig, R k (enterHandler k t sig)

namespace Switches

variable {R S : Kernel → Kernel → Prop} (h : Switches R S)

include h

theorem leave (k : Kernel) : S k (leave k) := by
  obtain hstay | ⟨-, hchecked⟩ := leave_cases k
  · rw [hstay]
    exact h.weaken (h.refl k)
  refine h.last (h.checked k) ?_
  generalize ({ k with checkDue := false } : Kernel) = k₁ at hchecked ⊢
  generalize Kernel.leave k = k' at hchecked ⊢
  cases hchecked with
  | stays => exact h.weaken (h.refl k₁)
  | @killed t sig => exact h.last (h.clear k₁ sig) (h.endBySignal _ sig)
  | unfit => exact h.endBySignal k₁ _
  | enters => exact h.weaken (h.handler k₁ _ _)

/-- All events. -/
theorem handled (hk : k.handled e = some k') (henter : ∀ vector rip, R k (k.enter vector rip))
    (huser : ∀ {r} mem, k.pile.UserStep r → R k (k.userStep r mem))
    (hpress : ∀ {k₁ k₂}, Press k₁ k₂ → R k₁ k₂)
    (hcall : ∀ {a w k₁}, e = .syscall a →
      Ends (k.enter 0x50 (k.pile.rip + intInstrLen)) w k₁ →
        S (k.enter 0x50 (k.pile.rip + intInstrLen)) k₁) : S k k' := by
  have hpresses : ∀ {k₁ k₂}, Presses k₁ k₂ → R k₁ k₂ := fun {k₁ k₂} hp => by
    induction hp with
    | refl => exact h.refl _
    | tail _ hp ih => exact h.trans ih (hpress hp)
  cases handling_of_handled hk with
  | user r mem hi hstep hat => exact h.weaken (huser mem hstep)
  | syscall a hi hat => exact h.last (henter _ _) (hcall rfl (syscallBody_ends _ a))
  | timer hi => exact h.last (henter _ _) (h.schedule _)
  | key c hi => exact h.weaken (h.trans (henter _ _) (hpresses (presses_keyboardCallback _ c)))
  | irq v hi => exact h.weaken (henter _ _)
  | parked hi hirq => exact h.last (hpresses (presses_pressed k e)) (h.resume _)

end Switches

end Kernel

end TownOS
