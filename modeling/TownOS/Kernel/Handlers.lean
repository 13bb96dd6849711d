import TownOS.Kernel.Actions
import TownOS.Kernel.Delivery

/-!
Handlers from their entry to their return (`kernel/signal.c`).

`deliver_to_handler` saves the registers in user memory and `signal_sigreturn` loads them again.
Between the two anything may happen: the handler runs, other tasks run, signals arrive. But
no other handler of the task is entered, and the place of the saved registers stays what it
was; so what is loaded is what was saved, unless the program has changed it.

* `load_bytes`: registers stored in memory are read back;
* `Action.signals`: an action changes how a task stands with signals only by entering a
  handler, returning from one or ending the task;
* `signals_transparent`: a handler that returns leaves no trace in the registers.
-/

namespace TownOS

/-! ### Registers in memory -/

lemma getElem?_flatMap_of_length {α β : Type} {f : α → List β} {n : ℕ}
    (hlen : ∀ a, (f a).length = n) (l : List α) (i : ℕ) {j : ℕ} (hj : j < n) :
    (l.flatMap f)[n * i + j]? = l[i]?.bind fun a => (f a)[j]? := by
  induction l generalizing i with
  | nil => simp
  | cons a l ih =>
    rw [List.flatMap_cons]
    cases i with
    | zero =>
      rw [Nat.mul_zero, Nat.zero_add, List.getElem?_append_left (by rw [hlen]; exact hj)]
      rfl
    | succ i =>
      rw [List.getElem?_append_right (by rw [hlen]; nlinarith), hlen,
        show n * (i + 1) + j - n = n * i + j by rw [Nat.mul_succ]; omega, ih]
      rfl

/-- A word stored in memory is read back. -/
lemma loadWord_of_bytes {m : ℕ → UInt8} {a : ℕ} {w : Word}
    (h : ∀ j < 8, m (a + j) = Bytes.byteOf w.toNat j) : loadWord m a = w := by
  rw [loadWord, Bytes.leNat_of_bytes h, Nat.mod_eq_of_lt (show w.toNat < 256 ^ 8 from w.isLt),
    BitVec.ofNat_toNat]
  exact BitVec.setWidth_eq w

lemma getElem?_wordBytes (w : Word) {j : ℕ} (hj : j < 8) :
    (wordBytes w)[j]? = some (Bytes.byteOf w.toNat j) := by
  rw [wordBytes, List.getElem?_map, List.getElem?_range hj]
  rfl

lemma loadWord_storeAt (m : ℕ → UInt8) (a : ℕ) (w : Word) :
    loadWord (Bytes.storeAt m a (wordBytes w)) a = w :=
  loadWord_of_bytes fun _ hj => Bytes.storeAt_leBytes hj

lemma ofWords_words (r : Regs) : Regs.ofWords (fun i => r.words.getD i 0) = r := rfl

/-- Registers stored in memory are read back. -/
lemma load_bytes (m : ℕ → UInt8) (a : ℕ) (r : Regs) :
    Regs.load (Bytes.storeAt m a r.bytes) a = r := by
  rw [Regs.load]
  refine (ofWords_congr fun i hi => loadWord_of_bytes fun j hj => ?_).trans (ofWords_words r)
  have hi' : i < r.words.length := hi
  rw [Nat.add_assoc]
  refine Bytes.storeAt_inside ?_
  rw [Regs.bytes, getElem?_flatMap_of_length length_wordBytes _ _ hj, List.getElem?_eq_getElem hi',
    List.getD_eq_getElem?_getD, List.getElem?_eq_getElem hi']
  exact getElem?_wordBytes _ hj

namespace Kernel

open Relation Runs

variable {C : Kernel → Prop} {k k' k₁ : Kernel} {i : ℕ}

/-! ### Deeds -/

/-- A change of the running task that leaves its signals alone too. -/
structure Plain (t t' : Task) : Prop extends Own t t' where
  sigPending : t'.sigPending = t.sigPending
  sigCtx : t'.sigCtx = t.sigCtx

/-- A deed is calm, or cuts a call short, or changes the running task, or starts one. -/
inductive Deed.Kind (k : Kernel) : Kernel → Prop
  | calm {k' : Kernel} (hc : Calm k k') : Kind k k'
  | cut (i : ℕ) (t : Task) (sig : ℕ) (ht : k.task i = some t) (hb : t.state = .blocked) :
      Kind k ((k.note (.cut i t.regs.cpu)).modifyTask i (cutTask sig))
  | plain {k' : Kernel} (f : Task → Task) (hf : ∀ t, Plain t (f t)) (hpile : k'.pile = k.pile)
      (hcur : k'.current = k.current) (hcalls : k'.calls = k.calls)
      (htasks : k'.tasks = (k.modifyCurrent f).tasks) : Kind k k'
  | spawn (image : Image) (pgid : ℕ) (fds : ℕ → Option File) :
      Kind k ((k.addTask (freshTask image k.tasks.length (some k.current) pgid fds)).live
        (.registered k.tasks.length (some k.current)))

lemma Press.kind (hp : Press k k') : Deed.Kind k k' := by
  rcases hp.calm_or_cut with hc | ⟨i, t, sig, ht, hb, rfl⟩
  · exact .calm hc
  · exact .cut i t sig ht hb

lemma Deed.kind {s s' : Multiset File × Kernel} (hd : Deed s s') : Deed.Kind s.2 s'.2 := by
  have hwake : ∀ {k : Kernel} (p : ℕ) (x : Option Pipe) (reason : WaitReason),
      Deed.Kind k (schedulerWake (k.setPipe p x) reason) := fun p x reason =>
    .calm ((calm_schedulerWake _ reason).of_devices rfl rfl rfl rfl rfl rfl)
  have hsame : ∀ {k k' : Kernel}, k'.tasks = k.tasks → k'.pile = k.pile →
      k'.current = k.current → k'.idling = k.idling → k'.checkDue = k.checkDue →
      k'.calls = k.calls → Deed.Kind k k' := fun htasks hpile hcur hidle hdue hcalls =>
    .calm ((Calm.refl _).of_devices htasks hpile hcur hidle hdue hcalls)
  cases hd with
  | raise h k id sig => exact (Press.raise k id sig).kind
  | getKey | eofTaken | newPipe | dropPipe | foreground | read =>
    exact hsame rfl rfl rfl rfl rfl rfl
  | took h k p n hcall hf hpos hn => exact hwake p _ _
  | gave h k p l hcall hf hr hl => exact hwake p _ _
  | collect h k i hcall ht hz hp => exact .calm (calm_collect ht hz)
  | store h k addr bytes hin =>
    refine .plain (fun t => { t with mem := Bytes.storeAt t.mem addr bytes }) ?_ rfl rfl rfl rfl
    exact fun _ => ⟨by constructor <;> rfl, rfl, rfl⟩
  | install | map | unmap =>
    refine .plain _ ?_ rfl rfl rfl rfl
    exact fun _ => ⟨by constructor <;> rfl, rfl, rfl⟩
  | dup h k fd f hf => exact .calm (calm_countEnd k f)
  | openEnd h k p writable hp => exact .calm (calm_countEnd k ⟨.pipe p, writable⟩)
  | put h k fd f hfd hfree =>
    exact .plain _ (fun t => ⟨own_setFd fd (some f) t, rfl, rfl⟩) rfl rfl rfl rfl
  | take h k fd f hf =>
    exact .plain _ (fun t => ⟨own_setFd fd none t, rfl, rfl⟩) rfl rfl rfl rfl
  | close h k f => exact .calm (calm_fileClose k f)
  | spawn h k image pgid inSrc outSrc => exact .spawn image pgid _

/-! ### Notes -/

/-- What is noted between two states; if it is that a handler is entered, `E` holds. -/
def Notes (E : ℕ → Prop) (k k' : Kernel) : Prop :=
  ∃ notes, k'.calls = k.calls ++ notes ∧ ∀ id frame, Note.entered id frame ∈ notes → E id

variable {E : ℕ → Prop}

lemma Notes.of_eq (h : k'.calls = k.calls) : Notes E k k' :=
  ⟨[], by rw [h, List.append_nil], nofun⟩

lemma Notes.of_note {x : Note} (h : k'.calls = k.calls ++ [x])
    (hx : ∀ id frame, x = .entered id frame → E id) : Notes E k k' :=
  ⟨[x], h, fun id frame hmem => hx id frame (List.mem_singleton.mp hmem).symm⟩

lemma Notes.trans (h : Notes E k k₁) (h' : Notes E k₁ k') : Notes E k k' := by
  obtain ⟨notes, heq, hn⟩ := h
  obtain ⟨notes', heq', hn'⟩ := h'
  refine ⟨notes ++ notes', by rw [heq', heq, List.append_assoc], fun id frame hmem => ?_⟩
  rcases List.mem_append.mp hmem with hmem | hmem
  · exact hn id frame hmem
  · exact hn' id frame hmem

lemma Deed.Kind.notes (hd : Deed.Kind k k') : Notes E k k' := by
  cases hd with
  | calm hc => exact .of_eq hc.calls
  | cut i t sig ht hb => exact .of_note (x := .cut i t.regs.cpu) rfl nofun
  | plain f hf hpile hcur hcalls htasks => exact .of_eq hcalls
  | spawn image pgid fds => exact .of_eq rfl

lemma HeldDeeds.notes {s s' : Multiset File × Kernel} (hd : HeldDeeds s s') : Notes E s.2 s'.2 :=
  HeldDeeds.invariant (P := fun x => Notes E s.2 x) hd (fun _ _ hd h => h.trans hd.kind.notes)
    (.of_eq rfl)

/-- `check_signals` is going to enter a handler of the running task. -/
def Enters (k : Kernel) : Prop :=
  ∃ t sig, k.currentTask = some t ∧ t.sigActive = false ∧ lowestPending t = some sig ∧
    ¬(t.sigHandlers sig = 0 ∨ sig = sigKill)

/-- A handler is entered only if `check_signals` says so. -/
lemma Action.notes {s s' : Stage × Kernel} (ha : Action C s s') :
    Notes (fun id => s.1 = .busy 0 ∧ C s.2 ∧ Enters s.2 ∧ s.2.current = id) s.2 s'.2 := by
  cases ha with
  | enterHandler k hC ht hact hsig hh hok =>
    refine .of_note (x := .entered k.current k.pile.cpu) rfl fun id frame heq => ?_
    exact ⟨rfl, hC, ⟨_, _, ht, hact, hsig, hh⟩, (Note.entered.inj heq).1⟩
  | deed hd => exact hd.kind.notes
  | press hs hp => exact hp.kind.notes
  | enter | user | checked | exits | condemned | killed | bury | lost | save | rest | stir =>
    exact .of_eq rfl
  | reply k v => exact .of_note (x := .served k.current k.pile.issued v) rfl nofun
  | interrupt k hc => exact .of_note (x := .interrupted k.current k.pile.issued) rfl nofun
  | goBack k ht hact hok =>
    obtain ⟨f, hf⟩ := (goBack_goesBack k _).calls
    exact .of_note hf nofun
  | shut k fd => exact HeldDeeds.notes (deeds_closeFd k fd)
  | rouse k => exact .of_eq (calms_wakeParent k _).calls
  | park k hb hc => exact .of_note (x := .parked k.current k.pile.issued) rfl nofun
  | sweep hp hs => exact .of_eq hs.calm.calls
  | dispatch k hr =>
    obtain ⟨t, ht, -⟩ := exists_of_isReady hr
    exact .of_eq (dispatch_dispatched ht).calls

/-! ### How a task stands with signals -/

/-- Signals have been raised at most, and no handler has been entered or left. -/
structure Undisturbed (t t' : Task) : Prop where
  sigPending : ∀ n, t.sigPending.getLsbD n = true → t'.sigPending.getLsbD n = true
  sigActive : t'.sigActive = t.sigActive
  sigCtx : t'.sigCtx = t.sigCtx

lemma undisturbed_setPending (t : Task) (sig : ℕ) : Undisturbed t (setPending t sig) :=
  ⟨fun n h => by rw [setPending, BitVec.getLsbD_or, h, Bool.true_or], rfl, rfl⟩

/-- The task in a slot stands as it did, if it is still there. -/
structure Spares (i : ℕ) (k k' : Kernel) : Prop where
  grows : k.tasks.length ≤ k'.tasks.length
  task : i < k.tasks.length → ∀ t', k'.task i = some t' → ∃ t, k.task i = some t ∧ Undisturbed t t'

lemma Spares.of_tasks (htasks : k'.tasks = k.tasks) : Spares i k k' := by
  refine ⟨(congrArg _ htasks).ge, fun _ t' ht' => ⟨t', ?_, fun _ h => h, rfl, rfl⟩⟩
  rw [Kernel.task, ← htasks]
  exact ht'

lemma Spares.trans (h : Spares i k k₁) (h' : Spares i k₁ k') : Spares i k k' := by
  refine ⟨h.grows.trans h'.grows, fun hi t' ht' => ?_⟩
  obtain ⟨t₁, ht₁, hu'⟩ := h'.task (hi.trans_le h.grows) t' ht'
  obtain ⟨t, ht, hu⟩ := h.task hi t₁ ht₁
  exact ⟨t, ht, fun n hn => hu'.sigPending n (hu.sigPending n hn), hu'.sigActive.trans hu.sigActive,
    hu'.sigCtx.trans hu.sigCtx⟩

lemma spares_modifyTask {j : ℕ} {f : Task → Task} (hf : ∀ t, Undisturbed t (f t)) :
    Spares i k (k.modifyTask j f) := by
  refine ⟨(List.length_modify ..).ge, fun _ t' ht' => ?_⟩
  rw [task_modifyTask] at ht'
  obtain ⟨t, ht, ⟨-, rfl⟩ | rfl⟩ := task_of_ite ht'
  · exact ⟨t, ht, hf t⟩
  · exact ⟨t', ht, fun _ h => h, rfl, rfl⟩

/-- What happens to the running task is another task's business. -/
lemma spares_modifyCurrent {f : Task → Task} (hi : k.current ≠ i) :
    Spares i k (k.modifyCurrent f) := by
  refine ⟨(List.length_modify ..).ge, fun _ t' ht' => ⟨t', ?_, fun _ h => h, rfl, rfl⟩⟩
  rwa [modifyCurrent, task_modifyTask_of_ne hi.symm] at ht'

lemma Calm.spares (hc : Calm k k') : Spares i k k' := by
  refine ⟨hc.length.ge, fun _ t' ht' => ?_⟩
  obtain ⟨t, ht, hd⟩ := hc.drift ht'
  refine ⟨t, ht, ?_⟩
  cases hd with
  | same => exact ⟨fun _ h => h, rfl, rfl⟩
  | woken t hb => exact ⟨fun _ h => h, rfl, rfl⟩
  | pending t sig hb => exact undisturbed_setPending t sig
  | destroyed t hz => exact ⟨fun _ h => h, rfl, rfl⟩

lemma Calms.spares (hc : Calms k k') : Spares i k k' := by
  induction hc with
  | refl => exact .of_tasks rfl
  | tail _ hc ih => exact ih.trans hc.spares

/-- Deeds leave the handlers of all tasks alone. -/
lemma Deed.Kind.spares (hd : Deed.Kind k k') : Spares i k k' := by
  cases hd with
  | calm hc => exact hc.spares
  | cut j t sig ht hb =>
    have hnote : Spares i k (k.note (.cut j t.regs.cpu)) := .of_tasks rfl
    refine hnote.trans (spares_modifyTask fun t => ?_)
    have hp := undisturbed_setPending t sig
    exact ⟨hp.sigPending, rfl, rfl⟩
  | plain f hf hpile hcur hcalls htasks =>
    have hmod : Spares i k (k.modifyCurrent f) := spares_modifyTask fun t =>
      ⟨fun n h => by rwa [(hf t).sigPending], (hf t).sigActive, (hf t).sigCtx⟩
    exact hmod.trans (.of_tasks htasks)
  | spawn image pgid fds =>
    refine ⟨?_, fun hi t' ht' => ⟨t', ?_, fun _ h => h, rfl, rfl⟩⟩
    · exact (Nat.le_add_right k.tasks.length _).trans (List.length_append ..).ge
    · rwa [task_live, task_addTask, if_neg hi.ne] at ht'

lemma HeldDeeds.spares {s s' : Multiset File × Kernel} (hd : HeldDeeds s s') :
    Spares i s.2 s'.2 :=
  HeldDeeds.invariant (P := fun x => Spares i s.2 x) hd (fun _ _ hd h => h.trans hd.kind.spares)
    (.of_tasks rfl)

/-- Only the running task changes. -/
lemma spares_of_ne (hlen : k'.tasks.length = k.tasks.length) (htask : k'.task i = k.task i) :
    Spares i k k' :=
  ⟨hlen.ge, fun _ t' ht' => ⟨t', htask.symm.trans ht', fun _ h => h, rfl, rfl⟩⟩

/-! ### Into a handler and back -/

/-- There is a context to go back to. -/
lemma signalSigreturn_of_active {t : Task} (ht : k.currentTask = some t) (hact : t.sigActive = true)
    (hok : userRangeOk t.sigCtx (BitVec.ofNat 64 sizeofRegs) = true) :
    signalSigreturn k = goBack k t := by
  rw [signalSigreturn, ht]
  dsimp only
  rw [if_neg (by simp [hact]), if_neg (by simp [hok])]

lemma spares_enterHandler {t : Task} {sig : ℕ} (hi : k.current ≠ i) :
    Spares i k (enterHandler k t sig) :=
  spares_of_ne (length_enterHandler k t sig) ((task_enterHandler k t sig i).trans (if_neg hi.symm))

lemma spares_goBack {t : Task} (hi : k.current ≠ i) : Spares i k (goBack k t) :=
  have hback := goBack_goesBack k t
  spares_of_ne hback.length ((hback.task i).trans (if_neg hi.symm))

/-- How the running task comes to stand differently with signals. -/
inductive Disturbs (C : Kernel → Prop) (k : Kernel) : Stage × Kernel → Prop
  | goBack {t : Task} (ht : k.currentTask = some t) (hact : t.sigActive = true) :
      Disturbs C k (.busy 0, goBack k t)
  | enterHandler {k' : Kernel} (hC : C k) (he : Enters k) : Disturbs C k (.busy 0, k')
  | killed {k' : Kernel} {t : Task} (sig : ℕ) (ht : k.currentTask = some t)
      (hact : t.sigActive = false) (hcur : k'.current = k.current) :
      Disturbs C k (.doomed (sigExitStatus sig), k')

/-- **Signals.** An action leaves the task in a slot as it stands with signals, unless that is
the running task and goes into a handler, or back from one, or is killed. -/
theorem Action.signals {s s' : Stage × Kernel} (ha : Action C s s') (i : ℕ) :
    Spares i s.2 s'.2 ∨ (s.1 = .busy 0 ∧ s.2.current = i ∧ Disturbs C s.2 s') := by
  cases ha with
  | deed hd => exact .inl hd.kind.spares
  | press hs hp => exact .inl hp.kind.spares
  | enter | reply | checked | exits | condemned | lost | rest | stir => exact .inl (.of_tasks rfl)
  | user k r mem hstep hat =>
    have hpile : Spares i k (k.setPile r) := .of_tasks rfl
    exact .inl (hpile.trans (spares_modifyTask fun _ => ⟨fun _ h => h, rfl, rfl⟩))
  | interrupt k hc =>
    have hnote : Spares i k (k.note (.interrupted k.current k.pile.issued)) := .of_tasks rfl
    exact .inl (hnote.trans (spares_modifyTask fun _ => ⟨fun _ h => h, rfl, rfl⟩))
  | @goBack k t ht hact hok =>
    rcases eq_or_ne k.current i with hcur | hne
    · exact .inr ⟨rfl, hcur, .goBack ht hact⟩
    · exact .inl (spares_goBack hne)
  | enterHandler k hC ht hact hsig hh hok =>
    rcases eq_or_ne k.current i with hcur | hne
    · exact .inr ⟨rfl, hcur, .enterHandler hC ⟨_, _, ht, hact, hsig, hh⟩⟩
    · exact .inl (spares_enterHandler hne)
  | @killed k t sig ht hact hsig hh =>
    rcases eq_or_ne k.current i with hcur | hne
    · exact .inr ⟨rfl, hcur, .killed sig ht hact rfl⟩
    · have hclear : Spares i k (k.modifyCurrent fun t => clearPending t sig) :=
        spares_modifyCurrent hne
      exact .inl (hclear.trans (.of_tasks rfl))
  | shut k fd => exact .inl (HeldDeeds.spares (deeds_closeFd k fd))
  | @bury status k hcause hclosed =>
    have hdie : Spares i k (k.modifyCurrent fun t =>
        { t with exitStatus := status % 256, state := .zombie, waitReason := .none }) :=
      spares_modifyTask fun _ => ⟨fun _ h => h, rfl, rfl⟩
    exact .inl (hdie.trans (.of_tasks rfl))
  | rouse k => exact .inl (calms_wakeParent k _).spares
  | @park k reason kb hb hc =>
    have hkb : Spares i k { k with keyboard := kb } := .of_tasks rfl
    have hblock : Spares i { k with keyboard := kb }
        (({ k with keyboard := kb } : Kernel).modifyCurrent fun t =>
          { t with state := .blocked, waitReason := reason }) :=
      spares_modifyTask fun _ => ⟨fun _ h => h, rfl, rfl⟩
    exact .inl ((hkb.trans hblock).trans (.of_tasks rfl))
  | sweep hp hs => exact .inl hs.calm.spares
  | save hp k => exact .inl (spares_modifyTask fun _ => ⟨fun _ h => h, rfl, rfl⟩)
  | dispatch k hr =>
    obtain ⟨t, ht, -⟩ := exists_of_isReady hr
    have hd := dispatch_dispatched ht
    refine .inl ⟨hd.length.ge, fun _ t' ht' => ?_⟩
    rw [hd.task] at ht'
    split_ifs at ht' with hi
    · obtain rfl := Option.some.inj ht'
      exact ⟨t, hi ▸ ht, fun _ h => h, rfl, rfl⟩
    · exact ⟨t', ht', fun _ h => h, rfl, rfl⟩

/-! ### The delivery -/

/-- `check_signals` delivers a signal to a handler of the running task, and there is room for the
signal frame. -/
structure Delivers (k : Kernel) (t : Task) (sig : ℕ) : Prop where
  current : k.currentTask = some t
  alive : t.state ≠ .zombie
  free : t.sigActive = false
  lowest : lowestPending t = some sig
  handler : ¬(t.sigHandlers sig = 0 ∨ sig = sigKill)
  fits : userRangeOk (signalFrame k.pile.userRsp) (BitVec.ofNat 64 (sizeofRegs + 8)) = true

/-- The registers of a program in ring 3. -/
structure Ring3 (r : Regs) : Prop where
  cs : r.cs = userCode
  ss : r.ss = userData
  rflags : r.rflags &&& userModeRflags = userModeRflags

/-- The handler is entered. -/
lemma checkSignals_of_delivers {t : Task} {sig : ℕ} (hd : Delivers k t sig) (hr : Ring3 k.pile) :
    checkSignals k = enterHandler k t sig := by
  rw [checkSignals, if_neg (by rw [hr.cs]; decide), hd.current]
  dsimp only
  rw [if_neg hd.alive, if_neg (by simp [hd.free]), hd.lowest]
  dsimp only
  rw [if_neg hd.handler, deliverToHandler, if_neg (by simp [hd.fits])]

/-- Where the frame lies: below the red zone, at a multiple of sixteen. -/
lemma Delivers.place {t : Task} {sig : ℕ} (hd : Delivers k t sig) :
    (signalFrame k.pile.userRsp).toNat + sizeofRegs + 128 ≤ k.pile.userRsp.toNat ∧
      (signalFrame k.pile.userRsp - 8).toNat + 8 = (signalFrame k.pile.userRsp).toNat := by
  obtain ⟨hlow, hhigh, -⟩ := (userRangeOk_iff _ _).mp hd.fits
  have hlt := k.pile.userRsp.isLt
  have hsub : (signalFrame k.pile.userRsp - 8).toNat = (signalFrame k.pile.userRsp).toNat - 8 :=
    BitVec.toNat_sub_of_le (BitVec.le_def.mpr ((by decide : 8 ≤ userRegionStart).trans hlow))
  rw [show (BitVec.ofNat 64 (sizeofRegs + 8)).toNat = 184 from rfl, userSpaceEnd] at hhigh
  rw [hsub]
  rw [userRegionStart] at hlow
  rw [sizeofRegs]
  rw [signalFrame_toNat] at *
  omega

/-- What is saved can be read back. -/
lemma Delivers.contextFits {t : Task} {sig : ℕ} (hd : Delivers k t sig) :
    userRangeOk (signalFrame k.pile.userRsp) (BitVec.ofNat 64 sizeofRegs) = true := by
  obtain ⟨hlow, hhigh, hlt⟩ := (userRangeOk_iff _ _).mp hd.fits
  refine (userRangeOk_iff _ _).mpr ⟨hlow, ?_, hlt⟩
  rw [show (BitVec.ofNat 64 (sizeofRegs + 8)).toNat = 184 from rfl] at hhigh
  rw [show (BitVec.ofNat 64 sizeofRegs).toNat = 176 from rfl]
  omega

/-- A task in a handler, with the place of its saved registers. -/
def InHandler (i : ℕ) (ctx : Word) (k : Kernel) : Prop :=
  i < k.tasks.length ∧ ∀ t, k.task i = some t → t.sigActive = true ∧ t.sigCtx = ctx

lemma InHandler.spares {ctx : Word} (h : InHandler i ctx k) (hs : Spares i k k') :
    InHandler i ctx k' := by
  refine ⟨h.1.trans_le hs.grows, fun t' ht' => ?_⟩
  obtain ⟨t, ht, hu⟩ := hs.task h.1 t' ht'
  obtain ⟨hact, hctx⟩ := h.2 t ht
  exact ⟨hu.sigActive.trans hact, hu.sigCtx.trans hctx⟩

/-- It leaves the handler only by going back. -/
lemma InHandler.action {ctx : Word} {s s' : Stage × Kernel} (ha : Action C s s')
    (h : InHandler i ctx s.2) :
    InHandler i ctx s'.2 ∨ ∃ frame, s'.2.calls = s.2.calls ++ [.returned i frame] := by
  rcases ha.signals i with hs | ⟨-, hcur, hd⟩
  · exact .inl (h.spares hs)
  · obtain ⟨p', k'⟩ := s'
    cases hd with
    | @goBack t ht hact =>
      rw [← hcur]
      obtain ⟨f, hf⟩ := (goBack_goesBack s.2 t).calls
      exact .inr ⟨_, hf⟩
    | enterHandler hC he =>
      obtain ⟨t, sig, ht, hact, -⟩ := he
      rw [(h.2 t (hcur ▸ ht)).1] at hact
      cases hact
    | killed sig ht hact hcur' =>
      rw [(h.2 _ (hcur ▸ ht)).1] at hact
      cases hact

/-- As long as no return is noted, the task is in the handler. -/
lemma InHandler.actions {ctx : Word} {s s' : Stage × Kernel} (ha : Actions C s s')
    (h : InHandler i ctx s.2) :
    ∃ notes, s'.2.calls = s.2.calls ++ notes ∧
      (InHandler i ctx s'.2 ∨ ∃ frame, Note.returned i frame ∈ notes) := by
  refine Actions.invariant (I := fun x => ∃ notes, x.2.calls = s.2.calls ++ notes ∧
    (InHandler i ctx x.2 ∨ ∃ frame, Note.returned i frame ∈ notes)) ha ?_
    ⟨[], (List.append_nil _).symm, .inl h⟩
  rintro x x' ha ⟨notes, heq, hin⟩
  obtain ⟨new, hnew, -⟩ := ha.notes
  refine ⟨notes ++ new, by rw [hnew, heq, List.append_assoc], ?_⟩
  rcases hin with hin | ⟨frame, hmem⟩
  · rcases hin.action ha with hin | ⟨frame, hback⟩
    · exact .inl hin
    · refine .inr ⟨frame, List.mem_append_right _ ?_⟩
      rw [List.append_cancel_left (hnew.symm.trans hback)]
      exact List.mem_singleton_self _
  · exact .inr ⟨frame, List.mem_append_left _ hmem⟩

/-! ### Returning -/

/-- The flags of ring 3 are not changed by what `signal_sigreturn` forces on them. -/
lemma restoredFrame_eq {m : ℕ → UInt8} {ctx : Word} {r : Regs} (hload : Regs.load m ctx.toNat = r)
    (hr : Ring3 r) : restoredFrame m ctx = r := by
  have hflags : r.rflags ||| userModeRflags = r.rflags := by
    rw [← hr.rflags]
    ext j
    rw [BitVec.getElem_or, BitVec.getElem_and]
    cases r.rflags[j] <;> rfl
  rw [restoredFrame, hload, hflags, ← hr.cs, ← hr.ss]

/-- Delivery leaves the registers in memory, where they can be loaded again. -/
lemma load_intoHandler {t₀ : Task} {trampoline : Word} {sig : ℕ} {r : Regs}
    (hplace : (signalFrame r.userRsp - 8).toNat + 8 = (signalFrame r.userRsp).toNat) :
    Regs.load (intoHandler r trampoline sig t₀).mem (signalFrame r.userRsp).toNat = r := by
  refine (load_congr fun j hj => ?_).trans (load_bytes t₀.mem (signalFrame r.userRsp).toNat r)
  refine Bytes.storeAt_outside (.inr ?_)
  rw [length_wordBytes]
  omega

/-- How a handler is entered. -/
structure Entered (k k₁ : Kernel) (t : Task) (sig : ℕ) : Prop where
  aligned : k₁.pile.userRsp.toNat % 16 = 8
  rdi : k₁.pile.rdi = BitVec.ofNat 64 sig
  rip : k₁.pile.rip = t.sigHandlers sig
  trampoline : loadWord k₁.mem k₁.pile.userRsp.toNat = t.sigTrampoline
  /-- No byte at or above `user_rsp - 128` has changed. -/
  above : ∀ a, k.pile.userRsp.toNat ≤ a + 128 → k₁.mem a = k.mem a
  others : ∀ j, j ≠ k.current → k₁.task j = k.task j

lemma mem_enterHandler {t : Task} (ht : k.currentTask = some t) (sig : ℕ) :
    (enterHandler k t sig).currentTask = some (intoHandler k.pile t.sigTrampoline sig t) ∧
      (enterHandler k t sig).mem = (intoHandler k.pile t.sigTrampoline sig t).mem := by
  have htask : (enterHandler k t sig).currentTask =
      some (intoHandler k.pile t.sigTrampoline sig t) := by
    refine (task_enterHandler k t sig k.current).trans ?_
    rw [if_pos rfl, show k.task k.current = some t from ht]
    rfl
  exact ⟨htask, by rw [mem, htask]; rfl⟩

lemma entered_enterHandler {t : Task} {sig : ℕ} (hd : Delivers k t sig) :
    Entered k (enterHandler k t sig) t sig := by
  obtain ⟨habove, hbelow⟩ := hd.place
  have hmod := signalFrame_mod k.pile.userRsp
  obtain ⟨-, hmem⟩ := mem_enterHandler hd.current sig
  have hpile := pile_enterHandler k t sig
  refine ⟨?_, by rw [hpile], by rw [hpile], ?_, fun a ha => ?_, fun j hj => ?_⟩
  · rw [hpile]
    dsimp only
    omega
  · rw [hmem, hpile, intoHandler]
    exact loadWord_storeAt _ _ _
  · rw [hmem, mem, hd.current, intoHandler]
    refine (Bytes.storeAt_outside (.inr ?_)).trans (Bytes.storeAt_outside (.inr ?_))
    · rw [length_wordBytes]
      omega
    · rw [length_bytes]
      omega
  · rw [task_enterHandler, if_neg hj]

/-- Whenever the task issues its next `SYS_SIGRETURN`, and the saved registers have not been
changed, it goes on as if nothing had happened. -/
def ReturnsTo (k k₁ : Kernel) : Prop :=
  ∀ (es : List Event) (k₂ k₃ : Kernel) (t₂ : Task) (a : Answers),
    Runs.exec step k₁ es = some k₂ →
    (∀ notes frame, k₂.calls = k₁.calls ++ notes → Note.returned k.current frame ∉ notes) →
    k₂.current = k.current → k₂.currentTask = some t₂ →
    SysCall.ofWord k₂.pile.rax = some .sigreturn →
    (∀ b < sizeofRegs, t₂.mem ((signalFrame k.pile.userRsp).toNat + b) =
      k₁.mem ((signalFrame k.pile.userRsp).toNat + b)) →
    k₂.handled (.syscall a) = some k₃ →
    k₃.pile = k.pile ∧ k₃.current = k.current ∧
      ∃ t₃, k₃.currentTask = some t₃ ∧ t₃.sigActive = false

lemma returnsTo_enterHandler {t : Task} {sig : ℕ} (hd : Delivers k t sig) (hr : Ring3 k.pile) :
    ReturnsTo k (enterHandler k t sig) := by
  intro es k₂ k₃ t₂ a hrun hnone hcur ht₂ hcall hsame hk₃
  obtain ⟨habove, hbelow⟩ := hd.place
  obtain ⟨hcurrent, hmem⟩ := mem_enterHandler hd.current sig
  have hstart : InHandler k.current (signalFrame k.pile.userRsp) (enterHandler k t sig) := by
    refine ⟨lt_length_of_task hcurrent, fun t' ht' => ?_⟩
    obtain rfl := Option.some.inj (hcurrent.symm.trans ht')
    exact ⟨rfl, rfl⟩
  obtain ⟨notes, hnotes, hin | ⟨frame, hmem'⟩⟩ := hstart.actions (run_actions (C := fun _ => True)
    (along_of_forall (fun _ _ _ _ => trivial) es _) hrun)
  · obtain ⟨hact, hctx⟩ := hin.2 t₂ (hcur ▸ ht₂)
    have hload : Regs.load t₂.mem t₂.sigCtx.toNat = k.pile := by
      rw [hctx, load_congr hsame, hmem]
      exact load_intoHandler hbelow
    obtain ⟨-, rfl⟩ := guarded hk₃
    have hbody : syscallBody (k₂.enter 0x50 (k₂.pile.rip + intInstrLen)) a =
        goBack (k₂.enter 0x50 (k₂.pile.rip + intInstrLen)) t₂ := by
      rw [syscallBody, show SysCall.ofWord (k₂.enter _ _).pile.rax = some .sigreturn from hcall]
      refine signalSigreturn_of_active ht₂ hact ?_
      rw [hctx]
      exact hd.contextFits
    have hcur₃ : (goBack (k₂.enter 0x50 (k₂.pile.rip + intInstrLen)) t₂).current = k.current :=
      (goBack_goesBack _ _).current.trans hcur
    rw [hbody]
    refine ⟨(pile_goBack ht₂).trans (restoredFrame_eq hload hr), hcur₃, outOfHandler t₂, ?_, rfl⟩
    rw [currentTask, (goBack_goesBack _ _).task, (goBack_goesBack _ _).current, if_pos rfl]
    exact congrArg _ ht₂
  · exact absurd hmem' (hnone notes frame hnotes)

/-! ### No handler to return from -/

/-- `SYS_SIGRETURN` without a running handler restores nothing and ends the task. -/
def OnlyFromHandler : Prop :=
  ∀ (k k' : Kernel) (t : Task) (a : Answers), k.currentTask = some t → t.sigActive = false →
    SysCall.ofWord k.pile.rax = some .sigreturn → k.handled (.syscall a) = some k' →
    Dead k' k.current (sigExitStatus sigSegv) t.mem ∧ k'.calls = k.calls ∧ k'.touched = k.touched

lemma onlyFromHandler : OnlyFromHandler := by
  intro k k' t a ht hact hcall hk
  obtain ⟨-, rfl⟩ := guarded hk
  have ht' : (k.enter 0x50 (k.pile.rip + intInstrLen)).currentTask = some t := ht
  have hbody : syscallBody (k.enter 0x50 (k.pile.rip + intInstrLen)) a =
      endBySignal (k.enter 0x50 (k.pile.rip + intInstrLen)) sigSegv := by
    rw [syscallBody, show SysCall.ofWord (k.enter _ _).pile.rax = some .sigreturn from hcall]
    change signalSigreturn _ = _
    rw [signalSigreturn, ht']
    dsimp only
    rw [if_pos (by simp [hact])]
  obtain ⟨hdead, htouched⟩ := taskExit_dead (k := (k.enter 0x50 (k.pile.rip + intInstrLen)).live
    (.condemned k.current sigSegv)) ht' (sigExitStatus sigSegv)
  rw [hbody]
  exact ⟨hdead, (quietFrame_taskExit _ _).calls, htouched⟩

/-- **Signals are transparent.** Whatever the registers of a program in ring 3, if the signal frame
fits: the handler is entered on an aligned stack, with the signal and the return address and
without a change above the red zone or in another task; and whatever happens until it returns,
if the saved registers are still there the program goes on with exactly the registers it
had. Without a running handler there is no return. -/
theorem signals_transparent {k : Kernel} {t : Task} {sig : ℕ} (hd : Delivers k t sig)
    (hr : Ring3 k.pile) :
    Entered k (checkSignals k) t sig ∧ ReturnsTo k (checkSignals k) ∧ OnlyFromHandler := by
  rw [checkSignals_of_delivers hd hr]
  exact ⟨entered_enterHandler hd, returnsTo_enterHandler hd hr, onlyFromHandler⟩

end Kernel

/-- A program with a handler for `SIG_INT` raises the signal on itself. -/
theorem signals_transparent_handlerRun :
    ∃ k₀ k t, Runs.exec Kernel.step (boot intImage {}) ((handlerRun 2).take 3) = some k₀ ∧
      k₀.handled (.syscall noAnswers) = some k ∧ k.Delivers t 2 ∧ Kernel.Ring3 k.pile ∧
      Kernel.Entered k k.checkSignals t 2 ∧ Kernel.ReturnsTo k k.checkSignals := by
  have hrun : (Runs.exec Kernel.step (boot intImage {}) ((handlerRun 2).take 3)).any (fun k₀ =>
      (k₀.handled (.syscall noAnswers)).any fun k =>
        (k.currentTask.any fun t => t.state ≠ .zombie ∧ t.sigActive = false ∧
          Kernel.lowestPending t = some 2 ∧ ¬(t.sigHandlers 2 = 0 ∨ 2 = sigKill)) ∧
        userRangeOk (signalFrame k.pile.userRsp) (BitVec.ofNat 64 (sizeofRegs + 8)) = true ∧
        k.pile.cs = userCode ∧ k.pile.ss = userData ∧
        k.pile.rflags &&& userModeRflags = userModeRflags) = true := by
    decide +kernel
  obtain ⟨k₀, hk₀, h⟩ := Option.any_eq_true _ _ |>.mp hrun
  obtain ⟨k, hk, h⟩ := Option.any_eq_true _ _ |>.mp h
  obtain ⟨ht, hfits, hcs, hss, hflags⟩ := of_decide_eq_true h
  obtain ⟨t, ht, h⟩ := Option.any_eq_true _ _ |>.mp ht
  obtain ⟨halive, hfree, hlow, hhandler⟩ := of_decide_eq_true h
  have hd : k.Delivers t 2 := ⟨ht, halive, hfree, hlow, hhandler, hfits⟩
  obtain ⟨hentered, hreturns, -⟩ := Kernel.signals_transparent hd ⟨hcs, hss, hflags⟩
  exact ⟨k₀, k, t, hk₀, hk, hd, ⟨hcs, hss, hflags⟩, hentered, hreturns⟩

end TownOS
