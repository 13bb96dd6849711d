import TownOS.Kernel.Delivery

/-!
Which call a signal cuts short.

`signal_raise` wakes a sleeping task and sets its flag `sig_interrupted`; the system call
the task was asleep in is armed to be issued again, and `task_block` then finds the flag,
clears it and reports the interruption. The flag is not tied to the call, so it has to be
shown that nothing comes in between. `Phase` is the abstract protocol: what the notes of
a task say about its calls, and which note may follow. A phase is `broken` if the flag was
consumed by another call than the one cut short, or outlived that call.

What comes in between is a handler, entered by `check_signals` with the flag still set, or
the awaited event, after which the call has no reason to look at the flag.

* `Phase.advance`, `phase`: the protocol, and where a task is in it;
* `Tidy`: between two steps every task is where its flag, its state and its registers say;
* `interrupted_call_paired`: a run in which handlers entered with the flag set make no call
  that has to wait and go back to where they came from, and no awaited event overtakes the
  call that was cut short, keeps to the protocol;
* `handler_call_interrupted`: a run in which a call made by a handler is interrupted instead.
-/

namespace TownOS

open Kernel Runs

/-! ### The protocol -/

/-- Where a task is with its system calls. -/
inductive Phase where
  /-- No call of the task has been cut short. -/
  | free
  /-- A call was put to sleep; it may have been woken since. -/
  | asleep (frame : Regs)
  /-- The sleeping call was cut short, and is about to be issued again. -/
  | cut (frame : Regs)
  /-- A handler runs before that. -/
  | handling (frame : Regs)
  /-- The protocol was violated. -/
  | broken
  deriving DecidableEq

namespace Phase

/-- The next phase. An interruption is reported to the call that was cut short only, and
that call ends in no other way. -/
def advance (p : Phase) : Note → Phase
  | .served .. =>
    match p with
    | free | asleep _ => free
    | handling f => handling f
    | _ => broken
  | .parked _ g =>
    match p with
    | free | asleep _ => asleep g
    | _ => broken
  | .cut _ g =>
    match p with
    | asleep f => if g = f then cut f else broken
    | _ => broken
  | .interrupted _ g =>
    match p with
    | cut f => if g = f then free else broken
    | _ => broken
  | .entered _ g =>
    match p with
    | free | asleep _ => free
    | cut f => if g = f then handling f else broken
    | _ => broken
  | .returned _ g =>
    match p with
    | free | asleep _ => free
    | handling f => if g = f then cut f else broken
    | _ => broken

/-- An interruption is on its way to the call that was cut short. -/
def flagged : Phase → Bool
  | cut _ => true
  | handling _ => true
  | _ => false

/-- Nothing is on its way. -/
def Quiet (p : Phase) : Prop := p = free ∨ ∃ f, p = asleep f

lemma Quiet.advance_served {p : Phase} (h : p.Quiet) (i : ℕ) (g : Regs) (v : Word) :
    p.advance (.served i g v) = free := by
  rcases h with rfl | ⟨f, rfl⟩ <;> rfl

lemma Quiet.advance_parked {p : Phase} (h : p.Quiet) (i : ℕ) (g : Regs) :
    p.advance (.parked i g) = asleep g := by
  rcases h with rfl | ⟨f, rfl⟩ <;> rfl

lemma Quiet.advance_entered {p : Phase} (h : p.Quiet) (i : ℕ) (g : Regs) :
    p.advance (.entered i g) = free := by
  rcases h with rfl | ⟨f, rfl⟩ <;> rfl

lemma Quiet.advance_returned {p : Phase} (h : p.Quiet) (i : ℕ) (g : Regs) :
    p.advance (.returned i g) = free := by
  rcases h with rfl | ⟨f, rfl⟩ <;> rfl

lemma advance_cut (i : ℕ) (f : Regs) : (asleep f).advance (.cut i f) = cut f := if_pos rfl

lemma advance_interrupted (i : ℕ) (f : Regs) : (cut f).advance (.interrupted i f) = free :=
  if_pos rfl

lemma advance_entered (i : ℕ) (f : Regs) : (cut f).advance (.entered i f) = handling f := if_pos rfl

lemma advance_returned (i : ℕ) (f : Regs) : (handling f).advance (.returned i f) = cut f :=
  if_pos rfl

end Phase

namespace Kernel

variable {k k' : Kernel} {i : ℕ} {t t' : Task} {p : Phase} {fr : Regs}

/-- Where a task is, as its notes tell. -/
def phase (k : Kernel) (i : ℕ) : Phase :=
  k.calls.foldl (fun p x => if x.task = i then p.advance x else p) .free

lemma phase_congr (h : k'.calls = k.calls) (i : ℕ) : phase k' i = phase k i := by
  rw [phase, h, phase]

/-- A note moves on the task it is about. -/
lemma phase_note (x : Note) (i : ℕ) :
    phase (k.note x) i = if x.task = i then (phase k i).advance x else phase k i := by
  rw [phase, note, List.foldl_append]
  rfl

lemma phase_note_self (x : Note) : phase (k.note x) x.task = (phase k x.task).advance x := by
  rw [phase_note, if_pos rfl]

lemma phase_note_of_ne {x : Note} (h : i ≠ x.task) : phase (k.note x) i = phase k i := by
  rw [phase_note, if_neg h.symm]

/-! ### A task and its phase -/

/-- The flag is clear and nothing is on its way, or the interruption waits for a handler to
go back. -/
def Settled (t : Task) (p : Phase) : Prop :=
  (t.sigInterrupted = false ∧ p.Quiet) ∨
    (t.sigInterrupted = true ∧ t.sigActive = true ∧ ∃ f, p = .handling f)

/-- The call that was cut short is the next thing the task does. -/
def Reissuing (fr : Regs) (t : Task) (p : Phase) : Prop :=
  t.sigInterrupted = true ∧ p = .cut fr ∧ AtInt t.mem fr.rip

/-- A task that is neither asleep nor dead, with the registers it goes on with. -/
def Awake (fr : Regs) (t : Task) (p : Phase) : Prop := Settled t p ∨ Reissuing fr t p

/-- A task with the registers it goes on with. -/
def Fits (fr : Regs) (t : Task) (p : Phase) : Prop :=
  match t.state with
  | .zombie => True
  | .blocked => t.sigInterrupted = false ∧ p = .asleep fr ∧ AtInt t.mem fr.rip
  | _ => Awake fr t p

lemma fits_of_awake (h : Awake fr t p) (hb : t.state ≠ .blocked) : Fits fr t p := by
  rw [Fits]
  split
  · trivial
  · exact absurd ‹_› hb
  · exact h

lemma fits_of_zombie (h : t.state = .zombie) : Fits fr t p := by
  rw [Fits, h]
  trivial

lemma Fits.blocked (h : Fits fr t p) (hb : t.state = .blocked) :
    t.sigInterrupted = false ∧ p = .asleep fr ∧ AtInt t.mem fr.rip := by
  rwa [Fits, hb] at h

lemma Fits.awake (h : Fits fr t p) (hb : t.state ≠ .blocked) (hz : t.state ≠ .zombie) :
    Awake fr t p := by
  rw [Fits] at h
  split at h
  · exact absurd ‹_› hz
  · exact absurd ‹_› hb
  · exact h

/-- A task that drifts stays in its phase. -/
lemma Fits.drift (h : Fits fr t p) (hd : Drift (some t) (some t')) : Fits fr t' p := by
  cases hd with
  | same => exact h
  | woken _ hb =>
    obtain ⟨hflag, hp, -⟩ := h.blocked hb
    exact fits_of_awake (.inl (.inl ⟨hflag, .inr ⟨fr, hp⟩⟩)) TaskState.noConfusion
  | pending _ sig hb =>
    by_cases hz : t.state = .zombie
    · exact fits_of_zombie hz
    · exact fits_of_awake (h.awake hb hz) hb
  | destroyed _ hz => exact fits_of_zombie hz

/-! ### All tasks -/

/-- The protocol was kept, and every task whose registers are saved fits its phase. The
registers of `c` are on the pile. -/
structure Paired (k : Kernel) (c : Option ℕ) : Prop where
  sound : ∀ i, phase k i ≠ .broken
  fresh : ∀ i, k.tasks.length ≤ i → phase k i = .free
  saved : ∀ i t, some i ≠ c → k.task i = some t → Fits t.regs.cpu t (phase k i)

/-- What is calm leaves the protocol alone. -/
lemma Paired.calm {c : Option ℕ} (h : Paired k c) (hc : Calm k k') : Paired k' c := by
  have hphase := phase_congr hc.calls
  refine ⟨fun i => ?_, fun i hi => ?_, fun i t' hi ht' => ?_⟩
  · rw [hphase]
    exact h.sound i
  · rw [hphase]
    exact h.fresh i (hc.length ▸ hi)
  · obtain ⟨t, ht, hd⟩ := hc.drift ht'
    rw [hphase, drift_regs hd]
    exact (h.saved i t hi ht).drift hd

/-- A note about one task, with a change of that task, leaves the others where they are. -/
lemma Paired.noted {c : Option ℕ} (h : Paired k c) {x : Note} {f : Task → Task}
    (ht : k.task x.task = some t) (hs : (phase k x.task).advance x ≠ .broken)
    (hf : some x.task ≠ c → Fits (f t).regs.cpu (f t) ((phase k x.task).advance x)) :
    Paired ((k.note x).modifyTask x.task f) c := by
  have hphase : ∀ i, phase ((k.note x).modifyTask x.task f) i = phase (k.note x) i :=
    phase_congr rfl
  refine ⟨fun i => ?_, fun i hi => ?_, fun i t' hi ht' => ?_⟩
  · rw [hphase]
    rcases eq_or_ne i x.task with rfl | hne
    · rwa [phase_note_self]
    · rw [phase_note_of_ne hne]
      exact h.sound i
  · have hlen : k.tasks.length ≤ i := by
      rwa [modifyTask, List.length_modify] at hi
    have hne : i ≠ x.task := ((lt_length_of_task ht).trans_le hlen).ne'
    rw [hphase, phase_note_of_ne hne]
    exact h.fresh i hlen
  · rw [hphase]
    rcases eq_or_ne i x.task with rfl | hne
    · rw [task_modifyTask_self, show (k.note x).task x.task = some t from ht] at ht'
      obtain rfl := Option.some.inj ht'
      rw [phase_note_self]
      exact hf hi
    · rw [task_modifyTask_of_ne hne] at ht'
      rw [phase_note_of_ne hne]
      exact h.saved i t' hi ht'

/-- A signal cuts short the call of a task whose registers are saved. -/
lemma Paired.cut {c : Option ℕ} (h : Paired k c) (ht : k.task i = some t)
    (hb : t.state = .blocked) (hi : some i ≠ c) (sig : ℕ) :
    Paired ((k.note (.cut i t.regs.cpu)).modifyTask i (cutTask sig)) c := by
  obtain ⟨-, hp, hat⟩ := (h.saved i t hi ht).blocked hb
  have hadv : (phase k i).advance (.cut i t.regs.cpu) = .cut t.regs.cpu := by
    rw [hp, Phase.advance_cut]
  refine h.noted (x := .cut i t.regs.cpu) (f := cutTask sig) ht ?_ fun _ => ?_
  · rw [show (Note.cut i t.regs.cpu).task = i from rfl, hadv]
    exact Phase.noConfusion
  · rw [show (Note.cut i t.regs.cpu).task = i from rfl, hadv]
    exact fits_of_awake (.inr ⟨rfl, rfl, hat⟩) TaskState.noConfusion

/-! ### The kernel at work -/

/-- The kernel at work for the current task, of which it knows something. -/
structure Working (k : Kernel) (C : Task → Phase → Prop) : Prop where
  idling : k.idling = false
  paired : Paired k (some k.current)
  current : ∃ t, k.currentTask = some t ∧ C t (phase k k.current)

/-- What is known of the current task is not affected by what the kernel does beside it. -/
structure Steady (C : Task → Phase → Prop) : Prop where
  running : ∀ t p, C t p → t.state = .running
  pending : ∀ t p sig, C t p → C (setPending t sig) p

/-- It is not affected by what the kernel does to it either. -/
structure Stable (C : Task → Phase → Prop) : Prop extends Steady C where
  own : ∀ t t' p, C t p → Own t t' → C t' p

variable {C D : Task → Phase → Prop}

lemma Working.mono (h : Working k C) (hCD : ∀ t p, C t p → D t p) : Working k D := by
  obtain ⟨t, ht, hC⟩ := h.current
  exact ⟨h.idling, h.paired, t, ht, hCD t _ hC⟩

lemma Working.current_lt (h : Working k C) : k.current < k.tasks.length := by
  obtain ⟨t, ht, -⟩ := h.current
  exact lt_length_of_task ht

/-- A running task that drifts is only sent a signal. -/
lemma Steady.drift (hC : Steady C) {o : Option Task} (ht : C t p) (hd : Drift (some t) o) :
    ∃ t', o = some t' ∧ C t' p := by
  have hrun := hC.running t p ht
  cases hd with
  | same => exact ⟨t, rfl, ht⟩
  | woken _ hb => simp [hrun] at hb
  | pending _ sig hb => exact ⟨_, rfl, hC.pending t p sig ht⟩
  | destroyed _ hz => simp [hrun] at hz
  | reaped _ hz => simp [hrun] at hz

lemma Working.calm (h : Working k C) (hC : Steady C) (hc : Calm k k') : Working k' C := by
  obtain ⟨t, ht, hCt⟩ := h.current
  refine ⟨hc.idling.trans h.idling, hc.current ▸ h.paired.calm hc, ?_⟩
  have hd := hc.tasks k.current
  rw [show k.task k.current = some t from ht] at hd
  rw [currentTask, hc.current, phase_congr hc.calls]
  exact hC.drift hCt hd

lemma Working.cut (h : Working k C) (hC : Steady C) {i : ℕ} {t₁ : Task} (ht₁ : k.task i = some t₁)
    (hb : t₁.state = .blocked) (sig : ℕ) :
    Working ((k.note (.cut i t₁.regs.cpu)).modifyTask i (cutTask sig)) C := by
  obtain ⟨t, ht, hCt⟩ := h.current
  have hi : k.current ≠ i := by
    rintro rfl
    obtain rfl := Option.some.inj (ht.symm.trans ht₁)
    rw [hC.running t _ hCt] at hb
    cases hb
  refine ⟨h.idling, h.paired.cut ht₁ hb (fun he => hi (Option.some.inj he).symm) sig, t, ?_, ?_⟩
  · exact (task_modifyTask_of_ne hi).trans ht
  · have hphase : phase ((k.note (.cut i t₁.regs.cpu)).modifyTask i (cutTask sig)) k.current =
        phase k k.current :=
      (phase_congr rfl _).trans (phase_note_of_ne (x := .cut i t₁.regs.cpu) hi)
    exact hphase ▸ hCt

lemma Working.aside (h : Working k C) (hC : Steady C) (ha : Aside k k') : Working k' C := by
  rcases ha.calm_or_cut with hc | ⟨i, t₁, sig, ht₁, hb, rfl⟩
  · exact h.calm hC hc
  · exact h.cut hC ht₁ hb sig

lemma Working.asides (h : Working k C) (hC : Steady C) (ha : Asides k k') : Working k' C := by
  induction ha with
  | refl => exact h
  | tail _ ha ih => exact ih.aside hC ha

/-- A change of the current task. -/
lemma Working.modifyCurrent (h : Working k C) {f : Task → Task}
    (hf : ∀ t p, C t p → D (f t) p) : Working (k.modifyCurrent f) D := by
  have hlen : (k.modifyCurrent f).tasks.length = k.tasks.length := List.length_modify ..
  obtain ⟨t, ht, hC⟩ := h.current
  refine ⟨h.idling,
    ⟨h.paired.sound, fun i hi => h.paired.fresh i (hlen ▸ hi), fun i t' hi ht' => ?_⟩,
    f t, ?_, hf t _ hC⟩
  · have hne : i ≠ k.current := fun he => hi (congrArg some he)
    rw [Kernel.modifyCurrent, task_modifyTask_of_ne hne] at ht'
    exact h.paired.saved i t' hi ht'
  · rw [currentTask, Kernel.modifyCurrent, show (k.modifyTask k.current f).current = k.current
      from rfl, task_modifyTask_self, show k.task k.current = some t from ht]
    rfl

/-- A new task is free. -/
lemma Working.addTask (h : Working k C) (hready : t.state = .ready)
    (hflag : t.sigInterrupted = false) : Working (k.addTask t) C := by
  have hlen : (k.addTask t).tasks.length = k.tasks.length + 1 := by
    rw [Kernel.addTask, List.length_append, List.length_singleton]
  have hphase : ∀ i, phase (k.addTask t) i = phase k i := phase_congr rfl
  obtain ⟨t₁, ht₁, hC⟩ := h.current
  refine ⟨h.idling, ⟨h.paired.sound, fun i hi => ?_, fun i t' hi ht' => ?_⟩, t₁, ?_, hC⟩
  · exact h.paired.fresh i (by omega)
  · rw [task_addTask] at ht'
    rw [hphase]
    split_ifs at ht' with heq
    · obtain rfl := Option.some.inj ht'
      have hb : t.state ≠ .blocked := by simp [hready]
      rw [h.paired.fresh i heq.ge]
      exact fits_of_awake (.inl (.inl ⟨hflag, .inl rfl⟩)) hb
    · exact h.paired.saved i t' hi ht'
  · rw [currentTask, show (k.addTask t).current = k.current from rfl, task_addTask,
      if_neg h.current_lt.ne]
    exact ht₁

lemma Working.live (h : Working k C) (x : Life) : Working (k.live x) C :=
  ⟨h.idling, ⟨h.paired.sound, h.paired.fresh, h.paired.saved⟩, h.current⟩

lemma Working.effect (h : Working k C) (hC : Stable C) {s s' : Multiset File × Kernel}
    (he : Effect s s') (hs : s.2 = k) : Working s'.2 C := by
  have hkind := he.kind
  rw [hs] at hkind
  generalize s'.2 = k' at hkind ⊢
  cases hkind with
  | calm hc => exact h.calm hC.toSteady hc
  | cut i t sig ht hb => exact h.cut hC.toSteady ht hb sig
  | own f hf => exact h.modifyCurrent fun t p ht => hC.own t (f t) p ht (hf t)
  | spawn image pgid fds => exact (h.addTask rfl rfl).live _

/-- What is stable survives the effects of a call. -/
lemma Working.effects (h : Working k C) (hC : Stable C) (he : Effects k k') : Working k' C :=
  he.invariant (P := fun k => Working k C) (fun _ _ he h => h.effect hC he rfl) h

/-- A note about the current task. -/
lemma Working.note (h : Working k C) {x : Note} (hx : x.task = k.current)
    (hs : ∀ t p, C t p → p.advance x ≠ .broken ∧ D t (p.advance x)) : Working (k.note x) D := by
  obtain ⟨t, ht, hC⟩ := h.current
  have hself : phase (k.note x) k.current = (phase k k.current).advance x := hx ▸ phase_note_self x
  have hother : ∀ i, i ≠ k.current → phase (k.note x) i = phase k i := fun i hi =>
    phase_note_of_ne (hx.symm ▸ hi)
  refine ⟨h.idling, ⟨fun i => ?_, fun i hi => ?_, fun i t' hi ht' => ?_⟩, t, ht, ?_⟩
  · rcases eq_or_ne i k.current with rfl | hi
    · rw [hself]
      exact (hs t _ hC).1
    · rw [hother i hi]
      exact h.paired.sound i
  · rw [hother i (h.current_lt.trans_le hi).ne']
    exact h.paired.fresh i hi
  · rw [hother i fun he => hi (congrArg some he)]
    exact h.paired.saved i t' hi ht'
  · rw [show (k.note x).current = k.current from rfl, hself]
    exact (hs t _ hC).2

/-- The pile may change if nothing is known about it. -/
lemma Working.setPile (h : Working k C) (r : Regs) : Working (k.setPile r) C :=
  ⟨h.idling, ⟨h.paired.sound, h.paired.fresh, h.paired.saved⟩, h.current⟩

lemma Working.enter (h : Working k C) (vector rip : Word) : Working (k.enter vector rip) C :=
  ⟨h.idling, ⟨h.paired.sound, h.paired.fresh, h.paired.saved⟩, h.current⟩

lemma Paired.calms {c : Option ℕ} (h : Paired k c) (hc : Calms k k') : Paired k' c := by
  induction hc with
  | refl => exact h
  | tail _ hc ih => exact ih.calm hc

/-- The current task is spared. -/
lemma Working.spared (h : Working k C) (hc : Calms k k') (hs : Spared k k') : Working k' C := by
  obtain ⟨t, ht, hC⟩ := h.current
  refine ⟨hc.idling.trans h.idling, hs.current ▸ h.paired.calms hc, t, ?_, ?_⟩
  · rw [currentTask, hs.current, hs.task]
    exact ht
  · rw [phase_congr hc.calls, hs.current]
    exact hC

/-! ### The switch -/

/-- The CPU is parked, and all registers are saved. -/
structure Parked (k : Kernel) : Prop where
  idling : k.idling = true
  paired : Paired k none
  regs : ∀ t, k.currentTask = some t → t.regs = k.pile

/-- Between two steps: a task runs, or the CPU is parked. -/
inductive Tidy (k : Kernel) : Prop
  | busy (h : Working k fun t p => t.state = .running ∧ Awake k.pile.cpu t p)
  | idle (h : Parked k)

lemma regs_saveCurrent (ht : (saveCurrent k).currentTask = some t) :
    t.regs = (saveCurrent k).pile := by
  rw [currentTask, task_saveCurrent,
    if_pos (show (saveCurrent k).current = k.current from rfl)] at ht
  obtain ⟨t₀, -, rfl⟩ := Option.map_eq_some_iff.mp ht
  rfl

/-- Saving the registers only turns `running` into `ready`, which fits as well. -/
lemma fits_savedTask {r : Regs} (h : Fits r.cpu t p) :
    Fits (savedTask r t).regs.cpu (savedTask r t) p := by
  cases hst : t.state with
  | zombie => exact fits_of_zombie (by simp [savedTask, hst])
  | blocked =>
    have hb := h.blocked hst
    rw [Fits]
    simpa [savedTask, hst] using hb
  | ready =>
    exact fits_of_awake (h.awake (by simp [hst]) (by simp [hst])) (by simp [savedTask, hst])
  | running =>
    exact fits_of_awake (h.awake (by simp [hst]) (by simp [hst])) (by simp [savedTask, hst])

lemma Working.saveCurrent (h : Working k fun t p => Fits k.pile.cpu t p) :
    Paired (saveCurrent k) none := by
  obtain ⟨t, ht, hfits⟩ := h.current
  have hlen : (Kernel.saveCurrent k).tasks.length = k.tasks.length := List.length_modify ..
  refine ⟨h.paired.sound, fun i hi => h.paired.fresh i (hlen ▸ hi), fun i t' _ ht' => ?_⟩
  rw [show phase (Kernel.saveCurrent k) i = phase k i from phase_congr rfl i]
  rw [task_saveCurrent] at ht'
  split_ifs at ht' with hi
  · subst hi
    rw [show k.task k.current = some t from ht] at ht'
    obtain rfl := Option.some.inj ht'
    exact fits_savedTask hfits
  · exact h.paired.saved i t' (fun he => hi (Option.some.inj he)) ht'

/-- The task put on the CPU fits its phase. -/
lemma tidy_dispatch {next : ℕ} (hi : k.idling = false) (h : Paired k none)
    (hs : ∀ t, k.currentTask = some t → t.regs = k.pile) (hr : k.isReady next = true) :
    Tidy (dispatch k next) := by
  obtain ⟨t, ht, hready⟩ := exists_of_isReady hr
  have hd := dispatch_dispatched ht
  generalize dispatch k next = k' at hd ⊢
  have hphase : ∀ i, phase k' i = phase k i := phase_congr hd.calls
  have hawake : Awake t.regs.cpu t (phase k next) :=
    (h.saved next t (by simp) ht).awake (by simp [hready]) (by simp [hready])
  have hpile : k'.pile = t.regs := by
    rw [hd.pile]
    split_ifs with hcur
    · exact (hs t (by rw [currentTask, ← hcur, ht])).symm
    · rfl
  refine .busy ⟨hd.idling.trans hi, ⟨fun i => ?_, fun i hi => ?_, fun i t' hne ht' => ?_⟩,
    { t with state := .running }, ?_, rfl, ?_⟩
  · rw [hphase]
    exact h.sound i
  · rw [hphase]
    exact h.fresh i (hd.length ▸ hi)
  · rw [hd.task, if_neg fun he => hne (by rw [he, hd.current])] at ht'
    rw [hphase]
    exact h.saved i t' (by simp) ht'
  · rw [currentTask, hd.task, if_pos hd.current]
  · rw [hpile, hphase, hd.current]
    exact hawake

/-- Saving the registers, and going on with another task. -/
lemma Working.schedule (h : Working k fun t p => Fits k.pile.cpu t p) : Tidy (schedule k) := by
  have hsched := schedule_scheduled k
  generalize Kernel.schedule k = k₁ at hsched ⊢
  cases hsched with
  | idle hi =>
    rw [h.idling] at hi
    cases hi
  | gone hs hn =>
    obtain ⟨t, ht, -⟩ := h.current
    rw [currentTask, hs.spared.current, hs.spared.task,
      show k.task k.current = some t from ht] at hn
    cases hn
  | switched hs hr =>
    rw [← hs.calms.pile] at h
    have h₁ := h.spared hs.calms hs.spared
    exact tidy_dispatch h₁.idling h₁.saveCurrent (fun t ht => regs_saveCurrent ht) hr
  | @parked k₁ hs =>
    rw [← hs.calms.pile] at h
    have h₁ := (h.spared hs.calms hs.spared).saveCurrent
    have hregs : ∀ t, (Kernel.saveCurrent k₁).currentTask = some t →
        t.regs = (Kernel.saveCurrent k₁).pile := fun t ht => regs_saveCurrent ht
    exact .idle ⟨rfl, ⟨h₁.sound, h₁.fresh, h₁.saved⟩, hregs⟩

/-- The CPU is parked until a task is ready. -/
lemma Parked.resume (h : Parked k) : Tidy (resume k) := by
  have hresumed := resume_resumed k
  generalize Kernel.resume k = k' at hresumed ⊢
  cases hresumed with
  | stays => exact .idle h
  | switched hn =>
    exact tidy_dispatch rfl ⟨h.paired.sound, h.paired.fresh, h.paired.saved⟩ h.regs
      (isReady_of_findNextReady hn)

lemma Parked.aside (h : Parked k) (ha : Aside k k') : Parked k' := by
  rcases ha.calm_or_cut with hc | ⟨i, t, sig, ht, hb, rfl⟩
  · refine ⟨hc.idling.trans h.idling, h.paired.calm hc, fun t' ht' => ?_⟩
    rw [currentTask, hc.current] at ht'
    obtain ⟨t, ht, hd⟩ := hc.drift ht'
    rw [drift_regs hd, h.regs t ht, hc.pile]
  · refine ⟨h.idling, h.paired.cut ht hb (by simp) sig, fun t' ht' => ?_⟩
    rw [currentTask, task_modifyTask] at ht'
    obtain ⟨t₀, ht₀, ⟨-, rfl⟩ | rfl⟩ := task_of_ite ht'
    · exact h.regs t₀ ht₀
    · exact h.regs t' ht₀

lemma Parked.asides (h : Parked k) (ha : Asides k k') : Parked k' := by
  induction ha with
  | refl => exact h
  | tail _ ha ih => exact ih.aside ha

/-! ### Exiting -/

/-- Nothing is known but that the task runs. -/
lemma stable_running : Stable fun t _ => t.state = .running :=
  ⟨⟨fun _ _ h => h, fun _ _ _ h => h⟩, fun _ _ _ h ho => ho.state.trans h⟩

/-- A task that exits has nothing more to be told. -/
lemma Working.taskExit (h : Working k C) (hC : ∀ t p, C t p → t.state = .running) (status : ℕ) :
    Tidy (taskExit k status) := by
  have hclose := (h.mono hC).effects stable_running (effects_closeAll k)
  rw [Kernel.taskExit]
  have hbury : Working (bury (closeAll k) status) fun t _ => t.state = .zombie := by
    rw [bury]
    refine Working.live (hclose.modifyCurrent ?_) _
    exact fun _ _ _ => rfl
  generalize bury (closeAll k) status = k₁ at hbury ⊢
  obtain ⟨t, ht, hz⟩ := hbury.current
  have hspared := spared_wakeParent ht (by simp [hz]) (k₁.currentTask.bind Task.parentId)
  refine Working.schedule ?_
  exact (hbury.spared (calms_wakeParent _ _) hspared).mono fun t p hz => fits_of_zombie hz

lemma Working.endBySignal (h : Working k C) (hC : ∀ t p, C t p → t.state = .running) (sig : ℕ) :
    Tidy (endBySignal k sig) := (h.live _).taskExit hC _

/-! ### How calls end -/

lemma stable_settled : Stable fun t p => t.state = .running ∧ Settled t p := by
  refine ⟨⟨fun _ _ h => h.1, fun _ _ _ h => h⟩, fun t t' p h ho => ⟨ho.state.trans h.1, ?_⟩⟩
  rw [Settled, ho.sigInterrupted, ho.sigActive]
  exact h.2

lemma Working.busy (h : Working k fun t p => t.state = .running ∧ Settled t p) : Tidy k :=
  .busy (h.mono fun _ _ ht => ⟨ht.1, .inl ht.2⟩)

/-- A call returns to a task that is not about to issue the one cut short. -/
lemma Working.reply (h : Working k fun t p => t.state = .running ∧ Settled t p) (v : Word) :
    Tidy (k.reply v) := by
  have hnote : Working (k.note (.served k.current k.pile.issued v)) fun t p =>
      t.state = .running ∧ Settled t p := by
    refine h.note rfl fun t p ⟨hrun, hset⟩ => ?_
    rcases hset with ⟨hflag, hq⟩ | ⟨hflag, hact, f, rfl⟩
    · rw [hq.advance_served]
      exact ⟨Phase.noConfusion, hrun, .inl ⟨hflag, .inl rfl⟩⟩
    · exact ⟨Phase.noConfusion, hrun, .inr ⟨hflag, hact, f, rfl⟩⟩
  exact (hnote.setPile _).busy

/-- The running task issues a call that has to wait, and is not in between. -/
def Waiting (fr : Regs) (t : Task) (p : Phase) : Prop :=
  t.state = .running ∧ AtInt t.mem fr.rip ∧
    ((t.sigInterrupted = false ∧ p.Quiet) ∨ (t.sigInterrupted = true ∧ p = .cut fr))

lemma steady_waiting (fr : Regs) : Steady (Waiting fr) := ⟨fun _ _ h => h.1, fun _ _ _ h => h⟩

lemma cutShort_eq (ht : k.currentTask = some t) : k.cutShort = t.sigInterrupted := by
  rw [cutShort, ht]
  rfl

/-- **The call that was cut short reports it.** -/
lemma Working.interrupt (h : Working k (Waiting k.pile.issued)) (hc : k.cutShort = true) :
    Tidy ((interrupt k).reply syscallError) := by
  obtain ⟨t, ht, hwait⟩ := h.current
  have hflag : t.sigInterrupted = true := cutShort_eq ht ▸ hc
  have hcut : Working k fun t p => t.state = .running ∧ p = .cut k.pile.issued := by
    refine ⟨h.idling, h.paired, t, ht, hwait.1, ?_⟩
    rcases hwait.2.2 with ⟨hclear, -⟩ | ⟨-, hp⟩
    · rw [hflag] at hclear
      cases hclear
    · exact hp
  have hnote : Working (k.note (.interrupted k.current k.pile.issued)) fun t p =>
      t.state = .running ∧ p = .free := by
    refine hcut.note rfl fun t p h => ?_
    obtain ⟨hrun, hp⟩ := h
    rw [hp, Phase.advance_interrupted]
    exact ⟨Phase.noConfusion, hrun, rfl⟩
  rw [Kernel.interrupt]
  refine Working.reply ?_ _
  exact hnote.modifyCurrent fun t p ht => ⟨ht.1, .inl ⟨rfl, .inl ht.2⟩⟩

/-- A call that was not cut short falls asleep. -/
lemma Working.park (h : Working k (Waiting k.pile.issued)) (hc : k.cutShort = false)
    (reason : WaitReason) : Tidy (Kernel.schedule (Kernel.park k reason)) := by
  obtain ⟨t, ht, hwait⟩ := h.current
  have hflag : t.sigInterrupted = false := cutShort_eq ht ▸ hc
  have hquiet : Working k fun t p => t.sigInterrupted = false ∧ AtInt t.mem k.pile.issued.rip ∧
      p.Quiet := by
    refine ⟨h.idling, h.paired, t, ht, hflag, hwait.2.1, ?_⟩
    rcases hwait.2.2 with ⟨-, hq⟩ | ⟨hset, -⟩
    · exact hq
    · rw [hflag] at hset
      cases hset
  rw [Kernel.park]
  generalize hk₁ :
      (k.modifyCurrent fun t => { t with state := .blocked, waitReason := reason }) = k₁
  have hpile : k₁.pile = k.pile := by rw [← hk₁]; rfl
  have hblocked : Working k₁ fun t p => t.state = .blocked ∧ t.sigInterrupted = false ∧
      AtInt t.mem k₁.pile.issued.rip ∧ p.Quiet := by
    rw [hpile, ← hk₁]
    exact hquiet.modifyCurrent fun t p ht => ⟨rfl, ht⟩
  have hnote : Working (k₁.note (.parked k₁.current k₁.pile.issued)) fun t p =>
      Fits k₁.pile.issued t p := by
    refine hblocked.note rfl fun t p h => ?_
    obtain ⟨hb, hflag, hat, hq⟩ := h
    rw [hq.advance_parked, Fits, hb]
    exact ⟨Phase.noConfusion, hflag, rfl, hat⟩
  exact (hnote.setPile _).schedule

/-- A handler goes back: to where the call was cut short, if that is where it came from. -/
lemma Working.goBack (h : Working k fun t p => t.state = .running ∧ Settled t p)
    (ht : k.currentTask = some t)
    (hback : ∀ f, phase k k.current = .handling f →
      (restoredFrame t.mem t.sigCtx).cpu = f ∧ AtInt t.mem f.rip) : Tidy (goBack k t) := by
  obtain ⟨r, hr, hgo⟩ := goBack_eq k t
  have hr := hr ht
  have hready : Working (k.touch false t.sigCtx.toNat sizeofRegs) fun t p =>
      t.state = .running ∧ ((t.sigInterrupted = false ∧ p.Quiet) ∨
        (t.sigInterrupted = true ∧ p = .handling r.cpu ∧ AtInt t.mem r.cpu.rip)) := by
    obtain ⟨t', ht', hrun, hset⟩ := h.current
    obtain rfl := Option.some.inj (ht.symm.trans ht')
    refine ⟨h.idling, ⟨h.paired.sound, h.paired.fresh, h.paired.saved⟩, t, ht, hrun, ?_⟩
    rcases hset with hset | ⟨hflag, -, f, hp⟩
    · exact .inl hset
    · obtain ⟨hcpu, hat⟩ := hback f hp
      rw [hr, hcpu]
      exact .inr ⟨hflag, hp, hat⟩
  have hnote : Working ((k.touch false t.sigCtx.toNat sizeofRegs).note
      (.returned k.current r.cpu)) fun t p => t.state = .running ∧
        ((t.sigInterrupted = false ∧ p.Quiet) ∨ Reissuing r.cpu t p) := by
    refine hready.note rfl fun t p h => ?_
    obtain ⟨hrun, hcase⟩ := h
    rcases hcase with ⟨hflag, hq⟩ | ⟨hflag, hp, hat⟩
    · rw [hq.advance_returned]
      exact ⟨Phase.noConfusion, hrun, .inl ⟨hflag, .inl rfl⟩⟩
    · rw [hp, Phase.advance_returned]
      exact ⟨Phase.noConfusion, hrun, .inr ⟨hflag, rfl, hat⟩⟩
  rw [hgo]
  refine .busy ((hnote.setPile r).modifyCurrent fun t p h => ?_)
  obtain ⟨hrun, hcase⟩ := h
  refine ⟨hrun, ?_⟩
  rcases hcase with hq | hre
  · exact .inl (.inl hq)
  · exact .inr hre

/-! ### Signals -/

lemma stable_handling : Stable fun t p => t.state = .running ∧
    ((t.sigInterrupted = false ∧ p.Quiet) ∨ (t.sigInterrupted = true ∧ ∃ f, p = .handling f)) := by
  refine ⟨⟨fun _ _ h => h.1, fun _ _ _ h => h⟩, fun t t' p h ho => ⟨ho.state.trans h.1, ?_⟩⟩
  rw [ho.sigInterrupted]
  exact h.2

/-- A handler is entered where the task was about to go on. -/
lemma Working.enterHandler
    (h : Working k fun t p => t.state = .running ∧ Awake k.pile.cpu t p)
    (ht : k.currentTask = some t) (hact : t.sigActive = false) (sig : ℕ) :
    Tidy (enterHandler k t sig) := by
  have hidle : Working k fun t p => t.state = .running ∧
      ((t.sigInterrupted = false ∧ p.Quiet) ∨
        (t.sigInterrupted = true ∧ p = .cut k.pile.cpu)) := by
    obtain ⟨t', ht', hrun, hawake⟩ := h.current
    obtain rfl := Option.some.inj (ht.symm.trans ht')
    refine ⟨h.idling, h.paired, t, ht, hrun, ?_⟩
    rcases hawake with (hq | ⟨-, hset, -⟩) | ⟨hflag, hp, -⟩
    · exact .inl hq
    · rw [hact] at hset
      cases hset
    · exact .inr ⟨hflag, hp⟩
  have hnote : Working (k.note (.entered k.current k.pile.cpu)) fun t p => t.state = .running ∧
      ((t.sigInterrupted = false ∧ p.Quiet) ∨
        (t.sigInterrupted = true ∧ ∃ f, p = .handling f)) := by
    refine hidle.note rfl fun t p h => ?_
    obtain ⟨hrun, hcase⟩ := h
    rcases hcase with ⟨hflag, hq⟩ | ⟨hflag, hp⟩
    · rw [hq.advance_entered]
      exact ⟨Phase.noConfusion, hrun, .inl ⟨hflag, .inl rfl⟩⟩
    · rw [hp, Phase.advance_entered]
      exact ⟨Phase.noConfusion, hrun, .inr ⟨hflag, _, rfl⟩⟩
  have hstored := (hnote.effects stable_handling
    (held_store 0 _ (signalFrame k.pile.userRsp).toNat k.pile.bytes)).effects stable_handling
    (held_store 0 _ (signalFrame k.pile.userRsp - 8).toNat (wordBytes t.sigTrampoline))
  rw [Kernel.enterHandler]
  refine Working.busy ((hstored.setPile _).modifyCurrent fun t p h => ?_)
  obtain ⟨hrun, hcase⟩ := h
  refine ⟨hrun, ?_⟩
  rcases hcase with hq | ⟨hflag, hp⟩
  · exact .inl hq
  · exact .inr ⟨hflag, rfl, hp⟩

/-- `check_signals` enters a handler, ends the task or does nothing. -/
lemma Working.checkSignals
    (h : Working k fun t p => t.state = .running ∧ Awake k.pile.cpu t p) :
    Tidy (checkSignals k) := by
  obtain ⟨t, ht, -⟩ := id h.current
  rw [Kernel.checkSignals, ht]
  refine iteInduction (fun _ => .busy h) fun _ => iteInduction (fun _ => .busy h) fun _ =>
    iteInduction (fun _ => .busy h) fun hact => ?_
  cases lowestPending t with
  | none => exact .busy h
  | some sig =>
    refine iteInduction (fun _ => ?_) fun _ => ?_
    · refine Working.endBySignal (C := fun t _ => t.state = .running) ?_ (fun _ _ hr => hr) _
      exact h.modifyCurrent fun _ _ hr => hr.1
    · rw [deliverToHandler]
      exact iteInduction (fun _ => h.endBySignal (fun _ _ hr => hr.1) _) fun _ =>
        h.enterHandler ht (Bool.eq_false_iff.mpr hact) sig

/-! ### One step -/

/-- What is asked of a system call, by the phase of the task that issues it. The call that was
cut short still has to wait when it is issued again. A handler that runs in between makes
no call that has to wait, and goes back to where it came from. -/
def OrderlyCall (k : Kernel) : Phase → Prop
  | .cut _ => k.mustWait = true
  | .handling f =>
    if SysCall.ofWord k.pile.rax = some .sigreturn then
      ∀ t ∈ k.currentTask, (restoredFrame t.mem t.sigCtx).cpu = f ∧ AtInt t.mem f.rip
    else k.mustWait = false
  | _ => True

instance (k : Kernel) : ∀ p, Decidable (OrderlyCall k p)
  | .cut _ => inferInstanceAs (Decidable (_ = _))
  | .handling _ => inferInstanceAs (Decidable (ite _ _ _))
  | .free => isTrue trivial
  | .asleep _ => isTrue trivial
  | .broken => isTrue trivial

/-- What is asked of a step. -/
def Orderly (k : Kernel) : Event → Prop
  | .syscall _ => OrderlyCall k (phase k k.current)
  | _ => True

instance (k : Kernel) : ∀ e, Decidable (Orderly k e)
  | .syscall _ => inferInstanceAs (Decidable (OrderlyCall _ _))
  | .user _ _ => isTrue trivial
  | .timer => isTrue trivial
  | .key _ => isTrue trivial
  | .irq _ => isTrue trivial

/-- Entering the kernel does not change whether a call has to wait. -/
lemma mustWait_enter (k : Kernel) (vector rip : Word) :
    mustWait (k.enter vector rip) = mustWait k := rfl

lemma mustWait_of_sigreturn (h : SysCall.ofWord k.pile.rax = some .sigreturn) :
    mustWait k = false := by
  rw [mustWait, h]

/-- A call that has to wait is the one that was cut short, or nothing is on its way. -/
lemma waiting_of_orderly (h : Working k fun t p => t.state = .running ∧ Awake k.pile.cpu t p)
    (hat : AtInt k.mem k.pile.rip) (ho : OrderlyCall k (phase k k.current))
    (hw : k.mustWait = true) : Working k (Waiting k.pile.cpu) := by
  obtain ⟨t, ht, hrun, hawake⟩ := h.current
  have hmem : k.mem = t.mem := by rw [mem, ht]; rfl
  refine ⟨h.idling, h.paired, t, ht, hrun, hmem ▸ hat, ?_⟩
  rcases hawake with (hq | ⟨-, -, f, hp⟩) | ⟨hflag, hp, -⟩
  · exact .inl hq
  · rw [hp, OrderlyCall] at ho
    split_ifs at ho with hcall
    · rw [mustWait_of_sigreturn hcall] at hw
      cases hw
    · rw [hw] at ho
      cases ho
  · exact .inr ⟨hflag, hp⟩

/-- A call that does not have to wait is not the one that was cut short. -/
lemma settled_of_orderly (h : Working k fun t p => t.state = .running ∧ Awake k.pile.cpu t p)
    (ho : OrderlyCall k (phase k k.current)) (hw : k.mustWait = false) :
    Working k fun t p => t.state = .running ∧ Settled t p := by
  obtain ⟨t, ht, hrun, hawake⟩ := h.current
  refine ⟨h.idling, h.paired, t, ht, hrun, ?_⟩
  rcases hawake with hset | ⟨-, hp, -⟩
  · exact hset
  · rw [hp, OrderlyCall, hw] at ho
    cases ho

/-- **A system call keeps the protocol** if it is orderly. -/
lemma tidy_syscallBody (h : Working k fun t p => t.state = .running ∧ Awake k.pile.cpu t p)
    (hat : AtInt k.mem k.pile.rip) (ho : OrderlyCall k (phase k k.current)) (a : Answers) :
    Tidy (syscallBody (k.enter 0x50 (k.pile.rip + intInstrLen)) a) := by
  have hends := syscallBody_ends (k.enter 0x50 (k.pile.rip + intInstrLen)) a
  have hissued := issued_enter k 0x50
  rw [mustWait_enter] at hends
  cases hw : k.mustWait with
  | true =>
    have hwait := (waiting_of_orderly h hat ho hw).enter 0x50 (k.pile.rip + intInstrLen)
    rw [hw] at hends
    generalize syscallBody _ a = k₁ at hends ⊢
    cases hends with
    | interrupted hr hb hc =>
      have h₁ := hwait.asides (steady_waiting _) (hr.asides.trans hb.asides)
      rw [← hissued, ← Asides.pile (hr.asides.trans hb.asides)] at h₁
      exact h₁.interrupt hc
    | parked hr hb hc =>
      have h₁ := hwait.asides (steady_waiting _) (hr.asides.trans hb.asides)
      rw [← hissued, ← Asides.pile (hr.asides.trans hb.asides)] at h₁
      exact h₁.park hc _
  | false =>
    have hset := (settled_of_orderly h ho hw).enter 0x50 (k.pile.rip + intInstrLen)
    rw [hw] at hends
    generalize syscallBody _ a = k₁ at hends ⊢
    cases hends with
    | served v hd => exact (hset.effects stable_settled hd.effects).reply v
    | exited hcall => exact hset.taskExit (fun _ _ hr => hr.1) _
    | ended => exact hset.endBySignal (fun _ _ hr => hr.1) _
    | wentBack ht hact hok hcall =>
      refine hset.goBack ht fun f hp => ?_
      rw [show phase k k.current = .handling f from hp, OrderlyCall,
        if_pos (by exact hcall)] at ho
      exact ho _ ht
    | gone hn =>
      obtain ⟨t, ht, -⟩ := hset.current
      rw [hn] at ht
      cases ht

lemma steady_awake (fr : Regs) : Steady fun t p => t.state = .running ∧ Awake fr t p :=
  ⟨fun _ _ h => h.1, fun _ _ _ h => h⟩

lemma Working.fits (h : Working k fun t p => t.state = .running ∧ Awake fr t p) :
    Working k fun t p => Fits fr t p :=
  h.mono fun _ _ ht => fits_of_awake ht.2 (by simp [ht.1])

lemma Tidy.handled (h : Tidy k) {e : Event} (ho : Orderly k e) (hk : k.handled e = some k') :
    Tidy k' := by
  cases h with
  | idle h =>
    rw [handled_of_idling h.idling hk]
    exact (h.asides (presses_pressed k e).asides).resume
  | busy h =>
    cases handling_of_handled hk with
    | user r mem hi hstep hat =>
      -- a task about to issue its call again stands at the `int`
      have hset : Working k fun t p => t.state = .running ∧ Settled t p := by
        obtain ⟨t, ht, hrun, hawake⟩ := h.current
        have hmem : k.mem = t.mem := by rw [Kernel.mem, ht]; rfl
        rw [hmem] at hat
        exact ⟨h.idling, h.paired, t, ht, hrun, hawake.resolve_right fun hre => hat hre.2.2⟩
      rw [userStep]
      refine Working.busy ((hset.setPile r).modifyCurrent ?_)
      exact fun _ _ hr => hr
    | syscall a hi hat => exact tidy_syscallBody h hat ho a
    | timer hi => exact (h.fits.enter 0x40 k.pile.rip).schedule
    | key c hi =>
      have ha := (presses_keyboardCallback (k.enter 0x41 k.pile.rip) c).asides
      have h₁ := (h.enter 0x41 k.pile.rip).asides (steady_awake _) ha
      rw [show k.pile.cpu = (k.enter 0x41 k.pile.rip).pile.cpu from rfl, ← ha.pile] at h₁
      exact .busy h₁
    | irq v hi => exact .busy (h.enter v k.pile.rip)
    | parked hi => cases hi.symm.trans h.idling

lemma Tidy.leave (h : Tidy k) : Tidy k.leave := by
  rw [Kernel.leave]
  refine iteInduction (fun _ => h) fun hi => ?_
  cases h with
  | idle h => exact absurd (.inl h.idling) hi
  | busy h =>
    exact Working.checkSignals
      ⟨h.idling, ⟨h.paired.sound, h.paired.fresh, h.paired.saved⟩, h.current⟩

/-- **So does a step.** -/
lemma Tidy.step (h : Tidy k) {e : Event} (ho : Orderly k e) (hk : k.step e = some k') :
    Tidy k' := by
  obtain ⟨k₁, h₁, rfl⟩ := Option.map_eq_some_iff.mp hk
  exact (h.handled ho h₁).leave

/-! ### Runs -/

lemma tidy_boot (image : Image) (r : Regs) : Tidy (boot image r) := by
  have htask : ∀ i t, (boot image r).task i = some t → i = 0 := by
    intro i t ht
    cases i with
    | zero => rfl
    | succ i => simp [task, boot] at ht
  refine .busy ⟨rfl, ⟨fun i => Phase.noConfusion, fun i _ => rfl, fun i t hi ht => ?_⟩, _, rfl, rfl,
    .inl (.inl ⟨rfl, .inl rfl⟩)⟩
  exact absurd (congrArg some (htask i t ht)) hi

lemma Awake.flag_iff (h : Awake fr t p) : t.sigInterrupted = p.flagged := by
  rcases h with (⟨hflag, rfl | ⟨f, rfl⟩⟩ | ⟨hflag, -, f, rfl⟩) | ⟨hflag, rfl, -⟩ <;> exact hflag

lemma Fits.flag_iff (h : Fits fr t p) (hz : t.state ≠ .zombie) : t.sigInterrupted = p.flagged := by
  by_cases hb : t.state = .blocked
  · obtain ⟨hflag, rfl, -⟩ := h.blocked hb
    exact hflag
  · exact (h.awake hb hz).flag_iff

lemma Tidy.sound (h : Tidy k) (i : ℕ) : phase k i ≠ .broken := by
  cases h with
  | busy h => exact h.paired.sound i
  | idle h => exact h.paired.sound i

/-- The flag of a task says where it is. -/
lemma Tidy.flag_iff (h : Tidy k) (ht : k.task i = some t) (hz : t.state ≠ .zombie) :
    t.sigInterrupted = (phase k i).flagged := by
  cases h with
  | idle h => exact (h.paired.saved i t (by simp) ht).flag_iff hz
  | busy h =>
    rcases eq_or_ne i k.current with rfl | hi
    · obtain ⟨t', ht', -, hawake⟩ := h.current
      obtain rfl := Option.some.inj (ht.symm.trans ht')
      exact hawake.flag_iff
    · exact (h.paired.saved i t (fun he => hi (Option.some.inj he)) ht).flag_iff hz

/-- **Interrupted calls.** From boot on, however the events are interleaved: as long as a call
that was cut short still has to wait when it is issued again, and a handler entered before
that makes no call that has to wait and goes back to where it came from, the calls of every
task keep to the protocol. So an interruption is reported to the call that was cut short
and to no other, and the flag is set from the signal to that report and at no other time. -/
theorem interrupted_call_paired (image : Image) (r : Regs) {es : List Event} {k : Kernel}
    (hrun : Runs.exec Kernel.step (boot image r) es = some k)
    (horderly : Along Kernel.step Orderly (boot image r) es) :
    (∀ i, phase k i ≠ .broken) ∧
      ∀ i t, k.task i = some t → t.state ≠ .zombie → t.sigInterrupted = (phase k i).flagged := by
  have h : Tidy k :=
    exec_invariant (fun _ _ _ hs hC hstep => hs.step hC hstep) hrun horderly (tidy_boot _ _)
  exact ⟨h.sound, fun i t ht hz => h.flag_iff ht hz⟩

end Kernel

/-! ### A handler that waits -/

/-- A program with `int 0x50` at two addresses, one for its main part and one for its handler. -/
def twoIntMem : ℕ → UInt8 := fun a =>
  if a = 0x400100 ∨ a = 0x400200 then 0xCD else if a = 0x400101 ∨ a = 0x400201 then 0x50 else 0

/-- The program a machine is booted with. -/
def twoIntImage : Image := ⟨0x400000, 0, twoIntMem⟩

/-- The registers with which a system call without arguments is issued. -/
def callFrame (rip rax userRsp : Word) : Regs :=
  { forgedFrame rip with rax := rax, userRsp := userRsp }

/-- A program installs a handler for `SIG_INT` and waits for a key; control and C are pressed,
and its handler is entered. -/
def keyRun : List Event :=
  [.user
    { callFrame 0x400100 14 0x800000 with rdi := 2, rsi := 0x400010, rdx := 0x400020 } twoIntMem,
    .syscall noAnswers, .user (callFrame 0x400100 2 0x800000) twoIntMem, .syscall noAnswers,
    .key 0x1D, .key 0x2E]

/-- The handler goes back, and the program waits for a key once more. -/
def backRun : List Event :=
  keyRun ++
    [.user (callFrame 0x400200 16 0x7FFEC8)
      (Bytes.storeAt twoIntMem 0x7FFED0 (callFrame 0x400100 2 0x800000).bytes),
      .syscall noAnswers, .syscall noAnswers]

/-- The interruption is reported once the handler has gone back. -/
theorem interrupted_call_paired_backRun :
    ∃ k, Runs.exec Kernel.step (boot twoIntImage {}) backRun = some k ∧
      .interrupted 0 (callFrame 0x400100 2 0x800000) ∈ k.calls ∧ ∀ i, phase k i ≠ .broken := by
  have hrun : (Runs.exec Kernel.step (boot twoIntImage {}) backRun).any (fun k =>
      .interrupted 0 (callFrame 0x400100 2 0x800000) ∈ k.calls) = true := by
    decide +kernel
  obtain ⟨k, hk, h⟩ := Option.any_eq_true _ _ |>.mp hrun
  exact ⟨k, hk, of_decide_eq_true h,
    (interrupted_call_paired twoIntImage {} hk (by decide +kernel)).1⟩

/-- The handler waits for a key instead: its call is interrupted, and the flag is gone for the
one that was cut short. -/
theorem handler_call_interrupted :
    ∃ k, Runs.exec Kernel.step (boot twoIntImage {})
        (keyRun ++ [.user (callFrame 0x400200 2 0x7FFEC8) twoIntMem, .syscall noAnswers]) = some k ∧
      .cut 0 (callFrame 0x400100 2 0x800000) ∈ k.calls ∧
      .interrupted 0 (callFrame 0x400200 2 0x7FFEC8) ∈ k.calls ∧
      .interrupted 0 (callFrame 0x400100 2 0x800000) ∉ k.calls ∧ phase k 0 = .broken := by
  have hrun : (Runs.exec Kernel.step (boot twoIntImage {})
      (keyRun ++ [.user (callFrame 0x400200 2 0x7FFEC8) twoIntMem, .syscall noAnswers])).any
      (fun k => .cut 0 (callFrame 0x400100 2 0x800000) ∈ k.calls ∧
        .interrupted 0 (callFrame 0x400200 2 0x7FFEC8) ∈ k.calls ∧
        .interrupted 0 (callFrame 0x400100 2 0x800000) ∉ k.calls ∧ phase k 0 = .broken) = true := by
    decide +kernel
  obtain ⟨k, hk, h⟩ := Option.any_eq_true _ _ |>.mp hrun
  exact ⟨k, hk, of_decide_eq_true h⟩

end TownOS
