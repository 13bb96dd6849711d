import TownOS.Kernel.Rotation
import TownOS.Kernel.Handlers

/-!
`SIG_KILL` and the handlers of other signals (`kernel/signal.c`).

`check_signals` takes the lowest pending signal. `SIG_KILL` has no handler and ends the task,
but a signal with a lower number is looked at first, and if that has a handler the task goes
on in it. This is the only way: as long as no lower signal with a handler is pending when
`check_signals` finds `SIG_KILL` pending, the task is not going to enter a handler again.

* `Fated.action`: a task with `SIG_KILL` pending keeps it until it is a zombie;
* `kill_uncaught`: no handler is entered any more.
-/

namespace TownOS

namespace Kernel

open Relation Runs

variable {C : Kernel → Prop} {k k' : Kernel} {i : ℕ}

/-! ### The pending signal -/

/-- `SIG_KILL` is pending on a task, if it is there, and no handler of it runs. -/
def Marked (i : ℕ) (k : Kernel) : Prop :=
  i < k.tasks.length ∧ ∀ t, k.task i = some t →
    t.sigPending.getLsbD sigKill = true ∧ t.sigActive = false

lemma Marked.spares (h : Marked i k) (hs : Spares i k k') : Marked i k' := by
  refine ⟨h.1.trans_le hs.grows, fun t' ht' => ?_⟩
  obtain ⟨t, ht, hu⟩ := hs.task h.1 t' ht'
  obtain ⟨hpend, hact⟩ := h.2 t ht
  exact ⟨hu.sigPending _ hpend, hu.sigActive.trans hact⟩

/-- `SIG_KILL` is pending on a task, or it is about to exit, or it has. -/
def Fated (i : ℕ) (s : Stage × Kernel) : Prop :=
  Buried i s.2 ∨ (∃ status, s.1 = .doomed status ∧ s.2.current = i) ∨ Marked i s.2

/-- The lowest pending signal is the lowest. -/
lemma lowestPending_le {t : Task} {sig n : ℕ} (hsig : lowestPending t = some sig) (hpos : 0 < n)
    (hn : t.sigPending.getLsbD n = true) : sig ≤ n := by
  rw [lowestPending, List.find?_range'_eq_some] at hsig
  by_contra hgt
  have hnone := hsig.2.2 n hpos (Nat.lt_of_not_le hgt)
  rw [hn] at hnone
  cases hnone

/-- When `check_signals` finds `SIG_KILL` pending on a task, none of the signals before it has
both been raised and been given a handler. -/
def KillFirst (i : ℕ) (k : Kernel) : Prop :=
  k.current = i → ∀ t, k.currentTask = some t → t.sigPending.getLsbD sigKill = true →
    ∀ sig, 0 < sig → sig < sigKill → t.sigPending.getLsbD sig = true → t.sigHandlers sig = 0

/-- Then `check_signals` enters no handler of it. -/
lemma Fated.not_enters {held : Multiset File} (h : Fated i (.busy held, k))
    (hrot : Rotation (.busy held) k) (hfirst : KillFirst i k) (hin : Enters k) : k.current ≠ i := by
  intro hcur
  obtain ⟨t, sig, ht, hact, hsig, hh⟩ := hin
  rcases h with hb | ⟨status, hp, -⟩ | hm
  · obtain ⟨t', ht', hs, -⟩ := hrot.current
    have hz := hb.2 t' (hcur ▸ ht')
    rw [show t'.state = .running from hs] at hz
    cases hz
  · cases hp
  · have hpend := (hm.2 t (hcur ▸ ht)).1
    have hle := lowestPending_le hsig (by decide) hpend
    rw [lowestPending, List.find?_range'_eq_some] at hsig
    have hpos : 0 < sig := by
      have := List.mem_range'_1.mp hsig.2.1
      omega
    refine hh ?_
    rcases Nat.lt_or_eq_of_le hle with hlt | heq
    · exact .inl (hfirst hcur t ht hpend sig hpos hlt hsig.1)
    · exact .inr heq

/-- The task is about to exit: its descriptors are closed, and it becomes a zombie. -/
lemma Fated.doomed {s s' : Stage × Kernel} {status : ℕ} (ha : Action C s s')
    (hrot : Rotation s.1.mode s.2) (hp : s.1 = .doomed status) (hcur : s.2.current = i) :
    Fated i s' := by
  cases ha with
  | @shut status k fd =>
    obtain ⟨-, -, hcur'⟩ := Effects.frame (deeds_closeFd k fd).effects
    exact .inr (.inl ⟨status, rfl, hcur'.trans hcur⟩)
  | @bury status k hcause hclosed =>
    obtain ⟨t, ht, -⟩ := hrot.current
    refine .inl ⟨?_, fun t' ht' => ?_⟩
    · rw [← hcur]
      exact (lt_length_of_task ht).trans_eq (List.length_modify ..).symm
    · obtain ⟨t₁, ht₁, rfl⟩ := Option.map_eq_some_iff.mp
        ((task_modifyTask_self (k := k) (i := k.current)).symm.trans (hcur ▸ ht'))
      rfl
  | press hy hs | sweep hy hs | save hy k =>
    obtain rfl : _ = Stage.doomed status := hp
    rcases hy with hy | hy <;> cases hy
  | deed | enter | user | reply | interrupt | goBack | enterHandler | checked | exits
  | condemned | killed | rouse | park | lost | dispatch | rest | stir => cases hp

/-- The signal stays pending, or it ends the task. -/
lemma Fated.marked {s s' : Stage × Kernel} (ha : Action (KillFirst i) s s')
    (hrot : Rotation s.1.mode s.2) (hm : Marked i s.2) : Fated i s' := by
  rcases ha.signals i with hs | ⟨hp, hcur, hd⟩
  · exact .inr (.inr (hm.spares hs))
  · obtain ⟨p, k⟩ := s
    obtain rfl : p = .busy 0 := hp
    generalize hs' : s' = x at hd
    cases hd with
    | goBack ht hact =>
      rw [(hm.2 _ (hcur ▸ ht)).2] at hact
      cases hact
    | enterHandler hC he => exact absurd hcur (Fated.not_enters (.inr (.inr hm)) hrot hC he)
    | killed sig ht hact hcur' => exact .inr (.inl ⟨_, rfl, hcur'.trans hcur⟩)

/-- A task on which `SIG_KILL` is pending keeps it until it exits. -/
lemma Fated.action {s s' : Stage × Kernel} (ha : Action (KillFirst i) s s')
    (hrot : Rotation s.1.mode s.2) (h : Fated i s) : Fated i s' := by
  rcases h with hb | ⟨status, hp, hcur⟩ | hm
  · exact .inl (Moves.invariant (I := fun s => Rotation s.1 s.2 ∧ Buried i s.2) ha.moves
      (fun _ _ hm h => ⟨h.1.turn hm.turn, h.2.turn hm.turn h.1⟩) ⟨hrot, hb⟩).2
  · exact Fated.doomed ha hrot hp hcur
  · exact Fated.marked ha hrot hm

lemma Rotation.action {s s' : Stage × Kernel} (ha : Action C s s') (hrot : Rotation s.1.mode s.2) :
    Rotation s'.1.mode s'.2 :=
  Moves.invariant (I := fun s => Rotation s.1 s.2) ha.moves (fun _ _ hm h => h.turn hm.turn) hrot

/-- No handler of the task is entered any more. -/
lemma Fated.unentered {s s' : Stage × Kernel} (ha : Actions (KillFirst i) s s')
    (hrot : Rotation s.1.mode s.2) (h : Fated i s) :
    ∃ notes, s'.2.calls = s.2.calls ++ notes ∧ ∀ frame, Note.entered i frame ∉ notes := by
  refine (Actions.invariant (I := fun x => Rotation x.1.mode x.2 ∧ Fated i x ∧
    ∃ notes, x.2.calls = s.2.calls ++ notes ∧ ∀ frame, Note.entered i frame ∉ notes) ha ?_
    ⟨hrot, h, [], (List.append_nil _).symm, fun _ => List.not_mem_nil⟩).2.2
  rintro ⟨p, k⟩ s' ha ⟨hrot, hf, notes, heq, hn⟩
  refine ⟨Rotation.action ha hrot, Fated.action ha hrot hf, ?_⟩
  obtain ⟨new, hnew, hentered⟩ := ha.notes
  refine ⟨notes ++ new, by rw [hnew, heq, List.append_assoc], fun frame hmem => ?_⟩
  rcases List.mem_append.mp hmem with hmem | hmem
  · exact hn frame hmem
  · obtain ⟨rfl, hC, henters, hcur⟩ := hentered i frame hmem
    exact hf.not_enters hrot hC henters hcur

/-! ### Runs -/

/-- A moment of a run, and the state in which its step ends: between two steps, or when
`check_signals` is called. -/
inductive Moment (image : Image) (r : Regs) : Kernel → Kernel → Prop
  | between {es : List Event} {k : Kernel} (hrun : Runs.exec step (boot image r) es = some k) :
      Moment image r k k
  | checking {es : List Event} {e : Event} {k₀ k : Kernel}
      (hrun : Runs.exec step (boot image r) es = some k₀) (hk : k₀.handled e = some k) :
      Moment image r k (leave k)

lemma run_rotation {image : Image} {r : Regs} {es : List Event} {k : Kernel}
    (hrun : Runs.exec step (boot image r) es = some k) : Rotation (stageOf k).mode k := by
  rw [mode_stageOf]
  exact Moves.invariant (I := fun s => Rotation s.1 s.2) (run_moves hrun)
    (fun _ _ hm h => h.turn hm.turn) (Rotation.boot image r)

/-- **`SIG_KILL` and handlers.** Whenever `SIG_KILL` is pending on a task and none of its
handlers runs, no handler of it is entered afterwards, for every interleaving in which
`check_signals` never finds a signal with a handler before `SIG_KILL`. -/
theorem kill_uncaught {image : Image} {r : Regs} {k k₁ k' : Kernel} {es : List Event} {i : ℕ}
    {t : Task} (hmoment : Moment image r k k₁) (hrun : Runs.exec step k₁ es = some k')
    (ht : k.task i = some t) (hpend : t.sigPending.getLsbD sigKill = true)
    (hact : t.sigActive = false) (hnow : k₁ ≠ k → KillFirst i k)
    (hfirst : Along step (ChecksIn (KillFirst i)) k₁ es) :
    ∃ notes, k'.calls = k.calls ++ notes ∧ ∀ frame, Note.entered i frame ∉ notes := by
  have hmarked : Marked i k := by
    refine ⟨lt_length_of_task ht, fun t' ht' => ?_⟩
    obtain rfl := Option.some.inj (ht.symm.trans ht')
    exact ⟨hpend, hact⟩
  have hrest := run_actions hfirst hrun
  have hall : Actions (KillFirst i) (stageOf k, k) (stageOf k', k') ∧
      Rotation (stageOf k).mode k := by
    cases hmoment with
    | between hrun₀ => exact ⟨hrest, run_rotation hrun₀⟩
    | checking hrun₀ hk =>
      refine ⟨?_, ?_⟩
      · by_cases hsame : leave k = k
        · rwa [hsame] at hrest
        · have hl : Leads (KillFirst i) (stageOf k, k) (leave k) :=
            leave_leads (k := k) .refl (hnow hsame)
          exact hl.trans hrest
      · have hl : Leads (fun _ => True) (stageOf _, _) k := handled_leads hk
        exact Actions.invariant (I := fun s => Rotation s.1.mode s.2) hl
          (fun _ _ ha h => Rotation.action ha h) (run_rotation hrun₀)
  exact Fated.unentered hall.1 hall.2 (.inr (.inr hmarked))

end Kernel

/-! ### Two signals at once -/

/-- A program named `A`, with `int 0x50` at the usual place. -/
def nameMem : ℕ → UInt8 := fun a => if a = 0x400010 then 0x41 else intMem a

/-- A program starts another, which installs a handler for `SIG_INT` or not; then the first one
sends it `SIG_KILL` and another signal. -/
def killRun (handler : Word) (sig : Word) : List Event :=
  [loadCall 4 0x400010 (-1) (-1) 0x800000 nameMem,
    .syscall { noAnswers with image := some intImage },
    .timer, loadCall 14 2 handler 0x400020 0x800000 intMem, .syscall noAnswers,
    .timer, loadCall 15 1 9 0 0x800000 nameMem, .syscall noAnswers,
    loadCall 15 1 sig 0 0x800000 nameMem, .syscall noAnswers]

/-- Nothing is pending before `SIG_KILL`, and the task is killed. -/
theorem kill_uncaught_killRun :
    ∃ k k' t, Runs.exec Kernel.step (boot intImage {}) (killRun 0x400030 12) = some k ∧
      k.task 1 = some t ∧ t.sigPending.getLsbD sigKill = true ∧ t.sigActive = false ∧
      Runs.exec Kernel.step k [.timer] = some k' ∧
      ∃ notes, k'.calls = k.calls ++ notes ∧ ∀ frame, Note.entered 1 frame ∉ notes := by
  have hrun : (Runs.exec Kernel.step (boot intImage {}) (killRun 0x400030 12)).any (fun k =>
      (k.task 1).any (fun t => t.sigPending = 0x1200 ∧ t.sigActive = false) ∧
        (Runs.exec Kernel.step k [.timer]).isSome ∧
        (k.handled .timer).any fun k₁ => k₁.currentTask.any fun t => t.sigPending = 0x1200) =
          true := by
    decide +kernel
  obtain ⟨k, hk, h⟩ := Option.any_eq_true _ _ |>.mp hrun
  obtain ⟨ht, hk', h₁⟩ := of_decide_eq_true h
  obtain ⟨t, ht, h⟩ := Option.any_eq_true _ _ |>.mp ht
  obtain ⟨hpend, hact⟩ := of_decide_eq_true h
  obtain ⟨k', hk'⟩ := Option.isSome_iff_exists.mp hk'
  obtain ⟨k₁, hk₁, h₁⟩ := Option.any_eq_true _ _ |>.mp h₁
  obtain ⟨t₁, ht₁, h₁⟩ := Option.any_eq_true _ _ |>.mp h₁
  have hpend₁ : t₁.sigPending = 0x1200 := of_decide_eq_true h₁
  have hkill : t.sigPending.getLsbD sigKill = true := by
    rw [hpend]
    decide
  refine ⟨k, k', t, hk, ht, hkill, hact, hk',
    Kernel.kill_uncaught (.between hk) hk' ht hkill hact (fun hne => absurd rfl hne)
      ⟨fun k₂ hk₂ _ t₂ ht₂ _ sig _ hlt hsig => ?_, fun _ _ => trivial⟩⟩
  obtain rfl := Option.some.inj (hk₁.symm.trans hk₂)
  obtain rfl := Option.some.inj (ht₁.symm.trans ht₂)
  rw [hpend₁] at hsig
  have hnone : ∀ n < sigKill, (0x1200 : BitVec 32).getLsbD n = false := by decide
  rw [hnone sig hlt] at hsig
  cases hsig

/-- `SIG_INT` is pending as well. The handler is entered, and `SIG_KILL` stays pending. -/
theorem kill_caught :
    ∃ k k' t frame, Runs.exec Kernel.step (boot intImage {}) (killRun 0x400030 2) = some k ∧
      k.task 1 = some t ∧ t.sigPending.getLsbD sigKill = true ∧ t.sigActive = false ∧
      Runs.exec Kernel.step k [.timer] = some k' ∧
      k'.calls = k.calls ++ [.entered 1 frame] ∧ k'.current = 1 ∧ k'.pile.rip = 0x400030 := by
  have hrun : (Runs.exec Kernel.step (boot intImage {}) (killRun 0x400030 2)).any (fun k =>
      (k.task 1).any (fun t => t.sigPending.getLsbD sigKill = true ∧ t.sigActive = false) ∧
        (Runs.exec Kernel.step k [.timer]).any fun k' =>
          k'.calls = k.calls ++ [.entered 1
            { forgedFrame 0x400102 with rdi := 2, rsi := 0x400030, rdx := 0x400020 }] ∧
              k'.current = 1 ∧
            k'.pile.rip = 0x400030) = true := by
    decide +kernel
  obtain ⟨k, hk, h⟩ := Option.any_eq_true _ _ |>.mp hrun
  obtain ⟨ht, hk'⟩ := of_decide_eq_true h
  obtain ⟨t, ht, h⟩ := Option.any_eq_true _ _ |>.mp ht
  obtain ⟨k', hk', h'⟩ := Option.any_eq_true _ _ |>.mp hk'
  obtain ⟨hpend, hact⟩ := of_decide_eq_true h
  exact ⟨k, k', t, _, hk, ht, hpend, hact, hk', of_decide_eq_true h'⟩

end TownOS
