import TownOS.Kernel.Step

/-!
The `kill` command of the shell (`cmd_kill` and `parse_uint` of `user/shell.c`) and
`SYS_KILL` behind it.

A number goes a long way: `parse_uint` accumulates it in 64 bits, `cmd_kill` hands the
signal on as an `int`, and `sys_kill` reads both arguments in 32 bits. None of these
checks the range, so a number that is too large stands for a smaller one.

* `parseUint_eq`: what `parse_uint` makes of a token;
* `run_sysKill`: what `sys_kill` does with its arguments;
* `kill_named_iff`: a signal goes to the task that was named, or to none, exactly if no
  number is too large and still names a live task and a signal.
-/

namespace TownOS.Shell

open Kernel

/-! ### The command -/

/-- The loop of `parse_uint`, with the value so far; `none` at a character that is no digit. -/
def parseUintLoop : List Char → Word → Option Word
  | [], v => some v
  | c :: s, v =>
    if c < '0' ∨ '9' < c then none
    else parseUintLoop s (v * 10 + BitVec.ofNat 64 (c.toNat - '0'.toNat))

/-- `parse_uint`; `none` when it sets `*ok` to 0. -/
def parseUint (s : List Char) : Option Word := if s.length = 0 then none else parseUintLoop s 0

/-- `SIG_INT`. -/
def sigInt : Word := 2

/-- `sys_kill` of `user/userlib.h`, called with `(int)sig`: the registers the kernel gets. -/
def killArgs (k : Kernel) (id sig : Word) : Kernel :=
  k.setPile { k.pile with rdi := id, rsi := (sig.truncate 32).signExtend 64 }

/-- The call in `cmd_kill`, with the line it prints when it fails. -/
def killCall (k : Kernel) (id sig : Word) : String × Kernel :=
  let k' := sysKill (killArgs k id sig)
  if k'.pile.rax = syscallError then
    ("kill: no such task, or not a signal this kernel has\n", k')
  else ("", k')

/-- `cmd_kill`, run by the shell on the kernel `k`: the line it prints, and the kernel after
the call. -/
def cmdKill (k : Kernel) (idTok sigTok : Option (List Char)) : String × Kernel :=
  match idTok with
  | none => ("kill: missing task id (try 'ps')\n", k)
  | some idTok =>
    match parseUint idTok with
    | none => ("kill: task id must be a number\n", k)
    | some id =>
      match sigTok with
      | none => killCall k id sigInt
      | some sigTok =>
        match parseUint sigTok with
        | none => ("kill: signal must be a number\n", k)
        | some sig => killCall k id sig

/-! ### Numbers -/

/-- A decimal digit. -/
def isDigit (c : Char) : Bool := '0' ≤ c ∧ c ≤ '9'

/-- The number a list of digits stands for. -/
def digitsValue (s : List Char) : ℕ :=
  Nat.ofDigits 10 (s.reverse.map fun c => c.toNat - '0'.toNat)

/-- The number a token stands for, if it is one. -/
def numberOf (s : List Char) : Option ℕ :=
  if s ≠ [] ∧ s.all isDigit then some (digitsValue s) else none

lemma digitsValue_cons (c : Char) (s : List Char) :
    digitsValue (c :: s) = digitsValue s + 10 ^ s.length * (c.toNat - '0'.toNat) := by
  simp [digitsValue, Nat.ofDigits_append]

lemma accumulate_modEq (v : Word) (digit place rest : ℕ) :
    (v * 10 + BitVec.ofNat 64 digit).toNat * place + rest ≡
      v.toNat * (place * 10) + (rest + place * digit) [MOD 2 ^ 64] := by
  have hstep : (v * 10 + BitVec.ofNat 64 digit).toNat ≡ v.toNat * 10 + digit [MOD 2 ^ 64] := by
    rw [BitVec.toNat_add, BitVec.toNat_mul, BitVec.toNat_ofNat]
    simp [Nat.ModEq]
  calc (v * 10 + BitVec.ofNat 64 digit).toNat * place + rest
      ≡ (v.toNat * 10 + digit) * place + rest [MOD 2 ^ 64] :=
        (hstep.mul_right place).add_right rest
    _ = v.toNat * (place * 10) + (rest + place * digit) := by ring

lemma parseUintLoop_eq (s : List Char) (v : Word) :
    parseUintLoop s v = if s.all isDigit then
      some (BitVec.ofNat 64 (v.toNat * 10 ^ s.length + digitsValue s)) else none := by
  induction s generalizing v with
  | nil => simp [parseUintLoop, digitsValue]
  | cons c s ih =>
    rw [parseUintLoop]
    have hdigit : ¬(c < '0' ∨ '9' < c) ↔ isDigit c = true := by
      rw [not_or, Char.not_lt, Char.not_lt, isDigit, decide_eq_true_eq]
    by_cases hc : isDigit c = true
    · rw [if_neg (hdigit.mpr hc), ih]
      simp only [List.all_cons, hc, Bool.true_and]
      refine if_congr Iff.rfl (congrArg some (BitVec.eq_of_toNat_eq ?_)) rfl
      rw [BitVec.toNat_ofNat, BitVec.toNat_ofNat, digitsValue_cons, List.length_cons, pow_succ]
      exact accumulate_modEq v _ _ _
    · rw [if_pos (not_not.mp (mt hdigit.mp hc))]
      simp [hc]

/-- `parse_uint` takes the number modulo 2 to the 64. -/
lemma parseUint_eq (s : List Char) : parseUint s = (numberOf s).map (BitVec.ofNat 64) := by
  rw [parseUint, numberOf, parseUintLoop_eq]
  cases s with
  | nil => simp
  | cons c s =>
    rw [if_neg (by simp)]
    by_cases h : (c :: s).all isDigit = true
    · rw [if_pos h, if_pos ⟨by simp, h⟩]
      simp
    · rw [if_neg h, if_neg fun hs => h hs.2]
      rfl

/-! ### The system call -/

/-- A live task, and a signal of this kernel. -/
def Target (k : Kernel) (n s : ℕ) : Prop :=
  (∃ t, k.task n = some t ∧ t.state ≠ .zombie) ∧ 1 ≤ s ∧ s < maxSigs

lemma asInt_range (w : Word) :
    (1 ≤ w.toNat % 2 ^ 32 ∧ w.toNat % 2 ^ 32 < maxSigs) ↔ ¬(asInt w ≤ 0 ∨ maxSigs ≤ asInt w) := by
  rw [asInt, BitVec.toInt_eq_toNat_cond, BitVec.truncate_eq_setWidth, BitVec.toNat_setWidth,
    maxSigs]
  split_ifs <;> omega

lemma asInt_of_range {w : Word} (h : w.toNat % 2 ^ 32 < maxSigs) :
    asInt w = (w.toNat % 2 ^ 32 : ℕ) := by
  rw [maxSigs] at h
  rw [asInt, BitVec.toInt_eq_toNat_cond, BitVec.truncate_eq_setWidth, BitVec.toNat_setWidth,
    if_pos (by omega)]

lemma truncate_signExtend (x : BitVec 32) : (x.signExtend 64).truncate 32 = x := by
  refine BitVec.eq_of_getLsbD_eq fun i hi => ?_
  simp [BitVec.getLsbD_signExtend, hi]
  omega

section Kernel

variable {k k' : Kernel} {n s : ℕ}

/-- What `signal_raise` does to the task table depends on the table only. -/
lemma tasks_signalRaise (h : k'.tasks = k.tasks) (sig : ℤ) :
    (signalRaise k' n sig).tasks = (signalRaise k n sig).tasks := by
  have htask : k'.task n = k.task n := by rw [Kernel.task, Kernel.task, h]
  rw [signalRaise, signalRaise, htask]
  split_ifs
  · exact h
  · cases k.task n with
    | none => exact h
    | some t =>
      dsimp only
      split_ifs <;> simp [modifyTask, note, h]

/-- `sys_kill` reads the low 32 bits of its arguments: either they name a live task and a
signal, which is raised, or the call fails. -/
lemma run_sysKill (k : Kernel) :
    (Target k (k.pile.rdi.toNat % 2 ^ 32) (k.pile.rsi.toNat % 2 ^ 32) ∧
      (sysKill k).pile.rax = 0 ∧ (sysKill k).tasks =
        (signalRaise k (k.pile.rdi.toNat % 2 ^ 32) (k.pile.rsi.toNat % 2 ^ 32 : ℕ)).tasks) ∨
    (¬Target k (k.pile.rdi.toNat % 2 ^ 32) (k.pile.rsi.toNat % 2 ^ 32) ∧
      (sysKill k).pile.rax = syscallError ∧ (sysKill k).tasks = k.tasks) := by
  rw [sysKill, asUint32]
  cases ht : k.task (k.pile.rdi.toNat % 2 ^ 32) with
  | none =>
    refine .inr ⟨?_, rfl, rfl⟩
    rintro ⟨⟨t, ht', -⟩, -⟩
    exact absurd (ht.symm.trans ht') (by simp)
  | some t =>
    dsimp only
    by_cases hz : t.state = .zombie
    · rw [if_pos hz]
      refine .inr ⟨?_, rfl, rfl⟩
      rintro ⟨⟨t', ht', hlive⟩, -⟩
      obtain rfl := Option.some.inj (ht.symm.trans ht')
      exact hlive hz
    · rw [if_neg hz]
      by_cases hsig : asInt k.pile.rsi ≤ 0 ∨ maxSigs ≤ asInt k.pile.rsi
      · rw [if_pos hsig]
        exact .inr ⟨fun h => (asInt_range _).mp h.2 hsig, rfl, rfl⟩
      · rw [if_neg hsig]
        have hrange := (asInt_range _).mpr hsig
        rw [asInt_of_range hrange.2]
        exact .inl ⟨⟨⟨t, ht, hz⟩, hrange⟩, rfl, rfl⟩

/-! ### What was named -/

/-- The outcome is right: the signal is raised on the task that was named, or the call fails
and no task changes. -/
def HitsNamed (k k' : Kernel) (named : Option (ℕ × ℕ)) (failed : Prop) : Prop :=
  (∃ n s, named = some (n, s) ∧ Target k n s ∧ ¬failed ∧ k'.tasks = (signalRaise k n s).tasks) ∨
    ((∀ n s, named = some (n, s) → ¬Target k n s) ∧ failed ∧ k'.tasks = k.tasks)

/-- A number is too large, and what is left of the two names a live task and a signal. -/
def Overshoots (k : Kernel) (n s : ℕ) : Prop :=
  (2 ^ 32 ≤ n ∨ 2 ^ 32 ≤ s) ∧ Target k (n % 2 ^ 32) (s % 2 ^ 32)

lemma Target.lt (h : Target k n s) (hids : k.tasks.length ≤ 2 ^ 32) : n < 2 ^ 32 ∧ s < 2 ^ 32 := by
  obtain ⟨⟨t, ht, -⟩, -, hs⟩ := h
  have hn := lt_length_of_task ht
  rw [maxSigs] at hs
  omega

/-- `sys_kill`, for a caller who means the numbers `n` and `s` by its arguments. -/
lemma hitsNamed_sysKill (hids : k.tasks.length ≤ 2 ^ 32) (htasks : k'.tasks = k.tasks)
    (hn : k'.pile.rdi.toNat % 2 ^ 32 = n % 2 ^ 32) (hs : k'.pile.rsi.toNat % 2 ^ 32 = s % 2 ^ 32) :
    HitsNamed k (sysKill k') (some (n, s)) ((sysKill k').pile.rax = syscallError) ↔
      ¬Overshoots k n s := by
  have htarget : ∀ n s, Target k' n s ↔ Target k n s := fun n s => by
    rw [Target, Target, Kernel.task, Kernel.task, htasks]
  have hrun := run_sysKill k'
  rw [hn, hs, htarget] at hrun
  rcases hrun with ⟨hhit, hrax, hafter⟩ | ⟨hmiss, hrax, hafter⟩
  · by_cases hbig : 2 ^ 32 ≤ n ∨ 2 ^ 32 ≤ s
    · refine iff_of_false ?_ fun hno => hno ⟨hbig, hhit⟩
      rintro (⟨n', s', heq, htgt, -⟩ | ⟨-, hfail, -⟩)
      · obtain ⟨rfl, rfl⟩ := Prod.mk.inj (Option.some.inj heq)
        have := htgt.lt hids
        omega
      · rw [hrax] at hfail
        exact absurd hfail (by decide)
    · refine iff_of_true (.inl ⟨n, s, rfl, ?_, ?_, ?_⟩) fun hover => hbig hover.1
      · rwa [Nat.mod_eq_of_lt (by omega), Nat.mod_eq_of_lt (by omega)] at hhit
      · rw [hrax]
        decide
      · rw [hafter, Nat.mod_eq_of_lt (by omega), Nat.mod_eq_of_lt (by omega)]
        exact tasks_signalRaise htasks _
  · refine iff_of_true (.inr ⟨fun n' s' heq htgt => hmiss ?_, hrax, hafter.trans htasks⟩)
      fun hover => hmiss hover.2
    obtain ⟨rfl, rfl⟩ := Prod.mk.inj (Option.some.inj heq)
    have := htgt.lt hids
    rwa [Nat.mod_eq_of_lt this.1, Nat.mod_eq_of_lt this.2]

end Kernel

/-- The two numbers typed: the signal is 2 if it is left out. -/
def typed (idTok sigTok : Option (List Char)) : Option (ℕ × ℕ) := do
  let n ← numberOf (← idTok)
  let s ← match sigTok with
    | none => some 2
    | some tok => numberOf tok
  pure (n, s)

/-- The line printed says whether the call has failed. -/
lemma killCall_fails (k : Kernel) (id sig : Word) :
    (killCall k id sig).1 ≠ "" ↔ (killCall k id sig).2.pile.rax = syscallError := by
  rw [killCall]
  split_ifs with h
  · exact iff_of_true (by simp) h
  · exact iff_of_false (by simp) h

lemma hitsNamed_killCall {k : Kernel} {n s : ℕ} (hids : k.tasks.length ≤ 2 ^ 32) :
    HitsNamed k (killCall k (BitVec.ofNat 64 n) (BitVec.ofNat 64 s)).2 (some (n, s))
        ((killCall k (BitVec.ofNat 64 n) (BitVec.ofNat 64 s)).1 ≠ "") ↔ ¬Overshoots k n s := by
  have hcall : (killCall k (BitVec.ofNat 64 n) (BitVec.ofNat 64 s)).2 =
      sysKill (killArgs k (BitVec.ofNat 64 n) (BitVec.ofNat 64 s)) := by
    rw [killCall]
    split_ifs <;> rfl
  rw [killCall_fails, hcall]
  refine hitsNamed_sysKill hids rfl ?_ ?_
  · simp only [killArgs, setPile, BitVec.toNat_ofNat]
    omega
  · have htrunc := congrArg BitVec.toNat (truncate_signExtend ((BitVec.ofNat 64 s).truncate 32))
    simp only [BitVec.truncate_eq_setWidth, BitVec.toNat_setWidth, BitVec.toNat_ofNat] at htrunc
    simp only [killArgs, setPile, BitVec.truncate_eq_setWidth]
    omega

/-- **When `kill` hits only the task that was named.** For all arguments of `SYS_KILL`, and for
all tokens typed at the shell: the signal is raised on the task whose id is the number named, or
the call fails and no task changes, if and only if it is not so that a number of 32 bits or
more is left, after the truncations, with the id of a live task and a signal. -/
theorem kill_named_iff (k : Kernel) (hids : k.tasks.length ≤ 2 ^ 32) :
    (HitsNamed k (sysKill k) (some (k.pile.rdi.toNat, k.pile.rsi.toNat))
        ((sysKill k).pile.rax = syscallError) ↔
      ¬Overshoots k k.pile.rdi.toNat k.pile.rsi.toNat) ∧
    ∀ idTok sigTok,
      (HitsNamed k (cmdKill k idTok sigTok).2 (typed idTok sigTok)
        ((cmdKill k idTok sigTok).1 ≠ "") ↔
        ∀ n s, typed idTok sigTok = some (n, s) → ¬Overshoots k n s) := by
  refine ⟨hitsNamed_sysKill hids rfl rfl rfl, fun idTok sigTok => ?_⟩
  -- without two numbers the shell makes no call
  have hnone : ∀ line : String, line ≠ "" → cmdKill k idTok sigTok = (line, k) →
      typed idTok sigTok = none →
      (HitsNamed k (cmdKill k idTok sigTok).2 (typed idTok sigTok)
          ((cmdKill k idTok sigTok).1 ≠ "") ↔
        ∀ n s, typed idTok sigTok = some (n, s) → ¬Overshoots k n s) := by
    intro line hline hcmd htyped
    rw [hcmd, htyped]
    exact iff_of_true (.inr ⟨fun _ _ h => absurd h (by simp), hline, rfl⟩)
      fun _ _ h => absurd h (by simp)
  have hsome : ∀ n s : ℕ, cmdKill k idTok sigTok =
      killCall k (BitVec.ofNat 64 n) (BitVec.ofNat 64 s) → typed idTok sigTok = some (n, s) →
      (HitsNamed k (cmdKill k idTok sigTok).2 (typed idTok sigTok)
          ((cmdKill k idTok sigTok).1 ≠ "") ↔
        ∀ n s, typed idTok sigTok = some (n, s) → ¬Overshoots k n s) := by
    intro n s hcmd htyped
    rw [hcmd, htyped, hitsNamed_killCall hids]
    simp
  cases idTok with
  | none => exact hnone _ (by decide) rfl rfl
  | some idTok =>
    cases hid : numberOf idTok with
    | none =>
      refine hnone "kill: task id must be a number\n" (by decide) ?_ ?_
      · rw [cmdKill, parseUint_eq, hid]
        rfl
      · simp [typed, hid]
    | some n =>
      cases sigTok with
      | none =>
        refine hsome n 2 ?_ (by simp [typed, hid])
        rw [cmdKill, parseUint_eq, hid]
        rfl
      | some sigTok =>
        cases hsig : numberOf sigTok with
        | none =>
          refine hnone "kill: signal must be a number\n" (by decide) ?_ ?_
          · simp only [cmdKill, parseUint_eq, hid, hsig, Option.map_some, Option.map_none]
          · simp [typed, hsig]
        | some s =>
          refine hsome n s ?_ (by simp [typed, hid, hsig])
          simp only [cmdKill, parseUint_eq, hid, hsig, Option.map_some]

/-- The machine after the start of the shell, which is task 0. -/
def shellKernel : Kernel := boot ⟨0, 0, fun _ => 0⟩ {}

/-- `kill 0` is for the shell. -/
theorem kill_named_iff_shell :
    typed (some ['0']) none = some (0, 2) ∧
      HitsNamed shellKernel (cmdKill shellKernel (some ['0']) none).2 (typed (some ['0']) none)
        ((cmdKill shellKernel (some ['0']) none).1 ≠ "") := by
  have hnumber : numberOf ['0'] = some 0 := by
    rw [numberOf, if_pos (by decide)]
    simp [digitsValue]
  have htyped : typed (some ['0']) none = some (0, 2) := by
    simp [typed, hnumber]
  refine ⟨htyped, ((kill_named_iff shellKernel Nat.one_le_two_pow).2 _ _).mpr fun n s h hover => ?_⟩
  obtain ⟨rfl, rfl⟩ := Prod.mk.inj (Option.some.inj (htyped.symm.trans h))
  have := hover.1
  omega

/-- `kill 18446744073709551616` names no task, and interrupts the shell: the command prints no
error, and the signal is pending on task 0. So it is after `SYS_KILL` of task 4294967296. -/
theorem kill_hits_shell :
    numberOf ['1', '8', '4', '4', '6', '7', '4', '4', '0', '7', '3', '7', '0', '9', '5', '5', '1',
        '6', '1', '6'] = some (2 ^ 64) ∧
      shellKernel.task (2 ^ 64) = none ∧ shellKernel.task (2 ^ 32) = none ∧
      (cmdKill shellKernel (some ['1', '8', '4', '4', '6', '7', '4', '4', '0', '7', '3', '7', '0',
        '9', '5', '5', '1', '6', '1', '6']) none).1 = "" ∧
      ((cmdKill shellKernel (some ['1', '8', '4', '4', '6', '7', '4', '4', '0', '7', '3', '7', '0',
        '9', '5', '5', '1', '6', '1', '6']) none).2.task 0).map Task.sigPending = some 4 ∧
      (sysKill (killArgs shellKernel 0x100000000 2)).pile.rax = 0 ∧
      ((sysKill (killArgs shellKernel 0x100000000 2)).task 0).map Task.sigPending = some 4 := by
  refine ⟨?_, rfl, rfl, by decide +kernel, by decide +kernel, by decide +kernel,
    by decide +kernel⟩
  rw [numberOf, if_pos (by decide)]
  simp [digitsValue, Nat.ofDigits]

end TownOS.Shell
