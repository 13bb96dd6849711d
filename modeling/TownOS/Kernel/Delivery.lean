import TownOS.Kernel.Privilege

/-!
Where the delivery of a signal writes.

`deliver_to_handler` computes the place of the saved registers from the stack pointer of
ring 3, and checks that the registers and eight more bytes fit from there on. But the
eight bytes of the return address are pushed below, not above.

* `signalFrame_toNat`, `signalFrame_eq_start_iff`: the place of the saved registers, and the
  sixteen stack pointers that put them at the very start of the region;
* `taskExit_dead`: a task that exits writes nothing;
* `delivery_confined_iff`: a delivery writes within the region, or it writes nothing and the
  task is killed, unless the stack pointer is one of those sixteen.
-/

namespace TownOS

/-! ### The place of the saved registers -/

/-- Clearing the low four bits. -/
lemma and_not_fifteen (x : Word) : (x &&& ~~~0xF#64).toNat = x.toNat / 16 * 16 := by
  have hmask : (~~~0xF#64).toNat = 2 ^ 64 - (15 + 1) := by decide
  rw [BitVec.toNat_and, hmask]
  refine Nat.eq_of_testBit_eq fun i => ?_
  have h15 : Nat.testBit 15 i = decide (i < 4) := Nat.testBit_two_pow_sub_one 4 i
  rw [Nat.testBit_and, Nat.testBit_two_pow_sub_succ (by decide), h15,
    show x.toNat / 16 * 16 = x.toNat >>> 4 <<< 4 by
      rw [Nat.shiftLeft_eq, Nat.shiftRight_eq_div_pow],
    Nat.testBit_shiftLeft, Nat.testBit_shiftRight]
  by_cases hi : i < 4
  · simp [hi, Nat.not_le.mpr hi]
  · rw [show 4 + (i - 4) = i by omega]
    by_cases h64 : i < 64
    · simp [hi, h64, Nat.not_lt.mp hi]
    · simp [Nat.testBit_lt_two_pow (x.isLt.trans_le (Nat.pow_le_pow_right (by decide)
        (Nat.not_lt.mp h64)))]

/-- The place of the saved registers, with the wrap-around of the two subtractions. -/
lemma signalFrame_toNat (rsp : Word) :
    (signalFrame rsp).toNat =
      ((rsp.toNat + (2 ^ 64 - 128)) % 2 ^ 64 / 16 * 16 + (2 ^ 64 - 176)) % 2 ^ 64 := by
  have h128 : redZoneBytes.toNat = 128 := rfl
  have h176 : (BitVec.ofNat 64 sizeofRegs).toNat = 176 := rfl
  rw [signalFrame, BitVec.toNat_sub, and_not_fifteen, BitVec.toNat_sub, h128, h176]
  omega

lemma signalFrame_mod (rsp : Word) : (signalFrame rsp).toNat % 16 = 0 := by
  rw [signalFrame_toNat]
  omega

/-- The stack pointers that put the saved registers at the start of the region. -/
lemma signalFrame_eq_start_iff (rsp : Word) :
    (signalFrame rsp).toNat = userRegionStart ↔
      0x400130 ≤ rsp.toNat ∧ rsp.toNat ≤ 0x40013F := by
  have hlt := rsp.isLt
  rw [signalFrame_toNat, userRegionStart]
  omega

namespace Kernel

variable {k k₁ k₂ : Kernel}

/-! ### Exiting writes nothing -/

/-- No task comes, goes or is written to. -/
structure Kept (k k' : Kernel) : Prop where
  current : k'.current = k.current
  touched : k'.touched = k.touched
  mem : ∀ i, (k'.task i).map Task.mem = (k.task i).map Task.mem

lemma Kept.refl (k : Kernel) : Kept k k := ⟨rfl, rfl, fun _ => rfl⟩

lemma Kept.trans (h : Kept k k₁) (h' : Kept k₁ k₂) : Kept k k₂ :=
  ⟨h'.current.trans h.current, h'.touched.trans h.touched, fun i => (h'.mem i).trans (h.mem i)⟩

lemma kept_modifyTask {i : ℕ} {f : Task → Task} (hf : ∀ t, (f t).mem = t.mem) :
    Kept k (k.modifyTask i f) := by
  refine ⟨rfl, rfl, fun j => ?_⟩
  rw [task_modifyTask]
  split_ifs
  · rw [Option.map_map]
    exact congrArg (Option.map · _) (funext hf)
  · rfl

lemma kept_schedulerWake (k : Kernel) (reason : WaitReason) : Kept k (schedulerWake k reason) := by
  refine ⟨rfl, rfl, fun i => ?_⟩
  rw [task_schedulerWake, Option.map_map]
  refine congrArg (Option.map · _) (funext fun t => ?_)
  rw [Function.comp_apply]
  split_ifs <;> rfl

/-- Closing a file writes to no task. -/
lemma kept_fileClose (k : Kernel) (f : File) : Kept k (fileClose k f) :=
  fileClose_rel .refl (fun _ _ _ => .trans) (fun _ _ _ => ⟨rfl, rfl, fun _ => rfl⟩)
    kept_schedulerWake k f

lemma kept_setFd (k : Kernel) (fd : ℕ) (f : Option File) : Kept k (k.setFd fd f) := by
  rw [setFd, modifyCurrent]
  refine kept_modifyTask ?_
  exact fun _ => rfl

lemma kept_closeFd (k : Kernel) (fd : ℕ) : Kept k (closeFd k fd) := by
  rw [closeFd]
  cases k.currentFile fd with
  | none => exact .refl k
  | some f => exact (kept_setFd k fd none).trans (kept_fileClose _ f)

lemma kept_closeAll (k : Kernel) : Kept k (closeAll k) :=
  List.foldlRecOn _ closeFd (Kept.refl k) fun k₁ h fd _ => h.trans (kept_closeFd k₁ fd)

/-! ### The zombie -/

/-- The task in a slot has exited, with a status and a memory. -/
def Dead (k : Kernel) (i status : ℕ) (mem : ℕ → UInt8) : Prop :=
  ∃ t, k.task i = some t ∧ t.state = .zombie ∧ t.exitStatus = status ∧ t.mem = mem

lemma task_dispatch_of_ne {i next : ℕ} (h : i ≠ next) : (dispatch k next).task i = k.task i := by
  have hmod := task_modifyTask_of_ne (k := k) (f := fun t => { t with state := .running }) h
  rw [dispatch]
  refine iteInduction (motive := fun x : Kernel => x.task i = _) (fun _ => hmod) fun _ => ?_
  split <;> exact hmod

lemma Dead.saveCurrent {i status : ℕ} {mem : ℕ → UInt8} (h : Dead k i status mem) :
    Dead k.saveCurrent i status mem := by
  obtain ⟨t, ht, hz, hs, hm⟩ := h
  rw [Dead, Kernel.saveCurrent, modifyCurrent, task_modifyTask, ht]
  split_ifs
  · refine ⟨_, rfl, ?_, hs, hm⟩
    dsimp only
    rw [hz]
    rfl
  · exact ⟨t, rfl, hz, hs, hm⟩

/-- A zombie is not given the CPU. -/
lemma Dead.dispatch {i next status : ℕ} {mem : ℕ → UInt8} (h : Dead k i status mem)
    (hr : k.isReady next) : Dead (k.dispatch next) i status mem := by
  have hne : i ≠ next := by
    rintro rfl
    obtain ⟨t, ht, hz, -⟩ := h
    rw [isReady, ht, Option.any_some, decide_eq_true_eq, hz] at hr
    cases hr
  rw [Dead, task_dispatch_of_ne hne]
  exact h

/-- Nor is it freed by the switch it makes. -/
lemma Dead.schedule {status : ℕ} {mem : ℕ → UInt8} (h : Dead k k.current status mem) :
    Dead k.schedule k.current status mem := by
  have hsweep : Dead (reapSweep k) k.current status mem := by
    rw [Dead, (sweeps_reapSweep k).spared.task]
    exact h
  rw [Kernel.schedule]
  refine iteInduction (motive := fun x => Dead x _ _ _) (fun _ => h) fun _ => ?_
  dsimp only
  split
  · exact hsweep
  · split
    · rename_i hn
      exact hsweep.saveCurrent.dispatch (isReady_of_findNextReady hn)
    · exact hsweep.saveCurrent

/-- A task that is buried has exited. -/
lemma dead_bury {t : Task} (ht : k.currentTask = some t) (status : ℕ) :
    Dead (bury k status) k.current (status % 256) t.mem := by
  rw [Dead, bury, task_live, modifyCurrent, task_modifyTask_self,
    show k.task k.current = some t from ht]
  exact ⟨_, rfl, rfl, rfl, rfl⟩

/-- A task that exits becomes a zombie with its status, and nothing is written to its memory
or touched at all. -/
lemma taskExit_dead {t : Task} (ht : k.currentTask = some t) (status : ℕ) :
    Dead (taskExit k status) k.current (status % 256) t.mem ∧
      (taskExit k status).touched = k.touched := by
  have hkept := kept_closeAll k
  obtain ⟨t₁, ht₁, hm₁⟩ : ∃ t₁, (closeAll k).currentTask = some t₁ ∧ t₁.mem = t.mem := by
    have hmem := hkept.mem k.current
    rw [show k.task k.current = some t from ht, Option.map_some, Option.map_eq_some_iff] at hmem
    obtain ⟨t₁, ht₁, hm₁⟩ := hmem
    refine ⟨t₁, ?_, hm₁⟩
    rw [currentTask, hkept.current]
    exact ht₁
  rw [taskExit]
  generalize closeAll k = k₀ at hkept ht₁ ⊢
  have hdead := hm₁ ▸ dead_bury ht₁ status
  obtain ⟨t₂, ht₂, hz₂, -⟩ := id hdead
  have hspared := spared_wakeParent ht₂ (by simp [hz₂])
    ((bury k₀ status).currentTask.bind Task.parentId)
  generalize wakeParent _ _ = k₁ at hspared ⊢
  have hcur : k₁.current = k.current := hspared.current.trans hkept.current
  constructor
  · rw [← hcur]
    refine Dead.schedule ?_
    rw [Dead, hspared.current, hspared.task]
    exact hdead
  · exact (switchFrame_schedule k₁).touched.trans (hspared.touched.trans hkept.touched)

/-! ### The delivery -/

/-- What the kernel writes to user addresses between two states lies in the region of ring
3, and no memory outside of it changes. -/
structure WritesConfined (k k' : Kernel) : Prop where
  spans : ∃ spans, k'.touched = k.touched ++ spans ∧ ∀ s ∈ spans, s.write = true →
    userRegionStart ≤ s.addr ∧ s.addr + s.len ≤ userSpaceEnd
  mem : ∀ i a, a < userRegionStart ∨ userSpaceEnd ≤ a →
    (k'.task i).map (fun t => t.mem a) = (k.task i).map (fun t => t.mem a)

/-- The running task is killed for its stack pointer, and nothing is written. -/
def KilledUnwritten (k k' : Kernel) (t : Task) : Prop :=
  k'.touched = k.touched ∧ Dead k' k.current (sigExitStatus sigSegv) t.mem

lemma length_bytes (r : Regs) : r.bytes.length = sizeofRegs := by
  simp [Regs.bytes, Regs.words, length_wordBytes, sizeofRegs]

lemma touched_store (k : Kernel) (addr : ℕ) (bytes : List UInt8) :
    (k.store addr bytes).touched = k.touched ++ [⟨true, addr, bytes.length⟩] := rfl

/-- The two writes of a delivery: the registers, and the return address below them. -/
lemma touched_enterHandler (k : Kernel) (t : Task) (sig : ℕ) :
    (enterHandler k t sig).touched = k.touched ++
      [⟨true, (signalFrame k.pile.userRsp).toNat, 176⟩,
        ⟨true, (signalFrame k.pile.userRsp - 8).toNat, 8⟩] := by
  have hregs : k.pile.bytes.length = 176 := length_bytes _
  have hret : (wordBytes t.sigTrampoline).length = 8 := length_wordBytes _
  calc (enterHandler k t sig).touched
      = ((k.store (signalFrame k.pile.userRsp).toNat k.pile.bytes).store
          (signalFrame k.pile.userRsp - 8).toNat (wordBytes t.sigTrampoline)).touched := rfl
    _ = _ := by
        rw [touched_store, touched_store, hregs, hret, List.append_assoc, List.singleton_append]

/-- A write within the region changes no memory outside of it. -/
lemma mem_store_outside (k : Kernel) {addr a : ℕ} (bytes : List UInt8)
    (h₁ : userRegionStart ≤ addr) (h₂ : addr + bytes.length ≤ userSpaceEnd)
    (ha : a < userRegionStart ∨ userSpaceEnd ≤ a) (i : ℕ) :
    ((k.store addr bytes).task i).map (fun t => t.mem a) = (k.task i).map (fun t => t.mem a) := by
  have hout : a < addr ∨ addr + bytes.length ≤ a := by omega
  rw [store, modifyCurrent, task_modifyTask]
  split_ifs
  · rw [Option.map_map]
    exact congrArg (Option.map · _) (funext fun t => Bytes.storeAt_outside hout)
  · rfl

/-- The registers and the return address lie in the region. -/
lemma writesConfined_enterHandler {t : Task} {sig : ℕ}
    (h₁ : userRegionStart ≤ (signalFrame k.pile.userRsp - 8).toNat)
    (h₂ : (signalFrame k.pile.userRsp - 8).toNat + 8 = (signalFrame k.pile.userRsp).toNat)
    (h₃ : (signalFrame k.pile.userRsp).toNat + 176 ≤ userSpaceEnd) :
    WritesConfined k (enterHandler k t sig) := by
  have hctx : userRegionStart ≤ (signalFrame k.pile.userRsp).toNat := by omega
  have hret : (signalFrame k.pile.userRsp - 8).toNat + 8 ≤ userSpaceEnd := by omega
  refine ⟨⟨_, touched_enterHandler k t sig, fun s hs _ => ?_⟩, fun i a ha => ?_⟩
  · simp only [List.mem_cons, List.not_mem_nil, or_false] at hs
    rcases hs with rfl | rfl
    · exact ⟨hctx, h₃⟩
    · exact ⟨h₁, hret⟩
  · have hregs := mem_store_outside k k.pile.bytes hctx (by rwa [length_bytes]) ha i
    rw [enterHandler, modifyCurrent, task_modifyTask]
    refine Eq.trans ?_ ((mem_store_outside _ (wordBytes t.sigTrampoline) h₁
      (by rwa [length_wordBytes]) ha i).trans hregs)
    split_ifs
    · rw [Option.map_map]
      rfl
    · rfl

/-- **Delivery.** Whatever the stack pointer: the registers and the return address are written
within the region of ring 3 and the handler is entered, or nothing is written and the task
exits with the status of `SIG_SEGV`; unless the stack pointer is one of sixteen, for which
the return address is written to the eight bytes below the region. -/
theorem delivery_confined_iff {t : Task} (ht : k.currentTask = some t) (sig : ℕ) :
    (WritesConfined k (deliverToHandler k t sig) ∧
        (deliverToHandler k t sig).pile.rip = t.sigHandlers sig) ∨
      KilledUnwritten k (deliverToHandler k t sig) t ↔
    ¬(0x400130 ≤ k.pile.userRsp.toNat ∧ k.pile.userRsp.toNat ≤ 0x40013F) := by
  have hmod := signalFrame_mod k.pile.userRsp
  have hrange := userRangeOk_iff (signalFrame k.pile.userRsp) (BitVec.ofNat 64 (sizeofRegs + 8))
  rw [show (BitVec.ofNat 64 (sizeofRegs + 8)).toNat = 184 from rfl, userSpaceEnd] at hrange
  rw [← signalFrame_eq_start_iff, deliverToHandler]
  by_cases hok : userRangeOk (signalFrame k.pile.userRsp) (BitVec.ofNat 64 (sizeofRegs + 8)) = true
  · rw [if_neg (by simp [hok])]
    obtain ⟨hlo, hhi, -⟩ := hrange.mp hok
    have hsub : (signalFrame k.pile.userRsp - 8).toNat = (signalFrame k.pile.userRsp).toNat - 8 :=
      BitVec.toNat_sub_of_le (BitVec.le_def.mpr ((by decide : 8 ≤ userRegionStart).trans hlo))
    have htouched := touched_enterHandler k t sig
    constructor
    · rintro (⟨hconf, -⟩ | ⟨hsame, -⟩) hstart
      · -- the return address is below the region
        obtain ⟨spans, hspans, hin⟩ := hconf.spans
        obtain rfl := List.append_cancel_left (htouched.symm.trans hspans)
        have hret := (hin _ (List.mem_cons_of_mem _ List.mem_cons_self) rfl).1
        rw [hsub, hstart] at hret
        exact absurd hret (by decide)
      · rw [hsame] at htouched
        simp at htouched
    · intro hstart
      rw [userRegionStart] at hlo hstart
      refine .inl ⟨writesConfined_enterHandler ?_ ?_ ?_, rfl⟩
      · rw [hsub, userRegionStart]
        omega
      · omega
      · rw [userSpaceEnd]
        omega
  · rw [if_pos (by simp [hok])]
    obtain ⟨hdead, htouched⟩ := taskExit_dead
      (k := k.live (.condemned k.current sigSegv)) ht (sigExitStatus sigSegv)
    refine iff_of_true (.inr ⟨htouched, hdead⟩) fun hstart => hok (hrange.mpr ?_)
    rw [hstart]
    decide

end Kernel

/-! ### The sixteen stack pointers -/

/-- A program installs a handler for `SIG_INT`, with its stack pointer at a given place. -/
def installRun (userRsp : Word) : List Event :=
  [loadCall 14 2 0x400010 0x400020 userRsp intMem, .syscall noAnswers]

/-- With the stack pointer in the middle of the region. -/
theorem delivery_confined_iff_installRun :
    ∃ k t, Runs.exec Kernel.step (boot intImage {}) (installRun 0x800000) = some k ∧
      k.currentTask = some t ∧
      ((k.WritesConfined (k.deliverToHandler t 2) ∧
          (k.deliverToHandler t 2).pile.rip = t.sigHandlers 2) ∨
        k.KilledUnwritten (k.deliverToHandler t 2) t) := by
  have hrun : (Runs.exec Kernel.step (boot intImage {}) (installRun 0x800000)).any (fun k =>
      k.currentTask.isSome ∧ k.pile.userRsp = 0x800000) = true := by
    decide +kernel
  obtain ⟨k, hk, h⟩ := Option.any_eq_true _ _ |>.mp hrun
  obtain ⟨ht, hrsp⟩ := of_decide_eq_true h
  obtain ⟨t, ht⟩ := Option.isSome_iff_exists.mp ht
  refine ⟨k, t, hk, ht, (Kernel.delivery_confined_iff ht 2).mpr ?_⟩
  rw [hrsp]
  decide

/-- The return address is written below the region, to the eight bytes at `0x3FFFF8`, and
the handler is entered all the same. -/
theorem delivery_below_region :
    ∃ k t, Runs.exec Kernel.step (boot intImage {}) (installRun 0x400130) = some k ∧
      k.currentTask = some t ∧
      (k.deliverToHandler t 2).touched =
        k.touched ++ [⟨true, 0x400000, 176⟩, ⟨true, 0x3FFFF8, 8⟩] ∧
      (k.deliverToHandler t 2).pile.rip = 0x400010 ∧ 0x3FFFF8 < userRegionStart := by
  have hrun : (Runs.exec Kernel.step (boot intImage {}) (installRun 0x400130)).any (fun k =>
      k.currentTask.any fun t =>
        (k.deliverToHandler t 2).touched =
            k.touched ++ [⟨true, 0x400000, 176⟩, ⟨true, 0x3FFFF8, 8⟩] ∧
          (k.deliverToHandler t 2).pile.rip = 0x400010) = true := by
    decide +kernel
  obtain ⟨k, hk, h⟩ := Option.any_eq_true _ _ |>.mp hrun
  obtain ⟨t, ht, h⟩ := Option.any_eq_true _ _ |>.mp h
  exact ⟨k, t, hk, ht, (of_decide_eq_true h).1, (of_decide_eq_true h).2, by decide⟩

end TownOS
