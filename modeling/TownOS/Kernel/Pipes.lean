import TownOS.Kernel.Handlers
import TownOS.Kernel.Wakeups

/-!
The bytes that go through a pipe (`kernel/pipe.c`, `sys_read` and `sys_write` of
`kernel/syscall.c`).

What ring 3 sees of a pipe are the numbers that its calls return, the bytes in the buffers of
the writers and the bytes in the buffers of the readers. From these alone the stream is put
together (`accepted`, `delivered`), and the bytes in the ring are what is between the two.

* `Flow`: what becomes of a pipe while bytes go in and out;
* `flow_handled`: every event is such a flow;
* `pipe_stream_law`: the result for all runs.
-/

namespace TownOS

namespace Kernel

open Relation Runs

variable {k k' k₁ : Kernel} {p : ℕ} {h : Multiset File}

/-! ### Traffic -/

/-- The number of bytes a call reports: none if it has failed or has not returned. -/
def reported (k k' : Kernel) : ℕ :=
  match answer k k' with
  | none => 0
  | some v => if v = syscallError then 0 else v.toNat

/-- The bytes a `SYS_WRITE` on a pipe reports to have written, from the buffer of the caller. -/
def intake (p : ℕ) (k k' : Kernel) : List UInt8 :=
  if SysCall.ofWord k.pile.rax = some .write ∧
      k.currentFile k.pile.rdi.toNat = some ⟨.pipe p, true⟩ then
    k.userBytes k.pile.rsi.toNat (reported k k')
  else []

/-- The bytes a `SYS_READ` on a pipe has put into the buffer of the caller, as many as it
reports. -/
def outlet (p : ℕ) (k k' : Kernel) : List UInt8 :=
  if SysCall.ofWord k.pile.rax = some .read ∧
      k.currentFile k.pile.rdi.toNat = some ⟨.pipe p, false⟩ then
    k'.userBytes k.pile.rsi.toNat (reported k k')
  else []

/-- The bytes that a pipe accepts from an event. -/
def accepted (p : ℕ) (k : Kernel) (e : Event) : List UInt8 :=
  match e, k.handled e with
  | .syscall _, some k' => intake p k k'
  | _, _ => []

/-- The bytes that an event takes from a pipe. -/
def delivered (p : ℕ) (k : Kernel) (e : Event) : List UInt8 :=
  match e, k.handled e with
  | .syscall _, some k' => outlet p k k'
  | _, _ => []

lemma reported_of_answer {n : ℕ} (hn : n ≤ syscallIoMax)
    (ha : answer k k' = some (BitVec.ofNat 64 n)) : reported k k' = n := by
  have hlt : n < 2 ^ 64 := hn.trans_lt (by decide)
  have hnat : (BitVec.ofNat 64 n).toNat = n := by
    rw [BitVec.toNat_ofNat, Nat.mod_eq_of_lt hlt]
  rw [reported, ha]
  dsimp only
  rw [if_neg, hnat]
  intro heq
  have hbad : n = 2 ^ 64 - 1 := by
    rw [← hnat, heq]
    rfl
  rw [hbad] at hn
  exact absurd hn (by decide)

lemma reported_zero : reported k (k.reply 0) = 0 := by
  rw [reported, answer]
  split_ifs <;> rfl

/-! ### Flows -/

/-- What becomes of a pipe while some bytes are written to it and some are read from it. A pipe that
is not made yet is `none`, and one that is freed is `some none`. -/
inductive Flow : Option (Option Pipe) → Option (Option Pipe) → List UInt8 → List UInt8 → Prop
  | passes {x x' : Pipe} {w r : List UInt8}
      (hx : x.ring.Valid pipeSize → x'.ring.Valid pipeSize ∧
        x.ring.contents pipeSize ++ w = r ++ x'.ring.contents pipeSize) :
      Flow (some (some x)) (some (some x')) w r
  | made {x : Pipe} (hv : x.ring.Valid pipeSize) (hx : x.ring.contents pipeSize = []) :
      Flow none (some (some x)) [] []
  | freed {x : Pipe} {w r : List UInt8}
      (hx : x.ring.Valid pipeSize → r <+: x.ring.contents pipeSize ++ w) :
      Flow (some (some x)) (some none) w r
  | unmade : Flow none none [] []
  /-- The creation of a pipe has failed. -/
  | undone : Flow none (some none) [] []
  | closed : Flow (some none) (some none) [] []

lemma Flow.refl (o : Option (Option Pipe)) : Flow o o [] [] := by
  rcases o with - | - | x
  · exact .unmade
  · exact .closed
  · exact .passes fun hv => ⟨hv, by rw [List.append_nil, List.nil_append]⟩

/-- Afterwards nothing goes in or out. -/
lemma Flow.trans {o o₁ o₂ : Option (Option Pipe)} {w r : List UInt8} (h : Flow o o₁ w r)
    (h' : Flow o₁ o₂ [] []) : Flow o o₂ w r := by
  cases h with
  | passes hx =>
    cases h' with
    | passes hx' =>
      refine .passes fun hv => ?_
      obtain ⟨hv₁, h₁⟩ := hx hv
      obtain ⟨hv₂, h₂⟩ := hx' hv₁
      refine ⟨hv₂, h₁.trans ?_⟩
      rw [List.append_nil, List.nil_append] at h₂
      rw [h₂]
    | freed hx' =>
      refine .freed fun hv => ?_
      rw [(hx hv).2]
      exact List.prefix_append _ _
  | made hv hx =>
    cases h' with
    | passes hx' =>
      obtain ⟨hv', h'⟩ := hx' hv
      rw [hx, List.append_nil, List.nil_append] at h'
      exact .made hv' h'.symm
    | freed hx' => exact .undone
  | freed hx =>
    cases h'
    exact .freed hx
  | unmade => exact h'
  | undone =>
    cases h'
    exact .undone
  | closed => exact h'

/-- The stream law, for all that has been written and read: what is read and what is in the ring
are what was written, as long as the pipe is there. -/
def Law : Option (Option Pipe) → List UInt8 → List UInt8 → Prop
  | none, w, r => w = [] ∧ r = []
  | some none, w, r => r <+: w
  | some (some x), w, r => x.ring.Valid pipeSize ∧ r ++ x.ring.contents pipeSize = w

/-- What is read is the beginning of what was written. -/
lemma Law.delivered {o : Option (Option Pipe)} {w r : List UInt8} (h : Law o w r) : r <+: w := by
  rcases o with - | - | x
  · obtain ⟨rfl, rfl⟩ := h
    exact List.prefix_rfl
  · exact h
  · obtain ⟨-, rfl⟩ := h
    exact List.prefix_append _ _

/-- **The law is kept by every flow.** -/
theorem Flow.law {o o' : Option (Option Pipe)} {w w' r r' : List UInt8} (h : Flow o o' w' r')
    (hlaw : Law o w r) : Law o' (w ++ w') (r ++ r') := by
  cases h with
  | @passes x x' w' r' hx =>
    obtain ⟨hv, rfl⟩ := hlaw
    obtain ⟨hv', heq⟩ := hx hv
    refine ⟨hv', ?_⟩
    calc r ++ r' ++ x'.ring.contents pipeSize
        = r ++ (r' ++ x'.ring.contents pipeSize) := List.append_assoc ..
      _ = r ++ (x.ring.contents pipeSize ++ w') := by rw [heq]
      _ = r ++ x.ring.contents pipeSize ++ w' := (List.append_assoc ..).symm
  | made hv hx =>
    obtain ⟨rfl, rfl⟩ := hlaw
    exact ⟨hv, by rw [hx]; rfl⟩
  | freed hx =>
    obtain ⟨hv, rfl⟩ := hlaw
    rw [Law, List.append_assoc]
    exact (List.prefix_append_right_inj r).mpr (hx hv)
  | unmade => exact ⟨by rw [hlaw.1]; rfl, by rw [hlaw.2]; rfl⟩
  | undone =>
    obtain ⟨rfl, rfl⟩ := hlaw
    exact List.prefix_rfl
  | closed =>
    rw [Law, List.append_nil, List.append_nil]
    exact hlaw

/-- Nothing goes in or out of a pipe. -/
def Dry (p : ℕ) (k k' : Kernel) : Prop := Flow k.pipes[p]? k'.pipes[p]? [] []

lemma Dry.of_pipes (hpipes : k'.pipes = k.pipes) : Dry p k k' := by
  rw [Dry, hpipes]
  exact .refl _

lemma Dry.trans (h : Dry p k k₁) (h' : Dry p k₁ k') : Dry p k k' := Flow.trans h h'

/-! ### Ends come and go -/

/-- A pipe changes, but not its ring. -/
lemma dry_setPipe {q : ℕ} {x x' : Pipe} (hx : k.pipes[q]? = some (some x))
    (hring : x'.ring = x.ring) :
    Dry p k (k.setPipe q (some x')) := by
  have hlt := (List.getElem?_eq_some_iff.mp hx).1
  rw [Dry, setPipe, List.getElem?_set]
  split_ifs with hq
  · subst hq
    rw [hx]
    exact .passes fun hv => ⟨hring ▸ hv, by rw [hring, List.append_nil, List.nil_append]⟩
  · exact .refl _

lemma dry_setPipe_none (q : ℕ) : Dry p k (k.setPipe q none) := by
  rw [Dry, setPipe, List.getElem?_set]
  split_ifs with hq hlt
  · subst hq
    rw [List.getElem?_eq_getElem hlt]
    generalize k.pipes[q] = o
    cases o with
    | none => exact .closed
    | some x => exact .freed fun _ => List.nil_prefix
  · subst hq
    rw [List.getElem?_eq_none (Nat.not_lt.mp hlt)]
    exact .unmade
  · exact .refl _

lemma dry_newPipe (k : Kernel) : Dry p k { k with pipes := k.pipes ++ [some Pipe.create] } := by
  rw [Dry, List.getElem?_append]
  split_ifs with hp
  · exact .refl _
  · rw [List.getElem?_eq_none (Nat.not_lt.mp hp)]
    cases p - k.pipes.length with
    | zero => exact .made ⟨by decide, by decide⟩ rfl
    | succ n => exact .unmade

lemma dry_countEnd {f : File} (hf : ∀ q, f.kind = .pipe q → ∃ x, k.pipes[q]? = some (some x)) :
    Dry p k (countEnd k f) := by
  rw [countEnd]
  cases hkind : f.kind with
  | console => exact .of_pipes rfl
  | pipe q =>
    obtain ⟨x, hx⟩ := hf q hkind
    refine dry_setPipe hx ?_
    rw [pipe, hx]
    split_ifs <;> rfl

/-- Closing an end moves no bytes. -/
lemma dry_fileClose {f : File} (hf : ∀ q, f.kind = .pipe q → ∃ x, k.pipes[q]? = some (some x)) :
    Dry p k (fileClose k f) := by
  rw [fileClose]
  cases hkind : f.kind with
  | console => exact .of_pipes rfl
  | pipe q =>
    obtain ⟨x, hx⟩ := hf q hkind
    dsimp only
    generalize hx' : (if f.writable = true then _ else _ : Pipe) = x'
    have hset : Dry p k (k.setPipe q (some x')) := by
      refine dry_setPipe hx ?_
      rw [← hx', pipe, hx]
      split_ifs <;> rfl
    generalize hk₁ : (if f.writable = true then _ else _ : Kernel) = k₁
    have hk₁ : Dry p k k₁ := by
      rw [← hk₁]
      split_ifs <;> exact hset
    split_ifs
    · exact hk₁.trans (dry_setPipe_none q)
    · exact hk₁

/-- The pipe of an open file is there. -/
lemma Counted.present {m : Mode} (hc : Counted m k) {f : File} (hf : f ∈ m.held + k.files) {q : ℕ}
    (hq : f.kind = .pipe q) : ∃ x, k.pipes[q]? = some (some x) := by
  obtain ⟨kind, w⟩ := f
  obtain rfl : kind = .pipe q := hq
  refine ⟨k.pipe q, getElem_of_ends (w := w) ?_⟩
  rw [hc.ends]
  exact_mod_cast (Multiset.count_pos.mpr hf).ne'

lemma Counted.present_of_currentFile {m : Mode} (hc : Counted m k) {fd : ℕ} {f : File}
    (hf : k.currentFile fd = some f) {q : ℕ} (hq : f.kind = .pipe q) :
    ∃ x, k.pipes[q]? = some (some x) :=
  hc.present (Multiset.mem_add.mpr (.inr (mem_files_of_currentFile hf))) hq

/-- A system call that is no `SYS_READ` and no `SYS_WRITE` is issued. -/
def NoTransfer (k : Kernel) : Prop :=
  SysCall.ofWord k.pile.rax ≠ some .read ∧ SysCall.ofWord k.pile.rax ≠ some .write

/-- Nor does a deed of another call. -/
lemma Deed.dry {s s' : Multiset File × Kernel} (hd : Deed s s') (hc : Counted (.busy s.1) s.2)
    (hcall : NoTransfer s.2) : Dry p s.2 s'.2 := by
  cases hd with
  | raise h k id sig => exact .of_pipes (Press.raise k id sig).pipes
  | took h k q n hread hf hpos hn => exact absurd hread hcall.1
  | gave h k q l hwrite hf hr hl => exact absurd hwrite hcall.2
  | newPipe h k => exact dry_newPipe k
  | dropPipe h k q hr hw => exact dry_setPipe_none q
  | collect h k i hcall ht hz hp =>
    refine .of_pipes ?_
    rw [Kernel.collect]
    split_ifs <;> rfl
  | dup h k fd f hf => exact dry_countEnd fun q hq => hc.present_of_currentFile hf hq
  | openEnd h k q writable hq =>
    refine dry_countEnd fun q' hq' => ?_
    obtain rfl := FdKind.pipe.inj hq'
    exact hq
  | close h k f =>
    have hmem : f ∈ f ::ₘ h + k.files := Multiset.mem_add.mpr (.inl (Multiset.mem_cons_self f h))
    exact dry_fileClose fun q hq => hc.present hmem hq
  | getKey | eofTaken | foreground | read | store | install | map | unmap | put | take | spawn =>
    exact .of_pipes rfl

/-- The moves keep the rotation and the counts. -/
lemma Moves.counted {s s' : Mode × Kernel} (hm : Moves s s') (hr : Rotation s.1 s.2)
    (hc : Counted s.1 s.2) : Rotation s'.1 s'.2 ∧ Counted s'.1 s'.2 :=
  Moves.invariant (I := fun s => Rotation s.1 s.2 ∧ Counted s.1 s.2) hm
    (fun _ _ hm h => ⟨h.1.turn hm.turn, h.2.move hm h.1⟩) ⟨hr, hc⟩

lemma Deeds.dry (hd : Deeds k k') (hr : Rotation (.busy 0) k) (hc : Counted (.busy 0) k)
    (hcall : NoTransfer k) : Dry p k k' := by
  have hall : ∀ s : Multiset File × Kernel, HeldDeeds (0, k) s →
      Dry p k s.2 ∧ Rotation (.busy s.1) s.2 ∧ Counted (.busy s.1) s.2 ∧ NoTransfer s.2 := by
    intro s hs
    induction hs with
    | refl => exact ⟨.of_pipes rfl, hr, hc, hcall⟩
    | tail _ hd ih =>
      obtain ⟨hdry, hr, hc, hcall⟩ := ih
      obtain ⟨hpile, -⟩ := HeldEffects.frame hd.effects
      refine ⟨hdry.trans (hd.dry hc hcall), ?_⟩
      rw [NoTransfer, hpile, ← and_assoc]
      exact ⟨(HeldEffects.moves hd.effects).counted hr hc, hcall⟩
  exact (hall _ hd).1

lemma dry_closeFd (hc : Counted (.busy 0) k) (fd : ℕ) : Dry p k (closeFd k fd) := by
  rw [closeFd]
  cases hf : k.currentFile fd with
  | none => exact .of_pipes rfl
  | some f =>
    have hset : Dry p k (k.setFd fd none) := .of_pipes rfl
    exact hset.trans (dry_fileClose fun q hq => hc.present_of_currentFile hf hq)

lemma dry_closeAll (hr : Rotation (.busy 0) k) (hc : Counted (.busy 0) k) :
    Dry p k (closeAll k) := by
  rw [closeAll]
  refine (List.foldlRecOn
    (motive := fun x => Dry p k x ∧ Rotation (.busy 0) x ∧ Counted (.busy 0) x) _
    closeFd ⟨.of_pipes rfl, hr, hc⟩ fun k₁ h fd _ => ?_).1
  obtain ⟨hdry, hr₁, hc₁⟩ := h
  exact ⟨hdry.trans (dry_closeFd hc₁ fd),
    (HeldEffects.moves (deeds_closeFd k₁ fd).effects).counted hr₁ hc₁⟩

lemma dry_taskExit (hr : Rotation (.busy 0) k) (hc : Counted (.busy 0) k) (status : ℕ) :
    Dry p k (taskExit k status) := by
  have hbury : ∀ k₁ : Kernel, (bury k₁ status).pipes = k₁.pipes := fun _ => rfl
  refine (dry_closeAll hr hc).trans (.of_pipes ?_)
  rw [taskExit, (switchFrame_schedule _).pipes, (switchFrame_wakeParent _ _).pipes, hbury]

lemma dry_endBySignal (hr : Rotation (.busy 0) k) (hc : Counted (.busy 0) k) (sig : ℕ) :
    Dry p k (endBySignal k sig) :=
  dry_taskExit (k := k.live (.condemned k.current sig)) (hr.live _) ⟨hc.ends, hc.zombies⟩ _

lemma presses_pipes (hp : Presses k k') : k'.pipes = k.pipes := by
  induction hp with
  | refl => rfl
  | tail _ hp ih => exact hp.pipes.trans ih

/-! ### Transfers -/

/-- A call has failed, or has not returned. -/
def Failed (k k' : Kernel) : Prop := answer k k' = none ∨ answer k k' = some syscallError

lemma Failed.reported (h : Failed k k') : reported k k' = 0 := by
  rw [Kernel.reported]
  rcases h with h | h <;> rw [h]
  exact if_pos rfl

lemma failed_reply : Failed k (k₁.reply syscallError) := by
  rw [Failed, answer]
  split_ifs
  · exact .inr rfl
  · exact .inl rfl

/-- What a call makes of a transfer that has to wait. -/
lemma blockTransfer_failed {α : Type} {t : Task} (hi : k.idling = false)
    (ht : k.currentTask = some t) (reason : WaitReason) :
    ∃ k', (blockTransfer (α := α) k reason = (.err, k') ∧ k'.pipes = k.pipes) ∨
      (blockTransfer (α := α) k reason = (.blocked, k') ∧ k'.pipes = k.pipes ∧ Failed k k') := by
  rw [blockTransfer, taskBlock]
  by_cases hc : k.cutShort
  · rw [if_pos hc]
    exact ⟨interrupt k, .inl ⟨rfl, rfl⟩⟩
  · rw [if_neg hc]
    exact ⟨schedule (park k reason), .inr ⟨rfl, (switchFrame_schedule _).pipes,
      .inl (answer_park hi ht reason)⟩⟩

/-- How a transfer on an end of a pipe ends, with what it does to the table of pipes. -/
inductive PipeEnds (k : Kernel) (q : ℕ) : Bool → Kernel → Prop
  /-- It fails or has to wait. -/
  | failed {w : Bool} {k' : Kernel} (hpipes : k'.pipes = k.pipes) (hf : Failed k k') :
      PipeEnds k q w k'
  /-- Nothing was asked for. -/
  | nothing {w : Bool} (hlen : k.pile.rdx.toNat = 0) : PipeEnds k q w (k.reply 0)
  /-- There is nothing to read, and nobody to write. -/
  | ended (hused : pipeUsed (k.pipe q) = 0) (hw : (k.pipe q).writers ≤ 0) :
      PipeEnds k q false (k.reply 0)
  /-- Some bytes are read. -/
  | took {k' : Kernel} (n : ℕ) (hpos : 0 < n) (hn : n ≤ min (pipeUsed (k.pipe q)) syscallIoMax)
      (hrep : answer k k' = some (BitVec.ofNat 64 n))
      (hbytes : k'.userBytes k.pile.rsi.toNat n = ((k.pipe q).ring.take pipeSize n).1)
      (hpipes : k'.pipes = k.pipes.set q (some { k.pipe q with
        ring := ((k.pipe q).ring.take pipeSize n).2 })) : PipeEnds k q false k'
  /-- Some bytes are written. -/
  | gave {k' : Kernel} (n : ℕ) (hn : n ≤ min (pipeSpace (k.pipe q)) syscallIoMax)
      (hrep : answer k k' = some (BitVec.ofNat 64 n))
      (hpipes : k'.pipes = k.pipes.set q (some { k.pipe q with
        ring := (k.pipe q).ring.fill pipeSize (k.userBytes k.pile.rsi.toNat n) })) :
      PipeEnds k q true k'

lemma take_userBytes {a n len : ℕ} (hn : n ≤ len) :
    (k.userBytes a len).take n = k.userBytes a n := by
  rw [userBytes, ← List.map_take, List.take_range, min_eq_left hn]
  rfl

/-- `SYS_WRITE` on the writable end of a pipe. -/
lemma sysWrite_pipe {q : ℕ} (hi : k.idling = false)
    (hf : k.currentFile k.pile.rdi.toNat = some ⟨.pipe q, true⟩) :
    PipeEnds k q true (sysWrite k) := by
  obtain ⟨t, ht, -⟩ := exists_of_currentFile hf
  rw [sysWrite, hf]
  refine iteInduction (fun hw => ?_) fun _ => iteInduction (fun hlen => .nothing hlen) fun _ => ?_
  · cases hw
  refine iteInduction (fun _ => .failed rfl failed_reply) fun _ => ?_
  have htouch : (k.touch false k.pile.rsi.toNat (min k.pile.rdx.toNat syscallIoMax)).pipe q =
      k.pipe q := rfl
  have hbytes := length_userBytes (k := k) k.pile.rsi.toNat (min k.pile.rdx.toNat syscallIoMax)
  dsimp only [fileWrite, pipeWrite, load]
  by_cases hr : (k.pipe q).readers = 0
  · rw [if_pos (by exact hr)]
    exact .failed (Press.raise _ _ _).pipes failed_reply
  rw [if_neg (by exact hr)]
  by_cases hs : pipeSpace (k.pipe q) = 0
  · rw [if_pos (by exact hs)]
    obtain ⟨k', ⟨heq, hpipes⟩ | ⟨heq, hpipes, hfail⟩⟩ := blockTransfer_failed (α := ℕ)
      (k := k.touch false k.pile.rsi.toNat (min k.pile.rdx.toNat syscallIoMax)) hi ht .pipeWrite
    · rw [heq]
      exact .failed hpipes failed_reply
    · rw [heq]
      exact .failed hpipes hfail
  · rw [if_neg (by exact hs)]
    refine .gave (min (pipeSpace (k.pipe q)) (min k.pile.rdx.toNat syscallIoMax)) ?_ ?_ ?_
    · exact min_le_min_left _ (min_le_right _ _)
    · rw [hbytes]
      exact answer_reply rfl hi _
    · rw [hbytes, take_userBytes (min_le_right _ _)]
      rfl

/-- `SYS_READ` on the readable end. -/
lemma sysRead_pipe {q : ℕ} (hi : k.idling = false)
    (hf : k.currentFile k.pile.rdi.toNat = some ⟨.pipe q, false⟩) :
    PipeEnds k q false (sysRead k) := by
  obtain ⟨t, ht, -⟩ := exists_of_currentFile hf
  rw [sysRead, hf]
  refine iteInduction (fun hw => ?_) fun _ => iteInduction (fun hlen => .nothing hlen) fun hlen =>
    ?_
  · cases hw
  refine iteInduction (fun _ => .failed rfl failed_reply) fun _ => ?_
  dsimp only [fileRead, pipeRead]
  by_cases hu : 0 < pipeUsed (k.pipe q)
  · rw [if_pos hu]
    have hn : 0 < min k.pile.rdx.toNat syscallIoMax :=
      lt_min (Nat.pos_of_ne_zero hlen) (by decide)
    generalize hm : min (pipeUsed (k.pipe q)) (min k.pile.rdx.toNat syscallIoMax) = m
    have hpos : 0 < m := hm ▸ lt_min hu hn
    generalize hk₁ : k.setPipe q (some { k.pipe q with
      ring := ((k.pipe q).ring.take pipeSize m).2 }) = k₁
    have hlength : ((k.pipe q).ring.take pipeSize m).1.length = m := RingBuffer.length_take m _
    generalize hbytes : ((k.pipe q).ring.take pipeSize m).1 = bytes at hlength
    have hne : bytes ≠ [] := by
      rintro rfl
      exact hpos.ne hlength
    obtain ⟨t₁, ht₁⟩ : ∃ t₁, (schedulerWake k₁ .pipeWrite).currentTask = some t₁ := by
      rw [currentTask, task_schedulerWake, ← hk₁]
      exact ⟨_, congrArg (Option.map _) ht⟩
    dsimp only
    rw [if_pos hne]
    refine .took m hpos ?_ ?_ ?_ ?_
    · rw [← hm]
      exact min_le_min_left _ (min_le_right _ _)
    · rw [hlength]
      refine answer_reply ?_ ?_ _
      · rw [← hk₁]
        rfl
      · rw [← hk₁]
        exact hi
    · rw [hbytes, ← hlength]
      exact userBytes_store ht₁ _ bytes
    · rw [← hk₁]
      rfl
  rw [if_neg hu]
  by_cases hw : 0 < (k.pipe q).writers
  · rw [if_pos hw]
    obtain ⟨k', ⟨heq, hpipes⟩ | ⟨heq, hpipes, hfail⟩⟩ :=
      blockTransfer_failed (α := List UInt8) hi ht .pipeRead
    · rw [heq]
      exact .failed hpipes failed_reply
    · rw [heq]
      exact .failed hpipes hfail
  · rw [if_neg hw]
    exact .ended (Nat.eq_zero_of_not_pos hu) (not_lt.mp hw)

/-! ### System calls -/

lemma intake_of_silent (h : reported k k' = 0) : intake p k k' = [] := by
  rw [intake, h]
  exact ite_self _

lemma outlet_of_silent (h : reported k k' = 0) : outlet p k k' = [] := by
  rw [outlet, h]
  exact ite_self _

lemma intake_of_call (hcall : SysCall.ofWord k.pile.rax ≠ some .write) : intake p k k' = [] :=
  if_neg fun h => hcall h.1

lemma outlet_of_call (hcall : SysCall.ofWord k.pile.rax ≠ some .read) : outlet p k k' = [] :=
  if_neg fun h => hcall h.1

/-- The call that transfers bytes through an end of a pipe. -/
def transferCall (w : Bool) : SysCall := if w then .write else .read

/-- **A transfer on a pipe is a flow.** -/
theorem PipeEnds.flow {q : ℕ} {w : Bool} {x : Pipe} (h : PipeEnds k q w k')
    (hcall : SysCall.ofWord k.pile.rax = some (transferCall w))
    (hf : k.currentFile k.pile.rdi.toNat = some ⟨.pipe q, w⟩) (hx : k.pipes[q]? = some (some x)) :
    Flow k.pipes[p]? k'.pipes[p]? (intake p k k') (outlet p k k') := by
  have hlt := (List.getElem?_eq_some_iff.mp hx).1
  have hpipe : k.pipe q = x := by rw [pipe, hx]; rfl
  have hquiet : k'.pipes = k.pipes → reported k k' = 0 →
      Flow k.pipes[p]? k'.pipes[p]? (intake p k k') (outlet p k k') := by
    intro hpipes hrep
    rw [intake_of_silent hrep, outlet_of_silent hrep, hpipes]
    exact .refl _
  -- the other pipes, and the other direction
  have hother : p ≠ q → ∀ o, k'.pipes = k.pipes.set q o →
      Flow k.pipes[p]? k'.pipes[p]? (intake p k k') (outlet p k k') := by
    intro hne o hset
    have hfile : ∀ v, k.currentFile k.pile.rdi.toNat ≠ some ⟨.pipe p, v⟩ := by
      intro v hv
      rw [hf] at hv
      cases hv
      exact hne rfl
    rw [intake, if_neg fun h => hfile true h.2, outlet, if_neg fun h => hfile false h.2, hset,
      List.getElem?_set_ne hne.symm]
    exact .refl _
  have hself : ∀ o, (k.pipes.set q o)[q]? = some o := fun o => by
    rw [List.getElem?_set_self hlt]
  cases h with
  | failed hpipes hfail => exact hquiet hpipes hfail.reported
  | nothing hlen => exact hquiet rfl reported_zero
  | ended hused hw => exact hquiet rfl reported_zero
  | took n hpos hn hrep hbytes hpipes =>
    rcases eq_or_ne p q with rfl | hne
    · rw [intake_of_call (by simp [hcall, transferCall]), outlet, if_pos ⟨hcall, hf⟩,
        reported_of_answer (hn.trans (min_le_right _ _)) hrep, hbytes, hpipes, hself, hx, hpipe]
      refine .passes fun hv => ⟨hv.take n, ?_⟩
      rw [List.append_nil]
      exact (RingBuffer.contents_take hv (hpipe ▸ hn.trans (min_le_left _ _))).symm
    · exact hother hne _ hpipes
  | gave n hn hrep hpipes =>
    rcases eq_or_ne p q with rfl | hne
    · rw [outlet_of_call (by simp [hcall, transferCall]), intake, if_pos ⟨hcall, hf⟩,
        reported_of_answer (hn.trans (min_le_right _ _)) hrep, hpipes, hself, hx, hpipe]
      refine .passes fun hv => ⟨hv.fill _, (RingBuffer.contents_fill hv ?_).symm⟩
      rw [length_userBytes]
      exact hpipe ▸ hn.trans (min_le_left _ _)
    · exact hother hne _ hpipes

/-- The file of a `SYS_WRITE` is not the writable end of a pipe. -/
lemma pipes_sysWrite (hf : ∀ q, k.currentFile k.pile.rdi.toNat ≠ some ⟨.pipe q, true⟩) :
    (sysWrite k).pipes = k.pipes := by
  rw [sysWrite]
  cases hfile : k.currentFile k.pile.rdi.toNat with
  | none => rfl
  | some f =>
    have hpipes : ∀ k' : Kernel, k'.pipes = k.pipes → ∀ v, (k'.reply v).pipes = k.pipes :=
      fun _ h _ => h
    refine iteInduction (motive := fun x : Kernel => x.pipes = k.pipes) (fun _ => rfl) fun hw =>
      iteInduction (motive := fun x : Kernel => x.pipes = k.pipes) (fun _ => rfl) fun _ =>
      iteInduction (motive := fun x : Kernel => x.pipes = k.pipes) (fun _ => rfl) fun _ => ?_
    obtain ⟨kind, w⟩ := f
    obtain rfl : w = true := by simpa using hw
    cases kind with
    | console => rfl
    | pipe q => exact absurd hfile (hf q)

/-- A read that has to wait does nothing to the pipes. -/
lemma pipes_of_blockTransfer (k : Kernel) (reason : WaitReason) :
    (match blockTransfer (α := List UInt8) k reason with
      | (.blocked, k) => k
      | (.err, k) => k.reply syscallError
      | (.ok bytes, k') => (if bytes ≠ [] then k'.store k.pile.rsi.toNat bytes else k').reply
          (BitVec.ofNat 64 bytes.length)).pipes = k.pipes := by
  rw [blockTransfer, taskBlock]
  by_cases hc : k.cutShort = true
  · rw [if_pos hc]
    rfl
  · rw [if_neg hc]
    exact (switchFrame_schedule _).pipes

/-- The file of a `SYS_READ` is not the readable end of a pipe. -/
lemma pipes_sysRead (hf : ∀ q, k.currentFile k.pile.rdi.toNat ≠ some ⟨.pipe q, false⟩) :
    (sysRead k).pipes = k.pipes := by
  rw [sysRead]
  cases hfile : k.currentFile k.pile.rdi.toNat with
  | none => rfl
  | some f =>
    refine iteInduction (motive := fun x : Kernel => x.pipes = k.pipes) (fun _ => rfl) fun hw =>
      iteInduction (motive := fun x : Kernel => x.pipes = k.pipes) (fun _ => rfl) fun _ =>
      iteInduction (motive := fun x : Kernel => x.pipes = k.pipes) (fun _ => rfl) fun _ => ?_
    obtain ⟨kind, w⟩ := f
    obtain rfl : w = false := by simpa using hw
    cases kind with
    | pipe q => exact absurd hfile (hf q)
    | console =>
      have hstore : ∀ (k' : Kernel) a (bytes : List UInt8), k'.pipes = k.pipes →
          (if bytes ≠ [] then k'.store a bytes else k').pipes = k.pipes := by
        intro k' a bytes h
        split_ifs
        · exact h
        · exact h
      dsimp only [fileRead]
      by_cases hb : (drain k.keyboard (min k.pile.rdx.toNat syscallIoMax)).1 ≠ []
      · rw [if_pos hb]
        exact hstore _ _ _ rfl
      rw [if_neg hb]
      by_cases he : (drain k.keyboard (min k.pile.rdx.toNat syscallIoMax)).2.consoleEof = true
      · rw [if_pos he]
        rfl
      rw [if_neg he]
      exact pipes_of_blockTransfer _ .key

lemma Ends.dry {w : Bool} (he : Ends k w k') (hr : Rotation (.busy 0) k) (hc : Counted (.busy 0) k)
    (hcall : NoTransfer k) : Dry p k k' := by
  cases he with
  | served v hd => exact Dry.trans (hd.dry hr hc hcall) (.of_pipes rfl)
  | interrupted hreads hb hcut =>
    obtain ⟨spans, -, rfl⟩ := hreads
    exact .of_pipes rfl
  | parked hreads hb hcut =>
    obtain ⟨spans, -, rfl⟩ := hreads
    exact .of_pipes (switchFrame_schedule _).pipes
  | exited _ => exact dry_taskExit hr hc _
  | ended => exact dry_endBySignal hr hc _
  | wentBack ht hact hok _ => exact .of_pipes (goBack_goesBack k _).pipes
  | gone hn => exact .of_pipes rfl

/-- A system call moves the bytes it reports. -/
lemma flow_syscallBody (hi : k.idling = false) (hr : Rotation (.busy 0) k)
    (hc : Counted (.busy 0) k) (a : Answers) :
    Flow k.pipes[p]? (syscallBody k a).pipes[p]? (intake p k (syscallBody k a))
      (outlet p k (syscallBody k a)) := by
  have hdry : ∀ k', k'.pipes = k.pipes →
      (∀ q, k.currentFile k.pile.rdi.toNat = some ⟨.pipe q, true⟩ →
        SysCall.ofWord k.pile.rax ≠ some .write) →
      (∀ q, k.currentFile k.pile.rdi.toNat = some ⟨.pipe q, false⟩ →
        SysCall.ofWord k.pile.rax ≠ some .read) →
      Flow k.pipes[p]? k'.pipes[p]? (intake p k k') (outlet p k k') := by
    intro k' hpipes hwrite hread
    rw [intake, if_neg fun h => hwrite p h.2 h.1, outlet, if_neg fun h => hread p h.2 h.1, hpipes]
    exact .refl _
  by_cases hwrite : SysCall.ofWord k.pile.rax = some .write
  · have hbody : syscallBody k a = sysWrite k := by rw [syscallBody, hwrite]
    rw [hbody]
    by_cases hpipe : ∃ q, k.currentFile k.pile.rdi.toNat = some ⟨.pipe q, true⟩
    · obtain ⟨q, hf⟩ := hpipe
      obtain ⟨x, hx⟩ := hc.present_of_currentFile hf rfl
      exact (sysWrite_pipe hi hf).flow hwrite hf hx
    · push Not at hpipe
      refine hdry _ (pipes_sysWrite hpipe) (fun q hf => absurd hf (hpipe q)) fun q hf => ?_
      simp [hwrite]
  by_cases hread : SysCall.ofWord k.pile.rax = some .read
  · have hbody : syscallBody k a = sysRead k := by rw [syscallBody, hread]
    rw [hbody]
    by_cases hpipe : ∃ q, k.currentFile k.pile.rdi.toNat = some ⟨.pipe q, false⟩
    · obtain ⟨q, hf⟩ := hpipe
      obtain ⟨x, hx⟩ := hc.present_of_currentFile hf rfl
      exact (sysRead_pipe hi hf).flow hread hf hx
    · push Not at hpipe
      refine hdry _ (pipes_sysRead hpipe) (fun q hf => ?_) fun q hf => absurd hf (hpipe q)
      simp [hread]
  · rw [intake_of_call hwrite, outlet_of_call hread]
    exact (syscallBody_ends k a).dry hr hc ⟨hread, hwrite⟩

/-! ### Steps -/

/-- **Every event is a flow.** -/
theorem flow_handled {e : Event} (hr : Rotation (modeOf k) k) (hc : Counted (modeOf k) k)
    (hk : k.handled e = some k') :
    Flow k.pipes[p]? k'.pipes[p]? (accepted p k e) (delivered p k e) := by
  have hsame : k'.pipes = k.pipes → Flow k.pipes[p]? k'.pipes[p]? [] [] := fun h => Dry.of_pipes h
  cases handling_of_handled hk with
  | user | irq => exact hsame rfl
  | syscall a hi hat =>
    simp only [accepted, delivered, hk]
    rw [modeOf, if_neg (by simp [hi])] at hr hc
    exact flow_syscallBody (k := k.enter 0x50 (k.pile.rip + intInstrLen)) hi
      (hr.mild (.busy 0 0) ((Mild.refl _).of_tasks rfl rfl rfl rfl rfl)) ⟨hc.ends, hc.zombies⟩ a
  | timer hi => exact hsame (switchFrame_schedule _).pipes
  | key c hi =>
    exact hsame (presses_pipes (k := k.enter 0x41 k.pile.rip) (presses_keyboardCallback _ c))
  | parked hi hirq =>
    have hresume := (switchFrame_resume _).pipes.trans (presses_pipes (presses_pressed k e))
    cases e with
    | syscall a => exact absurd rfl (hirq a)
    | user | timer | key | irq => exact hsame hresume

lemma dry_leave (hr : Rotation (modeOf k) k) (hc : Counted (modeOf k) k) : Dry p k (leave k) := by
  obtain hstay | ⟨hi, hchecked⟩ := leave_cases k
  · exact .of_pipes (by rw [hstay])
  rw [modeOf, if_neg (by simp [hi])] at hr hc
  have hr₁ : Rotation (.busy 0) { k with checkDue := false } :=
    hr.mild (.busy 0 0) ((Mild.refl _).of_tasks rfl rfl rfl rfl rfl)
  have hc₁ : Counted (.busy 0) { k with checkDue := false } := ⟨hc.ends, hc.zombies⟩
  have hstart : Dry p k { k with checkDue := false } := .of_pipes rfl
  generalize ({ k with checkDue := false } : Kernel) = k₁ at hr₁ hc₁ hchecked hstart ⊢
  refine hstart.trans ?_
  generalize leave k = k' at hchecked ⊢
  cases hchecked with
  | stays => exact .of_pipes rfl
  | @killed t sig ht hact hsig hh =>
    have hclear := (HeldEffects.moves (Effect.own 0 k₁ (fun t => clearPending t sig)
      (fun _ => by constructor <;> rfl) (by intro _; rfl)).one).counted hr₁ hc₁
    have hpipes : Dry p k₁ (k₁.modifyCurrent fun t => clearPending t sig) := .of_pipes rfl
    exact hpipes.trans (dry_endBySignal hclear.1 hclear.2 sig)
  | unfit => exact dry_endBySignal hr₁ hc₁ _
  | enters => exact .of_pipes rfl

/-! ### Runs -/

variable {image : Image} {r : Regs} {es : List Event}

/-- The law holds from boot on. -/
lemma law_of_run (hrun : Runs.exec step (boot image r) es = some k) (p : ℕ) :
    Law k.pipes[p]? (outputs step (accepted p) (boot image r) es)
      (outputs step (delivered p) (boot image r) es) := by
  induction es using List.reverseRecOn generalizing k with
  | nil =>
    obtain rfl := Option.some.inj hrun
    exact ⟨rfl, rfl⟩
  | append_singleton es e ih =>
    obtain ⟨k₁, k₂, hbefore, hk₂, rfl⟩ := exists_handled_of_concat hrun
    obtain ⟨hr, hc, -⟩ := run_wakeful hbefore
    rw [outputs_concat _ hbefore, outputs_concat _ hbefore]
    refine Flow.law ((flow_handled hr hc hk₂).trans ?_) (ih hbefore)
    have hmoves := Actions.moves (handled_leads (C := fun _ => True) hk₂)
    rw [mode_stageOf, mode_stageOf] at hmoves
    obtain ⟨hr₂, hc₂⟩ := hmoves.counted hr hc
    exact dry_leave hr₂ hc₂

/-- No task has a writable end of a pipe open. -/
def NoWriter (k : Kernel) (p : ℕ) : Prop :=
  ∀ i t fd, k.task i = some t → fd < maxFds → t.fds fd ≠ some ⟨.pipe p, true⟩

lemma Counted.noWriter {m : Mode} (hc : Counted m k) (hw : (k.pipe p).writers ≤ 0) :
    NoWriter k p := by
  intro i t fd ht hfd hf
  have hmem : (⟨.pipe p, true⟩ : File) ∈ m.held + k.files :=
    Multiset.mem_add.mpr (.inr (mem_files ht hfd hf))
  have hpos : (0 : ℤ) < (k.pipe p).ends true := by
    rw [hc.ends]
    exact_mod_cast Multiset.count_pos.mpr hmem
  exact absurd hw (not_le.mpr hpos)

/-- The end of a stream is reported only if there is one. -/
lemma end_of_stream {a : Answers} (hc : Counted (modeOf k) k)
    (hk : k.handled (.syscall a) = some k') (hcall : SysCall.ofWord k.pile.rax = some .read)
    (hf : k.currentFile k.pile.rdi.toNat = some ⟨.pipe p, false⟩) (hlen : k.pile.rdx ≠ 0)
    (hzero : answer k k' = some 0) : pipeUsed (k.pipe p) = 0 ∧ NoWriter k p := by
  obtain ⟨⟨hi, -⟩, rfl⟩ := guarded hk
  have hi : k.idling = false := by simpa using hi
  have hbody : syscallBody (k.enter 0x50 (k.pile.rip + intInstrLen)) a =
      sysRead (k.enter 0x50 (k.pile.rip + intInstrLen)) := by
    rw [syscallBody, show SysCall.ofWord (k.enter _ _).pile.rax = some .read from hcall]
  rw [hbody] at hzero
  have hends := sysRead_pipe (k := k.enter 0x50 (k.pile.rip + intInstrLen)) hi hf
  change answer (k.enter 0x50 (k.pile.rip + intInstrLen)) _ = some 0 at hzero
  generalize sysRead _ = k' at hends hzero
  cases hends with
  | failed hpipes hfail =>
    rcases hfail with h | h
    · rw [h] at hzero
      cases hzero
    · rw [h] at hzero
      exact absurd (Option.some.inj hzero) (by decide)
  | nothing hnone => exact absurd (BitVec.eq_of_toNat_eq hnone) hlen
  | ended hused hw => exact ⟨hused, hc.noWriter hw⟩
  | took n hpos hn hrep hbytes hpipes =>
    rw [hzero] at hrep
    have hnat := congrArg BitVec.toNat (Option.some.inj hrep)
    have hmax : n ≤ 4096 := hn.trans (min_le_right _ _)
    rw [BitVec.toNat_ofNat, Nat.mod_eq_of_lt (by omega)] at hnat
    exact absurd hnat hpos.ne

/-- **Streams through pipes.** For every pipe and every run: as long as the pipe is there, what has
been read from it, followed by what is in its ring, is what has been written to it; at most
`PIPE_SIZE - 1` bytes are in the ring; even when the pipe is gone, what was read is the
beginning of what was written. And a `SYS_READ` of a length that is not zero returns 0 in RAX
only if the ring is empty and no writable end is open. -/
theorem pipe_stream_law (hrun : Runs.exec step (boot image r) es = some k) (p : ℕ) :
    (∀ x, k.pipes[p]? = some (some x) →
      outputs step (delivered p) (boot image r) es ++ x.ring.contents pipeSize =
          outputs step (accepted p) (boot image r) es ∧
        (x.ring.contents pipeSize).length ≤ pipeSize - 1) ∧
      outputs step (delivered p) (boot image r) es <+: outputs step (accepted p) (boot image r) es ∧
      ∀ a k', k.handled (.syscall a) = some k' → SysCall.ofWord k.pile.rax = some .read →
        k.currentFile k.pile.rdi.toNat = some ⟨.pipe p, false⟩ → k.pile.rdx ≠ 0 →
        k'.current = k.current → k'.idling = false → k'.pile.rax = 0 →
          (k.pipe p).ring.contents pipeSize = [] ∧ NoWriter k p := by
  have hlaw := law_of_run hrun p
  obtain ⟨-, hc, -⟩ := run_wakeful hrun
  refine ⟨fun x hx => ?_, ?_, fun a k' hk hcall hf hlen hcur hi hzero => ?_⟩
  · rw [hx] at hlaw
    refine ⟨hlaw.2, ?_⟩
    rw [RingBuffer.contents, List.length_map, List.length_range]
    exact Nat.le_pred_of_lt hlaw.1.used_lt
  · exact hlaw.delivered
  · have hzero : answer k k' = some 0 := answer_eq_some_iff.mpr ⟨hcur, hi, hzero⟩
    obtain ⟨hused, hnone⟩ := end_of_stream hc hk hcall hf hlen hzero
    refine ⟨?_, hnone⟩
    rw [RingBuffer.contents, show (k.pipe p).ring.used pipeSize = 0 from hused]
    rfl

end Kernel

/-- A program makes a pipe, writes two bytes and reads one. -/
def pipeRun : List Event :=
  [loadCall 13 0x500000 0 0 0x800000 intMem, .syscall noAnswers,
    loadCall 1 3 0x400100 2 0x800000 intMem, .syscall noAnswers,
    loadCall 11 2 0x500000 1 0x800000 intMem, .syscall noAnswers]

/-- Two bytes are written and one is read. -/
theorem pipe_stream_law_pipeRun :
    ∃ k x, Runs.exec Kernel.step (boot intImage {}) pipeRun = some k ∧
      k.pipes[0]? = some (some x) ∧
      Runs.outputs Kernel.step (Kernel.delivered 0) (boot intImage {}) pipeRun = [0xCD] ∧
      Runs.outputs Kernel.step (Kernel.delivered 0) (boot intImage {}) pipeRun ++
          x.ring.contents Kernel.pipeSize =
        Runs.outputs Kernel.step (Kernel.accepted 0) (boot intImage {}) pipeRun := by
  have hrun : (Runs.exec Kernel.step (boot intImage {}) pipeRun).any (fun k =>
      k.pipes[0]?.join.isSome) = true := by
    decide +kernel
  have hread :
      Runs.outputs Kernel.step (Kernel.delivered 0) (boot intImage {}) pipeRun = [0xCD] := by
    decide +kernel
  obtain ⟨k, hk, h⟩ := Option.any_eq_true _ _ |>.mp hrun
  obtain ⟨x, hx⟩ := Option.isSome_iff_exists.mp h
  have hx : k.pipes[0]? = some (some x) := Option.join_eq_some_iff.mp hx
  exact ⟨k, x, hk, hx, hread, ((Kernel.pipe_stream_law hk 0).1 x hx).1⟩

end TownOS
