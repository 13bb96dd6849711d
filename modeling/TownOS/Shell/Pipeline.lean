import TownOS.Shell.Program
import TownOS.Kernel.Descriptors

/-!
What a pipeline leaves behind in the shell.

The kernel is seen from the shell: its descriptor table, and which of its requests were granted.
`Served` allows every pattern of successes and failures; that the kernel does nothing else to
the table of its caller is shown for `sys_pipe`, `sys_close` and `task_create_from_file`
(`served_sysPipe`, `served_sysClose`, `served_taskCreateFromFile`).

* `Wired`: each stage has the write end of the pipe after it and the read end of the one
  before it, and nothing else;
* `pipeline_bookkeeping`: after `run_pipeline` the table is as it was, the stages are wired and
  waited for, and the shell is in the foreground.
-/

namespace TownOS.Shell

open Requests

/-! ### The kernel, seen from the shell -/

/-- The read end of a pipe. -/
def readEnd (p : ℕ) : File := ⟨.pipe p, false⟩

/-- The write end. -/
def writeEnd (p : ℕ) : File := ⟨.pipe p, true⟩

/-- `alloc_fd`. -/
def allocFd (fds : ℕ → Option File) : Option ℕ :=
  (List.range maxFds).find? fun fd => (fds fd).isNone

/-- The two ends of a pipe are put into a table; `none` when there is no room. -/
def openPipe (fds : ℕ → Option File) (p : ℕ) : Option ((ℕ × ℕ) × (ℕ → Option File)) :=
  match allocFd fds with
  | none => none
  | some rfd =>
    match allocFd (Function.update fds rfd (some (readEnd p))) with
    | none => none
    | some wfd => some ((rfd, wfd), Function.update (Function.update fds rfd (some (readEnd p))) wfd
        (some (writeEnd p)))

/-- A descriptor is taken out of a table. -/
def closeFd (fds : ℕ → Option File) (fd : ℤ) : ℕ → Option File :=
  if 0 ≤ fd ∧ fd < maxFds then Function.update fds fd.toNat none else fds

/-- The descriptor that a new task is to inherit: `some none` for a fresh console, `none` for a
refusal. -/
def inheritFd (fds : ℕ → Option File) (fd : ℤ) (writable : Bool) : Option (Option File) :=
  if fd = -1 then some none
  else if fd < 0 ∨ maxFds ≤ fd then none
  else
    match fds fd.toNat with
    | none => none
    | some f => if f.writable = writable then some (some f) else none

/-- A task that was started: what it has instead of a console. -/
structure Child where
  id : ℕ
  pgid : ℕ
  input : Option File
  output : Option File

/-- The table of the shell, a bound on the pipes there are, and what it asked for. -/
structure World where
  fds : ℕ → Option File
  pipes : ℕ
  made : List ℕ
  starts : List Child
  waits : ℕ
  foreground : List ℕ

/-- Nothing is asked for yet. -/
def World.start (fds : ℕ → Option File) (pipes : ℕ) : World := ⟨fds, pipes, [], [], 0, []⟩

/-- How a request can go. -/
inductive Served : (r : Request) → World → r.Answer → World → Prop
  | noPipe (w : World) : Served .pipe w none w
  | pipe {w : World} {p rfd wfd : ℕ} {fds : ℕ → Option File} (hp : w.pipes ≤ p)
      (hopen : openPipe w.fds p = some ((rfd, wfd), fds)) :
      Served .pipe w (some (rfd, wfd)) { w with fds, pipes := p + 1, made := w.made ++ [p] }
  | close (w : World) (fd : ℤ) : Served (.close fd) w () { w with fds := closeFd w.fds fd }
  | noRun (w : World) (name : List Char) (inFd outFd : ℤ) (pgid : ℕ) :
      Served (.run name inFd outFd pgid) w none w
  | run {w : World} {name : List Char} {inFd outFd : ℤ} {pgid id : ℕ} {input output : Option File}
      (hid : id ≠ 0) (hin : inheritFd w.fds inFd false = some input)
      (hout : inheritFd w.fds outFd true = some output) :
      Served (.run name inFd outFd pgid) w (some id)
        { w with starts := w.starts ++
          [⟨id, if pgid = sysRunGroupNew then id else pgid, input, output⟩] }
  | setfg (w : World) (pgid : ℕ) (ok : Bool) :
      Served (.setfg pgid) w ok { w with foreground := w.foreground ++ [pgid] }
  | wait (w : World) (answer : Option (ℕ × ℕ)) :
      Served .wait w answer { w with waits := w.waits + 1 }
  | print (w : World) (text : List Char) : Served (.print text) w () w

/-! ### Wiring -/

/-- Each stage has the write end of the pipe after it, and the read end of the one before it. -/
def Wired (starts : List Child) (made : List ℕ) : Prop :=
  ∀ j c, starts[j]? = some c → c.output = made[j]?.map writeEnd ∧
    c.input = if j = 0 then none else made[j - 1]?.map readEnd

section Ends

variable {starts : List Child} {made : List ℕ} {c : Child} {i j p : ℕ}

lemma eq_of_made (hn : made.Nodup) (hi : made[i]? = some p) (hj : made[j]? = some p) : j = i :=
  (List.getElem?_inj (List.getElem?_eq_some_iff.1 hj).1 hn).1 (hj.trans hi.symm)

/-- The write end is with the stage before the pipe. -/
lemma Wired.output_iff (h : Wired starts made) (hn : made.Nodup) (hp : made[i]? = some p)
    (hc : starts[j]? = some c) : c.output = some (writeEnd p) ↔ j = i := by
  rw [(h j c hc).1]
  constructor
  · intro heq
    obtain ⟨q, hq, hqp⟩ := Option.map_eq_some_iff.1 heq
    cases hqp
    exact eq_of_made hn hp hq
  · rintro rfl
    rw [hp]
    rfl

/-- The read end is with the stage after the pipe. -/
lemma Wired.input_iff (h : Wired starts made) (hn : made.Nodup) (hp : made[i]? = some p)
    (hc : starts[j]? = some c) : c.input = some (readEnd p) ↔ j = i + 1 := by
  rw [(h j c hc).2]
  cases j with
  | zero => exact iff_of_false (Option.some_ne_none _).symm (Nat.succ_ne_zero i).symm
  | succ j =>
    rw [if_neg (Nat.succ_ne_zero j), Nat.add_sub_cancel, Nat.succ_inj]
    constructor
    · intro heq
      obtain ⟨q, hq, hqp⟩ := Option.map_eq_some_iff.1 heq
      cases hqp
      exact eq_of_made hn hp hq
    · rintro rfl
      rw [hp]
      rfl

/-- A stage never has a read end for its output. -/
lemma Wired.output_ne (h : Wired starts made) (hc : starts[j]? = some c) (p : ℕ) :
    c.output ≠ some (readEnd p) := by
  intro heq
  rw [(h j c hc).1] at heq
  obtain ⟨q, -, hqp⟩ := Option.map_eq_some_iff.1 heq
  cases hqp

/-- Nor a write end for its input. -/
lemma Wired.input_ne (h : Wired starts made) (hc : starts[j]? = some c) (p : ℕ) :
    c.input ≠ some (writeEnd p) := by
  intro heq
  rw [(h j c hc).2] at heq
  split_ifs at heq
  obtain ⟨q, -, hqp⟩ := Option.map_eq_some_iff.1 heq
  cases hqp

end Ends

/-- The read end that the shell carries to the next stage: its descriptor, and its pipe. -/
def carriedFd : Option (ℕ × ℕ) → ℤ
  | none => -1
  | some (fd, _) => fd

/-- The table with it. -/
def carriedFds (base : ℕ → Option File) : Option (ℕ × ℕ) → ℕ → Option File
  | none => base
  | some (fd, p) => Function.update base fd (some (readEnd p))

/-- Between two rounds: the shell carries the read end of the last pipe, and nothing else
that it did not have before. -/
structure Carrying (base : ℕ → Option File) (held : Option (ℕ × ℕ)) (job : Job) (w : World) :
    Prop where
  wired : Wired w.starts w.made
  nodup : w.made.Nodup
  below : ∀ p ∈ w.made, p < w.pipes
  count : w.made.length = w.starts.length
  started : job.started = w.starts.length
  leads : job.pgid = 0 ↔ w.starts = []
  waits : w.waits = 0
  foreground : w.foreground = []
  table : w.fds = carriedFds base held
  carried : ∀ fd p, held = some (fd, p) → fd < maxFds ∧ base fd = none
  last : held.map Prod.snd = w.made.getLast?

/-- After the loop: the table is as it was. -/
structure Settled (base : ℕ → Option File) (job : Job) (w : World) : Prop where
  wired : Wired w.starts w.made
  nodup : w.made.Nodup
  started : job.started = w.starts.length
  leads : job.pgid = 0 ↔ w.starts = []
  waits : w.waits = 0
  foreground : w.foreground = []
  table : w.fds = base

/-! ### Descriptor tables -/

section Tables

variable {base fds fds' : ℕ → Option File} {held : Option (ℕ × ℕ)} {p rfd wfd fd : ℕ} {f : File}

lemma allocFd_some (h : allocFd fds = some fd) : fd < maxFds ∧ fds fd = none :=
  ⟨List.mem_range.1 (List.mem_of_find?_eq_some h), by simpa using List.find?_some h⟩

lemma openPipe_some (h : openPipe fds p = some ((rfd, wfd), fds')) :
    rfd < maxFds ∧ wfd < maxFds ∧ rfd ≠ wfd ∧ fds rfd = none ∧ fds wfd = none ∧
      fds' = Function.update (Function.update fds rfd (some (readEnd p))) wfd
        (some (writeEnd p)) := by
  rw [openPipe] at h
  cases hr : allocFd fds with
  | none => simp [hr] at h
  | some r =>
    rw [hr] at h
    dsimp only at h
    cases hw : allocFd (Function.update fds r (some (readEnd p))) with
    | none => simp [hw] at h
    | some v =>
      rw [hw] at h
      cases h
      obtain ⟨hrlt, hrnone⟩ := allocFd_some hr
      obtain ⟨hwlt, hwnone⟩ := allocFd_some hw
      have hne : rfd ≠ wfd := by
        rintro rfl
        simp at hwnone
      rw [Function.update_of_ne hne.symm] at hwnone
      exact ⟨hrlt, hwlt, hne, hrnone, hwnone, rfl⟩

/-- Closing a descriptor that was free before. -/
lemma closeFd_update (hlt : fd < maxFds) (hnone : fds fd = none) :
    closeFd (Function.update fds fd (some f)) fd = fds := by
  rw [closeFd, if_pos ⟨Int.natCast_nonneg fd, Int.ofNat_lt.2 hlt⟩, Int.toNat_natCast,
    Function.update_idem, ← hnone, Function.update_eq_self]

lemma closeFd_neg_one (fds : ℕ → Option File) : closeFd fds (-1) = fds := if_neg (by omega)

/-- The carried end is closed. -/
lemma closeFd_carried (hheld : ∀ fd p, held = some (fd, p) → fd < maxFds ∧ base fd = none) :
    closeFd (carriedFds base held) (carriedFd held) = base := by
  cases held with
  | none => exact closeFd_neg_one base
  | some x =>
    obtain ⟨hlt, hnone⟩ := hheld x.1 x.2 rfl
    exact closeFd_update hlt hnone

/-- Closing one descriptor leaves another one. -/
lemma closeFd_update_of_ne {x : ℤ} (hne : x ≠ fd) (o : Option File) :
    closeFd (Function.update fds fd o) x = Function.update (closeFd fds x) fd o := by
  rw [closeFd, closeFd]
  split_ifs with hx
  · exact Function.update_comm (by omega) _ _ _
  · rfl

/-- The carried end is inherited. -/
lemma inheritFd_carried (hheld : ∀ fd p, held = some (fd, p) → fd < maxFds ∧ base fd = none) :
    inheritFd (carriedFds base held) (carriedFd held) false =
      some (held.map fun x => readEnd x.2) := by
  cases held with
  | none => rfl
  | some x =>
    obtain ⟨hlt, -⟩ := hheld x.1 x.2 rfl
    rw [inheritFd, carriedFd, if_neg (by omega), if_neg (by omega), Int.toNat_natCast, carriedFds,
      Function.update_self]
    rfl

lemma carriedFds_eq_none (h : carriedFds base held fd = none) :
    base fd = none ∧ carriedFd held ≠ fd := by
  cases held with
  | none => exact ⟨h, by rw [carriedFd]; omega⟩
  | some x =>
    have hne : x.1 ≠ fd := by
      rintro rfl
      simp [carriedFds] at h
    rw [carriedFds, Function.update_of_ne hne.symm] at h
    exact ⟨h, fun heq => hne (Int.ofNat_inj.1 heq)⟩

/-- A table with a new pipe, after the ends that the new stage has are closed. -/
lemma closeFd_round (hheld : ∀ fd p, held = some (fd, p) → fd < maxFds ∧ base fd = none)
    (hopen : openPipe (carriedFds base held) p = some ((rfd, wfd), fds')) :
    closeFd (closeFd fds' (carriedFd held)) wfd = Function.update base rfd (some (readEnd p)) := by
  obtain ⟨-, hwlt, hrw, hrnone, hwnone, rfl⟩ := openPipe_some hopen
  obtain ⟨-, hr⟩ := carriedFds_eq_none hrnone
  obtain ⟨hbase, hw⟩ := carriedFds_eq_none hwnone
  rw [closeFd_update_of_ne hw, closeFd_update_of_ne hr, closeFd_carried hheld,
    closeFd_update hwlt (by rwa [Function.update_of_ne hrw.symm])]

lemma inheritFd_update_of_ne {x : ℤ} {writable : Bool} (hne : x ≠ fd) (o : Option File) :
    inheritFd (Function.update fds fd o) x writable = inheritFd fds x writable := by
  rw [inheritFd, inheritFd]
  split_ifs with h₁ h₂
  · rfl
  · rfl
  · rw [Function.update_of_ne (by omega)]

/-- What a stage with a pipe after it has. -/
lemma inheritFd_round (hheld : ∀ fd p, held = some (fd, p) → fd < maxFds ∧ base fd = none)
    (hopen : openPipe (carriedFds base held) p = some ((rfd, wfd), fds')) :
    inheritFd fds' (carriedFd held) false = some (held.map fun x => readEnd x.2) ∧
      inheritFd fds' wfd true = some (some (writeEnd p)) := by
  obtain ⟨-, hwlt, hrw, hrnone, hwnone, rfl⟩ := openPipe_some hopen
  obtain ⟨-, hr⟩ := carriedFds_eq_none hrnone
  obtain ⟨-, hw⟩ := carriedFds_eq_none hwnone
  constructor
  · rw [inheritFd_update_of_ne hw, inheritFd_update_of_ne hr, inheritFd_carried hheld]
  · rw [inheritFd, if_neg (by omega), if_neg (by omega), Int.toNat_natCast, Function.update_self]
    rfl

end Tables

/-! ### Single requests -/

section Calls

variable {w : World}

lemma ensures_sysPrint (text : List Char) :
    Ensures Served (· = w) (sysPrint text) fun _ w' => w' = w := by
  refine .call fun s b s' hs h => ?_
  cases h
  exact hs

lemma ensures_sysPipe : Ensures Served (· = w) sysPipe fun ends w' =>
    ends = none ∧ w' = w ∨ ∃ p rfd wfd fds, ends = some (rfd, wfd) ∧ w.pipes ≤ p ∧
      openPipe w.fds p = some ((rfd, wfd), fds) ∧
      w' = { w with fds, pipes := p + 1, made := w.made ++ [p] } := by
  refine .call fun s b s' hs h => ?_
  subst hs
  cases h with
  | noPipe => exact .inl ⟨rfl, rfl⟩
  | pipe hp hopen => exact .inr ⟨_, _, _, _, rfl, hp, hopen, rfl⟩

lemma ensures_closeUnless (fd : ℤ) :
    Ensures Served (· = w) (closeUnless fd) fun _ w' =>
      w' = { w with fds := closeFd w.fds fd } := by
  rw [closeUnless]
  split_ifs with hfd
  · refine .call fun s b s' hs h => ?_
    cases h
    rw [hs]
  · refine .pure fun s hs => ?_
    rw [hs, not_not.1 hfd, closeFd_neg_one]

lemma ensures_sysSetfg (pgid : ℕ) : Ensures Served (· = w) (sysSetfg pgid) fun _ w' =>
    w' = { w with foreground := w.foreground ++ [pgid] } := by
  intro s a s' hs hrun
  cases hrun with
  | ask h hdone =>
    cases h
    cases hdone
    rw [hs]

lemma ensures_sysWait : Ensures Served (· = w) sysWait fun _ w' =>
    w' = { w with waits := w.waits + 1 } := by
  refine .call fun s b s' hs h => ?_
  cases h
  rw [hs]

/-- A stage is started with two descriptors, or not at all. -/
inductive Launched (w : World) (inFd outFd : ℤ) (pgid : ℕ) : Option ℕ → World → Prop
  | failed : Launched w inFd outFd pgid none w
  | started {id : ℕ} {input output : Option File} (hid : id ≠ 0)
      (hin : inheritFd w.fds inFd false = some input)
      (hout : inheritFd w.fds outFd true = some output) :
      Launched w inFd outFd pgid (some id)
        { w with starts := w.starts ++
          [⟨id, if pgid = sysRunGroupNew then id else pgid, input, output⟩] }

lemma ensures_startSegment (seg : List Char) (inFd outFd : ℤ) (pgid : ℕ) :
    Ensures Served (· = w) (startSegment seg inFd outFd pgid) (Launched w inFd outFd pgid) := by
  have hnone : ∀ text, Ensures Served (· = w) (do sysPrint text; return none)
      (Launched w inFd outFd pgid) := by
    intro text
    refine (ensures_sysPrint text).bind fun _ => .pure fun s hs => ?_
    rw [hs]
    exact .failed
  rw [startSegment]
  split
  · exact hnone _
  · split
    · exact hnone _
    · split
      · exact hnone _
      · have hrun : ∀ name, Ensures Served (· = w) (sysRunGroup name inFd outFd pgid)
            (Launched w inFd outFd pgid) := by
          refine fun name => .call fun s b s' hs h => ?_
          subst hs
          cases h with
          | noRun => exact .failed
          | run hid hin hout => exact .started hid hin hout
        refine (hrun _).bind fun id => ?_
        cases id with
        | none =>
          intro s a s' hs hprint
          cases hs
          exact hnone _ _ a s' rfl hprint
        | some id => exact .pure fun s hs => hs

end Calls

/-! ### The loop over the stages -/

section Rounds

variable {base fds : ℕ → Option File} {held : Option (ℕ × ℕ)} {job : Job} {w : World}
  {starts : List Child} {made : List ℕ} {c : Child} {p rfd wfd : ℕ}

/-- A pipe that no stage has. -/
lemma Wired.pipe (h : Wired starts made) (hcount : made.length = starts.length) (p : ℕ) :
    Wired starts (made ++ [p]) := by
  intro j c hj
  obtain ⟨hlt, -⟩ := List.getElem?_eq_some_iff.1 hj
  obtain ⟨hout, hin⟩ := h j c hj
  rw [List.getElem?_append_left (by omega), List.getElem?_append_left (by omega)]
  exact ⟨hout, hin⟩

/-- One more stage. -/
lemma Wired.stage (h : Wired starts made) (hout : c.output = made[starts.length]?.map writeEnd)
    (hin : c.input = if starts.length = 0 then none else made[starts.length - 1]?.map readEnd) :
    Wired (starts ++ [c]) made := by
  intro j c' hj
  rcases Nat.lt_trichotomy j starts.length with hlt | rfl | hgt
  · rw [List.getElem?_append_left hlt] at hj
    exact h j c' hj
  · rw [List.getElem?_concat_length] at hj
    cases hj
    exact ⟨hout, hin⟩
  · rw [List.getElem?_eq_none (by simp; omega)] at hj
    cases hj

/-- The read end that is carried is the one that comes next. -/
lemma Carrying.input (h : Carrying base held job w) : (held.map fun x => readEnd x.2) =
    if w.starts.length = 0 then none else w.made[w.starts.length - 1]?.map readEnd := by
  have hlast := congrArg (Option.map readEnd) h.last
  rw [Option.map_map] at hlast
  refine hlast.trans ?_
  rw [← h.count, List.getLast?_eq_getElem?]
  split_ifs with h0
  · rw [List.getElem?_eq_none (by omega)]
    rfl
  · rfl

/-- A round with a stage after it, from where the pipe is made. -/
lemma Carrying.round (h : Carrying base held job w) (hp : w.pipes ≤ p)
    (hopen : openPipe w.fds p = some ((rfd, wfd), fds)) (seg : List Char) :
    Ensures Served (· = { w with fds, pipes := p + 1, made := w.made ++ [p] })
      (startStage seg false (carriedFd held) wfd rfd job) fun r w' =>
        r = (none, job) ∧ Settled base job w' ∨
          ∃ job', r = (some (rfd : ℤ), job') ∧ Carrying base (some (rfd, p)) job' w' := by
  rw [h.table] at hopen
  obtain ⟨hrlt, -, -, hrnone, -, -⟩ := openPipe_some hopen
  obtain ⟨hrbase, -⟩ := carriedFds_eq_none hrnone
  have hclosed := closeFd_round h.carried hopen
  obtain ⟨hin, hout⟩ := inheritFd_round h.carried hopen
  have hnodup : (w.made ++ [p]).Nodup := by
    refine List.nodup_append.2 ⟨h.nodup, List.nodup_singleton p, fun a ha b hb hab => ?_⟩
    rw [List.mem_singleton.1 hb] at hab
    exact absurd (h.below a ha) (by omega)
  refine (ensures_startSegment _ _ _ _).andThen fun id s hs => ?_
  refine (ensures_closeUnless _).andThen ?_
  rintro _ _ rfl
  refine (ensures_closeUnless _).andThen ?_
  rintro _ _ rfl
  cases hs with
  | failed =>
    refine (ensures_closeUnless _).andThen ?_
    rintro _ _ rfl
    refine .pure fun s hs => .inl ⟨rfl, ?_⟩
    rw [hs]
    refine ⟨h.wired.pipe h.count p, hnodup, h.started, h.leads, h.waits, h.foreground, ?_⟩
    exact (congrArg (closeFd · rfd) hclosed).trans (closeFd_update hrlt hrbase)
  | started hid hin' hout' =>
    refine .pure fun s hs => .inr ⟨_, rfl, ?_⟩
    rw [hs]
    obtain rfl := Option.some.inj (hin.symm.trans hin')
    obtain rfl := Option.some.inj (hout.symm.trans hout')
    refine ⟨(h.wired.pipe h.count p).stage ?_ ?_, hnodup, ?_, ?_, ?_, ?_, h.waits, h.foreground,
      hclosed, ?_, ?_⟩
    · rw [← h.count, List.getElem?_concat_length]
      rfl
    · refine h.input.trans ?_
      split_ifs with h0
      · rfl
      · have hcount := h.count
        rw [List.getElem?_append_left (by omega)]
    · intro q hq
      rcases List.mem_append.1 hq with hq | hq
      · exact lt_of_lt_of_le (h.below q hq) (hp.trans (Nat.le_succ p))
      · rw [List.mem_singleton.1 hq]
        exact Nat.lt_succ_self p
    · simp only [List.length_append, List.length_singleton, h.count]
    · simp only [List.length_append, List.length_singleton, h.started]
    · refine iff_of_false ?_ (by simp)
      dsimp only
      split_ifs with h0
      · exact hid
      · exact h0
    · rintro fd q heq
      cases heq
      exact ⟨hrlt, hrbase⟩
    · simp

/-- The round for the last stage. -/
lemma Carrying.lastRound (h : Carrying base held job w) (seg : List Char) :
    Ensures Served (· = w) (startStage seg true (carriedFd held) (-1) (-1) job) fun r w' =>
      Settled base r.2 w' := by
  have hclosed : closeFd (closeFd w.fds (carriedFd held)) (-1) = base := by
    rw [closeFd_neg_one, h.table, closeFd_carried h.carried]
  refine (ensures_startSegment _ _ _ _).andThen fun id s hs => ?_
  refine (ensures_closeUnless _).andThen ?_
  rintro _ _ rfl
  refine (ensures_closeUnless _).andThen ?_
  rintro _ _ rfl
  cases hs with
  | failed =>
    refine (ensures_closeUnless _).andThen ?_
    rintro _ _ rfl
    refine .pure fun s hs => ?_
    rw [hs]
    refine ⟨h.wired, h.nodup, h.started, h.leads, h.waits, h.foreground, ?_⟩
    exact (closeFd_neg_one _).trans hclosed
  | started hid hin hout =>
    refine .pure fun s hs => ?_
    rw [hs]
    rw [h.table, inheritFd_carried h.carried] at hin
    obtain rfl := Option.some.inj hin
    obtain rfl := Option.some.inj hout
    refine ⟨h.wired.stage ?_ h.input, h.nodup, ?_, ?_, h.waits, h.foreground, hclosed⟩
    · rw [← h.count, List.getElem?_eq_none le_rfl]
      rfl
    · simp only [List.length_append, List.length_singleton, h.started]
    · refine iff_of_false ?_ (by simp)
      dsimp only
      split_ifs with h0
      · exact hid
      · exact h0

/-- The loop, by induction on the stages that are left. -/
lemma Carrying.startStages {segs : List (List Char)} (hsegs : segs ≠ [])
    (h : Carrying base held job w) :
    Ensures Served (· = w) (startStages segs (carriedFd held) job) (Settled base) := by
  induction segs generalizing held job w with
  | nil => exact absurd rfl hsegs
  | cons seg rest ih =>
    cases rest with
    | nil =>
      rw [Shell.startStages]
      exact (h.lastRound seg).andThen fun r s hs => .pure fun s' hs' => hs' ▸ hs
    | cons next rest =>
      rw [Shell.startStages]
      refine ensures_sysPipe.andThen fun ends s hs => ?_
      obtain ⟨rfl, rfl⟩ | ⟨p, rfd, wfd, fds, rfl, hp, hopen, rfl⟩ := hs
      · refine (ensures_sysPrint _).andThen ?_
        rintro _ _ rfl
        refine (ensures_closeUnless _).andThen ?_
        rintro _ _ rfl
        refine .pure fun s hs => ?_
        rw [hs]
        refine ⟨h.wired, h.nodup, h.started, h.leads, h.waits, h.foreground, ?_⟩
        exact (congrArg (closeFd · _) h.table).trans (closeFd_carried h.carried)
      · refine (h.round hp hopen seg).andThen fun r s hs => ?_
        obtain ⟨rfl, hsettled⟩ | ⟨job', rfl, hcarrying⟩ := hs
        · exact .pure fun s' hs' => hs' ▸ hsettled
        · exact ih (List.cons_ne_nil _ _) hcarrying

end Rounds

/-! ### What the kernel does to the table of its caller -/

section Kernel

open Kernel

variable {k : Kernel} {t : Task}

lemma currentFile_eq (ht : k.currentTask = some t) {fd : ℕ} (hfd : fd < maxFds) :
    k.currentFile fd = t.fds fd := by
  rw [currentFile, if_pos hfd, ht]
  rfl

lemma allocFd_eq (ht : k.currentTask = some t) : k.allocFd = allocFd t.fds := by
  refine List.find?_congr fun fd hfd => ?_
  rw [currentFile_eq ht (List.mem_range.1 hfd)]

lemma currentTask_setFd (ht : k.currentTask = some t) (fd : ℕ) (o : Option File) :
    (k.setFd fd o).currentTask = some { t with fds := Function.update t.fds fd o } := by
  change (k.modifyTask k.current _).task k.current = _
  rw [task_modifyTask, if_pos rfl, show k.task k.current = some t from ht]
  rfl

lemma fdsAt_current (ht : k.currentTask = some t) : k.fdsAt k.current = some t.fds :=
  congrArg (Option.map Task.fds) ht

/-- `close_fd` of a descriptor of the caller. -/
lemma fdsAt_closeFd (ht : k.currentTask = some t) {fd : ℕ} (hfd : fd < maxFds) :
    (k.closeFd fd).fdsAt k.current = some (Function.update t.fds fd none) := by
  rw [Kernel.closeFd, currentFile_eq ht hfd]
  cases hf : t.fds fd with
  | none =>
    dsimp only
    rw [fdsAt_current ht, ← hf, Function.update_eq_self]
  | some f =>
    dsimp only
    rw [(mild_fileClose (k.setFd fd none) f).fdsAt]
    exact fdsAt_current (currentTask_setFd ht fd none)

/-- The machine with its first task, right after boot. -/
def firstKernel (rdi : Word) : Kernel := boot ⟨0x400000, 0, fun _ => 0⟩ { rdi := rdi }

/-- Memory is there, and so is every file. -/
def plenty : Answers := ⟨fun _ => true, some ⟨0x400000, 0, fun _ => 0⟩, true, ⟨false, 0, []⟩⟩

lemma firstKernel_task (rdi : Word) : ∃ t, (firstKernel rdi).currentTask = some t := ⟨_, rfl⟩

/-- `sys_close` takes the descriptor out of the table. -/
theorem served_sysClose (ht : k.currentTask = some t) :
    (Kernel.sysClose k).fdsAt k.current = some (closeFd t.fds k.pile.rdi.toNat) := by
  generalize hfd : k.pile.rdi.toNat = fd
  rw [Kernel.sysClose, hfd]
  by_cases hlt : fd < maxFds
  · have hclosed : closeFd t.fds fd = Function.update t.fds fd none :=
      if_pos ⟨Int.natCast_nonneg fd, Int.ofNat_lt.2 hlt⟩
    rw [hclosed, currentFile_eq ht hlt]
    cases hf : t.fds fd with
    | none => exact (fdsAt_current ht).trans (by rw [← hf, Function.update_eq_self])
    | some f => exact fdsAt_closeFd ht hlt
  · have hclosed : closeFd t.fds fd = t.fds := if_neg fun h => hlt (Int.ofNat_lt.1 h.2)
    rw [hclosed, currentFile, if_neg hlt]
    exact fdsAt_current ht

/-- The first task closes its output. -/
theorem served_sysClose_firstKernel : ∃ t, (firstKernel 1).currentTask = some t ∧
    (Kernel.sysClose (firstKernel 1)).fdsAt (firstKernel 1).current =
      some (closeFd t.fds (1 : Word).toNat) := by
  obtain ⟨t, ht⟩ := firstKernel_task 1
  exact ⟨t, ht, served_sysClose ht⟩

lemma currentTask_countEnd (k : Kernel) (f : File) :
    (countEnd k f).currentTask = k.currentTask := by
  rw [countEnd]
  cases f.kind <;> rfl

lemma current_countEnd (k : Kernel) (f : File) : (countEnd k f).current = k.current := by
  rw [countEnd]
  cases f.kind <;> rfl

/-- The second half of `sys_pipe`: the write end is added, or the read end is closed again. -/
lemma fdsAt_sysPipeWriteEnd (ht : k.currentTask = some t) (a : Answers) {p rfd : ℕ}
    (hrfd : rfd < maxFds) :
    (sysPipeWriteEnd k a p rfd).pile.rax = syscallError ∧
        (sysPipeWriteEnd k a p rfd).fdsAt k.current = some (Function.update t.fds rfd none) ∨
      ∃ wfd, allocFd t.fds = some wfd ∧ (sysPipeWriteEnd k a p rfd).pile.rax = 0 ∧
        (sysPipeWriteEnd k a p rfd).fdsAt k.current =
          some (Function.update t.fds wfd (some (writeEnd p))) := by
  rw [sysPipeWriteEnd, allocFd_eq ht]
  cases hw : allocFd t.fds with
  | none => exact .inl ⟨rfl, fdsAt_closeFd ht hrfd⟩
  | some wfd =>
    cases hheap : a.heap 2 with
    | false => exact .inl ⟨rfl, fdsAt_closeFd ht hrfd⟩
    | true =>
      refine .inr ⟨wfd, rfl, rfl, ?_⟩
      have ht' := currentTask_setFd ((currentTask_countEnd k (writeEnd p)).trans ht) wfd
        (some (writeEnd p))
      have hcur : ((countEnd k (writeEnd p)).setFd wfd (some (writeEnd p))).current = k.current :=
        current_countEnd k _
      exact (fdsAt_store _ _ _ k.current).trans (hcur ▸ fdsAt_current ht')

/-- `sys_pipe` opens a pipe, or leaves the table alone. -/
theorem served_sysPipe (ht : k.currentTask = some t) (a : Answers) :
    (Kernel.sysPipe k a).pile.rax = syscallError ∧
      (Kernel.sysPipe k a).fdsAt k.current = some t.fds ∨
      ∃ rfd wfd fds, openPipe t.fds k.pipes.length = some ((rfd, wfd), fds) ∧
        (Kernel.sysPipe k a).pile.rax = 0 ∧ (Kernel.sysPipe k a).fdsAt k.current = some fds := by
  rw [Kernel.sysPipe]
  by_cases hrange : (!userRangeOk k.pile.rdi 8) = true
  · rw [if_pos hrange]
    exact .inl ⟨rfl, fdsAt_current ht⟩
  by_cases hheap : (!a.heap 0) = true
  · rw [if_neg hrange, if_pos hheap]
    exact .inl ⟨rfl, fdsAt_current ht⟩
  rw [if_neg hrange, if_neg hheap]
  generalize hk₁ : ({ k with pipes := k.pipes ++ [some Pipe.create] } : Kernel) = k₁
  have ht₁ : k₁.currentTask = some t := by rw [← hk₁]; exact ht
  have hcur₁ : k₁.current = k.current := by rw [← hk₁]
  dsimp only
  rw [allocFd_eq ht₁, openPipe]
  cases hr : allocFd t.fds with
  | none => exact .inl ⟨rfl, hcur₁ ▸ fdsAt_current ht₁⟩
  | some rfd =>
    obtain ⟨hlt, hnone⟩ := allocFd_some hr
    cases hheap₁ : a.heap 1 with
    | false => exact .inl ⟨rfl, hcur₁ ▸ fdsAt_current ht₁⟩
    | true =>
      have ht₂ := currentTask_setFd ((currentTask_countEnd k₁ (readEnd k.pipes.length)).trans ht₁)
        rfd (some (readEnd k.pipes.length))
      have hcur₂ : ((countEnd k₁ (readEnd k.pipes.length)).setFd rfd
          (some (readEnd k.pipes.length))).current = k.current :=
        (current_countEnd k₁ _).trans hcur₁
      obtain ⟨hrax, hfds⟩ | ⟨wfd, hw, hrax, hfds⟩ :=
        fdsAt_sysPipeWriteEnd ht₂ a (p := k.pipes.length) hlt
      · refine .inl ⟨hrax, (hcur₂ ▸ hfds).trans ?_⟩
        rw [Function.update_idem, ← hnone, Function.update_eq_self]
      · refine .inr ⟨rfd, wfd, _, ?_, hrax, hcur₂ ▸ hfds⟩
        dsimp only at hw ⊢
        rw [hw]

/-- The first task opens a pipe. -/
theorem served_sysPipe_firstKernel : ∃ t rfd wfd fds, (firstKernel 0x500000).currentTask = some t ∧
    openPipe t.fds 0 = some ((rfd, wfd), fds) ∧
    (Kernel.sysPipe (firstKernel 0x500000) plenty).fdsAt (firstKernel 0x500000).current =
      some fds := by
  obtain ⟨t, ht⟩ := firstKernel_task 0x500000
  have hok : (Kernel.sysPipe (firstKernel 0x500000) plenty).pile.rax = 0 := by decide +kernel
  obtain ⟨hfail, -⟩ | ⟨rfd, wfd, fds, hopen, -, hfds⟩ := served_sysPipe ht plenty
  · rw [hok] at hfail
    exact absurd hfail (by decide)
  · exact ⟨t, rfd, wfd, fds, ht, hopen, hfds⟩

lemma inheritedFile_eq (ht : k.currentTask = some t) (fd : ℤ) (writable : Bool) :
    k.inheritedFile fd writable = inheritFd t.fds fd writable := by
  rw [inheritedFile, inheritFd]
  by_cases hneg : fd = -1
  · rw [if_pos hneg, if_pos hneg]
  · rw [if_neg hneg, if_neg hneg]
    by_cases hlow : fd < 0
    · rw [if_pos hlow, if_pos (.inl hlow)]
    · rw [if_neg hlow]
      by_cases hhigh : (maxFds : ℤ) ≤ fd
      · rw [if_pos (.inr hhigh), currentFile, if_neg (by omega)]
      · rw [currentFile_eq ht (by omega)]
        exact (if_neg (by omega)).symm

lemma mild_undoDup (k : Kernel) (f : Option File) : Mild k (undoDup k f) := by
  cases f with
  | none => exact .refl k
  | some f => exact mild_fileClose k f

lemma mild_dupFile {k' : Kernel} {f : Option File} {room : Bool} (h : dupFile k f room = some k') :
    Mild k k' := by
  cases f with
  | none =>
    cases h
    exact .refl k
  | some f =>
    cases room with
    | false => cases h
    | true =>
      cases h
      exact mild_countEnd k f

lemma fdsAt_taskRegister (k : Kernel) (a : Answers) (image : Image) (parentId pgid : ℕ)
    (fds : ℕ → Option File) :
    taskRegister k a image parentId pgid fds = none ∨
      ∃ k', taskRegister k a image parentId pgid fds = some k' ∧
        ∀ i, k'.fdsAt i = if i = k.tasks.length then some fds else k.fdsAt i := by
  rw [taskRegister]
  by_cases hfull : maxTasksLimit ≤ k.tasks.length
  · exact .inl (if_pos hfull)
  by_cases hheap : (!(a.heap 2 && a.heap 3 && a.heap 4)) = true
  · rw [if_neg hfull, if_pos hheap]
    exact .inl rfl
  · rw [if_neg hfull, if_neg hheap]
    refine .inr ⟨_, rfl, fun i => ?_⟩
    rw [fdsAt, task_live, task_addTask]
    split_ifs <;> rfl

/-- The second half of `task_create_from_file`. -/
lemma fdsAt_startTask (k : Kernel) (a : Answers) (image : Image) (input output : Option File)
    (parentId pgid : ℕ) :
    (∃ k', startTask k a image input output parentId pgid = (none, k') ∧ Mild k k') ∨
      ∃ k', startTask k a image input output parentId pgid = (some k.tasks.length, k') ∧
        ∀ i, k'.fdsAt i =
          if i = k.tasks.length then some (childFds input output) else k.fdsAt i := by
  rw [startTask]
  cases hd₁ : dupFile k input (a.heap 0) with
  | none => exact .inl ⟨k, rfl, .refl k⟩
  | some k₁ =>
    have hm₁ := mild_dupFile hd₁
    dsimp only
    cases hd₂ : dupFile k₁ output (a.heap 1) with
    | none => exact .inl ⟨_, rfl, hm₁.trans (mild_undoDup k₁ input)⟩
    | some k₂ =>
      have hm₂ := hm₁.trans (mild_dupFile hd₂)
      dsimp only
      obtain hreg | ⟨k₃, hreg, hfds⟩ := fdsAt_taskRegister k₂ a image parentId pgid
        (childFds input output)
      · rw [hreg]
        exact .inl ⟨_, rfl, (hm₂.trans (mild_undoDup k₂ input)).trans (mild_undoDup _ output)⟩
      · rw [hreg]
        refine .inr ⟨k₃, rfl, fun i => (hfds i).trans ?_⟩
        rw [hm₂.length, hm₂.fdsAt]

/-- `task_create_from_file` gives a new task the two descriptors it is told to, or there is no new
task; it leaves the tables there are alone. -/
theorem served_taskCreateFromFile (ht : k.currentTask = some t) (a : Answers) (parentId : ℕ)
    (inFd outFd : ℤ) (pgid : ℕ) :
    (∃ k', taskCreateFromFile k a parentId inFd outFd pgid = (none, k') ∧
        ∀ i, k'.fdsAt i = k.fdsAt i) ∨
      ∃ k' input output, taskCreateFromFile k a parentId inFd outFd pgid =
          (some k.tasks.length, k') ∧ inheritFd t.fds inFd false = some input ∧
        inheritFd t.fds outFd true = some output ∧
        ∀ i, k'.fdsAt i =
          if i = k.tasks.length then some (childFds input output) else k.fdsAt i := by
  rw [taskCreateFromFile, inheritedFile_eq ht, inheritedFile_eq ht]
  split_ifs with hgroup
  · exact .inl ⟨k, rfl, fun _ => rfl⟩
  cases inheritFd t.fds inFd false with
  | none => exact .inl ⟨k, rfl, fun _ => rfl⟩
  | some input =>
    cases inheritFd t.fds outFd true with
    | none => exact .inl ⟨k, rfl, fun _ => rfl⟩
    | some output =>
      cases a.image with
      | none => exact .inl ⟨k, rfl, fun _ => rfl⟩
      | some image =>
        obtain ⟨k', hstart, hmild⟩ | ⟨k', hstart, hfds⟩ :=
          fdsAt_startTask k a image input output parentId pgid
        · exact .inl ⟨k', hstart, hmild.fdsAt⟩
        · exact .inr ⟨k', input, output, hstart, rfl, rfl, hfds⟩

/-- The first task starts another. -/
theorem served_taskCreateFromFile_firstKernel :
    ∃ k', taskCreateFromFile (firstKernel 0) plenty 0 (-1) (-1) 0 =
        (some (firstKernel 0).tasks.length, k') ∧ ∀ i, k'.fdsAt i =
        if i = (firstKernel 0).tasks.length then some (childFds none none)
        else (firstKernel 0).fdsAt i := by
  obtain ⟨t, ht⟩ := firstKernel_task 0
  have hok : (taskCreateFromFile (firstKernel 0) plenty 0 (-1) (-1) 0).1.isSome = true := by
    decide +kernel
  obtain ⟨k', hfail, -⟩ | ⟨k', input, output, hdone, hin, hout, hfds⟩ :=
    served_taskCreateFromFile ht plenty 0 (-1) (-1) 0
  · rw [hfail] at hok
    cases hok
  · cases hin
    cases hout
    exact ⟨k', hdone, hfds⟩

end Kernel

/-! ### The whole pipeline -/

/-- What a pipeline leaves behind. -/
structure Tidied (base : ℕ → Option File) (w : World) : Prop where
  table : w.fds = base
  wired : Wired w.starts w.made
  nodup : w.made.Nodup
  waits : w.waits = w.starts.length
  foreground : w.foreground.getLast? = some shellPgid ∨
    w.foreground = [] ∧ w.made = [] ∧ w.starts = []

lemma ensures_reapStages {w : World} (lastId : Option ℕ) (n : ℕ) (lastStatus : Option ℕ) :
    Ensures Served (· = w) (reapStages lastId n lastStatus) fun _ w' =>
      w' = { w with waits := w.waits + n } := by
  induction n generalizing w lastStatus with
  | zero => exact .pure fun s hs => hs
  | succ n ih =>
    rw [reapStages]
    refine ensures_sysWait.andThen ?_
    rintro answer _ rfl
    cases answer with
    | none =>
      refine (ih _).mono (fun s => id) fun _ s hs => ?_
      rw [hs]
      dsimp only
      rw [Nat.add_assoc, Nat.add_comm 1]
    | some x =>
      refine (ih _).mono (fun s => id) fun _ s hs => ?_
      rw [hs]
      dsimp only
      rw [Nat.add_assoc, Nat.add_comm 1]

lemma ensures_drain {base : ℕ → Option File} {job : Job} {w : World} (h : Settled base job w) :
    Ensures Served (· = w) (drain job) fun _ w' => Tidied base w' := by
  have hgive : Ensures Served (· = w) (giveKeyboard job.pgid)
      fun _ w' => ∃ l, w' = { w with foreground := l } := by
    rw [giveKeyboard]
    split_ifs
    · exact (ensures_sysSetfg _).mono (fun s => id) fun _ s hs => ⟨_, hs⟩
    · exact .pure fun s hs => ⟨w.foreground, hs⟩
  have hreport : ∀ {w : World} (lastId lastStatus : Option ℕ),
      Ensures Served (· = w) (reportStatus lastId lastStatus) fun _ w' => w' = w := by
    intro w lastId lastStatus
    unfold reportStatus
    split
    · exact ensures_sysPrint _
    · exact .pure fun s hs => hs
  refine hgive.andThen ?_
  rintro _ _ ⟨l, rfl⟩
  refine (ensures_reapStages _ _ _).andThen ?_
  rintro lastStatus _ rfl
  refine (hreport _ _).andThen ?_
  rintro _ _ rfl
  refine (ensures_sysSetfg _).mono (fun s => id) fun _ s hs => ?_
  rw [hs]
  refine ⟨h.table, h.wired, h.nodup, ?_, .inl List.getLast?_concat⟩
  rw [h.waits, h.started, Nat.zero_add]

/-- Nothing was asked for. -/
lemma tidied_start (fds : ℕ → Option File) (pipes : ℕ) : Tidied fds (.start fds pipes) where
  table := rfl
  wired := fun j c hj => by cases hj
  nodup := List.nodup_nil
  waits := rfl
  foreground := .inr ⟨rfl, rfl, rfl⟩

lemma ensures_runPipeline (line : List Char) (fds : ℕ → Option File) (pipes : ℕ) :
    Ensures Served (· = World.start fds pipes) (runPipeline line) fun _ w => Tidied fds w := by
  have hprint : ∀ text, Ensures Served (· = World.start fds pipes) (sysPrint text)
      fun _ w => Tidied fds w := fun text =>
    (ensures_sysPrint text).mono (fun s => id) fun _ s hs => hs ▸ tidied_start fds pipes
  rw [runPipeline]
  split
  · exact hprint _
  · rename_i seg hseg
    split_ifs with hlen
    · exact hprint _
    · have hstart : Carrying fds none ⟨0, 0, none⟩ (.start fds pipes) := by
        refine ⟨?_, List.nodup_nil, ?_, rfl, rfl, iff_of_true rfl rfl, rfl, rfl, rfl, ?_, rfl⟩
        · exact (tidied_start fds pipes).wired
        · exact fun p hp => absurd hp List.not_mem_nil
        · exact fun fd p h => by cases h
      have hne : seg ≠ [] := by
        rintro rfl
        exact hlen (by decide)
      exact (hstart.startStages hne).andThen fun job w hw => ensures_drain hw

/-- **The bookkeeping of a pipeline.** However the requests for pipes and stages go: when
`run_pipeline` returns, the shell has the descriptors it had; the write end of each pipe
was given to the stage before it and to no other, the read end to the stage after it and
to no other; there was one wait for each stage; and the last request for the foreground,
if there was anything to run, was for the group of the shell. -/
theorem pipeline_bookkeeping {line : List Char} {fds : ℕ → Option File} {pipes : ℕ} {w : World}
    (hrun : Run Served (runPipeline line) (.start fds pipes) () w) :
    w.fds = fds ∧
      (∀ i p j c, w.made[i]? = some p → w.starts[j]? = some c →
        (c.output = some (writeEnd p) ↔ j = i) ∧ (c.input = some (readEnd p) ↔ j = i + 1) ∧
          c.output ≠ some (readEnd p) ∧ c.input ≠ some (writeEnd p)) ∧
      w.waits = w.starts.length ∧
      (w.foreground.getLast? = some shellPgid ∨
        w.foreground = [] ∧ w.made = [] ∧ w.starts = []) := by
  have h := ensures_runPipeline line fds pipes _ _ _ rfl hrun
  refine ⟨h.table, fun i p j c hp hc => ?_, h.waits, h.foreground⟩
  exact ⟨h.wired.output_iff h.nodup hp hc, h.wired.input_iff h.nodup hp hc, h.wired.output_ne hc p,
    h.wired.input_ne hc p⟩

/-- A kernel that grants every request it can. -/
def grant : (r : Request) → World → r.Answer × World
  | .pipe, w =>
    match openPipe w.fds w.pipes with
    | none => (none, w)
    | some (ends, fds) =>
      (some ends, { w with fds, pipes := w.pipes + 1, made := w.made ++ [w.pipes] })
  | .close fd, w => ((), { w with fds := closeFd w.fds fd })
  | .run _ inFd outFd pgid, w =>
    match inheritFd w.fds inFd false, inheritFd w.fds outFd true with
    | some input, some output =>
      let id := w.starts.length + 1
      (some id, { w with starts := w.starts ++
        [⟨id, if pgid = sysRunGroupNew then id else pgid, input, output⟩] })
    | _, _ => (none, w)
  | .setfg pgid, w => (true, { w with foreground := w.foreground ++ [pgid] })
  | .wait, w => (some (0, w.waits + 1), { w with waits := w.waits + 1 })
  | .print _, w => ((), w)

lemma served_grant (r : Request) (w : World) : Served r w (grant r w).1 (grant r w).2 := by
  cases r with
  | pipe =>
    rw [grant]
    cases hopen : openPipe w.fds w.pipes with
    | none => exact .noPipe w
    | some x => exact .pipe le_rfl hopen
  | close fd => exact .close w fd
  | run name inFd outFd pgid =>
    rw [grant]
    cases hin : inheritFd w.fds inFd false with
    | none => exact .noRun ..
    | some input =>
      cases hout : inheritFd w.fds outFd true with
      | none => exact .noRun ..
      | some output => exact .run (Nat.succ_ne_zero _) hin hout
  | setfg pgid => exact .setfg w pgid true
  | wait => exact .wait w _
  | print text => exact .print w text

/-- Three programs and two pipes. -/
theorem pipeline_bookkeeping_three :
    ∃ w, w = (Requests.exec grant (runPipeline "run a.elf | run b.elf|run c.elf".toList)
        (.start consoleFds 0)).2 ∧ w.starts.length = 3 ∧ w.made = [0, 1] ∧
      w.foreground = [1, shellPgid] ∧ w.fds = consoleFds ∧ w.waits = w.starts.length := by
  have h := pipeline_bookkeeping (run_exec served_grant
    (runPipeline "run a.elf | run b.elf|run c.elf".toList) (.start consoleFds 0))
  exact ⟨_, rfl, by decide, by decide, by decide, h.1, h.2.2.1⟩

end TownOS.Shell
