import TownOS.Kernel.Rotation
import TownOS.Kernel.Privilege

/-!
The lives of the tasks (`kernel/scheduler.c`).

The history of a run says which tasks were registered, with which status they exited, and
when their address spaces and records were freed, by `task_wait` or by the sweep. The task
table agrees with it at all times (`Ledger`), and so no entry comes too early or twice.

* `Ledger.turn`: the table agrees with the history;
* `scheduler_sound`: the invariant of the scheduler;
* `Ledger.waitEnds`: what a `SYS_WAIT` leaves in RAX and in memory;
* `noneReturned_handled`: nothing else returns a child;
* `exit_status_delivered`: how the exit statuses reach the creators.
-/

namespace TownOS

/-- The entry is about the life of a task. -/
def Life.Of (i : ℕ) : Life → Prop
  | registered j _ => j = i
  | condemned _ _ => False
  | exited j _ _ => j = i
  | destroyed j _ => j = i
  | swept j => j = i
  | collected _ j _ => j = i

/-- The entry says that the record of a task is freed. -/
def Life.Frees (i : ℕ) : Life → Prop
  | swept j => j = i
  | collected _ j _ => j = i
  | _ => False

lemma Life.Frees.of {i : ℕ} {x : Life} (h : x.Frees i) : x.Of i := by
  cases x <;> first | exact h | cases h

namespace Kernel

open Relation Runs

/-- A task has exited. -/
def HasExited (l : List Life) (i : ℕ) : Prop := ∃ status frame, .exited i status frame ∈ l

/-- The record of a task that has exited is freed. -/
def Freed (l : List Life) (i : ℕ) : Prop := HasExited l i ∧ ∃ x ∈ l, x.Frees i

/-- What is freed belongs to a task that has exited, and was not freed before; an address space
is not the loaded one. -/
def FreedOnce (pre : List Life) : Life → Prop
  | .destroyed i loaded => HasExited pre i ∧ (∀ o, .destroyed i o ∉ pre) ∧ loaded ≠ i
  | .swept i => HasExited pre i ∧ ∀ x ∈ pre, ¬x.Frees i
  | .collected _ i _ => HasExited pre i ∧ ∀ x ∈ pre, ¬x.Frees i
  | _ => True

/-- The value `task_wait` returns for a status. -/
def waitValue (status : ℕ) : Word := BitVec.ofNat 64 (status % 256)

/-- A task has one creator and exits once, with the status it asks for or that of a signal. What
`task_wait` returns goes to the creator, is that status and no error, and is the first and
only thing done about the record. The sweep leaves a record alone unless its task has no
creator or one that has exited. -/
def Delivered (pre : List Life) : Life → Prop
  | .registered i _ => ∀ p, .registered i p ∉ pre
  | .exited i status frame => ¬HasExited pre i ∧ Cause pre i frame status
  | .collected caller i value =>
    .registered i (some caller) ∈ pre ∧ (∀ x ∈ pre, ¬x.Frees i) ∧ value ≠ syscallError ∧
      ∃ status frame, .exited i status frame ∈ pre ∧ value = waitValue status
  | .swept i => .registered i none ∈ pre ∨
      ∃ p, .registered i (some p) ∈ pre ∧ HasExited pre p
  | _ => True

lemma waitValue_ne_syscallError (status : ℕ) : waitValue status ≠ syscallError := by
  intro h
  have hnat := congrArg BitVec.toNat h
  rw [waitValue, BitVec.toNat_ofNat, Nat.mod_mod_of_dvd' (by decide)] at hnat
  have hlt : status % 256 < 256 := Nat.mod_lt _ (by decide)
  have herr : syscallError.toNat = 18446744073709551615 := rfl
  omega

variable {k k' : Kernel} {m m' : Mode} {l : List Life} {x : Life} {i : ℕ} {t t' : Task}

/-! ### One task -/

/-- What the history tells about a task in the table. -/
structure Tells (l : List Life) (i : ℕ) (t : Task) : Prop where
  id : t.id = i
  registered : .registered i t.parentId ∈ l
  exited :
    t.state = .zombie → ∃ status frame, .exited i status frame ∈ l ∧ t.exitStatus = status % 256
  alive : t.state ≠ .zombie → ¬HasExited l i
  kept : ∀ x ∈ l, ¬x.Frees i
  tree : t.aspace = true → ∀ o, .destroyed i o ∉ l

/-- A change that the history does not tell. -/
structure Akin (t t' : Task) : Prop where
  id : t'.id = t.id
  parentId : t'.parentId = t.parentId
  exitStatus : t'.exitStatus = t.exitStatus
  aspace : t'.aspace = t.aspace
  zombie : t'.state = .zombie ↔ t.state = .zombie

lemma Kin.akin (h : Kin t t') : Akin t t' :=
  ⟨h.id, h.parentId, h.exitStatus, h.aspace, h.zombie_iff⟩

lemma Tells.akin (h : Tells l i t) (hk : Akin t t') : Tells l i t' where
  id := hk.id.trans h.id
  registered := hk.parentId ▸ h.registered
  exited hz := by
    rw [hk.exitStatus]
    exact h.exited (hk.zombie.mp hz)
  alive hz := h.alive fun hz' => hz (hk.zombie.mpr hz')
  kept := h.kept
  tree has := h.tree (hk.aspace ▸ has)

lemma hasExited_concat (h : HasExited l i) (x : Life) : HasExited (l ++ [x]) i := by
  obtain ⟨status, frame, h⟩ := h
  exact ⟨status, frame, List.mem_append_left _ h⟩

lemma Freed.concat (h : Freed l i) (x : Life) : Freed (l ++ [x]) i := by
  obtain ⟨hexit, y, hy, hf⟩ := h
  exact ⟨hasExited_concat hexit x, y, List.mem_append_left _ hy, hf⟩

/-- Whether a task has exited does not depend on the others. -/
lemma hasExited_of_concat (h : HasExited (l ++ [x]) i) (hx : ¬x.Of i) : HasExited l i := by
  obtain ⟨status, frame, h⟩ := h
  rcases List.mem_append.mp h with h | h
  · exact ⟨status, frame, h⟩
  · rw [List.mem_singleton] at h
    exact absurd (h ▸ rfl) hx

/-- An entry about somebody else. -/
lemma Tells.concat (h : Tells l i t) (hx : ¬x.Of i) : Tells (l ++ [x]) i t where
  id := h.id
  registered := List.mem_append_left _ h.registered
  exited hz := by
    obtain ⟨status, frame, hm, hs⟩ := h.exited hz
    exact ⟨status, frame, List.mem_append_left _ hm, hs⟩
  alive hz he := h.alive hz (hasExited_of_concat he hx)
  kept y hy hf := by
    rcases List.mem_append.mp hy with hy | hy
    · exact h.kept y hy hf
    · rw [List.mem_singleton.mp hy] at hf
      exact hx hf.of
  tree has o ho := by
    rcases List.mem_append.mp ho with ho | ho
    · exact h.tree has o ho
    · rw [List.mem_singleton] at ho
      exact hx (ho ▸ rfl)

/-! ### The table -/

/-- The history tells the table. -/
structure Ledger (k : Kernel) : Prop where
  tells : ∀ i t, k.task i = some t → Tells k.lives i t
  gone : ∀ i, i < k.tasks.length → k.task i = none → Freed k.lives i
  fresh : ∀ x ∈ k.lives, ∀ i, x.Of i → i < k.tasks.length
  parents : ∀ i p, .registered i (some p) ∈ k.lives → p < k.tasks.length
  lawful : Each (fun pre x => FreedOnce pre x ∧ Delivered pre x) k.lives

lemma Ledger.congr (h : Ledger k) (hlives : k'.lives = k.lives)
    (hlen : k'.tasks.length = k.tasks.length)
    (htasks : ∀ i, Option.Rel Akin (k.task i) (k'.task i)) : Ledger k' := by
  refine ⟨fun i t' ht' => ?_, fun i hi hn => ?_, ?_, ?_, hlives ▸ h.lawful⟩
  · have hi := htasks i
    rw [ht'] at hi
    generalize ho : k.task i = o at hi
    cases hi with
    | some hk => exact hlives ▸ (h.tells i _ ho).akin hk
  · have hi' := htasks i
    rw [hn] at hi'
    generalize ho : k.task i = o at hi'
    cases hi' with
    | none => exact hlives ▸ h.gone i (hlen ▸ hi) ho
  · rw [hlives, hlen]
    exact h.fresh
  · rw [hlives, hlen]
    exact h.parents

lemma rel_akin_refl (o : Option Task) : Option.Rel Akin o o := by
  cases o with
  | none => exact .none
  | some t => exact .some (Kin.refl t).akin

lemma Ledger.mild (h : Ledger k) (hk : Mild k k') : Ledger k' := by
  refine h.congr hk.lives hk.length fun i => ?_
  have hi := hk.tasks i
  generalize k.task i = o, k'.task i = o' at hi
  cases hi with
  | none => exact .none
  | some hkin => exact .some hkin.akin

lemma Ledger.modifyTask (h : Ledger k) {f : Task → Task}
    (hf : ∀ t, k.task i = some t → Akin t (f t)) :
    Ledger (k.modifyTask i f) := by
  refine h.congr rfl (List.length_modify ..) fun j => ?_
  rw [task_modifyTask]
  split_ifs with hj
  · subst hj
    cases ht : k.task j with
    | none => exact .none
    | some t => exact .some (hf t ht)
  · exact rel_akin_refl _

/-- A new entry about one task, whose slot changes with it. -/
lemma Ledger.record (h : Ledger k) (hcur : i < k.tasks.length)
    (hlives : k'.lives = k.lives ++ [x]) (hlen : k'.tasks.length = k.tasks.length)
    (hx : ∀ j, x.Of j → j = i) (hreg : ∀ p, x ≠ .registered i p)
    (hothers : ∀ j, j ≠ i → k'.task j = k.task j)
    (htells : ∀ t', k'.task i = some t' → Tells k'.lives i t')
    (hgone : k'.task i = none → Freed k'.lives i)
    (hlaw : FreedOnce k.lives x ∧ Delivered k.lives x) : Ledger k' := by
  refine ⟨fun j t' ht' => ?_, fun j hj hn => ?_, fun y hy j hyj => ?_, fun j p hp => ?_, ?_⟩
  · rcases eq_or_ne j i with rfl | hj
    · exact htells t' ht'
    · rw [hlives]
      exact (h.tells j t' (hothers j hj ▸ ht')).concat fun hxj => hj (hx j hxj)
  · rcases eq_or_ne j i with rfl | hji
    · exact hgone hn
    · rw [hlives]
      exact (h.gone j (hlen ▸ hj) (hothers j hji ▸ hn)).concat x
  · rw [hlen]
    rcases List.mem_append.mp (hlives ▸ hy) with hy | hy
    · exact h.fresh y hy j hyj
    · rw [List.mem_singleton.mp hy] at hyj
      rw [hx j hyj]
      exact hcur
  · rw [hlen]
    rcases List.mem_append.mp (hlives ▸ hp) with hp | hp
    · exact h.parents j p hp
    · rw [List.mem_singleton] at hp
      have hj := hx j (hp ▸ rfl)
      exact absurd (hj ▸ hp.symm) (hreg _)
  · rw [hlives]
    exact each_concat.mpr ⟨h.lawful, hlaw⟩

/-- The address space of a zombie is destroyed. -/
lemma Ledger.strip (h : Ledger k) (ht : k.task i = some t) (hz : t.state = .zombie)
    (has : t.aspace = true) (hload : k.loaded ≠ i) :
    Ledger ((k.modifyTask i destroyAspace).live (.destroyed i k.loaded)) := by
  have htell := h.tells i t ht
  obtain ⟨status, frame, hexit, hstatus⟩ := htell.exited hz
  have htask : ((k.modifyTask i destroyAspace).live (.destroyed i k.loaded)).task i =
      some (destroyAspace t) := (task_modifyTask_self (k := k)).trans (congrArg _ ht)
  refine h.record (lt_length_of_task ht) rfl (List.length_modify ..) (fun j hj => hj.symm)
    (fun p hp => by cases hp) (fun j hj => task_modifyTask_of_ne (k := k) hj) (fun t' ht' => ?_)
    (fun hn => ?_) ⟨⟨⟨status, frame, hexit⟩, htell.tree has, hload⟩, trivial⟩
  · obtain rfl := Option.some.inj (htask.symm.trans ht')
    refine ⟨htell.id, List.mem_append_left _ htell.registered,
      fun _ => ⟨status, frame, List.mem_append_left _ hexit, hstatus⟩, fun hne => absurd hz hne,
      fun y hy => ?_, fun has' => by cases has'⟩
    rcases List.mem_append.mp hy with hy | hy
    · exact htell.kept y hy
    · rw [List.mem_singleton.mp hy]
      exact id
  · rw [htask] at hn
    cases hn

/-- The record of a zombie is freed. -/
lemma Ledger.drop (h : Ledger k) (ht : k.task i = some t) (hz : t.state = .zombie)
    (hx : x.Frees i) (hlaw : FreedOnce k.lives x ∧ Delivered k.lives x) :
    Ledger ((k.dropTask i).live x) := by
  obtain ⟨status, frame, hexit, -⟩ := (h.tells i t ht).exited hz
  have htask : ((k.dropTask i).live x).task i = none :=
    (task_dropTask (k := k)).trans (if_pos rfl)
  refine h.record (lt_length_of_task ht) rfl (List.length_set ..) (fun j hj => ?_) (fun p hp => ?_)
    (fun j hj => (task_dropTask (k := k)).trans (if_neg hj)) (fun t' ht' => ?_)
    (fun _ => ⟨⟨status, frame, List.mem_append_left _ hexit⟩, x, ?_, hx⟩) hlaw
  · cases x with
    | swept j' => exact hj.symm.trans hx
    | collected w j' v => exact hj.symm.trans hx
    | registered | condemned | exited | destroyed => cases hx
  · rw [hp] at hx
    cases hx
  · rw [htask] at ht'
    cases ht'
  · exact List.mem_append_right _ (List.mem_singleton_self x)

lemma dropTask_modifyTask {f : Task → Task} : (k.modifyTask i f).dropTask i = k.dropTask i := by
  rw [dropTask, modifyTask, dropTask]
  congr 1
  refine List.ext_getElem? fun j => ?_
  rw [List.getElem?_set, List.getElem?_set, List.length_modify, List.getElem?_modify]
  split_ifs <;> simp_all

/-- `task_wait` takes a child apart as the sweep would, with an entry of its own. -/
lemma collect_eq : collect k i t =
    ((if t.aspace then (k.modifyTask i destroyAspace).live (.destroyed i k.loaded) else k).dropTask
      i).live (.collected k.current i (BitVec.ofNat 64 t.exitStatus)) := by
  rw [collect]
  split_ifs
  · rw [← dropTask_modifyTask (f := destroyAspace)]
    rfl
  · rfl

lemma Ledger.collect (h : Ledger k) (ht : k.task i = some t) (hz : t.state = .zombie)
    (hp : t.parentId = some k.current) (hload : k.loaded ≠ i) : Ledger (collect k i t) := by
  rw [collect_eq]
  obtain ⟨k₁, hk₁⟩ : ∃ k₁, k₁ = if t.aspace then
    (k.modifyTask i destroyAspace).live (.destroyed i k.loaded) else k := ⟨_, rfl⟩
  have h₁ : Ledger k₁ ∧ ∃ t₁, k₁.task i = some t₁ ∧ t₁.state = .zombie ∧
      t₁.parentId = some k.current ∧ t₁.exitStatus = t.exitStatus := by
    rw [hk₁]
    split_ifs with has
    · refine ⟨h.strip ht hz has hload, destroyAspace t, ?_, hz, hp, rfl⟩
      exact (task_modifyTask_self (k := k)).trans (congrArg _ ht)
    · exact ⟨h, t, ht, hz, hp, rfl⟩
  obtain ⟨h₁, t₁, ht₁, hz₁, hp₁, hs₁⟩ := h₁
  rw [← hk₁]
  have htell := h₁.tells i t₁ ht₁
  obtain ⟨status, frame, hexit, hstatus⟩ := htell.exited hz₁
  have hvalue : BitVec.ofNat 64 t.exitStatus = waitValue status := by rw [waitValue, ← hstatus, hs₁]
  refine h₁.drop ht₁ hz₁ rfl ⟨⟨⟨status, frame, hexit⟩, htell.kept⟩, ?_, htell.kept, ?_,
    status, frame, hexit, hvalue⟩
  · exact hp₁ ▸ htell.registered
  · rw [hvalue]
    exact waitValue_ne_syscallError status

/-- A parent that is not alive has exited. -/
lemma Ledger.exited_of_parentAlive (h : Ledger k) {p : ℕ} (hlt : p < k.tasks.length)
    (hp : parentAlive k (some p) = false) : HasExited k.lives p := by
  rw [parentAlive] at hp
  cases htask : k.task p with
  | none => exact (h.gone p hlt htask).1
  | some t =>
    rw [htask] at hp
    obtain ⟨status, frame, hexit, -⟩ := (h.tells p t htask).exited (by simpa using hp)
    exact ⟨status, frame, hexit⟩

lemma Ledger.sweep (h : Ledger k) (hload : k.loaded = k.current) (hs : Sweep k k') : Ledger k' := by
  cases hs with
  | strip i ht hz hi has => exact h.strip ht hz has (hload ▸ hi.symm)
  | @drop i t ht hz hi has hp =>
    have htell := h.tells i t ht
    obtain ⟨status, frame, hexit, -⟩ := htell.exited hz
    refine h.drop ht hz rfl ⟨⟨⟨status, frame, hexit⟩, htell.kept⟩, ?_⟩
    have hreg := htell.registered
    cases hpar : t.parentId with
    | none => exact .inl (hpar ▸ hreg)
    | some p =>
      rw [hpar] at hp hreg
      exact .inr ⟨p, hreg, h.exited_of_parentAlive (h.parents i p hreg) hp⟩

lemma Ledger.spawn (h : Ledger k) (hcur : k.current < k.tasks.length) (hready : t.state = .ready)
    (hid : t.id = k.tasks.length) (hp : t.parentId = some k.current) :
    Ledger ((k.addTask t).live (.registered k.tasks.length (some k.current))) := by
  have hnew : ∀ x ∈ k.lives, ¬x.Of k.tasks.length := fun x hx ho => (h.fresh x hx _ ho).ne rfl
  have hlen : ((k.addTask t).live (.registered k.tasks.length (some k.current))).tasks.length =
      k.tasks.length + 1 := List.length_append ..
  refine ⟨fun i t' ht' => ?_, fun i hi hn => ?_, fun x hx i hxi => ?_, fun i p hip => ?_, ?_⟩
  · rw [task_live, task_addTask] at ht'
    split_ifs at ht' with hi
    · obtain rfl := Option.some.inj ht'
      subst hi
      refine ⟨hid, hp ▸ List.mem_append_right _ (List.mem_singleton_self _),
        fun hz => by simp [hready] at hz, fun _ he => ?_, fun x hx hf => ?_, fun _ o ho => ?_⟩
      · obtain ⟨status, frame, he⟩ := he
        rcases List.mem_append.mp he with he | he
        · exact hnew _ he rfl
        · simp at he
      · rcases List.mem_append.mp hx with hx | hx
        · exact hnew x hx hf.of
        · rw [List.mem_singleton.mp hx] at hf
          cases hf
      · rcases List.mem_append.mp ho with ho | ho
        · exact hnew _ ho rfl
        · simp at ho
    · exact (h.tells i t' ht').concat fun ho => hi ho.symm
  · rw [task_live, task_addTask] at hn
    split_ifs at hn with hne
    exact (h.gone i (by omega) hn).concat _
  · rw [hlen]
    rcases List.mem_append.mp hx with hx | hx
    · exact (h.fresh x hx i hxi).trans (Nat.lt_succ_self _)
    · rw [List.mem_singleton.mp hx] at hxi
      exact (show k.tasks.length = i from hxi) ▸ Nat.lt_succ_self _
  · rw [hlen]
    rcases List.mem_append.mp hip with hip | hip
    · exact (h.parents i p hip).trans (Nat.lt_succ_self _)
    · rw [List.mem_singleton, Life.registered.injEq] at hip
      rw [Option.some.inj hip.2]
      exact hcur.trans (Nat.lt_succ_self _)
  · exact each_concat.mpr ⟨h.lawful, trivial, fun p hmem => hnew _ hmem rfl⟩

lemma Ledger.bury (h : Ledger k) (ht : k.currentTask = some t) (hrun : t.state = .running)
    {status : ℕ} (hcause : Cause k.lives k.current k.pile status) : Ledger (bury k status) := by
  have ht : k.task k.current = some t := ht
  have htell := h.tells _ t ht
  have halive := htell.alive (by simp [hrun])
  have htask : (Kernel.bury k status).task k.current =
      some { t with exitStatus := status % 256, state := .zombie, waitReason := .none } :=
    (task_modifyTask_self (k := k)).trans (congrArg _ ht)
  have hmem : .exited k.current status k.pile ∈ (Kernel.bury k status).lives :=
    List.mem_append_right _ (List.mem_singleton_self _)
  refine h.record (lt_length_of_task ht) rfl (List.length_modify ..) (fun j hj => hj.symm)
    (fun p hp => by cases hp) (fun j hj => task_modifyTask_of_ne (k := k) hj) (fun t' ht' => ?_)
    (fun hn => ?_) ⟨trivial, halive, hcause⟩
  · obtain rfl := Option.some.inj (htask.symm.trans ht')
    refine ⟨htell.id, List.mem_append_left _ htell.registered,
      fun _ => ⟨status, k.pile, hmem, rfl⟩, fun hne => absurd rfl hne, fun y hy => ?_,
      fun has o ho => ?_⟩
    · rcases List.mem_append.mp hy with hy | hy
      · exact htell.kept y hy
      · rw [List.mem_singleton.mp hy]
        exact id
    · rcases List.mem_append.mp ho with ho | ho
      · exact htell.tree has o ho
      · simp at ho
  · rw [htask] at hn
    cases hn

/-- **The turns keep table and history in agreement.** -/
theorem Ledger.turn {s s' : Mode × Kernel} (ht : Turn s s') (hr : Rotation s.1 s.2)
    (h : Ledger s.2) : Ledger s'.2 := by
  obtain ⟨t, hcur, hstands, -⟩ := hr.current
  cases ht with
  | mild hm hk => exact h.mild hk
  | @own f f' k k' hk =>
    refine h.congr hk.lives hk.length fun i => ?_
    rcases eq_or_ne i k.current with rfl | hi
    · have hself := hk.self
      rw [currentTask, currentTask, hk.current] at hself
      generalize k.task k.current = o, k'.task k.current = o' at hself
      cases hself with
      | none => exact .none
      | some hs =>
        exact .some ⟨hs.id, hs.parentId, hs.exitStatus, hs.aspace, by rw [hs.state]⟩
    · rw [hk.others i hi]
      exact rel_akin_refl _
  | condemn f k sig =>
    refine ⟨fun i t ht => (h.tells i t ht).concat id, fun i hi hn =>
      (h.gone i hi hn).concat _, fun x hx i hxi => ?_, fun i p hp => ?_,
      each_concat.mpr ⟨h.lawful, trivial, trivial⟩⟩
    · rcases List.mem_append.mp hx with hx | hx
      · exact h.fresh x hx i hxi
      · rw [List.mem_singleton.mp hx] at hxi
        cases hxi
    · rcases List.mem_append.mp hp with hp | hp
      · exact h.parents i p hp
      · simp at hp
  | spawn f f' k image pgid fds => exact h.spawn (lt_length_of_task hcur) rfl rfl rfl
  | collect f k ht hz hp =>
    exact h.collect ht hz hp (hr.loaded ▸ (hr.ne_current ht hz).symm)
  | bury k status hcause => exact h.bury hcur hstands hcause
  | park k kb reason =>
    have hmod :
        Ledger (k.modifyCurrent fun t => { t with state := .blocked, waitReason := reason }) := by
      refine h.modifyTask fun t' ht' => ⟨rfl, rfl, rfl, rfl, ?_⟩
      obtain rfl := Option.some.inj (hcur.symm.trans ht')
      simp [show t.state = .running from hstands]
    exact hmod.congr rfl rfl fun _ => rel_akin_refl _
  | sweep hm hs => exact h.sweep hr.loaded hs
  | lost k hn => exact h
  | save hm k =>
    refine h.modifyTask fun t' ht' => ⟨rfl, rfl, rfl, rfl, ?_⟩
    dsimp only
    split_ifs with hrun
    · simp [hrun]
    · rfl
  | @dispatch k next hready =>
    obtain ⟨t₁, ht₁, hs₁⟩ := exists_of_isReady hready
    have hd := dispatch_dispatched ht₁
    refine h.congr hd.lives hd.length fun i => ?_
    rw [hd.task]
    split_ifs with hi
    · rw [hi, ht₁]
      exact .some ⟨rfl, rfl, rfl, rfl, by simp [hs₁]⟩
    · exact rel_akin_refl _

/-! ### Runs -/

lemma ledger_boot (image : Image) (r : Regs) : Ledger (boot image r) := by
  have hlives : (boot image r).lives = [.registered 0 none] := rfl
  refine ⟨fun i t ht => ?_, fun i hi hn => ?_, fun x hx i hxi => ?_, fun i p hp => ?_, ?_⟩
  · obtain rfl : i = 0 := Nat.lt_one_iff.mp (lt_length_of_task ht)
    obtain rfl := Option.some.inj ht
    refine ⟨rfl, by simp [hlives, freshTask], fun hz => (by cases hz),
      fun _ he => by simp [HasExited, hlives] at he, fun x hx => ?_, fun _ o => by simp [hlives]⟩
    rw [hlives, List.mem_singleton] at hx
    subst hx
    exact id
  · obtain rfl : i = 0 := Nat.lt_one_iff.mp hi
    cases hn
  · rw [hlives, List.mem_singleton] at hx
    subst hx
    exact (show 0 = i from hxi) ▸ Nat.one_pos
  · simp [hlives] at hp
  · exact (each_concat (l := [])).mpr ⟨each_nil, trivial, fun p hp => by cases hp⟩

/-- What holds of a run from boot on, in every mode. -/
lemma moves_sound {s : Mode × Kernel} {image : Image} {r : Regs}
    (hm : Moves (modeOf (boot image r), boot image r) s) : Rotation s.1 s.2 ∧ Ledger s.2 :=
  Moves.invariant (I := fun s => Rotation s.1 s.2 ∧ Ledger s.2) hm
    (fun _ _ hm h => ⟨h.1.turn hm.turn, h.2.turn hm.turn h.1⟩) ⟨.boot image r, ledger_boot image r⟩

/-- There is exactly one running task, it is the current one, and CR3 holds its address space,
which has not been destroyed. -/
structure RunsCurrent (k : Kernel) : Prop where
  running : ∃ t, k.currentTask = some t ∧ t.state = .running ∧ k.cr3 = t.cr3 ∧ t.aspace = true
  only : ∀ i t, k.task i = some t → t.state = .running → i = k.current
  loaded : k.loaded = k.current
  undestroyed : ∀ o, .destroyed k.current o ∉ k.lives

/-- **The scheduler.** From boot on, for every interleaving: in ring 3 there is exactly one
running task, the current one, with its address space in CR3; a zombie stays one until it
is freed; only those who sleep wait for something; and address spaces and records are
freed once, after the exit of their task, and no address space while it is in CR3. -/
theorem scheduler_sound {image : Image} {r : Regs} {es : List Event} {k : Kernel}
    (hrun : Runs.exec step (boot image r) es = some k) :
    (k.idling = false → RunsCurrent k) ∧
      (∀ es' k' i t t', Runs.exec step k es' = some k' → k.task i = some t → t.state = .zombie →
        k'.task i = some t' → t'.state = .zombie) ∧
      (∀ i t, k.task i = some t → t.waitReason ≠ .none → t.state = .blocked) ∧
      Each FreedOnce k.lives := by
  obtain ⟨hrot, hledger⟩ := moves_sound (run_moves hrun)
  refine ⟨fun hi => ?_, fun es' k' i t t' hrun' ht hz ht' => ?_, hrot.waits,
    hledger.lawful.mono fun _ _ h => h.1⟩
  · rw [show modeOf k = .busy 0 from if_neg (by simp [hi])] at hrot
    obtain ⟨t, ht, hs, has, hcr3⟩ := hrot.current
    exact ⟨⟨t, ht, hs, hcr3, has⟩, hrot.running, hrot.loaded, (hledger.tells _ t ht).tree has⟩
  · have hburied : Buried i k := by
      refine ⟨lt_length_of_task ht, fun t₁ ht₁ => ?_⟩
      obtain rfl := Option.some.inj (ht.symm.trans ht₁)
      exact hz
    have hend := Moves.invariant (I := fun s => Rotation s.1 s.2 ∧ Buried i s.2) (run_moves hrun')
      (fun _ _ hm h => ⟨h.1.turn hm.turn, h.2.turn hm.turn h.1⟩) ⟨hrot, hburied⟩
    exact hend.2.2 t' ht'

end Kernel

/-- A program starts a child and waits for it; the child exits with status 7. -/
def childRun : List Event :=
  [loadCall 4 0x400000 (-1) (-1) 0x800000 intMem,
    .syscall { noAnswers with image := some intImage },
    loadCall 6 0x500000 0 0 0x800000 intMem, .syscall noAnswers,
    loadCall 0 7 0 0 0x800000 intMem, .syscall noAnswers, .syscall noAnswers]

/-- The address space of the child is destroyed while that of the parent is loaded. -/
theorem scheduler_sound_childRun :
    ∃ k, Runs.exec Kernel.step (boot intImage {}) childRun = some k ∧
      .destroyed 1 0 ∈ k.lives ∧ k.RunsCurrent ∧ Runs.Each Kernel.FreedOnce k.lives := by
  have hrun : (Runs.exec Kernel.step (boot intImage {}) childRun).any (fun k =>
      .destroyed 1 0 ∈ k.lives ∧ k.idling = false) = true := by
    decide +kernel
  obtain ⟨k, hk, h⟩ := Option.any_eq_true _ _ |>.mp hrun
  obtain ⟨hlives, hidle⟩ := of_decide_eq_true h
  obtain ⟨hcur, -, -, hfreed⟩ := Kernel.scheduler_sound hk
  exact ⟨k, hk, hlives, hcur hidle, hfreed⟩

namespace Kernel

open Relation Runs

variable {k k' : Kernel} {x : Life} {i : ℕ} {t : Task}

/-! ### Only `SYS_WAIT` returns a child -/

/-- No child is returned to its parent. -/
def NoneReturned (k k' : Kernel) : Prop :=
  ∀ caller i v, .collected caller i v ∈ k'.lives → .collected caller i v ∈ k.lives

lemma NoneReturned.of_lives (h : k'.lives = k.lives) : NoneReturned k k' := by
  rw [NoneReturned, h]
  exact fun _ _ _ => id

lemma NoneReturned.trans {k₁ : Kernel} (h : NoneReturned k k₁) (h' : NoneReturned k₁ k') :
    NoneReturned k k' :=
  fun c i v hm => h c i v (h' c i v hm)

lemma NoneReturned.of_entry (h : k'.lives = k.lives ++ [x]) (hx : ∀ c i v, x ≠ .collected c i v) :
    NoneReturned k k' := by
  intro c i v hm
  rw [h] at hm
  rcases List.mem_append.mp hm with hm | hm
  · exact hm
  · exact absurd (List.mem_singleton.mp hm).symm (hx c i v)

lemma switches_noneReturned : Switches NoneReturned NoneReturned where
  refl _ := .of_lives rfl
  trans := .trans
  last := .trans
  weaken h := h
  sweep hs := by
    cases hs with
    | strip | drop => exact .of_entry rfl (by simp)
  save _ := .of_lives rfl
  dispatch hr := by
    obtain ⟨t, ht, -⟩ := exists_of_isReady hr
    exact .of_lives (dispatch_dispatched ht).lives
  idle _ _ := .of_lives rfl
  close k fd := .of_lives (lives_closeFd k fd)
  bury _ _ := .of_entry rfl (by simp)
  rouse k p := .of_lives (mild_wakeParent k p).lives
  condemn _ _ := .of_entry rfl (by simp)
  clear _ _ := .of_lives rfl
  checked _ := .of_lives rfl
  handler k t sig := .of_lives (aimed_enterHandler k t sig).lives
  reply _ _ := .of_lives rfl
  cut _ := .of_lives rfl

/-- A deed of another call than `SYS_WAIT`. -/
lemma Deed.noneReturned {s s' : Multiset File × Kernel} (hd : Deed s s')
    (hcall : SysCall.ofWord s.2.pile.rax ≠ some .wait) : NoneReturned s.2 s'.2 := by
  cases hd with
  | raise h k id sig => exact .of_lives (Press.raise k id sig).mild.lives
  | collect h k i hwait ht hz hp => exact absurd hwait hcall
  | dup h k fd f hf => exact .of_lives (mild_countEnd k f).lives
  | openEnd h k p writable hp => exact .of_lives (mild_countEnd k _).lives
  | close h k f => exact .of_lives (mild_fileClose k f).lives
  | spawn h k image pgid inSrc outSrc hcall => exact .of_entry rfl (by simp)
  | getKey | eofTaken | took | gave | newPipe | dropPipe | foreground | read | store | install | map
  | unmap | put | take => exact .of_lives rfl

/-- Only a `SYS_WAIT` returns a child. -/
lemma noneReturned_handled {e : Event} (hk : k.handled e = some k')
    (hcall : ∀ a, e = .syscall a → SysCall.ofWord k.pile.rax ≠ some .wait) : NoneReturned k k' :=
  switches_noneReturned.handled hk (fun _ _ => .of_lives rfl) (fun _ _ => .of_lives rfl)
    (fun hp => .of_lives hp.mild.lives) fun he hends =>
      switches_noneReturned.calls (· ≠ some .wait) hends (hcall _ he) Deed.noneReturned
        (fun _ _ => .of_lives rfl) fun _ _ _ _ => .of_lives (aimed_goBack _ _).lives

/-! ### `SYS_WAIT` -/

/-- A `SYS_WAIT` of the running task returns a child that has exited: the status is in RAX, and
the number of the child is where RDI points, if that is not `NULL`. Its record, and no other, is
freed. -/
structure Returns (k k' : Kernel) (i status : ℕ) : Prop where
  call : SysCall.ofWord k.pile.rax = some .wait
  child : ∃ t, k.task i = some t ∧ t.parentId = some k.current ∧ t.state = .zombie
  freed : k'.task i = none
  others : ∀ j, k'.task j = none → j = i ∨ k.task j = none
  answer : answer k k' = some (waitValue status)
  number : k.pile.rdi ≠ 0 → k'.userBytes k.pile.rdi.toNat 8 = wordBytes (BitVec.ofNat 64 i)

/-- How a `SYS_WAIT` ends. -/
inductive WaitEnds (k k' : Kernel) : Prop
  /-- It returns a child that the caller has created, with the status the child exited with. -/
  | returned (i status : ℕ) (frame : Regs) (h : Returns k k' i status)
      (hcreated : .registered i (some k.current) ∈ k.lives)
      (hexited : .exited i status frame ∈ k.lives) (hno : waitValue status ≠ syscallError)
  /-- It fails. -/
  | failed (h : answer k k' = some syscallError) (hnone : NoneReturned k k')
  /-- The caller falls asleep. -/
  | asleep (h : answer k k' = none) (hnone : NoneReturned k k')

lemma WaitEnds.error (hi : k.idling = false) : WaitEnds k (k.reply syscallError) :=
  .failed (answer_reply rfl hi _) (.of_lives rfl)

/-- `task_wait` finds a child that has exited. -/
lemma Ledger.returns (h : Ledger k) (hr : Rotation (.busy 0) k) (hi : k.idling = false)
    (hcall : SysCall.ofWord k.pile.rax = some .wait) (ht : k.task i = some t)
    (hp : t.parentId = some k.current) (hz : t.state = .zombie) {k₁ : Kernel}
    (hk₁ : k₁ = if (Kernel.collect k i t).pile.rdi ≠ 0 then
      (Kernel.collect k i t).store (Kernel.collect k i t).pile.rdi.toNat
        (wordBytes (BitVec.ofNat 64 t.id))
      else Kernel.collect k i t) : WaitEnds k (k₁.reply (BitVec.ofNat 64 t.exitStatus)) := by
  have htell := h.tells i t ht
  obtain ⟨status, frame, hexit, hstatus⟩ := htell.exited hz
  have hne : i ≠ k.current := hr.ne_current ht hz
  have hcalm := calm_collect ht hz
  obtain ⟨t₀, ht₀, -⟩ := hr.current
  have hcur : (Kernel.collect k i t).currentTask = some t₀ := by
    rw [currentTask, hcalm.current, task_collect, if_neg hne.symm]
    exact ht₀
  have hstored : ∀ j, k₁.task j = none ↔ (Kernel.collect k i t).task j = none := by
    intro j
    rw [hk₁]
    split_ifs
    · rw [store, modifyCurrent, task_modifyTask]
      split_ifs
      · exact Option.map_eq_none_iff
      · rfl
    · rfl
  have hfreed : ∀ j, k₁.task j = none ↔ j = i ∨ k.task j = none := by
    intro j
    rw [hstored, task_collect]
    split_ifs with hj <;> simp [hj]
  rw [hcalm.pile, htell.id] at hk₁
  refine .returned i status frame ⟨hcall, ⟨t, ht, hp, hz⟩, (hfreed i).mpr (.inl rfl),
    fun j => (hfreed j).mp, ?_, fun hrdi => ?_⟩ (hp ▸ htell.registered) hexit
    (waitValue_ne_syscallError status)
  · rw [waitValue, ← hstatus]
    refine answer_reply ?_ ?_ _
    · rw [hk₁]
      split_ifs <;> exact hcalm.current
    · rw [hk₁]
      split_ifs <;> exact hcalm.idling.trans hi
  · rw [if_pos hrdi] at hk₁
    rw [← length_wordBytes (BitVec.ofNat 64 i)]
    subst hk₁
    exact userBytes_store hcur _ _

lemma Ledger.sysWait (h : Ledger k) (hr : Rotation (.busy 0) k) (hi : k.idling = false)
    (hcall : SysCall.ofWord k.pile.rax = some .wait) : WaitEnds k (sysWait k) := by
  obtain ⟨t₀, ht₀, -⟩ := hr.current
  rw [Kernel.sysWait]
  refine iteInduction (fun _ => .error hi) fun _ => ?_
  rw [taskWait]
  cases hfind : (List.range k.tasks.length).find? k.isDeadChild with
  | some i =>
    have hdead : k.isDeadChild i = true := List.find?_some hfind
    obtain ⟨t, ht, hz⟩ := Option.any_eq_true _ _ |>.mp hdead
    obtain ⟨hp, hz⟩ := of_decide_eq_true hz
    dsimp only
    rw [ht]
    exact h.returns hr hi hcall ht hp hz rfl
  | none =>
    refine iteInduction (fun _ => ?_) fun _ => .error hi
    rw [taskBlock]
    by_cases hcut : k.cutShort = true
    · rw [if_pos hcut]
      exact .failed (answer_reply rfl hi _) (.of_lives rfl)
    · rw [if_neg hcut]
      have hpark : NoneReturned k (park k .child) := .of_lives rfl
      exact .asleep (answer_park hi ht₀ .child) (hpark.trans (switches_noneReturned.schedule _))

/-- The history only grows. -/
lemma Turn.lives_subset {s s' : Mode × Kernel} (ht : Turn s s') : s.2.lives ⊆ s'.2.lives := by
  cases ht with
  | mild hm hk => exact hk.lives ▸ List.Subset.refl _
  | own hk => exact hk.lives ▸ List.Subset.refl _
  | condemn | spawn | bury => exact List.subset_append_left ..
  | collect f k ht hz hp =>
    rw [collect_eq]
    refine List.Subset.trans ?_ (List.subset_append_left ..)
    split_ifs
    · exact List.subset_append_left ..
    · exact List.Subset.refl _
  | sweep hm hs => cases hs <;> exact List.subset_append_left ..
  | park | lost | save => exact List.Subset.refl _
  | @dispatch k next hready =>
    obtain ⟨t, ht, -⟩ := exists_of_isReady hready
    exact (dispatch_dispatched ht).lives ▸ List.Subset.refl _

lemma moves_handled {e : Event} (hk : k.handled e = some k') :
    Moves (modeOf k, k) (modeOf k', k') := by
  rw [← mode_stageOf, ← mode_stageOf]
  exact Actions.moves (handled_leads (C := fun _ => True) hk)

lemma moves_leave (k : Kernel) : Moves (modeOf k, k) (modeOf (leave k), leave k) := by
  rw [← mode_stageOf, ← mode_stageOf]
  exact Actions.moves (leave_leads (C := fun _ => True) .refl trivial)

lemma Moves.lives_subset {s s' : Mode × Kernel} (hm : Moves s s') : s.2.lives ⊆ s'.2.lives :=
  hm.invariant (I := fun x => s.2.lives ⊆ x.2.lives)
    (fun _ _ hm h => List.Subset.trans h hm.turn.lives_subset) (List.Subset.refl _)

/-- A task has one creator. -/
lemma Ledger.parent_eq (h : Ledger k) {p q : Option ℕ} (hp : .registered i p ∈ k.lives)
    (hq : .registered i q ∈ k.lives) : p = q := by
  by_contra hne
  obtain ⟨a, b, hab⟩ := List.append_of_mem hp
  rcases List.mem_append.mp (hab ▸ hq) with hmem | hmem
  · exact (h.lawful a _ b hab).2 q hmem
  · rcases List.mem_cons.mp hmem with heq | hmem
    · exact hne (Life.registered.inj heq).2.symm
    · obtain ⟨c, d, rfl⟩ := List.append_of_mem hmem
      have hsplit : k.lives = (a ++ .registered i p :: c) ++ .registered i q :: d := by
        rw [hab, List.append_assoc, List.cons_append]
      exact (h.lawful _ _ _ hsplit).2 p (by simp)

/-- A record is freed by the `SYS_WAIT` that returns the task to its creator, or its creator is
not there to wait. -/
lemma Ledger.freed (h : Ledger k) (h' : Ledger k') (hsub : k.lives ⊆ k'.lives)
    (ht : k.task i = some t) (hlt : i < k'.tasks.length) (hn : k'.task i = none) :
    (∃ caller v, .collected caller i v ∈ k'.lives ∧ .collected caller i v ∉ k.lives) ∨
      parentAlive k' t.parentId = false := by
  have htell := h.tells i t ht
  obtain ⟨-, x, hx, hf⟩ := h'.gone i hlt hn
  cases x with
  | collected c j v =>
    obtain rfl : j = i := hf
    exact .inl ⟨c, v, hx, fun hmem => htell.kept _ hmem rfl⟩
  | swept j =>
    obtain rfl : j = i := hf
    obtain ⟨a, b, hab⟩ := List.append_of_mem hx
    have hpre : a ⊆ k'.lives := hab ▸ List.subset_append_left ..
    rcases (h'.lawful a _ b hab).2 with hnone | ⟨p, hreg, hexit⟩
    · rw [h'.parent_eq (hsub htell.registered) (hpre hnone)]
      exact .inr rfl
    · rw [h'.parent_eq (hsub htell.registered) (hpre hreg), parentAlive]
      obtain ⟨status, frame, hexit⟩ := hexit
      cases hp : k'.task p with
      | none => exact .inr rfl
      | some t' =>
        have hz : t'.state = .zombie := by
          by_contra hz
          exact (h'.tells p t' hp).alive hz ⟨status, frame, hpre hexit⟩
        exact .inr (by simp [hz])
  | registered | condemned | exited | destroyed => cases hf

/-- The `SYS_WAIT` of a running task. -/
lemma Ledger.waitEnds (h : Ledger k) (hr : Rotation (modeOf k) k) {a : Answers}
    (hk : k.handled (.syscall a) = some k') (hcall : SysCall.ofWord k.pile.rax = some .wait) :
    WaitEnds k k' := by
  obtain ⟨⟨hi, -⟩, rfl⟩ := guarded hk
  have hi : k.idling = false := by simpa using hi
  rw [modeOf, if_neg (by simp [hi])] at hr
  have hbody : syscallBody (k.enter 0x50 (k.pile.rip + intInstrLen)) a =
      Kernel.sysWait (k.enter 0x50 (k.pile.rip + intInstrLen)) := by
    rw [syscallBody, show SysCall.ofWord (k.enter _ _).pile.rax = some .wait from hcall]
  have henter : Mild k (k.enter 0x50 (k.pile.rip + intInstrLen)) :=
    (Mild.refl _).of_tasks rfl rfl rfl rfl rfl
  rw [hbody]
  cases (h.mild henter).sysWait (hr.mild (.busy 0 0) henter) hi hcall with
  | returned i status frame hret hcreated hexited hno =>
    exact .returned i status frame ⟨hret.call, hret.child, hret.freed, hret.others, hret.answer,
      hret.number⟩ hcreated hexited hno
  | failed hans hnone => exact .failed hans hnone
  | asleep hans hnone => exact .asleep hans hnone

/-- A child is returned once: its record is gone for good. -/
lemma Ledger.gone_of_moves (h : Ledger k) (h' : Ledger k') (hm : k.lives ⊆ k'.lives)
    (hlt : i < k.tasks.length) (hn : k.task i = none) : k'.task i = none := by
  obtain ⟨-, x, hx, hf⟩ := h.gone i hlt hn
  by_contra hsome
  obtain ⟨t', ht'⟩ := Option.ne_none_iff_exists'.mp hsome
  exact (h'.tells i t' ht').kept x (hm hx) hf

/-- The record of a task is freed in a step: a `SYS_WAIT` has returned it to its creator, or the
creator is gone. -/
lemma Ledger.freed_by (h : Ledger k) (hr : Rotation (modeOf k) k) (h' : Ledger k')
    (hleft : Ledger (leave k')) {e : Event} (hk : k.handled e = some k') (ht : k.task i = some t)
    (hn : (leave k').task i = none) :
    (∃ a status, e = .syscall a ∧ Returns k k' i status) ∨
      parentAlive (leave k') t.parentId = false := by
  have hsub : k.lives ⊆ (leave k').lives :=
    List.Subset.trans (moves_handled hk).lives_subset (moves_leave k').lives_subset
  have hlt := hleft.fresh _ (hsub (h.tells i t ht).registered) i rfl
  obtain ⟨caller, v, hmem, hnew⟩ | horphan := h.freed hleft hsub ht hlt hn
  · have hmem := switches_noneReturned.leave k' caller i v hmem
    by_cases hcall : ∃ a, e = .syscall a ∧ SysCall.ofWord k.pile.rax = some .wait
    · obtain ⟨a, rfl, hcall⟩ := hcall
      cases h.waitEnds hr hk hcall with
      | returned j status frame hret =>
        have hgone : k'.task i = none := by
          by_contra hsome
          obtain ⟨t', ht'⟩ := Option.ne_none_iff_exists'.mp hsome
          exact (h'.tells i t' ht').kept _ hmem rfl
        rcases hret.others i hgone with rfl | hnone
        · exact .inl ⟨a, status, rfl, hret⟩
        · rw [ht] at hnone
          cases hnone
      | failed hans hnone | asleep hans hnone => exact absurd (hnone _ _ _ hmem) hnew
    · have hnone := noneReturned_handled hk fun a he hw => hcall ⟨a, he, hw⟩
      exact absurd (hnone _ _ _ hmem) hnew
  · exact .inr horphan

end Kernel

end TownOS
