import Mathlib

/-!
Machines that answer one input after another, and the two rules for their runs.

* `run_invariant`: what every step preserves, a run preserves;
* `run_simulation`: a machine whose every step is a step of an abstract one, under
  an abstraction function, runs as the abstract one does. The abstract machine may
  be told something about the concrete state with each input (`labelled`);
* `exec`, `exec_invariant`: machines that may refuse an input, with an invariant
  that the steps preserve only under a condition, met all along the run (`Along`);
* `outputs`: what the steps of such a machine put out;
* `foldl_reflTransGen`: loops of steps;
* `Each`, `each_concat`: histories in which every entry is allowed by what is before it.
-/

namespace Runs

variable {σ τ ι ο κ : Type*}

/-- The answers to a list of inputs, and the state after them. -/
def run (step : ι → σ → ο × σ) : List ι → σ → List ο × σ
  | [], s => ([], s)
  | i :: is, s =>
    ((step i s).1 :: (run step is (step i s).2).1, (run step is (step i s).2).2)

/-- The inputs, each with what `label` says about the state it meets. -/
def labelled (step : ι → σ → ο × σ) (label : ι → σ → κ) : List ι → σ → List (ι × κ)
  | [], _ => []
  | i :: is, s => (i, label i s) :: labelled step label is (step i s).2

variable {step : ι → σ → ο × σ} {label : ι → σ → κ} {I : σ → Prop} {P : ι → Prop}

/-- The invariant rule. -/
theorem run_invariant (hstep : ∀ i s, P i → I s → I (step i s).2) {is : List ι} {s : σ}
    (his : ∀ i ∈ is, P i) (hs : I s) : I (run step is s).2 := by
  induction is generalizing s with
  | nil => exact hs
  | cons i is ih =>
    exact ih (fun j hj => his j (List.mem_cons_of_mem _ hj)) (hstep i s (his i (by simp)) hs)

/-- The simulation rule. -/
theorem run_simulation {abs : σ → τ} {astep : ι × κ → τ → ο × τ}
    (hstep : ∀ i s, P i → I s → I (step i s).2)
    (hsim : ∀ i s, P i → I s → astep (i, label i s) (abs s) = ((step i s).1, abs (step i s).2))
    {is : List ι} {s : σ} (his : ∀ i ∈ is, P i) (hs : I s) :
    run astep (labelled step label is s) (abs s) =
      ((run step is s).1, abs (run step is s).2) := by
  induction is generalizing s with
  | nil => rfl
  | cons i is ih =>
    have hi := his i (by simp)
    rw [labelled, run, run, hsim i s hi hs,
      ih (fun j hj => his j (List.mem_cons_of_mem _ hj)) (hstep i s hi hs)]

/-- The state after a list of inputs, if the machine takes them all. -/
def exec (step : σ → ι → Option σ) : σ → List ι → Option σ
  | s, [] => some s
  | s, i :: is => (step s i).bind fun s' => exec step s' is

/-- A step with a guard is taken only if the guard holds. -/
lemma guarded {c : Prop} [Decidable c] {s s' : σ} (h : (if c then some s else none) = some s') :
    c ∧ s = s' := by
  obtain ⟨hc, hs⟩ := Option.ite_none_right_eq_some.mp h
  exact ⟨hc, Option.some.inj hs⟩

/-- One more input. -/
lemma exec_concat (step : σ → ι → Option σ) (s : σ) (is : List ι) (i : ι) :
    exec step s (is ++ [i]) = (exec step s is).bind fun s' => step s' i := by
  induction is generalizing s with
  | nil =>
    rw [List.nil_append, exec, exec, Option.bind_some]
    exact Option.bind_fun_some _
  | cons j is ih =>
    rw [List.cons_append, exec, exec, Option.bind_assoc]
    exact congrArg _ (funext ih)

/-- What the steps of a run put out, one after the other. -/
def outputs (step : σ → ι → Option σ) (out : σ → ι → List ο) : σ → List ι → List ο
  | _, [] => []
  | s, i :: is => out s i ++ (step s i).elim [] fun s' => outputs step out s' is

lemma outputs_concat {step : σ → ι → Option σ} (out : σ → ι → List ο) {s s' : σ} {is : List ι}
    (hrun : exec step s is = some s') (i : ι) :
    outputs step out s (is ++ [i]) = outputs step out s is ++ out s' i := by
  induction is generalizing s with
  | nil =>
    obtain rfl := Option.some.inj hrun
    rw [List.nil_append, outputs, outputs, List.nil_append]
    cases step s i <;> exact List.append_nil _
  | cons j is ih =>
    obtain ⟨s₁, h₁, hrun⟩ := Option.bind_eq_some_iff.mp hrun
    rw [List.cons_append, outputs, outputs, h₁, Option.elim_some, Option.elim_some, ih hrun,
      List.append_assoc]

/-- Every step of the run meets a condition. -/
def Along (step : σ → ι → Option σ) (C : σ → ι → Prop) : σ → List ι → Prop
  | _, [] => True
  | s, i :: is => C s i ∧ ∀ s' ∈ step s i, Along step C s' is

instance decidableAlong {step : σ → ι → Option σ} {C : σ → ι → Prop} [∀ s i, Decidable (C s i)] :
    ∀ s is, Decidable (Along step C s is)
  | _, [] => isTrue trivial
  | s, i :: is =>
    letI : DecidablePred fun s' => Along step C s' is := fun s' => decidableAlong s' is
    inferInstanceAs (Decidable (C s i ∧ ∀ s' ∈ step s i, Along step C s' is))

/-- The last step of a run meets the condition, too. -/
lemma Along.last {step : σ → ι → Option σ} {C : σ → ι → Prop} {is : List ι} {i : ι} {s s' : σ}
    (h : Along step C s (is ++ [i])) (hrun : exec step s is = some s') : C s' i := by
  induction is generalizing s with
  | nil =>
    obtain rfl := Option.some.inj hrun
    exact h.1
  | cons j is ih =>
    obtain ⟨s₁, h₁, hrun⟩ := Option.bind_eq_some_iff.mp hrun
    exact ih (h.2 s₁ h₁) hrun

/-- The invariant rule for steps that meet a condition. -/
theorem exec_invariant {step : σ → ι → Option σ} {C : σ → ι → Prop} {I : σ → Prop}
    (hstep : ∀ s i s', I s → C s i → step s i = some s' → I s') {is : List ι} {s s' : σ}
    (hrun : exec step s is = some s') (halong : Along step C s is) (hs : I s) : I s' := by
  induction is generalizing s with
  | nil =>
    obtain rfl := Option.some.inj hrun
    exact hs
  | cons i is ih =>
    obtain ⟨s₁, h₁, hrun⟩ := Option.bind_eq_some_iff.mp hrun
    exact ih hrun (halong.2 s₁ h₁) (hstep s i s₁ hs halong.1 h₁)

/-- A condition that each input meets in any state is met all along. -/
lemma along_of_mem {step : σ → ι → Option σ} {C : σ → ι → Prop} {is : List ι}
    (h : ∀ i ∈ is, ∀ s, C s i) (s : σ) : Along step C s is := by
  induction is generalizing s with
  | nil => exact trivial
  | cons i is ih =>
    exact ⟨h i List.mem_cons_self s, fun s' _ =>
      ih (fun j hj => h j (List.mem_cons_of_mem _ hj)) s'⟩

/-- A condition that always holds is met all along. -/
lemma along_of_forall {step : σ → ι → Option σ} {C : σ → ι → Prop} (h : ∀ s i, C s i)
    (is : List ι) (s : σ) : Along step C s is := along_of_mem (fun i _ s => h s i) s

/-- The invariant rule. -/
theorem exec_preserves {step : σ → ι → Option σ} {I : σ → Prop}
    (hstep : ∀ s i s', I s → step s i = some s' → I s') {is : List ι} {s s' : σ}
    (hrun : exec step s is = some s') (hs : I s) : I s' := by
  have halong : Along step (fun _ _ => True) s is := along_of_forall (fun _ _ => trivial) is s
  exact exec_invariant (fun s i s' h _ => hstep s i s' h) hrun halong hs

/-- What each round of a loop does in some steps, the loop does in some steps. -/
lemma foldl_reflTransGen {R : σ → σ → Prop} {f : σ → ι → σ}
    (h : ∀ s i, Relation.ReflTransGen R s (f s i)) (is : List ι) (s : σ) :
    Relation.ReflTransGen R s (is.foldl f s) := by
  induction is generalizing s with
  | nil => exact .refl
  | cons i is ih => exact (h s i).trans (ih (f s i))

/-! ### Histories -/

/-- Every entry of a history is allowed by what is before it. -/
def Each (A : List ι → ι → Prop) (l : List ι) : Prop := ∀ pre x post, l = pre ++ x :: post → A pre x

variable {A : List ι → ι → Prop} {l : List ι} {x : ι}

lemma each_nil : Each A [] := fun pre x post h => by simp at h

/-- A history grows by an entry that what is there allows. -/
lemma each_concat : Each A (l ++ [x]) ↔ Each A l ∧ A l x := by
  constructor
  · intro h
    refine ⟨fun pre y post hl => h pre y (post ++ [x]) ?_, h l x [] rfl⟩
    rw [hl, List.append_assoc, List.cons_append]
  · rintro ⟨hl, hx⟩ pre y post heq
    rcases List.eq_nil_or_concat post with rfl | ⟨post, z, rfl⟩
    · obtain ⟨rfl, hy⟩ := List.append_inj' heq rfl
      obtain rfl := List.singleton_inj.mp hy
      exact hx
    · rw [List.concat_eq_append, ← List.cons_append, ← List.append_assoc] at heq
      exact hl pre y post (List.append_inj' heq rfl).1

lemma Each.mono {B : List ι → ι → Prop} (h : Each A l) (hAB : ∀ pre x, A pre x → B pre x) :
    Each B l := fun pre x post hl => hAB pre x (h pre x post hl)

end Runs
