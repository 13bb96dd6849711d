import Mathlib

/-!
Programs that make requests.

A program is a tree: it is done, or it makes a request and goes on with the answer. What the
other side does is a relation between its state before a request, the answer and its state
after it; so a request can have any number of answers, and what is proved holds for all of them.

* `Run`: the program with some answers, from one state of the other side to another;
* `Ensures`: what holds after a run, with a rule for each way to build a program;
* `exec`, `run_exec`: a run with the answers that a function gives.
-/

namespace Requests

/-- A program with requests `r`, answers in `A r`, and results in `α`. -/
inductive Prog (R : Type) (A : R → Type) (α : Type) where
  | done (a : α)
  | ask (r : R) (next : A r → Prog R A α)

variable {R : Type} {A : R → Type} {α β S : Type}

namespace Prog

/-- One program after another. -/
def bind : Prog R A α → (α → Prog R A β) → Prog R A β
  | done a, f => f a
  | ask r next, f => ask r fun b => (next b).bind f

instance monad : Monad (Prog R A) where
  pure := done
  bind := bind

instance lawfulMonad : LawfulMonad (Prog R A) :=
  LawfulMonad.mk' (Prog R A)
    (fun p => by
      induction p with
      | done a => rfl
      | ask r next ih => exact congrArg (ask r) (funext ih))
    (fun _ _ => rfl)
    fun p f g => by
      induction p with
      | done a => rfl
      | ask r next ih => exact congrArg (ask r) (funext ih)

/-- A single request. -/
def call (r : R) : Prog R A (A r) := ask r done

end Prog

/-- A run of a program, with answers that the other side can give. -/
inductive Run (h : (r : R) → S → A r → S → Prop) : Prog R A α → S → α → S → Prop
  | done {a : α} {s : S} : Run h (.done a) s a s
  | ask {r : R} {next : A r → Prog R A α} {b : A r} {s s' s'' : S} {a : α} (hb : h r s b s')
      (hnext : Run h (next b) s' a s'') : Run h (.ask r next) s a s''

variable {h : (r : R) → S → A r → S → Prop}

lemma Run.of_bind {p : Prog R A α} {f : α → Prog R A β} {s s'' : S} {b : β}
    (hrun : Run h (p >>= f) s b s'') : ∃ a s', Run h p s a s' ∧ Run h (f a) s' b s'' := by
  induction p generalizing s with
  | done a => exact ⟨a, s, .done, hrun⟩
  | ask r next ih =>
    cases hrun with
    | ask hb hnext =>
      obtain ⟨a, s', hp, hf⟩ := ih _ hnext
      exact ⟨a, s', .ask hb hp, hf⟩

/-- What holds after every run from some states. -/
def Ensures (h : (r : R) → S → A r → S → Prop) (P : S → Prop) (p : Prog R A α)
    (Q : α → S → Prop) : Prop :=
  ∀ s a s', P s → Run h p s a s' → Q a s'

namespace Ensures

variable {P P' : S → Prop} {Q Q' : α → S → Prop}

lemma pure {a : α} (hQ : ∀ s, P s → Q a s) : Ensures h P (Pure.pure a) Q := by
  intro s b s' hs hrun
  cases hrun
  exact hQ s hs

lemma call {r : R} {Q : A r → S → Prop} (hQ : ∀ s b s', P s → h r s b s' → Q b s') :
    Ensures h P (.call r) Q := by
  intro s b s' hs hrun
  cases hrun with
  | ask hb hnext =>
    cases hnext
    exact hQ _ _ _ hs hb

lemma bind {p : Prog R A α} {f : α → Prog R A β} {M : α → S → Prop} {Q : β → S → Prop}
    (hp : Ensures h P p M) (hf : ∀ a, Ensures h (M a) (f a) Q) : Ensures h P (p >>= f) Q := by
  intro s b s'' hs hrun
  obtain ⟨a, s', hrun₁, hrun₂⟩ := hrun.of_bind
  exact hf a s' b s'' (hp s a s' hs hrun₁) hrun₂

/-- The same, with what is known of one state in between. -/
lemma andThen {p : Prog R A α} {f : α → Prog R A β} {M : α → S → Prop} {Q : β → S → Prop}
    (hp : Ensures h P p M) (hf : ∀ a s, M a s → Ensures h (· = s) (f a) Q) :
    Ensures h P (p >>= f) Q :=
  hp.bind fun a s b s'' hs hrun => hf a s hs s b s'' rfl hrun

lemma mono {p : Prog R A α} (hp : Ensures h P p Q) (hP : ∀ s, P' s → P s)
    (hQ : ∀ a s, Q a s → Q' a s) : Ensures h P' p Q' :=
  fun s a s' hs hrun => hQ a s' (hp s a s' (hP s hs) hrun)

end Ensures

/-- A run with the answers of a function. -/
def exec (f : (r : R) → S → A r × S) : Prog R A α → S → α × S
  | .done a, s => (a, s)
  | .ask r next, s => exec f (next (f r s).1) (f r s).2

lemma exec_bind (f : (r : R) → S → A r × S) (p : Prog R A α) (g : α → Prog R A β) (s : S) :
    exec f (p >>= g) s = exec f (g (exec f p s).1) (exec f p s).2 := by
  induction p generalizing s with
  | done a => rfl
  | ask r next ih => exact ih _ _

lemma run_exec {f : (r : R) → S → A r × S} (hf : ∀ r s, h r s (f r s).1 (f r s).2)
    (p : Prog R A α) (s : S) : Run h p s (exec f p s).1 (exec f p s).2 := by
  induction p generalizing s with
  | done a => exact .done
  | ask r next ih => exact .ask (hf r s) (ih _ _)

end Requests
