import Mathlib

/-!
Computations over a store that survives a crash.

A computation `Act σ α` reads and updates a store `σ`, may ask whether the
operation it is about to make fails, and may give up. An update is either
volatile (`put`) or one atomic durable write (`commit`). Running it takes the
store and the list of coming answers to the failure questions, and yields an
`Outcome`: the value (`none` when it gave up), the store it left, the answers
it did not use, and the images of the store after each durable write, in
order. A crash after any number of durable writes leaves the initial store or
one of those images.

* `run_bind`: sequencing runs the parts one after the other, and appends the
  images;
* `Does`: what a computation leaves behind, with every fault list or without
  failures: a property of its crash images, of its results and of the store it
  leaves when it gives up, with the rules `Does.bind`, `Does.onFail` and
  `Does.attempt`;
* `Reads`: a computation that changes nothing and, unless an operation fails,
  returns a known value, with its sequencing rules `Reads.bind` and
  `Reads.bind_none`;
* `run_replicate_append`: without failures a computation asks a definite
  number of questions, so a failure can be placed right after it.
-/

namespace Durable

/-- Computations over a store `σ` with failing operations and atomic durable
writes. -/
inductive Act (σ α : Type) : Type where
  | ret (a : α)
  | fail
  | ask (k : Bool → Act σ α)
  | get (k : σ → Act σ α)
  | put (s : σ) (k : Act σ α)
  | commit (s : σ) (k : Act σ α)

/-- What a run leaves behind. -/
structure Outcome (σ α : Type) where
  value : Option α
  state : σ
  faults : List Bool
  images : List σ

namespace Outcome

variable {σ α : Type}

/-- The outcome of a later part of a run, with the images of the earlier part
put in front. -/
def after (ims : List σ) (o : Outcome σ α) : Outcome σ α :=
  { o with images := ims ++ o.images }

@[simp] lemma after_value (ims : List σ) (o : Outcome σ α) : (o.after ims).value = o.value := rfl

@[simp] lemma after_state (ims : List σ) (o : Outcome σ α) : (o.after ims).state = o.state := rfl

@[simp] lemma after_faults (ims : List σ) (o : Outcome σ α) :
    (o.after ims).faults = o.faults := rfl

@[simp] lemma after_images (ims : List σ) (o : Outcome σ α) :
    (o.after ims).images = ims ++ o.images := rfl

@[simp] lemma after_nil (o : Outcome σ α) : o.after [] = o := rfl

/-- The crash images satisfy `I`, a value satisfies `Q` with the store left
behind, and giving up left a store that satisfies `N`. -/
structure Meets (o : Outcome σ α) (I : σ → Prop) (Q : α → σ → Prop) (N : σ → Prop) : Prop where
  images : ∀ x ∈ o.images, I x
  value : ∀ a, o.value = some a → Q a o.state
  none : o.value = none → N o.state

lemma Meets.after {o : Outcome σ α} {I : σ → Prop} {Q : α → σ → Prop} {N : σ → Prop}
    {ims : List σ} (h : o.Meets I Q N) (hims : ∀ x ∈ ims, I x) :
    (o.after ims).Meets I Q N := by
  refine ⟨fun x hx => ?_, h.value, h.none⟩
  rcases List.mem_append.mp hx with hx | hx
  · exact hims x hx
  · exact h.images x hx

end Outcome

namespace Act

variable {σ α β : Type}

/-- Sequencing: giving up skips the rest. -/
def bind : Act σ α → (α → Act σ β) → Act σ β
  | ret a, f => f a
  | fail, _ => fail
  | ask k, f => ask fun b => (k b).bind f
  | get k, f => get fun s => (k s).bind f
  | put s k, f => put s (k.bind f)
  | commit s k, f => commit s (k.bind f)

instance : Monad (Act σ) where
  pure := ret
  bind := bind

lemma bind_ret (p : Act σ α) : p.bind ret = p := by
  induction p with
  | ret a => rfl
  | fail => rfl
  | ask k ih => exact congrArg ask (funext ih)
  | get k ih => exact congrArg get (funext ih)
  | put s k ih => exact congrArg (put s) ih
  | commit s k ih => exact congrArg (commit s) ih

lemma bind_bind {γ : Type} (p : Act σ α) (f : α → Act σ β) (h : β → Act σ γ) :
    (p.bind f).bind h = p.bind fun a => (f a).bind h := by
  induction p with
  | ret a => rfl
  | fail => rfl
  | ask k ih => exact congrArg ask (funext ih)
  | get k ih => exact congrArg get (funext ih)
  | put s k ih => exact congrArg (put s) ih
  | commit s k ih => exact congrArg (commit s) ih

instance : LawfulMonad (Act σ) :=
  LawfulMonad.mk' (Act σ) bind_ret (fun _ _ => rfl) fun p f h => bind_bind p f h

/-- Run a part and hand on whether it gave up, instead of giving up too. -/
def attempt : Act σ α → Act σ (Option α)
  | ret a => ret (some a)
  | fail => ret none
  | ask k => ask fun b => (k b).attempt
  | get k => get fun s => (k s).attempt
  | put s k => put s k.attempt
  | commit s k => commit s k.attempt

/-- Run a part; if it gives up, run the clean-up, ignore how that went, and
give up. -/
def onFail (p : Act σ α) (cleanup : Act σ β) : Act σ α :=
  p.attempt.bind fun
    | some a => ret a
    | none => cleanup.attempt.bind fun _ => fail

/-- An operation that may fail and otherwise does nothing. -/
def guard : Act σ Unit :=
  ask fun b => if b then fail else ret ()

/-- Running a computation on a store, with the answers to its failure
questions; a question beyond the list is answered with "no failure". -/
def run : Act σ α → σ → List Bool → Outcome σ α
  | ret a, s, fl => ⟨some a, s, fl, []⟩
  | fail, s, fl => ⟨none, s, fl, []⟩
  | ask k, s, [] => (k false).run s []
  | ask k, s, b :: fl => (k b).run s fl
  | get k, s, fl => (k s).run s fl
  | put s' k, _, fl => k.run s' fl
  | commit s' k, _, fl => (k.run s' fl).after [s']

/-! ### Running a composite -/

variable {p : Act σ α} {q : Act σ β} {f : α → Act σ β} {s : σ} {fl : List Bool} {a : α}
  {r : Option α} {P : σ → Prop}

@[simp] lemma run_pure (a : α) (s : σ) (fl : List Bool) :
    (pure a : Act σ α).run s fl = ⟨some a, s, fl, []⟩ := rfl

@[simp] lemma run_ret (a : α) (s : σ) (fl : List Bool) :
    (ret a : Act σ α).run s fl = ⟨some a, s, fl, []⟩ := rfl

@[simp] lemma run_fail (s : σ) (fl : List Bool) :
    (fail : Act σ α).run s fl = ⟨none, s, fl, []⟩ := rfl

lemma run_bind (p : Act σ α) (f : α → Act σ β) (s : σ) (fl : List Bool) :
    (p >>= f).run s fl =
      match (p.run s fl).value with
      | some a => ((f a).run (p.run s fl).state (p.run s fl).faults).after (p.run s fl).images
      | none => ⟨none, (p.run s fl).state, (p.run s fl).faults, (p.run s fl).images⟩ := by
  show (p.bind f).run s fl = _
  induction p generalizing s fl with
  | ret a => simp [bind]
  | fail => simp [bind]
  | ask k ih =>
    cases fl with
    | nil => simpa [bind, run] using ih false s []
    | cons b fl => simpa [bind, run] using ih b s fl
  | get k ih => simpa [bind, run] using ih s s fl
  | put s' k ih => simpa [bind, run] using ih s' fl
  | commit s' k ih =>
    simp only [bind, run, ih s' fl, Outcome.after_value]
    cases (k.run s' fl).value <;> simp [Outcome.after]

lemma run_bind_some (h : (p.run s fl).value = some a) :
    (p >>= f).run s fl =
      ((f a).run (p.run s fl).state (p.run s fl).faults).after (p.run s fl).images := by
  rw [run_bind, h]

lemma run_bind_none (h : (p.run s fl).value = none) :
    (p >>= f).run s fl = ⟨none, (p.run s fl).state, (p.run s fl).faults, (p.run s fl).images⟩ := by
  rw [run_bind, h]

lemma run_attempt (p : Act σ α) (s : σ) (fl : List Bool) :
    p.attempt.run s fl =
      ⟨some (p.run s fl).value, (p.run s fl).state, (p.run s fl).faults, (p.run s fl).images⟩ := by
  induction p generalizing s fl with
  | ret a => rfl
  | fail => rfl
  | ask k ih =>
    cases fl with
    | nil => simpa [attempt, run] using ih false s []
    | cons b fl => simpa [attempt, run] using ih b s fl
  | get k ih => simpa [attempt, run] using ih s s fl
  | put s' k ih => simpa [attempt, run] using ih s' fl
  | commit s' k ih => simp [attempt, run, ih s' fl, Outcome.after]

lemma run_onFail_some (h : (p.run s fl).value = some a) : (p.onFail q).run s fl = p.run s fl := by
  show (p.attempt >>= _).run s fl = _
  rw [run_bind, run_attempt]
  simp only [h]
  show Outcome.after _ (⟨some a, _, _, []⟩ : Outcome σ α) = _
  simp [Outcome.after, ← h]

lemma run_onFail_none (h : (p.run s fl).value = none) :
    (p.onFail q).run s fl =
      ⟨none, (q.run (p.run s fl).state (p.run s fl).faults).state,
        (q.run (p.run s fl).state (p.run s fl).faults).faults,
        (p.run s fl).images ++ (q.run (p.run s fl).state (p.run s fl).faults).images⟩ := by
  show (p.attempt >>= _).run s fl = _
  rw [run_bind, run_attempt]
  simp only [h]
  show Outcome.after _ ((q.attempt >>= fun _ => (fail : Act σ α)).run _ _) = _
  rw [run_bind, run_attempt]
  simp [Outcome.after]

/-! ### Failures -/

/-- With no failure to come, none is left over. -/
@[simp] lemma run_nil_faults (p : Act σ α) (s : σ) : (p.run s []).faults = [] := by
  induction p generalizing s with
  | ret a => rfl
  | fail => rfl
  | ask k ih => simpa [run] using ih false s
  | get k ih => simpa [run] using ih s s
  | put s' k ih => simpa [run] using ih s'
  | commit s' k ih => simpa [run] using ih s'

/-- Without failures a computation asks a definite number of questions: any
failures placed after that many answers are still to come when it ends. -/
theorem run_replicate_append (p : Act σ α) (s : σ) :
    ∃ n, ∀ rest, p.run s (List.replicate n false ++ rest) =
      { p.run s [] with faults := rest } := by
  induction p generalizing s with
  | ret a => exact ⟨0, fun rest => rfl⟩
  | fail => exact ⟨0, fun rest => rfl⟩
  | ask k ih =>
    obtain ⟨n, hn⟩ := ih false s
    exact ⟨n + 1, fun rest => by simpa [run, List.replicate_succ] using hn rest⟩
  | get k ih =>
    obtain ⟨n, hn⟩ := ih s s
    exact ⟨n, fun rest => by simpa [run] using hn rest⟩
  | put s' k ih =>
    obtain ⟨n, hn⟩ := ih s'
    exact ⟨n, fun rest => by simpa [run] using hn rest⟩
  | commit s' k ih =>
    obtain ⟨n, hn⟩ := ih s'
    exact ⟨n, fun rest => by simp [run, hn rest, Outcome.after]⟩

/-! ### What a computation does -/

/-- What `p` does from the store `s`, under every fault list or, in the `calm`
case, under the one without failures. -/
def Does (calm : Prop) (p : Act σ α) (s : σ) (I : σ → Prop) (Q : α → σ → Prop)
    (N : σ → Prop) : Prop :=
  ∀ fl, (calm → fl = []) → (p.run s fl).Meets I Q N

section Rules

variable {calm : Prop} {I I' N N' : σ → Prop} {Q Q' : α → σ → Prop}

lemma Does.mono (h : Does calm p s I Q N) (him : ∀ x, I x → I' x)
    (hok : ∀ a x, Q a x → Q' a x) (hno : ∀ x, N x → N' x) : Does calm p s I' Q' N' :=
  fun fl hfl => ⟨fun x hx => him x ((h fl hfl).images x hx),
    fun a ha => hok a _ ((h fl hfl).value a ha), fun hv => hno _ ((h fl hfl).none hv)⟩

lemma does_pure (h : Q a s) : Does calm (pure a) s I Q N := by
  refine fun fl _ =>
    ⟨fun x hx => absurd hx (by simp), fun b hb => ?_, fun hv => absurd hv (by simp)⟩
  obtain rfl : a = b := by simpa using hb
  exact h

lemma does_fail (h : N s) : Does calm (fail : Act σ α) s I Q N :=
  fun _ _ => ⟨fun _ hx => absurd hx (by simp), fun _ hb => absurd hb (by simp), fun _ => h⟩

/-- Answers left over by a run without failures are again without failures. -/
lemma calm_faults (h : calm → fl = []) : calm → (p.run s fl).faults = [] := by
  intro hc
  rw [h hc, run_nil_faults]

/-- The sequencing rule. -/
lemma Does.bind {Q₂ : β → σ → Prop} (hp : Does calm p s I Q N)
    (hf : ∀ a x, Q a x → Does calm (f a) x I Q₂ N) : Does calm (p >>= f) s I Q₂ N := by
  intro fl hfl
  have h1 := hp fl hfl
  cases hv : (p.run s fl).value with
  | none =>
    rw [run_bind_none hv]
    exact ⟨h1.images, fun b hb => absurd hb (by simp), fun _ => h1.none hv⟩
  | some a =>
    rw [run_bind_some hv]
    exact (hf a _ (h1.value a hv) _ (calm_faults hfl)).after h1.images

/-- The rule for a part with a clean-up, which runs from what a failure left. -/
lemma Does.onFail {N₂ : σ → Prop} (hp : Does calm p s I Q N)
    (hq : ∀ x, N x → Does calm q x I (fun _ => N₂) N₂) :
    Does calm (p.onFail q) s I Q N₂ := by
  intro fl hfl
  have h1 := hp fl hfl
  cases hv : (p.run s fl).value with
  | some a =>
    rw [run_onFail_some hv]
    exact ⟨h1.images, h1.value, fun hn => absurd hn (by simp [hv])⟩
  | none =>
    have h2 := hq _ (h1.none hv) (p.run s fl).faults (calm_faults hfl)
    rw [run_onFail_none hv]
    refine ⟨(h2.after h1.images).images, fun b hb => absurd hb (by simp), fun _ => ?_⟩
    cases hw : (q.run (p.run s fl).state (p.run s fl).faults).value with
    | none => exact h2.none hw
    | some b => exact h2.value b hw

/-- The rule for a part whose failure is ignored. -/
lemma Does.attempt (hp : Does calm p s I Q N) :
    Does calm p.attempt s I (fun r x => r.elim (N x) fun a => Q a x) N' := by
  intro fl hfl
  have h1 := hp fl hfl
  rw [run_attempt]
  refine ⟨h1.images, fun r hr => ?_, fun hn => absurd hn (by simp)⟩
  obtain rfl : (p.run s fl).value = r := by simpa using hr
  cases hv : (p.run s fl).value with
  | none => exact h1.none hv
  | some a => exact h1.value a hv

lemma does_get {k : σ → Act σ α} (h : Does calm (k s) s I Q N) :
    Does calm (.get k) s I Q N := h

lemma does_put {k : Act σ α} {s' : σ} (h : Does calm k s' I Q N) :
    Does calm (.put s' k) s I Q N := h

lemma does_commit {k : Act σ α} {s' : σ} (him : I s') (h : Does calm k s' I Q N) :
    Does calm (.commit s' k) s I Q N := fun fl hfl =>
  (h fl hfl).after fun x hx => by
    rw [List.mem_singleton.mp hx]
    exact him

/-- A value found without failures, when giving up would take one. -/
lemma Does.exists_value (h : Does True p s I Q fun _ => False) :
    ∃ a, (p.run s []).value = some a ∧ Q a (p.run s []).state := by
  cases hv : (p.run s []).value with
  | none => exact absurd ((h [] fun _ => rfl).none hv) id
  | some a => exact ⟨a, rfl, (h [] fun _ => rfl).value a hv⟩

end Rules

/-! ### Computations that only read -/

/-- A computation that changes nothing and, unless an operation fails, returns
`r`. -/
structure Reads (p : Act σ α) (s : σ) (r : Option α) : Prop where
  state : ∀ fl, (p.run s fl).state = s
  images : ∀ fl, (p.run s fl).images = []
  value : ∀ fl, (p.run s fl).value = r ∨ (p.run s fl).value = none
  value_nil : (p.run s []).value = r

lemma Reads.pure (a : α) (s : σ) : Reads (pure a : Act σ α) s (some a) :=
  ⟨fun _ => rfl, fun _ => rfl, fun _ => .inl rfl, rfl⟩

lemma Reads.fail (s : σ) : Reads (fail : Act σ α) s none :=
  ⟨fun _ => rfl, fun _ => rfl, fun _ => .inl rfl, rfl⟩

lemma Reads.bind {r : Option β} (hp : Reads p s (some a)) (hf : Reads (f a) s r) :
    Reads (p >>= f) s r := by
  have key : ∀ fl, (p.run s fl).value = some a →
      (p >>= f).run s fl = (f a).run s (p.run s fl).faults := by
    intro fl h
    rw [run_bind_some h, hp.state, hp.images, Outcome.after_nil]
  refine ⟨fun fl => ?_, fun fl => ?_, fun fl => ?_, ?_⟩
  · rcases hp.value fl with h | h
    · rw [key fl h]; exact hf.state _
    · rw [run_bind_none h]; exact hp.state fl
  · rcases hp.value fl with h | h
    · rw [key fl h]; exact hf.images _
    · rw [run_bind_none h]; exact hp.images fl
  · rcases hp.value fl with h | h
    · rw [key fl h]; exact hf.value _
    · rw [run_bind_none h]; exact .inr rfl
  · rw [key [] hp.value_nil, run_nil_faults]
    exact hf.value_nil

/-- A part that only reads drops out of a run without failures. -/
lemma Reads.run_bind (hp : Reads p s (some a)) : (p >>= f).run s [] = (f a).run s [] := by
  rw [run_bind_some hp.value_nil, hp.state, hp.images, Outcome.after_nil, run_nil_faults]

lemma Reads.bind_none (hp : Reads p s none) : Reads (p >>= f) s none := by
  have hv : ∀ fl, (p.run s fl).value = none := fun fl => (hp.value fl).elim id id
  refine ⟨fun fl => ?_, fun fl => ?_, fun fl => ?_, ?_⟩
  · rw [run_bind_none (hv fl)]; exact hp.state fl
  · rw [run_bind_none (hv fl)]; exact hp.images fl
  · rw [run_bind_none (hv fl)]; exact .inl rfl
  · rw [run_bind_none (hv [])]

/-- What is put together from parts that only read, only reads. -/
lemma Reads.exists_bind (hp : ∃ r, Reads p s r) (hf : ∀ a, ∃ r, Reads (f a) s r) :
    ∃ r, Reads (p >>= f) s r := by
  obtain ⟨_ | a, hp⟩ := hp
  · exact ⟨none, hp.bind_none⟩
  · obtain ⟨r, hr⟩ := hf a
    exact ⟨r, hp.bind hr⟩

/-- What reading does: it gives up on a failure, or when there is no value. -/
lemma Reads.does {calm : Prop} {I : σ → Prop} (hp : Reads p s r) :
    Does calm p s I (fun a x => x = s ∧ r = some a) fun x => x = s ∧ (calm → r = none) := by
  refine fun fl hfl => ⟨fun x hx => ?_, fun a ha => ⟨hp.state fl, ?_⟩, fun hn => ⟨hp.state fl, ?_⟩⟩
  · rw [hp.images] at hx
    exact absurd hx (by simp)
  · rcases hp.value fl with h | h
    · rw [← h, ha]
    · rw [h] at ha
      exact absurd ha (by simp)
  · intro hc
    rw [← hn, hfl hc, hp.value_nil]

/-- The sequencing rule when the first part only reads, and finds a value. -/
lemma Reads.bind_does {calm : Prop} {I N : σ → Prop} {Q : β → σ → Prop}
    (hp : Reads p s (some a)) (hf : Does calm (f a) s I Q N) (hN : ¬calm → N s) :
    Does calm (p >>= f) s I Q N := by
  refine Does.bind (hp.does.mono (fun _ h => h) (fun _ _ h => h) ?_) ?_
  · rintro x ⟨rfl, hx⟩
    exact hN fun hc => absurd (hx hc) (by simp)
  · rintro b x ⟨rfl, hb⟩
    obtain rfl := Option.some.inj hb
    exact hf

/-- A reading computation that does return, returns the value. -/
lemma Reads.eq_of_value (hp : Reads p s r) (h : (p.run s fl).value = some a) : r = some a := by
  rcases hp.value fl with h' | h'
  · rw [← h', h]
  · rw [h'] at h; exact absurd h (by simp)

lemma reads_guard (s : σ) : Reads (guard : Act σ Unit) s (some ()) := by
  have key : ∀ fl, (guard : Act σ Unit).run s fl = ⟨some (), s, fl.tail, []⟩ ∨
      (guard : Act σ Unit).run s fl = ⟨none, s, fl.tail, []⟩ := by
    intro fl
    cases fl with
    | nil => exact .inl rfl
    | cons b fl => cases b <;> simp [guard, run]
  refine ⟨fun fl => ?_, fun fl => ?_, fun fl => ?_, rfl⟩ <;>
    rcases key fl with h | h <;> simp [h]

/-! ### Crash images that do occur -/

/-- Some crash image of the run without failures meets `P`. -/
def Emits (p : Act σ α) (s : σ) (P : σ → Prop) : Prop := ∃ x ∈ (p.run s []).images, P x

lemma emits_get {k : σ → Act σ α} (h : Emits (k s) s P) : Emits (.get k) s P := h

lemma emits_commit {k : Act σ α} {s' : σ} (h : P s') : Emits (.commit s' k) s P :=
  ⟨s', by simp [run, Outcome.after], h⟩

lemma Emits.bind (h : Emits p s P) : Emits (p >>= f) s P := by
  obtain ⟨x, hx, hP⟩ := h
  refine ⟨x, ?_, hP⟩
  cases hv : (p.run s []).value with
  | none => rw [run_bind_none hv]; exact hx
  | some a => rw [run_bind_some hv]; exact List.mem_append_left _ hx

lemma Reads.bind_emits (hp : Reads p s (some a)) (h : Emits (f a) s P) : Emits (p >>= f) s P := by
  obtain ⟨x, hx, hP⟩ := h
  refine ⟨x, ?_, hP⟩
  rw [run_bind_some hp.value_nil, hp.state, run_nil_faults]
  exact List.mem_append_right _ hx

/-- An image that occurs, with what is known of all images. -/
lemma Emits.of_does {I N : σ → Prop} {Q : α → σ → Prop} (h : Emits p s P)
    (hd : Does True p s I Q N) : Emits p s I :=
  have ⟨x, hx, _⟩ := h
  ⟨x, hx, (hd [] fun _ => rfl).images x hx⟩

/-! ### Failures that do occur -/

/-- Under some faults `p` gives up, in a store that meets `P`. -/
def Breaks (p : Act σ α) (s : σ) (P : σ → Prop) : Prop :=
  ∃ fl, (p.run s fl).value = none ∧ (p.run s fl).faults = [] ∧ P (p.run s fl).state

lemma breaks_guard (h : P s) : Breaks (guard : Act σ Unit) s P :=
  ⟨[true], rfl, rfl, h⟩

lemma Breaks.bind (h : Breaks p s P) : Breaks (p >>= f) s P := by
  obtain ⟨fl, hv, hf, hP⟩ := h
  exact ⟨fl, by rw [run_bind_none hv], by rw [run_bind_none hv, hf], by rwa [run_bind_none hv]⟩

/-- The failure comes after a part that runs without one. -/
lemma Does.bind_breaks {I : σ → Prop} {Q : α → σ → Prop} (hp : Does True p s I Q fun _ => False)
    (hf : ∀ a x, Q a x → Breaks (f a) x P) : Breaks (p >>= f) s P := by
  obtain ⟨a, ha, hQ⟩ := hp.exists_value
  obtain ⟨fl, hv, hfl, hP⟩ := hf a _ hQ
  obtain ⟨n, hn⟩ := run_replicate_append p s
  have hrun :=
    run_bind_some (f := f) (show (p.run s (List.replicate n false ++ fl)).value = some a by
    rw [hn fl, ha])
  rw [hn fl] at hrun
  exact ⟨List.replicate n false ++ fl, by rw [hrun]; exact hv, by rw [hrun]; exact hfl,
    by rw [hrun]; exact hP⟩

lemma Reads.bind_breaks (hp : Reads p s (some a)) (hf : Breaks (f a) s P) :
    Breaks (p >>= f) s P := by
  have hd : Does True p s (fun _ => True) (fun b x => x = s ∧ some a = some b) fun _ => False :=
    hp.does.mono (fun _ h => h) (fun _ _ h => h) fun _ h => absurd (h.2 trivial) (by simp)
  refine hd.bind_breaks ?_
  rintro b x ⟨rfl, hb⟩
  obtain rfl := Option.some.inj hb
  exact hf

/-- The clean-up after the failure runs without another one. -/
lemma Breaks.onFail {P' : σ → Prop} (h : Breaks p s P)
    (hq : ∀ x, P x → Does True q x (fun _ => True) (fun _ => P') P') :
    Breaks (p.onFail q) s P' := by
  obtain ⟨fl, hv, hfl, hP⟩ := h
  have hmeets := hq _ hP [] fun _ => rfl
  have hrun := run_onFail_none (q := q) hv
  rw [hfl] at hrun
  refine ⟨fl, by rw [hrun], by rw [hrun]; exact run_nil_faults _ _, ?_⟩
  rw [hrun]
  cases hw : (q.run (p.run s fl).state []).value with
  | none => exact hmeets.none hw
  | some b => exact hmeets.value b hw

lemma reads_get {k : σ → Act σ α} (h : Reads (k s) s r) : Reads (.get k) s r :=
  ⟨h.state, h.images, h.value, h.value_nil⟩

end Act

end Durable
