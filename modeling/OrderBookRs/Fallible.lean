import Mathlib.Tactic.Common

/-!
# Fallible stateful programs

Programs over a shared state that may fail: `σ → Except ε α × σ`. A failure keeps the state it
failed in, so effects made before the failure stay. This is a method on a shared object that
returns a `Result`.

A program is reasoned about through the relation between the state it starts in and the state it
ends in. `Fallible.Rel R m` says that every run of `m`, failed or not, is a step of `R`; for a
reflexive and transitive `R` it is closed under sequencing, so a frame condition or an invariant
(`fun s s' => I s → I s'`) passes through a program statement by statement.

## Main definitions

* `Fallible`: the programs, a monad.
* `Fallible.get`, `Fallible.modify`, `Fallible.fail`, `Fallible.check`, `Fallible.lift`,
  `Fallible.ofState`, `Fallible.onError`: the statements.
* `Fallible.Succeeds`: the run does not fail.
* `Fallible.Rel`: every run is a step of a relation.
* `Fallible.Agree`: runs from two states have the same result and end in related states.
* `RunMeets`: every step of a run meets a condition on the state it is made in.

## Main results

* `Fallible.bind_eq_ok`: a sequence succeeds iff both parts do.
* `Fallible.Rel.bind`, `Fallible.IsFrame.bind_run`: relations through sequences.
* `Fallible.Agree.bind`: two runs of a sequence.
* `RunMeets.invariant`: what each step that meets the condition keeps, the run keeps.
* `runMeets_iff_all_states`: a condition exact for one step is exact for runs.
-/

namespace OrderBookRs

variable {c : Bool}

/-- A program over a state `σ` that fails with `ε` or returns `α`. -/
def Fallible (ε σ α : Type) := σ → Except ε α × σ

namespace Fallible

variable {ε σ α β : Type}

instance : Monad (Fallible ε σ) where
  pure a := fun s => (.ok a, s)
  bind m f := fun s =>
    match m s with
    | (.ok a, s') => f a s'
    | (.error e, s') => (.error e, s')

/-- Read the state. -/
def get : Fallible ε σ σ := fun s => (.ok s, s)

/-- Change the state. -/
def modify (f : σ → σ) : Fallible ε σ Unit := fun s => (.ok (), f s)

/-- Fail, keeping the state. -/
def fail (e : ε) : Fallible ε σ α := fun s => (.error e, s)

/-- Fail with `e` when `c` holds. -/
def check (c : Bool) (e : ε) : Fallible ε σ Unit := if c then fail e else pure ()

/-- Lift an outcome that does not touch the state. -/
def lift (r : Except ε α) : Fallible ε σ α := fun s => (r, s)

/-- A stateful computation that cannot fail. -/
def ofState (f : σ → α × σ) : Fallible ε σ α := fun s => (.ok (f s).1, (f s).2)

/-- Run `m`; when it fails, change the state before passing the failure on. -/
def onError (m : Fallible ε σ α) (f : ε → σ → σ) : Fallible ε σ α := fun s =>
  match m s with
  | (.ok a, s') => (.ok a, s')
  | (.error e, s') => (.error e, f e s')

/-! ### Running a statement -/

@[simp] theorem pure_run (a : α) (s : σ) : (pure a : Fallible ε σ α) s = (.ok a, s) := rfl

@[simp] theorem get_run (s : σ) : (get : Fallible ε σ σ) s = (.ok s, s) := rfl

@[simp] theorem modify_run (f : σ → σ) (s : σ) :
    (modify f : Fallible ε σ Unit) s = (.ok (), f s) := rfl

@[simp] theorem fail_run (e : ε) (s : σ) : (fail e : Fallible ε σ α) s = (.error e, s) := rfl

@[simp] theorem lift_run (r : Except ε α) (s : σ) : (lift r : Fallible ε σ α) s = (r, s) := rfl

@[simp] theorem ofState_run (f : σ → α × σ) (s : σ) :
    (ofState f : Fallible ε σ α) s = (.ok (f s).1, (f s).2) := rfl

@[simp] theorem check_true_run (e : ε) (s : σ) :
    (check true e : Fallible ε σ Unit) s = (.error e, s) := rfl

@[simp] theorem check_false_run (e : ε) (s : σ) :
    (check false e : Fallible ε σ Unit) s = (.ok (), s) := rfl

theorem bind_run (m : Fallible ε σ α) (f : α → Fallible ε σ β) (s : σ) :
    (m >>= f) s =
      match m s with
      | (.ok a, s') => f a s'
      | (.error e, s') => (.error e, s') := rfl

theorem bind_run_of_ok {m : Fallible ε σ α} {f : α → Fallible ε σ β} {s s' : σ} {a : α}
    (h : m s = (.ok a, s')) : (m >>= f) s = f a s' := by
  rw [bind_run, h]

theorem bind_run_of_error {m : Fallible ε σ α} {f : α → Fallible ε σ β} {s s' : σ} {e : ε}
    (h : m s = (.error e, s')) : (m >>= f) s = (.error e, s') := by
  rw [bind_run, h]

/-- **A sequence succeeds iff both parts do.** -/
theorem bind_eq_ok {m : Fallible ε σ α} {f : α → Fallible ε σ β} {s s'' : σ} {b : β} :
    (m >>= f) s = (.ok b, s'') ↔ ∃ a s', m s = (.ok a, s') ∧ f a s' = (.ok b, s'') := by
  rw [bind_run]
  constructor
  · intro h
    rcases hm : m s with ⟨_ | a, s'⟩
    · rw [hm] at h
      cases h
    · rw [hm] at h
      exact ⟨a, s', rfl, h⟩
  · rintro ⟨a, s', hm, hf⟩
    rw [hm]
    exact hf

theorem check_eq_ok {e : ε} {s s' : σ} {u : Unit} :
    (check c e : Fallible ε σ Unit) s = (.ok u, s') ↔ c = false ∧ s' = s := by
  cases c <;> simp [eq_comm]

theorem onError_eq_ok {m : Fallible ε σ α} {f : ε → σ → σ} {s s' : σ} {a : α} :
    onError m f s = (.ok a, s') ↔ m s = (.ok a, s') := by
  unfold onError
  rcases m s with ⟨e | a', s''⟩
  · simp
  · simp

theorem check_run_snd (c : Bool) (e : ε) (s : σ) :
    ((check c e : Fallible ε σ Unit) s).2 = s := by cases c <;> rfl

/-! ### Success -/

/-- The run of `m` from `s` does not fail. -/
def Succeeds (m : Fallible ε σ α) (s : σ) : Prop := ∃ a s', m s = (.ok a, s')

theorem not_succeeds_of_eq {m : Fallible ε σ α} {s s' : σ} {e : ε} (h : m s = (.error e, s')) :
    ¬ Succeeds m s := by
  rintro ⟨a, s'', h'⟩
  rw [h] at h'
  cases h'

theorem succeeds_bind {m : Fallible ε σ α} {f : α → Fallible ε σ β} {s : σ} :
    Succeeds (m >>= f) s ↔ ∃ a s', m s = (.ok a, s') ∧ Succeeds (f a) s' := by
  constructor
  · rintro ⟨b, s'', h⟩
    obtain ⟨a, s', hm, hf⟩ := bind_eq_ok.mp h
    exact ⟨a, s', hm, b, s'', hf⟩
  · rintro ⟨a, s', hm, b, s'', hf⟩
    exact ⟨b, s'', bind_eq_ok.mpr ⟨a, s', hm, hf⟩⟩

theorem succeeds_bind_of_ok {m : Fallible ε σ α} {f : α → Fallible ε σ β} {s s' : σ} {a : α}
    (h : m s = (.ok a, s')) : Succeeds (m >>= f) s ↔ Succeeds (f a) s' := by
  rw [Succeeds, bind_run_of_ok h]
  rfl

theorem succeeds_check {e : ε} {s : σ} :
    Succeeds (check c e : Fallible ε σ Unit) s ↔ c = false := by
  cases c with
  | true => exact iff_of_false (not_succeeds_of_eq rfl) (by simp)
  | false => exact iff_of_true ⟨(), s, rfl⟩ rfl

theorem succeeds_check_bind {e : ε} {f : Unit → Fallible ε σ β} {s : σ} :
    Succeeds (check c e >>= f) s ↔ c = false ∧ Succeeds (f ()) s := by
  cases c with
  | true => exact iff_of_false (not_succeeds_of_eq (bind_run_of_error rfl)) (by simp)
  | false => exact (succeeds_bind_of_ok rfl).trans (by simp)

/-! ### Relations between start and end -/

/-- A relation that a program may step along any number of times. -/
structure IsFrame (R : σ → σ → Prop) : Prop where
  refl : ∀ s, R s s
  trans : ∀ {s t u}, R s t → R t u → R s u

/-- Preserving a property is a frame. -/
theorem IsFrame.preserves (I : σ → Prop) : IsFrame fun s s' => I s → I s' :=
  ⟨fun _ h => h, fun h₁ h₂ h => h₂ (h₁ h)⟩

/-- Every run of `m` is a step of `R`. -/
def Rel (R : σ → σ → Prop) (m : Fallible ε σ α) : Prop := ∀ s, R s (m s).2

/-- Sequencing, with what is known about a successful first part. -/
theorem IsFrame.bind_run {R : σ → σ → Prop} (hR : IsFrame R) {m : Fallible ε σ α}
    {f : α → Fallible ε σ β} {s : σ} (hm : R s (m s).2)
    (hf : ∀ a s', m s = (.ok a, s') → R s' (f a s').2) : R s ((m >>= f) s).2 := by
  rw [Fallible.bind_run]
  rcases h : m s with ⟨e | a, s'⟩
  · rw [h] at hm
    exact hm
  · rw [h] at hm
    exact hR.trans hm (hf a s' h)

namespace Rel

variable {R : σ → σ → Prop}

theorem pure (hR : IsFrame R) (a : α) : Rel R (Pure.pure a : Fallible ε σ α) := hR.refl

theorem get (hR : IsFrame R) : Rel R (Fallible.get : Fallible ε σ σ) := hR.refl

theorem fail (hR : IsFrame R) (e : ε) : Rel R (Fallible.fail e : Fallible ε σ α) := hR.refl

theorem lift (hR : IsFrame R) (r : Except ε α) : Rel R (Fallible.lift r : Fallible ε σ α) :=
  hR.refl

theorem check (hR : IsFrame R) (c : Bool) (e : ε) :
    Rel R (Fallible.check c e : Fallible ε σ Unit) := by
  intro s
  rw [check_run_snd]
  exact hR.refl s

theorem modify {f : σ → σ} (hf : ∀ s, R s (f s)) : Rel R (Fallible.modify f : Fallible ε σ Unit) :=
  hf

theorem ofState {f : σ → α × σ} (hf : ∀ s, R s (f s).2) :
    Rel R (Fallible.ofState f : Fallible ε σ α) := hf

theorem onError (hR : IsFrame R) {m : Fallible ε σ α} {f : ε → σ → σ} (hm : Rel R m)
    (hf : ∀ e s, R s (f e s)) : Rel R (Fallible.onError m f) := by
  intro s
  have hs := hm s
  unfold Fallible.onError
  rcases h : m s with ⟨e | a, s'⟩
  · rw [h] at hs
    exact hR.trans hs (hf e s')
  · rw [h] at hs
    exact hs

theorem bind (hR : IsFrame R) {m : Fallible ε σ α} {f : α → Fallible ε σ β} (hm : Rel R m)
    (hf : ∀ a, Rel R (f a)) : Rel R (m >>= f) :=
  fun s => hR.bind_run (hm s) fun a s' _ => hf a s'

/-- A sequence fails with its first part or goes on after it. -/
theorem bind_cases {m : Fallible ε σ α} (hm : Rel R m) (f : α → Fallible ε σ β) (s : σ) :
    (∃ e s', m s = (.error e, s') ∧ R s s' ∧ (m >>= f) s = (.error e, s')) ∨
      ∃ a s', m s = (.ok a, s') ∧ R s s' ∧ (m >>= f) s = f a s' := by
  have hs := hm s
  rcases hrun : m s with ⟨e | a, s'⟩
  · rw [hrun] at hs
    exact Or.inl ⟨e, s', rfl, hs, bind_run_of_error hrun⟩
  · rw [hrun] at hs
    exact Or.inr ⟨a, s', rfl, hs, bind_run_of_ok hrun⟩

end Rel

/-! ### Runs from two states -/

/-- Two outcomes agree: the results are the same and the states are related by `R`. -/
structure Agree (R : σ → σ → Prop) (x x' : Except ε α × σ) : Prop where
  result_eq : x'.1 = x.1
  state : R x.2 x'.2

namespace Agree

variable {R R' : σ → σ → Prop} {s s' : σ}

theorem mono {x x' : Except ε α × σ} (h : Agree R x x') (hR : ∀ {t t'}, R t t' → R' t t') :
    Agree R' x x' := ⟨h.result_eq, hR h.state⟩

/-- Add what is known of the first state. -/
theorem keeping {x x' : Except ε α × σ} {P : σ → Prop} (h : Agree R x x') (hP : P x.2) :
    Agree (fun t t' => R t t' ∧ P t) x x' := ⟨h.result_eq, h.state, hP⟩

theorem pure (h : R s s') (a : α) :
    Agree R ((Pure.pure a : Fallible ε σ α) s) ((Pure.pure a : Fallible ε σ α) s') := ⟨rfl, h⟩

theorem fail (h : R s s') (e : ε) :
    Agree R ((Fallible.fail e : Fallible ε σ α) s) ((Fallible.fail e : Fallible ε σ α) s') :=
  ⟨rfl, h⟩

theorem lift (h : R s s') {r r' : Except ε α} (heq : r' = r) :
    Agree R ((Fallible.lift r : Fallible ε σ α) s) ((Fallible.lift r' : Fallible ε σ α) s') :=
  ⟨heq, h⟩

theorem ofState {f f' : σ → α × σ} (hresult : (f' s').1 = (f s).1) (h : R (f s).2 (f' s').2) :
    Agree R ((Fallible.ofState f : Fallible ε σ α) s) ((Fallible.ofState f' : Fallible ε σ α) s') :=
  ⟨congrArg Except.ok hresult, h⟩

theorem check (h : R s s') {c' : Bool} {e e' : ε} (hc : c' = c) (he : e' = e) :
    Agree R ((Fallible.check c e : Fallible ε σ Unit) s)
      ((Fallible.check c' e' : Fallible ε σ Unit) s') := by
  subst hc he
  refine ⟨?_, by rw [check_run_snd, check_run_snd]; exact h⟩
  cases c' <;> rfl

theorem onError {m m' : Fallible ε σ α} {f : ε → σ → σ} (hm : Agree R (m s) (m' s'))
    (hf : ∀ e {t t'}, R t t' → R (f e t) (f e t')) :
    Agree R (Fallible.onError m f s) (Fallible.onError m' f s') := by
  obtain ⟨hresult, hstate⟩ := hm
  rw [Fallible.onError, Fallible.onError]
  rcases hrun : m s with ⟨e | a, t⟩ <;> rcases hrun' : m' s' with ⟨r', t'⟩
  · rw [hrun, hrun'] at hresult hstate
    cases hresult
    exact ⟨rfl, hf e hstate⟩
  · rw [hrun, hrun'] at hresult hstate
    cases hresult
    exact ⟨rfl, hstate⟩

/-- What is done after reading the state may depend on the state read. -/
theorem get_bind {f f' : σ → Fallible ε σ β} (h : Agree R (f s s) (f' s' s')) :
    Agree R ((Fallible.get >>= f) s) ((Fallible.get >>= f') s') := h

/-- **Sequencing**: the first parts agree, and the second parts agree after any result of them. -/
theorem bind {m m' : Fallible ε σ α} {f f' : α → Fallible ε σ β} (hm : Agree R (m s) (m' s'))
    (hR : ∀ {t t'}, R t t' → R' t t') (hf : ∀ a {t t'}, R t t' → Agree R' (f a t) (f' a t')) :
    Agree R' ((m >>= f) s) ((m' >>= f') s') := by
  obtain ⟨hresult, hstate⟩ := hm
  rw [bind_run, bind_run]
  rcases hrun : m s with ⟨e | a, t⟩ <;> rcases hrun' : m' s' with ⟨r', t'⟩
  · rw [hrun, hrun'] at hresult hstate
    cases hresult
    exact ⟨rfl, hR hstate⟩
  · rw [hrun, hrun'] at hresult hstate
    cases hresult
    exact hf a hstate

end Agree

end Fallible

/-! ### Guarded runs -/

section Runs

variable {σ α : Type} {step : σ → α → σ} {P : σ → α → Prop}

/-- Every step of a run meets the condition `P` on the state it is made in. -/
def RunMeets (step : σ → α → σ) (P : σ → α → Prop) : σ → List α → Prop
  | _, [] => True
  | s, a :: rest => P s a ∧ RunMeets step P (step s a) rest

theorem RunMeets.append {actions rest : List α} {s : σ} :
    RunMeets step P s (actions ++ rest) ↔
      RunMeets step P s actions ∧ RunMeets step P (actions.foldl step s) rest := by
  induction actions generalizing s with
  | nil => exact (and_iff_right trivial).symm
  | cons a actions ih =>
    rw [List.cons_append, RunMeets, RunMeets, ih, and_assoc]
    rfl

/-- **A run keeps what each of its steps keeps.** -/
theorem RunMeets.invariant {I : σ → Prop} (hstep : ∀ {s a}, P s a → I s → I (step s a))
    {actions : List α} {s : σ} (h : RunMeets step P s actions) (hI : I s) :
    I (actions.foldl step s) := by
  induction actions generalizing s with
  | nil => exact hI
  | cons a rest ih => exact ih h.2 (hstep h.1 hI)

/-- **The states of a run all have the property** exactly when each of its steps meets the
condition, if that is what the condition says of one step. -/
theorem runMeets_iff_all_states {I J : σ → Prop} (hJ : ∀ {s a}, J s → J (step s a)) {s : σ}
    {actions : List α} (hstep : ∀ {s a}, a ∈ actions → J s → I s → (I (step s a) ↔ P s a))
    (hs : J s) (hI : I s) :
    RunMeets step P s actions ↔ ∀ done, done <+: actions → I (done.foldl step s) := by
  induction actions generalizing s with
  | nil =>
    refine iff_of_true trivial fun done hdone => ?_
    rw [List.prefix_nil.mp hdone]
    exact hI
  | cons a rest ih =>
    have hfirst := hstep (List.mem_cons_self ..) hs hI
    have hlater := ih (s := step s a) (fun ha => hstep (List.mem_cons_of_mem _ ha)) (hJ hs)
    constructor
    · rintro ⟨hP, hrest⟩ done hdone
      rcases List.prefix_cons_iff.mp hdone with rfl | ⟨done', rfl, hdone'⟩
      · exact hI
      · exact (hlater (hfirst.mpr hP)).mp hrest done' hdone'
    · intro hall
      have hnext : I (step s a) := hall [a] (List.cons_prefix_cons.mpr ⟨rfl, List.nil_prefix⟩)
      refine ⟨hfirst.mp hnext, (hlater hnext).mpr fun done hdone => ?_⟩
      exact hall (a :: done) (List.cons_prefix_cons.mpr ⟨rfl, hdone⟩)

end Runs

end OrderBookRs
