-- SUMMARY: Guarded transition machines: runs, reachable states, invariants, conditions on the steps of a run, history variables, and simulations.
import Mathlib.Data.List.Infix

/-!
# Transition machines

A machine is an initial state and a partial step function: `step s e` is `none`
when the event `e` is not enabled in `s`. The same function is used to replay a
concrete run and to prove what holds in every reachable state.
-/

namespace Base

universe u v

/-- Enable the successor `s` only under the guard `c`. -/
def guarded {σ : Type u} (c : Prop) [Decidable c] (s : σ) : Option σ :=
  if c then some s else none

@[simp] theorem guarded_eq_some {σ : Type u} {c : Prop} [Decidable c] {s s' : σ} :
    guarded c s = some s' ↔ c ∧ s = s' := by
  simp [guarded]

structure Machine (σ : Type u) (ε : Type v) where
  init : σ
  step : σ → ε → Option σ

namespace Machine

variable {σ : Type u} {ε : Type v} (M : Machine σ ε)

/-! ## Runs -/

/-- Replay the events `es` from `s`; `none` if one of them is not enabled. -/
def runFrom (s : σ) : List ε → Option σ
  | []      => some s
  | e :: es => (M.step s e).bind fun s' => runFrom s' es

/-- Replay the events `es` from the initial state. -/
def run (es : List ε) : Option σ := M.runFrom M.init es

@[simp] theorem runFrom_nil (s : σ) : M.runFrom s [] = some s := rfl

@[simp] theorem run_nil : M.run [] = some M.init := rfl

theorem runFrom_append (s : σ) (es es' : List ε) :
    M.runFrom s (es ++ es') = (M.runFrom s es).bind fun s' => M.runFrom s' es' := by
  induction es generalizing s with
  | nil => rfl
  | cons e es ih =>
      simp only [List.cons_append, runFrom, Option.bind_assoc]
      congr 1
      funext s'
      exact ih s'

variable {M} in
theorem runFrom_cons {s s' : σ} {e : ε} (h : M.step s e = some s') (es : List ε) :
    M.runFrom s (e :: es) = M.runFrom s' es := by
  rw [runFrom, h, Option.bind_some]

theorem run_snoc {es : List ε} {e : ε} {s' : σ} :
    M.run (es ++ [e]) = some s' ↔ ∃ s, M.run es = some s ∧ M.step s e = some s' := by
  simp [run, runFrom_append, runFrom, Option.bind_eq_some_iff]

/-! ## Reachable states -/

inductive Reachable : σ → Prop
  | init : Reachable M.init
  | step {s s' : σ} {e : ε} : Reachable s → M.step s e = some s' → Reachable s'

variable {M}

theorem reachable_of_run {es : List ε} {s : σ} (h : M.run es = some s) : M.Reachable s := by
  induction es using List.reverseRecOn generalizing s with
  | nil =>
      simp only [run_nil, Option.some.injEq] at h
      exact h ▸ .init
  | append_singleton es e ih =>
      obtain ⟨s₁, hs₁, he⟩ := M.run_snoc.mp h
      exact (ih hs₁).step he

theorem Reachable.exists_run {s : σ} (h : M.Reachable s) : ∃ es, M.run es = some s := by
  induction h with
  | init => exact ⟨[], rfl⟩
  | @step s s' e _ he ih =>
      obtain ⟨es, hes⟩ := ih
      exact ⟨es ++ [e], M.run_snoc.mpr ⟨s, hes, he⟩⟩

variable (M) in
/-- `I` holds initially and is kept by every step from a reachable state. The
reachability premise lets one invariant be proved from others. -/
structure Invariant (I : σ → Prop) : Prop where
  init : I M.init
  step : ∀ {s s' : σ} {e : ε}, M.Reachable s → I s → M.step s e = some s' → I s'

theorem Invariant.reachable {I : σ → Prop} (h : M.Invariant I) {s : σ} (hs : M.Reachable s) :
    I s := by
  induction hs with
  | init => exact h.init
  | step hr he ih => exact h.step hr ih he

/-! ## Conditions on the states and steps of one run -/

variable (M) in
/-- The run `es` passes through the state `s`. -/
def Visits (es : List ε) (s : σ) : Prop :=
  ∃ pre, pre <+: es ∧ M.run pre = some s

variable (M) in
/-- The run `es` takes the step `e` from the state `s`. -/
def Takes (es : List ε) (s : σ) (e : ε) : Prop :=
  ∃ pre s', pre ++ [e] <+: es ∧ M.run pre = some s ∧ M.step s e = some s'

theorem Visits.reachable {es : List ε} {s : σ} (h : M.Visits es s) : M.Reachable s := by
  obtain ⟨pre, _, hrun⟩ := h
  exact reachable_of_run hrun

theorem Takes.visits {es : List ε} {s : σ} {e : ε} (h : M.Takes es s e) : M.Visits es s := by
  obtain ⟨pre, s', hpre, hrun, _⟩ := h
  exact ⟨pre, (List.prefix_append pre [e]).trans hpre, hrun⟩

theorem Takes.visits_next {es : List ε} {s s' : σ} {e : ε} (h : M.Takes es s e)
    (he : M.step s e = some s') : M.Visits es s' := by
  obtain ⟨pre, _, hpre, hrun, _⟩ := h
  exact ⟨pre ++ [e], hpre, M.run_snoc.mpr ⟨s, hrun, he⟩⟩

/-- A property that no step meeting `C` breaks holds throughout every run whose
steps all meet `C`. -/
theorem always_of_steps {P : σ → Prop} {C : σ → ε → Prop} (hinit : P M.init)
    (hstep : ∀ {s s' : σ} {e : ε}, M.Reachable s → P s → C s e → M.step s e = some s' → P s')
    {es : List ε} (hC : ∀ s e, M.Takes es s e → C s e) {s : σ} (hs : M.Visits es s) : P s := by
  obtain ⟨pre, hpre, hrun⟩ := hs
  induction pre using List.reverseRecOn generalizing s with
  | nil =>
      simp only [run_nil, Option.some.injEq] at hrun
      exact hrun ▸ hinit
  | append_singleton pre e ih =>
      obtain ⟨s₀, hs₀, he⟩ := M.run_snoc.mp hrun
      have hpre' : pre <+: es := (List.prefix_append pre [e]).trans hpre
      exact hstep (reachable_of_run hs₀) (ih hpre' hs₀) (hC s₀ e ⟨pre, s, hpre, hs₀, he⟩) he

/-- If, in a run whose steps all meet `D`, a step keeps `P` exactly when it meets `C`,
then the run stays within `P` exactly when all its steps meet `C`. -/
theorem always_iff_of_steps {P : σ → Prop} {C D : σ → ε → Prop} (hinit : P M.init)
    (hstep : ∀ {s s' : σ} {e : ε}, M.Reachable s → P s → D s e → M.step s e = some s' →
      (P s' ↔ C s e))
    {es : List ε} (hD : ∀ s e, M.Takes es s e → D s e) :
    (∀ s, M.Visits es s → P s) ↔ ∀ s e, M.Takes es s e → C s e := by
  constructor
  · intro hP s e ht
    obtain ⟨_, s', _, _, he⟩ := id ht
    have hs : P s := hP s ht.visits
    exact (hstep ht.visits.reachable hs (hD s e ht) he).mp (hP s' (ht.visits_next he))
  · intro hC s hs
    exact always_of_steps (C := fun s e => D s e ∧ C s e) hinit
      (fun hr hP hc he => (hstep hr hP hc.1 he).mpr hc.2)
      (fun s e ht => ⟨hD s e ht, hC s e ht⟩) hs

/-- If a step keeps `P` exactly when it meets `C`, then a run stays within `P`
exactly when all its steps meet `C`. -/
theorem always_iff {P : σ → Prop} {C : σ → ε → Prop} (hinit : P M.init)
    (hstep : ∀ {s s' : σ} {e : ε}, M.Reachable s → P s → M.step s e = some s' → (P s' ↔ C s e))
    {es : List ε} :
    (∀ s, M.Visits es s → P s) ↔ ∀ s e, M.Takes es s e → C s e :=
  always_iff_of_steps (D := fun _ _ => True) hinit (fun hr hP _ he => hstep hr hP he)
    fun _ _ _ => trivial

variable (M) in
/-- Check a condition on the steps of the run `es` from `s`. -/
def checkSteps (C : σ → ε → Bool) (s : σ) : List ε → Bool
  | []      => true
  | e :: es => C s e && (M.step s e).all fun s' => checkSteps C s' es

theorem takes_of_checkSteps {C : σ → ε → Bool} {es : List ε} (h : M.checkSteps C M.init es = true)
    {s : σ} {e : ε} (ht : M.Takes es s e) : C s e = true := by
  obtain ⟨pre, s', ⟨rest, hes⟩, hrun, _⟩ := ht
  subst hes
  rw [Machine.run] at hrun
  generalize M.init = s₀ at h hrun
  induction pre generalizing s₀ with
  | nil =>
      obtain rfl := Option.some.inj hrun
      exact (Bool.and_eq_true_iff.mp h).1
  | cons e₁ pre ih =>
      obtain ⟨s₁, he₁, hrun₁⟩ := Option.bind_eq_some_iff.mp hrun
      have hrest := (Bool.and_eq_true_iff.mp h).2
      rw [he₁] at hrest
      exact ih s₁ hrest hrun₁

/-! ## History variables -/

section Observed

variable {α : Type*} {M : Machine σ ε} {f : σ → ε → α → α} {a : α}

variable (M f a) in
/-- The machine with a history variable, which `f` updates at every step. -/
def observed : Machine (σ × α) ε where
  init := (M.init, a)
  step x e := (M.step x.1 e).map fun s' => (s', f x.1 e x.2)

@[simp] theorem observed_step {x x' : σ × α} {e : ε} :
    (M.observed f a).step x e = some x' ↔ M.step x.1 e = some x'.1 ∧ f x.1 e x.2 = x'.2 := by
  simp [observed, Option.map_eq_some_iff, Prod.ext_iff]

/-- A history variable keeps no run from happening. -/
theorem observed_run {es : List ε} {s : σ} (h : M.run es = some s) :
    ∃ b, (M.observed f a).run es = some (s, b) := by
  induction es using List.reverseRecOn generalizing s with
  | nil =>
      simp only [run_nil, Option.some.injEq] at h
      exact ⟨a, by rw [← h]; rfl⟩
  | append_singleton es e ih =>
      obtain ⟨s₁, hs₁, he⟩ := M.run_snoc.mp h
      obtain ⟨b, hb⟩ := ih hs₁
      exact ⟨f s₁ e b, (run_snoc _).mpr ⟨(s₁, b), hb, observed_step.mpr ⟨he, rfl⟩⟩⟩

theorem run_of_observed {es : List ε} {x : σ × α} (h : (M.observed f a).run es = some x) :
    M.run es = some x.1 := by
  induction es using List.reverseRecOn generalizing x with
  | nil =>
      simp only [run_nil, Option.some.injEq] at h
      rw [← h]
      rfl
  | append_singleton es e ih =>
      obtain ⟨x₁, hx₁, he⟩ := (run_snoc _).mp h
      exact M.run_snoc.mpr ⟨x₁.1, ih hx₁, (observed_step.mp he).1⟩

/-- A history variable makes no state reachable, and no step possible. -/
theorem Reachable.of_observed {x : σ × α} (h : (M.observed f a).Reachable x) :
    M.Reachable x.1 := by
  obtain ⟨es, hes⟩ := h.exists_run
  exact reachable_of_run (run_of_observed hes)

theorem Visits.observed {es : List ε} {s : σ} (h : M.Visits es s) :
    ∃ b, (M.observed f a).Visits es (s, b) := by
  obtain ⟨pre, hpre, hrun⟩ := h
  obtain ⟨b, hb⟩ := observed_run hrun
  exact ⟨b, pre, hpre, hb⟩

theorem Takes.of_observed {es : List ε} {x : σ × α} {e : ε} (h : (M.observed f a).Takes es x e) :
    M.Takes es x.1 e := by
  obtain ⟨pre, x', hpre, hrun, he⟩ := h
  exact ⟨pre, x'.1, hpre, run_of_observed hrun, (observed_step.mp he).1⟩

end Observed

end Machine

/-! ## Simulations -/

namespace Machine

variable {σ : Type u} {ε : Type v} {α : Type*} {β : Type*}

/-- The abstract events that the enabled part of a run shows, when a step `e` from
`s` shows the events `label s e`. -/
def labels (M : Machine σ ε) (label : σ → ε → List β) (s : σ) : List ε → List β
  | []      => []
  | e :: es =>
      match M.step s e with
      | none    => []
      | some s' => label s e ++ labels M label s' es

/-- Every step of `M` is matched by the events `label` of `A`, related states
staying related. An empty label is a step that `A` does not see. -/
structure Simulation (M : Machine σ ε) (A : Machine α β) (label : σ → ε → List β)
    (R : σ → α → Prop) : Prop where
  init : R M.init A.init
  step : ∀ {s s' : σ} {e : ε} {a : α}, M.Reachable s → R s a → M.step s e = some s' →
    ∃ a', A.runFrom a (label s e) = some a' ∧ R s' a'

variable {M : Machine σ ε} {A : Machine α β} {label : σ → ε → List β} {R : σ → α → Prop}

private theorem Simulation.labels_run (h : Simulation M A label R) {es : List ε} {s : σ} {a : α}
    (hs : M.Reachable s) (hR : R s a) :
    ∃ a', A.runFrom a (M.labels label s es) = some a' := by
  induction es generalizing s a with
  | nil => exact ⟨a, rfl⟩
  | cons e es ih =>
      simp only [labels]
      split
      · exact ⟨a, rfl⟩
      · next s' he =>
          obtain ⟨a₁, ha₁, hR₁⟩ := h.step hs hR he
          obtain ⟨a', ha'⟩ := ih (hs.step he) hR₁
          exact ⟨a', by rw [runFrom_append, ha₁]; exact ha'⟩

/-- A run of `M` shows a run of `A`. -/
theorem Simulation.run (h : Simulation M A label R) (es : List ε) :
    ∃ a, A.run (M.labels label M.init es) = some a :=
  h.labels_run .init h.init

end Machine
end Base
