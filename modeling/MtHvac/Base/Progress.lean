-- SUMMARY: Progress of transition machines: what can still be reached, rankings that bound the way to a goal, and potentials that bound the work in a run.
import Mathlib.Algebra.GroupWithZero.Nat
import MtHvac.Base.Machine

/-!
# Progress

An invariant says what a machine never does. Here a machine is shown to get
somewhere: a ranking rules out both that the steps towards a goal block each other
and that they go on for ever. A potential bounds one kind of steps by another.
-/

namespace Base.Machine

universe u v

variable {σ : Type u} {ε : Type v} {M : Machine σ ε}

/-! ## Reaching a state -/

variable (M) in
/-- The machine can go on from `s` to a state in `Q`. -/
def CanReach (s : σ) (Q : σ → Prop) : Prop := ∃ es s', M.runFrom s es = some s' ∧ Q s'

variable {s s' : σ} {e : ε} {es : List ε} {Q R : σ → Prop}

theorem CanReach.here (h : Q s) : M.CanReach s Q := ⟨[], s, rfl, h⟩

theorem CanReach.step (he : M.step s e = some s') (h : M.CanReach s' Q) : M.CanReach s Q := by
  obtain ⟨es, s'', hrun, hq⟩ := h
  exact ⟨e :: es, s'', by rw [runFrom_cons he, hrun], hq⟩

theorem Reachable.runFrom (h : M.Reachable s) (hrun : M.runFrom s es = some s') :
    M.Reachable s' := by
  induction es generalizing s with
  | nil => exact Option.some.inj hrun ▸ h
  | cons e es ih =>
      obtain ⟨s₁, he, hrun₁⟩ := Option.bind_eq_some_iff.mp hrun
      exact ih (h.step he) hrun₁

/-- What can be reached from every state that can be reached, can be reached. -/
theorem CanReach.trans (hs : M.Reachable s) (h : M.CanReach s Q)
    (hnext : ∀ s', M.Reachable s' → Q s' → M.CanReach s' R) : M.CanReach s R := by
  obtain ⟨es, s', hrun, hq⟩ := h
  obtain ⟨es', s'', hrun', hr⟩ := hnext s' (hs.runFrom hrun) hq
  refine ⟨es ++ es', s'', ?_, hr⟩
  rw [runFrom_append, hrun]
  exact hrun'

/-! ## Rankings -/

/-- Outside the goal `Q`, an event in `A` is possible in every state in `I`, and each
event in `A` lowers the rank and stays in `I`. -/
structure Ranking (M : Machine σ ε) (A : ε → Prop) (I Q : σ → Prop) (rank : σ → Nat) : Prop where
  enabled : ∀ {s}, I s → ¬ Q s → ∃ e s', A e ∧ M.step s e = some s'
  lowers : ∀ {s s' e}, I s → ¬ Q s → A e → M.step s e = some s' → I s' ∧ rank s' < rank s

variable (M) in
/-- The run `es` from `s` takes no step from a state in `Q`. -/
def Avoids (Q : σ → Prop) (s : σ) (es : List ε) : Prop :=
  ∀ pre e, pre ++ [e] <+: es → ∀ s', M.runFrom s pre = some s' → ¬ Q s'

theorem Avoids.head (h : M.Avoids Q s (e :: es)) : ¬ Q s :=
  h [] e (List.prefix_iff_eq_take.mpr rfl) s rfl

theorem Avoids.tail (he : M.step s e = some s') (h : M.Avoids Q s (e :: es)) :
    M.Avoids Q s' es := by
  intro pre e' hpre s'' hrun
  refine h (e :: pre) e' ?_ s'' (by rw [runFrom_cons he, hrun])
  exact List.cons_prefix_cons.mpr ⟨rfl, hpre⟩

theorem avoids_of_checkSteps [DecidablePred Q]
    (h : M.checkSteps (fun s _ => !decide (Q s)) s es = true) : M.Avoids Q s es := by
  rintro pre e ⟨rest, rfl⟩ s' hrun
  induction pre generalizing s with
  | nil =>
      obtain rfl := Option.some.inj hrun
      simpa using (Bool.and_eq_true_iff.mp h).1
  | cons e₁ pre ih =>
      obtain ⟨s₁, he₁, hrun₁⟩ := Option.bind_eq_some_iff.mp hrun
      have hrest := (Bool.and_eq_true_iff.mp h).2
      rw [he₁] at hrest
      exact ih hrest hrun₁

namespace Ranking

variable {A : ε → Prop} {I : σ → Prop} {rank : σ → Nat}

/-- A run outside the goal is no longer than the ranks that it uses up. -/
theorem length_add_le (h : Ranking M A I Q rank) (hi : I s) (ha : ∀ e ∈ es, A e)
    (havoid : M.Avoids Q s es) (hrun : M.runFrom s es = some s') :
    I s' ∧ es.length + rank s' ≤ rank s := by
  induction es generalizing s with
  | nil =>
      obtain rfl := Option.some.inj hrun
      exact ⟨hi, by simp⟩
  | cons e es ih =>
      obtain ⟨s₁, he, hrun₁⟩ := Option.bind_eq_some_iff.mp hrun
      obtain ⟨hi₁, hlt⟩ := h.lowers hi havoid.head (ha e List.mem_cons_self) he
      obtain ⟨hi', hle⟩ := ih hi₁ (fun e' he' => ha e' (List.mem_cons_of_mem _ he'))
        (havoid.tail he) hrun₁
      refine ⟨hi', ?_⟩
      rw [List.length_cons]
      omega

/-- The goal is reached within the rank. -/
theorem reaches (h : Ranking M A I Q rank) (hi : I s) :
    ∃ es s', (∀ e ∈ es, A e) ∧ es.length ≤ rank s ∧ M.runFrom s es = some s' ∧ I s' ∧ Q s' := by
  induction hn : rank s using Nat.strong_induction_on generalizing s with
  | _ n ih =>
      subst hn
      by_cases hq : Q s
      · exact ⟨[], s, nofun, Nat.zero_le _, rfl, hi, hq⟩
      · obtain ⟨e, s₁, ha, he⟩ := h.enabled hi hq
        obtain ⟨hi₁, hlt⟩ := h.lowers hi hq ha he
        obtain ⟨es, s', has, hlen, hrun, hi', hq'⟩ := ih (rank s₁) hlt hi₁ rfl
        refine ⟨e :: es, s', ?_, ?_, by rw [runFrom_cons he, hrun], hi', hq'⟩
        · exact List.forall_mem_cons.mpr ⟨ha, has⟩
        · rw [List.length_cons]
          omega

/-- However the events in `A` are ordered, they lead to the goal: a run that has not
reached it goes on, and takes no more steps altogether than the rank. -/
theorem completes (h : Ranking M A I Q rank) (hi : I s) (ha : ∀ e ∈ es, A e)
    (havoid : M.Avoids Q s es) (hrun : M.runFrom s es = some s') :
    ∃ es' s'', (∀ e ∈ es', A e) ∧ es.length + es'.length ≤ rank s ∧
      M.runFrom s' es' = some s'' ∧ Q s'' := by
  obtain ⟨hi', hle⟩ := h.length_add_le hi ha havoid hrun
  obtain ⟨es', s'', ha', hlen, hrun', _, hq⟩ := h.reaches hi'
  exact ⟨es', s'', ha', by omega, hrun', hq⟩

end Ranking

/-! ## Potentials -/

/-- Each event uses up `spend e` of the potential and adds at most `gain e` to it. `Pot s n`
says that the potential of `s` is `n`; it carries the invariant that is needed for this. -/
structure Potential (M : Machine σ ε) (spend gain : ε → Nat) (Pot : σ → Nat → Prop) : Prop where
  step : ∀ {s s' e n}, Pot s n → M.step s e = some s' → ∃ n', Pot s' n' ∧ n' + spend e ≤ n + gain e

/-- What a run uses up, it started with or has gained. -/
theorem Potential.run {spend gain : ε → Nat} {Pot : σ → Nat → Prop} {n : Nat}
    (h : Potential M spend gain Pot) (hn : Pot s n) (hrun : M.runFrom s es = some s') :
    ∃ n', Pot s' n' ∧ n' + (es.map spend).sum ≤ n + (es.map gain).sum := by
  induction es generalizing s n with
  | nil =>
      obtain rfl := Option.some.inj hrun
      exact ⟨n, hn, le_rfl⟩
  | cons e es ih =>
      obtain ⟨s₁, he, hrun₁⟩ := Option.bind_eq_some_iff.mp hrun
      obtain ⟨n₁, hn₁, hle₁⟩ := h.step hn he
      obtain ⟨n', hn', hle'⟩ := ih hn₁ hrun₁
      refine ⟨n', hn', ?_⟩
      rw [List.map_cons, List.map_cons, List.sum_cons, List.sum_cons]
      omega

/-- Events that count as one. -/
theorem sum_toNat (p : ε → Bool) (es : List ε) : (es.map fun e => (p e).toNat).sum = es.countP p := by
  induction es with
  | nil => rfl
  | cons e es ih =>
      rw [List.map_cons, List.sum_cons, ih, List.countP_cons, Nat.add_comm]
      cases p e <;> rfl

/-! ## Runs up to a goal -/

section Before

variable [DecidablePred Q]

variable (M Q) in
/-- The machine, which stops in `Q`. -/
def before : Machine σ ε where
  init := M.init
  step s e := if Q s then none else M.step s e

theorem before_eq_some : (M.before Q).step s e = some s' ↔ ¬ Q s ∧ M.step s e = some s' := by
  by_cases hq : Q s <;> simp [before, hq]

/-- A run that takes no step from `Q` does not notice that the machine stops there. -/
theorem Avoids.runFrom_before (h : M.Avoids Q s es) (hrun : M.runFrom s es = some s') :
    (M.before Q).runFrom s es = some s' := by
  induction es generalizing s with
  | nil => exact hrun
  | cons e es ih =>
      obtain ⟨s₁, he, hrun₁⟩ := Option.bind_eq_some_iff.mp hrun
      rw [runFrom_cons (before_eq_some.mpr ⟨h.head, he⟩)]
      exact ih (h.tail he) hrun₁

end Before

/-- What every step keeps, every run keeps. -/
theorem runFrom_keeps {I : σ → Prop} (h : ∀ {s s' e}, I s → M.step s e = some s' → I s') (hi : I s)
    (hrun : M.runFrom s es = some s') : I s' := by
  induction es generalizing s with
  | nil => exact Option.some.inj hrun ▸ hi
  | cons e es ih =>
      obtain ⟨s₁, he, hrun₁⟩ := Option.bind_eq_some_iff.mp hrun
      exact ih (h hi he) hrun₁

end Base.Machine
