-- SUMMARY: Programs over atomic operations: running one alone, translating its operations, its traces, and weakest preconditions against a specification of the operations.
import Mathlib.Order.Basic

/-!
# Programs over atomic operations

A program is a tree: it has returned, or it stands before an operation and goes
on with the response. Between two operations anything else may happen, so the
same text can be run alone, or as one of several threads.
-/

namespace Base

universe u

/-- The operations of a programming interface, with their response types. -/
structure Interface where
  Op : Type
  Res : Op → Type

inductive Program (I : Interface) (α : Type) where
  | ret (a : α)
  | call (o : I.Op) (k : I.Res o → Program I α)

namespace Program

variable {I : Interface} {α β : Type}

protected def bind : Program I α → (α → Program I β) → Program I β
  | .ret a, f    => f a
  | .call o k, f => .call o fun r => (k r).bind f

instance : Monad (Program I) where
  pure := .ret
  bind := Program.bind

/-- The program of one operation. -/
def perform (o : I.Op) : Program I (I.Res o) := .call o .ret

@[simp] theorem ret_bind (a : α) (f : α → Program I β) : (.ret a : Program I α) >>= f = f a := rfl

@[simp] theorem pure_bind (a : α) (f : α → Program I β) : (pure a : Program I α) >>= f = f a := rfl

@[simp] theorem call_bind (o : I.Op) (k : I.Res o → Program I α) (f : α → Program I β) :
    .call o k >>= f = .call o fun r => k r >>= f := rfl

theorem assoc {γ : Type} (p : Program I α) (f : α → Program I β) (g : β → Program I γ) :
    p >>= f >>= g = p >>= fun a => f a >>= g := by
  induction p with
  | ret a => rfl
  | call o k ih => exact congrArg (Program.call o) (funext ih)

@[simp] theorem bind_return (p : Program I α) : p >>= pure = p := by
  induction p with
  | ret a => rfl
  | call o k ih => exact congrArg (Program.call o) (funext ih)

/-! ## A program alone -/

/-- What the operations do to a state; `none` if an operation never returns. -/
structure Handler (I : Interface) (σ : Type u) where
  act : (o : I.Op) → σ → Option (I.Res o × σ)

section Exec

variable {σ : Type u} {H : Handler I σ}

/-- Run a program on a state, with no other program in between. -/
def exec (H : Handler I σ) : Program I α → σ → Option (α × σ)
  | .ret a, s    => some (a, s)
  | .call o k, s => (H.act o s).bind fun (r, s') => exec H (k r) s'

@[simp] theorem exec_pure (a : α) (s : σ) : exec H (pure a) s = some (a, s) := rfl

theorem exec_perform (o : I.Op) (s : σ) : exec H (perform o) s = H.act o s := by
  change ((H.act o s).bind fun rs => some (rs.1, rs.2)) = H.act o s
  cases H.act o s <;> rfl

@[simp] theorem exec_bind (p : Program I α) (f : α → Program I β) (s : σ) :
    exec H (p >>= f) s = (exec H p s).bind fun (a, s') => exec H (f a) s' := by
  induction p generalizing s with
  | ret a => rfl
  | call o k ih => simp [exec, ih, Option.bind_assoc]

end Exec

/-! ## Programs that use only some operations -/

/-- Whatever the operations respond, the program performs only operations in `Φ`. -/
def Uses (Φ : I.Op → Prop) : Program I α → Prop
  | .ret _    => True
  | .call o k => Φ o ∧ ∀ r, Uses Φ (k r)

section Uses

variable {Φ : I.Op → Prop}

@[simp] theorem uses_pure (a : α) : Uses Φ (pure a : Program I α) := trivial

theorem Uses.bind {p : Program I α} {f : α → Program I β} (hp : Uses Φ p)
    (hf : ∀ a, Uses Φ (f a)) : Uses Φ (p >>= f) := by
  induction p with
  | ret a => exact hf a
  | call o k ih => exact ⟨hp.1, fun r => ih r (hp.2 r)⟩

theorem uses_of_forall (h : ∀ o, Φ o) (p : Program I α) : Uses Φ p := by
  induction p with
  | ret a => trivial
  | call o k ih => exact ⟨h o, ih⟩

/-- What the operations keep, the program keeps. -/
theorem Uses.exec {σ : Type u} {H : Handler I σ} {J : σ → Prop}
    (hJ : ∀ {o s r s'}, Φ o → J s → H.act o s = some (r, s') → J s') {p : Program I α}
    (hp : Uses Φ p) {s s' : σ} {a : α} (hs : J s) (h : p.exec H s = some (a, s')) : J s' := by
  induction p generalizing s with
  | ret b =>
      obtain ⟨_, rfl⟩ := Prod.mk.inj (Option.some.inj h)
      exact hs
  | call o k ih =>
      obtain ⟨⟨r, s₁⟩, hact, hk⟩ := Option.bind_eq_some_iff.mp h
      exact ih r (hp.2 r) (hJ hp.1 hs hact) hk

end Uses

/-! ## Translating operations -/

section Interpret

variable {J : Interface}

/-- The program with each operation replaced by a program over another interface. -/
def interpret (f : (o : I.Op) → Program J (I.Res o)) : Program I α → Program J α
  | .ret a    => .ret a
  | .call o k => f o >>= fun r => interpret f (k r)

variable {f : (o : I.Op) → Program J (I.Res o)}

@[simp] theorem interpret_pure (a : α) : interpret f (pure a) = pure a := rfl

@[simp] theorem interpret_bind (p : Program I α) (g : α → Program I β) :
    interpret f (p >>= g) = interpret f p >>= fun a => interpret f (g a) := by
  induction p with
  | ret a => rfl
  | call o k ih =>
      change (f o >>= fun r => interpret f (k r >>= g)) =
        (f o >>= fun r => interpret f (k r)) >>= fun a => interpret f (g a)
      simp only [ih]
      exact (assoc _ _ _).symm

@[simp] theorem interpret_ite {c : Prop} [Decidable c] (p q : Program I α) :
    interpret f (if c then p else q) = if c then interpret f p else interpret f q :=
  apply_ite _ c p q

theorem Uses.interpret {Φ : I.Op → Prop} {Ψ : J.Op → Prop} (hf : ∀ o, Φ o → Uses Ψ (f o))
    {p : Program I α} (hp : Uses Φ p) : Uses Ψ (interpret f p) := by
  induction p with
  | ret a => trivial
  | call o k ih => exact (hf o hp.1).bind fun r => ih r (hp.2 r)

/-- The operations as the translation performs them. -/
def Handler.via {σ : Type u} (H : Handler J σ) (f : (o : I.Op) → Program J (I.Res o)) :
    Handler I σ where
  act o s := exec H (f o) s

/-- A translated program runs as the program does on the translated operations. -/
theorem exec_interpret {σ : Type u} {H : Handler J σ} (p : Program I α) (s : σ) :
    exec H (interpret f p) s = exec (H.via f) p s := by
  induction p generalizing s with
  | ret a => rfl
  | call o k ih => simp [interpret, exec, Handler.via, ih]

end Interpret

/-- The program without the operations that `d` answers. -/
def erase (d : (o : I.Op) → Option (I.Res o)) : Program I α → Program I α
  | .ret a    => .ret a
  | .call o k =>
      match d o with
      | some r => erase d (k r)
      | none   => .call o fun r => erase d (k r)

section Erase

variable {d : (o : I.Op) → Option (I.Res o)}

@[simp] theorem erase_pure (a : α) : erase d (pure a : Program I α) = pure a := rfl

theorem erase_call {o : I.Op} (k : I.Res o → Program I α) (h : d o = none) :
    erase d (.call o k) = .call o fun r => erase d (k r) := by
  simp [erase, h]

theorem erase_call_of_some {o : I.Op} {r : I.Res o} (k : I.Res o → Program I α)
    (h : d o = some r) : erase d (.call o k) = erase d (k r) := by
  simp [erase, h]

@[simp] theorem erase_bind (p : Program I α) (f : α → Program I β) :
    erase d (p >>= f) = erase d p >>= fun a => erase d (f a) := by
  induction p with
  | ret a => rfl
  | call o k ih =>
      cases h : d o with
      | none =>
          rw [call_bind, erase_call _ h, erase_call _ h, call_bind]
          exact congrArg (Program.call o) (funext ih)
      | some r =>
          rw [call_bind, erase_call_of_some _ h, erase_call_of_some _ h]
          exact ih r

@[simp] theorem erase_ite {c : Prop} [Decidable c] (p q : Program I α) :
    erase d (if c then p else q) = if c then erase d p else erase d q :=
  apply_ite _ c p q

/-- A translation that keeps what is erased, and nothing else, goes before it or after. -/
theorem erase_interpret {J : Interface} {f : (o : I.Op) → Program J (I.Res o)}
    {d' : (o : J.Op) → Option (J.Res o)}
    (h : ∀ o, erase d' (f o) = match d o with
      | some r => pure r
      | none   => f o)
    (p : Program I α) : erase d' (interpret f p) = interpret f (erase d p) := by
  induction p with
  | ret a => rfl
  | call o k ih =>
      change erase d' (f o >>= fun r => interpret f (k r)) = _
      rw [erase_bind, h]
      cases hd : d o with
      | none =>
          rw [erase_call _ hd]
          exact congrArg (f o >>= ·) (funext ih)
      | some r =>
          rw [erase_call_of_some _ hd]
          exact ih r

end Erase

/-! ## Traces -/

/-- An operation with its response. -/
abbrev Performed (I : Interface) := (o : I.Op) × I.Res o

/-- The program returns `a` after the operations of the trace. -/
inductive Runs : Program I α → List (Performed I) → α → Prop
  | ret {a : α} : Runs (.ret a) [] a
  | call {o : I.Op} {k : I.Res o → Program I α} {r : I.Res o} {tr : List (Performed I)} {a : α} :
      Runs (k r) tr a → Runs (.call o k) (⟨o, r⟩ :: tr) a

@[simp] theorem runs_pure {a b : α} {tr : List (Performed I)} :
    Runs (pure a) tr b ↔ tr = [] ∧ a = b := by
  constructor
  · intro h
    cases h
    exact ⟨rfl, rfl⟩
  · rintro ⟨rfl, rfl⟩
    exact .ret

theorem runs_call {o : I.Op} {k : I.Res o → Program I α} {tr : List (Performed I)} {a : α} :
    Runs (.call o k) tr a ↔ ∃ r tr', tr = ⟨o, r⟩ :: tr' ∧ Runs (k r) tr' a := by
  constructor
  · intro h
    cases h with
    | call h => exact ⟨_, _, rfl, h⟩
  · rintro ⟨r, tr', rfl, h⟩
    exact .call h

/-- Follow a trace through the program: what it returns if it is one of its traces. -/
def replay [DecidableEq I.Op] : Program I α → List (Performed I) → Option α
  | .ret a, []         => some a
  | .ret _, _ :: _     => none
  | .call _ _, []      => none
  | .call o k, x :: tr => if h : x.1 = o then replay (k (h ▸ x.2)) tr else none

theorem replay_eq_some [DecidableEq I.Op] {p : Program I α} {tr : List (Performed I)} {a : α} :
    replay p tr = some a ↔ Runs p tr a := by
  induction p generalizing tr with
  | ret b =>
      refine Iff.trans ?_ runs_pure.symm
      cases tr with
      | nil => simp [replay]
      | cons x tr => simp [replay]
  | call o k ih =>
      rw [runs_call]
      cases tr with
      | nil => simp [replay]
      | cons x tr =>
          obtain ⟨o', r⟩ := x
          constructor
          · intro h
            obtain ⟨ho, hk⟩ := Option.dite_none_right_eq_some.mp h
            subst ho
            exact ⟨r, tr, rfl, (ih r).mp hk⟩
          · rintro ⟨r', tr', htr, hk⟩
            obtain ⟨hx, rfl⟩ := List.cons.inj htr
            cases hx
            exact (dif_pos rfl).trans ((ih _).mpr hk)

/-! ## Specifications of the operations -/

/-- What a caller owes to an operation in the local state `ν`, and what it gets. -/
structure Spec (I : Interface) (ν : Type u) where
  pre : I.Op → ν → Prop
  post : (o : I.Op) → ν → I.Res o → ν → Prop

variable {ν : Type u} {A : Spec I ν}

/-- Every operation is called where its precondition holds, and `Q` holds of the
result, whatever the operations respond. -/
def wp (A : Spec I ν) : Program I α → (α → ν → Prop) → ν → Prop
  | .ret a, Q, v    => Q a v
  | .call o k, Q, v => A.pre o v ∧ ∀ r v', A.post o v r v' → wp A (k r) Q v'

@[simp] theorem wp_ret {a : α} {Q : α → ν → Prop} {v : ν} : wp A (.ret a) Q v ↔ Q a v := Iff.rfl

@[simp] theorem wp_pure {a : α} {Q : α → ν → Prop} {v : ν} :
    wp A (pure a) Q v ↔ Q a v := Iff.rfl

theorem wp_call {o : I.Op} {k : I.Res o → Program I α} {Q : α → ν → Prop} {v : ν} :
    wp A (.call o k) Q v ↔ A.pre o v ∧ ∀ r v', A.post o v r v' → wp A (k r) Q v' := Iff.rfl

theorem wp_perform {o : I.Op} {Q : I.Res o → ν → Prop} {v : ν} :
    wp A (perform o) Q v ↔ A.pre o v ∧ ∀ r v', A.post o v r v' → Q r v' := Iff.rfl

@[simp] theorem wp_bind {p : Program I α} {f : α → Program I β} {Q : β → ν → Prop} {v : ν} :
    wp A (p >>= f) Q v ↔ wp A p (fun a v' => wp A (f a) Q v') v := by
  induction p generalizing v with
  | ret a => rfl
  | call o k ih =>
      simp only [call_bind, wp_call]
      exact and_congr_right fun _ => forall_congr' fun r => forall_congr' fun v' =>
        imp_congr_right fun _ => ih r

theorem wp_mono {p : Program I α} {Q Q' : α → ν → Prop} {v : ν}
    (hQ : ∀ a v', Q a v' → Q' a v') (h : wp A p Q v) : wp A p Q' v := by
  induction p generalizing v with
  | ret a => exact hQ a v h
  | call o k ih => exact ⟨h.1, fun r v' hr => ih r (h.2 r v' hr)⟩

/-- A program that performs permitted operations only. -/
theorem wp_of_uses {Φ : I.Op → Prop} (hpre : ∀ o v, Φ o → A.pre o v) {p : Program I α}
    (hp : Uses Φ p) (v : ν) : wp A p (fun _ _ => True) v := by
  induction p generalizing v with
  | ret a => trivial
  | call o k ih => exact ⟨hpre o v hp.1, fun r v' _ => ih r (hp.2 r) v'⟩

/-! ## What a trace leaves behind -/

section Recording

variable {f : ν → Performed I → ν}

variable (f) in
/-- Operations that may respond anything, and are only recorded. -/
def recording : Spec I ν where
  pre _ _ := True
  post o v r v' := v' = f v ⟨o, r⟩

theorem wp_recording_call {o : I.Op} {k : I.Res o → Program I α} {Q : α → ν → Prop} {v : ν} :
    wp (recording f) (.call o k) Q v ↔ ∀ r, wp (recording f) (k r) Q (f v ⟨o, r⟩) := by
  rw [wp_call]
  exact ⟨fun h r => h.2 r _ rfl, fun h => ⟨trivial, fun r _ hv => hv ▸ h r⟩⟩

/-- A postcondition holds of what is recorded along every trace. -/
theorem wp_recording_iff {p : Program I α} {Q : α → ν → Prop} {v : ν} :
    wp (recording f) p Q v ↔ ∀ tr a, Runs p tr a → Q a (tr.foldl f v) := by
  induction p generalizing v with
  | ret a =>
      constructor
      · intro h tr b hruns
        cases hruns
        exact h
      · intro h
        exact h [] a .ret
  | call o k ih =>
      simp only [wp_recording_call, ih]
      constructor
      · intro h tr a hruns
        cases hruns with
        | call hk => exact h _ _ a hk
      · intro h r tr a hk
        exact h (⟨o, r⟩ :: tr) a (.call hk)

/-- A postcondition holds of what is recorded along a trace that can be replayed. -/
theorem wp_recording_replay [DecidableEq I.Op] {p : Program I α} {Q : α → ν → Prop} {v : ν}
    {tr : List (Performed I)} {a : α} (h : wp (recording f) p Q v) (hreplay : replay p tr = some a) :
    Q a (tr.foldl f v) :=
  wp_recording_iff.mp h tr a (replay_eq_some.mp hreplay)

end Recording

end Program
end Base
