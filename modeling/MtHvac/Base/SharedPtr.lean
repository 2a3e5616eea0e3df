-- SUMMARY: Counted references: a count for each object that says how many references lead to it, and how copies, releases and assignments keep it.
import Mathlib.Data.Finset.Card
import Mathlib.Logic.Function.Basic

/-!
# Counted references

Each reference leads to one object or to none. The objects keep counts; an object
is alive while its count is positive. That the counts are right is what makes
destroying an object at the last release safe, and leaves no object behind.
-/

namespace Base

universe u v

variable {α : Type u} {ρ : Type v}

/-- The count of each object is the number of the references that lead to it. -/
def Counted (count : α → Nat) (holds : ρ → Option α) : Prop :=
  ∀ a, ∃ H : Finset ρ, (∀ r, r ∈ H ↔ holds r = some a) ∧ H.card = count a

namespace Counted

variable {count : α → Nat} {holds : ρ → Option α} {a b : α} {r r' : ρ}

theorem nowhere : Counted (fun _ : α => 0) (fun _ : ρ => none) := fun _ =>
  ⟨∅, fun r => ⟨fun h => absurd h (Finset.notMem_empty r), nofun⟩, rfl⟩

theorem pos (h : Counted count holds) (hr : holds r = some a) : 0 < count a := by
  obtain ⟨H, hmem, hcard⟩ := h a
  rw [← hcard]
  exact Finset.card_pos.mpr ⟨r, (hmem r).mpr hr⟩

/-- What is alive is held. -/
theorem holder (h : Counted count holds) (ha : 0 < count a) : ∃ r, holds r = some a := by
  obtain ⟨H, hmem, hcard⟩ := h a
  rw [← hcard] at ha
  obtain ⟨r, hr⟩ := Finset.card_pos.mp ha
  exact ⟨r, (hmem r).mp hr⟩

/-- The last reference is the only one. -/
theorem only (h : Counted count holds) (ha : count a = 1) (hr : holds r = some a)
    (hr' : holds r' = some a) : r' = r := by
  obtain ⟨H, hmem, hcard⟩ := h a
  rw [ha] at hcard
  obtain ⟨r₀, rfl⟩ := Finset.card_eq_one.mp hcard
  rw [Finset.mem_singleton.mp ((hmem r).mpr hr), Finset.mem_singleton.mp ((hmem r').mpr hr')]

variable [DecidableEq α] [DecidableEq ρ]

/-- A reference that leads nowhere is made to lead to `a`. -/
theorem copy (h : Counted count holds) (hr : holds r = none) :
    Counted (Function.update count a (count a + 1)) (Function.update holds r (some a)) := by
  intro b
  obtain ⟨H, hmem, hcard⟩ := h b
  by_cases hb : b = a
  · subst hb
    have hnew : r ∉ H := fun hin => by cases hr.symm.trans ((hmem r).mp hin)
    refine ⟨insert r H, fun r' => ?_, ?_⟩
    · by_cases hr' : r' = r
      · subst hr'
        simp
      · simp [hr', hmem]
    · rw [Finset.card_insert_of_notMem hnew, hcard, Function.update_self]
  · refine ⟨H, fun r' => ?_, by rw [Function.update_of_ne hb, hcard]⟩
    by_cases hr' : r' = r
    · subst hr'
      simp [hmem, hr, Ne.symm hb]
    · simp [hr', hmem]

/-- A reference to `a` is dropped. -/
theorem release (h : Counted count holds) (hr : holds r = some a) :
    Counted (Function.update count a (count a - 1)) (Function.update holds r none) := by
  intro b
  obtain ⟨H, hmem, hcard⟩ := h b
  by_cases hb : b = a
  · subst hb
    refine ⟨H.erase r, fun r' => ?_, ?_⟩
    · by_cases hr' : r' = r
      · subst hr'
        simp
      · simp [hr', hmem]
    · rw [Finset.card_erase_of_mem ((hmem r).mpr hr), hcard, Function.update_self]
  · refine ⟨H, fun r' => ?_, by rw [Function.update_of_ne hb, hcard]⟩
    by_cases hr' : r' = r
    · subst hr'
      simp [hmem, hr, Ne.symm hb]
    · simp [hr', hmem]

/-- A reference to `b` is made to lead to `a`, another object: the new one is counted before
the old one is dropped. -/
theorem assign (h : Counted count holds) (hr : holds r = some b) (hne : b ≠ a) :
    Counted (Function.update (Function.update count a (count a + 1)) b (count b - 1))
      (Function.update holds r (some a)) := by
  have hstep := @copy _ _ _ _ a r _ _ (h.release hr) (Function.update_self ..)
  rwa [Function.update_of_ne hne.symm, Function.update_idem, Function.update_comm hne] at hstep

end Counted
end Base
