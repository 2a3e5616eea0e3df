-- SUMMARY: Partial tables with the lookup, assignment, erasure and inserting lookup of an associative container.
import Mathlib.Logic.Function.Basic

/-!
# Tables

A finite-map container as a partial function. `touch` is the lookup `m[k]` of a
container that creates a default entry for a missing key; `entry` is the value
that lookup returns.
-/

namespace Base

universe u v

abbrev Table (κ : Type u) (α : Type v) := κ → Option α

namespace Table

variable {κ : Type u} {α : Type v}

def empty : Table κ α := fun _ => none

@[simp] theorem empty_apply (k : κ) : (empty : Table κ α) k = none := rfl

variable [DecidableEq κ]

def set (m : Table κ α) (k : κ) (a : α) : Table κ α :=
  fun k' => if k' = k then some a else m k'

def erase (m : Table κ α) (k : κ) : Table κ α :=
  fun k' => if k' = k then none else m k'

/-- The value of `m[k]`: the default `d` where `k` has no entry. -/
def entry (m : Table κ α) (k : κ) (d : α) : α := (m k).getD d

/-- The table after evaluating `m[k]`. -/
def touch (m : Table κ α) (k : κ) (d : α) : Table κ α := m.set k (m.entry k d)

/-- The table after changing the value at `k`, if there is one. -/
def update (m : Table κ α) (k : κ) (f : α → α) : Table κ α :=
  fun k' => if k' = k then (m k).map f else m k'

@[simp] theorem set_self (m : Table κ α) (k : κ) (a : α) : m.set k a k = some a := by
  simp [set]

@[simp] theorem set_of_ne (m : Table κ α) {k k' : κ} (a : α) (h : k' ≠ k) :
    m.set k a k' = m k' := by
  simp [set, h]

theorem set_apply (m : Table κ α) (k k' : κ) (a : α) :
    m.set k a k' = if k' = k then some a else m k' := rfl

@[simp] theorem erase_self (m : Table κ α) (k : κ) : m.erase k k = none := by
  simp [erase]

@[simp] theorem erase_of_ne (m : Table κ α) {k k' : κ} (h : k' ≠ k) : m.erase k k' = m k' := by
  simp [erase, h]

theorem erase_eq_some {m : Table κ α} {k k' : κ} {a : α} :
    m.erase k k' = some a ↔ k' ≠ k ∧ m k' = some a := by
  simp [erase]

omit [DecidableEq κ] in
/-- A key that is present is not one that is missing. -/
theorem ne_of_none {m : Table κ α} {k k' : κ} {a : α} (hnone : m k = none)
    (hsome : m k' = some a) : k' ≠ k := by
  rintro rfl
  cases hnone.symm.trans hsome

omit [DecidableEq κ] in
@[simp] theorem entry_of_some {m : Table κ α} {k : κ} {a d : α} (h : m k = some a) :
    m.entry k d = a := by
  simp [entry, h]

theorem touch_apply (m : Table κ α) (k k' : κ) (d : α) :
    m.touch k d k' = if k' = k then some (m.entry k d) else m k' := rfl

/-- Assigning the value that is there changes nothing. -/
theorem set_of_some {m : Table κ α} {k : κ} {a : α} (h : m k = some a) : m.set k a = m := by
  funext k'
  rw [set_apply]
  split
  · next hk => rw [hk, h]
  · rfl

/-- The inserting lookup changes nothing where the key is present. -/
theorem touch_of_some {m : Table κ α} {k : κ} {a d : α} (h : m k = some a) :
    m.touch k d = m := by
  rw [touch, entry_of_some h]
  exact set_of_some h

@[simp] theorem touch_of_ne (m : Table κ α) {k k' : κ} (d : α) (h : k' ≠ k) :
    m.touch k d k' = m k' := by
  simp [touch_apply, h]

/-- The inserting lookup keeps every entry. -/
theorem touch_eq_some {m : Table κ α} {k k' : κ} {a d : α} (h : m k' = some a) :
    m.touch k d k' = some a := by
  rw [touch_apply]
  split
  · next hk =>
      subst hk
      rw [entry_of_some h]
  · exact h

/-- The lookup answers the same after it inserted. -/
@[simp] theorem entry_touch (m : Table κ α) (k : κ) (d : α) :
    (m.touch k d).entry k d = m.entry k d := by
  simp [entry, touch]

@[simp] theorem update_self (m : Table κ α) (k : κ) (f : α → α) :
    m.update k f k = (m k).map f := by
  simp [update]

@[simp] theorem update_of_ne (m : Table κ α) {k k' : κ} (f : α → α) (h : k' ≠ k) :
    m.update k f k' = m k' := by
  simp [update, h]

/-- A value that was just assigned is changed. -/
theorem update_set (m : Table κ α) (k : κ) (a : α) (f : α → α) :
    (m.set k a).update k f = m.set k (f a) := by
  funext k'
  by_cases h : k' = k
  · subst h
    simp
  · simp [h]

end Table
end Base
