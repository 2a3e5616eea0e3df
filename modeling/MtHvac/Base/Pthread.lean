-- SUMMARY: POSIX thread primitives: a mutex with its condition variable, and a reader-writer lock.
import Mathlib.Data.Finset.Basic
import MtHvac.Base.Machine

/-!
# Thread primitives

Each operation is one atomic step, `none` where the calling thread has to wait.
A wake-up moves a thread out of `waiting`; the thread then competes for the
mutex like any other before `pthread_cond_wait` returns.
-/

namespace Base

universe u

/-! ## Mutex and condition variable -/

/-- A mutex with the condition variable used under it. `waiting t` says that the
thread `t` is blocked in `pthread_cond_wait` and no wake-up has reached it. -/
structure Monitor (τ : Type u) where
  owner : Option τ
  waiting : τ → Bool

namespace Monitor

variable {τ : Type u} [DecidableEq τ]

def init : Monitor τ where
  owner := none
  waiting := fun _ => false

def lock (m : Monitor τ) (t : τ) : Option (Monitor τ) :=
  guarded (m.owner = none) { m with owner := some t }

def unlock (m : Monitor τ) (t : τ) : Option (Monitor τ) :=
  guarded (m.owner = some t) { m with owner := none }

/-- `pthread_cond_wait`: release the mutex and block, in one step. -/
def condWait (m : Monitor τ) (t : τ) : Option (Monitor τ) :=
  guarded (m.owner = some t)
    { owner := none, waiting := fun t' => if t' = t then true else m.waiting t' }

/-- One wake-up, delivered by a signal or spuriously. -/
def wake (m : Monitor τ) (t : τ) : Monitor τ :=
  { m with waiting := fun t' => if t' = t then false else m.waiting t' }

/-- Return from `pthread_cond_wait` after a wake-up: take the mutex again. -/
def reacquire (m : Monitor τ) (t : τ) : Option (Monitor τ) :=
  guarded (m.owner = none ∧ m.waiting t = false) { m with owner := some t }

/-- `pthread_cond_broadcast`. -/
def broadcast (m : Monitor τ) : Monitor τ := { m with waiting := fun _ => false }

omit [DecidableEq τ] in
@[simp] theorem lock_eq_some {m m' : Monitor τ} {t : τ} :
    m.lock t = some m' ↔ m.owner = none ∧ { m with owner := some t } = m' := by
  simp [lock]

@[simp] theorem unlock_eq_some {m m' : Monitor τ} {t : τ} :
    m.unlock t = some m' ↔ m.owner = some t ∧ { m with owner := none } = m' := by
  simp [unlock]

@[simp] theorem condWait_eq_some {m m' : Monitor τ} {t : τ} :
    m.condWait t = some m' ↔ m.owner = some t ∧
      { owner := none, waiting := fun t' => if t' = t then true else m.waiting t' } = m' := by
  simp [condWait]

omit [DecidableEq τ] in
@[simp] theorem reacquire_eq_some {m m' : Monitor τ} {t : τ} :
    m.reacquire t = some m' ↔
      (m.owner = none ∧ m.waiting t = false) ∧ { m with owner := some t } = m' := by
  simp [reacquire]

@[simp] theorem wake_owner (m : Monitor τ) (t : τ) : (m.wake t).owner = m.owner := rfl

@[simp] theorem wake_waiting_self (m : Monitor τ) (t : τ) : (m.wake t).waiting t = false := by
  simp [wake]

end Monitor

/-! ## Reader-writer lock -/

structure RwLock (τ : Type u) where
  writer : Option τ
  readers : Finset τ
deriving DecidableEq

namespace RwLock

variable {τ : Type u}

/-- `pthread_rwlock_init`, on a held lock too. -/
def init : RwLock τ where
  writer := none
  readers := ∅

def Held (l : RwLock τ) : Prop := l.writer ≠ none ∨ l.readers ≠ ∅

variable [DecidableEq τ]

instance (l : RwLock τ) : Decidable l.Held := inferInstanceAs (Decidable (_ ∨ _))

/-- `pthread_rwlock_rdlock` or, for a writer, `pthread_rwlock_wrlock`. -/
def acquire (l : RwLock τ) (t : τ) (writes : Bool) : Option (RwLock τ) :=
  if writes then guarded (l.writer = none ∧ l.readers = ∅) { l with writer := some t }
  else guarded (l.writer = none) { l with readers := insert t l.readers }

/-- `pthread_rwlock_unlock`. -/
def release (l : RwLock τ) (t : τ) : RwLock τ where
  writer := if l.writer = some t then none else l.writer
  readers := l.readers.erase t

/-- The thread `t` holds the lock, as a writer or as a reader. -/
def HeldBy (l : RwLock τ) (t : τ) (writes : Bool) : Prop :=
  if writes then l.writer = some t else t ∈ l.readers

omit [DecidableEq τ] in
@[simp] theorem not_held_init : ¬ (init : RwLock τ).Held := by simp [init, Held]

omit [DecidableEq τ] in
theorem held_iff {l : RwLock τ} : l.Held ↔ ∃ t writes, l.HeldBy t writes := by
  constructor
  · rintro (h | h)
    · obtain ⟨t, ht⟩ := Option.ne_none_iff_exists'.mp h
      exact ⟨t, true, by simpa [HeldBy] using ht⟩
    · obtain ⟨t, ht⟩ := Finset.nonempty_iff_ne_empty.mpr h
      exact ⟨t, false, by simpa [HeldBy] using ht⟩
  · rintro ⟨t, writes, h⟩
    cases writes with
    | true => exact .inl (by simp only [HeldBy, if_true] at h; simp [h])
    | false =>
        simp only [HeldBy, Bool.false_eq_true, if_false] at h
        exact .inr (Finset.ne_empty_of_mem h)

/-- Whoever gets the lock, nobody else holds it in a mode that excludes the new one. -/
theorem acquire_excludes {l l' : RwLock τ} {t t' : τ} {writes writes' : Bool}
    (h : l.acquire t writes = some l') (hheld : l.HeldBy t' writes') :
    writes = false ∧ writes' = false := by
  cases writes <;> cases writes' <;>
    simp only [acquire, HeldBy, Bool.false_eq_true, if_false, if_true, guarded_eq_some] at h hheld
  · exact ⟨rfl, rfl⟩
  · simp [h.1] at hheld
  · simp [h.1.2] at hheld
  · simp [h.1.1] at hheld

/-- Acquiring adds one holder. -/
theorem heldBy_acquire {l l' : RwLock τ} {t t' : τ} {writes writes' : Bool}
    (h : l.acquire t writes = some l') :
    l'.HeldBy t' writes' ↔ (t' = t ∧ writes' = writes) ∨ l.HeldBy t' writes' := by
  cases writes <;> cases writes' <;>
    simp only [acquire, HeldBy, Bool.false_eq_true, if_false, if_true, guarded_eq_some] at h ⊢ <;>
    obtain ⟨hfree, rfl⟩ := h <;> simp [hfree, eq_comm]

/-- Releasing takes one holder away. -/
theorem heldBy_release {l : RwLock τ} {t t' : τ} {writes' : Bool} :
    (l.release t).HeldBy t' writes' ↔ t' ≠ t ∧ l.HeldBy t' writes' := by
  cases writes' with
  | false => simp [release, HeldBy]
  | true =>
      by_cases h : l.writer = some t
      · simp [release, HeldBy, h, eq_comm]
      · simp only [release, HeldBy, h, if_true, if_false]
        exact ⟨fun hw => ⟨fun ht => h (ht ▸ hw), hw⟩, And.right⟩

end RwLock
end Base
