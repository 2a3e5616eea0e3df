-- SUMMARY: Slices of a sequence, extents that continue one another, reads through cursors, and overwriting.
import Mathlib.Data.List.Basic
import Mathlib.Data.List.Infix
import Mathlib.Logic.Function.Basic

/-!
# Extents

An extent is a piece cut out of a sequence together with the place where it was
cut. Extents that continue one another glue together to one slice.
-/

namespace Base

universe u v

variable {α : Type u}

/-- At most `n` elements of `data` from the position `pos` on. -/
def slice (data : List α) (pos n : Nat) : List α := (data.drop pos).take n

@[simp] theorem slice_zero (data : List α) (pos : Nat) : slice data pos 0 = [] := by
  simp [slice]

@[simp] theorem slice_nil (pos n : Nat) : slice ([] : List α) pos n = [] := by
  simp [slice]

theorem length_slice (data : List α) (pos n : Nat) :
    (slice data pos n).length = min n (data.length - pos) := by
  simp [slice]

theorem slice_length_le (data : List α) (pos n : Nat) : (slice data pos n).length ≤ n := by
  rw [length_slice]
  exact Nat.min_le_left _ _

/-- A slice asked for in its own length is the slice. -/
theorem slice_length_self (data : List α) (pos n : Nat) :
    slice data pos (slice data pos n).length = slice data pos n := by
  simp only [slice, List.length_take, List.length_drop]
  rw [List.take_eq_take_iff]
  simp

/-- Slices from one place are the same if they take as much of what is there. -/
theorem slice_eq_slice_iff {data : List α} {pos n m : Nat} :
    slice data pos n = slice data pos m ↔
      min n (data.length - pos) = min m (data.length - pos) := by
  simp only [slice, List.take_eq_take_iff, List.length_drop]

theorem slice_append (data : List α) (pos n m : Nat) :
    slice data pos n ++ slice data (pos + n) m = slice data pos (n + m) := by
  simp only [slice, ← List.drop_drop]
  exact List.take_add.symm

theorem slice_start_prefix (data : List α) (n : Nat) : slice data 0 n <+: data := by
  simpa [slice] using List.take_prefix n data

theorem slice_prefix_drop (data : List α) (pos n : Nat) : slice data pos n <+: data.drop pos :=
  List.take_prefix n (data.drop pos)

theorem slice_eq_nil {data : List α} {pos n : Nat} :
    slice data pos n = [] ↔ n = 0 ∨ data.length ≤ pos := by
  rw [← List.length_eq_zero_iff, length_slice]
  omega

/-! ## Extents that continue one another -/

structure Extent (α : Type u) where
  start : Nat
  items : List α
deriving DecidableEq

/-- The extent holds what `data` has at its place. -/
def Extent.CutFrom (x : Extent α) (data : List α) : Prop :=
  x.items = slice data x.start x.items.length

/-- Each extent starts where the one before it ended, the first at `pos`; an
empty extent repeats and skips nothing, wherever it starts. -/
def Continues (pos : Nat) : List (Extent α) → Prop
  | []      => True
  | x :: xs => (x.items = [] ∨ x.start = pos) ∧ Continues (pos + x.items.length) xs

/-- The items of the extents, glued together. -/
def glue (xs : List (Extent α)) : List α := xs.flatMap Extent.items

@[simp] theorem glue_nil : glue ([] : List (Extent α)) = [] := rfl

@[simp] theorem glue_cons (x : Extent α) (xs : List (Extent α)) :
    glue (x :: xs) = x.items ++ glue xs := rfl

@[simp] theorem continues_nil (pos : Nat) : Continues pos ([] : List (Extent α)) := trivial

@[simp] theorem continues_cons (pos : Nat) (x : Extent α) (xs : List (Extent α)) :
    Continues pos (x :: xs) ↔
      (x.items = [] ∨ x.start = pos) ∧ Continues (pos + x.items.length) xs := Iff.rfl

theorem Continues.glue_eq {data : List α} {xs : List (Extent α)} {pos : Nat}
    (hcut : ∀ x ∈ xs, x.CutFrom data) (h : Continues pos xs) :
    glue xs = slice data pos (glue xs).length := by
  induction xs generalizing pos with
  | nil => simp
  | cons x xs ih =>
      obtain ⟨hx, hxs⟩ := h
      have hx' : x.items = slice data pos x.items.length := by
        rcases hx with hnil | hstart
        · simp [hnil]
        · exact hstart ▸ hcut x List.mem_cons_self
      have hrest := ih (fun y hy => hcut y (List.mem_cons_of_mem x hy)) hxs
      rw [glue_cons, List.length_append, ← slice_append, ← hx', ← hrest]

/-- Extents of `data` that continue one another from its start glue to a prefix of it. -/
theorem Continues.glue_prefix {data : List α} {xs : List (Extent α)}
    (hcut : ∀ x ∈ xs, x.CutFrom data) (h : Continues 0 xs) : glue xs <+: data := by
  rw [h.glue_eq hcut]
  exact slice_start_prefix data _

/-! ## Reading through cursors -/

section Cursors

variable {ι : Type v} [DecidableEq ι]

/-- Reads of given sizes, each through one of several cursors. A read moves its
own cursor and no other. -/
def readThrough (data : List α) : (ι → Nat) → List (ι × Nat) → List (Extent α)
  | _, []             => []
  | pos, (i, n) :: rs =>
      ⟨pos i, slice data (pos i) n⟩ ::
        readThrough data (Function.update pos i (pos i + (slice data (pos i) n).length)) rs

theorem readThrough_cutFrom (data : List α) (pos : ι → Nat) (rs : List (ι × Nat)) :
    ∀ x ∈ readThrough data pos rs, x.CutFrom data := by
  induction rs generalizing pos with
  | nil => simp [readThrough]
  | cons r rs ih =>
      simp only [readThrough, List.mem_cons, forall_eq_or_imp]
      exact ⟨(slice_length_self data _ _).symm, ih _⟩

/-- Once a single cursor has moved, all reads have to go through it. -/
theorem continues_readThrough_of_moved {data : List α} {pos : ι → Nat} {i : ι} (hmoved : 0 < pos i)
    (hwithin : pos i ≤ data.length) (hothers : ∀ j, j ≠ i → pos j = 0) (rs : List (ι × Nat)) :
    Continues (pos i) (readThrough data pos rs) ↔ ∀ r ∈ rs, r.2 ≠ 0 → r.1 = i := by
  induction rs generalizing pos with
  | nil => simp [readThrough]
  | cons r rs ih =>
      obtain ⟨j, n⟩ := r
      simp only [readThrough, continues_cons, List.mem_cons, forall_eq_or_imp]
      by_cases hj : j = i
      · subst hj
        have hlen := length_slice data (pos j) n
        have hrest := @ih (Function.update pos j (pos j + (slice data (pos j) n).length))
          (by simp only [Function.update_self]; omega)
          (by simp only [Function.update_self]; omega)
          (fun k hk => by rw [Function.update_of_ne hk]; exact hothers k hk)
        rw [Function.update_self] at hrest
        simp [hrest]
      · -- this cursor stands at the start
        have hlen : (slice data (pos j) n).length = min n data.length := by
          rw [length_slice, hothers j hj, Nat.sub_zero]
        by_cases hn : n = 0
        · subst hn
          simpa using ih hmoved hwithin hothers
        · have hne : slice data (pos j) n ≠ [] := by
            intro hnil
            rw [hnil, List.length_nil] at hlen
            omega
          have hstart : pos j ≠ pos i := by
            rw [hothers j hj]
            exact hmoved.ne
          simp [hne, hstart, hn, hj]

/-- Reads through cursors that all stand at the start continue one another if and
only if all that ask for something go through the same one. -/
theorem continues_readThrough_iff (data : List α) (rs : List (ι × Nat)) :
    Continues 0 (readThrough data (fun _ => 0) rs) ↔
      data = [] ∨ ∀ r ∈ rs, ∀ r' ∈ rs, r.2 ≠ 0 → r'.2 ≠ 0 → r.1 = r'.1 := by
  rcases data with _ | ⟨a, data⟩
  · have hnil : ∀ (pos : ι → Nat) k, Continues k (readThrough ([] : List α) pos rs) := by
      induction rs with
      | nil => simp [readThrough]
      | cons r rs ih => simp [readThrough, ih]
    simp [hnil]
  induction rs with
  | nil => simp [readThrough]
  | cons r rs ih =>
      obtain ⟨i, n⟩ := r
      by_cases hn : n = 0
      · subst hn
        simpa [readThrough] using ih
      · -- the first read that asks for something moves its cursor
        have hlen : 0 < (slice (a :: data) 0 n).length ∧
            (slice (a :: data) 0 n).length ≤ (a :: data).length := by
          rw [length_slice]
          simp only [List.length_cons]
          omega
        have hrest := @continues_readThrough_of_moved _ _ _ (a :: data)
          (Function.update (fun _ : ι => 0) i (slice (a :: data) 0 n).length) i
          (by rw [Function.update_self]; exact hlen.1)
          (by rw [Function.update_self]; exact hlen.2)
          (fun j hj => by rw [Function.update_of_ne hj]) rs
        rw [Function.update_self] at hrest
        simp only [readThrough, continues_cons, or_true, true_and, Nat.zero_add, hrest,
          reduceCtorEq, false_or]
        constructor
        · intro h r hr r' hr' hask hask'
          have hsame : ∀ q ∈ (i, n) :: rs, q.2 ≠ 0 → q.1 = i := by
            simpa [hn] using h
          exact (hsame r hr hask).trans (hsame r' hr' hask').symm
        · exact fun h r hr hask => h r (List.mem_cons_of_mem _ hr) (i, n) List.mem_cons_self hask hn

end Cursors

/-! ## Overwriting -/

/-- `data` with `items` from `pos` on; a gap before them is filled with `d`. -/
def overwrite (d : α) (data : List α) (pos : Nat) (items : List α) : List α :=
  match items with
  | [] => data
  | _  =>
      data.take pos ++ List.replicate (pos - data.length) d ++ items ++
        data.drop (pos + items.length)

@[simp] theorem overwrite_nil (d : α) (data : List α) (pos : Nat) : overwrite d data pos [] = data :=
  rfl

theorem overwrite_of_ne_nil (d : α) (data : List α) (pos : Nat) {items : List α} (h : items ≠ []) :
    overwrite d data pos items =
      data.take pos ++ List.replicate (pos - data.length) d ++ items ++
        data.drop (pos + items.length) := by
  cases items with
  | nil => exact absurd rfl h
  | cons a items => rfl

theorem length_overwrite (d : α) (data : List α) (pos : Nat) {items : List α} (h : items ≠ []) :
    (overwrite d data pos items).length = max data.length (pos + items.length) := by
  simp only [overwrite_of_ne_nil d data pos h, List.length_append, List.length_take,
    List.length_replicate, List.length_drop]
  omega

theorem length_le_overwrite (d : α) (data : List α) (pos : Nat) (items : List α) :
    data.length ≤ (overwrite d data pos items).length := by
  by_cases h : items = []
  · simp [h]
  · rw [length_overwrite d data pos h]
    exact Nat.le_max_left _ _

/-- What follows the overwritten place stays. -/
theorem drop_overwrite (d : α) (data : List α) (pos : Nat) (items : List α) :
    (overwrite d data pos items).drop (pos + items.length) = data.drop (pos + items.length) := by
  by_cases h : items = []
  · simp [h]
  · have hlen : (data.take pos ++ List.replicate (pos - data.length) d ++ items).length =
        pos + items.length := by
      simp only [List.length_append, List.length_take, List.length_replicate]
      omega
    rw [overwrite_of_ne_nil d data pos h, ← hlen, List.drop_left]

end Base
