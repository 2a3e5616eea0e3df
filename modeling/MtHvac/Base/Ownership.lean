-- SUMMARY: Memory cells with owners: what writing, allocating and giving back a cell does to the cell of each owner.
import Mathlib.Logic.Function.Basic

/-!
# Owned cells

A memory maps addresses to contents, and `owner` says whose an address is while
it is alive. Here each owner has at most one cell. The content of dead memory is
nobody's, and stays.
-/

namespace Base

universe u v w

variable {α : Type u} {β : Type v} {ι : Type w}
variable {owner : α → Option ι} {content : α → β} {i j : ι} {a : α} {x x' : β}

/-- `cell` is all that `i` owns: an address with its content. -/
def Owns (owner : α → Option ι) (content : α → β) (i : ι) (cell : Option (α × β)) : Prop :=
  ∀ a x, (owner a = some i ∧ content a = x) ↔ cell = some (a, x)

namespace Owns

theorem live (h : Owns owner content i (some (a, x))) : owner a = some i ∧ content a = x :=
  (h a x).mpr rfl

theorem unique {b : α} (h : Owns owner content i (some (a, x))) (hb : owner b = some i) : b = a := by
  have hcell := (h b (content b)).mp ⟨hb, rfl⟩
  exact (Prod.mk.inj (Option.some.inj hcell)).1.symm

theorem dead (h : Owns owner content i none) (b : α) : owner b ≠ some i := fun hb =>
  absurd ((h b (content b)).mp ⟨hb, rfl⟩) nofun

/-- To own a cell is to own its address and no other. -/
theorem intro (hlive : owner a = some i) (hx : content a = x)
    (hunique : ∀ b, owner b = some i → b = a) : Owns owner content i (some (a, x)) := by
  intro b y
  constructor
  · rintro ⟨hb, rfl⟩
    rw [hunique b hb, hx]
  · rintro ⟨⟩
    exact ⟨hlive, hx⟩

theorem none_of_dead (h : ∀ b, owner b ≠ some i) : Owns owner content i none := by
  intro b y
  exact ⟨fun hb => absurd hb.1 (h b), nofun⟩

variable {cell : Option (α × β)}

/-- Changes at addresses that are not the owner's, before and after. -/
theorem frame {owner' : α → Option ι} {content' : α → β} (h : Owns owner content i cell)
    (howner : ∀ b, owner' b = some i ↔ owner b = some i)
    (hcontent : ∀ b, owner b = some i → content' b = content b) : Owns owner' content' i cell := by
  intro b y
  rw [← h b y, howner]
  exact and_congr_right fun hb => by rw [hcontent b hb]

variable [DecidableEq α]

theorem write (h : Owns owner content i (some (a, x))) :
    Owns owner (Function.update content a x') i (some (a, x')) :=
  intro h.live.1 (Function.update_self ..) fun _ => h.unique

theorem write_other (h : Owns owner content j cell) (hlive : owner a = some i) (hj : j ≠ i) :
    Owns owner (Function.update content a x') j cell := by
  refine h.frame (fun _ => Iff.rfl) fun b hb => Function.update_of_ne ?_ _ _
  rintro rfl
  exact hj (Option.some.inj (hb.symm.trans hlive))

theorem alloc (h : Owns owner content i none) :
    Owns (Function.update owner a (some i)) (Function.update content a x) i (some (a, x)) := by
  refine intro (Function.update_self ..) (Function.update_self ..) fun b hb => ?_
  by_contra hne
  rw [Function.update_of_ne hne] at hb
  exact h.dead b hb

theorem alloc_other (h : Owns owner content j cell) (hdead : owner a = none) (hj : j ≠ i) :
    Owns (Function.update owner a (some i)) (Function.update content a x) j cell := by
  refine h.frame (fun b => ?_) fun b hb => Function.update_of_ne ?_ _ _
  · by_cases hb : b = a
    · subst hb
      simp [hdead, Ne.symm hj]
    · rw [Function.update_of_ne hb]
  · rintro rfl
    cases hb.symm.trans hdead

theorem drop (h : Owns owner content i (some (a, x))) :
    Owns (Function.update owner a none) content i none := by
  refine none_of_dead fun b hb => ?_
  by_cases hba : b = a
  · subst hba
    simp at hb
  · rw [Function.update_of_ne hba] at hb
    exact hba (h.unique hb)

theorem drop_other (h : Owns owner content j cell) (hlive : owner a = some i) (hj : j ≠ i) :
    Owns (Function.update owner a none) content j cell := by
  refine h.frame (fun b => ?_) fun _ _ => rfl
  by_cases hb : b = a
  · subst hb
    simp [hlive, Ne.symm hj]
  · rw [Function.update_of_ne hb]

end Owns
end Base
