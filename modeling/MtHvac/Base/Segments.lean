-- SUMMARY: Sequences of segments written one after the other behind a separator, and where one such text occurs in another.
import Mathlib.Data.List.Infix

/-!
# Separated segments

`joined sep cs` writes every segment behind a separator, as an absolute file path
writes its components. The question is what an occurrence of one such text in
another says about the segments.
-/

namespace Base.Segments

universe u

variable {α : Type u}

/-- The segments, each behind a separator. -/
def joined (sep : α) : List (List α) → List α
  | []      => []
  | c :: cs => sep :: c ++ joined sep cs

/-- No segment contains the separator. -/
def Free (sep : α) (cs : List (List α)) : Prop := ∀ c ∈ cs, sep ∉ c

instance [DecidableEq α] (sep : α) (cs : List (List α)) : Decidable (Free sep cs) :=
  inferInstanceAs (Decidable (∀ c ∈ cs, sep ∉ c))

/-- The segments `ds` stand at the start of `cs`, the last one perhaps only as the
beginning of a segment. -/
def Starts : List (List α) → List (List α) → Prop
  | [], _               => True
  | _ :: _, []          => False
  | [d], c :: _         => d <+: c
  | d :: d' :: ds, c :: cs => d = c ∧ Starts (d' :: ds) cs

/-- The segments `ds` stand in a row somewhere in `cs`, the last one perhaps only as
the beginning of a segment. -/
def Occurs (ds cs : List (List α)) : Prop := ∃ rest, rest <:+ cs ∧ Starts ds rest

variable {sep : α}

@[simp] theorem joined_nil : joined sep [] = [] := rfl

@[simp] theorem joined_cons (c : List α) (cs : List (List α)) :
    joined sep (c :: cs) = sep :: (c ++ joined sep cs) := rfl

theorem joined_append (cs cs' : List (List α)) :
    joined sep (cs ++ cs') = joined sep cs ++ joined sep cs' := by
  induction cs with
  | nil => rfl
  | cons c cs ih => simp [ih]

theorem joined_eq_nil {cs : List (List α)} : joined sep cs = [] ↔ cs = [] := by
  cases cs <;> simp

theorem Free.of_cons {c : List α} {cs : List (List α)} (h : Free sep (c :: cs)) :
    sep ∉ c ∧ Free sep cs :=
  ⟨h c List.mem_cons_self, fun d hd => h d (List.mem_cons_of_mem _ hd)⟩

/-! ## The start of a text -/

theorem starts_of_prefix {ds cs : List (List α)} (h : ds <+: cs) : Starts ds cs := by
  induction ds generalizing cs with
  | nil => trivial
  | cons d ds ih =>
      cases cs with
      | nil => cases List.prefix_nil.mp h
      | cons c cs =>
          obtain ⟨rfl, hrest⟩ := List.cons_prefix_cons.mp h
          cases ds with
          | nil => exact List.prefix_rfl
          | cons d' ds => exact ⟨rfl, ih hrest⟩

/-- A segment that is followed by more segments ends at the first separator. -/
theorem prefix_append_joined {d c : List α} {l : List α} {cs : List (List α)} (hd : sep ∉ d)
    (hc : sep ∉ c) : d ++ sep :: l <+: c ++ joined sep cs ↔ d = c ∧ sep :: l <+: joined sep cs := by
  induction d generalizing c with
  | nil =>
      cases c with
      | nil => simp
      | cons a c =>
          have hne : sep ≠ a := fun h => hc (h ▸ List.mem_cons_self)
          simp [hne]
  | cons b d ih =>
      rw [List.mem_cons, not_or] at hd
      cases c with
      | nil =>
          cases cs with
          | nil => simp
          | cons c' cs => simp [Ne.symm hd.1]
      | cons a c =>
          rw [List.mem_cons, not_or] at hc
          simp [ih hd.2 hc.2, and_assoc]

/-- The last segment of a text is a beginning of the segment that it meets. -/
theorem prefix_segment {d c : List α} {cs : List (List α)} (hd : sep ∉ d) :
    d <+: c ++ joined sep cs ↔ d <+: c := by
  constructor
  · intro h
    rcases List.prefix_or_prefix_of_prefix h (List.prefix_append c _) with hc | ⟨e, rfl⟩
    · exact hc
    -- what is left of `d` behind `c` would begin with a separator
    · cases e with
      | nil => simp
      | cons a e =>
          rw [List.prefix_append_right_inj] at h
          cases cs with
          | nil => cases List.prefix_nil.mp h
          | cons c' cs =>
              obtain ⟨rfl, _⟩ := List.cons_prefix_cons.mp h
              exact absurd (List.mem_append_right c List.mem_cons_self) hd
  · intro h
    exact h.trans (List.prefix_append c _)

/-- One text begins another exactly if its segments stand at the start. -/
theorem joined_prefix_iff {ds cs : List (List α)} (hds : Free sep ds) (hcs : Free sep cs) :
    joined sep ds <+: joined sep cs ↔ Starts ds cs := by
  induction ds generalizing cs with
  | nil => simp [Starts]
  | cons d ds ih =>
      obtain ⟨hd, hds⟩ := hds.of_cons
      cases cs with
      | nil => simp [Starts]
      | cons c cs =>
          obtain ⟨hc, hcs⟩ := hcs.of_cons
          cases ds with
          | nil => simp [Starts, prefix_segment hd]
          | cons d' ds =>
              have htail := ih hds hcs
              simp only [joined_cons] at htail
              simp [Starts, prefix_append_joined hd hc, htail]

/-! ## Occurrences -/

/-- A text that begins with the separator does not begin within a segment. -/
theorem infix_append_iff {c l m : List α} (hc : sep ∉ c) : sep :: l <:+: c ++ m ↔ sep :: l <:+: m := by
  induction c with
  | nil => rfl
  | cons a c ih =>
      rw [List.mem_cons, not_or] at hc
      simp [List.infix_cons_iff, hc.1, ih hc.2]

/-- A text occurs in another exactly if its segments do. -/
theorem joined_infix_iff {ds cs : List (List α)} (hne : ds ≠ []) (hds : Free sep ds)
    (hcs : Free sep cs) : joined sep ds <:+: joined sep cs ↔ Occurs ds cs := by
  obtain ⟨d, ds, rfl⟩ := List.exists_cons_of_ne_nil hne
  induction cs with
  | nil => simp [Occurs, Starts]
  | cons c cs ih =>
      have hstart := joined_prefix_iff hds hcs
      obtain ⟨hc, hcs⟩ := hcs.of_cons
      have hrest := ih hcs
      simp only [joined_cons] at hstart hrest ⊢
      rw [List.infix_cons_iff, hstart, infix_append_iff hc, hrest]
      constructor
      · rintro (h | ⟨rest, hrest, h⟩)
        · exact ⟨c :: cs, List.suffix_rfl, h⟩
        · exact ⟨rest, hrest.trans (List.suffix_cons c cs), h⟩
      · rintro ⟨rest, hrest, h⟩
        rcases List.suffix_cons_iff.mp hrest with rfl | hrest
        · exact .inl h
        · exact .inr ⟨rest, hrest, h⟩

end Base.Segments
