-- SUMMARY: The timing statistics and the detailed call history: what an export of a tag writes, and when that is the current period.
import Mathlib.Algebra.GroupWithZero.Nat
import Mathlib.Data.List.Basic
import MtHvac.Base.Machine
import MtHvac.Base.Table

/-!
# Timing statistics

`mthvac_timer.h`, which the client and the server share. All functions take the same
mutex, so they act one after the other. The durations of the scopes are whatever the
clock says; the totals are exact sums.
-/

namespace MtHvac.Timer

open Base

abbrev Tag := String

/-! ## The tables -/

structure Stat where
  totalUs : Nat
  calls : Nat
deriving DecidableEq

/-- A `Stat` that was just created. -/
def Stat.zero : Stat := ⟨0, 0⟩

structure State where
  table : Table Tag Stat
  detailedLogTags : List Tag
  callHistoryTable : Table Tag (List Nat)

def State.init : State where
  table := .empty
  detailedLogTags := []
  callHistoryTable := .empty

def enableDetailedCallLoggingForTag (s : State) (tag : Tag) : State :=
  { s with detailedLogTags := s.detailedLogTags.insert tag }

def disableDetailedCallLoggingForTag (s : State) (tag : Tag) : State :=
  { s with detailedLogTags := s.detailedLogTags.filter (· ≠ tag) }

/-- `~TimerGuard`. -/
def endScope (s : State) (tag : Tag) (us : Nat) : State :=
  let stat := s.table.entry tag .zero
  let s' := { s with table := s.table.set tag ⟨stat.totalUs + us, stat.calls + 1⟩ }
  if tag ∈ s.detailedLogTags then
    { s' with
      callHistoryTable := s.callHistoryTable.set tag (s.callHistoryTable.entry tag [] ++ [us]) }
  else s'

/-- `clear` on the history of a tag, if there is one. -/
def clearHistory (m : Table Tag (List Nat)) (tag : Tag) : Table Tag (List Nat) :=
  m.update tag fun _ => []

def resetAllStats (s : State) : State :=
  { s with
    table := fun tag => (s.table tag).map fun _ => .zero
    callHistoryTable := s.detailedLogTags.foldl clearHistory s.callHistoryTable }

/-! ## Exports -/

/-- The line for a tag without rows. -/
inductive Note where
  | noCalls
  | notFound
deriving DecidableEq

def Note.text (tag : Tag) : Note → String
  | .noCalls  => "(No calls recorded for this tag in this period/since last reset)\n"
  | .notFound => "(Tag \"" ++ tag ++
      "\" not found in detailed history or not enabled for detailed logging)\n"

/-- What an export of a tag writes: the rows have a call index and a duration. -/
structure Report where
  tag : Tag
  epochNum : Int
  rows : List (Nat × Nat)
  note : Option Note
  callsExported : Nat
deriving DecidableEq

def Report.text (r : Report) : String :=
  "\n=== HVAC Detailed Call History for Tag: \"" ++ r.tag ++ "\" (" ++
    (if 0 ≤ r.epochNum then ", For Client Epoch: " ++ toString r.epochNum else "") ++ ") ===\n" ++
    "Call_Index,Duration_us\n" ++
    String.join (r.rows.map fun (i, us) => toString i ++ "," ++ toString us ++ "\n") ++
    (r.note.map (Note.text r.tag)).getD "" ++
    "--- End of detailed history for tag: \"" ++ r.tag ++ "\" (Exported " ++
    toString r.callsExported ++ " calls) ---\n" ++
    "==============================================================================\n"

def numbered (durations : List Nat) : List (Nat × Nat) :=
  durations.mapIdx fun i us => (i + 1, us)

def State.report (s : State) (tag : Tag) (epochNum : Int) : Report :=
  match s.callHistoryTable tag with
  | some durations =>
      { tag := tag
        epochNum := epochNum
        rows := numbered durations
        note := if durations = [] then some .noCalls else none
        callsExported := durations.length }
  | none =>
      { tag := tag
        epochNum := epochNum
        rows := []
        note := some .notFound
        callsExported := 0 }

/-- `isOpen` tells whether the file could be opened; the error is the message on `cerr`. -/
def exportTagCallHistoryToFile (s : State) (tagToExport : Tag) (filename : Option String)
    (isOpen : Bool) (epochNum : Int) : Except String Report :=
  match filename with
  | none =>
      .error "Error: export_tag_call_history_to_file called with invalid or empty filename."
  | some filename =>
      if filename = "" then
        .error "Error: export_tag_call_history_to_file called with invalid or empty filename."
      else if isOpen then .ok (s.report tagToExport epochNum)
      else
        .error ("Error: Could not open file '" ++ filename ++
          "' for writing detailed call history for tag '" ++ tagToExport ++ "'.")

/-! ## Runs -/

/-- The exports change nothing. -/
inductive Event where
  | enable (tag : Tag)
  | disable (tag : Tag)
  | endScope (tag : Tag) (us : Nat)
  | reset
  | exportTag (tag : Tag) (filename : Option String) (isOpen : Bool) (epochNum : Int)
  | exportAll
deriving DecidableEq

def apply (s : State) : Event → State
  | .enable tag          => enableDetailedCallLoggingForTag s tag
  | .disable tag         => disableDetailedCallLoggingForTag s tag
  | .endScope tag us     => endScope s tag us
  | .reset               => resetAllStats s
  | .exportTag _ _ _ _   => s
  | .exportAll           => s

def machine : Machine State Event where
  init := .init
  step s e := some (apply s e)

/-! ## The current period -/

/-- What happened: the tags that are enabled, and the durations of the scopes of a tag
that ended since the last reset, all of them and those that ended while it was enabled. -/
structure Period where
  enabled : Tag → Bool
  ended : Tag → List Nat
  logged : Tag → List Nat

def Period.init : Period where
  enabled _ := false
  ended _ := []
  logged _ := []

def Period.record (_ : State) (e : Event) (p : Period) : Period :=
  match e with
  | .enable tag      => { p with enabled := Function.update p.enabled tag true }
  | .disable tag     => { p with enabled := Function.update p.enabled tag false }
  | .endScope tag us =>
      { p with
        ended := Function.update p.ended tag (p.ended tag ++ [us])
        logged :=
          if p.enabled tag then Function.update p.logged tag (p.logged tag ++ [us])
          else p.logged }
  | .reset           => { p with ended := fun _ => [], logged := fun _ => [] }
  | _                => p

/-- The statistics with the period that they are to describe. -/
abbrev audited : Machine (State × Period) Event := machine.observed Period.record .init

/-- The counters of a tag and the rows of every export of it are those of the period. -/
structure CurrentPeriod (s : State) (p : Period) (tag : Tag) : Prop where
  history : ∀ filename isOpen epochNum report,
    exportTagCallHistoryToFile s tag filename isOpen epochNum = .ok report →
      report.rows = numbered (p.logged tag)
  calls : (s.table.entry tag .zero).calls = (p.ended tag).length
  total : (s.table.entry tag .zero).totalUs = (p.ended tag).sum

/-! ### The counters -/

/-- The counters follow the period in every state, and so do the enabled tags. -/
structure Counted (x : State × Period) : Prop where
  enabled : ∀ tag, tag ∈ x.1.detailedLogTags ↔ x.2.enabled tag = true
  calls : ∀ tag, (x.1.table.entry tag .zero).calls = (x.2.ended tag).length
  total : ∀ tag, (x.1.table.entry tag .zero).totalUs = (x.2.ended tag).sum

theorem entry_reset (m : Table Tag Stat) (tag : Tag) :
    Table.entry (fun tag => (m tag).map fun _ => Stat.zero) tag .zero = .zero := by
  cases h : m tag <;> simp [Table.entry, h]

theorem Counted.step {s : State} {p : Period} (h : Counted (s, p)) (e : Event) :
    Counted (apply s e, p.record s e) := by
  obtain ⟨henabled, hcalls, htotal⟩ := h
  cases e with
  | enable tag =>
      refine ⟨fun tag' => ?_, hcalls, htotal⟩
      by_cases ht : tag' = tag
      · subst ht
        simp [apply, enableDetailedCallLoggingForTag, Period.record]
      · simpa [apply, enableDetailedCallLoggingForTag, Period.record, ht] using henabled tag'
  | disable tag =>
      refine ⟨fun tag' => ?_, hcalls, htotal⟩
      by_cases ht : tag' = tag
      · subst ht
        simp [apply, disableDetailedCallLoggingForTag, Period.record]
      · simpa [apply, disableDetailedCallLoggingForTag, Period.record, ht] using henabled tag'
  | endScope tag us =>
      have htable : (endScope s tag us).table =
          s.table.set tag ⟨(s.table.entry tag .zero).totalUs + us,
            (s.table.entry tag .zero).calls + 1⟩ := by
        unfold endScope
        split <;> rfl
      have htags : (endScope s tag us).detailedLogTags = s.detailedLogTags := by
        unfold endScope
        split <;> rfl
      refine ⟨fun tag' => ?_, fun tag' => ?_, fun tag' => ?_⟩
      · change tag' ∈ (endScope s tag us).detailedLogTags ↔ _
        rw [htags]
        exact henabled tag'
      · change ((endScope s tag us).table.entry tag' .zero).calls = _
        rw [htable]
        by_cases ht : tag' = tag
        · subst ht
          simp [Table.entry, Period.record, ← hcalls]
        · simpa [Table.entry, Period.record, ht] using hcalls tag'
      · change ((endScope s tag us).table.entry tag' .zero).totalUs = _
        rw [htable]
        by_cases ht : tag' = tag
        · subst ht
          simp [Table.entry, Period.record, ← htotal]
        · simpa [Table.entry, Period.record, ht] using htotal tag'
  | reset =>
      refine ⟨henabled, fun tag => ?_, fun tag => ?_⟩
      · exact congrArg Stat.calls (entry_reset s.table tag)
      · exact congrArg Stat.totalUs (entry_reset s.table tag)
  | exportTag _ _ _ _ | exportAll => exact ⟨henabled, hcalls, htotal⟩

theorem counted_invariant : audited.Invariant Counted := by
  constructor
  · refine ⟨fun tag => ?_, fun _ => rfl, fun _ => rfl⟩
    exact iff_of_false List.not_mem_nil Bool.false_ne_true
  · rintro ⟨s, p⟩ ⟨s', p'⟩ e _ h he
    obtain ⟨hstep, rfl⟩ := Machine.observed_step.mp he
    obtain rfl : apply s e = s' := Option.some.inj hstep
    exact h.step e

/-! ### The rows of an export -/

theorem numbered_snd (durations : List Nat) : (numbered durations).map Prod.snd = durations := by
  apply List.ext_getElem <;> simp [numbered]

theorem report_rows (s : State) (tag : Tag) (epochNum : Int) :
    (s.report tag epochNum).rows = numbered (s.callHistoryTable.entry tag []) := by
  unfold State.report
  split
  · next h => rw [Table.entry_of_some h]
  · next h => simp [Table.entry, h, numbered]

/-- An export that can write its file writes the report of the tag. -/
theorem report_of_export {s : State} {tag : Tag} {filename : Option String} {isOpen : Bool}
    {epochNum : Int} {report : Report}
    (h : exportTagCallHistoryToFile s tag filename isOpen epochNum = .ok report) :
    report = s.report tag epochNum := by
  unfold exportTagCallHistoryToFile at h
  split at h
  · cases h
  · split at h
    · cases h
    · split at h
      · exact (Except.ok.inj h).symm
      · cases h

/-- With the counters right, the exports are right if the recorded history is. -/
theorem currentPeriod_iff {s : State} {p : Period} {tag : Tag} (h : Counted (s, p)) :
    CurrentPeriod s p tag ↔ s.callHistoryTable.entry tag [] = p.logged tag := by
  constructor
  · intro hc
    have hrows : (s.report tag 0).rows = numbered (p.logged tag) :=
      hc.history (some "calls") true 0 _ rfl
    rw [report_rows] at hrows
    rw [← numbered_snd (s.callHistoryTable.entry tag []), hrows, numbered_snd]
  · intro heq
    refine ⟨fun filename isOpen epochNum report hexport => ?_, h.calls tag, h.total tag⟩
    rw [report_of_export hexport, report_rows, heq]

/-! ### The history -/

theorem entry_clearHistory (m : Table Tag (List Nat)) (tag tag' : Tag) :
    (clearHistory m tag).entry tag' [] = if tag' = tag then [] else m.entry tag' [] := by
  by_cases ht : tag' = tag
  · subst ht
    cases h : m tag' <;> simp [clearHistory, Table.entry, h]
  · simp [clearHistory, Table.entry, ht]

/-- The loop over the enabled tags leaves no history for them. -/
theorem entry_foldl_clearHistory (tags : List Tag) (m : Table Tag (List Nat)) (tag : Tag) :
    (tags.foldl clearHistory m).entry tag [] = if tag ∈ tags then [] else m.entry tag [] := by
  induction tags generalizing m with
  | nil => simp
  | cons tag' tags ih =>
      rw [List.foldl_cons, ih, entry_clearHistory]
      by_cases hmem : tag ∈ tags <;> simp [hmem]

theorem entry_endScope (s : State) (tag tag' : Tag) (us : Nat) :
    (endScope s tag us).callHistoryTable.entry tag' [] =
      s.callHistoryTable.entry tag' [] ++
        if tag' = tag ∧ tag ∈ s.detailedLogTags then [us] else [] := by
  unfold endScope
  by_cases ht : tag' = tag
  · subst ht
    by_cases hmem : tag' ∈ s.detailedLogTags <;> simp [hmem, Table.entry]
  · by_cases hmem : tag ∈ s.detailedLogTags <;> simp [hmem, ht, Table.entry]

/-- A reset finds the tag enabled, or no history of it. -/
def ResetClears (s : State) (tag : Tag) (e : Event) : Prop :=
  e = .reset → tag ∈ s.detailedLogTags ∨ s.callHistoryTable.entry tag [] = []

/-- A step keeps the history of a tag to the period, unless it is a reset that leaves
the history of a disabled tag behind. -/
theorem logged_step_iff {s : State} {p : Period} {tag : Tag} (h : Counted (s, p))
    (hlogged : s.callHistoryTable.entry tag [] = p.logged tag) (e : Event) :
    (apply s e).callHistoryTable.entry tag [] = (p.record s e).logged tag ↔ ResetClears s tag e := by
  cases e with
  | reset =>
      change (s.detailedLogTags.foldl clearHistory s.callHistoryTable).entry tag [] = [] ↔ _
      rw [entry_foldl_clearHistory]
      simp [ResetClears]
      tauto
  | endScope tag' us =>
      refine iff_of_true ?_ (by rintro ⟨⟩)
      change (endScope s tag' us).callHistoryTable.entry tag [] = _
      have henabled : tag' ∈ s.detailedLogTags ↔ p.enabled tag' = true := h.enabled tag'
      rw [entry_endScope, hlogged]
      by_cases ht : tag = tag'
      · subst ht
        by_cases hmem : p.enabled tag = true <;> simp [Period.record, henabled, hmem]
      · by_cases hmem : p.enabled tag' = true <;> simp [Period.record, hmem, ht]
  | enable _ | disable _ | exportTag _ _ _ _ | exportAll =>
      exact iff_of_true hlogged (by rintro ⟨⟩)

/-! ## When an export is the current period -/

/-- For a tag, a run keeps the counters and the exports to the current period exactly if
every reset finds the tag enabled, or no history of it. -/
theorem current_period_iff {es : List Event} {tag : Tag} :
    (∀ x, audited.Visits es x → CurrentPeriod x.1 x.2 tag) ↔
      ∀ x e, audited.Takes es x e → ResetClears x.1 tag e := by
  have hinit : CurrentPeriod audited.init.1 audited.init.2 tag :=
    (currentPeriod_iff counted_invariant.init).mpr rfl
  refine Machine.always_iff (M := audited) (P := fun x => CurrentPeriod x.1 x.2 tag) hinit ?_
  rintro ⟨s, p⟩ ⟨s', p'⟩ e hr hperiod he
  have hcounted : Counted (s, p) := counted_invariant.reachable hr
  obtain ⟨hstep, rfl⟩ := Machine.observed_step.mp he
  obtain rfl : apply s e = s' := Option.some.inj hstep
  exact (currentPeriod_iff (hcounted.step e)).trans
    (logged_step_iff hcounted ((currentPeriod_iff hcounted).mp hperiod) e)

/-- A tag is disabled between a scope and a reset. -/
def disabledAtReset : List Event :=
  [.enable "open", .endScope "open" 5, .disable "open", .reset]

/-- The export of a disabled tag still has the row of the period before. -/
theorem stale_after_reset :
    ¬ ∀ (es : List Event) (tag : Tag) (x : State × Period), audited.Visits es x →
      CurrentPeriod x.1 x.2 tag := by
  intro h
  have hmap : (audited.run disabledAtReset).map
      (fun x => ((x.1.report "open" 0).rows, numbered (x.2.logged "open"))) =
        some ([(1, 5)], []) := by
    decide +kernel
  obtain ⟨x, hrun, hx⟩ := Option.map_eq_some_iff.mp hmap
  obtain ⟨hrows, hlogged⟩ := Prod.mk.inj hx
  have hperiod : CurrentPeriod x.1 x.2 "open" := h _ _ x ⟨_, List.prefix_rfl, hrun⟩
  have hexport : (x.1.report "open" 0).rows = numbered (x.2.logged "open") :=
    hperiod.history (some "calls") true 0 _ rfl
  rw [hrows, hlogged] at hexport
  cases hexport

end MtHvac.Timer
