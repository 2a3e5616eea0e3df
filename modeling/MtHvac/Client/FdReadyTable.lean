-- SUMMARY: The shared descriptor-state objects refine one table of states that each operation changes at one moment.
import MtHvac.Client.FdReadySafety

/-!
# A table of descriptor states

What the shared objects are for: a table from descriptors to states. Each call of
`hvac_set_fd_opening`, `hvac_set_fd_ready`, `hvac_set_fd_error` and
`hvac_cleanup_fd_state` changes it in one of its steps. A call that has a pointer to
an object that left the map meanwhile has no effect on the table.
-/

namespace MtHvac.Client.FdReady

open Base

/-! ## The table -/

namespace States

inductive Event where
  | opened (fd : Int)
  | updated (fd : Int) (state : FdState)
  | erased (fd : Int)
  /-- A call does not find the descriptor. -/
  | missed (fd : Int)
  /-- A wait answers. -/
  | answered (fd : Int) (ready : Bool)
deriving DecidableEq

def step (m : Table Int FdState) : Event → Option (Table Int FdState)
  | .opened fd         => some (m.set fd .opening)
  | .updated fd state  => some (m.update fd fun _ => state)
  | .erased fd         => some (m.erase fd)
  | .missed fd         => guarded (m fd = none) m
  | .answered fd ready => guarded (ready = true ↔ m fd = some .ready) m

def machine : Machine (Table Int FdState) Event where
  init := .empty
  step := step

end States

variable {τ : Type}

def State.fdStates (s : State τ) : Table Int FdState := fun fd =>
  (s.fdStateMap fd).map fun a => (s.statuses a).state

/-- What the step of a call shows of the table. -/
def Running.shown (s : State τ) (run : Running) : List States.Event :=
  match run.status with
  | none =>
      match run.call with
      | .hvacSetFdOpening   => []
      | .hvacCleanupFdState => [.erased run.fd]
      | _                   => if s.fdStateMap run.fd = none then [.missed run.fd] else []
  | some a =>
      match run.pc with
      | .store           => [.opened run.fd]
      | .setState        =>
          if s.fdStateMap run.fd = some a then run.call.sets.elim [] fun st => [.updated run.fd st]
          else []
      | .unlock (some v) => if s.fdStateMap run.fd = some a then [.answered run.fd v] else []
      | _                => []

def shown (s : State τ) : Event τ → List States.Event
  | .step t => (s.threads t).elim [] (·.shown s)
  | _       => []

/-! ## The simulation -/

section Simulation

variable {s s' : State τ}

theorem fdStates_kept (hmap : s'.fdStateMap = s.fdStateMap)
    (hstate : ∀ fd a, s.fdStateMap fd = some a → (s'.statuses a).state = (s.statuses a).state) :
    s'.fdStates = s.fdStates := by
  funext fd
  simp only [State.fdStates, hmap]
  cases ha : s.fdStateMap fd with
  | none => rfl
  | some a => exact congrArg some (hstate fd a ha)

variable [DecidableEq τ]

theorem fdStates_moved {t : τ} {run : Running} {a : Nat} {x : FdStatus τ} {pc : Pc}
    (hx : x.state = (s.statuses a).state) : (s.moved t run a x pc).fdStates = s.fdStates := by
  refine fdStates_kept rfl fun fd b _ => ?_
  by_cases hb : b = a
  · subst hb
    exact (congrArg FdStatus.state (statuses_self ..)).trans hx
  · exact congrArg FdStatus.state (statuses_of_ne hb)

/-- A new object has its first state until it gets into the map. -/
def Untouched (s : State τ) : Prop :=
  ∀ t run a, s.At t run a .store → (s.statuses a).state = .opening

theorem Untouched.step {e : Event τ} (h : Untouched s) (hi : Inv s) (hs : Step s e s') :
    Untouched s' := by
  -- a step of the thread `t` to another point of its call
  have hframe : ∀ {t : τ} {r : Option Running}, s'.threads = Function.update s.threads t r →
      (∀ run, r = some run → run.pc ≠ .store) →
      (∀ t' run a, t' ≠ t → s.At t' run a .store → (s'.statuses a).state = (s.statuses a).state) →
      Untouched s' := by
    intro t r hthreads hr hstate t' run a hat
    have hrun := hat.thread
    rw [hthreads] at hrun
    by_cases ht : t' = t
    · subst ht
      rw [Function.update_self] at hrun
      exact absurd hat.pc (hr run hrun)
    · rw [Function.update_of_ne ht] at hrun
      have hbefore : s.At t' run a .store := ⟨hrun, hat.status, hat.pc⟩
      exact (hstate t' run a ht hbefore).trans (h t' run a hbefore)
  have hmoved : ∀ {t : τ} {run : Running} {a : Nat} {x : FdStatus τ} {pc pc' : Pc},
      s.At t run a pc → s.moved t run a x pc' = s' → pc' ≠ .store → Untouched s' := by
    rintro t run a x pc pc' hat rfl hpc
    refine hframe rfl (by rintro _ ⟨⟩; exact hpc) fun t' run' b ht hfresh => ?_
    have hne : b ≠ a := by
      rintro rfl
      have hmine : s.holds (.thread t) = some b := by simp [State.holds, hat.thread, hat.status]
      cases hi.fresh_only hfresh.thread hfresh.status hfresh.pc hmine
      exact ht rfl
    exact congrArg FdStatus.state (statuses_of_ne hne)
  cases hs with
  | @makeShared t run a hrun hpc hdead =>
      intro t' run' b hat
      by_cases ht : t' = t
      · subst ht
        obtain rfl := Option.some.inj ((threads_self ..).symm.trans hat.thread)
        obtain rfl := Option.some.inj hat.status
        exact congrArg FdStatus.state (statuses_self ..)
      · have hrun' : s.threads t' = some run' := (threads_of_ne ht).symm.trans hat.thread
        have hne : b ≠ a := by
          rintro rfl
          have hpos := hi.alive hrun' hat.status
          omega
        exact (congrArg FdStatus.state (statuses_of_ne hne)).trans
          (h t' run' b ⟨hrun', hat.status, hat.pc⟩)
  | tick => exact fun t run a hat => h t run a ⟨hat.thread, hat.status, hat.pc⟩
  | cleanup _ _ _ | missing _ _ _ _ | drop _ => exact hframe rfl (by rintro _ ⟨⟩) fun _ _ _ _ _ => rfl
  | call _ | found _ _ _ _ | store _ | decided _ _ _ | undecided _ _ | clock _ _ | opening _ _
  | invalid _ =>
      exact hframe rfl (by rintro _ ⟨⟩ ⟨⟩) fun _ _ _ _ _ => rfl
  | lock hat _ => exact hmoved hat rfl (by split <;> rintro ⟨⟩)
  | reacquire hat _ _ _ => exact hmoved hat rfl (by split <;> rintro ⟨⟩)
  | setState hat _ | broadcast hat | wait hat _ | unlock hat _ _ | timeout hat _ | spurious hat =>
      exact hmoved hat rfl (by rintro ⟨⟩)

theorem untouched_invariant : (machine τ).Invariant fun s => Inv s ∧ Untouched s where
  init := ⟨inv_init, fun t run a hat => by cases hat.thread⟩
  step _ h hs := ⟨h.1.step hs, h.2.step h.1 (step_cases hs)⟩

/-- Every step of the calls is one of the table, or is not seen there. -/
theorem table_simulation :
    (machine τ).Simulation States.machine shown fun s m => s.fdStates = m where
  init := rfl
  step := by
    rintro s s' e m hr rfl hs
    obtain ⟨hi, hu⟩ := untouched_invariant.reachable hr
    have hquiet : shown s e = [] → s'.fdStates = s.fdStates →
        ∃ m, States.machine.runFrom s.fdStates (shown s e) = some m ∧ s'.fdStates = m :=
      fun hnothing hkept => ⟨s.fdStates, by rw [hnothing]; rfl, hkept⟩
    have hgoto : ∀ {t : τ} {run : Running} {a : Nat} {pc : Pc}, s.At t run a pc →
        shown s (.step t) = run.shown s := by
      intro t run a pc hat
      simp [shown, hat.thread]
    cases step_cases hs with
    | call _ => exact hquiet rfl rfl
    | tick => exact hquiet rfl rfl
    | timeout hat _ => exact hquiet rfl (fdStates_moved rfl)
    | spurious hat => exact hquiet rfl (fdStates_moved rfl)
    | @makeShared t run a hrun hpc hdead =>
        refine hquiet rfl (fdStates_kept rfl fun fd b hb => ?_)
        have hne : b ≠ a := by
          rintro rfl
          have hpos := hi.counted.pos (show s.holds (.entry fd) = some b from hb)
          omega
        exact congrArg FdStatus.state (statuses_of_ne hne)
    | @cleanup t run hrun hnone hcall =>
        refine ⟨s.fdStates.erase run.fd, ?_, ?_⟩
        · simp [shown, hrun, Running.shown, hnone, hcall, Machine.runFrom, States.machine,
            States.step]
        · funext fd
          by_cases hfd : fd = run.fd
          · subst hfd
            simp [State.fdStates, State.finish, State.setThread]
          · simp [State.fdStates, State.finish, State.setThread, State.dropEntry, hfd]
    | @missing t run hrun hnone hcall hentry =>
        refine ⟨s.fdStates, ?_, rfl⟩
        have hmissed : run.shown s = [.missed run.fd] := by
          cases hc : run.call <;> simp [Call.looksUp, hc] at hcall <;>
            simp [Running.shown, hnone, hc, hentry]
        simp [shown, hrun, hmissed, Machine.runFrom, States.machine, States.step, guarded,
          State.fdStates, hentry]
    | @found t run a hrun hnone hcall hentry =>
        refine hquiet ?_ (fdStates_kept rfl fun _ _ _ => rfl)
        cases hc : run.call <;> simp [Call.looksUp, hc] at hcall <;>
          simp [shown, hrun, Running.shown, hnone, hc, hentry]
    | @store t run a hat =>
        refine ⟨s.fdStates.set run.fd .opening, ?_, ?_⟩
        · rw [hgoto hat]
          simp [Running.shown, hat.status, hat.pc, Machine.runFrom, States.machine, States.step]
        · funext fd
          by_cases hfd : fd = run.fd
          · subst hfd
            simp [State.fdStates, State.setThread, State.dropEntry, State.copyRef, hu t run a hat]
          · simp [State.fdStates, State.setThread, State.dropEntry, State.copyRef, hfd]
    | @setState t run a state hat hstate =>
        have hfd := (hi.running t run hat.thread).fd a hat.status
        -- an entry that leads to the object is the one for its own descriptor
        have hentry : ∀ fd, s.fdStateMap fd = some a → fd = run.fd := fun fd hb =>
          (hi.entries fd a hb).symm.trans hfd
        by_cases hmap : s.fdStateMap run.fd = some a
        · refine ⟨s.fdStates.update run.fd fun _ => state, ?_, ?_⟩
          · rw [hgoto hat]
            simp [Running.shown, hat.status, hat.pc, hmap, hstate, Machine.runFrom,
              States.machine, States.step]
          · funext fd
            by_cases hne : fd = run.fd
            · subst hne
              simp [State.fdStates, State.moved, State.setThread, State.setStatus, hmap]
            · rw [Table.update_of_ne _ _ hne]
              cases hb : s.fdStateMap fd with
              | none => simp [State.fdStates, State.moved, State.setThread, State.setStatus, hb]
              | some b =>
                  have hba : b ≠ a := fun heq => hne (hentry fd (heq ▸ hb))
                  simp [State.fdStates, State.moved, State.setThread, State.setStatus, hb, hba]
        · have hgone : run.shown s = [] := by
            simp [Running.shown, hat.status, hat.pc, hmap]
          refine hquiet ((hgoto hat).trans hgone) (fdStates_kept rfl fun fd b hb => ?_)
          have hba : b ≠ a := by
            rintro rfl
            exact hmap (hentry fd hb ▸ hb)
          exact congrArg FdStatus.state (statuses_of_ne hba)
    | @unlock t run a pc v hat hpc hown =>
        have hkept : (s.moved t run a { s.statuses a with
            monitor := { (s.statuses a).monitor with owner := none } } (.drop v)).fdStates =
            s.fdStates := fdStates_moved rfl
        rcases hpc with rfl | ⟨rfl, rfl⟩
        · cases v with
          | none =>
              exact hquiet (by rw [hgoto hat]; simp [Running.shown, hat.status, hat.pc]) hkept
          | some v =>
              by_cases hmap : s.fdStateMap run.fd = some a
              · refine ⟨s.fdStates, ?_, hkept⟩
                have hanswer := (hi.running t run hat.thread).answer a v hat.status hat.pc
                have hstate : s.fdStates run.fd = some (s.statuses a).state := by
                  simp [State.fdStates, hmap]
                rw [hgoto hat]
                simp [Running.shown, hat.status, hat.pc, hmap, Machine.runFrom, States.machine,
                  States.step, guarded, hstate, hanswer]
              · exact hquiet (by rw [hgoto hat]; simp [Running.shown, hat.status, hat.pc, hmap])
                  hkept
        · exact hquiet (by rw [hgoto hat]; simp [Running.shown, hat.status, hat.pc]) hkept
    | lock hat _ | broadcast hat | wait hat _ =>
        exact hquiet (by rw [hgoto hat]; simp [Running.shown, hat.status, hat.pc])
          (fdStates_moved rfl)
    | reacquire hat hpc _ _ =>
        refine hquiet ?_ (fdStates_moved rfl)
        rw [hgoto hat]
        rcases hpc with rfl | rfl <;> simp [Running.shown, hat.status, hat.pc]
    | decided hat hpc _ =>
        refine hquiet ?_ rfl
        rw [hgoto hat]
        rcases hpc with rfl | rfl <;> simp [Running.shown, hat.status, hat.pc]
    | undecided hat _ | clock hat _ | opening hat _ | invalid hat | drop hat =>
        exact hquiet (by rw [hgoto hat]; simp [Running.shown, hat.status, hat.pc]) rfl

end Simulation

end MtHvac.Client.FdReady
