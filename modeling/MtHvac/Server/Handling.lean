-- SUMMARY: Request handlers of the server come to an end: they block on the data mutex only, which the data mover never keeps while it copies.
import MtHvac.Base.Progress
import MtHvac.Server.DataMover

/-!
# Handling of requests

The progress thread runs one handler at a time, so a handler that blocks stops the
server. Only a close request blocks, on `data_mutex`. The data mover has the mutex
from its lock to `pthread_cond_wait`, and while it drains the queue; it lets it go
within as many steps as there are paths in the queue.
-/

namespace MtHvac.Server

open Base

/-! ## Owners of the data mutex -/

/-- A thread that owns the mutex is between its lock and its unlock. -/
structure Owners (s : State) : Prop where
  progress : s.dataMonitor.owner = some .progress → s.progress.holdsLock = true
  mover : s.dataMonitor.owner = some .mover → s.mover.holdsLock = true

theorem Owners.step {s s' : State} {e : Event} (h : Owners s) (hs : Step s e s') : Owners s' := by
  obtain ⟨hp, hm⟩ := h
  -- the steps outside the critical sections are steps of a thread without the mutex
  have houtside : s.progress.holdsLock = false → s.dataMonitor.owner ≠ some .progress := by
    intro hpc hown
    cases hpc.symm.trans (hp hown)
  have hmoving : s.mover.holdsLock = false → s.dataMonitor.owner ≠ some .mover := by
    intro hpc hown
    cases hpc.symm.trans (hm hown)
  cases hs with
  | create _ | moverCopyWrite _ _ _ _ | moverSpurious _ | moverDrain _ _ => exact ⟨hp, hm⟩
  | readRequest _ =>
      obtain ⟨_, _, _, hframe⟩ := s.handleRead_frame _ _
      rw [hframe]
      exact ⟨hp, hm⟩
  | seekRequest _ =>
      obtain ⟨_, hframe⟩ := s.handleSeek_frame _ _ _
      rw [hframe]
      exact ⟨hp, hm⟩
  | openRequest hpc | openMiss hpc _ | openHit hpc _ | openRedirect hpc | openFail hpc
  | openOk hpc _ _ _ | closeRequest hpc | closeUncached hpc _ | closeCached hpc _
  | closeErase hpc =>
      exact ⟨fun hown => absurd hown (houtside (by rw [hpc]; rfl)), hm⟩
  | closeLock _ _ => exact ⟨fun _ => rfl, nofun⟩
  | closePush _ | closeSignal _ => exact ⟨fun _ => rfl, hm⟩
  | closeUnlock _ _ | moverWait _ _ | moverUnlock _ _ _ => exact ⟨nofun, nofun⟩
  | moverLock _ _ | moverReacquire _ _ _ => exact ⟨nofun, fun _ => rfl⟩
  | moverRestart hpc _ | moverMkdtemp hpc _ | moverCopyCreate hpc _ _ _ | moverCopyReturn hpc _ _
  | moverRecord hpc _ | moverPop hpc =>
      exact ⟨hp, fun hown => absurd hown (hmoving (by rw [hpc]; rfl))⟩
  | moverCopyThrow hpc =>
      refine ⟨hp, fun hown => absurd hown (hmoving ?_)⟩
      rcases hpc with hpc | hpc <;> rw [hpc] <;> rfl

theorem owners_invariant : machine.Invariant Owners where
  init := ⟨nofun, nofun⟩
  step := fun _ h hs => h.step (step_cases hs).2

/-! ## The steps that are left -/

/-- The steps of a handler after it took its request, and those with which the data
mover gives up the mutex. -/
def Event.settles : Event → Bool
  | .openFind | .openRedirect | .openCall _ | .closeFind | .closeLock | .closePush | .closeSignal
  | .closeUnlock | .closeErase | .moverWait | .moverDrain | .moverUnlock => true
  | _ => false

def ProgressPc.remaining : ProgressPc → Nat
  | .idle           => 0
  | .openFind _     => 3
  | .openRedirect _ => 2
  | .openCall _ _   => 1
  | .closeFind _    => 6
  | .closeLock _    => 5
  | .closePush _    => 4
  | .closeSignal _  => 3
  | .closeUnlock _  => 2
  | .closeErase _   => 1

def MoverPc.remaining (queued : Nat) : MoverPc → Nat
  | .wait  => 1
  | .drain => queued + 1
  | _      => 0

def State.remaining (s : State) : Nat :=
  s.progress.remaining + s.mover.remaining s.dataQueue.length

theorem State.remaining_le (s : State) : s.remaining ≤ s.dataQueue.length + 7 := by
  have hprogress : s.progress.remaining ≤ 6 := by
    cases s.progress <;> simp [ProgressPc.remaining]
  have hmover : s.mover.remaining s.dataQueue.length ≤ s.dataQueue.length + 1 := by
    cases s.mover <;> simp [MoverPc.remaining]
  rw [State.remaining]
  omega

/-- A handler that is not at an end goes on, or the data mover keeps it waiting. -/
theorem settles_enabled {s : State} (hl : LockInv s) (ho : Owners s) (halive : s.alive = true)
    (hbusy : s.progress ≠ .idle) : ∃ e s', e.settles = true ∧ machine.step s e = some s' := by
  have hstep : ∀ e {s'}, e.settles = true → (progressStep s e).or (moverStep s e) = some s' →
      ∃ e s', e.settles = true ∧ machine.step s e = some s' := by
    intro e s' he hs
    refine ⟨e, s', he, ?_⟩
    cases e with
    | create path data => cases he
    | _ => simpa [machine, step, halive] using hs
  cases hpc : s.progress with
  | idle => exact absurd hpc hbusy
  | openFind path => exact hstep .openFind rfl (by simp [progressStep, hpc]; rfl)
  | openRedirect path => exact hstep .openRedirect rfl (by simp [progressStep, hpc]; rfl)
  | openCall path redirPath =>
      exact hstep (.openCall none) rfl (by
        simp [progressStep, hpc, guarded, State.CanOpen]; rfl)
  | closeFind fd => exact hstep .closeFind rfl (by simp [progressStep, hpc]; rfl)
  | closePush fd => exact hstep .closePush rfl (by simp [progressStep, hpc]; rfl)
  | closeSignal fd => exact hstep .closeSignal rfl (by simp [progressStep, hpc]; rfl)
  | closeErase fd => exact hstep .closeErase rfl (by simp [progressStep, hpc]; rfl)
  | closeUnlock fd =>
      have hown := hl.progress (by rw [hpc]; rfl)
      exact hstep .closeUnlock rfl (by
        simp [progressStep, hpc, Monitor.unlock, guarded, hown]; rfl)
  | closeLock fd =>
      cases hown : s.dataMonitor.owner with
      | none =>
          exact hstep .closeLock rfl (by
            simp [progressStep, hpc, Monitor.lock, guarded, hown]; rfl)
      | some t =>
          cases t with
          | progress =>
              have hlock := ho.progress hown
              rw [hpc] at hlock
              cases hlock
          | mover =>
              cases hmover : s.mover with
              | wait =>
                  exact hstep .moverWait rfl (by
                    simp [progressStep, moverStep, hmover, Monitor.condWait, guarded, hown]; rfl)
              | drain =>
                  cases hqueue : s.dataQueue with
                  | nil =>
                      exact hstep .moverUnlock rfl (by
                        simp [progressStep, moverStep, hmover, hqueue, Monitor.unlock, guarded, hown]
                        rfl)
                  | cons p rest =>
                      exact hstep .moverDrain rfl (by
                        simp [progressStep, moverStep, hmover, hqueue]; rfl)
              | _ =>
                  have hlock := ho.mover hown
                  rw [hmover] at hlock
                  cases hlock

theorem settles_lowers {s s' : State} {e : Event} (hl : LockInv s) (he : e.settles = true)
    (hs : Step s e s') : s'.alive = s.alive ∧ s'.remaining < s.remaining := by
  have hprogress : ∀ {pc : ProgressPc}, pc.remaining < s.progress.remaining →
      pc.remaining + s.mover.remaining s.dataQueue.length < s.remaining := by
    intro pc hlt
    rw [State.remaining]
    omega
  have hmover : ∀ {pc : MoverPc} {n : Nat}, pc.remaining n < s.mover.remaining s.dataQueue.length →
      s.progress.remaining + pc.remaining n < s.remaining := by
    intro pc n hlt
    rw [State.remaining]
    omega
  cases hs with
  | openMiss hpc _ | openHit hpc _ | openRedirect hpc | openFail hpc | openOk hpc _ _ _
  | closeUncached hpc _ | closeCached hpc _ | closeLock hpc _ | closeSignal hpc | closeUnlock hpc _
  | closeErase hpc =>
      exact ⟨rfl, hprogress (by rw [hpc]; simp [ProgressPc.remaining])⟩
  | @closePush fd hpc =>
      refine ⟨rfl, ?_⟩
      -- the data mover is not draining while the handler has the mutex
      have hown : s.dataMonitor.owner = some .progress := hl.progress (by rw [hpc]; rfl)
      have hdrain : s.mover ≠ .drain := by
        intro hmover
        cases hown.symm.trans (hl.mover (by rw [hmover]; rfl))
      have hkept : s.mover.remaining (s.dataQueue ++ [s.closedPath fd]).length =
          s.mover.remaining s.dataQueue.length := by
        cases hpc' : s.mover with
        | drain => exact absurd hpc' hdrain
        | _ => rfl
      show (ProgressPc.closeSignal fd).remaining +
        s.mover.remaining (s.dataQueue ++ [s.closedPath fd]).length < s.remaining
      rw [hkept]
      exact hprogress (by rw [hpc]; simp [ProgressPc.remaining])
  | moverWait hpc _ => exact ⟨rfl, hmover (by rw [hpc]; simp [MoverPc.remaining])⟩
  | moverDrain hpc hqueue =>
      refine ⟨rfl, ?_⟩
      simp only [State.remaining, hpc, hqueue, MoverPc.remaining, List.length_cons]
      omega
  | moverUnlock hpc hqueue _ =>
      refine ⟨rfl, ?_⟩
      simp only [State.remaining, hpc, hqueue, MoverPc.remaining, List.length_nil]
      omega
  | _ => cases he

/-! ## Handlers come to an end -/

/-- A living process with a handler at work gets on with it. -/
theorem settles_ranking : Machine.Ranking machine (fun e => e.settles = true)
    (fun s => machine.Reachable s ∧ s.alive = true) (fun s => s.progress = .idle)
    State.remaining where
  enabled := fun ⟨hr, halive⟩ hbusy =>
    settles_enabled (lockInv_invariant.reachable hr) (owners_invariant.reachable hr) halive hbusy
  lowers := by
    rintro s s' e ⟨hr, halive⟩ _ he hs
    obtain ⟨hkept, hlt⟩ := settles_lowers (lockInv_invariant.reachable hr) he (step_cases hs).2
    exact ⟨⟨hr.step hs, hkept.trans halive⟩, hlt⟩

/-- A request handler ends within seven steps and one for each path in `data_queue`, in
whatever order its steps and those of a data mover that has the data mutex happen. None of
these steps copies a file: a handler never waits for a copy. -/
theorem handlers_end {s s' : State} (h : machine.Reachable s) (halive : s.alive = true)
    {es : List Event} (hes : ∀ e ∈ es, e.settles = true)
    (hbusy : machine.Avoids (fun s => s.progress = .idle) s es)
    (hrun : machine.runFrom s es = some s') :
    ∃ es' s'', (∀ e ∈ es', e.settles = true) ∧
      es.length + es'.length ≤ s.dataQueue.length + 7 ∧
      machine.runFrom s' es' = some s'' ∧ s''.progress = .idle := by
  obtain ⟨es', s'', hes', hlen, hrun', hidle⟩ := settles_ranking.completes ⟨h, halive⟩ hes hbusy hrun
  exact ⟨es', s'', hes', hlen.trans s.remaining_le, hrun', hidle⟩

/-- Two files are opened, one is closed, and the data mover has the mutex when the handler
of the other close request comes to it. -/
def closeWhileDraining : List Event :=
  closeDuringCopy.take 18 ++ [.closeRequest 6, .closeFind]

theorem handlers_end_while_draining :
    ∃ s es' s'', machine.run closeWhileDraining = some s ∧ machine.step s .closeLock = none ∧
      es'.length ≤ 8 ∧ machine.runFrom s es' = some s'' ∧ s''.progress = .idle := by
  have hseen : (machine.run closeWhileDraining).map (fun s =>
      (s.alive, s.dataQueue.length, (machine.step s .closeLock).isSome)) =
        some (true, 1, false) := by
    decide
  obtain ⟨s, hs, heq⟩ := Option.map_eq_some_iff.mp hseen
  simp only [Prod.mk.injEq] at heq
  obtain ⟨halive, hqueue, hblocked⟩ := heq
  have havoid : machine.Avoids (fun s => s.progress = .idle) s [] :=
    fun pre e hpre => by simp at hpre
  have hnone : ∀ e ∈ ([] : List Event), e.settles = true := nofun
  obtain ⟨es', s'', _, hlen, hrun, hidle⟩ :=
    handlers_end (Machine.reachable_of_run hs) halive hnone havoid rfl
  refine ⟨s, es', s'', hs, by simpa using hblocked, ?_, hrun, hidle⟩
  rw [hqueue] at hlen
  simpa using hlen

end MtHvac.Server
