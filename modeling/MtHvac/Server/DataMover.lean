-- SUMMARY: The hand-over of closed files to the data mover: the data mutex, and which runs lose a wake-up.
import MtHvac.Server.Machine

/-!
# Waking the data mover

The data mover calls `pthread_cond_wait` in every round of its loop without
looking at `data_queue` first. A close request that is queued while the data
mover is not in that call signals nobody.
-/

namespace MtHvac.Server

open Base

/-! ## The data mutex -/

def ProgressPc.holdsLock : ProgressPc → Bool
  | .closePush _ | .closeSignal _ | .closeUnlock _ => true
  | _ => false

def MoverPc.holdsLock : MoverPc → Bool
  | .wait | .drain => true
  | _ => false

/-- A thread between its lock and its unlock owns the mutex, and only a data
mover in `pthread_cond_wait` is waiting. -/
structure LockInv (s : State) : Prop where
  progress : s.progress.holdsLock = true → s.dataMonitor.owner = some .progress
  mover : s.mover.holdsLock = true → s.dataMonitor.owner = some .mover
  waiting : s.dataMonitor.waiting .mover = true → s.mover = .waiting

theorem LockInv.step {s s' : State} {e : Event} (hi : LockInv s) (h : Step s e s') :
    LockInv s' := by
  obtain ⟨hp, hm, hw⟩ := hi
  -- a data mover that is not in `pthread_cond_wait` is not waiting
  have hawake : s.mover ≠ .waiting → s.dataMonitor.waiting .mover = true → False :=
    fun hpc h => hpc (hw h)
  cases h with
  | create _ => exact ⟨hp, hm, hw⟩
  | readRequest _ =>
      obtain ⟨_, _, _, hs'⟩ := s.handleRead_frame _ _
      rw [hs']
      exact ⟨hp, hm, hw⟩
  | seekRequest _ =>
      obtain ⟨_, hs'⟩ := s.handleSeek_frame _ _ _
      rw [hs']
      exact ⟨hp, hm, hw⟩
  | openRequest _ | openMiss _ _ | openHit _ _ | openRedirect _ | openFail _ | openOk _ _ _ _
  | closeRequest _ | closeUncached _ _ | closeCached _ _ | closeErase _ =>
      exact ⟨nofun, hm, hw⟩
  | closeLock _ hfree =>
      refine ⟨fun _ => rfl, fun h => ?_, hw⟩
      rw [hm h] at hfree
      cases hfree
  | closePush hpc =>
      exact ⟨fun _ => hp (by rw [hpc]; rfl), hm, hw⟩
  | closeSignal hpc =>
      refine ⟨fun _ => hp (by rw [hpc]; rfl), hm, fun h => ?_⟩
      exact absurd h (by simp)
  | closeUnlock _ hown =>
      refine ⟨nofun, fun h => ?_, hw⟩
      rw [hm h] at hown
      cases hown
  | moverLock hpc hfree =>
      refine ⟨fun h => ?_, fun _ => rfl, fun h => (hawake (by rw [hpc]; nofun) h).elim⟩
      rw [hp h] at hfree
      cases hfree
  | moverWait _ hown =>
      refine ⟨fun h => ?_, nofun, fun _ => rfl⟩
      rw [hp h] at hown
      cases hown
  | moverSpurious hpc =>
      exact ⟨hp, hm, fun h => absurd h (by simp)⟩
  | moverReacquire _ hfree hwoken =>
      refine ⟨fun h => ?_, fun _ => rfl, fun h => absurd h (by simp [hwoken])⟩
      rw [hp h] at hfree
      cases hfree
  | moverDrain hpc _ =>
      exact ⟨hp, hm, hw⟩
  | moverUnlock hpc _ hown =>
      refine ⟨fun h => ?_, nofun, fun h => (hawake (by rw [hpc]; nofun) h).elim⟩
      rw [hp h] at hown
      cases hown
  | moverCopyThrow hpc =>
      refine ⟨hp, nofun, fun h => (hawake ?_ h).elim⟩
      rcases hpc with hpc | hpc <;> rw [hpc] <;> nofun
  | moverCopyWrite _ _ _ _ => exact ⟨hp, hm, hw⟩
  | moverRestart hpc _ | moverMkdtemp hpc _ | moverCopyCreate hpc _ _ _ | moverCopyReturn hpc _ _
  | moverRecord hpc _ | moverPop hpc =>
      exact ⟨hp, nofun, fun h => (hawake (by rw [hpc]; nofun) h).elim⟩

theorem lockInv_invariant : machine.Invariant LockInv where
  init := ⟨nofun, nofun, nofun⟩
  step := fun _ hi h => hi.step (step_cases h).2

/-! ## Lost wake-ups -/

/-- The data mover is blocked in `pthread_cond_wait` and no wake-up for it is
pending: none has been delivered, and no close request stands between its push
and its signal, with the mutex in its hands. -/
def Asleep (s : State) : Prop :=
  s.mover = .waiting ∧ s.dataMonitor.waiting .mover = true ∧
    ∀ fd, s.progress ≠ .closeSignal fd

def NoLostWakeup (s : State) : Prop := Asleep s → s.dataQueue = []

/-- A step loses a wake-up exactly if it is a call of `pthread_cond_wait` on a
non-empty queue. -/
theorem noLostWakeup_step {s s' : State} {e : Event} (hi : LockInv s) (hs : NoLostWakeup s)
    (h : Step s e s') : NoLostWakeup s' ↔ (e = .moverWait → s.dataQueue = []) := by
  have hawake : s.mover ≠ .waiting → ¬ Asleep s := fun hpc ha => hpc ha.1
  -- every other step keeps the property
  suffices hkeep : e ≠ .moverWait → NoLostWakeup s' by
    by_cases he : e = .moverWait
    · subst he
      cases h with
      | moverWait hpc hown =>
          have hasleep : ∀ fd, s.progress ≠ .closeSignal fd := by
            intro fd hfd
            have := hi.progress (by rw [hfd]; rfl)
            rw [this] at hown
            cases hown
          exact ⟨fun hq _ => hq ⟨rfl, rfl, hasleep⟩, fun hq _ => hq rfl⟩
    · exact ⟨fun _ h => absurd h he, fun _ => hkeep he⟩
  intro he
  cases h with
  | moverWait _ _ => exact absurd rfl he
  | create _ => exact hs
  | readRequest _ =>
      obtain ⟨_, _, _, hs'⟩ := s.handleRead_frame _ _
      rw [hs']
      exact hs
  | seekRequest _ =>
      obtain ⟨_, hs'⟩ := s.handleSeek_frame _ _ _
      rw [hs']
      exact hs
  | openRequest hpc | openMiss hpc _ | openHit hpc _ | openRedirect hpc | openFail hpc
  | openOk hpc _ _ _ | closeRequest hpc | closeUncached hpc _ | closeCached hpc _
  | closeLock hpc _ | closeUnlock hpc _ | closeErase hpc =>
      exact fun ha => hs ⟨ha.1, ha.2.1, by rw [hpc]; nofun⟩
  | closePush _ => exact fun ha => absurd rfl (ha.2.2 _)
  | closeSignal _ => exact fun ha => absurd ha.2.1 (by simp)
  | moverSpurious _ => exact fun ha => absurd ha.2.1 (by simp)
  | moverDrain hpc _ => exact fun ha => absurd ha.1 (by simp [hpc])
  | moverCopyWrite hpc _ _ _ => exact fun ha => absurd ha.1 (by simp [hpc])
  | moverLock _ _ | moverReacquire _ _ _ | moverUnlock _ _ _ | moverRestart _ _
  | moverMkdtemp _ _ | moverCopyCreate _ _ _ _ | moverCopyReturn _ _ _ | moverCopyThrow _
  | moverRecord _ _ | moverPop _ =>
      exact fun ha => absurd ha.1 nofun

private theorem noLostWakeup_runs {es : List Event} :
    (∀ s, machine.Visits es s → NoLostWakeup s) ↔
      ∀ s e, machine.Takes es s e → e = .moverWait → s.dataQueue = [] :=
  machine.always_iff (fun ha => absurd ha.1 nofun) fun hr hs h =>
    noLostWakeup_step (lockInv_invariant.reachable hr) hs (step_cases h).2

/-- A run never leaves a closed file queued behind a sleeping data mover exactly
if the data mover calls `pthread_cond_wait` on an empty queue only. -/
theorem noLostWakeup_iff {es : List Event} :
    (∀ s, machine.Visits es s → NoLostWakeup s) ↔
      ∀ s, machine.Takes es s .moverWait → s.dataQueue = [] := by
  rw [noLostWakeup_runs]
  exact ⟨fun h s ht => h s _ ht rfl, fun h s e ht he => h s (he ▸ ht)⟩

/-- Two files are opened and closed; the data mover is woken by the first close
and copies that file while the second close is handled. -/
def closeDuringCopy : List Event :=
  let a : Path := ['/', 'd', '/', 'a']
  let b : Path := ['/', 'd', '/', 'b']
  let openFile (p : Path) (fd : Int) : List Event :=
    [.openRequest p, .openFind, .openCall (some fd)]
  let closeFile (fd : Int) : List Event :=
    [.closeRequest fd, .closeFind, .closeLock, .closePush, .closeSignal, .closeUnlock, .closeErase]
  [.create a [1, 2], .create b [3], .moverLock, .moverWait] ++
    openFile a 5 ++ openFile b 6 ++ closeFile 5 ++
    [.moverReacquire, .moverDrain, .moverUnlock, .moverMkdtemp ['/', 't'], .moverCopyCreate] ++
    closeFile 6 ++
    [.moverCopyWrite 2, .moverCopyReturn, .moverRecord, .moverPop, .moverRestart,
      .moverLock, .moverWait]

/-- After `closeDuringCopy` the second file is queued and the data mover sleeps. -/
theorem lost_wakeup_after_closeDuringCopy :
    ¬ ∀ s, machine.Reachable s → NoLostWakeup s := by
  intro hall
  have hrun : (machine.run closeDuringCopy).map (fun s =>
      (s.mover, s.dataMonitor.waiting .mover, s.progress, s.dataQueue)) =
        some (.waiting, true, .idle, [['/', 'd', '/', 'b']]) := by
    decide
  obtain ⟨s, hs, heq⟩ := Option.map_eq_some_iff.mp hrun
  simp only [Prod.mk.injEq] at heq
  obtain ⟨hmover, hwaiting, hprogress, hqueue⟩ := heq
  have hempty := hall s (Machine.reachable_of_run hs) ⟨hmover, hwaiting, by rw [hprogress]; nofun⟩
  rw [hqueue] at hempty
  cases hempty

/-! ## Closing only while the data mover waits -/

/-- The queue is empty wherever the data mover is not in `pthread_cond_wait` or
draining. -/
private def EmptyOutsideWait (s : State) : Prop :=
  LockInv s ∧ (s.mover = .waiting ∨ s.mover = .drain ∨ s.dataQueue = [])

private theorem emptyOutsideWait_step {s s' : State} {e : Event} (hi : EmptyOutsideWait s)
    (hpush : e = .closePush → s.mover = .waiting) (h : Step s e s') : EmptyOutsideWait s' := by
  refine ⟨hi.1.step h, ?_⟩
  have hq := hi.2
  cases h with
  | readRequest _ =>
      obtain ⟨_, _, _, hs'⟩ := s.handleRead_frame _ _
      rw [hs']
      exact hq
  | seekRequest _ =>
      obtain ⟨_, hs'⟩ := s.handleSeek_frame _ _ _
      rw [hs']
      exact hq
  | closePush _ => exact .inl (hpush rfl)
  | moverWait _ _ => exact .inl rfl
  | moverReacquire _ _ _ => exact .inr (.inl rfl)
  | moverUnlock _ hqueue _ => exact .inr (.inr hqueue)
  | moverDrain hpc _ => exact .inr (.inl hpc)
  | moverSpurious hpc => exact .inl hpc
  | create _ | openRequest _ | openMiss _ _ | openHit _ _ | openRedirect _ | openFail _
  | openOk _ _ _ _ | closeRequest _ | closeUncached _ _ | closeCached _ _ | closeLock _ _
  | closeSignal _ | closeUnlock _ _ | closeErase _ | moverCopyWrite _ _ _ _ => exact hq
  | moverLock hpc _ | moverRestart hpc _ | moverMkdtemp hpc _ | moverCopyCreate hpc _ _ _
  | moverCopyReturn hpc _ _ | moverRecord hpc _ | moverPop hpc =>
      exact .inr (.inr (by simpa [hpc] using hq))
  | moverCopyThrow hpc =>
      exact .inr (.inr (by rcases hpc with hpc | hpc <;> simpa [hpc] using hq))

/-- No wake-up is lost in a run whose close requests are all queued while the data
mover is in `pthread_cond_wait`. -/
theorem noLostWakeup_of_push_while_waiting {es : List Event}
    (hpush : ∀ s, machine.Takes es s .closePush → s.mover = .waiting) {s : State}
    (hs : machine.Visits es s) : NoLostWakeup s := by
  refine noLostWakeup_runs.mpr (fun s₀ e ht he => ?_) s hs
  subst he
  have hempty : EmptyOutsideWait s₀ :=
    machine.always_of_steps (C := fun s e => e = .closePush → s.mover = .waiting)
      ⟨lockInv_invariant.init, .inr (.inr rfl)⟩
      (fun _ hi hc h => emptyOutsideWait_step hi hc (step_cases h).2)
      (fun s e ht he => hpush s (he ▸ ht)) ht.visits
  obtain ⟨_, s₁, _, _, hwait⟩ := ht
  cases (step_cases hwait).2 with
  | moverWait hpc _ => simpa [hpc] using hempty.2

end MtHvac.Server
