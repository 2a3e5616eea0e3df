-- SUMMARY: The requests of a server in its progress thread: they are handled in the order in which they arrive, each within a bounded number of steps.
import MtHvac.Rpc.ProgressThread
import MtHvac.Server.Handling

/-!
# The requests of a server

The handlers run in the progress thread, one after the other, so a request waits for the
handlers of the requests before it. What a handler may wait for is a data mover that has
`data_mutex`; each time the data mover takes the mutex costs one step more at most.

The callback of a bulk transfer only responds. It is part of the step of its read request
here, and takes no turn of its own in the loop.
-/

namespace MtHvac.Server

open Base

/-! ## The process -/

/-- A request that has arrived; `env` is what its handler meets. -/
inductive Request where
  | openFile (path : Path)
  | read (req : HvacRpcIn) (env : ReadEnv)
  | seek (fd offset whence : Int)
  | close (fd : Int)
deriving DecidableEq

/-- The handler of the request is called. -/
def Request.event : Request → Event
  | .openFile path         => .openRequest path
  | .read req env          => .readRequest req env
  | .seek fd offset whence => .seekRequest fd offset whence
  | .close fd              => .closeRequest fd

def Event.isRequest : Event → Bool
  | .openRequest _ | .readRequest _ _ | .seekRequest _ _ _ | .closeRequest _ => true
  | _ => false

/-- Requests arrive whenever clients send them. -/
def process : ProgressThread.Process State Event Request where
  machine := machine
  start := Request.event
  starts := Event.isRequest
  busy s := decide (s.progress ≠ .idle)
  alive := State.alive
  accepts _ _ _ := true

/-! ## The work of the handlers -/

/-- Steps left for a handler; the push leaves a path for the data mover to take out. -/
def ProgressPc.work : ProgressPc → Nat
  | .idle           => 0
  | .openFind _     => 3
  | .openRedirect _ => 2
  | .openCall _ _   => 1
  | .closeFind _    => 7
  | .closeLock _    => 6
  | .closePush _    => 5
  | .closeSignal _  => 3
  | .closeUnlock _  => 2
  | .closeErase _   => 1

/-- One step takes the data mover out of the mutex, beside those for the queue. -/
def MoverPc.work : MoverPc → Nat
  | .wait | .drain => 1
  | _              => 0

def State.work (s : State) : Nat := s.progress.work + s.mover.work + s.dataQueue.length

/-- The data mover takes the mutex. -/
def Event.isMoverLock : Event → Bool
  | .moverLock | .moverReacquire => true
  | _                            => false

theorem State.work_le (s : State) : s.work ≤ s.dataQueue.length + 8 := by
  have hprogress : s.progress.work ≤ 7 := by
    cases s.progress <;> simp [ProgressPc.work]
  have hmover : s.mover.work ≤ 1 := by
    cases s.mover <;> simp [MoverPc.work]
  rw [State.work]
  omega

variable {s s' : State} {e : Event}

/-- A read or a seek is over with its first step. -/
theorem work_of_frame {alive : Bool} {descs : Table Int Desc} {fdToPath : Table Int Path}
    (h : s' = { s with alive := alive, descs := descs, fdToPath := fdToPath }) :
    s'.work = s.work := by
  rw [h]
  rfl

/-- A new request is seven steps of work at most. -/
theorem start_work (r : Request) (hs : Step s r.event s') : s'.work ≤ s.work + 7 := by
  cases r with
  | openFile path =>
      cases hs with
      | openRequest hpc =>
          simp only [State.work, ProgressPc.work, hpc]
          omega
  | read req env =>
      cases hs with
      | readRequest _ =>
          obtain ⟨_, _, _, hframe⟩ := s.handleRead_frame req env
          exact (work_of_frame hframe).le.trans (Nat.le_add_right _ _)
  | seek fd offset whence =>
      cases hs with
      | seekRequest _ =>
          obtain ⟨_, hframe⟩ := s.handleSeek_frame fd offset whence
          exact (work_of_frame hframe).le.trans (Nat.le_add_right _ _)
  | close fd =>
      cases hs with
      | closeRequest hpc =>
          simp only [State.work, ProgressPc.work, hpc]
          omega

/-- The steps of a handler, and those with which the data mover gives up the mutex, use up
the work; only the data mover adds to it, when it takes the mutex. -/
theorem step_work (hother : e.isRequest = false) (hs : Step s e s') :
    s'.work + e.settles.toNat ≤ s.work + e.isMoverLock.toNat := by
  have hprogress : ∀ {pc : ProgressPc}, pc.work < s.progress.work →
      pc.work + s.mover.work + s.dataQueue.length + 1 ≤ s.work := by
    intro pc hlt
    rw [State.work]
    omega
  have hmover : ∀ {pc : MoverPc} {n m : Nat}, pc.work + n ≤ s.mover.work + m →
      s.progress.work + pc.work + s.dataQueue.length + n ≤ s.work + m := by
    intro pc n m hle
    rw [State.work]
    omega
  cases hs with
  | openRequest _ | readRequest _ | seekRequest _ | closeRequest _ => cases hother
  | create _ | moverCopyWrite _ _ _ _ | moverSpurious _ => exact le_rfl
  | openMiss hpc _ | openHit hpc _ | openRedirect hpc | openFail hpc | openOk hpc _ _ _
  | closeUncached hpc _ | closeCached hpc _ | closeLock hpc _ | closeSignal hpc | closeUnlock hpc _
  | closeErase hpc =>
      exact hprogress (by rw [hpc]; simp [ProgressPc.work])
  | closePush hpc =>
      simp only [State.work, ProgressPc.work, hpc, Event.settles, Event.isMoverLock, Bool.toNat_true,
        Bool.toNat_false, List.length_append, List.length_singleton]
      omega
  | moverDrain hpc hqueue =>
      simp only [State.work, hqueue, Event.settles, Event.isMoverLock, Bool.toNat_true,
        Bool.toNat_false, List.length_cons]
      omega
  | moverLock hpc _ | moverReacquire hpc _ _ | moverWait hpc _ | moverUnlock hpc _ _
  | moverRestart hpc _ | moverMkdtemp hpc _ | moverCopyCreate hpc _ _ _ | moverCopyReturn hpc _ _
  | moverRecord hpc _ | moverPop hpc =>
      exact hmover (by rw [hpc]; exact le_rfl)
  | moverCopyThrow hpc =>
      refine hmover ?_
      rcases hpc with hpc | hpc <;> rw [hpc] <;> exact le_rfl

/-! ## Requests are handled -/

/-- Between two requests nothing but a request puts the progress thread to work. -/
theorem progress_idle (hidle : s.progress = .idle) (hother : e.isRequest = false)
    (hs : Step s e s') : s'.progress = .idle := by
  have hnever : ∀ {pc : ProgressPc}, pc ≠ .idle → s.progress ≠ pc := fun hne hpc =>
    hne (hpc.symm.trans hidle)
  cases hs with
  | openRequest _ | readRequest _ | seekRequest _ | closeRequest _ => cases hother
  | openMiss hpc _ | openHit hpc _ | openRedirect hpc | openFail hpc | openOk hpc _ _ _
  | closeUncached hpc _ | closeCached hpc _ | closeLock hpc _ | closePush hpc | closeSignal hpc
  | closeUnlock hpc _ | closeErase hpc =>
      exact absurd hpc (hnever (by rintro ⟨⟩))
  | _ => exact hidle

theorem request_enabled (halive : s.alive = true) (hidle : s.progress = .idle) (r : Request) :
    ∃ s', machine.step s r.event = some s' := by
  cases r <;> simp [Request.event, machine, step, progressStep, halive, hidle, guarded]

theorem not_request_of_settles (he : e.settles = true) : e.isRequest = false := by
  cases e <;> first | rfl | cases he

theorem busy_eq_false : process.busy s = false ↔ s.progress = .idle := by
  simp [process]

theorem process_serves : ProgressThread.Serves process Event.settles
    (fun e => e.isMoverLock.toNat) 7 (fun s n => machine.Reachable s ∧ s.work = n)
    (fun _ _ => True) where
  init := trivial
  init_idle := rfl
  accept := fun _ _ => trivial
  other := fun _ _ _ => trivial
  start := fun _ _ => trivial
  idle := fun hidle hother hs =>
    busy_eq_false.mpr (progress_idle (busy_eq_false.mp hidle) hother (step_cases hs).2)
  ready := fun halive _ hidle => request_enabled halive (busy_eq_false.mp hidle) _
  enabled := by
    intro s n halive hpot hbusy
    obtain ⟨e, s', he, hs⟩ := settles_enabled (lockInv_invariant.reachable hpot.1)
      (owners_invariant.reachable hpot.1) halive (of_decide_eq_true hbusy)
    exact ⟨e, s', he, not_request_of_settles he, hs⟩
  spends := by
    rintro s s' e n ⟨hr, rfl⟩ hother hs
    exact ⟨_, ⟨hr.step hs, rfl⟩, step_work hother (step_cases hs).2⟩
  costs := by
    rintro s s' r n ⟨hr, rfl⟩ hs
    exact ⟨_, ⟨hr.step hs, rfl⟩, start_work r (step_cases hs).2⟩

/-- A server with its progress thread. -/
abbrev threaded : Machine (ProgressThread.State State Request) (ProgressThread.Event Event Request) :=
  ProgressThread.machine process

open ProgressThread (Done)

/-- The requests are handled in the order in which they arrive, each one once. Until the
handler of the request with the number `j` is over, or the process has aborted, the steps
of the progress thread and those with which the data mover gives up the mutex are bounded,
however many requests arrive meanwhile; and one of them is possible. The bound does not
depend on the files that are copied. -/
theorem requests_handled {x x' : ProgressThread.State State Request} {j : Nat}
    (hx : threaded.Reachable x) (hj : j < x.arrivals.length)
    {es : List (ProgressThread.Event Event Request)} (hwaits : threaded.Avoids (Done process j) x es)
    (hrun : threaded.runFrom x es = some x') :
    x'.arrivals = x'.started ++ (x'.queue ++ x'.arrived) ∧
      (es.map (ProgressThread.Event.spend Event.settles)).sum ≤
        x.process.dataQueue.length + 14 * (j + 1 - x.started.length) + 13 +
          (es.filterMap ProgressThread.Event.process?).countP Event.isMoverLock ∧
      (¬ Done process j x' → ∃ e x'', e.spend Event.settles = 1 ∧ threaded.step x' e = some x'') := by
  have hkept := (ProgressThread.kept_invariant process_serves).reachable (hx.runFrom hrun)
  obtain ⟨hsum, henabled⟩ := ProgressThread.served process_serves hx
    ⟨ProgressThread.process_reachable hx, rfl⟩ hj hwaits hrun
  refine ⟨hkept.order, ?_, henabled⟩
  have hwork := x.process.work_le
  rw [ProgressThread.sum_gain, Machine.sum_toNat] at hsum
  omega

/-- A file is there; a request to open it and one to close it arrive. -/
def openAndCloseArrive : List (ProgressThread.Event Event Request) :=
  [.process (.create ['/', 'a'] [1]), .arrive (.openFile ['/', 'a']), .arrive (.close 5)]

/-- The handler of the first is over, that of the second begins. -/
def openHandled : List (ProgressThread.Event Event Request) :=
  [.next, .next, .next, .next, .hgProgress 2, .next, .next, .process .openFind,
    .process (.openCall (some 5)), .next, .next]

theorem requests_handled_open_first :
    ∃ x x', threaded.run openAndCloseArrive = some x ∧ threaded.runFrom x openHandled = some x' ∧
      x'.started = [.openFile ['/', 'a'], .close 5] ∧
      (openHandled.map (ProgressThread.Event.spend Event.settles)).sum ≤ 41 ∧
      ∃ e x'', e.spend Event.settles = 1 ∧ threaded.step x' e = some x'' := by
  have hfirst : (threaded.run openAndCloseArrive).map (fun x =>
      (x.arrivals.length, x.started.length, x.process.dataQueue.length,
        threaded.checkSteps (fun x _ => !decide (Done process 1 x)) x openHandled)) =
        some (2, 0, 0, true) := by
    decide
  have hlast : (threaded.run (openAndCloseArrive ++ openHandled)).map (fun x' =>
      (x'.started, decide (Done process 1 x'))) =
        some ([.openFile ['/', 'a'], .close 5], false) := by
    decide
  obtain ⟨x, hx, hfirst⟩ := Option.map_eq_some_iff.mp hfirst
  simp only [Prod.mk.injEq] at hfirst
  obtain ⟨harrivals, hstarted, hqueue, hcheck⟩ := hfirst
  rw [Machine.run, Machine.runFrom_append, ← Machine.run, hx, Option.bind_some] at hlast
  obtain ⟨x', hx', hlast⟩ := Option.map_eq_some_iff.mp hlast
  obtain ⟨hserved, hnot⟩ := Prod.mk.inj hlast
  obtain ⟨_, hsum, henabled⟩ := requests_handled (Machine.reachable_of_run hx)
    (by rw [harrivals]; decide) (Machine.avoids_of_checkSteps hcheck) hx'
  refine ⟨x, x', hx, hx', hserved, ?_, henabled (of_decide_eq_false hnot)⟩
  rw [hstarted, hqueue] at hsum
  exact hsum

end MtHvac.Server
