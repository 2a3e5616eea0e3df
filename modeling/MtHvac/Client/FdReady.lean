-- SUMMARY: The descriptor-state objects as a machine: counted pointers to them, their mutexes and condition variables, and the timed wait for a descriptor to get ready.
import Mathlib.Logic.Function.Basic
import MtHvac.Base.Pthread
import MtHvac.Base.Table
import MtHvac.Client.Program

/-!
# Descriptor-state objects

`fd_state_map` leads from a descriptor to a shared object with its state, a mutex
and a condition variable. A call copies the pointer under the shard lock and goes
on without it, so the object may be taken out of the map meanwhile. Heap addresses
are reused.

The shard locks are left out here: each access to the map is one step.
-/

namespace MtHvac.Client.FdReady

open Base

/-! ## Time -/

structure Timespec where
  sec : Int
  nsec : Int
deriving DecidableEq

/-- What `pthread_cond_timedwait` accepts; it fails with `EINVAL` otherwise. -/
def Timespec.Valid (ts : Timespec) : Prop := 0 ≤ ts.nsec ∧ ts.nsec < 1000000000

instance (ts : Timespec) : Decidable ts.Valid := inferInstanceAs (Decidable (_ ∧ _))

def Timespec.nanoseconds (ts : Timespec) : Int := ts.sec * 1000000000 + ts.nsec

/-- The computation of `timeout_ts`, with the clock at `now` nanoseconds. -/
def timeoutTs (now : Nat) (timeoutMs : Int) : Timespec :=
  let sec : Int := now / 1000000000 + timeoutMs.tdiv 1000
  let nsec : Int := now % 1000000000 + timeoutMs.tmod 1000 * 1000000
  if nsec ≥ 1000000000 then ⟨sec + 1, nsec - 1000000000⟩ else ⟨sec, nsec⟩

/-- The deadline is exact, for negative timeouts too. -/
theorem timeoutTs_nanoseconds (now : Nat) (timeoutMs : Int) :
    (timeoutTs now timeoutMs).nanoseconds = now + timeoutMs * 1000000 := by
  have hnow : (now : Int) / 1000000000 * 1000000000 + now % 1000000000 = now :=
    Int.ediv_mul_add_emod _ _
  have hms : timeoutMs.tdiv 1000 * 1000 + timeoutMs.tmod 1000 = timeoutMs :=
    Int.tdiv_mul_add_tmod _ _
  simp only [timeoutTs, Timespec.nanoseconds]
  split <;> dsimp only <;> omega

theorem timeoutTs_valid (now : Nat) {timeoutMs : Int} (h : 0 ≤ timeoutMs) :
    (timeoutTs now timeoutMs).Valid := by
  have hms : 0 ≤ timeoutMs.tmod 1000 ∧ timeoutMs.tmod 1000 < 1000 := by
    rw [Int.tmod_eq_emod_of_nonneg h]
    omega
  simp only [timeoutTs, Timespec.Valid]
  split <;> dsimp only <;> omega

/-! ## State -/

/-- `hvac_fd_status`: `state_mutex` and `ready_cond` are the monitor. `fd` is the descriptor
that the object was made for. -/
structure FdStatus (τ : Type) where
  state : FdState
  monitor : Monitor τ
  fd : Int

def FdStatus.make {τ : Type} (fd : Int) : FdStatus τ := ⟨.opening, .init, fd⟩

inductive Call where
  | hvacSetFdOpening
  | hvacSetFdReady
  | hvacSetFdError
  | hvacWaitFdReady (timeoutMs : Int)
  | hvacCleanupFdState
deriving DecidableEq

/-- The state that `hvac_set_fd_ready` and `hvac_set_fd_error` set. -/
def Call.sets : Call → Option FdState
  | .hvacSetFdReady => some .ready
  | .hvacSetFdError => some .error
  | _               => none

/-- What a call does next. From `firstTest` to `expired` it waits, from `setState` to
`broadcast` it sets the state; `answer` is what a wait returns. -/
inductive Pc where
  | enter
  | store
  | lock
  | setState
  | broadcast
  | firstTest
  | clock
  | test
  | wait
  | blocked
  | expiring
  | expired
  | unlock (answer : Option Bool)
  | drop (answer : Option Bool)
deriving DecidableEq

/-- `status` is the call's own pointer, `started` the time that its clock showed. -/
structure Running where
  id : Nat
  call : Call
  fd : Int
  pc : Pc
  status : Option Nat := none
  timeoutTs : Timespec := ⟨0, 0⟩
  started : Nat := 0
deriving DecidableEq

/-- What a wait returned, and when. -/
structure Answer where
  value : Bool
  clock : Nat
deriving DecidableEq

/-- An object is destroyed when its count gets to zero. -/
structure State (τ : Type) where
  statuses : Nat → FdStatus τ
  counts : Nat → Nat
  fdStateMap : Table Int Nat
  threads : τ → Option Running
  clock : Nat
  answers : Nat → Option Answer
  nextCall : Nat

def init (τ : Type) : State τ where
  statuses := fun _ => .make 0
  counts := fun _ => 0
  fdStateMap := .empty
  threads := fun _ => none
  clock := 0
  answers := fun _ => none
  nextCall := 0

namespace State

variable {τ : Type}

def setStatus (s : State τ) (a : Nat) (x : FdStatus τ) : State τ :=
  { s with statuses := Function.update s.statuses a x }

/-- A copy of a shared pointer. -/
def copyRef (s : State τ) (a : Nat) : State τ :=
  { s with counts := Function.update s.counts a (s.counts a + 1) }

/-- The destructor of a shared pointer. -/
def dropRef (s : State τ) (a : Nat) : State τ :=
  { s with counts := Function.update s.counts a (s.counts a - 1) }

/-- The pointer in the entry for `fd` goes away, if there is one. -/
def dropEntry (s : State τ) (fd : Int) : State τ :=
  { s with counts := (s.fdStateMap fd).elim s.counts fun a => (s.dropRef a).counts }

variable [DecidableEq τ]

def setThread (s : State τ) (t : τ) (run : Option Running) : State τ :=
  { s with threads := Function.update s.threads t run }

/-- The end of a call, with the answer of a wait. -/
def finish (s : State τ) (t : τ) (id : Nat) (answer : Option Bool) : State τ :=
  { s.setThread t none with
    answers := Function.update s.answers id (answer.map (⟨·, s.clock⟩)) }

end State

/-! ## Steps -/

inductive Event (τ : Type) where
  | call (t : τ) (c : Call) (fd : Int)
  /-- `std::make_shared` in `hvac_set_fd_opening`, at the address `a`. -/
  | makeShared (t : τ) (a : Nat)
  | step (t : τ)
  | timeout (t : τ)
  | spurious (t : τ)
  | tick (d : Nat)
deriving DecidableEq

variable {τ : Type} [DecidableEq τ]

/-- The answer of a wait that does not find an object, or gives up. -/
def Call.failed : Call → Option Bool
  | .hvacWaitFdReady _ => some false
  | _                  => none

/-- `hvac_get_fd_status`, with the return of a call that gets no pointer. -/
def State.lookup (s : State τ) (t : τ) (run : Running) : State τ :=
  match s.fdStateMap run.fd with
  | none   => s.finish t run.id run.call.failed
  | some a => (s.copyRef a).setThread t (some { run with pc := .lock, status := some a })

/-- The step of a call on the map. -/
def State.enter (s : State τ) (t : τ) (run : Running) : Option (State τ) :=
  match run.call with
  | .hvacSetFdOpening   => none
  | .hvacCleanupFdState =>
      some (State.finish
        { s.dropEntry run.fd with fdStateMap := s.fdStateMap.erase run.fd } t run.id none)
  | _ => some (s.lookup t run)

/-- The steps of a call that has its pointer; `none` where it has to wait. -/
def State.goOn (s : State τ) (t : τ) (run : Running) (a : Nat) : Option (State τ) :=
  let x := s.statuses a
  let goto (s : State τ) (pc : Pc) := s.setThread t (some { run with pc := pc })
  let monitor (m : Monitor τ) := s.setStatus a { x with monitor := m }
  match run.pc with
  | .enter     => none
  | .store     =>
      some (goto { (s.copyRef a).dropEntry run.fd with fdStateMap := s.fdStateMap.set run.fd a }
        (.drop none))
  | .lock      =>
      (x.monitor.lock t).map fun m =>
        goto (monitor m) (if run.call.sets.isSome then .setState else .firstTest)
  | .setState  =>
      run.call.sets.map fun state => goto (s.setStatus a { x with state := state }) .broadcast
  | .broadcast => some (goto (monitor x.monitor.broadcast) (.unlock none))
  | .firstTest =>
      some (goto s (if x.state = .ready ∨ x.state = .error
        then .unlock (some (x.state = .ready)) else .clock))
  | .clock     =>
      match run.call with
      | .hvacWaitFdReady timeoutMs =>
          some (s.setThread t (some { run with
            pc := .test, timeoutTs := timeoutTs s.clock timeoutMs, started := s.clock }))
      | _ => none
  | .test      =>
      some (goto s (if x.state = .opening then .wait else .unlock (some (x.state = .ready))))
  | .wait      =>
      -- `EINVAL` leaves the mutex alone, and the loop goes on
      if run.timeoutTs.Valid then (x.monitor.condWait t).map fun m => goto (monitor m) .blocked
      else some (goto s .test)
  | .blocked   => (x.monitor.reacquire t).map fun m => goto (monitor m) .test
  | .expiring  => (x.monitor.reacquire t).map fun m => goto (monitor m) .expired
  | .expired   => (x.monitor.unlock t).map fun m => goto (monitor m) (.drop (some false))
  | .unlock v  => (x.monitor.unlock t).map fun m => goto (monitor m) (.drop v)
  | .drop v    => some ((s.dropRef a).finish t run.id v)

def step (s : State τ) : Event τ → Option (State τ)
  | .call t c fd =>
      guarded ((s.threads t).isNone)
        { s.setThread t (some { id := s.nextCall, call := c, fd := fd, pc := .enter }) with
          nextCall := s.nextCall + 1 }
  | .makeShared t a =>
      (s.threads t).bind fun run =>
        guarded (run.pc = .enter ∧ run.call = .hvacSetFdOpening ∧ s.counts a = 0)
          (((s.setStatus a (.make run.fd)).copyRef a).setThread t
            (some { run with pc := .store, status := some a }))
  | .step t =>
      (s.threads t).bind fun run => run.status.elim (s.enter t run) (s.goOn t run)
  | .timeout t =>
      (s.threads t).bind fun run => run.status.bind fun a =>
        let x := s.statuses a
        guarded (run.pc = .blocked ∧ run.timeoutTs.nanoseconds ≤ s.clock)
          ((s.setStatus a { x with monitor := x.monitor.wake t }).setThread t
            (some { run with pc := .expiring }))
  | .spurious t =>
      (s.threads t).bind fun run => run.status.bind fun a =>
        let x := s.statuses a
        guarded (run.pc = .blocked) (s.setStatus a { x with monitor := x.monitor.wake t })
  | .tick d => some { s with clock := s.clock + d }

def machine (τ : Type) [DecidableEq τ] : Machine (State τ) (Event τ) where
  init := init τ
  step := step

/-! ## What a step can do -/

/-- The call begins with `hvac_get_fd_status`. -/
def Call.looksUp : Call → Bool
  | .hvacSetFdOpening | .hvacCleanupFdState => false
  | _                                       => true

/-- Thread `t` is in the call `run`, with its pointer to the object at `a`. -/
structure State.At (s : State τ) (t : τ) (run : Running) (a : Nat) (pc : Pc) : Prop where
  thread : s.threads t = some run
  status : run.status = some a
  pc : run.pc = pc

/-- The call goes on, and may change its object. -/
def State.moved (s : State τ) (t : τ) (run : Running) (a : Nat) (x : FdStatus τ) (pc : Pc) :
    State τ :=
  (s.setStatus a x).setThread t (some { run with pc := pc })

inductive Step (s : State τ) : Event τ → State τ → Prop
  | call {t : τ} {c : Call} {fd : Int} (hidle : s.threads t = none) :
      Step s (.call t c fd)
        { s.setThread t (some { id := s.nextCall, call := c, fd := fd, pc := .enter }) with
          nextCall := s.nextCall + 1 }
  | makeShared {t : τ} {run : Running} {a : Nat} (hrun : s.threads t = some run)
      (hpc : run.pc = .enter) (hdead : s.counts a = 0) :
      Step s (.makeShared t a) (((s.setStatus a (.make run.fd)).copyRef a).setThread t
        (some { run with pc := .store, status := some a }))
  | cleanup {t : τ} {run : Running} (hrun : s.threads t = some run) (hnone : run.status = none)
      (hcall : run.call = .hvacCleanupFdState) :
      Step s (.step t) (State.finish
        { s.dropEntry run.fd with fdStateMap := s.fdStateMap.erase run.fd } t run.id none)
  | missing {t : τ} {run : Running} (hrun : s.threads t = some run) (hnone : run.status = none)
      (hcall : run.call.looksUp = true) (hentry : s.fdStateMap run.fd = none) :
      Step s (.step t) (s.finish t run.id run.call.failed)
  | found {t : τ} {run : Running} {a : Nat} (hrun : s.threads t = some run)
      (hnone : run.status = none) (hcall : run.call.looksUp = true)
      (hentry : s.fdStateMap run.fd = some a) :
      Step s (.step t)
        ((s.copyRef a).setThread t (some { run with pc := .lock, status := some a }))
  | store {t : τ} {run : Running} {a : Nat} (hat : s.At t run a .store) :
      Step s (.step t) (State.setThread
        { (s.copyRef a).dropEntry run.fd with fdStateMap := s.fdStateMap.set run.fd a } t
        (some { run with pc := .drop none }))
  | lock {t : τ} {run : Running} {a : Nat} (hat : s.At t run a .lock)
      (hfree : (s.statuses a).monitor.owner = none) :
      Step s (.step t) (s.moved t run a
        { s.statuses a with monitor := { (s.statuses a).monitor with owner := some t } }
        (if run.call.sets.isSome then .setState else .firstTest))
  | setState {t : τ} {run : Running} {a : Nat} {state : FdState} (hat : s.At t run a .setState)
      (hstate : run.call.sets = some state) :
      Step s (.step t) (s.moved t run a { s.statuses a with state := state } .broadcast)
  | broadcast {t : τ} {run : Running} {a : Nat} (hat : s.At t run a .broadcast) :
      Step s (.step t) (s.moved t run a
        { s.statuses a with monitor := (s.statuses a).monitor.broadcast } (.unlock none))
  | decided {t : τ} {run : Running} {a : Nat} {pc : Pc} (hat : s.At t run a pc)
      (hpc : pc = .firstTest ∨ pc = .test) (hstate : (s.statuses a).state ≠ .opening) :
      Step s (.step t) (s.setThread t (some { run with
        pc := .unlock (some ((s.statuses a).state = .ready)) }))
  | undecided {t : τ} {run : Running} {a : Nat} (hat : s.At t run a .firstTest)
      (hstate : (s.statuses a).state = .opening) :
      Step s (.step t) (s.setThread t (some { run with pc := .clock }))
  | clock {t : τ} {run : Running} {a : Nat} {timeoutMs : Int} (hat : s.At t run a .clock)
      (hcall : run.call = .hvacWaitFdReady timeoutMs) :
      Step s (.step t) (s.setThread t (some { run with
        pc := .test, timeoutTs := timeoutTs s.clock timeoutMs, started := s.clock }))
  | opening {t : τ} {run : Running} {a : Nat} (hat : s.At t run a .test)
      (hstate : (s.statuses a).state = .opening) :
      Step s (.step t) (s.setThread t (some { run with pc := .wait }))
  | wait {t : τ} {run : Running} {a : Nat} (hat : s.At t run a .wait)
      (hown : (s.statuses a).monitor.owner = some t) :
      Step s (.step t) (s.moved t run a
        { s.statuses a with monitor :=
          { owner := none
            waiting := fun t' => if t' = t then true else (s.statuses a).monitor.waiting t' } }
        .blocked)
  | invalid {t : τ} {run : Running} {a : Nat} (hat : s.At t run a .wait) :
      Step s (.step t) (s.setThread t (some { run with pc := .test }))
  | reacquire {t : τ} {run : Running} {a : Nat} {pc : Pc} (hat : s.At t run a pc)
      (hpc : pc = .blocked ∨ pc = .expiring) (hfree : (s.statuses a).monitor.owner = none)
      (hawake : (s.statuses a).monitor.waiting t = false) :
      Step s (.step t) (s.moved t run a
        { s.statuses a with monitor := { (s.statuses a).monitor with owner := some t } }
        (if pc = .blocked then .test else .expired))
  | unlock {t : τ} {run : Running} {a : Nat} {pc : Pc} {v : Option Bool} (hat : s.At t run a pc)
      (hpc : pc = .unlock v ∨ pc = .expired ∧ v = some false)
      (hown : (s.statuses a).monitor.owner = some t) :
      Step s (.step t) (s.moved t run a
        { s.statuses a with monitor := { (s.statuses a).monitor with owner := none } } (.drop v))
  | drop {t : τ} {run : Running} {a : Nat} {v : Option Bool} (hat : s.At t run a (.drop v)) :
      Step s (.step t) ((s.dropRef a).finish t run.id v)
  | timeout {t : τ} {run : Running} {a : Nat} (hat : s.At t run a .blocked)
      (hlate : run.timeoutTs.nanoseconds ≤ s.clock) :
      Step s (.timeout t) (s.moved t run a
        { s.statuses a with monitor := (s.statuses a).monitor.wake t } .expiring)
  | spurious {t : τ} {run : Running} {a : Nat} (hat : s.At t run a .blocked) :
      Step s (.spurious t) (s.moved t run a
        { s.statuses a with monitor := (s.statuses a).monitor.wake t } .blocked)
  | tick {d : Nat} : Step s (.tick d) { s with clock := s.clock + d }

theorem setThread_self {s : State τ} {t : τ} {run : Running} (h : s.threads t = some run) :
    s.setThread t (some run) = s := by
  rw [State.setThread, ← h, Function.update_eq_self]

theorem enter_cases {s s' : State τ} {t : τ} {run : Running} (hrun : s.threads t = some run)
    (hnone : run.status = none) (h : s.enter t run = some s') : Step s (.step t) s' := by
  have hlookup : run.call.looksUp = true → Step s (.step t) (s.lookup t run) := by
    intro hcall
    rw [State.lookup]
    split
    · next hentry => exact .missing hrun hnone hcall hentry
    · next a hentry => exact .found hrun hnone hcall hentry
  cases hcall : run.call with
  | hvacSetFdOpening => simp [State.enter, hcall] at h
  | hvacCleanupFdState =>
      simp only [State.enter, hcall, Option.some.injEq] at h
      exact h ▸ .cleanup hrun hnone hcall
  | _ =>
      simp only [State.enter, hcall, Option.some.injEq] at h
      exact h ▸ hlookup (by rw [hcall]; rfl)

theorem goOn_cases {s s' : State τ} {t : τ} {run : Running} {a : Nat} {pc : Pc}
    (hat : s.At t run a pc) (h : s.goOn t run a = some s') : Step s (.step t) s' := by
  cases hpc : pc with
  | enter => simp [State.goOn, hat.pc, hpc] at h
  | store =>
      simp only [State.goOn, hat.pc, hpc, Option.some.injEq] at h
      exact h ▸ .store (hpc ▸ hat)
  | lock =>
      simp only [State.goOn, hat.pc, hpc, Option.map_eq_some_iff, Monitor.lock_eq_some] at h
      obtain ⟨m, ⟨hfree, rfl⟩, rfl⟩ := h
      exact .lock (hpc ▸ hat) hfree
  | setState =>
      simp only [State.goOn, hat.pc, hpc, Option.map_eq_some_iff] at h
      obtain ⟨state, hstate, rfl⟩ := h
      exact .setState (hpc ▸ hat) hstate
  | broadcast =>
      simp only [State.goOn, hat.pc, hpc, Option.some.injEq] at h
      exact h ▸ .broadcast (hpc ▸ hat)
  | firstTest =>
      simp only [State.goOn, hat.pc, hpc, Option.some.injEq] at h
      subst h
      by_cases hstate : (s.statuses a).state = .opening
      · simp only [hstate, reduceCtorEq, or_self, if_false]
        exact .undecided (hpc ▸ hat) hstate
      · have hset : (s.statuses a).state = .ready ∨ (s.statuses a).state = .error := by
          cases hs : (s.statuses a).state with
          | opening => exact absurd hs hstate
          | ready => exact .inl rfl
          | error => exact .inr rfl
        rw [if_pos hset]
        exact .decided (hpc ▸ hat) (.inl rfl) hstate
  | clock =>
      simp only [State.goOn, hat.pc, hpc] at h
      cases hcall : run.call with
      | hvacWaitFdReady timeoutMs =>
          simp only [hcall, Option.some.injEq] at h
          exact h ▸ hcall ▸ .clock (hpc ▸ hat) hcall
      | _ => simp [hcall] at h
  | test =>
      simp only [State.goOn, hat.pc, hpc, Option.some.injEq] at h
      subst h
      by_cases hstate : (s.statuses a).state = .opening
      · rw [if_pos hstate]
        exact .opening (hpc ▸ hat) hstate
      · rw [if_neg hstate]
        exact .decided (hpc ▸ hat) (.inr rfl) hstate
  | wait =>
      simp only [State.goOn, hat.pc, hpc] at h
      by_cases hvalid : run.timeoutTs.Valid
      · simp only [hvalid, if_true, Option.map_eq_some_iff, Monitor.condWait_eq_some] at h
        obtain ⟨m, ⟨hown, rfl⟩, rfl⟩ := h
        exact .wait (hpc ▸ hat) hown
      · simp only [hvalid, if_false, Option.some.injEq] at h
        exact h ▸ .invalid (hpc ▸ hat)
  | blocked =>
      simp only [State.goOn, hat.pc, hpc, Option.map_eq_some_iff, Monitor.reacquire_eq_some] at h
      obtain ⟨m, ⟨⟨hfree, hawake⟩, rfl⟩, rfl⟩ := h
      exact .reacquire (hpc ▸ hat) (.inl rfl) hfree hawake
  | expiring =>
      simp only [State.goOn, hat.pc, hpc, Option.map_eq_some_iff, Monitor.reacquire_eq_some] at h
      obtain ⟨m, ⟨⟨hfree, hawake⟩, rfl⟩, rfl⟩ := h
      exact .reacquire (hpc ▸ hat) (.inr rfl) hfree hawake
  | expired =>
      simp only [State.goOn, hat.pc, hpc, Option.map_eq_some_iff, Monitor.unlock_eq_some] at h
      obtain ⟨m, ⟨hown, rfl⟩, rfl⟩ := h
      exact .unlock (hpc ▸ hat) (.inr ⟨rfl, rfl⟩) hown
  | unlock v =>
      simp only [State.goOn, hat.pc, hpc, Option.map_eq_some_iff, Monitor.unlock_eq_some] at h
      obtain ⟨m, ⟨hown, rfl⟩, rfl⟩ := h
      exact .unlock (hpc ▸ hat) (.inl rfl) hown
  | drop v =>
      simp only [State.goOn, hat.pc, hpc, Option.some.injEq] at h
      exact h ▸ .drop (hpc ▸ hat)

theorem step_cases {s s' : State τ} {e : Event τ} (h : (machine τ).step s e = some s') :
    Step s e s' := by
  cases e with
  | call t c fd =>
      obtain ⟨hidle, rfl⟩ := guarded_eq_some.mp h
      exact .call (Option.isNone_iff_eq_none.mp hidle)
  | makeShared t a =>
      obtain ⟨run, hrun, h⟩ := Option.bind_eq_some_iff.mp h
      obtain ⟨⟨hpc, _, hdead⟩, rfl⟩ := guarded_eq_some.mp h
      exact .makeShared hrun hpc hdead
  | timeout t =>
      obtain ⟨run, hrun, h⟩ := Option.bind_eq_some_iff.mp h
      obtain ⟨a, ha, h⟩ := Option.bind_eq_some_iff.mp h
      obtain ⟨⟨hpc, hlate⟩, rfl⟩ := guarded_eq_some.mp h
      exact .timeout ⟨hrun, ha, hpc⟩ hlate
  | spurious t =>
      obtain ⟨run, hrun, h⟩ := Option.bind_eq_some_iff.mp h
      obtain ⟨a, ha, h⟩ := Option.bind_eq_some_iff.mp h
      obtain ⟨hpc, rfl⟩ := guarded_eq_some.mp h
      have hstep := Step.spurious ⟨hrun, ha, hpc⟩
      have hsame := @setThread_self _ _ (s.setStatus a { s.statuses a with
        monitor := (s.statuses a).monitor.wake t }) t run hrun
      rwa [State.moved, ← hpc, hsame] at hstep
  | tick d => exact Option.some.inj h ▸ .tick
  | step t =>
      obtain ⟨run, hrun, h⟩ := Option.bind_eq_some_iff.mp h
      cases ha : run.status with
      | none =>
          rw [ha, Option.elim_none] at h
          exact enter_cases hrun ha h
      | some a =>
          rw [ha, Option.elim_some] at h
          exact goOn_cases ⟨hrun, ha, rfl⟩ h

end MtHvac.Client.FdReady
