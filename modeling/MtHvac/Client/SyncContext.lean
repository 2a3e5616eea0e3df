-- SUMMARY: Open, read and seek requests as a machine: sync contexts on the callers' stacks, state records on the heap, and the callbacks.
import Mathlib.Logic.Function.Basic
import MtHvac.Base.Pthread
import MtHvac.Base.Table

/-!
# Sync contexts

A call that sends an open, read or seek request keeps a `hvac_sync_context` on
its stack and leaves a record on the heap that leads the callback to it. Stack
and heap addresses are reused; an access to memory that is no longer alive reads
and writes whatever is there.

What the callbacks do to the maps is left out here, as are the bulk handle of a
read and the copy of the path of an open, which only their own call uses.
-/

namespace MtHvac.Client.SyncContext

open Base

/-! ## State -/

inductive Kind where
  | openFile
  | read
  | seek
deriving DecidableEq

inductive Agent (τ : Type) where
  | caller (t : τ)
  | progress
deriving DecidableEq

/-- `hvac_sync_context`: `done_mutex` and `done_cond` are the monitor. -/
structure Context (τ : Type) where
  done : Bool
  result : Int
  monitor : Monitor (Agent τ)

def Context.init {τ : Type} : Context τ where
  done := false
  result := -1
  monitor := .init

/-- What a call does next. From `lock` to `unlock` it is in
`hvac_wait_for_operation`. -/
inductive CallerPc where
  | malloc
  | forward
  | lock
  | test
  | wait
  | blocked
  | readResult
  | unlock (result : Int)
  | free (result : Int)
  | ret (result : Int)
  | aborted
deriving DecidableEq

structure Caller where
  id : Nat
  kind : Kind
  ctx : Nat
  record : Nat
  pc : CallerPc
deriving DecidableEq

/-- What a callback does next. `decode` stands for everything before the lock. -/
inductive CallbackPc where
  | decode
  | lock
  | setDone
  | setResult
  | broadcast
  | unlock
  | free
deriving DecidableEq

/-- A callback in the progress thread: `arg` is the record, `value` the `ret` or
`ret_status` of the response. -/
structure Callback where
  id : Nat
  kind : Kind
  arg : Nat
  value : Int
  pc : CallbackPc
deriving DecidableEq

/-- A request that was sent, with the argument for its callback. -/
structure Request where
  kind : Kind
  arg : Nat
deriving DecidableEq

/-- What happened in one call: whether its request was sent, what the response to
it said, what the call returned, how often its record was freed. -/
structure Log where
  sent : Bool := false
  response : Option Int := none
  returned : Option Int := none
  freed : Nat := 0
deriving DecidableEq

/-- Memory keeps its content when it is given back; `contextOf` and `recordOf` say
which call's context or record is alive at an address. A record is the pointer
to its context. `invalidFree` notes that dead memory was freed. -/
structure State (τ : Type) where
  contexts : Nat → Context τ
  contextOf : Nat → Option Nat
  records : Nat → Nat
  recordOf : Nat → Option Nat
  threads : τ → Option Caller
  requests : Table Nat Request
  callback : Option Callback
  log : Nat → Log
  nextCall : Nat
  invalidFree : Bool

def init (τ : Type) : State τ where
  contexts := fun _ => .init
  contextOf := fun _ => none
  records := fun _ => 0
  recordOf := fun _ => none
  threads := fun _ => none
  requests := .empty
  callback := none
  log := fun _ => {}
  nextCall := 0
  invalidFree := false

namespace State

variable {τ : Type}

def setContext (s : State τ) (a : Nat) (x : Context τ) : State τ :=
  { s with contexts := Function.update s.contexts a x }

/-- The constructor of a context on the stack. -/
def allocContext (s : State τ) (a i : Nat) : State τ :=
  { s with
    contexts := Function.update s.contexts a .init
    contextOf := Function.update s.contextOf a (some i) }

def dropContext (s : State τ) (a : Nat) : State τ :=
  { s with contextOf := Function.update s.contextOf a none }

/-- `malloc` of a record that is filled with the pointer to a context. -/
def allocRecord (s : State τ) (a i ctx : Nat) : State τ :=
  { s with
    records := Function.update s.records a ctx
    recordOf := Function.update s.recordOf a (some i) }

def setLog (s : State τ) (i : Nat) (l : Log) : State τ :=
  { s with log := Function.update s.log i l }

/-- `free` of the record at an address, whosever it is. -/
def free (s : State τ) (a : Nat) : State τ :=
  match s.recordOf a with
  | some i =>
      { s with recordOf := Function.update s.recordOf a none }.setLog i
        { s.log i with freed := (s.log i).freed + 1 }
  | none => { s with invalidFree := true }

def setRequest (s : State τ) (i : Nat) (q : Option Request) : State τ :=
  { s with requests := Function.update s.requests i q }

def setCallback (s : State τ) (r : Option Callback) : State τ := { s with callback := r }

variable [DecidableEq τ]

def setCaller (s : State τ) (t : τ) (r : Option Caller) : State τ :=
  { s with threads := Function.update s.threads t r }

end State

/-! ## Steps -/

inductive Event (τ : Type) where
  /-- A call begins, with its context at the address `ctx`. -/
  | call (t : τ) (kind : Kind) (ctx : Nat)
  | malloc (t : τ) (record : Nat)
  | forward (t : τ) (ok : Bool)
  | caller (t : τ)
  | spurious (t : τ)
  /-- The response to the request of the call `i` has arrived. -/
  | trigger (i : Nat) (value : Int)
  | callback
deriving DecidableEq

variable {τ : Type} [DecidableEq τ]

/-- The next step of a call that has its record and needs no answer from outside. -/
def State.callerStep (s : State τ) (t : τ) (c : Caller) : Option (State τ) :=
  let x := s.contexts c.ctx
  let goto (s : State τ) (pc : CallerPc) := s.setCaller t (some { c with pc := pc })
  let monitor (m : Monitor (Agent τ)) := s.setContext c.ctx { x with monitor := m }
  match c.pc with
  | .lock       => (x.monitor.lock (.caller t)).map fun m => goto (monitor m) .test
  | .test       => some (goto s (if x.done then .readResult else .wait))
  | .wait       => (x.monitor.condWait (.caller t)).map fun m => goto (monitor m) .blocked
  | .blocked    => (x.monitor.reacquire (.caller t)).map fun m => goto (monitor m) .test
  | .readResult => some (goto s (.unlock x.result))
  | .unlock v   =>
      -- the record of a read is left to its callback
      (x.monitor.unlock (.caller t)).map fun m =>
        goto (monitor m) (if c.kind = .read then .ret v else .free v)
  | .free v     => some (goto (s.free c.record) (.ret v))
  | .ret v      =>
      some (((s.dropContext c.ctx).setLog c.id { s.log c.id with returned := some v }).setCaller
        t none)
  | .malloc | .forward | .aborted => none

/-- The next step of the callback, which finds its context through its record. -/
def State.callbackStep (s : State τ) (cb : Callback) : Option (State τ) :=
  let a := s.records cb.arg
  let x := s.contexts a
  let goto (s : State τ) (pc : CallbackPc) := s.setCallback (some { cb with pc := pc })
  match cb.pc with
  | .decode    => some (goto s .lock)
  | .lock      =>
      (x.monitor.lock .progress).map fun m =>
        goto (s.setContext a { x with monitor := m }) .setDone
  | .setDone   => some (goto (s.setContext a { x with done := true }) .setResult)
  | .setResult => some (goto (s.setContext a { x with result := cb.value }) .broadcast)
  | .broadcast =>
      some (goto (s.setContext a { x with monitor := x.monitor.broadcast }) .unlock)
  | .unlock    =>
      (x.monitor.unlock .progress).map fun m =>
        (s.setContext a { x with monitor := m }).setCallback
          (if cb.kind = .read then some { cb with pc := .free } else none)
  | .free      => some ((s.free cb.arg).setCallback none)

def step (s : State τ) : Event τ → Option (State τ)
  | .call t kind ctx =>
      guarded ((s.threads t).isNone ∧ s.contextOf ctx = none)
        { (s.allocContext ctx s.nextCall).setCaller t
            (some ⟨s.nextCall, kind, ctx, 0, .malloc⟩) with
          nextCall := s.nextCall + 1 }
  | .malloc t record =>
      (s.threads t).bind fun c =>
        guarded (c.pc = .malloc ∧ s.recordOf record = none)
          ((s.allocRecord record c.id c.ctx).setCaller t
            (some { c with record := record, pc := .forward }))
  | .forward t ok =>
      (s.threads t).bind fun c =>
        guarded (c.pc = .forward)
          (if ok then
            ((s.setRequest c.id (some ⟨c.kind, c.record⟩)).setLog c.id
              { s.log c.id with sent := true }).setCaller t (some { c with pc := .lock })
          else
            -- only the seek asserts that its request was sent
            s.setCaller t (some { c with
              pc := if c.kind = .seek then .aborted else .free (-1) }))
  | .caller t => (s.threads t).bind (s.callerStep t)
  | .spurious t =>
      (s.threads t).bind fun c =>
        let x := s.contexts c.ctx
        guarded (c.pc = .blocked)
          (s.setContext c.ctx { x with monitor := x.monitor.wake (.caller t) })
  | .trigger i value =>
      (s.requests i).bind fun q =>
        guarded (s.callback = none)
          (((s.setRequest i none).setLog i { s.log i with response := some value }).setCallback
            (some ⟨i, q.kind, q.arg, value, .decode⟩))
  | .callback => s.callback.bind s.callbackStep

def machine (τ : Type) [DecidableEq τ] : Machine (State τ) (Event τ) where
  init := init τ
  step := step

end MtHvac.Client.SyncContext
