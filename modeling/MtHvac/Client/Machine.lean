-- SUMMARY: The client process as a machine: threads that run the wrappers over the shared maps and the kernel's descriptors.
import Mathlib.Data.Finset.Basic
import MtHvac.Base.Machine
import MtHvac.Client.Program

/-!
# The client process

Any number of threads call the wrappers. A step of the machine is a call, one
operation of a running call, or a return. What the outside decides comes with
the event: the descriptor number that the kernel picks, the outcome of
`HG_Forward`, the status in a response.

Each time the kernel hands out a descriptor number, a new incarnation of that
number begins. The machine notes which incarnation a call works on and which
open request was sent last for a number; the program knows neither.
-/

namespace MtHvac.Client

open Base

/-! ## State -/

/-- An open request that was sent: for which incarnation, where to, the status in
its response, and whether a close request has been sent for it. -/
structure OpenRpc where
  incarnation : Option Nat
  host : Int
  path : Path
  status : Option Int
  closed : Bool
deriving DecidableEq

/-- What the threads share. `kernel` holds the open descriptors. -/
structure World where
  fdMap : Table Int Path
  fdRedirMap : Table Int Int
  fdStateMap : Table Int FdState
  kernel : Table Int Nat
  nextIncarnation : Nat
  lastOpen : Table Int OpenRpc

/-- A call in progress: the descriptor it works on, and the request whose response
it waits for. -/
structure Running where
  call : Call
  on : Option Int
  incarnation : Option Nat
  awaiting : Option (Int × Request)
  code : Code Int

/-- `held` are the descriptors whose open has returned and whose close has not
been called. -/
structure State (τ : Type) where
  world : World
  held : Finset Int
  threads : τ → Option Running

def World.init : World where
  fdMap := .empty
  fdRedirMap := .empty
  fdStateMap := .empty
  kernel := .empty
  nextIncarnation := 0
  lastOpen := .empty

def State.init (τ : Type) : State τ where
  world := .init
  held := ∅
  threads := fun _ => none

/-! ## Operations -/

/-- What the outside answers to an operation. -/
structure Answer where
  fd : Option Int := none
  path : Option Path := none
  ok : Bool := true
  value : Int := 0
deriving DecidableEq

/-- The note of a request that was sent. -/
def World.sent (w : World) (incarnation : Option Nat) (fd host : Int) : Request → World
  | .openFile path =>
      { w with lastOpen := w.lastOpen.set fd ⟨incarnation, host, path, none, false⟩ }
  | .read _  => w
  | .close _ => { w with lastOpen := w.lastOpen.update fd fun r => { r with closed := true } }

/-- One operation of a call on `incarnation`; `none` where it has to wait. -/
def World.act (w : World) (incarnation : Option Nat) : (o : Op) → Answer → Option (o.Res × World)
  | .realOpen _ _, a =>
      match a.fd with
      | none    => some (none, w)
      | some fd =>
          guarded (0 ≤ fd ∧ w.kernel fd = none)
            (some fd,
              { w with
                kernel := w.kernel.set fd w.nextIncarnation
                nextIncarnation := w.nextIncarnation + 1 })
  | .realRead _ _, a              => some (a.value, w)
  | .realPread _ _ _, a           => some (a.value, w)
  | .realClose fd, a              => some (a.value, { w with kernel := w.kernel.erase fd })
  | .canonical _, a               => some (a.path, w)
  | .currentPath, a               => some (a.path, w)
  | .fdMapFind fd, _              => some (w.fdMap fd, w)
  | .fdMapEntry fd, _             => some (w.fdMap.entry fd [], { w with fdMap := w.fdMap.touch fd [] })
  | .fdMapSet fd path, _          => some ((), { w with fdMap := w.fdMap.set fd path })
  | .fdMapErase fd, _             => some ((), { w with fdMap := w.fdMap.erase fd })
  | .fdRedirMapFind fd, _         => some (w.fdRedirMap fd, w)
  | .fdRedirMapEntry fd, _        =>
      some (w.fdRedirMap.entry fd 0, { w with fdRedirMap := w.fdRedirMap.touch fd 0 })
  | .fdRedirMapSet fd remoteFd, _ =>
      some ((), { w with fdRedirMap := w.fdRedirMap.set fd remoteFd })
  | .fdRedirMapErase fd, _        => some ((), { w with fdRedirMap := w.fdRedirMap.erase fd })
  | .fdStateFind fd, _            => some (w.fdStateMap fd, w)
  | .fdStateSet fd state, _       => some ((), { w with fdStateMap := w.fdStateMap.set fd state })
  | .fdStateUpdate fd state, _    =>
      some ((), { w with fdStateMap := w.fdStateMap.update fd fun _ => state })
  | .fdStateTimedWait fd, a       =>
      -- it ends early if the descriptor becomes ready, and at any time by the time-out
      guarded (a.ok = true → w.fdStateMap fd = some .ready) (a.ok, w)
  | .fdStateErase fd, _           => some ((), { w with fdStateMap := w.fdStateMap.erase fd })
  | .forward fd host req, a       =>
      some (a.ok, if a.ok then w.sent incarnation fd host req else w)
  | .openOutput fd, a             =>
      some (a.value,
        { w with lastOpen := w.lastOpen.update fd fun r => { r with status := some a.value } })
  | .readOutput _, a              => some (a.value, w)
  | .logNoMapping _, _            => some ((), w)

/-- Open and read requests have a response, close requests have none. -/
def Request.awaited (host : Int) : Request → Option (Int × Request)
  | .close _ => none
  | req      => some (host, req)

/-- The descriptor of a call after an operation: from `__real_open` on it works on
one, and after `__real_close` no longer. -/
def Op.onAfter : (o : Op) → o.Res → Option Int → Option Int
  | .realOpen _ _, r, _ => r
  | .realClose _, _, _  => none
  | _, _, on            => on

def Op.incarnationAfter (w : World) : (o : Op) → o.Res → Option Nat → Option Nat
  | .realOpen _ _, r, _ => r.map fun _ => w.nextIncarnation
  | _, _, incarnation   => incarnation

def Op.awaitingAfter : (o : Op) → o.Res → Option (Int × Request) → Option (Int × Request)
  | .forward _ host req, r, _ => if r then req.awaited host else none
  | .openOutput _, _, _       => none
  | .readOutput _, _, _       => none
  | _, _, awaiting            => awaiting

/-- A call after its next operation `o` responded `r` in the world `w`. -/
def Running.resume (run : Running) (w : World) (o : Op) (r : o.Res) (code : Code Int) : Running :=
  { run with
    on := o.onAfter r run.on
    incarnation := o.incarnationAfter w r run.incarnation
    awaiting := o.awaitingAfter r run.awaiting
    code := code }

/-- The operation that a thread performs next. -/
def State.nextOp {τ : Type} (s : State τ) (t : τ) : Option Op :=
  (s.threads t).bind fun run =>
    match run.code with
    | .call o _ => some o
    | .ret _    => none

theorem nextOp_cases {τ : Type} {s : State τ} {t : τ} {o : Op} (h : s.nextOp t = some o) :
    ∃ run k, s.threads t = some run ∧ run.code = .call o k := by
  obtain ⟨run, hrun, h⟩ := Option.bind_eq_some_iff.mp h
  split at h
  · next o' k hcode =>
      obtain rfl := Option.some.inj h
      exact ⟨run, k, hrun, hcode⟩
  · cases h

theorem nextOp_of_code {τ : Type} {s : State τ} {t : τ} {run : Running} {o : Op}
    {k : o.Res → Code Int} (hrun : s.threads t = some run) (hcode : run.code = .call o k) :
    s.nextOp t = some o := by
  simp [State.nextOp, hrun, hcode]

/-! ## Steps -/

inductive Event (τ : Type) where
  | call (t : τ) (c : Call)
  | step (t : τ) (a : Answer)
  | ret (t : τ)
deriving DecidableEq

/-- The descriptor argument of a call. -/
def Call.fd : Call → Option Int
  | .openFile _ _ => none
  | .read fd _ | .pread fd _ _ | .close fd => some fd

variable {τ : Type} [DecidableEq τ]

def State.setThread (s : State τ) (t : τ) (run : Option Running) : τ → Option Running :=
  fun t' => if t' = t then run else s.threads t'

/-- A call begins; a close gives its descriptor up. -/
def State.begin (cfg : Config) (s : State τ) (t : τ) (c : Call) : State τ :=
  { s with
    held := match c with
      | .close fd => s.held.erase fd
      | _         => s.held
    threads := s.setThread t
      (some ⟨c, c.fd, c.fd.bind s.world.kernel, none, c.code cfg⟩) }

/-- A call returns; an open hands its descriptor to the application. -/
def State.finish (s : State τ) (t : τ) (run : Running) : State τ :=
  { s with
    held := match run.call, run.on with
      | .openFile _ _, some fd => insert fd s.held
      | _, _                   => s.held
    threads := s.setThread t none }

/-- The steps of the threads; the application calls within its `discipline`. -/
def step (cfg : Config) (discipline : State τ → Call → Bool) (s : State τ) :
    Event τ → Option (State τ)
  | .call t c =>
      guarded ((s.threads t).isNone ∧ discipline s c) (s.begin cfg t c)
  | .step t a =>
      match s.threads t with
      | some run =>
          match run.code with
          | .call o k =>
              (s.world.act run.incarnation o a).map fun (r, w) =>
                { s with
                  world := w
                  threads := s.setThread t (some (run.resume s.world o r (k r))) }
          | .ret _ => none
      | none => none
  | .ret t =>
      match s.threads t with
      | some run =>
          match run.code with
          | .ret _    => some (s.finish t run)
          | .call _ _ => none
      | none => none

def machine (cfg : Config) (discipline : State τ → Call → Bool) : Machine (State τ) (Event τ) where
  init := .init τ
  step := step cfg discipline

/-! ## What a step can do -/

inductive Step (cfg : Config) (discipline : State τ → Call → Bool) (s : State τ) :
    Event τ → State τ → Prop
  | call {t : τ} {c : Call} (hidle : s.threads t = none) (hcall : discipline s c = true) :
      Step cfg discipline s (.call t c) (s.begin cfg t c)
  | op {t : τ} {a : Answer} {run : Running} {o : Op} {k : o.Res → Code Int} {r : o.Res}
      {w : World} (hrun : s.threads t = some run) (hcode : run.code = .call o k)
      (hact : s.world.act run.incarnation o a = some (r, w)) :
      Step cfg discipline s (.step t a)
        { s with
          world := w
          threads := s.setThread t (some (run.resume s.world o r (k r))) }
  | ret {t : τ} {run : Running} {v : Int} (hrun : s.threads t = some run)
      (hcode : run.code = .ret v) :
      Step cfg discipline s (.ret t) (s.finish t run)

theorem step_cases {cfg : Config} {discipline : State τ → Call → Bool} {s s' : State τ} {e : Event τ}
    (h : (machine cfg discipline).step s e = some s') : Step cfg discipline s e s' := by
  cases e with
  | call t c =>
      obtain ⟨⟨hidle, hcall⟩, rfl⟩ := guarded_eq_some.mp h
      exact .call (Option.isNone_iff_eq_none.mp hidle) hcall
  | step t a =>
      simp only [machine, step] at h
      split at h
      · next run hrun =>
          split at h
          · next o k hcode =>
              obtain ⟨⟨r, w⟩, hact, rfl⟩ := Option.map_eq_some_iff.mp h
              exact .op hrun hcode hact
          · cases h
      · cases h
  | ret t =>
      simp only [machine, step] at h
      split at h
      · next run hrun =>
          split at h
          · next v hcode => exact Option.some.inj h ▸ .ret hrun hcode
          · cases h
      · cases h

end MtHvac.Client
