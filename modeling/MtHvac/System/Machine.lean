-- SUMMARY: The whole system as a machine: client processes, server processes, and the messages in flight between them.
import Mathlib.Logic.Function.Basic
import MtHvac.Client.Incarnation
import MtHvac.Server.Machine

/-!
# Clients and servers

Any number of clients and servers. A request that a client sends is in flight
until a server receives it; what is in flight is received in any order, and each
message once. The transport completes no request with an error, also if its server has
aborted. A server answers an open request some steps after it received it.

The machine notes for each message which incarnation of which client's descriptor
it is about, and for each descriptor of a server for which of them it was opened.
-/

namespace MtHvac.System

open Base Client

/-! ## State -/

/-- An incarnation of a local descriptor of a client. -/
structure Tag (γ : Type) where
  client : γ
  fd : Int
  incarnation : Option Nat
deriving DecidableEq

/-- A request in flight, an open request that its server is handling, or a
response in flight. -/
inductive Body where
  | request (req : Request)
  | opening (path : Path)
  | opened (retStatus : Int)
  | answered (ret : Int)
deriving DecidableEq

/-- A message between a thread of a client and the server `host`. -/
structure Message (γ τ : Type) where
  tag : Tag γ
  thread : τ
  host : Int
  body : Body
deriving DecidableEq

/-- `closed` are the incarnations whose close request a server has received. -/
structure State (γ τ : Type) where
  clients : γ → Client.State τ
  servers : Int → Server.State
  owner : Int → Table Int (Tag γ)
  network : List (Message γ τ)
  closed : List (Tag γ)

def State.init (γ τ : Type) : State γ τ where
  clients := fun _ => .init τ
  servers := fun _ => .init
  owner := fun _ => .empty
  network := []
  closed := []

/-! ## Steps -/

/-- What a server does without taking a request or answering an open request. -/
def internal : Server.Event → Bool
  | .openRequest _ | .openCall _ | .readRequest _ _ | .seekRequest _ _ _ | .closeRequest _ => false
  | _ => true

inductive Event (γ τ : Type) where
  | client (c : γ) (e : Client.Event τ)
  | server (host : Int) (e : Server.Event)
  /-- A server takes a request. -/
  | receive (m : Message γ τ) (env : ReadEnv)
  /-- `open` returns in the handler of an open request, which responds. -/
  | opened (m : Message γ τ) (fd : Option Int)
  /-- The callback of a response fetches its output. -/
  | respond (m : Message γ τ)
deriving DecidableEq

variable {γ τ : Type} [DecidableEq γ] [DecidableEq τ]

/-- The request that a step of a client's thread sends. -/
def sent (c : γ) (s : Client.State τ) : Client.Event τ → List (Message γ τ)
  | .step t a =>
      match s.nextOp t with
      | some (.forward fd host req) =>
          if a.ok then
            [⟨⟨c, fd, (s.threads t).bind Running.incarnation⟩, t, host, .request req⟩]
          else []
      | _ => []
  | _ => []

/-- Whether a step of a client's thread needs a response. -/
def fetches (s : Client.State τ) : Client.Event τ → Bool
  | .step t _ =>
      match s.nextOp t with
      | some (.openOutput _) | some (.readOutput _) => true
      | _ => false
  | _ => false

/-- The value that a thread may fetch from a response. -/
def Body.value (op : Option Op) : Body → Option Int
  | .opened retStatus =>
      match op with
      | some (.openOutput _) => some retStatus
      | _ => none
  | .answered ret =>
      match op with
      | some (.readOutput _) => some ret
      | _ => none
  | _ => none

/-- The messages in flight after `m` was taken out and `ms` were put in. -/
def State.replace (s : State γ τ) (m : Message γ τ) (ms : List (Message γ τ)) :
    List (Message γ τ) :=
  ms ++ s.network.erase m

/-- The server of `m` receives it. -/
def receive (s : State γ τ) (m : Message γ τ) (env : ReadEnv) : Option (State γ τ) :=
  let server := s.servers m.host
  match m.body with
  | .request (.openFile path) =>
      (Server.machine.step server (.openRequest path)).map fun server' =>
        { s with
          servers := Function.update s.servers m.host server'
          network := s.replace m [{ m with body := .opening path }] }
  | .request (.read req) =>
      (Server.machine.step server (.readRequest req env)).map fun server' =>
        { s with
          servers := Function.update s.servers m.host server'
          network := match (server.handleRead req env).1 with
            | .answered _ ret => s.replace m [{ m with body := .answered ret }]
            | .aborted        => s.replace m [] }
  | .request (.close fd) =>
      (Server.machine.step server (.closeRequest fd)).map fun server' =>
        { s with
          servers := Function.update s.servers m.host server'
          owner := Function.update s.owner m.host ((s.owner m.host).erase fd)
          network := s.replace m []
          closed := m.tag :: s.closed }
  | _ => none

def step [Fintype τ] (cfg : Config) (s : State γ τ) : Event γ τ → Option (State γ τ)
  | .client c e =>
      if fetches (s.clients c) e then none
      else
        ((disciplined τ cfg).step (s.clients c) e).map fun client' =>
          { s with
            clients := Function.update s.clients c client'
            network := sent c (s.clients c) e ++ s.network }
  | .server host e =>
      if internal e then
        (Server.machine.step (s.servers host) e).map fun server' =>
          { s with servers := Function.update s.servers host server' }
      else none
  | .receive m env => if m ∈ s.network then receive s m env else none
  | .opened m fd =>
      match m.body with
      | .opening _ =>
          if m ∈ s.network then
            (Server.machine.step (s.servers m.host) (.openCall fd)).map fun server' =>
              { s with
                servers := Function.update s.servers m.host server'
                owner := match fd with
                  | some fd => Function.update s.owner m.host ((s.owner m.host).set fd m.tag)
                  | none    => s.owner
                network := s.replace m [{ m with body := .opened (fd.getD (-1)) }] }
          else none
      | _ => none
  | .respond m =>
      if m ∈ s.network then
        (m.body.value ((s.clients m.tag.client).nextOp m.thread)).bind fun value =>
          ((disciplined τ cfg).step (s.clients m.tag.client)
              (.step m.thread { value := value })).map fun client' =>
            { s with
              clients := Function.update s.clients m.tag.client client'
              network := s.replace m [] }
      else none

def machine [Fintype τ] (γ : Type) [DecidableEq γ] (cfg : Config) :
    Machine (State γ τ) (Event γ τ) where
  init := .init γ τ
  step := step cfg

/-! ## What a step can do -/

/-- The steps of the system, one rule for each thing a message can do. -/
inductive Step [Fintype τ] (cfg : Config) (s : State γ τ) : Event γ τ → State γ τ → Prop
  | client {c : γ} {e : Client.Event τ} {client' : Client.State τ}
      (hquiet : fetches (s.clients c) e = false)
      (hstep : (disciplined τ cfg).step (s.clients c) e = some client') :
      Step cfg s (.client c e)
        { s with
          clients := Function.update s.clients c client'
          network := sent c (s.clients c) e ++ s.network }
  | server {host : Int} {e : Server.Event} {server' : Server.State} (hint : internal e = true)
      (hstep : Server.machine.step (s.servers host) e = some server') :
      Step cfg s (.server host e) { s with servers := Function.update s.servers host server' }
  | receiveOpen {m : Message γ τ} {env : ReadEnv} {path : Path} {server' : Server.State}
      (hm : m ∈ s.network) (hbody : m.body = .request (.openFile path))
      (hstep : Server.machine.step (s.servers m.host) (.openRequest path) = some server') :
      Step cfg s (.receive m env)
        { s with
          servers := Function.update s.servers m.host server'
          network := s.replace m [{ m with body := .opening path }] }
  | receiveRead {m : Message γ τ} {env : ReadEnv} {req : HvacRpcIn} {server' : Server.State}
      {ms : List (Message γ τ)} (hm : m ∈ s.network) (hbody : m.body = .request (.read req))
      (hstep : Server.machine.step (s.servers m.host) (.readRequest req env) = some server')
      (hms : ms = [] ∨ ∃ ret, ms = [{ m with body := .answered ret }]) :
      Step cfg s (.receive m env)
        { s with
          servers := Function.update s.servers m.host server'
          network := s.replace m ms }
  | receiveClose {m : Message γ τ} {env : ReadEnv} {fd : Int} {server' : Server.State}
      (hm : m ∈ s.network) (hbody : m.body = .request (.close fd))
      (hstep : Server.machine.step (s.servers m.host) (.closeRequest fd) = some server') :
      Step cfg s (.receive m env)
        { s with
          servers := Function.update s.servers m.host server'
          owner := Function.update s.owner m.host ((s.owner m.host).erase fd)
          network := s.replace m []
          closed := m.tag :: s.closed }
  | openFailed {m : Message γ τ} {path : Path} {server' : Server.State} (hm : m ∈ s.network)
      (hbody : m.body = .opening path)
      (hstep : Server.machine.step (s.servers m.host) (.openCall none) = some server') :
      Step cfg s (.opened m none)
        { s with
          servers := Function.update s.servers m.host server'
          network := s.replace m [{ m with body := .opened (-1) }] }
  | opened {m : Message γ τ} {path : Path} {fd : Int} {server' : Server.State}
      (hm : m ∈ s.network) (hbody : m.body = .opening path)
      (hstep : Server.machine.step (s.servers m.host) (.openCall (some fd)) = some server') :
      Step cfg s (.opened m (some fd))
        { s with
          servers := Function.update s.servers m.host server'
          owner := Function.update s.owner m.host ((s.owner m.host).set fd m.tag)
          network := s.replace m [{ m with body := .opened fd }] }
  | respond {m : Message γ τ} {value : Int} {client' : Client.State τ} (hm : m ∈ s.network)
      (hvalue : m.body.value ((s.clients m.tag.client).nextOp m.thread) = some value)
      (hstep : (disciplined τ cfg).step (s.clients m.tag.client)
        (.step m.thread { value := value }) = some client') :
      Step cfg s (.respond m)
        { s with
          clients := Function.update s.clients m.tag.client client'
          network := s.replace m [] }

private theorem step_of_receive [Fintype τ] {cfg : Config} {s s' : State γ τ} {m : Message γ τ}
    {env : ReadEnv} (hm : m ∈ s.network) (h : receive s m env = some s') :
    Step cfg s (.receive m env) s' := by
  unfold receive at h
  split at h
  · next path hbody =>
      obtain ⟨server', hstep, rfl⟩ := Option.map_eq_some_iff.mp h
      exact .receiveOpen hm hbody hstep
  · next req hbody =>
      obtain ⟨server', hstep, rfl⟩ := Option.map_eq_some_iff.mp h
      split
      · exact .receiveRead hm hbody hstep (.inr ⟨_, rfl⟩)
      · exact .receiveRead hm hbody hstep (.inl rfl)
  · next fd hbody =>
      obtain ⟨server', hstep, rfl⟩ := Option.map_eq_some_iff.mp h
      exact .receiveClose hm hbody hstep
  · cases h

theorem step_cases [Fintype τ] {cfg : Config} {s s' : State γ τ} {e : Event γ τ}
    (h : (machine γ cfg).step s e = some s') : Step cfg s e s' := by
  cases e with
  | client c e =>
      simp only [machine, step, Option.ite_none_left_eq_some, Option.map_eq_some_iff] at h
      obtain ⟨hquiet, client', hstep, rfl⟩ := h
      exact .client (by simpa using hquiet) hstep
  | server host e =>
      simp only [machine, step, Option.ite_none_right_eq_some, Option.map_eq_some_iff] at h
      obtain ⟨hint, server', hstep, rfl⟩ := h
      exact .server hint hstep
  | receive m env =>
      simp only [machine, step, Option.ite_none_right_eq_some] at h
      exact step_of_receive h.1 h.2
  | opened m fd =>
      simp only [machine, step] at h
      split at h
      · next path hbody =>
          simp only [Option.ite_none_right_eq_some, Option.map_eq_some_iff] at h
          obtain ⟨hm, server', hstep, rfl⟩ := h
          cases fd with
          | none => exact .openFailed hm hbody hstep
          | some fd => exact .opened hm hbody hstep
      · cases h
  | respond m =>
      simp only [machine, step, Option.ite_none_right_eq_some, Option.bind_eq_some_iff,
        Option.map_eq_some_iff] at h
      obtain ⟨hm, value, hvalue, client', hstep, rfl⟩ := h
      exact .respond hm hvalue hstep

end MtHvac.System
