-- SUMMARY: The server's request handlers as programs, with what they take from Mercury and the heap; run alone, they are steps of the server process.
import MtHvac.Base.Program
import MtHvac.Client.Rpc
import MtHvac.Server.Machine

/-!
# The request handlers

`hvac_open_rpc_handler` and its siblings, and the bulk callback of a read. Unlike the
steps of the server process, the programs have the RPC handles, the decoded inputs, the
bulk handles and the heap blocks.

A failing assertion ends the process: no operation follows it. `malloc` succeeds.
-/

namespace MtHvac.Server.Handlers

open Base
open Client.Rpc (HvacSeekIn)

/-! ## Operations -/

inductive RequestKind where
  | openFile
  | read
  | seek
  | close
deriving DecidableEq

/-- The record that `HG_Get_input` decodes. -/
abbrev RequestKind.In : RequestKind → Type
  | .openFile => Path
  | .read     => HvacRpcIn
  | .seek     => HvacSeekIn
  | .close    => Int

/-- `struct hvac_rpc_state`, in the heap block `block`. -/
structure HvacRpcState where
  block : Nat
  size : Nat
  buffer : Nat
  bulkHandle : Nat
  handle : Nat
  input : HvacRpcIn
deriving DecidableEq

/-- Handles and blocks are named by numbers. -/
inductive HandlerOp where
  /-- `HG_Get_input`; `none` is an error. -/
  | getInput (kind : RequestKind) (handle : Nat)
  | getPrintStatsInput (handle : Nat)
  | freeInput (handle : Nat)
  /-- Whether `HG_Respond` is a success. -/
  | respond (handle : Nat) (ret : Int)
  | destroy (handle : Nat)
  | getInfo (handle : Nat)
  | malloc
  | calloc (size : Nat)
  | free (block : Nat)
  | bulkCreate (buffer size : Nat)
  | bulkFree (bulk : Nat)
  /-- Whether `HG_Bulk_transfer` has started the transfer; the callback runs at its end. -/
  | bulkTransfer (state : HvacRpcState)
  /-- Whether the completion that the callback is handed is a success. -/
  | infoRet
  | openFile (path : Path)
  | close (fd : Int)
  | read (fd : Int) (buffer size : Nat)
  | pread (fd : Int) (buffer size : Nat) (offset : Int)
  | lseek (fd offset whence : Int)
  | fdToPathEntry (fd : Int)
  | fdToPathSet (fd : Int) (path : Path)
  | fdToPathErase (fd : Int)
  | pathCacheMapFind (path : Path)
  | pathCacheMapEntry (path : Path)
  | dataQueueLock
  | dataQueuePush (path : Path)
  | dataQueueSignal
  | dataQueueUnlock
  | printAllStats
  | assertFailed
  /-- The use of a record that nothing has been decoded into. -/
  | undefined
deriving DecidableEq

abbrev HandlerOp.Res : HandlerOp → Type
  | .getInput kind _      => Option kind.In
  | .getPrintStatsInput _ => Bool
  | .freeInput _          => Unit
  | .respond _ _          => Bool
  | .destroy _            => Unit
  | .getInfo _            => Bool
  | .malloc               => Nat
  | .calloc _             => Option Nat
  | .free _               => Unit
  | .bulkCreate _ _       => Option Nat
  | .bulkFree _           => Unit
  | .bulkTransfer _       => Bool
  | .infoRet              => Bool
  | .openFile _           => Int
  | .close _              => Int
  | .read _ _ _           => Int
  | .pread _ _ _ _        => Int
  | .lseek _ _ _          => Int
  | .fdToPathEntry _      => Path
  | .fdToPathSet _ _      => Unit
  | .fdToPathErase _      => Unit
  | .pathCacheMapFind _   => Bool
  | .pathCacheMapEntry _  => Path
  | .dataQueueLock        => Unit
  | .dataQueuePush _      => Unit
  | .dataQueueSignal      => Unit
  | .dataQueueUnlock      => Unit
  | .printAllStats        => Unit
  | .assertFailed         => Empty
  | .undefined            => Empty

def handlerOps : Interface where
  Op := HandlerOp
  Res := HandlerOp.Res

instance : DecidableEq handlerOps.Op := inferInstanceAs (DecidableEq HandlerOp)

abbrev HandlerCode := Program handlerOps

def hop (o : HandlerOp) : HandlerCode o.Res := @Program.perform handlerOps o

/-- A program that ends here. -/
def abort {α : Type} : HandlerCode α := do
  let e ← hop .assertFailed
  nomatch e

def undefined {α : Type} : HandlerCode α := do
  let e ← hop .undefined
  nomatch e

def assertThat (c : Prop) [Decidable c] : HandlerCode Unit := if c then pure () else abort

/-- Assert that a call has returned no error, or no null pointer. -/
def assertSome {α : Type} (r : Option α) : HandlerCode α := r.elim abort pure

/-! ## The handlers -/

/-- The path under which a file is opened; the log message looks it up, too. -/
def redirected (redirPath : Path) : HandlerCode Path := do
  if ← hop (.pathCacheMapFind redirPath) then
    let _ ← hop (.pathCacheMapEntry redirPath)
    hop (.pathCacheMapEntry redirPath)
  else
    return redirPath

def hvacOpenRpcHandler (handle : Nat) : HandlerCode Unit := do
  let path ← assertSome (← hop (.getInput .openFile handle))
  let redirPath ← redirected path
  let retStatus ← hop (.openFile redirPath)
  hop (.fdToPathSet retStatus path)
  let _ ← hop (.respond handle retStatus)

def pushClosed (fd : Int) : HandlerCode Unit := do
  let _ ← hop (.fdToPathEntry fd)
  hop .dataQueueLock
  let path ← hop (.fdToPathEntry fd)
  hop (.dataQueuePush path)
  hop .dataQueueSignal
  hop .dataQueueUnlock

/-- Signal to the data mover to copy the file. -/
def pushUncached (fd : Int) : HandlerCode Unit := do
  let path ← hop (.fdToPathEntry fd)
  if ← hop (.pathCacheMapFind path) then
    return ()
  else
    pushClosed fd

/-- The response is disabled when the request is registered. -/
def hvacCloseRpcHandler (handle : Nat) : HandlerCode Unit := do
  let fd ← assertSome (← hop (.getInput .close handle))
  assertThat ((← hop (.close fd)) = 0)
  pushUncached fd
  hop (.fdToPathErase fd)

def hvacSeekRpcHandler (handle : Nat) : HandlerCode Unit := do
  let input ← assertSome (← hop (.getInput .seek handle))
  let ret ← hop (.lseek input.fd input.offset input.whence)
  let _ ← hop (.respond handle (Word.toInt32 ret))

/-- The system call of a read, which returns `readbytes`. -/
def readRequested (input : HvacRpcIn) (buffer size : Nat) : HandlerCode Int :=
  if input.offset = -1 then hop (.read input.accessfd buffer size)
  else hop (.pread input.accessfd buffer size input.offset)

def hvacRpcHandler (handle : Nat) : HandlerCode Unit := do
  let block ← hop .malloc
  let input ← (← hop (.getInput .read handle)).elim undefined pure
  let size := Word.toUInt64 input.inputVal
  let buffer ← assertSome (← hop (.calloc size))
  assertThat ((← hop (.getInfo handle)) = true)
  let bulkHandle ← assertSome (← hop (.bulkCreate buffer size))
  let readbytes ← readRequested input buffer size
  let _ ← hop (.fdToPathEntry input.accessfd)
  let size := Word.toUInt64 readbytes
  let started ← hop (.bulkTransfer ⟨block, size, buffer, bulkHandle, handle, input⟩)
  assertThat (started = true)

def hvacRpcHandlerBulkCb (state : HvacRpcState) : HandlerCode Unit := do
  assertThat ((← hop .infoRet) = true)
  assertThat ((← hop (.respond state.handle (Word.toInt32 state.size))) = true)
  hop (.bulkFree state.bulkHandle)
  hop (.destroy state.handle)
  hop (.free state.buffer)
  hop (.free state.block)

/-- This handler frees its input, decoded or not. -/
def hvacTriggerSrvPrintStatsHandler (handle : Nat) : HandlerCode Unit := do
  if ← hop (.getPrintStatsInput handle) then
    hop .printAllStats
    let _ ← hop (.respond handle 0)
    hop (.freeInput handle)
  else
    let _ ← hop (.respond handle (-1))
    hop (.freeInput handle)

def RequestKind.handler : RequestKind → Nat → HandlerCode Unit
  | .openFile => hvacOpenRpcHandler
  | .read     => hvacRpcHandler
  | .seek     => hvacSeekRpcHandler
  | .close    => hvacCloseRpcHandler

/-! ## A handler alone -/

/-- What the outside has for a handler: the decoded input, the descriptor that `open`
returns, and what the machine decides during a read. -/
structure Answers where
  input : (kind : RequestKind) → kind.In
  openFd : Option Int
  readEnv : ReadEnv

/-- The system call of a read, on the open file behind the descriptor. -/
def Answers.readFile (x : Answers) (s : State) (fd : Int)
    (call : OpenFile → Option (List Byte × OpenFile)) : Int × State :=
  match (if x.readEnv.ioError then none else s.openFile fd).bind call with
  | none            => (-1, s)
  | some (bytes, f) => (bytes.length, s.setPos fd (some f))

/-- What an operation does to the server process while nothing else runs. -/
def Answers.act (x : Answers) : (o : HandlerOp) → State → Option (o.Res × State)
  | .getInput kind _, s         => some (some (x.input kind), s)
  | .getPrintStatsInput _, s    => some (true, s)
  | .freeInput _, s             => some ((), s)
  | .respond _ _, s             => some (true, s)
  | .destroy _, s               => some ((), s)
  | .getInfo _, s               => some (true, s)
  | .malloc, s                  => some (0, s)
  | .calloc size, s             => some (if callocFails x.readEnv size then none else some 0, s)
  | .free _, s                  => some ((), s)
  | .bulkCreate _ _, s          => some (some 0, s)
  | .bulkFree _, s              => some ((), s)
  | .bulkTransfer state, s      =>
      -- neither bulk handle is as long as a transfer that fails
      some (decide (state.size ≤ state.input.bulkHandle ∧
        state.size ≤ Word.toUInt64 state.input.inputVal), s)
  | .infoRet, s                 => some (true, s)
  | .openFile redirPath, s      =>
      guarded (s.CanOpen redirPath x.openFd)
        (match x.openFd with
        | none    => (-1, s)
        | some fd => (fd, { s with descs := s.descs.set fd ⟨redirPath, 0⟩ }))
  | .close fd, s                =>
      some (if s.descs fd = none then -1 else 0, { s with descs := s.descs.erase fd })
  | .read fd _ size, s          => some (x.readFile s fd fun f => f.read size)
  | .pread fd _ size offset, s  =>
      some (x.readFile s fd fun f => (f.pread size offset).map fun bytes => (bytes, f))
  | .lseek fd offset whence, s  =>
      match (s.openFile fd).bind fun f => f.lseek offset whence with
      | none        => some (-1, s)
      | some (r, f) => some (r, s.setPos fd (some f))
  | .fdToPathEntry fd, s        =>
      some (s.closedPath fd, { s with fdToPath := s.fdToPath.touch fd [] })
  | .fdToPathSet fd path, s     => some ((), { s with fdToPath := s.fdToPath.set fd path })
  | .fdToPathErase fd, s        => some ((), { s with fdToPath := s.fdToPath.erase fd })
  | .pathCacheMapFind path, s   => some ((s.pathCacheMap path).isSome, s)
  | .pathCacheMapEntry path, s  =>
      some (s.pathCacheMap.entry path [],
        { s with pathCacheMap := s.pathCacheMap.touch path [] })
  | .dataQueueLock, s           =>
      (s.dataMonitor.lock .progress).map fun m => ((), { s with dataMonitor := m })
  | .dataQueuePush path, s      => some ((), { s with dataQueue := s.dataQueue ++ [path] })
  | .dataQueueSignal, s         => some ((), { s with dataMonitor := s.dataMonitor.wake .mover })
  | .dataQueueUnlock, s         =>
      (s.dataMonitor.unlock .progress).map fun m => ((), { s with dataMonitor := m })
  | .printAllStats, s           => some ((), s)
  | .assertFailed, _            => none
  | .undefined, _               => none

def Answers.alone (x : Answers) : Program.Handler handlerOps State where
  act := x.act

/-- The state that a handler leaves behind. -/
def Answers.run (x : Answers) (p : HandlerCode Unit) (s : State) : Option State :=
  (p.exec x.alone s).map Prod.snd

section Alone

variable {x : Answers} {s s' : State} {handle : Nat}

@[simp] theorem exec_hop (o : HandlerOp) :
    @Program.exec handlerOps (no_index _) _ x.alone (hop o) s = x.act o s :=
  @Program.exec_perform handlerOps _ x.alone o s

@[simp] theorem assertSome_some {α : Type} (a : α) : assertSome (some a) = pure a := rfl

@[simp] theorem assertThat_of_true {c : Prop} [Decidable c] (h : c) : assertThat c = pure () :=
  if_pos h

/-- A step of the progress thread. -/
theorem step_of_progress {e : Event} (halive : s.alive = true) (h : progressStep s e = some s') :
    machine.step s e = some s' := by
  change (if s.alive = true then _ else none) = _
  rw [if_pos halive]
  cases e with
  | create path data => cases h
  | _ => exact (Option.or_of_isSome (by rw [h]; rfl)).trans h

/-- The path that is opened is looked up in `path_cache_map`, which has it already. -/
theorem exec_redirected (path : Path) :
    Program.exec x.alone (redirected path) s = some (s.pathCacheMap.entry path path, s) := by
  unfold redirected
  simp only [Program.exec_bind, exec_hop, Answers.act, Option.bind_some]
  cases hmap : s.pathCacheMap path with
  | none => simp [Table.entry, hmap]
  | some filename => simp [Answers.act, Table.touch_of_some hmap, Table.entry_of_some hmap]

/-- An open request that is handled to its end has recorded what `open` returned. -/
theorem run_openHandler {path : Path} (hpath : x.input .openFile = path)
    (h : x.run (hvacOpenRpcHandler handle) s = some s') :
    s.CanOpen (s.pathCacheMap.entry path path) x.openFd ∧
      s.recordOpen path (s.pathCacheMap.entry path path) x.openFd = s' := by
  simp only [Answers.run, hvacOpenRpcHandler, Program.exec_bind, exec_hop, Answers.act,
    Option.bind_some, assertSome_some, Program.exec_pure, exec_redirected, hpath] at h
  obtain ⟨⟨_, s₁⟩, hrun, rfl⟩ := Option.map_eq_some_iff.mp h
  obtain ⟨⟨fd, s₂⟩, hopen, hrun⟩ := Option.bind_eq_some_iff.mp hrun
  obtain ⟨hcan, hfd⟩ := guarded_eq_some.mp hopen
  cases hrun
  refine ⟨hcan, ?_⟩
  cases hx : x.openFd with
  | none =>
      rw [hx] at hfd
      cases hfd
      rfl
  | some fd' =>
      rw [hx] at hfd
      cases hfd
      rfl

/-- The events of an open request. -/
def openEvents (x : Answers) (s : State) (path : Path) : List Event :=
  .openRequest path :: .openFind ::
    if (s.pathCacheMap path).isSome then [.openRedirect, .openCall x.openFd]
    else [.openCall x.openFd]

theorem open_steps {path : Path} (halive : s.alive = true) (hidle : s.progress = .idle)
    (hpath : x.input .openFile = path) (h : x.run (hvacOpenRpcHandler handle) s = some s') :
    machine.runFrom s (openEvents x s path) = some s' := by
  obtain ⟨hcan, rfl⟩ := run_openHandler hpath h
  have hrequest : machine.step s (.openRequest path) = some { s with progress := .openFind path } :=
    step_of_progress halive (by simp [progressStep, hidle])
  have hcall : ∀ redirPath, s.CanOpen redirPath x.openFd →
      machine.runFrom { s with progress := .openCall path redirPath } [.openCall x.openFd] =
        some (s.recordOpen path redirPath x.openFd) := by
    intro redirPath hcan
    have hrecord : { s.recordOpen path redirPath x.openFd with progress := .idle } =
        s.recordOpen path redirPath x.openFd := by
      cases hx : x.openFd <;> simp [State.recordOpen, ← hidle]
    have hstep : machine.step { s with progress := .openCall path redirPath } (.openCall x.openFd) =
        some (s.recordOpen path redirPath x.openFd) := by
      refine step_of_progress halive (guarded_eq_some.mpr ⟨?_, Eq.trans ?_ hrecord⟩)
      · cases hx : x.openFd with
        | none => trivial
        | some fd => rwa [hx] at hcan
      · cases hx : x.openFd <;> rfl
    exact Machine.runFrom_cons hstep []
  rw [openEvents, Machine.runFrom_cons hrequest]
  cases hmap : s.pathCacheMap path with
  | none =>
      have hfind : machine.step { s with progress := .openFind path } .openFind =
          some { s with progress := .openCall path path } :=
        step_of_progress halive (by simp [progressStep, hmap])
      rw [Table.entry, hmap] at hcan ⊢
      rw [Machine.runFrom_cons hfind]
      exact hcall path hcan
  | some filename =>
      have hfind : machine.step { s with progress := .openFind path } .openFind =
          some { s with progress := .openRedirect path } :=
        step_of_progress halive (by simp [progressStep, hmap])
      have hredirect : machine.step { s with progress := .openRedirect path } .openRedirect =
          some { s with progress := .openCall path filename } :=
        step_of_progress halive
          (by simp [progressStep, Table.touch_of_some hmap, Table.entry_of_some hmap])
      rw [Table.entry_of_some hmap] at hcan ⊢
      rw [Machine.runFrom_cons hfind]
      exact (Machine.runFrom_cons hredirect _).trans (hcall filename hcan)

theorem seek_steps {input : HvacSeekIn} (halive : s.alive = true) (hidle : s.progress = .idle)
    (hinput : x.input .seek = input) (h : x.run (hvacSeekRpcHandler handle) s = some s') :
    machine.step s (.seekRequest input.fd input.offset input.whence) = some s' := by
  refine step_of_progress halive (guarded_eq_some.mpr ⟨hidle, ?_⟩)
  simp only [Answers.run, hvacSeekRpcHandler, Program.exec_bind, exec_hop, Answers.act,
    Option.bind_some, assertSome_some, Program.exec_pure, hinput] at h
  rw [State.handleSeek]
  cases hseek : (s.openFile input.fd).bind fun f => f.lseek input.offset input.whence with
  | none =>
      rw [hseek] at h
      exact Option.some.inj h
  | some r =>
      rw [hseek] at h
      exact Option.some.inj h

/-! ### The read handler -/

/-- The system call for a read request, on an open file. -/
def readCall (req : HvacRpcIn) (f : OpenFile) : Option (List Byte × OpenFile) :=
  if req.offset = -1 then f.read (Word.toUInt64 req.inputVal)
  else (f.pread (Word.toUInt64 req.inputVal) req.offset).map fun bytes => (bytes, f)

theorem handlerRead_eq (env : ReadEnv) (req : HvacRpcIn) (file : Option OpenFile) :
    handlerRead env req file =
      ((if env.ioError then none else file).bind (readCall req)).elim (none, file)
        fun r => (some r.1, some r.2) := by
  cases file with
  | none => simp [handlerRead]
  | some f =>
      by_cases hio : env.ioError = true
      · simp [handlerRead, hio]
      · by_cases hoff : req.offset = -1
        · cases hread : f.read (Word.toUInt64 req.inputVal) <;>
            simp [handlerRead, readCall, hio, hoff, hread]
        · cases hread : f.pread (Word.toUInt64 req.inputVal) req.offset <;>
            simp [handlerRead, readCall, hio, hoff, hread]

/-- To leave a file position as it is changes nothing. -/
theorem setPos_openFile (s : State) (fd : Int) : s.setPos fd (s.openFile fd) = s := by
  unfold State.setPos State.openFile
  cases hd : s.descs fd with
  | none => rfl
  | some d =>
      rw [Option.bind_some]
      cases s.files d.path with
      | none => rfl
      | some f =>
          change { s with descs := s.descs.set fd d } = s
          rw [Table.set_of_some hd]

theorem exec_readRequested (req : HvacRpcIn) (buffer : Nat) :
    Program.exec x.alone (readRequested req buffer (Word.toUInt64 req.inputVal)) s =
      some (readbytes (handlerRead x.readEnv req (s.openFile req.accessfd)).1,
        s.setPos req.accessfd (handlerRead x.readEnv req (s.openFile req.accessfd)).2) := by
  have hcall : Program.exec x.alone (readRequested req buffer (Word.toUInt64 req.inputVal)) s =
      some (x.readFile s req.accessfd (readCall req)) := by
    unfold readRequested readCall
    split <;> exact exec_hop _
  rw [hcall, Answers.readFile, handlerRead_eq]
  cases (if x.readEnv.ioError then none else s.openFile req.accessfd).bind (readCall req) with
  | none =>
      rw [Option.elim_none, setPos_openFile]
      rfl
  | some r => rfl

theorem read_steps {req : HvacRpcIn} (halive : s.alive = true) (hidle : s.progress = .idle)
    (hreq : x.input .read = req) (h : x.run (hvacRpcHandler handle) s = some s') :
    machine.step s (.readRequest req x.readEnv) = some s' := by
  refine step_of_progress halive (guarded_eq_some.mpr ⟨hidle, ?_⟩)
  obtain ⟨⟨_, s₁⟩, hexec, rfl⟩ := Option.map_eq_some_iff.mp h
  simp only [hvacRpcHandler, Program.exec_bind, exec_hop, Answers.act, Option.bind_some,
    Option.elim_some, Program.exec_pure, hreq] at hexec
  by_cases hcalloc : callocFails x.readEnv (Word.toUInt64 req.inputVal) = true
  · rw [if_pos hcalloc] at hexec
    cases hexec
  · rw [if_neg hcalloc] at hexec
    simp only [assertSome_some, assertThat_of_true, Program.exec_pure, Option.bind_some,
      exec_readRequested, decide_eq_true_eq] at hexec
    rw [State.handleRead, MtHvac.hvacRpcHandler, if_neg hcalloc]
    generalize handlerRead x.readEnv req (s.openFile req.accessfd) = r at hexec ⊢
    obtain ⟨result, file⟩ := r
    by_cases hsize : Word.toUInt64 (readbytes result) ≤ req.bulkHandle ∧
        Word.toUInt64 (readbytes result) ≤ Word.toUInt64 req.inputVal
    · rw [assertThat_of_true hsize] at hexec
      cases hexec
      simp only [if_pos hsize]
      rw [State.setPos_frame]
      simp [MtHvac.hvacRpcHandlerBulkCb, halive]
    · rw [assertThat, if_neg hsize] at hexec
      cases hexec

/-! ### The close handler -/

/-- The queue has the path of the descriptor at its end, and the data mover is awake. -/
def pushed (s : State) (path : Path) : State :=
  { s with
    dataQueue := s.dataQueue ++ [path]
    dataMonitor := { s.dataMonitor.wake .mover with owner := none } }

theorem exec_pushClosed {fd : Int} {path : Path} (hpath : s.fdToPath fd = some path)
    (h : Program.exec x.alone (pushClosed fd) s = some ((), s')) :
    s.dataMonitor.owner = none ∧ pushed s path = s' := by
  have htouch : s.fdToPath.touch fd [] = s.fdToPath := Table.touch_of_some hpath
  have hentry : s.closedPath fd = path := Table.entry_of_some hpath
  simp only [pushClosed, Program.exec_bind, exec_hop, Answers.act, Option.bind_some, htouch] at h
  obtain ⟨⟨_, s₁⟩, hlock, h⟩ := Option.bind_eq_some_iff.mp h
  obtain ⟨m, hm, hs₁⟩ := Option.map_eq_some_iff.mp hlock
  obtain ⟨hfree, rfl⟩ := Monitor.lock_eq_some.mp hm
  cases hs₁
  refine ⟨hfree, ?_⟩
  have hentry' : Table.entry s.fdToPath fd [] = path := Table.entry_of_some hpath
  simpa [State.closedPath, htouch, hentry', Monitor.unlock, guarded, Monitor.wake, pushed] using h

theorem push_steps {fd : Int} {path : Path} (halive : s.alive = true)
    (hpath : s.fdToPath fd = some path) (hfree : s.dataMonitor.owner = none) (es : List Event) :
    machine.runFrom { s with progress := .closeLock fd }
        (.closeLock :: .closePush :: .closeSignal :: .closeUnlock :: es) =
      machine.runFrom { pushed s path with progress := .closeErase fd } es := by
  have hentry : s.fdToPath.entry fd [] = path := Table.entry_of_some hpath
  have hlock : machine.step { s with progress := .closeLock fd } .closeLock =
      some { s with
        dataMonitor := { s.dataMonitor with owner := some .progress }
        progress := .closePush fd } :=
    step_of_progress halive (by simp [progressStep, Monitor.lock, guarded, hfree])
  have hpush : machine.step
      { s with
        dataMonitor := { s.dataMonitor with owner := some .progress }
        progress := .closePush fd } .closePush =
      some { s with
        dataQueue := s.dataQueue ++ [path]
        dataMonitor := { s.dataMonitor with owner := some .progress }
        progress := .closeSignal fd } :=
    step_of_progress halive (by simp [progressStep, State.closedPath, hentry])
  have hsignal : machine.step
      { s with
        dataQueue := s.dataQueue ++ [path]
        dataMonitor := { s.dataMonitor with owner := some .progress }
        progress := .closeSignal fd } .closeSignal =
      some { s with
        dataQueue := s.dataQueue ++ [path]
        dataMonitor := { s.dataMonitor.wake .mover with owner := some .progress }
        progress := .closeUnlock fd } :=
    step_of_progress halive rfl
  have hunlock : machine.step
      { s with
        dataQueue := s.dataQueue ++ [path]
        dataMonitor := { s.dataMonitor.wake .mover with owner := some .progress }
        progress := .closeUnlock fd } .closeUnlock =
      some { pushed s path with progress := .closeErase fd } :=
    step_of_progress halive rfl
  rw [Machine.runFrom_cons hlock, Machine.runFrom_cons hpush, Machine.runFrom_cons hsignal,
    Machine.runFrom_cons hunlock]

/-- The events between `close` and the end of the handler. -/
def closedEvents (s : State) (fd : Int) : List Event :=
  .closeFind ::
    if (s.pathCacheMap (s.closedPath fd)).isSome then [.closeErase]
    else [.closeLock, .closePush, .closeSignal, .closeUnlock, .closeErase]

theorem erase_steps {fd : Int} (halive : s.alive = true) (hidle : s.progress = .idle) :
    machine.runFrom { s with progress := .closeErase fd } [.closeErase] =
      some { s with fdToPath := s.fdToPath.erase fd } := by
  have hstep : machine.step { s with progress := .closeErase fd } .closeErase =
      some { s with fdToPath := s.fdToPath.erase fd } :=
    step_of_progress halive (by simp [progressStep, hidle])
  exact Machine.runFrom_cons hstep []

theorem closed_steps {fd : Int} (halive : s.alive = true) (hidle : s.progress = .idle)
    (h : Program.exec x.alone (pushUncached fd) s = some ((), s')) :
    machine.runFrom { s with progress := .closeFind fd } (closedEvents s fd) =
      some { s' with fdToPath := s'.fdToPath.erase fd } := by
  simp only [pushUncached, Program.exec_bind, exec_hop, Answers.act, Option.bind_some] at h
  let t : State := { s with fdToPath := s.fdToPath.touch fd [] }
  have hentry : t.fdToPath fd = some (s.closedPath fd) := by
    simp [t, Table.touch, State.closedPath]
  have hpath : ({ s with progress := .closeFind fd } : State).closedPath fd = s.closedPath fd := rfl
  rw [closedEvents]
  cases hmap : s.pathCacheMap (s.closedPath fd) with
  | some filename =>
      have hfind : machine.step { s with progress := .closeFind fd } .closeFind =
          some { t with progress := .closeErase fd } :=
        step_of_progress halive (by simp [progressStep, hpath, hmap, t])
      simp only [hmap, Option.isSome_some, if_true, Program.exec_pure] at h
      cases h
      rw [Machine.runFrom_cons hfind]
      exact erase_steps halive hidle
  | none =>
      have hfind : machine.step { s with progress := .closeFind fd } .closeFind =
          some { t with progress := .closeLock fd } :=
        step_of_progress halive (by simp [progressStep, hpath, hmap, t])
      simp only [hmap, Option.isSome_none, Bool.false_eq_true, if_false] at h
      obtain ⟨hfree, rfl⟩ := exec_pushClosed hentry h
      rw [Machine.runFrom_cons hfind]
      refine (push_steps (s := t) halive hentry hfree _).trans ?_
      exact erase_steps (s := pushed t _) halive hidle

theorem close_steps (halive : s.alive = true) (hidle : s.progress = .idle)
    (h : x.run (hvacCloseRpcHandler handle) s = some s') :
    machine.runFrom s
      (.closeRequest (x.input .close) :: closedEvents s (x.input .close)) = some s' := by
  obtain ⟨⟨_, s₁⟩, hexec, rfl⟩ := Option.map_eq_some_iff.mp h
  simp only [hvacCloseRpcHandler, Program.exec_bind, exec_hop, Answers.act, Option.bind_some,
    assertSome_some, Program.exec_pure] at hexec
  generalize x.input .close = fd at hexec ⊢
  by_cases hdesc : s.descs fd = none
  · rw [if_pos hdesc] at hexec
    cases hexec
  · rw [if_neg hdesc, assertThat_of_true rfl, Program.exec_pure, Option.bind_some] at hexec
    obtain ⟨⟨_, s₂⟩, hpush, hexec⟩ := Option.bind_eq_some_iff.mp hexec
    cases hexec
    have hrequest : machine.step s (.closeRequest fd) =
        some { s with descs := s.descs.erase fd, progress := .closeFind fd } :=
      step_of_progress halive (by simp [progressStep, guarded, hidle, hdesc, halive])
    rw [Machine.runFrom_cons hrequest]
    exact closed_steps (s := { s with descs := s.descs.erase fd }) halive hidle hpush

/-- The events of a request of each kind. -/
def RequestKind.events (x : Answers) (s : State) : RequestKind → List Event
  | .openFile => openEvents x s (x.input .openFile)
  | .read     => [.readRequest (x.input .read) x.readEnv]
  | .seek     =>
      [.seekRequest (x.input .seek).fd (x.input .seek).offset (x.input .seek).whence]
  | .close    => .closeRequest (x.input .close) :: closedEvents s (x.input .close)

/-- A handler that runs to its end while nothing else does is a run of the process. -/
theorem handler_steps (halive : s.alive = true) (hidle : s.progress = .idle) (kind : RequestKind)
    (h : x.run (kind.handler handle) s = some s') :
    machine.runFrom s (kind.events x s) = some s' := by
  cases kind with
  | openFile => exact open_steps halive hidle rfl h
  | read => exact Machine.runFrom_cons (read_steps halive hidle rfl h) []
  | seek => exact Machine.runFrom_cons (seek_steps halive hidle rfl h) []
  | close => exact close_steps halive hidle h

end Alone
end MtHvac.Server.Handlers
