-- SUMMARY: The server process as a machine: the progress thread with its request handlers, and the data mover thread.
import MtHvac.Base.Machine
import MtHvac.Base.Pthread
import MtHvac.Base.Table
import MtHvac.Server.PlainServer
import MtHvac.Server.ReadHandler

/-!
# The server process

Two threads share the process. The progress thread runs one request handler at a
time; the data mover copies closed files to the burst buffer and records the
copies. A step of the machine is one access to something the threads share, a
kernel call, or a lock operation, so the steps of the two threads interleave as
they may in the program. The log messages are left out, except that the lookups
in their arguments insert like any other.

Files are regular files, under their paths. The files of the machine are never
removed, and only the data mover changes one.
-/

namespace MtHvac

open Base

/-- `std::filesystem::path::filename`: what follows the last separator. -/
def fileName (p : Path) : Path := (p.reverse.takeWhile (· ≠ '/')).reverse

namespace Server

/-! ## State -/

/-- Where a file comes from: it was there for the clients, or the data mover wrote it. -/
inductive Origin where
  | source
  | copy
deriving DecidableEq

structure FileNode where
  data : List Byte
  origin : Origin
deriving DecidableEq

/-- An open descriptor: the file it is open on and the file position. -/
structure Desc where
  path : Path
  pos : Nat
deriving DecidableEq

inductive Thread where
  | progress
  | mover
deriving DecidableEq

/-- Where the progress thread stands: between two requests, or before a step of
`hvac_open_rpc_handler` or `hvac_close_rpc_handler`. -/
inductive ProgressPc where
  | idle
  | openFind (path : Path)
  | openRedirect (path : Path)
  | openCall (path redirPath : Path)
  | closeFind (fd : Int)
  | closeLock (fd : Int)
  | closePush (fd : Int)
  | closeSignal (fd : Int)
  | closeUnlock (fd : Int)
  | closeErase (fd : Int)
deriving DecidableEq

/-- Where the data mover stands in `hvac_data_mover_fn`. -/
inductive MoverPc where
  | lock
  | wait
  | waiting
  | drain
  | next
  | copy (filename : Path)
  | copying (filename : Path)
  | record (filename : Path)
  | pop
deriving DecidableEq

structure State where
  alive : Bool
  files : Table Path FileNode
  descs : Table Int Desc
  fdToPath : Table Int Path
  pathCacheMap : Table Path Path
  dataQueue : List Path
  localList : List Path
  dataMonitor : Monitor Thread
  progress : ProgressPc
  mover : MoverPc

def State.init : State where
  alive := true
  files := .empty
  descs := .empty
  fdToPath := .empty
  pathCacheMap := .empty
  dataQueue := []
  localList := []
  dataMonitor := .init
  progress := .idle
  mover := .lock

/-! ## Steps -/

inductive Event where
  /-- Another process creates a file. -/
  | create (path : Path) (data : List Byte)
  | openRequest (path : Path)
  | openFind
  | openRedirect
  /-- `open` returns the descriptor, or fails. -/
  | openCall (fd : Option Int)
  | readRequest (req : HvacRpcIn) (env : ReadEnv)
  | seekRequest (fd offset whence : Int)
  | closeRequest (fd : Int)
  | closeFind
  | closeLock
  | closePush
  | closeSignal
  | closeUnlock
  | closeErase
  | moverLock
  | moverWait
  | moverSpurious
  | moverReacquire
  | moverDrain
  | moverUnlock
  | moverRestart
  /-- `mkdtemp` leaves `dir` in its argument, whether or not it created it. -/
  | moverMkdtemp (dir : Path)
  | moverCopyCreate
  | moverCopyWrite (n : Nat)
  | moverCopyReturn
  | moverCopyThrow
  | moverRecord
  | moverPop
deriving DecidableEq

/-- The open file behind a descriptor. -/
def State.openFile (s : State) (fd : Int) : Option OpenFile :=
  (s.descs fd).bind fun d => (s.files d.path).map fun f => ⟨.regular f.data, d.pos⟩

/-- A descriptor after a call that left its open file as `file`. -/
def State.setPos (s : State) (fd : Int) (file : Option OpenFile) : State :=
  match s.descs fd, file with
  | some d, some f => { s with descs := s.descs.set fd { d with pos := f.pos } }
  | _, _           => s

/-- `hvac_rpc_handler` on the descriptor of the request, with the lookup in
`fd_to_path` that its log message makes. -/
def State.handleRead (s : State) (req : HvacRpcIn) (env : ReadEnv) : ReadReply × State :=
  let (reply, file) := hvacRpcHandler env req (s.openFile req.accessfd)
  let s' := s.setPos req.accessfd file
  (reply, { s' with
    alive := decide (reply ≠ .aborted)
    fdToPath := s'.fdToPath.touch req.accessfd [] })

/-- `hvac_seek_rpc_handler`: the response field and the state after it. -/
def State.handleSeek (s : State) (fd offset whence : Int) : Int × State :=
  match (s.openFile fd).bind fun f => f.lseek offset whence with
  | none        => (-1, s)
  | some (r, f) => (Word.toInt32 r, s.setPos fd (some f))

theorem State.setPos_frame (s : State) (fd : Int) (file : Option OpenFile) :
    s.setPos fd file = { s with descs := (s.setPos fd file).descs } := by
  unfold State.setPos
  split <;> rfl

/-- A read request changes nothing but descriptors, their names, and whether the
process lives. -/
theorem State.handleRead_frame (s : State) (req : HvacRpcIn) (env : ReadEnv) :
    ∃ alive descs fdToPath, (s.handleRead req env).2 =
      { s with alive := alive, descs := descs, fdToPath := fdToPath } := by
  simp only [State.handleRead]
  rw [State.setPos_frame]
  exact ⟨_, _, _, rfl⟩

/-- A file position changes, and no descriptor is opened or closed. -/
theorem State.setPos_isSome (s : State) (fd fd' : Int) (file : Option OpenFile) :
    ((s.setPos fd file).descs fd').isSome = (s.descs fd').isSome := by
  unfold State.setPos
  split
  · next hd =>
      by_cases h : fd' = fd
      · subst h
        simp [hd]
      · simp [h]
  · rfl

theorem State.handleRead_isSome (s : State) (req : HvacRpcIn) (env : ReadEnv) (fd : Int) :
    ((s.handleRead req env).2.descs fd).isSome = (s.descs fd).isSome := by
  simp only [State.handleRead]
  exact s.setPos_isSome _ _ _

/-- A read request keeps the names of the descriptors. -/
theorem State.handleRead_fdToPath (s : State) (req : HvacRpcIn) (env : ReadEnv) :
    (s.handleRead req env).2.fdToPath = s.fdToPath.touch req.accessfd [] := by
  simp only [State.handleRead]
  rw [State.setPos_frame]

/-- A seek request changes nothing but a file position. -/
theorem State.handleSeek_frame (s : State) (fd offset whence : Int) :
    ∃ descs, (s.handleSeek fd offset whence).2 = { s with descs := descs } := by
  unfold State.handleSeek
  split
  · exact ⟨s.descs, rfl⟩
  · rw [State.setPos_frame]
    exact ⟨_, rfl⟩

theorem State.handleSeek_isSome (s : State) (fd offset whence fd' : Int) :
    ((s.handleSeek fd offset whence).2.descs fd').isSome = (s.descs fd').isSome := by
  unfold State.handleSeek
  split
  · rfl
  · exact s.setPos_isSome _ _ _

/-- `open(redir_path, O_RDONLY)` may return a descriptor that is free, for a file
that exists; a call that fails returns `-1`. -/
def State.CanOpen (s : State) (redirPath : Path) : Option Int → Prop
  | none    => True
  | some fd => 0 ≤ fd ∧ s.descs fd = none ∧ s.files redirPath ≠ none

instance (s : State) (redirPath : Path) (fd : Option Int) :
    Decidable (s.CanOpen redirPath fd) := by
  cases fd <;> unfold State.CanOpen <;> infer_instance

/-- The state after `open` and `fd_to_path[out.ret_status] = in.path`. -/
def State.recordOpen (s : State) (path redirPath : Path) : Option Int → State
  | none    => { s with fdToPath := s.fdToPath.set (-1) path }
  | some fd =>
      { s with
        descs := s.descs.set fd ⟨redirPath, 0⟩
        fdToPath := s.fdToPath.set fd path }

/-- The path under which a closed descriptor is known: `fd_to_path[in.fd]`. -/
def State.closedPath (s : State) (fd : Int) : Path := s.fdToPath.entry fd []

/-- The steps of the progress thread. -/
def progressStep (s : State) : Event → Option State
  | .openRequest path =>
      guarded (s.progress = .idle) { s with progress := .openFind path }
  | .openFind =>
      match s.progress with
      | .openFind path =>
          some { s with
            progress :=
              if s.pathCacheMap path = none then .openCall path path else .openRedirect path }
      | _ => none
  | .openRedirect =>
      match s.progress with
      | .openRedirect path =>
          some { s with
            pathCacheMap := s.pathCacheMap.touch path []
            progress := .openCall path (s.pathCacheMap.entry path []) }
      | _ => none
  | .openCall fd =>
      match s.progress with
      | .openCall path redirPath =>
          guarded (s.CanOpen redirPath fd)
            { s.recordOpen path redirPath fd with progress := .idle }
      | _ => none
  | .readRequest req env =>
      guarded (s.progress = .idle) (s.handleRead req env).2
  | .seekRequest fd offset whence =>
      guarded (s.progress = .idle) (s.handleSeek fd offset whence).2
  | .closeRequest fd =>
      -- assert(ret == 0) after close(in.fd)
      guarded (s.progress = .idle)
        { s with
          alive := decide (s.descs fd ≠ none)
          descs := s.descs.erase fd
          progress := .closeFind fd }
  | .closeFind =>
      match s.progress with
      | .closeFind fd =>
          some { s with
            fdToPath := s.fdToPath.touch fd []
            progress :=
              if s.pathCacheMap (s.closedPath fd) = none then .closeLock fd else .closeErase fd }
      | _ => none
  | .closeLock =>
      match s.progress with
      | .closeLock fd =>
          (s.dataMonitor.lock .progress).map fun m =>
            { s with dataMonitor := m, progress := .closePush fd }
      | _ => none
  | .closePush =>
      match s.progress with
      | .closePush fd =>
          some { s with
            dataQueue := s.dataQueue ++ [s.closedPath fd]
            progress := .closeSignal fd }
      | _ => none
  | .closeSignal =>
      match s.progress with
      | .closeSignal fd =>
          some { s with
            dataMonitor := s.dataMonitor.wake .mover
            progress := .closeUnlock fd }
      | _ => none
  | .closeUnlock =>
      match s.progress with
      | .closeUnlock fd =>
          (s.dataMonitor.unlock .progress).map fun m =>
            { s with dataMonitor := m, progress := .closeErase fd }
      | _ => none
  | .closeErase =>
      match s.progress with
      | .closeErase fd =>
          some { s with fdToPath := s.fdToPath.erase fd, progress := .idle }
      | _ => none
  | _ => none

/-- The steps of the data mover. -/
def moverStep (s : State) : Event → Option State
  | .moverLock =>
      if s.mover = .lock then
        (s.dataMonitor.lock .mover).map fun m => { s with dataMonitor := m, mover := .wait }
      else none
  | .moverWait =>
      if s.mover = .wait then
        (s.dataMonitor.condWait .mover).map fun m =>
          { s with dataMonitor := m, mover := .waiting }
      else none
  | .moverSpurious =>
      guarded (s.mover = .waiting) { s with dataMonitor := s.dataMonitor.wake .mover }
  | .moverReacquire =>
      if s.mover = .waiting then
        (s.dataMonitor.reacquire .mover).map fun m =>
          { s with dataMonitor := m, mover := .drain }
      else none
  | .moverDrain =>
      match s.mover, s.dataQueue with
      | .drain, p :: rest =>
          some { s with dataQueue := rest, localList := s.localList ++ [p] }
      | _, _ => none
  | .moverUnlock =>
      if s.mover = .drain ∧ s.dataQueue = [] then
        (s.dataMonitor.unlock .mover).map fun m => { s with dataMonitor := m, mover := .next }
      else none
  | .moverRestart =>
      guarded (s.mover = .next ∧ s.localList = []) { s with mover := .lock }
  | .moverMkdtemp dir =>
      match s.mover, s.localList with
      | .next, p :: _ => some { s with mover := .copy (dir ++ '/' :: fileName p) }
      | _, _          => none
  | .moverCopyCreate =>
      -- fs::copy without options reports an existing target as an error
      match s.mover, s.localList with
      | .copy filename, p :: _ =>
          guarded (s.files p ≠ none ∧ s.files filename = none)
            { s with
              files := s.files.set filename ⟨[], .copy⟩
              mover := .copying filename }
      | _, _ => none
  | .moverCopyWrite n =>
      match s.mover, s.localList with
      | .copying filename, p :: _ =>
          match s.files p, s.files filename with
          | some source, some target =>
              some { s with
                files := s.files.set filename
                  { target with data := target.data ++ slice source.data target.data.length n } }
          | _, _ => none
      | _, _ => none
  | .moverCopyReturn =>
      match s.mover, s.localList with
      | .copying filename, p :: _ =>
          guarded ((s.files filename).map FileNode.data = (s.files p).map FileNode.data)
            { s with mover := .record filename }
      | _, _ => none
  | .moverCopyThrow =>
      match s.mover with
      | .copy _    => some { s with mover := .pop }
      | .copying _ => some { s with mover := .pop }
      | _          => none
  | .moverRecord =>
      match s.mover, s.localList with
      | .record filename, p :: _ =>
          some { s with pathCacheMap := s.pathCacheMap.set p filename, mover := .pop }
      | _, _ => none
  | .moverPop =>
      guarded (s.mover = .pop) { s with localList := s.localList.tail, mover := .next }
  | _ => none

/-- One step of the process, or of another process that creates a file. -/
def step (s : State) (e : Event) : Option State :=
  if s.alive then
    match e with
    | .create path data =>
        guarded (s.files path = none) { s with files := s.files.set path ⟨data, .source⟩ }
    | e => (progressStep s e).or (moverStep s e)
  else none

def machine : Machine State Event where
  init := State.init
  step := step

/-! ## What a step can do -/

/-- The steps of a living process, one rule for each event. -/
inductive Step (s : State) : Event → State → Prop
  | create {path : Path} {data : List Byte} (hnew : s.files path = none) :
      Step s (.create path data) { s with files := s.files.set path ⟨data, .source⟩ }
  | openRequest {path : Path} (hpc : s.progress = .idle) :
      Step s (.openRequest path) { s with progress := .openFind path }
  | openMiss {path : Path} (hpc : s.progress = .openFind path)
      (hmap : s.pathCacheMap path = none) :
      Step s .openFind { s with progress := .openCall path path }
  | openHit {path filename : Path} (hpc : s.progress = .openFind path)
      (hmap : s.pathCacheMap path = some filename) :
      Step s .openFind { s with progress := .openRedirect path }
  | openRedirect {path : Path} (hpc : s.progress = .openRedirect path) :
      Step s .openRedirect
        { s with
          pathCacheMap := s.pathCacheMap.touch path []
          progress := .openCall path (s.pathCacheMap.entry path []) }
  | openFail {path redirPath : Path} (hpc : s.progress = .openCall path redirPath) :
      Step s (.openCall none)
        { s with fdToPath := s.fdToPath.set (-1) path, progress := .idle }
  | openOk {path redirPath : Path} {fd : Int} (hpc : s.progress = .openCall path redirPath)
      (hpos : 0 ≤ fd) (hfree : s.descs fd = none) (hfile : s.files redirPath ≠ none) :
      Step s (.openCall (some fd))
        { s with
          descs := s.descs.set fd ⟨redirPath, 0⟩
          fdToPath := s.fdToPath.set fd path
          progress := .idle }
  | readRequest {req : HvacRpcIn} {env : ReadEnv} (hpc : s.progress = .idle) :
      Step s (.readRequest req env) (s.handleRead req env).2
  | seekRequest {fd offset whence : Int} (hpc : s.progress = .idle) :
      Step s (.seekRequest fd offset whence) (s.handleSeek fd offset whence).2
  | closeRequest {fd : Int} (hpc : s.progress = .idle) :
      Step s (.closeRequest fd)
        { s with
          alive := decide (s.descs fd ≠ none)
          descs := s.descs.erase fd
          progress := .closeFind fd }
  | closeUncached {fd : Int} (hpc : s.progress = .closeFind fd)
      (hmap : s.pathCacheMap (s.closedPath fd) = none) :
      Step s .closeFind
        { s with fdToPath := s.fdToPath.touch fd [], progress := .closeLock fd }
  | closeCached {fd : Int} {filename : Path} (hpc : s.progress = .closeFind fd)
      (hmap : s.pathCacheMap (s.closedPath fd) = some filename) :
      Step s .closeFind
        { s with fdToPath := s.fdToPath.touch fd [], progress := .closeErase fd }
  | closeLock {fd : Int} (hpc : s.progress = .closeLock fd)
      (hfree : s.dataMonitor.owner = none) :
      Step s .closeLock
        { s with
          dataMonitor := { s.dataMonitor with owner := some .progress }
          progress := .closePush fd }
  | closePush {fd : Int} (hpc : s.progress = .closePush fd) :
      Step s .closePush
        { s with dataQueue := s.dataQueue ++ [s.closedPath fd], progress := .closeSignal fd }
  | closeSignal {fd : Int} (hpc : s.progress = .closeSignal fd) :
      Step s .closeSignal
        { s with dataMonitor := s.dataMonitor.wake .mover, progress := .closeUnlock fd }
  | closeUnlock {fd : Int} (hpc : s.progress = .closeUnlock fd)
      (hown : s.dataMonitor.owner = some .progress) :
      Step s .closeUnlock
        { s with
          dataMonitor := { s.dataMonitor with owner := none }
          progress := .closeErase fd }
  | closeErase {fd : Int} (hpc : s.progress = .closeErase fd) :
      Step s .closeErase { s with fdToPath := s.fdToPath.erase fd, progress := .idle }
  | moverLock (hpc : s.mover = .lock) (hfree : s.dataMonitor.owner = none) :
      Step s .moverLock
        { s with
          dataMonitor := { s.dataMonitor with owner := some .mover }
          mover := .wait }
  | moverWait (hpc : s.mover = .wait) (hown : s.dataMonitor.owner = some .mover) :
      Step s .moverWait
        { s with
          dataMonitor :=
            { owner := none
              waiting := fun t => if t = .mover then true else s.dataMonitor.waiting t }
          mover := .waiting }
  | moverSpurious (hpc : s.mover = .waiting) :
      Step s .moverSpurious { s with dataMonitor := s.dataMonitor.wake .mover }
  | moverReacquire (hpc : s.mover = .waiting) (hfree : s.dataMonitor.owner = none)
      (hwoken : s.dataMonitor.waiting .mover = false) :
      Step s .moverReacquire
        { s with
          dataMonitor := { s.dataMonitor with owner := some .mover }
          mover := .drain }
  | moverDrain {p : Path} {rest : List Path} (hpc : s.mover = .drain)
      (hqueue : s.dataQueue = p :: rest) :
      Step s .moverDrain { s with dataQueue := rest, localList := s.localList ++ [p] }
  | moverUnlock (hpc : s.mover = .drain) (hqueue : s.dataQueue = [])
      (hown : s.dataMonitor.owner = some .mover) :
      Step s .moverUnlock
        { s with
          dataMonitor := { s.dataMonitor with owner := none }
          mover := .next }
  | moverRestart (hpc : s.mover = .next) (hlist : s.localList = []) :
      Step s .moverRestart { s with mover := .lock }
  | moverMkdtemp {dir p : Path} {rest : List Path} (hpc : s.mover = .next)
      (hlist : s.localList = p :: rest) :
      Step s (.moverMkdtemp dir) { s with mover := .copy (dir ++ '/' :: fileName p) }
  | moverCopyCreate {filename p : Path} {rest : List Path} (hpc : s.mover = .copy filename)
      (hlist : s.localList = p :: rest) (hsource : s.files p ≠ none)
      (hnew : s.files filename = none) :
      Step s .moverCopyCreate
        { s with
          files := s.files.set filename ⟨[], .copy⟩
          mover := .copying filename }
  | moverCopyWrite {filename p : Path} {rest : List Path} {source target : FileNode} {n : Nat}
      (hpc : s.mover = .copying filename) (hlist : s.localList = p :: rest)
      (hsource : s.files p = some source) (htarget : s.files filename = some target) :
      Step s (.moverCopyWrite n)
        { s with
          files := s.files.set filename
            { target with data := target.data ++ slice source.data target.data.length n } }
  | moverCopyReturn {filename p : Path} {rest : List Path} (hpc : s.mover = .copying filename)
      (hlist : s.localList = p :: rest)
      (hdone : (s.files filename).map FileNode.data = (s.files p).map FileNode.data) :
      Step s .moverCopyReturn { s with mover := .record filename }
  | moverCopyThrow {filename : Path}
      (hpc : s.mover = .copy filename ∨ s.mover = .copying filename) :
      Step s .moverCopyThrow { s with mover := .pop }
  | moverRecord {filename p : Path} {rest : List Path} (hpc : s.mover = .record filename)
      (hlist : s.localList = p :: rest) :
      Step s .moverRecord
        { s with pathCacheMap := s.pathCacheMap.set p filename, mover := .pop }
  | moverPop (hpc : s.mover = .pop) :
      Step s .moverPop { s with localList := s.localList.tail, mover := .next }

private theorem step_of_progressStep {s s' : State} {e : Event} (h : progressStep s e = some s') :
    Step s e s' := by
  cases e with
  | openRequest path =>
      obtain ⟨hpc, rfl⟩ := guarded_eq_some.mp h
      exact .openRequest hpc
  | openFind =>
      simp only [progressStep] at h
      split at h
      · next path hpc =>
          obtain rfl := Option.some.inj h
          cases hmap : s.pathCacheMap path with
          | none => simpa [hmap] using Step.openMiss hpc hmap
          | some filename => simpa [hmap] using Step.openHit hpc hmap
      · cases h
  | openRedirect =>
      simp only [progressStep] at h
      split at h
      · next path hpc => exact Option.some.inj h ▸ .openRedirect hpc
      · cases h
  | openCall fd =>
      simp only [progressStep] at h
      split at h
      · next path redirPath hpc =>
          obtain ⟨hopen, rfl⟩ := guarded_eq_some.mp h
          cases fd with
          | none => exact .openFail hpc
          | some fd => exact .openOk hpc hopen.1 hopen.2.1 hopen.2.2
      · cases h
  | readRequest req env =>
      obtain ⟨hpc, rfl⟩ := guarded_eq_some.mp h
      exact .readRequest hpc
  | seekRequest fd offset whence =>
      obtain ⟨hpc, rfl⟩ := guarded_eq_some.mp h
      exact .seekRequest hpc
  | closeRequest fd =>
      obtain ⟨hpc, rfl⟩ := guarded_eq_some.mp h
      exact .closeRequest hpc
  | closeFind =>
      simp only [progressStep] at h
      split at h
      · next fd hpc =>
          obtain rfl := Option.some.inj h
          cases hmap : s.pathCacheMap (s.closedPath fd) with
          | none => simpa [hmap] using Step.closeUncached hpc hmap
          | some filename => simpa [hmap] using Step.closeCached hpc hmap
      · cases h
  | closeLock =>
      simp only [progressStep] at h
      split at h
      · next fd hpc =>
          simp only [Option.map_eq_some_iff, Monitor.lock_eq_some] at h
          obtain ⟨m, ⟨hfree, rfl⟩, rfl⟩ := h
          exact .closeLock hpc hfree
      · cases h
  | closePush =>
      simp only [progressStep] at h
      split at h
      · next fd hpc => exact Option.some.inj h ▸ .closePush hpc
      · cases h
  | closeSignal =>
      simp only [progressStep] at h
      split at h
      · next fd hpc => exact Option.some.inj h ▸ .closeSignal hpc
      · cases h
  | closeUnlock =>
      simp only [progressStep] at h
      split at h
      · next fd hpc =>
          simp only [Option.map_eq_some_iff, Monitor.unlock_eq_some] at h
          obtain ⟨m, ⟨hown, rfl⟩, rfl⟩ := h
          exact .closeUnlock hpc hown
      · cases h
  | closeErase =>
      simp only [progressStep] at h
      split at h
      · next fd hpc => exact Option.some.inj h ▸ .closeErase hpc
      · cases h
  | _ => cases h

private theorem step_of_moverStep {s s' : State} {e : Event} (h : moverStep s e = some s') :
    Step s e s' := by
  cases e with
  | moverLock =>
      simp only [moverStep, Option.ite_none_right_eq_some, Option.map_eq_some_iff,
        Monitor.lock_eq_some] at h
      obtain ⟨hpc, m, ⟨hfree, rfl⟩, rfl⟩ := h
      exact .moverLock hpc hfree
  | moverWait =>
      simp only [moverStep, Option.ite_none_right_eq_some, Option.map_eq_some_iff,
        Monitor.condWait_eq_some] at h
      obtain ⟨hpc, m, ⟨hown, rfl⟩, rfl⟩ := h
      exact .moverWait hpc hown
  | moverSpurious =>
      obtain ⟨hpc, rfl⟩ := guarded_eq_some.mp h
      exact .moverSpurious hpc
  | moverReacquire =>
      simp only [moverStep, Option.ite_none_right_eq_some, Option.map_eq_some_iff,
        Monitor.reacquire_eq_some] at h
      obtain ⟨hpc, m, ⟨⟨hfree, hwoken⟩, rfl⟩, rfl⟩ := h
      exact .moverReacquire hpc hfree hwoken
  | moverDrain =>
      simp only [moverStep] at h
      split at h
      · next p rest hpc hqueue => exact Option.some.inj h ▸ .moverDrain hpc hqueue
      · cases h
  | moverUnlock =>
      simp only [moverStep, Option.ite_none_right_eq_some, Option.map_eq_some_iff,
        Monitor.unlock_eq_some] at h
      obtain ⟨⟨hpc, hqueue⟩, m, ⟨hown, rfl⟩, rfl⟩ := h
      exact .moverUnlock hpc hqueue hown
  | moverRestart =>
      obtain ⟨⟨hpc, hlist⟩, rfl⟩ := guarded_eq_some.mp h
      exact .moverRestart hpc hlist
  | moverMkdtemp dir =>
      simp only [moverStep] at h
      split at h
      · next p rest hpc hlist => exact Option.some.inj h ▸ .moverMkdtemp hpc hlist
      · cases h
  | moverCopyCreate =>
      simp only [moverStep] at h
      split at h
      · next filename p rest hpc hlist =>
          obtain ⟨⟨hsource, hnew⟩, rfl⟩ := guarded_eq_some.mp h
          exact .moverCopyCreate hpc hlist hsource hnew
      · cases h
  | moverCopyWrite n =>
      simp only [moverStep] at h
      split at h
      · next filename p rest hpc hlist =>
          split at h
          · next source target hsource htarget =>
              exact Option.some.inj h ▸ .moverCopyWrite hpc hlist hsource htarget
          · cases h
      · cases h
  | moverCopyReturn =>
      simp only [moverStep] at h
      split at h
      · next filename p rest hpc hlist =>
          obtain ⟨hdone, rfl⟩ := guarded_eq_some.mp h
          exact .moverCopyReturn hpc hlist hdone
      · cases h
  | moverCopyThrow =>
      simp only [moverStep] at h
      split at h
      · next filename hpc => exact Option.some.inj h ▸ .moverCopyThrow (.inl hpc)
      · next filename hpc => exact Option.some.inj h ▸ .moverCopyThrow (.inr hpc)
      · cases h
  | moverRecord =>
      simp only [moverStep] at h
      split at h
      · next filename p rest hpc hlist => exact Option.some.inj h ▸ .moverRecord hpc hlist
      · cases h
  | moverPop =>
      obtain ⟨hpc, rfl⟩ := guarded_eq_some.mp h
      exact .moverPop hpc
  | _ => cases h

/-- The step function takes no other steps than these. -/
theorem step_cases {s s' : State} {e : Event} (h : machine.step s e = some s') :
    s.alive = true ∧ Step s e s' := by
  simp only [machine, step, Option.ite_none_right_eq_some] at h
  obtain ⟨halive, h⟩ := h
  refine ⟨halive, ?_⟩
  split at h
  · obtain ⟨hnew, rfl⟩ := guarded_eq_some.mp h
    exact .create hnew
  · rcases Option.or_eq_some_iff.mp h with hp | ⟨_, hm⟩
    · exact step_of_progressStep hp
    · exact step_of_moverStep hm

end Server
end MtHvac
