-- SUMMARY: The interposed open, read, pread and close calls as programs over the client's maps, the kernel and the RPCs.
import MtHvac.Base.Program
import MtHvac.Base.Table
import MtHvac.Rpc.Messages

/-!
# The client wrappers

`wrappers.c` with what it calls in `mthvac_client.cpp` and
`mthvac_comm_client.cpp`, as programs. Each access to `fd_map`, `fd_redir_map` or
`fd_state_map`, each kernel call and each message is one operation. The callback
of an open request runs in the progress thread, while the thread that sent the
request waits for it; it is written where that thread waits.

Timers, the set-up of Mercury and all log messages but one are left out.
-/

namespace MtHvac.Client

open Base

/-! ## Operations -/

/-- `hvac_fd_state`. -/
inductive FdState where
  | opening
  | ready
  | error
deriving DecidableEq

inductive Request where
  | openFile (path : Path)
  | read (req : HvacRpcIn)
  | close (fd : Int)
deriving DecidableEq

/-- `find` looks a key up; `entry` is `operator[]`, which inserts a missing key. -/
inductive Op where
  | realOpen (path : Path) (flags : Nat)
  | realRead (fd : Int) (count : Nat)
  | realPread (fd : Int) (count : Nat) (offset : Int)
  | realClose (fd : Int)
  /-- `std::filesystem::canonical`; `none` is an exception. -/
  | canonical (path : Path)
  | currentPath
  | fdMapFind (fd : Int)
  | fdMapEntry (fd : Int)
  | fdMapSet (fd : Int) (path : Path)
  | fdMapErase (fd : Int)
  | fdRedirMapFind (fd : Int)
  | fdRedirMapEntry (fd : Int)
  | fdRedirMapSet (fd remoteFd : Int)
  | fdRedirMapErase (fd : Int)
  /-- `hvac_get_fd_status`. -/
  | fdStateFind (fd : Int)
  /-- `hvac_set_fd_opening`: a new status object. -/
  | fdStateSet (fd : Int) (state : FdState)
  /-- `hvac_set_fd_ready` and `hvac_set_fd_error`: nothing without a status object. -/
  | fdStateUpdate (fd : Int) (state : FdState)
  /-- The loop around `pthread_cond_timedwait`: whether the descriptor became ready. -/
  | fdStateTimedWait (fd : Int)
  /-- `hvac_cleanup_fd_state`. -/
  | fdStateErase (fd : Int)
  /-- `HG_Forward`: whether the request was sent. -/
  | forward (fd host : Int) (req : Request)
  /-- `HG_Get_output` in `hvac_open_cb` and in `hvac_read_cb`. -/
  | openOutput (fd : Int)
  | readOutput (fd : Int)
  /-- The message `No valid remote FD mapping for local fd` of a read. -/
  | logNoMapping (fd : Int)
deriving DecidableEq

abbrev Op.Res : Op → Type
  | .realOpen _ _                     => Option Int
  | .realRead _ _ | .realPread _ _ _  => Int
  | .realClose _                      => Int
  | .canonical _ | .currentPath       => Option Path
  | .fdMapFind _                      => Option Path
  | .fdMapEntry _                     => Path
  | .fdMapSet _ _ | .fdMapErase _     => Unit
  | .fdRedirMapFind _                 => Option Int
  | .fdRedirMapEntry _                => Int
  | .fdRedirMapSet _ _ | .fdRedirMapErase _ => Unit
  | .fdStateFind _                    => Option FdState
  | .fdStateSet _ _ | .fdStateUpdate _ _ | .fdStateErase _ => Unit
  | .fdStateTimedWait _               => Bool
  | .forward _ _ _                    => Bool
  | .openOutput _ | .readOutput _     => Int
  | .logNoMapping _                   => Unit

def ops : Interface where
  Op := Op
  Res := Op.Res

abbrev Code := Program ops

def op (o : Op) : Code o.Res := @Program.perform ops o

/-! ## Configuration -/

/-- `HVAC_DATA_DIR`, `std::hash<std::string>` and `HVAC_SERVER_COUNT`; the program
divides by the last. -/
structure Config where
  hvacDataDir : Option Path
  hash : Path → Nat
  serverCount : Nat
  serverCount_pos : 0 < serverCount

/-- The server that is asked for a file. -/
def Config.host (cfg : Config) (path : Path) : Int :=
  Word.toInt32 (cfg.hash path % cfg.serverCount : Nat)

def oAccmode : Nat := 3

def oWronly : Nat := 1

def oAppend : Nat := 1024

/-- The name under which the servers leave their addresses. -/
def portsCfg : Path := ['.', 'p', 'o', 'r', 't', 's', '.', 'c', 'f', 'g', '.']

/-- `std::filesystem::path::parent_path` of an absolute path without a trailing
separator. -/
def parentPath (p : Path) : Path :=
  match (p.reverse.dropWhile (· ≠ '/')).reverse.dropLast with
  | []  => ['/']
  | dir => dir

/-! ## Opening -/

variable (cfg : Config)

def hvacFileTracked (fd : Int) : Code Bool := do
  let path ← op (.fdMapFind fd)
  return path.isSome

def hvacGetPath (fd : Int) : Code (Option Path) := do
  match ← op (.fdMapFind fd) with
  | some _ => return some (← op (.fdMapEntry fd))
  | none   => return none

/-- Runs in the progress thread when the response has arrived. The result is the
one that the waiting thread is handed. -/
def hvacOpenCb (localFd : Int) : Code Int := do
  let retStatus ← op (.openOutput localFd)
  if 0 < retStatus then
    op (.fdRedirMapSet localFd retStatus)
    op (.fdStateUpdate localFd .ready)
  else
    op (.fdStateUpdate localFd .error)
  return retStatus

def hvacClientCommGenOpenRpc (svrHash : Int) (path : Path) (fd : Int) : Code Int := do
  op (.fdStateSet fd .opening)
  if ← op (.forward fd svrHash (.openFile path)) then
    hvacOpenCb fd
  else
    op (.fdStateUpdate fd .error)
    return -1

/-- `fd_map[fd] = std::filesystem::canonical(path)`, and whether it was reached. -/
def recordPath (path : Path) (fd : Int) : Code Bool := do
  match ← op (.canonical path) with
  | some p =>
      op (.fdMapSet fd p)
      return true
  | none => return false

/-- The `try` block of `hvac_track_file`: an exception leaves `tracked` unset. -/
def selectPath (path : Path) (fd : Int) : Code Bool := do
  match ← op (.canonical path) with
  | none => return false
  | some p =>
      match cfg.hvacDataDir with
      | some dataDir =>
          match ← op (.canonical dataDir) with
          | none      => return false
          | some test => if test <:+: parentPath p then recordPath path fd else return false
      | none =>
          match ← op .currentPath with
          | none     => return false
          | some cwd => if parentPath p = cwd then recordPath path fd else return false

def hvacTrackFile (path : Path) (flags : Nat) (fd : Int) : Code Bool := do
  if portsCfg <:+: path then
    return false
  if flags &&& oAccmode = oWronly then
    return false
  if flags &&& oAppend ≠ 0 then
    return false
  if ← selectPath cfg path fd then
    let host := cfg.host (← op (.fdMapEntry fd))
    let openResult ← hvacClientCommGenOpenRpc host (← op (.fdMapEntry fd)) fd
    return decide (0 ≤ openResult)
  else
    return false

/-- The `open` wrapper. -/
def openWrapper (path : Path) (flags : Nat) : Code Int := do
  match ← op (.realOpen path flags) with
  | none    => return -1
  | some fd =>
      let _ ← hvacTrackFile cfg path flags fd
      return fd

/-! ## Reading -/

/-- Ready or failed descriptors are answered at once. -/
def hvacWaitFdReady (fd : Int) : Code Bool := do
  match ← op (.fdStateFind fd) with
  | none          => return false
  | some .ready   => return true
  | some .error   => return false
  | some .opening => op (.fdStateTimedWait fd)

/-- The check of the mapping in `hvac_client_comm_gen_read_rpc`. -/
def hasRemoteFd (fd : Int) : Code Bool := do
  match ← op (.fdRedirMapFind fd) with
  | none   => return false
  | some _ => return decide ((← op (.fdRedirMapEntry fd)) ≠ 0)

def hvacClientCommGenReadRpc (svrHash localfd : Int) (count : Nat) (offset : Int) :
    Code Int := do
  if ← hvacWaitFdReady localfd then
    if ← hasRemoteFd localfd then
      let accessfd ← op (.fdRedirMapEntry localfd)
      if ← op (.forward localfd svrHash (.read (readRequest accessfd count offset))) then
        op (.readOutput localfd)
      else
        return -1
    else
      op (.logNoMapping localfd)
      return -1
  else
    return -1

def hvacRemoteRead (fd : Int) (count : Nat) : Code Int := do
  if ← hvacFileTracked fd then
    let host := cfg.host (← op (.fdMapEntry fd))
    hvacClientCommGenReadRpc host fd count (-1)
  else
    return -1

def hvacRemotePread (fd : Int) (count : Nat) (offset : Int) : Code Int := do
  if ← hvacFileTracked fd then
    if (← op (.fdRedirMapEntry fd)) ≠ 0 then
      let host := cfg.host (← op (.fdMapEntry fd))
      hvacClientCommGenReadRpc host fd count offset
    else
      return -1
  else
    return -1

/-- The `read` wrapper, whose local `ret` is an `int`. -/
def readWrapper (fd : Int) (count : Nat) : Code Int := do
  let _ ← hvacGetPath fd
  let ret := Word.toInt32 (← hvacRemoteRead cfg fd count)
  if ret = -1 then
    return Word.toInt32 (← op (.realRead fd count))
  else
    return ret

/-- The `pread` wrapper. -/
def preadWrapper (fd : Int) (count : Nat) (offset : Int) : Code Int := do
  match ← hvacGetPath fd with
  | some _ =>
      let ret ← hvacRemotePread cfg fd count offset
      if ret = -1 then
        op (.realPread fd count offset)
      else
        return ret
  | none => op (.realPread fd count offset)

/-! ## Closing -/

def hvacClientCommGenCloseRpc (svrHash fd : Int) : Code Unit := do
  if ← hasRemoteFd fd then
    let remoteFd ← op (.fdRedirMapEntry fd)
    let _ ← op (.forward fd svrHash (.close remoteFd))
    op (.fdRedirMapErase fd)
  op (.fdStateErase fd)

def hvacRemoteClose (fd : Int) : Code Unit := do
  if ← hvacFileTracked fd then
    let host := cfg.host (← op (.fdMapEntry fd))
    hvacClientCommGenCloseRpc host fd

def hvacRemoveFd (fd : Int) : Code Unit := do
  hvacRemoteClose cfg fd
  op (.fdMapErase fd)

/-- The `close` wrapper. -/
def closeWrapper (fd : Int) : Code Int := do
  if (← hvacGetPath fd).isSome then
    hvacRemoveFd cfg fd
  op (.realClose fd)

/-! ## Calls -/

inductive Call where
  | openFile (path : Path) (flags : Nat)
  | read (fd : Int) (count : Nat)
  | pread (fd : Int) (count : Nat) (offset : Int)
  | close (fd : Int)
deriving DecidableEq

def Call.code : Call → Code Int
  | .openFile path flags      => openWrapper cfg path flags
  | .read fd count            => readWrapper cfg fd count
  | .pread fd count offset    => preadWrapper cfg fd count offset
  | .close fd                 => closeWrapper cfg fd

end MtHvac.Client
