-- SUMMARY: Completions of the client's requests: which of them the callbacks turn into a result, and when a failed request is made up for by local I/O.
import MtHvac.Client.Execution
import MtHvac.Client.Rpc
import MtHvac.System.Descriptor

/-!
# Completions

A request that was sent completes with success and a response, or with an error. The
callback hands a result to the thread that waits; the wrappers fall back to the
kernel's file where the result is `-1`.
-/

namespace MtHvac.System.Completions

open Base Client Client.Rpc

/-! ## Running a call -/

/-- An `int32_t` field of a response. -/
abbrev Int32Field := { x : Int // -2 ^ 31 ≤ x ∧ x < 2 ^ 31 }

/-- What a callback is handed. With an error `HG_Get_output` yields nothing. -/
inductive Completion where
  | success (out : Int32Field)
  | error
deriving DecidableEq

/-- The client, and the kernel's open file behind the descriptor. -/
structure Process where
  world : World
  kernelFile : OpenFile

/-- What `__real_read` returns. -/
def realRead (f : OpenFile) (count : Nat) : Int := readbytes ((f.read count).map Prod.fst)

def realPread (f : OpenFile) (count : Nat) (offset : Int) : Int := readbytes (f.pread count offset)

/-- Every request is sent, and completes with `c`. -/
def act (c : Completion) (p : Process) : (o : Op) → Option (o.Res × Process)
  | .realRead _ count         =>
      some (realRead p.kernelFile count,
        { p with kernelFile := ((p.kernelFile.read count).map Prod.snd).getD p.kernelFile })
  | .realPread _ count offset => some (realPread p.kernelFile count offset, p)
  | .openOutput fd            =>
      match c with
      | .success out =>
          (p.world.act none (.openOutput fd) { value := out.val }).map
            (Prod.map id fun w => { p with world := w })
      | .error       => none
  | .readOutput _             =>
      match c with
      | .success out => some (out.val, p)
      | .error       => none
  | o                         =>
      (p.world.act none o {}).map (Prod.map id fun w => { p with world := w })

def rpcAct (c : Completion) (p : Process) : (o : RpcOp) → Option (o.Res × Process)
  | .client o          => act c p o
  | .forwardSeek _ _ _ => some (true, p)
  | .infoRet _         => some (decide (c ≠ .error), p)
  | .seekOutput _      =>
      match c with
      | .success out => some (some out.val, p)
      | .error       => some (none, p)
  | o                  => o.silent.map fun r => (r, p)

def handler (c : Completion) : Program.Handler rpcOps Process where
  act o p := rpcAct c p o

/-- The client's programs on a process. -/
def keeper (c : Completion) : Keeper Process where
  handler := (handler c).via answered
  world := Process.world
  put w p := { p with world := w }
  world_put := fun _ _ => rfl
  put_world := fun _ => rfl
  act_maps := by
    intro o p ho
    cases o <;> first | exact ho.elim | rfl

variable {cfg : Config} {c : Completion} {p : Process} {fd : Int}

@[simp] theorem handler_act {o : RpcOp} : (handler c).act o p = rpcAct c p o := rfl

theorem keeper_handler : (keeper c).handler = (handler c).via answered := rfl

/-- The callback of an open request ends the process, or marks the descriptor. -/
theorem exec_openRpc_error {svrHash : Int} {path : Path} :
    Program.exec (handler .error) (Rpc.hvacClientCommGenOpenRpc svrHash path fd) p = none := by
  simp [Rpc.hvacClientCommGenOpenRpc, Rpc.hvacOpenCb, rpcAct, act, World.act, RpcOp.silent]

theorem exec_openRpc_success {svrHash : Int} {path : Path} {out : Int32Field} : ∃ lastOpen,
    Program.exec (handler (.success out)) (Rpc.hvacClientCommGenOpenRpc svrHash path fd) p =
      some (out.val, { p with
        world := { p.world with
          fdRedirMap := if 0 < out.val then p.world.fdRedirMap.set fd out.val
            else p.world.fdRedirMap
          fdStateMap := p.world.fdStateMap.set fd (if 0 < out.val then .ready else .error)
          lastOpen := lastOpen } }) := by
  by_cases hstatus : 0 < out.val
  · simp [Rpc.hvacClientCommGenOpenRpc, Rpc.hvacOpenCb, rpcAct, act, World.act, World.sent,
      RpcOp.silent, hstatus, Table.update_set]
  · simp [Rpc.hvacClientCommGenOpenRpc, Rpc.hvacOpenCb, rpcAct, act, World.act, World.sent,
      RpcOp.silent, hstatus, Table.update_set]

/-- The callback of a seek request hands over what is in `out`. -/
theorem exec_seekRpc {svrHash offset whence : Int} : ∃ p',
    Program.exec (handler c) (hvacClientCommGenSeekRpc svrHash fd offset whence) p =
      some (match c with
        | .success out => some out.val
        | .error       => none, p') := by
  refine ⟨{ p with world := { p.world with fdRedirMap := p.world.fdRedirMap.touch fd 0 } }, ?_⟩
  cases c <;>
    simp [hvacClientCommGenSeekRpc, hvacSeekCb, rpcAct, act, World.act, RpcOp.silent]

@[simp] theorem exec_forward_read {host : Int} {req : HvacRpcIn} :
    @Program.exec ops (no_index _) _ (keeper c).handler (op (.forward fd host (.read req))) p =
      some (true, p) := by
  rw [Keeper.exec_op]
  rfl

@[simp] theorem exec_readOutput :
    @Program.exec ops (no_index _) _ (keeper c).handler (op (.readOutput fd)) p =
      match c with
      | .error       => none
      | .success out => some (out.val, p) := by
  rw [Keeper.exec_op]
  cases c <;> rfl

@[simp] theorem exec_realRead {count : Nat} :
    @Program.exec ops (no_index _) _ (keeper c).handler (op (.realRead fd count)) p =
      some (realRead p.kernelFile count,
        { p with
          kernelFile := ((p.kernelFile.read count).map Prod.snd).getD p.kernelFile }) := by
  rw [Keeper.exec_op]
  rfl

@[simp] theorem exec_realPread {count : Nat} {offset : Int} :
    @Program.exec ops (no_index _) _ (keeper c).handler (op (.realPread fd count offset)) p =
      some (realPread p.kernelFile count offset, p) := by
  rw [Keeper.exec_op]
  rfl

@[simp] theorem keeper_world : (keeper c).world p = p.world := rfl

@[simp] theorem keeper_put {w : World} : (keeper c).put w p = { p with world := w } := rfl

/-- The callback of a read request ends the process, or its result is the response. -/
theorem exec_readRpc {svrHash : Int} {count : Nat} {offset : Int} (h : Redirected p.world fd) :
    Program.exec (keeper c).handler (Client.hvacClientCommGenReadRpc svrHash fd count offset) p =
      match c with
      | .error       => none
      | .success out => some (out.val, p) := by
  obtain ⟨remoteFd, hredir, hne⟩ := exists_remoteFd h.2
  rw [Keeper.exec_readRpc h.1 hredir hne]
  simp

/-- What `__real_read` returns fits an `int`. -/
theorem toInt32_realRead (f : OpenFile) (count : Nat) :
    Word.toInt32 (realRead f count) = realRead f count := by
  unfold realRead readbytes
  cases h : f.read count with
  | none => decide
  | some r =>
      have hlen := OpenFile.read_length_le h
      have hmax := OpenFile.maxRwCount_lt
      simp only [Option.map_some]
      exact Word.toInt32_of_range (by omega) (by omega)

theorem realRead_ge (f : OpenFile) (count : Nat) : -1 ≤ realRead f count := by
  unfold realRead readbytes
  split <;> omega

theorem realPread_ge (f : OpenFile) (count : Nat) (offset : Int) :
    -1 ≤ realPread f count offset := by
  unfold realPread readbytes
  split <;> omega

/-! ## Degrading to local I/O -/

/-- The two wrappers return what the kernel's calls return. -/
def ReadsLocally (cfg : Config) (fd : Int) (p : Process) : Prop :=
  ∀ (c : Completion) (count : Nat) (offset : Int),
    (Program.exec (handler c) (embed (readWrapper cfg fd count)) p).map Prod.fst =
        some (realRead p.kernelFile count) ∧
      (Program.exec (handler c) (embed (preadWrapper cfg fd count offset)) p).map Prod.fst =
        some (realPread p.kernelFile count offset)

/-- A descriptor that was not opened remotely is read locally. -/
theorem readsLocally_of_error (h : p.world.fdStateMap fd = some .error) :
    ReadsLocally cfg fd p := by
  intro c count offset
  have hunready : ∀ (q : Process) (host : Int) (offset' : Int), q.world.fdStateMap fd = some .error →
      Program.exec (keeper c).handler (Client.hvacClientCommGenReadRpc host fd count offset') q =
        some (-1, q) := by
    intro q host offset' hq
    exact Keeper.exec_readRpc_unready (by simp [hq]) (by simp [hq])
  rw [exec_embed keeper_handler, exec_embed keeper_handler]
  cases hpath : p.world.fdMap fd with
  | none =>
      simp [readWrapper, preadWrapper, hvacRemoteRead, Keeper.exec_hvacGetPath,
        Keeper.exec_hvacFileTracked, hpath, toInt32_realRead]
  | some path =>
      have hentry : ∀ q : Process, q.world.fdMap fd = some path →
          @Program.exec ops (no_index _) _ (keeper c).handler (op (.fdMapEntry fd)) q =
            some (path, q) := fun q hq => Keeper.exec_fdMapEntry hq
      constructor
      · simp [readWrapper, hvacRemoteRead, Keeper.exec_hvacGetPath, Keeper.exec_hvacFileTracked,
          hpath, hentry, hunready, h, toInt32_realRead]
      · by_cases hremote : p.world.fdRedirMap.entry fd 0 = 0
        · simp [preadWrapper, hvacRemotePread, Keeper.exec_hvacGetPath,
            Keeper.exec_hvacFileTracked, hpath, hremote]
        · simp [preadWrapper, hvacRemotePread, Keeper.exec_hvacGetPath,
            Keeper.exec_hvacFileTracked, hpath, hremote, hentry, hunready, h]

/-- A request that was sent, by the call that waits for its completion. -/
inductive Call where
  | openRpc (svrHash : Int) (path : Path)
  | read (count : Nat)
  | pread (count : Nat) (offset : Int)
  | lseek (offset whence : Int)
deriving DecidableEq

/-- Where the call sends its request. -/
def Call.Sends (w : World) (fd : Int) : Call → Prop
  | .openRpc _ _         => True
  | .read _ | .pread _ _ => (w.fdMap fd).isSome ∧ Redirected w fd
  | .lseek _ _           => (w.fdMap fd).isSome

instance (w : World) (fd : Int) : (call : Call) → Decidable (call.Sends w fd)
  | .openRpc _ _         => .isTrue trivial
  | .read _ | .pread _ _ => inferInstanceAs (Decidable (_ ∧ _))
  | .lseek _ _           => inferInstanceAs (Decidable ((w.fdMap fd).isSome = true))

/-- The least response that does not report a failure. -/
def Call.least : Call → Int
  | .openRpc _ _ => 1
  | _            => 0

/-- The request completed with an error, or with a response that reports a failure. -/
def Completion.Failed (c : Completion) (call : Call) : Prop :=
  ∀ out, c = .success out → out.val < call.least

/-- The call returns a result, and after a failure a negative one; then reads go to
the kernel. -/
def Degrades (cfg : Config) (c : Completion) (p : Process) (fd : Int) (call : Call) : Prop :=
  match call with
  | .openRpc svrHash path =>
      ∃ r p', Program.exec (handler c) (Rpc.hvacClientCommGenOpenRpc svrHash path fd) p =
          some (r, p') ∧
        (c.Failed call → r < 0 ∧ p'.world.fdStateMap fd = some .error ∧ ReadsLocally cfg fd p')
  | .read count =>
      ∃ r p' ret q, Program.exec (handler c) (embed (hvacRemoteRead cfg fd count)) p =
          some (r, p') ∧
        Program.exec (handler c) (embed (readWrapper cfg fd count)) p = some (ret, q) ∧
        (c.Failed call → r < 0 ∧ ret = realRead p.kernelFile count)
  | .pread count offset =>
      ∃ r p' ret q, Program.exec (handler c) (embed (hvacRemotePread cfg fd count offset)) p =
          some (r, p') ∧
        Program.exec (handler c) (embed (preadWrapper cfg fd count offset)) p = some (ret, q) ∧
        (c.Failed call → r < 0 ∧ ret = realPread p.kernelFile count offset)
  | .lseek offset whence =>
      ∃ r p', Program.exec (handler c) (hvacRemoteLseek cfg fd offset whence) p =
          some (some r, p') ∧ (c.Failed call → r < 0)

/-- The responses that each call can make sense of. -/
def Call.Understands (out : Int) : Call → Prop
  | .openRpc _ _         => out ≠ 0
  | .read _ | .pread _ _ => -1 ≤ out
  | .lseek _ _           => True

theorem failed_success {call : Call} {out : Int32Field} :
    (Completion.success out).Failed call ↔ out.val < call.least := by
  simp [Completion.Failed]

theorem exec_hvacRemoteRead {count : Nat} (htracked : (p.world.fdMap fd).isSome)
    (h : Redirected p.world fd) :
    Program.exec (keeper c).handler (hvacRemoteRead cfg fd count) p =
      match c with
      | .error       => none
      | .success out => some (out.val, p) := by
  obtain ⟨path, hpath⟩ := Option.isSome_iff_exists.mp htracked
  rw [Keeper.exec_hvacRemoteRead hpath, exec_readRpc h]

theorem exec_hvacRemotePread {count : Nat} {offset : Int} (htracked : (p.world.fdMap fd).isSome)
    (h : Redirected p.world fd) :
    Program.exec (keeper c).handler (hvacRemotePread cfg fd count offset) p =
      match c with
      | .error       => none
      | .success out => some (out.val, p) := by
  obtain ⟨path, hpath⟩ := Option.isSome_iff_exists.mp htracked
  obtain ⟨remoteFd, hredir, hne⟩ := exists_remoteFd h.2
  rw [Keeper.exec_hvacRemotePread hpath hredir hne, exec_readRpc h]

/-- The wrappers take the result `-1` for a failure, and no other. -/
theorem exec_readWrapper {count : Nat} {out : Int32Field} (htracked : (p.world.fdMap fd).isSome)
    (h : Redirected p.world fd) : ∃ q,
    Program.exec (keeper (.success out)).handler (readWrapper cfg fd count) p =
      some (if out.val = -1 then realRead p.kernelFile count else out.val, q) := by
  obtain ⟨path, hpath⟩ := Option.isSome_iff_exists.mp htracked
  have hout : Word.toInt32 out.val = out.val := Word.toInt32_of_range out.2.1 out.2.2
  by_cases hfailed : out.val = -1
  · simp [readWrapper, Keeper.exec_hvacGetPath, exec_hvacRemoteRead htracked h, hfailed,
      toInt32_realRead]
  · simp [readWrapper, Keeper.exec_hvacGetPath, exec_hvacRemoteRead htracked h, hout, hfailed]

theorem exec_preadWrapper {count : Nat} {offset : Int} {out : Int32Field}
    (htracked : (p.world.fdMap fd).isSome) (h : Redirected p.world fd) :
    Program.exec (keeper (.success out)).handler (preadWrapper cfg fd count offset) p =
      some (if out.val = -1 then realPread p.kernelFile count offset else out.val, p) := by
  obtain ⟨path, hpath⟩ := Option.isSome_iff_exists.mp htracked
  by_cases hfailed : out.val = -1
  · simp [preadWrapper, Keeper.exec_hvacGetPath, hpath, exec_hvacRemotePread htracked h, hfailed]
  · simp [preadWrapper, Keeper.exec_hvacGetPath, hpath, exec_hvacRemotePread htracked h, hfailed]

theorem exec_hvacRemoteLseek {offset whence : Int} (htracked : (p.world.fdMap fd).isSome) : ∃ p',
    Program.exec (handler c) (hvacRemoteLseek cfg fd offset whence) p =
      some (match c with
        | .success out => some out.val
        | .error       => none, p') := by
  obtain ⟨path, hpath⟩ := Option.isSome_iff_exists.mp htracked
  obtain ⟨p', hexec⟩ := @exec_seekRpc c p fd (cfg.host path) (Word.toInt32 offset) whence
  refine ⟨p', ?_⟩
  have hentry : act c p (.fdMapEntry fd) = some (path, p) := by
    simp [act, World.act, hpath, Table.touch_of_some hpath]
  simp [hvacRemoteLseek, exec_embed keeper_handler, rpcAct, Keeper.exec_hvacFileTracked, hpath,
    hentry, hexec]

/-- A failure is made up for by a result that only a failed call returns. -/
theorem failure_iff {out local' : Int} (h : -1 ≤ local') :
    (out < 0 → out < 0 ∧ (out ≠ -1 → out = local')) ↔ -1 ≤ out := by
  omega

/-- A completion is made up for exactly if it is a success with a response that the
call understands. -/
theorem degrades_iff {call : Call} (hsends : call.Sends p.world fd) :
    Degrades cfg c p fd call ↔ ∃ out, c = .success out ∧ call.Understands out.val := by
  cases call with
  | openRpc svrHash path =>
      cases c with
      | error => simp [Degrades, exec_openRpc_error]
      | success out =>
          obtain ⟨lastOpen, hexec⟩ := @exec_openRpc_success p fd svrHash path out
          simp only [Degrades, hexec, failed_success, Call.least, Call.Understands,
            Completion.success.injEq, exists_eq_left', Option.some.injEq, Prod.mk.injEq]
          constructor
          · rintro ⟨_, _, ⟨rfl, _⟩, hfailed⟩
            omega
          · intro hne
            refine ⟨_, _, ⟨rfl, rfl⟩, fun hlt => ⟨by omega, ?_⟩⟩
            have hstate : (p.world.fdStateMap.set fd
                (if 0 < out.val then FdState.ready else .error)) fd = some .error := by
              rw [if_neg (by omega), Table.set_self]
            exact ⟨hstate, readsLocally_of_error hstate⟩
  | read count =>
      obtain ⟨htracked, hredirected⟩ := hsends
      cases c with
      | error =>
          simp [Degrades, exec_embed keeper_handler, exec_hvacRemoteRead htracked hredirected]
      | success out =>
          obtain ⟨q, hwrapper⟩ := @exec_readWrapper cfg p fd count out htracked hredirected
          simp [Degrades, exec_embed keeper_handler, exec_hvacRemoteRead htracked hredirected,
            hwrapper, failed_success, Call.least, Call.Understands, failure_iff (realRead_ge _ _)]
  | pread count offset =>
      obtain ⟨htracked, hredirected⟩ := hsends
      cases c with
      | error =>
          simp [Degrades, exec_embed keeper_handler, exec_hvacRemotePread htracked hredirected]
      | success out =>
          simp [Degrades, exec_embed keeper_handler, exec_hvacRemotePread htracked hredirected,
            exec_preadWrapper htracked hredirected, failed_success, Call.least, Call.Understands,
            failure_iff (realPread_ge _ _ _)]
  | lseek offset whence =>
      obtain ⟨p', hexec⟩ := @exec_hvacRemoteLseek cfg c p fd offset whence hsends
      cases c with
      | error => simp [Degrades, hexec]
      | success out => simp [Degrades, hexec, failed_success, Call.least, Call.Understands]

/-- The client after its first open, with the kernel's open file of the bytes `data`. -/
def openedProcess (data : List Byte) : Process := ⟨openedWorld, ⟨.regular data, 0⟩⟩

/-- A read that the server answers with `-1` goes to the kernel. -/
theorem read_degrades : Degrades dataDirConfig (.success ⟨-1, by decide⟩)
    (openedProcess [10, 20]) 3 (.read 2) :=
  (degrades_iff (by decide +kernel)).mpr ⟨_, rfl, le_refl (-1 : Int)⟩

/-- An error ends the process in the callback of a read. -/
theorem read_error_aborts :
    ¬ ∀ (cfg : Config) (c : Completion) (p : Process) (fd : Int) (call : Call),
      call.Sends p.world fd → Degrades cfg c p fd call := by
  intro h
  obtain ⟨r, p', _, _, hexec, _⟩ :=
    h dataDirConfig .error (openedProcess [10, 20]) 3 (.read 2) (by decide +kernel)
  rw [exec_embed keeper_handler,
    exec_hvacRemoteRead (by decide +kernel) (by decide +kernel)] at hexec
  cases hexec

end MtHvac.System.Completions
