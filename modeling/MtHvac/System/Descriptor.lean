-- SUMMARY: One tracked descriptor with both open files behind it, and the read wrapper run on it.
import MtHvac.Client.Consistency
import MtHvac.Client.Execution
import MtHvac.Server.ReadHandler

/-!
# A tracked descriptor

Behind a tracked descriptor there are two open files with a position each: the
kernel's, which `__real_read` reads, and the server's, which the handler of a
read request reads. Here the read wrapper runs on both, the server answering
each request that is sent.
-/

namespace MtHvac.System

open Base Client

/-! ## State -/

/-- How one call fares: whether `HG_Forward` sends its request, and what the
server's machine decides. -/
structure Service where
  dispatched : Bool
  env : ReadEnv
deriving DecidableEq

/-- `buffer` is what the last read put into the caller's buffer, with the place in the
file that it is from. -/
structure Descriptor where
  world : World
  kernelFile : OpenFile
  serverFile : OpenFile
  request : Option HvacRpcIn
  buffer : Extent Byte

theorem Descriptor.world_with (w : World) (d : Descriptor) :
    ({ d with world := w } : Descriptor).world = w :=
  rfl

theorem Descriptor.with_world (d : Descriptor) : ({ d with world := d.world } : Descriptor) = d :=
  rfl

def Descriptor.act (d : Descriptor) (service : Service) :
    (o : Op) → Option (o.Res × Descriptor)
  | .realRead _ count =>
      match d.kernelFile.read count with
      | none               => some (-1, { d with buffer := ⟨d.kernelFile.pos, []⟩ })
      | some (bytes, file) =>
          some (bytes.length,
            { d with kernelFile := file, buffer := ⟨d.kernelFile.pos, bytes⟩ })
  | .forward _ _ (.read req) =>
      some (service.dispatched, if service.dispatched then { d with request := some req } else d)
  | .readOutput _ =>
      d.request.bind fun req =>
        match hvacRpcHandler service.env req (some d.serverFile) with
        | (.answered pushed ret, some file) =>
            let start := if req.offset = -1 then d.serverFile.pos else req.offset.toNat
            some (ret, { d with serverFile := file, request := none, buffer := ⟨start, pushed⟩ })
        -- the server is gone, and the caller waits forever
        | _ => none
  | o => (d.world.act none o { ok := false }).map fun (r, w) => (r, { d with world := w })

def handler (service : Service) : Program.Handler ops Descriptor where
  act o d := d.act service o

/-- A descriptor that was just opened on a regular file, here and on the server. -/
def Descriptor.opened (w : World) (data : List Byte) : Descriptor where
  world := w
  kernelFile := ⟨.regular data, 0⟩
  serverFile := ⟨.regular data, 0⟩
  request := none
  buffer := ⟨0, []⟩

/-- The client after its first open, which got the descriptor `3`. -/
def openedWorld : World :=
  (((sequential dataDirConfig).run (openSteps ())).map State.world).getD .init

/-- A call of the read wrapper: the bytes that it returns, with their place. -/
def Descriptor.read (cfg : Config) (fd : Int) (service : Service) (count : Nat) (d : Descriptor) :
    Option (Extent Byte × Descriptor) :=
  (Program.exec (handler service) (readWrapper cfg fd count) d).map fun (ret, d') =>
    (⟨d'.buffer.start, d'.buffer.items.take ret.toNat⟩, d')

/-! ## Running the wrapper -/

/-- The client can send reads of the descriptor to a server. -/
def Redirected (w : World) (fd : Int) : Prop :=
  w.fdStateMap fd = some .ready ∧ w.fdRedirMap.entry fd 0 ≠ 0

instance (w : World) (fd : Int) : Decidable (Redirected w fd) :=
  inferInstanceAs (Decidable (_ ∧ _))

/-- The descriptor of the first open is tracked, and can be read remotely. -/
theorem openedWorld_tracked : (openedWorld.fdMap 3).isSome := by
  decide +kernel

theorem openedWorld_redirected : Redirected openedWorld 3 := by
  decide +kernel

theorem exists_remoteFd {w : World} {fd : Int} (h : w.fdRedirMap.entry fd 0 ≠ 0) :
    ∃ remoteFd, w.fdRedirMap fd = some remoteFd ∧ remoteFd ≠ 0 := by
  cases hredir : w.fdRedirMap fd with
  | none => exact absurd (by simp [Table.entry, hredir]) h
  | some remoteFd => exact ⟨remoteFd, rfl, by rwa [Table.entry_of_some hredir] at h⟩

section Rules

variable {cfg : Config} {fd : Int} {service : Service} {d : Descriptor}

@[simp] theorem exec_op {o : Op} :
    @Program.exec ops (no_index _) _ (handler service) (op o) d = d.act service o :=
  @Program.exec_perform ops _ (handler service) o d

/-- The client's programs on a descriptor. -/
def keeper (service : Service) : Keeper Descriptor where
  handler := handler service
  world := Descriptor.world
  put w d := { d with world := w }
  world_put := Descriptor.world_with
  put_world := Descriptor.with_world
  act_maps := by
    intro o d ho
    cases o <;> first | exact ho.elim | rfl

/-- Looking up a tracked descriptor changes nothing. -/
theorem exec_hvacGetPath {path : Path} (htracked : d.world.fdMap fd = some path) :
    Program.exec (handler service) (hvacGetPath fd) d = some (some path, d) := by
  rw [← htracked]
  exact @Keeper.exec_hvacGetPath _ (keeper service) fd d

theorem exec_hvacFileTracked :
    Program.exec (handler service) (hvacFileTracked fd) d =
      some ((d.world.fdMap fd).isSome, d) :=
  @Keeper.exec_hvacFileTracked _ (keeper service) fd d

theorem exec_hvacWaitFdReady :
    Program.exec (handler service) (hvacWaitFdReady fd) d =
      some (decide (d.world.fdStateMap fd = some .ready), d) := by
  rcases hstate : d.world.fdStateMap fd with _ | _ | _ | _ <;>
    simp [hvacWaitFdReady, Descriptor.act, World.act, hstate]

theorem exec_hasRemoteFd :
    Program.exec (handler service) (hasRemoteFd fd) d =
      some (decide (d.world.fdRedirMap.entry fd 0 ≠ 0), d) :=
  @Keeper.exec_hasRemoteFd _ (keeper service) fd d

theorem exec_readRpc_failed {host : Int} {count : Nat} {offset : Int}
    (hfail : ¬ (Redirected d.world fd ∧ service.dispatched = true)) :
    Program.exec (handler service) (hvacClientCommGenReadRpc host fd count offset) d =
      some (-1, d) := by
  by_cases hready : d.world.fdStateMap fd = some .ready
  · by_cases hentry : d.world.fdRedirMap.entry fd 0 = 0
    · simp [hvacClientCommGenReadRpc, exec_hvacWaitFdReady, exec_hasRemoteFd, hready, hentry,
        Descriptor.act, World.act]
    · have hsent : service.dispatched = false := by
        simpa [Redirected, hready, hentry] using hfail
      obtain ⟨_, hredir, _⟩ := exists_remoteFd hentry
      simp [hvacClientCommGenReadRpc, exec_hvacWaitFdReady, exec_hasRemoteFd, hready, hentry,
        Descriptor.act, World.act, hsent, Table.touch_of_some hredir]
  · simp [hvacClientCommGenReadRpc, exec_hvacWaitFdReady, hready]

theorem exec_readRpc_sent {host : Int} {count : Nat} {offset : Int}
    (hredirected : Redirected d.world fd) (hsent : service.dispatched = true) :
    Program.exec (handler service) (hvacClientCommGenReadRpc host fd count offset) d =
      Descriptor.act
        { d with request := some (readRequest (d.world.fdRedirMap.entry fd 0) count offset) }
        service (.readOutput fd) := by
  obtain ⟨hready, hentry⟩ := hredirected
  obtain ⟨remoteFd, hredir, hne⟩ := exists_remoteFd hentry
  rw [Table.entry_of_some hredir]
  refine (@Keeper.exec_readRpc _ (keeper service) fd d host remoteFd count offset hready hredir
    hne).trans ?_
  simp [keeper, Descriptor.act, hsent]

theorem act_readOutput_aborted {req : HvacRpcIn} (hreq : d.request = some req)
    (h : (hvacRpcHandler service.env req (some d.serverFile)).1 = .aborted) :
    d.act service (.readOutput fd) = none := by
  simp only [Descriptor.act, hreq, Option.bind_some]
  split
  · next hanswer =>
      rw [hanswer] at h
      cases h
  · rfl

/-- The server answers with what its system call read, or it is gone. -/
theorem act_readOutput_cases {req : HvacRpcIn} (hreq : d.request = some req) :
    d.act service (.readOutput fd) = none ∧
        (hvacRpcHandler service.env req (some d.serverFile)).1 = .aborted ∨
      ∃ bytes file, handlerRead service.env req (some d.serverFile) = (some bytes, some file) ∧
        d.act service (.readOutput fd) = some ((bytes.length : Int), { d with
          serverFile := file
          request := none
          buffer := ⟨if req.offset = -1 then d.serverFile.pos else req.offset.toNat, bytes⟩ }) := by
  have hfile : ∃ file, (handlerRead service.env req (some d.serverFile)).2 = some file := by
    simp only [handlerRead]
    split
    · exact ⟨_, rfl⟩
    · split
      · split <;> exact ⟨_, rfl⟩
      · exact ⟨_, rfl⟩
  obtain ⟨file, hfile⟩ := hfile
  rcases hvacRpcHandler_cases service.env req (some d.serverFile) with
    haborted | ⟨bytes, hread, hanswer⟩
  · exact .inl ⟨act_readOutput_aborted hreq haborted, haborted⟩
  · rw [hfile] at hanswer
    refine .inr ⟨bytes, file, Prod.ext hread hfile, ?_⟩
    simp only [Descriptor.act, hreq, Option.bind_some, hanswer]

/-- The answer is a number of bytes: it fits an `int`, and is not taken for a failure. -/
theorem ret_of_readOutput {req : HvacRpcIn} {ret : Int} {d' : Descriptor}
    (hreq : d.request = some req) (h : d.act service (.readOutput fd) = some (ret, d')) :
    Word.toInt32 ret = ret ∧ ret ≠ -1 := by
  rcases act_readOutput_cases hreq with ⟨hnone, _⟩ | ⟨bytes, file, hread, hsome⟩
  · cases hnone.symm.trans h
  · have hret : ret = bytes.length := congrArg Prod.fst (Option.some.inj (h.symm.trans hsome))
    have hlen := handlerRead_length_le (congrArg Prod.fst hread)
    have hmax := OpenFile.maxRwCount_lt
    have hle := hlen.trans (Nat.min_le_right _ _)
    exact ⟨Word.toInt32_of_range (by omega) (by omega), by omega⟩

/-- The server's answer to a sequential read of a regular file: the bytes at its
own position, which moves behind them. -/
theorem act_readOutput {req : HvacRpcIn} {data : List Byte} {pos : Nat} {ret : Int}
    {d' : Descriptor} (h : d.act service (.readOutput fd) = some (ret, d'))
    (hreq : d.request = some req) (hseq : req.offset = -1)
    (hfile : d.serverFile = ⟨.regular data, pos⟩) :
    let bytes := slice data pos (min (Word.toUInt64 req.inputVal) OpenFile.maxRwCount)
    ret = bytes.length ∧
      d' = { d with
        serverFile := ⟨.regular data, pos + bytes.length⟩
        request := none
        buffer := ⟨pos, bytes⟩ } := by
  rcases act_readOutput_cases hreq with ⟨hnone, _⟩ | ⟨bytes, file, hread, hsome⟩
  · cases hnone.symm.trans h
  · obtain ⟨rfl, rfl⟩ := Prod.mk.inj (Option.some.inj (hsome.symm.trans h))
    rw [hfile] at hread
    obtain ⟨_, hbytes, hfile'⟩ := handlerRead_regular (congrArg Prod.fst hread)
    rw [hread] at hfile'
    simp only [hseq, if_true, Option.some.injEq] at hbytes hfile'
    rw [← hbytes, hfile', hfile, if_pos hseq]
    exact ⟨rfl, rfl⟩

/-! ## One read -/

theorem exec_hvacRemoteRead {path : Path} (htracked : d.world.fdMap fd = some path) {count : Nat} :
    Program.exec (handler service) (hvacRemoteRead cfg fd count) d =
      Program.exec (handler service)
        (hvacClientCommGenReadRpc (cfg.host path) fd count (-1)) d :=
  @Keeper.exec_hvacRemoteRead _ (keeper service) fd d cfg path count htracked

theorem exec_hvacRemotePread {path : Path} (htracked : d.world.fdMap fd = some path)
    (hentry : d.world.fdRedirMap.entry fd 0 ≠ 0) {count : Nat} {offset : Int} :
    Program.exec (handler service) (hvacRemotePread cfg fd count offset) d =
      Program.exec (handler service)
        (hvacClientCommGenReadRpc (cfg.host path) fd count offset) d := by
  obtain ⟨remoteFd, hredir, hne⟩ := exists_remoteFd hentry
  exact @Keeper.exec_hvacRemotePread _ (keeper service) fd d cfg path remoteFd count offset htracked
    hredir hne

end Rules

/-- The call is served by the server, not by the fallback. -/
def Service.Remote (service : Service) (w : World) (fd : Int) : Prop :=
  Redirected w fd ∧ service.dispatched = true

instance (service : Service) (w : World) (fd : Int) : Decidable (service.Remote w fd) :=
  inferInstanceAs (Decidable (_ ∧ _))

/-- The number of bytes that the server is asked for. -/
def remoteCount (count : Nat) : Nat := Word.toUInt64 (Word.toInt32 (Word.toInt64 count))

theorem toUInt64_inputVal (accessfd : Int) (count : Nat) (offset : Int) :
    Word.toUInt64 (readRequest accessfd count offset).inputVal = remoteCount count := by
  rw [readRequest_inputVal, remoteCount]

/-- A count that the server can allocate has lost its upper half. -/
theorem remoteCount_le {count : Nat} (h : remoteCount count < 2 ^ 63) :
    remoteCount count ≤ count := by
  simp only [remoteCount, Word.toUInt64, Word.toInt32, Word.toInt64, Int.bmod_def] at h ⊢
  omega

attribute [irreducible] remoteCount

namespace Descriptor

variable {cfg : Config} {fd : Int} {service : Service} {d d' : Descriptor} {count : Nat}
  {x : Extent Byte}

/-- The wrapper returns what the server answers. -/
theorem exec_readWrapper_remote {data : List Byte} {pos : Nat} {ret : Int}
    (htracked : (d.world.fdMap fd).isSome) (hremote : service.Remote d.world fd)
    (hfile : d.serverFile = ⟨.regular data, pos⟩)
    (h : Program.exec (handler service) (readWrapper cfg fd count) d = some (ret, d')) :
    let bytes := slice data pos (min (remoteCount count) OpenFile.maxRwCount)
    ret = bytes.length ∧
      d' = { d with
        serverFile := ⟨.regular data, pos + bytes.length⟩
        request := none
        buffer := ⟨pos, bytes⟩ } := by
  obtain ⟨path, hpath⟩ := Option.isSome_iff_exists.mp htracked
  simp only [readWrapper, Program.exec_bind, exec_hvacGetPath hpath, exec_hvacRemoteRead hpath,
    Option.bind_some] at h
  rw [exec_readRpc_sent hremote.1 hremote.2] at h
  obtain ⟨⟨ret₁, d₁⟩, hanswer, hret⟩ := Option.bind_eq_some_iff.mp h
  obtain ⟨hint, hne⟩ := ret_of_readOutput rfl hanswer
  simp only [hint, hne, if_false, Program.exec_pure, Option.some.injEq, Prod.mk.injEq] at hret
  obtain ⟨rfl, rfl⟩ := hret
  have hbytes := act_readOutput hanswer rfl (readRequest_offset _ _ _) hfile
  rwa [toUInt64_inputVal] at hbytes

/-- A read that the server answers is cut from its file at its position, and
leaves the kernel's file alone. -/
theorem read_remote {data : List Byte} {pos : Nat} (htracked : (d.world.fdMap fd).isSome)
    (hremote : service.Remote d.world fd) (hfile : d.serverFile = ⟨.regular data, pos⟩)
    (h : d.read cfg fd service count = some (x, d')) :
    x = ⟨pos, slice data pos (min (remoteCount count) OpenFile.maxRwCount)⟩ ∧
      d'.world = d.world ∧ d'.kernelFile = d.kernelFile ∧
      d'.serverFile = ⟨.regular data, pos + x.items.length⟩ := by
  obtain ⟨⟨ret, d₁⟩, hexec, hx⟩ := Option.map_eq_some_iff.mp h
  obtain ⟨hret, hd₁⟩ := exec_readWrapper_remote htracked hremote hfile hexec
  rw [Prod.mk.injEq] at hx
  obtain ⟨hx, rfl⟩ := hx
  have hx' : x = ⟨pos, slice data pos (min (remoteCount count) OpenFile.maxRwCount)⟩ := by
    rw [← hx, hd₁, hret, Int.toNat_natCast, List.take_length]
  rw [hx', hd₁]
  exact ⟨rfl, rfl, rfl, rfl⟩

/-- Otherwise it is cut from the kernel's file, as far as the kernel grants it, and
leaves the server's alone. -/
theorem read_local {data : List Byte} {pos : Nat} (htracked : (d.world.fdMap fd).isSome)
    (hlocal : ¬ service.Remote d.world fd) (hfile : d.kernelFile = ⟨.regular data, pos⟩)
    (h : d.read cfg fd service count = some (x, d')) :
    x = ⟨pos, slice data pos (OpenFile.granted pos count)⟩ ∧
      d'.world = d.world ∧ d'.serverFile = d.serverFile ∧
      d'.kernelFile = ⟨.regular data, pos + x.items.length⟩ := by
  obtain ⟨path, hpath⟩ := Option.isSome_iff_exists.mp htracked
  simp only [Descriptor.read, readWrapper, Program.exec_bind, exec_hvacGetPath hpath,
    exec_hvacRemoteRead hpath, exec_readRpc_failed hlocal, Option.bind_some] at h
  by_cases hgrant : OpenFile.Transferable pos count
  · simp only [Word.toInt32_neg_one, if_true, Program.exec_bind, exec_op, Descriptor.act, hfile,
      OpenFile.read_regular hgrant, Option.bind_some, Program.exec_pure, Option.map_some,
      OpenFile.toInt32_slice_length, Int.toNat_natCast, List.take_length, Option.some.injEq,
      Prod.mk.injEq] at h
    obtain ⟨rfl, rfl⟩ := h
    rw [OpenFile.granted, if_pos hgrant]
    exact ⟨rfl, rfl, rfl, rfl⟩
  · simp only [Word.toInt32_neg_one, if_true, Program.exec_bind, exec_op, Descriptor.act, hfile,
      OpenFile.read_refused hgrant, Option.bind_some, Program.exec_pure, Option.map_some,
      Option.some.injEq, Prod.mk.injEq] at h
    obtain ⟨rfl, rfl⟩ := h
    rw [OpenFile.granted, if_neg hgrant, slice_zero]
    exact ⟨rfl, rfl, rfl, rfl⟩

end Descriptor

end MtHvac.System
