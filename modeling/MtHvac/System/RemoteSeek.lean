-- SUMMARY: The exported calls of the client on servers with open files: when a remote seek does what lseek64 does.
import MtHvac.Client.Rpc
import MtHvac.Client.Tracking
import MtHvac.Server.ReadHandler

/-!
# Remote seeks

The functions that the client exports, called one after the other, with servers that
hold open files. A seek takes the remote descriptor from `fd_redir_map` as it is;
its offset and its result are an `int` on the way.
-/

namespace MtHvac.System.RemoteSeek

open Base Client Client.Rpc

/-! ## Servers -/

/-- A descriptor of a server. -/
abbrev RemoteFd := Int × Int

/-- `lseek64` on a descriptor, and its result. -/
def seekAt (servers : Table RemoteFd OpenFile) (rfd : RemoteFd) (offset whence : Int) :
    Int × Table RemoteFd OpenFile :=
  match (servers rfd).bind fun f => f.lseek offset whence with
  | none        => (-1, servers)
  | some (r, f) => (r, servers.set rfd f)

/-! ## State -/

/-- `remote` is the descriptor that the last open request for a local one was given,
`given` are all that were ever given to the client, and `named` those that its seek
requests have named. The servers in `down` have ended in an assertion. -/
structure State where
  world : World
  servers : Table RemoteFd OpenFile
  remote : Table Int RemoteFd
  given : List RemoteFd
  named : List RemoteFd
  down : List Int
  opening : Option Int
  reading : Option (Int × HvacRpcIn)
  seeking : Option (Int × HvacSeekIn)

/-- `own` are the files that the servers have open themselves. -/
def State.init (own : Table RemoteFd OpenFile) : State where
  world := .init
  servers := own
  remote := .empty
  given := []
  named := []
  down := []
  opening := none
  reading := none
  seeking := none

/-- What the outside decides during a call, with what the server opens and how a read
fares on it. -/
structure Env extends Tracking.Outside where
  node : Node
  readEnv : ReadEnv

/-- The server opens the file of a request and answers with its descriptor. -/
def State.opened (s : State) (fd host status : Int) (node : Node) : Option State :=
  guarded (s.servers (host, status) = none)
    { s with
      servers := s.servers.set (host, status) ⟨node, 0⟩
      remote := s.remote.set fd (host, status)
      given := (host, status) :: s.given }

/-- The operations of a call. A request to a server that is down, or goes down with
it, is never answered. -/
def act (env : Env) (s : State) : (o : Op) → Option (o.Res × State)
  | .canonical path               => some (env.canonical path, s)
  | .currentPath                  => some (env.currentPath, s)
  | .fdStateTimedWait _           => some (false, s)
  | .forward fd host (.openFile _) =>
      some (env.dispatched, { s with remote := s.remote.erase fd, opening := some host })
  | .forward _ host (.read req)   => some (env.dispatched, { s with reading := some (host, req) })
  | .forward fd host (.close rfd) =>
      -- hvac_close_rpc_handler asserts that close succeeds
      some (env.dispatched, { s with
        remote := s.remote.erase fd
        servers := if env.dispatched then s.servers.erase (host, rfd) else s.servers
        down := if env.dispatched ∧ s.servers (host, rfd) = none then host :: s.down
          else s.down })
  | .openOutput fd                =>
      s.opening.bind fun host =>
        if host ∈ s.down then none
        else if 0 < env.status then
          (s.opened fd host env.status env.node).map fun s' => (env.status, s')
        else some (env.status, s)
  | .readOutput _                 =>
      s.reading.bind fun (host, req) =>
        if host ∈ s.down then none
        else
          match hvacRpcHandler env.readEnv req (s.servers (host, req.accessfd)) with
          | (.answered _ ret, some file) =>
              some (ret, { s with servers := s.servers.set (host, req.accessfd) file })
          | _ => none
  | o                             =>
      (s.world.act none o {}).map (Prod.map id fun w => { s with world := w })

def rpcAct (env : Env) (s : State) : (o : RpcOp) → Option (o.Res × State)
  | .client o               => act env s o
  | .forwardSeek _ host req =>
      some (env.dispatched, { s with
        seeking := some (host, req)
        named := if env.dispatched then (host, req.fd) :: s.named else s.named })
  | .infoRet _              => some (true, s)
  | .seekOutput _           =>
      -- hvac_seek_rpc_handler
      s.seeking.bind fun (host, req) =>
        if host ∈ s.down then none
        else
          let (r, servers) := seekAt s.servers (host, req.fd) req.offset req.whence
          some (some (Word.toInt32 r), { s with servers := servers })
  | o                       => o.silent.map fun r => (r, s)

def handler (env : Env) : Program.Handler rpcOps State where
  act o s := rpcAct env s o

/-- The client's programs on a state. -/
def keeper (env : Env) : Keeper State where
  handler := (handler env).via answered
  world := State.world
  put w s := { s with world := w }
  world_put := fun _ _ => rfl
  put_world := fun _ => rfl
  act_maps := by
    intro o s ho
    cases o <;> first | exact ho.elim | rfl

/-! ## Calls -/

/-- The functions that the client exports. -/
inductive Call where
  | trackFile (path : Path) (flags : Nat) (fd : Int)
  | remoteRead (fd : Int) (count : Nat)
  | remotePread (fd : Int) (count : Nat) (offset : Int)
  | remoteLseek (fd offset whence : Int)
  | removeFd (fd : Int)
deriving DecidableEq

def Call.code (cfg : Config) : Call → RpcCode Unit
  | .trackFile path flags fd      => do let _ ← embed (hvacTrackFile cfg path flags fd)
  | .remoteRead fd count          => do let _ ← embed (hvacRemoteRead cfg fd count)
  | .remotePread fd count offset  => do let _ ← embed (hvacRemotePread cfg fd count offset)
  | .remoteLseek fd offset whence => do let _ ← hvacRemoteLseek cfg fd offset whence
  | .removeFd fd                  => embed (hvacRemoveFd cfg fd)

def step (cfg : Config) (s : State) (e : Call × Env) : Option State :=
  (Program.exec (handler e.2) (e.1.code cfg) s).map Prod.snd

def machine (cfg : Config) (own : Table RemoteFd OpenFile) : Machine State (Call × Env) where
  init := .init own
  step := step cfg

/-! ## What the calls keep -/

variable {cfg : Config} {env : Env} {fd : Int} {s s' : State}

/-- A local descriptor with a remote one is tracked, with the path that its server was
chosen for, and is mapped to the remote one. -/
def Linked (cfg : Config) (s : State) (fd : Int) : Prop :=
  ∀ host rfd, s.remote fd = some (host, rfd) →
    ∃ path, s.world.fdMap fd = some path ∧ cfg.host path = host ∧
      s.world.fdRedirMap fd = some rfd ∧ rfd ≠ 0

def Inv (cfg : Config) (s : State) : Prop := ∀ fd, Linked cfg s fd

/-- Nothing is taken out of the maps, and no remote descriptor comes or goes. -/
structure Keeps (s s' : State) : Prop where
  remote : s'.remote = s.remote
  fdMap : ∀ {fd path}, s.world.fdMap fd = some path → s'.world.fdMap fd = some path
  fdRedirMap : ∀ {fd rfd}, s.world.fdRedirMap fd = some rfd → s'.world.fdRedirMap fd = some rfd

theorem Keeps.inv (h : Keeps s s') (hi : Inv cfg s) : Inv cfg s' := by
  intro fd host rfd hremote
  rw [h.remote] at hremote
  obtain ⟨path, hpath, hhost, hredir, hne⟩ := hi fd host rfd hremote
  exact ⟨path, h.fdMap hpath, hhost, h.fdRedirMap hredir, hne⟩

/-- The operations that neither open nor close, and change no entry. -/
def Quiet : RpcOp → Prop
  | .client (.fdMapSet _ _) | .client (.fdMapErase _)
  | .client (.fdRedirMapSet _ _) | .client (.fdRedirMapErase _)
  | .client (.forward _ _ (.openFile _)) | .client (.forward _ _ (.close _))
  | .client (.openOutput _) => False
  | _                       => True

theorem Keeps.of_eq (hremote : s'.remote = s.remote) (hfdMap : s'.world.fdMap = s.world.fdMap)
    (hredir : s'.world.fdRedirMap = s.world.fdRedirMap) : Keeps s s' := by
  constructor
  · exact hremote
  · rw [hfdMap]
    exact id
  · rw [hredir]
    exact id

theorem keeps_of_quiet {o : RpcOp} {r : o.Res} (ho : Quiet o) (h : rpcAct env s o = some (r, s')) :
    Keeps s s' := by
  cases o with
  | client o =>
      cases o with
      | fdMapEntry fd =>
          obtain ⟨_, rfl⟩ := Prod.mk.inj (Option.some.inj h)
          exact ⟨rfl, fun hpath => Table.touch_eq_some hpath, id⟩
      | fdRedirMapEntry fd =>
          obtain ⟨_, rfl⟩ := Prod.mk.inj (Option.some.inj h)
          exact ⟨rfl, id, fun hredir => Table.touch_eq_some hredir⟩
      | forward fd host req =>
          cases req with
          | read req =>
              obtain ⟨_, rfl⟩ := Prod.mk.inj (Option.some.inj h)
              exact .of_eq rfl rfl rfl
          | openFile _ | close _ => exact ho.elim
      | readOutput fd =>
          obtain ⟨⟨host, req⟩, _, h⟩ := Option.bind_eq_some_iff.mp h
          dsimp only at h
          split at h
          · cases h
          · split at h
            · obtain ⟨_, rfl⟩ := Prod.mk.inj (Option.some.inj h)
              exact .of_eq rfl rfl rfl
            · cases h
      | fdMapSet _ _ | fdMapErase _ | fdRedirMapSet _ _ | fdRedirMapErase _ | openOutput _ =>
          exact ho.elim
      | _ =>
          obtain ⟨_, rfl⟩ := Prod.mk.inj (Option.some.inj h)
          exact .of_eq rfl rfl rfl
  | forwardSeek fd host req =>
      obtain ⟨_, rfl⟩ := Prod.mk.inj (Option.some.inj h)
      exact .of_eq rfl rfl rfl
  | seekOutput fd =>
      obtain ⟨⟨host, req⟩, _, h⟩ := Option.bind_eq_some_iff.mp h
      dsimp only at h
      split at h
      · cases h
      · obtain ⟨_, rfl⟩ := Prod.mk.inj (Option.some.inj h)
        exact .of_eq rfl rfl rfl
  | assertFailed => cases r
  | _ =>
      obtain ⟨_, rfl⟩ := Prod.mk.inj (Option.some.inj h)
      exact .of_eq rfl rfl rfl

/-- A program of quiet operations keeps the invariant. -/
theorem inv_of_uses {α : Type} {p : RpcCode α} (hp : p.Uses Quiet) {a : α} (hi : Inv cfg s)
    (h : Program.exec (handler env) p s = some (a, s')) : Inv cfg s' :=
  Program.Uses.exec (J := Inv cfg) (fun ho hJ hact => (keeps_of_quiet ho hact).inv hJ) hp hi h

theorem uses_rop {α : Type} {o : RpcOp} {k : o.Res → RpcCode α} (h : Quiet o)
    (hk : ∀ r, (k r).Uses Quiet) : @Program.Uses rpcOps (no_index _) Quiet (rop o >>= k) :=
  ⟨h, hk⟩

theorem uses_assertThat {c : Prop} [Decidable c] : (assertThat c).Uses Quiet := by
  unfold assertThat
  split
  · trivial
  · exact ⟨trivial, fun e => nomatch e⟩

theorem uses_answered {o : Op} (h : Quiet (.client o)) : (answered o).Uses Quiet := by
  cases o with
  | openOutput fd => exact h.elim
  | readOutput fd =>
      refine uses_rop trivial fun ok => ?_
      apply uses_assertThat.bind
      intro _
      exact ⟨trivial, fun _ => trivial⟩
  | _ => exact ⟨h, fun _ => trivial⟩

/-- Programs of quiet operations of the client. -/
abbrev QuietCode {α : Type} (p : Code α) : Prop :=
  @Program.Uses ops α (fun o => Quiet (.client o)) p

theorem uses_embed {α : Type} {p : Code α} (h : QuietCode p) : (embed p).Uses Quiet :=
  h.interpret fun _ => uses_answered

theorem quiet_op {α : Type} {o : Op} {k : o.Res → Code α} (h : Quiet (.client o))
    (hk : ∀ r, QuietCode (k r)) : QuietCode (op o >>= k) :=
  ⟨h, hk⟩

theorem quiet_fileTracked : QuietCode (hvacFileTracked fd) :=
  quiet_op trivial fun _ => trivial

theorem quiet_waitFdReady : QuietCode (hvacWaitFdReady fd) := by
  refine quiet_op trivial fun state => ?_
  rcases state with _ | _ | _ | _
  · trivial
  · exact ⟨trivial, fun _ => trivial⟩
  · trivial
  · trivial

theorem quiet_hasRemoteFd : QuietCode (hasRemoteFd fd) := by
  refine quiet_op trivial fun found => ?_
  cases found with
  | none => trivial
  | some _ => exact quiet_op trivial fun _ => trivial

theorem quiet_readRpc {svrHash : Int} {count : Nat} {offset : Int} :
    QuietCode (Client.hvacClientCommGenReadRpc svrHash fd count offset) := by
  apply quiet_waitFdReady.bind
  intro ready
  split
  · apply quiet_hasRemoteFd.bind
    intro found
    split
    · refine quiet_op trivial fun accessfd => quiet_op trivial fun sent => ?_
      split
      · exact ⟨trivial, fun _ => trivial⟩
      · trivial
    · exact quiet_op trivial fun _ => trivial
  · trivial

theorem quiet_remoteRead {count : Nat} : QuietCode (hvacRemoteRead cfg fd count) := by
  apply quiet_fileTracked.bind
  intro tracked
  split
  · exact quiet_op trivial fun _ => quiet_readRpc
  · trivial

theorem quiet_remotePread {count : Nat} {offset : Int} :
    QuietCode (hvacRemotePread cfg fd count offset) := by
  apply quiet_fileTracked.bind
  intro tracked
  split
  · refine quiet_op trivial fun remoteFd => ?_
    split
    · exact quiet_op trivial fun _ => quiet_readRpc
    · trivial
  · trivial

theorem uses_seekRpc {svrHash offset whence : Int} :
    (hvacClientCommGenSeekRpc svrHash fd offset whence).Uses Quiet := by
  refine uses_rop trivial fun svrAddr => uses_rop trivial fun seekState =>
    uses_rop trivial fun handle => uses_rop trivial fun remoteFd => uses_rop trivial fun sent => ?_
  apply uses_assertThat.bind
  intro _
  refine uses_rop trivial fun _ => Program.Uses.bind ?_ fun _ => uses_rop trivial fun _ => trivial
  exact uses_rop trivial fun _ => uses_rop trivial fun _ => trivial

theorem uses_remoteLseek {offset whence : Int} :
    (hvacRemoteLseek cfg fd offset whence).Uses Quiet := by
  apply (uses_embed quiet_fileTracked).bind
  intro tracked
  split
  · exact uses_rop trivial fun _ => uses_seekRpc
  · trivial

/-! ## Opening and closing -/

@[simp] theorem handler_act {o : RpcOp} : (handler env).act o s = rpcAct env s o := rfl

theorem exec_answered (o : Op) :
    @Program.exec rpcOps (no_index _) _ (handler env) (answered o) s = act env s o := by
  cases o with
  | openOutput _ | readOutput _ =>
      exact @Program.exec_perform rpcOps _ (handler env) (.client _) s
  | _ => exact @Program.exec_perform rpcOps _ (handler env) (.client _) s

@[simp] theorem exec_op {o : Op} :
    @Program.exec ops (no_index _) _ (keeper env).handler (op o) s = act env s o :=
  Keeper.exec_op.trans (exec_answered o)

theorem keeper_handler : (keeper env).handler = (handler env).via answered := rfl

theorem consults : Tracking.Consults (keeper env) env.toOutside := by
  constructor
  · exact fun path st => exec_op
  · exact fun st => exec_op

/-- Only the entries of one descriptor change. -/
structure Frame (fd : Int) (s s' : State) : Prop where
  remote : ∀ fd' ≠ fd, s'.remote fd' = s.remote fd'
  fdMap : ∀ fd' ≠ fd, s'.world.fdMap fd' = s.world.fdMap fd'
  fdRedirMap : ∀ fd' ≠ fd, s'.world.fdRedirMap fd' = s.world.fdRedirMap fd'

theorem Frame.inv (h : Frame fd s s') (hi : Inv cfg s) (hfd : Linked cfg s' fd) : Inv cfg s' := by
  intro fd'
  by_cases hne : fd' = fd
  · exact hne ▸ hfd
  · intro host rfd hremote
    rw [h.fdMap fd' hne, h.fdRedirMap fd' hne]
    exact hi fd' host rfd (h.remote fd' hne ▸ hremote)

theorem openOutput_cases {status : Int} (h : act env s (.openOutput fd) = some (status, s')) :
    s'.world = s.world ∧ ∃ host, s.opening = some host ∧
      s'.remote = if 0 < status then s.remote.set fd (host, status) else s.remote := by
  obtain ⟨host, hopening, h⟩ := Option.bind_eq_some_iff.mp h
  split at h
  · cases h
  · split at h
    · next hpos =>
        obtain ⟨s₁, hopened, heq⟩ := Option.map_eq_some_iff.mp h
        obtain ⟨_, rfl⟩ := guarded_eq_some.mp hopened
        obtain ⟨rfl, rfl⟩ := Prod.mk.inj heq
        exact ⟨rfl, host, hopening, (if_pos hpos).symm⟩
    · next hpos =>
        obtain ⟨rfl, rfl⟩ := Prod.mk.inj (Option.some.inj h)
        exact ⟨rfl, host, hopening, (if_neg hpos).symm⟩

/-- What the callback of an open request for `fd` does, which `host` was sent. -/
theorem exec_openCb {host r : Int} (hopening : s.opening = some host)
    (h : Program.exec (keeper env).handler (Client.hvacOpenCb fd) s = some (r, s')) :
    Frame fd s s' ∧ s'.world.fdMap = s.world.fdMap ∧
      (s'.remote = s.remote ∨ ∃ status, 0 < status ∧ s'.remote fd = some (host, status) ∧
        s'.world.fdRedirMap fd = some status) := by
  rw [Client.hvacOpenCb, Program.exec_bind, exec_op] at h
  obtain ⟨⟨status, s₁⟩, houtput, h⟩ := Option.bind_eq_some_iff.mp h
  obtain ⟨hworld, host', hopening', hremote⟩ := openOutput_cases houtput
  obtain rfl : host = host' := Option.some.inj (hopening.symm.trans hopening')
  by_cases hpos : 0 < status
  · rw [if_pos hpos] at hremote
    simp only [hpos, if_true, Program.exec_bind, exec_op, act, World.act, Option.map_some,
      Option.bind_some, Prod.map, id, Program.exec_pure, Option.some.injEq, Prod.mk.injEq] at h
    obtain ⟨_, rfl⟩ := h
    refine ⟨⟨fun fd' hne => ?_, fun fd' _ => ?_, fun fd' hne => ?_⟩, ?_, .inr ⟨status, hpos, ?_, ?_⟩⟩
    · rw [hremote]
      exact Table.set_of_ne _ _ hne
    · rw [hworld]
    · rw [hworld]
      exact Table.set_of_ne _ _ hne
    · rw [hworld]
    · rw [hremote]
      exact Table.set_self _ _ _
    · exact Table.set_self _ _ _
  · rw [if_neg hpos] at hremote
    simp only [hpos, if_false, Program.exec_bind, exec_op, act, World.act, Option.map_some,
      Option.bind_some, Prod.map, id, Program.exec_pure, Option.some.injEq, Prod.mk.injEq] at h
    obtain ⟨_, rfl⟩ := h
    refine ⟨⟨fun fd' _ => ?_, fun fd' _ => ?_, fun fd' _ => ?_⟩, ?_, .inl hremote⟩
    · rw [hremote]
    · rw [hworld]
    · rw [hworld]
    · rw [hworld]

/-- An open request: the descriptor has no remote one any more, or a new one. -/
theorem exec_openRpc {host r : Int} {p : Path}
    (h : Program.exec (keeper env).handler (Client.hvacClientCommGenOpenRpc host p fd) s =
      some (r, s')) :
    Frame fd s s' ∧ s'.world.fdMap fd = s.world.fdMap fd ∧
      (s'.remote fd = none ∨ ∃ status, 0 < status ∧ s'.remote fd = some (host, status) ∧
        s'.world.fdRedirMap fd = some status) := by
  cases hsent : env.dispatched with
  | false =>
      simp only [Client.hvacClientCommGenOpenRpc, Program.exec_bind, exec_op, act, World.act, hsent,
        Option.map_some, Option.bind_some, Prod.map, id, Bool.false_eq_true, if_false,
        Program.exec_pure, Option.some.injEq, Prod.mk.injEq] at h
      obtain ⟨_, rfl⟩ := h
      refine ⟨⟨fun fd' hne => ?_, fun _ _ => rfl, fun _ _ => rfl⟩, rfl, .inl ?_⟩
      · exact Table.erase_of_ne _ hne
      · exact Table.erase_self _ _
  | true =>
      simp only [Client.hvacClientCommGenOpenRpc, Program.exec_bind, exec_op, act, World.act, hsent,
        Option.map_some, Option.bind_some, Prod.map, id, if_true] at h
      obtain ⟨hframe, hmap, hremote⟩ := exec_openCb rfl h
      refine ⟨⟨fun fd' hne => ?_, hframe.fdMap, hframe.fdRedirMap⟩, congrFun hmap fd, ?_⟩
      · rw [hframe.remote fd' hne]
        exact Table.erase_of_ne _ hne
      · refine hremote.imp_left fun hremote => ?_
        rw [hremote]
        exact Table.erase_self _ _

theorem inv_trackFile {path : Path} {flags : Nat} {r : Bool} (hi : Inv cfg s)
    (h : Program.exec (keeper env).handler (hvacTrackFile cfg path flags fd) s = some (r, s')) :
    Inv cfg s' := by
  by_cases hselected : Tracking.Eligible path flags ∧
      (Tracking.selected cfg env.toOutside path).isSome
  · obtain ⟨heligible, hsome⟩ := hselected
    obtain ⟨p, hp⟩ := Option.isSome_iff_exists.mp hsome
    rw [Tracking.exec_trackFile_selected consults heligible hp] at h
    obtain ⟨⟨_, s₁⟩, hrpc, heq⟩ := Option.map_eq_some_iff.mp h
    obtain ⟨_, rfl⟩ := Prod.mk.inj heq
    obtain ⟨hframe, hmap, hremote⟩ := exec_openRpc hrpc
    have hpath : s₁.world.fdMap fd = some p := hmap.trans (Table.set_self _ _ _)
    have hframe' : Frame fd s s₁ :=
      ⟨hframe.remote, fun fd' hne => (hframe.fdMap fd' hne).trans (Table.set_of_ne _ _ hne),
        hframe.fdRedirMap⟩
    apply hframe'.inv hi
    intro host rfd hrfd
    rcases hremote with hnone | ⟨status, hpos, hsome, hredir⟩
    · cases hnone.symm.trans hrfd
    · obtain ⟨rfl, rfl⟩ := Prod.mk.inj (Option.some.inj (hsome.symm.trans hrfd))
      exact ⟨p, hpath, rfl, hredir, hpos.ne'⟩
  · rw [Tracking.exec_trackFile_unselected consults hselected] at h
    obtain ⟨_, rfl⟩ := Prod.mk.inj (Option.some.inj h)
    exact hi

/-- A close request, which is sent where there is a mapping. -/
theorem exec_closeRpc {host : Int}
    (h : Program.exec (keeper env).handler (Client.hvacClientCommGenCloseRpc host fd) s =
      some ((), s')) :
    Frame fd s s' ∧ (s.world.fdRedirMap.entry fd 0 ≠ 0 → s'.remote fd = none) ∧
      (s.world.fdRedirMap.entry fd 0 = 0 → s'.remote = s.remote) := by
  rw [Client.hvacClientCommGenCloseRpc, Program.exec_bind, Keeper.exec_hasRemoteFd,
    Option.bind_some] at h
  change Program.exec _ (if decide (s.world.fdRedirMap.entry fd 0 ≠ 0) = true then _ else _) s = _ at h
  by_cases hmapped : s.world.fdRedirMap.entry fd 0 = 0
  · simp only [hmapped, ne_eq, not_true_eq_false, decide_false, Bool.false_eq_true, if_false,
      exec_op, act, World.act, Option.map_some, Prod.map, id, Option.some.injEq, Prod.mk.injEq,
      true_and] at h
    subst h
    refine ⟨⟨fun _ _ => rfl, fun _ _ => rfl, fun _ _ => rfl⟩, fun h => ?_, fun _ => rfl⟩
    exact absurd hmapped h
  · simp only [hmapped, ne_eq, not_false_eq_true, decide_true, if_true, Program.exec_bind, exec_op,
      act, World.act, Option.map_some, Option.bind_some, Prod.map, id, Option.some.injEq,
      Prod.mk.injEq, true_and] at h
    subst h
    refine ⟨⟨fun fd' hne => ?_, fun _ _ => rfl, fun fd' hne => ?_⟩, fun _ => ?_, fun h => ?_⟩
    · exact Table.erase_of_ne _ hne
    · exact (Table.erase_of_ne _ hne).trans (Table.touch_of_ne _ _ hne)
    · exact Table.erase_self _ _
    · exact absurd h hmapped

/-- No remote descriptor is left behind. -/
theorem exec_remoteClose (hlinked : Linked cfg s fd)
    (h : Program.exec (keeper env).handler (hvacRemoteClose cfg fd) s = some ((), s')) :
    Frame fd s s' ∧ s'.remote fd = none := by
  rw [hvacRemoteClose, Program.exec_bind, Keeper.exec_hvacFileTracked, Option.bind_some] at h
  cases hpath : s.world.fdMap fd with
  | none =>
      have huntracked : ((keeper env).world s).fdMap fd = none := hpath
      simp only [huntracked, Option.isSome_none, Bool.false_eq_true, if_false, Program.exec_pure,
        Option.some.injEq, Prod.mk.injEq, true_and] at h
      subst h
      refine ⟨⟨fun _ _ => rfl, fun _ _ => rfl, fun _ _ => rfl⟩, ?_⟩
      rw [Option.eq_none_iff_forall_ne_some]
      intro rfd hrfd
      obtain ⟨path, hsome, _⟩ := hlinked rfd.1 rfd.2 hrfd
      cases hpath.symm.trans hsome
  | some path =>
      have htracked : ((keeper env).world s).fdMap fd = some path := hpath
      simp only [htracked, Option.isSome_some, if_true, Program.exec_bind,
        Keeper.exec_fdMapEntry htracked, Option.bind_some] at h
      obtain ⟨hframe, hmapped, hunmapped⟩ := exec_closeRpc h
      refine ⟨hframe, ?_⟩
      by_cases hentry : s.world.fdRedirMap.entry fd 0 = 0
      · rw [hunmapped hentry, Option.eq_none_iff_forall_ne_some]
        intro rfd hrfd
        obtain ⟨_, _, _, hredir, hne⟩ := hlinked rfd.1 rfd.2 hrfd
        exact hne ((Table.entry_of_some hredir).symm.trans hentry)
      · exact hmapped hentry

theorem inv_removeFd (hi : Inv cfg s)
    (h : Program.exec (keeper env).handler (hvacRemoveFd cfg fd) s = some ((), s')) :
    Inv cfg s' := by
  obtain ⟨⟨_, s₁⟩, hclose, h⟩ := Option.bind_eq_some_iff.mp ((Program.exec_bind _ _ _).symm.trans h)
  have herase : s' = { s₁ with world := { s₁.world with fdMap := s₁.world.fdMap.erase fd } } :=
    (Prod.mk.inj (Option.some.inj (h.symm.trans exec_op))).2
  obtain ⟨hframe, hnone⟩ := exec_remoteClose (hi fd) hclose
  have hframe' : Frame fd s s' := by
    rw [herase]
    exact ⟨hframe.remote, fun fd' hne => (Table.erase_of_ne _ hne).trans (hframe.fdMap fd' hne),
      hframe.fdRedirMap⟩
  apply hframe'.inv hi
  intro host rfd hrfd
  rw [herase] at hrfd
  cases hnone.symm.trans hrfd

theorem inv_step {e : Call × Env} (hi : Inv cfg s) (h : step cfg s e = some s') : Inv cfg s' := by
  obtain ⟨⟨_, s₁⟩, hexec, rfl⟩ := Option.map_eq_some_iff.mp h
  obtain ⟨call, env⟩ := e
  cases call with
  | trackFile path flags fd =>
      rw [Call.code, Program.exec_bind, exec_embed keeper_handler] at hexec
      obtain ⟨⟨_, _⟩, htrack, heq⟩ := Option.bind_eq_some_iff.mp hexec
      obtain ⟨_, rfl⟩ := Prod.mk.inj (Option.some.inj heq)
      exact inv_trackFile hi htrack
  | remoteRead fd count =>
      exact inv_of_uses ((uses_embed quiet_remoteRead).bind fun _ => Program.uses_pure ()) hi hexec
  | remotePread fd count offset =>
      exact inv_of_uses ((uses_embed quiet_remotePread).bind fun _ => Program.uses_pure ()) hi hexec
  | remoteLseek fd offset whence =>
      exact inv_of_uses (uses_remoteLseek.bind fun _ => Program.uses_pure ()) hi hexec
  | removeFd fd =>
      rw [Call.code, exec_embed keeper_handler] at hexec
      exact inv_removeFd hi hexec

theorem inv_invariant {own : Table RemoteFd OpenFile} : (machine cfg own).Invariant (Inv cfg) where
  init := fun _ _ _ h => absurd h nofun
  step := fun _ hi h => inv_step hi h

/-! ## When a seek does what lseek64 does -/

variable {offset whence : Int} {path : Path}

/-- After a seek for `fd`, which named `remoteFd` on `host`. -/
def State.asked (s : State) (fd host offset whence : Int) : State :=
  let rfd := (host, s.world.fdRedirMap.entry fd 0)
  { s with
    world := { s.world with fdRedirMap := s.world.fdRedirMap.touch fd 0 }
    servers := (seekAt s.servers rfd offset whence).2
    named := rfd :: s.named
    seeking := some (host, ⟨rfd.2, offset, whence⟩) }

/-- A seek is sent with the narrowed offset, for the mapping as it is, and is answered
by the server if that is still up. -/
theorem exec_remoteLseek (htracked : s.world.fdMap fd = some path) :
    Program.exec (handler env) (hvacRemoteLseek cfg fd offset whence) s =
      if env.dispatched = true ∧ cfg.host path ∉ s.down then
        some (some (Word.toInt32 (seekAt s.servers (cfg.host path, s.world.fdRedirMap.entry fd 0)
            (Word.toInt32 offset) whence).1),
          s.asked fd (cfg.host path) (Word.toInt32 offset) whence)
      else none := by
  have htracked' : ((keeper env).world s).fdMap fd = some path := htracked
  have hpath : s.world.fdMap.entry fd [] = path := Table.entry_of_some htracked
  cases hsent : env.dispatched with
  | false =>
      simp [hvacRemoteLseek, hvacClientCommGenSeekRpc, exec_embed keeper_handler,
        Keeper.exec_hvacFileTracked, htracked', rpcAct, RpcOp.silent, act, World.act, hsent]
  | true =>
      by_cases hdown : cfg.host path ∈ s.down
      · simp [hvacRemoteLseek, hvacClientCommGenSeekRpc, hvacSeekCb, exec_embed keeper_handler,
          Keeper.exec_hvacFileTracked, htracked', rpcAct, RpcOp.silent, act, World.act, hsent, hpath,
          hdown]
      · simp [hvacRemoteLseek, hvacClientCommGenSeekRpc, hvacSeekCb, exec_embed keeper_handler,
          Keeper.exec_hvacFileTracked, htracked', rpcAct, RpcOp.silent, act, World.act, hsent, hpath,
          hdown, State.asked, Table.touch_of_some htracked]

/-- The offset and the result survive as an `int`. Where `lseek64` fails, the narrowed
offset must fail as well, or leave the file where it stands with a result that is `-1`
as an `int`. -/
def Survives (f : OpenFile) (offset whence : Int) : Prop :=
  match f.lseek offset whence with
  | some (r, _) => Word.toInt32 offset = offset ∧ r < 2 ^ 31
  | none        => ∀ r f', f.lseek (Word.toInt32 offset) whence = some (r, f') →
      f' = f ∧ Word.toInt32 r = -1

section Narrow

variable {servers : Table RemoteFd OpenFile} {rfd : RemoteFd} {f f' : OpenFile} {r : Int}

theorem seekAt_of_some (hopen : servers rfd = some f)
    (h : f.lseek offset whence = some (r, f')) :
    seekAt servers rfd offset whence = (r, servers.set rfd f') := by
  simp [seekAt, hopen, h]

theorem seekAt_of_none (hopen : servers rfd = some f) (h : f.lseek offset whence = none) :
    seekAt servers rfd offset whence = (-1, servers) := by
  simp [seekAt, hopen, h]

theorem seekAt_closed (hclosed : servers rfd = none) :
    seekAt servers rfd offset whence = (-1, servers) := by
  simp [seekAt, hclosed]

/-- A seek to a position goes there with the narrowed offset exactly if that is the
offset. -/
theorem narrow_of_some (hopen : servers rfd = some f)
    (h : f.lseek offset whence = some (r, f')) :
    (Word.toInt32 (seekAt servers rfd (Word.toInt32 offset) whence).1,
        (seekAt servers rfd (Word.toInt32 offset) whence).2) = seekAt servers rfd offset whence ↔
      Word.toInt32 offset = offset ∧ r < 2 ^ 31 := by
  obtain ⟨_, ⟨hr, _⟩, hf'⟩ := OpenFile.lseek_eq_some.mp h
  rw [seekAt_of_some hopen h]
  constructor
  · intro heq
    cases hnarrow : f.lseek (Word.toInt32 offset) whence with
    | none =>
        rw [seekAt_of_none hopen hnarrow, Word.toInt32_neg_one] at heq
        have hneg : -1 = r := (Prod.mk.inj heq).1
        omega
    | some x =>
        obtain ⟨r', f''⟩ := x
        rw [seekAt_of_some hopen hnarrow] at heq
        have hret : Word.toInt32 r' = r := (Prod.mk.inj heq).1
        have hset : servers.set rfd f'' = servers.set rfd f' := (Prod.mk.inj heq).2
        obtain ⟨_, ⟨hr', _⟩, hf''⟩ := OpenFile.lseek_eq_some.mp hnarrow
        -- both end at the position that the file then has
        have hfile : f'' = f' := by
          simpa only [Table.set_self, Option.some.injEq] using congrFun hset rfd
        rw [hf'', hf'] at hfile
        have hpos : r'.toNat = r.toNat := (OpenFile.mk.inj hfile).2
        obtain rfl : r' = r := by omega
        have hrange := Word.toInt32_range r'
        refine ⟨?_, by omega⟩
        rcases OpenFile.offset_of_lseek h hnarrow with hsame | ⟨hlo, hhi⟩
        · exact hsame.symm
        · exact Word.toInt32_of_range (by omega) (by omega)
  · rintro ⟨hoffset, hlt⟩
    rw [hoffset, seekAt_of_some hopen h, Word.toInt32_of_range (by omega) hlt]

theorem narrow_of_none (hopen : servers rfd = some f) (h : f.lseek offset whence = none) :
    (Word.toInt32 (seekAt servers rfd (Word.toInt32 offset) whence).1,
        (seekAt servers rfd (Word.toInt32 offset) whence).2) = seekAt servers rfd offset whence ↔
      ∀ r f', f.lseek (Word.toInt32 offset) whence = some (r, f') →
        f' = f ∧ Word.toInt32 r = -1 := by
  rw [seekAt_of_none hopen h]
  cases hnarrow : f.lseek (Word.toInt32 offset) whence with
  | none =>
      rw [seekAt_of_none hopen hnarrow, Word.toInt32_neg_one]
      exact iff_of_true rfl (by rintro _ _ ⟨⟩)
  | some x =>
      obtain ⟨r, f'⟩ := x
      rw [seekAt_of_some hopen hnarrow]
      constructor
      · intro heq r' f'' hr
        obtain ⟨rfl, rfl⟩ := Prod.mk.inj (Option.some.inj hr)
        have hset : servers.set rfd f' = servers := (Prod.mk.inj heq).2
        have hfile := congrFun hset rfd
        rw [Table.set_self, hopen] at hfile
        exact ⟨Option.some.inj hfile, (Prod.mk.inj heq).1⟩
      · intro hkept
        obtain ⟨rfl, hret⟩ := hkept r f' rfl
        rw [Table.set_of_some hopen]
        exact Prod.ext hret rfl

theorem narrow_iff (hopen : servers rfd = some f) :
    (Word.toInt32 (seekAt servers rfd (Word.toInt32 offset) whence).1,
        (seekAt servers rfd (Word.toInt32 offset) whence).2) = seekAt servers rfd offset whence ↔
      Survives f offset whence := by
  unfold Survives
  split
  · next h => exact narrow_of_some hopen h
  · next h => exact narrow_of_none hopen h

end Narrow

/-- A seek moves the remote descriptor as `lseek64` does, and returns its result. If
there is none it fails, names no descriptor that the client was not given, and leaves
`fd_redir_map` alone. -/
def Correct (s : State) (fd offset whence r : Int) (s' : State) : Prop :=
  match s.remote fd with
  | some rfd => (r, s'.servers) = seekAt s.servers rfd offset whence
  | none     => r = -1 ∧ (∃ sent, s'.named = sent ++ s.named ∧ ∀ rfd ∈ sent, rfd ∈ s.given) ∧
      s'.world.fdRedirMap = s.world.fdRedirMap

def SeekCorrect (cfg : Config) (env : Env) (s : State) (fd offset whence : Int) : Prop :=
  ∃ r s', Program.exec (handler env) (hvacRemoteLseek cfg fd offset whence) s = some (some r, s') ∧
    Correct s fd offset whence r s'

/-- A mapping is left behind that the client was given once, and the seek there fails
or has the result `-1` as an `int`. -/
def LeftBehind (s : State) (fd host offset whence : Int) : Prop :=
  ∃ remoteFd, s.world.fdRedirMap fd = some remoteFd ∧ (host, remoteFd) ∈ s.given ∧
    ∀ f r f', s.servers (host, remoteFd) = some f →
      f.lseek (Word.toInt32 offset) whence = some (r, f') → Word.toInt32 r = -1

/-- The offset and the result survive for the remote descriptor; without one, a mapping
is left behind where the seek fails. -/
def Supported (s : State) (fd host offset whence : Int) : Prop :=
  match s.remote fd with
  | some rfd => ∀ f, s.servers rfd = some f → Survives f offset whence
  | none     => LeftBehind s fd host offset whence

theorem toInt32_seekAt_iff {rfd : RemoteFd} :
    Word.toInt32 (seekAt s.servers rfd offset whence).1 = -1 ↔
      ∀ f r f', s.servers rfd = some f → f.lseek offset whence = some (r, f') →
        Word.toInt32 r = -1 := by
  cases hopen : s.servers rfd with
  | none =>
      rw [seekAt_closed hopen]
      exact iff_of_true Word.toInt32_neg_one nofun
  | some f =>
      cases hseek : f.lseek offset whence with
      | none =>
          rw [seekAt_of_none hopen hseek]
          refine iff_of_true Word.toInt32_neg_one ?_
          rintro _ r f' ⟨⟩ hsome
          cases hseek.symm.trans hsome
      | some x =>
          rw [seekAt_of_some hopen hseek]
          constructor
          · rintro hret _ r f' ⟨⟩ hsome
            obtain rfl := Option.some.inj (hseek.symm.trans hsome)
            exact hret
          · intro h
            exact h f x.1 x.2 rfl hseek

/-- The request names one descriptor. -/
theorem named_asked_iff {host : Int} :
    (∃ sent, (s.asked fd host offset whence).named = sent ++ s.named ∧
      ∀ rfd ∈ sent, rfd ∈ s.given) ↔ (host, s.world.fdRedirMap.entry fd 0) ∈ s.given := by
  constructor
  · rintro ⟨sent, hnamed, hgiven⟩
    have hsent : [(host, s.world.fdRedirMap.entry fd 0)] = sent := List.append_cancel_right hnamed
    exact hgiven _ (hsent ▸ List.mem_singleton_self _)
  · intro hgiven
    refine ⟨[(host, s.world.fdRedirMap.entry fd 0)], rfl, fun rfd hrfd => ?_⟩
    rw [List.mem_singleton.mp hrfd]
    exact hgiven

theorem correct_asked_iff (hlinked : Linked cfg s fd) (htracked : s.world.fdMap fd = some path) :
    Correct s fd offset whence
        (Word.toInt32 (seekAt s.servers (cfg.host path, s.world.fdRedirMap.entry fd 0)
          (Word.toInt32 offset) whence).1)
        (s.asked fd (cfg.host path) (Word.toInt32 offset) whence) ↔
      Supported s fd (cfg.host path) offset whence := by
  unfold Correct Supported
  cases hremote : s.remote fd with
  | some rfd =>
      obtain ⟨path', hpath', hhost, hredir, _⟩ := hlinked rfd.1 rfd.2 hremote
      obtain rfl : path = path' := Option.some.inj (htracked.symm.trans hpath')
      have hentry : s.world.fdRedirMap.entry fd 0 = rfd.2 := Table.entry_of_some hredir
      simp only [State.asked, hentry, hhost]
      cases hopen : s.servers rfd with
      | none =>
          rw [seekAt_closed hopen, seekAt_closed hopen, Word.toInt32_neg_one]
          exact iff_of_true rfl (by rintro _ ⟨⟩)
      | some f =>
          rw [narrow_iff hopen]
          exact ⟨fun h _ hf => Option.some.inj hf ▸ h, fun h => h f rfl⟩
  | none =>
      simp only [named_asked_iff, toInt32_seekAt_iff]
      constructor
      · rintro ⟨hfails, hgiven, hredir⟩
        have hmapped : s.world.fdRedirMap fd = some (s.world.fdRedirMap.entry fd 0) := by
          rw [← congrFun hredir fd]
          exact Table.set_self _ _ _
        exact ⟨_, hmapped, hgiven, hfails⟩
      · rintro ⟨remoteFd, hredir, hgiven, hfails⟩
        have hentry : s.world.fdRedirMap.entry fd 0 = remoteFd := Table.entry_of_some hredir
        rw [hentry]
        exact ⟨hfails, hgiven, Table.touch_of_some hredir⟩

/-- In every reachable state, a seek for a tracked descriptor is correct exactly if
the request is sent, to a server that is still up, and is supported. -/
theorem seek_correct_iff {own : Table RemoteFd OpenFile} (hs : (machine cfg own).Reachable s)
    (htracked : s.world.fdMap fd = some path) :
    SeekCorrect cfg env s fd offset whence ↔
      env.dispatched = true ∧ cfg.host path ∉ s.down ∧
        Supported s fd (cfg.host path) offset whence := by
  have hi : Inv cfg s := inv_invariant.reachable hs
  rw [SeekCorrect, exec_remoteLseek htracked, ← correct_asked_iff (hi fd) htracked, ← and_assoc]
  by_cases hup : env.dispatched = true ∧ cfg.host path ∉ s.down
  · rw [if_pos hup]
    constructor
    · rintro ⟨r, s', heq, hcorrect⟩
      obtain ⟨hr, rfl⟩ := Prod.mk.inj (Option.some.inj heq)
      obtain rfl := Option.some.inj hr
      exact ⟨hup, hcorrect⟩
    · rintro ⟨_, hcorrect⟩
      exact ⟨_, _, rfl, hcorrect⟩
  · rw [if_neg hup]
    refine iff_of_false ?_ fun h => hup h.1
    rintro ⟨r, s', heq, _⟩
    cases heq

/-- Requests are answered, an open request with `status`; the file has three bytes. -/
def answering (status : Int) : Env :=
  { Tracking.answering status with node := .regular [1, 2, 3], readEnv := ⟨false, false⟩ }

/-- The file `/d/a` is tracked as descriptor 3. -/
def trackA : Call := .trackFile ['/', 'd', '/', 'a'] 0 3

theorem seek_correct_withinFile : ∃ s,
    (machine dataDirConfig .empty).run [(trackA, answering 7)] = some s ∧
      SeekCorrect dataDirConfig (answering 7) s 3 2 0 := by
  have hlast : ((machine dataDirConfig .empty).run [(trackA, answering 7)]).map
      (fun s => (s.world.fdMap 3, s.remote 3, s.servers (1, 7), s.down)) =
        some (some ['/', 'd', '/', 'a'], some (1, 7), some ⟨.regular [1, 2, 3], 0⟩, []) := by
    decide +kernel
  obtain ⟨s, hrun, hs⟩ := Option.map_eq_some_iff.mp hlast
  simp only [Prod.mk.injEq] at hs
  obtain ⟨hpath, hremote, hopen, hdown⟩ := hs
  refine ⟨s, hrun, (seek_correct_iff (Machine.reachable_of_run hrun) hpath).mpr ⟨rfl, ?_, ?_⟩⟩
  · rw [hdown]
    exact List.not_mem_nil
  · unfold Supported
    rw [hremote]
    rintro f hf
    obtain rfl := Option.some.inj (hopen.symm.trans hf)
    exact ⟨by decide, by decide⟩

/-- The server cannot open the file, and the seek inserts a mapping to its descriptor 0. -/
theorem seek_after_failed_open :
    ¬ ∀ (cfg : Config) (own : Table RemoteFd OpenFile) (s : State) (env : Env)
      (fd offset whence : Int), (machine cfg own).Reachable s → (s.world.fdMap fd).isSome →
        SeekCorrect cfg env s fd offset whence := by
  intro h
  have hlast : ((machine dataDirConfig .empty).run [(trackA, answering (-1))]).map
      (fun s => (s.world.fdMap 3, s.remote 3, s.world.fdRedirMap 3,
        (Program.exec (handler (answering (-1))) (hvacRemoteLseek dataDirConfig 3 0 0) s).map
          fun y => y.2.world.fdRedirMap 3)) =
        some (some ['/', 'd', '/', 'a'], none, none, some (some 0)) := by
    decide +kernel
  obtain ⟨s, hrun, hs⟩ := Option.map_eq_some_iff.mp hlast
  simp only [Prod.mk.injEq] at hs
  obtain ⟨hpath, hremote, hunmapped, hmapped⟩ := hs
  obtain ⟨r, s', hexec, hcorrect⟩ :=
    h dataDirConfig .empty s (answering (-1)) 3 0 0 (Machine.reachable_of_run hrun) (by simp [hpath])
  unfold Correct at hcorrect
  rw [hremote] at hcorrect
  rw [hexec, Option.map_some, hcorrect.2.2, hunmapped] at hmapped
  exact absurd hmapped (by decide)

end MtHvac.System.RemoteSeek
