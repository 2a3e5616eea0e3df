-- SUMMARY: From the value of HVAC_SERVER_COUNT to the rank of a server: the client's functions with their division, and which values keep the rank in range.
import MtHvac.Base.Scan
import MtHvac.Client.Rpc
import MtHvac.Client.Tracking

/-!
# Routing

`hvac_client_init` takes whatever number the text of `HVAC_SERVER_COUNT` begins with.
Five functions divide a hash by it. The remainder is an `int` in the function, a
`uint32_t` in the RPC functions, and an `int` again in `hvac_client_comm_lookup_addr`.
-/

namespace MtHvac.Client.Routing

open Base Client.Rpc Client.Tracking

/-! ## Initialisation -/

/-- The environment variables that `hvac_client_init` reads. -/
structure Environment where
  hvacServerCount : Option Text
  hvacDataDir : Option Path

structure Globals where
  gHvacServerCount : Nat
  hvacDataDir : Option Path
deriving DecidableEq

/-- Without `HVAC_SERVER_COUNT` the process ends in `exit(-1)`. -/
def hvacClientInit (env : Environment) : Option Globals :=
  env.hvacServerCount.map fun value => ⟨Word.toUInt32 (Scan.atoi value), env.hvacDataDir⟩

/-! ## The functions -/

/-- A division by zero ends the process. -/
inductive RouteOp where
  | rpc (o : RpcOp)
  | divideByZero
deriving DecidableEq

abbrev RouteOp.Res : RouteOp → Type
  | .rpc o        => o.Res
  | .divideByZero => Empty

def routeOps : Interface where
  Op := RouteOp
  Res := RouteOp.Res

abbrev RouteCode := Program routeOps

def route (o : RouteOp) : RouteCode o.Res := @Program.perform routeOps o

def lifted (o : rpcOps.Op) : Program routeOps (rpcOps.Res o) := route (.rpc o)

/-- A program of the RPC functions, and one of the client, over these operations. -/
def lift {α : Type} (p : RpcCode α) : RouteCode α := Program.interpret lifted p

abbrev client {α : Type} (p : Code α) : RouteCode α := lift (embed p)

@[simp] theorem lift_pure {α : Type} (a : α) : lift (pure a : RpcCode α) = pure a := rfl

@[simp] theorem lift_bind {α β : Type} (p : RpcCode α) (f : α → RpcCode β) :
    lift (p >>= f) = lift p >>= fun a => lift (f a) :=
  Program.interpret_bind p f

@[simp] theorem lift_ite {α : Type} {c : Prop} [Decidable c] (p q : RpcCode α) :
    lift (if c then p else q) = if c then lift p else lift q :=
  Program.interpret_ite p q

variable (hash : Path → Nat) (g : Globals)

/-- `std::hash<std::string>{}(path) % g_hvac_server_count`, as an `int`. -/
def hostOf (path : Path) : RouteCode Int := do
  if g.gHvacServerCount = 0 then
    let e ← route .divideByZero
    nomatch e
  else
    return Word.toInt32 (hash path % g.gHvacServerCount : Nat)

/-- The `try` block of `hvac_track_file` looks at nothing but the data directory. -/
def Globals.directory : Config where
  hvacDataDir := g.hvacDataDir
  hash := fun _ => 0
  serverCount := 1
  serverCount_pos := Nat.one_pos

def hvacTrackFile (path : Path) (flags : Nat) (fd : Int) : RouteCode Bool := do
  if portsCfg <:+: path then
    return false
  if flags &&& oAccmode = oWronly then
    return false
  if flags &&& oAppend ≠ 0 then
    return false
  if ← client (selectPath g.directory path fd) then
    let host ← hostOf hash g (← client (op (.fdMapEntry fd)))
    let path' ← client (op (.fdMapEntry fd))
    let openResult ← lift (Rpc.hvacClientCommGenOpenRpc host path' fd)
    return decide (0 ≤ openResult)
  else
    return false

def hvacRemoteRead (fd : Int) (buffer count : Nat) : RouteCode Int := do
  if ← client (hvacFileTracked fd) then
    let host ← hostOf hash g (← client (op (.fdMapEntry fd)))
    lift (Rpc.hvacClientCommGenReadRpc host fd buffer count (-1))
  else
    return -1

def hvacRemotePread (fd : Int) (buffer count : Nat) (offset : Int) : RouteCode Int := do
  if ← client (hvacFileTracked fd) then
    if (← client (op (.fdRedirMapEntry fd))) ≠ 0 then
      let host ← hostOf hash g (← client (op (.fdMapEntry fd)))
      lift (Rpc.hvacClientCommGenReadRpc host fd buffer count offset)
    else
      return -1
  else
    return -1

def hvacRemoteLseek (fd offset whence : Int) : RouteCode (Option Int) := do
  let offset := Word.toInt32 offset
  if ← client (hvacFileTracked fd) then
    let host ← hostOf hash g (← client (op (.fdMapEntry fd)))
    lift (hvacClientCommGenSeekRpc host fd offset whence)
  else
    return some (-1)

def hvacRemoteClose (fd : Int) : RouteCode Unit := do
  if ← client (hvacFileTracked fd) then
    let host ← hostOf hash g (← client (op (.fdMapEntry fd)))
    lift (Rpc.hvacClientCommGenCloseRpc host fd)

/-- A call of one of the five functions. -/
inductive RouteCall where
  | trackFile (path : Path) (flags : Nat) (fd : Int)
  | remoteRead (fd : Int) (buffer count : Nat)
  | remotePread (fd : Int) (buffer count : Nat) (offset : Int)
  | remoteLseek (fd offset whence : Int)
  | remoteClose (fd : Int)
deriving DecidableEq

def RouteCall.code : RouteCall → RouteCode Unit
  | .trackFile path flags fd            => do let _ ← hvacTrackFile hash g path flags fd
  | .remoteRead fd buffer count         => do let _ ← hvacRemoteRead hash g fd buffer count
  | .remotePread fd buffer count offset => do
      let _ ← hvacRemotePread hash g fd buffer count offset
  | .remoteLseek fd offset whence       => do let _ ← hvacRemoteLseek hash g fd offset whence
  | .remoteClose fd                     => hvacRemoteClose hash g fd

/-! ## With a positive count -/

section Positive

variable {hash g} (hpos : 0 < g.gHvacServerCount)

/-- The client's configuration. -/
def Globals.config (hash : Path → Nat) (g : Globals) (hpos : 0 < g.gHvacServerCount) : Config where
  hvacDataDir := g.hvacDataDir
  hash := hash
  serverCount := g.gHvacServerCount
  serverCount_pos := hpos

/-- The operations on resources, which nothing else depends on. -/
def RouteOp.silent : (o : RouteOp) → Option o.Res
  | .rpc o        => o.silent
  | .divideByZero => none

def silent (o : routeOps.Op) : Option (routeOps.Res o) := o.silent

theorem hostOf_of_pos (path : Path) :
    hostOf hash g path = pure ((g.config hash hpos).host path) :=
  if_neg (by omega)

@[simp] theorem erase_lift {α : Type} (p : RpcCode α) :
    Program.erase silent (lift p) = lift (Program.erase Rpc.silent p) := by
  apply Program.erase_interpret
  intro o
  cases h : Rpc.silent o with
  | none => exact Program.erase_call (d := silent) _ h
  | some r => exact Program.erase_call_of_some (d := silent) _ h

/-- Without the resources, the five functions are those of the client. -/
theorem erase_trackFile (path : Path) (flags : Nat) (fd : Int) :
    Program.erase silent (hvacTrackFile hash g path flags fd) =
      client (Client.hvacTrackFile (g.config hash hpos) path flags fd) := by
  have hselect : selectPath g.directory path fd = selectPath (g.config hash hpos) path fd := rfl
  simp [hvacTrackFile, Client.hvacTrackFile, client, hostOf_of_pos hpos, hselect, answeredOp,
    erase_openRpc]

theorem erase_remoteRead (fd : Int) {buffer : Nat} (hbuffer : buffer ≠ 0) (count : Nat) :
    Program.erase silent (hvacRemoteRead hash g fd buffer count) =
      client (Client.hvacRemoteRead (g.config hash hpos) fd count) := by
  simp [hvacRemoteRead, Client.hvacRemoteRead, client, hostOf_of_pos hpos, answeredOp, erase_readRpc, hbuffer]

theorem erase_remotePread (fd : Int) {buffer : Nat} (hbuffer : buffer ≠ 0) (count : Nat)
    (offset : Int) :
    Program.erase silent (hvacRemotePread hash g fd buffer count offset) =
      client (Client.hvacRemotePread (g.config hash hpos) fd count offset) := by
  simp [hvacRemotePread, Client.hvacRemotePread, client, hostOf_of_pos hpos, answeredOp, erase_readRpc, hbuffer]

theorem remoteLseek_of_pos (fd offset whence : Int) :
    hvacRemoteLseek hash g fd offset whence =
      lift (Rpc.hvacRemoteLseek (g.config hash hpos) fd offset whence) := by
  simp [hvacRemoteLseek, Rpc.hvacRemoteLseek, client, hostOf_of_pos hpos, answeredOp]

theorem erase_remoteClose (fd : Int) :
    Program.erase silent (hvacRemoteClose hash g fd) =
      client (Client.hvacRemoteClose (g.config hash hpos) fd) := by
  simp [hvacRemoteClose, Client.hvacRemoteClose, client, hostOf_of_pos hpos, answeredOp, erase_closeRpc]

end Positive

/-! ## Ranks -/

/-- The rank that `hvac_client_comm_lookup_addr` looks for: the host as a `uint32_t`,
and as an `int` again. -/
def rankOf (host : Int) : Int := Word.toInt32 (Word.toUInt32 host)

def RankInRange (count : Nat) (host : Int) : Prop := 0 ≤ rankOf host ∧ rankOf host < count

/-- Nothing is divided by zero, and the rank that is looked for is that of a server. -/
def RouteOp.InRange (count : Nat) : RouteOp → Prop
  | .rpc (.lookupAddr svrHash) => RankInRange count svrHash
  | .rpc _                     => True
  | .divideByZero              => False

/-- `fd_map` and the file system respond as they do; the rest may respond anything. -/
def responds (x : Outside) : (o : Op) → Table Int Path → o.Res → Table Int Path → Prop
  | .canonical path, m, r, m'    => r = x.canonical path ∧ m' = m
  | .currentPath, m, r, m'       => r = x.currentPath ∧ m' = m
  | .fdMapFind fd, m, r, m'      => r = m fd ∧ m' = m
  | .fdMapEntry fd, m, r, m'     => r = m.entry fd [] ∧ m' = m.touch fd []
  | .fdMapSet fd path, m, _, m'  => m' = m.set fd path
  | .fdMapErase fd, m, _, m'     => m' = m.erase fd
  | _, m, _, m'                  => m' = m

def RouteOp.post (x : Outside) :
    (o : RouteOp) → Table Int Path → o.Res → Table Int Path → Prop
  | .rpc (.client o), m, r, m' => responds x o m r m'
  | .rpc _, m, _, m'           => m' = m
  | .divideByZero, _, _, _     => True

def routing (x : Outside) (count : Nat) : Program.Spec routeOps (Table Int Path) where
  pre o _ := o.InRange count
  post o m r m' := o.post x m r m'

/-- The call never divides by zero, and asks for servers in range only. -/
def Routed (x : Outside) (c : RouteCall) (m : Table Int Path) : Prop :=
  Program.wp (routing x g.gHvacServerCount) (c.code hash g) (fun _ _ => True) m

/-- The tracked path that a call computes its host from. -/
def RouteCall.path (x : Outside) (m : Table Int Path) : RouteCall → Option Path
  | .trackFile path flags _ => if Eligible path flags then selected g.directory x path else none
  | .remoteRead fd _ _ | .remotePread fd _ _ _ | .remoteLseek fd _ _ | .remoteClose fd => m fd

/-! ### One host -/

/-- The remainder is the rank of a server unless it is too large for an `int`. -/
theorem rankInRange_iff {count n : Nat} (hcount : 0 < count) (hlt : count < 2 ^ 32) :
    RankInRange count (Word.toInt32 (n % count : Nat)) ↔ n % count < 2 ^ 31 := by
  have hrem : n % count < count := Nat.mod_lt n hcount
  have hrank : rankOf (Word.toInt32 (n % count : Nat)) = Word.toInt32 (n % count : Nat) := by
    rw [rankOf, Word.toInt32_toUInt32]
    exact Word.toInt32_of_range (Word.toInt32_range _).1 (Word.toInt32_range _).2
  rw [RankInRange, hrank]
  generalize n % count = r at hrem
  constructor
  · rintro ⟨hpos, _⟩
    simp only [Word.toInt32, Int.bmod_def] at hpos
    omega
  · intro hr
    rw [Word.toInt32_of_range (by omega) (by omega)]
    omega

/-! ### Rules -/

section Rules

variable {hash g} {x : Outside} {count : Nat} {m : Table Int Path} {fd : Int}

@[simp] theorem wp_rop {o : RpcOp} {Q : o.Res → Table Int Path → Prop} :
    @Program.wp routeOps (no_index _) _ (routing x count) (lift (rop o)) Q m ↔
      (RouteOp.rpc o).InRange count ∧ ∀ r m', RouteOp.post x (.rpc o) m r m' → Q r m' :=
  Iff.rfl

@[simp] theorem wp_client {o : Op} {Q : o.Res → Table Int Path → Prop} :
    @Program.wp routeOps (no_index _) _ (routing x count) (lift (Rpc.client o)) Q m ↔
      ∀ r m', responds x o m r m' → Q r m' :=
  and_iff_right trivial

/-- The division, and the host that it yields. -/
theorem wp_hostOf {path : Path} {Q : Int → Table Int Path → Prop} :
    Program.wp (routing x count) (hostOf hash g path) Q m ↔
      0 < g.gHvacServerCount ∧ Q (Word.toInt32 (hash path % g.gHvacServerCount : Nat)) m := by
  by_cases hzero : g.gHvacServerCount = 0
  · refine iff_of_false ?_ (by omega)
    rw [hostOf, if_pos hzero]
    exact fun h => h.1
  · rw [hostOf, if_neg hzero, Program.wp_pure]
    exact (and_iff_right (by omega)).symm

theorem wp_fileTracked {Q : Bool → Table Int Path → Prop} :
    Program.wp (routing x count) (client (hvacFileTracked fd)) Q m ↔ Q (m fd).isSome m := by
  simp [client, hvacFileTracked, answeredOp, responds]

theorem wp_fdMapEntry {Q : Path → Table Int Path → Prop} {path : Path} (h : m fd = some path) :
    @Program.wp routeOps (no_index _) _ (routing x count) (client (op (.fdMapEntry fd))) Q m ↔
      Q path m := by
  simp [client, answeredOp, responds, Table.entry_of_some h, Table.touch_of_some h]

/-- The `try` block enters the path of a selected file. -/
theorem wp_selectPath {cfg : Config} {path : Path} {Q : Bool → Table Int Path → Prop} :
    Program.wp (routing x count) (client (selectPath cfg path fd)) Q m ↔
      match selected cfg x path with
      | some p => Q true (m.set fd p)
      | none   => Q false m := by
  cases hp : x.canonical path with
  | none => simp [client, selectPath, selected, answeredOp, responds, hp]
  | some p =>
      have hselected := @selected_of_canonical cfg x path p hp
      cases hdir : cfg.hvacDataDir with
      | some dataDir =>
          cases htest : x.canonical dataDir with
          | none =>
              simp [client, selectPath, hselected, inDirectory, answeredOp, responds, hp, hdir,
                htest]
          | some test =>
              by_cases hin : test <:+: parentPath p
              · simp [client, selectPath, recordPath, hselected, inDirectory, answeredOp, responds,
                  hp, hdir, htest, hin]
              · simp [client, selectPath, hselected, inDirectory, answeredOp, responds, hp, hdir,
                  htest, hin]
      | none =>
          cases hcwd : x.currentPath with
          | none =>
              simp [client, selectPath, hselected, inDirectory, answeredOp, responds, hp, hdir,
                hcwd]
          | some cwd =>
              by_cases hin : parentPath p = cwd
              · simp [client, selectPath, recordPath, hselected, inDirectory, answeredOp, responds,
                  hp, hdir, hcwd, hin]
              · simp [client, selectPath, hselected, inDirectory, answeredOp, responds, hp, hdir,
                  hcwd, hin, Ne.symm hin]

/-! ### The RPC functions -/

/-- The operations of the RPC functions that look for servers in range. -/
abbrev Looks (count : Nat) (o : RpcOp) : Prop := (RouteOp.rpc o).InRange count

theorem wp_of_looks {α : Type} {p : RpcCode α} (h : @Program.Uses rpcOps α (Looks count) p) :
    Program.wp (routing x count) (lift p) (fun _ _ => True) m := by
  have huses : @Program.Uses routeOps α (RouteOp.InRange count) (lift p) :=
    Program.Uses.interpret (f := lifted) (fun _ ho => ⟨ho, fun _ => trivial⟩) h
  exact Program.wp_of_uses (fun _ _ ho => ho) huses m

theorem looks_rop {α : Type} {o : RpcOp} {k : o.Res → RpcCode α} (ho : Looks count o)
    (hk : ∀ r, @Program.Uses rpcOps α (Looks count) (k r)) :
    @Program.Uses rpcOps (no_index _) (Looks count) (rop o >>= k) :=
  ⟨ho, hk⟩

theorem looks_assertThat {c : Prop} [Decidable c] :
    @Program.Uses rpcOps Unit (Looks count) (assertThat c) := by
  unfold assertThat
  split
  · trivial
  · refine ⟨trivial, ?_⟩
    rintro ⟨⟩

theorem looks_answered (o : Op) : @Program.Uses rpcOps _ (Looks count) (answered o) := by
  cases o with
  | openOutput fd | readOutput fd =>
      refine looks_rop trivial fun ok => ?_
      apply looks_assertThat.bind
      intro _
      exact ⟨trivial, fun _ => trivial⟩
  | _ => exact ⟨trivial, fun _ => trivial⟩

/-- A program of the client looks for no server. -/
theorem looks_embed {α : Type} (p : Code α) : @Program.Uses rpcOps α (Looks count) (embed p) :=
  (Program.uses_of_forall (Φ := fun _ => True) (fun _ => trivial) p).interpret
    fun o _ => looks_answered o

variable {host : Int}

/-- An open request is sent to the server that is looked for. -/
theorem wp_openRpc {path : Path} :
    Program.wp (routing x count) (lift (Rpc.hvacClientCommGenOpenRpc host path fd))
      (fun _ _ => True) m ↔ RankInRange count host := by
  constructor
  · intro h
    simp only [Rpc.hvacClientCommGenOpenRpc, lift_bind, Program.wp_bind, wp_client, wp_rop] at h
    exact (h () m rfl).1
  · intro hr
    apply wp_of_looks
    refine looks_rop trivial fun _ => looks_rop hr fun _ => looks_rop trivial fun _ =>
      looks_rop trivial fun _ => looks_rop trivial fun _ => looks_rop trivial fun sent => ?_
    split
    · refine looks_rop trivial fun _ => Program.Uses.bind ?_ fun _ => looks_rop trivial fun _ =>
        looks_rop trivial fun _ => trivial
      refine looks_rop trivial fun _ => looks_assertThat.bind fun _ =>
        looks_rop trivial fun status => ?_
      split
      · exact looks_rop trivial fun _ => looks_rop trivial fun _ => looks_rop trivial fun _ => trivial
      · exact looks_rop trivial fun _ => looks_rop trivial fun _ => trivial
    · exact looks_rop trivial fun _ => looks_rop trivial fun _ => looks_rop trivial fun _ =>
        looks_rop trivial fun _ => trivial

/-- So is a read request, where the descriptor is ready and has a mapping. -/
theorem wp_readRpc {buffer n : Nat} {offset : Int} :
    Program.wp (routing x count) (lift (Rpc.hvacClientCommGenReadRpc host fd buffer n offset))
      (fun _ _ => True) m ↔ RankInRange count host := by
  constructor
  · intro h
    simp only [Rpc.hvacClientCommGenReadRpc, hvacWaitFdReady, hasRemoteFd, lift_bind, embed_bind,
      embed_op, answeredOp, Program.wp_bind, wp_client] at h
    have hready := h (some .ready) m rfl
    simp only [embed_pure, lift_pure, Program.wp_pure, if_true, lift_bind, Program.wp_bind,
      wp_client] at hready
    have hmapped := hready (some 1) m rfl
    simp only [embed_pure, lift_pure, Program.wp_pure, lift_bind, embed_bind, embed_op,
      answeredOp, Program.wp_bind, wp_client] at hmapped
    have hsent := hmapped (1 : Int) m rfl
    simp only [ne_eq, one_ne_zero, not_false_eq_true, decide_true, if_true, lift_bind,
      Program.wp_bind, wp_rop] at hsent
    exact hsent.1
  · intro hr
    apply wp_of_looks
    refine (looks_embed _).bind fun ready => ?_
    split
    · refine (looks_embed _).bind fun mapped => ?_
      split
      · refine looks_rop hr fun _ => looks_rop trivial fun _ => looks_assertThat.bind fun _ =>
          looks_rop trivial fun _ => looks_rop trivial fun _ => looks_rop trivial fun _ =>
          looks_rop trivial fun sent => ?_
        split
        · refine looks_rop trivial fun _ => looks_rop trivial fun _ =>
            looks_assertThat.bind fun _ => looks_rop trivial fun _ => looks_rop trivial fun _ =>
            looks_rop trivial fun _ => looks_rop trivial fun _ => trivial
        · exact looks_rop trivial fun _ => looks_rop trivial fun _ => looks_rop trivial fun _ =>
            looks_rop trivial fun _ => trivial
      · exact looks_rop trivial fun _ => trivial
    · trivial

theorem wp_closeRpc :
    Program.wp (routing x count) (lift (Rpc.hvacClientCommGenCloseRpc host fd))
      (fun _ _ => True) m ↔ RankInRange count host := by
  constructor
  · intro h
    simp only [Rpc.hvacClientCommGenCloseRpc, lift_bind, Program.wp_bind, wp_rop] at h
    exact h.1
  · intro hr
    apply wp_of_looks
    refine looks_rop hr fun _ => looks_rop trivial fun _ => (looks_embed _).bind fun mapped => ?_
    split
    · exact looks_rop trivial fun _ => looks_rop trivial fun _ => looks_rop trivial fun _ =>
        looks_rop trivial fun _ => looks_rop trivial fun _ => looks_rop trivial fun _ => trivial
    · exact looks_rop trivial fun _ => looks_rop trivial fun _ => looks_rop trivial fun _ => trivial

theorem wp_seekRpc {offset whence : Int} :
    Program.wp (routing x count) (lift (hvacClientCommGenSeekRpc host fd offset whence))
      (fun _ _ => True) m ↔ RankInRange count host := by
  constructor
  · intro h
    simp only [hvacClientCommGenSeekRpc, lift_bind, Program.wp_bind, wp_rop] at h
    exact h.1
  · intro hr
    apply wp_of_looks
    exact looks_rop hr fun _ => looks_rop trivial fun _ => looks_rop trivial fun _ =>
      looks_rop trivial fun _ => looks_rop trivial fun _ => looks_assertThat.bind fun _ =>
      looks_rop trivial fun _ => looks_rop trivial fun _ => looks_rop trivial fun _ =>
      looks_rop trivial fun _ => trivial

/-- The path has a server: there is a number to divide by, and the remainder is an `int`. -/
def Supported (hash : Path → Nat) (g : Globals) (path : Path) : Prop :=
  0 < g.gHvacServerCount ∧ hash path % g.gHvacServerCount < 2 ^ 31

/-- The host of a tracked path, and what looks for it. -/
theorem wp_routeTo {path : Path} {Q : Int → Table Int Path → Prop} (hm : m fd = some path)
    (hlt : g.gHvacServerCount < 2 ^ 32)
    (hQ : ∀ host, Q host m ↔ RankInRange g.gHvacServerCount host) :
    @Program.wp routeOps (no_index _) _ (routing x g.gHvacServerCount) (client (op (.fdMapEntry fd)))
      (fun path m' => Program.wp (routing x g.gHvacServerCount) (hostOf hash g path) Q m') m ↔
        Supported hash g path := by
  rw [wp_fdMapEntry hm, wp_hostOf]
  refine and_congr_right fun hpos => ?_
  rw [hQ]
  exact rankInRange_iff hpos hlt

end Rules

/-! ## The law -/

section Law

variable {hash g} {x : Outside} {c : RouteCall} {m : Table Int Path} {fd : Int}

theorem wp_trackFile {path : Path} {flags : Nat} (hlt : g.gHvacServerCount < 2 ^ 32) :
    Program.wp (routing x g.gHvacServerCount) (hvacTrackFile hash g path flags fd)
      (fun _ _ => True) m ↔
        ∀ p, (if Eligible path flags then selected g.directory x path else none) = some p →
          Supported hash g p := by
  by_cases hports : portsCfg <:+: path
  · simp [hvacTrackFile, Eligible, hports]
  by_cases hmode : flags &&& oAccmode = oWronly
  · simp [hvacTrackFile, Eligible, hports, hmode]
  by_cases happend : flags &&& oAppend = 0
  · have heligible : Eligible path flags := ⟨hports, hmode, happend⟩
    simp only [hvacTrackFile, hports, hmode, happend, heligible, ne_eq, not_true_eq_false, if_false,
      if_true, Program.wp_bind, wp_selectPath]
    cases hselected : selected g.directory x path with
    | none => simp
    | some p =>
        have hset : m.set fd p fd = some p := Table.set_self _ _ _
        refine Iff.trans (wp_routeTo hset hlt fun host => ?_) (by simp)
        rw [wp_fdMapEntry hset]
        exact wp_openRpc
  · simp [hvacTrackFile, Eligible, hports, hmode, happend]

/-- A function that returns at once where the descriptor is not tracked. -/
theorem wp_ifTracked {α : Type} {p q : RouteCode α} {count : Nat}
    (hq : Program.wp (routing x count) q (fun _ _ => True) m) :
    Program.wp (routing x count)
      (client (hvacFileTracked fd) >>= fun tracked => if tracked = true then p else q)
      (fun _ _ => True) m ↔
        ∀ path, m fd = some path → Program.wp (routing x count) p (fun _ _ => True) m := by
  rw [Program.wp_bind, wp_fileTracked]
  cases hm : m fd with
  | none => simpa using hq
  | some path => simp

/-- With a mapping a positional read goes on to the division. -/
theorem wp_ifMapped {α : Type} {p q : RouteCode α} {count : Nat}
    (hq : Program.wp (routing x count) q (fun _ _ => True) m) :
    Program.wp (routing x count)
      (client (op (.fdRedirMapEntry fd)) >>= fun remoteFd => if (remoteFd : Int) ≠ 0 then p else q)
      (fun _ _ => True) m ↔ Program.wp (routing x count) p (fun _ _ => True) m := by
  simp only [client, embed_op, answeredOp, Program.wp_bind, wp_client, responds]
  constructor
  · intro h
    exact h (1 : Int) m rfl
  · rintro hp remoteFd m' rfl
    split
    · exact hp
    · exact hq

/-- The five functions need the server of the tracked path, and no other. -/
theorem routed_iff_of_lt (hlt : g.gHvacServerCount < 2 ^ 32) :
    Routed hash g x c m ↔ ∀ path, c.path g x m = some path → Supported hash g path := by
  unfold Routed
  cases c with
  | trackFile path flags fd =>
      rw [RouteCall.code, Program.wp_bind]
      exact wp_trackFile hlt
  | remoteRead fd buffer count =>
      rw [RouteCall.code, Program.wp_bind]
      refine Iff.trans (wp_ifTracked ?_) (forall₂_congr fun path hm => ?_)
      · trivial
      · simp only [Program.wp_bind]
        exact wp_routeTo hm hlt fun host => wp_readRpc
  | remotePread fd buffer count offset =>
      rw [RouteCall.code, Program.wp_bind]
      refine Iff.trans (wp_ifTracked ?_) (forall₂_congr fun path hm => ?_)
      · trivial
      · refine Iff.trans (wp_ifMapped ?_) ?_
        · trivial
        · simp only [Program.wp_bind]
          exact wp_routeTo hm hlt fun host => wp_readRpc
  | remoteLseek fd offset whence =>
      rw [RouteCall.code, Program.wp_bind]
      refine Iff.trans (wp_ifTracked ?_) (forall₂_congr fun path hm => ?_)
      · trivial
      · simp only [Program.wp_bind]
        exact wp_routeTo hm hlt fun host => wp_seekRpc
  | remoteClose fd =>
      refine Iff.trans (wp_ifTracked ?_) (forall₂_congr fun path hm => ?_)
      · trivial
      · simp only [Program.wp_bind]
        exact wp_routeTo hm hlt fun host => wp_closeRpc

/-- For every value of `HVAC_SERVER_COUNT` that is accepted, a call never divides by zero
and asks for servers in range only, exactly if the number that the value stands for is
not zero and leaves an `int` of the hash of the tracked path. -/
theorem routed_iff {env : Environment} (hg : hvacClientInit env = some g) :
    Routed hash g x c m ↔ ∀ path, c.path g x m = some path → Supported hash g path := by
  obtain ⟨value, _, rfl⟩ := Option.map_eq_some_iff.mp hg
  exact routed_iff_of_lt (Word.toUInt32_lt _)

/-- A value that begins with a positive number supports every path. -/
theorem supported_of_pos {value : Text} {dataDir : Option Path}
    (hg : hvacClientInit ⟨some value, dataDir⟩ = some g) (hpos : 0 < Scan.atoi value) (path : Path) :
    Supported hash g path := by
  obtain rfl : (⟨Word.toUInt32 (Scan.atoi value), dataDir⟩ : Globals) = g := Option.some.inj hg
  have hrange := Scan.atoi_range value
  have hcount : (Word.toUInt32 (Scan.atoi value) : Int) = Scan.atoi value :=
    Word.toUInt32_of_range (by omega) (by omega)
  have hzero : 0 < Word.toUInt32 (Scan.atoi value) := by omega
  have hrem : hash path % Word.toUInt32 (Scan.atoi value) < Word.toUInt32 (Scan.atoi value) :=
    Nat.mod_lt _ hzero
  exact ⟨hzero, hrem.trans (by omega)⟩

/-- So does the number of servers in decimal. -/
theorem supported_of_printInt {n : Int} {dataDir : Option Path} (hpos : 0 < n) (hhi : n < 2 ^ 31)
    (hg : hvacClientInit ⟨some (Scan.printInt n), dataDir⟩ = some g) (path : Path) :
    Supported hash g path :=
  supported_of_pos hg (by rwa [Scan.atoi_printInt (by omega) hhi]) path

end Law

/-- Descriptor 3 is tracked. -/
def trackedA : Table Int Path := Table.empty.set 3 ['/', 'd', '/', 'a']

/-- The file system answers nothing. -/
def noFiles : Outside := ⟨fun _ => none, none, true, 0⟩

theorem routed_threeServers :
    hvacClientInit ⟨some ['3'], none⟩ = some ⟨3, none⟩ ∧
      Routed List.length ⟨3, none⟩ noFiles (.remoteRead 3 1 10) trackedA := by
  have hinit : hvacClientInit ⟨some ['3'], none⟩ = some ⟨3, none⟩ := by
    decide
  refine ⟨hinit, (routed_iff hinit).mpr fun path _ => ?_⟩
  exact supported_of_printInt (n := 3) (by decide) (by decide) hinit path

/-- A value that is no number stands for zero, and a read divides by it. -/
theorem divided_by_zero :
    ¬ ∀ (env : Environment) (g : Globals) (hash : Path → Nat) (x : Outside) (c : RouteCall)
      (m : Table Int Path), hvacClientInit env = some g → Routed hash g x c m := by
  intro h
  have hinit : hvacClientInit ⟨some ['a', 'l', 'l'], none⟩ = some ⟨0, none⟩ := by
    decide
  have hrouted := h _ _ List.length noFiles (.remoteRead 3 1 10) trackedA hinit
  have hsupported := (routed_iff_of_lt (by decide)).mp hrouted ['/', 'd', '/', 'a'] (by decide)
  exact absurd hsupported.1 (by decide)

end MtHvac.Client.Routing
