-- SUMMARY: Running the client's programs alone: rules that hold under every handler which keeps the three maps as the client does.
import MtHvac.Client.Machine

/-!
# Running the client's programs

What the helper functions of the wrappers return, and that they leave the maps as
they are. A handler may treat the kernel and the requests in its own way; the rules
need only that it keeps the maps in a `World`.
-/

namespace MtHvac.Client

open Base

/-- The operations on the three maps, and the message of a read without a mapping. -/
def Op.OnMaps : Op → Prop
  | .fdMapFind _ | .fdMapEntry _ | .fdMapSet _ _ | .fdMapErase _
  | .fdRedirMapFind _ | .fdRedirMapEntry _ | .fdRedirMapSet _ _ | .fdRedirMapErase _
  | .fdStateFind _ | .fdStateSet _ _ | .fdStateUpdate _ _ | .fdStateErase _
  | .logNoMapping _ => True
  | _               => False

/-- A handler with the maps in a part `world` of its state. -/
structure Keeper (σ : Type) where
  handler : Program.Handler ops σ
  world : σ → World
  put : World → σ → σ
  world_put : ∀ w s, world (put w s) = w
  put_world : ∀ s, put (world s) s = s
  act_maps : ∀ (o : Op) (s : σ), o.OnMaps →
    handler.act o s = ((world s).act none o {}).map (Prod.map id fun w => put w s)

namespace Keeper

variable {σ : Type} {K : Keeper σ} {fd : Int} {s : σ}

theorem exec_op {o : Op} :
    @Program.exec ops (no_index _) _ K.handler (op o) s = K.handler.act o s :=
  @Program.exec_perform ops _ K.handler o s

/-- An operation on the maps. -/
theorem exec_maps (o : Op) (h : o.OnMaps) :
    @Program.exec ops (no_index _) _ K.handler (op o) s =
      ((K.world s).act none o {}).map (Prod.map id fun w => K.put w s) :=
  exec_op.trans (K.act_maps o s h)

@[simp] theorem exec_fdMapFind :
    @Program.exec ops (no_index _) _ K.handler (op (.fdMapFind fd)) s = some ((K.world s).fdMap fd, s) := by
  rw [exec_maps (.fdMapFind fd) trivial]
  simp [World.act, K.put_world]

theorem exec_fdMapEntry {path : Path} (h : (K.world s).fdMap fd = some path) :
    @Program.exec ops (no_index _) _ K.handler (op (.fdMapEntry fd)) s = some (path, s) := by
  rw [exec_maps (.fdMapEntry fd) trivial]
  simp [World.act, h, Table.touch_of_some h, K.put_world]

@[simp] theorem exec_fdMapSet {path : Path} :
    @Program.exec ops (no_index _) _ K.handler (op (.fdMapSet fd path)) s =
      some ((), K.put { K.world s with fdMap := (K.world s).fdMap.set fd path } s) := by
  rw [exec_maps (.fdMapSet fd path) trivial]
  rfl

@[simp] theorem exec_fdRedirMapFind :
    @Program.exec ops (no_index _) _ K.handler (op (.fdRedirMapFind fd)) s = some ((K.world s).fdRedirMap fd, s) := by
  rw [exec_maps (.fdRedirMapFind fd) trivial]
  simp [World.act, K.put_world]

/-- The lookup `fd_redir_map[fd]`, which inserts a missing entry. -/
@[simp] theorem exec_fdRedirMapEntry :
    @Program.exec ops (no_index _) _ K.handler (op (.fdRedirMapEntry fd)) s =
      some ((K.world s).fdRedirMap.entry fd 0,
        K.put { K.world s with fdRedirMap := (K.world s).fdRedirMap.touch fd 0 } s) := by
  rw [exec_maps (.fdRedirMapEntry fd) trivial]
  rfl

theorem put_touch {remoteFd : Int} (h : (K.world s).fdRedirMap fd = some remoteFd) :
    K.put { K.world s with fdRedirMap := (K.world s).fdRedirMap.touch fd 0 } s = s := by
  rw [Table.touch_of_some h]
  exact K.put_world s

@[simp] theorem exec_fdStateFind :
    @Program.exec ops (no_index _) _ K.handler (op (.fdStateFind fd)) s = some ((K.world s).fdStateMap fd, s) := by
  rw [exec_maps (.fdStateFind fd) trivial]
  simp [World.act, K.put_world]

theorem exec_hvacFileTracked :
    Program.exec K.handler (hvacFileTracked fd) s = some (((K.world s).fdMap fd).isSome, s) := by
  simp [hvacFileTracked]

theorem exec_hvacGetPath :
    Program.exec K.handler (hvacGetPath fd) s = some ((K.world s).fdMap fd, s) := by
  cases h : (K.world s).fdMap fd with
  | none => simp [hvacGetPath, h]
  | some path => simp [hvacGetPath, h, exec_fdMapEntry h]

/-- A descriptor that is not being opened is answered at once. -/
theorem exec_hvacWaitFdReady (h : (K.world s).fdStateMap fd ≠ some .opening) :
    Program.exec K.handler (hvacWaitFdReady fd) s =
      some (decide ((K.world s).fdStateMap fd = some .ready), s) := by
  rcases hstate : (K.world s).fdStateMap fd with _ | _ | _ | _
  · simp [hvacWaitFdReady, hstate]
  · exact absurd hstate h
  · simp [hvacWaitFdReady, hstate]
  · simp [hvacWaitFdReady, hstate]

theorem exec_hasRemoteFd :
    Program.exec K.handler (hasRemoteFd fd) s =
      some (decide ((K.world s).fdRedirMap.entry fd 0 ≠ 0), s) := by
  cases h : (K.world s).fdRedirMap fd with
  | none => simp [hasRemoteFd, h, Table.entry]
  | some remoteFd => simp [hasRemoteFd, h, put_touch h]

/-- A read of a descriptor that is not ready fails without a request. -/
theorem exec_readRpc_unready {svrHash : Int} {count : Nat} {offset : Int}
    (hopening : (K.world s).fdStateMap fd ≠ some .opening)
    (hready : (K.world s).fdStateMap fd ≠ some .ready) :
    Program.exec K.handler (hvacClientCommGenReadRpc svrHash fd count offset) s = some (-1, s) := by
  simp [hvacClientCommGenReadRpc, exec_hvacWaitFdReady hopening, hready]

/-- A read of a descriptor that is ready and has a remote descriptor sends a request. -/
theorem exec_readRpc {svrHash remoteFd : Int} {count : Nat} {offset : Int}
    (hready : (K.world s).fdStateMap fd = some .ready)
    (hredir : (K.world s).fdRedirMap fd = some remoteFd) (hne : remoteFd ≠ 0) :
    Program.exec K.handler (hvacClientCommGenReadRpc svrHash fd count offset) s =
      (@Program.exec ops Bool _ K.handler
          (op (.forward fd svrHash (.read (readRequest remoteFd count offset)))) s).bind
        fun (sent, s') =>
          if sent then @Program.exec ops Int _ K.handler (op (.readOutput fd)) s'
          else some (-1, s') := by
  have hopening : (K.world s).fdStateMap fd ≠ some .opening := by simp [hready]
  have hentry : (K.world s).fdRedirMap.entry fd 0 = remoteFd := Table.entry_of_some hredir
  simp only [hvacClientCommGenReadRpc, Program.exec_bind, exec_hvacWaitFdReady hopening, hready,
    exec_hasRemoteFd, hentry, hne, exec_fdRedirMapEntry, put_touch hredir, ne_eq, not_false_eq_true,
    decide_true, if_true, Option.bind_some]
  congr 1
  funext x
  obtain ⟨_ | _, s'⟩ := x
  · rfl
  · rfl

theorem exec_hvacRemoteRead {cfg : Config} {path : Path} {count : Nat}
    (h : (K.world s).fdMap fd = some path) :
    Program.exec K.handler (hvacRemoteRead cfg fd count) s =
      Program.exec K.handler (hvacClientCommGenReadRpc (cfg.host path) fd count (-1)) s := by
  simp [hvacRemoteRead, exec_hvacFileTracked, h, exec_fdMapEntry h]

theorem exec_hvacRemotePread {cfg : Config} {path : Path} {remoteFd : Int} {count : Nat}
    {offset : Int} (h : (K.world s).fdMap fd = some path)
    (hredir : (K.world s).fdRedirMap fd = some remoteFd) (hne : remoteFd ≠ 0) :
    Program.exec K.handler (hvacRemotePread cfg fd count offset) s =
      Program.exec K.handler (hvacClientCommGenReadRpc (cfg.host path) fd count offset) s := by
  have hentry : (K.world s).fdRedirMap.entry fd 0 = remoteFd := Table.entry_of_some hredir
  simp [hvacRemotePread, exec_hvacFileTracked, h, exec_fdMapEntry h, hentry, hne,
    put_touch hredir]

end Keeper

end MtHvac.Client
