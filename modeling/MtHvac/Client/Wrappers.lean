-- SUMMARY: What the wrappers do to the entries of one descriptor: views, the specification of the operations, and one rule for each function.
import Mathlib.Logic.Unique
import MtHvac.Client.Machine

/-!
# The wrappers on one descriptor

A call touches the map entries of a single descriptor. The view of a descriptor
is what the maps and the kernel say about it; the rules below follow each wrapper
through its operations on the view, whatever the outside answers.

A call that opens or closes its descriptor has the view for itself. A read or
pread shares it with others, and must leave it as it is.
-/

namespace MtHvac.Client

open Base Program

/-! ## Views -/

/-- What is known about one descriptor. `redir` is `0` for a missing entry, as
the program never tells the two apart. -/
structure View where
  kernel : Option Nat
  path : Option Path
  redir : Int
  state : Option FdState
  lastOpen : Option OpenRpc
deriving DecidableEq

def World.view (w : World) (fd : Int) : View where
  kernel := w.kernel fd
  path := w.fdMap fd
  redir := w.fdRedirMap.entry fd 0
  state := w.fdStateMap fd
  lastOpen := w.lastOpen fd

/-- The entries of a descriptor in the three maps. -/
def World.entries (w : World) (fd : Int) : Option Path × Option Int × Option FdState :=
  (w.fdMap fd, w.fdRedirMap fd, w.fdStateMap fd)

/-- The descriptor that an operation touches. -/
def Op.fd : Op → Option Int
  | .realOpen _ _ | .canonical _ | .currentPath => none
  | .realRead fd _ | .realPread fd _ _ | .realClose fd
  | .fdMapFind fd | .fdMapEntry fd | .fdMapSet fd _ | .fdMapErase fd
  | .fdRedirMapFind fd | .fdRedirMapEntry fd | .fdRedirMapSet fd _ | .fdRedirMapErase fd
  | .fdStateFind fd | .fdStateSet fd _ | .fdStateUpdate fd _ | .fdStateTimedWait fd
  | .fdStateErase fd | .forward fd _ _ | .openOutput fd | .readOutput fd
  | .logNoMapping fd => some fd

/-- The responses that an operation can give on a view. -/
def View.Answers (v : View) : (o : Op) → o.Res → Prop
  | .fdMapFind _, r        => r = v.path
  | .fdMapEntry _, r       => r = v.path.getD []
  | .fdRedirMapFind _, r   => r.getD 0 = v.redir
  | .fdRedirMapEntry _, r  => r = v.redir
  | .fdStateFind _, r      => r = v.state
  | .fdStateTimedWait _, r => r = true → v.state = some .ready
  | _, _                   => True

/-- The view after an operation of a call on the current incarnation. -/
def View.after (v : View) : (o : Op) → o.Res → View
  | .realClose _, _           => { v with kernel := none }
  | .fdMapEntry _, _          => { v with path := some (v.path.getD []) }
  | .fdMapSet _ path, _       => { v with path := some path }
  | .fdMapErase _, _          => { v with path := none }
  | .fdRedirMapSet _ r, _     => { v with redir := r }
  | .fdRedirMapErase _, _     => { v with redir := 0 }
  | .fdStateSet _ state, _    => { v with state := some state }
  | .fdStateUpdate _ state, _ => { v with state := v.state.map fun _ => state }
  | .fdStateErase _, _        => { v with state := none }
  | .forward _ host (.openFile path), r =>
      if r then { v with lastOpen := some ⟨v.kernel, host, path, none, false⟩ } else v
  | .forward _ _ (.close _), r =>
      if r then { v with lastOpen := v.lastOpen.map fun rpc => { rpc with closed := true } } else v
  | .openOutput _, r =>
      { v with lastOpen := v.lastOpen.map fun rpc => { rpc with status := some r } }
  | _, _ => v

section Act

variable {w w' : World} {incarnation : Option Nat} {o : Op} {a : Answer} {r : o.Res} {fd fd' : Int}

/-- An operation on a descriptor acts on its view. -/
theorem act_view (h : w.act incarnation o a = some (r, w')) (hfd : o.fd = some fd)
    (hinc : incarnation = w.kernel fd) :
    (w.view fd).Answers o r ∧ w'.view fd = (w.view fd).after o r := by
  cases o with
  | realOpen path flags | canonical path | currentPath => cases hfd
  | fdStateTimedWait fd₀ =>
      obtain rfl := Option.some.inj hfd
      obtain ⟨hready, h⟩ := guarded_eq_some.mp h
      obtain ⟨rfl, rfl⟩ := Prod.mk.inj h
      exact ⟨hready, rfl⟩
  | forward fd₀ host req =>
      obtain rfl := Option.some.inj hfd
      obtain ⟨rfl, rfl⟩ := Prod.mk.inj (Option.some.inj h)
      refine ⟨trivial, ?_⟩
      cases req <;> cases a.ok <;>
        simp [World.view, View.after, World.sent, hinc]
  | fdRedirMapFind fd₀ =>
      obtain rfl := Option.some.inj hfd
      obtain ⟨rfl, rfl⟩ := Prod.mk.inj (Option.some.inj h)
      exact ⟨rfl, rfl⟩
  | _ =>
      obtain rfl := Option.some.inj hfd
      obtain ⟨rfl, rfl⟩ := Prod.mk.inj (Option.some.inj h)
      simp [World.view, View.after, View.Answers, Table.entry, Table.touch]

/-- It leaves the other descriptors as they are. -/
theorem act_frame (h : w.act incarnation o a = some (r, w')) (hfd : o.fd = some fd)
    (hne : fd' ≠ fd) : w'.entries fd' = w.entries fd' ∧ w'.kernel fd' = w.kernel fd' ∧
      w'.lastOpen fd' = w.lastOpen fd' := by
  cases o with
  | realOpen path flags | canonical path | currentPath => cases hfd
  | fdStateTimedWait fd₀ =>
      obtain ⟨_, h⟩ := guarded_eq_some.mp h
      obtain ⟨rfl, rfl⟩ := Prod.mk.inj h
      exact ⟨rfl, rfl, rfl⟩
  | forward fd₀ host req =>
      obtain rfl := Option.some.inj hfd
      obtain ⟨rfl, rfl⟩ := Prod.mk.inj (Option.some.inj h)
      cases req <;> cases a.ok <;> simp [World.entries, World.sent, hne]
  | _ =>
      obtain rfl := Option.some.inj hfd
      obtain ⟨rfl, rfl⟩ := Prod.mk.inj (Option.some.inj h)
      simp [World.entries, hne]

theorem act_view_frame (h : w.act incarnation o a = some (r, w')) (hfd : o.fd = some fd)
    (hne : fd' ≠ fd) : w'.view fd' = w.view fd' := by
  obtain ⟨hentries, hkernel, hlast⟩ := act_frame h hfd hne
  simp only [World.entries, Prod.mk.injEq] at hentries
  obtain ⟨hpath, hredir, hstate⟩ := hentries
  simp only [World.view, Table.entry, hpath, hredir, hstate, hkernel, hlast]

theorem act_nextIncarnation (h : w.act incarnation o a = some (r, w')) (hfd : o.fd = some fd) :
    w'.nextIncarnation = w.nextIncarnation := by
  cases o with
  | realOpen path flags | canonical path | currentPath => cases hfd
  | fdStateTimedWait fd₀ =>
      obtain ⟨_, h⟩ := guarded_eq_some.mp h
      obtain ⟨rfl, rfl⟩ := Prod.mk.inj h
      rfl
  | forward fd₀ host req =>
      obtain ⟨rfl, rfl⟩ := Prod.mk.inj (Option.some.inj h)
      cases req <;> cases a.ok <;> rfl
  | _ =>
      obtain ⟨rfl, rfl⟩ := Prod.mk.inj (Option.some.inj h)
      rfl

/-- The queries of the file system touch no descriptor. -/
theorem act_query (h : w.act incarnation o a = some (r, w')) (hfd : o.fd = none)
    (hopen : ∀ path flags, o ≠ .realOpen path flags) : w' = w := by
  cases o with
  | realOpen path flags => exact absurd rfl (hopen path flags)
  | canonical path | currentPath => exact (Prod.mk.inj (Option.some.inj h)).2.symm
  | _ => cases hfd

/-- `__real_open` fails, or begins an incarnation of a free descriptor number. -/
theorem act_realOpen {path : Path} {flags : Nat} {r : Option Int}
    (h : w.act incarnation (.realOpen path flags) a = some (r, w')) :
    r = none ∧ w' = w ∨
      ∃ fd, r = some fd ∧ 0 ≤ fd ∧ w.kernel fd = none ∧
        w' = { w with
          kernel := w.kernel.set fd w.nextIncarnation
          nextIncarnation := w.nextIncarnation + 1 } := by
  simp only [World.act] at h
  split at h
  · obtain ⟨rfl, rfl⟩ := Prod.mk.inj (Option.some.inj h)
    exact .inl ⟨rfl, rfl⟩
  · next fd _ =>
      obtain ⟨⟨hpos, hfree⟩, h⟩ := guarded_eq_some.mp h
      obtain ⟨rfl, rfl⟩ := Prod.mk.inj h
      exact .inr ⟨fd, rfl, hpos, hfree, rfl⟩

end Act

/-! ## The specification of the operations -/

/-- A descriptor at rest: what holds of the maps between two calls. -/
structure Consistent (cfg : Config) (v : View) : Prop where
  keys : v.path.isSome = v.state.isSome
  kernelOpen : v.path.isSome = true → v.kernel.isSome = true
  settled : v.state ≠ some .opening
  ready : v.state = some .ready ↔ v.redir ≠ 0
  mapped : v.redir ≠ 0 → 0 < v.redir ∧ ∃ path, v.path = some path ∧
    v.lastOpen = some ⟨v.kernel, cfg.host path, path, some v.redir, false⟩

/-- The remote descriptor `rfd` at `host` is the one that the open request of this
incarnation returned, and no close request has been sent for it. -/
def Targets (cfg : Config) (v : View) (host rfd : Int) : Prop :=
  0 < rfd ∧ ∃ path, v.path = some path ∧ host = cfg.host path ∧
    v.lastOpen = some ⟨v.kernel, host, path, some rfd, false⟩

/-- No open request has been sent in this incarnation. -/
def Unopened (v : View) : Prop := ∀ rpc, v.lastOpen = some rpc → rpc.incarnation ≠ v.kernel

/-- A call that opens or closes has its descriptor for itself. -/
def Call.exclusive : Call → Bool
  | .openFile _ _ | .close _ => true
  | .read _ _ | .pread _ _ _ => false

variable (cfg : Config) (exclusive : Bool)

/-- Where a call may perform an operation on its descriptor: a call without
exclusive access performs none that changes the view, a request names the right
remote descriptor, and the response is fetched before anything else is done. -/
def Allowed (v : View) (awaiting : Option (Int × Request)) : Op → Prop
  | .openOutput _ =>
      exclusive = true ∧ ∃ host path, awaiting = some (host, .openFile path) ∧
        v.lastOpen = some ⟨v.kernel, host, path, none, false⟩
  | .readOutput _ => ∃ host req, awaiting = some (host, .read req) ∧ Targets cfg v host req.accessfd
  | .realRead _ _ | .realPread _ _ _ | .fdMapFind _ | .fdRedirMapFind _ | .fdRedirMapEntry _
  | .fdStateFind _ | .fdStateTimedWait _ => awaiting = none
  | .fdMapEntry _ => awaiting = none ∧ v.path.isSome = true
  | .forward _ host (.openFile path) =>
      awaiting = none ∧ exclusive = true ∧ host = cfg.host path ∧ Unopened v
  | .forward _ host (.read req) => awaiting = none ∧ Targets cfg v host req.accessfd
  | .forward _ host (.close rfd) => awaiting = none ∧ exclusive = true ∧ Targets cfg v host rfd
  | .realClose _ =>
      awaiting = none ∧ exclusive = true ∧ Consistent cfg { v with kernel := none }
  | .logNoMapping _ => False
  | _ => awaiting = none ∧ exclusive = true

/-- What a running call knows: the view of its descriptor and what it waits for. -/
structure Local where
  on : Option (Int × View)
  awaiting : Option (Int × Request)

def Op.opens : Op → Bool
  | .realOpen _ _ => true
  | _             => false

def Op.closes : Op → Bool
  | .realClose _ => true
  | _            => false

theorem Op.onAfter_of_fd {o : Op} {fd : Int} (hfd : o.fd = some fd) (r : o.Res) (on : Option Int) :
    o.onAfter r on = if o.closes then none else on := by
  cases o <;> first | rfl | cases hfd

theorem Op.incarnationAfter_of_fd {o : Op} {fd : Int} (hfd : o.fd = some fd) (w : World)
    (r : o.Res) (incarnation : Option Nat) :
    o.incarnationAfter w r incarnation = incarnation := by
  cases o <;> first | rfl | cases hfd

theorem View.after_kernel (v : View) {o : Op} (hopen : o.closes = false) (r : o.Res) :
    (v.after o r).kernel = v.kernel := by
  cases o with
  | realClose fd => cases hopen
  | forward fd host req =>
      cases req <;> cases r <;> rfl
  | _ => rfl

/-- A new descriptor comes with the entries that its number was left with. -/
def Opened : Option Int → Local → Prop
  | none, l    => l = ⟨none, none⟩
  | some fd, l => ∃ v i, l = ⟨some (fd, v), none⟩ ∧ v.kernel = some i ∧ Unopened v ∧
      Consistent cfg { v with kernel := none }

/-- The operations as a call sees them. -/
def spec : Spec ops Local where
  pre o l :=
    match o.fd with
    | none    => l.awaiting = none ∧ (o.opens = true → exclusive = true ∧ l.on = none)
    | some fd => ∃ v, l.on = some (fd, v) ∧ Allowed cfg exclusive v l.awaiting o
  post o l r l' :=
    match o.fd with
    | none =>
        match o, r with
        | .realOpen _ _, r => Opened cfg r l'
        | _, _             => l' = l
    | some fd => ∃ v, l.on = some (fd, v) ∧ v.Answers o r ∧
        l' = ⟨if o.closes then none else some (fd, v.after o r), o.awaitingAfter r l.awaiting⟩

/-- What a call leaves: no response is outstanding, and a descriptor that is still
open is at rest. -/
def AtRest (l : Local) : Prop :=
  l.awaiting = none ∧ ∀ fd v, l.on = some (fd, v) → Consistent cfg v

variable {cfg exclusive} {fd : Int} {v : View} {awaiting : Option (Int × Request)}

theorem wp_op_on {o : Op} (hfd : o.fd = some fd) {Q : o.Res → Local → Prop} :
    wp (spec cfg exclusive) (op o) Q ⟨some (fd, v), awaiting⟩ ↔
      Allowed cfg exclusive v awaiting o ∧ ∀ r, v.Answers o r →
        Q r ⟨if o.closes then none else some (fd, v.after o r), o.awaitingAfter r awaiting⟩ := by
  refine wp_perform.trans ?_
  simp only [spec, hfd, Option.some.injEq, Prod.mk.injEq, true_and, exists_eq_left']
  constructor
  · exact fun ⟨hpre, hpost⟩ => ⟨hpre, fun r hr => hpost r _ ⟨hr, rfl⟩⟩
  · rintro ⟨hpre, hpost⟩
    refine ⟨hpre, fun r l' hr => ?_⟩
    rw [hr.2]
    exact hpost r hr.1

/-! ## Rules of the operations -/

section Rules

-- The response type of an operation is left out of the index: `simp` unfolds it in the goals.
attribute [local simp] Allowed View.Answers View.after Op.Res Op.closes Op.awaitingAfter
  Request.awaited Unique.forall_iff

theorem wp_canonical {path : Path} {Q : Option Path → Local → Prop} :
    wp (spec cfg exclusive) (op (.canonical path)) Q ⟨some (fd, v), none⟩ ↔
      ∀ r, Q r ⟨some (fd, v), none⟩ :=
  wp_perform.trans (by simp [spec, Op.fd, Op.opens, ops])

theorem wp_currentPath {Q : Option Path → Local → Prop} :
    wp (spec cfg exclusive) (op .currentPath) Q ⟨some (fd, v), none⟩ ↔
      ∀ r, Q r ⟨some (fd, v), none⟩ :=
  wp_perform.trans (by simp [spec, Op.fd, Op.opens, ops])

theorem wp_realOpen {path : Path} {flags : Nat} {Q : Option Int → Local → Prop} :
    wp (spec cfg true) (op (.realOpen path flags)) Q ⟨none, none⟩ ↔
      Q none ⟨none, none⟩ ∧ ∀ fd v i, v.kernel = some i → Unopened v →
        Consistent cfg { v with kernel := none } → Q (some fd) ⟨some (fd, v), none⟩ := by
  refine wp_perform.trans ⟨fun h => ⟨h.2 none _ rfl, ?_⟩, fun h => ⟨⟨rfl, fun _ => ⟨rfl, rfl⟩⟩, ?_⟩⟩
  · exact fun fd v i hkernel hnew hv => h.2 (some fd) _ ⟨v, i, rfl, hkernel, hnew, hv⟩
  · intro r l hl
    cases r with
    | none => exact hl ▸ h.1
    | some fd =>
        obtain ⟨v, i, rfl, hkernel, hnew, hv⟩ := hl
        exact h.2 fd v i hkernel hnew hv

@[simp] theorem wp_realRead {count : Nat} {Q : Int → Local → Prop} :
    @wp ops (no_index _) _ (spec cfg exclusive) (op (.realRead fd count)) Q ⟨some (fd, v), none⟩ ↔
      ∀ r, Q r ⟨some (fd, v), none⟩ :=
  (wp_op_on rfl).trans (by simp)

@[simp] theorem wp_realPread {count : Nat} {offset : Int} {Q : Int → Local → Prop} :
    @wp ops (no_index _) _ (spec cfg exclusive) (op (.realPread fd count offset)) Q ⟨some (fd, v), none⟩ ↔
      ∀ r, Q r ⟨some (fd, v), none⟩ :=
  (wp_op_on rfl).trans (by simp)

@[simp] theorem wp_realClose {Q : Int → Local → Prop} :
    @wp ops (no_index _) _ (spec cfg true) (op (.realClose fd)) Q ⟨some (fd, v), none⟩ ↔
      Consistent cfg { v with kernel := none } ∧ ∀ r, Q r ⟨none, none⟩ :=
  (wp_op_on rfl).trans (by simp)

@[simp] theorem wp_fdMapFind {Q : Option Path → Local → Prop} :
    @wp ops (no_index _) _ (spec cfg exclusive) (op (.fdMapFind fd)) Q ⟨some (fd, v), none⟩ ↔
      Q v.path ⟨some (fd, v), none⟩ :=
  (wp_op_on rfl).trans (by simp)

/-- Where the key is present, `operator[]` is a lookup. -/
theorem wp_fdMapEntry {path : Path} (hpath : v.path = some path) {Q : Path → Local → Prop} :
    @wp ops (no_index _) _ (spec cfg exclusive) (op (.fdMapEntry fd)) Q ⟨some (fd, v), none⟩ ↔
      Q path ⟨some (fd, v), none⟩ := by
  have hv : ({ v with path := some path } : View) = v := by rw [← hpath]
  exact (wp_op_on rfl).trans (by simp [hpath, hv])

@[simp] theorem wp_fdMapSet {path : Path} {Q : Unit → Local → Prop} :
    @wp ops (no_index _) _ (spec cfg true) (op (.fdMapSet fd path)) Q ⟨some (fd, v), none⟩ ↔
      Q () ⟨some (fd, { v with path := some path }), none⟩ :=
  (wp_op_on rfl).trans (by simp)

@[simp] theorem wp_fdMapErase {Q : Unit → Local → Prop} :
    @wp ops (no_index _) _ (spec cfg true) (op (.fdMapErase fd)) Q ⟨some (fd, v), none⟩ ↔
      Q () ⟨some (fd, { v with path := none }), none⟩ :=
  (wp_op_on rfl).trans (by simp)

@[simp] theorem wp_fdRedirMapFind {Q : Option Int → Local → Prop} :
    @wp ops (no_index _) _ (spec cfg exclusive) (op (.fdRedirMapFind fd)) Q ⟨some (fd, v), none⟩ ↔
      ∀ r : Option Int, r.getD 0 = v.redir → Q r ⟨some (fd, v), none⟩ :=
  (wp_op_on rfl).trans (by simp)

@[simp] theorem wp_fdRedirMapEntry {Q : Int → Local → Prop} :
    @wp ops (no_index _) _ (spec cfg exclusive) (op (.fdRedirMapEntry fd)) Q ⟨some (fd, v), none⟩ ↔
      Q v.redir ⟨some (fd, v), none⟩ :=
  (wp_op_on rfl).trans (by simp)

@[simp] theorem wp_fdRedirMapSet {r : Int} {Q : Unit → Local → Prop} :
    @wp ops (no_index _) _ (spec cfg true) (op (.fdRedirMapSet fd r)) Q ⟨some (fd, v), none⟩ ↔
      Q () ⟨some (fd, { v with redir := r }), none⟩ :=
  (wp_op_on rfl).trans (by simp)

@[simp] theorem wp_fdRedirMapErase {Q : Unit → Local → Prop} :
    @wp ops (no_index _) _ (spec cfg true) (op (.fdRedirMapErase fd)) Q ⟨some (fd, v), none⟩ ↔
      Q () ⟨some (fd, { v with redir := 0 }), none⟩ :=
  (wp_op_on rfl).trans (by simp)

@[simp] theorem wp_fdStateFind {Q : Option FdState → Local → Prop} :
    @wp ops (no_index _) _ (spec cfg exclusive) (op (.fdStateFind fd)) Q ⟨some (fd, v), none⟩ ↔
      Q v.state ⟨some (fd, v), none⟩ :=
  (wp_op_on rfl).trans (by simp)

@[simp] theorem wp_fdStateSet {state : FdState} {Q : Unit → Local → Prop} :
    @wp ops (no_index _) _ (spec cfg true) (op (.fdStateSet fd state)) Q ⟨some (fd, v), none⟩ ↔
      Q () ⟨some (fd, { v with state := some state }), none⟩ :=
  (wp_op_on rfl).trans (by simp)

@[simp] theorem wp_fdStateUpdate {state : FdState} {Q : Unit → Local → Prop} :
    @wp ops (no_index _) _ (spec cfg true) (op (.fdStateUpdate fd state)) Q ⟨some (fd, v), none⟩ ↔
      Q () ⟨some (fd, { v with state := v.state.map fun _ => state }), none⟩ :=
  (wp_op_on rfl).trans (by simp)

@[simp] theorem wp_fdStateErase {Q : Unit → Local → Prop} :
    @wp ops (no_index _) _ (spec cfg true) (op (.fdStateErase fd)) Q ⟨some (fd, v), none⟩ ↔
      Q () ⟨some (fd, { v with state := none }), none⟩ :=
  (wp_op_on rfl).trans (by simp)

@[simp] theorem wp_forward_openFile {host : Int} {path : Path} {Q : Bool → Local → Prop} :
    @wp ops (no_index _) _ (spec cfg true) (op (.forward fd host (.openFile path))) Q ⟨some (fd, v), none⟩ ↔
      (host = cfg.host path ∧ Unopened v) ∧
        Q true ⟨some (fd, { v with lastOpen := some ⟨v.kernel, host, path, none, false⟩ }),
          some (host, .openFile path)⟩ ∧
        Q false ⟨some (fd, v), none⟩ :=
  (wp_op_on rfl).trans (by simp [and_comm])

@[simp] theorem wp_forward_read {host : Int} {req : HvacRpcIn} {Q : Bool → Local → Prop} :
    @wp ops (no_index _) _ (spec cfg exclusive) (op (.forward fd host (.read req))) Q ⟨some (fd, v), none⟩ ↔
      Targets cfg v host req.accessfd ∧
        Q true ⟨some (fd, v), some (host, .read req)⟩ ∧ Q false ⟨some (fd, v), none⟩ :=
  (wp_op_on rfl).trans (by simp [and_comm])

@[simp] theorem wp_forward_close {host rfd : Int} {Q : Bool → Local → Prop} :
    @wp ops (no_index _) _ (spec cfg true) (op (.forward fd host (.close rfd))) Q ⟨some (fd, v), none⟩ ↔
      Targets cfg v host rfd ∧
        Q true ⟨some (fd, { v with
          lastOpen := v.lastOpen.map fun rpc => { rpc with closed := true } }), none⟩ ∧
        Q false ⟨some (fd, v), none⟩ :=
  (wp_op_on rfl).trans (by simp [and_comm])

@[simp] theorem wp_openOutput {host : Int} {path : Path} {Q : Int → Local → Prop}
    (hsent : v.lastOpen = some ⟨v.kernel, host, path, none, false⟩) :
    @wp ops (no_index _) _ (spec cfg true) (op (.openOutput fd)) Q
        ⟨some (fd, v), some (host, .openFile path)⟩ ↔
      ∀ r, Q r ⟨some (fd, { v with
        lastOpen := some ⟨v.kernel, host, path, some r, false⟩ }), none⟩ :=
  (wp_op_on rfl).trans (by simp [hsent])

@[simp] theorem wp_readOutput {host : Int} {req : HvacRpcIn} {Q : Int → Local → Prop} :
    @wp ops (no_index _) _ (spec cfg exclusive) (op (.readOutput fd)) Q ⟨some (fd, v), some (host, .read req)⟩ ↔
      Targets cfg v host req.accessfd ∧ ∀ r, Q r ⟨some (fd, v), none⟩ :=
  (wp_op_on rfl).trans (by simp)

end Rules

/-! ## Lookups -/

@[simp] theorem wp_hvacFileTracked {Q : Bool → Local → Prop} :
    wp (spec cfg exclusive) (hvacFileTracked fd) Q ⟨some (fd, v), none⟩ ↔
      Q v.path.isSome ⟨some (fd, v), none⟩ := by
  simp [hvacFileTracked]

@[simp] theorem wp_hvacGetPath {Q : Option Path → Local → Prop} :
    wp (spec cfg exclusive) (hvacGetPath fd) Q ⟨some (fd, v), none⟩ ↔
      Q v.path ⟨some (fd, v), none⟩ := by
  cases hpath : v.path with
  | none => simp [hvacGetPath, hpath]
  | some path => simp [hvacGetPath, hpath, wp_fdMapEntry hpath]

/-- The mapping check tells whether there is a remote descriptor. -/
@[simp] theorem wp_hasRemoteFd {Q : Bool → Local → Prop} :
    wp (spec cfg exclusive) (hasRemoteFd fd) Q ⟨some (fd, v), none⟩ ↔
      Q (decide (v.redir ≠ 0)) ⟨some (fd, v), none⟩ := by
  simp only [hasRemoteFd, wp_bind, wp_fdRedirMapFind]
  constructor
  · intro h
    simpa using h (some v.redir) rfl
  · intro h r hr
    cases r with
    | none => simpa [← hr] using h
    | some r => simpa using h

/-- A descriptor at rest is never waited for. -/
theorem wp_hvacWaitFdReady (hsettled : v.state ≠ some .opening) {Q : Bool → Local → Prop} :
    wp (spec cfg exclusive) (hvacWaitFdReady fd) Q ⟨some (fd, v), none⟩ ↔
      Q (decide (v.state = some .ready)) ⟨some (fd, v), none⟩ := by
  cases hstate : v.state with
  | none => simp [hvacWaitFdReady, hstate]
  | some state =>
      cases state with
      | opening => exact absurd hstate hsettled
      | ready | error => simp [hvacWaitFdReady, hstate]

/-! ## Reading -/

theorem Consistent.targets (hv : Consistent cfg v) (hredir : v.redir ≠ 0) {path : Path}
    (hpath : v.path = some path) : Targets cfg v (cfg.host path) v.redir := by
  obtain ⟨hpos, path', hpath', hopen⟩ := hv.mapped hredir
  obtain rfl : path' = path := Option.some.inj (hpath'.symm.trans hpath)
  exact ⟨hpos, path', hpath, rfl, hopen⟩

/-- A ready descriptor passes the mapping check. -/
theorem wp_hvacClientCommGenReadRpc (hv : Consistent cfg v) {path : Path}
    (hpath : v.path = some path) {count : Nat} {offset : Int} {Q : Int → Local → Prop}
    (hQ : ∀ r, Q r ⟨some (fd, v), none⟩) :
    wp (spec cfg exclusive) (hvacClientCommGenReadRpc (cfg.host path) fd count offset) Q
      ⟨some (fd, v), none⟩ := by
  simp only [hvacClientCommGenReadRpc, wp_bind, wp_hvacWaitFdReady hv.settled]
  by_cases hready : v.state = some .ready
  · have hredir : v.redir ≠ 0 := hv.ready.mp hready
    have htarget := hv.targets hredir hpath
    simp [hready, hredir, htarget, hQ]
  · simp [hready, hQ]

theorem wp_hvacRemoteRead (hv : Consistent cfg v) {count : Nat} {Q : Int → Local → Prop}
    (hQ : ∀ r, Q r ⟨some (fd, v), none⟩) :
    wp (spec cfg exclusive) (hvacRemoteRead cfg fd count) Q ⟨some (fd, v), none⟩ := by
  cases hpath : v.path with
  | none => simp [hvacRemoteRead, hpath, hQ]
  | some path =>
      simp [hvacRemoteRead, hpath, wp_fdMapEntry hpath, wp_hvacClientCommGenReadRpc hv hpath hQ]

theorem wp_hvacRemotePread (hv : Consistent cfg v) {count : Nat} {offset : Int}
    {Q : Int → Local → Prop} (hQ : ∀ r, Q r ⟨some (fd, v), none⟩) :
    wp (spec cfg exclusive) (hvacRemotePread cfg fd count offset) Q ⟨some (fd, v), none⟩ := by
  cases hpath : v.path with
  | none => simp [hvacRemotePread, hpath, hQ]
  | some path =>
      by_cases hredir : v.redir = 0
      · simp [hvacRemotePread, hpath, hredir, hQ]
      · simp [hvacRemotePread, hpath, hredir, wp_fdMapEntry hpath,
          wp_hvacClientCommGenReadRpc hv hpath hQ]

theorem readWrapper_spec (hv : Consistent cfg v) (count : Nat) :
    wp (spec cfg exclusive) (readWrapper cfg fd count) (fun _ l => l = ⟨some (fd, v), none⟩)
      ⟨some (fd, v), none⟩ := by
  simp only [readWrapper, wp_bind, wp_hvacGetPath]
  refine wp_hvacRemoteRead hv fun r => ?_
  split <;> simp

theorem preadWrapper_spec (hv : Consistent cfg v) (count : Nat) (offset : Int) :
    wp (spec cfg exclusive) (preadWrapper cfg fd count offset)
      (fun _ l => l = ⟨some (fd, v), none⟩) ⟨some (fd, v), none⟩ := by
  simp only [preadWrapper, wp_bind, wp_hvacGetPath]
  cases v.path with
  | none => simp
  | some path =>
      simp only [wp_bind]
      refine wp_hvacRemotePread hv fun r => ?_
      split <;> simp

/-! ## Closing -/

/-- A descriptor without entries is at rest, whether or not it is open. -/
theorem consistent_of_no_entries {kernel : Option Nat} {lastOpen : Option OpenRpc} :
    Consistent cfg ⟨kernel, none, 0, none, lastOpen⟩ := by
  constructor <;> simp

/-- At rest, a descriptor that is not tracked has no entries. -/
theorem Consistent.no_entries (hv : Consistent cfg v) (hpath : v.path = none) :
    v.redir = 0 ∧ v.state = none := by
  have hstate : v.state = none := by simpa [hpath] using hv.keys.symm
  refine ⟨by_contra fun hredir => ?_, hstate⟩
  cases hstate.symm.trans (hv.ready.mpr hredir)

/-- After `hvac_remove_fd` no entry is left. -/
theorem wp_hvacRemoveFd (hv : Consistent cfg v) {path : Path} (hpath : v.path = some path)
    {Q : Unit → Local → Prop}
    (hQ : ∀ lastOpen, Q () ⟨some (fd, ⟨v.kernel, none, 0, none, lastOpen⟩), none⟩) :
    wp (spec cfg true) (hvacRemoveFd cfg fd) Q ⟨some (fd, v), none⟩ := by
  simp only [hvacRemoveFd, hvacRemoteClose, hvacClientCommGenCloseRpc, wp_bind,
    wp_hvacFileTracked, hpath, Option.isSome_some, if_true, wp_fdMapEntry hpath, wp_hasRemoteFd]
  by_cases hredir : v.redir = 0
  · simpa [hredir] using hQ v.lastOpen
  · have htarget := hv.targets hredir hpath
    simp [hredir, htarget, hQ]

theorem closeWrapper_spec (hv : Consistent cfg v) :
    wp (spec cfg true) (closeWrapper cfg fd) (fun _ l => l = ⟨none, none⟩)
      ⟨some (fd, v), none⟩ := by
  simp only [closeWrapper, wp_bind, wp_hvacGetPath]
  cases hpath : v.path with
  | none =>
      obtain ⟨hredir, hstate⟩ := hv.no_entries hpath
      have hclosed : Consistent cfg { v with kernel := none } := by
        simpa [hpath, hredir, hstate] using consistent_of_no_entries
      simpa using hclosed
  | some path =>
      simp only [Option.isSome_some, if_true, wp_bind]
      refine wp_hvacRemoveFd hv hpath fun lastOpen => ?_
      simpa using consistent_of_no_entries

/-! ## Opening -/

/-- The open request of a new incarnation leaves the descriptor ready with the
status as its mapping, or failed without one. -/
theorem wp_hvacClientCommGenOpenRpc {path : Path} (hpath : v.path = some path)
    (hkernel : v.kernel.isSome = true) (hredir : v.redir = 0) (hnew : Unopened v)
    {Q : Int → Local → Prop}
    (hQ : ∀ r v', Consistent cfg v' → Q r ⟨some (fd, v'), none⟩) :
    wp (spec cfg true) (hvacClientCommGenOpenRpc (cfg.host path) path fd) Q
      ⟨some (fd, v), none⟩ := by
  simp only [hvacClientCommGenOpenRpc, wp_bind, wp_fdStateSet, wp_forward_openFile]
  refine ⟨⟨trivial, hnew⟩, ?_, ?_⟩
  · simp only [if_true, hvacOpenCb, wp_bind]
    refine (wp_openOutput rfl).mpr fun status => ?_
    by_cases hstatus : 0 < status
    · simp only [hstatus, if_true, wp_bind, wp_fdRedirMapSet, wp_fdStateUpdate, wp_pure]
      refine hQ _ _ ?_
      constructor <;> simp [hpath, hkernel, hstatus, hstatus.ne']
    · simp only [hstatus, if_false, wp_bind, wp_fdStateUpdate, wp_pure]
      refine hQ _ _ ?_
      constructor <;> simp [hpath, hkernel, hredir]
  · simp only [Bool.false_eq_true, if_false, wp_bind, wp_fdStateUpdate, wp_pure]
    refine hQ _ _ ?_
    constructor <;> simp [hpath, hkernel, hredir]

/-- The path is recorded, or nothing happens. -/
theorem wp_selectPath {path : Path} {Q : Bool → Local → Prop}
    (hset : ∀ p, Q true ⟨some (fd, { v with path := some p }), none⟩)
    (hskip : Q false ⟨some (fd, v), none⟩) :
    wp (spec cfg true) (selectPath cfg path fd) Q ⟨some (fd, v), none⟩ := by
  have hrecord : wp (spec cfg true) (recordPath path fd) Q ⟨some (fd, v), none⟩ := by
    simp only [recordPath, wp_bind]
    refine wp_canonical.mpr fun r => ?_
    cases r with
    | none => exact hskip
    | some p => simpa using hset p
  simp only [selectPath, wp_bind]
  refine wp_canonical.mpr fun r => ?_
  cases r with
  | none => exact hskip
  | some p =>
      cases cfg.hvacDataDir with
      | some dataDir =>
          simp only [wp_bind]
          refine wp_canonical.mpr fun test => ?_
          cases test with
          | none => exact hskip
          | some test =>
              by_cases hin : test <:+: parentPath p
              · simpa [hin] using hrecord
              · simpa [hin] using hskip
      | none =>
          simp only [wp_bind]
          refine wp_currentPath.mpr fun cwd => ?_
          cases cwd with
          | none => exact hskip
          | some cwd =>
              by_cases hin : parentPath p = cwd
              · simpa [hin] using hrecord
              · simpa [hin] using hskip

/-- Tracked or not, a new descriptor is at rest afterwards. -/
theorem wp_hvacTrackFile {path : Path} {flags : Nat} (hv : Consistent cfg { v with kernel := none })
    (hkernel : v.kernel.isSome = true) (hnew : Unopened v) {Q : Bool → Local → Prop}
    (hQ : ∀ r v', Consistent cfg v' → Q r ⟨some (fd, v'), none⟩) :
    wp (spec cfg true) (hvacTrackFile cfg path flags fd) Q ⟨some (fd, v), none⟩ := by
  have hpath : v.path = none := by
    cases hpath : v.path with
    | none => rfl
    | some p => simpa using hv.kernelOpen (by simp [hpath])
  obtain ⟨hredir, hstate⟩ := hv.no_entries hpath
  have hrest : Consistent cfg v := by
    obtain ⟨kernel, path, redir, state, lastOpen⟩ := v
    obtain rfl : path = none := hpath
    obtain rfl : redir = 0 := hredir
    obtain rfl : state = none := hstate
    exact consistent_of_no_entries
  unfold hvacTrackFile
  split
  · exact hQ _ _ hrest
  split
  · exact hQ _ _ hrest
  split
  · exact hQ _ _ hrest
  simp only [wp_bind]
  refine wp_selectPath (fun p => ?_) (by simpa using hQ _ _ hrest)
  simp only [if_true, wp_bind]
  refine (wp_fdMapEntry rfl).mpr ((wp_fdMapEntry rfl).mpr ?_)
  refine wp_hvacClientCommGenOpenRpc ?_ ?_ ?_ ?_ ?_
  · rfl
  · exact hkernel
  · exact hredir
  · exact hnew
  · exact fun r v' hv' => hQ _ _ hv'

theorem openWrapper_spec (path : Path) (flags : Nat) :
    wp (spec cfg true) (openWrapper cfg path flags) (fun _ => AtRest cfg) ⟨none, none⟩ := by
  simp only [openWrapper, wp_bind]
  refine wp_realOpen.mpr ⟨⟨rfl, by rintro _ _ ⟨⟩⟩, fun fd v i hkernel hnew hv => ?_⟩
  simp only [wp_bind]
  refine wp_hvacTrackFile hv (by simp [hkernel]) hnew fun _ v' hv' => ?_
  exact ⟨rfl, by rintro _ _ ⟨⟩; exact hv'⟩

/-! ## All calls -/

/-- A call that starts on a descriptor at rest performs only allowed operations,
and leaves a descriptor at rest. -/
theorem call_spec (c : Call) (v : Int → View) (hv : ∀ fd, c.fd = some fd → Consistent cfg (v fd)) :
    wp (spec cfg c.exclusive) (c.code cfg) (fun _ => AtRest cfg)
      ⟨c.fd.map fun fd => (fd, v fd), none⟩ := by
  cases c with
  | openFile path flags => exact openWrapper_spec path flags
  | read fd count =>
      refine wp_mono (fun _ l hl => ?_) (readWrapper_spec (hv fd rfl) count)
      rw [hl]
      exact ⟨rfl, by rintro _ _ ⟨⟩; exact hv fd rfl⟩
  | pread fd count offset =>
      refine wp_mono (fun _ l hl => ?_) (preadWrapper_spec (hv fd rfl) count offset)
      rw [hl]
      exact ⟨rfl, by rintro _ _ ⟨⟩; exact hv fd rfl⟩
  | close fd =>
      refine wp_mono (fun _ l hl => ?_) (closeWrapper_spec (hv fd rfl))
      rw [hl]
      exact ⟨rfl, by rintro _ _ ⟨⟩⟩

/-- Without exclusive access no operation changes the view. -/
theorem Allowed.view_unchanged {o : Op} {r : o.Res} (h : Allowed cfg false v awaiting o)
    (hr : v.Answers o r) : v.after o r = v := by
  cases o with
  | fdMapEntry fd =>
      obtain ⟨path, hpath⟩ := Option.isSome_iff_exists.mp h.2
      obtain ⟨kernel, path', redir, state, lastOpen⟩ := v
      obtain rfl : path' = some path := hpath
      rfl
  | forward fd host req =>
      cases req with
      | openFile path => cases h.2.1
      | read req => rfl
      | close rfd => cases h.2.1
  | openOutput fd => cases h.1
  | fdMapSet | fdMapErase | fdRedirMapSet | fdRedirMapErase | fdStateSet | fdStateUpdate
  | fdStateErase => cases h.2
  | realClose fd => cases h.2.1
  | _ => rfl

end MtHvac.Client
