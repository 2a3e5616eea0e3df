-- SUMMARY: The client's RPC functions with what they acquire from Mercury and the heap: they erase to the client's programs, and which calls release it all.
import MtHvac.Client.Program

/-!
# The RPC functions of the client

`hvac_client_comm_gen_open_rpc` and its siblings, with the addresses, RPC handles,
bulk handles and heap blocks that they take, and with `hvac_seek_cb`, `hvac_open_cb`
and `hvac_read_cb` where the caller waits. Without these resources they are the
programs of `MtHvac.Client.Program`.

Mercury's functions succeed, except for `HG_Forward`. A failing assertion ends the
process: no operation follows it.
-/

namespace MtHvac.Client.Rpc

open Base

/-! ## Operations -/

/-- `hvac_seek_in_t`. -/
structure HvacSeekIn where
  fd : Int
  offset : Int
  whence : Int
deriving DecidableEq

/-- References and blocks are named by numbers; the address of a server that is not
in the list of addresses is `NULL`. -/
inductive RpcOp where
  | client (o : Op)
  /-- `hvac_client_comm_lookup_addr`, which calls `HG_Addr_lookup2`. -/
  | lookupAddr (svrHash : Int)
  | freeAddr (addr : Option Nat)
  /-- `HG_Create` in `hvac_comm_create_handle`. -/
  | createHandle (addr : Option Nat)
  | destroy (handle : Nat)
  | bulkCreate (size : Nat)
  | bulkFree (bulk : Nat)
  | malloc
  | free (block : Nat)
  /-- `HG_Forward` of a seek request. -/
  | forwardSeek (fd svrHash : Int) (req : HvacSeekIn)
  /-- Whether the completion that a callback is handed is `HG_SUCCESS`. -/
  | infoRet (fd : Int)
  /-- `HG_Get_output` in `hvac_seek_cb`: `none` leaves `out` as it was. -/
  | seekOutput (fd : Int)
  | assertFailed
deriving DecidableEq

abbrev RpcOp.Res : RpcOp → Type
  | .client o          => o.Res
  | .lookupAddr _      => Option Nat
  | .freeAddr _        => Unit
  | .createHandle _    => Nat
  | .destroy _         => Unit
  | .bulkCreate _      => Nat
  | .bulkFree _        => Unit
  | .malloc            => Nat
  | .free _            => Unit
  | .forwardSeek _ _ _ => Bool
  | .infoRet _         => Bool
  | .seekOutput _      => Option Int
  | .assertFailed      => Empty

def rpcOps : Interface where
  Op := RpcOp
  Res := RpcOp.Res

abbrev RpcCode := Program rpcOps

def rop (o : RpcOp) : RpcCode o.Res := @Program.perform rpcOps o

def client (o : Op) : RpcCode o.Res := rop (.client o)

def assertThat (c : Prop) [Decidable c] : RpcCode Unit := do
  if c then
    return ()
  else
    let e ← rop .assertFailed
    nomatch e

@[simp] theorem assertThat_of_true {c : Prop} [Decidable c] (h : c) :
    assertThat c = pure () := if_pos h

/-- An operation of the client's programs. The callbacks of an open and of a read
request assert success before they decode the output. -/
def answeredOp : (o : Op) → RpcCode o.Res
  | .openOutput fd => do
      assertThat ((← rop (.infoRet fd)) = true)
      client (.openOutput fd)
  | .readOutput fd => do
      assertThat ((← rop (.infoRet fd)) = true)
      client (.readOutput fd)
  | o => client o

def answered (o : ops.Op) : Program rpcOps (ops.Res o) := answeredOp o

/-- A program of the client over these operations. -/
def embed {α : Type} (p : Code α) : RpcCode α := Program.interpret answered p

@[simp] theorem embed_op (o : Op) : @embed (no_index _) (op o) = answeredOp o :=
  Program.bind_return (answered o)

@[simp] theorem embed_pure {α : Type} (a : α) : embed (pure a : Code α) = pure a := rfl

@[simp] theorem embed_bind {α β : Type} (p : Code α) (f : α → Code β) :
    embed (p >>= f) = embed p >>= fun a => embed (f a) :=
  Program.interpret_bind p f

@[simp] theorem embed_ite {α : Type} {c : Prop} [Decidable c] (p q : Code α) :
    embed (if c then p else q) = if c then embed p else embed q :=
  Program.interpret_ite p q

/-! ## Running the functions -/

section Running

variable {σ : Type} {H : Program.Handler rpcOps σ} {s : σ}

@[simp] theorem exec_rop {o : RpcOp} :
    @Program.exec rpcOps (no_index _) _ H (rop o) s = H.act o s :=
  @Program.exec_perform rpcOps _ H o s

@[simp] theorem exec_client {o : Op} :
    @Program.exec rpcOps (no_index _) _ H (client o) s = H.act (.client o) s :=
  exec_rop

@[simp] theorem exec_assertThat {c : Prop} [Decidable c] :
    Program.exec H (assertThat c) s = if c then some ((), s) else none := by
  by_cases h : c
  · simp [h]
  · rw [if_neg h, assertThat, if_neg h]
    -- nothing comes back from a failing assertion
    rcases hact : H.act .assertFailed s with _ | ⟨e, _⟩
    · exact congrArg (Option.bind · _) hact
    · exact nomatch e

/-- A program of the client runs under what the handler makes of its operations. -/
theorem exec_embed {H' : Program.Handler ops σ} (hH : H' = H.via answered) {α : Type} (p : Code α) :
    Program.exec H (embed p) s = Program.exec H' p s := by
  rw [hH]
  exact Program.exec_interpret p s

end Running

/-! ## The functions -/

def hvacOpenCb (localFd : Int) (handle : Nat) : RpcCode Int := do
  assertThat ((← rop (.infoRet localFd)) = true)
  let retStatus ← client (.openOutput localFd)
  if 0 < retStatus then
    client (.fdRedirMapSet localFd retStatus)
    client (.fdStateUpdate localFd .ready)
  else
    client (.fdStateUpdate localFd .error)
  rop (.destroy handle)
  return retStatus

def hvacClientCommGenOpenRpc (svrHash : Int) (path : Path) (fd : Int) : RpcCode Int := do
  client (.fdStateSet fd .opening)
  let svrAddr ← rop (.lookupAddr svrHash)
  let openState ← rop .malloc
  let handle ← rop (.createHandle svrAddr)
  let inPath ← rop .malloc
  if ← client (.forward fd svrHash (.openFile path)) then
    rop (.freeAddr svrAddr)
    let result ← hvacOpenCb fd handle
    rop (.free openState)
    rop (.free inPath)
    return result
  else
    client (.fdStateUpdate fd .error)
    rop (.free openState)
    rop (.free inPath)
    rop (.freeAddr svrAddr)
    return -1

def hvacReadCb (localfd : Int) (bulk handle state : Nat) : RpcCode Int := do
  assertThat ((← rop (.infoRet localfd)) = true)
  let bytesRead ← client (.readOutput localfd)
  rop (.bulkFree bulk)
  rop (.destroy handle)
  rop (.free state)
  return bytesRead

/-- The `buffer` is a pointer, `0` for `NULL`. -/
def hvacClientCommGenReadRpc (svrHash localfd : Int) (buffer count : Nat) (offset : Int) :
    RpcCode Int := do
  if ← embed (hvacWaitFdReady localfd) then
    if ← embed (hasRemoteFd localfd) then
      let svrAddr ← rop (.lookupAddr svrHash)
      let state ← rop .malloc
      assertThat (buffer ≠ 0)
      let handle ← rop (.createHandle svrAddr)
      let bulk ← rop (.bulkCreate (Word.toUInt64 (Word.toInt64 count)))
      let accessfd ← client (.fdRedirMapEntry localfd)
      if ← client (.forward localfd svrHash (.read (readRequest accessfd count offset))) then
        rop (.freeAddr svrAddr)
        hvacReadCb localfd bulk handle state
      else
        rop (.bulkFree bulk)
        rop (.destroy handle)
        rop (.free state)
        rop (.freeAddr svrAddr)
        return -1
    else
      client (.logNoMapping localfd)
      return -1
  else
    return -1

def hvacClientCommGenCloseRpc (svrHash fd : Int) : RpcCode Unit := do
  let svrAddr ← rop (.lookupAddr svrHash)
  let handle ← rop (.createHandle svrAddr)
  if ← embed (hasRemoteFd fd) then
    let remoteFd ← client (.fdRedirMapEntry fd)
    let _ ← client (.forward fd svrHash (.close remoteFd))
    client (.fdRedirMapErase fd)
  client (.fdStateErase fd)
  rop (.destroy handle)
  rop (.freeAddr svrAddr)

/-- The result is the value of `out`, which nothing sets if there is no output. -/
def hvacSeekCb (fd : Int) (handle : Nat) : RpcCode (Option Int) := do
  let bytesRead ← rop (.seekOutput fd)
  rop (.destroy handle)
  return bytesRead

def hvacClientCommGenSeekRpc (svrHash fd offset whence : Int) : RpcCode (Option Int) := do
  let svrAddr ← rop (.lookupAddr svrHash)
  let seekState ← rop .malloc
  let handle ← rop (.createHandle svrAddr)
  let remoteFd ← client (.fdRedirMapEntry fd)
  assertThat ((← rop (.forwardSeek fd svrHash ⟨remoteFd, offset, whence⟩)) = true)
  rop (.freeAddr svrAddr)
  let result ← hvacSeekCb fd handle
  rop (.free seekState)
  return result

/-- The offset is an `int`. -/
def hvacRemoteLseek (cfg : Config) (fd offset whence : Int) : RpcCode (Option Int) := do
  let offset := Word.toInt32 offset
  if ← embed (hvacFileTracked fd) then
    let host := cfg.host (← client (.fdMapEntry fd))
    hvacClientCommGenSeekRpc host fd offset whence
  else
    return some (-1)

/-! ## Without the resources -/

/-- The responses of the operations on resources, which no other operation depends on. -/
def RpcOp.silent : (o : RpcOp) → Option o.Res
  | .lookupAddr _   => some none
  | .freeAddr _     => some ()
  | .createHandle _ => some 0
  | .destroy _      => some ()
  | .bulkCreate _   => some 0
  | .bulkFree _     => some ()
  | .malloc         => some 0
  | .free _         => some ()
  | _               => none

def silent (o : rpcOps.Op) : Option (rpcOps.Res o) := RpcOp.silent o

section Erase

variable {α : Type}

@[simp] theorem erase_client (o : Op) :
    @Program.erase rpcOps (no_index _) silent (client o) = client o := rfl

@[simp] theorem erase_rop (o : RpcOp) :
    @Program.erase rpcOps (no_index _) silent (rop o) =
      match o.silent with
      | some r => pure r
      | none   => rop o := by
  cases o <;> rfl

@[simp] theorem erase_assertThat (c : Prop) [Decidable c] :
    Program.erase silent (assertThat c) = assertThat c := by
  unfold assertThat
  split
  · rfl
  · exact congrArg (@Program.call rpcOps Unit .assertFailed) (funext fun e => nomatch e)

/-- A program of the client takes no resources. -/
@[simp] theorem erase_embed (p : Code α) : Program.erase silent (embed p) = embed p := by
  induction p with
  | ret a => rfl
  | call o k ih =>
      have hop : @Program.erase rpcOps (no_index _) silent (answeredOp o) = answeredOp o := by
        cases o <;> simp [answeredOp, RpcOp.silent]
      have hcall : embed (.call o k) = answeredOp o >>= fun r => embed (k r) := rfl
      rw [hcall, Program.erase_bind, hop]
      exact congrArg (answeredOp o >>= ·) (funext ih)

theorem erase_openRpc (svrHash : Int) (path : Path) (fd : Int) :
    Program.erase silent (hvacClientCommGenOpenRpc svrHash path fd) =
      embed (Client.hvacClientCommGenOpenRpc svrHash path fd) := by
  simp [hvacClientCommGenOpenRpc, Client.hvacClientCommGenOpenRpc, answeredOp, RpcOp.silent,
    hvacOpenCb, Client.hvacOpenCb, Program.assoc]

/-- A read into a buffer, which the function asserts. -/
theorem erase_readRpc (svrHash localfd : Int) {buffer : Nat} (hbuffer : buffer ≠ 0) (count : Nat)
    (offset : Int) :
    Program.erase silent (hvacClientCommGenReadRpc svrHash localfd buffer count offset) =
      embed (Client.hvacClientCommGenReadRpc svrHash localfd count offset) := by
  simp [hvacClientCommGenReadRpc, Client.hvacClientCommGenReadRpc, answeredOp, RpcOp.silent,
    hvacReadCb, hbuffer]

theorem erase_closeRpc (svrHash fd : Int) :
    Program.erase silent (hvacClientCommGenCloseRpc svrHash fd) =
      embed (Client.hvacClientCommGenCloseRpc svrHash fd) := by
  have hunit : ∀ p : RpcCode Unit, (p >>= fun _ => pure ()) = p := Program.bind_return
  simp [hvacClientCommGenCloseRpc, Client.hvacClientCommGenCloseRpc, answeredOp, RpcOp.silent, hunit]

end Erase

/-! ## Resources -/

/-- A reference to an address, an RPC handle or a bulk handle, or a heap block. -/
inductive Resource where
  | addr (addr : Nat)
  | handle (handle : Nat)
  | bulk (bulk : Nat)
  | block (block : Nat)
deriving DecidableEq

def RpcOp.acquired : (o : RpcOp) → o.Res → List Resource
  | .lookupAddr _, addr     => addr.toList.map .addr
  | .createHandle _, handle => [.handle handle]
  | .bulkCreate _, bulk     => [.bulk bulk]
  | .malloc, block          => [.block block]
  | _, _                    => []

def RpcOp.released : RpcOp → List Resource
  | .freeAddr addr  => addr.toList.map .addr
  | .destroy handle => [.handle handle]
  | .bulkFree bulk  => [.bulk bulk]
  | .free block     => [.block block]
  | _               => []

/-- `HG_Forward` of an open request fails. -/
def RpcOp.openFails : (o : RpcOp) → o.Res → Bool
  | .client (.forward _ _ (.openFile _)), sent => !sent
  | _, _                                       => false

/-- What has been acquired and released, and whether an open request was not sent. -/
structure Ledger where
  acquired : List Resource
  released : List Resource
  openFailed : Bool
deriving DecidableEq

def Ledger.empty : Ledger := ⟨[], [], false⟩

def Ledger.perform (l : Ledger) (o : RpcOp) (r : o.Res) : Ledger where
  acquired := o.acquired r ++ l.acquired
  released := o.released ++ l.released
  openFailed := o.openFails r || l.openFailed

def Ledger.record (l : Ledger) (x : Program.Performed rpcOps) : Ledger := l.perform x.1 x.2

abbrev Trace := List (Program.Performed rpcOps)

def ledger (tr : Trace) : Ledger := tr.foldl Ledger.record .empty

/-- Every resource has been released as often as it was acquired. -/
def Ledger.Balanced (l : Ledger) : Prop := l.acquired.Perm l.released

instance (l : Ledger) : Decidable l.Balanced := inferInstanceAs (Decidable (List.Perm _ _))

@[simp] theorem Ledger.count_acquired (l : Ledger) (o : RpcOp) (r : o.Res) (x : Resource) :
    (l.perform o r).acquired.count x = (o.acquired r).count x + l.acquired.count x :=
  List.count_append

@[simp] theorem Ledger.count_released (l : Ledger) (o : RpcOp) (r : o.Res) (x : Resource) :
    (l.perform o r).released.count x = o.released.count x + l.released.count x :=
  List.count_append

theorem Ledger.balanced_of_count {l : Ledger}
    (h : ∀ x, l.acquired.count x = l.released.count x) : l.Balanced :=
  List.perm_iff_count.mpr h

/-! ## Which calls release what they acquire -/

section Balance

variable {α : Type} {Q : α → Ledger → Prop} {l : Ledger}

abbrev after {α : Type} (p : RpcCode α) (Q : α → Ledger → Prop) (l : Ledger) : Prop :=
  Program.wp (Program.recording Ledger.record) p Q l

@[simp] theorem after_rop {o : RpcOp} {Q : o.Res → Ledger → Prop} :
    @Program.wp rpcOps (no_index _) _ (Program.recording Ledger.record) (rop o) Q l ↔
      ∀ r : o.Res, Q r (l.perform o r) :=
  @Program.wp_recording_call rpcOps _ _ Ledger.record o .ret Q l

@[simp] theorem after_client {o : Op} {Q : o.Res → Ledger → Prop} :
    @Program.wp rpcOps (no_index _) _ (Program.recording Ledger.record) (client o) Q l ↔
      ∀ r : o.Res, Q r (l.perform (.client o) r) :=
  @Program.wp_recording_call rpcOps _ _ Ledger.record (.client o) .ret Q l

/-- Nothing runs behind a failing assertion. -/
@[simp] theorem after_assertThat {c : Prop} [Decidable c] {Q : Unit → Ledger → Prop} :
    Program.wp (Program.recording Ledger.record) (assertThat c) Q l ↔ (c → Q () l) := by
  by_cases h : c
  · simp [h]
  · simp only [h, false_imp_iff, iff_true, assertThat, if_false]
    exact ⟨trivial, fun e => nomatch e⟩

theorem after_waitFdReady {fd : Int} {Q : Bool → Ledger → Prop} (h : ∀ ready, Q ready l) :
    after (embed (hvacWaitFdReady fd)) Q l := by
  simp only [hvacWaitFdReady, embed_bind, embed_op, answeredOp, Program.wp_bind, after_client]
  intro state
  rcases state with _ | _ | _ | _
  · exact h false
  · exact after_client.mpr h
  · exact h true
  · exact h false

theorem after_hasRemoteFd {fd : Int} {Q : Bool → Ledger → Prop} (h : ∀ found, Q found l) :
    after (embed (hasRemoteFd fd)) Q l := by
  simp only [hasRemoteFd, embed_bind, embed_op, answeredOp, Program.wp_bind, after_client]
  intro remoteFd
  cases remoteFd with
  | none => exact h false
  | some _ =>
      simp only [embed_bind, embed_op, answeredOp, Program.wp_bind, after_client]
      exact fun _ => h _

/-- The callback of an open request destroys the handle. -/
theorem after_openCb {localFd : Int} {handle : Nat} {Q : Int → Ledger → Prop}
    (h : ∀ status, Q status (l.perform (.destroy handle) ())) :
    after (hvacOpenCb localFd handle) Q l := by
  simp only [hvacOpenCb, Program.wp_bind, after_rop, after_client, after_assertThat]
  intro _ _ status
  split
  · simp only [Program.wp_bind, after_rop, after_client]
    exact fun _ _ _ => h status
  · simp only [Program.wp_bind, after_rop, after_client]
    exact fun _ _ => h status

theorem after_openRpc (svrHash : Int) (path : Path) (fd : Int) :
    after (hvacClientCommGenOpenRpc svrHash path fd)
      (fun _ l => l.Balanced ↔ l.openFailed = false) .empty := by
  simp only [hvacClientCommGenOpenRpc, Program.wp_bind, after_rop, after_client]
  intro _ addr state handle inPath sent
  cases sent with
  | true =>
      simp only [if_true, Program.wp_bind, after_rop]
      intro _
      apply after_openCb
      intro status _ _
      refine iff_of_true (Ledger.balanced_of_count fun x => ?_) rfl
      simp [RpcOp.acquired, RpcOp.released, Ledger.empty, List.count_cons]
      omega
  | false =>
      simp only [Bool.false_eq_true, if_false, Program.wp_bind, after_rop, after_client]
      intro _ _ _ _
      refine iff_of_false (fun h => ?_) (by rintro ⟨⟩)
      -- the handle has not been destroyed
      have hlen := List.Perm.length_eq h
      simp only [Ledger.perform, RpcOp.acquired, RpcOp.released, Ledger.empty, List.length_append,
        List.length_cons, List.length_nil] at hlen
      omega

theorem after_readRpc (svrHash localfd : Int) (buffer count : Nat) (offset : Int) :
    after (hvacClientCommGenReadRpc svrHash localfd buffer count offset)
      (fun _ l => l.Balanced ∧ l.openFailed = false) .empty := by
  simp only [hvacClientCommGenReadRpc, Program.wp_bind]
  apply after_waitFdReady
  intro ready
  cases ready with
  | false => exact ⟨.nil, rfl⟩
  | true =>
      simp only [if_true, Program.wp_bind]
      apply after_hasRemoteFd
      intro found
      cases found with
      | false =>
          simp only [Bool.false_eq_true, if_false, Program.wp_bind, after_client]
          exact fun _ => ⟨.nil, rfl⟩
      | true =>
          simp only [if_true, Program.wp_bind, after_rop, after_client, after_assertThat]
          intro addr state _ handle bulk _ sent
          cases sent with
          | true =>
              simp only [if_true, hvacReadCb, Program.wp_bind, after_rop, after_client,
                after_assertThat]
              intro _ _ _ _ _ _ _
              refine ⟨Ledger.balanced_of_count fun x => ?_, rfl⟩
              simp [RpcOp.acquired, RpcOp.released, Ledger.empty, List.count_cons]
              omega
          | false =>
              simp only [Bool.false_eq_true, if_false, Program.wp_bind, after_rop]
              intro _ _ _ _
              refine ⟨Ledger.balanced_of_count fun x => ?_, rfl⟩
              simp [RpcOp.acquired, RpcOp.released, Ledger.empty, List.count_cons]
              omega

theorem after_closeRpc (svrHash fd : Int) :
    after (hvacClientCommGenCloseRpc svrHash fd)
      (fun _ l => l.Balanced ∧ l.openFailed = false) .empty := by
  simp only [hvacClientCommGenCloseRpc, Program.wp_bind, after_rop]
  intro addr handle
  apply after_hasRemoteFd
  intro found
  cases found with
  | true =>
      simp only [if_true, Program.wp_bind, after_rop, after_client]
      intro _ _ _ _ _ _
      refine ⟨Ledger.balanced_of_count fun x => ?_, rfl⟩
      simp [RpcOp.acquired, RpcOp.released, Ledger.empty, List.count_cons]
      omega
  | false =>
      simp only [Bool.false_eq_true, if_false, Program.wp_bind, after_rop, after_client]
      intro _ _ _
      refine ⟨Ledger.balanced_of_count fun x => ?_, rfl⟩
      simp [RpcOp.acquired, RpcOp.released, Ledger.empty, List.count_cons]
      omega

theorem after_seekRpc (svrHash fd offset whence : Int) :
    after (hvacClientCommGenSeekRpc svrHash fd offset whence)
      (fun _ l => l.Balanced ∧ l.openFailed = false) .empty := by
  simp only [hvacClientCommGenSeekRpc, hvacSeekCb, Program.wp_bind, after_rop, after_client,
    after_assertThat]
  intro addr state handle _ _ _ _ _ _ _
  refine ⟨Ledger.balanced_of_count fun x => ?_, rfl⟩
  simp [RpcOp.acquired, RpcOp.released, Ledger.empty, List.count_cons]
  omega

end Balance

/-- A call of one of the four functions. -/
inductive RpcCall where
  | openFile (path : Path)
  | read (buffer count : Nat) (offset : Int)
  | close
  | seek (offset whence : Int)
deriving DecidableEq

def RpcCall.code (svrHash fd : Int) : RpcCall → RpcCode Unit
  | .openFile path            => do let _ ← hvacClientCommGenOpenRpc svrHash path fd
  | .read buffer count offset => do let _ ← hvacClientCommGenReadRpc svrHash fd buffer count offset
  | .close                    => hvacClientCommGenCloseRpc svrHash fd
  | .seek offset whence       => do let _ ← hvacClientCommGenSeekRpc svrHash fd offset whence

/-- A call that has finished with its callback has released what it acquired exactly
if no `HG_Forward` of an open request has failed in it. -/
theorem balanced_iff {c : RpcCall} {svrHash fd : Int} {tr : Trace}
    (h : Program.Runs (c.code svrHash fd) tr ()) :
    (ledger tr).Balanced ↔ (ledger tr).openFailed = false := by
  have hafter : after (c.code svrHash fd) (fun _ l => l.Balanced ↔ l.openFailed = false) .empty := by
    cases c with
    | openFile path =>
        simp only [RpcCall.code, Program.wp_bind]
        exact after_openRpc svrHash path fd
    | read buffer count offset =>
        simp only [RpcCall.code, Program.wp_bind]
        exact Program.wp_mono (fun _ l hl => iff_of_true hl.1 hl.2)
          (after_readRpc svrHash fd buffer count offset)
    | close =>
        exact Program.wp_mono (fun _ l hl => iff_of_true hl.1 hl.2) (after_closeRpc svrHash fd)
    | seek offset whence =>
        simp only [RpcCall.code, Program.wp_bind]
        exact Program.wp_mono (fun _ l hl => iff_of_true hl.1 hl.2)
          (after_seekRpc svrHash fd offset whence)
  exact Program.wp_recording_iff.mp hafter tr () h

/-- The open request for the file `/` is sent, and answered with the status `7`. -/
def openAnswered : Trace :=
  [⟨.client (.fdStateSet 3 .opening), ()⟩, ⟨.lookupAddr 0, some 1⟩, ⟨.malloc, (10 : Nat)⟩,
    ⟨.createHandle (some 1), (2 : Nat)⟩, ⟨.malloc, (11 : Nat)⟩,
    ⟨.client (.forward 3 0 (.openFile ['/'])), true⟩, ⟨.freeAddr (some 1), ()⟩, ⟨.infoRet 3, true⟩,
    ⟨.client (.openOutput 3), (7 : Int)⟩, ⟨.client (.fdRedirMapSet 3 7), ()⟩,
    ⟨.client (.fdStateUpdate 3 .ready), ()⟩, ⟨.destroy 2, ()⟩, ⟨.free 10, ()⟩, ⟨.free 11, ()⟩]

/-- It is not sent. -/
def openUnsent : Trace :=
  [⟨.client (.fdStateSet 3 .opening), ()⟩, ⟨.lookupAddr 0, some 1⟩, ⟨.malloc, (10 : Nat)⟩,
    ⟨.createHandle (some 1), (2 : Nat)⟩, ⟨.malloc, (11 : Nat)⟩,
    ⟨.client (.forward 3 0 (.openFile ['/'])), false⟩, ⟨.client (.fdStateUpdate 3 .error), ()⟩,
    ⟨.free 10, ()⟩, ⟨.free 11, ()⟩, ⟨.freeAddr (some 1), ()⟩]

theorem runs_openAnswered :
    Program.Runs (RpcCall.code 0 3 (.openFile ['/'])) openAnswered () := by
  repeat' (first | exact .ret | apply Program.Runs.call)

theorem runs_openUnsent :
    Program.Runs (RpcCall.code 0 3 (.openFile ['/'])) openUnsent () := by
  repeat' (first | exact .ret | apply Program.Runs.call)

theorem balanced_openAnswered : (ledger openAnswered).acquired.length = 4 ∧
    (ledger openAnswered).Balanced :=
  ⟨by decide, (balanced_iff runs_openAnswered).mpr (by decide)⟩

/-- The handle of an open request that is not sent is never destroyed. -/
theorem handle_leaked_openUnsent :
    ¬ ∀ (c : RpcCall) (svrHash fd : Int) (tr : Trace),
      Program.Runs (c.code svrHash fd) tr () → (ledger tr).Balanced := by
  intro h
  exact absurd (h _ _ _ _ runs_openUnsent) (by decide)

end MtHvac.Client.Rpc
