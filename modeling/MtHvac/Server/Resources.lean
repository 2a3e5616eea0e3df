-- SUMMARY: What the server's handlers take and give back over whole runs: every request leaves something behind, and what it is.
import Mathlib.Data.List.Perm.Basic
import MtHvac.Base.Machine
import MtHvac.Server.Handlers

/-!
# Resources of the server

Mercury hands an RPC handle to a handler, which owns it until `HG_Destroy`, and a
decoded input is alive until `HG_Free_input`. A run is a sequence of requests and of
bulk callbacks, which the progress thread handles one after the other; each carries
what its operations were and what they responded.
-/

namespace MtHvac.Server.Resources

open Base Handlers

/-! ## The ledger -/

inductive Resource where
  | handle (handle : Nat)
  /-- What `HG_Get_input` has allocated for the request of a handle. -/
  | input (handle : Nat)
  | bulk (bulk : Nat)
  | block (block : Nat)
deriving DecidableEq

def acquired : (o : HandlerOp) → o.Res → List Resource
  | .getInput _ handle, input             => input.toList.map fun _ => .input handle
  | .getPrintStatsInput handle, isDecoded => if isDecoded then [.input handle] else []
  | .malloc, block                        => [.block block]
  | .calloc _, buffer                     => buffer.toList.map .block
  | .bulkCreate _ _, bulk                 => bulk.toList.map .bulk
  | _, _                                  => []

def released : HandlerOp → List Resource
  | .freeInput handle => [.input handle]
  | .destroy handle   => [.handle handle]
  | .bulkFree bulk    => [.bulk bulk]
  | .free block       => [.block block]
  | _                 => []

/-- A transfer that is in progress, with the state that its callback is handed. -/
def started : (o : HandlerOp) → o.Res → List HvacRpcState
  | .bulkTransfer state, isStarted => if isStarted then [state] else []
  | _, _                           => []

/-- What has been acquired and released, and the transfers in progress. -/
structure Ledger where
  acquired : List Resource
  released : List Resource
  pending : List HvacRpcState
deriving DecidableEq

def Ledger.empty : Ledger := ⟨[], [], []⟩

def Ledger.perform (l : Ledger) (o : HandlerOp) (r : o.Res) : Ledger where
  acquired := Resources.acquired o r ++ l.acquired
  released := Resources.released o ++ l.released
  pending := started o r ++ l.pending

abbrev Operation := Program.Performed handlerOps

def responded (o : HandlerOp) (r : o.Res) : Operation := ⟨o, r⟩

def Ledger.record (l : Ledger) (x : Operation) : Ledger := l.perform x.1 x.2

/-- Every resource has been released as often as it was acquired. -/
def Ledger.Balanced (l : Ledger) : Prop := l.acquired.Perm l.released

instance (l : Ledger) : Decidable l.Balanced := inferInstanceAs (Decidable (List.Perm _ _))

/-! ## Runs -/

inductive Event where
  | request (kind : RequestKind) (handle : Nat) (ops : List Operation)
  | bulkDone (state : HvacRpcState) (ops : List Operation)

/-- A handler owns the handle from the start; a callback is handed the state of its transfer. -/
def step (l : Ledger) : Event → Option Ledger
  | .request kind handle ops =>
      ((kind.handler handle).replay ops).map fun _ =>
        ops.foldl Ledger.record { l with acquired := .handle handle :: l.acquired }
  | .bulkDone state ops =>
      if state ∈ l.pending then
        ((Handlers.hvacRpcHandlerBulkCb state).replay ops).map fun _ =>
          ops.foldl Ledger.record { l with pending := l.pending.erase state }
      else none

def machine : Machine Ledger Event where
  init := .empty
  step := step

/-- The requests of a run, with their handles. -/
def requests : List Event → List (RequestKind × Nat)
  | []                           => []
  | .request kind handle _ :: es => (kind, handle) :: requests es
  | .bulkDone _ _ :: es          => requests es

theorem requests_append (es es' : List Event) :
    requests (es ++ es') = requests es ++ requests es' := by
  induction es with
  | nil => rfl
  | cons e es ih => cases e <;> simp [requests, ih]

/-! ## What a handler takes and gives back -/

section After

variable {l : Ledger} {handle : Nat}

abbrev after {α : Type} (p : HandlerCode α) (Q : α → Ledger → Prop) (l : Ledger) : Prop :=
  Program.wp (Program.recording Ledger.record) p Q l

@[simp] theorem after_hop {o : HandlerOp} {Q : o.Res → Ledger → Prop} :
    @Program.wp handlerOps (no_index _) _ (Program.recording Ledger.record) (hop o) Q l ↔
      ∀ r : o.Res, Q r (l.perform o r) :=
  @Program.wp_recording_call handlerOps _ _ Ledger.record o .ret Q l

/-- Nothing runs behind a failing assertion. -/
@[simp] theorem after_abort {α : Type} {Q : α → Ledger → Prop} :
    Program.wp (Program.recording Ledger.record) (abort : HandlerCode α) Q l := by
  refine ⟨trivial, ?_⟩
  rintro ⟨⟩

@[simp] theorem after_undefined {α : Type} {Q : α → Ledger → Prop} :
    Program.wp (Program.recording Ledger.record) (undefined : HandlerCode α) Q l := by
  refine ⟨trivial, ?_⟩
  rintro ⟨⟩

@[simp] theorem after_assertThat {c : Prop} [Decidable c] {Q : Unit → Ledger → Prop} :
    Program.wp (Program.recording Ledger.record) (assertThat c) Q l ↔ (c → Q () l) := by
  by_cases h : c
  · simp [h]
  · simp [assertThat, h]

@[simp] theorem after_assertSome {α : Type} {r : Option α} {Q : α → Ledger → Prop} :
    Program.wp (Program.recording Ledger.record) (assertSome r) Q l ↔ ∀ a, r = some a → Q a l := by
  cases r <;> simp [assertSome]

theorem after_redirected {path : Path} {Q : Path → Ledger → Prop} (h : ∀ p, Q p l) :
    after (redirected path) Q l := by
  simp only [redirected, Program.wp_bind, after_hop]
  intro found
  split
  · simp only [Program.wp_bind, after_hop]
    exact fun _ p => h p
  · exact h path

theorem after_pushUncached {fd : Int} {Q : Unit → Ledger → Prop} (h : Q () l) :
    after (pushUncached fd) Q l := by
  simp only [pushUncached, Program.wp_bind, after_hop]
  intro path found
  split
  · exact h
  · simp only [pushClosed, Program.wp_bind, after_hop]
    simpa only [Ledger.perform, acquired, released, started, List.nil_append] using
      fun _ _ _ _ _ _ => h

theorem after_readRequested {input : HvacRpcIn} {buffer size : Nat} {Q : Int → Ledger → Prop}
    (h : ∀ n, Q n l) : after (readRequested input buffer size) Q l := by
  unfold readRequested
  split
  · exact after_hop.mpr h
  · exact after_hop.mpr h

/-- The handlers of open, seek and close requests keep the handle and the input. -/
theorem after_openHandler :
    after (hvacOpenRpcHandler handle)
      (fun _ l' => l' = { l with acquired := .input handle :: l.acquired }) l := by
  simp only [hvacOpenRpcHandler, Program.wp_bind, after_hop, after_assertSome]
  rintro _ path rfl
  exact after_redirected fun redirPath _ _ _ => rfl

theorem after_closeHandler :
    after (hvacCloseRpcHandler handle)
      (fun _ l' => l' = { l with acquired := .input handle :: l.acquired }) l := by
  simp only [hvacCloseRpcHandler, Program.wp_bind, after_hop, after_assertSome, after_assertThat]
  rintro _ fd rfl _ _
  exact after_pushUncached fun _ => rfl

theorem after_seekHandler :
    after (hvacSeekRpcHandler handle)
      (fun _ l' => l' = { l with acquired := .input handle :: l.acquired }) l := by
  simp only [hvacSeekRpcHandler, Program.wp_bind, after_hop, after_assertSome]
  rintro _ input rfl
  exact fun _ _ => rfl

/-- What the state of a read holds while its transfer is in progress. -/
def held (state : HvacRpcState) : List Resource :=
  [.block state.block, .block state.buffer, .bulk state.bulkHandle, .handle state.handle]

/-- The handler of a read request leaves all it has taken to the callback, except for the input. -/
theorem after_readHandler :
    after (Handlers.hvacRpcHandler handle)
      (fun _ l' => ∃ state : HvacRpcState, state.handle = handle ∧
        l' = { l with
          acquired := .bulk state.bulkHandle :: .block state.buffer :: .input handle ::
            .block state.block :: l.acquired
          pending := state :: l.pending }) l := by
  simp only [Handlers.hvacRpcHandler, Program.wp_bind, after_hop, after_assertSome,
    after_assertThat]
  intro block input
  cases input with
  | none => exact after_undefined
  | some input =>
      rintro buffer? buffer rfl _ _ bulk? bulk rfl
      refine after_readRequested ?_
      rintro readbytes _ _ rfl
      exact ⟨⟨block, Word.toUInt64 readbytes, buffer, bulk, handle, input⟩, rfl, rfl⟩

/-- The callback gives back what the state of the read holds. -/
theorem after_bulkCb (l : Ledger) (state : HvacRpcState) :
    after (Handlers.hvacRpcHandlerBulkCb state)
      (fun _ l' => l' = { l with
        released := .block state.block :: .block state.buffer :: .handle state.handle ::
          .bulk state.bulkHandle :: l.released }) l := by
  simp only [Handlers.hvacRpcHandlerBulkCb, Program.wp_bind, after_hop, after_assertThat]
  exact fun _ _ _ _ _ _ _ _ => rfl

/-- The handler for the statistics frees its input, even one that it could not decode. -/
theorem after_printStatsHandler :
    after (hvacTriggerSrvPrintStatsHandler handle)
      (fun _ l' => ∃ isDecoded : Bool, l' = { l with
        acquired := (if isDecoded then [.input handle] else []) ++ l.acquired
        released := .input handle :: l.released }) l := by
  simp only [hvacTriggerSrvPrintStatsHandler, Program.wp_bind, after_hop]
  intro isDecoded
  refine Program.wp_mono (fun _ _ h => ⟨isDecoded, h⟩) ?_
  cases isDecoded with
  | true =>
      simp only [if_true, Program.wp_bind, after_hop]
      exact fun _ _ _ => rfl
  | false =>
      simp only [Bool.false_eq_true, if_false, Program.wp_bind, after_hop]
      exact fun _ _ => rfl

end After

/-! ## What a run leaves behind -/

/-- What nobody gives back after a request. -/
def leaked : RequestKind × Nat → List Resource
  | (.read, handle) => [.input handle]
  | (_, handle)     => [.handle handle, .input handle]

/-- A handler passes what it owns and takes on to a transfer, except for what is leaked. -/
theorem after_handler (l : Ledger) (kind : RequestKind) (handle : Nat) :
    after (kind.handler handle)
      (fun _ l' => ∃ taken new,
        l' = { l with acquired := taken ++ l.acquired, pending := new ++ l.pending } ∧
          (.handle handle :: taken).Perm (new.flatMap held ++ leaked (kind, handle))) l := by
  have hkept : ∀ l' : Ledger, l' = { l with acquired := .input handle :: l.acquired } →
      ∃ taken new, l' = { l with acquired := taken ++ l.acquired, pending := new ++ l.pending } ∧
        (Resource.handle handle :: taken).Perm
          (new.flatMap held ++ [.handle handle, .input handle]) :=
    fun l' h => ⟨[.input handle], [], h, List.Perm.refl _⟩
  cases kind with
  | openFile => exact Program.wp_mono (fun _ => hkept) after_openHandler
  | seek => exact Program.wp_mono (fun _ => hkept) after_seekHandler
  | close => exact Program.wp_mono (fun _ => hkept) after_closeHandler
  | read =>
      refine Program.wp_mono ?_ after_readHandler
      rintro _ l' ⟨state, rfl, rfl⟩
      refine ⟨[.bulk state.bulkHandle, .block state.buffer, .input state.handle,
        .block state.block], [state], rfl, List.perm_iff_count.mpr fun a => ?_⟩
      simp only [held, leaked, List.flatMap_cons, List.flatMap_nil, List.append_nil,
        List.cons_append, List.nil_append, List.count_cons, List.count_nil]
      omega

/-- Each resource that was acquired is released, or held by a transfer, or leaked. -/
def Accounted (es : List Event) (l : Ledger) : Prop :=
  l.acquired.Perm (l.released ++ (l.pending.flatMap held ++ (requests es).flatMap leaked))

theorem Accounted.request {es : List Event} {l : Ledger} {kind : RequestKind} {handle : Nat}
    {ops : List Operation} {taken : List Resource} {new : List HvacRpcState}
    (h : Accounted es l)
    (htaken : (.handle handle :: taken).Perm (new.flatMap held ++ leaked (kind, handle))) :
    Accounted (es ++ [.request kind handle ops])
      { l with
        acquired := taken ++ .handle handle :: l.acquired
        pending := new ++ l.pending } := by
  rw [Accounted, List.perm_iff_count] at h ⊢
  rw [List.perm_iff_count] at htaken
  intro a
  have hbefore := h a
  have hnew := htaken a
  simp only [requests_append, requests, List.flatMap_append, List.flatMap_cons, List.flatMap_nil,
    List.append_nil, List.count_append, List.count_cons] at hbefore hnew ⊢
  omega

theorem Accounted.bulkDone {es : List Event} {l : Ledger} {state : HvacRpcState}
    {ops : List Operation} (h : Accounted es l) (hmem : state ∈ l.pending) :
    Accounted (es ++ [.bulkDone state ops])
      { l with
        released := .block state.block :: .block state.buffer :: .handle state.handle ::
          .bulk state.bulkHandle :: l.released
        pending := l.pending.erase state } := by
  have hpending : (l.pending.flatMap held).Perm
      (held state ++ (l.pending.erase state).flatMap held) :=
    (List.perm_cons_erase hmem).flatMap_right held
  rw [Accounted, List.perm_iff_count] at h ⊢
  rw [List.perm_iff_count] at hpending
  intro a
  have hbefore := h a
  have hstate := hpending a
  simp only [requests_append, requests, held, List.append_nil, List.count_append, List.count_cons,
    List.count_nil] at hbefore hstate ⊢
  omega

theorem accounted {es : List Event} {l : Ledger} (h : machine.run es = some l) :
    Accounted es l := by
  induction es using List.reverseRecOn generalizing l with
  | nil =>
      obtain rfl : Ledger.empty = l := Option.some.inj h
      exact List.Perm.refl _
  | append_singleton es e ih =>
      obtain ⟨l₀, h₀, he⟩ := machine.run_snoc.mp h
      cases e with
      | request kind handle ops =>
          obtain ⟨_, hreplay, rfl⟩ := Option.map_eq_some_iff.mp he
          obtain ⟨taken, new, hl, htaken⟩ :=
            Program.wp_recording_replay (after_handler _ kind handle) hreplay
          rw [hl]
          exact (ih h₀).request htaken
      | bulkDone state ops =>
          obtain ⟨hmem, hdone⟩ := Option.ite_none_right_eq_some.mp he
          obtain ⟨_, hreplay, rfl⟩ := Option.map_eq_some_iff.mp hdone
          rw [Program.wp_recording_replay (after_bulkCb _ state) hreplay]
          exact (ih h₀).bulkDone hmem

/-! ## When everything is given back -/

/-- The bulk handle of a read, its buffer, or its state record. -/
def Resource.ofRead : Resource → Bool
  | .bulk _  => true
  | .block _ => true
  | _        => false

theorem leaked_not_ofRead {request : RequestKind × Nat} {x : Resource} (h : x ∈ leaked request) :
    x.ofRead = false := by
  obtain ⟨kind, handle⟩ := request
  cases kind with
  | read =>
      obtain rfl := List.mem_singleton.mp h
      rfl
  | _ =>
      obtain rfl | h := List.mem_cons.mp h
      · rfl
      · obtain rfl := List.mem_singleton.mp h
        rfl

/-- When all handlers and callbacks have finished, what was allocated for reads is released. -/
theorem released_ofRead {es : List Event} {l : Ledger} (h : machine.run es = some l)
    (hdone : l.pending = []) :
    (l.acquired.filter Resource.ofRead).Perm (l.released.filter Resource.ofRead) := by
  have hperm := accounted h
  rw [Accounted, hdone, List.flatMap_nil, List.nil_append] at hperm
  have hleaked : ((requests es).flatMap leaked).filter Resource.ofRead = [] := by
    refine List.filter_eq_nil_iff.mpr fun x hx => ?_
    obtain ⟨request, _, hmem⟩ := List.mem_flatMap.mp hx
    simp [leaked_not_ofRead hmem]
  have hread := hperm.filter Resource.ofRead
  rwa [List.filter_append, hleaked, List.append_nil] at hread

/-- With no transfer in progress, what is missing is what the requests have leaked. -/
theorem balanced_iff_leaked {es : List Event} {l : Ledger} (h : Accounted es l)
    (hdone : l.pending = []) : l.Balanced ↔ (requests es).flatMap leaked = [] := by
  rw [Accounted, hdone, List.flatMap_nil, List.nil_append] at h
  constructor
  · intro hbalanced
    have hlength := (hbalanced.symm.trans h).length_eq
    rw [List.length_append] at hlength
    exact List.length_eq_zero_iff.mp (by omega)
  · intro hleaked
    rwa [hleaked, List.append_nil] at h

theorem leaked_ne_nil (request : RequestKind × Nat) : leaked request ≠ [] := by
  obtain ⟨kind, handle⟩ := request
  cases kind <;> simp [leaked]

/-- When all handlers and callbacks of a run have finished, every handle, input, buffer, bulk
handle and state record has been released exactly if there was no request. -/
theorem all_released_iff {es : List Event} {l : Ledger} (h : machine.run es = some l)
    (hdone : l.pending = []) : l.Balanced ↔ requests es = [] := by
  rw [balanced_iff_leaked (accounted h) hdone, List.flatMap_eq_nil_iff]
  constructor
  · intro hleaked
    exact List.eq_nil_iff_forall_not_mem.mpr fun request hmem =>
      leaked_ne_nil request (hleaked request hmem)
  · intro hnone request hmem
    rw [hnone] at hmem
    cases hmem

/-- The state of a read of ten bytes. -/
def tenBytes : HvacRpcState := ⟨1, 10, 2, 4, 7, ⟨10, 10, 3, -1⟩⟩

def readOps : List Operation :=
  [responded .malloc 1,
    responded (.getInput .read 7) (some tenBytes.input),
    responded (.calloc 10) (some 2),
    responded (.getInfo 7) true,
    responded (.bulkCreate 2 10) (some 4),
    responded (.read 3 2 10) 10,
    responded (.fdToPathEntry 3) ['a'],
    responded (.bulkTransfer tenBytes) true]

def bulkOps : List Operation :=
  [responded .infoRet true,
    responded (.respond 7 10) true,
    responded (.bulkFree 4) (),
    responded (.destroy 7) (),
    responded (.free 2) (),
    responded (.free 1) ()]

def readRun : List Event := [.request .read 7 readOps, .bulkDone tenBytes bulkOps]

theorem all_released_readRun :
    ∃ l, machine.run readRun = some l ∧ l.pending = [] ∧
      (l.Balanced ↔ requests readRun = []) := by
  have hrun : machine.run readRun = some
      ⟨[.bulk 4, .block 2, .input 7, .block 1, .handle 7],
        [.block 1, .block 2, .handle 7, .bulk 4], []⟩ := by
    decide
  exact ⟨_, hrun, rfl, all_released_iff hrun rfl⟩

/-- A seek request keeps its handle and its input for ever. -/
theorem seek_leaks :
    ¬ ∀ (es : List Event) (l : Ledger), machine.run es = some l → l.pending = [] → l.Balanced := by
  intro h
  have hrun : machine.run [.request .seek 5
      [responded (.getInput .seek 5) (some ⟨3, 0, 0⟩), responded (.lseek 3 0 0) 0,
        responded (.respond 5 0) true]] = some ⟨[.input 5, .handle 5], [], []⟩ := by
    decide
  have hbalanced := h _ _ hrun rfl
  exact absurd hbalanced (by decide)

end MtHvac.Server.Resources
