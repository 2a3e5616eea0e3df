-- SUMMARY: Sequential and positional reads on one remote descriptor, next to the sequential reads alone: when a pread leaves them alone.
import MtHvac.System.Descriptor

/-!
# Positional reads

`hvac_remote_read` and `hvac_remote_pread` send the same request, and tell the server
with the offset `-1` that it shall read at its own position. Next to a descriptor on
which both are called, the reads are made on a second one without the preads.
-/

namespace MtHvac.System.PositionalReads

open Base Client

/-! ## Calls -/

/-- What a call returned, with the bytes that came into the buffer. -/
structure Outcome where
  ret : Int
  bytes : List Byte
deriving DecidableEq

variable (cfg : Config) (fd : Int)

/-- Run a call with an empty buffer; `none` if the server is gone and it never returns. -/
def run (service : Service) (code : Code Int) (d : Descriptor) : Option (Outcome × Descriptor) :=
  (Program.exec (handler service) code { d with buffer := ⟨0, []⟩ }).map fun (ret, d') =>
    (⟨ret, d'.buffer.items⟩, d')

def remoteRead (service : Service) (count : Nat) (d : Descriptor) : Option (Outcome × Descriptor) :=
  run service (hvacRemoteRead cfg fd count) d

def remotePread (service : Service) (count : Nat) (offset : Int) (d : Descriptor) :
    Option (Outcome × Descriptor) :=
  run service (hvacRemotePread cfg fd count offset) d

/-! ## State -/

/-- A tracked descriptor; the server has a regular file open, and stands at `pos`. -/
structure Setup where
  cfg : Config
  fd : Int
  world : World
  data : List Byte
  pos : Nat
  tracked : (world.fdMap fd).isSome

inductive Call where
  | read (count : Nat) (service : Service)
  | pread (count : Nat) (offset : Int) (service : Service)
deriving DecidableEq

structure Pread where
  count : Nat
  offset : Int
  service : Service
  outcome : Option Outcome
deriving DecidableEq

/-- `descriptor` is `none` when the server is gone, `alone` is the second descriptor.
What the calls returned is kept. -/
structure State where
  descriptor : Option Descriptor
  alone : Descriptor
  reads : List Outcome
  aloneReads : List Outcome
  preads : List Pread

variable (u : Setup)

def Setup.descriptor : Descriptor :=
  { Descriptor.opened u.world u.data with serverFile := ⟨.regular u.data, u.pos⟩ }

def init : State where
  descriptor := some u.descriptor
  alone := u.descriptor
  reads := []
  aloneReads := []
  preads := []

def step (s : State) : Call → Option State
  | .read count service =>
      s.descriptor.bind fun d =>
        (remoteRead u.cfg u.fd service count d).bind fun (out, d') =>
          (remoteRead u.cfg u.fd service count s.alone).map fun (aloneOut, alone') =>
            { s with
              descriptor := some d'
              alone := alone'
              reads := s.reads ++ [out]
              aloneReads := s.aloneReads ++ [aloneOut] }
  | .pread count offset service =>
      s.descriptor.map fun d =>
        let result := remotePread u.cfg u.fd service count offset d
        { s with
          descriptor := result.map Prod.snd
          preads := s.preads ++ [⟨count, offset, service, result.map Prod.fst⟩] }

def machine : Machine State Call where
  init := init u
  step := step u

/-! ## What the calls do -/

variable {cfg fd} {u} {service : Service} {d d' : Descriptor} {count : Nat} {offset : Int}
  {out : Outcome}

/-- A client's request is answered exactly if the server can allocate the buffer and
the kernel serves it. -/
theorem act_isSome_iff {accessfd : Int}
    (hreq : d.request = some (readRequest accessfd count offset)) :
    (d.act service (.readOutput fd)).isSome ↔
      callocFails service.env (remoteCount count) = false ∧
        Readable service.env (remoteCount count) offset (some d.serverFile) := by
  have hreadable := @handlerRead_isSome_iff service.env (readRequest accessfd count offset)
    (some d.serverFile)
  rw [readRequest_offset, toUInt64_inputVal] at hreadable
  rw [← hreadable, ← toUInt64_inputVal accessfd count offset]
  rcases act_readOutput_cases hreq with ⟨hnone, haborted⟩ | ⟨bytes, file, hread, hsome⟩
  · rw [hnone]
    refine iff_of_false nofun ?_
    rintro ⟨hbuf, hread⟩
    obtain ⟨bytes, hbytes⟩ := Option.isSome_iff_exists.mp hread
    have hlen := handlerRead_length_le hbytes
    have hbulk := readRequest_size_le_of_calloc hbuf
    rw [hvacRpcHandler_of_read hbuf (by omega) (Prod.ext hbytes rfl)] at haborted
    cases haborted
  · rw [hsome, hread]
    refine iff_of_true rfl ⟨?_, rfl⟩
    cases hbuf : callocFails service.env
        (Word.toUInt64 (readRequest accessfd count offset).inputVal) with
    | false => rfl
    | true =>
        have hnone := @act_readOutput_aborted fd service d _ hreq (by simp [hvacRpcHandler, hbuf])
        cases hsome.symm.trans hnone

/-- A pread that is not sent fails, and leaves the client able to send what it was. -/
theorem exec_pread_local (htracked : (d.world.fdMap fd).isSome)
    (hlocal : ¬ service.Remote d.world fd) : ∃ w',
    Program.exec (handler service) (hvacRemotePread cfg fd count offset) d =
      some (-1, { d with world := w' }) ∧
      w'.fdMap = d.world.fdMap ∧ (Redirected w' fd ↔ Redirected d.world fd) := by
  obtain ⟨path, hpath⟩ := Option.isSome_iff_exists.mp htracked
  by_cases hentry : d.world.fdRedirMap.entry fd 0 = 0
  · refine ⟨{ d.world with fdRedirMap := d.world.fdRedirMap.touch fd 0 }, ?_, rfl, ?_⟩
    · simp [hvacRemotePread, exec_hvacFileTracked, hpath, Descriptor.act, World.act, hentry]
    · simp [Redirected, hentry]
  · refine ⟨d.world, ?_, rfl, Iff.rfl⟩
    rw [exec_hvacRemotePread hpath hentry, exec_readRpc_failed hlocal]

/-- Where a descriptor stands: it is tracked, can be read remotely or not, and the
server has a regular file open. -/
structure Stands (u : Setup) (d : Descriptor) (pos : Nat) : Prop where
  tracked : (d.world.fdMap u.fd).isSome
  redirected : Redirected d.world u.fd ↔ Redirected u.world u.fd
  serverFile : d.serverFile = ⟨.regular u.data, pos⟩

/-- Whether the requests of a call reach the server. -/
def Sent (u : Setup) (service : Service) : Prop := service.Remote u.world u.fd

instance (u : Setup) (service : Service) : Decidable (Sent u service) :=
  inferInstanceAs (Decidable (service.Remote u.world u.fd))

theorem Stands.remote_iff {pos : Nat} (h : Stands u d pos) :
    service.Remote d.world u.fd ↔ Sent u service := by
  simp only [Service.Remote, Sent, h.redirected]

/-- A read that is sent returns the bytes at the server's position. -/
theorem read_sent {pos : Nat} (h : Stands u d pos) (hsent : Sent u service)
    (hread : remoteRead u.cfg u.fd service count d = some (out, d')) :
    let bytes := slice u.data pos (min (remoteCount count) OpenFile.maxRwCount)
    out = ⟨bytes.length, bytes⟩ ∧ Stands u d' (pos + bytes.length) := by
  obtain ⟨path, hpath⟩ := Option.isSome_iff_exists.mp h.tracked
  have hremote := h.remote_iff.mpr hsent
  obtain ⟨⟨ret, d₁⟩, hexec, hout⟩ := Option.map_eq_some_iff.mp hread
  rw [exec_hvacRemoteRead (by exact hpath),
    exec_readRpc_sent (by exact hremote.1) hremote.2] at hexec
  obtain ⟨hret, hd₁⟩ := act_readOutput hexec rfl (readRequest_offset _ _ _) h.serverFile
  rw [toUInt64_inputVal] at hret hd₁
  obtain ⟨rfl, rfl⟩ := Prod.mk.inj hout
  rw [hd₁, hret]
  exact ⟨rfl, h.tracked, h.redirected, rfl⟩

/-- A read that is not sent fails. -/
theorem read_unsent {pos : Nat} (h : Stands u d pos) (hsent : ¬ Sent u service)
    (hread : remoteRead u.cfg u.fd service count d = some (out, d')) :
    out = ⟨-1, []⟩ ∧ Stands u d' pos := by
  obtain ⟨path, hpath⟩ := Option.isSome_iff_exists.mp h.tracked
  have hlocal : ¬ service.Remote d.world u.fd := fun hremote => hsent (h.remote_iff.mp hremote)
  obtain ⟨⟨ret, d₁⟩, hexec, hout⟩ := Option.map_eq_some_iff.mp hread
  rw [exec_hvacRemoteRead (by exact hpath), exec_readRpc_failed (by exact hlocal)] at hexec
  obtain ⟨rfl, rfl⟩ := Prod.mk.inj (Option.some.inj hexec)
  obtain ⟨rfl, rfl⟩ := Prod.mk.inj hout
  exact ⟨rfl, h.tracked, h.redirected, h.serverFile⟩

/-- A pread that is not sent fails. -/
theorem pread_unsent {pos : Nat} (h : Stands u d pos) (hsent : ¬ Sent u service) : ∃ d',
    remotePread u.cfg u.fd service count offset d = some (⟨-1, []⟩, d') ∧ Stands u d' pos := by
  have hlocal : ¬ service.Remote d.world u.fd := fun hremote => hsent (h.remote_iff.mp hremote)
  obtain ⟨w', hexec, hmap, hredirected⟩ :=
    @exec_pread_local u.cfg u.fd service { d with buffer := ⟨0, []⟩ } count offset h.tracked hlocal
  refine ⟨{ d with buffer := ⟨0, []⟩, world := w' }, ?_, ?_, hredirected.trans h.redirected,
    h.serverFile⟩
  · rw [remotePread, run, hexec]
    rfl
  · change (w'.fdMap u.fd).isSome
    rw [hmap]
    exact h.tracked

/-- The server has the memory for the buffer of a call, and the device works. -/
def Served (service : Service) (count : Nat) : Prop :=
  callocFails service.env (remoteCount count) = false ∧ service.env.ioError = false

/-- A pread that is sent is answered exactly if the kernel serves it. -/
theorem pread_isSome_iff {pos : Nat} (h : Stands u d pos) (hsent : Sent u service) :
    (remotePread u.cfg u.fd service count offset d).isSome ↔
      Served service count ∧ OpenFile.Transferable (readStart offset pos) (remoteCount count) := by
  obtain ⟨path, hpath⟩ := Option.isSome_iff_exists.mp h.tracked
  have hremote := h.remote_iff.mpr hsent
  rw [remotePread, run, Option.isSome_map, exec_hvacRemotePread (by exact hpath)
    (by exact hremote.1.2), exec_readRpc_sent (by exact hremote.1) hremote.2, act_isSome_iff rfl,
    Served, Readable, and_assoc]
  refine and_congr_right fun _ => and_congr_right fun _ => ?_
  rw [show some d.serverFile = some ⟨.regular u.data, pos⟩ from congrArg some h.serverFile]
  constructor
  · rintro ⟨data, pos', hfile, htransfer⟩
    cases hfile
    exact htransfer
  · exact fun htransfer => ⟨u.data, pos, rfl, htransfer⟩

/-- A pread that is answered returns a number of bytes, from an offset in the file as many
as the request asks for; only with the offset `-1` the server's position moves. -/
theorem pread_sent {pos : Nat} (h : Stands u d pos) (hsent : Sent u service)
    (hpread : remotePread u.cfg u.fd service count offset d = some (out, d')) :
    out.ret = out.bytes.length ∧
      (0 ≤ offset → out.bytes =
        slice u.data offset.toNat (min (remoteCount count) OpenFile.maxRwCount)) ∧
      Stands u d' (if offset = -1 then pos + out.bytes.length else pos) := by
  obtain ⟨path, hpath⟩ := Option.isSome_iff_exists.mp h.tracked
  have hremote := h.remote_iff.mpr hsent
  obtain ⟨⟨ret, d₁⟩, hexec, hout⟩ := Option.map_eq_some_iff.mp hpread
  rw [exec_hvacRemotePread (by exact hpath) (by exact hremote.1.2),
    exec_readRpc_sent (by exact hremote.1) hremote.2] at hexec
  obtain ⟨rfl, rfl⟩ := Prod.mk.inj hout
  rcases act_readOutput_cases (rfl : Descriptor.request { d with
    buffer := ⟨0, []⟩
    request := some (readRequest (d.world.fdRedirMap.entry u.fd 0) count offset) } = _)
    with ⟨hnone, _⟩ | ⟨bytes, file, hread, hsome⟩
  · cases hexec.symm.trans hnone
  · obtain ⟨hret, hd₁⟩ := Prod.mk.inj (Option.some.inj (hexec.symm.trans hsome))
    rw [hd₁, hret]
    have hfile : d.serverFile = ⟨.regular u.data, pos⟩ := h.serverFile
    rw [hfile] at hread
    obtain ⟨_, hbytes, hfile'⟩ := handlerRead_regular (congrArg Prod.fst hread)
    simp only [readRequest_offset, hread, Option.some.injEq] at hbytes hfile'
    refine ⟨rfl, fun hoffset => ?_, h.tracked, h.redirected, hfile'⟩
    have hseq : offset ≠ -1 := by omega
    simp only [hseq, if_false, toUInt64_inputVal] at hbytes
    exact hbytes

/-! ## When the two kinds of reads do not interfere -/

/-- What `pread(2)` returns on the file itself. -/
def plainPread (u : Setup) (count : Nat) (offset : Int) : Outcome :=
  match OpenFile.pread ⟨.regular u.data, u.pos⟩ count offset with
  | none       => ⟨-1, []⟩
  | some bytes => ⟨bytes.length, bytes⟩

/-- A pread that is sent returns what the real one does: the bytes of the file from its
offset on, up to the number that it was called with, or with a negative offset a failure.
If it is not sent, it fails. -/
def Right (u : Setup) (x : Pread) : Prop :=
  x.outcome = some (if Sent u x.service then plainPread u x.count x.offset else ⟨-1, []⟩)

/-- The reads returned what they return alone, and would go on to do so; the preads
returned what they should. -/
def Undisturbed (u : Setup) (s : State) : Prop :=
  s.reads = s.aloneReads ∧ (s.descriptor.map Descriptor.serverFile = some s.alone.serverFile) ∧
    ∀ x ∈ s.preads, Right u x

/-- Every read, and a pread that the real call serves and the server can serve as well,
if the request asks for as many of the bytes behind the offset as the call does. -/
def Harmless (u : Setup) : Call → Prop
  | .read _ _                   => True
  | .pread count offset service =>
      let most := min OpenFile.maxRwCount (u.data.length - offset.toNat)
      Sent u service → OpenFile.Transferable offset count ∧ Served service count ∧
        min (remoteCount count) most = min count most

/-- Where the real call reads, the server's reads. -/
theorem transferable_remote {pos : Nat} {env : ReadEnv} (h : OpenFile.Transferable offset count)
    (hbuf : callocFails env (remoteCount count) = false) :
    OpenFile.Transferable (readStart offset pos) (remoteCount count) := by
  have hsize : remoteCount count < 2 ^ 63 := by
    simp only [callocFails, Bool.or_eq_false_iff, decide_eq_false_iff_not] at hbuf
    omega
  have hle := remoteCount_le hsize
  obtain ⟨hlo, hhi⟩ := h
  rw [readStart, if_neg (by omega)]
  exact ⟨hlo, by omega⟩

/-- An answer with the bytes that the request asked for is the real one exactly if the
real call succeeds and finds as many. -/
theorem eq_plainPread_iff (hret : out.ret = out.bytes.length)
    (hbytes : 0 ≤ offset →
      out.bytes = slice u.data offset.toNat (min (remoteCount count) OpenFile.maxRwCount)) :
    out = plainPread u count offset ↔
      let most := min OpenFile.maxRwCount (u.data.length - offset.toNat)
      OpenFile.Transferable offset count ∧ min (remoteCount count) most = min count most := by
  obtain ⟨ret, bytes⟩ := out
  obtain rfl : ret = bytes.length := hret
  by_cases htransfer : OpenFile.Transferable offset count
  · obtain rfl : bytes = _ := hbytes htransfer.1
    rw [plainPread, OpenFile.pread_regular htransfer, and_iff_right htransfer, ← Nat.min_assoc,
      ← Nat.min_assoc, ← slice_eq_slice_iff]
    constructor
    · intro h
      exact (Outcome.mk.inj h).2
    · intro h
      rw [h]
  · rw [plainPread, OpenFile.pread_refused htransfer]
    refine iff_of_false ?_ fun h => htransfer h.1
    intro h
    have hneg : (bytes.length : Int) = -1 := (Outcome.mk.inj h).1
    omega

/-- Both descriptors stay tracked, with the server's file open on both. -/
structure Inv (u : Setup) (s : State) : Prop where
  descriptor : ∀ d, s.descriptor = some d → ∃ pos, Stands u d pos
  alone : ∃ pos, Stands u s.alone pos

theorem Inv.step {s s' : State} {e : Call} (hi : Inv u s) (he : step u s e = some s') :
    Inv u s' := by
  obtain ⟨apos, hastands⟩ := hi.alone
  cases e with
  | read count service =>
      obtain ⟨d, hd, he⟩ := Option.bind_eq_some_iff.mp he
      obtain ⟨⟨out, d'⟩, hread, he⟩ := Option.bind_eq_some_iff.mp he
      obtain ⟨⟨aloneOut, alone'⟩, halone, rfl⟩ := Option.map_eq_some_iff.mp he
      obtain ⟨pos, hstands⟩ := hi.descriptor d hd
      by_cases hsent : Sent u service
      · obtain ⟨_, hstands'⟩ := read_sent hstands hsent hread
        obtain ⟨_, hastands'⟩ := read_sent hastands hsent halone
        exact ⟨fun _ h => ⟨_, Option.some.inj h ▸ hstands'⟩, _, hastands'⟩
      · obtain ⟨_, hstands'⟩ := read_unsent hstands hsent hread
        obtain ⟨_, hastands'⟩ := read_unsent hastands hsent halone
        exact ⟨fun _ h => ⟨_, Option.some.inj h ▸ hstands'⟩, _, hastands'⟩
  | pread count offset service =>
      obtain ⟨d, hd, rfl⟩ := Option.map_eq_some_iff.mp he
      obtain ⟨pos, hstands⟩ := hi.descriptor d hd
      refine ⟨?_, apos, hastands⟩
      intro d' hd'
      obtain ⟨⟨out, _⟩, hpread, rfl⟩ := Option.map_eq_some_iff.mp hd'
      by_cases hsent : Sent u service
      · exact ⟨_, (pread_sent hstands hsent hpread).2.2⟩
      · obtain ⟨d₁, hfailed, hstands'⟩ :=
          @pread_unsent u service d count offset pos hstands hsent
        obtain ⟨_, rfl⟩ := Prod.mk.inj (Option.some.inj (hpread.symm.trans hfailed))
        exact ⟨pos, hstands'⟩

theorem inv_invariant : (machine u).Invariant (Inv u) where
  init := ⟨fun _ hd => ⟨u.pos, Option.some.inj hd ▸ ⟨u.tracked, Iff.rfl, rfl⟩⟩,
    u.pos, u.tracked, Iff.rfl, rfl⟩
  step _ hi he := hi.step he

/-- A sequential read returns the same on both descriptors and leaves them alike. -/
theorem undisturbed_read {s s' : State} (hi : Inv u s) (hs : Undisturbed u s)
    (he : step u s (.read count service) = some s') : Undisturbed u s' := by
  obtain ⟨d, hd, he⟩ := Option.bind_eq_some_iff.mp he
  obtain ⟨⟨out, d'⟩, hread, he⟩ := Option.bind_eq_some_iff.mp he
  obtain ⟨⟨aloneOut, alone'⟩, halone, rfl⟩ := Option.map_eq_some_iff.mp he
  obtain ⟨hreads, hfile, hpreads⟩ := hs
  obtain ⟨pos, hstands⟩ := hi.descriptor d hd
  obtain ⟨apos, hastands⟩ := hi.alone
  rw [hd, Option.map_some, Option.some.injEq, hstands.serverFile, hastands.serverFile,
    OpenFile.mk.injEq] at hfile
  obtain ⟨_, rfl⟩ := hfile
  by_cases hsent : Sent u service
  · obtain ⟨rfl, hstands'⟩ := read_sent hstands hsent hread
    obtain ⟨rfl, hastands'⟩ := read_sent hastands hsent halone
    refine ⟨by rw [hreads], ?_, hpreads⟩
    simp only [Option.map_some, hstands'.serverFile, hastands'.serverFile]
  · obtain ⟨rfl, hstands'⟩ := read_unsent hstands hsent hread
    obtain ⟨rfl, hastands'⟩ := read_unsent hastands hsent halone
    refine ⟨by rw [hreads], ?_, hpreads⟩
    simp only [Option.map_some, hstands'.serverFile, hastands'.serverFile]

theorem undisturbed_pread {s s' : State} (hi : Inv u s) (hs : Undisturbed u s)
    (he : step u s (.pread count offset service) = some s') :
    Undisturbed u s' ↔ Harmless u (.pread count offset service) := by
  obtain ⟨d, hd, rfl⟩ := Option.map_eq_some_iff.mp he
  obtain ⟨hreads, hfile, hpreads⟩ := hs
  obtain ⟨pos, hstands⟩ := hi.descriptor d hd
  rw [hd, Option.map_some, Option.some.injEq] at hfile
  by_cases hsent : Sent u service
  · have hanswered := @pread_isSome_iff u service d count offset pos hstands hsent
    cases hpread : remotePread u.cfg u.fd service count offset d with
    | none =>
        rw [hpread] at hanswered
        refine iff_of_false ?_ ?_
        · rintro ⟨_, hfile', _⟩
          cases hfile'
        · intro h
          obtain ⟨htransfer, hserved, _⟩ := h hsent
          cases hanswered.mpr ⟨hserved, transferable_remote htransfer hserved.1⟩
    | some r =>
        obtain ⟨out, d'⟩ := r
        obtain ⟨hserved, _⟩ := hanswered.mp (by rw [hpread]; rfl)
        obtain ⟨hret, hbytes, hstands'⟩ := pread_sent hstands hsent hpread
        have hright : Right u ⟨count, offset, service, some out⟩ ↔
            Harmless u (.pread count offset service) := by
          simp only [Right, Harmless, hsent, if_true, Option.some.injEq, true_implies,
            eq_plainPread_iff hret hbytes, and_iff_right hserved]
        rw [← hright]
        constructor
        · rintro ⟨_, _, hall⟩
          exact hall _ (List.mem_append_right _ (List.mem_singleton_self _))
        · intro h
          obtain ⟨htransfer, _⟩ := hright.mp h hsent
          have hoffset : offset ≠ -1 := by
            have := htransfer.1
            omega
          rw [if_neg hoffset] at hstands'
          refine ⟨hreads, ?_, List.forall_mem_append.mpr ⟨hpreads, List.forall_mem_singleton.mpr h⟩⟩
          simp only [Option.map_some, hstands'.serverFile, ← hfile, hstands.serverFile]
  · obtain ⟨d', hpread, hstands'⟩ := @pread_unsent u service d count offset pos hstands hsent
    have hright : Right u ⟨count, offset, service,
        (remotePread u.cfg u.fd service count offset d).map Prod.fst⟩ := by
      simp only [Right, hsent, if_false, hpread, Option.map_some]
    refine iff_of_true ⟨hreads, ?_, List.forall_mem_append.mpr
      ⟨hpreads, List.forall_mem_singleton.mpr hright⟩⟩ fun h => absurd h hsent
    simp only [hpread, Option.map_some, hstands'.serverFile, ← hfile, hstands.serverFile]

theorem undisturbed_step {s s' : State} {e : Call} (hi : Inv u s) (hs : Undisturbed u s)
    (he : step u s e = some s') : Undisturbed u s' ↔ Harmless u e := by
  cases e with
  | read count service => exact iff_of_true (undisturbed_read hi hs he) trivial
  | pread count offset service => exact undisturbed_pread hi hs he

/-- Throughout a run the two kinds of reads leave one another alone exactly when every
pread that is sent is one that the real call serves, the server can serve it, and its
request asks for as many bytes. -/
theorem undisturbed_iff (u : Setup) (es : List Call) :
    (∀ s, (machine u).Visits es s → Undisturbed u s) ↔
      ∀ s e, (machine u).Takes es s e → Harmless u e := by
  have hinit : Undisturbed u (machine u).init := ⟨rfl, rfl, nofun⟩
  exact Machine.always_iff hinit fun hr hs he =>
    undisturbed_step (inv_invariant.reachable hr) hs he

/-- A file of four bytes that was just opened. -/
def fourBytes : Setup where
  cfg := dataDirConfig
  fd := 3
  world := openedWorld
  data := [10, 20, 30, 40]
  pos := 0
  tracked := openedWorld_tracked

/-- A pread at the offset `-1` takes the bytes of the next read. -/
theorem pread_moves_position :
    ¬ ∀ (u : Setup) (es : List Call) (s : State), (machine u).Visits es s → Undisturbed u s := by
  intro h
  have hmap : ((machine fourBytes).run [.pread 2 (-1) ⟨true, ⟨false, false⟩⟩,
      .read 2 ⟨true, ⟨false, false⟩⟩]).map (fun s => (s.reads, s.aloneReads)) =
      some ([⟨2, [30, 40]⟩], [⟨2, [10, 20]⟩]) := by
    decide +kernel
  obtain ⟨s, hrun, hs⟩ := Option.map_eq_some_iff.mp hmap
  obtain ⟨hreads, halone⟩ := Prod.mk.inj hs
  have hsame := (h fourBytes _ s ⟨_, List.prefix_rfl, hrun⟩).1
  rw [hreads, halone] at hsame
  exact absurd hsame (by decide)

end MtHvac.System.PositionalReads
