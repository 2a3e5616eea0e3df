-- SUMMARY: The length of a read from the wrapper to the server and back: which counts arrive as they were given.
import MtHvac.Client.Execution
import MtHvac.System.Descriptor

/-!
# The length of a read

The `size_t` count of a call becomes an `ssize_t`, an `int32_t` field of the
request, and again a `size_t` in the server; the number of bytes comes back as an
`int32_t`, and is an `int` in the read wrapper.
-/

namespace MtHvac.System.ReadLength

open Base Client

/-! ## What the client sends -/

/-- The read wrapper, or with an offset the pread wrapper. -/
def wrapper (cfg : Config) (fd : Int) (count : Nat) : Option Int → Code Int
  | none        => readWrapper cfg fd count
  | some offset => preadWrapper cfg fd count offset

/-- The operations of the client alone: the server is asked, and has not looked at
the request when the response `0` arrives. -/
def sendAct (d : Descriptor) : (o : Op) → Option (o.Res × Descriptor)
  | .readOutput _ => some (0, d)
  | o             => d.act ⟨true, ⟨false, false⟩⟩ o

def sender : Keeper Descriptor where
  handler := ⟨fun o d => sendAct d o⟩
  world := Descriptor.world
  put w d := { d with world := w }
  world_put := Descriptor.world_with
  put_world := Descriptor.with_world
  act_maps := by
    intro o d ho
    cases o <;> first | exact ho.elim | rfl

/-- The request of a call, as the server decodes it. -/
def requestOf (cfg : Config) (fd : Int) (d : Descriptor) (count : Nat) (offset : Option Int) :
    Option HvacRpcIn :=
  (Program.exec sender.handler (wrapper cfg fd count offset) { d with request := none }).bind
    fun (_, d') => d'.request

variable {cfg : Config} {fd : Int} {service : Service} {d : Descriptor} {count : Nat}
  {offset : Option Int}

@[simp] theorem exec_forward_read {host : Int} {req : HvacRpcIn} :
    @Program.exec ops (no_index _) _ sender.handler (op (.forward fd host (.read req))) d =
      some (true, { d with request := some req }) := by
  rw [Keeper.exec_op]
  rfl

@[simp] theorem exec_readOutput :
    @Program.exec ops (no_index _) _ sender.handler (op (.readOutput fd)) d = some (0, d) := by
  rw [Keeper.exec_op]
  rfl

/-- On a descriptor that can be read remotely both wrappers send a request. -/
theorem requestOf_redirected (htracked : (d.world.fdMap fd).isSome)
    (hredirected : Redirected d.world fd) :
    requestOf cfg fd d count offset =
      some (readRequest (d.world.fdRedirMap.entry fd 0) count (offset.getD (-1))) := by
  obtain ⟨path, hpath⟩ := Option.isSome_iff_exists.mp htracked
  obtain ⟨remoteFd, hredir, hne⟩ := exists_remoteFd hredirected.2
  have hrpc : ∀ host offset', Program.exec sender.handler
      (hvacClientCommGenReadRpc host fd count offset') { d with request := none } =
        some (0, { d with request := some (readRequest remoteFd count offset') }) := by
    intro host offset'
    rw [Keeper.exec_readRpc hredirected.1 hredir hne]
    simp
  have hzero : Word.toInt32 0 = 0 := by decide
  rw [Table.entry_of_some hredir]
  cases offset with
  | none =>
      have hremote := @Keeper.exec_hvacRemoteRead _ sender fd { d with request := none } cfg path
        count hpath
      simp [requestOf, wrapper, readWrapper, Keeper.exec_hvacGetPath, hremote, hrpc, hzero]
  | some offset =>
      have hremote := @Keeper.exec_hvacRemotePread _ sender fd { d with request := none } cfg path
        remoteFd count offset hpath hredir hne
      have hsender : (sender.world { d with request := none }).fdMap fd = some path := hpath
      simp [requestOf, wrapper, preadWrapper, Keeper.exec_hvacGetPath, hsender, hremote, hrpc]

/-! ## What comes back -/

/-- The wrapper returns what the server answers. -/
theorem exec_wrapper (htracked : (d.world.fdMap fd).isSome)
    (hremote : service.Remote d.world fd) {r : Int} {d' : Descriptor}
    (h : Program.exec (handler service) (wrapper cfg fd count offset) d = some (r, d')) :
    Descriptor.act { d with
        request := some (readRequest (d.world.fdRedirMap.entry fd 0) count (offset.getD (-1))) }
      service (.readOutput fd) = some (r, d') := by
  obtain ⟨path, hpath⟩ := Option.isSome_iff_exists.mp htracked
  cases offset with
  | none =>
      simp only [wrapper, readWrapper, Program.exec_bind, exec_hvacGetPath hpath,
        exec_hvacRemoteRead hpath, exec_readRpc_sent hremote.1 hremote.2, Option.bind_some] at h
      obtain ⟨⟨ret, d₁⟩, hact, hret⟩ := Option.bind_eq_some_iff.mp h
      obtain ⟨hint, hne⟩ := ret_of_readOutput rfl hact
      simp only [hint, if_neg hne, Program.exec_pure] at hret
      rw [← hret]
      exact hact
  | some offset =>
      simp only [wrapper, preadWrapper, Program.exec_bind, exec_hvacGetPath hpath,
        exec_hvacRemotePread hpath hremote.1.2, exec_readRpc_sent hremote.1 hremote.2,
        Option.bind_some] at h
      obtain ⟨⟨ret, d₁⟩, hact, hret⟩ := Option.bind_eq_some_iff.mp h
      obtain ⟨_, hne⟩ := ret_of_readOutput rfl hact
      simp only [if_neg hne, Program.exec_pure] at hret
      rw [← hret]
      exact hact

/-! ## Which lengths arrive -/

/-- The position is at or past the end of the file. -/
def AtEnd (file : OpenFile) (pos : Nat) : Prop :=
  ∃ data, file.node = .regular data ∧ data.length ≤ pos

/-- The server decodes a length of at least one byte and at most `count`, allocates
as much, and the wrapper returns the number of bytes that came. -/
def Uncorrupted (cfg : Config) (fd : Int) (service : Service) (d : Descriptor) (count : Nat)
    (offset : Option Int) : Prop :=
  (∃ req, requestOf cfg fd d count offset = some req ∧ 0 < req.inputVal ∧ req.inputVal ≤ count ∧
      (Word.toUInt64 req.inputVal : Int) = req.inputVal) ∧
    ∀ r d', Program.exec (handler service) (wrapper cfg fd count offset) d = some (r, d') →
      r = d'.buffer.items.length ∧ (r = 0 → AtEnd d.serverFile d'.buffer.start)

/-- The lower half of a length arrives as a positive `int32_t`. -/
theorem inputVal_pos_iff {accessfd offset : Int} (hcount : count < 2 ^ 63) :
    0 < (readRequest accessfd count offset).inputVal ↔
      0 < count % 2 ^ 32 ∧ count % 2 ^ 32 < 2 ^ 31 := by
  simp only [readRequest_inputVal, Word.toInt32, Word.toInt64, Int.bmod_def]
  omega

theorem inputVal_le {accessfd offset : Int} (hcount : count < 2 ^ 63) :
    (readRequest accessfd count offset).inputVal ≤ count := by
  simp only [readRequest_inputVal, Word.toInt32, Word.toInt64, Int.bmod_def]
  omega

theorem toUInt64_inputVal_of_pos {accessfd offset : Int}
    (hpos : 0 < (readRequest accessfd count offset).inputVal) :
    (Word.toUInt64 (readRequest accessfd count offset).inputVal : Int) =
      (readRequest accessfd count offset).inputVal := by
  have hrange := Word.toInt32_range (Word.toInt64 count)
  rw [readRequest_inputVal] at hpos ⊢
  rw [Word.toUInt64_of_range (by omega) (by omega)]
  omega

/-- A read of at least one byte that returns none was at the end of the file. -/
theorem atEnd_of_handlerRead {env : ReadEnv} {req : HvacRpcIn} {file file' : OpenFile}
    (hsize : 0 < Word.toUInt64 req.inputVal)
    (h : handlerRead env req (some file) = (some [], some file')) :
    AtEnd file (if req.offset = -1 then file.pos else req.offset.toNat) := by
  have hfst : (handlerRead env req (some file)).1 = some [] := congrArg Prod.fst h
  obtain ⟨_, data, pos, hfile, _⟩ := handlerRead_isSome_iff.mp (by rw [hfst]; rfl)
  obtain rfl := Option.some.inj hfile
  obtain ⟨_, hbytes, _⟩ := handlerRead_regular hfst
  refine ⟨data, rfl, ?_⟩
  have hmax := OpenFile.maxRwCount_pos
  rcases slice_eq_nil.mp hbytes.symm with hzero | hend
  · omega
  · exact hend

/-- A length arrives exactly if its lower half is positive as an `int32_t`. -/
theorem uncorrupted_iff (htracked : (d.world.fdMap fd).isSome)
    (hremote : service.Remote d.world fd) (hcount : count < 2 ^ 63) :
    Uncorrupted cfg fd service d count offset ↔
      0 < count % 2 ^ 32 ∧ count % 2 ^ 32 < 2 ^ 31 := by
  rw [← @inputVal_pos_iff _ (d.world.fdRedirMap.entry fd 0) (offset.getD (-1)) hcount]
  have hreq : requestOf cfg fd d count offset =
      some (readRequest (d.world.fdRedirMap.entry fd 0) count (offset.getD (-1))) :=
    requestOf_redirected htracked hremote.1
  constructor
  · rintro ⟨⟨req, hsent, hpos, _⟩, _⟩
    rw [hreq, Option.some.injEq] at hsent
    exact hsent ▸ hpos
  · intro hpos
    have hsize := toUInt64_inputVal_of_pos hpos
    refine ⟨⟨_, hreq, hpos, inputVal_le hcount, hsize⟩, ?_⟩
    intro r d' hexec
    have hact := exec_wrapper htracked hremote hexec
    rcases act_readOutput_cases (rfl : Descriptor.request { d with
      request := some (readRequest (d.world.fdRedirMap.entry fd 0) count (offset.getD (-1))) } = _)
      with ⟨hnone, _⟩ | ⟨bytes, file, hread, hsome⟩
    · cases hact.symm.trans hnone
    · obtain ⟨hr, hd'⟩ := Prod.mk.inj (Option.some.inj (hact.symm.trans hsome))
      rw [hd', hr]
      refine ⟨rfl, fun hzero => ?_⟩
      obtain rfl : bytes = [] := List.length_eq_zero_iff.mp (by omega)
      exact atEnd_of_handlerRead (by omega) hread

/-- A descriptor that was just opened on a file of two bytes. -/
def twoBytes : Descriptor := .opened openedWorld [10, 20]

theorem uncorrupted_two : Uncorrupted dataDirConfig 3 ⟨true, ⟨false, false⟩⟩ twoBytes 2 none :=
  (uncorrupted_iff (by decide +kernel) (by decide +kernel) (by decide)).mpr (by decide)

/-- Of the count `2 ^ 32` nothing is left. -/
theorem corrupted_two_pow_32 :
    ¬ ∀ (cfg : Config) (fd : Int) (service : Service) (d : Descriptor) (count : Nat)
      (offset : Option Int), (d.world.fdMap fd).isSome → service.Remote d.world fd →
      1 ≤ count → count < 2 ^ 63 → Uncorrupted cfg fd service d count offset := by
  intro h
  have htracked : (twoBytes.world.fdMap 3).isSome := by decide +kernel
  have hremote : Service.Remote ⟨true, ⟨false, false⟩⟩ twoBytes.world 3 := by decide +kernel
  obtain ⟨⟨req, hsent, hpos, _⟩, _⟩ :=
    h dataDirConfig 3 _ twoBytes (2 ^ 32) none htracked hremote (by decide) (by decide)
  rw [requestOf_redirected htracked hremote.1, Option.some.injEq] at hsent
  rw [← hsent, inputVal_pos_iff (by decide)] at hpos
  exact absurd hpos (by decide)

end MtHvac.System.ReadLength
