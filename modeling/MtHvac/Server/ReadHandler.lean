-- SUMMARY: The server's handler for read requests: buffer, system call, bulk transfer and response.
import MtHvac.Rpc.Messages

/-!
# The read handler

`hvac_rpc_handler` and its bulk callback, on the open file behind the requested
descriptor. A failing assertion ends the server process.
-/

namespace MtHvac

open Base

/-! ## The handler -/

/-- What the machine decides during one read request. -/
structure ReadEnv where
  outOfMemory : Bool
  ioError : Bool
deriving DecidableEq

/-- How a read request ends. -/
inductive ReadReply where
  | aborted
  | answered (pushed : List Byte) (ret : Int)
deriving DecidableEq

/-- `calloc(1, size)`: no object is larger than `PTRDIFF_MAX`. -/
def callocFails (env : ReadEnv) (size : Nat) : Bool :=
  env.outOfMemory || decide (2 ^ 63 ≤ size)

/-- The handler's system call: `read` for the offset `-1`, else `pread`. -/
def handlerRead (env : ReadEnv) (req : HvacRpcIn) (file : Option OpenFile) :
    Option (List Byte) × Option OpenFile :=
  let size := Word.toUInt64 req.inputVal
  match file with
  | none   => (none, none)
  | some f =>
      if env.ioError then (none, file)
      else if req.offset = -1 then
        match f.read size with
        | none             => (none, file)
        | some (bytes, f') => (some bytes, some f')
      else (f.pread size req.offset, file)

/-- The `ssize_t` that the system call returns. -/
def readbytes (result : Option (List Byte)) : Int :=
  match result with
  | none       => -1
  | some bytes => bytes.length

/-- `hvac_rpc_handler_bulk_cb`: the response carries the size of the transfer. -/
def hvacRpcHandlerBulkCb (buffer : List Byte) (size : Nat) : ReadReply :=
  .answered (buffer.take size) (Word.toInt32 size)

/-- `hvac_rpc_handler`, with the file that the descriptor is open on afterwards. -/
def hvacRpcHandler (env : ReadEnv) (req : HvacRpcIn) (file : Option OpenFile) :
    ReadReply × Option OpenFile :=
  let size := Word.toUInt64 req.inputVal
  -- assert(hvac_rpc_state_p->buffer)
  if callocFails env size then (.aborted, file)
  else
    let (result, file') := handlerRead env req file
    let bytes := result.getD []
    let buffer := bytes ++ List.replicate (size - bytes.length) 0
    let size' := Word.toUInt64 (readbytes result)
    -- HG_Bulk_transfer fails beyond either bulk handle, and assert(ret == 0) with it
    if size' ≤ req.bulkHandle ∧ size' ≤ size then (hvacRpcHandlerBulkCb buffer size', file')
    else (.aborted, file')

/-! ## What the system call returns -/

/-- Where a request reads: `start` is the file position. -/
def readStart (offset : Int) (start : Nat) : Int := if offset = -1 then start else offset

/-- The kernel serves a request for `size` bytes: the descriptor is open on a regular
file, the transfer begins and ends where `loff_t` can, and the device works. -/
def Readable (env : ReadEnv) (size : Nat) (offset : Int) (file : Option OpenFile) : Prop :=
  env.ioError = false ∧ ∃ data pos, file = some ⟨.regular data, pos⟩ ∧
    OpenFile.Transferable (readStart offset pos) size

theorem handlerRead_of_ioError {env : ReadEnv} {req : HvacRpcIn} {file : Option OpenFile}
    (hio : env.ioError = true) : (handlerRead env req file).1 = none := by
  cases file <;> simp [handlerRead, hio]

/-- On a regular file a request is granted, or refused, at the place where it reads;
only the offset `-1` moves the file position. -/
theorem handlerRead_regular_eq {env : ReadEnv} {req : HvacRpcIn} {data : List Byte} {pos : Nat}
    (hio : env.ioError = false) :
    let size := Word.toUInt64 req.inputVal
    let start := readStart req.offset pos
    let bytes := slice data start.toNat (min size OpenFile.maxRwCount)
    handlerRead env req (some ⟨.regular data, pos⟩) =
      if OpenFile.Transferable start size then
        (some bytes, some ⟨.regular data, if req.offset = -1 then pos + bytes.length else pos⟩)
      else (none, some ⟨.regular data, pos⟩) := by
  by_cases hseq : req.offset = -1
  · by_cases h : OpenFile.Transferable pos (Word.toUInt64 req.inputVal)
    · simp [handlerRead, readStart, hio, hseq, h, OpenFile.read_regular h]
    · simp [handlerRead, readStart, hio, hseq, h, OpenFile.read_refused h]
  · by_cases h : OpenFile.Transferable req.offset (Word.toUInt64 req.inputVal)
    · simp [handlerRead, readStart, hio, hseq, h, OpenFile.pread_regular h]
    · simp [handlerRead, readStart, hio, hseq, h, OpenFile.pread_refused h]

theorem handlerRead_isSome_iff {env : ReadEnv} {req : HvacRpcIn} {file : Option OpenFile} :
    (handlerRead env req file).1.isSome ↔
      Readable env (Word.toUInt64 req.inputVal) req.offset file := by
  cases hio : env.ioError with
  | true => simp [handlerRead_of_ioError hio, Readable, hio]
  | false =>
      rcases file with _ | ⟨_ | _, pos⟩
      · simp [handlerRead, Readable]
      · next data =>
          rw [handlerRead_regular_eq hio]
          by_cases h : OpenFile.Transferable (readStart req.offset pos)
            (Word.toUInt64 req.inputVal) <;> simp [Readable, hio, h]
      · by_cases hseq : req.offset = -1 <;>
          simp [handlerRead, Readable, OpenFile.pread, hio, hseq]

/-- Where the bytes of a served read come from, and where the file stands then:
only the offset `-1` reads at the file position and moves it. -/
theorem handlerRead_regular {env : ReadEnv} {req : HvacRpcIn} {data bytes : List Byte} {pos : Nat}
    (h : (handlerRead env req (some ⟨.regular data, pos⟩)).1 = some bytes) :
    (req.offset = -1 ∨ 0 ≤ req.offset) ∧
      bytes = slice data (if req.offset = -1 then pos else req.offset.toNat)
        (min (Word.toUInt64 req.inputVal) OpenFile.maxRwCount) ∧
      (handlerRead env req (some ⟨.regular data, pos⟩)).2 =
        some ⟨.regular data, if req.offset = -1 then pos + bytes.length else pos⟩ := by
  obtain ⟨hio, data', pos', hfile, htransfer⟩ := handlerRead_isSome_iff.mp (by rw [h]; rfl)
  cases hfile
  rw [handlerRead_regular_eq hio, if_pos htransfer] at h ⊢
  obtain rfl := Option.some.inj h
  by_cases hseq : req.offset = -1
  · simp [readStart, hseq]
  · simp only [readStart, hseq, if_false] at htransfer ⊢
    simp [htransfer.1]

theorem handlerRead_length_le {env : ReadEnv} {req : HvacRpcIn} {file : Option OpenFile}
    {bytes : List Byte} (h : (handlerRead env req file).1 = some bytes) :
    bytes.length ≤ min (Word.toUInt64 req.inputVal) OpenFile.maxRwCount := by
  obtain ⟨_, data, pos, rfl, _⟩ := handlerRead_isSome_iff.mp (by rw [h]; rfl)
  rw [(handlerRead_regular h).2.1]
  exact slice_length_le _ _ _

/-! ## The response -/

/-- A read that the kernel serves is answered with its bytes and their number, if
the client's buffer takes them. -/
theorem hvacRpcHandler_of_read {env : ReadEnv} {req : HvacRpcIn} {file file' : Option OpenFile}
    {bytes : List Byte} (hbuf : callocFails env (Word.toUInt64 req.inputVal) = false)
    (hbulk : bytes.length ≤ req.bulkHandle)
    (h : handlerRead env req file = (some bytes, file')) :
    hvacRpcHandler env req file = (.answered bytes bytes.length, file') := by
  have hlen : bytes.length ≤ min (Word.toUInt64 req.inputVal) OpenFile.maxRwCount :=
    handlerRead_length_le (by rw [h])
  have hmax : bytes.length < 2 ^ 31 :=
    (hlen.trans (Nat.min_le_right _ _)).trans_lt OpenFile.maxRwCount_lt
  have hown : bytes.length ≤ Word.toUInt64 req.inputVal := hlen.trans (Nat.min_le_left _ _)
  have hsize : Word.toUInt64 (bytes.length : Int) = bytes.length := by
    simp only [Word.toUInt64]
    omega
  have hret : Word.toInt32 (bytes.length : Int) = bytes.length :=
    Word.toInt32_of_range (by omega) (by omega)
  have hfit : bytes.length ≤ req.bulkHandle ∧ bytes.length ≤ Word.toUInt64 req.inputVal :=
    ⟨hbulk, hown⟩
  simp [hvacRpcHandler, hbuf, h, readbytes, hsize, hfit, hvacRpcHandlerBulkCb, hret]

/-- A read that fails makes the transfer size `2 ^ 64 - 1`, which no buffer has:
the handler runs into its assertion. -/
theorem hvacRpcHandler_of_failed_read {env : ReadEnv} {req : HvacRpcIn}
    {file file' : Option OpenFile} (hbuf : callocFails env (Word.toUInt64 req.inputVal) = false)
    (h : handlerRead env req file = (none, file')) :
    hvacRpcHandler env req file = (.aborted, file') := by
  have hsize : Word.toUInt64 req.inputVal < 2 ^ 63 := by
    simp only [callocFails, Bool.or_eq_false_iff, decide_eq_false_iff_not] at hbuf
    omega
  have hfit : ¬ (2 ^ 64 - 1 ≤ req.bulkHandle ∧ 2 ^ 64 - 1 ≤ Word.toUInt64 req.inputVal) := by
    omega
  simp only [hvacRpcHandler, hbuf, h, readbytes, Word.toUInt64_neg_one, hfit,
    Bool.false_eq_true, if_false]

/-- The handler answers with what the system call read, or ends the process. -/
theorem hvacRpcHandler_cases (env : ReadEnv) (req : HvacRpcIn) (file : Option OpenFile) :
    (hvacRpcHandler env req file).1 = .aborted ∨
      ∃ bytes, (handlerRead env req file).1 = some bytes ∧
        hvacRpcHandler env req file =
          (.answered bytes bytes.length, (handlerRead env req file).2) := by
  cases hbuf : callocFails env (Word.toUInt64 req.inputVal) with
  | true => simp [hvacRpcHandler, hbuf]
  | false =>
      cases hread : handlerRead env req file with
      | mk result file' =>
          cases result with
          | none => exact .inl (by rw [hvacRpcHandler_of_failed_read hbuf hread])
          | some bytes =>
              by_cases hbulk : bytes.length ≤ req.bulkHandle
              · exact .inr ⟨bytes, rfl, hvacRpcHandler_of_read hbuf hbulk hread⟩
              · have hmax : bytes.length ≤ OpenFile.maxRwCount :=
                  (handlerRead_length_le (by rw [hread])).trans (Nat.min_le_right _ _)
                have hsize : Word.toUInt64 (bytes.length : Int) = bytes.length := by
                  have : bytes.length < 2 ^ 31 := hmax.trans_lt OpenFile.maxRwCount_lt
                  simp only [Word.toUInt64]
                  omega
                simp [hvacRpcHandler, hbuf, hread, readbytes, hsize, hbulk]

/-- The allocated size of a request that reaches the system call is within both buffers. -/
theorem readRequest_size_le_of_calloc {env : ReadEnv} {accessfd : Int} {count : Nat} {offset : Int}
    (hbuf : callocFails env
      (Word.toUInt64 (readRequest accessfd count offset).inputVal) = false) :
    Word.toUInt64 (readRequest accessfd count offset).inputVal ≤
      (readRequest accessfd count offset).bulkHandle := by
  apply readRequest_size_le
  simp only [callocFails, Bool.or_eq_false_iff, decide_eq_false_iff_not] at hbuf
  have hrange := Word.toInt32_range (Word.toInt64 count)
  rw [readRequest_inputVal] at hbuf ⊢
  simp only [Word.toUInt64] at hbuf
  omega

/-! ## Failed reads -/

/-- A request that reaches the system call is reported: a failed read pushes
nothing and answers with a negative `ret`, a read of `n` bytes pushes exactly
these and answers with `n`. -/
def ReadReported (env : ReadEnv) (req : HvacRpcIn) (file : Option OpenFile) : Prop :=
  callocFails env (Word.toUInt64 req.inputVal) = false →
    ((handlerRead env req file).1 = none →
      ∃ ret < 0, (hvacRpcHandler env req file).1 = .answered [] ret) ∧
    ∀ bytes, (handlerRead env req file).1 = some bytes →
      (hvacRpcHandler env req file).1 = .answered bytes bytes.length

/-- A client's read request is reported exactly when the kernel serves it, or
when the buffer for it cannot be allocated and it never reaches the kernel. -/
theorem readReported_iff (env : ReadEnv) (accessfd : Int) (count : Nat) (offset : Int)
    (file : Option OpenFile) :
    let size := Word.toUInt64 (readRequest accessfd count offset).inputVal
    ReadReported env (readRequest accessfd count offset) file ↔
      (callocFails env size = true ∨ Readable env size offset file) := by
  set req := readRequest accessfd count offset with hreq
  have hiff : (handlerRead env req file).1.isSome ↔
      Readable env (Word.toUInt64 req.inputVal) offset file :=
    @handlerRead_isSome_iff env req file
  dsimp only
  cases hbuf : callocFails env (Word.toUInt64 req.inputVal) with
  | true => simp [ReadReported, hbuf]
  | false =>
      rw [ReadReported, ← hiff]
      simp only [hbuf, true_implies, Bool.false_eq_true, false_or]
      cases hread : handlerRead env req file with
      | mk result file' =>
          cases result with
          | none =>
              -- the handler aborts, so nothing is answered
              have habort := hvacRpcHandler_of_failed_read hbuf hread
              simp [habort]
          | some bytes =>
              have hown : bytes.length ≤ Word.toUInt64 req.inputVal :=
                (handlerRead_length_le (by rw [hread])).trans (Nat.min_le_left _ _)
              have hbulk : bytes.length ≤ req.bulkHandle :=
                hown.trans (readRequest_size_le_of_calloc (hreq ▸ hbuf))
              have hanswer := hvacRpcHandler_of_read hbuf hbulk hread
              simp [hanswer]

/-- A read of 16 bytes on a descriptor that is open on a directory is not reported. -/
theorem directory_read_not_reported :
    ¬ ∀ env accessfd count offset file,
      ReadReported env (readRequest accessfd count offset) file := by
  intro h
  have hdir := h ⟨false, false⟩ 5 16 (-1) (some ⟨.directory, 0⟩)
  obtain ⟨ret, _, hret⟩ := (hdir (by decide)).1 (by decide)
  exact absurd hret (by simp [show (hvacRpcHandler ⟨false, false⟩ (readRequest 5 16 (-1))
    (some ⟨.directory, 0⟩)).1 = .aborted by decide])

end MtHvac
