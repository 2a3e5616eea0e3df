-- SUMMARY: The request and response records of the RPCs, and how the client fills in a read request.
import MtHvac.Kernel.File

/-!
# RPC messages

The records that `MERCURY_GEN_PROC` declares in `mthvac_comm.h`. All fields are
signed: `int32_t`, except for the `int64_t` offset of a read.
-/

namespace MtHvac

open Base

/-- `hvac_rpc_in_t`. Of the bulk handle only the length of the client's buffer
behind it matters. -/
structure HvacRpcIn where
  inputVal : Int
  bulkHandle : Nat
  accessfd : Int
  offset : Int
deriving DecidableEq

/-- The request that `hvac_client_comm_gen_read_rpc` sends for `count` bytes: the
`size_t` count of the caller is an `ssize_t` parameter, which becomes the bulk
length and, cut down to 32 bits, `input_val`. -/
def readRequest (accessfd : Int) (count : Nat) (offset : Int) : HvacRpcIn :=
  let count' := Word.toInt64 count
  { inputVal := Word.toInt32 count'
    bulkHandle := Word.toUInt64 count'
    accessfd := accessfd
    offset := offset }

theorem readRequest_inputVal (accessfd : Int) (count : Nat) (offset : Int) :
    (readRequest accessfd count offset).inputVal = Word.toInt32 (Word.toInt64 count) := by
  simp only [readRequest]

@[simp] theorem readRequest_offset (accessfd : Int) (count : Nat) (offset : Int) :
    (readRequest accessfd count offset).offset = offset := rfl

@[simp] theorem readRequest_accessfd (accessfd : Int) (count : Nat) (offset : Int) :
    (readRequest accessfd count offset).accessfd = accessfd := rfl

/-- A size that the server can allocate is never above the client's buffer. -/
theorem readRequest_size_le {accessfd : Int} {count : Nat} {offset : Int}
    (h : 0 ≤ (readRequest accessfd count offset).inputVal) :
    Word.toUInt64 (readRequest accessfd count offset).inputVal ≤
      (readRequest accessfd count offset).bulkHandle := by
  simp only [readRequest, Word.toUInt64, Word.toInt32, Word.toInt64, Int.bmod_def] at h ⊢
  omega

end MtHvac
