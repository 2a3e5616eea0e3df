-- SUMMARY: Open file descriptions of the kernel: read, pread, write and lseek on one of them.
import MtHvac.Base.Extent
import MtHvac.Base.Word

/-!
# Open files

What the kernel does with one open file description: a regular file with its
bytes, or a directory, and the file position. A call that fails with `-1` is
`none`; the program never looks at `errno`.
-/

namespace MtHvac

open Base

abbrev Byte := UInt8

abbrev Path := List Char

/-- What a descriptor can be opened on. -/
inductive Node where
  | regular (data : List Byte)
  | directory
deriving DecidableEq

structure OpenFile where
  node : Node
  pos : Nat
deriving DecidableEq

namespace OpenFile

/-- `read` and its relatives transfer at most this many bytes in one call. -/
@[irreducible] def maxRwCount : Nat := 0x7ffff000

theorem maxRwCount_pos : 0 < maxRwCount := by
  simp [maxRwCount]

theorem maxRwCount_lt : maxRwCount < 2 ^ 31 := by
  simp [maxRwCount]

/-- `rw_verify_area`: a transfer begins and ends at positions that `loff_t` can express. -/
def Transferable (start : Int) (n : Nat) : Prop := 0 ≤ start ∧ start + n < 2 ^ 63

instance (start : Int) (n : Nat) : Decidable (Transferable start n) :=
  inferInstanceAs (Decidable (_ ∧ _))

/-- How many bytes a transfer is granted. -/
def granted (start : Int) (n : Nat) : Nat :=
  if Transferable start n then min n maxRwCount else 0

/-- `read(2)`: the bytes at the file position, which moves behind them. -/
def read (f : OpenFile) (n : Nat) : Option (List Byte × OpenFile) :=
  match f.node with
  | .directory    => none
  | .regular data =>
      if Transferable f.pos n then
        let bytes := slice data f.pos (min n maxRwCount)
        some (bytes, { f with pos := f.pos + bytes.length })
      else none

/-- `pread(2)`: the bytes at `offset`; the file position does not move. -/
def pread (f : OpenFile) (n : Nat) (offset : Int) : Option (List Byte) :=
  match f.node with
  | .directory    => none
  | .regular data =>
      if Transferable offset n then some (slice data offset.toNat (min n maxRwCount)) else none

/-- `write(2)`: the bytes go to the file position, which moves behind them. -/
def write (f : OpenFile) (bytes : List Byte) : Option OpenFile :=
  match f.node with
  | .directory    => none
  | .regular data =>
      if Transferable f.pos bytes.length then
        let written := bytes.take maxRwCount
        some ⟨.regular (overwrite 0 data f.pos written), f.pos + written.length⟩
      else none

/-- Where a seek leads. The file system reports no holes: `SEEK_DATA` finds each byte of
the file, and `SEEK_HOLE` the end of the file. -/
def sought (f : OpenFile) (offset whence : Int) : Option Int :=
  match f.node, whence with
  | _, 0             => some offset
  | _, 1             => some (f.pos + offset)
  | .regular data, 2 => some (data.length + offset)
  | .regular data, 3 => if 0 ≤ offset ∧ offset < data.length then some offset else none
  | .regular data, 4 => if 0 ≤ offset ∧ offset < data.length then some data.length else none
  | _, _             => none

/-- `lseek(2)` and `lseek64(2)`: a position that `off_t` cannot express is refused. -/
def lseek (f : OpenFile) (offset whence : Int) : Option (Int × OpenFile) :=
  (f.sought offset whence).bind fun r =>
    if 0 ≤ r ∧ r < 2 ^ 63 then some (r, { f with pos := r.toNat }) else none

/-- The file after `lseek`, whether or not it fails. -/
def moved (f : OpenFile) (offset whence : Int) : OpenFile :=
  ((f.lseek offset whence).map Prod.snd).getD f

/-- The bytes of a write that reach the file. -/
def accepted (f : OpenFile) (bytes : List Byte) : List Byte :=
  if Transferable f.pos bytes.length then bytes.take maxRwCount else []

/-- The file after `write`, whether or not it fails. -/
def written (f : OpenFile) (bytes : List Byte) : OpenFile := (f.write bytes).getD f

/-- The bytes from the file position on. -/
def ahead (f : OpenFile) : List Byte :=
  match f.node with
  | .directory    => []
  | .regular data => data.drop f.pos

@[simp] theorem ahead_regular (data : List Byte) (pos : Nat) :
    ahead ⟨.regular data, pos⟩ = data.drop pos := rfl

/-! ## Seeking -/

section Seek

variable {f f' f'' : OpenFile} {offset offset' whence r : Int}

theorem lseek_eq_some :
    f.lseek offset whence = some (r, f') ↔
      f.sought offset whence = some r ∧ (0 ≤ r ∧ r < 2 ^ 63) ∧ f' = { f with pos := r.toNat } := by
  simp only [lseek, Option.bind_eq_some_iff, Option.ite_none_right_eq_some, Option.some.injEq,
    Prod.mk.injEq]
  constructor
  · rintro ⟨_, hsought, hrange, rfl, rfl⟩
    exact ⟨hsought, hrange, rfl⟩
  · rintro ⟨hsought, hrange, rfl⟩
    exact ⟨r, hsought, hrange, rfl, rfl⟩

@[simp] theorem moved_node (f : OpenFile) (offset whence : Int) :
    (f.moved offset whence).node = f.node := by
  simp only [moved]
  cases h : f.lseek offset whence with
  | none => rfl
  | some x => simp [(lseek_eq_some.mp h).2.2]

/-- Two offsets that lead to one position are the same, or lie before it. -/
theorem offset_of_lseek (h : f.lseek offset whence = some (r, f'))
    (h' : f.lseek offset' whence = some (r, f'')) :
    offset = offset' ∨ 0 ≤ offset ∧ offset < r := by
  have hs := (lseek_eq_some.mp h).1
  have hs' := (lseek_eq_some.mp h').1
  unfold sought at hs hs'
  split at hs
  case h_6 => cases hs
  all_goals
    simp only [*, Option.ite_none_right_eq_some, Option.some.injEq] at hs hs'
    omega

end Seek

/-! ## Reading and writing -/

theorem read_regular {data : List Byte} {pos n : Nat} (h : Transferable pos n) :
    read ⟨.regular data, pos⟩ n =
      some (slice data pos (min n maxRwCount),
        ⟨.regular data, pos + (slice data pos (min n maxRwCount)).length⟩) := by
  simp only [read, if_pos h]

theorem read_refused {data : List Byte} {pos n : Nat} (h : ¬ Transferable pos n) :
    read ⟨.regular data, pos⟩ n = none := by
  simp only [read, if_neg h]

@[simp] theorem read_directory (pos n : Nat) : read ⟨.directory, pos⟩ n = none := rfl

theorem pread_regular {data : List Byte} {pos n : Nat} {offset : Int} (h : Transferable offset n) :
    pread ⟨.regular data, pos⟩ n offset = some (slice data offset.toNat (min n maxRwCount)) := by
  simp only [pread, if_pos h]

theorem pread_refused {data : List Byte} {pos n : Nat} {offset : Int}
    (h : ¬ Transferable offset n) : pread ⟨.regular data, pos⟩ n offset = none := by
  simp only [pread, if_neg h]

theorem written_regular {f : OpenFile} {data : List Byte} {pos : Nat}
    (hf : f = ⟨.regular data, pos⟩) (bytes : List Byte) :
    f.written bytes =
      ⟨.regular (overwrite 0 data pos (f.accepted bytes)), pos + (f.accepted bytes).length⟩ := by
  subst hf
  by_cases h : Transferable pos bytes.length
  · simp [written, write, accepted, h]
  · simp [written, write, accepted, h]

/-- The number of bytes of one call fits an `int`. -/
@[simp] theorem toInt32_slice_length (data : List Byte) (pos n : Nat) :
    Word.toInt32 (slice data pos (min n maxRwCount)).length =
      (slice data pos (min n maxRwCount)).length := by
  have hlen : (slice data pos (min n maxRwCount)).length ≤ maxRwCount :=
    (slice_length_le data pos _).trans (Nat.min_le_right _ _)
  have hmax := maxRwCount_lt
  exact Word.toInt32_of_range (by omega) (by omega)

theorem read_length_le {f f' : OpenFile} {n : Nat} {bytes : List Byte}
    (h : f.read n = some (bytes, f')) : bytes.length ≤ min n maxRwCount := by
  obtain ⟨node, pos⟩ := f
  cases node with
  | directory => simp at h
  | regular data =>
      simp only [read, Option.ite_none_right_eq_some, Option.some.injEq, Prod.mk.injEq] at h
      exact h.2.1 ▸ slice_length_le _ _ _

end OpenFile
end MtHvac
