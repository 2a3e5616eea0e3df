-- SUMMARY: The abstract file server: what a client may rely on, with neither cache nor data mover.
import MtHvac.Base.Machine
import MtHvac.Base.Table
import MtHvac.Kernel.File

/-!
# The plain file server

The purpose of the server, stated without its machinery: files have contents
that never change, and a descriptor is a path with a position. An answered read
carries exactly the bytes of that path.
-/

namespace MtHvac

open Base

namespace Plain

structure Desc where
  path : Path
  pos : Nat
deriving DecidableEq

structure State where
  files : Table Path (List Byte)
  descs : Table Int Desc

inductive Event where
  | created (path : Path) (data : List Byte)
  | opened (fd : Int) (path : Path)
  /-- A read of `size` bytes is answered; the offset `-1` asks for the descriptor's
  own position. -/
  | answered (fd : Int) (size : Nat) (offset : Int) (bytes : List Byte) (ret : Int)
  | moved (fd : Int) (pos : Nat)
  | closed (fd : Int)
deriving DecidableEq

/-- Where a read on the descriptor starts. -/
def Desc.start (d : Desc) (offset : Int) : Nat :=
  if offset = -1 then d.pos else offset.toNat

/-- The descriptor after a read that returned `n` bytes. -/
def Desc.advance (d : Desc) (offset : Int) (n : Nat) : Desc :=
  if offset = -1 then { d with pos := d.pos + n } else d

/-- The bytes a read must return, where the path of the descriptor has a content. -/
def State.Returns (a : State) (d : Desc) (size : Nat) (offset : Int) (bytes : List Byte) : Prop :=
  ∀ data, a.files d.path = some data →
    bytes = slice data (d.start offset) (min size OpenFile.maxRwCount)

instance (a : State) (d : Desc) (size : Nat) (offset : Int) (bytes : List Byte) :
    Decidable (a.Returns d size offset bytes) :=
  match h : a.files d.path with
  | none      => .isTrue fun _ hdata => absurd (h.symm.trans hdata) nofun
  | some data =>
      decidable_of_iff (bytes = slice data (d.start offset) (min size OpenFile.maxRwCount))
        ⟨fun hb _ hdata => Option.some.inj (h.symm.trans hdata) ▸ hb, fun hr => hr data h⟩

def step (a : State) : Event → Option State
  | .created path data =>
      guarded (a.files path = none) { a with files := a.files.set path data }
  | .opened fd path =>
      guarded (a.descs fd = none) { a with descs := a.descs.set fd ⟨path, 0⟩ }
  | .answered fd size offset bytes ret =>
      (a.descs fd).bind fun d =>
        guarded ((offset = -1 ∨ 0 ≤ offset) ∧ ret = bytes.length ∧ a.Returns d size offset bytes)
          { a with descs := a.descs.set fd (d.advance offset bytes.length) }
  | .moved fd pos =>
      (a.descs fd).map fun d => { a with descs := a.descs.set fd { d with pos := pos } }
  | .closed fd =>
      guarded (a.descs fd ≠ none) { a with descs := a.descs.erase fd }

def machine : Machine State Event where
  init := { files := .empty, descs := .empty }
  step := step

end Plain
end MtHvac
