-- SUMMARY: Reads, lseeks and writes on a tracked descriptor next to the same calls on one open file: when reads return the same.
import MtHvac.System.Descriptor

/-!
# The file position of a tracked descriptor

`read` goes to the server's open file, `lseek` and `write` go to the kernel's.
Next to a descriptor that is used in this way, the same calls are made on a
single open file, as without the library.
-/

namespace MtHvac.System.FilePosition

open Base Client

/-! ## State -/

/-- A descriptor that is tracked and has a remote descriptor. The server opened
the file itself, or a copy with the bytes in `cache`. -/
structure Setup where
  cfg : Config
  fd : Int
  world : World
  data : List Byte
  cache : Option (List Byte)
  writable : Bool
  tracked : (world.fdMap fd).isSome
  redirected : Redirected world fd

/-- `plainFile` is the single open file; `returned` and `plainReturned` are what
the reads returned here and there, bytes or `-1`. -/
structure State where
  descriptor : Descriptor
  plainFile : OpenFile
  returned : List (Option (List Byte))
  plainReturned : List (Option (List Byte))

inductive Call where
  | read (count : Nat) (env : ReadEnv)
  | lseek (offset whence : Int)
  | write (bytes : List Byte)
deriving DecidableEq

variable (u : Setup)

def init : State where
  descriptor := { Descriptor.opened u.world u.data with
    serverFile := ⟨.regular (u.cache.getD u.data), 0⟩ }
  plainFile := ⟨.regular u.data, 0⟩
  returned := []
  plainReturned := []

/-- What the caller of the read wrapper gets. -/
def received (ret : Int) (buffer : Extent Byte) : Option (List Byte) :=
  if ret < 0 then none else some (buffer.items.take ret.toNat)

/-- The server's file after a `write` through the kernel. A server that has the file
itself open sees the bytes, but its position stays. -/
def serverWritten (d : Descriptor) (bytes : List Byte) : OpenFile :=
  if u.cache.isSome then d.serverFile
  else { d.serverFile with node := (d.kernelFile.written bytes).node }

/-- Every request is sent. -/
def step (s : State) : Call → Option State
  | .read count env =>
      (Program.exec (handler ⟨true, env⟩) (readWrapper u.cfg u.fd count) s.descriptor).map
        fun (ret, d) =>
          { descriptor := d
            plainFile := ((s.plainFile.read count).map Prod.snd).getD s.plainFile
            returned := s.returned ++ [received ret d.buffer]
            plainReturned := s.plainReturned ++ [(s.plainFile.read count).map Prod.fst] }
  | .lseek offset whence =>
      some { s with
        descriptor := { s.descriptor with
          kernelFile := s.descriptor.kernelFile.moved offset whence }
        plainFile := s.plainFile.moved offset whence }
  | .write bytes =>
      if u.writable then
        some { s with
          descriptor := { s.descriptor with
            kernelFile := s.descriptor.kernelFile.written bytes
            serverFile := serverWritten u s.descriptor bytes }
          plainFile := s.plainFile.written bytes }
      else some s

def machine : Machine State Call where
  init := init u
  step := step u

/-! ## What the state keeps -/

/-- The world does not change, and the open files stay regular files. -/
def Inv (s : State) : Prop :=
  s.descriptor.world = u.world ∧
    ∃ kdata kpos sdata spos pdata ppos,
      s.descriptor.kernelFile = ⟨.regular kdata, kpos⟩ ∧
      s.descriptor.serverFile = ⟨.regular sdata, spos⟩ ∧
      s.plainFile = ⟨.regular pdata, ppos⟩ ∧
      (u.cache = none → sdata = kdata)

variable {u}

theorem moved_regular (data : List Byte) (pos : Nat) (offset whence : Int) :
    ∃ pos', OpenFile.moved ⟨.regular data, pos⟩ offset whence = ⟨.regular data, pos'⟩ := by
  have hnode := OpenFile.moved_node ⟨.regular data, pos⟩ offset whence
  exact ⟨_, congrArg (OpenFile.mk · _) hnode⟩

/-- The call goes to the server, which has a regular file; the single file may refuse it. -/
theorem read_cases {s s' : State} {count : Nat} {env : ReadEnv} {sdata pdata : List Byte}
    {spos ppos : Nat} (hworld : s.descriptor.world = u.world)
    (hserver : s.descriptor.serverFile = ⟨.regular sdata, spos⟩)
    (hplain : s.plainFile = ⟨.regular pdata, ppos⟩)
    (h : step u s (.read count env) = some s') :
    let bytes := slice sdata spos (min (remoteCount count) OpenFile.maxRwCount)
    let plain := slice pdata ppos (OpenFile.granted ppos count)
    s'.descriptor.world = u.world ∧ s'.descriptor.kernelFile = s.descriptor.kernelFile ∧
      s'.descriptor.serverFile = ⟨.regular sdata, spos + bytes.length⟩ ∧
      s'.plainFile = ⟨.regular pdata, ppos + plain.length⟩ ∧
      s'.returned = s.returned ++ [some bytes] ∧
      s'.plainReturned =
        s.plainReturned ++ [if OpenFile.Transferable ppos count then some plain else none] := by
  obtain ⟨⟨ret, d⟩, hexec, rfl⟩ := Option.map_eq_some_iff.mp h
  have hremote : Service.Remote ⟨true, env⟩ s.descriptor.world u.fd :=
    ⟨by rw [hworld]; exact u.redirected, rfl⟩
  obtain ⟨rfl, rfl⟩ := Descriptor.exec_readWrapper_remote (by rw [hworld]; exact u.tracked) hremote
    hserver hexec
  have hreceived (bytes : List Byte) : received bytes.length ⟨spos, bytes⟩ = some bytes := by
    simp [received]
  refine ⟨hworld, rfl, rfl, ?_, congrArg (s.returned ++ [·]) (hreceived _), ?_⟩
  · by_cases hgrant : OpenFile.Transferable ppos count
    · simp only [hplain, OpenFile.read_regular hgrant, Option.map_some, Option.getD_some,
        OpenFile.granted, if_pos hgrant]
    · simp only [hplain, OpenFile.read_refused hgrant, Option.map_none, Option.getD_none,
        OpenFile.granted, if_neg hgrant, slice_zero, List.length_nil, Nat.add_zero]
  · by_cases hgrant : OpenFile.Transferable ppos count
    · simp only [hplain, OpenFile.read_regular hgrant, Option.map_some, OpenFile.granted,
        if_pos hgrant]
    · simp only [hplain, OpenFile.read_refused hgrant, Option.map_none, if_neg hgrant]

/-- The bytes go to both kernel files, each at its own position. -/
theorem write_cases {s s' : State} {bytes kdata sdata pdata : List Byte} {kpos spos ppos : Nat}
    (hwritable : u.writable = true) (hkernel : s.descriptor.kernelFile = ⟨.regular kdata, kpos⟩)
    (hserver : s.descriptor.serverFile = ⟨.regular sdata, spos⟩)
    (hplain : s.plainFile = ⟨.regular pdata, ppos⟩) (h : step u s (.write bytes) = some s') :
    s'.descriptor.world = s.descriptor.world ∧
      s'.descriptor.kernelFile =
        ⟨.regular (overwrite 0 kdata kpos (s.descriptor.kernelFile.accepted bytes)),
          kpos + (s.descriptor.kernelFile.accepted bytes).length⟩ ∧
      s'.descriptor.serverFile = ⟨.regular (if u.cache.isSome then sdata
        else overwrite 0 kdata kpos (s.descriptor.kernelFile.accepted bytes)), spos⟩ ∧
      s'.plainFile = ⟨.regular (overwrite 0 pdata ppos (s.plainFile.accepted bytes)),
        ppos + (s.plainFile.accepted bytes).length⟩ ∧
      s'.returned = s.returned ∧ s'.plainReturned = s.plainReturned := by
  have hkernel' := OpenFile.written_regular hkernel bytes
  have hplain' := OpenFile.written_regular hplain bytes
  simp only [step, hwritable, if_true, Option.some.injEq] at h
  subst h
  refine ⟨rfl, hkernel', ?_, hplain', rfl, rfl⟩
  simp only [serverWritten, hkernel', hserver]
  by_cases hcache : u.cache.isSome <;> simp [hcache]

theorem inv_invariant : (machine u).Invariant (Inv u) := by
  refine ⟨⟨rfl, u.data, 0, u.cache.getD u.data, 0, u.data, 0, rfl, rfl, rfl, ?_⟩, ?_⟩
  · intro hcache
    rw [hcache]
    rfl
  intro s s' e _ hi he
  obtain ⟨hworld, kdata, kpos, sdata, spos, pdata, ppos, hkernel, hserver, hplain, hshared⟩ := hi
  cases e with
  | read count env =>
      obtain ⟨hworld', hkernel', hserver', hplain', _⟩ := read_cases hworld hserver hplain he
      exact ⟨hworld', _, _, _, _, _, _, hkernel'.trans hkernel, hserver', hplain', hshared⟩
  | lseek offset whence =>
      obtain rfl := Option.some.inj he
      obtain ⟨kpos', hk⟩ := moved_regular kdata kpos offset whence
      obtain ⟨ppos', hp⟩ := moved_regular pdata ppos offset whence
      exact ⟨hworld, kdata, kpos', sdata, spos, pdata, ppos', by rw [← hk, ← hkernel], hserver,
        by rw [← hp, ← hplain], hshared⟩
  | write bytes =>
      cases hwritable : u.writable with
      | false =>
          simp only [machine, step, hwritable, Bool.false_eq_true, if_false,
            Option.some.injEq] at he
          subst he
          exact ⟨hworld, kdata, kpos, sdata, spos, pdata, ppos, hkernel, hserver, hplain, hshared⟩
      | true =>
          obtain ⟨hworld', hkernel', hserver', hplain', _⟩ :=
            write_cases hwritable hkernel hserver hplain he
          refine ⟨hworld'.trans hworld, _, _, _, _, _, _, hkernel', hserver', hplain', ?_⟩
          intro hcache
          simp [hcache]

/-! ## When the position is preserved -/

/-- The reads returned the same so far, and the same bytes lie ahead. -/
def Preserved (s : State) : Prop :=
  s.returned = s.plainReturned ∧ s.descriptor.serverFile.ahead = s.plainFile.ahead

/-- A read is harmless if the single file grants it, and the request asks for as many of
the bytes ahead as the call does, an `lseek` if it stays where it is or behind the end of
the file. A write is harmless if it writes nothing or at the end of the file, and leaves
the bytes ahead of the server as they are. -/
def Harmless (s : State) : Call → Prop
  | .read count _ =>
      let most := min OpenFile.maxRwCount s.plainFile.ahead.length
      OpenFile.Transferable s.plainFile.pos count ∧ min (remoteCount count) most = min count most
  | .lseek offset whence =>
      let file := s.plainFile.moved offset whence
      file.pos = s.plainFile.pos ∨ s.plainFile.ahead = [] ∧ file.ahead = []
  | .write bytes =>
      u.writable = false ∨ (s.plainFile.accepted bytes = [] ∨ s.plainFile.ahead = []) ∧
        (serverWritten u s.descriptor bytes).ahead = s.descriptor.serverFile.ahead

instance (s : State) (e : Call) : Decidable (Harmless (u := u) s e) :=
  match e with
  | .read _ _  => inferInstanceAs (Decidable (_ ∧ _))
  | .lseek _ _ => inferInstanceAs (Decidable (_ ∨ _ ∧ _))
  | .write _   => inferInstanceAs (Decidable (_ ∨ (_ ∨ _) ∧ _))

/-- Reads that take as many of the bytes ahead return the same and leave the same. -/
theorem slice_eq_iff {sdata pdata : List Byte} {spos ppos n m : Nat}
    (hahead : sdata.drop spos = pdata.drop ppos) :
    (slice sdata spos n = slice pdata ppos m ∧
        sdata.drop (spos + (slice sdata spos n).length) =
          pdata.drop (ppos + (slice pdata ppos m).length)) ↔
      min n (pdata.drop ppos).length = min m (pdata.drop ppos).length := by
  simp only [slice, ← List.drop_drop, hahead, List.take_eq_take_iff, and_iff_left_iff_imp]
  intro hlen
  rw [List.length_take, List.length_take, hlen]

theorem drop_eq_drop_iff {data : List Byte} {pos pos' : Nat} :
    data.drop pos = data.drop pos' ↔ pos' = pos ∨ data.drop pos = [] ∧ data.drop pos' = [] := by
  constructor
  · intro h
    by_cases hnil : data.drop pos = []
    · exact .inr ⟨hnil, h ▸ hnil⟩
    · have hlen := congrArg List.length h
      have hpos : 0 < (data.drop pos).length := List.length_pos_iff.mpr hnil
      simp only [List.length_drop] at hlen hpos
      exact .inl (by omega)
  · rintro (rfl | ⟨h, h'⟩)
    · rfl
    · rw [h, h']

/-- What a write leaves ahead of the single file is less than before or the same, and
ahead of the server more or the same. So it leaves the same only if neither changes. -/
theorem write_eq_iff {kdata sdata pdata written accepted server : List Byte} {kpos spos ppos : Nat}
    (hahead : sdata.drop spos = pdata.drop ppos) (hshared : u.cache = none → sdata = kdata)
    (hserver : server =
      (if u.cache.isSome then sdata else overwrite 0 kdata kpos written).drop spos) :
    server = (overwrite 0 pdata ppos accepted).drop (ppos + accepted.length) ↔
      (accepted = [] ∨ pdata.drop ppos = []) ∧ server = sdata.drop spos := by
  have hlonger : (sdata.drop spos).length ≤ server.length := by
    cases hcache : u.cache with
    | some copy => simp [hserver, hcache]
    | none =>
        have hle := length_le_overwrite 0 sdata kpos written
        simp only [hserver, hcache, ← hshared hcache, Option.isSome_none, Bool.false_eq_true,
          if_false, List.length_drop]
        omega
  rw [drop_overwrite, ← List.drop_drop, ← hahead]
  constructor
  · intro h
    have hlen : server.length = (sdata.drop spos).length - accepted.length := by
      rw [h, List.length_drop]
    have hnone : accepted = [] ∨ sdata.drop spos = [] := by
      rw [← List.length_eq_zero_iff, ← @List.length_eq_zero_iff _ (sdata.drop spos)]
      omega
    refine ⟨hnone, h.trans ?_⟩
    rcases hnone with hnil | hnil
    · simp [hnil]
    · simp [hnil]
  · rintro ⟨hnil | hnil, h⟩
    · simp [h, hnil]
    · simp [h, hnil]

/-- One call keeps what lies ahead exactly when it is harmless. -/
theorem preserved_step {s s' : State} {e : Call} (hi : Inv u s) (hs : Preserved s)
    (he : step u s e = some s') : Preserved s' ↔ Harmless (u := u) s e := by
  obtain ⟨hworld, kdata, kpos, sdata, spos, pdata, ppos, hkernel, hserver, hplain, hshared⟩ := hi
  obtain ⟨hreturned, hahead⟩ := hs
  rw [hserver, hplain, OpenFile.ahead_regular, OpenFile.ahead_regular] at hahead
  cases e with
  | read count env =>
      obtain ⟨_, _, hserver', hplain', hret, hpret⟩ := read_cases hworld hserver hplain he
      by_cases hgrant : OpenFile.Transferable ppos count
      · simp only [Preserved, Harmless, hserver', hplain', hret, hpret, hplain, hreturned,
          OpenFile.ahead_regular, List.append_cancel_left_eq, List.cons.injEq, and_true,
          OpenFile.granted, hgrant, if_true, true_and, Option.some.injEq, slice_eq_iff hahead,
          Nat.min_assoc]
      · simp [Preserved, Harmless, hret, hpret, hplain, hreturned, hgrant]
  | lseek offset whence =>
      obtain rfl := Option.some.inj he
      obtain ⟨ppos', hp⟩ := moved_regular pdata ppos offset whence
      simp only [Preserved, Harmless, hserver, hplain, hp, hreturned, OpenFile.ahead_regular,
        true_and, hahead]
      exact drop_eq_drop_iff
  | write bytes =>
      cases hwritable : u.writable with
      | false =>
          simp only [step, hwritable, Bool.false_eq_true, if_false, Option.some.injEq] at he
          subst he
          simp [Preserved, Harmless, hwritable, hserver, hplain, hreturned, hahead]
      | true =>
          obtain ⟨_, _, hserver', hplain', hret, hpret⟩ :=
            write_cases hwritable hkernel hserver hplain he
          have hserverWritten : (serverWritten u s.descriptor bytes).ahead =
              s'.descriptor.serverFile.ahead := by
            simp only [step, hwritable, if_true, Option.some.injEq] at he
            rw [← he]
          simp only [Preserved, Harmless, hserverWritten, hserver', hplain', hret, hpret, hreturned,
            hwritable, hserver, OpenFile.ahead_regular, true_and, Bool.true_eq_false, false_or]
          rw [write_eq_iff hahead hshared rfl, hplain, OpenFile.ahead_regular]

/-- Throughout a run, reads return what the single open file returns and the same bytes
lie ahead exactly when the server has the content of the file from the start and every
call is harmless. -/
theorem preserved_iff (u : Setup) (es : List Call) :
    (∀ s, (machine u).Visits es s → Preserved s) ↔
      u.cache.getD u.data = u.data ∧
        ∀ s e, (machine u).Takes es s e → Harmless (u := u) s e := by
  by_cases hcontent : u.cache.getD u.data = u.data
  · have hinit : Preserved (machine u).init := ⟨rfl, by simp [machine, init, hcontent]⟩
    rw [and_iff_right hcontent]
    exact Machine.always_iff hinit fun hr hs he =>
      preserved_step (inv_invariant.reachable hr) hs he
  · refine ⟨fun h => absurd (h (machine u).init ⟨[], List.nil_prefix, rfl⟩).2 ?_,
      fun h => absurd h.1 hcontent⟩
    simpa [machine, init, Descriptor.opened] using hcontent

/-- In every run whose calls are all harmless, on a server that has the content of the
file, each read returns what it returns on the single open file. -/
theorem reads_as_single_file {es : List Call} {s : State} (hcontent : u.cache.getD u.data = u.data)
    (hharmless : ∀ s e, (machine u).Takes es s e → Harmless (u := u) s e)
    (hs : (machine u).Visits es s) : s.returned = s.plainReturned :=
  ((preserved_iff u es).mpr ⟨hcontent, hharmless⟩ s hs).1

/-- A file of four bytes that the server has open itself. -/
def fourBytes : Setup where
  cfg := dataDirConfig
  fd := 3
  world := openedWorld
  data := [10, 20, 30, 40]
  cache := none
  writable := true
  tracked := openedWorld_tracked
  redirected := openedWorld_redirected

/-- The file is read to its end, around an `lseek` that stays and one behind the end. -/
theorem reads_as_single_file_to_end :
    let es := [.read 3 ⟨false, false⟩, .lseek 0 1, .read 3 ⟨false, false⟩, .lseek 2 2,
      .read 3 ⟨false, false⟩]
    ∃ s, (machine fourBytes).run es = some s ∧
      s.returned = [some [10, 20, 30], some [40], some []] ∧ s.returned = s.plainReturned := by
  intro es
  have hmap : ((machine fourBytes).run es).map State.returned =
      some [some [10, 20, 30], some [40], some []] := by
    decide +kernel
  have hharmless : (machine fourBytes).checkSteps
      (fun s e => decide (Harmless (u := fourBytes) s e)) (machine fourBytes).init es = true := by
    decide +kernel
  obtain ⟨s, hrun, hs⟩ := Option.map_eq_some_iff.mp hmap
  exact ⟨s, hrun, hs, reads_as_single_file rfl
    (fun _ _ ht => of_decide_eq_true (Machine.takes_of_checkSteps hharmless ht))
    ⟨_, List.prefix_rfl, hrun⟩⟩

/-- The first read after `lseek(fd, 2, SEEK_SET)` returns the bytes at the start. -/
theorem lseek_not_followed :
    ¬ ∀ u es s, (machine u).run es = some s → s.returned = s.plainReturned := by
  intro h
  have hmap : ((machine fourBytes).run [.lseek 2 0, .read 2 ⟨false, false⟩]).map
      (fun s => (s.returned, s.plainReturned)) = some ([some [10, 20]], [some [30, 40]]) := by
    decide +kernel
  obtain ⟨s, hrun, hs⟩ := Option.map_eq_some_iff.mp hmap
  obtain ⟨hret, hpret⟩ := Prod.mk.inj hs
  have hsame := h _ _ s hrun
  rw [hret, hpret] at hsame
  exact absurd hsame (by decide)

end MtHvac.System.FilePosition
