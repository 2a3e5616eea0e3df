-- SUMMARY: What the open descriptors of a server are open on: each has a name and a file that serves it, and which bytes a read on it is answered with.
import MtHvac.Server.Pipeline
import MtHvac.Server.Redirection

/-!
# Open files of a server

An open descriptor has the path of its open request in `fd_to_path`, whatever other
file the request was redirected to. In the steps of a server that takes only some
paths, and closes only open descriptors, no other path turns up anywhere.
-/

namespace MtHvac.Server

open Base

/-! ## Names of the open descriptors -/

/-- Every open descriptor is named, and open on a file that serves its name. -/
structure ServesNames (s : State) : Prop where
  opened : ∀ fd d, s.descs fd = some d →
    0 ≤ fd ∧ ∃ path, s.fdToPath fd = some path ∧ Serves s path d.path
  closed : ∀ fd, s.progress.closed = some fd → s.descs fd = none

/-- A step that opens no descriptor, and keeps the names of those that stay open. -/
theorem ServesNames.keep {s s' : State} (h : ServesNames s)
    (hdescs : ∀ fd d', s'.descs fd = some d' → ∃ d, s.descs fd = some d ∧ d'.path = d.path)
    (hnames : ∀ fd path, s'.descs fd ≠ none → 0 ≤ fd → s.fdToPath fd = some path →
      s'.fdToPath fd = some path)
    (hserve : ∀ p q, Serves s p q → Serves s' p q)
    (hclosed : ∀ fd, s'.progress.closed = some fd → s'.descs fd = none) : ServesNames s' := by
  refine ⟨fun fd d' hd' => ?_, hclosed⟩
  obtain ⟨d, hd, hpath⟩ := hdescs fd d' hd'
  obtain ⟨hpos, path, hname, hs⟩ := h.opened fd d hd
  refine ⟨hpos, path, hnames fd path (by simp [hd']) hpos hname, ?_⟩
  rw [hpath]
  exact hserve path d.path hs

/-- Moving a descriptor leaves it open on its file. -/
theorem State.setPos_path {s : State} {fd fd' : Int} {file : Option OpenFile} {d' : Desc}
    (h : (s.setPos fd file).descs fd' = some d') :
    ∃ d, s.descs fd' = some d ∧ d'.path = d.path := by
  unfold State.setPos at h
  split at h
  · next d f hd =>
      by_cases hfd : fd' = fd
      · subst hfd
        simp only [Table.set_self, Option.some.injEq] at h
        exact ⟨d, hd, by rw [← h]⟩
      · exact ⟨d', by simpa [hfd] using h, rfl⟩
  · exact ⟨d', h, rfl⟩

theorem State.setPos_of_ne {s : State} {fd fd' : Int} {file : Option OpenFile} (hne : fd ≠ fd') :
    (s.setPos fd file).descs fd' = s.descs fd' := by
  unfold State.setPos
  split
  · exact Table.set_of_ne _ _ (Ne.symm hne)
  · rfl

theorem State.handleRead_path {s : State} {req : HvacRpcIn} {env : ReadEnv} {fd : Int} {d' : Desc}
    (h : (s.handleRead req env).2.descs fd = some d') :
    ∃ d, s.descs fd = some d ∧ d'.path = d.path :=
  State.setPos_path h

theorem State.handleSeek_path {s : State} {fd offset whence fd' : Int} {d' : Desc}
    (h : (s.handleSeek fd offset whence).2.descs fd' = some d') :
    ∃ d, s.descs fd' = some d ∧ d'.path = d.path := by
  unfold State.handleSeek at h
  split at h
  · exact ⟨d', h, rfl⟩
  · exact State.setPos_path h

theorem ServesNames.step {s s' : State} {e : Event} (h : ServesNames s) (hi : ServeInv s)
    (hs : Step s e s') : ServesNames s' := by
  have hserve : ∀ p q, Serves s p q → Serves s' p q := fun p q => Serves.step hi hs
  have hsame : ∀ fd d, s.descs fd = some d → ∃ d₀, s.descs fd = some d₀ ∧ d.path = d₀.path :=
    fun fd d hd => ⟨d, hd, rfl⟩
  cases hs with
  | openRequest _ | openMiss _ _ | openHit _ _ | openRedirect _ =>
      exact h.keep hsame (fun _ _ _ _ hname => hname) hserve (by rintro fd ⟨⟩)
  | openFail _ =>
      refine h.keep hsame (fun fd path _ hpos hname => ?_) hserve (by rintro fd ⟨⟩)
      have hne : fd ≠ -1 := by omega
      simpa [hne] using hname
  | @openOk path redirPath fd hpc hpos hfree hfile =>
      refine ⟨fun fd' d' hd' => ?_, by rintro fd' ⟨⟩⟩
      by_cases hfd : fd' = fd
      · subst hfd
        simp only [Table.set_self, Option.some.injEq] at hd'
        subst hd'
        have hprogress := hi.progress
        rw [ProgressServes, hpc] at hprogress
        refine ⟨hpos, path, by simp, hserve path redirPath ?_⟩
        rcases hprogress with rfl | hredir
        · exact hi.serves_self hfile
        · exact hredir
      · obtain ⟨hpos', path', hname, hs'⟩ := h.opened fd' d' (by simpa [hfd] using hd')
        exact ⟨hpos', path', by simpa [hfd] using hname, hserve path' d'.path hs'⟩
  | readRequest hpc =>
      refine h.keep (fun fd d' hd' => State.handleRead_path hd') (fun fd path _ _ hname => ?_)
        hserve fun fd hfd => ?_
      · rw [State.handleRead_fdToPath]
        exact Table.touch_eq_some hname
      · obtain ⟨_, _, _, hframe⟩ := s.handleRead_frame _ _
        rw [hframe, hpc] at hfd
        cases hfd
  | seekRequest hpc =>
      refine h.keep (fun fd d' hd' => State.handleSeek_path hd') (fun fd path _ _ hname => ?_)
        hserve fun fd hfd => ?_
      · obtain ⟨_, hframe⟩ := s.handleSeek_frame _ _ _
        rw [hframe]
        exact hname
      · obtain ⟨_, hframe⟩ := s.handleSeek_frame _ _ _
        rw [hframe, hpc] at hfd
        cases hfd
  | @closeRequest fd hpc =>
      refine h.keep (fun fd' d' hd' => ⟨d', (Table.erase_eq_some.mp hd').2, rfl⟩)
        (fun _ _ _ _ hname => hname) hserve fun fd' hfd' => ?_
      obtain rfl : fd = fd' := Option.some.inj hfd'
      exact Table.erase_self _ _
  | @closeUncached fd hpc _ | @closeCached fd _ hpc _ =>
      refine h.keep hsame (fun fd' path _ _ hname => Table.touch_eq_some hname) hserve
        fun fd' hfd' => h.closed fd' ?_
      rw [hpc]
      exact hfd'
  | closeLock hpc _ | closePush hpc | closeSignal hpc | closeUnlock hpc _ =>
      refine h.keep hsame (fun _ _ _ _ hname => hname) hserve fun fd' hfd' => h.closed fd' ?_
      rw [hpc]
      exact hfd'
  | @closeErase fd hpc =>
      refine h.keep hsame (fun fd' path hopen _ hname => ?_) hserve (by rintro fd' ⟨⟩)
      have hne : fd' ≠ fd := by
        rintro rfl
        exact hopen (h.closed fd' (by rw [hpc]; rfl))
      simpa [hne] using hname
  | create _ | moverLock _ _ | moverWait _ _ | moverSpurious _ | moverReacquire _ _ _
  | moverDrain _ _ | moverUnlock _ _ _ | moverRestart _ _ | moverMkdtemp _ _
  | moverCopyCreate _ _ _ _ | moverCopyWrite _ _ _ _ | moverCopyReturn _ _ _ | moverCopyThrow _
  | moverRecord _ _ | moverPop _ =>
      exact h.keep hsame (fun _ _ _ _ hname => hname) hserve h.closed

/-- No step renames an open descriptor. -/
theorem ServesNames.names_kept {s s' : State} {e : Event} (h : ServesNames s) (hs : Step s e s')
    {fd : Int} {path : Path} (hopen : s.descs fd ≠ none) (hname : s.fdToPath fd = some path) :
    s'.fdToPath fd = some path := by
  cases hs with
  | openFail _ =>
      obtain ⟨d, hd⟩ := Option.ne_none_iff_exists'.mp hopen
      have hne : fd ≠ -1 := by
        have hpos := (h.opened fd d hd).1
        omega
      simpa [hne] using hname
  | @openOk path' redirPath fd' _ _ hfree _ =>
      have hne : fd ≠ fd' := by
        rintro rfl
        exact hopen hfree
      simpa [hne] using hname
  | readRequest _ =>
      rw [State.handleRead_fdToPath]
      exact Table.touch_eq_some hname
  | seekRequest _ =>
      obtain ⟨_, hframe⟩ := s.handleSeek_frame _ _ _
      rw [hframe]
      exact hname
  | closeUncached _ _ | closeCached _ _ => exact Table.touch_eq_some hname
  | @closeErase fd' hpc =>
      have hne : fd ≠ fd' := by
        rintro rfl
        exact hopen (h.closed fd (by rw [hpc]; rfl))
      simpa [hne] using hname
  | _ => exact hname

/-- The progress thread works on an open request until `open` returns. -/
theorem request_kept {s s' : State} {e : Event} (hs : Step s e s') (hopen : ∀ fd, e ≠ .openCall fd)
    {path : Path} (hrequest : s.progress.request = some path) :
    s'.progress.request = some path := by
  cases hs with
  | openFail _ | openOk _ _ _ _ => exact absurd rfl (hopen _)
  | openMiss hpc _ | openHit hpc _ | openRedirect hpc =>
      rw [hpc] at hrequest
      exact hrequest
  | openRequest hpc | readRequest hpc | seekRequest hpc | closeRequest hpc | closeUncached hpc _
  | closeCached hpc _ | closeLock hpc _ | closePush hpc | closeSignal hpc | closeUnlock hpc _
  | closeErase hpc =>
      rw [hpc] at hrequest
      cases hrequest
  | _ => exact hrequest

theorem servesNames_invariant : machine.Invariant ServesNames where
  init := ⟨nofun, nofun⟩
  step := fun hr h hs => h.step (serveInv_invariant.reachable hr) (step_cases hs).2

/-! ## Reads on open descriptors -/

section Reads

variable {s : State} {req : HvacRpcIn} {env : ReadEnv} {d : Desc} {bytes : List Byte} {ret : Int}

/-- Where a read on a descriptor starts: the offset `-1` asks for its own position. -/
def Desc.start (d : Desc) (offset : Int) : Nat := if offset = -1 then d.pos else offset.toNat

/-- The position of a descriptor after a read. -/
def Desc.posAfter (d : Desc) (offset : Int) (n : Nat) : Nat :=
  if offset = -1 then d.pos + n else d.pos

/-- An answered read returns bytes of the file that the descriptor is open on. -/
theorem answered_cases (hd : s.descs req.accessfd = some d)
    (h : (s.handleRead req env).1 = .answered bytes ret) :
    ∃ f, s.files d.path = some f ∧
      bytes = slice f.data (d.start req.offset)
        (min (Word.toUInt64 req.inputVal) OpenFile.maxRwCount) ∧
      (s.handleRead req env).2.descs =
        s.descs.set req.accessfd { d with pos := d.posAfter req.offset bytes.length } := by
  have hreply : (hvacRpcHandler env req (s.openFile req.accessfd)).1 = .answered bytes ret := h
  rcases hvacRpcHandler_cases env req (s.openFile req.accessfd) with habort | ⟨bytes', hread, hans⟩
  · rw [habort] at hreply
    cases hreply
  · rw [hans] at hreply
    obtain ⟨rfl, _⟩ := ReadReply.answered.inj hreply
    cases hf : s.files d.path with
    | none =>
        have hnone : s.openFile req.accessfd = none := by simp [State.openFile, hd, hf]
        rw [hnone] at hread
        cases hread
    | some f =>
        have hfile : s.openFile req.accessfd = some ⟨.regular f.data, d.pos⟩ := by
          simp [State.openFile, hd, hf]
        rw [hfile] at hread hans
        obtain ⟨_, hbytes, hnext⟩ := handlerRead_regular hread
        refine ⟨f, rfl, hbytes, ?_⟩
        simp only [State.handleRead, hfile, hans, hnext, State.setPos, hd, Desc.posAfter]

/-- A read that is not answered ends the server. -/
theorem aborted_alive (h : (s.handleRead req env).1 = .aborted) :
    (s.handleRead req env).2.alive = false := by
  simp [State.handleRead] at h ⊢
  exact h

/-- An answered read on a descriptor returns bytes of the file that its name stands
for, if that is a file of the clients. -/
theorem ServesNames.answered {path : Path} {f : FileNode} (h : ServesNames s)
    (hd : s.descs req.accessfd = some d) (hname : s.fdToPath req.accessfd = some path)
    (hf : s.files path = some f) (hsource : f.origin = .source)
    (hans : (s.handleRead req env).1 = .answered bytes ret) :
    bytes = slice f.data (d.start req.offset)
      (min (Word.toUInt64 req.inputVal) OpenFile.maxRwCount) := by
  obtain ⟨g, hg, hbytes, _⟩ := answered_cases hd hans
  obtain ⟨_, path', hname', f', hf', hserve⟩ := h.opened _ d hd
  obtain rfl := Option.some.inj (hname'.symm.trans hname)
  obtain rfl := Option.some.inj (hf'.symm.trans hf)
  obtain ⟨g', hg', hdata, _⟩ := hserve hsource
  obtain rfl := Option.some.inj (hg'.symm.trans hg)
  rwa [hdata] at hbytes

end Reads

/-! ## Sequential reads -/

/-- The bytes of a read at the file position. -/
def State.streamed (s : State) (req : HvacRpcIn) (env : ReadEnv) : List Byte :=
  match (s.handleRead req env).1 with
  | .answered bytes _ => if req.offset = -1 then bytes else []
  | .aborted          => []

/-- If the descriptor is open, it stands behind `bytes`, the start of its file. -/
def State.ReadUpTo (s : State) (fd : Int) (bytes : List Byte) : Prop :=
  s.alive = true → ∀ d, s.descs fd = some d →
    d.pos = bytes.length ∧ ∃ f, s.files d.path = some f ∧ bytes <+: f.data

/-- No file is removed, and the data mover only appends. -/
theorem files_grow {s s' : State} {e : Event} (hs : Step s e s') {p : Path} {f : FileNode}
    (hf : s.files p = some f) : ∃ f', s'.files p = some f' ∧ f.data <+: f'.data := by
  cases hs with
  | create hnew | moverCopyCreate _ _ _ hnew =>
      have hne : p ≠ _ := Table.ne_of_none hnew hf
      exact ⟨f, by simpa [hne] using hf, List.prefix_refl _⟩
  | @moverCopyWrite filename _ _ source target n _ _ _ htarget =>
      by_cases hp : p = filename
      · subst hp
        obtain rfl := Option.some.inj (htarget.symm.trans hf)
        exact ⟨_, Table.set_self _ _ _, List.prefix_append _ _⟩
      · exact ⟨f, by simpa [hp] using hf, List.prefix_refl _⟩
  | readRequest _ =>
      obtain ⟨_, _, _, hframe⟩ := s.handleRead_frame _ _
      exact ⟨f, by rw [hframe]; exact hf, List.prefix_refl _⟩
  | seekRequest _ =>
      obtain ⟨_, hframe⟩ := s.handleSeek_frame _ _ _
      exact ⟨f, by rw [hframe]; exact hf, List.prefix_refl _⟩
  | _ => exact ⟨f, hf, List.prefix_refl _⟩

/-- A file position moves only in requests on its descriptor. -/
theorem descs_unmoved {s s' : State} {e : Event} (hs : Step s e s') {fd : Int} {d : Desc}
    (hd : s'.descs fd = some d) (hread : ∀ req env, e = .readRequest req env → req.accessfd ≠ fd)
    (hseek : ∀ offset whence, e ≠ .seekRequest fd offset whence) (hopen : e ≠ .openCall (some fd)) :
    s.descs fd = some d := by
  cases hs with
  | @openOk path redirPath fd' _ _ _ _ =>
      have hne : fd ≠ fd' := by
        rintro rfl
        exact hopen rfl
      simpa [hne] using hd
  | @readRequest req env _ =>
      have hkept : (s.handleRead req env).2.descs fd = s.descs fd :=
        State.setPos_of_ne (hread req env rfl)
      exact hkept ▸ hd
  | @seekRequest fd' offset whence _ =>
      have hne : fd' ≠ fd := by
        rintro rfl
        exact hseek offset whence rfl
      unfold State.handleSeek at hd
      split at hd
      · exact hd
      · rwa [State.setPos_of_ne hne] at hd
  | closeRequest _ => exact (Table.erase_eq_some.mp hd).2
  | _ => exact hd

theorem State.ReadUpTo.step {s s' : State} {e : Event} {fd : Int} {bytes : List Byte}
    (h : s.ReadUpTo fd bytes) (hs : machine.step s e = some s')
    (hread : ∀ req env, e = .readRequest req env → req.accessfd ≠ fd)
    (hseek : ∀ offset whence, e ≠ .seekRequest fd offset whence) (hopen : e ≠ .openCall (some fd)) :
    s'.ReadUpTo fd bytes := by
  intro _ d hd
  obtain ⟨halive, hstep⟩ := step_cases hs
  obtain ⟨hpos, f, hf, hprefix⟩ := h halive d (descs_unmoved hstep hd hread hseek hopen)
  obtain ⟨f', hf', hgrow⟩ := files_grow hstep hf
  exact ⟨hpos, f', hf', hprefix.trans hgrow⟩

/-- A read on the descriptor goes on where the last one at the file position ended. -/
theorem State.ReadUpTo.read {s s' : State} {req : HvacRpcIn} {env : ReadEnv} {bytes : List Byte}
    (h : s.ReadUpTo req.accessfd bytes)
    (hs : machine.step s (.readRequest req env) = some s') :
    s'.ReadUpTo req.accessfd (bytes ++ s.streamed req env) := by
  obtain ⟨halive, hstep⟩ := step_cases hs
  obtain rfl : s' = (s.handleRead req env).2 := by
    cases hstep
    rfl
  intro halive' d' hd'
  have hfiles : (s.handleRead req env).2.files = s.files := by
    obtain ⟨_, _, _, hframe⟩ := s.handleRead_frame req env
    rw [hframe]
  obtain ⟨d, hd, hpath⟩ := State.handleRead_path hd'
  obtain ⟨hpos, f, hf, hprefix⟩ := h halive d hd
  cases hreply : (s.handleRead req env).1 with
  | aborted =>
      have hdead := aborted_alive hreply
      cases halive'.symm.trans hdead
  | answered pushed ret =>
      obtain ⟨f', hf', hpushed, hdescs⟩ := answered_cases hd hreply
      obtain rfl := Option.some.inj (hf'.symm.trans hf)
      rw [hdescs, Table.set_self] at hd'
      obtain rfl := Option.some.inj hd'
      rw [hfiles]
      simp only [State.streamed, hreply]
      by_cases hoff : req.offset = -1
      · simp only [hoff, if_true, Desc.posAfter, Desc.start] at hpushed ⊢
        refine ⟨by simp [hpos], f', hf, ?_⟩
        obtain ⟨rest, hrest⟩ := hprefix
        rw [hpushed, hpos, ← hrest]
        refine List.prefix_append_right_inj _ |>.mpr ?_
        simpa using slice_prefix_drop (bytes ++ rest) bytes.length
          (min (Word.toUInt64 req.inputVal) OpenFile.maxRwCount)
      · simp only [hoff, if_false, Desc.posAfter, List.append_nil]
        exact ⟨hpos, f', hf, hprefix⟩

/-- A new descriptor stands at the start of its file. -/
theorem State.ReadUpTo.opened {s s' : State} {fd : Int}
    (hs : machine.step s (.openCall (some fd)) = some s') : s'.ReadUpTo fd [] := by
  cases (step_cases hs).2 with
  | openOk _ _ _ hfile =>
      intro _ d hd
      simp only [Table.set_self, Option.some.injEq] at hd
      subst hd
      obtain ⟨f, hf⟩ := Option.ne_none_iff_exists'.mp hfile
      exact ⟨rfl, f, hf, List.nil_prefix⟩

/-! ## The paths that a server knows -/

/-- All paths in the tables and queues of the server have the property `P`. -/
structure Knows (P : Path → Prop) (s : State) : Prop where
  request : ∀ path, s.progress.request = some path → P path
  opened : ∀ fd path, s.descs fd ≠ none → s.fdToPath fd = some path → P path
  closing : ∀ fd, s.progress.closed = some fd → ∃ path, s.fdToPath fd = some path ∧ P path
  queued : ∀ path ∈ s.dataQueue ++ s.localList, P path
  cached : ∀ path, s.pathCacheMap path ≠ none → P path

variable {P : Path → Prop}

/-- The path that a close request queues. -/
theorem Knows.closedPath {s : State} (h : Knows P s) {fd : Int}
    (hclosed : s.progress.closed = some fd) : P (s.closedPath fd) := by
  obtain ⟨path, hname, hp⟩ := h.closing fd hclosed
  rwa [State.closedPath, Table.entry_of_some hname]

/-- The lookup of the descriptor that is being closed inserts nothing. -/
theorem Knows.touch_closed {s : State} (h : Knows P s) {fd : Int}
    (hclosed : s.progress.closed = some fd) : s.fdToPath.touch fd [] = s.fdToPath := by
  obtain ⟨path, hname, _⟩ := h.closing fd hclosed
  exact Table.touch_of_some hname

/-- Only open requests bring in paths, if the descriptors that are closed are open. -/
theorem Knows.step {s s' : State} {e : Event} (h : Knows P s) (hn : ServesNames s)
    (hs : Step s e s') (hopen : ∀ path, e = .openRequest path → P path)
    (hclose : ∀ fd, e = .closeRequest fd → s.descs fd ≠ none) : Knows P s' := by
  obtain ⟨hrequest, hopened, hclosing, hqueued, hcached⟩ := id h
  cases hs with
  | openRequest _ =>
      refine ⟨?_, hopened, by rintro fd ⟨⟩, hqueued, hcached⟩
      rintro path ⟨⟩
      exact hopen _ rfl
  | openMiss hpc _ | openHit hpc _ =>
      refine ⟨fun path hpath => hrequest path ?_, hopened, by rintro fd ⟨⟩, hqueued, hcached⟩
      rw [hpc]
      exact hpath
  | @openRedirect path hpc =>
      have hp : P path := hrequest path (by rw [hpc]; rfl)
      refine ⟨?_, hopened, by rintro fd ⟨⟩, hqueued, fun path' hpath' => ?_⟩
      · rintro path' ⟨⟩
        exact hp
      · by_cases heq : path' = path
        · exact heq ▸ hp
        · exact hcached path' (by simpa [heq] using hpath')
  | @openFail path _ hpc =>
      refine ⟨by rintro path' ⟨⟩, fun fd path' hfd hname => hopened fd path' hfd ?_,
        by rintro fd ⟨⟩, hqueued, hcached⟩
      obtain ⟨d, hd⟩ := Option.ne_none_iff_exists'.mp hfd
      have hne : fd ≠ -1 := by
        have hpos := (hn.opened fd d hd).1
        omega
      simpa [hne] using hname
  | @openOk path redirPath fd hpc _ _ _ =>
      have hp : P path := hrequest path (by rw [hpc]; rfl)
      refine ⟨by rintro path' ⟨⟩, fun fd' path' hfd' hname => ?_, by rintro fd' ⟨⟩, hqueued, hcached⟩
      by_cases heq : fd' = fd
      · subst heq
        simp only [Table.set_self, Option.some.injEq] at hname
        exact hname ▸ hp
      · exact hopened fd' path' (by simpa [heq] using hfd') (by simpa [heq] using hname)
  | @readRequest req env hpc =>
      have hnames := s.handleRead_fdToPath req env
      have hsome := s.handleRead_isSome req env
      obtain ⟨alive, descs, fdToPath, hframe⟩ := s.handleRead_frame req env
      rw [hframe] at hnames hsome ⊢
      refine ⟨by simp [hpc, ProgressPc.request], fun fd path hfd hname => ?_,
        by simp [hpc, ProgressPc.closed], hqueued, hcached⟩
      have hfd' : s.descs fd ≠ none := by
        have hisSome := hsome fd
        rw [Option.isSome_iff_ne_none.mpr hfd] at hisSome
        exact Option.isSome_iff_ne_none.mp hisSome.symm
      obtain ⟨d, hd⟩ := Option.ne_none_iff_exists'.mp hfd'
      obtain ⟨_, path', hname', _⟩ := hn.opened fd d hd
      rw [hnames, Table.touch_eq_some hname'] at hname
      exact hopened fd path hfd' (hname'.trans hname)
  | @seekRequest fd offset whence hpc =>
      have hsome := s.handleSeek_isSome fd offset whence
      obtain ⟨descs, hframe⟩ := s.handleSeek_frame fd offset whence
      rw [hframe] at hsome ⊢
      refine ⟨hrequest, fun fd' path hfd' hname => hopened fd' path ?_ hname, hclosing, hqueued,
        hcached⟩
      have hisSome := hsome fd'
      rw [Option.isSome_iff_ne_none.mpr hfd'] at hisSome
      exact Option.isSome_iff_ne_none.mp hisSome.symm
  | @closeRequest fd hpc =>
      refine ⟨by rintro path ⟨⟩, fun fd' path hfd' hname => hopened fd' path ?_ hname, ?_, hqueued,
        hcached⟩
      · obtain ⟨d, hd⟩ := Option.ne_none_iff_exists'.mp hfd'
        rw [(Table.erase_eq_some.mp hd).2]
        exact Option.some_ne_none _
      · rintro fd' ⟨⟩
        have hfd := hclose fd rfl
        obtain ⟨d, hd⟩ := Option.ne_none_iff_exists'.mp hfd
        obtain ⟨_, path, hname, _⟩ := hn.opened fd d hd
        exact ⟨path, hname, hopened fd path hfd hname⟩
  | @closeUncached fd hpc _ | @closeCached fd _ hpc _ =>
      rw [h.touch_closed (by rw [hpc]; rfl)]
      refine ⟨by rintro path ⟨⟩, hopened, ?_, hqueued, hcached⟩
      rintro fd' ⟨⟩
      exact hclosing fd (by rw [hpc]; rfl)
  | closeLock hpc _ | closeSignal hpc | closeUnlock hpc _ =>
      refine ⟨by rintro path ⟨⟩, hopened, ?_, hqueued, hcached⟩
      rintro fd' ⟨⟩
      exact hclosing _ (by rw [hpc]; rfl)
  | @closePush fd hpc =>
      have hclosed : s.progress.closed = some fd := by rw [hpc]; rfl
      refine ⟨by rintro path ⟨⟩, hopened, ?_, fun path hpath => ?_, hcached⟩
      · rintro fd' ⟨⟩
        exact hclosing fd hclosed
      · have hcases : path = s.closedPath fd ∨ path ∈ s.dataQueue ++ s.localList := by
          simp only [List.mem_append, List.mem_singleton] at hpath ⊢
          tauto
        rcases hcases with rfl | hold
        · exact h.closedPath hclosed
        · exact hqueued path hold
  | @closeErase fd hpc =>
      refine ⟨by rintro path ⟨⟩, fun fd' path hfd' hname => ?_, by rintro fd' ⟨⟩, hqueued, hcached⟩
      exact hopened fd' path hfd' (Table.erase_eq_some.mp hname).2
  | @moverDrain p rest hpc hqueue =>
      refine ⟨hrequest, hopened, hclosing, fun path hpath => hqueued path ?_, hcached⟩
      simp only [hqueue, List.mem_append, List.mem_cons, List.not_mem_nil, or_false] at hpath ⊢
      tauto
  | @moverRecord filename p rest hpc hlist =>
      refine ⟨hrequest, hopened, hclosing, hqueued, fun path hpath => ?_⟩
      by_cases heq : path = p
      · exact hqueued path (by simp [hlist, heq])
      · exact hcached path (by simpa [heq] using hpath)
  | moverPop _ =>
      refine ⟨hrequest, hopened, hclosing, fun path hpath => hqueued path ?_, hcached⟩
      rcases List.mem_append.mp hpath with hqueue | hlist
      · exact List.mem_append_left _ hqueue
      · exact List.mem_append_right _ (List.mem_of_mem_tail hlist)
  | create _ | moverLock _ _ | moverWait _ _ | moverSpurious _ | moverReacquire _ _ _
  | moverUnlock _ _ _ | moverRestart _ _ | moverMkdtemp _ _ | moverCopyCreate _ _ _ _
  | moverCopyWrite _ _ _ _ | moverCopyReturn _ _ _ | moverCopyThrow _ =>
      exact ⟨hrequest, hopened, hclosing, hqueued, hcached⟩

theorem knows_init : Knows P State.init :=
  ⟨nofun, nofun, nofun, nofun, fun _ h => absurd rfl h⟩

end MtHvac.Server
