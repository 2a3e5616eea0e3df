-- SUMMARY: The server with its cache and data mover serves like the plain file server.
import MtHvac.Server.Machine

/-!
# Redirection to cached copies

An open request may be redirected to a copy of its file. The invariant behind
the simulation is that a path only ever leads to its own file or to a finished
copy of it.
-/

namespace MtHvac.Server

open Base

/-! ## Paths and the files they lead to -/

/-- Opening `redirPath` serves the path `path`: if `path` is a source file, then
`redirPath` has its content, and the data mover is not writing it. -/
def Serves (s : State) (path redirPath : Path) : Prop :=
  ∃ f, s.files path = some f ∧
    (f.origin = .source →
      ∃ g, s.files redirPath = some g ∧ g.data = f.data ∧ s.mover ≠ .copying redirPath)

/-- The request that the progress thread works on is led to a file that serves it. -/
def ProgressServes (s : State) : Prop :=
  match s.progress with
  | .openRedirect path       => s.pathCacheMap path ≠ none
  | .openCall path redirPath => redirPath = path ∨ Serves s path redirPath
  | _                        => True

/-- The copy that the data mover works on. -/
def MoverServes (s : State) : Prop :=
  match s.mover with
  | .copying filename =>
      (∃ g, s.files filename = some g ∧ g.origin = .copy) ∧
        ∃ p rest, s.localList = p :: rest ∧ s.files p ≠ none
  | .record filename  => ∃ p rest, s.localList = p :: rest ∧ Serves s p filename
  | _                 => True

structure ServeInv (s : State) : Prop where
  cache : ∀ path filename, s.pathCacheMap path = some filename → Serves s path filename
  progress : ProgressServes s
  mover : MoverServes s

/-- A file serves its own path. -/
theorem ServeInv.serves_self {s : State} (hi : ServeInv s) {path : Path}
    (h : s.files path ≠ none) : Serves s path path := by
  obtain ⟨f, hf⟩ := Option.ne_none_iff_exists'.mp h
  refine ⟨f, hf, fun hsource => ⟨f, hf, rfl, fun hcopying => ?_⟩⟩
  have hmover := hi.mover
  rw [MoverServes, hcopying] at hmover
  obtain ⟨⟨g, hg, hcopy⟩, _⟩ := hmover
  rw [Option.some.inj (hg.symm.trans hf), hsource] at hcopy
  cases hcopy

/-- Serving a path survives a step that keeps all files and starts no copy over
an existing one. -/
theorem Serves.mono {s s' : State} {path redirPath : Path} (h : Serves s path redirPath)
    (hfiles : ∀ p f, s.files p = some f → s'.files p = some f)
    (hmover : ∀ q, s'.mover = .copying q → s.mover = .copying q ∨ s.files q = none) :
    Serves s' path redirPath := by
  obtain ⟨f, hf, hserve⟩ := h
  refine ⟨f, hfiles _ _ hf, fun hsource => ?_⟩
  obtain ⟨g, hg, hdata, hidle⟩ := hserve hsource
  refine ⟨g, hfiles _ _ hg, hdata, fun hcopying => ?_⟩
  rcases hmover _ hcopying with h | h
  · exact hidle h
  · rw [h] at hg
    cases hg

/-- Writing to the copy in progress disturbs no path that is served. -/
theorem Serves.write {s : State} {path redirPath filename : Path} {target : FileNode}
    (h : Serves s path redirPath) (hpc : s.mover = .copying filename)
    (hcopy : target.origin = .copy) :
    Serves { s with files := s.files.set filename target } path redirPath := by
  obtain ⟨f, hf, hserve⟩ := h
  by_cases hp : path = filename
  · refine ⟨target, by simp [hp], fun hsource => ?_⟩
    rw [hcopy] at hsource
    cases hsource
  · refine ⟨f, by simp [hp, hf], fun hsource => ?_⟩
    obtain ⟨g, hg, hdata, hidle⟩ := hserve hsource
    have hne : redirPath ≠ filename := fun heq => hidle (heq ▸ hpc)
    exact ⟨g, by simp [hne, hg], hdata, hidle⟩

/-- Every step keeps serving the paths that are served. -/
theorem Serves.step {s s' : State} {e : Event} {path redirPath : Path} (hi : ServeInv s)
    (h : Step s e s') (hserve : Serves s path redirPath) : Serves s' path redirPath := by
  have hsame : s'.files = s.files → (∀ q, s'.mover = .copying q → s.mover = .copying q) →
      Serves s' path redirPath := fun hf hm =>
    hserve.mono (fun p f hp => by rw [hf]; exact hp) fun q hq => .inl (hm q hq)
  cases h with
  | create hnew =>
      refine hserve.mono (fun p f hp => ?_) fun q hq => .inl hq
      have hne : p ≠ _ := Table.ne_of_none hnew hp
      simp [hne, hp]
  | moverCopyCreate _ _ _ hnew =>
      refine hserve.mono (fun p f hp => ?_) fun q hq => .inr ?_
      · have hne : p ≠ _ := Table.ne_of_none hnew hp
        simp [hne, hp]
      · obtain rfl := MoverPc.copying.inj hq
        exact hnew
  | moverCopyWrite hpc _ _ htarget =>
      have hmover := hi.mover
      rw [MoverServes, hpc] at hmover
      obtain ⟨⟨g, hg, hcopy⟩, _⟩ := hmover
      obtain rfl := Option.some.inj (hg.symm.trans htarget)
      exact hserve.write hpc hcopy
  | readRequest _ =>
      obtain ⟨_, _, _, hs'⟩ := s.handleRead_frame _ _
      exact hsame (by rw [hs']) (by rw [hs']; exact fun _ h => h)
  | seekRequest _ =>
      obtain ⟨_, hs'⟩ := s.handleSeek_frame _ _ _
      exact hsame (by rw [hs']) (by rw [hs']; exact fun _ h => h)
  | openRequest _ | openMiss _ _ | openHit _ _ | openRedirect _ | openFail _ | openOk _ _ _ _
  | closeRequest _ | closeUncached _ _ | closeCached _ _ | closeLock _ _ | closePush _
  | closeSignal _ | closeUnlock _ _ | closeErase _ | moverSpurious _ | moverDrain _ _ =>
      exact hsame rfl fun _ h => h
  | moverLock _ _ | moverWait _ _ | moverReacquire _ _ _ | moverUnlock _ _ _ | moverRestart _ _
  | moverMkdtemp _ _ | moverCopyReturn _ _ _ | moverCopyThrow _ | moverRecord _ _ | moverPop _ =>
      exact hsame rfl (by rintro q ⟨⟩)

/-! ## The invariant -/

private theorem ProgressServes.keep {s s' : State} (h : ProgressServes s)
    (hpc : s'.progress = s.progress)
    (hmap : ∀ p, s.pathCacheMap p ≠ none → s'.pathCacheMap p ≠ none)
    (hserve : ∀ p q, Serves s p q → Serves s' p q) : ProgressServes s' := by
  unfold ProgressServes at h ⊢
  rw [hpc]
  cases hp : s.progress with
  | openRedirect path =>
      rw [hp] at h
      exact hmap path h
  | openCall path redirPath =>
      rw [hp] at h
      exact h.imp id (hserve path redirPath)
  | _ => trivial

private theorem MoverServes.keep {s s' : State} (h : MoverServes s)
    (hpc : s'.mover = s.mover) (hlist : s'.localList = s.localList)
    (hfiles : ∀ p f, s.files p = some f → s'.files p = some f)
    (hserve : ∀ p q, Serves s p q → Serves s' p q) : MoverServes s' := by
  unfold MoverServes at h ⊢
  rw [hpc, hlist]
  cases hp : s.mover with
  | copying filename =>
      rw [hp] at h
      obtain ⟨⟨g, hg, hcopy⟩, p, rest, hl, hp'⟩ := h
      obtain ⟨f, hf⟩ := Option.ne_none_iff_exists'.mp hp'
      exact ⟨⟨g, hfiles _ _ hg, hcopy⟩, p, rest, hl, by rw [hfiles _ _ hf]; exact Option.some_ne_none _⟩
  | record filename =>
      rw [hp] at h
      obtain ⟨p, rest, hl, hs⟩ := h
      exact ⟨p, rest, hl, hserve p filename hs⟩
  | _ => trivial

theorem ServeInv.step {s s' : State} {e : Event} (hi : ServeInv s) (h : Step s e s') :
    ServeInv s' := by
  have hserve : ∀ p q, Serves s p q → Serves s' p q := fun p q => Serves.step hi h
  have hcache : ∀ p q, s.pathCacheMap p = some q → Serves s' p q := fun p q hq =>
    hserve p q (hi.cache p q hq)
  cases h with
  | create hnew =>
      refine ⟨hcache, hi.progress.keep rfl (fun _ h => h) hserve,
        hi.mover.keep rfl rfl (fun p f hp => ?_) hserve⟩
      have hne : p ≠ _ := Table.ne_of_none hnew hp
      simp [hne, hp]
  | readRequest hpc =>
      obtain ⟨_, _, _, hs'⟩ := s.handleRead_frame _ _
      rw [hs'] at hcache hserve ⊢
      exact ⟨hcache, hi.progress.keep rfl (fun _ h => h) hserve,
        hi.mover.keep rfl rfl (fun _ _ h => h) hserve⟩
  | seekRequest hpc =>
      obtain ⟨_, hs'⟩ := s.handleSeek_frame _ _ _
      rw [hs'] at hcache hserve ⊢
      exact ⟨hcache, hi.progress.keep rfl (fun _ h => h) hserve,
        hi.mover.keep rfl rfl (fun _ _ h => h) hserve⟩
  | openRequest _ | openFail _ | openOk _ _ _ _ | closeRequest _ | closeUncached _ _
  | closeCached _ _ | closeLock _ _ | closePush _ | closeSignal _ | closeUnlock _ _
  | closeErase _ =>
      exact ⟨hcache, trivial, hi.mover.keep rfl rfl (fun _ _ h => h) hserve⟩
  | openMiss _ _ =>
      exact ⟨hcache, .inl rfl, hi.mover.keep rfl rfl (fun _ _ h => h) hserve⟩
  | openHit _ hmap =>
      exact ⟨hcache, fun hnone => (by cases hmap.symm.trans hnone),
        hi.mover.keep rfl rfl (fun _ _ h => h) hserve⟩
  | @openRedirect path hpc =>
      have hmap : s.pathCacheMap path ≠ none := by
        have hprogress := hi.progress
        rwa [ProgressServes, hpc] at hprogress
      obtain ⟨filename, hfilename⟩ := Option.ne_none_iff_exists'.mp hmap
      -- the entry is there, so the lookup inserts nothing
      have htouch : s.pathCacheMap.touch path [] = s.pathCacheMap := Table.touch_of_some hfilename
      refine ⟨fun p q hq => hcache p q (htouch ▸ hq), .inr ?_,
        hi.mover.keep rfl rfl (fun _ _ h => h) hserve⟩
      rw [Table.entry_of_some hfilename] at hserve ⊢
      exact hcache path filename hfilename
  | moverSpurious _ =>
      exact ⟨hcache, hi.progress.keep rfl (fun _ h => h) hserve,
        hi.mover.keep rfl rfl (fun _ _ h => h) hserve⟩
  | moverDrain hpc _ =>
      exact ⟨hcache, hi.progress.keep rfl (fun _ h => h) hserve, by rw [MoverServes, hpc]; trivial⟩
  | moverLock _ _ | moverWait _ _ | moverReacquire _ _ _ | moverUnlock _ _ _ | moverRestart _ _
  | moverMkdtemp _ _ | moverCopyThrow _ | moverPop _ =>
      exact ⟨hcache, hi.progress.keep rfl (fun _ h => h) hserve, trivial⟩
  | @moverCopyCreate filename p rest _ hlist hsource hnew =>
      refine ⟨hcache, hi.progress.keep rfl (fun _ h => h) hserve,
        ⟨_, Table.set_self _ _ _, rfl⟩, p, rest, hlist, ?_⟩
      have hne : p ≠ filename := fun heq => hsource (heq ▸ hnew)
      simpa [hne] using hsource
  | moverCopyWrite hpc hlist hsource htarget =>
      have hmover := hi.mover
      rw [MoverServes, hpc] at hmover
      obtain ⟨⟨g, hg, hcopy⟩, _⟩ := hmover
      obtain rfl := Option.some.inj (hg.symm.trans htarget)
      refine ⟨hcache, hi.progress.keep rfl (fun _ h => h) hserve, ?_⟩
      rw [MoverServes, hpc]
      refine ⟨⟨_, Table.set_self _ _ _, hcopy⟩, _, _, hlist, ?_⟩
      simp only [Table.set_apply]
      split
      · exact Option.some_ne_none _
      · rw [hsource]
        exact Option.some_ne_none _
  | @moverCopyReturn filename p rest hpc hlist hdone =>
      have hmover := hi.mover
      rw [MoverServes, hpc] at hmover
      obtain ⟨⟨g, hg, _⟩, p', rest', hlist', hsource⟩ := hmover
      obtain ⟨rfl, rfl⟩ := List.cons.inj (hlist'.symm.trans hlist)
      obtain ⟨f, hf⟩ := Option.ne_none_iff_exists'.mp hsource
      rw [hf, hg] at hdone
      refine ⟨hcache, hi.progress.keep rfl (fun _ h => h) hserve, p', rest', hlist,
        f, hf, fun _ => ⟨g, hg, Option.some.inj hdone, by rintro ⟨⟩⟩⟩
  | @moverRecord filename p rest hpc hlist =>
      have hmover := hi.mover
      rw [MoverServes, hpc] at hmover
      obtain ⟨p', rest', hlist', hdone⟩ := hmover
      obtain ⟨rfl, rfl⟩ := List.cons.inj (hlist'.symm.trans hlist)
      refine ⟨fun path q hq => ?_, hi.progress.keep rfl (fun path h => ?_) hserve, trivial⟩
      · by_cases heq : path = p'
        · subst heq
          simp only [Table.set_self, Option.some.injEq] at hq
          exact hq ▸ hserve _ _ hdone
        · exact hcache path q (by simpa [heq] using hq)
      · simp only [Table.set_apply]
        split
        · exact Option.some_ne_none _
        · exact h

theorem serveInv_invariant : machine.Invariant ServeInv where
  init := ⟨nofun, trivial, trivial⟩
  step := fun _ hi h => hi.step (step_cases h).2

/-! ## The simulation -/

/-- What a step shows to the clients, as an event of the plain server. -/
def shown (s : State) : Event → List Plain.Event
  | .create path data => [.created path data]
  | .openCall (some fd) =>
      match s.progress with
      | .openCall path _ => [.opened fd path]
      | _                => []
  | .readRequest req env =>
      match (s.handleRead req env).1 with
      | .aborted            => []
      | .answered bytes ret =>
          [.answered req.accessfd (Word.toUInt64 req.inputVal) req.offset bytes ret]
  | .seekRequest fd offset whence =>
      match (s.openFile fd).bind fun f => f.lseek offset whence with
      | none        => []
      | some (_, f) => [.moved fd f.pos]
  | .closeRequest fd => if s.descs fd = none then [] else [.closed fd]
  | _ => []

/-- The plain server has the source files, and the descriptors with the paths they
were opened under; each is open on a file that serves its path. -/
structure Agrees (s : State) (a : Plain.State) : Prop where
  files : ∀ p data, a.files p = some data ↔ s.files p = some ⟨data, .source⟩
  closed : ∀ fd, s.descs fd = none → a.descs fd = none
  opened : ∀ fd d, s.descs fd = some d → ∃ p, a.descs fd = some ⟨p, d.pos⟩ ∧ Serves s p d.path

private theorem Agrees.keep {s s' : State} {a : Plain.State} (h : Agrees s a)
    (hfiles : ∀ p data, s.files p = some ⟨data, .source⟩ ↔ s'.files p = some ⟨data, .source⟩)
    (hdescs : s'.descs = s.descs) (hserve : ∀ p q, Serves s p q → Serves s' p q) :
    Agrees s' a where
  files := fun p data => (h.files p data).trans (hfiles p data)
  closed := fun fd hfd => h.closed fd (hdescs ▸ hfd)
  opened := fun fd d hd => by
    obtain ⟨p, hp, hs⟩ := h.opened fd d (hdescs ▸ hd)
    exact ⟨p, hp, hserve p _ hs⟩

/-- Moving a descriptor keeps the agreement, if both servers move it alike. -/
private theorem Agrees.move {s : State} {a : Plain.State} {p : Path} (h : Agrees s a) (fd : Int)
    (d : Desc) (n : Nat) (hp : Serves s p d.path) :
    Agrees { s with descs := s.descs.set fd { d with pos := n } }
      { a with descs := a.descs.set fd ⟨p, n⟩ } where
  files := h.files
  closed := fun fd' hfd' => by
    by_cases heq : fd' = fd
    · simp [heq] at hfd'
    · simpa [heq] using h.closed fd' (by simpa [heq] using hfd')
  opened := fun fd' d' hd' => by
    by_cases heq : fd' = fd
    · subst heq
      simp only [Table.set_self, Option.some.injEq] at hd'
      exact ⟨p, by simp [← hd'], hd' ▸ hp⟩
    · obtain ⟨p', hp', hs'⟩ := h.opened fd' d' (by simpa [heq] using hd')
      exact ⟨p', by simpa [heq] using hp', hs'⟩

/-- The file behind a descriptor has the content of the path it was opened under. -/
private theorem Agrees.content {s : State} {a : Plain.State} {p q : Path} {f : FileNode}
    {data : List Byte} (h : Agrees s a) (hs : Serves s p q) (hf : s.files q = some f)
    (hdata : a.files p = some data) : f.data = data := by
  obtain ⟨f', hf', hserve⟩ := hs
  rw [(h.files p data).mp hdata] at hf'
  obtain rfl := Option.some.inj hf'
  obtain ⟨g, hg, hgdata, _⟩ := hserve rfl
  obtain rfl := Option.some.inj (hg.symm.trans hf)
  exact hgdata

private theorem openFile_eq_some {s : State} {fd : Int} {file : OpenFile}
    (h : s.openFile fd = some file) :
    ∃ d f, s.descs fd = some d ∧ s.files d.path = some f ∧ file = ⟨.regular f.data, d.pos⟩ := by
  simp only [State.openFile, Option.bind_eq_some_iff, Option.map_eq_some_iff] at h
  obtain ⟨d, hd, f, hf, rfl⟩ := h
  exact ⟨d, f, hd, hf, rfl⟩

private theorem read_simulated {s : State} {a : Plain.State} {req : HvacRpcIn} {env : ReadEnv}
    (h : Agrees s a) :
    ∃ a', Plain.machine.runFrom a (shown s (.readRequest req env)) = some a' ∧
      ((s.handleRead req env).2.alive = true → Agrees (s.handleRead req env).2 a') := by
  have hreply : (s.handleRead req env).1 =
      (hvacRpcHandler env req (s.openFile req.accessfd)).1 := rfl
  rcases hvacRpcHandler_cases env req (s.openFile req.accessfd) with habort | ⟨bytes, hread, hans⟩
  · refine ⟨a, by simp [shown, hreply, habort], fun halive => ?_⟩
    simp [State.handleRead, habort] at halive
  · cases hfile : s.openFile req.accessfd with
    | none => simp [hfile, handlerRead] at hread
    | some file =>
        obtain ⟨d, f, hd, hf, rfl⟩ := openFile_eq_some hfile
        rw [hfile] at hread hans
        obtain ⟨hoff, hbytes, hnext⟩ := handlerRead_regular hread
        obtain ⟨p, hp, hs⟩ := h.opened _ _ hd
        have hreturns : a.Returns ⟨p, d.pos⟩ (Word.toUInt64 req.inputVal) req.offset bytes :=
          fun data hdata => h.content hs hf hdata ▸ hbytes
        have hdesc : Plain.Desc.advance ⟨p, d.pos⟩ req.offset bytes.length =
            ⟨p, if req.offset = -1 then d.pos + bytes.length else d.pos⟩ := by
          unfold Plain.Desc.advance
          split <;> rfl
        let d' := Plain.Desc.advance ⟨p, d.pos⟩ req.offset bytes.length
        refine ⟨{ a with descs := a.descs.set req.accessfd d' }, ?_, fun _ => ?_⟩
        · simp [d', shown, hreply, hfile, hans, Machine.runFrom, Plain.machine, Plain.step, hp,
            guarded, hoff, hreturns]
        · have hmove := h.move req.accessfd d
            (if req.offset = -1 then d.pos + bytes.length else d.pos) hs
          simp only [d', hdesc]
          simp only [State.handleRead, hfile, hans, hnext, State.setPos, hd]
          exact ⟨hmove.files, hmove.closed, hmove.opened⟩

private theorem seek_simulated {s : State} {a : Plain.State} {fd offset whence : Int}
    (h : Agrees s a) :
    ∃ a', Plain.machine.runFrom a (shown s (.seekRequest fd offset whence)) = some a' ∧
      Agrees (s.handleSeek fd offset whence).2 a' := by
  cases hseek : (s.openFile fd).bind fun f => f.lseek offset whence with
  | none => exact ⟨a, by simp [shown, hseek], by simpa [State.handleSeek, hseek] using h⟩
  | some result =>
      obtain ⟨r, file'⟩ := result
      obtain ⟨file, hfile, _⟩ := Option.bind_eq_some_iff.mp hseek
      obtain ⟨d, f, hd, _, _⟩ := openFile_eq_some hfile
      obtain ⟨p, hp, hs⟩ := h.opened _ _ hd
      refine ⟨{ a with descs := a.descs.set fd ⟨p, file'.pos⟩ }, ?_, ?_⟩
      · simp [shown, hseek, Machine.runFrom, Plain.machine, Plain.step, hp]
      · simpa [State.handleSeek, hseek, State.setPos, hd] using h.move fd d file'.pos hs

private theorem close_simulated {s : State} {a : Plain.State} {fd : Int} (h : Agrees s a) :
    ∃ a', Plain.machine.runFrom a (shown s (.closeRequest fd)) = some a' ∧
      (decide (s.descs fd ≠ none) = true →
        Agrees { s with
          alive := decide (s.descs fd ≠ none)
          descs := s.descs.erase fd
          progress := .closeFind fd } a') := by
  by_cases hd : s.descs fd = none
  · exact ⟨a, by simp [shown, hd], fun halive => by simp [hd] at halive⟩
  · obtain ⟨d, hd'⟩ := Option.ne_none_iff_exists'.mp hd
    obtain ⟨p, hp, _⟩ := h.opened _ _ hd'
    refine ⟨{ a with descs := a.descs.erase fd }, ?_, fun _ => ⟨h.files, ?_, ?_⟩⟩
    · simp [shown, hd, Machine.runFrom, Plain.machine, Plain.step, hp, guarded]
    · intro fd' hfd'
      by_cases heq : fd' = fd
      · simp [heq]
      · simpa [heq] using h.closed fd' (by simpa [heq] using hfd')
    · intro fd' d' hd'
      obtain ⟨hne, hd'⟩ := Table.erase_eq_some.mp hd'
      obtain ⟨p', hp', hs'⟩ := h.opened fd' d' hd'
      exact ⟨p', by simpa [hne] using hp', hs'⟩

private theorem open_simulated {s : State} {a : Plain.State} {path redirPath : Path} {fd : Int}
    (hi : ServeInv s) (h : Agrees s a) (hpc : s.progress = .openCall path redirPath)
    (hfree : s.descs fd = none) (hfile : s.files redirPath ≠ none) :
    ∃ a', Plain.machine.runFrom a (shown s (.openCall (some fd))) = some a' ∧
      Agrees { s with
        descs := s.descs.set fd ⟨redirPath, 0⟩
        fdToPath := s.fdToPath.set fd path
        progress := .idle } a' := by
  have hserve : Serves s path redirPath := by
    have hprogress := hi.progress
    rw [ProgressServes, hpc] at hprogress
    rcases hprogress with rfl | hs
    · exact hi.serves_self hfile
    · exact hs
  have hmove := h.move fd ⟨redirPath, 0⟩ 0 hserve
  refine ⟨{ a with descs := a.descs.set fd ⟨path, 0⟩ }, ?_, hmove.files, hmove.closed, hmove.opened⟩
  simp [shown, hpc, Machine.runFrom, Plain.machine, Plain.step, guarded, h.closed fd hfree]

private theorem create_simulated {s : State} {a : Plain.State} {path : Path} {data : List Byte}
    (h : Agrees s a) (hnew : s.files path = none)
    (hserve : ∀ p q, Serves s p q →
      Serves { s with files := s.files.set path ⟨data, .source⟩ } p q) :
    ∃ a', Plain.machine.runFrom a (shown s (.create path data)) = some a' ∧
      Agrees { s with files := s.files.set path ⟨data, .source⟩ } a' := by
  have hnew' : a.files path = none := by
    cases ha : a.files path with
    | none => rfl
    | some data' => exact absurd ((h.files path data').mp ha) (by rw [hnew]; nofun)
  refine ⟨{ a with files := a.files.set path data }, ?_, ?_, h.closed, fun fd d hd => ?_⟩
  · simp [shown, Machine.runFrom, Plain.machine, Plain.step, guarded, hnew']
  · intro p data'
    by_cases heq : p = path
    · simp [heq]
    · simpa [heq] using h.files p data'
  · obtain ⟨p, hp, hs⟩ := h.opened fd d hd
    exact ⟨p, hp, hserve p _ hs⟩

/-- Writing a copy leaves the source files alone. -/
private theorem source_iff_of_copy {files : Table Path FileNode} {filename : Path}
    {target : FileNode} (hcopy : target.origin = .copy)
    (hold : ∀ f, files filename = some f → f.origin = .copy) (p : Path) (data : List Byte) :
    files p = some ⟨data, .source⟩ ↔ files.set filename target p = some ⟨data, .source⟩ := by
  by_cases heq : p = filename
  · subst heq
    refine iff_of_false (fun h => absurd (hold _ h) nofun) fun h => ?_
    rw [Table.set_self] at h
    rw [Option.some.inj h] at hcopy
    cases hcopy
  · simp [heq]

private theorem step_simulated {s s' : State} {e : Event} {a : Plain.State} (hi : ServeInv s)
    (h : Agrees s a) (hstep : Step s e s') :
    ∃ a', Plain.machine.runFrom a (shown s e) = some a' ∧ (s'.alive = true → Agrees s' a') := by
  have hserve : ∀ p q, Serves s p q → Serves s' p q := fun p q => Serves.step hi hstep
  cases hstep with
  | create hnew =>
      obtain ⟨a', ha', hag⟩ := create_simulated h hnew hserve
      exact ⟨a', ha', fun _ => hag⟩
  | openOk hpc _ hfree hfile =>
      obtain ⟨a', ha', hag⟩ := open_simulated hi h hpc hfree hfile
      exact ⟨a', ha', fun _ => hag⟩
  | readRequest _ => exact read_simulated h
  | seekRequest _ =>
      obtain ⟨a', ha', hag⟩ := seek_simulated h
      exact ⟨a', ha', fun _ => hag⟩
  | closeRequest _ => exact close_simulated h
  | moverCopyCreate _ _ _ hnew =>
      refine ⟨a, rfl, fun _ => h.keep (source_iff_of_copy rfl fun f hf => ?_) rfl hserve⟩
      rw [hnew] at hf
      cases hf
  | moverCopyWrite hpc _ _ htarget =>
      have hmover := hi.mover
      rw [MoverServes, hpc] at hmover
      obtain ⟨⟨g, hg, hcopy⟩, _⟩ := hmover
      obtain rfl := Option.some.inj (hg.symm.trans htarget)
      refine ⟨a, rfl, fun _ => h.keep (source_iff_of_copy hcopy fun f hf => ?_) rfl hserve⟩
      exact Option.some.inj (hg.symm.trans hf) ▸ hcopy
  | openRequest _ | openMiss _ _ | openHit _ _ | openRedirect _ | openFail _ | closeUncached _ _
  | closeCached _ _ | closeLock _ _ | closePush _ | closeSignal _ | closeUnlock _ _ | closeErase _
  | moverLock _ _ | moverWait _ _ | moverSpurious _ | moverReacquire _ _ _ | moverDrain _ _
  | moverUnlock _ _ _ | moverRestart _ _ | moverMkdtemp _ _ | moverCopyReturn _ _ _
  | moverCopyThrow _ | moverRecord _ _ | moverPop _ =>
      exact ⟨a, rfl, fun _ => h.keep (fun _ _ => .rfl) rfl hserve⟩

/-- The server is simulated by the plain server for as long as it lives. -/
theorem plain_simulation :
    machine.Simulation Plain.machine shown fun s a => s.alive = true → Agrees s a where
  init := fun _ => ⟨fun _ _ => ⟨nofun, nofun⟩, fun _ _ => rfl, nofun⟩
  step := fun hr hR h => by
    obtain ⟨halive, hstep⟩ := step_cases h
    exact step_simulated (serveInv_invariant.reachable hr) (hR halive) hstep

/-- Whatever the server shows to its clients in a run, opens, answered reads and
closes, the plain server shows too; and an open request for a source file is led
to a file with the whole content of that file. -/
theorem served_as_plain (es : List Event) :
    (∃ a, Plain.machine.run (machine.labels shown State.init es) = some a) ∧
      ∀ s path redirPath data, machine.Visits es s → s.progress = .openCall path redirPath →
        s.files path = some ⟨data, .source⟩ →
        ∃ f, s.files redirPath = some f ∧ f.data = data := by
  refine ⟨plain_simulation.run es, fun s path redirPath data hs hpc hfile => ?_⟩
  have hprogress := (serveInv_invariant.reachable hs.reachable).progress
  rw [ProgressServes, hpc] at hprogress
  rcases hprogress with rfl | ⟨f, hf, hserve⟩
  · exact ⟨_, hfile, rfl⟩
  · rw [hfile] at hf
    obtain rfl := Option.some.inj hf
    obtain ⟨g, hg, hdata, _⟩ := hserve rfl
    exact ⟨g, hg, hdata⟩

/-- A file is opened and closed, the data mover copies it, and the next open is redirected. -/
example :
    (machine.run [.moverLock, .moverWait, .create ['/', 'a'] [1, 2], .openRequest ['/', 'a'],
      .openFind, .openCall (some 5), .closeRequest 5, .closeFind, .closeLock, .closePush,
      .closeSignal, .closeUnlock, .closeErase, .moverReacquire, .moverDrain, .moverUnlock,
      .moverMkdtemp ['/', 't'], .moverCopyCreate, .moverCopyWrite 2, .moverCopyReturn, .moverRecord,
      .openRequest ['/', 'a'], .openFind, .openRedirect]).map
        (fun s => (s.progress, s.files ['/', 't', '/', 'a'])) =
      some (.openCall ['/', 'a'] ['/', 't', '/', 'a'], some ⟨[1, 2], .copy⟩) := by
  decide

end MtHvac.Server
