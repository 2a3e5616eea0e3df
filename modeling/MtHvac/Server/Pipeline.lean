-- SUMMARY: The way of a path from its open request to the data mover: no path is lost, duplicated, reordered or misnamed.
import MtHvac.Server.Machine

/-!
# The caching pipeline

The path of a closed file goes from `fd_to_path` through `data_queue` and
`local_list` to the data mover. The history below follows the requests and looks
at none of the three; the pipeline is right if it agrees with the history.
-/

namespace MtHvac.Server

open Base

/-! ## History -/

/-- `requested` is the path string of the open request in progress, `opener fd` the
one of the open request that produced the descriptor, `closing` the same for the
descriptor that is being closed. `handled` are the paths of the close requests
that were not cached when they were handled, `copied` and `finished` those that
the data mover has copied and those that it is done with. -/
structure History where
  requested : Path
  opener : Table Int Path
  closing : Option Path
  handled : List Path
  copied : List Path
  finished : List Path

def History.init : History where
  requested := []
  opener := .empty
  closing := none
  handled := []
  copied := []
  finished := []

def History.record (s : State) (e : Event) (h : History) : History :=
  match e with
  | .openRequest path   => { h with requested := path }
  | .openCall (some fd) => { h with opener := h.opener.set fd h.requested }
  | .closeRequest fd    => { h with closing := h.opener fd, opener := h.opener.erase fd }
  | .closeFind          =>
      { h with
        handled := h.handled ++ h.closing.toList.filter fun p => (s.pathCacheMap p).isNone }
  | .moverCopyReturn    => { h with copied := h.copied ++ s.localList.take 1 }
  | .moverPop           => { h with finished := h.finished ++ s.localList.take 1 }
  | _                   => h

/-- The server with its history. -/
abbrev audited : Machine (State × History) Event := machine.observed History.record .init

/-- The path that a close request has found uncached and has not queued yet. -/
def State.unqueued (s : State) : List Path :=
  match s.progress with
  | .closeLock fd | .closePush fd => [s.closedPath fd]
  | _                             => []

/-! ## Names -/

/-- The path of the open request that the progress thread works on. -/
def ProgressPc.request : ProgressPc → Option Path
  | .openFind path | .openRedirect path | .openCall path _ => some path
  | _                                                      => none

/-- The descriptor that the progress thread has closed. -/
def ProgressPc.closed : ProgressPc → Option Int
  | .closeFind fd | .closeLock fd | .closePush fd | .closeSignal fd | .closeUnlock fd
  | .closeErase fd => some fd
  | _              => none

/-- `fd_to_path` names every open descriptor, and the one that is being closed, as
its open request did. -/
structure Named (s : State) (h : History) : Prop where
  requested : ∀ path, s.progress.request = some path → h.requested = path
  opener : ∀ fd, (s.descs fd).isSome →
    0 ≤ fd ∧ ∃ path, h.opener fd = some path ∧ s.fdToPath fd = some path
  closing : s.alive = true → ∀ fd, s.progress = .closeFind fd →
    ∃ path, h.closing = some path ∧ s.fdToPath fd = some path
  closed : ∀ fd, s.progress.closed = some fd → s.descs fd = none

/-- A step that neither opens nor closes a descriptor keeps the names. -/
theorem Named.keep {s s' : State} {h : History} (hn : Named s h)
    (hrequest : ∀ path, s'.progress.request = some path → s.progress.request = some path)
    (hdescs : ∀ fd, (s'.descs fd).isSome → (s.descs fd).isSome)
    (hnames : ∀ fd path, 0 ≤ fd → s.fdToPath fd = some path → s'.fdToPath fd = some path)
    (hclosing : ∀ fd, s'.progress ≠ .closeFind fd)
    (hclosed : ∀ fd, s'.progress.closed = some fd → s.progress.closed = some fd) :
    Named s' h := by
  constructor
  · intro path hpath
    exact hn.requested path (hrequest path hpath)
  · intro fd hfd
    obtain ⟨hpos, path, hopener, hname⟩ := hn.opener fd (hdescs fd hfd)
    exact ⟨hpos, path, hopener, hnames fd path hpos hname⟩
  · intro _ fd hfd
    exact absurd hfd (hclosing fd)
  · intro fd hfd
    have hnone : s.descs fd = none := hn.closed fd (hclosed fd hfd)
    rw [← Option.not_isSome_iff_eq_none] at hnone ⊢
    exact fun hopen => hnone (hdescs fd hopen)

/-- The data mover and other processes do not touch the names. -/
theorem Named.frame {s s' : State} {h h' : History} (hn : Named s h) (halive : s'.alive = s.alive)
    (hprogress : s'.progress = s.progress) (hdescs : s'.descs = s.descs)
    (hnames : s'.fdToPath = s.fdToPath) (hrequested : h'.requested = h.requested)
    (hopener : h'.opener = h.opener) (hclosing : h'.closing = h.closing) : Named s' h' := by
  obtain ⟨hreq, hop, hcl, hdone⟩ := hn
  constructor
  · rwa [hprogress, hrequested]
  · rwa [hdescs, hnames, hopener]
  · rwa [halive, hprogress, hnames, hclosing]
  · rwa [hprogress, hdescs]

theorem Named.step {s s' : State} {h : History} {e : Event} (hn : Named s h) (hs : Step s e s') :
    Named s' (h.record s e) := by
  have hsame : ∀ fd, (s.descs fd).isSome → (s.descs fd).isSome := fun _ hfd => hfd
  have hkept : ∀ fd path, 0 ≤ fd → s.fdToPath fd = some path → s.fdToPath fd = some path :=
    fun _ _ _ hname => hname
  cases hs with
  | openRequest hpc =>
      refine ⟨?_, hn.opener, ?_, ?_⟩
      · rintro path ⟨⟩
        rfl
      · rintro _ fd ⟨⟩
      · rintro fd ⟨⟩
  | openMiss hpc _ | openHit hpc _ | openRedirect hpc =>
      refine hn.keep ?_ hsame hkept (by rintro fd ⟨⟩) (by rintro fd ⟨⟩)
      rintro path ⟨⟩
      rw [hpc]
      rfl
  | openFail hpc =>
      -- the name of `-1` is written, which is never a descriptor
      refine hn.keep (by rintro path ⟨⟩) hsame ?_ (by rintro fd ⟨⟩) (by rintro fd ⟨⟩)
      intro fd path' hpos hname
      have hne : fd ≠ -1 := by omega
      simpa [hne] using hname
  | @openOk path redirPath fd hpc hpos hfree hfile =>
      have hrequested : h.requested = path := hn.requested path (by rw [hpc]; rfl)
      refine ⟨?_, fun fd' hfd' => ?_, ?_, ?_⟩
      · rintro path ⟨⟩
      · by_cases hfd : fd' = fd
        · subst hfd
          exact ⟨hpos, path, by simp [History.record, hrequested], by simp⟩
        · obtain ⟨hpos', path', hopener, hname⟩ := hn.opener fd' (by simpa [hfd] using hfd')
          exact ⟨hpos', path', by simp [History.record, hfd, hopener], by simp [hfd, hname]⟩
      · rintro _ fd ⟨⟩
      · rintro fd ⟨⟩
  | @readRequest req env hpc =>
      have hidle : (s.handleRead req env).2.progress = .idle := by
        obtain ⟨_, _, _, hs'⟩ := s.handleRead_frame req env
        rw [hs']
        exact hpc
      apply hn.keep
      · rw [hidle]
        rintro path ⟨⟩
      · intro fd hfd
        rwa [s.handleRead_isSome] at hfd
      · intro fd path _ hname
        rw [s.handleRead_fdToPath]
        exact Table.touch_eq_some hname
      · rw [hidle]
        rintro fd ⟨⟩
      · rw [hidle]
        rintro fd ⟨⟩
  | @seekRequest fd offset whence hpc =>
      have hidle : (s.handleSeek fd offset whence).2.fdToPath = s.fdToPath ∧
          (s.handleSeek fd offset whence).2.progress = .idle := by
        obtain ⟨_, hs'⟩ := s.handleSeek_frame fd offset whence
        rw [hs']
        exact ⟨rfl, hpc⟩
      apply hn.keep
      · rw [hidle.2]
        rintro path ⟨⟩
      · intro fd' hfd
        rwa [s.handleSeek_isSome] at hfd
      · rw [hidle.1]
        exact hkept
      · rw [hidle.2]
        rintro fd ⟨⟩
      · rw [hidle.2]
        rintro fd ⟨⟩
  | @closeRequest fd hpc =>
      refine ⟨?_, fun fd' hfd' => ?_, ?_, ?_⟩
      · rintro path ⟨⟩
      · by_cases hfd : fd' = fd
        · subst hfd
          simp at hfd'
        · obtain ⟨hpos, path, hopener, hname⟩ := hn.opener fd' (by simpa [hfd] using hfd')
          exact ⟨hpos, path, by simp [History.record, hfd, hopener], hname⟩
      · -- the process lives on only if the descriptor was open, and then it has a name
        rintro hopen fd' ⟨⟩
        obtain ⟨_, path, hopener, hname⟩ :=
          hn.opener fd (Option.isSome_iff_ne_none.mpr (of_decide_eq_true hopen))
        exact ⟨path, hopener, hname⟩
      · rintro fd' ⟨⟩
        simp
  | closeUncached hpc _ | closeCached hpc _ =>
      refine ⟨?_, fun fd' hfd' => ?_, ?_, ?_⟩
      · rintro path ⟨⟩
      · obtain ⟨hpos, path, hopener, hname⟩ := hn.opener fd' hfd'
        exact ⟨hpos, path, hopener, Table.touch_eq_some hname⟩
      · rintro _ fd' ⟨⟩
      · rintro fd' ⟨⟩
        exact hn.closed _ (by rw [hpc]; rfl)
  | closeLock hpc _ | closePush hpc | closeSignal hpc | closeUnlock hpc _ =>
      refine hn.keep (by rintro path ⟨⟩) hsame hkept (by rintro fd ⟨⟩) ?_
      rintro fd ⟨⟩
      rw [hpc]
      rfl
  | @closeErase fd hpc =>
      -- the descriptor is closed, so none that is open loses its name
      have hclosed : s.descs fd = none := hn.closed fd (by rw [hpc]; rfl)
      refine ⟨?_, fun fd' hfd' => ?_, ?_, ?_⟩
      · rintro path ⟨⟩
      · obtain ⟨hpos, path, hopener, hname⟩ := hn.opener fd' hfd'
        have hne : fd' ≠ fd := by
          rintro rfl
          simp [hclosed] at hfd'
        exact ⟨hpos, path, hopener, by simpa [hne] using hname⟩
      · rintro _ fd' ⟨⟩
      · rintro fd' ⟨⟩
  | _ => exact hn.frame rfl rfl rfl rfl rfl rfl rfl

/-! ## Conservation -/

def MoverPc.working : MoverPc → Bool
  | .copy _ | .copying _ | .record _ | .pop => true
  | _                                       => false

/-- The law of the pipeline. The data mover works on the head of `local_list`, and
an open request is redirected only where there is an entry. -/
structure Conserved (s : State) (h : History) : Prop where
  law : h.finished ++ s.localList ++ s.dataQueue ++ s.unqueued = h.handled
  working : s.mover.working = true → s.localList ≠ []
  redirected : ∀ path, s.progress = .openRedirect path → s.pathCacheMap path ≠ none

/-- A step that leaves the queues and the history of the pipeline as they are. -/
theorem Conserved.keep {s s' : State} {h h' : History} (hc : Conserved s h)
    (hlists : s'.localList = s.localList ∧ s'.dataQueue = s.dataQueue ∧ s'.unqueued = s.unqueued)
    (hhistory : h'.finished = h.finished ∧ h'.handled = h.handled)
    (hworking : s'.mover.working = true → s.localList ≠ [])
    (hredirected : ∀ path, s'.progress = .openRedirect path → s'.pathCacheMap path ≠ none) :
    Conserved s' h' := by
  obtain ⟨hlocal, hqueue, hunqueued⟩ := hlists
  obtain ⟨hfinished, hhandled⟩ := hhistory
  constructor
  · rw [hfinished, hhandled, hlocal, hqueue, hunqueued]
    exact hc.law
  · rw [hlocal]
    exact hworking
  · exact hredirected

theorem Conserved.step {s s' : State} {h : History} {e : Event} (hn : Named s h)
    (hc : Conserved s h) (halive : s.alive = true) (hs : Step s e s') :
    Conserved s' (h.record s e) := by
  obtain ⟨hlaw, hworking, hredirected⟩ := id hc
  -- a progress thread outside a close has nothing unqueued
  have houtside : s.progress.closed = none → s.unqueued = [] := by
    unfold State.unqueued
    cases s.progress <;> simp [ProgressPc.closed]
  have houtside_closeFind : ∀ {fd}, s.progress = .closeFind fd → s.unqueued = [] := by
    intro fd hpc
    simp [State.unqueued, hpc]
  cases hs with
  | create hnew => exact hc.keep ⟨rfl, rfl, rfl⟩ ⟨rfl, rfl⟩ hworking hredirected
  | openRequest hpc | openMiss hpc _ | openRedirect hpc | openFail hpc | openOk hpc _ _ _
  | closeRequest hpc =>
      exact hc.keep ⟨rfl, rfl, (houtside (by rw [hpc]; rfl)).symm⟩ ⟨rfl, rfl⟩ hworking (by rintro path ⟨⟩)
  | openHit hpc hmap =>
      refine hc.keep ⟨rfl, rfl, (houtside (by rw [hpc]; rfl)).symm⟩ ⟨rfl, rfl⟩ hworking ?_
      rintro path ⟨⟩ hnone
      cases hmap.symm.trans hnone
  | @readRequest req env hpc =>
      obtain ⟨_, _, _, hs'⟩ := s.handleRead_frame req env
      have hidle : s.unqueued = [] := houtside (by rw [hpc]; rfl)
      rw [hs']
      refine hc.keep ⟨rfl, rfl, ?_⟩ ⟨rfl, rfl⟩ hworking hredirected
      simp [State.unqueued, hpc]
  | @seekRequest fd offset whence hpc =>
      obtain ⟨_, hs'⟩ := s.handleSeek_frame fd offset whence
      rw [hs']
      refine hc.keep ⟨rfl, rfl, ?_⟩ ⟨rfl, rfl⟩ hworking hredirected
      simp [State.unqueued, hpc]
  | @closeUncached fd hpc hmap =>
      -- the descriptor has its name, so the lookup inserts none
      obtain ⟨path, hclosing, hname⟩ := hn.closing halive fd hpc
      rw [show s.closedPath fd = path from Table.entry_of_some hname] at hmap
      rw [houtside_closeFind hpc, List.append_nil] at hlaw
      refine ⟨?_, hworking, by rintro path ⟨⟩⟩
      change h.finished ++ s.localList ++ s.dataQueue ++ [(s.fdToPath.touch fd []).entry fd []] = _
      rw [Table.entry_touch, Table.entry_of_some hname, hlaw]
      simp [History.record, hclosing, hmap]
  | @closeCached fd filename hpc hmap =>
      obtain ⟨path, hclosing, hname⟩ := hn.closing halive fd hpc
      rw [show s.closedPath fd = path from Table.entry_of_some hname] at hmap
      rw [houtside_closeFind hpc, List.append_nil] at hlaw
      refine ⟨?_, hworking, by rintro path ⟨⟩⟩
      change h.finished ++ s.localList ++ s.dataQueue ++ [] = _
      rw [List.append_nil, hlaw]
      simp [History.record, hclosing, hmap]
  | closeLock hpc _ =>
      refine hc.keep ⟨rfl, rfl, ?_⟩ ⟨rfl, rfl⟩ hworking (by rintro path ⟨⟩)
      simp [State.unqueued, State.closedPath, hpc]
  | closePush hpc =>
      refine ⟨?_, hworking, by rintro path ⟨⟩⟩
      simp [State.unqueued, hpc, History.record, ← hlaw]
  | closeSignal hpc | closeUnlock hpc _ | closeErase hpc =>
      refine hc.keep ⟨rfl, rfl, ?_⟩ ⟨rfl, rfl⟩ hworking (by rintro path ⟨⟩)
      simp [State.unqueued, hpc]
  | moverLock _ _ | moverWait _ _ | moverReacquire _ _ _ | moverUnlock _ _ _ | moverRestart _ _ =>
      exact hc.keep ⟨rfl, rfl, rfl⟩ ⟨rfl, rfl⟩ (by rintro ⟨⟩) hredirected
  | moverSpurious hpc => exact hc.keep ⟨rfl, rfl, rfl⟩ ⟨rfl, rfl⟩ hworking hredirected
  | moverDrain hpc hqueue =>
      refine ⟨?_, ?_, hredirected⟩
      · rw [hqueue] at hlaw
        change h.finished ++ (s.localList ++ [_]) ++ _ ++ s.unqueued = h.handled
        rw [← hlaw]
        simp
      · rw [hpc]
        rintro ⟨⟩
  | moverMkdtemp hpc hlist =>
      refine hc.keep ⟨rfl, rfl, rfl⟩ ⟨rfl, rfl⟩ (fun _ => ?_) hredirected
      rw [hlist]
      exact List.cons_ne_nil _ _
  | moverCopyCreate hpc hlist _ _ | moverCopyReturn hpc hlist _ =>
      refine hc.keep ⟨rfl, rfl, rfl⟩ ⟨rfl, rfl⟩ (fun _ => ?_) hredirected
      rw [hlist]
      exact List.cons_ne_nil _ _
  | moverCopyWrite hpc hlist _ _ => exact hc.keep ⟨rfl, rfl, rfl⟩ ⟨rfl, rfl⟩ hworking hredirected
  | moverCopyThrow hpc =>
      refine hc.keep ⟨rfl, rfl, rfl⟩ ⟨rfl, rfl⟩ (fun _ => hworking ?_) hredirected
      rcases hpc with hpc | hpc <;> rw [hpc] <;> rfl
  | @moverRecord filename p rest hpc hlist =>
      refine hc.keep ⟨rfl, rfl, rfl⟩ ⟨rfl, rfl⟩ (fun _ => hlist ▸ List.cons_ne_nil _ _) ?_
      intro path hpath
      by_cases hp : path = p
      · simp [hp]
      · simpa [hp] using hredirected path hpath
  | moverPop hpc =>
      refine ⟨?_, by rintro ⟨⟩, hredirected⟩
      change h.finished ++ s.localList.take 1 ++ s.localList.tail ++ s.dataQueue ++ s.unqueued =
        h.handled
      rw [← hlaw, List.append_assoc h.finished, ← List.drop_one, List.take_append_drop]

/-- The pipeline agrees with its history. -/
structure PipelineInv (x : State × History) : Prop where
  named : Named x.1 x.2
  conserved : Conserved x.1 x.2

theorem pipelineInv_invariant : audited.Invariant PipelineInv := by
  constructor
  · refine ⟨⟨nofun, ?_, fun _ => nofun, nofun⟩, ⟨rfl, nofun, nofun⟩⟩
    intro fd hfd
    cases hfd
  · rintro x ⟨s', h'⟩ e _ hi he
    obtain ⟨hstep, rfl⟩ := Machine.observed_step.mp he
    obtain ⟨halive, hs⟩ := step_cases hstep
    exact ⟨hi.named.step hs, hi.conserved.step hi.named halive hs⟩

/-! ## Failed copies -/

/-- Between a failed copy and the removal of its path, nobody else touches
`local_list` or changes an entry. -/
theorem pop_pending_step {s s' : State} {e : Event} (hpc : s.mover = .pop) (he : e ≠ .moverPop)
    (hredirected : ∀ path, s.progress = .openRedirect path → s.pathCacheMap path ≠ none)
    (hs : Step s e s') :
    s'.mover = .pop ∧ s'.localList = s.localList ∧ s'.pathCacheMap = s.pathCacheMap ∧
      s.dataQueue <+: s'.dataQueue := by
  cases hs with
  | openRedirect hprogress =>
      obtain ⟨filename, hfilename⟩ := Option.ne_none_iff_exists'.mp (hredirected _ hprogress)
      exact ⟨hpc, rfl, Table.touch_of_some hfilename, List.prefix_rfl⟩
  | closePush _ => exact ⟨hpc, rfl, rfl, List.prefix_append _ _⟩
  | readRequest _ =>
      obtain ⟨_, _, _, hs'⟩ := s.handleRead_frame _ _
      rw [hs']
      exact ⟨hpc, rfl, rfl, List.prefix_rfl⟩
  | seekRequest _ =>
      obtain ⟨_, hs'⟩ := s.handleSeek_frame _ _ _
      rw [hs']
      exact ⟨hpc, rfl, rfl, List.prefix_rfl⟩
  | create _ | openRequest _ | openMiss _ _ | openHit _ _ | openFail _ | openOk _ _ _ _
  | closeRequest _ | closeUncached _ _ | closeCached _ _ | closeLock _ _ | closeSignal _
  | closeUnlock _ _ | closeErase _ => exact ⟨hpc, rfl, rfl, List.prefix_rfl⟩
  | moverPop _ => exact absurd rfl he
  | moverSpurious hpc' | moverLock hpc' _ | moverWait hpc' _ | moverReacquire hpc' _ _
  | moverDrain hpc' _ | moverUnlock hpc' _ _ | moverRestart hpc' _ | moverMkdtemp hpc' _
  | moverCopyCreate hpc' _ _ _ | moverCopyWrite hpc' _ _ _ | moverCopyReturn hpc' _ _
  | moverRecord hpc' _ => cases hpc.symm.trans hpc'
  | moverCopyThrow hpc' =>
      rcases hpc' with hpc' | hpc' <;> cases hpc.symm.trans hpc'

/-- If the copy in progress throws, its own path is removed and no other, and no
entry changes, whatever the progress thread does before the removal. -/
def DropsOwnPath (s : State) : Prop :=
  ∀ s', machine.step s .moverCopyThrow = some s' → ∃ p rest, s.localList = p :: rest ∧
    ∀ es s₁ s₂, .moverPop ∉ es → machine.runFrom s' es = some s₁ →
      machine.step s₁ .moverPop = some s₂ →
      s₂.localList = rest ∧ s.dataQueue <+: s₂.dataQueue ∧ s₂.pathCacheMap = s.pathCacheMap

/-- A redirected open request has an entry to read. -/
theorem redirected_of_reachable {s : State} (hr : machine.Reachable s) {path : Path}
    (hpc : s.progress = .openRedirect path) : s.pathCacheMap path ≠ none := by
  obtain ⟨es, hes⟩ := hr.exists_run
  obtain ⟨h, hrun⟩ := Machine.observed_run hes
  exact (pipelineInv_invariant.reachable (Machine.reachable_of_run hrun)).conserved.redirected
    path hpc

/-- The steps between a failed copy and the removal of its path. -/
theorem pop_pending_run {s s₁ : State} {es : List Event} (hr : machine.Reachable s)
    (hpc : s.mover = .pop) (hes : .moverPop ∉ es) (hrun : machine.runFrom s es = some s₁) :
    s₁.mover = .pop ∧ s₁.localList = s.localList ∧ s₁.pathCacheMap = s.pathCacheMap ∧
      s.dataQueue <+: s₁.dataQueue := by
  induction es generalizing s with
  | nil =>
      obtain rfl := Option.some.inj hrun
      exact ⟨hpc, rfl, rfl, List.prefix_rfl⟩
  | cons e es ih =>
      obtain ⟨s', he, hrest⟩ := Option.bind_eq_some_iff.mp hrun
      rw [List.mem_cons, not_or] at hes
      obtain ⟨hpc', hlist, hcache, hqueue⟩ :=
        pop_pending_step hpc (Ne.symm hes.1) (fun _ => redirected_of_reachable hr) (step_cases he).2
      obtain ⟨hpc₁, hlist₁, hcache₁, hqueue₁⟩ := ih (hr.step he) hpc' hes.2 hrest
      exact ⟨hpc₁, hlist₁.trans hlist, hcache₁.trans hcache, hqueue.trans hqueue₁⟩

theorem drops_own_path {s : State} {h : History} (hr : audited.Reachable (s, h)) :
    DropsOwnPath s := by
  intro s' hthrow
  have hreach : machine.Reachable s' := hr.of_observed.step hthrow
  have hc : Conserved s h := (pipelineInv_invariant.reachable hr).conserved
  cases (step_cases hthrow).2 with
  | moverCopyThrow hpc =>
      have hworking : s.localList ≠ [] := by
        apply hc.working
        rcases hpc with hpc | hpc <;> rw [hpc] <;> rfl
      obtain ⟨p, rest, hlist⟩ := List.exists_cons_of_ne_nil hworking
      refine ⟨p, rest, hlist, fun es s₁ s₂ hes hrun hpop => ?_⟩
      obtain ⟨_, hlist₁, hcache₁, hqueue₁⟩ := pop_pending_run hreach rfl hes hrun
      cases (step_cases hpop).2 with
      | moverPop _ =>
          refine ⟨?_, hqueue₁, hcache₁⟩
          change s₁.localList.tail = rest
          rw [hlist₁]
          change s.localList.tail = rest
          rw [hlist]
          rfl

/-! ## The law -/

/-- In every reachable state the paths that the data mover is done with, those in
`local_list`, those in `data_queue` and the one that a close request is about to
queue are, in this order, the paths of the close requests that were not cached
when they were handled. A copy that throws drops its own path only. -/
theorem pipeline_conserved {s : State} {h : History} (hr : audited.Reachable (s, h)) :
    h.finished ++ s.localList ++ s.dataQueue ++ s.unqueued = h.handled ∧ DropsOwnPath s :=
  ⟨(pipelineInv_invariant.reachable hr).conserved.law, drops_own_path hr⟩

/-- The steps of an open request that is not redirected, and of a close request
that queues its path. -/
def openSteps (path : Path) (fd : Int) : List Event :=
  [.openRequest path, .openFind, .openCall (some fd)]

def closeSteps (fd : Int) : List Event :=
  [.closeRequest fd, .closeFind, .closeLock, .closePush, .closeSignal, .closeUnlock, .closeErase]

/-- The steps of a copy of a file with `n` bytes under the directory `dir`. -/
def copySteps (dir : Path) (n : Nat) : List Event :=
  [.moverMkdtemp dir, .moverCopyCreate, .moverCopyWrite n, .moverCopyReturn, .moverRecord, .moverPop]

/-- Two files are closed one after the other, on the same descriptor number. -/
def closeTwice : List Event :=
  [.create ['/', 'a'] [1, 2], .create ['/', 'b'] [3], .moverLock, .moverWait] ++
    openSteps ['/', 'a'] 5 ++ closeSteps 5 ++ openSteps ['/', 'b'] 5 ++ closeSteps 5 ++
    [.moverReacquire, .moverDrain, .moverDrain, .moverUnlock] ++ copySteps ['/', 't'] 2

/-- After `closeTwice` the first file is copied and the second waits for it. -/
theorem pipeline_conserved_closeTwice :
    ∃ s h, audited.run closeTwice = some (s, h) ∧ s.localList = [['/', 'b']] ∧
      h.finished ++ s.localList ++ s.dataQueue ++ s.unqueued = [['/', 'a'], ['/', 'b']] := by
  have hmap : (audited.run closeTwice).map (fun x => (x.1.localList, x.2.handled)) =
      some ([['/', 'b']], [['/', 'a'], ['/', 'b']]) := by
    decide +kernel
  obtain ⟨⟨s, h⟩, hrun, hx⟩ := Option.map_eq_some_iff.mp hmap
  obtain ⟨hlist, hhandled⟩ := Prod.mk.inj hx
  refine ⟨s, h, hrun, hlist, ?_⟩
  rw [(pipeline_conserved (Machine.reachable_of_run hrun)).1]
  exact hhandled

end MtHvac.Server
