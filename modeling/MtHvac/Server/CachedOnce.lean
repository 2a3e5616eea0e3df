-- SUMMARY: Which runs of the server copy each file at most once.
import MtHvac.Server.Pipeline

/-!
# Copies of one file

A close request queues its path if there is no entry for it in `path_cache_map`.
The entry is made when the copy is complete; until then, every close of the same
path queues it again.
-/

namespace MtHvac.Server

open Base

/-! ## At most one copy -/

/-- The path that the data mover copies: from `mkdtemp` until its entry is made. -/
def State.copying (s : State) : Option Path :=
  match s.mover with
  | .copy _ | .copying _ | .record _ => s.localList.head?
  | _                                => none

/-- No path has been copied twice, the data mover copies no path that has an entry,
and nothing that can happen next changes an entry. -/
structure CachedOnce (s : State) (h : History) : Prop where
  copied : h.copied.Nodup
  copying : ∀ path, s.copying = some path → s.pathCacheMap path = none
  kept : ∀ e s', machine.step s e = some s' → ∀ path filename,
    s.pathCacheMap path = some filename → s'.pathCacheMap path = some filename

/-- The part of `local_list` that the data mover has not dealt with. -/
def State.uncopied (s : State) : List Path :=
  if s.mover = .pop then s.localList.tail else s.localList

/-- The paths that wait for a copy, with the one that is being copied. -/
def State.awaiting (s : State) : List Path := s.uncopied ++ s.dataQueue ++ s.unqueued

/-- A copy is recorded while its path does not wait for another copy. -/
def Unawaited (s : State) : Event → Prop
  | .moverRecord => ∀ path ∈ s.localList.head?,
      path ∉ s.localList.tail ++ s.dataQueue ++ s.unqueued
  | _            => True

instance (s : State) (e : Event) : Decidable (Unawaited s e) := by
  unfold Unawaited
  split <;> infer_instance

/-! ## What waits for a copy -/

/-- What a step does to the entries and to the paths that wait: a close request that
finds its path uncached lets it wait, a completed copy gets its entry, and any
other step leaves the entries alone and lets nothing wait. -/
inductive AwaitStep (s s' : State) (e : Event) : Prop
  | same (hcache : s'.pathCacheMap = s.pathCacheMap) (hawaiting : s'.awaiting <:+ s.awaiting)
  | close (fd : Int) (he : e = .closeFind) (hpc : s.progress = .closeFind fd)
      (hmap : s.pathCacheMap (s.closedPath fd) = none) (hcache : s'.pathCacheMap = s.pathCacheMap)
      (hawaiting : s'.awaiting = s.awaiting ++ [s.closedPath fd])
  | record (path filename : Path) (rest : List Path) (he : e = .moverRecord)
      (hpc : s.mover = .record filename) (hlist : s.localList = path :: rest)
      (hcache : s'.pathCacheMap = s.pathCacheMap.set path filename)
      (hawaiting : s'.awaiting = rest ++ s.dataQueue ++ s.unqueued)

theorem awaiting_step {s s' : State} {h : History} {e : Event} (hi : PipelineInv (s, h))
    (halive : s.alive = true) (hs : Step s e s') : AwaitStep s s' e := by
  -- a step of the progress thread outside a close, and a step of the data mover that
  -- neither begins nor ends the removal of a path
  have houtside : ∀ {s' : State}, s'.pathCacheMap = s.pathCacheMap →
      s'.uncopied ++ s'.dataQueue = s.uncopied ++ s.dataQueue → s'.unqueued = s.unqueued →
      AwaitStep s s' e := by
    intro s' hcache hlists hunqueued
    apply AwaitStep.same hcache
    rw [State.awaiting, State.awaiting, hlists, hunqueued]
  cases hs with
  | @closeUncached fd hpc hmap =>
      obtain ⟨path, _, hname⟩ := hi.named.closing halive fd hpc
      have hpath : s.closedPath fd = path := Table.entry_of_some hname
      refine .close fd rfl hpc hmap rfl ?_
      change s.uncopied ++ s.dataQueue ++ [(s.fdToPath.touch fd []).entry fd []] = _
      rw [Table.entry_touch]
      simp [State.awaiting, State.unqueued, hpc, State.closedPath]
  | openRedirect hpc =>
      obtain ⟨filename, hfilename⟩ :=
        Option.ne_none_iff_exists'.mp (hi.conserved.redirected _ hpc)
      apply houtside
      · exact Table.touch_of_some hfilename
      · rfl
      · simp [State.unqueued, hpc]
  | readRequest hpc =>
      obtain ⟨_, _, _, hs'⟩ := s.handleRead_frame _ _
      rw [hs']
      apply houtside
      · rfl
      · rfl
      · simp [State.unqueued, hpc]
  | seekRequest hpc =>
      obtain ⟨_, hs'⟩ := s.handleSeek_frame _ _ _
      rw [hs']
      apply houtside
      · rfl
      · rfl
      · simp [State.unqueued, hpc]
  | closePush hpc =>
      refine .same rfl ?_
      simp [State.awaiting, State.uncopied, State.unqueued, hpc]
  | closeLock hpc _ =>
      refine houtside rfl rfl ?_
      simp [State.unqueued, State.closedPath, hpc]
  | create _ => exact houtside rfl rfl rfl
  | openRequest hpc | openMiss hpc _ | openHit hpc _ | openFail hpc | openOk hpc _ _ _
  | closeRequest hpc | closeCached hpc _ | closeSignal hpc | closeUnlock hpc _ | closeErase hpc =>
      refine houtside rfl rfl ?_
      simp [State.unqueued, hpc]
  | moverDrain hpc hqueue =>
      refine houtside rfl ?_ rfl
      simp [State.uncopied, hpc, hqueue]
  | moverCopyThrow hpc =>
      have hwhole : s.uncopied = s.localList := by
        rcases hpc with hpc | hpc <;> simp [State.uncopied, hpc]
      obtain ⟨dropped, hdropped⟩ := List.tail_suffix s.localList
      refine .same rfl ⟨dropped, ?_⟩
      change dropped ++ (s.localList.tail ++ s.dataQueue ++ s.unqueued) = _
      rw [State.awaiting, hwhole]
      nth_rewrite 2 [← hdropped]
      simp
  | moverRecord hpc hlist =>
      refine .record _ _ _ rfl hpc hlist rfl ?_
      simp [State.awaiting, State.uncopied, State.unqueued, State.closedPath, hlist]
  | moverPop hpc =>
      refine houtside rfl ?_ rfl
      simp [State.uncopied, hpc]
  | moverSpurious hpc => exact houtside rfl rfl rfl
  | moverLock hpc _ | moverWait hpc _ | moverReacquire hpc _ _ | moverUnlock hpc _ _
  | moverRestart hpc _ | moverMkdtemp hpc _ | moverCopyCreate hpc _ _ _ | moverCopyReturn hpc _ _
  | moverCopyWrite hpc _ _ _ =>
      refine houtside rfl ?_ rfl
      simp [State.uncopied, hpc]

/-! ## Copies and entries -/

/-- No path that waits has an entry, and each path that was copied has one, or is
about to get it. -/
structure Entered (s : State) (h : History) : Prop where
  uncached : ∀ path ∈ s.awaiting, s.pathCacheMap path = none
  nodup : h.copied.Nodup
  entered : ∀ path ∈ h.copied, s.pathCacheMap path ≠ none ∨
    ∃ filename, s.mover = .record filename ∧ s.localList.head? = some path

/-- The path that is being copied is the first that waits. -/
theorem copying_mem_awaiting {s : State} {path : Path} (h : s.copying = some path) :
    path ∈ s.awaiting := by
  unfold State.copying at h
  split at h
  case h_4 => cases h
  all_goals
    next hpc =>
      have hmem : path ∈ s.localList := List.mem_of_head? h
      simp [State.awaiting, State.uncopied, hpc, hmem]

/-- No step takes an entry away. -/
theorem cached_step {s s' : State} {h : History} {e : Event} (hi : PipelineInv (s, h))
    (halive : s.alive = true) (hs : Step s e s') {path : Path} (hpath : s.pathCacheMap path ≠ none) :
    s'.pathCacheMap path ≠ none := by
  cases awaiting_step hi halive hs with
  | same hcache _ | close _ _ _ _ hcache _ =>
      rw [hcache]
      exact hpath
  | record path' filename rest _ _ _ hcache _ =>
      rw [hcache, Table.set_apply]
      split
      · nofun
      · exact hpath

/-- A data mover that is about to make an entry does nothing else before. -/
theorem record_pending_step {s s' : State} {e : Event} {filename : Path}
    (hpc : s.mover = .record filename) (hs : Step s e s') :
    e = .moverRecord ∨ s'.mover = s.mover ∧ s'.localList = s.localList := by
  cases hs with
  | readRequest _ =>
      obtain ⟨_, _, _, hs'⟩ := s.handleRead_frame _ _
      rw [hs']
      exact .inr ⟨rfl, rfl⟩
  | seekRequest _ =>
      obtain ⟨_, hs'⟩ := s.handleSeek_frame _ _ _
      rw [hs']
      exact .inr ⟨rfl, rfl⟩
  | create _ | openRequest _ | openMiss _ _ | openHit _ _ | openRedirect _ | openFail _
  | openOk _ _ _ _ | closeRequest _ | closeUncached _ _ | closeCached _ _ | closeLock _ _
  | closePush _ | closeSignal _ | closeUnlock _ _ | closeErase _ | moverSpurious _ =>
      exact .inr ⟨rfl, rfl⟩
  | moverRecord _ _ => exact .inl rfl
  | moverLock hpc' _ | moverWait hpc' _ | moverReacquire hpc' _ _ | moverDrain hpc' _
  | moverUnlock hpc' _ _ | moverRestart hpc' _ | moverMkdtemp hpc' _ | moverCopyCreate hpc' _ _ _
  | moverCopyWrite hpc' _ _ _ | moverCopyReturn hpc' _ _ | moverPop hpc' =>
      cases hpc.symm.trans hpc'
  | moverCopyThrow hpc' =>
      rcases hpc' with hpc' | hpc' <;> cases hpc.symm.trans hpc'

theorem Entered.uncached_step {s s' : State} {h : History} {e : Event} (hi : PipelineInv (s, h))
    (ht : Entered s h) (halive : s.alive = true) (hc : Unawaited s e) (hs : Step s e s') :
    ∀ path ∈ s'.awaiting, s'.pathCacheMap path = none := by
  intro path hpath
  cases awaiting_step hi halive hs with
  | same hcache hawaiting =>
      rw [hcache]
      exact ht.uncached path (hawaiting.subset hpath)
  | close fd _ hpc hmap hcache hawaiting =>
      rw [hawaiting, List.mem_append, List.mem_singleton] at hpath
      rw [hcache]
      rcases hpath with hpath | rfl
      · exact ht.uncached path hpath
      · exact hmap
  | record path' filename rest he hpc hlist hcache hawaiting =>
      subst he
      rw [hawaiting] at hpath
      have hother : path ≠ path' := by
        rintro rfl
        refine hc path (by simp [hlist]) ?_
        simpa [hlist] using hpath
      rw [hcache, Table.set_of_ne _ _ hother]
      refine ht.uncached path ?_
      simp only [State.awaiting, State.uncopied, hpc, hlist]
      simp at hpath ⊢
      tauto

/-- What was copied keeps its entry, or gets it next. -/
theorem Entered.entered_step {s s' : State} {h : History} {e : Event} (hi : PipelineInv (s, h))
    (ht : Entered s h) (halive : s.alive = true) (hs : Step s e s') {path : Path}
    (hpath : path ∈ h.copied) : s'.pathCacheMap path ≠ none ∨
      ∃ filename, s'.mover = .record filename ∧ s'.localList.head? = some path := by
  rcases ht.entered path hpath with hcached | ⟨filename, hpc, hhead⟩
  · exact .inl (cached_step hi halive hs hcached)
  rcases record_pending_step hpc hs with rfl | ⟨hmover, hlist⟩
  · cases hs with
    | moverRecord _ hlist =>
        rw [hlist] at hhead
        obtain rfl := Option.some.inj hhead
        exact .inl (by simp)
  · exact .inr ⟨filename, hmover.trans hpc, by rw [hlist, hhead]⟩

theorem Entered.step {s s' : State} {h : History} {e : Event} (hi : PipelineInv (s, h))
    (ht : Entered s h) (halive : s.alive = true) (hc : Unawaited s e) (hs : Step s e s') :
    Entered s' (h.record s e) := by
  have huncached := ht.uncached_step hi halive hc hs
  have hentered : ∀ path ∈ h.copied, _ := fun path => ht.entered_step hi halive hs
  by_cases he : e = .moverCopyReturn
  · subst he
    cases hs with
    | @moverCopyReturn filename path rest hpc hlist hdone =>
        have hcopied : (h.record s .moverCopyReturn).copied = h.copied ++ [path] := by
          simp [History.record, hlist]
        have hnew : path ∉ h.copied := by
          intro hold
          have hnone : s.pathCacheMap path = none :=
            ht.uncached path (copying_mem_awaiting (by simp [State.copying, hpc, hlist]))
          rcases ht.entered path hold with hcached | ⟨filename', hpc', _⟩
          · exact hcached hnone
          · cases hpc.symm.trans hpc'
        refine ⟨huncached, ?_, ?_⟩
        · rw [hcopied]
          exact List.nodup_append.mpr ⟨ht.nodup, List.nodup_singleton _, by
            rintro p hp q hq rfl
            exact hnew (List.mem_singleton.mp hq ▸ hp)⟩
        · intro path' hpath'
          rw [hcopied, List.mem_append, List.mem_singleton] at hpath'
          rcases hpath' with hold | rfl
          · exact hentered path' hold
          · exact .inr ⟨filename, rfl, by simp [hlist]⟩
  · have hcopied : (h.record s e).copied = h.copied := by
      unfold History.record
      split <;> first | rfl | exact absurd rfl he
    refine ⟨huncached, ?_, ?_⟩
    · rw [hcopied]
      exact ht.nodup
    · rw [hcopied]
      exact hentered

/-! ## When each file is copied at most once -/

theorem Entered.cachedOnce {s : State} {h : History} (hi : PipelineInv (s, h)) (ht : Entered s h) :
    CachedOnce s h := by
  refine ⟨ht.nodup, fun path hpath => ht.uncached path (copying_mem_awaiting hpath), ?_⟩
  intro e s' he path filename hpath
  obtain ⟨halive, hs⟩ := step_cases he
  cases awaiting_step hi halive hs with
  | same hcache _ | close _ _ _ _ hcache _ =>
      rw [hcache]
      exact hpath
  | record path' filename' rest _ hpc hlist hcache _ =>
      -- the path that gets its entry has waited for it, so it had none
      have hnone : s.pathCacheMap path' = none :=
        ht.uncached path' (copying_mem_awaiting (by simp [State.copying, hpc, hlist]))
      have hother : path ≠ path' := by
        rintro rfl
        cases hpath.symm.trans hnone
      rw [hcache, Table.set_of_ne _ _ hother]
      exact hpath

private theorem entered_run {es : List Event} (hc : ∀ s e, machine.Takes es s e → Unawaited s e)
    {x : State × History} (hx : audited.Visits es x) : PipelineInv x ∧ Entered x.1 x.2 := by
  apply audited.always_of_steps (P := fun x => PipelineInv x ∧ Entered x.1 x.2)
    (C := fun x e => Unawaited x.1 e)
  · exact ⟨pipelineInv_invariant.init, nofun, List.nodup_nil, nofun⟩
  · rintro y ⟨s', h'⟩ e hr ⟨hi, ht⟩ hunawaited he
    have hi' : PipelineInv (s', h') := pipelineInv_invariant.step hr hi he
    obtain ⟨hstep, rfl⟩ := Machine.observed_step.mp he
    obtain ⟨halive, hs⟩ := step_cases hstep
    exact ⟨hi', ht.step hi halive hunawaited hs⟩
  · exact fun y e ht => hc y.1 e ht.of_observed
  · exact hx

/-- A run copies each file at most once if no copy is recorded while its path waits
for another one. -/
theorem cached_once_of_unawaited {es : List Event}
    (hc : ∀ s e, machine.Takes es s e → Unawaited s e) {s : State} {h : History}
    (hs : audited.Visits es (s, h)) : CachedOnce s h := by
  obtain ⟨hi, ht⟩ := entered_run hc hs
  exact ht.cachedOnce hi

/-- A file is closed, copied, opened again from its copy and closed again. -/
def closeCopyClose : List Event :=
  [.create ['/', 'a'] [1, 2], .moverLock, .moverWait] ++ openSteps ['/', 'a'] 5 ++ closeSteps 5 ++
    [.moverReacquire, .moverDrain, .moverUnlock] ++ copySteps ['/', 't'] 2 ++
    [.openRequest ['/', 'a'], .openFind, .openRedirect, .openCall (some 5)] ++
    [.closeRequest 5, .closeFind, .closeErase]

theorem cached_once_closeCopyClose :
    ∃ s h, audited.run closeCopyClose = some (s, h) ∧ h.copied = [['/', 'a']] ∧ CachedOnce s h := by
  have hmap : (audited.run closeCopyClose).map (fun x => x.2.copied) = some [['/', 'a']] := by
    decide +kernel
  have hunawaited : machine.checkSteps (fun s e => decide (Unawaited s e)) machine.init
      closeCopyClose = true := by
    decide +kernel
  obtain ⟨⟨s, h⟩, hrun, hcopied⟩ := Option.map_eq_some_iff.mp hmap
  refine ⟨s, h, hrun, hcopied, @cached_once_of_unawaited closeCopyClose ?_ s h ?_⟩
  · exact fun _ _ ht => of_decide_eq_true (Machine.takes_of_checkSteps hunawaited ht)
  · exact ⟨closeCopyClose, List.prefix_rfl, hrun⟩

/-- Two clients open and close a file before the data mover has copied it. -/
def closeTwiceCopyTwice : List Event :=
  [.create ['/', 'a'] [1, 2], .moverLock, .moverWait] ++
    openSteps ['/', 'a'] 5 ++ openSteps ['/', 'a'] 6 ++ closeSteps 5 ++ closeSteps 6 ++
    [.moverReacquire, .moverDrain, .moverDrain, .moverUnlock] ++
    copySteps ['/', 't'] 2 ++ copySteps ['/', 'u'] 2

theorem copied_twice_after_two_closes :
    ¬ ∀ s h, audited.Reachable (s, h) → CachedOnce s h := by
  intro hall
  have hmap : (audited.run closeTwiceCopyTwice).map (fun x => x.2.copied) =
      some [['/', 'a'], ['/', 'a']] := by
    decide +kernel
  obtain ⟨⟨s, h⟩, hrun, hcopied⟩ := Option.map_eq_some_iff.mp hmap
  have hnodup := (hall s h (Machine.reachable_of_run hrun)).copied
  change h.copied = _ at hcopied
  rw [hcopied] at hnodup
  exact absurd hnodup (by decide)

/-! ## A check that sees the waiting paths -/

/-- A close request queues its path only where it does not wait already. -/
def ChecksAwaiting (s : State) : Event → Prop
  | .closeFind => ∀ fd, s.progress = .closeFind fd → s.pathCacheMap (s.closedPath fd) = none →
      s.closedPath fd ∉ s.awaiting
  | _          => True

theorem awaiting_nodup_step {s s' : State} {h : History} {e : Event} (hi : PipelineInv (s, h))
    (halive : s.alive = true) (hnodup : s.awaiting.Nodup) (hc : ChecksAwaiting s e)
    (hs : Step s e s') : s'.awaiting.Nodup := by
  cases awaiting_step hi halive hs with
  | same _ hawaiting => exact hnodup.sublist hawaiting.sublist
  | close fd he hpc hmap _ hawaiting =>
      subst he
      rw [hawaiting]
      rw [← List.concat_eq_append]
      exact hnodup.concat (hc fd hpc hmap)
  | record path filename rest _ hpc hlist _ hawaiting =>
      rw [hawaiting]
      refine List.Nodup.sublist ?_ hnodup
      simp [State.awaiting, State.uncopied, hpc, hlist]

/-- The head of `local_list` does not wait again where no path waits twice. -/
theorem unawaited_of_nodup {s s' : State} {e : Event} (hnodup : s.awaiting.Nodup)
    (hs : Step s e s') : Unawaited s e := by
  cases hs with
  | @moverRecord filename path rest hpc hlist =>
      have hawaiting : s.awaiting = path :: (rest ++ s.dataQueue ++ s.unqueued) := by
        simp [State.awaiting, State.uncopied, hpc, hlist]
      rw [hawaiting] at hnodup
      intro path' hpath
      rw [hlist] at hpath ⊢
      obtain rfl := Option.mem_some.mp hpath
      exact (List.nodup_cons.mp hnodup).1
  | _ => trivial

/-- It is enough that no close request queues a path that waits already. -/
theorem cached_once_of_checksAwaiting {es : List Event}
    (hc : ∀ s e, machine.Takes es s e → ChecksAwaiting s e) {s : State} {h : History}
    (hs : audited.Visits es (s, h)) : CachedOnce s h := by
  have hnodup : ∀ x, audited.Visits es x → PipelineInv x ∧ x.1.awaiting.Nodup := by
    intro x hx
    apply audited.always_of_steps (P := fun x => PipelineInv x ∧ x.1.awaiting.Nodup)
      (C := fun x e => ChecksAwaiting x.1 e)
    · exact ⟨pipelineInv_invariant.init, List.nodup_nil⟩
    · rintro y ⟨s', h'⟩ e hr ⟨hi, hn⟩ hcheck he
      have hi' : PipelineInv (s', h') := pipelineInv_invariant.step hr hi he
      obtain ⟨hstep, rfl⟩ := Machine.observed_step.mp he
      obtain ⟨halive, hs⟩ := step_cases hstep
      exact ⟨hi', awaiting_nodup_step hi halive hn hcheck hs⟩
    · exact fun y e ht => hc y.1 e ht.of_observed
    · exact hx
  have hunawaited : ∀ s e, machine.Takes es s e → Unawaited s e := by
    intro s₀ e ht
    obtain ⟨h₀, hvisit⟩ := ht.visits.observed
    obtain ⟨_, s₁, _, _, he⟩ := ht
    exact unawaited_of_nodup (hnodup _ hvisit).2 (step_cases he).2
  obtain ⟨hi, ht⟩ := entered_run hunawaited hs
  exact ht.cachedOnce hi

end MtHvac.Server
