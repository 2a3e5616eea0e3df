-- SUMMARY: fd_to_path against the descriptors that clients have open: which requests keep it to exactly these.
import MtHvac.Server.Pipeline

/-!
# The names of the descriptors

`fd_to_path` is to have the path of its open request for each descriptor that an open
request has produced and no close request has closed. Open, read and close requests
change the map, two of them by a lookup that inserts.
-/

namespace MtHvac.Server

open Base

/-! ## What the map describes -/

/-- The descriptor has been opened, and no close request is done with it. -/
def State.Unclosed (s : State) (fd : Int) : Prop :=
  (s.descs fd).isSome ∨ s.progress.closed = some fd

/-- The path of the open request that produced the descriptor. -/
def State.openerOf (s : State) (h : History) (fd : Int) : Option Path :=
  if s.progress.closed = some fd then h.closing else h.opener fd

section Closed

variable {s : State} {h : History} {fd fd' : Int}

theorem State.unclosed_of_none (hclosed : s.progress.closed = none) :
    s.Unclosed fd ↔ (s.descs fd).isSome := by
  simp [State.Unclosed, hclosed]

theorem State.unclosed_of_some (hclosed : s.progress.closed = some fd) :
    s.Unclosed fd' ↔ (s.descs fd').isSome ∨ fd' = fd := by
  rw [State.Unclosed, hclosed, Option.some.injEq, eq_comm (a := fd)]

theorem State.openerOf_of_none (hclosed : s.progress.closed = none) :
    s.openerOf h fd = h.opener fd := by
  simp [State.openerOf, hclosed]

theorem State.openerOf_of_some (hclosed : s.progress.closed = some fd) :
    s.openerOf h fd' = if fd' = fd then h.closing else h.opener fd' := by
  simp [State.openerOf, hclosed, eq_comm]

end Closed

/-- `fd_to_path` has the descriptors that are not closed for its keys, each with the path
of the open request that produced it. -/
structure DescribesOpen (s : State) (h : History) : Prop where
  keys : ∀ fd, (s.fdToPath fd).isSome ↔ s.Unclosed fd
  paths : ∀ fd path, s.fdToPath fd = some path → s.openerOf h fd = some path

/-- A read or a close request names a descriptor that is open. -/
def Event.NamesOpen (s : State) : Event → Prop
  | .readRequest req _ => s.descs req.accessfd ≠ none
  | .closeRequest fd   => s.descs fd ≠ none
  | _                  => True

instance (s : State) (e : Event) : Decidable (e.NamesOpen s) := by
  cases e <;> unfold Event.NamesOpen <;> infer_instance

/-! ## What a step keeps -/

/-- A step that opens and closes no descriptor, and leaves the map alone. -/
theorem DescribesOpen.frame {s s' : State} {h h' : History} (hd : DescribesOpen s h)
    (hnames : s'.fdToPath = s.fdToPath) (hdescs : ∀ fd, (s'.descs fd).isSome = (s.descs fd).isSome)
    (hclosed : s'.progress.closed = s.progress.closed) (hopener : h'.opener = h.opener)
    (hclosing : h'.closing = h.closing) : DescribesOpen s' h' := by
  constructor
  · intro fd
    rw [hnames, State.Unclosed, hdescs, hclosed]
    exact hd.keys fd
  · intro fd path hpath
    rw [hnames] at hpath
    rw [State.openerOf, hclosed, hopener, hclosing]
    exact hd.paths fd path hpath

/-- The lookup of a descriptor that is not closed inserts nothing. -/
theorem DescribesOpen.touch {s : State} {h : History} (hd : DescribesOpen s h) {fd : Int}
    (hfd : s.Unclosed fd) : s.fdToPath.touch fd [] = s.fdToPath := by
  obtain ⟨path, hpath⟩ := Option.isSome_iff_exists.mp ((hd.keys fd).mpr hfd)
  exact Table.touch_of_some hpath

theorem DescribesOpen.openOk {s : State} {h : History} {path redirPath : Path} {fd : Int}
    (hn : Named s h) (hd : DescribesOpen s h) (hpc : s.progress = .openCall path redirPath) :
    DescribesOpen
      { s with
        descs := s.descs.set fd ⟨redirPath, 0⟩
        fdToPath := s.fdToPath.set fd path
        progress := .idle }
      (h.record s (.openCall (some fd))) := by
  have hrequested : h.requested = path := hn.requested path (by rw [hpc]; rfl)
  have hclosed : s.progress.closed = none := by
    rw [hpc]
    rfl
  constructor
  · intro fd'
    have hkey := hd.keys fd'
    rw [State.unclosed_of_none hclosed] at hkey
    rw [State.unclosed_of_none rfl]
    by_cases hfd : fd' = fd
    · subst hfd
      simp
    · simpa [hfd] using hkey
  · intro fd' path' hpath'
    rw [State.openerOf_of_none rfl]
    by_cases hfd : fd' = fd
    · subst hfd
      simpa [History.record, hrequested] using hpath'
    · have hold := hd.paths fd' path' (by simpa [hfd] using hpath')
      rw [State.openerOf_of_none hclosed] at hold
      simpa [History.record, hfd] using hold

/-- The descriptor is closed, and the close request is not done with it. -/
theorem DescribesOpen.closeRequest {s : State} {h : History} {fd : Int} {alive : Bool}
    (hd : DescribesOpen s h) (hpc : s.progress = .idle) (hopen : (s.descs fd).isSome) :
    DescribesOpen { s with alive := alive, descs := s.descs.erase fd, progress := .closeFind fd }
      (h.record s (.closeRequest fd)) := by
  have hclosed : s.progress.closed = none := by
    rw [hpc]
    rfl
  constructor
  · intro fd'
    have hkey := hd.keys fd'
    rw [State.unclosed_of_none hclosed] at hkey
    rw [State.unclosed_of_some rfl]
    by_cases hfd : fd' = fd
    · subst hfd
      simpa [hopen] using hkey
    · simpa [hfd] using hkey
  · intro fd' path hpath
    have hold := hd.paths fd' path hpath
    rw [State.openerOf_of_none hclosed] at hold
    rw [State.openerOf_of_some rfl]
    by_cases hfd : fd' = fd
    · subst hfd
      simpa [History.record] using hold
    · simpa [History.record, hfd] using hold

/-- The name of the descriptor goes when the close request is done with it. -/
theorem DescribesOpen.closeErase {s : State} {h : History} {fd : Int} (hn : Named s h)
    (hd : DescribesOpen s h) (hpc : s.progress = .closeErase fd) :
    DescribesOpen { s with fdToPath := s.fdToPath.erase fd, progress := .idle } h := by
  have hclosed : s.progress.closed = some fd := by
    rw [hpc]
    rfl
  have hnone : s.descs fd = none := hn.closed fd hclosed
  constructor
  · intro fd'
    have hkey := hd.keys fd'
    rw [State.unclosed_of_some hclosed] at hkey
    rw [State.unclosed_of_none rfl]
    by_cases hfd : fd' = fd
    · subst hfd
      simp [hnone]
    · simpa [hfd] using hkey
  · intro fd' path hpath
    obtain ⟨hfd, hpath⟩ := Table.erase_eq_some.mp hpath
    have hold := hd.paths fd' path hpath
    rw [State.openerOf_of_some hclosed, if_neg hfd] at hold
    rw [State.openerOf_of_none rfl]
    exact hold

/-- A failing open request leaves the name of `-1`, which is no descriptor. -/
theorem not_describesOpen_openFail {s : State} {h h' : History} {path : Path} (hn : Named s h) :
    ¬ DescribesOpen { s with fdToPath := s.fdToPath.set (-1) path, progress := .idle } h' := by
  intro hd
  have hkey : State.Unclosed { s with fdToPath := s.fdToPath.set (-1) path, progress := .idle } (-1) :=
    (hd.keys (-1)).mp (by simp)
  rcases hkey with hopen | hclosed
  · obtain ⟨hpos, _⟩ := hn.opener (-1) hopen
    exact absurd hpos (by decide)
  · cases hclosed

/-- Of the requests that name open descriptors, only an open request that fails spoils the map. -/
theorem describesOpen_step_iff {s s' : State} {h : History} {e : Event} (hn : Named s h)
    (hd : DescribesOpen s h) (hopen : e.NamesOpen s) (hs : Step s e s') :
    DescribesOpen s' (h.record s e) ↔ e ≠ .openCall none := by
  cases hs with
  | openFail _ => exact iff_of_false (not_describesOpen_openFail hn) fun hne => hne rfl
  | openOk hpc _ _ _ =>
      exact iff_of_true (hd.openOk hn hpc) (by rintro ⟨⟩)
  | @readRequest req env _ =>
      obtain ⟨_, _, _, hs'⟩ := s.handleRead_frame req env
      have htouch : s.fdToPath.touch req.accessfd [] = s.fdToPath :=
        hd.touch (.inl (Option.isSome_iff_ne_none.mpr hopen))
      refine iff_of_true (hd.frame ?_ (s.handleRead_isSome req env) ?_ rfl rfl) (by rintro ⟨⟩)
      · rw [s.handleRead_fdToPath]
        exact htouch
      · rw [hs']
  | @seekRequest fd offset whence _ =>
      obtain ⟨_, hs'⟩ := s.handleSeek_frame fd offset whence
      refine iff_of_true (hd.frame ?_ (s.handleSeek_isSome fd offset whence) ?_ rfl rfl)
        (by rintro ⟨⟩)
      · rw [hs']
      · rw [hs']
  | closeRequest hpc =>
      exact iff_of_true (hd.closeRequest hpc (Option.isSome_iff_ne_none.mpr hopen)) (by rintro ⟨⟩)
  | @closeUncached fd hpc | @closeCached fd _ hpc =>
      have hclosed : s.progress.closed = some fd := by
        rw [hpc]
        rfl
      exact iff_of_true (hd.frame (hd.touch (.inr hclosed)) (fun _ => rfl) hclosed.symm rfl rfl)
        (by rintro ⟨⟩)
  | closeErase hpc =>
      exact iff_of_true (hd.closeErase hn hpc) (by rintro ⟨⟩)
  | openRequest hpc | openMiss hpc _ | openHit hpc _ | openRedirect hpc | closeLock hpc _
  | closePush hpc | closeSignal hpc | closeUnlock hpc _ =>
      exact iff_of_true (hd.frame rfl (fun _ => rfl) (by rw [hpc]; rfl) rfl rfl) (by rintro ⟨⟩)
  | _ => exact iff_of_true (hd.frame rfl (fun _ => rfl) rfl rfl rfl) (by rintro ⟨⟩)

/-! ## The law -/

/-- A run whose read and close requests name open descriptors keeps `fd_to_path` to the
descriptors that are not closed, with the paths of their open requests, exactly if no
open request fails. -/
theorem describes_open_iff {es : List Event}
    (hnames : ∀ x e, audited.Takes es x e → Event.NamesOpen x.1 e) :
    (∀ x, audited.Visits es x → DescribesOpen x.1 x.2) ↔
      ∀ x e, audited.Takes es x e → e ≠ .openCall none := by
  have hinit : DescribesOpen audited.init.1 audited.init.2 := by
    constructor
    · intro fd
      exact iff_of_false (by rintro ⟨⟩) (by rintro (⟨⟨⟩⟩ | ⟨⟨⟩⟩))
    · rintro fd path ⟨⟩
  refine Machine.always_iff_of_steps (M := audited) (P := fun x => DescribesOpen x.1 x.2)
    hinit ?_ hnames
  rintro x x' e hr hd hopen he
  obtain ⟨hstep, hhistory⟩ := Machine.observed_step.mp he
  have hn : Named x.1 x.2 := (pipelineInv_invariant.reachable hr).named
  rw [← hhistory]
  exact describesOpen_step_iff hn hd hopen (step_cases hstep).2

/-- A file is opened, read, and closed. -/
def openReadClose : List Event :=
  [.create ['/', 'a'] [1, 2]] ++ openSteps ['/', 'a'] 5 ++
    [.readRequest ⟨2, 2, 5, -1⟩ ⟨false, false⟩] ++ closeSteps 5

theorem describes_open_openReadClose :
    (∃ x, audited.run openReadClose = some x) ∧
      ∀ x, audited.Visits openReadClose x → DescribesOpen x.1 x.2 := by
  have hopen : ∀ x e, audited.Takes openReadClose x e → Event.NamesOpen x.1 e :=
    fun x e ht => of_decide_eq_true (audited.takes_of_checkSteps
      (C := fun x e => decide (Event.NamesOpen x.1 e)) (by decide +kernel) ht)
  have hsucceeds : ∀ x e, audited.Takes openReadClose x e → e ≠ .openCall none :=
    fun x e ht => of_decide_eq_true (audited.takes_of_checkSteps
      (C := fun _ e => decide (e ≠ .openCall none)) (by decide +kernel) ht)
  have hrun : (audited.run openReadClose).isSome = true := by
    decide +kernel
  exact ⟨Option.isSome_iff_exists.mp hrun, (describes_open_iff hopen).mpr hsucceeds⟩

/-- An open request for a file that is not there. -/
def openMissing : List Event := [.openRequest ['/', 'a'], .openFind, .openCall none]

/-- It leaves a key that is no descriptor. -/
theorem missing_file_named :
    ¬ ∀ es : List Event, (∀ x e, audited.Takes es x e → Event.NamesOpen x.1 e) →
      ∀ x, audited.Visits es x → DescribesOpen x.1 x.2 := by
  intro h
  have hopen : ∀ x e, audited.Takes openMissing x e → Event.NamesOpen x.1 e :=
    fun x e ht => of_decide_eq_true (audited.takes_of_checkSteps
      (C := fun x e => decide (Event.NamesOpen x.1 e)) (by decide +kernel) ht)
  have hmap : (audited.run openMissing).map (fun x => (x.1.fdToPath (-1), x.1.progress.closed)) =
      some (some ['/', 'a'], none) := by
    decide +kernel
  obtain ⟨x, hrun, hx⟩ := Option.map_eq_some_iff.mp hmap
  obtain ⟨hkey, hclosed⟩ := Prod.mk.inj hx
  have hd : DescribesOpen x.1 x.2 := h openMissing hopen x ⟨_, List.prefix_rfl, hrun⟩
  have hn : Named x.1 x.2 := (pipelineInv_invariant.reachable (Machine.reachable_of_run hrun)).named
  rcases (hd.keys (-1)).mp (by rw [hkey]; rfl) with hopen | hclosing
  · exact absurd (hn.opener (-1) hopen).1 (by decide)
  · cases hclosed.symm.trans hclosing

end MtHvac.Server
