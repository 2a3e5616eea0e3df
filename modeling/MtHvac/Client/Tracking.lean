-- SUMMARY: hvac_track_file alone on the client's maps: which files it selects, and when it tracks a file or leaves nothing behind.
import MtHvac.Base.Segments
import MtHvac.Client.Consistency
import MtHvac.Client.Execution

/-!
# Tracking a file

`hvac_track_file` runs on the maps of the client. It enters the path into
`fd_map` before it asks the server, and does not take the entry back if the
server fails. What it selects is decided by a search in the text of the path.
-/

namespace MtHvac.Client.Tracking

open Base

/-! ## Running the function -/

/-- What the outside decides during the call: `std::filesystem::canonical` and
`current_path` (`none` is an exception), whether `HG_Forward` sends the open
request, and the status in the response. -/
structure Outside where
  canonical : Path → Option Path
  currentPath : Option Path
  dispatched : Bool
  status : Int

def Outside.answer (x : Outside) : Op → Answer
  | .canonical path => { path := x.canonical path }
  | .currentPath    => { path := x.currentPath }
  | .forward _ _ _  => { ok := x.dispatched }
  | .openOutput _   => { value := x.status }
  | _               => {}

def handler (x : Outside) : Program.Handler ops World where
  act o w := w.act none o (x.answer o)

/-- `hvac_track_file` on the maps `w`: what it returns and the maps after it. -/
def track (cfg : Config) (x : Outside) (path : Path) (flags : Nat) (fd : Int) (w : World) :
    Option (Bool × World) :=
  Program.exec (handler x) (hvacTrackFile cfg path flags fd) w

variable {cfg : Config} {x : Outside} {path : Path} {flags : Nat} {fd : Int} {w : World}

@[simp] theorem exec_op {o : Op} :
    @Program.exec ops (no_index _) _ (handler x) (op o) w = w.act none o (x.answer o) :=
  @Program.exec_perform ops _ (handler x) o w

/-- The files that are not turned away at once. -/
def Eligible (path : Path) (flags : Nat) : Prop :=
  ¬ portsCfg <:+: path ∧ flags &&& oAccmode ≠ oWronly ∧ flags &&& oAppend = 0

instance (path : Path) (flags : Nat) : Decidable (Eligible path flags) :=
  inferInstanceAs (Decidable (_ ∧ _))

/-- The check of the directory: the text of the data directory occurs in the one of
the parent directory, or the parent is the current directory. -/
def inDirectory (cfg : Config) (x : Outside) (p : Path) : Bool :=
  match cfg.hvacDataDir with
  | some dataDir => (x.canonical dataDir).any fun test => decide (test <:+: parentPath p)
  | none         => decide (x.currentPath = some (parentPath p))

/-- The canonical path of a file that passes the check. -/
def selected (cfg : Config) (x : Outside) (path : Path) : Option Path :=
  (x.canonical path).filter (inDirectory cfg x)

theorem selected_of_canonical {p : Path} (hp : x.canonical path = some p) :
    selected cfg x path = if inDirectory cfg x p then some p else none := by
  simp [selected, hp, Option.filter_some]

section Select

variable {σ : Type} {K : Keeper σ} {st : σ}

/-- The handler asks the outside for canonical paths and the current directory. -/
structure Consults (K : Keeper σ) (x : Outside) : Prop where
  canonical : ∀ path st, @Program.exec ops (no_index _) _ K.handler (op (.canonical path)) st =
    some (x.canonical path, st)
  currentPath : ∀ st, @Program.exec ops (no_index _) _ K.handler (op .currentPath) st =
    some (x.currentPath, st)

theorem exec_recordPath (hx : Consults K x) {p : Path} (hp : x.canonical path = some p) :
    Program.exec K.handler (recordPath path fd) st =
      some (true, K.put { K.world st with fdMap := (K.world st).fdMap.set fd p } st) := by
  simp [recordPath, hx.canonical, hp]

/-- The `try` block enters the path of a selected file, and does nothing else. -/
theorem exec_selectPath (hx : Consults K x) :
    Program.exec K.handler (selectPath cfg path fd) st =
      some (match selected cfg x path with
        | some p => (true, K.put { K.world st with fdMap := (K.world st).fdMap.set fd p } st)
        | none   => (false, st)) := by
  cases hp : x.canonical path with
  | none => simp [selectPath, selected, hx.canonical, hp]
  | some p =>
      have hrecord := @exec_recordPath x path fd σ K st hx p hp
      have hselected := @selected_of_canonical cfg x path p hp
      cases hdir : cfg.hvacDataDir with
      | some dataDir =>
          cases htest : x.canonical dataDir with
          | none => simp [selectPath, hselected, inDirectory, hx.canonical, hp, hdir, htest]
          | some test =>
              by_cases hin : test <:+: parentPath p
              · simp [selectPath, hselected, inDirectory, hx.canonical, hp, hdir, htest, hin,
                  hrecord]
              · simp [selectPath, hselected, inDirectory, hx.canonical, hp, hdir, htest, hin]
      | none =>
          cases hcwd : x.currentPath with
          | none =>
              simp [selectPath, hselected, inDirectory, hx.canonical, hx.currentPath, hp, hdir,
                hcwd]
          | some cwd =>
              by_cases hin : parentPath p = cwd
              · simp [selectPath, hselected, inDirectory, hx.canonical, hx.currentPath, hp, hdir,
                  hcwd, hin, hrecord]
              · simp [selectPath, hselected, inDirectory, hx.canonical, hx.currentPath, hp, hdir,
                  hcwd, hin, Ne.symm hin]

/-- A file that is not selected is left alone. -/
theorem exec_trackFile_unselected (hx : Consults K x)
    (h : ¬ (Eligible path flags ∧ (selected cfg x path).isSome)) :
    Program.exec K.handler (hvacTrackFile cfg path flags fd) st = some (false, st) := by
  unfold hvacTrackFile
  by_cases hports : portsCfg <:+: path
  · simp [hports]
  by_cases hmode : flags &&& oAccmode = oWronly
  · simp [hports, hmode]
  by_cases happend : flags &&& oAppend = 0
  · have hnone : selected cfg x path = none := by
      simpa [Eligible, hports, hmode, happend] using h
    simp [hports, hmode, happend, exec_selectPath hx, hnone]
  · simp [hports, hmode, happend]

/-- A selected file is entered, and the open request decides the rest. -/
theorem exec_trackFile_selected (hx : Consults K x) (heligible : Eligible path flags) {p : Path}
    (hp : selected cfg x path = some p) :
    Program.exec K.handler (hvacTrackFile cfg path flags fd) st =
      (Program.exec K.handler (hvacClientCommGenOpenRpc (cfg.host p) p fd)
        (K.put { K.world st with fdMap := (K.world st).fdMap.set fd p } st)).map
          fun (r, st') => (decide (0 ≤ r), st') := by
  obtain ⟨hports, hmode, happend⟩ := heligible
  have hentry : @Program.exec ops (no_index _) _ K.handler (op (.fdMapEntry fd))
      (K.put { K.world st with fdMap := (K.world st).fdMap.set fd p } st) =
        some (p, K.put { K.world st with fdMap := (K.world st).fdMap.set fd p } st) :=
    Keeper.exec_fdMapEntry (by rw [K.world_put]; exact Table.set_self _ _ _)
  simp only [hvacTrackFile, hports, hmode, happend, if_false, ne_eq, not_true_eq_false,
    Program.exec_bind, exec_selectPath hx, hp, Option.bind_some, if_true, hentry,
    Program.exec_pure]
  exact Option.map_eq_bind.symm

/-- The maps alone. -/
def keeper (x : Outside) : Keeper World where
  handler := handler x
  world := id
  put w _ := w
  world_put := fun _ _ => rfl
  put_world := fun _ => rfl
  act_maps := by
    intro o w ho
    cases o <;> first | exact ho.elim | rfl

theorem consults_keeper : Consults (keeper x) x := by
  constructor
  · exact fun path st => Keeper.exec_op
  · exact fun st => Keeper.exec_op

end Select

/-- The open request: the descriptor is ready with the status of the server as its
mapping, or it has failed. -/
theorem exec_openRpc {host : Int} {p : Path} : ∃ lastOpen,
    Program.exec (handler x) (hvacClientCommGenOpenRpc host p fd) w =
      some (if x.dispatched then x.status else -1, { w with
        fdRedirMap := if x.dispatched ∧ 0 < x.status then w.fdRedirMap.set fd x.status
          else w.fdRedirMap
        fdStateMap := w.fdStateMap.set fd
          (if x.dispatched ∧ 0 < x.status then .ready else .error)
        lastOpen := lastOpen }) := by
  cases hsent : x.dispatched with
  | false =>
      refine ⟨w.lastOpen, ?_⟩
      simp [hvacClientCommGenOpenRpc, World.act, Outside.answer, hsent, Table.update_set]
  | true =>
      by_cases hstatus : 0 < x.status
      · simp [hvacClientCommGenOpenRpc, hvacOpenCb, World.act, World.sent, Outside.answer, hsent,
          hstatus, Table.update_set]
      · simp [hvacClientCommGenOpenRpc, hvacOpenCb, World.act, World.sent, Outside.answer, hsent,
          hstatus, Table.update_set]

/-- A file that is not selected is left alone. -/
theorem track_unselected (h : ¬ (Eligible path flags ∧ (selected cfg x path).isSome)) :
    track cfg x path flags fd w = some (false, w) :=
  exec_trackFile_unselected consults_keeper h

/-- A selected file is entered, and the open request decides the rest. -/
theorem track_selected (heligible : Eligible path flags) {p : Path}
    (hp : selected cfg x path = some p) : ∃ lastOpen,
    track cfg x path flags fd w =
      some (decide (0 ≤ if x.dispatched then x.status else -1), { w with
        fdMap := w.fdMap.set fd p
        fdRedirMap := if x.dispatched ∧ 0 < x.status then w.fdRedirMap.set fd x.status
          else w.fdRedirMap
        fdStateMap := w.fdStateMap.set fd
          (if x.dispatched ∧ 0 < x.status then .ready else .error)
        lastOpen := lastOpen }) := by
  obtain ⟨lastOpen, hrpc⟩ := @exec_openRpc x fd { w with fdMap := w.fdMap.set fd p } (cfg.host p) p
  refine ⟨lastOpen, ?_⟩
  have htrack := @exec_trackFile_selected cfg x path flags fd _ _ w consults_keeper heligible p hp
  exact htrack.trans (congrArg _ hrpc)

/-! ## All or nothing -/

/-- No map has an entry for the descriptor. -/
def Untracked (w : World) (fd : Int) : Prop :=
  w.fdMap fd = none ∧ w.fdRedirMap fd = none ∧ w.fdStateMap fd = none

instance (w : World) (fd : Int) : Decidable (Untracked w fd) := inferInstanceAs (Decidable (_ ∧ _))

/-- A descriptor that is reported as tracked is ready, with its path and the status
of the server; one that is not has no entry. -/
def AllOrNothing (cfg : Config) (x : Outside) (path : Path) (flags : Nat) (fd : Int) (w : World) :
    Prop :=
  ∃ r w', track cfg x path flags fd w = some (r, w') ∧
    (r = true → w'.fdMap fd = x.canonical path ∧ (w'.fdMap fd).isSome ∧
      0 < x.status ∧ w'.fdRedirMap fd = some x.status ∧ w'.fdStateMap fd = some .ready) ∧
    (r = false → Untracked w' fd)

theorem canonical_of_selected {p : Path} (h : selected cfg x path = some p) :
    x.canonical path = some p :=
  (Option.filter_eq_some_iff.mp h).1

/-- A fresh descriptor is tracked with all entries or none exactly if the file is not
selected, or the server answers its open request with a positive status. -/
theorem all_or_nothing_iff (hfresh : Untracked w fd) :
    AllOrNothing cfg x path flags fd w ↔
      (Eligible path flags → (selected cfg x path).isSome → x.dispatched = true ∧ 0 < x.status) := by
  by_cases h : Eligible path flags ∧ (selected cfg x path).isSome
  · obtain ⟨heligible, hsome⟩ := h
    obtain ⟨p, hp⟩ := Option.isSome_iff_exists.mp hsome
    obtain ⟨lastOpen, htrack⟩ := @track_selected cfg x path flags fd w heligible p hp
    have hcanonical : x.canonical path = some p := canonical_of_selected hp
    constructor
    · rintro ⟨r, w', hrun, htracked, huntracked⟩ _ _
      by_contra hfailed
      obtain ⟨hr, hw'⟩ := Prod.mk.inj (Option.some.inj (hrun.symm.trans htrack))
      cases r with
      | true =>
          have hready : w'.fdStateMap fd = some .ready := (htracked rfl).2.2.2.2
          simp [hw', hfailed] at hready
      | false =>
          have hnone : w'.fdMap fd = none := (huntracked rfl).1
          simp [hw'] at hnone
    · intro h
      obtain ⟨hsent, hstatus⟩ := h heligible hsome
      refine ⟨_, _, htrack, fun _ => ?_, fun hr => ?_⟩
      · simp [hsent, hstatus, hcanonical]
      · simp [hsent, hstatus.le] at hr
  · have htrack := @track_unselected cfg x path flags fd w h
    constructor
    · intro _ heligible hsome
      exact absurd ⟨heligible, hsome⟩ h
    · intro _
      exact ⟨false, w, htrack, by rintro ⟨⟩, fun _ => hfresh⟩

/-- Every path is canonical, and the server answers with `status`. -/
def answering (status : Int) : Outside where
  canonical := some
  currentPath := none
  dispatched := true
  status := status

theorem all_or_nothing_positive :
    selected dataDirConfig (answering 7) ['/', 'd', '/', 'a'] = some ['/', 'd', '/', 'a'] ∧
      AllOrNothing dataDirConfig (answering 7) ['/', 'd', '/', 'a'] 0 3 .init :=
  ⟨by decide, (all_or_nothing_iff (by decide)).mpr fun _ _ => by decide⟩

/-- The status `0` is reported as tracked, and the descriptor has failed. -/
theorem tracked_without_mapping :
    ¬ ∀ cfg x path flags fd w, Untracked w fd → AllOrNothing cfg x path flags fd w := by
  intro h
  obtain ⟨r, w', hrun, htracked, huntracked⟩ :=
    h dataDirConfig (answering 0) ['/', 'd', '/', 'a'] 0 3 .init (by decide)
  have hmap : (track dataDirConfig (answering 0) ['/', 'd', '/', 'a'] 0 3 .init).map
      (fun y => (y.1, y.2.fdStateMap 3)) = some (true, some .error) := by
    decide +kernel
  rw [hrun, Option.map_some, Option.some.injEq, Prod.mk.injEq] at hmap
  have hready := (htracked hmap.1).2.2.2.2
  rw [hmap.2] at hready
  exact absurd hready (by decide)

/-! ## Only files of the data directory -/

/-- An absolute path as `std::filesystem::canonical` returns it. -/
structure CanonicalPath where
  components : List Path
  separatorFree : Segments.Free '/' components
  nonempty : [] ∉ components

namespace CanonicalPath

def toPath (p : CanonicalPath) : Path :=
  if p.components = [] then ['/'] else Segments.joined '/' p.components

/-- The directory of a file. -/
def parent (p : CanonicalPath) : CanonicalPath where
  components := p.components.dropLast
  separatorFree := fun c hc => p.separatorFree c (List.mem_of_mem_dropLast hc)
  nonempty := fun h => p.nonempty (List.mem_of_mem_dropLast h)

/-- The components of `d` are a prefix of those of the directory of `p`. -/
def Contains (d p : CanonicalPath) : Prop := d.components <+: p.parent.components

theorem toPath_append {p : CanonicalPath} {cs : List Path} {name : Path}
    (hcs : p.components = cs ++ [name]) : p.toPath = Segments.joined '/' cs ++ '/' :: name := by
  simp [toPath, hcs, Segments.joined_append]

/-- `parent_path` removes the last component. -/
theorem parentPath_toPath {p : CanonicalPath} (hfile : p.components ≠ []) :
    parentPath p.toPath = p.parent.toPath := by
  obtain ⟨cs, name, hcs⟩ : ∃ cs name, p.components = cs ++ [name] :=
    ⟨_, _, (List.dropLast_append_getLast hfile).symm⟩
  have hname : ∀ a ∈ name.reverse, decide (a ≠ '/') = true := by
    intro a ha
    rw [decide_eq_true_iff]
    rintro rfl
    exact p.separatorFree name (by simp [hcs]) (List.mem_reverse.mp ha)
  have hdir : p.parent.components = cs := by simp [parent, hcs]
  have hcut : (p.toPath.reverse.dropWhile (· ≠ '/')).reverse.dropLast = Segments.joined '/' cs := by
    rw [toPath_append hcs, List.reverse_append, List.reverse_cons, List.append_assoc,
      List.dropWhile_append_of_pos hname]
    simp
  rw [parentPath, hcut, toPath, hdir]
  split
  · next hnil => simp [Segments.joined_eq_nil.mp hnil]
  · next hcons =>
      have hne : cs ≠ [] := fun h => hcons (by rw [h]; rfl)
      simp [hne]

/-- The text of a directory occurs in that of another exactly if it is the root or its
components occur there, the last one perhaps as the beginning of a name. -/
theorem toPath_infix_iff {d e : CanonicalPath} :
    d.toPath <:+: e.toPath ↔ d.components = [] ∨ Segments.Occurs d.components e.components := by
  unfold toPath
  by_cases hd : d.components = []
  · rw [if_pos hd, eq_true hd, true_or, iff_true]
    split
    · exact List.infix_rfl
    · next he =>
        obtain ⟨c, cs, hcs⟩ := List.exists_cons_of_ne_nil he
        rw [hcs]
        exact List.IsPrefix.isInfix ⟨c ++ Segments.joined '/' cs, rfl⟩
  · rw [if_neg hd]
    by_cases he : e.components = []
    · -- no other directory fits into the text of the root
      obtain ⟨c, cs, hcs⟩ := List.exists_cons_of_ne_nil hd
      have hc : c ≠ [] := fun h => d.nonempty (by rw [hcs, h]; exact List.mem_cons_self)
      rw [if_pos he, he, hcs]
      constructor
      · intro h
        have hlen := h.length_le
        have hpos := List.length_pos_iff.mpr hc
        simp only [Segments.joined_cons, List.length_cons, List.length_append,
          List.length_nil] at hlen
        omega
      · rintro (h | ⟨rest, hrest, h⟩)
        · cases h
        · rw [List.suffix_nil.mp hrest] at h
          exact absurd h id
    · rw [if_neg he, Segments.joined_infix_iff hd d.separatorFree e.separatorFree]
      simp [hd]

/-- A directory that contains a file occurs in its directory. -/
theorem Contains.occurs {d p : CanonicalPath} (h : d.Contains p) :
    Segments.Occurs d.components p.parent.components :=
  ⟨p.parent.components, List.suffix_rfl, Segments.starts_of_prefix h⟩

end CanonicalPath

/-- After the call the descriptor is in `fd_map`. -/
def Selects (cfg : Config) (x : Outside) (path : Path) (flags : Nat) (fd : Int) (w : World) : Prop :=
  ∃ r w', track cfg x path flags fd w = some (r, w') ∧ (w'.fdMap fd).isSome

theorem selects_iff (heligible : Eligible path flags) (hfresh : w.fdMap fd = none) :
    Selects cfg x path flags fd w ↔ (selected cfg x path).isSome := by
  cases hp : selected cfg x path with
  | none =>
      have htrack := @track_unselected cfg x path flags fd w (by simp [hp])
      simp [Selects, htrack, hfresh]
  | some p =>
      obtain ⟨lastOpen, htrack⟩ := @track_selected cfg x path flags fd w heligible p hp
      simp [Selects, htrack]

/-- A file of which the canonical path is `p`, under the data directory `d`. -/
theorem selected_iff_occurs {dataDir : Path} {d p : CanonicalPath}
    (hdir : cfg.hvacDataDir = some dataDir) (hd : x.canonical dataDir = some d.toPath)
    (hp : x.canonical path = some p.toPath) (hfile : p.components ≠ []) :
    (selected cfg x path).isSome ↔
      d.components = [] ∨ Segments.Occurs d.components p.parent.components := by
  rw [selected_of_canonical hp, ← CanonicalPath.toPath_infix_iff,
    ← CanonicalPath.parentPath_toPath hfile]
  by_cases hin : d.toPath <:+: parentPath p.toPath <;> simp [inDirectory, hdir, hd, hin]

/-- A file is selected exactly if it lies in the data directory, as long as the
components of the data directory occur in the directory of the file, the last one
perhaps as the beginning of a name, only where the file lies in it. -/
theorem data_dir_files_iff {dataDir : Path} {d p : CanonicalPath}
    (heligible : Eligible path flags) (hfresh : w.fdMap fd = none)
    (hdir : cfg.hvacDataDir = some dataDir) (hd : x.canonical dataDir = some d.toPath)
    (hp : x.canonical path = some p.toPath) (hfile : p.components ≠ []) :
    (Selects cfg x path flags fd w ↔ d.Contains p) ↔
      (Segments.Occurs d.components p.parent.components → d.Contains p) := by
  rw [selects_iff heligible hfresh, selected_iff_occurs hdir hd hp hfile]
  constructor
  · intro h hoccurs
    exact h.mp (.inr hoccurs)
  · intro h
    constructor
    · rintro (hroot | hoccurs)
      · rw [CanonicalPath.Contains, hroot]
        exact List.nil_prefix
      · exact h hoccurs
    · intro hcontains
      exact .inr hcontains.occurs

/-- The directory `/d`, and the files `/d/a` and `/dd/a`. -/
def slashD : CanonicalPath := ⟨[['d']], by decide, by decide⟩

def fileInD : CanonicalPath := ⟨[['d'], ['a']], by decide, by decide⟩

def fileInDD : CanonicalPath := ⟨[['d', 'd'], ['a']], by decide, by decide⟩

theorem data_dir_file_selected :
    Selects dataDirConfig (answering 7) fileInD.toPath 0 3 .init ↔ slashD.Contains fileInD :=
  (data_dir_files_iff (by decide) rfl rfl rfl rfl (by decide)).mpr fun _ => List.prefix_rfl

/-- A file of `/dd` is selected for the data directory `/d`. -/
theorem sibling_directory_selected :
    ¬ ∀ (cfg : Config) (x : Outside) (path dataDir : Path) (flags : Nat) (fd : Int) (w : World)
      (d p : CanonicalPath), Eligible path flags → w.fdMap fd = none →
      cfg.hvacDataDir = some dataDir → x.canonical dataDir = some d.toPath →
      x.canonical path = some p.toPath → p.components ≠ [] →
      (Selects cfg x path flags fd w ↔ d.Contains p) := by
  intro h
  have hselected : Selects dataDirConfig (answering 7) fileInDD.toPath 0 3 .init :=
    (selects_iff (by decide) rfl).mpr (by decide)
  have hcontains : slashD.Contains fileInDD :=
    (h dataDirConfig (answering 7) _ ['/', 'd'] 0 3 .init slashD fileInDD (by decide) rfl rfl rfl
      rfl (by decide)).mp hselected
  exact absurd hcontains (by unfold CanonicalPath.Contains; decide)

end MtHvac.Client.Tracking
