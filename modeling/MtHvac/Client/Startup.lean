-- SUMMARY: The start of the client's communication layer by concurrent first opens: which runs initialise it once.
import Mathlib.Logic.Function.Basic
import Mathlib.Data.Fintype.Basic
import MtHvac.Base.Machine

/-!
# Starting the communication layer

The first call of `hvac_track_file` on a selected file that finds `g_mercury_init`
unset initialises Mercury and registers the RPCs; the flag is set at the end. A
mutex for the initialisation exists, but is not taken here.

A step is one access to a variable that the threads share. The lookup of the
server's address and the rest of the open request are left out.
-/

namespace MtHvac.Client.Startup

open Base

/-! ## State -/

/-- The RPCs that `hvac_client_comm_register_rpc` registers. -/
inductive Rpc where
  | openFile
  | base
  | close
  | seek
  | printStats
deriving DecidableEq

def registrations : List Rpc := [.openFile, .base, .close, .seek, .printStats]

/-- What a call does next. From `hgInit` to `createProgress` it is in
`hvac_init_comm`; `register []` is the assignment to the flag. -/
inductive Pc where
  | testFlag
  | hgInit
  | contextCreate
  | createProgress
  | register (rest : List Rpc)
  | createHandle
  | forward
  | waiting
deriving DecidableEq

/-- An RPC handle: the context and the id that `HG_Create` was given, `none` for
`NULL` and for an id that was never assigned. -/
structure Handle where
  context : Option Nat
  id : Option Rpc
deriving DecidableEq

structure Running where
  pc : Pc
  handle : Option Handle
deriving DecidableEq

/-- Classes and contexts are numbered in the order of their creation. `classOf` is
the class of a context, `registered` what is registered on a class, and `rpcId` are
the static variables of the ids. -/
structure State (τ : Type) where
  gMercuryInit : Bool
  hgClass : Option Nat
  hgContext : Option Nat
  classes : Nat
  contexts : Nat
  progressThreads : Nat
  classOf : Nat → Option Nat
  registered : Nat → Rpc → Bool
  rpcId : Rpc → Option Rpc
  threads : τ → Option Running

def init (τ : Type) : State τ where
  gMercuryInit := false
  hgClass := none
  hgContext := none
  classes := 0
  contexts := 0
  progressThreads := 0
  classOf := fun _ => none
  registered := fun _ _ => false
  rpcId := fun _ => none
  threads := fun _ => none

/-! ## Steps -/

inductive Event (τ : Type) where
  /-- A call on a selected file begins. -/
  | call (t : τ)
  | step (t : τ)
  | forward (t : τ) (ok : Bool)
  /-- The progress loop completes the request of a thread. -/
  | complete (t : τ)
deriving DecidableEq

variable {τ : Type} [DecidableEq τ]

def State.setThread (s : State τ) (t : τ) (run : Option Running) : State τ :=
  { s with threads := Function.update s.threads t run }

/-- `MERCURY_REGISTER` on `hg_class`, and the assignment of the id. -/
def State.register (s : State τ) (rpc : Rpc) : State τ :=
  { s with
    registered := match s.hgClass with
      | some c => Function.update s.registered c (Function.update (s.registered c) rpc true)
      | none   => s.registered
    rpcId := Function.update s.rpcId rpc (some rpc) }

def State.next (s : State τ) (t : τ) (run : Running) : Option (State τ) :=
  let goto (s : State τ) (pc : Pc) := s.setThread t (some { run with pc := pc })
  match run.pc with
  | .testFlag       => some (goto s (if s.gMercuryInit then .createHandle else .hgInit))
  | .hgInit         =>
      some (goto { s with hgClass := some s.classes, classes := s.classes + 1 } .contextCreate)
  | .contextCreate  =>
      some (goto
        { s with
          hgContext := some s.contexts
          classOf := Function.update s.classOf s.contexts s.hgClass
          contexts := s.contexts + 1 }
        .createProgress)
  | .createProgress =>
      some (goto { s with progressThreads := s.progressThreads + 1 } (.register registrations))
  | .register (rpc :: rest) => some (goto (s.register rpc) (.register rest))
  | .register []    => some (goto { s with gMercuryInit := true } .createHandle)
  | .createHandle   =>
      some (s.setThread t
        (some { pc := .forward, handle := some ⟨s.hgContext, s.rpcId .openFile⟩ }))
  | .forward | .waiting => none

def step (s : State τ) : Event τ → Option (State τ)
  | .call t       => guarded ((s.threads t).isNone) (s.setThread t (some ⟨.testFlag, none⟩))
  | .step t       => (s.threads t).bind (s.next t)
  | .forward t ok =>
      (s.threads t).bind fun run =>
        guarded (run.pc = .forward)
          (s.setThread t (if ok then some { run with pc := .waiting } else none))
  | .complete t   =>
      -- the loop calls HG_Progress and HG_Trigger on the value of hg_context
      (s.threads t).bind fun run =>
        guarded (run.pc = .waiting ∧ 0 < s.progressThreads ∧
            ∃ handle ∈ run.handle, handle.context = s.hgContext)
          (s.setThread t none)

def machine (τ : Type) [DecidableEq τ] : Machine (State τ) (Event τ) where
  init := init τ
  step := step

/-! ## What a step can do -/

inductive Step (s : State τ) : Event τ → State τ → Prop
  | call {t : τ} (hidle : s.threads t = none) :
      Step s (.call t) (s.setThread t (some ⟨.testFlag, none⟩))
  | testFlag {t : τ} {run : Running} (hrun : s.threads t = some run) (hpc : run.pc = .testFlag) :
      Step s (.step t) (s.setThread t (some { run with
        pc := if s.gMercuryInit then .createHandle else .hgInit }))
  | hgInit {t : τ} {run : Running} (hrun : s.threads t = some run) (hpc : run.pc = .hgInit) :
      Step s (.step t)
        (State.setThread { s with hgClass := some s.classes, classes := s.classes + 1 } t
          (some { run with pc := .contextCreate }))
  | contextCreate {t : τ} {run : Running} (hrun : s.threads t = some run)
      (hpc : run.pc = .contextCreate) :
      Step s (.step t)
        (State.setThread
          { s with
            hgContext := some s.contexts
            classOf := Function.update s.classOf s.contexts s.hgClass
            contexts := s.contexts + 1 }
          t (some { run with pc := .createProgress }))
  | createProgress {t : τ} {run : Running} (hrun : s.threads t = some run)
      (hpc : run.pc = .createProgress) :
      Step s (.step t)
        (State.setThread { s with progressThreads := s.progressThreads + 1 } t
          (some { run with pc := .register registrations }))
  | register {t : τ} {run : Running} {rpc : Rpc} {rest : List Rpc} (hrun : s.threads t = some run)
      (hpc : run.pc = .register (rpc :: rest)) :
      Step s (.step t) ((s.register rpc).setThread t (some { run with pc := .register rest }))
  | setFlag {t : τ} {run : Running} (hrun : s.threads t = some run) (hpc : run.pc = .register []) :
      Step s (.step t)
        (State.setThread { s with gMercuryInit := true } t (some { run with pc := .createHandle }))
  | createHandle {t : τ} {run : Running} (hrun : s.threads t = some run)
      (hpc : run.pc = .createHandle) :
      Step s (.step t)
        (s.setThread t
          (some { pc := .forward, handle := some ⟨s.hgContext, s.rpcId .openFile⟩ }))
  | forward {t : τ} {run : Running} {ok : Bool} (hrun : s.threads t = some run)
      (hpc : run.pc = .forward) :
      Step s (.forward t ok) (s.setThread t (if ok then some { run with pc := .waiting } else none))
  | complete {t : τ} {run : Running} (hrun : s.threads t = some run) (hpc : run.pc = .waiting) :
      Step s (.complete t) (s.setThread t none)

theorem step_cases {s s' : State τ} {e : Event τ} (h : (machine τ).step s e = some s') :
    Step s e s' := by
  cases e with
  | call t =>
      obtain ⟨hidle, rfl⟩ := guarded_eq_some.mp h
      exact .call (Option.isNone_iff_eq_none.mp hidle)
  | step t =>
      obtain ⟨run, hrun, h⟩ := Option.bind_eq_some_iff.mp h
      simp only [State.next] at h
      split at h
      · next hpc => exact Option.some.inj h ▸ .testFlag hrun hpc
      · next hpc => exact Option.some.inj h ▸ .hgInit hrun hpc
      · next hpc => exact Option.some.inj h ▸ .contextCreate hrun hpc
      · next hpc => exact Option.some.inj h ▸ .createProgress hrun hpc
      · next hpc => exact Option.some.inj h ▸ .register hrun hpc
      · next hpc => exact Option.some.inj h ▸ .setFlag hrun hpc
      · next hpc => exact Option.some.inj h ▸ .createHandle hrun hpc
      all_goals cases h
  | forward t ok =>
      obtain ⟨run, hrun, h⟩ := Option.bind_eq_some_iff.mp h
      obtain ⟨hpc, rfl⟩ := guarded_eq_some.mp h
      exact .forward hrun hpc
  | complete t =>
      obtain ⟨run, hrun, h⟩ := Option.bind_eq_some_iff.mp h
      obtain ⟨⟨hpc, _⟩, rfl⟩ := guarded_eq_some.mp h
      exact .complete hrun hpc

theorem setThread_eq_some {s : State τ} {t t' : τ} {r : Option Running} {run : Running} :
    (s.setThread t r).threads t' = some run ↔
      t' = t ∧ r = some run ∨ t' ≠ t ∧ s.threads t' = some run := by
  by_cases h : t' = t
  · subst h
    simp [State.setThread]
  · simp [State.setThread, h]

/-! ## One initialisation -/

/-- The handle is from the context that the progress loop drives, and its id is
registered on the class of that context. -/
def Driven (s : State τ) (handle : Handle) : Prop :=
  handle.context = s.hgContext ∧ ∃ context c rpc, s.hgContext = some context ∧
    s.classOf context = some c ∧ handle.id = some rpc ∧ s.registered c rpc = true

structure InitialisedOnce (s : State τ) : Prop where
  classes : s.classes ≤ 1
  contexts : s.contexts ≤ 1
  progressThreads : s.progressThreads ≤ 1
  driven : ∀ {t run handle}, s.threads t = some run → run.handle = some handle → Driven s handle

def Pc.initialising : Pc → Bool
  | .hgInit | .contextCreate | .createProgress | .register _ => true
  | _                                                        => false

/-- The flag is found unset only by a thread that finds no other initialising. -/
def Orderly (s : State τ) : Event τ → Prop
  | .step t =>
      ∀ run ∈ s.threads t, run.pc = .testFlag → s.gMercuryInit = false →
        ∀ t', ∀ run' ∈ s.threads t', run'.pc.initialising = false
  | _       => True

instance [Fintype τ] (s : State τ) : (e : Event τ) → Decidable (Orderly s e)
  | .step t => inferInstanceAs (Decidable (∀ run ∈ s.threads t, _ → _ → _))
  | .call _ | .forward _ _ | .complete _ => .isTrue trivial

/-! ## The invariant -/

/-- How far the initialisation has come when a thread is about to go on at `pc`. -/
def Reached (s : State τ) : Pc → Prop
  | .hgInit         => s.classes = 0 ∧ s.contexts = 0 ∧ s.progressThreads = 0
  | .contextCreate  =>
      s.classes = 1 ∧ s.hgClass = some 0 ∧ s.contexts = 0 ∧ s.progressThreads = 0
  | .createProgress =>
      s.classes = 1 ∧ s.hgClass = some 0 ∧ s.contexts = 1 ∧ s.hgContext = some 0 ∧
        s.classOf 0 = some 0 ∧ s.progressThreads = 0
  | .register rest  =>
      s.classes = 1 ∧ s.hgClass = some 0 ∧ s.contexts = 1 ∧ s.hgContext = some 0 ∧
        s.classOf 0 = some 0 ∧ s.progressThreads = 1 ∧
        ∀ rpc, rpc ∉ rest → s.registered 0 rpc = true ∧ s.rpcId rpc = some rpc
  | _               => True

/-- At most one thread initialises, as far as its place says. Where none does, either
nothing has been done or everything, as the flag says. -/
structure Inv (s : State τ) : Prop where
  unique : ∀ {t t' run run'}, s.threads t = some run → s.threads t' = some run' →
    run.pc.initialising → run'.pc.initialising → t = t'
  unset : ∀ {t run}, s.threads t = some run → run.pc.initialising → s.gMercuryInit = false
  reached : ∀ {t run}, s.threads t = some run → run.pc.initialising → Reached s run.pc
  untouched : s.gMercuryInit = false →
    (∀ t run, s.threads t = some run → run.pc.initialising = false) → Reached s .hgInit
  complete : s.gMercuryInit = true → Reached s (.register [])
  ready : ∀ {t run}, s.threads t = some run → run.handle.isSome ∨ run.pc = .createHandle →
    s.gMercuryInit = true
  driven : ∀ {t run handle}, s.threads t = some run → run.handle = some handle → Driven s handle

/-- A step that only moves a thread which initialises nothing. -/
theorem Inv.move {s : State τ} (hi : Inv s) {t : τ} {r : Option Running}
    (hbefore : ∀ run, s.threads t = some run → run.pc.initialising = false)
    (hinit : ∀ run, r = some run → run.pc.initialising →
      s.gMercuryInit = false ∧ Reached s run.pc ∧
        ∀ t' run', s.threads t' = some run' → run'.pc.initialising = false)
    (hready : ∀ run, r = some run → run.handle.isSome ∨ run.pc = .createHandle →
      s.gMercuryInit = true)
    (hdriven : ∀ run handle, r = some run → run.handle = some handle → Driven s handle) :
    Inv (s.setThread t r) := by
  constructor
  · intro t₁ t₂ run₁ run₂ hrun₁ hrun₂ hinit₁ hinit₂
    rw [setThread_eq_some] at hrun₁ hrun₂
    rcases hrun₁ with ⟨rfl, hr₁⟩ | ⟨hne₁, hrun₁⟩ <;> rcases hrun₂ with ⟨rfl, hr₂⟩ | ⟨hne₂, hrun₂⟩
    · rfl
    · rw [(hinit _ hr₁ hinit₁).2.2 _ _ hrun₂] at hinit₂
      cases hinit₂
    · rw [(hinit _ hr₂ hinit₂).2.2 _ _ hrun₁] at hinit₁
      cases hinit₁
    · exact hi.unique hrun₁ hrun₂ hinit₁ hinit₂
  · intro t₁ run₁ hrun₁ hinit₁
    rcases setThread_eq_some.mp hrun₁ with ⟨_, hr⟩ | ⟨_, hrun₁⟩
    · exact (hinit _ hr hinit₁).1
    · exact hi.unset hrun₁ hinit₁
  · intro t₁ run₁ hrun₁ hinit₁
    rcases setThread_eq_some.mp hrun₁ with ⟨_, hr⟩ | ⟨_, hrun₁⟩
    · exact (hinit _ hr hinit₁).2.1
    · exact hi.reached hrun₁ hinit₁
  · intro hflag hnone
    apply hi.untouched hflag
    intro t₁ run₁ hrun₁
    by_cases ht : t₁ = t
    · exact hbefore run₁ (ht ▸ hrun₁)
    · exact hnone t₁ run₁ (setThread_eq_some.mpr (.inr ⟨ht, hrun₁⟩))
  · exact hi.complete
  · intro t₁ run₁ hrun₁ hat
    rcases setThread_eq_some.mp hrun₁ with ⟨_, hr⟩ | ⟨_, hrun₁⟩
    · exact hready _ hr hat
    · exact hi.ready hrun₁ hat
  · intro t₁ run₁ handle hrun₁ hhandle
    rcases setThread_eq_some.mp hrun₁ with ⟨_, hr⟩ | ⟨_, hrun₁⟩
    · exact hdriven _ _ hr hhandle
    · exact hi.driven hrun₁ hhandle

/-- A step of the initialising thread, which goes on initialising. -/
theorem Inv.advance {s s' : State τ} (hi : Inv s) {t : τ} {run : Running} {pc : Pc}
    (hrun : s.threads t = some run) (hbefore : run.pc.initialising) (hafter : pc.initialising)
    (hthreads : s'.threads = (s.setThread t (some { run with pc := pc })).threads)
    (hflag : s'.gMercuryInit = s.gMercuryInit) (hreached : Reached s' pc) : Inv s' := by
  have hunset : s.gMercuryInit = false := hi.unset hrun hbefore
  -- nobody else initialises, and nobody is past the flag
  have hothers : ∀ t' run', t' ≠ t → s.threads t' = some run' → run'.pc.initialising = false :=
    fun t' run' hne hrun' => Bool.eq_false_iff.mpr fun h => hne (hi.unique hrun' hrun h hbefore)
  have hearly : ∀ t' run', s.threads t' = some run' →
      ¬ (run'.handle.isSome ∨ run'.pc = .createHandle) := by
    intro t' run' hrun' hat
    rw [hi.ready hrun' hat] at hunset
    cases hunset
  have hcases : ∀ t' run', s'.threads t' = some run' →
      t' = t ∧ run' = { run with pc := pc } ∨ t' ≠ t ∧ s.threads t' = some run' := by
    intro t' run' hrun'
    rw [hthreads, setThread_eq_some, Option.some.injEq, eq_comm (b := run')] at hrun'
    exact hrun'
  have hself : s'.threads t = some { run with pc := pc } := by
    rw [hthreads]
    exact setThread_eq_some.mpr (.inl ⟨rfl, rfl⟩)
  constructor
  · intro t₁ t₂ run₁ run₂ hrun₁ hrun₂ hinit₁ hinit₂
    rcases hcases _ _ hrun₁ with ⟨rfl, _⟩ | ⟨hne₁, hrun₁⟩
    · rcases hcases _ _ hrun₂ with ⟨rfl, _⟩ | ⟨hne₂, hrun₂⟩
      · rfl
      · rw [hothers _ _ hne₂ hrun₂] at hinit₂
        cases hinit₂
    · rw [hothers _ _ hne₁ hrun₁] at hinit₁
      cases hinit₁
  · intro _ _ _ _
    rw [hflag, hunset]
  · intro t₁ run₁ hrun₁ hinit₁
    rcases hcases _ _ hrun₁ with ⟨_, rfl⟩ | ⟨hne₁, hrun₁⟩
    · exact hreached
    · rw [hothers _ _ hne₁ hrun₁] at hinit₁
      cases hinit₁
  · intro _ hnone
    rw [hnone _ _ hself] at hafter
    cases hafter
  · intro hset
    rw [hflag, hunset] at hset
    cases hset
  · intro t₁ run₁ hrun₁ hat
    rcases hcases _ _ hrun₁ with ⟨_, rfl⟩ | ⟨_, hrun₁⟩
    · rcases hat with hhandle | rfl
      · exact absurd (.inl hhandle) (hearly _ _ hrun)
      · cases hafter
    · exact absurd hat (hearly _ _ hrun₁)
  · intro t₁ run₁ handle hrun₁ hhandle
    have hsome : run₁.handle.isSome := by rw [hhandle]; rfl
    rcases hcases _ _ hrun₁ with ⟨_, rfl⟩ | ⟨_, hrun₁⟩
    · exact absurd (.inl hsome) (hearly _ _ hrun)
    · exact absurd (.inl hsome) (hearly _ _ hrun₁)

omit [DecidableEq τ] in
/-- What is registered after one more RPC. -/
theorem register_spec {s : State τ} {rpc : Rpc} {rest : List Rpc} (hclass : s.hgClass = some 0)
    (h : ∀ rpc', rpc' ∉ rpc :: rest → s.registered 0 rpc' = true ∧ s.rpcId rpc' = some rpc')
    {rpc' : Rpc} (hrpc : rpc' ∉ rest) :
    (s.register rpc).registered 0 rpc' = true ∧ (s.register rpc).rpcId rpc' = some rpc' := by
  simp only [State.register, hclass, Function.update_self]
  by_cases hself : rpc' = rpc
  · subst hself
    simp
  · simp only [Function.update_of_ne hself]
    exact h rpc' (by simp [hself, hrpc])

/-- The assignment to the flag ends the initialisation. -/
theorem Inv.finish {s : State τ} (hi : Inv s) {t : τ} {run : Running}
    (hrun : s.threads t = some run) (hpc : run.pc = .register []) :
    Inv (State.setThread { s with gMercuryInit := true } t
      (some { run with pc := .createHandle })) := by
  have hinit : run.pc.initialising := by rw [hpc]; rfl
  have hunset : s.gMercuryInit = false := hi.unset hrun hinit
  have hreached : Reached s (.register []) := hpc ▸ hi.reached hrun hinit
  have hnone : ∀ {t' run'}, (State.setThread { s with gMercuryInit := true } t
      (some { run with pc := .createHandle })).threads t' = some run' →
      run'.pc.initialising = false ∧ run'.handle = none := by
    intro t' run' hrun'
    have hhandle : ∀ {t₁ run₁}, s.threads t₁ = some run₁ → run₁.handle = none := by
      intro t₁ run₁ hrun₁
      apply Option.not_isSome_iff_eq_none.mp
      intro hsome
      rw [hi.ready hrun₁ (.inl hsome)] at hunset
      cases hunset
    rcases setThread_eq_some.mp hrun' with ⟨_, hr⟩ | ⟨hne, hrun'⟩
    · rw [← Option.some.inj hr]
      exact ⟨rfl, (hhandle hrun : run.handle = none)⟩
    · exact ⟨Bool.eq_false_iff.mpr fun h => hne (hi.unique hrun' hrun h hinit), hhandle hrun'⟩
  constructor
  · intro t₁ t₂ run₁ run₂ hrun₁ _ hinit₁ _
    rw [(hnone hrun₁).1] at hinit₁
    cases hinit₁
  · intro t₁ run₁ hrun₁ hinit₁
    rw [(hnone hrun₁).1] at hinit₁
    cases hinit₁
  · intro t₁ run₁ hrun₁ hinit₁
    rw [(hnone hrun₁).1] at hinit₁
    cases hinit₁
  · intro hset
    cases hset
  · intro _
    exact hreached
  · intro _ _ _ _
    rfl
  · intro t₁ run₁ handle hrun₁ hhandle
    rw [(hnone hrun₁).2] at hhandle
    cases hhandle

theorem Inv.step {s s' : State τ} {e : Event τ} (hi : Inv s) (ho : Orderly s e) (h : Step s e s') :
    Inv s' := by
  cases h with
  | @call t hidle =>
      apply hi.move
      · intro run hrun
        cases hidle.symm.trans hrun
      · rintro _ ⟨⟩ h
        cases h
      · rintro _ ⟨⟩ (h | h) <;> cases h
      · rintro _ _ ⟨⟩ h
        cases h
  | @testFlag t run hrun hpc =>
      have hbefore : ∀ run', s.threads t = some run' → run'.pc.initialising = false := by
        intro run' hrun'
        rw [hrun] at hrun'
        rw [← Option.some.inj hrun', hpc]
        rfl
      have hdriven : ∀ pc run' handle, some { run with pc := pc } = some run' →
          run'.handle = some handle → Driven s handle := by
        rintro pc _ handle ⟨⟩ hhandle
        exact hi.driven hrun hhandle
      cases hflag : s.gMercuryInit with
      | true =>
          apply hi.move hbefore
          · rintro _ ⟨⟩ h
            cases h
          · exact fun _ _ _ => hflag
          · exact hdriven _
      | false =>
          -- whoever finds the flag unset finds nobody else initialising
          have hnone := ho run hrun hpc hflag
          apply hi.move hbefore
          · rintro _ ⟨⟩ _
            exact ⟨hflag, hi.untouched hflag hnone, hnone⟩
          · rintro _ ⟨⟩ (h | h)
            · exact hi.ready hrun (.inl h)
            · cases h
          · exact hdriven _
  | hgInit hrun hpc =>
      obtain ⟨hclasses, hcontexts, hprogress⟩ := hpc ▸ hi.reached hrun (by rw [hpc]; rfl)
      refine hi.advance hrun (by rw [hpc]; rfl) rfl rfl rfl ?_
      simp [Reached, State.setThread, hclasses, hcontexts, hprogress]
  | contextCreate hrun hpc =>
      obtain ⟨hclasses, hclass, hcontexts, hprogress⟩ := hpc ▸ hi.reached hrun (by rw [hpc]; rfl)
      refine hi.advance hrun (by rw [hpc]; rfl) rfl rfl rfl ?_
      simp [Reached, State.setThread, hclasses, hclass, hcontexts, hprogress]
  | createProgress hrun hpc =>
      obtain ⟨hclasses, hclass, hcontexts, hcontext, hof, hprogress⟩ :=
        hpc ▸ hi.reached hrun (by rw [hpc]; rfl)
      refine hi.advance hrun (by rw [hpc]; rfl) rfl rfl rfl ?_
      refine ⟨hclasses, hclass, hcontexts, hcontext, hof, congrArg (· + 1) hprogress, ?_⟩
      intro rpc hrpc
      cases rpc <;> exact absurd (by decide) hrpc
  | @register t run rpc rest hrun hpc =>
      obtain ⟨hclasses, hclass, hcontexts, hcontext, hof, hprogress, hregistered⟩ :=
        hpc ▸ hi.reached hrun (by rw [hpc]; rfl)
      refine hi.advance hrun (by rw [hpc]; rfl) rfl rfl rfl ?_
      refine ⟨hclasses, hclass, hcontexts, hcontext, hof, hprogress, ?_⟩
      exact fun rpc' => register_spec hclass hregistered
  | @setFlag t run hrun hpc =>
      exact hi.finish hrun hpc
  | createHandle hrun hpc =>
      have hflag : s.gMercuryInit = true := hi.ready hrun (.inr hpc)
      apply hi.move
      · intro run' hrun'
        rw [hrun] at hrun'
        rw [← Option.some.inj hrun', hpc]
        rfl
      · rintro _ ⟨⟩ h
        cases h
      · exact fun _ _ _ => hflag
      · rintro _ _ ⟨⟩ ⟨⟩
        obtain ⟨_, _, _, hcontext, hof, _, hregistered⟩ := hi.complete hflag
        obtain ⟨hreg, hid⟩ := hregistered .openFile nofun
        exact ⟨rfl, 0, 0, .openFile, hcontext, hof, hid, hreg⟩
  | @forward t run ok hrun hpc =>
      apply hi.move
      · intro run' hrun'
        rw [hrun] at hrun'
        rw [← Option.some.inj hrun', hpc]
        rfl
      · cases ok with
        | true =>
            rintro _ ⟨⟩ h
            cases h
        | false => rintro _ ⟨⟩
      · cases ok with
        | true =>
            rintro _ ⟨⟩ (h | h)
            · exact hi.ready hrun (.inl h)
            · cases h
        | false => rintro _ ⟨⟩
      · cases ok with
        | true =>
            rintro _ handle ⟨⟩ hhandle
            exact hi.driven hrun hhandle
        | false => rintro _ _ ⟨⟩
  | complete hrun hpc =>
      apply hi.move
      · intro run' hrun'
        rw [hrun] at hrun'
        rw [← Option.some.inj hrun', hpc]
        rfl
      · rintro _ ⟨⟩
      · rintro _ ⟨⟩
      · rintro _ _ ⟨⟩

omit [DecidableEq τ] in
theorem Inv.init : Inv (Startup.init τ) := by
  constructor
  · nofun
  · nofun
  · nofun
  · exact fun _ _ => ⟨rfl, rfl, rfl⟩
  · nofun
  · nofun
  · nofun

omit [DecidableEq τ] in
/-- No point of the initialisation is past the first class, context and loop. -/
theorem Reached.once {s : State τ} {pc : Pc} (h : Reached s pc) (hpc : pc.initialising) :
    s.classes ≤ 1 ∧ s.contexts ≤ 1 ∧ s.progressThreads ≤ 1 := by
  cases pc with
  | hgInit =>
      obtain ⟨hclasses, hcontexts, hprogress⟩ := h
      omega
  | contextCreate =>
      obtain ⟨hclasses, _, hcontexts, hprogress⟩ := h
      omega
  | createProgress =>
      obtain ⟨hclasses, _, hcontexts, _, _, hprogress⟩ := h
      omega
  | register rest =>
      obtain ⟨hclasses, _, hcontexts, _, _, hprogress, _⟩ := h
      omega
  | testFlag | createHandle | forward | waiting => cases hpc

omit [DecidableEq τ] in
theorem Inv.initialisedOnce {s : State τ} (hi : Inv s) : InitialisedOnce s := by
  have honce : s.classes ≤ 1 ∧ s.contexts ≤ 1 ∧ s.progressThreads ≤ 1 := by
    by_cases hsome : ∃ t run, s.threads t = some run ∧ run.pc.initialising
    · obtain ⟨t, run, hrun, hinit⟩ := hsome
      exact (hi.reached hrun hinit).once hinit
    · cases hflag : s.gMercuryInit with
      | true => exact (hi.complete hflag).once rfl
      | false =>
          have hnone : ∀ t run, s.threads t = some run → run.pc.initialising = false :=
            fun t run hrun => Bool.eq_false_iff.mpr fun h => hsome ⟨t, run, hrun, h⟩
          exact (hi.untouched hflag hnone).once rfl
  exact ⟨honce.1, honce.2.1, honce.2.2, hi.driven⟩

/-! ## One initialisation, where the flag is tested by one thread at a time -/

theorem initialised_once_of_orderly {es : List (Event τ)}
    (hC : ∀ s e, (machine τ).Takes es s e → Orderly s e) {s : State τ}
    (hs : (machine τ).Visits es s) : InitialisedOnce s := by
  apply Inv.initialisedOnce
  exact Machine.always_of_steps Inv.init (fun _ hi ho he => hi.step ho (step_cases he)) hC hs

/-- The steps of a thread from `HG_Init` to the assignment to the flag. -/
def initialise (t : τ) : List (Event τ) := List.replicate (4 + registrations.length) (.step t)

/-- The second thread comes when the first has set the flag. -/
def oneAfterTheOther : List (Event Bool) :=
  [.call false, .step false] ++ initialise false ++ [.call true, .step true, .step false,
    .forward false true, .step true, .forward true true, .complete true, .complete false]

/-- Both threads test the flag before one of them sets it. -/
def bothTest : List (Event Bool) :=
  [.call false, .call true, .step false, .step true] ++ initialise false ++ initialise true

theorem initialised_once_oneAfterTheOther :
    ∃ s, (machine Bool).run oneAfterTheOther = some s ∧ s.gMercuryInit = true ∧
      InitialisedOnce s := by
  have hC : ∀ s e, (machine Bool).Takes oneAfterTheOther s e → Orderly s e :=
    fun s e ht => of_decide_eq_true ((machine Bool).takes_of_checkSteps
      (C := fun s e => decide (Orderly s e)) (by decide +kernel) ht)
  have hmap : ((machine Bool).run oneAfterTheOther).map State.gMercuryInit = some true := by
    decide +kernel
  obtain ⟨s, hrun, hflag⟩ := Option.map_eq_some_iff.mp hmap
  exact ⟨s, hrun, hflag, initialised_once_of_orderly hC ⟨_, List.prefix_rfl, hrun⟩⟩

theorem initialised_twice_bothTest :
    ∃ s, (machine Bool).Reachable s ∧ s.classes = 2 ∧ s.contexts = 2 ∧ s.progressThreads = 2 ∧
      ¬ InitialisedOnce s := by
  have hmap : ((machine Bool).run bothTest).map
      (fun s => (s.classes, s.contexts, s.progressThreads)) = some (2, 2, 2) := by
    decide +kernel
  obtain ⟨s, hrun, hs⟩ := Option.map_eq_some_iff.mp hmap
  simp only [Prod.mk.injEq] at hs
  obtain ⟨hclasses, hcontexts, hprogress⟩ := hs
  refine ⟨s, Machine.reachable_of_run hrun, hclasses, hcontexts, hprogress, ?_⟩
  intro h
  exact absurd (hclasses ▸ h.classes) (by decide)

end MtHvac.Client.Startup
