-- SUMMARY: The shard locks of the descriptor-state map: which runs keep the accesses to the map apart.
import Mathlib.Data.Fintype.Basic
import MtHvac.Base.Pthread
import MtHvac.Base.Table
import MtHvac.Client.Program

/-!
# The shard locks

`fd_state_map` is one table, but its lock is one of `FD_STATE_SHARDS`, picked by
the descriptor number. The locks are initialised by the first call that finds
the flag unset.
-/

namespace MtHvac.Client.FdStateLocks

open Base

/-! ## State -/

def fdStateShards : Nat := 64

/-- The functions that access the table. -/
inductive MapCall where
  | hvacGetFdStatus
  | hvacSetFdOpening
  | hvacCleanupFdState
deriving DecidableEq

def MapCall.writes : MapCall → Bool
  | .hvacGetFdStatus    => false
  | .hvacSetFdOpening   => true
  | .hvacCleanupFdState => true

/-- What a call does next. `get_fd_rwlock` begins with `init_fd_state_rwlocks`. -/
inductive Pc where
  | readFlag
  | initLock (i : Nat)
  | setFlag
  | acquire
  | access
  | release
deriving DecidableEq

structure Running where
  call : MapCall
  fd : Nat
  pc : Pc
deriving DecidableEq

/-- The index of the lock that `get_fd_rwlock` returns. -/
def Running.shard (run : Running) : Nat := run.fd % fdStateShards

@[simp] theorem Running.shard_goto (run : Running) (pc : Pc) :
    Running.shard { run with pc := pc } = run.shard := rfl

/-- `reinitialised` notes that a lock was initialised while it was held. -/
structure State (τ : Type) where
  rwlocksInitialized : Bool
  rwlocks : Nat → RwLock τ
  fdStateMap : Table Nat FdState
  threads : τ → Option Running
  reinitialised : Bool

def init (τ : Type) : State τ where
  rwlocksInitialized := false
  rwlocks := fun _ => .init
  fdStateMap := .empty
  threads := fun _ => none
  reinitialised := false

/-! ## Steps -/

inductive Event (τ : Type) where
  | call (t : τ) (c : MapCall) (fd : Nat)
  | step (t : τ)
deriving DecidableEq

def MapCall.apply (fdStateMap : Table Nat FdState) (fd : Nat) : MapCall → Table Nat FdState
  | .hvacGetFdStatus    => fdStateMap
  | .hvacSetFdOpening   => fdStateMap.set fd .opening
  | .hvacCleanupFdState => fdStateMap.erase fd

variable {τ : Type}

section Steps

variable [DecidableEq τ]

def State.setThread (s : State τ) (t : τ) (run : Option Running) : State τ :=
  { s with threads := Function.update s.threads t run }

def State.setLock (s : State τ) (i : Nat) (l : RwLock τ) : State τ :=
  { s with rwlocks := Function.update s.rwlocks i l }

/-- The next step of a call; `none` where it waits for the lock. -/
def State.next (s : State τ) (t : τ) (run : Running) : Option (State τ) :=
  let goto (s : State τ) (pc : Pc) := s.setThread t (some { run with pc := pc })
  match run.pc with
  | .readFlag   => some (goto s (if s.rwlocksInitialized then .acquire else .initLock 0))
  | .initLock i =>
      some (goto
        { s.setLock i .init with reinitialised := s.reinitialised || decide (s.rwlocks i).Held }
        (if i + 1 < fdStateShards then .initLock (i + 1) else .setFlag))
  | .setFlag    => some (goto { s with rwlocksInitialized := true } .acquire)
  | .acquire    =>
      ((s.rwlocks run.shard).acquire t run.call.writes).map fun l =>
        goto (s.setLock run.shard l) .access
  | .access     =>
      some (goto { s with fdStateMap := run.call.apply s.fdStateMap run.fd } .release)
  | .release    =>
      some ((s.setLock run.shard ((s.rwlocks run.shard).release t)).setThread t none)

def step (s : State τ) : Event τ → Option (State τ)
  | .call t c fd =>
      guarded ((s.threads t).isNone) (s.setThread t (some ⟨c, fd, .readFlag⟩))
  | .step t => (s.threads t).bind (s.next t)

def machine (τ : Type) [DecidableEq τ] : Machine (State τ) (Event τ) where
  init := init τ
  step := step

/-! ## What a step can do -/

inductive Step (s : State τ) : Event τ → State τ → Prop
  | call {t : τ} {c : MapCall} {fd : Nat} (hidle : s.threads t = none) :
      Step s (.call t c fd) (s.setThread t (some ⟨c, fd, .readFlag⟩))
  | readFlag {t : τ} {run : Running} (hrun : s.threads t = some run) (hpc : run.pc = .readFlag) :
      Step s (.step t) (s.setThread t (some { run with
        pc := if s.rwlocksInitialized then .acquire else .initLock 0 }))
  | initLock {t : τ} {run : Running} {i : Nat} (hrun : s.threads t = some run)
      (hpc : run.pc = .initLock i) :
      Step s (.step t)
        (State.setThread
          { s.setLock i .init with reinitialised := s.reinitialised || decide (s.rwlocks i).Held }
          t (some { run with
            pc := if i + 1 < fdStateShards then .initLock (i + 1) else .setFlag }))
  | setFlag {t : τ} {run : Running} (hrun : s.threads t = some run) (hpc : run.pc = .setFlag) :
      Step s (.step t)
        (State.setThread { s with rwlocksInitialized := true } t (some { run with pc := .acquire }))
  | acquire {t : τ} {run : Running} {l : RwLock τ} (hrun : s.threads t = some run)
      (hpc : run.pc = .acquire)
      (hlock : (s.rwlocks run.shard).acquire t run.call.writes = some l) :
      Step s (.step t) ((s.setLock run.shard l).setThread t (some { run with pc := .access }))
  | access {t : τ} {run : Running} (hrun : s.threads t = some run) (hpc : run.pc = .access) :
      Step s (.step t)
        (State.setThread { s with fdStateMap := run.call.apply s.fdStateMap run.fd } t
          (some { run with pc := .release }))
  | release {t : τ} {run : Running} (hrun : s.threads t = some run) (hpc : run.pc = .release) :
      Step s (.step t)
        ((s.setLock run.shard ((s.rwlocks run.shard).release t)).setThread t none)

theorem step_cases {s s' : State τ} {e : Event τ} (h : (machine τ).step s e = some s') :
    Step s e s' := by
  cases e with
  | call t c fd =>
      obtain ⟨hidle, rfl⟩ := guarded_eq_some.mp h
      exact .call (Option.isNone_iff_eq_none.mp hidle)
  | step t =>
      obtain ⟨run, hrun, h⟩ := Option.bind_eq_some_iff.mp h
      simp only [State.next] at h
      split at h
      · next hpc => exact Option.some.inj h ▸ .readFlag hrun hpc
      · next i hpc => exact Option.some.inj h ▸ .initLock hrun hpc
      · next hpc => exact Option.some.inj h ▸ .setFlag hrun hpc
      · next hpc =>
          obtain ⟨l, hlock, rfl⟩ := Option.map_eq_some_iff.mp h
          exact .acquire hrun hpc hlock
      · next hpc => exact Option.some.inj h ▸ .access hrun hpc
      · next hpc => exact Option.some.inj h ▸ .release hrun hpc

theorem setThread_eq_some {s : State τ} {t t' : τ} {r : Option Running} {run : Running} :
    (s.setThread t r).threads t' = some run ↔
      t' = t ∧ r = some run ∨ t' ≠ t ∧ s.threads t' = some run := by
  by_cases h : t' = t
  · subst h
    simp [State.setThread]
  · simp [State.setThread, h]

end Steps

/-! ## What the locks are for -/

def Pc.initialising : Pc → Bool
  | .initLock _ | .setFlag => true
  | _                      => false

/-- Between acquiring the lock and releasing it. -/
def Pc.inside : Pc → Bool
  | .access | .release => true
  | _                  => false

/-- Two threads are at the table only if both read it, and no lock was
initialised while it was held. -/
structure Protected (s : State τ) : Prop where
  exclusive : ∀ {t t' run run'}, t ≠ t' → s.threads t = some run → s.threads t' = some run' →
    run.pc.inside → run'.pc.inside → run.call.writes = false ∧ run'.call.writes = false
  intact : s.reinitialised = false

/-- The flag is found unset only by a thread that finds no other initialising the
locks, and a lock is taken only while no thread with the lock of another shard is
at the table, unless both read it. -/
def Orderly (s : State τ) : Event τ → Prop
  | .call _ _ _ => True
  | .step t     =>
      ∀ run ∈ s.threads t,
        (run.pc = .readFlag → s.rwlocksInitialized = false →
          ∀ t', ∀ run' ∈ s.threads t', run'.pc.initialising = false) ∧
        (run.pc = .acquire →
          ∀ t', ∀ run' ∈ s.threads t', run'.pc.inside → run'.shard ≠ run.shard →
            run.call.writes = false ∧ run'.call.writes = false)

instance [Fintype τ] (s : State τ) : (e : Event τ) → Decidable (Orderly s e)
  | .call _ _ _ => .isTrue trivial
  | .step t     => inferInstanceAs (Decidable (∀ run ∈ s.threads t, _ ∧ _))

/-! ## The invariant -/

/-- Behind `init_fd_state_rwlocks`. -/
def Pc.initialised : Pc → Bool
  | .acquire | .access | .release => true
  | _                             => false

/-- A set flag ends all initialising, and at most one thread ever did it. -/
structure Flagged (s : State τ) : Prop where
  unset : ∀ {t run}, s.threads t = some run → run.pc.initialising →
    s.rwlocksInitialized = false
  unique : ∀ {t t' run run'}, s.threads t = some run → s.threads t' = some run' →
    run.pc.initialising → run'.pc.initialising → t = t'
  set : ∀ {t run}, s.threads t = some run → run.pc.initialised → s.rwlocksInitialized = true

/-- The call `r` of a thread is at the table with the lock `i`. -/
def Holds (r : Option Running) (i : Nat) (writes : Bool) : Prop :=
  ∃ run, r = some run ∧ run.pc.inside ∧ run.shard = i ∧ run.call.writes = writes

@[simp] theorem not_holds_none (i : Nat) (writes : Bool) : ¬ Holds none i writes := by
  simp [Holds]

@[simp] theorem holds_some {run : Running} {i : Nat} {writes : Bool} :
    Holds (some run) i writes ↔ run.pc.inside ∧ run.shard = i ∧ run.call.writes = writes := by
  simp [Holds]

/-- A lock is held by the calls between its acquisition and its release. -/
def Locked (s : State τ) : Prop :=
  ∀ i t writes, (s.rwlocks i).HeldBy t writes ↔ Holds (s.threads t) i writes

theorem inside_initialised {pc : Pc} (h : pc.inside) : pc.initialised := by
  cases pc <;> simp_all [Pc.inside, Pc.initialised]

/-- While a thread initialises the locks, nobody holds one. -/
theorem not_held {s : State τ} (hf : Flagged s) (hl : Locked s) {t : τ} {run : Running}
    (hrun : s.threads t = some run) (hinit : run.pc.initialising) (i : Nat) :
    ¬ (s.rwlocks i).Held := by
  intro hheld
  obtain ⟨t', writes, hheld⟩ := RwLock.held_iff.mp hheld
  obtain ⟨run', hrun', hinside, _⟩ := (hl i t' writes).mp hheld
  have hset := hf.set hrun' (inside_initialised hinside)
  rw [hf.unset hrun hinit] at hset
  exact absurd hset nofun

variable [DecidableEq τ]

/-- A step of `t` that leaves the flag alone. -/
theorem Flagged.move {s s' : State τ} (hf : Flagged s) {t : τ} {r : Option Running}
    (hthreads : s'.threads = (s.setThread t r).threads)
    (hflag : s'.rwlocksInitialized = s.rwlocksInitialized)
    (hset : ∀ run, r = some run → run.pc.initialised → s.rwlocksInitialized = true)
    (hunset : ∀ run, r = some run → run.pc.initialising → s.rwlocksInitialized = false ∧
      ∀ t' run', t' ≠ t → s.threads t' = some run' → run'.pc.initialising = false) :
    Flagged s' := by
  constructor
  · intro t₁ run₁ hrun₁ hinit
    rw [hthreads, setThread_eq_some] at hrun₁
    rw [hflag]
    rcases hrun₁ with ⟨_, hr⟩ | ⟨_, hrun₁⟩
    · exact (hunset _ hr hinit).1
    · exact hf.unset hrun₁ hinit
  · intro t₁ t₂ run₁ run₂ hrun₁ hrun₂ hinit₁ hinit₂
    rw [hthreads, setThread_eq_some] at hrun₁ hrun₂
    rcases hrun₁ with ⟨rfl, hr₁⟩ | ⟨hne₁, hrun₁⟩ <;> rcases hrun₂ with ⟨rfl, hr₂⟩ | ⟨hne₂, hrun₂⟩
    · rfl
    · rw [(hunset _ hr₁ hinit₁).2 _ _ hne₂ hrun₂] at hinit₂
      exact absurd hinit₂ nofun
    · rw [(hunset _ hr₂ hinit₂).2 _ _ hne₁ hrun₁] at hinit₁
      exact absurd hinit₁ nofun
    · exact hf.unique hrun₁ hrun₂ hinit₁ hinit₂
  · intro t₁ run₁ hrun₁ hpast
    rw [hthreads, setThread_eq_some] at hrun₁
    rw [hflag]
    rcases hrun₁ with ⟨_, hr⟩ | ⟨_, hrun₁⟩
    · exact hset _ hr hpast
    · exact hf.set hrun₁ hpast

theorem Flagged.step {s s' : State τ} {e : Event τ} (hf : Flagged s) (ho : Orderly s e)
    (h : Step s e s') : Flagged s' := by
  cases h with
  | call hidle => exact hf.move rfl rfl (by rintro _ ⟨⟩ h; cases h) (by rintro _ ⟨⟩ h; cases h)
  | readFlag hrun hpc =>
      cases hflag : s.rwlocksInitialized with
      | true =>
          refine hf.move rfl rfl (fun _ _ _ => hflag) ?_
          rintro _ ⟨⟩ h
          simp [Pc.initialising] at h
      | false =>
          refine hf.move rfl rfl ?_ fun run' _ _ => ⟨hflag, fun t' run' _ hrun' => ?_⟩
          · rintro _ ⟨⟩ h
            simp [Pc.initialised] at h
          · exact (ho _ hrun).1 hpc hflag t' run' hrun'
  | @initLock t run i hrun hpc =>
      have hinit : run.pc.initialising = true := by rw [hpc]; rfl
      refine hf.move rfl rfl ?_ fun run' _ _ => ⟨hf.unset hrun hinit, fun t' run' hne hrun' => ?_⟩
      · rintro _ ⟨⟩ h
        split at h <;> simp [Pc.initialised] at h
      · exact Bool.eq_false_iff.mpr fun hinit' => hne (hf.unique hrun' hrun hinit' hinit)
  | @setFlag t run hrun hpc =>
      have hinit : run.pc.initialising = true := by rw [hpc]; rfl
      have hnone : ∀ t' run', (s.setThread t (some { run with pc := .acquire })).threads t' = some run' →
          run'.pc.initialising = false := by
        intro t' run' hrun'
        rcases setThread_eq_some.mp hrun' with ⟨_, ⟨⟩⟩ | ⟨hne, hrun'⟩
        · rfl
        · exact Bool.eq_false_iff.mpr fun hinit' => hne (hf.unique hrun' hrun hinit' hinit)
      refine ⟨fun hrun' hinit' => ?_, fun hrun' _ hinit' _ => ?_, fun _ _ => rfl⟩
      · rw [hnone _ _ hrun'] at hinit'
        exact absurd hinit' nofun
      · rw [hnone _ _ hrun'] at hinit'
        exact absurd hinit' nofun
  | acquire hrun hpc hlock =>
      refine hf.move rfl rfl (fun _ _ _ => hf.set hrun (by rw [hpc]; rfl)) ?_
      rintro _ ⟨⟩ h
      cases h
  | access hrun hpc =>
      refine hf.move rfl rfl (fun _ _ _ => hf.set hrun (by rw [hpc]; rfl)) ?_
      rintro _ ⟨⟩ h
      cases h
  | release hrun hpc => exact hf.move rfl rfl nofun nofun

/-- A step of `t` that neither takes nor releases a lock. -/
theorem Locked.move {s s' : State τ} (hl : Locked s) {t : τ} {r : Option Running}
    (hthreads : s'.threads = (s.setThread t r).threads)
    (hlocks : ∀ i t' writes, (s'.rwlocks i).HeldBy t' writes ↔ (s.rwlocks i).HeldBy t' writes)
    (hsame : ∀ i writes, Holds r i writes ↔ Holds (s.threads t) i writes) : Locked s' := by
  intro i t' writes
  rw [hlocks, hl, hthreads]
  by_cases ht : t' = t
  · subst ht
    simp [State.setThread, hsame]
  · simp [State.setThread, ht]

/-- A step of `t` that takes or releases the lock `j`. -/
theorem Locked.relock {s : State τ} (hl : Locked s) {t : τ} {r : Option Running} {j : Nat}
    {l : RwLock τ} (hself : ∀ writes, l.HeldBy t writes ↔ Holds r j writes)
    (hothers : ∀ t' writes, t' ≠ t →
      (l.HeldBy t' writes ↔ (s.rwlocks j).HeldBy t' writes))
    (helse : ∀ i writes, i ≠ j → (Holds r i writes ↔ Holds (s.threads t) i writes)) :
    Locked ((s.setLock j l).setThread t r) := by
  intro i t' writes
  have hi : ((s.setLock j l).setThread t r).rwlocks i = if i = j then l else s.rwlocks i := by
    simp [State.setThread, State.setLock, Function.update_apply]
  have ht : ((s.setLock j l).setThread t r).threads t' = if t' = t then r else s.threads t' := by
    simp [State.setThread, State.setLock, Function.update_apply]
  rw [hi, ht]
  split
  · next hij =>
      subst hij
      split
      · next heq => exact heq ▸ hself writes
      · next hne => exact (hothers t' writes hne).trans (hl i t' writes)
  · next hij =>
      split
      · next heq => exact (hl i t' writes).trans (heq ▸ (helse i writes hij).symm)
      · exact hl i t' writes

theorem Locked.step {s s' : State τ} {e : Event τ} (hf : Flagged s) (hl : Locked s)
    (h : Step s e s') : Locked s' := by
  cases h with
  | call hidle => exact hl.move rfl (fun _ _ _ => .rfl) (by simp [hidle, Pc.inside])
  | readFlag hrun hpc =>
      refine hl.move rfl (fun _ _ _ => .rfl) fun i writes => ?_
      split <;> simp [hrun, hpc, Pc.inside]
  | @initLock t run i hrun hpc =>
      refine hl.move rfl (fun j t' writes => ?_) fun j writes => ?_
      · -- nobody holds the lock before, and nobody holds it afterwards
        have hfree := not_held hf hl hrun (by rw [hpc]; rfl) i
        have hfresh : ¬ (RwLock.init : RwLock τ).Held := RwLock.not_held_init
        by_cases hj : j = i
        · subst hj
          simp only [State.setThread, State.setLock, Function.update_self]
          exact ⟨fun h => absurd (RwLock.held_iff.mpr ⟨_, _, h⟩) hfresh,
            fun h => absurd (RwLock.held_iff.mpr ⟨_, _, h⟩) hfree⟩
        · simp [State.setThread, State.setLock, hj]
      · split <;> simp [hrun, hpc, Pc.inside]
  | setFlag hrun hpc => exact hl.move rfl (fun _ _ _ => .rfl) (by simp [hrun, hpc, Pc.inside])
  | access hrun hpc =>
      refine hl.move rfl (fun _ _ _ => .rfl) (by simp [hrun, hpc, Pc.inside])
  | @acquire t run l hrun hpc hlock =>
      have hout : ∀ i writes, ¬ Holds (s.threads t) i writes := by
        simp [hrun, hpc, Pc.inside]
      refine hl.relock (fun writes => ?_) (fun t' writes hne => ?_) fun i writes hi => ?_
      · have hbefore := (hl run.shard t writes).not.mpr (hout _ _)
        simp [RwLock.heldBy_acquire hlock, hbefore, Pc.inside, eq_comm]
      · simp [RwLock.heldBy_acquire hlock, hne]
      · simp [hout, Ne.symm hi]
  | @release t run hrun hpc =>
      refine hl.relock (fun writes => ?_) (fun t' writes hne => ?_) fun i writes hi => ?_
      · simp [RwLock.heldBy_release]
      · simp [RwLock.heldBy_release, hne]
      · simp [hrun, Ne.symm hi]

/-! ## Protection -/

/-- A step of `t` after which `t` shares the table with nobody in conflict. -/
theorem Protected.move {s s' : State τ} (hp : Protected s) {t : τ} {r : Option Running}
    (hthreads : s'.threads = (s.setThread t r).threads) (hintact : s'.reinitialised = false)
    (hafter : ∀ run, r = some run → run.pc.inside → ∀ t' run', t' ≠ t →
      s.threads t' = some run' → run'.pc.inside →
      run.call.writes = false ∧ run'.call.writes = false) : Protected s' := by
  refine ⟨fun {t₁ t₂ run₁ run₂} hne hrun₁ hrun₂ hin₁ hin₂ => ?_, hintact⟩
  rw [hthreads, setThread_eq_some] at hrun₁ hrun₂
  rcases hrun₁ with ⟨rfl, hr₁⟩ | ⟨hne₁, hrun₁⟩ <;> rcases hrun₂ with ⟨rfl, hr₂⟩ | ⟨hne₂, hrun₂⟩
  · exact absurd rfl hne
  · exact hafter _ hr₁ hin₁ _ _ hne₂ hrun₂ hin₂
  · exact (hafter _ hr₂ hin₂ _ _ hne₁ hrun₁ hin₁).symm
  · exact hp.exclusive hne hrun₁ hrun₂ hin₁ hin₂

/-- The lock keeps conflicting calls of its own shard out; the calls with the lock
of another shard are kept out by the order of the steps. -/
theorem Protected.step {s s' : State τ} {e : Event τ} (hf : Flagged s) (hl : Locked s)
    (hp : Protected s) (ho : Orderly s e) (h : Step s e s') : Protected s' := by
  cases h with
  | call hidle => exact hp.move rfl hp.intact (by rintro _ ⟨⟩ h; cases h)
  | readFlag hrun hpc =>
      refine hp.move rfl hp.intact ?_
      rintro _ ⟨⟩ h
      split at h <;> cases h
  | @initLock t run i hrun hpc =>
      have hfree := not_held hf hl hrun (by rw [hpc]; rfl) i
      refine hp.move rfl ?_ ?_
      · simp [State.setThread, hp.intact, hfree]
      · rintro _ ⟨⟩ h
        split at h <;> cases h
  | setFlag hrun hpc => exact hp.move rfl hp.intact (by rintro _ ⟨⟩ h; cases h)
  | @acquire t run l hrun hpc hlock =>
      refine hp.move rfl hp.intact ?_
      rintro _ ⟨⟩ _ t' run' hne hrun' hinside'
      by_cases hshard : run'.shard = run.shard
      · have hheld : (s.rwlocks run.shard).HeldBy t' run'.call.writes :=
          (hl _ _ _).mpr ⟨run', hrun', hinside', hshard, rfl⟩
        exact RwLock.acquire_excludes hlock hheld
      · exact (ho run hrun).2 hpc t' run' hrun' hinside' hshard
  | @access t run hrun hpc =>
      refine hp.move rfl hp.intact ?_
      rintro _ ⟨⟩ _ t' run' hne hrun' hinside'
      have hconflict := hp.exclusive (Ne.symm hne) hrun hrun' (by rw [hpc]; rfl) hinside'
      exact hconflict
  | release hrun hpc => exact hp.move rfl hp.intact nofun

omit [DecidableEq τ] in
theorem locked_init : Locked (init τ) := by
  intro i t writes
  cases writes <;> simp [init, RwLock.HeldBy, RwLock.init]

structure Inv (s : State τ) : Prop where
  safe : Protected s
  flagged : Flagged s
  locked : Locked s

/-- A run whose steps are all orderly protects the table throughout. -/
theorem protected_of_orderly {es : List (Event τ)}
    (ho : ∀ s e, (machine τ).Takes es s e → Orderly s e) {s : State τ}
    (hs : (machine τ).Visits es s) : Protected s := by
  have hinit : Inv (machine τ).init := ⟨⟨nofun, rfl⟩, ⟨nofun, nofun, nofun⟩, locked_init⟩
  refine (Machine.always_of_steps hinit (fun _ hi ho he => ?_) ho hs).safe
  have hstep := step_cases he
  exact ⟨hi.safe.step hi.flagged hi.locked ho hstep, hi.flagged.step ho hstep,
    hi.locked.step hi.flagged hstep⟩

/-- The events of one call that `t` makes, from the flag to the table. -/
def callSteps (t : τ) (c : MapCall) (fd : Nat) (first : Bool) : List (Event τ) :=
  .call t c fd :: List.replicate (if first then fdStateShards + 3 else 2) (.step t)

/-- While one thread writes an entry, another waits to read one of the same shard; it is
let in when the first is done, and then the first waits to write again. -/
def writerThenReader : List (Event Bool) :=
  callSteps false .hvacSetFdOpening 3 true ++ [.call true .hvacGetFdStatus 67, .step true] ++
    [.step false, .step false, .step true] ++ [.call false .hvacSetFdOpening 3, .step false]

theorem protected_of_orderly_writer_then_reader :
    ∃ s, (machine Bool).run writerThenReader = some s ∧
      s.threads false = some ⟨.hvacSetFdOpening, 3, .acquire⟩ ∧
      s.threads true = some ⟨.hvacGetFdStatus, 67, .access⟩ ∧
      s.fdStateMap 3 = some .opening ∧ Protected s := by
  have hmap : ((machine Bool).run writerThenReader).map
      (fun s => (s.threads false, s.threads true, s.fdStateMap 3)) =
      some (some ⟨.hvacSetFdOpening, 3, .acquire⟩, some ⟨.hvacGetFdStatus, 67, .access⟩,
        some .opening) := by
    decide +kernel
  have horderly : (machine Bool).checkSteps (fun s e => decide (Orderly s e)) (machine Bool).init
      writerThenReader = true := by
    decide +kernel
  obtain ⟨s, hrun, hs⟩ := Option.map_eq_some_iff.mp hmap
  simp only [Prod.mk.injEq] at hs
  obtain ⟨hwriter, hreader, hentry⟩ := hs
  exact ⟨s, hrun, hwriter, hreader, hentry, protected_of_orderly
    (fun _ _ ht => of_decide_eq_true (Machine.takes_of_checkSteps horderly ht))
    ⟨_, List.prefix_rfl, hrun⟩⟩

/-- Two descriptors of different shards, both written. -/
theorem two_writers_at_table :
    ¬ ∀ (es : List (Event Bool)) s, (machine Bool).run es = some s → Protected s := by
  intro h
  have hmap : ((machine Bool).run (callSteps false .hvacSetFdOpening 3 true ++
      callSteps true .hvacSetFdOpening 4 false)).map
      (fun s => (s.threads false, s.threads true)) =
      some (some ⟨.hvacSetFdOpening, 3, .access⟩, some ⟨.hvacSetFdOpening, 4, .access⟩) := by
    decide +kernel
  obtain ⟨s, hrun, hs⟩ := Option.map_eq_some_iff.mp hmap
  obtain ⟨h₁, h₂⟩ := Prod.mk.inj hs
  have hconflict := (h _ s hrun).exclusive (by decide) h₁ h₂ rfl rfl
  exact absurd hconflict.1 (by decide)

end MtHvac.Client.FdStateLocks
