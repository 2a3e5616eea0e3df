-- SUMMARY: Applications that use a descriptor only while they hold it: their threads are isolated, and requests and map entries never mix incarnations of a descriptor.
import Mathlib.Data.Fintype.Basic
import Mathlib.Data.Finset.Insert
import MtHvac.Client.Consistency

/-!
# Incarnations of a descriptor

An application may use a descriptor from the return of its open to the call of
its close, in as many threads as it likes, and closes it once, when no other call
on it is in progress. The kernel reuses the number as soon as `__real_close` has
run, also before the close wrapper returns.
-/

namespace MtHvac.Client

open Base Program

variable {τ : Type} [DecidableEq τ]

/-! ## The discipline -/

/-- The thread `t` is in a call on `fd`. -/
def State.Works (s : State τ) (t : τ) (fd : Int) (exclusive : Bool) : Prop :=
  ∃ run, s.threads t = some run ∧ run.on = some fd ∧ run.call.exclusive = exclusive

/-- The descriptor that a thread works on. -/
def State.on (s : State τ) (t : τ) : Option Int := (s.threads t).bind Running.on

/-- What the application may call. -/
def discipline [Fintype τ] (s : State τ) : Call → Bool
  | .openFile _ _                => true
  | .read fd _ | .pread fd _ _   => decide (fd ∈ s.held)
  | .close fd                    => decide (fd ∈ s.held ∧ ∀ t, s.on t ≠ some fd)

/-- The client process of an application that keeps to the discipline. -/
abbrev disciplined (τ : Type) [DecidableEq τ] [Fintype τ] (cfg : Config) :
    Machine (State τ) (Event τ) :=
  machine cfg discipline

/-! ## Isolation -/

/-- Held descriptors are open and used by reads only; a call that opens or closes
is alone on its descriptor, which is not held. -/
structure Held (s : State τ) : Prop where
  kernel : ∀ fd, fd ∈ s.held → s.world.kernel fd ≠ none
  working : ∀ t fd b, s.Works t fd b → s.world.kernel fd ≠ none
  shared : ∀ t fd, s.Works t fd false → fd ∈ s.held
  exclusive : ∀ t fd, s.Works t fd true → fd ∉ s.held
  alone : ∀ t t' fd b, s.Works t fd true → s.Works t' fd b → t = t'

omit [DecidableEq τ] in
theorem Held.isolated {s : State τ} (h : Held s) : Isolated s :=
  fun t t' run run' fd hrun hrun' hexcl hon hon' =>
    h.alone t t' fd run'.call.exclusive ⟨run, hrun, hon, hexcl⟩ ⟨run', hrun', hon', rfl⟩

section Works

variable {s : State τ} {w : World} {held : Finset Int} {t t' : τ} {fd : Int} {b : Bool}

/-- What the threads work on after a step of the thread `t`. -/
theorem works_setThread_some {run' : Running} :
    State.Works ⟨w, held, s.setThread t (some run')⟩ t' fd b ↔
      (t' = t ∧ run'.on = some fd ∧ run'.call.exclusive = b) ∨ (t' ≠ t ∧ s.Works t' fd b) := by
  by_cases ht : t' = t
  · subst ht
    simp [State.Works]
  · simp [State.Works, ht]

theorem works_setThread_none :
    State.Works ⟨w, held, s.setThread t none⟩ t' fd b ↔ t' ≠ t ∧ s.Works t' fd b := by
  by_cases ht : t' = t
  · subst ht
    simp [State.Works]
  · simp [State.Works, ht]

end Works

omit [DecidableEq τ] in
/-- Threads that work on nothing new, while what is held or worked on stays open. -/
theorem Held.of_subset {s s' : State τ} (h : Held s)
    (hworks : ∀ t fd b, s'.Works t fd b → s.Works t fd b) (hheld : s'.held = s.held)
    (hkernel : ∀ fd, s.world.kernel fd ≠ none → (fd ∈ s.held ∨ ∃ t b, s'.Works t fd b) →
      s'.world.kernel fd ≠ none) : Held s' where
  kernel fd hfd := hkernel fd (h.kernel fd (hheld ▸ hfd)) (.inl (hheld ▸ hfd))
  working t fd b hw := hkernel fd (h.working t fd b (hworks t fd b hw)) (.inr ⟨t, b, hw⟩)
  shared t fd hw := hheld ▸ h.shared t fd (hworks t fd false hw)
  exclusive t fd hw := hheld ▸ h.exclusive t fd (hworks t fd true hw)
  alone t t' fd b hw hw' := h.alone t t' fd b (hworks t fd true hw) (hworks t' fd b hw')

/-- The thread `t` has been given a free descriptor. -/
theorem Held.opened {s : State τ} (h : Held s) {t : τ} {fd : Int} {run' : Running} {w : World}
    (hfree : s.world.kernel fd = none) (hon : run'.on = some fd)
    (hexcl : run'.call.exclusive = true) (hnew : w.kernel fd ≠ none)
    (hkernel : ∀ fd', fd' ≠ fd → w.kernel fd' = s.world.kernel fd') :
    Held ⟨w, s.held, s.setThread t (some run')⟩ := by
  have hunused : ∀ t' b, ¬ s.Works t' fd b := fun t' b hw => h.working t' fd b hw hfree
  have hkept : ∀ fd', s.world.kernel fd' ≠ none → w.kernel fd' ≠ none := by
    intro fd' hfd'
    have hne : fd' ≠ fd := by
      rintro rfl
      exact hfd' hfree
    rwa [hkernel fd' hne]
  refine ⟨fun fd' hfd' => hkept fd' (h.kernel fd' hfd'), fun t' fd' b hw => ?_,
    fun t' fd' hw => ?_, fun t' fd' hw => ?_, fun t₁ t₂ fd' b h₁ h₂ => ?_⟩
  · rcases works_setThread_some.mp hw with ⟨_, hon', _⟩ | ⟨_, hold⟩
    · obtain rfl : fd = fd' := Option.some.inj (hon.symm.trans hon')
      exact hnew
    · exact hkept fd' (h.working t' fd' b hold)
  · rcases works_setThread_some.mp hw with ⟨_, _, hb⟩ | ⟨_, hold⟩
    · cases hexcl.symm.trans hb
    · exact h.shared t' fd' hold
  · rcases works_setThread_some.mp hw with ⟨_, hon', _⟩ | ⟨_, hold⟩
    · obtain rfl : fd = fd' := Option.some.inj (hon.symm.trans hon')
      exact fun hfd' => h.kernel fd hfd' hfree
    · exact h.exclusive t' fd' hold
  · rcases works_setThread_some.mp h₁ with ⟨rfl, hon₁, _⟩ | ⟨_, hold₁⟩ <;>
      rcases works_setThread_some.mp h₂ with ⟨rfl, hon₂, _⟩ | ⟨_, hold₂⟩
    · rfl
    · obtain rfl : fd = fd' := Option.some.inj (hon.symm.trans hon₁)
      exact absurd hold₂ (hunused t₂ b)
    · obtain rfl : fd = fd' := Option.some.inj (hon.symm.trans hon₂)
      exact absurd hold₁ (hunused t₁ true)
    · exact h.alone t₁ t₂ fd' b hold₁ hold₂

/-- The thread `t` begins to read a held descriptor. -/
theorem Held.shares {s : State τ} (h : Held s) {t : τ} {fd : Int} {run' : Running}
    (hheld : fd ∈ s.held) (hon : run'.on = some fd) (hexcl : run'.call.exclusive = false) :
    Held ⟨s.world, s.held, s.setThread t (some run')⟩ := by
  refine ⟨h.kernel, fun t' fd' b hw => ?_, fun t' fd' hw => ?_, fun t' fd' hw => ?_,
    fun t₁ t₂ fd' b h₁ h₂ => ?_⟩
  · rcases works_setThread_some.mp hw with ⟨_, hon', _⟩ | ⟨_, hold⟩
    · obtain rfl : fd = fd' := Option.some.inj (hon.symm.trans hon')
      exact h.kernel fd hheld
    · exact h.working t' fd' b hold
  · rcases works_setThread_some.mp hw with ⟨_, hon', _⟩ | ⟨_, hold⟩
    · obtain rfl : fd = fd' := Option.some.inj (hon.symm.trans hon')
      exact hheld
    · exact h.shared t' fd' hold
  · rcases works_setThread_some.mp hw with ⟨_, _, hb⟩ | ⟨_, hold⟩
    · cases hexcl.symm.trans hb
    · exact h.exclusive t' fd' hold
  · rcases works_setThread_some.mp h₁ with ⟨_, _, hb⟩ | ⟨_, hold₁⟩
    · cases hexcl.symm.trans hb
    · rcases works_setThread_some.mp h₂ with ⟨_, hon₂, _⟩ | ⟨_, hold₂⟩
      · obtain rfl : fd = fd' := Option.some.inj (hon.symm.trans hon₂)
        exact absurd hheld (h.exclusive t₁ fd hold₁)
      · exact h.alone t₁ t₂ fd' b hold₁ hold₂

/-- The thread `t` begins to close a held descriptor that no thread works on. -/
theorem Held.takes {s : State τ} (h : Held s) {t : τ} {fd : Int} {run' : Running}
    (hheld : fd ∈ s.held) (hunused : ∀ t' b, ¬ s.Works t' fd b) (hon : run'.on = some fd)
    (hexcl : run'.call.exclusive = true) :
    Held ⟨s.world, s.held.erase fd, s.setThread t (some run')⟩ := by
  refine ⟨fun fd' hfd' => h.kernel fd' (Finset.mem_of_mem_erase hfd'), fun t' fd' b hw => ?_,
    fun t' fd' hw => ?_, fun t' fd' hw => ?_, fun t₁ t₂ fd' b h₁ h₂ => ?_⟩
  · rcases works_setThread_some.mp hw with ⟨_, hon', _⟩ | ⟨_, hold⟩
    · obtain rfl : fd = fd' := Option.some.inj (hon.symm.trans hon')
      exact h.kernel fd hheld
    · exact h.working t' fd' b hold
  · rcases works_setThread_some.mp hw with ⟨_, _, hb⟩ | ⟨_, hold⟩
    · cases hexcl.symm.trans hb
    · refine Finset.mem_erase.mpr ⟨?_, h.shared t' fd' hold⟩
      rintro rfl
      exact hunused t' false hold
  · rcases works_setThread_some.mp hw with ⟨_, hon', _⟩ | ⟨_, hold⟩
    · obtain rfl : fd = fd' := Option.some.inj (hon.symm.trans hon')
      simp
    · exact fun hfd' => h.exclusive t' fd' hold (Finset.mem_of_mem_erase hfd')
  · rcases works_setThread_some.mp h₁ with ⟨rfl, hon₁, _⟩ | ⟨_, hold₁⟩ <;>
      rcases works_setThread_some.mp h₂ with ⟨rfl, hon₂, _⟩ | ⟨_, hold₂⟩
    · rfl
    · obtain rfl : fd = fd' := Option.some.inj (hon.symm.trans hon₁)
      exact absurd hold₂ (hunused t₂ b)
    · obtain rfl : fd = fd' := Option.some.inj (hon.symm.trans hon₂)
      exact absurd hold₁ (hunused t₁ true)
    · exact h.alone t₁ t₂ fd' b hold₁ hold₂

/-- The thread `t` hands the descriptor that it has opened to the application. -/
theorem Held.returns {s : State τ} (h : Held s) {t : τ} {fd : Int} (hwork : s.Works t fd true) :
    Held ⟨s.world, insert fd s.held, s.setThread t none⟩ := by
  refine ⟨fun fd' hfd' => ?_, fun t' fd' b hw => h.working t' fd' b (works_setThread_none.mp hw).2,
    fun t' fd' hw => Finset.mem_insert_of_mem (h.shared t' fd' (works_setThread_none.mp hw).2),
    fun t' fd' hw hfd' => ?_, fun t₁ t₂ fd' b h₁ h₂ => h.alone t₁ t₂ fd' b
      (works_setThread_none.mp h₁).2 (works_setThread_none.mp h₂).2⟩
  · rcases Finset.mem_insert.mp hfd' with rfl | hold
    · exact h.working t fd' true hwork
    · exact h.kernel fd' hold
  · obtain ⟨ht, hold⟩ := works_setThread_none.mp hw
    rcases Finset.mem_insert.mp hfd' with rfl | hmem
    · exact ht (h.alone t t' fd' true hwork hold).symm
    · exact h.exclusive t' fd' hold hmem

section Steps

variable [Fintype τ] {cfg : Config}

theorem Held.begin {s : State τ} (h : Held s) {t : τ} {c : Call}
    (hcall : discipline s c = true) : Held (s.begin cfg t c) := by
  cases c with
  | openFile path flags =>
      refine h.of_subset (fun t' fd b hw => ?_) rfl fun _ hfd _ => hfd
      rcases works_setThread_some.mp hw with ⟨_, hon, _⟩ | ⟨_, hold⟩
      · cases hon
      · exact hold
  | read fd count => exact h.shares (of_decide_eq_true hcall) rfl rfl
  | pread fd count offset => exact h.shares (of_decide_eq_true hcall) rfl rfl
  | close fd =>
      obtain ⟨hheld, hnone⟩ := of_decide_eq_true hcall
      refine h.takes hheld (fun t' b hw => hnone t' ?_) rfl rfl
      obtain ⟨run, hrun, hon, _⟩ := hw
      simp [State.on, hrun, hon]

omit [Fintype τ] in
theorem Held.finish {s : State τ} (h : Held s) {t : τ} {run : Running}
    (hrun : s.threads t = some run) : Held (s.finish t run) := by
  have hdrop : Held ⟨s.world, s.held, s.setThread t none⟩ :=
    h.of_subset (fun t' fd b hw => (works_setThread_none.mp hw).2) rfl fun _ hfd _ => hfd
  unfold State.finish
  split
  · next path flags fd hcall hon =>
      exact h.returns ⟨run, hrun, hon, by rw [hcall]; rfl⟩
  · exact hdrop

theorem Held.step {s s' : State τ} {e : Event τ} (h : Held s) (hok : Ok cfg s)
    (hs : Step cfg discipline s e s') : Held s' := by
  cases hs with
  | call hidle hcall => exact h.begin hcall
  | ret hrun hcode => exact h.finish hrun
  | @op t a run o k r w hrun hcode hact =>
      have hrunning : RunOk cfg s.world run := hok.running t run hrun
      cases hfd : o.fd with
      | some fd =>
          obtain ⟨hon, hallowed⟩ := hrunning.allowed hcode hfd
          have hkernel : ∀ fd', (fd' = fd → o.closes = false) →
              w.kernel fd' = s.world.kernel fd' := by
            intro fd' hcl
            by_cases hne : fd' = fd
            · subst hne
              refine (congrArg View.kernel (act_view hact hfd (hrunning.current fd' hon)).2).trans ?_
              exact View.after_kernel _ (hcl rfl) r
            · exact (act_frame hact hfd hne).2.1
          refine h.of_subset (fun t' fd' b hw => ?_) rfl fun fd' hopen hused => ?_
          · rcases works_setThread_some.mp hw with ⟨rfl, hon', hb⟩ | ⟨_, hold⟩
            · simp only [Running.resume, Op.onAfter_of_fd hfd] at hon'
              refine ⟨run, hrun, ?_, hb⟩
              split at hon'
              · cases hon'
              · exact hon'
            · exact hold
          · -- a closed descriptor is not held, and nobody else works on it
            show w.kernel fd' ≠ none
            rw [hkernel fd' ?_]
            · exact hopen
            · rintro rfl
              refine Bool.eq_false_iff.mpr fun hcl => ?_
              have hexcl : s.Works t fd' true := by
                cases o with
                | realClose fd₀ => exact ⟨run, hrun, hon, hallowed.2.1⟩
                | _ => cases hcl
              rcases hused with hheld | ⟨t', b, hw⟩
              · exact h.exclusive t fd' hexcl hheld
              · rcases works_setThread_some.mp hw with ⟨rfl, hon', _⟩ | ⟨ht, hold⟩
                · simp [Running.resume, Op.onAfter_of_fd hfd, hcl] at hon'
                · exact ht (h.alone t t' fd' b hexcl hold).symm
      | none =>
          have hsame : ∀ run', run'.on = run.on → run'.call = run.call → w = s.world →
              Held ⟨w, s.held, s.setThread t (some run')⟩ := by
            rintro run' hon hcall rfl
            refine h.of_subset (fun t' fd' b hw => ?_) rfl fun _ hopen _ => hopen
            rcases works_setThread_some.mp hw with ⟨rfl, hon', hb⟩ | ⟨_, hold⟩
            · exact ⟨run, hrun, hon.symm.trans hon', hcall ▸ hb⟩
            · exact hold
          cases o with
          | canonical path | currentPath =>
              exact hsame _ rfl rfl (act_query hact rfl (by rintro _ _ ⟨⟩))
          | realOpen path flags =>
              obtain ⟨hexcl, hoff, _⟩ := hrunning.before_open hcode
              rcases act_realOpen hact with ⟨rfl, hw⟩ | ⟨fd, rfl, _, hfree, hw⟩
              · exact hsame _ hoff.symm rfl hw
              · refine h.opened hfree rfl hexcl ?_ fun fd' hne => ?_
                · simp [hw]
                · simp [hw, hne]
          | _ => cases hfd

omit [Fintype τ] [DecidableEq τ] in
theorem held_init : Held (State.init τ) where
  kernel _ hfd := absurd hfd (Finset.notMem_empty _)
  working := by rintro t fd b ⟨run, hrun, _⟩; cases hrun
  shared := by rintro t fd ⟨run, hrun, _⟩; cases hrun
  exclusive := by rintro t fd ⟨run, hrun, _⟩; cases hrun
  alone := by rintro t t' fd b ⟨run, hrun, _⟩; cases hrun

/-- Both invariants are kept, each with the help of the other. -/
theorem disciplined_step {s s' : State τ} {e : Event τ} (hi : Ok cfg s ∧ Held s)
    (h : (disciplined τ cfg).step s e = some s') : Ok cfg s' ∧ Held s' := by
  have hs : Step cfg discipline s e s' := step_cases h
  have hheld' : Held s' := hi.2.step hi.1 hs
  exact ⟨hi.1.step hi.2.isolated hheld'.isolated hs, hheld'⟩

theorem disciplined_ok : (disciplined τ cfg).Invariant fun s => Ok cfg s ∧ Held s where
  init := ⟨ok_init, held_init⟩
  step := fun _ hi h => disciplined_step hi h

end Steps

/-! ## Requests and entries -/

/-- The remote descriptor that a request names. -/
def Request.remoteFd : Request → Option Int
  | .openFile _ => none
  | .read req   => some req.accessfd
  | .close fd   => some fd

/-- The thread `t` is in a call on the incarnation `i` of `fd`, which is the one
that is open. -/
def State.WorksOn (s : State τ) (t : τ) (fd : Int) (i : Nat) : Prop :=
  ∃ run, s.threads t = some run ∧ run.on = some fd ∧ run.incarnation = some i ∧
    s.world.kernel fd = some i

omit [DecidableEq τ] in
theorem RunOk.worksOn {cfg : Config} {s : State τ} (hheld : Held s) {t : τ} {run : Running}
    {fd : Int} (h : RunOk cfg s.world run) (hrun : s.threads t = some run)
    (hon : run.on = some fd) : ∃ i, s.WorksOn t fd i := by
  obtain ⟨i, hi⟩ := Option.ne_none_iff_exists'.mp (hheld.working t fd _ ⟨run, hrun, hon, rfl⟩)
  exact ⟨i, run, hrun, hon, (h.current fd hon).trans hi, hi⟩

omit [DecidableEq τ] in
/-- A request names the remote descriptor of the incarnation it is sent for. -/
theorem sending_targets {cfg : Config} {s : State τ} (hok : Ok cfg s) (hheld : Held s) {t : τ}
    {fd host rfd : Int} {req : Request} (hsend : s.nextOp t = some (.forward fd host req))
    (hreq : req.remoteFd = some rfd) :
    (∃ i, s.WorksOn t fd i) ∧ Targets cfg (s.world.view fd) host rfd := by
  obtain ⟨run, k, hrun, hcode⟩ := nextOp_cases hsend
  have hrunning : RunOk cfg s.world run := hok.running t run hrun
  obtain ⟨hon, hallowed⟩ := hrunning.allowed hcode rfl
  refine ⟨hrunning.worksOn hheld hrun hon, ?_⟩
  cases req with
  | openFile path => cases hreq
  | read req => exact Option.some.inj hreq ▸ hallowed.2
  | close fd₀ => exact Option.some.inj hreq ▸ hallowed.2.2

/-- Entries are changed only by calls on the incarnation that is open. -/
theorem entries_changed [Fintype τ] {cfg : Config} {s s' : State τ} {e : Event τ} {fd : Int}
    (hok : Ok cfg s) (hheld : Held s) (hs : Step cfg discipline s e s')
    (hne : s'.world.entries fd ≠ s.world.entries fd) :
    ∃ t a i, e = .step t a ∧ s.WorksOn t fd i := by
  cases hs with
  | call hidle hcall => exact absurd rfl hne
  | @ret t run v hrun hcode => exact absurd rfl hne
  | @op t a run o k r w hrun hcode hact =>
      have hrunning : RunOk cfg s.world run := hok.running t run hrun
      cases hfd : o.fd with
      | some fd' =>
          obtain ⟨hon, _⟩ := hrunning.allowed hcode hfd
          by_cases hfd' : fd = fd'
          · subst hfd'
            obtain ⟨i, hi⟩ := hrunning.worksOn hheld hrun hon
            exact ⟨t, a, i, rfl, hi⟩
          · exact absurd (act_frame hact hfd hfd').1 hne
      | none =>
          cases o with
          | canonical path | currentPath =>
              obtain rfl := act_query hact rfl (by rintro _ _ ⟨⟩)
              exact absurd rfl hne
          | realOpen path flags =>
              rcases act_realOpen hact with ⟨_, rfl⟩ | ⟨_, _, _, _, rfl⟩
              · exact absurd rfl hne
              · exact absurd rfl hne
          | _ => cases hfd

/-- In every reachable state: a read, pread or close request that is about to be
sent carries what the open request of this very incarnation returned, to the
server that returned it; and a step that changes the entries of a descriptor
belongs to a call on its current incarnation. -/
theorem incarnations_do_not_mix [Fintype τ] {cfg : Config} {s : State τ}
    (h : (disciplined τ cfg).Reachable s) :
    (∀ t fd host rfd req, s.nextOp t = some (.forward fd host req) → req.remoteFd = some rfd →
      ∃ i path, s.WorksOn t fd i ∧ host = cfg.host path ∧
        s.world.lastOpen fd = some ⟨some i, host, path, some rfd, false⟩) ∧
    ∀ s' e fd, (disciplined τ cfg).step s e = some s' →
      s'.world.entries fd ≠ s.world.entries fd →
      ∃ t a i, e = .step t a ∧ s.WorksOn t fd i := by
  obtain ⟨hok, hheld⟩ := disciplined_ok.reachable h
  constructor
  · intro t fd host rfd req hsend hreq
    obtain ⟨⟨i, hi⟩, _, path, _, hhost, hopen⟩ := sending_targets hok hheld hsend hreq
    obtain ⟨run, _, _, _, hkernel⟩ := id hi
    have hview : (s.world.view fd).kernel = some i := hkernel
    rw [hview] at hopen
    exact ⟨i, path, hi, hhost, hopen⟩
  · exact fun s' e fd hs => entries_changed hok hheld (step_cases hs)

/-- The steps that lead a read of the descriptor `3` to its request. -/
def readSteps (t : τ) : List (Event τ) :=
  .call t (.read 3 16) :: List.replicate 8 (.step t {})

theorem incarnations_do_not_mix_in_read :
    ∃ s : State Bool,
      (disciplined Bool dataDirConfig).run (openSteps true ++ readSteps false) = some s ∧
        s.nextOp false = some (.forward 3 1 (.read (readRequest 7 16 (-1)))) ∧
        ∃ i path, s.WorksOn false 3 i ∧ 1 = dataDirConfig.host path ∧
          s.world.lastOpen 3 = some ⟨some i, 1, path, some 7, false⟩ := by
  have hbind : ((disciplined Bool dataDirConfig).run (openSteps true ++ readSteps false)).bind
      (fun s => s.nextOp false) = some (.forward 3 1 (.read (readRequest 7 16 (-1)))) := by
    decide +kernel
  obtain ⟨s, hrun, hsend⟩ := Option.bind_eq_some_iff.mp hbind
  have hreach : (disciplined Bool dataDirConfig).Reachable s := Machine.reachable_of_run hrun
  exact ⟨s, hrun, hsend, (incarnations_do_not_mix hreach).1 false 3 1 7 _ hsend rfl⟩

end MtHvac.Client
