-- SUMMARY: The invariant of the client's maps for isolated threads, and the consistency of the maps between sequential calls.
import MtHvac.Client.Wrappers

/-!
# Consistency of the client maps

Threads are isolated while no thread shares a descriptor with one that opens or
closes it. Isolated threads keep every descriptor at rest unless a call works
on it, and every call within its specification. A single thread is isolated
whatever it calls.
-/

namespace MtHvac.Client

open Base Program

variable {τ : Type} [DecidableEq τ] {cfg : Config} {discipline : State τ → Call → Bool}

/-! ## The invariant -/

/-- A thread that opens or closes a descriptor is alone on it. -/
def Isolated (s : State τ) : Prop :=
  ∀ ⦃t t' run run' fd⦄, s.threads t = some run → s.threads t' = some run' →
    run.call.exclusive = true → run.on = some fd → run'.on = some fd → t = t'

/-- What a running call sees of the world. -/
def Running.sees (run : Running) (w : World) : Local where
  on := run.on.map fun fd => (fd, w.view fd)
  awaiting := run.awaiting

/-- The rest of a call is within its specification, on the current incarnation. -/
structure RunOk (cfg : Config) (w : World) (run : Running) : Prop where
  code : wp (spec cfg run.call.exclusive) run.code (fun _ => AtRest cfg) (run.sees w)
  current : ∀ fd, run.on = some fd → run.incarnation = w.kernel fd

/-- The incarnations that a view mentions are numbered below `n`. -/
structure View.Below (v : View) (n : Nat) : Prop where
  kernel : ∀ i, v.kernel = some i → i < n
  lastOpen : ∀ rpc i, v.lastOpen = some rpc → rpc.incarnation = some i → i < n

structure Ok (cfg : Config) (s : State τ) : Prop where
  fresh : ∀ fd, (s.world.view fd).Below s.world.nextIncarnation
  running : ∀ t run, s.threads t = some run → RunOk cfg s.world run
  rest : ∀ fd, (∀ t run, s.threads t = some run → run.call.exclusive = true → run.on ≠ some fd) →
    Consistent cfg (s.world.view fd)

/-! ## Its steps -/

@[simp] theorem setThread_self (s : State τ) (t : τ) (run : Option Running) :
    s.setThread t run t = run := by
  simp [State.setThread]

@[simp] theorem setThread_of_ne (s : State τ) {t t' : τ} (run : Option Running) (h : t' ≠ t) :
    s.setThread t run t' = s.threads t' := by
  simp [State.setThread, h]

/-- A running call does not notice a change to other descriptors. -/
theorem RunOk.of_view_eq {w w' : World} {run : Running} (h : RunOk cfg w run)
    (hview : ∀ fd, run.on = some fd → w'.view fd = w.view fd) : RunOk cfg w' run := by
  obtain ⟨hcode, hcur⟩ := h
  have hsees : run.sees w' = run.sees w := by
    simp only [Running.sees]
    cases hon : run.on with
    | none => rfl
    | some fd => simp [hview fd hon]
  refine ⟨hsees ▸ hcode, fun fd hon => ?_⟩
  have hkernel : w'.kernel fd = w.kernel fd := congrArg View.kernel (hview fd hon)
  rw [hkernel]
  exact hcur fd hon

/-- The next operation of a call that is within its specification is on the
descriptor of the call, and allowed there. -/
theorem RunOk.allowed {w : World} {run : Running} {o : Op} {k : o.Res → Code Int} {fd : Int}
    (h : RunOk cfg w run) (hcode : run.code = .call o k) (hfd : o.fd = some fd) :
    run.on = some fd ∧ Allowed cfg run.call.exclusive (w.view fd) run.awaiting o := by
  have hwp := h.code
  rw [hcode] at hwp
  have hpre := hwp.1
  simp only [spec, hfd, Running.sees, Option.map_eq_some_iff, Prod.mk.injEq] at hpre
  obtain ⟨v, ⟨fd', hon, rfl, rfl⟩, hallowed⟩ := hpre
  exact ⟨hon, hallowed⟩

/-- An operation on a descriptor keeps the call within its specification. -/
theorem RunOk.op {w w' : World} {run : Running} {o : Op} {k : o.Res → Code Int} {fd : Int}
    {a : Answer} {r : o.Res} (h : RunOk cfg w run) (hcode : run.code = .call o k)
    (hfd : o.fd = some fd) (hact : w.act run.incarnation o a = some (r, w')) :
    RunOk cfg w' (run.resume w o r (k r)) := by
  obtain ⟨hon, _⟩ := h.allowed hcode hfd
  obtain ⟨hans, hview⟩ := act_view hact hfd (h.current fd hon)
  have hwp := h.code
  rw [hcode] at hwp
  have hpost := hwp.2 r
    ⟨if o.closes then none else some (fd, (w.view fd).after o r), o.awaitingAfter r run.awaiting⟩
    (by simp only [spec, hfd, Running.sees, hon]; exact ⟨_, rfl, hans, rfl⟩)
  have hsees : (run.resume w o r (k r)).sees w' =
      ⟨if o.closes then none else some (fd, (w.view fd).after o r),
        o.awaitingAfter r run.awaiting⟩ := by
    simp only [Running.sees, Running.resume, Op.onAfter_of_fd hfd, hon]
    cases o.closes <;> simp [hview]
  refine ⟨by rw [hsees]; exact hpost, fun fd' hfd' => ?_⟩
  simp only [Running.resume, Op.onAfter_of_fd hfd, Op.incarnationAfter_of_fd hfd, hon] at hfd' ⊢
  cases hcl : o.closes with
  | true => simp [hcl] at hfd'
  | false =>
      obtain rfl : fd = fd' := by simpa [hcl] using hfd'
      have hkernel : w'.kernel fd = w.kernel fd :=
        (congrArg View.kernel hview).trans (View.after_kernel _ hcl r)
      rw [hkernel]
      exact h.current fd hon

/-- A query of the file system tells the call nothing about descriptors. -/
theorem RunOk.query {w : World} {run : Running} {o : Op} {k : o.Res → Code Int} {r : o.Res}
    (h : RunOk cfg w run) (hcode : run.code = .call o k) (hfd : o.fd = none)
    (hopen : o.opens = false) : RunOk cfg w (run.resume w o r (k r)) := by
  have hwp := h.code
  rw [hcode] at hwp
  cases o with
  | canonical path | currentPath => exact ⟨hwp.2 r _ rfl, h.current⟩
  | realOpen path flags => cases hopen
  | _ => cases hfd

/-- A call that is about to open a descriptor has none yet. -/
theorem RunOk.before_open {w : World} {run : Running} {path : Path} {flags : Nat}
    {k : Option Int → Code Int} (h : RunOk cfg w run)
    (hcode : run.code = .call (.realOpen path flags) k) :
    run.call.exclusive = true ∧ run.on = none ∧ run.awaiting = none := by
  have hwp := h.code
  rw [hcode] at hwp
  obtain ⟨hawait, hopens⟩ := hwp.1
  obtain ⟨hexcl, hon⟩ := hopens rfl
  exact ⟨hexcl, by simpa [Running.sees] using hon, hawait⟩

theorem RunOk.openFailed {w : World} {run : Running} {path : Path} {flags : Nat}
    {k : Option Int → Code Int} (h : RunOk cfg w run)
    (hcode : run.code = .call (.realOpen path flags) k) :
    RunOk cfg w (run.resume w (.realOpen path flags) none (k none)) := by
  obtain ⟨_, _, hawait⟩ := h.before_open hcode
  have hwp := h.code
  rw [hcode] at hwp
  refine ⟨hwp.2 none _ ?_, nofun⟩
  simp [spec, Op.fd, Opened, Running.sees, Running.resume, Op.onAfter, Op.awaitingAfter, hawait]

/-- A call to which `__real_open` gave a descriptor at rest. -/
theorem RunOk.realOpen {w w' : World} {run : Running} {path : Path} {flags : Nat}
    {k : Option Int → Code Int} {fd : Int} (h : RunOk cfg w run)
    (hcode : run.code = .call (.realOpen path flags) k)
    (hview : w'.view fd = { w.view fd with kernel := some w.nextIncarnation })
    (hfree : w.kernel fd = none) (hrest : Consistent cfg (w.view fd))
    (hfresh : (w.view fd).Below w.nextIncarnation) :
    RunOk cfg w' (run.resume w (.realOpen path flags) (some fd) (k (some fd))) := by
  obtain ⟨_, _, hawait⟩ := h.before_open hcode
  have hwp := h.code
  rw [hcode] at hwp
  have hopened : Opened cfg (some fd) ⟨some (fd, w'.view fd), none⟩ := by
    refine ⟨w'.view fd, w.nextIncarnation, rfl, by rw [hview], ?_, ?_⟩
    · intro rpc hrpc hinc
      rw [hview] at hrpc hinc
      exact absurd (hfresh.lastOpen rpc _ hrpc hinc) (Nat.lt_irrefl _)
    · have hclosed : ({ w'.view fd with kernel := none } : View) = w.view fd := by
        rw [hview, ← hfree]
        rfl
      rw [hclosed]
      exact hrest
  refine ⟨?_, fun fd' hfd' => ?_⟩
  · have hsees : (run.resume w (.realOpen path flags) (some fd) (k (some fd))).sees w' =
        ⟨some (fd, w'.view fd), none⟩ := by
      simp [Running.sees, Running.resume, Op.onAfter, Op.awaitingAfter, hawait]
    rw [hsees]
    exact hwp.2 (some fd) _ hopened
  · obtain rfl : fd = fd' := Option.some.inj hfd'
    exact (congrArg View.kernel hview).symm

theorem View.Below.after {v : View} {n : Nat} (h : v.Below n) (o : Op) (r : o.Res) :
    (v.after o r).Below n := by
  have hkernel : ∀ i, (v.after o r).kernel = some i → i < n := by
    intro i hi
    cases hcl : o.closes with
    | false => exact h.kernel i ((v.after_kernel hcl r).symm.trans hi)
    | true =>
        cases o with
        | realClose fd => cases hi
        | _ => cases hcl
  refine ⟨hkernel, ?_⟩
  cases o with
  | forward fd host req =>
      cases r with
      | false => cases req <;> exact h.lastOpen
      | true =>
          cases req with
          | openFile path =>
              rintro rpc i ⟨⟩ hinc
              exact h.kernel i hinc
          | read req => exact h.lastOpen
          | close rfd =>
              intro rpc i hrpc hinc
              obtain ⟨rpc', hrpc', rfl⟩ := Option.map_eq_some_iff.mp hrpc
              exact h.lastOpen rpc' i hrpc' hinc
  | openOutput fd =>
      intro rpc i hrpc hinc
      obtain ⟨rpc', hrpc', rfl⟩ := Option.map_eq_some_iff.mp hrpc
      exact h.lastOpen rpc' i hrpc' hinc
  | _ => exact h.lastOpen

theorem View.Below.mono {v : View} {n m : Nat} (h : v.Below n) (hnm : n ≤ m) : v.Below m :=
  ⟨fun i hi => Nat.lt_of_lt_of_le (h.kernel i hi) hnm,
    fun rpc i hrpc hi => Nat.lt_of_lt_of_le (h.lastOpen rpc i hrpc hi) hnm⟩

/-- An operation on the descriptor of the thread `t`. -/
theorem Ok.op_on {s : State τ} (h : Ok cfg s) (hiso : Isolated s) {t : τ} {run : Running} {o : Op}
    {k : o.Res → Code Int} {a : Answer} {r : o.Res} {w : World} {fd : Int}
    (hrun : s.threads t = some run) (hcode : run.code = .call o k) (hfd : o.fd = some fd)
    (hact : s.world.act run.incarnation o a = some (r, w)) :
    Ok cfg { s with
      world := w
      threads := s.setThread t (some (run.resume s.world o r (k r))) } := by
  have hok : RunOk cfg s.world run := h.running t run hrun
  obtain ⟨hon, hallowed⟩ := hok.allowed hcode hfd
  obtain ⟨hans, hview⟩ := act_view hact hfd (hok.current fd hon)
  have hframe : ∀ fd', fd' ≠ fd → w.view fd' = s.world.view fd' := fun _ => act_view_frame hact hfd
  -- a call that is not alone on the descriptor leaves the view as it is
  have hshared : run.call.exclusive = false → w.view fd = s.world.view fd := by
    intro hexcl
    rw [hexcl] at hallowed
    rw [hview]
    exact hallowed.view_unchanged hans
  refine ⟨fun fd' => ?_, fun t' run' hrun' => ?_, fun fd' hnone => ?_⟩
  · show (w.view fd').Below w.nextIncarnation
    rw [act_nextIncarnation hact hfd]
    by_cases hne : fd' = fd
    · rw [hne, hview]
      exact (h.fresh fd).after o r
    · rw [hframe fd' hne]
      exact h.fresh fd'
  · by_cases ht : t' = t
    · subst ht
      simp only [setThread_self, Option.some.injEq] at hrun'
      exact hrun' ▸ hok.op hcode hfd hact
    · simp only [setThread_of_ne s _ ht] at hrun'
      refine (h.running t' run' hrun').of_view_eq fun fd' hon' => ?_
      by_cases hne : fd' = fd
      · subst hne
        refine hshared (Bool.eq_false_iff.mpr fun hexcl => ?_)
        exact ht (hiso hrun hrun' hexcl hon hon').symm
      · exact hframe fd' hne
  · by_cases hne : fd' = fd
    · subst hne
      cases hexcl : run.call.exclusive with
      | false =>
          show Consistent cfg (w.view fd')
          rw [hshared hexcl]
          refine h.rest fd' fun t' run' hrun' hexcl' hon' => ?_
          obtain rfl : t' = t := hiso hrun' hrun hexcl' hon' hon
          rw [hrun] at hrun'
          obtain rfl := Option.some.inj hrun'
          cases hexcl.symm.trans hexcl'
      | true =>
          -- the descriptor has just been closed
          have hoff := hnone t (run.resume s.world o r (k r)) (by simp) hexcl
          simp only [Running.resume, Op.onAfter_of_fd hfd, hon] at hoff
          cases o with
          | realClose fd₀ =>
              show Consistent cfg (w.view fd')
              rw [hview]
              exact hallowed.2.2
          | _ => exact absurd rfl hoff
    · show Consistent cfg (w.view fd')
      rw [hframe fd' hne]
      refine h.rest fd' fun t' run' hrun' hexcl' hon' => ?_
      have ht : t' ≠ t := by
        rintro rfl
        rw [hrun] at hrun'
        obtain rfl := Option.some.inj hrun'
        exact hne (Option.some.inj (hon'.symm.trans hon))
      exact hnone t' run' (by simpa [ht] using hrun') hexcl' hon'

/-- A step of the thread `t` that leaves the world and its descriptor as they are. -/
theorem Ok.op_unchanged {s : State τ} (h : Ok cfg s) {t : τ} {run run' : Running}
    (hrun : s.threads t = some run) (hok : RunOk cfg s.world run') (hon : run'.on = run.on)
    (hcall : run'.call = run.call) :
    Ok cfg { s with threads := s.setThread t (some run') } := by
  refine ⟨h.fresh, fun t' run₁ hrun₁ => ?_, fun fd hnone => h.rest fd fun t' run₁ hrun₁ hexcl => ?_⟩
  · by_cases ht : t' = t
    · subst ht
      simp only [setThread_self, Option.some.injEq] at hrun₁
      exact hrun₁ ▸ hok
    · simp only [setThread_of_ne s _ ht] at hrun₁
      exact h.running t' run₁ hrun₁
  · by_cases ht : t' = t
    · subst ht
      rw [hrun] at hrun₁
      obtain rfl := Option.some.inj hrun₁
      exact hon ▸ hnone t' run' (by simp) (hcall ▸ hexcl)
    · exact hnone t' run₁ (by simpa [ht] using hrun₁) hexcl

/-- The kernel hands out a descriptor that no thread works on. -/
theorem Ok.op_realOpen {s : State τ} (h : Ok cfg s) {t : τ} {run : Running} {path : Path}
    {flags : Nat} {k : Option Int → Code Int} {fd : Int} (hrun : s.threads t = some run)
    (hcode : run.code = .call (.realOpen path flags) k) (hfree : s.world.kernel fd = none)
    (hunused : ∀ t' run', s.threads t' = some run' → run'.on ≠ some fd) {w : World}
    (hw : w = { s.world with
      kernel := s.world.kernel.set fd s.world.nextIncarnation
      nextIncarnation := s.world.nextIncarnation + 1 }) :
    Ok cfg { s with
      world := w
      threads := s.setThread t
        (some (run.resume s.world (.realOpen path flags) (some fd) (k (some fd)))) } := by
  have hview : w.view fd = { s.world.view fd with kernel := some s.world.nextIncarnation } := by
    subst hw
    simp [World.view]
  have hframe : ∀ fd', fd' ≠ fd → w.view fd' = s.world.view fd' := by
    subst hw
    intro fd' hne
    simp [World.view, hne]
  have hnext : w.nextIncarnation = s.world.nextIncarnation + 1 := by rw [hw]
  have hok : RunOk cfg s.world run := h.running t run hrun
  obtain ⟨hexcl, hoff, _⟩ := hok.before_open hcode
  have hrest : Consistent cfg (s.world.view fd) :=
    h.rest fd fun t' run' hrun' _ => hunused t' run' hrun'
  refine ⟨fun fd' => ?_, fun t' run' hrun' => ?_, fun fd' hnone => ?_⟩
  · show (w.view fd').Below w.nextIncarnation
    rw [hnext]
    by_cases hne : fd' = fd
    · rw [hne, hview]
      refine ⟨?_, ((h.fresh fd).mono (Nat.le_succ _)).lastOpen⟩
      rintro i ⟨⟩
      exact Nat.lt_succ_self _
    · rw [hframe fd' hne]
      exact (h.fresh fd').mono (Nat.le_succ _)
  · by_cases ht : t' = t
    · subst ht
      simp only [setThread_self, Option.some.injEq] at hrun'
      exact hrun' ▸ hok.realOpen hcode hview hfree hrest (h.fresh fd)
    · simp only [setThread_of_ne s _ ht] at hrun'
      refine (h.running t' run' hrun').of_view_eq fun fd' hon' => hframe fd' ?_
      rintro rfl
      exact hunused t' run' hrun' hon'
  · have hne : fd' ≠ fd := by
      rintro rfl
      exact hnone t (run.resume s.world (.realOpen path flags) (some fd') (k (some fd')))
        (by simp) hexcl rfl
    show Consistent cfg (w.view fd')
    rw [hframe fd' hne]
    refine h.rest fd' fun t' run' hrun' hexcl' => ?_
    by_cases ht : t' = t
    · subst ht
      rw [hrun] at hrun'
      obtain rfl := Option.some.inj hrun'
      rw [hoff]
      exact (Option.some_ne_none _).symm
    · exact hnone t' run' (by simpa [ht] using hrun') hexcl'

/-- Isolated threads keep the invariant. -/
theorem Ok.step {s s' : State τ} {e : Event τ} (h : Ok cfg s) (hiso : Isolated s)
    (hiso' : Isolated s') (hs : Step cfg discipline s e s') : Ok cfg s' := by
  cases hs with
  | @call t c hidle hcall =>
      have hother : ∀ {t' run'}, s.threads t' = some run' → t' ≠ t := by
        rintro t' run' hrun' rfl
        cases hidle.symm.trans hrun'
      refine ⟨h.fresh, fun t' run' hrun' => ?_, fun fd hnone => h.rest fd fun t' run' hrun' => ?_⟩
      · by_cases ht : t' = t
        · subst ht
          simp only [State.begin, setThread_self, Option.some.injEq] at hrun'
          subst hrun'
          refine ⟨call_spec c s.world.view fun fd hfd => ?_, fun fd hfd => ?_⟩
          · -- whoever opened or closed the descriptor would share it with this call
            refine h.rest fd fun t₁ run₁ hrun₁ hexcl hon => hother hrun₁ ?_
            refine @hiso' t₁ t' run₁ ⟨c, c.fd, c.fd.bind s.world.kernel, none, c.code cfg⟩ fd
              ?_ ?_ hexcl hon hfd
            · simpa [State.begin, hother hrun₁] using hrun₁
            · simp [State.begin]
          · obtain hfd : c.fd = some fd := hfd
            simp [hfd, State.begin]
        · simp only [State.begin, setThread_of_ne s _ ht] at hrun'
          exact h.running t' run' hrun'
      · exact hnone t' run' (by simpa [State.begin, hother hrun'] using hrun')
  | @op t a run o k r w hrun hcode hact =>
      cases hfd : o.fd with
      | some fd => exact h.op_on hiso hrun hcode hfd hact
      | none =>
          cases o with
          | canonical path | currentPath =>
              obtain rfl : w = s.world := act_query hact rfl (by rintro _ _ ⟨⟩)
              exact h.op_unchanged hrun ((h.running t run hrun).query hcode rfl rfl) rfl rfl
          | realOpen path flags =>
              rcases act_realOpen hact with ⟨rfl, rfl⟩ | ⟨fd, rfl, _, hfree, hw⟩
              · have hok : RunOk cfg s.world run := h.running t run hrun
                exact h.op_unchanged hrun (hok.openFailed hcode) (hok.before_open hcode).2.1.symm rfl
              · obtain ⟨hexcl, hoff, _⟩ := (h.running t run hrun).before_open hcode
                refine h.op_realOpen hrun hcode hfree (fun t' run' hrun' hon' => ?_) hw
                have ht : t' ≠ t := by
                  rintro rfl
                  rw [hrun] at hrun'
                  obtain rfl := Option.some.inj hrun'
                  cases hoff.symm.trans hon'
                refine ht (@hiso' t t' _ run' fd (setThread_self s t _) ?_ hexcl rfl hon').symm
                simpa [ht] using hrun'
          | _ => cases hfd
  | @ret t run v hrun hcode =>
      have hok : RunOk cfg s.world run := h.running t run hrun
      have hrest : AtRest cfg (run.sees s.world) := by
        have hwp := hok.code
        rw [hcode] at hwp
        exact hwp
      refine ⟨h.fresh, fun t' run' hrun' => ?_, fun fd hnone => ?_⟩
      · by_cases ht : t' = t
        · subst ht
          simp [State.finish] at hrun'
        · simp only [State.finish, setThread_of_ne s _ ht] at hrun'
          exact h.running t' run' hrun'
      · by_cases hon : run.on = some fd
        · exact hrest.2 fd _ (by simp [Running.sees, State.finish, hon])
        · refine h.rest fd fun t' run' hrun' hexcl hon' => ?_
          have ht : t' ≠ t := by
            rintro rfl
            rw [hrun] at hrun'
            obtain rfl := Option.some.inj hrun'
            exact hon hon'
          exact hnone t' run' (by simpa [State.finish, ht] using hrun') hexcl hon'

/-! ## Sequential calls -/

/-- One thread that calls whatever it likes, also on descriptors that are not open. -/
abbrev sequential (cfg : Config) : Machine (State Unit) (Event Unit) :=
  machine cfg fun _ _ => true

omit [DecidableEq τ] in
theorem ok_init : Ok cfg (State.init τ) where
  fresh := by
    refine fun fd => ⟨?_, ?_⟩
    · intro i hi
      cases hi
    · intro rpc i hrpc
      cases hrpc
  running := by
    intro t run h
    cases h
  rest := fun _ _ => consistent_of_no_entries

theorem sequential_ok : (sequential cfg).Invariant (Ok cfg) where
  init := ok_init
  step := fun _ h hs => h.step (fun _ _ _ _ _ _ _ _ _ _ => rfl) (fun _ _ _ _ _ _ _ _ _ _ => rfl)
    (step_cases hs)

/-- The three maps agree with each other and with the kernel. -/
structure MapsConsistent (w : World) : Prop where
  sameKeys : ∀ fd, (w.fdMap fd).isSome = (w.fdStateMap fd).isSome
  keysOpen : ∀ fd, (w.fdMap fd).isSome = true → (w.kernel fd).isSome = true
  notOpening : ∀ fd, w.fdStateMap fd ≠ some .opening
  ready : ∀ fd, w.fdStateMap fd = some .ready ↔ ∃ r, w.fdRedirMap fd = some r ∧ r ≠ 0
  mapped : ∀ fd r, w.fdRedirMap fd = some r → r ≠ 0 →
    0 < r ∧ ∃ rpc, w.lastOpen fd = some rpc ∧ rpc.status = some r
  closed : ∀ fd r, w.kernel fd = none → w.fdRedirMap fd = some r → r = 0

/-- A non-zero entry is a mapping of the view. -/
theorem view_redir {w : World} {fd r : Int} (h : w.fdRedirMap fd = some r) :
    (w.view fd).redir = r :=
  Table.entry_of_some h

theorem view_redir_ne_zero {w : World} {fd : Int} :
    (w.view fd).redir ≠ 0 ↔ ∃ r, w.fdRedirMap fd = some r ∧ r ≠ 0 := by
  cases h : w.fdRedirMap fd <;> simp [World.view, Table.entry, h]

theorem mapsConsistent_of_rest {w : World} (h : ∀ fd, Consistent cfg (w.view fd)) :
    MapsConsistent w := by
  have hmapped : ∀ fd r, w.fdRedirMap fd = some r → r ≠ 0 → 0 < r ∧ ∃ path,
      w.fdMap fd = some path ∧
        w.lastOpen fd = some ⟨w.kernel fd, cfg.host path, path, some r, false⟩ := by
    intro fd r hr hne
    have := (h fd).mapped (view_redir hr ▸ hne)
    rwa [view_redir hr] at this
  refine ⟨fun fd => (h fd).keys, fun fd => (h fd).kernelOpen, fun fd => (h fd).settled,
    fun fd => (h fd).ready.trans view_redir_ne_zero, fun fd r hr hne => ?_, fun fd r hk hr => ?_⟩
  · obtain ⟨hpos, path, _, hopen⟩ := hmapped fd r hr hne
    exact ⟨hpos, _, hopen, rfl⟩
  · by_contra hne
    obtain ⟨_, path, hpath, _⟩ := hmapped fd r hr hne
    have hopen : (w.kernel fd).isSome = true := (h fd).kernelOpen (by simp [World.view, hpath])
    simp [hk] at hopen

/-- Between two calls the maps are consistent, and no read that found its
descriptor ready ever misses the mapping. -/
theorem maps_consistent {s : State Unit} (h : (sequential cfg).Reachable s) :
    (s.threads () = none → MapsConsistent s.world) ∧
      ∀ fd, s.nextOp () ≠ some (.logNoMapping fd) := by
  have hok : Ok cfg s := sequential_ok.reachable h
  constructor
  · intro hidle
    refine mapsConsistent_of_rest fun fd => hok.rest fd fun t run hrun => ?_
    cases hidle.symm.trans hrun
  · intro fd hop
    obtain ⟨run, k, hrun, hcode⟩ := nextOp_cases hop
    exact ((hok.running () run hrun).allowed hcode rfl).2

/-- The steps of a thread that opens a file under `/d`: the kernel picks the
descriptor `3`, the server answers with its descriptor `7`. -/
def openSteps (t : τ) : List (Event τ) :=
  let path := ['/', 'd', '/', 'a']
  let steps (n : Nat) : List (Event τ) := List.replicate n (.step t {})
  [.call t (.openFile path 0), .step t { fd := some 3 }, .step t { path := some path },
    .step t { path := some ['/', 'd'] }, .step t { path := some path }] ++ steps 5 ++
  [.step t { value := 7 }] ++ steps 2 ++ [.ret t]

def dataDirConfig : Config where
  hvacDataDir := some ['/', 'd']
  hash := List.length
  serverCount := 3
  serverCount_pos := by decide

theorem maps_consistent_after_open :
    ∃ s, (sequential dataDirConfig).run (openSteps ()) = some s ∧
      s.world.fdRedirMap 3 = some 7 ∧ MapsConsistent s.world := by
  have hmap : ((sequential dataDirConfig).run (openSteps ())).map
      (fun s => ((s.threads ()).isNone, s.world.fdRedirMap 3)) = some (true, some 7) := by
    decide +kernel
  obtain ⟨s, hrun, hs⟩ := Option.map_eq_some_iff.mp hmap
  obtain ⟨hidle, hredir⟩ := Prod.mk.inj hs
  have hreach : (sequential dataDirConfig).Reachable s := Machine.reachable_of_run hrun
  exact ⟨s, hrun, hredir, (maps_consistent hreach).1 (Option.isNone_iff_eq_none.mp hidle)⟩

end MtHvac.Client
