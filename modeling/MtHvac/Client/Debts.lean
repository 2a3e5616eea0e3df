-- SUMMARY: What a client owes to a server: the remote descriptors that it was given and has not sent back, and that the wrappers never forget one while close requests get through.
import MtHvac.Client.Incarnation

/-!
# Debts of a client

A server opens a descriptor for an open request, and closes it when the close
request arrives. From the response to the close request the client owes the
descriptor. It can pay as long as its maps lead to the descriptor.
-/

namespace MtHvac.Client

open Base Program

/-! ## Debts -/

/-- The remote descriptor that an open request brought, until the close request is sent. -/
def OpenRpc.owed (rpc : OpenRpc) : Option Int :=
  if rpc.closed then none else rpc.status.filter fun rfd => decide (0 < rfd)

theorem OpenRpc.owed_eq_some {rpc : OpenRpc} {rfd : Int} :
    rpc.owed = some rfd ↔ rpc.closed = false ∧ rpc.status = some rfd ∧ 0 < rfd := by
  cases hclosed : rpc.closed with
  | true => simp [OpenRpc.owed, hclosed]
  | false => simp [OpenRpc.owed, hclosed, Option.filter_eq_some_iff]

/-- What is owed for one descriptor of the client, and what the maps know about it. -/
structure Debt where
  tracked : Bool
  redir : Int
  owed : Option Int
deriving DecidableEq

def View.debt (v : View) : Debt where
  tracked := v.path.isSome
  redir := v.redir
  owed := v.lastOpen.bind OpenRpc.owed

/-- The maps lead to the descriptor that is owed. -/
def Debt.Mapped (d : Debt) : Prop :=
  ∀ rfd, d.owed = some rfd → d.tracked = true ∧ d.redir = rfd ∧ rfd ≠ 0

theorem Debt.mapped_of_none {d : Debt} (h : d.owed = none) : d.Mapped := by
  intro rfd hrfd
  cases h.symm.trans hrfd

/-! ## The operations on a debt -/

/-- After these nothing can be paid for the descriptor any more. -/
def Op.forgets : Op → Bool
  | .realClose _ | .forward _ _ (.openFile _) => true
  | _                                         => false

/-- The responses that an operation can give, if close requests are sent. -/
def Debt.Answers (d : Debt) : (o : Op) → o.Res → Prop
  | .fdMapFind _, r            => r.isSome = d.tracked
  | .fdRedirMapFind _, r       => r.getD 0 = d.redir
  | .fdRedirMapEntry _, r      => r = d.redir
  | .forward _ _ (.close _), r => r = true
  | _, _                       => True

def Debt.after (d : Debt) : (o : Op) → o.Res → Debt
  | .fdMapEntry _, _                  => { d with tracked := true }
  | .fdMapSet _ _, _                  => { d with tracked := true }
  | .fdMapErase _, _                  => { d with tracked := false }
  | .fdRedirMapSet _ rfd, _           => { d with redir := rfd }
  | .fdRedirMapErase _, _             => { d with redir := 0 }
  | .forward _ _ (.openFile _), r     => if r then { d with owed := none } else d
  | .forward _ _ (.close _), r        => if r then { d with owed := none } else d
  | .openOutput _, rfd                => { d with owed := if 0 < rfd then some rfd else none }
  | _, _                              => d

/-- An operation that a call may perform acts on the debt. -/
theorem debt_after {cfg : Config} {exclusive : Bool} {v : View} {awaiting : Option (Int × Request)}
    {o : Op} {r : o.Res} (h : Allowed cfg exclusive v awaiting o) :
    (v.after o r).debt = v.debt.after o r := by
  cases o with
  | forward fd host req =>
      cases req with
      | openFile path => cases r <;> rfl
      | read req => rfl
      | close rfd =>
          cases r with
          | false => rfl
          | true => cases hlast : v.lastOpen <;> simp [View.after, View.debt, Debt.after, hlast,
              OpenRpc.owed]
  | openOutput fd =>
      obtain ⟨_, host, path, _, hlast⟩ := h
      by_cases hpos : 0 < r <;>
        simp [View.after, View.debt, Debt.after, hlast, OpenRpc.owed, Option.filter, hpos]
  | _ => rfl

theorem debt_answers {v : View} {o : Op} {r : o.Res} (h : v.Answers o r)
    (hsent : ∀ fd host rfd, o = .forward fd host (.close rfd) → HEq r true) :
    v.debt.Answers o r := by
  cases o with
  | fdMapFind fd => exact congrArg Option.isSome h
  | fdRedirMapFind fd => exact h
  | fdRedirMapEntry fd => exact h
  | forward fd host req =>
      cases req with
      | close rfd => exact eq_of_heq (hsent fd host rfd rfl)
      | _ => trivial
  | _ => trivial

/-- The operations as a call sees them that pays what it owes. A new descriptor comes without
a debt. -/
def paying : Spec ops (Option Debt) where
  pre o x := o.forgets = true → ∀ d, x = some d → d.owed = none
  post o x r x' :=
    match o.fd with
    | none =>
        match o, r with
        | .realOpen _ _, some _ => ∃ d, x' = some d ∧ d.owed = none
        | _, _                  => x' = x
    | some _ => ∃ d, x = some d ∧ d.Answers o r ∧ x' = if o.closes then none else some (d.after o r)

variable {cfg : Config} {fd : Int} {d : Debt}

theorem wp_paying {o : Op} (hfd : o.fd = some fd) {Q : o.Res → Option Debt → Prop} :
    wp paying (op o) Q (some d) ↔ (o.forgets = true → d.owed = none) ∧
      ∀ r, d.Answers o r → Q r (if o.closes then none else some (d.after o r)) := by
  refine wp_perform.trans ?_
  simp only [paying, hfd, Option.some.injEq, exists_eq_left', forall_eq']
  refine and_congr_right fun _ => forall_congr' fun r => ?_
  constructor
  · exact fun h hr => h _ ⟨hr, rfl⟩
  · rintro h x' ⟨hr, rfl⟩
    exact h hr

section Rules

attribute [local simp] Debt.Answers Debt.after Op.Res Op.closes Op.forgets Unique.forall_iff

theorem pays_canonical {path : Path} {Q : Option Path → Option Debt → Prop} :
    wp paying (op (.canonical path)) Q (some d) ↔ ∀ r, Q r (some d) :=
  wp_perform.trans (by simp [paying, Op.fd, ops])

theorem pays_currentPath {Q : Option Path → Option Debt → Prop} :
    wp paying (op .currentPath) Q (some d) ↔ ∀ r, Q r (some d) :=
  wp_perform.trans (by simp [paying, Op.fd, ops])

@[simp] theorem pays_realClose {Q : Int → Option Debt → Prop} :
    @wp ops (no_index _) _ paying (op (.realClose fd)) Q (some d) ↔ d.owed = none ∧ ∀ r, Q r none :=
  (wp_paying rfl).trans (by simp)

@[simp] theorem pays_fdMapFind {Q : Option Path → Option Debt → Prop} :
    @wp ops (no_index _) _ paying (op (.fdMapFind fd)) Q (some d) ↔
      ∀ r : Option Path, r.isSome = d.tracked → Q r (some d) :=
  (wp_paying rfl).trans (by simp)

@[simp] theorem pays_fdMapEntry {Q : Path → Option Debt → Prop} :
    @wp ops (no_index _) _ paying (op (.fdMapEntry fd)) Q (some d) ↔
      ∀ r, Q r (some { d with tracked := true }) :=
  (wp_paying rfl).trans (by simp)

@[simp] theorem pays_fdMapSet {path : Path} {Q : Unit → Option Debt → Prop} :
    @wp ops (no_index _) _ paying (op (.fdMapSet fd path)) Q (some d) ↔
      Q () (some { d with tracked := true }) :=
  (wp_paying rfl).trans (by simp)

@[simp] theorem pays_fdMapErase {Q : Unit → Option Debt → Prop} :
    @wp ops (no_index _) _ paying (op (.fdMapErase fd)) Q (some d) ↔
      Q () (some { d with tracked := false }) :=
  (wp_paying rfl).trans (by simp)

@[simp] theorem pays_fdRedirMapFind {Q : Option Int → Option Debt → Prop} :
    @wp ops (no_index _) _ paying (op (.fdRedirMapFind fd)) Q (some d) ↔
      ∀ r : Option Int, r.getD 0 = d.redir → Q r (some d) :=
  (wp_paying rfl).trans (by simp)

@[simp] theorem pays_fdRedirMapEntry {Q : Int → Option Debt → Prop} :
    @wp ops (no_index _) _ paying (op (.fdRedirMapEntry fd)) Q (some d) ↔ Q d.redir (some d) :=
  (wp_paying rfl).trans (by simp)

@[simp] theorem pays_fdRedirMapSet {rfd : Int} {Q : Unit → Option Debt → Prop} :
    @wp ops (no_index _) _ paying (op (.fdRedirMapSet fd rfd)) Q (some d) ↔
      Q () (some { d with redir := rfd }) :=
  (wp_paying rfl).trans (by simp)

@[simp] theorem pays_fdRedirMapErase {Q : Unit → Option Debt → Prop} :
    @wp ops (no_index _) _ paying (op (.fdRedirMapErase fd)) Q (some d) ↔
      Q () (some { d with redir := 0 }) :=
  (wp_paying rfl).trans (by simp)

@[simp] theorem pays_fdStateSet {state : FdState} {Q : Unit → Option Debt → Prop} :
    @wp ops (no_index _) _ paying (op (.fdStateSet fd state)) Q (some d) ↔ Q () (some d) :=
  (wp_paying rfl).trans (by simp)

@[simp] theorem pays_fdStateUpdate {state : FdState} {Q : Unit → Option Debt → Prop} :
    @wp ops (no_index _) _ paying (op (.fdStateUpdate fd state)) Q (some d) ↔ Q () (some d) :=
  (wp_paying rfl).trans (by simp)

@[simp] theorem pays_fdStateErase {Q : Unit → Option Debt → Prop} :
    @wp ops (no_index _) _ paying (op (.fdStateErase fd)) Q (some d) ↔ Q () (some d) :=
  (wp_paying rfl).trans (by simp)

@[simp] theorem pays_forward_openFile {host : Int} {path : Path} {Q : Bool → Option Debt → Prop} :
    @wp ops (no_index _) _ paying (op (.forward fd host (.openFile path))) Q (some d) ↔
      d.owed = none ∧ Q true (some { d with owed := none }) ∧ Q false (some d) :=
  (wp_paying rfl).trans (by simp [and_comm])

@[simp] theorem pays_forward_close {host rfd : Int} {Q : Bool → Option Debt → Prop} :
    @wp ops (no_index _) _ paying (op (.forward fd host (.close rfd))) Q (some d) ↔
      Q true (some { d with owed := none }) :=
  (wp_paying rfl).trans (by simp)

@[simp] theorem pays_openOutput {Q : Int → Option Debt → Prop} :
    @wp ops (no_index _) _ paying (op (.openOutput fd)) Q (some d) ↔
      ∀ r, Q r (some { d with owed := if 0 < r then some r else none }) :=
  (wp_paying rfl).trans (by simp)

end Rules

/-! ## The wrappers pay -/

theorem pays_hvacFileTracked {Q : Bool → Option Debt → Prop} (hQ : Q d.tracked (some d)) :
    wp paying (hvacFileTracked fd) Q (some d) := by
  simp only [hvacFileTracked, wp_bind, pays_fdMapFind]
  rintro r hr
  exact hr ▸ hQ

theorem pays_hvacGetPath {Q : Option Path → Option Debt → Prop}
    (hQ : ∀ r : Option Path, r.isSome = d.tracked → Q r (some d)) :
    wp paying (hvacGetPath fd) Q (some d) := by
  simp only [hvacGetPath, wp_bind, pays_fdMapFind]
  intro r hr
  cases r with
  | none => exact hQ none hr
  | some path =>
      have hd : ({ d with tracked := true } : Debt) = d :=
        congrArg (fun b => { d with tracked := b }) hr
      simp only [wp_bind, pays_fdMapEntry, hd]
      exact fun path' => hQ (some path') hr

theorem pays_hasRemoteFd {Q : Bool → Option Debt → Prop}
    (hQ : Q (decide (d.redir ≠ 0)) (some d)) : wp paying (hasRemoteFd fd) Q (some d) := by
  simp only [hasRemoteFd, wp_bind, pays_fdRedirMapFind]
  intro r hr
  cases r with
  | none => simpa [← hr] using hQ
  | some rfd => simpa using hQ

/-- Where the maps lead nowhere, nothing is owed. -/
theorem Debt.Mapped.paid (hd : d.Mapped) (h : d.tracked = false ∨ d.redir = 0) : d.owed = none := by
  cases howed : d.owed with
  | none => rfl
  | some rfd =>
      obtain ⟨htracked, hredir, hne⟩ := hd rfd howed
      rcases h with h | h
      · cases h.symm.trans htracked
      · exact absurd (hredir.symm.trans h) hne

/-- What is owed is sent back. -/
theorem pays_hvacRemoveFd (hd : d.Mapped) {Q : Unit → Option Debt → Prop}
    (hQ : ∀ d', d'.owed = none → Q () (some d')) :
    wp paying (hvacRemoveFd cfg fd) Q (some d) := by
  simp only [hvacRemoveFd, hvacRemoteClose, wp_bind]
  refine pays_hvacFileTracked ?_
  cases htracked : d.tracked with
  | false =>
      have hnone := hd.paid (.inl htracked)
      simpa using hQ { d with tracked := false } hnone
  | true =>
      simp only [if_true, wp_bind, pays_fdMapEntry, hvacClientCommGenCloseRpc]
      intro _
      refine pays_hasRemoteFd ?_
      by_cases hredir : d.redir = 0
      · have hnone := hd.paid (.inr hredir)
        simpa [hredir] using hQ { d with tracked := false } hnone
      · simpa [hredir] using hQ ⟨false, 0, none⟩ rfl

theorem closeWrapper_pays (hd : d.Mapped) :
    wp paying (closeWrapper cfg fd) (fun _ x => x = none) (some d) := by
  simp only [closeWrapper, wp_bind]
  refine pays_hvacGetPath fun r hr => ?_
  cases r with
  | none => simpa using hd.paid (.inl hr.symm)
  | some path =>
      simp only [Option.isSome_some, if_true, wp_bind]
      refine pays_hvacRemoveFd hd fun d' hd' => ?_
      simpa using hd'

/-- The callback of an open request leaves the maps leading to what is owed from then on. -/
theorem pays_hvacClientCommGenOpenRpc {host : Int} {path : Path} (htracked : d.tracked = true)
    (hnone : d.owed = none) {Q : Int → Option Debt → Prop}
    (hQ : ∀ r d', d'.Mapped → Q r (some d')) :
    wp paying (hvacClientCommGenOpenRpc host path fd) Q (some d) := by
  simp only [hvacClientCommGenOpenRpc, wp_bind, pays_fdStateSet, pays_forward_openFile]
  refine ⟨hnone, ?_, ?_⟩
  · simp only [if_true, hvacOpenCb, wp_bind, pays_openOutput]
    intro status
    by_cases hpos : 0 < status
    · simp only [hpos, if_true, wp_bind, pays_fdRedirMapSet, pays_fdStateUpdate, wp_pure]
      refine hQ _ _ ?_
      rintro rfd ⟨⟩
      exact ⟨htracked, rfl, hpos.ne'⟩
    · simp only [hpos, if_false, wp_bind, pays_fdStateUpdate, wp_pure]
      exact hQ _ _ (Debt.mapped_of_none rfl)
  · simp only [Bool.false_eq_true, if_false, wp_bind, pays_fdStateUpdate, wp_pure]
    exact hQ _ _ (Debt.mapped_of_none hnone)

theorem pays_selectPath {path : Path} {Q : Bool → Option Debt → Prop}
    (hset : Q true (some { d with tracked := true })) (hskip : Q false (some d)) :
    wp paying (selectPath cfg path fd) Q (some d) := by
  have hrecord : wp paying (recordPath path fd) Q (some d) := by
    simp only [recordPath, wp_bind]
    refine pays_canonical.mpr fun r => ?_
    cases r with
    | none => exact hskip
    | some p => simpa using hset
  simp only [selectPath, wp_bind]
  refine pays_canonical.mpr fun r => ?_
  cases r with
  | none => exact hskip
  | some p =>
      cases cfg.hvacDataDir with
      | some dataDir =>
          simp only [wp_bind]
          refine pays_canonical.mpr fun test => ?_
          cases test with
          | none => exact hskip
          | some test =>
              by_cases hin : test <:+: parentPath p
              · simpa [hin] using hrecord
              · simpa [hin] using hskip
      | none =>
          simp only [wp_bind]
          refine pays_currentPath.mpr fun cwd => ?_
          cases cwd with
          | none => exact hskip
          | some cwd =>
              by_cases hin : parentPath p = cwd
              · simpa [hin] using hrecord
              · simpa [hin] using hskip

theorem pays_hvacTrackFile {path : Path} {flags : Nat} (hnone : d.owed = none)
    {Q : Bool → Option Debt → Prop} (hQ : ∀ r d', d'.Mapped → Q r (some d')) :
    wp paying (hvacTrackFile cfg path flags fd) Q (some d) := by
  have hskip : Q false (some d) := hQ _ _ (Debt.mapped_of_none hnone)
  unfold hvacTrackFile
  split
  · exact hskip
  split
  · exact hskip
  split
  · exact hskip
  simp only [wp_bind]
  refine pays_selectPath ?_ (by simpa using hskip)
  simp only [if_true, wp_bind, pays_fdMapEntry]
  intro _ _
  refine pays_hvacClientCommGenOpenRpc ?_ ?_ ?_
  · rfl
  · exact hnone
  · exact fun r d' hd' => hQ _ _ hd'

theorem openWrapper_pays (path : Path) (flags : Nat) :
    wp paying (openWrapper cfg path flags) (fun _ x => ∀ d, x = some d → d.Mapped) none := by
  simp only [openWrapper, wp_bind]
  refine wp_perform.mpr ⟨by rintro ⟨⟩, fun r x hx => ?_⟩
  cases r with
  | none =>
      obtain rfl : x = none := hx
      rintro _ ⟨⟩
  | some fd =>
      obtain ⟨d, rfl, hnone⟩ := hx
      simp only [wp_bind]
      refine pays_hvacTrackFile hnone fun _ d' hd' => ?_
      rintro _ ⟨⟩
      exact hd'

/-! ## The invariant -/

section Solvent

variable {τ : Type} [DecidableEq τ] {s s' : State τ} {t : τ} {run run' : Running} {w : World}

omit [DecidableEq τ] in
/-- Calls that open or close pay what they owe, and at rest the maps lead to what is owed. -/
structure Solvent (s : State τ) : Prop where
  running : ∀ t run, s.threads t = some run → run.call.exclusive = true →
    wp paying run.code (fun _ x => ∀ d, x = some d → d.Mapped)
      (run.on.map fun fd => (s.world.view fd).debt)
  rest : ∀ fd, (∀ t run, s.threads t = some run → run.call.exclusive = true → run.on ≠ some fd) →
    (s.world.view fd).debt.Mapped
  free : ∀ fd, s.world.kernel fd = none → (s.world.view fd).debt.owed = none

/-- `HG_Forward` succeeds for close requests. -/
def sendsCloses (s : State τ) : Event τ → Bool
  | .step t a =>
      match s.nextOp t with
      | some (.forward _ _ (.close _)) => a.ok
      | _                              => true
  | _ => true

omit [DecidableEq τ] in
theorem solvent_init : Solvent (State.init τ) where
  running := by
    intro t run h
    cases h
  rest _ _ := Debt.mapped_of_none rfl
  free _ _ := rfl

/-- A step of the thread `t`. -/
theorem Solvent.moved (h : Solvent s) (hcall : run'.call = run.call)
    (hothers : ∀ t' r fd, t' ≠ t → s.threads t' = some r → r.call.exclusive = true →
      r.on = some fd → (w.view fd).debt = (s.world.view fd).debt)
    (hcode : run.call.exclusive = true → wp paying run'.code (fun _ x => ∀ d, x = some d → d.Mapped)
      (run'.on.map fun fd => (w.view fd).debt))
    (hrest : ∀ fd, ¬ (run.call.exclusive = true ∧ run'.on = some fd) →
      (∀ t' r, t' ≠ t → s.threads t' = some r → r.call.exclusive = true → r.on ≠ some fd) →
        (w.view fd).debt.Mapped)
    (hfree : ∀ fd, w.kernel fd = none → (w.view fd).debt.owed = none) :
    Solvent { s with world := w, threads := s.setThread t (some run') } := by
  refine ⟨fun t' r hr hexcl => ?_, fun fd hnone => ?_, hfree⟩
  · by_cases ht : t' = t
    · subst ht
      simp only [setThread_self, Option.some.injEq] at hr
      subst hr
      exact hcode (hcall ▸ hexcl)
    · simp only [setThread_of_ne s _ ht] at hr
      have hwp := h.running t' r hr hexcl
      cases hon : r.on with
      | none => rwa [hon] at hwp
      | some fd =>
          rw [hon] at hwp
          show wp paying r.code _ (some (w.view fd).debt)
          rw [hothers t' r fd ht hr hexcl hon]
          exact hwp
  · refine hrest fd (fun hmine => ?_) fun t' r ht hr hexcl => ?_
    · exact hnone t run' (setThread_self s t _) (hcall ▸ hmine.1) hmine.2
    · exact hnone t' r ((setThread_of_ne s _ ht).trans hr) hexcl

/-- An operation on the descriptor that the thread `t` has for itself. -/
theorem Solvent.op_on (h : Solvent s) (hok : Ok cfg s) (hheld : Held s) {o : Op}
    {k : o.Res → Code Int} {a : Answer} {r : o.Res} (hrun : s.threads t = some run)
    (hcode : run.code = .call o k) (hfd : o.fd = some fd)
    (hact : s.world.act run.incarnation o a = some (r, w)) (hexcl : run.call.exclusive = true)
    (hsends : sendsCloses s (.step t a) = true) :
    Solvent { s with
      world := w
      threads := s.setThread t (some (run.resume s.world o r (k r))) } := by
  have hrunning := hok.running t run hrun
  obtain ⟨hon, hallowed⟩ := hrunning.allowed hcode hfd
  obtain ⟨hans, hview⟩ := act_view hact hfd (hrunning.current fd hon)
  have hframe : ∀ fd', fd' ≠ fd → w.view fd' = s.world.view fd' := fun _ => act_view_frame hact hfd
  have hdebt : (w.view fd).debt = (s.world.view fd).debt.after o r := by
    rw [hview, debt_after hallowed]
  have hpays := h.running t run hrun hexcl
  rw [hcode, hon] at hpays
  have hforgets : o.forgets = true → (s.world.view fd).debt.owed = none :=
    fun hf => hpays.1 hf _ rfl
  have hanswers : (s.world.view fd).debt.Answers o r := by
    refine debt_answers hans fun fd' host rfd ho => ?_
    subst ho
    obtain ⟨rfl, _⟩ := Prod.mk.inj (Option.some.inj hact)
    have hok' : a.ok = true := by
      simpa [sendsCloses, nextOp_of_code hrun hcode] using hsends
    exact heq_of_eq hok'
  have hnext := hpays.2 r (if o.closes then none else some ((s.world.view fd).debt.after o r))
    (by simp only [paying, hfd]; exact ⟨_, rfl, hanswers, rfl⟩)
  have hclosed : o.closes = true → o.forgets = true ∧
      (s.world.view fd).debt.after o r = (s.world.view fd).debt := by
    intro hcl
    cases o with
    | realClose fd => exact ⟨rfl, rfl⟩
    | _ => cases hcl
  have hother : ∀ t' r fd', t' ≠ t → s.threads t' = some r → r.call.exclusive = true →
      r.on = some fd' → fd' ≠ fd := by
    rintro t' r' fd' ht hr' hexcl' hon' rfl
    exact ht (hheld.isolated hrun hr' hexcl hon hon').symm
  refine h.moved rfl (fun t' r' fd' ht hr' hexcl' hon' => ?_) (fun _ => ?_)
    (fun fd' hnone hnobody => ?_) fun fd' hfree => ?_
  · rw [hframe fd' (hother t' r' fd' ht hr' hexcl' hon')]
  · simp only [Running.resume, Op.onAfter_of_fd hfd, hon]
    cases hcl : o.closes with
    | true => simpa [hcl] using hnext
    | false => simpa [hcl, hdebt] using hnext
  · by_cases hne : fd' = fd
    · subst hne
      have hcl : o.closes = true := by
        cases hcl : o.closes with
        | true => rfl
        | false =>
            exact absurd ⟨hexcl, by simp [Running.resume, Op.onAfter_of_fd hfd, hon, hcl]⟩ hnone
      obtain ⟨hf, hsame⟩ := hclosed hcl
      refine Debt.mapped_of_none ?_
      rw [hdebt, hsame]
      exact hforgets hf
    · rw [hframe fd' hne]
      refine h.rest fd' fun t' r' hr' hexcl' hon' => ?_
      by_cases ht : t' = t
      · subst ht
        obtain rfl := Option.some.inj (hrun.symm.trans hr')
        exact hne (Option.some.inj (hon'.symm.trans hon))
      · exact hnobody t' r' ht hr' hexcl' hon'
  · by_cases hne : fd' = fd
    · subst hne
      cases hcl : o.closes with
      | true =>
          obtain ⟨hf, hsame⟩ := hclosed hcl
          rw [hdebt, hsame]
          exact hforgets hf
      | false =>
          have hkernel : w.kernel fd' = s.world.kernel fd' :=
            (congrArg View.kernel hview).trans (View.after_kernel _ hcl r)
          exact absurd (hkernel.symm.trans hfree)
            (hheld.working t fd' true ⟨run, hrun, hon, hexcl⟩)
    · rw [hframe fd' hne]
      refine h.free fd' ?_
      rw [← hfree]
      exact (congrArg View.kernel (hframe fd' hne)).symm

/-- A step of the thread `t` that changes no debt and opens no descriptor. -/
theorem Solvent.unchanged (h : Solvent s) (hrun : s.threads t = some run)
    (hcall : run'.call = run.call) (hon : run'.on = run.on)
    (hviews : ∀ fd, w.view fd = s.world.view fd)
    (hcode : run.call.exclusive = true → wp paying run'.code (fun _ x => ∀ d, x = some d → d.Mapped)
      (run'.on.map fun fd => (s.world.view fd).debt)) :
    Solvent { s with world := w, threads := s.setThread t (some run') } := by
  refine h.moved hcall (fun _ _ fd _ _ _ _ => by rw [hviews fd]) (fun hexcl => ?_)
    (fun fd hnone hnobody => ?_) fun fd hfree => ?_
  · simp only [hviews]
    exact hcode hexcl
  · rw [hviews fd]
    refine h.rest fd fun t' r hr hexcl hr' => ?_
    by_cases ht : t' = t
    · subst ht
      obtain rfl := Option.some.inj (hrun.symm.trans hr)
      exact hnone ⟨hexcl, hon.trans hr'⟩
    · exact hnobody t' r ht hr hexcl hr'
  · rw [hviews fd]
    exact h.free fd ((congrArg View.kernel (hviews fd)).symm.trans hfree)

/-- A query of the file system, or a failed open. -/
theorem Solvent.op_quiet (h : Solvent s) {o : Op} {k : o.Res → Code Int} {r : o.Res}
    (hrun : s.threads t = some run) (hcode : run.code = .call o k) (hon : run'.on = run.on)
    (hcall : run'.call = run.call) (hcode' : run'.code = k r)
    (hpost : ∀ x, paying.post o x r x) :
    Solvent { s with threads := s.setThread t (some run') } := by
  refine h.unchanged hrun hcall hon (fun _ => rfl) fun hexcl => ?_
  have hpays := h.running t run hrun hexcl
  rw [hcode] at hpays
  rw [hcode', hon]
  exact hpays.2 r _ (hpost _)

/-- The kernel hands out a descriptor for which nothing is owed. -/
theorem Solvent.op_realOpen (h : Solvent s) {path : Path} {flags : Nat}
    {k : Option Int → Code Int} (hrun : s.threads t = some run)
    (hcode : run.code = .call (.realOpen path flags) k) (hoff : run.on = none)
    (hfree : s.world.kernel fd = none)
    (hw : w = { s.world with
      kernel := s.world.kernel.set fd s.world.nextIncarnation
      nextIncarnation := s.world.nextIncarnation + 1 }) :
    Solvent { s with
      world := w
      threads := s.setThread t
        (some (run.resume s.world (.realOpen path flags) (some fd) (k (some fd)))) } := by
  have hdebts : ∀ fd, (w.view fd).debt = (s.world.view fd).debt := fun _ => by rw [hw]; rfl
  refine h.moved rfl (fun _ _ fd' _ _ _ _ => hdebts fd') (fun hexcl => ?_)
    (fun fd' _ hnobody => ?_) fun fd' hnone => ?_
  · have hpays := h.running t run hrun hexcl
    rw [hcode, hoff] at hpays
    exact hpays.2 (some fd) _ ⟨_, rfl, (congrArg Debt.owed (hdebts fd)).trans (h.free fd hfree)⟩
  · rw [hdebts]
    refine h.rest fd' fun t' r hr hexcl hon => ?_
    by_cases ht : t' = t
    · subst ht
      obtain rfl := Option.some.inj (hrun.symm.trans hr)
      cases hoff.symm.trans hon
    · exact hnobody t' r ht hr hexcl hon
  · rw [hdebts]
    refine h.free fd' ?_
    rw [hw] at hnone
    by_cases hne : fd' = fd
    · exact hne ▸ hfree
    · simpa [hne] using hnone

/-- While close requests are sent, every client can pay what it owes. -/
theorem Solvent.step [Fintype τ] {e : Event τ} (h : Solvent s) (hok : Ok cfg s) (hheld : Held s)
    (hsends : sendsCloses s e = true) (hs : Step cfg discipline s e s') : Solvent s' := by
  cases hs with
  | @call t c hidle hcall =>
      have hother : ∀ {t' r}, s.threads t' = some r → t' ≠ t := by
        rintro t' r hr rfl
        cases hidle.symm.trans hr
      refine ⟨fun t' r hr hexcl => ?_, fun fd hnone => h.rest fd fun t' r hr => ?_, h.free⟩
      · by_cases ht : t' = t
        · subst ht
          simp only [State.begin, setThread_self, Option.some.injEq] at hr
          subst hr
          cases c with
          | openFile path flags => exact openWrapper_pays path flags
          | read fd count | pread fd count offset => cases hexcl
          | close fd =>
              refine wp_mono (fun _ x hx => ?_) (closeWrapper_pays (h.rest fd fun t₁ r₁ hr₁ hexcl₁ hon₁ => ?_))
              · rw [hx]
                rintro _ ⟨⟩
              · exact hheld.exclusive t₁ fd ⟨r₁, hr₁, hon₁, hexcl₁⟩ (of_decide_eq_true hcall).1
        · simp only [State.begin, setThread_of_ne s _ ht] at hr
          exact h.running t' r hr hexcl
      · exact hnone t' r (by simpa [State.begin, hother hr] using hr)
  | @ret t run v hrun hcode =>
      refine ⟨fun t' r hr hexcl => ?_, fun fd hnone => ?_, h.free⟩
      · by_cases ht : t' = t
        · subst ht
          simp [State.finish] at hr
        · simp only [State.finish, setThread_of_ne s _ ht] at hr
          exact h.running t' r hr hexcl
      · by_cases hmine : run.call.exclusive = true ∧ run.on = some fd
        · have hpays := h.running t run hrun hmine.1
          rw [hcode, hmine.2] at hpays
          exact hpays _ rfl
        · refine h.rest fd fun t' r hr hexcl hon => ?_
          have ht : t' ≠ t := by
            rintro rfl
            obtain rfl := Option.some.inj (hrun.symm.trans hr)
            exact hmine ⟨hexcl, hon⟩
          exact hnone t' r (by simpa [State.finish, ht] using hr) hexcl hon
  | @op t a run o k r w hrun hcode hact =>
      have hrunning := hok.running t run hrun
      cases hfd : o.fd with
      | some fd =>
          cases hexcl : run.call.exclusive with
          | true => exact h.op_on hok hheld hrun hcode hfd hact hexcl hsends
          | false =>
              obtain ⟨hon, hallowed⟩ := hrunning.allowed hcode hfd
              obtain ⟨hans, hview⟩ := act_view hact hfd (hrunning.current fd hon)
              rw [hexcl] at hallowed
              have hopen : o.closes = false := by
                cases o with
                | realClose fd => cases hallowed.2.1
                | _ => rfl
              refine h.unchanged hrun rfl ?_ (fun fd' => ?_) (fun h' => by cases hexcl.symm.trans h')
              · simp [Running.resume, Op.onAfter_of_fd hfd, hopen]
              · by_cases hne : fd' = fd
                · subst hne
                  exact hview.trans (hallowed.view_unchanged hans)
                · exact act_view_frame hact hfd hne
      | none =>
          cases o with
          | canonical path | currentPath =>
              obtain rfl : w = s.world := act_query hact rfl (by rintro _ _ ⟨⟩)
              exact h.op_quiet hrun hcode rfl rfl rfl fun _ => rfl
          | realOpen path flags =>
              obtain ⟨_, hoff, _⟩ := hrunning.before_open hcode
              rcases act_realOpen hact with ⟨rfl, rfl⟩ | ⟨fd, rfl, _, hfree, hw⟩
              · exact h.op_quiet hrun hcode hoff.symm rfl rfl fun _ => rfl
              · exact h.op_realOpen hrun hcode hoff hfree hw
          | _ => cases hfd

end Solvent

end MtHvac.Client
