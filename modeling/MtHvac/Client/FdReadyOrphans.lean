-- SUMMARY: Waiting in vain: what becomes of a wait whose object was taken out of the map before it got ready.
import MtHvac.Client.FdReadySafety

/-!
# Waiting in vain

A close, or another open of the same descriptor, takes the object of an open that is
in progress out of the map. Its callback then finds no object, or another one.
-/

namespace MtHvac.Client.FdReady

open Base

variable {τ : Type} [DecidableEq τ] {s s' : State τ}

/-! ## Objects that nobody will set -/

omit [DecidableEq τ] in
/-- The object is out of the map before it got ready, and no call in progress sets its state
or puts it into the map. -/
structure Orphaned (s : State τ) (a : Nat) : Prop where
  opening : (s.statuses a).state = .opening
  entries : ∀ fd, s.fdStateMap fd ≠ some a
  calls : ∀ t run, s.threads t = some run → run.status = some a →
    run.call.sets = none ∧ run.pc ≠ .store

omit [DecidableEq τ] in
theorem Orphaned.keep {a : Nat} (h : Orphaned s a)
    (hstate : (s'.statuses a).state = (s.statuses a).state)
    (hentries : ∀ fd, s'.fdStateMap fd = some a → s.fdStateMap fd = some a)
    (hcalls : ∀ t run', s'.threads t = some run' → run'.status = some a →
      ∃ run, s.threads t = some run ∧ run.status = some a ∧ run'.call = run.call ∧
        (run'.pc = run.pc ∨ run'.pc ≠ .store)) : Orphaned s' a := by
  refine ⟨hstate.trans h.opening, fun fd hfd => h.entries fd (hentries fd hfd), ?_⟩
  intro t run' hrun' ha
  obtain ⟨run, hrun, hstatus, hcall, hpc⟩ := hcalls t run' hrun' ha
  obtain ⟨hsets, hstore⟩ := h.calls t run hrun hstatus
  refine ⟨hcall ▸ hsets, ?_⟩
  rcases hpc with hpc | hpc
  · rwa [hpc]
  · exact hpc

theorem Orphaned.step {a : Nat} {e : Event τ} (h : Orphaned s a)
    (halive : 0 < s.counts a) (hs : Step s e s') : Orphaned s' a := by
  -- a step of the thread `t` that leaves the map alone
  have hmove : ∀ {t : τ} {run : Running} {r : Option Running}, s.threads t = some run →
      s'.threads = Function.update s.threads t r → s'.fdStateMap = s.fdStateMap →
      (s'.statuses a).state = (s.statuses a).state →
      (∀ run', r = some run' → run'.status = some a →
        run.status = some a ∧ run'.call = run.call ∧ run'.pc ≠ .store) → Orphaned s' a := by
    intro t run r hrun hthreads hmap hstate hr
    refine h.keep hstate (fun fd hfd => hmap ▸ hfd) fun t' run' hrun' ha => ?_
    rw [hthreads] at hrun'
    by_cases ht : t' = t
    · subst ht
      rw [Function.update_self] at hrun'
      obtain ⟨hstatus, hcall, hpc⟩ := hr run' hrun' ha
      exact ⟨run, hrun, hstatus, hcall, .inr hpc⟩
    · rw [Function.update_of_ne ht] at hrun'
      exact ⟨run', hrun', ha, rfl, .inl rfl⟩
  have hmoved : ∀ {t : τ} {run : Running} {b : Nat} {pc pc' : Pc} {x : FdStatus τ},
      s.At t run b pc → s.moved t run b x pc' = s' → x.state = (s.statuses b).state →
      pc' ≠ .store → Orphaned s' a := by
    rintro t run b pc pc' x hat rfl hx hpc
    refine hmove hat.thread rfl rfl ?_ ?_
    · by_cases hba : a = b
      · subst hba
        exact (congrArg FdStatus.state (statuses_self ..)).trans hx
      · exact congrArg FdStatus.state (statuses_of_ne hba)
    · rintro run' ⟨⟩ ha
      exact ⟨ha, rfl, hpc⟩
  have hgoto : ∀ {t : τ} {run : Running} {b : Nat} {pc : Pc} {run' : Running},
      s.At t run b pc → s.setThread t (some run') = s' → run'.status = run.status →
      run'.call = run.call → run'.pc ≠ .store → Orphaned s' a := by
    rintro t run b pc run' hat rfl hstatus hcall hpc
    refine hmove hat.thread rfl rfl rfl ?_
    rintro _ ⟨⟩ ha
    exact ⟨hstatus ▸ ha, hcall, hpc⟩
  cases hs with
  | @call t c fd hidle =>
      refine h.keep rfl (fun _ => id) fun t' run' hrun' ha => ?_
      by_cases ht : t' = t
      · subst ht
        obtain rfl := Option.some.inj ((threads_self ..).symm.trans hrun')
        cases ha
      · exact ⟨run', (threads_of_ne ht).symm.trans hrun', ha, rfl, .inl rfl⟩
  | @makeShared t run b hrun _ hdead =>
      have hba : a ≠ b := by
        rintro rfl
        omega
      refine hmove hrun rfl rfl (congrArg FdStatus.state (statuses_of_ne hba)) ?_
      rintro _ ⟨⟩ ha
      exact absurd (Option.some.inj ha).symm hba
  | @cleanup t run hrun _ _ =>
      refine h.keep rfl (fun fd hfd => (Table.erase_eq_some.mp hfd).2) fun t' run' hrun' ha => ?_
      by_cases ht : t' = t
      · subst ht
        cases (threads_self ..).symm.trans hrun'
      · exact ⟨run', (threads_of_ne ht).symm.trans hrun', ha, rfl, .inl rfl⟩
  | missing hrun _ _ _ => exact hmove hrun rfl rfl rfl nofun
  | @found t run b hrun _ _ hentry =>
      refine hmove hrun rfl rfl rfl ?_
      rintro _ ⟨⟩ ha
      exact absurd (Option.some.inj ha ▸ hentry) (h.entries run.fd)
  | @store t run b hat =>
      have hba : b ≠ a := by
        rintro rfl
        exact (h.calls t run hat.thread hat.status).2 hat.pc
      refine h.keep rfl (fun fd hfd => ?_) fun t' run' hrun' ha => ?_
      · by_cases heq : fd = run.fd
        · subst heq
          exact absurd (Option.some.inj ((Table.set_self ..).symm.trans hfd)) hba
        · exact (Table.set_of_ne _ _ heq).symm.trans hfd
      · by_cases ht : t' = t
        · subst ht
          obtain rfl := Option.some.inj ((threads_self ..).symm.trans hrun')
          exact ⟨run, hat.thread, ha, rfl, .inr nofun⟩
        · exact ⟨run', (threads_of_ne ht).symm.trans hrun', ha, rfl, .inl rfl⟩
  | @setState t run b state hat hstate =>
      have hba : a ≠ b := by
        rintro rfl
        cases hstate.symm.trans (h.calls t run hat.thread hat.status).1
      refine hmove hat.thread rfl rfl (congrArg FdStatus.state (statuses_of_ne hba)) ?_
      rintro _ ⟨⟩ ha
      exact ⟨ha, rfl, nofun⟩
  | lock hat _ => exact hmoved hat rfl rfl (by split <;> nofun)
  | reacquire hat hpc _ _ => exact hmoved hat rfl rfl (by split <;> nofun)
  | broadcast hat | wait hat _ | unlock hat _ _ | timeout hat _ | spurious hat =>
      exact hmoved hat rfl rfl nofun
  | decided hat _ _ | undecided hat _ | clock hat _ | opening hat _ | invalid hat =>
      exact hgoto hat rfl rfl rfl nofun
  | drop hat => exact hmove hat.thread rfl rfl rfl nofun
  | tick => exact h.keep rfl (fun _ => id) fun t run hrun ha => ⟨run, hrun, ha, rfl, .inl rfl⟩

/-! ## Calls and their answers -/

/-- What a step does to the calls in progress and to the answers. -/
inductive Turn (s s' : State τ) : Prop
  | begins {t : τ} {run : Running} (hidle : s.threads t = none)
      (hthreads : s'.threads = Function.update s.threads t (some run)) (hid : run.id = s.nextCall)
      (hnext : s'.nextCall = s.nextCall + 1) (hanswers : s'.answers = s.answers)
  | goesOn {t : τ} {run run' : Running} (hrun : s.threads t = some run)
      (hthreads : s'.threads = Function.update s.threads t (some run')) (hid : run'.id = run.id)
      (hnext : s'.nextCall = s.nextCall) (hanswers : s'.answers = s.answers)
  | ends {t : τ} {run : Running} {v : Option Answer} (hrun : s.threads t = some run)
      (hthreads : s'.threads = Function.update s.threads t none)
      (hnext : s'.nextCall = s.nextCall)
      (hanswers : s'.answers = Function.update s.answers run.id v)
  | rests (hthreads : s'.threads = s.threads) (hnext : s'.nextCall = s.nextCall)
      (hanswers : s'.answers = s.answers)

theorem Step.turn {e : Event τ} (h : Step s e s') : Turn s s' := by
  cases h with
  | call hidle => exact .begins hidle rfl rfl rfl rfl
  | makeShared hrun _ _ | found hrun _ _ _ => exact .goesOn hrun rfl rfl rfl rfl
  | cleanup hrun _ _ | missing hrun _ _ _ => exact .ends hrun rfl rfl rfl
  | drop hat => exact .ends hat.thread rfl rfl rfl
  | tick => exact .rests rfl rfl rfl
  | store hat | lock hat _ | setState hat _ | broadcast hat | decided hat _ _ | undecided hat _
  | clock hat _ | opening hat _ | wait hat _ | invalid hat | reacquire hat _ _ _ | unlock hat _ _
  | timeout hat _ | spurious hat => exact .goesOn hat.thread rfl rfl rfl rfl

omit [DecidableEq τ] in
/-- Calls in progress have different numbers, and no answers yet. -/
structure Numbered (s : State τ) : Prop where
  running : ∀ t run, s.threads t = some run → run.id < s.nextCall ∧ s.answers run.id = none
  unique : ∀ t t' run run', s.threads t = some run → s.threads t' = some run' →
    run.id = run'.id → t = t'
  answers : ∀ id, s.nextCall ≤ id → s.answers id = none

theorem Numbered.step (h : Numbered s) (hturn : Turn s s') : Numbered s' := by
  cases hturn with
  | rests hthreads hnext hanswers =>
      refine ⟨?_, ?_, ?_⟩
      · rw [hthreads, hnext, hanswers]
        exact h.running
      · rw [hthreads]
        exact h.unique
      · rw [hnext, hanswers]
        exact h.answers
  | @begins t run hidle hthreads hid hnext hanswers =>
      have hback : ∀ t' r, s'.threads t' = some r →
          t' = t ∧ r.id = s.nextCall ∨ t' ≠ t ∧ s.threads t' = some r := by
        intro t' r hr
        rw [hthreads] at hr
        by_cases ht : t' = t
        · subst ht
          rw [Function.update_self] at hr
          obtain rfl := Option.some.inj hr
          exact .inl ⟨rfl, hid⟩
        · exact .inr ⟨ht, (Function.update_of_ne ht _ _).symm.trans hr⟩
      refine ⟨fun t' r hr => ?_, fun t₁ t₂ r₁ r₂ hr₁ hr₂ heq => ?_, fun id hle => ?_⟩
      · rw [hnext, hanswers]
        rcases hback t' r hr with ⟨_, hnew⟩ | ⟨_, hr⟩
        · rw [hnew]
          exact ⟨Nat.lt_succ_self _, h.answers _ le_rfl⟩
        · obtain ⟨hlt, hnone⟩ := h.running t' r hr
          exact ⟨Nat.lt_succ_of_lt hlt, hnone⟩
      · rcases hback t₁ r₁ hr₁ with ⟨rfl, hnew₁⟩ | ⟨_, hr₁⟩ <;>
          rcases hback t₂ r₂ hr₂ with ⟨rfl, hnew₂⟩ | ⟨_, hr₂⟩
        · rfl
        · have hlt := (h.running t₂ r₂ hr₂).1
          omega
        · have hlt := (h.running t₁ r₁ hr₁).1
          omega
        · exact h.unique t₁ t₂ r₁ r₂ hr₁ hr₂ heq
      · rw [hanswers]
        exact h.answers id (by omega)
  | @goesOn t run run' hrun hthreads hid hnext hanswers =>
      have hback : ∀ t' r, s'.threads t' = some r →
          ∃ r₀, s.threads t' = some r₀ ∧ r₀.id = r.id := by
        intro t' r hr
        rw [hthreads] at hr
        by_cases ht : t' = t
        · subst ht
          rw [Function.update_self] at hr
          obtain rfl := Option.some.inj hr
          exact ⟨run, hrun, hid.symm⟩
        · exact ⟨r, (Function.update_of_ne ht _ _).symm.trans hr, rfl⟩
      refine ⟨fun t' r hr => ?_, fun t₁ t₂ r₁ r₂ hr₁ hr₂ heq => ?_, fun id hle => ?_⟩
      · obtain ⟨r₀, hr₀, hsame⟩ := hback t' r hr
        rw [hnext, hanswers, ← hsame]
        exact h.running t' r₀ hr₀
      · obtain ⟨q₁, hq₁, hsame₁⟩ := hback t₁ r₁ hr₁
        obtain ⟨q₂, hq₂, hsame₂⟩ := hback t₂ r₂ hr₂
        exact h.unique t₁ t₂ q₁ q₂ hq₁ hq₂ (hsame₁.trans (heq.trans hsame₂.symm))
      · rw [hanswers]
        exact h.answers id (hnext ▸ hle)
  | @ends t run v hrun hthreads hnext hanswers =>
      have hback : ∀ t' r, s'.threads t' = some r → t' ≠ t ∧ s.threads t' = some r := by
        intro t' r hr
        rw [hthreads] at hr
        by_cases ht : t' = t
        · subst ht
          cases (Function.update_self ..).symm.trans hr
        · exact ⟨ht, (Function.update_of_ne ht _ _).symm.trans hr⟩
      have hlt := (h.running t run hrun).1
      refine ⟨fun t' r hr => ?_, fun t₁ t₂ r₁ r₂ hr₁ hr₂ => ?_, fun id hle => ?_⟩
      · obtain ⟨ht, hr⟩ := hback t' r hr
        have hne : r.id ≠ run.id := fun heq => ht (h.unique t' t r run hr hrun heq)
        rw [hnext, hanswers, Function.update_of_ne hne]
        exact h.running t' r hr
      · exact h.unique t₁ t₂ r₁ r₂ (hback t₁ r₁ hr₁).2 (hback t₂ r₂ hr₂).2
      · rw [hanswers, Function.update_of_ne (by omega)]
        exact h.answers id (hnext ▸ hle)

omit [DecidableEq τ] in
theorem numbered_init : Numbered (init τ) where
  running _ _ h := by cases h
  unique _ _ _ _ h := by cases h
  answers _ _ := rfl

theorem numbered_invariant : (machine τ).Invariant Numbered where
  init := numbered_init
  step _ h hs := h.step (step_cases hs).turn

/-! ## A wait in vain -/

/-- A wait has its pointer, and has not computed its deadline. -/
def Pc.untimed : Pc → Bool
  | .lock | .firstTest | .clock => true
  | _                           => false

omit [DecidableEq τ] in
/-- How far a call is that waits for an orphaned object and will not answer before
`deadline`: it has none yet, it has one, or it is about to answer. `early` says that it
had none in the beginning. -/
inductive Vain (s : State τ) (run : Running) (a : Nat) (deadline : Int) (early : Prop) : Prop
  | untimed {timeoutMs : Int} (hearly : early) (horphan : Orphaned s a)
      (hpc : run.pc.untimed = true) (hcall : run.call = .hvacWaitFdReady timeoutMs)
      (hlate : deadline ≤ s.clock + timeoutMs * 1000000)
  | timed (horphan : Orphaned s a) (hpc : run.pc.timed = true)
      (hlate : deadline ≤ run.timeoutTs.nanoseconds)
  | answers (hpc : run.pc = .drop (some false)) (hlate : deadline ≤ s.clock)

omit [DecidableEq τ] in
/-- The call `id` of the thread `t` waits for an orphaned object, has timed out, or has
answered so. -/
def InVain (s : State τ) (t : τ) (id a : Nat) (deadline : Int) (early : Prop) : Prop :=
  (∃ run, s.threads t = some run ∧ run.id = id ∧ run.status = some a ∧
    Vain s run a deadline early) ∨
  ∃ ans, s.answers id = some ans ∧ ans.value = false ∧ deadline ≤ ans.clock

theorem InVain.step {t : τ} {id a : Nat} {deadline : Int} {early : Prop} {e : Event τ}
    (h : InVain s t id a deadline early) (hi : Inv s) (hn : Numbered s) (hs : Step s e s') :
    InVain s' t id a deadline early := by
  rcases h with ⟨run, hrun, hid, ha, hvain⟩ | ⟨ans, hans, hfalse, hlate⟩
  · have halive := hi.alive hrun ha
    have hclock : s.clock ≤ s'.clock := by
      cases hs with
      | tick => exact Nat.le_add_right ..
      | _ => exact le_rfl
    -- another thread steps
    have hother : s'.threads t = some run → InVain s' t id a deadline early := by
      intro hrun'
      refine .inl ⟨run, hrun', hid, ha, ?_⟩
      cases hvain with
      | untimed hearly horphan hpc hcall hlate =>
          exact .untimed hearly (horphan.step halive hs) hpc hcall (by omega)
      | timed horphan hpc hlate => exact .timed (horphan.step halive hs) hpc hlate
      | answers hpc hlate => exact .answers hpc (by omega)
    have hframe : ∀ {t' : τ} {r : Option Running}, s'.threads = Function.update s.threads t' r →
        t' ≠ t → InVain s' t id a deadline early := by
      intro t' r hthreads ht
      refine hother ?_
      rw [hthreads, Function.update_of_ne (Ne.symm ht)]
      exact hrun
    have huntimed : run.pc.untimed = true → early ∧ Orphaned s' a ∧ ∃ timeoutMs,
        run.call = .hvacWaitFdReady timeoutMs ∧ deadline ≤ s.clock + timeoutMs * 1000000 := by
      intro hpc
      cases hvain with
      | untimed hearly horphan _ hcall hlate =>
          exact ⟨hearly, horphan.step halive hs, _, hcall, hlate⟩
      | timed _ hpc' _ => cases hrunpc : run.pc <;> simp [hrunpc, Pc.untimed, Pc.timed] at hpc hpc'
      | answers hpc' _ => simp [hpc', Pc.untimed] at hpc
    have htimed : run.pc.timed = true →
        Orphaned s' a ∧ deadline ≤ run.timeoutTs.nanoseconds := by
      intro hpc
      cases hvain with
      | untimed _ _ hpc' _ _ =>
          cases hrunpc : run.pc <;> simp [hrunpc, Pc.untimed, Pc.timed] at hpc hpc'
      | timed horphan _ hlate => exact ⟨horphan.step halive hs, hlate⟩
      | answers hpc' _ => simp [hpc', Pc.timed] at hpc
    -- what the thread itself does not do
    have hpcs : run.pc.untimed = true ∨ run.pc.timed = true ∨ run.pc = .drop (some false) := by
      cases hvain with
      | untimed _ _ hpc _ _ => exact .inl hpc
      | timed _ hpc _ => exact .inr (.inl hpc)
      | answers hpc _ => exact .inr (.inr hpc)
    -- what a step of the thread itself knows of its call
    have hself : ∀ {run' : Running} {a' : Nat} {pc : Pc}, s.At t run' a' pc →
        run' = run ∧ a' = a ∧ run.pc = pc := by
      intro run' a' pc hat
      obtain rfl := Option.some.inj (hat.thread.symm.trans hrun)
      exact ⟨rfl, Option.some.inj (hat.status.symm.trans ha), hat.pc⟩
    -- a thread that goes on, whichever it is
    have hgoto : ∀ {t' : τ} {run₀ run' : Running} {a' : Nat} {pc : Pc}, s.At t' run₀ a' pc →
        s'.threads = Function.update s.threads t' (some run') → run'.id = run₀.id →
        run'.status = run₀.status →
        (run₀ = run → a' = a → run.pc = pc → Vain s' run' a deadline early) →
        InVain s' t id a deadline early := by
      intro t' run₀ run' a' pc hat hthreads hid' hstatus hvain'
      by_cases ht : t' = t
      · subst ht
        obtain ⟨rfl, rfl, hpc⟩ := hself hat
        exact .inl ⟨run', by rw [hthreads, Function.update_self], hid'.trans hid,
          hstatus.trans ha, hvain' rfl rfl hpc⟩
      · exact hframe hthreads ht
    have hgoes : ∀ {t' : τ} {run₀ run' : Running} {a' : Nat} {pc : Pc}, s.At t' run₀ a' pc →
        s'.threads = Function.update s.threads t' (some run') → run'.id = run₀.id →
        run'.status = run₀.status → run'.timeoutTs = run₀.timeoutTs → pc.timed = true →
        run'.pc.timed = true → InVain s' t id a deadline early := by
      intro t' run₀ run' a' pc hat hthreads hid' hstatus htime hpc hpc'
      refine hgoto hat hthreads hid' hstatus ?_
      rintro rfl rfl hrunpc
      obtain ⟨horphan, hlate⟩ := htimed (by rw [hrunpc]; exact hpc)
      exact .timed horphan hpc' (htime ▸ hlate)
    have hnone : ∀ {t' : τ} {run' : Running}, s.threads t' = some run' → run'.status = none →
        t' ≠ t := by
      rintro t' run' hrun' hstatus rfl
      obtain rfl := Option.some.inj (hrun'.symm.trans hrun)
      cases hstatus.symm.trans ha
    cases hs with
    | @call t' c fd hidle =>
        refine hframe rfl ?_
        rintro rfl
        cases hidle.symm.trans hrun
    | @makeShared t' run' b hrun' hpc hdead =>
        exact hframe rfl (hnone hrun' ((hi.running t' run' hrun').pointer.mpr hpc))
    | cleanup hrun' hstatus _ | missing hrun' hstatus _ _ | found hrun' hstatus _ _ =>
        exact hframe rfl (hnone hrun' hstatus)
    | tick => exact hother hrun
    | @store t' run' b hat | @setState t' run' b _ hat _ | @broadcast t' run' b hat =>
        refine hframe rfl ?_
        rintro rfl
        obtain ⟨_, _, hpc⟩ := hself hat
        rw [hpc] at hpcs
        rcases hpcs with hpcs | hpcs | hpcs <;> cases hpcs
    | @decided t' run' b pc hat hpc hstate =>
        refine hframe rfl ?_
        rintro rfl
        obtain ⟨rfl, rfl, hpc'⟩ := hself hat
        refine hstate ?_
        cases hvain with
        | untimed _ horphan _ _ _ => exact horphan.opening
        | timed horphan _ _ => exact horphan.opening
        | answers hdrop _ =>
            rw [hpc'] at hdrop
            rcases hpc with rfl | rfl <;> cases hdrop
    | lock hat _ =>
        refine hgoto hat rfl rfl rfl ?_
        rintro rfl rfl hrunpc
        obtain ⟨hearly, horphan, _, hcall, hlate⟩ := huntimed (by rw [hrunpc]; rfl)
        exact .untimed hearly horphan (by rw [hcall]; rfl) hcall hlate
    | undecided hat _ =>
        refine hgoto hat rfl rfl rfl ?_
        rintro rfl rfl hrunpc
        obtain ⟨hearly, horphan, _, hcall, hlate⟩ := huntimed (by rw [hrunpc]; rfl)
        exact .untimed hearly horphan rfl hcall hlate
    | clock hat hcall' =>
        refine hgoto hat rfl rfl rfl ?_
        rintro rfl rfl hrunpc
        obtain ⟨_, horphan, _, hcall, hlate⟩ := huntimed (by rw [hrunpc]; rfl)
        obtain rfl := Call.hvacWaitFdReady.inj (hcall'.symm.trans hcall)
        exact .timed horphan rfl (by rwa [timeoutTs_nanoseconds])
    | opening hat _ | wait hat _ | invalid hat | timeout hat _ | spurious hat =>
        exact hgoes hat rfl rfl rfl rfl rfl rfl
    | reacquire hat hpc _ _ =>
        refine hgoes hat rfl rfl rfl rfl ?_ (by split <;> rfl)
        rcases hpc with rfl | rfl <;> rfl
    | @unlock t' run' b pc v hat hpc _ =>
        refine hgoto hat rfl rfl rfl ?_
        rintro rfl rfl hrunpc
        rcases hpc with rfl | ⟨rfl, rfl⟩
        · rw [hrunpc] at hpcs
          rcases hpcs with hpcs | hpcs | hpcs <;> cases hpcs
        · have hpast := (hi.running t' run' (hat.thread)).late (by rw [hrunpc]; rfl)
          obtain ⟨_, hlate⟩ := htimed (by rw [hrunpc]; rfl)
          exact .answers rfl (hlate.trans hpast)
    | @drop t' run' b v hat =>
        by_cases ht : t' = t
        · subst ht
          obtain ⟨rfl, rfl, hpc'⟩ := hself hat
          cases hvain with
          | untimed _ _ hpc _ _ => simp [hpc', Pc.untimed] at hpc
          | timed _ hpc _ => simp [hpc', Pc.timed] at hpc
          | answers hdrop hlate =>
              obtain rfl := Pc.drop.inj (hpc'.symm.trans hdrop)
              exact .inr ⟨⟨false, s.clock⟩, hid ▸ Function.update_self .., rfl, hlate⟩
        · exact hframe rfl ht
  · refine .inr ⟨ans, ?_, hfalse, hlate⟩
    cases hs.turn with
    | begins _ _ _ _ hanswers | goesOn _ _ _ _ hanswers | rests _ _ hanswers =>
        rw [hanswers]
        exact hans
    | @ends t' run' v hrun' _ _ hanswers =>
        rw [hanswers, Function.update_of_ne, hans]
        rintro rfl
        cases hans.symm.trans (hn.running t' run' hrun').2

theorem InVain.runFrom {es : List (Event τ)} {t : τ} {id a : Nat} {deadline : Int} {early : Prop}
    (h : InVain s t id a deadline early) (hreach : (machine τ).Reachable s)
    (hes : (machine τ).runFrom s es = some s') : InVain s' t id a deadline early := by
  induction es generalizing s with
  | nil => exact Option.some.inj hes ▸ h
  | cons e es ih =>
      obtain ⟨s₁, he, hrest⟩ := Option.bind_eq_some_iff.mp hes
      exact ih (h.step (inv_invariant.reachable hreach) (numbered_invariant.reachable hreach)
        (step_cases he)) (hreach.step he) hrest

/-- A wait for an object that a close or another open took out of the map before it got ready
is never woken up to go on: whatever is done afterwards, it answers that the descriptor is not
ready, and only after its time-out. A wait that has no deadline yet counts its time-out from
a later moment. -/
theorem orphans_time_out {es : List (Event τ)} {t : τ} {run : Running} {a : Nat} {timeoutMs : Int}
    (h : (machine τ).Reachable s) (hrun : s.threads t = some run) (ha : run.status = some a)
    (hcall : run.call = .hvacWaitFdReady timeoutMs)
    (hpc : run.pc.untimed = true ∨ run.pc.timed = true) (horphan : Orphaned s a)
    (hes : (machine τ).runFrom s es = some s') :
    (∃ run', s'.threads t = some run' ∧ run'.id = run.id ∧
      (run.pc.untimed = true ∧ run'.pc.untimed = true ∨ run'.pc.timed = true ∨
        run'.pc = .drop (some false))) ∨
    ∃ ans, s'.answers run.id = some ans ∧ ans.value = false ∧
      (if run.pc.timed = true then (run.started : Int) else s.clock) + timeoutMs * 1000000 ≤
        ans.clock := by
  have hvain : Vain s run a
      ((if run.pc.timed = true then (run.started : Int) else s.clock) + timeoutMs * 1000000)
      (run.pc.untimed = true) := by
    by_cases htimed : run.pc.timed = true
    · obtain ⟨timeoutMs', hcall', htime⟩ :=
        ((inv_invariant.reachable h).running t run hrun).waits htimed
      obtain rfl := Call.hvacWaitFdReady.inj (hcall'.symm.trans hcall)
      refine .timed horphan htimed ?_
      rw [if_pos htimed, htime, timeoutTs_nanoseconds]
    · have huntimed := hpc.resolve_right htimed
      refine .untimed huntimed horphan huntimed hcall ?_
      rw [if_neg htimed]
  rcases InVain.runFrom (.inl ⟨run, hrun, rfl, ha, hvain⟩) h hes with
    ⟨run', hrun', hid, _, hphase⟩ | ⟨ans, hans, hfalse, hlate⟩
  · refine .inl ⟨run', hrun', hid, ?_⟩
    cases hphase with
    | untimed hearly _ hpc' _ _ => exact .inl ⟨hearly, hpc'⟩
    | timed _ hpc' _ => exact .inr (.inl hpc')
    | answers hpc' _ => exact .inr (.inr hpc')
  · exact .inr ⟨ans, hans, hfalse, hlate⟩

/-- The descriptor is opened again and gets ready. The read that waits since before times out. -/
def readyAgain : List (Event Bool) :=
  [.call false .hvacSetFdOpening 3, .makeShared false 200, .step false, .step false,
    .call false .hvacSetFdReady 3] ++ List.replicate 6 (.step false) ++
  [.tick 5000000000, .timeout true, .step true, .step true, .step true]

theorem orphans_time_out_ready_again :
    ∃ s s', (machine Bool).run closedWhileWaiting = some s ∧
      (machine Bool).runFrom s readyAgain = some s' ∧
      ((s'.fdStateMap 3).map fun a => (s'.statuses a).state) = some .ready ∧
      ∃ ans, s'.answers 1 = some ans ∧ ans.value = false ∧ 5000000000 ≤ ans.clock := by
  have hseen : ((machine Bool).run closedWhileWaiting).map (fun s =>
      ((s.statuses 100).state, (s.statuses 100).fd, (s.fdStateMap 3).isNone,
        (s.threads false).isNone, s.threads true)) =
      some (.opening, 3, true, true,
        some ⟨1, .hvacWaitFdReady 5000, 3, .blocked, some 100, ⟨5, 0⟩, 0⟩) := by
    decide +kernel
  have hafter : ((machine Bool).run (closedWhileWaiting ++ readyAgain)).map (fun s =>
      (((s.fdStateMap 3).map fun a => (s.statuses a).state), (s.threads true).isNone)) =
      some (some .ready, true) := by
    decide +kernel
  obtain ⟨s, hs, heq⟩ := Option.map_eq_some_iff.mp hseen
  simp only [Prod.mk.injEq, Option.isNone_iff_eq_none] at heq
  obtain ⟨hopening, hfd, hentry, hidle, hrun⟩ := heq
  obtain ⟨s', hs', heq'⟩ := Option.map_eq_some_iff.mp hafter
  simp only [Prod.mk.injEq, Option.isNone_iff_eq_none] at heq'
  have hreach := Machine.reachable_of_run hs
  have hes : (machine Bool).runFrom s readyAgain = some s' := by
    have hrun' := hs'
    rw [Machine.run, Machine.runFrom_append] at hrun'
    rw [Machine.run] at hs
    rwa [hs] at hrun'
  have horphan : Orphaned s 100 := by
    refine ⟨hopening, fun fd hmap => ?_, fun t run hthread ha => ?_⟩
    · have hmine := (inv_invariant.reachable hreach).entries fd 100 hmap
      rw [← hmine, hfd, hentry] at hmap
      cases hmap
    · cases t with
      | false => cases hidle.symm.trans hthread
      | true =>
          obtain rfl := Option.some.inj (hrun.symm.trans hthread)
          exact ⟨rfl, by rintro ⟨⟩⟩
  rcases orphans_time_out hreach hrun rfl rfl (.inr rfl) horphan hes with
    ⟨_, hrun', _⟩ | ⟨ans, hans, hfalse, hlate⟩
  · cases heq'.2.symm.trans hrun'
  · exact ⟨s, s', hs, hes, heq'.1, ans, hans, hfalse, by simpa [Pc.timed] using hlate⟩

end MtHvac.Client.FdReady
