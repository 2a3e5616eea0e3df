-- SUMMARY: Shared descriptor-state objects are safe: nobody uses a destroyed object, no wake-up is lost, and what a wait answers.
import MtHvac.Base.SharedPtr
import MtHvac.Client.FdReady

/-!
# Shared objects are safe

An object is alive while the map or a call has a pointer to it. A call that has its
mutex, or is blocked on its condition variable, has one.
-/

namespace MtHvac.Client.FdReady

open Base

/-! ## Invariants -/

inductive Ref (τ : Type) where
  | entry (fd : Int)
  | thread (t : τ)
deriving DecidableEq

/-- Where each shared pointer leads. -/
def State.holds {τ : Type} (s : State τ) : Ref τ → Option Nat
  | .entry fd => s.fdStateMap fd
  | .thread t => (s.threads t).bind (·.status)

/-- The call has the mutex of its object. -/
def Pc.locked : Pc → Bool
  | .setState | .broadcast | .firstTest | .clock | .test | .wait | .expired | .unlock _ => true
  | _ => false

/-- The call has computed its deadline. -/
def Pc.timed : Pc → Bool
  | .test | .wait | .blocked | .expiring | .expired => true
  | _ => false

/-- The call has waited until its deadline. -/
def Pc.late : Pc → Bool
  | .expiring | .expired => true
  | _ => false

section Invariants

variable {τ : Type}

/-- What is so of the call of one thread. -/
structure RunOk (s : State τ) (t : τ) (run : Running) : Prop where
  pointer : run.status = none ↔ run.pc = .enter
  fd : ∀ a, run.status = some a → (s.statuses a).fd = run.fd
  fresh : ∀ a, run.status = some a → run.pc = .store → s.counts a = 1
  owner : ∀ a, run.status = some a → run.pc.locked = true →
    (s.statuses a).monitor.owner = some t
  sets : run.pc = .setState ∨ run.pc = .broadcast → run.call.sets.isSome = true
  waits : run.pc.timed = true → ∃ timeoutMs, run.call = .hvacWaitFdReady timeoutMs ∧
    run.timeoutTs = FdReady.timeoutTs run.started timeoutMs
  opening : ∀ a, run.status = some a → run.pc = .wait → (s.statuses a).state = .opening
  answer : ∀ a v, run.status = some a → run.pc = .unlock (some v) →
    (v = true ↔ (s.statuses a).state = .ready)
  late : run.pc.late = true → run.timeoutTs.nanoseconds ≤ s.clock

structure Inv (s : State τ) : Prop where
  counted : Counted s.counts s.holds
  running : ∀ t run, s.threads t = some run → RunOk s t run
  entries : ∀ fd a, s.fdStateMap fd = some a → (s.statuses a).fd = fd
  owned : ∀ a t, (s.statuses a).monitor.owner = some t →
    ∃ run, s.threads t = some run ∧ run.status = some a ∧ run.pc.locked = true
  blocked : ∀ a t, (s.statuses a).monitor.waiting t = true →
    ∃ run, s.threads t = some run ∧ run.status = some a ∧ run.pc = .blocked
  awake : ∀ a t, (s.statuses a).monitor.waiting t = true → (s.statuses a).state = .opening ∨
    ∃ t' run, s.threads t' = some run ∧ run.status = some a ∧ run.pc = .broadcast

theorem inv_init : Inv (init τ) where
  counted := by
    have hnowhere : (init τ).holds = fun _ => none := by
      funext r
      cases r <;> rfl
    rw [hnowhere]
    exact .nowhere
  running := nofun
  entries := nofun
  owned := nofun
  blocked := nofun
  awake := nofun

variable {s s' : State τ}

/-- What a call keeps when its own object and its count are left alone. -/
theorem RunOk.frame {t : τ} {run : Running} (h : RunOk s t run)
    (hfd : ∀ a, run.status = some a → (s'.statuses a).fd = (s.statuses a).fd)
    (hcounts : ∀ a, run.status = some a → run.pc = .store → s'.counts a = s.counts a)
    (howner : ∀ a, run.status = some a → (s.statuses a).monitor.owner = some t →
      (s'.statuses a).monitor.owner = some t ∧ (s'.statuses a).state = (s.statuses a).state)
    (hclock : s.clock ≤ s'.clock) : RunOk s' t run where
  pointer := h.pointer
  fd a ha := (hfd a ha).trans (h.fd a ha)
  fresh a ha hpc := (hcounts a ha hpc).trans (h.fresh a ha hpc)
  owner a ha hpc := (howner a ha (h.owner a ha hpc)).1
  sets := h.sets
  waits := h.waits
  opening a ha hpc := by
    rw [(howner a ha (h.owner a ha (by rw [hpc]; rfl))).2]
    exact h.opening a ha hpc
  answer a v ha hpc := by
    rw [(howner a ha (h.owner a ha (by rw [hpc]; rfl))).2]
    exact h.answer a v ha hpc
  late hpc := (h.late hpc).trans (by exact_mod_cast hclock)

variable [DecidableEq τ]

/-! ## Steps on one object -/

/-- What the step of a thread may do to its object: nothing that the owner of the mutex
would notice, and nobody but the thread itself gets to wait. -/
structure Allowed (t : τ) (pc pc' : Pc) (x x' : FdStatus τ) : Prop where
  fd : x'.fd = x.fd
  others : ∀ t', t' ≠ t → (x'.monitor.owner = some t' ↔ x.monitor.owner = some t')
  own : x'.monitor.owner = some t ↔ pc'.locked = true
  state : x'.state = x.state ∨ x.monitor.owner = some t
  waiting : ∀ t', t' ≠ t → x'.monitor.waiting t' = true → x.monitor.waiting t' = true
  blocked : x'.monitor.waiting t = true → pc' = .blocked
  awake : ∀ t', x'.monitor.waiting t' = true → x'.state = .opening ∨ pc' = .broadcast ∨
    x.monitor.waiting t' = true ∧ x'.state = x.state ∧ pc ≠ .broadcast

@[simp] theorem threads_self (s : State τ) (t : τ) (r : Option Running) :
    (s.setThread t r).threads t = r := Function.update_self ..

@[simp] theorem threads_of_ne {s : State τ} {t t' : τ} {r : Option Running} (h : t' ≠ t) :
    (s.setThread t r).threads t' = s.threads t' := Function.update_of_ne h _ _

omit [DecidableEq τ] in
@[simp] theorem statuses_self (s : State τ) (a : Nat) (x : FdStatus τ) :
    (s.setStatus a x).statuses a = x := Function.update_self ..

omit [DecidableEq τ] in
@[simp] theorem statuses_of_ne {s : State τ} {a b : Nat} {x : FdStatus τ} (h : b ≠ a) :
    (s.setStatus a x).statuses b = s.statuses b := Function.update_of_ne h _ _

omit [DecidableEq τ] in
theorem holds_eq (hmap : s'.fdStateMap = s.fdStateMap) (hthreads : s'.threads = s.threads) :
    s'.holds = s.holds := by
  funext ref
  cases ref <;> simp [State.holds, hmap, hthreads]

/-- The pointers after a step of `t` that leaves the map alone. -/
theorem holds_update (s : State τ) {t : τ} {r : Option Running}
    (hmap : s'.fdStateMap = s.fdStateMap) (hthreads : s'.threads = Function.update s.threads t r) :
    s'.holds = Function.update s.holds (.thread t) (r.bind (·.status)) := by
  funext ref
  cases ref with
  | entry fd => simp [State.holds, hmap]
  | thread t' =>
      by_cases ht : t' = t
      · subst ht
        simp [State.holds, hthreads]
      · simp [State.holds, hthreads, ht]

/-- A step of `t` that leaves its pointer alone too. -/
theorem holds_kept (s : State τ) {t : τ} {r : Option Running} (hmap : s'.fdStateMap = s.fdStateMap)
    (hthreads : s'.threads = Function.update s.threads t r)
    (hr : r.bind (·.status) = (s.threads t).bind (·.status)) : s'.holds = s.holds := by
  have hself : s.holds (.thread t) = (s.threads t).bind (·.status) := rfl
  rw [holds_update s hmap hthreads, hr, ← hself, Function.update_eq_self]

/-- A call that goes on with its pointer. -/
theorem Inv.move {t : τ} {run run' : Running} {a : Nat} {x : FdStatus τ} (h : Inv s)
    (hrun : s.threads t = some run) (ha : run.status = some a) (ha' : run'.status = some a)
    (hok : RunOk ((s.setStatus a x).setThread t (some run')) t run')
    (hx : Allowed t run.pc run'.pc (s.statuses a) x) :
    Inv ((s.setStatus a x).setThread t (some run')) := by
  have hsame : ∀ {b}, b ≠ a →
      ((s.setStatus a x).setThread t (some run')).statuses b = s.statuses b := statuses_of_ne
  have hown : ((s.setStatus a x).setThread t (some run')).statuses a = x := statuses_self s a x
  have hthread : ∀ {t' r}, t' ≠ t → s.threads t' = some r →
      ((s.setStatus a x).setThread t (some run')).threads t' = some r := by
    intro t' r ht hr
    rwa [threads_of_ne ht]
  -- a call with another object is not the one that moved
  have hother : ∀ {t' r b}, b ≠ a → s.threads t' = some r → r.status = some b → t' ≠ t := by
    rintro t' r b hb hr hrb rfl
    obtain rfl := Option.some.inj (hr.symm.trans hrun)
    exact hb (Option.some.inj (hrb.symm.trans ha))
  refine ⟨?_, fun t' r hr => ?_, fun fd b hb => ?_, fun b t' hb => ?_, fun b t' hb => ?_,
    fun b t' hb => ?_⟩
  · have hkept : ((s.setStatus a x).setThread t (some run')).holds = s.holds :=
      holds_kept s rfl rfl (by simp [hrun, ha, ha'])
    rw [hkept]
    exact h.counted
  · by_cases ht : t' = t
    · subst ht
      obtain rfl := Option.some.inj ((threads_self ..).symm.trans hr)
      exact hok
    · rw [threads_of_ne ht] at hr
      refine (h.running t' r hr).frame (fun b _ => ?_) (fun _ _ _ => rfl) (fun b _ hb => ?_) le_rfl
      · by_cases hba : b = a
        · rw [hba, hown, hx.fd]
        · rw [hsame hba]
      · by_cases hba : b = a
        · subst hba
          rw [hown]
          refine ⟨(hx.others t' ht).mpr hb, hx.state.resolve_right fun hmine => ?_⟩
          exact ht (Option.some.inj (hb.symm.trans hmine))
        · rw [hsame hba]
          exact ⟨hb, rfl⟩
  · by_cases hba : b = a
    · rw [hba, hown, hx.fd]
      exact h.entries fd a (hba ▸ hb)
    · rw [hsame hba]
      exact h.entries fd b hb
  · by_cases hba : b = a
    · subst hba
      rw [hown] at hb
      by_cases ht : t' = t
      · subst ht
        exact ⟨run', threads_self .., ha', hx.own.mp hb⟩
      · obtain ⟨r, hr, hrb, hlocked⟩ := h.owned b t' ((hx.others t' ht).mp hb)
        exact ⟨r, hthread ht hr, hrb, hlocked⟩
    · rw [hsame hba] at hb
      obtain ⟨r, hr, hrb, hlocked⟩ := h.owned b t' hb
      exact ⟨r, hthread (hother hba hr hrb) hr, hrb, hlocked⟩
  · by_cases hba : b = a
    · subst hba
      rw [hown] at hb
      by_cases ht : t' = t
      · subst ht
        exact ⟨run', threads_self .., ha', hx.blocked hb⟩
      · obtain ⟨r, hr, hrb, hpc⟩ := h.blocked b t' (hx.waiting t' ht hb)
        exact ⟨r, hthread ht hr, hrb, hpc⟩
    · rw [hsame hba] at hb
      obtain ⟨r, hr, hrb, hpc⟩ := h.blocked b t' hb
      exact ⟨r, hthread (hother hba hr hrb) hr, hrb, hpc⟩
  · by_cases hba : b = a
    · subst hba
      rw [hown] at hb ⊢
      rcases hx.awake t' hb with hopening | hpc | ⟨hwaits, hstate, hpc⟩
      · exact .inl hopening
      · exact .inr ⟨t, run', threads_self .., ha', hpc⟩
      · rw [hstate]
        refine (h.awake b t' hwaits).imp_right ?_
        rintro ⟨t'', r, hr, hrb, hbroadcast⟩
        refine ⟨t'', r, hthread ?_ hr, hrb, hbroadcast⟩
        rintro rfl
        obtain rfl := Option.some.inj (hr.symm.trans hrun)
        exact hpc hbroadcast
    · rw [hsame hba] at hb ⊢
      refine (h.awake b t' hb).imp_right ?_
      rintro ⟨t'', r, hr, hrb, hbroadcast⟩
      exact ⟨t'', r, hthread (hother hba hr hrb) hr, hrb, hbroadcast⟩

/-! ## Steps on pointers -/

omit [DecidableEq τ] in
/-- A new object has one pointer. -/
theorem Inv.fresh_only (h : Inv s) {t : τ} {run : Running} {a : Nat}
    (hrun : s.threads t = some run) (ha : run.status = some a) (hpc : run.pc = .store)
    {r : Ref τ} (hr : s.holds r = some a) : r = .thread t :=
  h.counted.only ((h.running t run hrun).fresh a ha hpc)
    (show s.holds (.thread t) = some a by simp [State.holds, hrun, ha]) hr

omit [DecidableEq τ] in
/-- A new object is not in the map. -/
theorem Inv.fresh_entry (h : Inv s) {t : τ} {run : Running} {a : Nat}
    (hrun : s.threads t = some run) (ha : run.status = some a) (hpc : run.pc = .store) (fd : Int) :
    s.fdStateMap fd ≠ some a := by
  intro hentry
  have hholds : s.holds (.entry fd) = some a := hentry
  cases h.fresh_only hrun ha hpc hholds

omit [DecidableEq τ] in
theorem dropEntry_counts {fd : Int} {a : Nat} (h : s.fdStateMap fd ≠ some a) :
    (s.dropEntry fd).counts a = s.counts a := by
  cases hentry : s.fdStateMap fd with
  | none => simp [State.dropEntry, hentry]
  | some b =>
      have hne : a ≠ b := by
        rintro rfl
        exact h hentry
      simp [State.dropEntry, State.dropRef, hentry, hne]

theorem Inv.counted_dropEntry (h : Inv s) (fd : Int) :
    Counted (s.dropEntry fd).counts (Function.update s.holds (.entry fd) none) := by
  cases hentry : s.fdStateMap fd with
  | none =>
      have hself : s.holds (.entry fd) = none := hentry
      rw [← hself, Function.update_eq_self]
      simpa [State.dropEntry, hentry] using h.counted
  | some a =>
      have hrelease := h.counted.release (show s.holds (.entry fd) = some a from hentry)
      simpa [State.dropEntry, State.dropRef, hentry] using hrelease

theorem Inv.counted_store (h : Inv s) {t : τ} {run : Running} {a : Nat}
    (hat : s.At t run a .store) : Counted ((s.copyRef a).dropEntry run.fd).counts
      (Function.update s.holds (.entry run.fd) (some a)) := by
  cases hentry : s.fdStateMap run.fd with
  | none =>
      have hfree : s.holds (.entry run.fd) = none := hentry
      have hcopy : Counted (Function.update s.counts a (s.counts a + 1)) _ := h.counted.copy hfree
      simpa [State.dropEntry, State.copyRef, hentry] using hcopy
  | some b =>
      have hne : b ≠ a := by
        rintro rfl
        exact h.fresh_entry hat.thread hat.status hat.pc run.fd hentry
      have hassign := h.counted.assign (show s.holds (.entry run.fd) = some b from hentry) hne
      simpa [State.dropEntry, State.dropRef, State.copyRef, hentry, hne] using hassign

omit [DecidableEq τ] in
theorem Inv.alive (h : Inv s) {t : τ} {run : Running} {a : Nat} (hrun : s.threads t = some run)
    (ha : run.status = some a) : 0 < s.counts a :=
  h.counted.pos (show s.holds (.thread t) = some a by simp [State.holds, hrun, ha])

/-- A call that begins or ends, or gets or gives up its pointer, without the mutex. -/
theorem Inv.point {t : τ} {r : Option Running} {holds : Ref τ → Option Nat} (h : Inv s)
    (hidle : ∀ run, s.threads t = some run → run.pc.locked = false ∧ run.pc ≠ .blocked)
    (hstatuses : s'.statuses = s.statuses) (hthreads : s'.threads = Function.update s.threads t r)
    (hclock : s'.clock = s.clock) (hholds : s'.holds = holds) (hcounted : Counted s'.counts holds)
    (hfresh : ∀ t' run a, t' ≠ t → s.threads t' = some run → run.status = some a →
      run.pc = .store → s'.counts a = s.counts a)
    (hentries : ∀ fd a, s'.fdStateMap fd = some a → (s.statuses a).fd = fd)
    (hok : ∀ run, r = some run → RunOk s' t run) : Inv s' := by
  -- who has a mutex, waits or broadcasts is not the thread that steps
  have hother : ∀ {t' run}, s.threads t' = some run → run.pc.locked = true ∨ run.pc = .blocked →
      s'.threads t' = some run := by
    intro t' run hrun hpc
    have ht : t' ≠ t := by
      rintro rfl
      obtain ⟨hfree, hnot⟩ := hidle run hrun
      rcases hpc with hpc | hpc
      · cases hfree.symm.trans hpc
      · exact hnot hpc
    rw [hthreads, Function.update_of_ne ht]
    exact hrun
  refine ⟨hholds ▸ hcounted, fun t' run hrun => ?_, fun fd a ha => ?_, fun a t' ha => ?_,
    fun a t' ha => ?_, fun a t' ha => ?_⟩
  · rw [hthreads] at hrun
    by_cases ht : t' = t
    · subst ht
      rw [Function.update_self] at hrun
      exact hok run hrun
    · rw [Function.update_of_ne ht] at hrun
      refine (h.running t' run hrun).frame (fun a _ => by rw [hstatuses])
        (fun a ha hpc => hfresh t' run a ht hrun ha hpc) (fun a _ hown => ?_) hclock.ge
      rw [hstatuses]
      exact ⟨hown, rfl⟩
  · rw [hstatuses]
    exact hentries fd a ha
  · rw [hstatuses] at ha
    obtain ⟨run, hrun, hstatus, hlocked⟩ := h.owned a t' ha
    exact ⟨run, hother hrun (.inl hlocked), hstatus, hlocked⟩
  · rw [hstatuses] at ha
    obtain ⟨run, hrun, hstatus, hpc⟩ := h.blocked a t' ha
    exact ⟨run, hother hrun (.inr hpc), hstatus, hpc⟩
  · rw [hstatuses] at ha ⊢
    refine (h.awake a t' ha).imp_right ?_
    rintro ⟨t'', run, hrun, hstatus, hpc⟩
    exact ⟨t'', run, hother hrun (.inl (by rw [hpc]; rfl)), hstatus, hpc⟩

omit [DecidableEq τ] in
/-- Nobody sees what is built in dead memory. -/
theorem Inv.build (h : Inv s) {a : Nat} (hdead : s.counts a = 0) (fd : Int) :
    Inv (s.setStatus a (.make fd)) := by
  have hne : ∀ {t run b}, s.threads t = some run → run.status = some b → b ≠ a := by
    rintro t run b hrun hb rfl
    exact absurd (h.alive hrun hb) (by omega)
  have hentry : ∀ {fd' b}, s.fdStateMap fd' = some b → b ≠ a := by
    rintro fd' b hb rfl
    have hpos := h.counted.pos (show s.holds (.entry fd') = some b from hb)
    omega
  have hquiet : ∀ {b t}, ((s.setStatus a (.make fd)).statuses b).monitor.waiting t = true →
      b ≠ a := by
    rintro b t hb rfl
    rw [statuses_self] at hb
    cases hb
  have hholds : (s.setStatus a (.make fd)).holds = s.holds := holds_eq rfl rfl
  refine ⟨?_, fun t run hrun => ?_, fun fd' b hb => ?_, fun b t hb => ?_, fun b t hb => ?_,
    fun b t hb => ?_⟩
  · rw [hholds]
    exact h.counted
  · refine (h.running t run hrun).frame (fun b hb => ?_) (fun _ _ _ => rfl) (fun b hb hown => ?_)
      le_rfl
    · rw [statuses_of_ne (hne hrun hb)]
    · rw [statuses_of_ne (hne hrun hb)]
      exact ⟨hown, rfl⟩
  · rw [statuses_of_ne (hentry hb)]
    exact h.entries fd' b hb
  · have hba : b ≠ a := by
      rintro rfl
      rw [statuses_self] at hb
      cases hb
    rw [statuses_of_ne hba] at hb
    exact h.owned b t hb
  · have hba := hquiet hb
    rw [statuses_of_ne hba] at hb
    exact h.blocked b t hb
  · have hba := hquiet hb
    rw [statuses_of_ne hba] at hb ⊢
    exact h.awake b t hb

omit [DecidableEq τ] in
theorem Inv.tick (h : Inv s) (d : Nat) : Inv { s with clock := s.clock + d } := by
  have hholds : State.holds { s with clock := s.clock + d } = s.holds := holds_eq rfl rfl
  refine ⟨?_, fun t run hrun => ?_, h.entries, h.owned, h.blocked, h.awake⟩
  · rw [hholds]
    exact h.counted
  · exact (h.running t run hrun).frame (fun _ _ => rfl) (fun _ _ _ => rfl)
      (fun _ _ hown => ⟨hown, rfl⟩) (Nat.le_add_right ..)

/-! ## Every step -/

omit [DecidableEq τ] in
theorem Inv.not_waiting (h : Inv s) {t : τ} {run : Running} {a : Nat} {pc : Pc}
    (hat : s.At t run a pc) (hpc : pc ≠ .blocked) :
    (s.statuses a).monitor.waiting t = false := by
  rw [Bool.eq_false_iff]
  intro hwaits
  obtain ⟨run', hrun', _, hblocked⟩ := h.blocked a t hwaits
  obtain rfl := Option.some.inj (hrun'.symm.trans hat.thread)
  exact hpc (hat.pc.symm.trans hblocked)

omit [DecidableEq τ] in
theorem Inv.not_owner (h : Inv s) {t : τ} {run : Running} {a : Nat} {pc : Pc}
    (hat : s.At t run a pc) (hpc : pc.locked = false) : (s.statuses a).monitor.owner ≠ some t := by
  intro hown
  obtain ⟨run', hrun', _, hlocked⟩ := h.owned a t hown
  obtain rfl := Option.some.inj (hrun'.symm.trans hat.thread)
  cases hpc.symm.trans (hat.pc ▸ hlocked)

/-- A call that goes on to `pc`: what must be so there. -/
theorem RunOk.goto {t : τ} {run : Running} {a : Nat} {x : FdStatus τ} {pc : Pc}
    (h : RunOk s t run) (ha : run.status = some a) (hfd : x.fd = (s.statuses a).fd)
    (hpc : pc ≠ .enter ∧ pc ≠ .store) (howner : pc.locked = true → x.monitor.owner = some t)
    (hsets : pc = .setState ∨ pc = .broadcast → run.call.sets.isSome = true)
    (htimed : pc.timed = true → run.pc.timed = true)
    (hopening : pc = .wait → x.state = .opening)
    (hanswer : ∀ v, pc = .unlock (some v) → (v = true ↔ x.state = .ready))
    (hlate : pc.late = true → run.timeoutTs.nanoseconds ≤ s.clock) :
    RunOk (s.moved t run a x pc) t { run with pc := pc } := by
  have hx : (s.moved t run a x pc).statuses a = x := statuses_self s a x
  refine ⟨?_, fun b hb => ?_, fun b _ hstore => absurd hstore hpc.2, fun b hb hlocked => ?_, hsets,
    fun htime => h.waits (htimed htime), fun b hb hwait => ?_, fun b v hb hunlock => ?_, hlate⟩
  · rw [ha]
    exact ⟨nofun, fun henter => absurd henter hpc.1⟩
  all_goals obtain rfl := Option.some.inj (ha.symm.trans hb)
  · rw [hx, hfd]
    exact h.fd a ha
  · rw [hx]
    exact howner hlocked
  · rw [hx]
    exact hopening hwait
  · rw [hx]
    exact hanswer v hunlock

omit [DecidableEq τ] in
/-- A thread that has the mutex leaves the object as it is. -/
theorem Allowed.refl {t : τ} {pc pc' : Pc} {x : FdStatus τ} (hown : x.monitor.owner = some t)
    (hpc : pc ≠ .broadcast) (hpc' : pc'.locked = true) (hwaits : x.monitor.waiting t = false) :
    Allowed t pc pc' x x where
  fd := rfl
  others _ _ := Iff.rfl
  own := iff_of_true hown hpc'
  state := .inl rfl
  waiting _ _ := id
  blocked hw := by cases hwaits.symm.trans hw
  awake _ hw := .inr (.inr ⟨hw, rfl, hpc⟩)

omit [DecidableEq τ] in
/-- A thread takes the mutex when nobody has it. -/
theorem Allowed.lock {t : τ} {pc pc' : Pc} {x : FdStatus τ} (hfree : x.monitor.owner = none)
    (hpc : pc ≠ .broadcast) (hpc' : pc'.locked = true) (hwaits : x.monitor.waiting t = false) :
    Allowed t pc pc' x { x with monitor := { x.monitor with owner := some t } } where
  fd := rfl
  others t' ht := by simp [hfree, Ne.symm ht]
  own := iff_of_true rfl hpc'
  state := .inl rfl
  waiting _ _ := id
  blocked hw := by cases hwaits.symm.trans hw
  awake _ hw := .inr (.inr ⟨hw, rfl, hpc⟩)

omit [DecidableEq τ] in
theorem Allowed.unlock {t : τ} {pc pc' : Pc} {x : FdStatus τ} (hown : x.monitor.owner = some t)
    (hpc : pc ≠ .broadcast) (hpc' : pc'.locked = false) (hwaits : x.monitor.waiting t = false) :
    Allowed t pc pc' x { x with monitor := { x.monitor with owner := none } } where
  fd := rfl
  others t' ht := by simp [hown, Ne.symm ht]
  own := by simp [hpc']
  state := .inl rfl
  waiting _ _ := id
  blocked hw := by cases hwaits.symm.trans hw
  awake _ hw := .inr (.inr ⟨hw, rfl, hpc⟩)

/-- A time-out or a spurious wake-up. -/
theorem Allowed.wake {t : τ} {pc pc' : Pc} {x : FdStatus τ} (hown : x.monitor.owner ≠ some t)
    (hpc : pc ≠ .broadcast) (hpc' : pc'.locked = false) :
    Allowed t pc pc' x { x with monitor := x.monitor.wake t } where
  fd := rfl
  others _ _ := Iff.rfl
  own := by simp [hpc', hown]
  state := .inl rfl
  waiting t' ht hw := by simpa [Monitor.wake, ht] using hw
  blocked hw := by simp at hw
  awake t' hw := by
    refine .inr (.inr ⟨?_, rfl, hpc⟩)
    by_cases ht : t' = t
    · subst ht
      simp at hw
    · simpa [Monitor.wake, ht] using hw

theorem Inv.moved (h : Inv s) {t : τ} {run : Running} {a : Nat} {pc pc' : Pc} {x : FdStatus τ}
    (hat : s.At t run a pc) (hok : RunOk (s.moved t run a x pc') t { run with pc := pc' })
    (hx : Allowed t pc pc' (s.statuses a) x) : Inv (s.moved t run a x pc') :=
  h.move hat.thread hat.status hat.status hok (by rw [hat.pc]; exact hx)

omit [DecidableEq τ] in
theorem setStatus_self (s : State τ) (a : Nat) : s.setStatus a (s.statuses a) = s := by
  rw [State.setStatus, Function.update_eq_self]

/-- A step of a thread that has the mutex and does not change the object. -/
theorem Inv.stay (h : Inv s) {t : τ} {run : Running} {a : Nat} {pc pc' : Pc}
    (hat : s.At t run a pc) (hlocked : pc.locked = true) (hpc : pc ≠ .broadcast)
    (hpc' : pc'.locked = true)
    (hsets : ¬ (pc' = .setState ∨ pc' = .broadcast)) (hlate : pc'.late = false)
    (htimed : pc'.timed = true → pc.timed = true)
    (hopening : pc' = .wait → (s.statuses a).state = .opening)
    (hanswer : ∀ v, pc' = .unlock (some v) → (v = true ↔ (s.statuses a).state = .ready)) :
    Inv (s.setThread t (some { run with pc := pc' })) := by
  have hok := h.running t run hat.thread
  have hown := hok.owner a hat.status (hat.pc ▸ hlocked)
  have hwaits := h.not_waiting hat (by rintro rfl; cases hlocked)
  have hreal : pc' ≠ .enter ∧ pc' ≠ .store :=
    ⟨(by rintro rfl; cases hpc'), (by rintro rfl; cases hpc')⟩
  have hgoto : RunOk (s.moved t run a (s.statuses a) pc') t { run with pc := pc' } :=
    hok.goto hat.status rfl hreal (fun _ => hown)
      (fun hset => absurd hset hsets) (fun ht => hat.pc ▸ htimed ht) hopening hanswer
      (fun hl => by cases hlate.symm.trans hl)
  have hmoved := h.moved hat hgoto (.refl hown hpc hpc' hwaits)
  rwa [State.moved, setStatus_self] at hmoved

theorem holds_cleanup {t : τ} {run : Running} (hrun : s.threads t = some run)
    (hnone : run.status = none) :
    State.holds (State.finish
      { s.dropEntry run.fd with fdStateMap := s.fdStateMap.erase run.fd } t run.id none) =
    Function.update s.holds (.entry run.fd) none := by
  funext ref
  cases ref with
  | entry fd =>
      by_cases hfd : fd = run.fd
      · subst hfd
        simp [State.holds, State.finish, State.setThread]
      · simp [State.holds, State.finish, State.setThread, hfd]
  | thread t' =>
      by_cases ht : t' = t
      · subst ht
        simp [State.holds, State.finish, hrun, hnone]
      · simp [State.holds, State.finish, State.dropEntry, State.setThread, ht]

theorem holds_store {t : τ} {run : Running} {a : Nat} (hat : s.At t run a .store) :
    State.holds (State.setThread
      { (s.copyRef a).dropEntry run.fd with fdStateMap := s.fdStateMap.set run.fd a } t
      (some { run with pc := .drop none })) =
    Function.update s.holds (.entry run.fd) (some a) := by
  funext ref
  cases ref with
  | entry fd =>
      by_cases hfd : fd = run.fd
      · subst hfd
        simp [State.holds, State.setThread]
      · simp [State.holds, State.setThread, hfd]
  | thread t' =>
      by_cases ht : t' = t
      · subst ht
        simp [State.holds, hat.thread]
      · simp [State.holds, State.dropEntry, State.copyRef, State.setThread, ht]

theorem Inv.step {e : Event τ} (h : Inv s) (hs : (machine τ).step s e = some s') : Inv s' := by
  cases step_cases hs with
  | @call t c fd hidle =>
      refine h.point (fun run hrun => ?_) rfl rfl rfl (holds_kept s rfl rfl (by rw [hidle]; rfl))
        h.counted (fun _ _ _ _ _ _ _ => rfl) h.entries ?_
      · cases hidle.symm.trans hrun
      · rintro _ ⟨⟩
        exact ⟨iff_of_true rfl rfl, nofun, nofun, nofun, by simp, nofun, nofun, nofun, nofun⟩
  | @makeShared t run a hrun hpc hdead =>
      have hnone : run.status = none := (h.running t run hrun).pointer.mpr hpc
      have hnowhere : s.holds (.thread t) = none := by simp [State.holds, hrun, hnone]
      refine (h.build hdead run.fd).point (fun run' hrun' => ?_) rfl rfl rfl
        (holds_update s rfl rfl) (h.counted.copy hnowhere) (fun t' run' b _ hrun' hb hstore => ?_)
        (h.build hdead run.fd).entries ?_
      · obtain rfl := Option.some.inj (hrun'.symm.trans hrun)
        rw [hpc]
        exact ⟨rfl, nofun⟩
      · have hpos := h.alive hrun' hb
        have hne : b ≠ a := by
          rintro rfl
          omega
        exact Function.update_of_ne hne _ _
      · rintro _ ⟨⟩
        refine ⟨iff_of_false nofun nofun, ?_, ?_, nofun, by simp, nofun, nofun, nofun, nofun⟩
        · rintro b ⟨⟩
          exact congrArg FdStatus.fd (statuses_self ..)
        · rintro b ⟨⟩ _
          show Function.update s.counts a (s.counts a + 1) a = 1
          rw [Function.update_self, hdead]
  | @cleanup t run hrun hnone hcall =>
      have henter := (h.running t run hrun).pointer.mp hnone
      refine h.point (fun run' hrun' => ?_) rfl rfl rfl (holds_cleanup hrun hnone) ?_
        (fun t' run' b _ hrun' hb hstore => dropEntry_counts (h.fresh_entry hrun' hb hstore run.fd))
        (fun fd a ha => h.entries fd a (Table.erase_eq_some.mp ha).2) nofun
      · obtain rfl := Option.some.inj (hrun'.symm.trans hrun)
        rw [henter]
        exact ⟨rfl, nofun⟩
      · exact h.counted_dropEntry run.fd
  | @missing t run hrun hnone _ _ =>
      have henter := (h.running t run hrun).pointer.mp hnone
      refine h.point (fun run' hrun' => ?_) rfl rfl rfl
        (holds_kept s rfl rfl (by simp [hrun, hnone])) h.counted (fun _ _ _ _ _ _ _ => rfl)
        h.entries nofun
      obtain rfl := Option.some.inj (hrun'.symm.trans hrun)
      rw [henter]
      exact ⟨rfl, nofun⟩
  | @found t run a hrun hnone hcall hentry =>
      have henter := (h.running t run hrun).pointer.mp hnone
      have hnowhere : s.holds (.thread t) = none := by simp [State.holds, hrun, hnone]
      refine h.point (fun run' hrun' => ?_) rfl rfl rfl (holds_update s rfl rfl)
        (h.counted.copy hnowhere) (fun t' run' b _ hrun' hb hstore => ?_) h.entries ?_
      · obtain rfl := Option.some.inj (hrun'.symm.trans hrun)
        rw [henter]
        exact ⟨rfl, nofun⟩
      · have hne : b ≠ a := by
          rintro rfl
          exact h.fresh_entry hrun' hb hstore run.fd hentry
        exact Function.update_of_ne hne _ _
      · rintro _ ⟨⟩
        refine ⟨iff_of_false nofun nofun, ?_, nofun, nofun, by simp, nofun, nofun, nofun, nofun⟩
        rintro b ⟨⟩
        exact h.entries run.fd a hentry
  | @store t run a hat =>
      have hok := h.running t run hat.thread
      refine h.point (fun run' hrun' => ?_) rfl rfl rfl (holds_store hat) (h.counted_store hat)
        (fun t' run' b ht hrun' hb hstore => ?_) (fun fd b hb => ?_) ?_
      · obtain rfl := Option.some.inj (hrun'.symm.trans hat.thread)
        rw [hat.pc]
        exact ⟨rfl, nofun⟩
      · have hne : b ≠ a := by
          rintro rfl
          have hmine : s.holds (.thread t) = some b := by simp [State.holds, hat.thread, hat.status]
          cases h.fresh_only hrun' hb hstore hmine
          exact ht rfl
        have hcopy : (s.copyRef a).counts b = s.counts b := Function.update_of_ne hne _ _
        have hentry : (s.copyRef a).fdStateMap run.fd ≠ some b :=
          h.fresh_entry hrun' hb hstore run.fd
        exact (dropEntry_counts hentry).trans hcopy
      · by_cases hfd : fd = run.fd
        · subst hfd
          obtain rfl := Option.some.inj ((Table.set_self ..).symm.trans hb)
          exact hok.fd a hat.status
        · exact h.entries fd b ((Table.set_of_ne _ _ hfd).symm.trans hb)
      · rintro _ ⟨⟩
        refine ⟨?_, hok.fd, nofun, nofun, by simp, nofun, nofun, nofun, nofun⟩
        exact iff_of_false (by simp [hat.status]) nofun
  | @lock t run a hat hfree =>
      refine h.moved hat ?_ (.lock hfree nofun ?_ (h.not_waiting hat nofun))
      · refine (h.running t run hat.thread).goto hat.status rfl ?_ (fun _ => rfl) ?_ ?_ ?_ ?_ ?_
        all_goals split
        all_goals simp [Pc.timed, Pc.late, *]
      · split <;> rfl
  | @setState t run a state hat hstate =>
      have hok := h.running t run hat.thread
      have hown := hok.owner a hat.status (by rw [hat.pc]; rfl)
      have hwaits := h.not_waiting hat nofun
      refine h.moved hat ?_ ⟨rfl, fun _ _ => Iff.rfl, iff_of_true hown rfl, .inr hown,
        fun _ _ => id, fun hw => ?_, fun _ _ => .inr (.inl rfl)⟩
      · refine hok.goto hat.status rfl ⟨nofun, nofun⟩ (fun _ => hown) (fun _ => ?_) nofun nofun
          nofun nofun
        rw [hstate]
        rfl
      · cases hwaits.symm.trans hw
  | @broadcast t run a hat =>
      have hok := h.running t run hat.thread
      have hown := hok.owner a hat.status (by rw [hat.pc]; rfl)
      refine h.moved hat ?_ ⟨rfl, fun _ _ => Iff.rfl, iff_of_true hown rfl, .inl rfl, nofun, nofun,
        nofun⟩
      exact hok.goto hat.status rfl ⟨nofun, nofun⟩ (fun _ => hown) (by simp) nofun nofun
        nofun nofun
  | @decided t run a pc hat hpc hstate =>
      have hanswer : ∀ v, Pc.unlock (some ((s.statuses a).state = .ready)) = .unlock (some v) →
          (v = true ↔ (s.statuses a).state = .ready) := by
        rintro v ⟨⟩
        exact decide_eq_true_iff
      rcases hpc with rfl | rfl <;>
        exact h.stay hat rfl nofun rfl (by simp) rfl nofun nofun hanswer
  | @undecided t run a hat hstate =>
      exact h.stay hat rfl nofun rfl (by simp) rfl nofun nofun nofun
  | @clock t run a timeoutMs hat hcall =>
      have hok := h.running t run hat.thread
      have hown := hok.owner a hat.status (by rw [hat.pc]; rfl)
      have hwaits := h.not_waiting hat nofun
      have hmoved : Inv ((s.setStatus a (s.statuses a)).setThread t (some { run with
          pc := .test, timeoutTs := timeoutTs s.clock timeoutMs, started := s.clock })) := by
        refine h.move hat.thread hat.status hat.status ?_
          (by rw [hat.pc]; exact .refl hown nofun rfl hwaits)
        rw [setStatus_self]
        refine ⟨iff_of_false (by simp [hat.status]) nofun, hok.fd, nofun, fun b hb _ => ?_, by simp,
          fun _ => ⟨timeoutMs, hcall, rfl⟩, nofun, nofun, nofun⟩
        obtain rfl := Option.some.inj (hat.status.symm.trans hb)
        exact hown
      rwa [setStatus_self] at hmoved
  | @opening t run a hat hstate =>
      exact h.stay hat rfl nofun rfl (by simp) rfl (fun _ => rfl) (fun _ => hstate) nofun
  | @wait t run a hat hown =>
      have hok := h.running t run hat.thread
      have hopening := hok.opening a hat.status hat.pc
      refine h.moved hat (hok.goto hat.status rfl ⟨nofun, nofun⟩ nofun (by simp)
        (fun _ => by rw [hat.pc]; rfl) nofun nofun nofun)
        ⟨rfl, fun t' ht => ?_, iff_of_false nofun nofun, .inl rfl, fun t' ht hw => ?_, fun _ => rfl,
          fun t' hw => ?_⟩
      · simp [hown, Ne.symm ht]
      · simpa [ht] using hw
      · by_cases ht : t' = t
        · exact .inl hopening
        · exact .inr (.inr ⟨by simpa [ht] using hw, rfl, nofun⟩)
  | @invalid t run a hat =>
      exact h.stay hat rfl nofun rfl (by simp) rfl (fun _ => rfl) nofun nofun
  | @reacquire t run a pc hat hpc hfree hawake =>
      have hok := h.running t run hat.thread
      rcases hpc with rfl | rfl
      · exact h.moved hat (hok.goto hat.status rfl ⟨nofun, nofun⟩ (fun _ => rfl) (by simp)
          (fun _ => by rw [hat.pc]; rfl) nofun nofun nofun) (.lock hfree nofun rfl hawake)
      · exact h.moved hat (hok.goto hat.status rfl ⟨nofun, nofun⟩ (fun _ => rfl) (by simp)
          (fun _ => by rw [hat.pc]; rfl) nofun nofun (fun _ => hok.late (by rw [hat.pc]; rfl)))
          (.lock hfree nofun rfl hawake)
  | @unlock t run a pc v hat hpc hown =>
      have hok := h.running t run hat.thread
      have hne : pc ≠ .blocked ∧ pc ≠ .broadcast := by
        rcases hpc with rfl | ⟨rfl, _⟩ <;> exact ⟨nofun, nofun⟩
      exact h.moved hat
        (hok.goto hat.status rfl ⟨nofun, nofun⟩ nofun (by simp) nofun nofun nofun nofun)
        (.unlock hown hne.2 rfl (h.not_waiting hat hne.1))
  | @drop t run a v hat =>
      have hmine : s.holds (.thread t) = some a := by simp [State.holds, hat.thread, hat.status]
      refine h.point (fun run' hrun' => ?_) rfl rfl rfl (holds_update s rfl rfl)
        (h.counted.release hmine) (fun t' run' b ht hrun' hb hstore => ?_) h.entries nofun
      · obtain rfl := Option.some.inj (hrun'.symm.trans hat.thread)
        rw [hat.pc]
        exact ⟨rfl, nofun⟩
      · have hne : b ≠ a := by
          rintro rfl
          cases h.fresh_only hrun' hb hstore hmine
          exact ht rfl
        exact Function.update_of_ne hne _ _
  | @timeout t run a hat hlate =>
      have hok := h.running t run hat.thread
      exact h.moved hat (hok.goto hat.status rfl ⟨nofun, nofun⟩ nofun (by simp)
        (fun _ => by rw [hat.pc]; rfl) nofun nofun (fun _ => hlate))
        (.wake (h.not_owner hat rfl) nofun rfl)
  | @spurious t run a hat =>
      have hok := h.running t run hat.thread
      exact h.moved hat (hok.goto hat.status rfl ⟨nofun, nofun⟩ nofun (by simp)
        (fun _ => by rw [hat.pc]; rfl) nofun nofun nofun)
        (.wake (h.not_owner hat rfl) nofun rfl)
  | tick => exact h.tick _

theorem inv_invariant : (machine τ).Invariant Inv where
  init := inv_init
  step _ h hs := h.step hs

/-! ## Shared objects are safe -/

omit [DecidableEq τ] in
/-- What holds of the descriptor-state objects, however the calls are interleaved. -/
structure Safe (s : State τ) : Prop where
  /-- No entry and no call leads to a destroyed object, and no other object is left. -/
  alive : ∀ a, 0 < s.counts a ↔ ∃ r, s.holds r = some a
  /-- Whoever has the mutex of an object, or is blocked on it, keeps the object alive. -/
  used : ∀ a t, (s.statuses a).monitor.owner = some t ∨ (s.statuses a).monitor.waiting t = true →
    s.holds (.thread t) = some a
  own : ∀ t run a, s.threads t = some run → run.status = some a → (s.statuses a).fd = run.fd
  /-- Who is blocked without a wake-up has nothing to wake up for, or a broadcast is to come. -/
  awake : ∀ a t, (s.statuses a).monitor.waiting t = true → (s.statuses a).state = .opening ∨
    ∃ t' run, s.At t' run a .broadcast
  /-- A wait answers whether the descriptor is ready at the unlock, or it has timed out. -/
  answer : ∀ t run a v, s.At t run a (.unlock (some v)) → (v = true ↔ (s.statuses a).state = .ready)
  late : ∀ t run a, s.At t run a .expired → ∃ timeoutMs, run.call = .hvacWaitFdReady timeoutMs ∧
    run.started + timeoutMs * 1000000 ≤ s.clock
  /-- The deadline of a wait is one that `pthread_cond_timedwait` accepts. -/
  valid : ∀ t run a timeoutMs, s.At t run a .wait → run.call = .hvacWaitFdReady timeoutMs →
    0 ≤ timeoutMs → run.timeoutTs.Valid

/-- In every reachable state of any number of calls, the shared objects are safe. -/
theorem status_objects_safe (h : (machine τ).Reachable s) : Safe s := by
  have hi : Inv s := inv_invariant.reachable h
  refine ⟨fun a => ⟨hi.counted.holder, fun ⟨r, hr⟩ => hi.counted.pos hr⟩, fun a t hused => ?_,
    fun t run a hrun ha => (hi.running t run hrun).fd a ha, fun a t hw => ?_,
    fun t run a v hat => ?_, fun t run a hat => ?_, fun t run a timeoutMs hat hcall hle => ?_⟩
  · obtain ⟨run, hrun, ha⟩ : ∃ run, s.threads t = some run ∧ run.status = some a := by
      rcases hused with hown | hw
      · obtain ⟨run, hrun, ha, _⟩ := hi.owned a t hown
        exact ⟨run, hrun, ha⟩
      · obtain ⟨run, hrun, ha, _⟩ := hi.blocked a t hw
        exact ⟨run, hrun, ha⟩
    simp [State.holds, hrun, ha]
  · refine (hi.awake a t hw).imp_right ?_
    rintro ⟨t', run, hrun, ha, hpc⟩
    exact ⟨t', run, hrun, ha, hpc⟩
  · exact (hi.running t run hat.thread).answer a v hat.status hat.pc
  · have hok := hi.running t run hat.thread
    obtain ⟨timeoutMs, hcall, htime⟩ := hok.waits (by rw [hat.pc]; rfl)
    have hlate := hok.late (by rw [hat.pc]; rfl)
    rw [htime, timeoutTs_nanoseconds] at hlate
    exact ⟨timeoutMs, hcall, hlate⟩
  · obtain ⟨timeoutMs', hcall', htime⟩ :=
      (hi.running t run hat.thread).waits (by rw [hat.pc]; rfl)
    obtain rfl := Call.hvacWaitFdReady.inj (hcall'.symm.trans hcall)
    rw [htime]
    exact timeoutTs_valid run.started hle

/-- A descriptor is closed while a read waits for its open. -/
def closedWhileWaiting : List (Event Bool) :=
  [.call false .hvacSetFdOpening 3, .makeShared false 100, .step false, .step false,
    .call true (.hvacWaitFdReady 5000) 3] ++ List.replicate 6 (.step true) ++
  [.call false .hvacCleanupFdState 3, .step false]

theorem status_objects_safe_closed_while_waiting :
    ∃ s, (machine Bool).run closedWhileWaiting = some s ∧ s.fdStateMap 3 = none ∧
      s.counts 100 = 1 ∧ Safe s := by
  have hseen : ((machine Bool).run closedWhileWaiting).map (fun s =>
      ((s.fdStateMap 3).isNone, s.counts 100)) = some (true, 1) := by
    decide +kernel
  obtain ⟨s, hs, heq⟩ := Option.map_eq_some_iff.mp hseen
  simp only [Prod.mk.injEq, Option.isNone_iff_eq_none] at heq
  exact ⟨s, hs, heq.1, heq.2, status_objects_safe (Machine.reachable_of_run hs)⟩

end Invariants

end MtHvac.Client.FdReady
