-- SUMMARY: Calls end: a potential bounds the steps of a run by its calls and spurious wake-ups, and when no step is left all calls have returned.
import Mathlib.Algebra.BigOperators.Group.Finset.Piecewise
import Mathlib.Data.Fintype.EquivFin
import MtHvac.Base.Progress
import MtHvac.Client.Handshake

/-!
# Calls end

Callers and callbacks wait for each other's mutex, and callers for a flag. The work
left for a call is counted over what belongs to it: its thread, its request and its
callback. A wake-up for nothing costs another round through the mutex.
-/

namespace MtHvac.Client.SyncContext

open Base

/-! ## Work left -/

/-- Steps left for a caller at most, once its request is answered; `waiting` says that
no wake-up has reached it. -/
def CallerPc.work (waiting : Bool) : CallerPc → Nat
  | .malloc     => 21
  | .forward    => 20
  | .lock       => 8
  | .test       => 7
  | .wait       => 6
  | .blocked    => if waiting then 5 else 8
  | .readResult => 4
  | .unlock _   => 3
  | .free _     => 2
  | .ret _      => 1
  | .aborted    => 0

/-- Steps left for a callback; the broadcast sends the caller through the mutex again. -/
def CallbackPc.work : CallbackPc → Nat
  | .decode    => 10
  | .lock      => 9
  | .setDone   => 8
  | .setResult => 7
  | .broadcast => 6
  | .unlock    => 2
  | .free      => 1

theorem CallerPc.work_le (pc : CallerPc) (w w' : Bool) : pc.work w ≤ pc.work w' + 3 := by
  cases pc <;> cases w <;> cases w' <;> simp [CallerPc.work]

section Work

variable {τ : Type}

/-- No wake-up has reached the thread of the call. -/
def Part.waits (p : Part τ) : Bool :=
  match p.caller, p.context with
  | some (t, _), some (_, x) => x.monitor.waiting (.caller t)
  | _, _                     => false

def Part.work (p : Part τ) : Nat :=
  p.caller.elim 0 (fun r => r.2.pc.work p.waits) + p.request.elim 0 (fun _ => 11) +
    p.callback.elim 0 (·.pc.work)

variable {p : Part τ} {s : State τ} {i : Nat}

theorem Callback.filter_own (cb : Callback) : (some cb).filter (·.id = cb.id) = some cb := by
  rw [Option.filter_some]
  simp

theorem Part.Of.callback_eq (h : p.Of s i) : p.callback = s.callback.filter (·.id = i) := by
  refine Option.ext fun cb => ?_
  rw [← h.callback, Option.filter_eq_some_iff]
  simp

theorem Part.Of.caller_eq {p' : Part τ} {s' : State τ} (h : p'.Of s' i) (h₀ : p.Of s i)
    (hthreads : s'.threads = s.threads) : p'.caller = p.caller := by
  refine Option.ext fun ⟨t, c⟩ => ?_
  rw [← h.caller t c, ← h₀.caller t c, hthreads]

/-- The work of a call whose thread is known. -/
theorem Part.Of.work_caller (h : p.Of s i) (hp : Stage p) {t : τ} {c : Caller}
    (hc : s.threads t = some c) (hid : c.id = i) :
    p.work = c.pc.work ((s.contexts c.ctx).monitor.waiting (.caller t)) +
      (s.requests i).elim 0 (fun _ => 11) + (s.callback.filter (·.id = i)).elim 0 (·.pc.work) := by
  have hcaller := (h.caller t c).mp ⟨hc, hid⟩
  obtain ⟨x, hctx⟩ := hp.context hcaller
  have hx := ((h.context c.ctx x).mpr hctx).2
  simp only [Part.work, Part.waits, hcaller, hctx, hx, h.request, h.callback_eq, Option.elim_some]

/-- The work of a call that has no thread. -/
theorem Part.Of.work_gone (h : p.Of s i) (hc : p.caller = none) :
    p.work = (s.requests i).elim 0 (fun _ => 11) +
      (s.callback.filter (·.id = i)).elim 0 (·.pc.work) := by
  simp only [Part.work, hc, h.request, h.callback_eq, Option.elim_none, Nat.zero_add]

end Work

/-! ## Steps use up the work -/

section Steps

variable {τ : Type} [DecidableEq τ] {s s' : State τ}

omit [DecidableEq τ] in
theorem free_frame (s : State τ) (a : Nat) : (s.free a).threads = s.threads ∧
    (s.free a).requests = s.requests ∧ (s.free a).contexts = s.contexts := by
  simp only [State.free]
  split <;> exact ⟨rfl, rfl, rfl⟩

omit [DecidableEq τ] in
theorem setLog_returned {s : State τ} {i : Nat} {l : Log} (h : l.returned = (s.log i).returned)
    (j : Nat) : ((s.setLog i l).log j).returned = (s.log j).returned := by
  by_cases hj : j = i
  · subst hj
    simpa [State.setLog] using h
  · simp [State.setLog, hj]

omit [DecidableEq τ] in
theorem free_returned (s : State τ) (a j : Nat) :
    ((s.free a).log j).returned = (s.log j).returned := by
  simp only [State.free]
  split
  · exact setLog_returned (by rfl) j
  · rfl

/-- What a step of the caller `c` leaves alone, and that it uses up work. -/
structure CallerWorks (s s' : State τ) (t : τ) (c : Caller) : Prop where
  requests : s'.requests = s.requests
  callback : s'.callback = s.callback
  nextCall : s'.nextCall = s.nextCall
  others : ∀ t', t' ≠ t → s'.threads t' = s.threads t'
  returned : ∀ i, (s.log i).returned ≠ none → (s'.log i).returned ≠ none
  works : (0 < c.pc.work ((s.contexts c.ctx).monitor.waiting (.caller t)) ∧ s'.threads t = none ∧
      (s'.log c.id).returned ≠ none) ∨
    ∃ c', s'.threads t = some c' ∧ c'.id = c.id ∧
      c'.pc.work ((s'.contexts c'.ctx).monitor.waiting (.caller t)) <
        c.pc.work ((s.contexts c.ctx).monitor.waiting (.caller t))

theorem callerStep_works {t : τ} {c : Caller} (h : s.callerStep t c = some s') :
    CallerWorks s s' t c := by
  have hgoto : ∀ {s₁ : State τ} {pc : CallerPc}, s₁.setCaller t (some { c with pc := pc }) = s' →
      s₁.requests = s.requests → s₁.callback = s.callback → s₁.nextCall = s.nextCall →
      s₁.threads = s.threads → (∀ i, (s₁.log i).returned = (s.log i).returned) →
      pc.work ((s₁.contexts c.ctx).monitor.waiting (.caller t)) <
        c.pc.work ((s.contexts c.ctx).monitor.waiting (.caller t)) → CallerWorks s s' t c := by
    rintro s₁ pc rfl hrequests hcallback hnext hthreads hreturned hwork
    refine ⟨hrequests, hcallback, hnext, fun t' ht => ?_, fun i hi => ?_,
      .inr ⟨_, Function.update_self .., rfl, hwork⟩⟩
    · exact (Function.update_of_ne ht _ _).trans (congrFun hthreads t')
    · exact hreturned i ▸ hi
  cases hpc : c.pc with
  | malloc | forward | aborted => simp [State.callerStep, hpc] at h
  | lock =>
      simp only [State.callerStep, hpc, Option.map_eq_some_iff] at h
      obtain ⟨m, _, h⟩ := h
      exact hgoto h rfl rfl rfl rfl (fun _ => rfl) (by simp [hpc, CallerPc.work])
  | test =>
      simp only [State.callerStep, hpc, Option.some.injEq] at h
      exact hgoto h rfl rfl rfl rfl (fun _ => rfl) (by split <;> simp [hpc, CallerPc.work])
  | wait =>
      simp only [State.callerStep, hpc, Option.map_eq_some_iff, Monitor.condWait_eq_some] at h
      obtain ⟨m, ⟨_, rfl⟩, h⟩ := h
      exact hgoto h rfl rfl rfl rfl (fun _ => rfl) (by simp [hpc, CallerPc.work, State.setContext])
  | blocked =>
      simp only [State.callerStep, hpc, Option.map_eq_some_iff, Monitor.reacquire_eq_some] at h
      obtain ⟨m, ⟨⟨_, hawake⟩, rfl⟩, h⟩ := h
      exact hgoto h rfl rfl rfl rfl (fun _ => rfl) (by simp [hpc, CallerPc.work, hawake])
  | readResult =>
      simp only [State.callerStep, hpc, Option.some.injEq] at h
      exact hgoto h rfl rfl rfl rfl (fun _ => rfl) (by simp [hpc, CallerPc.work])
  | unlock v =>
      simp only [State.callerStep, hpc, Option.map_eq_some_iff] at h
      obtain ⟨m, _, h⟩ := h
      exact hgoto h rfl rfl rfl rfl (fun _ => rfl) (by split <;> simp [hpc, CallerPc.work])
  | free v =>
      simp only [State.callerStep, hpc, Option.some.injEq] at h
      obtain ⟨hthreads, hrequests, _⟩ := free_frame s c.record
      exact hgoto h hrequests (free_callback s _) (free_nextCall s _) hthreads
        (free_returned s _) (by simp [hpc, CallerPc.work])
  | ret v =>
      simp only [State.callerStep, hpc, Option.some.injEq] at h
      subst h
      refine ⟨rfl, rfl, rfl, fun t' ht => Function.update_of_ne ht _ _, fun i hi => ?_,
        .inl ⟨?_, Function.update_self .., ?_⟩⟩
      · by_cases hid : i = c.id
        · subst hid
          simp [State.setCaller, State.setLog]
        · simpa [State.setCaller, State.setLog, State.dropContext, hid] using hi
      · simp [hpc, CallerPc.work]
      · simp [State.setCaller, State.setLog]

/-- What a step of the callback `cb` leaves alone, and that it uses up work; only the
broadcast wakes its caller up. -/
structure CallbackWorks (s s' : State τ) (cb : Callback) : Prop where
  threads : s'.threads = s.threads
  requests : s'.requests = s.requests
  nextCall : s'.nextCall = s.nextCall
  own : ∀ d, s'.callback = some d → d.id = cb.id
  returned : ∀ i, (s'.log i).returned = (s.log i).returned
  works : ∃ woken, s'.callback.elim 0 (·.pc.work) + woken < cb.pc.work ∧ (woken = 3 ∨
    woken = 0 ∧ ∀ a, (s'.contexts a).monitor.waiting = (s.contexts a).monitor.waiting)

theorem callbackStep_works {cb : Callback} (h : s.callbackStep cb = some s') :
    CallbackWorks s s' cb := by
  have hkept : ∀ {a b : Nat} {x : Context τ}, x.monitor.waiting = (s.contexts a).monitor.waiting →
      ((s.setContext a x).contexts b).monitor.waiting = (s.contexts b).monitor.waiting := by
    intro a b x hx
    by_cases hb : b = a
    · subst hb
      simpa [State.setContext] using hx
    · simp [State.setContext, hb]
  have hgoto : ∀ {s₁ : State τ} {pc : CallbackPc}, s₁.setCallback (some { cb with pc := pc }) = s' →
      s₁.threads = s.threads → s₁.requests = s.requests → s₁.nextCall = s.nextCall →
      (∀ i, (s₁.log i).returned = (s.log i).returned) → (∃ woken, pc.work + woken < cb.pc.work ∧
        (woken = 3 ∨ woken = 0 ∧
          ∀ a, (s₁.contexts a).monitor.waiting = (s.contexts a).monitor.waiting)) →
      CallbackWorks s s' cb := by
    rintro s₁ pc rfl hthreads hrequests hnext hreturned hwork
    exact ⟨hthreads, hrequests, hnext, by rintro _ ⟨⟩; rfl, hreturned, hwork⟩
  cases hpc : cb.pc with
  | decode =>
      simp only [State.callbackStep, hpc, Option.some.injEq] at h
      exact hgoto h rfl rfl rfl (fun _ => rfl)
        ⟨0, by simp [hpc, CallbackPc.work], .inr ⟨rfl, fun _ => rfl⟩⟩
  | lock =>
      simp only [State.callbackStep, hpc, Option.map_eq_some_iff, Monitor.lock_eq_some] at h
      obtain ⟨m, ⟨_, rfl⟩, h⟩ := h
      exact hgoto h rfl rfl rfl (fun _ => rfl)
        ⟨0, by simp [hpc, CallbackPc.work], .inr ⟨rfl, fun _ => hkept rfl⟩⟩
  | setDone | setResult =>
      simp only [State.callbackStep, hpc, Option.some.injEq] at h
      exact hgoto h rfl rfl rfl (fun _ => rfl)
        ⟨0, by simp [hpc, CallbackPc.work], .inr ⟨rfl, fun _ => hkept rfl⟩⟩
  | broadcast =>
      simp only [State.callbackStep, hpc, Option.some.injEq] at h
      exact hgoto h rfl rfl rfl (fun _ => rfl) ⟨3, by simp [hpc, CallbackPc.work], .inl rfl⟩
  | unlock =>
      simp only [State.callbackStep, hpc, Option.map_eq_some_iff, Monitor.unlock_eq_some] at h
      obtain ⟨m, ⟨_, rfl⟩, h⟩ := h
      by_cases hread : cb.kind = .read
      · rw [if_pos hread] at h
        exact hgoto h rfl rfl rfl (fun _ => rfl)
          ⟨0, by simp [hpc, CallbackPc.work], .inr ⟨rfl, fun _ => hkept rfl⟩⟩
      · rw [if_neg hread] at h
        subst h
        refine ⟨rfl, rfl, rfl, by rintro _ ⟨⟩, fun _ => rfl, 0, ?_, .inr ⟨rfl, fun _ => hkept rfl⟩⟩
        simp [hpc, State.setCallback, CallbackPc.work]
  | free =>
      simp only [State.callbackStep, hpc, Option.some.injEq] at h
      subst h
      obtain ⟨hthreads, hrequests, hcontexts⟩ := free_frame s cb.arg
      refine ⟨hthreads, hrequests, free_nextCall s _, by rintro _ ⟨⟩, free_returned s _, 0, ?_,
        .inr ⟨rfl, fun a => ?_⟩⟩
      · simp [hpc, State.setCallback, CallbackPc.work]
      · show ((s.free cb.arg).contexts a).monitor.waiting = _
        rw [hcontexts]

end Steps

/-! ## The potential -/

section Potential

variable {τ : Type}

/-- The calls that have begun have the work `n` left. -/
def Pot (s : State τ) (n : Nat) : Prop :=
  ∃ P : Nat → Part τ, Divided P s ∧ (∀ i, Stage (P i)) ∧
    (∀ i, s.nextCall ≤ i → P i = .empty τ) ∧ s.invalidFree = false ∧
    ∑ i ∈ Finset.range s.nextCall, (P i).work = n

theorem pot_init : Pot (init τ) 0 := by
  refine ⟨fun _ => .empty τ, fun i => ?_, fun _ => .unborn, fun _ _ => rfl, rfl, rfl⟩
  constructor <;> simp [init, Part.empty, Owns]

/-- What a step adds to the work: a new call, or another round after a wake-up. -/
def Event.adds : Event τ → Nat
  | .call _ _ _ => 22
  | .spurious _ => 4
  | _           => 0

/-- A step of one call changes the work of this call only. -/
theorem Pot.advance {s s' : State τ} {P : Nat → Part τ} {i : Nat} {k : Nat}
    (hstages : ∀ j, Stage (P j)) (hnew : ∀ j, s.nextCall ≤ j → P j = .empty τ)
    (hfree : s.invalidFree = false) (hi : P i ≠ .empty τ) (h : Advances P i s s')
    (hwork : ∀ p, p.Of s' i → Stage p → p.work + 1 ≤ (P i).work + k) :
    ∃ n', Pot s' n' ∧ n' + 1 ≤ ∑ i ∈ Finset.range s.nextCall, (P i).work + k := by
  obtain ⟨p, hp, hstage, hnext, hinvalid⟩ := h
  have hlt : i < s.nextCall := by
    by_contra hle
    exact hi (hnew i (Nat.le_of_not_lt hle))
  have hsum : ∑ j ∈ Finset.range s.nextCall, (Function.update P i p j).work + (P i).work =
      ∑ j ∈ Finset.range s.nextCall, (P j).work + p.work := by
    rw [← Finset.add_sum_erase _ _ (Finset.mem_range.mpr hlt),
      ← Finset.add_sum_erase _ (fun j => (P j).work) (Finset.mem_range.mpr hlt),
      Function.update_self]
    have hrest : ∑ j ∈ (Finset.range s.nextCall).erase i, (Function.update P i p j).work =
        ∑ j ∈ (Finset.range s.nextCall).erase i, (P j).work := by
      refine Finset.sum_congr rfl fun j hj => ?_
      rw [Function.update_of_ne (Finset.ne_of_mem_erase hj)]
    rw [hrest]
    omega
  refine ⟨_, ⟨_, hp, fun j => ?_, fun j hj => ?_, hinvalid.trans hfree, rfl⟩, ?_⟩
  · by_cases hj : j = i
    · subst hj
      simpa using hstage
    · simpa [hj] using hstages j
  · rw [hnext] at hj
    rw [Function.update_of_ne (by omega)]
    exact hnew j hj
  · have hle := hwork p hp.own hstage
    rw [hnext]
    omega

variable [DecidableEq τ]

theorem potential : Machine.Potential (machine τ) (fun _ => 1) Event.adds Pot where
  step := by
    rintro s s' e n ⟨P, hP, hstages, hnew, hfree, rfl⟩ h
    have hat : ∀ i, DividedAt P i (P i) s := fun i => by
      rw [DividedAt, Function.update_eq_self]
      exact hP
    have hcallerOf : ∀ {t c}, s.threads t = some c → (P c.id).caller = some (t, c) :=
      fun {t c} hc => ((hP c.id).caller t c).mp ⟨hc, rfl⟩
    have hrunning : ∀ {t c}, s.threads t = some c → P c.id ≠ .empty τ := fun hc hempty => by
      have hcaller := hcallerOf hc
      rw [hempty] at hcaller
      cases hcaller
    cases e with
    | call t kind ctx =>
        obtain ⟨⟨hidle, hdead⟩, rfl⟩ := guarded_eq_some.mp h
        have hbegin := hat s.nextCall
        rw [hnew s.nextCall le_rfl] at hbegin
        let c : Caller := ⟨s.nextCall, kind, ctx, 0, .malloc⟩
        have hid : c.id = s.nextCall := rfl
        have hstart := ((hbegin.allocContext hdead).startCaller
          (Option.isNone_iff_eq_none.mp hidle) hid).setNextCall (s.nextCall + 1)
        refine ⟨_, ⟨_, hstart, fun j => ?_, fun j hj => ?_, hfree, rfl⟩, ?_⟩
        · by_cases hj : j = s.nextCall
          · subst hj
            rw [Function.update_self]
            exact @Stage.malloc _ t c rfl
          · simpa [hj] using hstages j
        · have hlater : s.nextCall < j := hj
          rw [Function.update_of_ne hlater.ne']
          exact hnew j hlater.le
        · rw [Finset.sum_range_succ, Function.update_self]
          have hrest : ∑ j ∈ Finset.range s.nextCall, (Function.update P s.nextCall
              ⟨some (t, c), none, none, some (ctx, .init), none, {}⟩ j).work =
              ∑ j ∈ Finset.range s.nextCall, (P j).work := by
            refine Finset.sum_congr rfl fun j hj => ?_
            rw [Function.update_of_ne (Finset.mem_range.mp hj).ne]
          rw [hrest]
          simp [Part.work, CallerPc.work, c, Event.adds]
    | malloc t record =>
        obtain ⟨c, hc, h⟩ := Option.bind_eq_some_iff.mp h
        obtain ⟨⟨hpc, hdead⟩, rfl⟩ := guarded_eq_some.mp h
        refine Pot.advance hstages hnew hfree (hrunning hc)
          (advances_malloc (hat c.id) (hstages c.id) (hcallerOf hc) hpc hdead) fun p hp hstage => ?_
        rw [(hP c.id).work_caller (hstages c.id) hc rfl,
          hp.work_caller hstage (Function.update_self ..) rfl, hpc]
        simp only [CallerPc.work, State.setCaller, State.allocRecord, Event.adds]
        omega
    | forward t ok =>
        obtain ⟨c, hc, h⟩ := Option.bind_eq_some_iff.mp h
        obtain ⟨hpc, rfl⟩ := guarded_eq_some.mp h
        refine Pot.advance hstages hnew hfree (hrunning hc)
          (advances_forward (hat c.id) (hstages c.id) (hcallerOf hc) hpc ok) fun p hp hstage => ?_
        rw [(hP c.id).work_caller (hstages c.id) hc rfl, hpc]
        cases ok with
        | true =>
            simp only [if_true] at hp
            rw [hp.work_caller hstage (Function.update_self ..) rfl]
            simp only [CallerPc.work, State.setCaller, State.setLog, State.setRequest,
              Function.update_self, Option.elim_some, Event.adds]
            omega
        | false =>
            simp only [Bool.false_eq_true, if_false] at hp
            rw [hp.work_caller hstage (Function.update_self ..) rfl]
            simp only [State.setCaller, Event.adds]
            split <;> simp only [CallerPc.work] <;> omega
    | caller t =>
        obtain ⟨c, hc, h⟩ := Option.bind_eq_some_iff.mp h
        refine Pot.advance hstages hnew hfree (hrunning hc)
          (advances_caller (hat c.id) (hstages c.id) (hcallerOf hc) h) fun p hp hstage => ?_
        obtain ⟨hrequests, hcallback, _, hothers, _, hworks⟩ := callerStep_works h
        rw [(hP c.id).work_caller (hstages c.id) hc rfl]
        rcases hworks with ⟨hlast, hgone, _⟩ | ⟨c', hc', hid, hlt⟩
        · have hnone : p.caller = none := by
            rw [Option.eq_none_iff_forall_ne_some]
            rintro ⟨t', d⟩ hd
            obtain ⟨hthread, hid⟩ := (hp.caller t' d).mpr hd
            by_cases ht : t' = t
            · subst ht
              cases hthread.symm.trans hgone
            · rw [hothers t' ht] at hthread
              have hsame := (((hP c.id).caller t' d).mp ⟨hthread, hid⟩).symm.trans (hcallerOf hc)
              exact ht (Prod.mk.inj (Option.some.inj hsame)).1
          rw [hp.work_gone hnone, hrequests, hcallback]
          simp only [Event.adds]
          omega
        · rw [hp.work_caller hstage hc' hid, hrequests, hcallback]
          simp only [Event.adds]
          omega
    | spurious t =>
        obtain ⟨c, hc, h⟩ := Option.bind_eq_some_iff.mp h
        obtain ⟨hpc, rfl⟩ := guarded_eq_some.mp h
        refine Pot.advance hstages hnew hfree (hrunning hc)
          (advances_spurious (hat c.id) (hstages c.id) (hcallerOf hc) hpc) fun p hp hstage => ?_
        rw [(hP c.id).work_caller (hstages c.id) hc rfl, hp.work_caller hstage hc rfl]
        have hle := c.pc.work_le false ((s.contexts c.ctx).monitor.waiting (.caller t))
        simp only [State.setContext, Function.update_self, Monitor.wake_waiting_self, Event.adds]
        omega
    | trigger i value =>
        obtain ⟨q, hq, h⟩ := Option.bind_eq_some_iff.mp h
        obtain ⟨hidle, rfl⟩ := guarded_eq_some.mp h
        have hrequest : (P i).request = some q := (hP i).request.symm.trans hq
        have hsent : P i ≠ .empty τ := fun hempty => by
          rw [hempty] at hrequest
          cases hrequest
        refine Pot.advance hstages hnew hfree hsent
          (advances_trigger (hat i) (hstages i) hrequest hidle value) fun p hp hstage => ?_
        have hcaller : p.caller = (P i).caller := hp.caller_eq (hP i) rfl
        have hstart := Callback.filter_own ⟨i, q.kind, q.arg, value, .decode⟩
        cases hc : (P i).caller with
        | none =>
            rw [hp.work_gone (hcaller.trans hc), (hP i).work_gone hc]
            simp only [State.setCallback, State.setLog, State.setRequest, hq, hidle, hstart,
              Function.update_self, Option.filter_none, Option.elim_none, Option.elim_some,
              CallbackPc.work, Event.adds]
            omega
        | some r =>
            obtain ⟨t, c⟩ := r
            obtain ⟨hthread, hid⟩ := ((hP i).caller t c).mpr hc
            rw [hp.work_caller hstage hthread hid, (hP i).work_caller (hstages i) hthread hid]
            simp only [State.setCallback, State.setLog, State.setRequest, hq, hidle, hstart,
              Function.update_self, Option.filter_none, Option.elim_none, Option.elim_some,
              CallbackPc.work, Event.adds]
            omega
    | callback =>
        obtain ⟨cb, hcb, h⟩ := Option.bind_eq_some_iff.mp h
        have hmine := ((hP cb.id).callback cb).mp ⟨hcb, rfl⟩
        have hrunning' : P cb.id ≠ .empty τ := fun hempty => by
          rw [hempty] at hmine
          cases hmine
        refine Pot.advance hstages hnew hfree hrunning'
          (advances_callback (hat cb.id) (hstages cb.id) hmine hcb h) fun p hp hstage => ?_
        obtain ⟨hthreads, hrequests, _, hown, _, woken, hlt, hwoken⟩ := callbackStep_works h
        have hcaller : p.caller = (P cb.id).caller := hp.caller_eq (hP cb.id) hthreads
        have hbefore : s.callback.filter (·.id = cb.id) = some cb := hcb ▸ cb.filter_own
        have hafter : s'.callback.filter (·.id = cb.id) = s'.callback := by
          cases hcb' : s'.callback with
          | none => rfl
          | some d => rw [← hown d hcb', d.filter_own]
        cases hc : (P cb.id).caller with
        | none =>
            rw [hp.work_gone (hcaller.trans hc), (hP cb.id).work_gone hc, hbefore, hafter,
              hrequests]
            simp only [Option.elim_some]
            omega
        | some r =>
            obtain ⟨t, c⟩ := r
            obtain ⟨hthread, hid⟩ := ((hP cb.id).caller t c).mpr hc
            have hthread' : s'.threads t = some c := by rw [hthreads, hthread]
            rw [hp.work_caller hstage hthread' hid,
              (hP cb.id).work_caller (hstages cb.id) hthread hid, hbefore, hafter, hrequests]
            simp only [Option.elim_some]
            rcases hwoken with rfl | ⟨rfl, hsame⟩
            · have hle := c.pc.work_le ((s'.contexts c.ctx).monitor.waiting (.caller t))
                ((s.contexts c.ctx).monitor.waiting (.caller t))
              omega
            · rw [hsame]
              omega

end Potential

/-! ## What a run keeps -/

section Keeps

variable {τ : Type}

/-- Each call that has begun is in progress, or has returned. -/
def Begun (s : State τ) : Prop :=
  ∀ i < s.nextCall, (∃ t c, s.threads t = some c ∧ c.id = i) ∨ (s.log i).returned ≠ none

/-- In `hvac_wait_for_operation` with the mutex, up to the unlock. -/
def CallerPc.locked : CallerPc → Bool
  | .test | .wait | .readResult | .unlock _ => true
  | _                                       => false

def Locked (s : State τ) : Prop :=
  ∀ t c, s.threads t = some c → c.pc.locked = true →
    (s.contexts c.ctx).monitor.owner = some (.caller t)

/-- The contexts of the calls in progress are alive. -/
theorem Inv.live {s : State τ} (hi : Inv s) {t : τ} {c : Caller} (hc : s.threads t = some c) :
    s.contextOf c.ctx = some c.id := by
  obtain ⟨P, hP, hstages, _, _⟩ := hi
  obtain ⟨x, hctx⟩ := (hstages c.id).context (((hP c.id).caller t c).mp ⟨hc, rfl⟩)
  exact (((hP c.id).context c.ctx x).mpr hctx).1

variable [DecidableEq τ]

theorem setCaller_self (s : State τ) (t : τ) (r : Option Caller) :
    (s.setCaller t r).threads t = r := Function.update_self ..

theorem Begun.step {s s' : State τ} {e : Event τ} (h : Begun s)
    (hs : (machine τ).step s e = some s') : Begun s' := by
  have hgoto : ∀ {s₁ : State τ} {t : τ} {c c' : Caller}, s.threads t = some c → c'.id = c.id →
      s₁.threads = s.threads → s₁.nextCall = s.nextCall →
      (∀ i, (s₁.log i).returned = (s.log i).returned) → Begun (s₁.setCaller t (some c')) := by
    intro s₁ t c c' hc hid hthreads hnext hreturned i hi
    rcases h i (hnext ▸ hi) with ⟨t', d, hd, hdid⟩ | hlog
    · refine .inl ?_
      by_cases ht : t' = t
      · subst ht
        obtain rfl := Option.some.inj (hd.symm.trans hc)
        exact ⟨t', c', Function.update_self .., hid.trans hdid⟩
      · exact ⟨t', d, (Function.update_of_ne ht _ _).trans (hthreads ▸ hd), hdid⟩
    · exact .inr (hreturned i ▸ hlog)
  cases e with
  | call t kind ctx =>
      obtain ⟨⟨hidle, _⟩, rfl⟩ := guarded_eq_some.mp hs
      intro i hi
      by_cases hnew : i = s.nextCall
      · subst hnew
        exact .inl ⟨t, _, Function.update_self .., rfl⟩
      · rcases h i (by simp only at hi; omega) with ⟨t', d, hd, hid⟩ | hlog
        · refine .inl ⟨t', d, (Function.update_of_ne ?_ _ _).trans hd, hid⟩
          rintro rfl
          rw [hd] at hidle
          cases hidle
        · exact .inr hlog
  | malloc t record =>
      obtain ⟨c, hc, hs⟩ := Option.bind_eq_some_iff.mp hs
      obtain ⟨_, rfl⟩ := guarded_eq_some.mp hs
      exact hgoto hc rfl rfl rfl fun _ => rfl
  | forward t ok =>
      obtain ⟨c, hc, hs⟩ := Option.bind_eq_some_iff.mp hs
      obtain ⟨_, rfl⟩ := guarded_eq_some.mp hs
      cases ok with
      | true => exact hgoto hc rfl rfl rfl (setLog_returned (by rfl))
      | false => exact hgoto hc rfl rfl rfl fun _ => rfl
  | caller t =>
      obtain ⟨c, hc, hs⟩ := Option.bind_eq_some_iff.mp hs
      obtain ⟨_, _, hnext, hothers, hreturned, hworks⟩ := callerStep_works hs
      intro i hi
      rcases h i (hnext ▸ hi) with ⟨t', d, hd, hid⟩ | hlog
      · by_cases ht : t' = t
        · subst ht
          obtain rfl := Option.some.inj (hd.symm.trans hc)
          rcases hworks with ⟨_, _, hlog⟩ | ⟨c', hc', hid', _⟩
          · exact .inr (hid ▸ hlog)
          · exact .inl ⟨t', c', hc', hid'.trans hid⟩
        · exact .inl ⟨t', d, (hothers t' ht).trans hd, hid⟩
      · exact .inr (hreturned i hlog)
  | spurious t =>
      obtain ⟨c, hc, hs⟩ := Option.bind_eq_some_iff.mp hs
      obtain ⟨_, rfl⟩ := guarded_eq_some.mp hs
      exact h
  | trigger i value =>
      obtain ⟨q, _, hs⟩ := Option.bind_eq_some_iff.mp hs
      obtain ⟨_, rfl⟩ := guarded_eq_some.mp hs
      exact fun j hj => (h j hj).imp_right fun hlog => (setLog_returned (by rfl) j).trans_ne hlog
  | callback =>
      obtain ⟨cb, _, hs⟩ := Option.bind_eq_some_iff.mp hs
      obtain ⟨hthreads, _, hnext, _, hreturned, _⟩ := callbackStep_works hs
      intro i hi
      rw [hthreads, hreturned]
      exact h i (hnext ▸ hi)

omit [DecidableEq τ] in
/-- Who has a mutex keeps it when other agents step. -/
theorem setContext_owner {s : State τ} {a : Nat} {x : Context τ} {g : Agent τ}
    (h : (s.contexts a).monitor.owner = some g → x.monitor.owner = some g) {b : Nat}
    (hb : (s.contexts b).monitor.owner = some g) :
    ((s.setContext a x).contexts b).monitor.owner = some g := by
  by_cases hba : b = a
  · subst hba
    simpa [State.setContext] using h hb
  · simpa [State.setContext, hba] using hb

theorem callerStep_owner {s s' : State τ} {t : τ} {c : Caller} (h : s.callerStep t c = some s')
    {t' : τ} (ht : t' ≠ t) {a : Nat} (ha : (s.contexts a).monitor.owner = some (.caller t')) :
    (s'.contexts a).monitor.owner = some (.caller t') := by
  cases hpc : c.pc with
  | malloc | forward | aborted => simp [State.callerStep, hpc] at h
  | lock =>
      simp only [State.callerStep, hpc, Option.map_eq_some_iff, Monitor.lock_eq_some] at h
      obtain ⟨m, ⟨hnone, rfl⟩, rfl⟩ := h
      exact setContext_owner (fun hx => by cases hnone.symm.trans hx) ha
  | blocked =>
      simp only [State.callerStep, hpc, Option.map_eq_some_iff, Monitor.reacquire_eq_some] at h
      obtain ⟨m, ⟨⟨hnone, _⟩, rfl⟩, rfl⟩ := h
      exact setContext_owner (fun hx => by cases hnone.symm.trans hx) ha
  | wait =>
      simp only [State.callerStep, hpc, Option.map_eq_some_iff, Monitor.condWait_eq_some] at h
      obtain ⟨m, ⟨hown, rfl⟩, rfl⟩ := h
      refine setContext_owner (fun hx => ?_) ha
      exact absurd (Agent.caller.inj (Option.some.inj (hx.symm.trans hown))) ht
  | unlock v =>
      simp only [State.callerStep, hpc, Option.map_eq_some_iff, Monitor.unlock_eq_some] at h
      obtain ⟨m, ⟨hown, rfl⟩, rfl⟩ := h
      refine setContext_owner (fun hx => ?_) ha
      exact absurd (Agent.caller.inj (Option.some.inj (hx.symm.trans hown))) ht
  | test | readResult | ret v =>
      simp only [State.callerStep, hpc, Option.some.injEq] at h
      subst h
      exact ha
  | free v =>
      simp only [State.callerStep, hpc, Option.some.injEq] at h
      subst h
      show (((s.free c.record).contexts) a).monitor.owner = _
      rw [(free_frame s c.record).2.2]
      exact ha

theorem callbackStep_owner {s s' : State τ} {cb : Callback} (h : s.callbackStep cb = some s')
    {t : τ} {a : Nat} (ha : (s.contexts a).monitor.owner = some (.caller t)) :
    (s'.contexts a).monitor.owner = some (.caller t) := by
  cases hpc : cb.pc with
  | decode =>
      simp only [State.callbackStep, hpc, Option.some.injEq] at h
      subst h
      exact ha
  | lock =>
      simp only [State.callbackStep, hpc, Option.map_eq_some_iff, Monitor.lock_eq_some] at h
      obtain ⟨m, ⟨hnone, rfl⟩, rfl⟩ := h
      exact setContext_owner (fun hx => by cases hnone.symm.trans hx) ha
  | setDone | setResult | broadcast =>
      simp only [State.callbackStep, hpc, Option.some.injEq] at h
      subst h
      exact setContext_owner (fun hx => by exact hx) ha
  | unlock =>
      simp only [State.callbackStep, hpc, Option.map_eq_some_iff, Monitor.unlock_eq_some] at h
      obtain ⟨m, ⟨hown, rfl⟩, rfl⟩ := h
      exact setContext_owner (fun hx => by cases hown.symm.trans hx) ha
  | free =>
      simp only [State.callbackStep, hpc, Option.some.injEq] at h
      subst h
      show (((s.free cb.arg).contexts) a).monitor.owner = _
      rw [(free_frame s cb.arg).2.2]
      exact ha

/-- A caller that goes on with the mutex has taken it in this step, or had it. -/
theorem callerStep_locked {s s' : State τ} {t : τ} {c c' : Caller}
    (h : s.callerStep t c = some s') (hc' : s'.threads t = some c')
    (hlocked : c'.pc.locked = true)
    (hown : c.pc.locked = true → (s.contexts c.ctx).monitor.owner = some (.caller t)) :
    (s'.contexts c'.ctx).monitor.owner = some (.caller t) := by
  cases hpc : c.pc with
  | malloc | forward | aborted => simp [State.callerStep, hpc] at h
  | lock | blocked =>
      simp only [State.callerStep, hpc, Option.map_eq_some_iff, Monitor.lock_eq_some,
        Monitor.reacquire_eq_some] at h
      obtain ⟨m, ⟨_, rfl⟩, rfl⟩ := h
      obtain rfl := Option.some.inj ((setCaller_self ..).symm.trans hc')
      simp [State.setContext, State.setCaller]
  | test | readResult =>
      simp only [State.callerStep, hpc, Option.some.injEq] at h
      subst h
      obtain rfl := Option.some.inj ((setCaller_self ..).symm.trans hc')
      exact hown (by rw [hpc]; rfl)
  | wait =>
      simp only [State.callerStep, hpc, Option.map_eq_some_iff] at h
      obtain ⟨m, _, rfl⟩ := h
      obtain rfl := Option.some.inj ((setCaller_self ..).symm.trans hc')
      cases hlocked
  | unlock v =>
      simp only [State.callerStep, hpc, Option.map_eq_some_iff] at h
      obtain ⟨m, _, rfl⟩ := h
      obtain rfl := Option.some.inj ((setCaller_self ..).symm.trans hc')
      dsimp only at hlocked
      split at hlocked <;> cases hlocked
  | free v =>
      simp only [State.callerStep, hpc, Option.some.injEq] at h
      subst h
      obtain rfl := Option.some.inj ((setCaller_self ..).symm.trans hc')
      cases hlocked
  | ret v =>
      simp only [State.callerStep, hpc, Option.some.injEq] at h
      subst h
      cases (setCaller_self ..).symm.trans hc'

theorem Locked.step {s s' : State τ} {e : Event τ} (hi : Inv s) (h : Locked s)
    (hs : (machine τ).step s e = some s') : Locked s' := by
  have hgoto : ∀ {s₁ : State τ} {t : τ} {c' : Caller}, c'.pc.locked = false →
      s₁.threads = s.threads → s₁.contexts = s.contexts → Locked (s₁.setCaller t (some c')) := by
    intro s₁ t c' hfree hthreads hcontexts t' d hd hlocked
    by_cases ht : t' = t
    · subst ht
      obtain rfl := Option.some.inj ((setCaller_self ..).symm.trans hd)
      cases hfree.symm.trans hlocked
    · have hd' := (Function.update_of_ne ht _ _).symm.trans hd
      show (s₁.contexts d.ctx).monitor.owner = _
      rw [hcontexts]
      exact h t' d (hthreads ▸ hd') hlocked
  cases e with
  | call t kind ctx =>
      obtain ⟨⟨hidle, hdead⟩, rfl⟩ := guarded_eq_some.mp hs
      intro t' d hd hlocked
      by_cases ht : t' = t
      · subst ht
        obtain rfl := Option.some.inj ((setCaller_self ..).symm.trans hd)
        cases hlocked
      · have hd' : s.threads t' = some d := (Function.update_of_ne ht _ _).symm.trans hd
        have hne : d.ctx ≠ ctx := by
          intro heq
          cases hdead.symm.trans (heq ▸ hi.live hd')
        show (Function.update s.contexts ctx .init d.ctx).monitor.owner = _
        rw [Function.update_of_ne hne]
        exact h t' d hd' hlocked
  | malloc t record =>
      obtain ⟨c, hc, hs⟩ := Option.bind_eq_some_iff.mp hs
      obtain ⟨_, rfl⟩ := guarded_eq_some.mp hs
      exact hgoto rfl rfl rfl
  | forward t ok =>
      obtain ⟨c, hc, hs⟩ := Option.bind_eq_some_iff.mp hs
      obtain ⟨_, rfl⟩ := guarded_eq_some.mp hs
      cases ok with
      | true => exact hgoto rfl rfl rfl
      | false => exact hgoto (by dsimp only; split <;> rfl) rfl rfl
  | caller t =>
      obtain ⟨c, hc, hs⟩ := Option.bind_eq_some_iff.mp hs
      intro t' d hd hlocked
      by_cases ht : t' = t
      · subst ht
        exact callerStep_locked hs hd hlocked (h t' c hc)
      · rw [(callerStep_works hs).others t' ht] at hd
        exact callerStep_owner hs ht (h t' d hd hlocked)
  | spurious t =>
      obtain ⟨c, hc, hs⟩ := Option.bind_eq_some_iff.mp hs
      obtain ⟨_, rfl⟩ := guarded_eq_some.mp hs
      exact fun t' d hd hlocked => setContext_owner (fun hx => by exact hx) (h t' d hd hlocked)
  | trigger i value =>
      obtain ⟨q, _, hs⟩ := Option.bind_eq_some_iff.mp hs
      obtain ⟨_, rfl⟩ := guarded_eq_some.mp hs
      exact h
  | callback =>
      obtain ⟨cb, _, hs⟩ := Option.bind_eq_some_iff.mp hs
      intro t d hd hlocked
      rw [(callbackStep_works hs).threads] at hd
      exact callbackStep_owner hs (h t d hd hlocked)

/-- What a run keeps beside the handshake. -/
theorem kept_invariant : (machine τ).Invariant fun s => Inv s ∧ Begun s ∧ Locked s where
  init := ⟨inv_init, fun i hi => absurd hi (Nat.not_lt_zero i), by rintro t c ⟨⟩⟩
  step _ h hs := ⟨h.1.step hs, h.2.1.step hs, h.2.2.step h.1 hs⟩

end Keeps

/-! ## Nobody waits for ever -/

section Stuck

variable {τ : Type} [DecidableEq τ] {s : State τ}

def Event.isCall : Event τ → Bool
  | .call _ _ _ => true
  | _           => false

def Event.isSpurious : Event τ → Bool
  | .spurious _ => true
  | _           => false

/-- Only new calls and spurious wake-ups are possible. -/
def Stuck (s : State τ) : Prop :=
  ∀ e : Event τ, e.isCall = false → e.isSpurious = false → (machine τ).step s e = none

/-- A seek whose request could not be sent: its assertion has failed. -/
def Aborted (s : State τ) (i : Nat) : Prop :=
  ∃ t c, s.threads t = some c ∧ c.id = i ∧ c.pc = .aborted

/-- All calls are over, and nothing is left of them. -/
structure Over (s : State τ) : Prop where
  returned : ∀ i < s.nextCall, Aborted s i ∨ (s.log i).returned ≠ none
  threads : ∀ {t c}, s.threads t = some c → Aborted s c.id
  requests : ∀ i, s.requests i = none
  callback : s.callback = none
  contexts : ∀ {a i}, s.contextOf a = some i → Aborted s i
  records : ∀ {a i}, s.recordOf a = some i → Aborted s i

theorem Stuck.caller (h : Stuck s) {t : τ} {c : Caller} (hc : s.threads t = some c) :
    s.callerStep t c = none := by
  have hstep := h (.caller t) rfl rfl
  simpa [machine, step, hc] using hstep

theorem Stuck.callback (h : Stuck s) {cb : Callback} (hcb : s.callback = some cb) :
    s.callbackStep cb = none := by
  have hstep := h .callback rfl rfl
  simpa [machine, step, hcb] using hstep

/-- A waiting caller goes on when nobody has the mutex and a wake-up has reached it. -/
theorem Exchange.callerStep_isSome {t : τ} {c : Caller} {x : Context τ} {done held wakes : Bool}
    (hx : Exchange t c.pc x done held wakes) (hpc : c.pc.awaits) (hctx : s.contexts c.ctx = x)
    (hheld : c.pc.holds = true ∨ held = false)
    (hawake : x.monitor.waiting (.caller t) = false) : (s.callerStep t c).isSome = true := by
  have howner := hx.owner
  cases hcpc : c.pc with
  | lock | blocked =>
      have hfree : x.monitor.owner = none := by
        rw [hcpc] at howner hheld
        simpa [CallerPc.holds, hheld.resolve_left Bool.false_ne_true] using howner
      simp [State.callerStep, hcpc, hctx, Monitor.lock, Monitor.reacquire, guarded, hfree, hawake]
  | test => simp [State.callerStep, hcpc]
  | wait =>
      have hmine : x.monitor.owner = some (.caller t) := by
        rw [hcpc] at howner
        simpa [CallerPc.holds] using howner
      simp [State.callerStep, hcpc, hctx, Monitor.condWait, guarded, hmine]
  | _ => simp [hcpc, CallerPc.awaits] at hpc

/-- In the handshake, caller or callback goes on. -/
theorem Stuck.not_handling (h : Stuck s) {t : τ} {c : Caller} {cb : Callback} {x : Context τ}
    (hc : s.threads t = some c) (hcb : s.callback = some cb) (hctx : s.contexts c.ctx = x)
    (hrecord : s.records cb.arg = c.ctx) (hpc : c.pc.awaits) (hnotfree : cb.pc ≠ .free)
    (hx : Exchange t c.pc x cb.pc.done cb.pc.holds cb.pc.wakes) : False := by
  have hcallback := h.callback hcb
  have hcaller : c.pc.holds = true → False := by
    intro hholds
    have hawake : x.monitor.waiting (.caller t) = false := by
      cases hw : x.monitor.waiting (.caller t) with
      | false => rfl
      | true =>
          rw [(hx.waits hw).1] at hholds
          cases hholds
    have hsome := hx.callerStep_isSome hpc hctx (.inl hholds) hawake
    rw [h.caller hc] at hsome
    cases hsome
  have hout : c.pc.holds = false := by
    cases hholds : c.pc.holds with
    | false => rfl
    | true => exact (hcaller hholds).elim
  have howner := hx.owner
  rw [hout] at howner
  cases hcbpc : cb.pc with
  | decode | setDone | setResult | broadcast => simp [State.callbackStep, hcbpc] at hcallback
  | lock =>
      rw [hcbpc] at howner
      simp [State.callbackStep, hcbpc, hrecord, hctx, Monitor.lock, guarded, howner,
        CallbackPc.holds] at hcallback
  | unlock =>
      rw [hcbpc] at howner
      simp [State.callbackStep, hcbpc, hrecord, hctx, Monitor.unlock, guarded, howner,
        CallbackPc.holds] at hcallback
  | free => exact hnotfree hcbpc

theorem Stuck.callback_none (h : Stuck s) (hi : Inv s) : s.callback = none := by
  rw [Option.eq_none_iff_forall_ne_some]
  intro cb hcb
  have hnotfree : cb.pc ≠ .free := by
    intro hpc
    have hcallback := h.callback hcb
    simp [State.callbackStep, hpc] at hcallback
  obtain ⟨P, hP, hstages, _, _⟩ := hi
  have hat := hP cb.id
  have hstage := hstages cb.id
  have hmine := (hat.callback cb).mp ⟨hcb, rfl⟩
  generalize P cb.id = p at hat hstage hmine
  cases hstage with
  | @handling t c x _ hpc _ hkind harg hx hresult =>
      cases hmine
      exact h.not_handling ((hat.caller t c).mpr rfl).1 hcb hat.context.live.2
        (harg ▸ hat.record.live.2) hpc hnotfree hx
  | answered _ _ hleft | readResult _ hleft | unlock _ hleft =>
      cases hmine
      exact hnotfree hleft.freeing_inv.1.1
  | ret _ hsettled | returned hsettled =>
      cases hmine
      exact hnotfree hsettled.freeing_inv.1
  | _ => cases hmine

omit [DecidableEq τ] in
/-- `malloc` finds an address. -/
theorem Inv.exists_record (hi : Inv s) : ∃ a, s.recordOf a = none := by
  obtain ⟨P, hP, _, hnew, _⟩ := hi
  obtain ⟨a, ha⟩ := Infinite.exists_notMem_finset
    ((Finset.range s.nextCall).image fun i => (P i).record.elim 0 Prod.fst)
  refine ⟨a, ?_⟩
  rw [Option.eq_none_iff_forall_ne_some]
  intro i hrecord
  have hown := ((hP i).record a (s.records a)).mp ⟨hrecord, rfl⟩
  refine ha (Finset.mem_image.mpr ⟨i, Finset.mem_range.mpr ?_, by rw [hown]; rfl⟩)
  by_contra hle
  rw [hnew i (Nat.le_of_not_lt hle)] at hown
  cases hown

theorem Stuck.request_none (h : Stuck s) (hi : Inv s) (i : Nat) : s.requests i = none := by
  rw [Option.eq_none_iff_forall_ne_some]
  intro q hq
  have hstep := h (.trigger i 0) rfl rfl
  simp [machine, step, hq, h.callback_none hi, guarded] at hstep

/-- Who is still in a call has failed the assertion. -/
theorem Stuck.aborted (h : Stuck s) (hi : Inv s) (hl : Locked s) {t : τ} {c : Caller}
    (hc : s.threads t = some c) : c.pc = .aborted := by
  have hcaller := h.caller hc
  have hidle := h.callback_none hi
  have hrequest := h.request_none hi c.id
  obtain ⟨a, hdead⟩ := hi.exists_record
  have hmalloc := h (.malloc t a) rfl rfl
  have hforward := h (.forward t true) rfl rfl
  have hlocked := hl t c hc
  obtain ⟨P, hP, hstages, _, _⟩ := hi
  have hat := hP c.id
  have hstage := hstages c.id
  have hmine := (hat.caller t c).mp ⟨hc, rfl⟩
  generalize P c.id = p at hat hstage hmine
  cases hstage with
  | unborn | failedReturned | returned _ => cases hmine
  | malloc hpc =>
      cases hmine
      simp [machine, step, hc, guarded, hpc, hdead] at hmalloc
  | forward hpc =>
      cases hmine
      simp [machine, step, hc, guarded, hpc] at hforward
  | aborted hpc =>
      cases hmine
      exact hpc
  | pending _ _ =>
      cases hmine
      cases hrequest.symm.trans hat.request
  | @handling _ _ _ cb _ _ _ _ _ _ =>
      cases hidle.symm.trans ((hat.callback cb).mpr rfl).1
  | answered hpc hx hleft =>
      cases hmine
      have hawake : _ = false := Bool.eq_false_iff.mpr fun hw => by cases (hx.waits hw).2 rfl
      have hsome := hx.callerStep_isSome hpc hat.context.live.2 (.inr rfl) hawake
      rw [hcaller] at hsome
      cases hsome
  | unlock hpc hleft =>
      cases hmine
      simp [State.callerStep, hpc, Monitor.unlock, guarded, hlocked (by rw [hpc]; rfl)] at hcaller
  | failed hpc | failedReturn hpc | readResult hpc _ | free hpc | ret hpc _ =>
      cases hmine
      simp [State.callerStep, hpc] at hcaller

theorem Stuck.over (h : Stuck s) (hi : Inv s) (hb : Begun s) (hl : Locked s) : Over s := by
  have hthreads : ∀ {t c}, s.threads t = some c → Aborted s c.id := fun {t c} hc =>
    ⟨t, c, hc, rfl, h.aborted hi hl hc⟩
  have hidle := h.callback_none hi
  have hleft : ∀ {i : Nat} {p : Part τ}, p.Of s i → Stage p →
      p.context ≠ none ∨ p.record ≠ none → Aborted s i := by
    intro i p hat hstage hmemory
    have hcaller : ∀ {t c}, p.caller = some (t, c) → Aborted s i := by
      intro t c hmine
      obtain ⟨hc, rfl⟩ := (hat.caller t c).mpr hmine
      exact hthreads hc
    cases hstage with
    | unborn | failedReturned => simp at hmemory
    | returned hsettled =>
        cases hsettled with
        | freed => simp at hmemory
        | @freeing cb _ _ _ => cases hidle.symm.trans ((hat.callback cb).mpr rfl).1
    | _ => exact hcaller rfl
  refine ⟨fun i hlt => ?_, hthreads, h.request_none hi, hidle, fun {a i} ha => ?_,
    fun {a i} ha => ?_⟩
  · refine (hb i hlt).imp_left ?_
    rintro ⟨t, c, hc, rfl⟩
    exact hthreads hc
  all_goals obtain ⟨P, hP, hstages, _, _⟩ := hi
  · refine hleft (hP i) (hstages i) (.inl ?_)
    rw [((hP i).context a (s.contexts a)).mp ⟨ha, rfl⟩]
    exact Option.some_ne_none _
  · refine hleft (hP i) (hstages i) (.inr ?_)
    rw [((hP i).record a (s.records a)).mp ⟨ha, rfl⟩]
    exact Option.some_ne_none _

end Stuck

/-! ## Calls end -/

section End

variable {τ : Type} [DecidableEq τ]

omit [DecidableEq τ] in
theorem sum_adds (es : List (Event τ)) : (es.map Event.adds).sum =
    22 * es.countP Event.isCall + 4 * es.countP Event.isSpurious := by
  induction es with
  | nil => rfl
  | cons e es ih =>
      rw [List.map_cons, List.sum_cons, ih, List.countP_cons, List.countP_cons]
      cases e <;> simp [Event.adds, Event.isCall, Event.isSpurious] <;> omega

/-- A run is bounded by its calls and its wake-ups for nothing, in whatever order callers,
callbacks and responses are scheduled; and where it cannot go on, each call has returned,
or is a seek that could not be sent, and nothing is left of the calls that have returned. -/
theorem calls_end {es : List (Event τ)} {s : State τ} (h : (machine τ).run es = some s) :
    es.length ≤ 22 * es.countP Event.isCall + 4 * es.countP Event.isSpurious ∧
      (Stuck s → Over s) := by
  constructor
  · obtain ⟨n, _, hle⟩ := potential.run pot_init h
    rw [List.map_const', List.sum_replicate_nat, sum_adds] at hle
    omega
  · intro hstuck
    obtain ⟨hi, hb, hl⟩ := kept_invariant.reachable (Machine.reachable_of_run h)
    exact hstuck.over hi hb hl

omit [DecidableEq τ] in
theorem Inv.request_none {s : State τ} (hi : Inv s) {i : Nat} (hnew : s.nextCall ≤ i) :
    s.requests i = none := by
  obtain ⟨P, hP, _, hempty, _⟩ := hi
  rw [(hP i).request, hempty i hnew]
  rfl

theorem calls_end_open_and_read :
    ∃ s, (machine Bool).run openAndRead = some s ∧ openAndRead.length ≤ 48 ∧ Stuck s ∧ Over s := by
  have hseen : ((machine Bool).run openAndRead).map (fun s =>
      ((s.threads false).isNone, (s.threads true).isNone, s.callback.isNone, s.nextCall,
        (s.requests 0).isNone, (s.requests 1).isNone)) =
          some (true, true, true, 2, true, true) := by
    decide +kernel
  obtain ⟨s, hrun, hs⟩ := Option.map_eq_some_iff.mp hseen
  simp only [Prod.mk.injEq, Option.isNone_iff_eq_none] at hs
  obtain ⟨hfalse, htrue, hcallback, hnext, h₀, h₁⟩ := hs
  obtain ⟨hlen, hover⟩ := calls_end hrun
  have hthreads : ∀ t, s.threads t = none := by
    rintro ⟨⟩ <;> assumption
  have hrequests : ∀ i, s.requests i = none := by
    intro i
    obtain ⟨hi, _, _⟩ := kept_invariant.reachable (Machine.reachable_of_run hrun)
    rcases Nat.lt_or_ge i 2 with hlt | hge
    · obtain rfl | rfl : i = 0 ∨ i = 1 := by omega
      · exact h₀
      · exact h₁
    · exact hi.request_none (by omega)
  have hstuck : Stuck s := by
    intro e hcall hspurious
    cases e with
    | call _ _ _ => cases hcall
    | spurious _ => cases hspurious
    | _ => simp [machine, step, hthreads, hrequests, hcallback]
  exact ⟨s, hrun, hlen, hstuck, hover hstuck⟩

end End

end MtHvac.Client.SyncContext
