-- SUMMARY: The callbacks of a client in its progress thread: each response is served within a bounded number of steps, and a call that has no answer at the shutdown never returns.
import MtHvac.Client.Termination
import MtHvac.Rpc.ProgressThread

/-!
# The callbacks of a client

The responses to open, read and seek requests complete in the progress thread. Their
callbacks wait for nobody but the callers whose mutexes they take, so the thread comes to
each of them. When it has been shut down, whoever still waits for a response waits for ever.
-/

namespace MtHvac.Client.SyncContext

open Base

section Callbacks

variable {τ : Type} [DecidableEq τ]

/-! ## The process -/

def Event.isTrigger : Event τ → Bool
  | .trigger _ _ => true
  | _            => false

/-- What a callback may wait for: all but new calls, and wake-ups for nothing. -/
def Event.isOwn (e : Event τ) : Bool := !e.isCall && !e.isSpurious

variable (τ) in
/-- A completion is the number of a call, with the value in the response to it. Each request
that was sent has one response. -/
def process : ProgressThread.Process (State τ) (Event τ) (Nat × Int) where
  machine := machine τ
  start k := .trigger k.1 k.2
  starts := Event.isTrigger
  busy s := s.callback.isSome
  alive _ := true
  accepts s ks k := (s.requests k.1).isSome && decide (k.1 ∉ ks.map Prod.fst)

/-- The requests to which the responses belong. -/
structure Outstanding (s : State τ) (ks : List (Nat × Int)) : Prop where
  distinct : (ks.map Prod.fst).Nodup
  requests : ∀ k ∈ ks, s.requests k.1 ≠ none

variable {s s' : State τ} {e : Event τ}

/-- Only the response takes a request away. -/
theorem requests_kept (hother : e.isTrigger = false) (hs : (machine τ).step s e = some s') {i : Nat}
    (hi : s.requests i ≠ none) : s'.requests i ≠ none := by
  cases e with
  | call t kind ctx =>
      obtain ⟨_, rfl⟩ := guarded_eq_some.mp hs
      exact hi
  | malloc t record =>
      obtain ⟨c, _, hs⟩ := Option.bind_eq_some_iff.mp hs
      obtain ⟨_, rfl⟩ := guarded_eq_some.mp hs
      exact hi
  | forward t ok =>
      obtain ⟨c, _, hs⟩ := Option.bind_eq_some_iff.mp hs
      obtain ⟨_, rfl⟩ := guarded_eq_some.mp hs
      cases ok with
      | false => exact hi
      | true =>
          show Function.update s.requests c.id _ i ≠ none
          by_cases hid : i = c.id
          · subst hid
            simp
          · rwa [Function.update_of_ne hid]
  | caller t =>
      obtain ⟨c, _, hs⟩ := Option.bind_eq_some_iff.mp hs
      rwa [(callerStep_works hs).requests]
  | spurious t =>
      obtain ⟨c, _, hs⟩ := Option.bind_eq_some_iff.mp hs
      obtain ⟨_, rfl⟩ := guarded_eq_some.mp hs
      exact hi
  | trigger i value => cases hother
  | callback =>
      obtain ⟨cb, _, hs⟩ := Option.bind_eq_some_iff.mp hs
      rwa [(callbackStep_works hs).requests]

/-- Only a response starts a callback. -/
theorem callback_idle (hidle : s.callback = none) (hother : e.isTrigger = false)
    (hs : (machine τ).step s e = some s') : s'.callback = none := by
  cases e with
  | call t kind ctx =>
      obtain ⟨_, rfl⟩ := guarded_eq_some.mp hs
      exact hidle
  | malloc t record | spurious t =>
      obtain ⟨c, _, hs⟩ := Option.bind_eq_some_iff.mp hs
      obtain ⟨_, rfl⟩ := guarded_eq_some.mp hs
      exact hidle
  | forward t ok =>
      obtain ⟨c, _, hs⟩ := Option.bind_eq_some_iff.mp hs
      obtain ⟨_, rfl⟩ := guarded_eq_some.mp hs
      cases ok <;> exact hidle
  | caller t =>
      obtain ⟨c, _, hs⟩ := Option.bind_eq_some_iff.mp hs
      rw [(callerStep_works hs).callback, hidle]
  | trigger i value => cases hother
  | callback =>
      obtain ⟨cb, hcb, _⟩ := Option.bind_eq_some_iff.mp hs
      cases hidle.symm.trans hcb

/-- The response to a request that was sent starts its callback, between two others. -/
theorem trigger_eq_some {i : Nat} {value : Int} (hs : (machine τ).step s (.trigger i value) = some s') :
    s'.requests = Function.update s.requests i none := by
  obtain ⟨q, _, hs⟩ := Option.bind_eq_some_iff.mp hs
  obtain ⟨_, rfl⟩ := guarded_eq_some.mp hs
  rfl

theorem trigger_enabled {i : Nat} (hi : s.requests i ≠ none) (hidle : s.callback = none)
    (value : Int) : ∃ s', (machine τ).step s (.trigger i value) = some s' := by
  obtain ⟨q, hq⟩ := Option.ne_none_iff_exists'.mp hi
  simp [machine, step, hq, guarded, hidle]

theorem busy_eq_false : (process τ).busy s = false ↔ s.callback = none := by
  simp [process]

/-- While a callback is at work it can go on, or its caller lets it. -/
theorem callback_enabled (hr : (machine τ).Reachable s) (hbusy : s.callback ≠ none) :
    ∃ e s', Event.isOwn e = true ∧ e.isTrigger = false ∧ (machine τ).step s e = some s' := by
  by_contra hnone
  push Not at hnone
  have hstuck : Stuck s := by
    intro e hcall hspurious
    rw [Option.eq_none_iff_forall_ne_some]
    cases e with
    | trigger i value =>
        intro s' hs
        obtain ⟨q, _, hs⟩ := Option.bind_eq_some_iff.mp hs
        exact hbusy (guarded_eq_some.mp hs).1
    | call _ _ _ | spurious _ => simp [Event.isCall, Event.isSpurious] at hcall hspurious
    | malloc _ _ | forward _ _ | caller _ | callback => exact fun s' => hnone _ s' rfl rfl
  exact hbusy (hstuck.callback_none (kept_invariant.reachable hr).1)

theorem process_serves : ProgressThread.Serves (process τ) Event.isOwn Event.adds 0
    (fun s n => (machine τ).Reachable s ∧ Pot s n) Outstanding where
  init := ⟨List.nodup_nil, by rintro k ⟨⟩⟩
  init_idle := rfl
  accept := by
    rintro s ks k ⟨hdistinct, hrequests⟩ haccepts
    obtain ⟨hsent, hnew⟩ := Bool.and_eq_true_iff.mp haccepts
    refine ⟨?_, fun k' hk' => ?_⟩
    · rw [List.map_append, List.map_singleton]
      exact hdistinct.append (List.nodup_singleton _) (by simpa using hnew)
    · obtain hk' | hk' := List.mem_append.mp hk'
      · exact hrequests k' hk'
      · obtain rfl := List.mem_singleton.mp hk'
        exact Option.isSome_iff_ne_none.mp hsent
  other := fun h hother hs => ⟨h.distinct, fun k hk => requests_kept hother hs (h.requests k hk)⟩
  start := by
    rintro s s' k ks ⟨hdistinct, hrequests⟩ hs
    rw [List.map_cons, List.nodup_cons] at hdistinct
    refine ⟨hdistinct.2, fun k' hk' => ?_⟩
    have hne : k'.1 ≠ k.1 := fun heq => hdistinct.1 (heq ▸ List.mem_map_of_mem hk')
    rw [trigger_eq_some hs, Function.update_of_ne hne]
    exact hrequests k' (List.mem_cons_of_mem _ hk')
  idle := fun hidle hother hs =>
    busy_eq_false.mpr (callback_idle (busy_eq_false.mp hidle) hother hs)
  ready := fun _ h hidle =>
    trigger_enabled (h.requests _ List.mem_cons_self) (busy_eq_false.mp hidle) _
  enabled := fun _ hpot hbusy => callback_enabled hpot.1 (Option.isSome_iff_ne_none.mp hbusy)
  spends := by
    rintro s s' e n ⟨hr, hn⟩ _ hs
    obtain ⟨n', hn', hle⟩ := potential.step hn hs
    have htoNat := Bool.toNat_le e.isOwn
    exact ⟨n', ⟨hr.step hs, hn'⟩, by omega⟩
  costs := by
    rintro s s' k n ⟨hr, hn⟩ hs
    obtain ⟨n', hn', hle⟩ := potential.step hn hs
    exact ⟨n', ⟨hr.step hs, hn'⟩, Nat.le_of_succ_le hle⟩

/-! ## Responses are served -/

variable (τ) in
/-- The calls of a client, with its progress thread. -/
abbrev threaded : Machine (ProgressThread.State (State τ) (Nat × Int))
    (ProgressThread.Event (Event τ) (Nat × Int)) :=
  ProgressThread.machine (process τ)

open ProgressThread (Done)

/-- The responses are handed to their callbacks in the order in which they complete, each one
once. Until the callback with the number `j` is over, or the progress thread is shut down,
the steps of all threads are bounded, in whatever order they happen and however many
responses complete meanwhile; and one of them is possible. -/
theorem responses_served {x x' : ProgressThread.State (State τ) (Nat × Int)} {j : Nat}
    {pre es : List (ProgressThread.Event (Event τ) (Nat × Int))}
    (hpre : (threaded τ).run pre = some x) (hj : j < x.arrivals.length)
    (hwaits : (threaded τ).Avoids (Done (process τ) j) x es)
    (hrun : (threaded τ).runFrom x es = some x') :
    x'.arrivals = x'.started ++ (x'.queue ++ x'.arrived) ∧
      (es.map (ProgressThread.Event.spend Event.isOwn)).sum ≤
        22 * ((pre ++ es).filterMap ProgressThread.Event.process?).countP Event.isCall +
          4 * ((pre ++ es).filterMap ProgressThread.Event.process?).countP Event.isSpurious +
          7 * (j + 1 - x.started.length) + 5 ∧
      (¬ Done (process τ) j x' → ∃ e x'', e.spend Event.isOwn = 1 ∧
        (threaded τ).step x' e = some x'') := by
  have hreach := Machine.reachable_of_run hpre
  have hkept := (ProgressThread.kept_invariant process_serves).reachable (hreach.runFrom hrun)
  obtain ⟨n, hn, hle⟩ :=
    (ProgressThread.process_potential process_serves).run ⟨.init, pot_init⟩ hpre
  obtain ⟨hsum, henabled⟩ := ProgressThread.served process_serves hreach hn hj hwaits hrun
  refine ⟨hkept.order, ?_, henabled⟩
  have hzero : (pre.map fun _ => 0).sum = 0 := by simp
  rw [ProgressThread.sum_gain, sum_adds] at hle hsum
  rw [List.filterMap_append, List.countP_append, List.countP_append]
  omega

/-- An open and a read are sent, and the response to the read completes first. -/
def readCompletesFirst : List (ProgressThread.Event (Event Bool) (Nat × Int)) :=
  (openAndRead.take 6).map .process ++ [.arrive (1, 512), .arrive (0, 7)]

/-- The callback of the read has run, that of the open begins. -/
def readServed : List (ProgressThread.Event (Event Bool) (Nat × Int)) :=
  [.next, .next, .next, .next, .hgProgress 2, .next, .next] ++
    List.replicate 7 (.process .callback) ++ [.next, .next]

theorem responses_served_read_first :
    ∃ x x', (threaded Bool).run readCompletesFirst = some x ∧
      (threaded Bool).runFrom x readServed = some x' ∧ x'.started = [(1, 512), (0, 7)] ∧
      (readServed.map (ProgressThread.Event.spend Event.isOwn)).sum ≤ 63 ∧
      ∃ e x'', e.spend Event.isOwn = 1 ∧ (threaded Bool).step x' e = some x'' := by
  have hfirst : ((threaded Bool).run readCompletesFirst).map (fun x =>
      (x.arrivals.length, x.started.length,
        (threaded Bool).checkSteps (fun x _ => !decide (Done (process Bool) 1 x)) x readServed)) =
        some (2, 0, true) := by
    decide +kernel
  have hlast : ((threaded Bool).run (readCompletesFirst ++ readServed)).map (fun x' =>
      (x'.started, decide (Done (process Bool) 1 x'))) = some ([(1, 512), (0, 7)], false) := by
    decide +kernel
  obtain ⟨x, hx, hfirst⟩ := Option.map_eq_some_iff.mp hfirst
  simp only [Prod.mk.injEq] at hfirst
  obtain ⟨harrivals, hstarted, hcheck⟩ := hfirst
  rw [Machine.run, Machine.runFrom_append, ← Machine.run, hx, Option.bind_some] at hlast
  obtain ⟨x', hx', hlast⟩ := Option.map_eq_some_iff.mp hlast
  obtain ⟨hserved, hnot⟩ := Prod.mk.inj hlast
  obtain ⟨_, hsum, henabled⟩ := responses_served hx (by rw [harrivals]; decide)
    (Machine.avoids_of_checkSteps hcheck) hx'
  refine ⟨x, x', hx, hx', hserved, ?_, henabled (of_decide_eq_false hnot)⟩
  rw [hstarted] at hsum
  exact hsum

/-! ## Calls after the shutdown -/

omit [DecidableEq τ] in
/-- A call whose response has not been handed to its callback waits for it. -/
theorem Inv.awaits (hi : Inv s) {i : Nat} (hsent : s.requests i ≠ none) :
    (s.log i).returned = none ∧ ∃ t c, s.threads t = some c ∧ c.id = i ∧ c.pc.awaits = true := by
  obtain ⟨P, hP, hstages, _⟩ := hi
  have hat := hP i
  have hstage := hstages i
  have hrequest := hat.request
  have hlog := hat.log
  generalize P i = p at hat hstage hrequest hlog
  cases hstage with
  | @pending t c x hpc hx =>
      obtain ⟨hc, hid⟩ := (hat.caller t c).mpr rfl
      exact ⟨by rw [hlog], t, c, hc, hid, hpc⟩
  | _ => exact absurd hrequest hsent

/-- After `hvac_shutdown_comm` the thread takes four steps of its own at most and serves one
more response at most, and only if it was before `HG_Trigger`. A call that has sent its
request and whose callback was not started until then stays in `hvac_wait_for_operation`,
in every continuation, whether or not its response completes. -/
theorem unanswered_for_ever {x x' : ProgressThread.State (State τ) (Nat × Int)}
    (hx : (threaded τ).Reachable x) (hflag : x.shutdownFlags = true)
    {es : List (ProgressThread.Event (Event τ) (Nat × Int))}
    (hrun : (threaded τ).runFrom x es = some x') :
    (es.map ProgressThread.Event.ofThread).sum ≤ 4 ∧
      x'.started.length ≤ x.started.length + x.pc.starts ∧
      (x.pc ≠ .trigger → ∀ i, x.process.requests i ≠ none →
        (x'.process.log i).returned = none ∧
          ∃ t c, x'.process.threads t = some c ∧ c.id = i ∧ c.pc.awaits = true) := by
  obtain ⟨hsteps, hstarted⟩ := ProgressThread.stops hflag hrun
  refine ⟨hsteps, hstarted, fun hpc i hi => ?_⟩
  have hkept : x'.shutdownFlags = true ∧ x'.pc ≠ .trigger ∧ x'.process.requests i ≠ none := by
    refine Machine.runFrom_keeps (I := fun y => y.shutdownFlags = true ∧ y.pc ≠ .trigger ∧
      y.process.requests i ≠ none) ?_ ⟨hflag, hpc, hi⟩ hrun
    rintro y y' e ⟨hy, hpc, hi⟩ hs
    have hstep := ProgressThread.step_cases hs
    obtain ⟨hflag', _⟩ := hstep.shutdown_left hy
    obtain ⟨hpc', hsame | ⟨e, hother, hs⟩⟩ := hstep.past_trigger hy hpc
    · exact ⟨hflag', hpc', by rwa [hsame]⟩
    · exact ⟨hflag', hpc', requests_kept hother hs hi⟩
  exact (inv_invariant.reachable (ProgressThread.process_reachable (hx.runFrom hrun))).awaits
    hkept.2.2

/-- The progress thread is shut down when the response to the open has completed. -/
theorem unanswered_for_ever_open :
    ∃ x, (threaded Bool).run
        ((openAndRead.take 6).map .process ++ [.arrive (0, 7), .shutdown]) = some x ∧
      ∀ es x', (threaded Bool).runFrom x es = some x' → (x'.process.log 0).returned = none := by
  have hseen : ((threaded Bool).run
      ((openAndRead.take 6).map .process ++ [.arrive (0, 7), .shutdown])).map (fun x =>
        (x.shutdownFlags, x.pc, (x.process.requests 0).isSome)) = some (true, .loop, true) := by
    decide +kernel
  obtain ⟨x, hx, hseen⟩ := Option.map_eq_some_iff.mp hseen
  simp only [Prod.mk.injEq] at hseen
  obtain ⟨hflag, hpc, hsent⟩ := hseen
  refine ⟨x, hx, fun es x' hrun => ?_⟩
  obtain ⟨_, _, hforever⟩ := unanswered_for_ever (Machine.reachable_of_run hx) hflag hrun
  exact (hforever (by rw [hpc]; rintro ⟨⟩) 0 (Option.isSome_iff_ne_none.mp hsent)).1

end Callbacks

end MtHvac.Client.SyncContext
