-- SUMMARY: Each caller gets its own answer: what belongs to a call, the stages that it goes through, and the handshake with its callback.
import MtHvac.Base.Ownership
import MtHvac.Client.SyncContext

/-!
# The handshake

Everything in the state belongs to one call: its thread, its context, its
record, its request, its callback and its log. A step changes what belongs to
one call. The stages of a call say how caller and callback share the context.
-/

namespace MtHvac.Client.SyncContext

open Base

/-! ## What belongs to a call -/

/-- `context` and `record` are the memory of the call that is alive: the address
and what is there. -/
structure Part (τ : Type) where
  caller : Option (τ × Caller)
  request : Option Request
  callback : Option Callback
  context : Option (Nat × Context τ)
  record : Option (Nat × Nat)
  log : Log

def Part.empty (τ : Type) : Part τ := ⟨none, none, none, none, none, {}⟩

/-- `p` is what belongs to the call `i`. -/
structure Part.Of {τ : Type} (p : Part τ) (s : State τ) (i : Nat) : Prop where
  caller : ∀ t c, (s.threads t = some c ∧ c.id = i) ↔ p.caller = some (t, c)
  request : s.requests i = p.request
  callback : ∀ cb, (s.callback = some cb ∧ cb.id = i) ↔ p.callback = some cb
  context : Owns s.contextOf s.contexts i p.context
  record : Owns s.recordOf s.records i p.record
  log : s.log i = p.log

/-- The state is divided among the calls. -/
def Divided {τ : Type} (P : Nat → Part τ) (s : State τ) : Prop := ∀ i, (P i).Of s i

/-- The state is divided, and `p` belongs to the call `i`. -/
def DividedAt {τ : Type} (P : Nat → Part τ) (i : Nat) (p : Part τ) (s : State τ) : Prop :=
  Divided (Function.update P i p) s

namespace DividedAt

variable {τ : Type} {P : Nat → Part τ} {i : Nat} {p : Part τ} {s : State τ}

theorem own (h : DividedAt P i p s) : p.Of s i := by
  simpa using h i

theorem other (h : DividedAt P i p s) {j : Nat} (hj : j ≠ i) : (P j).Of s j := by
  simpa [hj] using h j

theorem intro (hown : p.Of s i) (hother : ∀ j, j ≠ i → (P j).Of s j) : DividedAt P i p s := by
  intro j
  by_cases hj : j = i
  · subst hj
    simpa using hown
  · simpa [hj] using hother j hj

/-! ## Changes to one call -/

variable {caller : Option (τ × Caller)} {request : Option Request} {callback : Option Callback}
  {context : Option (Nat × Context τ)} {record : Option (Nat × Nat)} {log : Log}

theorem setContext {a : Nat} {x x' : Context τ}
    (h : DividedAt P i ⟨caller, request, callback, some (a, x), record, log⟩ s) :
    DividedAt P i ⟨caller, request, callback, some (a, x'), record, log⟩ (s.setContext a x') :=
  intro { h.own with context := h.own.context.write } fun _ hj =>
    { h.other hj with context := (h.other hj).context.write_other h.own.context.live.1 hj }

theorem allocContext {a : Nat}
    (h : DividedAt P i ⟨caller, request, callback, none, record, log⟩ s)
    (hdead : s.contextOf a = none) :
    DividedAt P i ⟨caller, request, callback, some (a, .init), record, log⟩
      (s.allocContext a i) :=
  intro { h.own with context := h.own.context.alloc } fun _ hj =>
    { h.other hj with context := (h.other hj).context.alloc_other hdead hj }

theorem dropContext {a : Nat} {x : Context τ}
    (h : DividedAt P i ⟨caller, request, callback, some (a, x), record, log⟩ s) :
    DividedAt P i ⟨caller, request, callback, none, record, log⟩ (s.dropContext a) :=
  intro { h.own with context := h.own.context.drop } fun _ hj =>
    { h.other hj with context := (h.other hj).context.drop_other h.own.context.live.1 hj }

theorem allocRecord {a ctx : Nat}
    (h : DividedAt P i ⟨caller, request, callback, context, none, log⟩ s)
    (hdead : s.recordOf a = none) :
    DividedAt P i ⟨caller, request, callback, context, some (a, ctx), log⟩
      (s.allocRecord a i ctx) :=
  intro { h.own with record := h.own.record.alloc } fun _ hj =>
    { h.other hj with record := (h.other hj).record.alloc_other hdead hj }

theorem setLog {log' : Log}
    (h : DividedAt P i ⟨caller, request, callback, context, record, log⟩ s) :
    DividedAt P i ⟨caller, request, callback, context, record, log'⟩ (s.setLog i log') :=
  intro { h.own with log := by simp [State.setLog] } fun _ hj =>
    { h.other hj with log := by simpa [State.setLog, hj] using (h.other hj).log }

theorem free {a ctx : Nat}
    (h : DividedAt P i ⟨caller, request, callback, context, some (a, ctx), log⟩ s) :
    DividedAt P i
      ⟨caller, request, callback, context, none, { log with freed := log.freed + 1 }⟩
      (s.free a) := by
  have hlive := h.own.record.live.1
  have hlog : s.log i = log := h.own.log
  have hdrop : DividedAt P i ⟨caller, request, callback, context, none, log⟩
      { s with recordOf := Function.update s.recordOf a none } :=
    intro { h.own with record := h.own.record.drop } fun _ hj =>
      { h.other hj with record := (h.other hj).record.drop_other hlive hj }
  simp only [State.free, hlive, hlog]
  exact hdrop.setLog

theorem setRequest {request' : Option Request}
    (h : DividedAt P i ⟨caller, request, callback, context, record, log⟩ s) :
    DividedAt P i ⟨caller, request', callback, context, record, log⟩ (s.setRequest i request') :=
  intro { h.own with request := by simp [State.setRequest] } fun _ hj =>
    { h.other hj with request := by simpa [State.setRequest, hj] using (h.other hj).request }

/-- The callback slot passes from nobody or the call `i` to the call `i` or nobody. -/
theorem setCallback {callback' : Option Callback}
    (h : DividedAt P i ⟨caller, request, callback, context, record, log⟩ s)
    (hbefore : ∀ cb, s.callback = some cb → cb.id = i) (hafter : ∀ cb, callback' = some cb → cb.id = i) :
    DividedAt P i ⟨caller, request, callback', context, record, log⟩ (s.setCallback callback') := by
  refine intro { h.own with callback := fun cb => ?_ } fun j hj =>
    { h.other hj with callback := fun cb => ?_ }
  · exact ⟨And.left, fun hcb => ⟨hcb, hafter cb hcb⟩⟩
  · rw [← (h.other hj).callback]
    constructor
    · rintro ⟨hcb, hid⟩
      exact absurd (hid.symm.trans (hafter cb hcb)) hj
    · rintro ⟨hcb, hid⟩
      exact absurd (hid.symm.trans (hbefore cb hcb)) hj

/-- The thread `t` passes from nobody or the call `i` to the call `i` or nobody. -/
private theorem setCaller [DecidableEq τ] {t : τ} {c c' : Option Caller}
    (h : DividedAt P i ⟨c.map (t, ·), request, callback, context, record, log⟩ s)
    (hbefore : ∀ d, s.threads t = some d → d.id = i) (hafter : ∀ d, c' = some d → d.id = i) :
    DividedAt P i ⟨c'.map (t, ·), request, callback, context, record, log⟩ (s.setCaller t c') := by
  refine intro { h.own with caller := fun t' d => ?_ } fun j hj =>
    { h.other hj with caller := fun t' d => ?_ }
  · by_cases ht : t' = t
    · subst ht
      simpa [State.setCaller] using hafter d
    · have hown := h.own.caller t' d
      simp only [Option.map_eq_some_iff, Prod.mk.injEq, Ne.symm ht, false_and, and_false,
        exists_false, iff_false] at hown
      simp [State.setCaller, ht, Ne.symm ht, hown]
  · rw [← (h.other hj).caller]
    by_cases ht : t' = t
    · subst ht
      simp only [State.setCaller, Function.update_self]
      constructor
      · rintro ⟨hd, hid⟩
        exact absurd (hid.symm.trans (hafter d hd)) hj
      · rintro ⟨hd, hid⟩
        exact absurd (hid.symm.trans (hbefore d hd)) hj
    · simp [State.setCaller, ht]

theorem startCaller [DecidableEq τ] {t : τ} {c : Caller}
    (h : DividedAt P i ⟨none, request, callback, context, record, log⟩ s)
    (hidle : s.threads t = none) (hid : c.id = i) :
    DividedAt P i ⟨some (t, c), request, callback, context, record, log⟩
      (s.setCaller t (some c)) :=
  @setCaller _ _ _ _ _ _ _ _ _ _ t none (some c) h (by simp [hidle]) (by rintro _ ⟨⟩; exact hid)

theorem moveCaller [DecidableEq τ] {t : τ} {c c' : Caller}
    (h : DividedAt P i ⟨some (t, c), request, callback, context, record, log⟩ s)
    (hid : c'.id = c.id) :
    DividedAt P i ⟨some (t, c'), request, callback, context, record, log⟩
      (s.setCaller t (some c')) := by
  obtain ⟨hthread, hc⟩ := (h.own.caller t c).mpr rfl
  refine @setCaller _ _ _ _ _ _ _ _ _ _ t (some c) (some c') h ?_ ?_
  · intro d hd
    rw [← Option.some.inj (hthread.symm.trans hd), hc]
  · rintro _ ⟨⟩
    exact hid.trans hc

theorem endCaller [DecidableEq τ] {t : τ} {c : Caller}
    (h : DividedAt P i ⟨some (t, c), request, callback, context, record, log⟩ s) :
    DividedAt P i ⟨none, request, callback, context, record, log⟩ (s.setCaller t none) := by
  obtain ⟨hthread, hc⟩ := (h.own.caller t c).mpr rfl
  refine @setCaller _ _ _ _ _ _ _ _ _ _ t (some c) none h ?_ nofun
  intro d hd
  rw [← Option.some.inj (hthread.symm.trans hd), hc]

theorem setNextCall (h : DividedAt P i p s) (n : Nat) :
    DividedAt P i p { s with nextCall := n } := fun j =>
  ⟨(h j).caller, (h j).request, (h j).callback, (h j).context, (h j).record, (h j).log⟩

end DividedAt

/-! ## The shared context -/

/-- In `hvac_wait_for_operation`, before the result is read. -/
def CallerPc.awaits : CallerPc → Bool
  | .lock | .test | .wait | .blocked => true
  | _                                => false

/-- The thread is between `pthread_mutex_lock` and the wait or the unlock. -/
def CallerPc.holds : CallerPc → Bool
  | .test | .wait => true
  | _             => false

def CallbackPc.done : CallbackPc → Bool
  | .setResult | .broadcast | .unlock | .free => true
  | _                                         => false

def CallbackPc.holds : CallbackPc → Bool
  | .setDone | .setResult | .broadcast | .unlock => true
  | _                                            => false

/-- The broadcast is still to come, after the flag was set. -/
def CallbackPc.wakes : CallbackPc → Bool
  | .setResult | .broadcast => true
  | _                       => false

def CallbackPc.resultSet : CallbackPc → Bool
  | .broadcast | .unlock | .free => true
  | _                            => false

/-- The context `x` between the waiting caller `t` and its callback, which has set
the flag (`done`), has the mutex (`held`), has yet to broadcast (`wakes`). -/
structure Exchange {τ : Type} (t : τ) (pc : CallerPc) (x : Context τ) (done held wakes : Bool) :
    Prop where
  flag : x.done = done
  owner : x.monitor.owner =
    if pc.holds then some (.caller t) else if held then some .progress else none
  exclusive : pc.holds = true → held = false
  waits : x.monitor.waiting (.caller t) = true → pc = .blocked ∧ (done = true → wakes = true)
  test : pc = .wait → done = false

/-! ## The stages of a call -/

/-- The record is freed, or the callback of a read is about to free it. -/
inductive Settled : Option Callback → Option (Nat × Nat) → Nat → Prop
  | freed : Settled none none 1
  | freeing {cb : Callback} {ctx : Nat} (hpc : cb.pc = .free) (hkind : cb.kind = .read) :
      Settled (some cb) (some (cb.arg, ctx)) 0

/-- The record of a call that has not yet freed it: a read leaves that to its callback. -/
inductive Left (c : Caller) : Option Callback → Option (Nat × Nat) → Nat → Prop
  | own (hkind : c.kind ≠ .read) : Left c none (some (c.record, c.ctx)) 0
  | settled {cb : Option Callback} {record : Option (Nat × Nat)} {freed : Nat}
      (hkind : c.kind = .read) (h : Settled cb record freed) : Left c cb record freed

inductive Stage {τ : Type} : Part τ → Prop
  | unborn : Stage ⟨none, none, none, none, none, {}⟩
  | malloc {t c} (hpc : c.pc = .malloc) :
      Stage ⟨some (t, c), none, none, some (c.ctx, .init), none, {}⟩
  | forward {t c} (hpc : c.pc = .forward) :
      Stage ⟨some (t, c), none, none, some (c.ctx, .init), some (c.record, c.ctx), {}⟩
  | aborted {t c x} (hpc : c.pc = .aborted) :
      Stage ⟨some (t, c), none, none, some (c.ctx, x), some (c.record, c.ctx), {}⟩
  | failed {t c x} (hpc : c.pc = .free (-1)) :
      Stage ⟨some (t, c), none, none, some (c.ctx, x), some (c.record, c.ctx), {}⟩
  | failedReturn {t c x} (hpc : c.pc = .ret (-1)) :
      Stage ⟨some (t, c), none, none, some (c.ctx, x), none, { freed := 1 }⟩
  | failedReturned : Stage ⟨none, none, none, none, none, { returned := some (-1), freed := 1 }⟩
  /-- The request was sent, and its response has not arrived. -/
  | pending {t c x} (hpc : c.pc.awaits) (hx : Exchange t c.pc x false false false) :
      Stage ⟨some (t, c), some ⟨c.kind, c.record⟩, none, some (c.ctx, x),
        some (c.record, c.ctx), { sent := true }⟩
  | handling {t c x cb} (hpc : c.pc.awaits) (hcb : cb.pc ≠ .free) (hkind : cb.kind = c.kind)
      (harg : cb.arg = c.record) (hx : Exchange t c.pc x cb.pc.done cb.pc.holds cb.pc.wakes)
      (hresult : cb.pc.resultSet → x.result = cb.value) :
      Stage ⟨some (t, c), none, some cb, some (c.ctx, x), some (c.record, c.ctx),
        { sent := true, response := some cb.value }⟩
  | answered {t c x cb record freed} (hpc : c.pc.awaits)
      (hx : Exchange t c.pc x true false false) (hleft : Left c cb record freed) :
      Stage ⟨some (t, c), none, cb, some (c.ctx, x), record,
        { sent := true, response := some x.result, freed := freed }⟩
  | readResult {t c x cb record freed} (hpc : c.pc = .readResult)
      (hleft : Left c cb record freed) :
      Stage ⟨some (t, c), none, cb, some (c.ctx, x), record,
        { sent := true, response := some x.result, freed := freed }⟩
  | unlock {t c x v cb record freed} (hpc : c.pc = .unlock v) (hleft : Left c cb record freed) :
      Stage ⟨some (t, c), none, cb, some (c.ctx, x), record,
        { sent := true, response := some v, freed := freed }⟩
  | free {t c x v} (hpc : c.pc = .free v) :
      Stage ⟨some (t, c), none, none, some (c.ctx, x), some (c.record, c.ctx),
        { sent := true, response := some v }⟩
  | ret {t c x v cb record freed} (hpc : c.pc = .ret v) (h : Settled cb record freed) :
      Stage ⟨some (t, c), none, cb, some (c.ctx, x), record,
        { sent := true, response := some v, freed := freed }⟩
  | returned {v cb record freed} (h : Settled cb record freed) :
      Stage ⟨none, none, cb, none, record,
        { sent := true, response := some v, returned := some v, freed := freed }⟩

/-! ## Steps of the exchange -/

section Exchange

variable {τ : Type} {t : τ} {x : Context τ}

theorem setContext_self {s : State τ} {a : Nat} (h : s.contexts a = x) : s.setContext a x = s := by
  subst h
  simp [State.setContext]

variable [DecidableEq τ]

/-- A waiting caller goes on waiting, or finds the flag set. -/
theorem Exchange.callerStep {s s' : State τ} {c : Caller} {done held wakes : Bool}
    (hx : Exchange t c.pc x done held wakes) (hpc : c.pc.awaits) (hctx : s.contexts c.ctx = x)
    (h : s.callerStep t c = some s') :
    (done = true ∧ held = false ∧ s' = s.setCaller t (some { c with pc := .readResult })) ∨
      ∃ pc' x', CallerPc.awaits pc' ∧ Exchange t pc' x' done held wakes ∧ x'.result = x.result ∧
        s' = (s.setContext c.ctx x').setCaller t (some { c with pc := pc' }) := by
  obtain ⟨hflag, howner, hexclusive, hwaits, htest⟩ := hx
  simp only [State.callerStep, hctx] at h
  cases hcpc : c.pc with
  | lock =>
      simp only [hcpc, CallerPc.holds, Bool.false_eq_true, if_false, reduceCtorEq,
        Option.map_eq_some_iff, Monitor.lock_eq_some] at h howner hwaits
      obtain ⟨m, ⟨hfree, rfl⟩, rfl⟩ := h
      refine .inr ⟨.test, { x with monitor := { x.monitor with owner := some (.caller t) } }, rfl,
        ⟨hflag, rfl, fun _ => ?_, fun hw => (by cases (hwaits hw).1), by rintro ⟨⟩⟩, rfl, rfl⟩
      rw [hfree] at howner
      cases held
      · rfl
      · cases howner
  | test =>
      simp only [hcpc, CallerPc.holds, if_true, reduceCtorEq, Option.some.injEq] at h howner hwaits hexclusive
      subst h
      cases hd : x.done with
      | true => exact .inl ⟨hflag ▸ hd, hexclusive trivial, by simp⟩
      | false =>
          refine .inr ⟨.wait, x, rfl, ⟨hflag, howner, fun _ => hexclusive trivial,
            fun hw => (by cases (hwaits hw).1), fun _ => hflag ▸ hd⟩, rfl, ?_⟩
          rw [setContext_self hctx]
          simp
  | wait =>
      simp only [hcpc, CallerPc.holds, if_true, reduceCtorEq, Option.map_eq_some_iff,
        Monitor.condWait_eq_some] at h howner hwaits hexclusive
      obtain ⟨m, ⟨_, rfl⟩, rfl⟩ := h
      have hnot : done = false := htest hcpc
      refine .inr ⟨.blocked, { x with monitor := ⟨none, _⟩ }, rfl,
        ⟨hflag, ?_, by rintro ⟨⟩, fun _ => ⟨rfl, ?_⟩, by rintro ⟨⟩⟩, rfl, rfl⟩
      · simp [hexclusive trivial, CallerPc.holds]
      · simp [hnot]
  | blocked =>
      simp only [hcpc, CallerPc.holds, Bool.false_eq_true, if_false,
        Option.map_eq_some_iff, Monitor.reacquire_eq_some] at h howner
      obtain ⟨m, ⟨⟨hfree, hawake⟩, rfl⟩, rfl⟩ := h
      refine .inr ⟨.test, { x with monitor := { x.monitor with owner := some (.caller t) } }, rfl,
        ⟨hflag, rfl, fun _ => ?_, fun hw => ?_, by rintro ⟨⟩⟩, rfl, rfl⟩
      · rw [hfree] at howner
        cases held
        · rfl
        · cases howner
      · cases hawake.symm.trans hw
  | _ => simp [hcpc, CallerPc.awaits] at hpc

theorem Exchange.wake {pc : CallerPc} {done held wakes : Bool} (hx : Exchange t pc x done held wakes) :
    Exchange t pc { x with monitor := x.monitor.wake (.caller t) } done held wakes where
  flag := hx.flag
  owner := hx.owner
  exclusive := hx.exclusive
  waits hw := by simp at hw
  test := hx.test

/-- A callback step up to the unlock keeps the exchange, and the record is still
needed afterwards. -/
theorem Exchange.callbackStep {s s' : State τ} {pc : CallerPc} {cb : Callback} {a : Nat}
    (hx : Exchange t pc x cb.pc.done cb.pc.holds cb.pc.wakes)
    (hresult : cb.pc.resultSet → x.result = cb.value) (hcb : cb.pc ≠ .free)
    (hrecord : s.records cb.arg = a) (hctx : s.contexts a = x)
    (h : s.callbackStep cb = some s') :
    (∃ pc' x', pc' ≠ CallbackPc.free ∧ Exchange t pc x' pc'.done pc'.holds pc'.wakes ∧
        (pc'.resultSet → x'.result = cb.value) ∧
        s' = (s.setContext a x').setCallback (some { cb with pc := pc' })) ∨
      ∃ x', Exchange t pc x' true false false ∧ x'.result = cb.value ∧
        s' = (s.setContext a x').setCallback
          (if cb.kind = .read then some { cb with pc := .free } else none) := by
  obtain ⟨hflag, howner, hexclusive, hwaits, htest⟩ := hx
  simp only [State.callbackStep, hrecord, hctx] at h
  cases hpc : cb.pc with
  | decode =>
      simp only [hpc, Option.some.injEq] at h
      rw [hpc] at hflag howner hexclusive hwaits htest
      refine .inl ⟨.lock, x, by decide, ⟨hflag, howner, hexclusive, hwaits, htest⟩,
        by rintro ⟨⟩, ?_⟩
      rw [setContext_self hctx, h]
  | lock =>
      simp only [hpc, Option.map_eq_some_iff, Monitor.lock_eq_some] at h
      rw [hpc] at hflag howner hwaits
      obtain ⟨m, ⟨hfree, rfl⟩, rfl⟩ := h
      have hout : pc.holds = false := by
        cases hholds : pc.holds
        · rfl
        · simp [hholds, hfree] at howner
      refine .inl ⟨.setDone, { x with monitor := { x.monitor with owner := some .progress } },
        by decide, ⟨hflag, by simp [hout, CallbackPc.holds], by simp [hout], hwaits, fun _ => rfl⟩,
        by rintro ⟨⟩, rfl⟩
  | setDone =>
      simp only [hpc, Option.some.injEq] at h
      rw [hpc] at howner hexclusive hwaits
      have hout : pc ≠ .wait := by
        rintro rfl
        cases hexclusive rfl
      exact .inl ⟨.setResult, { x with done := true }, by decide,
        ⟨rfl, howner, hexclusive, fun hw => ⟨(hwaits hw).1, fun _ => rfl⟩,
          fun hwait => absurd hwait hout⟩, by rintro ⟨⟩, h.symm⟩
  | setResult =>
      simp only [hpc, Option.some.injEq] at h
      rw [hpc] at hflag howner hexclusive hwaits htest
      exact .inl ⟨.broadcast, { x with result := cb.value }, by decide,
        ⟨hflag, howner, hexclusive, hwaits, htest⟩, fun _ => rfl, h.symm⟩
  | broadcast =>
      simp only [hpc, Option.some.injEq] at h
      rw [hpc] at hflag howner hexclusive htest
      exact .inl ⟨.unlock, { x with monitor := x.monitor.broadcast }, by decide,
        ⟨hflag, howner, hexclusive, by rintro ⟨⟩, htest⟩, fun _ => hresult (by rw [hpc]; rfl), h.symm⟩
  | unlock =>
      simp only [hpc, Option.map_eq_some_iff, Monitor.unlock_eq_some] at h
      rw [hpc] at hflag hexclusive hwaits htest
      obtain ⟨m, ⟨_, rfl⟩, rfl⟩ := h
      have hout : pc.holds = false := by
        cases hholds : pc.holds
        · rfl
        · cases hexclusive hholds
      exact .inr ⟨{ x with monitor := { x.monitor with owner := none } },
        ⟨hflag, by simp [hout], fun _ => rfl, hwaits, htest⟩, hresult (by rw [hpc]; rfl), rfl⟩
  | free => exact absurd hpc hcb

end Exchange

/-! ## Steps of one call -/

@[simp] theorem free_nextCall {τ : Type} (s : State τ) (a : Nat) :
    (s.free a).nextCall = s.nextCall := by
  simp only [State.free]
  split <;> rfl

@[simp] theorem free_callback {τ : Type} (s : State τ) (a : Nat) :
    (s.free a).callback = s.callback := by
  simp only [State.free]
  split <;> rfl

theorem free_invalidFree {τ : Type} {s : State τ} {a i : Nat} (h : s.recordOf a = some i) :
    (s.free a).invalidFree = s.invalidFree := by
  simp only [State.free, h, State.setLog]

theorem Settled.freeing_inv {cb : Callback} {record : Option (Nat × Nat)} {freed : Nat}
    (h : Settled (some cb) record freed) :
    cb.pc = .free ∧ (∃ ctx, record = some (cb.arg, ctx)) ∧ freed = 0 := by
  cases h with
  | freeing hpc hkind => exact ⟨hpc, ⟨_, rfl⟩, rfl⟩

theorem Left.freeing_inv {c : Caller} {cb : Callback} {record : Option (Nat × Nat)} {freed : Nat}
    (h : Left c (some cb) record freed) :
    (cb.pc = .free ∧ (∃ ctx, record = some (cb.arg, ctx)) ∧ freed = 0) ∧ c.kind = .read := by
  cases h with
  | settled hkind h => exact ⟨h.freeing_inv, hkind⟩

theorem Left.goto {c : Caller} {cb : Option Callback} {record : Option (Nat × Nat)} {freed : Nat}
    (h : Left c cb record freed) (pc : CallerPc) : Left { c with pc := pc } cb record freed := by
  cases h with
  | own hkind => exact @Left.own { c with pc := pc } hkind
  | settled hkind h => exact .settled hkind h

/-- After the step, the call `i` is at some stage, and nothing else has changed. -/
def Advances {τ : Type} (P : Nat → Part τ) (i : Nat) (s s' : State τ) : Prop :=
  ∃ p, DividedAt P i p s' ∧ Stage p ∧ s'.nextCall = s.nextCall ∧
    s'.invalidFree = s.invalidFree

section Advances

variable {τ : Type} [DecidableEq τ] {P : Nat → Part τ} {p : Part τ} {s s' : State τ}

theorem advances_caller {t : τ} {c : Caller} (hat : DividedAt P c.id p s) (hp : Stage p)
    (hc : p.caller = some (t, c)) (h : s.callerStep t c = some s') : Advances P c.id s s' := by
  cases hp with
  | unborn | failedReturned | returned _ => cases hc
  | malloc hpc | forward hpc | aborted hpc =>
      cases hc
      simp [State.callerStep, hpc] at h
  | failed hpc =>
      cases hc
      simp only [State.callerStep, hpc, Option.some.injEq] at h
      subst h
      exact ⟨_, hat.free.moveCaller rfl, .failedReturn rfl, free_nextCall _ _,
        free_invalidFree hat.own.record.live.1⟩
  | failedReturn hpc =>
      cases hc
      simp only [State.callerStep, hpc, Option.some.injEq, hat.own.log] at h
      subst h
      exact ⟨_, hat.dropContext.setLog.endCaller, .failedReturned, rfl, rfl⟩
  | pending hpc hx =>
      cases hc
      rcases hx.callerStep hpc hat.own.context.live.2 h with ⟨hdone, _⟩ | ⟨pc', x', hpc', hx', _, rfl⟩
      · cases hdone
      · exact ⟨_, hat.setContext.moveCaller rfl, .pending hpc' hx', rfl, rfl⟩
  | @handling _ _ _ cb hpc hcb hkind harg hx hresult =>
      cases hc
      rcases hx.callerStep hpc hat.own.context.live.2 h with
        ⟨hdone, hheld, _⟩ | ⟨pc', x', hpc', hx', hsame, rfl⟩
      · -- a callback that has set the flag has the mutex until it only frees
        cases hcbpc : cb.pc <;> simp_all [CallbackPc.done, CallbackPc.holds]
      · exact ⟨_, hat.setContext.moveCaller rfl,
          .handling hpc' hcb hkind harg hx' (fun hset => hsame.trans (hresult hset)), rfl, rfl⟩
  | answered hpc hx hleft =>
      cases hc
      rcases hx.callerStep hpc hat.own.context.live.2 h with
        ⟨_, _, rfl⟩ | ⟨pc', x', hpc', hx', hsame, rfl⟩
      · exact ⟨_, hat.moveCaller rfl, .readResult rfl (hleft.goto _), rfl, rfl⟩
      · refine ⟨_, hat.setContext.moveCaller rfl, ?_, rfl, rfl⟩
        rw [← hsame]
        exact .answered hpc' hx' (hleft.goto _)
  | readResult hpc hleft =>
      cases hc
      simp only [State.callerStep, hpc, Option.some.injEq, hat.own.context.live.2] at h
      subst h
      exact ⟨_, hat.moveCaller rfl, .unlock rfl (hleft.goto _), rfl, rfl⟩
  | @unlock _ _ _ v _ _ _ hpc hleft =>
      cases hc
      simp only [State.callerStep, hpc, Option.map_eq_some_iff] at h
      obtain ⟨m, _, rfl⟩ := h
      cases hleft with
      | own hkind =>
          simp only [hkind, if_false]
          exact ⟨_, hat.setContext.moveCaller rfl, .free rfl, rfl, rfl⟩
      | settled hkind hsettled =>
          simp only [hkind, if_true]
          exact ⟨_, hat.setContext.moveCaller rfl, .ret rfl hsettled, rfl, rfl⟩
  | free hpc =>
      cases hc
      simp only [State.callerStep, hpc, Option.some.injEq] at h
      subst h
      exact ⟨_, hat.free.moveCaller rfl, .ret rfl .freed, free_nextCall _ _,
        free_invalidFree hat.own.record.live.1⟩
  | ret hpc hsettled =>
      cases hc
      simp only [State.callerStep, hpc, Option.some.injEq, hat.own.log] at h
      subst h
      exact ⟨_, hat.dropContext.setLog.endCaller, .returned hsettled, rfl, rfl⟩

theorem advances_callback {cb : Callback} (hat : DividedAt P cb.id p s) (hp : Stage p)
    (hcb : p.callback = some cb) (hs : s.callback = some cb) (h : s.callbackStep cb = some s') :
    Advances P cb.id s s' := by
  have hid : ∀ d, s.callback = some d → d.id = cb.id := fun d hd => by
    rw [Option.some.inj (hd.symm.trans hs)]
  -- the last step of the callback of a read
  have hfree : ∀ {caller request context ctx log},
      DividedAt P cb.id ⟨caller, request, some cb, context, some (cb.arg, ctx), log⟩ s →
      cb.pc = .free →
      Stage ⟨caller, request, none, context, none, { log with freed := log.freed + 1 }⟩ →
      Advances P cb.id s s' := by
    intro caller request context ctx log hat hpc hstage
    simp only [State.callbackStep, hpc, Option.some.injEq] at h
    subst h
    exact ⟨_, hat.free.setCallback (by simpa using hid) nofun, hstage, free_nextCall _ _,
      free_invalidFree hat.own.record.live.1⟩
  cases hp with
  | unborn | malloc _ | forward _ | aborted _ | failed _ | failedReturn _ | failedReturned
  | pending _ _ | free _ => cases hcb
  | handling hpc hnotfree hkind harg hx hresult =>
      obtain rfl := (Option.some.inj hcb).symm
      have hrecord := hat.own.record.live.2
      rw [← harg] at hrecord
      rcases hx.callbackStep hresult hnotfree hrecord hat.own.context.live.2 h with
        ⟨pc', x', hnotfree', hx', hresult', rfl⟩ | ⟨x', hx', hresult', rfl⟩
      · exact ⟨_, hat.setContext.setCallback hid (by rintro _ ⟨⟩; rfl),
          .handling hpc hnotfree' hkind harg hx' hresult', rfl, rfl⟩
      · refine ⟨_, hat.setContext.setCallback hid ?_, ?_, rfl, rfl⟩
        · intro d hd
          split at hd <;> cases hd
          rfl
        · rw [← hresult']
          refine .answered hpc hx' ?_
          by_cases hread : cb.kind = .read
          · simp only [hread, if_true, ← harg]
            exact .settled (hkind ▸ hread) (.freeing rfl rfl)
          · simp only [hread, if_false]
            exact .own (hkind ▸ hread)
  | answered hpc hx hleft =>
      obtain rfl := hcb
      obtain ⟨⟨hcbpc, ⟨ctx, rfl⟩, rfl⟩, hkind⟩ := hleft.freeing_inv
      exact hfree hat hcbpc (.answered hpc hx (.settled hkind .freed))
  | readResult hpc hleft =>
      obtain rfl := hcb
      obtain ⟨⟨hcbpc, ⟨ctx, rfl⟩, rfl⟩, hkind⟩ := hleft.freeing_inv
      exact hfree hat hcbpc (.readResult hpc (.settled hkind .freed))
  | unlock hpc hleft =>
      obtain rfl := hcb
      obtain ⟨⟨hcbpc, ⟨ctx, rfl⟩, rfl⟩, hkind⟩ := hleft.freeing_inv
      exact hfree hat hcbpc (.unlock hpc (.settled hkind .freed))
  | ret hpc hsettled =>
      obtain rfl := hcb
      obtain ⟨hcbpc, ⟨ctx, rfl⟩, rfl⟩ := hsettled.freeing_inv
      exact hfree hat hcbpc (.ret hpc .freed)
  | returned hsettled =>
      obtain rfl := hcb
      obtain ⟨hcbpc, ⟨ctx, rfl⟩, rfl⟩ := hsettled.freeing_inv
      exact hfree hat hcbpc (.returned .freed)

theorem advances_malloc {t : τ} {c : Caller} {record : Nat} (hat : DividedAt P c.id p s)
    (hp : Stage p) (hc : p.caller = some (t, c)) (hpc : c.pc = .malloc)
    (hdead : s.recordOf record = none) :
    Advances P c.id s ((s.allocRecord record c.id c.ctx).setCaller t
      (some { c with record := record, pc := .forward })) := by
  cases hp with
  | unborn | failedReturned | returned _ => cases hc
  | malloc _ =>
      cases hc
      exact ⟨_, (hat.allocRecord hdead).moveCaller rfl, .forward rfl, rfl, rfl⟩
  | forward hpc' | aborted hpc' | failed hpc' | failedReturn hpc' | readResult hpc' _ | unlock hpc' _
  | free hpc' | ret hpc' _ =>
      cases hc
      cases hpc.symm.trans hpc'
  | pending hawaits _ | handling hawaits _ _ _ _ _ | answered hawaits _ _ =>
      cases hc
      rw [hpc] at hawaits
      cases hawaits

omit [DecidableEq τ] in
theorem exchange_init {t : τ} : Exchange t .lock (.init : Context τ) false false false :=
  ⟨rfl, rfl, nofun, nofun, nofun⟩

theorem advances_forward {t : τ} {c : Caller} (hat : DividedAt P c.id p s) (hp : Stage p)
    (hc : p.caller = some (t, c)) (hpc : c.pc = .forward) (ok : Bool) :
    Advances P c.id s
      (if ok then
        ((s.setRequest c.id (some ⟨c.kind, c.record⟩)).setLog c.id
          { s.log c.id with sent := true }).setCaller t (some { c with pc := .lock })
      else
        s.setCaller t (some { c with
          pc := if c.kind = .seek then .aborted else .free (-1) })) := by
  cases hp with
  | unborn | failedReturned | returned _ => cases hc
  | forward _ =>
      cases hc
      cases ok with
      | true =>
          simp only [if_true, hat.own.log]
          exact ⟨_, hat.setRequest.setLog.moveCaller rfl, .pending rfl exchange_init, rfl, rfl⟩
      | false =>
          simp only [Bool.false_eq_true, if_false]
          by_cases hseek : c.kind = .seek
          · simp only [hseek, if_true]
            exact ⟨_, hat.moveCaller rfl, .aborted rfl, rfl, rfl⟩
          · simp only [hseek, if_false]
            exact ⟨_, hat.moveCaller rfl, .failed rfl, rfl, rfl⟩
  | malloc hpc' | aborted hpc' | failed hpc' | failedReturn hpc' | readResult hpc' _ | unlock hpc' _
  | free hpc' | ret hpc' _ =>
      cases hc
      cases hpc.symm.trans hpc'
  | pending hawaits _ | handling hawaits _ _ _ _ _ | answered hawaits _ _ =>
      cases hc
      rw [hpc] at hawaits
      cases hawaits

theorem advances_spurious {t : τ} {c : Caller} (hat : DividedAt P c.id p s) (hp : Stage p)
    (hc : p.caller = some (t, c)) (hpc : c.pc = .blocked) :
    Advances P c.id s (s.setContext c.ctx { s.contexts c.ctx with
      monitor := (s.contexts c.ctx).monitor.wake (.caller t) }) := by
  cases hp with
  | unborn | failedReturned | returned _ => cases hc
  | malloc hpc' | forward hpc' | aborted hpc' | failed hpc' | failedReturn hpc' | readResult hpc' _
  | unlock hpc' _ | free hpc' | ret hpc' _ =>
      cases hc
      cases hpc.symm.trans hpc'
  | pending hawaits hx =>
      cases hc
      rw [hat.own.context.live.2]
      exact ⟨_, hat.setContext, .pending hawaits hx.wake, rfl, rfl⟩
  | handling hawaits hcb hkind harg hx hresult =>
      cases hc
      rw [hat.own.context.live.2]
      exact ⟨_, hat.setContext, .handling hawaits hcb hkind harg hx.wake hresult, rfl, rfl⟩
  | answered hawaits hx hleft =>
      cases hc
      rw [hat.own.context.live.2]
      exact ⟨_, hat.setContext, .answered hawaits hx.wake hleft, rfl, rfl⟩

omit [DecidableEq τ] in
theorem advances_trigger {i : Nat} {q : Request} (hat : DividedAt P i p s) (hp : Stage p)
    (hq : p.request = some q) (hidle : s.callback = none) (value : Int) :
    Advances P i s (((s.setRequest i none).setLog i
      { s.log i with response := some value }).setCallback
        (some ⟨i, q.kind, q.arg, value, .decode⟩)) := by
  cases hp with
  | pending hawaits hx =>
      cases hq
      rw [hat.own.log]
      refine ⟨_, hat.setRequest.setLog.setCallback (fun _ hcb => ?_) (by rintro _ ⟨⟩; rfl),
        .handling hawaits nofun rfl rfl hx nofun, rfl, rfl⟩
      cases hcb.symm.trans hidle
  | _ => cases hq

end Advances

/-! ## The invariant -/

section Invariant

variable {τ : Type}

/-- The state is divided among calls at their stages, and all memory that was
freed was alive. -/
def Inv (s : State τ) : Prop :=
  ∃ P : Nat → Part τ, Divided P s ∧ (∀ i, Stage (P i)) ∧
    (∀ i, s.nextCall ≤ i → P i = .empty τ) ∧ s.invalidFree = false

theorem inv_init : Inv (init τ) := by
  refine ⟨fun _ => .empty τ, fun i => ?_, fun _ => .unborn, fun _ _ => rfl, rfl⟩
  constructor <;> simp [init, Part.empty, Owns]

/-- A step of a call that has begun. -/
theorem Inv.advance {s s' : State τ} {P : Nat → Part τ} {i : Nat} (hstages : ∀ j, Stage (P j))
    (hnew : ∀ j, s.nextCall ≤ j → P j = .empty τ) (hfree : s.invalidFree = false)
    (hi : P i ≠ .empty τ) (h : Advances P i s s') : Inv s' := by
  obtain ⟨p, hp, hstage, hnext, hinvalid⟩ := h
  refine ⟨_, hp, fun j => ?_, fun j hj => ?_, hinvalid.trans hfree⟩
  · by_cases hj : j = i
    · subst hj
      simpa using hstage
    · simpa [hj] using hstages j
  · rw [hnext] at hj
    have hne : j ≠ i := fun heq => hi (heq ▸ hnew j hj)
    simpa [hne] using hnew j hj

variable [DecidableEq τ]

theorem Inv.step {s s' : State τ} {e : Event τ} (hi : Inv s)
    (h : (machine τ).step s e = some s') : Inv s' := by
  obtain ⟨P, hP, hstages, hnew, hfree⟩ := hi
  have hat : ∀ i, DividedAt P i (P i) s := fun i => by
    rw [DividedAt, Function.update_eq_self]
    exact hP
  have hcallerOf : ∀ {t c}, s.threads t = some c → (P c.id).caller = some (t, c) :=
    fun {t c} hc => ((hP c.id).caller t c).mp ⟨hc, rfl⟩
  have hrunning : ∀ {t c}, s.threads t = some c → P c.id ≠ .empty τ := fun hc hempty => by
    have hcaller := hcallerOf hc
    rw [hempty] at hcaller
    cases hcaller
  cases e with
  | call t kind ctx =>
      obtain ⟨⟨hidle, hdead⟩, rfl⟩ := guarded_eq_some.mp h
      have hbegin := hat s.nextCall
      rw [hnew s.nextCall le_rfl] at hbegin
      let c : Caller := ⟨s.nextCall, kind, ctx, 0, .malloc⟩
      have hstart := ((hbegin.allocContext hdead).startCaller
        (Option.isNone_iff_eq_none.mp hidle) (show c.id = s.nextCall from rfl)).setNextCall (s.nextCall + 1)
      refine ⟨_, hstart, fun j => ?_, fun j hj => ?_, hfree⟩
      · by_cases hj : j = s.nextCall
        · subst hj
          rw [Function.update_self]
          exact @Stage.malloc _ t c rfl
        · simpa [hj] using hstages j
      · have hlater : s.nextCall < j := hj
        rw [Function.update_of_ne hlater.ne']
        exact hnew j hlater.le
  | malloc t record =>
      obtain ⟨c, hc, h⟩ := Option.bind_eq_some_iff.mp h
      obtain ⟨⟨hpc, hdead⟩, rfl⟩ := guarded_eq_some.mp h
      exact .advance hstages hnew hfree (hrunning hc)
        (advances_malloc (hat c.id) (hstages c.id) (hcallerOf hc) hpc hdead)
  | forward t ok =>
      obtain ⟨c, hc, h⟩ := Option.bind_eq_some_iff.mp h
      obtain ⟨hpc, rfl⟩ := guarded_eq_some.mp h
      exact .advance hstages hnew hfree (hrunning hc)
        (advances_forward (hat c.id) (hstages c.id) (hcallerOf hc) hpc ok)
  | caller t =>
      obtain ⟨c, hc, h⟩ := Option.bind_eq_some_iff.mp h
      exact .advance hstages hnew hfree (hrunning hc)
        (advances_caller (hat c.id) (hstages c.id) (hcallerOf hc) h)
  | spurious t =>
      obtain ⟨c, hc, h⟩ := Option.bind_eq_some_iff.mp h
      obtain ⟨hpc, rfl⟩ := guarded_eq_some.mp h
      exact .advance hstages hnew hfree (hrunning hc)
        (advances_spurious (hat c.id) (hstages c.id) (hcallerOf hc) hpc)
  | trigger i value =>
      obtain ⟨q, hq, h⟩ := Option.bind_eq_some_iff.mp h
      obtain ⟨hidle, rfl⟩ := guarded_eq_some.mp h
      have hrequest : (P i).request = some q := (hP i).request.symm.trans hq
      have hsent : P i ≠ .empty τ := fun hempty => by
        rw [hempty] at hrequest
        cases hrequest
      exact .advance hstages hnew hfree hsent
        (advances_trigger (hat i) (hstages i) hrequest hidle value)
  | callback =>
      obtain ⟨cb, hcb, h⟩ := Option.bind_eq_some_iff.mp h
      have hmine := ((hP cb.id).callback cb).mp ⟨hcb, rfl⟩
      have hrunning' : P cb.id ≠ .empty τ := fun hempty => by
        rw [hempty] at hmine
        cases hmine
      exact .advance hstages hnew hfree hrunning'
        (advances_callback (hat cb.id) (hstages cb.id) hmine hcb h)

theorem inv_invariant : (machine τ).Invariant Inv where
  init := inv_init
  step _ hi h := hi.step h

end Invariant

/-! ## Each caller gets its own answer -/

/-- The callback's next step reads or frees its record. -/
def Callback.usesRecord (cb : Callback) : Bool :=
  match cb.pc with
  | .decode => decide (cb.kind ≠ .seek)
  | _       => true

/-- The callback's next step is on the context that its record leads to. -/
def Callback.usesContext (cb : Callback) : Bool :=
  match cb.pc with
  | .decode | .free => false
  | _               => true

structure Answered {τ : Type} (s : State τ) : Prop where
  /-- What a call returns is what the response to its request said. -/
  own : ∀ {i v}, (s.log i).sent = true → (s.log i).returned = some v → (s.log i).response = some v
  /-- A caller that is blocked although its flag is set is about to be woken up. -/
  awake : ∀ {t c}, s.threads t = some c → c.pc = .blocked →
    (s.contexts c.ctx).monitor.waiting (.caller t) = true → (s.contexts c.ctx).done = true →
    ∃ cb, s.callback = some cb ∧ cb.id = c.id ∧ cb.pc.wakes = true
  /-- A callback uses the record and the context of its own call, while they live. -/
  record : ∀ {cb}, s.callback = some cb → cb.usesRecord = true → s.recordOf cb.arg = some cb.id
  context : ∀ {cb}, s.callback = some cb → cb.usesContext = true →
    s.contextOf (s.records cb.arg) = some cb.id
  /-- Each record is freed once, at the latest by the callback that is left. -/
  freed : s.invalidFree = false ∧ (∀ i, (s.log i).freed ≤ 1) ∧
    ∀ i, (s.log i).returned ≠ none → (∀ cb, s.callback = some cb → cb.id ≠ i) →
      (s.log i).freed = 1

section Answered

variable {τ : Type} {p : Part τ}

theorem Settled.freed_le {cb : Option Callback} {record : Option (Nat × Nat)} {freed : Nat}
    (h : Settled cb record freed) : freed ≤ 1 := by
  cases h <;> omega

theorem Left.freed_le {c : Caller} {cb : Option Callback} {record : Option (Nat × Nat)}
    {freed : Nat} (h : Left c cb record freed) : freed ≤ 1 := by
  cases h with
  | own hkind => omega
  | settled hkind h => exact h.freed_le

theorem Stage.own (h : Stage p) {v : Int} (hsent : p.log.sent = true)
    (hreturned : p.log.returned = some v) : p.log.response = some v := by
  cases h with
  | returned _ => exact hreturned
  | failedReturned => cases hsent
  | _ => cases hreturned

/-- The context of a call lives as long as the call runs. -/
theorem Stage.context (h : Stage p) {t : τ} {c : Caller} (hc : p.caller = some (t, c)) :
    ∃ x, p.context = some (c.ctx, x) := by
  cases h with
  | unborn | failedReturned | returned _ => cases hc
  | _ =>
      cases hc
      exact ⟨_, rfl⟩

theorem Stage.awake (h : Stage p) {t : τ} {c : Caller} {x : Context τ}
    (hc : p.caller = some (t, c)) (hctx : p.context = some (c.ctx, x)) (hpc : c.pc = .blocked)
    (hwaits : x.monitor.waiting (.caller t) = true) (hdone : x.done = true) :
    ∃ cb, p.callback = some cb ∧ cb.pc.wakes = true := by
  cases h with
  | handling hawaits hcb hkind harg hx hresult =>
      cases hc
      cases hctx
      exact ⟨_, rfl, (hx.waits hwaits).2 (hx.flag.symm.trans hdone)⟩
  | pending hawaits hx =>
      cases hc
      cases hctx
      cases hx.flag.symm.trans hdone
  | answered hawaits hx hleft =>
      cases hc
      cases hctx
      cases (hx.waits hwaits).2 rfl
  | unborn | failedReturned | returned _ => cases hc
  | malloc hpc' | forward hpc' | aborted hpc' | failed hpc' | failedReturn hpc' | readResult hpc' _
  | unlock hpc' _ | free hpc' | ret hpc' _ =>
      cases hc
      cases hpc.symm.trans hpc'

/-- The callback of a call has a live record; before it only frees, the record
leads to the live context. -/
theorem Stage.memory (h : Stage p) {cb : Callback} (hcb : p.callback = some cb) :
    ∃ ctx, p.record = some (cb.arg, ctx) ∧ (cb.pc ≠ .free → ∃ x, p.context = some (ctx, x)) := by
  cases h with
  | handling hawaits hnotfree hkind harg hx hresult =>
      cases hcb
      exact ⟨_, by rw [harg], fun _ => ⟨_, rfl⟩⟩
  | answered _ _ hleft | readResult _ hleft | unlock _ hleft =>
      obtain rfl := hcb
      obtain ⟨⟨hpc, ⟨ctx, rfl⟩, _⟩, _⟩ := hleft.freeing_inv
      exact ⟨ctx, rfl, fun hne => absurd hpc hne⟩
  | ret _ hsettled | returned hsettled =>
      obtain rfl := hcb
      obtain ⟨hpc, ⟨ctx, rfl⟩, _⟩ := hsettled.freeing_inv
      exact ⟨ctx, rfl, fun hne => absurd hpc hne⟩
  | _ => cases hcb

theorem Stage.freed_le (h : Stage p) : p.log.freed ≤ 1 := by
  cases h with
  | answered _ _ hleft | readResult _ hleft | unlock _ hleft => exact hleft.freed_le
  | ret _ hsettled | returned hsettled => exact hsettled.freed_le
  | failedReturn _ | failedReturned => exact le_rfl
  | _ => exact Nat.zero_le 1

theorem Stage.freed_of_returned (h : Stage p) (hreturned : p.log.returned ≠ none)
    (hcb : p.callback = none) : p.log.freed = 1 := by
  cases h with
  | failedReturned => rfl
  | returned hsettled =>
      cases hsettled with
      | freed => rfl
      | freeing _ _ => cases hcb
  | _ => exact absurd rfl hreturned

theorem Inv.answered {s : State τ} (hi : Inv s) : Answered s := by
  obtain ⟨P, hP, hstages, _, hfree⟩ := hi
  refine ⟨?_, ?_, ?_, ?_, hfree, ?_, ?_⟩
  · intro i v hsent hreturned
    rw [(hP i).log] at hsent hreturned ⊢
    exact (hstages i).own hsent hreturned
  · intro t c hc hpc hwaits hdone
    have hcaller := ((hP c.id).caller t c).mp ⟨hc, rfl⟩
    obtain ⟨x, hctx⟩ := (hstages c.id).context hcaller
    obtain ⟨_, rfl⟩ := ((hP c.id).context c.ctx x).mpr hctx
    obtain ⟨cb, hcb, hwakes⟩ := (hstages c.id).awake hcaller hctx hpc hwaits hdone
    obtain ⟨hslot, hid⟩ := ((hP c.id).callback cb).mpr hcb
    exact ⟨cb, hslot, hid, hwakes⟩
  · intro cb hcb _
    have hmine := ((hP cb.id).callback cb).mp ⟨hcb, rfl⟩
    obtain ⟨ctx, hrecord, _⟩ := (hstages cb.id).memory hmine
    exact (((hP cb.id).record cb.arg ctx).mpr hrecord).1
  · intro cb hcb huses
    have hmine := ((hP cb.id).callback cb).mp ⟨hcb, rfl⟩
    obtain ⟨ctx, hrecord, hcontext⟩ := (hstages cb.id).memory hmine
    have hnotfree : cb.pc ≠ .free := fun hpc => by simp [Callback.usesContext, hpc] at huses
    obtain ⟨x, hx⟩ := hcontext hnotfree
    rw [(((hP cb.id).record cb.arg ctx).mpr hrecord).2]
    exact (((hP cb.id).context ctx x).mpr hx).1
  · intro i
    rw [(hP i).log]
    exact (hstages i).freed_le
  · intro i hreturned hnone
    rw [(hP i).log] at hreturned ⊢
    refine (hstages i).freed_of_returned hreturned ?_
    cases hcb : (P i).callback with
    | none => rfl
    | some cb =>
        obtain ⟨hslot, hid⟩ := ((hP i).callback cb).mpr hcb
        exact absurd hid (hnone cb hslot)

end Answered

/-- In every reachable state of any number of calls, each caller is answered. -/
theorem callers_answered {τ : Type} [DecidableEq τ] {s : State τ}
    (hs : (machine τ).Reachable s) : Answered s :=
  (inv_invariant.reachable hs).answered

/-- An open and a read whose responses arrive in the other order; the reader is
woken up once for nothing. -/
def openAndRead : List (Event Bool) :=
  [.call false .openFile 100, .call true .read 200, .malloc false 10, .malloc true 20,
    .forward false true, .forward true true, .caller true, .caller true, .caller true,
    .spurious true, .trigger 1 512] ++ List.replicate 6 .callback ++
  [.caller true, .caller true, .caller true, .caller true, .caller true, .callback,
    .trigger 0 7] ++ List.replicate 6 .callback ++ List.replicate 6 (.caller false)

theorem open_and_read_answered :
    ∃ s, (machine Bool).run openAndRead = some s ∧
      (s.log 0).returned = some 7 ∧ (s.log 1).returned = some 512 ∧ Answered s := by
  have hmap : ((machine Bool).run openAndRead).map
      (fun s => ((s.log 0).returned, (s.log 1).returned)) = some (some 7, some 512) := by
    decide +kernel
  obtain ⟨s, hrun, hs⟩ := Option.map_eq_some_iff.mp hmap
  obtain ⟨h₀, h₁⟩ := Prod.mk.inj hs
  exact ⟨s, hrun, h₀, h₁, callers_answered (Machine.reachable_of_run hrun)⟩

end MtHvac.Client.SyncContext
