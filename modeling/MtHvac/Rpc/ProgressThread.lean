-- SUMMARY: The progress thread: the loop that runs the callbacks of completed operations in order, when a callback is served, and what a shutdown leaves behind.
import MtHvac.Base.Progress

/-!
# The progress thread

Clients and servers run `hvac_progress_fn` in a thread of its own. `HG_Trigger` takes one
completed operation out of the completion queue and runs its callback: that of a response
in a client, the handler of a request in a server. `HG_Progress` looks for operations
that have completed since, and puts them into the queue. `hvac_shutdown_comm` sets the
flag that ends the loop.
-/

namespace MtHvac.ProgressThread

open Base

variable {σ ε κ : Type}

/-! ## The process -/

/-- A process that the thread is part of: `start` hands a completion to its callback, and
is not among the events that happen by themselves. `busy` says that a callback is at work,
`accepts` that an operation can complete while others wait for their callbacks. -/
structure Process (σ ε κ : Type) where
  machine : Machine σ ε
  start : κ → ε
  starts : ε → Bool
  busy : σ → Bool
  alive : σ → Bool
  accepts : σ → List κ → κ → Bool

/-- The return codes of `HG_Trigger`. -/
inductive HgReturn where
  | success
  | timeout
deriving DecidableEq

/-- What the thread does next. -/
inductive Pc where
  /-- `while (!hvac_progress_thread_shutdown_flags)` -/
  | loop
  | trigger
  /-- In `HG_Trigger`, which runs a callback. -/
  | running
  /-- `while ((ret == HG_SUCCESS) && actual_count && !hvac_progress_thread_shutdown_flags)` -/
  | again (ret : HgReturn) (actualCount : Nat)
  /-- `if (!hvac_progress_thread_shutdown_flags)` -/
  | test
  | progress
  | returned
deriving DecidableEq

/-- `arrived` are the completed operations that `HG_Progress` has not seen yet, `queue` is
the completion queue of `hg_context`. Beside them, all operations that have completed and
those whose callbacks were started are noted, in order. -/
structure State (σ κ : Type) where
  process : σ
  arrived : List κ
  queue : List κ
  pc : Pc
  shutdownFlags : Bool
  arrivals : List κ
  started : List κ

inductive Event (ε κ : Type) where
  /-- A step of the callback that is running, or of another thread. -/
  | process (e : ε)
  | arrive (k : κ)
  /-- A step of `hvac_progress_fn`, up to the callback in `HG_Trigger`. -/
  | next
  /-- `HG_Progress` finds some of what has completed, if there is anything. -/
  | hgProgress (n : Nat)
  | shutdown
deriving DecidableEq

/-! ## Steps -/

variable (P : Process σ ε κ)

/-- The callback returns with the last step of it. -/
def Process.after (s : σ) (pc : Pc) : Pc :=
  if pc = .running ∧ P.busy s = false then .again .success 1 else pc

def next (x : State σ κ) : Option (State σ κ) :=
  match x.pc with
  | .loop      => some { x with pc := if x.shutdownFlags then .returned else .trigger }
  | .trigger   =>
      match x.queue with
      | []      => some { x with pc := .again .timeout 0 }
      | k :: ks =>
          (P.machine.step x.process (P.start k)).map fun s =>
            { x with
              process := s
              queue := ks
              pc := P.after s .running
              started := x.started ++ [k] }
  | .again ret actualCount =>
      some { x with
        pc := if ret = .success ∧ actualCount ≠ 0 ∧ x.shutdownFlags = false then .trigger
          else .test }
  | .test      => some { x with pc := if x.shutdownFlags then .loop else .progress }
  | .running | .progress | .returned => none

def step (x : State σ κ) : Event ε κ → Option (State σ κ)
  | .process e    =>
      if P.starts e then none
      else
        (P.machine.step x.process e).map fun s =>
          { x with process := s, pc := P.after s x.pc }
  | .arrive k     =>
      guarded (P.accepts x.process (x.queue ++ x.arrived) k)
        { x with arrived := x.arrived ++ [k], arrivals := x.arrivals ++ [k] }
  | .next         => if P.alive x.process then next P x else none
  | .hgProgress n =>
      guarded (P.alive x.process ∧ x.pc = .progress ∧ n ≤ x.arrived.length ∧
          (x.arrived ≠ [] → 0 < n))
        { x with
          arrived := x.arrived.drop n
          queue := x.queue ++ x.arrived.take n
          pc := .loop }
  | .shutdown     => some { x with shutdownFlags := true }

def machine : Machine (State σ κ) (Event ε κ) where
  init :=
    { process := P.machine.init
      arrived := []
      queue := []
      pc := .loop
      shutdownFlags := false
      arrivals := []
      started := [] }
  step := step P

/-! ## What a step can do -/

variable {P}

/-- The steps, one rule for each way of the thread through its loop. -/
inductive Step (P : Process σ ε κ) (x : State σ κ) : Event ε κ → State σ κ → Prop
  | process {e : ε} {s : σ} (hother : P.starts e = false)
      (hs : P.machine.step x.process e = some s) :
      Step P x (.process e) { x with process := s, pc := P.after s x.pc }
  | arrive {k : κ} (haccepts : P.accepts x.process (x.queue ++ x.arrived) k = true) :
      Step P x (.arrive k) { x with arrived := x.arrived ++ [k], arrivals := x.arrivals ++ [k] }
  | enter (hpc : x.pc = .loop) (hflag : x.shutdownFlags = false) :
      Step P x .next { x with pc := .trigger }
  | leave (hpc : x.pc = .loop) (hflag : x.shutdownFlags = true) :
      Step P x .next { x with pc := .returned }
  | timeout (hpc : x.pc = .trigger) (hqueue : x.queue = []) :
      Step P x .next { x with pc := .again .timeout 0 }
  | start {k : κ} {ks : List κ} {s : σ} (hpc : x.pc = .trigger) (hqueue : x.queue = k :: ks)
      (hs : P.machine.step x.process (P.start k) = some s) :
      Step P x .next
        { x with
          process := s
          queue := ks
          pc := P.after s .running
          started := x.started ++ [k] }
  | again {actualCount : Nat} (hpc : x.pc = .again .success actualCount) (hran : actualCount ≠ 0)
      (hflag : x.shutdownFlags = false) : Step P x .next { x with pc := .trigger }
  | idle {ret : HgReturn} {actualCount : Nat} (hpc : x.pc = .again ret actualCount)
      (hend : ret = .timeout ∨ actualCount = 0 ∨ x.shutdownFlags = true) :
      Step P x .next { x with pc := .test }
  | look (hpc : x.pc = .test) (hflag : x.shutdownFlags = false) :
      Step P x .next { x with pc := .progress }
  | stop (hpc : x.pc = .test) (hflag : x.shutdownFlags = true) :
      Step P x .next { x with pc := .loop }
  | hgProgress {n : Nat} (hpc : x.pc = .progress) (hle : n ≤ x.arrived.length)
      (hsome : x.arrived ≠ [] → 0 < n) :
      Step P x (.hgProgress n)
        { x with
          arrived := x.arrived.drop n
          queue := x.queue ++ x.arrived.take n
          pc := .loop }
  | shutdown : Step P x .shutdown { x with shutdownFlags := true }

theorem step_cases {x x' : State σ κ} {e : Event ε κ} (h : (machine P).step x e = some x') :
    Step P x e x' := by
  cases e with
  | process e =>
      simp only [machine, step] at h
      split at h
      · cases h
      · next hother =>
          obtain ⟨s, hs, rfl⟩ := Option.map_eq_some_iff.mp h
          exact .process (Bool.eq_false_iff.mpr hother) hs
  | arrive k =>
      obtain ⟨haccepts, rfl⟩ := guarded_eq_some.mp h
      exact .arrive haccepts
  | next =>
      simp only [machine, step] at h
      split at h
      · unfold next at h
        cases hpc : x.pc with
        | loop =>
            simp only [hpc, Option.some.injEq] at h
            subst h
            split
            · next hflag => exact .leave hpc hflag
            · next hflag => exact .enter hpc (Bool.eq_false_iff.mpr hflag)
        | trigger =>
            rw [hpc] at h
            dsimp only at h
            split at h
            · next hqueue =>
                obtain rfl := Option.some.inj h
                exact .timeout hpc hqueue
            · next k ks hqueue =>
                obtain ⟨s, hs, rfl⟩ := Option.map_eq_some_iff.mp h
                exact .start hpc hqueue hs
        | again ret actualCount =>
            simp only [hpc, Option.some.injEq] at h
            subst h
            split
            · next hagain =>
                obtain ⟨rfl, hran, hflag⟩ := hagain
                exact .again hpc hran hflag
            · next hend =>
                refine .idle hpc ?_
                cases ret with
                | timeout => exact .inl rfl
                | success =>
                    by_cases hran : actualCount = 0
                    · exact .inr (.inl hran)
                    · simp only [true_and, hran, ne_eq, not_false_eq_true, Bool.not_eq_false] at hend
                      exact .inr (.inr hend)
        | test =>
            simp only [hpc, Option.some.injEq] at h
            subst h
            split
            · next hflag => exact .stop hpc hflag
            · next hflag => exact .look hpc (Bool.eq_false_iff.mpr hflag)
        | running | progress | returned => simp [hpc] at h
      · cases h
  | hgProgress n =>
      obtain ⟨⟨_, hpc, hle, hsome⟩, rfl⟩ := guarded_eq_some.mp h
      exact .hgProgress hpc hle hsome
  | shutdown =>
      obtain rfl := Option.some.inj h
      exact .shutdown

/-! ## What callbacks need -/

/-- The callbacks of the process come to an end. The events in `own` are steps of threads
that a callback may wait for; they use up the potential of the process, to which the start
of a callback adds `cost` and any other event `gain`. While a callback is at work, one of
them is possible. `Fits` says that the operations still to be served have a callback. -/
structure Serves (P : Process σ ε κ) (own : ε → Bool) (gain : ε → Nat) (cost : Nat)
    (Pot : σ → Nat → Prop) (Fits : σ → List κ → Prop) : Prop where
  init : Fits P.machine.init []
  init_idle : P.busy P.machine.init = false
  accept : ∀ {s ks k}, Fits s ks → P.accepts s ks k = true → Fits s (ks ++ [k])
  other : ∀ {s s' ks e}, Fits s ks → P.starts e = false → P.machine.step s e = some s' → Fits s' ks
  start : ∀ {s s' k ks}, Fits s (k :: ks) → P.machine.step s (P.start k) = some s' → Fits s' ks
  idle : ∀ {s s' e}, P.busy s = false → P.starts e = false → P.machine.step s e = some s' →
    P.busy s' = false
  ready : ∀ {s k ks}, P.alive s = true → Fits s (k :: ks) → P.busy s = false →
    ∃ s', P.machine.step s (P.start k) = some s'
  enabled : ∀ {s n}, P.alive s = true → Pot s n → P.busy s = true →
    ∃ e s', own e = true ∧ P.starts e = false ∧ P.machine.step s e = some s'
  spends : ∀ {s s' e n}, Pot s n → P.starts e = false → P.machine.step s e = some s' →
    ∃ n', Pot s' n' ∧ n' + (own e).toNat ≤ n + gain e
  costs : ∀ {s s' k n}, Pot s n → P.machine.step s (P.start k) = some s' →
    ∃ n', Pot s' n' ∧ n' ≤ n + cost

/-! ## Completions in order -/

/-- The thread has found the completion queue empty. -/
def Pc.scanned : Pc → Bool
  | .again .timeout _ | .test | .progress => true
  | _                                     => false

/-- Each completed operation was handed to its callback, or is still to come: in the order
of completion, none is lost, and none comes twice. Between two callbacks the thread looks
for more only when its queue is empty. -/
structure Kept (P : Process σ ε κ) (Fits : σ → List κ → Prop) (x : State σ κ) : Prop where
  order : x.arrivals = x.started ++ (x.queue ++ x.arrived)
  busy : P.busy x.process = true ↔ x.pc = .running
  fits : Fits x.process (x.queue ++ x.arrived)
  counted : ∀ n, x.pc = .again .success n → n ≠ 0
  scanned : x.pc.scanned = true → x.shutdownFlags = false → x.queue = []
  returned : x.pc = .returned → x.shutdownFlags = true

section Kept

variable {own : ε → Bool} {gain : ε → Nat} {cost : Nat} {Pot : σ → Nat → Prop}
  {Fits : σ → List κ → Prop} {x x' : State σ κ} {e : Event ε κ}

theorem Process.after_of_ne {s : σ} {pc : Pc} (h : pc ≠ .running) : P.after s pc = pc := by
  simp [Process.after, h]

theorem Process.after_busy {s : σ} (h : P.busy s = true) : P.after s .running = .running := by
  simp [Process.after, h]

theorem Process.after_idle {s : σ} (h : P.busy s = false) :
    P.after s .running = .again .success 1 := by
  simp [Process.after, h]

/-- In a callback, or just behind it. -/
theorem Process.after_running (s : σ) : P.busy s = true ∧ P.after s .running = .running ∨
    P.busy s = false ∧ P.after s .running = .again .success 1 := by
  cases h : P.busy s with
  | true => exact .inl ⟨rfl, P.after_busy h⟩
  | false => exact .inr ⟨rfl, P.after_idle h⟩

theorem Kept.idle (h : Kept P Fits x) (hpc : x.pc ≠ .running) : P.busy x.process = false :=
  Bool.eq_false_iff.mpr fun hbusy => hpc (h.busy.mp hbusy)

/-- The thread goes on outside of callbacks. -/
theorem Kept.goto (h : Kept P Fits x) (hfrom : x.pc ≠ .running) {pc : Pc} (hto : pc ≠ .running)
    (hcounted : ∀ n, pc = .again .success n → n ≠ 0)
    (hscanned : pc.scanned = true → x.shutdownFlags = false → x.queue = [])
    (hreturned : pc = .returned → x.shutdownFlags = true) : Kept P Fits { x with pc := pc } where
  order := h.order
  busy := iff_of_false (Bool.eq_false_iff.mp (h.idle hfrom)) hto
  fits := h.fits
  counted := hcounted
  scanned := hscanned
  returned := hreturned

theorem Kept.step (hP : Serves P own gain cost Pot Fits) (h : Kept P Fits x)
    (hs : Step P x e x') : Kept P Fits x' := by
  cases hs with
  | @process e s hother hs =>
      by_cases hpc : x.pc = .running
      · rw [hpc]
        obtain ⟨hbusy, hafter⟩ | ⟨hidle, hafter⟩ := P.after_running s <;> rw [hafter]
        · exact ⟨h.order, iff_of_true hbusy rfl, hP.other h.fits hother hs,
            by rintro _ ⟨⟩, by rintro ⟨⟩, by rintro ⟨⟩⟩
        · exact ⟨h.order, iff_of_false (Bool.eq_false_iff.mp hidle) (by rintro ⟨⟩),
            hP.other h.fits hother hs, by rintro _ ⟨⟩; exact Nat.one_ne_zero, by rintro ⟨⟩, by rintro ⟨⟩⟩
      · rw [P.after_of_ne hpc]
        have hidle : P.busy s = false := hP.idle (h.idle hpc) hother hs
        exact ⟨h.order, iff_of_false (Bool.eq_false_iff.mp hidle) hpc,
          hP.other h.fits hother hs, h.counted, h.scanned, h.returned⟩
  | @arrive k haccepts =>
      refine ⟨?_, h.busy, ?_, h.counted, h.scanned, h.returned⟩
      · simp [h.order]
      · simpa using hP.accept h.fits haccepts
  | enter hpc _ | again hpc _ _ =>
      exact h.goto (by rw [hpc]; rintro ⟨⟩) (by rintro ⟨⟩) (by rintro _ ⟨⟩) (by rintro ⟨⟩)
        (by rintro ⟨⟩)
  | leave hpc hflag =>
      exact h.goto (by rw [hpc]; rintro ⟨⟩) (by rintro ⟨⟩) (by rintro _ ⟨⟩) (by rintro ⟨⟩)
        fun _ => hflag
  | timeout hpc hqueue =>
      exact h.goto (by rw [hpc]; rintro ⟨⟩) (by rintro ⟨⟩) (by rintro _ ⟨⟩) (fun _ _ => hqueue)
        (by rintro ⟨⟩)
  | @start k ks s hpc hqueue hs =>
      have horder : x.arrivals = x.started ++ [k] ++ (ks ++ x.arrived) := by
        rw [h.order, hqueue]
        simp
      have hfits : Fits s (ks ++ x.arrived) := hP.start (by simpa [hqueue] using h.fits) hs
      obtain ⟨hbusy, hafter⟩ | ⟨hidle, hafter⟩ := P.after_running s <;> rw [hafter]
      · exact ⟨horder, iff_of_true hbusy rfl, hfits, by rintro _ ⟨⟩, by rintro ⟨⟩,
          by rintro ⟨⟩⟩
      · exact ⟨horder, iff_of_false (Bool.eq_false_iff.mp hidle) (by rintro ⟨⟩), hfits,
          by rintro _ ⟨⟩; exact Nat.one_ne_zero, by rintro ⟨⟩, by rintro ⟨⟩⟩
  | @idle ret actualCount hpc hend =>
      refine h.goto (by rw [hpc]; rintro ⟨⟩) (by rintro ⟨⟩) (by rintro _ ⟨⟩) (fun _ hflag => ?_)
        (by rintro ⟨⟩)
      cases ret with
      | timeout => exact h.scanned (by rw [hpc]; rfl) hflag
      | success =>
          rcases hend with hret | hzero | htrue
          · cases hret
          · exact absurd hzero (h.counted actualCount hpc)
          · cases hflag.symm.trans htrue
  | look hpc hflag =>
      exact h.goto (by rw [hpc]; rintro ⟨⟩) (by rintro ⟨⟩) (by rintro _ ⟨⟩)
        (fun _ hflag => h.scanned (by rw [hpc]; rfl) hflag) (by rintro ⟨⟩)
  | stop hpc hflag =>
      exact h.goto (by rw [hpc]; rintro ⟨⟩) (by rintro ⟨⟩) (by rintro _ ⟨⟩) (by rintro ⟨⟩)
        (by rintro ⟨⟩)
  | @hgProgress n hpc hle hsome =>
      have hmoved : x.queue ++ x.arrived.take n ++ x.arrived.drop n = x.queue ++ x.arrived := by
        rw [List.append_assoc, List.take_append_drop]
      refine ⟨?_, ?_, ?_, by rintro _ ⟨⟩, by rintro ⟨⟩, by rintro ⟨⟩⟩
      · rw [h.order, hmoved]
      · exact iff_of_false (Bool.eq_false_iff.mp (h.idle (by rw [hpc]; rintro ⟨⟩)))
          (by rintro ⟨⟩)
      · rw [hmoved]
        exact h.fits
  | shutdown =>
      exact ⟨h.order, h.busy, h.fits, h.counted, by rintro _ ⟨⟩, fun _ => rfl⟩

theorem kept_invariant (hP : Serves P own gain cost Pot Fits) :
    (machine P).Invariant (Kept P Fits) where
  init := ⟨rfl, iff_of_false (Bool.eq_false_iff.mp hP.init_idle) (by rintro ⟨⟩), hP.init,
    by rintro _ ⟨⟩, by rintro ⟨⟩, by rintro ⟨⟩⟩
  step _ h hs := h.step hP (step_cases hs)

end Kept

/-! ## When a callback is served -/

/-- The callbacks that have come to their ends. -/
def State.ended (x : State σ κ) : Nat :=
  if x.pc = .running then x.started.length - 1 else x.started.length

/-- The callback of the completion with the number `j` is over, or it is too late for it. -/
def Done (P : Process σ ε κ) (j : Nat) (x : State σ κ) : Prop :=
  j < x.ended ∨ x.shutdownFlags = true ∨ P.alive x.process = false

instance (j : Nat) : DecidablePred (Done P j) := fun x =>
  inferInstanceAs (Decidable (j < x.ended ∨ x.shutdownFlags = true ∨ P.alive x.process = false))

/-- Steps of the thread until it is before `HG_Trigger`, and one. -/
def Pc.rank : Pc → Nat
  | .loop | .running | .again .success _ => 5
  | .trigger                             => 4
  | .again .timeout _                    => 3
  | .test                                => 2
  | .progress                            => 1
  | .returned                            => 0

/-- What the thread has to do for the completion with the number `j`: it starts the
callbacks up to this one, and once around its loop it finds one completion at least. -/
def State.rank (cost j : Nat) (x : State σ κ) : Nat :=
  (cost + 2) * (j + 1 - x.started.length) + 5 * (j + 1 - x.started.length - x.queue.length) +
    x.pc.rank

/-- The steps that lead to the end of a callback. -/
def Event.spend (own : ε → Bool) : Event ε κ → Nat
  | .process e    => (own e).toNat
  | .next         => 1
  | .hgProgress _ => 1
  | _             => 0

def Event.gain (gain : ε → Nat) : Event ε κ → Nat
  | .process e => gain e
  | _          => 0

def Event.process? : Event ε κ → Option ε
  | .process e => some e
  | _          => none

theorem sum_gain (gain : ε → Nat) (es : List (Event ε κ)) :
    (es.map (Event.gain gain)).sum = ((es.filterMap Event.process?).map gain).sum := by
  induction es with
  | nil => rfl
  | cons e es ih =>
      cases e with
      | process e => simp [Event.gain, Event.process?, ih]
      | _ => simpa [Event.gain, Event.process?, List.filterMap_cons] using ih

section Served

variable {own : ε → Bool} {gain : ε → Nat} {cost : Nat} {Pot : σ → Nat → Prop}
  {Fits : σ → List κ → Prop} {x x' : State σ κ} {j : Nat}

theorem Pc.rank_after (s : σ) (pc : Pc) : (P.after s pc).rank = pc.rank := by
  unfold Process.after
  split
  · next h => rw [h.1]; rfl
  · rfl

theorem State.rank_le (x : State σ κ) (cost j : Nat) :
    x.rank cost j ≤ (cost + 7) * (j + 1 - x.started.length) + 5 := by
  have hpc : x.pc.rank ≤ 5 := by
    cases hpc : x.pc with
    | again ret n => cases ret <;> simp [Pc.rank]
    | _ => simp [Pc.rank]
  have hsplit : (cost + 7) * (j + 1 - x.started.length) =
      (cost + 2) * (j + 1 - x.started.length) + 5 * (j + 1 - x.started.length) := by
    rw [← Nat.add_mul]
  rw [State.rank, hsplit]
  omega

/-- The work for the callback with the number `j`: what is left of those in progress, and
the way of the thread to it. -/
def Work (P : Process σ ε κ) (Pot : σ → Nat → Prop) (Fits : σ → List κ → Prop) (cost j : Nat)
    (x : State σ κ) (n : Nat) : Prop :=
  Kept P Fits x ∧ j < x.arrivals.length ∧ ∃ m, Pot x.process m ∧ n = m + x.rank cost j

/-- The thread goes on outside of callbacks, one step nearer to the next one. -/
theorem Work.goto {n : Nat} {pc : Pc} (h : Work P Pot Fits cost j x n)
    (hkept : Kept P Fits { x with pc := pc }) (hlt : pc.rank < x.pc.rank) :
    ∃ n', Work P Pot Fits cost j { x with pc := pc } n' ∧ n' + 1 ≤ n := by
  obtain ⟨_, hj, m, hm, rfl⟩ := h
  refine ⟨_, ⟨hkept, hj, m, hm, rfl⟩, ?_⟩
  simp only [State.rank]
  omega

/-- A callback that is not over has not been started, unless it is the one at work. -/
theorem started_le (hpc : x.pc ≠ .running) (hnot : ¬ j < x.ended) : x.started.length ≤ j := by
  rw [State.ended, if_neg hpc] at hnot
  exact Nat.le_of_not_lt hnot

theorem potential (hP : Serves P own gain cost Pot Fits) (j : Nat) :
    Machine.Potential ((machine P).before (Done P j)) (Event.spend own) (Event.gain gain)
      (Work P Pot Fits cost j) where
  step := by
    intro x x' e n hwork hbefore
    obtain ⟨hwaiting, hrun⟩ := Machine.before_eq_some.mp hbefore
    rw [Done, not_or, not_or, Bool.not_eq_true] at hwaiting
    obtain ⟨hnot, hflag, _⟩ := hwaiting
    have hstep := step_cases hrun
    have hkept := hwork.1.step hP hstep
    obtain ⟨h, hj, m, hm, rfl⟩ := id hwork
    cases hstep with
    | @process e s hother hs =>
        obtain ⟨m', hm', hle⟩ := hP.spends hm hother hs
        refine ⟨_, ⟨hkept, hj, m', hm', rfl⟩, ?_⟩
        simp only [State.rank, Pc.rank_after, Event.spend, Event.gain]
        omega
    | arrive _ =>
        refine ⟨_, ⟨hkept, ?_, m, hm, rfl⟩, le_rfl⟩
        rw [List.length_append]
        omega
    | shutdown => exact ⟨_, ⟨hkept, hj, m, hm, rfl⟩, le_rfl⟩
    | leave _ htrue | stop _ htrue => cases hflag.symm.trans htrue
    | enter hpc _ | timeout hpc _ | again hpc _ _ | look hpc _ =>
        exact hwork.goto hkept (by rw [hpc]; simp [Pc.rank])
    | @idle ret actualCount hpc hend =>
        cases ret with
        | timeout => exact hwork.goto hkept (by rw [hpc]; simp [Pc.rank])
        | success =>
            rcases hend with hret | hzero | htrue
            · cases hret
            · exact absurd hzero (h.counted actualCount hpc)
            · cases hflag.symm.trans htrue
    | @start k ks s hpc hqueue hs =>
        obtain ⟨m', hm', hle⟩ := hP.costs hm hs
        refine ⟨_, ⟨hkept, hj, m', hm', rfl⟩, ?_⟩
        obtain ⟨b, hb⟩ : ∃ b, j + 1 - x.started.length = b + 1 := by
          have hlate := started_le (by rw [hpc]; rintro ⟨⟩) hnot
          exact ⟨j - x.started.length, by omega⟩
        have hrest : j + 1 - (x.started.length + 1) = b := by omega
        simp only [State.rank, Pc.rank_after, hpc, hqueue, List.length_append, List.length_cons,
          List.length_nil, hb, Nat.zero_add, hrest, Event.spend, Event.gain, Nat.mul_succ]
        simp only [Pc.rank]
        omega
    | @hgProgress n hpc hle hsome =>
        refine ⟨_, ⟨hkept, hj, m, hm, rfl⟩, ?_⟩
        have hlate := started_le (by rw [hpc]; rintro ⟨⟩) hnot
        have hempty := h.scanned (by rw [hpc]; rfl) hflag
        have hcount : x.arrivals.length = x.started.length + x.arrived.length := by
          rw [h.order, hempty, List.nil_append, List.length_append]
        have hpos : 0 < n := hsome fun hnil => by
          rw [hnil, List.length_nil] at hcount
          omega
        simp only [State.rank, hpc, hempty, List.nil_append, List.length_take, List.length_nil,
          Event.spend, Event.gain, Pc.rank, Nat.min_eq_left hle]
        omega

/-- The thread can go on until it has returned, or the callback at work can, or who this
one waits for. -/
theorem Kept.enabled (hP : Serves P own gain cost Pot Fits) (h : Kept P Fits x) {n : Nat}
    (hn : Pot x.process n) (halive : P.alive x.process = true) (hpc : x.pc ≠ .returned) :
    ∃ e x', e.spend own = 1 ∧ (machine P).step x e = some x' := by
  have hnext : ∀ {x'}, next P x = some x' →
      ∃ e x', Event.spend own e = 1 ∧ (machine P).step x e = some x' := by
    intro x' hs
    exact ⟨.next, x', rfl, by simpa [machine, ProgressThread.step, halive] using hs⟩
  cases hpc' : x.pc with
  | loop | again _ _ | test => exact hnext (by simp only [next, hpc']; rfl)
  | trigger =>
      cases hqueue : x.queue with
      | nil => exact hnext (by simp only [next, hpc', hqueue]; rfl)
      | cons k ks =>
          have hfits := h.fits
          rw [hqueue] at hfits
          obtain ⟨s, hs⟩ := hP.ready halive hfits (h.idle (by rw [hpc']; rintro ⟨⟩))
          exact hnext (by simp only [next, hpc', hqueue, hs]; rfl)
  | running =>
      obtain ⟨e, s, hown, hother, hs⟩ := hP.enabled halive hn (h.busy.mpr hpc')
      refine ⟨.process e, { x with process := s, pc := P.after s x.pc }, by simp [Event.spend, hown],
        ?_⟩
      simp [machine, ProgressThread.step, hother, hs]
  | progress =>
      exact ⟨.hgProgress x.arrived.length, _, rfl,
        guarded_eq_some.mpr ⟨⟨halive, hpc', le_rfl, List.length_pos_iff.mpr⟩, rfl⟩⟩
  | returned => exact absurd hpc' hpc

/-- A completed operation does not wait for its callback for ever. Until this callback is
over, or the thread is shut down, its number in the order of completion bounds the steps of
the thread, of its callbacks and of those that these wait for, however much completes
meanwhile; and one of these steps is possible. -/
theorem served (hP : Serves P own gain cost Pot Fits) (hx : (machine P).Reachable x) {n : Nat}
    (hn : Pot x.process n) (hj : j < x.arrivals.length) {es : List (Event ε κ)}
    (hwaits : (machine P).Avoids (Done P j) x es) (hrun : (machine P).runFrom x es = some x') :
    (es.map (Event.spend own)).sum ≤
        n + (cost + 7) * (j + 1 - x.started.length) + 5 + (es.map (Event.gain gain)).sum ∧
      (¬ Done P j x' → ∃ e x'', e.spend own = 1 ∧ (machine P).step x' e = some x'') := by
  have hwork : Work P Pot Fits cost j x (n + x.rank cost j) :=
    ⟨(kept_invariant hP).reachable hx, hj, n, hn, rfl⟩
  obtain ⟨n', hwork', hle⟩ := (potential hP j).run hwork (hwaits.runFrom_before hrun)
  have hrank := x.rank_le cost j
  refine ⟨by omega, fun hwaiting => ?_⟩
  rw [Done, not_or, not_or, Bool.not_eq_true, Bool.not_eq_false] at hwaiting
  obtain ⟨_, hflag, halive⟩ := hwaiting
  obtain ⟨hkept, _, m, hm, _⟩ := hwork'
  refine hkept.enabled hP hm halive fun hpc => ?_
  cases hflag.symm.trans (hkept.returned hpc)

/-- What the process has left of its potential, if the start of a callback costs nothing. -/
theorem process_potential (hP : Serves P own gain 0 Pot Fits) :
    Machine.Potential (machine P) (fun _ => 0) (Event.gain gain) fun x n => Pot x.process n where
  step := by
    intro x x' e n hn hrun
    cases step_cases hrun with
    | process hother hs =>
        obtain ⟨n', hn', hle⟩ := hP.spends hn hother hs
        exact ⟨n', hn', (Nat.le_add_right _ _).trans hle⟩
    | start _ _ hs => exact hP.costs hn hs
    | _ => exact ⟨n, hn, le_rfl⟩

end Served

/-- The process makes steps of its own only. -/
theorem process_reachable {x : State σ κ} (h : (machine P).Reachable x) :
    P.machine.Reachable x.process := by
  induction h with
  | init => exact .init
  | step _ hrun ih =>
      cases step_cases hrun with
      | process _ hs | start _ _ hs => exact ih.step hs
      | _ => exact ih

/-! ## Shutdown -/

/-- Steps of the thread that are left once the flag is set. -/
def Pc.left : Pc → Nat
  | .trigger              => 4
  | .running | .again _ _ => 3
  | .test | .progress     => 2
  | .loop                 => 1
  | .returned             => 0

/-- Callbacks that may be started once the flag is set: the flag was read before. -/
def Pc.starts : Pc → Nat
  | .trigger => 1
  | _        => 0

/-- A step of `hvac_progress_fn` itself. -/
def Event.ofThread : Event ε κ → Nat := Event.spend fun _ => false

section Shutdown

variable {x x' : State σ κ} {es : List (Event ε κ)}

theorem Pc.left_after (s : σ) (pc : Pc) : (P.after s pc).left = pc.left := by
  unfold Process.after
  split
  · next h => rw [h.1]; rfl
  · rfl

theorem Pc.starts_after (s : σ) (pc : Pc) : (P.after s pc).starts = pc.starts := by
  unfold Process.after
  split
  · next h => rw [h.1]; rfl
  · rfl

/-- The flag stays, the thread gets nearer to its end, and it starts what it may start. -/
theorem Step.shutdown_left {e : Event ε κ} (hs : Step P x e x') (hflag : x.shutdownFlags = true) :
    x'.shutdownFlags = true ∧ x'.pc.left + e.ofThread ≤ x.pc.left ∧
      x'.started.length + x'.pc.starts ≤ x.started.length + x.pc.starts := by
  cases hs with
  | process _ _ =>
      refine ⟨hflag, ?_, ?_⟩
      · simp [Pc.left_after, Event.ofThread, Event.spend]
      · simp [Pc.starts_after]
  | arrive _ | shutdown => exact ⟨by simp [hflag], le_rfl, le_rfl⟩
  | enter _ hfalse | again _ _ hfalse | look _ hfalse => cases hflag.symm.trans hfalse
  | start hpc _ _ =>
      refine ⟨hflag, ?_, ?_⟩
      · rw [Pc.left_after, hpc]
        exact le_rfl
      · rw [Pc.starts_after, hpc, List.length_append]
        exact le_rfl
  | leave hpc _ | timeout hpc _ | idle hpc _ | stop hpc _ | hgProgress hpc _ _ =>
      exact ⟨hflag, by simp [hpc, Pc.left, Event.ofThread, Event.spend], by simp [hpc, Pc.starts]⟩

/-- A thread that has read the flag starts no callback any more. -/
theorem Step.past_trigger {e : Event ε κ} (hs : Step P x e x') (hflag : x.shutdownFlags = true)
    (hpc : x.pc ≠ .trigger) : x'.pc ≠ .trigger ∧ (x'.process = x.process ∨
      ∃ e, P.starts e = false ∧ P.machine.step x.process e = some x'.process) := by
  cases hs with
  | @process e s hother hs =>
      refine ⟨?_, .inr ⟨e, hother, hs⟩⟩
      dsimp only [Process.after]
      split
      · rintro ⟨⟩
      · exact hpc
  | arrive _ | shutdown => exact ⟨hpc, .inl rfl⟩
  | enter _ hfalse | again _ _ hfalse | look _ hfalse => cases hflag.symm.trans hfalse
  | timeout htrigger _ | start htrigger _ _ => exact absurd htrigger hpc
  | leave _ _ | idle _ _ | stop _ _ | hgProgress _ _ _ => exact ⟨by rintro ⟨⟩, .inl rfl⟩

/-- After `hvac_shutdown_comm` the thread takes four steps of its own at most, and starts one
more callback at most, and only if it was before `HG_Trigger`. -/
theorem stops (hflag : x.shutdownFlags = true) (hrun : (machine P).runFrom x es = some x') :
    (es.map Event.ofThread).sum ≤ 4 ∧
      x'.started.length ≤ x.started.length + x.pc.starts := by
  have hpotential : Machine.Potential (machine P) Event.ofThread (fun _ => 0) fun x n =>
      x.shutdownFlags = true ∧ n = x.pc.left := by
    constructor
    rintro x x' e _ ⟨hflag, rfl⟩ hs
    obtain ⟨hflag', hle, _⟩ := (step_cases hs).shutdown_left hflag
    exact ⟨_, ⟨hflag', rfl⟩, hle⟩
  have hstarted : x'.shutdownFlags = true ∧
      x'.started.length + x'.pc.starts ≤ x.started.length + x.pc.starts := by
    refine Machine.runFrom_keeps (I := fun y => y.shutdownFlags = true ∧
      y.started.length + y.pc.starts ≤ x.started.length + x.pc.starts) ?_ ⟨hflag, le_rfl⟩ hrun
    rintro y y' e ⟨hy, hle⟩ hs
    obtain ⟨hflag', _, hle'⟩ := (step_cases hs).shutdown_left hy
    exact ⟨hflag', hle'.trans hle⟩
  obtain ⟨n, _, hle⟩ := hpotential.run ⟨hflag, rfl⟩ hrun
  have hleft : x.pc.left ≤ 4 := by
    cases x.pc <;> simp [Pc.left]
  have hzero : (es.map fun _ => 0).sum = 0 := by simp
  exact ⟨by omega, by omega⟩

end Shutdown

end MtHvac.ProgressThread
