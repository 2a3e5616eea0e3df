-- SUMMARY: Calls that wait for a response: each has its one message in flight unless its server has aborted, and every other call can return.
import MtHvac.Base.Progress
import MtHvac.Server.Handling
import MtHvac.System.Names

/-!
# Waiting for a response

The client waits for the response of an open or read request without a time-out, so
a message that is lost leaves a thread of the application blocked for ever. The
invariant finds the message of each thread that waits. With it, the handlers of the
servers that come to an end, and the programs of the client, every call is followed
to its return.
-/

namespace MtHvac.System

open Base Client

variable {γ τ : Type} [DecidableEq γ] [DecidableEq τ] {cfg : Config}

/-! ## Each waiting thread has a message -/

/-- The exchange of a thread of a client with a server. -/
def Message.ExchangeOf (m : Message γ τ) (c : γ) (t : τ) (host : Int) : Prop :=
  m.tag.client = c ∧ m.thread = t ∧ m.host = host ∧ m.body.isClose = false

structure Waits (s : State γ τ) : Prop where
  pending : ∀ c t run host req, (s.clients c).threads t = some run →
    run.awaiting = some (host, req) → (s.servers host).alive = true →
      ∃ m ∈ s.network, m.ExchangeOf c t host
  handled : ∀ host path, (s.servers host).progress.request = some path →
    ∃ m ∈ s.network, m.host = host ∧ m.body = .opening path

omit [DecidableEq γ] in
/-- A thread that waits after a step of its client was waiting before, or has sent its
request in this step. -/
theorem awaiting_before [Fintype τ] (c : γ) {st st' : Client.State τ} {e : Client.Event τ}
    (hs : Client.Step cfg discipline st e st') {t : τ} {run : Running}
    (hrun : st'.threads t = some run) {host : Int} {req : Request}
    (hawait : run.awaiting = some (host, req)) :
    (∃ run₀, st.threads t = some run₀ ∧ run₀.awaiting = some (host, req)) ∨
      ∃ m ∈ sent c st e, m.ExchangeOf c t host := by
  cases hs with
  | @call t' c' hidle hcall =>
      by_cases ht : t = t'
      · subst ht
        simp only [Client.State.begin, setThread_self, Option.some.injEq] at hrun
        subst hrun
        cases hawait
      · exact .inl ⟨run, by simpa [Client.State.begin, ht] using hrun, hawait⟩
  | @ret t' run' v hrun' hcode =>
      by_cases ht : t = t'
      · subst ht
        simp [Client.State.finish] at hrun
      · exact .inl ⟨run, by simpa [Client.State.finish, ht] using hrun, hawait⟩
  | @op t' a run' o k r w hrun' hcode hact =>
      by_cases ht : t = t'
      · subst ht
        simp only [setThread_self, Option.some.injEq] at hrun
        subst hrun
        cases o with
        | forward fd host' req' =>
            obtain ⟨rfl, _⟩ := Prod.mk.inj (Option.some.inj hact)
            cases hok : a.ok with
            | false => simp [Running.resume, Op.awaitingAfter, hok] at hawait
            | true =>
                right
                have hop := nextOp_of_code hrun' hcode
                refine ⟨⟨⟨c, fd, run'.incarnation⟩, t, host', .request req'⟩, ?_, rfl, rfl, ?_⟩
                · simp [sent, hop, hok, hrun']
                · cases req' <;> simp_all [Running.resume, Op.awaitingAfter, Request.awaited,
                    Body.isClose]
        | openOutput fd | readOutput fd => cases hawait
        | _ => exact .inl ⟨run', hrun', hawait⟩
      · exact .inl ⟨run, by simpa [ht] using hrun, hawait⟩

omit [DecidableEq γ] in
/-- A thread that has fetched its response does not wait. -/
theorem fetched_awaiting [Fintype τ] {st st' : Client.State τ} {t : τ} {a : Answer} {fd : Int}
    (hop : st.nextOp t = some (.openOutput fd) ∨ st.nextOp t = some (.readOutput fd))
    (hs : Client.Step cfg discipline st (.step t a) st') :
    ∃ run', st'.threads = st.setThread t (some run') ∧ run'.awaiting = none := by
  cases hs with
  | @op _ _ run o k r w hrun hcode hact =>
      have hop' := nextOp_of_code hrun hcode
      rcases hop with hop | hop <;>
        · obtain rfl := Option.some.inj (hop'.symm.trans hop)
          exact ⟨_, rfl, rfl⟩

/-- Only taking an open request makes a server work on one. -/
theorem request_before {sv sv' : Server.State} {e : Server.Event}
    (hs : Server.machine.step sv e = some sv') (hopen : ∀ path, e ≠ .openRequest path)
    {path : Path} (hrequest : sv'.progress.request = some path) :
    sv.progress.request = some path := by
  cases (Server.step_cases hs).2 with
  | openRequest _ => exact absurd rfl (hopen _)
  | openMiss hpc _ | openHit hpc _ | openRedirect hpc =>
      rw [hpc]
      exact hrequest
  | readRequest hpc =>
      obtain ⟨_, _, _, hframe⟩ := sv.handleRead_frame _ _
      rw [hframe] at hrequest
      exact hrequest
  | seekRequest hpc =>
      obtain ⟨_, hframe⟩ := sv.handleSeek_frame _ _ _
      rw [hframe] at hrequest
      exact hrequest
  | openFail _ | openOk _ _ _ _ | closeRequest _ | closeUncached _ _ | closeCached _ _
  | closeLock _ _ | closePush _ | closeSignal _ | closeUnlock _ _ | closeErase _ => cases hrequest
  | _ => exact hrequest

/-- What a server that takes a read request does with the message. -/
theorem receiveRead_step [Fintype τ] {s s' : State γ τ} {m : Message γ τ} {env : ReadEnv}
    {req : HvacRpcIn} (hbody : m.body = .request (.read req))
    (hs : (machine γ cfg).step s (.receive m env) = some s') :
    s'.clients = s.clients ∧ ((∃ ret, s'.network = s.replace m [{ m with body := .answered ret }]) ∨
      s'.network = s.replace m [] ∧ (s'.servers m.host).alive = false) := by
  simp only [machine, step, receive, hbody, Option.ite_none_right_eq_some,
    Option.map_eq_some_iff] at hs
  obtain ⟨_, server', hserver, rfl⟩ := hs
  refine ⟨rfl, ?_⟩
  cases hreply : ((s.servers m.host).handleRead req env).1 with
  | answered bytes ret => exact .inl ⟨ret, by simp⟩
  | aborted =>
      refine .inr ⟨by simp, ?_⟩
      cases (Server.step_cases hserver).2 with
      | readRequest _ => simpa using Server.aborted_alive hreply

omit [DecidableEq γ] [DecidableEq τ] in
/-- A server that steps, and a network in which the exchange of each thread goes on. -/
theorem Waits.server {s : State γ τ} (h : Waits s) {host : Int} {server' : Server.State}
    {network' : List (Message γ τ)} {owner' : Int → Table Int (Tag γ)} {closed' : List (Tag γ)}
    (halive : server'.alive = true → (s.servers host).alive = true)
    (hkept : ∀ m ∈ s.network, m.body.isClose = false → m.host = host → server'.alive = true →
      ∃ b : Body, { m with body := b } ∈ network' ∧ b.isClose = false)
    (hother : ∀ m ∈ s.network, m.host ≠ host → m ∈ network')
    (hhandled : ∀ path, server'.progress.request = some path →
      ∃ m ∈ network', m.host = host ∧ m.body = .opening path) :
    Waits ⟨s.clients, Function.update s.servers host server', owner', network', closed'⟩ := by
  refine ⟨fun c t run host' req hrun hawait hlive => ?_, fun host' path hrequest => ?_⟩
  · by_cases hhost : host' = host
    · subst hhost
      simp only [Function.update_self] at hlive
      obtain ⟨m, hm, hc, ht, hat, hcl⟩ := h.pending c t run host' req hrun hawait (halive hlive)
      obtain ⟨b, hb, hbody⟩ := hkept m hm hcl hat hlive
      exact ⟨_, hb, hc, ht, hat, hbody⟩
    · simp only [Function.update_of_ne hhost] at hlive
      obtain ⟨m, hm, hex⟩ := h.pending c t run host' req hrun hawait hlive
      refine ⟨m, hother m hm ?_, hex⟩
      rw [hex.2.2.1]
      exact hhost
  · by_cases hhost : host' = host
    · subst hhost
      simp only [Function.update_self] at hrequest
      exact hhandled path hrequest
    · simp only [Function.update_of_ne hhost] at hrequest
      obtain ⟨m, hm, hat, hbody⟩ := h.handled host' path hrequest
      exact ⟨m, hother m hm (by rw [hat]; exact hhost), hat, hbody⟩

theorem Waits.step [Fintype τ] {s s' : State γ τ} {e : Event γ τ} (h : Waits s) (hi : Inv cfg s)
    (hs : (machine γ cfg).step s e = some s') : Waits s' := by
  -- an exchange that goes on, and those that it leaves alone
  have hkept : ∀ (m : Message γ τ) (b : Body), b.isClose = false → ∀ m' ∈ s.network,
      m'.body.isClose = false →
        ∃ b' : Body, { m' with body := b' } ∈ s.replace m [{ m with body := b }] ∧
          b'.isClose = false := by
    intro m b hb m' hm' hcl
    by_cases hne : m' = m
    · subst hne
      exact ⟨b, hi.mem_replace.mpr (.inl List.mem_cons_self), hb⟩
    · exact ⟨m'.body, hi.mem_replace.mpr (.inr ⟨hne, hm'⟩), hcl⟩
  have hother : ∀ {m : Message γ τ} {ms : List (Message γ τ)}, ∀ m' ∈ s.network, m'.host ≠ m.host →
      m' ∈ s.replace m ms := by
    intro m ms m' hm' hne
    refine hi.mem_replace.mpr (.inr ⟨?_, hm'⟩)
    rintro rfl
    exact hne rfl
  cases step_cases hs with
  | @client c e client' hquiet hstep =>
      have hclient := Client.step_cases hstep
      refine ⟨fun c' t run host req hrun hawait hlive => ?_, fun host path hrequest => ?_⟩
      · by_cases hc : c' = c
        · subst hc
          simp only [Function.update_self] at hrun
          rcases awaiting_before c' hclient hrun hawait with ⟨run₀, hrun₀, hawait₀⟩ | hnew
          · obtain ⟨m, hm, hex⟩ := h.pending c' t run₀ host req hrun₀ hawait₀ hlive
            exact ⟨m, List.mem_append_right _ hm, hex⟩
          · obtain ⟨m, hm, hex⟩ := hnew
            exact ⟨m, List.mem_append_left _ hm, hex⟩
        · simp only [Function.update_of_ne hc] at hrun
          obtain ⟨m, hm, hex⟩ := h.pending c' t run host req hrun hawait hlive
          exact ⟨m, List.mem_append_right _ hm, hex⟩
      · obtain ⟨m, hm, hat, hbody⟩ := h.handled host path hrequest
        exact ⟨m, List.mem_append_right _ hm, hat, hbody⟩
  | @server host e server' hint hstep =>
      refine h.server (fun _ => (Server.step_cases hstep).1) (fun m hm hcl _ _ => ⟨m.body, hm, hcl⟩)
        (fun m hm _ => hm) fun path hrequest => h.handled host path ?_
      refine request_before hstep ?_ hrequest
      rintro path' rfl
      cases hint
  | @receiveOpen m env path server' hm hbody hstep =>
      refine h.server (fun _ => (Server.step_cases hstep).1)
        (fun m' hm' hcl _ _ => hkept m (.opening path) rfl m' hm' hcl) hother
        fun path' hrequest => ?_
      cases (Server.step_cases hstep).2 with
      | openRequest _ =>
          obtain rfl := Option.some.inj hrequest
          exact ⟨_, hi.mem_replace.mpr (.inl List.mem_cons_self), rfl, rfl⟩
  | @receiveRead m env req server' ms hm hbody hstep hms =>
      have hidle : ∀ path, server'.progress.request ≠ some path := by
        intro path hrequest
        have hbefore := request_before hstep (by rintro _ ⟨⟩) hrequest
        cases (Server.step_cases hstep).2 with
        | readRequest hpc =>
            rw [hpc] at hbefore
            cases hbefore
      refine h.server (fun _ => (Server.step_cases hstep).1) (fun m' hm' hcl hat hlive => ?_) hother
        fun path hrequest => absurd hrequest (hidle path)
      rcases (receiveRead_step hbody hs).2 with ⟨ret, hnetwork⟩ | ⟨_, hdead⟩
      · have hgoes := hkept m (.answered ret) rfl m' hm' hcl
        rw [← hnetwork] at hgoes
        exact hgoes
      · simp only [Function.update_self] at hdead
        cases hlive.symm.trans hdead
  | @receiveClose m env fd server' hm hbody hstep =>
      refine h.server (fun _ => (Server.step_cases hstep).1) (fun m' hm' hcl _ _ => ?_) hother
        fun path hrequest => ?_
      · refine ⟨m'.body, hi.mem_replace.mpr (.inr ⟨?_, hm'⟩), hcl⟩
        rintro rfl
        rw [hbody] at hcl
        cases hcl
      · cases (Server.step_cases hstep).2 with
        | closeRequest _ => cases hrequest
  | @openFailed m path server' hm hbody hstep =>
      refine h.server (fun _ => (Server.step_cases hstep).1)
        (fun m' hm' hcl _ _ => hkept m (.opened (-1)) rfl m' hm' hcl) hother
        fun path' hrequest => ?_
      cases (Server.step_cases hstep).2 with
      | openFail _ => cases hrequest
  | @opened m path fd server' hm hbody hstep =>
      refine h.server (fun _ => (Server.step_cases hstep).1)
        (fun m' hm' hcl _ _ => hkept m (.opened fd) rfl m' hm' hcl) hother
        fun path' hrequest => ?_
      cases (Server.step_cases hstep).2 with
      | openOk _ _ _ _ => cases hrequest
  | @respond m value client' hm hvalue hstep =>
      have hclient := Client.step_cases hstep
      have hfetch : (∃ fd, (s.clients m.tag.client).nextOp m.thread = some (.openOutput fd) ∨
          (s.clients m.tag.client).nextOp m.thread = some (.readOutput fd)) ∧
          m.body.isClose = false ∧ ∀ path, m.body ≠ .opening path := by
        cases hbody : m.body with
        | request req => rw [hbody] at hvalue; cases hvalue
        | opening path => rw [hbody] at hvalue; cases hvalue
        | opened status =>
            simp only [hbody, Body.value] at hvalue
            split at hvalue
            · next fd hop => exact ⟨⟨fd, .inl hop⟩, rfl, by rintro _ ⟨⟩⟩
            · cases hvalue
        | answered ret =>
            simp only [hbody, Body.value] at hvalue
            split at hvalue
            · next fd hop => exact ⟨⟨fd, .inr hop⟩, rfl, by rintro _ ⟨⟩⟩
            · cases hvalue
      obtain ⟨⟨fd, hop⟩, hclose, hopening⟩ := hfetch
      obtain ⟨run', hthreads, hdone⟩ := fetched_awaiting hop hclient
      have hstay : ∀ {m'}, m' ∈ s.network → m' ≠ m → m' ∈ s.replace m [] := fun hm' hne =>
        hi.mem_replace.mpr (.inr ⟨hne, hm'⟩)
      refine ⟨fun c t run host req hrun hawait hlive => ?_, fun host path hrequest => ?_⟩
      · by_cases hc : c = m.tag.client
        · subst hc
          simp only [Function.update_self, hthreads] at hrun
          have hne : t ≠ m.thread := by
            rintro rfl
            rw [setThread_self] at hrun
            obtain rfl := Option.some.inj hrun
            cases hdone.symm.trans hawait
          rw [setThread_of_ne _ _ hne] at hrun
          obtain ⟨m', hm', hex⟩ := h.pending _ t run host req hrun hawait hlive
          refine ⟨m', hstay hm' ?_, hex⟩
          rintro rfl
          exact hne hex.2.1.symm
        · simp only [Function.update_of_ne hc] at hrun
          obtain ⟨m', hm', hex⟩ := h.pending c t run host req hrun hawait hlive
          refine ⟨m', hstay hm' ?_, hex⟩
          rintro rfl
          exact hc hex.1.symm
      · obtain ⟨m', hm', hat, hbody⟩ := h.handled host path hrequest
        refine ⟨m', hstay hm' ?_, hat, hbody⟩
        rintro rfl
        exact hopening path hbody

theorem waits_invariant [Fintype τ] :
    (machine γ cfg : Machine (State γ τ) _).Invariant Waits where
  init :=
    { pending := by
        intro c t run host req hrun
        cases hrun
      handled := by
        intro host path hrequest
        cases hrequest }
  step hr h hs := h.step (inv_invariant.reachable hr) hs

omit [DecidableEq γ] [DecidableEq τ] in
/-- A thread has one exchange in flight at most. -/
theorem Inv.exchange_unique {s : State γ τ} (h : Inv cfg s) {m m' : Message γ τ} {c : γ} {t : τ}
    {host host' : Int} (hm : m ∈ s.network) (hm' : m' ∈ s.network) (hex : m.ExchangeOf c t host)
    (hex' : m'.ExchangeOf c t host') : m = m' := by
  refine h.eq_of_key hm hm' ?_
  rw [Message.key_of_exchange hex.2.2.2, Message.key_of_exchange hex'.2.2.2, hex.1, hex.2.1,
    hex'.1, hex'.2.1]

/-- No request and no response is lost or duplicated: no message is in flight twice, a
thread that waits for a server has exactly one message in flight with it, unless the server
has aborted; and a message in flight belongs to the request that its thread waits with. -/
theorem waiting_threads_have_messages [Fintype τ] {s : State γ τ}
    (h : (machine γ cfg).Reachable s) {c : γ} {t : τ} {host : Int}
    (halive : (s.servers host).alive = true) :
    s.network.Nodup ∧
    (∀ run req, (s.clients c).threads t = some run → run.awaiting = some (host, req) →
      ∃! m, m ∈ s.network ∧ m.ExchangeOf c t host) ∧
    ∀ m ∈ s.network, m.ExchangeOf c t host → m.AwaitedBy (s.clients c) := by
  have hi : Inv cfg s := inv_invariant.reachable h
  refine ⟨hi.unique.of_map _, fun run req hrun hawait => ?_, fun m hm hex => ?_⟩
  · obtain ⟨m, hm, hex⟩ := (waits_invariant.reachable h).pending c t run host req hrun hawait halive
    exact ⟨m, ⟨hm, hex⟩, fun m' ⟨hm', hex'⟩ => hi.exchange_unique hm' hm hex' hex⟩
  · have hawaited := hi.awaited m hm hex.2.2.2
    rwa [hex.1] at hawaited

theorem waiting_threads_have_messages_in_read :
    ∃ s, (machine Unit dataDirConfig).run openAndRead = some s ∧
      ∃! m, m ∈ s.network ∧ m.ExchangeOf () () 1 := by
  have hseen : ((machine Unit dataDirConfig).run openAndRead).map (fun s =>
      ((s.servers 1).alive, ((s.clients ()).threads ()).map Running.awaiting)) =
        some (true, some (some (1, .read (readRequest 7 16 (-1))))) := by
    decide +kernel
  obtain ⟨s, hrun, hx⟩ := Option.map_eq_some_iff.mp hseen
  obtain ⟨halive, hthread⟩ := Prod.mk.inj hx
  obtain ⟨run, hrunning, hawait⟩ := Option.map_eq_some_iff.mp hthread
  exact ⟨s, hrun, (waiting_threads_have_messages (Machine.reachable_of_run hrun) halive).2.1 run _
    hrunning hawait⟩

/-! ## Handlers settle in the system -/

/-- What goes on while handlers come to an end: the clients stand still, no server dies, and
the messages stay in flight, but for the open requests that are answered. -/
structure Follows (s s' : State γ τ) : Prop where
  clients : s'.clients = s.clients
  alive : ∀ host, (s.servers host).alive = true → (s'.servers host).alive = true
  messages : ∀ m ∈ s.network, m ∈ s'.network ∨ (∃ path, m.body = .opening path) ∧
    ∃ status, { m with body := .opened status } ∈ s'.network

omit [DecidableEq γ] [DecidableEq τ] in
theorem Follows.refl (s : State γ τ) : Follows s s := ⟨rfl, fun _ h => h, fun _ hm => .inl hm⟩

omit [DecidableEq γ] [DecidableEq τ] in
theorem Follows.trans {s s' s'' : State γ τ} (h : Follows s s') (h' : Follows s' s'') :
    Follows s s'' := by
  refine ⟨h'.clients.trans h.clients, fun host hlive => h'.alive host (h.alive host hlive),
    fun m hm => ?_⟩
  rcases h.messages m hm with hstay | ⟨hopening, status, hopened⟩
  · exact h'.messages m hstay
  · refine .inr ⟨hopening, status, ?_⟩
    rcases h'.messages _ hopened with hstay | ⟨⟨path, hbody⟩, _⟩
    · exact hstay
    · cases hbody

/-- A handler at work goes one step on. -/
theorem settle_step [Fintype τ] {s : State γ τ} (h : (machine γ cfg).Reachable s) {host : Int}
    (halive : (s.servers host).alive = true) (hbusy : (s.servers host).progress ≠ .idle) :
    ∃ e s', (machine γ cfg).step s e = some s' ∧ Follows s s' ∧
      (s'.servers host).remaining < (s.servers host).remaining := by
  have hi : Inv cfg s := inv_invariant.reachable h
  have hserver := reachable_server h host
  obtain ⟨e, server', he, hstep⟩ := Server.settles_ranking.enabled ⟨hserver, halive⟩ hbusy
  obtain ⟨⟨_, halive'⟩, hlt⟩ :=
    Server.settles_ranking.lowers ⟨hserver, halive⟩ hbusy he hstep
  have hlive : ∀ host', (s.servers host').alive = true →
      (Function.update s.servers host server' host').alive = true := by
    intro host' hlive
    by_cases hhost : host' = host
    · subst hhost
      rwa [Function.update_self]
    · rwa [Function.update_of_ne hhost]
  have hrank : (Function.update s.servers host server' host).remaining <
      (s.servers host).remaining := by
    rwa [Function.update_self]
  by_cases hcall : ∃ fd, e = .openCall fd
  · obtain ⟨fd, rfl⟩ := hcall
    -- the response of the open request that the server works on is sent
    have hrequest : ∃ path, (s.servers host).progress.request = some path := by
      cases (Server.step_cases hstep).2 with
      | openFail hpc => exact ⟨_, by rw [hpc]; rfl⟩
      | openOk hpc _ _ _ => exact ⟨_, by rw [hpc]; rfl⟩
    obtain ⟨path, hrequest⟩ := hrequest
    obtain ⟨m, hm, rfl, hbody⟩ := (waits_invariant.reachable h).handled host path hrequest
    obtain ⟨owner', hs⟩ : ∃ owner', (machine γ cfg).step s (.opened m fd) =
        some ⟨s.clients, Function.update s.servers m.host server', owner',
          s.replace m [{ m with body := .opened (fd.getD (-1)) }], s.closed⟩ :=
      ⟨_, by simp only [machine, step, hbody, if_pos hm, hstep, Option.map_some]; rfl⟩
    refine ⟨.opened m fd, _, hs, ⟨rfl, hlive, fun m' hm' => ?_⟩, hrank⟩
    by_cases hne : m' = m
    · subst hne
      exact .inr ⟨⟨path, hbody⟩, _, hi.mem_replace.mpr (.inl List.mem_cons_self)⟩
    · exact .inl (hi.mem_replace.mpr (.inr ⟨hne, hm'⟩))
  · have hint : internal e = true := by
      cases e with
      | openCall fd => exact absurd ⟨fd, rfl⟩ hcall
      | openRequest path | readRequest req env | seekRequest fd offset whence
      | closeRequest fd => cases he
      | _ => rfl
    have hs : (machine γ cfg).step s (.server host e) =
        some { s with servers := Function.update s.servers host server' } := by
      simp only [machine, step, if_pos hint, hstep, Option.map_some]
    exact ⟨.server host e, _, hs, ⟨rfl, hlive, fun m hm => .inl hm⟩, hrank⟩

/-- A server can come to rest. -/
theorem can_settle [Fintype τ] {s : State γ τ} (h : (machine γ cfg).Reachable s) {host : Int}
    (halive : (s.servers host).alive = true) :
    (machine γ cfg).CanReach s fun s' => Follows s s' ∧ (s'.servers host).progress = .idle := by
  induction hn : (s.servers host).remaining using Nat.strong_induction_on generalizing s with
  | _ n ih =>
      subst hn
      by_cases hidle : (s.servers host).progress = .idle
      · exact .here ⟨Follows.refl s, hidle⟩
      · obtain ⟨e, s₁, hstep, hfollow, hlt⟩ := settle_step h halive hidle
        obtain ⟨es, s', hrun, hfollow', hidle'⟩ :=
          ih _ hlt (h.step hstep) (hfollow.alive host halive) rfl
        exact .step hstep ⟨es, s', hrun, hfollow.trans hfollow', hidle'⟩

/-! ## Responses arrive -/

/-- What can come of an exchange: a response for the thread that waits, or a server that has
aborted. -/
def Answered (s : State γ τ) (m : Message γ τ) (s' : State γ τ) : Prop :=
  s'.clients = s.clients ∧ ((s'.servers m.host).alive = false ∨
    (∃ status, { m with body := .opened status } ∈ s'.network) ∨
      ∃ ret, { m with body := .answered ret } ∈ s'.network)

/-- The handler of an open request comes to its response. -/
theorem opening_answered [Fintype τ] {s : State γ τ} (h : (machine γ cfg).Reachable s)
    {m : Message γ τ} (hm : m ∈ s.network) {path : Path} (hbody : m.body = .opening path)
    (halive : (s.servers m.host).alive = true) :
    (machine γ cfg).CanReach s (Answered s m) := by
  refine (can_settle h halive).trans h fun s₁ h₁ ⟨hfollow, hidle⟩ => .here ⟨hfollow.clients, ?_⟩
  rcases hfollow.messages m hm with hstay | ⟨_, status, hopened⟩
  · have hrequest := (traced_invariant.reachable h₁).opening m hstay path hbody
    rw [hidle] at hrequest
    cases hrequest
  · exact .inr (.inl ⟨status, hopened⟩)

/-- A server at rest takes a request. -/
theorem request_taken [Fintype τ] {s : State γ τ} (h : (machine γ cfg).Reachable s)
    {m : Message γ τ} (hm : m ∈ s.network) {req : Request} (hbody : m.body = .request req)
    (hclose : m.body.isClose = false) (halive : (s.servers m.host).alive = true)
    (hidle : (s.servers m.host).progress = .idle) :
    (machine γ cfg).CanReach s (Answered s m) := by
  cases req with
  | close rfd =>
      rw [hbody] at hclose
      cases hclose
  | openFile path =>
      have hserver : Server.machine.step (s.servers m.host) (.openRequest path) =
          some { s.servers m.host with progress := .openFind path } := by
        simp [Server.machine, Server.step, Server.progressStep, halive, hidle, guarded]
      have hs : (machine γ cfg).step s (.receive m ⟨false, false⟩) = some { s with
          servers := Function.update s.servers m.host
            { s.servers m.host with progress := .openFind path }
          network := s.replace m [{ m with body := .opening path }] } := by
        simp only [machine, step, if_pos hm, receive, hbody, hserver, Option.map_some]
      refine .step hs ?_
      have hmem : { m with body := .opening path } ∈
          s.replace m [{ m with body := .opening path }] :=
        (inv_invariant.reachable h).mem_replace.mpr (.inl List.mem_cons_self)
      obtain ⟨es, s', hrun, hclients, hanswered⟩ := opening_answered (h.step hs) hmem rfl
        (by simpa using halive)
      exact ⟨es, s', hrun, hclients, hanswered⟩
  | read req =>
      obtain ⟨server', hserver⟩ : ∃ server',
          Server.machine.step (s.servers m.host) (.readRequest req ⟨false, false⟩) =
            some server' :=
        ⟨_, by simp [Server.machine, Server.step, Server.progressStep, halive, hidle, guarded]; rfl⟩
      obtain ⟨s', hs⟩ : ∃ s', (machine γ cfg).step s (.receive m ⟨false, false⟩) = some s' :=
        ⟨_, by simp only [machine, step, if_pos hm, receive, hbody, hserver, Option.map_some]; rfl⟩
      obtain ⟨hclients, hreply⟩ := receiveRead_step hbody hs
      refine .step hs (.here ⟨hclients, ?_⟩)
      rcases hreply with ⟨ret, hnetwork⟩ | ⟨_, hdead⟩
      · refine .inr (.inr ⟨ret, ?_⟩)
        rw [hnetwork]
        exact (inv_invariant.reachable h).mem_replace.mpr (.inl List.mem_cons_self)
      · exact .inl hdead

/-- Whatever the servers are doing, a message in flight can be answered. -/
theorem message_answered [Fintype τ] {s : State γ τ} (h : (machine γ cfg).Reachable s)
    {m : Message γ τ} (hm : m ∈ s.network) (hclose : m.body.isClose = false)
    (halive : (s.servers m.host).alive = true) :
    (machine γ cfg).CanReach s (Answered s m) := by
  cases hbody : m.body with
  | opening path => exact opening_answered h hm hbody halive
  | opened status =>
      exact .here ⟨rfl, .inr (.inl ⟨status, by rw [← hbody]; exact hm⟩)⟩
  | answered ret =>
      exact .here ⟨rfl, .inr (.inr ⟨ret, by rw [← hbody]; exact hm⟩)⟩
  | request req =>
      refine (can_settle h halive).trans h fun s₁ h₁ ⟨hfollow, hidle⟩ => ?_
      have hstay : m ∈ s₁.network := by
        rcases hfollow.messages m hm with hstay | ⟨⟨path, hopening⟩, _⟩
        · exact hstay
        · cases hbody.symm.trans hopening
      obtain ⟨es, s', hrun, hclients, hanswered⟩ :=
        request_taken h₁ hstay hbody hclose (hfollow.alive m.host halive) hidle
      exact ⟨es, s', hrun, hclients.trans hfollow.clients, hanswered⟩

/-! ## Calls return -/

/-- The call of the thread has returned, or it waits for a server that has aborted. -/
def Settled (c : γ) (t : τ) (s : State γ τ) : Prop :=
  (s.clients c).threads t = none ∨ ∃ run host req, (s.clients c).threads t = some run ∧
    run.awaiting = some (host, req) ∧ (s.servers host).alive = false

omit [DecidableEq γ] [DecidableEq τ] in
/-- Some answer lets an operation happen. -/
theorem act_possible (w : World) (incarnation : Option Nat) (o : Op) :
    ∃ a r w', w.act incarnation o a = some (r, w') := by
  cases o with
  | realOpen path flags => exact ⟨{ fd := none }, none, w, rfl⟩
  | fdStateTimedWait fd => exact ⟨{ ok := false }, false, w, by simp [World.act, guarded]⟩
  | _ => exact ⟨{}, _, _, rfl⟩

omit [DecidableEq γ] in
theorem client_step [Fintype τ] {st : Client.State τ} {t : τ} (a : Answer) {run : Running} {o : Op}
    {k : o.Res → Code Int} {r : o.Res} {w : World} (hrun : st.threads t = some run)
    (hcode : run.code = .call o k) (hact : st.world.act run.incarnation o a = some (r, w)) :
    (disciplined τ cfg).step st (.step t a) = some { st with
      world := w
      threads := st.setThread t (some (run.resume st.world o r (k r))) } := by
  simp only [disciplined, Client.machine, Client.step, hrun, hcode, hact, Option.map_some]

/-- A thread that is about to fetch a response takes the one in flight for it. -/
theorem response_fetched [Fintype τ] {s : State γ τ} (h : (machine γ cfg).Reachable s)
    {m : Message γ τ} (hm : m ∈ s.network)
    (hbody : (∃ status, m.body = .opened status) ∨ ∃ ret, m.body = .answered ret) {run : Running}
    {o : Op} {k : o.Res → Code Int} (hrun : (s.clients m.tag.client).threads m.thread = some run)
    (hcode : run.code = .call o k) :
    ∃ s' r run', (machine γ cfg).step s (.respond m) = some s' ∧
      (s'.clients m.tag.client).threads m.thread = some run' ∧ run'.code = k r := by
  have hi : Inv cfg s := inv_invariant.reachable h
  have hclose : m.body.isClose = false := by
    rcases hbody with ⟨status, hbody⟩ | ⟨ret, hbody⟩ <;> rw [hbody] <;> rfl
  obtain ⟨hok, _⟩ := hi.clients m.tag.client
  have hrunning := hok.running m.thread run hrun
  obtain ⟨run₀, req, hrun₀, hon, _, hawait, hfrom⟩ := hi.awaited m hm hclose
  obtain rfl := Option.some.inj (hrun.symm.trans hrun₀)
  have hop' := nextOp_of_code hrun hcode
  have hstep : ∀ {value : Int} {client' : Client.State τ},
      m.body.value ((s.clients m.tag.client).nextOp m.thread) = some value →
      (disciplined τ cfg).step (s.clients m.tag.client) (.step m.thread { value := value }) =
        some client' →
      (machine γ cfg).step s (.respond m) = some { s with
        clients := Function.update s.clients m.tag.client client'
        network := s.replace m [] } := by
    intro value client' hvalue hclient
    simp only [machine, step, if_pos hm, hvalue, Option.bind_some, hclient, Option.map_some]
  obtain ⟨fd, hop | hop⟩ := awaiting_nextOp hok hrun (by simp [hawait])
  · obtain rfl := Option.some.inj (hop'.symm.trans hop)
    obtain ⟨_, _, host, path, hawait', _⟩ := hrunning.allowed hcode rfl
    obtain rfl := (Prod.mk.inj (Option.some.inj (hawait.symm.trans hawait'))).2
    rcases hbody with ⟨status, hbody⟩ | ⟨ret, hbody⟩
    · refine ⟨_, status, run.resume (s.clients m.tag.client).world (.openOutput fd) status (k status),
        hstep (by rw [hbody, hop]; rfl) (client_step { value := status } hrun hcode rfl), ?_, rfl⟩
      simp
    · rw [hbody] at hfrom
      obtain ⟨_, hfrom⟩ := hfrom
      cases hfrom
  · obtain rfl := Option.some.inj (hop'.symm.trans hop)
    obtain ⟨_, host, req', hawait', _⟩ := hrunning.allowed hcode rfl
    obtain rfl := (Prod.mk.inj (Option.some.inj (hawait.symm.trans hawait'))).2
    rcases hbody with ⟨status, hbody⟩ | ⟨ret, hbody⟩
    · rw [hbody] at hfrom
      obtain ⟨_, hfrom⟩ := hfrom
      cases hfrom
    · refine ⟨_, ret, run.resume (s.clients m.tag.client).world (.readOutput fd) ret (k ret),
        hstep (by rw [hbody, hop]; rfl) (client_step { value := ret } hrun hcode rfl), ?_, rfl⟩
      simp

/-- The next step of a call, whatever it is before. -/
theorem call_goes_on [Fintype τ] {s : State γ τ} (h : (machine γ cfg).Reachable s) {c : γ} {t : τ}
    {run : Running} {o : Op} {k : o.Res → Code Int} (hrun : (s.clients c).threads t = some run)
    (hcode : run.code = .call o k) :
    (machine γ cfg).CanReach s fun s' => Settled c t s' ∨
      ∃ r run', (s'.clients c).threads t = some run' ∧ run'.code = k r := by
  have hi : Inv cfg s := inv_invariant.reachable h
  have hop := nextOp_of_code hrun hcode
  cases hawait : run.awaiting with
  | some await =>
      obtain ⟨host, req⟩ := await
      by_cases halive : (s.servers host).alive = true
      · obtain ⟨m, hm, rfl, rfl, rfl, hclose⟩ :=
          (waits_invariant.reachable h).pending c t run host req hrun hawait halive
        refine (message_answered h hm hclose halive).trans h fun s₁ h₁ ⟨hclients, hanswer⟩ => ?_
        have hrun₁ : (s₁.clients m.tag.client).threads m.thread = some run := by rwa [hclients]
        rcases hanswer with hdead | hresponse
        · exact .here (.inl (.inr ⟨run, m.host, req, hrun₁, hawait, hdead⟩))
        · obtain ⟨m₁, hm₁, htag, hthread, hbody₁⟩ : ∃ m₁ ∈ s₁.network, m₁.tag = m.tag ∧
              m₁.thread = m.thread ∧
                ((∃ status, m₁.body = .opened status) ∨ ∃ ret, m₁.body = .answered ret) := by
            rcases hresponse with ⟨status, hm₁⟩ | ⟨ret, hm₁⟩
            · exact ⟨_, hm₁, rfl, rfl, .inl ⟨status, rfl⟩⟩
            · exact ⟨_, hm₁, rfl, rfl, .inr ⟨ret, rfl⟩⟩
          obtain ⟨s₂, r, run', hstep, hrun', hcode'⟩ := response_fetched h₁ hm₁ hbody₁
            (by rw [htag, hthread]; exact hrun₁) hcode
          refine .step hstep (.here (.inr ⟨r, run', ?_, hcode'⟩))
          rw [htag, hthread] at hrun'
          exact hrun'
      · exact .here (.inl (.inr ⟨run, host, req, hrun, hawait, by simpa using halive⟩))
  | none =>
      obtain ⟨a, r, w, hact⟩ := act_possible (s.clients c).world run.incarnation o
      have hrunning := (hi.clients c).1.running t run hrun
      have hquiet : fetches (s.clients c) (.step t a) = false := by
        simp only [fetches, hop]
        split
        · next fd heq =>
            obtain rfl := Option.some.inj heq
            obtain ⟨_, _, _, _, hawait', _⟩ := hrunning.allowed hcode rfl
            cases hawait.symm.trans hawait'
        · next fd heq =>
            obtain rfl := Option.some.inj heq
            obtain ⟨_, _, _, hawait', _⟩ := hrunning.allowed hcode rfl
            cases hawait.symm.trans hawait'
        · rfl
      have hstep : (machine γ cfg).step s (.client c (.step t a)) = some { s with
          clients := Function.update s.clients c { s.clients c with
            world := w
            threads := (s.clients c).setThread t
              (some (run.resume (s.clients c).world o r (k r))) }
          network := sent c (s.clients c) (.step t a) ++ s.network } := by
        simp only [machine, step, hquiet, Bool.false_eq_true, if_false,
          client_step a hrun hcode hact, Option.map_some]
      refine .step hstep (.here (.inr ⟨r, run.resume (s.clients c).world o r (k r), ?_, rfl⟩))
      simp

/-- From every reachable state, each call in progress can return, unless it waits for the
response of a server that has aborted: the clients, the messages and the servers never block
each other. -/
theorem calls_can_return [Fintype τ] {s : State γ τ} (h : (machine γ cfg).Reachable s) (c : γ)
    (t : τ) : (machine γ cfg).CanReach s (Settled c t) := by
  cases hrun : (s.clients c).threads t with
  | none => exact .here (.inl hrun)
  | some run =>
      -- by induction on what is left of the call
      generalize hcode : run.code = code
      induction code generalizing s run with
      | ret v =>
          have hclient : (disciplined τ cfg).step (s.clients c) (.ret t) =
              some ((s.clients c).finish t run) := by
            simp only [disciplined, Client.machine, Client.step, hrun, hcode]
          have hstep : (machine γ cfg).step s (.client c (.ret t)) = some { s with
              clients := Function.update s.clients c ((s.clients c).finish t run)
              network := sent c (s.clients c) (.ret t) ++ s.network } := by
            simp [machine, step, fetches, hclient]
          refine .step hstep (.here (.inl ?_))
          simp [Client.State.finish]
      | call o k ih =>
          refine (call_goes_on h hrun hcode).trans h fun s' h' hnext => ?_
          rcases hnext with hsettled | ⟨r, run', hrun', hcode'⟩
          · exact .here hsettled
          · exact ih r h' run' hrun' hcode'

theorem calls_can_return_in_read :
    ∃ s, (machine Unit dataDirConfig).run openAndRead = some s ∧
      (machine Unit dataDirConfig).CanReach s (Settled () ()) := by
  have hsome : ((machine Unit dataDirConfig).run openAndRead).isSome = true := by decide +kernel
  obtain ⟨s, hrun⟩ := Option.isSome_iff_exists.mp hsome
  exact ⟨s, hrun, calls_can_return (Machine.reachable_of_run hrun) () ()⟩

/-! ## Servers that have aborted -/

/-- The thread waits for a server that has aborted before it sent the response. -/
structure Abandoned (s : State γ τ) (c : γ) (t : τ) (run : Running) (host : Int) : Prop where
  waits : (s.clients c).threads t = some run ∧ ∃ req, run.awaiting = some (host, req)
  dead : (s.servers host).alive = false
  unanswered : ∀ m ∈ s.network, m.ExchangeOf c t host →
    (∃ req, m.body = .request req) ∨ ∃ path, m.body = .opening path

/-- A server that has aborted does nothing any more. -/
theorem dead_step {sv : Server.State} (hdead : sv.alive = false) (e : Server.Event) :
    Server.machine.step sv e = none := by
  simp [Server.machine, Server.step, hdead]

/-- The messages of the thread that the servers still handle are not for the dead one. -/
theorem Abandoned.server {s : State γ τ} {c : γ} {t : τ} {run : Running} {host : Int}
    (h : Abandoned s c t run host) (hi : Inv cfg s) {m : Message γ τ} {server' : Server.State}
    {ms : List (Message γ τ)} {owner' : Int → Table Int (Tag γ)} {closed' : List (Tag γ)}
    (hhost : m.host ≠ host) (hms : ∀ m' ∈ ms, m'.host = m.host) :
    Abandoned ⟨s.clients, Function.update s.servers m.host server', owner', s.replace m ms, closed'⟩
      c t run host := by
  refine ⟨h.waits, ?_, fun m' hm' hex => ?_⟩
  · show (Function.update s.servers m.host server' host).alive = false
    rw [Function.update_of_ne (Ne.symm hhost)]
    exact h.dead
  · rcases hi.mem_replace.mp hm' with hnew | ⟨_, hold⟩
    · exact absurd ((hms m' hnew).symm.trans hex.2.2.1) hhost
    · exact h.unanswered m' hold hex

theorem Abandoned.step [Fintype τ] {s s' : State γ τ} {e : Event γ τ} {c : γ} {t : τ}
    {run : Running} {host : Int} (h : Abandoned s c t run host) (hi : Inv cfg s)
    (hs : Step cfg s e s') : Abandoned s' c t run host := by
  obtain ⟨⟨hrun, req, hawait⟩, hdead, hunanswered⟩ := id h
  have hlive : ∀ {host' e server'}, Server.machine.step (s.servers host') e = some server' →
      host' ≠ host := by
    rintro host' e server' hstep rfl
    cases (dead_step hdead e).symm.trans hstep
  cases hs with
  | @client c' e client' hquiet hstep =>
      have hclient := Client.step_cases hstep
      refine ⟨⟨?_, req, hawait⟩, hdead, fun m hm hex => ?_⟩
      · by_cases hc : c = c'
        · subst hc
          simpa using awaiting_kept (hi.clients c).1 hquiet hclient hrun (by simp [hawait])
        · simpa [hc] using hrun
      · rcases List.mem_append.mp hm with hnew | hold
        · obtain ⟨_, _, _, _, _, req', _, _, _, _, _, rfl, _⟩ := sent_cases hnew
          exact .inl ⟨req', rfl⟩
        · exact hunanswered m hold hex
  | @server host' e server' hint hstep =>
      refine ⟨⟨hrun, req, hawait⟩, ?_, hunanswered⟩
      simpa [Function.update_of_ne (Ne.symm (hlive hstep))] using hdead
  | receiveOpen hm hbody hstep =>
      exact h.server hi (hlive hstep) fun m' hm' => by rw [List.mem_singleton.mp hm']
  | receiveRead hm hbody hstep hms =>
      refine h.server hi (hlive hstep) fun m' hm' => ?_
      rcases hms with rfl | ⟨ret, rfl⟩
      · cases hm'
      · rw [List.mem_singleton.mp hm']
  | receiveClose hm hbody hstep => exact h.server hi (hlive hstep) nofun
  | openFailed hm hbody hstep =>
      exact h.server hi (hlive hstep) fun m' hm' => by rw [List.mem_singleton.mp hm']
  | opened hm hbody hstep =>
      exact h.server hi (hlive hstep) fun m' hm' => by rw [List.mem_singleton.mp hm']
  | @respond m value client' hm hvalue hstep =>
      have hclient := Client.step_cases hstep
      have hclose : m.body.isClose = false := by
        cases hbody : m.body with
        | request req => rw [hbody] at hvalue; cases hvalue
        | _ => rfl
      -- a response for this thread would come from the dead server
      have hother : ¬ (m.tag.client = c ∧ m.thread = t) := by
        rintro ⟨rfl, rfl⟩
        obtain ⟨run', req', hrun', _, _, hawait', _⟩ := hi.awaited m hm hclose
        obtain rfl := Option.some.inj (hrun.symm.trans hrun')
        obtain ⟨rfl, _⟩ := Prod.mk.inj (Option.some.inj (hawait.symm.trans hawait'))
        rcases hunanswered m hm ⟨rfl, rfl, rfl, hclose⟩ with ⟨req'', hbody⟩ | ⟨path, hbody⟩ <;>
          · rw [hbody] at hvalue
            cases hvalue
      refine ⟨⟨?_, req, hawait⟩, hdead, fun m' hm' hex => ?_⟩
      · by_cases hc : c = m.tag.client
        · subst hc
          have hne : t ≠ m.thread := fun ht => hother ⟨rfl, ht.symm⟩
          have hkept : client'.threads t = (s.clients m.tag.client).threads t := by
            cases hclient with
            | op _ _ _ => exact setThread_of_ne _ _ hne
          simpa [hkept] using hrun
        · simpa [hc] using hrun
      · exact hunanswered m' ((hi.mem_replace.mp hm').resolve_left List.not_mem_nil).2 hex

/-- The client has no time-out: a thread whose server has aborted before it sent the response
waits for ever, unless the transport gives the request up. In every continuation its call
stands where it is. -/
theorem abandoned_for_ever [Fintype τ] {s s' : State γ τ} (h : (machine γ cfg).Reachable s) {c : γ}
    {t : τ} {run : Running} {host : Int} (habandoned : Abandoned s c t run host)
    {es : List (Event γ τ)} (hrun : (machine γ cfg).runFrom s es = some s') :
    (s'.clients c).threads t = some run := by
  induction es generalizing s with
  | nil =>
      obtain rfl := Option.some.inj hrun
      exact habandoned.waits.1
  | cons e es ih =>
      obtain ⟨s₁, hstep, hrun₁⟩ := Option.bind_eq_some_iff.mp hrun
      exact ih (h.step hstep) (habandoned.step (inv_invariant.reachable h) (step_cases hstep)) hrun₁

/-- The device fails while the server reads for a request. -/
def failedRead : List (Event Unit Unit) :=
  openAndRead ++
    [.receive ⟨⟨(), 3, some 0⟩, (), 1, .request (.read (readRequest 7 16 (-1)))⟩ ⟨false, true⟩]

theorem abandoned_for_ever_in_failed_read :
    ∃ s run, (machine Unit dataDirConfig).run failedRead = some s ∧
      ∀ es s', (machine Unit dataDirConfig).runFrom s es = some s' →
        (s'.clients ()).threads () = some run := by
  have hseen : ((machine Unit dataDirConfig).run failedRead).map (fun s =>
      ((s.servers 1).alive, ((s.clients ()).threads ()).map Running.awaiting,
        s.network.length)) =
      some (false, some (some (1, .read (readRequest 7 16 (-1)))), 0) := by
    decide +kernel
  obtain ⟨s, hrun, hx⟩ := Option.map_eq_some_iff.mp hseen
  simp only [Prod.mk.injEq] at hx
  obtain ⟨hdead, hthread, hnetwork⟩ := hx
  obtain ⟨run, hrunning, hawait⟩ := Option.map_eq_some_iff.mp hthread
  have hunanswered : ∀ m ∈ s.network, m.ExchangeOf () () 1 →
      (∃ req, m.body = .request req) ∨ ∃ path, m.body = .opening path := by
    rw [List.length_eq_zero_iff.mp hnetwork]
    exact nofun
  exact ⟨s, run, hrun, fun es s' hrun' =>
    abandoned_for_ever (Machine.reachable_of_run hrun)
      ⟨⟨hrunning, _, hawait⟩, hdead, hunanswered⟩ hrun'⟩

end MtHvac.System
