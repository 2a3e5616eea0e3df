-- SUMMARY: What is in flight names live descriptors of the servers: reads of the current incarnation, and each close once.
import Mathlib.Data.List.Nodup
import MtHvac.System.Machine

/-!
# Remote descriptors

A server's descriptor belongs to the incarnation it was opened for until the one
close request of that incarnation arrives. Between the two the client may send
reads, which it waits for; after the close it sends nothing more for the
incarnation. The invariant follows an incarnation through the client's maps, the
messages in flight and the descriptor table of the server.
-/

namespace MtHvac.System

open Base Client

variable {γ τ : Type} [DecidableEq γ] [DecidableEq τ] {cfg : Config}

/-! ## What messages rely on in a client -/

section Client

variable {st st' : Client.State τ} {t : τ}

omit [DecidableEq τ] in
/-- A call that waits for a response fetches it next. -/
theorem awaiting_nextOp (hok : Ok cfg st) {run : Running} (hrun : st.threads t = some run)
    (hawait : run.awaiting ≠ none) :
    ∃ fd, st.nextOp t = some (.openOutput fd) ∨ st.nextOp t = some (.readOutput fd) := by
  have hrunning : RunOk cfg st.world run := hok.running t run hrun
  cases hcode : run.code with
  | ret v =>
      have hwp := hrunning.code
      rw [hcode] at hwp
      exact absurd hwp.1 hawait
  | call o k =>
      have hop := nextOp_of_code hrun hcode
      cases hfd : o.fd with
      | none =>
          have hwp := hrunning.code
          rw [hcode] at hwp
          have hpre := hwp.1
          simp only [spec, hfd] at hpre
          exact absurd hpre.1 hawait
      | some fd =>
          have hallowed := (hrunning.allowed hcode hfd).2
          cases o with
          | openOutput fd => exact ⟨fd, .inl hop⟩
          | readOutput fd => exact ⟨fd, .inr hop⟩
          | realOpen | canonical | currentPath => cases hfd
          | logNoMapping => exact hallowed.elim
          | forward fd host req => cases req <;> exact absurd hallowed.1 hawait
          | realRead | realPread | fdMapFind | fdRedirMapFind | fdRedirMapEntry | fdStateFind
          | fdStateTimedWait => exact absurd hallowed hawait
          | _ => exact absurd hallowed.1 hawait

/-- Only the fetching of a response disturbs a thread that waits for one. -/
theorem awaiting_kept [Fintype τ] {e : Client.Event τ} (hok : Ok cfg st)
    (hquiet : fetches st e = false) (hs : Client.Step cfg discipline st e st') {run : Running}
    (hrun : st.threads t = some run) (hawait : run.awaiting ≠ none) :
    st'.threads t = some run := by
  obtain ⟨fd, hop⟩ := awaiting_nextOp hok hrun hawait
  cases hs with
  | @call t' c hidle hcall =>
      have ht : t ≠ t' := by
        rintro rfl
        cases hidle.symm.trans hrun
      simpa [Client.State.begin, ht] using hrun
  | @op t' a run' o k r w hrun' hcode hact =>
      have ht : t ≠ t' := by
        rintro rfl
        rcases hop with hop | hop <;> simp [fetches, hop] at hquiet
      simpa [ht] using hrun
  | @ret t' run' v hrun' hcode =>
      have ht : t ≠ t' := by
        rintro rfl
        have hnone : st.nextOp t = none := by simp [Client.State.nextOp, hrun', hcode]
        rcases hop with hop | hop <;> cases hnone.symm.trans hop
      simpa [Client.State.finish, ht] using hrun

theorem act_kernel_mono {w w' : World} {incarnation : Option Nat} {o : Op} {a : Answer}
    {r : o.Res} (h : w.act incarnation o a = some (r, w')) :
    w.nextIncarnation ≤ w'.nextIncarnation ∧
      ∀ fd i, i < w.nextIncarnation → w'.kernel fd = some i → w.kernel fd = some i := by
  cases o with
  | realOpen path flags =>
      rcases act_realOpen h with ⟨_, rfl⟩ | ⟨fd, _, _, _, rfl⟩
      · exact ⟨Nat.le_refl _, fun _ _ _ hk => hk⟩
      · refine ⟨Nat.le_succ _, fun fd' i hi hk => ?_⟩
        by_cases hne : fd' = fd
        · subst hne
          simp only [Table.set_self, Option.some.injEq] at hk
          exact absurd hi (by omega)
        · simpa [hne] using hk
  | realClose fd =>
      obtain ⟨rfl, rfl⟩ := Prod.mk.inj (Option.some.inj h)
      exact ⟨Nat.le_refl _, fun fd' i _ hk => (Table.erase_eq_some.mp hk).2⟩
  | fdStateTimedWait fd =>
      obtain ⟨_, h⟩ := guarded_eq_some.mp h
      obtain ⟨rfl, rfl⟩ := Prod.mk.inj h
      exact ⟨Nat.le_refl _, fun _ _ _ hk => hk⟩
  | forward fd host req =>
      obtain ⟨rfl, rfl⟩ := Prod.mk.inj (Option.some.inj h)
      cases req <;> cases a.ok <;> exact ⟨Nat.le_refl _, fun _ _ _ hk => hk⟩
  | _ =>
      obtain ⟨rfl, rfl⟩ := Prod.mk.inj (Option.some.inj h)
      exact ⟨Nat.le_refl _, fun _ _ _ hk => hk⟩

/-- An incarnation that is over does not come back. -/
theorem kernel_mono [Fintype τ] {e : Client.Event τ}
    (hs : Client.Step cfg discipline st e st') :
    st.world.nextIncarnation ≤ st'.world.nextIncarnation ∧
      ∀ fd i, i < st.world.nextIncarnation → st'.world.kernel fd = some i →
        st.world.kernel fd = some i := by
  cases hs with
  | call hidle hcall => exact ⟨Nat.le_refl _, fun _ _ _ hk => hk⟩
  | ret hrun hcode => exact ⟨Nat.le_refl _, fun _ _ _ hk => hk⟩
  | op hrun hcode hact => exact act_kernel_mono hact

omit [DecidableEq γ] in
/-- A step that neither sends nor fetches leaves the notes on open requests alone. -/
theorem lastOpen_kept [Fintype τ] {c : γ} {e : Client.Event τ}
    (hquiet : fetches st e = false) (hsent : sent c st e = [])
    (hs : Client.Step cfg discipline st e st') : st'.world.lastOpen = st.world.lastOpen := by
  cases hs with
  | call hidle hcall => rfl
  | ret hrun hcode => rfl
  | @op t a run o k r w hrun hcode hact =>
      have hop := nextOp_of_code hrun hcode
      cases o with
      | realOpen path flags =>
          rcases act_realOpen hact with ⟨_, rfl⟩ | ⟨_, _, _, _, rfl⟩ <;> rfl
      | fdStateTimedWait fd =>
          obtain ⟨_, h⟩ := guarded_eq_some.mp hact
          obtain ⟨rfl, rfl⟩ := Prod.mk.inj h
          rfl
      | forward fd host req =>
          have hfail : a.ok = false := by simpa [sent, hop] using hsent
          obtain ⟨rfl, rfl⟩ := Prod.mk.inj (Option.some.inj hact)
          simp [hfail]
      | openOutput fd => simp [fetches, hop] at hquiet
      | _ =>
          obtain ⟨rfl, rfl⟩ := Prod.mk.inj (Option.some.inj hact)
          rfl

omit [DecidableEq γ] [DecidableEq τ] in
/-- A step that sends is `HG_Forward` of some thread. -/
theorem sent_cases {c : γ} {e : Client.Event τ} {m : Message γ τ} (hm : m ∈ sent c st e) :
    ∃ t a run fd host req k, e = .step t a ∧ a.ok = true ∧ st.threads t = some run ∧
      run.code = .call (.forward fd host req) k ∧
      m = ⟨⟨c, fd, run.incarnation⟩, t, host, .request req⟩ ∧ sent c st e = [m] := by
  cases e with
  | step t a =>
      simp only [sent] at hm ⊢
      split at hm
      · next fd host req hop =>
          obtain ⟨run, k, hrun, hcode⟩ := nextOp_cases hop
          cases hok : a.ok with
          | false => simp [hok] at hm
          | true =>
              obtain rfl : m = ⟨⟨c, fd, run.incarnation⟩, t, host, .request req⟩ := by
                simpa [hok, hrun] using hm
              exact ⟨t, a, run, fd, host, req, k, rfl, hok, hrun, hcode, rfl, by simp [hrun]⟩
      · cases hm
  | call t c => cases hm
  | ret t => cases hm

/-- What `HG_Forward` does when it succeeds. -/
theorem forward_step [Fintype τ] {a : Answer} {run : Running} {fd host : Int} {req : Request}
    {k : Bool → Code Int} (hok : a.ok = true) (hrun : st.threads t = some run)
    (hcode : run.code = .call (.forward fd host req) k)
    (hs : Client.Step cfg discipline st (.step t a) st') :
    st'.world = st.world.sent run.incarnation fd host req ∧
      st'.threads = st.setThread t
        (some { run with awaiting := req.awaited host, code := k true }) := by
  cases hs with
  | op hrun' hcode' hact =>
      rw [hrun] at hrun'
      obtain rfl := Option.some.inj hrun'
      rw [hcode] at hcode'
      obtain ⟨rfl, hk⟩ := Program.call.inj hcode'
      obtain rfl := eq_of_heq hk
      obtain ⟨rfl, rfl⟩ := Prod.mk.inj (Option.some.inj hact)
      simp [hok, Running.resume, Op.onAfter, Op.incarnationAfter, Op.awaitingAfter]

/-- What fetching the response of an open request does. -/
theorem openOutput_step [Fintype τ] {a : Answer} {fd : Int}
    (hop : st.nextOp t = some (.openOutput fd))
    (hs : Client.Step cfg discipline st (.step t a) st') :
    ∃ run k, st.threads t = some run ∧ run.code = .call (.openOutput fd) k ∧
      st'.world = { st.world with
        lastOpen := st.world.lastOpen.update fd fun r => { r with status := some a.value } } ∧
      st'.threads = st.setThread t (some { run with awaiting := none, code := k a.value }) := by
  obtain ⟨run, k, hrun, hcode⟩ := nextOp_cases hop
  refine ⟨run, k, hrun, hcode, ?_⟩
  cases hs with
  | op hrun' hcode' hact =>
      rw [hrun] at hrun'
      obtain rfl := Option.some.inj hrun'
      rw [hcode] at hcode'
      obtain ⟨rfl, hk⟩ := Program.call.inj hcode'
      obtain rfl := eq_of_heq hk
      obtain ⟨rfl, rfl⟩ := Prod.mk.inj (Option.some.inj hact)
      simp [Running.resume, Op.onAfter, Op.incarnationAfter, Op.awaitingAfter]

/-- What fetching the response of a read request does. -/
theorem readOutput_step [Fintype τ] {a : Answer} {fd : Int}
    (hop : st.nextOp t = some (.readOutput fd))
    (hs : Client.Step cfg discipline st (.step t a) st') :
    ∃ run', st'.world = st.world ∧ st'.threads = st.setThread t (some run') := by
  obtain ⟨run, k, hrun, hcode⟩ := nextOp_cases hop
  cases hs with
  | op hrun' hcode' hact =>
      rw [hrun] at hrun'
      obtain rfl := Option.some.inj hrun'
      rw [hcode] at hcode'
      obtain ⟨rfl, hk⟩ := Program.call.inj hcode'
      obtain ⟨rfl, rfl⟩ := Prod.mk.inj (Option.some.inj hact)
      exact ⟨_, rfl, rfl⟩

end Client

/-! ## What happens to the descriptors of a server -/

section Server

variable {sv sv' : Server.State}

theorem handleRead_descs (sv : Server.State) (req : HvacRpcIn) (env : ReadEnv) (fd : Int) :
    (sv.handleRead req env).2.descs fd = none ↔ sv.descs fd = none := by
  simp only [Server.State.handleRead, Server.State.setPos]
  split
  · next d f hd hf =>
      by_cases hfd : fd = req.accessfd
      · subst hfd
        simp [hd]
      · simp [hfd]
  · rfl

/-- Other events than opens and closes keep a server's descriptors open. -/
theorem descs_kept {e : Server.Event} (hs : Server.machine.step sv e = some sv')
    (hint : internal e = true ∨ (∃ path, e = .openRequest path) ∨ e = .openCall none ∨
      ∃ req env, e = .readRequest req env) (fd : Int) :
    sv'.descs fd = none ↔ sv.descs fd = none := by
  cases (Server.step_cases hs).2 with
  | openOk => simp [internal] at hint
  | closeRequest => simp [internal] at hint
  | seekRequest => simp [internal] at hint
  | readRequest hpc => exact handleRead_descs _ _ _ fd
  | _ => exact Iff.rfl

theorem openCall_descs {fd : Int} (hs : Server.machine.step sv (.openCall (some fd)) = some sv') :
    sv.descs fd = none ∧ ∃ d, sv'.descs = sv.descs.set fd d := by
  cases (Server.step_cases hs).2 with
  | openOk hpc hpos hfree hfile => exact ⟨hfree, _, rfl⟩

/-- `close` returns 0, and the assertion after it holds, on an open descriptor. -/
theorem closeRequest_descs {fd : Int}
    (hs : Server.machine.step sv (.closeRequest fd) = some sv') :
    sv'.descs = sv.descs.erase fd ∧ sv'.alive = decide (sv.descs fd ≠ none) := by
  cases (Server.step_cases hs).2 with
  | closeRequest hpc => exact ⟨rfl, rfl⟩

end Server

/-! ## The messages in flight -/

def Body.isClose : Body → Bool
  | .request (.close _) => true
  | _                   => false

/-- The exchange of an open request, up to its response. -/
def Body.isOpen : Body → Bool
  | .request (.openFile _) | .opening _ | .opened _ => true
  | _ => false

theorem Body.isClose_of_isOpen {b : Body} (h : b.isOpen = true) : b.isClose = false := by
  cases b with
  | request req => cases req <;> first | rfl | cases h
  | _ => rfl

/-- What makes a message unique: a close request its incarnation, any other
exchange the thread that waits for it. -/
def Message.key (m : Message γ τ) : Tag γ ⊕ γ × τ :=
  if m.body.isClose then .inl m.tag else .inr (m.tag.client, m.thread)

omit [DecidableEq γ] [DecidableEq τ] in
theorem Message.key_of_close {m : Message γ τ} (h : m.body.isClose = true) : m.key = .inl m.tag := by
  rw [Message.key, h, if_pos rfl]

omit [DecidableEq γ] [DecidableEq τ] in
theorem Message.key_of_exchange {m : Message γ τ} (h : m.body.isClose = false) :
    m.key = .inr (m.tag.client, m.thread) := by
  rw [Message.key, h, if_neg nofun]

/-- The request that an exchange began with. -/
def Body.From : Body → Request → Prop
  | .request req, r => r = req
  | .opening _, r   => ∃ path, r = .openFile path
  | .opened _, r    => ∃ path, r = .openFile path
  | .answered _, r  => ∃ req, r = .read req

/-- The thread of a message waits for its response. -/
def Message.AwaitedBy (m : Message γ τ) (st : Client.State τ) : Prop :=
  ∃ run req, st.threads m.thread = some run ∧ run.on = some m.tag.fd ∧
    run.incarnation = m.tag.incarnation ∧ run.awaiting = some (m.host, req) ∧ m.body.From req

/-- A close request was sent for an incarnation; a server has received it, or it is
in flight. -/
def State.CloseSent (s : State γ τ) (tag : Tag γ) : Prop :=
  tag ∈ s.closed ∨ ∃ m ∈ s.network, m.body.isClose = true ∧ m.tag = tag

/-- The incarnation has begun, and if it is not over, its open request was sent. -/
def State.Begun (s : State γ τ) (tag : Tag γ) : Prop :=
  ∃ i, tag.incarnation = some i ∧ i < (s.clients tag.client).world.nextIncarnation ∧
    ((s.clients tag.client).world.kernel tag.fd = some i →
      ∃ rpc, (s.clients tag.client).world.lastOpen tag.fd = some rpc ∧ rpc.incarnation = some i)

/-! ## The invariant -/

structure Inv (cfg : Config) (s : State γ τ) : Prop where
  clients : ∀ c, Ok cfg (s.clients c) ∧ Held (s.clients c)
  unique : (s.network.map Message.key).Nodup
  owned : ∀ host rfd tag, s.owner host rfd = some tag → (s.servers host).descs rfd ≠ none
  live : ∀ c fd rpc rfd, (s.clients c).world.lastOpen fd = some rpc → rpc.closed = false →
    rpc.status = some rfd → 0 < rfd →
      s.owner rpc.host rfd = some ⟨c, fd, rpc.incarnation⟩ ∧
        ¬ s.CloseSent ⟨c, fd, rpc.incarnation⟩
  awaited : ∀ m ∈ s.network, m.body.isClose = false → m.AwaitedBy (s.clients m.tag.client)
  unclosed : ∀ m ∈ s.network, m.body.isOpen = true → ¬ s.CloseSent m.tag
  opened : ∀ m ∈ s.network, ∀ rfd, m.body = .opened rfd → 0 < rfd →
    s.owner m.host rfd = some m.tag
  closing : ∀ m ∈ s.network, ∀ rfd, m.body = .request (.close rfd) →
    s.owner m.host rfd = some m.tag ∧ m.tag ∉ s.closed
  begun : ∀ tag, s.CloseSent tag → s.Begun tag

theorem Inv.mem_replace {s : State γ τ} (h : Inv cfg s) {m m' : Message γ τ}
    {ms : List (Message γ τ)} :
    m' ∈ s.replace m ms ↔ m' ∈ ms ∨ m' ≠ m ∧ m' ∈ s.network := by
  have hnodup : s.network.Nodup := h.unique.of_map _
  simp [State.replace, hnodup.mem_erase_iff]

/-! ### Steps of the servers -/

omit [DecidableEq γ] [DecidableEq τ] in
/-- Servers that open descriptors, or change nothing about them. -/
theorem Inv.of_owner_le {s : State γ τ} (h : Inv cfg s) {servers : Int → Server.State}
    {owner : Int → Table Int (Tag γ)}
    (hle : ∀ host rfd tag, s.owner host rfd = some tag → owner host rfd = some tag)
    (howned : ∀ host rfd tag, owner host rfd = some tag → (servers host).descs rfd ≠ none) :
    Inv cfg { s with servers := servers, owner := owner } where
  clients := h.clients
  unique := h.unique
  owned := howned
  live c fd rpc rfd hrpc hclosed hstatus hpos :=
    (h.live c fd rpc rfd hrpc hclosed hstatus hpos).imp_left (hle _ _ _)
  awaited := h.awaited
  unclosed := h.unclosed
  opened m hm rfd hbody hpos := hle _ _ _ (h.opened m hm rfd hbody hpos)
  closing m hm rfd hbody := (h.closing m hm rfd hbody).imp_left (hle _ _ _)
  begun := h.begun

omit [DecidableEq γ] [DecidableEq τ] in
/-- A server that leaves its descriptors open. -/
theorem Inv.of_descs_kept {s : State γ τ} (h : Inv cfg s) {host : Int} {server' : Server.State}
    (hkept : ∀ fd, server'.descs fd = none ↔ (s.servers host).descs fd = none) :
    Inv cfg { s with servers := Function.update s.servers host server' } := by
  refine h.of_owner_le (fun _ _ _ hown => hown) fun host' rfd tag hown => ?_
  by_cases hhost : host' = host
  · subst hhost
    rw [Function.update_self]
    exact fun hnone => h.owned host' rfd tag hown ((hkept rfd).mp hnone)
  · rw [Function.update_of_ne hhost]
    exact h.owned host' rfd tag hown

omit [DecidableEq γ] [DecidableEq τ] in
/-- A server that opens a descriptor, for the incarnation `tag`. -/
theorem Inv.of_opened {s : State γ τ} (h : Inv cfg s) {host fd : Int} {server' : Server.State}
    {tag : Tag γ} (hfree : (s.servers host).descs fd = none) {d : Server.Desc}
    (hopen : server'.descs = (s.servers host).descs.set fd d) :
    Inv cfg { s with
      servers := Function.update s.servers host server'
      owner := Function.update s.owner host ((s.owner host).set fd tag) } := by
  have hnone : ∀ tag', s.owner host fd ≠ some tag' := fun tag' hown => h.owned host fd tag' hown hfree
  refine h.of_owner_le (fun host' rfd tag' hown => ?_) fun host' rfd tag' hown => ?_
  · by_cases hhost : host' = host
    · subst hhost
      have hne : rfd ≠ fd := by
        rintro rfl
        exact hnone tag' hown
      simpa [hne] using hown
    · simpa [hhost] using hown
  · by_cases hhost : host' = host
    · subst hhost
      rw [Function.update_self, hopen]
      by_cases hne : rfd = fd
      · simp [hne]
      · simp only [Function.update_self, Table.set_of_ne _ _ hne] at hown ⊢
        exact h.owned host' rfd tag' hown
    · simp only [Function.update_of_ne hhost] at hown ⊢
      exact h.owned host' rfd tag' hown

/-- An exchange that moves on or ends. -/
theorem Inv.replace {s : State γ τ} (h : Inv cfg s) {m : Message γ τ} (hm : m ∈ s.network)
    (hclose : m.body.isClose = false) {ms : List (Message γ τ)}
    (hms : ms = [] ∨ ∃ b : Body, ms = [{ m with body := b }] ∧ b.isClose = false ∧
      (∀ req, m.body.From req → b.From req) ∧ (b.isOpen = true → m.body.isOpen = true) ∧
      ∀ rfd, b = .opened rfd → 0 < rfd → s.owner m.host rfd = some m.tag) :
    Inv cfg { s with network := s.replace m ms } := by
  have hmem : ∀ {m'}, m' ∈ s.replace m ms → m' ∈ s.network ∨ ∃ b : Body,
      m' = { m with body := b } ∧ b.isClose = false ∧ (∀ req, m.body.From req → b.From req) ∧
        (b.isOpen = true → m.body.isOpen = true) ∧
        ∀ rfd, b = .opened rfd → 0 < rfd → s.owner m.host rfd = some m.tag := by
    intro m' hm'
    rcases h.mem_replace.mp hm' with hnew | ⟨_, hold⟩
    · rcases hms with rfl | ⟨b, rfl, hb⟩
      · cases hnew
      · exact .inr ⟨b, by simpa using hnew, hb⟩
    · exact .inl hold
  -- no close request is new
  have hclosing : ∀ {m'}, m' ∈ s.replace m ms → m'.body.isClose = true → m' ∈ s.network := by
    intro m' hm' hcl
    rcases hmem hm' with hold | ⟨b, rfl, hb, _⟩
    · exact hold
    · cases hb.symm.trans hcl
  have hsent : ∀ {tag}, State.CloseSent { s with network := s.replace m ms } tag →
      s.CloseSent tag :=
    Or.imp_right fun ⟨m', hm', hcl, htag⟩ => ⟨m', hclosing hm' hcl, hcl, htag⟩
  have hunique : ((s.replace m ms).map Message.key).Nodup := by
    have hperm : (s.network.map Message.key).Perm (m.key :: (s.network.erase m).map Message.key) :=
      (List.perm_cons_erase hm).map Message.key
    have hcons := (hperm.nodup_iff.mp h.unique)
    rcases hms with rfl | ⟨b, rfl, hb, _⟩
    · exact (List.nodup_cons.mp hcons).2
    · have hkey : Message.key { m with body := b } = m.key := by simp [Message.key, hb, hclose]
      simpa [State.replace, hkey] using hcons
  refine ⟨h.clients, hunique, h.owned, fun c fd rpc rfd hrpc hclosed hstatus hpos => ?_,
    fun m' hm' hcl => ?_, fun m' hm' hopen => ?_, fun m' hm' rfd hbody hpos => ?_,
    fun m' hm' rfd hbody => ?_, fun tag htag => h.begun tag (hsent htag)⟩
  · exact (h.live c fd rpc rfd hrpc hclosed hstatus hpos).imp_right (mt hsent)
  · rcases hmem hm' with hold | ⟨b, rfl, _, hfrom, _⟩
    · exact h.awaited m' hold hcl
    · obtain ⟨run, req, hrun, hon, hinc, hawait, hreq⟩ := h.awaited m hm hclose
      exact ⟨run, req, hrun, hon, hinc, hawait, hfrom req hreq⟩
  · rcases hmem hm' with hold | ⟨b, rfl, _, _, hopen', _⟩
    · exact mt hsent (h.unclosed m' hold hopen)
    · exact mt hsent (h.unclosed m hm (hopen' hopen))
  · rcases hmem hm' with hold | ⟨b, rfl, _, _, _, hown⟩
    · exact h.opened m' hold rfd hbody hpos
    · exact hown rfd hbody hpos
  · refine h.closing m' (hclosing hm' ?_) rfd hbody
    rw [hbody]
    rfl

omit [DecidableEq γ] [DecidableEq τ] in
/-- Messages with the same key are the same message. -/
theorem Inv.eq_of_key {s : State γ τ} (h : Inv cfg s) {m m' : Message γ τ} (hm : m ∈ s.network)
    (hm' : m' ∈ s.network) (hkey : m.key = m'.key) : m = m' :=
  List.inj_on_of_nodup_map h.unique hm hm' hkey

/-- The one close request of an incarnation ends its descriptor, and no other. -/
theorem Inv.close {s : State γ τ} (h : Inv cfg s) {m : Message γ τ} (hm : m ∈ s.network)
    {rfd : Int} (hbody : m.body = .request (.close rfd)) {server' : Server.State}
    (hdescs : server'.descs = (s.servers m.host).descs.erase rfd) :
    Inv cfg { s with
      servers := Function.update s.servers m.host server'
      owner := Function.update s.owner m.host ((s.owner m.host).erase rfd)
      network := s.replace m []
      closed := m.tag :: s.closed } := by
  have hcl : m.body.isClose = true := by rw [hbody]; rfl
  have hown : s.owner m.host rfd = some m.tag := (h.closing m hm rfd hbody).1
  have hthis : s.CloseSent m.tag := .inr ⟨m, hm, hcl, rfl⟩
  have hkept : ∀ {host fd tag}, tag ≠ m.tag → s.owner host fd = some tag →
      Function.update s.owner m.host ((s.owner m.host).erase rfd) host fd = some tag := by
    intro host fd tag htag hfd
    by_cases hhost : host = m.host
    · subst hhost
      have hne : fd ≠ rfd := by
        rintro rfl
        exact htag (Option.some.inj (hfd.symm.trans hown))
      simpa [hne] using hfd
    · simpa [hhost] using hfd
  have hmem : ∀ {m'}, m' ∈ s.replace m [] → m' ≠ m ∧ m' ∈ s.network := by
    intro m' hm'
    exact (h.mem_replace.mp hm').resolve_left List.not_mem_nil
  have hsent : ∀ {tag}, State.CloseSent { s with
      network := s.replace m []
      closed := m.tag :: s.closed } tag → s.CloseSent tag := by
    rintro tag (hclosed | ⟨m', hm', hcl', htag⟩)
    · rcases List.mem_cons.mp hclosed with rfl | hold
      · exact hthis
      · exact .inl hold
    · exact .inr ⟨m', (hmem hm').2, hcl', htag⟩
  refine ⟨h.clients, h.unique.sublist ((List.erase_sublist).map _), fun host fd tag hfd => ?_,
    fun c fd rpc fd' hrpc hclosed hstatus hpos => ?_, fun m' hm' hcl' => h.awaited m' (hmem hm').2 hcl',
    fun m' hm' hopen => mt hsent (h.unclosed m' (hmem hm').2 hopen),
    fun m' hm' fd' hbody' hpos => ?_, fun m' hm' fd' hbody' => ?_,
    fun tag htag => h.begun tag (hsent htag)⟩
  · by_cases hhost : host = m.host
    · subst hhost
      simp only [Function.update_self, hdescs] at hfd ⊢
      obtain ⟨hne, hfd⟩ := Table.erase_eq_some.mp hfd
      rw [Table.erase_of_ne _ hne]
      exact h.owned m.host fd tag hfd
    · simp only [Function.update_of_ne hhost] at hfd ⊢
      exact h.owned host fd tag hfd
  · obtain ⟨hfd, hno⟩ := h.live c fd rpc fd' hrpc hclosed hstatus hpos
    exact ⟨hkept (fun htag => hno (htag ▸ hthis)) hfd, mt hsent hno⟩
  · have hopen : m'.body.isOpen = true := by rw [hbody']; rfl
    have htag : m'.tag ≠ m.tag := by
      intro htag
      exact h.unclosed m' (hmem hm').2 hopen (htag ▸ hthis)
    exact hkept htag (h.opened m' (hmem hm').2 fd' hbody' hpos)
  · obtain ⟨hne, hold⟩ := hmem hm'
    have hcl' : m'.body.isClose = true := by rw [hbody']; rfl
    have htag : m'.tag ≠ m.tag := by
      intro htag
      refine hne (h.eq_of_key hold hm ?_)
      rw [Message.key_of_close hcl, Message.key_of_close hcl', htag]
    obtain ⟨hown', hnew⟩ := h.closing m' hold fd' hbody'
    refine ⟨hkept htag hown', fun hmem' => ?_⟩
    exact (List.mem_cons.mp hmem').elim htag hnew

/-! ### Steps of the clients -/

/-- A client whose step sends and fetches nothing. -/
theorem Inv.client_quiet [Fintype τ] {s : State γ τ} (h : Inv cfg s) {c : γ} {e : Client.Event τ}
    {client' : Client.State τ} (hquiet : fetches (s.clients c) e = false)
    (hsent : (sent c (s.clients c) e : List (Message γ τ)) = [])
    (hs : Client.Step cfg discipline (s.clients c) e client')
    (hclient : Ok cfg client' ∧ Held client') :
    Inv cfg { s with clients := Function.update s.clients c client' } := by
  obtain ⟨hnext, hkernel⟩ := kernel_mono hs
  have hlast : client'.world.lastOpen = (s.clients c).world.lastOpen := lastOpen_kept hquiet hsent hs
  have hworlds : ∀ c', (Function.update s.clients c client' c').world.lastOpen =
      (s.clients c').world.lastOpen := by
    intro c'
    by_cases hc : c' = c
    · subst hc
      simp [hlast]
    · simp [hc]
  refine ⟨fun c' => ?_, h.unique, h.owned, fun c' fd rpc rfd hrpc => ?_, fun m hm hcl => ?_,
    h.unclosed, h.opened, h.closing, fun tag htag => ?_⟩
  · by_cases hc : c' = c
    · subst hc
      simpa using hclient
    · simpa [hc] using h.clients c'
  · exact h.live c' fd rpc rfd (hworlds c' ▸ hrpc)
  · obtain ⟨run, req, hrun, hon, hinc, hawait, hreq⟩ := h.awaited m hm hcl
    refine ⟨run, req, ?_, hon, hinc, hawait, hreq⟩
    by_cases hc : m.tag.client = c
    · subst hc
      simpa using awaiting_kept (h.clients m.tag.client).1 hquiet hs hrun (by simp [hawait])
    · simpa [hc] using hrun
  · obtain ⟨i, hi, hlt, hbegun⟩ := h.begun tag htag
    refine ⟨i, hi, ?_, fun hk => ?_⟩
    · by_cases hc : tag.client = c
      · subst hc
        simpa using Nat.lt_of_lt_of_le hlt hnext
      · simpa [hc] using hlt
    · show ∃ rpc, (Function.update s.clients c client' tag.client).world.lastOpen tag.fd =
        some rpc ∧ rpc.incarnation = some i
      rw [hworlds]
      refine hbegun ?_
      by_cases hc : tag.client = c
      · subst hc
        exact hkernel tag.fd i hlt (by simpa using hk)
      · simpa [hc] using hk

/-- What a request that is sent has to be, given the messages in flight: it is new,
no response is pending for its thread, and a close request is the first for its
incarnation and finds no open request of that incarnation in flight. -/
structure Sendable (s : State γ τ) (client' : Client.State τ) (m : Message γ τ) : Prop where
  key : ∀ m' ∈ s.network, m'.key ≠ m.key
  lastOpen : ∀ fd rpc, client'.world.lastOpen fd = some rpc → rpc.closed = false →
    rpc.status ≠ none → (s.clients m.tag.client).world.lastOpen fd = some rpc ∧
      (m.body.isClose = true → m.tag.fd ≠ fd)
  begun : ∀ fd i, (s.clients m.tag.client).world.kernel fd = some i →
    (∃ rpc, (s.clients m.tag.client).world.lastOpen fd = some rpc ∧ rpc.incarnation = some i) →
      ∃ rpc, client'.world.lastOpen fd = some rpc ∧ rpc.incarnation = some i
  world : client'.world.kernel = (s.clients m.tag.client).world.kernel ∧
    client'.world.nextIncarnation = (s.clients m.tag.client).world.nextIncarnation
  awaited : m.body.isClose = false → m.AwaitedBy client'
  unclosed : m.body.isOpen = true → ¬ s.CloseSent m.tag
  notOpened : ∀ rfd, m.body ≠ .opened rfd
  closing : ∀ rfd, m.body = .request (.close rfd) →
    s.owner m.host rfd = some m.tag ∧ m.tag ∉ s.closed
  opening : m.body.isClose = true → ∀ m' ∈ s.network, m'.body.isOpen = true → m'.tag ≠ m.tag
  current : m.body.isClose = true → ∃ i, m.tag.incarnation = some i ∧
    i < client'.world.nextIncarnation ∧
      ∃ rpc, client'.world.lastOpen m.tag.fd = some rpc ∧ rpc.incarnation = some i

/-- A client whose step sends a request. -/
theorem Inv.send [Fintype τ] {s : State γ τ} (h : Inv cfg s) {e : Client.Event τ}
    {client' : Client.State τ} {m : Message γ τ}
    (hquiet : fetches (s.clients m.tag.client) e = false)
    (hs : Client.Step cfg discipline (s.clients m.tag.client) e client')
    (hclient : Ok cfg client' ∧ Held client') (hm : Sendable s client' m) :
    Inv cfg { s with
      clients := Function.update s.clients m.tag.client client'
      network := m :: s.network } := by
  obtain ⟨hkernel, hnext⟩ := hm.world
  have hsent : ∀ {tag}, State.CloseSent (⟨Function.update s.clients m.tag.client client',
      s.servers, s.owner, m :: s.network, s.closed⟩ : State γ τ) tag →
        s.CloseSent tag ∨ m.body.isClose = true ∧ m.tag = tag := by
    rintro tag (hclosed | ⟨m', hm', hcl, htag⟩)
    · exact .inl (.inl hclosed)
    · rcases List.mem_cons.mp hm' with rfl | hold
      · exact .inr ⟨hcl, htag⟩
      · exact .inl (.inr ⟨m', hold, hcl, htag⟩)
  refine ⟨fun c => ?_, ?_, h.owned, fun c fd rpc rfd hrpc hclosed hstatus hpos => ?_,
    fun m' hm' hcl => ?_, fun m' hm' hopen => ?_, fun m' hm' rfd hbody hpos => ?_,
    fun m' hm' rfd hbody => ?_, fun tag htag => ?_⟩
  · by_cases hc : c = m.tag.client
    · subst hc
      simpa using hclient
    · simpa [hc] using h.clients c
  · refine List.nodup_cons.mpr ⟨fun hmem => ?_, h.unique⟩
    obtain ⟨m', hm', hkey⟩ := List.mem_map.mp hmem
    exact hm.key m' hm' hkey
  · by_cases hc : c = m.tag.client
    · subst hc
      obtain ⟨hold, hne⟩ := hm.lastOpen fd rpc (by simpa using hrpc) hclosed (by simp [hstatus])
      obtain ⟨hown, hno⟩ := h.live m.tag.client fd rpc rfd hold hclosed hstatus hpos
      refine ⟨hown, fun hcl => (hsent hcl).elim hno ?_⟩
      exact fun ⟨hcl, htag⟩ => hne hcl (by rw [htag])
    · obtain ⟨hown, hno⟩ := h.live c fd rpc rfd (by simpa [hc] using hrpc) hclosed hstatus hpos
      exact ⟨hown, fun hcl => (hsent hcl).elim hno fun ⟨_, htag⟩ => hc (by rw [htag])⟩
  · rcases List.mem_cons.mp hm' with rfl | hold
    · simpa using hm.awaited hcl
    · obtain ⟨run, req, hrun, hon, hinc, hawait, hreq⟩ := h.awaited m' hold hcl
      refine ⟨run, req, ?_, hon, hinc, hawait, hreq⟩
      by_cases hc : m'.tag.client = m.tag.client
      · rw [hc] at hrun ⊢
        simpa using awaiting_kept (h.clients m.tag.client).1 hquiet hs hrun (by simp [hawait])
      · simpa [hc] using hrun
  · rcases List.mem_cons.mp hm' with rfl | hold
    · refine fun hcl => (hsent hcl).elim (hm.unclosed hopen) fun ⟨hcl, _⟩ => ?_
      cases (Body.isClose_of_isOpen hopen).symm.trans hcl
    · refine fun hcl => (hsent hcl).elim (h.unclosed m' hold hopen) fun ⟨hcl, htag⟩ => ?_
      exact hm.opening hcl m' hold hopen htag.symm
  · rcases List.mem_cons.mp hm' with rfl | hold
    · exact absurd hbody (hm.notOpened rfd)
    · exact h.opened m' hold rfd hbody hpos
  · rcases List.mem_cons.mp hm' with rfl | hold
    · exact hm.closing rfd hbody
    · exact h.closing m' hold rfd hbody
  · rcases hsent htag with hold | ⟨hcl, rfl⟩
    · obtain ⟨i, hi, hlt, hbegun⟩ := h.begun tag hold
      by_cases hc : tag.client = m.tag.client
      · refine ⟨i, hi, ?_, fun hk => ?_⟩
        · simpa [hc, hnext] using hlt
        · simp only [hc, Function.update_self] at hk hbegun ⊢
          rw [hkernel] at hk
          exact hm.begun tag.fd i hk (hbegun hk)
      · refine ⟨i, hi, ?_, ?_⟩
        · simpa [hc] using hlt
        · simpa [hc] using hbegun
    · obtain ⟨i, hi, hlt, hlast⟩ := hm.current hcl
      exact ⟨i, hi, by simpa using hlt, fun _ => by simpa using hlast⟩

section Sendable

variable {s : State γ τ} {t : τ} {c : γ} {fd host : Int} {run : Running} {client' : Client.State τ}

omit [DecidableEq γ] [DecidableEq τ] in
/-- No exchange is in flight for a thread that waits for no response. -/
theorem Inv.no_exchange (h : Inv cfg s) (hrun : (s.clients c).threads t = some run)
    (hawait : run.awaiting = none) {m : Message γ τ} (hm : m ∈ s.network)
    (hcl : m.body.isClose = false) : ¬ (m.tag.client = c ∧ m.thread = t) := by
  rintro ⟨rfl, rfl⟩
  obtain ⟨run', req, hrun', _, _, hawait', _⟩ := h.awaited m hm hcl
  rw [hrun] at hrun'
  obtain rfl := Option.some.inj hrun'
  cases hawait.symm.trans hawait'

omit [DecidableEq γ] [DecidableEq τ] in
theorem Inv.key_ne (h : Inv cfg s) (hrun : (s.clients c).threads t = some run)
    (hawait : run.awaiting = none) {req : Request} (hreq : (Body.request req).isClose = false)
    {m : Message γ τ} (hm : m ∈ s.network) :
    m.key ≠ Message.key ⟨⟨c, fd, run.incarnation⟩, t, host, .request req⟩ := by
  cases hcl : m.body.isClose with
  | true =>
      rw [Message.key_of_close hcl, Message.key_of_exchange hreq]
      nofun
  | false =>
      rw [Message.key_of_exchange hcl, Message.key_of_exchange hreq]
      intro hkey
      exact h.no_exchange hrun hawait hm hcl (Prod.mk.inj (Sum.inr.inj hkey))

omit [DecidableEq γ] [DecidableEq τ] in
/-- An open request is the first of its incarnation. -/
theorem Inv.sendable_openFile (h : Inv cfg s) (hrun : (s.clients c).threads t = some run)
    {path : Path} {k : Bool → Code Int}
    (hcode : run.code = .call (.forward fd host (.openFile path)) k)
    (hworld : client'.world = (s.clients c).world.sent run.incarnation fd host (.openFile path))
    (hthread : client'.threads t = some
      { run with awaiting := some (host, .openFile path), code := k true }) :
    Sendable s client' ⟨⟨c, fd, run.incarnation⟩, t, host, .request (.openFile path)⟩ := by
  have hrunning : RunOk cfg (s.clients c).world run := (h.clients c).1.running t run hrun
  obtain ⟨hon, hawait, _, _, hnew⟩ := hrunning.allowed hcode rfl
  have hinc : run.incarnation = (s.clients c).world.kernel fd := hrunning.current fd hon
  refine ⟨fun m hm => h.key_ne hrun hawait rfl hm, fun fd' rpc hrpc _ hstatus => ?_,
    fun fd' i hk hlast => ?_, ⟨by rw [hworld]; rfl, by rw [hworld]; rfl⟩,
    fun _ => ⟨_, _, hthread, hon, rfl, rfl, rfl⟩, fun _ hsent => ?_,
    by rintro rfd ⟨⟩, by rintro rfd ⟨⟩, by rintro ⟨⟩, by rintro ⟨⟩⟩
  · rw [hworld] at hrpc
    by_cases hne : fd' = fd
    · subst hne
      simp only [World.sent, Table.set_self, Option.some.injEq] at hrpc
      exact absurd (by rw [← hrpc]) hstatus
    · exact ⟨by simpa [World.sent, hne] using hrpc, by rintro ⟨⟩⟩
  · rw [hworld]
    by_cases hne : fd' = fd
    · subst hne
      exact ⟨_, Table.set_self _ _ _, hinc.trans hk⟩
    · obtain ⟨rpc, hrpc, hi⟩ := hlast
      exact ⟨rpc, by simpa [World.sent, hne] using hrpc, hi⟩
  · obtain ⟨i, hi, _, hbegun⟩ := h.begun _ hsent
    have hk : (s.clients c).world.kernel fd = some i := hinc.symm.trans hi
    obtain ⟨rpc, hrpc, hrpci⟩ := hbegun hk
    exact hnew rpc hrpc (hrpci.trans hk.symm)

omit [DecidableEq γ] [DecidableEq τ] in
/-- A read request is sent by a thread that has no other request pending. -/
theorem Inv.sendable_read (h : Inv cfg s) (hrun : (s.clients c).threads t = some run)
    {req : HvacRpcIn} {k : Bool → Code Int}
    (hcode : run.code = .call (.forward fd host (.read req)) k)
    (hworld : client'.world = (s.clients c).world)
    (hthread : client'.threads t = some
      { run with awaiting := some (host, .read req), code := k true }) :
    Sendable s client' ⟨⟨c, fd, run.incarnation⟩, t, host, .request (.read req)⟩ := by
  have hrunning : RunOk cfg (s.clients c).world run := (h.clients c).1.running t run hrun
  obtain ⟨hon, hawait, _⟩ := hrunning.allowed hcode rfl
  refine ⟨fun m hm => h.key_ne hrun hawait rfl hm, fun fd' rpc hrpc _ _ =>
      ⟨hworld ▸ hrpc, by rintro ⟨⟩⟩,
    fun fd' i _ hlast => by rw [hworld]; exact hlast, ⟨by rw [hworld], by rw [hworld]⟩,
    fun _ => ⟨_, _, hthread, hon, rfl, rfl, rfl⟩,
    by rintro ⟨⟩, by rintro rfd ⟨⟩, by rintro rfd ⟨⟩, by rintro ⟨⟩, by rintro ⟨⟩⟩

omit [DecidableEq γ] [DecidableEq τ] in
/-- A close request is the only one of its incarnation, and names its descriptor. -/
theorem Inv.sendable_close (h : Inv cfg s) (hrun : (s.clients c).threads t = some run)
    {rfd : Int} {k : Bool → Code Int}
    (hcode : run.code = .call (.forward fd host (.close rfd)) k)
    (hworld : client'.world = (s.clients c).world.sent run.incarnation fd host (.close rfd)) :
    Sendable s client' ⟨⟨c, fd, run.incarnation⟩, t, host, .request (.close rfd)⟩ := by
  obtain ⟨hok, hheld⟩ := h.clients c
  have hrunning : RunOk cfg (s.clients c).world run := hok.running t run hrun
  obtain ⟨hon, hawait, hexcl, hpos, path, hpath, hhost, hopen⟩ := hrunning.allowed hcode rfl
  have hinc : run.incarnation = (s.clients c).world.kernel fd := hrunning.current fd hon
  have hlast : (s.clients c).world.lastOpen fd =
      some ⟨run.incarnation, host, path, some rfd, false⟩ := by rw [hinc]; exact hopen
  obtain ⟨hown, hno⟩ := h.live c fd _ rfd hlast rfl rfl hpos
  have hlast' : client'.world.lastOpen fd =
      some ⟨run.incarnation, host, path, some rfd, true⟩ := by
    simp [hworld, World.sent, hlast]
  obtain ⟨i, _, hrun', _, hi, hk⟩ := hrunning.worksOn hheld hrun hon
  rw [hrun] at hrun'
  obtain rfl := Option.some.inj hrun'
  refine ⟨fun m hm hkey => ?_, fun fd' rpc hrpc hclosed _ => ?_, fun fd' j _ hold => ?_,
    ⟨by rw [hworld]; rfl, by rw [hworld]; rfl⟩, by rintro ⟨⟩, by rintro ⟨⟩, by rintro rfd' ⟨⟩, ?_,
    fun _ m hm hmopen htag => ?_,
    fun _ => ⟨i, hi, ?_, _, hlast', hi⟩⟩
  · cases hcl : m.body.isClose with
    | true => exact hno (.inr ⟨m, hm, hcl, Sum.inl.inj ((Message.key_of_close hcl).symm.trans hkey)⟩)
    | false => cases (Message.key_of_exchange hcl).symm.trans hkey
  · by_cases hne : fd' = fd
    · subst hne
      obtain rfl := Option.some.inj (hrpc.symm.trans hlast')
      cases hclosed
    · refine ⟨?_, fun _ => Ne.symm hne⟩
      simpa [hworld, World.sent, hne] using hrpc
  · by_cases hne : fd' = fd
    · subst hne
      obtain ⟨rpc, hrpc, hj⟩ := hold
      obtain rfl := Option.some.inj (hrpc.symm.trans hlast)
      exact ⟨_, hlast', hj⟩
    · obtain ⟨rpc, hrpc, hj⟩ := hold
      exact ⟨rpc, by simpa [hworld, World.sent, hne] using hrpc, hj⟩
  · rintro rfd' hbody
    obtain rfl : rfd = rfd' := by simpa using hbody
    exact ⟨hown, fun hclosed => hno (.inl hclosed)⟩
  · -- the thread that opens the descriptor would share it with this one
    have hcl := Body.isClose_of_isOpen hmopen
    obtain ⟨run', req', hrun', hon', _, hawait', _⟩ := h.awaited m hm hcl
    have htagc : m.tag.client = c := by rw [htag]
    have htagfd : m.tag.fd = fd := by rw [htag]
    rw [htagc] at hrun'
    rw [htagfd] at hon'
    have ht : t = m.thread := hheld.alone t m.thread fd run'.call.exclusive
      ⟨run, hrun, hon, hexcl⟩ ⟨run', hrun', hon', rfl⟩
    exact h.no_exchange hrun hawait hm hcl ⟨htagc, ht.symm⟩
  · rw [hworld]
    exact (hok.fresh fd).kernel i hk

end Sendable

/-- Every step of a client that fetches no response. -/
theorem Inv.client [Fintype τ] {s : State γ τ} (h : Inv cfg s) {c : γ} {e : Client.Event τ}
    {client' : Client.State τ} (hquiet : fetches (s.clients c) e = false)
    (hs : Client.Step cfg discipline (s.clients c) e client')
    (hclient : Ok cfg client' ∧ Held client') :
    Inv cfg { s with
      clients := Function.update s.clients c client'
      network := sent c (s.clients c) e ++ s.network } := by
  cases hsent : (sent c (s.clients c) e : List (Message γ τ)) with
  | nil => exact h.client_quiet hquiet hsent hs hclient
  | cons m ms =>
      obtain ⟨t, a, run, fd, host, req, k, rfl, hok, hrun, hcode, rfl, hone⟩ :=
        sent_cases (hsent ▸ List.mem_cons_self : m ∈ sent c (s.clients c) e)
      obtain rfl : ms = [] := (List.cons.inj (hsent.symm.trans hone)).2
      obtain ⟨hworld, hthreads⟩ := forward_step hok hrun hcode hs
      have hthread : client'.threads t =
          some { run with awaiting := req.awaited host, code := k true } := by
        rw [hthreads, setThread_self]
      cases req with
      | openFile path => exact h.send hquiet hs hclient (h.sendable_openFile hrun hcode hworld hthread)
      | read req => exact h.send hquiet hs hclient (h.sendable_read hrun hcode hworld hthread)
      | close rfd => exact h.send hquiet hs hclient (h.sendable_close hrun hcode hworld)

/-- A response is fetched by the thread that waits for it. -/
theorem Inv.fetch {s : State γ τ} (h : Inv cfg s) {m : Message γ τ} (hm : m ∈ s.network)
    (hclose : m.body.isClose = false) {client' : Client.State τ} {run' : Running}
    (hclient : Ok cfg client' ∧ Held client')
    (hthreads : client'.threads = (s.clients m.tag.client).setThread m.thread (some run'))
    (hkernel : client'.world.kernel = (s.clients m.tag.client).world.kernel)
    (hnext : client'.world.nextIncarnation = (s.clients m.tag.client).world.nextIncarnation)
    (hlive : ∀ fd rpc rfd, client'.world.lastOpen fd = some rpc → rpc.closed = false →
      rpc.status = some rfd → 0 < rfd →
        s.owner rpc.host rfd = some ⟨m.tag.client, fd, rpc.incarnation⟩ ∧
          ¬ s.CloseSent ⟨m.tag.client, fd, rpc.incarnation⟩)
    (hbegun : ∀ fd i,
      (∃ rpc, (s.clients m.tag.client).world.lastOpen fd = some rpc ∧ rpc.incarnation = some i) →
        ∃ rpc, client'.world.lastOpen fd = some rpc ∧ rpc.incarnation = some i) :
    Inv cfg { s with
      clients := Function.update s.clients m.tag.client client'
      network := s.replace m [] } := by
  have hmem : ∀ {m'}, m' ∈ s.replace m [] → m' ≠ m ∧ m' ∈ s.network :=
    fun hm' => (h.mem_replace.mp hm').resolve_left List.not_mem_nil
  have hsent : ∀ {tag}, State.CloseSent (⟨Function.update s.clients m.tag.client client',
      s.servers, s.owner, s.replace m [], s.closed⟩ : State γ τ) tag → s.CloseSent tag :=
    Or.imp_right fun ⟨m', hm', hcl, htag⟩ => ⟨m', (hmem hm').2, hcl, htag⟩
  refine ⟨fun c => ?_, h.unique.sublist ((List.erase_sublist).map _), h.owned,
    fun c fd rpc rfd hrpc hclosed hstatus hpos => ?_, fun m' hm' hcl => ?_,
    fun m' hm' hopen => mt hsent (h.unclosed m' (hmem hm').2 hopen),
    fun m' hm' => h.opened m' (hmem hm').2, fun m' hm' => h.closing m' (hmem hm').2,
    fun tag htag => ?_⟩
  · by_cases hc : c = m.tag.client
    · subst hc
      simpa using hclient
    · simpa [hc] using h.clients c
  · by_cases hc : c = m.tag.client
    · subst hc
      exact (hlive fd rpc rfd (by simpa using hrpc) hclosed hstatus hpos).imp_right (mt hsent)
    · exact (h.live c fd rpc rfd (by simpa [hc] using hrpc) hclosed hstatus hpos).imp_right (mt hsent)
  · obtain ⟨hne, hold⟩ := hmem hm'
    obtain ⟨run, req, hrun, hon, hinc, hawait, hreq⟩ := h.awaited m' hold hcl
    refine ⟨run, req, ?_, hon, hinc, hawait, hreq⟩
    by_cases hc : m'.tag.client = m.tag.client
    · have ht : m'.thread ≠ m.thread := by
        intro ht
        refine hne (h.eq_of_key hold hm ?_)
        rw [Message.key_of_exchange hcl, Message.key_of_exchange hclose, hc, ht]
      rw [hc] at hrun ⊢
      simpa [hthreads, ht] using hrun
    · simpa [hc] using hrun
  · obtain ⟨i, hi, hlt, hbegun'⟩ := h.begun tag (hsent htag)
    by_cases hc : tag.client = m.tag.client
    · refine ⟨i, hi, ?_, fun hk => ?_⟩
      · simpa [hc, hnext] using hlt
      · simp only [hc, Function.update_self] at hk hbegun' ⊢
        rw [hkernel] at hk
        exact hbegun _ _ (hbegun' hk)
    · refine ⟨i, hi, ?_, ?_⟩
      · simpa [hc] using hlt
      · simpa [hc] using hbegun'

/-- The response of an open request makes its status the mapping of the incarnation. -/
theorem Inv.fetch_opened [Fintype τ] {s : State γ τ} (h : Inv cfg s) {m : Message γ τ}
    (hm : m ∈ s.network) {status fd : Int} (hbody : m.body = .opened status)
    (hop : (s.clients m.tag.client).nextOp m.thread = some (.openOutput fd))
    {client' : Client.State τ}
    (hs : Client.Step cfg discipline (s.clients m.tag.client)
      (.step m.thread { value := status }) client') (hclient : Ok cfg client' ∧ Held client') :
    Inv cfg { s with
      clients := Function.update s.clients m.tag.client client'
      network := s.replace m [] } := by
  have hopen : m.body.isOpen = true := by rw [hbody]; rfl
  have hclose := Body.isClose_of_isOpen hopen
  obtain ⟨run, k, hrun, hcode, hworld, hthreads⟩ := openOutput_step hop hs
  have hrunning := (h.clients m.tag.client).1.running m.thread run hrun
  obtain ⟨hon, _, host, path, hawait, hlast⟩ := hrunning.allowed hcode rfl
  obtain ⟨run', req, hrun', hon', hinc', hawait', _⟩ := h.awaited m hm hclose
  rw [hrun] at hrun'
  obtain rfl := Option.some.inj hrun'
  obtain rfl : fd = m.tag.fd := Option.some.inj (hon.symm.trans hon')
  obtain ⟨rfl, _⟩ : host = m.host ∧ _ := Prod.mk.inj (Option.some.inj (hawait.symm.trans hawait'))
  have hlast' : (s.clients m.tag.client).world.lastOpen m.tag.fd =
      some ⟨m.tag.incarnation, m.host, path, none, false⟩ := by
    rw [← hinc', hrunning.current m.tag.fd hon]
    exact hlast
  refine h.fetch hm hclose hclient hthreads (by rw [hworld]) (by rw [hworld]) ?_ ?_
  · intro fd rpc rfd hrpc hclosed hstatus hpos
    rw [hworld] at hrpc
    by_cases hne : fd = m.tag.fd
    · subst hne
      simp only [Table.update_self, hlast', Option.map_some, Option.some.injEq] at hrpc
      subst hrpc
      obtain rfl : status = rfd := by simpa using hstatus
      exact ⟨h.opened m hm status hbody hpos, h.unclosed m hm hopen⟩
    · exact h.live m.tag.client fd rpc rfd (by simpa [hne] using hrpc) hclosed hstatus hpos
  · rintro fd i ⟨rpc, hrpc, hi⟩
    rw [hworld]
    by_cases hne : fd = m.tag.fd
    · subst hne
      exact ⟨{ rpc with status := some status }, by simp [hrpc], hi⟩
    · exact ⟨rpc, by simpa [hne] using hrpc, hi⟩

/-! ### All steps -/

theorem Inv.step [Fintype τ] {s s' : State γ τ} {e : Event γ τ} (h : Inv cfg s)
    (hs : Step cfg s e s') : Inv cfg s' := by
  cases hs with
  | client hquiet hstep =>
      exact h.client hquiet (Client.step_cases hstep) (disciplined_step (h.clients _) hstep)
  | server hint hstep => exact h.of_descs_kept (descs_kept hstep (.inl hint))
  | @receiveOpen m env path server' hm hbody hstep =>
      have hkept := descs_kept hstep (.inr (.inl ⟨path, rfl⟩))
      refine (h.of_descs_kept hkept).replace hm (by rw [hbody]; rfl) (.inr ⟨_, rfl, rfl, ?_, ?_, nofun⟩)
      · rintro req hreq
        rw [hbody] at hreq
        exact ⟨path, hreq⟩
      · intro _
        rw [hbody]
        rfl
  | @receiveRead m env req server' ms hm hbody hstep hms =>
      have hkept := descs_kept hstep (.inr (.inr (.inr ⟨req, env, rfl⟩)))
      refine (h.of_descs_kept hkept).replace hm (by rw [hbody]; rfl) (hms.imp_right ?_)
      rintro ⟨ret, rfl⟩
      refine ⟨_, rfl, rfl, fun req' hreq => ?_, nofun, nofun⟩
      rw [hbody] at hreq
      exact ⟨req, hreq⟩
  | @receiveClose m env fd server' hm hbody hstep =>
      exact h.close hm hbody (closeRequest_descs hstep).1
  | @openFailed m path server' hm hbody hstep =>
      have hkept := descs_kept hstep (.inr (.inr (.inl rfl)))
      refine (h.of_descs_kept hkept).replace hm (by rw [hbody]; rfl)
        (.inr ⟨_, rfl, rfl, fun req hreq => ?_, fun _ => by rw [hbody]; rfl, ?_⟩)
      · rw [hbody] at hreq
        exact hreq
      · rintro rfd hrfd hpos
        obtain rfl : (-1 : Int) = rfd := by simpa using hrfd
        exact absurd hpos (by decide)
  | @opened m path fd server' hm hbody hstep =>
      obtain ⟨hfree, d, hd⟩ := openCall_descs hstep
      refine (h.of_opened hfree hd).replace hm (by rw [hbody]; rfl)
        (.inr ⟨_, rfl, rfl, fun req hreq => ?_, fun _ => by rw [hbody]; rfl, ?_⟩)
      · rw [hbody] at hreq
        exact hreq
      · rintro rfd hrfd _
        obtain rfl : fd = rfd := by simpa using hrfd
        simp
  | @respond m value client' hm hvalue hstep =>
      have hclient := disciplined_step (h.clients m.tag.client) hstep
      have hs := Client.step_cases hstep
      cases hbody : m.body with
      | request req => rw [hbody] at hvalue; cases hvalue
      | opening path => rw [hbody] at hvalue; cases hvalue
      | opened status =>
          simp only [hbody, Body.value] at hvalue
          split at hvalue
          · next fd hop =>
              obtain rfl := Option.some.inj hvalue
              exact h.fetch_opened hm hbody hop hs hclient
          · cases hvalue
      | answered ret =>
          simp only [hbody, Body.value] at hvalue
          split at hvalue
          · next fd hop =>
              obtain ⟨run', hworld, hthreads⟩ := readOutput_step hop hs
              exact h.fetch hm (by rw [hbody]; rfl) hclient hthreads (by rw [hworld])
                (by rw [hworld]) (fun fd rpc rfd hrpc => h.live _ fd rpc rfd (by rwa [hworld] at hrpc))
                (fun fd i => by rw [hworld]; exact id)
          · cases hvalue

theorem inv_invariant [Fintype τ] : (machine γ cfg : Machine (State γ τ) _).Invariant (Inv cfg) where
  init :=
    { clients := fun _ => ⟨ok_init, held_init⟩
      unique := List.nodup_nil
      owned := by
        intro host rfd tag h
        cases h
      live := by
        intro c fd rpc rfd h
        cases h
      awaited := fun _ h => absurd h List.not_mem_nil
      unclosed := fun _ h => absurd h List.not_mem_nil
      opened := fun _ h => absurd h List.not_mem_nil
      closing := fun _ h => absurd h List.not_mem_nil
      begun := by
        rintro tag (h | ⟨m, hm, _⟩)
        · exact absurd h List.not_mem_nil
        · exact absurd hm List.not_mem_nil }
  step := fun _ h hs => h.step (step_cases hs)

/-! ## Remote descriptors are live -/

omit [DecidableEq γ] [DecidableEq τ] in
/-- A read request in flight names a descriptor of its sender's incarnation. -/
theorem Inv.read_live {s : State γ τ} (h : Inv cfg s) {m : Message γ τ} (hm : m ∈ s.network)
    {req : HvacRpcIn} (hbody : m.body = .request (.read req)) :
    s.owner m.host req.accessfd = some m.tag ∧
      ∃ i, m.tag.incarnation = some i ∧ (s.clients m.tag.client).WorksOn m.thread m.tag.fd i := by
  obtain ⟨hok, hheld⟩ := h.clients m.tag.client
  obtain ⟨run, req', hrun, hon, hinc, hawait, hreq⟩ := h.awaited m hm (by rw [hbody]; rfl)
  rw [hbody] at hreq
  obtain rfl : req' = .read req := hreq
  have hrunning := hok.running m.thread run hrun
  obtain ⟨i, run', hrun', hi⟩ := hrunning.worksOn hheld hrun hon
  rw [hrun] at hrun'
  obtain rfl := Option.some.inj hrun'
  refine ⟨?_, i, hinc.symm.trans hi.2.1, run, hrun, hi⟩
  obtain ⟨fd, hop | hop⟩ := awaiting_nextOp hok hrun (by simp [hawait])
  · obtain ⟨run', k, hrun', hcode⟩ := nextOp_cases hop
    rw [hrun] at hrun'
    obtain rfl := Option.some.inj hrun'
    obtain ⟨_, _, host, path, hawait', _⟩ := hrunning.allowed hcode rfl
    exact absurd (hawait.symm.trans hawait') (by simp)
  · obtain ⟨run', k, hrun', hcode⟩ := nextOp_cases hop
    rw [hrun] at hrun'
    obtain rfl := Option.some.inj hrun'
    obtain ⟨hon', host, req', hawait', hpos, path, _, _, hlast⟩ := hrunning.allowed hcode rfl
    obtain rfl : fd = m.tag.fd := Option.some.inj (hon'.symm.trans hon)
    obtain ⟨rfl, hreq'⟩ : host = m.host ∧ _ :=
      Prod.mk.inj (Option.some.inj (hawait'.symm.trans hawait))
    obtain rfl : req' = req := by simpa using hreq'
    have hown := (h.live m.tag.client m.tag.fd _ req'.accessfd hlast rfl rfl hpos).1
    have hkernel : ((s.clients m.tag.client).world.view m.tag.fd).kernel = m.tag.incarnation :=
      (hrunning.current m.tag.fd hon).symm.trans hinc
    rw [hkernel] at hown
    exact hown

/-- In every reachable state, a read request in flight names a descriptor that is
open and was opened for the sender's current incarnation, and a close request in
flight names one that is open and was opened for the incarnation it closes, of
which no server has received a close request yet. When a server receives the close
request, `close` succeeds and every descriptor of another incarnation stays open. -/
theorem remote_descriptors_live [Fintype τ] {s : State γ τ} (h : (machine γ cfg).Reachable s) :
    (∀ m ∈ s.network, ∀ req, m.body = .request (.read req) →
      (s.servers m.host).descs req.accessfd ≠ none ∧ s.owner m.host req.accessfd = some m.tag ∧
        ∃ i, m.tag.incarnation = some i ∧
          (s.clients m.tag.client).WorksOn m.thread m.tag.fd i) ∧
    (∀ m ∈ s.network, ∀ rfd, m.body = .request (.close rfd) →
      (s.servers m.host).descs rfd ≠ none ∧ s.owner m.host rfd = some m.tag ∧
        m.tag ∉ s.closed) ∧
    ∀ m env rfd s', m.body = .request (.close rfd) →
      (machine γ cfg).step s (.receive m env) = some s' →
        (s'.servers m.host).alive = true ∧
          ∀ host fd tag, tag ≠ m.tag → s.owner host fd = some tag →
            s'.owner host fd = some tag ∧ (s'.servers host).descs fd ≠ none := by
  have hi : Inv cfg s := inv_invariant.reachable h
  have hclose : ∀ m ∈ s.network, ∀ rfd, m.body = .request (.close rfd) →
      (s.servers m.host).descs rfd ≠ none ∧ s.owner m.host rfd = some m.tag ∧
        m.tag ∉ s.closed := by
    intro m hm rfd hbody
    obtain ⟨hown, hnew⟩ := hi.closing m hm rfd hbody
    exact ⟨hi.owned _ _ _ hown, hown, hnew⟩
  refine ⟨fun m hm req hbody => ?_, hclose, fun m env rfd s' hbody hstep => ?_⟩
  · obtain ⟨hown, hcur⟩ := hi.read_live hm hbody
    exact ⟨hi.owned _ _ _ hown, hown, hcur⟩
  · have hi' : Inv cfg s' := hi.step (step_cases hstep)
    cases step_cases hstep with
    | receiveOpen hm hbody' _ => cases hbody.symm.trans hbody'
    | receiveRead hm hbody' _ _ => cases hbody.symm.trans hbody'
    | @receiveClose _ _ rfd' server' hm hbody' hserver =>
        obtain rfl : rfd = rfd' := by simpa using hbody.symm.trans hbody'
        obtain ⟨hopen, hown, _⟩ := hclose m hm rfd hbody
        refine ⟨by simpa using (closeRequest_descs hserver).2.trans (decide_eq_true hopen),
          fun host fd tag htag hfd => ?_⟩
        have hkept : Function.update s.owner m.host ((s.owner m.host).erase rfd) host fd =
            some tag := by
          by_cases hhost : host = m.host
          · subst hhost
            have hne : fd ≠ rfd := by
              rintro rfl
              exact htag (Option.some.inj (hfd.symm.trans hown))
            simpa [hne] using hfd
          · simpa [hhost] using hfd
        exact ⟨hkept, hi'.owned host fd tag hkept⟩

/-- One client opens `/d/a` at the server `1` and sends a read for it. -/
def openAndRead : List (Event Unit Unit) :=
  let path := ['/', 'd', '/', 'a']
  let steps (n : Nat) : List (Event Unit Unit) := List.replicate n (.client () (.step () {}))
  let message (body : Body) : Message Unit Unit := ⟨⟨(), 3, some 0⟩, (), 1, body⟩
  [.server 1 (.create path [104, 105]), .client () (.call () (.openFile path 0)),
    .client () (.step () { fd := some 3 }), .client () (.step () { path := some path }),
    .client () (.step () { path := some ['/', 'd'] }),
    .client () (.step () { path := some path })] ++ steps 5 ++
  [.receive (message (.request (.openFile path))) ⟨false, false⟩, .server 1 .openFind,
    .opened (message (.opening path)) (some 7), .respond (message (.opened 7))] ++ steps 2 ++
  [.client () (.ret ()), .client () (.call () (.read 3 16))] ++ steps 9

theorem remote_descriptors_live_in_read :
    ∃ s, (machine Unit dataDirConfig).run openAndRead = some s ∧
      (s.servers 1).descs 7 ≠ none ∧ s.owner 1 7 = some ⟨(), 3, some 0⟩ := by
  have hmap : ((machine Unit dataDirConfig).run openAndRead).map (fun s => s.network) =
      some [⟨⟨(), 3, some 0⟩, (), 1, .request (.read (readRequest 7 16 (-1)))⟩] := by
    decide +kernel
  obtain ⟨s, hrun, hnetwork⟩ := Option.map_eq_some_iff.mp hmap
  have hlive := (remote_descriptors_live (Machine.reachable_of_run hrun)).1 _
    (by rw [hnetwork]; exact List.mem_cons_self) _ rfl
  exact ⟨s, hrun, hlive.1, hlive.2.1⟩

end MtHvac.System
