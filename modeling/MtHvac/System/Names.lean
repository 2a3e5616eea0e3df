-- SUMMARY: The path behind every exchange: what a server has under the name of a descriptor is what its client opened, and each path is only ever asked of its own server.
import MtHvac.Server.OpenFiles
import MtHvac.System.RemoteDescriptors

/-!
# Names across the network

A client notes the path of the open request that it sent last for a descriptor; the
server that answered it has the same path in `fd_to_path`. The invariant below follows
the path from the request to the mapping of the client, and holds for as long as no
close request for the incarnation was sent.

A path is hashed to one server, so no other server gets to know it.
-/

namespace MtHvac.System

open Base Client

variable {γ τ : Type} [DecidableEq γ] [DecidableEq τ] {cfg : Config}

/-! ## The server processes -/

/-- Every server of the system runs as a server process does. -/
theorem reachable_server [Fintype τ] {s : State γ τ} (h : (machine γ cfg).Reachable s) :
    ∀ host, Server.machine.Reachable (s.servers host) := by
  have hupdate : ∀ {s : State γ τ} {host : Int} {e : Server.Event} {server' : Server.State},
      (∀ host, Server.machine.Reachable (s.servers host)) →
      Server.machine.step (s.servers host) e = some server' →
        ∀ host', Server.machine.Reachable (Function.update s.servers host server' host') := by
    intro s host e server' hs hstep host'
    by_cases hhost : host' = host
    · subst hhost
      rw [Function.update_self]
      exact (hs host').step hstep
    · rw [Function.update_of_ne hhost]
      exact hs host'
  induction h with
  | init => exact fun _ => .init
  | step _ hs ih =>
      cases step_cases hs with
      | client _ _ => exact ih
      | server _ hstep => exact hupdate ih hstep
      | receiveOpen _ _ hstep => exact hupdate ih hstep
      | receiveRead _ _ hstep _ => exact hupdate ih hstep
      | receiveClose _ _ hstep => exact hupdate ih hstep
      | openFailed _ _ hstep => exact hupdate ih hstep
      | opened _ _ hstep => exact hupdate ih hstep
      | respond _ _ _ => exact ih

/-! ## The invariant -/

/-- The path of an open request that has not been answered. -/
def Body.openPath : Body → Option Path
  | .request (.openFile path) | .opening path => some path
  | _ => none

/-- What the client of a message notes of its open request while it is in flight. -/
def Message.Noted (m : Message γ τ) (w : World) (path : Path) : Prop :=
  w.lastOpen m.tag.fd = some ⟨m.tag.incarnation, m.host, path, none, false⟩

structure Traced (cfg : Config) (s : State γ τ) : Prop where
  asked : ∀ m ∈ s.network, ∀ path, m.body.openPath = some path →
    m.host = cfg.host path ∧ m.Noted (s.clients m.tag.client).world path
  opening : ∀ m ∈ s.network, ∀ path, m.body = .opening path →
    (s.servers m.host).progress.request = some path
  alone : ∀ m ∈ s.network, ∀ m' ∈ s.network, ∀ path path', m.body = .opening path →
    m'.body = .opening path' → m.host = m'.host → m = m'
  opened : ∀ m ∈ s.network, ∀ rfd, m.body = .opened rfd → 0 < rfd →
    ∃ path, m.Noted (s.clients m.tag.client).world path ∧
      (s.servers m.host).fdToPath rfd = some path
  live : ∀ c fd rpc rfd, (s.clients c).world.lastOpen fd = some rpc → rpc.closed = false →
    rpc.status = some rfd → 0 < rfd → (s.servers rpc.host).fdToPath rfd = some rpc.path

omit [DecidableEq γ] [DecidableEq τ] in
theorem Body.isOpen_of_openPath {b : Body} {path : Path} (h : b.openPath = some path) :
    b.isOpen = true := by
  cases b with
  | request req => cases req <;> first | rfl | cases h
  | opening _ => rfl
  | _ => cases h

/-! ### Steps of the clients -/

omit [DecidableEq τ] in
/-- A client that steps, while its servers do not. Of the open requests in flight it keeps
the notes. -/
theorem Traced.client {s : State γ τ} (h : Traced cfg s) {c : γ} {client' : Client.State τ}
    {network' : List (Message γ τ)}
    (hmem : ∀ m ∈ network', m ∈ s.network ∨ ∃ req, m.body = .request req ∧
      ∀ path, req = .openFile path →
        m.host = cfg.host path ∧ m.tag.client = c ∧ m.Noted client'.world path)
    (hkept : ∀ m ∈ network', m ∈ s.network → m.body.isOpen = true → m.tag.client = c →
      client'.world.lastOpen m.tag.fd = (s.clients c).world.lastOpen m.tag.fd)
    (hlive : ∀ fd rpc rfd, client'.world.lastOpen fd = some rpc → rpc.closed = false →
      rpc.status = some rfd → 0 < rfd → (s.servers rpc.host).fdToPath rfd = some rpc.path) :
    Traced cfg { s with clients := Function.update s.clients c client', network := network' } := by
  have hnoted : ∀ m ∈ network', m ∈ s.network → m.body.isOpen = true → ∀ path,
      m.Noted (s.clients m.tag.client).world path →
        m.Noted (Function.update s.clients c client' m.tag.client).world path := by
    intro m hm hold hopen path hnote
    by_cases hc : m.tag.client = c
    · have hlast := hkept m hm hold hopen hc
      rw [Message.Noted, hc] at hnote
      rw [Message.Noted, hc, Function.update_self, hlast]
      exact hnote
    · rwa [Function.update_of_ne hc]
  have hold : ∀ m ∈ network', (∀ req, m.body ≠ .request req) → m ∈ s.network := by
    intro m hm hbody
    rcases hmem m hm with hold | ⟨req, hreq, _⟩
    · exact hold
    · exact absurd hreq (hbody req)
  refine ⟨fun m hm path hpath => ?_, fun m hm path hbody => ?_,
    fun m hm m' hm' path path' hbody hbody' => ?_, fun m hm rfd hbody hpos => ?_,
    fun c' fd rpc rfd hrpc => ?_⟩
  · rcases hmem m hm with hin | ⟨req, hreq, hnew⟩
    · obtain ⟨hhost, hnote⟩ := h.asked m hin path hpath
      exact ⟨hhost, hnoted m hm hin (Body.isOpen_of_openPath hpath) path hnote⟩
    · have hpath' : req = .openFile path := by
        rw [hreq] at hpath
        cases req with
        | openFile p => exact congrArg _ (Option.some.inj hpath)
        | _ => cases hpath
      obtain ⟨hhost, hc, hnote⟩ := hnew path hpath'
      refine ⟨hhost, ?_⟩
      show m.Noted (Function.update s.clients c client' m.tag.client).world path
      rwa [hc, Function.update_self]
  · exact h.opening m (hold m hm (by rw [hbody]; nofun)) path hbody
  · exact h.alone m (hold m hm (by rw [hbody]; nofun)) m' (hold m' hm' (by rw [hbody']; nofun))
      path path' hbody hbody'
  · have hin := hold m hm (by rw [hbody]; nofun)
    obtain ⟨path, hnote, hname⟩ := h.opened m hin rfd hbody hpos
    exact ⟨path, hnoted m hm hin (by rw [hbody]; rfl) path hnote, hname⟩
  · by_cases hc : c' = c
    · subst hc
      exact hlive fd rpc rfd (by simpa using hrpc)
    · exact h.live c' fd rpc rfd (by simpa [hc] using hrpc)

omit [DecidableEq τ] in
/-- A client that sends a request. -/
theorem Traced.send {s : State γ τ} (h : Traced cfg s) {c : γ} {fd host : Int}
    {incarnation : Option Nat} {t : τ} {req : Request} {client' : Client.State τ}
    (hnew : ∀ path, req = .openFile path → host = cfg.host path ∧
      client'.world.lastOpen fd = some ⟨incarnation, host, path, none, false⟩)
    (hkept : ∀ m ∈ s.network, m.body.isOpen = true → m.tag.client = c →
      client'.world.lastOpen m.tag.fd = (s.clients c).world.lastOpen m.tag.fd)
    (hlive : ∀ fd rpc rfd, client'.world.lastOpen fd = some rpc → rpc.closed = false →
      rpc.status = some rfd → 0 < rfd → (s.servers rpc.host).fdToPath rfd = some rpc.path) :
    Traced cfg { s with
      clients := Function.update s.clients c client'
      network := ⟨⟨c, fd, incarnation⟩, t, host, .request req⟩ :: s.network } := by
  refine h.client (fun m hm => ?_) (fun m _ hm => hkept m hm) hlive
  rcases List.mem_cons.mp hm with rfl | hold
  · refine .inr ⟨req, rfl, fun path hpath => ?_⟩
    obtain ⟨hhost, hnote⟩ := hnew path hpath
    exact ⟨hhost, rfl, hnote⟩
  · exact .inl hold

omit [DecidableEq γ] [DecidableEq τ] in
/-- No open request is in flight for a descriptor that another thread has for itself. -/
theorem Inv.not_opening {s : State γ τ} (h : Inv cfg s) {c : γ} {t : τ} {run : Running} {fd : Int}
    (hrun : (s.clients c).threads t = some run) (hon : run.on = some fd)
    (hexcl : run.call.exclusive = true) (hawait : run.awaiting = none) {m : Message γ τ}
    (hm : m ∈ s.network) (hopen : m.body.isOpen = true) (hc : m.tag.client = c) :
    m.tag.fd ≠ fd := by
  intro hfd
  have hcl := Body.isClose_of_isOpen hopen
  obtain ⟨run', _, hrun', hon', _⟩ := h.awaited m hm hcl
  rw [hc] at hrun'
  rw [hfd] at hon'
  have ht : t = m.thread := (h.clients c).2.alone t m.thread fd run'.call.exclusive
    ⟨run, hrun, hon, hexcl⟩ ⟨run', hrun', hon', rfl⟩
  exact h.no_exchange hrun hawait hm hcl ⟨hc, ht.symm⟩

/-- Every step of a client that fetches no response. -/
theorem Traced.client_step [Fintype τ] {s : State γ τ} (h : Traced cfg s) (hi : Inv cfg s) {c : γ}
    {e : Client.Event τ} {client' : Client.State τ} (hquiet : fetches (s.clients c) e = false)
    (hs : Client.Step cfg discipline (s.clients c) e client') :
    Traced cfg { s with
      clients := Function.update s.clients c client'
      network := sent c (s.clients c) e ++ s.network } := by
  cases hsent : (sent c (s.clients c) e : List (Message γ τ)) with
  | nil =>
      have hlast : client'.world.lastOpen = (s.clients c).world.lastOpen :=
        lastOpen_kept hquiet hsent hs
      exact h.client (fun m hm => .inl hm) (fun m _ _ _ _ => by rw [hlast])
        (fun fd rpc rfd hrpc => h.live c fd rpc rfd (hlast ▸ hrpc))
  | cons m ms =>
      obtain ⟨t, a, run, fd, host, req, k, rfl, hok, hrun, hcode, rfl, hone⟩ :=
        sent_cases (hsent ▸ List.mem_cons_self : m ∈ sent c (s.clients c) e)
      obtain rfl : ms = [] := (List.cons.inj (hsent.symm.trans hone)).2
      obtain ⟨hworld, _⟩ := forward_step hok hrun hcode hs
      have hrunning : RunOk cfg (s.clients c).world run := (hi.clients c).1.running t run hrun
      obtain ⟨hon, hallowed⟩ := hrunning.allowed hcode rfl
      have hother : ∀ fd', fd' ≠ fd →
          client'.world.lastOpen fd' = (s.clients c).world.lastOpen fd' := by
        intro fd' hne
        rw [hworld]
        cases req <;> simp [World.sent, hne]
      cases req with
      | openFile path =>
          obtain ⟨hawait, hexcl, hhost, _⟩ := hallowed
          have hlast : client'.world.lastOpen fd =
              some ⟨run.incarnation, host, path, none, false⟩ := by
            simp [hworld, World.sent]
          refine h.send ?_ (fun m hm hopen hc => ?_) fun fd' rpc rfd hrpc hclosed hstatus hpos => ?_
          · rintro path' ⟨⟩
            exact ⟨hhost, hlast⟩
          · exact hother m.tag.fd (hi.not_opening hrun hon hexcl hawait hm hopen hc)
          · by_cases hne : fd' = fd
            · subst hne
              obtain rfl := Option.some.inj (hlast.symm.trans hrpc)
              cases hstatus
            · exact h.live c fd' rpc rfd (hother fd' hne ▸ hrpc) hclosed hstatus hpos
      | read req =>
          have hlast : client'.world.lastOpen = (s.clients c).world.lastOpen := by
            simp [hworld, World.sent]
          exact h.send (by rintro _ ⟨⟩) (fun m _ _ _ => by rw [hlast])
            (fun fd' rpc rfd hrpc => h.live c fd' rpc rfd (hlast ▸ hrpc))
      | close rfd =>
          obtain ⟨hawait, hexcl, _⟩ := hallowed
          refine h.send (by rintro _ ⟨⟩) (fun m hm hopen hc => ?_)
            fun fd' rpc rfd' hrpc hclosed hstatus hpos => ?_
          · exact hother m.tag.fd (hi.not_opening hrun hon hexcl hawait hm hopen hc)
          · by_cases hne : fd' = fd
            · subst hne
              simp only [hworld, World.sent, Table.update_self] at hrpc
              obtain ⟨rpc', _, rfl⟩ := Option.map_eq_some_iff.mp hrpc
              cases hclosed
            · exact h.live c fd' rpc rfd' (hother fd' hne ▸ hrpc) hclosed hstatus hpos

/-! ### Steps of the servers -/

/-- What happens to a message at its server, if the open requests that are answered there are
answered with the descriptor of their path. -/
def Handled (s : State γ τ) (host : Int) (server' : Server.State) (m' : Message γ τ) : Prop :=
  m' ∈ s.network ∨ ∃ m ∈ s.network, ∃ b : Body, m' = { m with body := b } ∧ m.host = host ∧
    (∀ path, b.openPath = some path → m.body.openPath = some path) ∧
    ∀ rfd, b = .opened rfd → 0 < rfd →
      ∃ path, m.body.openPath = some path ∧ server'.fdToPath rfd = some path

omit [DecidableEq γ] [DecidableEq τ] in
/-- A server that keeps the names of its open descriptors, and still works on the open
requests that are not answered. -/
theorem Traced.server {s : State γ τ} (h : Traced cfg s) (hi : Inv cfg s) {host : Int}
    {server' : Server.State} {network' : List (Message γ τ)} {owner' : Int → Table Int (Tag γ)}
    {closed' : List (Tag γ)} (hmem : ∀ m ∈ network', Handled s host server' m)
    (hnames : ∀ fd path, (s.servers host).descs fd ≠ none →
      (s.servers host).fdToPath fd = some path → server'.fdToPath fd = some path)
    (hrequest : ∀ m ∈ network', ∀ path, m.body = .opening path → m.host = host →
      server'.progress.request = some path)
    (halone : ∀ m ∈ network', ∀ m' ∈ network', ∀ path path', m.body = .opening path →
      m'.body = .opening path' → m.host = host → m'.host = host → m = m') :
    Traced cfg ⟨s.clients, Function.update s.servers host server', owner', network', closed'⟩ := by
  have hkept : ∀ host' fd tag path, s.owner host' fd = some tag →
      (s.servers host').fdToPath fd = some path →
        (Function.update s.servers host server' host').fdToPath fd = some path := by
    intro host' fd tag path hown hname
    by_cases hhost : host' = host
    · subst hhost
      rw [Function.update_self]
      exact hnames fd path (hi.owned host' fd tag hown) hname
    · rwa [Function.update_of_ne hhost]
  -- where the server is another one, the message is as it was
  have hold : ∀ m ∈ network', m.host ≠ host → m ∈ s.network := by
    intro m hm hhost
    rcases hmem m hm with hin | ⟨m₀, _, b, rfl, hat, _⟩
    · exact hin
    · exact absurd hat hhost
  refine ⟨fun m hm path hpath => ?_, fun m hm path hbody => ?_,
    fun m hm m' hm' path path' hbody hbody' hhosts => ?_, fun m hm rfd hbody hpos => ?_,
    fun c fd rpc rfd hrpc hclosed hstatus hpos => ?_⟩
  · rcases hmem m hm with hin | ⟨m₀, hin, b, rfl, _, hb, _⟩
    · exact h.asked m hin path hpath
    · exact h.asked m₀ hin path (hb path hpath)
  · by_cases hhost : m.host = host
    · show (Function.update s.servers host server' m.host).progress.request = some path
      rw [hhost, Function.update_self]
      exact hrequest m hm path hbody hhost
    · show (Function.update s.servers host server' m.host).progress.request = some path
      rw [Function.update_of_ne hhost]
      exact h.opening m (hold m hm hhost) path hbody
  · by_cases hhost : m.host = host
    · exact halone m hm m' hm' path path' hbody hbody' hhost (hhosts ▸ hhost)
    · exact h.alone m (hold m hm hhost) m' (hold m' hm' (hhosts ▸ hhost)) path path' hbody hbody'
        hhosts
  · rcases hmem m hm with hin | ⟨m₀, hin, b, rfl, hat, _, hb⟩
    · obtain ⟨path, hnote, hname⟩ := h.opened m hin rfd hbody hpos
      exact ⟨path, hnote, hkept m.host rfd m.tag path (hi.opened m hin rfd hbody hpos) hname⟩
    · obtain ⟨path, hpath, hname⟩ := hb rfd hbody hpos
      refine ⟨path, (h.asked m₀ hin path hpath).2, ?_⟩
      show (Function.update s.servers host server' m₀.host).fdToPath rfd = some path
      rw [hat, Function.update_self]
      exact hname
  · obtain ⟨hown, _⟩ := hi.live c fd rpc rfd hrpc hclosed hstatus hpos
    exact hkept rpc.host rfd _ rpc.path hown (h.live c fd rpc rfd hrpc hclosed hstatus hpos)

/-- `open` returned in the handler of an open request: the descriptor that the response
carries has the path of the request. -/
theorem Traced.openCall {s : State γ τ} (h : Traced cfg s) (hi : Inv cfg s)
    (hn : ∀ host, Server.ServesNames (s.servers host)) {m : Message γ τ} (hm : m ∈ s.network)
    {path : Path} (hbody : m.body = .opening path) {fd : Option Int} {server' : Server.State}
    {status : Int} {owner' : Int → Table Int (Tag γ)}
    (hserver : Server.Step (s.servers m.host) (.openCall fd) server')
    (hname : 0 < status → server'.fdToPath status = some path) :
    Traced cfg { s with
      servers := Function.update s.servers m.host server'
      owner := owner'
      network := s.replace m [{ m with body := .opened status }] } := by
  have hmem : ∀ m' ∈ s.replace m [{ m with body := .opened status }],
      m' = { m with body := .opened status } ∨ m' ≠ m ∧ m' ∈ s.network := fun m' hm' =>
    (hi.mem_replace.mp hm').imp_left List.mem_singleton.mp
  have hother : ∀ m' ∈ s.replace m [{ m with body := .opened status }], ∀ path',
      m'.body = .opening path' → m'.host ≠ m.host := by
    intro m' hm' path' hbody' hhost
    rcases hmem m' hm' with rfl | ⟨hne, hold⟩
    · cases hbody'
    · exact hne (h.alone m' hold m hm path' path hbody' hbody hhost)
  refine h.server hi (fun m' hm' => ?_)
    (fun fd path' hopen hname => (hn m.host).names_kept hserver hopen hname)
    (fun m' hm' path' hbody' hhost => absurd hhost (hother m' hm' path' hbody'))
    fun m₁ hm₁ _ _ path₁ _ hbody₁ _ hhost₁ _ => absurd hhost₁ (hother m₁ hm₁ path₁ hbody₁)
  rcases hmem m' hm' with rfl | ⟨_, hold⟩
  · refine .inr ⟨m, hm, _, rfl, rfl, nofun, fun rfd hrfd hpos => ?_⟩
    obtain rfl := Body.opened.inj hrfd
    exact ⟨path, by rw [hbody]; rfl, hname hpos⟩
  · exact .inl hold

/-! ### Responses -/

omit [DecidableEq γ] [DecidableEq τ] in
/-- The thread of an open request in flight has its descriptor for itself. -/
theorem Inv.open_exclusive {s : State γ τ} (h : Inv cfg s) {m : Message γ τ} (hm : m ∈ s.network)
    (hopen : m.body.isOpen = true) :
    ∃ run, (s.clients m.tag.client).threads m.thread = some run ∧ run.on = some m.tag.fd ∧
      run.call.exclusive = true := by
  obtain ⟨run, req, hrun, hon, _, hawait, hfrom⟩ := h.awaited m hm (Body.isClose_of_isOpen hopen)
  have hreq : ∃ path, req = .openFile path := by
    cases hbody : m.body with
    | request req' =>
        rw [hbody] at hfrom hopen
        obtain rfl : req = req' := hfrom
        cases req with
        | openFile path => exact ⟨path, rfl⟩
        | _ => cases hopen
    | opening path => exact (hbody ▸ hfrom : Body.From (.opening path) req)
    | opened status => exact (hbody ▸ hfrom : Body.From (.opened status) req)
    | answered ret =>
        rw [hbody] at hopen
        cases hopen
  obtain ⟨path, rfl⟩ := hreq
  obtain ⟨hok, _⟩ := h.clients m.tag.client
  have hrunning := hok.running m.thread run hrun
  obtain ⟨fd, hop | hop⟩ := awaiting_nextOp hok hrun (by simp [hawait])
  · obtain ⟨run', k, hrun', hcode⟩ := nextOp_cases hop
    rw [hrun] at hrun'
    obtain rfl := Option.some.inj hrun'
    exact ⟨run, hrun, hon, (hrunning.allowed hcode rfl).2.1⟩
  · obtain ⟨run', k, hrun', hcode⟩ := nextOp_cases hop
    rw [hrun] at hrun'
    obtain rfl := Option.some.inj hrun'
    obtain ⟨_, host, req, hawait', _⟩ := hrunning.allowed hcode rfl
    cases (Prod.mk.inj (Option.some.inj (hawait'.symm.trans hawait))).2

omit [DecidableEq γ] [DecidableEq τ] in
/-- One open request is in flight for a descriptor. -/
theorem Inv.open_unique {s : State γ τ} (h : Inv cfg s) {m m' : Message γ τ} (hm : m ∈ s.network)
    (hm' : m' ∈ s.network) (hopen : m.body.isOpen = true) (hopen' : m'.body.isOpen = true)
    (hclient : m'.tag.client = m.tag.client) (hfd : m'.tag.fd = m.tag.fd) : m' = m := by
  obtain ⟨run, hrun, hon, hexcl⟩ := h.open_exclusive hm hopen
  obtain ⟨run', hrun', hon', _⟩ := h.open_exclusive hm' hopen'
  rw [hclient] at hrun'
  rw [hfd] at hon'
  have ht : m.thread = m'.thread := (h.clients _).2.alone m.thread m'.thread m.tag.fd
    run'.call.exclusive ⟨run, hrun, hon, hexcl⟩ ⟨run', hrun', hon', rfl⟩
  refine h.eq_of_key hm' hm ?_
  rw [Message.key_of_exchange (Body.isClose_of_isOpen hopen),
    Message.key_of_exchange (Body.isClose_of_isOpen hopen'), hclient, ht]

/-- The response of an open request makes its status the mapping of the path that was noted. -/
theorem Traced.fetch_opened [Fintype τ] {s : State γ τ} (h : Traced cfg s) (hi : Inv cfg s)
    {m : Message γ τ} (hm : m ∈ s.network) {status fd : Int} (hbody : m.body = .opened status)
    (hop : (s.clients m.tag.client).nextOp m.thread = some (.openOutput fd))
    {client' : Client.State τ}
    (hs : Client.Step cfg discipline (s.clients m.tag.client)
      (.step m.thread { value := status }) client') :
    Traced cfg { s with
      clients := Function.update s.clients m.tag.client client'
      network := s.replace m [] } := by
  have hopen : m.body.isOpen = true := by rw [hbody]; rfl
  obtain ⟨run, k, hrun, hcode, hworld, _⟩ := openOutput_step hop hs
  have hrunning := (hi.clients m.tag.client).1.running m.thread run hrun
  obtain ⟨hon, _⟩ := hrunning.allowed hcode rfl
  obtain ⟨run', hrun', hon', _⟩ := hi.open_exclusive hm hopen
  rw [hrun] at hrun'
  obtain rfl := Option.some.inj hrun'
  obtain rfl : fd = m.tag.fd := Option.some.inj (hon.symm.trans hon')
  have hother : ∀ fd', fd' ≠ m.tag.fd →
      client'.world.lastOpen fd' = (s.clients m.tag.client).world.lastOpen fd' := by
    intro fd' hne
    simp [hworld, hne]
  refine h.client (fun m' hm' => .inl (hi.mem_replace.mp hm' |>.resolve_left List.not_mem_nil).2)
    (fun m' hm' hold hopen' hc => hother m'.tag.fd fun hfd => ?_)
    fun fd' rpc rfd hrpc hclosed hstatus hpos => ?_
  · exact ((hi.mem_replace.mp hm').resolve_left List.not_mem_nil).1
      (hi.open_unique hm hold hopen hopen' hc hfd)
  · by_cases hne : fd' = m.tag.fd
    · subst hne
      simp only [hworld, Table.update_self] at hrpc
      obtain ⟨rpc', hrpc', rfl⟩ := Option.map_eq_some_iff.mp hrpc
      obtain rfl : status = rfd := by simpa using hstatus
      obtain ⟨path, hnote, hname⟩ := h.opened m hm status hbody hpos
      obtain rfl := Option.some.inj (hrpc'.symm.trans hnote)
      exact hname
    · exact h.live _ fd' rpc rfd (hother fd' hne ▸ hrpc) hclosed hstatus hpos

/-! ### All steps -/

theorem Traced.step [Fintype τ] {s s' : State γ τ} {e : Event γ τ} (h : Traced cfg s)
    (hi : Inv cfg s) (hn : ∀ host, Server.ServesNames (s.servers host)) (hs : Step cfg s e s') :
    Traced cfg s' := by
  -- while a server takes a request, it is working on none
  have hidle : ∀ {m : Message γ τ}, m ∈ s.network → ∀ {path}, m.body = .opening path →
      (s.servers m.host).progress ≠ .idle := by
    intro m hm path hbody hpc
    have hrequest := h.opening m hm path hbody
    rw [hpc] at hrequest
    cases hrequest
  cases hs with
  | client hquiet hstep => exact h.client_step hi hquiet (Client.step_cases hstep)
  | @server host e server' hint hstep =>
      have hserver := (Server.step_cases hstep).2
      refine h.server hi (fun m hm => .inl hm)
        (fun fd path hopen hname => (hn host).names_kept hserver hopen hname)
        (fun m hm path hbody hhost => ?_)
        fun m hm m' hm' path path' hbody hbody' hhost hhost' =>
          h.alone m hm m' hm' path path' hbody hbody' (hhost.trans hhost'.symm)
      refine Server.request_kept hserver ?_ (hhost ▸ h.opening m hm path hbody)
      rintro fd rfl
      cases hint
  | @receiveOpen m env path server' hm hbody hstep =>
      have hserver := (Server.step_cases hstep).2
      have hpc : (s.servers m.host).progress = .idle ∧ server'.progress.request = some path := by
        cases hserver with
        | openRequest hpc => exact ⟨hpc, rfl⟩
      have hmem : ∀ m' ∈ s.replace m [{ m with body := .opening path }],
          m' = { m with body := .opening path } ∨ m' ∈ s.network := by
        intro m' hm'
        exact (hi.mem_replace.mp hm').imp List.mem_singleton.mp And.right
      -- no other open request is being handled there
      have hthis : ∀ m' ∈ s.replace m [{ m with body := .opening path }], ∀ path',
          m'.body = .opening path' → m'.host = m.host → m' = { m with body := .opening path } := by
        intro m' hm' path' hbody' hhost
        refine (hmem m' hm').resolve_right fun hold => hidle hold hbody' ?_
        rw [hhost]
        exact hpc.1
      refine h.server hi (fun m' hm' => ?_)
        (fun fd path' hopen hname => (hn m.host).names_kept hserver hopen hname)
        (fun m' hm' path' hbody' hhost => ?_)
        fun m₁ hm₁ m₂ hm₂ path₁ path₂ hbody₁ hbody₂ hhost₁ hhost₂ =>
          (hthis m₁ hm₁ path₁ hbody₁ hhost₁).trans (hthis m₂ hm₂ path₂ hbody₂ hhost₂).symm
      · rcases hmem m' hm' with rfl | hold
        · refine .inr ⟨m, hm, _, rfl, rfl, fun path' hpath => ?_, nofun⟩
          rw [hbody]
          exact hpath
        · exact .inl hold
      · have hm'' := hthis m' hm' path' hbody' hhost
        rw [hm''] at hbody'
        obtain rfl : path = path' := Body.opening.inj hbody'
        exact hpc.2
  | @receiveRead m env req server' ms hm hbody hstep hms =>
      have hserver := (Server.step_cases hstep).2
      have hpc : (s.servers m.host).progress = .idle := by
        cases hserver with
        | readRequest hpc => exact hpc
      have hmem : ∀ m' ∈ s.replace m ms,
          m' ∈ s.network ∨ ∃ ret, m' = { m with body := .answered ret } := by
        intro m' hm'
        rcases hi.mem_replace.mp hm' with hnew | ⟨_, hold⟩
        · rcases hms with rfl | ⟨ret, rfl⟩
          · cases hnew
          · exact .inr ⟨ret, List.mem_singleton.mp hnew⟩
        · exact .inl hold
      have hold : ∀ m' ∈ s.replace m ms, ∀ path, m'.body = .opening path → m'.host ≠ m.host := by
        intro m' hm' path hbody' hhost
        rcases hmem m' hm' with hold | ⟨ret, rfl⟩
        · refine hidle hold hbody' ?_
          rw [hhost]
          exact hpc
        · cases hbody'
      refine h.server hi (fun m' hm' => (hmem m' hm').imp_right ?_)
        (fun fd path hopen hname => (hn m.host).names_kept hserver hopen hname)
        (fun m' hm' path hbody' hhost => absurd hhost (hold m' hm' path hbody'))
        fun m₁ hm₁ _ _ path₁ _ hbody₁ _ hhost₁ _ => absurd hhost₁ (hold m₁ hm₁ path₁ hbody₁)
      rintro ⟨ret, rfl⟩
      exact ⟨m, hm, _, rfl, rfl, nofun, nofun⟩
  | @receiveClose m env fd server' hm hbody hstep =>
      have hserver := (Server.step_cases hstep).2
      have hpc : (s.servers m.host).progress = .idle := by
        cases hserver with
        | closeRequest hpc => exact hpc
      have hold : ∀ m' ∈ s.replace m [], m' ∈ s.network := fun m' hm' =>
        ((hi.mem_replace.mp hm').resolve_left List.not_mem_nil).2
      have hother : ∀ m' ∈ s.replace m [], ∀ path, m'.body = .opening path → m'.host ≠ m.host := by
        intro m' hm' path hbody' hhost
        refine hidle (hold m' hm') hbody' ?_
        rw [hhost]
        exact hpc
      exact h.server hi (fun m' hm' => .inl (hold m' hm'))
        (fun fd path hopen hname => (hn m.host).names_kept hserver hopen hname)
        (fun m' hm' path hbody' hhost => absurd hhost (hother m' hm' path hbody'))
        fun m₁ hm₁ _ _ path₁ _ hbody₁ _ hhost₁ _ => absurd hhost₁ (hother m₁ hm₁ path₁ hbody₁)
  | @openFailed m path server' hm hbody hstep =>
      refine h.openCall hi hn hm hbody (Server.step_cases hstep).2 fun hpos => ?_
      exact absurd hpos (by decide)
  | @opened m path fd server' hm hbody hstep =>
      have hserver := (Server.step_cases hstep).2
      refine h.openCall hi hn hm hbody hserver fun _ => ?_
      have hrequest := h.opening m hm path hbody
      cases hserver with
      | openOk hpc _ _ _ =>
          rw [hpc] at hrequest
          simpa [Server.ProgressPc.request] using hrequest
  | @respond m value client' hm hvalue hstep =>
      have hs := Client.step_cases hstep
      cases hbody : m.body with
      | request req => rw [hbody] at hvalue; cases hvalue
      | opening path => rw [hbody] at hvalue; cases hvalue
      | opened status =>
          simp only [hbody, Body.value] at hvalue
          split at hvalue
          · next fd hop =>
              obtain rfl := Option.some.inj hvalue
              exact h.fetch_opened hi hm hbody hop hs
          · cases hvalue
      | answered ret =>
          simp only [hbody, Body.value] at hvalue
          split at hvalue
          · next fd hop =>
              obtain ⟨run', hworld, _⟩ := readOutput_step hop hs
              exact h.client
                (fun m' hm' => .inl ((hi.mem_replace.mp hm').resolve_left List.not_mem_nil).2)
                (fun m' _ _ _ _ => by rw [hworld])
                (fun fd' rpc rfd hrpc => h.live _ fd' rpc rfd (by rwa [hworld] at hrpc))
          · cases hvalue

theorem traced_invariant [Fintype τ] :
    (machine γ cfg : Machine (State γ τ) _).Invariant (Traced cfg) where
  init :=
    { asked := fun _ h => absurd h List.not_mem_nil
      opening := fun _ h => absurd h List.not_mem_nil
      alone := fun _ h => absurd h List.not_mem_nil
      opened := fun _ h => absurd h List.not_mem_nil
      live := by
        intro c fd rpc rfd h
        cases h }
  step hr h hs := by
    have hn : ∀ host, Server.ServesNames _ := fun host =>
      Server.servesNames_invariant.reachable (reachable_server hr host)
    exact h.step (inv_invariant.reachable hr) hn (step_cases hs)

/-! ## Placement -/

/-- The path is in a table or a queue of the server, or the progress thread opens it. -/
def HasPath (s : State γ τ) (host : Int) (path : Path) : Prop :=
  (s.servers host).progress.request = some path ∨
    (∃ fd, (s.servers host).descs fd ≠ none ∧ (s.servers host).fdToPath fd = some path) ∨
    path ∈ (s.servers host).dataQueue ++ (s.servers host).localList ∨
    (s.servers host).pathCacheMap path ≠ none

theorem knows_invariant [Fintype τ] : (machine γ cfg : Machine (State γ τ) _).Invariant fun s =>
    ∀ host, Server.Knows (fun path => cfg.host path = host) (s.servers host) where
  init := fun _ => Server.knows_init
  step {s s' e} hr h hs := by
    have hi : Inv cfg s := inv_invariant.reachable hr
    have ht : Traced cfg s := traced_invariant.reachable hr
    have hstep : ∀ {host : Int} {e : Server.Event} {server' : Server.State},
        Server.machine.step (s.servers host) e = some server' →
        (∀ path, e = .openRequest path → cfg.host path = host) →
        (∀ fd, e = .closeRequest fd → (s.servers host).descs fd ≠ none) →
        ∀ host', Server.Knows (fun path => cfg.host path = host')
          (Function.update s.servers host server' host') := by
      intro host e server' hserver hopen hclose host'
      by_cases hhost : host' = host
      · subst hhost
        rw [Function.update_self]
        have hn := Server.servesNames_invariant.reachable (reachable_server hr host')
        exact (h host').step hn (Server.step_cases hserver).2 hopen hclose
      · rw [Function.update_of_ne hhost]
        exact h host'
    cases step_cases hs with
    | client _ _ => exact h
    | server hint hserver =>
        refine hstep hserver ?_ ?_ <;>
          · rintro _ rfl
            cases hint
    | @receiveOpen m _ path _ hm hbody hserver =>
        refine hstep hserver ?_ nofun
        rintro path' ⟨⟩
        exact (ht.asked m hm path (by rw [hbody]; rfl)).1.symm
    | receiveRead _ _ hserver _ => exact hstep hserver nofun nofun
    | @receiveClose m _ fd _ hm hbody hserver =>
        refine hstep hserver nofun ?_
        rintro fd' ⟨⟩
        exact hi.owned m.host fd m.tag (hi.closing m hm fd hbody).1
    | openFailed _ _ hserver => exact hstep hserver nofun nofun
    | opened _ _ hserver => exact hstep hserver nofun nofun
    | respond _ _ _ => exact h

/-- A path is only ever opened, queued, copied or cached at the server that it is hashed to,
so no two servers hold copies of one file. -/
theorem paths_placed [Fintype τ] {s : State γ τ} (h : (machine γ cfg).Reachable s) {host : Int}
    {path : Path} (hpath : HasPath s host path) :
    cfg.host path = host ∧ ∀ host', HasPath s host' path → host' = host := by
  have hknows : ∀ {host}, HasPath s host path → cfg.host path = host := by
    intro host hhas
    have hk := knows_invariant.reachable h host
    rcases hhas with hrequest | ⟨fd, hopen, hname⟩ | hqueued | hcached
    · exact hk.request path hrequest
    · exact hk.opened fd path hopen hname
    · exact hk.queued path hqueued
    · exact hk.cached path hcached
  exact ⟨hknows hpath, fun host' hpath' => (hknows hpath').symm.trans (hknows hpath)⟩

theorem paths_placed_in_read :
    ∃ s, (machine Unit dataDirConfig).run openAndRead = some s ∧
      ∀ host, HasPath s host ['/', 'd', '/', 'a'] → host = 1 := by
  have hdescs : ((machine Unit dataDirConfig).run openAndRead).map (fun s =>
      ((s.servers 1).descs 7, (s.servers 1).fdToPath 7)) =
        some (some ⟨['/', 'd', '/', 'a'], 0⟩, some ['/', 'd', '/', 'a']) := by
    decide +kernel
  obtain ⟨s, hrun, hfd⟩ := Option.map_eq_some_iff.mp hdescs
  obtain ⟨hopen, hname⟩ := Prod.mk.inj hfd
  exact ⟨s, hrun, (paths_placed (Machine.reachable_of_run hrun)
    (.inr (.inl ⟨7, by simp [hopen], hname⟩))).2⟩

end MtHvac.System
