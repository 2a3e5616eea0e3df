-- SUMMARY: Which bytes a client gets: those of the file it opened, at the offset it asked for or where the reads before it in the same open file ended.
import MtHvac.System.Names

/-!
# Contents

What the answered reads of one incarnation return at the offset `-1` is one
sequential read of the file that the client opened, whatever copy of it the
server has opened and whatever else the system does meanwhile.

The history variable collects these bytes for each incarnation. They belong to the
one server descriptor of the incarnation, whose position counts them.
-/

namespace MtHvac.System

open Base Client

variable {γ τ : Type} [DecidableEq γ] [DecidableEq τ] {cfg : Config}

/-! ## The bytes of an incarnation -/

/-- The bytes that the reads of each incarnation at its file position were answered with. -/
abbrev Streams (γ : Type) := Tag γ → List Byte

def Streams.record (s : State γ τ) : Event γ τ → Streams γ → Streams γ
  | .receive m env, h =>
      match m.body with
      | .request (.read req) =>
          Function.update h m.tag (h m.tag ++ (s.servers m.host).streamed req env)
      | _ => h
  | _, h => h

abbrev audited [Fintype τ] (γ : Type) [DecidableEq γ] (cfg : Config) :
    Machine (State γ τ × Streams γ) (Event γ τ) :=
  (machine γ cfg).observed Streams.record fun _ => []

/-! ## Incarnations begin once -/

/-- An incarnation that has begun stays so. -/
theorem State.Begun.step [Fintype τ] {s s' : State γ τ} {e : Event γ τ} (hi : Inv cfg s)
    (hs : Step cfg s e s') {tag : Tag γ} (h : s.Begun tag) : s'.Begun tag := by
  obtain ⟨i, hinc, hlt, hlast⟩ := id h
  -- a client step that keeps the incarnation of the last open request
  have hclient : ∀ {c : γ} {e : Client.Event τ} {client' : Client.State τ},
      Client.Step cfg discipline (s.clients c) e client' →
      (tag.client = c → (s.clients c).world.kernel tag.fd = some i →
        ∀ rpc, (s.clients c).world.lastOpen tag.fd = some rpc → rpc.incarnation = some i →
          ∃ rpc', client'.world.lastOpen tag.fd = some rpc' ∧ rpc'.incarnation = some i) →
      i < (Function.update s.clients c client' tag.client).world.nextIncarnation ∧
        ((Function.update s.clients c client' tag.client).world.kernel tag.fd = some i →
          ∃ rpc, (Function.update s.clients c client' tag.client).world.lastOpen tag.fd = some rpc ∧
            rpc.incarnation = some i) := by
    intro c e client' hs hkept
    obtain ⟨hnext, hkernel⟩ := kernel_mono hs
    by_cases hc : tag.client = c
    · rw [hc] at hlt hlast ⊢
      rw [Function.update_self]
      refine ⟨Nat.lt_of_lt_of_le hlt hnext, fun hk => ?_⟩
      have hk' := hkernel tag.fd i hlt hk
      obtain ⟨rpc, hrpc, hrpci⟩ := hlast hk'
      exact hkept hc hk' rpc hrpc hrpci
    · rw [Function.update_of_ne hc]
      exact ⟨hlt, hlast⟩
  cases hs with
  | @client c e client' hquiet hstep =>
      have hs := Client.step_cases hstep
      refine ⟨i, hinc, hclient hs fun hc hk rpc hrpc hrpci => ?_⟩
      cases hsent : (sent c (s.clients c) e : List (Message γ τ)) with
      | nil =>
          rw [lastOpen_kept hquiet hsent hs]
          exact ⟨rpc, hrpc, hrpci⟩
      | cons m ms =>
          obtain ⟨t, a, run, fd, host, req, k, rfl, hok, hrun, hcode, _, _⟩ :=
            sent_cases (hsent ▸ List.mem_cons_self : m ∈ sent c (s.clients c) e)
          obtain ⟨hworld, _⟩ := forward_step hok hrun hcode hs
          have hrunning : RunOk cfg (s.clients c).world run := (hi.clients c).1.running t run hrun
          have hcurrent := hrunning.current fd (hrunning.allowed hcode rfl).1
          rw [hworld]
          cases req with
          | openFile path =>
              by_cases hne : tag.fd = fd
              · exact ⟨⟨run.incarnation, host, path, none, false⟩, by simp [World.sent, hne],
                  by rw [hcurrent, ← hne, hk]⟩
              · exact ⟨rpc, by simpa [World.sent, hne] using hrpc, hrpci⟩
          | read req => exact ⟨rpc, hrpc, hrpci⟩
          | close rfd =>
              by_cases hne : tag.fd = fd
              · exact ⟨{ rpc with closed := true }, by simp [World.sent, ← hne, hrpc], hrpci⟩
              · exact ⟨rpc, by simpa [World.sent, hne] using hrpc, hrpci⟩
  | @respond m value client' hm hvalue hstep =>
      have hs := Client.step_cases hstep
      refine ⟨i, hinc, hclient hs fun hc hk rpc hrpc hrpci => ?_⟩
      cases hbody : m.body with
      | request req => rw [hbody] at hvalue; cases hvalue
      | opening path => rw [hbody] at hvalue; cases hvalue
      | opened status =>
          simp only [hbody, Body.value] at hvalue
          split at hvalue
          · next fd hop =>
              obtain ⟨run, k, _, _, hworld, _⟩ := openOutput_step hop hs
              rw [hworld]
              by_cases hne : tag.fd = fd
              · exact ⟨{ rpc with status := some value }, by simp [← hne, hrpc], hrpci⟩
              · exact ⟨rpc, by simpa [hne] using hrpc, hrpci⟩
          · cases hvalue
      | answered ret =>
          simp only [hbody, Body.value] at hvalue
          split at hvalue
          · next fd hop =>
              obtain ⟨run', hworld, _⟩ := readOutput_step hop hs
              rw [hworld]
              exact ⟨rpc, hrpc, hrpci⟩
          · cases hvalue
  | server _ _ | receiveOpen _ _ _ | receiveRead _ _ _ _ | receiveClose _ _ _ | openFailed _ _ _
  | opened _ _ _ => exact h

/-! ## The invariant -/

/-- The incarnation has read something, or has a descriptor at a server. -/
def Used (s : State γ τ) (h : Streams γ) (tag : Tag γ) : Prop :=
  h tag ≠ [] ∨ ∃ host rfd, s.owner host rfd = some tag

structure Streamed (s : State γ τ) (h : Streams γ) : Prop where
  begun : ∀ tag, Used s h tag → s.Begun tag
  fresh : ∀ m ∈ s.network, m.body.openPath ≠ none → ¬ Used s h m.tag
  single : ∀ host rfd host' rfd' tag, s.owner host rfd = some tag →
    s.owner host' rfd' = some tag → host = host' ∧ rfd = rfd'
  read : ∀ host rfd tag, s.owner host rfd = some tag →
    (s.servers host).ReadUpTo rfd (h tag)

omit [DecidableEq γ] [DecidableEq τ] in
/-- A step that reads, opens and closes nothing. -/
theorem Streamed.keep {s s' : State γ τ} {h : Streams γ} (hs : Streamed s h)
    (hbegun : ∀ tag, s.Begun tag → s'.Begun tag) (howner : s'.owner = s.owner)
    (hnetwork : ∀ m ∈ s'.network, m.body.openPath ≠ none →
      (∃ m₀ ∈ s.network, m₀.body.openPath ≠ none ∧ m₀.tag = m.tag) ∨ ¬ Used s h m.tag)
    (hread : ∀ host rfd tag, s.owner host rfd = some tag →
      (s.servers host).ReadUpTo rfd (h tag) → (s'.servers host).ReadUpTo rfd (h tag)) :
    Streamed s' h := by
  have hused : ∀ tag, Used s' h tag ↔ Used s h tag := by
    intro tag
    rw [Used, Used, howner]
  refine ⟨fun tag htag => hbegun tag (hs.begun tag ((hused tag).mp htag)), fun m hm hopen => ?_,
    ?_, fun host rfd tag hown => ?_⟩
  · rw [hused]
    rcases hnetwork m hm hopen with ⟨m₀, hm₀, hopen₀, htag⟩ | hnew
    · exact htag ▸ hs.fresh m₀ hm₀ hopen₀
    · exact hnew
  · rw [howner]
    exact hs.single
  · rw [howner] at hown
    exact hread host rfd tag hown (hs.read host rfd tag hown)

omit [DecidableEq γ] [DecidableEq τ] in
/-- An incarnation whose open request is sent is not used. -/
theorem Streamed.unused {s : State γ τ} {h : Streams γ} (hs : Streamed s h) (hi : Inv cfg s)
    {c : γ} {t : τ} {run : Running} {fd host : Int} {path : Path} {k : Bool → Code Int}
    (hrun : (s.clients c).threads t = some run)
    (hcode : run.code = .call (.forward fd host (.openFile path)) k) :
    ¬ Used s h ⟨c, fd, run.incarnation⟩ := by
  intro hused
  have hrunning : RunOk cfg (s.clients c).world run := (hi.clients c).1.running t run hrun
  obtain ⟨hon, _, _, _, hnew⟩ := hrunning.allowed hcode rfl
  have hinc : run.incarnation = (s.clients c).world.kernel fd := hrunning.current fd hon
  obtain ⟨i, hi', _, hlast⟩ := hs.begun _ hused
  have hk : (s.clients c).world.kernel fd = some i := hinc.symm.trans hi'
  obtain ⟨rpc, hrpc, hrpci⟩ := hlast hk
  exact hnew rpc hrpc (hrpci.trans hk.symm)

omit [DecidableEq γ] [DecidableEq τ] in
/-- The incarnation of an open request in flight has begun. -/
theorem Traced.begun {s : State γ τ} (ht : Traced cfg s) (hi : Inv cfg s) {m : Message γ τ}
    (hm : m ∈ s.network) {path : Path} (hpath : m.body.openPath = some path) : s.Begun m.tag := by
  obtain ⟨hok, hheld⟩ := hi.clients m.tag.client
  have hopen := Body.isOpen_of_openPath hpath
  obtain ⟨run, req, hrun, hon, hinc, _⟩ := hi.awaited m hm (Body.isClose_of_isOpen hopen)
  obtain ⟨i, run', hrun', _, hi', hk⟩ := (hok.running m.thread run hrun).worksOn hheld hrun hon
  rw [hrun] at hrun'
  obtain rfl := Option.some.inj hrun'
  have htag : m.tag.incarnation = some i := hinc.symm.trans hi'
  exact ⟨i, htag, (hok.fresh m.tag.fd).kernel i hk, fun _ =>
    ⟨_, (ht.asked m hm path hpath).2, htag⟩⟩

omit [DecidableEq γ] [DecidableEq τ] in
/-- A server that steps, but not in a request on the descriptor. -/
theorem Streamed.server_read {s : State γ τ} {h : Streams γ} {host : Int} {e : Server.Event}
    {server' : Server.State} (hstep : Server.machine.step (s.servers host) e = some server')
    {host' rfd : Int} {tag : Tag γ} (hread : (s.servers host').ReadUpTo rfd (h tag))
    (hother : host' = host → (∀ req env, e = .readRequest req env → req.accessfd ≠ rfd) ∧
      (∀ offset whence, e ≠ .seekRequest rfd offset whence) ∧ e ≠ .openCall (some rfd)) :
    (Function.update s.servers host server' host').ReadUpTo rfd (h tag) := by
  by_cases hhost : host' = host
  · subst hhost
    rw [Function.update_self]
    obtain ⟨hreq, hseek, hopen⟩ := hother rfl
    exact hread.step hstep hreq hseek hopen
  · rwa [Function.update_of_ne hhost]

omit [DecidableEq τ] in
/-- An answered read adds to the stream of the incarnation that the descriptor belongs to. -/
theorem Streamed.receiveRead {s : State γ τ} {h : Streams γ} (hst : Streamed s h) (hi : Inv cfg s)
    {m : Message γ τ} {req : HvacRpcIn} {env : ReadEnv} {server' : Server.State}
    {network' : List (Message γ τ)} (hm : m ∈ s.network) (hbody : m.body = .request (.read req))
    (hstep : Server.machine.step (s.servers m.host) (.readRequest req env) = some server')
    (hbegun : ∀ tag, s.Begun tag →
      State.Begun ⟨s.clients, Function.update s.servers m.host server', s.owner, network',
        s.closed⟩ tag)
    (hnetwork : ∀ m' ∈ network', m'.body.openPath ≠ none → m' ∈ s.network) :
    Streamed ⟨s.clients, Function.update s.servers m.host server', s.owner, network', s.closed⟩
      (Function.update h m.tag (h m.tag ++ (s.servers m.host).streamed req env)) := by
  have hown : s.owner m.host req.accessfd = some m.tag := (hi.read_live hm hbody).1
  set h' := Function.update h m.tag (h m.tag ++ (s.servers m.host).streamed req env) with hh'
  have hused : ∀ tag, Used ⟨s.clients, Function.update s.servers m.host server', s.owner, network',
      s.closed⟩ h' tag → Used s h tag := by
    rintro tag (hread | howned)
    · by_cases htag : tag = m.tag
      · exact .inr ⟨m.host, req.accessfd, htag ▸ hown⟩
      · rw [hh', Function.update_of_ne htag] at hread
        exact .inl hread
    · exact .inr howned
  refine ⟨fun tag htag => hbegun tag (hst.begun tag (hused tag htag)),
    fun m' hm' hopen => mt (hused m'.tag) (hst.fresh m' (hnetwork m' hm' hopen) hopen), hst.single,
    fun host rfd tag hown' => ?_⟩
  by_cases htag : tag = m.tag
  · subst htag
    obtain ⟨rfl, rfl⟩ := hst.single _ _ _ _ m.tag hown' hown
    show (Function.update s.servers m.host server' m.host).ReadUpTo req.accessfd (h' m.tag)
    rw [hh', Function.update_self, Function.update_self]
    exact (hst.read m.host req.accessfd m.tag hown').read hstep
  · rw [hh', Function.update_of_ne htag]
    refine server_read hstep (hst.read host rfd tag hown') fun hhost => ⟨?_, nofun, nofun⟩
    rintro _ _ ⟨⟩ rfl
    rw [hhost] at hown'
    exact htag (Option.some.inj (hown'.symm.trans hown))

omit [DecidableEq γ] [DecidableEq τ] in
/-- A close request ends the descriptor of an incarnation. -/
theorem Streamed.receiveClose {s : State γ τ} {h : Streams γ} (hst : Streamed s h)
    {m : Message γ τ} {fd : Int} {server' : Server.State} {network' : List (Message γ τ)}
    {closed' : List (Tag γ)}
    (hstep : Server.machine.step (s.servers m.host) (.closeRequest fd) = some server')
    (hbegun : ∀ tag, s.Begun tag →
      State.Begun ⟨s.clients, Function.update s.servers m.host server',
        Function.update s.owner m.host ((s.owner m.host).erase fd), network', closed'⟩ tag)
    (hnetwork : ∀ m' ∈ network', m' ∈ s.network) :
    Streamed ⟨s.clients, Function.update s.servers m.host server',
      Function.update s.owner m.host ((s.owner m.host).erase fd), network', closed'⟩ h := by
  have hless : ∀ {host rfd tag},
      Function.update s.owner m.host ((s.owner m.host).erase fd) host rfd = some tag →
        s.owner host rfd = some tag := by
    intro host rfd tag hown
    by_cases hhost : host = m.host
    · subst hhost
      rw [Function.update_self] at hown
      exact (Table.erase_eq_some.mp hown).2
    · rwa [Function.update_of_ne hhost] at hown
  have hused : ∀ tag, Used ⟨s.clients, Function.update s.servers m.host server',
      Function.update s.owner m.host ((s.owner m.host).erase fd), network', closed'⟩ h tag →
        Used s h tag := by
    intro tag
    exact Or.imp_right fun ⟨host, rfd, hown⟩ => ⟨host, rfd, hless hown⟩
  refine ⟨fun tag htag => hbegun tag (hst.begun tag (hused tag htag)),
    fun m' hm' hopen => mt (hused m'.tag) (hst.fresh m' (hnetwork m' hm') hopen),
    fun host rfd host' rfd' tag hown hown' => hst.single _ _ _ _ tag (hless hown) (hless hown'),
    fun host rfd tag hown => ?_⟩
  exact server_read hstep (hst.read host rfd tag (hless hown)) fun _ => ⟨nofun, nofun, nofun⟩

/-- A new descriptor belongs to an incarnation that has read nothing. -/
theorem Streamed.opened {s : State γ τ} {h : Streams γ} (hst : Streamed s h) (hi : Inv cfg s)
    (ht : Traced cfg s) {m : Message γ τ} {path : Path} {fd : Int} {server' : Server.State}
    (hm : m ∈ s.network) (hbody : m.body = .opening path)
    (hstep : Server.machine.step (s.servers m.host) (.openCall (some fd)) = some server')
    (hbegun : ∀ tag, s.Begun tag →
      State.Begun ⟨s.clients, Function.update s.servers m.host server',
        Function.update s.owner m.host ((s.owner m.host).set fd m.tag),
        s.replace m [{ m with body := .opened fd }], s.closed⟩ tag) :
    Streamed ⟨s.clients, Function.update s.servers m.host server',
      Function.update s.owner m.host ((s.owner m.host).set fd m.tag),
      s.replace m [{ m with body := .opened fd }], s.closed⟩ h := by
  have hpath : m.body.openPath = some path := by rw [hbody]; rfl
  have hfresh := hst.fresh m hm (by rw [hpath]; exact Option.some_ne_none _)
  have hempty : h m.tag = [] := by
    by_contra hne
    exact hfresh (.inl hne)
  have hcases : ∀ {host rfd tag},
      Function.update s.owner m.host ((s.owner m.host).set fd m.tag) host rfd = some tag →
        host = m.host ∧ rfd = fd ∧ tag = m.tag ∨
          (host = m.host → rfd ≠ fd) ∧ tag ≠ m.tag ∧ s.owner host rfd = some tag := by
    intro host rfd tag hown
    have hne : s.owner host rfd = some tag → tag ≠ m.tag := by
      rintro hold rfl
      exact hfresh (.inr ⟨host, rfd, hold⟩)
    by_cases hhost : host = m.host
    · subst hhost
      rw [Function.update_self] at hown
      by_cases hfd : rfd = fd
      · subst hfd
        rw [Table.set_self] at hown
        exact .inl ⟨rfl, rfl, (Option.some.inj hown).symm⟩
      · rw [Table.set_of_ne _ _ hfd] at hown
        exact .inr ⟨fun _ => hfd, hne hown, hown⟩
    · rw [Function.update_of_ne hhost] at hown
      exact .inr ⟨fun heq => absurd heq hhost, hne hown, hown⟩
  have hused : ∀ tag, Used ⟨s.clients, Function.update s.servers m.host server',
      Function.update s.owner m.host ((s.owner m.host).set fd m.tag),
      s.replace m [{ m with body := .opened fd }], s.closed⟩ h tag → tag = m.tag ∨ Used s h tag := by
    rintro tag (hread | ⟨host, rfd, hown⟩)
    · exact .inr (.inl hread)
    · rcases hcases hown with ⟨_, _, rfl⟩ | ⟨_, _, hold⟩
      · exact .inl rfl
      · exact .inr (.inr ⟨host, rfd, hold⟩)
  refine ⟨fun tag htag => ?_, fun m' hm' hopen htag => ?_,
    fun host rfd host' rfd' tag hown hown' => ?_, fun host rfd tag hown => ?_⟩
  · rcases hused tag htag with rfl | hold
    · exact hbegun m.tag (ht.begun hi hm hpath)
    · exact hbegun tag (hst.begun tag hold)
  · rcases hi.mem_replace.mp hm' with hnew | ⟨hne, hold⟩
    · obtain rfl := List.mem_singleton.mp hnew
      exact hopen rfl
    · obtain ⟨path', hpath'⟩ := Option.ne_none_iff_exists'.mp hopen
      rcases hused m'.tag htag with heq | hold'
      · exact hne (hi.open_unique hm hold (Body.isOpen_of_openPath hpath)
          (Body.isOpen_of_openPath hpath') (by rw [heq]) (by rw [heq]))
      · exact hst.fresh m' hold hopen hold'
  · rcases hcases hown with ⟨rfl, rfl, rfl⟩ | ⟨_, hne, hold⟩ <;>
      rcases hcases hown' with ⟨rfl, rfl, heq⟩ | ⟨_, hne', hold'⟩
    · exact ⟨rfl, rfl⟩
    · exact absurd rfl hne'
    · exact absurd heq hne
    · exact hst.single _ _ _ _ tag hold hold'
  · rcases hcases hown with ⟨rfl, rfl, rfl⟩ | ⟨hother, _, hold⟩
    · show (Function.update s.servers m.host server' m.host).ReadUpTo rfd (h m.tag)
      rw [Function.update_self, hempty]
      exact Server.State.ReadUpTo.opened hstep
    · refine server_read hstep (hst.read host rfd tag hold) fun hhost => ⟨nofun, nofun, ?_⟩
      rintro ⟨⟩
      exact hother hhost rfl

theorem Streamed.step [Fintype τ] {s s' : State γ τ} {e : Event γ τ} {h : Streams γ}
    (hst : Streamed s h) (hi : Inv cfg s) (ht : Traced cfg s) (hs : Step cfg s e s') :
    Streamed s' (Streams.record s e h) := by
  have hbegun : ∀ tag, s.Begun tag → s'.Begun tag := fun tag => State.Begun.step hi hs
  have hmem : ∀ {m : Message γ τ} {b : Body}, m ∈ s.network →
      (b.openPath ≠ none → m.body.openPath ≠ none) →
      ∀ m' ∈ s.replace m [{ m with body := b }], m'.body.openPath ≠ none →
        (∃ m₀ ∈ s.network, m₀.body.openPath ≠ none ∧ m₀.tag = m'.tag) ∨ ¬ Used s h m'.tag := by
    intro m b hm hb m' hm' hopen
    rcases hi.mem_replace.mp hm' with hnew | ⟨_, hold⟩
    · obtain rfl := List.mem_singleton.mp hnew
      exact .inl ⟨m, hm, hb hopen, rfl⟩
    · exact .inl ⟨m', hold, hopen, rfl⟩
  have hless : ∀ {m : Message γ τ}, ∀ m' ∈ s.replace m [], m' ∈ s.network := fun m' hm' =>
    ((hi.mem_replace.mp hm').resolve_left List.not_mem_nil).2
  cases hs with
  | @client c e client' hquiet hstep =>
      refine hst.keep hbegun rfl (fun m hm hopen => ?_) fun _ _ _ _ hread => hread
      rcases List.mem_append.mp hm with hnew | hold
      · right
        obtain ⟨t, a, run, fd, host, req, k, rfl, _, hrun, hcode, rfl, _⟩ := sent_cases hnew
        cases req with
        | openFile path => exact hst.unused hi hrun hcode
        | _ => exact absurd rfl hopen
      · exact .inl ⟨m, hold, hopen, rfl⟩
  | server hint hstep =>
      refine hst.keep hbegun rfl (fun m hm hopen => .inl ⟨m, hm, hopen, rfl⟩)
        fun host' rfd tag hown hread => Streamed.server_read hstep hread fun _ => ⟨?_, ?_, ?_⟩
      · rintro req env rfl
        cases hint
      · rintro offset whence rfl
        cases hint
      · rintro rfl
        cases hint
  | @receiveOpen m env path server' hm hbody hstep =>
      have hrecord : Streams.record s (.receive m env) h = h := by simp [Streams.record, hbody]
      rw [hrecord]
      refine hst.keep hbegun rfl (hmem hm fun _ => by simp [hbody, Body.openPath])
        fun host' rfd tag _ hread => Streamed.server_read hstep hread fun _ => ⟨nofun, nofun, nofun⟩
  | openFailed hm hbody hstep =>
      refine hst.keep hbegun rfl (hmem hm fun hopen => absurd rfl hopen)
        fun host' rfd tag _ hread => Streamed.server_read hstep hread fun _ => ⟨nofun, nofun, nofun⟩
  | respond hm hvalue hstep =>
      exact hst.keep hbegun rfl (fun m' hm' hopen => .inl ⟨m', hless m' hm', hopen, rfl⟩)
        fun _ _ _ _ hread => hread
  | @receiveRead m env req server' ms hm hbody hstep hms =>
      have hrecord : Streams.record s (.receive m env) h =
          Function.update h m.tag (h m.tag ++ (s.servers m.host).streamed req env) := by
        simp [Streams.record, hbody]
      rw [hrecord]
      refine hst.receiveRead hi hm hbody hstep hbegun fun m' hm' hopen => ?_
      rcases hi.mem_replace.mp hm' with hnew | ⟨_, hold⟩
      · rcases hms with rfl | ⟨ret, rfl⟩
        · cases hnew
        · obtain rfl := List.mem_singleton.mp hnew
          exact absurd rfl hopen
      · exact hold
  | @receiveClose m env fd server' hm hbody hstep =>
      have hrecord : Streams.record s (.receive m env) h = h := by simp [Streams.record, hbody]
      rw [hrecord]
      exact hst.receiveClose hstep hbegun hless
  | opened hm hbody hstep => exact hst.opened hi ht hm hbody hstep hbegun

theorem streamed_invariant [Fintype τ] :
    (audited γ cfg : Machine (State γ τ × Streams γ) _).Invariant
      fun x => Streamed x.1 x.2 where
  init :=
    { begun := by
        rintro tag (hread | ⟨host, rfd, hown⟩)
        · exact absurd rfl hread
        · cases hown
      fresh := fun _ h => absurd h List.not_mem_nil
      single := by
        intro host rfd host' rfd' tag hown
        cases hown
      read := by
        intro host rfd tag hown
        cases hown }
  step {x x' e} hr h he := by
    obtain ⟨hs, hrecord⟩ := Machine.observed_step.mp he
    rw [← hrecord]
    have hreach := hr.of_observed
    exact h.step (inv_invariant.reachable hreach) (traced_invariant.reachable hreach)
      (step_cases hs)

/-! ## Answered reads -/

omit [DecidableEq γ] [DecidableEq τ] in
/-- What the client of a read request in flight knows about its descriptor. -/
theorem Inv.read_target {s : State γ τ} (h : Inv cfg s) {m : Message γ τ} (hm : m ∈ s.network)
    {req : HvacRpcIn} (hbody : m.body = .request (.read req)) :
    ∃ path, (s.clients m.tag.client).world.fdMap m.tag.fd = some path ∧ m.host = cfg.host path ∧
      0 < req.accessfd ∧ (s.clients m.tag.client).world.lastOpen m.tag.fd =
        some ⟨m.tag.incarnation, m.host, path, some req.accessfd, false⟩ := by
  obtain ⟨hok, _⟩ := h.clients m.tag.client
  obtain ⟨run, req', hrun, hon, hinc, hawait, hreq⟩ := h.awaited m hm (by rw [hbody]; rfl)
  rw [hbody] at hreq
  obtain rfl : req' = .read req := hreq
  have hrunning := hok.running m.thread run hrun
  obtain ⟨fd, hop | hop⟩ := awaiting_nextOp hok hrun (by simp [hawait])
  · obtain ⟨run', k, hrun', hcode⟩ := nextOp_cases hop
    rw [hrun] at hrun'
    obtain rfl := Option.some.inj hrun'
    obtain ⟨_, _, host, path, hawait', _⟩ := hrunning.allowed hcode rfl
    exact absurd (hawait.symm.trans hawait') (by simp)
  · obtain ⟨run', k, hrun', hcode⟩ := nextOp_cases hop
    rw [hrun] at hrun'
    obtain rfl := Option.some.inj hrun'
    obtain ⟨hon', host, req', hawait', hpos, path, hpath, hhost, hlast⟩ :=
      hrunning.allowed hcode rfl
    obtain rfl : fd = m.tag.fd := Option.some.inj (hon'.symm.trans hon)
    obtain ⟨rfl, hreq'⟩ : host = m.host ∧ _ :=
      Prod.mk.inj (Option.some.inj (hawait'.symm.trans hawait))
    obtain rfl : req' = req := by simpa using hreq'
    have hkernel : ((s.clients m.tag.client).world.view m.tag.fd).kernel = m.tag.incarnation :=
      (hrunning.current m.tag.fd hon).symm.trans hinc
    rw [hkernel] at hlast
    exact ⟨path, hpath, hhost, hpos, hlast⟩

/-- An answered read returns bytes of the file that the client has under its descriptor: at
the offset of the request, or, for the offset `-1`, from where the bytes end that the reads at
this offset returned since the descriptor was opened. All these bytes together are the start
of the file. -/
theorem answered_contents [Fintype τ] {s : State γ τ} {h : Streams γ}
    (hr : (audited γ cfg).Reachable (s, h)) {m : Message γ τ} {env : ReadEnv} {s' : State γ τ}
    (hstep : (machine γ cfg).step s (.receive m env) = some s') {req : HvacRpcIn}
    (hbody : m.body = .request (.read req)) {bytes : List Byte} {ret : Int}
    (hans : ((s.servers m.host).handleRead req env).1 = .answered bytes ret) :
    ∃ path f, (s.clients m.tag.client).world.fdMap m.tag.fd = some path ∧ m.host = cfg.host path ∧
      (s.servers m.host).files path = some f ∧
      (f.origin = .source →
        bytes = slice f.data
            (if req.offset = -1 then (h m.tag).length else req.offset.toNat)
            (min (Word.toUInt64 req.inputVal) OpenFile.maxRwCount) ∧
          (req.offset = -1 → h m.tag ++ bytes <+: f.data)) := by
  have hreach := hr.of_observed
  have hi : Inv cfg s := inv_invariant.reachable hreach
  have ht : Traced cfg s := traced_invariant.reachable hreach
  have hst : Streamed s h := streamed_invariant.reachable hr
  have hn : Server.ServesNames (s.servers m.host) :=
    Server.servesNames_invariant.reachable (reachable_server hreach m.host)
  have hm : m ∈ s.network ∧ (s.servers m.host).alive = true := by
    cases step_cases hstep with
    | receiveOpen hm _ hserver => exact ⟨hm, (Server.step_cases hserver).1⟩
    | receiveRead hm _ hserver _ => exact ⟨hm, (Server.step_cases hserver).1⟩
    | receiveClose hm _ hserver => exact ⟨hm, (Server.step_cases hserver).1⟩
  obtain ⟨hm, halive⟩ := hm
  obtain ⟨path, hpath, hhost, hpos, hlast⟩ := hi.read_target hm hbody
  have hown : s.owner m.host req.accessfd = some m.tag := (hi.read_live hm hbody).1
  have hname : (s.servers m.host).fdToPath req.accessfd = some path :=
    ht.live m.tag.client m.tag.fd _ req.accessfd hlast rfl rfl hpos
  obtain ⟨d, hd⟩ := Option.ne_none_iff_exists'.mp (hi.owned _ _ _ hown)
  obtain ⟨hdpos, g, hg, hprefix⟩ := hst.read m.host req.accessfd m.tag hown halive d hd
  obtain ⟨_, path', hname', f, hf, hserve⟩ := hn.opened req.accessfd d hd
  obtain rfl := Option.some.inj (hname'.symm.trans hname)
  refine ⟨path', f, hpath, hhost, hf, fun hsource => ?_⟩
  have hbytes := hn.answered hd hname hf hsource hans
  rw [Server.Desc.start, hdpos] at hbytes
  refine ⟨hbytes, fun hoff => ?_⟩
  obtain ⟨g', hg', hdata, _⟩ := hserve hsource
  obtain rfl := Option.some.inj (hg'.symm.trans hg)
  obtain ⟨rest, hrest⟩ := hdata ▸ hprefix
  rw [hbytes, if_pos hoff, ← hrest]
  refine (List.prefix_append_right_inj _).mpr ?_
  simpa using slice_prefix_drop (h m.tag ++ rest) (h m.tag).length
    (min (Word.toUInt64 req.inputVal) OpenFile.maxRwCount)

/-- One client opens `/d/a`, which holds two bytes, reads one of them, and asks for the other. -/
def readTwice : List (Event Unit Unit) :=
  let message (body : Body) : Message Unit Unit := ⟨⟨(), 3, some 0⟩, (), 1, body⟩
  let read : List (Event Unit Unit) :=
    .client () (.call () (.read 3 1)) :: List.replicate 9 (.client () (.step () {}))
  openAndRead.take 18 ++ read ++
    [.receive (message (.request (.read (readRequest 7 1 (-1))))) ⟨false, false⟩,
      .respond (message (.answered 1)), .client () (.ret ())] ++ read

theorem answered_contents_in_second_read :
    ∃ s h f, (audited Unit dataDirConfig).run readTwice = some (s, h) ∧
      h ⟨(), 3, some 0⟩ = [104] ∧ (s.servers 1).files ['/', 'd', '/', 'a'] = some f ∧
      h ⟨(), 3, some 0⟩ ++ [105] <+: f.data := by
  let m : Message Unit Unit := ⟨⟨(), 3, some 0⟩, (), 1, .request (.read (readRequest 7 1 (-1)))⟩
  have hseen : ((audited Unit dataDirConfig).run readTwice).map (fun x =>
      (x.2 ⟨(), 3, some 0⟩, (x.1.servers 1).files ['/', 'd', '/', 'a'],
        (x.1.clients ()).world.fdMap 3,
        ((x.1.servers 1).handleRead (readRequest 7 1 (-1)) ⟨false, false⟩).1,
        ((machine Unit dataDirConfig).step x.1 (.receive m ⟨false, false⟩)).isSome)) =
      some ([104], some ⟨[104, 105], .source⟩, some ['/', 'd', '/', 'a'], .answered [105] 1,
        true) := by
    decide +kernel
  obtain ⟨⟨s, h⟩, hrun, hx⟩ := Option.map_eq_some_iff.mp hseen
  simp only [Prod.mk.injEq] at hx
  obtain ⟨hstream, hfile, hmap, hreply, hstep⟩ := hx
  obtain ⟨s', hs'⟩ := Option.isSome_iff_exists.mp hstep
  obtain ⟨path, f, hpath, _, hf, hcontents⟩ :=
    answered_contents (Machine.reachable_of_run hrun) hs' rfl hreply
  obtain rfl := Option.some.inj (hmap.symm.trans hpath)
  obtain rfl := Option.some.inj (hfile.symm.trans hf)
  exact ⟨s, h, _, hrun, hstream, hfile, (hcontents rfl).2 rfl⟩

end MtHvac.System
