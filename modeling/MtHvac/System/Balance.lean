-- SUMMARY: No remote descriptor is forgotten: what the servers have open is what the clients have mapped, or is on its way between them.
import MtHvac.Client.Debts
import MtHvac.System.RemoteDescriptors

/-!
# The balance of remote descriptors

A descriptor that a server opened is claimed from then on: by the response in flight,
by the note of the client that was given it, and by the close request in flight. While
close requests are sent the claim is never lost, so when no call is in progress the
descriptors open at the servers are the ones in the clients' maps.
-/

namespace MtHvac.System

open Base Client

variable {γ τ : Type} [DecidableEq γ] [DecidableEq τ] {cfg : Config}

/-! ## Claims -/

/-- The message carries the remote descriptor: to the client, or back to be closed. -/
def Body.carries (rfd : Int) (b : Body) : Prop := b = .opened rfd ∨ b = .request (.close rfd)

/-- The client has been given the remote descriptor and has not sent it back. -/
def Owes (w : World) (tag : Tag γ) (host rfd : Int) : Prop :=
  ∃ rpc, w.lastOpen tag.fd = some rpc ∧ rpc.incarnation = tag.incarnation ∧ rpc.host = host ∧
    rpc.owed = some rfd

/-- Where the descriptor `rfd` of the server `host` is known. -/
def State.Claimed (s : State γ τ) (tag : Tag γ) (host rfd : Int) : Prop :=
  (∃ m ∈ s.network, m.tag = tag ∧ m.host = host ∧ m.body.carries rfd) ∨
    Owes (s.clients tag.client).world tag host rfd

/-- Each open descriptor of a server has an owner, and is claimed for it. -/
structure Balanced (s : State γ τ) : Prop where
  owner : ∀ host rfd, (s.servers host).descs rfd ≠ none → s.owner host rfd ≠ none
  claimed : ∀ host rfd tag, s.owner host rfd = some tag → 0 < rfd → s.Claimed tag host rfd
  clients : ∀ c, Solvent (s.clients c)

/-- Every close request is sent. -/
def sendsCloses (s : State γ τ) : Event γ τ → Bool
  | .client c e => Client.sendsCloses (s.clients c) e
  | _           => true

/-! ## Steps -/

section Steps

variable {s s' : State γ τ}

omit [DecidableEq γ] [DecidableEq τ] in
/-- A step that opens and closes nothing at the servers. -/
theorem Balanced.keep (h : Balanced s) (howner : s'.owner = s.owner)
    (hdescs : ∀ host rfd, (s'.servers host).descs rfd ≠ none → (s.servers host).descs rfd ≠ none)
    (hclaimed : ∀ tag host rfd, 0 < rfd → s.Claimed tag host rfd → s'.Claimed tag host rfd)
    (hclients : ∀ c, Solvent (s'.clients c)) : Balanced s' where
  owner host rfd hopen := by
    rw [howner]
    exact h.owner host rfd (hdescs host rfd hopen)
  claimed host rfd tag hown hpos := by
    rw [howner] at hown
    exact hclaimed tag host rfd hpos (h.claimed host rfd tag hown hpos)
  clients := hclients

omit [DecidableEq γ] [DecidableEq τ] in
theorem descs_update {host : Int} {server' : Server.State}
    (hkept : ∀ fd, server'.descs fd = none ↔ (s.servers host).descs fd = none) (host' rfd : Int)
    (hopen : (Function.update s.servers host server' host').descs rfd ≠ none) :
    (s.servers host').descs rfd ≠ none := by
  by_cases hhost : host' = host
  · subst hhost
    rw [Function.update_self] at hopen
    exact mt (hkept rfd).mpr hopen
  · rwa [Function.update_of_ne hhost] at hopen

/-- A message that carries nothing moves on. -/
theorem claimed_replace (hi : Inv cfg s) {m : Message γ τ} {ms : List (Message γ τ)}
    (hm : ∀ rfd, ¬ m.body.carries rfd) {tag : Tag γ} {host rfd : Int}
    (h : s.Claimed tag host rfd) :
    State.Claimed { s with network := s.replace m ms } tag host rfd := by
  refine h.imp_left ?_
  rintro ⟨m', hm', htag, hhost, hbody⟩
  have hne : m' ≠ m := by
    rintro rfl
    exact hm rfd hbody
  exact ⟨m', hi.mem_replace.mpr (.inr ⟨hne, hm'⟩), htag, hhost, hbody⟩

omit [DecidableEq τ] in
/-- The debts of a client that notes the same open requests. -/
theorem owes_update {c : γ} {client' : Client.State τ} {tag : Tag γ} {host rfd : Int}
    (hlast : tag.client = c → client'.world.lastOpen tag.fd = (s.clients c).world.lastOpen tag.fd)
    (h : Owes (s.clients tag.client).world tag host rfd) :
    Owes (Function.update s.clients c client' tag.client).world tag host rfd := by
  by_cases hc : tag.client = c
  · have hlast' := hlast hc
    rw [hc] at h
    rw [hc, Function.update_self]
    obtain ⟨rpc, hrpc, hrest⟩ := h
    exact ⟨rpc, hlast'.trans hrpc, hrest⟩
  · rwa [Function.update_of_ne hc]

omit [DecidableEq τ] in
theorem solvent_update (h : Balanced s) {c : γ} {client' : Client.State τ}
    (hclient : Solvent client') (c' : γ) : Solvent (Function.update s.clients c client' c') := by
  by_cases hc : c' = c
  · subst hc
    rwa [Function.update_self]
  · rw [Function.update_of_ne hc]
    exact h.clients c'

omit [DecidableEq τ] in
/-- A client that sends a request: a new incarnation owes nothing yet, and a close request
carries what was owed. -/
theorem Balanced.send (h : Balanced s) (hi : Inv cfg s) {c : γ} {t : τ} {run : Running}
    {fd host : Int} {req : Request} {k : Bool → Code Int} {client' : Client.State τ}
    (hrun : (s.clients c).threads t = some run) (hcode : run.code = .call (.forward fd host req) k)
    (hworld : client'.world = (s.clients c).world.sent run.incarnation fd host req)
    (hclient : Solvent client') :
    Balanced { s with
      clients := Function.update s.clients c client'
      network := ⟨⟨c, fd, run.incarnation⟩, t, host, .request req⟩ :: s.network } := by
  have hrunning : RunOk cfg (s.clients c).world run := (hi.clients c).1.running t run hrun
  obtain ⟨hon, hallowed⟩ := hrunning.allowed hcode rfl
  have hother : ∀ fd', fd' ≠ fd →
      client'.world.lastOpen fd' = (s.clients c).world.lastOpen fd' := by
    intro fd' hne
    rw [hworld]
    cases req <;> simp [World.sent, hne]
  refine h.keep rfl (fun _ _ => id) (fun tag host' rfd _ hclaim => ?_) (solvent_update h hclient)
  rcases hclaim with ⟨m, hm, hm'⟩ | howes
  · exact .inl ⟨m, List.mem_cons_of_mem _ hm, hm'⟩
  by_cases htag : tag.client = c ∧ tag.fd = fd
  · obtain ⟨htagc, htagfd⟩ := htag
    cases req with
    | openFile path =>
        -- nothing is owed for the descriptor before its open request
        have hpays := (h.clients c).running t run hrun hallowed.2.1
        rw [hcode, hon] at hpays
        have hnone := hpays.1 rfl _ rfl
        obtain ⟨rpc, hrpc, _, _, howed⟩ := howes
        rw [htagc, htagfd] at hrpc
        have hsome : ((s.clients c).world.view fd).debt.owed = some rfd :=
          (congrArg (Option.bind · OpenRpc.owed) hrpc).trans howed
        cases hnone.symm.trans hsome
    | read req => exact .inr (owes_update (fun _ => by rw [hworld]; rfl) howes)
    | close rfd' =>
        obtain ⟨_, _, _, path, _, _, hlast⟩ := hallowed
        obtain ⟨rpc, hrpc, hinc, hhost, howed⟩ := howes
        rw [htagc, htagfd] at hrpc
        obtain rfl := Option.some.inj (hlast.symm.trans hrpc)
        obtain rfl : rfd' = rfd := Option.some.inj (OpenRpc.owed_eq_some.mp howed).2.1
        refine .inl ⟨_, List.mem_cons_self, ?_, hhost, .inr rfl⟩
        obtain ⟨client, fd₀, incarnation⟩ := tag
        obtain rfl : client = c := htagc
        obtain rfl : fd₀ = fd := htagfd
        rw [hrunning.current fd₀ hon]
        exact congrArg (Tag.mk client fd₀) hinc
  · refine .inr (owes_update (fun hc => hother tag.fd fun hfd => htag ⟨hc, hfd⟩) howes)

/-- Every step of a client that fetches no response. -/
theorem Balanced.client [Fintype τ] (h : Balanced s) (hi : Inv cfg s) {c : γ} {e : Client.Event τ}
    {client' : Client.State τ} (hquiet : fetches (s.clients c) e = false)
    (hsends : Client.sendsCloses (s.clients c) e = true)
    (hs : Client.Step cfg discipline (s.clients c) e client') :
    Balanced { s with
      clients := Function.update s.clients c client'
      network := sent c (s.clients c) e ++ s.network } := by
  have hclient : Solvent client' :=
    (h.clients c).step (hi.clients c).1 (hi.clients c).2 hsends hs
  cases hsent : (sent c (s.clients c) e : List (Message γ τ)) with
  | nil =>
      have hlast : client'.world.lastOpen = (s.clients c).world.lastOpen :=
        lastOpen_kept hquiet hsent hs
      exact h.keep rfl (fun _ _ => id)
        (fun tag host rfd _ => Or.imp_right (owes_update fun _ => by rw [hlast]))
        (solvent_update h hclient)
  | cons m ms =>
      obtain ⟨t, a, run, fd, host, req, k, rfl, hok, hrun, hcode, rfl, hone⟩ :=
        sent_cases (hsent ▸ List.mem_cons_self : m ∈ sent c (s.clients c) e)
      obtain rfl : ms = [] := (List.cons.inj (hsent.symm.trans hone)).2
      exact h.send hi hrun hcode (forward_step hok hrun hcode hs).1 hclient

omit [DecidableEq γ] [DecidableEq τ] in
/-- The client of a response to an open request notes that it has no status yet. -/
theorem Inv.opened_note (hi : Inv cfg s) {m : Message γ τ} (hm : m ∈ s.network) {status fd : Int}
    (hbody : m.body = .opened status)
    (hop : (s.clients m.tag.client).nextOp m.thread = some (.openOutput fd)) :
    fd = m.tag.fd ∧ ∃ path, (s.clients m.tag.client).world.lastOpen m.tag.fd =
      some ⟨m.tag.incarnation, m.host, path, none, false⟩ := by
  obtain ⟨run, k, hrun, hcode⟩ := nextOp_cases hop
  have hrunning := (hi.clients m.tag.client).1.running m.thread run hrun
  obtain ⟨hon, _, host, path, hawait, hlast⟩ := hrunning.allowed hcode rfl
  obtain ⟨run', req, hrun', hon', hinc', hawait', _⟩ := hi.awaited m hm (by rw [hbody]; rfl)
  obtain rfl := Option.some.inj (hrun.symm.trans hrun')
  obtain rfl : fd = m.tag.fd := Option.some.inj (hon.symm.trans hon')
  obtain ⟨rfl, _⟩ : host = m.host ∧ _ := Prod.mk.inj (Option.some.inj (hawait.symm.trans hawait'))
  refine ⟨rfl, path, ?_⟩
  rw [← hinc', hrunning.current m.tag.fd hon]
  exact hlast

/-- The response of an open request leaves its descriptor with the client. -/
theorem Balanced.fetch_opened [Fintype τ] (h : Balanced s) (hi : Inv cfg s) {m : Message γ τ}
    (hm : m ∈ s.network) {status fd : Int} (hbody : m.body = .opened status)
    (hop : (s.clients m.tag.client).nextOp m.thread = some (.openOutput fd))
    {client' : Client.State τ}
    (hs : Client.Step cfg discipline (s.clients m.tag.client)
      (.step m.thread { value := status }) client') (hclient : Solvent client') :
    Balanced { s with
      clients := Function.update s.clients m.tag.client client'
      network := s.replace m [] } := by
  obtain ⟨rfl, path, hnote⟩ := hi.opened_note hm hbody hop
  obtain ⟨_, _, _, _, hworld, _⟩ := openOutput_step hop hs
  refine h.keep rfl (fun _ _ => id) (fun tag host rfd hpos hclaim => ?_) (solvent_update h hclient)
  rcases hclaim with ⟨m', hm', htag, hhost, hcarries⟩ | howes
  · by_cases hne : m' = m
    · subst hne
      obtain rfl : status = rfd := by simpa [Body.carries, hbody] using hcarries
      obtain rfl : m'.tag = tag := htag
      refine .inr ⟨⟨m'.tag.incarnation, m'.host, path, some status, false⟩, ?_, rfl, hhost, ?_⟩
      · simp [hworld, hnote]
      · exact OpenRpc.owed_eq_some.mpr ⟨rfl, rfl, hpos⟩
    · exact .inl ⟨m', hi.mem_replace.mpr (.inr ⟨hne, hm'⟩), htag, hhost, hcarries⟩
  · by_cases htag : tag.client = m.tag.client ∧ tag.fd = m.tag.fd
    · obtain ⟨rpc, hrpc, _, _, howed⟩ := howes
      rw [htag.1, htag.2] at hrpc
      obtain rfl := Option.some.inj (hnote.symm.trans hrpc)
      cases (OpenRpc.owed_eq_some.mp howed).2.1
    · refine .inr (owes_update (fun hc => ?_) howes)
      have hne : tag.fd ≠ m.tag.fd := fun hfd => htag ⟨hc, hfd⟩
      simp [hworld, hne]

/-- A server opens a descriptor, which the response carries. -/
theorem Balanced.opened (h : Balanced s) (hi : Inv cfg s) {m : Message γ τ}
    {path : Path} (hbody : m.body = .opening path) {fd : Int} {server' : Server.State}
    {d : Server.Desc} (hdescs : server'.descs = (s.servers m.host).descs.set fd d) :
    Balanced { s with
      servers := Function.update s.servers m.host server'
      owner := Function.update s.owner m.host ((s.owner m.host).set fd m.tag)
      network := s.replace m [{ m with body := .opened fd }] } := by
  have hnot : ∀ rfd, ¬ m.body.carries rfd := by
    intro rfd hcarries
    rcases hcarries with hc | hc <;> cases hbody.symm.trans hc
  refine ⟨fun host rfd hopen => ?_, fun host rfd tag hown hpos => ?_, h.clients⟩
  · by_cases hhost : host = m.host
    · subst hhost
      simp only [Function.update_self, hdescs] at hopen ⊢
      by_cases hne : rfd = fd
      · simp [hne]
      · rw [Table.set_of_ne _ _ hne] at hopen ⊢
        exact h.owner m.host rfd hopen
    · simp only [Function.update_of_ne hhost] at hopen ⊢
      exact h.owner host rfd hopen
  · by_cases hnew : host = m.host ∧ rfd = fd
    · obtain ⟨rfl, rfl⟩ := hnew
      simp only [Function.update_self, Table.set_self, Option.some.injEq] at hown
      subst hown
      exact .inl ⟨_, hi.mem_replace.mpr (.inl (List.mem_singleton.mpr rfl)), rfl, rfl, .inl rfl⟩
    · have hold : s.owner host rfd = some tag := by
        by_cases hhost : host = m.host
        · subst hhost
          have hne : rfd ≠ fd := fun hfd => hnew ⟨rfl, hfd⟩
          simpa [hne] using hown
        · simpa [hhost] using hown
      exact claimed_replace hi hnot (h.claimed host rfd tag hold hpos)

/-- A server closes the descriptor that a close request carries. -/
theorem Balanced.closed (h : Balanced s) (hi : Inv cfg s) {m : Message γ τ} {rfd : Int}
    (hbody : m.body = .request (.close rfd)) {server' : Server.State}
    (hdescs : server'.descs = (s.servers m.host).descs.erase rfd) :
    Balanced { s with
      servers := Function.update s.servers m.host server'
      owner := Function.update s.owner m.host ((s.owner m.host).erase rfd)
      network := s.replace m []
      closed := m.tag :: s.closed } := by
  refine ⟨fun host fd hopen => ?_, fun host fd tag hown hpos => ?_, h.clients⟩
  · by_cases hhost : host = m.host
    · subst hhost
      simp only [Function.update_self, hdescs] at hopen ⊢
      have hne : fd ≠ rfd := by
        rintro rfl
        simp at hopen
      rw [Table.erase_of_ne _ hne] at hopen ⊢
      exact h.owner m.host fd hopen
    · simp only [Function.update_of_ne hhost] at hopen ⊢
      exact h.owner host fd hopen
  · have hold : s.owner host fd = some tag ∧ ¬ (host = m.host ∧ fd = rfd) := by
      by_cases hhost : host = m.host
      · subst hhost
        simp only [Function.update_self] at hown
        obtain ⟨hne, hown⟩ := Table.erase_eq_some.mp hown
        exact ⟨hown, fun hboth => hne hboth.2⟩
      · exact ⟨by simpa [hhost] using hown, fun hboth => hhost hboth.1⟩
    refine (h.claimed host fd tag hold.1 hpos).imp_left ?_
    rintro ⟨m', hm', htag, hat, hcarries⟩
    have hne : m' ≠ m := by
      rintro rfl
      refine hold.2 ⟨hat.symm, ?_⟩
      rcases hcarries with hc | hc
      · cases hbody.symm.trans hc
      · obtain rfl : rfd = fd := by simpa using hbody.symm.trans hc
        rfl
    exact ⟨m', hi.mem_replace.mpr (.inr ⟨hne, hm'⟩), htag, hat, hcarries⟩

theorem Balanced.step [Fintype τ] {e : Event γ τ} (h : Balanced s) (hi : Inv cfg s)
    (hsends : sendsCloses s e = true) (hs : Step cfg s e s') : Balanced s' := by
  -- a message that carries nothing, at a server that opens and closes nothing
  have hhandled : ∀ {m : Message γ τ} {ms : List (Message γ τ)} {server' : Server.State},
      (∀ rfd, ¬ m.body.carries rfd) →
      (∀ fd, server'.descs fd = none ↔ (s.servers m.host).descs fd = none) →
      Balanced { s with
        servers := Function.update s.servers m.host server'
        network := s.replace m ms } := fun hnot hkept =>
    h.keep rfl (descs_update hkept) (fun _ _ _ _ => claimed_replace hi hnot) h.clients
  have hfetches : ∀ {c : γ} {t : τ} {value : Int} {client' : Client.State τ},
      Client.Step cfg discipline (s.clients c) (.step t { value := value }) client' →
        Solvent client' := by
    intro c t value client' hstep
    refine (h.clients c).step (hi.clients c).1 (hi.clients c).2 ?_ hstep
    simp only [Client.sendsCloses]
    split <;> rfl
  cases hs with
  | client hquiet hstep => exact h.client hi hquiet hsends (Client.step_cases hstep)
  | server hint hstep =>
      exact h.keep rfl (descs_update (descs_kept hstep (.inl hint))) (fun _ _ _ _ => id) h.clients
  | @receiveOpen m env path server' hm hbody hstep =>
      refine hhandled (fun rfd hcarries => ?_) (descs_kept hstep (.inr (.inl ⟨path, rfl⟩)))
      rcases hcarries with hc | hc <;> cases hbody.symm.trans hc
  | @receiveRead m env req server' ms hm hbody hstep hms =>
      refine hhandled (fun rfd hcarries => ?_) (descs_kept hstep (.inr (.inr (.inr ⟨req, env, rfl⟩))))
      rcases hcarries with hc | hc <;> cases hbody.symm.trans hc
  | receiveClose hm hbody hstep => exact h.closed hi hbody (closeRequest_descs hstep).1
  | @openFailed m path server' hm hbody hstep =>
      refine hhandled (fun rfd hcarries => ?_) (descs_kept hstep (.inr (.inr (.inl rfl))))
      rcases hcarries with hc | hc <;> cases hbody.symm.trans hc
  | opened hm hbody hstep =>
      obtain ⟨_, d, hd⟩ := openCall_descs hstep
      exact h.opened hi hbody hd
  | @respond m value client' hm hvalue hstep =>
      have hs := Client.step_cases hstep
      cases hbody : m.body with
      | request req => rw [hbody] at hvalue; cases hvalue
      | opening path => rw [hbody] at hvalue; cases hvalue
      | opened status =>
          simp only [hbody, Body.value] at hvalue
          split at hvalue
          · next fd hop =>
              obtain rfl := Option.some.inj hvalue
              exact h.fetch_opened hi hm hbody hop hs (hfetches hs)
          · cases hvalue
      | answered ret =>
          simp only [hbody, Body.value] at hvalue
          split at hvalue
          · next fd hop =>
              obtain ⟨run', hworld, _⟩ := readOutput_step hop hs
              refine h.keep rfl (fun _ _ => id) (fun tag host rfd _ hclaim => ?_)
                (solvent_update h (hfetches hs))
              have hnot : ∀ rfd, ¬ m.body.carries rfd := by
                intro rfd hcarries
                rcases hcarries with hc | hc <;> cases hbody.symm.trans hc
              exact (claimed_replace hi hnot hclaim).imp_right (owes_update fun _ => by rw [hworld])
          · cases hvalue

end Steps

/-! ## Every remote descriptor is accounted for -/

section Accounts

variable [Fintype τ] {s s' : State γ τ} {es : List (Event γ τ)}

theorem balanced_init : Balanced (machine γ cfg : Machine (State γ τ) _).init where
  owner _ _ hopen := absurd rfl hopen
  claimed _ _ _ hown := by cases hown
  clients _ := solvent_init

theorem balanced_visits (hsends : ∀ s e, (machine γ cfg).Takes es s e → sendsCloses s e = true)
    (hs : (machine γ cfg).Visits es s) : Balanced s :=
  Machine.always_of_steps balanced_init
    (fun hr h hsends hstep => h.step (inv_invariant.reachable hr) hsends (step_cases hstep)) hsends hs

/-- While every close request is sent, each descriptor that a server has open is known
elsewhere too: to a message that carries it, or to the client that can close it. -/
theorem remote_descriptors_accounted
    (hsends : ∀ s e, (machine γ cfg).Takes es s e → sendsCloses s e = true)
    (hs : (machine γ cfg).Visits es s) {host rfd : Int}
    (hopen : (s.servers host).descs rfd ≠ none) (hpos : 0 < rfd) :
    ∃ tag, s.owner host rfd = some tag ∧ s.Claimed tag host rfd := by
  have h : Balanced s := balanced_visits hsends hs
  obtain ⟨tag, hown⟩ := Option.ne_none_iff_exists'.mp (h.owner host rfd hopen)
  exact ⟨tag, hown, h.claimed host rfd tag hown hpos⟩

/-- One client opens `/d/a` at the server `1` and closes it; whether its close request is sent. -/
def openAndClose (sent : Bool) : List (Event Unit Unit) :=
  let steps (n : Nat) : List (Event Unit Unit) := List.replicate n (.client () (.step () {}))
  openAndRead.take 18 ++ [.client () (.call () (.close 3))] ++ steps 7 ++
  [.client () (.step () { ok := sent })] ++ steps 4 ++ [.client () (.ret ())]

theorem remote_descriptors_accounted_in_close :
    ∃ s, (machine Unit dataDirConfig).run (openAndClose true) = some s ∧
      ∃ tag, s.owner 1 7 = some tag ∧ s.Claimed tag 1 7 := by
  have hseen : ((machine Unit dataDirConfig).run (openAndClose true)).map
      (fun s => ((s.servers 1).descs 7).isSome) = some true := by
    decide +kernel
  have hsends : (machine Unit dataDirConfig).checkSteps sendsCloses
      (machine Unit dataDirConfig).init (openAndClose true) = true := by
    decide +kernel
  obtain ⟨s, hrun, hopen⟩ := Option.map_eq_some_iff.mp hseen
  exact ⟨s, hrun, remote_descriptors_accounted (fun _ _ => Machine.takes_of_checkSteps hsends)
    ⟨_, List.prefix_rfl, hrun⟩ (Option.isSome_iff_ne_none.mp hopen) (by decide)⟩

/-! ### Between calls -/

omit [DecidableEq γ] [DecidableEq τ] [Fintype τ] in
/-- No call is in progress, and nothing is in flight. -/
structure Quiet (s : State γ τ) : Prop where
  threads : ∀ c t, (s.clients c).threads t = none
  network : s.network = []

/-- The maps of a client lead from `fd` to the descriptor `rfd` of the server `host`. -/
def Maps (cfg : Config) (w : World) (fd host rfd : Int) : Prop :=
  ∃ path, w.fdMap fd = some path ∧ cfg.host path = host ∧ w.fdRedirMap fd = some rfd

omit [DecidableEq γ] [DecidableEq τ] [Fintype τ] in
/-- What the maps of an idle client lead to is open at the server, for this client. -/
theorem Inv.mapped_owner (hi : Inv cfg s) {c : γ} (hidle : ∀ t, (s.clients c).threads t = none)
    {fd host rfd : Int} (hpos : 0 < rfd) (hmaps : Maps cfg (s.clients c).world fd host rfd) :
    s.owner host rfd = some ⟨c, fd, (s.clients c).world.kernel fd⟩ := by
  obtain ⟨path, hpath, rfl, hredir⟩ := hmaps
  have hrest : Consistent cfg ((s.clients c).world.view fd) :=
    (hi.clients c).1.rest fd fun t run hrun => by cases (hidle t).symm.trans hrun
  have hview : ((s.clients c).world.view fd).redir = rfd := view_redir hredir
  obtain ⟨_, path', hpath', hlast⟩ := hrest.mapped (hview ▸ hpos.ne')
  obtain rfl : path = path' := Option.some.inj (hpath.symm.trans hpath')
  rw [hview] at hlast
  have hown := (hi.live c fd _ rfd hlast rfl rfl hpos).1
  dsimp only at hown
  exact hown

omit [DecidableEq γ] [DecidableEq τ] [Fintype τ] in
/-- What an idle client owes, its maps lead to. -/
theorem Balanced.owed_mapped (h : Balanced s) (hi : Inv cfg s) {tag : Tag γ}
    (hidle : ∀ t, (s.clients tag.client).threads t = none) {host rfd : Int}
    (howes : Owes (s.clients tag.client).world tag host rfd) :
    Maps cfg (s.clients tag.client).world tag.fd host rfd := by
  obtain ⟨rpc, hrpc, _, hhost, howed⟩ := howes
  have hnobody : ∀ t run, (s.clients tag.client).threads t = some run →
      run.call.exclusive = true → run.on ≠ some tag.fd := by
    intro t run hrun
    cases (hidle t).symm.trans hrun
  have hdebt : ((s.clients tag.client).world.view tag.fd).debt.owed = some rfd :=
    (congrArg (Option.bind · OpenRpc.owed) hrpc).trans howed
  obtain ⟨_, hredir, hne⟩ := (h.clients tag.client).rest tag.fd hnobody rfd hdebt
  have hredir' : ((s.clients tag.client).world.view tag.fd).redir = rfd := hredir
  obtain ⟨_, path, hpath, hlast⟩ :=
    ((hi.clients tag.client).1.rest tag.fd hnobody).mapped (hredir' ▸ hne)
  have hrpc' := Option.some.inj (hlast.symm.trans hrpc)
  obtain ⟨r, hr, _⟩ := view_redir_ne_zero.mp (hredir' ▸ hne)
  obtain rfl : r = rfd := (view_redir hr).symm.trans hredir'
  exact ⟨path, hpath, by rw [← hhost, ← hrpc'], hr⟩

/-- While every close request is sent, the servers have open between calls exactly what the
clients have mapped, each descriptor for one of them. -/
theorem quiet_servers_hold_mapped
    (hsends : ∀ s e, (machine γ cfg).Takes es s e → sendsCloses s e = true)
    (hs : (machine γ cfg).Visits es s) (hquiet : Quiet s) {host rfd : Int} (hpos : 0 < rfd) :
    (s.servers host).descs rfd ≠ none ↔
      ∃! x : γ × Int, Maps cfg (s.clients x.1).world x.2 host rfd := by
  have h : Balanced s := balanced_visits hsends hs
  have hi : Inv cfg s := inv_invariant.reachable hs.reachable
  constructor
  · intro hopen
    obtain ⟨tag, hown⟩ := Option.ne_none_iff_exists'.mp (h.owner host rfd hopen)
    rcases h.claimed host rfd tag hown hpos with ⟨m, hm, _⟩ | howes
    · rw [hquiet.network] at hm
      cases hm
    · refine ⟨(tag.client, tag.fd), h.owed_mapped hi (hquiet.threads _) howes, fun x hx => ?_⟩
      have hown' := hi.mapped_owner (hquiet.threads x.1) hpos hx
      obtain rfl := Option.some.inj (hown.symm.trans hown')
      rfl
  · rintro ⟨x, hx, _⟩
    exact hi.owned host rfd _ (hi.mapped_owner (hquiet.threads x.1) hpos hx)

theorem quiet_servers_hold_mapped_after_open :
    ∃ s, (machine Unit dataDirConfig).run (openAndRead.take 18) = some s ∧
      (s.servers 1).descs 7 ≠ none ∧
      ∃! x : Unit × Int, Maps dataDirConfig (s.clients x.1).world x.2 1 7 := by
  have hseen : ((machine Unit dataDirConfig).run (openAndRead.take 18)).map
      (fun s => (((s.servers 1).descs 7).isSome, ((s.clients ()).threads ()).isNone, s.network)) =
        some (true, true, []) := by
    decide +kernel
  have hsends : (machine Unit dataDirConfig).checkSteps sendsCloses
      (machine Unit dataDirConfig).init (openAndRead.take 18) = true := by
    decide +kernel
  obtain ⟨s, hrun, hs⟩ := Option.map_eq_some_iff.mp hseen
  simp only [Prod.mk.injEq, Option.isNone_iff_eq_none] at hs
  obtain ⟨hopen, hidle, hnetwork⟩ := hs
  have hopen' := Option.isSome_iff_ne_none.mp hopen
  exact ⟨s, hrun, hopen', (quiet_servers_hold_mapped
    (fun _ _ => Machine.takes_of_checkSteps hsends) ⟨_, List.prefix_rfl, hrun⟩
    ⟨fun _ _ => hidle, hnetwork⟩ (by decide)).mp hopen'⟩

/-! ### Descriptors that nobody can close -/

omit [DecidableEq γ] [DecidableEq τ] [Fintype τ] in
/-- The incarnation that a descriptor was opened for is over, and no close request was sent. -/
structure Forgotten (s : State γ τ) (tag : Tag γ) (host rfd : Int) : Prop where
  owner : s.owner host rfd = some tag
  unsent : ¬ s.CloseSent tag
  ended : ∃ i, tag.incarnation = some i ∧ i < (s.clients tag.client).world.nextIncarnation ∧
    (s.clients tag.client).world.kernel tag.fd ≠ some i

theorem Forgotten.step {e : Event γ τ} {tag : Tag γ} {host rfd : Int}
    (h : Forgotten s tag host rfd) (hi : Inv cfg s) (hs : Step cfg s e s') :
    Forgotten s' tag host rfd := by
  obtain ⟨i, hinc, hbelow, hover⟩ := h.ended
  -- a client that steps stays beyond the incarnation
  have hclient : ∀ {c : γ} {e : Client.Event τ} {client' : Client.State τ},
      Client.Step cfg discipline (s.clients c) e client' →
        ∃ i, tag.incarnation = some i ∧
          i < (Function.update s.clients c client' tag.client).world.nextIncarnation ∧
          (Function.update s.clients c client' tag.client).world.kernel tag.fd ≠ some i := by
    intro c e client' hs
    obtain ⟨hnext, hkernel⟩ := kernel_mono hs
    refine ⟨i, hinc, ?_⟩
    by_cases hc : tag.client = c
    · subst hc
      rw [Function.update_self]
      exact ⟨hbelow.trans_le hnext, mt (hkernel tag.fd i hbelow) hover⟩
    · rw [Function.update_of_ne hc]
      exact ⟨hbelow, hover⟩
  -- a message that moves on is no new close request
  have hreplace : ∀ {m : Message γ τ} {ms : List (Message γ τ)} {closed : List (Tag γ)},
      (∀ m' ∈ ms, m'.body.isClose = false) → (tag ∈ closed → tag ∈ s.closed ∨ s.CloseSent tag) →
        ¬ State.CloseSent { s with network := s.replace m ms, closed := closed } tag := by
    rintro m ms closed hms hclosed (hin | ⟨m', hm', hcl, htag⟩)
    · exact h.unsent ((hclosed hin).elim .inl id)
    · rcases hi.mem_replace.mp hm' with hnew | ⟨_, hold⟩
      · cases (hms m' hnew).symm.trans hcl
      · exact h.unsent (.inr ⟨m', hold, hcl, htag⟩)
  cases hs with
  | @client c e client' hquiet hstep =>
      have hs := Client.step_cases hstep
      refine ⟨h.owner, ?_, hclient hs⟩
      rintro (hin | ⟨m, hm, hcl, htag⟩)
      · exact h.unsent (.inl hin)
      · rcases List.mem_append.mp hm with hnew | hold
        · -- whoever sends a request has the incarnation that is open
          obtain ⟨t, a, run, fd, host', req, k, rfl, _, hrun, hcode, rfl, _⟩ := sent_cases hnew
          have hrunning := (hi.clients c).1.running t run hrun
          obtain ⟨hon, _⟩ := hrunning.allowed hcode rfl
          subst htag
          exact hover ((hrunning.current fd hon).symm.trans hinc)
        · exact h.unsent (.inr ⟨m, hold, hcl, htag⟩)
  | server _ _ => exact ⟨h.owner, h.unsent, h.ended⟩
  | receiveOpen _ _ _ =>
      exact ⟨h.owner, hreplace (by rintro _ hm'; rw [List.mem_singleton.mp hm']; rfl) .inl, h.ended⟩
  | receiveRead _ _ _ hms =>
      refine ⟨h.owner, hreplace (fun m' hm' => ?_) .inl, h.ended⟩
      rcases hms with rfl | ⟨ret, rfl⟩
      · cases hm'
      · rw [List.mem_singleton.mp hm']
        rfl
  | @receiveClose m env fd server' hm hbody _ =>
      have hne : m.tag ≠ tag := by
        rintro rfl
        exact h.unsent (.inr ⟨m, hm, by rw [hbody]; rfl, rfl⟩)
      refine ⟨?_, hreplace (by rintro _ ⟨⟩) fun hin => ?_, h.ended⟩
      · show Function.update s.owner m.host ((s.owner m.host).erase fd) host rfd = some tag
        by_cases hhost : host = m.host
        · subst hhost
          have hfd : rfd ≠ fd := by
            rintro rfl
            exact hne (Option.some.inj ((hi.closing m hm rfd hbody).1.symm.trans h.owner))
          rw [Function.update_self, Table.erase_of_ne _ hfd]
          exact h.owner
        · rw [Function.update_of_ne hhost]
          exact h.owner
      · rcases List.mem_cons.mp hin with rfl | hold
        · exact absurd rfl hne
        · exact .inl hold
  | openFailed _ _ _ =>
      exact ⟨h.owner, hreplace (by rintro _ hm'; rw [List.mem_singleton.mp hm']; rfl) .inl, h.ended⟩
  | @opened m path fd server' hm hbody hstep =>
      refine ⟨?_, hreplace (by rintro _ hm'; rw [List.mem_singleton.mp hm']; rfl) .inl, h.ended⟩
      show Function.update s.owner m.host ((s.owner m.host).set fd m.tag) host rfd = some tag
      by_cases hhost : host = m.host
      · subst hhost
        have hfd : rfd ≠ fd := by
          rintro rfl
          exact hi.owned m.host rfd tag h.owner (openCall_descs hstep).1
        rw [Function.update_self, Table.set_of_ne _ _ hfd]
        exact h.owner
      · rw [Function.update_of_ne hhost]
        exact h.owner
  | respond _ _ hstep =>
      exact ⟨h.owner, hreplace (by rintro _ ⟨⟩) .inl, hclient (Client.step_cases hstep)⟩

/-- A descriptor whose close request could not be sent stays open at the server, whatever
clients and servers do afterwards, until the server's process ends: one that aborted does
nothing any more, and keeps what it had in the model. -/
theorem forgotten_for_ever (h : (machine γ cfg).Reachable s) {tag : Tag γ} {host rfd : Int}
    (hforgotten : Forgotten s tag host rfd) (hes : (machine γ cfg).runFrom s es = some s') :
    (s'.servers host).descs rfd ≠ none ∧ Forgotten s' tag host rfd := by
  induction es generalizing s with
  | nil =>
      obtain rfl := Option.some.inj hes
      exact ⟨(inv_invariant.reachable h).owned host rfd tag hforgotten.owner, hforgotten⟩
  | cons e es ih =>
      obtain ⟨s₁, he, hes⟩ := Option.bind_eq_some_iff.mp hes
      exact ih (h.step he)
        (hforgotten.step (inv_invariant.reachable h) (step_cases he)) hes

theorem forgotten_for_ever_after_unsent_close :
    ∃ s, (machine Unit dataDirConfig).run (openAndClose false) = some s ∧
      ∀ es s', (machine Unit dataDirConfig).runFrom s es = some s' →
        (s'.servers 1).descs 7 ≠ none := by
  have hseen : ((machine Unit dataDirConfig).run (openAndClose false)).map
      (fun s => (s.owner 1 7, s.network, s.closed, (s.clients ()).world.nextIncarnation,
        ((s.clients ()).world.kernel 3).isNone)) =
        some (some ⟨(), 3, some 0⟩, [], [], 1, true) := by
    decide +kernel
  obtain ⟨s, hrun, hs⟩ := Option.map_eq_some_iff.mp hseen
  simp only [Prod.mk.injEq, Option.isNone_iff_eq_none] at hs
  obtain ⟨hown, hnetwork, hclosed, hnext, hkernel⟩ := hs
  have hforgotten : Forgotten s ⟨(), 3, some 0⟩ 1 7 := by
    refine ⟨hown, ?_, 0, rfl, by rw [hnext]; decide, by rw [hkernel]; rintro ⟨⟩⟩
    rintro (hin | ⟨m, hm, _⟩)
    · rw [hclosed] at hin
      cases hin
    · rw [hnetwork] at hm
      cases hm
  exact ⟨s, hrun, fun es s' hes =>
    (forgotten_for_ever (Machine.reachable_of_run hrun) hforgotten hes).1⟩

end Accounts

end MtHvac.System
