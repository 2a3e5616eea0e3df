-- SUMMARY: The address file: what the servers append, how a client scans it, and when a look-up finds exactly what was posted.
import Mathlib.Data.List.Nodup
import MtHvac.Base.Machine
import MtHvac.Base.Scan
import MtHvac.Base.Table

/-!
# The address file

Every server of a job appends a line with its rank and its address to one file, in
`hvac_comm_list_addr`. A client scans the file for the rank of a server and keeps the
address that it found, in `hvac_client_comm_lookup_addr`.
-/

namespace MtHvac.System.AddressFile

open Base Base.Scan

def pathMax : Nat := 4096

/-! ## Writing the file -/

/-- `fprintf(na_config, "%d %s\n", hvac_server_rank, self_addr_string)`. -/
def line (hvacServerRank : Int) (selfAddrString : Text) : Text :=
  printInt hvacServerRank ++ ' ' :: (selfAddrString ++ ['\n'])

/-- The file, if there is one, after `hvac_comm_list_addr`. A server that cannot open it
exits; one that can creates it, or appends to it. -/
def hvacCommListAddr (file : Option Text) (isOpen : Bool) (hvacServerRank : Int)
    (selfAddrString : Text) : Option Text :=
  if isOpen then some (file.getD [] ++ line hvacServerRank selfAddrString) else file

/-! ## Scanning the file -/

structure Scanned where
  svrRank : Int
  svrStr : Text
  rest : Text
deriving DecidableEq

/-- `fscanf(na_config, "%d %s\n", &svr_rank, svr_str)`; `none` unless it converts both. -/
def scanLine (naConfig : Text) : Option Scanned :=
  (scanInt naConfig).bind fun n =>
    (scanWord (skipSpace n.2)).map fun word => ⟨n.1, word.1, skipSpace word.2⟩

theorem scanLine_length {naConfig : Text} {l : Scanned} (h : scanLine naConfig = some l) :
    l.rest.length < naConfig.length := by
  obtain ⟨n, hn, h⟩ := Option.bind_eq_some_iff.mp h
  obtain ⟨word, hword, rfl⟩ := Option.map_eq_some_iff.mp h
  calc (skipSpace word.2).length
      ≤ word.2.length := skipSpace_length _
    _ ≤ (skipSpace n.2).length := scanWord_length hword
    _ ≤ n.2.length := skipSpace_length _
    _ < naConfig.length := scanInt_length hn

/-- The loop of `hvac_client_comm_lookup_addr`: the string of the first line with the
rank. `none` is undefined behaviour: a word that does not fit `svr_str`. -/
def findServer (rank : Int) (naConfig : Text) : Option (Option Text) :=
  match _h : scanLine naConfig with
  | none => some none
  | some l =>
      if pathMax ≤ l.svrStr.length then none
      else if l.svrRank = rank then some (some l.svrStr)
      else findServer rank l.rest
termination_by naConfig.length
decreasing_by exact scanLine_length _h

/-- The string that is resolved, if there is one, and `address_cache` afterwards. `none`
is undefined behaviour: without a file, or where `fopen` fails, `fscanf` gets no stream. -/
def hvacClientCommLookupAddr (file : Option Text) (isOpen : Bool) (addressCache : Table Int Text)
    (rank : Int) : Option (Option Text × Table Int Text) :=
  if (addressCache rank).isSome then some (addressCache rank, addressCache)
  else
    (if isOpen then file else none).bind fun naConfig =>
      (findServer rank naConfig).map fun found =>
        (found, found.elim addressCache (addressCache.set rank))

/-! ## Servers and a client -/

/-- A server with an address that `%s` can read back. -/
structure Server where
  rank : Int
  address : Text
  isInt : -2 ^ 31 ≤ rank ∧ rank < 2 ^ 31
  nonempty : address ≠ []
  noSpace : ∀ c ∈ address, isSpace c = false
  short : address.length < pathMax
deriving DecidableEq

structure Servers where
  list : List Server
  distinct : (list.map Server.rank).Nodup

/-- `posted` are the servers that have appended their lines. There is no `addressCache`
any more after undefined behaviour. -/
structure State where
  file : Option Text
  posted : List Server
  addressCache : Option (Table Int Text)

def State.init : State where
  file := none
  posted := []
  addressCache := some .empty

/-- `isOpen` tells whether `fopen` can open the file. The client closes none of the
streams that it opens, so in the end it cannot. -/
inductive Event where
  | listAddr (server : Server) (isOpen : Bool)
  | lookupAddr (rank : Int) (isOpen : Bool)
deriving DecidableEq

/-- Every server posts once, in any order. -/
def step (servers : Servers) (s : State) : Event → Option State
  | .listAddr server isOpen =>
      guarded (server ∈ servers.list ∧ server ∉ s.posted)
        { s with
          file := hvacCommListAddr s.file isOpen server.rank server.address
          posted := if isOpen then s.posted ++ [server] else s.posted }
  | .lookupAddr rank isOpen =>
      s.addressCache.map fun cache =>
        { s with
          addressCache := (hvacClientCommLookupAddr s.file isOpen cache rank).map Prod.snd }

def machine (servers : Servers) : Machine State Event where
  init := .init
  step := step servers

/-! ## The round trip -/

/-- A look-up: the servers that have posted and the cache before it, and its outcome. -/
structure Lookup where
  rank : Int
  posted : List Server
  cache : Table Int Text
  outcome : Option (Option Text × Table Int Text)

def Lookup.resolved (l : Lookup) : Option Text := l.outcome.bind Prod.fst

/-- The address of the server of the rank is resolved and cached; there is none, and
nothing is cached, exactly if no server of the rank has posted. -/
structure Lookup.Exact (l : Lookup) : Prop where
  found : ∀ server ∈ l.posted, server.rank = l.rank →
    l.outcome = some (some server.address, l.cache.set l.rank server.address)
  missing : l.outcome = some (none, l.cache) ↔ ∀ server ∈ l.posted, server.rank ≠ l.rank

/-- All look-ups are exact, and what was resolved once is resolved again. -/
structure RoundTrip (lookups : List Lookup) : Prop where
  exact : ∀ l ∈ lookups, l.Exact
  again : lookups.Pairwise fun l l' =>
    l'.rank = l.rank → ∀ address, l.resolved = some address → l'.resolved = some address

def record (s : State) (e : Event) (lookups : List Lookup) : List Lookup :=
  match e with
  | .listAddr _ _           => lookups
  | .lookupAddr rank isOpen =>
      lookups ++ (s.addressCache.map fun cache =>
        (⟨rank, s.posted, cache, hvacClientCommLookupAddr s.file isOpen cache rank⟩ :
          Lookup)).toList

theorem record_lookupAddr {s : State} {cache : Table Int Text} {rank : Int} {isOpen : Bool}
    {lookups : List Lookup} (hs : s.addressCache = some cache) :
    record s (.lookupAddr rank isOpen) lookups =
      lookups ++
        [⟨rank, s.posted, cache, hvacClientCommLookupAddr s.file isOpen cache rank⟩] := by
  simp [record, hs]

/-- The system with the look-ups that were made. -/
abbrev audited (servers : Servers) : Machine (State × List Lookup) Event :=
  (machine servers).observed record []

/-- The rank is cached, or there is a file and it can be opened. -/
def Event.FindsFile (s : State) : Event → Prop
  | .listAddr _ _           => True
  | .lookupAddr rank isOpen =>
      (s.addressCache.bind fun cache => cache rank).isSome ∨ (isOpen = true ∧ s.posted ≠ [])

/-! ## What is read back -/

/-- The lines of the servers, in the order in which they posted. -/
def lines (posted : List Server) : Text :=
  posted.flatMap fun server => line server.rank server.address

theorem lines_cons (server : Server) (posted : List Server) :
    lines (server :: posted) = line server.rank server.address ++ lines posted := rfl

/-- Between two lines there is one newline, so the next scan begins with a rank. -/
theorem skipSpace_lines (posted : List Server) : skipSpace (lines posted) = lines posted := by
  cases posted with
  | nil => rfl
  | cons server posted =>
      rw [lines_cons, line, List.append_assoc]
      exact skipSpace_printInt

/-- A line that was printed is scanned, up to the line behind it. -/
theorem scanLine_line (server : Server) (rest : Text) :
    scanLine (line server.rank server.address ++ rest) =
      some ⟨server.rank, server.address, skipSpace rest⟩ := by
  have hint : scanInt (line server.rank server.address ++ rest) =
      some (server.rank, ' ' :: (server.address ++ '\n' :: rest)) := by
    have hblank : NoDigit (' ' :: (server.address ++ '\n' :: rest)) := by
      rintro c ⟨⟩
      rfl
    simpa [line] using scanInt_printInt server.isInt.1 server.isInt.2 hblank
  have hskip : skipSpace (' ' :: (server.address ++ '\n' :: rest)) =
      skipSpace (server.address ++ '\n' :: rest) := rfl
  have hword : scanWord (skipSpace (server.address ++ '\n' :: rest)) =
      some (server.address, '\n' :: rest) := by
    obtain ⟨c, cs, haddress⟩ := List.exists_cons_of_ne_nil server.nonempty
    have hhead : isSpace c = false := server.noSpace c (by simp [haddress])
    have hkeep : skipSpace (server.address ++ '\n' :: rest) = server.address ++ '\n' :: rest := by
      rw [haddress]
      exact skipSpace_of_head hhead
    have hnewline : ∀ c ∈ ('\n' :: rest).head?, isSpace c = true := by
      rintro c ⟨⟩
      rfl
    rw [hkeep]
    exact scanWord_append server.nonempty server.noSpace hnewline
  rw [scanLine, hint, Option.bind_some, hskip, hword, Option.map_some]
  rfl

example : scanLine (line (-7) ['a', ':', '1'] ++ line 0 ['b']) =
    some ⟨-7, ['a', ':', '1'], ['0', ' ', 'b', '\n']⟩ := by
  decide

/-- The address of the first server of the rank. -/
def addressOf (posted : List Server) (rank : Int) : Option Text :=
  (posted.find? fun server => server.rank = rank).map Server.address

/-- The loop finds the first server of the rank, whatever was posted. -/
theorem findServer_lines (rank : Int) (posted : List Server) :
    findServer rank (lines posted) = some (addressOf posted rank) := by
  induction posted with
  | nil =>
      rw [findServer]
      rfl
  | cons server posted ih =>
      have hscan : scanLine (lines (server :: posted)) =
          some ⟨server.rank, server.address, lines posted⟩ := by
        rw [lines_cons, scanLine_line, skipSpace_lines]
      rw [findServer]
      split
      · next hnone => cases hnone.symm.trans hscan
      · next l hl =>
          obtain rfl := Option.some.inj (hl.symm.trans hscan)
          rw [if_neg (Nat.not_le.mpr server.short)]
          by_cases hrank : server.rank = rank
          · simp [addressOf, hrank]
          · rw [if_neg hrank, ih]
            simp [addressOf, hrank]

/-! ## What every run keeps -/

/-- A server with the rank and the address has posted. -/
def Posted (posted : List Server) (rank : Int) (address : Text) : Prop :=
  ∃ server ∈ posted, server.rank = rank ∧ server.address = address

theorem Posted.mono {posted posted' : List Server} {rank : Int} {address : Text}
    (h : Posted posted rank address) (hsub : posted ⊆ posted') : Posted posted' rank address := by
  obtain ⟨server, hmem, hserver⟩ := h
  exact ⟨server, hsub hmem, hserver⟩

/-- The file is what was posted, each rank is posted once, the cache has posted addresses
only, and nothing that an earlier look-up could see is gone. -/
structure Consistent (servers : Servers) (x : State × List Lookup) : Prop where
  file : x.1.file = if x.1.posted = [] then none else some (lines x.1.posted)
  posted : x.1.posted ⊆ servers.list
  distinct : (x.1.posted.map Server.rank).Nodup
  cached : ∀ cache rank address, x.1.addressCache = some cache → cache rank = some address →
    Posted x.1.posted rank address
  earlier : ∀ l ∈ x.2, l.posted ⊆ x.1.posted

section Consistent

variable {servers : Servers} {s : State} {lookups : List Lookup} {cache : Table Int Text}
  {rank : Int} {isOpen : Bool}

theorem Consistent.file_of_posted (h : Consistent servers (s, lookups)) (hne : s.posted ≠ []) :
    s.file = some (lines s.posted) := by
  rw [h.file, if_neg hne]

theorem Consistent.file_of_nil (h : Consistent servers (s, lookups)) (hnil : s.posted = []) :
    s.file = none := by
  rw [h.file, if_pos hnil]

/-- Two servers of one rank have one address. -/
theorem Consistent.unique (h : Consistent servers (s, lookups)) {server server' : Server}
    (hmem : server ∈ s.posted) (hmem' : server' ∈ s.posted) (hrank : server.rank = server'.rank) :
    server = server' :=
  List.inj_on_of_nodup_map h.distinct hmem hmem' hrank

/-- What the loop finds is what the server of the rank has posted. -/
theorem Consistent.addressOf_eq_some (h : Consistent servers (s, lookups)) {address : Text} :
    addressOf s.posted rank = some address ↔ Posted s.posted rank address := by
  rw [addressOf, Option.map_eq_some_iff]
  constructor
  · rintro ⟨server, hfind, haddress⟩
    have hrank : server.rank = rank := by simpa using List.find?_some hfind
    exact ⟨server, List.mem_of_find?_eq_some hfind, hrank, haddress⟩
  · rintro ⟨server, hmem, hrank, haddress⟩
    refine ⟨server, ?_, haddress⟩
    cases hfind : s.posted.find? fun server => server.rank = rank with
    | none => exact absurd (by simpa using hrank) (List.find?_eq_none.mp hfind server hmem)
    | some server' =>
        have hrank' : server'.rank = rank := by simpa using List.find?_some hfind
        rw [h.unique (List.mem_of_find?_eq_some hfind) hmem (hrank'.trans hrank.symm)]

theorem Consistent.addressOf_eq_none (h : Consistent servers (s, lookups)) :
    addressOf s.posted rank = none ↔ ∀ server ∈ s.posted, server.rank ≠ rank := by
  rw [Option.eq_none_iff_forall_not_mem]
  constructor
  · intro hnone server hmem hrank
    exact hnone server.address (h.addressOf_eq_some.mpr ⟨server, hmem, hrank, rfl⟩)
  · intro hmissing address haddress
    obtain ⟨server, hmem, hrank, _⟩ := h.addressOf_eq_some.mp haddress
    exact hmissing server hmem hrank

/-! ### The outcome of a look-up -/

/-- A look-up that finds the rank in the cache, or a file, resolves what was posted. -/
theorem Consistent.lookup_of_finds (h : Consistent servers (s, lookups))
    (hs : s.addressCache = some cache) (hfinds : (Event.lookupAddr rank isOpen).FindsFile s) :
    hvacClientCommLookupAddr s.file isOpen cache rank =
      some (addressOf s.posted rank, (addressOf s.posted rank).elim cache (cache.set rank)) := by
  rw [Event.FindsFile, hs, Option.bind_some] at hfinds
  cases hcache : cache rank with
  | some address =>
      have haddress : addressOf s.posted rank = some address :=
        h.addressOf_eq_some.mpr (h.cached cache rank address hs hcache)
      rw [haddress, Option.elim_some, Table.set_of_some hcache, hvacClientCommLookupAddr, hcache]
      rfl
  | none =>
      rw [hcache] at hfinds
      obtain hnone | ⟨rfl, hne⟩ := hfinds
      · cases hnone
      · rw [hvacClientCommLookupAddr, hcache, h.file_of_posted hne, if_pos rfl, Option.bind_some,
          findServer_lines]
        rfl

/-- Without a stream the behaviour is undefined. -/
theorem Consistent.lookup_of_not_finds (h : Consistent servers (s, lookups))
    (hs : s.addressCache = some cache) (hfinds : ¬ (Event.lookupAddr rank isOpen).FindsFile s) :
    hvacClientCommLookupAddr s.file isOpen cache rank = none := by
  rw [Event.FindsFile, hs, Option.bind_some, not_or] at hfinds
  have hcache : cache rank = none := Option.not_isSome_iff_eq_none.mp hfinds.1
  have hstream : (if isOpen then s.file else none) = none := by
    cases isOpen with
    | false => rfl
    | true =>
        have hnil : s.posted = [] := by
          by_contra hne
          exact hfinds.2 ⟨rfl, hne⟩
        exact h.file_of_nil hnil
  rw [hvacClientCommLookupAddr, hcache, hstream]
  rfl

/-- An outcome that is right for a server that has posted, and where there is none. -/
theorem Lookup.exact_of {l : Lookup}
    (hfound : ∀ server ∈ l.posted, server.rank = l.rank →
      l.outcome = some (some server.address, l.cache.set l.rank server.address))
    (hmissing : (∀ server ∈ l.posted, server.rank ≠ l.rank) → l.outcome = some (none, l.cache)) :
    l.Exact := by
  refine ⟨hfound, fun hnone server hmem hrank => ?_, hmissing⟩
  cases hnone.symm.trans (hfound server hmem hrank)

/-- Undefined behaviour is not exact. -/
theorem Lookup.Exact.outcome_ne_none {l : Lookup} (h : l.Exact) : l.outcome ≠ none := by
  intro hnone
  by_cases hmissing : ∀ server ∈ l.posted, server.rank ≠ l.rank
  · cases hnone.symm.trans (h.missing.mpr hmissing)
  · push Not at hmissing
    obtain ⟨server, hmem, hrank⟩ := hmissing
    cases hnone.symm.trans (h.found server hmem hrank)

/-- A look-up is exact exactly if it finds the rank in the cache, or a file. -/
theorem Consistent.exact_iff (h : Consistent servers (s, lookups))
    (hs : s.addressCache = some cache) :
    (⟨rank, s.posted, cache, hvacClientCommLookupAddr s.file isOpen cache rank⟩ : Lookup).Exact ↔
      (Event.lookupAddr rank isOpen).FindsFile s := by
  by_cases hfinds : (Event.lookupAddr rank isOpen).FindsFile s
  · have houtcome := h.lookup_of_finds hs hfinds
    refine iff_of_true (Lookup.exact_of ?_ ?_) hfinds
    · intro server hmem hrank
      rw [h.addressOf_eq_some.mpr ⟨server, hmem, hrank, rfl⟩] at houtcome
      exact houtcome
    · intro hmissing
      rw [h.addressOf_eq_none.mpr hmissing] at houtcome
      exact houtcome
  · exact iff_of_false (fun hexact => hexact.outcome_ne_none (h.lookup_of_not_finds hs hfinds))
      hfinds

/-! ### The steps -/

/-- A server that has posted leaves its line behind those of the others. -/
theorem Consistent.listAddr (h : Consistent servers (s, lookups)) {server : Server}
    (hmem : server ∈ servers.list) (hnew : server ∉ s.posted) :
    Consistent servers
      ({ s with
          file := hvacCommListAddr s.file true server.rank server.address
          posted := s.posted ++ [server] }, lookups) := by
  have hsub : s.posted ⊆ s.posted ++ [server] := List.subset_append_left _ _
  have hlines : s.file.getD [] = lines s.posted := by
    by_cases hnil : s.posted = []
    · rw [h.file_of_nil hnil, hnil]
      rfl
    · rw [h.file_of_posted hnil]
      rfl
  have hrank : server.rank ∉ s.posted.map Server.rank := by
    intro hposted
    obtain ⟨server', hmem', hrank⟩ := List.mem_map.mp hposted
    obtain rfl := List.inj_on_of_nodup_map servers.distinct (h.posted hmem') hmem hrank
    exact hnew hmem'
  constructor
  · change some (s.file.getD [] ++ line server.rank server.address) = _
    rw [hlines, if_neg (by simp)]
    simp [lines]
  · exact List.append_subset.mpr ⟨h.posted, by simpa using hmem⟩
  · rw [List.map_append, List.map_singleton]
    exact h.distinct.append (List.nodup_singleton _) (by simpa using hrank)
  · intro cache rank address hs hcache
    exact (h.cached cache rank address hs hcache).mono hsub
  · intro l hl
    exact List.Subset.trans (h.earlier l hl) hsub

/-- A look-up enters a posted address into the cache, or nothing. -/
theorem Consistent.lookupAddr (h : Consistent servers (s, lookups))
    (hs : s.addressCache = some cache) :
    Consistent servers
      ({ s with
          addressCache := (hvacClientCommLookupAddr s.file isOpen cache rank).map Prod.snd },
        lookups ++
          [⟨rank, s.posted, cache, hvacClientCommLookupAddr s.file isOpen cache rank⟩]) := by
  refine ⟨h.file, h.posted, h.distinct, ?_, ?_⟩
  · intro cache' rank' address hs' hcache'
    obtain ⟨⟨found, _⟩, houtcome, rfl⟩ := Option.map_eq_some_iff.mp hs'
    by_cases hfinds : (Event.lookupAddr rank isOpen).FindsFile s
    · cases (h.lookup_of_finds hs hfinds).symm.trans houtcome
      cases hfound : addressOf s.posted rank with
      | none =>
          rw [hfound] at hcache'
          exact h.cached cache rank' address hs hcache'
      | some a =>
          rw [hfound] at hcache'
          by_cases hr : rank' = rank
          · subst hr
            obtain rfl : a = address := by simpa using hcache'
            exact h.addressOf_eq_some.mp hfound
          · exact h.cached cache rank' address hs (by simpa [hr] using hcache')
    · cases (h.lookup_of_not_finds hs hfinds).symm.trans houtcome
  · intro l hl
    obtain hl | hl := List.mem_append.mp hl
    · exact h.earlier l hl
    · obtain rfl := List.mem_singleton.mp hl
      exact List.Subset.refl _

end Consistent

theorem consistent_invariant (servers : Servers) :
    (audited servers).Invariant (Consistent servers) := by
  constructor
  · refine ⟨rfl, List.nil_subset _, List.nodup_nil, ?_, ?_⟩
    · rintro cache rank address ⟨⟩ ⟨⟩
    · rintro l ⟨⟩
  · rintro ⟨s, lookups⟩ ⟨s', lookups'⟩ e _ h he
    obtain ⟨hstep, rfl⟩ := Machine.observed_step.mp he
    cases e with
    | listAddr server isOpen =>
        obtain ⟨⟨hmem, hnew⟩, rfl⟩ := guarded_eq_some.mp hstep
        cases isOpen with
        | false => exact h
        | true => exact h.listAddr hmem hnew
    | lookupAddr rank isOpen =>
        obtain ⟨cache, hs, rfl⟩ := Option.map_eq_some_iff.mp hstep
        rw [record_lookupAddr hs]
        exact h.lookupAddr hs

/-! ## When the file round-trips -/

/-- An exact look-up resolves the addresses that were posted for its rank. -/
theorem Lookup.Exact.resolved_eq_some {l : Lookup} (h : l.Exact) {address : Text} :
    l.resolved = some address ↔ Posted l.posted l.rank address := by
  constructor
  · intro hresolved
    by_cases hmissing : ∀ server ∈ l.posted, server.rank ≠ l.rank
    · rw [Lookup.resolved, h.missing.mpr hmissing] at hresolved
      cases hresolved
    · push Not at hmissing
      obtain ⟨server, hmem, hrank⟩ := hmissing
      rw [Lookup.resolved, h.found server hmem hrank] at hresolved
      exact ⟨server, hmem, hrank, Option.some.inj hresolved⟩
  · rintro ⟨server, hmem, hrank, rfl⟩
    rw [Lookup.resolved, h.found server hmem hrank]
    rfl

/-- One more look-up keeps the round trip exactly if it is exact itself. -/
theorem RoundTrip.append_iff {lookups : List Lookup} {l : Lookup} (h : RoundTrip lookups)
    (hearlier : ∀ l' ∈ lookups, l'.posted ⊆ l.posted) : RoundTrip (lookups ++ [l]) ↔ l.Exact := by
  constructor
  · intro h'
    exact h'.exact l (by simp)
  · intro hl
    refine ⟨?_, List.pairwise_append.mpr ⟨h.again, List.pairwise_singleton _ _, ?_⟩⟩
    · intro l' hmem
      obtain hmem | hmem := List.mem_append.mp hmem
      · exact h.exact l' hmem
      · obtain rfl := List.mem_singleton.mp hmem
        exact hl
    · intro l' hmem l'' hmem'' hrank address hresolved
      obtain rfl := List.mem_singleton.mp hmem''
      have hposted : Posted l'.posted l'.rank address :=
        (h.exact l' hmem).resolved_eq_some.mp hresolved
      exact hl.resolved_eq_some.mpr (hrank ▸ hposted.mono (hearlier l' hmem))

/-- A run of servers that post and of a client that looks up ranks is a round trip
throughout exactly if every look-up finds its rank in the cache, or a file. -/
theorem round_trip_iff {servers : Servers} {es : List Event} :
    (∀ x, (audited servers).Visits es x → RoundTrip x.2) ↔
      ∀ x e, (audited servers).Takes es x e → e.FindsFile x.1 := by
  have hinit : RoundTrip (audited servers).init.2 := ⟨by rintro l ⟨⟩, .nil⟩
  refine Machine.always_iff (M := audited servers) (P := fun x => RoundTrip x.2)
    (C := fun x e => e.FindsFile x.1) hinit ?_
  rintro ⟨s, lookups⟩ ⟨s', lookups'⟩ e hr htrip he
  have h : Consistent servers (s, lookups) := (consistent_invariant servers).reachable hr
  obtain ⟨hstep, rfl⟩ := Machine.observed_step.mp he
  cases e with
  | listAddr server isOpen => exact iff_of_true htrip trivial
  | lookupAddr rank isOpen =>
      obtain ⟨cache, hs, _⟩ := Option.map_eq_some_iff.mp hstep
      change RoundTrip (record s (.lookupAddr rank isOpen) lookups) ↔ _
      rw [record_lookupAddr hs]
      exact (htrip.append_iff h.earlier).trans (h.exact_iff hs)

/-- No server has posted, so there is no file and the client scans a null stream. -/
theorem null_stream :
    ¬ ∀ (servers : Servers) (es : List Event) (x : State × List Lookup),
      (audited servers).Visits es x → RoundTrip x.2 := by
  intro h
  have htrip := h ⟨[], List.nodup_nil⟩ [.lookupAddr 0 true]
    (⟨none, [], none⟩, [⟨0, [], .empty, none⟩]) ⟨_, List.prefix_refl _, rfl⟩
  exact (htrip.exact _ (List.mem_singleton_self _)).outcome_ne_none rfl

end MtHvac.System.AddressFile
