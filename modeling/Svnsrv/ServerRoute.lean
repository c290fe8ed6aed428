import Svnsrv.RouterTable
import Svnsrv.ServerRuns
import Svnsrv.UriParts

/-!
# Which backend a client gets

From the router document to the connections that the sessions of a server make:
the owner in the URL decides, by the table of the document.
-/

namespace Svnsrv.Server

open CText Hds Proxy Router Uri Split RangeTable Transition
set_option autoImplicit false

/-- The owner in a URL, its fourth part. -/
def ownerOf (url : Bytes) : Bytes := (cut slash 5 url).getD 3 []

theorem owner_of_canonical {url : Bytes} {svnurl : SubversionURL}
    (h : subversionUriCanonicalize url (.fresh 0) = (0, svnurl)) :
    svnurl.owner = ownerOf url := by
  have hne : url ≠ [] := by
    intro hnil
    subst hnil
    cases h
  rw [canonicalize_eq 0 hne] at h
  split at h
  · obtain rfl := (Prod.mk.inj h).2
    exact piece_whole url 3
  · exact absurd (Prod.mk.inj h).1 (by decide)

/-- A session has parsed a handshake and asked the router about its URL. -/
structure Asked (router : RouterSeletor) (trace : List Proxy.Act) (url : Bytes)
    (node : StorageElement) : Prop where
  parsed : ∃ m hds, .parsed m 0 hds ∈ trace ∧ hds.subversionURL = url
  answered : ∃ old, router.getAddress (ownerOf url) old = (true, node)

/-- Every backend that is connected to is one that the router has given. -/
def Directed (router : RouterSeletor) (trace : List Proxy.Act) : Prop :=
  ∀ address port, .startConnect address port ∈ trace →
    ∃ url, Asked router trace url ⟨port, address⟩

section

variable {router : RouterSeletor} {trace acts : List Proxy.Act}

theorem Asked.append {url : Bytes} {node : StorageElement}
    (h : Asked router trace url node) (acts : List Proxy.Act) :
    Asked router (trace ++ acts) url node := by
  obtain ⟨⟨m, hds, hmem, hurl⟩, hanswer⟩ := h
  exact ⟨⟨m, hds, List.mem_append_left acts hmem, hurl⟩, hanswer⟩

theorem Directed.append (h : Directed router trace)
    (hacts : ∀ address port, .startConnect address port ∈ acts →
      ∃ url, Asked router (trace ++ acts) url ⟨port, address⟩) :
    Directed router (trace ++ acts) := by
  intro address port hmem
  cases List.mem_append.mp hmem with
  | inl hold =>
    obtain ⟨url, hasked⟩ := h address port hold
    exact ⟨url, hasked.append acts⟩
  | inr hnew => exact hacts address port hnew

theorem Directed.move {env : Env} {p q : Phase} {s t : SubversionSession} {e : Proxy.Event}
    (h : Directed env.router trace) (hmove : Move env p s e q t acts) :
    Directed env.router (trace ++ acts) := by
  apply h.append
  intro address port hmem
  cases hmove with
  | @routed _ moved c now hds node record hauth =>
    obtain ⟨svnurl, hcanonical, hget⟩ := hauth.canonical
    simp only [List.mem_cons, reduceCtorEq, Act.startConnect.injEq, List.not_mem_nil, or_false,
      false_or] at hmem
    obtain ⟨rfl, rfl⟩ := hmem
    refine ⟨hds.subversionURL, ⟨(s.handshake env moved.length).bytes, hds, by simp, rfl⟩, s.node, ?_⟩
    rw [← owner_of_canonical hcanonical, hget]
  | _ => simp [SubversionSession.refusal] at hmem

end

theorem directed_of_reachable {g : Shared} {s : State} (h : Reachable g s) :
    ∀ c ∈ s.sessions, Directed g.router c.state.trace := by
  intro c hc
  obtain ⟨p, session, trace, hstate, hdirected⟩ := reachable_phase
    (I := fun _ _ trace => Directed g.router trace) (reachable_session h c hc)
    (fun c _ address port hmem => by
      simp [SubversionSession.start, SubversionSession.asyncWriteSome] at hmem)
    fun hI hmove => hI.move hmove
  rw [hstate]
  exact hdirected

/-! ## By the document -/

/-- Whatever the clients do and in whatever order the sessions step, every connection to a backend is
the one that the document has for the owner in the URL the client has sent. -/
theorem backend_by_document {doc : Toml.Table} {host : Host} {entries : List Entry}
    (hdoc : Describes doc host entries) (hne : entries ≠ []) {router : RouterSeletor}
    (hload : RouterSeletor.empty.initializeManager (some doc) = .ok (true, router))
    (fromString : Bytes → Bool) {s : State} (hs : Reachable ⟨router, fromString⟩ s) :
    ∀ c ∈ s.sessions, ∀ address port, .startConnect address port ∈ c.state.trace →
      ∃ m hds a b rest, .parsed m 0 hds ∈ c.state.trace ∧
        ownerOf hds.subversionURL = a :: b :: rest ∧
        (a < 128 → b < 128 →
          (⟨port, address⟩ : StorageElement) =
            select host.target (toLex (a, b)) (entries.map Entry.rule)) := by
  intro c hc address port hmem
  obtain ⟨url, ⟨m, hds, hparsed, rfl⟩, old, hget⟩ := directed_of_reachable hs c hc address port hmem
  rw [initializeManager_eq hdoc hne] at hload
  obtain rfl := (Prod.mk.inj (Except.ok.inj hload)).2
  match howner : ownerOf hds.subversionURL with
  | [] =>
    rw [howner] at hget
    cases hget
  | [_] =>
    rw [howner] at hget
    cases hget
  | a :: b :: rest =>
    refine ⟨m, hds, a, b, rest, hparsed, howner, ?_⟩
    intro ha hb
    rw [howner, getAddress_eq_select, List.map_map] at hget
    rw [← (Prod.mk.inj hget).2]
    exact select_map_congr _ fun e _ => ⟨element_covers e ha hb, rfl⟩

def readmeShared : Shared where
  router := ⟨readmeEntries.map Entry.element, ascii "192.168.1.12", 3690⟩
  fromString _ := true

/-- Two clients ask for repositories of the owner Ca. -/
def readmeEvents : List Event :=
  let asks (i : Nat) : List Event :=
    [.session i (done 0), .session i (.fill 0 (ascii "( 2 ( a ) 10:svn://h/Ca ( ) ) ")),
      .session i (done 0)]
  [.accepted 0 0 sampleConnection, .accepted 0 0 sampleConnection] ++ asks 1 ++ asks 0

set_option maxRecDepth 10000 in
theorem readme_connects : ∃ t, Reachable readmeShared t ∧ t.sessions.length = 2 ∧
    ∀ c ∈ t.sessions, .startConnect (ascii "192.168.1.13") 3691 ∈ c.state.trace :=
  have hconnects : (exec (step readmeShared) (.listening sampleConnection Klog.sampleLogs)
      readmeEvents).any
      fun t => decide (t.sessions.length = 2 ∧
        ∀ c ∈ t.sessions, .startConnect (ascii "192.168.1.13") 3691 ∈ c.state.trace) := by
    decide +kernel
  exists_reachable_of_exec ⟨sampleConnection, Klog.sampleLogs, rfl⟩ hconnects

theorem backend_by_readme : ∃ t, Reachable readmeShared t ∧ t.sessions.length = 2 ∧
    ∀ c ∈ t.sessions, ∃ m hds a b rest, .parsed m 0 hds ∈ c.state.trace ∧
      ownerOf hds.subversionURL = a :: b :: rest ∧
      (a < 128 → b < 128 → (⟨3691, ascii "192.168.1.13"⟩ : StorageElement) =
        select ⟨3690, ascii "192.168.1.12"⟩ (toLex (a, b)) (readmeEntries.map Entry.rule)) := by
  obtain ⟨t, ht, htwo, hconnect⟩ := readme_connects
  refine ⟨t, ht, htwo, ?_⟩
  intro c hc
  have hne : readmeEntries ≠ [] := by simp [readmeEntries]
  exact backend_by_document readmeDocument_describes hne
    (initializeManager_eq readmeDocument_describes hne) readmeShared.fromString ht c hc _ _
    (hconnect c hc)

/-- The router looks at two bytes only. -/
theorem getAddress_of_take {router : RouterSeletor} {owner owner' : Bytes}
    {old node : StorageElement} (hsame : owner.take 2 = owner'.take 2)
    (h : router.getAddress owner old = (true, node)) (old' : StorageElement) :
    router.getAddress owner' old' = (true, node) := by
  match owner, owner', hsame with
  | [], _, _ => cases h
  | [_], _, _ => cases h
  | a :: b :: rest, a' :: b' :: rest', hsame =>
    simp only [List.take_succ_cons, List.take_zero, List.cons.injEq, and_true] at hsame
    rw [← hsame.1, ← hsame.2]
    exact h

/-- Two sessions of one server whose URLs have owners with the same two first bytes get the same
backend. -/
theorem owner_decides_backend {g : Shared} {s : State} (hs : Reachable g s) :
    ∀ c ∈ s.sessions, ∀ d ∈ s.sessions, ∀ address port address' port',
      .startConnect address port ∈ c.state.trace → .startConnect address' port' ∈ d.state.trace →
      ∃ m hds m' hds', .parsed m 0 hds ∈ c.state.trace ∧ .parsed m' 0 hds' ∈ d.state.trace ∧
        ((ownerOf hds.subversionURL).take 2 = (ownerOf hds'.subversionURL).take 2 →
          address = address' ∧ port = port') := by
  intro c hc d hd address port address' port' hmem hmem'
  obtain ⟨url, ⟨m, hds, hparsed, rfl⟩, old, hget⟩ := directed_of_reachable hs c hc address port hmem
  obtain ⟨url', ⟨m', hds', hparsed', rfl⟩, old', hget'⟩ :=
    directed_of_reachable hs d hd address' port' hmem'
  refine ⟨m, hds, m', hds', hparsed, hparsed', ?_⟩
  intro hsame
  rw [getAddress_of_take hsame hget old'] at hget'
  obtain ⟨hport, haddress⟩ := StorageElement.mk.inj (Prod.mk.inj hget').2
  exact ⟨haddress, hport⟩

theorem owner_decides_sample : ∃ t, Reachable readmeShared t ∧ t.sessions.length = 2 ∧
    ∀ c ∈ t.sessions, ∀ d ∈ t.sessions,
      ∃ m hds m' hds', .parsed m 0 hds ∈ c.state.trace ∧ .parsed m' 0 hds' ∈ d.state.trace ∧
        ((ownerOf hds.subversionURL).take 2 = (ownerOf hds'.subversionURL).take 2 →
          ascii "192.168.1.13" = ascii "192.168.1.13" ∧ (3691 : UInt16) = 3691) := by
  obtain ⟨t, ht, htwo, hconnect⟩ := readme_connects
  refine ⟨t, ht, htwo, ?_⟩
  intro c hc d hd
  exact owner_decides_backend ht c hc d hd _ _ _ _ (hconnect c hc) (hconnect d hd)

end Svnsrv.Server
