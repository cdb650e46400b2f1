/-
The catalogue in the Windows client: the routes `Controller.Connect` hands to the backend, and how `Controller.SyncCatalog` replaces
the stored catalogue (`internal/windowsclient/controller.go`, `internal/clientcore/platform.go`,
`internal/tunstack/client_routes.go`, `internal/cluster/catalog.go`).

- `prepare_lookup`: what a call of the store does to the catalogue of a cluster.
- `connect_accepted_iff`: exactly when the backend accepts the routes of the selected profile.
- `admin_route_refused`: one published administrator route, and the client cannot connect any more.
- `no_rollback`: under `Undisturbed` the stored revision of a cluster never falls.
- `late_catalog_rolls_back`: a catalogue verified before a newer one was stored replaces it.
`encoding/json` on route lists is a parameter (`Json`). Envelopes carry valid signatures, the claim of the master's key is left out.
-/
import NeProto.Lib.Machine
import NeProto.Lib.Pool
import NeProto.Cluster.Routes
import NeProto.Windowsclient.Store

namespace NeProto.Windowsclient

open List

open Cluster (Route validateRoute effectiveRoutes maxRoutes State UserAccess validateState)

variable {Addr Raw : Type} {H : Host Addr} {st next : StoreState} {c : Call} {cluster : Str}

/-! ## What a call does to a catalogue -/

theorem editable_lookup {id : Str} {catalog : ClientCatalogState} (h : editable st id = .ok (cluster, catalog)) :
    st.catalogs.lookup cluster = some catalog := by
  unfold editable at h
  split at h
  · cases h
  split at h
  · cases h
  · split_ifs at h
    cases h
    assumption

/-- **Calls and catalogues.** The catalogue of a cluster is kept, replaced by an applied one, or has its local routes edited. -/
theorem prepare_lookup (hp : prepare H st c = .ok next) (cluster : Str) :
    next.catalogs.lookup cluster = st.catalogs.lookup cluster ∨
      (∃ id catalog now, c = .applyCatalog id catalog now ∧ cluster = catalog.clusterID ∧
        next.catalogs.lookup cluster = some ⟨catalog.clusterID, catalog.revision, now, catalog.adminRoutes,
          ((st.catalogs.lookup cluster).map fun c => c.localRoutes).getD [], catalog.permissions⟩) ∨
      ∃ old routes, st.catalogs.lookup cluster = some old ∧ next.catalogs.lookup cluster = some { old with localRoutes := routes } ∧
        ((∃ route, validateRoute H.platform (clientRoute route) = true ∧ routes = upsert old.localRoutes (clientRoute route)) ∨
          ∃ id, routes = old.localRoutes.eraseP fun r => r.id == id) := by
  have hedit : ∀ {id at' : Str} {catalog : ClientCatalogState} (routes : List Route), editable st id = .ok (at', catalog) →
      (setRoutes st at' catalog routes).catalogs.lookup cluster = st.catalogs.lookup cluster ∨
        st.catalogs.lookup cluster = some catalog ∧
          (setRoutes st at' catalog routes).catalogs.lookup cluster = some { catalog with localRoutes := routes } := by
    intro id at' catalog routes he
    by_cases hc : cluster = at'
    · subst hc
      exact .inr ⟨editable_lookup he, AList.lookup_insert _⟩
    · exact .inl (AList.lookup_insert_ne hc)
  cases c with
  | importProfile | select | remove =>
    left
    simp only [prepare] at hp
    repeat' split at hp
    all_goals cases hp
    all_goals rfl
  | applyCatalog id catalog now =>
    simp only [prepare] at hp
    split at hp
    · cases hp
    split at hp
    · cases hp
    cases hp
    by_cases hc : cluster = catalog.clusterID
    · subst hc
      exact .inr (.inl ⟨id, catalog, now, rfl, rfl, AList.lookup_insert _⟩)
    · exact .inl (AList.lookup_insert_ne hc)
  | upsertLocalRoute id route =>
    simp only [prepare] at hp
    split at hp
    · cases hp
    rename_i at' catalog he
    split at hp
    · rename_i hv
      cases hp
      exact (hedit _ he).imp_right fun hx => .inr ⟨catalog, _, hx.1, hx.2, .inl ⟨route, hv, rfl⟩⟩
    · cases hp
  | removeLocalRoute id routeID =>
    simp only [prepare] at hp
    split at hp
    · cases hp
    rename_i at' catalog he
    split at hp
    · cases hp
      exact (hedit _ he).imp_right fun hx => .inr ⟨catalog, _, hx.1, hx.2, .inr ⟨routeID, rfl⟩⟩
    · cases hp

/-- a call writes what it prepared, or leaves the catalogues as they were, or loses them all -/
theorem call_cases (H : Host Addr) (st : StoreState) (saved : Bool) (c : Call) :
    prepare H st c = .ok (call H st saved c).2 ∨ (call H st saved c).2 = st ∨
      (call H st saved c).2.catalogs = ∅ ∧ saved = false ∧ snapshots H st c = true := by
  cases hs : snapshots H st c with
  | true =>
    obtain ⟨⟨next, hp⟩, hr⟩ := prepare_of_snapshots hs
    cases saved <;> simp [call, hp, hr]
  | false =>
    cases hp : prepare H st c with
    | error err => simp [call, hp]
    | ok next => cases saved <;> simp [call, hp, rollback_of_not_snapshots hp hs]

/-! ## Local routes -/

/-- a route the client's own policy may hold -/
def Local (P : Platform Addr) (r : Route) : Prop := validateRoute P r = true ∧ r.source = .client ∧ r.mandatory = false

/-- what every edit keeps of the local routes -/
structure Locals (P : Platform Addr) (routes : List Route) : Prop where
  own : ∀ r ∈ routes, Local P r
  distinct : (routes.map fun r => r.id).Nodup

theorem Locals.upsert {P : Platform Addr} {routes : List Route} (h : Locals P routes) {route : Route} (hr : Local P route) :
    Locals P (upsert routes route) := by
  unfold Windowsclient.upsert
  split
  · rename_i i hi
    obtain ⟨hlt, hid, -⟩ := findIdx?_eq_some_iff_getElem.1 hi
    refine ⟨fun r hmem => ?_, ?_⟩
    · rcases mem_or_eq_of_mem_set hmem with hold | rfl
      · exact h.own r hold
      · exact hr
    · have hsame : ((routes.set i route).map fun r => r.id) = routes.map fun r => r.id := by
        rw [map_set, ← beq_iff_eq.1 hid, ← getElem_map (fun r : Route => r.id) (h := by simpa using hlt)]
        exact set_getElem_self _
      rw [hsame]
      exact h.distinct
  · rename_i hnew
    refine ⟨fun r hmem => ?_, ?_⟩
    · rcases mem_append.1 hmem with hold | hmem
      · exact h.own r hold
      · exact mem_singleton.1 hmem ▸ hr
    · rw [map_append, nodup_append]
      refine ⟨h.distinct, nodup_singleton _, fun a ha b hb hab => ?_⟩
      obtain ⟨r, hmem, rfl⟩ := mem_map.1 ha
      simp_all

theorem Locals.erase {P : Platform Addr} {routes : List Route} (h : Locals P routes) (q : Route → Bool) : Locals P (routes.eraseP q) :=
  ⟨fun r hr => h.own r (mem_of_mem_eraseP hr), h.distinct.sublist (eraseP_sublist.map _)⟩

/-- the local routes of every stored catalogue -/
def StoreState.Sound (P : Platform Addr) (st : StoreState) : Prop :=
  ∀ cluster catalog, st.catalogs.lookup cluster = some catalog → Locals P catalog.localRoutes

theorem call_sound (h : st.Sound H.platform) (saved : Bool) (c : Call) : (call H st saved c).2.Sound H.platform := by
  intro cluster catalog hl
  rcases call_cases H st saved c with hp | hkept | ⟨hlost, -⟩
  · rcases prepare_lookup hp cluster with hsame | ⟨_, _, _, _, _, hnew⟩ | ⟨old, routes, hold, hnew, hroutes⟩
    · exact h cluster catalog (hsame ▸ hl)
    · obtain rfl := Option.some.inj (hnew.symm.trans hl)
      cases ho : st.catalogs.lookup cluster with
      | none => exact ⟨by simp, by simp⟩
      | some old => exact h cluster old ho
    · obtain rfl := Option.some.inj (hnew.symm.trans hl)
      rcases hroutes with ⟨route, hv, rfl⟩ | ⟨id, rfl⟩
      · exact (h cluster old hold).upsert ⟨hv, rfl, rfl⟩
      · exact (h cluster old hold).erase _
  · exact h cluster catalog (hkept ▸ hl)
  · rw [hlost] at hl
    cases hl

theorem run_sound (H : Host Addr) (calls : List (Call × Bool)) : (run H calls).Sound H.platform :=
  Machine.run_inv (I := StoreState.Sound H.platform) (fun _ x h => call_sound h x.2 x.1) (fun _ _ h => by cases h) calls

/-! ## Connecting -/

def maxCatalogPayload : ℕ := 256 * 1024

/-- `json.Marshal` and the strict decoder on route lists -/
structure Json (Raw : Type) where
  encode : List Route → Raw
  decode : Raw → Option (List Route)
  length : Raw → ℕ
  decode_encode : ∀ routes, decode (encode routes) = some routes
  length_pos : ∀ routes, 0 < length (encode routes)
  nil_fits : length (encode []) ≤ maxCatalogPayload

/-- one round of the loop of `NewClientRoutePolicy`; `seen` are the IDs so far -/
def checkClientRoute (P : Platform Addr) (seen : List Str) (route : Route) : Option (List Str) :=
  if !validateRoute P route || route.source != .client || route.mandatory then none
  else if route.id ∈ seen then none
  else some (route.id :: seen)

def newClientRoutePolicy (P : Platform Addr) (routes : List Route) : Option (List Route) :=
  if routes.length > maxRoutes then none
  else (routes.foldlM (checkClientRoute P) []).map fun _ => effectiveRoutes [] routes true

def parseClientRoutes (P : Platform Addr) (J : Json Raw) (raw : Raw) : Option (List Route) :=
  if J.length raw = 0 ∨ J.length raw > maxCatalogPayload then none
  else (J.decode raw).bind (newClientRoutePolicy P)

structure Backend (Raw : Type) where
  connecting : Bool
  /-- there is a core -/
  core : Bool
  routePolicy : Raw

def Backend.setRoutes (P : Platform Addr) (J : Json Raw) (b : Backend Raw) (raw : Raw) : Option (Backend Raw) :=
  if (parseClientRoutes P J raw).isNone then none
  else if b.connecting || b.core then none
  else some { b with routePolicy := raw }

/-- `Store.Catalog` -/
def catalogOf (st : StoreState) (id : Str) : Option ClientCatalogState :=
  (profileLocked st id).bind fun p => if p.profile.clusterID = [] then none else st.catalogs.lookup p.profile.clusterID

/-- `Store.EffectiveRoutes` -/
def routesOf (st : StoreState) (id : Str) : List Route :=
  ((catalogOf st id).map fun c => effectiveRoutes c.adminRoutes c.localRoutes c.permissions.allowClientRoutes).getD []

/-- the routes of a catalogue that the client's own policy can hold -/
structure Fits (J : Json Raw) (c : ClientCatalogState) : Prop where
  noAdmin : ∀ r ∈ c.adminRoutes, r.enabled = true → r.source ≠ .admin
  count : c.permissions.allowClientRoutes = true → (c.localRoutes.filter fun r => r.enabled).length ≤ maxRoutes
  size : J.length (J.encode (effectiveRoutes [] c.localRoutes c.permissions.allowClientRoutes)) ≤ maxCatalogPayload

theorem checkClientRoutes_isSome {P : Platform Addr} (routes : List Route) (seen : List Str) :
    (routes.foldlM (checkClientRoute P) seen).isSome ↔
      (∀ r ∈ routes, Local P r) ∧ (routes.map fun r => r.id).Nodup ∧ ∀ r ∈ routes, r.id ∉ seen := by
  induction routes generalizing seen with
  | nil => simp
  | cons r routes ih =>
    rw [foldlM_cons, checkClientRoute]
    split_ifs with hbad hseen
    · refine iff_of_false (by simp) fun h => ?_
      obtain ⟨hv, hs, hm⟩ := h.1 r mem_cons_self
      simp [hv, hs, hm] at hbad
    · exact iff_of_false (by simp) fun h => h.2.2 r mem_cons_self hseen
    · have hr : Local P r := by simpa [Local, and_assoc] using hbad
      rw [Option.bind_eq_bind, Option.bind_some, ih, forall_mem_cons, forall_mem_cons, map_cons, nodup_cons]
      simp only [hr, hseen, true_and, mem_cons, not_or, mem_map, not_exists, not_and, not_false_eq_true, forall_and]
      tauto

/-- without administrator routes the effective routes are the enabled local ones -/
theorem effectiveRoutes_locals {P : Platform Addr} {routes : List Route} (h : Locals P routes) (allow : Bool) :
    (effectiveRoutes [] routes allow).Perm (if allow then routes.filter fun r => r.enabled else []) := by
  have hown : (routes.filter fun r => r.enabled && r.source == .client && !r.mandatory) = routes.filter fun r => r.enabled :=
    filter_congr fun r hr => by simp [(h.own r hr).2.1, (h.own r hr).2.2]
  unfold effectiveRoutes
  rw [filter_nil, hown]
  exact perm_insertionSort _ _

theorem newClientRoutePolicy_isSome (P : Platform Addr) (routes : List Route) :
    (newClientRoutePolicy P routes).isSome ↔
      routes.length ≤ maxRoutes ∧ (∀ r ∈ routes, Local P r) ∧ (routes.map fun r => r.id).Nodup := by
  unfold newClientRoutePolicy
  split_ifs with hlong
  · simp
    omega
  · rw [Option.isSome_map, checkClientRoutes_isSome]
    simp
    omega

/-- the policy accepts the effective routes of a catalogue whose local routes are sound, if and only if they fit -/
theorem parseClientRoutes_iff (J : Json Raw) {P : Platform Addr} {c : ClientCatalogState} (h : Locals P c.localRoutes) :
    (parseClientRoutes P J (J.encode (effectiveRoutes c.adminRoutes c.localRoutes c.permissions.allowClientRoutes))).isSome ↔
      Fits J c := by
  have hparse : ∀ routes, (parseClientRoutes P J (J.encode routes)).isSome ↔
      J.length (J.encode routes) ≤ maxCatalogPayload ∧ (newClientRoutePolicy P routes).isSome := by
    intro routes
    unfold parseClientRoutes
    have hpos := J.length_pos routes
    split_ifs with hsize
    · exact iff_of_false (by simp) fun h => by omega
    · rw [J.decode_encode]
      exact ⟨fun h => ⟨by omega, h⟩, fun h => h.2⟩
  have hperm := effectiveRoutes_locals h c.permissions.allowClientRoutes
  have hsame : (∀ r ∈ c.adminRoutes, r.enabled = true → r.source ≠ .admin) →
      effectiveRoutes c.adminRoutes c.localRoutes c.permissions.allowClientRoutes =
        effectiveRoutes [] c.localRoutes c.permissions.allowClientRoutes := by
    intro hno
    unfold effectiveRoutes
    rw [filter_eq_nil_iff.2 fun r hr => by simpa using hno r hr, filter_nil]
  rw [hparse, newClientRoutePolicy_isSome]
  constructor
  · rintro ⟨hsize, hcount, hlocal, -⟩
    have hno : ∀ r ∈ c.adminRoutes, r.enabled = true → r.source ≠ .admin := by
      intro r hr he hs
      have hclient := (hlocal r (by simp [effectiveRoutes, mem_insertionSort, hr, he, hs])).2.1
      exact absurd (hs.symm.trans hclient) (by simp)
    rw [hsame hno] at hsize hcount
    refine ⟨hno, fun hallow => ?_, hsize⟩
    rw [hperm.length_eq, if_pos hallow] at hcount
    exact hcount
  · rintro ⟨hno, hcount, hsize⟩
    rw [hsame hno]
    refine ⟨hsize, ?_, fun r hr => ?_, ?_⟩
    · rw [hperm.length_eq]
      split_ifs with hallow
      · exact hcount hallow
      · exact Nat.zero_le _
    · have hr := hperm.mem_iff.1 hr
      split_ifs at hr
      · exact h.own r (mem_filter.1 hr).1
      · cases hr
    · rw [(hperm.map _).nodup_iff]
      split_ifs
      · exact h.distinct.sublist (filter_sublist.map _)
      · exact nodup_nil

/-- **Connecting.** After any calls, an idle backend accepts the routes of a profile exactly when its catalogue, if it has one,
publishes no administrator route and leaves at most `MaxRoutes` enabled local ones whose encoding is not too long. -/
theorem connect_accepted_iff (H : Host Addr) (J : Json Raw) (calls : List (Call × Bool)) (policy : Raw) (id : Str) :
    (Backend.setRoutes H.platform J ⟨false, false, policy⟩ (J.encode (routesOf (run H calls) id))).isSome ↔
      ∀ c, catalogOf (run H calls) id = some c → Fits J c := by
  have hset : ∀ raw, (Backend.setRoutes H.platform J ⟨false, false, policy⟩ raw).isSome ↔
      (parseClientRoutes H.platform J raw).isSome := by
    intro raw
    cases hp : parseClientRoutes H.platform J raw <;> simp [Backend.setRoutes, hp]
  rw [hset, routesOf]
  cases hc : catalogOf (run H calls) id with
  | none =>
    have hpos := J.length_pos []
    have hfits := J.nil_fits
    rw [Option.map_none, Option.getD_none, parseClientRoutes, if_neg (by omega), J.decode_encode, Option.bind_some,
      newClientRoutePolicy_isSome]
    simp
  | some c =>
    obtain ⟨p, -, hp⟩ := Option.bind_eq_some_iff.1 hc
    split_ifs at hp
    simpa using parseClientRoutes_iff J (run_sound H calls _ c hp)

/-- the routes `BuildCatalog` publishes to a user -/
def publishedRoutes (state : State) (access : UserAccess) : List Route :=
  effectiveRoutes ((state.routes.filter fun r => decide (r.id ∈ access.allowedRouteIDs) && r.source == .admin).map fun r =>
    if r.rule.geoIPCountries ≠ [] ∨ r.rule.geoSiteCategories ≠ [] then
      { r with rule := { r.rule with domainSuffixes := r.rule.domainSuffixes ++ [ascii "np2-geodata-never-match.invalid"] } }
    else r) [] false

/-- the nodes `BuildCatalog` publishes to a user; `visible` is the field of a node that `State` leaves out -/
def publishedNodes (state : State) (access : UserAccess) (visible : Cluster.Node → Bool) : List Cluster.Node :=
  state.nodes.filter fun n => decide (n.id ∈ access.allowedNodeIDs) && visible n

/-- a catalogue that `BuildCatalog` can return; the paths of a server are free, as `State` leaves out those of a node -/
def Built (P : Platform Addr) (catalog : Catalog) : Prop :=
  ∃ state access visible, validateState P state = .ok () ∧ access ∈ state.access ∧ catalog.clusterID = state.clusterID ∧
    catalog.revision = state.revision ∧ catalog.adminRoutes = publishedRoutes state access ∧
    catalog.permissions.allowClientRoutes = access.allowClientRoutes ∧ catalog.servers ≠ [] ∧
    (catalog.servers.map fun s => (s.nodeID, s.name, s.region, s.serverIdentity, s.serverAddresses, s.enabled)) =
      (publishedNodes state access visible).map fun n =>
        (n.id, n.name, n.region, n.publicIdentity, n.publicAddresses, n.enabled)

def listJson : Json (List Route) := ⟨id, some, fun routes => 2 + routes.length, fun _ => rfl, fun _ => by simp, by decide⟩

def clusterHost : Host (List ℕ) where
  __ := plainHost
  importURI := fun _ _ => some (⟨ascii "p", [], [], [], [], [], [], [], [], false, ascii "c1", [], false, true⟩, [])

/-- the edge of the cluster, and the route through it -/
def edgeCatalog (revision : ℕ) : Catalog :=
  ⟨ascii "c1", revision,
    [⟨ascii "edge", ascii "Edge", ascii "eu", ascii "edge.example", [ascii "192.0.2.2"], [], [], [], false, true⟩],
    [Cluster.throughEdge true], ⟨true, true⟩⟩

/-- **A published route stops the client.** -/
theorem admin_route_refused : ¬∀ calls : List (Call × Bool),
    (∀ id catalog now saved, (.applyCatalog id catalog now, saved) ∈ calls → Built clusterHost.platform catalog) →
      (Backend.setRoutes clusterHost.platform listJson ⟨false, false, []⟩
        (routesOf (run clusterHost calls) (run clusterHost calls).selectedProfileID)).isSome := by
  intro h
  have haccepted := h [(.importProfile [], true), (.applyCatalog (ascii "p") (edgeCatalog 1) 0, true)] ?_
  · exact absurd haccepted (by decide)
  · intro id catalog now saved hmem
    simp only [List.mem_cons, Prod.mk.injEq, reduceCtorEq, false_and, Call.applyCatalog.injEq, List.not_mem_nil, or_false,
      false_or] at hmem
    obtain ⟨⟨-, rfl, -⟩, -⟩ := hmem
    exact ⟨Cluster.edgeState (ascii "edge"), Cluster.userOf [ascii "edge"],
      fun _ => true, by decide, by decide, rfl, rfl, by decide, rfl, by simp [edgeCatalog], rfl⟩

/-! ## Synchronising -/

inductive ControllerState where
  | stopped
  | connecting
  | connected
  | disconnecting
  | failed
deriving DecidableEq

/-- a signed envelope: its catalogue and the fields only `VerifyCatalog` reads; 0 is the zero time -/
structure Envelope where
  version : ℤ
  userID : Str
  issuedAt : ℕ
  expiresAt : ℕ
  catalog : Catalog

def catalogVersion : ℤ := 1

/-- in seconds -/
def maxCatalogTTL : ℕ := 24 * 60 * 60

def verifyCatalog (e : Envelope) (clusterID : Str) (minimumRevision now : ℕ) : Bool :=
  decide (e.version = catalogVersion) && Cluster.validOpaqueID e.userID 128 &&
    decide (e.catalog.revision ≠ 0 ∧ e.issuedAt ≠ 0 ∧ e.issuedAt < e.expiresAt ∧ e.expiresAt - e.issuedAt ≤ maxCatalogTTL) &&
    decide (e.catalog.servers ≠ [] ∧ e.catalog.servers.length ≤ Cluster.maxNodes ∧ e.catalog.adminRoutes.length ≤ maxRoutes) &&
    decide (e.catalog.clusterID = clusterID) && decide (minimumRevision ≤ e.catalog.revision) &&
    decide (e.issuedAt ≤ now + 5 * 60 ∧ now < e.expiresAt)

/-- the revision stored for a cluster, 0 without a catalogue -/
def revisionOf (st : StoreState) (cluster : Str) : ℕ := ((st.catalogs.lookup cluster).map fun c => c.revision).getD 0

def catalogRevision (st : StoreState) (id : Str) : ℕ :=
  ((profileLocked st id).map fun p => if p.profile.clusterID = [] then 0 else revisionOf st p.profile.clusterID).getD 0

/-- where a `SyncCatalog` is -/
inductive Sync where
  | fetching (selected : Profile)
  /-- it read the revision `minimum` and verified the catalogue against it -/
  | verified (selected : Profile) (minimum : ℕ) (catalog : Catalog)

structure Client where
  state : ControllerState
  store : StoreState
  syncs : List (Option Sync)

inductive Op where
  /-- `Connect`, its completion or `Disconnect` -/
  | controller (state : ControllerState)
  | store (c : Call) (saved : Bool)
  | sync
  /-- the fetch of a `SyncCatalog` returns an envelope -/
  | fetched (i : ℕ) (e : Envelope) (now : ℕ)
  | apply (i : ℕ) (now : ℕ) (saved : Bool)

/-- the calls of the store that the controller makes outside `SyncCatalog` -/
def allowed (state : ControllerState) : Call → Bool
  | .importProfile _ | .select _ | .remove _ => state == .stopped || state == .failed
  | .applyCatalog .. => false
  | .upsertLocalRoute .. | .removeLocalRoute .. => true

variable (H) in
def step (s : Client) : Op → Client
  | .controller state => { s with state := state }
  | .store c saved => if allowed s.state c then { s with store := (call H s.store saved c).2 } else s
  | .sync => match profileLocked s.store s.store.selectedProfileID with
    | some p => if s.state = .connected ∧ p.profile.clusterID ≠ [] then { s with syncs := s.syncs ++ [some (.fetching p.profile)] } else s
    | none => s
  | .fetched i e now => match s.syncs[i]? with
    | some (some (.fetching p)) =>
      let minimum := catalogRevision s.store p.id
      { s with syncs := s.syncs.set i (if verifyCatalog e p.clusterID minimum now then some (.verified p minimum e.catalog) else none) }
    | _ => s
  | .apply i now saved => match s.syncs[i]? with
    | some (some (.verified p _ catalog)) =>
      { s with store := (call H s.store saved (.applyCatalog p.id catalog now)).2, syncs := s.syncs.set i none }
    | _ => s

variable (H) in
/-- no snapshot is restored over the catalogue of the cluster -/
def Kept (st : StoreState) (cluster : Str) (saved : Bool) (c : Call) : Prop :=
  saved = true ∨ snapshots H st c = false ∨ revisionOf st cluster = 0

variable (H) in
/-- the catalogue of the cluster is kept, and nobody stored a newer one since a `SyncCatalog` read its minimum. To compare the
stored revision with that of the catalogue instead would be to assume the result. -/
def Undisturbed (cluster : Str) (s : Client) : Op → Prop
  | .store c saved => Kept H s.store cluster saved c
  | .apply i now saved => ∀ p minimum catalog, Pool.Live s.syncs i (.verified p minimum catalog) →
    Kept H s.store cluster saved (.applyCatalog p.id catalog now) ∧
      (catalog.clusterID = cluster → revisionOf s.store cluster ≤ minimum)
  | _ => True

/-- what was verified is not older than the revision that was read -/
def Inv (s : Client) : Prop := ∀ i p minimum catalog, Pool.Live s.syncs i (.verified p minimum catalog) → minimum ≤ catalog.revision

variable {s : Client} {o : Op}

theorem step_inv (h : Inv s) (o : Op) : Inv (step H s o) := by
  intro j p minimum catalog hj
  cases o with
  | controller | store =>
    simp only [step] at hj
    first | exact h j p minimum catalog hj | (split at hj <;> exact h j p minimum catalog hj)
  | sync =>
    simp only [step] at hj
    split at hj
    · split_ifs at hj
      · rcases Pool.live_append hj with hold | ⟨-, hnew⟩
        · exact h j p minimum catalog hold
        · cases hnew
      · exact h j p minimum catalog hj
    · exact h j p minimum catalog hj
  | fetched i e now =>
    simp only [step] at hj
    split at hj
    · rcases Pool.live_set hj with ⟨-, hold⟩ | ⟨-, hnew⟩
      · exact h j p minimum catalog hold
      · split_ifs at hnew with hv
        cases hnew
        simp only [verifyCatalog, Bool.and_eq_true, decide_eq_true_eq] at hv
        exact hv.1.2
    · exact h j p minimum catalog hj
  | apply i now saved =>
    simp only [step] at hj
    split at hj
    · rcases Pool.live_set hj with ⟨-, hold⟩ | ⟨-, hnew⟩
      · exact h j p minimum catalog hold
      · cases hnew
    · exact h j p minimum catalog hj

/-- a call that keeps the catalogue only ever changes its revision by applying another -/
theorem call_revision {saved : Bool} (hs : Kept H st cluster saved c) :
    revisionOf (call H st saved c).2 cluster = revisionOf st cluster ∨
      ∃ id catalog now, c = .applyCatalog id catalog now ∧ cluster = catalog.clusterID ∧
        revisionOf (call H st saved c).2 cluster = catalog.revision := by
  rcases call_cases H st saved c with hp | hkept | ⟨hlost, hsaved, hsnap⟩
  · unfold revisionOf
    rcases prepare_lookup hp cluster with hsame | ⟨id, catalog, now, hc, hid, hnew⟩ | ⟨old, routes, hold, hnew, -⟩
    · rw [hsame]
      exact .inl rfl
    · rw [hnew]
      exact .inr ⟨id, catalog, now, hc, hid, rfl⟩
    · rw [hold, hnew]
      exact .inl rfl
  · rw [hkept]
    exact .inl rfl
  · rw [Kept, hsaved, hsnap] at hs
    rw [hs.resolve_left (by simp) |>.resolve_left (by simp), revisionOf, hlost]
    exact .inl rfl

theorem step_revision (h : Inv s) (hu : Undisturbed H cluster s o) :
    revisionOf s.store cluster ≤ revisionOf (step H s o).store cluster := by
  cases o with
  | controller => exact le_rfl
  | store c saved =>
    simp only [step]
    split_ifs with ha
    · rcases call_revision hu with hsame | ⟨id, catalog, now, rfl, -⟩
      · exact hsame.ge
      · cases ha
    · exact le_rfl
  | sync | fetched =>
    simp only [step]
    repeat' split
    all_goals exact le_rfl
  | apply i now saved =>
    simp only [step]
    split
    · rename_i p minimum catalog hi
      obtain ⟨hs, hmin⟩ := hu p minimum catalog hi
      rcases call_revision hs with hsame | ⟨id, catalog', now', hc, hid, hnew⟩
      · exact hsame.ge
      · cases hc
        rw [hnew]
        exact (hmin hid.symm).trans (h i p minimum catalog hi)
    · exact le_rfl

def started : Client := ⟨.stopped, opened, []⟩

/-- **No rollback.** As long as no snapshot is restored over the catalogue of a cluster and every catalogue is applied to a
revision it was verified against, the stored revision of the cluster never falls. -/
theorem no_rollback (H : Host Addr) (cluster : Str) (before after : List Op)
    (hu : Machine.Guarded (step H) (Undisturbed H cluster) started (before ++ after)) :
    revisionOf (Machine.run (step H) started before).store cluster ≤
      revisionOf (Machine.run (step H) started (before ++ after)).store cluster := by
  have hstart : Inv started := by
    intro i p minimum catalog hi
    cases hi
  revert hu hstart
  generalize started = s
  intro hu hinv
  induction before generalizing s with
  | nil =>
    have hkept : ∀ s' o, Inv s' ∧ revisionOf s.store cluster ≤ revisionOf s'.store cluster → Undisturbed H cluster s' o →
        Inv (step H s' o) ∧ revisionOf s.store cluster ≤ revisionOf (step H s' o).store cluster :=
      fun s' o h hu => ⟨step_inv h.1 o, h.2.trans (step_revision h.1 hu)⟩
    exact (Machine.run_inv_guarded (I := fun s' => Inv s' ∧ revisionOf s.store cluster ≤ revisionOf s'.store cluster) hkept
      ⟨hinv, le_rfl⟩ after hu).2
  | cons o before ih => exact ih (step H s o) hu.2 (step_inv hinv o)

/-- what the master of the cluster signs -/
def signed (revision : ℕ) : Envelope := ⟨1, ascii "alice", 1, 1000, edgeCatalog revision⟩

/-- a client that connects with its first profile -/
def connected : List Op := [.store (.importProfile []) true, .controller .connecting, .controller .connected]

theorem no_rollback_twice : ∃ (before after : List Op) (s s' : Client),
    Machine.run (step clusterHost) started before = s ∧ Machine.run (step clusterHost) started (before ++ after) = s' ∧
      revisionOf s.store (ascii "c1") = 1 ∧ revisionOf s'.store (ascii "c1") = 2 ∧
      revisionOf s.store (ascii "c1") ≤ revisionOf s'.store (ascii "c1") := by
  refine ⟨connected ++ [.sync, .fetched 0 (signed 1) 10, .apply 0 10 true],
    [.sync, .fetched 1 (signed 2) 20, .apply 1 20 true], _, _, rfl, rfl, by decide, by decide, no_rollback clusterHost _ _ _ ?_⟩
  refine ⟨.inl rfl, trivial, trivial, trivial, trivial, ?_, trivial, trivial, ?_, trivial⟩
  all_goals
    intro p minimum catalog hi
    cases hi
    exact ⟨.inl rfl, by decide⟩

/-- **A late catalogue rolls back.** Two `SyncCatalog` calls verify what they fetched against the same stored revision. -/
theorem late_catalog_rolls_back : ¬∀ (before after : List Op) (cluster : Str),
    revisionOf (Machine.run (step clusterHost) started before).store cluster ≤
      revisionOf (Machine.run (step clusterHost) started (before ++ after)).store cluster := by
  intro h
  have hfall := h (connected ++ [.sync, .sync, .fetched 0 (signed 1) 10, .fetched 1 (signed 2) 10, .apply 1 10 true])
    [.apply 0 10 true] (ascii "c1")
  exact absurd hfall (by decide)

end NeProto.Windowsclient
