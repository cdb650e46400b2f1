/-
The profile store of the Windows client (`internal/windowsclient/store.go`).

- `prepare`, `rollback`, `call`: the calls that change the store; whether `saveLocked` succeeds is an input.
- `cloneStoreState`: the snapshot the rollbacks go back to. It copies neither the catalogues nor the suppressed nodes.
- `failed_call_iff`: exactly when a call that fails leaves the store as it was.
Left out: fields of `Profile` that are only copied along. `ImportURI`, `Protect` and `profileIDFor` are parameters (`Host`).
-/
import Mathlib.Data.List.AList
import NeProto.Cluster.State

namespace NeProto.Windowsclient

open Cluster (Route validateRoute)

/-! ## The state -/

structure Profile where
  id : Str
  credentialID : Str
  name : Str
  region : Str
  serverIdentity : Str
  serverAddresses : List Str
  httpsPath : Str
  webRTCPath : Str
  http3Path : Str
  requireDatagrams : Bool
  clusterID : Str
  clusterNodeID : Str
  managedByCluster : Bool
  clusterAvailable : Bool

structure StoredProfile where
  profile : Profile
  protectedSecret : Str

structure CatalogPermissions where
  allowAutoSelection : Bool
  allowClientRoutes : Bool

structure ClientCatalogState where
  clusterID : Str
  revision : ℕ
  synchronizedAt : ℕ
  adminRoutes : List Route
  localRoutes : List Route
  permissions : CatalogPermissions

structure CatalogServer where
  nodeID : Str
  name : Str
  region : Str
  serverIdentity : Str
  serverAddresses : List Str
  httpsPath : Str
  webRTCPath : Str
  http3Path : Str
  requireDatagrams : Bool
  enabled : Bool

/-- the fields of `cluster.Catalog` that the store reads -/
structure Catalog where
  clusterID : Str
  revision : ℕ
  servers : List CatalogServer
  adminRoutes : List Route
  permissions : CatalogPermissions

structure StoreState where
  deviceID : Str
  selectedProfileID : Str
  profiles : List StoredProfile
  catalogs : AList fun _ : Str => ClientCatalogState
  suppressedNodes : AList fun _ : Str => List Str

/-- what the store uses of other packages -/
structure Host (Addr : Type) where
  platform : Platform Addr
  /-- `ImportURI`: the profile and its secret -/
  importURI : Str → Str → Option (Profile × Str)
  /-- `Protect`, in base64 -/
  protect : Str → Option Str
  profileIDFor : Str → Str → Str

inductive Err where
  | importURI
  | profileExists
  | protect
  | save
  | profileNotFound
  | invalidCatalog
  | invalidState
  | route

/-! ## The calls -/

inductive Call where
  | importProfile (uri : Str)
  | select (id : Str)
  | remove (id : Str)
  | applyCatalog (bootstrapID : Str) (catalog : Catalog) (now : ℕ)
  | upsertLocalRoute (profileID : Str) (route : Route)
  | removeLocalRoute (profileID routeID : Str)

def hasProfileLocked (st : StoreState) (id : Str) : Bool := id != [] && st.profiles.any fun p => p.profile.id == id

def profileLocked (st : StoreState) (id : Str) : Option StoredProfile := st.profiles.find? fun p => p.profile.id == id

def appendUnique (values : List Str) (value : Str) : List Str := if value ∈ values then values else values ++ [value]

/-- the profile selected when the one that was is gone -/
def firstProfile (profiles : List StoredProfile) : Str := (profiles.head?.map fun p => p.profile.id).getD []

/-- the catalogue whose local routes a profile may edit -/
def editable (st : StoreState) (profileID : Str) : Except Err (Str × ClientCatalogState) :=
  match profileLocked st profileID with
  | none => .error .profileNotFound
  | some p => match st.catalogs.lookup p.profile.clusterID with
    | none => .error .invalidState
    | some catalog => if catalog.permissions.allowClientRoutes then .ok (p.profile.clusterID, catalog) else .error .invalidState

def setRoutes (st : StoreState) (clusterID : Str) (catalog : ClientCatalogState) (routes : List Route) : StoreState :=
  { st with catalogs := st.catalogs.insert clusterID { catalog with localRoutes := routes } }

def clientRoute (route : Route) : Route := { route with source := .client, mandatory := false }

def upsert (routes : List Route) (route : Route) : List Route :=
  match routes.findIdx? fun r => r.id == route.id with
  | some index => routes.set index route
  | none => routes ++ [route]

section Calls

variable {Addr : Type} (H : Host Addr) (st : StoreState)

def clusterProfile (bootstrap : Profile) (server : CatalogServer) : Profile :=
  { bootstrap with
    id := H.profileIDFor bootstrap.credentialID server.serverIdentity
    name := server.name
    region := server.region
    serverIdentity := server.serverIdentity
    serverAddresses := server.serverAddresses
    httpsPath := if server.httpsPath = [] then bootstrap.httpsPath else server.httpsPath
    webRTCPath := if server.webRTCPath = [] then bootstrap.webRTCPath else server.webRTCPath
    http3Path := if server.http3Path = [] then bootstrap.http3Path else server.http3Path
    requireDatagrams := server.requireDatagrams
    clusterNodeID := server.nodeID
    clusterAvailable := server.enabled }

/-- one round of the loop over the servers -/
def retain (bootstrap : StoredProfile) (suppressed : List Str) (retained : List StoredProfile) (server : CatalogServer) :
    List StoredProfile :=
  if server.nodeID ∈ suppressed then retained
  else
    let profile := clusterProfile H bootstrap.profile server
    match retained.findIdx? fun p => p.profile.id == profile.id with
    | some index => retained.modify index fun p =>
        { p with profile := { profile with managedByCluster := p.profile.managedByCluster } }
    | none => retained ++ [⟨{ profile with managedByCluster := true }, bootstrap.protectedSecret⟩]

/-- a call up to `saveLocked`: its checks, and the state it is about to write -/
def prepare : Call → Except Err StoreState
  | .importProfile uri =>
    match H.importURI uri st.deviceID with
    | none => .error .importURI
    | some (profile, secret) =>
      if hasProfileLocked st profile.id then .error .profileExists
      else match H.protect secret with
        | none => .error .protect
        | some protectedSecret => .ok { st with
            profiles := st.profiles ++ [⟨profile, protectedSecret⟩]
            selectedProfileID := if st.selectedProfileID = [] then profile.id else st.selectedProfileID }
  | .select id => if hasProfileLocked st id then .ok { st with selectedProfileID := id } else .error .profileNotFound
  | .remove id =>
    match profileLocked st id with
    | none => .error .profileNotFound
    | some ⟨removed, _⟩ =>
      let profiles := st.profiles.eraseP fun p => p.profile.id == id
      .ok { st with
        profiles := profiles
        suppressedNodes :=
          if removed.managedByCluster ∧ removed.clusterID ≠ [] ∧ removed.clusterNodeID ≠ [] then
            st.suppressedNodes.insert removed.clusterID
              (appendUnique ((st.suppressedNodes.lookup removed.clusterID).getD []) removed.clusterNodeID)
          else st.suppressedNodes
        selectedProfileID := if st.selectedProfileID = id then firstProfile profiles else st.selectedProfileID }
  | .applyCatalog bootstrapID catalog now =>
    match profileLocked st bootstrapID with
    | none => .error .invalidCatalog
    | some bootstrap =>
      if bootstrap.profile.clusterID = [] ∨ bootstrap.profile.clusterID ≠ catalog.clusterID then .error .invalidCatalog
      else
        let retained := catalog.servers.foldl
          (retain H bootstrap ((st.suppressedNodes.lookup catalog.clusterID).getD []))
          (st.profiles.filter fun p => !(p.profile.managedByCluster && p.profile.clusterID == catalog.clusterID))
        let next := { st with profiles := retained }
        .ok { next with
          selectedProfileID :=
            if hasProfileLocked next st.selectedProfileID then st.selectedProfileID else firstProfile retained
          catalogs := st.catalogs.insert catalog.clusterID
            { clusterID := catalog.clusterID
              revision := catalog.revision
              synchronizedAt := now
              adminRoutes := catalog.adminRoutes
              permissions := catalog.permissions
              localRoutes := ((st.catalogs.lookup catalog.clusterID).map fun c => c.localRoutes).getD [] } }
  | .upsertLocalRoute profileID route =>
    match editable st profileID with
    | .error err => .error err
    | .ok (clusterID, catalog) =>
      if validateRoute H.platform (clientRoute route) then
        .ok (setRoutes st clusterID catalog (upsert catalog.localRoutes (clientRoute route)))
      else .error .route
  | .removeLocalRoute profileID routeID =>
    match editable st profileID with
    | .error err => .error err
    | .ok (clusterID, catalog) =>
      if catalog.localRoutes.any fun r => r.id == routeID then
        .ok (setRoutes st clusterID catalog (catalog.localRoutes.eraseP fun r => r.id == routeID))
      else .error .profileNotFound

/-- each map is replaced by an empty one before the loop that copies it ranges over it -/
def cloneStoreState : StoreState :=
  let state := { st with catalogs := ∅ }
  let state := { state with catalogs := state.catalogs.entries.foldl (fun m (e : Sigma _) => m.insert e.1 e.2) state.catalogs }
  let state := { state with suppressedNodes := ∅ }
  { state with
    suppressedNodes := state.suppressedNodes.entries.foldl (fun m (e : Sigma _) => m.insert e.1 e.2) state.suppressedNodes }

/-- what a call puts in the place of `next` when `saveLocked` fails -/
def rollback (next : StoreState) : Call → StoreState
  | .importProfile _ => { next with profiles := next.profiles.dropLast, selectedProfileID := st.selectedProfileID }
  | .select _ => { next with selectedProfileID := st.selectedProfileID }
  | _ => cloneStoreState st

/-- `saved`: whether `saveLocked` gets through all its steps -/
def call (saved : Bool) (c : Call) : Option Err × StoreState :=
  match prepare H st c with
  | .error err => (some err, st)
  | .ok next => if saved then (none, next) else (some .save, rollback st next c)

/-! ## What a failed call leaves -/

/-- the call passes its checks and keeps a snapshot of `st` -/
def snapshots : Call → Bool
  | .importProfile _ | .select _ => false
  | .remove id => (profileLocked st id).isSome
  | .applyCatalog bootstrapID catalog _ =>
    (profileLocked st bootstrapID).any fun p => p.profile.clusterID != [] && p.profile.clusterID == catalog.clusterID
  | .upsertLocalRoute profileID route => (editable st profileID).isOk && validateRoute H.platform (clientRoute route)
  | .removeLocalRoute profileID routeID =>
    (editable st profileID).toOption.any fun x => x.2.localRoutes.any fun r => r.id == routeID

variable {H st} {next : StoreState} {c : Call}

/-- `Import` and `Select` put back what they changed -/
theorem rollback_of_not_snapshots (hp : prepare H st c = .ok next) (hs : snapshots H st c = false) : rollback st next c = st := by
  cases c with
  | importProfile uri =>
    simp only [prepare] at hp
    split at hp
    · cases hp
    split at hp
    · cases hp
    split at hp
    · cases hp
    · cases hp
      simp [rollback]
  | select id =>
    simp only [prepare] at hp
    split_ifs at hp
    cases hp
    rfl
  | remove id =>
    simp only [prepare, Option.not_isSome_iff_eq_none.1 (Bool.not_eq_true _ ▸ hs)] at hp
    cases hp
  | applyCatalog bootstrapID catalog now =>
    simp only [prepare] at hp
    split at hp
    · cases hp
    · rw [if_pos (by simp_all [snapshots, imp_iff_not_or])] at hp
      cases hp
  | upsertLocalRoute profileID route =>
    simp only [prepare] at hp
    split at hp
    · cases hp
    · rw [if_neg (by simp_all [snapshots, Except.isOk, Except.toBool])] at hp
      cases hp
  | removeLocalRoute profileID routeID =>
    simp only [prepare] at hp
    split at hp
    · cases hp
    · rw [if_neg (by simp_all [snapshots, Except.toOption])] at hp
      cases hp

/-- a call that keeps a snapshot has passed its checks and goes back to the snapshot -/
theorem prepare_of_snapshots (hs : snapshots H st c = true) :
    (∃ next, prepare H st c = .ok next) ∧
      ∀ next, rollback st next c = { st with catalogs := ∅, suppressedNodes := ∅ } := by
  cases c with
  | importProfile uri | select id => cases hs
  | remove id =>
    obtain ⟨p, hp⟩ := Option.isSome_iff_exists.1 hs
    exact ⟨by simp [prepare, hp], fun _ => rfl⟩
  | applyCatalog bootstrapID catalog now =>
    obtain ⟨p, hp, hc⟩ := (Option.any_eq_true ..).1 hs
    refine ⟨?_, fun _ => rfl⟩
    simp only [prepare, hp]
    rw [if_neg (by simpa using hc)]
    exact ⟨_, rfl⟩
  | upsertLocalRoute profileID route =>
    obtain ⟨he, hr⟩ := Bool.and_eq_true _ _ ▸ hs
    refine ⟨?_, fun _ => rfl⟩
    simp only [prepare, hr]
    split
    · simp_all [Except.isOk, Except.toBool]
    · exact ⟨_, rfl⟩
  | removeLocalRoute profileID routeID =>
    refine ⟨?_, fun _ => rfl⟩
    simp only [prepare]
    split
    · simp_all [snapshots, Except.toOption]
    · rw [if_pos (by simp_all [snapshots, Except.toOption])]
      exact ⟨_, rfl⟩

/-- **Failed calls.** A call that fails leaves the store as it was exactly when the state was written, no snapshot was kept, or
there was no catalogue and no suppressed node for the snapshot to lose. -/
theorem failed_call_iff (H : Host Addr) (st : StoreState) (saved : Bool) (c : Call) :
    ((call H st saved c).1 ≠ none → (call H st saved c).2 = st) ↔
      saved = true ∨ snapshots H st c = false ∨ st.catalogs = ∅ ∧ st.suppressedNodes = ∅ := by
  cases hs : snapshots H st c with
  | true =>
    obtain ⟨⟨next, hp⟩, hr⟩ := prepare_of_snapshots hs
    simp only [call, hp, hr]
    cases saved with
    | true => simp
    | false =>
      cases st
      simp [eq_comm]
  | false =>
    refine iff_of_true (fun hf => ?_) (.inr (.inl rfl))
    unfold call at hf ⊢
    cases hp : prepare H st c with
    | error err => rfl
    | ok next =>
      simp only [hp] at hf
      split_ifs at hf ⊢
      · exact absurd rfl hf
      · exact rollback_of_not_snapshots hp hs

/-! ## A rollback that loses the catalogue -/

end Calls

def opened : StoreState := ⟨ascii "d", [], [], ∅, ∅⟩

/-- a store with the outcomes of its calls -/
def run {Addr : Type} (H : Host Addr) (calls : List (Call × Bool)) : StoreState :=
  calls.foldl (fun st x => (call H st x.2 x.1).2) opened

/-- every URI gives one profile of the cluster `c` -/
def plainHost : Host (List ℕ) where
  platform := asciiPlatform
  importURI := fun _ _ => some (⟨ascii "p", [], [], [], [], [], [], [], [], false, ascii "c", [], false, true⟩, [])
  protect := some
  profileIDFor := fun _ identity => identity

/-- the profile cannot be removed, and its catalogue is gone all the same -/
theorem failed_remove_loses_catalog : ¬∀ (calls : List (Call × Bool)) (saved : Bool) (c : Call),
    (call plainHost (run plainHost calls) saved c).1 ≠ none →
      (call plainHost (run plainHost calls) saved c).2 = run plainHost calls := by
  intro h
  have hsame := h [(.importProfile [], true), (.applyCatalog (ascii "p") ⟨ascii "c", 7, [], [], ⟨true, true⟩⟩ 0, true)] false
    (.remove (ascii "p")) (by decide)
  have hrevision := congrArg (fun st => (st.catalogs.lookup (ascii "c")).map fun c => c.revision) hsame
  exact absurd hrevision (by decide)

end NeProto.Windowsclient
