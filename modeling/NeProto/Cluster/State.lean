/-
The cluster state and its validation (`internal/cluster/model.go`).

- `validateState`: the checks of `ValidateState` in the source's order, with the item each error names.
- `Valid`: what an accepted state satisfies (`validateState_ok`). Node, route and user IDs are distinct, every route is valid and
  names known nodes, and so does every access entry.
Left out: the fields of `Node` that no check reads, and `AllowAutoSelection`.
-/
import NeProto.Lib.Text

namespace NeProto.Cluster

open List

/-! ## Checks on strings -/

/-- `validIdentifier` and, with 64, `identifier` of `clusterrelay` -/
def validIdentifier (value : Str) (maximum : ℕ) : Bool :=
  match value with
  | [] => false
  | first :: rest =>
    decide (value.length ≤ maximum) && (isLower first || isDigit first) &&
      rest.all fun b => isLower b || isDigit b || b == hyphen || b == underscore

def validOpaqueID (value : Str) (maximum : ℕ) : Bool :=
  decide (value ≠ [] ∧ value.length ≤ maximum) &&
    value.all fun b => isLower b || isUpper b || isDigit b || b == hyphen || b == underscore

def validDisplay {Addr : Type} (P : Platform Addr) (value : Str) (maximum : ℕ) : Bool :=
  decide (P.trimSpace value = value ∧ 0 < value.length ∧ value.length ≤ maximum) && value.all fun b => b != 13 && b != 10 && b != 0

/-- a label of a domain name -/
def validLabel (label : Str) : Bool :=
  decide (label ≠ [] ∧ label.length ≤ 63 ∧ label.head? ≠ some hyphen ∧ label.getLast? ≠ some hyphen) &&
    label.all fun b => isLower b || isDigit b || b == hyphen

def validDomain {Addr : Type} (P : Platform Addr) (value : Str) : Bool :=
  decide (value ≠ [] ∧ value.length ≤ 253 ∧ value = P.toLower value ∧ value.getLast? ≠ some dot) &&
    (value.splitOn dot).all validLabel

/-- `hasDuplicates`: a malformed value counts as one -/
def hasDuplicates (values : List Str) : Bool := !decide values.Nodup || !values.all fun v => validIdentifier v 128

def validGeoRuleName (value : Str) (maximum : ℕ) : Bool :=
  match value with
  | [] => false
  | first :: rest =>
    decide (value.length ≤ maximum) && (isLower first || isDigit first) &&
      rest.all fun b => isLower b || isDigit b || b == hyphen || b == underscore || b == 33 || b == 64

/-! ## The state -/

inductive NodeRole where
  | master
  | ingress
  | relay
  | egress
  | other (name : Str)
deriving DecidableEq

/-- a `time.Time` is a number, 0 is the zero time -/
structure Node where
  id : Str
  name : Str
  region : Str
  roles : List NodeRole
  publicIdentity : Str
  publicAddresses : List Str
  np2Endpoint : Str
  enabled : Bool
  credentialID : Str
  hostKeySHA256 : Str
  provisionedAt : ℕ
  updatedAt : ℕ
deriving DecidableEq

inductive RouteSource where
  | admin
  | client
  | other (name : Str)
deriving DecidableEq

inductive NetworkProtocol where
  | tcp
  | udp
  | other (name : Str)
deriving DecidableEq

/-- `ProtocolTCP` or `ProtocolUDP` -/
def NetworkProtocol.known : NetworkProtocol → Bool
  | .tcp | .udp => true
  | .other _ => false

structure PortRange where
  first : ℕ
  last : ℕ
deriving DecidableEq

structure RouteMatch where
  domainSuffixes : List Str
  cidrs : List Str
  geoIPCountries : List Str
  geoSiteCategories : List Str
  portRanges : List PortRange
  protocols : List NetworkProtocol
deriving DecidableEq

inductive RouteActionKind where
  | direct
  | current
  | node
  | chain
  | block
  | auto
  | other (name : Str)
deriving DecidableEq

structure RouteAction where
  kind : RouteActionKind
  nodeIDs : List Str
deriving DecidableEq

structure Route where
  id : Str
  name : Str
  priority : ℤ
  enabled : Bool
  source : RouteSource
  mandatory : Bool
  /-- `Match` -/
  rule : RouteMatch
  action : RouteAction
deriving DecidableEq

structure UserAccess where
  userID : Str
  allowedNodeIDs : List Str
  allowedRouteIDs : List Str
  allowClientRoutes : Bool
  revision : ℕ
deriving DecidableEq

structure State where
  version : ℤ
  clusterID : Str
  revision : ℕ
  nodes : List Node
  routes : List Route
  access : List UserAccess
  updatedAt : ℕ
deriving DecidableEq

def stateVersion : ℤ := 1

def maxNodes : ℕ := 32

def maxRoutes : ℕ := 512

def maxUsers : ℕ := 10000

def maxRouteHops : ℕ := 3

/-! ## Validation -/

section Validation

variable {Addr : Type} (P : Platform Addr)

def validateNode (node : Node) : Bool :=
  validIdentifier node.id 64 && validDisplay P node.name 96 && validDisplay P node.region 96 && validDomain P node.publicIdentity &&
    decide (node.publicAddresses ≠ [] ∧ node.publicAddresses.length ≤ 8) && validOpaqueID node.credentialID 128 &&
    (ascii "SHA256:").isPrefixOf node.hostKeySHA256 &&
    decide (node.provisionedAt ≠ 0 ∧ node.updatedAt ≠ 0 ∧ node.roles ≠ [] ∧ node.roles.length ≤ 4) &&
    (match P.splitHostPort node.np2Endpoint with
      | some (host, port) => decide (host ≠ [] ∧ port ≠ [])
      | none => false) &&
    (node.publicAddresses.all fun raw => (P.parseAddr raw).any P.isGlobalUnicast) &&
    (node.roles.all fun role => match role with
      | .other _ => false
      | _ => true) &&
    decide node.roles.Nodup

/-- the switch on the kind of an action -/
def validAction (action : RouteAction) : Bool :=
  match action.kind with
  | .node => decide (action.nodeIDs.length = 1)
  | .chain => decide (2 ≤ action.nodeIDs.length ∧ action.nodeIDs.length ≤ maxRouteHops) && !hasDuplicates action.nodeIDs
  | .direct | .current | .block | .auto => decide (action.nodeIDs = [])
  | .other _ => false

def validMatch (rule : RouteMatch) : Bool :=
  decide (rule.domainSuffixes.length ≤ 64 ∧ rule.cidrs.length ≤ 64 ∧ rule.geoIPCountries.length ≤ 16 ∧
    rule.geoSiteCategories.length ≤ 16 ∧ rule.portRanges.length ≤ 32 ∧ rule.protocols.length ≤ 2) &&
    (rule.domainSuffixes.all fun suffix => decide (suffix = P.toLower suffix) && validDomain P suffix) &&
    (rule.cidrs.all fun raw => (P.parsePrefix raw).any fun p => decide (p.1 = raw)) &&
    (rule.geoIPCountries.all fun country => validGeoRuleName country 16 && decide (country = P.toLower country)) &&
    (rule.geoSiteCategories.all fun category => validGeoRuleName category 96 && decide (category = P.toLower category)) &&
    (rule.portRanges.all fun ports => decide (ports.first ≠ 0 ∧ ports.first ≤ ports.last)) &&
    rule.protocols.all NetworkProtocol.known

def validateRoute (route : Route) : Bool :=
  validIdentifier route.id 64 && validDisplay P route.name 96 && decide (0 ≤ route.priority ∧ route.priority ≤ 1000000) &&
    decide (route.source = .admin ∨ route.source = .client) && decide (route.mandatory → route.source = .admin) &&
    validMatch P route.rule && validAction route.action

/-- the errors of `ValidateState`; all wrap `ErrInvalidState` -/
inductive StateError where
  | invalidState
  | node (id : Str)
  | duplicateNode (id : Str)
  | expectedOneMaster
  | route (id : Str)
  | duplicateRoute (id : Str)
  | routeReferencesNode (route node : Str)
  | invalidUserAccess
  | duplicateUserAccess
  | duplicateAccessReference
  | accessReferencesNode (node : Str)
  | accessReferencesRoute (route : Str)
deriving DecidableEq

/-- one round of the loop over the nodes; `nodes` are the IDs so far -/
def checkNode (nodes : List Str) (node : Node) : Except StateError (List Str) :=
  if !validateNode P node then .error (.node node.id)
  else if node.id ∈ nodes then .error (.duplicateNode node.id)
  else .ok (nodes ++ [node.id])

/-- the first of the references that is not known -/
def unknown (known references : List Str) : Option Str := references.find? fun id => id ∉ known

def checkRoute (nodes routes : List Str) (route : Route) : Except StateError (List Str) :=
  if !validateRoute P route then .error (.route route.id)
  else if route.id ∈ routes then .error (.duplicateRoute route.id)
  else match unknown nodes route.action.nodeIDs with
    | some nodeID => .error (.routeReferencesNode route.id nodeID)
    | none => .ok (routes ++ [route.id])

def checkAccess (nodes routes users : List Str) (access : UserAccess) : Except StateError (List Str) :=
  if !validOpaqueID access.userID 128 || access.revision = 0 then .error .invalidUserAccess
  else if access.userID ∈ users then .error .duplicateUserAccess
  else if hasDuplicates access.allowedNodeIDs || hasDuplicates access.allowedRouteIDs then .error .duplicateAccessReference
  else match unknown nodes access.allowedNodeIDs with
    | some nodeID => .error (.accessReferencesNode nodeID)
    | none => match unknown routes access.allowedRouteIDs with
      | some routeID => .error (.accessReferencesRoute routeID)
      | none => .ok (users ++ [access.userID])

/-- the checks before the loops -/
def validHeader (state : State) : Bool :=
  decide (state.version = stateVersion) && validIdentifier state.clusterID 64 &&
    decide (state.revision ≠ 0 ∧ state.updatedAt ≠ 0 ∧ state.nodes ≠ [] ∧ state.nodes.length ≤ maxNodes ∧
      state.routes.length ≤ maxRoutes ∧ state.access.length ≤ maxUsers)

def validateState (state : State) : Except StateError Unit :=
  if !validHeader state then .error .invalidState
  else do
    let nodes ← state.nodes.foldlM (checkNode P) []
    if state.nodes.countP (fun node => node.roles.contains .master) ≠ 1 then .error .expectedOneMaster
    else
      let routes ← state.routes.foldlM (checkRoute P nodes) []
      let _ ← state.access.foldlM (checkAccess nodes routes) []
      .ok ()

/-! ## What is accepted -/

/-- what `ValidateState` accepts -/
structure Valid (state : State) : Prop where
  nodes_ne : state.nodes ≠ []
  node : ∀ n ∈ state.nodes, validateNode P n = true
  nodes_nodup : (state.nodes.map (·.id)).Nodup
  one_master : state.nodes.countP (fun node => node.roles.contains .master) = 1
  route : ∀ r ∈ state.routes, validateRoute P r = true
  routes_nodup : (state.routes.map (·.id)).Nodup
  route_nodes : ∀ r ∈ state.routes, ∀ id ∈ r.action.nodeIDs, id ∈ state.nodes.map (·.id)
  user : ∀ a ∈ state.access, validOpaqueID a.userID 128 = true
  users_nodup : (state.access.map (·.userID)).Nodup
  access_nodes : ∀ a ∈ state.access, ∀ id ∈ a.allowedNodeIDs, id ∈ state.nodes.map (·.id)

variable {out seen : List Str}

/-- a loop that collects the keys of its items and refuses a key it has seen -/
theorem collect_ok {α : Type} {check : List Str → α → Except StateError (List Str)} (key : α → Str) (Q : α → Prop)
    (hcheck : ∀ seen a seen', check seen a = .ok seen' → seen' = seen ++ [key a] ∧ key a ∉ seen ∧ Q a) (items : List α) :
    ∀ {seen out : List Str}, items.foldlM check seen = .ok out → seen.Nodup →
      out = seen ++ items.map key ∧ out.Nodup ∧ ∀ a ∈ items, Q a := by
  induction items with
  | nil =>
    intro seen out h hseen
    obtain rfl := Except.ok.inj h
    exact ⟨by simp, hseen, nofun⟩
  | cons a items ih =>
    intro seen out h hseen
    rw [foldlM_cons] at h
    cases hfirst : check seen a with
    | error e =>
      rw [hfirst] at h
      cases h
    | ok seen' =>
      rw [hfirst] at h
      obtain ⟨rfl, hnew, hq⟩ := hcheck seen a seen' hfirst
      have hnodup : (seen ++ [key a]).Nodup :=
        nodup_append.mpr ⟨hseen, nodup_singleton _, fun x hx y hy hxy =>
          hnew (mem_singleton.mp hy ▸ hxy ▸ hx)⟩
      obtain ⟨rfl, hout, hrest⟩ := ih h hnodup
      refine ⟨by simp, hout, fun b hb => ?_⟩
      rcases mem_cons.mp hb with rfl | hb
      · exact hq
      · exact hrest b hb

variable {P}

theorem unknown_none {known references : List Str} (h : unknown known references = none) : ∀ id ∈ references, id ∈ known := by
  intro id hid
  have := find?_eq_none.mp h id hid
  simpa using this

theorem checkNode_ok {node : Node} (h : checkNode P seen node = .ok out) :
    out = seen ++ [node.id] ∧ node.id ∉ seen ∧ validateNode P node = true := by
  unfold checkNode at h
  split_ifs at h with hvalid hseen
  exact ⟨(Except.ok.inj h).symm, hseen, by simpa using hvalid⟩

theorem checkRoute_ok {nodes : List Str} {route : Route} (h : checkRoute P nodes seen route = .ok out) :
    out = seen ++ [route.id] ∧ route.id ∉ seen ∧ (validateRoute P route = true ∧ ∀ id ∈ route.action.nodeIDs, id ∈ nodes) := by
  unfold checkRoute at h
  split_ifs at h with hvalid hseen
  split at h
  · cases h
  · rename_i hknown
    exact ⟨(Except.ok.inj h).symm, hseen, by simpa using hvalid, unknown_none hknown⟩

theorem checkAccess_ok {nodes routes : List Str} {access : UserAccess} (h : checkAccess nodes routes seen access = .ok out) :
    out = seen ++ [access.userID] ∧ access.userID ∉ seen ∧
      (validOpaqueID access.userID 128 = true ∧ ∀ id ∈ access.allowedNodeIDs, id ∈ nodes) := by
  unfold checkAccess at h
  split_ifs at h with hvalid hseen hdup
  split at h
  · cases h
  rename_i hknown
  split at h
  · cases h
  refine ⟨(Except.ok.inj h).symm, hseen, ?_, unknown_none hknown⟩
  simp only [Bool.or_eq_true, not_or] at hvalid
  simpa using hvalid.1

/-- **An accepted state is valid.** -/
theorem validateState_ok {state : State} (h : validateState P state = .ok ()) : Valid P state := by
  unfold validateState at h
  split at h
  · cases h
  rename_i hheader
  have hne : state.nodes ≠ [] := by
    simp only [validHeader, Bool.not_eq_true, Bool.not_eq_false', Bool.and_eq_true, decide_eq_true_eq] at hheader
    exact hheader.2.2.2.1
  cases hnodes : state.nodes.foldlM (checkNode P) [] with
  | error e => simp [hnodes, bind, Except.bind] at h
  | ok nodes =>
    simp only [hnodes, bind, Except.bind] at h
    split at h
    · cases h
    rename_i hmaster
    cases hroutes : state.routes.foldlM (checkRoute P nodes) [] with
    | error e => simp [hroutes] at h
    | ok routes =>
      simp only [hroutes] at h
      cases haccess : state.access.foldlM (checkAccess nodes routes) [] with
      | error e => simp [haccess] at h
      | ok users =>
        obtain ⟨hn, hnd, hnode⟩ := collect_ok (·.id) (validateNode P · = true) (fun _ _ _ => checkNode_ok) _ hnodes nodup_nil
        obtain ⟨hr, hrd, hroute⟩ := collect_ok (·.id)
          (fun r => validateRoute P r = true ∧ ∀ id ∈ r.action.nodeIDs, id ∈ nodes) (fun _ _ _ => checkRoute_ok) _ hroutes nodup_nil
        obtain ⟨hu, hud, huser⟩ := collect_ok (·.userID)
          (fun a => validOpaqueID a.userID 128 = true ∧ ∀ id ∈ a.allowedNodeIDs, id ∈ nodes) (fun _ _ _ => checkAccess_ok) _ haccess
          nodup_nil
        subst hn hr hu
        exact {
          nodes_ne := hne
          node := hnode
          nodes_nodup := hnd
          one_master := by simpa using hmaster
          route := fun r hr => (hroute r hr).1
          routes_nodup := hrd
          route_nodes := fun r hr => (hroute r hr).2
          user := fun a ha => (huser a ha).1
          users_nodup := hud
          access_nodes := fun a ha => (huser a ha).2 }

/-- a user has one access entry -/
theorem Valid.access_unique {state : State} (h : Valid P state) {a b : UserAccess} (ha : a ∈ state.access) (hb : b ∈ state.access)
    (hid : a.userID = b.userID) : a = b :=
  inj_on_of_nodup_map h.users_nodup ha hb hid

end Validation

end NeProto.Cluster
