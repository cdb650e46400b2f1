/-
Which route a user's flow takes (`internal/cluster/model.go`, `relay.go`, `client_route.go`).

- `effectiveRoutes`: the enabled administrator routes, mandatory ones first, then by priority and ID. IDs of an accepted state are
  distinct, so every sort by `Route.less` gives this list.
- `resolveRouteForUserWithMatcher`: the first permitted route that matches, if all its nodes are the user's.
- `resolveClientRouteForUserWithMatcher`: a mandatory route, or what the client asks for.
- `Confined`: neither leaves the user's nodes, and they agree where a mandatory route applies. `confined_iff` says when: the second
  function does not look at the nodes of a mandatory route.
-/
import Mathlib.Data.List.Lex
import Mathlib.Data.Prod.Lex
import NeProto.Cluster.State

namespace NeProto.Cluster

open List Route

/-! ## Matching -/

structure Target (Addr : Type) where
  domain : Str
  /-- none is an invalid address -/
  address : Option Addr
  port : ℕ
  protocol : NetworkProtocol

/-- `GeoMatchEvaluator` -/
abbrev GeoMatcher (Addr : Type) := RouteMatch → Target Addr → Bool

section Resolution

variable {Addr : Type} (P : Platform Addr)

def Route.matchesWith (route : Route) (target : Target Addr) (evaluateGeo : Option (GeoMatcher Addr)) : Bool :=
  if !route.enabled || target.port == 0 || !target.protocol.known then false
  else if !route.rule.protocols.isEmpty && !route.rule.protocols.contains target.protocol then false
  else if !route.rule.portRanges.isEmpty &&
      !(route.rule.portRanges.any fun ports => decide (ports.first ≤ target.port ∧ target.port ≤ ports.last)) then false
  else if route.rule.domainSuffixes.isEmpty && route.rule.cidrs.isEmpty && route.rule.geoIPCountries.isEmpty &&
      route.rule.geoSiteCategories.isEmpty then true
  else
    let domain := trimSuffix (P.toLower target.domain) dot
    (route.rule.domainSuffixes.any fun suffix => domain == suffix || (dot :: suffix).isSuffixOf domain) ||
      (target.address.any fun address => route.rule.cidrs.any fun raw =>
        (P.parsePrefix raw).any fun range => range.2 (P.unmap address)) ||
      evaluateGeo.any fun evaluate => evaluate route.rule target

/-- Go compares strings by their bytes -/
def Str.code (s : Str) : List ℕ := s.map UInt8.toNat

/-- the order of `EffectiveRoutes` -/
def Route.less (left right : Route) : Bool :=
  if left.mandatory != right.mandatory then left.mandatory
  else if left.priority != right.priority then decide (left.priority < right.priority)
  else decide (Str.code left.id < Str.code right.id)

def effectiveRoutes (adminRoutes localRoutes : List Route) (allowClientRoutes : Bool) : List Route :=
  let result := adminRoutes.filter (fun route => route.enabled && route.source == .admin) ++
    if allowClientRoutes then localRoutes.filter fun route => route.enabled && route.source == .client && !route.mandatory else []
  result.insertionSort fun left right => !right.less left

/-! ## Resolution -/

inductive ResolveError where
  | invalidState
  | clientRouteUnauthorized
deriving DecidableEq

/-- the user's entry -/
def State.accessOf (state : State) (userID : Str) : Option UserAccess := state.access.find? fun access => access.userID == userID

def resolveRouteForUserWithMatcher (state : State) (userID : Str) (target : Target Addr) (matcher : Option (GeoMatcher Addr)) :
    Except ResolveError (RouteAction × Str) :=
  if validateState P state ≠ .ok () || !validOpaqueID userID 128 then .error .invalidState
  else match state.accessOf userID with
    | none => .error .invalidState
    | some access =>
      match (effectiveRoutes state.routes [] false).find?
        fun route => access.allowedRouteIDs.contains route.id && route.matchesWith P target matcher with
      | some route =>
        if route.action.nodeIDs.all fun id => access.allowedNodeIDs.contains id then .ok (route.action, route.id)
        else .error .invalidState
      | none => .ok (⟨.current, []⟩, [])

structure ClientRouteRequest where
  version : ℤ
  routeID : Str
  action : RouteAction
deriving DecidableEq

def clientRouteVersion : ℤ := 1

/-- `ValidateClientRouteRequest`: a client cannot ask for a block -/
def validateClientRouteRequest (request : ClientRouteRequest) : Bool :=
  decide (request.version = clientRouteVersion) && validIdentifier request.routeID 64 &&
    match request.action.kind with
    | .node => decide (request.action.nodeIDs.length = 1) && request.action.nodeIDs.all fun id => validIdentifier id 64
    | .chain =>
      decide (2 ≤ request.action.nodeIDs.length ∧ request.action.nodeIDs.length ≤ maxRouteHops) &&
        !hasDuplicates request.action.nodeIDs && request.action.nodeIDs.all fun id => validIdentifier id 64
    | .current | .direct | .auto => decide (request.action.nodeIDs = [])
    | .block | .other _ => false

/-- the first mandatory route that the user may use and that matches -/
def mandatoryRoute (state : State) (access : UserAccess) (target : Target Addr) (matcher : Option (GeoMatcher Addr)) : Option Route :=
  (effectiveRoutes state.routes [] false).find?
    fun route => access.allowedRouteIDs.contains route.id && route.mandatory && route.matchesWith P target matcher

def resolveClientRouteForUserWithMatcher (state : State) (userID : Str) (target : Target Addr) (request : ClientRouteRequest)
    (matcher : Option (GeoMatcher Addr)) : Except ResolveError (RouteAction × Str) :=
  if validateState P state ≠ .ok () || !validateClientRouteRequest request || !validOpaqueID userID 128 then .error .invalidState
  else match state.accessOf userID with
    | none => .error .clientRouteUnauthorized
    | some access =>
      if !access.allowClientRoutes then .error .clientRouteUnauthorized
      else match mandatoryRoute P state access target matcher with
        | some route => .ok (route.action, route.id)
        | none =>
          if request.action.kind = .auto then resolveRouteForUserWithMatcher P state userID target matcher
          else if request.action.nodeIDs.all fun id => access.allowedNodeIDs.contains id then .ok (request.action, request.routeID)
          else .error .clientRouteUnauthorized

/-! ## The order of the routes -/

variable {P}

/-- the order of the routes as an order of keys -/
def Route.key (route : Route) : Bool ×ₗ ℤ ×ₗ List ℕ := toLex (!route.mandatory, toLex (route.priority, Str.code route.id))

variable {route : Route} {target : Target Addr} {matcher : Option (GeoMatcher Addr)}

theorem Route.less_iff (a b : Route) : a.less b = true ↔ a.key < b.key := by
  unfold less key
  rw [Prod.Lex.toLex_lt_toLex, Prod.Lex.toLex_lt_toLex]
  cases ha : a.mandatory <;> cases hb : b.mandatory <;> simp
  all_goals
    by_cases hp : a.priority = b.priority
    · simp [hp]
    · simp [hp]

theorem Route.not_less_iff (a b : Route) : (!b.less a) = true ↔ a.key ≤ b.key := by
  rw [Bool.not_eq_true', Bool.eq_false_iff, ne_eq, less_iff, not_lt]

theorem Route.key_mandatory {a b : Route} (h : a.key ≤ b.key) (hb : b.mandatory = true) : a.mandatory = true := by
  unfold key at h
  rw [Prod.Lex.toLex_le_toLex, hb] at h
  cases ha : a.mandatory with
  | true => rfl
  | false =>
    simp only [ha, Bool.not_false, Bool.not_true, reduceCtorEq, false_and, or_false] at h
    exact absurd h (by decide)

/-- no ordinary route comes before a mandatory one -/
theorem effectiveRoutes_mandatory_first (adminRoutes localRoutes : List Route) (allowClientRoutes : Bool) :
    (effectiveRoutes adminRoutes localRoutes allowClientRoutes).Pairwise fun a b => b.mandatory = true → a.mandatory = true := by
  have htotal : Std.Total fun a b : Route => (!b.less a) = true :=
    ⟨fun a b => by simp only [not_less_iff]; exact le_total _ _⟩
  have htrans : IsTrans Route fun a b : Route => (!b.less a) = true :=
    ⟨fun a b c => by simp only [not_less_iff]; exact le_trans⟩
  refine List.Pairwise.imp ?_ (pairwise_insertionSort (fun a b : Route => (!b.less a) = true) _)
  intro a b hab hb
  exact key_mandatory ((not_less_iff a b).mp hab) hb

theorem mem_effectiveRoutes {routes : List Route} :
    route ∈ effectiveRoutes routes [] false ↔ route ∈ routes ∧ route.enabled = true ∧ route.source = .admin := by
  simp [effectiveRoutes, mem_insertionSort]

/-- in such a list the first mandatory route that is wanted is the first that is wanted -/
theorem find_mandatory {wanted : Route → Bool} {routes : List Route}
    (hsorted : routes.Pairwise fun a b => b.mandatory = true → a.mandatory = true)
    (h : (routes.find? fun r => wanted r && r.mandatory) = some route) : routes.find? wanted = some route := by
  induction routes with
  | nil => cases h
  | cons a routes ih =>
    rw [pairwise_cons] at hsorted
    rw [find?_cons] at h ⊢
    cases hw : wanted a with
    | false =>
      simp only [hw, Bool.false_and] at h
      exact ih hsorted.2 h
    | true =>
      cases hm : a.mandatory with
      | true => simpa [hw, hm] using h
      | false =>
        simp only [hw, hm, Bool.and_false] at h
        have hmem := mem_of_find?_eq_some h
        have hroute : route.mandatory = true := by
          have := find?_some h
          simp only [Bool.and_eq_true] at this
          exact this.2
        exact absurd (hsorted.1 route hmem hroute) (by simp [hm])

/-! ## What the resolution returns -/

theorem validateRoute_action (h : validateRoute P route = true) : validAction route.action = true := by
  simp only [validateRoute, Bool.and_eq_true] at h
  exact h.2

theorem validateRoute_id (h : validateRoute P route = true) : validIdentifier route.id 64 = true := by
  simp only [validateRoute, Bool.and_eq_true] at h
  exact h.1.1.1.1.1.1

section

variable {request : ClientRouteRequest} (h : validateClientRouteRequest request = true)
include h

theorem validateClientRouteRequest_id : validIdentifier request.routeID 64 = true := by
  simp only [validateClientRouteRequest, Bool.and_eq_true] at h
  exact h.1.2

/-- a client's action is one that a route may have -/
theorem validateClientRouteRequest_action : validAction request.action = true := by
  simp only [validateClientRouteRequest, Bool.and_eq_true] at h
  obtain ⟨-, h⟩ := h
  unfold validAction
  cases hkind : request.action.kind <;> simp only [hkind, Bool.and_eq_true] at h ⊢
  case node => exact h.1
  case chain => exact h.1
  case block => cases h
  all_goals exact h

end

section Resolved

variable {state : State} {userID : Str} {access : UserAccess} {target : Target Addr} {matcher : Option (GeoMatcher Addr)}

variable {route : Route} {action : RouteAction} {routeID : Str}

theorem accessOf_eq (hvalid : Valid P state) (ha : access ∈ state.access) (hid : access.userID = userID) :
    state.accessOf userID = some access := by
  unfold State.accessOf
  cases h : state.access.find? fun access => access.userID == userID with
  | none =>
    have := find?_eq_none.mp h access ha
    simp [hid] at this
  | some other =>
    have hother : other.userID = userID := by simpa using find?_some h
    rw [hvalid.access_unique (mem_of_find?_eq_some h) ha (hother.trans hid.symm)]

theorem accessOf_some (h : state.accessOf userID = some access) : access ∈ state.access ∧ access.userID = userID :=
  ⟨mem_of_find?_eq_some h, by simpa using find?_some h⟩

theorem mandatoryRoute_some (h : mandatoryRoute P state access target matcher = some route) :
    ((effectiveRoutes state.routes [] false).find?
      fun route => access.allowedRouteIDs.contains route.id && route.matchesWith P target matcher) = some route := by
  refine find_mandatory (effectiveRoutes_mandatory_first _ _ _) ?_
  rw [← h]
  congr 1
  funext r
  cases access.allowedRouteIDs.contains r.id <;> cases r.mandatory <;> simp

section

variable (hstate : validateState P state = .ok ()) (hof : state.accessOf userID = some access)
include hstate hof

theorem accessOf_valid : validOpaqueID userID 128 = true := by
  obtain ⟨hmem, hid⟩ := accessOf_some hof
  exact hid ▸ (validateState_ok hstate).user access hmem

variable (h : mandatoryRoute P state access target matcher = some route)
include h

/-- with a mandatory route the answer depends on its nodes only -/
theorem resolveRoute_mandatory : resolveRouteForUserWithMatcher P state userID target matcher =
      if route.action.nodeIDs.all fun id => access.allowedNodeIDs.contains id then .ok (route.action, route.id)
      else .error .invalidState := by
  have huser := accessOf_valid hstate hof
  simp only [resolveRouteForUserWithMatcher, hstate, huser, hof, mandatoryRoute_some h, ne_eq, not_true_eq_false, decide_false,
    Bool.not_true, Bool.or_self, Bool.false_eq_true, if_false]

theorem resolveClientRoute_mandatory (request : ClientRouteRequest) :
    (resolveClientRouteForUserWithMatcher P state userID target request matcher).toOption =
      if access.allowClientRoutes && validateClientRouteRequest request then some (route.action, route.id) else none := by
  have huser := accessOf_valid hstate hof
  simp only [resolveClientRouteForUserWithMatcher, hstate, huser, hof, h, ne_eq, not_true_eq_false, decide_false, Bool.not_true,
    Bool.or_false, Bool.false_or]
  cases validateClientRouteRequest request <;> cases access.allowClientRoutes <;> rfl

end

section

variable (h : resolveRouteForUserWithMatcher P state userID target matcher = .ok (action, routeID))
include h

theorem resolveRoute_confined :
    ∃ access, state.accessOf userID = some access ∧ ∀ id ∈ action.nodeIDs, id ∈ access.allowedNodeIDs := by
  unfold resolveRouteForUserWithMatcher at h
  split at h
  · cases h
  split at h
  · cases h
  rename_i access hof
  refine ⟨access, hof, ?_⟩
  split at h
  · split at h
    · rename_i hall
      cases h
      simpa using hall
    · cases h
  · cases h
    exact nofun

omit h in
/-- the client's function leaves the user's nodes with a mandatory route only -/
theorem resolveClientRoute_confined {request : ClientRouteRequest}
    (h : resolveClientRouteForUserWithMatcher P state userID target request matcher = .ok (action, routeID)) :
    ∃ access, state.accessOf userID = some access ∧
      ((∃ route, mandatoryRoute P state access target matcher = some route) ∨ ∀ id ∈ action.nodeIDs, id ∈ access.allowedNodeIDs) := by
  unfold resolveClientRouteForUserWithMatcher at h
  split at h
  · cases h
  split at h
  · cases h
  rename_i access hof
  refine ⟨access, hof, ?_⟩
  split at h
  · cases h
  split at h
  · rename_i route hroute
    exact .inl ⟨route, hroute⟩
  split at h
  · obtain ⟨access', hof', hnodes⟩ := resolveRoute_confined h
    cases hof.symm.trans hof'
    exact .inr hnodes
  · split at h
    · rename_i hall
      cases h
      exact .inr (by simpa using hall)
    · cases h

variable (P state userID) in
/-- what is resolved is a well-formed action on nodes of the state -/
structure Resolved (action : RouteAction) (routeID : Str) : Prop where
  accepted : validateState P state = .ok ()
  user : validOpaqueID userID 128 = true
  wellFormed : validAction action = true
  known : ∀ id ∈ action.nodeIDs, id ∈ state.nodes.map (·.id)
  named : action.nodeIDs ≠ [] → validIdentifier routeID 64 = true

omit h in
/-- a route of the state can be resolved to -/
theorem Resolved.of_route (hstate : validateState P state = .ok ()) (huser : validOpaqueID userID 128 = true)
    (h : route ∈ effectiveRoutes state.routes [] false) : Resolved P state userID route.action route.id := by
  have hvalid := validateState_ok hstate
  have hmem := (mem_effectiveRoutes.mp h).1
  exact ⟨hstate, huser, validateRoute_action (hvalid.route route hmem), hvalid.route_nodes route hmem,
    fun _ => validateRoute_id (hvalid.route route hmem)⟩

theorem resolveRoute_resolved : Resolved P state userID action routeID := by
  unfold resolveRouteForUserWithMatcher at h
  split at h
  · cases h
  rename_i hchecks
  simp only [ne_eq, Bool.or_eq_true, decide_eq_true_eq, Bool.not_eq_true', not_or, not_not, Bool.not_eq_false] at hchecks
  obtain ⟨hstate, huser⟩ := hchecks
  split at h
  · cases h
  split at h
  · rename_i route hroute
    split at h
    · cases h
      exact .of_route hstate huser (mem_of_find?_eq_some hroute)
    · cases h
  · cases h
    exact ⟨hstate, huser, rfl, nofun, fun h => absurd rfl h⟩

end

theorem resolveClientRoute_resolved {request : ClientRouteRequest}
    (h : resolveClientRouteForUserWithMatcher P state userID target request matcher = .ok (action, routeID)) :
    Resolved P state userID action routeID ∧ validateClientRouteRequest request = true := by
  unfold resolveClientRouteForUserWithMatcher at h
  split at h
  · cases h
  rename_i hchecks
  simp only [ne_eq, Bool.or_eq_true, decide_eq_true_eq, Bool.not_eq_true', not_or, not_not, Bool.not_eq_false] at hchecks
  obtain ⟨⟨hstate, hrequest⟩, huser⟩ := hchecks
  refine ⟨?_, hrequest⟩
  split at h
  · cases h
  rename_i access hof
  split at h
  · cases h
  split at h
  · rename_i route hroute
    cases h
    exact .of_route hstate huser (mem_of_find?_eq_some hroute)
  split at h
  · exact resolveRoute_resolved h
  split at h
  · rename_i hall
    cases h
    have hnodes : ∀ id ∈ request.action.nodeIDs, id ∈ access.allowedNodeIDs := by simpa using hall
    exact ⟨hstate, huser, validateClientRouteRequest_action hrequest,
      fun id hid => (validateState_ok hstate).access_nodes access (accessOf_some hof).1 id (hnodes id hid),
      fun _ => validateClientRouteRequest_id hrequest⟩
  · cases h

end Resolved

/-! ## Confinement -/

variable (P) in
/-- no node outside the user's set is returned, and a mandatory route that the user may use decides for both functions -/
structure Confined (state : State) (userID : Str) (target : Target Addr) (matcher : Option (GeoMatcher Addr))
    (request : ClientRouteRequest) : Prop where
  route : ∀ action routeID, resolveRouteForUserWithMatcher P state userID target matcher = .ok (action, routeID) →
    ∀ access ∈ state.access, access.userID = userID → ∀ id ∈ action.nodeIDs, id ∈ access.allowedNodeIDs
  clientRoute : ∀ action routeID, resolveClientRouteForUserWithMatcher P state userID target request matcher = .ok (action, routeID) →
    ∀ access ∈ state.access, access.userID = userID → ∀ id ∈ action.nodeIDs, id ∈ access.allowedNodeIDs
  mandatory : ∀ access ∈ state.access, access.userID = userID → ∀ route ∈ state.routes, route.source = .admin → route.mandatory = true →
    route.id ∈ access.allowedRouteIDs → route.matchesWith P target matcher = true →
    (resolveRouteForUserWithMatcher P state userID target matcher).toOption =
      (resolveClientRouteForUserWithMatcher P state userID target request matcher).toOption

theorem matchesWith_enabled (h : route.matchesWith P target matcher = true) : route.enabled = true := by
  unfold matchesWith at h
  cases he : route.enabled with
  | true => rfl
  | false => simp [he] at h

/-- a mandatory route that the user may use and that matches is found, or an earlier one is -/
theorem exists_mandatoryRoute {state : State} {access : UserAccess}
    (hmem : route ∈ state.routes) (hsource : route.source = .admin) (hmandatory : route.mandatory = true)
    (hallowed : route.id ∈ access.allowedRouteIDs) (hmatch : route.matchesWith P target matcher = true) :
    ∃ first, mandatoryRoute P state access target matcher = some first := by
  cases hfirst : mandatoryRoute P state access target matcher with
  | some first => exact ⟨first, rfl⟩
  | none =>
    have hnone := find?_eq_none.mp hfirst route (mem_effectiveRoutes.mpr ⟨hmem, matchesWith_enabled hmatch, hsource⟩)
    simp [hallowed, hmandatory, hmatch] at hnone

/-- what `mandatoryRoute` finds is such a route -/
theorem mandatoryRoute_mem {state : State} {access : UserAccess}
    (h : mandatoryRoute P state access target matcher = some route) :
    route ∈ state.routes ∧ route.source = .admin ∧ route.mandatory = true ∧ route.id ∈ access.allowedRouteIDs ∧
      route.matchesWith P target matcher = true := by
  obtain ⟨hmem, -, hsource⟩ := mem_effectiveRoutes.mp (mem_of_find?_eq_some h)
  have hp := find?_some h
  simp only [Bool.and_eq_true, contains_iff_mem] at hp
  exact ⟨hmem, hsource, hp.1.2, hp.1.1, hp.2⟩

/-- **Routing stays in the user's node set exactly when** the first mandatory route that applies to a user lies in the user's node set
if and only if the user may send client routes and sends a well-formed one. -/
theorem confined_iff (P : Platform Addr) (state : State) (hstate : validateState P state = .ok ()) (userID : Str) (target : Target Addr)
    (matcher : Option (GeoMatcher Addr)) (request : ClientRouteRequest) :
    Confined P state userID target matcher request ↔
      ∀ access ∈ state.access, access.userID = userID → ∀ route, mandatoryRoute P state access target matcher = some route →
        ((∀ id ∈ route.action.nodeIDs, id ∈ access.allowedNodeIDs) ↔
          access.allowClientRoutes = true ∧ validateClientRouteRequest request = true) := by
  have hvalid := validateState_ok hstate
  constructor
  · intro h access ha hid route hroute
    have hof := accessOf_eq hvalid ha hid
    obtain ⟨hmem, hsource, hmandatory, hallowed, hmatch⟩ := mandatoryRoute_mem hroute
    have hsame := h.mandatory access ha hid route hmem hsource hmandatory hallowed hmatch
    rw [resolveRoute_mandatory hstate hof hroute, resolveClientRoute_mandatory hstate hof hroute] at hsame
    have hall : (route.action.nodeIDs.all fun id => access.allowedNodeIDs.contains id) = true ↔
        ∀ id ∈ route.action.nodeIDs, id ∈ access.allowedNodeIDs := by simp
    rw [← hall, ← Bool.and_eq_true]
    split_ifs at hsame with h₁ h₂ h₂
    · exact ⟨fun _ => h₂, fun _ => h₁⟩
    · cases hsame
    · cases hsame
    · exact ⟨fun h => absurd h h₁, fun h => absurd h h₂⟩
  · intro h
    refine ⟨fun action routeID hok access ha hid => ?_, fun action routeID hok access ha hid => ?_,
      fun access ha hid route hmem hsource hmandatory hallowed hmatch => ?_⟩
    · obtain ⟨access', hof, hnodes⟩ := resolveRoute_confined hok
      cases (accessOf_eq hvalid ha hid).symm.trans hof
      exact hnodes
    · have hof := accessOf_eq hvalid ha hid
      obtain ⟨access', hof', hnodes⟩ := resolveClientRoute_confined hok
      cases hof.symm.trans hof'
      rcases hnodes with ⟨route, hroute⟩ | hnodes
      · have hclient := resolveClientRoute_mandatory hstate hof hroute request
        rw [hok] at hclient
        split_ifs at hclient with hmay
        · cases hclient
          exact (h access ha hid route hroute).mpr (by simpa using hmay)
        · cases hclient
      · exact hnodes
    · obtain ⟨first, hfirst⟩ := exists_mandatoryRoute hmem hsource hmandatory hallowed hmatch
      have hof := accessOf_eq hvalid ha hid
      rw [resolveRoute_mandatory hstate hof hfirst, resolveClientRoute_mandatory hstate hof hfirst]
      have hiff := h access ha hid first hfirst
      have hall : (first.action.nodeIDs.all fun id => access.allowedNodeIDs.contains id) = true ↔
          (access.allowClientRoutes && validateClientRouteRequest request) = true := by
        rw [Bool.and_eq_true, ← hiff]
        simp
      by_cases hmay : (access.allowClientRoutes && validateClientRouteRequest request) = true
      · rw [if_pos (hall.mpr hmay), if_pos hmay]
        rfl
      · rw [if_neg fun h => hmay (hall.mp h), if_neg hmay]
        rfl

end Resolution

/-! ## Runs -/

/-- a master and an edge -/
def twoNodes (routes : List Route) (access : List UserAccess) : State where
  version := 1
  clusterID := ascii "c1"
  revision := 1
  nodes :=
    [⟨ascii "hub", ascii "Hub", ascii "eu", [.master], ascii "hub.example", [ascii "192.0.2.1"], ascii "192.0.2.1:443", true,
        ascii "peer-hub", ascii "SHA256:aa", 1, 1⟩,
      ⟨ascii "edge", ascii "Edge", ascii "eu", [.ingress, .egress], ascii "edge.example", [ascii "192.0.2.2"], ascii "192.0.2.2:443",
        true, ascii "peer-edge", ascii "SHA256:bb", 1, 1⟩]
  routes := routes
  access := access
  updatedAt := 1

/-- everything through the edge -/
def throughEdge (mandatory : Bool) : Route where
  id := ascii "via-edge"
  name := ascii "Via edge"
  priority := 10
  enabled := true
  source := .admin
  mandatory := mandatory
  rule := ⟨[], [], [], [], [], []⟩
  action := ⟨.node, [ascii "edge"]⟩

/-- a user with these nodes and the route through the edge -/
def userOf (nodes : List Str) : UserAccess := ⟨ascii "alice", nodes, [ascii "via-edge"], true, 1⟩

def httpsTarget : Target (List ℕ) := ⟨ascii "example.com", none, 443, .tcp⟩

def askCurrent : ClientRouteRequest := ⟨1, ascii "mine", ⟨.current, []⟩⟩

/-- the mandatory route through the edge, and a user with the node -/
def edgeState (node : Str) : State := twoNodes [throughEdge true] [userOf [node]]

theorem confined_edge : validateState asciiPlatform (edgeState (ascii "edge")) = .ok () ∧
    Confined asciiPlatform (edgeState (ascii "edge")) (ascii "alice") httpsTarget none askCurrent := by
  have hstate : validateState asciiPlatform (edgeState (ascii "edge")) = .ok () := by decide
  refine ⟨hstate, (confined_iff _ _ hstate _ _ _ _).mpr ?_⟩
  decide

/-- **A mandatory route leads a client out of its node set.** The user has no node but the hub; the mandatory route through the edge
is refused without a client route and taken with one. -/
theorem mandatory_route_unconfined :
    ¬∀ (P : Platform (List ℕ)) (state : State), validateState P state = .ok () → ∀ userID target matcher request,
      Confined P state userID target matcher request := by
  intro h
  have hstate : validateState asciiPlatform (edgeState (ascii "hub")) = .ok () := by decide
  have hedge := (h asciiPlatform _ hstate (ascii "alice") httpsTarget none askCurrent).clientRoute ⟨.node, [ascii "edge"]⟩
    (ascii "via-edge") (by decide) (userOf [ascii "hub"]) (by decide) rfl (ascii "edge") (by decide)
  exact absurd hedge (by decide)

end NeProto.Cluster
