/-
Explicit routes in a star of nodes (`internal/clusterrelay/runtime.go`): every node loads one accepted state, and two nodes have a
session if one of them is the master.

- `Runtime.enter`: what `RouteTCP` and its siblings do at the ingress.
- `Star`: the nodes, their peers and their credentials; `Star.send` follows a flow to its dial.
- `Star.expected`: what a route with these nodes stands for. The nodes are visited in order, with the master between two edges.
- `delivered_iff`: when a flow goes that way. A node forwards to the next one as if they had a session, so a path is delivered only if
  it has one edge after the ingress, with or without the master before it.
-/
import NeProto.Cluster.Relay

namespace NeProto.Cluster

open List Cluster.Runtime

/-! ## The ingress -/

namespace Runtime

variable {Addr : Type} (P : Platform Addr) (runtime : Runtime Addr)

/-- `newRequest` -/
def newRequest (routeID userID host : Str) (port : ℕ) (protocol : NetworkProtocol) (visited : List Str) (traceID : Str)
    (clientRoute : Option ClientRouteRequest) : RelayRequest where
  version := relayVersion
  routeID := routeID
  userID := userID
  remainingHops := 1
  visitedNodeIDs := visited
  remainingNodeIDs := []
  traceID := traceID
  targetHost := host
  targetPort := port
  protocol := protocol
  clientRoute := clientRoute

section

variable (userID host : Str) (port : ℕ)

/-- the action for a flow of a user, with or without a client route -/
def resolveFlow (protocol : NetworkProtocol)
    (clientRoute : Option ClientRouteRequest) : Except RuntimeError (RouteAction × Str) :=
  match clientRoute with
  | some request => runtime.resolveClient P userID host port protocol request
  | none => runtime.resolve P userID host port protocol

/-- `route` and, with a client route, `routeClient`; none is "not handled" -/
def enter (protocol : NetworkProtocol)
    (clientRoute : Option ClientRouteRequest) : Except RuntimeError (Option Effect) :=
  if userID = [] ∨ (host = [] ∧ port = 0) ∨ clientRoute.all validateClientRouteRequest = false then .error .invalidConfig
  else if runtime.validate = false then .error .invalidConfig
  else if (runtime.peerPrincipals.lookup userID).isSome then .error .relayUnauthorized
  else if runtime.nodeID ≠ runtime.masterNodeID ∧ runtime.loadState.isNone then
    match runtime.traceID with
    | none => .error .random
    | some traceID =>
      .ok (some (.openPeer runtime.masterNodeID
        (newRequest resolveRouteID userID host port protocol [runtime.nodeID] traceID clientRoute)))
  else match runtime.resolveFlow P userID host port protocol clientRoute with
    | .error e => .error e
    | .ok (action, routeID) => runtime.applyAction action routeID userID host port protocol [] []

def routeTCP := runtime.enter P userID host port .tcp none

def routeUDP := runtime.enter P userID host port .udp none

def routeClientTCP (request : ClientRouteRequest) := runtime.enter P userID host port .tcp (some request)

def routeClientUDP (request : ClientRouteRequest) := runtime.enter P userID host port .udp (some request)

end

end Runtime

/-- the four entry points -/
inductive Call where
  | tcp
  | udp
  | clientTCP (request : ClientRouteRequest)
  | clientUDP (request : ClientRouteRequest)

def Call.protocol : Call → NetworkProtocol
  | .tcp | .clientTCP _ => .tcp
  | .udp | .clientUDP _ => .udp

def Call.clientRoute : Call → Option ClientRouteRequest
  | .tcp | .udp => none
  | .clientTCP request | .clientUDP request => some request

def Runtime.call {Addr : Type} (P : Platform Addr) (runtime : Runtime Addr) (userID host : Str) (port : ℕ) :
    Call → Except RuntimeError (Option Effect)
  | .tcp => runtime.routeTCP P userID host port
  | .udp => runtime.routeUDP P userID host port
  | .clientTCP request => runtime.routeClientTCP P userID host port request
  | .clientUDP request => runtime.routeClientUDP P userID host port request

theorem Runtime.call_eq {Addr : Type} (P : Platform Addr) (runtime : Runtime Addr) (userID host : Str) (port : ℕ) (call : Call) :
    runtime.call P userID host port call = runtime.enter P userID host port call.protocol call.clientRoute := by
  cases call <;> rfl

theorem Call.protocol_known (call : Call) : call.protocol.known = true := by cases call <;> rfl

/-! ## The star -/

/-- one runtime per node, all with the same accepted state; two nodes know each other if one of them is the master -/
structure Star {Addr : Type} (P : Platform Addr) where
  state : State
  accepted : validateState P state = .ok ()
  master : Str
  master_mem : ∃ node ∈ state.nodes, node.id = master ∧ NodeRole.master ∈ node.roles
  runtime : Str → Runtime Addr
  credentialID : Str → Str
  nodeID_eq : ∀ id, (runtime id).nodeID = id
  masterNodeID_eq : ∀ id, (runtime id).masterNodeID = master
  loadState_eq : ∀ id, (runtime id).loadState = some (some state)
  valid : ∀ id ∈ state.nodes.map (·.id), (runtime id).validate = true
  random : ∀ id, (runtime id).random.isSome = true
  peers : ∀ a ∈ state.nodes.map (·.id), ∀ b ∈ state.nodes.map (·.id), a ≠ b → a = master ∨ b = master →
    (runtime b).peerPrincipals.lookup (credentialID a) = some a

/-- the dial at the end of a flow -/
structure Dial where
  nodeID : Str
  host : Str
  port : ℕ
  protocol : NetworkProtocol
deriving DecidableEq

namespace Star

variable {Addr : Type} {P : Platform Addr} (S : Star P)

/-- the IDs of the nodes -/
def ids : List Str := S.state.nodes.map (·.id)

/-- there is a session between the two -/
def Linked (a b : Str) : Prop := a = S.master ∨ b = S.master

instance (a b : Str) : Decidable (S.Linked a b) := inferInstanceAs (Decidable (_ ∨ _))

/-- `OpenPeer` from `a` to `b` and what follows: the nodes that relay and the dial. A node is added to the visited ones at each step,
so the bound is not reached (`journey_bound`). -/
def journey : ℕ → Str → Str → RelayRequest → List Str × Except RuntimeError Dial
  | 0, _, _, _ => ([], .error .peerUnavailable)
  | bound + 1, a, b, request =>
    if ¬S.Linked a b then ([], .error .peerUnavailable)
    else match (S.runtime b).handleRelay P (S.credentialID a) request with
      | .error e => ([], .error e)
      | .ok (.dial host port protocol) => ([b], .ok ⟨b, host, port, protocol⟩)
      | .ok (.openPeer next forward) =>
        let rest := journey bound b next forward
        (b :: rest.1, rest.2)

/-- a flow that enters at `ingress`: the nodes it goes through and its dial, none if the ingress is left to dial -/
def send (ingress userID host : Str) (port : ℕ) (call : Call) : List Str × Except RuntimeError (Option Dial) :=
  match (S.runtime ingress).call P userID host port call with
  | .error e => ([], .error e)
  | .ok none => ([], .ok none)
  | .ok (some (.dial host port protocol)) => ([], .ok (some ⟨ingress, host, port, protocol⟩))
  | .ok (some (.openPeer next request)) =>
    let rest := S.journey (maxRouteHops + 1) ingress next request
    (rest.1, rest.2.map some)

/-- a path with the master between two edges -/
def insertMaster (master : Str) : Str → List Str → List Str
  | _, [] => []
  | a, b :: rest => if a ≠ master ∧ b ≠ master then master :: b :: insertMaster master b rest else b :: insertMaster master b rest

/-- what a route with these nodes stands for -/
def expected (ingress host : Str) (port : ℕ) (call : Call) (nodeIDs : List Str) : List Str × Except RuntimeError (Option Dial) :=
  let path := nodeIDs.dropWhile (· == ingress)
  (insertMaster S.master ingress path, .ok (path.getLast?.map fun id => ⟨id, host, port, call.protocol⟩))

/-- when a flow is delivered. A path has at most one edge after the ingress, with or without the master before it. The ID that asks the
master to resolve is a route ID like any other, and then the master decides again. -/
def Deliverable (ingress userID host : Str) (port : ℕ) (call : Call) (action : RouteAction) (routeID : Str) : Prop :=
  let path := action.nodeIDs.dropWhile (· == ingress)
  ¬(host = [] ∧ port = 0) ∧ (S.runtime ingress).peerPrincipals.lookup userID = none ∧
    (path = [] ∨ (port ≠ 0 ∧ validRelayHost P host = true ∧
      (routeID ≠ resolveRouteID ∧ ((∃ x, path = [x]) ∨ (ingress ≠ S.master ∧ ∃ x, x ≠ ingress ∧ path = [S.master, x])) ∨
        routeID = resolveRouteID ∧ ingress ≠ S.master ∧ ∃ action' routeID',
          (S.runtime S.master).resolve P userID host port call.protocol = .ok (action', routeID') ∧ action'.kind ≠ .block ∧
          (path = [S.master] ∧ action'.nodeIDs.dropWhile (· == S.master) = [] ∨
            ∃ x, x ≠ ingress ∧ (path = [x] ∨ path = [S.master, x]) ∧ action'.nodeIDs.dropWhile (· == S.master) = [x] ∧
              routeID' ≠ resolveRouteID))))

variable {S}

/-! ## One hop -/

variable {a b master : Str} {request : RelayRequest} {path : List Str}

theorem mem_ids_valid {id : Str} (h : id ∈ S.ids) : validIdentifier id 64 = true := by
  obtain ⟨node, hmem, rfl⟩ := mem_map.mp h
  have := (validateState_ok S.accepted).node node hmem
  simp only [validateNode, Bool.and_eq_true] at this
  exact this.1.1.1.1.1.1.1.1.1.1.1

theorem master_mem_ids : S.master ∈ S.ids := by
  obtain ⟨node, hmem, hid, -⟩ := S.master_mem
  exact mem_map.mpr ⟨node, hmem, hid⟩

theorem master_nodeID : (S.runtime S.master).nodeID = (S.runtime S.master).masterNodeID := by rw [S.nodeID_eq, S.masterNodeID_eq]

/-- a node of the star admits what it accepts from the last visited node -/
theorem admits_of_accepted (ha : a ∈ S.ids) (hb : b ∈ S.ids) (hlink : S.Linked a b)
    (hlast : request.visitedNodeIDs.getLast? = some a) (h : Accepted P request b) :
    (S.runtime b).Admits P (S.credentialID a) request := by
  have hab : a ≠ b := by
    rintro rfl
    exact h.not_visited (mem_append_left _ (mem_of_getLast? hlast))
  refine ⟨S.valid b hb, ?_, ?_⟩
  · simp only [authorized, S.peers a ha b hb hab hlink, hlast, beq_self_eq_true]
  · rw [S.nodeID_eq, validateRelayRequest_iff]
    exact h

theorem journey_admitted {bound : ℕ} (hlink : S.Linked a b) (h : (S.runtime b).Admits P (S.credentialID a) request) :
    S.journey (bound + 1) a b request = match (S.runtime b).handleAccepted P request with
      | .error e => ([], .error e)
      | .ok (.dial host port protocol) => ([b], .ok ⟨b, host, port, protocol⟩)
      | .ok (.openPeer next forward) => (b :: (S.journey bound b next forward).1, (S.journey bound b next forward).2) := by
  rw [journey, if_neg (not_not.mpr hlink), handleRelay_admitted h]

/-- a journey that ends in a dial starts with a session and an accepted request -/
theorem journey_ok {bound : ℕ} {dial : Dial} (h : (S.journey bound a b request).2 = .ok dial) :
    ∃ rest, bound = rest + 1 ∧ S.Linked a b ∧ (S.runtime b).Admits P (S.credentialID a) request ∧ Accepted P request b := by
  cases bound with
  | zero => cases h
  | succ rest =>
    by_cases hlink : S.Linked a b
    · by_cases hadmits : (S.runtime b).Admits P (S.credentialID a) request
      · refine ⟨rest, rfl, hlink, hadmits, ?_⟩
        have := (validateRelayRequest_iff _ _).mp hadmits.2.2
        rwa [S.nodeID_eq] at this
      · obtain ⟨e, he⟩ := handleRelay_refused hadmits
        rw [journey, if_neg (not_not.mpr hlink), he] at h
        cases h
    · rw [journey, if_pos hlink] at h
      cases h

/-- four rounds are enough: a node is visited at each, and a request with more than three visited nodes is refused -/
theorem journey_bound (bound : ℕ) : ∀ (a b : Str) (request : RelayRequest),
    0 < bound → maxRouteHops + 2 ≤ bound + request.visitedNodeIDs.length →
      S.journey (bound + 1) a b request = S.journey bound a b request := by
  induction bound with
  | zero => intro a b request h; exact absurd h (lt_irrefl 0)
  | succ bound ih =>
    intro a b request _ hbound
    by_cases hlink : S.Linked a b
    · by_cases hadmits : (S.runtime b).Admits P (S.credentialID a) request
      · rw [journey_admitted hlink hadmits, journey_admitted hlink hadmits]
        cases heffect : (S.runtime b).handleAccepted P request with
        | error e => rfl
        | ok effect =>
          cases effect with
          | dial host port protocol => rfl
          | openPeer next forward =>
            have hvisited := handleAccepted_visited heffect
            have haccepted := (validateRelayRequest_iff _ _).mp hadmits.2.2
            have hlength := haccepted.visited_le
            have hforward : forward.visitedNodeIDs.length = request.visitedNodeIDs.length + 1 := by simp [hvisited]
            dsimp only
            rw [ih b next forward (by omega) (by omega)]
      · obtain ⟨e, he⟩ := handleRelay_refused hadmits
        rw [journey, journey, he]
    · rw [journey, journey, if_pos hlink, if_pos hlink]

/-! ## An explicit path -/

/-- a request for an explicit path that ends in a dial has gone along that path -/
theorem walk_sound {rest : List Str} : ∀ {bound : ℕ} {a b : Str} {request : RelayRequest} {dial : Dial},
    request.routeID ≠ resolveRouteID → request.remainingNodeIDs = rest → (S.journey bound a b request).2 = .ok dial →
      (a :: b :: rest).IsChain S.Linked ∧ (request.visitedNodeIDs ++ b :: rest).Nodup ∧
        (S.journey bound a b request).1 = b :: rest := by
  induction rest with
  | nil =>
    intro bound a b request dial hid hrest h
    obtain ⟨bound, rfl, hlink, hadmits, haccepted⟩ := journey_ok h
    have hpath := haccepted.path
    have hnew := haccepted.not_visited
    rw [hrest] at hpath hnew
    rw [journey_admitted hlink hadmits, handleAccepted, if_neg hid, hrest,
      dialTerminal_known haccepted.protocol_known]
    refine ⟨isChain_cons_cons.mpr ⟨hlink, isChain_singleton _⟩, ?_, rfl⟩
    exact nodup_middle.mpr (nodup_cons.mpr ⟨by simpa using hnew, by simpa using hpath⟩)
  | cons next rest ih =>
    intro bound a b request dial hid hrest h
    obtain ⟨bound, rfl, hlink, hadmits, haccepted⟩ := journey_ok h
    rw [journey_admitted hlink hadmits, handleAccepted, if_neg hid, hrest] at h ⊢
    obtain ⟨hchain, -, hnodes⟩ := ih (by exact hid) rfl h
    refine ⟨isChain_cons_cons.mpr ⟨hlink, hchain⟩, ?_, congrArg _ hnodes⟩
    have hpath := haccepted.path
    have hnew := haccepted.not_visited
    rw [hrest] at hpath hnew
    exact nodup_middle.mpr (nodup_cons.mpr ⟨hnew, hpath⟩)

variable (P) in
/-- what the nodes of the path do not change in a request -/
structure WellFormed (request : RelayRequest) : Prop where
  version : request.version = relayVersion
  routeID : validIdentifier request.routeID 64 = true
  user : validOpaqueID request.userID 128 = true
  port : request.targetPort ≠ 0
  protocol : request.protocol.known = true
  trace : request.traceID.length = 16
  clientRoute : request.clientRoute = none
  host : validRelayHost P request.targetHost = true

/-- a well-formed request is accepted off its path -/
theorem WellFormed.accepted (h : WellFormed P request) (hb : b ∈ S.ids)
    (hhops : request.remainingHops = request.remainingNodeIDs.length + 1) (hfew : request.remainingHops ≤ maxRouteHops)
    (hvisited : request.visitedNodeIDs.length ≤ maxRouteHops)
    (hids : ∀ id ∈ request.visitedNodeIDs ++ request.remainingNodeIDs, id ∈ S.ids)
    (hpath : (request.visitedNodeIDs ++ b :: request.remainingNodeIDs).Nodup) : Accepted P request b := by
  obtain ⟨hnew, hnodup⟩ := nodup_cons.mp (nodup_middle.mp hpath)
  refine ⟨?_, hhops, hfew, hnodup, fun id hid => ⟨mem_ids_valid (hids id hid), fun heq => hnew (heq ▸ hid)⟩, h.host⟩
  have hremaining : request.remainingNodeIDs.length ≤ maxRouteHops := by omega
  simp [validRelayHeader, h.version, h.routeID, h.user, mem_ids_valid hb, h.port, h.protocol, h.trace, hvisited, hremaining,
    h.clientRoute]

/-- a node of the path admits a well-formed request -/
theorem WellFormed.admits {rest : List Str} (h : WellFormed P request) (hrest : request.remainingNodeIDs = rest)
    (hhops : request.remainingHops = rest.length + 1) (hlength : request.visitedNodeIDs.length + rest.length ≤ maxRouteHops)
    (hlast : request.visitedNodeIDs.getLast? = some a) (hids : ∀ id ∈ request.visitedNodeIDs ++ b :: rest, id ∈ S.ids)
    (hpath : (request.visitedNodeIDs ++ b :: rest).Nodup) (hlink : S.Linked a b) :
    (S.runtime b).Admits P (S.credentialID a) request := by
  subst hrest
  have hb : b ∈ S.ids := hids b (by simp)
  have hpos := length_pos_iff.mpr fun hnil : request.visitedNodeIDs = [] => by simp [hnil] at hlast
  refine admits_of_accepted (hids a (mem_append_left _ (mem_of_getLast? hlast))) hb hlink hlast ?_
  exact h.accepted hb hhops (by omega) (by omega) (fun id h => hids id (by simp only [mem_append, mem_cons] at h ⊢; tauto)) hpath

/-- a well-formed request goes along its path if there is a session at each step -/
theorem walk_ok (rest : List Str) : ∀ (bound : ℕ) (a b : Str) (request : RelayRequest), WellFormed P request →
    request.routeID ≠ resolveRouteID → request.remainingNodeIDs = rest → request.remainingHops = rest.length + 1 → rest.length < bound →
    request.visitedNodeIDs.length + rest.length ≤ maxRouteHops → request.visitedNodeIDs.getLast? = some a →
    (∀ id ∈ request.visitedNodeIDs ++ b :: rest, id ∈ S.ids) → (request.visitedNodeIDs ++ b :: rest).Nodup →
    (a :: b :: rest).IsChain S.Linked →
      S.journey bound a b request =
        (b :: rest, .ok ⟨(b :: rest).getLast (cons_ne_nil b rest), request.targetHost, request.targetPort, request.protocol⟩) := by
  induction rest with
  | nil =>
    intro bound a b request hformed hid hrest hhops hbound hlength hlast hids hpath hchain
    obtain ⟨bound, rfl⟩ := Nat.exists_eq_add_one.mpr hbound
    have hlink := (isChain_cons_cons.mp hchain).1
    rw [journey_admitted hlink (hformed.admits hrest hhops hlength hlast hids hpath hlink), handleAccepted, if_neg hid,
      hrest, dialTerminal_known hformed.protocol]
    rfl
  | cons next rest ih =>
    intro bound a b request hformed hid hrest hhops hbound hlength hlast hids hpath hchain
    obtain ⟨bound, rfl⟩ := Nat.exists_eq_add_one.mpr (Nat.zero_lt_of_lt hbound)
    obtain ⟨hlink, hchain⟩ := isChain_cons_cons.mp hchain
    have hadmits := hformed.admits hrest hhops hlength hlast hids hpath hlink
    rw [length_cons] at hbound hlength
    have happend : request.visitedNodeIDs ++ [b] ++ next :: rest = request.visitedNodeIDs ++ b :: next :: rest := by simp
    rw [journey_admitted hlink hadmits, handleAccepted, if_neg hid, hrest]
    dsimp only
    rw [S.nodeID_eq]
    have hrun := ih bound b next (request.forward b rest)
      ⟨hformed.version, hformed.routeID, hformed.user, hformed.port, hformed.protocol, hformed.trace,
        hformed.clientRoute, hformed.host⟩
      hid rfl rfl (by omega) (by simp only [RelayRequest.forward, length_append, length_singleton]; omega)
      (by simp [RelayRequest.forward]) (by rw [RelayRequest.forward, happend]; exact hids)
      (by rw [RelayRequest.forward, happend]; exact hpath) hchain
    rw [hrun]
    rfl

/-! ## Paths in a star -/

/-- a path with a session at each step and no node twice has one edge at its end, after the master or not -/
theorem chain_short {rest : List Str} (hchain : (a :: b :: rest).IsChain S.Linked) (hnodup : (a :: b :: rest).Nodup) :
    rest = [] ∨ (b = S.master ∧ ∃ x, rest = [x]) := by
  cases rest with
  | nil => exact .inl rfl
  | cons x rest =>
    obtain ⟨hab, hchain⟩ := isChain_cons_cons.mp hchain
    obtain ⟨hbx, hchain⟩ := isChain_cons_cons.mp hchain
    simp only [nodup_cons, mem_cons, not_or] at hnodup
    obtain ⟨⟨-, hax, -⟩, ⟨hbx', hbrest⟩, -⟩ := hnodup
    have hb : b = S.master := by
      rcases hab with ha | hb
      · rcases hbx with hb | hx
        · exact hb
        · exact absurd (ha.trans hx.symm) hax
      · exact hb
    refine .inr ⟨hb, x, ?_⟩
    cases rest with
    | nil => rfl
    | cons y rest =>
      rcases (isChain_cons_cons.mp hchain).1 with hx | hy
      · exact absurd (hb.trans hx.symm) hbx'
      · exact absurd (hb.trans hy.symm) fun h => hbrest (h ▸ mem_cons_self)

theorem insertMaster_nil (h : insertMaster master a path = []) : path = [] := by
  cases path with
  | nil => rfl
  | cons b rest =>
    rw [insertMaster] at h
    split_ifs at h

/-- only the path to the master goes to the master alone -/
theorem insertMaster_master (ha : a ≠ master) (h : insertMaster master a path = [master]) : path = [master] := by
  cases path with
  | nil => cases h
  | cons b rest =>
    rw [insertMaster] at h
    split_ifs at h with hb
    · cases (cons.inj h).2
    · obtain ⟨rfl, hrest⟩ := cons.inj h
      rw [insertMaster_nil hrest]

/-- two paths go to one edge through the master -/
theorem insertMaster_edge {x : Str} (ha : a ≠ master) (h : insertMaster master a path = [master, x]) :
    path = [x] ∨ path = [master, x] := by
  cases path with
  | nil => cases h
  | cons b rest =>
    rw [insertMaster] at h
    split_ifs at h with hb
    · obtain ⟨rfl, hrest⟩ := cons.inj (cons.inj h).2
      rw [insertMaster_nil hrest]
      exact .inl rfl
    obtain ⟨rfl, hrest⟩ := cons.inj h
    cases rest with
    | nil => cases hrest
    | cons c rest =>
      rw [insertMaster, if_neg fun h => h.1 rfl] at hrest
      obtain ⟨rfl, hnil⟩ := cons.inj hrest
      rw [insertMaster_nil hnil]
      exact .inr rfl

/-! ## The ingress of a star -/

/-- the request of an ingress for the nodes after its next hop -/
def startRequest (ingress : Str) (rest : List Str) (routeID userID host : Str) (port : ℕ) (protocol : NetworkProtocol) (trace : Str) :
    RelayRequest where
  version := relayVersion
  routeID := routeID
  userID := userID
  remainingHops := rest.length + 1
  visitedNodeIDs := [ingress]
  remainingNodeIDs := rest
  traceID := trace
  targetHost := host
  targetPort := port
  protocol := protocol
  clientRoute := none

section Flow

variable {ingress userID host : Str} {port : ℕ} {call : Call} {action : RouteAction} {routeID : Str}

variable {path rest : List Str} {x id next trace routeID' : Str} {bound : ℕ} {dial : Dial} {request : RelayRequest}
  {action' : RouteAction}

theorem traceID_some (id : Str) : ∃ trace, (S.runtime id).traceID = some trace ∧ trace.length = 16 := by
  obtain ⟨raw, hraw⟩ := Option.isSome_iff_exists.mp (S.random id)
  refine ⟨_, by rw [traceID, hraw]; rfl, ?_⟩
  simp

section

variable (hingress : ingress ∈ S.ids)
  (hflow : (S.runtime ingress).resolveFlow P userID host port call.protocol call.clientRoute = .ok (action, routeID))
  (hblock : action.kind ≠ .block) (htarget : ¬(host = [] ∧ port = 0)) (hpeer : (S.runtime ingress).peerPrincipals.lookup userID = none)

include hflow

theorem resolveFlow_resolved :
    Resolved P S.state userID action routeID ∧ call.clientRoute.all validateClientRouteRequest = true := by
  unfold resolveFlow at hflow
  split at hflow
  · rename_i request hrequest
    obtain ⟨state, hstate, hresolved, hvalid⟩ := resolveClient_resolved hflow
    obtain rfl : S.state = state := by simpa using (S.loadState_eq ingress).symm.trans hstate
    exact ⟨hresolved, by rw [hrequest]; exact hvalid⟩
  · rename_i hnone
    obtain ⟨state, hstate, hresolved⟩ := resolve_resolved hflow
    obtain rfl : S.state = state := by simpa using (S.loadState_eq ingress).symm.trans hstate
    exact ⟨hresolved, by rw [hnone]; rfl⟩

include hingress hblock

/-- the flow at its ingress -/
theorem call_resolved :
    (S.runtime ingress).call P userID host port call =
      if host = [] ∧ port = 0 then .error .invalidConfig
      else if ((S.runtime ingress).peerPrincipals.lookup userID).isSome then .error .relayUnauthorized
      else (S.runtime ingress).followPath (action.nodeIDs.dropWhile (· == ingress)) routeID userID host port call.protocol [] [] := by
  obtain ⟨hresolved, hclient⟩ := resolveFlow_resolved hflow
  have huser : userID ≠ [] := by
    rintro rfl
    cases hresolved.user
  have hpath : (S.runtime ingress).pathOf action = action.nodeIDs.dropWhile (· == ingress) := by rw [pathOf, S.nodeID_eq]
  rw [call_eq, enter, S.valid ingress hingress, hflow, S.loadState_eq]
  simp only [huser, hclient, Bool.true_eq_false, or_false, false_or, if_false, Option.isNone_some, Bool.false_eq_true, and_false]
  rw [applyAction_eq hresolved.wellFormed hblock, hpath]

/-- a flow that is delivered is not refused at its ingress -/
theorem send_checked {nodes : List Str} {dial : Option Dial}
    (h : S.send ingress userID host port call = (nodes, .ok dial)) :
    ¬(host = [] ∧ port = 0) ∧ (S.runtime ingress).peerPrincipals.lookup userID = none := by
  rw [send, call_resolved hingress hflow hblock] at h
  split_ifs at h with htarget hpeer
  · cases h
  · cases h
  · exact ⟨htarget, Option.not_isSome_iff_eq_none.mp hpeer⟩

include htarget hpeer

theorem send_stay (hpath : action.nodeIDs.dropWhile (· == ingress) = []) :
    S.send ingress userID host port call = ([], .ok none) := by
  rw [send, call_resolved hingress hflow hblock, if_neg htarget, if_neg (by simp [hpeer]), followPath, if_pos hpath]

/-- a flow with a path goes to its next hop if the hop limit allows it -/
theorem send_path (hpath : action.nodeIDs.dropWhile (· == ingress) = path) (hne : path ≠ [])
    (hnext : (S.runtime ingress).nextHop path = (next, rest)) :
    ∃ trace : Str, trace.length = 16 ∧ S.send ingress userID host port call =
      if maxRouteHops < rest.length + 1 then ([], .error (.relay .hopLimit))
      else
        let rest := S.journey (maxRouteHops + 1) ingress next
          (startRequest ingress rest routeID userID host port call.protocol trace)
        (rest.1, rest.2.map some) := by
  obtain ⟨trace, htrace, hlength⟩ := traceID_some (S := S) ingress
  have haction := (resolveFlow_resolved hflow).1.wellFormed
  have hfew : path.length ≤ maxRouteHops :=
    hpath ▸ (dropWhile_sublist _).length_le.trans (validAction_length haction)
  refine ⟨trace, hlength, ?_⟩
  rw [send, call_resolved hingress hflow hblock, if_neg htarget, if_neg (by simp [hpeer]), hpath, followPath, if_neg hne,
    if_neg (Nat.not_lt.mpr hfew), if_pos rfl, htrace]
  dsimp only
  rw [firstRequest, hnext, if_pos rfl, S.nodeID_eq]
  split_ifs <;> rfl

/-- a flow whose journey ends in a dial -/
theorem send_via (nodes : List Str) (dial : Dial) (hpath : action.nodeIDs.dropWhile (· == ingress) = path)
    (hne : path ≠ []) (hnext : (S.runtime ingress).nextHop path = (next, rest)) (hfew : rest.length < maxRouteHops)
    (hjourney : ∀ trace : Str, trace.length = 16 →
      S.journey (maxRouteHops + 1) ingress next (startRequest ingress rest routeID userID host port call.protocol trace) =
        (nodes, .ok dial)) : S.send ingress userID host port call = (nodes, .ok (some dial)) := by
  obtain ⟨trace, htrace, hsend⟩ := send_path hingress hflow hblock htarget hpeer hpath hne hnext
  rw [hsend, if_neg (Nat.not_lt.mpr hfew), hjourney trace htrace]
  rfl

end

theorem startRequest_wellFormed (ingress : Str) (rest : List Str) (htrace : trace.length = 16)
    (hresolved : Resolved P S.state userID action routeID) (hne : action.nodeIDs ≠ []) (hport : port ≠ 0)
    (hhost : validRelayHost P host = true) {protocol : NetworkProtocol} (hprotocol : protocol.known = true) :
    WellFormed P (startRequest ingress rest routeID userID host port protocol trace) :=
  ⟨rfl, hresolved.named hne, hresolved.user, hport, hprotocol, htrace, rfl, hhost⟩

/-- an edge goes through the master -/
theorem nextHop_edge (rest : List Str) (hid : id ≠ S.master) (hx : x ≠ S.master) :
    (S.runtime id).nextHop (x :: rest) = (S.master, x :: rest) := by
  rw [nextHop, S.nodeID_eq, S.masterNodeID_eq, if_pos ⟨hid, by simpa using hx⟩]

theorem nextHop_linked (rest : List Str) (h : S.Linked id x) : (S.runtime id).nextHop (x :: rest) = (x, rest) := by
  rw [nextHop, S.nodeID_eq, S.masterNodeID_eq, if_neg]
  · rfl
  rintro ⟨hid, hx⟩
  rcases h with h | h
  · exact hid h
  · exact hx (congrArg some h)

theorem dropWhile_head {nodeIDs : List Str} (h : nodeIDs.dropWhile (· == id) = x :: rest) : x ≠ id := by
  have := head?_dropWhile_not (· == id) nodeIDs
  simpa [h] using this

/-- a path without the master's choice -/
theorem explicit_shape {protocol : NetworkProtocol}
    (hid : routeID ≠ resolveRouteID) (hne : path ≠ []) (hhead : path.head? ≠ some id)
    (hnext : (S.runtime id).nextHop path = (next, rest))
    (h : (S.journey bound id next (startRequest id rest routeID userID host port protocol trace)).2 = .ok dial) :
    (∃ x, path = [x]) ∨ (id ≠ S.master ∧ ∃ x, x ≠ id ∧ path = [S.master, x]) := by
  obtain ⟨hchain, hnodup, -⟩ := walk_sound hid rfl h
  change (id :: next :: rest).Nodup at hnodup
  obtain ⟨x, tail, rfl⟩ := exists_cons_of_ne_nil hne
  have hx : x ≠ id := by simpa using hhead
  by_cases hlink : S.Linked id x
  · rw [nextHop_linked tail hlink] at hnext
    obtain ⟨rfl, rfl⟩ := Prod.mk.inj hnext
    rcases chain_short hchain hnodup with rfl | ⟨rfl, y, rfl⟩
    · exact .inl ⟨x, rfl⟩
    refine .inr ⟨fun h => hx h.symm, y, ?_, rfl⟩
    rintro rfl
    simp at hnodup
  · obtain ⟨hid', hx'⟩ := not_or.mp hlink
    rw [nextHop_edge tail hid' hx'] at hnext
    cases hnext
    rcases chain_short hchain hnodup with hnil | ⟨-, y, hy⟩
    · cases hnil
    · exact .inl ⟨y, hy⟩

/-! ## The master's choice -/

/-- a request to resolve is refused by an edge -/
theorem resolve_at_edge {a b : Str}
    (hid : request.routeID = resolveRouteID) (hb : b ≠ S.master) : (S.journey bound a b request).2 ≠ .ok dial := by
  intro h
  obtain ⟨bound, rfl, hlink, hadmits, -⟩ := journey_ok h
  have hedge : (S.runtime b).nodeID ≠ (S.runtime b).masterNodeID := by
    rw [S.nodeID_eq, S.masterNodeID_eq]
    exact hb
  rw [journey_admitted hlink hadmits, handleAccepted, if_pos hid, if_pos hedge] at h
  cases h

section

variable (haccepted : Accepted P request S.master) (hid : request.routeID = resolveRouteID) (hclient : request.clientRoute = none)
  (hresolve : (S.runtime S.master).resolve P request.userID request.targetHost request.targetPort request.protocol =
    .ok (action', routeID')) (hblock : action'.kind ≠ .block)
include haccepted hid hclient hresolve hblock

/-- what the master does with a request to resolve -/
theorem handleAccepted_resolve : (S.runtime S.master).handleAccepted P request =
      if action'.nodeIDs.dropWhile (· == S.master) = [] then
        .ok (.dial request.targetHost request.targetPort request.protocol) else
        .ok (.openPeer ((action'.nodeIDs.dropWhile (· == S.master)).headD [])
          ((S.runtime S.master).firstRequest (action'.nodeIDs.dropWhile (· == S.master)) routeID' request.userID request.targetHost
            request.targetPort request.protocol (request.visitedNodeIDs ++ [S.master]) request.traceID)) := by
  obtain ⟨_, -, hresolved⟩ := resolve_resolved hresolve
  have hpath : (S.runtime S.master).pathOf action' = action'.nodeIDs.dropWhile (· == S.master) := by
    rw [pathOf, S.nodeID_eq]
  have hlength := (S.runtime S.master).pathOf_length hresolved.wellFormed
  rw [hpath] at hlength
  rw [handleAccepted, if_neg (not_not.mpr master_nodeID), resolution, hclient]
  rw [hresolve]
  dsimp only
  rw [applyAction_eq hresolved.wellFormed hblock, hpath]
  split_ifs with hnil
  · rw [followPath, if_pos hnil]
    exact dialTerminal_known haccepted.protocol_known
  · rw [followPath_master master_nodeID hnil hlength haccepted.traceID_ne, S.nodeID_eq]

variable (hin : id ∈ S.ids) (hvisited : request.visitedNodeIDs = [id])
include hin hvisited

/-- the master's choice to stay -/
theorem resolve_stay (hpath : action'.nodeIDs.dropWhile (· == S.master) = []) :
    S.journey (bound + 1) id S.master request =
      ([S.master], .ok ⟨S.master, request.targetHost, request.targetPort, request.protocol⟩) := by
  have hadmits := admits_of_accepted hin master_mem_ids (.inr rfl) (hvisited ▸ rfl) haccepted
  rw [journey_admitted (.inr rfl) hadmits, handleAccepted_resolve haccepted hid hclient hresolve hblock, if_pos hpath]

/-- the master's choice of one edge -/
theorem resolve_edge (bound : ℕ) (hne : id ≠ S.master) (hx : x ≠ id) (hformed : WellFormed P request)
    (hpath : action'.nodeIDs.dropWhile (· == S.master) = [x])
    (hid' : routeID' ≠ resolveRouteID) : S.journey (bound + 2) id S.master request =
      ([S.master, x], .ok ⟨x, request.targetHost, request.targetPort, request.protocol⟩) := by
  have hadmits := admits_of_accepted hin master_mem_ids (.inr rfl) (hvisited ▸ rfl) haccepted
  have hxm : x ≠ S.master := dropWhile_head hpath
  obtain ⟨state, hstate, hresolved⟩ := resolve_resolved hresolve
  obtain rfl : S.state = state := by simpa using (S.loadState_eq S.master).symm.trans hstate
  have hmem : x ∈ action'.nodeIDs := (dropWhile_sublist _).subset (hpath ▸ mem_singleton_self x)
  have hvisited' : request.visitedNodeIDs ++ [S.master] = [id, S.master] := by rw [hvisited]; rfl
  rw [journey_admitted (.inr rfl) hadmits,
    handleAccepted_resolve haccepted hid hclient hresolve hblock, if_neg (by simp [hpath]), hpath, hvisited']
  have hrest := walk_ok (S := S) [] (bound + 1) S.master x
    ((S.runtime S.master).firstRequest [x] routeID' request.userID request.targetHost request.targetPort request.protocol
      [id, S.master] request.traceID)
    ⟨rfl, hresolved.named (ne_nil_of_mem hmem), hresolved.user, hformed.port, hformed.protocol, hformed.trace, rfl, hformed.host⟩ hid'
    (by rw [firstRequest, nextHop_master master_nodeID]; rfl)
    (by rw [firstRequest, nextHop_master master_nodeID]; rfl) (Nat.succ_pos _)
    (by exact Nat.le_succ 2) (by rfl)
    (by
      rw [firstRequest, if_neg (by simp)]
      intro y hy
      simp only [cons_append, nil_append, mem_cons, not_mem_nil, or_false] at hy
      rcases hy with rfl | rfl | rfl
      · exact hin
      · exact master_mem_ids
      · exact hresolved.known _ hmem)
    (by
      rw [firstRequest]
      simp [hne, hx.symm, hxm.symm])
    (isChain_cons_cons.mpr ⟨.inl rfl, isChain_singleton _⟩)
  dsimp only [headD_cons]
  rw [hrest]
  rfl

end

/-- where the master's choice leads, if to a dial -/
theorem resolve_sound {b : Str} (hid : request.routeID = resolveRouteID)
    (hclient : request.clientRoute = none) (hvisited : request.visitedNodeIDs = [id])
    (h : (S.journey bound id b request).2 = .ok dial) : b = S.master ∧ id ≠ S.master ∧ ∃ action' routeID',
      (S.runtime S.master).resolve P request.userID request.targetHost request.targetPort request.protocol = .ok (action', routeID') ∧
      action'.kind ≠ .block ∧
      (action'.nodeIDs.dropWhile (· == S.master) = [] ∧ (S.journey bound id b request).1 = [S.master] ∨
        ∃ x, x ≠ id ∧ action'.nodeIDs.dropWhile (· == S.master) = [x] ∧ routeID' ≠ resolveRouteID ∧
          (S.journey bound id b request).1 = [S.master, x]) := by
  have hb : b = S.master := by
    by_contra hb
    exact resolve_at_edge hid hb h
  subst hb
  obtain ⟨bound, rfl, hlink, hadmits, haccepted⟩ := journey_ok h
  have hne : id ≠ S.master := by
    rintro rfl
    exact haccepted.not_visited (by simp [hvisited])
  rw [journey_admitted hlink hadmits] at h ⊢
  have hacts : ∃ effect, (S.runtime S.master).handleAccepted P request = .ok effect := by
    cases hhandle : (S.runtime S.master).handleAccepted P request with
    | error e =>
      rw [hhandle] at h
      cases h
    | ok effect => exact ⟨effect, rfl⟩
  obtain ⟨action', routeID', hresolve, hblock⟩ :=
    (handleAccepted_master master_nodeID (by rwa [S.nodeID_eq])).mp hacts hid
  rw [resolution, hclient] at hresolve
  refine ⟨rfl, hne, action', routeID', hresolve, hblock, ?_⟩
  rw [handleAccepted_resolve haccepted hid hclient hresolve hblock] at h ⊢
  by_cases hnil : action'.nodeIDs.dropWhile (· == S.master) = []
  · rw [if_pos hnil] at ⊢
    exact .inl ⟨hnil, rfl⟩
  obtain ⟨x, rest, hpath⟩ := exists_cons_of_ne_nil hnil
  have hx : x ≠ S.master := dropWhile_head hpath
  rw [hpath] at h ⊢
  have hid' : routeID' ≠ resolveRouteID := fun hid' => resolve_at_edge hid' hx h
  obtain ⟨hchain, hnodup, hnodes⟩ := walk_sound hid' rfl h
  have hvisited' : request.visitedNodeIDs ++ [S.master] = [id, S.master] := by rw [hvisited]; rfl
  rw [firstRequest, nextHop_master master_nodeID, hvisited'] at hnodup
  rw [firstRequest, nextHop_master master_nodeID] at hchain
  obtain ⟨hidx, hnodup⟩ := nodup_cons.mp hnodup
  rcases chain_short hchain hnodup with rfl | ⟨rfl, -⟩
  · have hnodes' : (S.master :: (S.journey bound S.master x _).1) = [S.master, x] := congrArg _ (hnodes.trans (by
      rw [firstRequest, nextHop_master master_nodeID]
      rfl))
    refine .inr ⟨x, ?_, rfl, hid', hnodes'⟩
    rintro rfl
    simp at hidx
  · exact absurd rfl hx

/-! ## Delivery -/

section

variable (hformed : WellFormed P (startRequest ingress rest routeID userID host port call.protocol trace))
include hformed

theorem startRequest_accepted (hids : ∀ id ∈ ingress :: next :: rest, id ∈ S.ids) (hfew : rest.length < maxRouteHops)
    (hnodup : (ingress :: next :: rest).Nodup) :
    Accepted P (startRequest ingress rest routeID userID host port call.protocol trace) next := by
  refine hformed.accepted (hids next (by simp)) rfl hfew (show 1 ≤ maxRouteHops by decide) (fun id hmem => hids id ?_) hnodup
  exact ((sublist_cons_self next rest).cons_cons ingress).subset hmem

/-- an explicit path to one node, or through the master to one edge -/
theorem explicit_ok (hid : routeID ≠ resolveRouteID) (hids : ∀ id ∈ ingress :: next :: rest, id ∈ S.ids)
    (hfew : rest.length < maxRouteHops) (hnodup : (ingress :: next :: rest).Nodup)
    (hchain : (ingress :: next :: rest).IsChain S.Linked) :
    S.journey (maxRouteHops + 1) ingress next (startRequest ingress rest routeID userID host port call.protocol trace) =
      (next :: rest, .ok ⟨(next :: rest).getLast (cons_ne_nil next rest), host, port, call.protocol⟩) := by
  refine walk_ok rest _ ingress next _ hformed hid rfl rfl (by omega) ?_ rfl hids hnodup hchain
  simp only [startRequest, length_singleton]
  omega

end

/-- the two paths to an edge through the master: how they begin and what they stand for -/
theorem edge_path (hid : id ≠ S.master) (hx : x ≠ S.master) (h : path = [x] ∨ path = [S.master, x]) :
    (S.runtime id).nextHop path = (S.master, [x]) ∧ insertMaster S.master id path = [S.master, x] ∧ path.getLast? = some x := by
  rcases h with rfl | rfl
  · refine ⟨nextHop_edge [] hid hx, ?_, rfl⟩
    rw [insertMaster, if_pos ⟨hid, hx⟩, insertMaster]
  · refine ⟨nextHop_linked [x] (.inr rfl), ?_, rfl⟩
    rw [insertMaster, if_neg (fun h => h.2 rfl), insertMaster, if_neg (fun h => h.1 rfl), insertMaster]

end Flow

/-- **An explicit route is delivered exactly when** its path has one edge after the ingress, with or without the master before it (and,
under the ID that asks the master to resolve, when the master's own choice is the same). -/
theorem delivered_iff (S : Star P) (ingress : Str) (hingress : ingress ∈ S.ids) (userID host : Str) (port : ℕ) (call : Call)
    (action : RouteAction) (routeID : Str)
    (hflow : (S.runtime ingress).resolveFlow P userID host port call.protocol call.clientRoute = .ok (action, routeID))
    (hkind : action.kind = .node ∨ action.kind = .chain) :
    S.send ingress userID host port call = S.expected ingress host port call action.nodeIDs ↔
      S.Deliverable ingress userID host port call action routeID := by
  have hblock : action.kind ≠ .block := by rcases hkind with h | h <;> simp [h]
  obtain ⟨hresolved, -⟩ := resolveFlow_resolved hflow
  have hnodup : (action.nodeIDs.dropWhile (· == ingress)).Nodup :=
    (Runtime.validAction_nodup hresolved.wellFormed).sublist (dropWhile_sublist _)
  have hids : ∀ id ∈ action.nodeIDs.dropWhile (· == ingress), id ∈ S.ids := fun id hid =>
    hresolved.known id ((dropWhile_sublist _).subset hid)
  have hne : action.nodeIDs.dropWhile (· == ingress) ≠ [] → action.nodeIDs ≠ [] := by
    intro hpath hnil
    rw [hnil] at hpath
    exact hpath rfl
  have hhead : (action.nodeIDs.dropWhile (· == ingress)).head? ≠ some ingress := by
    intro h
    obtain ⟨rest, hrest⟩ := List.head?_eq_some_iff.mp h
    exact dropWhile_head hrest rfl
  unfold expected Deliverable
  dsimp only
  generalize hp : action.nodeIDs.dropWhile (· == ingress) = path at *
  constructor
  · intro h
    obtain ⟨htarget, hpeer⟩ := send_checked hingress hflow hblock h
    refine ⟨htarget, hpeer, ?_⟩
    by_cases hnil : path = []
    · exact .inl hnil
    rcases hnext : (S.runtime ingress).nextHop path with ⟨next, rest⟩
    obtain ⟨trace, htrace, hsend⟩ := send_path hingress hflow hblock htarget hpeer hp hnil hnext
    rw [h] at hsend
    split at hsend
    · cases (Prod.mk.inj hsend).2
    obtain ⟨hnodes, hdial⟩ := Prod.mk.inj hsend
    obtain ⟨dial, hdial⟩ := map_ok hdial.symm
    obtain ⟨-, -, -, -, haccepted⟩ := journey_ok hdial
    have hport : port ≠ 0 := by
      have := haccepted.header
      simp only [validRelayHeader, Bool.and_eq_true, decide_eq_true_eq] at this
      exact this.1.1.1.2
    refine .inr ⟨hport, haccepted.host, ?_⟩
    by_cases hid : routeID = resolveRouteID
    · obtain ⟨-, hedge, action', routeID', hresolve, hblock', hchoice⟩ := resolve_sound hid rfl rfl hdial
      refine .inr ⟨hid, hedge, action', routeID', hresolve, hblock', ?_⟩
      rcases hchoice with ⟨hstay, hmaster⟩ | ⟨x, hx, hpath', hid', hmaster⟩
      · exact .inl ⟨insertMaster_master hedge (hnodes.trans hmaster), hstay⟩
      · exact .inr ⟨x, hx, insertMaster_edge hedge (hnodes.trans hmaster), hpath', hid'⟩
    · exact .inl ⟨hid, explicit_shape hid hnil hhead hnext hdial⟩
  · rintro ⟨htarget, hpeer, hpath⟩
    rcases hpath with rfl | ⟨hport, hhost, hpath⟩
    · rw [send_stay hingress hflow hblock htarget hpeer hp]
      rfl
    have hformed : ∀ (rest : List Str) (trace : Str), trace.length = 16 → path ≠ [] →
        WellFormed P (startRequest ingress rest routeID userID host port call.protocol trace) := fun rest trace htrace hpath =>
      startRequest_wellFormed ingress rest htrace hresolved (hne hpath) hport hhost call.protocol_known
    have hone : 1 < maxRouteHops := by decide
    have hmaster : S.master ∈ S.ids := master_mem_ids
    rcases hpath with ⟨hid, hshape⟩ | ⟨hid, hedge, action', routeID', hresolve, hblock', hchoice⟩
    · by_cases hlink : ∃ x, path = [x] ∧ S.Linked ingress x
      · obtain ⟨x, rfl, hlink⟩ := hlink
        have hx : x ≠ ingress := by simpa using hhead
        rw [send_via hingress hflow hblock htarget hpeer [x] ⟨x, host, port, call.protocol⟩ hp (by simp)
          (nextHop_linked [] hlink) (by decide)
          fun trace htrace => explicit_ok (hformed [] trace htrace (by simp)) hid (by simp [hingress, hids x])
            (by decide) (by simp [hx.symm])
            (isChain_cons_cons.mpr ⟨hlink, isChain_singleton _⟩),
          insertMaster, if_neg (fun h => hlink.elim h.1 h.2)]
        rfl
      · -- the flow goes through the master to the edge `x`
        obtain ⟨x, hx, hxm, hedge, hshape⟩ : ∃ x, x ≠ ingress ∧ x ≠ S.master ∧
            ingress ≠ S.master ∧ (path = [x] ∨ path = [S.master, x]) := by
          rcases hshape with ⟨x, rfl⟩ | ⟨hedge, x, hx, rfl⟩
          · obtain ⟨hedge, hxm⟩ := not_or.mp fun h => hlink ⟨x, rfl, h⟩
            exact ⟨x, by simpa using hhead, hxm, hedge, .inl rfl⟩
          · exact ⟨x, hx, by simpa [eq_comm] using hnodup, hedge, .inr rfl⟩
        have hpath : path ≠ [] := by rcases hshape with rfl | rfl <;> simp
        have hmem : x ∈ S.ids := hids x (by rcases hshape with rfl | rfl <;> simp)
        obtain ⟨hnext, hinsert, hlast⟩ := edge_path hedge hxm hshape
        rw [send_via hingress hflow hblock htarget hpeer [S.master, x] ⟨x, host, port, call.protocol⟩ hp hpath hnext hone
          fun trace htrace =>
          explicit_ok (hformed [x] trace htrace hpath) hid (by simp [hingress, hmaster, hmem]) hone
            (by simp [hx.symm, hxm.symm, hedge])
            (isChain_cons_cons.mpr ⟨.inr rfl, isChain_cons_cons.mpr ⟨.inl rfl, isChain_singleton _⟩⟩), hinsert, hlast]
        rfl
    · rcases hchoice with ⟨rfl, hstay⟩ | ⟨x, hx, hshape, hpath', hid'⟩
      · rw [send_via hingress hflow hblock htarget hpeer [S.master] ⟨S.master, host, port, call.protocol⟩ hp (by simp)
          (nextHop_linked [] (.inr rfl)) (by decide) fun trace htrace => resolve_stay
            (startRequest_accepted (S := S) (hformed [] trace htrace (by simp)) (by simp [hingress, hmaster])
              (by decide) (by simp [hedge]))
            hid rfl hresolve hblock' hingress rfl hstay,
          insertMaster, if_neg (fun h => h.2 rfl)]
        rfl
      · have hxm : x ≠ S.master := dropWhile_head hpath'
        have hpath : path ≠ [] := by rcases hshape with rfl | rfl <;> simp
        have hmem : x ∈ S.ids := hids x (by rcases hshape with rfl | rfl <;> simp)
        obtain ⟨hnext, hinsert, hlast⟩ := edge_path hedge hxm hshape
        rw [send_via hingress hflow hblock htarget hpeer [S.master, x] ⟨x, host, port, call.protocol⟩ hp hpath hnext hone
          fun trace htrace =>
          resolve_edge (startRequest_accepted (S := S) (hformed [x] trace htrace hpath) (by simp [hingress, hmaster, hmem]) hone
              (by simp [hx.symm, hxm.symm, hedge])) hid rfl hresolve hblock' hingress rfl 2 hedge hx (hformed [x] trace htrace hpath)
              hpath' hid', hinsert, hlast]
        rfl

end Star

/-! ## Runs -/

/-- `twoNodes` with a second edge and the action as its route -/
def threeNodes (action : RouteAction) : State :=
  { twoNodes [{ throughEdge false with action := action }] [userOf [ascii "edge", ascii "far"]] with
    nodes := (twoNodes [] []).nodes ++ [⟨ascii "far", ascii "Far", ascii "us", [.egress], ascii "far.example",
      [ascii "192.0.2.3"], ascii "192.0.2.3:443", true, ascii "peer-far", ascii "SHA256:cc", 1, 1⟩] }

/-- the hub knows both edges, an edge knows the hub -/
def threePeers (id : Str) : List (Str × Str) :=
  if id = ascii "hub" then [(ascii "peer-edge", ascii "edge"), (ascii "peer-far", ascii "far")] else [(ascii "peer-hub", ascii "hub")]

theorem threePeers_known : ∀ a ∈ [ascii "hub", ascii "edge", ascii "far"], ∀ b ∈ [ascii "hub", ascii "edge", ascii "far"], a ≠ b →
    a = ascii "hub" ∨ b = ascii "hub" → (threePeers b).lookup (ascii "peer-" ++ a) = some a := by decide

/-- the star of the three nodes -/
def threeStar (action : RouteAction) (hstate : validateState asciiPlatform (threeNodes action) = .ok ()) : Star asciiPlatform where
  state := threeNodes action
  accepted := hstate
  master := ascii "hub"
  master_mem := ⟨(twoNodes [] []).nodes.head (by decide), List.mem_cons_self, rfl, by decide⟩
  runtime := fun id =>
    { nodeID := id
      masterNodeID := ascii "hub"
      peerPrincipals := threePeers id
      loadState := some (some (threeNodes action))
      wired := true
      geoMatcher := none
      random := some fun _ => 0 }
  credentialID := fun id => ascii "peer-" ++ id
  nodeID_eq := fun _ => rfl
  masterNodeID_eq := fun _ => rfl
  loadState_eq := fun _ => rfl
  valid := by
    intro id hid
    have hids : id = ascii "hub" ∨ id = ascii "edge" ∨ id = ascii "far" := by simpa [threeNodes, twoNodes] using hid
    rcases hids with rfl | rfl | rfl <;> rfl
  random := fun _ => rfl
  peers := threePeers_known

/-- from one edge to the other, through the hub -/
theorem delivered_far :
    (threeStar ⟨.node, [ascii "far"]⟩ (by decide)).send (ascii "edge") (ascii "alice") (ascii "example.com") 443 .tcp =
      ([ascii "hub", ascii "far"], .ok (some ⟨ascii "far", ascii "example.com", 443, .tcp⟩)) :=
  (Star.delivered_iff (threeStar ⟨.node, [ascii "far"]⟩ (by decide)) (ascii "edge") (by decide) (ascii "alice") (ascii "example.com") 443
    .tcp ⟨.node, [ascii "far"]⟩ (ascii "via-edge") (by decide) (.inl rfl)).mpr
    ⟨by decide, by decide, .inr ⟨by decide, by decide, .inl ⟨by decide, .inl ⟨ascii "far", by decide⟩⟩⟩⟩

/-- **A chain of two edges is not delivered.** The first edge forwards to the second as if they had a session. -/
theorem chain_unavailable :
    ¬∀ (P : Platform (List ℕ)) (S : Star P) (ingress : Str), ingress ∈ S.ids → ∀ (userID host : Str) (port : ℕ) (call : Call)
      (action : RouteAction) (routeID : Str),
      (S.runtime ingress).resolveFlow P userID host port call.protocol call.clientRoute = .ok (action, routeID) →
      action.kind = .node ∨ action.kind = .chain →
        S.send ingress userID host port call = S.expected ingress host port call action.nodeIDs := by
  intro h
  have hsend := h asciiPlatform (threeStar ⟨.chain, [ascii "edge", ascii "far"]⟩ (by decide)) (ascii "hub") (by decide) (ascii "alice")
    (ascii "example.com") 443 .tcp ⟨.chain, [ascii "edge", ascii "far"]⟩ (ascii "via-edge") (by decide) (.inr rfl)
  exact absurd hsend (by decide)

end NeProto.Cluster
