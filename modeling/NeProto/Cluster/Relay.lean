/-
Relaying between nodes (`internal/cluster/relay.go`, `internal/clusterrelay/runtime.go`).

A node's `Runtime` answers a relay request with an effect: it dials the target or opens the next node with a new request. The record
of a runtime is what it knows at the time of the call, so a node whose state changes is a different record at each call.

- `validateRelayRequest`: the checks on a request; `validateRelayRequest_iff` says what is accepted.
- `handleRelay`, `applyAction`, `resolve`, `resolveClient`: the runtime.
- `relay`: a request and what follows from it, over any list of nodes that happen to receive it. `PeerPool.Open` sends a request
  again after an error, so that one request may start a tree; `relay` is any one path of that tree.
- `relay_bounded`: the path never comes back to a node, has at most three nodes and ends in at most one dial.
- `reauthorised_iff`: when the master refuses what its own state does not authorise. An explicit path is not looked at.
-/
import NeProto.Cluster.Routes

namespace NeProto.Cluster

open List

/-! ## Requests -/

structure RelayRequest where
  version : ℤ
  routeID : Str
  userID : Str
  remainingHops : ℕ
  visitedNodeIDs : List Str
  remainingNodeIDs : List Str
  traceID : Str
  targetHost : Str
  targetPort : ℕ
  protocol : NetworkProtocol
  clientRoute : Option ClientRouteRequest
deriving DecidableEq

inductive RelayError where
  | invalidRelay
  | loop
  | hopLimit
deriving DecidableEq

def relayVersion : ℤ := 1

/-- the route ID of a request that the master resolves -/
def resolveRouteID : Str := ascii "resolve"

section Requests

variable {Addr : Type} (P : Platform Addr)

/-- one round of the loop over the visited nodes -/
def checkVisited (current : Str) (seen : List Str) (nodeID : Str) : Except RelayError (List Str) :=
  if !validIdentifier nodeID 64 then .error .invalidRelay
  else if nodeID = current then .error .loop
  else if nodeID ∈ seen then .error .loop
  else .ok (seen ++ [nodeID])

/-- one round of the loop over the remaining nodes -/
def checkRemaining (current : Str) (seen : List Str) (nodeID : Str) : Except RelayError (List Str) :=
  if !validIdentifier nodeID 64 || nodeID == current then .error .loop
  else if nodeID ∈ seen then .error .loop
  else .ok (seen ++ [nodeID])

/-- the checks before the loops -/
def validRelayHeader (request : RelayRequest) (currentNodeID : Str) : Bool :=
  decide (request.version = relayVersion) && validIdentifier request.routeID 64 && validOpaqueID request.userID 128 &&
    validIdentifier currentNodeID 64 && decide (request.targetPort ≠ 0) && request.protocol.known &&
    decide (request.traceID.length = 16 ∧ request.visitedNodeIDs.length ≤ maxRouteHops ∧
      request.remainingNodeIDs.length ≤ maxRouteHops) &&
    request.clientRoute.all validateClientRouteRequest

/-- an address must be a global unicast one, everything else a domain -/
def validRelayHost (host : Str) : Bool :=
  match P.parseAddr host with
  | none => validDomain P host
  | some address => P.isGlobalUnicast address

def validateRelayRequest (request : RelayRequest) (currentNodeID : Str) : Except RelayError Unit :=
  if !validRelayHeader request currentNodeID then .error .invalidRelay
  else if request.remainingHops = 0 ∨ maxRouteHops < request.remainingHops then .error .hopLimit
  else do
    let seen ← request.visitedNodeIDs.foldlM (checkVisited currentNodeID) []
    let _ ← request.remainingNodeIDs.foldlM (checkRemaining currentNodeID) seen
    if request.remainingHops ≠ request.remainingNodeIDs.length + 1 then .error .hopLimit
    else if !validRelayHost P request.targetHost then .error .invalidRelay
    else .ok ()

/-- what is accepted at a node -/
structure Accepted (request : RelayRequest) (currentNodeID : Str) : Prop where
  header : validRelayHeader request currentNodeID = true
  hops : request.remainingHops = request.remainingNodeIDs.length + 1
  few : request.remainingHops ≤ maxRouteHops
  path : (request.visitedNodeIDs ++ request.remainingNodeIDs).Nodup
  identifiers : ∀ id ∈ request.visitedNodeIDs ++ request.remainingNodeIDs, validIdentifier id 64 = true ∧ id ≠ currentNodeID
  host : validRelayHost P request.targetHost = true

variable {P}

variable {request : RelayRequest} {node : Str}

/-- a loop over well-formed nodes other than this one -/
theorem check_iff {current : Str} {check : List Str → Str → Except RelayError (List Str)}
    (hcheck : ∀ seen id out, check seen id = .ok out ↔
      (validIdentifier id 64 = true ∧ id ≠ current) ∧ id ∉ seen ∧ out = seen ++ [id]) (ids : List Str) :
    ∀ seen out, seen.Nodup → (ids.foldlM check seen = .ok out ↔
      (seen ++ ids).Nodup ∧ (∀ id ∈ ids, validIdentifier id 64 = true ∧ id ≠ current) ∧ out = seen ++ ids) := by
  induction ids with
  | nil =>
    intro seen out hseen
    simp only [foldlM_nil, append_nil, hseen, not_mem_nil, false_imp_iff, implies_true, true_and]
    exact ⟨fun h => (Except.ok.inj h).symm, fun h => h ▸ rfl⟩
  | cons id ids ih =>
    intro seen out hseen
    have hassoc : seen ++ id :: ids = (seen ++ [id]) ++ ids := by simp
    rw [foldlM_cons, forall_mem_cons, hassoc]
    constructor
    · intro h
      cases hfirst : check seen id with
      | error e =>
        rw [hfirst] at h
        cases h
      | ok next =>
        rw [hfirst] at h
        obtain ⟨hid, hnew, rfl⟩ := (hcheck seen id next).mp hfirst
        have hnodup : (seen ++ [id]).Nodup := nodup_append.mpr ⟨hseen, nodup_singleton _, fun x hx y hy hxy =>
          hnew (mem_singleton.mp hy ▸ hxy ▸ hx)⟩
        obtain ⟨hall, hrest, hout⟩ := (ih _ _ hnodup).mp h
        exact ⟨hall, ⟨hid, hrest⟩, hout⟩
    · rintro ⟨hall, ⟨hid, hrest⟩, hout⟩
      have hnodup : (seen ++ [id]).Nodup := hall.of_append_left
      have hnew : id ∉ seen := fun hmem => (nodup_append.mp hnodup).2.2 id hmem id (mem_singleton_self _) rfl
      rw [(hcheck seen id _).mpr ⟨hid, hnew, rfl⟩]
      exact (ih _ _ hnodup).mpr ⟨hall, hrest, hout⟩

theorem checkVisited_ok (current : Str) (seen : List Str) (id : Str) (out : List Str) :
    checkVisited current seen id = .ok out ↔ (validIdentifier id 64 = true ∧ id ≠ current) ∧ id ∉ seen ∧ out = seen ++ [id] := by
  unfold checkVisited
  split_ifs with hid hcurrent hseen
  · simp_all
  · simp [hcurrent]
  · simp [hseen]
  · rw [eq_comm]
    simp_all

theorem checkRemaining_ok (current : Str) (seen : List Str) (id : Str) (out : List Str) :
    checkRemaining current seen id = .ok out ↔ (validIdentifier id 64 = true ∧ id ≠ current) ∧ id ∉ seen ∧ out = seen ++ [id] := by
  unfold checkRemaining
  split_ifs with hid hseen
  · simp only [Bool.or_eq_true, Bool.not_eq_true', beq_iff_eq] at hid
    rcases hid with hid | hid <;> simp [hid]
  · simp [hseen]
  · rw [eq_comm]
    simp_all

/-- **What a node accepts.** -/
theorem validateRelayRequest_iff (request : RelayRequest) (currentNodeID : Str) :
    validateRelayRequest P request currentNodeID = .ok () ↔ Accepted P request currentNodeID := by
  have hvisited := fun out => check_iff (checkVisited_ok currentNodeID) request.visitedNodeIDs [] out nodup_nil
  constructor
  · intro h
    unfold validateRelayRequest at h
    split at h
    · cases h
    split at h
    · cases h
    rename_i hheader hhops
    cases hv : request.visitedNodeIDs.foldlM (checkVisited currentNodeID) [] with
    | error e =>
      rw [hv] at h
      cases h
    | ok seen =>
      rw [hv] at h
      obtain ⟨hnodup, hids, rfl⟩ := (hvisited seen).mp hv
      rw [nil_append] at h
      cases hr : request.remainingNodeIDs.foldlM (checkRemaining currentNodeID) request.visitedNodeIDs with
      | error e =>
        simp only [bind, Except.bind, hr] at h
        cases h
      | ok out =>
        simp only [bind, Except.bind, hr] at h
        obtain ⟨hall, hrest, -⟩ := (check_iff (checkRemaining_ok currentNodeID) _ _ out hnodup).mp hr
        split_ifs at h with hcount hhost
        refine ⟨by simpa using hheader, not_not.mp hcount, ?_, hall, fun id hid => ?_, by simpa using hhost⟩
        · omega
        rcases mem_append.mp hid with hid | hid
        · exact hids id hid
        · exact hrest id hid
  · intro h
    have hnodup : request.visitedNodeIDs.Nodup := h.path.of_append_left
    have hv := (hvisited request.visitedNodeIDs).mpr
      ⟨by simpa using hnodup, fun id hid => h.identifiers id (mem_append_left _ hid), by simp⟩
    have hr := (check_iff (checkRemaining_ok currentNodeID) request.remainingNodeIDs _ _ hnodup).mpr
      ⟨h.path, fun id hid => h.identifiers id (mem_append_right _ hid), rfl⟩
    have hhops : ¬(request.remainingHops = 0 ∨ maxRouteHops < request.remainingHops) := by
      have := h.hops
      have := h.few
      omega
    rw [validateRelayRequest, if_neg (by simp [h.header]), if_neg hhops, hv]
    simp only [bind, Except.bind, hr]
    rw [if_neg (not_not.mpr h.hops), if_neg (by simp [h.host])]

section

variable (h : Accepted P request node)
include h

theorem Accepted.not_visited : node ∉ request.visitedNodeIDs ++ request.remainingNodeIDs :=
  fun hmem => (h.identifiers node hmem).2 rfl

theorem Accepted.visited_le : request.visitedNodeIDs.length ≤ maxRouteHops := by
  have := h.header
  simp only [validRelayHeader, Bool.and_eq_true, decide_eq_true_eq] at this
  exact this.1.2.2.1

theorem Accepted.traceID_ne : request.traceID ≠ [] := by
  intro hnil
  have := h.header
  simp [validRelayHeader, hnil] at this

theorem Accepted.protocol_known : request.protocol.known = true := by
  have := h.header
  simp only [validRelayHeader, Bool.and_eq_true] at this
  exact this.1.1.2

end

end Requests

/-- the request as a node passes it on -/
def RelayRequest.forward (request : RelayRequest) (nodeID : Str) (rest : List Str) : RelayRequest :=
  { request with
    visitedNodeIDs := request.visitedNodeIDs ++ [nodeID]
    remainingNodeIDs := rest
    remainingHops := rest.length + 1 }

theorem mapError_ok {ε ε' α : Type} {f : ε → ε'} {x : Except ε α} {a : α} (h : x.mapError f = .ok a) : x = .ok a := by
  cases x with
  | error e => cases h
  | ok b => exact congrArg Except.ok (Except.ok.inj h)

theorem map_ok {ε α β : Type} {f : α → β} {x : Except ε α} {b : β} (h : x.map f = .ok b) : ∃ a, x = .ok a := by
  cases x with
  | error e => cases h
  | ok a => exact ⟨a, rfl⟩

/-! ## A node -/

structure Runtime (Addr : Type) where
  nodeID : Str
  masterNodeID : Str
  /-- `PeerPrincipals`, a map from credential to node -/
  peerPrincipals : List (Str × Str)
  /-- `LoadState`: none if there is no loader, and what it returns -/
  loadState : Option (Option State)
  /-- `OpenPeer`, `DialTarget` and `DialUDP` are set -/
  wired : Bool
  geoMatcher : Option (GeoMatcher Addr)
  /-- what the random source gives for a trace ID -/
  random : Option (Fin 8 → UInt8)

inductive RuntimeError where
  | invalidConfig
  | relayUnauthorized
  | routeBlocked
  | peerUnavailable
  | loadState
  | random
  | relay (e : RelayError)
  | resolve (e : ResolveError)
deriving DecidableEq

/-- what a node does for a relay request -/
inductive Effect where
  /-- `dialTerminal` -/
  | dial (host : Str) (port : ℕ) (protocol : NetworkProtocol)
  /-- `OpenPeer` -/
  | openPeer (nodeID : Str) (request : RelayRequest)
deriving DecidableEq

namespace Runtime

variable {Addr : Type} (P : Platform Addr) (runtime : Runtime Addr)

def validate : Bool :=
  validIdentifier runtime.nodeID 64 && validIdentifier runtime.masterNodeID 64 && runtime.wired && !runtime.peerPrincipals.isEmpty &&
    !(runtime.nodeID == runtime.masterNodeID && runtime.loadState.isNone) &&
    runtime.peerPrincipals.all fun peer =>
      decide (peer.1 ≠ [] ∧ peer.1.length ≤ 128 ∧ peer.2 ≠ runtime.nodeID) && validIdentifier peer.2 64

def hexDigit (n : ℕ) : UInt8 := UInt8.ofNat (if n < 10 then 48 + n else 87 + n)

/-- `traceID`: eight random bytes in hexadecimal -/
def traceID : Option Str :=
  runtime.random.map fun raw => (List.ofFn raw).flatMap fun b => [hexDigit (b.toNat / 16), hexDigit (b.toNat % 16)]

/-- the target as the routes see it -/
def clusterTarget (host : Str) (port : ℕ) (protocol : NetworkProtocol) : Target Addr :=
  match P.parseAddr host with
  | some address => ⟨[], some (P.unmap address), port, protocol⟩
  | none => ⟨host, none, port, protocol⟩

def resolve (userID host : Str) (port : ℕ) (protocol : NetworkProtocol) :
    Except RuntimeError (RouteAction × Str) :=
  match runtime.loadState with
  | some (some state) =>
    (resolveRouteForUserWithMatcher P state userID (clusterTarget P host port protocol) runtime.geoMatcher).mapError .resolve
  | _ => .error .loadState

def resolveClient (userID host : Str) (port : ℕ) (protocol : NetworkProtocol) (request : ClientRouteRequest) :
    Except RuntimeError (RouteAction × Str) :=
  match runtime.loadState with
  | some (some state) =>
    (resolveClientRouteForUserWithMatcher P state userID (clusterTarget P host port protocol) request runtime.geoMatcher).mapError
      .resolve
  | _ => .error .loadState

/-- the request that `applyAction` sends: an edge goes through the master -/
def nextHop (path : List Str) : Str × List Str :=
  if runtime.nodeID ≠ runtime.masterNodeID ∧ path.head? ≠ some runtime.masterNodeID then (runtime.masterNodeID, path)
  else (path.headD [], path.tail)

section

variable (action : RouteAction) (path : List Str) (routeID userID host : Str) (port : ℕ) (protocol : NetworkProtocol)
  (visited : List Str) (traceID : Str)

/-- the request for the next node -/
def firstRequest : RelayRequest where
  version := relayVersion
  routeID := routeID
  userID := userID
  remainingHops := (runtime.nextHop path).2.length + 1
  visitedNodeIDs := if visited = [] then [runtime.nodeID] else visited
  remainingNodeIDs := (runtime.nextHop path).2
  traceID := traceID
  targetHost := host
  targetPort := port
  protocol := protocol
  clientRoute := none

/-- the nodes that are left of an action -/
def pathOf : List Str := action.nodeIDs.dropWhile (· == runtime.nodeID)

/-- `applyAction` on a path -/
def followPath : Except RuntimeError (Option Effect) :=
  if path = [] then .ok none
  else if maxRouteHops < path.length then .error (.relay .hopLimit)
  else match if traceID = [] then runtime.traceID else some traceID with
    | none => .error .random
    | some traceID =>
      if maxRouteHops < (runtime.nextHop path).2.length + 1 then .error (.relay .hopLimit)
      else .ok (some (.openPeer (runtime.nextHop path).1
        (runtime.firstRequest path routeID userID host port protocol visited traceID)))

/-- `applyAction`; none is "not handled" -/
def applyAction : Except RuntimeError (Option Effect) :=
  match action.kind with
  | .block => .error .routeBlocked
  | .current | .direct | .auto => .ok none
  | .node | .chain =>
    runtime.followPath (runtime.pathOf action) routeID userID host port protocol visited traceID
  | .other _ => .error .invalidConfig

end

/-- the peer may relay and is the last node of the request's path -/
def authorized (credentialID : Str) (request : RelayRequest) : Bool :=
  match runtime.peerPrincipals.lookup credentialID with
  | none => false
  | some peerNodeID => request.visitedNodeIDs.getLast? == some peerNodeID

def dialTerminal (host : Str) (port : ℕ) (protocol : NetworkProtocol) : Except RuntimeError Effect :=
  if protocol.known then .ok (.dial host port protocol) else .error .invalidConfig

/-- what the master resolves for a request -/
def resolution (request : RelayRequest) : Except RuntimeError (RouteAction × Str) :=
  match request.clientRoute with
  | some clientRoute =>
    runtime.resolveClient P request.userID request.targetHost request.targetPort request.protocol clientRoute
  | none => runtime.resolve P request.userID request.targetHost request.targetPort request.protocol

/-- `HandleRelay` once the peer and the request are checked -/
def handleAccepted (request : RelayRequest) : Except RuntimeError Effect :=
  let visited := request.visitedNodeIDs ++ [runtime.nodeID]
  if request.routeID = resolveRouteID then
    if runtime.nodeID ≠ runtime.masterNodeID then .error .relayUnauthorized
    else match runtime.resolution P request with
      | .error e => .error e
      | .ok (action, routeID) =>
        match runtime.applyAction action routeID request.userID request.targetHost request.targetPort request.protocol visited
          request.traceID with
        | .error e => .error e
        | .ok none => dialTerminal request.targetHost request.targetPort request.protocol
        | .ok (some effect) => .ok effect
  else match request.remainingNodeIDs with
    | [] => dialTerminal request.targetHost request.targetPort request.protocol
    | next :: rest => .ok (.openPeer next (request.forward runtime.nodeID rest))

def handleRelay (credentialID : Str) (request : RelayRequest) : Except RuntimeError Effect :=
  if !runtime.validate then .error .invalidConfig
  else if !runtime.authorized credentialID request then .error .relayUnauthorized
  else match validateRelayRequest P request runtime.nodeID with
    | .error e => .error (.relay e)
    | .ok () => runtime.handleAccepted P request

/-- the request gets past validation -/
def Admits (credentialID : Str) (request : RelayRequest) : Prop :=
  runtime.validate = true ∧ runtime.authorized credentialID request = true ∧ validateRelayRequest P request runtime.nodeID = .ok ()

instance (credentialID : Str) (request : RelayRequest) : Decidable (runtime.Admits P credentialID request) :=
  inferInstanceAs (Decidable (_ ∧ _))

variable {P runtime} {request : RelayRequest}

theorem handleRelay_admitted {credentialID : Str} (h : runtime.Admits P credentialID request) :
    runtime.handleRelay P credentialID request = runtime.handleAccepted P request := by
  simp only [handleRelay, h.1, h.2.1, h.2.2, Bool.not_true, Bool.false_eq_true, if_false]

theorem handleRelay_refused {credentialID : Str} (h : ¬runtime.Admits P credentialID request) :
    ∃ e, runtime.handleRelay P credentialID request = .error e := by
  unfold handleRelay
  split_ifs with hvalid hauth
  · exact ⟨_, rfl⟩
  · exact ⟨_, rfl⟩
  cases hreq : validateRelayRequest P request runtime.nodeID with
  | error e => exact ⟨_, rfl⟩
  | ok u => exact absurd ⟨by simpa using hvalid, by simpa using hauth, hreq⟩ h

/-! ## A chain of nodes -/

section Path

variable {action : RouteAction} {path : List Str} {routeID userID host : Str} {port : ℕ} {protocol : NetworkProtocol}
  {visited : List Str} {traceID : Str} {effect : Effect}

/-- a path that is followed -/
theorem followPath_some (h : runtime.followPath path routeID userID host port protocol visited traceID = .ok (some effect)) :
    ∃ trace, effect = .openPeer (runtime.nextHop path).1
      (runtime.firstRequest path routeID userID host port protocol visited trace) := by
  unfold followPath at h
  split at h
  · cases h
  split at h
  · cases h
  split at h
  · cases h
  split at h
  · cases h
  exact ⟨_, (Option.some.inj (Except.ok.inj h)).symm⟩

/-- only a node or chain action opens a peer -/
theorem applyAction_some (h : runtime.applyAction action routeID userID host port protocol visited traceID = .ok (some effect)) :
    runtime.followPath (runtime.pathOf action) routeID userID host port protocol visited traceID = .ok (some effect) := by
  unfold applyAction at h
  split at h
  case h_5 => exact h
  case h_6 => exact h
  all_goals cases h

end Path

theorem dialTerminal_not_open {host : Str} {port : ℕ} {protocol : NetworkProtocol} {next : Str} {forward : RelayRequest} :
    dialTerminal host port protocol ≠ .ok (.openPeer next forward) := by
  unfold dialTerminal
  split_ifs <;> simp

theorem dialTerminal_known {host : Str} {port : ℕ} {protocol : NetworkProtocol} (h : protocol.known = true) :
    dialTerminal host port protocol = .ok (.dial host port protocol) := if_pos h

/-- a node that forwards a request adds itself to the visited nodes -/
theorem handleAccepted_visited {next : Str} {forward : RelayRequest}
    (h : runtime.handleAccepted P request = .ok (.openPeer next forward)) :
    forward.visitedNodeIDs = request.visitedNodeIDs ++ [runtime.nodeID] := by
  unfold handleAccepted at h
  dsimp only at h
  split at h
  · split at h
    · cases h
    split at h
    · cases h
    split at h
    · cases h
    · exact absurd h dialTerminal_not_open
    rename_i hstep
    obtain rfl := Except.ok.inj h
    obtain ⟨trace, heffect⟩ := followPath_some (applyAction_some hstep)
    cases heffect
    exact if_neg (by simp)
  · split at h
    · exact absurd h dialTerminal_not_open
    · cases h
      rfl

end Runtime

/-- a node that receives a request, with the credential of the peer that sent it -/
structure Hop (Addr : Type) where
  runtime : Runtime Addr
  credentialID : Str

/-- what a request has led to -/
structure Trace where
  /-- the nodes at which it got past validation -/
  nodes : List Str
  dials : List Effect

section Chain

variable {Addr : Type} (P : Platform Addr)

/-- a request goes along the nodes that happen to receive it, each time as the last one has forwarded it -/
def relay : List (Hop Addr) → RelayRequest → Trace
  | [], _ => ⟨[], []⟩
  | hop :: hops, request =>
    if hop.runtime.Admits P hop.credentialID request then
      match hop.runtime.handleRelay P hop.credentialID request with
      | .error _ => ⟨[hop.runtime.nodeID], []⟩
      | .ok (.dial host port protocol) => ⟨[hop.runtime.nodeID], [.dial host port protocol]⟩
      | .ok (.openPeer _ forward) =>
        let rest := relay hops forward
        ⟨hop.runtime.nodeID :: rest.nodes, rest.dials⟩
    else ⟨[], []⟩

variable {P}

/-- what one admitted request leads to -/
theorem relay_cons (hop : Hop Addr) (hops : List (Hop Addr)) {request : RelayRequest}
    (h : hop.runtime.Admits P hop.credentialID request) :
    (∃ dials : List Effect, relay P (hop :: hops) request = ⟨[hop.runtime.nodeID], dials⟩ ∧ dials.length ≤ 1) ∨
      ∃ forward : RelayRequest, forward.visitedNodeIDs = request.visitedNodeIDs ++ [hop.runtime.nodeID] ∧
        relay P (hop :: hops) request = ⟨hop.runtime.nodeID :: (relay P hops forward).nodes, (relay P hops forward).dials⟩ := by
  rw [relay, if_pos h]
  cases heffect : hop.runtime.handleRelay P hop.credentialID request with
  | error e => exact .inl ⟨[], rfl, Nat.zero_le _⟩
  | ok effect =>
    cases effect with
    | dial host port protocol => exact .inl ⟨_, rfl, le_rfl⟩
    | openPeer next forward =>
      rw [Runtime.handleRelay_admitted h] at heffect
      exact .inr ⟨forward, Runtime.handleAccepted_visited heffect, rfl⟩

/-- every node of the chain is new, and with the visited nodes there are no more than the header allows -/
theorem relay_inv (hops : List (Hop Addr)) : ∀ request : RelayRequest,
    (relay P hops request).nodes.Nodup ∧ (∀ id ∈ (relay P hops request).nodes, id ∉ request.visitedNodeIDs) ∧
      ((relay P hops request).nodes ≠ [] → request.visitedNodeIDs ≠ [] ∧
        (relay P hops request).nodes.length + request.visitedNodeIDs.length ≤ maxRouteHops + 1) ∧
      (relay P hops request).dials.length ≤ 1 := by
  induction hops with
  | nil =>
    intro request
    exact ⟨nodup_nil, nofun, fun h => absurd rfl h, Nat.zero_le _⟩
  | cons hop hops ih =>
    intro request
    by_cases hadmits : hop.runtime.Admits P hop.credentialID request
    · have haccepted := (validateRelayRequest_iff _ _).mp hadmits.2.2
      have hself : hop.runtime.nodeID ∉ request.visitedNodeIDs := fun hmem =>
        (haccepted.identifiers _ (mem_append_left _ hmem)).2 rfl
      have hlength := haccepted.visited_le
      have hne : request.visitedNodeIDs ≠ [] := by
        rintro hnil
        have := hadmits.2.1
        simp only [Runtime.authorized, hnil] at this
        split at this <;> simp at this
      rcases relay_cons hop hops hadmits with ⟨dials, heq, hdials⟩ | ⟨forward, hforward, heq⟩
      · rw [heq]
        refine ⟨nodup_singleton _, fun id hid => ?_, fun _ => ⟨hne, ?_⟩, hdials⟩
        · obtain rfl := mem_singleton.mp hid
          exact hself
        · simp only [length_singleton]
          omega
      · obtain ⟨hnodup, hnew, hcount, hdials⟩ := ih forward
        rw [heq]
        rw [hforward] at hnew hcount
        refine ⟨nodup_cons.mpr ⟨fun hmem => hnew _ hmem (by simp), hnodup⟩, fun id hid => ?_, fun _ => ⟨hne, ?_⟩, hdials⟩
        · rcases mem_cons.mp hid with rfl | hid
          · exact hself
          · exact fun hmem => hnew id hid (mem_append_left _ hmem)
        by_cases hrest : (relay P hops forward).nodes = []
        · simp only [hrest, length_singleton]
          omega
        · have := (hcount hrest).2
          simp only [length_append, length_cons, length_nil] at this ⊢
          omega
    · rw [relay, if_neg hadmits]
      exact ⟨nodup_nil, nofun, fun h => absurd rfl h, Nat.zero_le _⟩

variable (P)

/-- **Relaying is bounded.** Whatever the nodes know and whoever is connected to whom, the nodes at which a request gets past
validation are distinct and new, there are at most three of them, and at most one dial follows. -/
theorem relay_bounded (hops : List (Hop Addr)) (request : RelayRequest) :
    (relay P hops request).nodes.Nodup ∧ (∀ id ∈ (relay P hops request).nodes, id ∉ request.visitedNodeIDs) ∧
      (relay P hops request).nodes.length ≤ maxRouteHops ∧ (relay P hops request).dials.length ≤ 1 := by
  obtain ⟨hnodup, hnew, hcount, hdials⟩ := relay_inv (P := P) hops request
  refine ⟨hnodup, hnew, ?_, hdials⟩
  by_cases hnil : (relay P hops request).nodes = []
  · simp [hnil]
  obtain ⟨hne, hle⟩ := hcount hnil
  have := length_pos_iff.mpr hne
  omega

end Chain

/-! ## The master -/

namespace Runtime

variable {Addr : Type} {P : Platform Addr} {runtime : Runtime Addr} {request : RelayRequest}

/-- the node's own state has the user, with every node that is left to visit -/
def Reauthorised (runtime : Runtime Addr) (request : RelayRequest) : Prop :=
  ∃ state, runtime.loadState = some (some state) ∧ ∃ access ∈ state.access, access.userID = request.userID ∧
    ∀ id ∈ request.remainingNodeIDs, id ∈ access.allowedNodeIDs

variable {action : RouteAction} {routeID userID host : Str} {port : ℕ} {protocol : NetworkProtocol} {visited : List Str}
  {traceID : Str}

theorem validAction_length (h : validAction action = true) : action.nodeIDs.length ≤ maxRouteHops := by
  unfold validAction at h
  cases hkind : action.kind <;> simp only [hkind, Bool.and_eq_true, decide_eq_true_eq] at h
  case node => exact h.trans_le (by decide)
  case other => cases h
  all_goals simp [h]

theorem validAction_nodup (h : validAction action = true) : action.nodeIDs.Nodup := by
  unfold validAction at h
  cases hkind : action.kind <;> simp only [hkind, Bool.and_eq_true, decide_eq_true_eq] at h
  case node =>
    obtain ⟨x, hx⟩ := length_eq_one_iff.mp h
    exact hx ▸ nodup_singleton x
  case chain =>
    have hdup := h.2
    simp only [hasDuplicates, Bool.not_or, Bool.not_not, Bool.and_eq_true, decide_eq_true_eq] at hdup
    exact hdup.1
  case other => cases h
  all_goals simp [h]

/-- an action that is no block is its path -/
theorem applyAction_eq (haction : validAction action = true) (hblock : action.kind ≠ .block) :
    runtime.applyAction action routeID userID host port protocol visited traceID =
      runtime.followPath (runtime.pathOf action) routeID userID host port protocol visited traceID := by
  unfold applyAction
  unfold validAction at haction
  cases hkind : action.kind <;> simp only [hkind, decide_eq_true_eq] at haction ⊢
  case block => exact absurd hkind hblock
  case other => cases haction
  all_goals
    have hpath : runtime.pathOf action = [] := by simp [pathOf, haction]
    exact (if_pos hpath).symm

theorem pathOf_length (runtime : Runtime Addr) (haction : validAction action = true) :
    (runtime.pathOf action).length ≤ maxRouteHops :=
  (dropWhile_sublist _).length_le.trans (validAction_length haction)

/-- the master goes to the first node of a path -/
theorem nextHop_master (hmaster : runtime.nodeID = runtime.masterNodeID) (path : List Str) :
    runtime.nextHop path = (path.headD [], path.tail) := if_neg fun h => h.1 hmaster

/-- the master can follow every path of an action -/
theorem followPath_master (hmaster : runtime.nodeID = runtime.masterNodeID) {path : List Str} (hne : path ≠ [])
    (hlength : path.length ≤ maxRouteHops) (htrace : traceID ≠ []) :
    runtime.followPath path routeID userID host port protocol visited traceID =
      .ok (some (.openPeer (path.headD []) (runtime.firstRequest path routeID userID host port protocol visited traceID))) := by
  have hnext : ¬maxRouteHops < (runtime.nextHop path).2.length + 1 := by
    have := length_pos_iff.mpr hne
    simp only [nextHop_master hmaster, length_tail]
    omega
  rw [followPath, if_neg hne, if_neg (Nat.not_lt.mpr hlength), if_neg htrace]
  dsimp only
  rw [if_neg hnext, nextHop_master hmaster]

theorem resolve_resolved (h : runtime.resolve P userID host port protocol = .ok (action, routeID)) :
    ∃ state, runtime.loadState = some (some state) ∧ Resolved P state userID action routeID := by
  unfold resolve at h
  split at h
  · rename_i state hstate
    exact ⟨state, hstate, resolveRoute_resolved (mapError_ok h)⟩
  · cases h

theorem resolveClient_resolved {client : ClientRouteRequest}
    (h : runtime.resolveClient P userID host port protocol client = .ok (action, routeID)) :
    ∃ state, runtime.loadState = some (some state) ∧ Resolved P state userID action routeID ∧
      validateClientRouteRequest client = true := by
  unfold resolveClient at h
  split at h
  · rename_i state hstate
    exact ⟨state, hstate, resolveClientRoute_resolved (mapError_ok h)⟩
  · cases h

theorem resolution_validAction (h : runtime.resolution P request = .ok (action, routeID)) : validAction action = true := by
  unfold resolution at h
  split at h
  · obtain ⟨_, -, hresolved, -⟩ := resolveClient_resolved h
    exact hresolved.wellFormed
  · obtain ⟨_, -, hresolved⟩ := resolve_resolved h
    exact hresolved.wellFormed

/-- what the master does for an accepted request: an explicit path is followed, the rest is resolved -/
theorem handleAccepted_master (hmaster : runtime.nodeID = runtime.masterNodeID) (h : Accepted P request runtime.nodeID) :
    (∃ effect, runtime.handleAccepted P request = .ok effect) ↔
      (request.routeID = resolveRouteID → ∃ action routeID, runtime.resolution P request = .ok (action, routeID) ∧
        action.kind ≠ .block) := by
  unfold handleAccepted
  by_cases hresolve : request.routeID = resolveRouteID
  · simp only [hresolve, if_true, hmaster, ne_eq, not_true_eq_false, if_false, true_imp_iff]
    cases hres : runtime.resolution P request with
    | error e => simp
    | ok resolved =>
      obtain ⟨action, routeID⟩ := resolved
      simp only [Except.ok.injEq, Prod.mk.injEq, exists_and_right]
      by_cases hblock : action.kind = .block
      · simp [applyAction, hblock]
      have haction := resolution_validAction hres
      rw [applyAction_eq haction hblock]
      refine ⟨fun _ => ⟨action, ⟨routeID, rfl, rfl⟩, hblock⟩, fun _ => ?_⟩
      by_cases hnil : runtime.pathOf action = []
      · rw [followPath, if_pos hnil]
        exact ⟨_, dialTerminal_known h.protocol_known⟩
      · rw [followPath_master hmaster hnil (pathOf_length runtime haction) h.traceID_ne]
        exact ⟨_, rfl⟩
  · simp only [hresolve, if_false, false_imp_iff, iff_true]
    cases request.remainingNodeIDs with
    | nil => exact ⟨_, dialTerminal_known h.protocol_known⟩
    | cons next rest => exact ⟨_, rfl⟩

end Runtime

/-- **The master acts only for what its state authorises.** For a request that it does not authorise this holds exactly when the
request is refused before it is routed, or is to be resolved and the master refuses or blocks it. -/
theorem reauthorised_iff {Addr : Type} (P : Platform Addr) (runtime : Runtime Addr) (hmaster : runtime.nodeID = runtime.masterNodeID)
    (credentialID : Str) (request : RelayRequest) (hauth : ¬runtime.Reauthorised request) :
    (∀ effect, runtime.handleRelay P credentialID request = .ok effect → runtime.Reauthorised request) ↔
      ¬runtime.Admits P credentialID request ∨ request.routeID = resolveRouteID ∧
        ∀ action routeID, runtime.resolution P request = .ok (action, routeID) → action.kind = .block := by
  simp only [hauth, imp_false]
  by_cases hadmits : runtime.Admits P credentialID request
  · have haccepted := (validateRelayRequest_iff _ _).mp hadmits.2.2
    have hacts := Runtime.handleAccepted_master hmaster haccepted
    rw [Runtime.handleRelay_admitted hadmits, or_iff_right (not_not.mpr hadmits), ← not_exists, hacts, Classical.not_imp]
    simp only [not_exists, not_and, not_not]
  · obtain ⟨e, he⟩ := Runtime.handleRelay_refused hadmits
    simp [he, hadmits]

/-- the hub of `edgeState` -/
def hubRuntime : Runtime (List ℕ) where
  nodeID := ascii "hub"
  masterNodeID := ascii "hub"
  peerPrincipals := [(ascii "peer-edge", ascii "edge")]
  loadState := some (some (edgeState (ascii "edge")))
  wired := true
  geoMatcher := none
  random := some fun _ => 0

/-- the edge asks the hub to dial `example.com` -/
def dialRequest (routeID userID : Str) : RelayRequest where
  version := 1
  routeID := routeID
  userID := userID
  remainingHops := 1
  visitedNodeIDs := [ascii "edge"]
  remainingNodeIDs := []
  traceID := ascii "0011223344556677"
  targetHost := ascii "example.com"
  targetPort := 443
  protocol := .tcp
  clientRoute := none

theorem mallory_unknown (routeID : Str) : ¬hubRuntime.Reauthorised (dialRequest routeID (ascii "mallory")) := by
  rintro ⟨state, hstate, access, hmem, hid, -⟩
  cases Option.some.inj hstate
  obtain rfl := mem_singleton.mp hmem
  exact absurd (show ascii "alice" = ascii "mallory" from hid) (by decide)

/-- an unknown user's request, which the hub is to resolve -/
theorem reauthorised_mallory :
    hubRuntime.Admits asciiPlatform (ascii "peer-edge") (dialRequest resolveRouteID (ascii "mallory")) ∧
      ∀ effect, hubRuntime.handleRelay asciiPlatform (ascii "peer-edge") (dialRequest resolveRouteID (ascii "mallory")) ≠
        .ok effect := by
  have hunknown := mallory_unknown resolveRouteID
  have hrefused : hubRuntime.resolution asciiPlatform (dialRequest resolveRouteID (ascii "mallory")) =
      .error (.resolve .invalidState) := by decide
  refine ⟨by decide, fun effect heffect => hunknown ?_⟩
  exact (reauthorised_iff asciiPlatform hubRuntime rfl _ _ hunknown).mpr (.inr ⟨rfl, by simp [hrefused]⟩) effect heffect

/-- **The master dials for a user it does not know.** -/
theorem unknown_user_dialled :
    ¬∀ (P : Platform (List ℕ)) (runtime : Runtime (List ℕ)), runtime.nodeID = runtime.masterNodeID → ∀ credentialID request effect,
      runtime.handleRelay P credentialID request = .ok effect → runtime.Reauthorised request := by
  intro h
  exact mallory_unknown _ (h asciiPlatform hubRuntime rfl (ascii "peer-edge") (dialRequest (ascii "via-hub") (ascii "mallory"))
    (.dial (ascii "example.com") 443 .tcp) (by decide))

end NeProto.Cluster
