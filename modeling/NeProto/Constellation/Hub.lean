/-
The server's constellations (`internal/constellation/controller.go` and `hub.go`): a controller holds the leases of one
constellation, the hub holds the controllers and the tickets. What the source does under the hub's lock is one function.

- Leases stand in the order they were added; a lease ID is never reused, since message IDs run out long before.
- Left out: carrier kinds and resources (always valid here), load and lease selection, and the drain transitions, which
  nothing calls; closing a resource ends its session, which is an operation of its own.
- `createPending_cases`, `attachPending_cases`: what an admission can do to the tickets.
-/
import NeProto.Continuity.TicketRegistry

namespace NeProto.Constellation

open Continuity (TicketRegistry TicketErr TicketGrant TicketRecord)

/-! ## Controller -/

inductive LeaseState where
  | active
  | draining
deriving DecidableEq

structure LeaseRecord where
  id : ℕ
  key : ℕ
  state : LeaseState
deriving DecidableEq

inductive ControllerErr where
  | config
  | closed
  | binding
  | duplicate
  | capacity
  | notFound

structure Controller where
  principal : ℕ
  constellationID : ℕ
  maxActive : ℕ
  maxDraining : ℕ
  nextID : ℕ
  primaryID : ℕ
  leases : List LeaseRecord
  closed : Bool
deriving DecidableEq

namespace Controller

variable (c : Controller)

/-- `countStateLocked` -/
def countState (state : LeaseState) : ℕ := c.leases.countP fun l => l.state = state

/-- `firstActiveLocked` -/
def firstActive : ℕ := ((c.leases.find? fun l => l.state = .active).map LeaseRecord.id).getD 0

/-- `addLocked` -/
def addLocked (key : ℕ) : Controller × ℕ :=
  ({ c with nextID := c.nextID + 1, leases := c.leases ++ [⟨c.nextID, key, .active⟩] }, c.nextID)

/-- `validateCandidate` -/
def validateCandidate (key principal constellationID : ℕ) : Bool :=
  decide (key ≠ 0 ∧ principal = c.principal ∧ constellationID = c.constellationID)

/-- `NewController` with its first lease -/
def new (principal constellationID maxActive maxDraining key : ℕ) : Except ControllerErr Controller :=
  if principal = 0 ∨ constellationID = 0 ∨ maxActive = 0 ∨ 8 < maxActive ∨ maxDraining = 0 ∨ 8 < maxDraining then
    .error .config
  else
    let c : Controller := ⟨principal, constellationID, maxActive, maxDraining, 1, 0, [], false⟩
    if c.validateCandidate key principal constellationID then .ok { (c.addLocked key).1 with primaryID := (c.addLocked key).2 }
    else .error .binding

def add (key principal constellationID : ℕ) : Controller × Except ControllerErr ℕ :=
  if !c.validateCandidate key principal constellationID then (c, .error .binding)
  else if c.closed then (c, .error .closed)
  else if ∃ l ∈ c.leases, l.key = key then (c, .error .duplicate)
  else if c.maxActive ≤ c.countState .active then (c, .error .capacity)
  else
    let (c, id) := c.addLocked key
    ({ c with primaryID := if c.primaryID = 0 then id else c.primaryID }, .ok id)

/-- `Fail` -/
def fail (id : ℕ) : Controller × Except ControllerErr Unit :=
  if c.closed then (c, .error .closed)
  else if ∀ l ∈ c.leases, l.id ≠ id then (c, .error .notFound)
  else
    let rest := { c with leases := c.leases.filter fun l => l.id ≠ id }
    ({ rest with primaryID := if c.primaryID = id then rest.firstActive else c.primaryID }, .ok ())

end Controller

/-! ## Hub -/

inductive HubErr where
  | binding
  | closed
  | duplicate
  | capacity
  | controller (e : ControllerErr)
  | ticket (e : TicketErr)

/-- `ticketAdmission`, with its kind -/
inductive Admission where
  | issue (principal next : ℕ)
  | rotate (principal current next : ℕ) (grant : TicketGrant)
deriving DecidableEq

structure Attachment where
  constellationID : ℕ
  leaseID : ℕ
  leaseKey : ℕ
  ticket : ℕ
  primary : Bool
  admission : Option Admission
deriving DecidableEq

structure HubRecord where
  principal : ℕ
  controller : Controller
  lastSeen : ℕ
deriving DecidableEq

structure Hub where
  maxConstellations : ℕ
  maxLeases : ℕ
  maxDraining : ℕ
  inactiveTTL : ℕ
  tickets : TicketRegistry
  records : GoMap HubRecord
  closed : Bool

namespace Hub

/-- `NewHub` with limits it accepts -/
def new (maxConstellations maxLeases maxDraining inactiveTTL maxTickets ttl : ℕ) : Hub :=
  ⟨maxConstellations, maxLeases, maxDraining, inactiveTTL, .new maxTickets ttl, ∅, false⟩

/-- `validateHubLease` -/
def validLease (principal constellationID transcript leaseKey : ℕ) : Bool :=
  decide (principal ≠ 0 ∧ constellationID ≠ 0 ∧ transcript ≠ 0 ∧ leaseKey ≠ 0)

variable (h : Hub)

/-- `cleanup` drops the constellations that have been without leases for `inactiveTTL` -/
def cleanup (now : ℕ) : Hub :=
  if h.closed then h
  else
    { h with records := GoMap.filter h.records fun _ record =>
               !decide (record.controller.countState .active = 0 ∧ record.controller.countState .draining = 0 ∧
                 record.lastSeen ≤ now ∧ h.inactiveTTL ≤ now - record.lastSeen) }

/-- `createPending` after its `cleanup` -/
def createPending (now principal constellationID transcript leaseKey : ℕ) (drawn : List ℕ) :
    Hub × Except HubErr Attachment :=
  if !validLease principal constellationID transcript leaseKey then (h, .error .binding)
  else if h.closed then (h, .error .closed)
  else if h.records.lookup constellationID ≠ none then (h, .error .duplicate)
  else if h.maxConstellations ≤ h.records.size then (h, .error .capacity)
  else match Controller.new principal constellationID h.maxLeases h.maxDraining leaseKey with
    | .error e => (h, .error (.controller e))
    | .ok controller =>
      match h.tickets.issue now principal constellationID transcript drawn with
      | (tickets, .error e) => ({ h with tickets := tickets }, .error (.ticket e))
      | (tickets, .ok ticket) =>
        ({ h with tickets := tickets, records := h.records.insert constellationID ⟨principal, controller, now⟩ },
          .ok ⟨constellationID, controller.primaryID, leaseKey, ticket, true, some (.issue principal ticket)⟩)

/-- `attachPending` after its `cleanup` -/
def attachPending (now ticket principal constellationID transcript leaseKey : ℕ) (drawn : List ℕ) :
    Hub × Except HubErr Attachment :=
  if !validLease principal constellationID transcript leaseKey then (h, .error .binding)
  else if h.closed then (h, .error .closed)
  else match h.records.lookup constellationID with
    | none => (h, .error .binding)
    | some record =>
      if record.principal ≠ principal then (h, .error .binding)
      else match record.controller.add leaseKey principal constellationID with
        | (_, .error e) => (h, .error (.controller e))
        | (controller, .ok leaseID) =>
          match h.tickets.rotate now ticket principal constellationID transcript drawn with
          | (tickets, .error e) =>
            ({ h with tickets := tickets
                      records := h.records.insert constellationID { record with controller := (controller.fail leaseID).1 } },
              .error (.ticket e))
          | (tickets, .ok (next, grant)) =>
            ({ h with tickets := tickets
                      records := h.records.insert constellationID { record with controller := controller, lastSeen := now } },
              .ok ⟨constellationID, leaseID, leaseKey, next, false, some (.rotate principal ticket next grant)⟩)

/-- `abortAdmission`; it also says whether an undelivered creation was undone -/
def abortAdmission (now : ℕ) (a : Attachment) : Hub × Bool :=
  match a.admission with
  | none => (h, false)
  | some (.issue principal next) => ({ h with tickets := (h.tickets.revoke now next principal a.constellationID).1 }, true)
  | some (.rotate principal current next grant) =>
    ({ h with tickets := (h.tickets.rollbackRotate now current next principal a.constellationID grant).1 }, false)

/-- `discard` -/
def discard (id leaseID : ℕ) : Hub :=
  match h.records.lookup id with
  | none => h
  | some record => if record.controller.primaryID ≠ leaseID then h else { h with records := h.records.erase id }

/-- `release` up to `Fail`; the second component says whether there was a record -/
def releaseFail (id leaseID : ℕ) : Hub × Bool :=
  match h.records.lookup id with
  | none => (h, false)
  | some record =>
    ({ h with records := h.records.insert id { record with controller := (record.controller.fail leaseID).1 } }, true)

/-- the end of `release`; a constellation ID is not created twice, so it is the same record -/
def releaseSeen (now id : ℕ) : Hub :=
  match h.records.lookup id with
  | none => h
  | some record => { h with records := h.records.insert id { record with lastSeen := now } }

/-! ## What an admission does to the tickets -/

variable (now ticket principal constellationID transcript leaseKey : ℕ) (drawn : List ℕ)

inductive Created : Hub × Except HubErr Attachment → Prop where
  | refused {h' : Hub} {e : HubErr} (he : TicketRegistry.Edited now h.tickets h'.tickets none none) :
    Created (h', .error e)
  | created {h' : Hub} {a : Attachment} {t : ℕ} (hp : principal ≠ 0) (hc : constellationID ≠ 0) (hd : t ∈ drawn) (h0 : t ≠ 0)
    (he : TicketRegistry.Edited now h.tickets h'.tickets none
      (some (t, ⟨principal, constellationID, transcript, now + h.tickets.ttl⟩)))
    (ha : a.constellationID = constellationID ∧ a.leaseKey = leaseKey ∧ a.ticket = t ∧
      a.admission = some (.issue principal t)) :
    Created (h', .ok a)

theorem createPending_cases :
    Created h now principal constellationID transcript leaseKey drawn
      (h.createPending now principal constellationID transcript leaseKey drawn) := by
  have hr := TicketRegistry.Edited.refl now h.tickets
  unfold createPending
  split
  · exact .refused hr
  rename_i hv
  obtain ⟨hp, hc, -, -⟩ := of_decide_eq_true (by simpa using hv : validLease _ _ _ _ = true)
  iterate 4
    split
    · exact .refused hr
  have hi := h.tickets.issue_cases now principal constellationID transcript drawn
  split
  · rename_i hx
    rw [hx] at hi
    cases hi with
    | refused hk => exact .refused hk
  · rename_i hx
    rw [hx] at hi
    cases hi with
    | issued hd h0 he => exact .created hp hc hd h0 he ⟨rfl, rfl, rfl, rfl⟩

inductive Attached : Hub × Except HubErr Attachment → Prop where
  | refused {h' : Hub} {e : HubErr} (he : TicketRegistry.Edited now h.tickets h'.tickets none none) :
    Attached (h', .error e)
  | attached {h' : Hub} {a : Attachment} {grant : TicketGrant} {next : ℕ} (hp : principal ≠ 0) (hc : constellationID ≠ 0)
    (hrot : TicketRegistry.Rotated h.tickets now ticket principal constellationID transcript drawn
      (h'.tickets, .ok (next, grant)))
    (ha : a.constellationID = constellationID ∧ a.leaseKey = leaseKey ∧ a.ticket = next ∧
      a.admission = some (.rotate principal ticket next grant)) :
    Attached (h', .ok a)

theorem attachPending_cases :
    Attached h now ticket principal constellationID transcript leaseKey drawn
      (h.attachPending now ticket principal constellationID transcript leaseKey drawn) := by
  have hr := TicketRegistry.Edited.refl now h.tickets
  unfold attachPending
  split
  · exact .refused hr
  rename_i hv
  obtain ⟨hp, hc, -, -⟩ := of_decide_eq_true (by simpa using hv : validLease _ _ _ _ = true)
  iterate 4
    split
    · exact .refused hr
  have hi := h.tickets.rotate_cases now ticket principal constellationID transcript drawn
  split
  · rename_i hx
    rw [hx] at hi
    cases hi with
    | refused hk => exact .refused hk
  · rename_i tickets next grant hx
    rw [hx] at hi
    exact .attached hp hc hi ⟨rfl, rfl, rfl, rfl⟩

end Hub

end NeProto.Constellation
