/-
The admission exchange of a client and the server (`internal/constellation/control.go`): the client creates a constellation
or attaches a new carrier with its ticket, `ServerControl.Admit` answers with a ticket. MODEL: one honest client, which makes
one exchange at a time (`c.mu`), and any number of carriers, each with one request and one answer in flight; the server runs
one `Admit` per carrier and all of them interleave. Everything here is one machine for the runs that lose messages and for
those that do not.

- Sessions are numbered; the lease key and the transcript of a session are derived from its keys, so they are distinct and
  not zero (`key`).
- A carrier may be lost at any moment (`lose`); the answer is on its way once it is handed to the carrier (`put`), whatever
  `SendContinuity` then returns (`sendReturn`). The client may stop waiting at any moment (`giveUp`).
- Other users, and other constellations of this user, make requests of any shape (`foreign`).
- `issued`, `held`, `ids` and `others` only record: the tickets the registry has made, those the client has had, and the
  constellation IDs this client and the others of its user have named.
Left out: capability negotiation, malformed frames, and the shutdown of the server.
-/
import NeProto.Lib.Machine
import NeProto.Constellation.Hub
import NeProto.Continuity.Journal

namespace NeProto.Constellation

open Continuity (TicketRegistry TicketRecord maxSequence)

/-! ## State -/

inductive FrameType where
  | constellationCreate
  | leaseIssue
  | leaseAttach
  | leaseAccept
deriving DecidableEq

/-- `ContinuityFrame`; 0 is no token -/
structure Frame where
  type : FrameType
  messageID : ℕ
  constellationID : ℕ
  token : ℕ
deriving DecidableEq

structure ClientControl where
  constellationID : ℕ
  leaseKey : ℕ
  ticket : ℕ
  nextMessageID : ℕ
deriving DecidableEq

/-- `ClientControlState.Ready` -/
def ClientControl.ready (c : ClientControl) : Bool := decide (c.constellationID ≠ 0 ∧ c.ticket ≠ 0)

/-- the client's call in progress -/
inductive Phase where
  | idle
  /-- in `ReceiveContinuity` on carrier `s`, after the request -/
  | waiting (s : ℕ) (request : Frame)
deriving DecidableEq

/-- the server's session on a carrier -/
inductive Serving where
  /-- `Admit` waits for the request -/
  | waiting
  /-- in `SendContinuity`; the answer is already on the carrier or not -/
  | sending (a : Attachment) (put : Bool)
  /-- in `Attachment.Close` after `abortAdmission` -/
  | closing (a : Attachment) (undelivered : Bool)
  /-- in `release` after `Fail` -/
  | released (a : Attachment)
  /-- `Admit` returned the attachment -/
  | serving (a : Attachment)
  | closed
deriving DecidableEq

/-- the session is in `SendContinuity` -/
def Serving.sends : Serving → Bool
  | .sending _ _ => true
  | _ => false

structure Carrier where
  principal : ℕ
  /-- a carrier of this client -/
  own : Bool
  request : Frame
  /-- the request can still reach the server -/
  delivered : Bool
  alive : Bool
  server : Serving
  response : Option Frame
deriving DecidableEq

structure St where
  now : ℕ
  hub : Hub
  client : ClientControl
  phase : Phase
  carriers : ℕ → Option Carrier
  nextCarrier : ℕ
  issued : List (ℕ × TicketRecord)
  held : List ℕ
  ids : List ℕ
  others : List ℕ

/-- `firstContinuityMessageID` -/
def firstContinuityMessageID : ℕ := 3

/-- `firstForwardSecretContinuityMessageID` -/
def firstForwardSecretContinuityMessageID : ℕ := 5

def init (hub : Hub) : St where
  now := 0
  hub := hub
  client := ⟨0, 0, 0, firstContinuityMessageID⟩
  phase := .idle
  carriers := fun _ => none
  nextCarrier := 0
  issued := []
  held := []
  ids := []
  others := []

namespace St

/-- the lease key and the transcript of session `s` -/
def key (s : ℕ) : ℕ := s + 1

variable (w : St)

def setCarrier (s : ℕ) (c : Carrier) : St := { w with carriers := Function.update w.carriers s (some c) }

def onCarrier (s : ℕ) (g : Carrier → St) : St :=
  match w.carriers s with
  | some c => g c
  | none => w

theorem onCarrier_of {P : St → Prop} {w : St} {s : ℕ} {g : Carrier → St} (h : P w)
    (hg : ∀ c, w.carriers s = some c → P (g c)) : P (w.onCarrier s g) := by
  unfold onCarrier
  split
  · exact hg _ ‹_›
  · exact h

/-! ## The client -/

/-- `takeMessageIDLocked` -/
def takeMessageID (c : ClientControl) : Option (ℕ × ClientControl) :=
  if c.nextMessageID < firstContinuityMessageID ∨ maxSequence < c.nextMessageID then none
  else some (c.nextMessageID, { c with nextMessageID := c.nextMessageID + 1 })

theorem takeMessageID_eq {c c' : ClientControl} {id : ℕ} (h : takeMessageID c = some (id, c')) :
    c' = { c with nextMessageID := c.nextMessageID + 1 } ∧ firstContinuityMessageID ≤ c.nextMessageID := by
  unfold takeMessageID at h
  split_ifs at h
  obtain ⟨-, rfl⟩ : c.nextMessageID = id ∧ _ = c' := by simpa using h
  exact ⟨rfl, by omega⟩

/-- the request goes out on a new carrier; `sent` is what `SendContinuity` said and `delivered` whether it can arrive -/
def send (principal : ℕ) (request : Frame) (sent delivered : Bool) : St :=
  { w with carriers := Function.update w.carriers w.nextCarrier (some ⟨principal, true, request, delivered, true, .waiting, none⟩)
           nextCarrier := w.nextCarrier + 1
           phase := if sent then .waiting w.nextCarrier request else .idle }

/-- with forward secrecy negotiated the first message IDs are taken -/
def startMessageID (c : ClientControl) (forwardSecret : Bool) : ClientControl :=
  if forwardSecret ∧ c.nextMessageID = firstContinuityMessageID then
    { c with nextMessageID := firstForwardSecretContinuityMessageID }
  else c

theorem startMessageID_eq (c : ClientControl) (forwardSecret : Bool) :
    ∃ n, startMessageID c forwardSecret = { c with nextMessageID := n } ∧ c.nextMessageID ≤ n := by
  unfold startMessageID
  split_ifs with h
  · exact ⟨_, rfl, h.2.trans_le (by decide)⟩
  · exact ⟨_, rfl, le_rfl⟩

/-- `ClientControl.Create` up to its wait; `id` is the random constellation ID -/
def create (principal : ℕ) (forwardSecret : Bool) (id : ℕ) (sent delivered : Bool) : St :=
  if w.phase ≠ .idle then w
  else
    let w := { w with client := startMessageID w.client forwardSecret }
    if w.client.constellationID ≠ 0 ∨ w.client.ticket ≠ 0 ∨ id = 0 then w
    else match takeMessageID w.client with
      | none => w
      | some (messageID, client) =>
        { w with client := client, ids := w.ids ++ [id] }.send principal ⟨.constellationCreate, messageID, id, 0⟩ sent delivered

/-- `ClientControl.Attach` up to its wait -/
def attach (principal : ℕ) (sent delivered : Bool) : St :=
  if w.phase ≠ .idle ∨ w.client.constellationID = 0 ∨ w.client.ticket = 0 then w
  else match takeMessageID w.client with
    | none => w
    | some (messageID, client) =>
      { w with client := client }.send principal ⟨.leaseAttach, messageID, w.client.constellationID, w.client.ticket⟩
        sent delivered

/-- the client reads the answer -/
def receive : St :=
  match w.phase with
  | .idle => w
  | .waiting s request => w.onCarrier s fun c =>
    match c.response with
    | none => w
    | some answer =>
      let w := { w.setCarrier s { c with response := none } with phase := .idle }
      if answer.messageID ≠ request.messageID ∨ answer.constellationID ≠ request.constellationID ∨ answer.token = 0 then w
      else match request.type, answer.type with
        | .constellationCreate, .leaseIssue =>
          { w with client := { w.client with constellationID := request.constellationID, leaseKey := key s
                                             ticket := answer.token }
                   held := w.held ++ [answer.token] }
        | .leaseAttach, .leaseAccept =>
          { w with client := { w.client with ticket := answer.token, leaseKey := key s }, held := w.held ++ [answer.token] }
        | _, _ => w

/-- `ReceiveContinuity` fails: the context ended, or the carrier is gone -/
def giveUp : St := { w with phase := .idle }

/-! ## The server -/

/-- `Admit` on the request; `drawn` is what the random source gives -/
def admitRequest (s : ℕ) (drawn : List ℕ) : St :=
  w.onCarrier s fun c =>
    if c.server ≠ .waiting ∨ !c.delivered then w
    else if maxSequence ≤ c.request.messageID then w.setCarrier s { c with server := .closed }
    else
      let x := match c.request.type with
        | .constellationCreate =>
          w.hub.createPending w.now c.principal c.request.constellationID (key s) (key s) drawn
        | .leaseAttach =>
          w.hub.attachPending w.now c.request.token c.principal c.request.constellationID (key s) (key s) drawn
        | _ => (w.hub, .error .binding)
      match x with
      | (hub, .error _) => { w.setCarrier s { c with server := .closed } with hub := hub }
      | (hub, .ok a) =>
        { w.setCarrier s { c with server := .sending a false } with
          hub := hub
          issued := w.issued ++ [(a.ticket, ⟨c.principal, c.request.constellationID, key s, w.now + w.hub.tickets.ttl⟩)] }

/-- the answer to a request -/
def answer (request : Frame) (ticket : ℕ) : Frame :=
  ⟨if request.type = .constellationCreate then .leaseIssue else .leaseAccept, request.messageID, request.constellationID,
    ticket⟩

/-- `SendContinuity` hands the answer to the carrier -/
def put (s : ℕ) : St :=
  w.onCarrier s fun c =>
    match c.server with
    | .sending a false =>
      w.setCarrier s { c with server := .sending a true
                              response := if c.alive then some (answer c.request a.ticket) else none }
    | _ => w

/-- `SendContinuity` returns; the admission is committed or aborted -/
def sendReturn (s : ℕ) (ok : Bool) : St :=
  w.onCarrier s fun c =>
    match c.server with
    | .sending a put =>
      if ok then if put then w.setCarrier s { c with server := .serving { a with admission := none } } else w
      else
        let x := w.hub.abortAdmission w.now a
        { w.setCarrier s { c with server := .closing { a with admission := none } x.2 } with hub := x.1 }
    | _ => w

/-- the session ends and `Attachment.Close` runs -/
def close (s : ℕ) : St :=
  w.onCarrier s fun c =>
    match c.server with
    | .serving a => w.setCarrier s { c with server := .closing a false }
    | _ => w

/-- `Attachment.Close` goes on with `discard` or `release` -/
def release (s : ℕ) : St :=
  w.onCarrier s fun c =>
    match c.server with
    | .closing a true =>
      { w.setCarrier s { c with server := .closed } with hub := w.hub.discard a.constellationID a.leaseID }
    | .closing a false =>
      let x := w.hub.releaseFail a.constellationID a.leaseID
      { w.setCarrier s { c with server := if x.2 then .released a else .closed } with hub := x.1 }
    | .released a =>
      { w.setCarrier s { c with server := .closed } with hub := w.hub.releaseSeen w.now a.constellationID }
    | _ => w

/-- the carrier is lost with what is in flight on it -/
def lose (s : ℕ) : St :=
  w.onCarrier s fun c => w.setCarrier s { c with alive := false, delivered := false, response := none }

/-- another client of user `p` makes a request on a carrier of its own -/
def foreign (principal p : ℕ) (request : Frame) : St :=
  if p = principal ∧ request.constellationID ∈ w.ids then w
  else
    { w with carriers := Function.update w.carriers w.nextCarrier (some ⟨p, false, request, true, true, .waiting, none⟩)
             nextCarrier := w.nextCarrier + 1
             others := if p = principal then w.others ++ [request.constellationID] else w.others }

/-! ## The machine -/

inductive Op where
  | tick (d : ℕ)
  | create (forwardSecret : Bool) (id : ℕ) (sent delivered : Bool)
  | attach (sent delivered : Bool)
  | receive
  | giveUp
  | admitRequest (s : ℕ) (drawn : List ℕ)
  | put (s : ℕ)
  | sendReturn (s : ℕ) (ok : Bool)
  | close (s : ℕ)
  | release (s : ℕ)
  | cleanup
  | lose (s : ℕ)
  | foreign (p : ℕ) (request : Frame)

def step (principal : ℕ) (w : St) : Op → St
  | .tick d => { w with now := w.now + d }
  | .create forwardSecret id sent delivered => w.create principal forwardSecret id sent delivered
  | .attach sent delivered => w.attach principal sent delivered
  | .receive => w.receive
  | .giveUp => w.giveUp
  | .admitRequest s drawn => w.admitRequest s drawn
  | .put s => w.put s
  | .sendReturn s ok => w.sendReturn s ok
  | .close s => w.close s
  | .release s => w.release s
  | .cleanup => { w with hub := w.hub.cleanup w.now }
  | .lose s => w.lose s
  | .foreign p request => w.foreign principal p request

/-- every interleaving -/
def run (principal : ℕ) (w : St) (ops : List Op) : St := Machine.run (step principal) w ops

end St

end NeProto.Constellation
