/-
The forward-secret barrier (`internal/session/authenticated_extensions.go`): the two negotiators, the two read loops and the
record layers between them.

- `Exchange`: the key shares and the proofs, as parameters; `Agrees` is what is assumed of them.
- `Barrier`: the two carriers, the extension queues, where each negotiator is, and the keys each side holds.
- `step`: a negotiator up to its next `Send` or wait, the return of a `Send`, the two halves of a `Receive` of a read loop, the end of
  a negotiator's context, and cells of others.
-/
import NeProto.Session.Extension
import NeProto.Session.RecordSync

namespace NeProto.Session.Record

open Function

/-! ## Messages -/

inductive ExtensionType where
  | offer
  | accept
  | update
deriving DecidableEq

/-- the parts of an extension message the negotiators read -/
inductive ExtensionTLV (Public Proof : Type) where
  /-- extension parameters with a key share -/
  | parameters (share : Public)
  | forwardSecretConfirm (proof : Proof)
  | forwardSecretAck (proof : Proof)
deriving DecidableEq

structure ExtensionEnvelope (Public Proof : Type) where
  type : ExtensionType
  messageID : ℕ
  tlv : ExtensionTLV Public Proof
deriving DecidableEq

inductive Cell (Public Proof : Type) where
  | profile (e : ExtensionEnvelope Public Proof)
  /-- a cell of something else -/
  | other (n : ℕ)

/-- the key exchange and the proofs -/
structure Exchange (Secret Private Public Proof : Type) where
  publicKey : Private → Public
  /-- `DeriveForwardSecretSessionKeys(base, local, peer, server, client)` -/
  derive : Secret → Private → Public → Public → Public → Option Secret
  /-- `ForwardSecretConfirmation(keys, server, client)` -/
  confirmation : Secret → Public → Public → Proof
  /-- `ForwardSecretAcknowledgement(keys, server, client)` -/
  acknowledgement : Secret → Public → Public → Proof

/-- both sides derive the same keys, and not the ones they had -/
structure Agrees {Secret Private Public Proof : Type} (X : Exchange Secret Private Public Proof) : Prop where
  derive_eq : ∀ base client server,
    X.derive base client (X.publicKey server) (X.publicKey server) (X.publicKey client) =
      X.derive base server (X.publicKey client) (X.publicKey server) (X.publicKey client)
  derive_ne : ∀ base a b c d k, X.derive base a b c d = some k → k ≠ base

/-! ## State -/

/-- where the server's negotiator is -/
inductive ServerStage (Secret Public : Type) where
  | offer
  | offering
  | awaitAccept
  | accepted (keys : Secret) (client : Public)
  | armed (keys : Secret) (client : Public)
  | confirming (keys : Secret) (client : Public)
  | awaitAck (keys : Secret) (client : Public)
  | done
  | failed
deriving DecidableEq

/-- where the client's negotiator is -/
inductive ClientStage (Secret Public : Type) where
  | awaitOffer
  | selected (server : Public)
  | accepting (server : Public)
  | awaitConfirm (keys : Secret) (server : Public)
  | verified (keys : Secret) (server : Public)
  | rekeyed (keys : Secret) (server : Public)
  | acking
  | done
  | failed

structure Barrier (Secret Key Public Proof Record : Type) where
  pair : Pair Secret Key (Cell Public Proof) Record
  inbox : Role → Inbox (ExtensionEnvelope Public Proof) (ExtensionEnvelope Public Proof)
  /-- `authenticated.Keys` -/
  keys : Role → Secret
  server : ServerStage Secret Public
  client : ClientStage Secret Public
  /-- how many records the client had sent when it verified the confirmation -/
  verifiedAt : Option ℕ

namespace Barrier

/-- what a session runs with -/
structure Config (Secret Key Private Public Proof Record : Type) where
  suite : Suite Secret Key (Cell Public Proof) Record
  exchange : Exchange Secret Private Public Proof
  kind : UInt8
  /-- the keys of the handshake -/
  base : Secret
  clientPrivate : Private
  serverPrivate : Private

inductive Op where
  /-- the negotiator goes on; the inner carrier accepts the record of its `Send` or fails -/
  | negotiate (p : Role) (accepted : Bool)
  /-- the `Send` in progress returns -/
  | sendReturn (p : Role)
  /-- the read loop has a record from the inner carrier -/
  | take (p : Role)
  /-- the read loop opens it and handles the cell -/
  | receive (p : Role)
  /-- the negotiator's context ends -/
  | timeout (p : Role)
  /-- a cell of something else is sent -/
  | other (p : Role) (n : ℕ) (accepted : Bool)
  | close (p : Role)

variable {Secret Key Private Public Proof Record : Type} [DecidableEq Key] [DecidableEq Public] [DecidableEq Proof]
  (C : Config Secret Key Private Public Proof Record)

def Config.serverPublic : Public := C.exchange.publicKey C.serverPrivate

def Config.clientPublic : Public := C.exchange.publicKey C.clientPrivate

def Config.offer : ExtensionEnvelope Public Proof := ⟨.offer, 1, .parameters C.serverPublic⟩

def Config.accept : ExtensionEnvelope Public Proof := ⟨.accept, 2, .parameters C.clientPublic⟩

/-- message 3 under these keys -/
def Config.confirm (keys : Secret) (client : Public) : ExtensionEnvelope Public Proof :=
  ⟨.update, 3, .forwardSecretConfirm (C.exchange.confirmation keys C.serverPublic client)⟩

/-- message 4 under these keys -/
def Config.ack (keys : Secret) (server : Public) : ExtensionEnvelope Public Proof :=
  ⟨.update, 4, .forwardSecretAck (C.exchange.acknowledgement keys server C.clientPublic)⟩

variable (b : Barrier Secret Key Public Proof Record)

def onPair (o : Session.Record.Op Secret (Cell Public Proof)) : Barrier Secret Key Public Proof Record :=
  { b with pair := b.pair.step C.suite C.kind o }

/-- `SendExtension` up to the inner carrier: `none` while another `Send` holds the lock, else whether the record was accepted -/
def sendExtension (p : Role) (e : ExtensionEnvelope Public Proof) (accepted : Bool) :
    Option (Barrier Secret Key Public Proof Record × Bool) :=
  if (b.pair.peers p).sending.isSome then none
  else
    let b := b.onPair C (.send p (.profile e) accepted)
    some (b, (b.pair.peers p).sending.isSome)

/-- `ReceiveExtension` when a message is queued -/
def receiveExtension (p : Role) : Option (ExtensionEnvelope Public Proof × Barrier Secret Key Public Proof Record) :=
  match (b.inbox p).extensions with
  | [] => none
  | e :: rest => some (e, { b with inbox := update b.inbox p { b.inbox p with extensions := rest } })

/-! ## The negotiators -/

/-- `NegotiateServerExtensions` and `applyServerForwardSecrecy` -/
def negotiateServer (accepted : Bool) : Barrier Secret Key Public Proof Record :=
  match b.server with
  | .offer =>
    match b.sendExtension C .server C.offer accepted with
    | none => b
    | some (b, ok) => { b with server := if ok then .offering else .failed }
  | .awaitAccept =>
    match b.receiveExtension .server with
    | none => b
    | some (e, b) =>
      match e with
      | ⟨.accept, 2, .parameters client⟩ =>
        match C.exchange.derive C.base C.serverPrivate client C.serverPublic client with
        | none => { b with server := .failed }
        | some keys => { b with server := .accepted keys client }
      | _ => { b with server := .failed }
  | .accepted keys client =>
    if (b.pair.peers .server).sending.isSome then b
    else
      let b := b.onPair C (.rekeyAfterNextSend .server keys)
      { b with server := if (b.pair.peers .server).carrier.pendingRekey.isSome then .armed keys client else .failed }
  | .armed keys client =>
    match b.sendExtension C .server (C.confirm keys client) accepted with
    | none => b
    | some (b, ok) => { b with server := if ok then .confirming keys client else .failed }
  | .awaitAck keys client =>
    match b.receiveExtension .server with
    | none => b
    | some (e, b) =>
      { b with
        server :=
          if e = ⟨.update, 4, .forwardSecretAck (C.exchange.acknowledgement keys C.serverPublic client)⟩ then .done else .failed }
  | .offering | .confirming _ _ | .done | .failed => b

/-- `negotiateClientExtensions` and `applyClientForwardSecrecy` -/
def negotiateClient (accepted : Bool) : Barrier Secret Key Public Proof Record :=
  match b.client with
  | .awaitOffer =>
    match b.receiveExtension .client with
    | none => b
    | some (e, b) =>
      match e with
      | ⟨.offer, 1, .parameters server⟩ => { b with client := .selected server }
      | _ => { b with client := .failed }
  | .selected server =>
    match b.sendExtension C .client C.accept accepted with
    | none => b
    | some (b, ok) => { b with client := if ok then .accepting server else .failed }
  | .awaitConfirm keys server =>
    match b.receiveExtension .client with
    | none => b
    | some (e, b) =>
      if e = ⟨.update, 3, .forwardSecretConfirm (C.exchange.confirmation keys server C.clientPublic)⟩ then
        { b with client := .verified keys server, verifiedAt := some (b.pair.peers .client).sealed.length }
      else { b with client := .failed }
  | .verified keys server =>
    if (b.pair.peers .client).sending.isSome then b
    else
      { b.onPair C (.rekey .client keys) with
        keys := update b.keys .client keys
        client := .rekeyed keys server }
  | .rekeyed keys server =>
    match b.sendExtension C .client (C.ack keys server) accepted with
    | none => b
    | some (b, ok) => { b with client := if ok then .acking else .failed }
  | .accepting _ | .acking | .done | .failed => b

/-- the negotiator goes on when its `Send` has returned -/
def sendReturned : Role → Barrier Secret Key Public Proof Record
  | .server =>
    match b.server with
    | .offering => { b with server := .awaitAccept }
    | .confirming keys client => { b with server := .awaitAck keys client, keys := update b.keys .server keys }
    | _ => b
  | .client =>
    match b.client with
    | .accepting server =>
      match C.exchange.derive C.base C.clientPrivate server server C.clientPublic with
      | none => { b with client := .failed }
      | some keys => { b with client := .awaitConfirm keys server }
    | .acking => { b with client := .done }
    | _ => b

/-- `handleCell` for what the read loop has opened -/
def handleCell (p : Role) : Cell Public Proof → Barrier Secret Key Public Proof Record
  | .other _ => b
  | .profile e =>
    match (b.inbox p).handleExtensionPayload id ExtensionEnvelope.messageID e with
    | .ok inbox => { b with inbox := update b.inbox p inbox }
    | .error _ => b.onPair C (.close p)

/-- the read loop: one `Receive` at a time -/
def receive (p : Role) : Barrier Secret Key Public Proof Record :=
  if (b.pair.peers p).received = [] then b
  else
    let b' := b.onPair C (.receive p 0)
    match (b'.pair.peers p).opened.drop (b.pair.peers p).opened.length with
    | [] => b'
    | e :: _ => b'.handleCell C p e.plain

def timeout : Role → Barrier Secret Key Public Proof Record
  | .server =>
    match b.server with
    | .awaitAccept | .awaitAck _ _ => { b with server := .failed }
    | _ => b
  | .client =>
    match b.client with
    | .awaitOffer | .awaitConfirm _ _ => { b with client := .failed }
    | _ => b

def step : Op → Barrier Secret Key Public Proof Record
  | .negotiate .server accepted => b.negotiateServer C accepted
  | .negotiate .client accepted => b.negotiateClient C accepted
  | .sendReturn p =>
    if (b.pair.peers p).sending.isSome then (b.onPair C (.sendReturn p)).sendReturned C p else b
  | .take p => if (b.pair.peers p).received = [] then b.onPair C (.take p) else b
  | .receive p => b.receive C p
  | .timeout p => b.timeout p
  | .other p n accepted => b.onPair C (.send p (.other n) accepted)
  | .close p => b.onPair C (.close p)

def start (client server : EncryptedCarrier Key) : Barrier Secret Key Public Proof Record where
  pair := .start C.base client server
  inbox := fun _ => .empty
  keys := fun _ => C.base
  server := .offer
  client := .awaitOffer
  verifiedAt := none

def run (ops : List Op) : Barrier Secret Key Public Proof Record := Machine.run (step C) b ops

/-- the negotiation function of a side has returned -/
def returned : Role → Bool
  | .server => match b.server with
    | .done | .failed => true
    | _ => false
  | .client => match b.client with
    | .done | .failed => true
    | _ => false

/-- ... and it returned no error -/
def completed : Role → Bool
  | .server => match b.server with
    | .done => true
    | _ => false
  | .client => match b.client with
    | .done => true
    | _ => false

/-- no other cell is sent by a side until its negotiation function returns -/
def Paused : Op → Prop
  | .other p _ _ => b.returned p = true
  | _ => True

/-- no other cell is sent by a side unless its negotiation function has returned without an error -/
def Completed : Op → Prop
  | .other p _ _ => b.completed p = true
  | _ => True

end Barrier

end NeProto.Session.Record
