/-
The record layer (`internal/session/encrypted_carrier.go`): two encrypted carriers on one inner carrier.

- `Suite`: the cryptography, as parameters. `Ideal` is what is assumed of it: opening undoes sealing, and no two derivations give
  the same key.
- `Half`: what one direction keeps at one end (key, nonce prefix, counter, epoch); `rotateIfNeeded` is its ratchet.
- `EncryptedCarrier`: two halves, the ratchet interval, and the armed generation change.
- `Pair.step`: `Send` up to and from the inner `Send`, `Receive` before and under its lock, `rekeyAfterNextSend`, `rekey`, `Close`.
  What holds a lock keeps the others waiting.
-/
import NeProto.Lib.Bytes
import NeProto.Lib.Machine

namespace NeProto.Session.Record

open Function

open NeProto.Bytes

/-! ## Cryptography -/

inductive Role where
  | client
  | server
deriving DecidableEq

def Role.other : Role → Role
  | .client => .server
  | .server => .client

@[simp] theorem Role.other_other (p : Role) : p.other.other = p := by cases p <;> rfl

theorem Role.other_ne (p : Role) : p.other ≠ p := by cases p <;> nofun

theorem Role.eq_or (p q : Role) : q = p ∨ q = p.other := by cases p <;> cases q <;> simp [Role.other]

/-- `recordDirectionClientToServer` and `recordDirectionServerToClient`: the direction in which a role sends -/
def Role.direction : Role → UInt8
  | .client => 1
  | .server => 2

/-- `protocol.SessionKeys`, as far as the record layer reads it -/
structure SessionKeys (Key : Type) where
  clientToServer : Key
  serverToClient : Key
  clientToServerNonce : Vector UInt8 4
  serverToClientNonce : Vector UInt8 4

/-- the key of the direction in which a role sends -/
def SessionKeys.key {Key : Type} (k : SessionKeys Key) : Role → Key
  | .client => k.clientToServer
  | .server => k.serverToClient

def SessionKeys.nonce {Key : Type} (k : SessionKeys Key) : Role → Vector UInt8 4
  | .client => k.clientToServerNonce
  | .server => k.serverToClientNonce

/-- the session key derivation, `deriveRecordEpochKey` and the AEAD -/
structure Suite (Secret Key Plain Record : Type) where
  /-- the key of zero bytes, which is no key -/
  zero : Key
  sessionKeys : Secret → SessionKeys Key
  deriveRecordEpochKey : Key → UInt8 → ℕ → Key
  aeadSeal : Key → List UInt8 → Plain → List UInt8 → Record
  aeadOpen : Key → List UInt8 → Record → List UInt8 → Option Plain
  length : Plain → ℕ
  size : Record → ℕ

/-- `Overhead()` of the AEAD -/
def overhead : ℕ := 16

structure Ideal {Secret Key Plain Record : Type} (S : Suite Secret Key Plain Record) : Prop where
  open_seal : ∀ k n p a, S.aeadOpen k n (S.aeadSeal k n p a) a = some p
  size_seal : ∀ k n p a, S.size (S.aeadSeal k n p a) = S.length p + overhead
  session_ne_zero : ∀ s p, (S.sessionKeys s).key p ≠ S.zero
  session_inj : ∀ s s' p p', (S.sessionKeys s).key p = (S.sessionKeys s').key p' → s = s' ∧ p = p'
  epoch_inj : ∀ k k' d d' e e', S.deriveRecordEpochKey k d e = S.deriveRecordEpochKey k' d' e' → k = k' ∧ d = d' ∧ e = e'
  session_ne_epoch : ∀ s p k d e, (S.sessionKeys s).key p ≠ S.deriveRecordEpochKey k d e

/-! ## Records -/

/-- `protocol.Version` -/
def version : UInt8 := 2

/-- `protocol.MaxCellSize` -/
def maxCellSize : ℕ := 65535

def recordKeyEpochInterval : ℕ := 16 * 1024

def recordNonce (noncePrefix : Vector UInt8 4) (counter : ℕ) : List UInt8 := noncePrefix.toList ++ putUint 8 counter

/-- "Neproto NP/2 cell" and the zero byte behind it -/
def recordLabel : List UInt8 := [78, 101, 112, 114, 111, 116, 111, 32, 78, 80, 47, 50, 32, 99, 101, 108, 108, 0]

def recordAssociatedData (kind direction : UInt8) (counter epoch : ℕ) : List UInt8 :=
  recordLabel ++ [version, kind, direction] ++ putUint 8 counter ++ putUint 8 epoch

/-- what a record is sealed or opened with -/
structure Context (Key : Type) where
  key : Key
  nonce : List UInt8
  epoch : ℕ
  aad : List UInt8

/-- a record that was accepted by the inner carrier, or that was opened -/
structure Entry (Key Plain : Type) where
  context : Context Key
  plain : Plain

/-- one direction at one end -/
structure Half (Key : Type) where
  key : Key
  noncePrefix : Vector UInt8 4
  direction : UInt8
  counter : ℕ
  epoch : ℕ

/-- `recordRekey` -/
structure RecordRekey (Key : Type) where
  sendKey : Key
  receiveKey : Key
  sendPrefix : Vector UInt8 4
  receivePrefix : Vector UInt8 4

structure EncryptedCarrier (Key : Type) where
  send : Half Key
  receive : Half Key
  epochInterval : ℕ
  pendingRekey : Option (RecordRekey Key)

section

variable {Secret Key Plain Record : Type} [DecidableEq Key] (S : Suite Secret Key Plain Record)

/-- `rotateSendEpochIfNeeded` and `rotateReceiveEpochIfNeeded` -/
def Half.rotateIfNeeded (interval : ℕ) (h : Half Key) : Half Key :=
  if interval = 0 ∨ h.counter = 0 ∨ h.counter % interval ≠ 0 then h
  else { h with key := S.deriveRecordEpochKey h.key h.direction (h.epoch + 1), epoch := h.epoch + 1 }

def Half.context (kind : UInt8) (h : Half Key) : Context Key :=
  ⟨h.key, recordNonce h.noncePrefix h.counter, h.epoch, recordAssociatedData kind h.direction h.counter h.epoch⟩

def Entry.record (e : Entry Key Plain) : Record := S.aeadSeal e.context.key e.context.nonce e.plain e.context.aad

def rotateSendEpochIfNeeded (c : EncryptedCarrier Key) : EncryptedCarrier Key :=
  { c with send := c.send.rotateIfNeeded S c.epochInterval }

def rotateReceiveEpochIfNeeded (c : EncryptedCarrier Key) : EncryptedCarrier Key :=
  { c with receive := c.receive.rotateIfNeeded S c.epochInterval }

/-- `none` is `ErrInvalidConfig` -/
def newEncryptedCarrier (role : Role) (keys : SessionKeys Key) : Option (EncryptedCarrier Key) :=
  if keys.clientToServer = S.zero ∨ keys.serverToClient = S.zero then none
  else some
    { send := ⟨keys.key role, keys.nonce role, role.direction, 0, 0⟩
      receive := ⟨keys.key role.other, keys.nonce role.other, role.other.direction, 0, 0⟩
      epochInterval := 0
      pendingRekey := none }

def prepareRekey (role : Role) (keys : SessionKeys Key) : Option (RecordRekey Key) :=
  if keys.clientToServer = S.zero ∨ keys.serverToClient = S.zero then none
  else some ⟨keys.key role, keys.key role.other, keys.nonce role, keys.nonce role.other⟩

def applyRekeyLocked (c : EncryptedCarrier Key) (transition : RecordRekey Key) : EncryptedCarrier Key :=
  { c with
    send := { c.send with key := transition.sendKey, noncePrefix := transition.sendPrefix, counter := 0, epoch := 0 }
    receive := { c.receive with key := transition.receiveKey, noncePrefix := transition.receivePrefix, counter := 0, epoch := 0 }
    epochInterval := recordKeyEpochInterval }

end

/-! ## Two carriers -/

inductive RecordError where
  | recordAuthentication
  | recordSequenceExhausted
  | recordTooLarge
  | invalidConfig
  /-- what the inner carrier returned -/
  | carrier
deriving DecidableEq

/-- one end, with the calls that are in progress on it -/
structure Peer (Key Plain Record : Type) where
  carrier : EncryptedCarrier Key
  /-- the `transition` of the `Send` that waits for the inner `Send`; it holds `sendMu`, and with a transition `receiveMu` too -/
  sending : Option (Option (RecordRekey Key))
  /-- the records of the `Receive` calls that have yet to lock `receiveMu` -/
  received : List Record
  closed : Bool
  /-- what the calls have returned -/
  errors : List RecordError
  /-- the records the inner carrier has accepted from here -/
  sealed : List (Entry Key Plain)
  /-- the records opened here -/
  opened : List (Entry Key Plain)

/-- an agreed generation change -/
inductive Change (Secret : Type) where
  | none
  /-- `rekeyAfterNextSend` was called -/
  | armed (p : Role) (s : Secret)
  /-- the last record of the old generation is the sender's `n`-th -/
  | last (p : Role) (s : Secret) (n : ℕ)
deriving DecidableEq

structure Pair (Secret Key Plain Record : Type) where
  peers : Role → Peer Key Plain Record
  /-- the records in flight to a role -/
  wire : Role → List Record
  change : Change Secret
  /-- the secrets of the generations so far -/
  secrets : List Secret

inductive Op (Secret Plain : Type) where
  /-- `Send` up to the return of the inner `Send`, which accepts the record or fails -/
  | send (p : Role) (plain : Plain) (accepted : Bool)
  /-- the rest of `Send` -/
  | sendReturn (p : Role)
  /-- the inner `Receive` of a `Receive` -/
  | take (p : Role)
  /-- the rest of the `Receive` that took the `i`-th of the waiting records -/
  | receive (p : Role) (i : ℕ)
  | rekeyAfterNextSend (p : Role) (s : Secret)
  | rekey (p : Role) (s : Secret)
  | close (p : Role)

section

variable {Secret Key Plain Record : Type} (S : Suite Secret Key Plain Record) (kind : UInt8)

/-- a call that closes the carrier and returns an error -/
def Peer.fail (e : Peer Key Plain Record) (err : RecordError) : Peer Key Plain Record :=
  { e with closed := true, errors := e.errors ++ [err] }

/-- the end of `Send` -/
def finishSend (c : EncryptedCarrier Key) (transition : Option (RecordRekey Key)) : EncryptedCarrier Key :=
  let c := { c with send := { c.send with counter := c.send.counter + 1 } }
  match transition with
  | none => c
  | some t => { applyRekeyLocked c t with pendingRekey := none }

/-- `receiveMu` is held by a `Send` -/
def Peer.receiveLocked (e : Peer Key Plain Record) : Bool := (e.sending.getD none).isSome

/-- `Receive` under its lock -/
def Peer.openRecord (e : Peer Key Plain Record) (record : Record) : Peer Key Plain Record :=
  if e.carrier.receive.counter = maxUint64 then e.fail .recordSequenceExhausted
  else
    let carrier := rotateReceiveEpochIfNeeded S e.carrier
    let e := { e with carrier := carrier }
    if S.size record < overhead ∨ maxCellSize + overhead < S.size record then e.fail .recordAuthentication
    else
      let context := carrier.receive.context kind
      match S.aeadOpen context.key context.nonce record context.aad with
      | none => e.fail .recordAuthentication
      | some plain =>
        { e with
          carrier := { carrier with receive := { carrier.receive with counter := carrier.receive.counter + 1 } }
          opened := e.opened ++ [⟨context, plain⟩] }

end

namespace Pair

variable {Secret Key Plain Record : Type} [DecidableEq Key] (S : Suite Secret Key Plain Record) (kind : UInt8)
  (w : Pair Secret Key Plain Record)

def setPeer (p : Role) (e : Peer Key Plain Record) : Pair Secret Key Plain Record :=
  { w with peers := update w.peers p e }

/-- the record of a `Send` that the inner carrier accepts -/
def accept (p : Role) (plain : Plain) : Pair Secret Key Plain Record :=
  let e := w.peers p
  let carrier := rotateSendEpochIfNeeded S e.carrier
  let entry : Entry Key Plain := ⟨carrier.send.context kind, plain⟩
  let change := match w.change with
    | .armed q s => if q = p then .last p s (e.sealed.length + 1) else w.change
    | _ => w.change
  { peers := update w.peers p
      { e with carrier := carrier, sending := some carrier.pendingRekey, sealed := e.sealed ++ [entry] }
    wire := update w.wire p.other (w.wire p.other ++ [entry.record S])
    change := change
    secrets := w.secrets }

def send (p : Role) (plain : Plain) (accepted : Bool) : Pair Secret Key Plain Record :=
  let e := w.peers p
  if maxCellSize < S.length plain then w.setPeer p (e.fail .recordTooLarge)
  else if e.sending.isSome then w
  else if e.carrier.send.counter = maxUint64 then w.setPeer p (e.fail .recordSequenceExhausted)
  else if accepted = true ∧ e.closed = false then w.accept S kind p plain
  else w.setPeer p (Peer.fail { e with carrier := rotateSendEpochIfNeeded S e.carrier } .carrier)

def sendReturn (p : Role) : Pair Secret Key Plain Record :=
  match (w.peers p).sending with
  | none => w
  | some transition =>
    w.setPeer p { w.peers p with carrier := finishSend (w.peers p).carrier transition, sending := none }

def take (p : Role) : Pair Secret Key Plain Record :=
  match w.wire p with
  | [] => w
  | record :: rest =>
    { w with
      peers := update w.peers p { w.peers p with received := (w.peers p).received ++ [record] }
      wire := update w.wire p rest }

def receive (p : Role) (i : ℕ) : Pair Secret Key Plain Record :=
  let e := w.peers p
  if e.receiveLocked then w
  else match e.received[i]? with
    | none => w
    | some record => w.setPeer p (Peer.openRecord S kind { e with received := e.received.eraseIdx i } record)

def rekeyAfterNextSend (p : Role) (s : Secret) : Pair Secret Key Plain Record :=
  let e := w.peers p
  match prepareRekey S p (S.sessionKeys s) with
  | none => w.setPeer p { e with errors := e.errors ++ [.invalidConfig] }
  | some transition =>
    if e.sending.isSome then w
    else if e.carrier.pendingRekey.isSome then w.setPeer p { e with errors := e.errors ++ [.invalidConfig] }
    else
      { w.setPeer p { e with carrier := { e.carrier with pendingRekey := some transition } } with
        change := .armed p s
        secrets := s :: w.secrets }

def rekey (p : Role) (s : Secret) : Pair Secret Key Plain Record :=
  let e := w.peers p
  match prepareRekey S p (S.sessionKeys s) with
  | none => w.setPeer p { e with errors := e.errors ++ [.invalidConfig] }
  | some transition =>
    if e.sending.isSome then w
    else
      { w.setPeer p { e with carrier := { applyRekeyLocked e.carrier transition with pendingRekey := none } } with
        change := .none }

def step : Op Secret Plain → Pair Secret Key Plain Record
  | .send p plain accepted => w.send S kind p plain accepted
  | .sendReturn p => w.sendReturn p
  | .take p => w.take p
  | .receive p i => w.receive S kind p i
  | .rekeyAfterNextSend p s => w.rekeyAfterNextSend S p s
  | .rekey p s => w.rekey S p s
  | .close p => w.setPeer p { w.peers p with closed := true }

/-- two new carriers -/
def start (s : Secret) (client server : EncryptedCarrier Key) : Pair Secret Key Plain Record where
  peers := fun
    | .client => ⟨client, none, [], false, [], [], []⟩
    | .server => ⟨server, none, [], false, [], [], []⟩
  wire := fun _ => []
  change := .none
  secrets := [s]

/-- every interleaving -/
def run (ops : List (Op Secret Plain)) : Pair Secret Key Plain Record := Machine.run (step S kind) w ops

/-! ## Agreed generation changes -/

/-- One change at a time, to new keys. The other side calls `rekey` when it has received exactly the last record of the old
generation, and neither receives nor sends in between. -/
def Agreed : Op Secret Plain → Prop
  | .rekeyAfterNextSend _ s => w.change = .none ∧ s ∉ w.secrets
  | .rekey p s => w.change = .last p.other s (w.peers p).opened.length
  | .send p _ _ | .receive p _ => ∀ s, w.change ≠ .last p.other s (w.peers p).opened.length
  | _ => True

/-- the records the other side has sent are received before the last record of the old generation is sent, and it sends no more
until it calls `rekey`; one `Receive` at a time -/
def Quiet : Op Secret Plain → Prop
  | .send p _ _ => (∀ s, w.change = .armed p s → (w.peers p).received ++ w.wire p = []) ∧ ∀ s n, w.change ≠ .last p.other s n
  | .take p => (w.peers p).received = []
  | _ => True

end Pair

end NeProto.Session.Record
