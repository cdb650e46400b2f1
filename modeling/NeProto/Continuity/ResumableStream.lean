/-
One logical byte stream over a sequence of physical streams (`internal/continuity/stream.go`), with every call that can
be running on it. MODEL: each region the source executes under one lock (`s.mu`, the journal's lock, `ackMu`) is one
operation, and so is each return of a call on a physical stream; the operations of the goroutines interleave in any
order. An operation whose goroutine is not at that point leaves the state alone.

Goroutines:
- `Writer`: the holder of `writeMu`, in `Write` or `CloseWrite`;
- `Reader`: the holder of `readMu`, in `Read`;
- `Replacer`: the holder of `replaceMu`, in `Replace` or `DetachPhysical`;
- `ackers`: the `Ack` calls that passed their check and have not reached the journal yet (any number).
The environment decides what the calls on a physical stream return and how many bytes of a buffer handed to one it has
taken so far (`put`); a count outside `0 .. len` (the source also tests `n < 0`) is any `n > len`. Physical streams are
named by numbers and all have a `CloseWrite`, as `session.TransportStream` does. Nil receivers and nil arguments are not
modelled.

Ghost fields: `appended` (every byte the journal accepted) and `log` (what the finished calls returned).
-/
import NeProto.Lib.Machine
import NeProto.Continuity.Journal

namespace NeProto.Continuity

/-! ## Errors -/

/-- what a `session.TransportStream` reports: the error of the stream below -/
inductive Cause where
  | closed
  | reset
  | eof
  | protocol
  | carrier
deriving DecidableEq

inductive Err where
  | resumableConfig
  | resumableClosed
  | resumableState
  | closedPipe
  | noProgress
  | context
  | notify
  | replay (e : ReplayErr)
  /-- `classify` has joined `session.ErrCarrierLost` when `lost` -/
  | transport (c : Cause) (lost : Bool)
  /-- `errors.Join(ErrResumableState, e)` -/
  | stateJoin (e : Err)
deriving DecidableEq

/-- `clientRecoverableTransportError` and `recoverableTransportError`: the error wraps `session.ErrCarrierLost` -/
def recoverableTransportError : Err → Bool
  | .transport _ lost => lost
  | _ => false

/-- a configuration that `NewResumableStream` accepts -/
structure Config where
  journalBytes : ℕ
  ackEveryBytes : ℕ
  recoverableReadError : Err → Bool
  recoverableWriteError : Err → Bool
  journal_pos : 0 < journalBytes
  journal_max : journalBytes ≤ maxJournalCapacity
  ack_le : ackEveryBytes ≤ journalBytes

/-- the configuration of both sides in production (`internal/app/constellation.go`) -/
def production : Config where
  journalBytes := 256 * 1024
  ackEveryBytes := 64 * 1024
  recoverableReadError := recoverableTransportError
  recoverableWriteError := recoverableTransportError
  journal_pos := by decide
  journal_max := by decide
  ack_le := by decide

/-- `replayCopyBufferSize` -/
def replayCopyBufferSize : ℕ := 32 * 1024

/-! ## Calls in progress -/

/-- a `Write` whose payload is journaled under `[start, stop)` -/
structure Call where
  payload : List Byte
  start : ℕ
  stop : ℕ
deriving DecidableEq

/-- what a finished attempt leaves in the local variables of `Write` -/
structure Outcome where
  n : ℕ
  err : Option Err
  deferredAck : ℕ
  attemptDone : Option ℕ
  invalidDeferredAck : Bool
  transmitted : ℕ
  closed : Bool
deriving DecidableEq

inductive Writer where
  | idle
  /-- `Write` passed its checks -/
  | append (payload : List Byte)
  /-- about to poll `waitPhysical` -/
  | wait (c : Call)
  /-- in the select of `waitPhysical` -/
  | blocked (c : Call) (t : ℕ)
  /-- `waitPhysical` returned `(p, t)` -/
  | attempt (c : Call) (p t : ℕ)
  /-- inside `physical.Write`; `p` has taken `put` bytes of the buffer -/
  | call (c : Call) (p t put : ℕ)
  /-- `physical.Write` returned -/
  | ret (c : Call) (p t n : ℕ) (err : Option Err)
  /-- the attempt is accounted -/
  | settle (c : Call) (p : ℕ) (o : Outcome)
  /-- about to call `markUnavailable` -/
  | lost (c : Call) (p : ℕ)
  | finWait
  | finBlocked
  | finCheck (p : ℕ)
  | finCall (p : ℕ)
  | finLost (p : ℕ)
  | finMark (p : ℕ)
deriving DecidableEq

inductive Reader where
  | idle
  | wait (len : ℕ)
  | blocked (len : ℕ)
  /-- inside `physical.Read` -/
  | call (len p : ℕ)
  /-- `physical.Read` returned -/
  | ret (len p : ℕ) (data : List Byte) (err : Option Err)
  /-- the bytes are accounted, `onReceive` is running -/
  | notify (len p : ℕ) (data : List Byte) (err : Option Err)
  /-- `onReceive` failed -/
  | unnotified (len p : ℕ) (data : List Byte) (err : Option Err)
  /-- the bytes are accounted and reported -/
  | tail (len p : ℕ) (data : List Byte) (err : Option Err)
  /-- about to call `markUnavailable` -/
  | lost (len p : ℕ)
deriving DecidableEq

inductive Replacer where
  | idle
  /-- `Replace` passed its first check -/
  | ack (q peer recv : ℕ)
  | state (q peer recv : ℕ)
  /-- at the head of the replay loop -/
  | loop (q recv stop room off : ℕ)
  /-- inside `writeAll`: `chunk` is the rest of the buffer, `q` has taken `put` bytes of it -/
  | write (q recv stop room off : ℕ) (chunk : List Byte) (put : ℕ)
  | fin (q recv stop : ℕ)
  | closeWrite (q recv stop : ℕ)
  | publish (q recv stop : ℕ) (localFIN : Bool)
  /-- `DetachPhysical` waits for the write attempt -/
  | detach (done : ℕ)
deriving DecidableEq

/-- what a finished call returned -/
inductive Result where
  | write (n : ℕ) (err : Option Err)
  | closeWrite (err : Option Err)
  | read (data : List Byte) (err : Option Err)
  | replace (err : Option Err)
  | detach (err : Option Err)
  | ack (offset : ℕ) (err : Option Err)
deriving DecidableEq

/-- the bytes a call handed to the application -/
def Result.bytes : Result → List Byte
  | .read data _ => data
  | _ => []

/-! ## State -/

structure St where
  journal : Journal
  physical : Option ℕ
  transmitted : ℕ
  receiveOffset : ℕ
  lastNotified : ℕ
  localFIN : Bool
  finTransmitted : Bool
  discard : ℕ
  writeAttemptEnd : ℕ
  /-- the number of the attempt's channel -/
  writeAttemptDone : Option ℕ
  pendingAck : ℕ
  closed : Bool
  /-- attempt channels made so far -/
  attempts : ℕ
  /-- the channels below this number are closed -/
  settled : ℕ
  writer : Writer
  reader : Reader
  replacer : Replacer
  ackers : List ℕ
  /-- `markUnavailable` calls that still owe the `onUnavailable` callback -/
  callbacks : ℕ
  appended : List Byte
  log : List Result
deriving DecidableEq

/-- an open, empty journal of the configured capacity -/
def Config.journal (C : Config) : Journal := .empty C.journalBytes C.journal_pos

/-- `NewResumableStream` over the physical stream `p` -/
def init (C : Config) (p : ℕ) : St where
  journal := C.journal
  physical := some p
  transmitted := 0
  receiveOffset := 0
  lastNotified := 0
  localFIN := false
  finTransmitted := false
  discard := 0
  writeAttemptEnd := 0
  writeAttemptDone := none
  pendingAck := 0
  closed := false
  attempts := 0
  settled := 0
  writer := .idle
  reader := .idle
  replacer := .idle
  ackers := []
  callbacks := 0
  appended := []
  log := []

/-- every byte `Read` has returned, in order -/
def returned (s : St) : List Byte := s.log.flatMap Result.bytes

/-- what the calls that finished in the step from `s` to `s'` returned -/
def news (s s' : St) : List Result := s'.log.drop s.log.length

/-- the bytes a `Read` in progress has accounted and not yet returned -/
def handing (s : St) : List Byte :=
  match s.reader with
  | .notify _ _ data _ | .unnotified _ _ data _ | .tail _ _ data _ => data
  | _ => []

/-! ## Helpers of the source -/

/-- `writtenForRange` -/
def writtenForRange (start stop transmitted : ℕ) : ℕ :=
  if transmitted ≤ start then 0 else if transmitted ≥ stop then stop - start else transmitted - start

/-- `ackJournal` -/
def ackJournal (j : Journal) (offset : ℕ) (deferred : Bool) : Except ReplayErr Journal :=
  if deferred ∧ offset ≤ j.baseOffset then .ok j else j.ack offset

/-- the locked part of `markUnavailable`; the callback is owed when the stream was current -/
def markUnavailable (s : St) (p : ℕ) : St :=
  if s.closed ∨ s.physical ≠ some p then s
  else { s with physical := none, finTransmitted := if s.localFIN then false else s.finTransmitted,
                callbacks := s.callbacks + 1 }

/-- the offset view the router sends in a resume request (`Offsets`) -/
structure Offsets where
  sendBase : ℕ
  sendEnd : ℕ
  receive : ℕ
deriving DecidableEq

variable (s : St)

def offsets : Offsets := ⟨s.journal.baseOffset, s.journal.endOffset, s.receiveOffset⟩

def writeReturn (n : ℕ) (err : Option Err) : St := { s with writer := .idle, log := s.log ++ [.write n err] }

def closeWriteReturn (err : Option Err) : St := { s with writer := .idle, log := s.log ++ [.closeWrite err] }

def readReturn (data : List Byte) (err : Option Err) : St :=
  { s with reader := .idle, log := s.log ++ [.read data err] }

def replaceReturn (err : Option Err) : St := { s with replacer := .idle, log := s.log ++ [.replace err] }

/-! ## Write -/

/-- `Write` up to the journal -/
def writeCheck (payload : List Byte) : St :=
  if s.writer ≠ .idle ∨ payload = [] then s
  else if s.closed then writeReturn s 0 (some .resumableClosed)
  else if s.localFIN then writeReturn s 0 (some .closedPipe)
  else { s with writer := .append payload }

def writeAppend : St :=
  match s.writer with
  | .append payload =>
    match s.journal.append payload with
    | .error e => writeReturn s 0 (some (.replay e))
    | .ok (start, stop, j) => { s with journal := j, writer := .wait ⟨payload, start, stop⟩,
                                       appended := s.appended ++ payload }
  | _ => s

/-- one poll of `waitPhysical`, and the tests on what it returned -/
def writeWait : St :=
  match s.writer with
  | .wait c =>
    if s.closed then writeReturn s (writtenForRange c.start c.stop s.transmitted) (some .resumableClosed)
    else match s.physical with
      | none => { s with writer := .blocked c s.transmitted }
      | some p =>
        if s.transmitted ≥ c.stop then writeReturn s c.payload.length none
        else if s.transmitted < c.start then
          writeReturn s (writtenForRange c.start c.stop s.transmitted) (some .resumableState)
        else { s with writer := .attempt c p s.transmitted }
  | .finWait =>
    if s.closed then closeWriteReturn s (some .resumableClosed)
    else match s.physical with
      | none => { s with writer := .finBlocked }
      | some p =>
        if s.transmitted < s.journal.endOffset then closeWriteReturn s (some .resumableState)
        else { s with writer := .finCheck p }
  | _ => s

def writeWake : St :=
  match s.writer with
  | .blocked c _ => { s with writer := .wait c }
  | .finBlocked => { s with writer := .finWait }
  | _ => s

def writeContext : St :=
  match s.writer with
  | .blocked c t => writeReturn s (writtenForRange c.start c.stop t) (some .context)
  | .finBlocked => closeWriteReturn s (some .context)
  | _ => s

/-- announce the attempt and enter `physical.Write` -/
def writeAttempt : St :=
  match s.writer with
  | .attempt c p t =>
    if s.closed then writeReturn s (writtenForRange c.start c.stop t) (some .resumableClosed)
    else if s.physical ≠ some p ∨ s.transmitted ≠ t then { s with writer := .wait c }
    else { s with writeAttemptEnd := c.stop, writeAttemptDone := some s.attempts, attempts := s.attempts + 1,
                  writer := .call c p t 0 }
  | _ => s

/-- the buffer handed to the physical stream -/
def Call.rest (c : Call) (t : ℕ) : List Byte := c.payload.drop (t - c.start)

/-- the physical stream takes `k` more bytes of the buffer -/
def writePut (k : ℕ) : St :=
  match s.writer with
  | .call c p t put => if put + k ≤ (c.rest t).length then { s with writer := .call c p t (put + k) } else s
  | _ => s

def physicalWrite (n : ℕ) (err : Option Err) : St :=
  match s.writer with
  | .call c p t _ =>
    if n > (c.rest t).length then { s with writer := .ret c p t 0 (some .resumableState) }
    else { s with writer := .ret c p t n err }
  | _ => s

/-- account the attempt under the lock -/
def writeEnd : St :=
  match s.writer with
  | .ret c p t n err =>
    let mine : Bool := !s.closed && (s.physical == some p || s.physical == none) && s.transmitted == t
    let exhausted : Bool := mine && decide (n > maxSequence - s.transmitted)
    let n' := if exhausted then 0 else n
    let err' := if exhausted then some .resumableState else err
    let transmitted := if mine && !exhausted then s.transmitted + n else s.transmitted
    if s.writeAttemptEnd ≠ 0 then
      { s with
        transmitted := transmitted, writeAttemptEnd := 0, writeAttemptDone := none, pendingAck := 0
        writer := .settle c p
          { n := n', err := err'
            deferredAck := if s.pendingAck ≠ 0 ∧ s.pendingAck ≤ transmitted then s.pendingAck else 0
            attemptDone := s.writeAttemptDone
            invalidDeferredAck := decide (s.pendingAck ≠ 0 ∧ transmitted < s.pendingAck ∧
              (err' ≠ none ∨ n' ≠ (c.rest t).length))
            transmitted := transmitted, closed := s.closed } }
    else
      { s with
        transmitted := transmitted
        writer := .settle c p ⟨n', err', 0, none, false, transmitted, s.closed⟩ }
  | _ => s

/-- close the attempt's channel -/
def closeDone (done : Option ℕ) : St :=
  match done with
  | none => s
  | some i => { s with settled := max s.settled (i + 1) }

/-- the part of `Write` after the accounting: deferred acknowledgement, then return, retry or give the stream up -/
def writeSettle (C : Config) (s : St) : St :=
  match s.writer with
  | .settle c p o =>
    match (if o.deferredAck ≠ 0 then ackJournal s.journal o.deferredAck true else .ok s.journal) with
    | .error e => writeReturn (closeDone s o.attemptDone) (writtenForRange c.start c.stop o.transmitted) (some (.replay e))
    | .ok j =>
      let s := closeDone { s with journal := j } o.attemptDone
      if o.invalidDeferredAck then
        writeReturn s (writtenForRange c.start c.stop o.transmitted) (some .resumableState)
      else if o.closed then writeReturn s (writtenForRange c.start c.stop o.transmitted) (some .resumableClosed)
      else if o.transmitted ≥ c.stop then writeReturn s c.payload.length none
      else if o.err ≠ none ∨ o.n = 0 then
        let e := o.err.getD .noProgress
        if C.recoverableWriteError e then { s with writer := .lost c p }
        else writeReturn s (writtenForRange c.start c.stop o.transmitted) (some e)
      else { s with writer := .wait c }
  | _ => s

/-! ## CloseWrite -/

def closeWrite : St :=
  if s.writer ≠ .idle then s
  else if s.closed then closeWriteReturn s (some .resumableClosed)
  else if s.localFIN ∧ s.finTransmitted then closeWriteReturn s none
  else { s with localFIN := true, writer := .finWait }

def finCheck : St :=
  match s.writer with
  | .finCheck p => if s.finTransmitted then closeWriteReturn s none else { s with writer := .finCall p }
  | _ => s

/-- `CloseWrite` of the physical stream returned -/
def physicalCloseWrite (err : Option Err) : St :=
  match s.writer with
  | .finCall p => match err with
    | some _ => { s with writer := .finLost p }
    | none => { s with writer := .finMark p }
  | _ => s

def finMark : St :=
  match s.writer with
  | .finMark p =>
    closeWriteReturn (if s.physical = some p then { s with finTransmitted := true } else s) none
  | _ => s

/-- `markUnavailable` called by the writer -/
def writeLost : St :=
  match s.writer with
  | .lost c p => { markUnavailable s p with writer := .wait c }
  | .finLost p => { markUnavailable s p with writer := .finWait }
  | _ => s

/-! ## Read -/

def read (len : ℕ) : St := if s.reader ≠ .idle ∨ len = 0 then s else { s with reader := .wait len }

def readWait : St :=
  match s.reader with
  | .wait len =>
    if s.closed then readReturn s [] (some .resumableClosed)
    else match s.physical with
      | none => { s with reader := .blocked len }
      | some p => { s with reader := .call len p }
  | _ => s

def readWake : St :=
  match s.reader with
  | .blocked len => { s with reader := .wait len }
  | _ => s

def readContext : St :=
  match s.reader with
  | .blocked _ => readReturn s [] (some .context)
  | _ => s

def physicalRead (data : List Byte) (err : Option Err) : St :=
  match s.reader with
  | .call len p =>
    if data.length > len then { s with reader := .ret len p [] (some .resumableState) }
    else { s with reader := .ret len p data err }
  | _ => s

/-- account the bytes under the lock, or classify the error of an empty read -/
def readEnd (C : Config) (s : St) : St :=
  match s.reader with
  | .ret len p data err =>
    if data ≠ [] then
      if s.closed then readReturn s [] (some .resumableClosed)
      else if s.physical ≠ some p then readReturn s [] (some .resumableState)
      else
        let discarded := min data.length s.discard
        let fresh := data.drop discarded
        if fresh.length > maxSequence - s.receiveOffset then
          readReturn { s with discard := s.discard - discarded } [] (some .resumableState)
        else
          let off := s.receiveOffset + fresh.length
          let notify : Prop := C.ackEveryBytes ≠ 0 ∧ C.ackEveryBytes ≤ off - s.lastNotified
          { s with
            discard := s.discard - discarded, receiveOffset := off
            lastNotified := if notify then off else s.lastNotified
            reader := if notify then .notify len p fresh err else .tail len p fresh err }
    else
      let e := err.getD .noProgress
      if C.recoverableReadError e then { s with reader := .lost len p } else readReturn s [] (some e)
  | _ => s

/-- `onReceive` returned -/
def readNotified (ok : Bool) : St :=
  match s.reader with
  | .notify len p data err => { s with reader := if ok then .tail len p data err else .unnotified len p data err }
  | _ => s

/-- `markUnavailable` called by the reader -/
def readLost : St :=
  match s.reader with
  | .unnotified len p data err => { markUnavailable s p with reader := .tail len p data err }
  | .lost len p => { markUnavailable s p with reader := .wait len }
  | _ => s

/-- the end of a `Read` that accounted bytes -/
def readTail (C : Config) (s : St) : St :=
  match s.reader with
  | .tail len p data err =>
    match err with
    | some e =>
      if C.recoverableReadError e then
        let s := markUnavailable s p
        if data ≠ [] then readReturn s data none else { s with reader := .wait len }
      else if data ≠ [] then readReturn s data none else readReturn s [] (some .resumableState)
    | none => if data ≠ [] then readReturn s data none else { s with reader := .wait len }
  | _ => s

/-! ## Replace and DetachPhysical -/

/-- `Replace` up to its first unlock: `peer` is `PeerReceiveOffset`, `recv` is `ReceiveOffset` -/
def replace (q peer recv : ℕ) : St :=
  if s.replacer ≠ .idle then s
  else if s.closed then replaceReturn s (some .resumableClosed)
  else if s.physical ≠ none ∨ recv > s.receiveOffset ∨ peer > s.transmitted then
    replaceReturn s (some .resumableState)
  else { s with replacer := .ack q peer recv }

def replaceAck : St :=
  match s.replacer with
  | .ack q peer recv =>
    match ackJournal s.journal peer false with
    | .error e => replaceReturn s (some (.stateJoin (.replay e)))
    | .ok j => { s with journal := j, replacer := .state q peer recv }
  | _ => s

/-- the journal's state sizes the copy buffer and ends the replay -/
def replaceState : St :=
  match s.replacer with
  | .state q peer recv =>
    { s with replacer := .loop q recv s.journal.endOffset (min replayCopyBufferSize (max 1 s.journal.size)) peer }
  | _ => s

def replaceReplay : St :=
  match s.replacer with
  | .loop q recv stop room off =>
    if off < stop then
      match s.journal.replay off room with
      | .error e => replaceReturn s (some (.stateJoin (.replay e)))
      | .ok (chunk, following) =>
        if chunk = [] then replaceReturn s (some .resumableState)
        else { s with replacer := .write q recv stop room following chunk 0 }
    else { s with replacer := .fin q recv stop }
  | _ => s

/-- the candidate takes `k` more bytes of the chunk -/
def replayPut (k : ℕ) : St :=
  match s.replacer with
  | .write q recv stop room off chunk put =>
    if put + k ≤ chunk.length then { s with replacer := .write q recv stop room off chunk (put + k) } else s
  | _ => s

/-- one `Write` of `writeAll` returned -/
def replayWrite (n : ℕ) (err : Option Err) : St :=
  match s.replacer with
  | .write q recv stop room off chunk _ =>
    if n > chunk.length then replaceReturn s (some (.stateJoin .resumableState))
    else match err with
      | some e => replaceReturn s (some (.stateJoin e))
      | none =>
        if n = 0 then replaceReturn s (some (.stateJoin .noProgress))
        else if n = chunk.length then { s with replacer := .loop q recv stop room off }
        else { s with replacer := .write q recv stop room off (chunk.drop n) 0 }
  | _ => s

def replaceFin : St :=
  match s.replacer with
  | .fin q recv stop =>
    if s.localFIN then { s with replacer := .closeWrite q recv stop }
    else { s with replacer := .publish q recv stop false }
  | _ => s

/-- `CloseWrite` of the candidate returned -/
def replaceCloseWrite (err : Option Err) : St :=
  match s.replacer with
  | .closeWrite q recv stop =>
    match err with
    | some e => replaceReturn s (some (.stateJoin e))
    | none => { s with replacer := .publish q recv stop true }
  | _ => s

def replacePublish : St :=
  match s.replacer with
  | .publish q recv stop localFIN =>
    if s.closed ∨ s.physical ≠ none ∨ recv > s.receiveOffset then replaceReturn s (some .resumableClosed)
    else replaceReturn { s with physical := some q, transmitted := stop, finTransmitted := localFIN,
                                discard := s.receiveOffset - recv } none
  | _ => s

def detachReturn (err : Option Err) : St := { s with replacer := .idle, log := s.log ++ [.detach err] }

/-- `DetachPhysical`: drop the physical stream, then wait for the attempt that runs on it -/
def detachPhysical : St :=
  if s.replacer ≠ .idle then s
  else if s.closed then detachReturn s (some .resumableClosed)
  else match s.writeAttemptDone with
    | none => detachReturn { s with physical := none } none
    | some i => { s with physical := none, replacer := .detach i }

def detachDone : St :=
  match s.replacer with
  | .detach i => if i < s.settled then detachReturn s none else s
  | _ => s

/-! ## Ack and Close -/

def ack (offset : ℕ) : St :=
  if s.closed then { s with log := s.log ++ [.ack offset (some .resumableClosed)] }
  else if offset > s.transmitted then
    if s.writeAttemptEnd ≠ 0 ∧ offset ≤ s.writeAttemptEnd then
      { s with pendingAck := max s.pendingAck offset, log := s.log ++ [.ack offset none] }
    else { s with log := s.log ++ [.ack offset (some .resumableState)] }
  else { s with ackers := s.ackers ++ [offset] }

/-- the `i`-th waiting `Ack` reaches the journal -/
def ackRetire (i : ℕ) : St :=
  match s.ackers[i]? with
  | none => s
  | some offset =>
    match ackJournal s.journal offset false with
    | .error e => { s with ackers := s.ackers.eraseIdx i, log := s.log ++ [.ack offset (some (.replay e))] }
    | .ok j => { s with journal := j, ackers := s.ackers.eraseIdx i, log := s.log ++ [.ack offset none] }

/-- the locked part of `Close` -/
def close : St := { s with closed := true, physical := none }

/-- the journal goes once the stream is closed -/
def closeJournal : St := if s.closed then { s with journal := s.journal.close } else s

/-- an owed `onUnavailable` callback is made -/
def callback : St := { s with callbacks := s.callbacks - 1 }

/-! ## The machine -/

inductive Op where
  | write (payload : List Byte)
  | writeAppend
  | writeWait
  | writeWake
  | writeContext
  | writeAttempt
  | writePut (k : ℕ)
  | physicalWrite (n : ℕ) (err : Option Err)
  | writeEnd
  | writeSettle
  | writeLost
  | closeWrite
  | finCheck
  | physicalCloseWrite (err : Option Err)
  | finMark
  | read (len : ℕ)
  | readWait
  | readWake
  | readContext
  | physicalRead (data : List Byte) (err : Option Err)
  | readEnd
  | readNotified (ok : Bool)
  | readLost
  | readTail
  | replace (q peer recv : ℕ)
  | replaceAck
  | replaceState
  | replaceReplay
  | replayPut (k : ℕ)
  | replayWrite (n : ℕ) (err : Option Err)
  | replaceFin
  | replaceCloseWrite (err : Option Err)
  | replacePublish
  | detachPhysical
  | detachDone
  | ack (offset : ℕ)
  | ackRetire (i : ℕ)
  | close
  | closeJournal
  | callback
deriving DecidableEq

def step (C : Config) (s : St) : Op → St
  | .write payload => writeCheck s payload
  | .writeAppend => writeAppend s
  | .writeWait => writeWait s
  | .writeWake => writeWake s
  | .writeContext => writeContext s
  | .writeAttempt => writeAttempt s
  | .writePut k => writePut s k
  | .physicalWrite n err => physicalWrite s n err
  | .writeEnd => writeEnd s
  | .writeSettle => writeSettle C s
  | .writeLost => writeLost s
  | .closeWrite => closeWrite s
  | .finCheck => finCheck s
  | .physicalCloseWrite err => physicalCloseWrite s err
  | .finMark => finMark s
  | .read len => read s len
  | .readWait => readWait s
  | .readWake => readWake s
  | .readContext => readContext s
  | .physicalRead data err => physicalRead s data err
  | .readEnd => readEnd C s
  | .readNotified ok => readNotified s ok
  | .readLost => readLost s
  | .readTail => readTail C s
  | .replace q peer recv => replace s q peer recv
  | .replaceAck => replaceAck s
  | .replaceState => replaceState s
  | .replaceReplay => replaceReplay s
  | .replayPut k => replayPut s k
  | .replayWrite n err => replayWrite s n err
  | .replaceFin => replaceFin s
  | .replaceCloseWrite err => replaceCloseWrite s err
  | .replacePublish => replacePublish s
  | .detachPhysical => detachPhysical s
  | .detachDone => detachDone s
  | .ack offset => ack s offset
  | .ackRetire i => ackRetire s i
  | .close => close s
  | .closeJournal => closeJournal s
  | .callback => callback s

end NeProto.Continuity
