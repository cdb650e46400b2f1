/-
One end of a multiplexed stream (`internal/session/stream.go`): sequence numbers, credit in both directions, the buffer of
received chunks, half-close and errors. What the source does under `s.mu` is one function here; the calls made of several such
regions, and the locks `writeMu` and `sendMu`, are in `Session.Link`.

- Credits are numbers instead of their canonical varints, so a cell that cannot be parsed does not occur.
- `mux.initialWindow` is the stream's `window`. The notify channels only wake waiting calls and are left out.
-/
import NeProto.Continuity.Journal
import NeProto.Lib.Bytes

namespace NeProto.Session

open Continuity (maxSequence)

/-! ## Cells -/

/-- `MaxInitialWindow` -/
def maxInitialWindow : ℕ := 16 * 1024 * 1024

/-- `MaxCellPayloadSize` -/
def maxCellPayloadSize : ℕ := 32768

/-- `math.MaxInt64` -/
def maxInt64 : ℕ := 2 ^ 63 - 1

/-- the kind of a stream cell with its payload -/
inductive Body where
  | opening (window : ℕ)
  | openOK (credit : ℕ)
  | openFail (code : UInt8)
  | data (payload : List UInt8)
  | fin
  | reset (code : UInt8)
  | windowUpdate (credit : ℕ)

structure Cell where
  sequence : ℕ
  body : Body

/-! ## Streams -/

inductive StreamErr where
  | protocol
  | closed
  | reset
  | rejected (code : UInt8)
  | canceled
deriving DecidableEq

/-- the details of `fmtProtocol` in `handleCell` -/
inductive CellErr where
  | unexpectedOpenResponse
  | invalidOpenOK
  | unexpectedSequence
  | exhausted
  | invalidData
  | invalidFin
  | invalidWindowUpdate
  | invalidCell

structure Stream where
  window : ℕ
  sendSequence : ℕ
  recvSequence : ℕ
  sendWindow : ℕ
  sendCredit : ℕ
  recvCredit : ℕ
  pendingCredit : ℕ
  chunks : List (List UInt8)
  chunkStart : ℕ
  peerFIN : Bool
  localFIN : Bool
  readErr : Option StreamErr
  writeErr : Option StreamErr
  resetSent : Bool
  /-- what `openOnce` put into `openResult` -/
  openResult : Option (Option StreamErr)

namespace Stream

/-- `newStream`, with the window of its mux as receive credit -/
def new (window sendCredit : ℕ) (opening : Bool) : Stream where
  window := window
  sendSequence := 1
  recvSequence := 0
  sendWindow := sendCredit
  sendCredit := sendCredit
  recvCredit := window
  pendingCredit := 0
  chunks := []
  chunkStart := 0
  peerFIN := false
  localFIN := false
  readErr := none
  writeErr := none
  resetSent := false
  openResult := if opening then none else some none

/-- `windowUpdateThreshold` -/
def windowUpdateThreshold (window : ℕ) : ℕ :=
  if window = 0 then 0
  else
    let threshold := window / 8
    min (min (if threshold = 0 then 1 else threshold) (256 * 1024)) window

variable (s : Stream)

/-- `completeOpen` -/
def completeOpen (err : Option StreamErr) : Stream := { s with openResult := some (s.openResult.getD err) }

/-- `fail` -/
def fail (err : StreamErr) : Stream :=
  { s with readErr := some (s.readErr.getD err), writeErr := some (s.writeErr.getD err) }.completeOpen (some err)

/-- `nextSendSequenceLocked` -/
def nextSendSequence : Option (ℕ × Stream) :=
  if maxSequence < s.sendSequence then none else some (s.sendSequence, { s with sendSequence := s.sendSequence + 1 })

/-- `canRetireLocked` -/
def canRetire : Bool :=
  s.localFIN && s.peerFIN && s.chunks.isEmpty &&
    decide (0 < s.sendWindow ∧ s.sendCredit = s.sendWindow ∧ s.recvCredit = s.window ∧ s.pendingCredit = 0)

/-- `takePendingCreditLocked` -/
def takePendingCredit (force : Bool) : Stream × ℕ :=
  if s.pendingCredit = 0 ∨ !force ∧ s.pendingCredit < windowUpdateThreshold s.window then (s, 0)
  else ({ s with pendingCredit := 0, recvCredit := s.recvCredit + s.pendingCredit }, s.pendingCredit)

inductive ReadResult where
  | data (bytes : List UInt8)
  | err (e : StreamErr)
  | eof
  /-- it waits for a notification -/
  | blocked

/-- the first `n` unread bytes of the first chunk -/
def peek (n : ℕ) : List UInt8 := (s.chunks.headD []).drop s.chunkStart |>.take n

/-- the buffer without the first `n` bytes of the first chunk -/
def consume (n : ℕ) : Stream :=
  if s.chunkStart + n = (s.chunks.headD []).length then { s with chunks := s.chunks.tail, chunkStart := 0 }
  else { s with chunkStart := s.chunkStart + n }

/-- the locked region of `Read`; the last component is the credit it then sends -/
def read (n : ℕ) : Stream × ReadResult × ℕ :=
  if s.chunks ≠ [] then
    let bytes := s.peek n
    let s := s.consume bytes.length
    let s := { s with pendingCredit := s.pendingCredit + bytes.length }
    let x := s.takePendingCredit (decide (s.recvCredit = 0) || s.peerFIN && s.chunks.isEmpty)
    (x.1, .data bytes, x.2)
  else match s.readErr with
    | some e => (s, .err e, 0)
    | none =>
      if s.peerFIN then
        let x := s.takePendingCredit true
        (x.1, .eof, x.2)
      else (s, .blocked, 0)

/-- `handleCell` without the deferred `canRetireLocked` -/
def handleCell (c : Cell) : Stream × Option CellErr :=
  match c.body with
  | .openOK credit =>
    if s.recvSequence ≠ 0 ∨ c.sequence ≠ 0 then (s, some .unexpectedOpenResponse)
    else
      let s := { s with recvSequence := 1 }
      if credit = 0 ∨ maxInt64 < credit ∨ maxInitialWindow < credit then (s, some .invalidOpenOK)
      else ({ s with sendWindow := credit, sendCredit := credit }.completeOpen none, none)
  | .openFail code =>
    if s.recvSequence ≠ 0 ∨ c.sequence ≠ 0 then (s, some .unexpectedOpenResponse)
    else ({ s with recvSequence := 1 }.completeOpen (some (.rejected code)), none)
  | body =>
    if c.sequence ≠ s.recvSequence then (s, some .unexpectedSequence)
    else if s.recvSequence = maxSequence then (s, some .exhausted)
    else
      let s := { s with recvSequence := s.recvSequence + 1 }
      match body with
      | .data payload =>
        if s.peerFIN ∨ s.recvCredit < payload.length then (s, some .invalidData)
        else ({ s with recvCredit := s.recvCredit - payload.length
                       chunks := if payload = [] then s.chunks else s.chunks ++ [payload] }, none)
      | .fin => if s.peerFIN then (s, some .invalidFin) else ({ s with peerFIN := true }, none)
      | .reset _ => ({ s with readErr := some .reset, writeErr := some .reset }, none)
      | .windowUpdate credit =>
        if credit = 0 ∨ maxInt64 < credit ∨ s.sendWindow < credit ∨ maxUint64 - credit < s.sendCredit ∨
            s.sendWindow < s.sendCredit + credit then (s, some .invalidWindowUpdate)
        else ({ s with sendCredit := s.sendCredit + credit }, none)
      | _ => (s, some .invalidCell)

end Stream

end NeProto.Session
