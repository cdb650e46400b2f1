/-
One stream between two muxes (`internal/session/stream.go`, and the parts of `session.go` that concern one stream): an end on
each side, the cells in flight on a reliable carrier that keeps their order, and every call on the stream. MODEL: a call is cut
at its locks, so the calls of any number of goroutines and the two read loops interleave at every point the source allows.

- `writeMu` is held by the one `Write` in progress (`writer`). `sendMu` is held while a cell has its sequence number and is not
  yet on the carrier (`outgoing`).
- A `Read` that took credit waits for `sendMu` (`credits`) and then checks for retirement (`checks`). A `Close`, a cancelled
  `Open` or a read loop that met an error waits to send its RESET (`resets`) and then removes the stream (`removals`).
- Whether an OPEN finds the peer's stream limit reached, and when a retired ID is forgotten, depends on the other streams: here
  the environment decides (`deliver`, `evict`); `Session.Mux` decides it from both muxes.
- `reported` are the bytes the `Write` calls have counted and `returned` those the `Read` calls have copied.
The read loop that resets a stream after an error does not wait for `sendMu` here, nor does it wait for `Mux.Accept`: it is only
faster than the source.
-/
import NeProto.Lib.Machine
import NeProto.Session.Stream

namespace NeProto.Session

open Continuity (maxSequence)

/-! ## State -/

inductive Side where
  | opener
  | acceptor
deriving DecidableEq

def Side.other : Side → Side
  | .opener => .acceptor
  | .acceptor => .opener

theorem Side.acceptor_eq : Side.acceptor = Side.opener.other := rfl

instance Side.decidableForall {p : Side → Prop} [∀ x, Decidable (p x)] : Decidable (∀ x, p x) :=
  decidable_of_iff (p .opener ∧ p .acceptor) ⟨fun h x => by cases x; exacts [h.1, h.2], fun h => ⟨h _, h _⟩⟩

/-- where `Open` or `Incoming` stands -/
inductive Phase where
  | absent
  /-- `Open` has registered the stream and not yet sent OPEN -/
  | opening
  /-- `Open` waits for the answer -/
  | waiting
  | cancelled
  /-- `Incoming` is not yet accepted or rejected -/
  | incoming
  /-- the application has the stream -/
  | usable
  | dropped
deriving DecidableEq

/-- why a stream is reset or removed -/
inductive Cause where
  | close
  | cancel
  | protocol
  | rejected
deriving DecidableEq

/-- the code in the RESET -/
def Cause.code : Cause → UInt8
  | .close => 0
  | .cancel => 1
  | .protocol | .rejected => 2

/-- the call that holds `sendMu` -/
inductive Sender where
  | write
  | update
  | closeWrite
  | reset (cause : Cause)

/-- the call that holds `writeMu` -/
inductive Writer where
  | idle
  /-- `rest` is still to be written -/
  | writing (rest : List UInt8)
  /-- `chunk` has its sequence number and is not yet counted -/
  | sending (chunk rest : List UInt8)
deriving DecidableEq

structure Endpoint where
  stream : Stream
  phase : Phase
  /-- `m.streams[id]` is this stream -/
  registered : Bool
  /-- the ID is in `m.retired` -/
  retired : Bool
  writer : Writer
  outgoing : Option (Cell × Sender)
  credits : List ℕ
  /-- credit taken by `Read` calls that could not send it -/
  stranded : ℕ
  checks : ℕ
  resets : List Cause
  removals : List Cause
  /-- a `Close` has returned -/
  closed : Bool
  reported : List UInt8
  returned : List UInt8

/-- before the stream exists, in a mux with this window -/
def Endpoint.absent (window : ℕ) : Endpoint where
  stream := .new window 0 true
  phase := .absent
  registered := false
  retired := false
  writer := .idle
  outgoing := none
  credits := []
  stranded := 0
  checks := 0
  resets := []
  removals := []
  closed := false
  reported := []
  returned := []

namespace Endpoint

/-! ## Calls on one end -/

variable (e : Endpoint)

/-- `removeStream` -/
def remove : Endpoint := if e.registered then { e with registered := false, retired := true } else e

/-- `retireIfComplete` -/
def retireIfComplete : Endpoint := if e.stream.canRetire then e.remove else e

/-- `Write` takes `writeMu` -/
def write (payload : List UInt8) : Endpoint :=
  if e.phase = .usable ∧ e.writer = .idle ∧ payload ≠ [] then { e with writer := .writing payload } else e

/-- the bytes of the next DATA cell -/
def chunk (rest : List UInt8) : List UInt8 := rest.take (min e.stream.sendCredit maxCellPayloadSize)

/-- `Write` takes `sendMu`, credit and a sequence number, or returns an error -/
def writeChunk : Endpoint :=
  match e.writer, e.outgoing with
  | .writing rest, none =>
    if e.stream.writeErr ≠ none ∨ e.stream.localFIN then { e with writer := .idle }
    else if e.stream.sendCredit = 0 then e
    else
      let chunk := e.chunk rest
      let s := { e.stream with sendCredit := e.stream.sendCredit - chunk.length }
      match s.nextSendSequence with
      | none => { e with stream := s.fail .protocol, writer := .idle }
      | some (sequence, s) =>
        { e with stream := s, outgoing := some (⟨sequence, .data chunk⟩, .write)
                 writer := .sending chunk (rest.drop chunk.length) }
  | _, _ => e

/-- `Write` adds the chunk to `written` -/
def count : Endpoint :=
  match e.writer, e.outgoing with
  | .sending chunk rest, none =>
    { e with reported := e.reported ++ chunk, writer := if rest = [] then .idle else .writing rest }
  | _, _ => e

/-- `Read` up to `sendWindowUpdate` -/
def read (n : ℕ) : Endpoint :=
  if e.phase = .usable ∧ 0 < n then
    let x := e.stream.read n
    let e := { e with stream := x.1 }
    match x.2.1 with
    | .data bytes =>
      let e := { e with returned := e.returned ++ bytes }
      if x.2.2 = 0 then { e with checks := e.checks + 1 } else { e with credits := e.credits ++ [x.2.2] }
    | .eof => if x.2.2 = 0 then { e with checks := e.checks + 1 } else { e with credits := e.credits ++ [x.2.2] }
    | .err _ | .blocked => e
  else e

/-- `sendWindowUpdate` of the `i`-th waiting `Read` takes `sendMu` -/
def sendUpdate (i : ℕ) : Endpoint :=
  match e.credits[i]?, e.outgoing with
  | some credit, none =>
    let e := { e with credits := e.credits.eraseIdx i }
    let lost := { e with stranded := e.stranded + credit }
    if e.stream.writeErr ≠ none then lost
    else match e.stream.nextSendSequence with
      | none => lost
      | some (sequence, s) => { e with stream := s, outgoing := some (⟨sequence, .windowUpdate credit⟩, .update) }
  | _, _ => e

/-- `CloseWrite` takes its locks -/
def closeWrite : Endpoint :=
  if e.phase = .usable ∧ e.writer = .idle ∧ e.outgoing = none then
    if e.stream.writeErr ≠ none ∨ e.stream.localFIN then e
    else
      let s := { e.stream with localFIN := true }
      match s.nextSendSequence with
      | none => { e with stream := s }
      | some (sequence, s) => { e with stream := s, outgoing := some (⟨sequence, .fin⟩, .closeWrite) }
  else e

/-- both directions are finished and read -/
def gracefullyClosed : Bool := e.stream.localFIN && e.stream.peerFIN && e.stream.chunks.isEmpty

/-- `Close` up to `sendReset` -/
def close : Endpoint :=
  if e.phase = .usable then
    if e.gracefullyClosed then { e.retireIfComplete with closed := true }
    else
      { e with stream := { e.stream with readErr := some (e.stream.readErr.getD .closed)
                                         writeErr := some (e.stream.writeErr.getD .closed) }
               resets := e.resets ++ [.close] }
  else e

/-- the `i`-th waiting `sendReset` takes `sendMu`; without a cell to send its caller goes on to remove the stream -/
def sendReset (i : ℕ) : Endpoint :=
  match e.resets[i]?, e.outgoing with
  | some cause, none =>
    let e := { e with resets := e.resets.eraseIdx i }
    let skip := { e with removals := e.removals ++ [cause] }
    if e.stream.resetSent then skip
    else if e.stream.writeErr ≠ none ∧ e.stream.writeErr ≠ some .protocol ∧ e.stream.writeErr ≠ some .closed then skip
    else
      let s := { e.stream with resetSent := true }
      match s.nextSendSequence with
      | none => { skip with stream := s }
      | some (sequence, s) => { e with stream := s, outgoing := some (⟨sequence, .reset cause.code⟩, .reset cause) }
  | _, _ => e

/-- the `i`-th waiting `removeStream`; a cancelled `Open` first fails its stream -/
def removeStream (i : ℕ) : Endpoint :=
  match e.removals[i]? with
  | none => e
  | some cause =>
    let e := { e with removals := e.removals.eraseIdx i, closed := e.closed || decide (cause = Cause.close) }
    if cause = Cause.cancel then { e with stream := e.stream.fail .canceled }.remove else e.remove

/-- a pending `retireIfComplete` -/
def check : Endpoint := if 0 < e.checks then { e with checks := e.checks - 1 }.retireIfComplete else e

/-- the cell is on the carrier and `sendMu` free; its call goes on -/
def sent (sender : Sender) : Endpoint :=
  let e := { e with outgoing := none }
  match sender with
  | .write => e
  | .update | .closeWrite => { e with checks := e.checks + 1 }
  | .reset cause => { e with removals := e.removals ++ [cause] }

/-! ## Opening -/

/-- `Open` registers the stream -/
def openRegister : Endpoint :=
  if e.phase = .absent then { e with stream := .new e.stream.window 0 true, registered := true, phase := .opening } else e

/-- `Open` takes the answer -/
def openReturn : Endpoint :=
  if e.phase = .waiting then
    match e.stream.openResult with
    | none => e
    | some none => { e with phase := .usable }
    | some (some _) => { e with phase := .dropped, removals := e.removals ++ [.rejected] }
  else e

/-- `Open` sees that its context has ended -/
def openCancel : Endpoint :=
  if e.phase = .waiting then { e with phase := .cancelled, resets := e.resets ++ [.cancel] } else e

/-- `handleOpen` registers the stream of a peer with this window -/
def openIncoming (window : ℕ) : Endpoint :=
  { e with stream := { Stream.new e.stream.window window false with recvSequence := 1 }, registered := true, phase := .incoming }

/-- the read loop on a stream that is registered -/
def handleCell (c : Cell) : Endpoint :=
  let x := e.stream.handleCell c
  let e := { e with stream := x.1 }.retireIfComplete
  match x.2 with
  | some _ => { e with stream := e.stream.fail .protocol, resets := e.resets ++ [.protocol] }
  | none => match c.body with
    | .reset _ => e.remove
    | _ => e

end Endpoint

structure Link where
  ends : Side → Endpoint
  /-- the cells in flight to a side -/
  toward : Side → List Cell
  /-- the acceptor answered OPEN at its stream limit -/
  refused : Bool
  /-- a `Mux.handleCell` returned `ErrProtocol` -/
  failed : Bool

/-- `InitialWindow` as `New` accepts it -/
structure Window where
  value : ℕ
  pos : 0 < value
  le : value ≤ maxInitialWindow

/-- a window for the traces -/
def Window.short : Window := ⟨64, by decide, by decide⟩

namespace Link

def init (windows : Side → Window) : Link where
  ends := fun x => .absent (windows x).value
  toward := fun _ => []
  refused := false
  failed := false

/-! ## The machine -/

variable (w : Link)

def setEnd (x : Side) (e : Endpoint) : Link := { w with ends := Function.update w.ends x e }

def push (x : Side) (c : Cell) : Link := { w with toward := Function.update w.toward x (w.toward x ++ [c]) }

/-- a change of one end -/
def onEnd (x : Side) (g : Endpoint → Endpoint) : Link := w.setEnd x (g (w.ends x))

/-- `Mux.send` of the cell that waits -/
def transmit (x : Side) : Link :=
  match (w.ends x).outgoing with
  | none => w
  | some (c, sender) => (w.onEnd x fun e => e.sent sender).push x.other c

/-- `Open` sends OPEN -/
def openSend : Link :=
  let e := w.ends .opener
  if e.phase = .opening then
    (w.setEnd .opener { e with phase := .waiting }).push .acceptor ⟨0, .opening e.stream.window⟩
  else w

/-- `Incoming.Accept` -/
def accept : Link :=
  let e := w.ends .acceptor
  if e.phase = .incoming then
    (w.setEnd .acceptor { e with phase := .usable }).push .opener ⟨0, .openOK e.stream.window⟩
  else w

/-- `Incoming.Reject` up to `removeStream` -/
def reject (code : UInt8) : Link :=
  let e := w.ends .acceptor
  if e.phase = .incoming then
    (w.setEnd .acceptor { e with phase := .dropped, stream := e.stream.fail (.rejected code)
                                 removals := e.removals ++ [.rejected] }).push .opener ⟨0, .openFail code⟩
  else w

/-- `Mux.handleCell` and `handleOpen` on one cell; `full` says whether the stream limit is reached -/
def handleCell (x : Side) (c : Cell) (full : Bool) : Link :=
  let e := w.ends x
  match c.body with
  | .opening window =>
    if x = .opener ∨ c.sequence ≠ 0 ∨ e.registered ∨ e.retired then { w with failed := true }
    else if full then { w with refused := true }.push x.other ⟨0, .openFail 1⟩
    else w.setEnd x (e.openIncoming window)
  | _ =>
    if e.registered then w.setEnd x (e.handleCell c)
    else if e.retired then w
    else { w with failed := true }

/-- the read loop takes a cell -/
def deliver (x : Side) (full : Bool) : Link :=
  match w.toward x with
  | [] => w
  | c :: rest => { w with toward := Function.update w.toward x rest }.handleCell x c full

inductive Op where
  | openRegister
  | openSend
  | openReturn
  | openCancel
  | accept
  | reject (code : UInt8)
  | write (x : Side) (payload : List UInt8)
  | writeChunk (x : Side)
  | count (x : Side)
  | read (x : Side) (n : ℕ)
  | sendUpdate (x : Side) (i : ℕ)
  | closeWrite (x : Side)
  | close (x : Side)
  | sendReset (x : Side) (i : ℕ)
  | removeStream (x : Side) (i : ℕ)
  | check (x : Side)
  | transmit (x : Side)
  | deliver (x : Side) (full : Bool)
  /-- the ID leaves the retired set -/
  | evict (x : Side)

def step : Op → Link
  | .openRegister => w.onEnd .opener Endpoint.openRegister
  | .openSend => w.openSend
  | .openReturn => w.onEnd .opener Endpoint.openReturn
  | .openCancel => w.onEnd .opener Endpoint.openCancel
  | .accept => w.accept
  | .reject code => w.reject code
  | .write x payload => w.onEnd x fun e => e.write payload
  | .writeChunk x => w.onEnd x Endpoint.writeChunk
  | .count x => w.onEnd x Endpoint.count
  | .read x n => w.onEnd x fun e => e.read n
  | .sendUpdate x i => w.onEnd x fun e => e.sendUpdate i
  | .closeWrite x => w.onEnd x Endpoint.closeWrite
  | .close x => w.onEnd x Endpoint.close
  | .sendReset x i => w.onEnd x fun e => e.sendReset i
  | .removeStream x i => w.onEnd x fun e => e.removeStream i
  | .check x => w.onEnd x Endpoint.check
  | .transmit x => w.transmit x
  | .deliver x full => w.deliver x full
  | .evict x => w.onEnd x fun e => { e with retired := false }

/-- every interleaving -/
def run (ops : List Op) : Link := Machine.run step w ops

end Link

end NeProto.Session
