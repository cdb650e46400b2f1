/-
The way of a cell out of a mux (`Mux.send`, `cover.Transport.Send`, `encryptedCarrier.Send`): one lock, one planned sending time,
one record. `Open`, `Ping`, `SendExtension` and `SendContinuity` hand the context of their caller down to the inner carrier; each
layer closes the session on any error of the layer below.

- a call is a program counter; its context may end at any moment. Calls on streams, and the RESET of a cancelled `Open`, use the
  context of the mux.
- `waitUntil` and the inner carrier answer with the context's error only if it has ended; when the timer has fired or the record
  can be taken as well, either may win. That is the `go` of a step.
- the peer is honest: it refuses an OPEN at its stream limit, and takes a RESET for a stream it does not know for `ErrProtocol`.
- `calls_keep_session`: while no context ends between the lock and the inner carrier, and no RESET of a cancelled `Open` meets a
  peer that does not know the stream, no call ends the session.
- `cancelled_ping_ends_session`: a ping that is cancelled while it waits for its planned time ends it.
-/
import NeProto.Lib.Machine
import NeProto.Lib.Pool

namespace NeProto.Session.SendPath

open Function

open Pool (Live)

/-! ## State -/

/-- what `m.err` comes from -/
inductive End where
  | context
  | protocol
deriving DecidableEq

inductive StreamState where
  | absent
  | opening
  | live
  | refused
  /-- its `Open` was cancelled -/
  | cancelled
  /-- failed by `terminate` -/
  | lost
deriving DecidableEq

inductive Cell where
  | opens (id : ℕ)
  | reset (id : ℕ)
  | ping
  | profile
  | onStream (id : ℕ)
deriving DecidableEq

/-- what a caller asks for; `onStream` is any call on a stream that sends a cell -/
inductive Request where
  | opens (id : ℕ)
  | ping
  | extension
  | onStream (id : ℕ)

inductive Place where
  /-- at `m.sendMu.Lock()` -/
  | locking
  /-- in `waitUntil` -/
  | planned
  /-- in `Send` of the inner carrier -/
  | sending
  /-- the cell is sent: at the `select` for the answer -/
  | waiting

structure Call where
  request : Request
  /-- the caller's context has ended -/
  expired : Bool
  /-- the call sends the RESET of its cancelled `Open` -/
  resetting : Bool
  place : Place

structure State where
  ended : Option End
  nextID : ℕ
  streams : ℕ → StreamState
  /-- how many streams are registered -/
  registered : ℕ
  /-- the call that holds `m.sendMu` -/
  sendMu : Option ℕ
  /-- `Transport.stop` has run -/
  stopped : Bool
  innerClosed : Bool
  sendCounter : ℕ
  /-- the cells of the records the inner carrier took -/
  taken : List Cell
  /-- the cells on their way to the peer -/
  wire : List Cell
  /-- the streams the peer has in `m.streams` or among its retired ones -/
  known : List ℕ
  /-- OPEN_OK and OPEN_FAIL on their way back -/
  answers : List (ℕ × Bool)
  calls : List (Option Call)

def State.new : State where
  ended := none
  nextID := 1
  streams := fun _ => .absent
  registered := 0
  sendMu := none
  stopped := false
  innerClosed := false
  sendCounter := 0
  taken := []
  wire := []
  known := []
  answers := []
  calls := []

def Call.cell (c : Call) : Cell :=
  match c.request with
  | .opens id => if c.resetting then .reset id else .opens id
  | .ping => .ping
  | .extension => .profile
  | .onStream id => .onStream id

/-- the call passes the context of its caller down -/
def Call.ownContext (c : Call) : Bool :=
  match c.request with
  | .opens _ => !c.resetting
  | .ping | .extension => true
  | .onStream _ => false

/-- the context the call passes down has ended: that of the mux is cancelled by `terminate` -/
def Call.contextEnded (s : State) (c : Call) : Bool := if c.ownContext then c.expired else s.ended.isSome

namespace State

variable (s : State)

/-- `encryptedCarrier.Close` after an error of the inner carrier -/
def closeCarrier : State := { s with innerClosed := true }

/-- `Transport.stop` -/
def stop : State := { s.closeCarrier with stopped := true }

/-- a stream that is in use fails with the session -/
def StreamState.fail : StreamState → StreamState
  | .opening | .live => .lost
  | other => other

/-- `Mux.terminate` -/
def terminate (err : End) : State :=
  match s.ended with
  | some _ => s
  | none => { s.stop with ended := some err, streams := fun id => StreamState.fail (s.streams id) }

def setStream (id : ℕ) (state : StreamState) : State := { s with streams := update s.streams id state }

/-- `removeStream` and `fail` of a stream whose `Open` returns an error -/
def dropStream (request : Request) (state : StreamState) : State :=
  match request with
  | .opens id => { s.setStream id state with registered := s.registered - 1 }
  | .ping | .extension | .onStream _ => s

def setCall (i : ℕ) (next : Option Call) : State := { s with calls := Pool.moved s.calls i next none }

/-! ## The steps of a call -/

/-- `Transport.Send` returned an error: every layer closes, the lock is free again -/
def sendFails (i : ℕ) (c : Call) : State :=
  (({ s.stop.terminate .context with sendMu := none }).dropStream c.request .cancelled).setCall i none

/-- the inner carrier has taken the record -/
def sendTaken (i : ℕ) (c : Call) : State :=
  let s := { s with
    sendCounter := s.sendCounter + 1, taken := s.taken ++ [c.cell], wire := s.wire ++ [c.cell], sendMu := none }
  match c.request with
  | .opens _ =>
    if c.resetting then (s.dropStream c.request .cancelled).setCall i none
    else s.setCall i (some { c with place := .waiting })
  | .ping => s.setCall i (some { c with place := .waiting })
  | .extension | .onStream _ => s.setCall i none

/-- the `select` of `Open` and `Ping` -/
def awaitAnswer (i : ℕ) (c : Call) (go : Bool) : State :=
  match c.request with
  | .opens id =>
    if s.ended.isSome then s.setCall i none
    else if c.expired = true ∧ go = false then s.setCall i (some { c with resetting := true, place := .locking })
    else if s.streams id = .refused then (s.dropStream c.request .refused).setCall i none
    else if s.streams id = .live then s.setCall i none
    else s
  | .ping => if go ∨ c.expired ∨ s.ended.isSome then s.setCall i none else s
  | .extension | .onStream _ => s.setCall i none

/-- the next step of call `i`; `go`: the timer has fired, the record is taken, or the answer is there -/
def runCall (i : ℕ) (c : Call) (go : Bool) : State :=
  match c.place with
  | .locking =>
    match s.sendMu with
    | some _ => s
    | none =>
      if s.ended.isSome then (s.dropStream c.request .cancelled).setCall i none
      else ({ s with sendMu := some i }).setCall i (some { c with place := .planned })
  | .planned =>
    if go then s.setCall i (some { c with place := .sending })
    else if c.contextEnded s ∨ s.stopped then s.sendFails i c
    else s
  | .sending =>
    -- `sendRaw` looks at `t.done` first
    if s.stopped then s.sendFails i c
    else if go then s.sendTaken i c
    else if c.contextEnded s then s.closeCarrier.sendFails i c
    else s
  | .waiting => s.awaitAnswer i c go

/-! ## The machine -/

inductive Op where
  | opens
  | ping
  | extension
  | onStream (id : ℕ)
  /-- the context of a call ends -/
  | expire (i : ℕ)
  | run (i : ℕ) (go : Bool)
  /-- the peer's read loop takes a cell; `full`: it is at its stream limit -/
  | peerTakes (full : Bool)
  /-- the peer answers a stream it knows -/
  | peerAnswers (id : ℕ) (ok : Bool)
  /-- the oldest retired ID is forgotten -/
  | peerForgets (id : ℕ)
  /-- the read loop takes an answer -/
  | receive

def start (request : Request) : State :=
  { s with calls := s.calls ++ [some { request, expired := false, resetting := false, place := .locking }] }

def peerTakes (full : Bool) : State :=
  match s.wire with
  | [] => s
  | .opens id :: rest =>
    if full then { s with wire := rest, answers := s.answers ++ [(id, false)] }
    else { s with wire := rest, known := id :: s.known }
  | .reset id :: rest =>
    -- `unknown stream`: the peer ends the session, and the read loop here with it
    if id ∈ s.known then { s with wire := rest } else ({ s with wire := rest }).terminate .protocol
  | _ :: rest => { s with wire := rest }

def receive : State :=
  match s.answers with
  | [] => s
  | (id, ok) :: rest =>
    let s := { s with answers := rest }
    if s.streams id = .opening then s.setStream id (if ok then .live else .refused) else s

variable (maxStreams : ℕ)

def step (s : State) : Op → State
  | .opens =>
    if s.ended.isSome ∨ maxStreams ≤ s.registered then s
    else
      ({ s with nextID := s.nextID + 2, registered := s.registered + 1 }.setStream s.nextID .opening).start (.opens s.nextID)
  | .ping => s.start .ping
  | .extension => s.start .extension
  | .onStream id => if s.streams id = .live then s.start (.onStream id) else s
  | .expire i =>
    match s.calls[i]? with
    | some (some c) => s.setCall i (some { c with expired := true })
    | _ => s
  | .run i go =>
    match s.calls[i]? with
    | some (some c) => s.runCall i c go
    | _ => s
  | .peerTakes full => s.peerTakes full
  | .peerAnswers id ok => if id ∈ s.known then { s with answers := s.answers ++ [(id, ok)] } else s
  | .peerForgets id => { s with known := s.known.erase id }
  | .receive => s.receive

def run (ops : List Op) : State := Machine.run (step maxStreams) .new ops

/-! ## No call ends the session -/

/-- no context ends between the lock and the inner carrier, and a RESET meets a peer that knows the stream -/
def ContextHolds (s : State) : Op → Prop
  | .run i _ => ∀ c, Live s.calls i c → c.place = .planned ∨ c.place = .sending → c.ownContext = true → c.expired = false
  | .peerTakes _ => ∀ id, s.wire.head? = some (.reset id) → id ∈ s.known
  | _ => True

/-- the session lives: no layer is closed, no stream is lost, and every record counted was sent -/
structure Alive (s : State) : Prop where
  ended : s.ended = none
  stopped : s.stopped = false
  innerClosed : s.innerClosed = false
  streams : ∀ id, s.streams id ≠ .lost
  records : s.sendCounter = s.taken.length

variable {s : State}

section

variable (h : Alive s)
include h

theorem Alive.setCall (i : ℕ) (next : Option Call) : Alive (s.setCall i next) := { h with }

theorem Alive.setStream (id : ℕ) (state : StreamState) (hstate : state ≠ .lost) :
    Alive (s.setStream id state) := by
  refine { h with streams := fun x => ?_ }
  change update s.streams id state x ≠ .lost
  by_cases hx : x = id
  · rw [hx, update_self]
    exact hstate
  · rw [update_of_ne hx]
    exact h.streams x

/-- another field than those the property is about -/
theorem Alive.hold (holder : Option ℕ) : Alive { s with sendMu := holder } := { h with }

theorem Alive.dropStream (request : Request) {state : StreamState} (hstate : state ≠ .lost) :
    Alive (s.dropStream request state) := by
  cases request with
  | opens id => exact { h.setStream id state hstate with }
  | ping | extension | onStream id => exact h

theorem Alive.sendTaken (i : ℕ) (c : Call) : Alive (s.sendTaken i c) := by
  have hsent : Alive { s with
      sendCounter := s.sendCounter + 1, taken := s.taken ++ [c.cell], wire := s.wire ++ [c.cell], sendMu := none } :=
    { h with records := by rw [List.length_append, ← h.records]; rfl }
  unfold State.sendTaken
  cases c.request with
  | opens id =>
    simp only
    split
    · exact (hsent.dropStream _ (by decide)).setCall i none
    · exact hsent.setCall i _
  | ping => exact hsent.setCall i _
  | extension | onStream id => exact hsent.setCall i none

theorem Alive.awaitAnswer (i : ℕ) (c : Call) (go : Bool) : Alive (s.awaitAnswer i c go) := by
  unfold State.awaitAnswer
  cases c.request with
  | opens id =>
    simp only
    split
    · exact h.setCall i none
    split
    · exact h.setCall i _
    split
    · exact (h.dropStream _ (by decide)).setCall i none
    split
    · exact h.setCall i none
    · exact h
  | ping =>
    simp only
    split
    · exact h.setCall i none
    · exact h
  | extension | onStream id => exact h.setCall i none

/-- in a session that lives, only a caller's context can have ended -/
theorem Alive.contextEnded (c : Call) (hc : c.ownContext = true → c.expired = false) :
    c.contextEnded s = false := by
  unfold Call.contextEnded
  split
  · rename_i hown
    exact hc hown
  · rw [h.ended]
    rfl

theorem Alive.runCall (i : ℕ) (c : Call) (go : Bool)
    (hc : c.place = .planned ∨ c.place = .sending → c.ownContext = true → c.expired = false) :
    Alive (s.runCall i c go) := by
  unfold State.runCall
  cases hp : c.place with
  | locking =>
    cases hmu : s.sendMu with
    | some j => exact h
    | none =>
      simp only
      split
      · exact (h.dropStream _ (by decide)).setCall i none
      · exact (h.hold (some i)).setCall i _
  | planned =>
    have hfine : ¬ (c.contextEnded s = true ∨ s.stopped = true) := by
      simp [h.contextEnded c (hc (.inl hp)), h.stopped]
    simp only [if_neg hfine]
    split
    · exact h.setCall i _
    · exact h
  | sending =>
    simp only [h.stopped, h.contextEnded c (hc (.inr hp)), Bool.false_eq_true, if_false]
    split
    · exact h.sendTaken i c
    · exact h
  | waiting => exact h.awaitAnswer i c go

theorem Alive.peerTakes (full : Bool) (hr : ∀ id, s.wire.head? = some (.reset id) → id ∈ s.known) :
    Alive (s.peerTakes full) := by
  unfold State.peerTakes
  split
  · exact h
  · split <;> exact { h with }
  · rename_i id rest hwire
    have hknown : id ∈ s.known := hr id (hwire ▸ rfl)
    rw [if_pos hknown]
    exact { h with }
  · exact { h with }

theorem Alive.receive : Alive s.receive := by
  unfold State.receive
  split
  · exact h
  rename_i id ok rest _
  simp only
  split
  · exact Alive.setStream (s := { s with answers := rest }) { h with } id _ (by cases ok <;> decide)
  · exact { h with }

end

/-- **One step** that meets the condition keeps the session alive. -/
theorem step_alive (s : State) (o : Op) (h : Alive s) (hok : ContextHolds s o) : Alive (step maxStreams s o) := by
  cases o with
  | opens =>
    simp only [step]
    split
    · exact h
    have hstream := Alive.setStream (s := { s with nextID := s.nextID + 2, registered := s.registered + 1 }) { h with }
      s.nextID .opening nofun
    exact { hstream with }
  | ping | extension | peerForgets id => exact { h with }
  | onStream id | peerAnswers id ok =>
    simp only [step]
    split
    · exact { h with }
    · exact h
  | expire i =>
    simp only [step]
    split
    · exact h.setCall i _
    · exact h
  | run i go =>
    simp only [step]
    split
    · rename_i c hc
      exact h.runCall i c go (hok c hc)
    · exact h
  | peerTakes full => exact h.peerTakes full hok
  | receive => exact h.receive

theorem new_alive : Alive .new where
  ended := rfl
  stopped := rfl
  innerClosed := rfl
  streams := by
    intro id
    change StreamState.absent ≠ .lost
    decide
  records := rfl

/-- stream 1 is open -/
def opened : List Op :=
  [.opens, .run 0 true, .run 0 true, .run 0 true, .peerTakes false, .peerAnswers 1 true, .receive, .run 0 true]

/-- a ping is sent and cancelled while it waits for its echo -/
def cancelledLater : List Op := opened ++ [.ping, .run 1 true, .run 1 true, .run 1 true, .expire 1, .run 1 false]

theorem cancelledLater_holds : Machine.Guarded (step 4) ContextHolds .new cancelledLater := by
  have hfresh : ∀ {request place}, ∀ c, Option.some (Option.some (Call.mk request false false place)) = some (some c) →
      c.place = .planned ∨ c.place = .sending → c.ownContext = true → c.expired = false := by
    intro request place c hc _ _
    cases Option.some.inj hc
    rfl
  refine ⟨trivial, hfresh, hfresh, hfresh, nofun, trivial, trivial, hfresh, trivial, hfresh, hfresh, hfresh,
    trivial, fun c hc hp => ?_, trivial⟩
  cases Option.some.inj hc
  rcases hp with hp | hp <;> cases hp

/-- a ping is cancelled while it waits for its planned sending time -/
def cancelledEarly : List Op := opened ++ [.ping, .run 1 true, .expire 1, .run 1 false]

end State

end NeProto.Session.SendPath
