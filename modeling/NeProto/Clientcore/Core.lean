/-
The client core (`internal/clientcore/core.go`, `reconnect.go`): four kinds of goroutine share one mutex. A call of
`Connect` asks the connector for a runtime and publishes it; the monitor it starts waits for that runtime to end; a call of
`NetworkChanged` probes the published runtime and replaces it when the probe fails; the first call of `Close` starts
`shutdown`. Each thread is a program counter, and one step of it is one lock section or one action outside the lock, so a
run is any interleaving of them.

- runtimes and done channels are numbered in the order they are made. `closes r` counts the calls of `Runtime.Close`,
  `doneCloses d` the calls of `close(d)`: a second one would panic.
- what the connector, a probe, `Wait`, the packet-path handover and `Close` of a runtime answer is the `Outcome` of the step.
  A runtime may die at any moment: that is its monitor's `Wait` returning.
- the wait group counts the live threads other than `shutdown`: each is added in the lock section that creates it, and its
  `Done` is deferred to its end.
- `published` is a ghost: the runtimes that were ever stored in `c.runtime`.
- the carriers, timestamps, sequence numbers and error texts of the snapshot decide nothing here and are left out; a runtime
  with the wrong carrier, or whose handover fails, is the outcome `refused`.
-/
import NeProto.Lib.Machine
import NeProto.Lib.Pool

namespace NeProto.Clientcore

open Function

/-! ## The shared state -/

/-- `clienthost.Snapshot.State` -/
inductive SnapshotState
  | disconnected | connecting | connected | reconnecting | disconnecting | failed
deriving DecidableEq

/-- what the mutex guards, and what has been done to every runtime and channel -/
structure Core where
  closed : Bool
  generation : ℕ
  state : SnapshotState
  activeDone : Option ℕ
  runtime : Option ℕ
  /-- `nil`, or how often the channel was closed -/
  closeDone : Option ℕ
  /-- how many runtimes the connector has returned -/
  returned : ℕ
  waited : ℕ → Bool
  closes : ℕ → ℕ
  published : ℕ → Bool
  /-- how many done channels have been made -/
  made : ℕ
  doneCloses : ℕ → ℕ

/-- `New` -/
def Core.new : Core where
  closed := false
  generation := 0
  state := .disconnected
  activeDone := none
  runtime := none
  closeDone := none
  returned := 0
  waited := fun _ => false
  closes := fun _ => 0
  published := fun _ => false
  made := 0
  doneCloses := fun _ => 0

namespace Core

variable (c : Core)

/-- the connector returns a runtime -/
def connector : Core := { c with returned := c.returned + 1 }

/-- `ownedRuntime.Close`: the `sync.Once` lets one call through -/
def closeRuntime (r : ℕ) : Core :=
  { c with closes := if c.closes r = 0 then update c.closes r (c.closes r + 1) else c.closes }

/-- `close(done)` -/
def close (d : ℕ) : Core := { c with doneCloses := update c.doneCloses d (c.doneCloses d + 1) }

/-- `r.waited.Store(true)` -/
def storeWaited (r : ℕ) : Core := { c with waited := update c.waited r true }

/-- `c.snapshot.State = state` -/
def enter (state : SnapshotState) : Core := { c with state := state }

/-- the lock section that makes `r` the current runtime, with a session channel of its own -/
def publish (r : ℕ) : Core :=
  { c with
    runtime := some r, activeDone := some c.made, made := c.made + 1, state := .connected,
    published := update c.published r true }

/-- the lock sections that let the current runtime go -/
def release (state : SnapshotState) : Core := { c with runtime := none, activeDone := none, state := state }

/-- the guard of `NetworkChanged`, and of the first branch of `monitor` -/
def reconnecting (generation runtime : ℕ) : Prop :=
  c.closed = false ∧ c.generation = generation ∧ c.runtime = some runtime ∧ c.state = .reconnecting

instance (generation runtime : ℕ) : Decidable (c.reconnecting generation runtime) :=
  inferInstanceAs (Decidable (_ ∧ _))

/-- the guard of `Connect` and `finishConnectFailure` -/
def connecting (generation done : ℕ) : Prop :=
  c.closed = false ∧ c.generation = generation ∧ c.activeDone = some done

instance (generation done : ℕ) : Decidable (c.connecting generation done) := inferInstanceAs (Decidable (_ ∧ _))

/-- `owned` of `monitor` -/
def owned (generation runtime : ℕ) : Prop :=
  c.closed = false ∧ c.generation = generation ∧ c.runtime = some runtime

instance (generation runtime : ℕ) : Decidable (c.owned generation runtime) :=
  inferInstanceAs (Decidable (_ ∧ _))

end Core

/-! ## The threads -/

/-- where a call of `Connect` stands, past its first lock section -/
inductive ConnectAt
  /-- inside the connector -/
  | connecting
  /-- about to close a runtime with an unsupported carrier -/
  | unsupported (runtime : ℕ)
  /-- about to take the lock of `finishConnectFailure` -/
  | failing
  /-- about to take the lock and publish -/
  | publishing (runtime : ℕ)
  /-- the core has moved on: about to close the runtime -/
  | discarding (runtime : ℕ)
  /-- about to close `connectDone` -/
  | finishing

/-- where a call of `NetworkChanged` stands, past its first lock section -/
inductive ReconnectAt
  /-- inside `current.Probe` -/
  | probing
  /-- the probe succeeded and `WaitReturned` read false: about to take the lock -/
  | confirming
  /-- in the loop, inside the connector -/
  | attempting (attempt : ℕ)
  /-- about to close a replacement with another carrier, or without the packet path -/
  | refusing (attempt runtime : ℕ)
  /-- about to take the lock and publish the replacement -/
  | installing (runtime : ℕ)
  /-- the core has moved on: about to close the replacement -/
  | discarding (runtime : ℕ)
  /-- the replacement is published: about to close `current` -/
  | retiring
  /-- the loop is over: about to close `current` -/
  | givingUp
  /-- `current` is closed: about to take the lock -/
  | failing
deriving DecidableEq

/-- what `Wait` returned -/
inductive WaitErr
  | clean | canceled | failed
deriving DecidableEq

/-- where a monitor stands -/
inductive MonitorAt
  /-- inside `Wait` -/
  | waiting
  /-- `Wait` has returned, the flag is not yet stored -/
  | returned (err : WaitErr)
  /-- about to take the lock -/
  | deciding (err : WaitErr)
  /-- about to close the runtime -/
  | closing (owned : Bool) (err : WaitErr)
  /-- the runtime's `Close` failed: about to take the lock again -/
  | reporting
  /-- about to close `done` -/
  | finishing

/-- where `shutdown` stands -/
inductive ShutdownAt
  /-- about to close the runtime -/
  | closing
  /-- at `<-done` -/
  | waiting
  /-- at `workers.Wait` -/
  | draining

/-- a live thread with what it captured -/
inductive Thread
  | connect (generation done : ℕ) (place : ConnectAt)
  | networkChanged (generation current : ℕ) (place : ReconnectAt)
  | monitor (generation done runtime : ℕ) (place : MonitorAt)
  | shutdown (done runtime : Option ℕ) (place : ShutdownAt)

/-- what the code outside the core answers a step -/
inductive Outcome
  | ok | failed | refused | stopped
deriving DecidableEq

/-- what a step leaves: the shared state, the thread if it has not ended, and the monitor it started -/
structure Move where
  core : Core
  next : Option Thread := none
  spawned : Option Thread := none

/-- the thread goes on -/
abbrev Move.go (core : Core) (t : Thread) : Move := { core := core, next := some t }

/-- `policy.MaxAttempts`, which `normalizeReconnectPolicy` pins -/
def reconnectAttempts : ℕ := 6

/-- the next turn of the loop of `NetworkChanged` -/
def nextAttempt (attempt : ℕ) : ReconnectAt :=
  if attempt + 1 < reconnectAttempts then .attempting (attempt + 1) else .givingUp

def waitErr : Outcome → WaitErr
  | .ok => .clean
  | .refused => .canceled
  | .failed | .stopped => .failed

/-- `Connect` from the connector on, with `finishConnectFailure` -/
def connectStep (c : Core) (o : Outcome) (generation done : ℕ) : ConnectAt → Move
  | .connecting =>
    match o with
    | .ok => .go c.connector (.connect generation done (.publishing c.returned))
    | .refused => .go c.connector (.connect generation done (.unsupported c.returned))
    | .failed | .stopped => .go c (.connect generation done .failing)
  | .unsupported r => .go (c.closeRuntime r) (.connect generation done .failing)
  | .failing =>
    .go (if c.connecting generation done then { c with state := .failed, activeDone := none } else c)
      (.connect generation done .finishing)
  | .publishing r =>
    if c.connecting generation done then
      { core := (c.publish r).close done, spawned := some (.monitor generation c.made r .waiting) }
    else .go c (.connect generation done (.discarding r))
  | .discarding r => .go (c.closeRuntime r) (.connect generation done .finishing)
  | .finishing => { core := c.close done }

/-- `NetworkChanged` from the probe on -/
def networkChangedStep (c : Core) (o : Outcome) (generation current : ℕ) : ReconnectAt → Move
  | .probing =>
    .go c (.networkChanged generation current (if o = .ok ∧ c.waited current = false then .confirming else .attempting 0))
  | .confirming => { core := if c.reconnecting generation current then c.enter .connected else c }
  | .attempting n =>
    match o with
    | .ok => .go c.connector (.networkChanged generation current (.installing c.returned))
    | .refused => .go c.connector (.networkChanged generation current (.refusing n c.returned))
    | .failed => .go c (.networkChanged generation current (nextAttempt n))
    | .stopped => .go c (.networkChanged generation current .givingUp)
  | .refusing n r => .go (c.closeRuntime r) (.networkChanged generation current (nextAttempt n))
  | .installing r =>
    if c.reconnecting generation current then
      { core := c.publish r, next := some (.networkChanged generation current .retiring),
        spawned := some (.monitor generation c.made r .waiting) }
    else .go c (.networkChanged generation current (.discarding r))
  | .discarding r => { core := c.closeRuntime r }
  | .retiring => { core := c.closeRuntime current }
  | .givingUp => .go (c.closeRuntime current) (.networkChanged generation current .failing)
  | .failing => { core := if c.reconnecting generation current then c.release .failed else c }

/-- `monitor` -/
def monitorStep (c : Core) (o : Outcome) (generation done runtime : ℕ) : MonitorAt → Move
  | .waiting => .go c (.monitor generation done runtime (.returned (waitErr o)))
  | .returned e => .go (c.storeWaited runtime) (.monitor generation done runtime (.deciding e))
  | .deciding e =>
    -- `NetworkChanged` owns the runtime: leave without closing it
    if c.reconnecting generation runtime then .go c (.monitor generation done runtime .finishing)
    else if c.owned generation runtime then
      .go (c.release (if e = .failed then .failed else .disconnected)) (.monitor generation done runtime (.closing true e))
    else .go c (.monitor generation done runtime (.closing false e))
  | .closing owned e =>
    .go (c.closeRuntime runtime)
      (.monitor generation done runtime (if owned ∧ e = .clean ∧ o = .failed then .reporting else .finishing))
  | .reporting =>
    .go (if c.closed = false ∧ c.generation = generation ∧ c.runtime = none ∧ c.state = .disconnected then c.enter .failed
        else c)
      (.monitor generation done runtime .finishing)
  | .finishing => { core := c.close done }

/-- `shutdown`; `idle`: the wait group's counter is zero -/
def shutdownStep (c : Core) (idle : Bool) (done runtime : Option ℕ) : ShutdownAt → Move
  | .closing => .go (runtime.elim c c.closeRuntime) (.shutdown done runtime .waiting)
  | .waiting =>
    if ∀ d ∈ done, 0 < c.doneCloses d then .go c (.shutdown done runtime .draining)
    else .go c (.shutdown done runtime .waiting)
  | .draining =>
    if idle then { core := { c.release .disconnected with closeDone := c.closeDone.map (· + 1) } }
    else .go c (.shutdown done runtime .draining)

/-- the next step of a thread -/
def threadStep (c : Core) (idle : Bool) (o : Outcome) : Thread → Move
  | .connect g d p => connectStep c o g d p
  | .networkChanged g r p => networkChangedStep c o g r p
  | .monitor g d r p => monitorStep c o g d r p
  | .shutdown d r p => shutdownStep c idle d r p

/-! ## The system -/

/-- the core and its threads: a thread that has ended leaves `none` -/
structure System where
  core : Core
  threads : List (Option Thread)

def System.new : System where
  core := .new
  threads := []

def Thread.isWorker : Thread → Bool
  | .shutdown .. => false
  | _ => true

variable (s : System)

/-- `workers.Wait` returns -/
def System.idle : Bool := s.threads.all fun t => t.all (!·.isWorker)

inductive Op
  | connect
  | networkChanged
  | close
  | run (thread : ℕ) (o : Outcome)

/-- thread `i` has taken a step -/
def System.move (i : ℕ) (m : Move) : System where
  core := m.core
  threads := Pool.moved s.threads i m.next m.spawned

/-- the first lock section of `Connect` -/
def System.connect : System :=
  if s.core.closed ∨ s.core.activeDone.isSome then s
  else
    { core :=
        { s.core with
          generation := s.core.generation + 1, activeDone := some s.core.made, made := s.core.made + 1,
          state := .connecting },
      threads := s.threads ++ [some (.connect (s.core.generation + 1) s.core.made .connecting)] }

/-- the first lock section of `NetworkChanged` -/
def System.networkChanged : System :=
  match s.core.runtime with
  | none => s
  | some r =>
    if s.core.closed ∨ s.core.state ≠ .connected then s
    else
      { core := s.core.enter .reconnecting,
        threads := s.threads ++ [some (.networkChanged s.core.generation r .probing)] }

/-- the lock section of `Close` -/
def System.close : System :=
  match s.core.closeDone with
  | some _ => s
  | none =>
    { core :=
        { s.core with
          closed := true, generation := s.core.generation + 1, closeDone := some 0, state := .disconnecting },
      threads := s.threads ++ [some (.shutdown s.core.activeDone s.core.runtime .closing)] }

def step : Op → System
  | .connect => s.connect
  | .networkChanged => s.networkChanged
  | .close => s.close
  | .run i o =>
    match s.threads[i]? with
    | some (some t) => s.move i (threadStep s.core s.idle o t)
    | _ => s

def run (ops : List Op) : System := Machine.run step s ops

end NeProto.Clientcore
