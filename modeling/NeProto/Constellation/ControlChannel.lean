/-
The per-carrier control channel (`internal/constellation/channel.go`): acknowledgements are handed to the
handler registered for their flow, and a handler that refuses one loses its flow.

`acknowledge` is what the handler's `Acknowledge` returned; both handlers of the source return what `ResumableStream.Ack`
returned. Sending is an effect; its error is ignored by the source.
-/
import NeProto.Continuity.ResumableStream

namespace NeProto.Constellation

open Continuity

inductive ControlErr where
  /-- `errors.Join(ErrControlFlowAborted, err)` -/
  | flowRefused (err : Err)
deriving DecidableEq

structure ControlChannel where
  handlers : List ℕ
deriving DecidableEq

inductive ControlEffect where
  /-- the flow's handler is told to abort -/
  | abort (flow : ℕ) (reason : ControlErr)
  /-- a `FLOW_ABORT` frame goes to the peer -/
  | sendAbort (flow : ℕ)
deriving DecidableEq

namespace ControlChannel

def unregister (c : ControlChannel) (id : ℕ) : ControlChannel := { c with handlers := c.handlers.filter (· ≠ id) }

def handleAbort (c : ControlChannel) (id : ℕ) (reason : ControlErr) : ControlChannel × List ControlEffect :=
  (c.unregister id, if id ∈ c.handlers then [.abort id reason] else [])

def handleAck (c : ControlChannel) (flow : ℕ) (acknowledge : Option Err) : ControlChannel × List ControlEffect :=
  if flow ∈ c.handlers then
    match acknowledge with
    | none => (c, [])
    | some err =>
      let (c', effects) := c.handleAbort flow (.flowRefused err)
      (c', effects ++ [.sendAbort flow])
  else (c, [.sendAbort flow])

/-- an acknowledgement leaves a registered flow alone exactly when its handler accepts it -/
theorem handleAck_quiet (c : ControlChannel) (flow : ℕ) (acknowledge : Option Err) (h : flow ∈ c.handlers) :
    c.handleAck flow acknowledge = (c, []) ↔ acknowledge = none := by
  unfold handleAck
  rw [if_pos h]
  cases acknowledge with
  | none | some err => simp

end ControlChannel

end NeProto.Constellation
