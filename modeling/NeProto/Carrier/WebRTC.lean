/-
The reliable channel of the WebRTC carrier (`internal/carrier/webrtc/webrtc.go`).

- `Conn`, `step`: the callbacks of the data channel and of the peer connection, the goroutine that `abort` starts, `Close`,
  `Send`, and `Receive` with its two selects. A list of operations is a scheduling of them.
- `timely_reliable`: nothing is lost while no message meets a full queue and the carrier finishes with an empty one.
- `credit_overruns_queue`: the credit of the peer ensures neither.
Left out: the datagram channel and the opening of the carrier.
-/
import NeProto.Lib.Machine
import NeProto.Protocol.Cell

namespace NeProto.Carrier.WebRTC

open List

open Machine Protocol

def defaultMessageQueue : ℕ := 64

inductive Err where
  | invalidConfig | messageTooLarge | unexpectedMessage | backpressure | closed | eof | peerFailed | context
  | channel (code : ℕ)
deriving DecidableEq

/-- a message of the data channel; `bytes` is what `Stream.Write` took from the credit of `stream` for it -/
structure Message where
  isString : Bool
  data : List UInt8
  stream : ℕ
  bytes : ℕ

/-- `Receive` waits between its first select and its second -/
structure Conn where
  messages : List (List UInt8)
  done : Bool
  err : Option Err
  aborted : Option Err
  receiving : Bool
  /-- the credit the peer holds, for each stream -/
  credit : ℕ → ℕ
  /-- what the data channel has delivered, and what `Receive` has returned of it -/
  delivered : List (List UInt8)
  returned : List (List UInt8)
  /-- the errors `Receive` has returned, with the number of messages delivered and not returned at that moment -/
  errors : List (Err × ℕ)

def newConn : Conn := ⟨[], false, none, none, false, fun _ => 0, [], [], []⟩

inductive Op where
  | grant (stream n : ℕ)
  /-- `keep`: the case the select takes if the queue has room and `done` is closed -/
  | message (m : Message) (keep : Bool)
  | error (code : ℕ) | channelClose | peerFailed | peerClosed
  | send (raw : List UInt8) (err : Option ℕ)
  | finish | close
  | receive (ctx : Bool) | take | cancel | ended

variable (c : Conn)

def abort (e : Err) : Conn := if c.aborted.isSome then c else { c with aborted := some e }

def finish (e : Err) : Conn := if c.done then c else { c with err := some e, done := true }

def connectionError : Err := c.err.getD .closed

/-- `Receive` returns an error -/
def fails (e : Err) : Conn :=
  { c with receiving := false, errors := c.errors ++ [(e, c.delivered.length - c.returned.length)] }

def onMessage (m : Message) (keep : Bool) : Conn :=
  if m.isString then abort c .unexpectedMessage
  else if maxCellSize < m.data.length then abort c .messageTooLarge
  else if c.messages.length < defaultMessageQueue ∧ (c.done = false ∨ keep) then
    { c with messages := c.messages ++ [m.data] }
  else if c.done then c
  else abort c .backpressure

def step : Op → Conn
  | .grant i n => { c with credit := Function.update c.credit i (c.credit i + n) }
  | .message m keep =>
    onMessage { c with
      credit := Function.update c.credit m.stream (c.credit m.stream - m.bytes)
      delivered := c.delivered ++ [m.data] } m keep
  | .error code => abort c (.channel code)
  | .channelClose | .peerClosed => abort c .eof
  | .peerFailed => abort c .peerFailed
  | .send raw err =>
    if maxCellSize < raw.length ∨ c.done then c
    else match err with
      | some code => abort c (.channel code)
      | none => c
  | .finish => match c.aborted with
    | some e => finish c e
    | none => c
  | .close => finish c .closed
  | .receive ctx =>
    if c.receiving then c
    else if ctx = false then fails c .invalidConfig
    else if c.done then fails c (connectionError c)
    else { c with receiving := true }
  | .take => match c.receiving, c.messages with
    | true, raw :: rest => { c with receiving := false, messages := rest, returned := c.returned ++ [raw] }
    | _, _ => c
  | .cancel => if c.receiving then fails c .context else c
  | .ended => if c.receiving && c.done then fails c (connectionError c) else c

/-! ## What the carrier promises -/

/-- an honest peer sends binary messages of at most `MaxCellSize` bytes, within the credit it was granted -/
def Honest : Op → Prop
  | .message m _ => m.isString = false ∧ m.data.length ≤ maxCellSize ∧ m.bytes ≤ c.credit m.stream
  | _ => True

instance decHonest (o : Op) : Decidable (Honest c o) := by unfold Honest; split <;> infer_instance

/-- a reader that calls `Receive` again and again -/
def reads (n : ℕ) : List Op := (List.replicate n [Op.receive true, .take]).flatten

/-- an error that ends the carrier -/
def Err.ends (e : Err) : Bool := e ≠ .context ∧ e ≠ .invalidConfig

structure Reliable (c : Conn) : Prop where
  noBackpressure : c.aborted ≠ some .backpressure ∧ c.err ≠ some .backpressure
  noLoss : c.delivered = c.returned ++ c.messages
  drains : (run step c (reads c.messages.length)).returned = c.delivered
  endLast : ∀ e ∈ c.errors, e.1.ends = true → e.2 = 0

/-- the queue has room for each message, and the carrier finishes when the reader has taken all of them -/
def Timely : Op → Prop
  | .message _ _ => c.done = false ∧ c.messages.length < defaultMessageQueue
  | .finish | .close => c.messages = []
  | _ => True

/-! ## The invariant -/

structure Inv (c : Conn) : Prop where
  aborted : c.aborted ≠ some .backpressure
  err : c.err ≠ some .backpressure
  kept : c.delivered = c.returned ++ c.messages
  last : c.done = true → c.messages = []
  errors : ∀ e ∈ c.errors, e.1.ends = true → e.2 = 0

variable {c}

theorem Inv.abort (h : Inv c) {e : Err} (he : e ≠ .backpressure) : Inv (abort c e) := by
  unfold WebRTC.abort
  split_ifs
  · exact h
  · exact { h with aborted := fun hn => he (Option.some.inj hn) }

theorem Inv.finish (h : Inv c) {e : Err} (he : e ≠ .backpressure) (hm : c.messages = []) : Inv (finish c e) := by
  unfold WebRTC.finish
  split_ifs
  · exact h
  · exact { h with err := fun hn => he (Option.some.inj hn), last := fun _ => hm }

theorem Inv.fails (h : Inv c) (e : Err) (he : e.ends = true → c.messages = []) : Inv (fails c e) := by
  refine { h with errors := fun x hx hends => ?_ }
  rcases mem_append.1 hx with hx | hx
  · exact h.errors x hx hends
  · rw [mem_singleton] at hx
    subst hx
    rw [h.kept, he hends, append_nil, Nat.sub_self]

theorem step_inv (c : Conn) (o : Op) (h : Inv c) (ho : Honest c o ∧ Timely c o) : Inv (step c o) := by
  obtain ⟨ho, ht⟩ := ho
  cases o with
  | grant => exact { h with }
  | message m keep =>
    obtain ⟨hs, hl, -⟩ := ho
    have hroom : c.messages.length < defaultMessageQueue ∧ (c.done = false ∨ keep = true) := ⟨ht.2, .inl ht.1⟩
    simp only [step, onMessage, hs, if_neg hl.not_gt, if_pos hroom, Bool.false_eq_true, if_false]
    refine { h with kept := ?_, last := fun hd => ?_ }
    · simp only [h.kept, append_assoc]
    · rw [ht.1] at hd; cases hd
  | error | channelClose | peerClosed | peerFailed => exact h.abort (by simp)
  | send raw err =>
    simp only [step]
    split_ifs
    · exact h
    · cases err with
      | none => exact h
      | some code => exact h.abort (by simp)
  | finish =>
    simp only [step]
    split
    · rename_i e he
      exact h.finish (fun hb => h.aborted (hb ▸ he)) ht
    · exact h
  | close => exact h.finish (by simp) ht
  | receive ctx =>
    simp only [step]
    split_ifs with _ _ hd
    · exact h
    · exact h.fails _ (by simp [Err.ends])
    · exact h.fails _ fun _ => h.last hd
    · exact { h with }
  | take =>
    simp only [step]
    split
    · rename_i raw rest _ hm
      refine { h with kept := ?_, last := fun hd => ?_ }
      · simp only [h.kept, hm, append_assoc, singleton_append]
      · have := h.last hd
        rw [hm] at this
        cases this
    · exact h
  | cancel =>
    simp only [step]
    split_ifs
    · exact h.fails _ (by simp [Err.ends])
    · exact h
  | ended =>
    simp only [step]
    split_ifs with hd
    · exact h.fails _ fun _ => h.last (Bool.and_eq_true_iff.1 hd).2
    · exact h

/-- one call of `Receive` on an open carrier returns the oldest message -/
theorem reads_drain (l : List (List UInt8)) (hm : c.messages = l) (hd : c.done = true → l = []) :
    (run step c (reads l.length)).returned = c.returned ++ l := by
  induction l generalizing c with
  | nil => simp [reads]
  | cons raw rest ih =>
    have hopen : c.done = false := by
      cases hdone : c.done with
      | false => rfl
      | true => cases hd hdone
    have hstep : step (step c (.receive true)) .take =
        { c with receiving := false, messages := rest, returned := c.returned ++ [raw] } := by
      cases hr : c.receiving <;> simp [step, hr, hopen, hm]
    change (run step (step (step c (.receive true)) .take) (reads rest.length)).returned = _
    rw [hstep, ih rfl (fun h => by rw [hopen] at h; cases h), append_assoc, singleton_append]

/-- **Timely runs.** While the queue has room for what an honest peer sends and the carrier finishes with nothing in it, the
carrier never aborts for backpressure, `Receive` returns all messages in order, and the end comes after them. -/
theorem timely_reliable (ops : List Op) (hg : Guarded step (fun c o => Honest c o ∧ Timely c o) newConn ops) :
    Reliable (run step newConn ops) := by
  have h : Inv (run step newConn ops) :=
    run_inv_guarded step_inv ⟨by simp [newConn], by simp [newConn], rfl, fun _ => rfl, by simp [newConn]⟩ ops hg
  exact ⟨⟨h.aborted, h.err⟩, h.kept, (reads_drain _ rfl h.last).trans h.kept.symm, h.errors⟩

/-- a message in the queue, taken before the carrier ends -/
theorem timely_reliable_once : Reliable (run step newConn
    [.grant 1 1, .message ⟨false, [7], 1, 1⟩ true, .receive true, .take, .channelClose, .finish, .receive true]) :=
  timely_reliable _ ⟨⟨trivial, trivial⟩, ⟨⟨rfl, by decide, by decide⟩, rfl, by decide⟩, ⟨trivial, trivial⟩,
    ⟨trivial, trivial⟩, ⟨trivial, trivial⟩, ⟨trivial, rfl⟩, ⟨trivial, trivial⟩, trivial⟩

/-- **Credit is no bound on messages.** With 65 bytes of credit the peer sends 65 messages before the reader runs, and the
carrier aborts. A message is also lost if the channel closes before the reader runs. -/
theorem credit_overruns_queue : (¬ ∀ ops, Guarded step Honest newConn ops → Reliable (run step newConn ops)) ∧
    ∃ ops, Guarded step Honest newConn ops ∧ (run step newConn ops).errors = [(.eof, 1)] := by
  constructor
  · intro h
    exact (h (.grant 1 65 :: List.replicate 65 (.message ⟨false, [7], 1, 1⟩ true)) (by decide +kernel)).noBackpressure.1
      (by decide +kernel)
  · exact ⟨[.grant 1 1, .message ⟨false, [7], 1, 1⟩ true, .channelClose, .finish, .receive true], by decide, by decide⟩

end NeProto.Carrier.WebRTC
