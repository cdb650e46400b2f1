/-
Two resumable streams joined by a sequence of physical streams. MODEL: `a` is the side whose writes are followed, `b` the
side that reads them; both run the full machine of `ResumableStream`, with all their calls, in any interleaving. The bytes
of the other direction are free: what `a`'s physical reads and `b`'s physical writes return is up to the environment.

- A `Pipe` is one physical stream, seen in the direction from `a` to `b`. It starts at a log offset `start`, holds the
  bytes it has taken from `a` and knows how many of them `b` has read. A write may end in an error at any point; the pipe
  then takes nothing more. What `b` has not read may never arrive.
- `capture` opens a pipe for a replacement. Its offset is `a`'s journal base while `a` has no physical stream
  (the client's `SendOffset`), or `b`'s receive offset while `b` has none (the client's `ReceiveOffset`).
- `a` replaces with `PeerReceiveOffset = start`, `b` with `ReceiveOffset = start`, each at most once per pipe and in any
  order; the offset of the other direction is free.
- An acknowledgement delivered to `a` is any offset `b` has reached.
-/
import NeProto.Lib.Slice
import NeProto.Continuity.ResumableStream

namespace NeProto.Continuity

structure Pipe where
  start : ℕ
  /-- the bytes taken from `a` -/
  sent : List Byte
  /-- a write on it has failed: it takes nothing more -/
  broken : Bool
  /-- how many of the bytes `b` has read -/
  taken : ℕ
  usedA : Bool
  usedB : Bool

structure Link where
  a : St
  b : St
  pipe : ℕ → Pipe
  opened : ℕ

inductive LinkOp where
  | a (o : Op)
  | b (o : Op)
  | capture (fromA : Bool)

namespace Link

def setPipe (s : Link) (i : ℕ) (p : Pipe) : Link := { s with pipe := Function.update s.pipe i p }

/-- the pipe takes `bytes` -/
def push (s : Link) (i : ℕ) (bytes : List Byte) : Link :=
  s.setPipe i { s.pipe i with sent := (s.pipe i).sent ++ bytes }

def break' (s : Link) (i : ℕ) : Link := s.setPipe i { s.pipe i with broken := true }

/-- the two ends share the first physical stream -/
def init (Ca Cb : Config) : Link where
  a := Continuity.init Ca 0
  b := Continuity.init Cb 0
  pipe := fun _ => ⟨0, [], false, 0, true, true⟩
  opened := 1

/-- a call on a physical stream of `a` goes through its pipe; a write that returns no error reports what was taken -/
def stepA (C : Config) (s : Link) : Op → Link
  | .writePut k =>
    match s.a.writer with
    | .call c p t put =>
      if (s.pipe p).broken ∨ put + k > (c.rest t).length then s
      else { s.push p (((c.rest t).drop put).take k) with a := writePut s.a k }
    | _ => s
  | .physicalWrite n err =>
    match s.a.writer with
    | .call _ p _ put =>
      if err ≠ none then { s.break' p with a := physicalWrite s.a n err }
      else if n = put then { s with a := physicalWrite s.a n err }
      else s
    | _ => s
  | .replayPut k =>
    match s.a.replacer with
    | .write q _ _ _ _ chunk put =>
      if (s.pipe q).broken ∨ put + k > chunk.length then s
      else { s.push q ((chunk.drop put).take k) with a := replayPut s.a k }
    | _ => s
  | .replayWrite n err =>
    match s.a.replacer with
    | .write q _ _ _ _ _ put =>
      if err ≠ none then { s.break' q with a := replayWrite s.a n err }
      else if n = put then { s with a := replayWrite s.a n err }
      else s
    | _ => s
  | .ack offset => if offset ≤ s.b.receiveOffset then { s with a := ack s.a offset } else s
  | .replace q peer recv =>
    if s.a.replacer = .idle ∧ q < s.opened ∧ (s.pipe q).usedA = false ∧ peer = (s.pipe q).start then
      { s.setPipe q { s.pipe q with usedA := true } with a := replace s.a q peer recv }
    else s
  | o => { s with a := step C s.a o }

/-- a read of `b` returns bytes of its pipe in order -/
def stepB (C : Config) (s : Link) : Op → Link
  | .physicalRead data err =>
    match s.b.reader with
    | .call len p =>
      if data.length ≤ len ∧ data = ((s.pipe p).sent.drop (s.pipe p).taken).take data.length then
        { s.setPipe p { s.pipe p with taken := (s.pipe p).taken + data.length } with b := physicalRead s.b data err }
      else s
    | _ => s
  | .replace q peer recv =>
    if s.b.replacer = .idle ∧ q < s.opened ∧ (s.pipe q).usedB = false ∧ recv = (s.pipe q).start then
      { s.setPipe q { s.pipe q with usedB := true } with b := replace s.b q peer recv }
    else s
  | o => { s with b := step C s.b o }

/-- a pipe for the next replacement -/
def capture (s : Link) (fromA : Bool) : Link :=
  if fromA then
    if s.a.physical = none then
      { s.setPipe s.opened ⟨s.a.journal.baseOffset, [], false, 0, false, false⟩ with opened := s.opened + 1 }
    else s
  else
    if s.b.physical = none then
      { s.setPipe s.opened ⟨s.b.receiveOffset, [], false, 0, false, false⟩ with opened := s.opened + 1 }
    else s

def step (Ca Cb : Config) (s : Link) : LinkOp → Link
  | .a o => stepA Ca s o
  | .b o => stepB Cb s o
  | .capture fromA => capture s fromA

/-- every interleaving of the two ends -/
def run (Ca Cb : Config) (s : Link) (ops : List LinkOp) : Link := Machine.run (step Ca Cb) s ops

end Link

end NeProto.Continuity
