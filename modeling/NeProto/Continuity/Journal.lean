/-
The replay journal (`internal/continuity/journal.go`): a bounded circular buffer that holds the unacknowledged bytes of
one direction of one logical flow, under cumulative offsets.

A `Journal` carries its well-formedness: while it is open the head lies inside the buffer, the buffered size fits and
`endOffset = baseOffset + size`; offsets never pass `maxSequence`. `close` wipes the buffer and keeps the offsets.

Results:
- `append_ok` / `append_spec`: a successful append puts the payload behind the contents and returns its range.
- `ack_spec`: a successful ack drops the acknowledged bytes and moves the base, nothing else.
- `replay_spec`: a replay returns the bytes of the contents from the given offset on, as many as fit.
- `journal_refines`: every sequence of calls is answered as a plain list of bytes answers it.
-/
import NeProto.Lib.Ring

namespace NeProto.Continuity

open List

open NeProto.Ring

abbrev Byte := UInt8

/-- `protocol.MaxSequence` -/
def maxSequence : ℕ := 2 ^ 62 - 1

/-- `MaxJournalCapacity` -/
def maxJournalCapacity : ℕ := 64 * 1024 * 1024

inductive ReplayErr where
  | config
  | budget
  | offset
  | closed
  | overflow
deriving DecidableEq

structure Journal where
  buffer : List Byte
  head : ℕ
  size : ℕ
  baseOffset : ℕ
  endOffset : ℕ
  closed : Bool
  /-- while the journal is open the head is inside the buffer, the bytes fit and the offsets span them -/
  inside : closed = false → head < buffer.length ∧ size ≤ buffer.length ∧ endOffset = baseOffset + size
  ordered : baseOffset ≤ endOffset
  bounded : endOffset ≤ maxSequence
deriving DecidableEq

namespace Journal

variable (j : Journal)

/-- the retained bytes, oldest first: those of the offsets `baseOffset .. endOffset` -/
def contents : List Byte := ringRead j.buffer j.head j.size

/-! ## Operations -/

/-- a journal that has retained nothing -/
def empty (capacity : ℕ) (h : 0 < capacity) : Journal where
  buffer := List.replicate capacity 0
  head := 0
  size := 0
  baseOffset := 0
  endOffset := 0
  closed := false
  inside := fun _ => ⟨by rwa [List.length_replicate], Nat.zero_le _, rfl⟩
  ordered := le_rfl
  bounded := Nat.zero_le _

/-- `NewJournal` -/
def new (capacity : ℕ) : Except ReplayErr Journal :=
  if h : capacity = 0 ∨ capacity > maxJournalCapacity then .error .config
  else .ok (empty capacity (by omega))

/-- `Append`: the range `[start, end)` of the payload and the new journal -/
def append (payload : List Byte) : Except ReplayErr (ℕ × ℕ × Journal) :=
  if hc : j.closed = true then .error .closed
  else if hb : payload.length > j.buffer.length - j.size then .error .budget
  else if ho : payload.length > maxSequence - j.endOffset then .error .overflow
  else if payload.length = 0 then .ok (j.endOffset, j.endOffset, j)
  else
    let tail := (j.head + j.size) % j.buffer.length
    .ok (j.endOffset, j.endOffset + payload.length,
      { buffer := ringWrite j.buffer tail payload, head := j.head, size := j.size + payload.length,
        baseOffset := j.baseOffset, endOffset := j.endOffset + payload.length, closed := j.closed,
        inside := by
          obtain ⟨hh, hs, he⟩ := j.inside (by simpa using hc)
          have hlen : (ringWrite j.buffer tail payload).length = j.buffer.length :=
            ringWrite_length _ _ _ (Nat.mod_lt _ (by omega)).le (by omega)
          exact fun _ => ⟨by omega, by omega, by omega⟩
        ordered := by have := j.ordered; omega
        bounded := by have := j.bounded; omega })

/-- `Ack`: retire every byte below `offset` -/
def ack (offset : ℕ) : Except ReplayErr Journal :=
  if hc : j.closed = true then .error .closed
  else if ho : offset < j.baseOffset ∨ offset > j.endOffset then .error .offset
  else
    let retire := offset - j.baseOffset
    if retire = 0 then .ok j
    else
      let head := (j.head + retire) % j.buffer.length
      .ok { buffer := ringClear 0 j.buffer j.head retire,
            head := if j.size - retire = 0 then 0 else head, size := j.size - retire,
            baseOffset := offset, endOffset := j.endOffset, closed := j.closed,
            inside := by
              obtain ⟨hh, hs, he⟩ := j.inside (by simpa using hc)
              have hlen : (ringClear 0 j.buffer j.head retire).length = j.buffer.length :=
                ringWrite_length _ _ _ hh.le (by simp only [List.length_replicate, retire]; omega)
              have hmod : head < j.buffer.length := Nat.mod_lt _ (by omega)
              split_ifs <;> omega
            ordered := by omega
            bounded := j.bounded }

/-- `Replay`: up to `room` retained bytes from `offset` on, and the offset behind them -/
def replay (offset room : ℕ) : Except ReplayErr (List Byte × ℕ) :=
  if j.closed then .error .closed
  else if offset < j.baseOffset ∨ offset > j.endOffset then .error .offset
  else
    let length := min room (j.endOffset - offset)
    if length = 0 then .ok ([], offset)
    else
      let start := (j.head + (offset - j.baseOffset)) % j.buffer.length
      .ok (ringRead j.buffer start length, offset + length)

/-- `Close` -/
def close : Journal :=
  if j.closed then j
  else { buffer := [], head := 0, size := 0, baseOffset := j.baseOffset, endOffset := j.endOffset, closed := true,
         inside := fun h => absurd h Bool.noConfusion
         ordered := j.ordered
         bounded := j.bounded }

/-! ## Specifications -/

variable {j} {j' : Journal}

theorem contents_length (j : Journal) (h : j.closed = false) :
    j.contents.length = j.endOffset - j.baseOffset := by
  obtain ⟨hh, hs, he⟩ := j.inside h
  unfold contents
  rw [ringRead_length _ _ _ hs hh.le, he, Nat.add_sub_cancel_left]

/-- an open journal with room takes the payload -/
theorem append_ok (j : Journal) (payload : List Byte) (hc : j.closed = false)
    (hb : payload.length ≤ j.buffer.length - j.size) (ho : j.endOffset + payload.length ≤ maxSequence) :
    ∃ j', append j payload = .ok (j.endOffset, j.endOffset + payload.length, j') := by
  unfold append
  rw [dif_neg (by simp [hc]), dif_neg (by omega), dif_neg (by omega)]
  split_ifs with h0
  · exact ⟨j, by rw [h0, Nat.add_zero]⟩
  · exact ⟨_, rfl⟩

section

variable {payload : List Byte} {start stop : ℕ} (h : append j payload = .ok (start, stop, j'))
include h

/-- **Append.** The payload goes behind the contents, under the range that is returned. -/
theorem append_spec :
    j.closed = false ∧ j'.closed = false ∧ j'.baseOffset = j.baseOffset ∧ start = j.endOffset ∧
      stop = start + payload.length ∧ j'.endOffset = stop ∧ j'.contents = j.contents ++ payload := by
  unfold append at h
  split_ifs at h with hc hb ho h0
  · -- the empty payload
    cases h
    obtain rfl : payload = [] := length_eq_zero_iff.1 h0
    exact ⟨by simpa using hc, by simpa using hc, rfl, rfl, rfl, rfl, by rw [append_nil]⟩
  · cases h
    have hc' : j.closed = false := by simpa using hc
    obtain ⟨hh, hs, he⟩ := j.inside hc'
    refine ⟨hc', hc', rfl, rfl, rfl, rfl, ?_⟩
    exact ringRead_write j.buffer j.head j.size payload hh (by omega)

/-- the buffer keeps its capacity, and the bytes behind the payload are as they were -/
theorem append_buffer :
    j'.buffer.length = j.buffer.length ∧ (Blank 0 j.buffer j.head j.size → Blank 0 j'.buffer j'.head j'.size) := by
  unfold append at h
  split_ifs at h with hc hb ho h0
  · cases h
    exact ⟨rfl, id⟩
  cases h
  obtain ⟨hh, hs, he⟩ := j.inside (by simpa using hc)
  exact ⟨ringWrite_length _ _ _ (Nat.mod_lt _ (by omega)).le (by omega), fun hblank => hblank.write payload hh (by omega)⟩

end

/-- an open journal takes every acknowledgement between its offsets -/
theorem ack_ok (j : Journal) (offset : ℕ) (hc : j.closed = false) (hb : j.baseOffset ≤ offset)
    (he : offset ≤ j.endOffset) : ∃ j', ack j offset = .ok j' := by
  unfold ack
  rw [dif_neg (by simp [hc]), dif_neg (by omega)]
  by_cases hr : offset - j.baseOffset = 0
  · exact ⟨j, if_pos hr⟩
  · exact ⟨_, if_neg hr⟩

/-- **Ack.** The base moves to the acknowledged offset and the bytes below it go. -/
theorem ack_spec {offset : ℕ} (h : ack j offset = .ok j') :
    j.closed = false ∧ j'.closed = false ∧ j.baseOffset ≤ offset ∧ offset ≤ j.endOffset ∧ j'.baseOffset = offset ∧
      j'.endOffset = j.endOffset ∧ j'.contents = j.contents.drop (offset - j.baseOffset) := by
  unfold ack at h
  split_ifs at h with hc ho
  have hc' : j.closed = false := by simpa using hc
  obtain ⟨hh, hs, he⟩ := j.inside hc'
  by_cases hr : offset - j.baseOffset = 0
  · cases (if_pos hr).symm.trans h
    obtain rfl : offset = j.baseOffset := by omega
    exact ⟨hc', hc', le_rfl, by omega, rfl, rfl, by simp⟩
  cases (if_neg hr).symm.trans h
  refine ⟨hc', hc', by omega, by omega, rfl, rfl, ?_⟩
  unfold contents
  simp only
  split_ifs with hz
  · -- everything is retired, the head goes back to the start
    rw [hz, drop_of_length_le (by rw [ringRead_length _ _ _ hs hh.le]; omega)]
    simp [ringRead]
  · have hclear := ringRead_clear j.buffer 0 j.head j.size (offset - j.baseOffset) hh hs (by omega)
    have hdrop := ringRead_drop j.buffer j.head j.size (offset - j.baseOffset) (j.size - (offset - j.baseOffset)) hh hs
      (by omega)
    rw [take_of_length_le (by simp [ringRead_length _ _ _ hs hh.le])] at hdrop
    exact hclear.trans hdrop

/-- an open journal replays every offset it still holds -/
theorem replay_ok (j : Journal) (offset room : ℕ) (hc : j.closed = false) (hb : j.baseOffset ≤ offset)
    (he : offset ≤ j.endOffset) : ∃ bytes, replay j offset room = .ok (bytes, offset + bytes.length) := by
  obtain ⟨hh, hs, hend⟩ := j.inside hc
  unfold replay
  rw [if_neg (by simp [hc]), if_neg (by omega)]
  simp only
  split_ifs with hz
  · exact ⟨[], rfl⟩
  refine ⟨ringRead j.buffer ((j.head + (offset - j.baseOffset)) % j.buffer.length)
    (min room (j.endOffset - offset)), ?_⟩
  rw [ringRead_length _ _ _ (by omega) (Nat.mod_lt _ (by omega)).le]

/-- **Replay.** The bytes are those of the contents from the offset on, as many as there is room for. -/
theorem replay_spec {offset room following : ℕ} {bytes : List Byte} (h : replay j offset room = .ok (bytes, following)) :
    j.closed = false ∧ j.baseOffset ≤ offset ∧ offset ≤ j.endOffset ∧ following = offset + bytes.length ∧
      bytes.length = min room (j.endOffset - offset) ∧
      bytes = (j.contents.drop (offset - j.baseOffset)).take bytes.length := by
  unfold replay at h
  split_ifs at h with hc ho
  have hc' : j.closed = false := by simpa using hc
  obtain ⟨hh, hs, he⟩ := j.inside hc'
  simp only at h
  split_ifs at h with hz
  · cases h
    exact ⟨hc', by omega, by omega, rfl, hz.symm, by simp⟩
  cases h
  have hlen : (ringRead j.buffer ((j.head + (offset - j.baseOffset)) % j.buffer.length)
      (min room (j.endOffset - offset))).length = min room (j.endOffset - offset) :=
    ringRead_length _ _ _ (by omega) (Nat.mod_lt _ (by omega)).le
  refine ⟨hc', by omega, by omega, by rw [hlen], hlen, ?_⟩
  rw [hlen]
  exact ringRead_drop j.buffer j.head j.size (offset - j.baseOffset) _ hh hs (by omega)

@[simp] theorem close_closed (j : Journal) : j.close.closed = true := by
  unfold close; split_ifs with h
  · exact h
  · rfl

@[simp] theorem close_base (j : Journal) : j.close.baseOffset = j.baseOffset := by
  unfold close; split_ifs <;> rfl

@[simp] theorem close_end (j : Journal) : j.close.endOffset = j.endOffset := by
  unfold close; split_ifs <;> rfl

/-! ## A plain list of bytes -/

/-- what a journal is for: the bytes from an offset on -/
structure Plain where
  capacity : ℕ
  base : ℕ
  bytes : List Byte
  closed : Bool

inductive Call where
  | append (payload : List Byte)
  | ack (offset : ℕ)
  | replay (offset room : ℕ)
  | close

inductive Reply where
  | range (start stop : ℕ)
  | copied (bytes : List Byte) (following : ℕ)
  | done
deriving DecidableEq

def Plain.call (p : Plain) : Call → Plain × Except ReplayErr Reply
  | .append payload =>
    let stop := p.base + p.bytes.length
    if p.closed then (p, .error .closed)
    else if p.capacity - p.bytes.length < payload.length then (p, .error .budget)
    else if maxSequence < stop + payload.length then (p, .error .overflow)
    else ({ p with bytes := p.bytes ++ payload }, .ok (.range stop (stop + payload.length)))
  | .ack offset =>
    if p.closed then (p, .error .closed)
    else if p.base ≤ offset ∧ offset ≤ p.base + p.bytes.length then
      ({ p with base := offset, bytes := p.bytes.drop (offset - p.base) }, .ok .done)
    else (p, .error .offset)
  | .replay offset room =>
    if p.closed then (p, .error .closed)
    else if p.base ≤ offset ∧ offset ≤ p.base + p.bytes.length then
      let bytes := (p.bytes.drop (offset - p.base)).take room
      (p, .ok (.copied bytes (offset + bytes.length)))
    else (p, .error .offset)
  | .close => (if p.closed then p else { p with bytes := [], closed := true }, .ok .done)

/-- a call of the journal; one that fails returns no journal, so the old one stays -/
def call (j : Journal) : Call → Journal × Except ReplayErr Reply
  | .append payload =>
    match j.append payload with
    | .error e => (j, .error e)
    | .ok (start, stop, j') => (j', .ok (.range start stop))
  | .ack offset =>
    match j.ack offset with
    | .error e => (j, .error e)
    | .ok j' => (j', .ok .done)
  | .replay offset room =>
    match j.replay offset room with
    | .error e => (j, .error e)
    | .ok (bytes, following) => (j, .ok (.copied bytes following))
  | .close => (j.close, .ok .done)

/-- the journal holds the list from its base on, and every byte of its buffer outside the retained range is zero -/
structure Refines (j : Journal) (p : Plain) : Prop where
  closed : j.closed = p.closed
  base : j.baseOffset = p.base
  bytes : j.contents = p.bytes
  capacity : j.closed = false → j.buffer.length = p.capacity
  blank : Blank 0 j.buffer j.head j.size

variable {p : Plain}

/-- where the list ends -/
theorem Refines.stop (h : Refines j p) (hc : j.closed = false) :
    j.size = p.bytes.length ∧ j.endOffset = p.base + p.bytes.length := by
  obtain ⟨hh, hs, he⟩ := j.inside hc
  have hlen := contents_length j hc
  have hbase := h.base
  rw [h.bytes] at hlen
  omega

/-- the buffer keeps its capacity, and what is acknowledged is wiped -/
theorem ack_buffer {offset : ℕ} (h : ack j offset = .ok j') : j'.buffer.length = j.buffer.length ∧
    (Blank 0 j.buffer j.head j.size → Blank 0 j'.buffer j'.head j'.size) := by
  unfold ack at h
  split_ifs at h with hc ho
  obtain ⟨hh, hs, he⟩ := j.inside (by simpa using hc)
  by_cases hr : offset - j.baseOffset = 0
  · cases (if_pos hr).symm.trans h
    exact ⟨rfl, id⟩
  cases (if_neg hr).symm.trans h
  have hlen : (ringClear 0 j.buffer j.head (offset - j.baseOffset)).length = j.buffer.length :=
    ringWrite_length _ _ _ hh.le (by rw [length_replicate]; omega)
  refine ⟨hlen, fun hb => ?_⟩
  have hblank := hb.clear (n := offset - j.baseOffset) hh hs (by omega)
  dsimp only
  split_ifs with hz
  · rw [hz] at hblank ⊢
    exact hblank.move (hlen ▸ cell_lt (by omega) _ _)
  · exact hblank

theorem Refines.step (h : Refines j p) (c : Call) : (j.call c).2 = (p.call c).2 ∧ Refines (j.call c).1 (p.call c).1 := by
  have hbase := h.base
  cases hc : j.closed with
  | true => cases c <;> simpa [call, append, ack, replay, close, Plain.call, ← h.closed, hc] using h
  | false =>
    obtain ⟨hsize, hstop⟩ := h.stop hc
    have hp : p.closed = false := h.closed ▸ hc
    have hcap := h.capacity hc
    cases c with
    | append payload =>
      by_cases hb : p.capacity - p.bytes.length < payload.length
      · simpa [call, append, Plain.call, hp, hc, hsize, hcap, hb] using h
      by_cases ho : maxSequence < p.base + p.bytes.length + payload.length
      · have ho' : payload.length > maxSequence - j.endOffset := by
          have := j.bounded
          omega
        simpa [call, append, Plain.call, hp, hc, hsize, hcap, hb, ho, ho'] using h
      obtain ⟨j', hj'⟩ := append_ok j payload hc (by omega) (by omega)
      obtain ⟨-, hc', hbase', -, -, -, hbytes⟩ := append_spec hj'
      obtain ⟨hcap', hblank⟩ := append_buffer hj'
      simp only [call, hj', hstop, Plain.call, hp, hb, ho, if_false, Bool.false_eq_true, true_and]
      exact ⟨hc', hbase'.trans hbase, by rw [hbytes, h.bytes], fun _ => hcap'.trans hcap, hblank h.blank⟩
    | ack offset =>
      by_cases ho : p.base ≤ offset ∧ offset ≤ p.base + p.bytes.length
      · obtain ⟨j', hj'⟩ := ack_ok j offset hc (hbase ▸ ho.1) (hstop ▸ ho.2)
        obtain ⟨-, hc', -, -, hbase', -, hbytes⟩ := ack_spec hj'
        obtain ⟨hcap', hblank⟩ := ack_buffer hj'
        simp only [call, hj', Plain.call, hp, if_pos ho, if_false, Bool.false_eq_true, true_and]
        exact ⟨hc', hbase', by rw [hbytes, h.bytes, hbase], fun _ => hcap'.trans hcap, hblank h.blank⟩
      · have ho' : offset < j.baseOffset ∨ offset > j.endOffset := by omega
        simpa [call, ack, Plain.call, hp, hc, ho, ho'] using h
    | replay offset room =>
      by_cases ho : p.base ≤ offset ∧ offset ≤ p.base + p.bytes.length
      · obtain ⟨bytes, hj⟩ := replay_ok j offset room hc (hbase ▸ ho.1) (hstop ▸ ho.2)
        obtain ⟨-, -, -, -, hlen, hbytes⟩ := replay_spec hj
        have htake : bytes = (p.bytes.drop (offset - p.base)).take room := by
          rw [hbytes, h.bytes, hbase, take_eq_take_iff, length_drop]
          omega
        simp only [call, hj, Plain.call, hp, if_pos ho, if_false, Bool.false_eq_true, ← htake, true_and]
        exact h
      · have ho' : offset < j.baseOffset ∨ offset > j.endOffset := by omega
        simpa [call, replay, Plain.call, hp, hc, ho, ho'] using h
    | close =>
      simp only [call, close, Plain.call, hp, hc, Bool.false_eq_true, if_false, true_and]
      exact ⟨rfl, hbase, rfl, nofun, fun k _ hk => absurd hk (Nat.not_lt_zero k)⟩

theorem call_error {c : Call} {e : ReplayErr} (h : (j.call c).2 = .error e) : (j.call c).1 = j := by
  cases c with
  | close => cases h
  | append | ack | replay =>
    unfold call at h ⊢
    dsimp only at h ⊢
    split at h
    · rfl
    · cases h

/-- the replies to a list of calls, and what they leave -/
def replies {σ : Type} (call : σ → Call → σ × Except ReplayErr Reply) (s : σ) : List Call → List (Except ReplayErr Reply) × σ
  | [] => ([], s)
  | c :: cs => ((call s c).2 :: (replies call (call s c).1 cs).1, (replies call (call s c).1 cs).2)

theorem Refines.calls (h : Refines j p) (calls : List Call) : (replies call j calls).1 = (replies Plain.call p calls).1 ∧
    Refines (replies call j calls).2 (replies Plain.call p calls).2 := by
  induction calls generalizing j p with
  | nil => exact ⟨rfl, h⟩
  | cons c calls ih =>
    obtain ⟨hreply, hnext⟩ := h.step c
    obtain ⟨hreplies, hlast⟩ := ih hnext
    exact ⟨congrArg₂ _ hreply hreplies, hlast⟩

/-- **The journal is a list of bytes.** Every sequence of calls has the replies it has on the list and leaves the journal with
that list and zeros around it, and no call that fails changes it. -/
theorem journal_refines {capacity : ℕ} (hnew : new capacity = .ok j) (calls : List Call) :
    (replies call j calls).1 = (replies Plain.call ⟨capacity, 0, [], false⟩ calls).1 ∧
    Refines (replies call j calls).2 (replies Plain.call ⟨capacity, 0, [], false⟩ calls).2 ∧
    ∀ c e, ((replies call j calls).2.call c).2 = .error e → ((replies call j calls).2.call c).1 = (replies call j calls).2 := by
  have hstart : Refines j ⟨capacity, 0, [], false⟩ := by
    unfold new at hnew
    split_ifs at hnew
    cases hnew
    refine ⟨rfl, rfl, by simp [contents, empty, ringRead], fun _ => List.length_replicate, fun k _ hk => ?_⟩
    simp only [empty, List.length_replicate] at hk ⊢
    exact List.getElem?_replicate_of_lt (cell_lt hk.pos _ _)
  obtain ⟨hreplies, hlast⟩ := hstart.calls calls
  exact ⟨hreplies, hlast, fun c e h => call_error h⟩

/-- the second append passes the end of the buffer -/
def wrapped : List Call := [.append [1, 2, 3], .ack 2, .append [4, 5, 6], .replay 3 2, .append [7], .ack 7, .close, .ack 7]

theorem journal_refines_wrapped : (replies call (empty 4 (by decide)) wrapped).1 =
    [.ok (.range 0 3), .ok .done, .ok (.range 3 6), .ok (.copied [4, 5] 5), .error .budget, .error .offset, .ok .done,
      .error .closed] ∧
    Refines (replies call (empty 4 (by decide)) wrapped).2 (replies Plain.call ⟨4, 0, [], false⟩ wrapped).2 :=
  ⟨by decide, (journal_refines (show new 4 = .ok _ from rfl) wrapped).2.1⟩

end Journal

end NeProto.Continuity
