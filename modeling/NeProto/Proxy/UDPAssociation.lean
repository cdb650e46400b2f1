/-
One direction of a UDP association (`internal/proxy/udp_association.go`).

Datagrams go over a fast path that may lose, delay or reorder them, and over the reliable stream where the fast path is too small or
its send failed; errors and the close record go over the stream. Both paths take their packet IDs from one counter, and the receiver
checks both against one replay window. A packet in `air` may be received at any time or never. `written`, with the number `taken` of
its records that the reliable loop has read, is a history for the statements; no code reads it.

- `step`: the writer's calls, the two receive loops and `ReadDatagram`, in any order.
- `Inv`, `step_inv`: the records on the stream are accepted when they are read, as long as no fast packet overtakes them too far
  or carries the ID of one of them (`Fitting`).
- `honest_peer`: in every fitting run no record is refused, and in a fair one every record that was written is handed over.
- `resent_record_refused`: a packet whose send failed arrives nevertheless, then the stream's copy of it ends the association.
-/
import NeProto.Lib.Machine
import NeProto.Proxy.UDPRecord

namespace NeProto.Proxy.Association

open Function List Nat

open Continuity (maxSequence)

/-! ## The replay window -/

def replaySlots : ℕ := 1024

structure Replay where
  highest : ℕ
  slots : ℕ → ℕ

/-- none refuses the packet -/
def Replay.accept (r : Replay) (packetID : ℕ) : Option Replay :=
  if packetID = 0 then none
  else if packetID ≤ r.highest ∧ replaySlots ≤ r.highest - packetID then none
  else
    let index := packetID % replaySlots
    if r.slots index = packetID then none else some ⟨max r.highest packetID, update r.slots index packetID⟩

section

variable {r r' : Replay} {packetID : ℕ}

/-- what the window lets through, and what it keeps of it -/
theorem Replay.accept_iff : r.accept packetID = some r' ↔
    packetID ≠ 0 ∧ r.highest < packetID + replaySlots ∧ r.slots (packetID % replaySlots) ≠ packetID ∧
      r' = ⟨max r.highest packetID, update r.slots (packetID % replaySlots) packetID⟩ := by
  have hwindow : ¬(packetID ≤ r.highest ∧ replaySlots ≤ r.highest - packetID) ↔ r.highest < packetID + replaySlots := by
    have : 0 < replaySlots := by decide
    omega
  unfold Replay.accept
  simp only
  rw [← hwindow]
  split_ifs with h0 hold hslot
  · simp [h0]
  · simp [hold]
  · simp [hslot]
  · rw [Option.some.injEq, eq_comm]
    simp only [ne_eq, h0, hold, hslot, not_false_eq_true, true_and]

/-- a packet is offered to the window; beside it stands what it has let through -/
def Replay.offer (w : Replay × List ℕ) (packetID : ℕ) : Replay × List ℕ :=
  match w.1.accept packetID with
  | some r => (r, w.2 ++ [packetID])
  | none => w

/-- a new window after these packets -/
def Replay.after (packetIDs : List ℕ) : Replay × List ℕ := Machine.run Replay.offer (⟨0, fun _ => 0⟩, []) packetIDs

/-- the window remembers what it let through, as far as it reaches -/
structure Replay.Tracks (r : Replay) (accepted : List ℕ) : Prop where
  nodup : accepted.Nodup
  le : ∀ id ∈ accepted, id ≤ r.highest
  highest : r.highest = 0 ∨ r.highest ∈ accepted
  slots : ∀ i, r.slots i = 0 ∨ r.slots i ∈ accepted
  recent : ∀ id ∈ accepted, r.highest < id + replaySlots → r.slots (id % replaySlots) = id

theorem Replay.Tracks.accepts {accepted : List ℕ} (h : r.Tracks accepted) (packetID : ℕ) :
    (r.accept packetID).isSome = true ↔
      packetID ≠ 0 ∧ packetID ∉ accepted ∧ ∀ id ∈ accepted, id < packetID + replaySlots := by
  rw [Option.isSome_iff_exists]
  constructor
  · rintro ⟨r', hr⟩
    obtain ⟨h0, hnear, hslot, -⟩ := Replay.accept_iff.1 hr
    exact ⟨h0, fun hm => hslot (h.recent _ hm hnear), fun id hid => (h.le id hid).trans_lt hnear⟩
  · rintro ⟨h0, hnew, hnear⟩
    refine ⟨_, Replay.accept_iff.2 ⟨h0, ?_, fun hs => ?_, rfl⟩⟩
    · rcases h.highest with hx | hx
      · omega
      · exact hnear _ hx
    · rcases h.slots (packetID % replaySlots) with hx | hx
      · exact h0 (hs ▸ hx)
      · exact hnew (hs ▸ hx)

theorem Replay.Tracks.offer {w : Replay × List ℕ} (h : w.1.Tracks w.2) (packetID : ℕ) :
    (Replay.offer w packetID).1.Tracks (Replay.offer w packetID).2 := by
  have haccepts := h.accepts packetID
  unfold Replay.offer
  split
  · rename_i r hr
    obtain ⟨-, hnew, -⟩ := haccepts.1 (hr ▸ rfl)
    obtain ⟨h0, hnear, -, rfl⟩ := Replay.accept_iff.1 hr
    refine ⟨nodup_append.2 ⟨h.nodup, nodup_singleton _, by grind⟩, fun id hid => ?_, ?_, fun i => ?_, fun id hid hr => ?_⟩
    · have := h.le id
      grind
    · have := h.highest
      grind
    · have := h.slots i
      grind
    · have := h.le id
      have := h.recent id
      rw [replaySlots] at *
      grind
  · exact h

/-- **Exact replay protection**: from a new window, a packet is let through when its ID is not zero, none that was let
through had it, and none was 1024 IDs or more ahead of it. -/
theorem replay_exact (packetIDs : List ℕ) :
    (Replay.after packetIDs).2.Nodup ∧ ∀ packetID, ((Replay.after packetIDs).1.accept packetID).isSome = true ↔
      packetID ≠ 0 ∧ packetID ∉ (Replay.after packetIDs).2 ∧ ∀ id ∈ (Replay.after packetIDs).2, id < packetID + replaySlots := by
  have h : (Replay.after packetIDs).1.Tracks _ :=
    Machine.run_inv (I := fun w : Replay × List ℕ => w.1.Tracks w.2) (fun _ id hw => hw.offer id)
      ⟨nodup_nil, by simp, .inl rfl, fun _ => .inl rfl, by simp⟩ packetIDs
  exact ⟨h.nodup, h.accepts⟩

end

/-! ## The association -/

def maxUDPAssociationRecordBytes : ℕ := maxUDPDatagramPayload + 1024

def udpAssociationReceiveQueue : ℕ := 64

inductive Command where
  | udpFixed (fixed : Target)
  | udpAssociate
deriving DecidableEq

structure Config where
  command : Command
  maxPayload : ℕ
  /-- the largest packet of the fast path -/
  fastMax : ℕ

/-- records of this association carry a target -/
def Config.addressed (cfg : Config) : Bool := decide (cfg.command = .udpAssociate)

/-- what `readRecordLocked` returns; `invalid` is `ErrInvalidUDPRecord` -/
inductive Result where
  | record (record : UDPRecord)
  | eof
  | invalid
deriving DecidableEq

/-- a result in the receive queue, and the path it came by -/
structure Entry where
  fast : Bool
  result : Result
deriving DecidableEq

/-- `readReliableLoop`: reading, about to queue a result, waiting for room in the queue, or returned -/
inductive Loop where
  | reading
  | holding (result : Result)
  | blocked (result : Result)
  | ended

structure Link where
  sendID : ℕ
  closeCalled : Bool
  writeClosed : Bool
  air : List Str
  wire : Str
  replay : Replay
  loop : Loop
  records : List Entry
  handed : List Entry
  written : List UDPRecord
  taken : ℕ

def Link.start : Link := ⟨0, false, false, [], [], ⟨0, fun _ => 0⟩, .reading, [], [], [], 0⟩

/-- the fate of a fast packet: sent, not sent, or sent although `Send` returned an error -/
inductive Send where
  | sent
  | failed
  | failedButSent

inductive Op where
  | writeDatagram (payload : Str) (target : Option Target) (send : Send)
  | writeError (code : UInt8) (message : Str)
  /-- `Close` up to its record -/
  | close
  /-- the `CloseWrite` of `Close` -/
  | closeWrite
  /-- `readFastLoop` receives a packet of the air -/
  | fastReceive (i : ℕ)
  /-- `readReliableLoop` reads a record -/
  | reliableRead
  /-- `readReliableLoop` queues what it has read -/
  | push
  | readDatagram

/-- what `ReadDatagram` returns -/
inductive Delivery where
  | datagram (payload : Str) (target : Target)
  | remoteError (code : UInt8) (message : Str)
  | eof
  | invalid

def Config.deliver (cfg : Config) : Result → Delivery
  | .eof => .eof
  | .invalid => .invalid
  | .record record =>
    match record.type with
    | .datagram =>
      if cfg.maxPayload < record.payload.length then .invalid
      else match cfg.command with
        | .udpFixed fixed => if record.hasTarget then .invalid else .datagram record.payload fixed
        | .udpAssociate => if record.hasTarget then .datagram record.payload record.target else .invalid
    | .error => .remoteError record.errorCode record.errorMessage
    | .close => .eof

section Steps

variable {Addr : Type} (P : Platform Addr) (cfg : Config)

/-- a record in its frame on the stream -/
def framed (raw : Str) : Str := appendUvarint raw.length ++ raw

variable (s : Link)

/-- the end of `writeRecord`; a stream closed for writing takes nothing -/
def Link.writeReliable (record : UDPRecord) (raw : Str) : Link :=
  if s.writeClosed then s else { s with wire := s.wire ++ framed raw, written := s.written ++ [record] }

def Link.writeRecord (record : UDPRecord) (preferFast : Bool) (send : Send) : Link :=
  if s.sendID = maxSequence then s
  else
    let s := { s with sendID := s.sendID + 1 }
    let record := { record with packetID := s.sendID }
    match encodeUDPRecord P record with
    | none => s
    | some raw =>
      if preferFast ∧ raw.length ≤ cfg.fastMax then
        match send with
        | .sent => { s with air := s.air ++ [raw] }
        | .failed => s.writeReliable record raw
        | .failedButSent => Link.writeReliable { s with air := s.air ++ [raw] } record raw
      else s.writeReliable record raw

/-- the record of a datagram, none if the call is refused -/
def datagramRecord (payload : Str) (target : Option Target) : Option UDPRecord :=
  if cfg.maxPayload < payload.length then none
  else match cfg.command with
    | .udpFixed fixed =>
      if target.isSome ∧ target ≠ some fixed then none else some ⟨.datagram, 0, false, noTarget, payload, 0, []⟩
    | .udpAssociate => target.map fun target => ⟨.datagram, 0, true, target, payload, 0, []⟩

def Link.writeDatagram (payload : Str) (target : Option Target) (send : Send) : Link :=
  match datagramRecord cfg payload target with
  | none => s
  | some record => s.writeRecord P cfg record true send

def Link.writeError (code : UInt8) (message : Str) : Link :=
  s.writeRecord P cfg ⟨.error, 0, false, noTarget, [], code, message⟩ false .failed

def Link.close : Link :=
  if s.closeCalled then s
  else Link.writeRecord P cfg { s with closeCalled := true } ⟨.close, 0, false, noTarget, [], 0, []⟩ false .failed

/-- the length in front of a record: none while it is not complete, `some none` if it is malformed -/
def readCanonicalAssociationUvarint (wire : Str) : Option (Option (ℕ × Str)) :=
  if wire.length < 10 ∧ wire.all (128 ≤ ·) then none else some (readCanonicalUvarint wire)

/-- `readRecordLocked`: none while the stream has no complete record -/
def readRecordLocked (replay : Replay) (writeClosed : Bool) (wire : Str) : Option (Result × Replay × Str) :=
  match readCanonicalAssociationUvarint wire with
  | none => if writeClosed then some (.eof, replay, wire) else none
  | some none => some (.invalid, replay, wire)
  | some (some (length, rest)) =>
    if length = 0 ∨ maxUDPAssociationRecordBytes < length then some (.invalid, replay, rest)
    else if rest.length < length then if writeClosed then some (.invalid, replay, rest) else none
    else match decodeUDPRecord P (rest.take length) with
      | none => some (.invalid, replay, rest.drop length)
      | some record =>
        match replay.accept record.packetID with
        | none => some (.invalid, replay, rest.drop length)
        | some replay => some (.record record, replay, rest.drop length)

/-- one turn of `readFastLoop`; a full queue drops the datagram -/
def Link.fastReceive (i : ℕ) : Link :=
  match s.air[i]? with
  | none => s
  | some raw =>
    let s := { s with air := s.air.eraseIdx i }
    match decodeUDPRecord P raw with
    | none => s
    | some record =>
      if record.type ≠ .datagram ∨ cfg.maxPayload < record.payload.length then s
      else match s.replay.accept record.packetID with
        | none => s
        | some replay =>
          if s.records.length < udpAssociationReceiveQueue then
            { s with replay := replay, records := s.records ++ [⟨true, .record record⟩] }
          else { s with replay := replay }

def Link.reliableRead : Link :=
  match s.loop with
  | .reading =>
    match readRecordLocked P s.replay s.writeClosed s.wire with
    | none => s
    | some (result, replay, wire) =>
      { s with
        replay := replay
        wire := wire
        loop := .holding result
        taken := match result with
          | .record _ => s.taken + 1
          | _ => s.taken }
  | _ => s

/-- the loop behind a result: it returns behind an error and behind a close record -/
def Loop.after : Result → Loop
  | .record record => if record.type = .close then .ended else .reading
  | _ => .ended

def Link.push : Link :=
  match s.loop with
  | .holding result =>
    if s.records.length < udpAssociationReceiveQueue then
      { s with records := s.records ++ [⟨false, result⟩], loop := Loop.after result }
    else { s with loop := .blocked result }
  | _ => s

/-- `ReadDatagram` takes the head of the queue; a sender that waits for room gets it at once -/
def Link.readDatagram : Link :=
  match s.records with
  | [] => s
  | entry :: rest =>
    let s := { s with records := rest, handed := s.handed ++ [entry] }
    match s.loop with
    | .blocked result => { s with records := s.records ++ [⟨false, result⟩], loop := Loop.after result }
    | _ => s

def step : Op → Link
  | .writeDatagram payload target send => s.writeDatagram P cfg payload target send
  | .writeError code message => s.writeError P cfg code message
  | .close => s.close P cfg
  | .closeWrite => if s.closeCalled then { s with writeClosed := true } else s
  | .fastReceive i => s.fastReceive P cfg i
  | .reliableRead => s.reliableRead P
  | .push => s.push
  | .readDatagram => s.readDatagram

end Steps

/-! ## Fitting runs -/

/-- the records that were written and not read yet -/
def Link.unread (s : Link) : List UDPRecord := s.written.drop s.taken

/-- the result the reliable loop has in hand -/
def Loop.held : Loop → List Entry
  | .holding result | .blocked result => [⟨false, result⟩]
  | _ => []

/-- everything the receiver has made of what arrived -/
def Link.entries (s : Link) : List Entry := s.handed ++ s.records ++ s.loop.held

variable {Addr : Type}

/-- nothing is written between the close record and `CloseWrite`; a target reads back; a fast packet arrives before the stream is 1024
packets behind it, and not in place of a record of the stream -/
def Fitting (P : Platform Addr) (s : Link) : Op → Prop
  | .writeDatagram _ target _ =>
    (s.closeCalled = true → s.writeClosed = true) ∧ ∀ t, target = some t → TargetReadsBack P t
  | .writeError _ _ => s.closeCalled = true → s.writeClosed = true
  | .fastReceive i => ∀ raw record, s.air[i]? = some raw → decodeUDPRecord P raw = some record →
      ∀ r ∈ s.unread, record.packetID ≠ r.packetID ∧ record.packetID < r.packetID + replaySlots
  | _ => True

/-! ## The invariant -/

/-- a record as the writer makes it -/
structure Made (P : Platform Addr) (cfg : Config) (sendID : ℕ) (r : UDPRecord) : Prop where
  encodes : ∃ raw, encodeUDPRecord P r = some raw
  back : r.hasTarget = true → TargetReadsBack P r.target
  fits : r.type = .datagram → r.payload.length ≤ cfg.maxPayload ∧ r.hasTarget = cfg.addressed
  pos : 0 < r.packetID
  id : r.packetID ≤ sendID

def frame (P : Platform Addr) (r : UDPRecord) : Str :=
  match encodeUDPRecord P r with
  | some raw => framed raw
  | none => []

/-- the record of an entry that came over the stream -/
def reliableRecord (e : Entry) : Option UDPRecord :=
  match e with
  | ⟨false, .record r⟩ => some r
  | _ => none

def reliable (entries : List Entry) : List UDPRecord := entries.filterMap reliableRecord

variable {k m n id : ℕ} {r : UDPRecord} {replay : Replay} {raw : Str} {s' : Link} {op : Op}

theorem reliable_append (a b : List Entry) : reliable (a ++ b) = reliable a ++ reliable b := filterMap_append

theorem reliable_fast (result : Result) : reliable [⟨true, result⟩] = [] := rfl

/-- the loop will not read again -/
def Loop.Final : Loop → Prop
  | .reading => False
  | .holding result | .blocked result => Loop.after result = .ended
  | .ended => True

structure Inv (P : Platform Addr) (cfg : Config) (s : Link) : Prop where
  made : ∀ r ∈ s.written, Made P cfg s.sendID r
  increasing : s.written.Pairwise (·.packetID < ·.packetID)
  taken_le : s.taken ≤ s.written.length
  wire : s.wire = (s.unread.map (frame P)).flatten
  air : ∀ raw ∈ s.air, ∃ r, Made P cfg s.sendID r ∧ encodeUDPRecord P r = some raw
  highest : s.replay.highest ≤ s.sendID
  slots : ∀ i, s.replay.slots i ≤ s.sendID
  window : ∀ r ∈ s.unread, s.replay.highest < r.packetID + replaySlots ∧ ∀ i, s.replay.slots i ≠ r.packetID
  delivered : ∀ e ∈ s.entries, cfg.deliver e.result ≠ .invalid
  order : reliable s.entries = (s.written.take s.taken).map (normalRecord P)
  closing : s.writeClosed = true → s.closeCalled = true
  lastClose : ∀ i r, s.written[i]? = some r → r.type = .close → s.closeCalled = true ∧ i + 1 = s.written.length
  final : s.loop.Final → s.closeCalled = true ∧ s.taken = s.written.length
  room : s.records.length ≤ udpAssociationReceiveQueue
  full : ∀ result, s.loop = .blocked result → s.records.length = udpAssociationReceiveQueue

open Link Loop

variable {P : Platform Addr} {cfg : Config} {s : Link}

theorem start_inv : Inv P cfg start where
  made := fun r h => absurd h not_mem_nil
  increasing := List.Pairwise.nil
  taken_le := le_rfl
  wire := rfl
  air := fun raw h => absurd h not_mem_nil
  highest := le_rfl
  slots := fun _ => le_rfl
  window := fun r h => absurd h not_mem_nil
  delivered := fun e h => absurd h not_mem_nil
  order := rfl
  closing := nofun
  lastClose := fun i r h => by simp [start] at h
  final := False.elim
  room := zero_le _
  full := nofun

/-! ### Records -/

/-- normalising touches the target only -/
theorem normalRecord_fields (P : Platform Addr) (r : UDPRecord) : (normalRecord P r).type = r.type ∧
    (normalRecord P r).packetID = r.packetID ∧ (normalRecord P r).payload = r.payload ∧
      (normalRecord P r).hasTarget = r.hasTarget := by
  unfold normalRecord
  split
  · split <;> exact ⟨rfl, rfl, rfl, rfl⟩
  · exact ⟨rfl, rfl, rfl, rfl⟩

theorem Made.mono (h : Made P cfg n r) (hle : n ≤ m) : Made P cfg m r := { h with id := h.id.trans hle }

/-- `ReadDatagram` takes a record of the peer -/
theorem Made.deliver (h : Made P cfg n r) : cfg.deliver (.record (normalRecord P r)) ≠ .invalid := by
  obtain ⟨htype, -, hpayload, htarget⟩ := normalRecord_fields P r
  unfold Config.deliver
  simp only [htype, hpayload, htarget]
  cases hr : r.type with
  | error | close => exact nofun
  | datagram =>
    obtain ⟨hfits, haddressed⟩ := h.fits hr
    rw [if_neg (not_lt.mpr hfits), haddressed, Config.addressed]
    cases cfg.command <;> simp

theorem readCanonicalAssociationUvarint_append {v : ℕ} (hv : v < 2 ^ 63) (rest : Str) :
    readCanonicalAssociationUvarint (appendUvarint v ++ rest) = some (some (v, rest)) := by
  have hread := readCanonicalUvarint_append hv rest
  unfold readCanonicalAssociationUvarint
  rw [if_neg, hread]
  rintro ⟨-, hall⟩
  unfold readCanonicalUvarint at hread
  rw [uvarintRead_all hall] at hread
  cases hread

/-- **Reading a frame of the peer**: only the replay window can refuse it. -/
theorem readRecordLocked_frame (hP : P.Lawful) (h : Made P cfg n r) (replay : Replay) (writeClosed : Bool)
    (rest : Str) : readRecordLocked P replay writeClosed (frame P r ++ rest) = match replay.accept r.packetID with
      | none => some (.invalid, replay, rest)
      | some replay => some (.record (normalRecord P r), replay, rest) := by
  obtain ⟨raw, hraw⟩ := h.encodes
  obtain ⟨hlow, hhigh⟩ := encode_length hraw
  have hmax : maxUDPAssociationRecordBytes = maxUDPDatagramPayload + 1024 := rfl
  have hbound : maxUDPDatagramPayload = 65507 := rfl
  have hframe : frame P r = framed raw := by rw [frame, hraw]
  rw [hframe, framed, append_assoc, readRecordLocked, readCanonicalAssociationUvarint_append (by omega)]
  simp only
  rw [if_neg (by omega), if_neg (by rw [length_append]; omega), take_left' rfl, drop_left' rfl,
    decode_encode hraw hP h.back]
  simp only [(normalRecord_fields P r).2.1]

/-- a slot holds an old ID or the new one -/
theorem update_slot (slots : ℕ → ℕ) (j id i : ℕ) : update slots j id i = id ∨ update slots j id i = slots i := by
  by_cases hij : i = j
  · exact .inl (by rw [hij, update_self])
  · exact .inr (update_of_ne hij id slots)

/-! ### The writer -/

section

variable (h : Inv P cfg s)

include h

/-- a counter that moves on keeps the invariant -/
theorem Inv.count : Inv P cfg { s with sendID := s.sendID + 1 } :=
  { h with
    made := fun r hr => (h.made r hr).mono (le_succ _)
    air := fun raw hraw => by
      obtain ⟨r, hr, henc⟩ := h.air raw hraw
      exact ⟨r, hr.mono (le_succ _), henc⟩
    highest := h.highest.trans (le_succ _)
    slots := fun i => (h.slots i).trans (le_succ _) }

theorem Inv.send (hr : Made P cfg s.sendID r) (hraw : encodeUDPRecord P r = some raw) :
    Inv P cfg { s with air := s.air ++ [raw] } :=
  { h with
    air := fun raw' hmem => by
      rcases mem_append.mp hmem with hold | hnew
      · exact h.air raw' hold
      · rw [mem_singleton.mp hnew]
        exact ⟨r, hr, hraw⟩ }

omit h in
theorem unread_append {written : List UDPRecord} {taken : ℕ} (h : taken ≤ written.length) (r : UDPRecord) :
    (written ++ [r]).drop taken = written.drop taken ++ [r] := drop_append_of_le_length h

/-- a record behind all others, while the loop goes on reading -/
theorem Inv.append (hr : Made P cfg s.sendID r) (hraw : encodeUDPRecord P r = some raw)
    (hhighest : s.replay.highest < r.packetID) (hslots : ∀ i, s.replay.slots i < r.packetID)
    (hnew : ∀ w ∈ s.written, w.packetID < r.packetID) (hopen : ∀ w ∈ s.written, w.type ≠ .close)
    (hclose : r.type = .close → s.closeCalled = true) (hloop : ¬s.loop.Final) :
    Inv P cfg { s with wire := s.wire ++ framed raw, written := s.written ++ [r] } :=
  { h with
    made := fun w hw => by
      rcases mem_append.mp hw with hold | hnew
      · exact h.made w hold
      · rw [mem_singleton.mp hnew]
        exact hr
    increasing := pairwise_append.mpr ⟨h.increasing, pairwise_singleton _ _, fun w hw w' hw' => by
      rw [mem_singleton.mp hw']
      exact hnew w hw⟩
    taken_le := by
      rw [length_append]
      exact h.taken_le.trans (le_add_right _ _)
    wire := by
      have hframe : frame P r = framed raw := by rw [frame, hraw]
      change s.wire ++ framed raw = (((s.written ++ [r]).drop s.taken).map (frame P)).flatten
      rw [unread_append h.taken_le, map_append, h.wire, ← hframe]
      simp [unread]
    window := fun w hw => by
      have hw' : w ∈ s.unread ++ [r] := by
        have heq := unread_append h.taken_le r
        rw [unread] at ⊢
        rwa [← heq]
      rcases mem_append.mp hw' with hold | hlast
      · exact h.window w hold
      · rw [mem_singleton.mp hlast]
        exact ⟨by change s.replay.highest < _; omega, fun i => (hslots i).ne⟩
    order := by
      rw [take_append_of_le_length h.taken_le]
      exact h.order
    lastClose := fun i w hw htype => by
      rw [length_append, length_singleton]
      by_cases hi : i < s.written.length
      · rw [getElem?_append_left hi] at hw
        exact absurd htype (hopen w (mem_of_getElem? hw))
      rw [List.getElem?_append_right (not_lt.mp hi)] at hw
      obtain ⟨hzero, heq⟩ := List.getElem?_eq_some_iff.mp hw
      have hlen : i - s.written.length = 0 := by simpa using hzero
      have hw : r = w := by
        rw [← heq]
        simp [hlen]
      exact ⟨hclose (hw ▸ htype), by omega⟩
    final := fun hf => absurd hf hloop }

/-- the stream is not closed and the loop reads on, as long as `Close` was not called -/
theorem Inv.notFinal (hclose : s.closeCalled = false) : ¬s.loop.Final ∧ ∀ w ∈ s.written, w.type ≠ .close := by
  refine ⟨fun hf => ?_, fun w hw htype => ?_⟩
  · rw [(h.final hf).1] at hclose
    cases hclose
  · obtain ⟨i, hi⟩ := getElem?_of_mem hw
    rw [(h.lastClose i w hi htype).1] at hclose
    cases hclose

/-- what the caller of `writeRecord` says about the record -/
structure Writable (P : Platform Addr) (cfg : Config) (s : Link) (record : UDPRecord) : Prop where
  back : record.hasTarget = true → TargetReadsBack P record.target
  fits : record.type = .datagram → record.payload.length ≤ cfg.maxPayload ∧ record.hasTarget = cfg.addressed
  close : record.type = .close → s.closeCalled = true
  /-- a stream that is still open has no close record, and the loop reads it -/
  opened : s.writeClosed = false → ¬s.loop.Final ∧ ∀ w ∈ s.written, w.type ≠ .close

theorem writeReliable_inv (hr : Made P cfg s.sendID r)
    (hraw : encodeUDPRecord P r = some raw) (hhighest : s.replay.highest < r.packetID) (hslots : ∀ i, s.replay.slots i < r.packetID)
    (hnew : ∀ w ∈ s.written, w.packetID < r.packetID) (hclose : r.type = .close → s.closeCalled = true)
    (hopen : s.writeClosed = false → ¬s.loop.Final ∧ ∀ w ∈ s.written, w.type ≠ .close) : Inv P cfg (s.writeReliable r raw) := by
  unfold writeReliable
  split
  · exact h
  rename_i hc
  obtain ⟨hloop, hnone⟩ := hopen (by simpa using hc)
  exact h.append hr hraw hhighest hslots hnew hnone hclose hloop

theorem writeRecord_inv {record : UDPRecord} (hw : Writable P cfg s record) (preferFast : Bool) (send : Send) :
    Inv P cfg (s.writeRecord P cfg record preferFast send) := by
  unfold writeRecord
  split
  · exact h
  simp only
  split
  · exact h.count
  rename_i raw hraw
  have hmade : Made P cfg (s.sendID + 1) { record with packetID := s.sendID + 1 } :=
    ⟨⟨raw, hraw⟩, hw.back, hw.fits, succ_pos _, le_rfl⟩
  have hhighest : s.replay.highest < s.sendID + 1 := lt_succ_of_le h.highest
  have hslots : ∀ i, s.replay.slots i < s.sendID + 1 := fun i => lt_succ_of_le (h.slots i)
  have hnew : ∀ w ∈ s.written, w.packetID < s.sendID + 1 := fun w hmem => lt_succ_of_le (h.made w hmem).id
  split
  · cases send with
    | sent => exact h.count.send hmade hraw
    | failed => exact writeReliable_inv h.count hmade hraw hhighest hslots hnew hw.close hw.opened
    | failedButSent => exact writeReliable_inv (h.count.send hmade hraw) hmade hraw hhighest hslots hnew hw.close hw.opened
  · exact writeReliable_inv h.count hmade hraw hhighest hslots hnew hw.close hw.opened

section

variable (hguard : s.closeCalled = true → s.writeClosed = true)
include hguard

/-- a write while `Close` has not been called, or after `CloseWrite` -/
theorem Inv.opened (hc : s.writeClosed = false) : ¬s.loop.Final ∧ ∀ w ∈ s.written, w.type ≠ .close := by
  refine h.notFinal ?_
  by_contra hcalled
  rw [hguard (by simpa using hcalled)] at hc
  cases hc

theorem writeDatagram_inv {payload : Str} {target : Option Target} (hback : ∀ t, target = some t → TargetReadsBack P t) (send : Send) :
    Inv P cfg (s.writeDatagram P cfg payload target send) := by
  unfold writeDatagram
  split
  · exact h
  rename_i record hrecord
  refine writeRecord_inv h ?_ true send
  unfold datagramRecord at hrecord
  split at hrecord
  · cases hrecord
  rename_i hlen
  split at hrecord
  · next fixed hcommand =>
    split at hrecord
    · cases hrecord
    cases hrecord
    refine ⟨nofun, fun _ => ⟨not_lt.mp hlen, ?_⟩, nofun, h.opened hguard⟩
    simp [Config.addressed, hcommand]
  · next hcommand =>
    obtain ⟨t, ht, rfl⟩ := Option.map_eq_some_iff.mp hrecord
    refine ⟨fun _ => hback t ht, fun _ => ⟨not_lt.mp hlen, ?_⟩, nofun, h.opened hguard⟩
    simp [Config.addressed, hcommand]

theorem writeError_inv (code : UInt8) (message : Str) : Inv P cfg (s.writeError P cfg code message) := by
  refine writeRecord_inv h ?_ false .failed
  exact ⟨nofun, nofun, nofun, h.opened hguard⟩

end

theorem close_inv : Inv P cfg (s.close P cfg) := by
  unfold close
  split
  · exact h
  rename_i hc
  have hopen := h.notFinal (by simpa using hc)
  have hcalled : Inv P cfg { s with closeCalled := true } :=
    { h with
      closing := fun _ => rfl
      lastClose := fun i r hi htype => ⟨rfl, (h.lastClose i r hi htype).2⟩
      final := fun hf => ⟨rfl, (h.final hf).2⟩ }
  refine writeRecord_inv hcalled ?_ false .failed
  exact ⟨nofun, nofun, fun _ => rfl, fun _ => hopen⟩

theorem closeWrite_inv (hcalled : s.closeCalled = true) : Inv P cfg { s with writeClosed := true } :=
  { h with closing := fun _ => hcalled }

/-! ### The receiver -/

/-- accepting a packet of the peer that fits keeps the window open for the records of the stream -/
theorem Inv.accept (hid : id ≤ s.sendID) (haccept : s.replay.accept id = some replay)
    (hfit : ∀ r ∈ s.unread, id ≠ r.packetID ∧ id < r.packetID + replaySlots) : Inv P cfg { s with replay := replay } := by
  obtain ⟨-, -, -, rfl⟩ := Replay.accept_iff.1 haccept
  exact { h with
    highest := max_le h.highest hid
    slots := fun i => by
      rcases update_slot s.replay.slots (id % replaySlots) id i with heq | heq
      · exact heq.trans_le hid
      · exact heq.trans_le (h.slots i)
    window := fun r hr => by
      obtain ⟨hwindow, hslots⟩ := h.window r hr
      obtain ⟨hne, hlt⟩ := hfit r hr
      refine ⟨max_lt hwindow hlt, fun i => ?_⟩
      rcases update_slot s.replay.slots (id % replaySlots) id i with heq | heq
      · exact heq.trans_ne hne
      · exact heq.trans_ne (hslots i) }

/-- a datagram in the queue that did not come over the stream -/
theorem Inv.queueFast (hdeliver : cfg.deliver (.record r) ≠ .invalid)
    (hroom : s.records.length < udpAssociationReceiveQueue) : Inv P cfg { s with records := s.records ++ [⟨true, .record r⟩] } :=
  { h with
    delivered := fun e he => by
      simp only [entries, mem_append, mem_singleton] at he
      rcases he with (he | he | rfl) | he
      · exact h.delivered e (by simp [entries, he])
      · exact h.delivered e (by simp [entries, he])
      · exact hdeliver
      · exact h.delivered e (by simp [entries, he])
    order := by
      have horder := h.order
      simp only [entries, reliable_append, reliable_fast, append_nil] at horder ⊢
      exact horder
    room := by
      rw [length_append]
      exact hroom
    full := fun result hloop => by
      have hfull := h.full result hloop
      omega }

theorem fastReceive_inv (hP : P.Lawful) {i : ℕ} (hfit : Fitting P s (.fastReceive i)) :
    Inv P cfg (s.fastReceive P cfg i) := by
  unfold fastReceive
  split
  · exact h
  rename_i raw hraw
  obtain ⟨r, hr, henc⟩ := h.air raw (mem_of_getElem? hraw)
  have hdecode := decode_encode henc hP hr.back
  have herase : Inv P cfg { s with air := s.air.eraseIdx i } :=
    { h with air := fun raw' hmem => h.air raw' (mem_of_mem_eraseIdx hmem) }
  have hid : (normalRecord P r).packetID ≤ s.sendID := by
    rw [(normalRecord_fields P r).2.1]
    exact hr.id
  simp only [hdecode]
  split
  · exact herase
  split
  · exact herase
  rename_i replay haccept
  have haccepted := herase.accept hid haccept (hfit raw _ hraw hdecode)
  split
  · next hroom => exact haccepted.queueFast hr.deliver hroom
  · exact haccepted

/-- the stream is empty when everything written was read -/
theorem Inv.wire_nil (hnil : s.unread = []) : s.wire = [] := by
  rw [h.wire, hnil]
  rfl

end

/-- the next record of the stream -/
theorem unread_cons {rest : List UDPRecord} (h : s.unread = r :: rest) :
    s.written[s.taken]? = some r ∧ s.written.drop (s.taken + 1) = rest ∧
      s.written.take (s.taken + 1) = s.written.take s.taken ++ [r] := by
  have hget : s.written[s.taken]? = some r := by
    have hhead := congrArg head? h
    rwa [unread, head?_drop] at hhead
  refine ⟨hget, ?_, ?_⟩
  · have htail := congrArg tail h
    rwa [unread, tail_drop] at htail
  · rw [take_add_one, hget]
    rfl

/-- **The loop reads the next record of the stream**: it is accepted. -/
theorem Inv.readNext (hP : P.Lawful) (h : Inv P cfg s) {rest : List UDPRecord} (hunread : s.unread = r :: rest) :
    ∃ replay, s.replay.accept r.packetID = some replay ∧ readRecordLocked P s.replay s.writeClosed s.wire =
      some (.record (normalRecord P r), replay, (rest.map (frame P)).flatten) := by
  have hmem : r ∈ s.unread := by
    rw [hunread]
    exact mem_cons_self
  have hmade := h.made r (mem_of_mem_drop hmem)
  obtain ⟨hwindow, hslots⟩ := h.window r hmem
  have haccept := Replay.accept_iff.2 ⟨hmade.pos.ne', hwindow, hslots _, rfl⟩
  refine ⟨_, haccept, ?_⟩
  rw [h.wire, hunread, map_cons, flatten_cons, readRecordLocked_frame hP hmade, haccept]

/-- nothing left to read: end of file behind `CloseWrite`, nothing before -/
theorem readRecordLocked_nil (replay : Replay) (writeClosed : Bool) :
    readRecordLocked P replay writeClosed [] = if writeClosed then some (.eof, replay, []) else none := rfl

/-- the loop has read a result -/
theorem Inv.hold (h : Inv P cfg s) (hloop : s.loop = .reading) {result : Result} {wire : Str} {taken : ℕ}
    (hdeliver : cfg.deliver result ≠ .invalid) (hle : s.taken ≤ taken) (htaken : taken ≤ s.written.length)
    (hwire : wire = ((s.written.drop taken).map (frame P)).flatten)
    (htake : (s.written.take taken).map (normalRecord P) =
      (s.written.take s.taken).map (normalRecord P) ++ reliable [⟨false, result⟩])
    (hfinal : after result = .ended → s.closeCalled = true ∧ taken = s.written.length) :
    Inv P cfg { s with wire := wire, loop := .holding result, taken := taken } := by
  have hentries : s.entries = s.handed ++ s.records := by simp [entries, hloop, held]
  exact { h with
    taken_le := htaken
    wire := hwire
    window := fun w hw => h.window w ((drop_sublist_drop_left s.written hle).subset hw)
    delivered := fun e he => by
      rcases mem_append.mp he with he | he
      · exact h.delivered e (hentries ▸ he)
      · rw [mem_singleton.mp he]
        exact hdeliver
    order := by
      change reliable (s.handed ++ s.records ++ [⟨false, result⟩]) = _
      rw [htake, ← h.order, hentries, reliable_append]
    final := hfinal
    full := nofun }

theorem reliableRead_inv (hP : P.Lawful) (h : Inv P cfg s) : Inv P cfg (s.reliableRead P) := by
  unfold reliableRead
  cases hloop : s.loop with
  | holding result | blocked result | ended => exact h
  | reading =>
    cases hunread : s.unread with
    | nil =>
      have htaken : s.taken = s.written.length := le_antisymm h.taken_le (drop_eq_nil_iff.mp hunread)
      have hwire := h.wire_nil hunread
      rw [hwire, readRecordLocked_nil]
      by_cases hc : s.writeClosed = true
      · rw [if_pos hc]
        refine h.hold hloop nofun le_rfl h.taken_le ?_ (append_nil _).symm fun _ => ⟨h.closing hc, htaken⟩
        rw [← hwire]
        exact h.wire
      · rw [if_neg hc]
        exact h
    | cons r rest =>
      have hmem : r ∈ s.unread := by
        rw [hunread]
        exact mem_cons_self
      have hmade := h.made r (mem_of_mem_drop hmem)
      obtain ⟨hget, hdrop, htake⟩ := unread_cons hunread
      obtain ⟨hlt, -⟩ := List.getElem?_eq_some_iff.mp hget
      have hlater : ∀ w ∈ rest, r.packetID < w.packetID := by
        have hincreasing : s.unread.Pairwise (·.packetID < ·.packetID) := h.increasing.sublist (drop_sublist _ _)
        rw [hunread, pairwise_cons] at hincreasing
        exact hincreasing.1
      have hfinal : after (.record (normalRecord P r)) = .ended → r.type = .close := by
        intro hf
        rw [Loop.after, (normalRecord_fields P r).1] at hf
        by_contra hne
        rw [if_neg hne] at hf
        cases hf
      obtain ⟨replay, haccept, hread⟩ := h.readNext hP hunread
      rw [hread]
      have hhold := h.hold hloop hmade.deliver (le_succ _) hlt (by rw [hdrop]) (by rw [htake, map_append]; rfl)
        fun hf => h.lastClose s.taken r hget (hfinal hf)
      refine hhold.accept hmade.id haccept fun w hw => ?_
      have hgt := hlater w (hdrop ▸ hw)
      exact ⟨hgt.ne, by omega⟩

theorem after_cases (result : Result) : after result = .reading ∨ after result = .ended := by
  unfold Loop.after
  split
  · split
    · exact .inr rfl
    · exact .inl rfl
  · exact .inr rfl

/-- the loop behind a result has nothing in hand, and is final as it was -/
theorem after_held (result : Result) : (after result).held = [] := by
  rcases after_cases result with h | h <;> rw [h] <;> rfl

theorem after_final {result : Result} (h : (after result).Final) : after result = .ended := by
  refine (after_cases result).resolve_left fun hr => ?_
  rw [hr] at h
  exact h

theorem after_ne_blocked (result result' : Result) : after result ≠ .blocked result' := by
  rcases after_cases result with h | h <;> rw [h] <;> exact nofun

/-- moving results on through the queue keeps the invariant -/
theorem Inv.move (h : Inv P cfg s) {loop : Loop} {records handed : List Entry}
    (hentries : handed ++ records ++ loop.held = s.entries) (hfinal : loop.Final → s.loop.Final)
    (hroom : records.length ≤ udpAssociationReceiveQueue)
    (hfull : ∀ result, loop = .blocked result → records.length = udpAssociationReceiveQueue) :
    Inv P cfg { s with loop := loop, records := records, handed := handed } :=
  { h with
    delivered := fun e he => h.delivered e (hentries ▸ he)
    order := (congrArg reliable hentries).trans h.order
    final := fun hf => h.final (hfinal hf)
    room := hroom
    full := hfull }

theorem push_inv (h : Inv P cfg s) : Inv P cfg s.push := by
  unfold push
  cases hloop : s.loop with
  | reading | blocked result | ended => exact h
  | holding result =>
    simp only
    split
    · next hroom =>
      refine h.move ?_ (fun hf => ?_) ?_ fun result' heq => absurd heq (after_ne_blocked _ _)
      · rw [after_held]
        simp [entries, hloop, held]
      · rw [hloop]
        exact after_final hf
      · rw [length_append]
        exact hroom
    · next hroom =>
      refine h.move ?_ (fun hf => ?_) h.room fun result' _ => le_antisymm h.room (not_lt.mp hroom)
      · simp [entries, hloop, held]
      · rw [hloop]
        exact hf

theorem readDatagram_inv (h : Inv P cfg s) : Inv P cfg s.readDatagram := by
  unfold readDatagram
  cases hrecords : s.records with
  | nil => exact h
  | cons entry rest =>
    have hroom := h.room
    rw [hrecords, length_cons] at hroom
    cases hloop : s.loop with
    | blocked result =>
      refine h.move ?_ (fun hf => ?_) ?_ fun result' heq => absurd heq (after_ne_blocked _ _)
      · rw [after_held]
        simp [entries, hloop, hrecords, held]
      · rw [hloop]
        exact after_final hf
      · rw [length_append]
        exact hroom
    | reading =>
      refine h.move ?_ (fun hf => ?_) (by omega) nofun
      · simp [entries, hloop, hrecords, held]
      · exact hf.elim
    | holding result | ended =>
      refine h.move ?_ (fun hf => ?_) (by omega) nofun
      · simp [entries, hloop, hrecords, held]
      · rw [hloop]
        exact hf

/-- **A fitting step keeps the invariant.** -/
theorem step_inv (hP : P.Lawful) (s : Link) (op : Op) (h : Inv P cfg s) (hfit : Fitting P s op) : Inv P cfg (step P cfg s op) := by
  cases op with
  | writeDatagram payload target send => exact writeDatagram_inv h hfit.1 hfit.2 send
  | writeError code message => exact writeError_inv h hfit code message
  | close => exact close_inv h
  | closeWrite =>
    rw [step]
    split
    · next hcalled => exact closeWrite_inv h hcalled
    · exact h
  | fastReceive i => exact fastReceive_inv h hP hfit
  | reliableRead => exact reliableRead_inv hP h
  | push => exact push_inv h
  | readDatagram => exact readDatagram_inv h

/-! ## Handing over -/

/-- how many calls of `ReadDatagram` until the `j`-th record of the stream in the queue is handed over -/
def waits : List Entry → ℕ → ℕ
  | [], _ => 0
  | e :: es, j => if j < (reliable [e]).length then 1 else waits es (j - (reliable [e]).length) + 1

theorem waits_pos {es : List Entry} {j : ℕ} (h : j < (reliable es).length) : 0 < waits es j := by
  cases es with
  | nil => exact absurd h (not_lt_zero j)
  | cons e es =>
    rw [waits]
    split <;> omega

theorem waits_le (es : List Entry) (j : ℕ) : waits es j ≤ es.length := by
  induction es generalizing j with
  | nil => exact le_rfl
  | cons e es ih =>
    have hle := ih (j - (reliable [e]).length)
    rw [waits, length_cons]
    split <;> omega

theorem reliable_cons (e : Entry) (es : List Entry) : reliable (e :: es) = reliable [e] ++ reliable es :=
  reliable_append [e] es

/-- entries behind do not matter -/
theorem waits_append {es : List Entry} {j : ℕ} (h : j < (reliable es).length) (more : List Entry) :
    waits (es ++ more) j = waits es j := by
  induction es generalizing j with
  | nil => exact absurd h (not_lt_zero j)
  | cons e es ih =>
    rw [reliable_cons, length_append] at h
    rw [cons_append, waits, waits]
    split
    · rfl
    · rw [ih (by omega)]

/-- what the loop has to do before it reads again -/
def Loop.toRead : Loop → ℕ
  | .holding _ => 3
  | .blocked _ => 2
  | _ => 0

/-- what the loop has to do before the record in its hand is in the queue -/
def Loop.toQueue : Loop → ℕ
  | .blocked _ => 65
  | _ => 66

/-- what has to happen before the `k`-th record of the stream is handed over: it is handed over already, in the queue, in the loop's
hand, or on the stream -/
def Link.rank (s : Link) (k : ℕ) : ℕ :=
  if k < (reliable s.handed).length then 0
  else if k < (reliable s.handed).length + (reliable s.records).length then waits s.records (k - (reliable s.handed).length)
  else if k < s.taken then s.loop.toQueue
  else 67 + 4 * (k - s.taken) + s.loop.toRead

/-- the operation that lowers a rank -/
def due (rank : ℕ) : Op :=
  if rank ≤ 65 then .readDatagram
  else if rank = 66 then .push
  else if (rank - 67) % 4 = 3 then .push
  else if (rank - 67) % 4 = 2 then .readDatagram
  else .reliableRead

theorem Inv.count_eq (h : Inv P cfg s) :
    (reliable s.handed).length + (reliable s.records).length + (reliable s.loop.held).length = s.taken := by
  have horder := congrArg length h.order
  rw [entries, reliable_append, reliable_append, length_map, length_take] at horder
  have hle := h.taken_le
  simp only [length_append] at horder
  omega

/-- a rank in the queue -/
theorem Inv.rank_queue (h : Inv P cfg s) (hk : k < (reliable s.handed).length + (reliable s.records).length) :
    s.rank k ≤ 64 := by
  have hroom := h.room
  have hwaits := waits_le s.records (k - (reliable s.handed).length)
  have hqueue : udpAssociationReceiveQueue = 64 := rfl
  unfold rank
  split_ifs <;> omega

/-- a rank in the loop's hand -/
theorem rank_hand (hk : (reliable s.handed).length + (reliable s.records).length ≤ k) (ht : k < s.taken) :
    s.rank k = s.loop.toQueue := by
  unfold rank
  rw [if_neg (by omega), if_neg (by omega), if_pos ht]

/-- a rank on the stream -/
theorem Inv.rank_stream (h : Inv P cfg s) (hk : s.taken ≤ k) : s.rank k = 67 + 4 * (k - s.taken) + s.loop.toRead := by
  have hcount := h.count_eq
  unfold rank
  rw [if_neg (by omega), if_neg (by omega), if_neg (by omega)]

/-- where the `k`-th record of the stream is, and what is due there -/
inductive Stage (s : Link) (k : ℕ) : Prop
  | queued (hk : k < (reliable s.handed).length + (reliable s.records).length) (hdue : due (s.rank k) = .readDatagram)
  | holding (result : Result) (hloop : s.loop = .holding result)
      (hk : (reliable s.handed).length + (reliable s.records).length ≤ k) (hdue : due (s.rank k) = .push)
  | blocked (result : Result) (hloop : s.loop = .blocked result)
      (hk : (reliable s.handed).length + (reliable s.records).length ≤ k) (hdue : due (s.rank k) = .readDatagram)
  | reading (hloop : s.loop = .reading) (hk : s.taken ≤ k) (hdue : due (s.rank k) = .reliableRead)

theorem Inv.stage (h : Inv P cfg s) (hk : k < s.written.length) : Stage s k := by
  have hcount := h.count_eq
  by_cases hqueue : k < (reliable s.handed).length + (reliable s.records).length
  · have hle := h.rank_queue hqueue
    exact .queued hqueue (if_pos (by omega))
  cases hloop : s.loop with
  | reading =>
    rw [hloop] at hcount
    change _ + 0 = _ at hcount
    refine .reading hloop (by omega) ?_
    rw [h.rank_stream (by omega), hloop]
    change due (67 + _ + 0) = _
    rw [due, if_neg (by omega), if_neg (by omega), if_neg (by omega), if_neg (by omega)]
  | ended =>
    -- the loop that is done has taken everything
    have hfinal := (h.final (by rw [hloop]; trivial)).2
    rw [hloop] at hcount
    change _ + 0 = _ at hcount
    omega
  | holding result =>
    refine .holding result hloop (not_lt.mp hqueue) ?_
    by_cases ht : k < s.taken
    · rw [rank_hand (not_lt.mp hqueue) ht, hloop]
      rfl
    · rw [h.rank_stream (not_lt.mp ht), hloop]
      change due (67 + _ + 3) = _
      rw [due, if_neg (by omega), if_neg (by omega), if_pos (by omega)]
  | blocked result =>
    refine .blocked result hloop (not_lt.mp hqueue) ?_
    by_cases ht : k < s.taken
    · rw [rank_hand (not_lt.mp hqueue) ht, hloop]
      rfl
    · rw [h.rank_stream (not_lt.mp ht), hloop]
      change due (67 + _ + 2) = _
      rw [due, if_neg (by omega), if_neg (by omega), if_neg (by omega), if_pos (by omega)]

/-- entries behind the queue do not matter to what is in it -/
theorem rank_behind (more : List Entry) (hhanded : s'.handed = s.handed) (hrecords : s'.records = s.records ++ more)
    (hk : k < (reliable s.handed).length + (reliable s.records).length) : s'.rank k = s.rank k := by
  unfold rank
  rw [hhanded, hrecords, reliable_append, length_append]
  by_cases hdone : k < (reliable s.handed).length
  · rw [if_pos hdone, if_pos hdone]
  · rw [if_neg hdone, if_neg hdone, if_pos (by omega), if_pos hk, waits_append (by omega)]

/-- moving within handed and queue does not matter to what is behind -/
theorem rank_beyond (hsum : (reliable s'.handed).length + (reliable s'.records).length =
    (reliable s.handed).length + (reliable s.records).length) (hloop : s'.loop = s.loop) (htaken : s'.taken = s.taken)
    (hk : (reliable s.handed).length + (reliable s.records).length ≤ k) : s'.rank k = s.rank k := by
  unfold rank
  rw [hloop, htaken, if_neg (by omega), if_neg (by omega), if_neg (show ¬k < (reliable s.handed).length by omega),
    if_neg (show ¬k < (reliable s.handed).length + (reliable s.records).length by omega)]

/-- the head of the queue is handed over -/
theorem rank_popped {entry : Entry} {rest : List Entry} (more : List Entry) (hrecords : s.records = entry :: rest)
    (hhanded' : s'.handed = s.handed ++ [entry]) (hrecords' : s'.records = rest ++ more)
    (hk : k < (reliable s.handed).length + (reliable s.records).length) : s'.rank k = s.rank k - 1 := by
  rw [hrecords, reliable_cons, length_append] at hk
  unfold rank
  rw [hhanded', hrecords', hrecords, reliable_append, reliable_append, reliable_cons entry rest]
  simp only [length_append]
  by_cases hdone : k < (reliable s.handed).length
  · rw [if_pos (by omega), if_pos hdone]
  rw [if_neg hdone, if_pos (show k < (reliable s.handed).length + ((reliable [entry]).length + (reliable rest).length) by omega), waits]
  by_cases hhead : k < (reliable s.handed).length + (reliable [entry]).length
  · rw [if_pos hhead, if_pos (by omega)]
  · rw [if_neg hhead, if_pos (by omega), if_neg (by omega), waits_append (by omega), Nat.add_sub_cancel, Nat.sub_sub]

/-- what the loop does with the `k`-th record: the rank does not rise, and falls if this is what is due -/
def Lowers (s s' : Link) (op : Op) (k : ℕ) : Prop :=
  s'.rank k ≤ s.rank k ∧ (due (s.rank k) = op → 0 < s.rank k → s'.rank k < s.rank k)

theorem Lowers.same (hrank : s'.rank k = s.rank k) (hdue : due (s.rank k) ≠ op) : Lowers s s' op k :=
  ⟨hrank.le, fun h => absurd h hdue⟩

theorem Lowers.of_lt (h : s'.rank k < s.rank k) : Lowers s s' op k := ⟨h.le, fun _ _ => h⟩

theorem rank_reliableRead (hP : P.Lawful) (h : Inv P cfg s) (hk : k < s.written.length) :
    Lowers s (s.reliableRead P) .reliableRead k := by
  have hother : s.loop ≠ .reading → s.reliableRead P = s := by
    intro hloop
    unfold reliableRead
    split
    · next heq => exact absurd heq hloop
    · rfl
  rcases h.stage hk with ⟨hqueue, hdue⟩ | ⟨result, hloop, -, hdue⟩ | ⟨result, hloop, -, hdue⟩ | ⟨hloop, htaken, hdue⟩
  · refine .same ?_ (by rw [hdue]; exact nofun)
    unfold reliableRead
    split
    · split
      · rfl
      refine rank_behind [] ?_ ?_ hqueue
      · rfl
      · exact (append_nil _).symm
    · rfl
  · rw [hother (by rw [hloop]; exact nofun)]
    exact .same rfl (by rw [hdue]; exact nofun)
  · rw [hother (by rw [hloop]; exact nofun)]
    exact .same rfl (by rw [hdue]; exact nofun)
  · obtain ⟨r, rest, hunread⟩ : ∃ r rest, s.unread = r :: rest := by
      refine exists_cons_of_ne_nil fun hnil => ?_
      have hall := drop_eq_nil_iff.mp hnil
      omega
    obtain ⟨replay, -, hread⟩ := h.readNext hP hunread
    obtain ⟨htaken', ⟨result, hloop'⟩, hhanded', hrecords'⟩ : (s.reliableRead P).taken = s.taken + 1 ∧
        (∃ result, (s.reliableRead P).loop = .holding result) ∧ (s.reliableRead P).handed = s.handed ∧
        (s.reliableRead P).records = s.records := by
      unfold reliableRead
      rw [hloop, hread]
      exact ⟨rfl, ⟨_, rfl⟩, rfl, rfl⟩
    have hcount := h.count_eq
    have hrank := h.rank_stream htaken
    refine .of_lt ?_
    rw [hloop] at hrank
    by_cases hfirst : k = s.taken
    · rw [rank_hand (by rw [hhanded', hrecords']; omega) (by omega), hloop', hrank]
      change 66 < 67 + _ + 0
      omega
    · rw [(reliableRead_inv hP h).rank_stream (by omega), hloop', hrank]
      change 67 + _ + 3 < 67 + _ + 0
      omega

theorem after_toRead (result : Result) : (after result).toRead = 0 := by
  rcases after_cases result with h | h <;> rw [h] <;> rfl

/-- the record in the loop's hand moves into the queue -/
theorem Inv.rank_moved (h : Inv P cfg s) (h' : Inv P cfg s') {result : Result}
    (hheld : s.loop.held = [⟨false, result⟩]) (hcount' : (reliable s'.handed).length + (reliable s'.records).length = s.taken)
    (hloop' : s'.loop = after result) (htaken' : s'.taken = s.taken)
    (hk : (reliable s.handed).length + (reliable s.records).length ≤ k) : s'.rank k < s.rank k := by
  by_cases ht : k < s.taken
  · have hle := h'.rank_queue (hcount' ▸ ht)
    rw [rank_hand hk ht]
    have hhand : 65 ≤ s.loop.toQueue := by
      cases s.loop <;> simp [toQueue]
    omega
  · rw [h.rank_stream (not_lt.mp ht), h'.rank_stream (by omega), hloop', after_toRead]
    have hpos : 0 < s.loop.toRead := by
      cases hloop : s.loop with
      | reading | ended => rw [hloop] at hheld; cases hheld
      | holding result => exact succ_pos 2
      | blocked result => exact succ_pos 1
    omega

theorem rank_push (h : Inv P cfg s) (hk : k < s.written.length) : Lowers s s.push .push k := by
  have hinv := push_inv h
  have hcount := h.count_eq
  rcases h.stage hk with ⟨hqueue, hdue⟩ | ⟨result, hloop, hbeyond, hdue⟩ | ⟨result, hloop, -, hdue⟩ | ⟨hloop, -, hdue⟩
  · refine .same ?_ (by rw [hdue]; exact nofun)
    unfold push
    split
    · next result _ =>
      split
      · refine rank_behind [⟨false, result⟩] ?_ ?_ hqueue <;> rfl
      refine rank_behind [] ?_ ?_ hqueue
      · rfl
      · exact (append_nil _).symm
    · rfl
  · refine .of_lt ?_
    rw [hloop] at hcount
    unfold push at hinv ⊢
    rw [hloop] at hinv ⊢
    simp only at hinv ⊢
    split
    · next hroom =>
      rw [if_pos hroom] at hinv
      refine h.rank_moved hinv (hloop ▸ rfl) ?_ rfl rfl hbeyond
      simp only [reliable_append, length_append]
      simp only [held] at hcount
      omega
    · next hroom =>
      rw [if_neg hroom] at hinv
      by_cases ht : k < s.taken
      · have hwaiting : rank { s with loop := .blocked result } k = 65 :=
          rank_hand (s := { s with loop := .blocked result }) hbeyond ht
        rw [hwaiting, rank_hand hbeyond ht, hloop]
        exact lt_succ_self 65
      · rw [h.rank_stream (not_lt.mp ht), hinv.rank_stream (not_lt.mp ht), hloop]
        exact lt_succ_self _
  · unfold push
    rw [hloop]
    exact .same rfl (by rw [hdue]; exact nofun)
  · unfold push
    rw [hloop]
    exact .same rfl (by rw [hdue]; exact nofun)

/-- without a sender that waits, `ReadDatagram` only moves the head of the queue -/
theorem readDatagram_beyond (hblocked : ∀ result, s.loop ≠ .blocked result)
    (hk : (reliable s.handed).length + (reliable s.records).length ≤ k) : s.readDatagram.rank k = s.rank k := by
  unfold readDatagram
  cases hrecords : s.records with
  | nil => rfl
  | cons entry rest =>
    simp only
    refine rank_beyond ?_ ?_ ?_ hk
    · rw [hrecords, reliable_append, reliable_cons entry rest, length_append, length_append, add_assoc]
    · rfl
    · rfl

theorem rank_readDatagram (h : Inv P cfg s) (hk : k < s.written.length) : Lowers s s.readDatagram .readDatagram k := by
  have hinv := readDatagram_inv h
  have hcount := h.count_eq
  rcases h.stage hk with ⟨hqueue, hdue⟩ | ⟨result, hloop, hbeyond, hdue⟩ | ⟨result, hloop, hbeyond, hdue⟩ | ⟨hloop, htaken, hdue⟩
  · have hpopped : s.readDatagram.rank k = s.rank k - 1 := by
      unfold readDatagram
      cases hrecords : s.records with
      | nil =>
        have hdone : s.rank k = 0 := by
          rw [hrecords] at hqueue
          exact if_pos hqueue
        rw [hdone]
      | cons entry rest =>
        simp only
        split
        · next result _ => refine rank_popped [⟨false, result⟩] hrecords ?_ ?_ hqueue <;> rfl
        refine rank_popped [] hrecords ?_ ?_ hqueue
        · rfl
        · exact (append_nil _).symm
    exact ⟨by omega, fun _ hpos => by omega⟩
  · exact .same (readDatagram_beyond (by rw [hloop]; exact nofun) hbeyond) (by rw [hdue]; exact nofun)
  · refine .of_lt ?_
    have hfull := h.full result hloop
    rw [hloop] at hcount
    unfold readDatagram at hinv ⊢
    cases hrecords : s.records with
    | nil =>
      rw [hrecords] at hfull
      cases hfull
    | cons entry rest =>
      rw [hrecords] at hinv
      simp only [hloop] at hinv ⊢
      refine h.rank_moved hinv (hloop ▸ rfl) ?_ rfl rfl hbeyond
      rw [hrecords, reliable_cons] at hcount
      simp only [reliable_append, length_append]
      simp only [held, length_append] at hcount
      omega
  · exact .same (readDatagram_beyond (by rw [hloop]; exact nofun) (by omega)) (by rw [hdue]; exact nofun)

/-- what does not touch the receiver's part lowers nothing -/
theorem Lowers.other (hrank : s'.rank k = s.rank k)
    (hop : op ≠ .readDatagram ∧ op ≠ .push ∧ op ≠ .reliableRead) : Lowers s s' op k := by
  refine .same hrank fun hdue => ?_
  unfold due at hdue
  split_ifs at hdue
  · exact hop.1 hdue.symm
  · exact hop.2.1 hdue.symm
  · exact hop.2.1 hdue.symm
  · exact hop.1 hdue.symm
  · exact hop.2.2 hdue.symm

/-- what the writer leaves: it appends to the stream and does not touch the receiver's part -/
def Wrote (s s' : Link) : Prop :=
  s.written <+: s'.written ∧ s'.handed = s.handed ∧ s'.records = s.records ∧ s'.loop = s.loop ∧ s'.taken = s.taken

theorem Wrote.refl (s : Link) : Wrote s s := ⟨prefix_refl _, rfl, rfl, rfl, rfl⟩

theorem Wrote.rank (h : Wrote s s') (k : ℕ) : s'.rank k = s.rank k := by
  obtain ⟨-, hhanded, hrecords, hloop, htaken⟩ := h
  simp only [Link.rank, hhanded, hrecords, hloop, htaken]

theorem Wrote.writeReliable (h : Wrote s s') (r : UDPRecord) (raw : Str) : Wrote s (s'.writeReliable r raw) := by
  unfold Link.writeReliable
  split
  · exact h
  · exact ⟨h.1.trans (prefix_append _ _), h.2⟩

theorem writeRecord_wrote (s : Link) (r : UDPRecord) (preferFast : Bool) (send : Send) :
    Wrote s (s.writeRecord P cfg r preferFast send) := by
  unfold writeRecord
  split
  · exact .refl s
  simp only
  split
  · exact .refl s
  split
  · cases send with
    | sent => exact .refl s
    | failed | failedButSent =>
      refine Wrote.writeReliable ?_ _ _
      exact .refl s
  · refine Wrote.writeReliable ?_ _ _
    exact .refl s

theorem writeDatagram_wrote (s : Link) (payload : Str) (target : Option Target) (send : Send) :
    Wrote s (s.writeDatagram P cfg payload target send) := by
  unfold writeDatagram
  split
  · exact .refl s
  · exact writeRecord_wrote s _ true send

theorem close_wrote (s : Link) : Wrote s (s.close P cfg) := by
  unfold close
  split
  · exact .refl s
  · exact writeRecord_wrote { s with closeCalled := true } _ false .failed

theorem rank_fastReceive (s : Link) (k i : ℕ) : (s.fastReceive P cfg i).rank k = s.rank k := by
  unfold fastReceive
  split
  · rfl
  simp only
  split
  · rfl
  rename_i record _
  split
  · rfl
  split
  · rfl
  split
  · by_cases hqueue : k < (reliable s.handed).length + (reliable s.records).length
    · refine rank_behind [⟨true, .record record⟩] ?_ ?_ hqueue <;> rfl
    refine rank_beyond ?_ ?_ ?_ (not_lt.mp hqueue)
    · rw [reliable_append, reliable_fast, append_nil]
    · rfl
    · rfl
  · rfl

/-- **No step raises the rank of a record that was written, and the one due lowers it.** -/
theorem step_lowers (hP : P.Lawful) (h : Inv P cfg s) (hk : k < s.written.length) (op : Op) :
    Lowers s (step P cfg s op) op k := by
  cases op with
  | writeDatagram payload target send => exact .other ((writeDatagram_wrote s payload target send).rank k) ⟨nofun, nofun, nofun⟩
  | writeError code message => exact .other ((writeRecord_wrote s _ false .failed).rank k) ⟨nofun, nofun, nofun⟩
  | close => exact .other ((close_wrote s).rank k) ⟨nofun, nofun, nofun⟩
  | closeWrite =>
    refine .other ?_ ⟨nofun, nofun, nofun⟩
    rw [step]
    split <;> rfl
  | fastReceive i => exact .other (rank_fastReceive s k i) ⟨nofun, nofun, nofun⟩
  | reliableRead => exact rank_reliableRead hP h hk
  | push => exact rank_push h hk
  | readDatagram => exact rank_readDatagram h hk

/-! ## The honest peer -/

/-- only the writer touches what was written, and it appends -/
theorem step_written (s : Link) (op : Op) : s.written <+: (step P cfg s op).written := by
  cases op with
  | writeDatagram payload target send => exact (writeDatagram_wrote s payload target send).1
  | writeError code message => exact (writeRecord_wrote s _ false .failed).1
  | close => exact (close_wrote s).1
  | closeWrite =>
    rw [step]
    split <;> exact prefix_refl _
  | fastReceive i | reliableRead | push | readDatagram =>
    simp only [step, fastReceive, reliableRead, push, readDatagram]
    repeat' split
    all_goals exact prefix_refl _

/-- a rank of zero: the record was handed over in its turn -/
theorem Inv.handed_of_rank (h : Inv P cfg s) (hrank : s.rank k = 0) (hr : s.written[k]? = some r) :
    (reliable s.handed)[k]? = some (normalRecord P r) := by
  have hdone : k < (reliable s.handed).length := by
    by_contra hnot
    unfold rank at hrank
    split_ifs at hrank with hqueue ht
    · have hpos : 0 < waits s.records (k - (reliable s.handed).length) := waits_pos (by omega)
      omega
    · cases hloop : s.loop <;> rw [hloop] at hrank <;> cases hrank
    · omega
  have hcount := h.count_eq
  have horder := congrArg (·[k]?) h.order
  simp only [entries, reliable_append, append_assoc] at horder
  rwa [getElem?_append_left hdone, getElem?_map, getElem?_take, if_pos (by omega), hr] at horder

/-- the operations that move records to the reader -/
def Op.isReader : Op → Prop
  | .reliableRead | .push | .readDatagram => True
  | _ => False

theorem due_isReader (rank : ℕ) : (due rank).isReader := by
  unfold due
  split_ifs <;> trivial

/-- each reader operation is taken again and again -/
def FairReader (sched : ℕ → Op) : Prop := ∀ op, op.isReader → ∀ n, ∃ m, n ≤ m ∧ sched m = op

/-- the states of an endless run -/
def states (P : Platform Addr) (cfg : Config) (sched : ℕ → Op) (n : ℕ) : Link := Machine.stateAt (step P cfg) start sched n

theorem written_mono (P : Platform Addr) (cfg : Config) (sched : ℕ → Op) (h : n ≤ m) :
    (states P cfg sched n).written <+: (states P cfg sched m).written := by
  induction m, h using le_induction with
  | base => exact prefix_refl _
  | succ m _ ih => exact ih.trans (step_written _ _)

/-- a record that was written stays the `k`-th -/
theorem written_get (sched : ℕ → Op) (h : n ≤ m) (hr : (states P cfg sched n).written[k]? = some r) :
    (states P cfg sched m).written[k]? = some r := by
  obtain ⟨more, hmore⟩ := written_mono P cfg sched h
  obtain ⟨hlt, -⟩ := List.getElem?_eq_some_iff.mp hr
  rw [← hmore, List.getElem?_append_left hlt, hr]

/-- **Every record is handed over**, if the readers keep going. -/
theorem eventually_handed (hP : P.Lawful) {sched : ℕ → Op} (hfit : ∀ n, Fitting P (states P cfg sched n) (sched n))
    (hfair : FairReader sched) (hr : (states P cfg sched n).written[k]? = some r) :
    ∃ m, n ≤ m ∧ (reliable (states P cfg sched m).handed)[k]? = some (normalRecord P r) := by
  have hinv : ∀ m, Inv P cfg (states P cfg sched m) := Machine.stateAt_inv_guarded (fun s op => step_inv hP s op) start_inv hfit
  have hlowers : ∀ m, n ≤ m → Lowers (states P cfg sched m) (states P cfg sched (m + 1)) (sched m) k := by
    intro m hm
    obtain ⟨hlt, -⟩ := List.getElem?_eq_some_iff.mp (written_get sched hm hr)
    exact step_lowers hP (hinv m) hlt (sched m)
  obtain ⟨m, hm, hzero⟩ := Machine.rank_zero (fun m => (states P cfg sched m).rank k) due n
    (fun m hm => (hlowers m hm).1) (fun m hm hpos hdue => (hlowers m hm).2 hdue.symm hpos)
    (fun rank m => hfair (due rank) (due_isReader rank) m)
  exact ⟨m, hm, (hinv m).handed_of_rank hzero (written_get sched hm hr)⟩

/-- **The honest peer is never refused.** In every fitting run the loops and `ReadDatagram` take each record of the peer, and in a
fair one each record that was written on the stream is handed over in its turn. -/
theorem honest_peer (hP : P.Lawful) (cfg : Config) :
    (∀ ops, Machine.Guarded (step P cfg) (Fitting P) Link.start ops →
      ∀ e ∈ (Machine.run (step P cfg) Link.start ops).entries, e.result ≠ .invalid ∧ cfg.deliver e.result ≠ .invalid) ∧
    ∀ sched : ℕ → Op, (∀ n, Fitting P (states P cfg sched n) (sched n)) → FairReader sched →
      ∀ (n k : ℕ) (r : UDPRecord), (states P cfg sched n).written[k]? = some r →
        ∃ m, n ≤ m ∧ (reliable (states P cfg sched m).handed)[k]? = some (normalRecord P r) := by
  refine ⟨fun ops hguard e he => ?_, fun sched hfit hfair n k r hr => eventually_handed hP hfit hfair hr⟩
  have hinv := Machine.run_inv_guarded (fun s op => step_inv hP s op) start_inv ops hguard
  have hdeliver := hinv.delivered e he
  refine ⟨fun hinvalid => ?_, hdeliver⟩
  rw [hinvalid] at hdeliver
  exact hdeliver rfl

/-! ## Two runs -/

def fixedConfig : Config := ⟨.udpFixed ⟨ascii "192.0.2.7", 53⟩, 1200, 100⟩

/-- a datagram over the fast path, one over the stream -/
def bothPaths : List Op :=
  [.writeDatagram [1] none .sent, .writeDatagram [2] none .failed, .fastReceive 0, .reliableRead, .push, .readDatagram, .readDatagram]

theorem honest_peer_both : Machine.Guarded (step asciiPlatform fixedConfig) (Fitting asciiPlatform) Link.start bothPaths ∧
    ∀ e ∈ (Machine.run (step asciiPlatform fixedConfig) Link.start bothPaths).entries,
      e.result ≠ .invalid ∧ fixedConfig.deliver e.result ≠ .invalid := by
  suffices hguard : Machine.Guarded (step asciiPlatform fixedConfig) (Fitting asciiPlatform) Link.start bothPaths from
    ⟨hguard, (honest_peer asciiPlatform_lawful fixedConfig).1 bothPaths hguard⟩
  refine ⟨⟨nofun, nofun⟩, ⟨nofun, nofun⟩, ?_, trivial, trivial, trivial, trivial, trivial⟩
  intro raw record hraw hdecode r hr
  have hair : (Machine.run (step asciiPlatform fixedConfig) Link.start (bothPaths.take 2)).air[0]? = some [1, 1, 0, 1, 1] := by decide
  have hunread : (Machine.run (step asciiPlatform fixedConfig) Link.start (bothPaths.take 2)).unread.map (·.packetID) = [2] := by decide
  have hpacket : (decodeUDPRecord asciiPlatform [1, 1, 0, 1, 1]).map (·.packetID) = some 1 := by decide
  have hmem : r.packetID ∈ [2] := hunread ▸ mem_map_of_mem (f := (·.packetID)) hr
  cases hair.symm.trans hraw
  rw [hdecode] at hpacket
  have hpacketID : record.packetID = 1 := Option.some.inj hpacket
  rw [mem_singleton.mp hmem, hpacketID]
  decide

/-- the fast packet of a failed send arrives, then the stream's copy of it is refused -/
theorem resent_record_refused : ¬∀ (Addr : Type) (P : Platform Addr), P.Lawful → ∀ (cfg : Config) (ops : List Op),
    ∀ e ∈ (Machine.run (step P cfg) Link.start ops).entries, e.result ≠ .invalid := by
  intro h
  have hsome := h _ asciiPlatform asciiPlatform_lawful fixedConfig
    [.writeDatagram [1] none .failedButSent, .fastReceive 0, .reliableRead] ⟨false, .invalid⟩ (by decide)
  exact hsome rfl

end NeProto.Proxy.Association
