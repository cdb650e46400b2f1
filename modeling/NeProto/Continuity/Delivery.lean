/-
Exactly-once delivery over a sequence of physical streams.

- `Inv`: the two ends of a link agree on the log. It is the conjunction of what the sending end knows of itself (`Sound`,
  `Within`) and of its pipes (`Sending`), of what the receiving end knows (`Receiving`), and of `Acked`.
- `run_inv`: it holds after every run whose replays meet `chunkFits`.
- `exactly_once`: then what `Read` has handed out is a prefix of what was appended, and `receiveOffset` is its length.
- `replay_overshoot`: without the condition bytes are delivered twice. A `Write` that appends while `Replace` replays more
  than one copy buffer is replayed past the captured end and then sent again by the waiting `Write`.
-/
import NeProto.Continuity.Receiver
import NeProto.Continuity.Acked

namespace NeProto.Continuity

open Function List

namespace Link

/-! ## The invariant -/

structure Inv (s : Link) : Prop where
  sound : Sound s.a
  within : s.a.replacer.Within
  sending : Sending s.a s.pipe s.opened
  receiving : Receiving s.b s.a.appended s.pipe s.opened
  acked : Acked s.a s.b.receiveOffset
  starts : ∀ i, (s.pipe i).start ≤ s.b.receiveOffset

variable {s : Link}

theorem Inv.slices (h : s.Inv) (i : ℕ) : At s.a.appended (s.pipe i).start (s.pipe i).sent :=
  (h.sending.pipes i).slice

/-- `b` has received no more than was appended -/
theorem Inv.received_le (h : s.Inv) : s.b.receiveOffset ≤ s.a.appended.length := by
  rw [← h.receiving.count]
  exact h.receiving.got.length_le

theorem init_inv (Ca Cb : Config) : (init Ca Cb).Inv where
  sound := init_sound Ca 0
  within := trivial
  sending :=
    { pipes := fun i =>
        { slice := at_nil _ _
          fresh := nofun
          owned := fun pos hx => by
            cases hx with
            | attempt h | replay h => cases h
            | current h _ => cases h; exact ⟨Nat.one_pos, rfl⟩
          aligned := fun pos hx _ => by
            cases hx with
            | attempt h | replay h => cases h
            | current h _ => rfl }
      apart := nofun
      live := fun _ _ _ _ h => nomatch h }
  receiving :=
    { got := nil_prefix
      count := rfl
      pipes := fun i =>
        { taken := le_rfl
          fresh := nofun
          held := fun hx => by
            cases hx with
            | current h => cases h; exact ⟨Nat.one_pos, rfl⟩
            | reading h | replacing h => cases h
          place := fun _ => rfl
          data := nofun
          candidate := fun _ h => nomatch h }
      alone := nofun
      shut := fun h => nomatch h }
  acked := ⟨le_rfl, nofun, le_rfl, le_rfl, nofun⟩
  starts := fun _ => le_rfl

/-! ## What a step of one end leaves to the other -/

/-- a step of `a` adds to a pipe and touches nothing `b` keeps there -/
structure Grows (P P' : Pipe) : Prop where
  start : P'.start = P.start := by rfl
  taken : P'.taken = P.taken := by rfl
  usedB : P'.usedB = P.usedB := by rfl
  sent : P.sent <+: P'.sent := by exact List.prefix_refl _

theorem Grows.refl (P : Pipe) : Grows P P where

theorem setPipe_grows {i : ℕ} {P : Pipe} (h : Grows (s.pipe i) P) (j : ℕ) : Grows (s.pipe j) ((s.setPipe i P).pipe j) :=
  (forall_update_iff s.pipe fun j P => Grows (s.pipe j) P).2 ⟨h, fun _ _ => .refl _⟩ j

/-- **Frame of the sending end.** -/
theorem stepA_frame (C : Config) (s : Link) (o : Op) :
    (s.stepA C o).b = s.b ∧ (s.stepA C o).opened = s.opened ∧ (∀ i, Grows (s.pipe i) ((s.stepA C o).pipe i)) ∧
      ((s.stepA C o).a = s.a ∨ (s.stepA C o).a = Continuity.step C s.a o) := by
  cases o with
  | writePut k | replayPut k =>
    simp only [stepA]
    repeat' split
    all_goals first
      | exact ⟨rfl, rfl, fun i => .refl _, .inl rfl⟩
      | exact ⟨rfl, rfl, setPipe_grows { sent := prefix_append _ _ }, .inr rfl⟩
  | physicalWrite n err | replayWrite n err =>
    simp only [stepA]
    repeat' split
    all_goals first
      | exact ⟨rfl, rfl, fun i => .refl _, .inl rfl⟩
      | exact ⟨rfl, rfl, fun i => .refl _, .inr rfl⟩
      | exact ⟨rfl, rfl, setPipe_grows {}, .inr rfl⟩
  | ack offset =>
    simp only [stepA]
    split_ifs
    · exact ⟨rfl, rfl, fun i => .refl _, .inr rfl⟩
    · exact ⟨rfl, rfl, fun i => .refl _, .inl rfl⟩
  | replace q peer recv =>
    simp only [stepA]
    split_ifs
    · exact ⟨rfl, rfl, setPipe_grows {}, .inr rfl⟩
    · exact ⟨rfl, rfl, fun i => .refl _, .inl rfl⟩
  | _ => exact ⟨rfl, rfl, fun i => .refl _, .inr rfl⟩

/-- what the sending end's own step keeps, the link's step keeps -/
theorem stepA_keeps (P : St → Prop) {C : Config} {o : Op} (h : P s.a) (hs : P (Continuity.step C s.a o)) :
    P (s.stepA C o).a := by
  obtain ⟨-, -, -, ha⟩ := stepA_frame C s o
  rcases ha with ha | ha
  · rw [ha]; exact h
  · rw [ha]; exact hs

/-- the sending end writes on, the receiving end keeps its place -/
theorem receiving_grow {b : St} {l l' : List Byte} {pipe pipe' : ℕ → Pipe} {opened : ℕ}
    (h : Receiving b l pipe opened) (hl : l <+: l') (hg : ∀ i, Grows (pipe i) (pipe' i)) :
    Receiving b l' pipe' opened :=
  { h with
    got := h.got.trans hl
    pipes := fun i => by
      obtain ⟨hs, ht, hu, x, hsent⟩ := hg i
      have hp := h.pipes i
      refine ⟨?_, ?_, ?_, ?_, fun len bytes err hx => ?_, ?_⟩
      · rw [ht, ← hsent, length_append]
        exact hp.taken.trans (Nat.le_add_right _ _)
      · rw [hu, ht]; exact hp.fresh
      · rw [hu]; exact hp.held
      · rw [hs, ht]; exact hp.place
      · obtain ⟨h1, h2⟩ := hp.data len bytes err hx
        rw [ht, ← hsent]
        exact ⟨h1, h2.grow x⟩
      · rw [hs, ht]; exact hp.candidate }

/-- a step of `b` reads from a pipe and touches nothing `a` keeps there -/
structure Reads (P P' : Pipe) : Prop where
  start : P'.start = P.start := by rfl
  sent : P'.sent = P.sent := by rfl
  broken : P'.broken = P.broken := by rfl
  usedA : P'.usedA = P.usedA := by rfl

theorem Reads.refl (P : Pipe) : Reads P P where

theorem setPipe_reads {i : ℕ} {P : Pipe} (h : Reads (s.pipe i) P) (j : ℕ) : Reads (s.pipe j) ((s.setPipe i P).pipe j) :=
  (forall_update_iff s.pipe fun j P => Reads (s.pipe j) P).2 ⟨h, fun _ _ => .refl _⟩ j

/-- **Frame of the receiving end.** -/
theorem stepB_frame (C : Config) (s : Link) (o : Op) :
    (s.stepB C o).a = s.a ∧ (s.stepB C o).opened = s.opened ∧ (∀ i, Reads (s.pipe i) ((s.stepB C o).pipe i)) ∧
      ((s.stepB C o).b = s.b ∨ (s.stepB C o).b = Continuity.step C s.b o) := by
  cases o with
  | physicalRead data err =>
    simp only [stepB]
    repeat' split
    all_goals first
      | exact ⟨rfl, rfl, fun i => .refl _, .inl rfl⟩
      | exact ⟨rfl, rfl, setPipe_reads {}, .inr rfl⟩
  | replace q peer recv =>
    simp only [stepB]
    split_ifs
    · exact ⟨rfl, rfl, setPipe_reads {}, .inr rfl⟩
    · exact ⟨rfl, rfl, fun i => .refl _, .inl rfl⟩
  | _ => exact ⟨rfl, rfl, fun i => .refl _, .inr rfl⟩

theorem sending_reads {a : St} {pipe pipe' : ℕ → Pipe} {opened : ℕ} (h : Sending a pipe opened)
    (hg : ∀ i, Reads (pipe i) (pipe' i)) : Sending a pipe' opened :=
  { h with
    pipes := fun i => by
      obtain ⟨hs, hsent, hb, hu⟩ := hg i
      have hp := h.pipes i
      refine ⟨?_, ?_, ?_, ?_⟩
      · rw [hs, hsent]; exact hp.slice
      · rw [hu, hsent]; exact hp.fresh
      · rw [hu]; exact hp.owned
      · rw [hs, hsent, hb]; exact hp.aligned }

/-- the receive offset only grows -/
theorem step_receiveOffset (C : Config) (s : St) (o : Op) :
    s.receiveOffset ≤ (Continuity.step C s o).receiveOffset := by
  rcases (step_owned C s o).receiveOffset with h | ⟨-, h⟩
  · exact h.ge
  · exact h

/-! ## Every step keeps the invariant -/

/-- each replay of the sending end stays below the end it captured -/
def replayFits (s : Link) : LinkOp → Prop
  | .a o => chunkFits s.a o
  | _ => True

instance (s : Link) : ∀ o, Decidable (replayFits s o)
  | .a o => inferInstanceAs (Decidable (chunkFits s.a o))
  | .b _ => .isTrue trivial
  | .capture _ => .isTrue trivial

theorem stepA_inv (C : Config) (h : s.Inv) (o : Op) (hf : chunkFits s.a o) : (s.stepA C o).Inv := by
  obtain ⟨hb, ho, hg, -⟩ := stepA_frame C s o
  refine ⟨stepA_keeps Sound h.sound (step_sound C h.sound o),
    stepA_keeps (·.replacer.Within) h.within (step_within C h.sound h.within o hf),
    stepA_sending h.sending C h.sound h.within o, ?_, ?_, fun i => ?_⟩
  · rw [hb, ho]
    exact receiving_grow h.receiving
      (stepA_keeps (s.a.appended <+: ·.appended) (prefix_refl _) (step_owned C s.a o).appended) hg
  · rw [hb]
    -- an acknowledgement or a peer offset the link lets through is one `b` has reached
    cases o with
    | ack offset =>
      simp only [stepA]
      split_ifs with hle
      · exact step_acked C h.acked (.ack offset) (fun k hk => by cases hk; exact hle) (by simp)
      · exact h.acked
    | replace q peer recv =>
      simp only [stepA]
      split_ifs with hle
      · refine step_acked C h.acked (.replace q peer recv) (by simp) fun q' p' r' hx => ?_
        cases hx
        rw [hle.2.2.2]; exact h.starts q
      · exact h.acked
    | _ => exact stepA_keeps (Acked · _) h.acked (step_acked C h.acked _ (by simp) (by simp))
  · rw [hb, (hg i).start]; exact h.starts i

theorem stepB_inv (C : Config) (h : s.Inv) (o : Op) : (s.stepB C o).Inv := by
  obtain ⟨ha, ho, hg, hb⟩ := stepB_frame C s o
  have hR : s.b.receiveOffset ≤ (s.stepB C o).b.receiveOffset := by
    rcases hb with hb | hb
    · rw [hb]
    · rw [hb]; exact step_receiveOffset C s.b o
  refine ⟨?_, ?_, ?_, ?_, ?_, fun i => ?_⟩
  · rw [ha]; exact h.sound
  · rw [ha]; exact h.within
  · rw [ha, ho]; exact sending_reads h.sending hg
  · rw [ha]; exact stepB_receiving h.receiving C h.sound.len_le h.slices o
  · rw [ha]; exact h.acked.mono hR
  · rw [(hg i).start]; exact (h.starts i).trans hR

/-- a new pipe is in nobody's hands -/
theorem open_inv (h : s.Inv) (start : ℕ) (hs : start ≤ s.b.receiveOffset) :
    Inv { s.setPipe s.opened ⟨start, [], false, 0, false, false⟩ with opened := s.opened + 1 } := by
  have hfreeA : ∀ pos, ¬ Position s.a s.opened pos := fun pos hx =>
    absurd ((h.sending.pipes s.opened).owned pos hx).1 (lt_irrefl _)
  have hfreeB : ¬ Holds s.b s.opened := fun hx => absurd ((h.receiving.pipes s.opened).held hx).1 (lt_irrefl _)
  refine ⟨h.sound, h.within, { h.sending with pipes := ?_ }, { h.receiving with pipes := ?_ }, h.acked, ?_⟩
  · refine (forall_update_iff s.pipe fun j P => PipeOk s.a (s.opened + 1) j P).2 ⟨?_, fun j _ => ?_⟩
    · exact ⟨at_nil _ _, fun _ => rfl, fun pos hx => absurd hx (hfreeA pos), fun pos hx => absurd hx (hfreeA pos)⟩
    · have hj := h.sending.pipes j
      exact { hj with owned := fun pos hx => ⟨Nat.lt_succ_of_lt (hj.owned pos hx).1, (hj.owned pos hx).2⟩ }
  · refine (forall_update_iff s.pipe fun j P => PipeAt s.b (s.opened + 1) j P).2 ⟨?_, fun j _ => ?_⟩
    · refine ⟨le_rfl, fun _ => rfl, fun hx => absurd hx hfreeB, fun hx => absurd (.current hx) hfreeB,
        fun len bytes err hx => ?_, fun recv hx => absurd (.replacing hx) hfreeB⟩
      exact absurd (.reading (hx ▸ rfl)) hfreeB
    · have hj := h.receiving.pipes j
      exact { hj with held := fun hx => ⟨Nat.lt_succ_of_lt (hj.held hx).1, (hj.held hx).2⟩ }
  · exact (forall_update_iff s.pipe fun _ P => P.start ≤ s.b.receiveOffset).2 ⟨hs, fun j _ => h.starts j⟩

theorem capture_inv (h : s.Inv) (fromA : Bool) : (s.capture fromA).Inv := by
  unfold capture
  split_ifs
  · exact open_inv h _ h.acked.base
  · exact h
  · exact open_inv h _ le_rfl
  · exact h

theorem step_inv (Ca Cb : Config) (s : Link) (o : LinkOp) (h : s.Inv) (hf : replayFits s o) : (step Ca Cb s o).Inv := by
  cases o with
  | a o => exact stepA_inv Ca h o hf
  | b o => exact stepB_inv Cb h o
  | capture fromA => exact capture_inv h fromA

theorem run_inv (Ca Cb : Config) (ops : List LinkOp)
    (hg : Machine.Guarded (step Ca Cb) replayFits (init Ca Cb) ops) : (run Ca Cb (init Ca Cb) ops).Inv :=
  Machine.run_inv_guarded (step_inv Ca Cb) (init_inv Ca Cb) ops hg

/-! ## Exactly-once delivery -/

/-- **Exactly once.** In every interleaving whose replays stay below the end they captured, the bytes `Read` has returned
and those it is about to return are a prefix of the bytes appended, and the receive offset is their number. -/
theorem exactly_once (Ca Cb : Config) (ops : List LinkOp)
    (hg : Machine.Guarded (step Ca Cb) replayFits (init Ca Cb) ops) :
    let s := run Ca Cb (init Ca Cb) ops
    returned s.b <+: s.a.appended ∧ (s.b.reader = .idle → s.b.receiveOffset = (returned s.b).length) ∧
      returned s.b ++ handing s.b <+: s.a.appended ∧ (returned s.b ++ handing s.b).length = s.b.receiveOffset := by
  intro s
  have h : s.Inv := run_inv Ca Cb ops hg
  refine ⟨(prefix_append _ _).trans h.receiving.got, fun hi => ?_, h.receiving.got, h.receiving.count⟩
  have hcount := h.receiving.count
  have hh : handing s.b = [] := by unfold handing; rw [hi]
  rw [hh, append_nil] at hcount
  exact hcount.symm

/-- a small stream -/
def small : Config where
  journalBytes := 4
  ackEveryBytes := 0
  recoverableReadError := recoverableTransportError
  recoverableWriteError := recoverableTransportError
  journal_pos := by decide
  journal_max := by decide
  ack_le := by decide

/-- two bytes are written and one arrives before both ends move to a second pipe; the replay brings both again -/
def migration : List LinkOp :=
  [.a (.write [1, 2]), .a .writeAppend, .a .writeWait, .a .writeAttempt, .a (.writePut 2), .a (.physicalWrite 2 none),
   .a .writeEnd, .a .writeSettle, .b (.read 1), .b .readWait, .b (.physicalRead [1] none), .b .readEnd, .b .readTail,
   .a .detachPhysical, .b .detachPhysical, .capture true, .a (.replace 1 0 0), .a .replaceAck, .a .replaceState,
   .a .replaceReplay, .a (.replayPut 2), .a (.replayWrite 2 none), .a .replaceReplay, .a .replaceFin, .a .replacePublish,
   .b (.replace 1 0 0), .b .replaceAck, .b .replaceState, .b .replaceReplay, .b .replaceFin, .b .replacePublish,
   .b (.read 4), .b .readWait, .b (.physicalRead [1, 2] none), .b .readEnd, .b .readTail]

theorem exactly_once_migration :
    Machine.Guarded (step small small) replayFits (init small small) migration ∧
      returned (run small small (init small small) migration).b = [1, 2] ∧
      returned (run small small (init small small) migration).b <+:
        (run small small (init small small) migration).a.appended :=
  ⟨by decide, by decide, (exactly_once small small migration (by decide)).1⟩

/-! ## The replay that passes its end -/

/-- `a` writes a payload and is detached; a pipe for the replacement is opened at its journal base -/
def writeThenDetach (payload : List Byte) : List LinkOp :=
  [.a (.write payload), .a .writeAppend, .a .writeWait, .a .writeAttempt, .a (.writePut payload.length),
   .a (.physicalWrite payload.length none), .a .writeEnd, .a .writeSettle, .a .detachPhysical, .capture true]

/-- `a` replays `m` bytes, a `Write` of one byte comes in, the replay takes it along and the `Write` sends it again -/
def replayAcrossWrite (m : ℕ) (x : Byte) : List LinkOp :=
  [.a (.replace 1 0 0), .a .replaceAck, .a .replaceState, .a .replaceReplay, .a (.replayPut m), .a (.replayWrite m none),
   .a (.write [x]), .a .writeAppend, .a .replaceReplay, .a (.replayPut 2), .a (.replayWrite 2 none), .a .replaceReplay,
   .a .replaceFin, .a .replacePublish, .a .writeWait, .a .writeAttempt, .a (.writePut 1)]

/-- `b` takes the replacement and reads everything -/
def takeOver (data : List Byte) : List LinkOp :=
  [.b .detachPhysical, .b (.replace 1 0 0), .b .replaceAck, .b .replaceState, .b .replaceReplay, .b .replaceFin,
   .b .replacePublish, .b (.read data.length), .b .readWait, .b (.physicalRead data none), .b .readEnd, .b .readTail]

section overshoot

variable (Ca Cb : Config) {j j' : Journal} {payload chunk rest : List Byte} {m : ℕ} {x : Byte}

/-- the state after `writeThenDetach` -/
def detached (Ca Cb : Config) (j : Journal) (payload : List Byte) : Link where
  a := { Continuity.init Ca 0 with
           journal := j, physical := none, transmitted := payload.length, attempts := 1, settled := 1
           appended := payload, log := [.write payload.length none, .detach none] }
  b := Continuity.init Cb 0
  pipe := update (update (init Ca Cb).pipe 0 ⟨0, payload, false, 0, true, true⟩) 1
    ⟨0, [], false, 0, false, false⟩
  opened := 2

theorem run_writeThenDetach (hne : payload ≠ []) (hle : payload.length ≤ maxSequence)
    (hj : Ca.journal.append payload = .ok (0, payload.length, j)) (hb : j.baseOffset = 0) :
    run Ca Cb (init Ca Cb) (writeThenDetach payload) = detached Ca Cb j payload := by
  have hpos : payload.length ≠ 0 := (length_pos_iff.2 hne).ne'
  simp [writeThenDetach, detached, run, step, stepA, Continuity.step, writeCheck, init, Continuity.init, hne, writeAppend,
    hj, writeWait, writeAttempt, writePut, Call.rest, push, setPipe, hpos, physicalWrite, writeEnd, hle, writeSettle,
    closeDone, writeReturn, detachPhysical, detachReturn, capture, hb]

/-- the state after `replayAcrossWrite`: the last byte stands twice in the pipe -/
def resent (Ca Cb : Config) (j : Journal) (payload chunk rest : List Byte) (x : Byte) : Link where
  a := { Continuity.init Ca 0 with
           journal := j, physical := some 1, transmitted := payload.length, attempts := 2, settled := 1
           appended := payload ++ [x], log := [.write payload.length none, .detach none, .replace none]
           writer := .call ⟨[x], payload.length, payload.length + 1⟩ 1 payload.length 1
           writeAttemptEnd := payload.length + 1, writeAttemptDone := some 1 }
  b := Continuity.init Cb 0
  pipe := update (update (init Ca Cb).pipe 0 ⟨0, payload, false, 0, true, true⟩) 1
    ⟨0, chunk ++ (rest ++ [x]), false, 0, true, false⟩
  opened := 2

theorem run_replayAcrossWrite (hlen : payload.length = m + 1) (hm : m = replayCopyBufferSize)
    (hj : j.closed = false) (hb : j.baseOffset = 0) (he : j.endOffset = m + 1)
    (h1 : j.replay 0 m = .ok (chunk, m)) (hc1 : chunk.length = m) (happ : j.append [x] = .ok (m + 1, m + 2, j'))
    (h2 : j'.replay m m = .ok (rest, m + 2)) (hc2 : rest.length = 2) :
    run Ca Cb (detached Ca Cb j payload) (replayAcrossWrite m x) = resent Ca Cb j' payload chunk rest x := by
  have hm0 : m ≠ 0 := by rw [hm]; decide
  have hs : j.size = m + 1 := by have := (j.inside hj).2.2; omega
  have hack : j.ack 0 = .ok j := by unfold Journal.ack; simp [hj, hb]
  have hroom : min replayCopyBufferSize (m + 1) = m := by omega
  have hne1 : chunk ≠ [] := by rintro rfl; exact hm0 hc1.symm
  have hne2 : rest ≠ [] := by rintro rfl; cases hc2
  have htake1 : chunk.take m = chunk := take_of_length_le hc1.le
  have htake2 : rest.take 2 = rest := take_of_length_le hc2.le
  simp [replayAcrossWrite, detached, resent, run, step, stepA, Continuity.step, writeCheck, init, Continuity.init,
    Continuity.replace, setPipe, replaceAck, ackJournal, hack, replaceState, hroom, he, hs, replaceReplay, h1, hne1,
    replayPut, hc1, push, replayWrite, hm0, writeAppend, happ, h2, hne2, hc2, replaceFin, replacePublish, replaceReturn,
    writeWait, writeAttempt, writePut, Call.rest, hlen, htake1, htake2]

theorem run_takeOver (a : St) (pipe : ℕ → Pipe) (sent : List Byte) {used : Bool}
    (hp : pipe 1 = ⟨0, sent, false, 0, used, false⟩) (hne : sent ≠ []) (hfew : sent.length < Cb.ackEveryBytes)
    (hmax : sent.length ≤ maxSequence) :
    let s := run Ca Cb ⟨a, Continuity.init Cb 0, pipe, 2⟩ (takeOver sent)
    s.a = a ∧ s.b.reader = .idle ∧ returned s.b = sent := by
  have hack : Cb.journal.ack 0 = .ok Cb.journal := by unfold Journal.ack; simp [Config.journal, Journal.empty]
  have hend : Cb.journal.endOffset = 0 := rfl
  have hmax' : ¬ maxSequence < sent.length := not_lt.2 hmax
  have hfew' : ¬ Cb.ackEveryBytes ≤ sent.length := not_le.2 hfew
  simp [takeOver, run, step, stepB, Continuity.step, Continuity.init, detachPhysical, detachReturn, Continuity.replace,
    setPipe, hp, replaceAck, ackJournal, hack, replaceState, hend, replaceReplay, replaceFin, replacePublish,
    replaceReturn, read, hne, readWait, physicalRead, readEnd, hmax', hfew', readTail, readReturn, returned, Result.bytes]

end overshoot

/-- **The replay passes its end.** With more than one copy buffer of unacknowledged bytes, a one-byte `Write` during the
replay is delivered twice: `b` returns more bytes than were appended. -/
theorem replay_overshoot : ∃ ops : List LinkOp,
    let s := run production production (init production production) ops
    s.b.reader = .idle ∧ ¬ returned s.b <+: s.a.appended := by
  obtain ⟨m, hm⟩ : ∃ m, m = replayCopyBufferSize := ⟨_, rfl⟩
  obtain ⟨payload, hlen⟩ : ∃ payload : List Byte, payload.length = m + 1 :=
    ⟨List.replicate (m + 1) 0, length_replicate⟩
  have hval : m = 32768 := hm
  have hcap : production.journal.buffer.length = 262144 := length_replicate
  have hmax : m + 3 ≤ maxSequence := by rw [hval]; decide
  -- the two appends of the trace
  obtain ⟨j, hj⟩ := Journal.append_ok production.journal payload rfl (by rw [hcap]; change _ ≤ 262144 - 0; omega)
    (by rw [hlen]; change 0 + (m + 1) ≤ maxSequence; omega)
  obtain ⟨-, hc, hb, -, -, he, -⟩ := Journal.append_spec hj
  have hcap' := (Journal.append_buffer hj).1
  replace hb : j.baseOffset = 0 := hb
  replace he : j.endOffset = m + 1 := by rw [he, hlen]; exact Nat.zero_add _
  have hsize : j.size = m + 1 := by have := (j.inside hc).2.2; omega
  obtain ⟨j', hj'⟩ := Journal.append_ok j [1] hc (by rw [length_singleton]; omega)
    (by rw [length_singleton]; omega)
  obtain ⟨-, hc', hb', -, -, he', -⟩ := Journal.append_spec hj'
  rw [length_singleton, he] at hj' he'
  -- the two chunks it replays: the second one reaches past the captured end `m + 1`
  obtain ⟨chunk, hr⟩ := Journal.replay_ok j 0 m hc (by omega) (by omega)
  obtain ⟨-, -, -, -, hl, -⟩ := Journal.replay_spec hr
  replace hl : chunk.length = m := by omega
  obtain ⟨rest, hr'⟩ := Journal.replay_ok j' m m hc' (by omega) (by omega)
  obtain ⟨-, -, -, -, hl', -⟩ := Journal.replay_spec hr'
  replace hl' : rest.length = 2 := by omega
  rw [hl, Nat.zero_add] at hr
  rw [hl'] at hr'
  have hsent : (chunk ++ (rest ++ [1])).length = m + 3 := by
    simp only [length_append, length_singleton]; omega
  refine ⟨writeThenDetach payload ++ (replayAcrossWrite m 1 ++ takeOver (chunk ++ (rest ++ [1]))), ?_⟩
  have hne : payload ≠ [] := ne_nil_of_length_pos (by omega)
  have h1 := run_writeThenDetach production production hne (by omega)
    (by simpa [Config.journal, Journal.empty] using hj) hb
  have h2 := run_replayAcrossWrite production production hlen hm hc hb he hr hl hj' hr' hl'
  obtain ⟨ha, hidle, hret⟩ := run_takeOver production production
    (resent production production j' payload chunk rest 1).a (resent production production j' payload chunk rest 1).pipe
    (chunk ++ (rest ++ [1])) rfl (ne_nil_of_length_pos (by omega)) (by rw [hsent, hval]; decide) (by omega)
  have hrun : run production production (init production production)
      (writeThenDetach payload ++ (replayAcrossWrite m 1 ++ takeOver (chunk ++ (rest ++ [1])))) =
      run production production (resent production production j' payload chunk rest 1)
        (takeOver (chunk ++ (rest ++ [1]))) := by
    rw [← h2, ← h1]
    simp only [run, Machine.run_append]
  rw [hrun]
  set s' := run production production (resent production production j' payload chunk rest 1)
    (takeOver (chunk ++ (rest ++ [1])))
  replace ha : s'.a.appended = payload ++ [1] := congrArg St.appended ha
  replace hret : returned s'.b = chunk ++ (rest ++ [1]) := hret
  refine ⟨hidle, fun hpre => ?_⟩
  have hle := hpre.length_le
  rw [ha, hret, hsent, length_append, length_singleton] at hle
  omega

end Link

end NeProto.Continuity
