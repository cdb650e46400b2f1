/-
What one resumable stream keeps true of its own sending side, whatever its physical streams do and however its calls
interleave.

- `Sound`: the journal holds the log from its base on, `transmitted` lies inside the log, the call in progress covers the
  end of the log, and a replacement that runs beside an attempt covers its call.
- `Effect` / `step_effect`: what a step can do, with the state it leaves; `Moving`: the steps that move a position.
- `step_sound`: every step keeps it. `step_owned`: what a step leaves alone. `step_transmitted`: `transmitted` only grows.
- `chunkFits`: the side condition the replay loop needs. A replay reads up to the end of the journal as it is *now*; it
  stays below the captured end only if no `Write` has put bytes within reach of the copy buffer since.
- `step_within`: every step that meets the condition keeps a replay below the end it captured.
-/
import NeProto.Lib.Slice
import NeProto.Continuity.ResumableStream

namespace NeProto.Continuity

open List Nat Replacer

/-! ## Calls -/

/-- the payload of the call is the end of the log -/
structure CallOk (l : List Byte) (c : Call) : Prop where
  start_lt : c.start < c.stop
  stop_eq : c.stop = l.length
  payload_eq : c.payload = l.drop c.start

variable {l : List Byte} {c : Call} {n p t : ℕ} {r : Replacer} {s : St} {j : Journal}

theorem CallOk.rest_eq (h : CallOk l c) (ht : c.start ≤ t) : c.rest t = l.drop t := by
  rw [Call.rest, h.payload_eq, drop_drop, Nat.add_sub_cancel' ht]

theorem CallOk.rest_length (h : CallOk l c) (ht : c.start ≤ t) : (c.rest t).length = c.stop - t := by
  rw [h.rest_eq ht, length_drop, h.stop_eq]

/-! ## What the goroutines keep -/

/-- the attempt a writer is in: the call, the physical stream, the offset it began at and the bytes taken or reported -/
def Writer.active : Writer → Option (Call × ℕ × ℕ × ℕ)
  | .call c p t m | .ret c p t m _ => some (c, p, t, m)
  | _ => none

def Writer.Ok (l : List Byte) (transmitted attemptEnd : ℕ) : Writer → Prop
  | .append payload => payload ≠ []
  | .wait c | .blocked c _ | .settle c _ _ | .lost c _ => CallOk l c
  | .attempt c _ t => CallOk l c ∧ c.start ≤ t ∧ t < c.stop
  | .call c _ t m | .ret c _ t m _ =>
    CallOk l c ∧ c.start ≤ t ∧ t < c.stop ∧ t + m ≤ c.stop ∧ (transmitted = t ∨ c.stop ≤ transmitted) ∧
      attemptEnd = c.stop
  | _ => True

/-- the end a replacement has captured -/
def Replacer.stop? : Replacer → Option ℕ
  | .loop _ _ stop _ _ | .write _ _ stop _ _ _ _ | .fin _ _ stop | .closeWrite _ _ stop | .publish _ _ stop _ => some stop
  | _ => none

/-- a `Replace` is running -/
def Replacer.busy : Replacer → Bool
  | .idle | .detach _ => false
  | _ => true

def Replacer.Ok (l : List Byte) (transmitted : ℕ) : Replacer → Prop
  | .ack _ peer _ | .state _ peer _ => peer ≤ transmitted
  | .loop _ _ stop _ _ => transmitted ≤ stop ∧ stop ≤ l.length
  | .write _ _ stop _ off chunk put =>
    transmitted ≤ stop ∧ stop ≤ l.length ∧ put ≤ chunk.length ∧ chunk.length ≤ off ∧ At l (off - chunk.length) chunk
  | .fin _ _ stop | .closeWrite _ _ stop | .publish _ _ stop _ => transmitted ≤ stop ∧ stop ≤ l.length
  | _ => True

theorem Replacer.Ok.grow {m : List Byte} (h : r.Ok l t) : r.Ok (l ++ m) t := by
  cases r with
  | loop | fin | closeWrite | publish => simp only [Replacer.Ok, length_append] at h ⊢; omega
  | write =>
    obtain ⟨h1, h2, h3, h4, h5⟩ := h
    exact ⟨h1, by rw [length_append]; omega, h3, h4, h5.grow m⟩
  | _ => exact h

structure Sound (s : St) : Prop where
  len : s.journal.endOffset = s.appended.length
  held : s.journal.closed = false → s.journal.contents = s.appended.drop s.journal.baseOffset
  sent : s.transmitted ≤ s.appended.length
  writer : s.writer.Ok s.appended s.transmitted s.writeAttemptEnd
  replacer : s.replacer.Ok s.appended s.transmitted
  /-- no physical stream is current while a replacement is prepared -/
  alone : s.replacer.busy = true → s.physical = none
  /-- a replacement that runs beside an attempt covers its call -/
  cover : ∀ c p t m e, s.writer.active = some (c, p, t, m) → s.replacer.stop? = some e → c.stop ≤ e
  /-- an attempt beside a newer stream is covered by what was replayed on it -/
  stale : ∀ c p t m q, s.writer.active = some (c, p, t, m) → s.physical = some q → q ≠ p → c.stop ≤ s.transmitted
  shut : s.closed = true → s.physical = none

theorem init_sound (C : Config) (p : ℕ) : Sound (init C p) where
  len := rfl
  held := fun _ => by simp [init, Config.journal, Journal.empty, Journal.contents, Ring.ringRead]
  sent := le_rfl
  writer := trivial
  replacer := trivial
  alone := nofun
  cover := nofun
  stale := nofun
  shut := nofun

/-- the log never passes the largest offset -/
theorem Sound.len_le (h : Sound s) : s.appended.length ≤ maxSequence := h.len ▸ s.journal.bounded

/-- the facts of the attempt in progress -/
theorem Sound.attempt (h : Sound s) {m : ℕ} (hw : s.writer.active = some (c, p, t, m)) :
    CallOk s.appended c ∧ c.start ≤ t ∧ t < c.stop ∧ t + m ≤ c.stop ∧ (s.transmitted = t ∨ c.stop ≤ s.transmitted) ∧
      s.writeAttemptEnd = c.stop := by
  have hok := h.writer
  cases hs : s.writer <;> rw [hs] at hw hok <;> cases hw <;> exact hok

/-! ## The journal -/

/-- bytes below `max base offset` went, nothing else changed -/
structure Retires (offset : ℕ) (j j' : Journal) : Prop where
  end_eq : j'.endOffset = j.endOffset
  closed_eq : j'.closed = j.closed
  base_le : j.baseOffset ≤ j'.baseOffset
  base_max : j'.baseOffset ≤ max j.baseOffset offset
  contents_eq : j'.contents = j.contents.drop (j'.baseOffset - j.baseOffset)

theorem Retires.refl (offset : ℕ) (j : Journal) : Retires offset j j :=
  ⟨rfl, rfl, le_rfl, le_max_left _ _, by rw [Nat.sub_self, drop_zero]⟩

theorem ackJournal_retires {j' : Journal} {offset : ℕ} {d : Bool} (h : ackJournal j offset d = .ok j') :
    Retires offset j j' := by
  unfold ackJournal at h
  split_ifs at h
  · cases h; exact .refl offset j
  · obtain ⟨hc, hc', hb, -, hb', he, hd⟩ := Journal.ack_spec h
    exact ⟨he, hc'.trans hc.symm, by omega, by omega, by rw [hb']; exact hd⟩

/-- the deferred acknowledgement of a settled attempt -/
theorem settle_retires {o : Outcome}
    (h : (if o.deferredAck ≠ 0 then ackJournal s.journal o.deferredAck true else .ok s.journal) = .ok j) :
    Retires o.deferredAck s.journal j := by
  split_ifs at h
  · exact ackJournal_retires h
  · cases h; exact .refl _ _

/-! ## The accounting of an attempt -/

/-- `transmitted` after the accounting of an attempt: it moves only if the attempt's stream was not replaced -/
def accounted (s : St) (p t n : ℕ) : ℕ :=
  if s.closed = false ∧ (s.physical = some p ∨ s.physical = none) ∧ s.transmitted = t then t + n else s.transmitted

section

variable (h : Sound s)

include h

/-- **The accounting.** No attempt exhausts the offsets, and every attempt was announced. -/
theorem writeEnd_eq {err : Option Err} (hw : s.writer = .ret c p t n err) : writeEnd s = { s with
        transmitted := accounted s p t n, writeAttemptEnd := 0, writeAttemptDone := none, pendingAck := 0
        writer := .settle c p
          { n := n, err := err
            deferredAck := if s.pendingAck ≠ 0 ∧ s.pendingAck ≤ accounted s p t n then s.pendingAck else 0
            attemptDone := s.writeAttemptDone
            invalidDeferredAck := decide (s.pendingAck ≠ 0 ∧ accounted s p t n < s.pendingAck ∧
              (err ≠ none ∨ n ≠ (c.rest t).length))
            transmitted := accounted s p t n, closed := s.closed } } := by
  have hok := h.writer
  rw [hw] at hok
  obtain ⟨hc, h1, h2, h3, -, h6⟩ := hok
  have hmax : t + n ≤ maxSequence := by have := h.len_le; have := hc.stop_eq; omega
  set mine : Bool := !s.closed && (s.physical == some p || s.physical == none) && s.transmitted == t with hmine
  have hm : mine = true ↔ s.closed = false ∧ (s.physical = some p ∨ s.physical = none) ∧ s.transmitted = t := by
    simp [hmine, and_assoc]
  have hx : (mine && decide (n > maxSequence - s.transmitted)) = false := by
    by_contra hn
    rw [Bool.not_eq_false, Bool.and_eq_true, decide_eq_true_eq] at hn
    have := (hm.1 hn.1).2.2
    omega
  have ht : (if (mine && !(mine && decide (n > maxSequence - s.transmitted))) = true then s.transmitted + n
      else s.transmitted) = accounted s p t n := by
    rw [hx, Bool.not_false, Bool.and_true]
    unfold accounted
    by_cases hc' : mine = true
    · rw [if_pos hc', if_pos (hm.1 hc'), (hm.1 hc').2.2]
    · rw [if_neg hc', if_neg fun h => hc' (hm.2 h)]
  unfold writeEnd
  simp only [hw, ← hmine, ht]
  rw [hx, if_pos (by omega)]
  rfl

/-- the accounting never moves `transmitted` back, nor past the call -/
theorem accounted_bounds (hw : s.writer.active = some (c, p, t, n)) :
    s.transmitted ≤ accounted s p t n ∧ accounted s p t n ≤ max s.transmitted c.stop := by
  obtain ⟨-, h1, h2, h3, -⟩ := h.attempt hw
  unfold accounted
  split_ifs with hm
  · exact ⟨by omega, by omega⟩
  · exact ⟨le_rfl, le_max_left _ _⟩

/-- an attempt on the current stream is accounted in full -/
theorem accounted_current (hp : s.physical = some p) (ht : s.transmitted = t) : accounted s p t n = t + n := by
  have hcl : s.closed = false := by
    by_contra hn
    have := h.shut (by simpa using hn)
    rw [hp] at this
    cases this
  exact if_pos ⟨hcl, .inl hp, ht⟩

/-- an attempt that is accounted ends at or before the new `transmitted` -/
theorem accounted_ge (hopen : s.closed = false) (hw : s.writer.active = some (c, p, t, n)) : t + n ≤ accounted s p t n := by
  obtain ⟨-, h1, h2, h3, h4, -⟩ := h.attempt hw
  by_cases hm : s.closed = false ∧ (s.physical = some p ∨ s.physical = none) ∧ s.transmitted = t
  · exact (if_pos hm).ge
  rw [accounted, if_neg hm]
  rcases h4 with rfl | h4
  · -- a newer stream is current, so the replay has covered the call
    cases hp : s.physical with
    | none => exact absurd ⟨hopen, .inr hp, rfl⟩ hm
    | some q =>
      refine h3.trans (h.stale c p _ n q hw hp fun hqp => hm ⟨hopen, .inl ?_, rfl⟩)
      rw [hp, hqp]
  · exact h3.trans h4

end

/-! ## What a step can do -/

/-- the goroutine that makes a step -/
inductive Role where
  | writer
  | reader
  | replacer
  | acker
  | closer

def Op.role : Op → Role
  | .read _ | .readWait | .readWake | .readContext | .physicalRead _ _ | .readEnd | .readNotified _ | .readLost
  | .readTail => .reader
  | .replace _ _ _ | .replaceAck | .replaceState | .replaceReplay | .replayPut _ | .replayWrite _ _ | .replaceFin
  | .replaceCloseWrite _ | .replacePublish | .detachPhysical | .detachDone => .replacer
  | .ack _ | .ackRetire _ => .acker
  | .close | .closeJournal | .callback => .closer
  | _ => .writer

def Result.role : Result → Role
  | .write _ _ | .closeWrite _ => .writer
  | .read _ _ => .reader
  | .replace _ | .detach _ => .replacer
  | .ack _ _ => .acker

/-- at most one call of the role returns -/
def Logs (role : Role) (log log' : List Result) : Prop := log' = log ∨ ∃ r, r.role = role ∧ log' = log ++ [r]

/-- the physical stream and the callbacks owed after a step that may lose the stream -/
inductive Loses (s : St) : Option ℕ → ℕ → Prop where
  | kept : Loses s s.physical s.callbacks
  | lost : Loses s none (s.callbacks + 1)

theorem Loses.physical {physical : Option ℕ} {callbacks : ℕ} (h : Loses s physical callbacks) :
    physical = s.physical ∨ physical = none := by
  cases h with
  | kept => exact .inl rfl
  | lost => exact .inr rfl

/-- the acknowledgement a settled attempt still has to apply -/
def Writer.deferred : Writer → ℕ
  | .settle _ _ o => o.deferredAck
  | _ => 0

/-- a writer moves outside its attempts -/
structure Moves (s : St) (w : Writer) : Prop where
  left : s.writer.active = none
  right : w.active = none
  deferred : w.deferred = 0
  ok : s.writer.Ok s.appended s.transmitted s.writeAttemptEnd →
    w.Ok s.appended s.transmitted s.writeAttemptEnd

/-- a `Write` that returns was outside its attempts -/
theorem Moves.idle (h : s.writer.active = none) : Moves s .idle := ⟨h, rfl, rfl, fun _ => trivial⟩

/-- the steps that move a position in a physical stream -/
inductive Moving (s : St) : Op → St → Prop where
  | enter {c : Call} {p : ℕ} (hw : s.writer = .attempt c p s.transmitted) (hp : s.physical = some p) :
    Moving s .writeAttempt
      { s with writeAttemptEnd := c.stop, writeAttemptDone := some s.attempts, attempts := s.attempts + 1
               writer := .call c p s.transmitted 0 }
  | put {c : Call} {p t m k : ℕ} (hw : s.writer = .call c p t m) (hk : m + k ≤ (c.rest t).length) :
    Moving s (.writePut k) { s with writer := .call c p t (m + k) }
  | ret {c : Call} {p t m n n' : ℕ} {err err' : Option Err} (hw : s.writer = .call c p t m)
    (hle : n' ≤ (c.rest t).length) (hn : n ≤ (c.rest t).length → n' = n) :
    Moving s (.physicalWrite n err) { s with writer := .ret c p t n' err' }
  | account {c : Call} {p t n t' e pending : ℕ} {done : Option ℕ} {err : Option Err} {o : Outcome}
    (hw : s.writer = .ret c p t n err) (ht : Sound s → t' = accounted s p t n) (hp : pending ≤ s.pendingAck)
    (hd : o.deferredAck ≤ s.pendingAck) :
    Moving s .writeEnd
      { s with transmitted := t', writeAttemptEnd := e, writeAttemptDone := done, pendingAck := pending
               writer := .settle c p o }
  | start {q peer recv : ℕ} (hr : s.replacer = .idle) (hp : s.physical = none) (hv : recv ≤ s.receiveOffset)
    (ht : peer ≤ s.transmitted) : Moving s (.replace q peer recv) { s with replacer := .ack q peer recv }
  | replayed {q recv stop room off put k : ℕ} {chunk : List Byte} (hr : s.replacer = .write q recv stop room off chunk put)
    (hk : put + k ≤ chunk.length) :
    Moving s (.replayPut k) { s with replacer := .write q recv stop room off chunk (put + k) }
  | wrote {q recv stop room off put n : ℕ} {chunk : List Byte} (r : Replacer)
    (hr : s.replacer = .write q recv stop room off chunk put) (hn : 0 < n) (hle : n ≤ chunk.length)
    (hx : r = .loop q recv stop room off ∧ n = chunk.length ∨ r = .write q recv stop room off (chunk.drop n) 0) :
    Moving s (.replayWrite n none) { s with replacer := r }
  | publish {q recv stop : ℕ} {localFIN : Bool} (hr : s.replacer = .publish q recv stop localFIN)
    (hc : s.closed = false) (hle : recv ≤ s.receiveOffset) :
    Moving s .replacePublish
      (replaceReturn { s with physical := some q, transmitted := stop, finTransmitted := localFIN
                              discard := s.receiveOffset - recv } none)

/-- every step, with the state it leaves -/
inductive Effect (s : St) : Op → St → Prop where
  | none {o : Op} : Effect s o s
  | moves {o : Op} {s' : St} (h : Moving s o s') : Effect s o s'
  | turn {o : Op} {w : Writer} {physical : Option ℕ} {callbacks : ℕ} {localFIN finTransmitted : Bool} {log : List Result}
    (ho : o.role = .writer) (hm : Moves s w) (hp : Loses s physical callbacks) (hl : Logs .writer s.log log) :
    Effect s o { s with writer := w, physical := physical, callbacks := callbacks, localFIN := localFIN
                        finTransmitted := finTransmitted, log := log }
  | append {payload : List Byte} {start stop : ℕ} {j : Journal} (hw : s.writer = .append payload)
    (hj : s.journal.append payload = .ok (start, stop, j)) :
    Effect s .writeAppend
      { s with journal := j, writer := .wait ⟨payload, start, stop⟩, appended := s.appended ++ payload }
  | settle {c : Call} {p n : ℕ} {o : Outcome} {j : Journal} {w : Writer} {log : List Result} (hw : s.writer = .settle c p o)
    (hj : Retires o.deferredAck s.journal j) (hx : w = .idle ∨ w = .wait c ∨ w = .lost c p) (hl : Logs .writer s.log log) :
    Effect s .writeSettle { s with journal := j, settled := n, writer := w, log := log }
  | reads {o : Op} {r : Reader} {physical : Option ℕ} {callbacks receiveOffset lastNotified discard : ℕ}
    {finTransmitted : Bool} {log : List Result} (ho : o.role = .reader) (hp : Loses s physical callbacks)
    (hv : receiveOffset = s.receiveOffset ∨ o = .readEnd ∧ s.receiveOffset ≤ receiveOffset)
    (hl : Logs .reader s.log log) :
    Effect s o { s with reader := r, physical := physical, callbacks := callbacks, receiveOffset := receiveOffset
                        lastNotified := lastNotified, discard := discard, finTransmitted := finTransmitted, log := log }
  | failed {o : Op} {e : Err} (ho : o.role = .replacer) : Effect s o (replaceReturn s (some e))
  | acked {q peer recv : ℕ} {j : Journal} (hr : s.replacer = .ack q peer recv) (hj : Retires peer s.journal j) :
    Effect s .replaceAck { s with journal := j, replacer := .state q peer recv }
  | captured {q peer recv : ℕ} (hr : s.replacer = .state q peer recv) :
    Effect s .replaceState
      { s with replacer := .loop q recv s.journal.endOffset (min replayCopyBufferSize (max 1 s.journal.size)) peer }
  | chunk {q recv stop room off following : ℕ} {chunk : List Byte} (hr : s.replacer = .loop q recv stop room off)
    (hlt : off < stop) (hj : s.journal.replay off room = .ok (chunk, following)) :
    Effect s .replaceReplay { s with replacer := .write q recv stop room following chunk 0 }
  | drained {q recv stop room off : ℕ} (hr : s.replacer = .loop q recv stop room off) (hle : stop ≤ off) :
    Effect s .replaceReplay { s with replacer := .fin q recv stop }
  | finish {o : Op} {q recv stop : ℕ} {r : Replacer} (ho : o.role = .replacer)
    (hr : s.replacer = .fin q recv stop ∨ s.replacer = .closeWrite q recv stop)
    (hx : r = .closeWrite q recv stop ∨ ∃ localFIN, r = .publish q recv stop localFIN) : Effect s o { s with replacer := r }
  | detach {o : Op} {r : Replacer} {physical : Option ℕ} {log : List Result} (ho : o = .detachPhysical ∨ o = .detachDone)
    (hr : r.busy = false) (hp : physical = s.physical ∨ o = .detachPhysical ∧ physical = Option.none)
    (hl : log = s.log ∨ ∃ err, (∀ e, err = some e → e = .resumableClosed ∧ s.closed = true) ∧ log = s.log ++ [.detach err]) :
    Effect s o { s with replacer := r, physical := physical, log := log }
  | ack {k pending : ℕ} {ackers : List ℕ} {log : List Result} (ha : ackers = s.ackers ∨ ackers = s.ackers ++ [k])
    (hp : pending = s.pendingAck ∨ pending = max s.pendingAck k) (hl : Logs .acker s.log log) :
    Effect s (.ack k) { s with ackers := ackers, pendingAck := pending, log := log }
  | retire {i k : ℕ} {j : Journal} {log : List Result} (hk : s.ackers[i]? = some k) (hj : Retires k s.journal j)
    (hl : Logs .acker s.log log) :
    Effect s (.ackRetire i) { s with journal := j, ackers := s.ackers.eraseIdx i, log := log }
  | close : Effect s .close { s with closed := true, physical := Option.none }
  | closeJournal (hc : s.closed = true) : Effect s .closeJournal { s with journal := s.journal.close }
  | callback : Effect s .callback { s with callbacks := s.callbacks - 1 }

/-- the calls of `Write` and `CloseWrite` that return -/
theorem Effect.returns {o : Op} {r : Result} (ho : o.role = .writer) (hw : s.writer.active = Option.none)
    (hr : r.role = .writer) : Effect s o { s with writer := .idle, log := s.log ++ [r] } :=
  .turn ho (.idle hw) .kept (.inr ⟨r, hr, rfl⟩)

/-- a writer goes on outside its attempts -/
theorem Effect.goes {o : Op} {w : Writer} (ho : o.role = .writer) (hm : Moves s w) : Effect s o { s with writer := w } :=
  .turn ho hm .kept (.inl rfl)

theorem markUnavailable_eq (s : St) (p : ℕ) : ∃ physical callbacks finTransmitted, Loses s physical callbacks ∧
    markUnavailable s p = { s with physical := physical, callbacks := callbacks, finTransmitted := finTransmitted } := by
  unfold markUnavailable
  split
  · exact ⟨_, _, s.finTransmitted, .kept, rfl⟩
  · exact ⟨_, _, _, .lost, rfl⟩

theorem closeDone_eq (s : St) (done : Option ℕ) : ∃ n, closeDone s done = { s with settled := n } := by
  cases done
  · exact ⟨s.settled, rfl⟩
  · exact ⟨_, rfl⟩

theorem write_effect (s : St) (payload : List Byte) : Effect s (.write payload) (writeCheck s payload) := by
  unfold writeCheck
  split
  · exact .none
  rename_i h
  rw [not_or, not_not] at h
  have hl : s.writer.active = none := by rw [h.1]; rfl
  split_ifs
  · exact .returns rfl hl rfl
  · exact .returns rfl hl rfl
  · exact .goes rfl ⟨hl, rfl, rfl, fun _ => h.2⟩

theorem writeAppend_effect (s : St) : Effect s .writeAppend (writeAppend s) := by
  unfold writeAppend
  split
  · rename_i payload hw
    split
    · exact .returns rfl (hw ▸ rfl) rfl
    · exact .append hw ‹_›
  · exact .none

theorem writeWait_effect (s : St) : Effect s .writeWait (writeWait s) := by
  unfold writeWait
  cases hw : s.writer with
  | wait c =>
    have hl : s.writer.active = none := by rw [hw]; rfl
    have hok : s.writer.Ok s.appended s.transmitted s.writeAttemptEnd → CallOk s.appended c := by rw [hw]; exact id
    simp only
    split
    · exact .returns rfl hl rfl
    split
    · exact .goes rfl ⟨hl, rfl, rfl, hok⟩
    split
    · exact .returns rfl hl rfl
    split
    · exact .returns rfl hl rfl
    · exact .goes rfl ⟨hl, rfl, rfl, fun h => ⟨hok h, by omega, by omega⟩⟩
  | finWait =>
    have hl : s.writer.active = none := by rw [hw]; rfl
    simp only
    split
    · exact .returns rfl hl rfl
    split
    · exact .goes rfl ⟨hl, rfl, rfl, fun _ => trivial⟩
    split
    · exact .returns rfl hl rfl
    · exact .goes rfl ⟨hl, rfl, rfl, fun _ => trivial⟩
  | _ => exact .none

theorem writeAttempt_effect (s : St) : Effect s .writeAttempt (writeAttempt s) := by
  unfold writeAttempt
  split
  · rename_i c p t hw
    have hl : s.writer.active = none := by rw [hw]; rfl
    split_ifs with hcl hcur
    · exact .returns rfl hl rfl
    · exact .goes rfl ⟨hl, rfl, rfl, fun h => by rw [hw] at h; exact h.1⟩
    rw [not_or, not_not, not_not] at hcur
    obtain ⟨hp, rfl⟩ := hcur
    exact .moves (.enter hw hp)
  · exact .none

theorem physicalWrite_effect (s : St) (n : ℕ) (err : Option Err) :
    Effect s (.physicalWrite n err) (physicalWrite s n err) := by
  unfold physicalWrite
  split
  · rename_i c p t m hw
    split_ifs with hn
    · exact .moves (.ret hw (zero_le _) fun hle => absurd hle (not_le.2 hn))
    · exact .moves (.ret hw (not_lt.1 hn) fun _ => rfl)
  · exact .none

theorem writeEnd_effect (s : St) : Effect s .writeEnd (writeEnd s) := by
  cases hw : s.writer with
  | ret c p t n err =>
    by_cases h : Sound s
    · rw [writeEnd_eq h hw]
      refine .moves (.account hw (fun _ => rfl) (zero_le _) ?_)
      split_ifs
      · exact le_rfl
      · exact zero_le _
    unfold writeEnd
    simp only [hw]
    split
    · refine .moves (.account hw (fun hs => absurd hs h) (zero_le _) ?_)
      split_ifs <;> first | exact le_rfl | exact zero_le _
    · exact .moves (.account hw (fun hs => absurd hs h) le_rfl (zero_le _))
  | _ => unfold writeEnd; simp only [hw]; exact .none

theorem writeSettle_effect (C : Config) (s : St) : Effect s .writeSettle (writeSettle C s) := by
  unfold writeSettle
  split
  · rename_i c p o hw
    split
    · obtain ⟨n, hn⟩ := closeDone_eq s o.attemptDone
      rw [hn]
      exact .settle hw (.refl _ _) (.inl rfl) (.inr ⟨_, rfl, rfl⟩)
    rename_i j hj
    have hret := settle_retires hj
    obtain ⟨n, hn⟩ := closeDone_eq { s with journal := j } o.attemptDone
    simp only [hn]
    split_ifs
    · exact .settle hw hret (.inl rfl) (.inr ⟨_, rfl, rfl⟩)
    · exact .settle hw hret (.inl rfl) (.inr ⟨_, rfl, rfl⟩)
    · exact .settle hw hret (.inl rfl) (.inr ⟨_, rfl, rfl⟩)
    · exact .settle hw hret (.inr (.inr rfl)) (.inl rfl)
    · exact .settle hw hret (.inl rfl) (.inr ⟨_, rfl, rfl⟩)
    · exact .settle hw hret (.inr (.inl rfl)) (.inl rfl)
  · exact .none

theorem writeLost_effect (s : St) : Effect s .writeLost (writeLost s) := by
  unfold writeLost
  cases hw : s.writer with
  | lost c p =>
    obtain ⟨physical, callbacks, fin, hp, hm⟩ := markUnavailable_eq s p
    simp only [hm]
    exact .turn rfl ⟨hw ▸ rfl, rfl, rfl, fun h => by rw [hw] at h; exact h⟩ hp (.inl rfl)
  | finLost p =>
    obtain ⟨physical, callbacks, fin, hp, hm⟩ := markUnavailable_eq s p
    simp only [hm]
    exact .turn rfl ⟨hw ▸ rfl, rfl, rfl, fun _ => trivial⟩ hp (.inl rfl)
  | _ => exact .none

theorem closeWrite_effect (s : St) : Effect s .closeWrite (closeWrite s) := by
  unfold closeWrite
  split
  · exact .none
  rename_i h
  have hl : s.writer.active = none := by rw [not_not.1 h]; rfl
  split_ifs
  · exact .returns rfl hl rfl
  · exact .returns rfl hl rfl
  · exact .turn rfl ⟨hl, rfl, rfl, fun _ => trivial⟩ .kept (.inl rfl)

theorem finMark_effect (s : St) : Effect s .finMark (finMark s) := by
  unfold finMark
  split
  · rename_i p hw
    split_ifs
    · exact .turn rfl (.idle (hw ▸ rfl)) .kept (.inr ⟨_, rfl, rfl⟩)
    · exact .returns rfl (hw ▸ rfl) rfl
  · exact .none

theorem readLost_effect (s : St) : Effect s .readLost (readLost s) := by
  unfold readLost
  split
  · obtain ⟨physical, callbacks, fin, hp, hm⟩ := markUnavailable_eq s ‹ℕ›
    rw [hm]
    exact .reads rfl hp (.inl rfl) (.inl rfl)
  · obtain ⟨physical, callbacks, fin, hp, hm⟩ := markUnavailable_eq s ‹ℕ›
    rw [hm]
    exact .reads rfl hp (.inl rfl) (.inl rfl)
  · exact .none

theorem readTail_effect (C : Config) (s : St) : Effect s .readTail (readTail C s) := by
  unfold readTail
  split
  · rename_i len p data err hr
    obtain ⟨physical, callbacks, fin, hp, hm⟩ := markUnavailable_eq s p
    simp only [hm]
    repeat' split
    · exact .reads rfl hp (.inl rfl) (.inr ⟨_, rfl, rfl⟩)
    · exact .reads rfl hp (.inl rfl) (.inl rfl)
    · exact .reads rfl .kept (.inl rfl) (.inr ⟨_, rfl, rfl⟩)
    · exact .reads rfl .kept (.inl rfl) (.inr ⟨_, rfl, rfl⟩)
    · exact .reads rfl .kept (.inl rfl) (.inr ⟨_, rfl, rfl⟩)
    · exact .reads rfl .kept (.inl rfl) (.inl rfl)
  · exact .none

theorem replace_effect (s : St) (q peer recv : ℕ) : Effect s (.replace q peer recv) (replace s q peer recv) := by
  unfold replace
  split_ifs with hi hc hb
  · exact .none
  · exact .failed rfl
  · exact .failed rfl
  · simp only [not_or, not_not, not_lt] at hb hi
    exact .moves (.start hi hb.1 hb.2.1 hb.2.2)

theorem replaceReplay_effect (s : St) : Effect s .replaceReplay (replaceReplay s) := by
  unfold replaceReplay
  split
  · rename_i q recv stop room off hr
    split_ifs with hlt
    · split
      · exact .failed rfl
      split_ifs
      · exact .failed rfl
      · exact .chunk hr hlt ‹_›
    · exact .drained hr (not_lt.1 hlt)
  · exact .none

theorem replayWrite_effect (s : St) (n : ℕ) (err : Option Err) : Effect s (.replayWrite n err) (replayWrite s n err) := by
  unfold replayWrite
  split
  · rename_i q recv stop room off chunk put hr
    split
    · exact .failed rfl
    rename_i hle
    split
    · exact .failed rfl
    split
    · exact .failed rfl
    rename_i h0
    have hpos := pos_of_ne_zero h0
    split
    · exact .moves (.wrote _ hr hpos (not_lt.1 hle) (.inl ⟨rfl, ‹_›⟩))
    · exact .moves (.wrote _ hr hpos (not_lt.1 hle) (.inr rfl))
  · exact .none

theorem replacePublish_effect (s : St) : Effect s .replacePublish (replacePublish s) := by
  unfold replacePublish
  split
  · rename_i q recv stop localFIN hr
    split_ifs with hc
    · exact .failed rfl
    · simp only [not_or, not_lt, Bool.not_eq_true] at hc
      exact .moves (.publish hr hc.1 hc.2.2)
  · exact .none

theorem detachPhysical_effect (s : St) : Effect s .detachPhysical (detachPhysical s) := by
  unfold detachPhysical
  split
  · exact .none
  split
  · exact .detach (.inl rfl) rfl (.inl rfl) (.inr ⟨_, fun e he => ⟨(Option.some.inj he).symm, ‹_›⟩, rfl⟩)
  split
  · exact .detach (.inl rfl) rfl (.inr ⟨rfl, rfl⟩) (.inr ⟨_, (fun _ he => by cases he), rfl⟩)
  · exact .detach (.inl rfl) rfl (.inr ⟨rfl, rfl⟩) (.inl rfl)

theorem ack_effect (s : St) (k : ℕ) : Effect s (.ack k) (ack s k) := by
  unfold ack
  split_ifs
  · exact .ack (.inl rfl) (.inl rfl) (.inr ⟨_, rfl, rfl⟩)
  · exact .ack (.inl rfl) (.inr rfl) (.inr ⟨_, rfl, rfl⟩)
  · exact .ack (.inl rfl) (.inl rfl) (.inr ⟨_, rfl, rfl⟩)
  · exact .ack (.inr rfl) (.inl rfl) (.inl rfl)

theorem ackRetire_effect (s : St) (i : ℕ) : Effect s (.ackRetire i) (ackRetire s i) := by
  unfold ackRetire
  split
  · exact .none
  split
  · exact .retire ‹_› (.refl _ _) (.inr ⟨_, rfl, rfl⟩)
  · exact .retire ‹_› (ackJournal_retires ‹_›) (.inr ⟨_, rfl, rfl⟩)

/-- **Inversion.** -/
theorem step_effect (C : Config) (s : St) (o : Op) : Effect s o (step C s o) := by
  cases o with
  | write payload => exact write_effect s payload
  | writeAppend => exact writeAppend_effect s
  | writeWait => exact writeWait_effect s
  | writeAttempt => exact writeAttempt_effect s
  | physicalWrite n err => exact physicalWrite_effect s n err
  | writeEnd => exact writeEnd_effect s
  | writeSettle => exact writeSettle_effect C s
  | writeLost => exact writeLost_effect s
  | closeWrite => exact closeWrite_effect s
  | finMark => exact finMark_effect s
  | readLost => exact readLost_effect s
  | readTail => exact readTail_effect C s
  | replace q peer recv => exact replace_effect s q peer recv
  | replaceReplay => exact replaceReplay_effect s
  | replayWrite n err => exact replayWrite_effect s n err
  | replacePublish => exact replacePublish_effect s
  | detachPhysical => exact detachPhysical_effect s
  | ack k => exact ack_effect s k
  | ackRetire i => exact ackRetire_effect s i
  | close => exact .close
  | callback => exact .callback
  | writePut k =>
    simp only [step, writePut]
    repeat' split
    · exact .moves (.put ‹_› ‹_›)
    · exact .none
    · exact .none
  | replayPut k =>
    simp only [step, replayPut]
    repeat' split
    · exact .moves (.replayed ‹_› ‹_›)
    · exact .none
    · exact .none
  | replaceAck =>
    simp only [step, replaceAck]
    repeat' split
    · exact .failed rfl
    · exact .acked ‹_› (ackJournal_retires ‹_›)
    · exact .none
  | replaceState =>
    simp only [step, replaceState]
    split
    · exact .captured ‹_›
    · exact .none
  | detachDone =>
    simp only [step, detachDone]
    repeat' split
    · exact .detach (.inr rfl) rfl (.inl rfl) (.inr ⟨_, (fun _ he => by cases he), rfl⟩)
    · exact .none
    · exact .none
  | closeJournal =>
    simp only [step, closeJournal]
    split
    · exact .closeJournal ‹_›
    · exact .none
  | writeWake | writeContext | finCheck | physicalCloseWrite =>
    -- a call that waits goes on or gives up
    simp only [step, writeWake, writeContext, finCheck, physicalCloseWrite]
    repeat' split
    all_goals first
      | exact .none
      | exact .returns rfl (by rw [‹s.writer = _›]; rfl) rfl
      | exact .goes rfl ⟨by rw [‹s.writer = _›]; rfl, rfl, rfl, fun _ => trivial⟩
      | exact .goes rfl ⟨by rw [‹s.writer = _›]; rfl, rfl, rfl, fun h => by rw [‹s.writer = _›] at h; exact h⟩
  | replaceFin | replaceCloseWrite =>
    simp only [step, replaceFin, replaceCloseWrite]
    repeat' split
    all_goals first
      | exact .none
      | exact .failed rfl
      | exact .finish rfl (.inl ‹_›) (.inl rfl)
      | exact .finish rfl (.inl ‹_›) (.inr ⟨_, rfl⟩)
      | exact .finish rfl (.inr ‹_›) (.inr ⟨_, rfl⟩)
  | read | readWait | readWake | readContext | physicalRead | readEnd | readNotified =>
    simp only [step, read, readWait, readWake, readContext, physicalRead, readEnd, readNotified]
    repeat' split
    all_goals first
      | exact .none
      | exact .reads rfl .kept (.inl rfl) (.inl rfl)
      | exact .reads rfl .kept (.inl rfl) (.inr ⟨_, rfl, rfl⟩)
      | exact .reads rfl .kept (.inr ⟨rfl, le_add_right _ _⟩) (.inl rfl)

/-! ## Every step keeps the sending side sound -/

theorem Replacer.Ok.raise {t' : ℕ} (h : r.Ok l t) (ht : t ≤ t') (hs : ∀ e, r.stop? = some e → t' ≤ e) : r.Ok l t' := by
  cases r with
  | ack | state => exact h.trans ht
  | loop | write | fin | closeWrite | publish => exact ⟨hs _ rfl, h.2⟩
  | _ => trivial

theorem Replacer.Ok.stop_ge {e : ℕ} (h : r.Ok l t) (hs : r.stop? = some e) : t ≤ e ∧ e ≤ l.length := by
  cases r with
  | loop | fin | closeWrite | publish => cases hs; exact h
  | write => cases hs; exact ⟨h.1, h.2.1⟩
  | _ => cases hs

/-- no replacement is running -/
theorem Replacer.rest (h : r.busy = false) : r = .idle ∨ ∃ i, r = .detach i := by
  cases r with
  | idle => exact .inl rfl
  | detach i => exact .inr ⟨i, rfl⟩
  | _ => cases h

section

variable (h : Sound s)

include h

/-- the physical stream goes -/
theorem Sound.unplug : Sound { s with physical := none } :=
  { h with alone := fun _ => rfl, stale := nofun, shut := fun _ => rfl }

theorem Sound.lose {physical : Option ℕ} {callbacks : ℕ} (hp : Loses s physical callbacks) :
    Sound { s with physical := physical } := by
  cases hp with
  | kept => exact h
  | lost => exact h.unplug

theorem Sound.retire {offset : ℕ} (r : Retires offset s.journal j) : Sound { s with journal := j } :=
  { h with
    len := r.end_eq.trans h.len
    held := fun hc => by
      rw [r.contents_eq, h.held (r.closed_eq ▸ hc), drop_drop, Nat.add_sub_cancel' r.base_le] }

theorem Sound.setReplacer (r : Replacer) (ok : r.Ok s.appended s.transmitted) (alone : r.busy = true → s.physical = none)
    (cover : ∀ c p t m e, s.writer.active = some (c, p, t, m) → r.stop? = some e → c.stop ≤ e) :
    Sound { s with replacer := r } :=
  { h with replacer := ok, alone := alone, cover := cover }

/-- a replacement that returns -/
theorem Sound.rest (hr : r.busy = false) : Sound { s with replacer := r } := by
  refine h.setReplacer r ?_ (fun hb => by rw [hr] at hb; cases hb) fun c p t m e _ he => ?_
  · rcases Replacer.rest hr with rfl | ⟨i, rfl⟩ <;> trivial
  · rcases Replacer.rest hr with rfl | ⟨i, rfl⟩ <;> cases he

/-- the next point of a replacement that has captured its end -/
theorem Sound.advance (r : Replacer) (ok : r.Ok s.appended s.transmitted)
    (hb : s.replacer.busy = true) (hs : r.stop? = s.replacer.stop?) : Sound { s with replacer := r } :=
  h.setReplacer r ok (fun _ => h.alone hb) (fun c p t m e hw hr => h.cover c p t m e hw (hs ▸ hr))

/-- the writer leaves its attempt or moves outside of one -/
theorem Sound.setWriter (w : Writer) (hw : w.active = none)
    (ok : w.Ok s.appended s.transmitted s.writeAttemptEnd) : Sound { s with writer := w } :=
  { h with
    writer := ok
    cover := fun c p t m e hc => by rw [hw] at hc; cases hc
    stale := fun c p t m q hc => by rw [hw] at hc; cases hc }

/-- the attempt in progress goes on or returns -/
theorem Sound.attempting (hact : s.writer.active = some (c, p, t, n)) {m : ℕ} {w : Writer}
    (hw : w.active = some (c, p, t, m)) (ok : w.Ok s.appended s.transmitted s.writeAttemptEnd) :
    Sound { s with writer := w } :=
  { h with
    writer := ok
    cover := fun c' p' t' m' e hw' hr => by cases hw.symm.trans hw'; exact h.cover c p t n e hact hr
    stale := fun c' p' t' m' q hw' => by cases hw.symm.trans hw'; exact h.stale c p t n q hact }

theorem Moving.sound {o : Op} {s' : St} (hm : Moving s o s') : Sound s' := by
  cases hm with
  | @enter c p hw hp =>
    obtain ⟨hc, h1, h2⟩ : CallOk s.appended c ∧ _ := by have := h.writer; rw [hw] at this; exact this
    refine { h with
      writer := ⟨hc, h1, h2, h2.le, .inl rfl, rfl⟩
      cover := fun c' p' t' m e hw' hr => ?_
      stale := fun c' p' t' m q hw' hq hne => by cases hw'; exact absurd (Option.some.inj (hq.symm.trans hp)) hne }
    -- a replacement has no physical stream beside it
    have : s.replacer.busy = true := by
      cases hrep : s.replacer <;> simp only [hrep, stop?] at hr <;> first | rfl | cases hr
    exact absurd (h.alone this) (by rw [hp]; simp)
  | put hw hk =>
    obtain ⟨hc, h1, h2, h3, h4⟩ := h.attempt (congrArg Writer.active hw)
    rw [hc.rest_length h1] at hk
    exact h.attempting (congrArg Writer.active hw) rfl ⟨hc, h1, h2, by omega, h4⟩
  | ret hw hle =>
    obtain ⟨hc, h1, h2, h3, h4⟩ := h.attempt (congrArg Writer.active hw)
    rw [hc.rest_length h1] at hle
    exact h.attempting (congrArg Writer.active hw) rfl ⟨hc, h1, h2, by omega, h4⟩
  | @account c p t n t' e pending done err o hw ht =>
    have hact : s.writer.active = some (c, p, t, n) := by rw [hw]; rfl
    have hc := (h.attempt hact).1
    obtain ⟨hlo, hhi⟩ := accounted_bounds h hact
    rw [← ht h] at hlo hhi
    have hlen := h.sent
    refine { h with
      sent := by have := hc.stop_eq; change t' ≤ s.appended.length; omega
      writer := hc
      replacer := h.replacer.raise hlo fun e he => ?_
      cover := nofun
      stale := nofun }
    have := h.cover c p t n e hact he
    have := (h.replacer.stop_ge he).1
    exact hhi.trans (max_le ‹_› ‹_›)
  | start hr hp hv ht => exact h.setReplacer _ ht (fun _ => hp) nofun
  | replayed hr hk =>
    have hok := h.replacer
    rw [hr] at hok
    exact h.advance _ ⟨hok.1, hok.2.1, hk, hok.2.2.2⟩ (hr ▸ rfl) (hr ▸ rfl)
  | @wrote q recv stop room off put n chunk r hr hn hle hx =>
    have hok := h.replacer
    rw [hr] at hok
    obtain ⟨h1, h2, h3, h4, h5⟩ := hok
    rcases hx with ⟨rfl, -⟩ | rfl
    · exact h.advance _ ⟨h1, h2⟩ (hr ▸ rfl) (hr ▸ rfl)
    -- the rest of the chunk still ends at `off`
    have hlen : (chunk.drop n).length = chunk.length - n := length_drop
    refine h.advance _ ⟨h1, h2, zero_le _, by omega, ?_⟩ (hr ▸ rfl) (hr ▸ rfl)
    have := h5.drop n hle
    rwa [show off - (chunk.drop n).length = off - chunk.length + n by omega]
  | @publish q recv stop localFIN hr hc hle =>
    have hok := h.replacer
    rw [hr] at hok
    refine { len := h.len, held := h.held, sent := hok.2, writer := ?_, replacer := trivial,
             alone := nofun, cover := nofun,
             stale := fun c p t m q hw _ _ => h.cover c p t m stop hw (hr ▸ rfl),
             shut := fun hx => by cases hc.symm.trans hx }
    -- an attempt on an older stream is covered by what was replayed
    have hw := h.writer
    cases hs : s.writer with
    | call c p t m | ret c p t m =>
      have hcov := h.cover c p t m stop (hs ▸ rfl) (hr ▸ rfl)
      rw [hs] at hw
      exact ⟨hw.1, hw.2.1, hw.2.2.1, hw.2.2.2.1, .inr hcov, hw.2.2.2.2.2⟩
    | _ => rw [hs] at hw; exact hw

theorem Effect.sound {o : Op} {s' : St} (he : Effect s o s') : Sound s' := by
  have hok := h.replacer
  cases he with
  | none => exact h
  | moves hm => exact hm.sound h
  | turn ho hm hp hl => exact { (h.lose hp).setWriter _ hm.right (hm.ok h.writer) with }
  | @append payload start stop j hw hj =>
    have hne : payload ≠ [] := by have := h.writer; rw [hw] at this; exact this
    obtain ⟨hc, hc', hb, rfl, rfl, he, hd⟩ := Journal.append_spec hj
    have hlen := h.len
    have hbase := s.journal.ordered
    refine { len := ?_, held := ?_, sent := ?_, writer := ?_, replacer := hok.grow, alone := h.alone,
             cover := nofun, stale := nofun, shut := h.shut }
    · rw [he, length_append, hlen]
    · intro _
      rw [hd, h.held hc, hb, drop_append_of_le_length (by omega)]
    · exact h.sent.trans (by simp)
    · refine ⟨?_, by simp only [length_append]; omega, ?_⟩
      · have := length_pos_iff.2 hne
        simp only; omega
      · simp only [hlen, drop_left]
  | @settle c p n o j w log hw hj hx =>
    have hc : CallOk s.appended c := by have := h.writer; rw [hw] at this; exact this
    rcases hx with rfl | rfl | rfl
    · exact { (h.retire hj).setWriter .idle rfl trivial with }
    · exact { (h.retire hj).setWriter (.wait c) rfl hc with }
    · exact { (h.retire hj).setWriter (.lost c p) rfl hc with }
  | reads ho hp => exact { h.lose hp with }
  | failed => exact { h.rest (r := .idle) rfl with }
  | acked hr hj =>
    rw [hr] at hok
    exact (h.retire hj).advance _ hok (hr ▸ rfl) (by simp only [hr]; rfl)
  | captured hr =>
    have hlen := h.len
    have hsent := h.sent
    refine h.setReplacer _ ⟨by omega, by omega⟩ (fun _ => h.alone (hr ▸ rfl)) fun c p t m e hw he => ?_
    -- the call in progress covers the end of the log, and so does the replay
    cases he
    exact ((h.attempt hw).1.stop_eq.trans hlen.symm).le
  | chunk hr hlt hj =>
    rw [hr] at hok
    obtain ⟨hc, hbase, hend, rfl, hlen, hbytes⟩ := Journal.replay_spec hj
    refine h.advance _ ⟨hok.1, hok.2, Nat.zero_le _, by omega, ?_⟩ (hr ▸ rfl) (hr ▸ rfl)
    rw [Nat.add_sub_cancel, hbytes, h.held hc, drop_drop, Nat.add_sub_cancel' hbase]
    exact (at_self _ _).take _
  | drained hr =>
    rw [hr] at hok
    exact h.advance _ hok (hr ▸ rfl) (hr ▸ rfl)
  | finish ho hr hx =>
    rcases hr with hr | hr <;> rw [hr] at hok <;> rcases hx with rfl | ⟨localFIN, rfl⟩ <;>
      exact h.advance _ hok (hr ▸ rfl) (hr ▸ rfl)
  | detach ho hr hp =>
    rcases hp with rfl | ⟨-, rfl⟩
    · exact { h.rest hr with }
    · exact { h.unplug.rest hr with }
  | ack | callback => exact { h with }
  | retire hk hj => exact { h.retire hj with }
  | close => exact { h.unplug with shut := fun _ => rfl }
  | closeJournal =>
    refine { h with len := ?_, held := fun hc => ?_ }
    · rw [Journal.close_end]; exact h.len
    · rw [Journal.close_closed] at hc; cases hc

end

theorem step_sound (C : Config) (h : Sound s) (o : Op) : Sound (step C s o) := (step_effect C s o).sound h

/-! ## What a step leaves alone -/

/-- each part of the state belongs to one goroutine -/
structure Owned (s : St) (o : Op) (s' : St) : Prop where
  closed : s.closed = true → s'.closed = true := by exact id
  writer : o.role ≠ .writer → s'.writer = s.writer := by exact fun _ => rfl
  reader : o.role ≠ .reader → s'.reader = s.reader := by exact fun _ => rfl
  replacer : o.role ≠ .replacer → s'.replacer = s.replacer := by exact fun _ => rfl
  ackers : o.role ≠ .acker → s'.ackers = s.ackers := by exact fun _ => rfl
  appended : s.appended <+: s'.appended := by exact List.prefix_refl _
  receiveOffset : s'.receiveOffset = s.receiveOffset ∨ o = .readEnd ∧ s.receiveOffset ≤ s'.receiveOffset := by exact .inl rfl
  log : Logs o.role s.log s'.log := by exact .inl rfl

theorem Moving.owned {o : Op} {s' : St} (hm : Moving s o s') : Owned s o s' := by
  cases hm with
  | enter | put | ret | account => exact { writer := fun hx => absurd rfl hx }
  | start | replayed | wrote => exact { replacer := fun hx => absurd rfl hx }
  | publish => exact { replacer := fun hx => absurd rfl hx, log := .inr ⟨_, rfl, rfl⟩ }

theorem step_owned (C : Config) (s : St) (o : Op) : Owned s o (step C s o) := by
  have he := step_effect C s o
  generalize step C s o = s' at he
  cases he with
  | none | callback | closeJournal => exact {}
  | moves hm => exact hm.owned
  | turn ho _ _ hl => exact { writer := fun hx => absurd ho hx, log := ho ▸ hl }
  | append => exact { writer := fun hx => absurd rfl hx, appended := prefix_append _ _ }
  | settle _ _ _ hl => exact { writer := fun hx => absurd rfl hx, log := hl }
  | reads ho _ hv hl => exact { reader := fun hx => absurd ho hx, receiveOffset := hv, log := ho ▸ hl }
  | failed ho => exact { replacer := fun hx => absurd ho hx, log := .inr ⟨.replace _, ho.symm, rfl⟩ }
  | acked | captured | chunk | drained => exact { replacer := fun hx => absurd rfl hx }
  | finish ho => exact { replacer := fun hx => absurd ho hx }
  | detach ho _ _ hl =>
    have hrole : o.role = .replacer := by rcases ho with rfl | rfl <;> rfl
    refine { replacer := fun hx => absurd hrole hx, log := hl.imp_right ?_ }
    rintro ⟨e, -, hl⟩
    exact ⟨.detach e, hrole.symm, hl⟩
  | ack _ _ hl | retire _ _ hl => exact { ackers := fun hx => absurd rfl hx, log := hl }
  | close => exact { closed := fun _ => rfl }

/-- `transmitted` only grows -/
theorem step_transmitted (C : Config) (h : Sound s) (o : Op) : s.transmitted ≤ (step C s o).transmitted := by
  have he := step_effect C s o
  generalize step C s o = s' at he
  cases he with
  | moves hm =>
    cases hm with
    | account hw ht => exact (accounted_bounds h (congrArg Writer.active hw)).1.trans_eq (ht h).symm
    | publish hr =>
      have hok := h.replacer
      rw [hr] at hok
      exact hok.1
    | _ => exact le_rfl
  | _ => exact le_rfl

/-- the next chunk of a replay ends at or before the end the replacement captured -/
def Replacer.fits (now : ℕ) : Replacer → Bool
  | .loop _ _ stop room off => decide (off < stop → off + min room (now - off) ≤ stop)
  | _ => true

/-- no `Write` has put bytes behind the captured end within reach of the copy buffer -/
def chunkFits (s : St) (o : Op) : Prop := o = .replaceReplay → s.replacer.fits s.journal.endOffset = true

instance (s : St) (o : Op) : Decidable (chunkFits s o) := inferInstanceAs (Decidable (_ → _))

/-- the replay is below the end it captured -/
def Replacer.Within : Replacer → Prop
  | .loop _ _ stop _ off | .write _ _ stop _ off _ _ => off ≤ stop
  | _ => True

theorem step_within (C : Config) (hS : Sound s) (h : s.replacer.Within) (o : Op) (hf : chunkFits s o) :
    (step C s o).replacer.Within := by
  have he := step_effect C s o
  generalize step C s o = s' at he
  cases he with
  | moves hm =>
    cases hm with
    | enter | put | ret | account => exact h
    | start | publish => trivial
    | replayed hr => rw [hr] at h; exact h
    | wrote r hr _ _ hx =>
      rw [hr] at h
      rcases hx with ⟨rfl, -⟩ | rfl <;> exact h
  | failed | acked | drained => trivial
  | captured hr =>
    have hok := hS.replacer
    rw [hr] at hok
    exact (le_trans hok hS.sent).trans_eq hS.len.symm
  | @chunk q recv stop room off following chunk hr hlt hj =>
    have hfit := hf rfl
    rw [hr] at hfit
    obtain ⟨-, -, -, rfl, hlen, -⟩ := Journal.replay_spec hj
    rw [hlen]
    exact of_decide_eq_true hfit hlt
  | finish _ _ hx => rcases hx with rfl | ⟨localFIN, rfl⟩ <;> trivial
  | detach _ hr => rcases rest hr with hx | ⟨i, hx⟩ <;> simp only [hx, Replacer.Within]
  | _ => exact h

end NeProto.Continuity
