/-
Superseded carriers. A `Read` or `Write` may still be running on a physical stream that `DetachPhysical`,
`markUnavailable` or `Replace` has taken out of use.

- `Watch`: the stream together with a record of the errors that calls returned after their physical stream had been
  superseded. `watch_st`: the record does not disturb the stream.
- `carrierLost`: a superseded stream returns no bytes and, short of a true end of stream, an error that wraps
  `session.ErrCarrierLost`; a `Write` on it may also have finished, and the peer has acknowledged nothing beyond it.
- `superseded_never_surfaces`: in every run that meets it, such a call returns only because the logical stream or its
  context ended, or with the true end of the stream, and every byte `Read` returns is new.
- `superseded_surfaces`: `DetachPhysical` closes the stream while its multiplexer lives; its `ErrClosed` is not classified
  as a lost carrier and reaches the application. So do bytes that were read just before.
-/
import NeProto.Continuity.Delivery

namespace NeProto.Continuity

open List

/-- `TransportStream.classify`: an error is a lost carrier when the multiplexer is terminal (`down`) -/
def classify (down : Bool) : Option Err → Option Err
  | some (.transport c lost) => some (.transport c (lost || down))
  | err => err

/-! ## The record -/

structure Watch where
  st : St
  /-- the physical stream of the last `Read` call had been superseded when the call returned, or before its bytes were
  accounted -/
  readStale : Bool
  /-- the physical stream of the last `Write` call had been superseded when the call returned, and the logical stream was
  still open when the attempt was accounted -/
  writeStale : Bool
  /-- the failures returned after that -/
  surfaced : List Result

/-- the open stream no longer uses `p` -/
def superseded (s : St) (p : ℕ) : Bool := !s.closed && decide (s.physical ≠ some p)

def Result.failed (read write : Bool) : Result → Bool
  | .read _ (some _) => read
  | .write _ (some _) => write
  | _ => false

namespace Watch

def init (C : Config) (p : ℕ) : Watch := ⟨Continuity.init C p, false, false, []⟩

def readFlag (w : Watch) : Op → Bool
  | .read _ => w.readStale && decide (w.st.reader ≠ .idle)
  | .physicalRead _ _ =>
    match w.st.reader with
    | .call _ p => superseded w.st p
    | _ => w.readStale
  | .readEnd =>
    match w.st.reader with
    | .ret _ p data _ => w.readStale || (decide (data ≠ []) && superseded w.st p)
    | _ => w.readStale
  | _ => w.readStale

def writeFlag (w : Watch) : Op → Bool
  | .write _ => w.writeStale && decide (w.st.writer ≠ .idle)
  | .physicalWrite _ _ =>
    match w.st.writer with
    | .call _ p _ _ => superseded w.st p
    | _ => w.writeStale
  | .writeEnd => w.writeStale && !w.st.closed
  | _ => w.writeStale

def step (C : Config) (w : Watch) (o : Op) : Watch where
  st := Continuity.step C w.st o
  readStale := w.readFlag o
  writeStale := w.writeFlag o
  surfaced := w.surfaced ++ (news w.st (Continuity.step C w.st o)).filter (Result.failed (w.readFlag o) (w.writeFlag o))

def run (C : Config) (w : Watch) (ops : List Op) : Watch := Machine.run (step C) w ops

/-- the record watches, it does not act -/
theorem watch_st (C : Config) (w : Watch) (ops : List Op) :
    (run C w ops).st = Machine.run (Continuity.step C) w.st ops := by
  induction ops generalizing w with
  | nil => rfl
  | cons o ops ih => exact ih (step C w o)

/-! ## The condition -/

/-- what a superseded stream may still return, bytes apart -/
def lostOrEnd (err : Option Err) : Bool := err == some (.transport .eof false) || err.any recoverableTransportError

def carrierLost (w : Watch) : Op → Bool
  | .physicalRead data err =>
    match w.st.reader with
    | .call _ p => !superseded w.st p || (decide (data = []) && lostOrEnd err)
    | _ => true
  | .readEnd =>
    match w.st.reader with
    | .ret _ p data _ => !superseded w.st p || decide (data = [])
    | _ => true
  | .physicalWrite n err =>
    match w.st.writer with
    | .call c p t _ =>
      !superseded w.st p || (decide (n ≤ (c.rest t).length) &&
        (decide (n = (c.rest t).length) || decide (err = none ∧ 0 < n) || err.any recoverableTransportError))
    | _ => true
  | .writeEnd =>
    match w.st.writer with
    | .ret _ _ t n _ => !w.writeStale || decide (w.st.pendingAck ≤ t + n)
    | _ => true
  | _ => true

/-- how a call on a superseded stream may end -/
def permitted : Result → Bool
  | .read _ (some e) => e == .resumableClosed || e == .context || e == .transport .eof false
  | .write _ (some e) => e == .resumableClosed || e == .context || e == .replay .closed
  | _ => true

end Watch

/-! ## What the calls may carry -/

/-- a `Read` whose physical stream was superseded when it returned -/
def Reader.Harmless : Reader → Prop
  | .ret _ _ data err => data = [] ∧ Watch.lostOrEnd err = true
  | .notify _ _ _ _ | .unnotified _ _ _ _ | .tail _ _ _ _ => False
  | _ => True

/-- what an attempt may report of a superseded stream -/
def Progress (whole : Prop) (n : ℕ) (err : Option Err) : Prop :=
  whole ∨ (err = none ∧ 0 < n) ∨ err.any recoverableTransportError = true

/-- a `Write` whose physical stream was superseded when it returned -/
def Writer.Harmless (transmitted : ℕ) : Writer → Prop
  | .append _ => False
  | .wait c | .blocked c _ | .attempt c _ _ | .call c _ _ _ | .lost c _ => c.start ≤ transmitted
  | .ret c _ t n err => c.start ≤ transmitted ∧ Progress (n = (c.rest t).length) n err
  | .settle c _ o =>
    c.start ≤ transmitted ∧ o.invalidDeferredAck = false ∧ o.deferredAck ≤ transmitted ∧
      Progress (c.stop ≤ o.transmitted) o.n o.err
  | _ => True

theorem Writer.Harmless.mono {t t' : ℕ} {w : Writer} (h : w.Harmless t) (ht : t ≤ t') : w.Harmless t' := by
  cases w with
  | wait | blocked | attempt | call | lost => exact le_trans h ht
  | ret => exact ⟨h.1.trans ht, h.2⟩
  | settle => exact ⟨h.1.trans ht, h.2.1, h.2.2.1.trans ht, h.2.2.2⟩
  | _ => exact h

namespace Watch

/-! ## What a step returns -/

/-- whatever the step returns after a supersession is permitted -/
def Fair (read write : Bool) (s s' : St) : Prop := ∀ r ∈ news s s', r.failed read write = true → permitted r = true

variable {s s' : St} {C : Config} {w : Watch}

theorem Fair.same {read write : Bool} (h : s'.log = s.log) : Fair read write s s' := by
  intro r hr
  rw [news, h, drop_length] at hr
  cases hr

theorem Fair.snoc {read write : Bool} {r : Result} (h : s'.log = s.log ++ [r])
    (hr : r.failed read write = true → permitted r = true) : Fair read write s s' := by
  intro x hx
  rw [news, h, drop_left, mem_singleton] at hx
  rw [hx]; exact hr

theorem markUnavailable_log (s : St) (p : ℕ) : (markUnavailable s p).log = s.log := by
  unfold markUnavailable; split_ifs <;> rfl

theorem fair_other (C : Config) (read write : Bool) (s : St) (o : Op) (h1 : o.role ≠ .reader) (h2 : o.role ≠ .writer) :
    Fair read write s (Continuity.step C s o) := by
  rcases (step_owned C s o).log with h | ⟨r, hrole, h⟩
  · exact .same h
  · refine .snoc h fun hf => ?_
    cases r with
    | read => exact absurd hrole.symm h1
    | write => exact absurd hrole.symm h2
    | _ => cases hf

/-! ## The steps of `Read` -/

section

variable (hC : C.recoverableReadError = recoverableTransportError) (h : w.readStale = true → w.st.reader.Harmless)
include hC h

theorem readEnd_harmless (hg : w.carrierLost .readEnd = true) (write : Bool) :
    (w.readFlag .readEnd = true → (readEnd C w.st).reader.Harmless) ∧
      Fair (w.readFlag .readEnd) write w.st (readEnd C w.st) := by
  unfold readEnd
  cases hr : w.st.reader with
  | ret len p data err =>
    rw [hr] at h
    simp only [carrierLost, hr] at hg
    simp only [readFlag, hr]
    by_cases hd : data = []
    · -- an empty read: its error is lost or the end of the stream
      subst hd
      simp only [ne_eq, not_true_eq_false, decide_false, Bool.false_and, Bool.or_false, if_false, hC]
      split_ifs with hrec
      · exact ⟨fun _ => trivial, .same rfl⟩
      refine ⟨fun _ => trivial, .snoc rfl fun hf => ?_⟩
      obtain ⟨-, hl⟩ := h hf
      unfold lostOrEnd at hl
      rw [Bool.or_eq_true, beq_iff_eq] at hl
      rcases hl with rfl | hl
      · rfl
      cases err with
      | none => cases hl
      | some e => exact absurd hl hrec
    · -- bytes: the stream is current, so the flag is down
      have hst : w.readStale = false := by
        by_contra hn
        exact hd (h (by simpa using hn)).1
      have hsup : superseded w.st p = false := by simpa [hd] using hg
      simp only [hst, hsup, Bool.and_false, Bool.or_false, Bool.false_eq_true, false_implies, true_and, ne_eq, hd,
        not_false_eq_true, if_true]
      split
      · exact .snoc rfl nofun
      split
      · exact .snoc rfl nofun
      split
      · exact .snoc rfl nofun
      · exact .same rfl
  | _ =>
    simp only [readFlag, hr]
    rw [hr] at h
    exact ⟨h, .same rfl⟩

/-- **Reading.** No step of a `Read` brings a supersession to the application. -/
theorem reads_harmless (o : Op) (ho : o.role = .reader) (hg : w.carrierLost o = true)
    (write : Bool) : (w.readFlag o = true → (Continuity.step C w.st o).reader.Harmless) ∧
      Fair (w.readFlag o) write w.st (Continuity.step C w.st o) := by
  cases o with
  | readEnd => exact readEnd_harmless hC h hg write
  | read len =>
    change (_ → (read w.st len).reader.Harmless) ∧ Fair _ _ _ (read w.st len)
    unfold read
    split_ifs with hi
    · refine ⟨fun hf => h ?_, .same rfl⟩
      simp only [readFlag, Bool.and_eq_true] at hf
      exact hf.1
    · exact ⟨fun _ => trivial, .same rfl⟩
  | physicalRead data err =>
    change (_ → (physicalRead w.st data err).reader.Harmless) ∧ Fair _ _ _ (physicalRead w.st data err)
    unfold physicalRead
    cases hr : w.st.reader with
    | call len p =>
      simp only [readFlag, hr]
      simp only [carrierLost, hr] at hg
      by_cases hs : superseded w.st p = true
      · have hg' : data = [] ∧ lostOrEnd err = true := by simpa [hs] using hg
        obtain ⟨rfl, hl⟩ := hg'
        exact ⟨fun _ => ⟨rfl, hl⟩, .same rfl⟩
      · split_ifs <;> exact ⟨fun hf => absurd hf hs, .same rfl⟩
    | _ =>
      simp only [readFlag, hr]
      rw [hr] at h
      exact ⟨h, .same rfl⟩
  | readWait | readContext =>
    simp only [Continuity.step, readWait, readContext, readFlag]
    repeat' split
    all_goals first
      | exact ⟨h, .same rfl⟩
      | exact ⟨fun _ => trivial, .same rfl⟩
      | exact ⟨fun _ => trivial, .snoc rfl fun _ => rfl⟩
  | readWake =>
    simp only [Continuity.step, readWake, readFlag]
    split
    · exact ⟨fun _ => trivial, .same rfl⟩
    · exact ⟨h, .same rfl⟩
  | readNotified ok =>
    simp only [Continuity.step, readNotified, readFlag]
    split
    · rename_i hr
      rw [hr] at h
      exact ⟨fun hf => absurd (h hf) id, .same rfl⟩
    · exact ⟨h, .same rfl⟩
  | readLost =>
    simp only [Continuity.step, readLost, readFlag]
    split
    · rename_i hr
      rw [hr] at h
      exact ⟨fun hf => absurd (h hf) id, .same (markUnavailable_log _ _)⟩
    · exact ⟨fun _ => trivial, .same (markUnavailable_log _ _)⟩
    · exact ⟨h, .same rfl⟩
  | readTail =>
    change (w.readStale = true → (readTail C w.st).reader.Harmless) ∧ Fair w.readStale _ _ (readTail C w.st)
    by_cases hr : ∃ len p data err, w.st.reader = .tail len p data err
    · obtain ⟨len, p, data, err, hr⟩ := hr
      rw [hr] at h
      -- bytes were accounted, so the flag is down
      have hst : w.readStale = false := by
        by_contra hn
        exact h (by simpa using hn)
      rw [hst]
      refine ⟨fun hf => absurd hf Bool.false_ne_true, ?_⟩
      have hm := markUnavailable_log w.st p
      unfold readTail
      simp only [hr]
      cases err with
      | none => split_ifs <;> first | exact .same rfl | exact .snoc rfl (fun h => by cases h)
      | some e =>
        simp only
        split_ifs
        · exact .snoc (congrArg (· ++ _) hm) (fun h => by cases h)
        · exact .same hm
        · exact .snoc rfl (fun h => by cases h)
        · exact .snoc rfl (fun h => by cases h)
    · unfold readTail
      split
      · rename_i hx
        exact absurd ⟨_, _, _, _, hx⟩ hr
      · exact ⟨h, .same rfl⟩
  | _ => cases ho

end

/-! ## The steps of `Write` -/

/-- the accounting of an attempt on a superseded stream -/
theorem writeEnd_harmless (hS : Sound w.st)
    (h : w.writeStale = true → w.st.writer.Harmless w.st.transmitted) (hg : w.carrierLost .writeEnd = true)
    (hf : w.writeFlag .writeEnd = true) : (writeEnd w.st).writer.Harmless (writeEnd w.st).transmitted := by
  obtain ⟨hst, hopen⟩ : w.writeStale = true ∧ w.st.closed = false := by simpa [writeFlag] using hf
  have hold := h hst
  cases hw : w.st.writer with
  | ret c p t n err =>
    have hact : w.st.writer.active = some (c, p, t, n) := by rw [hw]; rfl
    rw [hw] at hold
    obtain ⟨hstart, hprog⟩ := hold
    simp only [carrierLost, hw, hst, Bool.not_true, Bool.false_or, decide_eq_true_eq] at hg
    obtain ⟨hc, h1, -⟩ := hS.attempt hact
    have hlo := (accounted_bounds hS hact).1
    have hge := accounted_ge hS hopen hact
    rw [writeEnd_eq hS hw]
    refine ⟨hstart.trans hlo, ?_, ?_, ?_⟩
    · -- the stream accounts at least what was reported, and that was acknowledged at most
      exact decide_eq_false fun hx => absurd (hg.trans hge) (not_le.2 hx.2.1)
    · split_ifs with hp
      · exact hp.2
      · exact Nat.zero_le _
    · rcases hprog with hn | hn | hn
      · refine .inl ?_
        have := hc.rest_length h1
        change c.stop ≤ accounted w.st p t n
        omega
      · exact .inr (.inl hn)
      · exact .inr (.inr hn)
  | _ =>
    rw [hw] at hold
    unfold writeEnd
    simp only [hw]
    exact hold

/-- a deferred acknowledgement fails only on a closed journal -/
theorem deferred_error (hS : Sound s) {k : ℕ} (hk : k ≤ s.transmitted) {e : ReplayErr}
    (h : (if k ≠ 0 then ackJournal s.journal k true else .ok s.journal) = .error e) : e = .closed := by
  split_ifs at h
  unfold ackJournal at h
  split_ifs at h with hb
  cases hc : s.journal.closed with
  | false =>
    have hend : k ≤ s.journal.endOffset := by rw [hS.len]; exact hk.trans hS.sent
    obtain ⟨j, hj⟩ := Journal.ack_ok s.journal k hc (by simp at hb; omega) hend
    rw [hj] at h; cases h
  | true =>
    unfold Journal.ack at h
    rw [dif_pos hc] at h
    cases h; rfl

/-- the end of an attempt on a superseded stream -/
theorem writeSettle_harmless (hC : C.recoverableWriteError = recoverableTransportError) (hS : Sound s)
    (read write : Bool) (h : write = true → s.writer.Harmless s.transmitted) :
    (write = true → (writeSettle C s).writer.Harmless (writeSettle C s).transmitted) ∧
      Fair read write s (writeSettle C s) := by
  unfold writeSettle
  split
  · rename_i c p o hw
    rw [hw] at h
    split
    · rename_i e he
      obtain ⟨n, hn⟩ := closeDone_eq s o.attemptDone
      rw [hn]
      refine ⟨fun _ => trivial, .snoc rfl fun hf => ?_⟩
      obtain rfl : e = .closed := deferred_error hS (h hf).2.2.1 he
      rfl
    · rename_i j hj
      obtain ⟨n, hn⟩ := closeDone_eq { s with journal := j } o.attemptDone
      simp only [hn]
      split_ifs with h1 h2 h3 h4 h5
      · refine ⟨fun _ => trivial, .snoc rfl fun hf => ?_⟩
        rw [(h hf).2.1] at h1; cases h1
      · exact ⟨fun _ => trivial, .snoc rfl fun _ => rfl⟩
      · exact ⟨fun _ => trivial, .snoc rfl nofun⟩
      · exact ⟨fun hf => (h hf).1, .same rfl⟩
      · refine ⟨fun _ => trivial, .snoc rfl fun hf => ?_⟩
        rcases (h hf).2.2.2 with hp | ⟨hp, hp'⟩ | hp
        · exact absurd hp h3
        · rcases h4 with h4 | h4
          · exact absurd hp h4
          · omega
        · obtain ⟨e, he, hrec⟩ := (Option.any_eq_true _ _).1 hp
          rw [he, hC] at h5
          exact absurd hrec h5
      · exact ⟨fun hf => (h hf).1, .same rfl⟩
  · exact ⟨h, .same rfl⟩

/-- **Writing.** No step of a `Write` brings a supersession to the application. -/
theorem writes_harmless (hC : C.recoverableWriteError = recoverableTransportError)
    (hS : Sound w.st) (h : w.writeStale = true → w.st.writer.Harmless w.st.transmitted) (o : Op) (ho : o.role = .writer)
    (hg : w.carrierLost o = true) (read : Bool) :
    (w.writeFlag o = true → (Continuity.step C w.st o).writer.Harmless (Continuity.step C w.st o).transmitted) ∧
      Fair read (w.writeFlag o) w.st (Continuity.step C w.st o) := by
  cases o with
  | writeEnd =>
    refine ⟨writeEnd_harmless hS h hg, .same ?_⟩
    change (writeEnd w.st).log = w.st.log
    unfold writeEnd
    split
    · split_ifs <;> rfl
    · rfl
  | writeSettle => exact writeSettle_harmless hC hS read w.writeStale h
  | write payload =>
    change (_ → (writeCheck w.st payload).writer.Harmless (writeCheck w.st payload).transmitted) ∧
      Fair _ _ _ (writeCheck w.st payload)
    unfold writeCheck
    split_ifs with hi
    · refine ⟨fun hf => h ?_, .same rfl⟩
      simp only [writeFlag, Bool.and_eq_true] at hf
      exact hf.1
    all_goals
      -- a new call starts with the flag down
      rw [not_or, not_not] at hi
      have hfl : w.writeFlag (.write payload) = false := by simp [writeFlag, hi.1]
      rw [hfl]
    · exact ⟨fun _ => trivial, .snoc rfl nofun⟩
    · exact ⟨fun _ => trivial, .snoc rfl nofun⟩
    · exact ⟨fun hf => absurd hf Bool.false_ne_true, .same rfl⟩
  | writeAppend =>
    change (w.writeStale = true → (writeAppend w.st).writer.Harmless (writeAppend w.st).transmitted) ∧
      Fair _ w.writeStale _ (writeAppend w.st)
    unfold writeAppend
    split
    · rename_i payload hw
      rw [hw] at h
      have hst : w.writeStale = false := by
        by_contra hn
        exact h (by simpa using hn)
      rw [hst]
      split
      · exact ⟨fun _ => trivial, .snoc rfl nofun⟩
      · exact ⟨fun hf => absurd hf Bool.false_ne_true, .same rfl⟩
    · exact ⟨h, .same rfl⟩
  | physicalWrite n err =>
    change (_ → (physicalWrite w.st n err).writer.Harmless (physicalWrite w.st n err).transmitted) ∧
      Fair _ _ _ (physicalWrite w.st n err)
    unfold physicalWrite
    cases hw : w.st.writer with
    | call c p t m =>
      simp only [writeFlag, hw]
      simp only [carrierLost, hw] at hg
      have hact : w.st.writer.active = some (c, p, t, m) := by rw [hw]; rfl
      obtain ⟨-, h1, h2, -, h4, -⟩ := hS.attempt hact
      have hstart : c.start ≤ w.st.transmitted := by rcases h4 with h4 | h4 <;> omega
      by_cases hs : superseded w.st p = true
      · simp only [hs, Bool.not_true, Bool.false_or, Bool.and_eq_true, Bool.or_eq_true, decide_eq_true_eq] at hg
        rw [if_neg (not_lt.2 hg.1)]
        refine ⟨fun _ => ⟨hstart, ?_⟩, .same rfl⟩
        rcases hg.2 with (hp | hp) | hp
        · exact .inl hp
        · exact .inr (.inl hp)
        · exact .inr (.inr hp)
      · split_ifs <;> exact ⟨fun hf => absurd hf hs, .same rfl⟩
    | _ =>
      simp only [writeFlag, hw]
      rw [hw] at h
      exact ⟨h, .same rfl⟩
  | writeWait =>
    change (w.writeStale = true → (writeWait w.st).writer.Harmless (writeWait w.st).transmitted) ∧
      Fair _ w.writeStale _ (writeWait w.st)
    unfold writeWait
    split
    · rename_i c hw
      rw [hw] at h
      split
      · exact ⟨fun _ => trivial, .snoc rfl fun _ => rfl⟩
      split
      · exact ⟨h, .same rfl⟩
      split
      · exact ⟨fun _ => trivial, .snoc rfl nofun⟩
      split
      · rename_i hlt
        exact ⟨fun _ => trivial, .snoc rfl fun hf => absurd (h hf) (not_le.2 hlt)⟩
      · exact ⟨h, .same rfl⟩
    · repeat' split
      all_goals first
        | exact ⟨fun _ => trivial, .same rfl⟩
        | exact ⟨fun _ => trivial, .snoc rfl nofun⟩
    · exact ⟨h, .same rfl⟩
  | writeLost =>
    change (w.writeStale = true → (writeLost w.st).writer.Harmless (writeLost w.st).transmitted) ∧
      Fair _ w.writeStale _ (writeLost w.st)
    unfold writeLost
    split
    · rename_i c p hw
      rw [hw] at h
      refine ⟨fun hf => ?_, .same (markUnavailable_log _ _)⟩
      obtain ⟨physical, callbacks, fin, -, hm⟩ := markUnavailable_eq w.st p
      rw [hm]
      exact h hf
    · exact ⟨fun _ => trivial, .same (markUnavailable_log _ _)⟩
    · exact ⟨h, .same rfl⟩
  | writeWake | writeContext | writeAttempt | writePut | closeWrite | finCheck | physicalCloseWrite | finMark =>
    simp only [Continuity.step, writeWake, writeContext, writeAttempt, writePut, closeWrite, finCheck, physicalCloseWrite,
      finMark, writeFlag]
    repeat' split
    all_goals first
      | exact ⟨h, .same rfl⟩
      | exact ⟨fun _ => trivial, .same rfl⟩
      | exact ⟨fun _ => trivial, .snoc rfl fun _ => rfl⟩
      | (rw [‹w.st.writer = _›] at h; exact ⟨h, .same rfl⟩)
  | _ => cases ho

/-! ## Every byte is new -/

/-- every byte returned, or about to be, has moved the receive offset once -/
def Counted (s : St) : Prop := (returned s ++ handing s).length = s.receiveOffset

section

variable (h : Counted s)
include h

theorem Counted.keep (h1 : returned s' ++ handing s' = returned s ++ handing s)
    (h2 : s'.receiveOffset = s.receiveOffset) : Counted s' := by
  unfold Counted
  rw [h1, h2]; exact h

theorem Counted.same (v : SameRecv s s') : Counted s' := h.keep (by rw [v.returned, v.handing]) v.receiveOffset

/-- a `Read` that returns what it had accounted, or nothing -/
theorem Counted.return {data : List Byte} {err : Option Err} (hh : handing s = data) :
    Counted (readReturn s data err) := by
  refine h.keep ?_ rfl
  rw [returned_snoc rfl, hh]
  exact append_nil _

/-- a `Read` goes on with the bytes it was handing over -/
theorem Counted.goes {r : Reader} (hh : handing { s with reader := r } = handing s) :
    Counted { s with reader := r } :=
  h.keep (congrArg (returned s ++ ·) hh) rfl

theorem readTail_counted (C : Config) : Counted (readTail C s) := by
  unfold readTail
  split
  · rename_i len p data err hr
    have hh : handing s = data := by unfold handing; rw [hr]
    have hm := markUnavailable_recv s p
    have hh' : handing (markUnavailable s p) = data := hm.handing.trans hh
    have hwait : ∀ t : St, Counted t → handing t = data → ¬data ≠ [] → Counted { t with reader := .wait len } :=
      fun t h hh hd => h.goes (by rw [hh, not_not.1 hd]; rfl)
    cases err with
    | none =>
      split_ifs with hd
      · exact h.return hh
      · exact hwait s h hh hd
    | some e =>
      simp only
      split_ifs with h1 hd hd
      · exact (h.same hm).return hh'
      · exact hwait _ (h.same hm) hh' hd
      · exact h.return hh
      · exact h.return (hh.trans (not_not.1 hd))
  · exact h

theorem readEnd_counted (C : Config) : Counted (readEnd C s) := by
  unfold readEnd
  split
  · rename_i len p data err hr
    have hh : handing s = [] := by unfold handing; rw [hr]
    simp only
    split
    · split
      · exact h.return hh
      split
      · exact h.return hh
      split
      · exact Counted.return (s := { s with discard := _ }) h hh
      -- the fresh bytes are handed over and move the offset
      have hcount : (returned s).length = s.receiveOffset := by
        have := h; unfold Counted at this; rwa [hh, append_nil] at this
      have hfresh : ∀ t : St, returned t = returned s → handing t = data.drop (min data.length s.discard) →
          t.receiveOffset = s.receiveOffset + (data.drop (min data.length s.discard)).length → Counted t :=
        fun t h1 h2 h3 => by
          unfold Counted
          rw [h1, h2, h3, length_append, hcount]
      refine hfresh _ rfl ?_ rfl
      unfold handing
      split_ifs <;> rfl
    · split_ifs
      · exact h.goes (hh ▸ rfl)
      · exact h.return hh
  · exact h

theorem step_counted (C : Config) (o : Op) : Counted (Continuity.step C s o) := by
  by_cases ho : o.receives = false
  · exact h.same (step_recv C s o ho)
  cases o with
  | readEnd => exact readEnd_counted h C
  | readTail => exact readTail_counted h C
  | readLost =>
    change Counted (readLost s)
    unfold readLost
    cases hr : s.reader with
    | unnotified len p | lost len p =>
      have hm := markUnavailable_recv s p
      refine (h.same hm).goes ?_
      rw [hm.handing]
      unfold handing; rw [hr]
    | _ => exact h
  | replace | replacePublish =>
    simp only [Continuity.step, replace, replacePublish]
    repeat' split
    all_goals first
      | exact h
      | exact h.keep (congrArg (· ++ handing s) (returned_log rfl rfl)) rfl
  | read len =>
    change Counted (read s len)
    unfold read
    split_ifs with hr
    · exact h
    · rw [not_or, not_not] at hr
      exact h.goes (by unfold handing; rw [hr.1])
  | readWait | readWake | readContext | physicalRead | readNotified =>
    simp only [Continuity.step, readWait, readWake, readContext, physicalRead, readNotified]
    repeat' split
    all_goals first
      | exact h
      | exact h.goes (by unfold handing; rw [‹s.reader = _›])
      | exact h.return (by unfold handing; rw [‹s.reader = _›])
  | _ => exact absurd rfl ho

end

/-! ## Every run -/

structure Inv (w : Watch) : Prop where
  sound : Sound w.st
  reader : w.readStale = true → w.st.reader.Harmless
  writer : w.writeStale = true → w.st.writer.Harmless w.st.transmitted
  counted : Counted w.st
  permitted : ∀ r ∈ w.surfaced, permitted r = true

theorem init_inv (C : Config) (p : ℕ) : (init C p).Inv := ⟨init_sound C p, nofun, nofun, rfl, nofun⟩

theorem readFlag_other (w : Watch) {o : Op} (ho : o.role ≠ .reader) : w.readFlag o = w.readStale := by
  cases o with
  | read | physicalRead | readEnd => exact absurd rfl ho
  | _ => rfl

theorem writeFlag_other (w : Watch) {o : Op} (ho : o.role ≠ .writer) : w.writeFlag o = w.writeStale := by
  cases o with
  | write | physicalWrite | writeEnd => exact absurd rfl ho
  | _ => rfl

theorem step_inv (hR : C.recoverableReadError = recoverableTransportError)
    (hW : C.recoverableWriteError = recoverableTransportError) (w : Watch) (o : Op) (h : w.Inv)
    (hg : w.carrierLost o = true) : (step C w o).Inv := by
  -- what the step leaves of the two calls, and what it returns
  have hstep : (w.readFlag o = true → (Continuity.step C w.st o).reader.Harmless) ∧
      (w.writeFlag o = true → (Continuity.step C w.st o).writer.Harmless (Continuity.step C w.st o).transmitted) ∧
      Fair (w.readFlag o) (w.writeFlag o) w.st (Continuity.step C w.st o) := by
    have hreader : o.role ≠ .reader → (w.readFlag o = true → (Continuity.step C w.st o).reader.Harmless) := fun ho => by
      rw [readFlag_other w ho, (step_owned C w.st o).reader ho]; exact h.reader
    have hwriter : o.role ≠ .writer →
        (w.writeFlag o = true → (Continuity.step C w.st o).writer.Harmless (Continuity.step C w.st o).transmitted) :=
      fun ho hf => by
        rw [writeFlag_other w ho] at hf
        rw [(step_owned C w.st o).writer ho]
        exact (h.writer hf).mono (step_transmitted C h.sound o)
    by_cases hr : o.role = .reader
    · have hw : o.role ≠ .writer := by rw [hr]; exact nofun
      obtain ⟨h1, h2⟩ := reads_harmless hR h.reader o hr hg (w.writeFlag o)
      exact ⟨h1, hwriter hw, h2⟩
    by_cases hw : o.role = .writer
    · obtain ⟨h1, h2⟩ := writes_harmless hW h.sound h.writer o hw hg (w.readFlag o)
      exact ⟨hreader hr, h1, h2⟩
    exact ⟨hreader hr, hwriter hw, fair_other C _ _ w.st o hr hw⟩
  refine ⟨step_sound C h.sound o, hstep.1, hstep.2.1, step_counted h.counted C o, fun r hr => ?_⟩
  rcases mem_append.1 hr with hr | hr
  · exact h.permitted r hr
  · obtain ⟨h1, h2⟩ := mem_filter.1 hr
    exact hstep.2.2 r h1 h2

/-- **A superseded carrier never surfaces**, for a stream whose recoverable errors are the lost carriers, in every
interleaving in which superseded streams return as `carrierLost` says: a call whose physical stream was superseded fails
only because the logical stream or its context ended, or returns the true end of the stream, and every byte `Read` returns
is new. -/
theorem superseded_never_surfaces (C : Config) (hR : C.recoverableReadError = recoverableTransportError)
    (hW : C.recoverableWriteError = recoverableTransportError) (p : ℕ) (ops : List Op)
    (hg : Machine.Guarded (step C) (fun w o => w.carrierLost o = true) (init C p) ops) :
    let w := run C (init C p) ops
    (∀ r ∈ w.surfaced, permitted r = true) ∧ (returned w.st ++ handing w.st).length = w.st.receiveOffset := by
  intro w
  have h : w.Inv := Machine.run_inv_guarded (step_inv hR hW) (init_inv C p) ops hg
  exact ⟨h.permitted, h.counted⟩

/-- the carrier is lost under a `Read` and a `Write` and the stream is detached; the `Read` waits until its context ends -/
def supersededLost : List Op :=
  [.write [7], .writeAppend, .writeWait, .writeAttempt, .read 4, .readWait, .detachPhysical,
   .physicalRead [] (classify true (some (.transport .closed false))), .readEnd, .readLost, .readWait, .readContext,
   .physicalWrite 0 (classify true (some (.transport .closed false))), .writeEnd, .writeSettle, .writeLost, .writeWait]

theorem superseded_never_surfaces_lost :
    let w := run Link.small (init Link.small 0) supersededLost
    w.surfaced = [.read [] (some .context)] ∧ w.st.writer = .blocked ⟨[7], 0, 1⟩ 0 ∧ ∀ r ∈ w.surfaced, permitted r = true :=
  ⟨by decide, by decide, (superseded_never_surfaces Link.small rfl rfl 0 supersededLost (by decide)).1⟩

/-- `DetachPhysical` closes the stream under a `Read` while its multiplexer lives -/
def detachedRead : List Op :=
  [.read 4, .readWait, .detachPhysical, .physicalRead [] (classify false (some (.transport .closed false))), .readEnd]

/-- the same under a `Write` -/
def detachedWrite : List Op :=
  [.write [7], .writeAppend, .writeWait, .writeAttempt, .detachPhysical,
   .physicalWrite 0 (classify false (some (.transport .closed false))), .writeEnd, .writeSettle]

/-- bytes come back just before the stream is detached -/
def detachedBytes : List Op := [.read 4, .readWait, .physicalRead [7] none, .detachPhysical, .readEnd]

/-- **A superseded carrier surfaces.** The logical stream is open and its context lives, yet the calls return the error of
the closed physical stream, or `ErrResumableState` instead of bytes. -/
theorem superseded_surfaces :
    (run Link.small (init Link.small 0) detachedRead).surfaced = [.read [] (some (.transport .closed false))] ∧
      (run Link.small (init Link.small 0) detachedWrite).surfaced = [.write 0 (some (.transport .closed false))] ∧
      (run Link.small (init Link.small 0) detachedBytes).surfaced = [.read [] (some .resumableState)] ∧
      permitted (.read [] (some (.transport .closed false))) = false ∧
      permitted (.write 0 (some (.transport .closed false))) = false ∧
      permitted (.read [] (some .resumableState)) = false ∧
      (run Link.small (init Link.small 0) detachedRead).st.closed = false := by
  decide

end Watch

end NeProto.Continuity
