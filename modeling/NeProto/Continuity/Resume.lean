/-
Resuming after failed replacements. A `Replace` that fails part-way has delivered bytes; the next `Replace` must accept
the offset the peer reached with them.

- `replaceCall`: a whole `Replace` call over a candidate whose writes succeed; `replaceCall_ok` says when it returns nil.
- `resumeSafe`: a failing `Replace` has handed over nothing beyond `transmitted`, a failing physical `Write` reports what
  was taken, and replays stay below the captured end.
- `resumable_after_failures`: in every run that meets it, from every open state without a physical stream and without a
  `Write` in flight, `Replace` with the peer's true offset returns nil.
- `failed_replay_strands`: a failed replay that delivered a blocked `Write`'s byte makes the peer's offset inadmissible.
-/
import NeProto.Continuity.Acknowledge

namespace NeProto.Continuity

/-! ## A whole `Replace` call -/

/-- the replay loop over a candidate whose writes succeed -/
def replayLoop : ℕ → St → St
  | 0, s => s
  | fuel + 1, s =>
    let s' := replaceReplay s
    match s'.replacer with
    | .write _ _ _ _ _ chunk _ => replayLoop fuel (replayWrite (replayPut s' chunk.length) chunk.length none)
    | _ => s'

/-- `Replace` without interference over a candidate whose writes succeed -/
def replaceCall (s : St) (q peer recv : ℕ) : St :=
  let s' := replaceState (replaceAck (replace s q peer recv))
  replacePublish (replaceCloseWrite (replaceFin (replayLoop (s'.journal.endOffset + 1) s')) none)

variable {s : St} {q recv : ℕ}

/-- one round of the loop -/
theorem replay_round {stop room off : ℕ} (hr : s.replacer = .loop q recv stop room off)
    (hc : s.journal.closed = false) (hb : s.journal.baseOffset ≤ off) (he : s.journal.endOffset = stop) (hlt : off < stop)
    (hroom : 0 < room) : ∃ chunk : List Byte, 0 < chunk.length ∧ off + chunk.length ≤ stop ∧
      (replaceReplay s).replacer = .write q recv stop room (off + chunk.length) chunk 0 ∧
      replayWrite (replayPut (replaceReplay s) chunk.length) chunk.length none =
        { s with replacer := .loop q recv stop room (off + chunk.length) } := by
  obtain ⟨chunk, hj⟩ := Journal.replay_ok s.journal off room hc hb (by omega)
  obtain ⟨-, -, -, -, hlen, -⟩ := Journal.replay_spec hj
  have hpos : 0 < chunk.length := by omega
  have hne : chunk ≠ [] := List.ne_nil_of_length_pos hpos
  have hstep : replaceReplay s = { s with replacer := .write q recv stop room (off + chunk.length) chunk 0 } := by
    unfold replaceReplay
    simp only [hr, if_pos hlt, hj, if_neg hne]
  refine ⟨chunk, hpos, by omega, by rw [hstep], ?_⟩
  rw [hstep]
  unfold replayPut replayWrite
  simp [hne]

/-- the loop reaches the captured end -/
theorem replayLoop_ok (fuel : ℕ) {stop room off : ℕ} (hr : s.replacer = .loop q recv stop room off)
    (hc : s.journal.closed = false) (hb : s.journal.baseOffset ≤ off) (he : s.journal.endOffset = stop) (hle : off ≤ stop)
    (hroom : 0 < room) (hfuel : stop - off < fuel) : replayLoop fuel s = { s with replacer := .fin q recv stop } := by
  induction fuel generalizing s off with
  | zero => omega
  | succ fuel ih =>
    by_cases hlt : off < stop
    · obtain ⟨chunk, hpos, hstop, hw, hnext⟩ := replay_round hr hc hb he hlt hroom
      unfold replayLoop
      simp only [hw, hnext]
      have hb' : s.journal.baseOffset ≤ off + chunk.length := by omega
      have hfuel' : stop - (off + chunk.length) < fuel := by omega
      exact @ih { s with replacer := .loop q recv stop room (off + chunk.length) } _ rfl hc hb' he hstop hfuel'
    · have hstep : replaceReplay s = { s with replacer := .fin q recv stop } := by
        unfold replaceReplay
        simp only [hr, if_neg hlt]
      unfold replayLoop
      simp only [hstep]

/-- **Replace.** From an open stream without a physical stream, an offset between the journal base and `transmitted` is
accepted. -/
theorem replaceCall_ok (hS : Sound s) (hopen : s.closed = false) (hj : s.journal.closed = false)
    (hp : s.physical = none) (hidle : s.replacer = .idle) {peer : ℕ} (hbase : s.journal.baseOffset ≤ peer)
    (hpeer : peer ≤ s.transmitted) (hrecv : recv ≤ s.receiveOffset) :
    (replaceCall s q peer recv).log = s.log ++ [.replace none] ∧ (replaceCall s q peer recv).physical = some q := by
  have hend : peer ≤ s.journal.endOffset := by rw [hS.len]; exact hpeer.trans hS.sent
  obtain ⟨j, hack⟩ := Journal.ack_ok s.journal peer hj hbase hend
  obtain ⟨-, hjc, -, -, hjb, hje, -⟩ := Journal.ack_spec hack
  have h1 : replace s q peer recv = { s with replacer := .ack q peer recv } := by
    unfold replace
    rw [if_neg (not_not.2 hidle), if_neg (by rw [hopen]; exact Bool.false_ne_true),
      if_neg (by rw [hp]; simp only [ne_eq, not_true_eq_false, false_or]; omega)]
  have h2 : replaceAck { s with replacer := .ack q peer recv } = { s with journal := j, replacer := .state q peer recv } := by
    unfold replaceAck ackJournal
    simp only [Bool.false_eq_true, false_and, if_false, hack]
  set room := min replayCopyBufferSize (max 1 j.size) with hroom
  have hpos : 0 < room := by rw [hroom]; unfold replayCopyBufferSize; omega
  have h3 : replaceState { s with journal := j, replacer := .state q peer recv } =
      { s with journal := j, replacer := .loop q recv j.endOffset room peer } := rfl
  have h4 := replayLoop_ok (j.endOffset + 1) (s := { s with journal := j, replacer := .loop q recv j.endOffset room peer })
    rfl hjc (by rw [hjb]) rfl (by omega) hpos (by omega)
  unfold replaceCall
  simp only [h1, h2, h3, h4]
  unfold replaceFin
  cases s.localFIN with
  | false | true =>
    simp [replaceCloseWrite, replacePublish, hopen, hp, not_lt.2 hrecv, replaceReturn]

/-! ## How a replacement ends -/

/-- a replay that the journal still holds goes on -/
theorem replaceReplay_target (hS : Sound s) (hst : Steady s) (hc : s.journal.closed = false)
    (hb : s.journal.baseOffset ≤ s.replacer.reach) (ht : (replaceReplay s).replacer.target = none) :
    s.replacer.target = none := by
  have hok := hS.replacer
  unfold replaceReplay at ht
  split at ht
  · rename_i q recv stop room off hr
    rw [hr] at hok hb
    obtain ⟨-, hstop⟩ := hok
    split at ht
    · rename_i hlt
      have hend : off < s.journal.endOffset := by rw [hS.len]; exact hlt.trans_le hstop
      obtain ⟨chunk, hj⟩ := Journal.replay_ok s.journal off room hc hb hend.le
      obtain ⟨-, -, -, -, hlen, -⟩ := Journal.replay_spec hj
      have hroom := hst.roomy room (hr ▸ rfl)
      have hne : chunk ≠ [] := List.ne_nil_of_length_pos (by omega)
      rw [hj] at ht
      simp only [if_neg hne] at ht
      cases ht
    · cases ht
  · exact ht

/-- a replacement is published as long as the stream is open -/
theorem replacePublish_transmitted (hS : Sound s) (hst : Steady s) (hopen : s.closed = false) :
    s.replacer.target = none ∨ (replacePublish s).replacer.target ≠ none ∨
      s.replacer.reach = (replacePublish s).transmitted := by
  cases hr : s.replacer with
  | publish q recv stop localFIN =>
    have hp : s.physical = none := hS.alone (hr ▸ rfl)
    have hrecv : recv ≤ s.receiveOffset := hst.offered q recv (hr ▸ rfl)
    have hgo : ¬ (s.closed = true ∨ s.physical ≠ none ∨ recv > s.receiveOffset) := by
      rw [hopen, hp]
      simp only [Bool.false_eq_true, ne_eq, not_true_eq_false, false_or, not_lt]
      exact hrecv
    right; right
    unfold replacePublish
    simp only [hr, if_neg hgo]
    rfl
  | idle | detach => exact .inl rfl
  | ack | state | loop | write | fin | closeWrite =>
    right; left
    unfold replacePublish
    simp only [hr]
    exact nofun

/-- one `Write` of `writeAll` goes on -/
def Replacer.proceeds (n : ℕ) (err : Option Err) : Replacer → Bool
  | .write _ _ _ _ _ chunk _ => decide (err = none ∧ 0 < n ∧ n ≤ chunk.length)
  | _ => true

theorem replayWrite_target {n : ℕ} {err : Option Err} (h : s.replacer.proceeds n err = true)
    (ht : (replayWrite s n err).replacer.target = none) : s.replacer.target = none := by
  unfold replayWrite at ht
  split at ht
  · rename_i q recv stop room off chunk put hr
    rw [hr] at h
    obtain ⟨rfl, hpos, hle⟩ := of_decide_eq_true h
    simp only [if_neg (not_lt.2 hle), if_neg hpos.ne'] at ht
    split_ifs at ht <;> cases ht
  · exact ht

/-- **A replacement that ends** on an open stream has handed over nothing beyond `transmitted` and the attempt in
progress, if its candidate failed no later than that. -/
theorem step_ends (C : Config) (hS : Sound s) (hst : Steady s) (o : Op)
    (hjc : s.journal.closed = false) (hbase : s.journal.baseOffset ≤ reach s)
    (hwrite : ∀ n err, o = .replayWrite n err → s.replacer.proceeds n err = true ∨ s.replacer.reach ≤ s.transmitted)
    (hclose : ∀ err, o = .replaceCloseWrite err → err = none ∨ s.replacer.reach ≤ s.transmitted)
    (ht : (step C s o).replacer.target = none) (hopen : s.closed = false) :
    s.replacer.reach ≤ max (step C s o).transmitted s.writer.reach := by
  have hmono := step_transmitted C hS o
  by_contra hlow
  rw [not_le, max_lt_iff] at hlow
  -- the replacement is ahead of everything else, so it was running and the journal holds its place
  have hon : s.replacer.target ≠ none := fun h => by rw [Replacer.reach_of_none h] at hlow; omega
  have hb : s.journal.baseOffset ≤ s.replacer.reach := by unfold reach at hbase; omega
  have hok := hS.replacer
  by_cases ho : o.role ≠ .replacer
  · exact hon ((step_owned C s o).replacer ho ▸ ht)
  cases o with
  | replaceReplay => exact hon (replaceReplay_target hS hst hjc hb ht)
  | replayWrite n err =>
    rcases hwrite n err rfl with h | h
    · exact hon (replayWrite_target h ht)
    · omega
  | replacePublish =>
    rcases replacePublish_transmitted hS hst hopen with h | h | h
    · exact hon h
    · exact h ht
    · exact hlow.1.ne' h
  | replaceAck =>
    cases hr : s.replacer with
    | ack q peer recv =>
      rw [hr] at hok hlow
      have hpeer : peer ≤ s.transmitted := hok
      have hreach : Replacer.reach (.ack q peer recv) = peer := rfl
      omega
    | _ =>
      simp only [step, replaceAck, hr] at ht
      first | exact hon (hr ▸ rfl) | cases ht
  | replaceCloseWrite err =>
    rcases hclose err rfl with rfl | h
    · apply hon
      simp only [step, replaceCloseWrite] at ht
      split at ht
      · cases ht
      · exact ht
    · omega
  | replace | replaceState | replayPut | replaceFin | detachPhysical | detachDone =>
    apply hon
    simp only [step, replace, replaceState, replayPut, replaceFin, detachPhysical, detachDone] at ht
    repeat' split at ht
    all_goals first
      | exact ht
      | (cases ht; done)
      | (rw [‹s.replacer = _›]; rfl)
      | (rw [not_not.1 ‹¬ s.replacer ≠ .idle›]; rfl)
  | _ => exact ho (fun h => by cases h)

namespace Link

/-! ## The conditions -/

def resumeSafe (s : Link) : LinkOp → Bool
  -- a replay chunk ends at or before the captured end
  | .a .replaceReplay => s.a.replacer.fits s.a.journal.endOffset
  | .a (.physicalWrite n _) => s.a.writer.reports n
  -- a candidate that fails has taken nothing beyond `transmitted`
  | .a (.replayWrite n err) => s.a.replacer.proceeds n err || decide (s.a.replacer.reach ≤ s.a.transmitted)
  | .a (.replaceCloseWrite err) => err.isNone || decide (s.a.replacer.reach ≤ s.a.transmitted)
  | _ => true

variable {s : Link}

theorem resumeSafe_fits {o : Op} (h : s.resumeSafe (.a o) = true) : chunkFits s.a o := by
  rintro rfl
  exact h

/-! ## The invariant -/

structure ResumeInv (s : Link) : Prop where
  inv : s.Inv
  steady : Steady s.a
  covered : s.Covered
  behind : s.a.journal.closed = true → s.a.closed = true

theorem init_resumeInv (Ca Cb : Config) : (init Ca Cb).ResumeInv where
  inv := init_inv Ca Cb
  steady := init_steady Ca 0
  covered := init_covered Ca Cb
  behind := nofun

theorem ResumeInv.journal_open (h : s.ResumeInv) (hopen : s.a.closed = false) : s.a.journal.closed = false := by
  by_contra hn
  rw [h.behind (by simpa using hn)] at hopen; cases hopen

section

variable (C : Config) (h : s.ResumeInv) (o : Op) (hg : s.resumeSafe (.a o) = true)
include h hg

theorem stepA_ends
    (ht : (s.stepA C o).a.replacer.target = none) (hopen : (s.stepA C o).a.closed = false) :
    s.a.replacer.reach ≤ max (s.stepA C o).a.transmitted s.a.writer.reach := by
  obtain ⟨-, -, -, ha⟩ := stepA_frame C s o
  have hcl := stepA_open C hopen
  rcases ha with ha | ha
  · rw [ha] at ht
    rw [Replacer.reach_of_none ht]
    exact Nat.zero_le _
  rw [ha] at ht ⊢
  refine step_ends C h.inv.sound h.steady o (h.journal_open hcl) (h.inv.acked.base.trans (h.covered.received_le hcl))
    (fun n err ho => ?_) (fun err ho => ?_) ht hcl
  · subst ho
    have hg' : (s.a.replacer.proceeds n err || decide (s.a.replacer.reach ≤ s.a.transmitted)) = true := hg
    simpa using hg'
  · subst ho
    have hg' : (err.isNone || decide (s.a.replacer.reach ≤ s.a.transmitted)) = true := hg
    simpa using hg'

theorem stepA_resumeInv : (s.stepA C o).ResumeInv := by
  have hreach : (s.stepA C o).a.closed = false → reach s.a ≤ reach (s.stepA C o).a := by
    refine stepA_reach C h.inv o (fun n err ho => ?_) (stepA_ends C h o hg)
    subst ho; exact hg
  exact ⟨stepA_inv C h.inv o (resumeSafe_fits hg), stepA_keeps Steady h.steady (step_steady C h.steady o),
    stepA_covered C h.inv h.covered o (stepA_open C) hreach, stepA_behind C o h.behind⟩

end

theorem step_resumeInv (Ca Cb : Config) (s : Link) (o : LinkOp) (h : s.ResumeInv) (hg : s.resumeSafe o = true) :
    (step Ca Cb s o).ResumeInv := by
  cases o with
  | a o => exact stepA_resumeInv Ca h o hg
  | b o =>
    obtain ⟨ha, -⟩ := stepB_frame Cb s o
    exact ⟨stepB_inv Cb h.inv o, ha ▸ h.steady, stepB_covered Cb h.inv h.covered o, ha ▸ h.behind⟩
  | capture fromA =>
    have ha := capture_a s fromA
    exact ⟨capture_inv h.inv fromA, ha ▸ h.steady, capture_covered h.covered fromA, ha ▸ h.behind⟩

/-- the peer's offset lies in what the journal holds and `transmitted` covers -/
theorem ResumeInv.admissible (h : s.ResumeInv) (hopen : s.a.closed = false) (hidle : s.a.replacer = .idle)
    (hw : s.a.writer.active = none) : s.a.journal.baseOffset ≤ s.b.receiveOffset ∧ s.b.receiveOffset ≤ s.a.transmitted := by
  refine ⟨h.inv.acked.base, ?_⟩
  have hle := h.covered.received_le hopen
  unfold reach at hle
  rw [Writer.reach_of_none hw, hidle, Replacer.reach_of_none rfl] at hle
  omega

/-- **A flow stays resumable.** After any run that meets the conditions, with any number of failed replacements: if the
stream is open and has no physical stream, and no replacement and no attempt of a `Write` is in progress, then `Replace`
with the offset the peer has reached returns nil and publishes the candidate. -/
theorem resumable_after_failures (Ca Cb : Config) (ops : List LinkOp)
    (hg : Machine.Guarded (step Ca Cb) (fun s o => s.resumeSafe o = true) (init Ca Cb) ops) :
    let s := run Ca Cb (init Ca Cb) ops
    s.a.closed = false → s.a.physical = none → s.a.replacer = .idle → s.a.writer.active = none →
      ∀ q recv, recv ≤ s.a.receiveOffset →
        (replaceCall s.a q s.b.receiveOffset recv).log = s.a.log ++ [.replace none] ∧
          (replaceCall s.a q s.b.receiveOffset recv).physical = some q := by
  intro s hopen hp hidle hw q recv hrecv
  have h : s.ResumeInv := Machine.run_inv_guarded (step_resumeInv Ca Cb) (init_resumeInv Ca Cb) ops hg
  obtain ⟨hbase, hpeer⟩ := h.admissible hopen hidle hw
  exact replaceCall_ok h.inv.sound hopen (h.journal_open hopen) hp hidle hbase hpeer hrecv

/-- a byte is sent and the carrier goes; the first candidate takes the replayed byte and fails -/
def failedReplay : List LinkOp :=
  [.a (.write [5]), .a .writeAppend, .a .writeWait, .a .writeAttempt, .a (.writePut 1), .a (.physicalWrite 1 none),
   .a .writeEnd, .a .writeSettle, .a .detachPhysical, .capture true, .a (.replace 1 0 0), .a .replaceAck, .a .replaceState,
   .a .replaceReplay, .a (.replayPut 1), .b .detachPhysical, .b (.replace 1 0 0), .b .replaceAck, .b .replaceState,
   .b .replaceReplay, .b .replaceFin, .b .replacePublish, .b (.read 4), .b .readWait, .b (.physicalRead [5] none),
   .b .readEnd, .b .readTail, .a (.replayWrite 0 (some (.transport .carrier true)))]

theorem resumable_after_failures_replay :
    let s := run small small (init small small) failedReplay
    Result.replace (some (.stateJoin (.transport .carrier true))) ∈ s.a.log ∧ s.b.receiveOffset = 1 ∧
      (replaceCall s.a 2 s.b.receiveOffset 0).log = s.a.log ++ [.replace none] :=
  ⟨by decide, by decide,
    (resumable_after_failures small small failedReplay (by decide) (by decide) (by decide) (by decide) (by decide) 2 0
      (by decide)).1⟩

/-- the candidate of `blockedWriteReplayed` fails after its byte was read -/
def strandedReplay : List LinkOp := blockedWriteReplayed ++ [.a (.replayWrite 0 (some (.transport .carrier true)))]

/-- **A failed replacement strands the flow.** It delivered the blocked `Write`'s byte without moving `transmitted`; the
peer's true offset is refused from then on. -/
theorem failed_replay_strands :
    let s := run small small (init small small) strandedReplay
    s.a.closed = false ∧ s.a.physical = none ∧ s.a.replacer = .idle ∧ s.a.writer.active = none ∧ s.b.receiveOffset = 1 ∧
      (replaceCall s.a 2 s.b.receiveOffset 0).log = s.a.log ++ [.replace (some .resumableState)] := by
  decide

end Link

end NeProto.Continuity
