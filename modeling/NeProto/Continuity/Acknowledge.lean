/-
Acknowledgements of an honest peer. An `Ack` is checked against `transmitted`, or deferred while a physical `Write` is in
progress, and only then reaches the journal.

- `ackSafe`: the conditions on a run under which no honest acknowledgement is refused. Each closes one window in which the
  peer can hold bytes that neither `transmitted` nor an attempt accounts for, or in which an acknowledgement is overtaken.
- `honest_ack_accepted`: in every run that meets them, every `Ack` that has returned on an open stream returned nil, every
  honest `Ack` that is called now returns nil, and the control channel keeps the flow.
- `replay_ack_refused`: the first window. The candidate of a `Replace` delivers a blocked `Write`'s bytes before it is
  published; the peer's acknowledgement of them is refused.
-/
import NeProto.Constellation.ControlChannel
import NeProto.Continuity.Reach

namespace NeProto.Continuity

open List

/-! ## What the finished calls of `Ack` returned -/

def Result.ack? : Result → Option (ℕ × Option Err)
  | .ack offset err => some (offset, err)
  | _ => none

/-- the finished `Ack` calls and what they returned -/
def acks (s : St) : List (ℕ × Option Err) := s.log.filterMap Result.ack?

variable {s : St}

theorem acks_snoc {s' : St} {r : Result} (h : s'.log = s.log ++ [r]) : acks s' = acks s ++ r.ack?.toList := by
  unfold acks
  rw [h]
  cases hr : r.ack? <;> simp [hr]

/-- only `Ack` adds to them -/
theorem step_acks (C : Config) (s : St) (o : Op) (ho : o.role ≠ .acker) : acks (step C s o) = acks s := by
  rcases (step_owned C s o).log with h | ⟨r, hrole, h⟩
  · unfold acks; rw [h]
  · rw [acks_snoc h]
    cases r with
    | ack => exact absurd hrole.symm ho
    | _ => exact append_nil _

/-! ## Acknowledgements on their way to the journal -/

/-- the offset a step retires the journal to -/
def retiring (s : St) : Op → Option ℕ
  | .ackRetire i => s.ackers[i]?
  | .replaceAck =>
    match s.replacer with
    | .ack _ peer _ => some peer
    | _ => none
  | .writeSettle =>
    match s.writer with
    | .settle _ _ o => some o.deferredAck
    | _ => none
  | _ => none

/-- the `Ack` calls that wait beside it -/
def waitingBeside (s : St) : Op → List ℕ
  | .ackRetire i => s.ackers.eraseIdx i
  | _ => s.ackers

/-- what a step can do to the journal -/
inductive JournalMove (s : St) (o : Op) : Journal → Prop where
  | same : JournalMove s o s.journal
  | append {j : Journal} (hb : j.baseOffset = s.journal.baseOffset) (hc : j.closed = false) : JournalMove s o j
  | retire {x : ℕ} {j : Journal} (hx : retiring s o = some x) (hr : Retires x s.journal j) : JournalMove s o j
  | close (hc : s.closed = true) : JournalMove s o s.journal.close

section

variable (C : Config) (s : St) (o : Op)

theorem step_journal_cases : JournalMove s o (step C s o).journal := by
  have he := step_effect C s o
  generalize step C s o = s' at he
  cases he with
  | moves hm =>
    cases hm with
    | _ => exact .same
  | append _ hj =>
    obtain ⟨-, hc, hb, -⟩ := Journal.append_spec hj
    exact .append hb hc
  | settle hw hj => exact .retire (by simp only [retiring, hw]) hj
  | acked hr hj => exact .retire (by simp only [retiring, hr]) hj
  | retire hk hj => exact .retire hk hj
  | closeJournal hc => exact .close hc
  | _ => exact .same

/-- the base moves only to an offset that is being retired -/
theorem step_base {k : ℕ} (hk : s.journal.baseOffset ≤ k)
    (hr : ∀ x, retiring s o = some x → x ≤ k) : (step C s o).journal.baseOffset ≤ k := by
  generalize hj : (step C s o).journal = j
  have hm := step_journal_cases C s o
  rw [hj] at hm
  cases hm with
  | same => exact hk
  | append hb hc => exact hb.trans_le hk
  | retire hx hj => exact hj.base_max.trans (max_le hk (hr _ hx))
  | close hc => rw [Journal.close_base]; exact hk

/-- the journal closes only behind the stream -/
theorem step_journal_closed (h : s.journal.closed = true → s.closed = true)
    (hc : (step C s o).journal.closed = true) : (step C s o).closed = true := by
  refine (step_owned C s o).closed ?_
  generalize hj : (step C s o).journal = j at hc
  have hm := step_journal_cases C s o
  rw [hj] at hm
  cases hm with
  | same => exact h hc
  | append hb hc' => rw [hc] at hc'; cases hc'
  | retire hx hr => exact h (hr.closed_eq ▸ hc)
  | close hcl => exact hcl

/-! ## Replays of transmitted bytes -/

/-- a replacement captures its end once -/
theorem step_stop :
    (step C s o).replacer.stop? = s.replacer.stop? ∨ (step C s o).replacer.stop? = none ∨
      o = .replaceState ∧ s.replacer.busy = true ∧ (step C s o).replacer.stop? = some s.journal.endOffset := by
  have he := step_effect C s o
  generalize step C s o = s' at he
  cases he with
  | moves hm =>
    cases hm with
    | enter | put | ret | account => exact .inl rfl
    | start | publish => exact .inr (.inl rfl)
    | replayed hr => exact .inl (hr ▸ rfl)
    | wrote r hr _ _ hx => rcases hx with ⟨rfl, -⟩ | rfl <;> exact .inl (hr ▸ rfl)
  | failed | acked => exact .inr (.inl rfl)
  | captured hr => exact .inr (.inr ⟨rfl, hr ▸ rfl, rfl⟩)
  | chunk hr | drained hr => exact .inl (hr ▸ rfl)
  | finish _ hr hx => rcases hr with hr | hr <;> rcases hx with rfl | ⟨localFIN, rfl⟩ <;> exact .inl (hr ▸ rfl)
  | detach _ hr => rcases Replacer.rest hr with rfl | ⟨i, rfl⟩ <;> exact .inr (.inl rfl)
  | _ => exact .inl rfl

end

/-- a replay that stays below `transmitted` -/
theorem replay_le (hS : Sound s) (hin : s.replacer.Within) (hc : ∀ e, s.replacer.stop? = some e → e ≤ s.transmitted) :
    s.replacer.reach ≤ s.transmitted := by
  have hok := hS.replacer
  cases hr : s.replacer <;> rw [hr] at hok hc hin
  case idle | detach => exact Nat.zero_le _
  case ack | state => exact hok
  case loop => exact le_trans hin (hc _ rfl)
  case write q recv stop room off chunk put =>
    obtain ⟨-, -, h4, h5, -⟩ := hok
    have hoff : off ≤ stop := hin
    have := hc stop rfl
    change off - chunk.length + put ≤ s.transmitted
    omega
  case fin | closeWrite | publish => exact hc _ rfl

/-! ## The conditions -/

/-- a physical `Write` reports at least what was taken, and no more than it was handed -/
def Writer.reports (n : ℕ) : Writer → Bool
  | .call c _ t put => decide (put ≤ n ∧ n ≤ (c.rest t).length)
  | _ => true

/-- no `Ack` that waits for the journal is overtaken by a larger offset -/
def inOrder (s : St) (o : Op) : Bool :=
  (retiring s o).all fun x => (waitingBeside s o).all fun k => decide (x ≤ k)

theorem inOrder_le {o : Op} (h : inOrder s o = true) {x k : ℕ} (hx : retiring s o = some x)
    (hk : k ∈ waitingBeside s o) : x ≤ k := by
  unfold inOrder at h
  rw [hx] at h
  exact of_decide_eq_true (all_eq_true.1 h k hk)

namespace Link

def ackSafe (s : Link) : LinkOp → Bool
  -- a replay chunk ends at or before the captured end
  | .a .replaceReplay => s.a.replacer.fits s.a.journal.endOffset
  -- a replacement starts its replay with nothing journaled that was not transmitted
  | .a .replaceState => !s.a.replacer.busy || decide (s.a.journal.endOffset ≤ s.a.transmitted)
  | .a (.physicalWrite n _) => s.a.writer.reports n
  -- an acknowledgement is not below the journal base when it comes in
  | .a (.ack offset) => decide (s.a.journal.baseOffset ≤ offset)
  | .a o => inOrder s.a o
  | _ => true

/-! ## The invariant -/

structure AckInv (s : Link) : Prop where
  inv : s.Inv
  covered : s.Covered
  /-- a running replay stays below `transmitted` -/
  captured : ∀ e, s.a.replacer.stop? = some e → e ≤ s.a.transmitted
  waiting : ∀ k ∈ s.a.ackers, s.a.journal.baseOffset ≤ k
  behind : s.a.journal.closed = true → s.a.closed = true
  accepted : s.a.closed = false → ∀ k e, (k, some e) ∉ acks s.a

variable {s : Link} {o : Op}

theorem init_ackInv (Ca Cb : Config) : (init Ca Cb).AckInv where
  inv := init_inv Ca Cb
  covered := init_covered Ca Cb
  captured := nofun
  waiting := nofun
  behind := nofun
  accepted := nofun

/-- **No honest offset is out of range.** What the peer has received is transmitted, or inside the attempt in progress. -/
theorem AckInv.in_range (h : s.AckInv) (hopen : s.a.closed = false) : s.b.receiveOffset ≤ s.a.transmitted ∨
      s.a.writeAttemptEnd ≠ 0 ∧ s.b.receiveOffset ≤ s.a.writeAttemptEnd := by
  have hle := h.covered.received_le hopen
  have hrep := replay_le h.inv.sound h.inv.within h.captured
  unfold reach at hle
  cases hw : s.a.writer.active with
  | none =>
    rw [Writer.reach_of_none hw] at hle
    omega
  | some x =>
    obtain ⟨-, h1, h2, h3, -, h5⟩ := h.inv.sound.attempt hw
    rw [Writer.reach_of_active hw] at hle
    by_cases hr : s.b.receiveOffset ≤ s.a.transmitted
    · exact .inl hr
    · omega

/-! ## Every step keeps it -/

/-- a replay write that reports less than the pipe took is none of the link's -/
theorem stepA_replayWrite {C : Config} {n q recv stop room off put : ℕ} {chunk : List Byte}
    (hr : s.a.replacer = .write q recv stop room off chunk put) (hne : (s.stepA C (.replayWrite n none)).a ≠ s.a) :
    n = put := by
  by_contra hn
  apply hne
  simp only [stepA, hr, if_neg hn]
  rfl

theorem stepA_reach (C : Config) (h : s.Inv) (o : Op) (hrep : ∀ n err, o = .physicalWrite n err → s.a.writer.reports n = true)
    (hend : (s.stepA C o).a.replacer.target = none → (s.stepA C o).a.closed = false →
      s.a.replacer.reach ≤ max (s.stepA C o).a.transmitted s.a.writer.reach)
    (hopen : (s.stepA C o).a.closed = false) : reach s.a ≤ reach (s.stepA C o).a := by
  obtain ⟨-, -, -, ha⟩ := stepA_frame C s o
  by_cases hsame : (s.stepA C o).a = s.a
  · rw [hsame]
  have ha' := ha.resolve_left hsame
  rw [ha'] at hopen hend ⊢
  refine step_reach C h.sound h.within o hopen ?_ ?_ (fun ht => hend ht hopen)
  · rintro n err c p t m rfl hw
    have := hrep n err rfl
    rw [hw] at this
    exact of_decide_eq_true this
  · rintro n q recv stop room off chunk put rfl hr
    exact (stepA_replayWrite hr hsame).ge

theorem ack_accepted (h : s.AckInv) {offset : ℕ} (hle : offset ≤ s.b.receiveOffset) :
    s.a.closed = false → ∀ k e, (k, some e) ∉ acks (ack s.a offset) := by
  intro hopen k e
  have hold := h.accepted hopen k e
  unfold ack
  rw [if_neg (by rw [hopen]; exact Bool.false_ne_true)]
  split_ifs with h1 h2
  · rw [acks_snoc rfl]
    simpa [Result.ack?] using hold
  · -- an honest offset is transmitted or inside the attempt
    rcases h.in_range hopen with hr | hr
    · omega
    · exact absurd ⟨hr.1, hle.trans hr.2⟩ h2
  · exact hold

theorem ackRetire_accepted (h : s.AckInv) (i : ℕ) : s.a.closed = false → ∀ k e, (k, some e) ∉ acks (ackRetire s.a i) := by
  intro hopen k e
  have hold := h.accepted hopen k e
  unfold ackRetire
  split
  · exact hold
  rename_i offset hi
  have hmem := mem_of_getElem? hi
  have hjc : s.a.journal.closed = false := by
    by_contra hn
    rw [h.behind (by simpa using hn)] at hopen; cases hopen
  have hend : offset ≤ s.a.journal.endOffset := by
    rw [h.inv.sound.len]
    exact (h.inv.acked.ackers offset hmem).trans h.inv.received_le
  obtain ⟨j, hj⟩ := Journal.ack_ok s.a.journal offset hjc (h.waiting offset hmem) hend
  have hok : ackJournal s.a.journal offset false = .ok j := by
    unfold ackJournal
    exact hj
  rw [hok]
  rw [acks_snoc rfl]
  simpa [Result.ack?] using hold

theorem stepA_accepted (C : Config) (h : s.AckInv) (o : Op) (hopen : s.a.closed = false) :
    ∀ k e, (k, some e) ∉ acks (s.stepA C o).a := by
  intro k e
  have hold := h.accepted hopen k e
  have hother (ho : o.role ≠ .acker) : (k, some e) ∉ acks (s.stepA C o).a :=
    stepA_keeps ((k, some e) ∉ acks ·) hold ((step_acks C s.a o ho).symm ▸ hold)
  cases o with
  | ack offset =>
    simp only [stepA]
    split_ifs with hle
    · exact ack_accepted h hle hopen k e
    · exact hold
  | ackRetire i => exact ackRetire_accepted h i hopen k e
  | _ => exact hother (fun h => by cases h)

/-- who waits after a step: a new `Ack`, or one that waited beside it -/
theorem step_waiting (C : Config) (s : St) (o : Op) {k : ℕ} (hk : k ∈ (Continuity.step C s o).ackers) :
    k ∈ s.ackers ∧ k ∈ waitingBeside s o ∨ o = .ack k := by
  have hown := (step_owned C s o).ackers
  cases o with
  | ack offset =>
    change k ∈ (ack s offset).ackers at hk
    unfold ack at hk
    split_ifs at hk
    · exact .inl ⟨hk, hk⟩
    · exact .inl ⟨hk, hk⟩
    · exact .inl ⟨hk, hk⟩
    rcases mem_append.1 hk with hk | hk
    · exact .inl ⟨hk, hk⟩
    · rw [mem_singleton.1 hk]; exact .inr rfl
  | ackRetire i =>
    left
    change k ∈ (ackRetire s i).ackers at hk
    unfold ackRetire at hk
    split at hk
    · rename_i hi
      refine ⟨hk, ?_⟩
      change k ∈ s.ackers.eraseIdx i
      rwa [eraseIdx_of_length_le (getElem?_eq_none_iff.1 hi)]
    split at hk
    · exact ⟨mem_of_mem_eraseIdx hk, hk⟩
    · exact ⟨mem_of_mem_eraseIdx hk, hk⟩
  | _ =>
    rw [hown nofun] at hk
    exact .inl ⟨hk, hk⟩

/-- a safe step retires nothing past a waiting `Ack` -/
theorem ackSafe_inOrder (h : s.ackSafe (.a o) = true) : inOrder s.a o = true := by
  cases o with
  | replaceReplay | replaceState | physicalWrite | ack => rfl
  | _ => exact h

theorem stepA_waiting (C : Config) (h : s.AckInv) (o : Op) (hg : s.ackSafe (.a o) = true) :
    ∀ k ∈ (s.stepA C o).a.ackers, (s.stepA C o).a.journal.baseOffset ≤ k := by
  refine stepA_keeps (fun a => ∀ k ∈ a.ackers, a.journal.baseOffset ≤ k) h.waiting fun k hk => ?_
  rcases step_waiting C s.a o hk with ⟨hold, hbeside⟩ | rfl
  · exact step_base C s.a o (h.waiting k hold) fun x hx => inOrder_le (ackSafe_inOrder hg) hx hbeside
  · exact step_base C s.a _ (of_decide_eq_true hg) nofun

theorem stepA_captured (C : Config) (h : s.AckInv) (o : Op) (hg : s.ackSafe (.a o) = true) :
    ∀ e, (s.stepA C o).a.replacer.stop? = some e → e ≤ (s.stepA C o).a.transmitted := by
  refine stepA_keeps (fun a => ∀ e, a.replacer.stop? = some e → e ≤ a.transmitted) h.captured fun e he => ?_
  refine le_trans ?_ (step_transmitted C h.inv.sound o)
  rcases step_stop C s.a o with hs | hs | ⟨rfl, hbusy, hs⟩
  · exact h.captured e (hs ▸ he)
  · rw [hs] at he; cases he
  rw [hs] at he
  cases he
  have hg' : (!s.a.replacer.busy || decide (s.a.journal.endOffset ≤ s.a.transmitted)) = true := hg
  rw [hbusy] at hg'
  exact of_decide_eq_true hg'

theorem ackSafe_fits (h : s.ackSafe (.a o) = true) : chunkFits s.a o := by
  rintro rfl
  exact h

theorem stepA_open (C : Config) (h : (s.stepA C o).a.closed = false) : s.a.closed = false := by
  by_contra hn
  have hc := Bool.eq_true_of_not_eq_false hn
  rw [stepA_keeps (·.closed = true) hc ((step_owned C s.a o).closed hc)] at h
  cases h

theorem stepA_behind (C : Config) (o : Op) (h : s.a.journal.closed = true → s.a.closed = true) :
    (s.stepA C o).a.journal.closed = true → (s.stepA C o).a.closed = true :=
  stepA_keeps (fun a => a.journal.closed = true → a.closed = true) h (step_journal_closed C s.a o h)

theorem capture_a (s : Link) (fromA : Bool) : (s.capture fromA).a = s.a := by
  unfold capture
  split_ifs <;> rfl

theorem stepA_ackInv (C : Config) (h : s.AckInv) (o : Op) (hg : s.ackSafe (.a o) = true) : (s.stepA C o).AckInv := by
  have hreach : (s.stepA C o).a.closed = false → reach s.a ≤ reach (s.stepA C o).a := by
    refine stepA_reach C h.inv o (fun n err ho => ?_) (fun _ _ => ?_)
    · subst ho; exact hg
    · have htr := stepA_keeps (s.a.transmitted ≤ ·.transmitted) le_rfl (step_transmitted C h.inv.sound o)
      have := replay_le h.inv.sound h.inv.within h.captured
      omega
  exact ⟨stepA_inv C h.inv o (ackSafe_fits hg), stepA_covered C h.inv h.covered o (stepA_open C) hreach,
    stepA_captured C h o hg, stepA_waiting C h o hg, stepA_behind C o h.behind,
    fun ho => stepA_accepted C h o (stepA_open C ho)⟩

theorem step_ackInv (Ca Cb : Config) (s : Link) (o : LinkOp) (h : s.AckInv) (hg : s.ackSafe o = true) :
    (step Ca Cb s o).AckInv := by
  cases o with
  | a o => exact stepA_ackInv Ca h o hg
  | b o =>
    obtain ⟨ha, -⟩ := stepB_frame Cb s o
    exact ⟨stepB_inv Cb h.inv o, stepB_covered Cb h.inv h.covered o, ha ▸ h.captured, ha ▸ h.waiting,
      ha ▸ h.behind, ha ▸ h.accepted⟩
  | capture fromA =>
    have ha := capture_a s fromA
    exact ⟨capture_inv h.inv fromA, capture_covered h.covered fromA, ha ▸ h.captured, ha ▸ h.waiting,
      ha ▸ h.behind, ha ▸ h.accepted⟩

theorem run_ackInv (Ca Cb : Config) (ops : List LinkOp)
    (hg : Machine.Guarded (step Ca Cb) (fun s o => s.ackSafe o = true) (init Ca Cb) ops) :
    (run Ca Cb (init Ca Cb) ops).AckInv :=
  Machine.run_inv_guarded (step_ackInv Ca Cb) (init_ackInv Ca Cb) ops hg

/-! ## Honest acknowledgements -/

/-- a whole `Ack` call without interference -/
def ackCall (s : St) (offset : ℕ) : St := ackRetire (ack s offset) s.ackers.length

theorem AckInv.ackCall_accepted (h : s.AckInv) (hopen : s.a.closed = false) {k : ℕ}
    (hb : s.a.journal.baseOffset ≤ k) (hk : k ≤ s.b.receiveOffset) : acks (ackCall s.a k) = acks s.a ++ [(k, none)] := by
  have hjc : s.a.journal.closed = false := by
    by_contra hn
    rw [h.behind (by simpa using hn)] at hopen; cases hopen
  have hend : k ≤ s.a.journal.endOffset := by
    rw [h.inv.sound.len]; exact hk.trans h.inv.received_le
  obtain ⟨j, hj⟩ := Journal.ack_ok s.a.journal k hjc hb hend
  unfold ackCall ack
  rw [if_neg (by rw [hopen]; exact Bool.false_ne_true)]
  split_ifs with h1 h2
  · -- deferred to the attempt in progress
    have hnone : s.a.ackers[s.a.ackers.length]? = none := getElem?_eq_none_iff.2 le_rfl
    unfold ackRetire
    simp only [hnone]
    exact acks_snoc (r := .ack k none) rfl
  · rcases h.in_range hopen with hr | hr
    · omega
    · exact absurd ⟨hr.1, hk.trans hr.2⟩ h2
  · have hlast : (s.a.ackers ++ [k])[s.a.ackers.length]? = some k := by simp
    have hok : ackJournal s.a.journal k false = .ok j := by
      unfold ackJournal
      exact hj
    unfold ackRetire
    simp only [hlast, hok]
    exact acks_snoc (r := .ack k none) rfl

/-- **Honest acknowledgements are accepted.** In every run that meets the conditions, as long as the stream is not closed:
every `Ack` that has returned returned nil, an honest `Ack` that is called now returns nil, and no acknowledgement makes
the control channel abort the flow. -/
theorem honest_ack_accepted (Ca Cb : Config) (ops : List LinkOp)
    (hg : Machine.Guarded (step Ca Cb) (fun s o => s.ackSafe o = true) (init Ca Cb) ops) :
    let s := run Ca Cb (init Ca Cb) ops
    s.a.closed = false →
      (∀ k r, (k, r) ∈ acks s.a → r = none) ∧
      (∀ k, s.a.journal.baseOffset ≤ k → k ≤ s.b.receiveOffset → acks (ackCall s.a k) = acks s.a ++ [(k, none)]) ∧
      ∀ (c : Constellation.ControlChannel) (flow k : ℕ) (r : Option Err), flow ∈ c.handlers → (k, r) ∈ acks s.a →
        c.handleAck flow r = (c, []) := by
  intro s hopen
  have h : s.AckInv := run_ackInv Ca Cb ops hg
  have hnil : ∀ k r, (k, r) ∈ acks s.a → r = none := by
    intro k r hm
    cases r with
    | none => rfl
    | some e => exact absurd hm (h.accepted hopen k e)
  refine ⟨hnil, fun k hb hk => h.ackCall_accepted hopen hb hk, fun c flow k r hf hm => ?_⟩
  exact (c.handleAck_quiet flow r hf).2 (hnil k r hm)

/-- both ends migrate and the peer acknowledges what it has read -/
def migrationAck : List LinkOp := migration ++ [.a (.ack 2), .a (.ackRetire 0)]

theorem honest_ack_accepted_migration :
    Machine.Guarded (step small small) (fun s o => s.ackSafe o = true) (init small small) migrationAck ∧
      (2, none) ∈ acks (run small small (init small small) migrationAck).a ∧
      ∀ k r, (k, r) ∈ acks (run small small (init small small) migrationAck).a → r = none :=
  ⟨by decide, by decide, (honest_ack_accepted small small migrationAck (by decide) (by decide)).1⟩

/-- a `Write` is blocked without a physical stream; `Replace` replays its byte, and the peer, which has taken the
replacement already, reads it before `Replace` publishes -/
def blockedWriteReplayed : List LinkOp :=
  [.a .detachPhysical, .capture true, .a (.write [7]), .a .writeAppend, .a .writeWait, .a (.replace 1 0 0), .a .replaceAck,
   .a .replaceState, .a .replaceReplay, .a (.replayPut 1), .b .detachPhysical, .b (.replace 1 0 0), .b .replaceAck,
   .b .replaceState, .b .replaceReplay, .b .replaceFin, .b .replacePublish, .b (.read 4), .b .readWait,
   .b (.physicalRead [7] none), .b .readEnd, .b .readTail]

/-- **An honest acknowledgement is refused** while the replay that delivered the byte is not published, and the control
channel aborts the flow. -/
theorem replay_ack_refused :
    let s := run small small (init small small) blockedWriteReplayed
    s.a.closed = false ∧ s.a.journal.baseOffset ≤ 1 ∧ s.b.receiveOffset = 1 ∧ returned s.b = [7] ∧
      acks (ackCall s.a 1) = [(1, some .resumableState)] ∧
      Constellation.ControlChannel.handleAck ⟨[0]⟩ 0 (some .resumableState) =
        (⟨[]⟩, [.abort 0 (.flowRefused .resumableState), .sendAbort 0]) := by
  decide

end Link

end NeProto.Continuity
