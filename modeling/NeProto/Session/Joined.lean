/-
Both directions of an accepted stream. In every state in which neither end has failed, been reset or closed by force both satisfy
`Flow`, and everything the receiver checks follows.

- `Joined`: both directions flow, and each end knows the other's window or has not heard of it yet.
- `Joined.effect`, `Joined.transmit`, `Joined.handle`: a call, the carrier and the read loop keep it.
- `Joined.passes`: the next cell passes the checks of `handleCell`.
- `Joined.drained`: an end that can be retired has nothing coming.
-/
import NeProto.Session.Endpoint

namespace NeProto.Session

open Endpoint Function List Side

open Continuity (maxSequence)

@[simp] theorem Side.other_other (x : Side) : x.other.other = x := by cases x <;> rfl

theorem Side.other_ne (x : Side) : x.other ≠ x := by cases x <;> exact nofun

theorem Side.eq_or (x y : Side) : y = x ∨ y = x.other := by
  cases x <;> cases y <;> simp [other]

namespace Link

/-! ## The pair -/

/-- the cells on their way from `x`: those on the carrier and the one that waits for it -/
def pipe (w : Link) (x : Side) : List Cell := w.toward x.other ++ (w.ends x).out

/-- an end knows the other's window or has not heard of it yet -/
def Limited (a b : Endpoint) : Prop :=
  a.stream.recvSequence ≠ 0 ∧ a.stream.sendWindow = b.stream.window ∨
    a.stream.recvSequence = 0 ∧ a.stream.sendWindow = 0 ∧ a.stream.sendCredit = 0

structure Joined (w : Link) : Prop where
  flow : ∀ x, Flow (w.ends x).sends (w.ends x.other).recvs (w.pipe x) (creditOf (w.pipe x.other))
  limit : ∀ x, Limited (w.ends x) (w.ends x.other)

variable {w : Link} {c : Cell} {rest : List Cell}

/-- both ends and what is between them, by name -/
theorem Joined.of_pair (x : Side) {a b : Endpoint} {p q : List Cell} (ha : w.ends x = a) (hb : w.ends x.other = b)
    (hp : w.pipe x = p) (hq : w.pipe x.other = q) (hx : Flow a.sends b.recvs p (creditOf q))
    (hy : Flow b.sends a.recvs q (creditOf p)) (hlx : Limited a b) (hly : Limited b a) : w.Joined := by
  subst ha hb hp hq
  refine ⟨fun z => ?_, fun z => ?_⟩
  · rcases x.eq_or z with rfl | rfl
    · exact hx
    · rw [other_other]
      exact hy
  · rcases x.eq_or z with rfl | rfl
    · exact hlx
    · rw [other_other]
      exact hly

theorem setEnd_self (w : Link) (x : Side) (e : Endpoint) : (w.setEnd x e).ends x = e := update_self ..

theorem setEnd_other (w : Link) (x : Side) (e : Endpoint) : (w.setEnd x e).ends x.other = w.ends x.other :=
  update_of_ne x.other_ne ..

/-- what holds of every end still does if it holds of the new one -/
theorem setEnd_all {P : Side → Endpoint → Prop} {x : Side} {e : Endpoint} (h : ∀ z, P z (w.ends z)) (he : P x e) (z : Side) :
    P z ((w.setEnd x e).ends z) :=
  (forall_update_iff w.ends P).2 ⟨he, fun z _ => h z⟩ z

theorem setEnd_same {α : Type} {x : Side} {e : Endpoint} (f : Endpoint → α) (he : f e = f (w.ends x)) (z : Side) :
    f ((w.setEnd x e).ends z) = f (w.ends z) :=
  setEnd_all (P := fun z e => f e = f (w.ends z)) (fun _ => rfl) he z

theorem setEnd_alive {x : Side} {e : Endpoint} (he : e.Alive → (w.ends x).Alive) (z : Side) :
    ((w.setEnd x e).ends z).Alive → (w.ends z).Alive :=
  setEnd_all (P := fun z e => e.Alive → (w.ends z).Alive) (fun _ => id) he z

theorem setEnd_pipe (w : Link) (x : Side) (e : Endpoint) : (w.setEnd x e).pipe x = w.toward x.other ++ e.out := by
  simp only [pipe, setEnd_self]
  rfl

theorem setEnd_pipe_other (w : Link) (x : Side) (e : Endpoint) : (w.setEnd x e).pipe x.other = w.pipe x.other := by
  simp only [pipe, setEnd_other]
  rfl

theorem pipe_eq (w : Link) (x : Side) : w.pipe x = w.toward x.other ++ (w.ends x).out := rfl

/-- no call changes what the peer can see of the limits -/
theorem Joined.limits (h : w.Joined) (x : Side) {e : Endpoint} (he : Endpoint.Effect (w.ends x) e) :
    Limited e (w.ends x.other) ∧ Limited (w.ends x.other) e := by
  have hsame : e.sends.window = (w.ends x).sends.window ∧ e.sends.limit = (w.ends x).sends.limit ∧
      e.recvs.sequence = (w.ends x).recvs.sequence ∧ e.sends.credit ≤ (w.ends x).sends.credit := by
    cases he with
    | data _ _ _ _ hs hr => exact hs ▸ hr ▸ ⟨rfl, rfl, rfl, Nat.sub_le _ _⟩
    | quiet hs hr | fin _ hs hr | mute hs hr | update _ _ hs hr | read _ hs hr =>
      rw [hs, hr]
      exact ⟨rfl, rfl, rfl, le_rfl⟩
  have hx := h.limit x
  have hy := h.limit x.other
  rw [other_other] at hy
  simp only [sends, recvs] at hsame
  obtain ⟨hw, hl, hs, hc⟩ := hsame
  rw [Limited, Limited, hw, hl, hs]
  refine ⟨hx.imp_right fun h => ⟨h.1, h.2.1, ?_⟩, hy⟩
  omega

/-- a call on one end that stays alive -/
theorem Joined.effect (h : w.Joined) (x : Side) {e : Endpoint} (he : Endpoint.Effect (w.ends x) e) :
    (w.setEnd x e).Joined := by
  have hx := h.flow x
  have hy := h.flow x.other
  rw [other_other] at hy
  obtain ⟨hlx, hly⟩ := h.limits x he
  suffices hflow : Flow e.sends (w.ends x.other).recvs (w.toward x.other ++ e.out) (creditOf (w.pipe x.other)) ∧
      Flow (w.ends x.other).sends e.recvs (w.pipe x.other) (creditOf (w.toward x.other ++ e.out)) from
    .of_pair x (setEnd_self ..) (setEnd_other ..) (setEnd_pipe ..) (setEnd_pipe_other ..) hflow.1 hflow.2 hlx hly
  cases he with
  | quiet hs hr ho =>
    rw [hs, hr, ho]
    exact ⟨hx, hy⟩
  | data chunk hne hle hfin hs hr ho ho' =>
    rw [pipe_eq w x, ho, append_nil] at hx hy
    rw [hs, hr, ho', creditOf_append]
    exact ⟨hx.send (.data chunk) _ _ ⟨hx.started, hne⟩ (Nat.sub_add_cancel hle) (fun _ => hfin) (by simp), hy⟩
  | fin hfin hs hr ho ho' =>
    rw [pipe_eq w x, ho, append_nil] at hx hy
    rw [hs, hr, ho', creditOf_append]
    have hsend := hx.send .fin _ true hx.started rfl (fun _ => hfin) (by simp)
    rw [show (Body.fin).bytes = [] from rfl, append_nil] at hsend
    exact ⟨hsend, hy⟩
  | mute hs hr ho =>
    rw [hs, hr, ho]
    exact ⟨{ hx with fin := fun _ => rfl }, hy⟩
  | update credit hpos hs hr ho ho' =>
    rw [pipe_eq w x, ho, append_nil] at hx hy
    rw [hs, ho', creditOf_append]
    have hsend := hx.send (.windowUpdate credit) _ (w.ends x).sends.fin ⟨hx.started, hpos⟩ rfl nofun (by simp)
    rw [show (Body.windowUpdate credit).bytes = [] from rfl, append_nil] at hsend
    rw [hr] at hy
    refine ⟨hsend, hy.move (w.ends x.other).sends.credit e.recvs.credit e.recvs.owed _ ?_⟩
    simp only [creditOf_cons, creditOf_nil, Body.credit]
    omega
  | read credit hs hr ho =>
    rw [hs, hr, ho]
    exact ⟨hx, hy.move (w.ends x.other).sends.credit _ _ (creditOf (w.pipe x)) (by omega)⟩

/-! ## The carrier -/

section

variable (w : Link) (x : Side) (e : Endpoint) (c : Cell)

theorem posted_self : (w.posted x e c).ends x = e := setEnd_self ..

theorem posted_other : (w.posted x e c).ends x.other = w.ends x.other := setEnd_other ..

theorem posted_toward : (w.posted x e c).toward x.other = w.toward x.other ++ [c] :=
  update_self ..

theorem posted_toward_self : (w.posted x e c).toward x = w.toward x := update_of_ne x.other_ne.symm ..

end

/-- a cell goes from `sendMu` to the carrier -/
theorem Joined.transmit (h : w.Joined) (x : Side) {sender : Sender} (ho : (w.ends x).outgoing = some (c, sender)) :
    (w.posted x ((w.ends x).sent sender) c).Joined := by
  obtain ⟨hs, hr, hout, hstream, -, -⟩ := sent_views (w.ends x) sender
  have hpipe : (w.posted x ((w.ends x).sent sender) c).pipe x = w.pipe x := by
    rw [pipe_eq, pipe_eq, posted_self, hout, posted_toward, append_nil]
    simp only [out, ho, Option.map_some, Option.toList_some]
  have hpipe' : (w.posted x ((w.ends x).sent sender) c).pipe x.other = w.pipe x.other := by
    rw [pipe_eq, pipe_eq, posted_other, other_other, posted_toward_self]
  have hy := h.flow x.other
  have hly := h.limit x.other
  rw [other_other] at hy hly
  refine .of_pair x (posted_self ..) (posted_other ..) hpipe hpipe' (hs ▸ h.flow x) (hr ▸ hy) ?_ ?_
  · rw [Limited, hstream]
    exact h.limit x
  · rw [Limited, hstream]
    exact hly

/-! ## The read loop -/

section

variable (w : Link) (x : Side) (rest : List Cell) (e : Endpoint)

theorem taken_self : (w.taken x rest e).ends x = e := setEnd_self ..

theorem taken_other : (w.taken x rest e).ends x.other = w.ends x.other :=
  setEnd_other ..

theorem taken_toward : (w.taken x rest e).toward x = rest := update_self ..

theorem taken_toward_other : (w.taken x rest e).toward x.other = w.toward x.other :=
  update_of_ne x.other_ne ..

end

theorem Joined.taken (h : w.Joined) (x : Side) (hto : w.toward x = c :: rest) {e : Endpoint} (hout : e.out = (w.ends x).out)
    (hrecv : Flow (w.ends x.other).sends (w.ends x).recvs (c :: (rest ++ (w.ends x.other).out)) (creditOf (w.pipe x)) →
      Flow (w.ends x.other).sends e.recvs (rest ++ (w.ends x.other).out) (creditOf (w.pipe x)))
    (hsend : Flow (w.ends x).sends (w.ends x.other).recvs (w.pipe x)
        (c.body.credit + creditOf (rest ++ (w.ends x.other).out)) →
      Flow e.sends (w.ends x.other).recvs (w.pipe x) (creditOf (rest ++ (w.ends x.other).out)))
    (hlimit : e.stream.recvSequence ≠ 0 ∧ e.stream.sendWindow = (w.ends x.other).stream.window)
    (hwindow : e.stream.window = (w.ends x).stream.window) : (w.taken x rest e).Joined := by
  have hx := h.flow x
  have hy := h.flow x.other
  have hly := h.limit x.other
  rw [other_other] at hy hly
  have hold : w.pipe x.other = c :: (rest ++ (w.ends x.other).out) := by
    simp only [pipe, other_other, hto, cons_append]
  have hpipe : (w.taken x rest e).pipe x = w.pipe x := by
    rw [pipe_eq, pipe_eq, taken_self, hout, taken_toward_other]
  have hpipe' : (w.taken x rest e).pipe x.other = rest ++ (w.ends x.other).out := by
    rw [pipe_eq, taken_other, other_other, taken_toward]
  rw [hold] at hx hy
  refine .of_pair x (taken_self ..) (taken_other ..) hpipe hpipe' (hsend (by rwa [creditOf_cons] at hx)) (hrecv hy)
    (.inl hlimit) ?_
  rw [Limited, hwindow]
  exact hly

/-- everything on the way to an end is a cell its sender may send -/
theorem Joined.cell (h : w.Joined) (x : Side) (hto : w.toward x = c :: rest) : CellOk (w.ends x.other).stream.window c := by
  refine (h.flow x.other).cells c ?_
  simp [pipe, hto]

section

variable (hsound : ∀ x, (w.ends x).Sound)
include hsound

/-- an end that can be retired has nothing coming -/
theorem Joined.drained (h : w.Joined) (x : Side)
    (hr : (w.ends x).stream.canRetire = true) : w.pipe x.other = [] := by
  obtain ⟨-, hfin, -, hpos, hsend, -, -⟩ := (Stream.canRetire_iff _).1 hr
  have hx := h.flow x
  have hy := h.flow x.other
  rw [other_other] at hy
  have hlim : (w.ends x).stream.recvSequence ≠ 0 ∧ (w.ends x).stream.sendWindow = (w.ends x.other).stream.window :=
    (h.limit x).resolve_right fun ⟨_, hz, _⟩ => absurd hz hpos.ne'
  -- all credit is back, so none is on its way
  have hback : creditOf (w.pipe x.other) = 0 := by
    have hcredit := hx.credit
    have hlocal := (hsound x.other).stream.credit
    simp only [sends, recvs] at hcredit
    omega
  rw [eq_nil_iff_forall_not_mem]
  intro c hc
  have hok := hy.cells c hc
  have hcontent := hy.finished hfin c hc
  have hcredit := creditOf_mem hc
  cases hb : c.body with
  | openOK credit => exact absurd (hy.openOK_first hc hb) hlim.1
  | windowUpdate credit =>
    simp only [CellOk, hb] at hok
    simp only [hb, Body.credit] at hcredit
    omega
  | data _ | fin =>
    rw [hb] at hcontent
    cases hcontent
  | opening _ | openFail _ | reset _ => simp only [CellOk, hb] at hok

/-- the cell passes every check of `handleCell`; only the sequence numbers may be exhausted -/
theorem Joined.passes (h : w.Joined) (W : Side → Window)
    (hW : ∀ x, (w.ends x).stream.window = (W x).value) (x : Side) (hto : w.toward x = c :: rest) :
    ((w.ends x).stream.handleCell c).2 = none ∨
      ((w.ends x).stream.handleCell c).2 = some .exhausted ∧ (w.ends x).stream.recvSequence = maxSequence := by
  have hx := h.flow x
  have hy := h.flow x.other
  have hlim := h.limit x
  have hok := h.cell x hto
  rw [other_other] at hy
  have hold : w.pipe x.other = c :: (rest ++ (w.ends x.other).out) := by
    simp only [pipe, other_other, hto, cons_append]
  rw [hold] at hx hy
  have hseq : c.sequence = (w.ends x).stream.recvSequence := hy.head_sequence
  have hlocal := (hsound x.other).stream.credit
  have hle := (W x.other).le
  have hpos := (W x.other).pos
  rw [← hW x.other] at hle hpos
  have hcx := hx.credit
  have hcy := hy.credit
  simp only [sends, recvs, creditOf_cons, bytesOf_cons, length_append] at hcx hcy
  simp only [maxInitialWindow] at hle
  by_cases hex : (w.ends x).stream.recvSequence = maxSequence
  · by_cases hopen : ∃ credit, c.body = .openOK credit
    · obtain ⟨credit, hb⟩ := hopen
      simp only [CellOk, hb] at hok
      rw [hok.1] at hseq
      exact absurd (hseq.trans hex) (by decide)
    · right
      cases hb : c.body with
      | openOK credit => exact absurd ⟨credit, hb⟩ hopen
      | opening _ | openFail _ | reset _ => simp only [CellOk, hb] at hok
      | data _ | fin | windowUpdate _ => simp [Stream.handleCell, hb, hseq, hex]
  · left
    have hfin : c.body.content = true → (w.ends x).stream.peerFIN = false := by
      intro hcontent
      cases hf : (w.ends x).stream.peerFIN with
      | false => rfl
      | true =>
        have := hy.finished hf c mem_cons_self
        rw [hcontent] at this
        cases this
    cases hb : c.body with
    | opening _ | openFail _ | reset _ => simp only [CellOk, hb] at hok
    | openOK credit =>
      simp only [CellOk, hb] at hok
      have h1 : ¬(credit = 0 ∨ maxInt64 < credit ∨ maxInitialWindow < credit) := by
        simp only [maxInt64, maxInitialWindow]
        omega
      simp [Stream.handleCell, hb, hok.1, hok.1 ▸ hseq.symm, h1]
    | data payload =>
      have hfin := hfin (hb ▸ rfl)
      simp only [hb, Body.bytes] at hcy
      have h1 : ¬(w.ends x).stream.recvCredit < payload.length := by omega
      simp [Stream.handleCell, hb, hseq, hex, hfin, h1]
    | fin =>
      have hfin := hfin (hb ▸ rfl)
      simp [Stream.handleCell, hb, hseq, hex, hfin]
    | windowUpdate credit =>
      simp only [CellOk, hb] at hok
      have hl : (w.ends x).stream.sendWindow = (w.ends x.other).stream.window :=
        (hlim.resolve_right fun hz => hok.1 (hseq.trans hz.1)).2
      simp only [hb, Body.credit] at hcx
      have h1 : ¬(credit = 0 ∨ maxInt64 < credit ∨ (w.ends x).stream.sendWindow < credit ∨
          maxUint64 - credit < (w.ends x).stream.sendCredit ∨
          (w.ends x).stream.sendWindow < (w.ends x).stream.sendCredit + credit) := by
        simp only [maxInt64, maxUint64]
        omega
      simp only [Stream.handleCell, hb, hseq, hex, ne_eq, not_true_eq_false, if_false, h1]

/-- the read loop hands a cell to a stream that stays alive -/
theorem Joined.handle (h : w.Joined) (x : Side)
    (hto : w.toward x = c :: rest) {e : Endpoint} (htook : Endpoint.Took (w.ends x) c e) (ha : e.Alive) :
    (w.taken x rest e).Joined := by
  have hok := h.cell x hto
  have hlim := h.limit x
  obtain _ | _ | ⟨hcases, -, -, -⟩ := htook
  · cases ha.1
  · cases ha.1
  rw [retireIfComplete_eq]
  obtain ⟨sequence, body⟩ := c
  cases hcases with
  | @openOK credit hb h0 hc =>
    cases hb
    obtain ⟨-, hz, hcz⟩ := hlim.resolve_left fun hl => hl.1 h0
    refine h.taken x hto rfl (fun hy => ?_) (fun hx => ?_) ⟨Nat.one_ne_zero, hok.2⟩ rfl
    · exact hy.receive _ (congrArg (· + 1) h0.symm) rfl rfl (append_nil _).symm (or_iff_left (by simp)).symm
    · have hm := hx.move credit (w.ends x.other).recvs.credit (w.ends x.other).recvs.owed
        (creditOf (rest ++ (w.ends x.other).out))
        (by simp only [sends, hcz, Body.credit]; omega)
      exact { hm with }
  | openFail hb _ _ | reset hb _ =>
    cases hb
    exact hok.elim
  | @data payload hb hc hfin hlen =>
    cases hb
    have hl := hlim.resolve_right fun hz => hok.1 (hc.trans hz.1)
    simp only [hok.2, if_false]
    refine h.taken x hto rfl (fun hy => ?_) (fun hx => ?_) ⟨Nat.succ_ne_zero _, hl.2⟩ rfl
    · refine hy.receive _ rfl (Nat.sub_add_cancel hlen) rfl ?_ (or_iff_left (by simp)).symm
      have happ := Stream.buffered_append (hsound x).stream payload
      simp only [recvs, Body.bytes, append_assoc]
      rw [← happ]
      rfl
    · rwa [show (Body.data payload).credit = 0 from rfl, Nat.zero_add] at hx
  | fin hb hc hfin =>
    cases hb
    have hl := hlim.resolve_right fun hz => hok (hc.trans hz.1)
    refine h.taken x hto rfl (fun hy => ?_) (fun hx => ?_) ⟨Nat.succ_ne_zero _, hl.2⟩ rfl
    · exact hy.receive _ rfl rfl rfl (append_nil _).symm (by simp [recvs])
    · rwa [show Body.fin.credit = 0 from rfl, Nat.zero_add] at hx
  | @windowUpdate credit hb hc hle =>
    cases hb
    have hl := hlim.resolve_right fun hz => hok.1 (hc.trans hz.1)
    refine h.taken x hto rfl (fun hy => ?_) (fun hx => ?_) ⟨Nat.succ_ne_zero _, hl.2⟩ rfl
    · exact hy.receive _ rfl rfl rfl (append_nil _).symm (or_iff_left (by simp)).symm
    · exact hx.move ((w.ends x).stream.sendCredit + credit) (w.ends x.other).recvs.credit (w.ends x.other).recvs.owed
        (creditOf (rest ++ (w.ends x.other).out)) (by simp only [sends, Body.credit]; omega)

end

end Link

end NeProto.Session
