/-
Streams that both sides have closed are retired, over every run in which no `Close` takes the graceful branch with credit still
to return and no sequence number runs out.

- `Endpoint.Settled`: a dead stream is about to be removed, and one that can be retired is about to be checked.
- `Paired`: the peer of a dead stream will hear of it.
- `closed_stream_retired`: with nothing in flight and no call in progress neither mux has the stream.
- `closed_stream_kept`: the graceful branch of `Close` neither resets nor returns credit, so a stream whose end was not read
  stays in both muxes.
-/
import NeProto.Session.Credit
import NeProto.Session.Reset

namespace NeProto.Session

open Endpoint Function List Session.Stream

open Continuity (maxSequence)

namespace Endpoint

/-! ## What one end keeps -/

/-- a `Close` is over, or has a RESET to send -/
def Closing (e : Endpoint) : Prop :=
  e.closed = true ∨ Cause.close ∈ e.resets ∨ Cause.close ∈ e.removals ∨ ∃ c, e.outgoing = some (c, .reset .close)

structure Settling (e : Endpoint) : Prop where
  dead : ¬e.Alive → e.registered = true →
    e.resets ≠ [] ∨ e.removals ≠ [] ∨ ∃ c cause, e.outgoing = some (c, .reset cause)
  stranded : e.Alive → e.stranded = 0
  closing : e.Closing → e.phase = .usable
  closed : e.closed = true → e.Alive → e.stream.localFIN = true ∧ e.stream.peerFIN = true ∧ e.stream.chunks = [] ∧
    e.stream.pendingCredit = 0

structure Settled (e : Endpoint) : Prop extends Settling e where
  checked : e.Alive → e.registered = true → e.stream.canRetire = true →
    0 < e.checks ∨ e.credits ≠ [] ∨ (∃ c, e.outgoing = some (c, .update)) ∨ ∃ c, e.outgoing = some (c, .closeWrite)

variable {e e' : Endpoint}

theorem absent_settled (window : ℕ) : (absent window).Settled where
  dead := nofun
  stranded := fun _ => rfl
  closing := fun h => by simp [Closing, absent] at h
  closed := nofun
  checked := nofun

/-- after a check a stream that can be retired is not registered -/
theorem Settling.retireIfComplete (h : e.Settling) : e.retireIfComplete.Settled := by
  have hsettling : e.retireIfComplete.Settling := by
    rw [Endpoint.retireIfComplete]
    split
    · rw [remove]
      split
      · exact { h with dead := (by simp) }
      · exact h
    · exact h
  refine ⟨hsettling, fun _ hreg hr => ?_⟩
  rw [Endpoint.retireIfComplete] at hreg hr
  split at hreg
  · rw [remove] at hreg
    split at hreg
    · cases hreg
    · rename_i hx
      exact absurd hreg hx
  · rename_i hx
    rw [if_neg hx] at hr
    exact absurd hr hx

/-- the stream is not alive and will be removed -/
theorem Settled.of_dead (hd : ¬e.Alive)
    (hdead : e.registered = true → e.resets ≠ [] ∨ e.removals ≠ [] ∨ ∃ c cause, e.outgoing = some (c, .reset cause))
    (hclosing : e.Closing → e.phase = .usable) : e.Settled :=
  ⟨⟨fun _ => hdead, fun ha => absurd ha hd, hclosing, fun _ ha => absurd ha hd⟩, fun ha => absurd ha hd⟩

section

variable (h : e.Settled)
include h

/-- an `Open` that fails, or an incoming stream that is rejected -/
theorem Settled.givenUp (hp : e.phase ≠ .usable) (hd : ¬e'.Alive) (hdead : e'.resets ≠ [] ∨ e'.removals ≠ [])
    (hclosing : e'.Closing → e.Closing) : e'.Settled :=
  .of_dead hd (fun _ => hdead.imp_right .inl) fun hc => absurd (h.closing (hclosing hc)) hp

omit h in
/-- a `Read` after the end changes nothing -/
theorem Settling.read (h : e.Settling) (hs : e.Sound) (n checks : ℕ) (returned : List UInt8) (credits : List ℕ) :
    ({ e with stream := (e.stream.read n).1, returned := returned, checks := checks
              credits := credits } : Endpoint).Settling := by
  have hwrite : (e.stream.read n).1.writeErr = e.stream.writeErr := by rw [(read_spec hs.stream n).1]
  refine ⟨fun hd => h.dead fun ha => hd ⟨hwrite.trans ha.1, ha.2⟩, fun ha => h.stranded (ha.of_eq hwrite rfl), h.closing,
    fun hc ha => ?_⟩
  have hold := h.closed hc (ha.of_eq hwrite rfl)
  rw [(read_idle hold.2.2.1 hold.2.2.2 _).1]
  exact hold

theorem Call.settled (hs : e.Sound) (hu : e.stream.sendSequence ≤ maxSequence)
    (hcall : Call e e') : e'.Settled := by
  cases hcall with
  | same => exact h
  | start hp hw hne | stop hw | count hw ho => exact ⟨{ h with }, h.checked⟩
  | exhausted hw herr hfin hx | mute hp herr hfin hx | resetMute hi ho hc hx => exact absurd hx (not_lt.2 hu)
  | data hw ho herr hfin hc =>
    have hp := hs.writing_usable (by simp [hw])
    have ha := Sound.alive hp herr
    refine ⟨⟨fun hd => absurd ha hd, fun _ => h.stranded ha, fun _ => hp, fun hcl _ => ?_⟩, fun _ _ hr => ?_⟩
    · cases hfin.symm.trans (h.closed hcl ha).1
    · cases hfin.symm.trans ((canRetire_iff _).1 hr).1
  | read hp hz => exact ⟨h.toSettling.read hs .., fun _ _ _ => .inl (Nat.succ_pos _)⟩
  | take hp hz => exact ⟨h.toSettling.read hs .., fun _ _ _ => .inr (.inl (by simp))⟩
  | strand hi ho hx =>
    have hd : ¬e.Alive := fun ha => hx.elim (fun hx => hx ha.1) (not_lt.2 hu)
    exact .of_dead (fun ha => hd (ha.of_eq rfl rfl)) (h.dead hd) h.closing
  | update hi ho herr =>
    have ha := Sound.alive (hs.reading hi) herr
    exact ⟨⟨fun hd => absurd ha hd, fun _ => h.stranded ha, fun _ => hs.reading hi, fun hcl _ => h.closed hcl ha⟩,
      fun _ _ _ => .inr (.inr (.inl ⟨_, rfl⟩))⟩
  | fin hp ho herr hfin =>
    have ha := Sound.alive hp herr
    refine ⟨⟨fun hd => absurd ha hd, fun _ => h.stranded ha, fun _ => hp, fun hcl _ => ?_⟩,
      fun _ _ _ => .inr (.inr (.inr ⟨_, rfl⟩))⟩
    cases hfin.symm.trans (h.closed hcl ha).1
  | force hp hg => exact .of_dead (fun ha => by cases ha.1) (fun _ => .inl (by simp)) fun _ => hp
  | @skip i cause hi ho hx =>
    refine .of_dead (fun ha => hs.resetting hi ha) (fun _ => .inr (.inl (by simp))) fun hc => ?_
    rcases hc with hc | hc | hc | hc
    · exact h.closing (.inl hc)
    · exact h.closing (.inr (.inl (mem_of_mem_eraseIdx hc)))
    · rcases mem_append.1 hc with hc | hc
      · exact h.closing (.inr (.inr (.inl hc)))
      · exact h.closing (.inr (.inl (mem_of_getElem? (mem_singleton.1 hc ▸ hi))))
    · exact h.closing (.inr (.inr (.inr hc)))
  | @reset i cause hi ho hc =>
    refine .of_dead (fun ha => hs.resetting hi ha) (fun _ => .inr (.inr ⟨_, _, rfl⟩)) fun hc => ?_
    rcases hc with hc | hc | hc | ⟨c, hc⟩
    · exact h.closing (.inl hc)
    · exact h.closing (.inr (.inl (mem_of_mem_eraseIdx hc)))
    · exact h.closing (.inr (.inr (.inl hc)))
    · have heq := Sender.reset.inj (Prod.mk.inj (Option.some.inj hc)).2
      exact h.closing (.inr (.inl (mem_of_getElem? (heq ▸ hi))))
  | @remove i cause hi =>
    have hdead : ¬(e.removed i cause).Alive := fun ha => hs.removing hi (removed_alive ha)
    have hreg : (e.removed i cause).registered = false := remove_gone _
    refine .of_dead hdead (fun hx => (by cases hreg.symm.trans hx)) ?_
    rw [removed, remove_eq]
    rintro (hc | hc | hc | hc)
    · have hc : e.closed = true ∨ cause = .close := by simpa using hc
      rcases hc with hc | rfl
      · exact h.closing (.inl hc)
      · exact h.closing (.inr (.inr (.inl (mem_of_getElem? hi))))
    · exact h.closing (.inr (.inl hc))
    · exact h.closing (.inr (.inr (.inl (mem_of_mem_eraseIdx hc))))
    · exact h.closing (.inr (.inr (.inr hc)))
  | check hpos => exact Settling.retireIfComplete { h with }

theorem graceful_settled (hp : e.phase = .usable) (hg : e.gracefullyClosed = true)
    (hc : e.stream.pendingCredit = 0) : ({ e.retireIfComplete with closed := true } : Endpoint).Settled := by
  have hr := h.toSettling.retireIfComplete
  rw [retireIfComplete_eq] at hr ⊢
  obtain ⟨⟨hl, hf⟩, hch⟩ : (e.stream.localFIN = true ∧ e.stream.peerFIN = true) ∧ e.stream.chunks = [] := by
    simpa [gracefullyClosed] using hg
  exact ⟨⟨hr.dead, hr.stranded, fun _ => hp, fun _ _ => ⟨hl, hf, hch, hc⟩⟩, hr.checked⟩

theorem sent_settled {c : Cell} {sender : Sender} (hs : e.Sound) (ho : e.outgoing = some (c, sender)) : (e.sent sender).Settled := by
  cases sender with
  | write | update | closeWrite =>
    refine ⟨⟨fun hd hreg => ?_, h.stranded, fun hc => ?_, h.closed⟩, fun ha hreg hr => ?_⟩
    · exact (h.dead hd hreg).imp_right (.imp_right fun ⟨_, _, hx⟩ => absurd (ho.symm.trans hx) (by simp))
    · exact h.closing (hc.imp_right (.imp_right (.imp_right fun ⟨_, hx⟩ => nomatch hx)))
    first
    | exact .inl (Nat.succ_pos _)
    | refine (h.checked ha hreg hr).imp_right (.imp_right ?_)
      rintro (⟨d, hx⟩ | ⟨d, hx⟩)
      · exact absurd (ho.symm.trans hx) (by simp)
      · exact absurd (ho.symm.trans hx) (by simp)
  | reset cause =>
    have hd : ¬e.Alive := fun ha => (hs.resets ha).2.2 c cause ho
    refine .of_dead hd (fun _ => .inr (.inl (by simp [sent]))) ?_
    rintro (hc | hc | hc | ⟨d, hc⟩)
    · exact h.closing (.inl hc)
    · exact h.closing (.inr (.inl hc))
    · rcases mem_append.1 hc with hc | hc
      · exact h.closing (.inr (.inr (.inl hc)))
      · exact h.closing (.inr (.inr (.inr ⟨c, mem_singleton.1 hc ▸ ho⟩)))
    · cases hc

theorem took_settled {c : Cell} (htook : Took e c e') : e'.Settled := by
  cases htook with
  | failed hk =>
    refine .of_dead (fun ha => nomatch ha.1) (fun _ => .inl (by simp)) fun hc => h.closing ?_
    rcases hc with hc | hc | hc
    · exact .inl hc
    · exact .inr (.inl (by simpa using hc))
    · exact .inr (.inr hc)
  | reset hb => exact .of_dead (fun ha => nomatch ha.1) nofun h.closing
  | @passed s hh hb hw hr =>
    refine Settling.retireIfComplete ⟨fun hd hreg => h.dead (fun ha => hd ⟨hw.trans ha.1, ha.2⟩) hreg,
      fun ha => h.stranded (ha.of_eq hw rfl), h.closing, fun hc ha => ?_⟩
    -- what arrives after FIN leaves the buffer alone
    obtain ⟨hl, hf, hch, hp⟩ := h.closed hc (ha.of_eq hw rfl)
    generalize hx : ((s, none) : Stream × Option CellErr) = x at hh
    cases hh with
    | failed => cases hx
    | data _ _ hfin _ | fin _ _ hfin => cases hf.symm.trans hfin
    | openOK | openFail | reset | windowUpdate =>
      cases hx
      exact ⟨hl, hf, hch, hp⟩

/-- the phase changes while nothing is finished -/
theorem Settled.advance (phase : Phase) (hp : e.phase ≠ .usable)
    (halive : ({ e with phase := phase } : Endpoint).Alive ↔ e.Alive) : ({ e with phase := phase } : Endpoint).Settled := by
  have hnone : ¬e.Closing := fun hx => hp (h.closing hx)
  refine ⟨⟨fun hd => h.dead fun ha => hd (halive.2 ha), fun ha => h.stranded (halive.1 ha), fun hx => absurd hx hnone,
    fun hc => absurd (.inl hc) hnone⟩, fun ha => h.checked (halive.1 ha)⟩

end

/-! ## Calls and the peer -/

/-- what a call keeps for the peer -/
structure Kept (e e' : Endpoint) : Prop where
  phase : e'.phase = e.phase
  alive : e'.Alive → e.Alive
  registered : e'.registered = true → e.registered = true
  out : ∀ c ∈ e.out, c ∈ e'.out
  reset : ¬e'.Alive → e.Alive ∨ e.stream.canReset → e'.stream.canReset ∨ ∃ c ∈ e'.out, c.body.isReset = true

theorem Kept.of_eq (hp : e'.phase = e.phase) (hw : e'.stream.writeErr = e.stream.writeErr)
    (hr : e'.stream.resetSent = e.stream.resetSent) (hreg : e'.registered = true → e.registered = true)
    (ho : ∀ c ∈ e.out, c ∈ e'.out) : Kept e e' := by
  have halive : e'.Alive ↔ e.Alive := by rw [Alive, Alive, hw, hp]
  refine ⟨hp, halive.1, hreg, ho, fun hd hx => .inl ?_⟩
  rcases hx with hx | hx
  · exact absurd (halive.2 hx) hd
  · rwa [canReset, hr, hw]

theorem out_none (ho : e.outgoing = none) (l : List Cell) : ∀ c ∈ e.out, c ∈ l := by
  simp [out, ho]

theorem Call.kept (hs : e.Sound) (ht : e.Tidy) (hu : e.stream.sendSequence ≤ maxSequence)
    (hcall : Call e e') : Kept e e' := by
  cases hcall with
  | same | start hp hw hne | stop hw | count hw ho | strand hi ho hx => exact .of_eq rfl rfl rfl id fun _ hc => hc
  | exhausted hw herr hfin hx | mute hp herr hfin hx | resetMute hi ho hc hx => exact absurd hx (not_lt.2 hu)
  | data hw ho herr hfin hc | update hi ho herr | fin hp ho herr hfin => exact .of_eq rfl rfl rfl id (out_none ho _)
  | @read n hp hz | @take n hp hz =>
    obtain ⟨hframe, -⟩ := read_spec hs.stream n
    exact .of_eq rfl (by rw [hframe]) (by rw [hframe]) id fun _ hc => hc
  | force hp hg =>
    refine ⟨rfl, (fun ha => by cases ha.1), id, fun _ hc => hc, fun _ hx => .inl ?_⟩
    rcases hx with hx | hx
    · refine ⟨ht.unsent hx, .inr (.inr ?_)⟩
      simp only [hx.1]
      rfl
    · refine ⟨hx.1, .inr ?_⟩
      rcases hx.2 with hw | hw | hw <;> simp [hw]
  | skip hi ho hx =>
    refine ⟨rfl, fun ha => ha.of_eq rfl rfl, id, fun _ hc => hc, fun hd hc => ?_⟩
    rcases hc with hc | hc
    · exact absurd ⟨hc.1, hc.2⟩ hd
    · exact absurd hc hx
  | reset hi ho hc =>
    refine ⟨rfl, fun ha => ha.of_eq rfl rfl, id, out_none ho _, fun _ _ => .inr ⟨_, mem_singleton_self _, rfl⟩⟩
  | @remove i cause hi =>
    have hmem := mem_of_getElem? hi
    have hd := hs.removing hi
    by_cases hc : cause = .cancel
    · have hno : ¬e.stream.canReset := ht.done cause hmem (by rw [hc]; exact nofun)
      rw [removed, if_pos hc, remove_eq]
      refine ⟨rfl, (fun ha => by cases ha.1), fun hr => ?_, fun _ hc => hc, fun _ hx => ?_⟩
      · exact absurd hr (by simp [remove_gone])
      · exact absurd hx (not_or.2 ⟨hd, hno⟩)
    · rw [removed, if_neg hc, remove_eq]
      refine .of_eq rfl rfl rfl (fun hr => ?_) fun _ hc => hc
      exact absurd hr (by simp [remove_gone])
  | check hpos =>
    have hreg := @retireIfComplete_registered { e with checks := e.checks - 1 }
    rw [retireIfComplete_eq]
    exact .of_eq rfl rfl rfl hreg fun _ hc => hc

end Endpoint

namespace Link

/-! ## What both ends keep -/

def Settled (w : Link) : Prop := ∀ x, (w.ends x).Settled

/-- no sequence number has run out, and a graceful `Close` has no credit left to return -/
def retireSafe (w : Link) (o : Op) : Prop :=
  (∀ x, (w.ends x).stream.sendSequence ≤ maxSequence) ∧
    ∀ x, o = .close x → (w.ends x).gracefullyClosed = true → (w.ends x).stream.pendingCredit = 0

variable {w : Link} {e : Endpoint} {W : Side → Window} {c : Cell}

theorem Settled.setEnd (h : w.Settled) (x : Side) (he : e.Settled) : (w.setEnd x e).Settled :=
  setEnd_all (P := fun _ => Endpoint.Settled) h he

theorem Step.settled {w' : Link} {o : Op} (hi : w.Inv W) (h : w.Settled)
    (hsafe : w.retireSafe o) (hstep : Step w o w') : w'.Settled := by
  cases hstep with
  | idle => exact h
  | @call o x e hcall => exact h.setEnd x (hcall.settled (h x) (hi.sound x) (hsafe.1 x))
  | @graceful x hp hg => exact h.setEnd x (graceful_settled (h x) hp hg (hsafe.2 x rfl hg))
  | @evict x =>
    have hx := h x
    exact h.setEnd x ⟨{ hx with }, hx.checked⟩
  | register hp =>
    refine h.setEnd .opener ?_
    rw [(hi.sound .opener).absent hp]
    exact ⟨⟨fun hd => absurd (.of_phase (p := .opening) rfl rfl (by decide)) hd, fun _ => rfl,
      fun hx => by simp [Endpoint.Closing, absent] at hx, fun h => by cases h⟩, fun _ _ h => by cases h⟩
  | request hp => exact h.setEnd .opener ((h .opener).advance .waiting (by simp [hp]) (by simp [Endpoint.Alive, hp]))
  | opened hp hr => exact h.setEnd .opener ((h .opener).advance .usable (by simp [hp]) (by simp [Endpoint.Alive, hp]))
  | denied hp hr =>
    exact h.setEnd .opener ((h .opener).givenUp (by simp [hp]) (fun ha => absurd rfl ha.2.2.2) (.inr (by simp))
      (by simp [Endpoint.Closing]))
  | cancel hp =>
    exact h.setEnd .opener ((h .opener).givenUp (by simp [hp]) (fun ha => absurd rfl ha.2.2.1) (.inl (by simp))
      (by simp [Endpoint.Closing]))
  | accept hp => exact h.setEnd .acceptor ((h .acceptor).advance .usable (by simp [hp]) (by simp [Endpoint.Alive, hp]))
  | reject hp =>
    exact h.setEnd .acceptor ((h .acceptor).givenUp (by simp [hp]) (fun ha => absurd rfl ha.2.2.2) (.inr (by simp))
      (by simp [Endpoint.Closing]))
  | @transmit x c sender ho => exact h.setEnd x (sent_settled (h x) (hi.sound x) ho)
  | @invalid x full c rest hto hb hx | @ignore x full c rest hto hb hreg hret | @unknown x full c rest hto hb hreg hret =>
    exact h.setEnd x (h x)
  | refuse hto hb => exact h
  | @offer c rest window hto hb hc hreg hret =>
    refine h.setEnd .acceptor ?_
    obtain ⟨-, habs, -⟩ := hi.requests .acceptor c (by rw [hto]; exact mem_cons_self) (hb ▸ rfl)
    rw [(hi.sound .acceptor).absent habs]
    exact ⟨⟨fun hd => absurd (.of_phase (p := .incoming) rfl rfl (by decide)) hd, fun _ => rfl,
      fun hx => by simp [Endpoint.Closing, absent, openIncoming] at hx, fun h => by cases h⟩,
      fun _ _ h => by cases h⟩
  | @handle x full c rest hto hb hreg =>
    exact h.setEnd x (took_settled (h x) (handleCell_took c hreg))

/-! ## The peer of a dead stream hears of it -/

/-- a RESET from `x` is on its way -/
def Resetting (w : Link) (x : Side) : Prop := ∃ c ∈ w.pipe x, c.body.isReset = true

/-- the peer of `x` has the stream or is still to be asked -/
def Attentive (w : Link) (x : Side) : Prop :=
  (w.ends x.other).Alive ∧ (w.ends x.other).registered = true ∨ (w.ends x.other).phase = .absent ∧ w.refused = false

structure Paired (w : Link) : Prop where
  reset : ∀ x, (∃ c ∈ w.toward x.other, c.body.isReset = true) → ¬(w.ends x).Alive ∧ (w.ends x).phase ≠ .absent
  pending : ∀ x, (w.ends x).phase ≠ .absent → (w.ends x).phase ≠ .dropped → ¬(w.ends x).Alive → w.Attentive x →
    (w.ends x).stream.canReset ∨ w.Resetting x

theorem init_paired (W : Side → Window) : (init W).Paired where
  reset := fun _ ⟨_, hc, _⟩ => nomatch hc
  pending := fun _ hp => absurd rfl hp

section

variable (h : w.Paired)
include h

/-- a cell that is not a RESET, or one of a dead stream, is sent -/
theorem Paired.push (x : Side)
    (hc : c.body.isReset = true → ¬(w.ends x).Alive ∧ (w.ends x).phase ≠ .absent) : (w.push x.other c).Paired := by
  have hself : (w.push x.other c).toward x.other = w.toward x.other ++ [c] := update_self ..
  have hother : (w.push x.other c).toward x = w.toward x := update_of_ne x.other_ne.symm ..
  have hsub : ∀ z, ∀ d ∈ w.toward z, d ∈ (w.push x.other c).toward z := by
    intro z d hd
    rcases x.eq_or z with rfl | rfl
    · rwa [hother]
    · rw [hself]
      exact mem_append_left _ hd
  refine ⟨fun z => ?_, fun z h1 h2 h3 h4 => ?_⟩
  · rintro ⟨d, hd, hr⟩
    rcases x.eq_or z with rfl | rfl
    · rw [hself, mem_append, mem_singleton] at hd
      rcases hd with hd | rfl
      · exact h.reset _ ⟨d, hd, hr⟩
      · exact hc hr
    · rw [Side.other_other, hother] at hd
      exact h.reset x.other ⟨d, by rwa [Side.other_other], hr⟩
  · refine (h.pending z h1 h2 h3 h4).imp_right fun ⟨d, hd, hr⟩ => ⟨d, ?_, hr⟩
    rcases mem_append.1 hd with hd | hd
    · exact mem_append_left _ (hsub _ d hd)
    · exact mem_append_right _ hd

/-- one end goes on -/
theorem Paired.setEnd (x : Side) (habs : e.phase = .absent ↔ (w.ends x).phase = .absent)
    (hdrop : (w.ends x).phase = .dropped → e.phase = .dropped) (ha : e.Alive → (w.ends x).Alive)
    (hreg : e.registered = true → (w.ends x).registered = true)
    (hpend : e.phase ≠ .absent → e.phase ≠ .dropped → ¬e.Alive → (w.ends x).Alive ∨ (w.ends x).stream.canReset ∨ w.Resetting x →
      e.stream.canReset ∨ ∃ c ∈ w.toward x.other ++ e.out, c.body.isReset = true) : (w.setEnd x e).Paired := by
  refine ⟨fun z hz => ?_, fun z h1 h2 h3 h4 => ?_⟩
  · have hdead := h.reset z hz
    rcases x.eq_or z with rfl | rfl
    · rw [setEnd_self]
      exact ⟨fun hx => hdead.1 (ha hx), fun hx => hdead.2 (habs.1 hx)⟩
    · rw [setEnd_other]
      exact hdead
  · rcases x.eq_or z with rfl | rfl
    · rw [setEnd_self] at h1 h2 h3 ⊢
      have hatt : w.Attentive z := by
        simp only [Attentive, setEnd_other] at h4
        exact h4
      have hres : (e.stream.canReset ∨ ∃ c ∈ w.toward z.other ++ e.out, c.body.isReset = true) →
          e.stream.canReset ∨ (w.setEnd z e).Resetting z := by
        refine Or.imp_right fun hx => ?_
        rw [Resetting, setEnd_pipe]
        exact hx
      refine hres (hpend h1 h2 h3 ?_)
      by_cases hal : (w.ends z).Alive
      · exact .inl hal
      · exact .inr (h.pending z (fun hx => h1 (habs.2 hx)) (fun hx => h2 (hdrop hx)) hal hatt)
    · rw [setEnd_other] at h1 h2 h3 ⊢
      have hatt : w.Attentive x.other := by
        simp only [Attentive, Side.other_other, setEnd_self] at h4 ⊢
        exact h4.imp (fun hx => ⟨ha hx.1, hreg hx.2⟩) fun hx => ⟨habs.1 hx.1, hx.2⟩
      refine (h.pending x.other h1 h2 h3 hatt).imp_right fun hx => ?_
      rw [Resetting, setEnd_pipe_other]
      exact hx

omit h in
/-- one end goes on and sends a cell that is not a RESET -/
theorem Paired.post (x : Side) (hc : c.body.isReset = false) (he : (w.setEnd x e).Paired) : (w.posted x e c).Paired :=
  he.push x fun hr => absurd (hr.symm.trans hc) nofun

theorem Paired.keep (x : Side) (hk : Endpoint.Kept (w.ends x) e) : (w.setEnd x e).Paired := by
  refine h.setEnd x (by rw [hk.phase]) (by rw [hk.phase]; exact id) hk.alive hk.registered fun _ _ hd hx => ?_
  have hin : (∃ c ∈ e.out, c.body.isReset = true) → ∃ c ∈ w.toward x.other ++ e.out, c.body.isReset = true :=
    fun ⟨c, hc, hr⟩ => ⟨c, mem_append_right _ hc, hr⟩
  rcases hx with hx | hx | ⟨c, hc, hr⟩
  · exact (hk.reset hd (.inl hx)).imp_right hin
  · exact (hk.reset hd (.inr hx)).imp_right hin
  · refine .inr ⟨c, ?_, hr⟩
    exact mem_append.2 ((mem_append.1 hc).imp_right (hk.out c))

/-- the read loop of `x` takes a cell and `x` goes on as `e` -/
theorem Paired.taken (x : Side) {rest : List Cell} (hto : w.toward x = c :: rest)
    (hp : e.phase = (w.ends x).phase) (ha : e.Alive → (w.ends x).Alive)
    (hreg : e.registered = true → (w.ends x).registered = true) (hout : e.out = (w.ends x).out)
    (hasked : ¬((w.ends x).phase = .absent ∧ w.refused = false))
    (hheard : e.Alive → e.registered = true → c.body.isReset = false)
    (hpend : ¬e.Alive → w.Attentive x → (w.ends x).Alive ∨ (w.ends x).stream.canReset → e.stream.canReset) :
    (w.taken x rest e).Paired := by
  have hsub := taken_subset hto e
  have hphase : ∀ z, ((w.taken x rest e).ends z).phase = (w.ends z).phase := setEnd_same phase hp
  refine ⟨fun z => ?_, fun z h1 h2 h3 h4 => ?_⟩
  · rintro ⟨d, hd, hr⟩
    have hdead := h.reset z ⟨d, hsub _ d hd, hr⟩
    exact ⟨fun hx => hdead.1 (setEnd_alive ha z hx), (hphase z).symm ▸ hdead.2⟩
  · rcases x.eq_or z with rfl | rfl
    · rw [taken_self] at h1 h2 h3 ⊢
      have hatt : w.Attentive z := by
        simp only [Attentive, taken_other] at h4
        exact h4
      have hpipe : (w.taken z rest e).pipe z = w.pipe z := by
        rw [pipe_eq, pipe_eq, taken_self, hout, taken_toward_other]
      by_cases hal : (w.ends z).Alive
      · exact .inl (hpend h3 hatt (.inl hal))
      refine (h.pending z (hp ▸ h1) (hp ▸ h2) hal hatt).imp (fun hx => hpend h3 hatt (.inr hx)) fun hx => ?_
      rw [Resetting, hpipe]
      exact hx
    · rw [taken_other] at h1 h2 h3 ⊢
      simp only [Attentive, Side.other_other, taken_self] at h4
      have hatt : w.Attentive x.other := by
        simp only [Attentive, Side.other_other]
        exact h4.imp (fun hx => ⟨ha hx.1, hreg hx.2⟩) fun hx => ⟨hp ▸ hx.1, hx.2⟩
      refine (h.pending x.other h1 h2 h3 hatt).imp_right fun ⟨d, hd, hr⟩ => ⟨d, ?_, hr⟩
      rw [pipe_eq, Side.other_other, hto] at hd
      rw [pipe_eq, Side.other_other, taken_toward, taken_other]
      rcases mem_cons.1 hd with rfl | hd
      · -- the cell is the RESET, which an end that goes on has not read
        exfalso
        rcases h4 with ⟨hx, hx'⟩ | ⟨hx, hx'⟩
        · cases hr.symm.trans (hheard hx hx')
        · exact hasked ⟨hp ▸ hx, hx'⟩
      · exact hd

theorem Paired.failed : ({ w with failed := true } : Link).Paired := ⟨h.reset, h.pending⟩

omit h in
/-- before the acceptor has heard of the stream -/
theorem Paired.of_early (habs : (w.ends .acceptor).phase = .absent) (ha : (w.ends .opener).Alive)
    (hto : ∀ x, ∀ c ∈ w.toward x, c.body.isReset = false) : w.Paired := by
  refine ⟨fun x ⟨c, hc, hr⟩ => absurd (hr.symm.trans (hto _ c hc)) nofun, fun x h1 _ h3 => ?_⟩
  cases x with
  | opener => exact absurd ha h3
  | acceptor => exact absurd habs h1

/-- the answer to `Open`, or the end of its context, concerns the opener alone -/
theorem Paired.answered (ht : w.Tidy) (hp : (w.ends .opener).phase = .waiting)
    (hs : e.stream = (w.ends .opener).stream) (hphase : e.phase = .usable ∨ e.phase = .dropped ∨ e.phase = .cancelled)
    (hreg : e.registered = (w.ends .opener).registered) (hout : e.out = (w.ends .opener).out) : (w.setEnd .opener e).Paired := by
  have hne : e.phase ≠ .absent := by
    rcases hphase with hx | hx | hx <;> simp [hx]
  refine h.setEnd .opener (by simp [hne, hp]) (by simp [hp]) (fun ha => ?_) (by rw [hreg]; exact id)
    fun _ _ hd hx => ?_
  · exact .of_phase (hs ▸ ha.1) hp (by decide)
  rcases hx with hx | hx | ⟨c, hc, hr⟩
  · exact .inl ⟨hs ▸ (ht .opener).unsent hx, .inl (hs ▸ hx.1)⟩
  · exact .inl (hs ▸ hx)
  · exact .inr ⟨c, hout ▸ hc, hr⟩

/-- the peer of an end that took a cell hears of it if it failed -/
theorem Paired.handled (ht : w.Tidy) (x : Side) {rest : List Cell}
    (hto : w.toward x = c :: rest) (htook : Endpoint.Took (w.ends x) c e) :
    (e.Alive → e.registered = true → c.body.isReset = false) ∧
      (¬e.Alive → w.Attentive x → (w.ends x).Alive ∨ (w.ends x).stream.canReset → e.stream.canReset) := by
  cases htook with
  | failed hk =>
    refine ⟨(fun ha => by cases ha.1), fun _ _ hx => ?_⟩
    rcases hx with hx | hx
    · refine ⟨(ht x).unsent hx, .inr (.inl ?_)⟩
      simp only [fail, completeOpen, hx.1]
      rfl
    · refine ⟨hx.1, ?_⟩
      simp only [fail, completeOpen]
      rcases hx.2 with hw | hw | hw <;> simp [hw]
  | reset hb =>
    refine ⟨(fun ha => by cases ha.1), fun _ hatt _ => ?_⟩
    have hdead := h.reset x.other ⟨c, by rw [Side.other_other, hto]; exact mem_cons_self, by rw [hb]; rfl⟩
    rcases hatt with hatt | hatt
    · exact absurd hatt.1 hdead.1
    · exact absurd hatt.1 hdead.2
  | @passed s hs hb hw hr =>
    refine ⟨fun _ _ => ?_, fun hd _ hx => ?_⟩
    · cases hc : c.body with
      | reset code => exact absurd hc (hb code)
      | _ => rfl
    · rw [retireIfComplete_eq] at hd ⊢
      rcases hx with hx | hx
      · exact absurd ⟨hw.trans hx.1, hx.2⟩ hd
      · exact ⟨hr.trans hx.1, by simp only [hw]; exact hx.2⟩

theorem Step.paired {w' : Link} {o : Op} (hi : w.Inv W) (ht : w.Tidy) (hq : w.Requested)
    (hu : ∀ x, (w.ends x).stream.sendSequence ≤ maxSequence) (hstep : Step w o w') : w'.Paired := by
  cases hstep with
  | idle => exact h
  | @call o x e hcall => exact h.keep x (hcall.kept (hi.sound x) (ht x) (hu x))
  | @graceful x hp hg =>
    have hreg := @retireIfComplete_registered (w.ends x)
    refine h.keep x ?_
    rw [retireIfComplete_eq]
    exact .of_eq rfl rfl rfl hreg fun _ hc => hc
  | @evict x => exact h.keep x (.of_eq rfl rfl rfl id fun _ hc => hc)
  | register hp =>
    obtain ⟨hacc, hto, -⟩ := hi.unasked (.inl hp)
    refine .of_early hacc (.of_phase (p := .opening) rfl rfl (by decide)) fun x c hc => ?_
    cases (hto x) ▸ hc
  | request hp =>
    obtain ⟨hacc, hto, -⟩ := hi.unasked (.inr hp)
    have hw : (w.ends .opener).stream.writeErr = none := by
      rw [hi.fresh hp]
      rfl
    refine .of_early hacc (.of_phase (p := .waiting) hw rfl (by decide)) fun x c hc => ?_
    cases x with
    | opener => cases (hto .opener) ▸ hc
    | acceptor =>
      have hc : c ∈ w.toward .acceptor ++ [⟨0, .opening (w.ends .opener).stream.window⟩] := hc
      rw [hto .acceptor] at hc
      rw [mem_singleton.1 hc]
      rfl
  | opened hp hr => exact h.answered ht hp rfl (.inl rfl) rfl rfl
  | denied hp hr => exact h.answered ht hp rfl (.inr (.inl rfl)) rfl rfl
  | cancel hp => exact h.answered ht hp rfl (.inr (.inr rfl)) rfl rfl
  | accept hp =>
    refine Paired.post .acceptor rfl (h.setEnd .acceptor (by simp [hp]) (by simp [hp]) (fun ha => ?_) id
      fun _ _ hd hx => ?_)
    · exact .of_phase ha.1 hp (by decide)
    rcases hx with hx | hx | hx
    · exact absurd (.of_phase (p := .usable) hx.1 rfl (by decide)) hd
    · exact .inl hx
    · exact .inr hx
  | reject hp =>
    exact Paired.post .acceptor rfl (h.setEnd .acceptor (by simp [hp]) (by simp [hp])
      (fun ha => absurd rfl ha.2.2.2) id fun _ hd => absurd rfl hd)
  | @transmit x c sender ho =>
    obtain ⟨-, -, hout, hstream, hp, hreg⟩ := sent_views (w.ends x) sender
    have hdead : c.body.isReset = true → ¬(w.ends x).Alive ∧ (w.ends x).phase ≠ .absent := by
      intro hr
      obtain ⟨cause, rfl⟩ := (ht x).cell c sender ho hr
      refine ⟨fun ha => ((hi.sound x).resets ha).2.2 c cause ho, fun hx => ?_⟩
      rw [(hi.sound x).absent hx] at ho
      cases ho
    -- the cell is on the carrier before `sendMu` is free
    have hpush := h.push x hdead
    refine hpush.setEnd x (by rw [hp]; rfl) (by rw [hp]; exact id) (fun ha => ?_) (by rw [hreg]; exact id)
      fun _ _ hd hx => ?_
    · exact ha.of_eq (hstream ▸ rfl) hp
    rcases hx with hx | hx | ⟨d, hd', hr⟩
    · exact absurd ⟨by rw [hstream]; exact hx.1, by rw [hp]; exact hx.2⟩ hd
    · rw [hstream]
      exact .inl hx
    refine .inr ⟨d, ?_, hr⟩
    rw [hout, append_nil]
    have htc : (w.push x.other c).toward x.other = w.toward x.other ++ [c] := update_self ..
    rcases mem_append.1 hd' with hd' | hd'
    · exact hd'
    have hc : d = c := by
      have : d ∈ (w.ends x).out := hd'
      simpa [out, ho] using this
    rw [htc, hc]
    simp
  | invalid full hto hb hx => exact (hq.valid hi hto hb hx).elim
  | @refuse c rest hto hb =>
    obtain ⟨-, habs, -⟩ := hi.requests .acceptor c (by rw [hto]; exact mem_cons_self) hb
    refine Paired.push (w := { w with toward := update w.toward .acceptor rest, refused := true }) ?_ .acceptor
      (fun h => by cases h)
    have hsub : ∀ z, ∀ d ∈ update w.toward .acceptor rest z, d ∈ w.toward z := by
      intro z d hd
      cases z with
      | opener => exact hd
      | acceptor =>
        rw [hto]
        exact mem_cons_of_mem _ hd
    refine ⟨fun x hx => h.reset x (hx.imp fun d hd => ⟨hsub _ d hd.1, hd.2⟩), fun x h1 _ _ h4 => ?_⟩
    exfalso
    cases x with
    | opener =>
      rcases h4 with h4 | h4
      · exact h4.1.2.1 habs
      · cases h4.2
    | acceptor => exact h1 habs
  | @offer c rest window hto hb hc hreg hret =>
    obtain ⟨-, habs, href⟩ := hi.requests .acceptor c (by rw [hto]; exact mem_cons_self) (hb ▸ rfl)
    refine ⟨fun x => ?_, fun x h1 h2 h3 h4 => ?_⟩
    · rintro ⟨d, hd, hr⟩
      cases x with
      | opener =>
        refine h.reset .opener ⟨d, ?_, hr⟩
        rw [← Side.acceptor_eq, hto]
        exact mem_cons_of_mem _ hd
      | acceptor => exact absurd habs (h.reset .acceptor ⟨d, hd, hr⟩).2
    · cases x with
      | opener =>
        refine (h.pending .opener h1 h2 h3 (.inr ⟨habs, href⟩)).imp_right ?_
        rintro ⟨d, hd, hr⟩
        refine ⟨d, ?_, hr⟩
        rw [pipe_eq, ← Side.acceptor_eq, hto] at hd
        rcases mem_cons.1 hd with rfl | hd
        · rw [hb] at hr
          cases hr
        · exact hd
      | acceptor => exact absurd (.of_phase (p := .incoming) rfl rfl (by decide)) h3
  | @handle x full c rest hto hb hreg =>
    obtain ⟨-, hp, hout, hback⟩ := handleCell_frame c hreg
    obtain ⟨hheard, hpend⟩ := h.handled ht x hto (handleCell_took c hreg)
    exact h.taken x hto hp hback (fun _ => hreg) hout (fun hx => heard_of (hi.sound x) (.inl hreg) hx.1) hheard hpend
  | @ignore x full c rest hto hb hreg hret =>
    refine h.taken x hto rfl id id rfl (fun hx => heard_of (hi.sound x) (.inr hret) hx.1) (fun _ hr => ?_) fun hd _ hx => ?_
    · cases hreg.symm.trans hr
    · exact hx.resolve_left hd
  | @unknown x full c rest hto hb hreg hret =>
    refine Paired.failed (h.taken x hto rfl id id rfl (fun hx => ?_) (fun _ hr => ?_) fun hd _ hx => ?_)
    · obtain ⟨-, window, rfl⟩ := hq.unheard hi hto hx.1 hx.2
      cases hb
    · cases hreg.symm.trans hr
    · exact hx.resolve_left hd

end

/-! ## At rest -/

/-- no cell is in flight, no call is in progress and both muxes are alive -/
def Quiescent (w : Link) : Prop :=
  (∀ x, w.toward x = []) ∧
    (∀ x, (w.ends x).writer = .idle ∧ (w.ends x).outgoing = none ∧ (w.ends x).credits = [] ∧ (w.ends x).checks = 0 ∧
      (w.ends x).resets = [] ∧ (w.ends x).removals = []) ∧ w.failed = false

instance (w : Link) : Decidable w.Quiescent := inferInstanceAs (Decidable (_ ∧ _ ∧ _))

instance (w : Link) : ∀ o, Decidable (w.retireSafe o)
  | .close y => decidable_of_iff ((∀ x, (w.ends x).stream.sendSequence ≤ maxSequence) ∧
      ((w.ends y).gracefullyClosed = true → (w.ends y).stream.pendingCredit = 0))
    ⟨fun h => ⟨h.1, fun _ hx => Op.close.inj hx ▸ h.2⟩, fun h => ⟨h.1, h.2 y rfl⟩⟩
  | .openRegister | .openSend | .openReturn | .openCancel | .accept | .reject _ | .write _ _ | .writeChunk _ | .count _ | .read _ _
  | .sendUpdate _ _ | .closeWrite _ | .sendReset _ _ | .removeStream _ _ | .check _ | .transmit _ | .deliver _ _ | .evict _ =>
    decidable_of_iff (∀ x, (w.ends x).stream.sendSequence ≤ maxSequence) ⟨fun h => ⟨h, nofun⟩, fun h => h.1⟩

/-- everything that holds in a run whose steps are all safe -/
structure RetireInv (W : Side → Window) (w : Link) : Prop where
  inv : w.Inv W
  tidy : w.Tidy
  requested : w.Requested
  settled : w.Settled
  paired : w.Paired

theorem run_retireInv (W : Side → Window) (ops : List Op) (hg : Machine.Guarded step retireSafe (init W) ops) :
    ((init W).run ops).RetireInv W := by
  refine Machine.run_inv_guarded (I := RetireInv W) (fun w o h hsafe => ?_) ?_ ops hg
  · have hstep := step_cases w o
    exact ⟨step_inv h.inv o, hstep.tidy h.inv h.tidy, hstep.requested h.requested h.inv, hstep.settled h.inv h.settled hsafe,
      hstep.paired h.paired h.inv h.tidy h.requested hsafe.1⟩
  · exact ⟨init_inv W, fun _ => absent_tidy _, fun hp => absurd rfl hp, fun _ => absent_settled _, init_paired W⟩

/-- at rest a registered stream is alive -/
theorem RetireInv.alive (h : w.RetireInv W) (hq : w.Quiescent) (x : Side)
    (hreg : (w.ends x).registered = true) : (w.ends x).Alive := by
  by_contra hd
  obtain ⟨-, ho, -, -, hr, hm⟩ := hq.2.1 x
  rcases (h.settled x).dead hd hreg with hx | hx | ⟨c, cause, hx⟩
  · exact hx hr
  · exact hx hm
  · cases ho.symm.trans hx

/-- at rest a closed stream whose peer is alive and registered is alive too -/
theorem RetireInv.alive_other (h : w.RetireInv W) (hq : w.Quiescent) (hu : ∀ x, (w.ends x).phase = .usable) (x : Side)
    (ha : (w.ends x).Alive) (hreg : (w.ends x).registered = true) : (w.ends x.other).Alive := by
  by_contra hd
  have hne : (w.ends x.other).phase ≠ .absent ∧ (w.ends x.other).phase ≠ .dropped := by simp [hu]
  obtain ⟨-, ho, -, -, hr, -⟩ := hq.2.1 x.other
  have hatt : w.Attentive x.other := .inl (by rw [Side.other_other]; exact ⟨ha, hreg⟩)
  rcases h.paired.pending x.other hne.1 hne.2 hd hatt with hc | ⟨c, hc, -⟩
  · rcases (h.tidy x.other).gone hne.1 hne.2 hd hc with hx | hx
    · exact hx hr
    · exact hd (h.alive hq x.other hx.1)
  · simp [pipe, out, ho, hq.1] at hc

/-- **Closed streams are retired.** In every run in which no sequence number runs out and no `Close` of a stream that is finished in
both directions finds credit still to return: once nothing is in flight, no call is in progress and both ends have returned from
`Close`, neither mux has the stream. -/
theorem closed_stream_retired (W : Side → Window) (ops : List Op) (hg : Machine.Guarded step retireSafe (init W) ops)
    (hq : ((init W).run ops).Quiescent)
    (hc : ∀ x, (((init W).run ops).ends x).closed = true) (x : Side) : (((init W).run ops).ends x).registered = false := by
  have h := run_retireInv W ops hg
  generalize (init W).run ops = w at h hq hc ⊢
  by_contra hreg
  have hreg : (w.ends x).registered = true := by simpa using hreg
  have hu : ∀ z, (w.ends z).phase = .usable := fun z => (h.settled z).closing (.inl (hc z))
  have ha := h.alive hq x hreg
  have ha' := h.alive_other hq hu x ha hreg
  have hlive : w.Live := ⟨hu _, fun z => by
    rcases x.eq_or z with rfl | rfl
    · exact ha
    · exact ha'⟩
  -- both ends were closed gracefully, so all credit is back and the stream can be retired
  have hr : (w.ends x).stream.canRetire = true := by
    obtain ⟨hl, hf, hch, hp⟩ := (h.settled x).closed (hc x) ha
    obtain ⟨-, -, hch', hp'⟩ := (h.settled x.other).closed (hc x.other) ha'
    have hest : w.Established := fun z => ⟨hu z, (hlive.alive z).1⟩
    have hwin := ((h.inv.joined hlive).limit x).resolve_right fun hz => hest.heard h.inv x hz.1
    have hflow := ((h.inv.joined hlive).flow x).credit
    have hown := (h.inv.sound x).stream.credit
    have hpeer := (h.inv.sound x.other).stream.credit
    have hstr := (h.settled x.other).stranded ha'
    have hpipe : ∀ z, w.pipe z = [] := by
      intro z
      simp [pipe, hq.1, Endpoint.out, (hq.2.1 z).2.1]
    simp only [Endpoint.sends, Endpoint.recvs, hpipe, bytesOf_nil, creditOf_nil, (hq.2.1 x.other).2.2.1, hstr, sum_nil,
      length_nil] at hflow
    have hpos := (W x.other).pos
    rw [← h.inv.window x.other] at hpos
    simp only [Stream.buffered, hch, hch', hp, hp', flatten_nil, drop_nil, length_nil] at hown hpeer
    refine (Stream.canRetire_iff _).2 ⟨hl, hf, hch, ?_, ?_, ?_, hp⟩ <;> omega
  obtain ⟨-, ho, hcr, hch, -, -⟩ := hq.2.1 x
  rcases (h.settled x).checked ha hreg hr with hx | hx | ⟨c, hx⟩ | ⟨c, hx⟩
  · omega
  · exact hx hcr
  · cases ho.symm.trans hx
  · cases ho.symm.trans hx

/-- one byte goes over, and both directions are finished -/
def exchanged : List Op :=
  opened ++ [.write .opener [7], .writeChunk .opener, .transmit .opener, .count .opener, .deliver .acceptor false, .read .acceptor 1,
    .check .acceptor, .closeWrite .opener, .transmit .opener, .check .opener, .deliver .acceptor false, .closeWrite .acceptor,
    .transmit .acceptor, .check .acceptor, .deliver .opener false]

/-- the acceptor reads the end of the stream, which returns the credit, before both close it -/
theorem closed_stream_retired_read :
    (((init small).run (exchanged ++ [.read .acceptor 1, .sendUpdate .acceptor 0, .transmit .acceptor, .check .acceptor,
      .deliver .opener false, .close .opener, .close .acceptor])).ends .opener).registered = false :=
  closed_stream_retired small _ (by decide) (by decide) (by decide) .opener

/-- **A closed stream is kept.** The acceptor closes without having read the end of the stream: the credit for the byte stays
pending, and both muxes keep the stream. -/
theorem closed_stream_kept :
    ¬∀ (W : Side → Window) (ops : List Op), ((init W).run ops).Quiescent → (∀ x, (((init W).run ops).ends x).closed = true) →
      ∀ x, (((init W).run ops).ends x).registered = false := by
  intro h
  have hkept := h small (exchanged ++ [.close .opener, .close .acceptor]) (by decide) (by decide) .opener
  revert hkept
  decide

end Link

end NeProto.Session
