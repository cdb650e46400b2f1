/-
How a stream ends by RESET: who sends one, who has sent one, and that nobody sends a second one.

- `Endpoint.Tidy`: the facts about one end that every step keeps.
- `Link.Requested`: while the acceptor has not heard of the stream, OPEN is the first cell on its way.
- `Step.tidy`, `Step.requested`: every step keeps both.
-/
import NeProto.Session.Accepted

namespace NeProto.Session

open Endpoint List

open Continuity (maxSequence)

def Body.isReset : Body → Bool
  | .reset _ => true
  | _ => false

namespace Endpoint

/-! ## What one end keeps -/

structure Tidy (e : Endpoint) : Prop where
  unsent : e.Alive → e.stream.resetSent = false
  /-- a stream is removed after its RESET, or when none can be sent -/
  done : ∀ cause ∈ e.removals, cause ≠ .rejected → ¬e.stream.canReset
  rejected : Cause.rejected ∈ e.removals → e.phase = .dropped
  /-- a stream that ended waits to send its RESET, unless its sequence numbers ran out in a `Write` -/
  gone : e.phase ≠ .absent → e.phase ≠ .dropped → ¬e.Alive → e.stream.canReset →
    e.resets ≠ [] ∨ e.registered = true ∧ e.stream.localFIN = false ∧ maxSequence < e.stream.sendSequence
  sender : ∀ c cause, e.outgoing = some (c, .reset cause) →
    e.stream.resetSent = true ∧ c.body.isReset = true ∧ cause ≠ .rejected
  cell : ∀ c sender, e.outgoing = some (c, sender) → c.body.isReset = true → ∃ cause, sender = .reset cause
  causes : Cause.rejected ∉ e.resets

variable {s : Stream} {e e' : Endpoint} {c : Cell}

theorem absent_tidy (window : ℕ) : (absent window).Tidy where
  unsent := fun _ => rfl
  done := nofun
  rejected := nofun
  gone := fun hp => absurd rfl hp
  sender := nofun
  cell := nofun
  causes := nofun

theorem canReset_of_eq {s' : Stream} (hr : s'.resetSent = s.resetSent) (hw : s'.writeErr = s.writeErr) (h : s'.canReset) :
    s.canReset := by
  rw [Stream.canReset, hr, hw] at h
  exact h

theorem not_canReset (h : s.resetSent = true) : ¬s.canReset := fun hc => absurd (h.symm.trans hc.1) nofun

/-- the stream fails after it could not send a RESET -/
theorem canReset_fail {n m : ℕ} {err : StreamErr}
    (h : (({ s with recvSequence := n, sendCredit := m } : Stream).fail err).canReset) : s.canReset := by
  refine ⟨h.1, ?_⟩
  have hw := h.2
  simp only [Stream.fail, Stream.completeOpen] at hw
  cases hs : s.writeErr with
  | none => exact .inl rfl
  | some err' =>
    rw [hs] at hw
    exact .inr (by simpa using hw)

section

variable (h : e.Tidy)
include h

/-- a live end sends a cell that is not RESET -/
theorem Tidy.sends (hs : e.Sound) (ha : e.Alive)
    (hsent : e'.stream.resetSent = e.stream.resetSent) (hw : e'.stream.writeErr = e.stream.writeErr) (hp : e'.phase = e.phase)
    (hr : e'.resets = e.resets) (hm : e'.removals = e.removals) {sender : Sender}
    (ho : e'.outgoing = some (c, sender)) (hb : c.body.isReset = false) (hsender : ∀ cause, sender ≠ .reset cause) :
    e'.Tidy := by
  obtain ⟨-, hremovals, -⟩ := hs.resets ha
  rw [hremovals] at hm
  have ha' : e'.Alive := by rwa [Alive, hw, hp]
  refine ⟨fun _ => hsent.trans (h.unsent ha), ?_, ?_, fun _ _ hd => absurd ha' hd, fun d cause ho' => ?_, fun d sender' ho' hd => ?_,
    hr ▸ h.causes⟩
  · rw [hm]
    simp
  · rw [hm]
    simp
  · exact absurd (Prod.mk.inj (Option.some.inj (ho.symm.trans ho'))).2 (hsender cause)
  · cases ho.symm.trans ho'
    cases hd.symm.trans hb

/-- the fields that concern RESET stay as they are -/
theorem Tidy.frame (hsent : e'.stream.resetSent = e.stream.resetSent)
    (hw : e'.stream.writeErr = e.stream.writeErr) (hp : e'.phase = e.phase) (ho : e'.outgoing = e.outgoing)
    (hr : e'.resets = e.resets) (hm : e'.removals = e.removals)
    (hg : ¬e.Alive → e.registered = true → e.stream.localFIN = false → maxSequence < e.stream.sendSequence →
      e'.registered = true ∧ e'.stream.localFIN = false ∧ maxSequence < e'.stream.sendSequence) : e'.Tidy := by
  have halive : e'.Alive ↔ e.Alive := by simp only [Alive, hw, hp]
  have hcan : e'.stream.canReset → e.stream.canReset := canReset_of_eq hsent hw
  refine ⟨fun ha => hsent.trans (h.unsent (halive.1 ha)), ?_, ?_, fun h1 h2 h3 h4 => ?_, ?_, ?_, ?_⟩
  · rw [hm]
    exact fun cause hc hne hx => h.done cause hc hne (hcan hx)
  · rw [hm, hp]
    exact h.rejected
  · rw [hp] at h1 h2
    have hdead : ¬e.Alive := fun ha => h3 (halive.2 ha)
    rw [hr]
    exact (h.gone h1 h2 hdead (hcan h4)).imp_right fun hk => hg hdead hk.1 hk.2.1 hk.2.2
  · rw [ho, hsent]
    exact h.sender
  · rw [ho]
    exact h.cell
  · rw [hr]
    exact h.causes

theorem Tidy.remove (hg : e.phase ≠ .absent → e.phase ≠ .dropped → ¬e.Alive → e.stream.canReset →
    e.resets ≠ []) : e.remove.Tidy := by
  rw [Endpoint.remove]
  split
  · exact { h with gone := fun h1 h2 h3 h4 => .inl (hg h1 h2 h3 h4) }
  · exact h

theorem Tidy.retireIfComplete : e.retireIfComplete.Tidy := by
  rw [Endpoint.retireIfComplete]
  split
  · rename_i hr
    refine h.remove fun h1 h2 h3 h4 => (h.gone h1 h2 h3 h4).resolve_right fun hx => ?_
    have := ((Stream.canRetire_iff _).1 hr).1
    rw [hx.2.1] at this
    cases this
  · exact h

/-! ## Calls -/

omit h in
/-- an end whose `Write` is not done, or whose `Read` waits, is alive while it can send -/
theorem Sound.alive (hp : e.phase = .usable) (herr : e.stream.writeErr = none) : e.Alive :=
  .of_phase herr hp (by decide)

theorem Call.tidy (hs : e.Sound) (hcall : Call e e') : e'.Tidy := by
  cases hcall with
  | same => exact h
  | start hp hw hne | stop hw | count hw ho | strand hi ho hx =>
    exact h.frame rfl rfl rfl rfl rfl rfl fun _ h1 h2 h3 => ⟨h1, h2, h3⟩
  | exhausted hw herr hfin hx =>
    have ha := Sound.alive (hs.writing_usable (by simp [hw])) herr
    obtain ⟨hresets, hremovals, hout⟩ := hs.resets ha
    refine ⟨(fun hd => by cases hd.1), fun cause hm => ?_, fun hm => ?_, fun _ _ _ _ => .inr ⟨?_, hfin, hx⟩,
      fun c cause ho => absurd ho (hout c cause), h.cell, h.causes⟩
    · exact absurd hm (by simp [hremovals])
    · exact absurd hm (by simp [hremovals])
    simpa using hs.unfinished hfin ha
  | data hw ho herr hfin hc =>
    exact h.sends hs (Sound.alive (hs.writing_usable (by simp [hw])) herr) rfl rfl rfl rfl rfl rfl rfl nofun
  | @read n hp hz | @take n hp hz =>
    obtain ⟨hframe, -⟩ := Stream.read_spec hs.stream n
    refine h.frame (by rw [hframe]) (by rw [hframe]) rfl rfl rfl rfl fun _ h1 h2 h3 => ⟨h1, ?_, ?_⟩
    · rw [hframe]
      exact h2
    · rw [hframe]
      exact h3
  | update hi ho herr =>
    exact h.sends hs (Sound.alive (hs.reading hi) herr) rfl rfl rfl rfl rfl rfl rfl nofun
  | mute hp herr hfin hx =>
    exact h.frame rfl rfl rfl rfl rfl rfl fun hd _ _ _ => absurd (Sound.alive hp herr) hd
  | fin hp ho herr hfin => exact h.sends hs (Sound.alive hp herr) rfl rfl rfl rfl rfl rfl rfl nofun
  | force hp hg =>
    refine ⟨(fun hd => by cases hd.1), fun cause hm hc hx => ?_, h.rejected, fun _ _ _ _ => .inl (by simp), h.sender, h.cell, ?_⟩
    · refine h.done cause hm hc ⟨hx.1, ?_⟩
      have hw := hx.2
      cases hs : e.stream.writeErr with
      | none => exact .inl rfl
      | some err =>
        simp only [hs] at hw
        exact .inr (by simpa using hw)
    · simpa using h.causes
  | @skip i cause hi ho hx =>
    have hne : cause ≠ .rejected := fun hz => h.causes (hz ▸ mem_of_getElem? hi)
    refine ⟨h.unsent, fun c hm hc => ?_, fun hm => ?_, fun _ _ _ hc => absurd hc hx, h.sender, h.cell, fun hm =>
      h.causes (mem_of_mem_eraseIdx hm)⟩
    · rcases mem_append.1 hm with hm | hm
      · exact h.done c hm hc
      · exact hx
    · rcases mem_append.1 hm with hm | hm
      · exact h.rejected hm
      · exact absurd (mem_singleton.1 hm).symm hne
  | @resetMute i cause hi ho hc hx =>
    have hne : cause ≠ .rejected := fun hz => h.causes (hz ▸ mem_of_getElem? hi)
    refine ⟨fun ha => absurd ha (hs.resetting hi), fun _ _ _ => not_canReset rfl, fun hm => ?_,
      fun _ _ _ hx => absurd hx (not_canReset rfl), fun c cause' ho' => ⟨rfl, (h.sender c cause' ho').2⟩, h.cell,
      fun hm => h.causes (mem_of_mem_eraseIdx hm)⟩
    rcases mem_append.1 hm with hm | hm
    · exact h.rejected hm
    · exact absurd (mem_singleton.1 hm).symm hne
  | @reset i cause hi ho hc =>
    have hne : cause ≠ .rejected := fun hz => h.causes (hz ▸ mem_of_getElem? hi)
    refine ⟨fun ha => absurd ha (hs.resetting hi), fun _ _ _ => not_canReset rfl, h.rejected,
      fun _ _ _ hx => absurd hx (not_canReset rfl), fun c cause' ho' => ?_, fun c sender ho' _ => ?_,
      fun hm => h.causes (mem_of_mem_eraseIdx hm)⟩
    · obtain ⟨rfl, heq⟩ := Prod.mk.inj (Option.some.inj ho')
      obtain rfl := Sender.reset.inj heq
      exact ⟨rfl, rfl, hne⟩
    · exact ⟨cause, (Prod.mk.inj (Option.some.inj ho')).2.symm⟩
  | @remove i cause hi =>
    have hmem := mem_of_getElem? hi
    by_cases hc : cause = .cancel
    · -- a cancelled `Open` has sent its RESET
      have hno : ¬e.stream.canReset := h.done cause hmem (by rw [hc]; exact nofun)
      have hno' : ¬(e.stream.fail .canceled).canReset := fun hx => hno (canReset_fail hx)
      rw [removed, if_pos hc]
      refine Tidy.remove ⟨(fun ha => by cases ha.1), fun _ _ _ => hno', fun hm => h.rejected (mem_of_mem_eraseIdx hm),
        fun _ _ _ hx => absurd hx hno', h.sender, h.cell, h.causes⟩ fun _ _ _ hx => absurd hx hno'
    · rw [removed, if_neg hc]
      refine Tidy.remove ⟨h.unsent, fun c hm => h.done c (mem_of_mem_eraseIdx hm), fun hm =>
        h.rejected (mem_of_mem_eraseIdx hm), h.gone, h.sender, h.cell, h.causes⟩ fun _ h2 _ hx => ?_
      refine absurd hx (h.done cause hmem fun hz => h2 ?_)
      exact h.rejected (hz ▸ hmem)
  | check hpos =>
    exact Tidy.retireIfComplete (h.frame rfl rfl rfl rfl rfl rfl fun _ h1 h2 h3 => ⟨h1, h2, h3⟩)

/-! ## The other steps -/

theorem graceful_tidy : ({ e.retireIfComplete with closed := true } : Endpoint).Tidy := by
  have hr := h.retireIfComplete
  exact { hr with }

theorem evict_tidy : ({ e with retired := false } : Endpoint).Tidy :=
  { h with }

/-- an end that stays alive goes to its next phase -/
theorem Tidy.advance {p q : Phase} (hp : e.phase = p) (hl : p ≠ .absent ∧ p ≠ .cancelled ∧ p ≠ .dropped)
    (hq : q ≠ .absent ∧ q ≠ .cancelled ∧ q ≠ .dropped) : ({ e with phase := q } : Endpoint).Tidy := by
  refine ⟨fun ha => h.unsent (.of_phase ha.1 hp hl), h.done, fun hm => ?_, fun _ _ hd => ?_, h.sender, h.cell, h.causes⟩
  · exact absurd (hp.symm.trans (h.rejected hm)) hl.2.2
  · exact h.gone (hp ▸ hl.1) (hp ▸ hl.2.2) fun ha => hd ⟨ha.1, hq⟩

theorem sent_tidy {sender : Sender} (ho : e.outgoing = some (c, sender)) : (e.sent sender).Tidy := by
  cases sender with
  | write | update | closeWrite => exact { h with sender := nofun, cell := nofun }
  | reset cause =>
    obtain ⟨hsent, -, hne⟩ := h.sender c cause ho
    refine ⟨h.unsent, fun cause' hm hc => ?_, fun hm => ?_, h.gone, nofun, nofun, h.causes⟩
    · exact not_canReset hsent
    rcases mem_append.1 hm with hm | hm
    · exact h.rejected hm
    · exact absurd (mem_singleton.1 hm).symm hne

theorem took_tidy (htook : Took e c e') : e'.Tidy := by
  cases htook with
  | failed hk =>
    refine ⟨(fun ha => nomatch ha.1), fun cause hm hc hx => h.done cause hm hc (canReset_fail hx), h.rejected,
      fun _ _ _ _ => .inl (by simp), h.sender, h.cell, by simpa using h.causes⟩
  | reset hb =>
    have hno : ∀ s : Stream, s.writeErr = some .reset → ¬s.canReset := fun s hw hx => by
      rw [Stream.canReset, hw] at hx
      simp at hx
    exact ⟨(fun ha => nomatch ha.1), fun _ _ _ => hno _ rfl, h.rejected, fun _ _ _ hx => absurd hx (hno _ rfl), h.sender, h.cell,
      h.causes⟩
  | passed hs hb hw hr =>
    refine Tidy.retireIfComplete (h.frame hr hw rfl rfl rfl rfl fun _ h1 h2 h3 => ?_)
    generalize hx : ((_, none) : Stream × Option CellErr) = x at hs
    cases hs with
    | failed => cases hx
    | openOK | openFail | data | fin | reset | windowUpdate =>
      cases hx
      exact ⟨h1, h2, h3⟩

end

end Endpoint

namespace Link

/-! ## Runs -/

def Tidy (w : Link) : Prop := ∀ x, (w.ends x).Tidy

variable {w : Link} {e : Endpoint} {W : Side → Window} {c : Cell}

theorem Tidy.setEnd (h : w.Tidy) (x : Side) (he : e.Tidy) : (w.setEnd x e).Tidy :=
  setEnd_all (P := fun _ => Endpoint.Tidy) h he

theorem Step.tidy {w' : Link} {o : Op} (hi : w.Inv W) (h : w.Tidy) (hstep : Step w o w') : w'.Tidy := by
  cases hstep with
  | idle => exact h
  | @call o x e hcall => exact h.setEnd x (hcall.tidy (h x) (hi.sound x))
  | @graceful x hp hg => exact h.setEnd x (graceful_tidy (h x))
  | @evict x => exact h.setEnd x (evict_tidy (h x))
  | register hp =>
    refine h.setEnd .opener ?_
    rw [(hi.sound .opener).absent hp]
    exact ⟨fun _ => rfl, nofun, nofun, fun _ _ hd => absurd ⟨rfl, nofun, nofun, nofun⟩ hd, nofun, nofun, nofun⟩
  | request hp | opened hp => exact h.setEnd .opener ((h .opener).advance hp (by decide) (by decide))
  | denied hp hr =>
    have ht := h .opener
    refine h.setEnd .opener ⟨fun ha => absurd rfl ha.2.2.2, fun cause hm hc => ?_, fun _ => rfl, fun _ hd => absurd rfl hd,
      ht.sender, ht.cell, ht.causes⟩
    rcases mem_append.1 hm with hm | hm
    · exact ht.done cause hm hc
    · exact absurd (mem_singleton.1 hm) hc
  | cancel hp =>
    have ht := h .opener
    refine h.setEnd .opener ⟨fun ha => absurd rfl ha.2.2.1, ht.done, fun hm => ?_, fun _ _ _ _ => .inl (by simp),
      ht.sender, ht.cell, by simpa using ht.causes⟩
    cases hp.symm.trans (ht.rejected hm)
  | accept hp => exact h.setEnd .acceptor ((h .acceptor).advance hp (by decide) (by decide))
  | @reject code hp =>
    have ht := h .acceptor
    refine h.setEnd .acceptor ⟨fun ha => absurd rfl ha.2.2.2, fun cause hm hc hx => ?_, fun _ => rfl,
      fun _ hd => absurd rfl hd, ht.sender, ht.cell, ht.causes⟩
    rcases mem_append.1 hm with hm | hm
    · exact ht.done cause hm hc (canReset_fail hx)
    · exact absurd (mem_singleton.1 hm) hc
  | @transmit x c sender ho => exact h.setEnd x (sent_tidy (h x) ho)
  | @invalid x full c rest hto hb hx | @ignore x full c rest hto hb hreg hret | @unknown x full c rest hto hb hreg hret =>
    exact h.setEnd x (h x)
  | refuse hto hb => exact h
  | @offer c rest window hto hb hc hreg hret =>
    refine h.setEnd .acceptor ?_
    obtain ⟨-, habs, -⟩ := hi.requests .acceptor c (by rw [hto]; exact mem_cons_self) (by rw [hb]; rfl)
    rw [(hi.sound .acceptor).absent habs]
    exact ⟨fun _ => rfl, nofun, nofun, fun _ _ hd => absurd ⟨rfl, nofun, nofun, nofun⟩ hd, nofun, nofun, nofun⟩
  | @handle x full c rest hto hb hreg =>
    exact h.setEnd x (took_tidy (h x) (handleCell_took c hreg))

/-! ## OPEN comes first -/

def Requested (w : Link) : Prop :=
  (w.ends .opener).phase ≠ .absent → (w.ends .opener).phase ≠ .opening → (w.ends .acceptor).phase = .absent →
    w.refused = false → ∃ window rest, w.toward .acceptor = ⟨0, .opening window⟩ :: rest

section

variable (h : w.Requested)
include h

theorem Requested.push (x : Side) : (w.push x c).Requested := by
  intro h1 h2 h3 h4
  obtain ⟨window, rest, hto⟩ := h h1 h2 h3 h4
  cases x with
  | opener => exact ⟨window, rest, by simp [Link.push, hto]⟩
  | acceptor => exact ⟨window, rest ++ [c], by simp [Link.push, hto]⟩

theorem Requested.setEnd (x : Side)
    (habs : e.phase = .absent ↔ (w.ends x).phase = .absent) (hopen : e.phase = .opening ↔ (w.ends x).phase = .opening) :
    (w.setEnd x e).Requested := by
  intro h1 h2 h3 h4
  cases x with
  | opener => exact h (fun hx => h1 (habs.2 hx)) (fun hx => h2 (hopen.2 hx)) h3 h4
  | acceptor => exact h h1 h2 (habs.1 h3) h4

/-- OPEN is the first cell an acceptor takes -/
theorem Requested.unheard (hi : w.Inv W) {x : Side}
    {rest : List Cell} (hto : w.toward x = c :: rest) (habs : (w.ends x).phase = .absent) (href : w.refused = false) :
    x = .acceptor ∧ ∃ window, c = ⟨0, .opening window⟩ := by
  have hasking := hi.asking hto
  simp only [not_or] at hasking
  cases x with
  | opener => exact absurd habs hasking.1
  | acceptor =>
    obtain ⟨window, rest', hreq⟩ := h hasking.1 hasking.2 habs href
    exact ⟨rfl, window, (List.cons.inj (hto.symm.trans hreq)).1⟩

/-- the read loop takes a cell of a stream the end has heard of -/
theorem Requested.taken (x : Side) (rest : List Cell)
    (hp : e.phase = (w.ends x).phase) (hasked : ¬((w.ends x).phase = .absent ∧ w.refused = false)) :
    (w.taken x rest e).Requested := by
  intro h1 h2 h3 h4
  cases x with
  | opener => exact h (hp ▸ h1) (hp ▸ h2) h3 h4
  | acceptor => exact absurd ⟨hp.symm.trans h3, h4⟩ hasked

omit h in
/-- an end that is registered or retired has heard of the stream -/
theorem heard_of (hs : e.Sound) (h : e.registered = true ∨ e.retired = true) : e.phase ≠ .absent := by
  intro hp
  rw [hs.absent hp] at h
  simp [absent] at h

/-- an OPEN is never a duplicate, a reused ID or for the wrong side -/
theorem Requested.valid (hi : w.Inv W) {x : Side}
    {rest : List Cell} (hto : w.toward x = c :: rest) (hb : c.body.opens = true)
    (hx : x = .opener ∨ c.sequence ≠ 0 ∨ (w.ends x).registered = true ∨ (w.ends x).retired = true) : False := by
  obtain ⟨rfl, habs, href⟩ := hi.requests x c (by rw [hto]; exact mem_cons_self) hb
  obtain ⟨-, window, rfl⟩ := h.unheard hi hto habs href
  rw [(hi.sound .acceptor).absent habs] at hx
  simp [absent] at hx

theorem Step.requested {w' : Link} {o : Op} (hi : w.Inv W) (hstep : Step w o w') : w'.Requested := by
  cases hstep with
  | idle => exact h
  | @call o x e hcall =>
    have hp : e.phase = (w.ends x).phase := hcall.phase
    exact h.setEnd x (by rw [hp]) (by rw [hp])
  | @graceful x hp hg =>
    refine h.setEnd x ?_ ?_
    · rw [retireIfComplete_eq]
    · rw [retireIfComplete_eq]
  | @evict x => exact h.setEnd x Iff.rfl Iff.rfl
  | register hp =>
    intro _ h2
    exact absurd rfl h2
  | request hp =>
    obtain ⟨-, hto, -⟩ := hi.unasked (.inr hp)
    exact fun _ _ _ _ => ⟨_, _, congrArg (· ++ [_]) (hto .acceptor)⟩
  | opened hp hr | denied hp hr | cancel hp => exact h.setEnd .opener (by simp [hp]) (by simp [hp])
  | accept hp | reject hp => exact Requested.push (h.setEnd .acceptor (by simp [hp]) (by simp [hp])) .opener
  | @transmit x c sender ho =>
    have hp := (sent_views (w.ends x) sender).2.2.2.2.1
    exact Requested.push (h.setEnd x (by rw [hp]) (by rw [hp])) x.other
  | invalid full hto hb hx => exact (h.valid hi hto hb hx).elim
  | refuse hto hb => exact nofun
  | offer hto hb hc hreg hret =>
    intro _ _ h3
    cases h3
  | @handle x full c rest hto hb hreg =>
    exact h.taken x rest (handleCell_frame c hreg).2.1 fun hx => heard_of (hi.sound x) (.inl hreg) hx.1
  | @ignore x full c rest hto hb hreg hret =>
    exact h.taken x rest rfl fun hx => heard_of (hi.sound x) (.inr hret) hx.1
  | @unknown x full c rest hto hb hreg hret =>
    refine h.taken x rest rfl fun hx => ?_
    obtain ⟨-, window, rfl⟩ := h.unheard hi hto hx.1 hx.2
    cases hb

end

end Link

end NeProto.Session
