/-
No cell of a stream arrives for an ID its mux does not know, over every run in which an ID is forgotten only when the peer has
nothing left to send for it and an `Open` refused at the stream limit is not cancelled.

- `Endpoint.Silent`: an end that sends nothing more, whatever its application does.
- `keepSafe`: the condition on forgetting, refusing and cancelling.
- `Known`: `Mux.handleCell` has not failed, and will not fail on what is in flight.
-/
import NeProto.Session.Reset

namespace NeProto.Session

open Endpoint

open Continuity (maxSequence)

namespace Endpoint

/-! ## Ends that send nothing more -/

structure Silent (e : Endpoint) : Prop where
  registered : e.registered = false
  outgoing : e.outgoing = none
  phase : e.phase ≠ .opening ∧ e.phase ≠ .waiting ∧ e.phase ≠ .incoming
  credits : e.Alive → e.credits = []
  resets : ¬e.Alive → e.resets = [] ∨ ¬e.stream.canReset

variable {e e' : Endpoint}

/-- a stream that was retired without a RESET is finished in both directions -/
theorem Silent.finished (h : e.Silent) (hs : e.Sound) (ha : e.Alive) :
    e.stream.localFIN = true ∧ e.stream.peerFIN = true ∧ e.stream.chunks = [] ∧ e.stream.pendingCredit = 0 := by
  obtain ⟨hl, hf, hc, -, -, -, hp⟩ := (Stream.canRetire_iff _).1 (hs.retired ha h.registered)
  exact ⟨hl, hf, hc, hp⟩

/-- the fields that matter stay as they are -/
theorem Silent.frame (h : e.Silent) (hreg : e'.registered = e.registered) (ho : e'.outgoing = e.outgoing)
    (hp : e'.phase = e.phase) (hw : e'.stream.writeErr = e.stream.writeErr) (hr : e'.stream.resetSent = e.stream.resetSent)
    (hcr : e'.credits = e.credits) (hres : e'.resets = e.resets) : e'.Silent := by
  have halive : e'.Alive ↔ e.Alive := by rw [Alive, Alive, hw, hp]
  refine ⟨hreg.trans h.registered, ho.trans h.outgoing, hp ▸ h.phase, ?_, ?_⟩
  · rw [halive, hcr]
    exact h.credits
  · rw [halive, hres, Stream.canReset, hr, hw]
    exact h.resets

theorem Call.silent (hs : e.Sound) (ht : e.Tidy) (h : e.Silent) (hcall : Call e e') : e'.Silent := by
  have hopen : e.Alive → e.stream.localFIN ≠ false := fun ha hx => absurd ((h.finished hs ha).1.symm.trans hx) nofun
  have hcan : e.stream.canReset → e.resets = [] := by
    intro hc
    by_cases ha : e.Alive
    · exact (hs.resets ha).1
    · exact (h.resets ha).resolve_right fun hx => hx hc
  cases hcall with
  | same => exact h
  | start hp hw hne | stop hw | count hw ho => exact h.frame rfl rfl rfl rfl rfl rfl rfl
  | exhausted hw herr hfin hx | data hw ho herr hfin hc =>
    exact absurd hfin (hopen (Sound.alive (hs.writing_usable (by simp [hw])) herr))
  | @read n hp hz =>
    obtain ⟨hframe, -⟩ := Stream.read_spec hs.stream n
    exact h.frame rfl rfl rfl (by rw [hframe]) (by rw [hframe]) rfl rfl
  | @take n hp hz =>
    obtain ⟨hframe, -⟩ := Stream.read_spec hs.stream n
    have hdead : ¬e.Alive := fun ha => hz (Stream.read_idle (h.finished hs ha).2.2.1 (h.finished hs ha).2.2.2 n).2
    refine ⟨h.registered, h.outgoing, h.phase, fun ha => ?_, fun _ => ?_⟩
    · exact absurd (Alive.of_eq (e := e) ha (by rw [hframe]) rfl) hdead
    refine (h.resets hdead).imp_right fun hx hc => hx (canReset_of_eq ?_ ?_ hc)
    · rw [hframe]
    · rw [hframe]
  | strand hi ho hx =>
    refine ⟨h.registered, h.outgoing, h.phase, fun ha => ?_, fun hd => h.resets fun ha => hd (ha.of_eq rfl rfl)⟩
    rw [h.credits (ha.of_eq rfl rfl)] at hi
    cases hi
  | update hi ho herr =>
    rw [h.credits (Sound.alive (hs.reading hi) herr)] at hi
    cases hi
  | mute hp herr hfin hx | fin hp ho herr hfin => exact absurd hfin (hopen (Sound.alive hp herr))
  | force hp hg =>
    have hdead : ¬e.Alive := fun ha => by
      obtain ⟨h1, h2, h3, -⟩ := h.finished hs ha
      simp [gracefullyClosed, h1, h2, h3] at hg
    have hno : ¬e.stream.canReset := by
      intro hc
      rcases ht.gone (by simp [hp]) (by simp [hp]) hdead hc with hx | hx
      · exact hx (hcan hc)
      · cases h.registered.symm.trans hx.1
    refine ⟨h.registered, h.outgoing, h.phase, (fun ha => by cases ha.1), fun _ => .inr fun hc => hno ⟨hc.1, ?_⟩⟩
    cases hw : e.stream.writeErr with
    | none => exact .inl rfl
    | some err =>
      have hx := hc.2
      simp only [hw] at hx
      exact .inr (by simpa using hx)
  | skip hi ho hx => exact ⟨h.registered, h.outgoing, h.phase, fun ha => h.credits (ha.of_eq rfl rfl), fun _ => .inr hx⟩
  | resetMute hi ho hc hx | reset hi ho hc =>
    rw [hcan hc] at hi
    cases hi
  | @remove i cause hi =>
    have hdead : ¬e.Alive := fun ha => by
      rw [(hs.resets ha).2.1] at hi
      cases hi
    rw [removed]
    have hgone := remove_gone { e with removals := e.removals.eraseIdx i, closed := e.closed || decide (cause = Cause.close)
                                       stream := if cause = Cause.cancel then e.stream.fail .canceled else e.stream }
    rw [remove_eq] at ⊢
    refine ⟨hgone, h.outgoing, h.phase, fun ha => ?_, fun _ => (h.resets hdead).imp_right fun hx hc => hx ?_⟩
    · have hw := ha.1
      split at hw
      · cases hw
      · exact absurd ⟨hw, ha.2⟩ hdead
    · split at hc
      · exact canReset_fail hc
      · exact hc
  | check hpos =>
    have hreg : ({ e with checks := e.checks - 1 } : Endpoint).retireIfComplete.registered = false := by
      by_contra hx
      have := retireIfComplete_registered (by simpa using hx)
      cases h.registered.symm.trans this
    rw [retireIfComplete_eq] at ⊢
    exact h.frame (hreg.trans h.registered.symm) rfl rfl rfl rfl rfl rfl

theorem Call.known (hcall : Call e e') (hreg : e'.registered = false) (hret : e'.retired = false) :
    e.registered = false ∧ e.retired = false := by
  cases hcall with
  | remove hi =>
    have hk := remove_known hret
    exact hk
  | check hpos =>
    have hk := retireIfComplete_known hreg hret
    exact hk
  | _ => exact ⟨hreg, hret⟩

theorem Took.known {c : Cell} (hreg : e.registered = true) (htook : Took e c e')
    (hreg' : e'.registered = false) : e'.retired = true := by
  cases htook with
  | failed hk => exact (hk.resolve_left fun hx => absurd (hx.1.symm.trans hreg') nofun).2
  | reset hb => rfl
  | @passed s hs hb hw hr =>
    have hk := retireIfComplete_kept (e := { e with stream := s }) hreg
    exact (hk.resolve_left fun hx => absurd (hx.1.symm.trans hreg') nofun).2

/-- a call on an end that is not usable and has no RESET to send -/
theorem Call.unused (hs : e.Sound) (hp : e.phase ≠ .usable) (hr : e.resets = []) (hcall : Call e e') :
    e'.resets = [] ∧ e'.outgoing = e.outgoing ∧ (e.removals = [] → e'.stream = e.stream) := by
  obtain ⟨hidle, hcr, -, -, -⟩ := hs.unused hp
  cases hcall with
  | same => exact ⟨hr, rfl, fun _ => rfl⟩
  | start hu | read hu | take hu | mute hu | fin hu | force hu => exact absurd hu hp
  | stop hw | exhausted hw | data hw | count hw =>
    rw [hidle] at hw
    cases hw
  | strand hi | update hi =>
    rw [hcr] at hi
    cases hi
  | skip hi | resetMute hi | reset hi =>
    rw [hr] at hi
    cases hi
  | remove hi =>
    refine ⟨?_, ?_, fun hm => ?_⟩
    · rw [removed, remove_eq]
      exact hr
    · rw [removed, remove_eq]
    · rw [hm] at hi
      cases hi
  | check hpos =>
    rw [retireIfComplete_eq]
    exact ⟨hr, rfl, fun _ => rfl⟩

end Endpoint

namespace Link

/-! ## The condition -/

/-- nothing is in flight to `x`, and the peer has left its mux with no call in progress and nothing left to answer -/
def Forgettable (w : Link) (x : Side) : Prop :=
  w.toward x = [] ∧ (w.ends x.other).registered = false ∧ (w.ends x.other).outgoing = none ∧ (w.ends x.other).credits = [] ∧
    (w.ends x.other).resets = [] ∧ (w.ends x.other).phase ≠ .opening ∧ (w.ends x.other).phase ≠ .waiting ∧
      (w.ends x.other).phase ≠ .incoming ∧ ((w.ends x.other).phase = .absent → w.refused = true)

instance (w : Link) (x : Side) : Decidable (w.Forgettable x) := inferInstanceAs (Decidable (_ ∧ _))

/-- an OPEN is refused while its `Open` waits, which is then not cancelled, and an ID is forgotten when it can be -/
def keepSafe (w : Link) : Op → Prop
  | .deliver .acceptor true => (∃ c ∈ w.toward .acceptor, c.body.opens = true) →
    (w.ends .opener).phase = .waiting ∧ (w.ends .opener).stream.writeErr = none
  | .openCancel => w.refused = false
  | .evict x => w.Forgettable x
  | _ => True

instance (w : Link) (o : Op) : Decidable (w.keepSafe o) := by
  unfold keepSafe
  split <;> infer_instance

/-! ## What both ends keep -/

/-- an `Open` that was refused at the stream limit, with the cells on their way to it -/
inductive Denied (e : Endpoint) (q : List Cell) : Prop where
  | sent (hp : e.phase = .waiting) (hs : ∃ window, e.stream = .new window 0 true) (hto : q = [⟨0, .openFail 1⟩])
  | heard (hp : e.phase = .waiting) (hr : ∃ err, e.stream.openResult = some (some err)) (hw : e.stream.writeErr = none)
    (hto : q = [])
  | done (hp : e.phase = .dropped) (hto : q = [])

structure Known (w : Link) : Prop where
  refused : w.refused = true → (w.ends .acceptor).phase = .absent ∧ w.toward .acceptor = [] ∧ (w.ends .opener).resets = [] ∧
    (w.ends .opener).outgoing = none ∧ Denied (w.ends .opener) (w.toward .opener)
  forgotten : ∀ x, (w.ends x).phase ≠ .absent → (w.ends x).registered = false → (w.ends x).retired = false →
    w.toward x = [] ∧ (w.ends x.other).Silent ∧ ((w.ends x.other).phase = .absent → w.refused = true)
  failed : w.failed = false

variable {w : Link} {e : Endpoint} {c : Cell}

theorem init_known (W : Side → Window) : (init W).Known where
  refused := nofun
  forgotten := fun _ hp => absurd rfl hp
  failed := rfl

/-- what becomes of an end; `rest` is then on its way to the opener -/
structure Goes (w : Link) (x : Side) (e : Endpoint) (rest : List Cell) : Prop where
  absent : e.phase = .absent ↔ (w.ends x).phase = .absent
  known : e.registered = false → e.retired = false → (w.ends x).registered = false ∧ (w.ends x).retired = false
  silent : (w.ends x).Silent → e.Silent
  denied : x = .opener → Denied (w.ends .opener) (w.toward .opener) → (w.ends .opener).resets = [] →
    (w.ends .opener).outgoing = none → e.resets = [] ∧ e.outgoing = none ∧ Denied e rest

/-- one end goes on, and its read loop with it -/
theorem Known.taken (h : w.Known) (x : Side) {rest : List Cell} (hto : w.toward x = [] → rest = []) (he : w.Goes x e rest) :
    (w.taken x rest e).Known := by
  obtain ⟨habs, hknown, hsilent, hdenied⟩ := he
  refine ⟨fun hr => ?_, fun z h1 h2 h3 => ?_, h.failed⟩
  · obtain ⟨hacc, htoa, hres, hout, hd⟩ := h.refused hr
    cases x with
    | opener => exact ⟨hacc, htoa, hdenied rfl hd hres hout⟩
    | acceptor => exact ⟨habs.2 hacc, hto htoa, hres, hout, hd⟩
  · rcases x.eq_or z with rfl | rfl
    · rw [taken_self] at h1 h2 h3
      rw [taken_toward, taken_other]
      obtain ⟨k1, k2⟩ := hknown h2 h3
      exact (h.forgotten z (fun hx => h1 (habs.2 hx)) k1 k2).imp_left hto
    · rw [taken_other] at h1 h2 h3
      obtain ⟨k1, k2, k3⟩ := h.forgotten x.other h1 h2 h3
      rw [Side.other_other] at k2 k3
      rw [Side.other_other, taken_self, taken_toward_other]
      exact ⟨k1, hsilent k2, fun hx => k3 (habs.1 hx)⟩

theorem Known.setEnd (h : w.Known) (x : Side) (he : w.Goes x e (w.toward .opener)) : (w.setEnd x e).Known := by
  have hsame : w.taken x (w.toward x) e = w.setEnd x e := by simp only [Link.taken, Function.update_eq_self]
  rw [← hsame]
  refine h.taken x id { he with denied := fun hx => ?_ }
  subst hx
  exact he.denied rfl

/-- a cell is sent by an end that is not silent -/
theorem Known.push (h : w.Known) (x : Side) (hr : w.refused = false)
    (hs : ¬(w.ends x).Silent) : (w.push x.other c).Known := by
  refine ⟨fun hx => absurd (hr.symm.trans hx) nofun, fun z h1 h2 h3 => ?_, h.failed⟩
  obtain ⟨k1, k2, k3⟩ := h.forgotten z h1 h2 h3
  rcases x.eq_or z with rfl | rfl
  · exact ⟨(Function.update_of_ne z.other_ne.symm ..).trans k1, k2, k3⟩
  · rw [Side.other_other] at k2
    exact absurd k2 hs

/-- the answer to a refused `Open` passes the checks of `handleCell` -/
theorem Denied.handled {rest : List Cell} (h : Denied e (c :: rest)) (hr : e.resets = []) (ho : e.outgoing = none) :
    (e.handleCell c).resets = [] ∧ (e.handleCell c).outgoing = none ∧ Denied (e.handleCell c) rest := by
  cases h with
  | sent hp hs hto =>
    cases hto
    obtain ⟨window, hs⟩ := hs
    have heq : e.handleCell ⟨0, .openFail 1⟩ = { e with
        stream := ({ Stream.new window 0 true with recvSequence := 1 } : Stream).completeOpen (some (.rejected 1)) } := by
      simp only [Endpoint.handleCell, hs]
      rfl
    rw [heq]
    exact ⟨hr, ho, .heard hp ⟨.rejected 1, rfl⟩ rfl rfl⟩
  | heard _ _ _ hto | done _ hto => cases hto

/-- an end of an `Open` that waits is not silent -/
theorem not_silent (hp : e.phase = .opening ∨ e.phase = .waiting ∨ e.phase = .incoming) : ¬e.Silent := by
  intro h
  rcases hp with hp | hp | hp
  · exact h.phase.1 hp
  · exact h.phase.2.1 hp
  · exact h.phase.2.2 hp

theorem Forgettable.silent {x : Side} (h : w.Forgettable x) : (w.ends x.other).Silent := by
  obtain ⟨-, hreg, ho, hc, hr, h1, h2, h3, -⟩ := h
  exact ⟨hreg, ho, ⟨h1, h2, h3⟩, fun _ => hc, fun _ => .inl hr⟩

theorem Step.known {W : Side → Window} {w' : Link} {o : Op} (hi : w.Inv W) (ht : w.Tidy) (hq : w.Requested) (h : w.Known)
    (hsafe : w.keepSafe o) (hstep : Step w o w') : w'.Known := by
  -- no `Open` is refused before its OPEN has arrived or once it is answered
  have hacc : (w.ends .acceptor).phase ≠ .absent → w.refused = false := by
    intro hx
    by_contra hr
    exact hx (h.refused (by simpa using hr)).1
  have hnew : (w.ends .acceptor).phase = .absent → w.refused = false → (w.ends .opener).phase ≠ .absent →
      (w.ends .opener).registered = false → (w.ends .opener).retired = false → False := by
    intro h1 h2 h3 h4 h5
    cases h2.symm.trans ((h.forgotten .opener h3 h4 h5).2.2 h1)
  cases hstep with
  | idle => exact h
  | @call o x e hcall =>
    have hp : e.phase = (w.ends x).phase := hcall.phase
    refine h.setEnd x ⟨by rw [hp], hcall.known, hcall.silent (hi.sound x) (ht x), fun hx hd hr ho => ?_⟩
    subst hx
    have hu : (w.ends .opener).phase ≠ .usable := by
      cases hd with
      | sent hx | heard hx | done hx => simp [hx]
    obtain ⟨k1, k2, k3⟩ := hcall.unused (hi.sound .opener) hu hr
    refine ⟨k1, k2.trans ho, ?_⟩
    cases hd with
    | sent hx hs hto =>
      obtain ⟨window, hs⟩ := hs
      have ha : (w.ends .opener).Alive := .of_phase (by rw [hs]; rfl) hx (by decide)
      have hst := k3 ((hi.sound .opener).resets ha).2.1
      exact .sent (hp.trans hx) ⟨window, hst.trans hs⟩ hto
    | heard hx hr hw hto =>
      have ha : (w.ends .opener).Alive := .of_phase hw hx (by decide)
      have hst := k3 ((hi.sound .opener).resets ha).2.1
      exact .heard (hp.trans hx) (hst ▸ hr) (hst ▸ hw) hto
    | done hx hto => exact .done (hp.trans hx) hto
  | @graceful x hp hg =>
    have hknown := @retireIfComplete_known (w.ends x)
    have hreg := @retireIfComplete_registered (w.ends x)
    rw [retireIfComplete_eq] at ⊢
    refine h.setEnd x ⟨.rfl, hknown, fun hs => ?_, fun hx hd => ?_⟩
    · refine { hs with registered := ?_ }
      by_contra hx
      cases hs.registered.symm.trans (hreg (by simpa using hx))
    · subst hx
      cases hd with
      | sent hx | heard hx | done hx => cases hp.symm.trans hx
  | @evict x =>
    have hforget : w.Forgettable x := hsafe
    refine ⟨fun hr => ?_, fun z h1 h2 h3 => ?_, h.failed⟩
    · obtain ⟨k1, k2, k3, k4, k5⟩ := h.refused hr
      cases x with
      | opener =>
        refine ⟨k1, k2, k3, k4, ?_⟩
        cases k5 with
        | sent hx hs hto => exact .sent hx hs hto
        | heard hx hr hw hto => exact .heard hx hr hw hto
        | done hx hto => exact .done hx hto
      | acceptor => exact ⟨k1, k2, k3, k4, k5⟩
    · rcases x.eq_or z with rfl | rfl
      · rw [setEnd_other]
        exact ⟨hforget.1, hforget.silent, hforget.2.2.2.2.2.2.2.2⟩
      · rw [setEnd_other] at h1 h2 h3
        obtain ⟨k1, k2, k3⟩ := h.forgotten x.other h1 h2 h3
        rw [Side.other_other] at k2 k3
        rw [Side.other_other, setEnd_self]
        exact ⟨k1, k2.frame rfl rfl rfl rfl rfl rfl rfl, k3⟩
  | register hp =>
    obtain ⟨habs, -, href⟩ := hi.unasked (.inl hp)
    refine ⟨fun hr => (by cases href.symm.trans hr), fun z h1 h2 _ => ?_, h.failed⟩
    cases z with
    | opener => cases h2
    | acceptor => exact absurd habs h1
  | request hp =>
    obtain ⟨habs, -, href⟩ := hi.unasked (.inr hp)
    refine ⟨fun hr => (by cases href.symm.trans hr), fun z h1 h2 h3 => ?_, h.failed⟩
    exfalso
    cases z with
    | opener => exact hnew habs href (by simp [hp]) h2 h3
    | acceptor => exact absurd habs h1
  | opened hp hr =>
    refine h.setEnd .opener ⟨by simp [hp], .intro, fun hs => absurd hs (not_silent (.inr (.inl hp))), fun _ hd => ?_⟩
    cases hd with
    | sent _ hs _ =>
      obtain ⟨window, hs⟩ := hs
      rw [hs] at hr
      cases hr
    | heard _ hr' _ _ =>
      obtain ⟨err, hr'⟩ := hr'
      exact absurd (hr.symm.trans hr') (by simp)
    | done hx _ => cases hp.symm.trans hx
  | denied hp hr =>
    refine h.setEnd .opener ⟨by simp [hp], .intro, fun hs => absurd hs (not_silent (.inr (.inl hp))),
      fun _ hd hres hout => ⟨hres, hout, .done rfl ?_⟩⟩
    cases hd with
    | sent _ hs _ =>
      obtain ⟨window, hs⟩ := hs
      rw [hs] at hr
      cases hr
    | heard _ _ _ hto | done _ hto => exact hto
  | cancel hp =>
    have href : w.refused = false := hsafe
    refine ⟨fun hr => (by cases href.symm.trans hr), fun z h1 h2 h3 => ?_, h.failed⟩
    cases z with
    | opener => exact h.forgotten .opener (by simp [hp]) h2 h3
    | acceptor => exact absurd (h.forgotten .acceptor h1 h2 h3).2.1 (not_silent (.inr (.inl hp)))
  | accept hp | reject hp =>
    have hinc := not_silent (e := w.ends .acceptor) (.inr (.inr hp))
    exact (h.push .acceptor (hacc (by simp [hp])) hinc).setEnd .acceptor
      ⟨by simp [Link.push, hp], .intro, fun hs => absurd hs hinc, by simp⟩
  | @transmit x c sender ho =>
    have hne : (w.ends x).outgoing ≠ none := by simp [ho]
    have href : w.refused = false := by
      by_contra hr
      obtain ⟨k1, -, -, k4, -⟩ := h.refused (by simpa using hr)
      cases x with
      | opener => exact hne k4
      | acceptor =>
        rw [(hi.sound .acceptor).absent k1] at ho
        cases ho
    obtain ⟨-, -, -, -, hp, hreg⟩ := sent_views (w.ends x) sender
    have hret : ((w.ends x).sent sender).retired = (w.ends x).retired := by cases sender <;> rfl
    have hloud : ¬(w.ends x).Silent := fun hs => hne hs.outgoing
    refine (h.push x href hloud).setEnd x ⟨by rw [hp]; rfl, fun h1 h2 => ?_, fun hs => absurd hs hloud, fun hx _ _ hout => ?_⟩
    · exact ⟨hreg.symm.trans h1, hret.symm.trans h2⟩
    · subst hx
      exact absurd hout hne
  | invalid full hto hb hx => exact (hq.valid hi hto hb hx).elim
  | @refuse c rest hto hb =>
    have hmem : c ∈ w.toward .acceptor := by rw [hto]; exact List.mem_cons_self
    obtain ⟨-, habs, href⟩ := hi.requests .acceptor c hmem hb
    obtain ⟨hp, hw⟩ : (w.ends .opener).phase = .waiting ∧ (w.ends .opener).stream.writeErr = none := hsafe ⟨c, hmem, hb⟩
    have ha : (w.ends .opener).Alive := .of_phase hw hp (by decide)
    obtain ⟨hs, hreq, hans⟩ := hi.asked ha hp habs href
    cases hto.symm.trans hreq
    refine ⟨fun _ => ⟨habs, ?_, ((hi.sound .opener).resets ha).1, (hi.sound .opener).silent ha (by simp [hp]),
      .sent hp ⟨_, hs⟩ ?_⟩, fun z h1 h2 h3 => ?_, h.failed⟩
    · simp [Link.push]
    · simp [Link.push, hans]
    exfalso
    cases z with
    | opener => exact hnew habs href h1 h2 h3
    | acceptor => exact h1 habs
  | @offer c rest window hto hb hc hreg hret =>
    obtain ⟨-, habs, href⟩ := hi.requests .acceptor c (by rw [hto]; exact List.mem_cons_self) (hb ▸ rfl)
    refine ⟨fun hr => (by cases href.symm.trans hr), fun z h1 h2 h3 => ?_, h.failed⟩
    exfalso
    cases z with
    | opener => exact hnew habs href h1 h2 h3
    | acceptor => cases h2
  | @handle x full c rest hto hb hreg =>
    obtain ⟨-, hp, -, -⟩ := handleCell_frame c hreg
    refine h.taken x (by simp [hto]) ⟨by rw [hp], fun h1 h2 => ?_, fun hs => ?_, fun hx hd hr ho => ?_⟩
    · cases h2.symm.trans ((handleCell_took c hreg).known hreg h1)
    · cases hs.registered.symm.trans hreg
    · subst hx
      exact (hto ▸ hd).handled hr ho
  | @ignore x full c rest hto hb hreg hret =>
    refine h.taken x (by simp [hto]) ⟨.rfl, .intro, id, fun hx hd hr ho => ⟨?_, ?_, ?_⟩⟩
    · subst hx
      exact hr
    · subst hx
      exact ho
    subst hx
    cases hd with
    | sent hx hs _ =>
      obtain ⟨window, hs⟩ := hs
      have ha : (w.ends .opener).Alive := .of_phase (by rw [hs]; rfl) hx (by decide)
      have hfin := ((Stream.canRetire_iff _).1 ((hi.sound .opener).retired ha hreg)).1
      rw [hs] at hfin
      cases hfin
    | heard _ _ _ hto' | done _ hto' => cases hto'.symm.trans hto
  | @unknown x full c rest hto hb hreg hret =>
    exfalso
    by_cases hp : (w.ends x).phase = .absent
    · cases href : w.refused with
      | true =>
        cases x with
        | opener => exact hi.asking hto (.inl hp)
        | acceptor => cases (h.refused href).2.1.symm.trans hto
      | false =>
        obtain ⟨-, window, rfl⟩ := hq.unheard hi hto hp href
        cases hb
    · cases (h.forgotten x hp hreg hret).1.symm.trans hto

end Link

end NeProto.Session
