/-
How a stream comes to be accepted, over every run, and what holds from then on.

- `Endpoint.Local`: what a call does that neither opens nor accepts.
- `Inv`: a stream is asked for, offered and accepted; from then on it is joined (`Link.Joined`) while both ends are alive.
- `run_inv`: it holds in every state.
-/
import NeProto.Session.Joined

namespace NeProto.Session

open Endpoint Function List

/-! ## Calls on one end -/

/-- what a call does that neither opens nor accepts -/
structure Endpoint.Local (e e' : Endpoint) : Prop where
  sound : e'.Sound
  window : e'.stream.window = e.stream.window
  phase : e'.phase = e.phase
  alive : e'.Alive → e.Alive
  effect : e'.Alive → Endpoint.Effect e e'
  fresh : e.phase ≠ .usable → e.Alive → e'.stream = e.stream
  out : ∀ c ∈ e'.out, c ∈ e.out ∨ c.body.opens = false

namespace Endpoint

variable {e : Endpoint}

theorem Call.local {e' : Endpoint} (hcall : Call e e') (h : e.Sound) : Local e e' := by
  have hs := hcall.sound h
  have he := hcall.effect h
  have htook : ∀ {n : ℕ} {b : Body}, b.opens = false → ∀ c ∈ ([⟨n, b⟩] : List Cell), c ∈ e.out ∨ c.body.opens = false := by
    intro n b hb c hc
    rw [mem_singleton.1 hc]
    exact .inr hb
  cases hcall with
  | same | start | stop | count | strand | skip =>
    exact ⟨hs, rfl, rfl, id, he, fun _ _ => rfl, fun _ hc => .inl hc⟩
  | exhausted hw =>
    exact ⟨hs, rfl, rfl, (fun ha => by cases ha.1), he, fun hu => absurd (h.writing_usable (by simp [hw])) hu, fun _ hc => .inl hc⟩
  | data hw => exact ⟨hs, rfl, rfl, id, he, fun hu => absurd (h.writing_usable (by simp [hw])) hu, htook rfl⟩
  | @read n hp | @take n hp =>
    obtain ⟨hframe, -⟩ := Stream.read_spec h.stream n
    exact ⟨hs, by rw [hframe], rfl, fun ha => ha.of_eq (by rw [hframe]) rfl, he, fun hu => absurd hp hu, fun _ hc => .inl hc⟩
  | update hi => exact ⟨hs, rfl, rfl, id, he, fun hu => absurd (h.reading hi) hu, htook rfl⟩
  | mute hp => exact ⟨hs, rfl, rfl, id, he, fun hu => absurd hp hu, fun _ hc => .inl hc⟩
  | fin hp => exact ⟨hs, rfl, rfl, id, he, fun hu => absurd hp hu, htook rfl⟩
  | force hp => exact ⟨hs, rfl, rfl, (fun ha => by cases ha.1), he, fun hu => absurd hp hu, fun _ hc => .inl hc⟩
  | resetMute hi => exact ⟨hs, rfl, rfl, id, he, fun _ ha => absurd ha (h.resetting hi), fun _ hc => .inl hc⟩
  | reset hi => exact ⟨hs, rfl, rfl, id, he, fun _ ha => absurd ha (h.resetting hi), htook rfl⟩
  | @remove i cause hi =>
    refine ⟨hs, ?_, (Call.remove hi).phase, removed_alive, he, fun _ ha => absurd ha (h.removing hi), fun c hc => .inl ?_⟩
    · rw [removed, remove_eq]
      split <;> rfl
    · rw [removed, remove_eq] at hc
      exact hc
  | check =>
    rw [retireIfComplete_eq] at hs he ⊢
    exact ⟨hs, rfl, rfl, fun ha => ha.of_eq rfl rfl, he, fun _ _ => rfl, fun _ hc => .inl hc⟩

theorem graceful_local (h : e.Sound) (hp : e.phase = .usable) : Local e { e.retireIfComplete with closed := true } := by
  have hr := h.retireIfComplete
  rw [retireIfComplete_eq] at hr ⊢
  exact ⟨.of_usable hp hr.stream hr.credits hr.writing hr.resets (hr.hearing hp) hr.retired, rfl, rfl, fun ha => ha.of_eq rfl rfl,
    fun _ => .quiet rfl rfl rfl, fun _ _ => rfl, fun _ hc => .inl hc⟩

theorem evict_local (h : e.Sound) : Local e { e with retired := false } := by
  refine ⟨{ h with absent := fun hp => ?_ }, rfl, rfl,
    fun ha => ha.of_eq rfl rfl, fun _ => .quiet rfl rfl rfl, fun _ _ => rfl, fun _ hc => .inl hc⟩
  have habs := h.absent hp
  rw [habs]
  rfl

end Endpoint

namespace Link

/-! ## How a stream comes to be accepted -/

structure Live (w : Link) : Prop where
  accepted : (w.ends .acceptor).phase = .usable
  alive : ∀ x, (w.ends x).Alive

instance (w : Link) : Decidable w.Live :=
  decidable_of_iff ((w.ends .acceptor).phase = .usable ∧ ∀ x, (w.ends x).Alive)
    ⟨fun h => ⟨h.1, h.2⟩, fun h => ⟨h.accepted, h.alive⟩⟩

/-- OPEN is on its way -/
structure Asked (W : Side → Window) (w : Link) : Prop where
  opener : (w.ends .opener).stream = .new (W .opener).value 0 true
  request : w.toward .acceptor = [⟨0, .opening (W .opener).value⟩]
  answer : w.toward .opener = []

/-- OPEN has arrived and is not answered -/
structure Offered (W : Side → Window) (w : Link) : Prop where
  waiting : (w.ends .opener).phase = .waiting
  opener : (w.ends .opener).stream = .new (W .opener).value 0 true
  acceptor : (w.ends .acceptor).stream =
    { Stream.new (W .acceptor).value (W .opener).value false with recvSequence := 1 }
  empty : ∀ x, w.toward x = []

structure Inv (W : Side → Window) (w : Link) : Prop where
  sound : ∀ x, (w.ends x).Sound
  window : ∀ x, (w.ends x).stream.window = (W x).value
  phases : (w.ends .opener).phase ≠ .incoming ∧ (w.ends .acceptor).phase ≠ .opening ∧ (w.ends .acceptor).phase ≠ .waiting
  unasked : (w.ends .opener).phase = .absent ∨ (w.ends .opener).phase = .opening →
    (w.ends .acceptor).phase = .absent ∧ (∀ x, w.toward x = []) ∧ w.refused = false
  fresh : (w.ends .opener).phase = .opening → (w.ends .opener).stream = .new (W .opener).value 0 true
  plain : ∀ x, ∀ c ∈ (w.ends x).out, c.body.opens = false
  requests : ∀ x, ∀ c ∈ w.toward x, c.body.opens = true →
    x = .acceptor ∧ (w.ends .acceptor).phase = .absent ∧ w.refused = false
  first : ∀ c ∈ (w.toward .acceptor).tail, c.body.opens = false
  answered : (w.ends .opener).Alive → (w.ends .opener).phase = .usable →
    (w.ends .acceptor).phase ≠ .absent ∨ w.refused = true
  asked : (w.ends .opener).Alive → (w.ends .opener).phase = .waiting → (w.ends .acceptor).phase = .absent →
    w.refused = false → w.Asked W
  offered : (w.ends .opener).Alive → (w.ends .acceptor).Alive → (w.ends .acceptor).phase = .incoming → w.Offered W
  joined : w.Live → w.Joined

variable {w : Link} {x : Side} {e : Endpoint} {W : Side → Window} {c : Cell} {rest : List Cell}

theorem init_inv (W : Side → Window) : (init W).Inv W where
  sound := fun _ => absent_sound _
  window := fun _ => rfl
  phases := ⟨nofun, nofun, nofun⟩
  unasked := fun _ => ⟨rfl, fun _ => rfl, rfl⟩
  fresh := nofun
  plain := nofun
  requests := nofun
  first := nofun
  answered := nofun
  asked := nofun
  offered := nofun
  joined := fun h => nomatch h.accepted

theorem Live.setEnd (h : (w.setEnd x e).Live) (hp : e.phase = (w.ends x).phase)
    (hback : e.Alive → (w.ends x).Alive) : w.Live :=
  ⟨(setEnd_same phase hp _).symm.trans h.accepted, fun z => setEnd_alive hback z (h.alive z)⟩

/-- an end that is replaced by a sound one, with nothing to send that opens -/
theorem Inv.kept (h : w.Inv W) (x : Side) (hs : e.Sound) (hw : e.stream.window = (w.ends x).stream.window)
    (hout : ∀ c ∈ e.out, c ∈ (w.ends x).out ∨ c.body.opens = false) :
    (∀ z, (update w.ends x e z).Sound) ∧ (∀ z, (update w.ends x e z).stream.window = (W z).value) ∧
      ∀ z, ∀ c ∈ (update w.ends x e z).out, c.body.opens = false :=
  ⟨setEnd_all (P := fun _ => Endpoint.Sound) h.sound hs,
    setEnd_all (P := fun z e => e.stream.window = (W z).value) h.window (hw.trans (h.window x)),
    setEnd_all (P := fun _ e => ∀ c ∈ e.out, c.body.opens = false) h.plain fun c hc => (hout c hc).elim (h.plain x c) id⟩

/-- the invariant, with a name for each end -/
theorem Inv.of {o a : Endpoint} (ho : w.ends .opener = o) (ha : w.ends .acceptor = a)
    (kept : (∀ z, (w.ends z).Sound) ∧ (∀ z, (w.ends z).stream.window = (W z).value) ∧
      ∀ z, ∀ c ∈ (w.ends z).out, c.body.opens = false)
    (phases : o.phase ≠ .incoming ∧ a.phase ≠ .opening ∧ a.phase ≠ .waiting)
    (unasked : o.phase = .absent ∨ o.phase = .opening → a.phase = .absent ∧ (∀ x, w.toward x = []) ∧ w.refused = false)
    (fresh : o.phase = .opening → o.stream = .new (W .opener).value 0 true)
    (requests : ∀ x, ∀ c ∈ w.toward x, c.body.opens = true → x = .acceptor ∧ a.phase = .absent ∧ w.refused = false)
    (first : ∀ c ∈ (w.toward .acceptor).tail, c.body.opens = false)
    (answered : o.Alive → o.phase = .usable → a.phase ≠ .absent ∨ w.refused = true)
    (asked : o.Alive → o.phase = .waiting → a.phase = .absent → w.refused = false → w.Asked W)
    (offered : o.Alive → a.Alive → a.phase = .incoming → w.Offered W)
    (joined : a.phase = .usable → o.Alive → a.Alive → w.Joined) : w.Inv W := by
  subst ho ha
  exact ⟨kept.1, kept.2.1, phases, unasked, fresh, kept.2.2, requests, first, answered, asked, offered,
    fun hl => joined hl.accepted (hl.alive _) (hl.alive _)⟩

section

variable (h : w.Inv W)
include h

/-- a call on one end that neither opens nor accepts -/
theorem Inv.onEnd (x : Side) (hl : Endpoint.Local (w.ends x) e) : (w.setEnd x e).Inv W := by
  obtain ⟨hs, hw, hp, hback, he, hfresh, hout⟩ := hl
  have hphase : ∀ z, ((w.setEnd x e).ends z).phase = (w.ends z).phase := setEnd_same phase hp
  have halive : ∀ z, ((w.setEnd x e).ends z).Alive → (w.ends z).Alive := setEnd_alive hback
  obtain ⟨hsound, hwindow, hplain⟩ := h.kept x hs hw hout
  have hstream : ∀ z, (w.ends z).phase ≠ .usable → (w.ends z).Alive →
      ((w.setEnd x e).ends z).stream = (w.ends z).stream := by
    intro z hz ha
    rcases x.eq_or z with rfl | rfl
    · rw [setEnd_self]
      exact hfresh hz ha
    · rw [setEnd_other]
  refine ⟨hsound, hwindow, ?_, ?_, ?_, hplain, fun z c hc hopen => ?_, h.first, ?_, ?_, ?_, ?_⟩
  · rw [hphase, hphase]
    exact h.phases
  · rw [hphase, hphase]
    exact h.unasked
  · rw [hphase]
    intro hopen
    have hnew := h.fresh hopen
    rw [hstream .opener (by rw [hopen]; exact nofun) ?_]
    · exact hnew
    · exact ⟨by rw [hnew]; rfl, by rw [hopen]; exact nofun, by rw [hopen]; exact nofun, by rw [hopen]; exact nofun⟩
  · rw [hphase]
    exact h.requests z c hc hopen
  · rw [hphase, hphase]
    exact fun ha => h.answered (halive _ ha)
  · rw [hphase, hphase]
    intro ha hwait habs href
    obtain ⟨h1, h2, h3⟩ := h.asked (halive _ ha) hwait habs href
    exact ⟨(hstream .opener (by rw [hwait]; exact nofun) (halive _ ha)).trans h1, h2, h3⟩
  · rw [hphase]
    intro ha ha' hinc
    obtain ⟨h1, h2, h3, h4⟩ := h.offered (halive _ ha) (halive _ ha') hinc
    exact ⟨(hphase _).trans h1, (hstream .opener (by rw [h1]; exact nofun) (halive _ ha)).trans h2,
      (hstream .acceptor (by rw [hinc]; exact nofun) (halive _ ha')).trans h3, h4⟩
  · intro hlive
    have hx := hlive.alive x
    rw [setEnd_self] at hx
    exact (h.joined (hlive.setEnd hp hback)).effect x (he hx)

/-! ## Opening and accepting -/

/-- `Open` gives up: the end is not alive any more -/
theorem Inv.dropped (hs : e.Sound)
    (hw : e.stream.window = (w.ends .opener).stream.window) (hout : e.out = (w.ends .opener).out)
    (hp : e.phase = .cancelled ∨ e.phase = .dropped) : (w.setEnd .opener e).Inv W := by
  have hdead : ¬e.Alive := by
    rintro ⟨-, -, hc, hd⟩
    exact hp.elim hc hd
  have hphase : e.phase ≠ .absent ∧ e.phase ≠ .opening ∧ e.phase ≠ .incoming := by
    rcases hp with hp | hp <;> simp [hp]
  exact .of (setEnd_self ..) (setEnd_other w .opener e) (h.kept .opener hs hw fun c hc => .inl (hout ▸ hc))
    ⟨hphase.2.2, h.phases.2⟩ (fun hx => (hx.elim hphase.1 hphase.2.1).elim) (fun hx => absurd hx hphase.2.1) h.requests h.first
    (fun ha => absurd ha hdead) (fun ha => absurd ha hdead) (fun ha => absurd ha hdead) fun _ ha => absurd ha hdead

/-- nothing is sent before OPEN -/
theorem Inv.unasked_out (hp : (w.ends .opener).phase = .absent ∨ (w.ends .opener).phase = .opening) (x : Side) :
    (w.ends x).outgoing = none := by
  cases x with
  | opener =>
    rcases hp with hp | hp
    · rw [(h.sound .opener).absent hp]
      rfl
    · have ha : (w.ends .opener).Alive := .of_phase (by rw [h.fresh hp]; rfl) hp (by decide)
      exact (h.sound .opener).silent ha (by simp [hp])
  | acceptor =>
    rw [(h.sound .acceptor).absent (h.unasked hp).1]
    rfl

theorem Inv.register (hp : (w.ends .opener).phase = .absent) :
    (w.setEnd .opener { w.ends .opener with
      stream := .new (w.ends .opener).stream.window 0 true, registered := true, phase := .opening }).Inv W := by
  obtain ⟨hacc, hto, href⟩ := h.unasked (.inl hp)
  refine .of (setEnd_self ..) (setEnd_other w .opener _) (h.kept .opener ((h.sound .opener).register hp) rfl fun _ => .inl)
    ⟨nofun, h.phases.2⟩ (fun _ => ⟨hacc, hto, href⟩) (fun _ => ?_) h.requests h.first
    nofun nofun (fun _ _ hx => ?_) fun hx => ?_
  · rw [← h.window .opener]
  · cases hacc.symm.trans hx
  · cases hacc.symm.trans hx

theorem Inv.request (hp : (w.ends .opener).phase = .opening) :
    (w.posted .opener { w.ends .opener with phase := .waiting } ⟨0, .opening (w.ends .opener).stream.window⟩).Inv W := by
  obtain ⟨hacc, hto, href⟩ := h.unasked (.inr hp)
  rw [h.window .opener]
  have hta : w.toward .acceptor ++ [⟨0, .opening (W .opener).value⟩] = [⟨0, .opening (W .opener).value⟩] := by
    rw [hto, nil_append]
  refine .of (posted_self ..) (posted_other w .opener _ _) (h.kept .opener ((h.sound .opener).request hp) rfl fun _ => .inl)
    ⟨nofun, h.phases.2⟩ (fun hx => by simp at hx) nofun (fun z c hc hopen => ⟨?_, hacc, href⟩)
    (fun c hc => ?_) nofun (fun _ _ _ _ => ⟨h.fresh hp, hta, hto .opener⟩) (fun _ _ hx => ?_) fun hx => ?_
  · cases z with
    | opener => cases (hto .opener) ▸ hc
    | acceptor => rfl
  · cases (congrArg tail hta) ▸ hc
  · cases hacc.symm.trans hx
  · cases hacc.symm.trans hx

theorem Inv.opened (hp : (w.ends .opener).phase = .waiting)
    (hopen : (w.ends .opener).stream.openResult = some none) :
    (w.setEnd .opener { w.ends .opener with phase := .usable }).Inv W := by
  have hback : ({ w.ends .opener with phase := .usable } : Endpoint).Alive → (w.ends .opener).Alive := fun ha =>
    .of_phase ha.1 hp (by decide)
  -- an answer has come, so the request is not on its way and the offer does not stand
  have hnew : (w.ends .opener).stream ≠ .new (W .opener).value 0 true := by
    intro hx
    rw [hx] at hopen
    cases hopen
  have hsound := (h.sound .opener).enabled (.inr hp) (.inr (by simp [hopen]))
  refine .of (setEnd_self ..) (setEnd_other w .opener _) (h.kept .opener hsound rfl fun _ => .inl) ⟨nofun, h.phases.2⟩
    (fun hx => by simp at hx) nofun h.requests h.first (fun ha _ => ?_) nofun
    (fun ha ha' hinc => absurd (h.offered (hback ha) ha' hinc).opener hnew) fun hacc ha ha' => ?_
  · by_contra hx
    obtain ⟨habs, href⟩ : (w.ends Side.opener.other).phase = .absent ∧ w.refused = false := by
      simpa [Link.setEnd] using hx
    exact hnew (h.asked (hback ha) hp habs href).opener
  · have hold : w.Live := ⟨hacc, fun z => by cases z with
      | opener => exact hback ha
      | acceptor => exact ha'⟩
    exact (h.joined hold).effect .opener (.quiet rfl rfl rfl)

omit h in
/-- what an end that is not usable yet has sent and received -/
theorem unused_views (h : e.Sound) (hu : e.phase ≠ .usable) (ha : e.Alive) :
    e.sends = ⟨e.stream.window, e.stream.sendWindow, e.stream.sendSequence, e.stream.sendCredit, e.stream.localFIN, []⟩ ∧
      e.recvs = ⟨e.stream.recvSequence, e.stream.recvCredit, e.stream.peerFIN, e.stream.buffered, 0⟩ ∧ e.out = [] := by
  obtain ⟨hw, hc, hrep, hret, hstr⟩ := h.unused hu
  simp only [sends, recvs, inProgress, out, hw, hc, hrep, hret, hstr, h.silent ha hu]
  exact ⟨rfl, rfl, rfl⟩

omit h in
/-- `Accept` joins the two ends -/
theorem Offered.joined (h : w.Offered W) (hs : ∀ x, (w.ends x).Sound)
    (ha : ∀ x, (w.ends x).Alive) (hinc : (w.ends .acceptor).phase = .incoming) :
    (w.posted .acceptor { w.ends .acceptor with phase := .usable } ⟨0, .openOK (W .acceptor).value⟩).Joined := by
  obtain ⟨hwait, hopener, hacceptor, hempty⟩ := h
  obtain ⟨hsends, hrecvs, hout⟩ := unused_views (hs .opener) (by simp [hwait]) (ha .opener)
  obtain ⟨hsends', hrecvs', hout'⟩ := unused_views (hs .acceptor) (by simp [hinc]) (ha .acceptor)
  rw [hopener] at hsends hrecvs
  rw [hacceptor] at hsends' hrecvs'
  have hpipe : w.toward .opener ++ [⟨0, .openOK (W .acceptor).value⟩] ++ (w.ends .acceptor).out =
      [⟨0, .openOK (W .acceptor).value⟩] := by
    rw [hempty, hout', append_nil, nil_append]
  have hpipe' : w.toward .acceptor ++ (w.ends .opener).out = [] := by
    rw [hempty, hout, append_nil]
  refine .of_pair .opener (a := w.ends .opener) (b := { w.ends .acceptor with phase := .usable })
      rfl rfl hpipe' hpipe ?_ ?_ ?_ ?_
  · change Flow _ (w.ends .acceptor).recvs _ _
    rw [hrecvs', hsends]
    exact ⟨by simp, rfl, rfl, Nat.one_ne_zero, by simp [Body.credit, Stream.new], rfl, .nil, by simp,
      fun hx => by simp [Stream.new] at hx⟩
  · change Flow (w.ends .acceptor).sends _ _ _
    rw [hsends', hrecvs]
    refine ⟨fun c hc => ?_, rfl, rfl, Nat.one_ne_zero, rfl, rfl, .cons (by simp) .nil, (fun h => by cases h),
      fun hx => by simp [Stream.new] at hx⟩
    rw [mem_singleton.1 hc]
    exact ⟨rfl, rfl⟩
  · rw [Limited, hopener]
    exact .inr ⟨rfl, rfl, rfl⟩
  · simp only [Limited, hopener, hacceptor]
    exact .inl ⟨Nat.one_ne_zero, rfl⟩

/-- the acceptor answers an OPEN -/
theorem Inv.answer (hinc : (w.ends .acceptor).phase = .incoming)
    (hs : e.Sound) (hw : e.stream.window = (w.ends .acceptor).stream.window)
    (hout : e.out = (w.ends .acceptor).out) (hp : e.phase = .usable ∨ e.phase = .dropped)
    (hc : c.body.opens = false) (hj : e.phase = .usable → (w.ends .opener).Alive → e.Alive → (w.posted .acceptor e c).Joined) :
    (w.posted .acceptor e c).Inv W := by
  have hasked : (w.ends .opener).phase = .absent ∨ (w.ends .opener).phase = .opening → False := by
    intro hx
    cases hinc.symm.trans (h.unasked hx).1
  have hpe : e.phase ≠ .absent ∧ e.phase ≠ .opening ∧ e.phase ≠ .waiting ∧ e.phase ≠ .incoming := by
    rcases hp with hp | hp <;> simp [hp]
  refine .of (posted_other w .acceptor e c) (posted_self ..) (h.kept .acceptor hs hw fun c hc => .inl (hout ▸ hc))
    ⟨h.phases.1, hpe.2.1, hpe.2.2.1⟩ (fun hx => (hasked hx).elim) (fun hx => (hasked (.inr hx)).elim)
    (fun z d hd hopen => ?_) h.first (fun _ _ => .inl hpe.1) (fun _ _ hx => absurd hx hpe.1)
    (fun _ _ hx => absurd hx hpe.2.2.2) hj
  have hold : d ∈ w.toward z ∨ d = c := by
    cases z with
    | opener => exact (mem_append.1 hd).imp_right mem_singleton.1
    | acceptor => exact .inl hd
  rcases hold with hd | rfl
  · cases hinc.symm.trans (h.requests z d hd hopen).2.1
  · cases hopen.symm.trans hc

theorem Inv.accept (hp : (w.ends .acceptor).phase = .incoming) :
    (w.posted .acceptor { w.ends .acceptor with phase := .usable } ⟨0, .openOK (w.ends .acceptor).stream.window⟩).Inv W := by
  rw [h.window .acceptor]
  refine h.answer hp ((h.sound .acceptor).enabled (.inl hp) (.inl hp)) rfl rfl (.inl rfl) rfl fun _ ho hx => ?_
  have ha : ∀ x, (w.ends x).Alive := fun x => by
    cases x with
    | opener => exact ho
    | acceptor => exact .of_phase hx.1 hp (by decide)
  exact (h.offered (ha .opener) (ha .acceptor) hp).joined h.sound ha hp

/-! ## The carrier -/

theorem Inv.transmit {sender : Sender} (ho : (w.ends x).outgoing = some (c, sender)) :
    (w.posted x ((w.ends x).sent sender) c).Inv W := by
  have hjoined := fun hl => (h.joined hl).transmit x ho
  have hs := (h.sound x).sent ho
  obtain ⟨-, -, hout, hstream, hp, -⟩ := sent_views (w.ends x) sender
  generalize (w.ends x).sent sender = e at hs hout hstream hp hjoined ⊢
  have hto : (w.posted x e c).toward x.other = w.toward x.other ++ [c] := posted_toward ..
  have hto' : (w.posted x e c).toward x = w.toward x := posted_toward_self ..
  have hc : c ∈ (w.ends x).out := by simp [out, ho]
  have hphase : ∀ z, ((w.posted x e c).ends z).phase = (w.ends z).phase := setEnd_same phase hp
  have halive : ∀ z, ((w.posted x e c).ends z).Alive → (w.ends z).Alive := setEnd_alive fun ha => ha.of_eq (by rw [hstream]) hp
  -- an end with a cell to send is usable or not alive
  have hbusy : (w.ends x).Alive → (w.ends x).phase = .usable := by
    intro ha
    by_contra hu
    rw [(h.sound x).silent ha hu] at ho
    cases ho
  obtain ⟨hsound, hwindow, hplain⟩ := h.kept x hs (by rw [hstream]) (by simp [hout])
  refine ⟨hsound, hwindow, ?_, ?_, ?_, hplain, fun z d hd hopen => ?_, fun d hd => ?_, ?_, ?_, ?_, fun hl => ?_⟩
  · rw [hphase, hphase]
    exact h.phases
  · rw [hphase]
    intro hun
    rw [h.unasked_out hun x] at ho
    cases ho
  · rw [hphase]
    intro hopen
    rw [h.unasked_out (.inr hopen) x] at ho
    cases ho
  · rw [hphase]
    refine h.requests z d ?_ hopen
    rcases x.eq_or z with rfl | rfl
    · rwa [hto'] at hd
    rw [hto, mem_append, mem_singleton] at hd
    rcases hd with hd | rfl
    · exact hd
    · cases hopen.symm.trans (h.plain x d hc)
  · cases x with
    | opener =>
      have hd : d ∈ (w.toward .acceptor ++ [c]).tail := hd
      have hfirst := h.first
      cases hl : w.toward .acceptor with
      | nil =>
        rw [hl] at hd
        cases hd
      | cons d' l =>
        rw [hl] at hd hfirst
        rcases mem_append.1 hd with hd | hd
        · exact hfirst d hd
        · exact mem_singleton.1 hd ▸ h.plain .opener c hc
    | acceptor => exact h.first d hd
  · rw [hphase, hphase]
    exact fun ha => h.answered (halive _ ha)
  · rw [hphase, hphase]
    intro ha hwait habs href
    cases x with
    | opener => cases hwait.symm.trans (hbusy (halive _ ha))
    | acceptor =>
      rw [(h.sound .acceptor).absent habs] at ho
      cases ho
  · rw [hphase]
    intro ha ha' hinc
    have hoff := h.offered (halive _ ha) (halive _ ha') hinc
    cases x with
    | opener => cases hoff.waiting.symm.trans (hbusy (halive _ ha))
    | acceptor => cases hinc.symm.trans (hbusy (halive _ ha'))
  · exact hjoined ⟨hphase _ ▸ hl.accepted, fun z => halive z (hl.alive z)⟩

section

variable (hto : w.toward x = c :: rest)
include hto

omit h in
theorem taken_subset (e : Endpoint) (z : Side) : ∀ d ∈ (w.taken x rest e).toward z, d ∈ w.toward z := by
  intro d hd
  rcases x.eq_or z with rfl | rfl
  · rw [taken_toward] at hd
    rw [hto]
    exact mem_cons_of_mem _ hd
  · rwa [taken_toward_other] at hd

/-- OPEN is out once anything is in flight -/
theorem Inv.asking : ¬((w.ends .opener).phase = .absent ∨ (w.ends .opener).phase = .opening) := by
  intro hx
  rw [(h.unasked hx).2.1 x] at hto
  cases hto

/-- the read loop takes a cell that is not the one that opens -/
theorem Inv.take (hc : c ≠ ⟨0, .opening (W .opener).value⟩) (hs : e.Sound)
    (hw : e.stream.window = (w.ends x).stream.window) (hp : e.phase = (w.ends x).phase) (hout : e.out = (w.ends x).out)
    (hback : e.Alive → (w.ends x).Alive) (hj : w.Live → e.Alive → (w.taken x rest e).Joined) : (w.taken x rest e).Inv W := by
  have hphase : ∀ z, ((w.taken x rest e).ends z).phase = (w.ends z).phase := setEnd_same phase hp
  have halive : ∀ z, ((w.taken x rest e).ends z).Alive → (w.ends z).Alive := setEnd_alive hback
  have hsub := taken_subset hto e
  have hasking := h.asking hto
  obtain ⟨hsound, hwindow, hplain⟩ := h.kept x hs hw fun c hc => .inl (hout ▸ hc)
  refine ⟨hsound, hwindow, ?_, ?_, ?_, hplain, fun z d hd hopen => ?_, fun d hd => ?_, ?_, ?_, ?_, fun hl => ?_⟩
  · rw [hphase, hphase]
    exact h.phases
  · rw [hphase]
    exact fun hx => absurd hx hasking
  · rw [hphase]
    exact fun hx => absurd (.inr hx) hasking
  · rw [hphase]
    exact h.requests z d (hsub z d hd) hopen
  · cases x with
    | opener => exact h.first d hd
    | acceptor =>
      refine h.first d ?_
      rw [hto]
      exact mem_of_mem_tail hd
  · rw [hphase, hphase]
    exact fun ha => h.answered (halive _ ha)
  · rw [hphase, hphase]
    intro ha hwait habs href
    obtain ⟨-, hreq, hans⟩ := h.asked (halive _ ha) hwait habs href
    exfalso
    cases x with
    | opener => cases hans.symm.trans hto
    | acceptor => exact hc (List.cons.inj (hreq.symm.trans hto)).1.symm
  · rw [hphase]
    intro ha ha' hinc
    have hempty := (h.offered (halive _ ha) (halive _ ha') hinc).empty x
    cases hempty.symm.trans hto
  · have hlive : w.Live := ⟨(hphase _) ▸ hl.accepted, fun z => halive z (hl.alive z)⟩
    have hx := hl.alive x
    rw [taken_self] at hx
    exact hj hlive hx

/-- a cell is dropped -/
theorem Inv.drop (hc : c ≠ ⟨0, .opening (W .opener).value⟩) (hlive : ¬w.Live) :
    (w.taken x rest (w.ends x)).Inv W :=
  h.take hto hc (h.sound x) rfl rfl rfl id fun hl => absurd hl hlive

end

theorem Inv.failed : ({ w with failed := true } : Link).Inv W where
  __ := h
  asked h1 h2 h3 h4 := { h.asked h1 h2 h3 h4 with }
  offered h1 h2 h3 := { h.offered h1 h2 h3 with }
  joined hl := { h.joined { hl with } with }

/-- OPEN arrives at the stream limit -/
theorem Inv.refuse (hto : w.toward .acceptor = c :: rest) (hc : c.body.opens = true) :
    (({ w with toward := update w.toward .acceptor rest, refused := true } : Link).push .opener ⟨0, .openFail 1⟩).Inv
      W := by
  obtain ⟨-, habs, -⟩ := h.requests .acceptor c (by rw [hto]; exact mem_cons_self) hc
  have hasking := h.asking hto
  have hrest : ∀ d ∈ rest, d.body.opens = false := by
    intro d hd
    refine h.first d ?_
    rwa [hto]
  refine .of rfl rfl ⟨h.sound, h.window, h.plain⟩ h.phases (fun hx => absurd hx hasking) (fun hx => absurd (.inr hx) hasking)
    (fun z d hd hopen => ?_) (fun d hd => ?_) (fun _ _ => .inr rfl) nofun (fun _ _ hx => ?_) fun hx => ?_
  · cases z with
    | opener =>
      rcases mem_append.1 hd with hd | hd
      · exact absurd (h.requests .opener d hd hopen).1 nofun
      · rw [mem_singleton.1 hd] at hopen
        cases hopen
    | acceptor => cases hopen.symm.trans (hrest d hd)
  · exact hrest d (mem_of_mem_tail hd)
  · cases habs.symm.trans hx
  · cases habs.symm.trans hx

/-- OPEN arrives and makes a stream -/
theorem Inv.offer {window : ℕ} (hto : w.toward .acceptor = c :: rest) (hc : c.body = .opening window) :
    (w.taken .acceptor rest ((w.ends .acceptor).openIncoming window)).Inv W := by
  obtain ⟨-, habs, href⟩ := h.requests .acceptor c (by rw [hto]; exact mem_cons_self) (by rw [hc]; rfl)
  have hasking := h.asking hto
  have hs := (h.sound .acceptor).openIncoming habs window
  have hrest : ∀ d ∈ rest, d.body.opens = false := by
    intro d hd
    refine h.first d ?_
    rwa [hto]
  refine .of (o := w.ends .opener) rfl (taken_self ..) (h.kept .acceptor hs rfl fun _ => .inl) ⟨h.phases.1, nofun, nofun⟩
    (fun hx => absurd hx hasking) (fun hx => absurd (.inr hx) hasking) (fun z d hd hopen => ?_) (fun d hd => ?_)
    (fun _ _ => .inl nofun) nofun (fun ha _ _ => ?_) nofun
  · cases z with
    | opener => exact absurd (h.requests .opener d hd hopen).1 nofun
    | acceptor => cases hopen.symm.trans (hrest d hd)
  · exact hrest d (mem_of_mem_tail hd)
  · have hwait : (w.ends .opener).phase = .waiting := by
      cases hp : (w.ends .opener).phase with
      | waiting => rfl
      | absent => exact absurd (.inl hp) hasking
      | opening => exact absurd (.inr hp) hasking
      | incoming => exact absurd hp h.phases.1
      | usable =>
        rcases h.answered ha hp with hx | hx
        · exact absurd habs hx
        · cases href.symm.trans hx
      | cancelled => exact absurd hp ha.2.2.1
      | dropped => exact absurd hp ha.2.2.2
    obtain ⟨hnew, hreq, hans⟩ := h.asked ha hwait habs href
    cases hreq.symm.trans hto
    obtain rfl : (W .opener).value = window := Body.opening.inj hc
    refine ⟨hwait, hnew, ?_, fun z => ?_⟩
    · rw [← h.window .acceptor]
      rfl
    · cases z with
      | opener => exact hans
      | acceptor => rfl

/-- a live end that is not registered has nothing coming -/
theorem Inv.registered (hl : w.Live) (hto : w.toward x = c :: rest) : (w.ends x).registered = true := by
  by_contra hr
  have hret := (h.sound x).retired (hl.alive x) (by simpa using hr)
  have hpipe := (h.joined hl).drained h.sound x hret
  simp [pipe, hto] at hpipe

theorem step_inv (o : Op) : (w.step o).Inv W := by
  have hstep := step_cases w o
  generalize w.step o = w' at hstep
  have hclosed : ∀ {c : Cell}, c.body.opens = false → c ≠ ⟨0, .opening (W .opener).value⟩ := by
    rintro c hb rfl
    cases hb
  cases hstep with
  | idle => exact h
  | call hcall => exact h.onEnd _ (hcall.local (h.sound _))
  | graceful hp hg => exact h.onEnd _ (graceful_local (h.sound _) hp)
  | evict => exact h.onEnd _ (evict_local (h.sound _))
  | register hp => exact h.register hp
  | request hp => exact h.request hp
  | opened hp hr => exact h.opened hp hr
  | denied hp hr =>
    exact h.dropped ((h.sound .opener).dropped (by simp [hp]) (.inr rfl) (h.sound .opener).stream _ _) rfl rfl (.inr rfl)
  | cancel hp =>
    exact h.dropped ((h.sound .opener).dropped (by simp [hp]) (.inl rfl) (h.sound .opener).stream _ _) rfl rfl (.inl rfl)
  | accept hp => exact h.accept hp
  | @reject code hp =>
    exact h.answer hp ((h.sound .acceptor).dropped (by simp [hp]) (.inr rfl) ((h.sound .acceptor).stream.fail _) _ _) rfl rfl (.inr rfl)
      (c := ⟨0, .openFail code⟩) rfl nofun
  | transmit ho => exact h.transmit ho
  | invalid full hto hb hx =>
    obtain ⟨rfl, habs, -⟩ := h.requests _ _ (by rw [hto]; exact mem_cons_self) hb
    refine (h.drop hto ?_ fun hl => by cases habs.symm.trans hl.accepted).failed
    -- the one OPEN that opens is for an ID that is neither registered nor retired
    rintro rfl
    rw [(h.sound .acceptor).absent habs] at hx
    simp [absent] at hx
  | refuse hto hb => exact h.refuse hto hb
  | offer hto hb => exact h.offer hto hb
  | @handle x full c rest hto hb hreg =>
    have htook := handleCell_took c hreg
    obtain ⟨hw, hp, hout, hback⟩ := handleCell_frame c hreg
    exact h.take hto (hclosed hb) (htook.sound (h.sound x) hreg) hw hp hout hback fun hl => (h.joined hl).handle h.sound x hto htook
  | ignore full hto hb hreg =>
    exact h.drop hto (hclosed hb) fun hl => by cases hreg.symm.trans (h.registered hl hto)
  | unknown full hto hb hreg =>
    exact (h.drop hto (hclosed hb) fun hl => by cases hreg.symm.trans (h.registered hl hto)).failed

end

theorem run_inv (W : Side → Window) (ops : List Op) : ((init W).run ops).Inv W :=
  Machine.run_inv (I := Inv W) (fun _ o h => step_inv h o) (init_inv W) ops

/-- **OPEN comes first.** An OPEN in flight goes to the acceptor, ahead of every other cell, and finds neither a stream nor a
refusal there. -/
theorem open_leads (W : Side → Window) (ops : List Op) :
    (∀ c ∈ (((init W).run ops).toward .acceptor).tail, c.body.opens = false) ∧
      ∀ x, ∀ c ∈ ((init W).run ops).toward x, c.body.opens = true →
        x = .acceptor ∧ (((init W).run ops).ends .acceptor).phase = .absent ∧ ((init W).run ops).refused = false :=
  ⟨(run_inv W ops).first, (run_inv W ops).requests⟩

end Link

end NeProto.Session
