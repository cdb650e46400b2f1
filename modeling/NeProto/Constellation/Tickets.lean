/-
Lease tickets do not strand the client. A rotation consumes the client's ticket before the successor has arrived; until then
the ticket is either restored by the rollback or replaced by an answer on its way.

- `Good`: the ticket is registered, or it has expired.
- `Inv.client`: the ticket the client holds is good, or the session that consumed it can still roll back, or the rotation is
  committed and the answer with its successor is in flight to the waiting client.
- `answersArrive`: `SendContinuity` succeeds exactly if its answer reaches the waiting client, a committed answer in flight is
  not lost, and random identifiers do not repeat.
- `never_stranded`: in every run that meets it, in every quiescent state the registry accepts the client's ticket.
- `stranded`: the send succeeds, the carrier is lost, and the client's ticket is gone.
-/
import NeProto.Constellation.LeaseExchange

namespace NeProto.Constellation.St

open Function List

open Continuity (TicketRegistry TicketRecord)

/-! ## The condition -/

variable (w : St)

/-- the client waits for the answer on its way on carrier `s` -/
def inFlight (s : ℕ) (c : Carrier) : Bool := c.own && c.response.isSome && decide (w.phase = .waiting s c.request)

/-- the answer in flight on carrier `s` is that of a committed admission -/
def committed (s : ℕ) : Bool := (w.carriers s).any fun c => w.inFlight s c && !c.server.sends

/-- what the condition asks of a step -/
def answersArrive : Op → Bool
  | .create _ id _ _ => decide (id ∉ w.ids ∧ id ∉ w.others)
  | .admitRequest _ drawn => decide (∀ t ∈ drawn, t ∉ w.issued.map Prod.fst)
  | .sendReturn s ok => (w.carriers s).all fun c => !c.own || match c.server with
    | .sending a true => ok == (w.inFlight s c || decide (a.ticket ∈ w.held))
    | _ => true
  | .giveUp => match w.phase with | .waiting s _ => !w.committed s | .idle => true
  | .lose s => !w.committed s
  | _ => true

/-! ## The invariant -/

/-- the ticket is registered, or it has expired -/
def Good (t : ℕ) (record : TicketRecord) : Prop :=
  w.hub.tickets.tickets.lookup t = some record ∨ record.expiresAt ≤ w.now

/-- what is to be undone if the answer is not delivered -/
def AdmissionOk (c : Carrier) (a : Attachment) (record : TicketRecord) : Prop :=
  a.admission = some (.issue c.principal a.ticket) ∨
    ∃ current old, a.admission = some (.rotate c.principal current a.ticket old.grant) ∧ (current, old) ∈ w.issued ∧
      old.principal = c.principal ∧ old.constellationID = c.request.constellationID ∧ old.expiresAt ≤ record.expiresAt ∧
      (c.own = true → current ∈ w.held)

/-- a session in `SendContinuity`: its ticket is its own, and good until the client has it -/
def SendingOk (s : ℕ) (c : Carrier) (a : Attachment) (put : Bool) : Prop :=
  a.constellationID = c.request.constellationID ∧ ∃ record, (a.ticket, record) ∈ w.issued ∧ record.principal = c.principal ∧
    record.constellationID = c.request.constellationID ∧ record.issuerTranscript = key s ∧ w.AdmissionOk c a record ∧
    (c.own = true → (put = false → a.ticket ∉ w.held) ∧ (a.ticket ∉ w.held → w.Good a.ticket record))

/-- an answer in flight: its ticket is good -/
def ResponseOk (s : ℕ) (c : Carrier) (fr : Frame) : Prop :=
  fr = answer c.request fr.token ∧ ∃ record, (fr.token, record) ∈ w.issued ∧
    record.principal = c.principal ∧ record.constellationID = c.request.constellationID ∧ record.issuerTranscript = key s ∧
    fr.token ∉ w.held ∧ w.Good fr.token record

structure CarrierOk (principal : ℕ) (w : St) (s : ℕ) (c : Carrier) : Prop where
  mine : c.own = true → c.principal = principal ∧ c.request.constellationID ∈ w.ids ∧
    (c.request.type = .constellationCreate ∨ c.request.type = .leaseAttach ∧ c.request.token ∈ w.held)
  theirs : c.own = false → c.principal = principal → c.request.constellationID ∈ w.others
  quiet : (c.server = .waiting ∨ ∃ a, c.server = .sending a false) → c.response = none
  sending : ∀ a put, c.server = .sending a put → w.SendingOk s c a put
  response : ∀ fr, c.own = true → c.response = some fr → w.phase = .waiting s c.request → w.ResponseOk s c fr

/-- where the client's ticket stands -/
def Held (record : TicketRecord) : Prop :=
  w.Good w.client.ticket record ∨
    (∃ s c a put next grant, w.carriers s = some c ∧ c.own = true ∧ c.server = .sending a put ∧ a.ticket ∉ w.held ∧
      a.admission = some (.rotate c.principal w.client.ticket next grant)) ∨
    ∃ s, w.committed s = true

structure Inv (principal : ℕ) (w : St) : Prop where
  opened : w.hub.tickets.closed = false
  registered : ∀ t record, w.hub.tickets.tickets.lookup t = some record → (t, record) ∈ w.issued
  unique : ∀ t record record', (t, record) ∈ w.issued → (t, record') ∈ w.issued → record = record'
  valid : ∀ t record, (t, record) ∈ w.issued → t ≠ 0 ∧ record.principal ≠ 0 ∧ record.constellationID ≠ 0 ∧
    record.issuerTranscript ≠ 0 ∧ record.expiresAt ≤ w.now + w.hub.tickets.ttl
  held : ∀ t ∈ w.held, ∃ record, (t, record) ∈ w.issued
  apart : ∀ k ∈ w.ids, k ∉ w.others
  carriers : ∀ s c, w.carriers s = some c → CarrierOk principal w s c
  fresh : ∀ s, w.nextCarrier ≤ s → w.carriers s = none
  waiting : ∀ s request, w.phase = .waiting s request → ∃ c, w.carriers s = some c ∧ c.own = true ∧ c.request = request ∧
    (request.type = .leaseAttach → request.constellationID = w.client.constellationID)
  client : w.client.constellationID = 0 ∧ w.client.ticket = 0 ∨ ∃ record, (w.client.ticket, record) ∈ w.issued ∧
    record.principal = principal ∧ record.constellationID = w.client.constellationID ∧
    w.client.constellationID ∈ w.ids ∧ w.client.ticket ∈ w.held ∧ w.Held record

variable {w w' : St} {s t principal : ℕ} {c : Carrier} {a : Attachment} {record : TicketRecord} {server : Serving}

theorem init_inv (principal : ℕ) (hub : Hub) (hopen : hub.tickets.closed = false)
    (hempty : ∀ t, hub.tickets.tickets.lookup t = none) : (init hub).Inv principal where
  opened := hopen
  registered := fun t record h => by
    rw [show (init hub).hub.tickets.tickets.lookup t = none from hempty t] at h
    cases h
  unique := nofun
  valid := nofun
  held := nofun
  apart := nofun
  carriers := fun _ _ h => by cases h
  fresh := fun _ _ => rfl
  waiting := nofun
  client := .inl ⟨rfl, rfl⟩

/-! ## What another step leaves of a carrier -/

/-- the records only grow, and the tickets nobody has seen stay good -/
structure Grows (principal : ℕ) (w w' : St) (s : ℕ) : Prop where
  ids : ∀ k ∈ w.ids, k ∈ w'.ids
  others : ∀ k ∈ w.others, k ∈ w'.others
  issued : ∀ x ∈ w.issued, x ∈ w'.issued
  held : ∀ t ∈ w.held, t ∈ w'.held
  secret : ∀ t record, (t, record) ∈ w.issued → record.principal = principal → record.constellationID ∈ w.ids →
    record.issuerTranscript = key s → t ∉ w.held → w.Good t record → t ∉ w'.held ∧ w'.Good t record

theorem AdmissionOk.grow (h : w.AdmissionOk c a record) (hg : Grows principal w w' s) : w'.AdmissionOk c a record :=
  h.imp_right fun ⟨current, old, ha, hi, hp, hc, he, hh⟩ =>
    ⟨current, old, ha, hg.issued _ hi, hp, hc, he, fun ho => hg.held _ (hh ho)⟩

theorem CarrierOk.grow (h : CarrierOk principal w s c)
    (hg : Grows principal w w' s) (hphase : w'.phase = .waiting s c.request → w.phase = .waiting s c.request) :
    CarrierOk principal w' s c where
  mine := fun ho => by
    obtain ⟨h1, h2, h3⟩ := h.mine ho
    exact ⟨h1, hg.ids _ h2, h3.imp_right fun ⟨ht, hh⟩ => ⟨ht, hg.held _ hh⟩⟩
  theirs := fun ho hp => hg.others _ (h.theirs ho hp)
  quiet := h.quiet
  sending := fun a put hs => by
    obtain ⟨hc, record, hi, hp, hk, ht, ha, hsecret⟩ := h.sending a put hs
    refine ⟨hc, record, hg.issued _ hi, hp, hk, ht, ha.grow hg, fun ho => ?_⟩
    obtain ⟨hown, hids, -⟩ := h.mine ho
    obtain ⟨hunseen, hgood⟩ := hsecret ho
    have hkeep := fun hn => hg.secret _ _ hi (hp.trans hown) (hk ▸ hids) ht hn (hgood hn)
    exact ⟨fun hput => (hkeep (hunseen hput)).1, fun hn => (hkeep fun hx => hn (hg.held _ hx)).2⟩
  response := fun fr ho hr hph => by
    obtain ⟨hans, record, hi, hp, hk, ht, hheld, hgood⟩ := h.response fr ho hr (hphase hph)
    obtain ⟨hown, hids, -⟩ := h.mine ho
    exact ⟨hans, record, hg.issued _ hi, hp, hk, ht, hg.secret _ _ hi (hp.trans hown) (hk ▸ hids) ht hheld hgood⟩

theorem not_sends (h : server.sends = false) (a : Attachment) (put : Bool) : server ≠ .sending a put := by
  rintro rfl
  cases h

/-- a session that neither waits nor sends has no part in `CarrierOk.quiet` -/
theorem not_quiet (h : server ≠ .waiting ∧ server.sends = false) : ¬(server = .waiting ∨ ∃ a, server = .sending a false) := by
  rintro (hw | ⟨a, ha⟩)
  · exact h.1 hw
  · exact not_sends h.2 a false ha

/-! ## Steps that leave the tickets alone -/

/-- the session of a carrier acts: the carrier, the hub and the tickets issued change -/
def acted (w : St) (s : ℕ) (c : Carrier) (hub : Hub) (issued : List (ℕ × TicketRecord)) : St :=
  { w with carriers := update w.carriers s (some c), hub := hub, issued := issued }

variable {hub : Hub} {issued : List (ℕ × TicketRecord)}

theorem acted_self : (w.acted s c hub issued).carriers s = some c := update_self ..

theorem acted_other {s' : ℕ} (h : s' ≠ s) : (w.acted s c hub issued).carriers s' = w.carriers s' := update_of_ne h ..

theorem acted_grows {s' : ℕ} (hissued : ∀ x ∈ w.issued, x ∈ issued)
    (hgood : ∀ t record, (t, record) ∈ w.issued → record.principal = principal → record.constellationID ∈ w.ids →
      record.issuerTranscript = key s' → t ∉ w.held → w.Good t record → (w.acted s c hub issued).Good t record) :
    Grows principal w (w.acted s c hub issued) s' :=
  ⟨fun _ => id, fun _ => id, hissued, fun _ => id, fun t record hi hp hk ht hnt hg => ⟨hnt, hgood t record hi hp hk ht hnt hg⟩⟩

/-- a ticket that is kept unless it has expired -/
theorem acted_good (hkeep : w.now < record.expiresAt → w.hub.tickets.tickets.lookup t = some record →
    hub.tickets.tickets.lookup t = some record) (hg : w.Good t record) : (w.acted s c hub issued).Good t record := by
  rcases hg with hl | he
  · rcases Nat.lt_or_ge w.now record.expiresAt with hlt | hge
    · exact .inl (hkeep hlt hl)
    · exact .inr hge
  · exact .inr he

theorem inFlight_of {fr : Frame} (ho : c.own = true) (hr : c.response = some fr) (hph : w.phase = .waiting s c.request) :
    w.inFlight s c = true := by
  simp [inFlight, ho, hr, hph]

theorem committed_of (hc : w.carriers s = some c) : w.committed s = (w.inFlight s c && !c.server.sends) := by
  simp [committed, hc]

theorem phase_of_committed (h : w.committed s = true) : ∃ request, w.phase = .waiting s request := by
  obtain ⟨c, -, hfly, -⟩ : ∃ c, w.carriers s = some c ∧ w.inFlight s c = true ∧ c.server.sends = false := by
    simpa [committed, Option.any_eq_true] using h
  exact ⟨_, of_decide_eq_true (Bool.and_eq_true_iff.1 hfly).2⟩

/-- the client's ticket stays where it stands while only carrier `s` changes -/
theorem Held.keep (hh : w.Held record) {c' : Carrier} (hc : w.carriers s = some c)
    (hgood : w.Good w.client.ticket record → (w.acted s c' hub issued).Held record)
    (hsend : ∀ a put next grant, c.own = true → c.server = .sending a put → a.ticket ∉ w.held →
      a.admission = some (.rotate c.principal w.client.ticket next grant) → (w.acted s c' hub issued).Held record)
    (hfly : w.inFlight s c = true → c.server.sends = false → (w.acted s c' hub issued).committed s = true) :
    (w.acted s c' hub issued).Held record := by
  rcases hh with hg | ⟨s', x, a, put, next, grant, hx, ho, hserver, hn, ha⟩ | ⟨s', hx⟩
  · exact hgood hg
  · by_cases hs : s' = s
    · subst hs
      cases hc.symm.trans hx
      exact hsend a put next grant ho hserver hn ha
    · exact .inr (.inl ⟨s', x, a, put, next, grant, (acted_other hs).trans hx, ho, hserver, hn, ha⟩)
  · refine .inr (.inr ⟨s', ?_⟩)
    by_cases hs : s' = s
    · subst hs
      rw [committed_of hc, Bool.and_eq_true, Bool.not_eq_true'] at hx
      exact hfly hx.1 hx.2
    · rw [← hx, committed, acted_other hs]
      rfl

section

variable (h : w.Inv principal)

include h

section

variable {c' : Carrier} (hc : w.carriers s = some c) (hown : c'.own = c.own) (hreq : c'.request = c.request)
include hc hown hreq

/-- one carrier changes, its session may act on the tickets; the others' unseen tickets stay good -/
theorem Inv.change (hissued : ∀ x ∈ w.issued, x ∈ issued) (hopen : hub.tickets.closed = false)
    (hreg : ∀ t record, hub.tickets.tickets.lookup t = some record → (t, record) ∈ issued)
    (huniq : ∀ t record record', (t, record) ∈ issued → (t, record') ∈ issued → record = record')
    (hvalid : ∀ t record, (t, record) ∈ issued → t ≠ 0 ∧ record.principal ≠ 0 ∧ record.constellationID ≠ 0 ∧
      record.issuerTranscript ≠ 0 ∧ record.expiresAt ≤ w.now + hub.tickets.ttl)
    (hsecret : ∀ s' ≠ s, ∀ t record, (t, record) ∈ w.issued → record.principal = principal → record.constellationID ∈ w.ids →
      record.issuerTranscript = key s' → t ∉ w.held → w.Good t record → (w.acted s c' hub issued).Good t record)
    (hok : CarrierOk principal (w.acted s c' hub issued) s c')
    (hstand : ∀ record, (w.client.ticket, record) ∈ w.issued → record.principal = principal →
      record.constellationID ∈ w.ids → w.client.ticket ∈ w.held → w.Held record → (w.acted s c' hub issued).Held record) :
    (w.acted s c' hub issued).Inv principal := by
  refine ⟨hopen, hreg, huniq, hvalid, fun t ht => ?_, h.apart, fun s' x hx => ?_, fun s' hs' => ?_, fun s' request hph => ?_, ?_⟩
  · obtain ⟨record, hi⟩ := h.held t ht
    exact ⟨record, hissued _ hi⟩
  · by_cases hs : s' = s
    · subst hs
      rw [acted_self] at hx
      exact Option.some.inj hx ▸ hok
    rw [acted_other hs] at hx
    exact (h.carriers s' x hx).grow (acted_grows hissued (hsecret s' hs)) id
  · have hne : s' ≠ s := by
      rintro rfl
      rw [h.fresh s' hs'] at hc
      cases hc
    exact (acted_other hne).trans (h.fresh s' hs')
  · obtain ⟨x, hx, ho, hr, hl⟩ := h.waiting s' request hph
    by_cases hs : s' = s
    · subst hs
      cases hc.symm.trans hx
      exact ⟨c', acted_self, hown.trans ho, hreq.trans hr, hl⟩
    · exact ⟨x, (acted_other hs).trans hx, ho, hr, hl⟩
  · refine h.client.imp_right fun ⟨record, hi, hp, hk, hki, hth, hst⟩ => ⟨record, hissued _ hi, hp, hk, hki, hth, ?_⟩
    exact hstand record hi hp (hk ▸ hki) hth hst

/-- one carrier changes, and the client's ticket can still be restored -/
theorem Inv.setCarrier (hp : c'.principal = c.principal) (hok : CarrierOk principal (w.setCarrier s c') s c')
    (hsend : ∀ a put, c.server = .sending a put → ∃ put, c'.server = .sending a put)
    (hfly : w.committed s = false) : (w.setCarrier s c').Inv principal := by
  refine h.change hc hown hreq (fun _ => id) h.opened h.registered h.unique h.valid (fun _ _ _ _ _ _ _ _ _ => id) hok
    fun record _ _ _ _ hst => hst.keep hc .inl (fun a put next grant ho hserver hn ha => ?_) fun h1 h2 => ?_
  · obtain ⟨put', hserver'⟩ := hsend a put hserver
    exact .inr (.inl ⟨s, c', a, put', next, grant, acted_self, hown.trans ho, hserver', hn, hp.symm ▸ ha⟩)
  · simp [committed_of hc, h1, h2] at hfly

end

/-- the session of a carrier goes on and no longer sends; its request may have been refused, or its answer is in flight -/
theorem Inv.refused (hc : w.carriers s = some c)
    (he : TicketRegistry.Edited w.now w.hub.tickets hub.tickets none none)
    (hold : ∀ a put, c.own = true → c.server = .sending a put → a.ticket ∉ w.held → w.inFlight s c = true)
    (hnew : server ≠ .waiting ∧ server.sends = false) :
    (w.acted s { c with server := server } hub w.issued).Inv principal := by
  have hg : ∀ {t record}, w.Good t record → (w.acted s { c with server := server } hub w.issued).Good t record := fun hg =>
    acted_good (he.live _ _ nofun) hg
  refine h.change hc rfl rfl (fun _ => id) (he.closed.trans h.opened)
    (fun t record hl => h.registered t record ((he.old _ _ hl).resolve_right nofun))
    h.unique (he.ttl.symm ▸ h.valid) (fun _ _ _ _ _ _ _ _ _ hgood => hg hgood) ?_ ?_
  · have hok := (h.carriers s c hc).grow (acted_grows (fun _ => id) fun _ _ _ _ _ _ _ hgood => hg hgood) id
    exact ⟨hok.mine, hok.theirs, fun hx => absurd hx (not_quiet hnew), fun a put hs => absurd hs (not_sends hnew.2 a put),
      hok.response⟩
  · intro record _ _ _ _ hst
    have hfly : w.inFlight s c = true → (w.acted s { c with server := server } hub w.issued).committed s = true := by
      intro hfly
      rw [committed_of acted_self, Bool.and_eq_true, Bool.not_eq_true']
      exact ⟨hfly, hnew.2⟩
    exact hst.keep hc (fun hgood => .inl (hg hgood))
      (fun a put _ _ ho ha hn _ => .inr (.inr ⟨s, hfly (hold a put ho ha hn)⟩)) fun hx _ => hfly hx

theorem Inv.setServer (hc : w.carriers s = some c) (htickets : hub.tickets = w.hub.tickets)
    (hold : c.server.sends = false) (hnew : server ≠ .waiting ∧ server.sends = false) :
    (w.acted s { c with server := server } hub w.issued).Inv principal :=
  h.refused hc (htickets ▸ .refl _ _) (fun a put _ ha => absurd ha (not_sends hold a put)) hnew

theorem close_inv (s : ℕ) : (w.close s).Inv principal := by
  refine onCarrier_of h fun c hc => ?_
  split
  · rename_i a ha
    exact h.setServer hc rfl (by rw [ha]; rfl) ⟨nofun, rfl⟩
  · exact h

omit h in
theorem discard_tickets (hub : Hub) (id leaseID : ℕ) : (hub.discard id leaseID).tickets = hub.tickets := by
  unfold Hub.discard
  split
  · rfl
  · split_ifs <;> rfl

omit h in
theorem releaseFail_tickets (hub : Hub) (id leaseID : ℕ) : (hub.releaseFail id leaseID).1.tickets = hub.tickets := by
  unfold Hub.releaseFail
  split <;> rfl

omit h in
theorem releaseSeen_tickets (hub : Hub) (now id : ℕ) : (hub.releaseSeen now id).tickets = hub.tickets := by
  unfold Hub.releaseSeen
  split <;> rfl

omit h in
theorem cleanup_tickets (hub : Hub) (now : ℕ) : (hub.cleanup now).tickets = hub.tickets := by
  unfold Hub.cleanup
  split <;> rfl

theorem release_inv (s : ℕ) : (w.release s).Inv principal := by
  refine onCarrier_of h fun c hc => ?_
  split
  · rename_i a ha
    exact h.setServer hc (discard_tickets ..) (by rw [ha]; rfl) ⟨nofun, rfl⟩
  · rename_i a ha
    refine h.setServer hc (releaseFail_tickets ..) (by rw [ha]; rfl) ?_
    split <;> exact ⟨nofun, rfl⟩
  · rename_i a ha
    exact h.setServer hc (releaseSeen_tickets ..) (by rw [ha]; rfl) ⟨nofun, rfl⟩
  · exact h

theorem lose_inv (s : ℕ) (hg : w.answersArrive (.lose s) = true) : (w.lose s).Inv principal := by
  refine onCarrier_of h fun c hc => ?_
  have hok := h.carriers s c hc
  refine h.setCarrier hc rfl rfl rfl ?_ (fun _ put ha => ⟨put, ha⟩) (by simpa [answersArrive] using hg)
  exact ⟨hok.mine, hok.theirs, fun _ => rfl, hok.sending, nofun⟩

/-- the answer is on the carrier, and the session does not know yet whether it arrives -/
theorem put_inv (s : ℕ) : (w.put s).Inv principal := by
  refine onCarrier_of h fun c hc => ?_
  split
  · rename_i a ha
    have hok := h.carriers s c hc
    obtain ⟨hac, record, hi, hp, hk, ht, hadm, hsecret⟩ := hok.sending a false ha
    refine h.setCarrier hc rfl rfl rfl ?_ (fun a' _ hs => ⟨true, ?_⟩) (by simp [committed_of hc, ha, Serving.sends])
    · refine ⟨hok.mine, hok.theirs, ?_, fun a' put hs => ?_, fun fr ho hr _ => ?_⟩
      · rintro (hx | ⟨x, hx⟩)
        · cases hx
        · cases hx
      · obtain ⟨rfl, rfl⟩ : a = a' ∧ true = put := by simpa using hs
        exact ⟨hac, record, hi, hp, hk, ht, hadm, fun ho => ⟨nofun, (hsecret ho).2⟩⟩
      · obtain ⟨-, rfl⟩ : c.alive = true ∧ answer c.request a.ticket = fr := by simpa using hr
        obtain ⟨hunseen, hgood⟩ := hsecret ho
        exact ⟨rfl, record, hi, hp, hk, ht, hunseen rfl, hgood (hunseen rfl)⟩
    · obtain ⟨rfl, -⟩ : a = a' ∧ _ := by simpa using ha.symm.trans hs
      rfl
  · exact h

theorem sendReturn_ok_inv (s : ℕ) (hg : w.answersArrive (.sendReturn s true) = true) :
    (w.sendReturn s true).Inv principal := by
  refine onCarrier_of h fun c hc => ?_
  split
  · rename_i a put ha
    cases put with
    | false => exact h
    | true =>
      refine h.refused hc (.refl _ _) (fun a' put ho hs hn => ?_) ⟨nofun, rfl⟩
      obtain ⟨rfl, -⟩ : a = a' ∧ _ := by simpa using ha.symm.trans hs
      simpa [answersArrive, hc, ho, ha, hn] using hg
  · exact h

/-- time passes, and the hub forgets constellations -/
theorem Inv.elapse {now : ℕ} (hnow : w.now ≤ now) (htickets : hub.tickets = w.hub.tickets) :
    ({ w with now := now, hub := hub } : St).Inv principal := by
  have hgood : ∀ {t record}, w.Good t record → ({ w with now := now, hub := hub } : St).Good t record :=
    fun hg => hg.imp (htickets ▸ ·) fun he => he.trans hnow
  refine ⟨htickets ▸ h.opened, htickets ▸ h.registered, h.unique, ?_, h.held, h.apart, fun s c hc => ?_, h.fresh, h.waiting, ?_⟩
  · intro t record hi
    obtain ⟨h1, h2, h3, h4, h5⟩ := h.valid t record hi
    exact ⟨h1, h2, h3, h4, h5.trans (by dsimp only; rw [htickets]; omega)⟩
  · refine (h.carriers s c hc).grow ⟨fun _ => id, fun _ => id, fun _ => id, fun _ => id, ?_⟩ id
    exact fun _ _ _ _ _ _ hheld hg => ⟨hheld, hgood hg⟩
  · refine h.client.imp_right fun ⟨record, hi, hrp, hk, hids, hheld, hstand⟩ => ⟨record, hi, hrp, hk, hids, hheld, ?_⟩
    exact hstand.imp_left hgood

/-! ## The client's steps -/

/-- a request goes out on a new carrier -/
def requested (w : St) (c : Carrier) (client : ClientControl) (phase : Phase) (ids others : List ℕ) : St :=
  { w with carriers := update w.carriers w.nextCarrier (some c), nextCarrier := w.nextCarrier + 1, client := client
           phase := phase, ids := ids, others := others }

theorem Inv.newCarrier {client : ClientControl} {phase : Phase} {ids others : List ℕ}
    (hticket : client.ticket = w.client.ticket) (hk : client.constellationID = w.client.constellationID)
    (hids : ∀ k ∈ w.ids, k ∈ ids) (hoth : ∀ k ∈ w.others, k ∈ others) (hapart : ∀ k ∈ ids, k ∉ others)
    (hphase : phase = w.phase ∨ w.phase = .idle)
    (hok : CarrierOk principal (w.requested c client phase ids others) w.nextCarrier c)
    (hwait : phase = w.phase ∨ phase = .idle ∨ phase = .waiting w.nextCarrier c.request ∧ c.own = true ∧
      (c.request.type = .leaseAttach → c.request.constellationID = w.client.constellationID)) :
    (w.requested c client phase ids others).Inv principal := by
  have hold : ∀ s x, w.carriers s = some x → (w.requested c client phase ids others).carriers s = some x := by
    intro s x hx
    have hne : s ≠ w.nextCarrier := by
      rintro rfl
      rw [h.fresh _ le_rfl] at hx
      cases hx
    exact (update_of_ne hne ..).trans hx
  refine ⟨h.opened, h.registered, h.unique, h.valid, h.held, hapart, fun s x hx => ?_, fun s hs => ?_, fun s request hph => ?_, ?_⟩
  · by_cases hs : s = w.nextCarrier
    · subst hs
      cases (update_self ..).symm.trans hx
      exact hok
    · have hx := (update_of_ne hs ..).symm.trans hx
      refine (h.carriers s x hx).grow ⟨hids, hoth, fun _ => id, fun _ => id, fun _ _ _ _ _ _ hnh hg => ⟨hnh, hg⟩⟩ fun hph => ?_
      rcases hwait with hsame | hidle | ⟨hnew, -⟩
      · exact hsame.symm.trans hph
      · cases hidle.symm.trans hph
      · exact absurd (Phase.waiting.inj (hnew.symm.trans hph)).1.symm hs
  · have hs : w.nextCarrier + 1 ≤ s := hs
    exact (update_of_ne (by omega) ..).trans (h.fresh s (by omega))
  · rcases hwait with hsame | hidle | ⟨hnew, ho, hlink⟩
    · obtain ⟨x, hx, ho, hr, hl⟩ := h.waiting s request (hsame ▸ hph)
      exact ⟨x, hold s x hx, ho, hr, fun ht => (hl ht).trans hk.symm⟩
    · cases hidle.symm.trans hph
    · cases hnew.symm.trans hph
      exact ⟨c, update_self .., ho, rfl, fun ht => (hlink ht).trans hk.symm⟩
  · unfold Held requested
    rw [hticket, hk]
    refine h.client.imp_right fun ⟨record, hi, hrp, hrk, hki, hth, hstand⟩ => ⟨record, hi, hrp, hrk, hids _ hki, hth, ?_⟩
    rcases hstand with hg | ⟨s, x, a, put, next, grant, hx, hsend⟩ | ⟨s, hs⟩
    · exact .inl hg
    · exact .inr (.inl ⟨s, x, a, put, next, grant, hold s x hx, hsend⟩)
    · obtain ⟨request, hph⟩ := phase_of_committed hs
      obtain ⟨x, hx, -⟩ := h.waiting s request hph
      obtain rfl : phase = w.phase := hphase.resolve_right fun hidle => by cases hidle.symm.trans hph
      refine .inr (.inr ⟨s, ?_⟩)
      rw [committed_of hx] at hs
      exact (committed_of (hold s x hx)).trans hs

/-- a request of this client -/
theorem send_inv {client : ClientControl} {ids : List ℕ} {request : Frame} (sent delivered : Bool)
    (hidle : w.phase = .idle) (hticket : client.ticket = w.client.ticket)
    (hk : client.constellationID = w.client.constellationID) (hids : ∀ k ∈ w.ids, k ∈ ids) (hapart : ∀ k ∈ ids, k ∉ w.others)
    (hmem : request.constellationID ∈ ids)
    (htype : request.type = .constellationCreate ∨ request.type = .leaseAttach ∧ request.token ∈ w.held)
    (hlink : request.type = .leaseAttach → request.constellationID = w.client.constellationID) :
    (({ w with client := client, ids := ids } : St).send principal request sent delivered).Inv principal := by
  refine h.newCarrier hticket hk hids (fun _ => id) hapart (.inr hidle) ?_ ?_
  · refine ⟨fun _ => ⟨rfl, hmem, htype⟩, nofun, fun _ => rfl, nofun, ?_⟩
    exact nofun
  · cases sent with
    | false => exact .inr (.inl rfl)
    | true => exact .inr (.inr ⟨rfl, rfl, hlink⟩)

/-- the client's message counter moves -/
theorem Inv.reclient {client : ClientControl}
    (hticket : client.ticket = w.client.ticket) (hk : client.constellationID = w.client.constellationID) :
    ({ w with client := client } : St).Inv principal := by
  refine ⟨h.opened, h.registered, h.unique, h.valid, h.held, h.apart, fun s c hc => ?_, h.fresh, fun s request hph => ?_, ?_⟩
  · refine (h.carriers s c hc).grow ⟨fun _ => id, fun _ => id, fun _ => id, fun _ => id, ?_⟩ id
    exact fun _ _ _ _ _ _ hnh hg => ⟨hnh, hg⟩
  · obtain ⟨c, hc, ho, hr, hl⟩ := h.waiting s request hph
    exact ⟨c, hc, ho, hr, fun ht => (hl ht).trans hk.symm⟩
  · have hclient := h.client
    unfold Held Good at hclient ⊢
    rw [hticket, hk]
    exact hclient

theorem create_inv (forwardSecret : Bool) (id : ℕ) (sent delivered : Bool)
    (hg : w.answersArrive (.create forwardSecret id sent delivered) = true) :
    (w.create principal forwardSecret id sent delivered).Inv principal := by
  obtain ⟨-, hothers⟩ := of_decide_eq_true hg
  unfold create
  split
  · exact h
  rename_i hidle
  have hidle := not_not.1 hidle
  obtain ⟨n, hstart, -⟩ := startMessageID_eq w.client forwardSecret
  have h₁ : ({ w with client := startMessageID w.client forwardSecret } : St).Inv principal :=
    h.reclient (by rw [hstart]) (by rw [hstart])
  simp only
  split
  · exact h₁
  split
  · exact h₁
  rename_i messageID client hm
  obtain ⟨rfl, -⟩ := takeMessageID_eq hm
  refine send_inv h₁ sent delivered hidle rfl rfl (fun k hk => mem_append_left _ hk) (fun k hx => ?_) (by simp)
    (.inl rfl) nofun
  rcases mem_append.1 hx with hx | hx
  · exact h₁.apart k hx
  · rw [mem_singleton.1 hx]
    exact hothers

theorem attach_inv (sent delivered : Bool) : (w.attach principal sent delivered).Inv principal := by
  unfold attach
  split
  · exact h
  rename_i hcond
  push Not at hcond
  obtain ⟨hidle, hk0, ht0⟩ := hcond
  split
  · exact h
  rename_i messageID client hm
  obtain ⟨rfl, -⟩ := takeMessageID_eq hm
  rcases h.client with ⟨hzero, -⟩ | ⟨record, -, -, -, hids, hheld, -⟩
  · exact absurd hzero hk0
  · exact send_inv h sent delivered hidle rfl rfl (fun _ => id) h.apart hids (.inr ⟨rfl, hheld⟩) (fun _ => rfl)

theorem foreign_inv (p : ℕ) (request : Frame) : (w.foreign principal p request).Inv principal := by
  unfold foreign
  split
  · exact h
  rename_i hcond
  have hsub : ∀ k ∈ w.others, k ∈ if p = principal then w.others ++ [request.constellationID] else w.others := by
    intro k hk
    split_ifs
    · exact mem_append_left _ hk
    · exact hk
  refine h.newCarrier rfl rfl (fun _ => id) hsub (fun k hk hx => ?_) (.inl rfl) ?_ (.inl rfl)
  · split_ifs at hx with hp
    · rcases mem_append.1 hx with hx | hx
      · exact h.apart k hk hx
      · rw [mem_singleton.1 hx] at hk
        exact hcond ⟨hp, hk⟩
    · exact h.apart k hk hx
  · refine ⟨nofun, fun _ hp => ?_, fun _ => rfl, nofun, nofun⟩
    rw [if_pos hp]
    exact mem_append_right _ (mem_singleton_self _)

theorem giveUp_inv (hg : w.answersArrive .giveUp = true) : w.giveUp.Inv principal := by
  refine ⟨h.opened, h.registered, h.unique, h.valid, h.held, h.apart, fun s c hc => ?_, h.fresh, nofun, ?_⟩
  · refine (h.carriers s c hc).grow ⟨fun _ => id, fun _ => id, fun _ => id, fun _ => id, ?_⟩ nofun
    exact fun _ _ _ _ _ _ hnh hgood => ⟨hnh, hgood⟩
  · refine h.client.imp_right fun ⟨record, hi, hrp, hrk, hki, hth, hstand⟩ => ⟨record, hi, hrp, hrk, hki, hth, ?_⟩
    rcases hstand with hgood | hsend | ⟨s, hs⟩
    · exact .inl hgood
    · exact .inr (.inl hsend)
    · -- no committed answer is in flight to this client
      obtain ⟨request, hph⟩ := phase_of_committed hs
      simp [answersArrive, hph, hs] at hg

/-- the client takes the ticket of an answer it waited for -/
def taken (w : St) (s : ℕ) (c : Carrier) (ticket : ℕ) : St :=
  { w with carriers := update w.carriers s (some { c with response := none }), phase := .idle, held := w.held ++ [ticket]
           client := { w.client with constellationID := c.request.constellationID, leaseKey := key s, ticket := ticket } }

section

variable (hc : w.carriers s = some c)
include hc

theorem Inv.take {fr : Frame} (ho : c.own = true) (hr : c.response = some fr) (hph : w.phase = .waiting s c.request) :
    (w.taken s c fr.token).Inv principal := by
  have hok := h.carriers s c hc
  obtain ⟨-, record, hi, hp, hrk, ht, -, hgood⟩ := hok.response fr ho hr hph
  obtain ⟨hown, hmem, htype⟩ := hok.mine ho
  have hheld : ∀ t ∈ w.held, t ∈ w.held ++ [fr.token] := fun t hx => mem_append_left _ hx
  -- only this carrier's session made the ticket
  have hsecret : ∀ s' ≠ s, ∀ t x, (t, x) ∈ w.issued → x.issuerTranscript = key s' → t ∉ w.held →
      t ∉ w.held ++ [fr.token] := by
    intro s' hs' t x hx htr hnt hmem
    rcases mem_append.1 hmem with hmem | hmem
    · exact hnt hmem
    obtain rfl := mem_singleton.1 hmem
    have hkey : key s' = key s := by rw [← htr, h.unique _ _ _ hx hi, ht]
    exact hs' (Nat.succ.inj hkey)
  refine ⟨h.opened, h.registered, h.unique, h.valid, fun t hx => ?_, h.apart, fun s' x hx => ?_, fun s' hs' => ?_,
    nofun, .inr ?_⟩
  · rcases mem_append.1 hx with hx | hx
    · exact h.held t hx
    · rw [mem_singleton.1 hx]
      exact ⟨record, hi⟩
  · by_cases hs : s' = s
    · subst hs
      cases (update_self ..).symm.trans hx
      refine ⟨fun _ => ⟨hown, hmem, htype.imp_right fun ⟨h1, h2⟩ => ⟨h1, hheld _ h2⟩⟩,
        fun hno => absurd ho (by simpa using hno), fun _ => rfl, fun a put hs => ?_, nofun⟩
      obtain ⟨hac, y, hy, hyp, hyk, hyt, hadm, hsecret⟩ := hok.sending a put hs
      refine ⟨hac, y, hy, hyp, hyk, hyt, ?_, fun ho => ⟨fun hput => ?_, fun hn => (hsecret ho).2 fun hx => hn (hheld _ hx)⟩⟩
      · exact hadm.imp_right fun ⟨current, old, h1, h2, h3, h4, h5, h6⟩ =>
          ⟨current, old, h1, h2, h3, h4, h5, fun hx => hheld _ (h6 hx)⟩
      · subst hput
        rw [hok.quiet (.inr ⟨a, hs⟩)] at hr
        cases hr
    · have hx := (update_of_ne hs ..).symm.trans hx
      refine (h.carriers s' x hx).grow ⟨fun _ => id, fun _ => id, fun _ => id, hheld, ?_⟩ nofun
      exact fun t y hy _ _ htr hnt hg => ⟨hsecret s' hs t y hy htr hnt, hg⟩
  · have hne : s' ≠ s := by
      rintro rfl
      rw [h.fresh s' hs'] at hc
      cases hc
    exact (update_of_ne hne ..).trans (h.fresh s' hs')
  · exact ⟨record, hi, hp.trans hown, hrk, hmem, mem_append_right _ (mem_singleton_self _), .inl hgood⟩

omit hc in
theorem Inv.receive_cases : w.receive = w ∨ ∃ s c fr, w.carriers s = some c ∧ c.own = true ∧ c.response = some fr ∧
    w.phase = .waiting s c.request ∧ w.receive = w.taken s c fr.token := by
  unfold receive
  split
  · exact .inl rfl
  rename_i s request hph
  obtain ⟨c, hc, ho, rfl, hlink⟩ := h.waiting s request hph
  simp only [onCarrier, hc]
  split
  · exact .inl rfl
  rename_i fr hr
  refine .inr ⟨s, c, fr, hc, ho, hr, hph, ?_⟩
  obtain ⟨hans, record, hi, -⟩ := (h.carriers s c hc).response fr ho hr hph
  have hmid : fr.messageID = c.request.messageID := by rw [hans]; rfl
  have hcid : fr.constellationID = c.request.constellationID := by rw [hans]; rfl
  have htok := (h.valid _ _ hi).1
  rw [if_neg (by simp [hmid, hcid, htok])]
  rcases ((h.carriers s c hc).mine ho).2.2 with htype | ⟨htype, -⟩
  · have hft : fr.type = .leaseIssue := by rw [hans, answer, htype]; rfl
    rw [htype, hft]
    rfl
  · have hft : fr.type = .leaseAccept := by rw [hans, answer, htype]; rfl
    rw [htype, hft, taken, hlink htype]
    rfl

omit hc in
theorem receive_inv : w.receive.Inv principal := by
  rcases h.receive_cases with hx | ⟨s, c, fr, hc, ho, hr, hph, hx⟩ <;> rw [hx]
  · exact h
  · exact h.take hc ho hr hph

/-! ## Steps that change the tickets -/

/-- a ticket of this client is not one of another client's -/
theorem Inv.not_theirs (ho : c.own = false) {record' : TicketRecord} (hi : (t, record) ∈ w.issued)
    (hp : record.principal = principal) (hk : record.constellationID ∈ w.ids) (hi' : (t, record') ∈ w.issued)
    (hp' : record'.principal = c.principal) (hk' : record'.constellationID = c.request.constellationID) : False := by
  obtain rfl := h.unique _ _ _ hi hi'
  exact h.apart _ hk (hk' ▸ (h.carriers s c hc).theirs ho (hp'.symm.trans hp))

/-- an admission has made a ticket that nobody knows, and has consumed at most the ticket of the request -/
theorem Inv.made (lost : Option ℕ) (hwaiting : c.server = .waiting)
    (hrecord : record = ⟨c.principal, c.request.constellationID, key s, w.now + w.hub.tickets.ttl⟩)
    (hfresh : a.ticket ∉ w.issued.map Prod.fst) (h0 : a.ticket ≠ 0) (hp0 : c.principal ≠ 0)
    (hk0 : c.request.constellationID ≠ 0)
    (he : TicketRegistry.Edited w.now w.hub.tickets hub.tickets lost (some (a.ticket, record)))
    (hac : a.constellationID = c.request.constellationID)
    (hadm : (w.acted s { c with server := .sending a false } hub (w.issued ++ [(a.ticket, record)])).AdmissionOk c a record)
    (hlost : ∀ t, lost = some t → c.own = true ∧ t ∈ w.held ∧
        (∃ grant, a.admission = some (.rotate c.principal t a.ticket grant)) ∨
      c.own = false ∧ ∃ x, (t, x) ∈ w.issued ∧ x.principal = c.principal ∧ x.constellationID = c.request.constellationID) :
    (w.acted s { c with server := .sending a false } hub (w.issued ++ [(a.ticket, record)])).Inv principal := by
  have hne : ∀ t x, (t, x) ∈ w.issued → t ≠ a.ticket := by
    rintro t x hx rfl
    exact hfresh (mem_map_of_mem hx)
  have hgood : ∀ t x, lost ≠ some t → w.Good t x →
      (w.acted s { c with server := .sending a false } hub (w.issued ++ [(a.ticket, record)])).Good t x := fun t x hl hg =>
    acted_good (he.live t x hl) hg
  have hok := h.carriers s c hc
  have hquiet := hok.quiet (.inl hwaiting)
  have hnh : a.ticket ∉ w.held := by
    intro hx
    obtain ⟨y, hy⟩ := h.held _ hx
    exact hne _ _ hy rfl
  refine h.change hc rfl rfl (fun _ hx => mem_append_left _ hx) (he.closed.trans h.opened) ?_ ?_ ?_ ?_ ?_ ?_
  · intro t x hl
    rcases he.old t x hl with hold | hnew
    · exact mem_append_left _ (h.registered t x hold)
    · cases hnew
      exact mem_append_right _ (mem_singleton_self _)
  · intro t x x' hx hx'
    rcases mem_append.1 hx with h1 | h1 <;> rcases mem_append.1 hx' with h2 | h2
    · exact h.unique t x x' h1 h2
    · exact absurd (by simpa using h2 : t = a.ticket ∧ x' = record).1 (hne t x h1)
    · exact absurd (by simpa using h1 : t = a.ticket ∧ x = record).1 (hne t x' h2)
    · exact (by simpa using h1 : t = a.ticket ∧ x = record).2.trans (by simpa using h2 : t = a.ticket ∧ x' = record).2.symm
  · intro t x hx
    rw [he.ttl]
    rcases mem_append.1 hx with hx | hx
    · exact h.valid t x hx
    obtain ⟨rfl, rfl⟩ : t = a.ticket ∧ x = record := by simpa using hx
    rw [hrecord]
    exact ⟨h0, hp0, hk0, Nat.succ_ne_zero s, le_rfl⟩
  · intro s' _ t x hx hp hk _ hnt hg
    refine hgood t x (fun hl => ?_) hg
    rcases hlost t hl with ⟨-, hth, -⟩ | ⟨ho, y, hy, hyp, hyk⟩
    · exact hnt hth
    · exact h.not_theirs hc ho hx hp hk hy hyp hyk
  · refine ⟨hok.mine, hok.theirs, fun _ => hquiet, fun a' put hs => ?_, fun fr _ hr => ?_⟩
    · obtain ⟨rfl, rfl⟩ : a = a' ∧ false = put := by simpa using hs
      refine ⟨hac, record, mem_append_right _ (mem_singleton_self _), by rw [hrecord], by rw [hrecord],
        by rw [hrecord], hadm, fun _ => ⟨fun _ => hnh, fun _ => .inl (he.self _ _ rfl)⟩⟩
    · cases hquiet.symm.trans hr
  · intro x hx hp hk hth hst
    refine hst.keep hc (fun hg => ?_) (fun _ _ _ _ _ ha => ?_) fun hx => ?_
    · by_cases hl : lost = some w.client.ticket
      · rcases hlost _ hl with ⟨ho, -, grant, ha⟩ | ⟨ho, y, hy, hyp, hyk⟩
        · -- the client's own ticket is in this session's hands
          exact .inr (.inl ⟨s, _, a, false, a.ticket, grant, acted_self, ho, rfl, hnh, ha⟩)
        · exact (h.not_theirs hc ho hx hp hk hy hyp hyk).elim
      · exact .inl (hgood _ x hl hg)
    · cases hwaiting.symm.trans ha
    · simp [inFlight, hquiet] at hx

omit hc in
theorem admitRequest_inv (s : ℕ) (drawn : List ℕ)
    (hg : w.answersArrive (.admitRequest s drawn) = true) : (w.admitRequest s drawn).Inv principal := by
  have hdrawn := of_decide_eq_true hg
  refine onCarrier_of h fun c hc => ?_
  split
  · exact h
  rename_i hcond
  have hwaiting : c.server = .waiting := by
    by_contra hno
    exact hcond (.inl hno)
  have hrefused : ∀ {hub : Hub}, TicketRegistry.Edited w.now w.hub.tickets hub.tickets none none →
      (w.acted s { c with server := .closed } hub w.issued).Inv principal := fun he =>
    h.refused hc he (fun _ _ _ ha => by cases hwaiting.symm.trans ha) ⟨nofun, rfl⟩
  split
  · exact hrefused (.refl _ _)
  cases htype : c.request.type with
  | constellationCreate =>
    have hcases := w.hub.createPending_cases w.now c.principal c.request.constellationID (key s) (key s) drawn
    generalize w.hub.createPending _ _ _ _ _ _ = x at hcases ⊢
    cases hcases with
    | refused he => exact hrefused he
    | created hp0 hk0 hd h0 he ha =>
      obtain ⟨hac, -, rfl, hadm⟩ := ha
      exact h.made hc none hwaiting rfl (hdrawn _ hd) h0 hp0 hk0 he hac (.inl hadm) nofun
  | leaseAttach =>
    have hcases := w.hub.attachPending_cases w.now c.request.token c.principal c.request.constellationID (key s) (key s) drawn
    generalize w.hub.attachPending _ _ _ _ _ _ _ = x at hcases ⊢
    cases hcases with
    | refused he => exact hrefused he
    | attached hp0 hk0 hrot ha =>
      cases hrot with
      | @rotated _ record _ hr hlt ht0 hrp hrk hd h0 he =>
        obtain ⟨hac, -, rfl, hadm⟩ := ha
        have hissued := h.registered _ _ hr
        -- this client attaches with a ticket it holds
        have hheld : c.own = true → c.request.token ∈ w.held := by
          intro ho
          rcases ((h.carriers s c hc).mine ho).2.2 with hcreate | ⟨-, hheld⟩
          · cases htype.symm.trans hcreate
          · exact hheld
        refine h.made hc (some c.request.token) hwaiting rfl (hdrawn _ hd) h0 hp0 hk0 he hac
          (.inr ⟨_, record, hadm, mem_append_left _ hissued, hrp, hrk, (h.valid _ _ hissued).2.2.2.2, hheld⟩) (fun t hl => ?_)
        cases hl
        cases ho : c.own with
        | false => exact .inr ⟨rfl, record, hissued, hrp, hrk⟩
        | true => exact .inl ⟨rfl, hheld ho, _, hadm⟩
  | leaseIssue | leaseAccept => exact hrefused (.refl _ _)

/-- an admission is undone: at most its own ticket goes, and the consumed one is back -/
theorem Inv.undone {put : Bool} {gone : Option ℕ} {new : Option (ℕ × TicketRecord)}
    (hserver : c.server = .sending a put) (hquiet : c.own = true → a.ticket ∉ w.held ∧ w.inFlight s c = false)
    (hnew : server ≠ .waiting ∧ server.sends = false)
    (he : TicketRegistry.Edited w.now w.hub.tickets hub.tickets gone new) (hgone : ∀ t, gone = some t → t = a.ticket)
    (hissued : ∀ t x, new = some (t, x) → (t, x) ∈ w.issued)
    (hback : ∀ current next grant record, c.own = true → a.admission = some (.rotate c.principal current next grant) →
      (current, record) ∈ w.issued → (w.acted s { c with server := server } hub w.issued).Good current record) :
    (w.acted s { c with server := server } hub w.issued).Inv principal := by
  have hok := h.carriers s c hc
  obtain ⟨-, record, hi, hp, hk, ht, -, -⟩ := hok.sending a put hserver
  have hgood : ∀ t x, t ≠ a.ticket → w.Good t x → (w.acted s { c with server := server } hub w.issued).Good t x :=
    fun t x hne hg => acted_good (he.live t x fun hx => hne (hgone t hx)) hg
  refine h.change hc rfl rfl (fun _ => id) (he.closed.trans h.opened)
    (fun t x hl => (he.old t x hl).elim (h.registered t x) (hissued t x)) h.unique (he.ttl.symm ▸ h.valid) ?_ ?_ ?_
  · intro s' hs' t x hx _ _ htr _ hg
    refine hgood t x ?_ hg
    rintro rfl
    have hkey : key s' = key s := by rw [← htr, h.unique _ _ _ hx hi, ht]
    exact hs' (Nat.succ.inj hkey)
  · refine ⟨hok.mine, hok.theirs, fun hx => absurd hx (not_quiet hnew), fun a put hs => absurd hs (not_sends hnew.2 a put),
      fun fr ho hr hph => ?_⟩
    have hfly : w.inFlight s c = true := inFlight_of ho hr hph
    cases hfly.symm.trans (hquiet ho).2
  · intro x hx hxp hxk hth hst
    refine hst.keep hc (fun hg => .inl (hgood _ x (fun he => ?_) hg)) (fun a' _ next grant ho ha _ hadm => ?_) fun _ hx => ?_
    · cases ho : c.own with
      | false => exact h.not_theirs hc ho hx hxp hxk (he ▸ hi) hp hk
      | true => exact (hquiet ho).1 (he ▸ hth)
    · obtain ⟨rfl, -⟩ : a = a' ∧ _ := by simpa using hserver.symm.trans ha
      exact .inl (hback _ next grant x ho hadm hx)
    · exact absurd hserver (not_sends hx a put)

/-- the rollback restores the ticket this client still holds -/
theorem rollback_good {put : Bool} (hserver : c.server = .sending a put) (ho : c.own = true) (hnh : a.ticket ∉ w.held)
    {current : ℕ} {old : TicketRecord} (hi : (current, old) ∈ w.issued)
    (hadm : a.admission = some (.rotate c.principal current a.ticket old.grant)) :
    (w.hub.tickets.rollbackRotate w.now current a.ticket c.principal a.constellationID old.grant).1.tickets.lookup current =
      some old ∨ old.expiresAt ≤ w.now := by
  obtain ⟨hac, record, hn, hp, hk, -, hadm', hsecret⟩ := (h.carriers s c hc).sending a put hserver
  have hgood := (hsecret ho).2 hnh
  have hold : old.principal = c.principal ∧ old.constellationID = c.request.constellationID ∧
      old.expiresAt ≤ record.expiresAt ∧ current ∈ w.held := by
    rcases hadm' with hx | ⟨cur, x, hx, hxi, hxp, hxk, hxe, hxh⟩
    · exact absurd (hadm.symm.trans hx) (by simp)
    obtain ⟨rfl, -⟩ : current = cur ∧ _ := by simpa using hadm.symm.trans hx
    obtain rfl := h.unique _ _ _ hi hxi
    exact ⟨hxp, hxk, hxe, hxh ho⟩
  obtain ⟨hop, hok, hoe, hoh⟩ := hold
  rcases Nat.lt_or_ge w.now old.expiresAt with hlt | hge
  swap
  · exact .inr hge
  refine .inl ?_
  have hcases := w.hub.tickets.rollback_cases w.now current a.ticket c.principal a.constellationID old.grant
  generalize hx : w.hub.tickets.rollbackRotate w.now current a.ticket c.principal a.constellationID old.grant = x at hcases ⊢
  have hrec : (⟨c.principal, a.constellationID, old.grant.issuerTranscript, old.grant.expiresAt⟩ : TicketRecord) = old := by
    rw [hac, ← hok, ← hop]
    rfl
  cases hcases with
  | restored he => exact hrec ▸ he.self _ _ rfl
  | refused he =>
    -- it is refused only if the ticket is still there
    cases hcur : w.hub.tickets.tickets.lookup current with
    | some y =>
      obtain rfl := h.unique _ _ _ (h.registered _ _ hcur) hi
      exact he.live _ _ nofun hlt hcur
    | none =>
      obtain ⟨hv0, hv1, hv2, hv3, -⟩ := h.valid _ _ hi
      have hnl : w.hub.tickets.tickets.lookup a.ticket = some record := by
        rcases hgood with hl | he
        · exact hl
        · omega
      have hrb : (w.hub.tickets.rollbackRotate w.now current a.ticket c.principal a.constellationID old.grant).2 = .ok () :=
        TicketRegistry.rollback_ok h.opened ⟨hv0, (h.valid _ _ hn).1, hop ▸ hv1, hac ▸ hok ▸ hv2⟩
          ⟨hv3, hok.trans hac.symm⟩ hnl (by omega) ⟨hp, hk.trans hac.symm⟩ hcur hlt
      rw [hx] at hrb
      cases hrb

end

theorem sendReturn_fail_inv (s : ℕ)
    (hg : w.answersArrive (.sendReturn s false) = true) : (w.sendReturn s false).Inv principal := by
  refine onCarrier_of h fun c hc => ?_
  split
  swap
  · exact h
  rename_i a put hserver
  obtain ⟨hac, record, hn, hp, hk, -, hadm, hsecret⟩ := (h.carriers s c hc).sending a put hserver
  have hquiet : c.own = true → a.ticket ∉ w.held ∧ w.inFlight s c = false := by
    intro ho
    cases put with
    | false => exact ⟨(hsecret ho).1 rfl, by simp [inFlight, (h.carriers s c hc).quiet (.inr ⟨a, hserver⟩)]⟩
    | true => simpa [answersArrive, hc, ho, hserver, and_comm] using hg
  rcases hadm with hissue | ⟨current, old, hrotate, hi, hop, hok, -⟩
  · -- a creation: its ticket is revoked
    have habort : w.hub.abortAdmission w.now a =
        ({ w.hub with tickets := (w.hub.tickets.revoke w.now a.ticket c.principal a.constellationID).1 }, true) := by
      simp [Hub.abortAdmission, hissue]
    rw [habort]
    have hcases := w.hub.tickets.revoke_cases w.now a.ticket c.principal a.constellationID
    generalize w.hub.tickets.revoke _ _ _ _ = x at hcases ⊢
    have hnorot : ∀ {current next grant}, a.admission ≠ some (.rotate c.principal current next grant) := by simp [hissue]
    cases hcases with
    | refused he =>
      exact h.undone hc hserver hquiet ⟨nofun, rfl⟩ he (by simp) (by simp) fun _ _ _ _ _ hx => absurd hx hnorot
    | revoked he =>
      exact h.undone hc hserver hquiet ⟨nofun, rfl⟩ he (fun t hx => (Option.some.inj hx).symm) (by simp)
        fun _ _ _ _ _ hx => absurd hx hnorot
  · -- a rotation: it is rolled back
    have habort : w.hub.abortAdmission w.now a =
        ({ w.hub with tickets :=
            (w.hub.tickets.rollbackRotate w.now current a.ticket c.principal a.constellationID old.grant).1 }, false) := by
      simp [Hub.abortAdmission, hrotate]
    rw [habort]
    have hgood : c.own = true → (w.hub.tickets.rollbackRotate w.now current a.ticket c.principal a.constellationID
        old.grant).1.tickets.lookup current = some old ∨ old.expiresAt ≤ w.now :=
      fun ho => rollback_good h hc hserver ho (hquiet ho).1 hi hrotate
    have hrec : (⟨c.principal, a.constellationID, old.grant.issuerTranscript, old.grant.expiresAt⟩ : TicketRecord) = old := by
      rw [hac, ← hok, ← hop]
      rfl
    have hcases := w.hub.tickets.rollback_cases w.now current a.ticket c.principal a.constellationID old.grant
    generalize w.hub.tickets.rollbackRotate _ _ _ _ _ _ = x at hcases hgood ⊢
    have hback : ∀ cur next grant y, c.own = true → a.admission = some (.rotate c.principal cur next grant) →
        (cur, y) ∈ w.issued → (w.acted s { c with server := .closing { a with admission := none } false }
          { w.hub with tickets := x.1 } w.issued).Good cur y := by
      intro cur next grant y ho hx hy
      obtain ⟨rfl, -⟩ : current = cur ∧ _ := by simpa using hrotate.symm.trans hx
      obtain rfl := h.unique _ _ _ hy hi
      exact hgood ho
    cases hcases with
    | refused he => exact h.undone hc hserver hquiet ⟨nofun, rfl⟩ he (by simp) (by simp) hback
    | restored he =>
      refine h.undone hc hserver hquiet ⟨nofun, rfl⟩ he (fun t hx => (Option.some.inj hx).symm) (fun t y hx => ?_) hback
      obtain ⟨rfl, rfl⟩ := Prod.mk.inj (Option.some.inj hx)
      rw [hrec]
      exact hi

/-! ## Runs -/

omit h in
theorem step_inv (w : St) (o : Op) (h : w.Inv principal) (hg : w.answersArrive o = true) :
    (step principal w o).Inv principal := by
  cases o with
  | tick d => exact h.elapse (Nat.le_add_right _ _) rfl
  | create forwardSecret id sent delivered => exact create_inv h forwardSecret id sent delivered hg
  | attach sent delivered => exact attach_inv h sent delivered
  | receive => exact receive_inv h
  | giveUp => exact giveUp_inv h hg
  | admitRequest s drawn => exact admitRequest_inv h s drawn hg
  | put s => exact put_inv h s
  | sendReturn s ok =>
    cases ok with
    | false => exact sendReturn_fail_inv h s hg
    | true => exact sendReturn_ok_inv h s hg
  | close s => exact close_inv h s
  | release s => exact release_inv h s
  | cleanup => exact h.elapse le_rfl (cleanup_tickets ..)
  | lose s => exact lose_inv h s hg
  | foreign p request => exact foreign_inv h p request

omit h in
theorem run_inv (principal : ℕ) (hub : Hub) (hopen : hub.tickets.closed = false)
    (hempty : ∀ t, hub.tickets.tickets.lookup t = none) (ops : List Op)
    (hg : Machine.Guarded (step principal) (fun w o => w.answersArrive o = true) (init hub) ops) :
    (run principal (init hub) ops).Inv principal :=
  Machine.run_inv_guarded step_inv (init_inv principal hub hopen hempty) ops hg

/-- nothing is under way on the carrier -/
def settled (c : Carrier) : Bool :=
  c.response.isNone && match c.server with
    | .waiting => !c.delivered
    | .serving _ | .closed => true
    | _ => false

/-- the client is in no exchange, and the server in none with it -/
def quiescent (w : St) : Bool :=
  decide (w.phase = .idle ∧ ∀ s < w.nextCarrier, (w.carriers s).all fun c => !c.own || settled c)

/-- the ticket the client holds has not expired -/
def unexpired (w : St) : Prop := ∃ record, (w.client.ticket, record) ∈ w.issued ∧ w.now < record.expiresAt

instance (w : St) : Decidable w.unexpired :=
  decidable_of_iff (∃ x ∈ w.issued, x.1 = w.client.ticket ∧ w.now < x.2.expiresAt)
    ⟨fun ⟨x, hx, h1, h2⟩ => ⟨x.2, h1 ▸ hx, h2⟩, fun ⟨_, h1, h2⟩ => ⟨_, h1, rfl, h2⟩⟩

/-- at rest the ticket is registered or expired -/
theorem Inv.at_rest (hq : w.quiescent = true) (hst : w.Held record) : w.Good w.client.ticket record := by
  obtain ⟨hidle, hsettled⟩ := of_decide_eq_true hq
  rcases hst with hg | ⟨s, c, a, put, next, grant, hc, ho, hserver, -⟩ | ⟨s, hs⟩
  · exact hg
  · have hlt : s < w.nextCarrier := by
      by_contra hge
      rw [h.fresh s (not_lt.1 hge)] at hc
      cases hc
    have := hsettled s hlt
    simp [hc, ho, settled, hserver] at this
  · obtain ⟨request, hph⟩ := phase_of_committed hs
    cases hidle.symm.trans hph

end

/-- **Never stranded.** While exactly the answers that reach the waiting client are committed, in every quiescent state the
registry accepts the unexpired ticket of a client that is ready. -/
theorem never_stranded (principal maxConstellations maxLeases maxDraining inactiveTTL maxTickets ttl : ℕ) (ops : List Op)
    (hg : Machine.Guarded (step principal) (fun w o => w.answersArrive o = true)
      (init (Hub.new maxConstellations maxLeases maxDraining inactiveTTL maxTickets ttl)) ops) :
    let w := run principal (init (Hub.new maxConstellations maxLeases maxDraining inactiveTTL maxTickets ttl)) ops
    w.quiescent = true → w.client.ready = true → w.unexpired →
      w.hub.tickets.Accepts w.now w.client.ticket principal w.client.constellationID := by
  intro w hq hready ⟨record, hi, hlt⟩ transcript drawn ht hdrawn
  have h : w.Inv principal := run_inv principal _ rfl (fun t => rfl) ops hg
  obtain ⟨hk0, ht0⟩ := of_decide_eq_true hready
  rcases h.client with ⟨hzero, -⟩ | ⟨record', hi', hp, hk, -, -, hst⟩
  · exact absurd hzero hk0
  obtain rfl := h.unique _ _ _ hi hi'
  have hgood := (h.at_rest hq hst).resolve_right (by omega)
  obtain ⟨next, hnext⟩ := TicketRegistry.rotate_ok h.opened hgood hlt ht0 (hp ▸ (h.valid _ _ hi).2.1) hk0 hp hk ht hdrawn
  exact ⟨next, _, hnext⟩

/-- nanoseconds -/
def second : ℕ := 10 ^ 9

/-- the hub of `newConstellationServices` for 100 sessions -/
def productionHub : Hub := Hub.new 100 3 3 (300 * second) 300 (60 * second)

/-- the client creates its constellation over carrier 0 -/
def created : List Op := [.create false 5 true true, .admitRequest 0 [11], .put 0, .sendReturn 0 true, .receive]

/-- the answer is lost with its carrier, the send fails and the rotation is rolled back -/
def rolledBack : List Op :=
  created ++ [.attach true true, .admitRequest 1 [12], .put 1, .lose 1, .sendReturn 1 false, .release 1, .release 1, .giveUp]

theorem never_stranded_rollback :
    let w := run 1 (init productionHub) rolledBack
    w.quiescent = true ∧ w.client.ready = true ∧ w.unexpired ∧
      w.hub.tickets.Accepts w.now w.client.ticket 1 w.client.constellationID :=
  ⟨by decide, by decide, by decide,
    never_stranded 1 100 3 3 (300 * second) 300 (60 * second) rolledBack (by decide) (by decide) (by decide) (by decide)⟩

/-- **Stranded.** The server's send succeeds and the rotation is committed, then the carrier is lost: the client keeps the
consumed ticket. -/
theorem stranded :
    let w := run 1 (init productionHub) (created ++
      [.attach true true, .admitRequest 1 [12], .put 1, .sendReturn 1 true, .lose 1, .giveUp, .close 1, .release 1, .release 1])
    w.quiescent = true ∧ w.client.ready = true ∧ w.unexpired ∧
      (w.hub.tickets.rotate w.now w.client.ticket 1 w.client.constellationID 9 [13]).2 = .error .invalid ∧
      (w.hub.tickets.cleanup w.now).newTicket [13] ≠ none := by
  decide

end NeProto.Constellation.St
