/-
A live constellation takes a new carrier, for as long as its ticket lives. No message is lost here; carriers come and go and
time passes. The hub keeps the constellation while a lease is active, the lease key of a new session is new, and the ticket
the client holds is the one the registry knows: what is left to fail is the age of that ticket, which only an exchange renews.

- `noLoss`: the exchanges of this client run to their end; the server may refuse.
- `Steady`: the hub's controllers are open and hold lease keys of earlier sessions, every exchange that is under way has its
  client waiting, and an answer that was sent is in flight or taken.
- `attach_iff_unexpired`: with an active lease and room for one more, an attach succeeds exactly while the ticket is younger
  than its lifetime and message IDs are left.
- `attach_refused_after_a_minute`: one minute after the creation, with the primary lease active, the attach is refused.
-/
import NeProto.Constellation.Tickets

namespace NeProto.Constellation

open Function List

open Continuity (TicketRegistry TicketRecord maxSequence)

/-! ## The hub's constellations -/

/-- a controller that takes leases, with the keys of sessions before `n` -/
structure RecordOk (maxLeases n k : ℕ) (record : HubRecord) : Prop where
  principal : record.controller.principal = record.principal
  constellationID : record.controller.constellationID = k
  opened : record.controller.closed = false
  maxActive : record.controller.maxActive = maxLeases
  keys : ∀ l ∈ record.controller.leases, l.key ≤ n

structure HubOk (n : ℕ) (h : Hub) : Prop where
  opened : h.closed = false
  records : ∀ k record, h.records.lookup k = some record → RecordOk h.maxLeases n k record

section

variable {k n maxLeases : ℕ} {record : HubRecord} {h : Hub}

theorem RecordOk.mono {n' : ℕ} (h : RecordOk maxLeases n k record) (hn : n ≤ n') : RecordOk maxLeases n' k record :=
  { h with keys := fun l hl => (h.keys l hl).trans hn }

theorem HubOk.mono {n' : ℕ} (hh : HubOk n h) (hn : n ≤ n') : HubOk n' h :=
  ⟨hh.opened, fun k record hr => (hh.records k record hr).mono hn⟩

theorem new_hubOk (maxConstellations maxLeases maxDraining inactiveTTL maxTickets ttl : ℕ) :
    HubOk 0 (Hub.new maxConstellations maxLeases maxDraining inactiveTTL maxTickets ttl) := by
  refine ⟨rfl, fun k record hr => ?_⟩
  cases hr

/-- one record is written -/
theorem HubOk.insert {tickets : TicketRegistry} (hh : HubOk n h) (hr : RecordOk h.maxLeases n k record) :
    HubOk n { h with records := h.records.insert k record, tickets := tickets } := by
  refine ⟨hh.opened, fun k' x hx => ?_⟩
  rw [GoMap.lookup_insert_eq] at hx
  split_ifs at hx with hk
  · subst hk
    exact Option.some.inj hx ▸ hr
  · exact hh.records k' x hx

theorem fail_ok {leaseID : ℕ} (h : RecordOk maxLeases n k record) :
    RecordOk maxLeases n k { record with controller := (record.controller.fail leaseID).1 } := by
  unfold Controller.fail
  split
  · exact h
  split
  · exact h
  · exact { h with keys := fun l hl => h.keys l (mem_of_mem_filter hl) }

theorem add_ok {key : ℕ} (h : RecordOk maxLeases n k record) (principal constellationID : ℕ) (hkey : key ≤ n) :
    RecordOk maxLeases n k { record with controller := (record.controller.add key principal constellationID).1 } := by
  unfold Controller.add
  split
  · exact h
  split
  · exact h
  split
  · exact h
  split
  · exact h
  refine { h with keys := fun l hl => ?_ }
  rcases mem_append.1 hl with hl | hl
  · exact h.keys l hl
  · rw [mem_singleton.1 hl]
    exact hkey

theorem new_ok {principal maxActive maxDraining key : ℕ} {c : Controller}
    (h : Controller.new principal k maxActive maxDraining key = .ok c) (hkey : key ≤ n) (now : ℕ) :
    RecordOk maxActive n k ⟨principal, c, now⟩ := by
  unfold Controller.new at h
  split at h
  · cases h
  simp only at h
  split at h
  · obtain rfl := Except.ok.inj h
    refine ⟨rfl, rfl, rfl, rfl, fun l hl => ?_⟩
    rw [mem_singleton.1 hl]
    exact hkey
  · cases h

section

variable (hh : HubOk n h)
include hh

theorem createPending_ok (now principal k transcript key : ℕ) (drawn : List ℕ)
    (hkey : key ≤ n) : HubOk n (h.createPending now principal k transcript key drawn).1 := by
  unfold Hub.createPending
  split
  · exact hh
  split
  · exact hh
  split
  · exact hh
  split
  · exact hh
  split
  · exact hh
  rename_i c hc
  split
  · exact ⟨hh.opened, hh.records⟩
  · exact hh.insert (new_ok hc hkey now)

theorem attachPending_ok (now ticket principal k transcript key : ℕ) (drawn : List ℕ)
    (hkey : key ≤ n) : HubOk n (h.attachPending now ticket principal k transcript key drawn).1 := by
  unfold Hub.attachPending
  split
  · exact hh
  split
  · exact hh
  split
  · exact hh
  rename_i record hr
  split
  · exact hh
  have hadd := add_ok (hh.records k record hr) principal k hkey
  split
  · exact hh
  rename_i c leaseID hc
  rw [hc] at hadd
  split
  · exact hh.insert (fail_ok hadd)
  · exact hh.insert { hadd with }

theorem abortAdmission_ok (now : ℕ) (a : Attachment) : HubOk n (h.abortAdmission now a).1 := by
  unfold Hub.abortAdmission
  split
  · exact hh
  · exact ⟨hh.opened, hh.records⟩
  · exact ⟨hh.opened, hh.records⟩

theorem discard_ok (id leaseID : ℕ) : HubOk n (h.discard id leaseID) := by
  unfold Hub.discard
  split
  · exact hh
  split
  · exact hh
  refine ⟨hh.opened, fun k record hr => ?_⟩
  rw [GoMap.lookup_erase_eq] at hr
  split_ifs at hr
  exact hh.records k record hr

theorem releaseFail_ok (id leaseID : ℕ) : HubOk n (h.releaseFail id leaseID).1 := by
  unfold Hub.releaseFail
  split
  · exact hh
  · exact hh.insert (fail_ok (hh.records _ _ ‹_›))

theorem releaseSeen_ok (now id : ℕ) : HubOk n (h.releaseSeen now id) := by
  unfold Hub.releaseSeen
  split
  · exact hh
  · have hr := hh.records _ _ ‹_›
    exact hh.insert { hr with }

theorem cleanup_ok (now : ℕ) : HubOk n (h.cleanup now) := by
  unfold Hub.cleanup
  split
  · exact hh
  refine ⟨hh.opened, fun k record hr => ?_⟩
  rw [GoMap.lookup_filter] at hr
  exact hh.records k record (Option.filter_eq_some_iff.1 hr).1

end

theorem cleanup_maxLeases (h : Hub) (now : ℕ) : (h.cleanup now).maxLeases = h.maxLeases := by
  unfold Hub.cleanup
  split <;> rfl

/-- a constellation with an active lease stays -/
theorem cleanup_active {now : ℕ} (hr : h.records.lookup k = some record)
    (ha : 1 ≤ record.controller.countState .active) : (h.cleanup now).records.lookup k = some record := by
  unfold Hub.cleanup
  split
  · exact hr
  rw [GoMap.lookup_filter, Option.filter_eq_some_iff]
  refine ⟨hr, ?_⟩
  have hne : record.controller.countState .active ≠ 0 := by omega
  simp [hne]

end

namespace St

/-! ## The condition -/

/-- the request is with the server or the answer on its way -/
def underWay (c : Carrier) : Bool :=
  c.response.isSome || match c.server with
    | .waiting | .sending _ false => true
    | _ => false

/-- what the condition asks of a step -/
def noLoss (w : St) : Op → Bool
  | .create _ id sent delivered => decide (id ∉ w.ids ∧ id ∉ w.others) && sent && delivered
  | .attach sent delivered => sent && delivered
  | .admitRequest _ drawn => decide (∀ t ∈ drawn, t ∉ w.issued.map Prod.fst)
  | .sendReturn s ok => ok || (w.carriers s).all fun c => !c.own
  | .giveUp => match w.phase with | .waiting s _ => (w.carriers s).all fun c => !underWay c | .idle => true
  | .lose s => (w.carriers s).all fun c => !c.own || !underWay c
  | _ => true

/-! ## The invariant -/

structure Steady (w : St) : Prop where
  hub : HubOk w.nextCarrier w.hub
  live : ∀ s c, w.carriers s = some c → c.own = true → underWay c = true → c.alive = true ∧ w.phase = .waiting s c.request
  leaseKey : w.client.leaseKey ≤ w.nextCarrier
  nextMessageID : firstContinuityMessageID ≤ w.client.nextMessageID
  sent : ∀ s c a, w.carriers s = some c → c.own = true → c.server = .sending a true →
    c.response = some (answer c.request a.ticket) ∨ a.ticket ∈ w.held

variable {w : St} {s principal : ℕ} {c : Carrier} {hub : Hub} {issued : List (ℕ × TicketRecord)}

theorem init_steady (h : HubOk 0 hub) : (init hub).Steady :=
  ⟨h, fun _ _ hc => (by cases hc), le_rfl, le_rfl, fun _ _ _ hc => (by cases hc)⟩

section

variable (h : w.Steady)
include h

/-- one carrier changes and no exchange begins on it -/
theorem Steady.setCarrier {c' : Carrier} (hc : w.carriers s = some c) (hhub : HubOk w.nextCarrier hub)
    (hown : c'.own = c.own) (hreq : c'.request = c.request)
    (hway : c.own = true → underWay c' = true → underWay c = true ∧ c'.alive = c.alive)
    (hsent : c.own = true → ∀ a, c'.server = .sending a true →
      c'.response = some (answer c.request a.ticket) ∨ a.ticket ∈ w.held) : (w.acted s c' hub issued).Steady := by
  refine ⟨hhub, fun s' x hx ho hu => ?_, h.leaseKey, h.nextMessageID, fun s' x a hx ho ha => ?_⟩ <;> by_cases hs : s' = s
  · subst hs
    cases acted_self.symm.trans hx
    obtain ⟨hu', halive⟩ := hway (hown ▸ ho) hu
    rw [halive, hreq]
    exact h.live s' c hc (hown ▸ ho) hu'
  · exact h.live s' x ((acted_other hs).symm.trans hx) ho hu
  · subst hs
    cases acted_self.symm.trans hx
    exact hreq ▸ hsent (hown ▸ ho) a ha
  · exact h.sent s' x a ((acted_other hs).symm.trans hx) ho ha

/-- a client in no exchange has none under way -/
theorem Steady.idle (hidle : w.phase = .idle) (hc : w.carriers s = some c)
    (ho : c.own = true) : underWay c = false := by
  by_contra hu
  obtain ⟨-, hph⟩ := h.live s c hc ho (by simpa using hu)
  rw [hidle] at hph
  cases hph

/-! ## Steps -/

/-- a request goes out on a new carrier -/
theorem Steady.newCarrier {client : ClientControl} {phase : Phase} {ids others : List ℕ}
    (hstay : ∀ s x, w.carriers s = some x → x.own = true → underWay x = true → phase = w.phase)
    (hc : c.own = true → c.alive = true ∧ phase = .waiting w.nextCarrier c.request) (hserver : c.server = .waiting)
    (hkey : client.leaseKey = w.client.leaseKey) (hid : firstContinuityMessageID ≤ client.nextMessageID) :
    (w.requested c client phase ids others).Steady := by
  refine ⟨h.hub.mono (Nat.le_succ _), fun s x hx ho hu => ?_, hkey.le.trans (h.leaseKey.trans (Nat.le_succ _)), hid,
    fun s x a hx ho ha => ?_⟩ <;> by_cases hs : s = w.nextCarrier
  · subst hs
    cases (update_self ..).symm.trans hx
    exact hc ho
  · have hx := (update_of_ne hs ..).symm.trans hx
    obtain ⟨halive, hph⟩ := h.live s x hx ho hu
    exact ⟨halive, (hstay s x hx ho hu).trans hph⟩
  · subst hs
    cases (update_self ..).symm.trans hx
    cases hserver.symm.trans ha
  · exact h.sent s x a ((update_of_ne hs ..).symm.trans hx) ho ha

theorem send_steady (hidle : w.phase = .idle) (principal : ℕ) (request : Frame) {client : ClientControl}
    {ids : List ℕ} (hkey : client.leaseKey = w.client.leaseKey) (hid : firstContinuityMessageID ≤ client.nextMessageID) :
    (({ w with client := client, ids := ids } : St).send principal request true true).Steady := by
  refine h.newCarrier (fun s x hx ho hu => ?_) (fun _ => ⟨rfl, rfl⟩) rfl hkey hid
  rw [h.idle hidle hx ho] at hu
  cases hu

theorem create_steady (principal : ℕ) (forwardSecret : Bool) (id : ℕ) :
    (w.create principal forwardSecret id true true).Steady := by
  obtain ⟨n, hn, hle⟩ := startMessageID_eq w.client forwardSecret
  unfold create
  split_ifs with hph
  · exact h
  have hidle : w.phase = .idle := not_not.1 hph
  have hstart : ({ w with client := startMessageID w.client forwardSecret } : St).Steady :=
    { h with leaseKey := hn ▸ h.leaseKey, nextMessageID := hn ▸ h.nextMessageID.trans hle }
  simp only
  split_ifs
  · exact hstart
  split
  · exact hstart
  rename_i messageID client hm
  obtain ⟨rfl, hid⟩ := takeMessageID_eq hm
  exact send_steady h hidle principal _ (hn ▸ rfl) (hid.trans (Nat.le_succ _))

theorem attach_steady (principal : ℕ) : (w.attach principal true true).Steady := by
  unfold attach
  split_ifs with hph
  · exact h
  have hidle : w.phase = .idle := by
    by_contra hne
    exact hph (.inl hne)
  split
  · exact h
  rename_i messageID client hm
  obtain ⟨rfl, hid⟩ := takeMessageID_eq hm
  exact send_steady h hidle principal _ rfl (hid.trans (Nat.le_succ _))

omit h in
theorem lt_nextCarrier (h : w.Inv principal) (hc : w.carriers s = some c) : s < w.nextCarrier := by
  by_contra hge
  rw [h.fresh s (not_lt.1 hge)] at hc
  cases hc

theorem receive_steady (hi : w.Inv principal) : w.receive.Steady := by
  rcases hi.receive_cases with hx | ⟨s, c, fr, hc, ho, hfr, hph, hx⟩ <;> rw [hx]
  · exact h
  have hkey : key s ≤ w.nextCarrier := lt_nextCarrier hi hc
  refine ⟨h.hub, fun s' x hx hox hu => ?_, hkey, h.nextMessageID, fun s' x a hx hox ha => ?_⟩ <;>
    by_cases hs : s' = s
  · -- the answer is read: the exchange was the only one under way
    subst hs
    cases (update_self ..).symm.trans hx
    have hquiet := (hi.carriers s' c hc).quiet
    rw [hfr] at hquiet
    rcases hserver : c.server with _ | ⟨a, _ | _⟩ | _ | _ | _ | _
    · cases hquiet (.inl hserver)
    · cases hquiet (.inr ⟨a, hserver⟩)
    all_goals simp [underWay, hserver] at hu
  · obtain ⟨-, hph'⟩ := h.live s' x ((update_of_ne hs ..).symm.trans hx) hox hu
    exact absurd (Phase.waiting.inj (hph'.symm.trans hph)).1 hs
  · subst hs
    cases (update_self ..).symm.trans hx
    refine .inr (mem_append.2 ((h.sent s' c a hc ho ha).symm.imp_right fun hr => ?_))
    cases hfr.symm.trans hr
    exact mem_singleton_self _
  · exact (h.sent s' x a ((update_of_ne hs ..).symm.trans hx) hox ha).imp_right (mem_append_left _)

theorem giveUp_steady (hg : w.noLoss .giveUp = true) : w.giveUp.Steady := by
  refine { h with live := fun s c hc ho hu => ?_ }
  obtain ⟨-, hph⟩ := h.live s c hc ho hu
  simp [noLoss, hph, show w.carriers s = some c from hc, hu] at hg

theorem admitRequest_steady (hi : w.Inv principal) (s : ℕ) (drawn : List ℕ) :
    (w.admitRequest s drawn).Steady := by
  refine onCarrier_of h fun c hc => ?_
  have hkey : key s ≤ w.nextCarrier := lt_nextCarrier hi hc
  split
  · exact h
  rename_i hw
  have hserver : c.server = .waiting := by
    by_contra hne
    exact hw (.inl hne)
  have hway : underWay c = true := by simp [underWay, hserver]
  split
  · exact h.setCarrier hc h.hub rfl rfl (fun _ _ => ⟨hway, rfl⟩) fun _ _ => nofun
  extract_lets x
  have hhub : HubOk w.nextCarrier x.1 := by
    unfold x
    split
    · exact createPending_ok h.hub _ _ _ _ _ _ hkey
    · exact attachPending_ok h.hub _ _ _ _ _ _ _ hkey
    · exact h.hub
  rcases x with ⟨hub, e | a⟩ <;> exact h.setCarrier hc hhub rfl rfl (fun _ _ => ⟨hway, rfl⟩) fun _ _ => nofun

theorem put_steady (s : ℕ) : (w.put s).Steady := by
  refine onCarrier_of h fun c hc => ?_
  split
  · rename_i a ha
    have hway : underWay c = true := by simp [underWay, ha]
    refine h.setCarrier hc h.hub rfl rfl (fun _ _ => ⟨hway, rfl⟩) fun ho a' hs => .inl ?_
    obtain rfl : a = a' := by simpa using hs
    exact if_pos (h.live s c hc ho hway).1
  · exact h

/-- the session of a carrier goes on and no longer admits -/
theorem Steady.setServer (hc : w.carriers s = some c) {server : Serving} (hhub : HubOk w.nextCarrier hub)
    (hnew : server ≠ .waiting ∧ server.sends = false) : (w.acted s { c with server := server } hub issued).Steady := by
  refine h.setCarrier hc hhub rfl rfl (fun _ hu => ⟨?_, rfl⟩) fun _ a ha => absurd ha (not_sends hnew.2 a true)
  obtain ⟨hwait, hsend⟩ := hnew
  rcases server with _ | ⟨a, put⟩ | _ | _ | _ | _
  · exact absurd rfl hwait
  · cases hsend
  all_goals
    have hr : c.response.isSome = true := by simpa [underWay] using hu
    simp [underWay, hr]

theorem sendReturn_steady (s : ℕ) (ok : Bool) : (w.sendReturn s ok).Steady := by
  refine onCarrier_of h fun c hc => ?_
  split
  · rename_i a put ha
    split_ifs
    · exact h.setServer hc h.hub ⟨nofun, rfl⟩
    · exact h
    · exact h.setServer hc (abortAdmission_ok h.hub _ a) ⟨nofun, rfl⟩
  · exact h

theorem close_steady (s : ℕ) : (w.close s).Steady := by
  refine onCarrier_of h fun c hc => ?_
  split
  · exact h.setServer hc h.hub ⟨nofun, rfl⟩
  · exact h

theorem release_steady (s : ℕ) : (w.release s).Steady := by
  refine onCarrier_of h fun c hc => ?_
  split
  · exact h.setServer hc (discard_ok h.hub _ _) ⟨nofun, rfl⟩
  · refine h.setServer hc (releaseFail_ok h.hub _ _) ?_
    split <;> exact ⟨nofun, rfl⟩
  · exact h.setServer hc (releaseSeen_ok h.hub _ _) ⟨nofun, rfl⟩
  · exact h

theorem lose_steady (s : ℕ) (hg : w.noLoss (.lose s) = true) : (w.lose s).Steady := by
  refine onCarrier_of h fun c hc => ?_
  have hnot : c.own = true → underWay c = false := by
    intro ho
    simpa [noLoss, hc, ho] using hg
  refine h.setCarrier hc h.hub rfl rfl (fun ho hu => ?_) fun ho a ha => ?_
  · have hway : underWay c = true := by
      have hserver := hu
      simp only [underWay, Option.isSome_none, Bool.false_or] at hserver
      simp [underWay, hserver]
    cases hway.symm.trans (hnot ho)
  · refine (h.sent s c a hc ho ha).imp_left fun hr => ?_
    have hx := hnot ho
    simp [underWay, hr] at hx

theorem foreign_steady (p : ℕ) (request : Frame) : (w.foreign principal p request).Steady := by
  unfold foreign
  split_ifs
  · exact h
  all_goals exact h.newCarrier (fun _ _ _ _ _ => rfl) nofun rfl rfl h.nextMessageID

/-! ## Runs -/

end

/-- no answer is in flight where nothing is under way -/
theorem not_committed (hc : w.carriers s = some c) (hu : c.own = true → underWay c = false) : w.committed s = false := by
  rw [committed_of hc]
  cases ho : c.own with
  | false => simp [inFlight, ho]
  | true =>
    have hr : c.response.isSome = false := (Bool.or_eq_false_iff.1 (hu ho)).1
    simp [inFlight, hr]

section

variable (w : St) (o : Op) (h : w.Steady) (hi : w.Inv principal) (hg : w.noLoss o = true)
include h hi hg

theorem step_steady : (step principal w o).Steady := by
  cases o with
  | tick d => exact { h with }
  | create forwardSecret id sent delivered =>
    obtain ⟨⟨-, rfl⟩, rfl⟩ : (_ ∧ sent = true) ∧ delivered = true := by simpa [noLoss] using hg
    exact create_steady h principal forwardSecret id
  | attach sent delivered =>
    obtain ⟨rfl, rfl⟩ : sent = true ∧ delivered = true := by simpa [noLoss] using hg
    exact attach_steady h principal
  | receive => exact receive_steady h hi
  | giveUp => exact giveUp_steady h hg
  | admitRequest s drawn => exact admitRequest_steady h hi s drawn
  | put s => exact put_steady h s
  | sendReturn s ok => exact sendReturn_steady h s ok
  | close s => exact close_steady h s
  | release s => exact release_steady h s
  | cleanup => exact { h with hub := cleanup_ok h.hub _ }
  | lose s => exact lose_steady h s hg
  | foreign p request => exact foreign_steady h p request

/-- without losses every answer arrives -/
theorem step_inv_noLoss : (step principal w o).Inv principal := by
  cases o with
  | create forwardSecret id sent delivered =>
    refine step_inv w _ hi ?_
    simp only [noLoss, Bool.and_eq_true] at hg
    exact hg.1.1
  | admitRequest s drawn => exact step_inv w _ hi hg
  | sendReturn s ok =>
    refine step_inv w _ hi ?_
    cases hc : w.carriers s with
    | none => simp [answersArrive, hc]
    | some c =>
      cases ho : c.own with
      | false => simp [answersArrive, hc, ho]
      | true =>
        obtain rfl : ok = true := by simpa [noLoss, hc, ho] using hg
        simp only [answersArrive, hc, ho, Option.all_some, Bool.not_true, Bool.false_or]
        split
        · -- the answer is in flight or taken
          rename_i a ha
          rcases h.sent s c a hc ho ha with hr | hheld
          · simp [inFlight_of ho hr (h.live s c hc ho (by simp [underWay, hr])).2]
          · simp [hheld]
        · rfl
  | giveUp =>
    refine step_inv w _ hi ?_
    cases hph : w.phase with
    | idle => simp [answersArrive, hph]
    | waiting s request =>
      obtain ⟨c, hc, -⟩ := hi.waiting s request hph
      have hu : underWay c = false := by simpa [noLoss, hph, hc] using hg
      simp [answersArrive, hph, not_committed hc fun _ => hu]
  | lose s =>
    refine step_inv w _ hi ?_
    cases hc : w.carriers s with
    | none => simp [answersArrive, committed, hc]
    | some c =>
      have hu := not_committed hc fun ho => by simpa [noLoss, hc, ho] using hg
      simp [answersArrive, hu]
  | tick _ | attach _ _ | receive | put _ | close _ | release _ | cleanup | foreign _ _ => exact step_inv w _ hi rfl

end

theorem run_steady (principal : ℕ) (hub : Hub) (hopen : hub.tickets.closed = false)
    (hempty : ∀ t, hub.tickets.tickets.lookup t = none) (hhub : HubOk 0 hub) (ops : List Op)
    (hg : Machine.Guarded (step principal) (fun w o => w.noLoss o = true) (init hub) ops) :
    (run principal (init hub) ops).Steady ∧ (run principal (init hub) ops).Inv principal :=
  Machine.run_inv_guarded (I := fun w => w.Steady ∧ w.Inv principal)
    (fun w o h hg => ⟨step_steady w o h.1 h.2 hg, step_inv_noLoss w o h.1 h.2 hg⟩)
    ⟨init_steady hhub, init_inv principal hub hopen hempty⟩ ops hg

/-! ## One more carrier -/

/-- a carrier is added: the request arrives, the server cleans up and admits, the answer arrives -/
def attachExchange (n : ℕ) (drawn : List ℕ) : List Op :=
  [.attach true true, .cleanup, .admitRequest n drawn, .put n, .sendReturn n true, .receive]

/-- `Attach` returns nil: the client has taken the lease key of the new session -/
def attachSucceeds (principal : ℕ) (w : St) (drawn : List ℕ) : Prop :=
  (run principal w (attachExchange w.nextCarrier drawn)).client.leaseKey = key w.nextCarrier

instance (principal : ℕ) (w : St) (drawn : List ℕ) : Decidable (attachSucceeds principal w drawn) := by
  unfold attachSucceeds
  infer_instance

/-- the server's answer to the exchange -/
def admission (principal : ℕ) (w : St) (drawn : List ℕ) : Hub × Except HubErr Attachment :=
  (w.hub.cleanup w.now).attachPending w.now w.client.ticket principal w.client.constellationID (key w.nextCarrier)
    (key w.nextCarrier) drawn

/-- the exchange ends with the answer of the hub -/
theorem attachSucceeds_iff {drawn : List ℕ} (h : w.Steady) (hi : w.Inv principal)
    (hidle : w.phase = .idle) (hready : w.client.ready = true) : attachSucceeds principal w drawn ↔
      w.client.nextMessageID < maxSequence ∧ ∃ hub a, admission principal w drawn = (hub, .ok a) ∧ a.ticket ≠ 0 := by
  obtain ⟨hk0, ht0⟩ := of_decide_eq_true hready
  have hfirst : ¬w.client.nextMessageID < firstContinuityMessageID := h.nextMessageID.not_gt
  have hkey : w.client.leaseKey ≠ key w.nextCarrier := (Nat.lt_succ_of_le h.leaseKey).ne
  have hnone := hi.fresh w.nextCarrier le_rfl
  rcases lt_trichotomy w.client.nextMessageID maxSequence with hlt | heq | hgt
  · rcases hadm : admission principal w drawn with ⟨hub, e | a⟩
    · -- refused: the session is closed without an answer
      unfold admission at hadm
      simp [attachSucceeds, run, attachExchange, step, attach, hidle, hk0, ht0, takeMessageID, hfirst, hlt.not_gt, send,
        admitRequest, onCarrier, setCarrier, put, sendReturn, receive, hlt.not_ge, hadm, hkey]
    · have hrun : (run principal w (attachExchange w.nextCarrier drawn)).client.leaseKey =
          if a.ticket = 0 then w.client.leaseKey else key w.nextCarrier := by
        unfold admission at hadm
        simp [run, attachExchange, step, attach, hidle, hk0, ht0, takeMessageID, hfirst, hlt.not_gt, send, admitRequest,
          onCarrier, setCarrier, put, sendReturn, receive, hlt.not_ge, hadm, answer]
        split_ifs <;> rfl
      by_cases hz : a.ticket = 0
      · simp [attachSucceeds, hrun, hkey, hz]
      · simp [attachSucceeds, hrun, hz, hlt]
  · -- the last ID: the server refuses the request
    simp [attachSucceeds, run, attachExchange, step, attach, hidle, hk0, ht0, takeMessageID, heq, send, admitRequest,
      onCarrier, setCarrier, put, sendReturn, receive, heq ▸ hfirst, hkey]
  · -- no ID is left: the client sends nothing
    simp [attachSucceeds, run, attachExchange, step, attach, hidle, hk0, ht0, takeMessageID, hgt, admitRequest, onCarrier,
      hnone, put, sendReturn, receive, hkey, hgt.not_gt]

/-- a lease of an active constellation with room, whose key is new -/
theorem add_fresh {maxLeases n k : ℕ} {record : HubRecord} (h : RecordOk maxLeases n k record)
    (hroom : record.controller.countState .active < maxLeases) :
    ∃ c leaseID, record.controller.add (key n) record.principal k = (c, .ok leaseID) := by
  have hv : record.controller.validateCandidate (key n) record.principal k = true :=
    decide_eq_true ⟨Nat.succ_ne_zero n, h.principal.symm, h.constellationID.symm⟩
  have hdup : ¬∃ l ∈ record.controller.leases, l.key = key n := by
    rintro ⟨l, hl, hk⟩
    exact absurd (h.keys l hl) (by rw [hk]; exact (Nat.lt_succ_self n).not_ge)
  have hcap : ¬record.controller.maxActive ≤ record.controller.countState .active := by
    rw [h.maxActive]
    exact hroom.not_ge
  unfold Controller.add
  rw [if_neg (by simp [hv]), if_neg (by simp [h.opened]), if_neg hdup, if_neg hcap]
  exact ⟨_, _, rfl⟩

/-- the hub admits exactly when the registry rotates the ticket -/
theorem attachPending_iff {n now ticket k : ℕ} {drawn : List ℕ} {h : Hub} {record : HubRecord} (hh : HubOk n h)
    (hr : h.records.lookup k = some record) (hp : record.principal = principal)
    (hroom : record.controller.countState .active < h.maxLeases) (hp0 : principal ≠ 0) (hk0 : k ≠ 0) :
    (∃ h' a, h.attachPending now ticket principal k (key n) (key n) drawn = (h', .ok a) ∧ a.ticket ≠ 0) ↔
      ∃ next grant, (h.tickets.rotate now ticket principal k (key n) drawn).2 = .ok (next, grant) := by
  obtain ⟨c, leaseID, hadd⟩ := add_fresh (hh.records k record hr) hroom
  rw [hp] at hadd
  have hv : Hub.validLease principal k (key n) (key n) = true :=
    decide_eq_true ⟨hp0, hk0, Nat.succ_ne_zero n, Nat.succ_ne_zero n⟩
  unfold Hub.attachPending
  rw [if_neg (by simp [hv]), if_neg (by simp [hh.opened]), hr]
  simp only [hp, ne_eq, not_true_eq_false, if_false, hadd]
  have hrot := h.tickets.rotate_cases now ticket principal k (key n) drawn
  generalize h.tickets.rotate now ticket principal k (key n) drawn = x at hrot ⊢
  cases hrot with
  | refused _ => simp
  | rotated _ _ _ _ _ _ hn0 _ => simp [hn0]

/-- **Attach.** In every state without losses in which the client is ready and at rest, one of its leases is active and there
is room for one more, an attach succeeds exactly while the ticket has not expired and message IDs are left. -/
theorem attach_iff_unexpired (principal maxConstellations maxLeases maxDraining inactiveTTL maxTickets ttl : ℕ)
    (ops : List Op) (drawn : List ℕ) (record : HubRecord)
    (hg : Machine.Guarded (step principal) (fun w o => w.noLoss o = true)
      (init (Hub.new maxConstellations maxLeases maxDraining inactiveTTL maxTickets ttl)) ops) :
    let w := run principal (init (Hub.new maxConstellations maxLeases maxDraining inactiveTTL maxTickets ttl)) ops
    w.quiescent = true → w.client.ready = true → w.hub.records.lookup w.client.constellationID = some record →
      record.principal = principal → 1 ≤ record.controller.countState .active →
      record.controller.countState .active < w.hub.maxLeases →
      (w.hub.tickets.cleanup w.now).newTicket drawn ≠ none →
      (attachSucceeds principal w drawn ↔ w.unexpired ∧ w.client.nextMessageID < maxSequence) := by
  intro w hq hready hrec hp hactive hroom hdrawn
  obtain ⟨h, hi⟩ : w.Steady ∧ w.Inv principal :=
    run_steady principal _ rfl (fun t => rfl) (new_hubOk ..) ops hg
  obtain ⟨hk0, ht0⟩ := of_decide_eq_true hready
  obtain ⟨hidle, -⟩ := of_decide_eq_true hq
  rcases hi.client with ⟨hzero, -⟩ | ⟨ticket, hissued, htp, htk, -, -, hst⟩
  · exact absurd hzero hk0
  have hgood := hi.at_rest hq hst
  have hp0 : principal ≠ 0 := htp ▸ (hi.valid _ _ hissued).2.1
  have hcl : (w.hub.cleanup w.now).tickets = w.hub.tickets := cleanup_tickets w.hub w.now
  rw [attachSucceeds_iff h hi hidle hready, and_comm]
  refine and_congr_left fun _ => ?_
  unfold admission
  rw [attachPending_iff (cleanup_ok h.hub w.now) (cleanup_active hrec hactive) hp
    (by rw [cleanup_maxLeases]; exact hroom) hp0 hk0, hcl]
  constructor
  · rintro ⟨next, grant, hrot⟩
    have hcases := w.hub.tickets.rotate_cases w.now w.client.ticket principal w.client.constellationID (key w.nextCarrier) drawn
    generalize w.hub.tickets.rotate w.now w.client.ticket principal w.client.constellationID (key w.nextCarrier) drawn = x
      at hcases hrot
    cases hcases with
    | refused _ => cases hrot
    | @rotated _ x _ hx hlt => exact ⟨x, hi.registered _ _ hx, hlt⟩
  · rintro ⟨x, hx, hlt⟩
    obtain rfl := hi.unique _ _ _ hx hissued
    have hreg := hgood.resolve_right hlt.not_ge
    obtain ⟨next, hnext⟩ :=
      TicketRegistry.rotate_ok hi.opened hreg hlt ht0 hp0 hk0 htp htk (Nat.succ_ne_zero w.nextCarrier) hdrawn
    exact ⟨next, _, hnext⟩

/-- another carrier of the client's is added while the ticket is young -/
theorem attach_iff_unexpired_created :
    let w := run 1 (init productionHub) created
    w.quiescent = true ∧ w.client.ready = true ∧ attachSucceeds 1 w [12] := by
  refine ⟨by decide, by decide, ?_⟩
  have hiff := attach_iff_unexpired 1 100 3 3 (300 * second) 300 (60 * second) created [12]
    ⟨1, ⟨1, 5, 3, 3, 2, 1, [⟨1, 1, .active⟩], false⟩, 0⟩ (by decide) (by decide) (by decide) (by decide) rfl (by decide)
    (by decide) (by decide)
  exact hiff.2 ⟨by decide, by decide⟩

/-- **A minute later.** The primary lease is still active and there is room for two more, but the ticket has expired, and no
exchange but an attach could renew it. -/
theorem attach_refused_after_a_minute :
    let w := run 1 (init productionHub) (created ++ [.tick (60 * second)])
    w.quiescent = true ∧ w.client.ready = true ∧
      (∃ record, w.hub.records.lookup w.client.constellationID = some record ∧ record.principal = 1 ∧
        1 ≤ record.controller.countState .active ∧ record.controller.countState .active < w.hub.maxLeases) ∧
      (w.hub.tickets.cleanup w.now).newTicket [12] ≠ none ∧ ¬attachSucceeds 1 w [12] :=
  ⟨by decide, by decide, ⟨⟨1, ⟨1, 5, 3, 3, 2, 1, [⟨1, 1, .active⟩], false⟩, 0⟩, by decide⟩, by decide, by decide⟩

end St

end NeProto.Constellation
