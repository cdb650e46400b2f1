/-
The server's lease tickets (`internal/continuity/ticket.go`). Identifiers, transcripts and tickets are numbers and 0 is the
zero value; `now` is what the registry's clock reads, and random tickets come in as the list of draws (a list that ends
early is a failing random source). What the source does under one lock is one function.

- `Edited`: what has expired goes, and besides an operation removes at most one ticket and writes at most one.
- `issue_cases`, `rotate_cases`, `rollback_cases`, `revoke_cases`: everything these operations can do.
- `rotate_ok`: a ticket that is registered, unexpired and bound is accepted.
-/
import NeProto.Lib.GoMap

namespace NeProto.Continuity

inductive TicketErr where
  | binding
  | closed
  | capacity
  | entropy
  | invalid
deriving DecidableEq

structure TicketGrant where
  constellationID : ℕ
  issuerTranscript : ℕ
  expiresAt : ℕ
deriving DecidableEq

structure TicketRecord where
  principal : ℕ
  constellationID : ℕ
  issuerTranscript : ℕ
  expiresAt : ℕ
deriving DecidableEq

structure TicketRegistry where
  maxTickets : ℕ
  ttl : ℕ
  tickets : GoMap TicketRecord
  closed : Bool

/-- `maxTicketAttempts` -/
def maxTicketAttempts : ℕ := 8

/-- `grantFromRecord` -/
def TicketRecord.grant (r : TicketRecord) : TicketGrant := ⟨r.constellationID, r.issuerTranscript, r.expiresAt⟩

namespace TicketRegistry

/-- `NewTicketRegistry` with limits it accepts -/
def new (maxTickets ttl : ℕ) : TicketRegistry := ⟨maxTickets, ttl, ∅, false⟩

variable (r : TicketRegistry)

/-- `cleanupLocked` -/
def cleanup (now : ℕ) : TicketRegistry :=
  { r with tickets := GoMap.filter r.tickets fun _ record => decide (now < record.expiresAt) }

/-- `newTicketLocked` -/
def newTicket (drawn : List ℕ) : Option ℕ :=
  (drawn.take maxTicketAttempts).find? fun t => t ≠ 0 ∧ r.tickets.lookup t = none

/-- the record of the ticket, when it is bound to this principal and constellation -/
def bound (ticket principal constellationID : ℕ) : Option TicketRecord :=
  (r.tickets.lookup ticket).filter fun record => ticket ≠ 0 ∧ principal ≠ 0 ∧ constellationID ≠ 0 ∧
    record.principal = principal ∧ record.constellationID = constellationID

def issue (now principal constellationID issuerTranscript : ℕ) (drawn : List ℕ) :
    TicketRegistry × Except TicketErr ℕ :=
  if principal = 0 ∨ constellationID = 0 ∨ issuerTranscript = 0 then (r, .error .binding)
  else if r.closed then (r, .error .closed)
  else
    let r := r.cleanup now
    if r.maxTickets ≤ r.tickets.size then (r, .error .capacity)
    else match r.newTicket drawn with
      | none => (r, .error .entropy)
      | some ticket =>
        ({ r with tickets := r.tickets.insert ticket ⟨principal, constellationID, issuerTranscript, now + r.ttl⟩ }, .ok ticket)

def rotate (now ticket principal constellationID newIssuerTranscript : ℕ) (drawn : List ℕ) :
    TicketRegistry × Except TicketErr (ℕ × TicketGrant) :=
  if newIssuerTranscript = 0 then (r, .error .binding)
  else if r.closed then (r, .error .closed)
  else
    let r := r.cleanup now
    match r.bound ticket principal constellationID with
    | none => (r, .error .invalid)
    | some record =>
      match r.newTicket drawn with
      | none => (r, .error .entropy)
      | some next =>
        ({ r with tickets := (r.tickets.erase ticket).insert next
                    ⟨principal, constellationID, newIssuerTranscript, now + r.ttl⟩ }, .ok (next, record.grant))

def rollbackRotate (now current next principal constellationID : ℕ) (currentGrant : TicketGrant) :
    TicketRegistry × Except TicketErr Unit :=
  if current = 0 ∨ next = 0 ∨ principal = 0 ∨ constellationID = 0 ∨ currentGrant.issuerTranscript = 0 ∨
      currentGrant.constellationID ≠ constellationID then (r, .error .binding)
  else if r.closed then (r, .error .closed)
  else
    let r := r.cleanup now
    match r.bound next principal constellationID, r.tickets.lookup current with
    | some _, none =>
      if now < currentGrant.expiresAt then
        ({ r with tickets := (r.tickets.erase next).insert current
                    ⟨principal, constellationID, currentGrant.issuerTranscript, currentGrant.expiresAt⟩ }, .ok ())
      else (r, .error .invalid)
    | _, _ => (r, .error .invalid)

def revoke (now ticket principal constellationID : ℕ) : TicketRegistry × Bool :=
  if ticket = 0 ∨ principal = 0 ∨ constellationID = 0 ∨ r.closed then (r, false)
  else
    let r := r.cleanup now
    match r.bound ticket principal constellationID with
    | none => (r, false)
    | some _ => ({ r with tickets := r.tickets.erase ticket }, true)

/-! ## What an operation can do -/

/-- beside what has expired the ticket `gone` goes, and `new` is written -/
structure Edited (now : ℕ) (r r' : TicketRegistry) (gone : Option ℕ) (new : Option (ℕ × TicketRecord)) : Prop where
  old : ∀ t record, r'.tickets.lookup t = some record → r.tickets.lookup t = some record ∨ new = some (t, record)
  live : ∀ t record, gone ≠ some t → now < record.expiresAt → r.tickets.lookup t = some record →
    r'.tickets.lookup t = some record
  self : ∀ t record, new = some (t, record) → r'.tickets.lookup t = some record
  closed : r'.closed = r.closed
  ttl : r'.ttl = r.ttl

variable {r} {k : TicketRegistry} {now principal constellationID : ℕ} {record : TicketRecord}

theorem Edited.refl (now : ℕ) (r : TicketRegistry) : Edited now r r none none :=
  ⟨fun _ _ => .inl, fun _ _ _ _ => id, nofun, rfl, rfl⟩

theorem cleanup_edited (r : TicketRegistry) (now : ℕ) : Edited now r (r.cleanup now) none none where
  old := fun t record h => by
    change (GoMap.filter _ _).lookup t = _ at h
    rw [GoMap.lookup_filter] at h
    exact .inl (Option.filter_eq_some_iff.1 h).1
  live := fun t record _ hlt h => by
    change (GoMap.filter _ _).lookup t = _
    rw [GoMap.lookup_filter, Option.filter_eq_some_iff]
    exact ⟨h, decide_eq_true hlt⟩
  self := nofun
  closed := rfl
  ttl := rfl

theorem cleanup_live {t : ℕ} (h : (r.cleanup now).tickets.lookup t = some record) : now < record.expiresAt := by
  change (GoMap.filter _ _).lookup t = _ at h
  rw [GoMap.lookup_filter] at h
  exact of_decide_eq_true (Option.filter_eq_some_iff.1 h).2

theorem bound_eq_some {ticket : ℕ} :
    r.bound ticket principal constellationID = some record ↔ r.tickets.lookup ticket = some record ∧ ticket ≠ 0 ∧
      principal ≠ 0 ∧ constellationID ≠ 0 ∧ record.principal = principal ∧ record.constellationID = constellationID := by
  simp [bound, Option.filter_eq_some_iff]

theorem newTicket_spec {drawn : List ℕ} {t : ℕ} (h : r.newTicket drawn = some t) :
    t ∈ drawn ∧ t ≠ 0 ∧ r.tickets.lookup t = none := by
  have hp := List.find?_some h
  exact ⟨List.mem_of_mem_take (List.mem_of_find?_eq_some h), by simpa using hp⟩

theorem Edited.erase (h : Edited now r k none none) (t : ℕ) :
    Edited now r { k with tickets := k.tickets.erase t } (some t) none where
  old := fun t' record' hl => by
    rw [GoMap.lookup_erase_eq] at hl
    split_ifs at hl
    exact h.old t' record' hl
  live := fun t' record' hne hlt hl =>
    (AList.lookup_erase_ne fun he : t' = t => hne (congrArg some he.symm)).trans (h.live t' record' nofun hlt hl)
  self := nofun
  closed := h.closed
  ttl := h.ttl

/-- a ticket that is not there is written -/
theorem Edited.insert {gone : Option ℕ} (h : Edited now r k gone none) {t : ℕ} (hnone : k.tickets.lookup t = none)
    (record : TicketRecord) : Edited now r { k with tickets := k.tickets.insert t record } gone (some (t, record)) where
  old := fun t' record' hl => by
    rw [GoMap.lookup_insert_eq] at hl
    split_ifs at hl with he
    · exact .inr (by rw [he, Option.some.inj hl])
    · exact .inl ((h.old t' record' hl).resolve_right nofun)
  live := fun t' record' hne hlt hl => by
    have hk := h.live t' record' hne hlt hl
    refine (AList.lookup_insert_ne ?_).trans hk
    rintro rfl
    cases hnone.symm.trans hk
  self := fun t' record' he => by
    cases he
    exact AList.lookup_insert _
  closed := h.closed
  ttl := h.ttl

theorem lookup_erase_none {t : ℕ} (h : r.tickets.lookup t = none) (ticket : ℕ) : (r.tickets.erase ticket).lookup t = none := by
  rw [GoMap.lookup_erase_eq, h, ite_self]

section Cases

variable (r : TicketRegistry) (now ticket current next principal constellationID transcript : ℕ) (drawn : List ℕ)
  (grant : TicketGrant)

inductive Issued : TicketRegistry × Except TicketErr ℕ → Prop where
  | refused {r' : TicketRegistry} {e : TicketErr} (h : Edited now r r' none none) : Issued (r', .error e)
  | issued {r' : TicketRegistry} {t : ℕ} (hd : t ∈ drawn) (h0 : t ≠ 0)
    (h : Edited now r r' none (some (t, ⟨principal, constellationID, transcript, now + r.ttl⟩))) :
    Issued (r', .ok t)

theorem issue_cases : Issued r now principal constellationID transcript drawn
      (r.issue now principal constellationID transcript drawn) := by
  have hk := cleanup_edited r now
  unfold issue
  split_ifs
  · exact .refused (.refl now r)
  · exact .refused (.refl now r)
  simp only
  split_ifs
  · exact .refused hk
  split
  · exact .refused hk
  rename_i t ht
  obtain ⟨hd, h0, hnone⟩ := newTicket_spec ht
  exact .issued hd h0 (hk.insert hnone _)

inductive Rotated : TicketRegistry × Except TicketErr (ℕ × TicketGrant) → Prop where
  | refused {r' : TicketRegistry} {e : TicketErr} (h : Edited now r r' none none) : Rotated (r', .error e)
  | rotated {r' : TicketRegistry} {record : TicketRecord} {next : ℕ}
    (hr : r.tickets.lookup ticket = some record) (hlt : now < record.expiresAt) (h0 : ticket ≠ 0)
    (hp : record.principal = principal) (hc : record.constellationID = constellationID) (hd : next ∈ drawn)
    (hn0 : next ≠ 0)
    (h : Edited now r r' (some ticket) (some (next, ⟨principal, constellationID, transcript, now + r.ttl⟩))) :
    Rotated (r', .ok (next, record.grant))

theorem rotate_cases : Rotated r now ticket principal constellationID transcript drawn
      (r.rotate now ticket principal constellationID transcript drawn) := by
  have hk := cleanup_edited r now
  unfold rotate
  split_ifs
  · exact .refused (.refl now r)
  · exact .refused (.refl now r)
  simp only
  split
  · exact .refused hk
  rename_i record hb
  obtain ⟨hl, h0, -, -, hp, hc⟩ := bound_eq_some.1 hb
  split
  · exact .refused hk
  rename_i next hn
  obtain ⟨hd, hn0, hnone⟩ := newTicket_spec hn
  exact .rotated ((hk.old _ _ hl).resolve_right nofun) (cleanup_live hl) h0 hp hc hd hn0
    ((hk.erase ticket).insert (lookup_erase_none hnone ticket) _)

inductive RolledBack : TicketRegistry × Except TicketErr Unit → Prop where
  | refused {r' : TicketRegistry} {e : TicketErr} (h : Edited now r r' none none) : RolledBack (r', .error e)
  | restored {r' : TicketRegistry} (h : Edited now r r' (some next)
      (some (current, ⟨principal, constellationID, grant.issuerTranscript, grant.expiresAt⟩))) :
    RolledBack (r', .ok ())

theorem rollback_cases : RolledBack r now current next principal constellationID grant
      (r.rollbackRotate now current next principal constellationID grant) := by
  have hk := cleanup_edited r now
  unfold rollbackRotate
  split
  · exact .refused (.refl now r)
  split
  · exact .refused (.refl now r)
  simp only
  split
  · rename_i hnone
    split
    · exact .restored ((hk.erase next).insert (lookup_erase_none hnone next) _)
    · exact .refused hk
  · exact .refused hk

inductive Revoked : TicketRegistry × Bool → Prop where
  | refused {r' : TicketRegistry} (h : Edited now r r' none none) : Revoked (r', false)
  | revoked {r' : TicketRegistry} (h : Edited now r r' (some ticket) none) : Revoked (r', true)

theorem revoke_cases : Revoked r now ticket (r.revoke now ticket principal constellationID) := by
  have hk := cleanup_edited r now
  unfold revoke
  split_ifs
  · exact .refused (.refl now r)
  simp only
  split
  · exact .refused hk
  · exact .revoked (hk.erase ticket)

end Cases

/-- **Rollback.** While the successor is registered and the consumed ticket is not and has not expired, it is restored. -/
theorem rollback_ok {current next : ℕ} {grant : TicketGrant}
    (hclosed : r.closed = false) (h0 : current ≠ 0 ∧ next ≠ 0 ∧ principal ≠ 0 ∧ constellationID ≠ 0)
    (hg : grant.issuerTranscript ≠ 0 ∧ grant.constellationID = constellationID) (hr : r.tickets.lookup next = some record)
    (hlt : now < record.expiresAt) (hb : record.principal = principal ∧ record.constellationID = constellationID)
    (hcur : r.tickets.lookup current = none) (hexp : now < grant.expiresAt) :
    (r.rollbackRotate now current next principal constellationID grant).2 = .ok () := by
  obtain ⟨hc0, hn0, hp0, hk0⟩ := h0
  have hb : (r.cleanup now).bound next principal constellationID = some record :=
    bound_eq_some.2 ⟨(cleanup_edited r now).live _ _ nofun hlt hr, hn0, hp0, hk0, hb⟩
  have hnone : (r.cleanup now).tickets.lookup current = none := by
    rw [Option.eq_none_iff_forall_ne_some]
    intro x hx
    rw [((cleanup_edited r now).old _ _ hx).resolve_right nofun] at hcur
    cases hcur
  simp [rollbackRotate, hclosed, hc0, hn0, hp0, hk0, hg, hb, hnone, hexp]

/-- **Rotate.** A ticket that is registered, unexpired and bound is accepted, whenever a new one can be drawn. -/
theorem rotate_ok {ticket transcript : ℕ} {drawn : List ℕ}
    (hclosed : r.closed = false) (hr : r.tickets.lookup ticket = some record)
    (hlt : now < record.expiresAt) (h0 : ticket ≠ 0) (hp0 : principal ≠ 0) (hc0 : constellationID ≠ 0)
    (hp : record.principal = principal) (hc : record.constellationID = constellationID) (ht : transcript ≠ 0)
    (hdrawn : (r.cleanup now).newTicket drawn ≠ none) :
    ∃ next, (r.rotate now ticket principal constellationID transcript drawn).2 = .ok (next, record.grant) := by
  obtain ⟨next, hnext⟩ := Option.ne_none_iff_exists'.1 hdrawn
  have hb : (r.cleanup now).bound ticket principal constellationID = some record :=
    bound_eq_some.2 ⟨(cleanup_edited r now).live _ _ nofun hlt hr, h0, hp0, hc0, hp, hc⟩
  exact ⟨next, by simp [rotate, ht, hclosed, hb, hnext]⟩

/-- the registry takes this ticket for this principal and constellation -/
def Accepts (r : TicketRegistry) (now ticket principal constellationID : ℕ) : Prop :=
  ∀ transcript drawn, transcript ≠ 0 → (r.cleanup now).newTicket drawn ≠ none →
    ∃ next grant, (r.rotate now ticket principal constellationID transcript drawn).2 = .ok (next, grant)

end TicketRegistry

end NeProto.Continuity
