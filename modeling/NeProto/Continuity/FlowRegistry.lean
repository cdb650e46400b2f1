/-
The server's registry of logical flows (`internal/continuity/flow.go`). Identifiers are numbers and 0 is the zero value
the source refuses; a map is a function together with its size. What the source does under one lock is one function.

- `attach_cases`, `step_effect`: everything an `Attach`, and any call, can do to the registry.
- `flows_accounted`: the counts and limits over every run, and what one call can do to a flow.
- `upstream_closed_once`: an upstream given to one `Create` only is closed at most once.
-/
import NeProto.Continuity.Journal
import NeProto.Lib.Bytes
import NeProto.Lib.Machine

namespace NeProto.Continuity

open Function List Machine

inductive FlowErr where
  | binding
  | registryClosed
  | notFound
  | capacity
  | conflict
  | entropy
deriving DecidableEq

structure FlowRecord where
  principal : ℕ
  constellationID : ℕ
  leaseKey : ℕ
  epoch : ℕ
  upstream : ℕ
deriving DecidableEq

structure FlowRegistry where
  maxFlows : ℕ
  maxFlowsPerPrincipal : ℕ
  flows : ℕ → Option FlowRecord
  /-- `len(r.flows)` -/
  size : ℕ
  principalCounts : ℕ → ℕ
  closed : Bool

structure FlowCreateRequest where
  principal : ℕ
  constellationID : ℕ
  flowID : ℕ
  leaseKey : ℕ
  upstream : ℕ
deriving DecidableEq

structure FlowAttachRequest where
  principal : ℕ
  constellationID : ℕ
  flowID : ℕ
  leaseKey : ℕ
  epoch : ℕ
deriving DecidableEq

/-- `maxFlowIDAttempts` -/
def maxFlowIDAttempts : ℕ := 8

namespace FlowRegistry

/-- `NewFlowRegistry` with limits it accepts -/
def new (maxFlows maxFlowsPerPrincipal : ℕ) : FlowRegistry := ⟨maxFlows, maxFlowsPerPrincipal, fun _ => none, 0, fun _ => 0, false⟩

/-- `decrementPrincipalLocked`; an absent entry reads as 0 -/
def decrementPrincipal (counts : ℕ → ℕ) (principal : ℕ) : ℕ → ℕ := update counts principal (counts principal - 1)

variable (r : FlowRegistry)

/-- a record goes -/
def delete (id : ℕ) (record : FlowRecord) : FlowRegistry :=
  { r with flows := update r.flows id none, size := r.size - 1
           principalCounts := decrementPrincipal r.principalCounts record.principal }

/-- `newFlowIDLocked` over the identifiers it draws -/
def newFlowID (drawn : List ℕ) : Option ℕ :=
  (drawn.take maxFlowIDAttempts).find? fun id => id ≠ 0 ∧ r.flows id = none

/-- `Create`; `drawn` is used when the request names no flow -/
def create (q : FlowCreateRequest) (drawn : List ℕ) : FlowRegistry × Except FlowErr ℕ :=
  if q.principal = 0 ∨ q.constellationID = 0 ∨ q.leaseKey = 0 ∨ q.upstream = 0 then (r, .error .binding)
  else if r.closed then (r, .error .registryClosed)
  else if r.maxFlows ≤ r.size ∨ r.maxFlowsPerPrincipal ≤ r.principalCounts q.principal then (r, .error .capacity)
  else
    let insert (id : ℕ) : FlowRegistry × Except FlowErr ℕ :=
      ({ r with flows := update r.flows id (some ⟨q.principal, q.constellationID, q.leaseKey, 1, q.upstream⟩)
                size := r.size + 1
                principalCounts := update r.principalCounts q.principal (r.principalCounts q.principal + 1) }, .ok id)
    if q.flowID = 0 then
      match r.newFlowID drawn with
      | none => (r, .error .entropy)
      | some id => insert id
    else if r.flows q.flowID ≠ none then (r, .error .conflict)
    else insert q.flowID

/-- `Attach`; the third component is the upstream it closes -/
def attach (q : FlowAttachRequest) : FlowRegistry × Except FlowErr FlowRecord × Option ℕ :=
  if q.principal = 0 ∨ q.constellationID = 0 ∨ q.flowID = 0 ∨ q.leaseKey = 0 ∨ q.epoch = 0 then
    (r, .error .binding, none)
  else if r.closed then (r, .error .registryClosed, none)
  else match r.flows q.flowID with
    | none => (r, .error .notFound, none)
    | some record =>
      if record.principal ≠ q.principal ∨ record.constellationID ≠ q.constellationID then (r, .error .binding, none)
      else if q.epoch = record.epoch ∧ q.leaseKey = record.leaseKey then (r, .ok record, none)
      else if record.epoch ≠ maxUint64 ∧ q.epoch = record.epoch + 1 then
        let record := { record with epoch := q.epoch, leaseKey := q.leaseKey }
        ({ r with flows := update r.flows q.flowID (some record) }, .ok record, none)
      else (r.delete q.flowID record, .error .conflict, some record.upstream)

/-- `Release`; the second component is the upstream it closes -/
def release (principal constellationID id : ℕ) : FlowRegistry × Except FlowErr ℕ :=
  if r.closed then (r, .error .registryClosed)
  else match r.flows id with
    | none => (r, .error .notFound)
    | some record =>
      if principal = 0 ∨ constellationID = 0 ∨ record.principal ≠ principal ∨ record.constellationID ≠ constellationID then
        (r, .error .binding)
      else (r.delete id record, .ok record.upstream)

def close : FlowRegistry :=
  if r.closed then r else { r with closed := true, flows := fun _ => none, size := 0, principalCounts := fun _ => 0 }

/-! ## What `Attach` can do -/

/-- the epochs and leases a record takes -/
def Follows (record : FlowRecord) (epoch leaseKey : ℕ) : Prop :=
  epoch = record.epoch ∧ leaseKey = record.leaseKey ∨ record.epoch ≠ maxUint64 ∧ epoch = record.epoch + 1

inductive Attached (r : FlowRegistry) (q : FlowAttachRequest) : FlowRegistry × Except FlowErr FlowRecord × Option ℕ → Prop where
  | refused {e : FlowErr} (h : e ≠ .conflict) : Attached r q (r, .error e, none)
  | same {record : FlowRecord} (h : r.flows q.flowID = some record) (he : q.epoch = record.epoch)
    (hl : q.leaseKey = record.leaseKey) : Attached r q (r, .ok record, none)
  | next {record : FlowRecord} (h : r.flows q.flowID = some record) (he : q.epoch = record.epoch + 1)
    (hb : record.principal = q.principal ∧ record.constellationID = q.constellationID) :
    Attached r q ({ r with flows := update r.flows q.flowID
                                      (some { record with epoch := q.epoch, leaseKey := q.leaseKey }) },
                  .ok { record with epoch := q.epoch, leaseKey := q.leaseKey }, none)
  | conflict {record : FlowRecord} (h : r.flows q.flowID = some record) (hn : ¬ Follows record q.epoch q.leaseKey)
    (hb : record.principal = q.principal ∧ record.constellationID = q.constellationID) :
    Attached r q (r.delete q.flowID record, .error .conflict, some record.upstream)

theorem attach_cases (r : FlowRegistry) (q : FlowAttachRequest) : Attached r q (r.attach q) := by
  unfold attach
  split_ifs
  · exact .refused (by decide)
  · exact .refused (by decide)
  split
  · exact .refused (by decide)
  rename_i record hrec
  split_ifs with h1 h2 h3
  · exact .refused (by decide)
  · exact .same hrec h2.1 h2.2
  · exact .next hrec h3.2 (by simpa using h1)
  · exact .conflict hrec (not_or.2 ⟨h2, h3⟩) (by simpa using h1)

/-! ## Accounting -/

inductive Op where
  | create (q : FlowCreateRequest) (drawn : List ℕ)
  | attach (q : FlowAttachRequest)
  | release (principal constellationID id : ℕ)
  | close
deriving DecidableEq

def step : Op → FlowRegistry
  | .create q drawn => (r.create q drawn).1
  | .attach q => (r.attach q).1
  | .release principal constellationID id => (r.release principal constellationID id).1
  | .close => r.close

/-- the upstream that a call closes for a flow -/
def closes : Op → ℕ → Option ℕ
  | .create _ _, _ => none
  | .attach q, id => if id = q.flowID then (r.attach q).2.2 else none
  | .release principal constellationID flowID, id =>
    if id = flowID then (r.release principal constellationID flowID).2.toOption else none
  | .close, id => if r.closed then none else (r.flows id).map FlowRecord.upstream

/-- the flow and the owner a call on one flow names -/
def Op.names : Op → Option (ℕ × ℕ × ℕ)
  | .attach q => some (q.flowID, q.principal, q.constellationID)
  | .release principal constellationID id => some (id, principal, constellationID)
  | .create _ _ | .close => none

/-- the registered flows, all of them or those of one principal -/
def flowsOf (flows : ℕ → Option FlowRecord) (owner : Option ℕ) : Set ℕ :=
  {id | ∃ record, flows id = some record ∧ ∀ p ∈ owner, record.principal = p}

/-- `len(r.flows)`, or the count of one principal -/
def count : Option ℕ → ℕ
  | none => r.size
  | some p => r.principalCounts p

def limit : Option ℕ → ℕ
  | none => r.maxFlows
  | some _ => r.maxFlowsPerPrincipal

structure Counted (r : FlowRegistry) : Prop where
  finite : ∀ owner, (flowsOf r.flows owner).Finite
  count : ∀ owner, r.count owner = (flowsOf r.flows owner).ncard
  limit : ∀ owner, r.count owner ≤ r.limit owner

/-- what one call may do to a flow -/
structure Isolated (r : FlowRegistry) (o : Op) : Prop where
  born : ∀ id record, r.flows id = none → (r.step o).flows id = some record → record.epoch = 1
  epoch : ∀ id record record', r.flows id = some record → (r.step o).flows id = some record' →
    record' = record ∨ ∃ q, o = .attach q ∧ o.names = some (id, record.principal, record.constellationID) ∧
      record' = { record with epoch := record.epoch + 1, leaseKey := q.leaseKey }
  foreign : ∀ id p c record, o.names = some (id, p, c) → r.flows id = some record →
    record.principal ≠ p ∨ record.constellationID ≠ c → r.step o = r ∧ ∀ x, r.closes o x = none
  others : ∀ id p c, o.names = some (id, p, c) → ∀ x ≠ id, (r.step o).flows x = r.flows x
  added : ∀ q drawn id, o = .create q drawn → (r.step o).flows id ≠ r.flows id → r.flows id = none
  /-- an upstream is closed by the call that removes its flow -/
  closed : ∀ id u, r.closes o id = some u ↔ ∃ record, r.flows id = some record ∧ record.upstream = u ∧ (r.step o).flows id = none

/-- the record a `Create` makes -/
def FlowCreateRequest.record (q : FlowCreateRequest) : FlowRecord := ⟨q.principal, q.constellationID, q.leaseKey, 1, q.upstream⟩

/-- everything a call can do: what it leaves of each flow and of the counts, and the upstreams it closes -/
inductive Effect (r : FlowRegistry) (o : Op) : FlowRegistry → (ℕ → Option ℕ) → Prop where
  | same : Effect r o r fun _ => none
  | created {q : FlowCreateRequest} {drawn : List ℕ} {id : ℕ} (ho : o = .create q drawn) (hnone : r.flows id = none)
    (hsize : r.size < r.maxFlows) (hcount : r.principalCounts q.principal < r.maxFlowsPerPrincipal) :
    Effect r o { r with flows := update r.flows id (some (FlowCreateRequest.record q)), size := r.size + 1
                        principalCounts := update r.principalCounts q.principal (r.principalCounts q.principal + 1) }
      fun _ => none
  | next {q : FlowAttachRequest} {record : FlowRecord} (hq : o = .attach q)
    (ho : o.names = some (q.flowID, record.principal, record.constellationID)) (h : r.flows q.flowID = some record) : Effect r o
      { r with flows := update r.flows q.flowID
                          (some { record with epoch := record.epoch + 1, leaseKey := q.leaseKey }) }
      fun _ => none
  | removed {id : ℕ} {record : FlowRecord} (ho : o.names = some (id, record.principal, record.constellationID))
    (h : r.flows id = some record) : Effect r o (r.delete id record) fun x => if x = id then some record.upstream else none
  | closed (ho : o = .close) : Effect r o { r with closed := true, flows := fun _ => none, size := 0, principalCounts := fun _ => 0 }
      fun x => (r.flows x).map FlowRecord.upstream

theorem step_effect (r : FlowRegistry) (o : Op) : Effect r o (r.step o) (r.closes o) := by
  cases o with
  | create q drawn =>
    change Effect r _ (r.create q drawn).1 fun _ => none
    unfold create
    split_ifs with h1 h2 h3 h4 h5
    · exact .same
    · exact .same
    · exact .same
    · simp only [not_or, not_le] at h3
      split
      · exact .same
      · rename_i id hid
        have hnew := find?_some hid
        exact .created rfl (of_decide_eq_true hnew).2 h3.1 h3.2
    · exact .same
    · simp only [not_or, not_le] at h3
      exact .created rfl (not_not.1 h5) h3.1 h3.2
  | attach q =>
    have hcases := r.attach_cases q
    change Effect r _ (r.attach q).1 fun id => if id = q.flowID then (r.attach q).2.2 else none
    generalize r.attach q = x at hcases
    cases hcases with
    | refused | same =>
      simp only [ite_self]
      exact .same
    | next h he hb =>
      simp only [ite_self, he]
      exact .next rfl (by simp [Op.names, hb]) h
    | conflict h hn hb => exact .removed (by simp [Op.names, hb]) h
  | release p c id =>
    change Effect r _ (r.release p c id).1 fun x => if x = id then (r.release p c id).2.toOption else none
    unfold release
    split_ifs
    · simp only [Except.toOption, ite_self]
      exact .same
    split
    · simp only [Except.toOption, ite_self]
      exact .same
    split_ifs with hb
    · simp only [Except.toOption, ite_self]
      exact .same
    · simp only [not_or, not_not] at hb
      rename_i record hrec
      exact .removed (by simp [Op.names, hb]) hrec
  | close =>
    unfold step closes close
    split_ifs
    · exact .same
    · exact .closed rfl

/-- what a call can do to one flow and its upstream -/
inductive Change (r : FlowRegistry) (o : Op) (id : ℕ) : Prop where
  | kept (h : (r.step o).flows id = r.flows id) (hc : r.closes o id = none)
  | born {q : FlowCreateRequest} {drawn : List ℕ} (ho : o = .create q drawn) (hold : r.flows id = none)
    (h : (r.step o).flows id = some (FlowCreateRequest.record q)) (hc : r.closes o id = none)
    (hothers : ∀ x ≠ id, (r.step o).flows x = r.flows x)
  | next {q : FlowAttachRequest} {record : FlowRecord} (hq : o = .attach q) (hold : r.flows id = some record)
    (h : (r.step o).flows id = some { record with epoch := record.epoch + 1, leaseKey := q.leaseKey })
    (ho : o.names = some (id, record.principal, record.constellationID)) (hc : r.closes o id = none)
  | gone {record : FlowRecord} (hold : r.flows id = some record) (h : (r.step o).flows id = none)
    (ho : o = .close ∨ o.names = some (id, record.principal, record.constellationID)) (hc : r.closes o id = some record.upstream)

theorem change (r : FlowRegistry) (o : Op) (id : ℕ) : Change r o id := by
  have heff := r.step_effect o
  generalize hr : r.step o = r' at heff
  generalize hc : r.closes o = f at heff
  cases heff with
  | same => exact .kept (by rw [hr]) (by rw [hc])
  | @created q drawn new ho hnone =>
    by_cases hx : id = new
    · subst hx
      exact .born ho hnone (hr ▸ update_self ..) (by rw [hc]) fun x hx => hr ▸ update_of_ne hx ..
    · exact .kept (hr ▸ update_of_ne hx ..) (by rw [hc])
  | @next q record hq ho h =>
    by_cases hx : id = q.flowID
    · subst hx
      exact .next hq h (hr ▸ update_self ..) ho (by rw [hc])
    · exact .kept (hr ▸ update_of_ne hx ..) (by rw [hc])
  | @removed old record ho h =>
    by_cases hx : id = old
    · subst hx
      exact .gone h (hr ▸ update_self ..) (.inr ho) (hc ▸ if_pos rfl)
    · exact .kept (hr ▸ update_of_ne hx ..) (hc ▸ if_neg hx)
  | closed ho =>
    have hclose : r.closes o id = (r.flows id).map FlowRecord.upstream := by rw [hc]
    cases hold : r.flows id with
    | none => exact .kept (by rw [hr, hold]) (hclose.trans (by rw [hold]; rfl))
    | some record => exact .gone hold (by rw [hr]) (.inl ho) (hclose.trans (by rw [hold]; rfl))

theorem isolated (r : FlowRegistry) (o : Op) : Isolated r o where
  born := by
    intro id record hnone hnew
    cases r.change o id with
    | born _ _ h =>
      cases h.symm.trans hnew
      rfl
    | kept h | next _ h | gone h => simp_all
  epoch := by
    intro id record record' hold hnew
    cases r.change o id with
    | kept h => exact .inl (Option.some.inj (hnew.symm.trans (h.trans hold)))
    | @next q _ hq hold' h ho =>
      cases hold.symm.trans hold'
      exact .inr ⟨q, hq, ho, Option.some.inj (hnew.symm.trans h)⟩
    | born _ h | gone _ h => simp_all
  foreign := by
    intro id p c record hn hold hne
    have howner : ∀ {x old}, o.names = some (x, FlowRecord.principal old, old.constellationID) → r.flows x ≠ some old := by
      intro x old ho hx
      cases ho.symm.trans hn
      cases hx.symm.trans hold
      exact hne.elim (absurd rfl) (absurd rfl)
    have heff := r.step_effect o
    generalize r.step o = r' at heff
    generalize r.closes o = f at heff
    cases heff with
    | same => exact ⟨rfl, fun _ => rfl⟩
    | created ho | closed ho =>
      rw [ho] at hn
      cases hn
    | next _ ho h | removed ho h => exact absurd h (howner ho)
  others := by
    intro id p c hn x hx
    cases r.change o x with
    | kept h => exact h
    | born ho | next _ _ _ ho => simp_all [Op.names]
    | gone _ _ ho => rcases ho with rfl | ho <;> simp_all [Op.names]
  added := by
    rintro q drawn id rfl hne
    cases r.change (.create q drawn) id with
    | kept h => exact absurd h hne
    | born _ hnone => exact hnone
    | next ho | gone _ _ ho => simp_all [Op.names]
  closed := by
    intro id u
    cases r.change o id with
    | kept h hc =>
      rw [hc, h]
      exact iff_of_false nofun fun ⟨_, hold, _, hnone⟩ => nomatch hnone.symm.trans hold
    | born _ hold h hc | next _ hold h _ hc | gone hold h _ hc => simp [hc, hold, h]

variable {r} {o : Op} {flows : ℕ → Option FlowRecord} {id : ℕ} {record : FlowRecord} {owner : Option ℕ}

/-- one flow more -/
theorem ncard_flowsOf (hnone : flows id = none) (hfin : (flowsOf flows owner).Finite) :
    (flowsOf (update flows id (some record)) owner).Finite ∧
    (flowsOf (update flows id (some record)) owner).ncard =
      (flowsOf flows owner).ncard + if ∀ p ∈ owner, record.principal = p then 1 else 0 := by
  have hset : flowsOf (update flows id (some record)) owner =
      if ∀ p ∈ owner, record.principal = p then insert id (flowsOf flows owner) else flowsOf flows owner := by
    ext x
    by_cases hx : x = id
    · split_ifs <;> simp_all [flowsOf]
    · split_ifs <;> simp [flowsOf, hx]
  rw [hset]
  split_ifs
  · exact ⟨hfin.insert id, Set.ncard_insert_of_notMem (by simp [flowsOf, hnone]) hfin⟩
  · exact ⟨hfin, rfl⟩

theorem Counted.empty (hflows : r.flows = fun _ => none) (hcount : ∀ owner, r.count owner = 0) : Counted r := by
  have hset : ∀ owner, flowsOf r.flows owner = ∅ := by simp [flowsOf, hflows]
  refine ⟨fun owner => hset owner ▸ Set.finite_empty, fun owner => ?_, fun owner => hcount owner ▸ Nat.zero_le _⟩
  rw [hcount, hset, Set.ncard_empty]

theorem Effect.counted {r' : FlowRegistry} {f : ℕ → Option ℕ} (h : Counted r) (heff : Effect r o r' f) : Counted r' := by
  cases heff with
  | same => exact h
  | @created q _ _ _ hnone hsize hcount =>
    refine ⟨fun owner => (ncard_flowsOf hnone (h.finite owner)).1, fun owner => ?_, fun owner => ?_⟩
    · rw [(ncard_flowsOf hnone (h.finite owner)).2, ← h.count]
      cases owner with
      | none => simp [count]
      | some p =>
        simp only [count, update_apply, FlowCreateRequest.record, Option.mem_some_iff, forall_eq', eq_comm]
        split_ifs with hp
        · rw [hp]
        · rfl
    · have hle := h.limit owner
      cases owner with
      | none => exact hsize
      | some p =>
        simp only [count, limit, update_apply] at hle ⊢
        split_ifs
        · exact hcount
        · exact hle
  | @next q record _ _ hrec =>
    have hset : ∀ owner, flowsOf (update r.flows q.flowID
        (some { record with epoch := record.epoch + 1, leaseKey := q.leaseKey })) owner = flowsOf r.flows owner := by
      intro owner
      ext x
      by_cases hx : x = q.flowID
      · simp [flowsOf, hx, hrec]
      · simp [flowsOf, hx]
    exact ⟨fun owner => hset owner ▸ h.finite owner, fun owner => hset owner ▸ h.count owner, h.limit⟩
  | @removed id record _ hrec =>
    -- the registry before is the one after with the flow added
    have hback : update (r.delete id record).flows id (some record) = r.flows := by
      rw [delete, update_idem, ← hrec, update_eq_self]
    have hgone : (r.delete id record).flows id = none := update_self ..
    have hfin : ∀ owner, (flowsOf (r.delete id record).flows owner).Finite := by
      refine fun owner => (h.finite owner).subset fun x hx => ?_
      by_cases he : x = id
      · simp [flowsOf, delete, he] at hx
      · simpa [flowsOf, delete, he] using hx
    have hless : ∀ owner, (r.delete id record).count owner =
        r.count owner - if ∀ p ∈ owner, record.principal = p then 1 else 0 := by
      intro owner
      cases owner with
      | none => simp [count, delete]
      | some p =>
        simp only [count, delete, decrementPrincipal, update_apply, Option.mem_some_iff, forall_eq', eq_comm]
        split_ifs with hp
        · rw [hp]
        · rfl
    refine ⟨hfin, fun owner => ?_, fun owner => ?_⟩
    · rw [hless, h.count, ← hback, (ncard_flowsOf hgone (hfin owner)).2]
      omega
    · rw [hless]
      exact le_trans (Nat.sub_le ..) (h.limit owner)
  | closed => exact .empty rfl fun owner => by cases owner <;> rfl

/-- **in every run the counts are those of the registered flows and within their limits, and a call touches only the
flow and the owner it names, closing the upstreams of the flows it removes** -/
theorem flows_accounted (maxFlows maxFlowsPerPrincipal : ℕ) (ops : List Op) :
    let r := run step (new maxFlows maxFlowsPerPrincipal) ops
    Counted r ∧ ∀ o, Isolated r o := by
  have hstart : Counted (new maxFlows maxFlowsPerPrincipal) := .empty rfl fun owner => by cases owner <;> rfl
  exact ⟨run_inv (fun r o h => (r.step_effect o).counted h) hstart ops, isolated _⟩

example : ∃ r, run step (new 1 1) [.create ⟨1, 1, 7, 1, 5⟩ [], .attach ⟨1, 1, 7, 2, 2⟩] = r ∧
    r.flows 7 = some ⟨1, 1, 2, 2, 5⟩ ∧ (r.release 1 1 7).2 = .ok 5 := ⟨_, rfl, rfl, rfl⟩

/-! ## Upstreams -/

/-- the upstream of a flow -/
def held (r : FlowRegistry) (id : ℕ) : Option ℕ := (r.flows id).map FlowRecord.upstream

/-- the upstream a call brings -/
def Op.brings : Op → List ℕ
  | .create q _ => [q.upstream]
  | _ => []

/-- an upstream was with its flow before the call, or the call brought it and changed nothing else -/
theorem held_step {u : ℕ} (hu : held (r.step o) id = some u) :
    held r id = some u ∨ u ∈ o.brings ∧ ∀ x ≠ id, held (r.step o) x = held r x := by
  unfold held at hu ⊢
  cases r.change o id with
  | kept h => exact .inl (h ▸ hu)
  | @born q drawn ho _ h _ hothers =>
    rw [h] at hu
    cases hu
    exact .inr ⟨ho ▸ mem_singleton_self _, fun x hx => by rw [hothers x hx]⟩
  | next _ hold h =>
    rw [h] at hu
    exact .inl (hold ▸ hu)
  | gone _ h =>
    rw [h] at hu
    cases hu

/-- no upstream has two flows, and all of them have been brought -/
structure Owned (brought : List ℕ) (r : FlowRegistry) : Prop where
  known : ∀ {id u}, held r id = some u → u ∈ brought
  once : ∀ {id id' u}, held r id = some u → held r id' = some u → id = id'

theorem Owned.step {brought : List ℕ} (h : Owned brought r) (hnew : (brought ++ o.brings).Nodup) :
    Owned (brought ++ o.brings) (r.step o) := by
  have hfresh : ∀ {x u}, held r x = some u → u ∉ o.brings := fun hx hu => (nodup_append.1 hnew).2.2 _ (h.known hx) _ hu rfl
  refine ⟨fun hu => mem_append.2 ((held_step hu).imp h.known And.left), fun {x y u} hx hy => ?_⟩
  rcases held_step hx with hold | ⟨hu, hothers⟩
  · rcases held_step hy with hold' | ⟨hu, -⟩
    · exact h.once hold hold'
    · exact absurd hu (hfresh hold)
  · by_contra hne
    exact hfresh (hothers y (Ne.symm hne) ▸ hy) hu

theorem run_owned (maxFlows maxFlowsPerPrincipal : ℕ) (ops : List Op) (hnew : (ops.flatMap Op.brings).Nodup) :
    Owned (ops.flatMap Op.brings) (run step (new maxFlows maxFlowsPerPrincipal) ops) := by
  induction ops using reverseRecOn with
  | nil => exact ⟨nofun, nofun⟩
  | append_singleton ops o ih =>
    rw [flatMap_append, flatMap_singleton] at hnew ⊢
    rw [run_append]
    exact (ih (nodup_append.1 hnew).1).step hnew

/-- an upstream that has no flow gets none until a call brings it again -/
theorem free_run {u : ℕ} (ops : List Op) (hu : u ∉ ops.flatMap Op.brings) (h : ∀ id, held r id ≠ some u) (id : ℕ) :
    held (run step r ops) id ≠ some u := by
  induction ops generalizing r with
  | nil => exact h id
  | cons o ops ih =>
    rw [flatMap_cons, mem_append, not_or] at hu
    exact ih hu.2 fun x hx => (held_step hx).elim (h x) fun hnew => hu.1 hnew.1

/-- **Each upstream is closed once**, where every `Create` brings one of its own: the call that closes it does so for one flow,
and no call behind it closes it again. -/
theorem upstream_closed_once {maxFlows maxFlowsPerPrincipal : ℕ} {before after : List Op}
    (hr : run step (new maxFlows maxFlowsPerPrincipal) before = r)
    (hnew : ((before ++ o :: after).flatMap Op.brings).Nodup) {u : ℕ} (hc : r.closes o id = some u) :
    (∀ id', r.closes o id' = some u → id' = id) ∧ ∀ o' id', (run step (r.step o) after).closes o' id' ≠ some u := by
  rw [flatMap_append, flatMap_cons, ← append_assoc, nodup_append] at hnew
  have hown : Owned (before.flatMap Op.brings) r := hr ▸ run_owned _ _ _ (nodup_append.1 hnew.1).1
  have hheld : ∀ {r : FlowRegistry} {o id}, r.closes o id = some u → held r id = some u ∧ held (r.step o) id = none := by
    intro r o id hc
    obtain ⟨record, hold, rfl, hnone⟩ := ((isolated r o).closed id u).1 hc
    simp [held, hold, hnone]
  have hknown := mem_append_left o.brings (hown.known (hheld hc).1)
  refine ⟨fun id' hc' => hown.once (hheld hc').1 (hheld hc).1, fun o' id' hc' => ?_⟩
  refine free_run after (fun hu => hnew.2.2 u hknown u hu rfl) (fun x hx => ?_) id' (hheld hc').1
  rcases held_step hx with hold | ⟨hu, -⟩
  · cases hown.once hold (hheld hc).1
    cases (hheld hc).2.symm.trans hx
  · exact (nodup_append.1 hnew.1).2.2 u (hown.known (hheld hc).1) u hu rfl

end FlowRegistry

end NeProto.Continuity
