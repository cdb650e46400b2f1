/-
The server side of a migration (`internal/proxy/continuity.go`): `AdmitNew` registers a flow, `Resume` attaches it to the
lease of another carrier and then replaces the physical stream. The physical streams and control channels answer as the
environment decides (`bound`, `replaced`); `finish` is also what the flow's relay, its migration timer and `Abort` call.
Physical streams, timers and resource counters are not modelled.

`Resume` looks the flow up under one lock and attaches it under another, so it is two operations.

- `resumeAttach_cases`: what `Resume` can do to the record of its flow.
- `step_elsewhere`: calls for other flows leave a record alone.
-/
import NeProto.Continuity.FlowRegistry

namespace NeProto.Proxy

open Function

open Continuity (FlowRegistry FlowRecord FlowErr FlowAttachRequest)

/-- `ContinuityLease`, the lease of the carrier a request came in on -/
structure Lease where
  principal : ℕ
  constellationID : ℕ
  leaseKey : ℕ

/-- the fields of `ContinuityOpenMetadata` that `AdmitNew` and `Resume` read -/
structure OpenMetadata where
  constellationID : ℕ
  flowID : ℕ
  leaseKey : ℕ
  epoch : ℕ

inductive RuntimeErr where
  | leaseBinding
  | closed
  | flow (e : FlowErr)
  | control
  | replace
deriving DecidableEq

structure Runtime where
  registry : FlowRegistry
  /-- the keys of `r.flows` -/
  flows : ℕ → Bool
  closed : Bool

/-- `validContinuityLease` -/
def validContinuityLease (lease : Lease) (m : OpenMetadata) : Bool :=
  decide (lease.principal ≠ 0 ∧ lease.constellationID ≠ 0 ∧ lease.leaseKey ≠ 0 ∧ m.constellationID = lease.constellationID ∧
    m.leaseKey = lease.leaseKey)

namespace Runtime

variable (rt : Runtime)

/-- `serverContinuityFlow.finish` -/
def finish (principal constellationID id : ℕ) : Runtime :=
  { rt with flows := update rt.flows id false, registry := (rt.registry.release principal constellationID id).1 }

section

variable (lease : Lease) (m : OpenMetadata)

/-- `AdmitNew` up to the registry -/
def admitCreate (upstream : ℕ) : Runtime × Except RuntimeErr Unit :=
  if validContinuityLease lease m then
    match rt.registry.create ⟨lease.principal, lease.constellationID, m.flowID, lease.leaseKey, upstream⟩ [] with
    | (registry, .ok _) => ({ rt with registry := registry }, .ok ())
    | (registry, .error e) => ({ rt with registry := registry }, .error (.flow e))
  else (rt, .error .leaseBinding)

/-- the rest of `AdmitNew`; `bound` says whether the control channel took the flow -/
def admitRegister (bound : Bool) : Runtime × Except RuntimeErr Unit :=
  let released := { rt with registry := (rt.registry.release lease.principal lease.constellationID m.flowID).1 }
  if !bound then (released, .error .control)
  else if rt.closed then (released, .error .closed)
  else if rt.flows m.flowID then (released, .error (.flow .conflict))
  else ({ rt with flows := update rt.flows m.flowID true }, .ok ())

/-- the checks of `Resume` up to the lookup of the flow -/
def resumeLookup : Except RuntimeErr Unit :=
  if !validContinuityLease lease m then .error .leaseBinding
  else if rt.closed then .error .closed
  else if !rt.flows m.flowID then .error (.flow .notFound)
  else .ok ()

/-- the request `Resume` makes of the registry -/
def attachRequest : FlowAttachRequest :=
  ⟨lease.principal, lease.constellationID, m.flowID, lease.leaseKey, m.epoch⟩

/-- the rest of `Resume`; `replaced` says whether the flow's stream could be replaced -/
def resumeAttach (replaced : Bool) : Runtime × Except RuntimeErr Unit :=
  match rt.registry.attach (attachRequest lease m) with
  | (registry, .error e, _) =>
    let rt := { rt with registry := registry }
    (if e = .conflict then rt.finish lease.principal lease.constellationID m.flowID else rt, .error (.flow e))
  | (registry, .ok _, _) => ({ rt with registry := registry }, if replaced then .ok () else .error .replace)

end

/-- the registry attached the flow, whatever came of the replacement -/
def attached : Except RuntimeErr Unit → Bool
  | .ok _ | .error .replace => true
  | _ => false

/-! ## The machine -/

inductive RtOp where
  | admitCreate (lease : Lease) (m : OpenMetadata) (upstream : ℕ)
  | admitRegister (lease : Lease) (m : OpenMetadata) (bound : Bool)
  | resumeAttach (lease : Lease) (m : OpenMetadata) (replaced : Bool)
  | finish (principal constellationID id : ℕ)

/-- the flow a call is about -/
def RtOp.flowID : RtOp → ℕ
  | .admitCreate _ m _ | .admitRegister _ m _ | .resumeAttach _ m _ => m.flowID
  | .finish _ _ id => id

def step : RtOp → Runtime
  | .admitCreate lease m upstream => (rt.admitCreate lease m upstream).1
  | .admitRegister lease m bound => (rt.admitRegister lease m bound).1
  | .resumeAttach lease m replaced => (rt.resumeAttach lease m replaced).1
  | .finish principal constellationID id => rt.finish principal constellationID id

/-- `Close` up to its calls of `finish` -/
def close : Runtime := { rt with closed := true }

/-- the end of `Close` -/
def closeRegistry : Runtime := { rt with registry := rt.registry.close }

/-! ## What the calls do to a record -/

/-- a release takes at most the record of its own flow -/
theorem release_flows (r : FlowRegistry) (principal constellationID id : ℕ) :
    (r.release principal constellationID id).1.flows = r.flows ∨
      (r.release principal constellationID id).1.flows = update r.flows id none := by
  unfold FlowRegistry.release
  split_ifs
  · exact .inl rfl
  split
  · exact .inl rfl
  split_ifs
  · exact .inl rfl
  · exact .inr rfl

theorem release_other (r : FlowRegistry) (principal constellationID : ℕ) {id id' : ℕ} (h : id' ≠ id) :
    (r.release principal constellationID id).1.flows id' = r.flows id' :=
  (r.isolated (.release principal constellationID id)).others id _ _ rfl id' h

theorem release_self (r : FlowRegistry) (principal constellationID id : ℕ) {record : FlowRecord}
    (h : (r.release principal constellationID id).1.flows id = some record) : r.flows id = some record := by
  rcases release_flows r principal constellationID id with he | he
  · rwa [he] at h
  · rw [he, update_self] at h
    cases h

/-- everything `resumeAttach` can do -/
inductive Resumed (rt : Runtime) (lease : Lease) (m : OpenMetadata) : Runtime × Except RuntimeErr Unit → Prop where
  | refused {e : FlowErr} (he : e ≠ .conflict) : Resumed rt lease m (rt, .error (.flow e))
  | attached {rt' : Runtime} {answer : Except RuntimeErr Unit} {record record' : FlowRecord}
    (ha : Runtime.attached answer = true) (h : rt.registry.flows m.flowID = some record)
    (h' : rt'.registry.flows = update rt.registry.flows m.flowID (some record'))
    (he : record'.epoch = m.epoch) (hl : record'.leaseKey = lease.leaseKey) : Resumed rt lease m (rt', answer)
  | conflict {rt' : Runtime} {record : FlowRecord} (h : rt.registry.flows m.flowID = some record)
    (hn : ¬ FlowRegistry.Follows record m.epoch lease.leaseKey)
    (h' : rt'.registry.flows = update rt.registry.flows m.flowID none) :
    Resumed rt lease m (rt', .error (.flow .conflict))

/-- **Resume.** The record takes the epoch and the lease of an attached request; it goes only on a conflict. -/
theorem resumeAttach_cases (rt : Runtime) (lease : Lease) (m : OpenMetadata) (replaced : Bool) :
    Resumed rt lease m (rt.resumeAttach lease m replaced) := by
  have hanswer : Runtime.attached (if replaced then .ok () else .error .replace) = true := by
    cases replaced <;> rfl
  unfold resumeAttach
  generalize hx : rt.registry.attach (attachRequest lease m) = x
  have hc := rt.registry.attach_cases (attachRequest lease m)
  rw [hx] at hc
  cases hc with
  | refused he =>
    simp only [if_neg he]
    exact .refused he
  | same h he hl => exact .attached hanswer h (update_eq_self_iff.2 h.symm).symm he.symm hl.symm
  | next h he => exact .attached hanswer h rfl rfl rfl
  | @conflict record h hn =>
    refine .conflict h hn ?_
    rcases release_flows (rt.registry.delete m.flowID record) lease.principal lease.constellationID m.flowID with hr | hr
    · exact hr
    · exact hr.trans (update_idem ..)

/-- a creation writes at most the record of its own flow, and starts it at epoch 1 -/
theorem create_flows (r : FlowRegistry) (q : Continuity.FlowCreateRequest) :
    (r.create q []).1.flows = r.flows ∨ r.flows q.flowID = none ∧ ∃ record : FlowRecord, record.epoch = 1 ∧
      (r.create q []).1.flows = update r.flows q.flowID (some record) := by
  unfold FlowRegistry.create
  split_ifs with _ _ _ _ hnone
  · exact .inl rfl
  · exact .inl rfl
  · exact .inl rfl
  · exact .inl rfl
  · exact .inl rfl
  · exact .inr ⟨not_not.1 hnone, _, rfl, rfl⟩

theorem admitCreate_flows (rt : Runtime) (lease : Lease) (m : OpenMetadata) (upstream : ℕ) :
    (rt.admitCreate lease m upstream).1.registry.flows = rt.registry.flows ∨
      rt.registry.flows m.flowID = none ∧ ∃ record : FlowRecord, record.epoch = 1 ∧
        (rt.admitCreate lease m upstream).1.registry.flows = update rt.registry.flows m.flowID (some record) := by
  have hc := create_flows rt.registry ⟨lease.principal, lease.constellationID, m.flowID, lease.leaseKey, upstream⟩
  unfold admitCreate
  split_ifs
  · split
    all_goals rename_i hx; rw [hx] at hc; exact hc
  · exact .inl rfl

/-- the record is released, or the flow is entered -/
theorem admitRegister_flows (rt : Runtime) (lease : Lease) (m : OpenMetadata) (bound : Bool) :
    (rt.admitRegister lease m bound).1.registry.flows = rt.registry.flows ∨
      (rt.admitRegister lease m bound).1.registry.flows = update rt.registry.flows m.flowID none := by
  have hr := release_flows rt.registry lease.principal lease.constellationID m.flowID
  unfold admitRegister
  split_ifs
  · exact hr
  · exact hr
  · exact hr
  · exact .inl rfl

/-- Calls for other flows leave a record alone. -/
theorem step_elsewhere (rt : Runtime) (o : RtOp) {id : ℕ} (h : id ≠ o.flowID) :
    (rt.step o).registry.flows id = rt.registry.flows id := by
  cases o with
  | admitCreate lease m upstream =>
    change (rt.admitCreate lease m upstream).1.registry.flows id = _
    rcases admitCreate_flows rt lease m upstream with he | ⟨-, record, -, he⟩
    · rw [he]
    · rw [he]
      exact update_of_ne h _ _
  | admitRegister lease m bound =>
    change (rt.admitRegister lease m bound).1.registry.flows id = _
    rcases admitRegister_flows rt lease m bound with he | he
    · rw [he]
    · rw [he]
      exact update_of_ne h _ _
  | resumeAttach lease m replaced =>
    change (rt.resumeAttach lease m replaced).1.registry.flows id = _
    generalize hx : rt.resumeAttach lease m replaced = x
    have hc := resumeAttach_cases rt lease m replaced
    rw [hx] at hc
    cases hc with
    | refused => rfl
    | attached _ _ h' | conflict _ _ h' =>
      rw [h']
      exact update_of_ne h _ _
  | finish principal constellationID id' => exact release_other rt.registry principal constellationID h

end Runtime

end NeProto.Proxy
